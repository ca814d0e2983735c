import Saarathi.SessionManager

/-!
# No channel is lost

In every run of the pool its two maps agree, their entries are in the order of
the acquisitions, and a channel that leaves is closed, or is about to be by the
caller that took it out.
-/

namespace Saarathi
namespace SessionManager

open Machine

variable {K : Type} [DecidableEq K]

/-- The channel `i` has not been acquired since `j` was. -/
def LessRecent (acquired : List ChannelId) (i j : ChannelId) : Prop :=
  ∃ earlier later, acquired = earlier ++ later ∧ i ∉ later ∧ j ∈ later

/-- Before anything else, the caller closes this channel. -/
def Owes : List (Section K) → ChannelId → Prop
  | .close i _ :: bs,j => i = j ∨ Owes bs j
  | _,_ => False

def Manager.Closed (s : Manager K) (i : ChannelId) : Prop := ∃ c, s.channels[i]? = some c ∧ c.closed = true

section LessRecent

variable {acquired : List ChannelId} {i j : ChannelId}

theorem LessRecent.ne (h : LessRecent acquired i j) : i ≠ j := by
  rintro rfl
  obtain ⟨earlier,later,-,hi,hj⟩ := h
  exact hi hj

theorem LessRecent.snoc {k : ChannelId} (h : LessRecent acquired i j) (hk : i ≠ k) :
    LessRecent (acquired ++ [k]) i j := by
  obtain ⟨earlier,later,rfl,hi,hj⟩ := h
  refine ⟨earlier,later ++ [k],by simp,?_,by simp [hj]⟩
  simpa [hi] using hk

theorem lessRecent_last (h : i ≠ j) : LessRecent (acquired ++ [j]) i j := ⟨acquired,[j],rfl,by simpa using h,by simp⟩

end LessRecent

namespace Manager

variable {s s' : Manager K} {k k' : K} {i j : ChannelId} {max idleCloseS : ℕ} {made : Made} {b : Bool}

/-- Each entry stands in both maps with the time of the last acquisition, and the entries are in the order
of these. -/
structure Tidy (s : Manager K) : Prop where
  stamped : ∀ k i, (k,i) ∈ s.chans.items →
    ∃ c, s.channels[i]? = some c ∧ s.lastUsed.get? k = some c.lastAcquired
  used : ∀ k ∈ s.lastUsed.keys, k ∈ s.chans.keys
  order : s.chans.values.Pairwise (LessRecent s.acquired)

/-- No channel that was pooled or closed is lost. -/
def Keeps (s s' : Manager K) : Prop :=
  ∀ i < s'.channels.length, (i < s.channels.length → i ∈ s.chans.values ∨ s.Closed i) →
    i ∈ s'.chans.values ∨ s'.Closed i

namespace Tidy

theorem keys_iff (h : s.Tidy) : k ∈ s.chans.keys ↔ k ∈ s.lastUsed.keys := by
  constructor
  · intro hk
    obtain ⟨i,hi⟩ := OrderedDict.mem_keys_iff.mp hk
    obtain ⟨c,-,hc⟩ := h.stamped k i hi
    exact OrderedDict.mem_keys_iff.mpr ⟨_,OrderedDict.get?_eq_some_iff.mp hc⟩
  · exact h.used k

theorem lt_length (h : s.Tidy) (hi : i ∈ s.chans.values) : i < s.channels.length := by
  obtain ⟨k,hk⟩ := OrderedDict.mem_values_iff.mp hi
  obtain ⟨c,hc,-⟩ := h.stamped k i hk
  exact (List.getElem?_eq_some_iff.mp hc).1

theorem nodup_values (h : s.Tidy) : s.chans.values.Nodup := h.order.imp LessRecent.ne

/-- A channel is pooled for one conversation. -/
theorem key_inj (h : s.Tidy) (hk : (k,i) ∈ s.chans.items) (hk' : (k',i) ∈ s.chans.items) : k = k' := by
  have heq := List.inj_on_of_nodup_map h.nodup_values hk hk' rfl
  exact (Prod.mk.inj heq).1

theorem drop (h : s.Tidy) (k : K) : (s.drop k).Tidy := by
  refine ⟨?_,?_,?_⟩
  · intro k' i hi
    obtain ⟨hmem,hne⟩ := OrderedDict.mem_items_erase.mp hi
    obtain ⟨c,hc,hused⟩ := h.stamped k' i hmem
    refine ⟨c,hc,OrderedDict.get?_eq_some_iff.mpr ?_⟩
    exact OrderedDict.mem_items_erase.mpr ⟨OrderedDict.get?_eq_some_iff.mp hused,hne⟩
  · intro k' hk'
    obtain ⟨hmem,hne⟩ := OrderedDict.mem_keys_erase.mp hk'
    exact OrderedDict.mem_keys_erase.mpr ⟨h.used k' hmem,hne⟩
  · exact h.order.sublist (List.filter_sublist.map _)

/-- What a channel goes through besides acquisitions. -/
theorem modify (h : s.Tidy) {f : ChannelState → ChannelState} (hf : ∀ c, (f c).lastAcquired = c.lastAcquired)
    (hchans : s'.chans = s.chans) (hused : s'.lastUsed = s.lastUsed) (hacquired : s'.acquired = s.acquired)
    (hchannels : s'.channels = s.channels.modify i f) : s'.Tidy := by
  refine ⟨?_,?_,?_⟩
  · intro k j hj
    obtain ⟨c,hc,hlast⟩ := h.stamped k j (hchans ▸ hj)
    by_cases hij : i = j
    · refine ⟨f c,?_,?_⟩
      · simp [hchannels,hc,hij]
      · rw [hused,hf,hlast]
    · refine ⟨c,?_,hused ▸ hlast⟩
      simp [hchannels,hc,hij]
  · rw [hchans,hused]
    exact h.used
  · rw [hchans,hacquired]
    exact h.order

theorem closeChannel (h : s.Tidy) : (s.closeChannel b i).Tidy :=
  h.modify (f := fun c => { c with closed := true }) (fun _ => rfl) rfl rfl rfl rfl

/-- The channel is handed out again: its entry is the last one now. -/
theorem reuse (h : s.Tidy) (hi : (k,i) ∈ s.chans.items) :
    (stamp { s with chans := s.chans.moveToEnd k, lastUsed := s.lastUsed.set k s.now } i).Tidy := by
  refine ⟨?_,?_,?_⟩
  · intro k' j hj
    have hmem : (k',j) ∈ s.chans.items := OrderedDict.mem_items_moveToEnd.mp hj
    obtain ⟨c,hc,hlast⟩ := h.stamped k' j hmem
    by_cases hk : k' = k
    · subst hk
      obtain rfl := OrderedDict.items_inj hi hmem
      refine ⟨{ c with lastAcquired := s.now },by simp [stamp,hc],OrderedDict.get?_eq_some_iff.mpr ?_⟩
      exact OrderedDict.mem_items_set.mpr (.inr ⟨rfl,rfl⟩)
    · have hij : i ≠ j := fun hij => hk (h.key_inj hmem (hij ▸ hi))
      refine ⟨c,by simp [stamp,hc,hij],OrderedDict.get?_eq_some_iff.mpr ?_⟩
      exact OrderedDict.mem_items_set.mpr (.inl ⟨OrderedDict.get?_eq_some_iff.mp hlast,hk⟩)
  · intro k' hk'
    obtain ⟨v,hv⟩ : ∃ v, (k',v) ∈ s.chans.items := by
      rcases OrderedDict.mem_keys_set.mp hk' with rfl | hk'
      · exact ⟨i,hi⟩
      · exact OrderedDict.mem_keys_iff.mp (h.used k' hk')
    exact OrderedDict.mem_keys_iff.mpr ⟨v,OrderedDict.mem_items_moveToEnd.mpr hv⟩
  · have hvalues : (s.chans.moveToEnd k).values = (s.chans.erase k).values ++ [i] := by
      simp [OrderedDict.values,OrderedDict.items_moveToEnd hi]
    have hother : ∀ j ∈ (s.chans.erase k).values, j ≠ i := by
      rintro j hj rfl
      obtain ⟨k',hk'⟩ := OrderedDict.mem_values_iff.mp hj
      obtain ⟨hmem,hne⟩ := OrderedDict.mem_items_erase.mp hk'
      exact hne (h.key_inj hmem hi)
    show (s.chans.moveToEnd k).values.Pairwise (LessRecent (s.acquired ++ [i]))
    rw [hvalues]
    refine List.pairwise_append.mpr ⟨?_,List.pairwise_singleton _ _,?_⟩
    · refine List.Pairwise.imp_of_mem ?_ (h.drop k).order
      intro a b ha hb hab
      exact hab.snoc (hother a ha)
    · intro j hj i' hi'
      obtain rfl := List.mem_singleton.mp hi'
      exact lessRecent_last (hother j hj)

/-- A new channel is the last entry. -/
theorem opened (h : s.Tidy) (hk : k ∉ s.chans.keys) (d : ℕ) :
    (stamp { s with
      now := s.now + d
      channels := s.channels ++ [{ lastAcquired := s.now + d }]
      chans := s.chans.set k s.channels.length
      lastUsed := s.lastUsed.set k (s.now + d) } s.channels.length).Tidy := by
  have hitems := OrderedDict.items_set_of_not_mem (v := s.channels.length) hk
  refine ⟨?_,?_,?_⟩
  · intro k' j hj
    rcases OrderedDict.mem_items_set.mp hj with ⟨hmem,hne⟩ | ⟨rfl,rfl⟩
    · obtain ⟨c,hc,hlast⟩ := h.stamped k' j hmem
      have hlt : j < s.channels.length := h.lt_length (OrderedDict.mem_values_iff.mpr ⟨k',hmem⟩)
      have hj' : s.channels.length ≠ j := Nat.ne_of_gt hlt
      refine ⟨c,?_,OrderedDict.get?_eq_some_iff.mpr ?_⟩
      · simp [stamp,hj',List.getElem?_append_left hlt,hc]
      · exact OrderedDict.mem_items_set.mpr (.inl ⟨OrderedDict.get?_eq_some_iff.mp hlast,hne⟩)
    · refine ⟨{ lastAcquired := s.now + d },by simp [stamp],OrderedDict.get?_eq_some_iff.mpr ?_⟩
      exact OrderedDict.mem_items_set.mpr (.inr ⟨rfl,rfl⟩)
  · intro k' hk'
    rcases OrderedDict.mem_keys_set.mp hk' with rfl | hk'
    · exact OrderedDict.mem_keys_set.mpr (.inl rfl)
    · exact OrderedDict.mem_keys_set.mpr (.inr (h.used k' hk'))
  · have hvalues : (s.chans.set k s.channels.length).values = s.chans.values ++ [s.channels.length] := by
      simp [OrderedDict.values,hitems]
    have hother : ∀ j ∈ s.chans.values, j ≠ s.channels.length := fun j hj => Nat.ne_of_lt (h.lt_length hj)
    show (s.chans.set k s.channels.length).values.Pairwise (LessRecent (s.acquired ++ [s.channels.length]))
    rw [hvalues]
    refine List.pairwise_append.mpr ⟨?_,List.pairwise_singleton _ _,?_⟩
    · refine List.Pairwise.imp_of_mem ?_ h.order
      intro a b ha hb hab
      exact hab.snoc (hother a ha)
    · intro j hj i' hi'
      obtain rfl := List.mem_singleton.mp hi'
      exact lessRecent_last (hother j hj)

end Tidy

section Evict

theorem evictIfNeeded_of_lt (h : s.chans.items.length < max) (n : ℕ) : s.evictIfNeeded max n = s := by
  cases n with
  | zero => rfl
  | succ n =>
    rw [evictIfNeeded]
    split
    · rfl
    · rw [if_neg (by omega)]

theorem length_drop_of_cons {rest : List (K × ChannelId)} (h : s.chans.items = (k,i) :: rest) :
    (s.drop k).chans.items.length < s.chans.items.length := by
  apply OrderedDict.length_erase_lt
  exact OrderedDict.mem_keys_iff.mpr ⟨i,by simp [h]⟩

/-- Of a pool within its bound at most the first entry goes. -/
theorem evictIfNeeded_eq (hmax : 0 < max) (h : s.chans.items.length ≤ max) :
    (s.chans.items.length < max ∧ s.evictIfNeeded max s.chans.items.length = s) ∨
    ∃ k i rest, s.chans.items = (k,i) :: rest ∧ max ≤ s.chans.items.length ∧
      s.evictIfNeeded max s.chans.items.length = (s.drop k).closeChannel true i := by
  by_cases hlt : s.chans.items.length < max
  · exact .inl ⟨hlt,evictIfNeeded_of_lt hlt _⟩
  · right
    cases hitems : s.chans.items with
    | nil =>
      rw [hitems,List.length_nil] at hlt
      omega
    | cons p rest =>
      obtain ⟨k,i⟩ := p
      have hdrop := length_drop_of_cons hitems
      have hfull : max ≤ ((k,i) :: rest).length := hitems ▸ Nat.not_lt.mp hlt
      refine ⟨k,i,rest,rfl,hfull,?_⟩
      rw [List.length_cons,evictIfNeeded]
      simp only [hitems]
      rw [if_pos hfull]
      apply evictIfNeeded_of_lt
      show (s.drop k).chans.items.length < max
      omega

end Evict

theorem Tidy.evictIfNeeded (h : s.Tidy) (hmax : 0 < max) (hlen : s.chans.items.length ≤ max) :
    (s.evictIfNeeded max s.chans.items.length).Tidy := by
  rcases evictIfNeeded_eq hmax hlen with ⟨-,heq⟩ | ⟨k,i,rest,-,-,heq⟩
  · rwa [heq]
  · rw [heq]
    exact (h.drop k).closeChannel

theorem length_evictIfNeeded (hmax : 0 < max) (hlen : s.chans.items.length ≤ max) :
    (s.evictIfNeeded max s.chans.items.length).chans.items.length < max := by
  rcases evictIfNeeded_eq hmax hlen with ⟨hlt,heq⟩ | ⟨k,i,rest,hitems,-,heq⟩
  · rwa [heq]
  · rw [heq]
    exact Nat.lt_of_lt_of_le (length_drop_of_cons hitems) hlen

theorem not_mem_keys_evictIfNeeded (hmax : 0 < max) (hlen : s.chans.items.length ≤ max) (hk : k ∉ s.chans.keys) :
    k ∉ (s.evictIfNeeded max s.chans.items.length).chans.keys := by
  rcases evictIfNeeded_eq hmax hlen with ⟨-,heq⟩ | ⟨k',i,rest,-,-,heq⟩
  · rwa [heq]
  · rw [heq]
    exact fun hmem => hk (OrderedDict.mem_keys_erase.mp hmem).1

theorem Tidy.connect (h : s.Tidy) (hmax : 0 < max) (hlen : s.chans.items.length ≤ max) (hk : k ∉ s.chans.keys) :
    (s.connect max k made).Tidy := by
  cases made with
  | none => exact h.evictIfNeeded hmax hlen
  | some d => exact (h.evictIfNeeded hmax hlen).opened (not_mem_keys_evictIfNeeded hmax hlen hk) d

theorem length_connect (hmax : 0 < max) (hlen : s.chans.items.length ≤ max) (hk : k ∉ s.chans.keys) :
    (s.connect max k made).chans.items.length ≤ max := by
  have hlt := length_evictIfNeeded hmax hlen
  cases made with
  | none => exact Nat.le_of_lt hlt
  | some d =>
    have hitems := OrderedDict.items_set_of_not_mem
      (v := (s.evictIfNeeded max s.chans.items.length).channels.length)
      (not_mem_keys_evictIfNeeded hmax hlen hk)
    simp only [connect,stamp,hitems,List.length_append,List.length_singleton]
    omega

theorem length_drop_le : (s.drop k).chans.items.length ≤ s.chans.items.length := OrderedDict.length_erase_le

theorem not_mem_keys_drop : k ∉ (s.drop k).chans.keys := fun h => (OrderedDict.mem_keys_erase.mp h).2 rfl

/-- The cases of `acquire`. -/
theorem acquire_cases (s : Manager K) (max : ℕ) (k : K) (made : Made) :
    (∃ i, (k,i) ∈ s.chans.items ∧ s.alive i = true ∧ s.acquire max k made =
      stamp { s with chans := s.chans.moveToEnd k, lastUsed := s.lastUsed.set k s.now } i) ∨
    (∃ i, (k,i) ∈ s.chans.items ∧ s.alive i = false ∧
      s.acquire max k made = ((s.drop k).closeChannel false i).connect max k made) ∨
    (k ∉ s.chans.keys ∧ s.acquire max k made = s.connect max k made) := by
  unfold acquire
  cases hget : s.chans.get? k with
  | none => exact .inr (.inr ⟨OrderedDict.get?_eq_none_iff.mp hget,rfl⟩)
  | some i =>
    have hi := OrderedDict.get?_eq_some_iff.mp hget
    by_cases halive : s.alive i = true
    · exact .inl ⟨i,hi,halive,by simp [halive]⟩
    · exact .inr (.inl ⟨i,hi,by simpa using halive,by simp [halive]⟩)

theorem Tidy.acquire (h : s.Tidy) (hmax : 0 < max) (hlen : s.chans.items.length ≤ max) :
    (s.acquire max k made).Tidy := by
  rcases s.acquire_cases max k made with ⟨i,hi,-,heq⟩ | ⟨i,hi,-,heq⟩ | ⟨hk,heq⟩
  · rw [heq]
    exact h.reuse hi
  · rw [heq]
    exact (h.drop k).closeChannel.connect hmax (Nat.le_trans length_drop_le hlen) not_mem_keys_drop
  · rw [heq]
    exact h.connect hmax hlen hk

theorem length_acquire (hmax : 0 < max) (hlen : s.chans.items.length ≤ max) :
    (s.acquire max k made).chans.items.length ≤ max := by
  rcases s.acquire_cases max k made with ⟨i,hi,-,heq⟩ | ⟨i,hi,-,heq⟩ | ⟨hk,heq⟩
  · rw [heq]
    simpa [stamp,OrderedDict.length_moveToEnd] using hlen
  · rw [heq]
    exact length_connect hmax (Nat.le_trans length_drop_le hlen) not_mem_keys_drop
  · rw [heq]
    exact length_connect hmax hlen hk

section Drops

variable {ks : List K}

theorem Tidy.foldl_drop (h : s.Tidy) : (ks.foldl Manager.drop s).Tidy := by
  induction ks generalizing s with
  | nil => exact h
  | cons k ks ih => exact ih (h.drop k)

theorem length_foldl_drop_le : (ks.foldl Manager.drop s).chans.items.length ≤ s.chans.items.length := by
  induction ks generalizing s with
  | nil => exact Nat.le_refl _
  | cons k ks ih => exact Nat.le_trans ih length_drop_le

theorem foldl_drop_channels : (ks.foldl Manager.drop s).channels = s.channels := by
  induction ks generalizing s with
  | nil => rfl
  | cons k ks ih => exact ih

theorem mem_items_foldl_drop : (k',i) ∈ (ks.foldl Manager.drop s).chans.items ↔ (k',i) ∈ s.chans.items ∧ k' ∉ ks := by
  induction ks generalizing s with
  | nil => simp
  | cons k ks ih =>
    rw [List.foldl_cons,ih]
    simp only [Manager.drop,OrderedDict.mem_items_erase,List.mem_cons,not_or]
    exact and_assoc

end Drops

/-- Every section keeps the maps in order, and within the bound. -/
theorem Tidy.perform (h : s.Tidy) (hmax : 0 < max) (hlen : s.chans.items.length ≤ max) (b : Section K) :
    (s.perform max idleCloseS made b).1.Tidy ∧
      (s.perform max idleCloseS made b).1.chans.items.length ≤ max := by
  cases b with
  | acquire k => exact ⟨h.acquire hmax hlen,length_acquire hmax hlen⟩
  | pop k => exact ⟨h.drop k,Nat.le_trans length_drop_le hlen⟩
  | popAll => exact ⟨⟨nofun,nofun,.nil⟩,Nat.zero_le _⟩
  | readClock => exact ⟨h,hlen⟩
  | popStale now => exact ⟨h.foldl_drop,Nat.le_trans length_foldl_drop_le hlen⟩
  | close i reaped => exact ⟨h.closeChannel,hlen⟩

section Keeps

omit [DecidableEq K] in
theorem Closed.modify {f : ChannelState → ChannelState} (h : s.Closed j) (hf : ∀ c, c.closed = true → (f c).closed = true)
    (hchannels : s'.channels = s.channels.modify i f) : s'.Closed j := by
  obtain ⟨c,hc,hclosed⟩ := h
  by_cases hij : i = j
  · exact ⟨f c,by simp [hchannels,hc,hij],hf c hclosed⟩
  · exact ⟨c,by simp [hchannels,hc,hij],hclosed⟩

omit [DecidableEq K] in
theorem Closed.closeChannel (h : s.Closed j) : (s.closeChannel b i).Closed j := h.modify (fun _ _ => rfl) rfl

omit [DecidableEq K] in
theorem closed_closeChannel (hi : i < s.channels.length) : (s.closeChannel b i).Closed i := by
  refine ⟨{ s.channels[i] with closed := true },?_,rfl⟩
  simp [Manager.closeChannel,List.getElem?_eq_getElem hi]

omit [DecidableEq K] in
theorem Keeps.trans {s'' : Manager K} (h : s.Keeps s') (h' : s'.Keeps s'') : s.Keeps s'' :=
  fun i hi hkept => h' i hi fun hlt => h i hlt hkept

/-- An entry goes, and its channel is closed. -/
theorem keeps_drop (hi : (k,i) ∈ s.chans.items) : s.Keeps ((s.drop k).closeChannel b i) := by
  intro j hj hkept
  have hlt : j < s.channels.length := by simpa [Manager.closeChannel,Manager.drop] using hj
  rcases hkept hlt with hpooled | hclosed
  · obtain ⟨k',hk'⟩ := OrderedDict.mem_values_iff.mp hpooled
    by_cases hk : k' = k
    · subst hk
      obtain rfl := OrderedDict.items_inj hi hk'
      exact .inr (closed_closeChannel hlt)
    · exact .inl (OrderedDict.mem_values_iff.mpr ⟨k',OrderedDict.mem_items_erase.mpr ⟨hk',hk⟩⟩)
  · have hclosed' : (s.drop k).Closed j := hclosed
    exact .inr hclosed'.closeChannel

theorem keeps_evictIfNeeded (hmax : 0 < max) (hlen : s.chans.items.length ≤ max) :
    s.Keeps (s.evictIfNeeded max s.chans.items.length) := by
  rcases evictIfNeeded_eq hmax hlen with ⟨-,heq⟩ | ⟨k,i,rest,hitems,-,heq⟩
  · rw [heq]
    exact fun j hj hkept => hkept hj
  · rw [heq]
    exact keeps_drop (by simp [hitems])

theorem keeps_reuse :
    s.Keeps (stamp { s with chans := s.chans.moveToEnd k, lastUsed := s.lastUsed.set k s.now } i) := by
  intro j hj hkept
  have hlt : j < s.channels.length := by simpa [stamp] using hj
  rcases hkept hlt with hpooled | hclosed
  · obtain ⟨k',hk'⟩ := OrderedDict.mem_values_iff.mp hpooled
    exact .inl (OrderedDict.mem_values_iff.mpr ⟨k',OrderedDict.mem_items_moveToEnd.mpr hk'⟩)
  · exact .inr (hclosed.modify (f := fun c => { c with lastAcquired := s.now }) (fun _ hc => hc) rfl)

theorem keeps_connect (hmax : 0 < max) (hlen : s.chans.items.length ≤ max) (hk : k ∉ s.chans.keys) :
    s.Keeps (s.connect max k made) := by
  have hevict := keeps_evictIfNeeded hmax hlen
  have hk' := not_mem_keys_evictIfNeeded hmax hlen hk
  cases made with
  | none => exact hevict
  | some d =>
    refine hevict.trans fun j hj hkept => ?_
    by_cases hlt : j < (s.evictIfNeeded max s.chans.items.length).channels.length
    · rcases hkept hlt with hpooled | hclosed
      · obtain ⟨k'',hmem⟩ := OrderedDict.mem_values_iff.mp hpooled
        refine .inl (OrderedDict.mem_values_iff.mpr ⟨k'',OrderedDict.mem_items_set.mpr (.inl ⟨hmem,?_⟩)⟩)
        rintro rfl
        exact hk' (OrderedDict.mem_keys_iff.mpr ⟨j,hmem⟩)
      · obtain ⟨c,hc,hclosed⟩ := hclosed
        refine .inr ⟨c,?_,hclosed⟩
        have hne : (s.evictIfNeeded max s.chans.items.length).channels.length ≠ j := Nat.ne_of_gt hlt
        simp [connect,stamp,hne,List.getElem?_append_left hlt,hc]
    · have hlen' : j < (s.evictIfNeeded max s.chans.items.length).channels.length + 1 := by
        simpa [connect,stamp] using hj
      obtain rfl : j = (s.evictIfNeeded max s.chans.items.length).channels.length :=
        Nat.le_antisymm (Nat.lt_succ_iff.mp hlen') (Nat.not_lt.mp hlt)
      exact .inl (OrderedDict.mem_values_iff.mpr ⟨k,OrderedDict.mem_items_set.mpr (.inr ⟨rfl,rfl⟩)⟩)

theorem keeps_acquire (hmax : 0 < max) (hlen : s.chans.items.length ≤ max) :
    s.Keeps (s.acquire max k made) := by
  rcases s.acquire_cases max k made with ⟨i,hi,-,heq⟩ | ⟨i,hi,-,heq⟩ | ⟨hk,heq⟩
  · rw [heq]
    exact keeps_reuse
  · rw [heq]
    exact (keeps_drop hi).trans
      (keeps_connect hmax (Nat.le_trans length_drop_le hlen) not_mem_keys_drop)
  · rw [heq]
    exact keeps_connect hmax hlen hk

omit [DecidableEq K] in
theorem owes_map {js : List ChannelId} (hj : j ∈ js) : Owes (K := K) (js.map (.close · b)) j := by
  induction js with
  | nil => cases hj
  | cons i js ih =>
    rcases List.mem_cons.mp hj with rfl | hj
    · exact .inl rfl
    · exact .inr (ih hj)

omit [DecidableEq K] in
theorem owes_append {as bs : List (Section K)} (h : Owes as j) : Owes (as ++ bs) j := by
  induction as with
  | nil => cases h
  | cons a as ih =>
    cases a with
    | close i reaped =>
      rcases h with rfl | h
      · exact .inl rfl
      · exact .inr (ih h)
    | _ => cases h

/-- What one section takes out of the pool it closes, or leaves to its caller. -/
theorem keeps_perform (hmax : 0 < max) (hlen : s.chans.items.length ≤ max) (sec : Section K)
    (hj : j < (s.perform max idleCloseS made sec).1.channels.length)
    (hkept : j < s.channels.length → j ∈ s.chans.values ∨ s.Closed j) :
    j ∈ (s.perform max idleCloseS made sec).1.chans.values ∨ (s.perform max idleCloseS made sec).1.Closed j ∨
      Owes (s.perform max idleCloseS made sec).2 j := by
  cases sec with
  | acquire k => exact (keeps_acquire hmax hlen j hj hkept).imp_right .inl
  | pop k =>
    rcases hkept hj with hpooled | hclosed
    · obtain ⟨k',hk'⟩ := OrderedDict.mem_values_iff.mp hpooled
      by_cases hk : k' = k
      · subst hk
        refine .inr (.inr (owes_map ?_))
        simp [OrderedDict.get?_eq_some_iff.mpr hk']
      · exact .inl (OrderedDict.mem_values_iff.mpr ⟨k',OrderedDict.mem_items_erase.mpr ⟨hk',hk⟩⟩)
    · exact .inr (.inl hclosed)
  | popAll =>
    rcases hkept hj with hpooled | hclosed
    · exact .inr (.inr (owes_map hpooled))
    · exact .inr (.inl hclosed)
  | readClock => exact (hkept hj).imp_right .inl
  | popStale now =>
    have hchannels : ((s.staleIds idleCloseS now).foldl Manager.drop s).channels = s.channels := foldl_drop_channels
    simp only [perform,hchannels] at hj
    rcases hkept hj with hpooled | ⟨c,hc,hclosed⟩
    · obtain ⟨k',hk'⟩ := OrderedDict.mem_values_iff.mp hpooled
      by_cases hstale : k' ∈ s.staleIds idleCloseS now
      · refine .inr (.inr (owes_map (List.mem_filterMap.mpr ⟨k',hstale,?_⟩)))
        exact OrderedDict.get?_eq_some_iff.mpr hk'
      · exact .inl (OrderedDict.mem_values_iff.mpr ⟨k',mem_items_foldl_drop.mpr ⟨hk',hstale⟩⟩)
    · exact .inr (.inl ⟨c,by simp [perform,hchannels,hc],hclosed⟩)
  | close i reaped =>
    have hlt : j < s.channels.length := by simpa [perform,Manager.closeChannel] using hj
    rcases hkept hlt with hpooled | hclosed
    · exact .inl hpooled
    · exact .inr (.inl hclosed.closeChannel)

end Keeps

end Manager

/-- What holds of the pool whatever its callers have done so far. -/
structure Sound (max : ℕ) (p : Pool K) : Prop where
  tidy : p.manager.Tidy
  bound : p.manager.chans.items.length ≤ max
  kept : ∀ i < p.manager.channels.length,
    i ∈ p.manager.chans.values ∨ p.manager.Closed i ∨ ∃ bs ∈ p.callers, Owes bs i

namespace Sound

variable {max idleCloseS : ℕ} {p p' : Pool K} {e : Event K}

theorem start : Sound max ({} : Pool K) where
  tidy := ⟨nofun,nofun,.nil⟩
  bound := Nat.zero_le _
  kept := nofun

theorem touch (h : Sound max p) {i : ChannelId} {f : ChannelState → ChannelState}
    (hlast : ∀ c, (f c).lastAcquired = c.lastAcquired) (hclosed : ∀ c, (f c).closed = c.closed) :
    Sound max { p with manager := p.manager.touch i f } where
  tidy := h.tidy.modify hlast rfl rfl rfl rfl
  bound := h.bound
  kept j hj := by
    have hlt : j < p.manager.channels.length := by simpa [Manager.touch] using hj
    rcases h.kept j hlt with hpooled | hc | hows
    · exact .inl hpooled
    · exact .inr (.inl (hc.modify (f := f) (fun c hc => (hclosed c).trans hc) rfl))
    · exact .inr (.inr hows)

theorem go (h : Sound max p) (hmax : 0 < max) {t : ℕ} {made : Made} {b : Section K} {bs : List (Section K)}
    (ht : p.callers[t]? = some (b :: bs)) :
    Sound max ⟨(p.manager.perform max idleCloseS made b).1,
      p.callers.set t ((p.manager.perform max idleCloseS made b).2 ++ bs)⟩ where
  tidy := (h.tidy.perform hmax h.bound b).1
  bound := (h.tidy.perform hmax h.bound b).2
  kept j hj := by
    have hkeeps : (j < p.manager.channels.length → j ∈ p.manager.chans.values ∨ p.manager.Closed j) →
        j ∈ (p.manager.perform max idleCloseS made b).1.chans.values ∨
        (p.manager.perform max idleCloseS made b).1.Closed j ∨
        ∃ bs' ∈ p.callers.set t ((p.manager.perform max idleCloseS made b).2 ++ bs), Owes bs' j := by
      intro hkept
      rcases Manager.keeps_perform hmax h.bound b hj hkept with hpooled | hclosed | hows
      · exact .inl hpooled
      · exact .inr (.inl hclosed)
      · have hlt := (List.getElem?_eq_some_iff.mp ht).1
        exact .inr (.inr ⟨_,List.mem_set hlt _,Manager.owes_append hows⟩)
    by_cases hlt : j < p.manager.channels.length
    · rcases h.kept j hlt with hpooled | hclosed | ⟨bs',hmem,hows⟩
      · exact hkeeps fun _ => .inl hpooled
      · exact hkeeps fun _ => .inr hclosed
      · obtain ⟨t',ht'⟩ := List.mem_iff_getElem?.mp hmem
        by_cases heq : t = t'
        · -- the caller that owes the close is the one that goes on
          subst heq
          obtain rfl : b :: bs = bs' := by simpa [ht] using ht'
          cases b with
          | close i reaped =>
            rcases hows with rfl | hows
            · exact .inr (.inl (Manager.closed_closeChannel hlt))
            · have hlt' := (List.getElem?_eq_some_iff.mp ht).1
              exact .inr (.inr ⟨bs,List.mem_set hlt' _,hows⟩)
          | _ => cases hows
        · refine .inr (.inr ⟨bs',List.mem_iff_getElem?.mpr ⟨t',?_⟩,hows⟩)
          rw [List.getElem?_set_ne heq,ht']
    · exact hkeeps fun hlt' => absurd hlt' hlt

theorem next (h : Sound max p) (hmax : 0 < max) (hs : p.step max idleCloseS e = some p') : Sound max p' := by
  cases e with
  | call c =>
    obtain rfl := Option.some.inj hs
    refine ⟨h.tidy,h.bound,fun j hj => ?_⟩
    rcases h.kept j hj with hpooled | hclosed | ⟨bs,hmem,hows⟩
    · exact .inl hpooled
    · exact .inr (.inl hclosed)
    · exact .inr (.inr ⟨bs,List.mem_append_left _ hmem,hows⟩)
  | go t made =>
    simp only [Pool.step] at hs
    split at hs
    · rename_i ht
      obtain rfl := Option.some.inj hs
      exact h.go hmax ht
    · cases hs
  | tick d =>
    obtain rfl := Option.some.inj hs
    exact ⟨⟨h.tidy.stamped,h.tidy.used,h.tidy.order⟩,h.bound,h.kept⟩
  | readerEnd i =>
    obtain rfl := Option.some.inj hs
    exact h.touch (fun _ => rfl) fun _ => rfl
  | turnBegins i =>
    simp only [Pool.step] at hs
    split at hs
    · cases hs
    · obtain rfl := Option.some.inj hs
      exact h.touch (fun _ => rfl) fun _ => rfl
  | turnEnds i =>
    obtain rfl := Option.some.inj hs
    exact h.touch (fun _ => rfl) fun _ => rfl

theorem reach {ok : Pool K → Event K → Prop} (hmax : 0 < max) (h : Reach (Pool.step max idleCloseS) ok {} p) :
    Sound max p :=
  h.invariant start fun _ _ _ hi _ hs => hi.next hmax hs

end Sound

section Recency

variable {max : ℕ} {s : Manager K} {k k₁ k₂ : K} {i j : ChannelId} {made : Made}

/-- The entry that goes to make room is the first. -/
theorem lessRecent_of_connect (h : s.Tidy) (hmax : 0 < max) (hlen : s.chans.items.length ≤ max)
    (hk : k ∉ s.chans.keys) (hi : (k₁,i) ∈ s.chans.items) (hgone : (k₁,i) ∉ (s.connect max k made).chans.items)
    (hj : (k₂,j) ∈ s.chans.items) (hij : j ≠ i) : LessRecent s.acquired i j := by
  have hevicted : (k₁,i) ∉ (s.evictIfNeeded max s.chans.items.length).chans.items := by
    cases made with
    | none => exact hgone
    | some d =>
      intro hmem
      refine hgone (OrderedDict.mem_items_set.mpr (.inl ⟨hmem,?_⟩))
      rintro rfl
      exact hk (OrderedDict.mem_keys_iff.mpr ⟨i,hi⟩)
  rcases Manager.evictIfNeeded_eq hmax hlen with ⟨-,heq⟩ | ⟨k',i',rest,hitems,-,heq⟩
  · rw [heq] at hevicted
    exact absurd hi hevicted
  · rw [heq] at hevicted
    have hk' : k₁ = k' := by
      by_contra hne
      exact hevicted (OrderedDict.mem_items_erase.mpr ⟨hi,hne⟩)
    subst hk'
    obtain rfl : i = i' := OrderedDict.items_inj hi (by simp [hitems])
    have horder := h.order
    rw [OrderedDict.values,hitems,List.map_cons] at horder
    refine (List.pairwise_cons.mp horder).1 j (List.mem_map.mpr ⟨(k₂,j),?_,rfl⟩)
    rw [hitems] at hj
    rcases List.mem_cons.mp hj with heq' | hmem
    · exact absurd (Prod.mk.inj heq').2 hij
    · exact hmem

/-- The channel that another conversation loses to an acquisition was acquired longer ago than any. -/
theorem lessRecent_of_acquire (h : s.Tidy) (hmax : 0 < max) (hlen : s.chans.items.length ≤ max)
    (hi : (k₁,i) ∈ s.chans.items) (hk₁ : k₁ ≠ k) (hgone : (k₁,i) ∉ (s.acquire max k made).chans.items)
    (hj : (k₂,j) ∈ s.chans.items) (hk₂ : k₂ ≠ k) (hij : j ≠ i) : LessRecent s.acquired i j := by
  rcases s.acquire_cases max k made with ⟨i',hi',-,heq⟩ | ⟨i',hi',-,heq⟩ | ⟨hk,heq⟩
  · rw [heq] at hgone
    exact absurd (OrderedDict.mem_items_moveToEnd.mpr hi) hgone
  · rw [heq] at hgone
    have htidy : ((s.drop k).closeChannel false i').Tidy := (h.drop k).closeChannel
    have hrecent : LessRecent ((s.drop k).closeChannel false i').acquired i j :=
      lessRecent_of_connect htidy hmax (Nat.le_trans Manager.length_drop_le hlen) Manager.not_mem_keys_drop
        (OrderedDict.mem_items_erase.mpr ⟨hi,hk₁⟩) hgone (OrderedDict.mem_items_erase.mpr ⟨hj,hk₂⟩) hij
    exact hrecent
  · rw [heq] at hgone
    exact lessRecent_of_connect h hmax hlen hk hi hgone hj hij

end Recency

/-- In every run the pool stays within its bound, with one channel for a conversation and the same keys in
both maps; a channel is pooled, closed or about to be closed by the caller that took it out; and the one
that goes to make room is the one acquired longest ago. -/
theorem pool_accounts_for_channels {max idleCloseS : ℕ} (hmax : 0 < max) {p : Pool K}
    (h : Reach (Pool.step max idleCloseS) anyAct {} p) :
    p.manager.chans.items.length ≤ max ∧
    (∀ k i j, (k,i) ∈ p.manager.chans.items → (k,j) ∈ p.manager.chans.items → i = j) ∧
    (∀ k, k ∈ p.manager.chans.keys ↔ k ∈ p.manager.lastUsed.keys) ∧
    (∀ i < p.manager.channels.length,
      i ∈ p.manager.chans.values ∨ p.manager.Closed i ∨ ∃ bs ∈ p.callers, Owes bs i) ∧
    ∀ k made k₁ i k₂ j, (k₁,i) ∈ p.manager.chans.items → k₁ ≠ k →
      (k₁,i) ∉ (p.manager.acquire max k made).chans.items →
      (k₂,j) ∈ p.manager.chans.items → k₂ ≠ k → j ≠ i → LessRecent p.manager.acquired i j := by
  have hsound : Sound max p := Sound.reach hmax h
  refine ⟨hsound.bound,fun k i j => OrderedDict.items_inj,fun k => hsound.tidy.keys_iff,hsound.kept,?_⟩
  intro k made k₁ i k₂ j hi hk₁ hgone hj hk₂ hij
  exact lessRecent_of_acquire hsound.tidy hmax hsound.bound hi hk₁ hgone hj hk₂ hij

/-- A conversation is closed: the entry is gone, the channel still open. -/
def closing : List (Event ℕ) := [.call (.acquire 7),.go 0 (some 1),.call (.close 7),.go 1 none]

def leaves (p : Pool ℕ) (i : ChannelId) : Bool :=
  decide (i < p.manager.channels.length ∧ i ∉ p.manager.chans.values) && !(p.manager.channels[i]?).any (·.closed)

theorem exists_leaves : ∃ p : Pool ℕ, Reach (Pool.step 1 900) anyAct {} p ∧ leaves p 0 = true := by
  have hrun : (run (Pool.step 1 900) anyAct {} closing).any (leaves · 0) = true := by decide
  exact exists_reach_of_run hrun

theorem pool_accounts_for_channels_closing :
    ∃ p : Pool ℕ, Reach (Pool.step 1 900) anyAct {} p ∧ leaves p 0 = true ∧ p.manager.chans.items.length ≤ 1 ∧
      ∀ i < p.manager.channels.length,
        i ∈ p.manager.chans.values ∨ p.manager.Closed i ∨ ∃ bs ∈ p.callers, Owes bs i := by
  obtain ⟨p,hp,hleaves⟩ := exists_leaves
  obtain ⟨hbound,-,-,hkept,-⟩ := pool_accounts_for_channels Nat.one_pos hp
  exact ⟨p,hp,hleaves,hbound,hkept⟩

theorem close_leaves_channel_open :
    ∃ p : Pool ℕ, Reach (Pool.step 1 900) anyAct {} p ∧
      ¬ ∀ i < p.manager.channels.length, i ∈ p.manager.chans.values ∨ p.manager.Closed i := by
  obtain ⟨p,hp,hleaves⟩ := exists_leaves
  obtain ⟨⟨hlt,hnot⟩,hopen⟩ := by simpa [leaves] using hleaves
  refine ⟨p,hp,fun hall => ?_⟩
  rcases hall 0 hlt with hpooled | ⟨c,hc,hclosed⟩
  · exact hnot hpooled
  · simp [hc,hclosed] at hopen

end SessionManager
end Saarathi
