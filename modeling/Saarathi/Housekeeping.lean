import Saarathi.PoolInvariant

/-!
# Housekeeping during a turn

The pool does not know which channels are in a turn. Eviction and the reaper
spare these as long as there is an older channel to evict, and as long as a turn
does not outlast the idle time.
-/

namespace Saarathi
namespace SessionManager

open Machine

variable {K : Type} [DecidableEq K]

namespace Manager

/-- An acquisition for this conversation finds no live channel and no room. -/
def MakesRoom (s : Manager K) (max : ℕ) (k : K) : Prop :=
  (∀ i, (k,i) ∈ s.chans.items → s.alive i = false) ∧ max ≤ (s.chans.erase k).items.length

/-- Some other conversation's channel was acquired longer ago than any that is in a turn. -/
def OlderIdle (s : Manager K) (k : K) : Prop :=
  ∀ k₁ i, (k₁,i) ∈ s.chans.items → k₁ ≠ k → s.inTurn i = true →
    ∃ k₂ j, (k₂,j) ∈ s.chans.items ∧ k₂ ≠ k ∧ LessRecent s.acquired j i

/-- Each pooled channel that is in a turn is alive, and was acquired less than the idle time ago. -/
def TurnsFresh (s : Manager K) (idleCloseS now : ℕ) : Prop :=
  ∀ k i c, (k,i) ∈ s.chans.items → s.channels[i]? = some c → c.inTurn = true →
    c.alive = true ∧ now < c.lastAcquired + idleCloseS

end Manager

/-- Room is made only past an idle channel, the reaper looks only while every turn is fresh, and no turn
begins on a channel that the reaper has taken out of the pool and is about to close. -/
def Spares (max idleCloseS : ℕ) (p : Pool K) : Event K → Prop
  | .go t _ => match p.callers[t]? with
    | some (.acquire k :: _) => p.manager.MakesRoom max k → p.manager.OlderIdle k
    | some (.popStale now :: _) => p.manager.TurnsFresh idleCloseS now
    | _ => True
  | .turnBegins i => ∀ bs ∈ p.callers, .close i true ∉ bs
  | _ => True

theorem LessRecent.asymm {acquired : List ChannelId} {i j : ChannelId} (h : LessRecent acquired i j) :
    ¬ LessRecent acquired j i := by
  rintro ⟨earlier',later',heq',hj',hi'⟩
  obtain ⟨earlier,later,heq,hi,hj⟩ := h
  have hsuffix : later <:+ acquired := ⟨earlier,heq.symm⟩
  have hsuffix' : later' <:+ acquired := ⟨earlier',heq'.symm⟩
  rcases List.suffix_or_suffix_of_suffix hsuffix hsuffix' with hle | hle
  · exact hj' (hle.subset hj)
  · exact hi (hle.subset hi')

namespace Manager

variable {s s' : Manager K} {k : K} {i j : ChannelId} {max idleCloseS now : ℕ} {made : Made} {b : Bool}

section InTurn

omit [DecidableEq K] in
theorem inTurn_iff : s.inTurn i = true ↔ ∃ c, s.channels[i]? = some c ∧ c.inTurn = true := Option.any_eq_true ..

omit [DecidableEq K] in
/-- No change of this kind begins a turn. -/
theorem inTurn_of_modify {f : ChannelState → ChannelState} (hf : ∀ c, (f c).inTurn = true → c.inTurn = true)
    (hchannels : s'.channels = s.channels.modify i f) (h : s'.inTurn j = true) : s.inTurn j = true := by
  obtain ⟨c,hc,hturn⟩ := inTurn_iff.mp h
  rw [hchannels,List.getElem?_modify] at hc
  obtain ⟨c',hc',heq⟩ := Option.map_eq_some_iff.mp hc
  refine inTurn_iff.mpr ⟨c',hc',?_⟩
  by_cases hij : i = j
  · rw [if_pos hij] at heq
    exact hf c' (heq ▸ hturn)
  · rw [if_neg hij] at heq
    exact heq ▸ hturn

omit [DecidableEq K] in
theorem inTurn_of_closeChannel (h : (s.closeChannel b i).inTurn j = true) : s.inTurn j = true := by
  exact inTurn_of_modify (f := fun c => { c with closed := true }) (fun _ hc => hc) rfl h

omit [DecidableEq K] in
theorem inTurn_of_stamp (h : (s.stamp i).inTurn j = true) : s.inTurn j = true := by
  exact inTurn_of_modify (f := fun c => { c with lastAcquired := s.now }) (fun _ hc => hc) rfl h

theorem inTurn_of_evictIfNeeded {n : ℕ} (h : (s.evictIfNeeded max n).inTurn j = true) : s.inTurn j = true := by
  induction n generalizing s with
  | zero => exact h
  | succ n ih =>
    rw [evictIfNeeded] at h
    split at h
    · exact h
    · rename_i k i rest hitems
      split at h
      · have hclosed : (s.drop k).inTurn j = true := inTurn_of_closeChannel (ih h)
        exact hclosed
      · exact h

theorem inTurn_of_connect (h : (s.connect max k made).inTurn j = true) : s.inTurn j = true := by
  cases made with
  | none => exact inTurn_of_evictIfNeeded h
  | some d =>
    obtain ⟨c,hc,hturn⟩ := inTurn_iff.mp (inTurn_of_stamp h)
    suffices hnew : (s.evictIfNeeded max s.chans.items.length).inTurn j = true from inTurn_of_evictIfNeeded hnew
    refine inTurn_iff.mpr ⟨c,?_,hturn⟩
    rw [List.getElem?_append] at hc
    split at hc
    · exact hc
    · rw [List.getElem?_singleton] at hc
      split at hc
      · obtain rfl := Option.some.inj hc
        cases hturn
      · cases hc

theorem inTurn_of_acquire (h : (s.acquire max k made).inTurn j = true) : s.inTurn j = true := by
  rcases s.acquire_cases max k made with ⟨i,-,-,heq⟩ | ⟨i,-,-,heq⟩ | ⟨-,heq⟩
  · rw [heq] at h
    exact inTurn_of_stamp h
  · rw [heq] at h
    have hclosed : (s.drop k).inTurn j = true := inTurn_of_closeChannel (inTurn_of_connect h)
    exact hclosed
  · rw [heq] at h
    exact inTurn_of_connect h

theorem inTurn_of_perform {sec : Section K} (h : (s.perform max idleCloseS made sec).1.inTurn j = true) :
    s.inTurn j = true := by
  cases sec with
  | acquire k => exact inTurn_of_acquire h
  | popStale now =>
    have hchannels : ((s.staleIds idleCloseS now).foldl Manager.drop s).channels = s.channels := foldl_drop_channels
    simpa [inTurn,perform,hchannels] using h
  | close i reaped => exact inTurn_of_closeChannel h
  | _ => exact h

end InTurn

section Killed

omit [DecidableEq K] in
theorem killed_closeChannel (h : b = true → s.inTurn i = false) : (s.closeChannel b i).killed = s.killed := by
  cases b with
  | false => rfl
  | true => simp [closeChannel,h rfl]

/-- The first entry is not in a turn if an older one than those in a turn is there. -/
theorem killed_connect (h : s.Tidy) (hmax : 0 < max) (hlen : s.chans.items.length ≤ max)
    (hidle : max ≤ s.chans.items.length → ∀ k₁ i, (k₁,i) ∈ s.chans.items → s.inTurn i = true →
      ∃ k₂ j, (k₂,j) ∈ s.chans.items ∧ LessRecent s.acquired j i) :
    (s.connect max k made).killed = s.killed := by
  have hevict : (s.evictIfNeeded max s.chans.items.length).killed = s.killed := by
    rcases evictIfNeeded_eq hmax hlen with ⟨-,heq⟩ | ⟨k',i,rest,hitems,hfull,heq⟩
    · rw [heq]
    · rw [heq]
      have hi : (k',i) ∈ s.chans.items := by simp [hitems]
      have hturn : (s.drop k').inTurn i = false := by
        show s.inTurn i = false
        by_contra hin
        obtain ⟨k₂,j,hj,hrecent⟩ := hidle hfull k' i hi (by simpa using hin)
        have horder := h.order
        rw [OrderedDict.values,hitems,List.map_cons] at horder
        rw [hitems] at hj
        rcases List.mem_cons.mp hj with heq' | hmem
        · exact hrecent.ne (Prod.mk.inj heq').2
        · have hfirst := (List.pairwise_cons.mp horder).1 j (List.mem_map.mpr ⟨(k₂,j),hmem,rfl⟩)
          exact hrecent.asymm hfirst
      exact killed_closeChannel fun _ => hturn
  cases made with
  | none => exact hevict
  | some d => exact hevict

theorem killed_acquire (h : s.Tidy) (hmax : 0 < max) (hlen : s.chans.items.length ≤ max)
    (hidle : s.MakesRoom max k → s.OlderIdle k) : (s.acquire max k made).killed = s.killed := by
  rcases s.acquire_cases max k made with ⟨i,-,-,heq⟩ | ⟨i,hi,hdead,heq⟩ | ⟨hk,heq⟩
  · rw [heq]
    rfl
  · rw [heq]
    have htidy : ((s.drop k).closeChannel false i).Tidy := (h.drop k).closeChannel
    refine killed_connect htidy hmax (Nat.le_trans length_drop_le hlen) fun hfull k₁ i₁ hi₁ hturn => ?_
    have hroom : s.MakesRoom max k := by
      refine ⟨fun i' hi' => ?_,hfull⟩
      rw [OrderedDict.items_inj hi' hi]
      exact hdead
    obtain ⟨hmem,hne⟩ := OrderedDict.mem_items_erase.mp hi₁
    have hturn' : (s.drop k).inTurn i₁ = true := inTurn_of_closeChannel hturn
    obtain ⟨k₂,j,hj,hne₂,hrecent⟩ := hidle hroom k₁ i₁ hmem hne hturn'
    exact ⟨k₂,j,OrderedDict.mem_items_erase.mpr ⟨hj,hne₂⟩,hrecent⟩
  · rw [heq]
    refine killed_connect h hmax hlen fun hfull k₁ i hi hturn => ?_
    have hne : ∀ k' j, (k',j) ∈ s.chans.items → k' ≠ k := by
      rintro k' j hj rfl
      exact hk (OrderedDict.mem_keys_iff.mpr ⟨j,hj⟩)
    have hroom : s.MakesRoom max k := by
      refine ⟨fun i' hi' => absurd rfl (hne k i' hi'),?_⟩
      rwa [OrderedDict.items_erase_of_not_mem hk]
    obtain ⟨k₂,j,hj,-,hrecent⟩ := hidle hroom k₁ i hi (hne k₁ i hi) hturn
    exact ⟨k₂,j,hj,hrecent⟩

theorem foldl_drop_killed {ks : List K} : (ks.foldl Manager.drop s).killed = s.killed := by
  induction ks generalizing s with
  | nil => rfl
  | cons k ks ih => exact ih

/-- What the reaper takes out is not in a turn. -/
theorem not_inTurn_of_stale (h : s.Tidy) (hfresh : s.TurnsFresh idleCloseS now)
    (hi : i ∈ (s.staleIds idleCloseS now).filterMap s.chans.get?) : s.inTurn i = false := by
  by_contra hin
  obtain ⟨c,hc,hturn⟩ := inTurn_iff.mp (by simpa using hin)
  obtain ⟨k,hk,hget⟩ := List.mem_filterMap.mp hi
  have hmem := OrderedDict.get?_eq_some_iff.mp hget
  obtain ⟨c',hc',hused⟩ := h.stamped k i hmem
  obtain rfl : c = c' := by simpa [hc] using hc'
  obtain ⟨halive,hlt⟩ := hfresh k i c hmem hc hturn
  obtain ⟨p,hp,rfl⟩ := List.mem_map.mp hk
  obtain ⟨hmem',hstale⟩ := List.mem_filter.mp hp
  obtain rfl : p.2 = i := OrderedDict.items_inj hmem' hmem
  have hle : c.lastAcquired + idleCloseS ≤ now := by simpa [alive,hc,halive,hused] using hstale
  omega

end Killed

end Manager

/-- No turn has been killed, and no channel in a turn waits for the reaper to close it. -/
structure Calm (p : Pool K) : Prop where
  killed : p.manager.killed = []
  idle : ∀ bs ∈ p.callers, ∀ i, .close i true ∈ bs → p.manager.inTurn i = false

namespace Calm

variable {max idleCloseS : ℕ} {p p' : Pool K} {e : Event K}

omit [DecidableEq K] in
theorem start : Calm ({} : Pool K) := ⟨rfl,nofun⟩

omit [DecidableEq K] in
theorem touch (h : Calm p) {i : ChannelId} {f : ChannelState → ChannelState}
    (hf : ∀ c, (f c).inTurn = true → c.inTurn = true) : Calm { p with manager := p.manager.touch i f } where
  killed := h.killed
  idle bs hbs j hj := by
    have hchannels : (p.manager.touch i f).channels = p.manager.channels.modify i f := rfl
    by_contra hin
    have hin' : (p.manager.touch i f).inTurn j = true := by simpa using hin
    have hfalse := h.idle bs hbs j hj
    rw [Manager.inTurn_of_modify hf hchannels hin'] at hfalse
    cases hfalse

/-- The sections that a section calls for close nothing that is in a turn. -/
theorem idle_of_perform {s : Manager K} {made : Made} {b : Section K} {i : ChannelId} (h : s.Tidy)
    (hfresh : ∀ now, b = .popStale now → s.TurnsFresh idleCloseS now)
    (hi : .close i true ∈ (s.perform max idleCloseS made b).2) : s.inTurn i = false := by
  cases b with
  | popStale now =>
    obtain ⟨j,hj,heq⟩ := List.mem_map.mp hi
    obtain ⟨rfl,-⟩ : j = i ∧ True := by simpa using heq
    exact Manager.not_inTurn_of_stale h (hfresh now rfl) hj
  | pop k => simp [Manager.perform] at hi
  | popAll => simp [Manager.perform] at hi
  | readClock => simp [Manager.perform] at hi
  | acquire k => cases hi
  | close j reaped => cases hi

theorem go (h : Calm p) (hs : Sound max p) (hmax : 0 < max) {t : ℕ} {made : Made} {b : Section K}
    {bs : List (Section K)} (ht : p.callers[t]? = some (b :: bs)) (hok : Spares max idleCloseS p (.go t made)) :
    Calm ⟨(p.manager.perform max idleCloseS made b).1,
      p.callers.set t ((p.manager.perform max idleCloseS made b).2 ++ bs)⟩ := by
  have hmem : b :: bs ∈ p.callers := List.mem_of_getElem? ht
  simp only [Spares,ht] at hok
  refine ⟨?_,?_⟩
  · show (p.manager.perform max idleCloseS made b).1.killed = []
    rw [← h.killed]
    cases b with
    | acquire k => exact Manager.killed_acquire hs.tidy hmax hs.bound hok
    | popStale now => exact Manager.foldl_drop_killed
    | close i reaped =>
      refine Manager.killed_closeChannel ?_
      rintro rfl
      exact h.idle _ hmem i (by simp)
    | _ => rfl
  · intro bs' hbs' i hi
    by_contra hin
    have hturn : p.manager.inTurn i = true := Manager.inTurn_of_perform (by simpa using hin)
    have hidle : p.manager.inTurn i = false := by
      rcases List.mem_or_eq_of_mem_set hbs' with hold | rfl
      · exact h.idle bs' hold i hi
      · rcases List.mem_append.mp hi with hnew | hrest
        · refine idle_of_perform hs.tidy ?_ hnew
          rintro now rfl
          exact hok
        · exact h.idle _ hmem i (List.mem_cons_of_mem b hrest)
    rw [hturn] at hidle
    cases hidle

theorem next (h : Calm p) (hs : Sound max p) (hmax : 0 < max) (hok : Spares max idleCloseS p e)
    (hstep : p.step max idleCloseS e = some p') : Calm p' := by
  cases e with
  | call c =>
    obtain rfl := Option.some.inj hstep
    refine ⟨h.killed,fun bs hbs i hi => ?_⟩
    rcases List.mem_append.mp hbs with hold | hnew
    · exact h.idle bs hold i hi
    · rw [List.mem_singleton.mp hnew] at hi
      cases c with
      | _ => simp [Call.sections] at hi
  | go t made =>
    simp only [Pool.step] at hstep
    split at hstep
    · rename_i ht
      obtain rfl := Option.some.inj hstep
      exact h.go hs hmax ht hok
    · cases hstep
  | tick d =>
    obtain rfl := Option.some.inj hstep
    exact ⟨h.killed,h.idle⟩
  | readerEnd i =>
    obtain rfl := Option.some.inj hstep
    exact h.touch fun _ hc => hc
  | turnBegins i =>
    simp only [Pool.step] at hstep
    split at hstep
    · cases hstep
    obtain rfl := Option.some.inj hstep
    refine ⟨h.killed,fun bs hbs j hj => ?_⟩
    by_cases hij : i = j
    · subst hij
      exact absurd hj (hok bs hbs)
    · have hidle := h.idle bs hbs j hj
      simpa [Manager.inTurn,Manager.touch,hij] using hidle
  | turnEnds i =>
    obtain rfl := Option.some.inj hstep
    exact h.touch (by rintro _ ⟨⟩)

end Calm

theorem Calm.reach {max idleCloseS : ℕ} (hmax : 0 < max) {p : Pool K}
    (h : Reach (Pool.step max idleCloseS) (Spares max idleCloseS) {} p) : Sound max p ∧ Calm p := by
  induction h with
  | refl => exact ⟨Sound.start,Calm.start⟩
  | next h hok hstep ih => exact ⟨ih.1.next hmax hstep,ih.2.next ih.1 hmax hok hstep⟩

/-- Where every step spares the turns, housekeeping never closes a channel during a turn. -/
theorem turns_spared {max idleCloseS : ℕ} (hmax : 0 < max) {p : Pool K}
    (h : Reach (Pool.step max idleCloseS) (Spares max idleCloseS) {} p) : p.manager.killed = [] :=
  (Calm.reach hmax h).2.killed

/-- One conversation is in a turn when another needs a channel, for which there is room. -/
theorem turns_spared_beside : ∃ p : Pool ℕ, Reach (Pool.step 2 900) (Spares 2 900) {} p ∧
    p.manager.inTurn 0 = true ∧ p.manager.killed = [] := by
  have hok₁ : Spares 2 900 ({} : Pool ℕ) (.call (.acquire 7)) := trivial
  have h₁ := (Reach.refl : Reach (Pool.step 2 900) (Spares 2 900) {} ({} : Pool ℕ)).next hok₁ rfl
  have h₂ := h₁.next (show Spares 2 900 _ (.go 0 (some 1)) from fun hroom => absurd hroom.2 (by decide)) rfl
  have h₃ := h₂.next (show Spares 2 900 _ (.turnBegins 0) by
    simp [Spares,Call.sections,Manager.perform]) rfl
  have h₄ := h₃.next (show Spares 2 900 _ (.call (.acquire 8)) from trivial) rfl
  have h₅ := h₄.next (show Spares 2 900 _ (.go 1 (some 1)) from fun hroom => absurd hroom.2 (by decide)) rfl
  exact ⟨_,h₅,rfl,turns_spared Nat.two_pos h₅⟩

/-- One conversation is in a turn when another needs the only channel. -/
def crowded : List (Event ℕ) :=
  [.call (.acquire 7),.go 0 (some 1),.turnBegins 0,.call (.acquire 8),.go 1 (some 1)]

/-- A turn goes on for as long as a channel may be idle. -/
def patient : List (Event ℕ) :=
  [.call (.acquire 7),.go 0 (some 1),.turnBegins 0,.tick 30,.call .reapOnce,.go 1 none,.go 1 none,.go 1 none]

theorem housekeeping_kills_turn :
    (∃ p : Pool ℕ, Reach (Pool.step 1 30) anyAct {} p ∧ ¬ p.manager.killed = []) ∧
      ∃ p : Pool ℕ, Reach (Pool.step 50 30) anyAct {} p ∧ ¬ p.manager.killed = [] := by
  constructor
  · have hrun : (run (Pool.step 1 30) anyAct {} crowded).any (fun p => !p.manager.killed.isEmpty) = true := by decide
    obtain ⟨p,hp,hkilled⟩ := exists_reach_of_run hrun
    exact ⟨p,hp,by simpa using hkilled⟩
  · have hrun : (run (Pool.step 50 30) anyAct {} patient).any (fun p => !p.manager.killed.isEmpty) = true := by decide
    obtain ⟨p,hp,hkilled⟩ := exists_reach_of_run hrun
    exact ⟨p,hp,by simpa using hkilled⟩

end SessionManager
end Saarathi
