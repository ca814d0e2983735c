import Saarathi.Lifecycle

/-!
# The channel pool

At most one channel is pooled for a conversation and no channel for two, so
closing one conversation's channel leaves every other conversation's alone.
-/

namespace Saarathi

open Machine Program Program.Prog Interleaving

namespace World

variable {w w' : World} {c c' : ConversationId}

/-- The channel that is pooled for a conversation. -/
def channelOf (w : World) (c : ConversationId) : Option ChannelRec :=
  (w.poolGet c).bind fun e => w.channels[e.channel]?

/-- Each conversation has one entry at most, and each entry a channel of its own. -/
structure Pooled (w : World) : Prop where
  conversations : (w.pool.map (·.conversationId)).Nodup
  channels : (w.pool.map (·.channel)).Nodup
  bound : ∀ e ∈ w.pool, e.channel < w.channels.length

/-- Entries may go, and channels change. -/
theorem Pooled.sublist (h : w.Pooled) (hp : w'.pool.Sublist w.pool)
    (hc : w'.channels.length = w.channels.length) : w'.Pooled where
  conversations := h.conversations.sublist (hp.map _)
  channels := h.channels.sublist (hp.map _)
  bound e he := hc ▸ h.bound e (hp.subset he)

@[simp] theorem closeChannel_pool (i : ChannelId) : (w.closeChannel i).pool = w.pool := rfl

@[simp] theorem closeChannel_length (i : ChannelId) :
    (w.closeChannel i).channels.length = w.channels.length := by
  simp [closeChannel]

theorem mem_of_poolGet {e : PoolEntry} (h : w.poolGet c = some e) : e ∈ w.pool ∧ e.conversationId = c := by
  refine ⟨List.mem_of_find?_eq_some h,?_⟩
  have hc := List.find?_some h
  simpa using hc

theorem Pooled.popChannel (h : w.Pooled) (c : ConversationId) : (w.popChannel c).2.Pooled := by
  unfold World.popChannel
  split
  · exact h
  · apply h.sublist
    · exact List.filter_sublist
    · simp

theorem Pooled.evict {max n : ℕ} {w : World} (h : w.Pooled) : (evict max n w).Pooled := by
  induction n generalizing w with
  | zero => exact h
  | succ n ih =>
    rw [World.evict]
    split
    · exact h
    · rename_i e es he
      split
      · apply ih
        apply h.sublist
        · simp [he]
        · simp
      · exact h

theorem evict_pool {max n : ℕ} {w : World} : (evict max n w).pool.Sublist w.pool := by
  induction n generalizing w with
  | zero => exact List.Sublist.refl _
  | succ n ih =>
    rw [World.evict]
    split
    · exact List.Sublist.refl _
    · rename_i e es he
      split
      · rw [he]
        exact ih.trans (List.sublist_cons_self e es)
      · exact List.Sublist.refl _

theorem Pooled.openChannel {auth : Auth} {now : ℕ} {queue : List Channel.Frame}
    {pending : Option Channel.Frame} (h : w.Pooled) (hc : ∀ e ∈ w.pool, e.conversationId ≠ c) :
    (w.openChannel c auth now queue pending).2.Pooled := by
  unfold World.openChannel
  refine ⟨?_,?_,?_⟩
  · simp only [List.map_append,List.map_cons,List.map_nil]
    refine List.nodup_append.mpr ⟨h.conversations,by simp,?_⟩
    simpa using hc
  · simp only [List.map_append,List.map_cons,List.map_nil]
    refine List.nodup_append.mpr ⟨h.channels,by simp,?_⟩
    simpa using fun e he => Nat.ne_of_lt (h.bound e he)
  · intro e he
    simp only [List.mem_append,List.mem_singleton] at he
    simp only [List.length_append,List.length_singleton]
    rcases he with he | rfl
    · exact Nat.lt_succ_of_lt (h.bound e he)
    · exact Nat.lt_succ_self _

theorem Pooled.connect {max : ℕ} {auth : Auth} {ch : Choice} {r : Except Exn ChannelId}
    (h : w.Pooled) (hc : ∀ e ∈ w.pool, e.conversationId ≠ c)
    (he : w.connect max c auth ch = some (r,w')) : w'.Pooled := by
  unfold World.connect at he
  split at he
  · split at he
    · obtain ⟨-,rfl⟩ := Prod.mk.inj (Option.some.inj he)
      exact h.evict
    · obtain ⟨-,rfl⟩ := Prod.mk.inj (Option.some.inj he)
      exact h.evict.openChannel fun e hm => hc e (evict_pool.subset hm)
  · obtain ⟨-,rfl⟩ := Prod.mk.inj (Option.some.inj he)
    exact h.evict
  · cases he

theorem Pooled.inj (h : w.Pooled) {e e' : PoolEntry} (he : e ∈ w.pool) (he' : e' ∈ w.pool)
    (hc : e.channel = e'.channel) : e = e' := List.inj_on_of_nodup_map h.channels he he' hc

/-- The entry that is used again goes to the end. -/
theorem Pooled.reuse {e : PoolEntry} {ch : Choice} {r : Except Exn ChannelId} (h : w.Pooled)
    (hm : e ∈ w.pool) (he : w.reuse e ch = some (r,w')) : w'.Pooled := by
  unfold World.reuse at he
  split at he
  · obtain ⟨-,rfl⟩ := Prod.mk.inj (Option.some.inj he)
    have hsub : (w.pool.filter fun e' => e'.conversationId ≠ e.conversationId).Sublist w.pool :=
      List.filter_sublist
    refine ⟨?_,?_,?_⟩
    · simp only [List.map_append,List.map_cons,List.map_nil]
      refine List.nodup_append.mpr ⟨h.conversations.sublist (hsub.map _),by simp,?_⟩
      intro i hi j hj
      obtain rfl := List.mem_singleton.mp hj
      obtain ⟨e',he',rfl⟩ := List.mem_map.mp hi
      simpa using (List.mem_filter.mp he').2
    · simp only [List.map_append,List.map_cons,List.map_nil]
      refine List.nodup_append.mpr ⟨h.channels.sublist (hsub.map _),by simp,?_⟩
      intro i hi j hj
      obtain rfl := List.mem_singleton.mp hj
      obtain ⟨e',he',rfl⟩ := List.mem_map.mp hi
      obtain ⟨hm',hne⟩ := List.mem_filter.mp he'
      intro hchannel
      have heq : e' = e := h.inj hm' hm hchannel
      simp [heq] at hne
    · intro e' he'
      rcases List.mem_append.mp he' with hm' | hm'
      · exact h.bound e' (hsub.subset hm')
      · obtain rfl := List.mem_singleton.mp hm'
        exact h.bound e hm
  · cases he

theorem Pooled.acquire {max : ℕ} {auth : Auth} {ch : Choice} {r : Except Exn ChannelId} (h : w.Pooled)
    (he : w.acquire max c auth ch = some (r,w')) : w'.Pooled := by
  unfold World.acquire at he
  split at he
  · rename_i e hget
    obtain ⟨hmem,rfl⟩ := mem_of_poolGet hget
    split at he
    · exact h.reuse hmem he
    · apply (h.popChannel _).connect ?_ he
      intro e' he'
      simp only [World.popChannel,hget,closeChannel_pool,List.mem_filter] at he'
      simpa using he'.2
  · rename_i hget
    apply h.connect ?_ he
    intro e hm
    simpa using List.find?_eq_none.mp hget e hm

theorem Pooled.sendAndAwaitTurn {i : ChannelId} {text : Json} {t g : ℕ} {ch : Choice} {done : Bool}
    {r : Except Exn Channel.BotTurn} (h : w.Pooled)
    (he : w.sendAndAwaitTurn i text t g ch = some (r,done,w')) : w'.Pooled := by
  unfold World.sendAndAwaitTurn at he
  split at he
  · split at he
    · cases he
    · split at he
      · cases he
      · split at he
        · obtain ⟨-,he⟩ := Prod.mk.inj (Option.some.inj he)
          obtain ⟨-,rfl⟩ := Prod.mk.inj he
          exact h.sublist (List.Sublist.refl _) (by simp)
        · obtain ⟨-,he⟩ := Prod.mk.inj (Option.some.inj he)
          obtain ⟨-,rfl⟩ := Prod.mk.inj he
          exact h.sublist (List.Sublist.refl _) (by simp)
  · cases he

/-- A call that is not one of the pool's leaves the pool and the channels alone. -/
theorem pool_of_role {d : Deployment} {x : Conn} {o : Op} {ch : Choice} {r : Except Exn o.Ans} {done : Bool}
    (hp : o.role ≠ .pop) (hc : o.role ≠ .channel) (h : w.perform d x o ch = some (r,done,w')) :
    w'.pool = w.pool ∧ w'.channels = w.channels := by
  cases o with
  | stmt s =>
    obtain ⟨c,db,hf,rfl,rfl⟩ := onDb_eq h
    exact ⟨rfl,rfl⟩
  | commit =>
    obtain ⟨c,db,hf,rfl,rfl⟩ := onDb_eq h
    exact ⟨rfl,rfl⟩
  | finalize story =>
    rcases finalize_eq h with ⟨rfl,rfl⟩ | ⟨rfl,-,rfl⟩ <;> exact ⟨rfl,rfl⟩
  | acquire c auth => exact absurd rfl hc
  | popChannel c => exact absurd rfl hp
  | sendAndAwaitTurn i text t g auth => exact absurd rfl hc
  | rollback =>
    obtain ⟨rfl,rfl,rfl⟩ := settled_eq h
    exact ⟨rfl,rfl⟩
  | snapshot =>
    obtain ⟨rfl,-,rfl⟩ := settled_eq h
    exact ⟨rfl,rfl⟩
  | scopeLookup tenant organization key =>
    obtain ⟨rfl,-,rfl⟩ := settled_eq h
    exact ⟨rfl,rfl⟩
  | scopeStore version tenant organization agent =>
    obtain ⟨rfl,-,rfl⟩ := settled_eq h
    exact ⟨rfl,rfl⟩
  | handleBegin c run =>
    obtain ⟨rfl,rfl,rfl⟩ := settled_eq h
    exact ⟨rfl,rfl⟩
  | handleEnd c =>
    obtain ⟨rfl,rfl,rfl⟩ := settled_eq h
    exact ⟨rfl,rfl⟩
  | getenv name =>
    obtain ⟨-,rfl⟩ := asked_eq h
    exact ⟨rfl,rfl⟩
  | today =>
    obtain ⟨-,rfl⟩ := asked_eq h
    exact ⟨rfl,rfl⟩
  | reloadDue =>
    obtain ⟨-,rfl⟩ := asked_eq h
    exact ⟨rfl,rfl⟩
  | _ =>
    obtain rfl := remote_eq h
    exact ⟨rfl,rfl⟩

theorem Pooled.perform {d : Deployment} {x : Conn} {o : Op} {ch : Choice} {r : Except Exn o.Ans}
    {done : Bool} (h : w.Pooled) (he : w.perform d x o ch = some (r,done,w')) : w'.Pooled := by
  have hother : o.role ≠ .pop → o.role ≠ .channel → w'.Pooled := by
    intro hp hc
    obtain ⟨hpool,hchannels⟩ := pool_of_role hp hc he
    exact h.sublist (by rw [hpool]) (by rw [hchannels])
  cases o with
  | popChannel c =>
    obtain ⟨rfl,-,rfl⟩ := settled_eq he
    exact h.popChannel c
  | acquire c auth => exact h.acquire (acquired_eq he).2
  | sendAndAwaitTurn i text t g auth => exact h.sendAndAwaitTurn he
  | stmt s =>
    have hdb := s.isDb_role
    exact hother (fun e => by simp [show s.role = .pop from e,Role.isDb] at hdb)
      fun e => by simp [show s.role = .channel from e,Role.isDb] at hdb
  | _ => exact hother nofun nofun

theorem foldl_closeChannel (es : List PoolEntry) (w : World) :
    (es.foldl (fun w e => w.closeChannel e.channel) w).pool = w.pool ∧
      (es.foldl (fun w e => w.closeChannel e.channel) w).channels.length = w.channels.length := by
  induction es generalizing w with
  | nil => exact ⟨rfl,rfl⟩
  | cons e es ih =>
    obtain ⟨hpool,hlength⟩ := ih (w.closeChannel e.channel)
    exact ⟨hpool,hlength.trans (closeChannel_length e.channel)⟩

theorem Pooled.env {d : Deployment} {e : EnvAct} (h : w.Pooled) (he : w.env d e = some w') : w'.Pooled := by
  cases e with
  | reload registry =>
    obtain rfl := Option.some.inj he
    exact h.sublist (List.Sublist.refl _) rfl
  | reap now =>
    obtain rfl := Option.some.inj he
    have hfold := foldl_closeChannel
      (w.pool.filter fun e => !w.channelAlive e.channel || e.lastUsed + d.idleCloseS ≤ now)
      { w with pool := w.pool.filter fun e => !(!w.channelAlive e.channel || e.lastUsed + d.idleCloseS ≤ now) }
    apply h.sublist
    · rw [World.reap,hfold.1]
      exact List.filter_sublist
    · rw [World.reap,hfold.2]
  | closeAll =>
    obtain rfl := Option.some.inj he
    have hfold := foldl_closeChannel w.pool { w with pool := [] }
    apply h.sublist
    · rw [World.closeAll,hfold.1]
      exact List.nil_sublist _
    · rw [World.closeAll,hfold.2]
  | reader i a =>
    simp only [World.env] at he
    split at he
    · split at he
      · split at he
        · obtain rfl := Option.some.inj he
          exact h.sublist (List.Sublist.refl _) (by simp)
        · cases he
      · cases he
    · cases he

/-- Closing another conversation's channel leaves this one's alone. -/
theorem Pooled.channelOf_popChannel (h : w.Pooled) (hc : c' ≠ c) :
    (w.popChannel c).2.channelOf c' = w.channelOf c' := by
  unfold World.popChannel
  split
  · rfl
  · rename_i e he
    obtain ⟨hmem,rfl⟩ := mem_of_poolGet he
    have hget : ({ w with pool := w.pool.filter (·.conversationId ≠ e.conversationId) }.closeChannel
        e.channel).poolGet c' = w.poolGet c' := by
      simp only [poolGet,closeChannel_pool,List.find?_filter]
      congr 1
      funext a
      by_cases ha : a.conversationId = c'
      · simp [ha,hc]
      · simp [ha]
    unfold channelOf
    rw [hget]
    cases hget' : w.poolGet c' with
    | none => rfl
    | some e' =>
      obtain ⟨hmem',rfl⟩ := mem_of_poolGet hget'
      have hne : e.channel ≠ e'.channel := fun hchannel => hc (by rw [h.inj hmem hmem' hchannel])
      simp [closeChannel,List.getElem?_modify,hne]

/-- A call that neither uses a channel nor closes the conversation's leaves it alone. -/
theorem channelOf_exec {d : Deployment} {x : Conn} {o : Op} {ch : Choice} {r : Except Exn o.Ans}
    (hw : w.Pooled) (h : w.exec d x o ch = some (r,w')) (ho : o.role ≠ .channel)
    (hc : ∀ c', o = .popChannel c' → c' ≠ c) : w'.channelOf c = w.channelOf c := by
  obtain ⟨done,w₁,hp,rfl⟩ := exec_eq h
  change w₁.channelOf c = w.channelOf c
  by_cases hpop : o.role = .pop
  · obtain ⟨c',rfl⟩ := Op.eq_popChannel hpop
    obtain ⟨rfl,-,rfl⟩ := settled_eq hp
    exact hw.channelOf_popChannel (hc c' rfl).symm
  · obtain ⟨hpool,hchannels⟩ := pool_of_role hpop ho hp
    simp only [channelOf,poolGet,hpool,hchannels]

theorem pooled_empty (hw : w.pool = []) : w.Pooled := by
  refine ⟨?_,?_,?_⟩ <;> simp [hw]

/-- The pool stays as it should be in every run. -/
theorem Pooled.reach {d : Deployment} {ok : Config → Action → Prop} {c : Config} (h : w.Pooled)
    (hr : Reach (step (system d)) ok (idle w) c) : c.world.Pooled := by
  refine (invariant_of_all (G := Pooled) (system_lawful d).prog (fun _ _ _ hw => ?_) ?_ ?_ hr
    (guarded_idle w) h).2
  · exact hw.sublist (List.Sublist.refl _) rfl
  · intro w x o ch r w' _ hw he
    obtain ⟨done,w₁,hp,rfl⟩ := exec_eq he
    exact (hw.perform hp).sublist (List.Sublist.refl _) rfl
  · intro w e w' hw he
    exact hw.env he

end World

end Saarathi
