import Saarathi.Confinement

/-!
# Services on behalf of a caller

From the caller alone, every function of the services names only conversations
that it has found for the caller and the sessions in them.
-/

namespace Saarathi

open Program Program.Prog ReadCommitted

namespace Confinement

variable {d : Deployment} {P : Owner → Prop} {x : Conn} {w w' : World} {α β : Type}

/-- A conversation that the request has found, and a session in a conversation of such a user. -/
abbrev Knows (P : Owner → Prop) (x : Conn) (c : ConversationId) (k : Option SessionId) (w : World) : Prop :=
  Found P x c w ∧ ∀ i, k = some i → w.db.OwnsSession P i

theorem lasting_knows {c : ConversationId} {k : Option SessionId} : Lasting (Up P x) (Knows P x c k) :=
  lasting_found.and fun _ _ h hu i hi => hu.steady.session (h i hi)

theorem knows_of_found {c : ConversationId} (h : Found P x c w) : Knows P x c none w :=
  ⟨h,fun i hi => by cases hi⟩

theorem knows_of_holding {s : AgentSession} (h : Holding P x s w) : Knows P x s.conversationId (some s.id) w := by
  refine ⟨h.1,?_⟩
  rintro i ⟨⟩
  exact ⟨_,h.2,h.1.2⟩

theorem stays_of_concerns {c : ConversationId} {k : Option SessionId} {o : Op} (ho : o.Concerns c k)
    (h : Knows P x c k w) : o.Stays P x w where
  conversation c' hc' := by
    rcases ho.names with hn | hn
    · obtain rfl := Option.some.inj (hn.symm.trans hc')
      exact h.1.2
    · rw [hn] at hc'
      cases hc'
  session i hi := by
    rcases ho.ofSession with hs | hs
    · exact h.2 i (hs.symm.trans hi)
    · rw [hs] at hi
      cases hi
  user u hu := by
    rw [ho.onBehalf] at hu
    cases hu
  sweep := ho.sweeps
  channel i hi := by
    rw [ho.sendsOn] at hi
    cases hi

theorem safe_of_concerns {c : ConversationId} {k : Option SessionId} {p : Proc α} (h : Concerns c k p) :
    Safe (spec d P x) (Knows P x c k) p :=
  Triple.of_all rises lasting_knows (All.mono h fun _ ho _ hw => ⟨stays_of_concerns ho hw,hw.1.1⟩)

theorem safe_of_found {c : ConversationId} {p : Proc α} (h : Concerns c none p) :
    Safe (spec d P x) (Found P x c) p :=
  (safe_of_concerns h).from_facts fun _ => knows_of_found

theorem safe_of_holding {s : AgentSession} {p : Proc α} (h : Concerns s.conversationId (some s.id) p) :
    Safe (spec d P x) (Holding P x s) p :=
  (safe_of_concerns h).from_facts fun _ => knows_of_holding

/-- One call: what it may name is known before, what it answers is known after. -/
theorem call {o : Op} {F : World → Prop} {G : o.Ans → World → Prop} (hF : Lasting (Up P x) F)
    (hpre : ∀ w, F w → o.Stays P x w ∧ Own P x w)
    (hG : ∀ w a w', F w → F w' → Answered d P x o w (.ok a) w' → G a w') :
    Triple (spec d P x) F (perform o) G :=
  Triple.perform fun l hl l₁ h₁ => by
    have hl₁ := hF l l₁ hl h₁.toUp
    exact ⟨hpre l₁ hl₁,fun a l₂ h₂ => hG l₁ a l₂ hl₁ (hF l₁ l₂ hl₁ h₂.up) h₂⟩

/-- At most one row comes back. -/
theorem one {F : World → Prop} {A : Type} {rows : List A} {G : Option A → World → Prop}
    (hnone : ∀ w, F w → G none w) (hsome : ∀ w, F w → ∀ a ∈ rows, G (some a) w) :
    Triple (spec d P x) F (scalarOneOrNone rows) G := by
  unfold scalarOneOrNone
  split
  · exact Triple.pure hnone
  · exact Triple.pure fun w hw => hsome w hw _ (List.mem_singleton_self _)
  · exact Triple.throw _

/-- A query or an update of which at most one row comes back. -/
theorem call_one {s : Stmt} {A : Type} {f : s.Ans → List A} {F : World → Prop} {G : A → World → Prop}
    (hF : Lasting (Up P x) F) (hpre : ∀ w, F w → (Op.stmt s).Stays P x w ∧ Own P x w)
    (hG : ∀ w rows w', F w → F w' → Answered d P x (.stmt s) w (.ok rows) w' → ∀ a ∈ f rows, G a w') :
    Triple (spec d P x) F (do scalarOneOrNone (f (← stmt s))) fun r w => ∀ a, r = some a → G a w := by
  have hcall : Triple (spec d P x) F (stmt s) fun rows w => ∀ a ∈ f rows, G a w := call hF hpre hG
  refine hcall.andThen rises hF fun rows => one ?_ ?_
  · rintro w - a ⟨⟩
  · rintro w ⟨-,hw⟩ a ha _ ⟨⟩
    exact hw a ha

/-- A session that `x` sees, by its own row. -/
theorem inConversation_of_view (ha : w.db.Attributed) {k : ℕ} {v : AgentSession}
    (hv : w.db.sessions.view x k = some v) : v.id = k ∧ w.db.InConversation v.conversationId v.id := by
  have hversion := Table.version_of_view hv
  have hkey : v.id = k := ha.sessionKey k v hversion
  refine ⟨hkey,?_⟩
  rw [hkey]
  exact ha.inConversation hversion

/-- The rows that an update answers are versions that `x` sees after it. -/
theorem view_of_updateWhere {V : Type} {K : Constraints V} {t t' : Table Conn V} {p : V → Bool} {f : V → V}
    {vs : List V} (h : t.updateWhere x K p f = .ok (vs,t')) {v : V} (hv : v ∈ vs) :
    ∃ k u, t.view x k = some u ∧ p u = true ∧ v = f u ∧ t'.view x k = some v := by
  obtain ⟨-,hrow,rfl⟩ := Table.updated_of_updateWhere h
  obtain ⟨u,hu,rfl⟩ := List.mem_map.mp hv
  obtain ⟨k,hk,hp⟩ := Table.mem_select.mp hu
  refine ⟨k,u,hk,hp,rfl,?_⟩
  have hfilter : ((t.row k).view x).filter p = some u := Option.filter_eq_some_iff.mpr ⟨hk,hp⟩
  rw [Table.view,hrow,Table.updateRow,hfilter]
  exact Row.view_put

theorem mem_of_first {V : Type} {db db' : Database} {id key : V → ℕ} {pick : ℕ} {rows a : List V}
    (h : db.first id key pick rows = .ok (a,db')) {v : V} (hv : v ∈ a) : v ∈ rows := by
  unfold Database.first at h
  split at h
  · rename_i r hr
    split at h
    · obtain ⟨rfl,-⟩ := Prod.mk.inj (Effect.ok.inj h)
      obtain rfl := List.mem_singleton.mp hv
      exact List.mem_of_find?_eq_some hr
    · cases h
  · split at h
    · obtain ⟨rfl,-⟩ := Prod.mk.inj (Effect.ok.inj h)
      cases hv
    · cases h

section Sessions

open AgentSessionRepository

variable {c : ConversationId} {s : AgentSession}

theorem getOpenForConversation_found : Triple (spec d P x) (Found P x c) (getOpenForConversation c)
    fun r w => ∀ s, r = some s → s.conversationId = c ∧ Holding P x s w := by
  refine call_one (s := .getOpenForConversation c) (f := fun rows => rows) lasting_found ?_ ?_
  · exact fun w hw => ⟨stays_of_concerns ⟨.inl rfl,.inr rfl,rfl,rfl,rfl⟩ (knows_of_found hw),hw.1⟩
  · intro w rows w' hw hw' ha s hs
    obtain ⟨p,he⟩ := ha.effect
    obtain ⟨rfl,hdb⟩ := Prod.mk.inj (Effect.ok.inj he)
    obtain ⟨k,hk,hp⟩ := Table.mem_select.mp hs
    have hconv : s.conversationId = c := by simpa using (Bool.and_eq_true_iff.mp hp).1
    rw [hdb] at hk
    refine ⟨hconv,?_,(inConversation_of_view ha.attributed' hk).2⟩
    rwa [hconv]

theorem createPending_found (agent : AgentId) (language : String) :
    Triple (spec d P x) (Found P x c) (createPending c agent language)
      fun s w => s.conversationId = c ∧ Holding P x s w := by
  apply call lasting_found
  · exact fun w hw => ⟨stays_of_concerns ⟨.inl rfl,.inr rfl,rfl,rfl,rfl⟩ (knows_of_found hw),hw.1⟩
  · intro w s w' hw hw' ha
    obtain ⟨p,he⟩ := ha.effect
    obtain ⟨t,ht,hdb⟩ := Database.onSessions_ok he
    obtain ⟨rfl,-,hwrite⟩ := Database.insertRow_ok ht
    obtain rfl := (Table.write_ok hwrite).1
    have hview : ∃ v, w'.db.sessions.view x p.id = some v ∧ v.id = p.id ∧ v.conversationId = c := by
      rw [hdb]
      exact ⟨_,Table.view_put_self ..,rfl,rfl⟩
    obtain ⟨v,hv,hid,hconv⟩ := hview
    have hin := (inConversation_of_view ha.attributed' hv).2
    rw [hid,hconv] at hin
    exact ⟨rfl,hw',hin⟩

theorem abandonOpenSession_found (reason : String) :
    Triple (spec d P x) (Found P x c) (abandonOpenSession c reason)
      fun r w => ∀ s, r = some s → s.conversationId = c ∧ Holding P x s w := by
  refine call_one (s := .abandonOpenSession c reason) (f := fun rows => rows) lasting_found ?_ ?_
  · exact fun w hw => ⟨stays_of_concerns ⟨.inl rfl,.inr rfl,rfl,rfl,rfl⟩ (knows_of_found hw),hw.1⟩
  · intro w rows w' hw hw' ha s hs
    obtain ⟨p,he⟩ := ha.effect
    obtain ⟨t,ht,hdb⟩ := Database.updateSessions_ok he
    obtain ⟨k,u,-,hp,hnew,hview⟩ := view_of_updateWhere ht hs
    have hconv : s.conversationId = c := by
      rw [hnew]
      simpa using (Bool.and_eq_true_iff.mp hp).1
    have hview' : w'.db.sessions.view x k = some s := by
      rw [hdb]
      exact hview
    refine ⟨hconv,?_,(inConversation_of_view ha.attributed' hview').2⟩
    rwa [hconv]

theorem Holding.of_eq {s v : AgentSession} (h : Holding P x s w) (hid : v.id = s.id)
    (hc : v.conversationId = s.conversationId) : Holding P x v w := by
  rw [Holding,hid,hc]
  exact h

/-- The rows that an update of one session by its id answers. -/
theorem holding_of_update {q : AgentSession → Bool} {f : AgentSession → AgentSession} {rows : List AgentSession}
    (ha : w'.db.Attributed) (hw' : Holding P x s w')
    (h : w.db.updateSessions x (fun u => u.id = s.id && q u) f = .ok (rows,w'.db)) (hid : ∀ u, (f u).id = u.id)
    {v : AgentSession} (hv : v ∈ rows) : Holding P x v w' ∧ v.id = s.id ∧ v.conversationId = s.conversationId := by
  obtain ⟨t,ht,hdb⟩ := Database.updateSessions_ok h
  obtain ⟨k,u,-,hp,rfl,hview⟩ := view_of_updateWhere ht hv
  have hids : (f u).id = s.id := (hid u).trans (by simpa using (Bool.and_eq_true_iff.mp hp).1)
  have hview' : w'.db.sessions.view x k = some (f u) := by
    rw [hdb]
    exact hview
  have hkey : (f u).id = k := (inConversation_of_view ha hview').1
  have hversion : w'.db.sessions.Version s.id (f u) := by
    rw [← hids,hkey]
    exact Table.version_of_view hview'
  have hconv : (f u).conversationId = s.conversationId := hw'.2.2 _ hversion
  exact ⟨Holding.of_eq hw' hids hconv,hids,hconv⟩

theorem claimFinalizing_holding : Triple (spec d P x) (Holding P x s) (claimFinalizing s.id)
    fun r w => ∀ v, r = some v → Holding P x v w ∧ v.id = s.id ∧ v.conversationId = s.conversationId := by
  refine call_one (s := .claimFinalizing s.id) (f := fun rows => rows) lasting_holding ?_ ?_
  · exact fun w hw => ⟨stays_of_concerns ⟨.inr rfl,.inl rfl,rfl,rfl,rfl⟩ (knows_of_holding hw),hw.1.1⟩
  · intro w rows w' hw hw' ha v hv
    obtain ⟨p,he⟩ := ha.effect
    exact holding_of_update ha.attributed' hw' he (fun _ => rfl) hv

theorem updateStateAndFields_holding (expected : List SessionState) (new : SessionState) (fields : FieldUpdates) :
    Triple (spec d P x) (Holding P x s) (updateStateAndFields s.id expected new fields)
      fun r w => ∀ v, r = some v → Holding P x v w ∧ v.id = s.id ∧ v.conversationId = s.conversationId := by
  refine call_one (s := .updateStateAndFields s.id expected new fields) (f := fun rows => rows) lasting_holding ?_ ?_
  · exact fun w hw => ⟨stays_of_concerns ⟨.inr rfl,.inl rfl,rfl,rfl,rfl⟩ (knows_of_holding hw),hw.1.1⟩
  · intro w rows w' hw hw' ha v hv
    obtain ⟨p,he⟩ := ha.effect
    exact holding_of_update ha.attributed' hw' he (fun _ => rfl) hv

/-- A session is read by its id before it is known whose it is. -/
theorem get_own (id : SessionId) : Triple (spec d P x) (Own P x) (get id)
    fun r w => ∀ s, r = some s → s.id = id ∧ w.db.sessions.Version s.id s ∧
      w.db.InConversation s.conversationId s.id := by
  refine call_one (s := .getSession id) (f := fun rows => rows) lasting_own ?_ ?_
  · refine fun w hw => ⟨⟨?_,?_,?_,rfl,?_⟩,hw⟩
    · rintro c ⟨⟩
    · rintro k ⟨⟩
    · rintro u ⟨⟩
    · rintro i ⟨⟩
  · intro w rows w' hw hw' ha s hs
    obtain ⟨p,he⟩ := ha.effect
    obtain ⟨rfl,hdb⟩ := Prod.mk.inj (Effect.ok.inj he)
    obtain ⟨k,hk,hp⟩ := Table.mem_select.mp hs
    rw [hdb] at hk
    obtain ⟨hkey,hin⟩ := inConversation_of_view ha.attributed' hk
    refine ⟨of_decide_eq_true hp,?_,hin⟩
    rw [hkey]
    exact Table.version_of_view hk

end Sessions

section Conversations

open ConversationRepository

variable {user : UserContext}

/-- The conversations that a statement on behalf of the caller yields. -/
theorem found_of_query {s : Stmt} {f : s.Ans → List Conversation} {Q : Conversation → Prop} (hP : P user.owner)
    (hs : s.onBehalf = some user) (hn : s.names = none) (hk : s.ofSession = none) (hsweep : s.sweeps = false)
    (hrows : ∀ db db' p a, s.effect d.adapt db x p = .ok (a,db') → ∀ c ∈ f a,
      Q c ∧ c.belongsTo user = true ∧ ∃ k, db'.conversations.view x k = some c) :
    Triple (spec d P x) (Own P x) (stmt s) fun a w => ∀ c ∈ f a, Found P x c.id w ∧ Q c := by
  refine call lasting_own (fun w hw => ⟨⟨?_,?_,?_,hsweep,?_⟩,hw⟩) ?_
  · intro c hc
    rw [show (Op.stmt s).names = none from hn] at hc
    cases hc
  · intro k hk'
    rw [show (Op.stmt s).ofSession = none from hk] at hk'
    cases hk'
  · intro u hu
    obtain rfl := Option.some.inj (hs.symm.trans hu)
    exact hP
  · rintro i ⟨⟩
  · intro w a w' hw hw' ha c hc
    obtain ⟨p,he⟩ := ha.effect
    obtain ⟨hQ,hbelongs,k,hview⟩ := hrows _ _ p a he c hc
    have hversion := Table.version_of_view hview
    have hkey : c.id = k := ha.attributed'.conversationKey k c hversion
    have howner : c.owner = user.owner := Conversation.belongsTo_iff.mp hbelongs
    refine ⟨⟨hw',?_⟩,hQ⟩
    rw [hkey]
    exact ha.attributed'.owns hversion (howner ▸ hP)

theorem getScoped_rows (hP : P user.owner) (id : ConversationId) :
    Triple (spec d P x) (Own P x) (stmt (.getScoped id user)) fun (rows : List Conversation) w =>
      ∀ c ∈ rows, Found P x c.id w ∧ c.id = id := by
  refine found_of_query (s := .getScoped id user) (f := fun rows => rows) hP rfl rfl rfl rfl ?_
  intro db db' p rows he c hc
  obtain ⟨rfl,hdb⟩ := Prod.mk.inj (Effect.ok.inj he)
  obtain ⟨k,hk,hp⟩ := Table.mem_select.mp hc
  obtain ⟨hid,hbelongs⟩ := Bool.and_eq_true_iff.mp hp
  exact ⟨of_decide_eq_true hid,hbelongs,k,hdb ▸ hk⟩

/-- The one row of a limited query over the caller's conversations. -/
theorem first_rows {s : Stmt} {f : s.Ans → List Conversation} {g : Conversation → ℕ} {q : Conversation → Bool}
    (hP : P user.owner) (hs : s.onBehalf = some user) (hn : s.names = none) (hk : s.ofSession = none)
    (hsweep : s.sweeps = false)
    (heffect : ∀ db db' p a, s.effect d.adapt db x p = .ok (a,db') →
      db.first (·.id) g p.id (db.conversations.select x fun c => c.belongsTo user && q c) = .ok (f a,db')) :
    Triple (spec d P x) (Own P x) (stmt s) fun a w => ∀ c ∈ f a, Found P x c.id w ∧ True := by
  refine found_of_query hP hs hn hk hsweep ?_
  intro db db' p a he c hc
  have hfirst := heffect db db' p a he
  obtain rfl := Database.first_ok hfirst
  obtain ⟨k,hview,hp⟩ := Table.mem_select.mp (mem_of_first hfirst hc)
  exact ⟨trivial,(Bool.and_eq_true_iff.mp hp).1,k,hview⟩

theorem latestActive_rows (hP : P user.owner) :
    Triple (spec d P x) (Own P x) (stmt (.latestActive user)) fun (rows : List Conversation) w =>
      ∀ c ∈ rows, Found P x c.id w ∧ True :=
  first_rows (s := .latestActive user) (g := fun c => c.recency) (q := fun c => c.active) hP rfl rfl rfl rfl fun _ _ _ _ he => he

theorem newestListed_rows (hP : P user.owner) :
    Triple (spec d P x) (Own P x) (stmt (.newestListed user)) fun (rows : List Conversation) w =>
      ∀ c ∈ rows, Found P x c.id w ∧ True := by
  refine first_rows (s := .newestListed user) (g := fun c => c.recency)
    (q := fun c => c.active && decide (0 < c.messageCount)) hP rfl rfl rfl rfl ?_
  intro db db' p a he
  simp only [← Bool.and_assoc]
  exact he

theorem findEmptyForUser_rows (hP : P user.owner) :
    Triple (spec d P x) (Own P x) (stmt (.findEmptyForUser user)) fun (rows : List Conversation) w =>
      ∀ c ∈ rows, Found P x c.id w ∧ True := by
  refine first_rows (s := .findEmptyForUser user) (g := fun c => c.createdAt)
    (q := fun c => c.active && decide (c.messageCount = 0)) hP rfl rfl rfl rfl ?_
  intro db db' p a he
  simp only [← Bool.and_assoc]
  exact he

theorem getScoped_own (hP : P user.owner) (id : ConversationId) :
    Triple (spec d P x) (Own P x) (getScoped id user) fun r w => ∀ c, r = some c → Found P x c.id w ∧ c.id = id := by
  refine (getScoped_rows hP id).andThen rises lasting_own fun rows => one ?_ ?_
  · rintro w - c ⟨⟩
  · rintro w ⟨-,hw⟩ a ha _ ⟨⟩
    exact hw a ha

theorem createNew_own (hP : P user.owner) :
    Triple (spec d P x) (Own P x) (createNew user) fun c w => Found P x c.id w := by
  have hrow : Triple (spec d P x) (Own P x) (stmt (.createConversation user)) fun (c : Conversation) w =>
      ∀ c' ∈ [c], Found P x c'.id w ∧ True := by
    refine found_of_query (s := .createConversation user) (f := fun c => [c]) hP rfl rfl rfl rfl ?_
    intro db db' p c he c' hc
    obtain rfl := List.mem_singleton.mp hc
    obtain ⟨t,ht,rfl⟩ := Database.onConversations_ok he
    obtain ⟨rfl,-,hwrite⟩ := Database.insertRow_ok ht
    obtain rfl := (Table.write_ok hwrite).1
    refine ⟨trivial,?_,p.id,Table.view_put_self ..⟩
    exact Conversation.belongsTo_iff.mpr rfl
  exact hrow.mono (fun _ h => h) fun c w h => (h c (List.mem_singleton_self _)).1

/-- The only row, or what is done without one. -/
theorem onlyOr_own (hP : P user.owner) {f : Option Conversation → Proc Conversation} (rows : List Conversation)
    (hnone : f none = createNew user) (hsome : ∀ c, f (some c) = Pure.pure c) :
    Triple (spec d P x) (fun w => Own P x w ∧ ∀ c ∈ rows, Found P x c.id w) (scalarOneOrNone rows >>= f)
      fun c w => Found P x c.id w := by
  have hlast : Lasting (Up P x) fun w => Own P x w ∧ ∀ c ∈ rows, Found P x c.id w :=
    lasting_own.and fun w w' h hu c hc => lasting_found w w' (h c hc) hu
  have hone : Triple (spec d P x) (fun w => Own P x w ∧ ∀ c ∈ rows, Found P x c.id w) (scalarOneOrNone rows)
      fun r w => ∀ c, r = some c → Found P x c.id w := by
    refine one ?_ ?_
    · rintro w - c ⟨⟩
    · rintro w ⟨-,hw⟩ a ha _ ⟨⟩
      exact hw a ha
  refine hone.andThen rises hlast ?_
  rintro (_ | c)
  · rw [hnone]
    exact (createNew_own hP).from_facts fun _ h => h.1.1
  · rw [hsome]
    exact Triple.pure fun w h => h.2 c rfl

theorem getOrCreate_own (hP : P user.owner) (id : Option ConversationId) :
    Triple (spec d P x) (Own P x) (getOrCreate id user) fun c w => Found P x c.id w := by
  cases id with
  | none =>
    refine (latestActive_rows hP).andThen rises lasting_own fun rows => ?_
    exact (onlyOr_own hP rows rfl fun _ => rfl).from_facts fun _ h => ⟨h.1,fun c hc => (h.2 c hc).1⟩
  | some id =>
    refine (getScoped_rows hP id).andThen rises lasting_own fun rows => ?_
    exact (onlyOr_own hP rows rfl fun _ => rfl).from_facts fun _ h => ⟨h.1,fun c hc => (h.2 c hc).1⟩

end Conversations

section Sessions

open SessionService

variable {c : ConversationId} {s : AgentSession}

theorem abandon_found (reason actor : String) : Safe (spec d P x) (Found P x c) (abandon c reason actor) := by
  refine Triple.seq rises lasting_found getOpenForConversation_found.safe ?_
  rintro (_ | session)
  · exact Triple.done _
  refine (abandonOpenSession_found reason).andThen rises lasting_found ?_
  rintro (_ | updated)
  · exact Triple.throw _
  intro w hw
  obtain ⟨rfl,hholding⟩ := hw.2 updated rfl
  refine safe_of_holding (Concerns.bind (.named rfl rfl rfl rfl rfl) fun _ => ?_) w hholding
  exact Concerns.bind ((all_perform _).mpr ⟨.inr rfl,.inl rfl,rfl,rfl,rfl⟩) fun _ => .pure _

/-- The open session of the conversation, one created for it, or none. -/
abbrev Turning (P : Owner → Prop) (x : Conn) (c : ConversationId) (session : Option AgentSession) (w : World) : Prop :=
  Found P x c w ∧ ∀ s, session = some s → s.conversationId = c ∧ Holding P x s w

theorem lasting_turning {session : Option AgentSession} : Lasting (Up P x) (Turning P x c session) :=
  lasting_found.and fun w w' h hu s hs => ⟨(h s hs).1,lasting_holding w w' (h s hs).2 hu⟩

theorem knows_of_turning {session : Option AgentSession} (h : Turning P x c session w) :
    Knows P x c (session.map (·.id)) w := by
  refine ⟨h.1,fun i hi => ?_⟩
  obtain ⟨s,hs,rfl⟩ := Option.map_eq_some_iff.mp hi
  obtain ⟨-,hholding⟩ := h.2 s hs
  exact ⟨_,hholding.2,hholding.1.2⟩

theorem safe_of_turning {session : Option AgentSession} {p : Proc α} (h : Concerns c (session.map (·.id)) p) :
    Safe (spec d P x) (Turning P x c session) p :=
  (safe_of_concerns h).from_facts fun _ => knows_of_turning

theorem openFor_found {agent : RegisteredAgent} {onDisplace : Proc Unit} (h : Concerns c none onDisplace) :
    Triple (spec d P x) (Found P x c) (openFor c agent onDisplace)
      fun r w => ∀ s, r = some s → s.conversationId = c ∧ Holding P x s w := by
  have hcreate : Triple (spec d P x) (Found P x c) (if agent.spec.routing.pinSession then do
        pure (some (← AgentSessionRepository.createPending c agent.id (language agent)))
      else pure none) fun r w => ∀ s, r = some s → s.conversationId = c ∧ Holding P x s w := by
    refine Triple.branch ?_ (Triple.pure ?_)
    · refine (createPending_found agent.id (language agent)).andThen rises lasting_found fun s => Triple.pure ?_
      rintro w ⟨-,hs⟩ _ ⟨⟩
      exact hs
    · rintro w - s ⟨⟩
  refine getOpenForConversation_found.andThen rises lasting_found ?_
  rintro (_ | existing)
  · exact hcreate.from_facts fun _ h => h.1
  refine Triple.branch (Triple.pure fun w h => h.2) ?_
  refine Triple.from_facts ?_ fun w (h : Found P x c w ∧ _) => h.1
  refine Triple.seq rises lasting_found (abandon_found _ _) fun _ => ?_
  exact Triple.seq rises lasting_found (safe_of_found h) fun _ => hcreate

/-- An update answers the same session. -/
abbrev Renewed (P : Owner → Prop) (x : Conn) (s v : AgentSession) (w : World) : Prop :=
  Holding P x v w ∧ v.conversationId = s.conversationId

theorem apply_holding (delta : SessionDelta) :
    Triple (spec d P x) (Holding P x s) (apply s delta) fun v w => Renewed P x s v w := by
  unfold apply checkTransition
  refine Triple.seq rises lasting_holding (Triple.branch (Triple.done _) (Triple.throw _)) fun _ => ?_
  refine (updateStateAndFields_holding [s.state] delta.state delta.fields).andThen rises lasting_holding ?_
  rintro (_ | updated)
  · exact Triple.throw _
  · exact Triple.pure fun w h => ⟨(h.2 updated rfl).1,(h.2 updated rfl).2.2⟩

end Sessions

section Turns

open OrchestrationService

variable {c : ConversationId} {s : AgentSession} {conv : Conversation} {inp : TurnInput}

theorem exitToDefault_found : Safe (spec d P x) (Found P x c) (RouterService.exitToDefault c) := by
  refine Triple.seq rises lasting_found (abandon_found _ _) fun _ => ?_
  refine safe_of_found (Concerns.bind (.named rfl rfl rfl rfl rfl) fun _ => ?_)
  exact Concerns.bind snapshot_concerns fun _ => .pure _

theorem selectExplicit_found (key : Json) :
    Safe (spec d P x) (Found P x conv.id) (RouterService.selectExplicit d conv inp key) := by
  refine Triple.seq rises lasting_found (safe_of_found snapshot_concerns) fun r => ?_
  refine Triple.seq rises lasting_found (safe_of_found (.silent (RouterService.registryGet_calls _ _).within)) ?_
  rintro (_ | a)
  · exact Triple.throw _
  refine Triple.branch (Triple.throw _) ?_
  refine Triple.seq rises lasting_found (safe_of_found (.silent (RouterService.textOr_calls _).within)) fun text => ?_
  exact Triple.branch exitToDefault_found (Triple.done _)

theorem selectPinned_found : Safe (spec d P x) (Found P x conv.id) (RouterService.selectPinned d conv inp) := by
  refine Triple.seq rises lasting_found (safe_of_found RouterService.pinFor_concerns) ?_
  rintro (_ | a)
  · exact safe_of_found (RouterService.selectFree_concerns inp)
  refine Triple.seq rises lasting_found (safe_of_found (.silent (RouterService.textOr_calls _).within)) fun text => ?_
  exact Triple.branch exitToDefault_found (Triple.done _)

theorem select_found : Safe (spec d P x) (Found P x conv.id) (RouterService.select d conv inp) := by
  unfold RouterService.select
  split
  · exact Triple.branch (selectExplicit_found _) selectPinned_found
  · exact selectPinned_found

theorem routeTurn_found : Safe (spec d P x) (Found P x conv.id) (routeTurn d inp conv) := by
  refine Triple.seq rises lasting_found (safe_of_found routerHistory_concerns) fun _ => ?_
  refine Triple.seq rises lasting_found select_found fun decision => ?_
  split
  · exact Triple.throw _
  · exact safe_of_found (Concerns.bind (AgentRegistry.resolveForScope_concerns ..) fun _ => .pure _)

theorem admitTurn_found (agent : RegisteredAgent) :
    Triple (spec d P x) (Found P x conv.id) (admitTurn d conv agent) fun r w => Turning P x conv.id r.1 w := by
  refine Triple.seq rises lasting_found (safe_of_found (checkRateLimits_concerns _)) fun _ => ?_
  refine (openFor_found closeRemoteChannel_concerns).andThen rises lasting_found fun session => ?_
  refine Triple.seq rises lasting_turning ?_ fun _ => ?_
  · exact safe_of_turning (Concerns.branch (.named rfl rfl rfl rfl rfl) (.pure _))
  · refine Triple.andThen rises lasting_turning (safe_of_turning (MessageRepository.recent_concerns _)) fun _ => ?_
    exact Triple.pure fun w h => h.1

theorem finalizeClaimed_holding (agent : Option RegisteredAgent) (user : UserContext) :
    Triple (spec d P x) (Holding P x s) (finalizeClaimed d s agent user) fun v w => Renewed P x s v w := by
  refine Triple.seq rises lasting_holding (safe_of_holding closeRemoteChannel_concerns) fun _ => ?_
  refine Triple.seq rises lasting_holding (Triple.safe (Triple.attempt (safe_of_holding ?_))) ?_
  · unfold endStory
    split
    · exact Concerns.bind ((all_perform _).mpr ⟨.inr rfl,.inl rfl,rfl,rfl,rfl⟩) fun _ => .pure _
    · exact .throw _
  rintro (e | ⟨remote,storyId,content⟩)
  · exact Triple.seq rises lasting_holding (apply_holding _).safe fun _ => Triple.throw _
  refine Triple.seq rises lasting_holding (safe_of_holding (fetchReport_concerns ..)) fun reportUrl => ?_
  refine (apply_holding _).andThen rises lasting_holding fun completed => ?_
  have hlast : Lasting (Up P x) fun w => Holding P x s w ∧ Renewed P x s completed w :=
    lasting_holding.and fun w w' h hu => ⟨lasting_holding w w' h.1 hu,h.2⟩
  refine Triple.andThen rises hlast (P := fun _ _ => True) ?_ fun _ => Triple.pure fun w h => h.1.2
  have hunpin : Concerns s.conversationId (some s.id) (ConversationRepository.unpin s.conversationId) :=
    .named rfl rfl rfl rfl rfl
  exact (safe_of_holding hunpin).from_facts fun _ h => h.1

theorem finalize_holding (agent : Option RegisteredAgent) (user : UserContext) :
    Triple (spec d P x) (Holding P x s) (finalize d s agent user) fun v w => Renewed P x s v w := by
  refine claimFinalizing_holding.andThen rises lasting_holding ?_
  rintro (_ | claimed)
  · have hget := (get_own (d := d) (P := P) (x := x) s.id).from_facts fun w (h : Holding P x s w) => h.1.1
    refine Triple.from_facts ?_ fun w (h : Holding P x s w ∧ _) => h.1
    refine hget.andThen rises lasting_holding ?_
    rintro (_ | v)
    · exact Triple.pure fun w h => ⟨h.1,rfl⟩
    · refine Triple.pure fun w h => ?_
      obtain ⟨hid,hversion,-⟩ := h.2 v rfl
      rw [hid] at hversion
      have hconv : v.conversationId = s.conversationId := h.1.2.2 v hversion
      exact ⟨Holding.of_eq h.1 hid hconv,hconv⟩
  · intro w hw
    obtain ⟨hclaimed,-,hconv⟩ := hw.2 claimed rfl
    have haudit : Concerns claimed.conversationId (some claimed.id)
        (stmt (.auditInsert "session_finalize" claimed.id "system" "")) :=
      (all_perform _).mpr ⟨.inr rfl,.inl rfl,rfl,rfl,rfl⟩
    have hrest : Triple (spec d P x) (Holding P x claimed) (do
        stmt (.auditInsert "session_finalize" claimed.id "system" "")
        finalizeClaimed d claimed agent user) fun v w => Renewed P x s v w :=
      Triple.seq rises lasting_holding (safe_of_holding haudit) fun _ =>
        (finalizeClaimed_holding agent user).mono (fun _ h => h) fun v w h => ⟨h.1,h.2.trans hconv⟩
    exact hrest w hclaimed

end Turns

end Confinement

end Saarathi
