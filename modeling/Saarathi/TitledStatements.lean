import Saarathi.Titles

/-!
# What a statement makes of the titles

A statement raises the count of a conversation, adds to what was said in it, or
puts its title; one lemma for each says what that needs. The calls that end a
transaction need every title seen to.
-/

namespace Saarathi

open ReadCommitted Machine Program Program.Prog Interleaving

/-- What a request knows of its titles: the text that it types, how far it is with it, the
conversation whose count it has raised, and whether its transaction goes on. -/
structure TitleNotes where
  typing : Option Json
  stage : Stage
  bumped : Option ConversationId
  tx : TxStatus

/-- What a statement of a transaction that goes on is called for. -/
def Stmt.Titling (n : TitleNotes) : Stmt → Prop
  | .nextSeqForUpdate _ => n.stage.mid = none
  | .insertMessage m => m.role = .user → ∀ text, n.typing = some text →
      n.stage.mid = none ∧ n.bumped = some m.conversationId
  | .touch c none => n.stage.mid = none ∨ ∃ text, n.stage = .said c text ∧ text.truthy = false
  | .touch c (some j) => ∃ text, (n.stage = .said c text ∨ n.stage = .named c text) ∧ text.truthy = true ∧
      titleOf text = some j
  | .setPlaceholderTitle c _ => n.stage.mid = none ∧ n.bumped = some c
  | .replacePlaceholderTitle c j => ∃ text, n.stage = .touched c text ∧ titleOf text = some j
  | _ => True

namespace Titles

variable {adapt : Json → Option String} {db db' : Database} {h : Titles} {x y : Conn} {w : World}
variable {k c : ConversationId} {v : Conversation} {p : Pick}

section Statement

variable {s : Stmt} {a : s.Ans}

/-- What a request knows of its titles. -/
def notes (h : Titles) (db : Database) (x : Conn) : TitleNotes := ⟨h.typing x,h.stage x,h.bumped x,db.tx x⟩

/-- The row whose count `x` has raised. -/
theorem Fit.bumped_row (hf : Fit adapt db h) (hb : h.bumped x = some c) :
    ∃ v, (db.conversations.row c).dirty = some (x,v) ∧ db.conversations.view x c = some v ∧ v.id = c ∧
      (db.conversations.row c).lockedFor x = false := by
  obtain ⟨v,hv⟩ := hf.held x c hb
  have hview : db.conversations.view x c = some v := Row.view_of_dirty hv
  refine ⟨v,hv,hview,(hf.conversations.written x c v hview).2,?_⟩
  apply Row.lockedFor_eq_false.mpr
  intro y u hd
  exact (Prod.mk.inj (Option.some.inj (hd.symm.trans hv))).1

/-- The rows that an update leaves. -/
theorem Fit.update (hf : Fit adapt db h) (hs : s.conversation = some c)
    (he : s.effect adapt db x p = .ok (a,db')) :
    ((∀ u, db.conversations.view x c = some u → s.selects u = false) ∧
      ∀ k, db'.conversations.row k = db.conversations.row k) ∨
    ∃ u, db.conversations.view x c = some u ∧ s.selects u = true ∧
      (db.conversations.row c).lockedFor x = false ∧
      db'.conversations.row c = (db.conversations.row c).put x (s.renew adapt p u) ∧
      ∀ k, k ≠ c → db'.conversations.row k = db.conversations.row k := by
  obtain ⟨cs,ht⟩ := Stmt.updateWhere_of_effect hs he
  have hone : ∀ k u, db.conversations.view x k = some u → s.selects u = true → k = c := fun k u hu hk => by
    have hkey : u.id = k := (hf.conversations.written x k u hu).2
    rw [← hkey]
    exact Stmt.id_of_selects hs hk
  rcases Table.updateWhere_one hone ht with ⟨-,hnone,hrow⟩ | ⟨u,hu,hsel,-,hrow,hother⟩
  · exact .inl ⟨fun u hu => hnone c u hu,hrow⟩
  · exact .inr ⟨u,hu,hsel,(Table.once_of_updateWhere ht).wrote.not_lockedFor hrow,hrow,hother⟩

theorem Fit.consistent (hf : Fit adapt db h) (he : s.effect adapt db x p = .ok (a,db')) :
    Conversation.Consistent db'.conversations :=
  hf.conversations.move Conversation.kept_keyed
    (.wrote ((Stmt.frame_of_effect s he).conversations.wrote.mono fun _ _ _ hv => hv.keepsId))

/-- A statement that adds nothing to the notes and leaves the conversations alone. -/
theorem Fit.stmt_same (hf : Fit adapt db h) (he : s.effect adapt db x p = .ok (a,db'))
    (hrow : ∀ k, db'.conversations.row k = db.conversations.row k)
    (hspeaks : Op.speaks (h.typing x) (.stmt s) (.ok a) = none)
    (hstage : Op.stageAfter (h.typing x) (h.stage x) (.stmt s) (.ok a) = h.stage x)
    (hbumped : Op.bumpedAfter (h.bumped x) (.stmt s) (.ok a) = h.bumped x) :
    Fit adapt db' (h.after x w (.stmt s) (.ok a)) := by
  have hsame : h.after x w (.stmt s) (.ok a) = h := by
    refine after_eq ?_ hstage hbumped
    simp only [saidAfter,hspeaks,say]
  rw [hsame]
  exact hf.same hrow (hf.consistent he) (Stmt.frame_of_effect s he).tx

section Said

variable {e : Said}

theorem history_of_speaks (hspeaks : Op.speaks (h.typing x) (.stmt s) (.ok a) = some (c,e)) :
    (h.after x w (.stmt s) (.ok a)).history x c = h.history x c ++ [e] := by
  have hsaid : (h.after x w (.stmt s) (.ok a)).said c = (h.said c).put x (h.history x c ++ [e]) := by
    simp only [after,saidAfter,hspeaks,say,Function.update_self]
  rw [history,hsaid,Row.view_put,Option.getD_some]

theorem said_of_speaks (hspeaks : Op.speaks (h.typing x) (.stmt s) (.ok a) = some (c,e)) (hk : k ≠ c) :
    (h.after x w (.stmt s) (.ok a)).said k = h.said k := by
  simp only [after,saidAfter,hspeaks,say,Function.update_of_ne hk]

theorem said_of_silent (hspeaks : Op.speaks (h.typing x) (.stmt s) (.ok a) = none) :
    (h.after x w (.stmt s) (.ok a)).said = h.said := by
  simp only [after,saidAfter,hspeaks,say]

end Said

section Writing

variable (hspeaks : ∀ k e, Op.speaks (h.typing x) (.stmt s) (.ok a) = some (k,e) → k = c)

include hspeaks

theorem said_of_stmt : (h.after x w (.stmt s) (.ok a)).said c = h.said c ∨
    ∃ e, (h.after x w (.stmt s) (.ok a)).said c = (h.said c).put x (h.history x c ++ e) := by
  rcases hsp : Op.speaks (h.typing x) (.stmt s) (.ok a) with _ | ⟨c',e⟩
  · exact .inl (by rw [said_of_silent hsp])
  · obtain rfl := hspeaks c' e hsp
    exact .inr ⟨[e],by simp only [after,saidAfter,hsp,say,Function.update_self]⟩

theorem said_of_stmt_of_ne (hk : k ≠ c) : (h.after x w (.stmt s) (.ok a)).said k = h.said k := by
  rcases hsp : Op.speaks (h.typing x) (.stmt s) (.ok a) with _ | ⟨c',e⟩
  · rw [said_of_silent hsp]
  · obtain rfl := hspeaks c' e hsp
    exact said_of_speaks hsp hk

theorem history_begins (k : ConversationId) : h.history x k <+: (h.after x w (.stmt s) (.ok a)).history x k := by
  by_cases hk : k = c
  · subst hk
    rcases said_of_stmt (w := w) hspeaks with he | ⟨e,he⟩
    · have heq : h.history x k = (h.after x w (.stmt s) (.ok a)).history x k := by
        simp only [history,he]
      exact heq ▸ List.prefix_rfl
    · have heq : (h.after x w (.stmt s) (.ok a)).history x k = h.history x k ++ e := by
        simp only [history,he,Row.view_put,Option.getD_some]
      exact heq ▸ List.prefix_append ..
  · have heq : h.history x k = (h.after x w (.stmt s) (.ok a)).history x k := by
      simp only [history,said_of_stmt_of_ne hspeaks hk]
    exact heq ▸ List.prefix_rfl

/-- A statement that leaves the request at its stage. -/
theorem Fit.stmt_keep (hf : Fit adapt db h) (htx : db.tx x = .active) (he : s.effect adapt db x p = .ok (a,db'))
    (hlock : (db.conversations.row c).lockedFor x = false)
    (hrow : db'.conversations.row c = db.conversations.row c ∨
      ∃ v, db'.conversations.row c = (db.conversations.row c).put x v)
    (hrows : ∀ k, k ≠ c → db'.conversations.row k = db.conversations.row k)
    (hstage : Op.stageAfter (h.typing x) (h.stage x) (.stmt s) (.ok a) = h.stage x)
    (hbumped : Op.bumpedAfter (h.bumped x) (.stmt s) (.ok a) = h.bumped x ∨
      Op.bumpedAfter (h.bumped x) (.stmt s) (.ok a) = some c ∧ (h.stage x).mid = none)
    (hv : (db'.conversations.row c).dirty = some (x,v))
    (hown : (h.stage x).Allows adapt c ((h.after x w (.stmt s) (.ok a)).history x c) v) :
    Fit adapt db' (h.after x w (.stmt s) (.ok a)) := by
  suffices hw : Writes adapt x c db db' h (h.after x w (.stmt s) (.ok a)) from hw.fit hf
  refine ⟨hf.consistent he,(Stmt.frame_of_effect s he).tx,htx,hlock,hrow,hrows,said_of_stmt hspeaks,
    fun k hk => said_of_stmt_of_ne hspeaks hk,fun y hy => after_of_ne hy,⟨v,hv⟩,?_,?_,?_,?_,?_⟩
  · intro v' hv'
    obtain ⟨-,rfl⟩ := Prod.mk.inj (Option.some.inj (hv'.symm.trans hv))
    rwa [after_stage_self,hstage]
  · intro k hk H v' hold
    rwa [after_stage_self,hstage]
  · rw [after_bumped_self]
    exact hbumped.imp_right And.left
  · intro k hk
    rw [after_stage_self,hstage] at hk
    rw [after_bumped_self]
    rcases hbumped with hb | ⟨-,hmid⟩
    · rw [hb]
      exact hf.mid x k hk
    · rw [hmid] at hk
      cases hk
  · intro k text hst hwords
    rw [after_stage_self,hstage] at hst
    have hold := hf.named x k text hst hwords
    rw [firstWords_of_begins (history_begins hspeaks k) hold]
    exact hold

/-- A statement that takes the request a stage further. -/
theorem Fit.stmt_advance (hf : Fit adapt db h) (stage : Stage) (htx : db.tx x = .active)
    (he : s.effect adapt db x p = .ok (a,db')) (hb : h.bumped x = some c)
    (hrow : db'.conversations.row c = db.conversations.row c ∨
      ∃ v, db'.conversations.row c = (db.conversations.row c).put x v)
    (hrows : ∀ k, k ≠ c → db'.conversations.row k = db.conversations.row k)
    (hstage : Op.stageAfter (h.typing x) (h.stage x) (.stmt s) (.ok a) = stage)
    (hbumped : Op.bumpedAfter (h.bumped x) (.stmt s) (.ok a) = h.bumped x)
    (hmid : ∀ k, stage.mid = some k → k = c)
    (hnamed : ∀ k text, stage = .named k text → k = c ∧ (((Said.typed text).words adapt).isSome = true →
      (firstWords adapt ((h.after x w (.stmt s) (.ok a)).history x c)).isSome = true))
    (hv : (db'.conversations.row c).dirty = some (x,v))
    (hown : stage.Allows adapt c ((h.after x w (.stmt s) (.ok a)).history x c) v) :
    Fit adapt db' (h.after x w (.stmt s) (.ok a)) := by
  obtain ⟨-,-,-,-,hlock⟩ := hf.bumped_row hb
  suffices hw : Writes adapt x c db db' h (h.after x w (.stmt s) (.ok a)) from hw.fit hf
  refine ⟨hf.consistent he,(Stmt.frame_of_effect s he).tx,htx,hlock,hrow,hrows,said_of_stmt hspeaks,
    fun k hk => said_of_stmt_of_ne hspeaks hk,fun y hy => after_of_ne hy,⟨v,hv⟩,?_,?_,?_,?_,?_⟩
  · intro v' hv'
    obtain ⟨-,rfl⟩ := Prod.mk.inj (Option.some.inj (hv'.symm.trans hv))
    rwa [after_stage_self,hstage]
  · intro k hk H v' hold
    rw [after_stage_self,hstage]
    have hne : (h.stage x).mid ≠ some k := fun hm => hk (Option.some.inj ((hf.mid x k hm).symm.trans hb))
    exact (Stage.allows_iff fun hm => hk (hmid k hm)).mpr ((Stage.allows_iff hne).mp hold)
  · rw [after_bumped_self]
    exact .inl hbumped
  · intro k hk
    rw [after_stage_self,hstage] at hk
    rw [after_bumped_self,hbumped,hmid k hk]
    exact hb
  · intro k text hst hwords
    rw [after_stage_self,hstage] at hst
    obtain ⟨rfl,hsome⟩ := hnamed k text hst
    exact hsome hwords

end Writing

end Statement

section Cases

variable {text j : Json}

/-- The count of a conversation is raised. -/
theorem Fit.nextSeq {rows : List ℕ} (hf : Fit adapt db h) (htx : db.tx x = .active) (hmid : (h.stage x).mid = none)
    (he : (Stmt.nextSeqForUpdate c).effect adapt db x p = .ok (rows,db')) :
    Fit adapt db' (h.after x w (.stmt (.nextSeqForUpdate c)) (.ok rows)) := by
  obtain ⟨cs,t,ht,hrows,hdb⟩ := Database.updateConversations_ok he
  have hone : ∀ k u, db.conversations.view x k = some u → decide (u.id = c) = true → k = c := fun k u hu hk => by
    have hkey : u.id = k := (hf.conversations.written x k u hu).2
    rw [← hkey]
    exact of_decide_eq_true hk
  have hconv : db'.conversations = t := by rw [hdb]
  rcases Table.updateWhere_one hone ht with ⟨rfl,-,hrow⟩ | ⟨u,hu,-,rfl,hrow,hother⟩
  · subst hrows
    exact hf.stmt_same he (by rwa [hconv]) rfl rfl rfl
  · subst hrows
    have hlock : (db.conversations.row c).lockedFor x = false :=
      (Table.once_of_updateWhere ht).wrote.not_lockedFor hrow
    rw [← hconv] at hrow hother
    have hne : (h.stage x).mid ≠ some c := by simp [hmid]
    refine hf.stmt_keep (c := c) (fun k e hsp => by cases hsp) htx he hlock (.inr ⟨_,hrow⟩) hother rfl (.inr ⟨rfl,hmid⟩)
      (by rw [hrow,Row.put_dirty]) ?_
    exact (hf.allows hu).congr rfl rfl

/-- A pin, or a touch that puts no title. -/
theorem Fit.update_keep {s : Stmt} {a : s.Ans} (hf : Fit adapt db h) (htx : db.tx x = .active)
    (hs : s.conversation = some c) (he : s.effect adapt db x p = .ok (a,db'))
    (hspeaks : Op.speaks (h.typing x) (.stmt s) (.ok a) = none)
    (hstage : Op.stageAfter (h.typing x) (h.stage x) (.stmt s) (.ok a) = h.stage x)
    (hbumped : Op.bumpedAfter (h.bumped x) (.stmt s) (.ok a) = h.bumped x)
    (htitle : ∀ u, db.conversations.view x c = some u → (s.renew adapt p u).title = u.title)
    (hflag : ∀ u, (s.renew adapt p u).titleIsPlaceholder = u.titleIsPlaceholder) :
    Fit adapt db' (h.after x w (.stmt s) (.ok a)) := by
  rcases hf.update hs he with ⟨-,hrow⟩ | ⟨u,hu,-,hlock,hrow,hother⟩
  · exact hf.stmt_same he hrow hspeaks hstage hbumped
  · refine hf.stmt_keep (c := c) (fun k e hsp => by simp [hspeaks] at hsp) htx he hlock (.inr ⟨_,hrow⟩) hother hstage
      (.inl hbumped) (by rw [hrow,Row.put_dirty]) ?_
    have hhistory : (h.after x w (.stmt s) (.ok a)).history x c = h.history x c := by
      rw [history,said_of_silent hspeaks,history]
    rw [hhistory]
    exact (hf.allows hu).congr (htitle u hu) (hflag u)

/-- The user's text is stored. -/
theorem Fit.insert {m : NewMessage} {id : ℕ} (hf : Fit adapt db h) (htx : db.tx x = .active) (hrole : m.role = .user)
    (ht : h.typing x = some text) (hmid : (h.stage x).mid = none) (hb : h.bumped x = some m.conversationId)
    (hspare : ∀ v, db.conversations.view x m.conversationId = some v → Stage.Spares text v)
    (he : (Stmt.insertMessage m).effect adapt db x p = .ok (id,db')) :
    Fit adapt db' (h.after x w (.stmt (.insertMessage m)) (.ok id)) := by
  have hspeaks : Op.speaks (h.typing x) (.stmt (.insertMessage m)) (.ok id) = some (m.conversationId,.typed text) := by
    simp [Op.speaks,hrole,ht]
  have hconv : db'.conversations = db.conversations :=
    (Stmt.frame_of_effect _ he).conversations.wrote.eq fun k o v hv => by
      rcases hv with ⟨user,hs,-⟩ | ⟨u,-,hs,-⟩
      · cases hs
      · cases hs
  obtain ⟨v,hv,hview,-,-⟩ := hf.bumped_row hb
  refine hf.stmt_advance
    (fun k e hsp => (Prod.mk.inj (Option.some.inj (hsp.symm.trans hspeaks))).1) (.said m.conversationId text) htx he hb (.inl (by rw [hconv]))
    (fun k _ => by rw [hconv]) (by simp [Op.stageAfter,hrole,ht]) rfl (fun k hk => (Option.some.inj hk).symm)
    (fun k t hk => by cases hk) (by rw [hconv,hv]) ?_
  rw [history_of_speaks hspeaks]
  have hold := (Stage.allows_iff (by simp [hmid])).mp (hf.allows hview)
  simp only [Stage.Allows,if_true]
  exact ⟨_,rfl,hold,hspare v hview⟩

/-- A conversation is touched with the text that was stored. -/
theorem Fit.touch {title : Option Json} (hf : Fit adapt db h) (htx : db.tx x = .active)
    (hstage : h.stage x = .said c text)
    (htitle : ∀ u now, (Stmt.renew adapt now (.touch c title) u).title = u.title.or ((Said.typed text).words adapt))
    (he : (Stmt.touch c title).effect adapt db x p = .ok ((),db')) :
    Fit adapt db' (h.after x w (.stmt (.touch c title)) (.ok ())) := by
  have hb : h.bumped x = some c := hf.mid x c (by rw [hstage]; rfl)
  obtain ⟨v,hv,hview,hid,-⟩ := hf.bumped_row hb
  have hspeaks : Op.speaks (h.typing x) (.stmt (.touch c title)) (.ok ()) = none := rfl
  have hnext : Op.stageAfter (h.typing x) (h.stage x) (.stmt (.touch c title)) (.ok ()) = .touched c text := by
    rw [hstage]
    rfl
  have hhistory : (h.after x w (.stmt (.touch c title)) (.ok ())).history x c = h.history x c := by
    rw [history,said_of_silent hspeaks,history]
  rcases hf.update rfl he with ⟨hnone,-⟩ | ⟨u,hu,-,-,hrow,hother⟩
  · have hsel := hnone v hview
    simp [Stmt.selects,Stmt.conversation,hid] at hsel
  · refine hf.stmt_advance (fun k e hsp => by cases hsp) (.touched c text) htx he hb (.inr ⟨_,hrow⟩) hother
      hnext rfl (fun k hk => (Option.some.inj hk).symm) (fun k t hk => by cases hk) (by rw [hrow,Row.put_dirty]) ?_
    rw [hhistory]
    have hold := hf.allows hu
    have hflag : (Stmt.renew adapt p (.touch c title) u).titleIsPlaceholder = u.titleIsPlaceholder := by
      cases title <;> rfl
    rw [hstage] at hold
    simp only [Stage.Allows,if_true] at hold ⊢
    obtain ⟨h',hh,hn,hs⟩ := hold
    exact ⟨h',hh,hn.touch (htitle u p) hflag,fun hfalsy => hflag.trans (hs hfalsy)⟩

/-- A started interview leaves its placeholder. -/
theorem Fit.setPlaceholder {title : String} (hf : Fit adapt db h) (htx : db.tx x = .active)
    (hmid : (h.stage x).mid = none) (hb : h.bumped x = some c)
    (he : (Stmt.setPlaceholderTitle c title).effect adapt db x p = .ok ((),db')) :
    Fit adapt db' (h.after x w (.stmt (.setPlaceholderTitle c title)) (.ok ())) := by
  obtain ⟨v,hv,hview,hid,hlock⟩ := hf.bumped_row hb
  have hspeaks : Op.speaks (h.typing x) (.stmt (.setPlaceholderTitle c title)) (.ok ()) = some (c,.started title) := rfl
  have hne : (h.stage x).mid ≠ some c := by simp [hmid]
  have hold := (Stage.allows_iff hne).mp (hf.allows hview)
  have hone : ∀ k e, Op.speaks (h.typing x) (.stmt (.setPlaceholderTitle c title)) (.ok ()) = some (k,e) → k = c :=
    fun k e hsp => (Prod.mk.inj (Option.some.inj (hsp.symm.trans hspeaks))).1
  rcases hf.update rfl he with ⟨hnone,hrow⟩ | ⟨u,hu,hsel,-,hrow,hother⟩
  · have htitle : v.title.isSome = true := by
      have hsel := hnone v hview
      simpa [Stmt.selects,hid] using hsel
    refine hf.stmt_keep hone htx he hlock (.inl (hrow c)) (fun k _ => hrow k) rfl (.inl rfl)
      (by rw [hrow,hv]) ?_
    rw [history_of_speaks hspeaks]
    exact (Stage.allows_iff hne).mpr (hold.started htitle)
  · obtain rfl := Option.some.inj (hview.symm.trans hu)
    have htitle : v.title = none := by
      have hnull := (Bool.and_eq_true_iff.mp hsel).2
      simpa using hnull
    refine hf.stmt_keep hone htx he hlock (.inr ⟨_,hrow⟩) hother rfl (.inl rfl) (by rw [hrow,Row.put_dirty]) ?_
    rw [history_of_speaks hspeaks]
    exact (Stage.allows_iff hne).mpr (hold.start htitle rfl rfl)

/-- The words take the placeholder's place, where there is one. -/
theorem Fit.replacePlaceholder (hf : Fit adapt db h) (htx : db.tx x = .active)
    (hstage : h.stage x = .touched c text) (ht : titleOf text = some j)
    (he : (Stmt.replacePlaceholderTitle c j).effect adapt db x p = .ok ((),db')) :
    Fit adapt db' (h.after x w (.stmt (.replacePlaceholderTitle c j)) (.ok ())) := by
  have hb : h.bumped x = some c := hf.mid x c (by rw [hstage]; rfl)
  obtain ⟨v,hv,hview,hid,-⟩ := hf.bumped_row hb
  have hspeaks : Op.speaks (h.typing x) (.stmt (.replacePlaceholderTitle c j)) (.ok ()) = none := rfl
  have hnext : Op.stageAfter (h.typing x) (h.stage x) (.stmt (.replacePlaceholderTitle c j)) (.ok ()) = .named c text := by
    rw [hstage]
    rfl
  have hhistory : (h.after x w (.stmt (.replacePlaceholderTitle c j)) (.ok ())).history x c = h.history x c := by
    rw [history,said_of_silent hspeaks,history]
  obtain ⟨title,htitle⟩ : ∃ title, storedText adapt j = some title := by
    cases hst : storedText adapt j with
    | none => simp [Stmt.effect,hst] at he
    | some title => exact ⟨title,rfl⟩
  have hold := hf.allows hview
  rw [hstage] at hold
  simp only [Stage.Allows,if_true] at hold
  obtain ⟨h',hh,hn,hs⟩ := hold
  have hnamed : ∀ k t, Stage.named c text = .named k t → k = c ∧ (((Said.typed t).words adapt).isSome = true →
      (firstWords adapt ((h.after x w (.stmt (.replacePlaceholderTitle c j)) (.ok ())).history x c)).isSome = true) := by
    rintro k t ⟨⟩
    refine ⟨rfl,fun hwords => ?_⟩
    rw [hhistory,hh,firstWords_concat]
    simp [hwords]
  rcases hf.update rfl he with ⟨hnone,hrow⟩ | ⟨u,hu,hsel,-,hrow,hother⟩
  · have hflag : v.titleIsPlaceholder = false := by
      have hsel := hnone v hview
      simpa [Stmt.selects,hid] using hsel
    refine hf.stmt_advance (fun k e hsp => by cases hsp) (.named c text) htx he hb (.inl (hrow c))
      (fun k _ => hrow k) hnext rfl (fun k hk => by cases hk) hnamed (by rw [hrow,hv]) ?_
    rw [hhistory,hh]
    exact hn.keep hflag
  · obtain rfl := Option.some.inj (hview.symm.trans hu)
    have hflag : v.titleIsPlaceholder = true := (Bool.and_eq_true_iff.mp hsel).2
    have hwords : (Said.typed text).words adapt = some title := by
      have htruthy : text.truthy = true := by
        cases htr : text.truthy with
        | true => rfl
        | false => rw [hs htr] at hflag; cases hflag
      simp [Said.words,htruthy,ht,htitle]
    refine hf.stmt_advance (fun k e hsp => by cases hsp) (.named c text) htx he hb (.inr ⟨_,hrow⟩) hother
      hnext rfl (fun k hk => by cases hk) hnamed (by rw [hrow,Row.put_dirty]) ?_
    rw [hhistory,hh]
    exact hn.promote hflag hwords (by simp [Stmt.renew,htitle]) rfl

end Cases

variable {s : Stmt}

/-- A conversation is created without a title. -/
theorem Fit.create {user : UserContext} {row : (Stmt.createConversation user).Ans} (hf : Fit adapt db h) (htx : db.tx x = .active)
    (he : (Stmt.createConversation user).effect adapt db x p = .ok (row,db')) :
    Fit adapt db' (h.after x w (.stmt (.createConversation user)) (.ok row)) := by
  obtain ⟨t,ht,hdb⟩ := Database.onConversations_ok he
  obtain ⟨-,hid,hw⟩ := Database.insertRow_ok ht
  obtain ⟨hput,hwritable⟩ := Table.write_ok hw
  have hconv : db'.conversations = db.conversations.put x p.id (Database.newConversation p.id p.now user) := by
    rw [hdb,← hput]
  have hview : ∀ y, db.conversations.view y p.id = none := fun y => Database.view_of_not_mem hid
  have hnone : h.history x p.id = [] := hf.history_of_view_none (hview x)
  have hclean : ∀ v, (db.conversations.row p.id).dirty ≠ some (x,v) := fun v hd => by
    have hsome : db.conversations.view x p.id = some v := Row.view_of_dirty hd
    rw [hview x] at hsome
    cases hsome
  have hne : (h.stage x).mid ≠ some p.id := fun hm => by
    obtain ⟨v,hv⟩ := hf.held x p.id (hf.mid x p.id hm)
    exact hclean v hv
  have hlock : (db.conversations.row p.id).lockedFor x = false := by
    apply Row.lockedFor_eq_false.mpr
    intro y v hd
    have hsome : db.conversations.view y p.id = some v := Row.view_of_dirty hd
    rw [hview y] at hsome
    cases hsome
  refine hf.stmt_keep (c := p.id) (fun k e hsp => by cases hsp) htx he hlock
    (.inr ⟨_,by rw [hconv,Table.row_put_self]⟩) (fun k hk => by rw [hconv,Table.row_put_of_ne _ _ _ hk]) rfl (.inl rfl)
    (by rw [hconv,Table.row_put_self,Row.put_dirty]) ?_
  have hhistory : (h.after x w (.stmt (.createConversation user)) (.ok row)).history x p.id = [] := by
    have hsaid := said_of_silent (w := w) (s := .createConversation user) (a := row) (h := h) (x := x) rfl
    rw [history,hsaid,← history,hnone]
  rw [hhistory]
  exact (Stage.allows_iff hne).mpr (NamedBy.nil rfl rfl)

/-- The conversations that a statement which updates and creates none leaves alone. -/
theorem conversations_eq {a : s.Ans} (he : s.effect adapt db x p = .ok (a,db')) (hs : s.conversation = none)
    (hcreate : ∀ user, s ≠ .createConversation user) : db'.conversations = db.conversations :=
  (Stmt.frame_of_effect s he).conversations.wrote.eq fun k o v hv => by
    rcases hv with ⟨user,hc,-⟩ | ⟨u,-,hc,-⟩
    · exact hcreate user hc
    · rw [hs] at hc
      cases hc

/-- Every statement that goes through, where it is called for. An empty text must meet no placeholder. -/
theorem Fit.stmt {a : s.Ans} (hf : Fit adapt db h) (htx : db.tx x = .active) (hpre : s.Titling (h.notes db x))
    (hspare : ∀ m, s = .insertMessage m → m.role = .user → ∀ text, h.typing x = some text →
      ∀ v, db.conversations.view x m.conversationId = some v → Stage.Spares text v)
    (he : s.effect adapt db x p = .ok (a,db')) : Fit adapt db' (h.after x w (.stmt s) (.ok a)) := by
  have hother : s.conversation = none → (∀ user, s ≠ .createConversation user) →
      Op.speaks (h.typing x) (.stmt s) (.ok a) = none →
      Op.stageAfter (h.typing x) (h.stage x) (.stmt s) (.ok a) = h.stage x →
      Op.bumpedAfter (h.bumped x) (.stmt s) (.ok a) = h.bumped x →
      Fit adapt db' (h.after x w (.stmt s) (.ok a)) := fun hs hc hspeaks hstage hbumped =>
    hf.stmt_same he (fun k => by rw [conversations_eq he hs hc]) hspeaks hstage hbumped
  cases s with
  | nextSeqForUpdate c => exact hf.nextSeq htx hpre he
  | insertMessage m =>
    by_cases hrole : m.role = .user
    · cases ht : h.typing x with
      | none =>
        exact hother rfl (fun _ hs => by cases hs) (by simp [Op.speaks,ht]) (by simp [Op.stageAfter,ht]) rfl
      | some text =>
        obtain ⟨hmid,hb⟩ := hpre hrole text ht
        exact hf.insert htx hrole ht hmid hb (hspare m rfl hrole text ht) he
    · exact hother rfl (fun _ hs => by cases hs) (by simp [Op.speaks,hrole]) (by simp [Op.stageAfter,hrole]) rfl
  | touch c title =>
    cases title with
    | none =>
      rcases hpre with hmid | ⟨text,hstage,hfalsy⟩
      · have hkeep : Op.stageAfter (h.typing x) (h.stage x) (.stmt (.touch c none)) (.ok ()) = h.stage x := by
          have hmid' : (h.stage x).mid = none := hmid
          cases hst : h.stage x with
          | said c' text' => simp [hst,Stage.mid] at hmid'
          | _ => rfl
        exact hf.update_keep htx rfl he rfl hkeep rfl (fun _ _ => rfl) fun _ => rfl
      · refine hf.touch htx hstage (fun u now => ?_) he
        simp [Stmt.renew,Said.words,hfalsy]
    | some j =>
      obtain ⟨text,hstage,htruthy,htitle⟩ := hpre
      obtain ⟨t,ht⟩ : ∃ t, storedText adapt j = some t := by
        cases hst : storedText adapt j with
        | none => simp [Stmt.effect,hst] at he
        | some t => exact ⟨t,rfl⟩
      have hwords : (Said.typed text).words adapt = some t := by simp [Said.words,htruthy,htitle,ht]
      rcases hstage with hstage | hstage
      · refine hf.touch htx hstage (fun u now => ?_) he
        rw [hwords]
        simp [Stmt.renew,ht]
      · have hstage' : h.stage x = .named c text := hstage
        have hkeep : Op.stageAfter (h.typing x) (h.stage x) (.stmt (.touch c (some j))) (.ok ()) = h.stage x := by
          rw [hstage']
          rfl
        refine hf.update_keep htx rfl he rfl hkeep rfl (fun u hu => ?_) fun _ => rfl
        -- the conversation has its first words already
        have hold : NamedBy adapt (h.history x c) u := by
          have hallows := hf.allows hu
          rwa [hstage'] at hallows
        obtain ⟨t',ht'⟩ := Option.isSome_iff_exists.mp
          (hold.isSome_of_words (hf.named x c text hstage' (by rw [hwords]; rfl)))
        simp [Stmt.renew,ht']
  | setPlaceholderTitle c title => exact hf.setPlaceholder htx hpre.1 hpre.2 he
  | replacePlaceholderTitle c j =>
    obtain ⟨text,hstage,ht⟩ := hpre
    exact hf.replacePlaceholder htx hstage ht he
  | pin c agent => exact hf.update_keep htx rfl he rfl rfl rfl (fun _ _ => rfl) fun _ => rfl
  | unpin c => exact hf.update_keep htx rfl he rfl rfl rfl (fun _ _ => rfl) fun _ => rfl
  | createConversation user => exact hf.create htx he
  | _ => exact hother rfl (fun _ hs => by cases hs) rfl rfl rfl

end Titles

/-- What a call shows of its transaction: a statement goes through in one that goes on only, and
stops it where it fails. -/
def Op.Carries (tx tx' : TxStatus) : (o : Op) → Except Exn o.Ans → Prop
  | .stmt _,.ok _ => tx = .active ∧ tx' = .active
  | .stmt _,.error e => tx' ≠ .active ∧ e.dbFailure = true
  | .commit,_ => True
  | .rollback,_ => True
  | _,_ => tx' = tx

theorem DbMove.carries {adapt : Json → Option String} {x : Conn} {db db' : Database} {o : Op}
    {r : Except Exn o.Ans} (h : DbMove adapt x db o r db') : o.Carries (db.tx x) (db'.tx x) r := by
  cases h with
  | stmt htx h => exact ⟨htx,by rw [(Stmt.frame_of_effect _ h).tx,htx]⟩
  | @rejected s htx =>
    refine ⟨?_,rfl⟩
    simp only [Database.fail,Database.discard,Function.update_self]
    split <;> simp
  | refused htx => exact ⟨htx,rfl⟩
  | other hs hc hr =>
    cases o with
    | stmt s => exact absurd rfl (hs s)
    | commit => trivial
    | rollback => trivial
    | _ => rfl
  | _ => trivial

namespace ConversationTitles

/-- Statements are made where the titles call for them, and a transaction ends with its title seen to. -/
def spec : Spec Op Op.Ans Exn TitleNotes where
  pre o n := match o with
    | .stmt s => n.tx = .active → s.Titling n
    | .commit => n.tx = .active → n.stage.Closed
    | _ => True
  post o n r n' := (o.sure = true → ∃ a, r = .ok a) ∧ o.Carries n.tx n'.tx r ∧ n'.typing = n.typing ∧
    n'.stage = o.stageAfter n.typing n.stage r ∧ n'.bumped = o.bumpedAfter n.bumped r

end ConversationTitles

/-- The user's message that a call stores. -/
def Op.userMessage : Op → Option NewMessage
  | .stmt (.insertMessage m) => if m.role = .user then some m else none
  | _ => none

namespace Titles

variable {adapt : Json → Option String} {db db' : Database} {h : Titles} {x y : Conn} {w : World} {o : Op}
variable {r : Except Exn o.Ans}

/-- The text that a call stores meets no placeholder, if it is empty. -/
def SparesPlaceholder (h : Titles) (db : Database) (x : Conn) (o : Op) : Prop :=
  ∀ m ∈ o.userMessage, ∀ text ∈ h.typing x, ∀ v ∈ db.conversations.view x m.conversationId, Stage.Spares text v

instance (h : Titles) (db : Database) (x : Conn) (o : Op) : Decidable (h.SparesPlaceholder db x o) :=
  inferInstanceAs (Decidable (∀ m ∈ o.userMessage, ∀ text ∈ h.typing x,
    ∀ v ∈ db.conversations.view x m.conversationId, Stage.Spares text v))

theorem stageAfter_error {s : Stmt} {e : Exn} (typing : Option Json) (stage : Stage) :
    Op.stageAfter typing stage (.stmt s) (.error e) = .idle := by
  cases s <;> rfl

theorem bumpedAfter_error {s : Stmt} {e : Exn} (bumped : Option ConversationId) :
    Op.bumpedAfter bumped (.stmt s) (.error e) = none := by
  cases s <;> rfl

/-- Every call keeps the notes those of the database. -/
theorem Fit.call (hf : Fit adapt w.db h) (hpre : ConversationTitles.spec.pre o (h.notes w.db x))
    (hspare : h.SparesPlaceholder w.db x o) (hm : DbMove adapt x w.db o r db') : Fit adapt db' (h.after x w o r) := by
  cases hm with
  | @stmt s p a db' htx he =>
    refine hf.stmt htx (hpre htx) ?_ he
    rintro m rfl hrole text ht v hv
    exact hspare m (by simp [Op.userMessage,hrole]) text ht v hv
  | @rejected s htx =>
    have hafter : h.after x w (.stmt s) (.error .rejected) = h.undo x := by
      simp only [after,saidAfter,stageAfter_error,bumpedAfter_error,htx,if_true]
      rfl
    rw [hafter]
    exact hf.discard _
  | @refused s htx =>
    obtain ⟨hidle,hnone⟩ := hf.stopped x htx
    have hafter : h.after x w (.stmt s) (.error .refused) = h := by
      refine after_eq ?_ ?_ ?_
      · simp only [saidAfter,htx,if_false]
      · rw [stageAfter_error,hidle]
      · rw [bumpedAfter_error,hnone]
    rw [hafter]
    exact hf
  | commit htx =>
    have hafter : h.after x w .commit (.ok ()) =
        h.keep x (Op.stageAfter (h.typing x) (h.stage x) .commit (.ok ())) := by
      simp only [after,saidAfter,htx,if_true]
      rfl
    rw [hafter]
    refine hf.commit (fun k v => Stage.named_of_closed (hpre htx)) ?_
    cases hst : h.stage x with
    | named c text => exact .inr ⟨c,text,rfl,rfl⟩
    | _ => exact .inl rfl
  | commitRejected htx =>
    have hafter : h.after x w .commit (.error .rejected) = h.undo x := by
      simp only [after,saidAfter,htx,if_true]
      rfl
    rw [hafter]
    exact hf.discard _
  | commitAborted htx =>
    have hne : w.db.tx x ≠ .active := by simp [htx]
    obtain ⟨hidle,-⟩ := hf.stopped x hne
    have hafter : h.after x w .commit (.ok ()) = h.undo x := by
      simp only [after,saidAfter,hne,if_false,hidle]
      rfl
    rw [hafter]
    exact hf.discard _
  | commitRefused htx =>
    have hne : w.db.tx x ≠ .active := by simp [htx]
    obtain ⟨hidle,hnone⟩ := hf.stopped x hne
    have hafter : h.after x w .commit (.error .refused) = h := by
      refine after_eq ?_ hidle.symm hnone.symm
      simp only [saidAfter,hne,if_false]
    rw [hafter]
    exact hf
  | rollback => exact hf.discard _
  | other hs hc hr =>
    have hafter : h.after x w o r = h := by
      cases o with
      | stmt s => exact absurd rfl (hs s)
      | commit => exact absurd rfl hc
      | rollback => exact absurd rfl hr
      | _ => exact after_eq rfl rfl rfl
    rw [hafter]
    exact hf

/-- A request begins at its first stage. -/
theorem Fit.start {req : Req} (hf : Fit adapt db h) (hmid : (h.stage x).mid = none) : Fit adapt db (h.start x req) where
  conversations := hf.conversations
  mirrored := hf.mirrored
  settled := hf.settled
  grown := hf.grown
  own y k v hd := by
    have hown := hf.own y k v hd
    by_cases hy : y = x
    · subst hy
      change (Function.update h.stage y .idle y).Allows adapt k (h.history y k) v
      rw [Function.update_self]
      exact (Stage.allows_iff (by simp [hmid])).mp hown
    · change (Function.update h.stage x .idle y).Allows adapt k (h.history y k) v
      rwa [Function.update_of_ne hy]
  held := hf.held
  mid y c hm := by
    by_cases hy : y = x
    · subst hy
      simp [Titles.start,Stage.mid] at hm
    · exact hf.mid y c (by simpa [Titles.start,Function.update_of_ne hy] using hm)
  named y c text hs hwords := by
    by_cases hy : y = x
    · subst hy
      simp [Titles.start] at hs
    · exact hf.named y c text (by simpa [Titles.start,Function.update_of_ne hy] using hs) hwords
  stopped y hy := by
    obtain ⟨hidle,hnone⟩ := hf.stopped y hy
    refine ⟨?_,hnone⟩
    by_cases hyx : y = x
    · subst hyx
      exact Function.update_self ..
    · exact (Function.update_of_ne hyx ..).trans hidle

theorem say_committed (e : Option (ConversationId × Said)) (k : ConversationId) :
    (h.say x e k).committed = (h.said k).committed := by
  rcases e with _ | ⟨c,e⟩
  · rfl
  · by_cases hk : k = c
    · subst hk
      simp only [say,Function.update_self,Row.put_committed]
    · simp only [say,Function.update_of_ne hk]

/-- What was said is only ever added to. -/
theorem Fit.committed_begins (hf : Fit adapt db h) (k : ConversationId) :
    h.committed k <+: (h.after x w o r).committed k := by
  have hrollback : ((h.said k).rollback x).committed = (h.said k).committed := Row.rollback_committed
  have hcommit : h.committed k <+: (((h.said k).commit x).committed).getD [] := by
    rw [Row.commit_committed]
    exact hf.begins x k
  have hundone : h.committed k <+: (((h.said k).rollback x).committed).getD [] := by
    rw [hrollback]
    exact List.prefix_rfl
  change h.committed k <+: ((h.saidAfter x w o r k).committed).getD []
  unfold saidAfter
  split
  · rw [say_committed]
    exact List.prefix_rfl
  · split
    · exact hundone
    · exact List.prefix_rfl
  · split
    · exact hcommit
    · exact hundone
  · split
    · exact hundone
    · exact List.prefix_rfl
  · exact hundone
  · exact List.prefix_rfl

end Titles

end Saarathi
