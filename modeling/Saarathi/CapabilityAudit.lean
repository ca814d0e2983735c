import Saarathi.CapabilityChanges
import Saarathi.Histories
import Saarathi.OptionIds

/-!
# The audit log of the cards

The rows that the routes add to `audit_logs` say all that the routes do: played
in their order from the tables at the start, they give the tables at the end.
-/

namespace Saarathi

open AdminConfig Histories

/-- The tables as the audit log has them: the JSON of every card under its id, and the members. -/
@[ext]
structure AuditView where
  cards : List (ℕ × Json)
  members : List CapabilityAgent

def CapabilityStore.auditView (st : CapabilityStore) : AuditView where
  cards := st.rows.map fun r => (r.id,r.serialize)
  members := st.catalogue.members

theorem intToString_injective {i j : ℤ} (h : toString i = toString j) : i = j := by
  have hminus : ∀ m n : ℕ, Nat.repr m ≠ "-" ++ Nat.repr n := by
    intro m n heq
    have hmem : '-' ∈ Nat.toDigits 10 m := by
      rw [← Nat.toList_repr,heq,String.toList_append]
      simp
    exact absurd (Nat.isDigit_of_mem_toDigits (by decide) (by decide) hmem) (by decide)
  cases i with
  | ofNat m =>
    cases j with
    | ofNat n => rw [FrameParser.toString_injective (i := m) (j := n) h]
    | negSucc n => exact absurd h (hminus m (n + 1))
  | negSucc m =>
    cases j with
    | ofNat n => exact absurd h.symm (hminus n (m + 1))
    | negSucc n =>
      have hnat : Nat.repr (m + 1) = Nat.repr (n + 1) := by
        have hlist : "-".toList ++ (Nat.repr (m + 1)).toList = "-".toList ++ (Nat.repr (n + 1)).toList := by
          rw [← String.toList_append,← String.toList_append]
          exact congrArg String.toList h
        exact String.toList_injective (List.append_cancel_left hlist)
      rw [Nat.succ.inj (FrameParser.toString_injective (i := m + 1) (j := n + 1) hnat)]

theorem CapabilityStatus.value_injective {s s' : CapabilityStatus} (h : s.value = s'.value) : s = s' := by
  cases s <;> cases s' <;> first | rfl | exact absurd h (by decide)

theorem textOrNull_injective {s s' : Option String} (h : textOrNull s = textOrNull s') : s = s' := by
  cases s <;> cases s' <;> simp_all [textOrNull]

/-- The JSON of a card has all of it. -/
theorem CapabilityRow.serialize_injective {r r' : CapabilityRow} (h : r.serialize = r'.serialize) : r = r' := by
  obtain ⟨⟨id,key,scope,name,status,order,metadata⟩,description,icon,badge⟩ := r
  obtain ⟨⟨id',key',scope',name',status',order',metadata'⟩,description',icon',badge'⟩ := r'
  simp only [serialize,Json.obj.injEq,List.cons.injEq,Prod.mk.injEq,true_and,and_true,Json.str.injEq,Json.num.injEq] at h
  obtain ⟨hid,htenant,horganization,rfl,rfl,hdescription,hicon,hbadge,hstatus,horder,rfl⟩ := h
  obtain rfl := FrameParser.toString_injective hid
  obtain rfl := Prod.ext htenant horganization
  obtain rfl := textOrNull_injective hdescription
  obtain rfl := textOrNull_injective hicon
  obtain rfl := textOrNull_injective hbadge
  obtain rfl := CapabilityStatus.value_injective hstatus
  obtain rfl := intToString_injective horder
  rfl

/-- Tables that the audit log has alike are the same. -/
theorem CapabilityStore.auditView_injective {st st' : CapabilityStore} (h : st.auditView = st'.auditView) :
    st.rows = st'.rows ∧ st.catalogue.members = st'.catalogue.members := by
  obtain ⟨hcards,hmembers⟩ := AuditView.mk.inj h
  refine ⟨?_,hmembers⟩
  have hinj : Function.Injective fun r : CapabilityRow => (r.id,r.serialize) := fun r r' heq =>
    CapabilityRow.serialize_injective (Prod.mk.inj heq).2
  exact hinj.list_map hcards

/-- The members that a list was written as. -/
def MemberColumns.memberRows (dr : MemberColumns) (c : Catalogue) (id : ℕ) (sent : List Json) :
    Option (List CapabilityAgent) :=
  (listed dr c sent).mapM fun e => dr.memberRow id e.1.id e.2.2 e.2.1

/-- The list of a `capability_agent_set`. -/
def sentAgents : Option Json → Option (List Json)
  | some (.obj [("agents",.arr sent)]) => some sent
  | _ => none

namespace AuditView

variable (dr : MemberColumns) (c : Catalogue)

open Classical in
/-- A row of the audit log, played on the tables that it fits: what it has as `before` is there. -/
noncomputable def play (t : AuditView) (e : AuditRow) : Option AuditView :=
  match e.action with
  | .capabilityCreate =>
    if e.entityId ∈ t.cards.map (·.1) then none
    else e.after.map fun new => { t with cards := t.cards ++ [(e.entityId,new)] }
  | .capabilityUpdate => e.before.bind fun old =>
    if (e.entityId,old) ∈ t.cards then
      e.after.map fun new => { t with cards := t.cards.map fun p => if p.1 = e.entityId then (e.entityId,new) else p }
    else none
  | .capabilityDelete => e.before.bind fun old =>
    if (e.entityId,old) ∈ t.cards then
      some ⟨t.cards.filter (·.1 ≠ e.entityId),t.members.filter (·.capabilityId ≠ e.entityId)⟩
    else none
  | .capabilityAgentSet => (sentAgents e.after).bind fun sent => (dr.memberRows c e.entityId sent).bind fun rows =>
    if e.entityId ∈ t.cards.map (·.1) then
      some { t with members := t.members.filter (·.capabilityId ≠ e.entityId) ++ rows }
    else none

end AuditView

/-- The routes with their audit log. -/
noncomputable def auditJournal (dr : MemberColumns) (c : Catalogue) :
    Journal CapabilityStore (String × CapabilityRequest) AuditRow AuditView where
  step := administer dr
  view := CapabilityStore.auditView
  play := AuditView.play dr c

section Steps

variable {dr : MemberColumns} {c : Catalogue} {actor : String} {st : CapabilityStore}

theorem auditView_ids (st : CapabilityStore) : st.auditView.cards.map (·.1) = st.rows.map (·.id) := by
  rw [CapabilityStore.auditView,List.map_map]
  rfl

theorem mem_cards {row : CapabilityRow} (h : row ∈ st.rows) : (row.id,row.serialize) ∈ st.auditView.cards :=
  List.mem_map_of_mem (f := fun r => (r.id,r.serialize)) h

theorem play_inserted {row : CapabilityRow} :
    (auditJournal dr c).replay st.auditView ((CapabilityChange.inserted row).apply actor st).2 =
      some ((CapabilityChange.inserted row).apply actor st).1.auditView := by
  cases h : st.insert row with
  | none =>
    simp only [CapabilityChange.apply,h]
    rfl
  | some st' =>
    obtain ⟨hid,hrows,hmembers,-⟩ := CapabilityStore.insert_eq h
    rw [← auditView_ids] at hid
    simp only [CapabilityChange.apply,h,Option.isSome_some,if_true,Option.getD_some,Journal.replay_singleton]
    refine (if_neg hid).trans ?_
    simp only [Option.map_some,CapabilityStore.auditView,hrows,hmembers,List.map_append,List.map_cons,List.map_nil]

theorem play_updated {before : CapabilityRow} {p : CapabilityPatch} (hmem : before ∈ st.rows) :
    (auditJournal dr c).replay st.auditView ((CapabilityChange.updated before p).apply actor st).2 =
      some ((CapabilityChange.updated before p).apply actor st).1.auditView := by
  have hcards : (st.auditView.cards.map fun q => if q.1 = before.id then (before.id,(before.patch p).serialize) else q) =
      (st.update before.id p).auditView.cards := by
    refine (List.map_map ..).trans (Eq.trans ?_ (List.map_map ..).symm)
    refine List.map_congr_left fun r hr => ?_
    by_cases hid : r.id = before.id
    · obtain rfl : r = before := List.inj_on_of_nodup_map st.nodup_id hr hmem hid
      simp only [Function.comp,if_true]
      rfl
    · simp only [Function.comp,if_neg hid]
  simp only [CapabilityChange.apply,Journal.replay_singleton]
  refine (if_pos (mem_cards hmem)).trans ?_
  exact congrArg some (AuditView.ext hcards rfl)

theorem play_deleted {before : CapabilityRow} (hmem : before ∈ st.rows) :
    (auditJournal dr c).replay st.auditView ((CapabilityChange.deleted before).apply actor st).2 =
      some ((CapabilityChange.deleted before).apply actor st).1.auditView := by
  have hcards : st.auditView.cards.filter (·.1 ≠ before.id) = (st.delete before.id).auditView.cards := List.filter_map
  simp only [CapabilityChange.apply,Journal.replay_singleton]
  refine (if_pos (mem_cards hmem)).trans ?_
  exact congrArg some (AuditView.ext hcards rfl)

theorem play_replaced {cap : CapabilityRow} {sent : List Json} {members : List CapabilityAgent} (hmem : cap ∈ st.rows)
    (hagents : st.catalogue.agents = c.agents) (hrows : AreRows dr st.catalogue cap.toCapability sent members)
    (hdistinct : ((listed dr st.catalogue sent).map (·.1.id)).Nodup) :
    (auditJournal dr c).replay st.auditView ((CapabilityChange.replaced cap.id sent members).apply actor st).2 =
      some ((CapabilityChange.replaced cap.id sent members).apply actor st).1.auditView := by
  have hmembers := (nodup_iff hrows).mpr hdistinct
  have hread : dr.memberRows c cap.id sent = some members := by
    rw [AreRows,listed_agents hagents] at hrows
    exact mapM_eq_some_iff.mpr hrows
  have hid : cap.id ∈ st.auditView.cards.map (·.1) := List.mem_map_of_mem (mem_cards hmem)
  have hplay : AuditView.play dr c st.auditView
      { action := .capabilityAgentSet, entityId := cap.id, actor := actor,
        after := some (.obj [("agents",.arr sent)]),
        note := some s!"membership replaced ({sent.length} agent(s))" } =
      (dr.memberRows c cap.id sent).bind fun rows => if cap.id ∈ st.auditView.cards.map (·.1) then
        some { st.auditView with members := st.auditView.members.filter (·.capabilityId ≠ cap.id) ++ rows } else none := rfl
  simp only [CapabilityChange.apply,Journal.replay_singleton]
  refine hplay.trans ?_
  rw [hread,Option.bind_some,if_pos hid]
  simp only [CapabilityStore.replaceMembers,dif_pos hmembers]
  rfl

theorem auditJournal_faithful (dr : MemberColumns) (c : Catalogue) :
    (auditJournal dr c).Faithful fun st => st.catalogue.agents = c.agents := by
  rintro st ⟨actor,q⟩ hagents
  obtain ⟨e,hfits,hcomes⟩ := administer_fits dr st (actor,q)
  have hstep : (auditJournal dr c).step st (actor,q) = e.apply actor st := hcomes
  rw [hstep]
  refine ⟨(e.apply_same actor st).agents.trans hagents,?_⟩
  cases hfits with
  | kept => rfl
  | inserted => exact play_inserted
  | updated hfind => exact play_updated (CapabilityStore.find_spec hfind).1
  | deleted hfind => exact play_deleted (CapabilityStore.find_spec hfind).1
  | replaced hfind hrows hdistinct => exact play_replaced (CapabilityStore.find_spec hfind).1 hagents hrows hdistinct

end Steps

/-- After any requests of any administrators, handled one after another, the rows that they have added to the audit
log give the cards and their members, when they are played from the ones at the start. -/
theorem audit_log_replays (dr : MemberColumns) (st : CapabilityStore) (as : List (String × CapabilityRequest)) :
    (auditJournal dr st.catalogue).replay st.auditView ((auditJournal dr st.catalogue).run st as).2 =
      some ((auditJournal dr st.catalogue).run st as).1.auditView :=
  (auditJournal_faithful dr st.catalogue).replay rfl as

end Saarathi
