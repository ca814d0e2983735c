import Saarathi.Resync

/-!
# Which files a synchronisation accepts

The checks before the first write compare the files with each other. Names and the
default agent are unique among all the rows, statement by statement, so what earlier
files left decides as well.
-/

namespace Saarathi

open Machine

namespace Catalogue

variable {c c' : Catalogue} {key : String} {agent : AgentId}

theorem agents_nodup (c : Catalogue) : c.agents.Nodup := c.agent_id.of_map

/-- The one agent that is the default. -/
theorem filter_isDefault {a : Agent} (ha : a ∈ c.agents) (hd : a.isDefault = true) :
    c.agents.filter (·.isDefault) = [a] := by
  have hlength := c.single_default
  unfold Agent.SingleDefault at hlength
  have hma : a ∈ c.agents.filter (·.isDefault) := by simp [ha,hd]
  revert hlength hma
  generalize c.agents.filter (·.isDefault) = l
  intro hlength hma
  rcases l with - | ⟨d,- | ⟨e,l⟩⟩
  · cases hma
  · rw [List.mem_singleton.mp hma]
  · simp at hlength

/-- An update that renames one agent goes through unless another has the name. -/
theorem updateAgent_iff {a : Agent} {f : Agent → Agent} {name : String} (ha : a ∈ c.agents)
    (hid : ∀ b, (f b).id = b.id) (hkey : ∀ b, (f b).key = b.key) (hname : ∀ b, (f b).name = name)
    (hdefault : ∀ b, (f b).isDefault = b.isDefault) :
    (∃ c', c.updateAgent a.id f = .ok c') ↔ ∀ b ∈ c.agents, b.key ≠ a.key → b.name ≠ name := by
  have hself : ∀ b ∈ c.agents, b.id = a.id → b = a := fun b hb h =>
    List.inj_on_of_nodup_map c.agent_id hb ha h
  unfold updateAgent
  rw [setAgents_map_iff,List.map_map,List.nodup_map_iff_inj_on c.agents_nodup]
  · constructor
    · intro hinj b hb hkey' hname'
      have hne : b.id ≠ a.id := fun h => hkey' (congrArg _ (hself b hb h))
      exact hne (congrArg _ (hinj b hb a ha (by simp [hne,hname,hname'])))
    · intro hother b hb b' hb' heq
      have hfree : ∀ b ∈ c.agents, b.id ≠ a.id → b.name ≠ name := by
        intro b hb hne
        apply hother b hb
        intro h
        exact hne (congrArg _ (List.inj_on_of_nodup_map c.agent_key hb ha h))
      by_cases h : b.id = a.id
      · by_cases h' : b'.id = a.id
        · rw [hself b hb h,hself b' hb' h']
        · simp only [Function.comp_apply,h,h',if_true,if_false,hname] at heq
          exact absurd heq.symm (hfree b' hb' h')
      · by_cases h' : b'.id = a.id
        · simp only [Function.comp_apply,h,h',if_true,if_false,hname] at heq
          exact absurd heq (hfree b hb h)
        · simp only [Function.comp_apply,h,h',if_false] at heq
          exact List.inj_on_of_nodup_map c.agent_name hb hb' heq
  · intro b
    split <;> simp [hid]
  · intro b
    split <;> simp [hkey]
  · intro b
    split <;> simp [hdefault]

/-- A change of each agent that leaves its name too goes through. -/
theorem setAgents_map_ok {f : Agent → Agent} (hid : ∀ a, (f a).id = a.id) (hkey : ∀ a, (f a).key = a.key)
    (hname : ∀ a, (f a).name = a.name) (hdefault : ∀ a, (f a).isDefault = a.isDefault) :
    ∃ c', c.setAgents (c.agents.map f) = .ok c' := by
  have hnames : (c.agents.map f).map (·.name) = c.agents.map (·.name) := by simp [hname]
  rw [setAgents_map_iff hid hkey hdefault,hnames]
  exact c.agent_name

theorem nodup_map_concat {β : Type} {g : Agent → β} {as : List Agent} {a : Agent} (h : (as.map g).Nodup) :
    ((as ++ [a]).map g).Nodup ↔ ∀ b ∈ as, g b ≠ g a := by
  rw [List.map_append,List.map_singleton,List.nodup_append]
  simp [h]

/-- An insertion of an agent goes through unless another has the name, or is the default as well. -/
theorem setAgents_append_iff {a : Agent} (hid : a.id = c.freshAgent) (hkey : c.agentOf a.key = none) :
    (∃ c', c.setAgents (c.agents ++ [a]) = .ok c') ↔ (∀ b ∈ c.agents, b.name ≠ a.name) ∧
      (a.isDefault = true → ∀ b ∈ c.agents, b.isDefault = false) := by
  have hids : ∀ b ∈ c.agents, b.id ≠ a.id := by
    intro b hb
    rw [hid]
    exact ne_freshAgent (List.mem_append_left _ (List.mem_map_of_mem hb))
  have hkeys : ∀ b ∈ c.agents, b.key ≠ a.key := by
    intro b hb
    simpa using List.find?_eq_none.mp hkey b hb
  have hsingle : Agent.SingleDefault (c.agents ++ [a]) ↔
      (a.isDefault = true → ∀ b ∈ c.agents, b.isDefault = false) := by
    unfold Agent.SingleDefault
    rw [List.filter_append,List.length_append]
    by_cases hd : a.isDefault = true
    · have hnil : (c.agents.filter (·.isDefault)).length = 0 ↔ ∀ b ∈ c.agents, b.isDefault = false := by
        rw [List.length_eq_zero_iff,List.filter_eq_nil_iff]
        simp
      rw [← hnil]
      simp [hd]
    · have hle := c.single_default
      unfold Agent.SingleDefault at hle
      simpa [hd] using hle
  rw [setAgents_iff,hsingle,nodup_map_concat c.agent_id,nodup_map_concat c.agent_key,
    nodup_map_concat c.agent_name]
  exact ⟨fun h => h.2.2,fun h => ⟨hids,hkeys,h⟩⟩

end Catalogue

theorem exists_bind_eq_ok {ε α β : Type} {x : Except ε α} {f : α → Except ε β} :
    (∃ b, x >>= f = .ok b) ↔ ∃ a, x = .ok a ∧ ∃ b, f a = .ok b := by
  simp only [bind_eq_ok]
  constructor
  · rintro ⟨b,a,ha,hb⟩
    exact ⟨a,ha,b,hb⟩
  · rintro ⟨a,ha,b,hb⟩
    exact ⟨b,a,ha,hb⟩

theorem Storing.iff {α : Type} {p : Bool} {x : Except WriteError α} (h : Storing p x) :
    (∃ a, x = .ok a) ↔ p = true := by
  cases p with
  | true => exact iff_of_true h rfl
  | false =>
    obtain rfl : x = .error .unstorable := h
    simp

namespace ConfigSyncService

open Catalogue

variable {mitraEnabled : Bool} {mode : SyncMode} {fetch : Fetch} {now : ℕ} {c : Catalogue}
  {spec : SpecFile} {w : Written} {a : Agent}

/-- The columns of `agent_configs` take what the file stores. -/
def storable (mode : SyncMode) (fetch : Fetch) (c : Catalogue) (spec : SpecFile) : Bool :=
  match c.agentOf spec.key with
  | none => spec.jsonb
  | some a => (branch mode fetch (c.configsOf a.id) spec).storable spec (c.configsOf a.id)

theorem createAgent_ok_iff (hc : c.Lineage) (hnone : c.agentOf spec.key = none)
    (hfits : spec.fitsColumns = true) : (∃ w, createAgent mitraEnabled now c spec = .ok w) ↔
      spec.jsonb = true ∧ (∀ b ∈ c.agents, b.name ≠ spec.name) ∧
        (spec.isDefault = true → ∀ b ∈ c.agents, b.isDefault = false) := by
  have hagents := setAgents_append_iff (c := c) (a := agentRow mitraEnabled now c.freshAgent spec) rfl hnone
  rw [createAgent_eq hfits,exists_bind_eq_ok]
  constructor
  · rintro ⟨c₁,h₁,h₂⟩
    have hfirst : Storing spec.jsonb (firstVersion now c spec c₁) :=
      firstVersion_storing hc.admissible (setAgents_eq h₁).1
    exact ⟨hfirst.iff.mp h₂,hagents.mp ⟨c₁,h₁⟩⟩
  · rintro ⟨hjsonb,hfree⟩
    obtain ⟨c₁,h₁⟩ := hagents.mpr hfree
    have hfirst : Storing spec.jsonb (firstVersion now c spec c₁) :=
      firstVersion_storing hc.admissible (setAgents_eq h₁).1
    exact ⟨c₁,h₁,hfirst.iff.mpr hjsonb⟩

theorem updateRow_ok_iff (ha : a ∈ c.agents) : (∃ c', updateRow mitraEnabled now spec c a.id = .ok c') ↔
    ∀ b ∈ c.agents, b.key ≠ a.key → b.name ≠ spec.name := by
  unfold updateRow
  rw [exists_bind_eq_ok]
  have hname : ∀ b, (identityOf now spec b).name = spec.name := fun _ => rfl
  have hrename := updateAgent_iff (f := identityOf now spec) ha (fun _ => rfl) (fun _ => rfl) hname fun _ => rfl
  rw [← hrename]
  constructor
  · rintro ⟨c₁,h₁,-⟩
    exact ⟨c₁,h₁⟩
  · rintro ⟨c₁,h₁⟩
    refine ⟨c₁,h₁,?_⟩
    unfold syncStatus
    split
    · apply setAgents_map_ok <;> (intro b; split <;> rfl)
    · exact ⟨c₁,rfl⟩

/-- What one file needs, of the rows that are there. -/
theorem syncSpec_ok_iff (hc : c.Lineage) : (∃ w, syncSpec mitraEnabled mode fetch now c spec = .ok w) ↔
    spec.fitsColumns = true ∧ storable mode fetch c spec = true ∧
      (∀ b ∈ c.agents, b.key ≠ spec.key → b.name ≠ spec.name) ∧
      (spec.isDefault = true → c.agentOf spec.key = none → ∀ b ∈ c.agents, b.isDefault = false) := by
  by_cases hfits : spec.fitsColumns = true
  · cases hfind : c.agentOf spec.key with
    | none =>
      have hcreate : syncSpec mitraEnabled mode fetch now c spec = createAgent mitraEnabled now c spec := by
        unfold syncSpec
        rw [show c.agents.find? _ = none from hfind]
      have hkeys : ∀ b ∈ c.agents, b.key ≠ spec.key := by
        intro b hb
        simpa using List.find?_eq_none.mp hfind b hb
      rw [hcreate,createAgent_ok_iff hc hfind hfits]
      simp only [storable,hfind,hfits,true_and,true_implies]
      constructor
      · rintro ⟨hjsonb,hname,hdefault⟩
        exact ⟨hjsonb,fun b hb _ => hname b hb,hdefault⟩
      · rintro ⟨hjsonb,hname,hdefault⟩
        exact ⟨hjsonb,fun b hb => hname b hb (hkeys b hb),hdefault⟩
    | some a =>
      have hkey : a.key = spec.key := agentOf_key hfind
      rw [syncSpec_some hfind hfits,exists_bind_eq_ok]
      have hrow : (∃ c', updateRow mitraEnabled now spec c a.id = .ok c') ↔
          ∀ b ∈ c.agents, b.key ≠ a.key → b.name ≠ spec.name := updateRow_ok_iff (agentOf_mem hfind)
      rw [hkey] at hrow
      have hconfigs : ∀ c₁, updateRow mitraEnabled now spec c a.id = .ok c₁ →
          ((∃ w, syncConfigs mode fetch now c₁ a.id spec = .ok w) ↔ storable mode fetch c spec = true) := by
        intro c₁ h₁
        have hrows : ∀ b, c₁.configsOf b = c.configsOf b := configsOf_of_configs (updateRow_eq h₁).1
        have hadm : c₁.Admissible := by
          intro b
          rw [hrows]
          exact hc.admissible b
        have hsync : Storing _ (syncConfigs mode fetch now c₁ a.id spec) := syncConfigs_of_admissible hadm
        rw [hsync.iff,hrows,storable,hfind]
      simp only [hfits,true_and]
      constructor
      · rintro ⟨c₁,h₁,h₂⟩
        exact ⟨(hconfigs c₁ h₁).mp h₂,hrow.mp ⟨c₁,h₁⟩,fun _ h => (by cases h)⟩
      · rintro ⟨hstorable,hname,-⟩
        obtain ⟨c₁,h₁⟩ := hrow.mpr hname
        exact ⟨c₁,h₁,(hconfigs c₁ h₁).mpr hstorable⟩
  · constructor
    · rintro ⟨w,h⟩
      exact absurd (syncSpec_effect h).1 hfits
    · rintro ⟨h,-⟩
      exact absurd h hfits

/-- Two files that the checks let pass together. -/
structure Apart (s s' : SpecFile) : Prop where
  key : s.key ≠ s'.key
  name : s.name ≠ s'.name
  default : s.isDefault = true → s'.isDefault = false

theorem apart_of_preflight {specs : List SpecFile} (h : preflight mitraEnabled specs = true) :
    specs.Pairwise Apart := by
  simp only [preflight,Bool.and_eq_true,decide_eq_true_eq] at h
  obtain ⟨⟨⟨hkeys,hnames⟩,hdefault⟩,-⟩ := h
  rw [List.Nodup,List.pairwise_map] at hkeys hnames
  have hsingle : specs.Pairwise fun s s' => s.isDefault = true → s'.isDefault = false := by
    clear hkeys hnames
    induction specs with
    | nil => exact .nil
    | cons s specs ih =>
      rw [List.pairwise_cons]
      constructor
      · intro s' hs' hd
        have hnil : ∀ s' ∈ specs, s'.isDefault = false := by simpa [hd] using hdefault
        exact hnil s' hs'
      · apply ih
        refine le_trans ?_ hdefault
        exact (List.Sublist.filter _ (List.sublist_cons_self s specs)).length_le
  exact (hkeys.and (hnames.and hsingle)).imp fun h => ⟨h.1,h.2.1,h.2.2⟩

/-- What one file needs of the rows before the synchronisation, after the files `done`. -/
structure FileFits (mode : SyncMode) (fetch : Fetch) (c : Catalogue) (done : List SpecFile)
    (spec : SpecFile) : Prop where
  columns : spec.fitsColumns = true
  storable : storable mode fetch c spec = true
  name : ∀ b ∈ c.agents, b.key ≠ spec.key → b.key ∉ done.map (·.key) → b.name ≠ spec.name
  default : spec.isDefault = true → c.agentOf spec.key = none → ∀ b ∈ c.agents, b.isDefault = false

/-- What the files need, one after the other. -/
def FilesFit (mode : SyncMode) (fetch : Fetch) (c : Catalogue) : List SpecFile → List SpecFile → Prop
  | _,[] => True
  | done,spec :: specs => FileFits mode fetch c done spec ∧ FilesFit mode fetch c (done ++ [spec]) specs

/-- The tables after the files `done`. -/
structure Begun (c : Catalogue) (done : List SpecFile) (c' : Catalogue) : Prop where
  lineage : c'.Lineage
  others : ∀ key, key ∉ done.map (·.key) → SameAt key c c'
  done : ∀ s ∈ done, ∃ a, c'.agentOf s.key = some a ∧ a.name = s.name ∧
    a.isDefault = ((c.agentOf s.key).map (·.isDefault)).getD s.isDefault

theorem Begun.nil (hc : c.Lineage) : Begun c [] c := ⟨hc,fun key _ => .refl key c,by simp⟩

variable {c' : Catalogue} {done : List SpecFile}

theorem Begun.next (h : Begun c done c') (hkey : spec.key ∉ done.map (·.key))
    (hs : syncSpec mitraEnabled mode fetch now c' spec = .ok w) : Begun c (done ++ [spec]) w.catalogue := by
  obtain ⟨-,hown,hothers⟩ := syncSpec_effect hs
  have hlineage : Outcome _ _ (syncSpec mitraEnabled mode fetch now c' spec) := syncSpec_outcome h.lineage
  rw [hs] at hlineage
  refine ⟨hlineage,fun key hk => ?_,fun s hmem => ?_⟩
  · rw [List.map_append,List.mem_append,not_or] at hk
    exact (h.others key hk.1).trans (hothers key (by simpa using hk.2))
  · rcases List.mem_append.mp hmem with hmem | hmem
    · have hne : s.key ≠ spec.key := fun e => hkey (e ▸ List.mem_map_of_mem hmem)
      rw [(hothers s.key hne).agent]
      exact h.done s hmem
    · obtain rfl := List.mem_singleton.mp hmem
      have hbefore := (h.others s.key hkey).agent
      cases hown with
      | created hnone ha hrows hreport =>
        refine ⟨_,ha,rfl,?_⟩
        rw [← hbefore,hnone]
        rfl
      | synced a hsome ha hrows hreport =>
        refine ⟨_,ha,(syncedAgent_follows a).name,?_⟩
        rw [← hbefore,hsome]
        unfold syncedAgent
        split <;> rfl

theorem Begun.storable (h : Begun c done c') (hkey : spec.key ∉ done.map (·.key)) :
    storable mode fetch c' spec = storable mode fetch c spec := by
  have hsame := h.others spec.key hkey
  unfold ConfigSyncService.storable
  rw [hsame.agent]
  cases ha : c.agentOf spec.key with
  | none => rfl
  | some a => simp only [hsame.rows a ha]

/-- The agents of the files that are done have the names of their files. -/
theorem Begun.names (h : Begun c done c') (hname : spec.name ∉ done.map (·.name)) :
    (∀ b ∈ c'.agents, b.key ≠ spec.key → b.name ≠ spec.name) ↔
      ∀ b ∈ c.agents, b.key ≠ spec.key → b.key ∉ done.map (·.key) → b.name ≠ spec.name := by
  constructor
  · intro hfree b hb hne hdone
    have hb' : c'.agentOf b.key = some b := (h.others b.key hdone).agent.trans (agentOf_of_mem hb)
    exact hfree b (agentOf_mem hb') hne
  · intro hfree b hb hne
    by_cases hdone : b.key ∈ done.map (·.key)
    · obtain ⟨s,hs,hkey⟩ := List.mem_map.mp hdone
      obtain ⟨a,ha,hname',-⟩ := h.done s hs
      obtain rfl : b = a := by
        rw [hkey,agentOf_of_mem hb] at ha
        exact Option.some.inj ha
      intro he
      exact hname (List.mem_map.mpr ⟨s,hs,hname'.symm.trans he⟩)
    · have hb' : c.agentOf b.key = some b := (h.others b.key hdone).agent ▸ agentOf_of_mem hb
      exact hfree b (agentOf_mem hb') hne hdone

/-- The files that are done have made no other agent the default. -/
theorem Begun.default (h : Begun c done c') (hdefault : ∀ s ∈ done, s.isDefault = false) :
    (∀ b ∈ c'.agents, b.isDefault = false) ↔ ∀ b ∈ c.agents, b.isDefault = false := by
  constructor
  · intro hno b hb
    by_cases hdone : b.key ∈ done.map (·.key)
    · obtain ⟨s,hs,hkey⟩ := List.mem_map.mp hdone
      obtain ⟨a,ha,-,hd⟩ := h.done s hs
      rw [hkey,agentOf_of_mem hb] at hd
      rw [← hno a (agentOf_mem ha),hd]
      rfl
    · have hb' : c'.agentOf b.key = some b := (h.others b.key hdone).agent.trans (agentOf_of_mem hb)
      exact hno b (agentOf_mem hb')
  · intro hno b hb
    by_cases hdone : b.key ∈ done.map (·.key)
    · obtain ⟨s,hs,hkey⟩ := List.mem_map.mp hdone
      obtain ⟨a,ha,-,hd⟩ := h.done s hs
      obtain rfl : b = a := by
        rw [hkey,agentOf_of_mem hb] at ha
        exact Option.some.inj ha
      rw [hd]
      cases hb₀ : c.agentOf s.key with
      | none => exact hdefault s hs
      | some b₀ => exact hno b₀ (agentOf_mem hb₀)
    · have hb' : c.agentOf b.key = some b := (h.others b.key hdone).agent ▸ agentOf_of_mem hb
      exact hno b (agentOf_mem hb')

/-- A file goes through after others exactly if it fits. -/
theorem Begun.syncSpec_ok_iff (h : Begun c done c') (happart : ∀ s ∈ done, Apart s spec) :
    (∃ w, syncSpec mitraEnabled mode fetch now c' spec = .ok w) ↔ FileFits mode fetch c done spec := by
  have hkey : spec.key ∉ done.map (·.key) := by
    intro hmem
    obtain ⟨s,hs,he⟩ := List.mem_map.mp hmem
    exact (happart s hs).key he
  have hname : spec.name ∉ done.map (·.name) := by
    intro hmem
    obtain ⟨s,hs,he⟩ := List.mem_map.mp hmem
    exact (happart s hs).name he
  have hdefault : spec.isDefault = true → ∀ s ∈ done, s.isDefault = false := by
    intro hd s hs
    by_contra hs'
    have hno := (happart s hs).default (by simpa using hs')
    rw [hd] at hno
    cases hno
  rw [ConfigSyncService.syncSpec_ok_iff h.lineage,h.storable hkey,h.names hname,(h.others _ hkey).agent]
  constructor
  · rintro ⟨hfits,hstorable,hnames,hd⟩
    exact ⟨hfits,hstorable,hnames,fun hs hnone => (h.default (hdefault hs)).mp (hd hs hnone)⟩
  · intro hf
    exact ⟨hf.columns,hf.storable,hf.name,fun hs hnone => (h.default (hdefault hs)).mpr (hf.default hs hnone)⟩

/-- The files go through exactly if they fit. -/
theorem Begun.syncSpecs_ok_iff {specs : List SpecFile} : ∀ {c' : Catalogue} {done : List SpecFile},
    Begun c done c' → (done ++ specs).Pairwise Apart →
      ((∃ w, syncSpecs mitraEnabled mode fetch now specs c' = .ok w) ↔ FilesFit mode fetch c done specs) := by
  induction specs with
  | nil => exact fun {c' done} _ _ => iff_of_true ⟨_,rfl⟩ trivial
  | cons spec specs ih =>
    intro c' done h happart
    have happart' : (done ++ [spec] ++ specs).Pairwise Apart := by simpa using happart
    have hspec : ∀ s ∈ done, Apart s spec := by
      intro s hs
      exact (List.pairwise_append.mp happart).2.2 s hs spec (List.mem_cons_self)
    have hkey : spec.key ∉ done.map (·.key) := by
      intro hmem
      obtain ⟨s,hs,he⟩ := List.mem_map.mp hmem
      exact (hspec s hs).key he
    have hfirst : (∃ w, syncSpec mitraEnabled mode fetch now c' spec = .ok w) ↔ FileFits mode fetch c done spec :=
      h.syncSpec_ok_iff hspec
    simp only [syncSpecs,exists_bind_eq_ok,FilesFit]
    constructor
    · rintro ⟨w,hw,w',hw',-⟩
      exact ⟨hfirst.mp ⟨w,hw⟩,(ih (h.next hkey hw) happart').mp ⟨w',hw'⟩⟩
    · rintro ⟨hf,hfs⟩
      obtain ⟨w,hw⟩ := hfirst.mpr hf
      obtain ⟨w',hw'⟩ := (ih (h.next hkey hw) happart').mpr hfs
      exact ⟨w,hw,w',hw',_,rfl⟩

/-- The tables after all the files. -/
theorem Begun.syncSpecs {specs : List SpecFile} : ∀ {c' : Catalogue} {done : List SpecFile} {w : Written},
    Begun c done c' → (done ++ specs).Pairwise Apart →
      syncSpecs mitraEnabled mode fetch now specs c' = .ok w → Begun c (done ++ specs) w.catalogue := by
  induction specs with
  | nil =>
    intro c' done w h _ hs
    obtain rfl := pure_eq_ok.mp hs
    simpa using h
  | cons spec specs ih =>
    intro c' done w h happart hs
    have happart' : (done ++ [spec] ++ specs).Pairwise Apart := by simpa using happart
    have hkey : spec.key ∉ done.map (·.key) := by
      intro hmem
      obtain ⟨s,hs',he⟩ := List.mem_map.mp hmem
      exact ((List.pairwise_append.mp happart).2.2 s hs' spec (List.mem_cons_self)).key he
    simp only [ConfigSyncService.syncSpecs,bind_eq_ok,pure_eq_ok] at hs
    obtain ⟨w₁,h₁,w₂,h₂,rfl⟩ := hs
    have hbegun := ih (h.next hkey h₁) happart' h₂
    simpa using hbegun

theorem disableOrphans_ok (now : ℕ) (c : Catalogue) (keys : List String) :
    ∃ c', disableOrphans now c keys = .ok c' := by
  apply setAgents_map_ok <;> (intro a; split <;> rfl)

end ConfigSyncService

namespace Catalogue

variable {c : Catalogue} {spec : SpecFile}

/-- The agent that the files declare as the default is the one that is the default. -/
def DeclaredDefault (specs : List SpecFile) (c : Catalogue) : Prop :=
  ∀ spec ∈ specs, spec.isDefault = true → (c.agents.filter (·.isDefault)).map (·.key) = [spec.key]

theorem map_key_isDefault {a : Agent} (ha : c.agentOf spec.key = some a) :
    (c.agents.filter (·.isDefault)).map (·.key) = [spec.key] ↔ a.isDefault = true := by
  constructor
  · intro hmap
    have hmem : spec.key ∈ (c.agents.filter (·.isDefault)).map (·.key) := by simp [hmap]
    obtain ⟨b,hb,hkey⟩ := List.mem_map.mp hmem
    rw [List.mem_filter] at hb
    obtain rfl : a = b := List.inj_on_of_nodup_map c.agent_key (agentOf_mem ha) hb.1
      ((agentOf_key ha).trans hkey.symm)
    exact hb.2
  · intro hd
    rw [filter_isDefault (agentOf_mem ha) hd,List.map_singleton,agentOf_key ha]

end Catalogue

/-- One call of `sync`, with valid files. -/
structure Boot where
  mitraEnabled : Bool
  mode : SyncMode
  fetch : Fetch
  now : ℕ
  specs : List SpecFile

namespace Boot

open ConfigSyncService Catalogue

def sync (b : Boot) (c : Catalogue) : Except WriteError Written :=
  ConfigSyncService.sync b.mitraEnabled b.mode b.fetch b.now (b.specs.map some) c

/-- What the files need of the rows before the call. -/
structure Fits (b : Boot) (c : Catalogue) : Prop where
  files : FilesFit b.mode b.fetch c [] b.specs
  default : ∀ spec ∈ b.specs, spec.isDefault = true → ∀ a, c.agentOf spec.key = some a → a.isDefault = true

/-- Every call goes through and leaves the declared default. -/
def Accepted : List Boot → Catalogue → Prop
  | [],_ => True
  | b :: bs,c => ∃ w, b.sync c = .ok w ∧ (b.mode ≠ .off → DeclaredDefault b.specs w.catalogue) ∧
      Accepted bs w.catalogue

/-- The files of every call fit the rows before it. -/
def Fitting : List Boot → Catalogue → Prop
  | [],_ => True
  | b :: bs,c => (b.mode ≠ .off → b.Fits c) ∧ ∀ w, b.sync c = .ok w → Fitting bs w.catalogue

variable {b : Boot} {c : Catalogue} {w : Written}

theorem sync_ok_iff (hc : c.Lineage) (hpre : preflight b.mitraEnabled b.specs = true) (hmode : b.mode ≠ .off) :
    (∃ w, b.sync c = .ok w) ↔ FilesFit b.mode b.fetch c [] b.specs := by
  have happart : ([] ++ b.specs).Pairwise Apart := apart_of_preflight hpre
  unfold sync
  have hspecs : (∃ w, syncSpecs b.mitraEnabled b.mode b.fetch b.now b.specs c = .ok w) ↔
      FilesFit b.mode b.fetch c [] b.specs := (Begun.nil hc).syncSpecs_ok_iff happart
  rw [← hspecs,sync_eq hmode hpre]
  simp only [writeSpecs,exists_bind_eq_ok]
  constructor
  · rintro ⟨w,hw,-⟩
    exact ⟨w,hw⟩
  · rintro ⟨w,hw⟩
    obtain ⟨c',hc'⟩ := disableOrphans_ok b.now w.catalogue (b.specs.map (·.key))
    exact ⟨w,hw,c',hc',_,rfl⟩

/-- A call that goes through leaves the declared default exactly if no other agent was the default. -/
theorem declaredDefault_iff (hc : c.Lineage) (hpre : preflight b.mitraEnabled b.specs = true)
    (hmode : b.mode ≠ .off) (hs : b.sync c = .ok w) : DeclaredDefault b.specs w.catalogue ↔
      ∀ spec ∈ b.specs, spec.isDefault = true → ∀ a, c.agentOf spec.key = some a → a.isDefault = true := by
  have happart : ([] ++ b.specs).Pairwise Apart := apart_of_preflight hpre
  obtain ⟨w₁,hw⟩ := sync_ok hmode hs
  have hbegun := (Begun.nil hc).syncSpecs happart hw.written
  unfold DeclaredDefault
  refine forall₂_congr fun spec hspec => imp_congr_right fun hd => ?_
  obtain ⟨a',ha',-,hdefault⟩ := hbegun.done spec hspec
  have hsame := disableOrphans_at hw.orphans (List.mem_map_of_mem hspec)
  rw [map_key_isDefault (hsame.agent.trans ha'),hdefault]
  cases ha : c.agentOf spec.key with
  | none => simp [hd]
  | some a => simp

/-- A call keeps the lineages. -/
theorem sync_lineage (hc : c.Lineage) (hs : b.sync c = .ok w) : w.catalogue.Lineage := by
  have hout : Outcome _ _ (b.sync c) := sync_outcome hc
  rw [hs] at hout
  exact hout

theorem accepted_iff_fitting {bs : List Boot} : ∀ {c : Catalogue}, c.Lineage →
    (∀ b ∈ bs, preflight b.mitraEnabled b.specs = true) → (Accepted bs c ↔ Fitting bs c) := by
  induction bs with
  | nil => exact fun _ _ => Iff.rfl
  | cons b bs ih =>
    intro c hc hpre
    have hb := hpre b (List.mem_cons_self)
    have hrest : ∀ b ∈ bs, preflight b.mitraEnabled b.specs = true := fun b hb =>
      hpre b (List.mem_cons_of_mem _ hb)
    have hnext : ∀ w, b.sync c = .ok w → (Accepted bs w.catalogue ↔ Fitting bs w.catalogue) :=
      fun w hs => ih (sync_lineage hc hs) hrest
    constructor
    · rintro ⟨w,hs,hdefault,haccepted⟩
      refine ⟨fun hmode => ?_,fun w' hs' => ?_⟩
      · exact ⟨(sync_ok_iff hc hb hmode).mp ⟨w,hs⟩,(declaredDefault_iff hc hb hmode hs).mp (hdefault hmode)⟩
      · obtain rfl := Except.ok.inj (hs.symm.trans hs')
        exact (hnext w hs).mp haccepted
    · rintro ⟨hfits,hfitting⟩
      have hgoes : ∃ w, b.sync c = .ok w := by
        by_cases hmode : b.mode = .off
        · refine ⟨{ catalogue := c },?_⟩
          unfold sync ConfigSyncService.sync
          rw [if_pos hmode]
          rfl
        · exact (sync_ok_iff hc hb hmode).mpr (hfits hmode).files
      obtain ⟨w,hs⟩ := hgoes
      refine ⟨w,hs,fun hmode => ?_,(hnext w hs).mpr (hfitting w hs)⟩
      exact (declaredDefault_iff hc hb hmode hs).mpr (hfits hmode).default

end Boot

open ConfigSyncService in
/-- After every history of operations, every synchronisation of a sequence goes through and leaves the
declared default exactly if the files of each fit the rows before it. -/
theorem syncs_accepted_iff {c₀ c : Catalogue} {bs : List Boot} (h₀ : c₀.Empty)
    (h : Reach Catalogue.apply anyAct c₀ c)
    (hpre : ∀ b ∈ bs, preflight b.mitraEnabled b.specs = true) : Boot.Accepted bs c ↔ Boot.Fitting bs c :=
  Boot.accepted_iff_fitting (Catalogue.lineage_of_reach h₀ h) hpre

/-- A file with this key and name. -/
def namedFile (key name : String) (isDefault : Bool) : SpecFile where
  key := key
  name := name
  description := "Answers questions"
  agentType := .llm
  isDefault := isDefault
  canonical := .obj [("key",.str key),("name",.str name)]
  checksum := key ++ name

/-- A call with these files. -/
def bootOf (now : ℕ) (specs : List SpecFile) : Boot := ⟨true,.safe,firstRow,now,specs⟩

/-- Two files of new agents, the first of which is the default. -/
def twoFiles : Boot := bootOf 1 [namedFile "assistant" "Saarthi" true,namedFile "helper" "Helper" false]

theorem syncs_accepted_two : Boot.Accepted [twoFiles] Catalogue.blank := by
  have hpre : ∀ b ∈ [twoFiles], ConfigSyncService.preflight b.mitraEnabled b.specs = true := by decide
  have hnew : ∀ key, Catalogue.blank.agentOf key = none := fun _ => rfl
  have hno : ∀ a : Agent, a ∉ Catalogue.blank.agents := fun a ha => by cases ha
  have hfile : ∀ done (spec : SpecFile), spec.fitsColumns = true → spec.jsonb = true →
      ConfigSyncService.FileFits .safe firstRow Catalogue.blank done spec := by
    intro done spec hfits hjsonb
    exact ⟨hfits,hjsonb,fun b hb => absurd hb (hno b),fun _ _ b hb => absurd hb (hno b)⟩
  apply (syncs_accepted_iff Catalogue.blank_empty .refl hpre).mpr
  refine ⟨fun _ => ⟨⟨hfile _ _ (by decide) rfl,hfile _ _ (by decide) rfl,trivial⟩,?_⟩,fun _ _ => trivial⟩
  intro spec _ _ a ha
  rw [hnew] at ha
  cases ha

/-- The error of the first call that raises. -/
def Boot.refusal : List Boot → Catalogue → Option WriteError
  | [],_ => none
  | b :: bs,c => match b.sync c with
    | .ok w => refusal bs w.catalogue
    | .error e => some e

theorem Boot.refusal_of_accepted {bs : List Boot} : ∀ {c : Catalogue}, Accepted bs c → refusal bs c = none := by
  induction bs with
  | nil => exact fun _ => rfl
  | cons b bs ih =>
    intro c h
    obtain ⟨w,hs,-,hrest⟩ := h
    unfold refusal
    rw [hs]
    exact ih hrest

/-- The default moves to a new agent. -/
def movedDefault : List Boot := [
  bootOf 1 [namedFile "assistant" "Saarthi" true],
  bootOf 2 [namedFile "assistant" "Saarthi" false,namedFile "helper" "Helper" true]]

/-- Two agents swap their names. -/
def swappedNames : List Boot := [
  bootOf 1 [namedFile "assistant" "Saarthi" false,namedFile "helper" "Helper" false],
  bootOf 2 [namedFile "assistant" "Helper" false,namedFile "helper" "Saarthi" false]]

/-- Files that pass the checks break the index of the default agent, or that of the names. -/
theorem valid_files_refused : (∀ b ∈ movedDefault ++ swappedNames,
      ConfigSyncService.preflight b.mitraEnabled b.specs = true) ∧
    Boot.refusal movedDefault Catalogue.blank = some (.unique .agentsSingleDefault) ∧
    Boot.refusal swappedNames Catalogue.blank = some (.unique .agentsName) ∧
    ¬Boot.Accepted movedDefault Catalogue.blank ∧ ¬Boot.Accepted swappedNames Catalogue.blank := by
  have hmoved : Boot.refusal movedDefault Catalogue.blank = some (.unique .agentsSingleDefault) := by
    decide +kernel
  have hswapped : Boot.refusal swappedNames Catalogue.blank = some (.unique .agentsName) := by
    decide +kernel
  refine ⟨by decide,hmoved,hswapped,fun h => ?_,fun h => ?_⟩
  · rw [Boot.refusal_of_accepted h] at hmoved
    cases hmoved
  · rw [Boot.refusal_of_accepted h] at hswapped
    cases hswapped

end Saarathi
