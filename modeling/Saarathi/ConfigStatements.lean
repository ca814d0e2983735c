import Saarathi.ConfigWrites

/-!
# What each statement writes

The statements of the configuration writers, one lemma for each: the rows of the
agent that it addresses, the rows of the others, and the agents.
-/

namespace Saarathi

/-- A row after the reactivation of a version of its agent. -/
def reactivate (now : ℕ) (version : ℤ) (r : AgentConfig) : AgentConfig :=
  if r.version = version then r.activated now else r.deactivated

section Reactivated

variable {now : ℕ} {version : ℤ}

theorem reactivate_version (r : AgentConfig) : (reactivate now version r).version = r.version := by
  unfold reactivate
  split <;> rfl

theorem reactivate_scope (r : AgentConfig) : (reactivate now version r).scope = r.scope := by
  unfold reactivate
  split <;> rfl

theorem reactivate_source (r : AgentConfig) : (reactivate now version r).source = r.source := by
  unfold reactivate
  split <;> rfl

theorem reactivate_isActive (r : AgentConfig) :
    (reactivate now version r).isActive = decide (r.version = version) := by
  unfold reactivate
  split
  · rename_i hv
    simp [hv,AgentConfig.activated]
  · rename_i hv
    simp [hv,AgentConfig.deactivated]

end Reactivated

namespace Catalogue

variable {c c' : Catalogue} {agent : AgentId}

/-- A change of the configurations goes through exactly within the constraints. -/
theorem setConfigs_ok {cs : List AgentConfig} (h₁ : AgentConfig.OneActive cs)
    (h₂ : AgentConfig.ScopeVersion cs) :
    c.setConfigs cs = .ok { c with configs := cs, one_active := h₁, scope_version := h₂ } := by
  unfold setConfigs
  rw [dif_pos h₁,dif_pos h₂]

theorem setConfigs_eq {cs : List AgentConfig} (h : c.setConfigs cs = .ok c') :
    c'.configs = cs ∧ c'.agents = c.agents := by
  unfold setConfigs at h
  split at h
  · split at h
    · obtain rfl := Except.ok.inj h
      exact ⟨rfl,rfl⟩
    · cases h
  · cases h

theorem setAgents_ok {as : List Agent} (h₁ : (as.map (·.id)).Nodup) (h₂ : (as.map (·.key)).Nodup)
    (h₃ : (as.map (·.name)).Nodup) (h₄ : Agent.SingleDefault as) :
    c.setAgents as = .ok { c with
      agents := as, agent_id := h₁, agent_key := h₂, agent_name := h₃, single_default := h₄ } := by
  unfold setAgents
  rw [dif_pos h₁,dif_pos h₂,dif_pos h₃,dif_pos h₄]

theorem setAgents_eq {as : List Agent} (h : c.setAgents as = .ok c') :
    c'.configs = c.configs ∧ c'.agents = as := by
  unfold setAgents at h
  split at h
  · split at h
    · split at h
      · split at h
        · obtain rfl := Except.ok.inj h
          exact ⟨rfl,rfl⟩
        · cases h
      · cases h
    · cases h
  · cases h

/-- A change of the agents goes through exactly within the constraints. -/
theorem setAgents_iff {as : List Agent} : (∃ c', c.setAgents as = .ok c') ↔ (as.map (·.id)).Nodup ∧
    (as.map (·.key)).Nodup ∧ (as.map (·.name)).Nodup ∧ Agent.SingleDefault as := by
  constructor
  · rintro ⟨c',h⟩
    rw [← (setAgents_eq h).2]
    exact ⟨c'.agent_id,c'.agent_key,c'.agent_name,c'.single_default⟩
  · rintro ⟨h₁,h₂,h₃,h₄⟩
    exact ⟨_,setAgents_ok h₁ h₂ h₃ h₄⟩

/-- A change of each agent that leaves its id, its key and whether it is the default. -/
theorem setAgents_map_iff {f : Agent → Agent} (hid : ∀ a, (f a).id = a.id) (hkey : ∀ a, (f a).key = a.key)
    (hdefault : ∀ a, (f a).isDefault = a.isDefault) :
    (∃ c', c.setAgents (c.agents.map f) = .ok c') ↔ ((c.agents.map f).map (·.name)).Nodup := by
  rw [setAgents_iff]
  have hids : (c.agents.map f).map (·.id) = c.agents.map (·.id) := by simp [hid]
  have hkeys : (c.agents.map f).map (·.key) = c.agents.map (·.key) := by simp [hkey]
  have hsingle : Agent.SingleDefault (c.agents.map f) := by
    unfold Agent.SingleDefault
    rw [List.filter_map,List.length_map]
    simp only [Function.comp_def,hdefault]
    exact c.single_default
  rw [hids,hkeys]
  simp [c.agent_id,c.agent_key,hsingle]

theorem configsOf_of_configs (h : c'.configs = c.configs) (agent : AgentId) :
    c'.configsOf agent = c.configsOf agent := by
  rw [configsOf,h,configsOf]

/-- What an update leaves of each agent's rows. -/
theorem filter_update {p : AgentConfig → Bool} {f : AgentConfig → AgentConfig}
    (hf : ∀ r, (f r).agentId = r.agentId) (b : AgentId) :
    (c.configs.map fun r => if r.agentId = agent && p r then f r else r).filter (·.agentId = b) =
      if b = agent then (c.configsOf agent).map (fun r => if p r then f r else r) else c.configsOf b := by
  have hid : ∀ r, (if r.agentId = agent && p r then f r else r).agentId = b ↔ r.agentId = b := by
    intro r
    split <;> simp [hf]
  rw [List.filter_map]
  simp only [Function.comp_def,hid]
  rw [← configsOf]
  split
  · rename_i hb
    subst hb
    apply List.map_congr_left
    intro r hr
    have hr' : r.agentId = b := by simpa using (List.mem_filter.mp hr).2
    simp [hr']
  · rename_i hb
    have hself : ∀ r ∈ c.configsOf b, (if r.agentId = agent && p r then f r else r) = r := by
      intro r hr
      have hr' : r.agentId = b := by simpa using (List.mem_filter.mp hr).2
      simp [hr',hb]
    exact (List.map_congr_left hself).trans (List.map_id _)

/-- The rows of one agent become `rows`, and nothing else changes. -/
structure Rewrites (agent : AgentId) (rows : List AgentConfig) (c c' : Catalogue) : Prop where
  rows : c'.configsOf agent = rows
  others : ∀ b, b ≠ agent → c'.configsOf b = c.configsOf b
  agents : c'.agents = c.agents

theorem Rewrites.refl (agent : AgentId) (c : Catalogue) : Rewrites agent (c.configsOf agent) c c :=
  ⟨rfl,fun _ _ => rfl,rfl⟩

theorem Rewrites.trans {rows rows' : List AgentConfig} {c₁ c₂ : Catalogue} (h : Rewrites agent rows c c₁)
    (h' : Rewrites agent rows' c₁ c₂) : Rewrites agent rows' c c₂ :=
  ⟨h'.rows,fun b hb => (h'.others b hb).trans (h.others b hb),h'.agents.trans h.agents⟩

theorem updateConfigs_rewrites {p : AgentConfig → Bool} {f : AgentConfig → AgentConfig}
    (h : c.updateConfigs agent p f = .ok c') (hf : ∀ r, (f r).agentId = r.agentId) :
    Rewrites agent ((c.configsOf agent).map fun r => if p r then f r else r) c c' := by
  obtain ⟨hc,ha⟩ := setConfigs_eq h
  refine ⟨?_,?_,ha⟩
  · rw [configsOf,hc,filter_update hf,if_pos rfl]
  · intro b hb
    rw [configsOf,hc,filter_update hf,if_neg hb]

theorem insertConfig_rewrites {jsonb : Bool} {r : AgentConfig} (h : c.insertConfig jsonb r = .ok c') :
    Rewrites r.agentId (c.configsOf r.agentId ++ [r]) c c' := by
  unfold insertConfig at h
  split at h
  · obtain ⟨hc,ha⟩ := setConfigs_eq h
    refine ⟨by simp [configsOf,hc],?_,ha⟩
    intro b hb
    simp [configsOf,hc,hb.symm]
  · cases h

/-- The rows after both halves of a reactivation. -/
theorem reactivate_rows {p : AgentConfig → Bool} {version : ℤ} {now : ℕ}
    (hp : ∀ r, r.version ≠ version → p r = true) (rows : List AgentConfig) :
    (rows.map fun r => if p r then r.deactivated else r).map
      (fun r => if decide (r.version = version) then r.activated now else r) =
        rows.map (reactivate now version) := by
  rw [List.map_map]
  apply List.map_congr_left
  intro r _
  by_cases hv : r.version = version
  · by_cases hpr : p r = true
    · simp [reactivate,hv,hpr,AgentConfig.activated,AgentConfig.deactivated]
    · simp [reactivate,hv,hpr]
  · simp [reactivate,hv,hp r hv,AgentConfig.deactivated]

/-- Switch the other versions off, then one on. -/
theorem reactivate_rewrites {p : AgentConfig → Bool} {version : ℤ} {now : ℕ} {c₁ c₂ : Catalogue}
    (hp : ∀ r, r.version ≠ version → p r = true)
    (h₁ : c.updateConfigs agent p AgentConfig.deactivated = .ok c₁)
    (h₂ : c₁.updateConfigs agent (·.version = version) (AgentConfig.activated now) = .ok c₂) :
    Rewrites agent ((c.configsOf agent).map (reactivate now version)) c c₂ := by
  have hr₁ := updateConfigs_rewrites h₁ fun _ => rfl
  have hr₂ := updateConfigs_rewrites h₂ fun _ => rfl
  rw [hr₁.rows,reactivate_rows hp] at hr₂
  exact hr₁.trans hr₂

/-- An agent's rows with a new version. -/
def withVersion (adopt : Bool) (r : AgentConfig) (rows : List AgentConfig) : List AgentConfig :=
  (if adopt then rows.map AgentConfig.deactivated else rows) ++ [r]

theorem deactivated_of_inactive {r : AgentConfig} (h : r.isActive = false) : r.deactivated = r := by
  obtain ⟨agentId,scope,v,source,checksum,config,isActive,activatedAt⟩ := r
  obtain rfl : isActive = false := h
  rfl

/-- An update that switches the active rows off. -/
theorem map_deactivated {p : AgentConfig → Bool} (hp : ∀ r, r.isActive = true → p r = true)
    (rows : List AgentConfig) : (rows.map fun r => if p r then r.deactivated else r) =
      rows.map AgentConfig.deactivated := by
  apply List.map_congr_left
  intro r _
  by_cases hr : p r = true
  · rw [if_pos hr]
  · have hinactive : r.isActive = false := by
      by_contra hact
      exact hr (hp r (by simpa using hact))
    rw [if_neg hr,deactivated_of_inactive hinactive]

/-- Switch the active rows off, where the new one is to be active, then insert it. -/
theorem withVersion_rewrites {p : AgentConfig → Bool} {adopt jsonb : Bool} {r : AgentConfig}
    {c₁ c₂ : Catalogue} (hp : ∀ r, r.isActive = true → p r = true) (hr : r.agentId = agent)
    (h₁ : (if adopt = true then c.updateConfigs agent p AgentConfig.deactivated else pure c) = .ok c₁)
    (h₂ : c₁.insertConfig jsonb r = .ok c₂) :
    Rewrites agent (withVersion adopt r (c.configsOf agent)) c c₂ := by
  subst hr
  have hr₂ := insertConfig_rewrites h₂
  cases adopt with
  | false =>
    obtain rfl : c = c₁ := pure_eq_ok.mp h₁
    exact hr₂
  | true =>
    have hr₁ := updateConfigs_rewrites h₁ fun _ => rfl
    rw [map_deactivated hp] at hr₁
    rw [hr₁.rows] at hr₂
    exact hr₁.trans hr₂

/-- `SELECT id FROM agents WHERE key = …`. -/
def idOf (c : Catalogue) (key : String) : Option AgentId :=
  (c.agents.find? (·.key = key)).map (·.id)

theorem idOf_injective {key key' : String} (h : c.idOf key = some agent)
    (h' : c.idOf key' = some agent) : key = key' := by
  obtain ⟨a,ha,rfl⟩ := Option.map_eq_some_iff.mp h
  obtain ⟨b,hb,hid⟩ := Option.map_eq_some_iff.mp h'
  have hab : b = a := List.inj_on_of_nodup_map c.agent_id (List.mem_of_find?_eq_some hb)
    (List.mem_of_find?_eq_some ha) hid
  have hka : a.key = key := by simpa using List.find?_some ha
  have hkb : b.key = key' := by simpa using List.find?_some hb
  rw [← hka,← hkb,hab]

theorem updateAgent_eq {f : Agent → Agent} (h : c.updateAgent agent f = .ok c')
    (hf : ∀ a, (f a).key = a.key) (hid : ∀ a, (f a).id = a.id) :
    c'.configs = c.configs ∧ ∀ key, c'.idOf key = c.idOf key := by
  obtain ⟨hc,ha⟩ := setAgents_eq h
  refine ⟨hc,?_⟩
  intro key
  have hkey : ((fun a : Agent => decide (a.key = key)) ∘ fun a => if a.id = agent then f a else a) =
      fun a => decide (a.key = key) := by
    funext a
    by_cases hag : a.id = agent <;> simp [hag,hf]
  rw [idOf,ha,List.find?_map,Option.map_map,hkey,idOf]
  congr 1
  funext a
  by_cases hag : a.id = agent <;> simp [hag,hid]

theorem idOf_append {a : Agent} (ha : c'.agents = c.agents ++ [a]) (hnone : c.idOf a.key = none) :
    c'.idOf a.key = some a.id ∧ ∀ key, key ≠ a.key → c'.idOf key = c.idOf key := by
  constructor
  · have hfind : c.agents.find? (·.key = a.key) = none := Option.map_eq_none_iff.mp hnone
    simp [idOf,ha,List.find?_append,hfind]
  · intro key hkey
    simp [idOf,ha,List.find?_append,hkey.symm]

theorem le_foldr_max {ids : List ℕ} {b : ℕ} (hb : b ∈ ids) : b ≤ ids.foldr max 0 := by
  induction ids with
  | nil => cases hb
  | cons id ids ih =>
    rw [List.foldr_cons]
    rcases List.mem_cons.mp hb with rfl | hb
    · exact le_max_left _ _
    · exact (ih hb).trans (le_max_right _ _)

theorem ne_freshAgent {b : AgentId} (hb : b ∈ c.agents.map (·.id) ++ c.configs.map (·.agentId)) :
    b ≠ c.freshAgent := by
  rintro rfl
  exact Nat.not_succ_le_self _ (le_foldr_max hb)

theorem configsOf_freshAgent (c : Catalogue) : c.configsOf c.freshAgent = [] := by
  rw [configsOf,List.filter_eq_nil_iff]
  intro r hr hag
  have hmem : r.agentId ∈ c.agents.map (·.id) ++ c.configs.map (·.agentId) :=
    List.mem_append_right _ (List.mem_map_of_mem hr)
  exact ne_freshAgent hmem (by simpa using hag)

end Catalogue

namespace ConfigSyncService

/-- What the creation of an agent writes. -/
theorem createAgent_writes {mitraEnabled : Bool} {now : ℕ} {c : Catalogue} {spec : SpecFile} {w : Written}
    (h : createAgent mitraEnabled now c spec = .ok w) :
    w.catalogue.agents = c.agents ++ [agentRow mitraEnabled now c.freshAgent spec] ∧
      w.catalogue.configsOf c.freshAgent = [Catalogue.versionRow c.freshAgent 1 .yaml spec true now] ∧
      (∀ b, b ≠ c.freshAgent → w.catalogue.configsOf b = c.configsOf b) ∧
      w.versions = [(c.freshAgent,1)] ∧ w.report = { created := [spec.key] } := by
  unfold createAgent at h
  split at h
  · simp only [bind_eq_ok,pure_eq_ok] at h
    obtain ⟨c₁,h₁,c₂,h₂,rfl⟩ := h
    obtain ⟨hc₁,ha₁⟩ := Catalogue.setAgents_eq h₁
    have hr₂ := Catalogue.insertConfig_rewrites h₂
    refine ⟨hr₂.agents.trans ha₁,?_,?_,rfl,rfl⟩
    · have hrows := hr₂.rows
      rw [Catalogue.configsOf_of_configs hc₁] at hrows
      simpa [Catalogue.versionRow,Catalogue.configsOf_freshAgent] using hrows
    · intro b hb
      rw [hr₂.others b hb,Catalogue.configsOf_of_configs hc₁]
  · cases h

end ConfigSyncService

namespace AdminRoutes

open Catalogue

variable {now : ℕ} {key : String} {c : Catalogue} {r : AdminAnswer × Written}

/-- Switching rows off leaves the next version. -/
theorem nextVersion_deactivated {agent : AgentId} {p : AgentConfig → Bool} {c₁ : Catalogue}
    (h : c.updateConfigs agent p AgentConfig.deactivated = .ok c₁) :
    AgentConfig.nextVersion (c₁.configsOf agent) = AgentConfig.nextVersion (c.configsOf agent) := by
  rw [(updateConfigs_rewrites h fun _ => rfl).rows]
  unfold AgentConfig.nextVersion
  rw [List.map_map]
  congr 3
  apply List.map_congr_left
  intro r _
  simp only [Function.comp_apply]
  split <;> rfl

/-- What the creation of a version writes. -/
theorem createConfigVersion_writes {body : Option SpecFile} (h : createConfigVersion now key body c = .ok r) :
    r.2.catalogue = c ∨ ∃ a spec, c.agents.find? (·.key = key) = some a ∧ body = some spec ∧
      c.Rewrites a.id (withVersion true
        (versionRow a.id (AgentConfig.nextVersion (c.configsOf a.id)) .db spec true now) (c.configsOf a.id))
        r.2.catalogue := by
  unfold createConfigVersion at h
  cases hfind : c.agents.find? (·.key = key) with
  | none =>
    simp only [hfind,pure_eq_ok] at h
    exact .inl (by rw [← h])
  | some a =>
    cases body with
    | none =>
      simp only [hfind,pure_eq_ok] at h
      exact .inl (by rw [← h])
    | some spec =>
      simp only [hfind] at h
      split at h
      · rw [pure_eq_ok] at h
        exact .inl (by rw [← h])
      · simp only [bind_eq_ok,pure_eq_ok] at h
        obtain ⟨c₁,h₁,c₂,h₂,rfl⟩ := h
        rw [nextVersion_deactivated h₁] at h₂
        refine .inr ⟨a,spec,rfl,rfl,?_⟩
        have hoff : (if true = true then c.updateConfigs a.id (fun _ => true) AgentConfig.deactivated
            else pure c) = .ok c₁ := h₁
        exact withVersion_rewrites (fun _ _ => rfl) rfl hoff h₂

/-- What the activation of a version writes. -/
theorem activateConfigVersion_writes {version : Option ℤ}
    (h : activateConfigVersion now key version c = .ok r) :
    r.2.catalogue = c ∨ ∃ a version, c.agents.find? (·.key = key) = some a ∧
      c.Rewrites a.id ((c.configsOf a.id).map (reactivate now version)) r.2.catalogue := by
  unfold activateConfigVersion at h
  cases hfind : c.agents.find? (·.key = key) with
  | none =>
    simp only [hfind,pure_eq_ok] at h
    exact .inl (by rw [← h])
  | some a =>
    cases version with
    | none =>
      simp only [hfind,pure_eq_ok] at h
      exact .inl (by rw [← h])
    | some version =>
      simp only [hfind] at h
      split at h
      · simp only [bind_eq_ok,pure_eq_ok] at h
        obtain ⟨c₁,h₁,c₂,h₂,rfl⟩ := h
        exact .inr ⟨a,version,rfl,reactivate_rewrites (fun _ _ => rfl) h₁ h₂⟩
      · rw [pure_eq_ok] at h
        exact .inl (by rw [← h])

/-- What a change of the status writes. -/
theorem updateAgentStatus_writes {status : Option AgentStatus}
    (h : updateAgentStatus now key status c = .ok r) :
    r.2.catalogue = c ∨ ∃ a status, c.agents.find? (·.key = key) = some a ∧
      c.updateAgent a.id (fun a => { a with status := status, updatedAt := now }) = .ok r.2.catalogue := by
  unfold updateAgentStatus at h
  cases hfind : c.agents.find? (·.key = key) with
  | none =>
    simp only [hfind,pure_eq_ok] at h
    exact .inl (by rw [← h])
  | some a =>
    cases status with
    | none =>
      simp only [hfind,pure_eq_ok] at h
      exact .inl (by rw [← h])
    | some status =>
      simp only [hfind,bind_eq_ok,pure_eq_ok] at h
      obtain ⟨c₁,h₁,rfl⟩ := h
      exact .inr ⟨a,status,rfl,h₁⟩

end AdminRoutes

end Saarathi
