import Saarathi.CapabilityChanges
import Saarathi.CapabilityDocument

/-!
# Whom an edit of a card reaches

A caller's document does not depend on the cards of scopes that the caller's scope
does not fall back to, nor on those that a closer card of the same key hides.
-/

namespace Saarathi

open AdminConfig Catalogue ScopedSelection

/-- The caller's scope does not fall back to the scope, or it has a closer card of the key. -/
def CapabilityStore.Beyond (st : CapabilityStore) (s : Scope) (key : String) (scope : Scope) : Prop :=
  admits defaultScope s scope = true →
    ∃ r ∈ st.rows, r.key = key ∧ admits defaultScope s r.scope = true ∧ rank s r.scope < rank s scope

/-- The tables are the same but for what is at one address. -/
structure CapabilityStore.OnlyAt (key : String) (scope : Scope) (st st' : CapabilityStore) : Prop where
  same : st.SameElse st'
  kept : ∀ r ∈ st.rows, (r.key = key ∧ r.scope = scope) ∨ r ∈ st'.rows
  new : ∀ r ∈ st'.rows, (r.key = key ∧ r.scope = scope) ∨ r ∈ st.rows
  members : ∀ p : ℕ → Bool, (∀ r ∈ st.rows, r.key = key → r.scope = scope → p r.id = false) →
    (∀ r ∈ st'.rows, r.key = key → r.scope = scope → p r.id = false) →
    st'.catalogue.members.filter (fun m => p m.capabilityId) = st.catalogue.members.filter fun m => p m.capabilityId

namespace CapabilityChange

variable {dr : MemberColumns} {actor : String} {st : CapabilityStore} {q : CapabilityRequest} {e : CapabilityChange}

theorem filter_filter_members {p : ℕ → Bool} {id : ℕ} (hid : p id = false) (members : List CapabilityAgent) :
    (members.filter (·.capabilityId ≠ id)).filter (fun m => p m.capabilityId) =
      members.filter fun m => p m.capabilityId := by
  rw [List.filter_filter]
  refine List.filter_congr fun m _ => ?_
  by_cases h : m.capabilityId = id
  · simp [h,hid]
  · simp [h]

theorem onlyAt_inserted {row : CapabilityRow} :
    CapabilityStore.OnlyAt row.key row.scope st ((inserted row).apply actor st).1 := by
  cases h : st.insert row with
  | none =>
    simp only [apply,h]
    exact ⟨⟨rfl,rfl⟩,fun r hr => .inr hr,fun r hr => .inr hr,fun _ _ _ => rfl⟩
  | some st' =>
    obtain ⟨-,hrows,hmembers,hsame⟩ := CapabilityStore.insert_eq h
    simp only [apply,h,Option.getD_some]
    refine ⟨hsame,fun r hr => .inr ?_,fun r hr => ?_,fun p _ _ => by rw [hmembers]⟩
    · rw [hrows]
      exact List.mem_append_left _ hr
    · rw [hrows] at hr
      rcases List.mem_append.mp hr with hr | hr
      · exact .inr hr
      · obtain rfl := List.mem_singleton.mp hr
        exact .inl ⟨rfl,rfl⟩

theorem onlyAt_updated {before : CapabilityRow} {p : CapabilityPatch} (hmem : before ∈ st.rows) :
    CapabilityStore.OnlyAt before.key before.scope st ((updated before p).apply actor st).1 := by
  have hone : ∀ r ∈ st.rows, r.id = before.id → r = before := fun r hr hid =>
    List.inj_on_of_nodup_map st.nodup_id hr hmem hid
  refine ⟨⟨rfl,rfl⟩,fun r hr => ?_,fun r hr => ?_,fun _ _ _ => rfl⟩
  · by_cases hid : r.id = before.id
    · obtain rfl := hone r hr hid
      exact .inl ⟨rfl,rfl⟩
    · exact .inr (List.mem_map.mpr ⟨r,hr,if_neg hid⟩)
  · obtain ⟨r',hr',rfl⟩ := List.mem_map.mp hr
    by_cases hid : r'.id = before.id
    · obtain rfl := hone r' hr' hid
      rw [if_pos rfl]
      exact .inl ⟨rfl,rfl⟩
    · rw [if_neg hid]
      exact .inr hr'

theorem onlyAt_deleted {before : CapabilityRow} (hmem : before ∈ st.rows) :
    CapabilityStore.OnlyAt before.key before.scope st ((deleted before).apply actor st).1 := by
  refine ⟨⟨rfl,rfl⟩,fun r hr => ?_,fun r hr => .inr (List.mem_filter.mp hr).1,fun p hold _ => ?_⟩
  · by_cases hid : r.id = before.id
    · obtain rfl : r = before := List.inj_on_of_nodup_map st.nodup_id hr hmem hid
      exact .inl ⟨rfl,rfl⟩
    · exact .inr (List.mem_filter.mpr ⟨hr,by simpa using hid⟩)
  · exact filter_filter_members (hold before hmem rfl rfl) _

theorem onlyAt_replaced {cap : CapabilityRow} {sent : List Json} {members : List CapabilityAgent}
    (hmem : cap ∈ st.rows) (hrows : AreRows dr st.catalogue cap.toCapability sent members) :
    CapabilityStore.OnlyAt cap.key cap.scope st ((replaced cap.id sent members).apply actor st).1 := by
  obtain ⟨hsame,helse⟩ := st.replaceMembers_same cap.id members
  refine ⟨helse,fun r hr => .inr ?_,fun r hr => .inr ?_,fun p hold _ => ?_⟩
  · exact hsame ▸ hr
  · exact hsame ▸ hr
  · simp only [apply,CapabilityStore.replaceMembers]
    split
    · have hnew : members.filter (fun m => p m.capabilityId) = [] := by
        refine List.filter_eq_nil_iff.mpr fun m hm => ?_
        rw [hrows.capability hm,hold cap hmem rfl rfl]
        simp
      refine (List.filter_append _ _).trans ?_
      rw [filter_filter_members (hold cap hmem rfl rfl),hnew,List.append_nil]
    · rfl

/-- A request changes the tables at its address, if at all. -/
theorem Fits.onlyAt (h : e.Fits dr st q) : e = .kept ∨
    ∃ key scope, q.address dr = some (key,scope) ∧ CapabilityStore.OnlyAt key scope st (e.apply actor st).1 := by
  cases h with
  | kept => exact .inl rfl
  | inserted haddress => exact .inr ⟨_,_,haddress,onlyAt_inserted⟩
  | updated hfind =>
    obtain ⟨hmem,rfl,rfl⟩ := CapabilityStore.find_spec hfind
    exact .inr ⟨_,_,rfl,onlyAt_updated hmem⟩
  | deleted hfind =>
    obtain ⟨hmem,rfl,rfl⟩ := CapabilityStore.find_spec hfind
    exact .inr ⟨_,_,rfl,onlyAt_deleted hmem⟩
  | replaced hfind hrows =>
    obtain ⟨hmem,hkey,hscope⟩ := CapabilityStore.find_spec hfind
    refine .inr ⟨_,_,rfl,?_⟩
    rw [← hkey,← hscope]
    exact onlyAt_replaced hmem hrows

end CapabilityChange

namespace CapabilityStore

variable {st st' : CapabilityStore} {s : Scope} {key : String} {scope : Scope}

theorem onePlace_capabilities (c : Catalogue) (s : Scope) : OnePlace Capability.key (fun cap => rank s cap.scope)
    (c.capabilities.filter fun cap => admits defaultScope s cap.scope) := by
  intro a ha b hb hkey hrank
  obtain ⟨ha,hadmits⟩ := List.mem_filter.mp ha
  obtain ⟨hb,hadmits'⟩ := List.mem_filter.mp hb
  exact List.inj_on_of_nodup_map c.capability_scope_key ha hb (Prod.ext (rank_inj hadmits hadmits' hrank) hkey)

theorem mem_capabilities {cap : Capability} : cap ∈ st.catalogue.capabilities ↔ ∃ r ∈ st.rows, r.toCapability = cap := by
  rw [← st.rows_eq,List.mem_map]

/-- What is beyond the caller stays so when something beyond the caller is edited. -/
theorem Beyond.of_onlyAt {key' : String} {scope' : Scope} (hb : st.Beyond s key scope) (h : OnlyAt key scope st st')
    (hb' : st.Beyond s key' scope') : st'.Beyond s key' scope' := by
  intro hadmits
  obtain ⟨r,hr,hkey,hscope,hlt⟩ := hb' hadmits
  rcases h.kept r hr with ⟨rfl,rfl⟩ | hr'
  · obtain ⟨r₁,hr₁,hkey₁,hscope₁,hlt₁⟩ := hb hscope
    have hr₁' := (h.kept r₁ hr₁).resolve_left fun hat => lt_irrefl _ (hat.2 ▸ hlt₁)
    exact ⟨r₁,hr₁',hkey₁.trans hkey,hscope₁,hlt₁.trans hlt⟩
  · exact ⟨r,hr',hkey,hscope,hlt⟩

/-- A card at an address beyond the caller comes after another. -/
theorem Beyond.hidden (hb : st.Beyond s key scope) {cap : Capability} (hadmits : admits defaultScope s cap.scope = true)
    (hkey : cap.key = key) (hscope : cap.scope = scope) :
    ∃ b ∈ st.catalogue.capabilities.filter fun cap => admits defaultScope s cap.scope,
      b.key = cap.key ∧ rank s b.scope < rank s cap.scope := by
  obtain ⟨r,hr,hkey',hadmits',hlt⟩ := hb (hscope ▸ hadmits)
  refine ⟨r.toCapability,List.mem_filter.mpr ⟨mem_capabilities.mpr ⟨r,hr,rfl⟩,hadmits'⟩,hkey'.trans hkey.symm,?_⟩
  rw [hscope]
  exact hlt

/-- No such card is selected. -/
theorem Beyond.not_selected (hb : st.Beyond s key scope) {cap : Capability}
    (hcap : cap ∈ st.catalogue.resolvedCapabilities s) : ¬ (cap.key = key ∧ cap.scope = scope) := by
  rintro ⟨hkey,hscope⟩
  obtain ⟨hmem,hfirst⟩ := (mem_distinctOn_iff (onePlace_capabilities st.catalogue s)).mp hcap
  obtain ⟨b,hbmem,hbkey,hlt⟩ := hb.hidden (List.mem_filter.mp hmem).2 hkey hscope
  rcases hfirst b hbmem hbkey with rfl | hlt'
  · exact lt_irrefl _ hlt
  · exact lt_asymm hlt hlt'

/-- What is selected still is, where the tables are the same elsewhere. -/
theorem resolved_subset (hb : st.Beyond s key scope)
    (hkept : ∀ r ∈ st.rows, (r.key = key ∧ r.scope = scope) ∨ r ∈ st'.rows)
    (hnew : ∀ r ∈ st'.rows, (r.key = key ∧ r.scope = scope) ∨ r ∈ st.rows) {cap : Capability}
    (hcap : cap ∈ st.catalogue.resolvedCapabilities s) : cap ∈ st'.catalogue.resolvedCapabilities s := by
  refine mem_distinctOn_of_hidden
    (fun cap => admits defaultScope s cap.scope = true ∧ cap.key = key ∧ cap.scope = scope)
    (onePlace_capabilities st.catalogue s) (onePlace_capabilities st'.catalogue s) (fun a ha => ?_) (fun a ha => ?_)
    (fun a hat => hb.hidden hat.1 hat.2.1 hat.2.2) hcap
  · obtain ⟨ha,hadmits⟩ := List.mem_filter.mp ha
    obtain ⟨r,hr,rfl⟩ := mem_capabilities.mp ha
    rcases hkept r hr with hat | hr'
    · exact .inl ⟨hadmits,hat⟩
    · exact .inr (List.mem_filter.mpr ⟨mem_capabilities.mpr ⟨r,hr',rfl⟩,hadmits⟩)
  · obtain ⟨ha,hadmits⟩ := List.mem_filter.mp ha
    obtain ⟨r,hr,rfl⟩ := mem_capabilities.mp ha
    rcases hnew r hr with hat | hr'
    · exact .inl ⟨hadmits,hat⟩
    · exact .inr (List.mem_filter.mpr ⟨mem_capabilities.mpr ⟨r,hr',rfl⟩,hadmits⟩)

/-- The cards of the caller's document stand. -/
theorem capabilityRows_eq (hb : st.Beyond s key scope) (h : OnlyAt key scope st st') :
    st'.catalogue.capabilityRows s = st.catalogue.capabilityRows s := by
  have hmem : ∀ cap, cap ∈ st'.catalogue.capabilityRows s ↔ cap ∈ st.catalogue.capabilityRows s := by
    intro cap
    simp only [capabilityRows,List.mem_insertionSort,List.mem_filter]
    exact and_congr_left fun _ =>
      ⟨resolved_subset (hb.of_onlyAt h hb) h.new h.kept,resolved_subset hb h.kept h.new⟩
  have hperm : (st'.catalogue.capabilityRows s).Perm (st.catalogue.capabilityRows s) :=
    (List.perm_ext_iff_of_nodup (nodup_capabilityRows _ s).of_map (nodup_capabilityRows _ s).of_map).mpr hmem
  refine hperm.eq_of_pairwise ?_ (pairwise_capabilityRows _ s) (pairwise_capabilityRows _ s)
  rintro a b - - (hlt | ⟨heq,hlt⟩) (hlt' | ⟨heq',hlt'⟩)
  · exact absurd hlt (lt_asymm hlt')
  · exact absurd heq' hlt.ne'
  · exact absurd heq hlt'.ne'
  · exact absurd hlt (lt_asymm hlt')

theorem flatMap_filter_of_nil {α β : Type} {f : α → List β} {p : α → Bool} (h : ∀ a, p a = false → f a = [])
    (as : List α) : (as.filter p).flatMap f = as.flatMap f := by
  induction as with
  | nil => rfl
  | cons a as ih =>
    cases hp : p a with
    | true => rw [List.filter_cons_of_pos hp,List.flatMap_cons,List.flatMap_cons,ih]
    | false => rw [List.filter_cons_of_neg (by simp [hp]),List.flatMap_cons,h a hp,ih,List.nil_append]

theorem SameElse.joinedRows (h : st.SameElse st') (s : Scope) (ids : List ℕ) :
    joinedRows st'.catalogue s ids = joinedRows st.catalogue s ids := by
  funext m
  simp only [Catalogue.joinedRows,lateralConfig,activeConfigs,h.agents,h.configs]

/-- The id of a card at an address beyond the caller is not among those that the agents are read for. -/
theorem Beyond.id_not_listed (hb : st.Beyond s key scope) {r : CapabilityRow} (hr : r ∈ st.rows) (hkey : r.key = key)
    (hscope : r.scope = scope) : ((st.catalogue.capabilityRows s).map (·.id)).contains r.id = false := by
  rw [← Bool.not_eq_true,List.contains_iff_mem]
  intro hmem
  obtain ⟨cap,hcap,hid⟩ := List.mem_map.mp hmem
  simp only [capabilityRows,List.mem_insertionSort,List.mem_filter] at hcap
  have hstored : cap ∈ st.catalogue.capabilities :=
    (List.mem_filter.mp ((mem_distinctOn_iff (onePlace_capabilities st.catalogue s)).mp hcap.1).1).1
  obtain rfl : cap = r.toCapability :=
    List.inj_on_of_nodup_map st.catalogue.capability_id hstored (mem_capabilities.mpr ⟨r,hr,rfl⟩) hid
  exact hb.not_selected hcap.1 ⟨hkey,hscope⟩

/-- So do their buttons. -/
theorem agentRows_eq (hb : st.Beyond s key scope) (h : OnlyAt key scope st st') :
    st'.catalogue.agentRows s ((st.catalogue.capabilityRows s).map (·.id)) =
      st.catalogue.agentRows s ((st.catalogue.capabilityRows s).map (·.id)) := by
  have hskip : ∀ m : CapabilityAgent, ((st.catalogue.capabilityRows s).map (·.id)).contains m.capabilityId = false →
      joinedRows st.catalogue s ((st.catalogue.capabilityRows s).map (·.id)) m = [] := by
    intro m hm
    rw [joinedRows,hm]
    rfl
  have hmembers := h.members ((st.catalogue.capabilityRows s).map (·.id)).contains (fun r hr => hb.id_not_listed hr)
    fun r hr hkey hscope => by
      rw [← capabilityRows_eq hb h]
      exact (hb.of_onlyAt h hb).id_not_listed hr hkey hscope
  have hjoined : st'.catalogue.members.flatMap (joinedRows st'.catalogue s ((st.catalogue.capabilityRows s).map (·.id))) =
      st.catalogue.members.flatMap (joinedRows st.catalogue s ((st.catalogue.capabilityRows s).map (·.id))) := by
    rw [h.same.joinedRows,← flatMap_filter_of_nil hskip,hmembers,flatMap_filter_of_nil hskip]
  exact congrArg (List.insertionSort _) hjoined

/-- The caller's document stands. -/
theorem resolveForUser_eq {v : Validation} {user : Option UserContext} (hb : st.Beyond (scopeOf user) key scope)
    (h : OnlyAt key scope st st') : st'.catalogue.resolveForUser v user = st.catalogue.resolveForUser v user := by
  have hpermitted : st'.catalogue.permittedRows v user = st.catalogue.permittedRows v user := by
    rw [permittedRows,capabilityRows_eq hb h,agentRows_eq hb h,permittedRows]
  rw [resolveForUser,hpermitted,capabilityRows_eq hb h,resolveForUser]

end CapabilityStore

section Histories

variable (dr : MemberColumns) (v : Validation) (user : Option UserContext)

/-- The tables after requests of administrators, handled one after another. -/
def CapabilityStore.after (st : CapabilityStore) (as : List (String × CapabilityRequest)) : CapabilityStore :=
  as.foldl (fun st a => (administer dr st a).1) st

/-- Whatever is requested about cards that a caller's scope does not fall back to, or that a closer card of their key
hides from it, in whatever order: the caller's document stays as it is. -/
theorem document_stands (st : CapabilityStore) (as : List (String × CapabilityRequest))
    (h : ∀ a ∈ as, ∀ key scope, a.2.address dr = some (key,scope) → st.Beyond (scopeOf user) key scope) :
    (st.after dr as).catalogue.resolveForUser v user = st.catalogue.resolveForUser v user := by
  induction as generalizing st with
  | nil => rfl
  | cons a as ih =>
    obtain ⟨e,hfits,hstep⟩ := administer_fits dr st a
    have hrest := fun a' ha' => h a' (List.mem_cons_of_mem _ ha')
    rw [CapabilityStore.after,List.foldl_cons,hstep]
    rcases hfits.onlyAt with rfl | ⟨key,scope,haddress,honly⟩
    · exact ih st hrest
    · have hb := h a List.mem_cons_self key scope haddress
      refine (ih _ fun a' ha' key' scope' haddress' => ?_).trans (CapabilityStore.resolveForUser_eq hb honly)
      exact hb.of_onlyAt honly (hrest a' ha' key' scope' haddress')

end Histories

/-- The catalogue's cards, with nothing in the columns that only their texts are read from. -/
def CapabilityStore.plain (c : Catalogue) : CapabilityStore where
  catalogue := c
  rows := c.capabilities.map fun cap => { toCapability := cap }
  rows_eq := (List.map_map ..).trans (List.map_id _)

/-- Columns that take the default display order too. -/
def orderColumns : MemberColumns :=
  { plainColumns with
    displayOrder := fun j => match j with
      | .num "100" => some 100
      | _ => none }

/-- Everyone's card goes, of which a tenant has its own, and another tenant gets one. -/
def elsewhere : List (String × CapabilityRequest) :=
  [("admin",.delete "chat" defaultScope),
    ("admin",.create 4 [("key",.str "poll"),("name",.str "Poll"),("tenant_id",.str "umbrella")])]

theorem document_stands_tenant :
    ((CapabilityStore.plain disabledByTenant).after orderColumns elsewhere).rows.map (·.id) = [2,3,4] ∧
    ((CapabilityStore.plain disabledByTenant).after orderColumns elsewhere).catalogue.resolveForUser anyAccess
      (some { userId := "user", tenantCode := "acme" }) =
    disabledByTenant.resolveForUser anyAccess (some { userId := "user", tenantCode := "acme" }) := by
  refine ⟨by decide +kernel,document_stands orderColumns anyAccess _ (CapabilityStore.plain disabledByTenant) elsewhere ?_⟩
  intro a ha key scope haddress
  simp only [elsewhere,List.mem_cons,List.not_mem_nil,or_false] at ha
  rcases ha with rfl | rfl
  · obtain ⟨rfl,rfl⟩ := Prod.mk.inj (Option.some.inj haddress)
    exact fun _ => ⟨{ id := 3, key := "chat", scope := ("acme","default"), name := "Chat", status := .disabled },
      by simp [CapabilityStore.plain,disabledByTenant],rfl,rfl,by decide⟩
  · obtain ⟨rfl,rfl⟩ := Prod.mk.inj (Option.some.inj haddress)
    exact fun hadmits => absurd hadmits (by decide)

end Saarathi
