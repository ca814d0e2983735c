import Saarathi.ScopeCache
import Mathlib.Data.Set.Function

/-!
# Handlers of the scopes

A turn resolves its agent for its scope and has the agent's handler built. The
factory keeps every handler under the key and the checksum that it was built
for, whichever scope it was built for first.
-/

namespace Saarathi

open Machine Interleaving

abbrev HandlerId := ℕ

/-- The cache of handlers, and what each handler was constructed from. -/
structure HandlerFactory where
  cache : List ((String × String) × HandlerId) := []
  handlers : List AgentSpec := []

namespace HandlerFactory

variable (f : HandlerFactory)

def find (ck : String × String) : Option HandlerId := (f.cache.find? (·.1 = ck)).map (·.2)

/-- A miss empties a full cache first. -/
def clears (spec : AgentSpec) (checksum : String) : Bool :=
  (f.find (spec.key,checksum)).isNone && decide (64 < f.cache.length)

/-- `build`. Both types of agents have a handler class, whose constructor may raise. -/
def build (spec : AgentSpec) (checksum : String) (constructed : Except Exn Unit) :
    Except Exn HandlerId × HandlerFactory :=
  match f.find (spec.key,checksum) with
  | some handler => (.ok handler,f)
  | none =>
    let kept := if 64 < f.cache.length then [] else f.cache
    match constructed with
    | .ok () => (.ok f.handlers.length,
        { cache := ((spec.key,checksum),f.handlers.length) :: kept, handlers := f.handlers ++ [spec] })
    | .error e => (.error e,{ f with cache := kept })

end HandlerFactory

/-- A handler that a turn was given, after so many clears of the cache. -/
structure Issued where
  epoch : ℕ
  handed : Handed
  handler : HandlerId

/-- The routing of the turns, the factory and the handlers that it has given out. -/
structure HandlerState where
  routing : RoutingConfig
  factory : HandlerFactory := {}
  epoch : ℕ := 0
  issued : List Issued := []

inductive HandlerAct where
  | routing (a : Interleaving.Act Conn RoutingReq Choice World.EnvAct)
  | build (x : Conn) (constructed : Except Exn Unit)

/-- With a handler that was built. -/
def Issued.append (issued : List Issued) (epoch : ℕ) (handed : Handed) : Except Exn HandlerId → List Issued
  | .ok handler => issued ++ [⟨epoch,handed,handler⟩]
  | .error _ => issued

namespace HandlerState

/-- Step 10 of a turn that has been routed: build the handler. -/
def build (s : HandlerState) (handed : Handed) (constructed : Except Exn Unit) : HandlerState :=
  let epoch := if s.factory.clears handed.agent.spec handed.agent.checksum then s.epoch + 1 else s.epoch
  let (r,factory) := s.factory.build handed.agent.spec handed.agent.checksum constructed
  { routing := s.routing, factory := factory, epoch := epoch, issued := Issued.append s.issued epoch handed r }

def step (d : Deployment) (s : HandlerState) : HandlerAct → Option HandlerState
  | .routing a => (Interleaving.step (notedRouting d) s.routing a).map fun c => { s with routing := c }
  | .build x constructed => match s.routing.procs x with
    | some (.done (some handed)) => some (s.build handed constructed)
    | _ => none

end HandlerState

/-- Every row's checksum is that of its own content, one of the configurations involved. -/
def OnRecord (sha : Json → String) (involved : Set Json) (c : Catalogue) : Prop :=
  ∀ cfg ∈ c.configs, cfg.config ∈ involved ∧ cfg.checksum = sha cfg.config

/-- Reloads, and the answers for a scope, come from such tables, each from its own. -/
def FromTables (v : Validation) (sha : Json → String) (involved : Set Json) (s : HandlerState) :
    HandlerAct → Prop
  | .routing (.env (.reload r)) => ∃ c, OnRecord sha involved c ∧ c.reload v = some r
  | .routing (.call x (.db (.go pick))) => ∀ q ∈ (s.routing.nextCall x).bind Op.scoped,
      ∃ c, OnRecord sha involved c ∧ pick.config =
        (c.scopedConfig q.1 q.2.1 q.2.2).map fun cfg => (cfg.checksum,v.agentSpec cfg.config)
  | _ => True

/-- The configuration has this content. -/
def HasContent (v : Validation) (sha : Json → String) (content : Json) (checksum : String)
    (spec : AgentSpec) : Prop :=
  v.agentSpec content = some spec ∧ checksum = sha content

namespace HandlerCache

variable {P : String → AgentSpec → Prop} {d : Deployment} {f : HandlerFactory}

/-- The checksum determines the configuration. -/
def Determined (P : String → AgentSpec → Prop) : Prop :=
  ∀ checksum spec spec', P checksum spec → P checksum spec' → spec = spec'

/-- Every entry holds a handler that was built for it. -/
def Built (P : String → AgentSpec → Prop) (f : HandlerFactory) : Prop :=
  ∀ e ∈ f.cache, ∃ spec, f.handlers[e.2]? = some spec ∧ spec.key = e.1.1 ∧ P e.1.2 spec

theorem mem_of_find {ck : String × String} {handler : HandlerId} (h : f.find ck = some handler) :
    (ck,handler) ∈ f.cache := by
  obtain ⟨e,he,rfl⟩ := Option.map_eq_some_iff.mp h
  have hkey : e.1 = ck := by simpa using List.find?_some he
  exact hkey ▸ List.mem_of_find?_eq_some he

/-- What is found was built from the same specification. -/
theorem handler_of_find (hP : Determined P) (hf : Built P f) {spec : AgentSpec} {checksum : String}
    {handler : HandlerId} (hspec : P checksum spec) (h : f.find (spec.key,checksum) = some handler) :
    f.handlers[handler]? = some spec := by
  obtain ⟨spec',hhandler,-,hspec'⟩ := hf _ (mem_of_find h)
  rw [hP checksum spec spec' hspec hspec']
  exact hhandler

/-- What the factory has given out, and what it still remembers of it. -/
structure Consistent (P : String → AgentSpec → Prop) (f : HandlerFactory) (epoch : ℕ) (issued : List Issued) :
    Prop where
  built : Built P f
  meets : ∀ i ∈ issued, P i.handed.agent.checksum i.handed.agent.spec
  constructed : ∀ i ∈ issued, f.handlers[i.handler]? = some i.handed.agent.spec
  past : ∀ i ∈ issued, i.epoch ≤ epoch
  current : ∀ i ∈ issued, i.epoch = epoch →
    f.find (i.handed.agent.spec.key,i.handed.agent.checksum) = some i.handler
  same : ∀ i ∈ issued, ∀ j ∈ issued, i.epoch = j.epoch → i.handed.agent.spec.key = j.handed.agent.spec.key →
    i.handed.agent.checksum = j.handed.agent.checksum → i.handler = j.handler

theorem consistent_nil : Consistent P {} 0 [] := by
  refine ⟨?_,by simp,by simp,by simp,by simp,by simp⟩
  intro e he
  cases he

variable {epoch : ℕ} {issued : List Issued} {handed : Handed} {handler : HandlerId}

/-- Give out a handler that the factory then remembers. -/
theorem Consistent.issue (h : Consistent P f epoch issued) (hP : P handed.agent.checksum handed.agent.spec)
    (hbuilt : f.handlers[handler]? = some handed.agent.spec)
    (hfind : f.find (handed.agent.spec.key,handed.agent.checksum) = some handler) :
    Consistent P f epoch (issued ++ [⟨epoch,handed,handler⟩]) := by
  have hmem : ∀ {B : Issued → Prop}, (∀ i ∈ issued, B i) → B ⟨epoch,handed,handler⟩ →
      ∀ i ∈ issued ++ [⟨epoch,handed,handler⟩], B i := by
    intro B hold hnew i hi
    rcases List.mem_append.mp hi with hi | hi
    · exact hold i hi
    · exact List.mem_singleton.mp hi ▸ hnew
  have hagree : ∀ i ∈ issued, i.epoch = epoch → i.handed.agent.spec.key = handed.agent.spec.key →
      i.handed.agent.checksum = handed.agent.checksum → i.handler = handler := by
    intro i hi he hkey hsum
    have hi' := h.current i hi he
    rw [hkey,hsum] at hi'
    exact Option.some.inj (hi'.symm.trans hfind)
  refine ⟨h.built,hmem h.meets hP,hmem h.constructed hbuilt,hmem h.past (le_refl _),
    hmem h.current fun _ => hfind,hmem ?_ ?_⟩
  · exact fun i hi => hmem (h.same i hi) (hagree i hi)
  · exact hmem (fun j hj he hkey hsum => (hagree j hj he.symm hkey.symm hsum.symm).symm) fun _ _ _ => rfl

/-- The handlers stay as they are while the factory empties its cache. -/
theorem Consistent.cleared (h : Consistent P f epoch issued) :
    Consistent P { f with cache := [] } (epoch + 1) issued := by
  refine ⟨?_,h.meets,h.constructed,fun i hi => (h.past i hi).trans (Nat.le_succ _),?_,h.same⟩
  · intro e he
    cases he
  · intro i hi he
    have hpast := h.past i hi
    omega

/-- Build a handler that is not there. -/
theorem Consistent.constructed_new (h : Consistent P f epoch issued) {spec : AgentSpec} {checksum : String}
    (hP : P checksum spec) (hnone : f.find (spec.key,checksum) = none) :
    Consistent P { cache := ((spec.key,checksum),f.handlers.length) :: f.cache,
                   handlers := f.handlers ++ [spec] } epoch issued := by
  have hold : ∀ {n : HandlerId} {sp : AgentSpec}, f.handlers[n]? = some sp →
      (f.handlers ++ [spec])[n]? = some sp := by
    intro n sp hn
    rw [List.getElem?_append_left (List.getElem?_eq_some_iff.mp hn).1]
    exact hn
  refine ⟨?_,h.meets,fun i hi => hold (h.constructed i hi),h.past,?_,h.same⟩
  · intro e he
    rcases List.mem_cons.mp he with rfl | he
    · exact ⟨spec,by simp,rfl,hP⟩
    · obtain ⟨sp,hsp,hkey,hmeets⟩ := h.built e he
      exact ⟨sp,hold hsp,hkey,hmeets⟩
  · intro i hi he
    have hi' := h.current i hi he
    have hne : (spec.key,checksum) ≠ (i.handed.agent.spec.key,i.handed.agent.checksum) := by
      intro heq
      rw [← heq,hnone] at hi'
      cases hi'
    simp only [HandlerFactory.find,List.find?_cons,hne,decide_false]
    exact hi'

/-- A miss leaves the cache with room, and what is missing is missing still. -/
theorem Consistent.room (h : Consistent P f epoch issued) {spec : AgentSpec} {checksum : String}
    (hnone : f.find (spec.key,checksum) = none) :
    Consistent P { f with cache := if 64 < f.cache.length then [] else f.cache }
      (if f.clears spec checksum then epoch + 1 else epoch) issued ∧
    HandlerFactory.find { f with cache := if 64 < f.cache.length then [] else f.cache }
      (spec.key,checksum) = none := by
  by_cases hfull : 64 < f.cache.length
  · have hclears : f.clears spec checksum = true := by simp [HandlerFactory.clears,hnone,hfull]
    rw [if_pos hfull,if_pos hclears]
    exact ⟨h.cleared,rfl⟩
  · have hclears : ¬ f.clears spec checksum = true := by simp [HandlerFactory.clears,hfull]
    rw [if_neg hfull,if_neg hclears]
    exact ⟨h,hnone⟩

/-- One `build`. -/
theorem Consistent.build {s : HandlerState} (h : Consistent P s.factory s.epoch s.issued) (hD : Determined P)
    (hP : P handed.agent.checksum handed.agent.spec) (constructed : Except Exn Unit) :
    Consistent P (s.build handed constructed).factory (s.build handed constructed).epoch
      (s.build handed constructed).issued := by
  unfold HandlerState.build HandlerFactory.build
  cases hfind : s.factory.find (handed.agent.spec.key,handed.agent.checksum) with
  | some handler =>
    have hclears : ¬ s.factory.clears handed.agent.spec handed.agent.checksum = true := by
      simp [HandlerFactory.clears,hfind]
    rw [if_neg hclears]
    exact h.issue hP (handler_of_find hD h.built hP hfind) hfind
  | none =>
    obtain ⟨hkept,hnone⟩ := h.room hfind
    cases constructed with
    | ok u =>
      apply (hkept.constructed_new hP hnone).issue hP
      · simp
      · simp [HandlerFactory.find]
    | error e => exact hkept

/-- The rows of such tables have configurations that their checksum determines. -/
def Recorded (v : Validation) (sha : Json → String) (involved : Set Json) (checksum : String)
    (spec : AgentSpec) : Prop :=
  ∃ content ∈ involved, HasContent v sha content checksum spec

variable {v : Validation} {sha : Json → String} {involved : Set Json} {c : Catalogue}

theorem determined_recorded (hsha : Set.InjOn sha involved) : Determined (Recorded v sha involved) := by
  rintro checksum spec spec' ⟨content,hin,hspec,hsum⟩ ⟨content',hin',hspec',hsum'⟩
  obtain rfl := hsha hin hin' (hsum.symm.trans hsum')
  exact Option.some.inj (hspec.symm.trans hspec')

theorem recorded_reload {r : AgentRegistry} (hc : OnRecord sha involved c) (hr : c.reload v = some r) :
    ∀ a ∈ r.snapshot, Recorded v sha involved a.checksum a.spec := by
  intro a ha
  obtain ⟨row,cfg,spec,hrow,hspec,rfl⟩ := (Catalogue.mem_snapshot hr).mp ha
  obtain ⟨-,-,hdefault⟩ := Catalogue.mem_reloadRows.mp hrow
  have hcfg : cfg ∈ c.configs := List.mem_of_mem_filter (List.mem_of_find?_eq_some hdefault)
  exact ⟨cfg.config,(hc cfg hcfg).1,hspec,(hc cfg hcfg).2⟩

theorem recorded_scoped {agent : AgentId} {tenant organization checksum : String} {spec : AgentSpec}
    (hc : OnRecord sha involved c) (h : (c.scopedConfig agent tenant organization).map
      (fun cfg => (cfg.checksum,v.agentSpec cfg.config)) = some (checksum,some spec)) :
    Recorded v sha involved checksum spec := by
  obtain ⟨cfg,hcfg,heq⟩ := Option.map_eq_some_iff.mp h
  obtain ⟨rfl,hspec⟩ := Prod.mk.inj heq
  have hrow := List.mem_of_mem_filter (ScopedSelection.mem_of_resolve hcfg)
  have hmem : cfg ∈ c.configs := List.mem_of_mem_filter hrow
  exact ⟨cfg.config,(hc cfg hmem).1,hspec,(hc cfg hmem).2⟩

/-- Such reloads and answers bring such configurations. -/
theorem permitted {s : HandlerState} {a : Interleaving.Act Conn RoutingReq Choice World.EnvAct}
    (h : FromTables v sha involved s (.routing a)) :
    ScopeCache.Permitted (Recorded v sha involved) False s.routing a := by
  refine ⟨?_,False.elim⟩
  unfold Brings
  split
  · obtain ⟨c,hc,hr⟩ := h
    exact recorded_reload hc hr
  · intro q hq checksum spec hpick
    obtain ⟨c,hc,hanswer⟩ := h q hq
    exact recorded_scoped hc (hanswer.symm.trans hpick)
  · trivial

/-- The state of the turns and of the factory. -/
structure Inv (v : Validation) (sha : Json → String) (involved : Set Json) (d : Deployment)
    (w : World × Reads) (s : HandlerState) : Prop where
  routed : Reach (Interleaving.step (notedRouting d))
    (ScopeCache.Permitted (Recorded v sha involved) False) (idle w) s.routing
  consistent : Consistent (Recorded v sha involved) s.factory s.epoch s.issued

theorem inv_step {w : World × Reads} {s s' : HandlerState} {a : HandlerAct}
    (hsha : Set.InjOn sha involved) (hcache : w.1.scopeCache = [])
    (hregistry : ∀ a ∈ w.1.registry.snapshot, Recorded v sha involved a.checksum a.spec)
    (h : Inv v sha involved d w s) (hok : FromTables v sha involved s a) (hs : s.step d a = some s') :
    Inv v sha involved d w s' := by
  cases a with
  | routing a =>
    obtain ⟨c,hc,rfl⟩ := Option.map_eq_some_iff.mp hs
    exact ⟨h.routed.next (permitted hok) hc,h.consistent⟩
  | build x constructed =>
    simp only [HandlerState.step] at hs
    split at hs
    · rename_i handed hx
      have hP : Recorded v sha involved handed.agent.checksum handed.agent.spec :=
        ((ScopeCache.handedOver_of_reach hcache hregistry h.routed).2 x handed hx).meets
      obtain rfl := Option.some.inj hs
      exact ⟨h.routed,h.consistent.build (determined_recorded hsha) hP constructed⟩
    · cases hs

end HandlerCache

open HandlerCache

namespace HandlerCache

def checksumOf (content : Json) : String :=
  if (Sample.readSpec content).any fun spec => spec.access.tenantCodes = [] then "a" else "b"

/-- The configurations of the tables. -/
def contents : Set Json := {Sample.config [] true,Sample.config ["acme"] true}

theorem injOn_checksumOf : Set.InjOn checksumOf contents := by
  have hne : checksumOf (Sample.config [] true) ≠ checksumOf (Sample.config ["acme"] true) := by decide
  rintro content (rfl | rfl) content' (rfl | rfl) h
  · rfl
  · exact absurd h hne
  · exact absurd h.symm hne
  · rfl

theorem onRecord_tables : OnRecord checksumOf contents (Sample.tables ["acme"]) := by
  intro cfg hcfg
  rcases List.mem_pair.mp hcfg with rfl | rfl
  · exact ⟨.inl rfl,by decide⟩
  · exact ⟨.inr rfl,by decide⟩

/-- What the tables answer for a scope. -/
def onRecord (q : AgentId × String × String) : Option (String × Option AgentSpec) :=
  ((Sample.tables ["acme"]).scopedConfig q.1 q.2.1 q.2.2).map fun cfg =>
    (cfg.checksum,Sample.readSpec cfg.config)

def reloads : HandlerAct → Bool
  | .routing (.env (.reload _)) => true
  | _ => false

def picked : HandlerAct → Option (Conn × Pick)
  | .routing (.call x (.db (.go pick))) => some (x,pick)
  | _ => none

/-- Every answer for a scope is that of the tables, and nothing is reloaded. -/
def Answered (s : HandlerState) (a : HandlerAct) : Prop :=
  reloads a = false ∧ ∀ p ∈ picked a, ∀ q ∈ (s.routing.nextCall p.1).bind Op.scoped, p.2.config = onRecord q

instance (s : HandlerState) (a : HandlerAct) : Decidable (Answered s a) :=
  inferInstanceAs (Decidable (_ ∧ _))

theorem fromTables_of_answered {s : HandlerState} {a : HandlerAct} (h : Answered s a) :
    FromTables Sample.validation checksumOf contents s a := by
  unfold FromTables
  split
  · exact absurd h.1 (by simp [reloads])
  · exact fun q hq => ⟨Sample.tables ["acme"],onRecord_tables,h.2 _ rfl q hq⟩
  · trivial

/-- A turn of a tenant that names the agent, up to the resolution's lookup. -/
def turn (x : Conn) (tenant : String) : List HandlerAct := [
  .routing (.start x (.turn { id := x, tenantCode := tenant, externalUserId := "user", createdAt := 0 } {
    conversationId := some x
    user := { userId := "user", tenantCode := tenant }
    text := .str "hello"
    agentKey := some (.str "assistant") })),
  .routing (.call x .ok),.routing (.call x .ok),.routing (.call x .ok)]

/-- What follows a lookup that finds nothing. -/
def missed (x : Conn) (tenant : String) : List HandlerAct := [
  .routing (.call x (.db (.go { config := onRecord (1,tenant,"default") }))),.routing (.call x .ok)]

/-- A turn of "acme", one of "beta", and another of "acme". -/
def turns : List HandlerAct :=
  turn 0 "acme" ++ missed 0 "acme" ++ [.build 0 (.ok ())] ++ turn 1 "beta" ++ missed 1 "beta" ++
    [.build 1 (.ok ())] ++ turn 2 "acme" ++ [.build 2 (.ok ())]

def booted : World × Reads := ({ Sample.world with registry := Sample.registry },{})

end HandlerCache

end Saarathi
