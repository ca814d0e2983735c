import Mathlib.Data.List.DropRight
import Saarathi.RestClient

/-!
# The endpoint of a finalisation

The request that `finalize` sends for a finalize path, beside the configured
endpoints that the path is compared with.
-/

namespace Saarathi

/-- The finalize part of Mitra's REST surface. -/
structure MitraPaths where
  finalizeV1 : String := "/api/end-story/"
  finalizeV2 : String := "/api/end-story/v2/"
  deriving DecidableEq

inductive FinalizeVersion where
  | v1
  | v2
  deriving DecidableEq

namespace MitraPaths

variable (paths : MitraPaths)

def endpoint : FinalizeVersion → String
  | .v1 => paths.finalizeV1
  | .v2 => paths.finalizeV2

/-- `path.strip("/")`. -/
def bare (path : String) : String := Text.stripChars "/" path

def isV2Finalize (path : String) : Bool := bare path == bare paths.finalizeV2

def isKnownFinalize (path : String) : Bool := [bare paths.finalizeV1,bare paths.finalizeV2].contains (bare path)

end MitraPaths

/-- A POST of `_request`; the URL is what it is sent to. -/
structure MitraRequest where
  url : String
  json : List (String × Json)
  headers : List (String × String) := []

namespace MitraRestClient

/-- `f"{token}"`. -/
def tokenText : Option String → String
  | none => "None"
  | some token => token

def tokenJson : Option String → Json
  | none => .null
  | some token => .str token

/-- `base_url.rstrip("/")`. -/
def rstripSlash (baseUrl : String) : String := String.ofList (baseUrl.toList.rdropWhile (· = '/'))

/-- The path that a finalisation uses. -/
def sentPath (paths : MitraPaths) (path : String) : String := if path = "" then paths.finalizeV2 else path

def finalizePayload (story : EndStory) : List (String × Json) :=
  [("session",tokenJson story.remoteSessionId),("profile_id",tokenJson story.remoteProfileId),
    ("stage",.str "COMPLETED"),("flow",.str story.flow),("language",.str story.language)]

/-- The request of `finalize`. -/
def finalizeRequest (baseUrl : String) (paths : MitraPaths) (story : EndStory) : MitraRequest :=
  let path := sentPath paths story.path
  let url := rstripSlash baseUrl ++ path
  if paths.isV2Finalize path then
    { url := url
      json := finalizePayload story
      headers := if story.asGuest then [] else [("Authorization","Bearer " ++ tokenText story.token)] }
  else
    { url := url
      json := finalizePayload story ++
        [("access_token",if story.asGuest then .null else tokenJson story.token)] }

/-- The user's token is where the endpoint reads it, and nowhere for a guest. -/
def Placed (story : EndStory) (r : MitraRequest) (v : FinalizeVersion) : Prop :=
  if story.asGuest then
    r.headers.lookup "Authorization" = none ∧ (r.json.lookup "access_token").getD .null = .null
  else match v with
    | .v1 => r.headers.lookup "Authorization" = none ∧ r.json.lookup "access_token" = some (tokenJson story.token)
    | .v2 => r.headers.lookup "Authorization" = some ("Bearer " ++ tokenText story.token) ∧
        r.json.lookup "access_token" = none

/-- The request goes to the endpoint that the finalize path names, as that endpoint reads it. -/
def Reaches (baseUrl : String) (paths : MitraPaths) (story : EndStory) : Prop :=
  ∃ v, MitraPaths.bare story.path = MitraPaths.bare (paths.endpoint v) ∧
    (finalizeRequest baseUrl paths story).url = rstripSlash baseUrl ++ paths.endpoint v ∧
    Placed story (finalizeRequest baseUrl paths story) v

/-- The finalize path is an endpoint as it is configured, with its slashes, and the first one is told
from the second; only where the second is nothing but slashes can the path be left out. -/
def Written (paths : MitraPaths) (story : EndStory) : Prop :=
  if story.path = "" then MitraPaths.bare paths.finalizeV2 = ""
  else story.path = paths.finalizeV2 ∨ story.path = paths.finalizeV1 ∧
    (story.asGuest = true ∨ MitraPaths.bare paths.finalizeV1 ≠ MitraPaths.bare paths.finalizeV2)

instance {paths : MitraPaths} {story : EndStory} : Decidable (Written paths story) :=
  inferInstanceAs (Decidable (if story.path = "" then MitraPaths.bare paths.finalizeV2 = ""
    else story.path = paths.finalizeV2 ∨ story.path = paths.finalizeV1 ∧
      (story.asGuest = true ∨ MitraPaths.bare paths.finalizeV1 ≠ MitraPaths.bare paths.finalizeV2)))

section Requests

variable {baseUrl : String} {paths : MitraPaths} {story : EndStory}

theorem bare_empty : MitraPaths.bare "" = "" := rfl

theorem finalizeRequest_url :
    (finalizeRequest baseUrl paths story).url = rstripSlash baseUrl ++ sentPath paths story.path := by
  unfold finalizeRequest
  dsimp only
  split <;> rfl

theorem url_eq_iff {v : FinalizeVersion} :
    (finalizeRequest baseUrl paths story).url = rstripSlash baseUrl ++ paths.endpoint v ↔
      sentPath paths story.path = paths.endpoint v := by
  rw [finalizeRequest_url]
  exact String.append_right_inj _

/-- The token is placed for the second endpoint exactly where the path sent is taken for it. -/
theorem placed_iff {v : FinalizeVersion} : Placed story (finalizeRequest baseUrl paths story) v ↔
    story.asGuest = true ∨ (v = .v2 ↔ paths.isV2Finalize (sentPath paths story.path) = true) := by
  unfold Placed finalizeRequest
  dsimp only
  by_cases hguest : story.asGuest = true
  · simp only [hguest,if_true,true_or,iff_true]
    split
    · exact ⟨rfl,rfl⟩
    · exact ⟨rfl,rfl⟩
  · simp only [hguest,Bool.false_eq_true,if_false,false_or]
    cases v with
    | v1 =>
      by_cases hv2 : paths.isV2Finalize (sentPath paths story.path) = true
      · simp [hv2]
      · simp [hv2,finalizePayload,List.lookup_cons]
    | v2 =>
      by_cases hv2 : paths.isV2Finalize (sentPath paths story.path) = true
      · simp [hv2,finalizePayload,List.lookup_cons]
      · simp [hv2]

theorem isV2Finalize_iff {path : String} :
    paths.isV2Finalize path = true ↔ MitraPaths.bare path = MitraPaths.bare paths.finalizeV2 := beq_iff_eq

theorem isKnownFinalize_iff {path : String} : paths.isKnownFinalize path = true ↔
    ∃ v, MitraPaths.bare path = MitraPaths.bare (paths.endpoint v) := by
  rw [MitraPaths.isKnownFinalize,List.contains_iff_mem]
  constructor
  · intro h
    rcases List.mem_pair.mp h with h | h
    · exact ⟨.v1,h⟩
    · exact ⟨.v2,h⟩
  · rintro ⟨v,h⟩
    cases v with
    | v1 => exact List.mem_pair.mpr (.inl h)
    | v2 => exact List.mem_pair.mpr (.inr h)

variable (baseUrl) in
theorem reaches_iff : Reaches baseUrl paths story ↔ Written paths story := by
  unfold Reaches Written
  simp only [url_eq_iff,placed_iff,isV2Finalize_iff]
  by_cases hempty : story.path = ""
  · rw [if_pos hempty,sentPath,if_pos hempty,hempty,bare_empty]
    constructor
    · rintro ⟨v,hnamed,hsent,-⟩
      rw [hsent,hnamed]
    · intro hbare
      exact ⟨.v2,hbare.symm,rfl,.inr (iff_of_true rfl rfl)⟩
  · rw [if_neg hempty,sentPath,if_neg hempty]
    constructor
    · rintro ⟨v,hnamed,hsent,hplaced⟩
      cases v with
      | v1 =>
        refine .inr ⟨hsent,hplaced.imp_right fun h hsame => ?_⟩
        have hv2 := h.mpr (hnamed.trans hsame)
        cases hv2
      | v2 => exact .inl hsent
    · rintro (hsent | ⟨hsent,hplaced⟩)
      · exact ⟨.v2,congrArg _ hsent,hsent,.inr (iff_of_true rfl (congrArg _ hsent))⟩
      · refine ⟨.v1,congrArg _ hsent,hsent,hplaced.imp_right fun h => ?_⟩
        refine iff_of_false nofun ?_
        rwa [hsent]

end Requests

/-- Whatever the base and the configured paths, a finalisation reaches the endpoint that its path names
exactly where the path is written as that endpoint is configured, and every such path is accepted. -/
theorem finalize_reaches_iff (baseUrl : String) (paths : MitraPaths) (story : EndStory) :
    (Reaches baseUrl paths story ↔ Written paths story) ∧
    (Written paths story → paths.isKnownFinalize story.path = true) := by
  refine ⟨reaches_iff _,fun hwritten => ?_⟩
  obtain ⟨v,hnamed,-⟩ := (reaches_iff baseUrl).mpr hwritten
  exact isKnownFinalize_iff.mpr ⟨v,hnamed⟩

def bareStory : EndStory where
  session := 1
  remoteSessionId := some "7"
  remoteProfileId := some "9"
  flow := "guest-mi-story"
  language := "en"
  token := some "t"
  path := "api/end-story/v2"
  asGuest := false

/-- A path without its slashes is accepted, and the request goes to another host. -/
theorem finalize_other_host :
    ({} : MitraPaths).isKnownFinalize bareStory.path = true ∧
    (finalizeRequest "https://mitra.example.com" {} bareStory).url = "https://mitra.example.comapi/end-story/v2" ∧
    ¬ Reaches "https://mitra.example.com" {} bareStory := by
  refine ⟨by decide +kernel,by decide +kernel,?_⟩
  rw [reaches_iff]
  decide +kernel

end MitraRestClient
end Saarathi
