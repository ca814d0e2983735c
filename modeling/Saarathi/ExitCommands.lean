import Saarathi.CaseMapping
import Saarathi.Routing

/-!
# Exit commands

What `_normalise_command` keeps of the whitespace and the punctuation around a
message, and when it finds a decorated exit command all the same.
-/

namespace Saarathi
namespace RouterService

open Stripping

/-- Whitespace or command punctuation. -/
def decoration (c : Char) : Bool := Text.isSpace c || commandPunctuation.toList.contains c

def punctuation (c : Char) : Bool := commandPunctuation.toList.contains c

/-- The command that a message is, whatever it is decorated with. -/
def command (lower : String → String) (text : String) : String :=
  Text.collapse (lower (String.ofList (Text.stripList decoration text.toList)))

/-- What the two strips, of whitespace and then of punctuation, leave of the decoration before a message. -/
def leftBefore (s : List Char) : List Char :=
  ((leading decoration s).dropWhile Text.isSpace).dropWhile punctuation

/-- What they leave of the decoration after it. -/
def leftAfter (s : List Char) : List Char :=
  ((trailing decoration s).rdropWhile Text.isSpace).rdropWhile punctuation

/-- The decoration that the two strips leave at both ends of a message, with its whitespace collapsed;
a message of nothing else has it all at one end. -/
def leftover (text : String) : List Char × List Char :=
  if core decoration text.toList = [] then
    (Text.squeezed (core punctuation (core Text.isSpace text.toList)),[])
  else (Text.squeeze true (leftBefore text.toList),(Text.squeeze false (leftAfter text.toList)).rdropWhile Text.isSpace)

variable {m : CaseTable} {text kw : String} {s : List Char}

theorem isSpace_of_decoration : ∀ c, decoration c = false → Text.isSpace c = false := by
  intro c hc
  simp only [decoration,Bool.or_eq_false_iff] at hc
  exact hc.1

theorem punctuation_of_decoration : ∀ c, decoration c = false → punctuation c = false := by
  intro c hc
  simp only [decoration,Bool.or_eq_false_iff] at hc
  exact hc.2

theorem leftBefore_mem : ∀ c ∈ leftBefore s, decoration c = true := fun _ hc =>
  leading_mem _ ((List.dropWhile_sublist _).subset ((List.dropWhile_sublist _).subset hc))

theorem leftAfter_mem : ∀ c ∈ leftAfter s, decoration c = true := fun _ hc =>
  trailing_mem _ ((List.rdropWhile_prefix _ _).subset ((List.rdropWhile_prefix _ _).subset hc))

theorem squeeze_decoration {blank : Bool} (h : ∀ c ∈ s, decoration c = true) :
    ∀ c ∈ Text.squeeze blank s, punctuation c = true := by
  intro c hc
  rcases Text.mem_squeeze c hc with rfl | ⟨hmem,hspace⟩
  · decide
  · have hdecoration := h c hmem
    rwa [decoration,hspace,Bool.false_or] at hdecoration

theorem decoration_of_punctuation : ∀ c, punctuation c = true → decoration c = true := by
  intro c hc
  rw [decoration,Bool.or_eq_true]
  exact .inr hc

theorem decoration_of_core_eq_nil (hnil : core decoration s = []) : ∀ c ∈ s, decoration c = true := by
  intro c hc
  rw [← parts decoration s,hnil,List.append_nil] at hc
  rcases List.mem_append.mp hc with hc | hc
  · exact leading_mem c hc
  · exact trailing_mem c hc

theorem toList_normaliseCommand : (normaliseCommand m.lowered text).toList =
    Text.squeezed (m.lowerFrom [] (core punctuation (core Text.isSpace text.toList))) := by
  rw [normaliseCommand,Text.toList_collapse,CaseTable.lowered,String.toList_ofList,Text.stripChars,
    String.toList_ofList,Text.strip,String.toList_ofList]
  rfl

theorem toList_command : (command m.lowered text).toList =
    Text.squeezed (m.lowerFrom [] (core decoration text.toList)) := by
  rw [command,Text.toList_collapse,CaseTable.lowered,String.toList_ofList,String.toList_ofList]
  rfl

section Cut

variable (h : m.Apart decoration)

include h

theorem command_eq_nil_iff : (command m.lowered text).toList = [] ↔ core decoration text.toList = [] := by
  rw [toList_command]
  constructor
  · intro hnil
    by_contra hne
    obtain ⟨hne',hbare⟩ := h.bare_lowerFrom bare_core hne
    obtain ⟨hsq,hbare'⟩ := Text.squeeze_bare isSpace_of_decoration hbare hne'
    rw [Text.squeezed_eq_squeeze (hbare'.imp isSpace_of_decoration)] at hnil
    exact hsq hnil
  · intro hnil
    rw [hnil]
    rfl

variable (text) in
/-- The command begins and ends with what is no decoration. -/
theorem bare_command : Bare decoration (command m.lowered text).toList := by
  by_cases hne : core decoration text.toList = []
  · rw [(command_eq_nil_iff h).mpr hne]
    exact Bare.of_forall (by simp)
  obtain ⟨hne',hbare⟩ := h.bare_lowerFrom bare_core hne
  obtain ⟨-,hbare'⟩ := Text.squeeze_bare isSpace_of_decoration hbare hne'
  rw [toList_command,Text.squeezed_eq_squeeze (hbare'.imp isSpace_of_decoration)]
  exact hbare'

/-- The two strips leave the command between what is left of its decoration. -/
theorem normaliseCommand_cut : (normaliseCommand m.lowered text).toList =
    (leftover text).1 ++ (command m.lowered text).toList ++ (leftover text).2 := by
  rw [toList_normaliseCommand,toList_command]
  by_cases hne : core decoration text.toList = []
  · have hkept : ∀ c ∈ core punctuation (core Text.isSpace text.toList), decoration c = true :=
      fun c hc => decoration_of_core_eq_nil hne c (core_subset (core_subset hc))
    rw [leftover,if_pos hne,hne,h.lowerFrom_marks [] _ hkept]
    simp [CaseTable.lowerFrom,Text.squeezed,Text.squeeze]
  obtain ⟨hne',hbare⟩ := h.bare_lowerFrom bare_core hne
  have hspace : Bare Text.isSpace (core decoration text.toList) := bare_core.imp isSpace_of_decoration
  have hpunct : Bare punctuation (core decoration text.toList) := bare_core.imp punctuation_of_decoration
  have hstrips : core punctuation (core Text.isSpace text.toList) =
      leftBefore text.toList ++ core decoration text.toList ++ leftAfter text.toList := by
    rw [leftBefore,leftAfter,← core_append hpunct hne,← core_append hspace hne,parts]
  rw [leftover,if_neg hne,hstrips,h.lowerFrom_between leftBefore_mem leftAfter_mem,
    Text.squeezed_between (hbare.imp isSpace_of_decoration) hne']

end Cut

variable (text) in
/-- What is left of the decoration is punctuation and blanks. -/
theorem leftover_punctuation : (∀ c ∈ (leftover text).1, punctuation c = true) ∧
    ∀ c ∈ (leftover text).2, punctuation c = true := by
  by_cases hne : core decoration text.toList = []
  · rw [leftover,if_pos hne]
    dsimp only
    refine ⟨fun c hc => ?_,by simp⟩
    have hall : ∀ d ∈ core punctuation (core Text.isSpace text.toList), decoration d = true := by
      intro d hd
      exact decoration_of_core_eq_nil hne d (core_subset (core_subset hd))
    have hmem := Text.squeezed_subset hc
    exact squeeze_decoration hall c hmem
  · rw [leftover,if_neg hne]
    dsimp only
    refine ⟨squeeze_decoration leftBefore_mem,fun c hc => ?_⟩
    have hmem := (List.rdropWhile_prefix Text.isSpace _).subset hc
    exact squeeze_decoration leftAfter_mem c hmem

theorem leftover_snd (h : m.Apart decoration) (hnil : (command m.lowered text).toList = []) :
    (leftover text).2 = [] := by
  rw [leftover,if_pos ((command_eq_nil_iff h).mp hnil)]

/-- Two messages have one normal form when they are one command with the same decoration left. -/
theorem normaliseCommand_eq_iff (h : m.Apart decoration) :
    normaliseCommand m.lowered text = normaliseCommand m.lowered kw ↔
      command m.lowered text = command m.lowered kw ∧ leftover text = leftover kw := by
  rw [← String.toList_inj,← String.toList_inj,normaliseCommand_cut h,normaliseCommand_cut h]
  constructor
  · intro heq
    have hmarks := fun s => And.imp (fun h c hc => decoration_of_punctuation c (h c hc))
      (fun h c hc => decoration_of_punctuation c (h c hc)) (leftover_punctuation s)
    obtain ⟨hu,hv⟩ := hmarks text
    obtain ⟨hu',hv'⟩ := hmarks kw
    obtain ⟨hleft,hcommand,hright⟩ := cut_unique (bare_command _ h) (bare_command _ h) hu hv hu' hv' (leftover_snd h)
      (leftover_snd h) heq
    exact ⟨hcommand,Prod.ext hleft hright⟩
  · rintro ⟨hcommand,hleft⟩
    rw [hcommand,hleft]

theorem leftover_eq_nil_iff (h : m.Apart decoration) :
    normaliseCommand m.lowered text = command m.lowered text ↔ leftover text = ([],[]) := by
  rw [← String.toList_inj,normaliseCommand_cut h]
  constructor
  · intro heq
    have hlength := congrArg List.length heq
    simp only [List.length_append] at hlength
    exact Prod.ext (List.length_eq_zero_iff.mp (by omega)) (List.length_eq_zero_iff.mp (by omega))
  · intro hnil
    rw [hnil]
    simp

/-- The two strips take all of its decoration off a normal form. -/
theorem core_normaliseCommand (h : m.Apart decoration) :
    core punctuation (core Text.isSpace (normaliseCommand m.lowered text).toList) =
      (command m.lowered text).toList := by
  have hbare := bare_command text h
  obtain ⟨hu,hv⟩ := leftover_punctuation text
  rw [normaliseCommand_cut h]
  by_cases hne : (command m.lowered text).toList = []
  · rw [hne,leftover_snd h hne,List.append_nil,List.append_nil]
    exact core_of_forall fun c hc => hu c (core_subset hc)
  · rw [core_append (hbare.imp isSpace_of_decoration) hne]
    exact core_between (hbare.imp punctuation_of_decoration) (fun c hc => hu c ((List.dropWhile_sublist _).subset hc))
      (fun c hc => hv c ((List.rdropWhile_prefix _ _).subset hc))

/-- A command is its own normal form. -/
theorem lowerFrom_command (h : m.Apart decoration) :
    Text.squeezed (m.lowerFrom [] (command m.lowered text).toList) = (command m.lowered text).toList := by
  have hsettled : ∀ c ∈ (command m.lowered text).toList, m.lower c = [c] ∧ c ≠ 'Σ' := by
    intro c hc
    rw [toList_command] at hc
    rcases Text.mem_squeeze c (Text.squeezed_subset hc) with rfl | ⟨hmem,-⟩
    · exact ⟨(h.mark ' ' (by decide)).1,by decide⟩
    · exact h.settled_lowerFrom c hmem
  have hbare := (bare_command text h).imp isSpace_of_decoration
  rw [CaseTable.lowerFrom_of_settled hsettled]
  by_cases hne : core decoration text.toList = []
  · rw [(command_eq_nil_iff h).mpr hne]
    rfl
  obtain ⟨hne',hlower⟩ := h.bare_lowerFrom bare_core hne
  obtain ⟨-,hsqueezed⟩ := Text.squeeze_bare isSpace_of_decoration hlower hne'
  have hcommand : (command m.lowered text).toList = Text.squeeze true (m.lowerFrom [] (core decoration text.toList)) := by
    rw [toList_command,Text.squeezed_eq_squeeze (hsqueezed.imp isSpace_of_decoration)]
  rw [hcommand] at hbare ⊢
  rw [Text.squeezed_eq_squeeze (by rwa [Text.squeeze_squeeze]),Text.squeeze_squeeze]

theorem normaliseCommand_again (h : m.Apart decoration) :
    normaliseCommand m.lowered (normaliseCommand m.lowered text) = command m.lowered text := by
  rw [← String.toList_inj,toList_normaliseCommand,core_normaliseCommand h,lowerFrom_command h]

theorem normaliseCommand_blank (hblank : Text.strip kw = "") : normaliseCommand m.lowered kw = "" := by
  rw [normaliseCommand,hblank]
  rfl

theorem isExit_singleton_iff : isExit m.lowered text [kw] = true ↔
    normaliseCommand m.lowered text ≠ "" ∧ normaliseCommand m.lowered text = normaliseCommand m.lowered kw := by
  rw [isExit]
  by_cases hempty : normaliseCommand m.lowered text = ""
  · simp [hempty]
  · by_cases hblank : Text.strip kw = ""
    · simp [hempty,hblank,normaliseCommand_blank hblank]
    · simp [hempty,hblank]

/-- A message is told from a keyword by more than its command, or is told apart from nothing, in
what the strips leave of their decoration. -/
def ToldAlike (lower : String → String) (text kw : String) : Prop :=
  command lower text = command lower kw →
    if command lower text = "" then leftover text = ([],[]) ∨ leftover text ≠ leftover kw
    else leftover text = leftover kw

theorem normaliseCommand_eq_empty_iff (h : m.Apart decoration) :
    normaliseCommand m.lowered text = "" ↔ command m.lowered text = "" ∧ leftover text = ([],[]) := by
  rw [← String.toList_eq_nil_iff,normaliseCommand_cut h,List.append_eq_nil_iff,List.append_eq_nil_iff,
    String.toList_eq_nil_iff,Prod.ext_iff]
  constructor
  · rintro ⟨⟨hleft,hcommand⟩,hright⟩
    exact ⟨hcommand,hleft,hright⟩
  · rintro ⟨hcommand,hleft,hright⟩
    exact ⟨⟨hleft,hcommand⟩,hright⟩

instance {lower : String → String} : Decidable (ToldAlike lower text kw) :=
  inferInstanceAs (Decidable (command lower text = command lower kw →
    if command lower text = "" then leftover text = ([],[]) ∨ leftover text ≠ leftover kw
    else leftover text = leftover kw))

/-- Exit matching sees through the decoration of a message and a keyword exactly where the two strips
leave the same of it on one command, and none of it on a message of nothing else, unless the keyword
has other decoration left; and a second normalisation changes nothing exactly where they leave none. -/
theorem exit_decoration_iff {m : CaseTable} (h : m.Apart decoration) (text kw : String) :
    ((isExit m.lowered text [kw] = true ↔
        command m.lowered text ≠ "" ∧ command m.lowered text = command m.lowered kw) ↔
      ToldAlike m.lowered text kw) ∧
    (normaliseCommand m.lowered (normaliseCommand m.lowered text) = normaliseCommand m.lowered text ↔
      leftover text = ([],[])) := by
  constructor
  · rw [isExit_singleton_iff,normaliseCommand_eq_iff h,Ne,normaliseCommand_eq_empty_iff h,ToldAlike]
    generalize command m.lowered text = command₁
    generalize command m.lowered kw = command₂
    generalize leftover text = left₁
    generalize leftover kw = left₂
    by_cases hcommand : command₁ = command₂
    · subst hcommand
      by_cases hempty : command₁ = ""
      · simp only [hempty,if_true,ne_eq,not_true,false_and,iff_false,true_and]
        tauto
      · simp [hempty]
    · simp [hcommand]
  · rw [normaliseCommand_again h,← leftover_eq_nil_iff h,eq_comm]

def capitals : List (Char × Char) :=
  "ABCDEFGHIJKLMNOPQRSTUVWXYZΣ".toList.zip "abcdefghijklmnopqrstuvwxyzσ".toList

/-- Lower-casing of the letters of ASCII, and of sigma. -/
def ascii : CaseTable where
  lower c := [((capitals.find? (·.1 = c)).map (·.2)).getD c]
  cased c := capitals.any (fun p => p.1 = c || p.2 = c) || c = 'ς'
  ignorable c := ['.','\'',':','`','^'].contains c

theorem capitals_apart : ∀ p ∈ capitals, decoration p.1 = false ∧ decoration p.2 = false ∧
    ascii.lower p.2 = [p.2] ∧ p.2 ≠ 'Σ' := by decide +kernel

theorem ascii_lower (c : Char) : (∃ p ∈ capitals, p.1 = c ∧ ascii.lower c = [p.2]) ∨
    (∀ p ∈ capitals, p.1 ≠ c) ∧ ascii.lower c = [c] := by
  cases hfind : capitals.find? (·.1 = c) with
  | some p =>
    have hp : p.1 = c := by simpa using List.find?_some hfind
    exact .inl ⟨p,List.mem_of_find?_eq_some hfind,hp,by simp [ascii,hfind]⟩
  | none =>
    refine .inr ⟨fun p hp => ?_,by simp [ascii,hfind]⟩
    simpa using List.find?_eq_none.mp hfind p hp

theorem ascii_apart : ascii.Apart decoration where
  mark c hc := by
    have hne : ∀ p ∈ capitals, p.1 ≠ c ∧ p.2 ≠ c := by
      intro p hp
      obtain ⟨h₁,h₂,-⟩ := capitals_apart p hp
      constructor
      · rintro rfl
        simp [h₁] at hc
      · rintro rfl
        simp [h₂] at hc
    constructor
    · rcases ascii_lower c with ⟨p,hp,rfl,-⟩ | ⟨-,h⟩
      · exact absurd rfl (hne p hp).1
      · exact h
    · have hsigma : c ≠ 'ς' := by
        rintro rfl
        revert hc
        decide
      simp only [ascii,Bool.or_eq_false_iff,List.any_eq_false,decide_eq_false_iff_not,Bool.or_eq_true,
        decide_eq_true_eq,not_or]
      exact ⟨hne,hsigma⟩
  letter c hc := by
    rcases ascii_lower c with ⟨p,hp,rfl,h⟩ | ⟨-,h⟩
    · rw [h]
      simpa using (capitals_apart p hp).2.1
    · rw [h]
      simpa using hc
  settled c d hd := by
    rcases ascii_lower c with ⟨p,hp,rfl,h⟩ | ⟨hall,h⟩
    · rw [h,List.mem_singleton] at hd
      rw [hd]
      exact (capitals_apart p hp).2.2
    · rw [h,List.mem_singleton] at hd
      subst hd
      refine ⟨h,?_⟩
      rintro rfl
      exact hall ('Σ','σ') (by decide +kernel) rfl
  sigma := by
    refine ⟨by decide +kernel,fun c hc => ?_⟩
    rcases List.mem_pair.mp hc with rfl | rfl <;> decide +kernel

/-- A command with punctuation and whitespace around it is found. -/
theorem exit_decoration_iff_exclaimed : isExit ascii.lowered " Cancel! " ["cancel"] = true ∧
    normaliseCommand ascii.lowered (normaliseCommand ascii.lowered " Cancel! ") =
      normaliseCommand ascii.lowered " Cancel! " := by
  obtain ⟨hexit,hagain⟩ := exit_decoration_iff ascii_apart " Cancel! " "cancel"
  exact ⟨(hexit.mpr (by decide +kernel)).mpr (by decide +kernel),hagain.mpr (by decide +kernel)⟩

/-- A no-break space between two marks keeps the second mark, so the command is missed. -/
theorem exit_decoration_missed : ascii.Apart decoration ∧
    command ascii.lowered "!\u00a0!cancel" = "cancel" ∧ command ascii.lowered "cancel" = "cancel" ∧
    isExit ascii.lowered "!\u00a0!cancel" ["cancel"] = false ∧
    normaliseCommand ascii.lowered (normaliseCommand ascii.lowered "!\u00a0!cancel") ≠
      normaliseCommand ascii.lowered "!\u00a0!cancel" := by
  refine ⟨ascii_apart,?_,?_,?_,?_⟩ <;> decide +kernel

end RouterService
end Saarathi
