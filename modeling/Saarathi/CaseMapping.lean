import Saarathi.Stripping
import Saarathi.Text

/-!
# Lower-casing and the words of a text

`str.lower` over a table of Unicode's case mapping, with its rule for a final
sigma, and the join of the words of a text as one scan.
-/

namespace Saarathi

/-- Unicode's lower-casing: the mapping of a code point, and the classes that tell a final sigma. -/
structure CaseTable where
  lower : Char → List Char
  cased : Char → Bool
  ignorable : Char → Bool

namespace CaseTable

variable (m : CaseTable)

/-- A cased letter comes next, but for what is ignored. -/
def nextCased (cs : List Char) : Bool := (cs.dropWhile m.ignorable).head?.any m.cased

/-- `str.lower`, from what has been read, in reverse, and what is left. -/
def lowerFrom (before : List Char) : List Char → List Char
  | [] => []
  | c :: cs =>
    (if c = 'Σ' then [if m.nextCased before && !m.nextCased cs then 'ς' else 'σ'] else m.lower c) ++
      lowerFrom (c :: before) cs

def lowered (s : String) : String := String.ofList (m.lowerFrom [] s.toList)

/-- The marks stand apart from the letters: they have no case, no letter is mapped to one of them, and
what a letter is mapped to is lower case. -/
structure Apart (marks : Char → Bool) : Prop where
  mark : ∀ c, marks c = true → m.lower c = [c] ∧ m.cased c = false
  letter : ∀ c, marks c = false → m.lower c ≠ [] ∧ ∀ d ∈ m.lower c, marks d = false
  settled : ∀ c, ∀ d ∈ m.lower c, m.lower d = [d] ∧ d ≠ 'Σ'
  sigma : marks 'Σ' = false ∧ ∀ c ∈ ['σ','ς'], marks c = false ∧ m.lower c = [c]

variable {m} {marks : Char → Bool} {before u v cs : List Char}

theorem nextCased_append (h : ∀ c ∈ v, m.cased c = false) : m.nextCased (cs ++ v) = m.nextCased cs := by
  unfold nextCased
  induction cs with
  | nil =>
    have hnone : (v.dropWhile m.ignorable).head?.any m.cased = false := by
      rw [Option.any_eq_false]
      intro c hc
      have hmem := (List.dropWhile_sublist m.ignorable).subset (List.mem_of_mem_head? hc)
      simp [h c hmem]
    simpa using hnone
  | cons c cs ih => by_cases hc : m.ignorable c = true <;> simp [hc,ih]

theorem lowerFrom_append : ∀ (before cs : List Char), (∀ c ∈ v, m.cased c = false) →
    m.lowerFrom before (cs ++ v) = m.lowerFrom before cs ++ m.lowerFrom (cs.reverse ++ before) v
  | before,[],_ => rfl
  | before,c :: cs,hv => by
    rw [List.cons_append,lowerFrom,lowerFrom,nextCased_append hv,lowerFrom_append (c :: before) cs hv,
      List.append_assoc,List.reverse_cons,List.append_assoc]
    rfl

/-- What has no case does not matter to what comes after it. -/
theorem lowerFrom_before : ∀ (before cs : List Char), (∀ c ∈ u, m.cased c = false) →
    m.lowerFrom (before ++ u) cs = m.lowerFrom before cs
  | before,[],_ => rfl
  | before,c :: cs,hu => by
    rw [lowerFrom,lowerFrom,nextCased_append hu,← List.cons_append,lowerFrom_before (c :: before) cs hu]

theorem Apart.lowerFrom_marks (h : m.Apart marks) : ∀ (before u : List Char), (∀ c ∈ u, marks c = true) →
    m.lowerFrom before u = u
  | before,[],_ => rfl
  | before,c :: u,hu => by
    have hc := hu c (List.mem_cons_self ..)
    have hne : c ≠ 'Σ' := by
      rintro rfl
      rw [h.sigma.1] at hc
      cases hc
    rw [lowerFrom,if_neg hne,(h.mark c hc).1,Apart.lowerFrom_marks h (c :: before) u fun d hd => hu d (by simp [hd])]
    rfl

/-- Marks around a text are left as they are, and the text is mapped as if it stood alone. -/
theorem Apart.lowerFrom_between (h : m.Apart marks) (hu : ∀ c ∈ u, marks c = true)
    (hv : ∀ c ∈ v, marks c = true) : m.lowerFrom [] (u ++ cs ++ v) = u ++ m.lowerFrom [] cs ++ v := by
  have hucased : ∀ c ∈ u.reverse, m.cased c = false := by
    intro c hc
    exact (h.mark c (hu c (List.mem_reverse.mp hc))).2
  have hvcased : ∀ c ∈ v, m.cased c = false := fun c hc => (h.mark c (hv c hc)).2
  have hsplit : ∀ (before u : List Char), (∀ c ∈ u, marks c = true) →
      m.lowerFrom before (u ++ cs) = u ++ m.lowerFrom (u.reverse ++ before) cs := by
    intro before u
    induction u generalizing before with
    | nil =>
      intro _
      rfl
    | cons c u ih =>
      intro hu
      have hc := hu c (List.mem_cons_self ..)
      have hne : c ≠ 'Σ' := by
        rintro rfl
        rw [h.sigma.1] at hc
        cases hc
      rw [List.cons_append,lowerFrom,if_neg hne,(h.mark c hc).1,ih (c :: before) fun d hd => hu d (by simp [hd])]
      simp
  have hfront := hsplit [] u hu
  have hbefore := lowerFrom_before (m := m) [] cs hucased
  rw [lowerFrom_append [] (u ++ cs) hvcased,h.lowerFrom_marks _ v hv,hfront,List.append_nil]
  exact congrArg (fun l => u ++ l ++ v) hbefore

/-- What a code point is mapped to where it stands. -/
theorem Apart.mapped (h : m.Apart marks) (before : List Char) (c : Char) (cs : List Char) :
    ∃ ds, m.lowerFrom before (c :: cs) = ds ++ m.lowerFrom (c :: before) cs ∧
      (∀ d ∈ ds, m.lower d = [d] ∧ d ≠ 'Σ') ∧ (marks c = false → ds ≠ [] ∧ ∀ d ∈ ds, marks d = false) := by
  by_cases hc : c = 'Σ'
  · refine ⟨[if m.nextCased before && !m.nextCased cs then 'ς' else 'σ'],by rw [lowerFrom,if_pos hc],?_,?_⟩
    · intro d hd
      rw [List.mem_singleton] at hd
      subst hd
      split
      · exact ⟨(h.sigma.2 _ (by simp)).2,by decide⟩
      · exact ⟨(h.sigma.2 _ (by simp)).2,by decide⟩
    · intro _
      refine ⟨by simp,?_⟩
      intro d hd
      rw [List.mem_singleton] at hd
      subst hd
      split
      · exact (h.sigma.2 _ (by simp)).1
      · exact (h.sigma.2 _ (by simp)).1
  · exact ⟨m.lower c,by rw [lowerFrom,if_neg hc],h.settled c,h.letter c⟩

/-- A text that is in lower case stays as it is. -/
theorem lowerFrom_of_settled : ∀ {before cs : List Char}, (∀ c ∈ cs, m.lower c = [c] ∧ c ≠ 'Σ') →
    m.lowerFrom before cs = cs
  | _,[],_ => rfl
  | before,c :: cs,hcs => by
    obtain ⟨hc,hne⟩ := hcs c (List.mem_cons_self ..)
    rw [lowerFrom,if_neg hne,hc,lowerFrom_of_settled fun d hd => hcs d (List.mem_cons_of_mem _ hd)]
    rfl

theorem Apart.settled_lowerFrom (h : m.Apart marks) : ∀ {before cs : List Char},
    ∀ d ∈ m.lowerFrom before cs, m.lower d = [d] ∧ d ≠ 'Σ'
  | _,[],d,hd => by simp [lowerFrom] at hd
  | before,c :: cs,d,hd => by
    obtain ⟨ds,heq,hsettled,-⟩ := h.mapped before c cs
    rw [heq] at hd
    rcases List.mem_append.mp hd with hd | hd
    · exact hsettled d hd
    · exact h.settled_lowerFrom d hd

theorem Apart.lowerFrom_ends (h : m.Apart marks) : ∀ (before s : List Char), s ≠ [] →
    (∀ c ∈ s.getLast?, marks c = false) →
    m.lowerFrom before s ≠ [] ∧ ∀ d ∈ (m.lowerFrom before s).getLast?, marks d = false
  | before,[c],_,hlast => by
    obtain ⟨ds,heq,-,hmarks⟩ := h.mapped before c []
    obtain ⟨hne,hall⟩ := hmarks (hlast c rfl)
    have hds : m.lowerFrom before [c] = ds := by simpa [lowerFrom] using heq
    rw [hds]
    exact ⟨hne,fun d hd => hall d (List.mem_of_getLast? hd)⟩
  | before,c :: c' :: cs,_,hlast => by
    obtain ⟨ds,heq,-⟩ := h.mapped before c (c' :: cs)
    obtain ⟨hne,hend⟩ := h.lowerFrom_ends (c :: before) (c' :: cs) (by simp) (by simpa using hlast)
    rw [heq,List.getLast?_append_of_ne_nil _ hne]
    exact ⟨by simp [hne],hend⟩

open Stripping in
theorem Apart.bare_lowerFrom (h : m.Apart marks) {s : List Char} (hs : Bare marks s) (hne : s ≠ []) :
    m.lowerFrom [] s ≠ [] ∧ Bare marks (m.lowerFrom [] s) := by
  obtain ⟨hne',hlast⟩ := h.lowerFrom_ends [] s hne hs.2
  refine ⟨hne',?_,hlast⟩
  obtain ⟨c,cs,rfl⟩ := List.exists_cons_of_ne_nil hne
  obtain ⟨ds,heq,-,hmarks⟩ := h.mapped [] c cs
  obtain ⟨hds,hall⟩ := hmarks (hs.1 c rfl)
  obtain ⟨d,ds',rfl⟩ := List.exists_cons_of_ne_nil hds
  rw [heq]
  simpa using hall d (List.mem_cons_self ..)

end CaseTable

namespace Text

open Stripping

/-- One scan of a text, from whether a blank, or nothing, stands before it. -/
def squeeze : Bool → List Char → List Char
  | _,[] => []
  | blank,c :: cs =>
    if isSpace c then if blank then squeeze true cs else ' ' :: squeeze true cs
    else c :: squeeze false cs

/-- The scan without a blank at its end. -/
def squeezed (cs : List Char) : List Char := (squeeze true cs).rdropWhile isSpace

section Words

variable {c : Char} {cs u s v : List Char} {blank : Bool}

theorem squeeze_space (h : isSpace c = true) : squeeze true (c :: cs) = squeeze true cs := by simp [squeeze,h]

theorem squeeze_letter (h : isSpace c = false) : squeeze blank (c :: cs) = c :: squeeze false cs := by
  simp [squeeze,h]

theorem rdropWhile_letter (h : isSpace c = false) : (c :: cs).rdropWhile isSpace = c :: cs.rdropWhile isSpace :=
  rdropWhile_append_of_getLast? (t := [c]) (by simpa using h) cs

theorem rdropWhile_blank : (' ' :: cs).rdropWhile isSpace =
    if cs.rdropWhile isSpace = [] then [] else ' ' :: cs.rdropWhile isSpace := by
  induction cs using List.reverseRecOn with
  | nil => rfl
  | append_singleton cs d ih =>
    by_cases hd : isSpace d = true
    · rw [← List.cons_append,List.rdropWhile_concat_pos _ _ _ hd,List.rdropWhile_concat_pos _ _ _ hd,ih]
    · rw [← List.cons_append,List.rdropWhile_concat_neg _ _ _ hd,List.rdropWhile_concat_neg _ _ _ hd]
      simp

theorem splitList_space (hc : isSpace c = true) : splitList (c :: cs) = splitList cs := if_pos hc

theorem splitList_end (hc : isSpace c = false) : splitList [c] = [[c]] := if_neg (by simp [hc])

theorem splitList_gap {d : Char} (hc : isSpace c = false) (hd : isSpace d = true) :
    splitList (c :: d :: cs) = [c] :: splitList (d :: cs) := (if_neg (by simp [hc])).trans (if_pos hd)

theorem splitList_joined {d : Char} (hc : isSpace c = false) (hd : isSpace d = false) :
    splitList (c :: d :: cs) = match splitList (d :: cs) with
      | [] => [[c]]
      | w :: ws => (c :: w) :: ws := (if_neg (by simp [hc])).trans (if_neg (by simp [hd]))

variable (cs) in
/-- A letter before a letter begins its word. -/
theorem splitList_letter {d : Char} (hc : isSpace c = false) (hd : isSpace d = false) :
    ∃ w ws, splitList (d :: cs) = w :: ws ∧ splitList (c :: d :: cs) = (c :: w) :: ws := by
  cases hw : splitList (d :: cs) with
  | nil =>
    exfalso
    cases cs with
    | nil => simp [splitList_end hd] at hw
    | cons e es =>
      by_cases he : isSpace e = true
      · simp [splitList_gap hd he] at hw
      · rw [splitList_joined hd (by simpa using he)] at hw
        split at hw <;> cases hw
  | cons w ws =>
    refine ⟨w,ws,rfl,?_⟩
    rw [splitList_joined hc hd,hw]

theorem splitList_ne_nil : ∀ cs : List Char, [] ∉ splitList cs
  | [] => List.not_mem_nil
  | c :: cs => by
    have ih := splitList_ne_nil cs
    by_cases hc : isSpace c = true
    · rwa [splitList_space hc]
    have hc : isSpace c = false := by simpa using hc
    cases cs with
    | nil => simp [splitList_end hc]
    | cons d cs =>
      by_cases hd : isSpace d = true
      · rw [splitList_gap hc hd]
        simpa using ih
      · obtain ⟨w,ws,hwords,hnext⟩ := splitList_letter cs hc (by simpa using hd)
        rw [hwords] at ih
        rw [hnext]
        simp_all

/-- The words of a text with one blank between any two of them are what the scan leaves. -/
theorem intercalate_splitList : ∀ cs : List Char, [' '].intercalate (splitList cs) = squeezed cs
  | [] => rfl
  | c :: cs => by
    have ih := intercalate_splitList cs
    by_cases hc : isSpace c = true
    · rw [splitList_space hc,ih,squeezed,squeezed,squeeze_space hc]
    have hc : isSpace c = false := by simpa using hc
    rw [squeezed,squeeze_letter hc,rdropWhile_letter hc]
    cases cs with
    | nil =>
      rw [splitList_end hc]
      rfl
    | cons d cs =>
      by_cases hd : isSpace d = true
      · have hnext : (squeeze false (d :: cs)).rdropWhile isSpace =
            if squeezed (d :: cs) = [] then [] else ' ' :: squeezed (d :: cs) := by
          rw [squeezed,squeeze_space hd,← rdropWhile_blank]
          simp [squeeze,hd]
        have hwords := splitList_ne_nil (d :: cs)
        rw [splitList_gap hc hd,hnext,← ih]
        generalize splitList (d :: cs) = words at hwords
        cases words with
        | nil => rfl
        | cons w ws =>
          have hw : w ≠ [] := by
            rintro rfl
            exact hwords (List.mem_cons_self ..)
          have hne : [' '].intercalate (w :: ws) ≠ [] := by
            cases ws with
            | nil => simpa using hw
            | cons x ws => simp [hw]
          rw [List.intercalate_cons_cons,if_neg hne]
          rfl
      · have hd : isSpace d = false := by simpa using hd
        have hsame : squeeze false (d :: cs) = squeeze true (d :: cs) := by
          rw [squeeze_letter hd,squeeze_letter hd]
        obtain ⟨w,ws,hwords,hnext⟩ := splitList_letter cs hc hd
        rw [hnext,hsame,← squeezed,← ih,hwords]
        exact List.intercalate_cons_cons_left

theorem squeezed_subset : squeezed cs ⊆ squeeze true cs := (List.rdropWhile_prefix isSpace _).subset

theorem toList_collapse (s : String) : (collapse s).toList = squeezed s.toList := by
  rw [collapse,String.toList_intercalate,← intercalate_splitList]
  simp

theorem squeeze_append_left (hs : ∀ c ∈ s.head?, isSpace c = false) :
    ∀ (blank : Bool) (u : List Char), squeeze blank (u ++ s) = squeeze blank u ++ squeeze true s
  | blank,[] => by
    cases s with
    | nil => rfl
    | cons c cs =>
      have hc : isSpace c = false := hs c rfl
      rw [List.nil_append,squeeze_letter hc,squeeze_letter hc]
      rfl
  | blank,c :: u => by
    have ih := fun blank => squeeze_append_left hs blank u
    by_cases hc : isSpace c = true
    · cases blank <;> simp [squeeze,hc,ih]
    · simp [squeeze,hc,ih]

theorem squeeze_append_right (hs : Bare isSpace s) (hne : s ≠ []) (blank : Bool) (v : List Char) :
    squeeze blank (s ++ v) = squeeze blank s ++ squeeze false v := by
  obtain ⟨t,c,rfl⟩ : ∃ t c, s = t ++ [c] := ⟨_,_,(List.dropLast_append_getLast hne).symm⟩
  have hc : isSpace c = false := hs.2 c (by simp)
  clear hs hne
  induction t generalizing blank with
  | nil => simp [squeeze,hc]
  | cons d t ih =>
    by_cases hd : isSpace d = true
    · cases blank <;> simp [squeeze,hd,← ih]
    · simp [squeeze,hd,← ih]

/-- The only whitespace that a scan leaves is blanks. -/
theorem mem_squeeze : ∀ {blank : Bool} {cs : List Char}, ∀ c ∈ squeeze blank cs,
    c = ' ' ∨ c ∈ cs ∧ isSpace c = false
  | _,[],c,h => by simp [squeeze] at h
  | blank,d :: cs,c,h => by
    have hlater : ∀ {blank}, c ∈ squeeze blank cs → c = ' ' ∨ c ∈ d :: cs ∧ isSpace c = false := by
      intro blank hc
      exact (mem_squeeze c hc).imp_right fun ⟨hmem,hspace⟩ => ⟨List.mem_cons_of_mem _ hmem,hspace⟩
    by_cases hd : isSpace d = true
    · cases blank with
      | true =>
        rw [squeeze_space hd] at h
        exact hlater h
      | false =>
        simp only [squeeze,hd,if_true,Bool.false_eq_true,if_false] at h
        rcases List.mem_cons.mp h with h | h
        · exact .inl h
        · exact hlater h
    · have hd : isSpace d = false := by simpa using hd
      rw [squeeze_letter hd] at h
      rcases List.mem_cons.mp h with rfl | h
      · exact .inr ⟨List.mem_cons_self ..,hd⟩
      · exact hlater h

theorem squeeze_squeeze : ∀ (blank : Bool) (cs : List Char), squeeze blank (squeeze blank cs) = squeeze blank cs
  | _,[] => rfl
  | blank,c :: cs => by
    have ih := fun blank => squeeze_squeeze blank cs
    have hblank : isSpace ' ' = true := by decide
    by_cases hc : isSpace c = true
    · cases blank <;> simp [squeeze,hc,hblank,ih]
    · simp [squeeze,hc,ih]

theorem squeeze_bare {marks : Char → Bool} (hspace : ∀ c, marks c = false → isSpace c = false)
    (hs : Bare marks s) (hne : s ≠ []) : squeeze true s ≠ [] ∧ Bare marks (squeeze true s) := by
  obtain ⟨c,cs,rfl⟩ := List.exists_cons_of_ne_nil hne
  have hc : marks c = false := hs.1 c rfl
  obtain ⟨t,d,ht⟩ : ∃ t d, c :: cs = t ++ [d] := ⟨_,_,(List.dropLast_append_getLast hne).symm⟩
  have hd : marks d = false := hs.2 d (by rw [ht]; simp)
  have hlast : squeeze true (c :: cs) = squeeze true t ++ [d] := by
    rw [ht,squeeze_append_left (by simpa using hspace d hd)]
    simp [squeeze,hspace d hd]
  refine ⟨by rw [squeeze_letter (hspace c hc)]; simp,?_,?_⟩
  · rw [squeeze_letter (hspace c hc)]
    simpa using hc
  · rw [hlast]
    simpa using hd

theorem squeezed_eq_squeeze (h : Bare isSpace (squeeze true s)) : squeezed s = squeeze true s := by
  rw [squeezed,List.rdropWhile_eq_self_iff]
  intro hne
  have hlast := h.2 _ (List.getLast?_eq_getLast_of_ne_nil hne)
  simp [hlast]

/-- The scan of a text whose middle begins and ends with a letter. -/
theorem squeezed_between (hs : Bare isSpace s) (hne : s ≠ []) (u v : List Char) :
    squeezed (u ++ s ++ v) = squeeze true u ++ squeezed s ++ (squeeze false v).rdropWhile isSpace := by
  obtain ⟨hne',hbare⟩ := squeeze_bare (fun _ h => h) hs hne
  have hhead : ∀ c ∈ (s ++ v).head?, isSpace c = false := by
    obtain ⟨c,cs,rfl⟩ := List.exists_cons_of_ne_nil hne
    exact hs.1
  have hscan : squeeze true (u ++ s ++ v) = squeeze true u ++ squeeze true s ++ squeeze false v := by
    rw [List.append_assoc,squeeze_append_left hhead,squeeze_append_right hs hne,List.append_assoc]
  have hlast : ∀ c ∈ (squeeze true u ++ squeeze true s).getLast?, isSpace c = false := by
    rw [List.getLast?_append_of_ne_nil _ hne']
    exact hbare.2
  rw [squeezed_eq_squeeze hbare,squeezed,hscan,rdropWhile_append_of_getLast? hlast]

end Words

end Text
end Saarathi
