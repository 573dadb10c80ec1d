import Mathlib.Data.List.DropRight
import LiveMarkup.Proofs.Spelling
import LiveMarkup.Template.Reader

/-!
What blanks around a text mean: they do not belong to a name, and where they span a line break they are
indentation.
-/

namespace LiveMarkup

/-- The code points that Unicode counts as white space. -/
def blankCodes : List Nat :=
  [0x9, 0xa, 0xb, 0xc, 0xd, 0x20, 0x85, 0xa0, 0x1680, 0x2000, 0x2001, 0x2002, 0x2003, 0x2004, 0x2005, 0x2006,
    0x2007, 0x2008, 0x2009, 0x200a, 0x2028, 0x2029, 0x202f, 0x205f, 0x3000]

def blank (c : Char) : Bool :=
  blankCodes.contains c.toNat

/-- A text without the blanks at its ends. -/
def stripped (cs : List Char) : List Char :=
  (cs.dropWhile blank).rdropWhile blank

/-- The names that stand between commas. Blanks around a name do not belong to it, and where nothing else
stands there is no name. -/
def listedNames (value : String) : List String :=
  (value.toList.splitOn ',').filterMap fun piece =>
    if stripped piece = [] then none else some (String.ofList (stripped piece))

/-- Blanks at an end of a text, which are kept if they stay on their line. -/
def keptBlanks (gap : List Char) : List Char :=
  if '\n' ∈ gap then [] else gap

/-- A text without its indentation. -/
def unindented (run : List Char) : List Char :=
  if stripped run = [] then keptBlanks run
  else keptBlanks (run.takeWhile blank) ++ (stripped run ++ keptBlanks (run.rtakeWhile blank))

theorem isBlank_eq_blank : isBlank = blank := by
  funext c
  rw [Bool.eq_iff_iff]
  simp only [isBlank, blank, blankCodes, List.contains_eq_mem, List.mem_cons, List.not_mem_nil, or_false,
    decide_eq_true_eq, Bool.or_eq_true, Bool.and_eq_true, beq_iff_eq]
  omega

theorem trim_eq_stripped (cs : List Char) : trim cs = stripped cs := by
  rw [trim, trimEnd, trimStart, isBlank_eq_blank]
  rfl

theorem trimText_eq (s : String) : trimText s = String.ofList (stripped s.toList) := by
  rw [trimText, trim_eq_stripped]

theorem stripped_eq_self {cs : List Char} (hhead : ∀ c ∈ cs.head?, blank c = false)
    (hlast : ∀ c ∈ cs.getLast?, blank c = false) : stripped cs = cs := by
  have hfront : cs.dropWhile blank = cs := by
    cases cs with
    | nil => rfl
    | cons c cs => exact List.dropWhile_cons_of_neg (by simp [hhead c rfl])
  rw [stripped, hfront, List.rdropWhile_eq_self_iff]
  intro hne
  simp [hlast _ (List.getLast?_eq_some_getLast hne)]

theorem splitAtChar_eq_splitOn (sep : Char) (cs : List Char) : splitAtChar sep cs = cs.splitOn sep := by
  induction cs with
  | nil => rfl
  | cons c cs ih =>
    rw [splitAtChar, List.splitOn_cons_eq_if_modifyHead, ih]
    obtain ⟨piece, rest, hpieces⟩ := List.exists_cons_of_ne_nil (List.splitOn_ne_nil sep cs)
    by_cases hc : c = sep
    · simp [hc]
    · simp [hc, hpieces]

theorem attachNames_eq_listedNames (value : String) : attachNames value = listedNames value := by
  rw [attachNames, listedNames, splitAtChar_eq_splitOn]
  induction value.toList.splitOn ',' with
  | nil => rfl
  | cons piece pieces ih =>
    rw [List.map_cons, trim_eq_stripped, List.filterMap_cons, ← ih]
    by_cases hpiece : stripped piece = [] <;> simp [hpiece]

section Indentation

variable {run core after : List Char}

theorem takeWhile_reverse_content (hlast : ∀ c ∈ core.getLast?, blank c = false)
    (hafter : ∀ c ∈ after, blank c = true) : (core ++ after).reverse.takeWhile blank = after.reverse := by
  rw [List.reverse_append]
  refine takeWhile_run (fun c hc => hafter c (List.mem_reverse.mp hc)) ?_
  rwa [List.head?_reverse]

theorem dropWhile_reverse_content (hlast : ∀ c ∈ core.getLast?, blank c = false)
    (hafter : ∀ c ∈ after, blank c = true) : (core ++ after).reverse.dropWhile blank = core.reverse := by
  rw [List.reverse_append]
  refine dropWhile_run (fun c hc => hafter c (List.mem_reverse.mp hc)) ?_
  rwa [List.head?_reverse]

/-- Trailing blanks are indentation if they span a line break. -/
theorem trimEnd_content (hlast : ∀ c ∈ core.getLast?, blank c = false) (hafter : ∀ c ∈ after, blank c = true) :
    (if (trailingBlank (core ++ after)).contains '\n' then trimEnd (core ++ after) else core ++ after) =
      core ++ keptBlanks after := by
  rw [trailingBlank, trimEnd, isBlank_eq_blank, takeWhile_reverse_content hlast hafter,
    dropWhile_reverse_content hlast hafter, List.reverse_reverse, keptBlanks]
  by_cases hline : '\n' ∈ after <;> simp [hline]

/-- A text that is not blank is its stripped text between two runs of blanks. -/
theorem exists_content (h : stripped run ≠ []) : ∃ after, (∀ c ∈ after, blank c = true) ∧
    (∀ c ∈ (stripped run).getLast?, blank c = false) ∧ run = run.takeWhile blank ++ (stripped run ++ after) := by
  refine ⟨(run.dropWhile blank).rtakeWhile blank, fun c hc => List.mem_rtakeWhile_imp hc, ?_, ?_⟩
  · intro c hc
    have hlast := List.rdropWhile_last_not blank (run.dropWhile blank) h
    rw [List.getLast?_eq_some_getLast h] at hc
    cases hc
    exact Bool.eq_false_iff.mpr hlast
  · have hsplit : stripped run ++ (run.dropWhile blank).rtakeWhile blank = run.dropWhile blank := by
      rw [stripped, List.rdropWhile, List.rtakeWhile, ← List.reverse_append, List.takeWhile_append_dropWhile,
        List.reverse_reverse]
    rw [hsplit, List.takeWhile_append_dropWhile]

theorem stripped_eq_nil_iff : stripped run = [] ↔ ∀ c ∈ run, blank c = true := by
  rw [stripped, List.rdropWhile_eq_nil_iff]
  constructor
  · intro h
    have hnil : run.dropWhile blank = [] := by
      by_contra hne
      exact Bool.eq_false_iff.mp (List.head_dropWhile_not blank hne) (h _ (List.head_mem hne))
    exact List.dropWhile_eq_nil_iff.mp hnil
  · exact fun h c hc => h c (List.dropWhile_sublist _ |>.mem hc)

/-- Blank text is indentation as a whole, or none of it is. -/
theorem trimIndentation_blank (h : ∀ c ∈ run, blank c = true) : trimIndentation run = keptBlanks run := by
  have hlead : leadingBlank run = run := by
    rw [leadingBlank, isBlank_eq_blank]
    exact List.takeWhile_eq_self_iff.mpr h
  have htrail : trailingBlank run = run.reverse := by
    rw [trailingBlank, isBlank_eq_blank]
    exact List.takeWhile_eq_self_iff.mpr fun c hc => h c (List.mem_reverse.mp hc)
  have hnone : trimStart run = [] := by
    rw [trimStart, isBlank_eq_blank]
    exact List.dropWhile_eq_nil_iff.mpr h
  unfold trimIndentation keptBlanks
  dsimp only
  rw [hlead, hnone]
  by_cases hline : '\n' ∈ run
  · simp [hline, trailingBlank]
  · simp [hline, htrail]

/-- Around content the blanks at both ends are indentation or not, each on its own. -/
theorem trimIndentation_content (h : stripped run ≠ []) : trimIndentation run =
    keptBlanks (run.takeWhile blank) ++ (stripped run ++ keptBlanks (run.rtakeWhile blank)) := by
  obtain ⟨after, hafter, hlast, hrun⟩ := exists_content h
  have hlast' : ∀ pre : List Char, ∀ c ∈ (pre ++ stripped run).getLast?, blank c = false := by
    intro pre
    rwa [List.getLast?_append_of_ne_nil _ h]
  have hback : run.rtakeWhile blank = after := by
    rw [List.rtakeWhile, hrun, ← List.append_assoc, takeWhile_reverse_content (hlast' _) hafter, List.reverse_reverse]
  have hfront : (if (leadingBlank run).contains '\n' then trimStart run else run) =
      keptBlanks (run.takeWhile blank) ++ stripped run ++ after := by
    rw [leadingBlank, trimStart, isBlank_eq_blank, keptBlanks]
    by_cases hline : '\n' ∈ run.takeWhile blank
    · have hdrop : run.dropWhile blank = stripped run ++ after := by
        rw [← List.append_right_inj (run.takeWhile blank), List.takeWhile_append_dropWhile]
        exact hrun
      simp [hline, hdrop]
    · simp [hline, ← hrun]
  unfold trimIndentation
  dsimp only
  rw [hfront, trimEnd_content (hlast' _) hafter, hback, List.append_assoc]

end Indentation

theorem trimIndentation_eq_unindented (run : List Char) : trimIndentation run = unindented run := by
  rw [unindented]
  split
  next hblank => exact trimIndentation_blank (stripped_eq_nil_iff.mp hblank)
  next hcontent => exact trimIndentation_content hcontent

end LiveMarkup
