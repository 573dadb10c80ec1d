import Mathlib.Data.List.Chain
import Mathlib.Data.List.TakeWhile
import LiveMarkup.Expr.Token

namespace LiveMarkup

variable {cs rest : List Char} {c : Char} {t : Token} {ts : List Token}

/-- Digits, with or without a fraction. -/
inductive IsNumeral : List Char → Prop where
  | whole {ds : List Char} (hne : ds ≠ []) (hds : ∀ c ∈ ds, c.isDigit = true) : IsNumeral ds
  | fraction {ds fs : List Char} (hne : ds ≠ []) (hds : ∀ c ∈ ds, c.isDigit = true) (hfs : fs ≠ [])
      (hall : ∀ c ∈ fs, c.isDigit = true) : IsNumeral (ds ++ '.' :: fs)

/-- Characters that may stand between tokens: spaces, tabs and the ends of lines. -/
def IsGap (cs : List Char) : Prop :=
  ∀ c ∈ cs, c = ' ' ∨ c = '\t' ∨ c = '\r' ∨ c = '\n'

/-- The characters that begin a word. -/
def BeginsWord (c : Char) : Prop :=
  c.isAlpha = true ∨ c = '_' ∨ c = '$'

/-- The characters that go on with a word. -/
def ContinuesWord (c : Char) : Prop :=
  c.isDigit = true ∨ BeginsWord c

/-- How a token is written. A text stands in quotes of one of two kinds, which it does not contain. -/
inductive Token.Spelled : Token → List Char → Prop where
  | text {quote : Char} {cs : List Char} (hquote : quote = '"' ∨ quote = '\'') (hcs : quote ∉ cs) :
      Spelled (.text (String.ofList cs)) (quote :: (cs ++ [quote]))
  | number {cs : List Char} (h : IsNumeral cs) : Spelled (.number (String.ofList cs)) cs
  | word {c : Char} {cs : List Char} (hc : BeginsWord c) (hcs : ∀ x ∈ cs, ContinuesWord x) :
      Spelled (.word (String.ofList (c :: cs))) (c :: cs)
  | op (op : BinOp) : Spelled (.op op) op.symbol.toList
  | bang : Spelled .bang ['!']
  | assign : Spelled .assign ['=']
  | opening : Spelled .opening ['(']
  | closing : Spelled .closing [')']

/-- Tokens written one after the other, with any layout around them and between them. -/
inductive Spaced : List Token → List Char → Prop where
  | done {gap : List Char} (hgap : IsGap gap) : Spaced [] gap
  | token {gap cs rest : List Char} {t : Token} {ts : List Token} (hgap : IsGap gap) (ht : t.Spelled cs)
      (hts : Spaced ts rest) : Spaced (t :: ts) (gap ++ (cs ++ rest))

theorem isLayout_iff : isLayout c = true ↔ c = ' ' ∨ c = '\t' ∨ c = '\r' ∨ c = '\n' := by
  simp [isLayout, or_assoc]

theorem isWordStart_iff : isWordStart c = true ↔ BeginsWord c := by
  simp [isWordStart, BeginsWord, or_assoc]

theorem isWordChar_iff : isWordChar c = true ↔ ContinuesWord c := by
  simp only [isWordChar, ContinuesWord, BeginsWord, Char.isAlphanum, Bool.or_eq_true, beq_iff_eq]
  grind

theorem isGap_iff : IsGap cs ↔ ∀ c ∈ cs, isLayout c = true :=
  forall₂_congr fun _ _ => isLayout_iff.symm

theorem isGap_of_all (h : cs.all isLayout = true) : IsGap cs :=
  isGap_iff.mpr (List.all_eq_true.mp h)

theorem isGap_nil : IsGap [] :=
  isGap_of_all rfl

theorem Token.spelled_word (hc : isWordStart c = true) (hcs : ∀ x ∈ cs, isWordChar x = true) :
    (Token.word (String.ofList (c :: cs))).Spelled (c :: cs) :=
  .word (isWordStart_iff.mp hc) fun x hx => isWordChar_iff.mp (hcs x hx)

theorem Spaced.layout (h : Spaced ts cs) (hc : isLayout c = true) : Spaced ts (c :: cs) := by
  have hcons : ∀ gap : List Char, IsGap gap → IsGap (c :: gap) :=
    fun _ hgap => List.forall_mem_cons.mpr ⟨isLayout_iff.mp hc, hgap⟩
  cases h with
  | done hgap => exact .done (hcons _ hgap)
  | token hgap ht hts => exact .token (hcons _ hgap) ht hts

theorem Spaced.adjacent (ht : t.Spelled cs) (hts : Spaced ts rest) : Spaced (t :: ts) (cs ++ rest) :=
  .token isGap_nil ht hts

/-- Every token of a source is written in it. -/
theorem Spaced.spelled (h : Spaced ts cs) : ∀ t ∈ ts, ∃ spelling, t.Spelled spelling := by
  induction h with
  | done => exact fun t ht => absurd ht List.not_mem_nil
  | token hgap ht hts ih => exact List.forall_mem_cons.mpr ⟨⟨_, ht⟩, ih⟩

theorem tokens?_layout (rest : List Char) (h : isLayout c = true) : tokens? (c :: rest) = tokens? rest := by
  rw [tokens?, if_pos h]

theorem tokens?_token {after : List Char} (hc : isLayout c = false) (h : nextToken? (c :: rest) = some (t, after)) :
    tokens? (c :: rest) = (tokens? after).map (t :: ·) := by
  rw [tokens?, if_neg (by simp [hc])]
  split
  next hnone => rw [h] at hnone; cases hnone
  next t' after' hsome =>
    rw [h] at hsome
    cases hsome
    rfl

theorem tokens?_gap {gap : List Char} (h : ∀ c ∈ gap, isLayout c = true) (rest : List Char) :
    tokens? (gap ++ rest) = tokens? rest := by
  induction gap with
  | nil => rfl
  | cons c gap ih =>
    rw [List.cons_append, tokens?_layout _ (h c List.mem_cons_self)]
    exact ih fun x hx => h x (List.mem_cons_of_mem _ hx)

section Runs

variable {α : Type u} {p : α → Bool} {xs rest : List α}

/-- A run ends where the class ends. -/
theorem takeWhile_run (hxs : ∀ x ∈ xs, p x = true) (hrest : ∀ x ∈ rest.head?, p x = false) :
    (xs ++ rest).takeWhile p = xs := by
  rw [List.takeWhile_append_of_pos hxs]
  cases rest with
  | nil => simp
  | cons x rest => simp [hrest x rfl]

theorem dropWhile_run (hxs : ∀ x ∈ xs, p x = true) (hrest : ∀ x ∈ rest.head?, p x = false) :
    (xs ++ rest).dropWhile p = rest := by
  rw [List.dropWhile_append_of_pos hxs]
  cases rest with
  | nil => rfl
  | cons x rest => simp [hrest x rfl]

end Runs

theorem nextToken?_text {q : Char} (hq : q = '"' ∨ q = '\'') (h : q ∉ cs) (rest : List Char) :
    nextToken? (q :: (cs ++ q :: rest)) = some (.text (String.ofList cs), rest) := by
  have hcs : ∀ c ∈ cs, decide (c ≠ q) = true := by
    intro c hc
    rw [decide_eq_true_eq]
    rintro rfl
    exact h hc
  have hend : ∀ c ∈ (q :: rest).head?, decide (c ≠ q) = false := by simp
  have htake := takeWhile_run hcs hend
  have hdrop := dropWhile_run hcs hend
  rw [nextToken?]
  · have hquote : (q == '"' || q == '\'') = true := by
      rcases hq with rfl | rfl <;> rfl
    rw [if_pos hquote, hdrop, htake]
  all_goals
    intros
    rcases hq with rfl | rfl <;> contradiction

theorem nextToken?_digit (h : c.isDigit = true) (rest : List Char) :
    nextToken? (c :: rest) =
      some (.number (String.ofList (spanNumber (c :: rest)).1), (spanNumber (c :: rest)).2) := by
  rw [nextToken?]
  · have hquote : ¬(c == '"' || c == '\'') = true := by
      simp only [Bool.or_eq_true, beq_iff_eq]
      rintro (rfl | rfl) <;> exact absurd h (by decide)
    rw [if_neg hquote, if_pos h]
  all_goals
    intros
    subst_vars
    exact absurd h (by decide)

theorem not_isWordStart_of_isDigit (h : c.isDigit = true) : ¬isWordStart c = true := by
  intro hw
  have hle : c.val ≤ '9'.val := of_decide_eq_true (Bool.and_eq_true_iff.mp h).2
  simp only [isWordStart, Bool.or_eq_true, beq_iff_eq] at hw
  rcases hw with (halpha | rfl) | rfl
  · rcases Bool.or_eq_true_iff.mp halpha with hupper | hlower
    · have hge : 'A'.val ≤ c.val := (of_decide_eq_true hupper).1
      exact absurd (UInt32.le_trans hge hle) (by decide)
    · have hge : 'a'.val ≤ c.val := of_decide_eq_true (Bool.and_eq_true_iff.mp hlower).1
      exact absurd (UInt32.le_trans hge hle) (by decide)
  · exact absurd h (by decide)
  · exact absurd h (by decide)

theorem nextToken?_word (h : isWordStart c = true) (rest : List Char) :
    nextToken? (c :: rest) = some (.word (String.ofList ((c :: rest).takeWhile isWordChar)),
      (c :: rest).dropWhile isWordChar) := by
  have hdigit : ¬c.isDigit = true := fun hd => not_isWordStart_of_isDigit hd h
  rw [nextToken?]
  · have hquote : ¬(c == '"' || c == '\'') = true := by
      simp only [Bool.or_eq_true, beq_iff_eq]
      rintro (rfl | rfl) <;> exact absurd h (by decide)
    rw [if_neg hquote, if_neg hdigit, if_pos h]
  all_goals
    intros
    subst_vars
    exact absurd h (by decide)

theorem spanNumber_whole {ds : List Char} (hds : ∀ c ∈ ds, c.isDigit = true)
    (hrest : ∀ c ∈ rest.head?, c.isDigit = false ∧ c ≠ '.') : spanNumber (ds ++ rest) = (ds, rest) := by
  have hend : ∀ c ∈ rest.head?, c.isDigit = false := fun c hc => (hrest c hc).1
  rw [spanNumber, dropWhile_run hds hend, takeWhile_run hds hend]
  cases rest with
  | nil => rfl
  | cons c rest =>
    split
    next heq =>
      cases heq
      exact absurd rfl (hrest '.' rfl).2
    next => rfl

theorem spanNumber_fraction {ds fs : List Char} (hds : ∀ c ∈ ds, c.isDigit = true) (hne : fs ≠ [])
    (hfs : ∀ c ∈ fs, c.isDigit = true) (hrest : ∀ c ∈ rest.head?, c.isDigit = false) :
    spanNumber (ds ++ '.' :: (fs ++ rest)) = (ds ++ '.' :: fs, rest) := by
  have hpoint : ∀ c ∈ ('.' :: (fs ++ rest)).head?, c.isDigit = false := by
    intro c hc
    cases hc
    rfl
  obtain ⟨f, fs', rfl⟩ := List.exists_cons_of_ne_nil hne
  have hf : f.isDigit = true := hfs f List.mem_cons_self
  have htake := takeWhile_run hfs hrest
  have hdrop := dropWhile_run hfs hrest
  rw [List.cons_append] at htake hdrop
  rw [spanNumber, dropWhile_run hds hpoint, takeWhile_run hds hpoint]
  simp only [List.cons_append, hf, ↓reduceIte, htake, hdrop]

theorem spanNumber_numeral (h : IsNumeral cs) (hrest : ∀ c ∈ rest.head?, c.isDigit = false ∧ c ≠ '.') :
    spanNumber (cs ++ rest) = (cs, rest) := by
  cases h with
  | whole hne hds => exact spanNumber_whole hds hrest
  | fraction hne hds hfne hfs =>
    rw [List.append_assoc, List.cons_append]
    exact spanNumber_fraction hds hfne hfs fun c hc => (hrest c hc).1

theorem IsNumeral.exists_cons (h : IsNumeral cs) : ∃ c cs', cs = c :: cs' ∧ c.isDigit = true := by
  cases h with
  | whole hne hds =>
    obtain ⟨d, ds, rfl⟩ := List.exists_cons_of_ne_nil hne
    exact ⟨d, ds, rfl, hds d List.mem_cons_self⟩
  | fraction hne hds hfne hfs =>
    obtain ⟨d, ds, rfl⟩ := List.exists_cons_of_ne_nil hne
    exact ⟨d, _, List.cons_append, hds d List.mem_cons_self⟩

theorem spanNumber_spelled (cs : List Char) (h : c.isDigit = true) :
    IsNumeral (spanNumber (c :: cs)).1 ∧ (spanNumber (c :: cs)).1 ++ (spanNumber (c :: cs)).2 = c :: cs := by
  have hds : ∀ x ∈ (c :: cs).takeWhile Char.isDigit, x.isDigit = true := fun x hx => List.mem_takeWhile_imp hx
  have hne : (c :: cs).takeWhile Char.isDigit ≠ [] := by simp [h]
  have hsplit : (c :: cs).takeWhile Char.isDigit ++ (c :: cs).dropWhile Char.isDigit = c :: cs :=
    List.takeWhile_append_dropWhile
  unfold spanNumber
  split
  next d rest heq =>
    rw [heq] at hsplit
    split
    next hd =>
      have hfs : ∀ x ∈ (d :: rest).takeWhile Char.isDigit, x.isDigit = true := fun x hx => List.mem_takeWhile_imp hx
      have hfne : (d :: rest).takeWhile Char.isDigit ≠ [] := by simp [hd]
      refine ⟨.fraction hne hds hfne hfs, ?_⟩
      rw [List.append_assoc, List.cons_append, List.takeWhile_append_dropWhile]
      exact hsplit
    next => exact ⟨.whole hne hds, hsplit⟩
  next => exact ⟨.whole hne hds, hsplit⟩

/-- A token that is read was written there. -/
theorem nextToken?_spelled (h : nextToken? cs = some (t, rest)) :
    ∃ spelling, t.Spelled spelling ∧ cs = spelling ++ rest := by
  unfold nextToken? at h
  split at h
  case h_1 => cases h
  case h_12 c tail _ _ _ _ _ _ _ _ _ _ =>
    split at h
    next hquote =>
      split at h
      next => cases h
      next q after hdrop =>
        cases h
        have hq : c = '"' ∨ c = '\'' := by simpa using hquote
        have hsplit := List.takeWhile_append_dropWhile (p := fun x => decide (x ≠ c)) (l := tail)
        have hstop : q = c := by
          have := List.head?_dropWhile_not (fun x => decide (x ≠ c)) tail
          rw [hdrop] at this
          simpa using this
        subst hstop
        have hcs : q ∉ tail.takeWhile fun x => decide (x ≠ q) := by
          intro hmem
          simpa using List.mem_takeWhile_imp hmem
        refine ⟨_, .text hq hcs, ?_⟩
        · rw [hdrop] at hsplit
          rw [List.cons_append, List.append_assoc, List.singleton_append, hsplit]
    next =>
      split at h
      next hd =>
        cases h
        obtain ⟨hnumeral, hsplit⟩ := spanNumber_spelled tail hd
        exact ⟨_, .number hnumeral, hsplit.symm⟩
      next =>
        split at h
        next hw =>
          cases h
          have hc := isWordChar_of_isWordStart hw
          rw [List.takeWhile_cons_of_pos hc, List.dropWhile_cons_of_pos hc]
          refine ⟨_, Token.spelled_word hw fun x hx => List.mem_takeWhile_imp hx, ?_⟩
          rw [List.cons_append, List.takeWhile_append_dropWhile]
        next => cases h
  all_goals cases h
  · exact ⟨_, .op .or, rfl⟩
  · exact ⟨_, .op .and, rfl⟩
  · exact ⟨_, .op .eq, rfl⟩
  · exact ⟨_, .op .ne, rfl⟩
  · exact ⟨_, .assign, rfl⟩
  · exact ⟨_, .bang, rfl⟩
  · exact ⟨_, .op .add, rfl⟩
  · exact ⟨_, .op .sub, rfl⟩
  · exact ⟨_, .opening, rfl⟩
  · exact ⟨_, .closing, rfl⟩

/-- The tokens that are read are written in the source, with nothing but layout around them. -/
theorem spaced_of_tokens? (h : tokens? cs = some ts) : Spaced ts cs := by
  fun_induction tokens? cs generalizing ts with
  | case1 =>
    cases h
    exact .done isGap_nil
  | case2 c rest hc ih => exact (ih h).layout hc
  | case3 c rest hc hnone => cases h
  | case4 c rest hc t after hnext hlt ih =>
    obtain ⟨ts', hts', rfl⟩ := Option.map_eq_some_iff.mp h
    obtain ⟨spelling, hspelled, hsplit⟩ := nextToken?_spelled hnext
    rw [hsplit]
    exact .adjacent hspelled (ih hts')

/-- A token ends before a character that cannot continue it. -/
def Token.EndsAt : Token → Char → Prop
  | .number _, c => c.isDigit = false ∧ c ≠ '.'
  | .word _, c => isWordChar c = false
  | .bang, c => c ≠ '='
  | .assign, c => c ≠ '='
  | _, _ => True

theorem nextToken?_of_spelled (h : t.Spelled cs) (hend : ∀ c ∈ rest.head?, t.EndsAt c) :
    nextToken? (cs ++ rest) = some (t, rest) := by
  cases h with
  | text hquote hcs =>
    rw [List.cons_append, List.append_assoc, List.singleton_append]
    exact nextToken?_text hquote hcs rest
  | number h =>
    have hspan := spanNumber_numeral h hend
    obtain ⟨c, cs', rfl, hc⟩ := h.exists_cons
    rw [List.cons_append] at hspan ⊢
    rw [nextToken?_digit hc, hspan]
  | word hc hcs =>
    have hstart := isWordStart_iff.mpr hc
    have hall : ∀ x ∈ _ :: _, isWordChar x = true :=
      List.forall_mem_cons.mpr ⟨isWordChar_of_isWordStart hstart, fun x hx => isWordChar_iff.mpr (hcs x hx)⟩
    rw [List.cons_append, nextToken?_word hstart, ← List.cons_append, takeWhile_run hall hend,
      dropWhile_run hall hend]
  | op op => cases op <;> rfl
  | bang =>
    refine nextToken?.eq_7 rest ?_
    rintro tail rfl
    exact hend '=' rfl rfl
  | assign =>
    refine nextToken?.eq_6 rest ?_
    rintro tail rfl
    exact hend '=' rfl rfl
  | opening => rfl
  | closing => rfl

/-- The tokens an operand may begin with. -/
def Token.opensOperand : Token → Bool
  | .text _ | .number _ | .word _ | .bang | .opening => true
  | .op _ | .assign | .closing => false

/-- The tokens an operand may end with. -/
def Token.closesOperand : Token → Bool
  | .text _ | .number _ | .word _ | .closing => true
  | .op _ | .bang | .assign | .opening => false

/-- Operands do not stand side by side, and operators do not either. -/
def Token.Follows (t next : Token) : Prop :=
  next.opensOperand = !t.closesOperand

theorem Token.endsAt_layout (t : Token) (h : c = ' ' ∨ c = '\t' ∨ c = '\r' ∨ c = '\n') : t.EndsAt c := by
  cases t <;> rcases h with rfl | rfl | rfl | rfl <;> simp [Token.EndsAt] <;> decide

theorem ne_of_class {p : Char → Bool} {d : Char} (hc : p c = true) (hd : p d = false) : c ≠ d := by
  rintro rfl
  rw [hc] at hd
  cases hd

theorem Token.Spelled.exists_cons (h : t.Spelled cs) :
    ∃ c cs', cs = c :: cs' ∧ isLayout c = false ∧ (t.opensOperand = true → c ≠ '=') ∧
      (t.opensOperand = false → c ∈ ['|', '&', '=', '!', '+', '-', ')']) := by
  cases h with
  | text hquote hcs => 
    rcases hquote with rfl | rfl
    · exact ⟨_, _, rfl, rfl, fun _ => by decide, nofun⟩
    · exact ⟨_, _, rfl, rfl, fun _ => by decide, nofun⟩
  | number h =>
    obtain ⟨c, cs', rfl, hc⟩ := h.exists_cons
    refine ⟨c, cs', rfl, ?_, fun _ => ne_of_class hc rfl, nofun⟩
    simp [isLayout, ne_of_class hc]
  | word hc hcs =>
    have hlayout : ∀ d : Char, isWordStart d = false → _ ≠ d := fun d => ne_of_class (isWordStart_iff.mpr hc)
    refine ⟨_, _, rfl, ?_, fun _ => hlayout _ rfl, nofun⟩
    simp [isLayout, hlayout ' ' rfl, hlayout '\t' rfl, hlayout '\r' rfl, hlayout '\n' rfl]
  | op op => cases op <;> exact ⟨_, _, rfl, rfl, nofun, fun _ => by decide⟩
  | bang => exact ⟨_, _, rfl, rfl, fun _ => by decide, nofun⟩
  | assign => exact ⟨_, _, rfl, rfl, nofun, fun _ => by decide⟩
  | opening => exact ⟨_, _, rfl, rfl, fun _ => by decide, nofun⟩
  | closing => exact ⟨_, _, rfl, rfl, nofun, fun _ => by decide⟩

theorem Token.Follows.endsAt {next : Token} (h : t.Follows next) (hnext : next.Spelled (c :: cs)) : t.EndsAt c := by
  obtain ⟨_, _, heq, -, hopens, hcloses⟩ := hnext.exists_cons
  cases heq
  unfold Token.Follows at h
  cases t with
  | number _ | word _ =>
    have hmem := hcloses h
    simp only [List.mem_cons, List.not_mem_nil, or_false] at hmem
    rcases hmem with rfl | rfl | rfl | rfl | rfl | rfl | rfl <;> simp only [Token.EndsAt] <;> decide
  | bang | assign => exact hopens h
  | _ => trivial

theorem Spaced.endsAt (h : Spaced ts cs) (hfollows : ∀ next ∈ ts.head?, t.Follows next) :
    ∀ c ∈ cs.head?, t.EndsAt c := by
  intro c hc
  cases h with
  | done hgap => exact t.endsAt_layout (hgap c (List.mem_of_mem_head? hc))
  | @token gap cs rest next ts hgap hnext hts =>
    cases gap with
    | nil =>
      obtain ⟨d, ds, rfl, -⟩ := hnext.exists_cons
      cases hc
      exact (hfollows next rfl).endsAt hnext
    | cons g gap =>
      exact t.endsAt_layout (hgap c (List.mem_of_mem_head? hc))

/-- Tokens that may follow each other are read back, whatever layout stands between them. -/
theorem Spaced.tokens? {ts : List Token} {cs : List Char} (h : Spaced ts cs)
    (hfollows : ts.IsChain Token.Follows) : tokens? cs = some ts := by
  induction h with
  | done hgap =>
    have := tokens?_gap (isGap_iff.mp hgap) []
    rw [List.append_nil] at this
    rw [this, LiveMarkup.tokens?]
  | @token gap cs rest t ts hgap ht hts ih =>
    have hends := hts.endsAt fun next hnext => hfollows.rel_head? hnext
    have hnext := nextToken?_of_spelled ht hends
    obtain ⟨c, cs', rfl, hc, -⟩ := ht.exists_cons
    rw [List.cons_append] at hnext
    rw [tokens?_gap (isGap_iff.mp hgap), List.cons_append, tokens?_token hc hnext, ih hfollows.tail]
    rfl

end LiveMarkup
