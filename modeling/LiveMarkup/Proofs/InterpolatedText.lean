import LiveMarkup.Proofs.Language
import LiveMarkup.Proofs.ParseMarkup
import LiveMarkup.Proofs.ParsePrinted

namespace LiveMarkup

variable {cs : List Char} {parts : List TextPart} {ss : List Span} {read : String → Value} {b c : Char} {v : Value}

section Cuts

theorem no_pair_ahead {rest tail : List Char} (h : ¬ [b, b] <:+: c :: cs ++ [b]) (hc : c = b)
    (hrest : cs ++ b :: rest = b :: tail) : False := by
  subst hc
  cases cs with
  | nil => exact h ⟨[], [], rfl⟩
  | cons d cs =>
    cases (List.cons.inj hrest).1
    exact h ⟨[], cs ++ [c], by simp⟩

theorem no_pair_inside {tail : List Char} (h : ¬ [b, b] <:+: c :: cs) (hc : c = b) (hcs : cs = b :: tail) : False := by
  subst hc hcs
  exact h ⟨[], tail, rfl⟩

theorem not_infix_tail (h : ¬ [b, b] <:+: c :: cs) : ¬ [b, b] <:+: cs :=
  fun hin => h (List.infix_cons_iff.mpr (.inr hin))

theorem literalSpans_opening (h : ¬ ['\x7b', '\x7b'] <:+: cs ++ ['\x7b']) (seen rest : List Char) :
    literalSpans seen (cs ++ '\x7b' :: '\x7b' :: rest) = .literal (seen.reverse ++ cs) :: codeSpans [] rest := by
  induction cs generalizing seen with
  | nil => rw [List.nil_append, literalSpans, List.append_nil]
  | cons c cs ih =>
    rw [List.cons_append, literalSpans.eq_3 _ _ _ fun _ => no_pair_ahead h, ih (not_infix_tail h)]
    simp

theorem literalSpans_end (h : ¬ ['\x7b', '\x7b'] <:+: cs) (seen : List Char) :
    literalSpans seen cs = [.literal (seen.reverse ++ cs)] := by
  induction cs generalizing seen with
  | nil => rw [literalSpans, List.append_nil]
  | cons c cs ih =>
    rw [literalSpans.eq_3 _ _ _ fun _ => no_pair_inside h, ih (not_infix_tail h)]
    simp

theorem codeSpans_closing (h : ¬ closingBraces <:+: cs ++ ['\x7d']) (seen rest : List Char) :
    codeSpans seen (cs ++ (closingBraces ++ rest)) = .code (seen.reverse ++ cs) :: literalSpans [] rest := by
  induction cs generalizing seen with
  | nil =>
    rw [List.nil_append, List.append_nil]
    exact codeSpans.eq_2 seen rest
  | cons c cs ih =>
    have hcut : ∀ tail, c = '\x7d' → cs ++ (closingBraces ++ rest) = '\x7d' :: tail → False :=
      fun _ => no_pair_ahead h
    rw [List.cons_append, codeSpans.eq_3 _ _ _ hcut, ih (not_infix_tail h)]
    simp

theorem codeSpans_unclosed (h : ¬ closingBraces <:+: cs) (seen : List Char) : codeSpans seen cs = [.unclosed] := by
  induction cs generalizing seen with
  | nil => rw [codeSpans]
  | cons c cs ih => rw [codeSpans.eq_3 _ _ _ fun _ => no_pair_inside h, ih (not_infix_tail h)]

/-- A text falls into literal texts and expressions in one way only. -/
theorem Interpolated.eq_spans (h : Interpolated cs ss) : ss = spans cs := by
  unfold spans
  induction h with
  | literal h => rw [literalSpans_end h, List.reverse_nil, List.nil_append]
  | code hcs hcode _ ih =>
    rw [literalSpans_opening hcs, codeSpans_closing hcode, ← ih, List.reverse_nil, List.nil_append, List.nil_append]
  | unclosed hcs hcode =>
    rw [literalSpans_opening hcs, codeSpans_unclosed hcode, List.reverse_nil, List.nil_append]

/-- Double braces with nothing after them that closes them leave an open expression, also when they stand
inside another expression. -/
theorem unclosed_mem_of_suffix {after : List Char} (hafter : ¬ closingBraces <:+: after) :
    (∀ seen cs : List Char, '\x7b' :: '\x7b' :: after <:+ cs → .unclosed ∈ literalSpans seen cs) ∧
    ∀ seen cs : List Char, '\x7b' :: '\x7b' :: after <:+ cs → .unclosed ∈ codeSpans seen cs := by
  have hopen : ∀ seen cs : List Char, ¬ closingBraces <:+: cs → Span.unclosed ∈ codeSpans seen cs := by
    intro seen cs hcs
    rw [codeSpans_unclosed hcs]
    exact List.mem_singleton_self _
  have hlate : ¬ closingBraces <:+: '\x7b' :: after := by
    rw [List.infix_cons_iff]
    rintro (hfirst | hin)
    · exact absurd (List.cons_prefix_cons.mp hfirst).1 (by decide)
    · exact hafter hin
  apply literalSpans.mutual_induct
  · intro seen h
    cases List.suffix_nil.mp h
  · intro seen rest ih h
    rw [literalSpans]
    refine List.mem_cons_of_mem _ ?_
    -- the pair that stays open is the one found here, the next one, which shares a brace with it, or a later one
    rcases List.suffix_cons_iff.mp h with heq | h
    · cases heq
      exact hopen [] _ hafter
    rcases List.suffix_cons_iff.mp h with heq | h
    · cases heq
      exact hopen [] _ hlate
    · exact ih h
  · intro seen c rest hpair ih h
    rw [literalSpans.eq_3 _ _ _ hpair]
    rcases List.suffix_cons_iff.mp h with heq | h
    · cases heq
      exact (hpair after rfl rfl).elim
    · exact ih h
  · intro seen h
    cases List.suffix_nil.mp h
  · intro seen rest ih h
    rw [codeSpans]
    refine List.mem_cons_of_mem _ ?_
    rcases List.suffix_cons_iff.mp h with heq | h
    · cases heq
    rcases List.suffix_cons_iff.mp h with heq | h
    · cases heq
    · exact ih h
  · intro seen c rest hpair ih h
    rw [codeSpans.eq_3 _ _ _ hpair]
    rcases List.suffix_cons_iff.mp h with heq | h
    · cases heq
      exact hopen _ _ hlate
    · exact ih h

end Cuts

section Parts

/-- What a span of a text stands for: its characters as they are, or the value of an expression. -/
inductive TextPart where
  | text (cs : List Char)
  | value (e : Expr)

/-- Every literal text can be read, and an expression if the parser accepts it. -/
inductive Span.Reads : Span → TextPart → Prop where
  | literal (cs : List Char) : Reads (.literal cs) (.text cs)
  | code {cs : List Char} {e : Expr} (h : Expr.parse (String.ofList cs) = .ok e) : Reads (.code cs) (.value e)

namespace TextPart

def expr? : TextPart → Option Expr
  | text _ => none
  | value e => some e

/-- The expressions of a text. -/
def exprs (parts : List TextPart) : List Expr :=
  parts.filterMap expr?

/-- What a part adds to the text. -/
def shown (read : String → Value) : TextPart → Except Fault String
  | text cs => .ok (String.ofList cs)
  | value e => (e.eval read .null).map Value.display

/-- What a text means: a lone expression keeps its value, and anything else is shown in a row, up to the first
expression that fails. -/
def meaning (read : String → Value) : List TextPart → Except Fault Value
  | [text [], value e, text []] => e.eval read .null
  | parts => (parts.mapM (shown read)).map fun texts => .text (String.join texts)

/-- The operand that a part leaves. -/
def operand? : TextPart → Option Expr
  | text [] => none
  | text cs => some (.literal (.text (String.ofList cs)))
  | value e => some e

def operands (parts : List TextPart) : List Expr :=
  parts.filterMap operand?

section Operands

variable (parts : List TextPart)

@[simp] theorem exprs_text (cs : List Char) : exprs (text cs :: parts) = exprs parts := rfl

@[simp] theorem exprs_value (e : Expr) : exprs (value e :: parts) = e :: exprs parts := rfl

@[simp] theorem operands_empty : operands (text [] :: parts) = operands parts := rfl

@[simp] theorem operands_text (c : Char) (cs : List Char) :
    operands (text (c :: cs) :: parts) = .literal (.text (String.ofList (c :: cs))) :: operands parts := rfl

@[simp] theorem operands_value (e : Expr) : operands (value e :: parts) = e :: operands parts := rfl

/-- The operands that are no literals are expressions of the text. -/
theorem all_operands_isLiteral : (operands parts).all Expr.isLiteral = (exprs parts).all Expr.isLiteral := by
  induction parts with
  | nil => rfl
  | cons part parts ih =>
    cases part with
    | text cs => cases cs <;> exact ih
    | value e => rw [exprs_value, operands_value, List.all_cons, List.all_cons, ih]

/-- Only expressions name properties. -/
theorem namesOf_operands : Expr.namesOf (operands parts) = (exprs parts).flatMap Expr.names := by
  induction parts with
  | nil => rfl
  | cons part parts ih =>
    cases part with
    | text cs => cases cs <;> exact ih
    | value e => rw [exprs_value, operands_value, Expr.namesOf, List.flatMap_cons, ih]

theorem evalTexts_text (read : String → Value) (cs : List Char) :
    Expr.evalTexts read .null (operands (text cs :: parts)) =
      (Expr.evalTexts read .null (operands parts)).map (String.ofList cs ++ ·) := by
  cases cs with
  | nil =>
    rw [operands_empty]
    cases Expr.evalTexts read .null (operands parts) <;> simp [Except.map]
  | cons c cs =>
    rw [operands_text, Expr.evalTexts, Expr.eval]
    rfl

/-- The operands are shown in a row as the parts are. -/
theorem evalTexts_operands (read : String → Value) :
    Expr.evalTexts read .null (operands parts) = (parts.mapM (shown read)).map String.join := by
  induction parts with
  | nil => rfl
  | cons part parts ih =>
    rw [List.mapM_cons]
    cases part with
    | text cs =>
      rw [evalTexts_text, ih, shown]
      cases parts.mapM (shown read) with
      | error fault => rfl
      | ok texts => exact congrArg Except.ok String.join_cons.symm
    | value e =>
      rw [operands_value, Expr.evalTexts, ih, shown]
      cases e.eval read .null with
      | error fault => rfl
      | ok v =>
        cases parts.mapM (shown read) with
        | error fault => rfl
        | ok texts => exact congrArg Except.ok String.join_cons.symm

end Operands

section Meaning

theorem meaning_lone (e : Expr) : meaning read [text [], value e, text []] = e.eval read .null := rfl

theorem meaning_row (h : ∀ e, parts ≠ [text [], value e, text []]) :
    meaning read parts = (parts.mapM (shown read)).map fun texts => .text (String.join texts) :=
  meaning.eq_2 read parts h

/-- However a text is meant, its value is displayed as the row of its parts. -/
theorem display_meaning (h : meaning read parts = .ok v) :
    ∃ texts, parts.mapM (shown read) = .ok texts ∧ v.display = String.join texts := by
  by_cases hlone : ∃ e, parts = [text [], value e, text []]
  · obtain ⟨e, rfl⟩ := hlone
    rw [meaning_lone] at h
    refine ⟨["", v.display, ""], ?_, by simp⟩
    simp only [List.mapM_cons, List.mapM_nil, shown, h]
    rfl
  · rw [meaning_row fun e he => hlone ⟨e, he⟩] at h
    cases htexts : parts.mapM (shown read) with
    | error fault =>
      rw [htexts] at h
      cases h
    | ok texts =>
      rw [htexts] at h
      cases h
      exact ⟨texts, rfl, rfl⟩

end Meaning

end TextPart

theorem readSpans_of_reads (source : String) (h : List.Forall₂ Span.Reads ss parts) :
    readSpans source ss = .ok (TextPart.operands parts) := by
  induction h with
  | nil => rfl
  | cons hread _ ih =>
    cases hread with
    | literal cs =>
      cases cs with
      | nil => exact ih
      | cons c cs =>
        rw [readSpans, ih]
        · rfl
        · rintro ⟨⟩
    | code hparse =>
      rw [readSpans, hparse, ih]
      rfl

theorem readSpans_unclosed (source : String) (h : .unclosed ∈ ss)
    (hcode : ∀ cs, .code cs ∈ ss → ∃ e, Expr.parse (String.ofList cs) = .ok e) :
    readSpans source ss = .error (.expression source .unterminated) := by
  induction ss with
  | nil => cases h
  | cons s ss ih =>
    have hrest : s ≠ .unclosed → readSpans source ss = .error (.expression source .unterminated) := by
      intro hs
      exact ih ((List.mem_cons.mp h).resolve_left hs.symm) fun cs hcs => hcode cs (List.mem_cons_of_mem _ hcs)
    cases s with
    | literal cs =>
      cases cs with
      | nil => exact hrest (by simp)
      | cons c cs =>
        rw [readSpans, hrest (by simp)]
        · rfl
        · rintro ⟨⟩
    | code cs =>
      obtain ⟨e, he⟩ := hcode cs List.mem_cons_self
      rw [readSpans, he, hrest (by simp)]
      rfl
    | unclosed => rfl

/-- Literal texts and expressions take turns, with a literal text at both ends. -/
inductive TextPart.InTurn : List Char → List TextPart → Prop where
  | text (cs : List Char) : InTurn cs [.text cs]
  | value {cs code rest : List Char} {e : Expr} {parts : List TextPart}
      (he : Expr.parse (String.ofList code) = .ok e) (h : InTurn rest parts) :
      InTurn (cs ++ '\x7b' :: '\x7b' :: (code ++ (closingBraces ++ rest))) (.text cs :: .value e :: parts)

theorem Interpolated.inTurn (h : Interpolated cs ss) (hread : List.Forall₂ Span.Reads ss parts) :
    TextPart.InTurn cs parts := by
  induction h generalizing parts with
  | literal _ =>
    cases hread with
    | cons hfirst hrest =>
      cases hfirst
      cases hrest
      exact .text _
  | code _ _ _ ih =>
    cases hread with
    | cons hfirst hrest =>
      cases hfirst
      cases hrest with
      | cons hsecond hrest =>
        cases hsecond with
        | code he => exact .value he (ih hrest)
  | unclosed _ _ =>
    cases hread with
    | cons _ hrest =>
      cases hrest with
      | cons hsecond _ => cases hsecond

namespace TextPart.InTurn

theorem plain (h : InTurn cs parts) (hplain : exprs parts = []) : parts = [.text cs] := by
  cases h with
  | text _ => rfl
  | value _ _ => cases hplain

/-- One operand that is no literal can only come from an expression that is the whole text. -/
theorem lone (h : InTurn cs parts) {e : Expr} (hone : operands parts = [e]) (he : e.isLiteral = false) :
    parts = [.text [], .value e, .text []] := by
  cases h with
  | text _ =>
    cases cs with
    | nil => cases hone
    | cons c cs =>
      cases hone
      cases he
  | @value before _ rest _ _ _ h =>
    cases before with
    | cons c before => cases hone
    | nil =>
      obtain ⟨heq, hnone⟩ := List.cons.inj hone
      cases heq
      cases h with
      | text _ =>
        cases rest with
        | nil => rfl
        | cons _ _ => cases hnone
      | @value more _ _ _ _ _ _ => cases more <;> cases hnone

end TextPart.InTurn

end Parts

section Braces

/-- A numeral has no braces. -/
theorem brace_not_mem_positional (d : Decimal) : '\x7d' ∉ d.positional := by
  have hdigits : '\x7d' ∉ Nat.toDigits 10 d.digits :=
    fun h => absurd (Nat.isDigit_of_mem_toDigits (by decide) (by decide) h) (by decide)
  have hzeros : ∀ n, '\x7d' ∉ List.replicate n '0' :=
    fun n h => absurd (List.eq_of_mem_replicate h) (by decide)
  unfold Decimal.positional
  dsimp only
  generalize hpadded : List.replicate (d.exponent.natAbs + 1 - (Nat.toDigits 10 d.digits).length) '0' ++
    Nat.toDigits 10 d.digits = padded
  have hmem : '\x7d' ∉ padded := by
    rw [← hpadded, List.mem_append]
    exact not_or.mpr ⟨hzeros _, hdigits⟩
  split
  · rw [List.mem_append]
    exact not_or.mpr ⟨hdigits, hzeros _⟩
  · split
    · exact fun h => hmem (List.mem_of_mem_take h)
    next kept hkept =>
      rw [List.mem_append, List.mem_cons]
      rintro (h | h | h)
      · exact hmem (List.mem_of_mem_take h)
      · cases h
      · have hrev := List.mem_reverse.mp h
        have hdrop := (List.dropWhile_sublist _).mem hrev
        exact hmem (List.mem_of_mem_drop (List.mem_reverse.mp hdrop))

theorem brace_not_mem_numeral (x : Float) : '\x7d' ∉ (numeral x).toList := by
  unfold numeral
  split
  · decide
  · split <;> decide
  next negative mantissa exponent _ =>
    have hbody : '\x7d' ∉ if mantissa = 0 then ['0'] else (shortest mantissa exponent).positional := by
      split
      · decide
      · exact brace_not_mem_positional _
    rw [String.toList_ofList]
    split
    · rw [List.mem_cons]
      rintro (h | h)
      · cases h
      · exact hbody h
    · exact hbody

/-- What is displayed has no braces, unless it is a text. -/
theorem brace_not_mem_display (h : ∀ s, v ≠ .text s) : '\x7d' ∉ v.display.toList := by
  cases v with
  | null => decide
  | bool b => cases b <;> decide
  | number x =>
    rw [Value.display]
    split
    · decide
    · exact brace_not_mem_numeral x
  | text s => exact absurd rfl (h s)
  | callback c => exact (by decide : '\x7d' ∉ String.toList "[callback]")

theorem Expr.Printed.text_mem {extra : Bool} {level : Nat} {e : Expr} {ts : List Token}
    (h : e.Printed extra level ts) {s : String} (he : e = .literal (.text s)) : .text s ∈ ts := by
  induction h with
  | text s' =>
    cases he
    exact List.mem_singleton_self _
  | parens _ _ ih => exact List.mem_cons_of_mem _ (List.mem_append_left _ (ih he))
  | number _ _ | bool _ | null | event | prop _ | not _ _ | binary _ _ _ _ _ => cases he

theorem Spaced.text_sublist {ts : List Token} (h : Spaced ts cs) {s : String} (hs : .text s ∈ ts) :
    s.toList.Sublist cs := by
  induction h with
  | done _ => cases hs
  | @token gap spelling rest t ts _ ht _ ih =>
    rcases List.mem_cons.mp hs with rfl | hs
    · have hspelling : s.toList.Sublist spelling := by
        cases ht with
        | text _ _ =>
          rw [String.toList_ofList]
          exact (List.sublist_append_left _ _).cons _
      exact hspelling.trans ((List.sublist_append_left _ _).trans (List.sublist_append_right _ _))
    · exact (ih hs).trans ((List.sublist_append_right _ _).trans (List.sublist_append_right _ _))

/-- A literal shows no more braces than its source has. -/
theorem count_brace_display {code : List Char} (h : Expr.parse (String.ofList code) = .ok (.literal v)) :
    v.display.toList.count '\x7d' ≤ code.count '\x7d' := by
  by_cases htext : ∃ s, v = .text s
  · obtain ⟨s, rfl⟩ := htext
    rw [Expr.parse_eq_ok_iff, Option.bind_eq_some_iff, String.toList_ofList] at h
    obtain ⟨ts, hts, hparse⟩ := h
    have hspaced := spaced_of_tokens? hts
    have hprinted := printed_of_parseTokens? hspaced.spelled hparse
    exact (hspaced.text_sublist (hprinted.text_mem rfl)).count_le _
  · rw [List.count_eq_zero.mpr (brace_not_mem_display fun s hs => htext ⟨s, hs⟩)]
    exact Nat.zero_le _

/-- A row of literals shows fewer braces than the text has, two for each expression. -/
theorem TextPart.InTurn.count_brace (h : InTurn cs parts) (hliteral : ∀ e ∈ exprs parts, e.isLiteral = true)
    {texts : List String} (htexts : parts.mapM (shown read) = .ok texts) :
    (String.join texts).toList.count '\x7d' + 2 * (exprs parts).length ≤ cs.count '\x7d' := by
  induction h generalizing texts with
  | text cs =>
    cases htexts
    have hnone : exprs [.text cs] = [] := rfl
    simp [hnone]
  | @value cs code rest e parts he h ih =>
    rw [exprs_text, exprs_value] at hliteral ⊢
    obtain ⟨hfirst, hlater⟩ := List.forall_mem_cons.mp hliteral
    cases e with
    | literal v =>
      rw [List.mapM_cons, List.mapM_cons] at htexts
      cases hmore : parts.mapM (shown read) with
      | error fault =>
        rw [hmore] at htexts
        cases htexts
      | ok more =>
        rw [hmore] at htexts
        cases htexts
        have hrest := ih hlater hmore
        have hv := count_brace_display he
        simp only [String.join_cons, String.toList_append, String.toList_ofList, List.count_append, List.count_cons,
          closingBraces, List.length_cons, List.count_nil] at hrest ⊢
        simp only [beq_self_eq_true, ↓reduceIte] at hrest ⊢
        omega
    | prop _ | event | not _ | binary _ _ _ | concat _ => cases hfirst

end Braces

theorem filter_firstOccurrences (p : String → Bool) (names : List String) :
    firstOccurrences (names.filter p) = (firstOccurrences names).filter p := by
  induction names with
  | nil => rfl
  | cons name names ih =>
    rw [firstOccurrences, List.filter_cons, List.filter_cons]
    split
    · rw [firstOccurrences, ih, List.filter_filter, List.filter_filter]
      simp only [Bool.and_comm]
    · next hp =>
      rw [ih, List.filter_filter]
      refine List.filter_congr fun other _ => ?_
      by_cases heq : other = name
      · subst heq
        simpa using hp
      · simp [heq]

theorem firstOccurrences_eq_eraseDups (names : List String) : firstOccurrences names = names.eraseDups := by
  induction hn : names.length using Nat.strong_induction_on generalizing names with
  | _ n ih =>
    cases names with
    | nil => rfl
    | cons name names =>
      have hlt : (names.filter fun other => !other == name).length < n := by
        rw [← hn, List.length_cons]
        exact Nat.lt_succ_of_le (List.length_filter_le _ _)
      rw [List.eraseDups_cons, ← ih _ hlt _ rfl, filter_firstOccurrences, firstOccurrences]
      refine congrArg _ (List.filter_congr fun other _ => ?_)
      by_cases heq : other = name <;> simp [heq]

theorem Expr.namesOf_literals {es : List Expr} (h : es.all Expr.isLiteral = true) : Expr.namesOf es = [] := by
  induction es with
  | nil => rfl
  | cons e es ih =>
    rw [List.all_cons, Bool.and_eq_true] at h
    cases e with
    | literal v => exact ih h.2
    | prop _ | event | not _ | binary _ _ _ | concat _ => cases h.1

namespace ValueSpec

theorem deps_ofParts (source : String) (es : List Expr) :
    (ofParts source es).deps = firstOccurrences (Expr.namesOf es) := by
  cases hall : es.all Expr.isLiteral with
  | true =>
    rw [ofParts_literals hall, Expr.namesOf_literals hall]
    rfl
  | false =>
    by_cases hlone : ∃ e, es = [e]
    · obtain ⟨e, rfl⟩ := hlone
      have he : e.isLiteral = false := by simpa using hall
      rw [ofParts_lone he, Expr.namesOf, Expr.namesOf, List.append_nil]
      rfl
    · rw [ofParts_row hall fun e he => hlone ⟨e, he⟩]
      rfl

end ValueSpec

/-- A mixture of parts has the value that they mean. -/
theorem TextPart.InTurn.evalIn_ofParts {source : String} (h : InTurn source.toList parts)
    (hall : (exprs parts).all Expr.isLiteral = false) (read : String → Value) :
    (ValueSpec.ofParts source (operands parts)).evalIn read = meaning read parts := by
  rw [← all_operands_isLiteral] at hall
  by_cases hlone : ∃ e, parts = [.text [], .value e, .text []]
  · obtain ⟨e, rfl⟩ := hlone
    have he : e.isLiteral = false := by simpa [operands, operand?] using hall
    exact congrArg (ValueSpec.evalIn read) (ValueSpec.ofParts_lone he)
  · have hrow : ∀ e, operands parts ≠ [e] := by
      intro e hone
      rw [hone] at hall
      exact hlone ⟨e, h.lone hone (by simpa using hall)⟩
    rw [ValueSpec.ofParts_row hall hrow, meaning_row fun e he => hlone ⟨e, he⟩]
    change Expr.eval read .null (.concat (operands parts)) = _
    rw [Expr.eval, evalTexts_operands]
    cases parts.mapM (shown read) <;> rfl

theorem TextPart.InTurn.meaning_eq_source {source : String} (h : InTurn source.toList parts)
    (hliteral : ∀ e ∈ exprs parts, e.isLiteral = true) (read : String → Value) :
    meaning read parts = .ok (.text source) ↔ exprs parts = [] := by
  constructor
  · intro hmeaning
    obtain ⟨texts, htexts, hdisplay⟩ := display_meaning hmeaning
    -- the source would have to show all its braces, those around the expressions included
    have hcount := h.count_brace hliteral htexts
    rw [← hdisplay] at hcount
    rw [← List.length_eq_zero_iff]
    simp only [Value.display] at hcount
    omega
  · intro hnone
    rw [h.plain hnone]
    simp [meaning, shown, Except.map, pure, Except.pure, bind, Except.bind, String.join]

/-- The spec of a text has the value that the text means, and depends on what its expressions name, if some
expression is more than a literal. Otherwise its value is the source as it stands, which is what the text means
only if it has no expressions at all. Double braces with nothing after them that closes them are refused. -/
theorem interpolated_text_means_row (source : String) (ss : List Span) (hss : Interpolated source.toList ss) :
    (∀ parts : List TextPart, List.Forall₂ Span.Reads ss parts →
      ∃ spec, ValueSpec.ofInterpolated source = .ok spec ∧
        spec.deps = ((TextPart.exprs parts).flatMap Expr.names).eraseDups ∧
        ((∃ e ∈ TextPart.exprs parts, e.isLiteral = false) →
          ∀ read, spec.evalIn read = TextPart.meaning read parts) ∧
        ((∀ e ∈ TextPart.exprs parts, e.isLiteral = true) →
          ∀ read, spec.evalIn read = .ok (.text source) ∧
            (TextPart.meaning read parts = .ok (.text source) ↔ TextPart.exprs parts = []))) ∧
    ∀ after : List Char, '\x7b' :: '\x7b' :: after <:+ source.toList → ¬ closingBraces <:+: after →
      (∀ cs, .code cs ∈ ss → ∃ e, Expr.parse (String.ofList cs) = .ok e) →
      ValueSpec.ofInterpolated source = .error (.expression source .unterminated) := by
  have hspans := hss.eq_spans
  constructor
  · intro parts hread
    have hturn := hss.inTurn hread
    refine ⟨.ofParts source (TextPart.operands parts), ?_, ?_, ?_, ?_⟩
    · rw [ValueSpec.ofInterpolated, ← hspans, readSpans_of_reads source hread]
      rfl
    · rw [ValueSpec.deps_ofParts, TextPart.namesOf_operands, firstOccurrences_eq_eraseDups]
    · rintro ⟨e, hmem, he⟩ read
      have hall : (TextPart.exprs parts).all Expr.isLiteral = false :=
        List.all_eq_false.mpr ⟨e, hmem, by simp [he]⟩
      exact hturn.evalIn_ofParts hall read
    · intro hliteral read
      have hall : (TextPart.operands parts).all Expr.isLiteral = true := by
        rw [TextPart.all_operands_isLiteral]
        exact List.all_eq_true.mpr hliteral
      refine ⟨?_, hturn.meaning_eq_source hliteral read⟩
      rw [ValueSpec.ofParts_literals hall]
      rfl
  · intro after hsuffix hafter hcode
    have hopen : Span.unclosed ∈ ss := by
      rw [hspans]
      exact (unclosed_mem_of_suffix hafter).1 [] _ hsuffix
    rw [ValueSpec.ofInterpolated, ← hspans, readSpans_unclosed source hopen hcode]
    rfl

/-- A greeting with a name in it twice. -/
def sampleWelcome : String :=
  "Hi \x7b\x7bn\x7d\x7d\x7b\x7bn\x7d\x7d!"

def sampleWelcomeParts : List TextPart :=
  [.text ['H', 'i', ' '], .value (.prop "n"), .text [], .value (.prop "n"), .text ['!']]

theorem sampleWelcome_reads : List.Forall₂ Span.Reads (spans sampleWelcome.toList) sampleWelcomeParts := by
  have hspans : spans sampleWelcome.toList =
      [.literal ['H', 'i', ' '], .code ['n'], .literal [], .code ['n'], .literal ['!']] := by decide
  rw [hspans]
  exact .cons (.literal _) (.cons (.code parse_n) (.cons (.literal _) (.cons (.code parse_n) (.cons (.literal _) .nil))))

theorem interpolated_text_means_row_samples :
    (∃ spec, ValueSpec.ofInterpolated sampleWelcome = .ok spec ∧ spec.deps = ["n"] ∧
      spec.evalIn (fun _ => .text "Al") = .ok (.text "Hi AlAl!")) ∧
    ValueSpec.ofInterpolated "a \x7b\x7b b" = .error (.expression "a \x7b\x7b b" .unterminated) := by
  constructor
  · obtain ⟨spec, hspec, hdeps, hmixed, -⟩ :=
      (interpolated_text_means_row sampleWelcome _ (interpolated_spans _)).1 _ sampleWelcome_reads
    exact ⟨spec, hspec, hdeps.trans (by decide), (hmixed ⟨.prop "n", .head _, rfl⟩ _).trans rfl⟩
  · refine (interpolated_text_means_row "a \x7b\x7b b" _ (interpolated_spans _)).2 [' ', 'b'] ?_ ?_ ?_
    · exact ⟨['a', ' '], by decide⟩
    · intro h
      exact absurd (h.subset (.head _ : '\x7d' ∈ closingBraces)) (by decide)
    · have hspans : spans (String.toList "a \x7b\x7b b") = [.literal ['a', ' '], .unclosed] := by decide
      rw [hspans]
      simp

/-- A lone literal does not keep its own value: the text stays as it is written, braces and all. -/
theorem lone_literal_stays_source :
    Expr.parse "true" = .ok (.literal (.bool true)) ∧
    spans (String.toList "\x7b\x7btrue\x7d\x7d") = [.literal [], .code (String.toList "true"), .literal []] ∧
    ∃ spec, ValueSpec.ofInterpolated "\x7b\x7btrue\x7d\x7d" = .ok spec ∧
      ∀ read, spec.evalIn read = .ok (.text "\x7b\x7btrue\x7d\x7d") := by
  have htrue : Expr.parse "true" = .ok (.literal (.bool true)) :=
    @Expr.parse_of_printed _ _ true _ (.bool true)
      (.adjacent (Token.spelled_word rfl (List.all_eq_true.mp rfl)) (.done isGap_nil))
  have hspans : spans (String.toList "\x7b\x7btrue\x7d\x7d") =
      [.literal [], .code (String.toList "true"), .literal []] := by decide
  refine ⟨htrue, hspans, .constant (.text "\x7b\x7btrue\x7d\x7d"), ?_, fun _ => rfl⟩
  have hread : List.Forall₂ Span.Reads (spans (String.toList "\x7b\x7btrue\x7d\x7d"))
      [.text [], .value (.literal (.bool true)), .text []] := by
    rw [hspans]
    exact .cons (.literal _) (.cons (.code htrue) (.cons (.literal _) .nil))
  rw [ValueSpec.ofInterpolated, readSpans_of_reads _ hread]
  rfl

end LiveMarkup
