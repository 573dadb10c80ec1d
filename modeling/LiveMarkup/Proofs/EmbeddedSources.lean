import LiveMarkup.Proofs.Blanks
import LiveMarkup.Proofs.ParsePrinted

namespace LiveMarkup

variable {cs : List Char} {e : Expr}

/-- Source of another language inside markup. The last kind is a text with double braces that are never
closed. -/
inductive Embedded where
  | expression (source : String)
  | handler (source : String)
  | unclosed (text : String)

def refusal? {α : Type} : Except ParseError α → Option ParseError
  | .ok _ => none
  | .error e => some e

def Embedded.flaw? : Embedded → Option ParseError
  | .expression source => refusal? (Expr.parse source)
  | .handler source => refusal? (Handler.parse source)
  | .unclosed text => some (.expression text .unterminated)

section Verdicts

variable {α β : Type} {es : List Embedded}

/-- A value, unless something embedded is refused; then the first refusal. -/
def verdict (es : List Embedded) (value : α) : Except ParseError α :=
  (es.findSome? Embedded.flaw?).elim (.ok value) .error

theorem verdict_bind {more : List Embedded} {a : α} {b : β} {f : α → Except ParseError β}
    (h : f a = verdict more b) : (verdict es a >>= f) = verdict (es ++ more) b := by
  unfold verdict at h ⊢
  rw [List.findSome?_append]
  cases es.findSome? Embedded.flaw? with
  | none => exact h
  | some e => rfl

theorem verdict_bind_ok {a : α} {b : β} {f : α → Except ParseError β} (h : f a = .ok b) :
    (verdict es a >>= f) = verdict es b := by
  rw [verdict_bind (h.trans rfl : f a = verdict [] b), List.append_nil]

/-- The value matters only where nothing is refused. -/
theorem verdict_congr {a b : α} (h : (∀ s ∈ es, s.flaw? = none) → a = b) : verdict es a = verdict es b := by
  unfold verdict
  cases hflaw : es.findSome? Embedded.flaw? with
  | none => rw [h (List.findSome?_eq_none_iff.mp hflaw)]
  | some e => rfl

/-- What is embedded is read first, and what comes after it may use what it stands for. -/
theorem parse_bind (source : Embedded) {parsed : Except ParseError α} {b : β} {f : α → Except ParseError β}
    (hflaw : source.flaw? = refusal? parsed) (h : ∀ a, parsed = .ok a → f a = verdict es b) :
    (parsed >>= f) = verdict (source :: es) b := by
  unfold verdict at h ⊢
  rw [List.findSome?_cons, hflaw]
  cases parsed with
  | error e => rfl
  | ok a => exact h a rfl

end Verdicts

section Texts

/-- How a text falls into literal texts and expressions. An expression runs from double braces to the first
double braces that close it. -/
inductive Interpolated : List Char → List Span → Prop where
  | literal {cs : List Char} (h : ¬ ['\x7b', '\x7b'] <:+: cs) : Interpolated cs [.literal cs]
  | code {cs code rest : List Char} {more : List Span} (hcs : ¬ ['\x7b', '\x7b'] <:+: cs ++ ['\x7b'])
      (hcode : ¬ closingBraces <:+: code ++ ['\x7d']) (h : Interpolated rest more) :
      Interpolated (cs ++ '\x7b' :: '\x7b' :: (code ++ (closingBraces ++ rest))) (.literal cs :: .code code :: more)
  | unclosed {cs code : List Char} (hcs : ¬ ['\x7b', '\x7b'] <:+: cs ++ ['\x7b'])
      (hcode : ¬ closingBraces <:+: code) :
      Interpolated (cs ++ '\x7b' :: '\x7b' :: code) [.literal cs, .unclosed]

/-- A character was not seen twice in a row, nor does a pair of it begin at the last one seen. -/
def NoPair (b : Char) (seen cs : List Char) : Prop :=
  ¬ [b, b] <:+: seen.reverse ++ cs.take 1

theorem noPair_nil (b : Char) (cs : List Char) : NoPair b [] cs := by
  intro h
  have hlength := h.length_le
  simp only [List.length_cons, List.reverse_nil, List.nil_append, List.length_take] at hlength
  omega

theorem NoPair.next {b c : Char} {seen rest : List Char} (h : NoPair b seen (c :: rest))
    (hpair : ∀ tail, c = b → rest = b :: tail → False) : NoPair b (c :: seen) rest := by
  unfold NoPair
  rw [List.reverse_cons]
  cases rest with
  | nil =>
    rw [List.take_nil, List.append_nil]
    exact h
  | cons d rest =>
    have hd : List.take 1 (d :: rest) = [d] := rfl
    rw [hd, List.infix_concat_iff]
    rintro (⟨front, hfront⟩ | hin)
    · have hlast : front ++ [b] ++ [b] = seen.reverse ++ [c] ++ [d] := by rw [← hfront, List.append_assoc]; rfl
      obtain ⟨hinit, hd⟩ := List.append_inj' hlast rfl
      obtain ⟨-, hc⟩ := List.append_inj' hinit rfl
      exact hpair rest (List.cons.inj hc).1.symm (by rw [(List.cons.inj hd).1])
    · exact h hin

/-- The cuts are made at the braces that open and close an expression. -/
theorem interpolated_of_seen :
    (∀ seen cs : List Char, NoPair '\x7b' seen cs → Interpolated (seen.reverse ++ cs) (literalSpans seen cs)) ∧
    (∀ seen cs : List Char, NoPair '\x7d' seen cs →
      ∀ before : List Char, ¬ ['\x7b', '\x7b'] <:+: before ++ ['\x7b'] →
      Interpolated (before ++ '\x7b' :: '\x7b' :: (seen.reverse ++ cs)) (.literal before :: codeSpans seen cs)) := by
  have hshift : ∀ (c : Char) (seen rest : List Char), (c :: seen).reverse ++ rest = seen.reverse ++ c :: rest := by
    intro c seen rest
    rw [List.reverse_cons, List.append_assoc, List.singleton_append]
  apply literalSpans.mutual_induct
  · intro seen h
    unfold NoPair at h
    rw [List.take_nil, List.append_nil] at h
    rw [literalSpans, List.append_nil]
    exact .literal h
  · intro seen rest ih h
    rw [literalSpans]
    exact ih (noPair_nil _ _) _ h
  · intro seen c rest hpair ih h
    rw [literalSpans.eq_3 _ _ _ hpair, ← hshift]
    exact ih (h.next hpair)
  · intro seen h before hbefore
    unfold NoPair at h
    rw [List.take_nil, List.append_nil] at h
    rw [codeSpans, List.append_nil]
    exact .unclosed hbefore h
  · intro seen rest ih h before hbefore
    rw [codeSpans]
    exact .code hbefore h (ih (noPair_nil _ _))
  · intro seen c rest hpair ih h before hbefore
    rw [codeSpans.eq_3 _ _ _ hpair, ← hshift]
    exact ih (h.next hpair) before hbefore

theorem interpolated_spans (cs : List Char) : Interpolated cs (spans cs) :=
  interpolated_of_seen.1 [] cs (noPair_nil _ _)

/-- What a span adds to the row that a text stands for. Empty literal texts add nothing. -/
def Span.part? : Span → Option Expr
  | .literal cs => if cs = [] then none else some (.literal (.text (String.ofList cs)))
  | .code cs => (Expr.parse (String.ofList cs)).toOption
  | .unclosed => none

/-- The expression of a span, if it is more than a literal. -/
def Span.openExpr? : Span → Option Expr
  | .code cs =>
    match Expr.parse (String.ofList cs) with
    | .ok (.literal _) | .error _ => none
    | .ok e => some e
  | .literal _ | .unclosed => none

def Span.embedded (text : String) : Span → List Embedded
  | .literal _ => []
  | .code cs => [.expression (String.ofList cs)]
  | .unclosed => [.unclosed text]

def embeddedIn (text : String) : List Embedded :=
  (spans text.toList).flatMap (Span.embedded text)

/-- What a text with expressions stands for. Text without expressions that are more than a literal stands for
itself, an expression that is the whole text keeps its value, and any other text is the row of its parts. -/
def interpolation (text : String) : ValueSpec :=
  match (spans text.toList).filterMap Span.openExpr?, spans text.toList with
  | [], _ => .constant (.text text)
  | [e], [.literal [], .code code, .literal []] => e.toSpec (String.ofList (stripped code))
  | _, ss => (Expr.concat (ss.filterMap Span.part?)).toSpec text

theorem readSpans_eq (text : String) (ss : List Span) :
    readSpans text ss = verdict (ss.flatMap (Span.embedded text)) (ss.filterMap Span.part?) := by
  induction ss with
  | nil => rfl
  | cons s ss ih =>
    cases s with
    | literal cs =>
      cases cs with
      | nil => exact ih
      | cons c cs =>
        rw [readSpans, ih]
        · exact verdict_bind_ok rfl
        · rintro ⟨⟩
    | code cs =>
      refine parse_bind (.expression _) rfl fun e he => ?_
      have hpart : (Span.code cs).part? = some e := by rw [Span.part?, he]; rfl
      rw [ih, List.filterMap_cons_some hpart]
      exact verdict_bind_ok rfl
    | unclosed => rfl

section Labels

theorem not_mem_of_isNumeral {c : Char} (h : IsNumeral cs) (hdigit : c.isDigit = false) (hpoint : c ≠ '.') :
    c ∉ cs := by
  have hnone : ∀ ds : List Char, (∀ d ∈ ds, d.isDigit = true) → c ∉ ds := by
    intro ds hds hc
    rw [hds c hc] at hdigit
    cases hdigit
  cases h with
  | whole _ hds => exact hnone _ hds
  | fraction _ hds _ hfs => simp [hnone _ hds, hnone _ hfs, hpoint]

/-- No token begins or ends with a brace. -/
theorem Token.Spelled.no_braces {t : Token} (h : t.Spelled cs) :
    cs ≠ [] ∧ cs.head? ≠ some '\x7b' ∧ cs.getLast? ≠ some '\x7d' := by
  have hfree : ∀ {cs : List Char}, '\x7b' ∉ cs → '\x7d' ∉ cs →
      cs.head? ≠ some '\x7b' ∧ cs.getLast? ≠ some '\x7d' :=
    fun hopen hclose => ⟨fun h => hopen (List.mem_of_mem_head? h), fun h => hclose (List.mem_of_getLast? h)⟩
  cases h with
  | @text quote cs hquote _ =>
    have hlast : (quote :: (cs ++ [quote])).getLast? = some quote := by
      rw [← List.cons_append, List.getLast?_concat]
    rw [hlast]
    rcases hquote with rfl | rfl <;> exact ⟨nofun, by simp, by decide⟩
  | number h =>
    obtain ⟨c, cs', rfl, -⟩ := h.exists_cons
    exact ⟨nofun, hfree (not_mem_of_isNumeral h rfl (by decide)) (not_mem_of_isNumeral h rfl (by decide))⟩
  | @word c cs hc hcs =>
    have hchar : ∀ x ∈ c :: cs, isWordChar x = true :=
      List.forall_mem_cons.mpr ⟨isWordChar_iff.mpr (.inr hc), fun x hx => isWordChar_iff.mpr (hcs x hx)⟩
    have hnone : ∀ x, isWordChar x = false → x ∉ c :: cs := fun x hx hmem => ne_of_class (hchar x hmem) hx rfl
    exact ⟨nofun, hfree (hnone _ rfl) (hnone _ rfl)⟩
  | op op => cases op <;> decide
  | bang | assign | opening | closing => decide

theorem Spaced.no_braces {ts : List Token} (h : Spaced ts cs) : cs.head? ≠ some '\x7b' ∧ cs.getLast? ≠ some '\x7d' := by
  have hgaps : ∀ {gap : List Char}, IsGap gap → '\x7b' ∉ gap ∧ '\x7d' ∉ gap :=
    fun hgap => ⟨fun hc => absurd (hgap _ hc) (by decide), fun hc => absurd (hgap _ hc) (by decide)⟩
  induction h with
  | done hgap =>
    exact ⟨fun h => (hgaps hgap).1 (List.mem_of_mem_head? h), fun h => (hgaps hgap).2 (List.mem_of_getLast? h)⟩
  | @token gap cs rest t ts hgap ht _ ih =>
    obtain ⟨hne, hhead, hlast⟩ := ht.no_braces
    constructor
    · cases gap with
      | nil => rwa [List.nil_append, List.head?_append_of_ne_nil _ hne]
      | cons g gap => exact fun h => (hgaps hgap).1 (by rw [Option.some.inj h]; exact List.mem_cons_self)
    · rw [List.getLast?_append_of_ne_nil _ (by simp [hne])]
      cases rest with
      | nil => rwa [List.append_nil]
      | cons c rest =>
        rw [List.getLast?_append_of_ne_nil _ (List.cons_ne_nil c rest)]
        exact ih.2

theorem dropOpening_eq_self (h : cs.head? ≠ some '\x7b') : dropOpening cs = cs := by
  unfold dropOpening
  split
  next => exact absurd rfl h
  next => rfl

theorem dropClosing_eq_self (h : cs.head? ≠ some '\x7d') : dropClosing cs = cs := by
  unfold dropClosing
  split
  next => exact absurd rfl h
  next => rfl

/-- The label of a lone expression is its source without the blanks around it. -/
theorem loneLabel_braces {code : List Char} (h : Expr.parse (String.ofList code) = .ok e) :
    loneLabel ('\x7b' :: '\x7b' :: (code ++ closingBraces)) = stripped code := by
  rw [Expr.parse_eq_ok_iff, Option.bind_eq_some_iff, String.toList_ofList] at h
  obtain ⟨ts, hts, -⟩ := h
  obtain ⟨hhead, hlast⟩ := (spaced_of_tokens? hts).no_braces
  have htrim : trim ('\x7b' :: '\x7b' :: (code ++ closingBraces)) = '\x7b' :: '\x7b' :: (code ++ closingBraces) := by
    rw [trim_eq_stripped]
    refine stripped_eq_self ?_ ?_
    · rintro _ ⟨⟩
      decide
    · have hend : ('\x7b' :: '\x7b' :: (code ++ closingBraces)).getLast? = some '\x7d' := by
        rw [← List.cons_append, ← List.cons_append, List.getLast?_append_of_ne_nil _ (by decide)]
        rfl
      rw [hend]
      rintro _ ⟨⟩
      decide
  have hopening : dropOpening ('\x7b' :: '\x7b' :: (code ++ closingBraces)) = code ++ closingBraces := by
    rw [dropOpening]
    refine dropOpening_eq_self ?_
    cases code with
    | nil => decide
    | cons c code => exact hhead
  have hclosing : dropClosing (code ++ closingBraces).reverse = code.reverse := by
    rw [List.reverse_append]
    exact dropClosing_eq_self (by rwa [List.head?_reverse])
  rw [loneLabel, htrim, hopening, hclosing, List.reverse_reverse, trim_eq_stripped]

end Labels

section Parts

variable {text : String} {ss : List Span}

/-- Every expression of a text can be read, and all of them are closed. -/
def Readable (ss : List Span) : Prop :=
  .unclosed ∉ ss ∧ ∀ code, .code code ∈ ss → ∃ e, Expr.parse (String.ofList code) = .ok e

theorem readable_of_flaws (h : ∀ s ∈ embeddedIn text, s.flaw? = none) : Readable (spans text.toList) := by
  have hspan : ∀ span ∈ spans text.toList, ∀ s ∈ span.embedded text, s.flaw? = none :=
    fun span hspan s hs => h s (List.mem_flatMap.mpr ⟨span, hspan, hs⟩)
  constructor
  · intro hopen
    cases hspan _ hopen _ List.mem_cons_self
  · intro code hcode
    have hflaw := hspan _ hcode _ List.mem_cons_self
    cases hparse : Expr.parse (String.ofList code) with
    | ok e => exact ⟨e, rfl⟩
    | error f =>
      rw [Embedded.flaw?, hparse] at hflaw
      cases hflaw

/-- The parts are literals where no expression is more than one. -/
theorem all_isLiteral_parts (hread : Readable ss) :
    (ss.filterMap Span.part?).all Expr.isLiteral = (ss.filterMap Span.openExpr?).isEmpty := by
  induction ss with
  | nil => rfl
  | cons s ss ih =>
    have hrest := ih ⟨fun h => hread.1 (List.mem_cons_of_mem _ h), fun c hc => hread.2 c (List.mem_cons_of_mem _ hc)⟩
    cases s with
    | literal cs =>
      rw [List.filterMap_cons_none (show Span.openExpr? (.literal cs) = none from rfl), ← hrest, List.filterMap_cons,
        Span.part?]
      by_cases hcs : cs = [] <;> simp [hcs, Expr.isLiteral]
    | code cs =>
      obtain ⟨e, he⟩ := hread.2 cs List.mem_cons_self
      have hpart : Span.part? (.code cs) = some e := by rw [Span.part?, he]; rfl
      rw [List.filterMap_cons_some hpart, List.all_cons, hrest, List.filterMap_cons, Span.openExpr?, he]
      cases e <;> simp [Expr.isLiteral]
    | unclosed => exact absurd List.mem_cons_self hread.1

/-- A part that stands alone and is more than a literal is an expression that is the whole text. -/
theorem Interpolated.lone (h : Interpolated cs ss) (hread : Readable ss) (hone : ss.filterMap Span.part? = [e])
    (he : e.isLiteral = false) :
    ∃ code, ss = [.literal [], .code code, .literal []] ∧ cs = '\x7b' :: '\x7b' :: (code ++ closingBraces) ∧
      Expr.parse (String.ofList code) = .ok e := by
  have hpart : ∀ {code : List Char}, .code code ∈ ss → ∃ e, Expr.parse (String.ofList code) = .ok e ∧
      Span.part? (.code code) = some e := by
    intro code hcode
    obtain ⟨e, he⟩ := hread.2 code hcode
    exact ⟨e, he, by rw [Span.part?, he]; rfl⟩
  cases h with
  | literal _ =>
    by_cases hcs : cs = []
    · simp [Span.part?, hcs] at hone
    · simp only [List.filterMap_cons, Span.part?, if_neg hcs, List.filterMap_nil, List.cons.injEq, and_true] at hone
      rw [← hone] at he
      cases he
  | @code cs code rest more _ _ h =>
    obtain ⟨e', he', hcode⟩ := hpart (List.mem_cons_of_mem _ List.mem_cons_self)
    rw [List.filterMap_cons, List.filterMap_cons_some hcode] at hone
    by_cases hcs : cs = []
    · subst hcs
      obtain ⟨rfl, hmore⟩ := List.cons.inj hone
      cases h with
      | literal _ =>
        by_cases hrest : rest = []
        · subst hrest
          exact ⟨code, rfl, by simp, he'⟩
        · simp [Span.part?, hrest] at hmore
      | @code cs' code' rest' more' _ _ _ =>
        have hmem : Span.code code' ∈ Span.literal cs' :: .code code' :: more' :=
          List.mem_cons_of_mem _ List.mem_cons_self
        obtain ⟨_, -, hcode'⟩ := hpart (List.mem_cons_of_mem _ (List.mem_cons_of_mem _ hmem))
        cases (List.filterMap_eq_nil_iff.mp hmore _ hmem).symm.trans hcode'
      | unclosed _ _ => exact absurd (by simp) hread.1
    · simp [Span.part?, hcs] at hone
  | unclosed _ _ => exact absurd (by simp) hread.1

namespace ValueSpec

variable {source : String} {es : List Expr}

theorem ofParts_literals (h : es.all Expr.isLiteral = true) : ofParts source es = .constant (.text source) :=
  if_pos h

theorem ofParts_lone (h : e.isLiteral = false) :
    ofParts source [e] = e.toSpec (String.ofList (loneLabel source.toList)) := by
  rw [ofParts, if_neg (by simp [h])]

theorem ofParts_row (h : es.all Expr.isLiteral = false) (hlone : ∀ e, es ≠ [e]) :
    ofParts source es = (Expr.concat es).toSpec source := by
  rw [ofParts, if_neg (by simp [h])]
  exact hlone

end ValueSpec

theorem interpolation_row (hopen : (spans text.toList).filterMap Span.openExpr? ≠ [])
    (hlone : ∀ code, spans text.toList ≠ [.literal [], .code code, .literal []]) :
    interpolation text = (Expr.concat ((spans text.toList).filterMap Span.part?)).toSpec text := by
  unfold interpolation
  split
  next hnone => exact absurd hnone hopen
  next hss => exact absurd hss (hlone _)
  next => rfl

theorem interpolation_lone {code : List Char} (hss : spans text.toList = [.literal [], .code code, .literal []])
    (hparse : Expr.parse (String.ofList code) = .ok e) (he : e.isLiteral = false) :
    interpolation text = e.toSpec (String.ofList (stripped code)) := by
  have hopen : (Span.code code).openExpr? = some e := by
    rw [Span.openExpr?, hparse]
    cases e with
    | literal v => cases he
    | prop _ | event | not _ | binary _ _ _ | concat _ => rfl
  have hexprs : (spans text.toList).filterMap Span.openExpr? = [e] := by
    rw [hss, List.filterMap_cons_none rfl, List.filterMap_cons_some hopen]
    rfl
  unfold interpolation
  rw [hexprs, hss]

/-- The reader of parts takes the three cases apart by the number of parts, and strips the braces again. -/
theorem ofParts_eq_interpolation (hread : Readable (spans text.toList)) :
    ValueSpec.ofParts text ((spans text.toList).filterMap Span.part?) = interpolation text := by
  have hall := all_isLiteral_parts hread
  by_cases hopen : (spans text.toList).filterMap Span.openExpr? = []
  · rw [hopen] at hall
    rw [ValueSpec.ofParts_literals hall, interpolation, hopen]
  have hmixed : ((spans text.toList).filterMap Span.part?).all Expr.isLiteral = false := by
    rw [hall, List.isEmpty_eq_false_iff]
    exact hopen
  by_cases hlone : ∃ e, (spans text.toList).filterMap Span.part? = [e]
  · obtain ⟨e, hone⟩ := hlone
    rw [hone] at hmixed ⊢
    have he : e.isLiteral = false := by simpa using hmixed
    obtain ⟨code, hss, htext, hparse⟩ := (interpolated_spans text.toList).lone hread hone he
    rw [ValueSpec.ofParts_lone he, htext, loneLabel_braces hparse, interpolation_lone hss hparse he]
  · rw [ValueSpec.ofParts_row hmixed fun e he => hlone ⟨e, he⟩]
    refine (interpolation_row hopen fun code hss => hlone ?_).symm
    obtain ⟨e, he⟩ := hread.2 code (by simp [hss])
    exact ⟨e, by simp [hss, Span.part?, he, Except.toOption]⟩

end Parts

theorem ofInterpolated_eq (text : String) :
    ValueSpec.ofInterpolated text = verdict (embeddedIn text) (interpolation text) := by
  have hparts : ValueSpec.ofInterpolated text =
      verdict (embeddedIn text) (ValueSpec.ofParts text ((spans text.toList).filterMap Span.part?)) := by
    rw [ValueSpec.ofInterpolated, readSpans_eq]
    exact verdict_bind_ok rfl
  rw [hparts]
  exact verdict_congr fun h => ofParts_eq_interpolation (readable_of_flaws h)

end Texts

end LiveMarkup
