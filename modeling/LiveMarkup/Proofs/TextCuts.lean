import LiveMarkup.Proofs.InterpolatedText
import LiveMarkup.Proofs.TextPlaces

namespace LiveMarkup

variable {ss ss' : List Span} {after : List Char} {source : String} {units : List TextUnit}

/-- The characters between expressions make up literal texts. Those since the last expression come first, the latest in
front. -/
def TextUnit.cuts (seen : List Char) : List TextUnit → List Span
  | [] => [.literal seen.reverse]
  | .char c :: units => TextUnit.cuts (c :: seen) units
  | .code cs :: units => .literal seen.reverse :: .code cs :: TextUnit.cuts [] units

section Cuts

/-- Where nothing is closed there is no expression. -/
theorem TextUnit.cuts_unclosed (h : ¬ closingBraces <:+: text units) (seen : List Char) :
    cuts seen units = [.literal (seen.reverse ++ text units)] := by
  induction units generalizing seen with
  | nil => rw [cuts, text_nil, List.append_nil]
  | cons u units ih =>
    cases u with
    | code cs => exact absurd ⟨'\x7b' :: '\x7b' :: cs, text units, by simp [chars]⟩ h
    | char c =>
      have hlater : ¬ closingBraces <:+: text units := fun hin => h (hin.trans (List.suffix_cons c _).isInfix)
      rw [cuts, ih hlater]
      simp [chars]

/-- How the cuts of a text compare with those of its units: they are the same, or they are up to double braces that
nothing in the rest of the source closes. -/
inductive Span.Agree (after : List Char) : List Span → List Span → Prop where
  | same {ss : List Span} (hclosed : .unclosed ∉ ss) : Agree after ss ss
  | unclosed {ss : List Span} {cs tail : List Char} (hclosed : .unclosed ∉ ss)
      (hopen : ¬ closingBraces <:+: tail ++ after) :
      Agree after (ss ++ [.literal cs, .unclosed]) (ss ++ [.literal (cs ++ '\x7b' :: '\x7b' :: tail)])

theorem Span.Agree.cons (h : Span.Agree after ss ss') {s : Span} (hs : s ≠ .unclosed) :
    Span.Agree after (s :: ss) (s :: ss') := by
  have hcons : ∀ {more : List Span}, .unclosed ∉ more → .unclosed ∉ s :: more := fun hmore hin =>
    (List.mem_cons.mp hin).elim (fun heq => hs heq.symm) hmore
  cases h with
  | same hclosed => exact .same (hcons hclosed)
  | unclosed hclosed hopen => exact .unclosed (hcons hclosed) hopen

/-- Both ways of cutting a text agree. -/
theorem TextUnits.agree {cs : List Char} (h : TextUnits cs units after) (seen : List Char) :
    Span.Agree after (literalSpans seen (TextUnit.text units)) (TextUnit.cuts seen units) := by
  induction h generalizing seen with
  | done rest =>
    rw [TextUnit.text_nil, literalSpans, TextUnit.cuts]
    exact .same (by simp)
  | @code code rest after units hcode _ ih =>
    have hspans : literalSpans seen (TextUnit.text (.code code :: units)) =
        .literal seen.reverse :: .code code :: literalSpans [] (TextUnit.text units) := by
      have htext : TextUnit.text (.code code :: units) =
          '\x7b' :: '\x7b' :: (code ++ (closingBraces ++ TextUnit.text units)) := by
        simp [TextUnit.chars]
      rw [htext, literalSpans, codeSpans_closing hcode, List.reverse_nil, List.nil_append]
    rw [hspans, TextUnit.cuts]
    exact ((ih []).cons (by simp)).cons (by simp)
  | @char c rest after units hc hopen h ih =>
    rw [TextUnit.text_cons, TextUnit.chars, List.singleton_append, TextUnit.cuts]
    by_cases hpair : ∃ tail, c = '\x7b' ∧ TextUnit.text units = '\x7b' :: tail
    · obtain ⟨tail, rfl, htail⟩ := hpair
      have hclosed : ¬ closingBraces <:+: tail ++ after := by
        refine hopen (tail ++ after) rfl ?_
        rw [h.source_eq, htail]
        rfl
      have htext : ¬ closingBraces <:+: tail := fun hin => hclosed (hin.trans (List.prefix_append _ _).isInfix)
      have hunits : ¬ closingBraces <:+: TextUnit.text units := by
        rw [htail, List.infix_cons_iff]
        rintro (hfirst | hin)
        · exact absurd (List.cons_prefix_cons.mp hfirst).1 (by decide)
        · exact htext hin
      rw [TextUnit.cuts_unclosed hunits, htail, literalSpans, codeSpans_unclosed htext]
      have hagree : Span.Agree after ([] ++ [.literal seen.reverse, .unclosed])
          ([] ++ [.literal (seen.reverse ++ '\x7b' :: '\x7b' :: tail)]) := .unclosed List.not_mem_nil hclosed
      simpa using hagree
    · have hnext : ∀ tail, c = '\x7b' → TextUnit.text units = '\x7b' :: tail → False :=
        fun tail hbrace htail => hpair ⟨tail, hbrace, htail⟩
      rw [literalSpans.eq_3 _ _ _ hnext]
      exact ih (c :: seen)

end Cuts

section Indentation

def TextUnit.IsBlank : TextUnit → Prop
  | code _ => False
  | char c => isBlank c = true

theorem trimStart_text (units : List TextUnit) : ∃ lead kept, units = lead ++ kept ∧ (∀ u ∈ lead, u.IsBlank) ∧
    trimStart (TextUnit.text units) = TextUnit.text kept := by
  induction units with
  | nil => exact ⟨[], [], rfl, fun u hu => absurd hu List.not_mem_nil, rfl⟩
  | cons u units ih =>
    have hkept : ∀ c rest, TextUnit.text (u :: units) = c :: rest → isBlank c = false → ∃ lead kept,
        u :: units = lead ++ kept ∧ (∀ u ∈ lead, u.IsBlank) ∧
          trimStart (TextUnit.text (u :: units)) = TextUnit.text kept := by
      intro c rest htext hblank
      refine ⟨[], u :: units, rfl, fun u hu => absurd hu List.not_mem_nil, ?_⟩
      rw [htext, trimStart, List.dropWhile_cons_of_neg (by simp [hblank])]
    cases u with
    | code cs => exact hkept '\x7b' _ rfl (by decide)
    | char c =>
      cases hblank : isBlank c with
      | false => exact hkept c _ rfl hblank
      | true =>
        obtain ⟨lead, kept, rfl, hlead, htrim⟩ := ih
        refine ⟨.char c :: lead, kept, rfl, ?_, ?_⟩
        · rintro u (_ | ⟨_, hu⟩)
          · exact hblank
          · exact hlead u hu
        · rw [← htrim, TextUnit.text_cons, TextUnit.chars, List.singleton_append, trimStart,
            List.dropWhile_cons_of_pos hblank, trimStart]

theorem trimEnd_text (units : List TextUnit) : ∃ kept trail, units = kept ++ trail ∧ (∀ u ∈ trail, u.IsBlank) ∧
    trimEnd (TextUnit.text units) = TextUnit.text kept := by
  induction units using List.reverseRecOn with
  | nil => exact ⟨[], [], rfl, fun u hu => absurd hu List.not_mem_nil, rfl⟩
  | append_singleton units u ih =>
    have hkept : ∀ front c, TextUnit.text (units ++ [u]) = front ++ [c] → isBlank c = false → ∃ kept trail,
        units ++ [u] = kept ++ trail ∧ (∀ u ∈ trail, u.IsBlank) ∧
          trimEnd (TextUnit.text (units ++ [u])) = TextUnit.text kept := by
      intro front c htext hblank
      refine ⟨units ++ [u], [], (List.append_nil _).symm, fun u hu => absurd hu List.not_mem_nil, ?_⟩
      rw [htext, trimEnd, List.reverse_append, List.reverse_singleton, List.singleton_append,
        List.dropWhile_cons_of_neg (by simp [hblank]), List.reverse_cons, List.reverse_reverse]
    cases u with
    | code cs =>
      refine hkept (TextUnit.text units ++ '\x7b' :: '\x7b' :: (cs ++ ['\x7d'])) '\x7d' ?_ (by decide)
      simp [TextUnit.chars, closingBraces]
    | char c =>
      have htext : TextUnit.text (units ++ [.char c]) = TextUnit.text units ++ [c] := by simp [TextUnit.chars]
      cases hblank : isBlank c with
      | false => exact hkept _ c htext hblank
      | true =>
        obtain ⟨kept, trail, rfl, htrail, htrim⟩ := ih
        refine ⟨kept, trail ++ [.char c], by rw [List.append_assoc], ?_, ?_⟩
        · intro u hu
          rcases List.mem_append.mp hu with hu | hu
          · exact htrail u hu
          · rw [List.mem_singleton.mp hu]
            exact hblank
        · rw [← htrim, htext, trimEnd, List.reverse_append, List.reverse_singleton, List.singleton_append,
            List.dropWhile_cons_of_pos hblank, trimEnd]

/-- Indentation is made of units that are single characters. -/
theorem trimIndentation_text (units : List TextUnit) : ∃ lead kept trail, units = lead ++ (kept ++ trail) ∧
    (∀ u ∈ lead ++ trail, u.IsBlank) ∧ trimIndentation (TextUnit.text units) = TextUnit.text kept := by
  have hfront : ∃ lead front, units = lead ++ front ∧ (∀ u ∈ lead, u.IsBlank) ∧
      (if (leadingBlank (TextUnit.text units)).contains '\n' then trimStart (TextUnit.text units)
        else TextUnit.text units) = TextUnit.text front := by
    split
    · exact trimStart_text units
    · exact ⟨[], units, rfl, fun u hu => absurd hu List.not_mem_nil, rfl⟩
  obtain ⟨lead, front, rfl, hlead, htext⟩ := hfront
  have hback : ∃ kept trail, front = kept ++ trail ∧ (∀ u ∈ trail, u.IsBlank) ∧
      (if (trailingBlank (TextUnit.text front)).contains '\n' then trimEnd (TextUnit.text front)
        else TextUnit.text front) = TextUnit.text kept := by
    split
    · exact trimEnd_text front
    · exact ⟨front, [], (List.append_nil _).symm, fun u hu => absurd hu List.not_mem_nil, rfl⟩
  obtain ⟨kept, trail, rfl, htrail, htrim⟩ := hback
  refine ⟨lead, kept, trail, rfl, fun u hu => (List.mem_append.mp hu).elim (hlead u) (htrail u), ?_⟩
  simp only [trimIndentation, htext]
  exact htrim

end Indentation

section Reading

variable {more : List Span} {f : ParseError}

/-- Reading stops at the first expression that cannot be read. -/
theorem readSpans_append_error (hclosed : .unclosed ∉ ss) (h : readSpans source (ss ++ more) = .error f) :
    (∃ before code after, ss = before ++ .code code :: after ∧ Expr.parse (String.ofList code) = .error f) ∨
      readSpans source more = .error f := by
  induction ss with
  | nil => exact Or.inr h
  | cons s ss ih =>
    have hlater : readSpans source (ss ++ more) = .error f →
        (∃ before code after, s :: ss = before ++ .code code :: after ∧ Expr.parse (String.ofList code) = .error f) ∨
          readSpans source more = .error f := by
      intro hrest
      refine (ih (fun hin => hclosed (List.mem_cons_of_mem _ hin)) hrest).imp_left ?_
      rintro ⟨before, code, after, rfl, hcode⟩
      exact ⟨s :: before, code, after, rfl, hcode⟩
    rw [List.cons_append] at h
    cases s with
    | unclosed => exact absurd List.mem_cons_self hclosed
    | literal cs =>
      cases cs with
      | nil => exact hlater h
      | cons c cs =>
        rw [readSpans] at h
        · cases hrest : readSpans source (ss ++ more) with
          | error g =>
            rw [hrest] at h
            cases h
            exact hlater hrest
          | ok parts =>
            rw [hrest] at h
            cases h
        · rintro ⟨⟩
    | code cs =>
      rw [readSpans] at h
      cases hparse : Expr.parse (String.ofList cs) with
      | error g =>
        rw [hparse] at h
        cases h
        exact Or.inl ⟨[], cs, ss, rfl, hparse⟩
      | ok e =>
        rw [hparse] at h
        cases hrest : readSpans source (ss ++ more) with
        | error g =>
          rw [hrest] at h
          cases h
          exact hlater hrest
        | ok parts =>
          rw [hrest] at h
          cases h

theorem exists_readSpans_append_error (ss : List Span) (h : ∃ f, readSpans source more = .error f) :
    ∃ f, readSpans source (ss ++ more) = .error f := by
  induction ss with
  | nil => exact h
  | cons s ss ih =>
    obtain ⟨f, hf⟩ := ih
    rw [List.cons_append]
    cases s with
    | unclosed => exact ⟨_, rfl⟩
    | literal cs =>
      cases cs with
      | nil => exact ⟨f, hf⟩
      | cons c cs =>
        refine ⟨f, ?_⟩
        rw [readSpans, hf]
        · rfl
        · rintro ⟨⟩
    | code cs =>
      rw [readSpans, hf]
      cases Expr.parse (String.ofList cs) with
      | error g => exact ⟨g, rfl⟩
      | ok e => exact ⟨f, rfl⟩

theorem readSpans_open (source : String) (cs : List Char) :
    readSpans source [.literal cs, .unclosed] = .error (.expression source .unterminated) := by
  cases cs with
  | nil => rfl
  | cons c cs =>
    rw [readSpans]
    · rfl
    · rintro ⟨⟩

theorem ofInterpolated_eq_error : ValueSpec.ofInterpolated source = .error f ↔
    readSpans source (spans source.toList) = .error f := by
  rw [ValueSpec.ofInterpolated]
  cases readSpans source (spans source.toList) with
  | error g =>
    constructor
    · rintro ⟨⟩
      rfl
    · rintro ⟨⟩
      rfl
  | ok parts =>
    constructor
    · rintro ⟨⟩
    · rintro ⟨⟩

theorem Expr.parse_eq_error (h : Expr.parse source = .error f) : f = .expression source .mismatch := by
  unfold Expr.parse at h
  cases hparse : (tokens? source.toList).bind parseTokens? with
  | some e =>
    rw [hparse] at h
    cases h
  | none =>
    rw [hparse] at h
    cases h
    rfl

end Reading

section Literals

/-- The characters of a text that a span is cut from. -/
def Span.chars : Span → List Char
  | .literal cs => cs
  | .code cs => '\x7b' :: '\x7b' :: (cs ++ closingBraces)
  | .unclosed => ['\x7b', '\x7b']

theorem TextUnit.chars_cuts (units : List TextUnit) (seen : List Char) :
    (cuts seen units).flatMap Span.chars = seen.reverse ++ text units := by
  induction units generalizing seen with
  | nil => simp [cuts, Span.chars]
  | cons u units ih =>
    cases u with
    | code cs => simp [cuts, ih, Span.chars, TextUnit.chars]
    | char c => simp [cuts, ih, TextUnit.chars]

/-- A `<` stands in expressions only. -/
theorem TextUnits.literal_free {cs : List Char} (h : TextUnits cs units after) {seen : List Char} (hseen : '<' ∉ seen)
    {text : List Char} (hin : .literal text ∈ TextUnit.cuts seen units) : '<' ∉ text := by
  induction h generalizing seen with
  | done rest =>
    cases List.mem_singleton.mp hin
    rwa [List.mem_reverse]
  | code _ _ ih =>
    rw [TextUnit.cuts] at hin
    rcases List.mem_cons.mp hin with heq | hin
    · cases heq
      rwa [List.mem_reverse]
    · rcases List.mem_cons.mp hin with heq | hin
      · cases heq
      · exact ih List.not_mem_nil hin
  | char hc _ _ ih =>
    rw [TextUnit.cuts] at hin
    refine ih (fun hmem => ?_) hin
    exact (List.mem_cons.mp hmem).elim (fun heq => hc heq.symm) hseen

theorem Span.Agree.literal (h : Span.Agree after ss ss') {text : List Char} (hin : .literal text ∈ ss) :
    ∃ more, .literal (text ++ more) ∈ ss' := by
  cases h with
  | same => exact ⟨[], by rwa [List.append_nil]⟩
  | @unclosed ss cs tail =>
    rcases List.mem_append.mp hin with hin | hin
    · exact ⟨[], by rw [List.append_nil]; exact List.mem_append_left _ hin⟩
    · rcases List.mem_cons.mp hin with heq | hin
      · cases heq
        exact ⟨_, List.mem_append_right _ (List.mem_singleton_self _)⟩
      · cases List.mem_singleton.mp hin

/-- The source of an expression. -/
def Span.code? : Span → Option (List Char)
  | .code cs => some cs
  | _ => none

def TextUnit.code? : TextUnit → Option (List Char)
  | .code cs => some cs
  | .char _ => none

theorem TextUnit.codes_cuts (units : List TextUnit) (seen : List Char) :
    (cuts seen units).filterMap Span.code? = units.filterMap TextUnit.code? := by
  induction units generalizing seen with
  | nil => rfl
  | cons u units ih =>
    cases u with
    | code cs => exact congrArg (cs :: ·) (ih [])
    | char c => exact ih (c :: seen)

theorem TextUnit.codes_of_blank (h : ∀ u ∈ units, u.IsBlank) : units.filterMap TextUnit.code? = [] := by
  refine List.filterMap_eq_nil_iff.mpr fun u hu => ?_
  cases u with
  | code cs => exact (h _ hu).elim
  | char c => rfl

/-- The expressions are the same in both, also when double braces stay open. -/
theorem Span.Agree.codes (h : Span.Agree after ss ss') : ss.filterMap Span.code? = ss'.filterMap Span.code? := by
  cases h with
  | same => rfl
  | unclosed => rw [List.filterMap_append, List.filterMap_append]; rfl

end Literals

namespace Span.Agree

/-- What has been read before reading ends is the same in both. -/
theorem exists_read (h : Span.Agree after ss ss')
    (hreport : readSpans source ss ≠ .error (.expression source .unterminated)) :
    ∃ read rest rest', ss = read ++ rest ∧ ss' = read ++ rest' ∧
      (rest = [] ∧ rest' = [] ∨ ∃ before code f, read = before ++ [.code code] ∧
        Expr.parse (String.ofList code) = .error f ∧ readSpans source ss = .error f) := by
  cases h with
  | same => exact ⟨ss, [], [], (List.append_nil _).symm, (List.append_nil _).symm, Or.inl ⟨rfl, rfl⟩⟩
  | @unclosed ss cs tail hclosed hopen =>
    have hopened : ∃ f, readSpans source [.literal cs, .unclosed] = .error f := ⟨_, readSpans_open source cs⟩
    obtain ⟨f, hf⟩ := exists_readSpans_append_error ss hopened
    rcases readSpans_append_error hclosed hf with ⟨before, code, later, rfl, hcode⟩ | hlast
    · refine ⟨before ++ [.code code], later ++ [.literal cs, .unclosed],
        later ++ [.literal (cs ++ '\x7b' :: '\x7b' :: tail)], by simp, by simp, Or.inr ?_⟩
      exact ⟨before, code, f, rfl, hcode, hf⟩
    · rw [readSpans_open] at hlast
      cases hlast
      exact absurd hf hreport

/-- Double braces are said to be unterminated only where nothing closes them. -/
theorem exists_open (h : Span.Agree after ss ss')
    (hreport : readSpans source ss = .error (.expression source .unterminated)) :
    ∃ front cs tail, ss = front ++ [.literal cs, .unclosed] ∧
      ss'.flatMap Span.chars = (front ++ [.literal cs]).flatMap Span.chars ++ '\x7b' :: '\x7b' :: tail ∧
      ¬ closingBraces <:+: tail ++ after := by
  cases h with
  | same hclosed =>
    rw [← List.append_nil ss] at hreport
    rcases readSpans_append_error hclosed hreport with ⟨_, code, _, -, hcode⟩ | hnil
    · cases Expr.parse_eq_error hcode
    · cases hnil
  | @unclosed ss cs tail _ hopen => exact ⟨ss, cs, tail, rfl, by simp [Span.chars], hopen⟩

end Span.Agree

/-- What is read of a text run. -/
def TextPlace.content (x : TextPlace) : String :=
  String.ofList (trimIndentation x.run)

/-- The units of a run and the cuts of its content agree. The content has the units without some blanks at either end,
and the same expressions. Unless double braces are said to be unterminated, the cuts up to where reading ends are those
of the units, and reading ends before the last of them only at an expression that cannot be read. If they are said to
be unterminated, nothing after them in the source closes them. No `<` stands in a literal text. -/
structure TextPlace.CutsAgree (source : String) (x : TextPlace) (lead kept trail : List TextUnit) : Prop where
  units_eq : x.units = lead ++ (kept ++ trail)
  blank : ∀ u ∈ lead ++ trail, u.IsBlank
  content_eq : x.content.toList = TextUnit.text kept
  codes : (spans x.content.toList).filterMap Span.code? = x.units.filterMap TextUnit.code?
  cuts : ValueSpec.ofInterpolated x.content ≠ .error (.expression x.content .unterminated) → ∃ read rest rest',
    spans x.content.toList = read ++ rest ∧ TextUnit.cuts [] kept = read ++ rest' ∧
      (rest = [] ∧ rest' = [] ∨ ∃ before code f, read = before ++ [.code code] ∧
        Expr.parse (String.ofList code) = .error f ∧ ValueSpec.ofInterpolated x.content = .error f)
  unterminated : ValueSpec.ofInterpolated x.content = .error (.expression x.content .unterminated) → ∃ ss cs tail,
    spans x.content.toList = ss ++ [.literal cs, .unclosed] ∧
      source.toList = x.before ++ (TextUnit.text lead ++ ((ss ++ [.literal cs]).flatMap Span.chars ++
        '\x7b' :: '\x7b' :: tail)) ∧ ¬ closingBraces <:+: tail
  literal : ∀ cs, .literal cs ∈ spans x.content.toList → '<' ∉ cs

theorem TextPlace.exists_cutsAgree {x : TextPlace} (hsource : source.toList = x.before ++ (x.run ++ x.after))
    (hread : TextUnits (x.run ++ x.after) x.units x.after) : ∃ lead kept trail, x.CutsAgree source lead kept trail := by
  obtain ⟨lead, kept, trail, hunits, hblank, htrim⟩ := trimIndentation_text x.units
  have hcontent : x.content.toList = TextUnit.text kept := by
    rw [TextPlace.content, String.toList_ofList]
    exact htrim
  rw [hunits] at hread
  have hkept := hread.split.2.split.1
  have hagree := hkept.agree []
  rw [← hcontent] at hagree
  refine ⟨lead, kept, trail, hunits, hblank, hcontent, ?_, ?_, ?_, fun cs hcs => ?_⟩
  · have hlead := TextUnit.codes_of_blank fun u hu => hblank u (List.mem_append_left trail hu)
    have htrail := TextUnit.codes_of_blank fun u hu => hblank u (List.mem_append_right lead hu)
    rw [hunits, List.filterMap_append, List.filterMap_append, hlead, htrail, List.nil_append, List.append_nil,
      ← TextUnit.codes_cuts kept []]
    exact hagree.codes
  · intro hreport
    obtain ⟨read, rest, rest', hspans, hcuts, hend⟩ :=
      hagree.exists_read fun herror => hreport (ofInterpolated_eq_error.mpr herror)
    refine ⟨read, rest, rest', hspans, hcuts, hend.imp_right ?_⟩
    rintro ⟨before, code, f, hlast, hparse, herror⟩
    exact ⟨before, code, f, hlast, hparse, ofInterpolated_eq_error.mpr herror⟩
  · intro hreport
    obtain ⟨ss, cs, tail, hspans, htext, hopen⟩ := hagree.exists_open (ofInterpolated_eq_error.mp hreport)
    refine ⟨ss, cs, tail ++ (TextUnit.text trail ++ x.after), hspans, ?_, hopen⟩
    rw [TextUnit.chars_cuts, List.reverse_nil, List.nil_append] at htext
    rw [hsource, TextPlace.run, hunits, TextUnit.text_append, TextUnit.text_append, htext]
    simp only [List.append_assoc, List.cons_append]
  · obtain ⟨more, hmore⟩ := hagree.literal hcs
    exact fun hin => hkept.literal_free List.not_mem_nil hmore (List.mem_append_left _ hin)

/-- Every text run of a source is read at a place of it, and at every place the units of the run are what its content is
cut into. -/
theorem text_units_are_cuts {source : String} {nodes : List SourceNode} (h : sourceNodes? source = some nodes) :
    (∃ places, TextPlaces [] source.toList places ∧ places.map TextPlace.run = SourceNode.runs nodes) ∧
    ∀ places, TextPlaces [] source.toList places → ∀ x ∈ places, ∃ lead kept trail,
      x.CutsAgree source lead kept trail := by
  constructor
  · obtain ⟨ps, hps, hnest⟩ := Option.bind_eq_some_iff.mp h
    have hpieces : SourceNode.piecesAll nodes = ps := piecesAll_of_nest? hnest
    obtain ⟨places, hplaces, hruns⟩ := exists_places hps []
    exact ⟨places, hplaces, by rw [hruns, SourceNode.runs, hpieces]⟩
  · intro places hplaces x hx
    obtain ⟨hsource, hread⟩ := hplaces.source_eq x hx
    exact TextPlace.exists_cutsAgree hsource hread

/-- An expression with a `<` in it, after which the run goes on, and double braces that stay open. -/
theorem text_units_are_cuts_samples :
    (∃ (x : TextPlace) (lead kept trail : List TextUnit), x.run = String.toList "\n\x7b\x7ba<b\x7d\x7d c" ∧
      .unclosed ∉ spans x.content.toList ∧ x.CutsAgree "<p>\n\x7b\x7ba<b\x7d\x7d c</p>" lead kept trail) ∧
    ∃ (x : TextPlace) (lead kept trail : List TextUnit), x.run = String.toList "a \x7b\x7b\x7bb" ∧
      ValueSpec.ofInterpolated x.content = .error (.expression x.content .unterminated) ∧
      x.CutsAgree "<p>a \x7b\x7b\x7bb<i/></p>" lead kept trail := by
  have hplace : ∀ {source : String} {nodes : List SourceNode} {run : List Char}, sourceNodes? source = some nodes →
      run ∈ SourceNode.runs nodes → ∃ (x : TextPlace) (lead kept trail : List TextUnit), x.run = run ∧
        x.CutsAgree source lead kept trail := by
    intro source nodes run hnodes hrun
    obtain ⟨⟨places, hplaces, hruns⟩, hagree⟩ := text_units_are_cuts hnodes
    rw [← hruns] at hrun
    obtain ⟨x, hx, rfl⟩ := List.mem_map.mp hrun
    obtain ⟨lead, kept, trail, hcuts⟩ := hagree places hplaces x hx
    exact ⟨x, lead, kept, trail, rfl, hcuts⟩
  constructor
  · have hpieces : pieces? (String.toList "<p>\n\x7b\x7ba<b\x7d\x7d c</p>") = some [.opening "p" [] false,
        .text (String.toList "\n\x7b\x7ba<b\x7d\x7d c"), .closing "p"] := by
      decide +kernel
    have hnodes : sourceNodes? "<p>\n\x7b\x7ba<b\x7d\x7d c</p>" =
        some [.element "p" [] [.text (String.toList "\n\x7b\x7ba<b\x7d\x7d c")] (some "p")] := by
      rw [sourceNodes?, hpieces]
      rfl
    obtain ⟨x, lead, kept, trail, hrun, hcuts⟩ := hplace hnodes (List.mem_singleton_self _)
    refine ⟨x, lead, kept, trail, hrun, ?_, hcuts⟩
    rw [TextPlace.content, hrun, String.toList_ofList]
    decide
  · have hpieces : pieces? (String.toList "<p>a \x7b\x7b\x7bb<i/></p>") = some [.opening "p" [] false,
        .text (String.toList "a \x7b\x7b\x7bb"), .opening "i" [] true, .closing "p"] := by
      decide +kernel
    have hnodes : sourceNodes? "<p>a \x7b\x7b\x7bb<i/></p>" =
        some [.element "p" [] [.text (String.toList "a \x7b\x7b\x7bb"), .element "i" [] [] none] (some "p")] := by
      rw [sourceNodes?, hpieces]
      rfl
    obtain ⟨x, lead, kept, trail, hrun, hcuts⟩ := hplace hnodes (List.mem_singleton_self _)
    refine ⟨x, lead, kept, trail, hrun, ofInterpolated_eq_error.mpr ?_, hcuts⟩
    have hspans : spans x.content.toList = [.literal ['a', ' '], .unclosed] := by
      rw [TextPlace.content, hrun, String.toList_ofList]
      decide
    rw [hspans]
    exact readSpans_open _ _

end LiveMarkup
