import LiveMarkup.Proofs.MarkupPrinting

namespace LiveMarkup

variable {cs gap rest tail : List Char} {c : Char} {tag : String} {ms : List Markup} {a : String × Option String}

section Cuts

/-- A text is cut at a mark that does not begin before. -/
theorem cutAt?_mark {mark words : List Char} (h : ¬ mark <:+: words ++ mark.dropLast) (rest : List Char) :
    cutAt? mark (words ++ (mark ++ rest)) = some (words, rest) := by
  have hmark : mark ≠ [] := by
    rintro rfl
    exact h List.nil_infix
  induction words with
  | nil =>
    obtain ⟨c, mark, rfl⟩ := List.exists_cons_of_ne_nil hmark
    have hprefix : (c :: mark).isPrefixOf (c :: (mark ++ rest)) = true :=
      List.isPrefixOf_iff_prefix.mpr ⟨rest, rfl⟩
    rw [List.nil_append, List.cons_append, cutAt?, if_pos hprefix, ← List.cons_append, List.drop_left]
  | cons c words ih =>
    have hlater : ¬ mark <:+: words ++ mark.dropLast := fun hin => h (hin.trans (List.suffix_cons c _).isInfix)
    have hfirst : mark.isPrefixOf (c :: (words ++ (mark ++ rest))) = false := by
      rw [Bool.eq_false_iff, ne_eq, List.isPrefixOf_iff_prefix]
      intro hprefix
      -- the mark is no longer than the words and all of it but its last character
      have hshort : (c :: words ++ mark.dropLast) <+: c :: (words ++ (mark ++ rest)) := by
        have hsplit : mark.dropLast ++ mark.getLast hmark :: rest = mark ++ rest := by
          rw [← List.singleton_append, ← List.append_assoc, List.dropLast_concat_getLast hmark]
        exact ⟨mark.getLast hmark :: rest, by rw [List.append_assoc, hsplit]; rfl⟩
      apply h
      apply List.IsPrefix.isInfix
      apply List.prefix_of_prefix_length_le hprefix hshort
      simp only [List.cons_append, List.length_cons, List.length_append, List.length_dropLast]
      omega
    rw [List.cons_append, cutAt?, if_neg (by simp [hfirst]), ih hlater]
    rfl

theorem commentEnd_not_within {words : List Char} (h : ¬ ['-', '-', '>'] <:+: words) :
    ¬ commentEnd <:+: words ++ commentEnd.dropLast := by
  have hdash : ∀ {cs : List Char}, ¬ commentEnd <:+: cs → ¬ commentEnd <:+: cs ++ ['-'] := by
    intro cs hcs hin
    rcases List.infix_concat_iff.mp hin with hsuffix | hin
    · obtain ⟨front, hfront⟩ := hsuffix
      have hlast := congrArg List.getLast? hfront
      simp [commentEnd] at hlast
    · exact hcs hin
  have hdashes : words ++ commentEnd.dropLast = words ++ ['-'] ++ ['-'] := by
    rw [List.append_assoc]
    rfl
  rw [hdashes]
  exact hdash (hdash h)

end Cuts

section TextRuns

theorem codeRun_char (h : c = '\x7d' → rest.head? ≠ some '\x7d') :
    codeRun (c :: rest) = (c :: (codeRun rest).1, (codeRun rest).2) := by
  rw [codeRun]
  rintro tail rfl rfl
  exact h rfl rfl

/-- An expression runs to the braces that close it, and text goes on after them. -/
theorem codeRun_code {code : List Char} (h : ¬ closingBraces <:+: code ++ ['\x7d']) (rest : List Char) :
    codeRun (code ++ (closingBraces ++ rest)) =
      (code ++ (closingBraces ++ (textRun rest).1), (textRun rest).2) := by
  induction code with
  | nil => rfl
  | cons c code ih =>
    have hlater : ¬ closingBraces <:+: code ++ ['\x7d'] := fun hin => h (hin.trans (List.suffix_cons c _).isInfix)
    have hc : c = '\x7d' → (code ++ (closingBraces ++ rest)).head? ≠ some '\x7d' := by
      rintro rfl hhead
      apply h
      cases code with
      | nil => exact List.infix_refl _
      | cons d code =>
        cases hhead
        exact ⟨[], code ++ ['\x7d'], rfl⟩
    rw [List.cons_append, codeRun_char hc, ih hlater]
    rfl

theorem textRun_char (hc : c ≠ '<') (h : c = '\x7b' → rest.head? ≠ some '\x7b') :
    textRun (c :: rest) = (c :: (textRun rest).1, (textRun rest).2) := by
  rw [textRun, if_neg hc]
  rintro tail rfl rfl
  exact h rfl rfl

theorem textRun_code {code : List Char} (h : ¬ closingBraces <:+: code ++ ['\x7d']) (rest : List Char) :
    textRun ('\x7b' :: '\x7b' :: (code ++ (closingBraces ++ rest))) =
      ('\x7b' :: '\x7b' :: (code ++ (closingBraces ++ (textRun rest).1)), (textRun rest).2) := by
  rw [textRun, cutAt?_mark h, Option.isSome_some, if_pos rfl, codeRun_code h]

/-- A text run ends where the next tag begins. -/
theorem textRun_run {run : List Char} (h : IsTextRun run) (hrest : ∀ c ∈ rest.head?, c = '<') :
    textRun (run ++ rest) = (run, rest) := by
  induction h with
  | nil =>
    cases rest with
    | nil => rfl
    | cons c rest =>
      cases hrest c rfl
      rfl
  | @char c run hc hopen _ ih =>
    have hnext : c = '\x7b' → (run ++ rest).head? ≠ some '\x7b' := by
      intro hbrace hhead
      cases run with
      | nil => exact absurd (hrest _ hhead) (by decide)
      | cons d run => exact hopen hbrace hhead
    rw [List.cons_append, textRun_char hc hnext, ih]
  | @code code run hcode _ ih =>
    have hassoc : '\x7b' :: '\x7b' :: (code ++ (closingBraces ++ run)) ++ rest =
        '\x7b' :: '\x7b' :: (code ++ (closingBraces ++ (run ++ rest))) := by simp
    rw [hassoc, textRun_code hcode, ih]

end TextRuns

section Tags

theorem isNameChar_of_isLayout (h : isLayout c = true) : isNameChar c = false := by
  simp only [isLayout, Bool.or_eq_true, beq_iff_eq] at h
  rcases h with ((rfl | rfl) | rfl) | rfl <;> rfl

theorem isNameChar_of_isTagChar (h : isTagChar c = true) : isNameChar c = true := by
  rw [isNameChar, Bool.or_eq_true]
  exact Or.inl h

/-- No name goes on here. -/
def EndsName (rest : List Char) : Prop :=
  ∀ c ∈ rest.head?, isNameChar c = false

theorem skipLayout_gap (hgap : IsGap gap) (hrest : ∀ c ∈ rest.head?, isLayout c = false) :
    skipLayout (gap ++ rest) = rest :=
  dropWhile_run (isGap_iff.mp hgap) hrest

theorem endsName_gap (hgap : IsGap gap) (hrest : EndsName rest) : EndsName (gap ++ rest) := by
  intro c hc
  cases gap with
  | nil => exact hrest c hc
  | cons d gap =>
    cases hc
    exact isNameChar_of_isLayout (isGap_iff.mp hgap _ List.mem_cons_self)

theorem tagName?_printed (htag : IsTagName tag.toList) (hrest : EndsName rest) :
    tagName? (tag.toList ++ rest) = some (tag, rest) := by
  obtain ⟨c, cs, htag, hc, hname⟩ := htag
  have hcs : ∀ x ∈ cs, isTagChar x = true := fun x hx => isTagChar_iff.mpr (hname x hx)
  have hend : ∀ x ∈ rest.head?, isTagChar x = false := by
    intro x hx
    rw [Bool.eq_false_iff]
    intro htagChar
    exact absurd (isNameChar_of_isTagChar htagChar) (by simp [hrest x hx])
  rw [htag, List.cons_append, tagName?, if_pos hc, takeWhile_run hcs hend, dropWhile_run hcs hend, ← htag,
    String.ofList_toList]

/-- The mark of an attribute name is read apart from the name. -/
theorem nameMark_printed (h : IsAttributeName cs) (rest : List Char) :
    ∃ mark name, nameMark (cs ++ rest) = (mark, name ++ rest) ∧ cs = mark ++ name ∧ name ≠ [] ∧
      ∀ c ∈ name, isNameChar c = true := by
  obtain ⟨hcolon, mark, name, hmark, hne, hletters, rfl⟩ := h
  have hname : ∀ c ∈ name, isNameChar c = true := fun c hc => isNameChar_iff.mpr (hletters c hc)
  simp only [List.mem_cons, List.not_mem_nil, or_false] at hmark
  rcases hmark with rfl | rfl | rfl
  · obtain ⟨c, name, rfl⟩ := List.exists_cons_of_ne_nil hne
    by_cases hc : c = ':'
    · subst hc
      have hmore : name ≠ [] := by
        rintro rfl
        exact hcolon rfl
      exact ⟨[':'], name, rfl, rfl, hmore, fun c hc => hname c (List.mem_cons_of_mem _ hc)⟩
    · refine ⟨[], c :: name, ?_, rfl, hne, hname⟩
      have hat : c ≠ '@' := by
        rintro rfl
        exact absurd (hname _ List.mem_cons_self) (by decide)
      rw [List.nil_append, List.cons_append, nameMark]
      · intro tail heq
        exact hc (List.cons.inj heq).1
      · intro tail heq
        exact hat (List.cons.inj heq).1
  · exact ⟨[':'], name, rfl, rfl, hne, hname⟩
  · exact ⟨['@'], name, rfl, rfl, hne, hname⟩

theorem attributeName?_printed {name : String} (hname : IsAttributeName name.toList) (hrest : EndsName rest) :
    attributeName? (name.toList ++ rest) = some (name, rest) := by
  obtain ⟨mark, tail, hmark, hsplit, hne, htail⟩ := nameMark_printed hname rest
  simp only [attributeName?, hmark]
  rw [takeWhile_run htail hrest, dropWhile_run htail hrest, if_neg (by simpa using hne), ← hsplit,
    String.ofList_toList]

theorem quotedText?_printed {value : String} {quote : Char} (hquote : quote = '"' ∨ quote = '\'')
    (hvalue : quote ∉ value.toList) (rest : List Char) :
    quotedText? (quote :: (value.toList ++ quote :: rest)) = some (value, rest) := by
  have hvalue' : ∀ c ∈ value.toList, decide (c ≠ quote) = true := by
    intro c hc
    rw [decide_eq_true_eq]
    rintro rfl
    exact hvalue hc
  have hend : ∀ c ∈ (quote :: rest).head?, decide (c ≠ quote) = false := by simp
  have hq : (quote == '"' || quote == '\'') = true := by
    rcases hquote with rfl | rfl <;> rfl
  rw [quotedText?, if_pos hq, dropWhile_run hvalue' hend, takeWhile_run hvalue' hend, String.ofList_toList]

theorem attributeValue?_printed {value : String} {before after : List Char} {quote : Char}
    (hbefore : IsGap before) (hafter : IsGap after)
    (hquote : quote = '"' ∨ quote = '\'') (hvalue : quote ∉ value.toList) (rest : List Char) :
    attributeValue? (before ++ '=' :: (after ++ quote :: (value.toList ++ quote :: rest))) =
      some (value, rest) := by
  have hq : ∀ c ∈ (quote :: (value.toList ++ quote :: rest)).head?, isLayout c = false := by
    rintro _ ⟨⟩
    rcases hquote with rfl | rfl <;> rfl
  have hequals : ∀ c ∈ ('=' :: (after ++ quote :: (value.toList ++ quote :: rest))).head?,
      isLayout c = false := by
    rintro _ ⟨⟩
    rfl
  rw [attributeValue?, skipLayout_gap hbefore hequals]
  simp only
  rw [skipLayout_gap hafter hq, quotedText?_printed hquote hvalue]

theorem attributeValue?_eq_none (h : skipLayout cs = c :: rest) (hc : c ≠ '=') : attributeValue? cs = none := by
  rw [attributeValue?, h]
  split
  next heq => exact absurd (List.cons.inj heq).1 hc
  next => rfl

theorem IsAttributeName.exists_cons (h : IsAttributeName cs) :
    ∃ c rest, cs = c :: rest ∧ isLayout c = false ∧ c ≠ '=' := by
  obtain ⟨-, mark, name, hmark, hne, hletters, rfl⟩ := h
  have hname : ∀ c ∈ name, isNameChar c = true := fun c hc => isNameChar_iff.mpr (hletters c hc)
  simp only [List.mem_cons, List.not_mem_nil, or_false] at hmark
  rcases hmark with rfl | rfl | rfl
  · obtain ⟨c, name, rfl⟩ := List.exists_cons_of_ne_nil hne
    have hc := hname c List.mem_cons_self
    refine ⟨c, name, rfl, ?_, ?_⟩
    · rw [Bool.eq_false_iff]
      intro hlayout
      rw [isNameChar_of_isLayout hlayout] at hc
      cases hc
    · rintro rfl
      exact absurd hc (by decide)
  · exact ⟨':', name, rfl, rfl, by decide⟩
  · exact ⟨'@', name, rfl, rfl, by decide⟩

theorem AttributePrinted.exists_cons (h : AttributePrinted a cs) :
    ∃ c rest, cs = c :: rest ∧ isLayout c = false ∧ c ≠ '=' := by
  cases h with
  | bare hname => exact hname.exists_cons
  | valued hname hbefore hafter hquote hvalue =>
    obtain ⟨c, rest, hcons, hc⟩ := hname.exists_cons
    exact ⟨c, _, by rw [hcons]; rfl, hc⟩

/-- What follows the attributes of a tag. -/
inductive TagTail : List Char → Prop where
  | intro {gap rest : List Char} {c : Char} (hgap : IsGap gap) (hc : c = '/' ∨ c = '>') :
      TagTail (gap ++ c :: rest)

theorem TagTail.skipLayout_eq (h : TagTail tail) : ∃ c rest, skipLayout tail = c :: rest ∧ (c = '/' ∨ c = '>') := by
  obtain @⟨gap, rest, c, hgap, hc⟩ := h
  refine ⟨c, rest, skipLayout_gap hgap ?_, hc⟩
  rintro _ ⟨⟩
  rcases hc with rfl | rfl <;> rfl

theorem TagTail.endsName (h : TagTail tail) : EndsName tail := by
  obtain @⟨gap, rest, c, hgap, hc⟩ := h
  apply endsName_gap hgap
  rintro _ ⟨⟩
  rcases hc with rfl | rfl <;> rfl

/-- What follows an attribute neither goes on with its name nor gives it a value. -/
theorem AttributesPrinted.follows {attributes : List (String × Option String)} (h : AttributesPrinted attributes cs)
    (htail : TagTail tail) : EndsName (cs ++ tail) ∧ attributeValue? (cs ++ tail) = none := by
  cases h with
  | nil =>
    obtain ⟨c, rest, hskip, hc⟩ := htail.skipLayout_eq
    refine ⟨htail.endsName, attributeValue?_eq_none hskip ?_⟩
    rcases hc with rfl | rfl <;> decide
  | @cons a attributes gap cs rest hne hgap ha h =>
    obtain ⟨c, more, rfl, hlayout, hequals⟩ := ha.exists_cons
    rw [List.append_assoc]
    constructor
    · obtain ⟨g, gap, rfl⟩ := List.exists_cons_of_ne_nil hne
      rintro _ ⟨⟩
      exact isNameChar_of_isLayout (isGap_iff.mp hgap _ List.mem_cons_self)
    · refine attributeValue?_eq_none (skipLayout_gap hgap ?_) hequals
      rintro _ ⟨⟩
      exact hlayout

theorem attribute?_printed (h : AttributePrinted a cs) (hname : EndsName rest) (hvalue : attributeValue? rest = none) :
    attribute? (cs ++ rest) = some (a, rest) := by
  cases h with
  | bare hbare =>
    rw [attribute?, attributeName?_printed hbare hname]
    simp only [Option.bind_eq_bind, Option.bind_some, hvalue]
    rfl
  | @valued name value before after quote hvalued hbefore hafter hquote hquoted =>
    have hends : EndsName (before ++ '=' :: (after ++ quote :: (value.toList ++ quote :: rest))) := by
      apply endsName_gap hbefore
      rintro _ ⟨⟩
      rfl
    have hassoc : name.toList ++ (before ++ '=' :: (after ++ quote :: (value.toList ++ [quote]))) ++ rest =
        name.toList ++ (before ++ '=' :: (after ++ quote :: (value.toList ++ quote :: rest))) := by simp
    rw [hassoc, attribute?, attributeName?_printed hvalued hends]
    simp only [Option.bind_eq_bind, Option.bind_some, attributeValue?_printed hbefore hafter hquote hquoted rest]
    rfl

theorem attribute?_tail (h : TagTail tail) : attribute? (skipLayout tail) = none := by
  obtain ⟨c, rest, hskip, hc⟩ := h.skipLayout_eq
  rw [hskip]
  rcases hc with rfl | rfl <;> rfl

theorem attributes_tail (h : TagTail tail) : attributes tail = ([], tail) := by
  have hnone := attribute?_tail h
  obtain ⟨c, rest, rfl⟩ : ∃ c rest, tail = c :: rest := by
    obtain @⟨gap, rest, c, -, -⟩ := h
    cases gap with
    | nil => exact ⟨c, rest, rfl⟩
    | cons g gap => exact ⟨g, gap ++ c :: rest, rfl⟩
  rw [attributes]
  split
  next hlayout =>
    have hskip : skipLayout (c :: rest) = skipLayout rest := List.dropWhile_cons_of_pos hlayout
    split
    next => rfl
    next heq => rw [← hskip, hnone] at heq; cases heq
  next => rfl

theorem attributes_cons (hne : gap ≠ []) (hgap : IsGap gap) (hcs : ∀ c ∈ cs.head?, isLayout c = false)
    (ha : attribute? cs = some (a, rest)) :
    attributes (gap ++ cs) = (a :: (attributes rest).1, (attributes rest).2) := by
  obtain ⟨g, gap, rfl⟩ := List.exists_cons_of_ne_nil hne
  have hskip : skipLayout (gap ++ cs) = cs := skipLayout_gap (fun c hc => hgap c (List.mem_cons_of_mem _ hc)) hcs
  rw [List.cons_append, attributes, if_pos (isGap_iff.mp hgap g List.mem_cons_self)]
  split
  next heq => rw [hskip, ha] at heq; cases heq
  next heq =>
    rw [hskip, ha] at heq
    cases heq
    rfl

/-- The attributes of a tag are read up to what follows them. -/
theorem attributes_printed {as : List (String × Option String)} (h : AttributesPrinted as cs) (htail : TagTail tail) :
    attributes (cs ++ tail) = (as, tail) := by
  induction h with
  | nil => exact attributes_tail htail
  | @cons a as gap cs rest hne hgap ha h ih =>
    have hfollows := h.follows htail
    have hread : attribute? (cs ++ (rest ++ tail)) = some (a, rest ++ tail) :=
      attribute?_printed ha hfollows.1 hfollows.2
    have hhead : ∀ c ∈ (cs ++ (rest ++ tail)).head?, isLayout c = false := by
      obtain ⟨c, more, rfl, hlayout, -⟩ := ha.exists_cons
      rintro _ ⟨⟩
      exact hlayout
    rw [List.append_assoc, List.append_assoc, attributes_cons hne hgap hhead hread, ih]

end Tags

section Pieces

/-- The two ways in which an opening tag ends. -/
def tagMark (selfClosed : Bool) : List Char :=
  if selfClosed then ['/', '>'] else ['>']

theorem tagTail_tagMark (hgap : IsGap gap) (selfClosed : Bool) (rest : List Char) :
    TagTail (gap ++ (tagMark selfClosed ++ rest)) := by
  cases selfClosed with
  | false => exact .intro hgap (.inr rfl)
  | true => exact .intro hgap (.inl rfl)

theorem tagEnd?_tagMark (hgap : IsGap gap) (selfClosed : Bool) (rest : List Char) :
    tagEnd? (gap ++ (tagMark selfClosed ++ rest)) = some (selfClosed, rest) := by
  have hmark : ∀ c ∈ (tagMark selfClosed ++ rest).head?, isLayout c = false := by
    cases selfClosed <;> rintro _ ⟨⟩ <;> rfl
  rw [tagEnd?, skipLayout_gap hgap hmark]
  cases selfClosed <;> rfl

theorem openingTag?_printed {as : List (String × Option String)} (htag : IsTagName tag.toList)
    (has : AttributesPrinted as cs) (hgap : IsGap gap) (selfClosed : Bool) (rest : List Char) :
    openingTag? (tag.toList ++ (cs ++ (gap ++ (tagMark selfClosed ++ rest)))) =
      some (.opening tag as selfClosed, rest) := by
  have htail := tagTail_tagMark hgap selfClosed rest
  rw [openingTag?, tagName?_printed htag (has.follows htail).1]
  simp only [Option.bind_eq_bind, Option.bind_some, attributes_printed has htail, tagEnd?_tagMark hgap]
  rfl

theorem closingTag?_printed (htag : IsTagName tag.toList) (hgap : IsGap gap) (rest : List Char) :
    closingTag? (tag.toList ++ (gap ++ '>' :: rest)) = some (.closing tag, rest) := by
  have htail : TagTail (gap ++ '>' :: rest) := .intro hgap (.inr rfl)
  have hskip : skipLayout (gap ++ '>' :: rest) = '>' :: rest := by
    apply skipLayout_gap hgap
    rintro _ ⟨⟩
    rfl
  rw [closingTag?, tagName?_printed htag htail.endsName]
  simp only [Option.bind_eq_bind, Option.bind_some, hskip]
  rfl

/-- A tag name begins neither a comment nor a closing tag. -/
theorem tagPiece?_opening (htag : IsTagName tag.toList) (cs : List Char) :
    tagPiece? (tag.toList ++ cs) = (openingTag? (tag.toList ++ cs)).map fun (p, after) => (some p, after) := by
  obtain ⟨c, name, htag, hc, -⟩ := htag
  rw [htag, List.cons_append, tagPiece?]
  · rintro tail heq
    rw [(List.cons.inj heq).1] at hc
    exact absurd hc (by decide)
  · rintro tail heq
    rw [(List.cons.inj heq).1] at hc
    exact absurd hc (by decide)

theorem pieces?_tag {p : Option Piece} (h : tagPiece? cs = some (p, rest)) :
    pieces? ('<' :: cs) = (pieces? rest).map (p.toList ++ ·) := by
  rw [pieces?, dif_pos rfl]
  split
  next heq => rw [h] at heq; cases heq
  next heq =>
    rw [h] at heq
    cases heq
    rfl

theorem pieces?_text {run : List Char} (hne : run ≠ []) (hrun : IsTextRun run) (hrest : ∀ c ∈ rest.head?, c = '<') :
    pieces? (run ++ rest) = (pieces? rest).map (.text run :: ·) := by
  have hread := textRun_run hrun hrest
  obtain ⟨c, run, rfl⟩ := List.exists_cons_of_ne_nil hne
  have hc : c ≠ '<' := by
    cases hrun with
    | char hc => exact hc
    | code => decide
  rw [List.cons_append] at hread ⊢
  rw [pieces?, dif_neg hc]
  simp only [hread]

end Pieces

section Nesting

mutual

/-- The pieces of a node. An element without a closing tag closes itself and has no children. -/
def SourceNode.pieces : SourceNode → List Piece
  | .text run => [.text run]
  | .element tag attributes _ none => [.opening tag attributes true]
  | .element tag attributes children (some close) =>
    .opening tag attributes false :: (SourceNode.piecesAll children ++ [.closing close])

def SourceNode.piecesAll : List SourceNode → List Piece
  | [] => []
  | n :: nodes => n.pieces ++ SourceNode.piecesAll nodes

end

/-- The nodes that markup stands for: comments are left out, and an element that does not close itself is
closed by its own tag. -/
inductive Markup.NestsAs : List Markup → List SourceNode → Prop where
  | nil : NestsAs [] []
  | text {run : List Char} {ms : List Markup} {nodes : List SourceNode} (h : NestsAs ms nodes) :
      NestsAs (.text run :: ms) (.text run :: nodes)
  | comment {words : List Char} {ms : List Markup} {nodes : List SourceNode} (h : NestsAs ms nodes) :
      NestsAs (.comment words :: ms) nodes
  | selfClosed {tag : String} {attributes : List (String × Option String)} {ms : List Markup}
      {nodes : List SourceNode} (h : NestsAs ms nodes) :
      NestsAs (.element tag attributes [] :: ms) (.element tag attributes [] none :: nodes)
  | element {tag : String} {attributes : List (String × Option String)} {children ms : List Markup}
      {inner nodes : List SourceNode} (hchildren : NestsAs children inner) (h : NestsAs ms nodes) :
      NestsAs (.element tag attributes children :: ms) (.element tag attributes inner (some tag) :: nodes)

/-- Nesting finds the nodes again, in whatever elements are open around them. -/
theorem Markup.NestsAs.nest?_pieces {nodes : List SourceNode} (h : Markup.NestsAs ms nodes)
    (opened : List OpenElement) (before : List SourceNode) (more : List Piece) :
    nest? opened before (SourceNode.piecesAll nodes ++ more) = nest? opened (nodes.reverse ++ before) more := by
  induction h generalizing opened before more with
  | nil => rfl
  | text _ ih =>
    rw [SourceNode.piecesAll, SourceNode.pieces, List.append_assoc, List.singleton_append, nest?, ih,
      List.reverse_cons, List.append_assoc, List.singleton_append]
  | comment _ ih => exact ih opened before more
  | selfClosed _ ih =>
    rw [SourceNode.piecesAll, SourceNode.pieces, List.append_assoc, List.singleton_append, nest?, ih,
      List.reverse_cons, List.append_assoc, List.singleton_append]
  | element _ _ ihChildren ih =>
    rw [SourceNode.piecesAll, SourceNode.pieces, List.cons_append, List.cons_append, nest?, List.append_assoc,
      List.append_assoc, ihChildren, List.append_nil, List.singleton_append, nest?, List.reverse_reverse, ih,
      List.reverse_cons, List.append_assoc, List.singleton_append]

/-- What comes after text begins with a tag or a comment, unless it is the end. -/
theorem Markup.Printed.head (h : Markup.Printed ms cs) (hapart : ∀ m ∈ ms.head?, m.isText = false)
    (hrest : ∀ c ∈ rest.head?, c = '<') : ∀ c ∈ (cs ++ rest).head?, c = '<' := by
  cases h with
  | nil => exact hrest
  | text => exact absurd (hapart _ rfl) (by simp [Markup.isText])
  | comment | selfClosed | element =>
    rintro _ ⟨⟩
    rfl

/-- Printed markup is cut into the pieces of the nodes it stands for. -/
theorem Markup.Printed.pieces?_eq (h : Markup.Printed ms cs) :
    ∃ nodes, Markup.NestsAs ms nodes ∧ ∀ rest : List Char, (∀ c ∈ rest.head?, c = '<') →
      pieces? (cs ++ rest) = (pieces? rest).map (SourceNode.piecesAll nodes ++ ·) := by
  induction h with
  | nil => exact ⟨[], .nil, fun rest _ => by simp [SourceNode.piecesAll]⟩
  | @text run cs ms hne hrun hapart h ih =>
    obtain ⟨nodes, hnodes, hpieces⟩ := ih
    refine ⟨.text run :: nodes, .text hnodes, fun rest hrest => ?_⟩
    rw [List.append_assoc, pieces?_text hne hrun (h.head hapart hrest), hpieces rest hrest, Option.map_map]
    rfl
  | @comment words cs ms hwords h ih =>
    obtain ⟨nodes, hnodes, hpieces⟩ := ih
    refine ⟨nodes, .comment hnodes, fun rest hrest => ?_⟩
    have htag : tagPiece? ('!' :: '-' :: '-' :: (words ++ '-' :: '-' :: '>' :: (cs ++ rest))) =
        some (none, cs ++ rest) := by
      rw [tagPiece?, show '-' :: '-' :: '>' :: (cs ++ rest) = commentEnd ++ (cs ++ rest) from rfl,
        cutAt?_mark (commentEnd_not_within hwords)]
      rfl
    simp only [List.cons_append, List.append_assoc]
    rw [pieces?_tag htag, hpieces rest hrest, Option.map_map]
    rfl
  | @selfClosed tag as cs gap tail ms htag has hgap h ih =>
    obtain ⟨nodes, hnodes, hpieces⟩ := ih
    refine ⟨.element tag as [] none :: nodes, .selfClosed hnodes, fun rest hrest => ?_⟩
    have hpiece := tagPiece?_opening htag (cs ++ (gap ++ (tagMark true ++ (tail ++ rest))))
    rw [openingTag?_printed htag has hgap true] at hpiece
    simp only [List.cons_append, List.append_assoc]
    rw [show '/' :: '>' :: (tail ++ rest) = tagMark true ++ (tail ++ rest) from rfl, pieces?_tag hpiece,
      hpieces rest hrest, Option.map_map]
    rfl
  | @element tag as cs gap inner gap' tail children ms htag has hgap hchildren hgap' h ihChildren ih =>
    obtain ⟨within, hwithin, hinner⟩ := ihChildren
    obtain ⟨nodes, hnodes, hpieces⟩ := ih
    refine ⟨.element tag as within (some tag) :: nodes, .element hwithin hnodes, fun rest hrest => ?_⟩
    have hclose : tagPiece? ('/' :: (tag.toList ++ (gap' ++ '>' :: (tail ++ rest)))) =
        some (some (.closing tag), tail ++ rest) := by
      rw [tagPiece?, closingTag?_printed htag hgap']
      rfl
    have hopen := tagPiece?_opening htag (cs ++ (gap ++ (tagMark false ++
      (inner ++ '<' :: '/' :: (tag.toList ++ (gap' ++ '>' :: (tail ++ rest)))))))
    rw [openingTag?_printed htag has hgap false] at hopen
    have hends : ∀ c ∈ ('<' :: '/' :: (tag.toList ++ (gap' ++ '>' :: (tail ++ rest)))).head?, c = '<' := by
      rintro _ ⟨⟩
      rfl
    simp only [List.cons_append, List.append_assoc]
    rw [show ∀ after : List Char, '>' :: (inner ++ after) = tagMark false ++ (inner ++ after) from fun _ => rfl,
      pieces?_tag hopen, hinner _ hends, pieces?_tag hclose, hpieces rest hrest, Option.map_map, Option.map_map,
      Option.map_map]
    congr 1
    funext more
    simp [SourceNode.piecesAll, SourceNode.pieces]

/-- Printed markup is read as the nodes it stands for. -/
theorem Markup.Printed.sourceNodes?_eq {source : String} (h : Markup.Printed ms source.toList) :
    ∃ nodes, Markup.NestsAs ms nodes ∧ sourceNodes? source = some nodes := by
  obtain ⟨nodes, hnodes, hpieces⟩ := h.pieces?_eq
  refine ⟨nodes, hnodes, ?_⟩
  have hall := hpieces [] (by simp)
  have hend : pieces? [] = some [] := by rw [pieces?]
  rw [List.append_nil, hend, Option.map_some] at hall
  rw [sourceNodes?, hall, Option.bind_some, hnodes.nest?_pieces, nest?, List.append_nil,
    List.reverse_reverse]

end Nesting

end LiveMarkup
