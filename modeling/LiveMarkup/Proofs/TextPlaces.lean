import LiveMarkup.Proofs.MarkupPieces

namespace LiveMarkup

variable {after cs mark rest : List Char}

/-- What a text run is made of: expressions in double braces, and single characters. -/
inductive TextUnit where
  | code (cs : List Char)
  | char (c : Char)

namespace TextUnit

def chars : TextUnit → List Char
  | code cs => '\x7b' :: '\x7b' :: (cs ++ closingBraces)
  | char c => [c]

/-- The text of units in a row. -/
def text (units : List TextUnit) : List Char :=
  units.flatMap chars

@[simp] theorem text_nil : text [] = [] := rfl

@[simp] theorem text_cons (u : TextUnit) (units : List TextUnit) : text (u :: units) = u.chars ++ text units := rfl

@[simp] theorem text_append (us vs : List TextUnit) : text (us ++ vs) = text us ++ text vs :=
  List.flatMap_append

end TextUnit

/-- Reads units from the front of a source and leaves the rest. At double braces that are closed anywhere after, the
unit is the expression up to the first double braces that close it; anywhere else it is one character, which is no
`<`. -/
inductive TextUnits : List Char → List TextUnit → List Char → Prop where
  | done (rest : List Char) : TextUnits rest [] rest
  | code {cs rest after : List Char} {units : List TextUnit} (hcode : ¬ closingBraces <:+: cs ++ ['\x7d'])
      (h : TextUnits rest units after) :
      TextUnits ('\x7b' :: '\x7b' :: (cs ++ (closingBraces ++ rest))) (.code cs :: units) after
  | char {c : Char} {rest after : List Char} {units : List TextUnit} (hc : c ≠ '<')
      (hopen : ∀ tail, c = '\x7b' → rest = '\x7b' :: tail → ¬ closingBraces <:+: tail)
      (h : TextUnits rest units after) : TextUnits (c :: rest) (.char c :: units) after

namespace TextUnits

variable {units : List TextUnit}

theorem source_eq (h : TextUnits cs units after) : cs = TextUnit.text units ++ after := by
  induction h with
  | done rest => rfl
  | code _ _ ih =>
    rw [ih]
    simp [TextUnit.chars]
  | char _ _ _ ih =>
    rw [ih]
    rfl

/-- Units that are read together can be read one part after the other. -/
theorem split {us vs : List TextUnit} (h : TextUnits cs (us ++ vs) after) :
    TextUnits cs us (TextUnit.text vs ++ after) ∧ TextUnits (TextUnit.text vs ++ after) vs after := by
  induction us generalizing cs with
  | nil =>
    have hcs := h.source_eq
    rw [List.nil_append] at h hcs
    rw [← hcs]
    exact ⟨.done cs, h⟩
  | cons u us ih =>
    cases h with
    | code hcode h => exact ⟨.code hcode (ih h).1, (ih h).2⟩
    | char hc hopen h => exact ⟨.char hc hopen (ih h).1, (ih h).2⟩

end TextUnits

section Runs

theorem cutAt?_eq_some {front : List Char} (hmark : mark ≠ []) (h : cutAt? mark cs = some (front, after)) :
    cs = front ++ (mark ++ after) ∧ ¬ mark <:+: front ++ mark.dropLast := by
  induction cs generalizing front with
  | nil =>
    rw [cutAt?, if_neg (by simpa using hmark)] at h
    cases h
  | cons c rest ih =>
    rw [cutAt?] at h
    by_cases hfirst : mark.isPrefixOf (c :: rest) = true
    · rw [if_pos hfirst] at h
      cases h
      obtain ⟨after, hafter⟩ := List.isPrefixOf_iff_prefix.mp hfirst
      refine ⟨by rw [← hafter]; simp, fun hin => ?_⟩
      have hlength := hin.length_le
      have hpos := List.length_pos_iff.mpr hmark
      rw [List.nil_append, List.length_dropLast] at hlength
      omega
    · rw [if_neg hfirst] at h
      obtain ⟨⟨front', after'⟩, hcut, heq⟩ := Option.map_eq_some_iff.mp h
      cases heq
      obtain ⟨rfl, hlater⟩ := ih hcut
      refine ⟨rfl, fun hin => ?_⟩
      rcases List.infix_cons_iff.mp hin with hfront | hin
      · have hmore : mark.dropLast <+: mark ++ after := mark.dropLast_prefix.trans (List.prefix_append _ _)
        rw [ List.isPrefixOf_iff_prefix] at hfirst
        exact hfirst (hfront.trans ((List.prefix_cons_inj c).mpr ((List.prefix_append_right_inj front').mpr hmore)))
      · exact hlater hin

theorem not_infix_of_cutAt? (h : cutAt? mark cs = none) : ¬ mark <:+: cs := by
  induction cs with
  | nil =>
    intro hin
    rw [cutAt?, List.infix_nil.mp hin] at h
    cases h
  | cons c rest ih =>
    rw [cutAt?] at h
    by_cases hfirst : mark.isPrefixOf (c :: rest) = true
    · rw [if_pos hfirst] at h
      cases h
    · rw [if_neg hfirst] at h
      intro hin
      rcases List.infix_cons_iff.mp hin with hfront | hin
      · rw [ List.isPrefixOf_iff_prefix] at hfirst
        exact hfirst hfront
      · exact ih (Option.map_eq_none_iff.mp h) hin

/-- A text run is what units can be read from, up to a `<` or the end. -/
theorem exists_units (cs : List Char) : ∃ units, TextUnits cs units (textRun cs).2 ∧
    TextUnit.text units = (textRun cs).1 ∧ ∀ c ∈ (textRun cs).2.head?, c = '<' := by
  induction hn : cs.length using Nat.strongRecOn generalizing cs with
  | _ n ih =>
    subst hn
    cases cs with
    | nil => exact ⟨[], .done [], rfl, fun c hc => by cases hc⟩
    | cons c rest =>
      by_cases hpair : ∃ tail, c = '\x7b' ∧ rest = '\x7b' :: tail
      · obtain ⟨tail, rfl, rfl⟩ := hpair
        cases hcut : cutAt? closingBraces tail with
        | some found =>
          obtain ⟨code, after⟩ := found
          obtain ⟨rfl, hcode⟩ := cutAt?_eq_some (by decide) hcut
          have hshorter : after.length < ('\x7b' :: '\x7b' :: (code ++ (closingBraces ++ after))).length := by
            simp only [List.length_cons, List.length_append]
            omega
          obtain ⟨units, hunits, htext, hstop⟩ := ih after.length hshorter after rfl
          rw [textRun_code hcode]
          refine ⟨.code code :: units, .code hcode hunits, ?_, hstop⟩
          rw [TextUnit.text_cons, htext]
          simp [TextUnit.chars]
        | none =>
          have hopen := not_infix_of_cutAt? hcut
          obtain ⟨units, hunits, htext, hstop⟩ := ih tail.length (by simp only [List.length_cons]; omega) tail rfl
          have hrun : textRun ('\x7b' :: '\x7b' :: tail) =
              ('\x7b' :: '\x7b' :: (textRun tail).1, (textRun tail).2) := by
            rw [textRun, hcut]
            rfl
          rw [hrun]
          refine ⟨.char '\x7b' :: .char '\x7b' :: units, ?_, by rw [← htext]; rfl, hstop⟩
          have hbrace : ('\x7b' : Char) ≠ '<' := by decide
          refine .char hbrace (fun _ _ heq => (List.cons.inj heq).2 ▸ hopen) (.char hbrace ?_ hunits)
          rintro later - rfl hin
          exact hopen (hin.trans (List.suffix_cons _ _).isInfix)
      · by_cases hc : c = '<'
        · subst hc
          exact ⟨[], .done _, rfl, fun c hc => by cases hc; rfl⟩
        · obtain ⟨units, hunits, htext, hstop⟩ := ih rest.length (by simp) rest rfl
          have hnext : c = '\x7b' → rest.head? ≠ some '\x7b' := by
            intro hbrace hhead
            cases rest with
            | nil => cases hhead
            | cons d tail =>
              cases hhead
              exact hpair ⟨tail, hbrace, rfl⟩
          rw [textRun_char hc hnext]
          refine ⟨.char c :: units, .char hc (fun tail hbrace hrest => absurd ⟨tail, hbrace, hrest⟩ hpair) hunits, ?_,
            hstop⟩
          rw [← htext]
          rfl

end Runs

section Suffixes

theorem tagName?_suffix {tag : String} (h : tagName? cs = some (tag, rest)) : rest <:+ cs := by
  cases cs with
  | nil => cases h
  | cons c tail =>
    rw [tagName?] at h
    split at h
    · cases h
      exact (List.dropWhile_suffix _).trans (List.suffix_cons c tail)
    · cases h

theorem skipLayout_suffix (cs : List Char) : skipLayout cs <:+ cs :=
  List.dropWhile_suffix _

theorem nameMark_suffix (cs : List Char) : (nameMark cs).2 <:+ cs := by
  unfold nameMark
  split
  · exact List.suffix_cons _ _
  · exact List.suffix_cons _ _
  · exact List.suffix_refl _

theorem attributeName?_suffix {name : String} (h : attributeName? cs = some (name, rest)) : rest <:+ cs := by
  simp only [attributeName?] at h
  split at h
  · cases h
  · cases h
    exact (List.dropWhile_suffix _).trans (nameMark_suffix cs)

theorem quotedText?_suffix {value : String} (h : quotedText? cs = some (value, rest)) : rest <:+ cs := by
  cases cs with
  | nil => cases h
  | cons q tail =>
    simp only [quotedText?] at h
    split at h
    · cases hdrop : tail.dropWhile (· ≠ q) with
      | nil =>
        rw [hdrop] at h
        cases h
      | cons c after =>
        rw [hdrop] at h
        cases h
        have hsuffix := List.dropWhile_suffix (l := tail) (fun x => decide (x ≠ q))
        rw [hdrop] at hsuffix
        exact ((List.suffix_cons c rest).trans hsuffix).trans (List.suffix_cons q tail)
    · cases h

theorem attributeValue?_suffix {value : String} (h : attributeValue? cs = some (value, rest)) : rest <:+ cs := by
  unfold attributeValue? at h
  split at h
  next tail heq =>
    have hsuffix := skipLayout_suffix cs
    rw [heq] at hsuffix
    exact ((quotedText?_suffix h).trans (skipLayout_suffix tail)).trans ((List.suffix_cons _ _).trans hsuffix)
  next => cases h

theorem attribute?_suffix {a : String × Option String} (h : attribute? cs = some (a, rest)) : rest <:+ cs := by
  obtain ⟨⟨name, tail⟩, hname, h⟩ := Option.bind_eq_some_iff.mp h
  have hsuffix := attributeName?_suffix hname
  cases hvalue : attributeValue? tail with
  | some found =>
    obtain ⟨value, after⟩ := found
    simp only [hvalue] at h
    cases h
    exact (attributeValue?_suffix hvalue).trans hsuffix
  | none =>
    simp only [hvalue] at h
    cases h
    exact hsuffix

theorem attributes_suffix (cs : List Char) : (attributes cs).2 <:+ cs := by
  fun_induction attributes cs with
  | case1 => exact List.suffix_refl _
  | case2 => exact List.suffix_refl _
  | case3 c tail _ a after hattr hlt more rest heq ih =>
    rw [heq] at ih
    exact ih.trans ((attribute?_suffix hattr).trans ((skipLayout_suffix tail).trans (List.suffix_cons c tail)))
  | case4 => exact List.suffix_refl _

theorem tagEnd?_suffix {b : Bool} (h : tagEnd? cs = some (b, rest)) : rest <:+ cs := by
  have hskip := skipLayout_suffix cs
  unfold tagEnd? at h
  split at h
  next heq =>
    cases h
    rw [heq] at hskip
    exact ((List.suffix_cons _ _).trans (List.suffix_cons _ _)).trans hskip
  next heq =>
    cases h
    rw [heq] at hskip
    exact (List.suffix_cons _ _).trans hskip
  next => cases h

theorem cutAt?_suffix {front : List Char} (hmark : mark ≠ []) (h : cutAt? mark cs = some (front, after)) :
    after <:+ cs := by
  rw [(cutAt?_eq_some hmark h).1]
  exact (List.suffix_append _ _).trans (List.suffix_append _ _)

theorem openingTag?_suffix {p : Piece} (h : openingTag? cs = some (p, rest)) : rest <:+ cs := by
  obtain ⟨⟨tag, tail⟩, htag, h⟩ := Option.bind_eq_some_iff.mp h
  obtain ⟨⟨closed, last⟩, hend, h⟩ := Option.bind_eq_some_iff.mp h
  cases h
  exact (tagEnd?_suffix hend).trans ((attributes_suffix tail).trans (tagName?_suffix htag))

theorem closingTag?_suffix {p : Piece} (h : closingTag? cs = some (p, rest)) : rest <:+ cs := by
  obtain ⟨⟨tag, tail⟩, htag, h⟩ := Option.bind_eq_some_iff.mp h
  have hskip := skipLayout_suffix tail
  simp only at h
  split at h
  next heq =>
    cases h
    rw [heq] at hskip
    exact ((List.suffix_cons _ _).trans hskip).trans (tagName?_suffix htag)
  next => cases h

/-- What a tag or a comment leaves is the rest of the source. -/
theorem tagPiece?_suffix {p : Option Piece} (h : tagPiece? cs = some (p, rest)) : rest <:+ cs := by
  unfold tagPiece? at h
  split at h
  · obtain ⟨⟨front, after⟩, hcut, heq⟩ := Option.map_eq_some_iff.mp h
    cases heq
    have hafter := cutAt?_suffix (by decide) hcut
    exact hafter.trans ((List.suffix_cons _ _).trans ((List.suffix_cons _ _).trans (List.suffix_cons _ _)))
  · obtain ⟨⟨piece, after⟩, htag, heq⟩ := Option.map_eq_some_iff.mp h
    cases heq
    exact (closingTag?_suffix htag).trans (List.suffix_cons _ _)
  · obtain ⟨⟨piece, after⟩, htag, heq⟩ := Option.map_eq_some_iff.mp h
    cases heq
    exact openingTag?_suffix htag

end Suffixes

section Places

/-- A text run of a source: what stands before it, its units, and what stands after it. -/
structure TextPlace where
  before : List Char
  units : List TextUnit
  after : List Char

def TextPlace.run (x : TextPlace) : List Char :=
  TextUnit.text x.units

/-- The text runs of a source from some point on, between tags and comments. A run goes on as long as it can. -/
inductive TextPlaces : List Char → List Char → List TextPlace → Prop where
  | done (before : List Char) : TextPlaces before [] []
  | text {before cs after : List Char} {units : List TextUnit} {places : List TextPlace} (hne : units ≠ [])
      (hunits : TextUnits cs units after) (hstop : ∀ c ∈ after.head?, c = '<')
      (h : TextPlaces (before ++ TextUnit.text units) after places) :
      TextPlaces before cs (⟨before, units, after⟩ :: places)
  | tag {before taken rest : List Char} {p : Option Piece} {places : List TextPlace}
      (htag : tagPiece? (taken ++ rest) = some (p, rest)) (h : TextPlaces (before ++ '<' :: taken) rest places) :
      TextPlaces before ('<' :: (taken ++ rest)) places

/-- The run of a piece of text. -/
def Piece.run? : Piece → Option (List Char)
  | .text run => some run
  | _ => none

/-- The text runs of nodes, in the order of the source. -/
def SourceNode.runs (nodes : List SourceNode) : List (List Char) :=
  (SourceNode.piecesAll nodes).filterMap Piece.run?

theorem TextPlaces.source_eq {before : List Char} {places : List TextPlace} (h : TextPlaces before cs places) :
    ∀ x ∈ places, before ++ cs = x.before ++ (x.run ++ x.after) ∧ TextUnits (x.run ++ x.after) x.units x.after := by
  induction h with
  | done before => exact fun x hx => absurd hx List.not_mem_nil
  | @text before cs after units places hne hunits hstop _ ih =>
    have hcs := hunits.source_eq
    intro x hx
    rcases List.mem_cons.mp hx with rfl | hx
    · exact ⟨by rw [hcs]; rfl, by rw [TextPlace.run, ← hcs]; exact hunits⟩
    · obtain ⟨hsource, hread⟩ := ih x hx
      exact ⟨by rw [← hsource, hcs, List.append_assoc], hread⟩
  | tag _ _ ih =>
    intro x hx
    obtain ⟨hsource, hread⟩ := ih x hx
    exact ⟨by rw [← hsource]; simp, hread⟩

theorem run?_of_tagPiece? {p : Option Piece} (h : tagPiece? cs = some (p, rest)) :
    p.toList.filterMap Piece.run? = [] := by
  unfold tagPiece? at h
  split at h
  · obtain ⟨_, -, heq⟩ := Option.map_eq_some_iff.mp h
    cases heq
    rfl
  · obtain ⟨⟨piece, after⟩, htag, heq⟩ := Option.map_eq_some_iff.mp h
    cases heq
    obtain ⟨_, -, htag⟩ := Option.bind_eq_some_iff.mp htag
    simp only at htag
    split at htag
    · cases htag
      rfl
    · cases htag
  · obtain ⟨⟨piece, after⟩, htag, heq⟩ := Option.map_eq_some_iff.mp h
    cases heq
    obtain ⟨_, -, htag⟩ := Option.bind_eq_some_iff.mp htag
    obtain ⟨_, -, htag⟩ := Option.bind_eq_some_iff.mp htag
    cases htag
    rfl

/-- The pieces of a source have a run for each place. -/
theorem exists_places {ps : List Piece} (h : pieces? cs = some ps) (before : List Char) :
    ∃ places, TextPlaces before cs places ∧ places.map TextPlace.run = ps.filterMap Piece.run? := by
  induction hn : cs.length using Nat.strongRecOn generalizing cs ps before with
  | _ n ih =>
    subst hn
    cases cs with
    | nil =>
      rw [pieces?] at h
      cases h
      exact ⟨[], .done before, rfl⟩
    | cons c rest =>
      by_cases hc : c = '<'
      · subst hc
        cases htag : tagPiece? rest with
        | none =>
          rw [pieces?, dif_pos rfl] at h
          split at h
          next => cases h
          next heq =>
            rw [htag] at heq
            cases heq
        | some found =>
          obtain ⟨p, after⟩ := found
          rw [pieces?_tag htag] at h
          obtain ⟨qs, hqs, rfl⟩ := Option.map_eq_some_iff.mp h
          obtain ⟨taken, rfl⟩ := tagPiece?_suffix htag
          have hshorter : after.length < ('<' :: (taken ++ after)).length := by
            simp only [List.length_cons, List.length_append]
            omega
          obtain ⟨places, hplaces, hruns⟩ := ih after.length hshorter hqs (before ++ '<' :: taken) rfl
          refine ⟨places, .tag htag hplaces, ?_⟩
          rw [hruns, List.filterMap_append, run?_of_tagPiece? htag, List.nil_append]
      · rw [pieces?, dif_neg hc] at h
        obtain ⟨qs, hqs, rfl⟩ := Option.map_eq_some_iff.mp h
        obtain ⟨units, hunits, htext, hstop⟩ := exists_units (c :: rest)
        obtain ⟨places, hplaces, hruns⟩ := ih _ (length_textRun_lt hc) hqs (before ++ TextUnit.text units) rfl
        have hne : units ≠ [] := by
          rintro rfl
          have hsource := hunits.source_eq
          rw [TextUnit.text_nil, List.nil_append] at hsource
          exact hc (hstop c (by rw [← hsource]; rfl))
        refine ⟨_, .text hne hunits hstop hplaces, ?_⟩
        rw [List.map_cons, hruns, TextPlace.run, htext]
        rfl

theorem SourceNode.piecesAll_append (nodes nodes' : List SourceNode) :
    piecesAll (nodes ++ nodes') = piecesAll nodes ++ piecesAll nodes' := by
  induction nodes with
  | nil => rfl
  | cons n nodes ih => rw [List.cons_append, piecesAll, ih, piecesAll, List.append_assoc]

/-- The pieces that came before the innermost of the open elements, and its own opening tag. -/
def OpenElement.piecesAll : List OpenElement → List Piece
  | [] => []
  | e :: opened => piecesAll opened ++ (SourceNode.piecesAll e.before.reverse ++ [.opening e.tag e.attributes false])

/-- Nesting keeps the pieces in order. -/
theorem piecesAll_of_nest? {opened : List OpenElement} {before nodes : List SourceNode} {ps : List Piece}
    (h : nest? opened before ps = some nodes) :
    SourceNode.piecesAll nodes = OpenElement.piecesAll opened ++ (SourceNode.piecesAll before.reverse ++ ps) := by
  induction ps generalizing opened before with
  | nil =>
    cases opened with
    | nil =>
      rw [nest?] at h
      cases h
      rw [OpenElement.piecesAll, List.nil_append, List.append_nil]
    | cons e opened => cases h
  | cons p ps ih =>
    cases p with
    | text run =>
      rw [nest?] at h
      rw [ih h, List.reverse_cons, SourceNode.piecesAll_append]
      simp [SourceNode.piecesAll, SourceNode.pieces]
    | opening tag attributes selfClosed =>
      cases selfClosed with
      | true =>
        rw [nest?] at h
        rw [ih h, List.reverse_cons, SourceNode.piecesAll_append]
        simp [SourceNode.piecesAll, SourceNode.pieces]
      | false =>
        rw [nest?] at h
        rw [ih h]
        simp [OpenElement.piecesAll, SourceNode.piecesAll]
    | closing tag =>
      cases opened with
      | nil => cases h
      | cons e opened =>
        rw [nest?] at h
        rw [ih h, List.reverse_cons, SourceNode.piecesAll_append]
        simp [OpenElement.piecesAll, SourceNode.piecesAll, SourceNode.pieces]

end Places

end LiveMarkup
