import LiveMarkup.Expr.Token

namespace LiveMarkup

/-- A stretch of markup. Comments are left out. -/
inductive Piece where
  | text (run : List Char)
  | opening (tag : String) (attributes : List (String × Option String)) (selfClosed : Bool)
  | closing (tag : String)
deriving DecidableEq, Repr

def isTagChar (c : Char) : Bool :=
  c.isAlphanum || c == '-' || c == '_' || c == ':'

def isNameChar (c : Char) : Bool :=
  c.isAlphanum || c == '-' || c == '_' || c == ':' || c == '.'

/-- The text up to the first occurrence of a mark and the text after it. -/
def cutAt? (mark : List Char) : List Char → Option (List Char × List Char)
  | [] => if mark.isEmpty then some ([], []) else none
  | c :: rest =>
    if mark.isPrefixOf (c :: rest) then some ([], (c :: rest).drop mark.length)
    else (cutAt? mark rest).map fun (front, after) => (c :: front, after)

def closingBraces : List Char := ['\x7d', '\x7d']

mutual

/-- The text up to the next tag. An expression in double braces that is closed anywhere after may hold a
`<`. -/
def textRun : List Char → List Char × List Char
  | [] => ([], [])
  | '\x7b' :: '\x7b' :: rest =>
    if (cutAt? closingBraces rest).isSome then
      let (run, after) := codeRun rest
      ('\x7b' :: '\x7b' :: run, after)
    else
      let (run, after) := textRun rest
      ('\x7b' :: '\x7b' :: run, after)
  | c :: rest =>
    if c = '<' then ([], c :: rest)
    else
      let (run, after) := textRun rest
      (c :: run, after)

def codeRun : List Char → List Char × List Char
  | [] => ([], [])
  | '\x7d' :: '\x7d' :: rest =>
    let (run, after) := textRun rest
    ('\x7d' :: '\x7d' :: run, after)
  | c :: rest =>
    let (run, after) := codeRun rest
    (c :: run, after)

end

def skipLayout (cs : List Char) : List Char :=
  cs.dropWhile isLayout

def tagName? : List Char → Option (String × List Char)
  | [] => none
  | c :: rest =>
    if c.isAlpha then
      some (String.ofList (c :: rest.takeWhile isTagChar), rest.dropWhile isTagChar)
    else none

/-- The `:` or `@` in front of an attribute name, if there is one. -/
def nameMark : List Char → List Char × List Char
  | ':' :: rest => ([':'], rest)
  | '@' :: rest => (['@'], rest)
  | cs => ([], cs)

def attributeName? (cs : List Char) : Option (String × List Char) :=
  let (mark, rest) := nameMark cs
  let name := rest.takeWhile isNameChar
  if name.isEmpty then none else some (String.ofList (mark ++ name), rest.dropWhile isNameChar)

/-- Text between two quotes of one kind. -/
def quotedText? : List Char → Option (String × List Char)
  | [] => none
  | q :: rest =>
    if q == '"' || q == '\'' then
      match rest.dropWhile (· ≠ q) with
      | [] => none
      | _ :: after => some (String.ofList (rest.takeWhile (· ≠ q)), after)
    else none

/-- An equals sign and a quoted value, with layout around the sign. -/
def attributeValue? (cs : List Char) : Option (String × List Char) :=
  match skipLayout cs with
  | '=' :: rest => quotedText? (skipLayout rest)
  | _ => none

/-- An attribute with its value, or without one when no value follows. -/
def attribute? (cs : List Char) : Option ((String × Option String) × List Char) := do
  let (name, rest) ← attributeName? cs
  match attributeValue? rest with
  | some (value, after) => return ((name, some value), after)
  | none => return ((name, none), rest)

theorem length_tagName? {cs rest : List Char} {tag : String} (h : tagName? cs = some (tag, rest)) :
    rest.length < cs.length := by
  unfold tagName? at h
  split at h
  · simp at h
  next c tail =>
    split at h
    · simp only [Option.some.injEq, Prod.mk.injEq] at h
      obtain ⟨-, rfl⟩ := h
      have := length_dropWhile_le isTagChar tail
      simp only [List.length_cons]
      omega
    · simp at h

theorem length_nameMark (cs : List Char) : (nameMark cs).2.length ≤ cs.length := by
  unfold nameMark
  split <;> simp

theorem length_attributeName? {cs rest : List Char} {name : String}
    (h : attributeName? cs = some (name, rest)) : rest.length ≤ cs.length := by
  simp only [attributeName?] at h
  split at h
  · simp at h
  · simp only [Option.some.injEq, Prod.mk.injEq] at h
    obtain ⟨-, rfl⟩ := h
    exact Nat.le_trans (length_dropWhile_le _ _) (length_nameMark cs)

theorem length_quotedText? {cs rest : List Char} {value : String}
    (h : quotedText? cs = some (value, rest)) : rest.length ≤ cs.length := by
  unfold quotedText? at h
  split at h
  · simp at h
  next q tail =>
    split at h
    · split at h
      · simp at h
      next c after heq =>
        have hle := length_dropWhile_le (fun x => decide (x ≠ q)) tail
        rw [heq] at hle
        simp only [Option.some.injEq, Prod.mk.injEq] at h
        obtain ⟨-, rfl⟩ := h
        simp only [List.length_cons] at hle ⊢
        omega
    · simp at h

theorem length_attributeValue? {cs rest : List Char} {value : String}
    (h : attributeValue? cs = some (value, rest)) : rest.length ≤ cs.length := by
  unfold attributeValue? at h
  split at h
  next tail heq =>
    have h1 := length_quotedText? h
    have h2 := length_dropWhile_le isLayout tail
    have h3 := length_dropWhile_le isLayout cs
    have h4 := congrArg List.length heq
    simp only [skipLayout, List.length_cons] at h1 h2 h3 h4
    omega
  · simp at h

theorem length_attribute? {cs rest : List Char} {a : String × Option String}
    (h : attribute? cs = some (a, rest)) : rest.length ≤ cs.length := by
  obtain ⟨⟨name, tail⟩, hname, h⟩ := Option.bind_eq_some_iff.mp h
  have hle := length_attributeName? hname
  simp only at h
  split at h
  next value after hvalue =>
    simp only [Option.pure_def, Option.some.injEq, Prod.mk.injEq] at h
    obtain ⟨-, rfl⟩ := h
    exact Nat.le_trans (length_attributeValue? hvalue) hle
  · simp only [Option.pure_def, Option.some.injEq, Prod.mk.injEq] at h
    obtain ⟨-, rfl⟩ := h
    exact hle

/-- The attributes of a tag, each with layout in front, and the text after the last one. -/
def attributes (cs : List Char) : List (String × Option String) × List Char :=
  match cs with
  | [] => ([], [])
  | c :: tail =>
    if isLayout c then
      match h : attribute? (skipLayout tail) with
      | none => ([], c :: tail)
      | some (a, after) =>
        have : after.length < (c :: tail).length := by
          have h1 := length_attribute? h
          have h2 := length_dropWhile_le isLayout tail
          simp only [skipLayout, List.length_cons] at h1 ⊢
          omega
        let (more, rest) := attributes after
        (a :: more, rest)
    else ([], c :: tail)
termination_by cs.length
decreasing_by exact this

/-- The rest of a tag after its attributes: whether it closes itself, and the text after it. -/
def tagEnd? (cs : List Char) : Option (Bool × List Char) :=
  match skipLayout cs with
  | '/' :: '>' :: rest => some (true, rest)
  | '>' :: rest => some (false, rest)
  | _ => none

def openingTag? (cs : List Char) : Option (Piece × List Char) := do
  let (tag, rest) ← tagName? cs
  let (attrs, rest) := attributes rest
  let (selfClosed, rest) ← tagEnd? rest
  return (.opening tag attrs selfClosed, rest)

def closingTag? (cs : List Char) : Option (Piece × List Char) := do
  let (tag, rest) ← tagName? cs
  match skipLayout rest with
  | '>' :: rest => return (.closing tag, rest)
  | _ => none

def commentEnd : List Char := ['-', '-', '>']

/-- What a `<` begins: a comment, a closing tag or an opening tag. A comment leaves no piece. -/
def tagPiece? : List Char → Option (Option Piece × List Char)
  | '!' :: '-' :: '-' :: rest => (cutAt? commentEnd rest).map fun (_, after) => (none, after)
  | '/' :: rest => (closingTag? rest).map fun (p, after) => (some p, after)
  | cs => (openingTag? cs).map fun (p, after) => (some p, after)

theorem length_cutAt? {mark cs front after : List Char} (h : cutAt? mark cs = some (front, after)) :
    after.length ≤ cs.length := by
  induction cs generalizing front with
  | nil =>
    unfold cutAt? at h
    split at h
    · simp only [Option.some.injEq, Prod.mk.injEq] at h
      simp [← h.2]
    · simp at h
  | cons c rest ih =>
    unfold cutAt? at h
    split at h
    · simp only [Option.some.injEq, Prod.mk.injEq] at h
      obtain ⟨-, rfl⟩ := h
      simp
    · obtain ⟨⟨front', after'⟩, hcut, heq⟩ := Option.map_eq_some_iff.mp h
      simp only [Prod.mk.injEq] at heq
      obtain ⟨-, rfl⟩ := heq
      exact Nat.le_succ_of_le (ih hcut)

theorem length_attributes (cs : List Char) : (attributes cs).2.length ≤ cs.length := by
  fun_induction attributes cs with
  | case1 => simp
  | case2 => simp
  | case3 c tail _ a after hattr hlt more rest heq ih =>
    rw [heq] at ih
    simp only at ih hlt ⊢
    omega
  | case4 => simp

theorem length_tagEnd? {cs rest : List Char} {b : Bool} (h : tagEnd? cs = some (b, rest)) :
    rest.length ≤ cs.length := by
  have hskip := length_dropWhile_le isLayout cs
  unfold tagEnd? at h
  split at h
  next heq =>
    simp only [Option.some.injEq, Prod.mk.injEq] at h
    have := congrArg List.length heq
    simp only [skipLayout, List.length_cons, h.2] at this
    omega
  next heq =>
    simp only [Option.some.injEq, Prod.mk.injEq] at h
    have := congrArg List.length heq
    simp only [skipLayout, List.length_cons, h.2] at this
    omega
  · simp at h

theorem length_openingTag? {cs rest : List Char} {p : Piece} (h : openingTag? cs = some (p, rest)) :
    rest.length ≤ cs.length := by
  obtain ⟨⟨tag, tail⟩, htag, h⟩ := Option.bind_eq_some_iff.mp h
  obtain ⟨⟨closed, last⟩, hend, h⟩ := Option.bind_eq_some_iff.mp h
  simp only [Option.pure_def, Option.some.injEq, Prod.mk.injEq] at h
  obtain ⟨-, rfl⟩ := h
  have h1 := length_tagName? htag
  have h2 := length_attributes tail
  have h3 := length_tagEnd? hend
  omega

theorem length_closingTag? {cs rest : List Char} {p : Piece} (h : closingTag? cs = some (p, rest)) :
    rest.length ≤ cs.length := by
  obtain ⟨⟨tag, tail⟩, htag, h⟩ := Option.bind_eq_some_iff.mp h
  have h1 := length_tagName? htag
  have h2 := length_dropWhile_le isLayout tail
  simp only at h
  split at h
  next heq =>
    simp only [Option.pure_def, Option.some.injEq, Prod.mk.injEq] at h
    have := congrArg List.length heq
    simp only [skipLayout, List.length_cons, h.2] at this
    omega
  · simp at h

theorem length_tagPiece? {cs rest : List Char} {p : Option Piece} (h : tagPiece? cs = some (p, rest)) :
    rest.length ≤ cs.length := by
  unfold tagPiece? at h
  split at h
  · obtain ⟨⟨front, after⟩, hcut, heq⟩ := Option.map_eq_some_iff.mp h
    have := length_cutAt? hcut
    simp only [Prod.mk.injEq] at heq
    obtain ⟨-, rfl⟩ := heq
    simp only [List.length_cons]
    omega
  · obtain ⟨⟨piece, after⟩, htag, heq⟩ := Option.map_eq_some_iff.mp h
    have := length_closingTag? htag
    simp only [Prod.mk.injEq] at heq
    obtain ⟨-, rfl⟩ := heq
    simp only [List.length_cons]
    omega
  · obtain ⟨⟨piece, after⟩, htag, heq⟩ := Option.map_eq_some_iff.mp h
    have := length_openingTag? htag
    simp only [Prod.mk.injEq] at heq
    obtain ⟨-, rfl⟩ := heq
    exact this

mutual

theorem length_textRun : (cs : List Char) → (textRun cs).2.length ≤ cs.length
  | [] => by simp [textRun]
  | c :: rest => by
    unfold textRun
    split
    · simp
    next tail heq =>
      simp only [List.cons.injEq] at heq
      obtain ⟨-, rfl⟩ := heq
      split
      · have := length_codeRun tail
        simp only [List.length_cons]
        omega
      · have := length_textRun tail
        simp only [List.length_cons]
        omega
    next c' tail _ heq =>
      simp only [List.cons.injEq] at heq
      obtain ⟨rfl, rfl⟩ := heq
      split
      · simp
      · have := length_textRun rest
        simp only [List.length_cons]
        omega

theorem length_codeRun : (cs : List Char) → (codeRun cs).2.length ≤ cs.length
  | [] => by simp [codeRun]
  | c :: rest => by
    unfold codeRun
    split
    · simp
    next tail heq =>
      simp only [List.cons.injEq] at heq
      obtain ⟨-, rfl⟩ := heq
      have := length_textRun tail
      simp only [List.length_cons]
      omega
    next c' tail _ heq =>
      simp only [List.cons.injEq] at heq
      obtain ⟨rfl, rfl⟩ := heq
      have := length_codeRun rest
      simp only [List.length_cons]
      omega

end

theorem length_textRun_lt {c : Char} {rest : List Char} (h : c ≠ '<') :
    (textRun (c :: rest)).2.length < (c :: rest).length := by
  unfold textRun
  split
  · simp_all
  next tail heq =>
    simp only [List.cons.injEq] at heq
    obtain ⟨-, rfl⟩ := heq
    split
    · have := length_codeRun tail
      simp only [List.length_cons]
      omega
    · have := length_textRun tail
      simp only [List.length_cons]
      omega
  next c' tail _ heq =>
    simp only [List.cons.injEq] at heq
    obtain ⟨rfl, rfl⟩ := heq
    rw [if_neg h]
    have := length_textRun rest
    simp only [List.length_cons]
    omega

/-- The pieces of a source in order, or nothing when some tag or comment is malformed. -/
def pieces? (cs : List Char) : Option (List Piece) :=
  match cs with
  | [] => some []
  | c :: rest =>
    if hc : c = '<' then
      match h : tagPiece? rest with
      | none => none
      | some (p, after) =>
        have : after.length < (c :: rest).length := Nat.lt_succ_of_le (length_tagPiece? h)
        (pieces? after).map (p.toList ++ ·)
    else
      have : (textRun (c :: rest)).2.length < (c :: rest).length := length_textRun_lt hc
      (pieces? (textRun (c :: rest)).2).map (.text (textRun (c :: rest)).1 :: ·)
termination_by cs.length
decreasing_by
  · exact this
  · exact this

end LiveMarkup
