import LiveMarkup.Proofs.Spelling
import LiveMarkup.Template.Reader

namespace LiveMarkup

/-- Markup as it is written, comments included. -/
inductive Markup where
  | text (run : List Char)
  | comment (words : List Char)
  | element (tag : String) (attributes : List (String × Option String)) (children : List Markup)

def Markup.isText : Markup → Bool
  | .text _ => true
  | _ => false

/-- A letter, and letters, digits and three more characters after it. -/
def IsTagName (cs : List Char) : Prop :=
  ∃ c rest, cs = c :: rest ∧ c.isAlpha = true ∧ ∀ x ∈ rest, x.isAlphanum = true ∨ x ∈ ['-', '_', ':']

/-- A name, with or without a mark in front. A colon alone is a mark without a name. -/
def IsAttributeName (cs : List Char) : Prop :=
  cs ≠ [':'] ∧ ∃ mark name, mark ∈ [[], [':'], ['@']] ∧ name ≠ [] ∧
    (∀ c ∈ name, c.isAlphanum = true ∨ c ∈ ['-', '_', ':', '.']) ∧ cs = mark ++ name

theorem isTagChar_iff {c : Char} : isTagChar c = true ↔ c.isAlphanum = true ∨ c ∈ ['-', '_', ':'] := by
  simp [isTagChar, or_assoc]

theorem isNameChar_iff {c : Char} : isNameChar c = true ↔ c.isAlphanum = true ∨ c ∈ ['-', '_', ':', '.'] := by
  simp [isNameChar, or_assoc]

theorem isTagName_of_class {c : Char} {rest : List Char} (hc : c.isAlpha = true)
    (hrest : ∀ x ∈ rest, isTagChar x = true) : IsTagName (c :: rest) :=
  ⟨c, rest, rfl, hc, fun x hx => isTagChar_iff.mp (hrest x hx)⟩

theorem isAttributeName_of_class {mark name : List Char} (hcolon : mark ++ name ≠ [':'])
    (hmark : mark ∈ [[], [':'], ['@']]) (hne : name ≠ []) (hname : ∀ c ∈ name, isNameChar c = true) :
    IsAttributeName (mark ++ name) :=
  ⟨hcolon, mark, name, hmark, hne, fun c hc => isNameChar_iff.mp (hname c hc), rfl⟩

/-- Text in which double braces that open an expression are closed, with a `<` inside expressions only. An
expression ends at the first double braces that can close it. -/
inductive IsTextRun : List Char → Prop where
  | nil : IsTextRun []
  | char {c : Char} {rest : List Char} (hc : c ≠ '<') (hopen : c = '\x7b' → rest.head? ≠ some '\x7b')
      (h : IsTextRun rest) : IsTextRun (c :: rest)
  | code {code rest : List Char} (hcode : ¬ closingBraces <:+: code ++ ['\x7d']) (h : IsTextRun rest) :
      IsTextRun ('\x7b' :: '\x7b' :: (code ++ (closingBraces ++ rest)))

theorem isTextRun_of_plain {run : List Char} (h : run.all (fun c => c != '<' && c != '\x7b') = true) :
    IsTextRun run := by
  induction run with
  | nil => exact .nil
  | cons c run ih =>
    simp only [List.all_cons, Bool.and_eq_true, bne_iff_ne] at h
    exact .char h.1.1 (absurd · h.1.2) (ih h.2)

/-- How an attribute is written. Layout may stand around the equals sign, and the value stands in quotes of
one of two kinds, which it does not contain. -/
inductive AttributePrinted : String × Option String → List Char → Prop where
  | bare {name : String} (hname : IsAttributeName name.toList) : AttributePrinted (name, none) name.toList
  | valued {name value : String} {before after : List Char} {quote : Char}
      (hname : IsAttributeName name.toList) (hbefore : IsGap before)
      (hafter : IsGap after) (hquote : quote = '"' ∨ quote = '\'')
      (hvalue : quote ∉ value.toList) :
      AttributePrinted (name, some value)
        (name.toList ++ (before ++ '=' :: (after ++ quote :: (value.toList ++ [quote]))))

/-- Attributes in a row, each with layout in front. -/
inductive AttributesPrinted : List (String × Option String) → List Char → Prop where
  | nil : AttributesPrinted [] []
  | cons {a : String × Option String} {attributes : List (String × Option String)} {gap cs rest : List Char}
      (hne : gap ≠ []) (hgap : IsGap gap) (ha : AttributePrinted a cs)
      (h : AttributesPrinted attributes rest) : AttributesPrinted (a :: attributes) (gap ++ (cs ++ rest))

/-- How nodes are written one after the other. No two texts stand side by side, and an element without
children may close itself. -/
inductive Markup.Printed : List Markup → List Char → Prop where
  | nil : Printed [] []
  | text {run rest : List Char} {nodes : List Markup} (hne : run ≠ []) (hrun : IsTextRun run)
      (hapart : ∀ m ∈ nodes.head?, m.isText = false) (h : Printed nodes rest) :
      Printed (.text run :: nodes) (run ++ rest)
  | comment {words rest : List Char} {nodes : List Markup} (hwords : ¬ ['-', '-', '>'] <:+: words)
      (h : Printed nodes rest) :
      Printed (.comment words :: nodes) ('<' :: '!' :: '-' :: '-' :: (words ++ '-' :: '-' :: '>' :: rest))
  | selfClosed {tag : String} {attributes : List (String × Option String)} {cs gap rest : List Char}
      {nodes : List Markup} (htag : IsTagName tag.toList) (hattributes : AttributesPrinted attributes cs)
      (hgap : IsGap gap) (h : Printed nodes rest) :
      Printed (.element tag attributes [] :: nodes)
        ('<' :: (tag.toList ++ (cs ++ (gap ++ '/' :: '>' :: rest))))
  | element {tag : String} {attributes : List (String × Option String)} {cs gap inner gap' rest : List Char}
      {children nodes : List Markup} (htag : IsTagName tag.toList)
      (hattributes : AttributesPrinted attributes cs) (hgap : IsGap gap)
      (hchildren : Printed children inner) (hgap' : IsGap gap') (h : Printed nodes rest) :
      Printed (.element tag attributes children :: nodes)
        ('<' :: (tag.toList ++ (cs ++ (gap ++ '>' :: (inner ++ '<' :: '/' :: (tag.toList ++ (gap' ++ '>' :: rest)))))))

end LiveMarkup
