import LiveMarkup.Markup.Piece

namespace LiveMarkup

/-- Markup as a tree. An element that does not close itself carries the tag that closes it. -/
inductive SourceNode where
  | text (run : List Char)
  | element (tag : String) (attributes : List (String × Option String)) (children : List SourceNode)
      (closedBy : Option String)

instance : Inhabited SourceNode := ⟨.text []⟩

/-- An element still open, with the nodes before it in its parent, the latest first. -/
structure OpenElement where
  tag : String
  attributes : List (String × Option String)
  before : List SourceNode

/-- Nests pieces. The open elements come innermost first and the nodes read in the innermost one latest
first. Every closing tag closes the innermost element, whatever its name. -/
def nest? : List OpenElement → List SourceNode → List Piece → Option (List SourceNode)
  | [], nodes, [] => some nodes.reverse
  | _ :: _, _, [] => none
  | opened, nodes, .text run :: rest => nest? opened (.text run :: nodes) rest
  | opened, nodes, .opening tag attrs true :: rest =>
    nest? opened (.element tag attrs [] none :: nodes) rest
  | opened, nodes, .opening tag attrs false :: rest => nest? (⟨tag, attrs, nodes⟩ :: opened) [] rest
  | [], _, .closing _ :: _ => none
  | e :: opened, nodes, .closing tag :: rest =>
    nest? opened (.element e.tag e.attributes nodes.reverse (some tag) :: e.before) rest

/-- The nodes of a source, or nothing when it is not markup. -/
def sourceNodes? (source : String) : Option (List SourceNode) :=
  (pieces? source.toList).bind (nest? [] [])

end LiveMarkup
