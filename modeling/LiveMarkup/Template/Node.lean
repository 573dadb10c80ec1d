import LiveMarkup.Handler
import LiveMarkup.ValueSpec

namespace LiveMarkup

/-- What a template says of one node beside its children. An empty tag is a text whose value is the
expression. -/
structure NodeHead where
  tag : String
  ns : Option String
  attachPoints : List String
  attributes : List (String × ValueSpec)
  events : List (String × Handler)
  expression : Option ValueSpec

def NodeHead.ofTag (tag : String) : NodeHead :=
  ⟨tag, none, [], [], [], none⟩

instance : Inhabited NodeHead := ⟨.ofTag ""⟩

/-- The source form of a template. -/
inductive TemplateNode where
  | node (head : NodeHead) (children : List TemplateNode)
  | text (spec : ValueSpec)

instance : Inhabited TemplateNode := ⟨.node default []⟩

end LiveMarkup
