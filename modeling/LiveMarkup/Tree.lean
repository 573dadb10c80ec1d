import LiveMarkup.Dict
import LiveMarkup.Schema
import LiveMarkup.Value

namespace LiveMarkup

/-- A subtree of a document, without the numbers of its nodes. -/
inductive Tree where
  | text (s : String)
  | element (tag : String) (ns : Namespace) (attrs : Dict String) (props : Dict Value)
      (children : List Tree)

def escapeChar (c : Char) : List Char :=
  if c = '&' then "&amp;".toList
  else if c = '<' then "&lt;".toList
  else if c = '>' then "&gt;".toList
  else if c = '"' then "&quot;".toList
  else [c]

/-- Text with the characters that delimit markup written as entities. -/
def escape (s : String) : String :=
  String.ofList (s.toList.flatMap escapeChar)

def attributeMarkup (e : String × String) : String :=
  s!" {e.1}=\"{escape e.2}\""

/-- Properties that show in no attribute are written with a dot; callbacks are not written. -/
def propertyMarkup (e : String × Value) : String :=
  match reflection? e.1, e.2 with
  | some _, _ => ""
  | none, .callback _ => ""
  | none, v => s!" .{e.1}=\"{escape v.display}\""

def openingMarkup (tag : String) (attrs : Dict String) (props : Dict Value) : String :=
  "<" ++ tag ++ String.join (attrs.entries.map attributeMarkup) ++
    String.join (props.entries.map propertyMarkup) ++ ">"

mutual

def Tree.markup : Tree → String
  | .text s => escape s
  | .element tag _ attrs props children =>
    openingMarkup tag attrs props ++ Tree.markupList children ++ "</" ++ tag ++ ">"

def Tree.markupList : List Tree → String
  | [] => ""
  | t :: rest => t.markup ++ Tree.markupList rest

end

mutual

/-- The texts of a tree one after the other. -/
def Tree.content : Tree → String
  | .text s => s
  | .element _ _ _ _ children => Tree.contentList children

def Tree.contentList : List Tree → String
  | [] => ""
  | t :: rest => t.content ++ Tree.contentList rest

end

/-- A tree in which an element has nothing but texts: its attributes, and its properties under their
names with a dot in front. -/
inductive Snapshot where
  | text (s : String)
  | element (tag : String) (entries : List (String × String)) (children : List Snapshot)
deriving BEq

def snapshotEntries (attrs : Dict String) (props : Dict Value) : Dict String :=
  props.entries.foldl (fun d e => d.insert ("." ++ e.1) e.2.display) attrs

mutual

def Tree.snapshot : Tree → Snapshot
  | .text s => .text s
  | .element tag _ attrs props children =>
    .element tag (snapshotEntries attrs props).entries (Tree.snapshotList children)

def Tree.snapshotList : List Tree → List Snapshot
  | [] => []
  | t :: rest => t.snapshot :: Tree.snapshotList rest

end

end LiveMarkup
