import LiveMarkup.Handler
import LiveMarkup.Tree

namespace LiveMarkup

abbrev NodeId := Nat

def nodeText (n : NodeId) : String :=
  s!"#{n}"

/-- What runs when an event reaches a node: a handler of a component, or an observer that notes the event
and may fail. -/
inductive Listener where
  | component (owner : Nat) (handler : Handler)
  | observer (label : String) (failure : Option String)

structure Element where
  tag : String
  ns : Namespace
  attrs : Dict String
  props : Dict Value
  listeners : List (String × Listener)

def Element.ofTag (tag : String) (ns : Namespace) : Element :=
  ⟨tag, ns, Dict.empty, Dict.empty, []⟩

inductive NodeKind where
  | element (e : Element)
  | text (s : String)

structure Node where
  kind : NodeKind
  parent : Option NodeId
  children : List NodeId

/-- Nodes by number. A node is never removed. -/
structure Document where
  nodes : Array Node

instance : Inhabited Document := ⟨⟨#[]⟩⟩

/-- Sets the attribute a property shows in. -/
def Element.reflect (e : Element) (r : Reflection) (v : Value) : Element :=
  match r with
  | .text attr =>
    match v with
    | .null => { e with attrs := e.attrs.erase attr }
    | v => { e with attrs := e.attrs.insert attr v.display }
  | .flag attr =>
    if v.truthy then { e with attrs := e.attrs.insert attr "" }
    else { e with attrs := e.attrs.erase attr }

def Element.setProperty (e : Element) (key : String) (v : Value) : Element :=
  let e := match reflection? key with
    | some r => e.reflect r v
    | none => e
  { e with props := e.props.insert key v }

namespace Document

def empty : Document :=
  ⟨#[]⟩

def size (d : Document) : Nat :=
  d.nodes.size

def has (d : Document) (n : NodeId) : Bool :=
  n < d.nodes.size

def element? (d : Document) (n : NodeId) : Option Element :=
  match d.nodes[n]? with
  | some ⟨.element e, _, _⟩ => some e
  | _ => none

def text? (d : Document) (n : NodeId) : Option String :=
  match d.nodes[n]? with
  | some ⟨.text s, _, _⟩ => some s
  | _ => none

def tag? (d : Document) (n : NodeId) : Option String :=
  (d.element? n).map (·.tag)

def parent? (d : Document) (n : NodeId) : Option NodeId :=
  d.nodes[n]?.bind (·.parent)

def children (d : Document) (n : NodeId) : List NodeId :=
  (d.nodes[n]?.map (·.children)).getD []

def listeners (d : Document) (n : NodeId) : List (String × Listener) :=
  ((d.element? n).map (·.listeners)).getD []

/-- Adds a node without a parent; its number is the old size. -/
def push (d : Document) (kind : NodeKind) : Document :=
  ⟨d.nodes.push ⟨kind, none, []⟩⟩

def modifyNode (d : Document) (n : NodeId) (f : Node → Node) : Document :=
  ⟨d.nodes.modify n f⟩

def modifyElement (d : Document) (n : NodeId) (f : Element → Element) : Document :=
  d.modifyNode n fun node =>
    match node.kind with
    | .element e => { node with kind := .element (f e) }
    | .text _ => node

/-- Takes a node out of the children of its parent. -/
def detach (d : Document) (child : NodeId) : Document :=
  match d.parent? child with
  | none => d
  | some old =>
    (d.modifyNode child fun node => { node with parent := none }).modifyNode old fun node =>
      { node with children := node.children.filter (· ≠ child) }

/-- Makes `child` the last child of `parent`, wherever it was before. -/
def append (d : Document) (parent child : NodeId) : Document :=
  ((d.detach child).modifyNode child fun node => { node with parent := some parent }).modifyNode parent
    fun node => { node with children := node.children ++ [child] }

def setProperty (d : Document) (n : NodeId) (path : PropertyPath) (v : Value) : Document :=
  d.modifyElement n fun e => e.setProperty path.display v

def setAttribute (d : Document) (n : NodeId) (name text : String) : Document :=
  d.modifyElement n fun e => { e with attrs := e.attrs.insert name text }

def removeAttribute (d : Document) (n : NodeId) (name : String) : Document :=
  d.modifyElement n fun e => { e with attrs := e.attrs.erase name }

/-- Replaces the text of a text node; an element stays as it is. -/
def setText (d : Document) (n : NodeId) (s : String) : Document :=
  d.modifyNode n fun node =>
    match node.kind with
    | .text _ => { node with kind := .text s }
    | .element _ => node

def addListener (d : Document) (n : NodeId) (event : String) (l : Listener) : Document :=
  d.modifyElement n fun e => { e with listeners := e.listeners ++ [(event, l)] }

/-- A node and its ancestors, nearest first, no more than `bound` of them. -/
def chainUpTo (d : Document) : Nat → NodeId → List NodeId
  | 0, _ => []
  | bound + 1, n =>
    n :: match d.parent? n with
      | none => []
      | some p => d.chainUpTo bound p

/-- A node and its ancestors. Without a cycle they are no more than the nodes there are. -/
def chain (d : Document) (n : NodeId) : List NodeId :=
  d.chainUpTo d.size n

/-- The subtree at a node, cut below `depth` levels. A node that is not there is an empty text. -/
def subtreeTo (d : Document) : Nat → NodeId → Tree
  | 0, _ => .text ""
  | depth + 1, n =>
    match d.nodes[n]? with
    | none => .text ""
    | some ⟨.text s, _, _⟩ => .text s
    | some ⟨.element e, _, children⟩ =>
      .element e.tag e.ns e.attrs e.props (children.map fun c => d.subtreeTo depth c)

def subtree (d : Document) (n : NodeId) : Tree :=
  d.subtreeTo d.size n

def markup (d : Document) (n : NodeId) : String :=
  (d.subtree n).markup

def content (d : Document) (n : NodeId) : String :=
  (d.subtree n).content

end Document

end LiveMarkup
