import LiveMarkup.Page.Script
import LiveMarkup.Page.Write

namespace LiveMarkup

/-- What a node is apart from the values it shows: an element with its tag, its namespace and its
listeners, or a text. -/
inductive KindShape where
  | element (tag : String) (ns : Namespace) (listeners : List (String × Listener))
  | text

/-- A node with its place in the document, without the values it shows. -/
structure NodeShape where
  kind : KindShape
  parent : Option NodeId
  children : List NodeId

def Element.shape (e : Element) : KindShape :=
  .element e.tag e.ns e.listeners

def NodeKind.shape : NodeKind → KindShape
  | .element e => e.shape
  | .text _ => .text

def Node.shape (node : Node) : NodeShape :=
  ⟨node.kind.shape, node.parent, node.children⟩

namespace Document

/-- All nodes of a document in order, without the values they show. -/
def shape (d : Document) : Array NodeShape :=
  d.nodes.map Node.shape

theorem shape_modifyNode (d : Document) (n : NodeId) {f : Node → Node}
    (hf : ∀ node, (f node).shape = node.shape) : (d.modifyNode n f).shape = d.shape := by
  apply Array.ext
  · simp [shape, modifyNode]
  · intro m hm _
    simp only [shape, modifyNode, Array.getElem_map, Array.getElem_modify]
    split
    · exact hf _
    · rfl

theorem shape_modifyElement (d : Document) (n : NodeId) {f : Element → Element}
    (hf : ∀ e, (f e).shape = e.shape) : (d.modifyElement n f).shape = d.shape := by
  apply shape_modifyNode
  rintro ⟨kind, parent, children⟩
  cases kind with
  | element e => exact congrArg (NodeShape.mk · parent children) (hf e)
  | text s => rfl

theorem shape_setText (d : Document) (n : NodeId) (s : String) : (d.setText n s).shape = d.shape := by
  apply shape_modifyNode
  rintro ⟨kind, parent, children⟩
  cases kind <;> rfl

end Document

theorem Element.shape_reflect (e : Element) (r : Reflection) (v : Value) :
    (e.reflect r v).shape = e.shape := by
  unfold Element.reflect
  split <;> split <;> rfl

theorem Element.shape_setProperty (e : Element) (key : String) (v : Value) :
    (e.setProperty key v).shape = e.shape := by
  unfold Element.setProperty
  split
  next r _ => exact e.shape_reflect r v
  next => rfl

namespace Document

theorem shape_setProperty (d : Document) (n : NodeId) (path : PropertyPath) (v : Value) :
    (d.setProperty n path v).shape = d.shape :=
  d.shape_modifyElement n fun e => e.shape_setProperty path.display v

theorem shape_setAttribute (d : Document) (n : NodeId) (name text : String) :
    (d.setAttribute n name text).shape = d.shape :=
  d.shape_modifyElement n fun _ => rfl

theorem shape_removeAttribute (d : Document) (n : NodeId) (name : String) :
    (d.removeAttribute n name).shape = d.shape :=
  d.shape_modifyElement n fun _ => rfl

end Document

/-- The listeners of a node; a text has none. -/
def KindShape.listeners : KindShape → List (String × Listener)
  | .element _ _ listeners => listeners
  | .text => []

namespace Document

variable {d d' : Document}

theorem nodeShape_eq (h : d'.shape = d.shape) (n : NodeId) :
    d'.nodes[n]?.map Node.shape = d.nodes[n]?.map Node.shape := by
  rw [← Array.getElem?_map, ← Array.getElem?_map]
  exact congrArg (·[n]?) h

theorem parent?_of_shape (h : d'.shape = d.shape) (n : NodeId) : d'.parent? n = d.parent? n := by
  have hparent : ∀ d : Document, d.parent? n = (d.nodes[n]?.map Node.shape).bind (·.parent) := fun d => by
    rw [parent?, Option.bind_map]
    rfl
  rw [hparent, hparent, nodeShape_eq h]

theorem listeners_of_shape (h : d'.shape = d.shape) (n : NodeId) : d'.listeners n = d.listeners n := by
  have hlisteners : ∀ d : Document,
      d.listeners n = ((d.nodes[n]?.map Node.shape).map (·.kind.listeners)).getD [] := fun d => by
    unfold listeners element?
    cases d.nodes[n]? with
    | none => rfl
    | some node =>
      obtain ⟨kind, parent, children⟩ := node
      cases kind <;> rfl
  rw [hlisteners, hlisteners, nodeShape_eq h]

theorem size_of_shape (h : d'.shape = d.shape) : d'.size = d.size := by
  have hsizes := congrArg Array.size h
  rwa [shape, shape, Array.size_map, Array.size_map] at hsizes

/-- Which listeners an event meets does not depend on the values shown. -/
theorem listenersFor_of_shape (h : d'.shape = d.shape) (n : NodeId) (kind : String) :
    d'.listenersFor n kind = d.listenersFor n kind := by
  have hsize : d'.size = d.size := size_of_shape h
  have hchain : ∀ bound n, d'.chainUpTo bound n = d.chainUpTo bound n := by
    intro bound
    induction bound with
    | zero => exact fun _ => rfl
    | succ bound ih =>
      intro n
      rw [chainUpTo, chainUpTo, parent?_of_shape h]
      cases d.parent? n with
      | none => rfl
      | some m => simp only [ih]
  simp only [listenersFor, chain, hsize, hchain, listeners_of_shape h]

end Document

end LiveMarkup
