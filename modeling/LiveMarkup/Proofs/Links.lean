import LiveMarkup.Proofs.NestedPage

namespace LiveMarkup

namespace Document

/-- Where every node stands: its parent and its children. -/
def links (d : Document) : Array (Option NodeId × List NodeId) :=
  d.nodes.map fun node => (node.parent, node.children)

variable {d d' : Document} {n parent child : NodeId}

theorem parent?_eq_links (d : Document) (n : NodeId) : d.parent? n = d.links[n]?.bind (·.1) := by
  rw [parent?, links, Array.getElem?_map, Option.bind_map]
  rfl

theorem children_eq_links (d : Document) (n : NodeId) : d.children n = (d.links[n]?.map (·.2)).getD [] := by
  rw [children, links, Array.getElem?_map, Option.map_map]
  rfl

theorem parent?_of_links (h : d'.links = d.links) (n : NodeId) : d'.parent? n = d.parent? n := by
  rw [parent?_eq_links, h, ← parent?_eq_links]

theorem children_of_links (h : d'.links = d.links) (n : NodeId) : d'.children n = d.children n := by
  rw [children_eq_links, h, ← children_eq_links]

theorem size_of_links (h : d'.links = d.links) : d'.size = d.size := by
  have hsizes := congrArg Array.size h
  rwa [links, links, Array.size_map, Array.size_map] at hsizes

theorem links_of_shape (h : d'.shape = d.shape) : d'.links = d.links := by
  have hlinks : ∀ d : Document, d.links = d.shape.map fun s => (s.parent, s.children) := fun d => by
    rw [shape, Array.map_map]
    rfl
  rw [hlinks, h, ← hlinks]

theorem links_modifyNode (d : Document) (n : NodeId) {f : Node → Node}
    (hf : ∀ node, (f node).parent = node.parent ∧ (f node).children = node.children) :
    (d.modifyNode n f).links = d.links := by
  apply Array.ext
  · simp [links, modifyNode]
  · intro m hm _
    simp only [links, modifyNode, Array.getElem_map, Array.getElem_modify]
    split
    · rw [(hf _).1, (hf _).2]
    · rfl

theorem links_modifyElement (d : Document) (n : NodeId) (f : Element → Element) :
    (d.modifyElement n f).links = d.links := by
  apply links_modifyNode
  rintro ⟨kind, parent, children⟩
  cases kind <;> exact ⟨rfl, rfl⟩

theorem getElem?_modifyNode (d : Document) (m n : NodeId) (f : Node → Node) :
    (d.modifyNode m f).nodes[n]? = if m = n then d.nodes[n]?.map f else d.nodes[n]? :=
  Array.getElem?_modify

theorem parent?_modifyNode (d : Document) (m n : NodeId) {f : Node → Node}
    (hf : ∀ node, (f node).parent = node.parent) : (d.modifyNode m f).parent? n = d.parent? n := by
  rw [parent?, parent?, getElem?_modifyNode]
  split
  · rw [Option.bind_map]
    exact congrArg _ (funext hf)
  · rfl

theorem children_modifyNode (d : Document) (m n : NodeId) {f : Node → Node}
    (hf : ∀ node, (f node).children = node.children) : (d.modifyNode m f).children n = d.children n := by
  rw [children, children, getElem?_modifyNode]
  split
  · rw [Option.map_map]
    exact congrArg (fun g => (d.nodes[n]?.map g).getD []) (funext hf)
  · rfl

theorem parent?_eq_none_of_le (h : d.size ≤ n) : d.parent? n = none := by
  rw [parent?, Array.getElem?_eq_none h]
  rfl

theorem children_eq_nil_of_le (h : d.size ≤ n) : d.children n = [] := by
  rw [children, Array.getElem?_eq_none h]
  rfl

/-- A new node stands alone and leaves the others where they are. -/
theorem parent?_push (d : Document) (kind : NodeKind) (n : NodeId) : (d.push kind).parent? n = d.parent? n := by
  rw [parent?, push, Array.getElem?_push]
  split
  next h => rw [parent?_eq_none_of_le (Nat.le_of_eq h.symm)]; rfl
  next => rfl

theorem children_push (d : Document) (kind : NodeKind) (n : NodeId) : (d.push kind).children n = d.children n := by
  rw [children, push, Array.getElem?_push]
  split
  next h => rw [children_eq_nil_of_le (Nat.le_of_eq h.symm)]; rfl
  next => rfl

theorem size_detach (d : Document) (child : NodeId) : (d.detach child).size = d.size := by
  rw [detach]
  cases d.parent? child with
  | none => rfl
  | some old => simp only [size_modifyNode]

theorem parent?_detach_of_ne (h : n ≠ child) : (d.detach child).parent? n = d.parent? n := by
  rw [detach]
  cases d.parent? child with
  | none => rfl
  | some old =>
    simp only
    rw [parent?_modifyNode]
    case hf => exact fun _ => rfl
    rw [parent?, getElem?_modifyNode, if_neg h.symm]
    rfl

/-- Only the old parent loses the child. -/
theorem children_detach (d : Document) (child n : NodeId) :
    (d.detach child).children n =
      if d.parent? child = some n then (d.children n).filter (· ≠ child) else d.children n := by
  rw [detach]
  cases d.parent? child with
  | none => rfl
  | some old =>
    simp only [Option.some.injEq]
    rw [children, getElem?_modifyNode]
    split
    · rw [Option.map_map, getElem?_modifyNode]
      simp only [children]
      split <;> cases d.nodes[n]? <;> rfl
    · exact children_modifyNode d child n fun _ => rfl

/-- Only the moved node gets another parent. -/
theorem parent?_append (hchild : child < d.size) (parent n : NodeId) :
    (d.append parent child).parent? n = if n = child then some parent else d.parent? n := by
  rw [append, parent?_modifyNode]
  case hf => exact fun _ => rfl
  rw [parent?, getElem?_modifyNode]
  split
  next h =>
    subst h
    have hsize : child < (d.detach child).size := by rwa [size_detach]
    obtain ⟨node, hnode⟩ : ∃ node, (d.detach child).nodes[child]? = some node :=
      ⟨_, Array.getElem?_eq_getElem hsize⟩
    rw [hnode, if_pos rfl]
    rfl
  next h =>
    rw [if_neg (Ne.symm h)]
    exact parent?_detach_of_ne (Ne.symm h)

theorem children_append (hparent : parent < d.size) (child n : NodeId) :
    (d.append parent child).children n =
      if n = parent then (d.detach child).children n ++ [child] else (d.detach child).children n := by
  have hmarked : ∀ m, ((d.detach child).modifyNode child fun node =>
      { node with parent := some parent }).children m = (d.detach child).children m :=
    fun m => children_modifyNode _ child m fun _ => rfl
  rw [append, children, getElem?_modifyNode]
  split
  next h =>
    subst h
    rw [if_pos rfl, ← hmarked, children]
    have hsize : parent < ((d.detach child).modifyNode child fun node =>
        { node with parent := some parent }).size := by rwa [size_modifyNode, size_detach]
    obtain ⟨node, hnode⟩ : ∃ node, ((d.detach child).modifyNode child fun node =>
        { node with parent := some parent }).nodes[parent]? = some node :=
      ⟨_, Array.getElem?_eq_getElem hsize⟩
    rw [hnode]
    rfl
  next h =>
    rw [if_neg (Ne.symm h), ← hmarked]
    rfl

/-- Parents and children tell the same story, and no child is listed twice. -/
structure Linked (d : Document) : Prop where
  agree : ∀ parent child, child ∈ d.children parent ↔ d.parent? child = some parent
  distinct : ∀ parent, (d.children parent).Nodup

theorem linked_empty : empty.Linked where
  agree parent child := by
    rw [children_eq_nil_of_le (Nat.zero_le _), parent?_eq_none_of_le (Nat.zero_le _)]
    simp
  distinct parent := by
    rw [children_eq_nil_of_le (Nat.zero_le _)]
    exact List.nodup_nil

namespace Linked

/-- A node that is named as a child is there: it has a parent. -/
theorem child_lt (h : d.Linked) (hmem : child ∈ d.children parent) : child < d.size := by
  apply Nat.lt_of_not_le
  intro hle
  have hsome := (h.agree parent child).1 hmem
  rw [parent?_eq_none_of_le hle] at hsome
  cases hsome

/-- A node that is named as a parent is there: it has a child. -/
theorem parent_lt (h : d.Linked) (hsome : d.parent? child = some parent) : parent < d.size := by
  apply Nat.lt_of_not_le
  intro hle
  have hmem := (h.agree parent child).2 hsome
  rw [children_eq_nil_of_le hle] at hmem
  cases hmem

theorem of_links (h : d.Linked) (hlinks : d'.links = d.links) : d'.Linked where
  agree parent child := by
    rw [children_of_links hlinks, parent?_of_links hlinks]
    exact h.agree parent child
  distinct parent := by
    rw [children_of_links hlinks]
    exact h.distinct parent

theorem push (h : d.Linked) (kind : NodeKind) : (d.push kind).Linked where
  agree parent child := by
    rw [children_push, parent?_push]
    exact h.agree parent child
  distinct parent := by
    rw [children_push]
    exact h.distinct parent

/-- Once it is detached, a node is nobody's child, and all else is where it was. -/
theorem children_detach (h : d.Linked) (child n : NodeId) :
    (d.detach child).children n = (d.children n).filter (· ≠ child) := by
  rw [Document.children_detach]
  split
  next => rfl
  next hne =>
    refine (List.filter_eq_self.2 fun m hm => ?_).symm
    have : m ≠ child := fun heq => hne ((h.agree n child).1 (heq ▸ hm))
    exact decide_eq_true this

/-- Appending keeps the links in order wherever the node comes from: another parent, the same one or
itself. -/
theorem append (h : d.Linked) (hparent : parent < d.size) (hchild : child < d.size) :
    (d.append parent child).Linked where
  agree p c := by
    have hother : c ∈ (d.children p).filter (· ≠ child) ↔ c ≠ child ∧ d.parent? c = some p := by
      rw [List.mem_filter, h.agree, decide_eq_true_eq, and_comm]
    rw [parent?_append hchild, children_append hparent, h.children_detach]
    by_cases hc : c = child
    · by_cases hp : p = parent
      · simp [hc, hp]
      · simp [hc, hp, Ne.symm hp]
    · by_cases hp : p = parent
      · rw [if_pos hp, if_neg hc, List.mem_append, hother, List.mem_singleton]
        simp [hc]
      · rw [if_neg hp, if_neg hc, hother]
        simp [hc]
  distinct p := by
    rw [children_append hparent, h.children_detach]
    have hrest := (h.distinct p).filter (fun m => decide (m ≠ child))
    split
    next =>
      rw [List.nodup_append]
      refine ⟨hrest, by simp, fun m hm c hc => ?_⟩
      rw [List.mem_singleton] at hc
      exact hc ▸ of_decide_eq_true (List.mem_filter.1 hm).2
    next => exact hrest

end Linked

end Document

end LiveMarkup
