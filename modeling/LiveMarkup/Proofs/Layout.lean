import LiveMarkup.Document
import LiveMarkup.Proofs.Preorder

namespace LiveMarkup

variable {d : Document} {parent : Option NodeId} {before : List Node} {children : List NodeId}

theorem modify_at_length {α : Type u} (f : α → α) (before : List α) (x : α) (after : List α) :
    (before ++ x :: after).modify before.length f = before ++ f x :: after := by
  induction before with
  | nil => rfl
  | cons b before ih => simp [ih]

namespace Document

theorem toList_modifyNode (d : Document) (n : NodeId) (f : Node → Node) :
    (d.modifyNode n f).nodes.toList = d.nodes.toList.modify n f :=
  Array.toList_modify

theorem toList_push (d : Document) (kind : NodeKind) :
    (d.push kind).nodes.toList = d.nodes.toList ++ [⟨kind, none, []⟩] :=
  Array.toList_push

/-- Changing the element at a known place. -/
theorem toList_modifyElement {after : List Node} {e : Element} (f : Element → Element)
    (hd : d.nodes.toList = before ++ ⟨.element e, parent, children⟩ :: after) :
    (d.modifyElement before.length f).nodes.toList =
      before ++ ⟨.element (f e), parent, children⟩ :: after := by
  rw [modifyElement, toList_modifyNode, hd, modify_at_length]

/-- Appending a node that has no parent yet. -/
theorem toList_append {between after : List Node} {a b : NodeKind} {below : List NodeId} {child : NodeId}
    (hd : d.nodes.toList = before ++ ⟨a, parent, children⟩ :: (between ++ ⟨b, none, below⟩ :: after))
    (hchild : child = before.length + 1 + between.length) :
    (d.append before.length child).nodes.toList =
      before ++ ⟨a, parent, children ++ [child]⟩ :: (between ++ ⟨b, some before.length, below⟩ :: after) := by
  have hlength : child = (before ++ ⟨a, parent, children⟩ :: between).length := by
    rw [hchild, List.length_append, List.length_cons, Nat.add_assoc, Nat.add_comm 1]
  have hsplit : d.nodes.toList = (before ++ ⟨a, parent, children⟩ :: between) ++ ⟨b, none, below⟩ :: after := by
    rw [hd]; simp
  have hparent : d.parent? child = none := by
    rw [parent?, ← Array.getElem?_toList, hsplit, hlength]
    simp
  rw [append, detach, hparent, toList_modifyNode, toList_modifyNode, hsplit, hlength, modify_at_length,
    List.append_assoc, List.cons_append, modify_at_length]

end Document

/-- The numbers of the children of a plan that is built after `off` older nodes. -/
def Plan.childIds (off : Nat) : Plan → List NodeId
  | .element _ children => children.map fun child => off + child.slot
  | .text .. => []

mutual

/-- The nodes of a plan that is built after `off` older nodes, in the order of their slots. -/
def Plan.nodes (kind : Plan → NodeKind) (off : Nat) (parent : Option NodeId) : Plan → List Node
  | .element head children =>
    ⟨kind (.element head children), parent, children.map fun child => off + child.slot⟩ ::
      Plan.nodesAll kind off (off + head.slot) children
  | .text slot spec => [⟨kind (.text slot spec), parent, []⟩]

def Plan.nodesAll (kind : Plan → NodeKind) (off : Nat) (parent : NodeId) : List Plan → List Node
  | [] => []
  | child :: rest => child.nodes kind off (some parent) ++ Plan.nodesAll kind off parent rest

end

/-- The first node is the plan's own, and only it depends on the parent. -/
theorem Plan.nodes_eq_cons (kind : Plan → NodeKind) (off : Nat) (plan : Plan) :
    ∃ below, ∀ parent, plan.nodes kind off parent = ⟨kind plan, parent, plan.childIds off⟩ :: below := by
  cases plan with
  | element head children => exact ⟨_, fun _ => rfl⟩
  | text slot spec => exact ⟨[], fun _ => rfl⟩

mutual

/-- Every subplan has its node. -/
theorem Plan.preorder_nodes (kind : Plan → NodeKind) (off : Nat) : ∀ (parent : Option NodeId) (plan : Plan),
    List.Forall₂ (fun sub node => ∃ parent, node = ⟨kind sub, parent, sub.childIds off⟩)
      plan.preorder (plan.nodes kind off parent)
  | parent, .element head children =>
    .cons ⟨parent, rfl⟩ (Plan.preorderAll_nodes kind off (off + head.slot) children)
  | parent, .text _ _ => .cons ⟨parent, rfl⟩ .nil

theorem Plan.preorderAll_nodes (kind : Plan → NodeKind) (off : Nat) : ∀ (parent : NodeId) (plans : List Plan),
    List.Forall₂ (fun sub node => ∃ parent, node = ⟨kind sub, parent, sub.childIds off⟩)
      (Plan.preorderAll plans) (Plan.nodesAll kind off parent plans)
  | _, [] => .nil
  | parent, child :: rest =>
    List.rel_append (Plan.preorder_nodes kind off (some parent) child)
      (Plan.preorderAll_nodes kind off parent rest)

end

theorem Plan.length_nodes (kind : Plan → NodeKind) (off : Nat) (parent : Option NodeId) (plan : Plan) :
    (plan.nodes kind off parent).length = plan.size := by
  rw [← (Plan.preorder_nodes kind off parent plan).length_eq, Plan.length_preorder]

/-- The document holds a plan built after `off` nodes, and its nodes are of the kinds given. -/
def Document.Holds (d : Document) (off : Nat) (kind : Plan → NodeKind) (plans : List Plan) : Prop :=
  ∀ sub ∈ plans, ∃ parent, d.nodes[off + sub.slot]? = some ⟨kind sub, parent, sub.childIds off⟩

theorem Document.holds_of_toList {plan : Plan} {kind : Plan → NodeKind} (hnum : plan.NumberedFrom 0)
    (hd : d.nodes.toList = before ++ plan.nodes kind before.length parent) :
    d.Holds before.length kind plan.preorder := by
  intro sub hsub
  obtain ⟨j, hj⟩ := List.mem_iff_getElem?.mp hsub
  obtain ⟨node, hnode, parent', rfl⟩ :=
    forall₂_getElem? (Plan.preorder_nodes kind before.length parent plan) hj
  refine ⟨parent', ?_⟩
  rw [Plan.slot_of_preorder hnum hj, Nat.zero_add, ← Array.getElem?_toList, hd,
    List.getElem?_append_right (Nat.le_add_right ..), Nat.add_sub_cancel_left, hnode]

/-- A node as the root of a tree. -/
def NodeKind.tree (children : List Tree) : NodeKind → Tree
  | .element e => .element e.tag e.ns e.attrs e.props children
  | .text s => .text s

mutual

/-- The tree of a plan whose nodes are of the kinds given. -/
def Plan.tree (kind : Plan → NodeKind) : Plan → Tree
  | .element head children => (kind (.element head children)).tree (Plan.treeAll kind children)
  | .text slot spec => (kind (.text slot spec)).tree []

def Plan.treeAll (kind : Plan → NodeKind) : List Plan → List Tree
  | [] => []
  | child :: rest => child.tree kind :: Plan.treeAll kind rest

end

theorem Document.subtreeTo_succ {n : NodeId} {kind : NodeKind} (hn : d.nodes[n]? = some ⟨kind, parent, children⟩)
    (depth : Nat) : d.subtreeTo (depth + 1) n = kind.tree (children.map fun c => d.subtreeTo depth c) := by
  cases kind <;> simp only [subtreeTo, hn, NodeKind.tree]

mutual

/-- Read down to enough levels, the document shows the tree of a plan it holds. -/
theorem Document.subtreeTo_of_holds {d : Document} {off : Nat} {kind : Plan → NodeKind} :
    ∀ {depth : Nat} {plan : Plan}, d.Holds off kind plan.preorder → plan.size ≤ depth →
      d.subtreeTo depth (off + plan.slot) = plan.tree kind
  | 0, plan, _, hdepth => absurd hdepth (Nat.not_le_of_lt plan.size_pos)
  | depth + 1, .text slot spec, hd, _ => by
    obtain ⟨parent, hnode⟩ := hd _ List.mem_cons_self
    rw [Document.subtreeTo_succ hnode]
    rfl
  | depth + 1, .element head children, hd, hdepth => by
    obtain ⟨parent, hnode⟩ := hd _ List.mem_cons_self
    rw [Document.subtreeTo_succ hnode, Plan.tree]
    have hsize : Plan.sizeAll children ≤ depth := by
      rw [Plan.size] at hdepth
      omega
    have hall := Document.subtreesTo_of_holds (fun sub hsub => hd sub (List.mem_cons_of_mem _ hsub)) hsize
    rw [← hall, Plan.childIds, List.map_map]
    rfl

theorem Document.subtreesTo_of_holds {d : Document} {off : Nat} {kind : Plan → NodeKind} {depth : Nat} :
    ∀ {plans : List Plan}, d.Holds off kind (Plan.preorderAll plans) → Plan.sizeAll plans ≤ depth →
      (plans.map fun child => d.subtreeTo depth (off + child.slot)) = Plan.treeAll kind plans
  | [], _, _ => rfl
  | child :: rest, hd, hdepth => by
    rw [Plan.sizeAll] at hdepth
    rw [List.map_cons, Plan.treeAll,
      Document.subtreeTo_of_holds (fun sub hsub => hd sub (List.mem_append_left _ hsub)) (by omega),
      Document.subtreesTo_of_holds (fun sub hsub => hd sub (List.mem_append_right _ hsub)) (by omega)]

end

end LiveMarkup
