import LiveMarkup.Proofs.Planning
import Mathlib.Data.List.Forall2

namespace LiveMarkup

theorem forall₂_getElem? {α : Type u} {β : Type v} {R : α → β → Prop} {as : List α} {bs : List β}
    (h : List.Forall₂ R as bs) {j : Nat} {a : α} (ha : as[j]? = some a) : ∃ b, bs[j]? = some b ∧ R a b := by
  induction h generalizing j with
  | nil => simp at ha
  | cons hR _ ih =>
    cases j with
    | zero => exact ⟨_, rfl, Option.some.inj ha ▸ hR⟩
    | succ j => exact ih ha

namespace TemplateNode

mutual

/-- A node and all nodes below it, each before its children. -/
def preorder : TemplateNode → List TemplateNode
  | .text spec => [.text spec]
  | .node head children => .node head children :: preorderAll children

def preorderAll : List TemplateNode → List TemplateNode
  | [] => []
  | child :: rest => child.preorder ++ preorderAll rest

end

theorem size_pos (node : TemplateNode) : 0 < node.size := by
  cases node with
  | text spec => exact Nat.zero_lt_one
  | node head children => exact Nat.lt_of_lt_of_le Nat.zero_lt_one (Nat.le_add_right 1 _)

/-- The positions of siblings in pre-order, when the first one stands at `slot`. -/
def slotsFrom (slot : Slot) : List TemplateNode → List Slot
  | [] => []
  | child :: rest => slot :: slotsFrom (slot + child.size) rest

/-- The positions of the children of a node that stands at `slot`. -/
def childSlots (slot : Slot) : TemplateNode → List Slot
  | .text _ => []
  | .node _ children => slotsFrom (slot + 1) children

/-- Whether a node becomes a text. -/
def IsText : TemplateNode → Prop
  | .text _ => True
  | .node head _ => head.tag = ""

mutual

theorem length_preorder : ∀ node : TemplateNode, node.preorder.length = node.size
  | .text _ => rfl
  | .node _ children => by
    simp [preorder, size, length_preorderAll children, Nat.add_comm]

theorem length_preorderAll : ∀ nodes : List TemplateNode,
    (preorderAll nodes).length = sizeAll nodes
  | [] => rfl
  | child :: rest => by
    simp [preorderAll, sizeAll, length_preorder child,
      length_preorderAll rest]

end

end TemplateNode

namespace Plan

mutual

def size : Plan → Nat
  | .element _ children => 1 + sizeAll children
  | .text .. => 1

def sizeAll : List Plan → Nat
  | [] => 0
  | child :: rest => child.size + sizeAll rest

end

theorem size_pos (plan : Plan) : 0 < plan.size := by
  cases plan with
  | element head children => exact Nat.lt_of_lt_of_le Nat.zero_lt_one (Nat.le_add_right 1 _)
  | text slot spec => exact Nat.zero_lt_one

mutual

def preorder : Plan → List Plan
  | .element head children => .element head children :: preorderAll children
  | .text slot spec => [.text slot spec]

def preorderAll : List Plan → List Plan
  | [] => []
  | child :: rest => child.preorder ++ preorderAll rest

end

mutual

/-- The slots of a plan are its positions in pre-order, counted from `k`. -/
def NumberedFrom (k : Nat) : Plan → Prop
  | .element head children => head.slot = k ∧ AllNumberedFrom (k + 1) children
  | .text slot _ => slot = k

def AllNumberedFrom (k : Nat) : List Plan → Prop
  | [] => True
  | child :: rest => child.NumberedFrom k ∧ AllNumberedFrom (k + child.size) rest

end

theorem NumberedFrom.slot_eq {k : Nat} {plan : Plan} (h : plan.NumberedFrom k) : plan.slot = k := by
  cases plan with
  | element head children => exact h.1
  | text slot spec => exact h

mutual

theorem length_preorder : ∀ plan : Plan, plan.preorder.length = plan.size
  | .text .. => rfl
  | .element _ children => by
    simp [preorder, size, length_preorderAll children, Nat.add_comm]

theorem length_preorderAll : ∀ plans : List Plan,
    (preorderAll plans).length = sizeAll plans
  | [] => rfl
  | child :: rest => by
    simp [preorderAll, sizeAll, length_preorder child, length_preorderAll rest]

end

mutual

/-- The subplan at a position in pre-order has that position as its slot. -/
theorem map_slot_preorder {k : Nat} : ∀ {plan : Plan}, plan.NumberedFrom k →
    plan.preorder.map slot = List.range' k plan.size
  | .text slot spec, h => by
    cases h
    rfl
  | .element head children, h => by
    rw [preorder, List.map_cons, map_slot_preorderAll h.2, size, Nat.add_comm 1,
      List.range'_succ]
    exact congrArg (· :: _) h.1

theorem map_slot_preorderAll {k : Nat} : ∀ {plans : List Plan}, AllNumberedFrom k plans →
    (preorderAll plans).map slot = List.range' k (sizeAll plans)
  | [], _ => rfl
  | child :: rest, h => by
    rw [preorderAll, List.map_append, map_slot_preorder h.1, map_slot_preorderAll h.2,
      sizeAll, List.range'_append_1]

end

mutual

/-- A subplan ends where or before the whole plan ends. -/
theorem size_of_preorder : ∀ {plan sub : Plan} {j : Nat}, plan.preorder[j]? = some sub →
    j + sub.size ≤ plan.size
  | .text slot spec, sub, 0, h => by
    cases Option.some.inj h
    exact Nat.le_refl _
  | .element head children, sub, 0, h => by
    cases Option.some.inj h
    exact Nat.le_of_eq (Nat.zero_add _)
  | .element head children, sub, j + 1, h => by
    have hbelow : j + sub.size ≤ sizeAll children := size_of_preorderAll h
    rw [size]
    omega

theorem size_of_preorderAll : ∀ {plans : List Plan} {sub : Plan} {j : Nat},
    (preorderAll plans)[j]? = some sub → j + sub.size ≤ sizeAll plans
  | child :: rest, sub, j, h => by
    rw [preorderAll] at h
    rw [sizeAll]
    by_cases hj : j < child.size
    · rw [List.getElem?_append_left (by rw [length_preorder]; exact hj)] at h
      have := size_of_preorder h
      omega
    · rw [List.getElem?_append_right (by rw [length_preorder]; exact Nat.le_of_not_lt hj),
        length_preorder] at h
      have := size_of_preorderAll h
      omega

end

theorem slot_of_preorder {k : Nat} {plan sub : Plan} {j : Nat} (h : plan.NumberedFrom k)
    (hsub : plan.preorder[j]? = some sub) : sub.slot = k + j := by
  have hmap : (plan.preorder.map slot)[j]? = some sub.slot := by simp [hsub]
  rw [map_slot_preorder h] at hmap
  obtain ⟨hj, heq⟩ := List.getElem?_eq_some_iff.mp hmap
  simpa [Nat.add_comm] using heq.symm

theorem map_slot_planAll (declared : Declarations) (options : CompileOptions)
    (nodes : List TemplateNode) : ∀ (inherited : Namespace) (k : Nat),
    (TemplateNode.planAll declared options inherited k nodes).map slot = TemplateNode.slotsFrom k nodes := by
  induction nodes with
  | nil => intro inherited k; rfl
  | cons child rest ih =>
    intro inherited k
    have hslot : (child.plan declared options inherited k).slot = k := by
      cases child with
      | text spec => rfl
      | node head children =>
        unfold TemplateNode.plan
        split <;> rfl
    simp [TemplateNode.planAll, TemplateNode.slotsFrom, ih, hslot]

end Plan

namespace TemplateNode

mutual

theorem plan_numbered (declared : Declarations) (options : CompileOptions) :
    ∀ (inherited : Namespace) (k : Nat) {node : TemplateNode}, node.TextsAreLeaves →
      (node.plan declared options inherited k).NumberedFrom k ∧
        (node.plan declared options inherited k).size = node.size
  | inherited, k, .text spec, _ => ⟨rfl, rfl⟩
  | inherited, k, .node head children, h => by
    unfold plan
    split
    next htag =>
      obtain ⟨-, rfl⟩ := h.1 htag
      exact ⟨rfl, rfl⟩
    next =>
      obtain ⟨hnum, hsize⟩ := planAll_numbered declared options _ _ h.2
      exact ⟨⟨rfl, hnum⟩, congrArg (1 + ·) hsize⟩

theorem planAll_numbered (declared : Declarations) (options : CompileOptions) :
    ∀ (inherited : Namespace) (k : Nat) {nodes : List TemplateNode}, AllTextsAreLeaves nodes →
      Plan.AllNumberedFrom k (planAll declared options inherited k nodes) ∧
        Plan.sizeAll (planAll declared options inherited k nodes) = sizeAll nodes
  | inherited, k, [], _ => ⟨trivial, rfl⟩
  | inherited, k, child :: rest, h => by
    obtain ⟨hnum, hsize⟩ := plan_numbered declared options inherited k h.1
    obtain ⟨hnum', hsize'⟩ := planAll_numbered declared options inherited (k + child.size) h.2
    simp only [planAll, Plan.AllNumberedFrom, Plan.sizeAll, sizeAll, hsize, hsize']
    exact ⟨⟨hnum, hnum'⟩, trivial⟩

end

theorem rootPlan_numbered {node : TemplateNode} (declared : Declarations)
    (options : CompileOptions) (h : node.TextsAreLeaves) :
    (node.rootPlan declared options).NumberedFrom 0 ∧ (node.rootPlan declared options).size = node.size := by
  cases node with
  | text spec => exact ⟨rfl, rfl⟩
  | node head children =>
    obtain ⟨hnum, hsize⟩ := planAll_numbered declared options _ _ h.2
    exact ⟨⟨rfl, hnum⟩, congrArg (1 + ·) hsize⟩

/-- What the plan of a template has at a slot for the node at that position of the source. -/
inductive PlannedAt (declared : Declarations) (options : CompileOptions) (s : Slot) : TemplateNode → Plan → Prop
  | text (spec : ValueSpec) : PlannedAt declared options s (.text spec) (.text s spec)
  | expression {head : NodeHead} (htag : head.tag = "") (hspec : head.expression.isSome) :
      PlannedAt declared options s (.node head []) (.text s head.textSpec)
  | element {head : NodeHead} {children : List TemplateNode} (htag : head.tag ≠ "")
      (hleaves : AllTextsAreLeaves children) (inherited : Namespace) :
      PlannedAt declared options s (.node head children)
        (.element (head.plan declared options s (decide (s ≠ 0) || options.createRoot) inherited)
          (planAll declared options (head.namespaceIn inherited) (s + 1) children))

variable {declared : Declarations} {options : CompileOptions}

theorem PlannedAt.size_eq {s : Slot} {sub : TemplateNode} {q : Plan} (h : PlannedAt declared options s sub q) :
    q.size = sub.size := by
  cases h with
  | text spec => rfl
  | expression htag hspec => rfl
  | element htag hleaves inherited => exact congrArg (1 + ·) (planAll_numbered declared options _ _ hleaves).2

mutual

/-- The nodes of a plan below the root are those of its source in turn. -/
theorem plan_plannedAt : ∀ {inherited : Namespace} {k : Nat} {node : TemplateNode}, 0 < k → node.TextsAreLeaves →
    List.Forall₂ (fun sub q => PlannedAt declared options q.slot sub q) node.preorder
      (node.plan declared options inherited k).preorder
  | _, _, .text spec, _, _ => .cons (.text spec) .nil
  | inherited, k, .node head children, hk, hleaves => by
    unfold TemplateNode.plan
    split
    next htag =>
      obtain ⟨hspec, rfl⟩ := hleaves.1 htag
      exact .cons (.expression htag hspec) .nil
    next htag =>
      have hcreated : true = (decide (k ≠ 0) || options.createRoot) := by
        rw [decide_eq_true (Nat.ne_of_gt hk), Bool.true_or]
      have hhead : PlannedAt declared options k (.node head children) (.element (head.plan declared options k true inherited)
          (planAll declared options (head.namespaceIn inherited) (k + 1) children)) := by
        rw [hcreated]
        exact .element htag hleaves.2 inherited
      exact .cons hhead (planAll_plannedAt (Nat.succ_pos k) hleaves.2)

theorem planAll_plannedAt : ∀ {inherited : Namespace} {k : Nat} {nodes : List TemplateNode}, 0 < k →
    AllTextsAreLeaves nodes → List.Forall₂ (fun sub q => PlannedAt declared options q.slot sub q) (preorderAll nodes)
      (Plan.preorderAll (planAll declared options inherited k nodes))
  | _, _, [], _, _ => .nil
  | _, _, _ :: _, hk, hleaves =>
    List.rel_append (plan_plannedAt hk hleaves.1)
      (planAll_plannedAt (Nat.lt_of_lt_of_le hk (Nat.le_add_right _ _)) hleaves.2)

end

variable {head : NodeHead} {children : List TemplateNode}

theorem rootPlan_plannedAt (declared : Declarations) (options : CompileOptions) (htag : head.tag ≠ "")
    (hleaves : (TemplateNode.node head children).TextsAreLeaves) :
    List.Forall₂ (fun sub q => PlannedAt declared options q.slot sub q) (TemplateNode.node head children).preorder
      ((TemplateNode.node head children).rootPlan declared options).preorder :=
  .cons (.element (s := 0) htag hleaves.2 .html) (planAll_plannedAt Nat.zero_lt_one hleaves.2)

/-- The positions of a source and of its plan are the same, and the plan says at each what the source says. -/
theorem exists_planned (declared : Declarations) (options : CompileOptions) (htag : head.tag ≠ "")
    (hleaves : (TemplateNode.node head children).TextsAreLeaves) {s : Slot} {sub : TemplateNode}
    (hsub : (TemplateNode.node head children).preorder[s]? = some sub) :
    ∃ q, ((TemplateNode.node head children).rootPlan declared options).preorder[s]? = some q ∧ q.slot = s ∧
      PlannedAt declared options s sub q := by
  obtain ⟨q, hq, hsame⟩ := forall₂_getElem? (rootPlan_plannedAt declared options htag hleaves) hsub
  have hslot := Plan.slot_of_preorder (rootPlan_numbered declared options hleaves).1 hq
  rw [Nat.zero_add] at hslot
  exact ⟨q, hq, hslot, hslot ▸ hsame⟩

theorem exists_source (htag : head.tag ≠ "") (hleaves : (TemplateNode.node head children).TextsAreLeaves)
    {q : Plan} (hq : q ∈ ((TemplateNode.node head children).rootPlan declared options).preorder) :
    ∃ sub, (TemplateNode.node head children).preorder[q.slot]? = some sub ∧
      PlannedAt declared options q.slot sub q := by
  obtain ⟨s, hs⟩ := List.mem_iff_getElem?.mp hq
  obtain ⟨sub, hsub, hsame⟩ := forall₂_getElem? (rootPlan_plannedAt declared options htag hleaves).flip hs
  have hslot := Plan.slot_of_preorder (rootPlan_numbered declared options hleaves).1 hs
  rw [Nat.zero_add] at hslot
  exact ⟨sub, hslot ▸ hsub, hsame⟩

/-- All nodes but an adopted root are created, and the created ones with the right tags are nested. -/
theorem rootPlan_heads (htag : head.tag ≠ "") (hleaves : (TemplateNode.node head children).TextsAreLeaves)
    {planned : PlanHead} {plans : List Plan}
    (h : .element planned plans ∈ ((TemplateNode.node head children).rootPlan declared options).preorder) :
    planned.created = (decide (planned.slot ≠ 0) || options.createRoot) ∧
      planned.nested = (planned.created && options.nested.holds planned.tag) := by
  obtain ⟨sub, -, hplanned⟩ := exists_source htag hleaves h
  generalize hs : (Plan.element planned plans).slot = s at hplanned
  cases hplanned
  exact ⟨rfl, rfl⟩

end TemplateNode

end LiveMarkup
