import LiveMarkup.Proofs.Preorder

namespace LiveMarkup

namespace Op

/-- The slot an instruction gives a node to. -/
def bound? : Op → Option Slot
  | createElement s _ _ => some s
  | adoptRoot s => some s
  | createText s _ => some s
  | _ => none

/-- The slots an instruction names. -/
def mentions : Op → List Slot
  | appendChild parent child => [parent, child]
  | op => [op.slot]

theorem slot_mem_mentions (op : Op) : op.slot ∈ op.mentions := by
  cases op <;> simp [mentions, slot]

theorem mem_mentions_of_bound {op : Op} {s : Slot} (h : op.bound? = some s) : op.mentions = [s] := by
  cases op <;> simp_all [bound?, mentions, slot]

/-- Instructions that bind the slots from `k` to `k'` in ascending order and otherwise use only slots
that are bound. -/
inductive Sequence : Nat → List Op → Nat → Prop
  | nil {k} : Sequence k [] k
  | bind {k k' op rest} : op.bound? = some k → Sequence (k + 1) rest k' → Sequence k (op :: rest) k'
  | use {k k' op rest} : op.bound? = none → (∀ s ∈ op.mentions, s < k) → Sequence k rest k' →
      Sequence k (op :: rest) k'

theorem Sequence.append {k m n : Nat} {a b : List Op} (ha : Sequence k a m) (hb : Sequence m b n) :
    Sequence k (a ++ b) n := by
  induction ha with
  | nil => exact hb
  | bind hop _ ih => exact .bind hop (ih hb)
  | use hop hs _ ih => exact .use hop hs (ih hb)

theorem Sequence.uses {k : Nat} {ops : List Op}
    (h : ∀ op ∈ ops, op.bound? = none ∧ ∀ s ∈ op.mentions, s < k) : Sequence k ops k := by
  induction ops with
  | nil => exact .nil
  | cons op rest ih =>
    have hop := h op (List.mem_cons_self ..)
    exact .use hop.1 hop.2 (ih fun o ho => h o (List.mem_cons_of_mem _ ho))

theorem Sequence.le {k k' : Nat} {ops : List Op} (h : Sequence k ops k') : k ≤ k' := by
  induction h with
  | nil => exact Nat.le_refl _
  | bind _ _ ih => exact Nat.le_of_succ_le ih
  | use _ _ _ ih => exact ih

theorem Sequence.mentions_lt {k k' : Nat} {ops : List Op} (h : Sequence k ops k') :
    ∀ op ∈ ops, ∀ s ∈ op.mentions, s < k' := by
  induction h with
  | nil => simp
  | bind hop hrest ih =>
    intro o ho s hs
    rcases List.mem_cons.mp ho with rfl | ho
    · rw [mem_mentions_of_bound hop, List.mem_singleton] at hs
      exact hs ▸ hrest.le
    · exact ih o ho s hs
  | use _ huse hrest ih =>
    intro o ho s hs
    rcases List.mem_cons.mp ho with rfl | ho
    · exact Nat.lt_of_lt_of_le (huse s hs) hrest.le
    · exact ih o ho s hs

theorem Sequence.not_bound_below {k k' : Nat} {ops : List Op} (h : Sequence k ops k') :
    ∀ op ∈ ops, ∀ s < k, op.bound? ≠ some s := by
  induction h with
  | nil => simp
  | bind hop _ ih =>
    intro o ho s hs
    rcases List.mem_cons.mp ho with rfl | ho
    · rw [hop]
      intro heq
      exact Nat.lt_irrefl _ (Option.some.inj heq ▸ hs)
    · exact ih o ho s (Nat.lt_succ_of_lt hs)
  | use hop _ _ ih =>
    intro o ho s hs
    rcases List.mem_cons.mp ho with rfl | ho
    · simp [hop]
    · exact ih o ho s hs

/-- Every slot of a sequence is bound by one instruction and named only from there on. -/
theorem Sequence.bound_once {k k' : Nat} {ops : List Op} (h : Sequence k ops k') {s : Nat}
    (hk : k ≤ s) (hs : s < k') :
    ∃ before op after, ops = before ++ op :: after ∧ op.bound? = some s ∧
      (∀ o ∈ before, s ∉ o.mentions) ∧ ∀ o ∈ after, o.bound? ≠ some s := by
  induction h with
  | nil => exact absurd hs (Nat.not_lt.mpr hk)
  | @bind k k' op rest hop hrest ih =>
    by_cases heq : s = k
    · subst heq
      refine ⟨[], op, rest, rfl, hop, by simp, ?_⟩
      exact fun o ho => hrest.not_bound_below o ho s (Nat.lt_succ_self s)
    · obtain ⟨before, o, after, rfl, ho, hbefore, hafter⟩ :=
        ih (Nat.lt_of_le_of_ne hk (Ne.symm heq)) hs
      refine ⟨op :: before, o, after, rfl, ho, ?_, hafter⟩
      intro b hb
      rcases List.mem_cons.mp hb with rfl | hb
      · rw [mem_mentions_of_bound hop, List.mem_singleton]
        exact heq
      · exact hbefore b hb
  | @use k k' op rest hop huse hrest ih =>
    obtain ⟨before, o, after, rfl, ho, hbefore, hafter⟩ := ih hk hs
    refine ⟨op :: before, o, after, rfl, ho, ?_, hafter⟩
    intro b hb
    rcases List.mem_cons.mp hb with rfl | hb
    · exact fun hm => Nat.lt_irrefl _ (Nat.lt_of_lt_of_le (huse s hm) hk)
    · exact hbefore b hb

end Op

/-- The instructions a subplan has of its own, without those of its children. -/
def Plan.ownBuild : Plan → List Op
  | .element head _ => head.build
  | .text slot spec => [.createText slot spec.value]

def Plan.ownRefresh : Plan → List RefreshStep
  | .element head _ => head.refresh
  | .text slot spec => (RefreshStep.gated? spec.deps (.setText slot spec.value)).toList

theorem PlanHead.build_eq (h : PlanHead) :
    ∃ create rest, h.build = create :: rest ∧ create.bound? = some h.slot ∧
      ∀ op ∈ rest, op.bound? = none ∧ op.mentions = [h.slot] := by
  refine ⟨_, _, rfl, ?_, ?_⟩
  · split <;> rfl
  · intro op hop
    simp only [List.append_eq, List.mem_append, List.mem_map] at hop
    rcases hop with ((⟨_, _, rfl⟩ | ⟨⟨target, spec⟩, _, rfl⟩) | hop) | ⟨_, _, rfl⟩
    · exact ⟨rfl, rfl⟩
    · cases target <;> exact ⟨rfl, rfl⟩
    · split at hop
      · cases List.mem_singleton.mp hop
        exact ⟨rfl, rfl⟩
      · exact absurd hop (List.not_mem_nil)
    · exact ⟨rfl, rfl⟩

theorem PlanHead.appendChild_not_mem_build {h : PlanHead} {q c : Slot} : .appendChild q c ∉ h.build := by
  intro hop
  obtain ⟨create, rest, heq, hcreate, hrest⟩ := h.build_eq
  rcases List.mem_cons.mp (heq ▸ hop) with rfl | hop
  · simp [Op.bound?] at hcreate
  · simpa [Op.mentions] using (hrest _ hop).2

theorem PlanHead.build_sequence (h : PlanHead) : Op.Sequence h.slot h.build (h.slot + 1) := by
  obtain ⟨create, rest, heq, hcreate, hrest⟩ := h.build_eq
  rw [heq]
  refine .bind hcreate (.uses fun op hop => ⟨(hrest op hop).1, fun s hs => ?_⟩)
  rw [(hrest op hop).2, List.mem_singleton] at hs
  exact hs ▸ Nat.lt_succ_self _

mutual

theorem Plan.build_sequence : ∀ {k : Nat} {plan : Plan}, plan.NumberedFrom k →
    Op.Sequence k plan.build (k + plan.size)
  | k, .text slot spec, h => by
    cases h
    exact .bind rfl .nil
  | k, .element head children, h => by
    obtain ⟨rfl, hchildren⟩ := h
    have hsize : head.slot + (Plan.element head children).size =
        head.slot + 1 + Plan.sizeAll children := by rw [Plan.size, Nat.add_assoc]
    rw [hsize]
    exact head.build_sequence.append
      (Plan.buildChildren_sequence (Nat.lt_succ_self _) hchildren)

theorem Plan.buildChildren_sequence : ∀ {parent k : Nat} {plans : List Plan}, parent < k →
    Plan.AllNumberedFrom k plans →
    Op.Sequence k (Plan.buildChildren parent plans) (k + Plan.sizeAll plans)
  | parent, k, [], _, _ => .nil
  | parent, k, child :: rest, hp, h => by
    have hsize : k + Plan.sizeAll (child :: rest) = k + child.size + Plan.sizeAll rest := by
      rw [Plan.sizeAll, Nat.add_assoc]
    have hpos : k < k + child.size := Nat.lt_add_of_pos_right child.size_pos
    rw [hsize]
    refine (Plan.build_sequence h.1).append (.use rfl ?_ ?_)
    · intro s hs
      rcases List.mem_pair.mp hs with rfl | rfl
      · exact Nat.lt_trans hp hpos
      · rw [h.1.slot_eq]
        exact hpos
    · exact Plan.buildChildren_sequence (Nat.lt_trans hp hpos) h.2

end

/-- Instructions that some of the subplans have of their own, or that append one of their children. -/
def Plan.Emits (subs : List Plan) (op : Op) : Prop :=
  (∃ sub ∈ subs, op ∈ sub.ownBuild) ∨
    ∃ head children, .element head children ∈ subs ∧ ∃ child ∈ children, op = .appendChild head.slot child.slot

theorem Plan.emits_append {a b : List Plan} {op : Op} :
    Plan.Emits (a ++ b) op ↔ Plan.Emits a op ∨ Plan.Emits b op := by
  unfold Plan.Emits
  constructor
  · rintro (⟨sub, hsub, hop⟩ | ⟨head, children, hsub, hchild⟩)
    · rcases List.mem_append.mp hsub with hsub | hsub
      · exact Or.inl (Or.inl ⟨sub, hsub, hop⟩)
      · exact Or.inr (Or.inl ⟨sub, hsub, hop⟩)
    · rcases List.mem_append.mp hsub with hsub | hsub
      · exact Or.inl (Or.inr ⟨head, children, hsub, hchild⟩)
      · exact Or.inr (Or.inr ⟨head, children, hsub, hchild⟩)
  · rintro ((⟨sub, hsub, hop⟩ | ⟨head, children, hsub, hchild⟩) |
      ⟨sub, hsub, hop⟩ | ⟨head, children, hsub, hchild⟩)
    · exact Or.inl ⟨sub, List.mem_append_left _ hsub, hop⟩
    · exact Or.inr ⟨head, children, List.mem_append_left _ hsub, hchild⟩
    · exact Or.inl ⟨sub, List.mem_append_right _ hsub, hop⟩
    · exact Or.inr ⟨head, children, List.mem_append_right _ hsub, hchild⟩

theorem Plan.emits_element {head : PlanHead} {children : List Plan} {op : Op} :
    Plan.Emits [.element head children] op ↔
      op ∈ head.build ∨ ∃ child ∈ children, op = .appendChild head.slot child.slot := by
  unfold Plan.Emits
  constructor
  · rintro (⟨sub, hsub, hop⟩ | ⟨head', children', hsub, hchild⟩)
    · cases List.mem_singleton.mp hsub
      exact Or.inl hop
    · obtain ⟨rfl, rfl⟩ := Plan.element.inj (List.mem_singleton.mp hsub)
      exact Or.inr hchild
  · rintro (hop | hchild)
    · exact Or.inl ⟨_, List.mem_singleton_self _, hop⟩
    · exact Or.inr ⟨head, children, List.mem_singleton_self _, hchild⟩

mutual

/-- The instructions of a plan are those of its subplans and the appending of their children. -/
theorem Plan.mem_build {op : Op} : ∀ {plan : Plan}, op ∈ plan.build ↔ Plan.Emits plan.preorder op
  | .text slot spec => by
    constructor
    · intro hop
      exact Or.inl ⟨_, List.mem_singleton_self _, hop⟩
    · rintro (⟨sub, hsub, hop⟩ | ⟨head, children, hsub, -⟩)
      · cases List.mem_singleton.mp hsub
        exact hop
      · cases List.mem_singleton.mp hsub
  | .element head children => by
    have hsplit : (Plan.element head children).preorder =
        [.element head children] ++ Plan.preorderAll children := rfl
    rw [hsplit, Plan.emits_append, Plan.emits_element, Plan.build, List.mem_append,
      Plan.mem_buildChildren, or_assoc, Or.comm (a := Plan.Emits _ _)]

theorem Plan.mem_buildChildren {op : Op} {parent : Slot} : ∀ {plans : List Plan},
    op ∈ Plan.buildChildren parent plans ↔
      Plan.Emits (Plan.preorderAll plans) op ∨ ∃ child ∈ plans, op = .appendChild parent child.slot
  | [] => by simp [Plan.buildChildren, Plan.preorderAll, Plan.Emits]
  | child :: rest => by
    rw [Plan.buildChildren, Plan.preorderAll, Plan.emits_append, List.mem_append, List.mem_cons,
      Plan.mem_build, Plan.mem_buildChildren, List.exists_mem_cons_iff]
    constructor
    · rintro (h | h | h | h)
      · exact Or.inl (Or.inl h)
      · exact Or.inr (Or.inl h)
      · exact Or.inl (Or.inr h)
      · exact Or.inr (Or.inr h)
    · rintro ((h | h) | h | h)
      · exact Or.inl h
      · exact Or.inr (Or.inr (Or.inl h))
      · exact Or.inr (Or.inl h)
      · exact Or.inr (Or.inr (Or.inr h))

end

mutual

/-- The steps of a plan are those of its subplans in pre-order. -/
theorem Plan.refresh_eq_flatMap : ∀ plan : Plan, plan.refresh = plan.preorder.flatMap Plan.ownRefresh
  | .text .. => by simp [Plan.refresh, Plan.preorder, Plan.ownRefresh]
  | .element head children => by
    simp [Plan.refresh, Plan.preorder, Plan.ownRefresh, Plan.refreshChildren_eq_flatMap children]

theorem Plan.refreshChildren_eq_flatMap : ∀ plans : List Plan,
    Plan.refreshChildren plans = (Plan.preorderAll plans).flatMap Plan.ownRefresh
  | [] => rfl
  | child :: rest => by
    simp [Plan.refreshChildren, Plan.preorderAll, Plan.refresh_eq_flatMap child,
      Plan.refreshChildren_eq_flatMap rest]

end

end LiveMarkup
