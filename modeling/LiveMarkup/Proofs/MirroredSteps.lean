import LiveMarkup.Proofs.FlushOrder
import LiveMarkup.Proofs.InterpolatedText
import LiveMarkup.Proofs.PlannedWrites

namespace LiveMarkup

variable {s : Slot} {declared : Declarations} {options : CompileOptions} {op : Op} {sub : TemplateNode} {q : Plan}
  {ops : List Op}

namespace TemplateNode

/-- The specs that a node shows itself: those of its attributes, or that of its text. -/
def ownSpecs : TemplateNode → List ValueSpec
  | .text spec => [spec]
  | .node head _ => if head.tag = "" then [head.textSpec] else head.attributes.map (·.2)

/-- The specs of a template in the order of its source, each with the position of its node. -/
def placedSpecs (node : TemplateNode) : List (Slot × ValueSpec) :=
  node.preorder.zipIdx.flatMap fun placed => placed.1.ownSpecs.map (placed.2, ·)

theorem mem_placedSpecs {node : TemplateNode} {spec : ValueSpec} :
    (s, spec) ∈ node.placedSpecs ↔ ∃ sub, node.preorder[s]? = some sub ∧ spec ∈ sub.ownSpecs := by
  rw [placedSpecs, List.mem_flatMap]
  constructor
  · rintro ⟨⟨sub, j⟩, hplaced, hspec⟩
    obtain ⟨_, hin, heq⟩ := List.mem_map.mp hspec
    cases heq
    exact ⟨sub, List.mem_zipIdx_iff_getElem?.mp hplaced, hin⟩
  · rintro ⟨sub, hsub, hin⟩
    exact ⟨(sub, s), List.mem_zipIdx_iff_getElem?.mpr hsub, List.mem_map_of_mem hin⟩

theorem PlannedAt.specs (h : PlannedAt declared options s sub q) : q.places.map (·.2) = sub.ownSpecs := by
  cases h with
  | text spec => rfl
  | expression htag hspec => rw [ownSpecs, if_pos htag]; rfl
  | element htag =>
    rw [ownSpecs, if_neg htag, Plan.places, NodeHead.plan, List.map_map, List.map_map]
    rfl

end TemplateNode

namespace Plan

/-- The specs of a plan in the order of its nodes. -/
def shownSpecs (plan : Plan) : List ValueSpec :=
  plan.preorder.flatMap fun q => q.places.map (·.2)

theorem map_placedSpecs {α : Type u} {head : NodeHead} {children : List TemplateNode} (htag : head.tag ≠ "")
    (hleaves : (TemplateNode.node head children).TextsAreLeaves) (f : Slot → ValueSpec → α) :
    (TemplateNode.node head children).placedSpecs.map (fun placed => f placed.1 placed.2) =
      ((TemplateNode.node head children).rootPlan declared options).preorder.flatMap fun q =>
        q.places.map fun place => f q.slot place.2 := by
  rw [TemplateNode.placedSpecs, List.map_flatMap, List.flatMap_def, List.flatMap_def]
  refine congrArg List.flatten (List.ext_getElem? fun j => ?_)
  rw [List.getElem?_map, List.getElem?_map, List.getElem?_zipIdx, Nat.zero_add]
  cases hsub : (TemplateNode.node head children).preorder[j]? with
  | none =>
    have hnone : ((TemplateNode.node head children).rootPlan declared options).preorder[j]? = none := by
      rw [List.getElem?_eq_none_iff, ← (TemplateNode.rootPlan_plannedAt declared options htag hleaves).length_eq]
      exact List.getElem?_eq_none_iff.mp hsub
    rw [hnone]
    rfl
  | some sub =>
    obtain ⟨q, hq, hslot, hat⟩ := TemplateNode.exists_planned declared options htag hleaves hsub
    rw [hq, Option.map_some, Option.map_some, Option.map_some, ← hat.specs, hslot, List.map_map, List.map_map]
    rfl

end Plan

namespace Op

/-- The slot that an instruction shows a value at, with the value. -/
def shown? : Op → Option (Slot × Computation)
  | .setProperty s _ value => some (s, value)
  | .setAttribute s _ value => some (s, value)
  | .createText s value => some (s, value)
  | _ => none

/-- Hands out specs in turn to the instructions that show values. -/
def withSpecs : List Op → List ValueSpec → List (Op × Option ValueSpec)
  | [], _ => []
  | op :: ops, specs =>
    if op.shown?.isSome then (op, specs.head?) :: withSpecs ops specs.tail else (op, none) :: withSpecs ops specs

/-- The instruction that shows a value once the node is there. -/
def again : Op → Op
  | .createText s value => .setText s value
  | op => op

@[simp] theorem mentions_again (op : Op) : op.again.mentions = op.mentions := by
  cases op <;> rfl

@[simp] theorem touched?_again (op : Op) : op.again.touched? = op.touched? := by
  cases op <;> rfl

theorem again_eq_flushNested (h : op.again = .flushNested s) : op = .flushNested s := by
  cases op with
  | createText s' value => cases h
  | _ => exact h

end Op

namespace RefreshStep

/-- The step that an instruction of a build gives, with the spec of the value that it shows: a flush is always done,
and a value is shown again when one of its dependencies changes, if it has any. -/
def mirror? : Op × Option ValueSpec → Option RefreshStep
  | (op, some spec) => if spec.deps = [] then none else some ⟨spec.deps.eraseDups, op.again, false⟩
  | (.flushNested s, none) => some (.unconditional (.flushNested s))
  | _ => none

/-- The steps that instructions give in turn. -/
def mirrored (ops : List Op) (specs : List ValueSpec) : List RefreshStep :=
  (Op.withSpecs ops specs).filterMap mirror?

theorem mirror?_spec (op : Op) (spec : ValueSpec) : mirror? (op, some spec) = gated? spec.deps op.again := by
  rw [mirror?, gated?, firstOccurrences_eq_eraseDups]
  simp only [List.isEmpty_iff]

theorem op_of_mirror? {source : Option ValueSpec} {step : RefreshStep} (h : mirror? (op, source) = some step) :
    step.op = op.again := by
  cases source with
  | some spec =>
    rw [mirror?_spec] at h
    exact op_of_gated? h
  | none =>
    cases op <;> cases h
    rfl

theorem mirrored_cons (op : Op) (ops : List Op) (specs : List ValueSpec) :
    mirrored (op :: ops) specs = (mirror? (op, if op.shown?.isSome then specs.head? else none)).toList ++
      mirrored ops (if op.shown?.isSome then specs.tail else specs) := by
  rw [mirrored, Op.withSpecs]
  by_cases hop : op.shown?.isSome
  · rw [if_pos hop, if_pos hop, if_pos hop, List.filterMap_cons]
    cases mirror? (op, specs.head?) <;> rfl
  · rw [if_neg hop, if_neg hop, if_neg hop, List.filterMap_cons]
    cases mirror? (op, none) <;> rfl

theorem mirrored_cons_shown (hop : op.shown?.isSome) (ops : List Op) (spec : ValueSpec) (specs : List ValueSpec) :
    mirrored (op :: ops) (spec :: specs) = (gated? spec.deps op.again).toList ++ mirrored ops specs := by
  rw [mirrored_cons, if_pos hop, if_pos hop, List.head?_cons, mirror?_spec, List.tail_cons]

/-- Instructions that neither show a value nor flush give no steps. -/
theorem mirrored_quiet {quiet : List Op} (h : ∀ op ∈ quiet, op.shown? = none ∧ ∀ s, op ≠ .flushNested s)
    (ops : List Op) (specs : List ValueSpec) : mirrored (quiet ++ ops) specs = mirrored ops specs := by
  induction quiet with
  | nil => rfl
  | cons op rest ih =>
    obtain ⟨hop, hflush⟩ := h op List.mem_cons_self
    have hnone : mirror? (op, none) = none := by
      cases op with
      | flushNested s => exact absurd rfl (hflush s)
      | _ => rfl
    rw [List.cons_append, mirrored_cons, hop, Option.isSome_none, if_neg Bool.false_ne_true, if_neg Bool.false_ne_true,
      hnone, Option.toList_none, List.nil_append]
    exact ih fun op hop => h op (List.mem_cons_of_mem _ hop)

theorem mirrored_flush (s : Slot) (ops : List Op) (specs : List ValueSpec) :
    mirrored (.flushNested s :: ops) specs = .unconditional (.flushNested s) :: mirrored ops specs := rfl

theorem mirrored_append (before after : List Op) (specs : List ValueSpec) :
    ∃ rest, mirrored (before ++ after) specs = mirrored before specs ++ mirrored after rest := by
  induction before generalizing specs with
  | nil => exact ⟨specs, rfl⟩
  | cons op before ih =>
    obtain ⟨rest, hrest⟩ := ih (if op.shown?.isSome then specs.tail else specs)
    refine ⟨rest, ?_⟩
    rw [List.cons_append, mirrored_cons, hrest, mirrored_cons op before, List.append_assoc]

/-- Every step comes from an instruction, which it repeats. -/
theorem mem_mirrored {specs : List ValueSpec} {step : RefreshStep} (h : step ∈ mirrored ops specs) :
    ∃ op ∈ ops, step.op = op.again := by
  have hmem : ∀ (ops : List Op) (specs : List ValueSpec), ∀ source ∈ Op.withSpecs ops specs, source.1 ∈ ops := by
    intro ops
    induction ops with
    | nil => exact fun _ _ h => absurd h List.not_mem_nil
    | cons op rest ih =>
      intro specs source hsource
      rw [Op.withSpecs] at hsource
      split at hsource <;> rcases List.mem_cons.mp hsource with rfl | hsource
      · exact List.mem_cons_self
      · exact List.mem_cons_of_mem _ (ih _ _ hsource)
      · exact List.mem_cons_self
      · exact List.mem_cons_of_mem _ (ih _ _ hsource)
  obtain ⟨⟨op, source⟩, hsource, hstep⟩ := List.mem_filterMap.mp h
  exact ⟨op, hmem _ _ _ hsource, op_of_mirror? hstep⟩

end RefreshStep

/-- The attributes of an element give steps in the order in which they are written. -/
theorem PlanHead.mirrored_attributes (attributes : List (Target × ValueSpec)) (slot : Slot) (ops : List Op)
    (specs : List ValueSpec) :
    RefreshStep.mirrored (attributes.map (fun a => a.1.op slot a.2.value) ++ ops) (attributes.map (·.2) ++ specs) =
      attributes.filterMap (fun a => RefreshStep.gated? a.2.deps (a.1.op slot a.2.value)) ++
        RefreshStep.mirrored ops specs := by
  induction attributes with
  | nil => rfl
  | cons a rest ih =>
    have hshown : (a.1.op slot a.2.value).shown?.isSome := by cases a.1 <;> rfl
    have hagain : (a.1.op slot a.2.value).again = a.1.op slot a.2.value := by cases a.1 <;> rfl
    rw [List.map_cons, List.map_cons, List.cons_append, List.cons_append, RefreshStep.mirrored_cons_shown hshown, ih,
      hagain, List.filterMap_cons]
    cases RefreshStep.gated? a.2.deps (a.1.op slot a.2.value) <;> rfl

theorem PlanHead.mirrored_build (head : PlanHead) (ops : List Op) (specs : List ValueSpec) :
    RefreshStep.mirrored (head.build ++ ops) (head.attributes.map (·.2) ++ specs) =
      head.refresh ++ RefreshStep.mirrored ops specs := by
  have hbefore : ∀ op ∈ (if head.created then Op.createElement head.slot head.tag head.ns else .adoptRoot head.slot) ::
      head.attachPoints.map (Op.attach head.slot), op.shown? = none ∧ ∀ s, op ≠ .flushNested s := by
    intro op hop
    rcases List.mem_cons.mp hop with rfl | hop
    · split <;> exact ⟨rfl, fun s heq => by cases heq⟩
    · obtain ⟨name, -, rfl⟩ := List.mem_map.mp hop
      exact ⟨rfl, fun s heq => by cases heq⟩
  have hafter : ∀ op ∈ head.events.map (fun e => Op.connect head.slot e.1 e.2),
      op.shown? = none ∧ ∀ s, op ≠ .flushNested s := by
    intro op hop
    obtain ⟨e, -, rfl⟩ := List.mem_map.mp hop
    exact ⟨rfl, fun s heq => by cases heq⟩
  rw [build, refresh, List.append_assoc, List.append_assoc, List.append_assoc, RefreshStep.mirrored_quiet hbefore,
    mirrored_attributes]
  cases head.nested with
  | true =>
    rw [if_pos rfl, if_pos rfl, List.singleton_append, RefreshStep.mirrored_flush, RefreshStep.mirrored_quiet hafter,
      List.append_assoc, List.singleton_append]
  | false =>
    rw [if_neg Bool.false_ne_true, if_neg Bool.false_ne_true, List.nil_append, RefreshStep.mirrored_quiet hafter,
      List.append_nil]

namespace Plan

theorem places_specs (head : PlanHead) (children : List Plan) :
    (Plan.element head children).places.map (·.2) = head.attributes.map (·.2) := by
  rw [places, List.map_map]
  rfl

mutual

/-- The steps of a plan are given by its instructions, whatever instructions come after them. -/
theorem mirrored_build (ops : List Op) (specs : List ValueSpec) : ∀ plan : Plan,
    RefreshStep.mirrored (plan.build ++ ops) (plan.shownSpecs ++ specs) = plan.refresh ++ RefreshStep.mirrored ops specs
  | .text slot spec => RefreshStep.mirrored_cons_shown rfl ops spec specs
  | .element head children => by
    have hspecs : (Plan.element head children).shownSpecs = head.attributes.map (·.2) ++
        (preorderAll children).flatMap fun q => q.places.map (·.2) := by
      rw [shownSpecs, preorder, List.flatMap_cons, places_specs]
    rw [hspecs, build, refresh, List.append_assoc, List.append_assoc, head.mirrored_build,
      mirrored_buildChildren head.slot ops specs children, List.append_assoc]

theorem mirrored_buildChildren (parent : Slot) (ops : List Op) (specs : List ValueSpec) : ∀ plans : List Plan,
    RefreshStep.mirrored (buildChildren parent plans ++ ops)
      (((preorderAll plans).flatMap fun q => q.places.map (·.2)) ++ specs) =
        refreshChildren plans ++ RefreshStep.mirrored ops specs
  | [] => rfl
  | child :: rest => by
    have happend : ∀ op ∈ [Op.appendChild parent child.slot], op.shown? = none ∧ ∀ s, op ≠ .flushNested s := by
      intro op hop
      rw [List.mem_singleton.mp hop]
      exact ⟨rfl, fun s heq => by cases heq⟩
    have hfirst := mirrored_build (.appendChild parent child.slot :: buildChildren parent rest ++ ops)
      (((preorderAll rest).flatMap fun q => q.places.map (·.2)) ++ specs) child
    have hnext := RefreshStep.mirrored_quiet happend (buildChildren parent rest ++ ops)
      (((preorderAll rest).flatMap fun q => q.places.map (·.2)) ++ specs)
    rw [buildChildren, preorderAll, List.flatMap_append, refreshChildren, List.append_assoc, List.append_assoc,
      List.append_assoc, ← mirrored_buildChildren parent ops specs rest, ← hnext]
    exact hfirst

end

/-- The values that a build shows are those of the specs, in their order. -/
theorem shown_build (plan : Plan) : plan.build.filterMap Op.shown? =
    plan.preorder.flatMap fun q => q.places.map fun place => (q.slot, place.2.value) := by
  have hquiet : ∀ {ops : List Op}, (∀ op ∈ ops, op.shown? = none) → ops.filterMap Op.shown? = [] :=
    fun h => List.filterMap_eq_nil_iff.mpr h
  rw [build_filterMap fun _ _ => rfl]
  refine List.flatMap_congr fun q _ => ?_
  cases q with
  | text slot spec => rfl
  | element head children =>
    have hcreate : (if head.created then Op.createElement head.slot head.tag head.ns else .adoptRoot head.slot).shown? =
        none := by split <;> rfl
    have hattach : (head.attachPoints.map (Op.attach head.slot)).filterMap Op.shown? = [] := by
      refine hquiet fun op hop => ?_
      obtain ⟨name, -, rfl⟩ := List.mem_map.mp hop
      rfl
    have hflush : (if head.nested then [Op.flushNested head.slot] else []).filterMap Op.shown? = [] := by
      split <;> rfl
    have hevents : (head.events.map fun e => Op.connect head.slot e.1 e.2).filterMap Op.shown? = [] := by
      refine hquiet fun op hop => ?_
      obtain ⟨e, -, rfl⟩ := List.mem_map.mp hop
      rfl
    have hattributes : (head.attributes.map fun a => a.1.op head.slot a.2.value).filterMap Op.shown? =
        head.attributes.map fun a => (head.slot, a.2.value) := by
      rw [List.filterMap_map, ← List.filterMap_eq_map]
      refine List.filterMap_congr fun a _ => ?_
      rcases a with ⟨target, spec⟩
      cases target <;> rfl
    rw [ownBuild, PlanHead.build, List.cons_append, List.cons_append, List.cons_append, List.filterMap_cons, hcreate,
      List.filterMap_append, List.filterMap_append, List.filterMap_append, hattach, hattributes, hflush, hevents,
      List.append_nil, List.append_nil, List.nil_append, places, List.map_map]
    rfl

end Plan

namespace Op

/-- Where the later instruction is a flush, the earlier one is not the same flush and names no slot after the flushed
one. -/
def FlushOrdered (earlier later : Op) : Prop :=
  ∀ s, later = .flushNested s → earlier ≠ .flushNested s ∧ ∀ d ∈ earlier.mentions, d ≤ s

theorem flushOrdered_of_not_flush (earlier : Op) {later : Op} (h : ∀ s, later ≠ .flushNested s) :
    earlier.FlushOrdered later :=
  fun s heq => absurd heq (h s)

theorem flushOrdered_of_lt {earlier later : Op} (h : ∀ s, later = .flushNested s → ∀ d ∈ earlier.mentions, d < s) :
    earlier.FlushOrdered later := by
  intro s heq
  refine ⟨?_, fun d hd => Nat.le_of_lt (h s heq d hd)⟩
  rintro rfl
  exact Nat.lt_irrefl s (h s heq s (List.mem_singleton_self s))

/-- The slot is flushed once. All writes to its node come before that, and all instructions for later slots, which are
those of the nodes below it and after it, come afterwards. -/
def FlushedOnce (s : Slot) (ops : List Op) : Prop :=
  ∃ before after, ops = before ++ .flushNested s :: after ∧ (∀ op ∈ before ++ after, op ≠ .flushNested s) ∧
    (∀ op ∈ after, op.touched? ≠ some s) ∧ ∀ op ∈ before, ∀ d ∈ op.mentions, d ≤ s

theorem flushedOnce_of_mem (hmem : .flushNested s ∈ ops) (horder : ops.Pairwise FlushOrdered)
    (hleaves : ops.Pairwise LeavesFlushed) : FlushedOnce s ops := by
  obtain ⟨before, after, rfl⟩ := List.append_of_mem hmem
  obtain ⟨-, hlater, hcross⟩ := List.pairwise_append.mp horder
  have hbefore : ∀ op ∈ before, op ≠ .flushNested s ∧ ∀ d ∈ op.mentions, d ≤ s :=
    fun op hop => hcross op hop _ List.mem_cons_self s rfl
  refine ⟨before, after, rfl, fun op hop => ?_, fun op hop => ?_, fun op hop => (hbefore op hop).2⟩
  · rcases List.mem_append.mp hop with hop | hop
    · exact (hbefore op hop).1
    · intro heq
      exact ((List.pairwise_cons.mp hlater).1 op hop s heq).1 rfl
  · exact (List.pairwise_cons.mp (List.pairwise_append.mp hleaves).2.1).1 op hop s rfl

/-- The steps that instructions give keep the order around a flush. -/
theorem FlushedOnce.mirrored (h : FlushedOnce s ops) (specs : List ValueSpec) :
    FlushedOnce s ((RefreshStep.mirrored ops specs).map (·.op)) := by
  obtain ⟨before, after, rfl, honce, hafter, hbefore⟩ := h
  obtain ⟨rest, hsplit⟩ := RefreshStep.mirrored_append before (.flushNested s :: after) specs
  have hsource : ∀ (ops : List Op) (specs : List ValueSpec), ∀ op ∈ (RefreshStep.mirrored ops specs).map (·.op),
      ∃ source ∈ ops, op = source.again := by
    intro ops specs op hop
    obtain ⟨step, hstep, rfl⟩ := List.mem_map.mp hop
    exact RefreshStep.mem_mirrored hstep
  refine ⟨(RefreshStep.mirrored before specs).map (·.op), (RefreshStep.mirrored after rest).map (·.op), ?_, ?_, ?_, ?_⟩
  · rw [hsplit, RefreshStep.mirrored_flush, List.map_append, List.map_cons]
    rfl
  · intro op hop heq
    obtain ⟨source, hsource, rfl⟩ : ∃ source ∈ before ++ after, op = source.again := by
      rcases List.mem_append.mp hop with hop | hop
      · obtain ⟨source, hin, heq⟩ := hsource _ _ op hop
        exact ⟨source, List.mem_append_left _ hin, heq⟩
      · obtain ⟨source, hin, heq⟩ := hsource _ _ op hop
        exact ⟨source, List.mem_append_right _ hin, heq⟩
    exact honce source hsource (again_eq_flushNested heq)
  · intro op hop
    obtain ⟨source, hin, rfl⟩ := hsource _ _ op hop
    rw [touched?_again]
    exact hafter source hin
  · intro op hop
    obtain ⟨source, hin, rfl⟩ := hsource _ _ op hop
    rw [mentions_again]
    exact hbefore source hin

end Op

theorem PlanHead.mentions_of_mem_build {head : PlanHead} (hop : op ∈ head.build) : op.mentions = [head.slot] := by
  obtain ⟨create, rest, heq, hcreate, hrest⟩ := head.build_eq
  rcases List.mem_cons.mp (heq ▸ hop) with rfl | hop
  · exact Op.mem_mentions_of_bound hcreate
  · exact (hrest op hop).2

theorem PlanHead.build_flushOrdered (head : PlanHead) : head.build.Pairwise Op.FlushOrdered := by
  have hbefore : ∀ op ∈ (if head.created then Op.createElement head.slot head.tag head.ns else .adoptRoot head.slot) ::
      head.attachPoints.map (Op.attach head.slot) ++ head.attributes.map (fun a => a.1.op head.slot a.2.value),
      ∀ s, op ≠ .flushNested s := by
    intro op hop s
    rw [List.cons_append, List.mem_cons, List.mem_append, List.mem_map, List.mem_map] at hop
    rcases hop with rfl | ⟨_, -, rfl⟩ | ⟨⟨target, spec⟩, -, rfl⟩
    · split <;> exact fun heq => by cases heq
    · exact fun heq => by cases heq
    · cases target <;> exact fun heq => by cases heq
  have hafter : ∀ op ∈ head.events.map (fun e => Op.connect head.slot e.1 e.2), ∀ s, op ≠ .flushNested s := by
    intro op hop s
    obtain ⟨e, -, rfl⟩ := List.mem_map.mp hop
    exact fun heq => by cases heq
  have hquiet : ∀ {ops : List Op}, (∀ op ∈ ops, ∀ s, op ≠ .flushNested s) → ops.Pairwise Op.FlushOrdered :=
    fun h => List.Pairwise.imp_of_mem (fun _ hb _ => Op.flushOrdered_of_not_flush _ (h _ hb))
      (List.pairwise_of_forall fun _ _ => trivial)
  have hmentions : ∀ op ∈ head.build, op.mentions = [head.slot] := fun op hop => mentions_of_mem_build hop
  rw [build] at hmentions ⊢
  refine List.pairwise_append.mpr ⟨List.pairwise_append.mpr ⟨hquiet hbefore, ?_, ?_⟩, hquiet hafter, ?_⟩
  · split
    · exact List.pairwise_singleton _ _
    · exact .nil
  · intro a ha b hb s heq
    refine ⟨hbefore a ha s, fun d hd => ?_⟩
    rw [hmentions a (List.mem_append_left _ (List.mem_append_left _ ha)), List.mem_singleton] at hd
    have hflush : b.mentions = [head.slot] := hmentions b (List.mem_append_left _ (List.mem_append_right _ hb))
    rw [heq] at hflush
    rw [hd, ← List.singleton_inj.mp hflush]
    exact Nat.le_refl s
  · exact fun a _ b hb => Op.flushOrdered_of_not_flush a (hafter b hb)

theorem Plan.le_of_flush {k : Nat} {plans : List Plan} (h : Plan.AllNumberedFrom k plans) {parent : Slot}
    (hop : .flushNested s ∈ Plan.buildChildren parent plans) : k ≤ s := by
  rcases Plan.mem_buildChildren.mp hop with hop | ⟨child, -, heq⟩
  · rcases hop.slot with ⟨sub, hsub, hslot⟩ | ⟨_, _, heq⟩
    · exact Nat.le_trans (Plan.slot_bounds_all h hsub).1 (Nat.le_of_eq hslot.symm)
    · cases heq
  · cases heq

mutual

theorem Plan.build_flushOrdered : ∀ {k : Nat} {plan : Plan}, plan.NumberedFrom k → plan.build.Pairwise Op.FlushOrdered
  | _, .text _ _, _ => List.pairwise_singleton _ _
  | k, .element head children, h => by
    refine List.pairwise_append.mpr ⟨head.build_flushOrdered, Plan.buildChildren_flushOrdered ?_ h.2,
      fun a ha b hb => Op.flushOrdered_of_lt fun s heq d hd => ?_⟩
    · rw [h.1]
      exact Nat.lt_succ_self k
    · rw [PlanHead.mentions_of_mem_build ha, List.mem_singleton] at hd
      rw [hd, h.1]
      exact Plan.le_of_flush h.2 (heq ▸ hb)

theorem Plan.buildChildren_flushOrdered : ∀ {parent k : Nat} {plans : List Plan}, parent < k →
    Plan.AllNumberedFrom k plans → (Plan.buildChildren parent plans).Pairwise Op.FlushOrdered
  | _, _, [], _, _ => .nil
  | parent, k, child :: rest, hparent, h => by
    have hpos := child.size_pos
    have hmentions := (Plan.build_sequence h.1).mentions_lt
    have hslot : child.slot = k := h.1.slot_eq
    have hafter : ∀ a : Op, (∀ d ∈ a.mentions, d < k + child.size) → ∀ b ∈ Plan.buildChildren parent rest,
        a.FlushOrdered b := by
      intro a ha b hb
      refine Op.flushOrdered_of_lt fun s heq d hd => ?_
      exact Nat.lt_of_lt_of_le (ha d hd) (Plan.le_of_flush h.2 (heq ▸ hb))
    have happend : ∀ d ∈ (Op.appendChild parent child.slot).mentions, d < k + child.size := by
      intro d hd
      rcases List.mem_pair.mp hd with rfl | rfl
      · exact Nat.lt_trans hparent (Nat.lt_add_of_pos_right hpos)
      · rw [hslot]
        exact Nat.lt_add_of_pos_right hpos
    refine List.pairwise_append.mpr ⟨Plan.build_flushOrdered h.1, List.pairwise_cons.mpr ⟨hafter _ happend, ?_⟩, ?_⟩
    · exact Plan.buildChildren_flushOrdered (Nat.lt_of_lt_of_le hparent (Nat.le_add_right k _)) h.2
    · intro a ha b hb
      rcases List.mem_cons.mp hb with rfl | hb
      · exact Op.flushOrdered_of_not_flush a fun s heq => by cases heq
      · exact hafter a (hmentions a ha) b hb

end

/-- An element that a template creates itself and that counts as a nested component. -/
def TemplateNode.IsNested (options : CompileOptions) (s : Slot) : TemplateNode → Prop
  | .text _ => False
  | .node head _ => head.tag ≠ "" ∧ (s ≠ 0 ∨ options.createRoot = true) ∧ options.nested.holds head.tag = true

namespace TemplateNode.PlannedAt

theorem flushes (h : PlannedAt declared options s sub q) : .flushNested s ∈ q.ownBuild ↔ sub.IsNested options s := by
  cases h with
  | text spec =>
    refine ⟨fun hop => ?_, False.elim⟩
    cases List.mem_singleton.mp hop
  | expression htag hspec =>
    refine ⟨fun hop => ?_, fun hnested => absurd htag hnested.1⟩
    cases List.mem_singleton.mp hop
  | element htag =>
    rw [Plan.ownBuild, PlanHead.flushNested_mem_build]
    simp only [NodeHead.plan, IsNested, Bool.and_eq_true, Bool.or_eq_true, decide_eq_true_eq, and_true]
    exact ⟨fun hnested => ⟨htag, hnested⟩, fun hnested => hnested.2⟩

theorem ownRefresh_eq_nil (h : PlannedAt declared options s sub q) :
    q.ownRefresh = [] ↔ (∀ spec ∈ sub.ownSpecs, spec.deps = []) ∧ ¬sub.IsNested options s := by
  have hgated : ∀ (deps : List String) (op : Op), RefreshStep.gated? deps op = none ↔ deps = [] := by
    intro deps op
    rw [RefreshStep.gated?, ite_eq_left_iff, List.isEmpty_iff]
    refine ⟨fun hnone => by_contra fun hne => ?_, fun hnil hne => absurd hnil hne⟩
    cases hnone hne
  have htext : ∀ spec : ValueSpec, (Plan.text s spec).ownRefresh = [] ↔ ∀ spec' ∈ [spec], spec'.deps = [] := by
    intro spec
    rw [Plan.ownRefresh, Option.toList_eq_nil_iff, hgated]
    simp only [List.mem_singleton, forall_eq]
  cases h with
  | text spec => exact (htext spec).trans (and_iff_left id).symm
  | @expression head htag hspec =>
    rw [ownSpecs, if_pos htag]
    exact (htext head.textSpec).trans (and_iff_left fun hnested => hnested.1 htag).symm
  | element htag =>
    rw [ownSpecs, if_neg htag, Plan.ownRefresh, PlanHead.refresh, List.append_eq_nil_iff, List.filterMap_eq_nil_iff]
    refine and_congr ?_ ?_
    · simp only [NodeHead.plan, hgated, List.mem_map, forall_exists_index, and_imp, forall_apply_eq_imp_iff₂]
    · simp only [NodeHead.plan, IsNested, ite_eq_right_iff, List.cons_ne_nil, imp_false, Bool.and_eq_true, Bool.or_eq_true,
        decide_eq_true_eq]
      exact not_congr ⟨fun hnested => ⟨htag, hnested⟩, fun hnested => hnested.2⟩

end TemplateNode.PlannedAt

/-- The steps of a refresh are given by the instructions of the build in their order: a flush is done in every refresh,
a value with dependencies is shown again when one of them changes, and nothing else is repeated. So a nested component
is flushed once in a build and in a refresh, between its own attributes and what comes below it, and a template has no
steps just when it has neither dependencies nor nested components. -/
theorem refresh_mirrors_build {declared : Declarations} {maps maps' : PropertyMaps} {options : CompileOptions}
    {node : TemplateNode} {t : Template} (h : compileWith declared maps options node = (.ok t, maps')) :
    t.build.filterMap Op.shown? = node.placedSpecs.map (fun placed => (placed.1, placed.2.value)) ∧
    t.refresh = RefreshStep.mirrored t.build (node.placedSpecs.map fun placed => placed.2) ∧
    (∀ (s : Slot) (sub : TemplateNode), node.preorder[s]? = some sub → sub.IsNested options s →
      Op.FlushedOnce s t.build ∧ Op.FlushedOnce s (t.refresh.map (·.op))) ∧
    (t.refresh = [] ↔ (∀ placed ∈ node.placedSpecs, placed.2.deps = []) ∧
      ∀ (s : Slot) (sub : TemplateNode), node.preorder[s]? = some sub → ¬sub.IsNested options s) := by
  obtain ⟨head, children, rfl, htag, hleaves, rfl⟩ := compileWith_ok h
  have hnum := (TemplateNode.rootPlan_numbered declared options hleaves).1
  have hrefresh : ((TemplateNode.node head children).rootPlan declared options).refresh =
      RefreshStep.mirrored ((TemplateNode.node head children).rootPlan declared options).build
        ((TemplateNode.node head children).placedSpecs.map fun placed => placed.2) := by
    have hmirrored := Plan.mirrored_build [] [] ((TemplateNode.node head children).rootPlan declared options)
    rw [List.append_nil, List.append_nil] at hmirrored
    rw [Plan.map_placedSpecs htag hleaves fun _ spec => spec]
    exact (hmirrored.trans (List.append_nil _)).symm
  refine ⟨?_, hrefresh, fun s sub hsub hnested => ?_, ?_⟩
  · rw [Plan.map_placedSpecs htag hleaves fun s spec => (s, spec.value)]
    exact Plan.shown_build _
  · obtain ⟨q, hq, -, hsame⟩ := TemplateNode.exists_planned declared options htag hleaves hsub
    have hmem : .flushNested s ∈ ((TemplateNode.node head children).rootPlan declared options).build :=
      Plan.mem_build.mpr (Or.inl ⟨q, List.mem_of_getElem? hq, hsame.flushes.mpr hnested⟩)
    have honce := Op.flushedOnce_of_mem hmem (Plan.build_flushOrdered hnum) (Plan.build_leavesFlushed hnum)
    refine ⟨honce, ?_⟩
    have hsteps := honce.mirrored ((TemplateNode.node head children).placedSpecs.map fun placed => placed.2)
    rw [← hrefresh] at hsteps
    exact hsteps
  · change Plan.refresh _ = [] ↔ _
    rw [Plan.refresh_eq_flatMap, List.flatMap_eq_nil_iff]
    constructor
    · intro hquiet
      have hown : ∀ (s : Slot) (sub : TemplateNode), (TemplateNode.node head children).preorder[s]? = some sub →
          (∀ spec ∈ sub.ownSpecs, spec.deps = []) ∧ ¬sub.IsNested options s := by
        intro s sub hsub
        obtain ⟨q, hq, -, hsame⟩ := TemplateNode.exists_planned declared options htag hleaves hsub
        exact hsame.ownRefresh_eq_nil.mp (hquiet q (List.mem_of_getElem? hq))
      refine ⟨fun placed hplaced => ?_, fun s sub hsub => (hown s sub hsub).2⟩
      obtain ⟨sub, hsub, hin⟩ := TemplateNode.mem_placedSpecs.mp hplaced
      exact (hown _ sub hsub).1 _ hin
    · intro hnone q hq
      obtain ⟨sub, hsub, hsame⟩ := TemplateNode.exists_source htag hleaves hq
      refine hsame.ownRefresh_eq_nil.mpr ⟨fun spec hspec => ?_, hnone.2 _ sub hsub⟩
      exact hnone.1 (q.slot, spec) (TemplateNode.mem_placedSpecs.mpr ⟨sub, hsub, hspec⟩)

/-- The item of a card is flushed between the attributes of the card and what comes below the item. -/
theorem refresh_mirrors_build_sampleCard :
    ∃ t maps, compileWith (fun _ => none) .empty {} sampleCard = (.ok t, maps) ∧
      Op.FlushedOnce 1 t.build ∧ Op.FlushedOnce 1 (t.refresh.map (·.op)) ∧ t.refresh.length = 5 ∧
      (RefreshStep.mirrored t.build (sampleCard.placedSpecs.map fun placed => placed.2)).length = 5 := by
  obtain ⟨t, maps, h⟩ := sampleCard_compiles
  obtain ⟨-, hrefresh, hflushed, -⟩ := refresh_mirrors_build h
  have hnested : (TemplateNode.node (.ofTag "x-item") [.text (.property "item")]).IsNested {} 1 :=
    ⟨by decide, Or.inl Nat.one_ne_zero, rfl⟩
  obtain ⟨hbuild, hsteps⟩ := hflushed 1 _ rfl hnested
  have hcount : t.refresh.length = 5 := by
    obtain ⟨head, children, hnode, -, -, rfl⟩ := compileWith_ok h
    rfl
  exact ⟨t, maps, h, hbuild, hsteps, hcount, hrefresh ▸ hcount⟩

end LiveMarkup
