import LiveMarkup.Proofs.TargetWrites
import LiveMarkup.Proofs.TemplateSpecs

namespace LiveMarkup

variable {head : PlanHead} {plan : Plan} {k : Nat} {t : Target} {children : List Plan} {p : Page} {c : ComponentId}
  {op : Op}

namespace Plan

/-- What the nodes of a plan give in turn, where only one of them gives anything. -/
theorem flatMap_preorder {α : Type u} {sub : Plan} (hnum : plan.NumberedFrom k) (hsub : sub ∈ plan.preorder)
    {f : Plan → List α} (hf : ∀ sub' ∈ plan.preorder, sub'.slot ≠ sub.slot → f sub' = []) :
    plan.preorder.flatMap f = f sub := by
  obtain ⟨before, after, heq⟩ := List.append_of_mem hsub
  have hslot : sub.slot = k + before.length := by
    refine slot_of_preorder hnum ?_
    rw [heq, List.getElem?_append_right (Nat.le_refl _), Nat.sub_self, List.getElem?_cons_zero]
  have hbefore : before.flatMap f = [] := by
    refine List.flatMap_eq_nil_iff.mpr fun sub' hsub' => hf sub' (heq ▸ List.mem_append_left _ hsub') ?_
    obtain ⟨j, hj, hget⟩ := List.mem_iff_getElem.mp hsub'
    have hslot' : sub'.slot = k + j := by
      refine slot_of_preorder hnum ?_
      rw [heq, List.getElem?_append_left hj, List.getElem?_eq_getElem hj, hget]
    rw [hslot, hslot']
    exact Nat.ne_of_lt (by omega)
  have hafter : after.flatMap f = [] := by
    refine List.flatMap_eq_nil_iff.mpr fun sub' hsub' =>
      hf sub' (heq ▸ List.mem_append_right _ (List.mem_cons_of_mem _ hsub')) ?_
    obtain ⟨j, hj, hget⟩ := List.mem_iff_getElem.mp hsub'
    have hslot' : sub'.slot = k + (before.length + 1 + j) := by
      refine slot_of_preorder hnum ?_
      rw [heq, List.getElem?_append_right (by omega), show before.length + 1 + j - before.length = j + 1 by omega,
        List.getElem?_cons_succ, List.getElem?_eq_getElem hj, hget]
    rw [hslot, hslot']
    exact Nat.ne_of_gt (by omega)
  rw [heq, List.flatMap_append, List.flatMap_cons, hbefore, hafter, List.append_nil, List.nil_append]

mutual

/-- Apart from the appending of children, the instructions of a plan are those of its nodes in turn. -/
theorem build_filterMap {α : Type u} {f : Op → Option α} (hf : ∀ parent child, f (.appendChild parent child) = none) :
    ∀ plan : Plan, plan.build.filterMap f = plan.preorder.flatMap fun sub => sub.ownBuild.filterMap f
  | .text slot spec => by rw [build, preorder, List.flatMap_singleton, ownBuild]
  | .element head children => by
    rw [build, List.filterMap_append, buildChildren_filterMap hf, preorder, List.flatMap_cons, ownBuild]

theorem buildChildren_filterMap {α : Type u} {f : Op → Option α}
    (hf : ∀ parent child, f (.appendChild parent child) = none) : ∀ (parent : Slot) (plans : List Plan),
    (buildChildren parent plans).filterMap f = (preorderAll plans).flatMap fun sub => sub.ownBuild.filterMap f
  | _, [] => rfl
  | parent, child :: rest => by
    rw [buildChildren, List.filterMap_append, List.filterMap_cons, hf, preorderAll, List.flatMap_append,
      build_filterMap hf child, buildChildren_filterMap hf parent rest]

end

end Plan

/-- The specs of the attributes that write to a target, in the order in which they are declared. -/
def PlanHead.specsFor (head : PlanHead) (t : Target) : List ValueSpec :=
  (head.attributes.filter fun a => a.1 = t).map (·.2)

/-- Whether one of the changes is a dependency. -/
def ValueSpec.dependsOn (spec : ValueSpec) (changed : Names) : Bool :=
  spec.deps.any fun name => changed.contains name

theorem Target.written?_op (t t' : Target) (s : Slot) (value : Computation) :
    (t'.op s value).written? s t = if t' = t then some value else none := by
  cases t' <;> simp [Target.op, Op.written?]

theorem RefreshStep.triggeredBy_gated (spec : ValueSpec) (op : Op) (changed : Names) :
    RefreshStep.triggeredBy ⟨firstOccurrences spec.deps, op, false⟩ changed = spec.dependsOn changed := by
  rw [triggeredBy, ValueSpec.dependsOn, Bool.false_or, Bool.eq_iff_iff]
  simp only [List.any_eq_true, mem_firstOccurrences]

namespace PlanHead

theorem written_build (head : PlanHead) (t : Target) :
    head.build.filterMap (·.written? head.slot t) = (head.specsFor t).map (·.value) := by
  have hattributes : ∀ attributes : List (Target × ValueSpec),
      (attributes.map fun a => a.1.op head.slot a.2.value).filterMap (·.written? head.slot t) =
        ((attributes.filter fun a => a.1 = t).map (·.2)).map (·.value) := by
    intro attributes
    induction attributes with
    | nil => rfl
    | cons a rest ih =>
      rw [List.map_cons, List.filterMap_cons, Target.written?_op, ih]
      by_cases ha : a.1 = t <;> simp [ha]
  have hcreate : (if head.created then Op.createElement head.slot head.tag head.ns
      else .adoptRoot head.slot).written? head.slot t = none := by split <;> rfl
  have hattach : (head.attachPoints.map (Op.attach head.slot)).filterMap (·.written? head.slot t) = [] := by
    simp [Op.written?]
  have hflush : (if head.nested then [Op.flushNested head.slot] else []).filterMap (·.written? head.slot t) = [] := by
    split <;> rfl
  have hevents : (head.events.map fun e => Op.connect head.slot e.1 e.2).filterMap (·.written? head.slot t) = [] := by
    simp [Op.written?]
  simp only [build, List.cons_append, List.filterMap_cons, List.filterMap_append, hcreate, hattach, hattributes, hflush,
    hevents, List.append_nil, List.nil_append, specsFor]

theorem written_refresh (head : PlanHead) (t : Target) (changed : Names) :
    (head.refresh.filter fun step => step.triggeredBy changed).filterMap (fun step => step.op.written? head.slot t) =
      ((head.specsFor t).filter (·.dependsOn changed)).map (·.value) := by
  have hattributes : ∀ attributes : List (Target × ValueSpec),
      ((attributes.filterMap fun a => RefreshStep.gated? a.2.deps (a.1.op head.slot a.2.value)).filter fun step =>
        step.triggeredBy changed).filterMap (fun step => step.op.written? head.slot t) =
      (((attributes.filter fun a => a.1 = t).map (·.2)).filter (·.dependsOn changed)).map (·.value) := by
    intro attributes
    induction attributes with
    | nil => rfl
    | cons a rest ih =>
      have hspecs : (((a :: rest).filter fun b => b.1 = t).map (·.2)).filter (·.dependsOn changed) =
          (if a.1 = t ∧ a.2.dependsOn changed = true then [a.2] else []) ++
            ((rest.filter fun b => b.1 = t).map (·.2)).filter (·.dependsOn changed) := by
        by_cases ha : a.1 = t <;> cases hchanged : a.2.dependsOn changed <;> simp [ha, hchanged]
      rw [hspecs, List.map_append, ← ih]
      cases hdeps : a.2.deps.isEmpty with
      | true =>
        have hgated : RefreshStep.gated? a.2.deps (a.1.op head.slot a.2.value) = none := if_pos hdeps
        have hnever : a.2.dependsOn changed = false := by
          rw [ValueSpec.dependsOn, List.isEmpty_iff.mp hdeps, List.any_nil]
        simp only [List.filterMap_cons, hgated, hnever, Bool.false_eq_true, and_false, ↓reduceIte, List.map_nil,
          List.nil_append]
      | false =>
        have hgated : RefreshStep.gated? a.2.deps (a.1.op head.slot a.2.value) = some _ :=
          if_neg (hdeps ▸ Bool.false_ne_true)
        simp only [List.filterMap_cons, hgated, List.filter_cons, RefreshStep.triggeredBy_gated]
        cases hchanged : a.2.dependsOn changed with
        | true =>
          rw [if_pos rfl, List.filterMap_cons, Target.written?_op]
          by_cases ha : a.1 = t <;> simp [ha]
        | false => simp
  have hflush : ((if head.nested then [RefreshStep.unconditional (.flushNested head.slot)] else []).filter fun step =>
      step.triggeredBy changed).filterMap (fun step => step.op.written? head.slot t) = [] := by
    split <;> rfl
  rw [refresh, List.filter_append, List.filterMap_append, hattributes, hflush, List.append_nil, specsFor]

end PlanHead

theorem Op.slot_of_written? {s : Slot} {value : Computation} (h : op.written? s t = some value) : op.slot = s := by
  rw [Op.written?_eq_some.mp h]
  cases t <;> rfl

namespace Plan

/-- What building a plan writes to a target comes from the attributes of one element, in their order. -/
theorem written_build (hnum : plan.NumberedFrom k) (hsub : .element head children ∈ plan.preorder) (t : Target) :
    plan.build.filterMap (·.written? head.slot t) = (head.specsFor t).map (·.value) := by
  rw [build_filterMap (fun _ _ => rfl), flatMap_preorder hnum hsub, ownBuild, head.written_build]
  intro sub' _ hne
  refine List.filterMap_eq_nil_iff.mpr fun op hop => Option.eq_none_iff_forall_ne_some.mpr fun value hvalue => hne ?_
  rw [← slot_of_ownBuild hop, Op.slot_of_written? hvalue]
  rfl

/-- So does what refreshing it writes, as far as the attributes depend on what has changed. -/
theorem written_refresh (hnum : plan.NumberedFrom k) (hsub : .element head children ∈ plan.preorder) (t : Target)
    (changed : Names) :
    (plan.refresh.filter fun step => step.triggeredBy changed).filterMap (fun step => step.op.written? head.slot t) =
      ((head.specsFor t).filter (·.dependsOn changed)).map (·.value) := by
  rw [refresh_eq_flatMap, List.filter_flatMap, List.filterMap_flatMap, flatMap_preorder hnum hsub, ownRefresh,
    head.written_refresh]
  intro sub' _ hne
  refine List.filterMap_eq_nil_iff.mpr fun step hstep =>
    Option.eq_none_iff_forall_ne_some.mpr fun value hvalue => hne ?_
  rw [← slot_of_ownRefresh (List.mem_of_mem_filter hstep), Op.slot_of_written? hvalue]
  rfl

/-- The slot of an element is not that of a text. -/
theorem createText_not_mem_build (hnum : plan.NumberedFrom k) (hsub : .element head children ∈ plan.preorder)
    (value : Computation) : .createText head.slot value ∉ plan.build := by
  intro hop
  rcases mem_build.mp hop with ⟨sub', hsub', hown⟩ | ⟨_, _, -, _, -, heq⟩
  · obtain rfl := eq_of_slot hnum hsub' hsub (slot_of_ownBuild hown).symm
    obtain ⟨create, rest, hbuild, -, hrest⟩ := head.build_eq
    rw [ownBuild, hbuild] at hown
    rcases List.mem_cons.mp hown with heq | hown
    · have hcreate := (List.cons.inj hbuild).1.trans heq.symm
      split at hcreate <;> cases hcreate
    · cases (hrest _ hown).1
  · cases heq

theorem slot_lt_size {sub : Plan} (hnum : plan.NumberedFrom 0) (hsub : sub ∈ plan.preorder) : sub.slot < plan.size := by
  obtain ⟨j, hj⟩ := List.mem_iff_getElem?.mp hsub
  obtain ⟨hlt, -⟩ := List.getElem?_eq_some_iff.mp hj
  rw [slot_of_preorder hnum hj, Nat.zero_add, ← length_preorder]
  exact hlt

end Plan

theorem PlanHead.exists_attribute {value : Computation} (h : value ∈ (head.specsFor t).map (·.value)) :
    ∃ a ∈ head.attributes, a.1 = t ∧ a.2.value = value := by
  obtain ⟨spec, hspec, rfl⟩ := List.mem_map.mp h
  obtain ⟨a, ha, rfl⟩ := List.mem_map.mp hspec
  obtain ⟨hmem, hsame⟩ := List.mem_filter.mp ha
  exact ⟨a, hmem, of_decide_eq_true hsame, rfl⟩

/-- Instructions that write to an element only what its attributes compute. -/
theorem PlanHead.spares (hapart : ∀ a ∈ head.attributes, a.1 = t ∨ a.1.Apart t)
    (hvalues : ∀ a ∈ head.attributes, a.2.value.formula.OfProperties ∧
      ∀ v, p.eval c a.2.value.formula = .ok v → v.Inert)
    (hop : ∀ t' value, op.written? head.slot t' = some value → value ∈ (head.specsFor t').map (·.value)) :
    op.Spares p c head.slot t := by
  intro t' value heq
  obtain ⟨a, hmem, rfl, rfl⟩ := exists_attribute (hop t' value (Op.written?_eq_some.mpr heq))
  exact ⟨hapart a hmem, hvalues a hmem⟩

namespace Plan

theorem spares_build (hnum : plan.NumberedFrom k) (hsub : .element head children ∈ plan.preorder)
    (hapart : ∀ a ∈ head.attributes, a.1 = t ∨ a.1.Apart t)
    (hvalues : ∀ a ∈ head.attributes, a.2.value.formula.OfProperties ∧
      ∀ v, p.eval c a.2.value.formula = .ok v → v.Inert) (hop : op ∈ plan.build) : op.Spares p c head.slot t := by
  refine PlanHead.spares hapart hvalues fun t' value hvalue => ?_
  rw [← written_build hnum hsub]
  exact List.mem_filterMap.mpr ⟨op, hop, hvalue⟩

theorem spares_refresh (hnum : plan.NumberedFrom k) (hsub : .element head children ∈ plan.preorder)
    (hapart : ∀ a ∈ head.attributes, a.1 = t ∨ a.1.Apart t)
    (hvalues : ∀ a ∈ head.attributes, a.2.value.formula.OfProperties ∧
      ∀ v, p.eval c a.2.value.formula = .ok v → v.Inert) {changed : Names}
    {step : RefreshStep} (hstep : step ∈ plan.refresh.filter fun s => s.triggeredBy changed) :
    step.op.Spares p c head.slot t := by
  refine PlanHead.spares hapart hvalues fun t' value hvalue => ?_
  have hmem : value ∈ ((head.specsFor t').filter (·.dependsOn changed)).map (·.value) := by
    rw [← written_refresh hnum hsub]
    exact List.mem_filterMap.mpr ⟨step, hstep, hvalue⟩
  obtain ⟨spec, hspec, rfl⟩ := List.mem_map.mp hmem
  exact List.mem_map_of_mem (List.mem_of_mem_filter hspec)

/-- The targets of one element are the same or share nothing. -/
def Distinguishes : Plan → Prop
  | .element head _ => ∀ a ∈ head.attributes, ∀ b ∈ head.attributes, a.1 = b.1 ∨ a.1.Apart b.1
  | .text .. => True

theorem Distinguishes.apart (h : (Plan.element head children).Distinguishes) {spec : ValueSpec}
    (hspec : spec ∈ head.specsFor t) : ∀ a ∈ head.attributes, a.1 = t ∨ a.1.Apart t := by
  obtain ⟨b, hb, -⟩ := List.mem_map.mp hspec
  obtain ⟨hmem, htarget⟩ := List.mem_filter.mp hb
  rw [← of_decide_eq_true htarget]
  exact fun a ha => h a ha b hmem

end Plan

theorem TemplateNode.rootPlan_distinguishes {declared : Declarations} {options : CompileOptions}
    (hdeclared : ∀ tag, declared tag = none) {head : NodeHead} {children : List TemplateNode} (htag : head.tag ≠ "")
    (hleaves : (TemplateNode.node head children).TextsAreLeaves) :
    ∀ sub ∈ ((TemplateNode.node head children).rootPlan declared options).preorder, sub.Distinguishes := by
  intro sub hsub
  obtain ⟨source, -, hplanned⟩ := TemplateNode.exists_source htag hleaves hsub
  generalize sub.slot = s at hplanned
  cases hplanned with
  | text spec => trivial
  | expression htag hspec => trivial
  | element htag hleaves inherited =>
    intro a ha b hb
    obtain ⟨a', -, rfl⟩ := List.mem_map.mp ha
    obtain ⟨b', -, rfl⟩ := List.mem_map.mp hb
    exact or_iff_not_imp_left.mpr fun hne => attributeTarget_apart (fun _ => hdeclared _) hne

end LiveMarkup
