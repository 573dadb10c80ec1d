import LiveMarkup.Proofs.SchemaTargets
import LiveMarkup.Proofs.Shown

namespace LiveMarkup

variable {head : NodeHead} {children : List TemplateNode} {declared : Declarations} {options : CompileOptions}

mutual

/-- All values that a template asks for. -/
def TemplateNode.specs : TemplateNode → List ValueSpec
  | .text spec => [spec]
  | .node head children =>
    head.attributes.map (·.2) ++ head.expression.toList ++ TemplateNode.specsAll children

def TemplateNode.specsAll : List TemplateNode → List ValueSpec
  | [] => []
  | child :: rest => child.specs ++ TemplateNode.specsAll rest

end

mutual

/-- No element has two attributes that set one property or, where they set none, have one name. -/
def TemplateNode.DistinctTargets (declared : Declarations) (inherited : Namespace) : TemplateNode → Prop
  | .text _ => True
  | .node head children =>
    (head.attributes.map fun a => attributeTarget declared head.tag (head.namespaceIn inherited) a.1).Nodup ∧
      TemplateNode.AllDistinctTargets declared (head.namespaceIn inherited) children

def TemplateNode.AllDistinctTargets (declared : Declarations) (inherited : Namespace) :
    List TemplateNode → Prop
  | [] => True
  | child :: rest => child.DistinctTargets declared inherited ∧
      TemplateNode.AllDistinctTargets declared inherited rest

end

/-- No properties are declared for the tag of the node. -/
def Plan.Undeclared (declared : Declarations) : Plan → Prop
  | .element head _ => head.ns = .html → declared head.tag = none
  | .text .. => True

theorem NodeHead.separate_plan {inherited : Namespace} {slot : Slot} {created : Bool} {children : List Plan}
    (hdeclared : (Plan.element (head.plan declared options slot created inherited) children).Undeclared declared)
    (h : (head.attributes.map fun a =>
      attributeTarget declared head.tag (head.namespaceIn inherited) a.1).Nodup) :
    (Plan.element (head.plan declared options slot created inherited) children).Separate := by
  simp only [Plan.Separate, NodeHead.plan, List.map_map]
  exact List.pairwise_map.mpr ((List.pairwise_map.mp h).imp fun hne => attributeTarget_apart hdeclared hne)

theorem NodeHead.places_plan {inherited : Namespace} {slot : Slot} {created : Bool} {children : List Plan}
    {place : Op × ValueSpec}
    (h : place ∈ (Plan.element (head.plan declared options slot created inherited) children).places) :
    place.2 ∈ head.attributes.map (·.2) := by
  obtain ⟨b, hb, rfl⟩ := List.mem_map.mp h
  obtain ⟨a, ha, rfl⟩ := List.mem_map.mp hb
  exact List.mem_map_of_mem ha

namespace TemplateNode

mutual

theorem plan_separate :
    ∀ {inherited : Namespace} {k : Nat} {node : TemplateNode}, node.DistinctTargets declared inherited →
      ∀ sub ∈ (node.plan declared options inherited k).preorder, sub.Undeclared declared → sub.Separate
  | _, _, .text _, _, sub, hsub, _ => by
    cases List.mem_singleton.mp hsub
    trivial
  | inherited, k, .node head children, h, sub, hsub, hsub' => by
    unfold plan at hsub
    split at hsub
    · cases List.mem_singleton.mp hsub
      trivial
    · rcases List.mem_cons.mp hsub with rfl | hsub
      · exact NodeHead.separate_plan hsub' h.1
      · exact planAll_separate h.2 sub hsub hsub'

theorem planAll_separate :
    ∀ {inherited : Namespace} {k : Nat} {nodes : List TemplateNode},
    AllDistinctTargets declared inherited nodes →
      ∀ sub ∈ Plan.preorderAll (planAll declared options inherited k nodes),
        sub.Undeclared declared → sub.Separate
  | _, _, [], _, _, hsub, _ => absurd hsub List.not_mem_nil
  | inherited, k, child :: rest, h, sub, hsub, hsub' => by
    rcases List.mem_append.mp hsub with hsub | hsub
    · exact plan_separate h.1 sub hsub hsub'
    · exact planAll_separate h.2 sub hsub hsub'

end

mutual

theorem plan_specs :
    ∀ {inherited : Namespace} {k : Nat} {node : TemplateNode}, node.TextsAreLeaves →
      ∀ sub ∈ (node.plan declared options inherited k).preorder, ∀ place ∈ sub.places, place.2 ∈ node.specs
  | _, _, .text spec, _, sub, hsub, place, hplace => by
    cases List.mem_singleton.mp hsub
    cases List.mem_singleton.mp hplace
    exact List.mem_cons_self
  | inherited, k, .node head children, h, sub, hsub, place, hplace => by
    unfold plan at hsub
    split at hsub
    next htag =>
      cases List.mem_singleton.mp hsub
      cases List.mem_singleton.mp hplace
      obtain ⟨spec, hspec⟩ := Option.isSome_iff_exists.mp (h.1 htag).1
      simp [specs, NodeHead.textSpec, hspec]
    next =>
      rcases List.mem_cons.mp hsub with rfl | hsub
      · exact List.mem_append_left _ (List.mem_append_left _ (NodeHead.places_plan hplace))
      · exact List.mem_append_right _ (planAll_specs h.2 sub hsub place hplace)

theorem planAll_specs :
    ∀ {inherited : Namespace} {k : Nat} {nodes : List TemplateNode}, AllTextsAreLeaves nodes →
      ∀ sub ∈ Plan.preorderAll (planAll declared options inherited k nodes),
        ∀ place ∈ sub.places, place.2 ∈ specsAll nodes
  | _, _, [], _, _, hsub, _, _ => absurd hsub List.not_mem_nil
  | inherited, k, child :: rest, h, sub, hsub, place, hplace => by
    rcases List.mem_append.mp hsub with hsub | hsub
    · exact List.mem_append_left _ (plan_specs h.1 sub hsub place hplace)
    · exact List.mem_append_right _ (planAll_specs h.2 sub hsub place hplace)

end

theorem rootPlan_separate_of_undeclared (options : CompileOptions)
    (h : (TemplateNode.node head children).DistinctTargets declared .html) :
    ∀ sub ∈ ((TemplateNode.node head children).rootPlan declared options).preorder,
      sub.Undeclared declared → sub.Separate := by
  intro sub hsub hsub'
  rcases List.mem_cons.mp hsub with rfl | hsub
  · exact NodeHead.separate_plan hsub' h.1
  · exact planAll_separate h.2 sub hsub hsub'

theorem rootPlan_separate (options : CompileOptions) (hdeclared : ∀ tag, declared tag = none)
    (h : (TemplateNode.node head children).DistinctTargets declared .html) :
    ∀ sub ∈ ((TemplateNode.node head children).rootPlan declared options).preorder, sub.Separate := by
  intro sub hsub
  refine rootPlan_separate_of_undeclared options h sub hsub ?_
  cases sub with
  | element head children => exact fun _ => hdeclared _
  | text slot spec => trivial

theorem rootPlan_specs (declared : Declarations) (options : CompileOptions)
    (h : (TemplateNode.node head children).TextsAreLeaves) :
    ∀ sub ∈ ((TemplateNode.node head children).rootPlan declared options).preorder, ∀ place ∈ sub.places,
      place.2 ∈ (TemplateNode.node head children).specs := by
  intro sub hsub place hplace
  rcases List.mem_cons.mp hsub with rfl | hsub
  · exact List.mem_append_left _ (List.mem_append_left _ (NodeHead.places_plan hplace))
  · exact List.mem_append_right _ (planAll_specs h.2 sub hsub place hplace)

end TemplateNode

end LiveMarkup
