import LiveMarkup.Proofs.PlanRun
import LiveMarkup.Proofs.Shape
import LiveMarkup.Proofs.SlotDiscipline

namespace LiveMarkup

variable {count : Nat} {head : NodeHead} {children : List TemplateNode}

/-- The element of a node where its specs have the values given. The attributes are shown in order. -/
def NodeHead.rendered (declared : Declarations) (owner : ComponentId)
    (value : ValueSpec → Except Fault Value) (ns : Namespace) (head : NodeHead) : Element :=
  head.attributes.foldl
    (fun (e : Element) a => e.show owner (attributeTarget declared head.tag ns a.1) (value a.2))
    (.ofTag head.tag ns)

mutual

/-- What a template looks like where its specs have the values given, which may depend on the position of their
node in pre-order. -/
def TemplateNode.render (declared : Declarations) (owner : ComponentId)
    (value : Nat → ValueSpec → Except Fault Value) (inherited : Namespace) (position : Nat) : TemplateNode → Tree
  | .text spec => .text (shownText (value position spec))
  | .node head children =>
    if head.tag = "" then .text (shownText (value position head.textSpec))
    else
      let ns := head.namespaceIn inherited
      let shown := head.rendered declared owner (value position) ns
      .element head.tag ns shown.attrs shown.props
        (TemplateNode.renderAll declared owner value ns (position + 1) children)

def TemplateNode.renderAll (declared : Declarations) (owner : ComponentId)
    (value : Nat → ValueSpec → Except Fault Value) (inherited : Namespace) (position : Nat) :
    List TemplateNode → List Tree
  | [] => []
  | child :: rest =>
    child.render declared owner value inherited position ::
      TemplateNode.renderAll declared owner value inherited (position + child.size) rest

end

def Target.opName : Target → String
  | .property _ => "prop"
  | .attr _ => "attr"

/-- The diagnostic of a failure at the node with a given position in pre-order. -/
def CompileOptions.diagnostic (options : CompileOptions) (position : Nat) (op : String) (f : Fault) :
    Diagnostic :=
  ⟨options.name, if position = 0 then options.rootName else s!"n{position}", op, .build, f⟩

def CompileOptions.diagnostics (options : CompileOptions) (position : Nat) (op : String) :
    Except Fault Value → List Diagnostic
  | .ok _ => []
  | .error f => [options.diagnostic position op f]

mutual

/-- One diagnostic for every spec that fails, a node's attributes in order before its children. -/
def TemplateNode.diagnostics (declared : Declarations) (options : CompileOptions)
    (value : Nat → ValueSpec → Except Fault Value) (inherited : Namespace) (position : Nat) :
    TemplateNode → List Diagnostic
  | .text spec => options.diagnostics position "text" (value position spec)
  | .node head children =>
    if head.tag = "" then options.diagnostics position "text" (value position head.textSpec)
    else
      let ns := head.namespaceIn inherited
      head.attributes.flatMap (fun a => options.diagnostics position
        (attributeTarget declared head.tag ns a.1).opName (value position a.2)) ++
      TemplateNode.diagnosticsAll declared options value ns (position + 1) children

def TemplateNode.diagnosticsAll (declared : Declarations) (options : CompileOptions)
    (value : Nat → ValueSpec → Except Fault Value) (inherited : Namespace) (position : Nat) :
    List TemplateNode → List Diagnostic
  | [] => []
  | child :: rest =>
    child.diagnostics declared options value inherited position ++
      TemplateNode.diagnosticsAll declared options value inherited (position + child.size) rest

end

theorem Element.shape_write (owner : ComponentId) (e : Element) (target : Target) (v : Value) :
    (e.write owner target v).shape = e.shape := by
  unfold Element.write
  split
  · exact e.shape_setProperty _ _
  · exact e.shape_setProperty _ _
  · rfl
  · split <;> rfl

theorem Element.shape_show (owner : ComponentId) (e : Element) (target : Target)
    (value : Except Fault Value) : (e.show owner target value).shape = e.shape := by
  cases value with
  | ok v => exact e.shape_write owner target v
  | error f => rfl

namespace Site

variable (site : Site)

theorem shape_showAttributes (points : Dict NodeId) (attributes : List (Target × ValueSpec)) (e : Element) :
    (attributes.foldl (site.showAttribute points) e).shape = e.shape := by
  induction attributes generalizing e with
  | nil => rfl
  | cons a rest ih => exact (ih _).trans (e.shape_show site.owner a.1 (site.valueWith points a.2))

theorem tree_element (head : PlanHead) (children : List Plan) :
    (Plan.element head children).tree site.kind =
      let shown := head.attributes.foldl (site.showAttribute (site.points (head.slot + 1))) (.ofTag head.tag head.ns)
      .element head.tag head.ns shown.attrs shown.props (Plan.treeAll site.kind children) := by
  have hshape := site.shape_showAttributes (site.points (head.slot + 1)) head.attributes (.ofTag head.tag head.ns)
  simp only [Element.shape, KindShape.element.injEq] at hshape
  simp only [Plan.tree, kind, NodeKind.tree, element, Element.listen, hshape.1, hshape.2.1]
  rfl

variable (declared : Declarations) (options : CompileOptions)

theorem tree_head (head : NodeHead) (slot : Slot) (created : Bool) (inherited : Namespace)
    (children : List Plan) :
    (Plan.element (head.plan declared options slot created inherited) children).tree site.kind =
      let shown := head.rendered declared site.owner (site.value slot) (head.namespaceIn inherited)
      .element head.tag (head.namespaceIn inherited) shown.attrs shown.props
        (Plan.treeAll site.kind children) := by
  rw [tree_element, NodeHead.plan, List.foldl_map]
  rfl

mutual

/-- A plan is built into the rendering of its template. -/
theorem tree_plan : ∀ (inherited : Namespace) (k : Nat) (node : TemplateNode),
    (node.plan declared options inherited k).tree site.kind =
      node.render declared site.owner site.value inherited k
  | _, _, .text _ => rfl
  | inherited, k, .node head children => by
    unfold TemplateNode.plan TemplateNode.render
    split
    · rfl
    · rw [tree_head, tree_planAll]

theorem tree_planAll : ∀ (inherited : Namespace) (k : Nat) (nodes : List TemplateNode),
    Plan.treeAll site.kind (TemplateNode.planAll declared options inherited k nodes) =
      TemplateNode.renderAll declared site.owner site.value inherited k nodes
  | _, _, [] => rfl
  | inherited, k, child :: rest => by
    rw [TemplateNode.planAll, Plan.treeAll, TemplateNode.renderAll, tree_plan, tree_planAll]

end

theorem tree_rootPlan (htag : head.tag ≠ "") :
    ((TemplateNode.node head children).rootPlan declared options).tree site.kind =
      (TemplateNode.node head children).render declared site.owner site.value .html 0 := by
  rw [TemplateNode.rootPlan, tree_head, tree_planAll, TemplateNode.render, if_neg htag]

theorem slotName_ofPlan {rootName : String} {s : Nat} (hs : s < count) :
    ((numberedSlots rootName count)[s]?).getD "?" = if s = 0 then rootName else s!"n{s}" := by
  simp [numberedSlots, List.getElem?_range hs]

variable {site} {declared} {options} {plan : Plan}

theorem failed_eq (htemplate : site.template = .ofPlan options count plan) (op : Op) (hs : op.slot < count)
    (result : Except Fault Value) : site.failed op result = options.diagnostics op.slot op.name result := by
  cases result with
  | ok v => rfl
  | error f =>
    simp only [failed, CompileOptions.diagnostics, diagnostic, CompileOptions.diagnostic, htemplate,
      Template.slotName, Template.ofPlan, slotName_ofPlan hs]

theorem attributeFailures_plan (htemplate : site.template = .ofPlan options count plan) (head : NodeHead)
    {slot : Nat} (hslot : slot < count) (created : Bool) (inherited : Namespace) :
    site.attributeFailures (head.plan declared options slot created inherited) =
      head.attributes.flatMap fun a => options.diagnostics slot
        (attributeTarget declared head.tag (head.namespaceIn inherited) a.1).opName (site.value slot a.2) := by
  simp only [attributeFailures, NodeHead.plan, List.flatMap_map]
  congr 1
  funext a
  cases attributeTarget declared head.tag (head.namespaceIn inherited) a.1 with
  | property path => exact failed_eq htemplate (.setProperty slot path _) hslot _
  | attr name => exact failed_eq htemplate (.setAttribute slot name _) hslot _

mutual

theorem failures_plan (htemplate : site.template = .ofPlan options count plan) : ∀ (inherited : Namespace) (k : Nat)
    (node : TemplateNode), k + node.size ≤ count →
    site.failures (node.plan declared options inherited k) =
      node.diagnostics declared options site.value inherited k
  | _, k, .text spec, hk => failed_eq htemplate (.createText k spec.value) hk _
  | inherited, k, .node head children, hk => by
    have hslot : k < count := Nat.lt_of_lt_of_le (Nat.lt_add_of_pos_right (TemplateNode.size_pos _)) hk
    unfold TemplateNode.plan TemplateNode.diagnostics
    rw [TemplateNode.size, ← Nat.add_assoc] at hk
    split
    · exact failed_eq htemplate (.createText k head.textSpec.value) hslot _
    · rw [failures, attributeFailures_plan htemplate head hslot, failuresAll_planAll htemplate _ _ _ hk]

theorem failuresAll_planAll (htemplate : site.template = .ofPlan options count plan) :
    ∀ (inherited : Namespace) (k : Nat) (nodes : List TemplateNode), k + TemplateNode.sizeAll nodes ≤ count →
    site.failuresAll (TemplateNode.planAll declared options inherited k nodes) =
      TemplateNode.diagnosticsAll declared options site.value inherited k nodes
  | _, _, [], _ => rfl
  | inherited, k, child :: rest, hk => by
    rw [TemplateNode.sizeAll] at hk
    rw [TemplateNode.planAll, failuresAll, TemplateNode.diagnosticsAll, failures_plan htemplate _ _ child (by omega),
      failuresAll_planAll htemplate _ _ rest (by omega)]

end

theorem failures_rootPlan (htemplate : site.template = .ofPlan options count plan) (htag : head.tag ≠ "")
    (hcount : (TemplateNode.node head children).size ≤ count) :
    site.failures ((TemplateNode.node head children).rootPlan declared options) =
      (TemplateNode.node head children).diagnostics declared options site.value .html 0 := by
  rw [TemplateNode.size] at hcount
  rw [TemplateNode.rootPlan, failures, attributeFailures_plan htemplate head (by omega),
    failuresAll_planAll htemplate _ _ children hcount, TemplateNode.diagnostics, if_neg htag]

/-- Building the whole template succeeds and leaves its nodes after the old ones. -/
theorem builds (htemplate : site.template = .ofPlan options (TemplateNode.node head children).size
      ((TemplateNode.node head children).rootPlan declared options)) (htag : head.tag ≠ "")
    (hleaves : (TemplateNode.node head children).TextsAreLeaves) (hroot : options.createRoot = true)
    (hfollows : ∀ sub ∈ ((TemplateNode.node head children).rootPlan declared options).preorder, site.Follows sub) :
    ∃ i report q, site.template.buildOn site.host site.owner none site.sink site.start =
        some (.ok (i, report), q) ∧ i.root = site.off ∧
      site.At (TemplateNode.node head children).size (site.points (TemplateNode.node head children).size)
        (site.start.document.nodes.toList ++
          ((TemplateNode.node head children).rootPlan declared options).nodes site.kind site.off none) i q ∧
      report.diagnostics = site.failures ((TemplateNode.node head children).rootPlan declared options) ∧
      q.warnings = site.start.warnings ++ site.sink.announce report.diagnostics := by
  obtain ⟨hnum, hsize⟩ := TemplateNode.rootPlan_numbered declared options hleaves
  have hcreated : ∀ h cs, .element h cs ∈ ((TemplateNode.node head children).rootPlan declared options).preorder →
      h.created = true := by
    intro h cs hmem
    rw [(TemplateNode.rootPlan_heads htag hleaves hmem).1, hroot, Bool.or_true]
  have hcount : site.template.slotNames.length = (TemplateNode.node head children).size := by
    rw [htemplate, Template.ofPlan, length_numberedSlots]
  have hstart : site.At 0 (site.points 0) site.start.document.nodes.toList
      (site.template.unbuilt site.owner site.sink) site.start := by
    refine ⟨rfl, rfl, rfl, List.length_replicate, fun s hs => absurd hs (Nat.not_lt_zero s), .refl _, ?_, rfl, rfl⟩
    rw [site.exposed, Page.exposing_points]
  obtain ⟨i, q, ⟨report, hrun, hdiagnostics, hwarnings⟩, hend⟩ :=
    takes_plan hnum hcreated hfollows (by omega) rfl _ _ hstart
  rw [Nat.zero_add, hsize] at hend
  have hfirst := Instance.node_eq_ok.mp (hend.bound 0 (TemplateNode.size_pos _))
  have hobstacle : site.template.obstacle? site.owner none site.start = none := by
    rw [htemplate]
    simp [Template.obstacle?, Template.ofPlan, hroot, site.free]
  refine ⟨{ i with root := site.off }, report, q, (Template.buildOn_eq_some hobstacle).mpr ?_, rfl,
    { hend with }, hdiagnostics, hdiagnostics ▸ hwarnings⟩
  refine ⟨i, report, ?_, by rw [hfirst]; rfl⟩
  rw [htemplate]
  rw [htemplate] at hrun
  exact hrun

/-- The nodes from before the building are as they were. -/
theorem At.nodes_kept {k : Nat} {points : Dict NodeId} {nodes : List Node} {i : Instance} {q : Page}
    (h : site.At k points (site.start.document.nodes.toList ++ nodes) i q) :
    ∀ n < site.start.document.size, q.document.nodes[n]? = site.start.document.nodes[n]? := by
  intro n hn
  rw [← Array.getElem?_toList, h.laid, List.getElem?_append_left hn, Array.getElem?_toList]

/-- The tree of a plan that was built. -/
theorem subtree_off {node : TemplateNode} (hleaves : node.TextsAreLeaves) {points : Dict NodeId} {i : Instance}
    {q : Page} (h : site.At node.size points (site.start.document.nodes.toList ++
      (node.rootPlan declared options).nodes site.kind site.off none) i q) :
    q.document.subtree site.off = (node.rootPlan declared options).tree site.kind := by
  obtain ⟨hnum, hsize⟩ := TemplateNode.rootPlan_numbered declared options hleaves
  have hholds := Document.holds_of_toList hnum h.laid
  have hdepth : (node.rootPlan declared options).size ≤ q.document.size := by
    rw [hsize, h.documentSize]
    omega
  have htree := Document.subtreeTo_of_holds hholds hdepth
  rw [hnum.slot_eq] at htree
  exact htree

end Site

end LiveMarkup
