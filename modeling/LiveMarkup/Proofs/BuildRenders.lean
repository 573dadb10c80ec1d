import LiveMarkup.Proofs.Rendering

namespace LiveMarkup

/-- What the specs of a component's template come to on a page. -/
def Page.valueFor (p : Page) (c : ComponentId) (spec : ValueSpec) : Except Fault Value :=
  p.eval c spec.value.formula

namespace Dict

theorem get?_insertAll {α : Type} (d : Dict α) (v : α) (names : List String) (name : String) :
    (d.insertAll v names).get? name = if name ∈ names then some v else d.get? name := by
  induction names generalizing d with
  | nil => rfl
  | cons first rest ih =>
    rw [insertAll, List.foldl_cons, ← insertAll, ih, get?_insert]
    by_cases hrest : name ∈ rest <;> simp [hrest]

theorem insertAll_firstOccurrences {α : Type} (d : Dict α) (v : α) (names : List String) :
    d.insertAll v (firstOccurrences names) = d.insertAll v names :=
  ext_get? fun name => by simp only [get?_insertAll, mem_firstOccurrences]

end Dict

namespace TemplateNode

/-- The names under which a node is exposed. -/
def exposedAs : TemplateNode → List String
  | .text _ => []
  | .node head _ => if head.tag = "" then [] else head.attachPoints

/-- What a component exposes once the first `k` nodes of a template have been built, the first of them as the node
`off`. -/
def exposed (node : TemplateNode) (off : NodeId) (points : Dict NodeId) (k : Nat) : Dict NodeId :=
  (node.preorder.take k).zipIdx.foldl (fun points placed => points.insertAll (off + placed.2) placed.1.exposedAs) points

theorem exposed_succ {node sub : TemplateNode} {k : Nat} (hsub : node.preorder[k]? = some sub) (off : NodeId)
    (points : Dict NodeId) :
    node.exposed off points (k + 1) = (node.exposed off points k).insertAll (off + k) sub.exposedAs := by
  have hk := (List.getElem?_eq_some_iff.mp hsub).1
  rw [exposed, List.take_add_one, hsub, List.zipIdx_append, List.foldl_append, List.length_take_of_le (Nat.le_of_lt hk),
    Nat.zero_add]
  rfl

theorem PlannedAt.insertAll_attachPoints {declared : Declarations} {options : CompileOptions} {s : Slot}
    {sub : TemplateNode} {q : Plan} (h : PlannedAt declared options s sub q) (points : Dict NodeId) (n : NodeId) :
    points.insertAll n q.attachPoints = points.insertAll n sub.exposedAs := by
  cases h with
  | text spec => rfl
  | expression htag hspec => rw [exposedAs, if_pos htag]; rfl
  | element htag hleaves inherited =>
    rw [exposedAs, if_neg htag]
    exact points.insertAll_firstOccurrences n _

end TemplateNode

/-- What a spec of the node at a position of a template comes to while that is being built. The component then exposes
what it did before, and the nodes of the template up to that one. -/
def Page.valueAt (p : Page) (c : ComponentId) (node : TemplateNode) (position : Nat) (spec : ValueSpec) :
    Except Fault Value :=
  (p.exposing c (node.exposed p.document.size (p.points c) (position + 1))).valueFor c spec

/-- The site where a template is built for a free component of a plain page. -/
def Page.site (p : Page) (hp : p.Plain) (node : TemplateNode) (t : Template) (c : ComponentId)
    (hfree : p.access c = .free) (sink : Sink) : Site :=
  ⟨hostTo p.nesting, p, t, c, sink, node.exposed p.document.size (p.points c), hostTo_servesPlain _, hp, hfree, rfl⟩

theorem Page.site_follows {p : Page} {hp : p.Plain} {head : NodeHead} {children : List TemplateNode} {t : Template}
    {c : ComponentId} {hfree : p.access c = .free} {sink : Sink} {declared : Declarations} {options : CompileOptions}
    (htag : head.tag ≠ "") (hleaves : (TemplateNode.node head children).TextsAreLeaves) :
    ∀ sub ∈ ((TemplateNode.node head children).rootPlan declared options).preorder,
      (p.site hp (.node head children) t c hfree sink).Follows sub := by
  intro sub hsub
  obtain ⟨source, hsource, hplanned⟩ := TemplateNode.exists_source htag hleaves hsub
  rw [Site.Follows, hplanned.insertAll_attachPoints]
  exact TemplateNode.exposed_succ hsource _ _

/-- Building a compiled template succeeds. The tree at the root is the rendering of the template with the values that
its specs have while it is built, every failing spec is reported once in the order of the rendering, and the nodes
from before stay as they are. What receives the reports is taken to leave the components alone
(`Receiver.LeavesComponents`). -/
theorem build_renders {declared : Declarations} {maps maps' : PropertyMaps} {options : CompileOptions}
    {node : TemplateNode} {t : Template} (h : compileWith declared maps options node = (.ok t, maps'))
    (hroot : options.createRoot = true) {p : Page} (hp : p.Plain) {c : ComponentId}
    (hfree : p.access c = .free) (sink : Sink) :
    ∃ i report q, t.instantiate c none sink p = some (.ok (i, report), q) ∧
      q.document.subtree i.root = node.render declared c (p.valueAt c node) .html 0 ∧
      report.diagnostics = node.diagnostics declared options (p.valueAt c node) .html 0 ∧
      q.warnings = p.warnings ++ sink.announce report.diagnostics ∧
      ∀ n < p.document.size, q.document.nodes[n]? = p.document.nodes[n]? := by
  obtain ⟨head, children, rfl, htag, hleaves, ht⟩ := compileWith_ok h
  let site := p.site hp (.node head children) t c hfree sink
  have htemplate : site.template = .ofPlan options _ _ := ht
  obtain ⟨i, report, q, hbuild, hi, hend, hdiagnostics, hwarnings⟩ :=
    Site.builds htemplate htag hleaves hroot (Page.site_follows htag hleaves)
  refine ⟨i, report, q, withHost_eq_some.mpr hbuild, ?_, ?_, hwarnings, hend.nodes_kept⟩
  · rw [hi, Site.subtree_off hleaves hend]
    exact site.tree_rootPlan declared options htag
  · rw [hdiagnostics]
    exact Site.failures_rootPlan htemplate htag (Nat.le_refl _)

/-- A notice with a drawing; one of its attributes asks for a difference. -/
def sampleNotice : TemplateNode :=
  .node { NodeHead.ofTag "section" with attributes := [("id", .property "name"),
      ("data-rest", (Expr.binary .sub (.prop "name") (.prop "count")).toSpec "name - count")] }
    [.node { NodeHead.ofTag "svg" with ns := some "svg" } [.text (.property "name")],
      .node { NodeHead.ofTag "" with expression := some (.property "name") } []]

/-- A page with one component and nothing on it. -/
def samplePage (props : List (String × Value)) : Page :=
  (Page.empty.addComponent (props.foldl (fun c e => c.withProp e.1 e.2) (.named "sample"))).2

theorem samplePage_plain (props : List (String × Value)) : (samplePage props).Plain :=
  ⟨rfl, rfl⟩

theorem build_renders_sampleNotice :
    (samplePage [("name", .text "a")]).Plain ∧ ∃ t maps i report q,
      compileWith (fun _ => none) .empty {} sampleNotice = (.ok t, maps) ∧
      t.instantiate 0 none .warnings (samplePage [("name", .text "a")]) = some (.ok (i, report), q) ∧
      q.document.subtree i.root = sampleNotice.render (fun _ => none) 0
        ((samplePage [("name", .text "a")]).valueAt 0 sampleNotice) .html 0 ∧
      report.diagnostics = [⟨"template", "root", "attr", .build, .type "cannot subtract null from string"⟩] := by
  obtain ⟨t, maps, h⟩ : ∃ t maps, compileWith (fun _ => none) .empty {} sampleNotice = (.ok t, maps) :=
    ⟨_, _, rfl⟩
  have hp := samplePage_plain [("name", .text "a")]
  obtain ⟨i, report, q, hbuild, htree, hdiagnostics, -⟩ := build_renders h rfl hp (c := 0) rfl .warnings
  exact ⟨hp, t, maps, i, report, q, h, hbuild, htree, hdiagnostics.trans rfl⟩

def Tree.hasProperty (name : String) : Tree → Bool
  | .element _ _ _ props _ => props.contains name
  | .text _ => false

/-- A paragraph with an attribute that is no property. -/
def sampleCallback : TemplateNode :=
  .node { NodeHead.ofTag "p" with attributes := [("x", .property "f")] } []

def sampleCallbackTemplate : Template :=
  .ofPlan {} sampleCallback.size (sampleCallback.rootPlan (fun _ => none) {})

def sampleCallbackBuilt : Act (Option Tree) := do
  match ← sampleCallbackTemplate.instantiate 0 none .caller with
  | .error _ => return none
  | .ok (i, _) => return some ((← get).document.subtree i.root)

/-- A callback in an attribute that is no property does not set or remove an attribute: it is stored as a
property. -/
theorem callback_attribute_is_stored :
    (∃ maps, compileWith (fun _ => none) .empty {} sampleCallback = (.ok sampleCallbackTemplate, maps)) ∧
    ∃ i report q, sampleCallbackTemplate.instantiate 0 none .caller
        (samplePage [("f", .callback ⟨0, none⟩)]) = some (.ok (i, report), q) ∧
      ∀ attrs, q.document.subtree i.root ≠ .element "p" .html attrs Dict.empty [] := by
  refine ⟨⟨_, rfl⟩, ?_⟩
  have hstored : (sampleCallbackBuilt (samplePage [("f", .callback ⟨0, none⟩)])).map
      (fun r => r.1.map (Tree.hasProperty "x")) = some (some true) := by decide +kernel
  obtain ⟨⟨tree, q⟩, hrun, htree⟩ := Option.map_eq_some_iff.mp hstored
  simp only [sampleCallbackBuilt, Act.bind_eq_some] at hrun
  obtain ⟨result, built, hbuild, hrun⟩ := hrun
  cases result with
  | error e =>
    obtain ⟨rfl, rfl⟩ := Act.pure_eq_some.mp hrun
    cases htree
  | ok result =>
    obtain ⟨i, report⟩ := result
    simp only [Act.bind_eq_some, Act.get_eq_some, Act.pure_eq_some] at hrun
    obtain ⟨_, _, ⟨rfl, rfl⟩, rfl, rfl⟩ := hrun
    refine ⟨i, report, built, hbuild, fun attrs heq => ?_⟩
    rw [heq] at htree
    cases htree

end LiveMarkup
