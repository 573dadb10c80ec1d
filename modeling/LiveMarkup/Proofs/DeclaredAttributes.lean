import LiveMarkup.Proofs.InnerBuild
import LiveMarkup.Proofs.ResolutionHistory
import LiveMarkup.Proofs.SuppliedWidgets

namespace LiveMarkup

variable {t : Template} {p q : Page} {value : Computation} {name tag : String} {i : Instance} {head : PlanHead}
  {children : List Plan} {n : NodeId}

/-- An attribute that names a declared property sets it, unless the schema has another property for the name. -/
theorem attributeTarget_declared {declared : Declarations} {properties : List String}
    (hdeclared : declared tag = some properties) (hname : name ∈ properties)
    (hunique : ∀ other ∈ properties, lowerCase other = lowerCase name → other = name) :
    attributeTarget declared tag .html name =
      .property ((schemaPath? tag .html (lowerCase name)).getD (.single name)) := by
  have hfind : properties.find? (fun other => lowerCase other == lowerCase name) = some name := by
    cases hfound : properties.find? fun other => lowerCase other == lowerCase name with
    | none => exact absurd (beq_self_eq_true _) (List.find?_eq_none.mp hfound name hname)
    | some other =>
      have hkey := List.find?_some hfound
      rw [hunique other (List.mem_of_find?_eq_some hfound) (eq_of_beq hkey)]
  have hresolved : resolvedPath? (declared tag) tag .html name =
      some ((schemaPath? tag .html (lowerCase name)).getD (.single name)) := by
    rw [resolvedPath?, if_neg (by simp), PropertyMap.get?_ofTag_eq, hdeclared]
    cases schemaPath? tag .html (lowerCase name) with
    | some path => rfl
    | none => rw [declaredPath?, Option.getD_some, hfind]; rfl
  rw [attributeTarget, hresolved]

namespace Plan

variable {plan : Plan} {k : Nat} {t : Target}

/-- The writes to an element are those of its attributes. -/
theorem exists_attribute_of_build (hnum : plan.NumberedFrom k) (hsub : .element head children ∈ plan.preorder)
    (hop : t.op head.slot value ∈ plan.build) :
    ∃ a ∈ head.attributes, a.1 = t ∧ a.2.value = value := by
  refine PlanHead.exists_attribute ?_
  rw [← written_build hnum hsub]
  exact List.mem_filterMap.mpr ⟨_, hop, Op.written?_eq_some.mpr rfl⟩

theorem exists_attribute_of_refresh (hnum : plan.NumberedFrom k) (hsub : .element head children ∈ plan.preorder)
    {changed : Names} {step : RefreshStep}
    (hstep : step ∈ plan.refresh.filter fun s => s.triggeredBy changed) (hop : step.op = t.op head.slot value) :
    ∃ a ∈ head.attributes, a.1 = t ∧ a.2.value = value := by
  have hmem : value ∈ ((head.specsFor t).filter (·.dependsOn changed)).map (·.value) := by
    rw [← written_refresh hnum hsub]
    exact List.mem_filterMap.mpr ⟨step, hstep, Op.written?_eq_some.mpr hop⟩
  obtain ⟨spec, hspec, rfl⟩ := List.mem_map.mp hmem
  exact PlanHead.exists_attribute (List.mem_map_of_mem (List.mem_of_mem_filter hspec))

end Plan

/-- The attribute of an element that alone sets a property feeds it. -/
theorem Template.feeds_of_compileWith {declared : Declarations} {maps maps' : PropertyMaps} {options : CompileOptions}
    {node : TemplateNode} (h : compileWith declared maps options node = (.ok t, maps'))
    (hplanned : .element head children ∈ (node.rootPlan declared options).preorder) (hns : head.ns = .html)
    {spec : ValueSpec} (hattribute : (.property (.single name), spec) ∈ head.attributes)
    (halone : ∀ a ∈ head.attributes, a.1.key = name → a = (.property (.single name), spec)) :
    t.Feeds head.slot head.tag name spec.value := by
  obtain ⟨_, _, rfl, -, hleaves, rfl⟩ := compileWith_ok h
  have hnum := (TemplateNode.rootPlan_numbered declared options hleaves).1
  have hwrite : ∀ {target : Target} {value : Computation}, target.key = name →
      (∃ a ∈ head.attributes, a.1 = target ∧ a.2.value = value) →
      target.op head.slot value = .setProperty head.slot (.single name) spec.value := by
    rintro target value hkey ⟨a, ha, rfl, rfl⟩
    rw [halone a ha hkey]
    rfl
  refine ⟨fun op hop hbound => ?_, ?_, ?_, ?_⟩
  · have heq := Plan.bind_op hnum hplanned hop hbound
    rw [hns] at heq
    cases hcreated : head.created with
    | true => exact Or.inl (heq.trans (if_pos hcreated))
    | false => exact Or.inr (heq.trans (if_neg (hcreated ▸ Bool.false_ne_true)))
  · exact Plan.place_mem_build hplanned (List.mem_map_of_mem hattribute)
  · rintro op hop ⟨target, value, rfl, hkey⟩
    exact hwrite hkey (Plan.exists_attribute_of_build hnum hplanned hop)
  · rintro changed step hstep ⟨target, value, heq, hkey⟩
    exact heq.trans (hwrite hkey (Plan.exists_attribute_of_refresh hnum hplanned hstep heq))

theorem Template.buildOn_of_instantiate {c : ComponentId} {root : Option NodeId} {sink : Sink}
    {result : Except BuildError (Instance × Report)} (h : t.instantiate c root sink p = some (result, q)) :
    t.buildOn (hostTo p.nesting) c root sink p = some (result, q) :=
  withHost_eq_some.mp h

namespace Template.Feeds

variable {s : Slot}

/-- Every build, from outside or of the template of a widget. -/
theorem build {depth : Nat} {c : ComponentId} {root : Option NodeId} {sink : Sink} {report : Report} {d : Definition}
    (h : t.Feeds s tag name value) (hduring : p.During depth (.build (t.unbuilt c sink) root t.build))
    (hd : p.registry.get? tag = some d) (hname : name ∈ d.properties) (hc : p.Secludes c)
    (hlt : c < p.components.size) (hroot : .adoptRoot s ∈ t.build → ∀ r, root = some r → p.Receives r name)
    (hbuild : t.buildOn (hostTo depth) c root sink p = some (.ok (i, report), q)) :
    ∃ before after n w, t.build = before ++ .setProperty s (.single name) value :: after ∧ i.Owns s n ∧
      q.widget? n = some w ∧ (q.exposing c (p.exposedBy i before)).Supplied c value w.component name ∧
      (value.formula.OfProperties → q.Supplied c value w.component name) := by
  obtain ⟨hp, hbuilding⟩ := hduring.ready
  have htends : t.Tends (p.Tended False) := p.tended_false ▸ hbuilding.tends
  have hobstacle := obstacle?_of_buildOn hbuild
  obtain ⟨_, _, heq, -, htemplate, hcomponent, hbound⟩ := buildOn_underway (hostTo_creates depth) (hostTo_flushes depth) hp
    htends hobstacle hbuild
  cases heq
  have hslot : s < t.slotNames.length := htends.sequence.mentions_lt _ h.writes s (List.mem_singleton_self s)
  obtain ⟨n, hn⟩ := hbound s hslot
  rw [Instance.node_eq_ok] at hn
  obtain ⟨i', _, hrun, -, rfl⟩ := runBuild_of_buildOn hbuild
  have hnone := t.node?_unbuilt c sink
  have hstart : p.Supplying depth root s tag name value [] t.build (t.unbuilt c sink) p :=
    ⟨hduring, h, rfl, hc, .start hlt, ⟨d, hd, hname⟩, fun _ => hroot, fun m hm => by rw [hnone] at hm; cases hm⟩
  obtain ⟨howns, before, after, w, hsplit, hw, hsupplied⟩ := hstart.supplied hrun hn
  rw [show i'.template = t from htemplate] at hsplit
  rw [show i'.component = c from hcomponent] at hsupplied
  refine ⟨before, after, n, w, hsplit, ⟨hn, howns.alone⟩, hw, hsupplied, fun hproperties v hv => ?_⟩
  rw [← q.props_exposing c]
  exact hsupplied v ((Page.eval_exposing hproperties ..).trans hv)

/-- Every refresh of an instance on a page, if the attribute is due. -/
theorem refresh {built : List Instance} {changed : Names} (h : i.template.Feeds s tag name value) (hp : p.Hosted built)
    (hi : i ∈ built) (hn : i.node? s = some n) (hdeclares : p.declares n name = true)
    (hdue : ∃ step ∈ i.template.refresh.filter fun step => step.triggeredBy changed,
      step.op = .setProperty s (.single name) value) :
    ∃ report q w, withHost (fun host => i.refresh host changed) p = some (report, q) ∧ q.widget? n = some w ∧
      q.Supplied i.component value w.component name := by
  obtain ⟨hsound, houter⟩ := hp.sound
  have hwell := hsound.wellNested
  have hheld := hsound.held i hi
  have hspread := hp.spread i hi
  have howns : i.Owns s n := by
    refine ⟨hn, fun s' hs' => ?_⟩
    by_contra hne
    exact hspread s' s n n hne hs' hn .refl
  obtain ⟨report, q, hrefresh⟩ := Instance.refresh_returns hwell hsound.calm hheld changed
  obtain ⟨w, hw, hsupplied⟩ := Instance.runSteps_supplies hwell (houter i hi).secludes howns
    (Instance.prepared_held hheld hsound.calm changed)
    (fun step _ s' m _ hs hm => hspread s s' n m hs.symm hn hm) False.elim (h.again changed)
    (.start hwell ⟨hdeclares, hsound.calm n⟩ fun _ => And.left) hrefresh (Or.inr hdue)
  exact ⟨report, q, w, withHost_eq_some.mpr hrefresh, hw, hsupplied⟩

/-- Every flush of a widget that shows the template, if the attribute is due. -/
theorem flush {depth : Nat} {m : NodeId} {v : Widget} {result : Except Fault Nat}
    (h : i.template.Feeds s tag name value) (hduring : p.During (depth + 1) (.flush m))
    (hv : p.widget? m = some v) (hshown : v.shown = some i) (hs : s ≠ 0) (hn : i.Owns s n)
    (hdeclares : p.declares n name = true) (hpending : (p.component v.component).pending.isEmpty = false)
    (hdue : ∃ step ∈ i.template.refresh.filter fun step => step.triggeredBy (p.component v.component).pending,
      step.op = .setProperty s (.single name) value)
    (hflush : (hostTo (depth + 1)).flush m p = some (result, q)) :
    ∃ w, q.widget? n = some w ∧ q.Supplied v.component value w.component name := by
  obtain ⟨hp, hyoung⟩ := hduring.ready
  have hhoused := (hp.living m v hv).shown i hshown
  obtain ⟨hcomponent, hatOnce, heq⟩ := hduring.delivers_at_once hv hshown
  obtain ⟨hp', hbusy', hyoung'⟩ := hp.setBusy (Page.isCustom_of_widget? hv) hyoung
  have halike := p.alike_setBusy m true
  have hv' := (halike.widget? m).trans hv
  have hc : (p.setBusy m true).Secludes i.component := hcomponent ▸ hp.secludes_setBusy hv
  have hinside : p.Inside m n := ⟨v, i, s, hv, hshown, hs, hn.node⟩
  have hlt := (hp.inside_bounds hinside).1
  have hreceives : (p.setBusy m true).Receives n name := by
    refine ⟨(p.declares_setBusy m true n name).trans hdeclares, fun hbusy => ?_⟩
    exact Nat.not_le.mpr hlt (hyoung' n hbusy)
  -- what the steps flush besides the widget itself are its siblings
  have hapart : ∀ step ∈ i.template.refresh.filter fun s => s.triggeredBy (p.component v.component).pending,
      ∀ s' k, step.op = .flushNested s' → s' ≠ s → i.node? s' = some k → ¬(p.setBusy m true).Within k n := by
    intro step hstep s' k hop hne hk hwithin
    rw [halike.within] at hwithin
    rcases hwithin.cases_tail with rfl | ⟨b, hwithin, hb⟩
    · exact hne (hn.alone s' hk)
    · have hmk := (Instance.toFlush_bounds hhoused ⟨step, List.mem_of_mem_filter hstep, s', hop, hk⟩).1
      exact Nat.not_le.mpr hmk (hp.unique b m n hb hinside ▸ hp.within_le hwithin)
  have hfree : (p.setBusy m true).access i.component = .free := hcomponent ▸ (hp.living m v hv).free
  obtain ⟨⟨report, q₂⟩, hdeliver, hanswer⟩ := Option.map_eq_some_iff.mp (heq.symm.trans hflush)
  cases hanswer
  rw [← hcomponent] at hdue hpending hapart
  have hrefresh := (hatOnce.round hfree hpending).symm.trans hdeliver
  have hclear := (p.setBusy m true).steady_clear i.component
  obtain ⟨w, hw, hsupplied⟩ := Instance.runSteps_supplies (hp'.steady hclear) (hc.steady hclear) hn
    ((Instance.prepared_refresh hp' hv' hshown hbusy' hyoung' _).steady hclear) (hclear.within ▸ hapart) False.elim
    (h.again _) (.start (hp'.steady hclear) (hreceives.steady hclear rfl) fun _ => And.left) hrefresh (Or.inr hdue)
  exact ⟨w, ((Page.alike_setBusy _ m false).widget? n).trans hw, hcomponent ▸ hsupplied⟩

end Template.Feeds

/-- Of the attributes of an element this one alone sets the property that it names. -/
def NodeHead.AloneSets (head : NodeHead) (declared : Declarations) (name : String) (spec : ValueSpec) : Prop :=
  (name, spec) ∈ head.attributes ∧
    ∀ a ∈ head.attributes, (attributeTarget declared head.tag .html a.1).key = name → a = (name, spec)

/-- An attribute that names a declared property of a widget resolves to what the schema has for the name, and to the
declared property if it has nothing. Where that is the declared property itself, the widget has the value of the
attribute after every build of the template, and after every refresh or flush that the attribute is due in. A build
computes the value when it comes to the attribute, for the component with what it exposes by then, and this makes no
difference to values of properties only. -/
theorem declared_attribute_reaches_widget {declared : Declarations} {maps maps' : PropertyMaps}
    {options : CompileOptions} {node : TemplateNode} {t : Template}
    (hcompile : compileWith declared maps options node = (.ok t, maps')) {head : NodeHead} {s : Slot} {created : Bool}
    {inherited : Namespace} {children : List Plan}
    (hplanned : .element (head.plan declared options s created inherited) children ∈
      (node.rootPlan declared options).preorder)
    (hns : head.namespaceIn inherited = .html) {d : Definition} (hdeclared : declared head.tag = some d.properties)
    {name : String} (hname : name ∈ d.properties)
    (hunique : ∀ other ∈ d.properties, lowerCase other = lowerCase name → other = name) {spec : ValueSpec}
    (halone : head.AloneSets declared name spec) :
    attributeTarget declared head.tag .html name =
      .property ((schemaPath? head.tag .html (lowerCase name)).getD (.single name)) ∧
    ((∀ path, schemaPath? head.tag .html (lowerCase name) = some path → path = .single name) →
      (∀ depth p c root sink i report q, p.During depth (.build (t.unbuilt c sink) root t.build) →
        p.registry.get? head.tag = some d → p.Secludes c → c < p.components.size →
        (created = false → ∀ r, root = some r → p.Receives r name) →
        t.buildOn (hostTo depth) c root sink p = some (.ok (i, report), q) →
        ∃ before after n w, t.build = before ++ .setProperty s (.single name) spec.value :: after ∧ i.Owns s n ∧
          q.widget? n = some w ∧ (q.exposing c (p.exposedBy i before)).Supplied c spec.value w.component name ∧
          (spec.value.formula.OfProperties → q.Supplied c spec.value w.component name)) ∧
      (∀ p built i changed n, p.Hosted built → i ∈ built → i.template = t → i.node? s = some n →
        p.declares n name = true → spec.dependsOn changed = true →
        ∃ report q w, withHost (fun host => i.refresh host changed) p = some (report, q) ∧ q.widget? n = some w ∧
          q.Supplied i.component spec.value w.component name) ∧
      ∀ depth p m v i n result q, p.During (depth + 1) (.flush m) → p.widget? m = some v → v.shown = some i →
        i.template = t → s ≠ 0 → i.Owns s n → p.declares n name = true →
        spec.dependsOn (p.component v.component).pending = true →
        (hostTo (depth + 1)).flush m p = some (result, q) →
        ∃ w, q.widget? n = some w ∧ q.Supplied v.component spec.value w.component name) := by
  have htarget := attributeTarget_declared hdeclared hname hunique
  refine ⟨htarget, fun hschema => ?_⟩
  have hpath : (schemaPath? head.tag .html (lowerCase name)).getD (.single name) = .single name := by
    cases hfound : schemaPath? head.tag .html (lowerCase name) with
    | none => rfl
    | some path => exact hschema path hfound
  rw [hpath] at htarget
  have hmem : (.property (.single name), spec) ∈ (head.plan declared options s created inherited).attributes :=
    List.mem_map.mpr ⟨_, halone.1, by rw [hns, htarget]⟩
  have hfeeds : t.Feeds s head.tag name spec.value := by
    refine Template.feeds_of_compileWith hcompile hplanned hns hmem fun a ha hkey => ?_
    obtain ⟨a', ha', rfl⟩ := List.mem_map.mp ha
    rw [hns] at hkey ⊢
    rw [halone.2 a' ha' hkey, htarget]
  obtain ⟨_, _, rfl, -, hleaves, ht⟩ := compileWith_ok hcompile
  have hdue : ∀ {changed : Names}, spec.dependsOn changed = true →
      ∃ step ∈ t.refresh.filter fun step => step.triggeredBy changed,
        step.op = .setProperty s (.single name) spec.value := by
    intro changed hdepends
    obtain ⟨dep, hdep, hchanged⟩ := List.any_eq_true.mp hdepends
    rw [ht]
    exact Plan.exists_step hplanned (List.mem_map_of_mem hmem) hdep hchanged
  refine ⟨?_, ?_, ?_⟩
  · intro depth p c root sink i report q hduring hd hc hlt hroot hbuild
    refine hfeeds.build hduring hd hname hc hlt (fun hadopt => hroot ?_) hbuild
    have hnum := (TemplateNode.rootPlan_numbered declared options hleaves).1
    have hcreate := Plan.bind_op hnum hplanned (ht ▸ hadopt) rfl
    cases created with
    | true => cases hcreate
    | false => rfl
  · rintro p built i changed n hp hi rfl hn hdeclares hdepends
    exact hfeeds.refresh hp hi hn hdeclares (hdue hdepends)
  · rintro depth p m v i n result q hduring hv hshown rfl hs hn hdeclares hdepends hflush
    refine hfeeds.flush hduring hv hshown hs hn hdeclares ?_ (hdue hdepends) hflush
    obtain ⟨dep, -, hchanged⟩ := List.any_eq_true.mp hdepends
    refine Bool.eq_false_of_not_eq_true fun hempty => ?_
    rw [Dict.contains_of_isEmpty hempty] at hchanged
    cases hchanged

theorem createElementWith_of_createElement {ns : Namespace} (h : createElement tag ns p = some (n, q)) :
    createElementWith (hostTo p.registry.size) tag ns p = some (n, q) :=
  withHost_eq_some.mp h

/-- An item whose label is a property of the component around it. -/
def sampleLabelled (source : String) : NodeHead :=
  { NodeHead.ofTag "x-item" with attributes := [("label", .property source)] }

theorem sampleLabelled_alone (declared : Declarations) (source : String) :
    (sampleLabelled source).AloneSets declared "label" (.property source) :=
  ⟨List.mem_singleton_self _, fun _ ha _ => List.mem_singleton.mp ha⟩

def sampleItemDefinition : Definition :=
  ⟨["label"], .widget sampleItemTemplate ⟨"item", [("label", .fixed .null)], []⟩⟩

theorem sampleItem_schema : schemaPath? "x-item" .html (lowerCase "label") = none := by
  decide +kernel

theorem sampleShelvesPage_reached : sampleShelvesPage.Reached := by
  refine .start rfl fun tag d hd => ?_
  have hregistry : sampleShelvesPage.registry = Dict.empty.insert "x-item" sampleItemDefinition := rfl
  rw [hregistry, Dict.get?_insert] at hd
  by_cases htag : tag = "x-item"
  · rw [if_pos htag] at hd
    cases hd
    exact ⟨_, _, rfl, rfl, fun _ => none, .empty, { createRoot := false }, sampleItem, _, rfl, fun _ h => h.elim⟩
  · rw [if_neg htag] at hd
    cases hd

/-- The label of the item at the node. -/
def Page.labelAt (p : Page) (n : NodeId) : Option String :=
  (p.widget? n).bind fun w => ((p.component w.component).props.get? "label").map Value.display

/-- What there is to know of a labelled item in an instance, before and after an update: whether anything waits, which
nodes the instance has, whether that of the item answers for a label, whether the update will write it, and the label
before and after. -/
structure LabelFacts where
  quiet : Bool
  nodes : Option (List (Option NodeId))
  declares : Bool
  due : Bool
  before : Option String
  after : Option String
deriving DecidableEq

/-- Builds a shelf, gives it another name and refreshes it. -/
def sampleShelfRelabelled : Act (Option LabelFacts) := do
  match ← sampleShelfTemplate.instantiate 0 none .warnings with
  | .error _ => return none
  | .ok (i, _) =>
    let built ← get
    modify (·.modifyComponent 0 (·.set "name" (.text "b")))
    let p ← get
    let _ ← withHost fun host => i.refresh host (p.component 0).pending
    let q ← get
    return some ⟨p.connecting.isEmpty && p.deferred.isEmpty, some i.slots, p.declares 1 "label",
      (ValueSpec.property "name").dependsOn (p.component 0).pending, built.labelAt 1, q.labelAt 1⟩

theorem sampleShelfRelabelled_result : (sampleShelfRelabelled sampleShelvesPage).map (·.1) =
    some (some ⟨true, some [some 0, some 1], true, true, some "a", some "b"⟩) := by
  decide +kernel

/-- Creates a box, gives it a label and flushes it. -/
def sampleBoxRelabelled : Act (Option LabelFacts) := do
  let box ← createElement "x-box" .html
  modify (·.setProperty box (.single "label") (.text "b"))
  let p ← get
  let _ ← flushNested box
  let q ← get
  return (p.widget? box).map fun v => ⟨p.connecting.isEmpty && p.deferred.isEmpty, v.shown.map (·.slots),
    p.declares 1 "label", (ValueSpec.property "label").dependsOn (p.component v.component).pending, p.labelAt 1,
    q.labelAt 1⟩

theorem sampleBoxRelabelled_result : (sampleBoxRelabelled sampleCratePage).map (·.1) =
    some (some ⟨true, some [some 0, some 1], true, true, some "", some "b"⟩) := by
  decide +kernel

/-- What the run with the shelf comes to: the shelf was built on the page `built`, and `p` is the page once it has its
new name. -/
structure RelabelledShelf (i : Instance) (report : Report) (built p : Page) (refreshed : Report) (q : Page) : Prop where
  build : sampleShelfTemplate.instantiate 0 none .warnings sampleShelvesPage = some (.ok (i, report), built)
  template : i.template = sampleShelfTemplate
  component : i.component = 0
  slots : i.slots = [some 0, some 1]
  hosted : p.Hosted [i]
  declares : p.declares 1 "label" = true
  due : (ValueSpec.property "name").dependsOn (p.component 0).pending = true
  refresh : withHost (fun host => i.refresh host (p.component 0).pending) p = some (refreshed, q)
  before : built.labelAt 1 = some "a"
  after : q.labelAt 1 = some "b"

theorem sampleShelf_relabelled : ∃ i report built p refreshed q, RelabelledShelf i report built p refreshed q := by
  obtain ⟨⟨facts, _⟩, hrun, hfacts⟩ := Option.map_eq_some_iff.mp sampleShelfRelabelled_result
  simp only [sampleShelfRelabelled, Act.bind_eq_some] at hrun
  obtain ⟨result, built, hbuild, hrun⟩ := hrun
  cases result with
  | error e =>
    obtain ⟨rfl, -⟩ := Act.pure_eq_some.mp hrun
    cases hfacts
  | ok result =>
    obtain ⟨i, report⟩ := result
    simp only [Act.bind_eq_some, Act.get_eq_some, Act.modify_eq_some, Act.pure_eq_some] at hrun
    obtain ⟨_, _, ⟨rfl, rfl⟩, _, p, rfl, _, _, ⟨rfl, rfl⟩, refreshed, q, hrefresh, _, _, ⟨rfl, rfl⟩, rfl, -⟩ := hrun
    simp only [Option.some.injEq, LabelFacts.mk.injEq] at hfacts
    obtain ⟨-, hslots, hdeclares, hdue, hbefore, hafter⟩ := hfacts
    obtain ⟨htemplate, hcomponent, hosted, -⟩ := sampleShelf_renamed hbuild
    exact ⟨i, report, built, _, refreshed, q, hbuild, htemplate, hcomponent, hslots, hosted, hdeclares, hdue, hrefresh,
      hbefore, hafter⟩

/-- What the run with the box comes to: `p` is the page once the box has its label. -/
structure RelabelledBox (p : Page) (m : NodeId) (v : Widget) (i : Instance) (result : Except Fault Nat) (q : Page) :
    Prop where
  during : p.During (p.registry.size + 1) (.flush m)
  widget : p.widget? m = some v
  shown : v.shown = some i
  template : i.template = sampleBoxTemplate
  slots : i.slots = [some 0, some 1]
  declares : p.declares 1 "label" = true
  due : (ValueSpec.property "label").dependsOn (p.component v.component).pending = true
  flush : (hostTo (p.registry.size + 1)).flush m p = some (result, q)
  after : q.labelAt 1 = some "b"

theorem sampleBox_relabelled : ∃ p m v i result q, RelabelledBox p m v i result q := by
  obtain ⟨⟨facts, _⟩, hrun, hfacts⟩ := Option.map_eq_some_iff.mp sampleBoxRelabelled_result
  simp only [sampleBoxRelabelled, Act.bind_eq_some, Act.modify_eq_some, Act.get_eq_some, Act.pure_eq_some] at hrun
  obtain ⟨m, p₁, hcreate, _, p, hp, _, _, ⟨rfl, rfl⟩, result, q, hflush, _, _, ⟨rfl, rfl⟩, rfl, -⟩ := hrun
  obtain ⟨v, hv, hfacts⟩ := Option.map_eq_some_iff.mp hfacts
  simp only [LabelFacts.mk.injEq, Bool.and_eq_true, List.isEmpty_iff, Option.map_eq_some_iff] at hfacts
  obtain ⟨hquiet, ⟨i, hshown, hslots⟩, hdeclares, hdue, -, hafter⟩ := hfacts
  have hcreated := sampleCratePage_reached.request (.create "x-box" .html) hcreate
  have hwrite : withHost (fun _ => modify (·.setProperty m (.single "label") (.text "b"))) p₁ = some ((), p) :=
    withHost_eq_some.mpr (Act.modify_eq_some.mpr hp)
  have htemplate : i.template = sampleBoxTemplate := by
    obtain ⟨-, t, initial, i', -, -, hkind, -, hw, ht, -⟩ := createElementWith_lands (hostTo_leavesWaiting _)
      sampleCratePage_reached.sound.1.wellNested (.of_quiet ⟨rfl, rfl⟩) rfl
      (createElementWith_of_createElement hcreate)
    cases hkind
    have hsteady := (Page.setProperty_touched hcreated.sound.1.wellNested m (.single "label") (.text "b")).steady
    rw [hp] at hsteady
    cases hv.symm.trans ((hsteady.widget? m).trans hw)
    cases hshown
    exact ht
  exact ⟨p, m, v, i, result, q, .flush (hcreated.request (.write m _ _) hwrite) hquiet m, hv, hshown, htemplate, hslots,
    hdeclares, hdue, withHost_eq_some.mp hflush, hafter⟩

theorem Instance.owns_item (h : i.slots = [some 0, some 1]) : i.Owns 1 1 := by
  refine ⟨by rw [node?, h]; rfl, fun s hs => ?_⟩
  rw [node?, h] at hs
  rcases s with - | - | s
  · cases hs
  · rfl
  · cases hs

theorem declared_attribute_reaches_widget_samples :
    (∃ i report built n w, sampleShelvesPage.Reached ∧ sampleShelvesPage.IsOuter 0 ∧
      sampleShelfTemplate.instantiate 0 none .warnings sampleShelvesPage = some (.ok (i, report), built) ∧
      i.Owns 1 n ∧ built.widget? n = some w ∧
      built.Supplied 0 (ValueSpec.property "name").value w.component "label" ∧ built.labelAt n = some "a" ∧
      ∃ p changed refreshed q w, p.Hosted [i] ∧ p.declares n "label" = true ∧
        withHost (fun host => i.refresh host changed) p = some (refreshed, q) ∧ q.widget? n = some w ∧
        q.Supplied 0 (ValueSpec.property "name").value w.component "label" ∧ q.labelAt n = some "b") ∧
    ∃ depth p m v i n result q w, p.During (depth + 1) (.flush m) ∧ p.widget? m = some v ∧ v.shown = some i ∧
      i.template = sampleBoxTemplate ∧ i.Owns 1 n ∧ p.declares n "label" = true ∧
      (hostTo (depth + 1)).flush m p = some (result, q) ∧ q.widget? n = some w ∧
      q.Supplied v.component (ValueSpec.property "label").value w.component "label" ∧ q.labelAt n = some "b" := by
  have hreaches : ∀ (t : Template) (node : TemplateNode) (options : CompileOptions) (source : String),
      (∃ maps', compileWith sampleShelfPage.registry.declared .empty options node = (.ok t, maps')) →
      .element ((sampleLabelled source).plan sampleShelfPage.registry.declared options 1 true .html) [] ∈
        (node.rootPlan sampleShelfPage.registry.declared options).preorder → _ :=
    fun t node options source ⟨_, hcompile⟩ hplanned =>
      (declared_attribute_reaches_widget hcompile hplanned rfl (d := sampleItemDefinition) rfl
        (List.mem_singleton_self "label") (fun other hother _ => List.mem_singleton.mp hother)
        (sampleLabelled_alone _ source)).2 fun path hpath => by
          cases sampleItem_schema.symm.trans hpath
  constructor
  · obtain ⟨hbuilds, hrefreshes, -⟩ := hreaches sampleShelfTemplate sampleShelf {} "name" ⟨_, rfl⟩
      (List.mem_cons_of_mem _ List.mem_cons_self)
    obtain ⟨i, report, built, p, refreshed, q, hrun⟩ := sampleShelf_relabelled
    have hitem := Instance.owns_item hrun.slots
    have houter : sampleShelvesPage.IsOuter 0 := sampleShelvesPage_outer (by decide)
    obtain ⟨_, _, n, w, -, howns, hw, -, hsupplied⟩ := hbuilds _ sampleShelvesPage 0 none .warnings i report built
      (.build sampleShelvesPage_reached ⟨rfl, rfl⟩ sampleShelfTemplate_compiled rfl .warnings) rfl houter.secludes
      houter.known nofun (Template.buildOn_of_instantiate hrun.build)
    cases howns.node.symm.trans hitem.node
    obtain ⟨refreshed', q', w', hrefresh, hw', hsupplied'⟩ := hrefreshes p [i] i _ 1 hrun.hosted List.mem_cons_self
      hrun.template hitem.node hrun.declares hrun.due
    cases hrun.refresh.symm.trans hrefresh
    rw [hrun.component] at hsupplied'
    exact ⟨i, report, built, 1, w, sampleShelvesPage_reached, houter, hrun.build, hitem, hw,
      hsupplied (ValueSpec.FromLanguage.property "name").ofProperties, hrun.before, p, _, refreshed, q, w', hrun.hosted,
      hrun.declares, hrefresh, hw', hsupplied', hrun.after⟩
  · obtain ⟨-, -, hflushes⟩ := hreaches sampleBoxTemplate sampleBox { createRoot := false } "label" ⟨_, rfl⟩
      (List.mem_cons_of_mem _ List.mem_cons_self)
    obtain ⟨p, m, v, i, result, q, hrun⟩ := sampleBox_relabelled
    have hitem := Instance.owns_item hrun.slots
    obtain ⟨w, hw, hsupplied⟩ := hflushes _ p m v i 1 result q hrun.during hrun.widget hrun.shown hrun.template
      (by decide) hitem hrun.declares hrun.due hrun.flush
    exact ⟨_, p, m, v, i, 1, result, q, w, hrun.during, hrun.widget, hrun.shown, hrun.template, hitem, hrun.declares,
      hrun.flush, hw, hsupplied, hrun.after⟩

/-- A widget that declares its class. -/
def sampleRibbon : TemplateNode :=
  .node (.ofTag "x-ribbon") []

def sampleRibbonTemplate : Template :=
  .ofPlan { createRoot := false } sampleRibbon.size (sampleRibbon.rootPlan (fun _ => none) { createRoot := false })

/-- A page with the widget and a component that has a kind. -/
def sampleRibbonPage : Page :=
  let registry := Dict.empty.insert "x-ribbon"
    ⟨["class"], .widget sampleRibbonTemplate ⟨"ribbon", [("class", .fixed (.text "plain"))], []⟩⟩
  ({ Page.empty with registry := registry }.addComponent ((Component.named "page").withProp "kind" (.text "bold"))).2

/-- A ribbon whose class is the kind of the component. -/
def sampleRibbonHead : NodeHead :=
  { NodeHead.ofTag "x-ribbon" with attributes := [("class", .property "kind")] }

def sampleRibbonHolder : Template :=
  .ofPlan {} 1 ((TemplateNode.node sampleRibbonHead []).rootPlan sampleRibbonPage.registry.declared {})

/-- Builds the ribbon. Tells whether its kind is `bold`, and its class. -/
def sampleRibbonBuilt : Act (Option (Option Bool × Option String)) := do
  match ← sampleRibbonHolder.instantiate 0 none .warnings with
  | .error _ => return none
  | .ok _ =>
    let q ← get
    return some ((q.eval 0 (ValueSpec.property "kind").value.formula).toOption.map (· == .text "bold"),
      (q.widget? 0).bind fun w => ((q.component w.component).props.get? "class").map Value.display)

theorem sampleRibbonBuilt_result : (sampleRibbonBuilt sampleRibbonPage).map (·.1) =
    some (some (some true, some "plain")) := by
  decide +kernel

theorem Value.eq_of_beq_text {v : Value} {s : String} (h : (v == .text s) = true) : v = .text s := by
  cases v with
  | text s' => exact congrArg text (eq_of_beq h)
  | _ => cases h

/-- The schema has another property for a class, so a declared one is out of reach. -/
theorem declared_class_is_out_of_reach :
    ∃ maps' i report q w, compileWith sampleRibbonPage.registry.declared .empty {} (.node sampleRibbonHead []) =
        (.ok sampleRibbonHolder, maps') ∧
      sampleRibbonPage.registry.declared "x-ribbon" = some ["class"] ∧
      sampleRibbonHead.attributes.map (·.1) = ["class"] ∧
      sampleRibbonHolder.instantiate 0 none .warnings sampleRibbonPage = some (.ok (i, report), q) ∧
      q.widget? 0 = some w ∧ ¬q.Supplied 0 (ValueSpec.property "kind").value w.component "class" := by
  obtain ⟨⟨facts, _⟩, hrun, hfacts⟩ := Option.map_eq_some_iff.mp sampleRibbonBuilt_result
  simp only [sampleRibbonBuilt, Act.bind_eq_some] at hrun
  obtain ⟨result, q, hbuild, hrun⟩ := hrun
  cases result with
  | error e =>
    obtain ⟨rfl, -⟩ := Act.pure_eq_some.mp hrun
    cases hfacts
  | ok result =>
    simp only [Act.bind_eq_some, Act.get_eq_some, Act.pure_eq_some] at hrun
    obtain ⟨_, _, ⟨rfl, rfl⟩, rfl, -⟩ := hrun
    simp only [Option.some.injEq, Prod.mk.injEq, Option.bind_eq_some_iff, Option.map_eq_some_iff] at hfacts
    obtain ⟨⟨v, hv, hbold⟩, w, hw, x, hx, hplain⟩ := hfacts
    refine ⟨_, result.1, result.2, q, w, rfl, rfl, rfl, hbuild, hw, fun hsupplied => ?_⟩
    cases Value.eq_of_beq_text hbold
    have heval : q.eval 0 (ValueSpec.property "kind").value.formula = .ok (.text "bold") := by
      cases hresult : q.eval 0 (ValueSpec.property "kind").value.formula with
      | error f =>
        rw [hresult] at hv
        cases hv
      | ok v =>
        rw [hresult] at hv
        cases hv
        rfl
    obtain ⟨y, hy, hreads⟩ := hsupplied _ heval
    cases hx.symm.trans hy
    cases Value.eq_of_beq_text (hreads.2 rfl)
    exact absurd hplain (by decide)

end LiveMarkup
