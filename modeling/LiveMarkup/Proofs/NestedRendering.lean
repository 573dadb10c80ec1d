import LiveMarkup.Proofs.FreshView
import LiveMarkup.Proofs.PendingWidgets
import LiveMarkup.Proofs.TemplateSpecs
import LiveMarkup.Proofs.WidgetMoves

namespace LiveMarkup

variable {t : Template} {plan : Plan} {p : Page} {text : String}

/-- No value that the template asks for is a callback. -/
def TemplateNode.CallbackFree (node : TemplateNode) (c : Component) : Prop :=
  ∀ spec ∈ node.specs, ∀ v, spec.evalIn c.get = .ok v → v.Inert

/-- All values that the template asks for can be computed. -/
def TemplateNode.Evaluates (node : TemplateNode) (c : Component) : Prop :=
  ∀ spec ∈ node.specs, ∃ v, spec.evalIn c.get = .ok v

/-- What a node is by itself: its text, or its tag with attributes and properties. -/
def Document.own? (d : Document) (n : NodeId) : Option Tree :=
  (d.kind? n).map fun kind => kind.tree []

/-- The tag is defined as a widget whose template creates no further ones. No two attributes of an element have
one target, all values come from the expression language, and at first none is a callback. -/
structure Page.DefinesLeaf (p : Page) (tag : String) (node : TemplateNode) (t : Template) : Prop where
  defined : ∃ d initial, p.registry.get? tag = some d ∧ d.kind = .widget t initial ∧
    ∀ p' : Page, node.CallbackFree (p'.make initial).1
  compiled : ∃ declared maps options maps', compileWith declared maps options node = (.ok t, maps') ∧
    node.DistinctTargets declared .html ∧ ∀ tag', (declared tag').isSome → p.Defines tag'
  plain : ∀ tag' ∈ t.createdTags, ¬p.Defines tag'
  language : ∀ spec ∈ node.specs, spec.FromLanguage

theorem Plan.exists_slot {k s : Nat} (h : plan.NumberedFrom k) (hs : s < plan.size) :
    ∃ sub ∈ plan.preorder, sub.slot = k + s := by
  rw [← Plan.length_preorder] at hs
  have hget : plan.preorder[s]? = some plan.preorder[s] := List.getElem?_eq_getElem hs
  exact ⟨_, List.mem_of_getElem? hget, Plan.slot_of_preorder h hget⟩

/-- The plan of a template, which says for every node below the root what it shows. -/
theorem Template.planned_of_compileWith {declared : Declarations} {maps maps' : PropertyMaps}
    {options : CompileOptions} {node : TemplateNode} (h : compileWith declared maps options node = (.ok t, maps'))
    (hdistinct : node.DistinctTargets declared .html) (hundeclared : ∀ tag ∈ t.createdTags, declared tag = none)
    (hlanguage : ∀ spec ∈ node.specs, spec.FromLanguage) :
    ∃ plan, t.Planned plan ∧ ∀ sub ∈ plan.preorder, ∀ place ∈ sub.places, place.2 ∈ node.specs := by
  have htends : t.Tends fun _ => False := Template.tends_of_compileWith h fun _ hfalse => hfalse.elim
  obtain ⟨head, children, rfl, -, hleaves, rfl⟩ := compileWith_ok h
  have hnumbered := TemplateNode.rootPlan_numbered declared options hleaves
  have hspecs := TemplateNode.rootPlan_specs declared options hleaves
  refine ⟨_, ⟨rfl, rfl, hnumbered.1, ?_, fun sub hsub hs => ?_, fun sub hsub _ place hplace => ?_⟩, hspecs⟩
  · rw [Template.ofPlan, length_numberedSlots]
    exact hnumbered.2
  · refine TemplateNode.rootPlan_separate_of_undeclared options hdistinct sub hsub ?_
    cases sub with
    | text slot spec => trivial
    | element planHead plans =>
      intro hns
      -- only the root is adopted
      cases hcreated : planHead.created with
      | true =>
        have hop := planHead.mem_build_of_created hcreated
        rw [hns] at hop
        exact hundeclared _ (Template.mem_createdTags (Plan.mem_build.mpr (Or.inl ⟨_, hsub, hop⟩)))
      | false =>
        have hop : .adoptRoot planHead.slot ∈ planHead.build := by
          rw [PlanHead.build, hcreated]
          exact List.mem_cons_self
        exact absurd (htends.adopted _ (Plan.mem_build.mpr (Or.inl ⟨_, hsub, hop⟩))).1 hs
  · exact hlanguage _ (hspecs sub hsub place hplace)

/-- A template that adopts its root can be built on a plain node, and shows the component as it is. -/
theorem Template.instantiate_current {strict : Prop} {c : ComponentId} {r : NodeId} (sink : Sink)
    (hp : p.WellNested strict) (hplan : t.Planned plan) (htends : t.Tends (p.Tended strict))
    (hadopts : t.createsRoot = false) (hplain : ∀ tag ∈ t.createdTags, ¬p.Defines tag) (hr : p.document.has r = true)
    (hcustom : p.isCustom r = false) (hc : c < p.components.size) (hfree : p.access c = .free)
    (hinert : plan.CallbackFree (p.component c).get) :
    ∃ i report q, t.instantiate c (some r) sink p = some (.ok (i, report), q) ∧ i.component = c ∧
      i.BoundBelow t.slotNames.length ∧ i.Current plan q ∧ (q.component c).props = (p.component c).props := by
  have hobstacle : t.obstacle? c (some r) p = none := by simp [Template.obstacle?, hadopts, hr, hfree]
  obtain ⟨i, report, q, hbuild⟩ := instantiate_returns sink hp htends hobstacle
    fun tag htag => Page.nestsFinitely_of_not_defines (hplain tag htag)
  have hbuild' := withHost_eq_some.mp hbuild
  obtain ⟨_, _, heq, -, -, hcomponent, hbound⟩ := buildOn_underway (hostTo_creates _) (hostTo_flushes _) hp htends
    hobstacle hbuild'
  cases heq
  obtain ⟨hcurrent, -, hstate⟩ := buildOn_inner hp hplan htends hadopts
    (fun s tag hop => hplain tag (mem_createdTags hop)) (Or.inr hcustom) hc hfree hinert hbuild'
  exact ⟨i, report, q, hbuild, hcomponent, hbound, hcurrent, Component.props_of_state hstate⟩

/-- Two instances that show components with the same properties look the same below their roots. -/
theorem Instance.Current.own?_eq {i i' : Instance} {q : Page} (h : i.Current plan p) (h' : i'.Current plan q)
    (hread : (q.component i'.component).get = (p.component i.component).get) {sub : Plan} (hsub : sub ∈ plan.preorder)
    (hs : sub.slot ≠ 0) (hok : ∀ place ∈ sub.places, ∃ v, place.2.evalIn (p.component i.component).get = .ok v)
    {m m' : NodeId} (hm : i.node? sub.slot = some m) (hm' : i'.node? sub.slot = some m') :
    ∃ tree, p.document.own? m = some tree ∧ q.document.own? m' = some tree := by
  obtain ⟨kind, hkind, hshown⟩ := h sub hsub hs m hm
  obtain ⟨kind', hkind', hshown'⟩ := h' sub hsub hs m' hm'
  rw [hread] at hshown'
  refine ⟨kind.tree [], ?_, ?_⟩
  · rw [Document.own?, hkind]
    rfl
  · rw [Document.own?, hkind', hshown.tree_eq hshown' hok]
    rfl

/-- The plan of a widget without further widgets. -/
theorem Page.DefinesLeaf.makesLeaf {tag : String} {node : TemplateNode} (h : p.DefinesLeaf tag node t) :
    ∃ plan, p.MakesLeaf tag t plan ∧ ∀ sub ∈ plan.preorder, ∀ place ∈ sub.places, place.2 ∈ node.specs := by
  obtain ⟨declared, maps, options, maps', hcompile, hdistinct, hdeclared⟩ := h.compiled
  have hundeclared : ∀ tag' ∈ t.createdTags, declared tag' = none := by
    intro tag' htag'
    by_contra hne
    exact h.plain tag' htag' (hdeclared tag' (Option.isSome_iff_ne_none.mpr hne))
  obtain ⟨plan, hplan, hspecs⟩ := Template.planned_of_compileWith hcompile hdistinct hundeclared h.language
  obtain ⟨d, initial, hd, hkind, hfree⟩ := h.defined
  refine ⟨plan, ⟨hplan, fun s tag' hop => h.plain tag' (Template.mem_createdTags hop), d, initial, hd, hkind, ?_⟩,
    hspecs⟩
  exact fun p' sub hsub _ place hplace v hv => hfree p' place.2 (hspecs sub hsub place hplace) v hv

/-- A template that counts the elements with a tag as nested components displays those it has created. -/
theorem Template.instantiate_displays {built : List Instance} (hp : p.Sound False built) {tag : String}
    {t' : Template} (hmakes : p.MakesLeaf tag t' plan) (ht : t.CompiledFor (· = tag)) {c : ComponentId}
    (hc : c < p.components.size) {root : Option NodeId} {sink : Sink} {o : Instance} {report : Report} {q : Page}
    (hbuild : t.instantiate c root sink p = some (.ok (o, report), q)) {s : Slot}
    (hs : .createElement s tag .html ∈ t.build) :
    ∃ n i, i.template = t' ∧ o.Displays False s n i plan q ∧
      (plan.CallbackFree (q.component i.component).get → i.Noted plan q) := by
  have htends : t.Tends (p.Tended False) := Template.CompiledFor.tends (ht.mono fun _ htag => htag.1.elim)
  obtain ⟨hunder, htemplate, hcomponent, hheld⟩ := instantiate_underway hp.wellNested htends hbuild
  obtain ⟨n, i, hn, htemplate', hleaf, habreast⟩ := (buildOn_embeds hp.wellNested htends hmakes
    (withHost_eq_some.mp hbuild)).widget hs
  have hcreates : o.template.Creates s := htemplate.symm ▸ htends.creates _ hs s rfl nofun
  have hsound := hp.grown hunder.grown
  refine ⟨n, i, htemplate', ⟨hsound.wellNested, hsound.calm, hheld, hunder.hosts hcreates hn, hleaf, ?_, ?_⟩,
    habreast.noted⟩
  · rw [htemplate]
    exact (ht.tends.nested s tag .html hs rfl).2
  · obtain ⟨w, hw, -, hhoused⟩ := hleaf.housed hsound.wellNested
    have hnew := hunder.grown.owned n w ((hunder.created_iff hn).mp hcreates) hw
    rw [hcomponent, hhoused.component]
    exact Nat.ne_of_lt (Nat.lt_of_lt_of_le hc hnew)

theorem Document.own?_of_text? {d : Document} {n : NodeId} (h : d.text? n = some text) :
    d.own? n = some (.text text) := by
  unfold Document.text? at h
  split at h
  next s parent children hnode =>
    cases h
    rw [own?, kind?, hnode]
    rfl
  · cases h

theorem sampleItem_callbackFree {c : Component} (h : (c.get "label").asText? = some text) :
    sampleItem.CallbackFree c := by
  intro spec hspec v hv
  cases List.mem_singleton.mp hspec
  cases hv
  change (c.get "label").Inert
  cases hlabel : c.get "label" with
  | callback f =>
    rw [hlabel] at h
    cases h
  | _ => trivial

theorem sampleShelfPage_definesLeaf : sampleShelfPage.DefinesLeaf "x-item" sampleItem sampleItemTemplate where
  defined := by
    refine ⟨⟨["label"], _⟩, ⟨"item", [("label", .fixed .null)], []⟩, rfl, rfl, fun p' spec hspec v hv => ?_⟩
    cases List.mem_singleton.mp hspec
    cases hv
    exact trivial
  compiled := by
    refine ⟨fun _ => none, .empty, { createRoot := false }, _, rfl, ⟨List.nodup_nil, trivial, trivial⟩, ?_⟩
    intro tag' hsome
    cases hsome
  plain := nofun
  language spec hspec := by
    cases List.mem_singleton.mp hspec
    exact .property "label"

theorem sampleShelfPage_live : sampleShelfPage.Live (fun _ _ => False) [] := by
  refine .start rfl fun tag d hd => ?_
  have hregistry : sampleShelfPage.registry = Dict.empty.insert "x-item"
      ⟨["label"], .widget sampleItemTemplate ⟨"item", [("label", .fixed .null)], []⟩⟩ := rfl
  rw [hregistry, Dict.get?_insert] at hd
  split at hd
  · cases hd
    exact ⟨_, _, rfl, rfl, fun _ => none, .empty, { createRoot := false }, sampleItem, _, rfl, fun _ h => h.elim⟩
  · cases hd

/-- A shelf that does not count its item as a nested component. -/
def sampleBareShelfTemplate : Template :=
  .ofPlan { nested := .none } sampleShelf.size
    (sampleShelf.rootPlan sampleShelfPage.registry.declared { nested := .none })

/-- What becomes of a shelf whose item gets another label. -/
structure SampleRelabelling where
  shelf : List (Option NodeId)
  item : Option (List (Option NodeId))
  component : Option ComponentId
  labels : List (Option String)
  shown : Option String
  ready : Bool
  rebuilt : List (Option NodeId)
  reshown : Option String
deriving DecidableEq

/-- The item gets the label "b". -/
def sampleRelabel : OuterMove :=
  .write (.single "label") (.text "b")

/-- Whether the item's template can be built on the shelf for the item's component. -/
def sampleReady (c : ComponentId) (p : Page) : Bool :=
  p.document.has 0 && !p.isCustom 0 && c < p.components.size && p.access c = .free

/-- Builds a shelf, gives its item another label and refreshes the shelf. At last the item's template is
built on the shelf for the item's component. -/
def sampleRelabelling (t : Template) : Act (Option SampleRelabelling) := do
  match ← t.instantiate 0 none .warnings with
  | .error _ => return none
  | .ok (o, _) =>
    let built ← get
    sampleRelabel.run o 1
    let written ← get
    OuterMove.run o 1 (.refresh Dict.empty)
    let refreshed ← get
    match ← sampleItemTemplate.instantiate 1 (some 0) .warnings with
    | .error _ => return none
    | .ok (i, _) => return some {
        shelf := o.slots
        item := built.shownSlots 1
        component := (built.widget? 1).map (·.component)
        labels := [built, written, refreshed].map fun p => ((p.component 1).get "label").asText?
        shown := refreshed.document.text? 2
        ready := sampleReady 1 refreshed
        rebuilt := i.slots
        reshown := (← get).document.text? 3 }

/-- What is found if the item shows a text at last. -/
def SampleRelabelling.expected (text : String) : SampleRelabelling where
  shelf := [some 0, some 1]
  item := some [some 1, some 2]
  component := some 1
  labels := [some "a", some "b", some "b"]
  shown := some text
  ready := true
  rebuilt := [some 0, some 3]
  reshown := some "b"

theorem sampleRelabelling_nested :
    (sampleRelabelling sampleShelfTemplate sampleShelfPage).map (·.1) = some (some (.expected "b")) := by
  decide +kernel

theorem sampleRelabelling_bare :
    (sampleRelabelling sampleBareShelfTemplate sampleShelfPage).map (·.1) = some (some (.expected "")) := by
  decide +kernel

/-- What happened to the shelf, its item and the item's template. -/
theorem sampleRelabelling_run (h : (sampleRelabelling t sampleShelfPage).map (·.1) = some (some (.expected text))) :
    ∃ o report q₀ w i q i₂ report₂ q₂, t.instantiate 0 none .warnings sampleShelfPage = some (.ok (o, report), q₀) ∧
      o.node? 1 = some 1 ∧ q₀.widget? 1 = some w ∧ w.shown = some i ∧ i.node? 1 = some 2 ∧
      runOuterMoves o 1 ([sampleRelabel] ++ [.refresh Dict.empty]) q₀ = some ((), q) ∧
      (∀ before, before <+: [sampleRelabel] ++ [.refresh Dict.empty] → ∀ q',
        runOuterMoves o 1 before q₀ = some ((), q') → sampleItem.CallbackFree (q'.component w.component)) ∧
      q.document.own? 2 = some (.text text) ∧ sampleReady w.component q = true ∧
      sampleItemTemplate.instantiate w.component (some 0) .warnings q = some (.ok (i₂, report₂), q₂) ∧
      i₂.node? 1 = some 3 ∧ q₂.document.own? 3 = some (.text "b") := by
  obtain ⟨⟨_, _⟩, hrun, rfl⟩ := Option.map_eq_some_iff.mp h
  simp only [sampleRelabelling, Act.bind_eq_some] at hrun
  obtain ⟨made, q₀, hbuild, hrun⟩ := hrun
  cases made with
  | error e => cases (Act.pure_eq_some.mp hrun).1
  | ok made =>
    obtain ⟨o, report⟩ := made
    simp only [Act.bind_eq_some, Act.get_eq_some] at hrun
    obtain ⟨_, _, ⟨rfl, rfl⟩, _, p₁, hwrite, _, _, ⟨rfl, rfl⟩, _, q, hrefresh, _, _, ⟨rfl, rfl⟩, remade, q₂, hbuild₂,
      hrun⟩ := hrun
    cases remade with
    | error e => cases (Act.pure_eq_some.mp hrun).1
    | ok remade =>
      obtain ⟨i₂, report₂⟩ := remade
      simp only [Act.bind_eq_some, Act.get_eq_some, Act.pure_eq_some] at hrun
      obtain ⟨_, _, ⟨rfl, rfl⟩, hfound, rfl⟩ := hrun
      simp only [SampleRelabelling.expected, Option.some.injEq, SampleRelabelling.mk.injEq, List.map_cons, List.map_nil,
        List.cons.injEq, and_true] at hfound
      obtain ⟨hshelf, hitem, hcomponent, ⟨ha, hb, hb'⟩, htext, hready, hrebuilt, htext₂⟩ := hfound
      obtain ⟨w, i, hw, hshown, hslots⟩ := Page.widget_of_shownSlots hitem
      rw [hw] at hcomponent
      rw [← Option.some.inj hcomponent] at ha hb hb' hready hbuild₂
      have hone : runOuterMoves o 1 [sampleRelabel] q₀ = some ((), p₁) :=
        runOuterMoves_cons.mpr ⟨p₁, hwrite, runOuterMoves_nil.mpr rfl⟩
      have hall : runOuterMoves o 1 ([sampleRelabel] ++ [.refresh Dict.empty]) q₀ = some ((), q) :=
        runOuterMoves_append.mpr ⟨p₁, hone, runOuterMoves_cons.mpr ⟨q, hrefresh, runOuterMoves_nil.mpr rfl⟩⟩
      refine ⟨o, report, q₀, w, i, q, i₂, report₂, q₂, hbuild, ?_, hw, hshown, ?_, hall, ?_,
        Document.own?_of_text? htext, hready, hbuild₂, ?_, Document.own?_of_text? htext₂⟩
      · rw [Instance.node?, hshelf]
        rfl
      · rw [Instance.node?, hslots]
        rfl
      · intro before hbefore q' hq'
        rcases List.prefix_cons_iff.mp hbefore with rfl | ⟨rest, rfl, hrest⟩
        · cases runOuterMoves_nil.mp hq'
          exact sampleItem_callbackFree ha
        rcases List.prefix_cons_iff.mp hrest with rfl | ⟨_, rfl, hnil⟩
        · cases hone.symm.trans hq'
          exact sampleItem_callbackFree hb
        · cases List.prefix_nil.mp hnil
          cases hall.symm.trans hq'
          exact sampleItem_callbackFree hb'
      · rw [Instance.node?, hrebuilt]
        rfl

/-- A widget without further widgets, in a template that counts it as a nested component, is up to date after
every refresh. Whatever happened to the outer component and was written to the widget, the nodes below its
root are then what a new build of its template for a component with the same properties gives. What receives the
failures is taken to leave the components alone (`Receiver.LeavesComponents`). -/
theorem refresh_renders_nested_widget {p : Page} {built : List Instance} (hp : p.Live (fun _ _ => False) built)
    {tag : String} {node : TemplateNode} {t' : Template} (hwidget : p.DefinesLeaf tag node t') {t : Template}
    (ht : t.CompiledFor (· = tag)) {c : ComponentId} (hc : c < p.components.size) {root : Option NodeId} {sink : Sink}
    {o : Instance} {report : Report} {q₀ : Page} (hbuild : t.instantiate c root sink p = some (.ok (o, report), q₀))
    {s : Slot} (hs : .createElement s tag .html ∈ t.build) :
    ∃ n w i, o.node? s = some n ∧ q₀.widget? n = some w ∧ w.shown = some i ∧ i.template = t' ∧
      ∀ (moves : List OuterMove) (changed : Names),
        ∃ q, runOuterMoves o n (moves ++ [.refresh changed]) q₀ = some ((), q) ∧ q.widget? n = some w ∧
          ((∀ before, before <+: moves ++ [.refresh changed] → ∀ q', runOuterMoves o n before q₀ = some ((), q') →
              node.CallbackFree (q'.component w.component)) →
            node.Evaluates (q.component w.component) →
            ∀ (p₂ : Page) (built₂ : List Instance) (c₂ : ComponentId) (r : NodeId) (sink₂ : Sink),
              p₂.Live (fun _ _ => False) built₂ → (∀ tag' ∈ t'.createdTags, ¬p₂.Defines tag') →
              p₂.document.has r = true → p₂.isCustom r = false → c₂ < p₂.components.size → p₂.access c₂ = .free →
              (p₂.component c₂).props = (q.component w.component).props →
              ∃ i₂ report₂ q₂, t'.instantiate c₂ (some r) sink₂ p₂ = some (.ok (i₂, report₂), q₂) ∧
                ∀ s', s' ≠ 0 → s' < t'.slotNames.length → ∃ m m₂ tree, i.node? s' = some m ∧
                  i₂.node? s' = some m₂ ∧ q.document.own? m = some tree ∧ q₂.document.own? m₂ = some tree) := by
  have hloose : ∀ (p : Page) (tag : String), p.Tended False tag → False := fun _ _ htag => htag.1
  have hsound : p.Sound False built := hp.sound hloose
  obtain ⟨plan, hmakes, hspecs⟩ := hwidget.makesLeaf
  obtain ⟨n, i, rfl, hdisplays, hnoted⟩ := Template.instantiate_displays hsound hmakes ht hc hbuild hs
  obtain ⟨w, hw, hshown, hhoused⟩ := hdisplays.leaf.housed hdisplays.wellNested
  refine ⟨n, w, i, hdisplays.hosts.node, hw, hshown, rfl, fun moves changed => ?_⟩
  obtain ⟨q, hrun, hsteady, hcurrent⟩ := hdisplays.runMoves_refresh hnoted moves changed
  refine ⟨q, hrun, (hsteady.widget? n).trans hw, fun hfree hok p₂ built₂ c₂ r sink₂ hp₂ hplain₂ hr hcustom hc₂ hfree₂
    hprops => ?_⟩
  rw [← hhoused.component] at hfree hok hprops
  have hcallbacks : ∀ c : Component, node.CallbackFree c → plan.CallbackFree c.get :=
    fun c hc sub hsub _ place hplace v hv => hc place.2 (hspecs sub hsub place hplace) v hv
  have hread : (p₂.component c₂).get = (q.component i.component).get := Component.get_congr hprops
  have hsound₂ : p₂.Sound False built₂ := hp₂.sound hloose
  have hinert : plan.CallbackFree (p₂.component c₂).get := by
    rw [hread]
    exact hcallbacks _ (hfree _ List.prefix_rfl q hrun)
  obtain ⟨declared, maps, options, maps', hcompile, -⟩ := hwidget.compiled
  have htends₂ : i.template.Tends (p₂.Tended False) :=
    Template.tends_of_compileWith hcompile fun _ htag => (hloose _ _ htag).elim
  obtain ⟨i₂, report₂, q₂, hbuild₂, rfl, hbound₂, hcurrent₂, hprops₂⟩ := Template.instantiate_current sink₂
    hsound₂.wellNested hmakes.planned htends₂ hhoused.adopts hplain₂ hr hcustom hc₂ hfree₂ hinert
  refine ⟨i₂, report₂, q₂, hbuild₂, fun s' hs' hlt => ?_⟩
  obtain ⟨sub, hsub, hslot⟩ := Plan.exists_slot hmakes.planned.numbered (hmakes.planned.size.symm ▸ hlt)
  rw [Nat.zero_add] at hslot
  subst hslot
  obtain ⟨m, hm⟩ := hdisplays.leaf.bound _ hlt
  obtain ⟨m₂, hm₂⟩ := hbound₂ _ hlt
  have hm := Instance.node_eq_ok.mp hm
  have hm₂ := Instance.node_eq_ok.mp hm₂
  have hcurrent := hcurrent fun before hbefore q' hq' => hcallbacks _ (hfree before hbefore q' hq')
  obtain ⟨tree, htree, htree₂⟩ := hcurrent.own?_eq hcurrent₂ ((Component.get_congr hprops₂).trans hread) hsub hs'
    (fun place hplace => hok place.2 (hspecs sub hsub place hplace)) hm hm₂
  exact ⟨m, m₂, tree, hm, hm₂, htree, htree₂⟩

theorem refresh_renders_nested_widget_sampleShelf : ∃ o report q₀ w i q i₂ report₂ q₂,
    sampleShelfPage.Live (fun _ _ => False) [] ∧
    sampleShelfPage.DefinesLeaf "x-item" sampleItem sampleItemTemplate ∧
    sampleShelfTemplate.CompiledFor (· = "x-item") ∧
    sampleShelfTemplate.instantiate 0 none .warnings sampleShelfPage = some (.ok (o, report), q₀) ∧
    .createElement 1 "x-item" .html ∈ sampleShelfTemplate.build ∧
    o.node? 1 = some 1 ∧ q₀.widget? 1 = some w ∧ w.shown = some i ∧
    runOuterMoves o 1 ([sampleRelabel] ++ [.refresh Dict.empty]) q₀ = some ((), q) ∧
    (∀ before, before <+: [sampleRelabel] ++ [.refresh Dict.empty] → ∀ q',
      runOuterMoves o 1 before q₀ = some ((), q') → sampleItem.CallbackFree (q'.component w.component)) ∧
    sampleItem.Evaluates (q.component w.component) ∧
    sampleItemTemplate.instantiate w.component (some 0) .warnings q = some (.ok (i₂, report₂), q₂) ∧
    ∃ m m₂ tree, i.node? 1 = some m ∧ i₂.node? 1 = some m₂ ∧ q.document.own? m = some tree ∧
      q₂.document.own? m₂ = some tree := by
  obtain ⟨o, report, q₀, w, i, q, _, _, _, hbuild, hn, hw, hshown, -, hrun, hfree, -, hready, -⟩ :=
    sampleRelabelling_run sampleRelabelling_nested
  have hcompiled : sampleShelfTemplate.CompiledFor (· = "x-item") :=
    ⟨sampleShelfPage.registry.declared, .empty, {}, sampleShelf, _, rfl, by rintro _ rfl; decide⟩
  have hlive : q.Live (fun _ _ => False) [o] :=
    (sampleShelfPage_live.build (hcompiled.mono fun _ h => h.elim) hbuild).runOuterMoves List.mem_cons_self hrun
  have hcreate : .createElement 1 "x-item" .html ∈ sampleShelfTemplate.build :=
    List.mem_of_getElem? (i := 1) rfl
  have hok : sampleItem.Evaluates (q.component w.component) := by
    intro spec hspec
    cases List.mem_singleton.mp hspec
    exact ⟨_, rfl⟩
  obtain ⟨_, _, _, hn', hw', hshown', -, hmoves⟩ := refresh_renders_nested_widget sampleShelfPage_live
    sampleShelfPage_definesLeaf hcompiled (by decide) hbuild hcreate
  cases hn.symm.trans hn'
  cases hw.symm.trans hw'
  cases hshown.symm.trans hshown'
  obtain ⟨_, hrun', -, hrenders⟩ := hmoves [sampleRelabel] Dict.empty
  cases hrun.symm.trans hrun'
  simp only [sampleReady, Bool.and_eq_true, Bool.not_eq_true', decide_eq_true_eq] at hready
  obtain ⟨⟨⟨hhas, hcustom⟩, hsize⟩, hidle⟩ := hready
  obtain ⟨i₂, report₂, q₂, hbuild₂, hsame⟩ := hrenders hfree hok q [o] w.component 0 .warnings hlive nofun hhas hcustom
    hsize hidle rfl
  exact ⟨o, report, q₀, w, i, q, i₂, report₂, q₂, sampleShelfPage_live, sampleShelfPage_definesLeaf, hcompiled, hbuild,
    hcreate, hn, hw, hshown, hrun, hfree, hok, hbuild₂, hsame 1 Nat.one_ne_zero (by decide)⟩

/-- A widget that the template around it does not count as a nested component can be out of date after a
refresh. -/
theorem refresh_misses_uncounted_widget : ∃ o report q₀ w i q i₂ report₂ q₂ m m₂ tree tree₂,
    sampleShelfPage.Live (fun _ _ => False) [] ∧
    sampleShelfPage.DefinesLeaf "x-item" sampleItem sampleItemTemplate ∧
    sampleBareShelfTemplate.Compiled ∧
    sampleBareShelfTemplate.instantiate 0 none .warnings sampleShelfPage = some (.ok (o, report), q₀) ∧
    .createElement 1 "x-item" .html ∈ sampleBareShelfTemplate.build ∧
    o.node? 1 = some 1 ∧ q₀.widget? 1 = some w ∧ w.shown = some i ∧
    runOuterMoves o 1 ([sampleRelabel] ++ [.refresh Dict.empty]) q₀ = some ((), q) ∧
    (∀ before, before <+: [sampleRelabel] ++ [.refresh Dict.empty] → ∀ q',
      runOuterMoves o 1 before q₀ = some ((), q') → sampleItem.CallbackFree (q'.component w.component)) ∧
    sampleItem.Evaluates (q.component w.component) ∧
    sampleItemTemplate.instantiate w.component (some 0) .warnings q = some (.ok (i₂, report₂), q₂) ∧
    i.node? 1 = some m ∧ i₂.node? 1 = some m₂ ∧ q.document.own? m = some tree ∧
    q₂.document.own? m₂ = some tree₂ ∧ tree ≠ tree₂ := by
  obtain ⟨o, report, q₀, w, i, q, i₂, report₂, q₂, hbuild, hn, hw, hshown, hm, hrun, hfree, htree, -, hbuild₂, hm₂,
    htree₂⟩ := sampleRelabelling_run sampleRelabelling_bare
  refine ⟨o, report, q₀, w, i, q, i₂, report₂, q₂, 2, 3, .text "", .text "b",
    sampleShelfPage_live, sampleShelfPage_definesLeaf, ?_, hbuild, List.mem_of_getElem? (i := 1) rfl, hn, hw, hshown,
    hrun, hfree, ?_, hbuild₂, hm, hm₂, htree, htree₂, by simp⟩
  · exact ⟨sampleShelfPage.registry.declared, .empty, { nested := .none }, sampleShelf, _, rfl⟩
  · intro spec hspec
    cases List.mem_singleton.mp hspec
    exact ⟨_, rfl⟩

end LiveMarkup
