import LiveMarkup.Proofs.HeldWrites
import LiveMarkup.Proofs.SingleRound
import LiveMarkup.Proofs.View

namespace LiveMarkup

namespace Page

variable {p q : Page} {n : NodeId} {path : PropertyPath}

/-- The node is a busy element that answers for the property and does not connect. -/
structure Drops (p : Page) (n : NodeId) (path : PropertyPath) : Prop where
  busy : p.IsBusy n
  settled : n ∉ p.connecting
  declares : p.declares n path.head = true

theorem Drops.holding {edits : List Edit} (h : p.Drops n path) (hq : p.Holding edits q) : q.Drops n path where
  busy := hq.busy n h.busy
  settled := hq.connecting ▸ h.settled
  declares := (hq.declares n _ h.busy).trans h.declares

theorem Drops.setProperty (h : p.Drops n path) (v : Value) :
    p.setProperty n path v = p.warn (droppedWrite n path) := by
  obtain ⟨e, he, hbusy⟩ := h.busy
  have hconnecting : p.connecting.contains n = false := by simpa using h.settled
  exact setProperty_dropped h.declares he hbusy hconnecting v

end Page

namespace Instance

variable {depth : Nat} {i : Instance} {p q : Page} {n : NodeId}

/-- If one of the steps writes a property that the page drops, all that comes of it is a warning. -/
theorem runSteps_drops {steps : List RefreshStep} {s : RefreshStep} (hs : s ∈ steps) {slot : Slot}
    {path : PropertyPath} {value : Computation} (hop : s.op = .setProperty slot path value)
    (hn : i.node? slot = some n) (hp : p.WellNested False) (hrefresh : i.Refreshing steps p) (hwaits : p.Waits)
    (hc : p.Secludes i.component) (hdrops : p.Drops n path) {v : Value}
    (hv : p.eval i.component value.formula = .ok v) {report : Report}
    (hrun : i.runSteps (hostTo depth) steps p = some (report, q)) :
    ∃ more, q.warnings = p.warnings ++ more ∧ droppedWrite n path ∈ more := by
  induction steps generalizing p report with
  | nil => cases hs
  | cons first rest ih =>
    have hhost := hostTo_leavesWaiting depth
    obtain ⟨step, p₁, others, hexec, hrest, -⟩ := runSteps_cons.mp hrun
    have hheld := (hrefresh.holding hhost hp hwaits hexec).1
    have hwarned := Page.Holding.stepWarned .refresh first.op step p₁
    obtain ⟨hsteady, hnext⟩ := hrefresh.next hp hexec
    have hwaits₁ := hwarned.waits (hheld.waits hwaits)
    rcases List.mem_cons.mp hs with rfl | hs
    · rw [hop, exec_local rfl] at hexec
      simp only [execLocal, node_eq_ok.mpr hn, hv, writeProperty, Prod.mk.injEq] at hexec
      have hdropped := hexec.2.symm.trans (hdrops.setProperty (v.bound i.component))
      have hlater := hwarned.warnings.trans
        (runSteps_holding hhost (hp.steady hsteady) hnext hwaits₁ hrest).1.warnings
      obtain ⟨more, hmore⟩ := hlater
      refine ⟨droppedWrite n path :: more, ?_, List.mem_cons_self⟩
      rw [← hmore, hdropped, Page.warn, List.append_assoc]
      rfl
    · obtain ⟨before, hbefore⟩ := hheld.warnings.trans hwarned.warnings
      have hkept := exec_spares (hostTo_spares depth) hp hrefresh.prepared hc step p₁ hexec
      have hv₁ : (stepWarned .refresh first.op step p₁).eval i.component value.formula = .ok v := by
        rw [← hv]
        apply Page.eval_of_getElem?
        rw [components_stepWarned, hkept]
      obtain ⟨more, hmore, hmem⟩ := ih hs (hp.steady hsteady) hnext hwaits₁ (hc.steady hsteady)
        ((hdrops.holding hheld).holding hwarned) hv₁ hrest
      refine ⟨before ++ more, ?_, List.mem_append_right _ hmem⟩
      rw [hmore, ← hbefore, List.append_assoc]

end Instance

/-- An attribute of the root is written again when one of its dependencies has changed. -/
theorem exists_step_of_root_attribute {declared : Declarations} {maps maps' : PropertyMaps} {options : CompileOptions}
    {head : NodeHead} {children : List TemplateNode} {t : Template}
    (h : compileWith declared maps options (.node head children) = (.ok t, maps')) {name : String} {spec : ValueSpec}
    (hattribute : (name, spec) ∈ head.attributes) {dep : String} (hdep : dep ∈ spec.deps) {changed : Names}
    (hchanged : changed.contains dep = true) :
    ∃ step ∈ t.refresh.filter fun s => s.triggeredBy changed,
      step.op = (attributeTarget declared head.tag (head.namespaceIn .html) name).op 0 spec.value := by
  obtain ⟨_, _, -, -, -, rfl⟩ := compileWith_ok h
  have hplace : ((attributeTarget declared head.tag (head.namespaceIn .html) name).op 0 spec.value, spec) ∈
      ((TemplateNode.node head children).rootPlan declared options).places :=
    List.mem_map.mpr ⟨_, List.mem_map.mpr ⟨(name, spec), hattribute, rfl⟩, rfl⟩
  have hself : (TemplateNode.node head children).rootPlan declared options ∈
      ((TemplateNode.node head children).rootPlan declared options).preorder := List.mem_cons_self
  exact Plan.exists_step hself hplace hdep hchanged

/-- When a widget is flushed, what its own template writes to its declared properties is dropped with a warning, so of
its component only the changes are taken. The values are computed once these are taken. -/
theorem flush_drops_own_writes {depth : Nat} {p q : Page} {n : NodeId} {w : Widget} {i : Instance}
    {result : Except Fault Nat} (hduring : p.During (depth + 1) (.flush n)) (hw : p.widget? n = some w)
    (hshown : w.shown = some i) (hflush : (hostTo (depth + 1)).flush n p = some (result, q)) :
    (∃ k, result = .ok k) ∧ q.component w.component = (p.component w.component).clearChanges ∧
    ∀ declared maps options head children maps',
      compileWith declared maps options (.node head children) = (.ok i.template, maps') →
      ∀ name spec path v, (name, spec) ∈ head.attributes →
        attributeTarget declared head.tag (head.namespaceIn .html) name = .property path →
        p.declares n path.head = true →
        (∃ dep ∈ spec.deps, (p.component w.component).pending.contains dep = true) →
        (p.modifyComponent w.component (·.clearChanges)).eval w.component spec.value.formula = .ok v →
        ∃ more, q.warnings = p.warnings ++ more ∧ droppedWrite n path ∈ more := by
  obtain ⟨hp, hyoung⟩ := hduring.ready
  have hwaits := hduring.waits
  obtain ⟨hcomponent, hatOnce, heq⟩ := hduring.delivers_at_once hw hshown
  obtain ⟨⟨report, q'⟩, hdeliver, hanswer⟩ := Option.map_eq_some_iff.mp (heq.symm.trans hflush)
  cases hanswer
  have hlives := hp.living n w hw
  have hfree : (p.setBusy n true).access i.component = .free := hcomponent ▸ hlives.free
  refine ⟨⟨_, rfl⟩, ?_, ?_⟩
  · rw [← hcomponent]
    exact hatOnce.component hfree report q' hdeliver
  · intro declared maps options head children maps' hcompile name spec path v hattribute htarget hdeclares hdep hv
    obtain ⟨dep, hdep, hpending⟩ := hdep
    have hchanged : ((p.setBusy n true).component i.component).pending.contains dep = true := hcomponent ▸ hpending
    have hsome : ((p.setBusy n true).component i.component).pending.isEmpty = false := by
      cases hempty : ((p.setBusy n true).component i.component).pending.isEmpty with
      | false => rfl
      | true =>
        rw [Dict.contains_of_isEmpty hempty] at hchanged
        cases hchanged
    have hrun := (hatOnce.round hfree hsome).symm.trans hdeliver
    obtain ⟨step, hstep, hop⟩ := exists_step_of_root_attribute hcompile hattribute hdep hchanged
    rw [htarget] at hop
    have hcustom := Page.isCustom_of_widget? hw
    obtain ⟨hp', hbusy', hyoung'⟩ := hp.setBusy hcustom hyoung
    have hw' := ((p.alike_setBusy n true).widget? n).trans hw
    have hdrops : (p.setBusy n true).Drops n path :=
      ⟨hbusy', fun hn => Nat.lt_irrefl n (hyoung n (hwaits.busy n hn)), (p.declares_setBusy ..).trans hdeclares⟩
    have hc : (p.setBusy n true).Secludes i.component := hcomponent ▸ hp.secludes_setBusy hw
    have hprep := Instance.prepared_refresh hp' hw' hshown hbusy' hyoung'
    have hclear := (p.setBusy n true).steady_clear i.component
    have htaken := Page.Holding.modifyComponent (p.setBusy n true) i.component (·.clearChanges)
    have hv' : ((p.setBusy n true).modifyComponent i.component (·.clearChanges)).eval i.component spec.value.formula =
        .ok v := hcomponent ▸ hv
    have hwarned := Instance.runSteps_drops hstep hop (hlives.shown i hshown).root (hp'.steady hclear)
      ((Instance.Refreshing.start hprep _).steady hclear) (htaken.waits (hwaits.setBusy hcustom)) (hc.steady hclear)
      (hdrops.holding htaken) hv' hrun
    exact hwarned

/-- A caption whose own title is its heading. -/
def sampleCaption : TemplateNode :=
  .node { NodeHead.ofTag "x-caption" with attributes := [("title", .property "heading")] } [.text (.property "title")]

def sampleCaptionTemplate : Template :=
  .ofPlan { createRoot := false } sampleCaption.size (sampleCaption.rootPlan (fun _ => none) { createRoot := false })

def sampleCaptionBlueprint : Blueprint :=
  ⟨"caption", [("heading", .fixed (.text "a")), ("title", .fixed .null)], []⟩

def sampleCaptionPage : Page :=
  { Page.empty with
    registry := Dict.empty.insert "x-caption"
      ⟨sampleCaptionBlueprint.propNames, .widget sampleCaptionTemplate sampleCaptionBlueprint⟩ }

theorem sampleCaption_compiles :
    ∃ maps', compileWith (fun _ => none) .empty { createRoot := false } sampleCaption =
      (.ok sampleCaptionTemplate, maps') :=
  ⟨_, rfl⟩

theorem sampleCaptionPage_reached : sampleCaptionPage.Reached := by
  obtain ⟨maps', hcompile⟩ := sampleCaption_compiles
  have hdefine : Page.empty.defineWidget "x-caption" sampleCaptionTemplate sampleCaptionBlueprint =
      .ok (true, sampleCaptionPage) := rfl
  have hempty : Page.empty.Reached := .start rfl fun tag d hd => nomatch hd
  exact hempty.define ⟨_, _, _, _, maps', hcompile⟩ hdefine

/-- What there is to know of a caption: whether it answers for its title, whether its heading has changed, and what
its heading and its title are. -/
structure CaptionFacts where
  declares : Bool
  pending : Bool
  heading : Option String
  title : String
deriving DecidableEq

def Page.captionFacts? (p : Page) (n : NodeId) : Option CaptionFacts :=
  (p.widget? n).map fun w => ⟨p.declares n "title", (p.component w.component).pending.contains "heading",
    ((p.eval w.component (ValueSpec.property "heading").value.formula).map Value.display).toOption,
    ((p.component w.component).get "title").display⟩

/-- Creates a caption, gives it another heading and flushes it. Tells the answer and the facts before and after. -/
def sampleRecaptioning : Act (Except Fault Nat × Option CaptionFacts × Option CaptionFacts) := do
  let n ← createElement "x-caption" .html
  modify (·.setProperty n (.single "heading") (.text "b"))
  let before := (← get).captionFacts? n
  let result ← flushNested n
  return (result, before, (← get).captionFacts? n)

theorem sampleRecaptioning_result :
    (sampleRecaptioning sampleCaptionPage).map (·.1) =
      some (.ok 2, some ⟨true, true, some "b", "a"⟩, some ⟨true, false, some "b", "a"⟩) := by
  decide +kernel

/-- A caption on a page between requests that has been given the heading `b` since its title became `a`. -/
structure Recaptioned (p q : Page) (n : NodeId) (w : Widget) (i : Instance) (v : Value) : Prop where
  reached : p.Reached
  quiet : p.Quiet
  widget : p.widget? n = some w
  shown : w.shown = some i
  template : i.template = sampleCaptionTemplate
  declares : p.declares n "title" = true
  pending : (p.component w.component).pending.contains "heading" = true
  heading : p.eval w.component (ValueSpec.property "heading").value.formula = .ok v ∧ v.display = "b"
  flush : flushNested n p = some (.ok 2, q)
  title : ((q.component w.component).get "title").display = "a"

theorem sampleRecaptioning_exists : ∃ p q n w i v, Recaptioned p q n w i v := by
  obtain ⟨⟨answers, _⟩, hrun, hanswers⟩ := Option.map_eq_some_iff.mp sampleRecaptioning_result
  simp only [sampleRecaptioning, Act.bind_eq_some, Act.modify_eq_some, Act.get_eq_some, Act.pure_eq_some] at hrun
  obtain ⟨n, p₁, hcreate, _, p, hp, _, _, ⟨rfl, rfl⟩, result, q, hflush, _, _, ⟨rfl, rfl⟩, rfl, rfl⟩ := hrun
  simp only [Prod.mk.injEq] at hanswers
  obtain ⟨rfl, hbefore, hafter⟩ := hanswers
  have hquiet : sampleCaptionPage.Quiet := ⟨rfl, rfl⟩
  have hnested := sampleCaptionPage_reached.sound.1.wellNested
  obtain ⟨-, t, initial, i, found, r, hkind, -, hw₁, htemplate, -⟩ := createElementWith_lands
    (hostTo_leavesWaiting 1) hnested (.of_quiet hquiet) rfl (withHost_eq_some.mp hcreate)
  cases hkind
  have hcreation := Request.create "x-caption" .html
  have hreached₁ := sampleCaptionPage_reached.request hcreation hcreate
  have hwriting := Request.write n (.single "heading") (.text "b")
  have hwrite : withHost (fun _ => modify (·.setProperty n (.single "heading") (.text "b"))) p₁ = some ((), p) :=
    withHost_eq_some.mpr (Act.modify_eq_some.mpr hp)
  have hquiet₁ := hquiet.request sampleCaptionPage_reached hcreation hcreate
  have hreached := hreached₁.request hwriting hwrite
  have hw := (Page.setProperty_touched hreached₁.sound.1.wellNested n (.single "heading") (.text "b")).steady.widget? n
  rw [hp, hw₁] at hw
  have hhost : (hostTo p.nesting).Flushes False := hostTo_flushes p.nesting
  have hflushed := hhost.flush n p _ q (withHost_eq_some.mp hflush) hreached.sound.1.wellNested
    fun m hm => absurd hm (hreached.sound.1.calm m)
  simp only [Page.captionFacts?, hw, hflushed.steady.widget? n, Option.map_some, Option.some.injEq,
    CaptionFacts.mk.injEq] at hbefore hafter
  obtain ⟨hdeclares, hpending, hheading, -⟩ := hbefore
  cases hv : p.eval sampleCaptionPage.components.size (ValueSpec.property "heading").value.formula with
  | error f =>
    rw [hv] at hheading
    cases hheading
  | ok v =>
    rw [hv] at hheading
    exact ⟨p, q, n, _, i, v, hreached, hquiet₁.request hreached₁ hwriting hwrite, hw, rfl, htemplate, hdeclares,
      hpending, ⟨hv, Option.some.inj hheading⟩, hflush, hafter.2.2.2⟩

/-- The title of a caption is not its heading once the caption has been flushed. -/
theorem flush_loses_title_of_sampleCaption :
    ∃ p q n w i v maps', p.Reached ∧ p.Quiet ∧ p.widget? n = some w ∧ w.shown = some i ∧
      compileWith (fun _ => none) .empty { createRoot := false } sampleCaption = (.ok i.template, maps') ∧
      attributeTarget (fun _ => none) "x-caption" .html "title" = .property (.single "title") ∧
      p.declares n "title" = true ∧ (p.component w.component).pending.contains "heading" = true ∧
      p.eval w.component (ValueSpec.property "heading").value.formula = .ok v ∧ v.display = "b" ∧
      flushNested n p = some (.ok 2, q) ∧ ((q.component w.component).get "title").display = "a" := by
  obtain ⟨p, q, n, w, i, v, h⟩ := sampleRecaptioning_exists
  obtain ⟨maps', hcompile⟩ := sampleCaption_compiles
  exact ⟨p, q, n, w, i, v, maps', h.reached, h.quiet, h.widget, h.shown, h.template ▸ hcompile, rfl, h.declares,
    h.pending, h.heading.1, h.heading.2, h.flush, h.title⟩

theorem flush_drops_own_writes_sampleCaption :
    ∃ p q n w i v, Recaptioned p q n w i v ∧ q.component w.component = (p.component w.component).clearChanges ∧
      ∃ more, q.warnings = p.warnings ++ more ∧ droppedWrite n (.single "title") ∈ more := by
  obtain ⟨p, q, n, w, i, v, h⟩ := sampleRecaptioning_exists
  obtain ⟨maps', hcompile⟩ := sampleCaption_compiles
  obtain ⟨-, hcomponent, hdropped⟩ := flush_drops_own_writes (.flush h.reached h.quiet n) h.widget h.shown
    (withHost_eq_some.mp h.flush)
  have hheading := (Page.eval_modifyComponent (ValueSpec.FromLanguage.property "heading").ofProperties
    (f := (·.clearChanges)) (fun _ => rfl) p w.component).trans h.heading.1
  exact ⟨p, q, n, w, i, v, h, hcomponent, hdropped _ _ _ _ _ maps' (h.template ▸ hcompile) "title"
    (.property "heading") (.single "title") v List.mem_cons_self rfl h.declares
    ⟨"heading", List.mem_cons_self, h.pending⟩ hheading⟩

end LiveMarkup
