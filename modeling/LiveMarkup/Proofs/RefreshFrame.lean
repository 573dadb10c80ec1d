import LiveMarkup.Proofs.PageState
import LiveMarkup.Proofs.SlotDiscipline
import LiveMarkup.Proofs.Widgets
import Mathlib.Logic.Relation

namespace LiveMarkup

variable {p q : Page} {i : Instance} {r : Report} {n : NodeId} {root : Option NodeId}

/-- Creating elements leaves widgets only, and flushing them keeps the shape of the document too. -/
structure Host.Orderly (host : Host) : Prop where
  create : ∀ tag ns p n q, host.create tag ns p = some (n, q) → p.WidgetsOnly → q.WidgetsOnly
  flush : ∀ n p result q, host.flush n p = some (result, q) → p.WidgetsOnly → p.Keeps True q

theorem Template.Compiled.inPlace {t : Template} (ht : t.Compiled) {step : RefreshStep}
    (hstep : step ∈ t.refresh) : step.op.InPlace := by
  obtain ⟨declared, maps, options, node, maps', h⟩ := ht
  obtain ⟨sub, -, hsub⟩ := (slotDiscipline_of_compileWith h).refreshes step hstep
  generalize step.op = op at hsub
  cases op <;> trivial

namespace Instance

variable {host : Host}

theorem stepWarned_keeps (h : p.WidgetsOnly) (frame : Prop) (phase : Phase) (op : Op) (step : Step) :
    p.Keeps frame (stepWarned phase op step p) := by
  have hsame := sameState_stepWarned phase op step p
  have hdocument := document_stepWarned phase op step p
  exact ⟨h.congr hsame.registry hsame.elements, fun _ => congrArg Document.shape hdocument,
    fun _ c => congrArg Component.attachPoints (component_stepWarned phase op step p c)⟩

theorem exec_keeps (hhost : host.Orderly) {op : Op} {step : Step} (hp : p.WidgetsOnly)
    (h : i.exec host op p = some (step, q)) : p.Keeps op.InPlace q := by
  cases exec_ran h with
  | alone hop hlocal =>
    have hkeeps := i.execLocal_keeps hp op
    rw [hlocal] at hkeeps
    exact hkeeps
  | created hn => exact ⟨hhost.create _ _ p _ q hn hp, False.elim, False.elim⟩
  | unbuilt hn => exact .refl hp
  | flushed hn hflush => exact hhost.flush _ p _ q hflush hp

theorem execBuild_widgetsOnly (hhost : host.Orderly) {op : Op} {step : Step} (hp : p.WidgetsOnly)
    (h : i.execBuild host root op p = some (step, q)) : q.WidgetsOnly ∧ step.inst.template = i.template := by
  cases hop : op.bound? with
  | none =>
    rw [execBuild_inst_of_not_bound hop h]
    rw [execBuild_of_not_bound hop] at h
    exact ⟨(exec_keeps hhost hp h).widgets, rfl⟩
  | some s =>
    cases execBuild_bound hop h with
    | created hn => exact ⟨hhost.create _ _ p _ q hn hp, rfl⟩
    | adopted => exact ⟨hp, rfl⟩
    | newText value text fault => exact ⟨hp.congr rfl rfl, rfl⟩

theorem runBuild_widgetsOnly (hhost : host.Orderly) {i' : Instance} {ops : List Op} (hp : p.WidgetsOnly)
    (h : i.runBuild host root ops p = some ((i', r), q)) : q.WidgetsOnly ∧ i'.template = i.template := by
  induction ops generalizing i p r with
  | nil =>
    obtain ⟨heq, rfl⟩ := Act.pure_eq_some.mp h
    cases heq
    exact ⟨hp, rfl⟩
  | cons op rest ih =>
    obtain ⟨step, p₁, others, hstep, hrest, -⟩ := runBuild_cons.mp h
    obtain ⟨hp₁, htemplate⟩ := execBuild_widgetsOnly hhost hp hstep
    obtain ⟨hq, htemplate'⟩ := ih (stepWarned_keeps hp₁ True .build op step).widgets hrest
    exact ⟨hq, htemplate'.trans htemplate⟩

theorem runSteps_keeps (hhost : host.Orderly) {steps : List RefreshStep} (hsteps : ∀ s ∈ steps, s.op.InPlace)
    (hp : p.WidgetsOnly) (h : i.runSteps host steps p = some (r, q)) : p.Keeps True q := by
  induction steps generalizing p r with
  | nil =>
    obtain ⟨-, rfl⟩ := Act.pure_eq_some.mp h
    exact .refl hp
  | cons s rest ih =>
    obtain ⟨step, p₁, others, hstep, hrest, -⟩ := runSteps_cons.mp h
    have hexec := exec_keeps hhost hp hstep
    have hwarned := stepWarned_keeps hexec.widgets True .refresh s.op step
    have hothers := ih (fun s' hs' => hsteps s' (List.mem_cons_of_mem _ hs')) hwarned.widgets hrest
    have hop := hsteps s List.mem_cons_self
    have hfirst : p.Keeps True p₁ := ⟨hexec.widgets, fun _ => hexec.shape hop, fun _ => hexec.points hop⟩
    exact hfirst.trans (hwarned.trans hothers)

theorem refresh_keeps (hhost : host.Orderly) (hi : i.template.Compiled) {changed : Names} (hp : p.WidgetsOnly)
    (h : i.refresh host changed p = some (r, q)) : p.Keeps True q :=
  runSteps_keeps hhost (fun _ hs => hi.inPlace (List.mem_of_mem_filter hs)) hp h

theorem deliverRounds_keeps (hhost : host.Orderly) (hi : i.template.Compiled) {rounds : Nat} (hp : p.WidgetsOnly)
    (h : i.deliverRounds host rounds p = some (r, q)) : p.Keeps True q := by
  have hclear : ∀ p : Page, p.WidgetsOnly → p.Keeps True (p.modifyComponent i.component (·.clearChanges)) :=
    fun p hp => ⟨hp.congr rfl rfl, fun _ => rfl, fun _ c => p.points_modifyComponent i.component c fun _ => rfl⟩
  have hdelivered := deliverRounds_delivered h
  clear h
  induction hdelivered with
  | exhausted p => exact ⟨hp.congr rfl rfl, fun _ => rfl, fun _ _ => rfl⟩
  | postponed hbusy => exact ⟨hp.congr rfl rfl, fun _ => rfl, fun _ _ => rfl⟩
  | @idle _ p hfree hpending => exact hclear p hp
  | @round _ p _ _ _ _ hfree hpending hfirst _ ih =>
    have hcleared := hclear p hp
    have hrefresh := refresh_keeps hhost hi hcleared.widgets hfirst
    exact hcleared.trans (hrefresh.trans (ih hrefresh.widgets))

end Instance

variable {host : Host}

theorem Template.buildOn_widgetsOnly (hhost : host.Orderly) {t : Template} {c : ComponentId} {sink : Sink}
    {result : Except BuildError (Instance × Report)} (hp : p.WidgetsOnly)
    (h : t.buildOn host c root sink p = some (result, q)) :
    q.WidgetsOnly ∧ ∀ i r, result = .ok (i, r) → i.template = t := by
  cases hobstacle : t.obstacle? c root p with
  | some e =>
    simp only [buildOn, Act.bind_eq_some, Act.get_eq_some] at h
    obtain ⟨_, _, ⟨rfl, rfl⟩, h⟩ := h
    rw [hobstacle] at h
    obtain ⟨rfl, rfl⟩ := Act.pure_eq_some.mp h
    exact ⟨hp, fun i r heq => by cases heq⟩
  | none =>
    obtain ⟨i, r, hrun, rfl⟩ := (Template.buildOn_eq_some hobstacle).mp h
    obtain ⟨hq, htemplate⟩ := Instance.runBuild_widgetsOnly hhost hp hrun
    refine ⟨hq, fun i' r' heq => ?_⟩
    split at heq
    · cases heq
      exact htemplate
    · cases heq

/-- A new widget is not connected yet. -/
theorem Page.instantiate_widgetsOnly (hp : p.WidgetsOnly) {d : Definition} (hd : d.IsWidget) :
    (p.instantiate d).2.WidgetsOnly ∧ ∃ w : Widget, (p.instantiate d).1 = .widget w ∧
      w.template.Compiled ∧ w.shown = none := by
  obtain ⟨t, initial, hkind, ht⟩ := hd
  obtain ⟨c, routines, callbacks, hmake, -⟩ := p.make_frame initial
  simp only [instantiate, hkind, hmake]
  exact ⟨hp.congr rfl rfl, _, rfl, ht, rfl⟩

theorem Page.widgetsOnly_beginConnecting (hp : p.WidgetsOnly) {d : Definition} (hd : d.IsWidget) (n : NodeId) :
    (p.beginConnecting n d).WidgetsOnly := by
  obtain ⟨hmade, w, hw, hcompiled, hshown⟩ := p.instantiate_widgetsOnly hp hd
  refine hmade.add rfl rfl ?_
  rw [hw]
  exact ⟨w, rfl, hcompiled, fun i hi => by rw [hshown] at hi; cases hi⟩

theorem Page.finishConnecting_keeps (hp : p.WidgetsOnly) (n : NodeId) {w : Widget}
    (hw : (Behaviour.widget w).IsWidget) : p.Keeps True (p.finishConnecting n w) := by
  have hdropped : { p with connecting := p.connecting.dropLast }.WidgetsOnly := hp.congr rfl rfl
  have hmodified := hdropped.modifyCustom n (f := fun _ => ⟨.widget w, false⟩) fun _ _ => hw
  have hkeeps := applyDeferred_keeps hmodified n
  exact ⟨hkeeps.widgets, hkeeps.shape, hkeeps.points⟩

theorem Widget.connect_widgetsOnly (hhost : host.Orderly) {w w' : Widget} (hw : w.template.Compiled)
    (hshown : w.shown = none) {result : Except Fault Report} (hp : p.WidgetsOnly)
    (h : w.connect host n p = some ((w', result), q)) : q.WidgetsOnly ∧ (Behaviour.widget w').IsWidget := by
  simp only [connect, Act.bind_eq_some] at h
  obtain ⟨built, p₁, hbuild, h⟩ := h
  obtain ⟨hp₁, htemplate⟩ := Template.buildOn_widgetsOnly hhost hp hbuild
  cases built with
  | error e =>
    obtain ⟨heq, rfl⟩ := Act.pure_eq_some.mp h
    cases heq
    exact ⟨hp₁, w, rfl, hw, fun i hi => by simp [hshown] at hi⟩
  | ok built =>
    obtain ⟨i, r⟩ := built
    obtain ⟨heq, rfl⟩ := Act.pure_eq_some.mp h
    cases heq
    refine ⟨hp₁, _, rfl, hw, fun i' hi' => ?_⟩
    cases hi'
    rw [htemplate i r rfl]
    exact hw

theorem connectElement_widgetsOnly (hhost : host.Orderly) {tag : String} {d : Definition} (hd : d.IsWidget) {u : Unit}
    (hp : p.WidgetsOnly) (h : connectElement host tag n d p = some (u, q)) : q.WidgetsOnly := by
  obtain ⟨-, w, hw, hcompiled, hshown⟩ := p.instantiate_widgetsOnly hp hd
  obtain ⟨w', result, r, hconnect, -, told, rfl⟩ := connectElement_connect hw h
  obtain ⟨hr, hw'⟩ := Widget.connect_widgetsOnly hhost hcompiled hshown (p.widgetsOnly_beginConnecting hp hd n) hconnect
  have htold : { r with warnings := told }.WidgetsOnly := hr.congr rfl rfl
  exact (Page.finishConnecting_keeps htold n hw').widgets

theorem createElementWith_widgetsOnly (hhost : host.Orderly) {tag : String} {ns : Namespace} (hp : p.WidgetsOnly)
    (h : createElementWith host tag ns p = some (n, q)) : q.WidgetsOnly := by
  have hpushed : { p with document := p.document.push (.element (.ofTag tag ns)) }.WidgetsOnly := hp.congr rfl rfl
  obtain ⟨rfl, ⟨-, rfl⟩ | ⟨d, -, hd, hconnect⟩⟩ := createElementWith_eq_some.mp h
  · exact hpushed
  · exact connectElement_widgetsOnly hhost (hp.defined tag d hd) hpushed hconnect

theorem Widget.flush_keeps (hhost : host.Orderly) {w : Widget} (hw : ∀ i, w.shown = some i → i.template.Compiled)
    (hp : p.WidgetsOnly) (h : w.flush host p = some (r, q)) : p.Keeps True q := by
  unfold flush at h
  cases hshown : w.shown with
  | none =>
    simp only [hshown] at h
    obtain ⟨-, rfl⟩ := Act.pure_eq_some.mp h
    exact .refl hp
  | some i =>
    simp only [hshown] at h
    exact Instance.deliverRounds_keeps hhost (hw i hshown) hp h

theorem flushWith_keeps (hhost : host.Orderly) {result : Except Fault Nat} (hp : p.WidgetsOnly)
    (h : flushWith host n p = some (result, q)) : p.Keeps True q := by
  have hwidget : ∀ e, p.custom? n = some e → ∃ w, e.behaviour = .widget w := fun e he =>
    (hp.custom he).imp fun _ hw => hw.1
  obtain rfl | ⟨e, w, report, p₁, he, hw, hflush, -, rfl⟩ := flushWith_widget hwidget h
  · exact .refl hp
  · obtain ⟨w', hw', -, hshown⟩ := hp.custom he
    cases hw.symm.trans hw'
    have hbusy : p.Keeps True (p.setBusy n true) :=
      ⟨hp.modifyCustom n fun _ hb => hb, fun _ => rfl, fun _ _ => rfl⟩
    have hkeeps := Widget.flush_keeps hhost hshown hbusy.widgets hflush
    exact hbusy.trans (hkeeps.trans ⟨hkeeps.widgets.modifyCustom n fun _ hb => hb, fun _ => rfl, fun _ _ => rfl⟩)

theorem hostTo_orderly (depth : Nat) : (hostTo depth).Orderly := by
  -- an element at one depth runs its template with the services of the depth below
  induction depth with
  | zero => exact ⟨fun _ _ _ _ _ h => (by cases h), fun _ _ _ _ h => (by cases h)⟩
  | succ depth ih =>
    exact ⟨fun _ _ _ _ _ h hp => createElementWith_widgetsOnly ih hp h,
      fun _ _ _ _ h hp => flushWith_keeps ih hp h⟩

/-- One call on a page: a refresh or a delivery of an instance, a flush, a write of a property, or any
change of the components. -/
inductive Page.Call : Page → Page → Prop where
  | refresh {i : Instance} {changed : Names} {report : Report} {p q : Page} (hi : i.template.Compiled)
      (h : withHost (fun host => i.refresh host changed) p = some (report, q)) : Call p q
  | deliver {i : Instance} {report : Report} {p q : Page} (hi : i.template.Compiled)
      (h : withHost (fun host => i.deliver host) p = some (report, q)) : Call p q
  | flush {n : NodeId} {result : Except Fault Nat} {p q : Page}
      (h : flushNested n p = some (result, q)) : Call p q
  | write (p : Page) (n : NodeId) (path : PropertyPath) (v : Value) : Call p (p.setProperty n path v)
  | change (p : Page) (cells : Array Cell) : Call p { p with components := cells }

theorem Page.Call.keeps (h : p.Call q) (hp : p.WidgetsOnly) :
    q.WidgetsOnly ∧ q.document.shape = p.document.shape := by
  have hhost := hostTo_orderly p.nesting
  have hkept : p.Keeps True q → q.WidgetsOnly ∧ q.document.shape = p.document.shape :=
    fun h => ⟨h.widgets, h.shape trivial⟩
  cases h with
  | refresh hi h => exact hkept (Instance.refresh_keeps hhost hi hp (withHost_eq_some.mp h))
  | deliver hi h => exact hkept (Instance.deliverRounds_keeps hhost hi hp (withHost_eq_some.mp h))
  | flush h => exact hkept (hhost.flush _ p _ q (withHost_eq_some.mp h) hp)
  | write _ n path v => exact hkept (Page.setProperty_keeps hp n path v)
  | change => exact ⟨hp.congr rfl rfl, rfl⟩

theorem Page.calls_keep (h : Relation.ReflTransGen Page.Call p q) (hp : p.WidgetsOnly) :
    q.WidgetsOnly ∧ q.document.shape = p.document.shape := by
  induction h with
  | refl => exact ⟨hp, rfl⟩
  | tail _ hcall ih =>
    obtain ⟨hwidgets, hshape⟩ := hcall.keeps ih.1
    exact ⟨hwidgets, hshape.trans ih.2⟩

/-- Once an instance is built on a page of widgets, no calls on it or on anything else of the page change
which nodes there are, what they are, where they stand and who listens to them. -/
theorem calls_keep_built_shape {t : Template} (ht : t.Compiled) {p built : Page} (hp : p.WidgetsOnly)
    {c : ComponentId} {root : Option NodeId} {sink : Sink} {i : Instance} {report : Report}
    (hbuild : t.instantiate c root sink p = some (.ok (i, report), built)) :
    i.template.Compiled ∧ ∀ q, Relation.ReflTransGen Page.Call built q →
      q.document.shape = built.document.shape := by
  obtain ⟨hbuilt, htemplate⟩ := Template.buildOn_widgetsOnly (hostTo_orderly p.nesting) hp
    (withHost_eq_some.mp hbuild)
  refine ⟨htemplate i report rfl ▸ ht, fun q hq => ?_⟩
  exact (Page.calls_keep hq hbuilt).2

/-- An item that shows its label. -/
def sampleItem : TemplateNode :=
  .node (.ofTag "x-item") [.text (.property "label")]

def sampleItemTemplate : Template :=
  .ofPlan { createRoot := false } sampleItem.size (sampleItem.rootPlan (fun _ => none) { createRoot := false })

/-- A shelf with an item whose label is the shelf's name. -/
def sampleShelf : TemplateNode :=
  .node (.ofTag "section") [.node { NodeHead.ofTag "x-item" with attributes := [("label", .property "name")] } []]

def sampleShelfPage : Page :=
  match Page.empty.defineWidget "x-item" sampleItemTemplate ⟨"item", [("label", .fixed .null)], []⟩ with
  | .ok (_, p) => (p.addComponent ((Component.named "shelf").withProp "name" (.text "a"))).2
  | .error _ => .empty

def sampleShelfTemplate : Template :=
  .ofPlan {} sampleShelf.size (sampleShelf.rootPlan sampleShelfPage.registry.declared {})

theorem sampleItemTemplate_compiled : sampleItemTemplate.Compiled :=
  ⟨fun _ => none, .empty, { createRoot := false }, sampleItem, _, rfl⟩

theorem sampleShelfTemplate_compiled : sampleShelfTemplate.Compiled :=
  ⟨sampleShelfPage.registry.declared, .empty, {}, sampleShelf, _, rfl⟩

theorem sampleShelfPage_widgetsOnly : sampleShelfPage.WidgetsOnly :=
  (Page.widgetsOnly_empty.defineWidget sampleItemTemplate_compiled rfl).congr rfl rfl

/-- Builds the shelf, gives it another name and delivers, and tells the item's text before and after. -/
def sampleShelfRenaming : Act (Option String × Option String) := do
  match ← sampleShelfTemplate.instantiate 0 none .warnings with
  | .error _ => return (none, none)
  | .ok (i, _) =>
    let before := (← get).document.text? 2
    modify (·.modifyComponent 0 (·.set "name" (.text "b")))
    let _ ← withHost fun host => i.deliver host
    return (before, (← get).document.text? 2)

theorem sampleShelfRenaming_texts :
    (sampleShelfRenaming sampleShelfPage).map (·.1) = some (some "a", some "b") := by
  decide +kernel

theorem calls_keep_built_shape_sampleShelf :
    ∃ i report built q, sampleShelfTemplate.instantiate 0 none .warnings sampleShelfPage =
        some (.ok (i, report), built) ∧ Relation.ReflTransGen Page.Call built q ∧
      built.document.text? 2 = some "a" ∧ q.document.text? 2 = some "b" ∧
      q.document.shape = built.document.shape := by
  obtain ⟨⟨texts, _⟩, hrun, htexts⟩ := Option.map_eq_some_iff.mp sampleShelfRenaming_texts
  simp only [sampleShelfRenaming, Act.bind_eq_some] at hrun
  obtain ⟨result, built, hbuild, hrun⟩ := hrun
  cases result with
  | error e =>
    obtain ⟨rfl, rfl⟩ := Act.pure_eq_some.mp hrun
    cases htexts
  | ok result =>
    obtain ⟨i, report⟩ := result
    simp only [Act.bind_eq_some, Act.get_eq_some, Act.modify_eq_some, Act.pure_eq_some] at hrun
    obtain ⟨_, _, ⟨rfl, rfl⟩, _, _, rfl, _, q, hdeliver, _, _, ⟨rfl, rfl⟩, rfl, rfl⟩ := hrun
    obtain ⟨ha, hb⟩ := Prod.mk.inj htexts
    obtain ⟨hi, hshape⟩ :=
      calls_keep_built_shape sampleShelfTemplate_compiled sampleShelfPage_widgetsOnly hbuild
    have hcalls : Relation.ReflTransGen Page.Call built q :=
      .tail (.single (.change built _)) (.deliver hi hdeliver)
    exact ⟨i, report, built, q, hbuild, hcalls, ha, hb, hshape q hcalls⟩

end LiveMarkup
