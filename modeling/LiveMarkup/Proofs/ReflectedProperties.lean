import LiveMarkup.Proofs.BuildRenders
import LiveMarkup.Proofs.DeclaredAttributes
import LiveMarkup.Proofs.MirroredSteps
import LiveMarkup.Proofs.Moments
import LiveMarkup.Proofs.SchemaTargets

namespace LiveMarkup

variable {p q : Page} {i : Instance} {e e' : Element} {t : Template} {m : NodeId} {op : Op} {report : Report}
  {step : Step} {v : Value} {maps maps' : PropertyMaps} {options : CompileOptions} {node : TemplateNode}

/-- The properties of an element are such as attributes of its tag set, and its attributes show them. -/
def Element.InStep (e : Element) : Prop :=
  ∀ key v, e.props.get? key = some v → ∃ name path, attributeTarget (fun _ => none) e.tag e.ns name = .property path ∧
    path.display = key ∧ e.Carries (.property path) v

namespace Element

theorem inStep_ofTag (tag : String) (ns : Namespace) : (Element.ofTag tag ns).InStep := by
  intro key v hv
  cases hv

/-- Listeners have nothing to do with it. -/
theorem InStep.bare (h : e.InStep) (he : e'.bare = e.bare) : e'.InStep := by
  have htag : e'.tag = e.tag := (congrArg Element.tag he :)
  have hns : e'.ns = e.ns := (congrArg Element.ns he :)
  have hprops : e'.props = e.props := (congrArg Element.props he :)
  intro key v hv
  rw [hprops] at hv
  obtain ⟨name, path, htarget, hkey, hcarries⟩ := h key v hv
  rw [← htag, ← hns] at htarget
  exact ⟨name, path, htarget, hkey, hcarries.bare he⟩

/-- An attribute either sets the property, or writes to nothing that shows it. -/
theorem InStep.write (h : e.InStep) (owner : ComponentId) (name : String) (hv : v.Inert) :
    (e.write owner (attributeTarget (fun _ => none) e.tag e.ns name) v).InStep := by
  generalize ht : attributeTarget (fun _ => none) e.tag e.ns name = t
  have hwrite := e.write_eq owner t hv
  have htag : (e.write owner t v).tag = e.tag := by rw [hwrite]
  have hns : (e.write owner t v).ns = e.ns := by rw [hwrite]
  have hprops : (e.write owner t v).props = e.props.putAt t.property? (some v) := by rw [hwrite]
  intro key w hw
  rw [htag, hns]
  by_cases hkey : t.property? = some key
  · cases t with
    | attr attr => cases hkey
    | property path =>
      have hcarries := e.carries_write owner (.property path) hv
      have hsame := (hcarries.stored key hkey).symm.trans hw
      rw [← Option.some.inj hsame]
      exact ⟨name, path, ht, Option.some.inj hkey, hcarries⟩
  · rw [hprops, Dict.get?_putAt_of_ne _ _ hkey] at hw
    obtain ⟨other, path, hother, rfl, hcarries⟩ := h key w hw
    have hne : attributeTarget (fun _ => none) e.tag e.ns name ≠ attributeTarget (fun _ => none) e.tag e.ns other := by
      rw [ht, hother]
      rintro rfl
      exact hkey rfl
    have hapart := attributeTarget_apart (fun _ => rfl) hne
    rw [ht, hother] at hapart
    exact ⟨other, path, hother, rfl, hcarries.write owner hapart hv⟩

end Element

/-- A template that creates its root: its instructions are those of a plan, which creates all its elements and takes
their attributes for what the schema says. -/
structure Template.Schematic (t : Template) (plan : Plan) : Prop where
  build : t.build = plan.build
  refresh : t.refresh = plan.refresh
  numbered : plan.NumberedFrom 0
  created : ∀ {head children}, .element head children ∈ plan.preorder → head.created = true
  resolved : ∀ {head children}, .element head children ∈ plan.preorder → ∀ a ∈ head.attributes,
    ∃ name, a.1 = attributeTarget (fun _ => none) head.tag head.ns name

/-- An instruction of the build or of a refresh. -/
def Template.Uses (t : Template) (op : Op) : Prop :=
  op ∈ t.build ∨ ∃ step ∈ t.refresh, step.op = op

namespace Template

variable {plan : Plan}

theorem schematic_of_compileWith (h : compileWith (fun _ => none) maps options node = (.ok t, maps'))
    (hroot : options.createRoot = true) : t.Schematic (node.rootPlan (fun _ => none) options) := by
  obtain ⟨head, children, rfl, htag, hleaves, rfl⟩ := compileWith_ok h
  have hheads : ∀ {planned plans},
      .element planned plans ∈ ((TemplateNode.node head children).rootPlan (fun _ => none) options).preorder →
      ∃ source inherited s, planned = NodeHead.plan (fun _ => none) options s true inherited source := by
    intro planned plans hsub
    obtain ⟨sub, -, hplanned⟩ := TemplateNode.exists_source htag hleaves hsub
    generalize (Plan.element planned plans).slot = s at hplanned
    cases hplanned with
    | @element source _ _ _ inherited =>
      rw [hroot, Bool.or_true]
      exact ⟨source, inherited, s, rfl⟩
  refine ⟨rfl, rfl, (TemplateNode.rootPlan_numbered _ options hleaves).1, fun hsub => ?_, fun hsub a ha => ?_⟩
  · obtain ⟨source, inherited, s, rfl⟩ := hheads hsub
    rfl
  · obtain ⟨source, inherited, s, rfl⟩ := hheads hsub
    obtain ⟨written, -, rfl⟩ := List.mem_map.mp ha
    exact ⟨written.1, rfl⟩

/-- What is written to the node of a slot is an attribute of the element that is planned there. -/
theorem exists_attribute_of_uses (hnum : plan.NumberedFrom 0) (hbuild : t.build = plan.build)
    (hrefresh : t.refresh = plan.refresh) {target : Target} {s : Slot} {value : Computation}
    (hop : t.Uses (target.op s value)) : ∃ head children, .element head children ∈ plan.preorder ∧ head.slot = s ∧
      ∃ a ∈ head.attributes, a.1 = target ∧ a.2.value = value := by
  rcases hop with hop | ⟨step, hstep, heq⟩
  · rw [hbuild] at hop
    obtain ⟨head, children, hsub, hown⟩ := Plan.head_of_mem_build hop (by cases target <;> simp [Target.op])
      (by cases target <;> simp [Target.op])
    have hslot : (target.op s value).slot = head.slot := PlanHead.slot_of_mem_build hown
    obtain rfl : s = head.slot := by cases target <;> exact hslot
    exact ⟨head, children, hsub, rfl, Plan.exists_attribute_of_build hnum hsub hop⟩
  · rw [hrefresh] at hstep
    obtain ⟨sub, hsub, ⟨place, hplace, hop⟩ | ⟨hop, -⟩⟩ := Plan.refresh_cases hstep
    · rw [heq] at hop
      cases sub with
      | text slot spec =>
        rw [List.mem_singleton.mp hplace] at hop
        cases target <;> cases hop
      | element head children =>
        obtain ⟨a, ha, rfl⟩ := List.mem_map.mp hplace
        obtain ⟨rfl, rfl, rfl⟩ := Target.op_inj hop
        exact ⟨head, children, hsub, rfl, a, ha, rfl, rfl⟩
    · rw [heq] at hop
      cases target <;> cases hop

theorem Schematic.target (h : t.Schematic plan) {target : Target} {s : Slot} {value : Computation}
    (hop : t.Uses (target.op s value)) : ∃ head children name, .element head children ∈ plan.preorder ∧
      head.slot = s ∧ target = attributeTarget (fun _ => none) head.tag head.ns name := by
  obtain ⟨head, children, hsub, hslot, a, ha, rfl, -⟩ :=
    exists_attribute_of_uses h.numbered h.build h.refresh hop
  obtain ⟨name, hname⟩ := h.resolved hsub a ha
  exact ⟨head, children, name, hsub, hslot, hname⟩

theorem Schematic.not_adopts (h : t.Schematic plan) (s : Slot) : .adoptRoot s ∉ t.build := by
  intro hop
  rw [h.build] at hop
  obtain ⟨head, children, hsub, hown⟩ := Plan.head_of_mem_build hop (by simp) (by simp)
  exact absurd (h.created hsub) (Bool.eq_false_iff.mp (PlanHead.mem_build_adoptRoot hown).1)

end Template

namespace Document

variable {d : Document}

theorem element?_push_self (d : Document) (e : Element) : (d.push (.element e)).element? d.size = some e := by
  rw [element?, push, size, Array.getElem?_push, if_pos rfl]

theorem element?_push_text (hm : d.element? m = none) (text : String) : (d.push (.text text)).element? m = none := by
  rw [element?, push, Array.getElem?_push]
  by_cases hlast : m = d.nodes.size
  · rw [if_pos hlast]
  · rw [if_neg hlast]
    exact hm

/-- The only element that is new is the one added. -/
theorem element?_push_element (hm : d.element? m = none) (he : (d.push (.element e)).element? m = some e') :
    e' = e := by
  rw [element?, push, Array.getElem?_push] at he
  by_cases hlast : m = d.nodes.size
  · rw [if_pos hlast] at he
    exact (Option.some.inj he).symm
  · rw [if_neg hlast] at he
    cases hm.symm.trans he

end Document

namespace Page

/-- Every element of the page is in step. -/
def InStep (p : Page) : Prop :=
  ∀ n e, p.document.element? n = some e → e.InStep

/-- Elements stay, and stay of their kind. -/
def Retains (p q : Page) : Prop :=
  ∀ n e, p.document.element? n = some e → ∃ e', q.document.element? n = some e' ∧ e'.tag = e.tag ∧ e'.ns = e.ns

end Page

/-- The nodes of an instance are elements of the kinds that are planned for their slots. -/
def Instance.Placed (i : Instance) (p : Page) : Prop :=
  ∃ plan, i.template.Schematic plan ∧ ∀ {head children}, .element head children ∈ plan.preorder →
    ∀ n, i.node? head.slot = some n → ∃ e, p.document.element? n = some e ∧ e.tag = head.tag ∧ e.ns = head.ns

/-- An instruction that writes no callback. -/
def Op.WritesInert (op : Op) (c : ComponentId) (p : Page) : Prop :=
  ∀ (t : Target) s value, op = t.op s value → ∀ v, p.eval c value.formula = .ok v → v.Inert

namespace Instance

variable {host : Host}

theorem Placed.retains (h : i.Placed p) (hq : p.Retains q) : i.Placed q := by
  obtain ⟨plan, hplan, hnodes⟩ := h
  refine ⟨plan, hplan, fun hsub n hn => ?_⟩
  obtain ⟨e, he, htag, hns⟩ := hnodes hsub n hn
  obtain ⟨e', he', htag', hns'⟩ := hq n e he
  exact ⟨e', he', htag'.trans htag, hns'.trans hns⟩

theorem execLocal_makes_none (hp : p.Plain) (i : Instance) (op : Op) (hm : p.document.element? m = none) :
    (i.execLocal op p).2.document.element? m = none := by
  have hmodify : ∀ n f, (p.document.modifyElement n f).element? m = none := by
    intro n f
    by_cases hn : m = n
    · subst hn
      rw [Document.element?_modifyElement, hm]
      rfl
    · exact (Document.element?_congr (p.document.kind?_modifyNode_of_ne hn _)).trans hm
  have hwrite : ∀ n path v, (p.setProperty n path v).document.element? m = none := by
    intro n path v
    rw [Page.setProperty_of_not_custom (hp.isCustom n)]
    exact hmodify n _
  obtain ⟨run, hrun, heq⟩ := i.execLocal_runs op p
  rw [heq]
  cases hrun with
  | nothing _ => exact hm
  | skip _ f => exact hm
  | attach name hn => exact hm
  | property path hn hv => exact hwrite _ path _
  | callback name hn hv => exact hwrite _ _ _
  | attr value name text hn => exact hmodify _ _
  | noAttr value name hn => exact hmodify _ _
  | listener event handler hn => exact hmodify _ _
  | newText s value text fault => exact Document.element?_push_text hm text
  | text value text hn => exact (p.document.element?_setText m _ text).trans hm
  | child ha hb =>
    simp only [Page.append]
    split
    · exact (Document.element?_congr (p.document.kind?_append _ _ m)).trans hm
    · exact hm

/-- An instruction makes no element but a blank one. -/
theorem exec_makes_blank (hhost : host.ServesPlain) (hp : p.Plain) (h : i.exec host op p = some (step, q))
    (hm : p.document.element? m = none) (he : q.document.element? m = some e) : ∃ tag ns, e = .ofTag tag ns := by
  cases exec_ran h with
  | alone hneeds hlocal =>
    have hnone := execLocal_makes_none hp i op hm
    rw [hlocal, he] at hnone
    cases hnone
  | created hn =>
    rw [hhost.create _ _ p hp] at hn
    cases hn
    exact ⟨_, _, Document.element?_push_element hm he⟩
  | unbuilt hn => cases hm.symm.trans he
  | flushed hn hflush =>
    rw [hhost.flush _ p hp] at hflush
    cases hflush
    cases hm.symm.trans he

/-- An instruction of a template keeps the elements in step. -/
theorem exec_inStep (hhost : host.ServesPlain) (hp : p.Plain) (hi : i.Placed p) (hop : i.template.Uses op)
    (hinert : op.WritesInert i.component p) (hstep : p.InStep) (h : i.exec host op p = some (step, q)) :
    p.Retains q ∧ q.InStep := by
  obtain ⟨plan, hplan, hnodes⟩ := hi
  have hplainly := exec_plainly hhost hp h
  have hedits : ∀ m e e', p.document.element? m = some e → i.Edits op p m e e' →
      e'.InStep ∧ e'.tag = e.tag ∧ e'.ns = e.ns := by
    rintro m e e' he (hbare | ⟨t, value, v, hwrite, hnode, hv, rfl⟩)
    · exact ⟨(hstep m e he).bare hbare, (congrArg Element.tag hbare :), (congrArg Element.ns hbare :)⟩
    · rw [hwrite] at hop
      obtain ⟨head, children, name, hsub, hslot, rfl⟩ := hplan.target hop
      rw [← hslot] at hnode
      obtain ⟨planned, hplanned, htag, hns⟩ := hnodes hsub m hnode
      cases he.symm.trans hplanned
      rw [← htag, ← hns]
      have hv := hinert _ _ _ hwrite v hv
      have hwritten := e.write_eq i.component (attributeTarget (fun _ => none) e.tag e.ns name) hv
      exact ⟨(hstep m e he).write i.component name hv, by rw [hwritten], by rw [hwritten]⟩
  refine ⟨fun m e he => ?_, fun m e' he' => ?_⟩
  · obtain ⟨e', he', hedit⟩ := hplainly.elements m e he
    exact ⟨e', he', (hedits m e e' he hedit).2⟩
  · cases he : p.document.element? m with
    | none =>
      obtain ⟨tag, ns, rfl⟩ := exec_makes_blank hhost hp h he he'
      exact Element.inStep_ofTag tag ns
    | some e =>
      obtain ⟨_, hq, hedit⟩ := hplainly.elements m e he
      cases hq.symm.trans he'
      exact (hedits m e e' he hedit).1

/-- In a build, the slot of an element is bound to a node of its kind. -/
theorem execBuild_placed (hhost : host.ServesPlain) (hp : p.Plain) (hi : i.Placed p) (hop : op ∈ i.template.build)
    (hq : p.Retains q) (h : i.execBuild host none op p = some (step, q)) : step.inst.Placed q := by
  cases hbound : op.bound? with
  | none =>
    rw [execBuild_inst_of_not_bound hbound h]
    exact hi.retains hq
  | some k =>
    obtain ⟨plan, hplan, hnodes⟩ := hi.retains hq
    obtain ⟨-, -, bound, hinst, -⟩ := execBuild_binds_plainly hhost hp hbound h
    rw [hinst]
    refine ⟨plan, hplan, fun {head children} hsub n hn => ?_⟩
    by_cases hk : k = head.slot
    · subst hk
      have hcreate := Plan.bind_op hplan.numbered hsub (hplan.build ▸ hop) hbound
      rw [if_pos (hplan.created hsub)] at hcreate
      subst hcreate
      obtain ⟨m, hm, rfl⟩ := exec_createElement.mp h
      rw [hhost.create _ _ p hp] at hm
      cases hm
      rcases node?_bind_cases (hinst ▸ hn) with ⟨-, hmade⟩ | ⟨hne, -⟩
      · cases hmade
        exact ⟨_, p.document.element?_push_self _, rfl, rfl⟩
      · exact absurd rfl hne
    · rw [node?_bind_of_ne (Ne.symm hk)] at hn
      exact hnodes hsub n hn

theorem execBuild_keeps {root : Option NodeId} (hhost : host.ServesPlain) (hp : p.Plain)
    (h : i.execBuild host root op p = some (step, q)) :
    step.inst.template = i.template ∧ step.inst.component = i.component := by
  cases hbound : op.bound? with
  | none =>
    rw [execBuild_inst_of_not_bound hbound h]
    exact ⟨rfl, rfl⟩
  | some k =>
    obtain ⟨-, -, bound, hinst, -⟩ := execBuild_binds_plainly hhost hp hbound h
    rw [hinst]
    exact ⟨rfl, rfl⟩

theorem execBuild_state (hhost : host.ServesPlain) (hp : p.Plain) (h : i.execBuild host none op p = some (step, q)) :
    p.SameState q := by
  cases hbound : op.bound? with
  | none =>
    rw [execBuild_of_not_bound hbound] at h
    exact (exec_plainly hhost hp h).state
  | some k => exact (execBuild_binds_plainly hhost hp hbound h).1

end Instance

/-- A template writes no callback if no value that its source asks for is one. -/
theorem Template.writesInert {declared : Declarations} (h : compileWith declared maps options node = (.ok t, maps'))
    {c : ComponentId} (hinert : ∀ sub ∈ node.preorder, ∀ spec ∈ sub.ownSpecs, ∀ v,
      p.eval c spec.value.formula = .ok v → v.Inert) (hop : t.Uses op) : op.WritesInert c p := by
  obtain ⟨head, children, rfl, htag, hleaves, rfl⟩ := compileWith_ok h
  rintro target s value rfl v hv
  have hnum := (TemplateNode.rootPlan_numbered declared options hleaves).1
  obtain ⟨planned, plans, hsub, -, a, ha, -, rfl⟩ := exists_attribute_of_uses hnum rfl rfl hop
  obtain ⟨sub, hsource, hplanned⟩ := TemplateNode.exists_source htag hleaves hsub
  have hspec : a.2 ∈ sub.ownSpecs := by
    rw [← hplanned.specs]
    exact List.mem_map.mpr ⟨_, List.mem_map_of_mem ha, rfl⟩
  exact hinert sub (List.mem_of_getElem? hsource) a.2 hspec v hv

namespace Page

/-- The moments of a page from an empty document on, with the instances that have been built and with what is going
on, if the elements of the page are the work of templates that create their roots. All else may change at any time, as
long as no custom elements come up. -/
inductive Drawn : Page → List Instance → Option Activity → Prop
  | start {p : Page} (hp : p.Plain) (hblank : ∀ n, p.document.element? n = none) : Drawn p [] none
  | change {p q : Page} {built : List Instance} {now : Option Activity} (h : Drawn p built now) (hq : q.Plain)
      (hsame : ∀ n, (q.document.element? n).map Element.bare = (p.document.element? n).map Element.bare) :
      Drawn q built now
  | build {p : Page} {built : List Instance} (h : Drawn p built none) {maps maps' : PropertyMaps}
      {options : CompileOptions} {node : TemplateNode} {t : Template}
      (ht : compileWith (fun _ => none) maps options node = (.ok t, maps')) (hroot : options.createRoot = true)
      (c : ComponentId) (sink : Sink) : Drawn p built (some (.build (t.unbuilt c sink) none t.build))
  | built {p q : Page} {built : List Instance} {i : Instance} {op : Op} {rest : List Op} {step : Step}
      (h : Drawn p built (some (.build i none (op :: rest)))) (hinert : op.WritesInert i.component p)
      (hexec : i.execBuild (hostTo p.nesting) none op p = some (step, q)) :
      Drawn (Instance.stepWarned .build op step q) built (some (.build step.inst none rest))
  | complete {p : Page} {built : List Instance} {i : Instance} {n : NodeId}
      (h : Drawn p built (some (.build i none []))) (hn : i.node? 0 = some n) :
      Drawn p ({ i with root := n } :: built) none
  | refresh {p : Page} {built : List Instance} (h : Drawn p built none) {i : Instance} (hi : i ∈ built)
      (changed : Names) : Drawn p built (some (.refresh i (i.template.refresh.filter fun s => s.triggeredBy changed)))
  | refreshed {p q : Page} {built : List Instance} {i : Instance} {s : RefreshStep} {rest : List RefreshStep}
      {step : Step} (h : Drawn p built (some (.refresh i (s :: rest)))) (hinert : s.op.WritesInert i.component p)
      (hexec : i.exec (hostTo p.nesting) s.op p = some (step, q)) :
      Drawn (Instance.stepWarned .refresh s.op step q) built (some (.refresh i rest))
  | done {p : Page} {built : List Instance} {i : Instance} (h : Drawn p built (some (.refresh i []))) :
      Drawn p built none

end Page

/-- The instance at work is in its place, and what it has left to run is in its template. -/
def Activity.Placed (p : Page) : Activity → Prop
  | .build i _ ops => i.Placed p ∧ ∀ op ∈ ops, op ∈ i.template.build
  | .refresh i steps => i.Placed p ∧ ∀ step ∈ steps, step ∈ i.template.refresh
  | _ => True

theorem Activity.Placed.retains {a : Activity} (h : a.Placed p) (hq : p.Retains q) : a.Placed q := by
  cases a with
  | build i root ops => exact ⟨h.1.retains hq, h.2⟩
  | refresh i steps => exact ⟨h.1.retains hq, h.2⟩
  | create tag ns => trivial
  | flush n => trivial

namespace Page

variable {built : List Instance} {now : Option Activity}

/-- What holds at every moment. -/
structure Settled (p : Page) (built : List Instance) (now : Option Activity) : Prop where
  plain : p.Plain
  inStep : p.InStep
  placed : ∀ i ∈ built, i.Placed p
  next : ∀ a, now = some a → a.Placed p

theorem Settled.retains (h : p.Settled built now) (hq : q.Plain) (hstep : q.InStep) (hretains : p.Retains q) :
    q.Settled built now :=
  ⟨hq, hstep, fun i hi => (h.placed i hi).retains hretains, fun a ha => (h.next a ha).retains hretains⟩

/-- A change that leaves the elements as they are, but for their listeners. -/
theorem Settled.change (h : p.Settled built now) (hq : q.Plain)
    (hsame : ∀ n, (q.document.element? n).map Element.bare = (p.document.element? n).map Element.bare) :
    q.Settled built now := by
  refine h.retains hq (fun n e' he' => ?_) fun n e he => ?_
  · have hbare := hsame n
    rw [he'] at hbare
    obtain ⟨e, he, hbare⟩ := Option.map_eq_some_iff.mp hbare.symm
    exact (h.inStep n e he).bare hbare.symm
  · have hbare := hsame n
    rw [he] at hbare
    obtain ⟨e', he', hbare⟩ := Option.map_eq_some_iff.mp hbare
    exact ⟨e', he', (congrArg Element.tag hbare :), (congrArg Element.ns hbare :)⟩

/-- An instruction of an instance in its place leads from one settled moment to the next. -/
theorem Settled.exec (h : p.Settled built now) (hi : i.Placed p) (hop : i.template.Uses op)
    (hinert : op.WritesInert i.component p) (hexec : i.exec (hostTo p.nesting) op p = some (step, q)) (phase : Phase) :
    p.Retains (Instance.stepWarned phase op step q) ∧ (Instance.stepWarned phase op step q).Settled built now := by
  have hhost := hostTo_servesPlain p.registry.size
  have hdocument := Instance.document_stepWarned phase op step q
  have hstate := (Instance.exec_plainly hhost h.plain hexec).state.trans (Instance.sameState_stepWarned phase op step q)
  obtain ⟨hretains, hstep⟩ := Instance.exec_inStep hhost h.plain hi hop hinert h.inStep hexec
  have hretains' : p.Retains (Instance.stepWarned phase op step q) := by rwa [Retains, hdocument]
  refine ⟨hretains', h.retains (hstate.plain h.plain) ?_ hretains'⟩
  rwa [InStep, hdocument]

theorem Drawn.settled (h : p.Drawn built now) : p.Settled built now := by
  induction h with
  | start hp hblank =>
    refine ⟨hp, fun n e he => ?_, fun i hi => absurd hi List.not_mem_nil, fun a ha => by cases ha⟩
    rw [hblank] at he
    cases he
  | change _ hq hsame ih => exact ih.change hq hsame
  | build _ ht hroot c sink ih =>
    refine ⟨ih.plain, ih.inStep, ih.placed, fun a ha => ?_⟩
    cases ha
    refine ⟨⟨_, Template.schematic_of_compileWith ht hroot, fun hsub n hn => ?_⟩, fun op hop => hop⟩
    rw [Template.node?_unbuilt] at hn
    cases hn
  | @built p q built i op rest step _ hinert hexec ih =>
    obtain ⟨hi, hops⟩ := ih.next _ rfl
    have hop := hops op List.mem_cons_self
    have hadopts : ∀ s, op ≠ .adoptRoot s := by
      rintro s rfl
      obtain ⟨plan, hplan, -⟩ := hi
      exact hplan.not_adopts s hop
    have hhost := hostTo_servesPlain p.registry.size
    have hdocument := Instance.document_stepWarned .build op step q
    obtain ⟨hretains, hsettled⟩ := ih.exec hi (.inl hop) hinert (Instance.execBuild_eq_exec hadopts ▸ hexec) .build
    refine ⟨hsettled.plain, hsettled.inStep, hsettled.placed, fun a ha => ?_⟩
    cases ha
    refine ⟨?_, fun op' hop' => ?_⟩
    · rw [Retains, hdocument] at hretains
      rw [Instance.Placed, hdocument]
      exact Instance.execBuild_placed hhost ih.plain hi hop hretains hexec
    · rw [(Instance.execBuild_keeps hhost ih.plain hexec).1]
      exact hops op' (List.mem_cons_of_mem _ hop')
  | complete _ hn ih =>
    obtain ⟨hi, -⟩ := ih.next _ rfl
    refine ⟨ih.plain, ih.inStep, fun i hi' => ?_, fun a ha => by cases ha⟩
    rcases List.mem_cons.mp hi' with rfl | hi'
    · exact hi
    · exact ih.placed i hi'
  | refresh _ hi changed ih =>
    refine ⟨ih.plain, ih.inStep, ih.placed, fun a ha => ?_⟩
    cases ha
    exact ⟨ih.placed _ hi, fun step hstep => List.mem_of_mem_filter hstep⟩
  | @refreshed p q built i s rest step _ hinert hexec ih =>
    obtain ⟨hi, hsteps⟩ := ih.next _ rfl
    have hop : i.template.Uses s.op := .inr ⟨s, hsteps s List.mem_cons_self, rfl⟩
    obtain ⟨hretains, hsettled⟩ := ih.exec hi hop hinert hexec .refresh
    refine ⟨hsettled.plain, hsettled.inStep, hsettled.placed, fun a ha => ?_⟩
    cases ha
    exact ⟨hi.retains hretains, fun step hstep => hsteps step (List.mem_cons_of_mem _ hstep)⟩
  | done _ ih => exact ⟨ih.plain, ih.inStep, ih.placed, fun a ha => by cases ha⟩

/-- A build runs through such moments. -/
theorem Drawn.runBuild {i' : Instance} {ops : List Op} (h : p.Drawn built (some (.build i none ops)))
    (hinert : ∀ p', p.SameState p' → ∀ op ∈ ops, op.WritesInert i.component p')
    (hrun : i.runBuild (hostTo p.nesting) none ops p = some ((i', report), q)) :
    q.Drawn built (some (.build i' none [])) ∧ i'.template = i.template ∧ i'.component = i.component := by
  induction ops generalizing i p report with
  | nil =>
    obtain ⟨heq, rfl⟩ := Act.pure_eq_some.mp hrun
    cases heq
    exact ⟨h, rfl, rfl⟩
  | cons op rest ih =>
    obtain ⟨step, p₁, others, hexec, hrest, -⟩ := Instance.runBuild_cons.mp hrun
    have hhost := hostTo_servesPlain p.registry.size
    have hnext := Drawn.built h (hinert p (.refl p) op List.mem_cons_self) hexec
    obtain ⟨htemplate, hcomponent⟩ := Instance.execBuild_keeps hhost h.settled.plain hexec
    have hstate : p.SameState (Instance.stepWarned .build op step p₁) :=
      (Instance.execBuild_state hhost h.settled.plain hexec).trans (Instance.sameState_stepWarned ..)
    have hnesting : (Instance.stepWarned .build op step p₁).nesting = p.nesting :=
      congrArg (Dict.size · + 1) hstate.registry
    obtain ⟨hdrawn, htemplate', hcomponent'⟩ := ih hnext (fun p' hp' op' hop' => by
      rw [hcomponent]
      exact hinert p' (hstate.trans hp') op' (List.mem_cons_of_mem _ hop')) (hnesting ▸ hrest)
    exact ⟨hdrawn, htemplate'.trans htemplate, hcomponent'.trans hcomponent⟩

theorem Drawn.instantiate (h : p.Drawn built none)
    (ht : compileWith (fun _ => none) maps options node = (.ok t, maps')) (hroot : options.createRoot = true)
    {c : ComponentId} {sink : Sink} (hinert : ∀ p', p.SameState p' → ∀ op ∈ t.build, op.WritesInert c p')
    (hbuild : t.instantiate c none sink p = some (.ok (i, report), q)) :
    q.Drawn (i :: built) none ∧ i.template = t ∧ i.component = c := by
  obtain ⟨i', n, hrun, hn, rfl⟩ := Template.runBuild_of_buildOn (withHost_eq_some.mp hbuild)
  obtain ⟨hbuilt, htemplate, hcomponent⟩ := (h.build ht hroot c sink).runBuild hinert hrun
  exact ⟨hbuilt.complete hn, htemplate, hcomponent⟩

theorem Drawn.runSteps {steps : List RefreshStep} (h : p.Drawn built (some (.refresh i steps)))
    (hinert : ∀ p', p.SameState p' → ∀ step ∈ steps, step.op.WritesInert i.component p')
    (hrun : i.runSteps (hostTo p.nesting) steps p = some (report, q)) : q.Drawn built none := by
  induction steps generalizing p report with
  | nil =>
    obtain ⟨-, rfl⟩ := Act.pure_eq_some.mp hrun
    exact h.done
  | cons s rest ih =>
    obtain ⟨step, p₁, others, hexec, hrest, -⟩ := Instance.runSteps_cons.mp hrun
    have hhost := hostTo_servesPlain p.registry.size
    have hstate : p.SameState (Instance.stepWarned .refresh s.op step p₁) :=
      (Instance.exec_plainly hhost h.settled.plain hexec).state.trans (Instance.sameState_stepWarned ..)
    have hnesting : (Instance.stepWarned .refresh s.op step p₁).nesting = p.nesting :=
      congrArg (Dict.size · + 1) hstate.registry
    refine ih (h.refreshed (hinert p (.refl p) s List.mem_cons_self) hexec) (fun p' hp' step' hstep' => ?_)
      (hnesting ▸ hrest)
    exact hinert p' (hstate.trans hp') step' (List.mem_cons_of_mem _ hstep')

theorem Drawn.runRefresh (h : p.Drawn built none) (hi : i ∈ built) {changed : Names}
    (hinert : ∀ p', p.SameState p' → ∀ step ∈ i.template.refresh, step.op.WritesInert i.component p')
    (hrefresh : withHost (fun host => i.refresh host changed) p = some (report, q)) : q.Drawn built none :=
  (h.refresh hi changed).runSteps (fun p' hp' step hstep => hinert p' hp' step (List.mem_of_mem_filter hstep))
    (withHost_eq_some.mp hrefresh)

end Page

theorem Reflection.text?_text_eq_some {a text : String} :
    (Reflection.text a).text? v = some text ↔ v ≠ .null ∧ text = v.display := by
  cases v with
  | null => simp [Reflection.text?]
  | _ => simp [Reflection.text?, eq_comm]

theorem Reflection.text?_flag_eq_some {a text : String} :
    (Reflection.flag a).text? v = some text ↔ v.truthy = true ∧ text = "" := by
  rw [Reflection.text?, Option.ite_none_right_eq_some, Option.some.injEq, eq_comm (a := "")]

/-- At every moment of a page whose elements are the work of templates, what an element has as the value of a property
that shows in an attribute is what the attribute shows. -/
theorem reflected_properties_stay_in_step {p : Page} {built : List Instance} {now : Option Activity}
    (h : p.Drawn built now) {n : NodeId} {e : Element} (he : p.document.element? n = some e) {key : String} {v : Value}
    (hv : e.props.get? key = some v) :
    (∀ a, reflection? key = some (.text a) →
      ∀ text, e.attrs.get? a = some text ↔ v ≠ .null ∧ text = v.display) ∧
    ∀ a, reflection? key = some (.flag a) → ∀ text, e.attrs.get? a = some text ↔ v.truthy = true ∧ text = "" := by
  obtain ⟨name, path, -, rfl, hcarries⟩ := h.settled.inStep n e he key v hv
  have hshown : ∀ r, reflection? path.display = some r → e.attrs.get? r.attr = r.text? v := by
    intro r hr
    have hattribute : (Target.property path).attribute? = some r.attr := by rw [Target.attribute?, hr]; rfl
    rw [hcarries.shown _ hattribute, Target.text?, hr]
    rfl
  refine ⟨fun a ha text => ?_, fun a ha text => ?_⟩
  · have hattr : e.attrs.get? a = (Reflection.text a).text? v := hshown _ ha
    rw [hattr]
    exact Reflection.text?_text_eq_some
  · have hattr : e.attrs.get? a = (Reflection.flag a).text? v := hshown _ ha
    rw [hattr]
    exact Reflection.text?_flag_eq_some

/-- A field with a title, and whether it can be used. -/
def sampleField : TemplateNode :=
  .node { NodeHead.ofTag "input" with
    attributes := [("TITLE", .property "a"), ("disabled", .property "b"), ("data-title", .property "b")] } []

def sampleFieldTemplate : Template :=
  .ofPlan {} sampleField.size (sampleField.rootPlan (fun _ => none) {})

/-- The document of a page, and a component with other properties. -/
def sampleFieldPage (p : Page) : Page :=
  { samplePage [("a", .text "y"), ("b", .null)] with document := p.document }

def sampleFieldRefreshed : Act (Option (Option String × Option String)) := do
  match ← sampleFieldTemplate.instantiate 0 none .caller with
  | .error _ => return none
  | .ok (i, _) =>
    modify sampleFieldPage
    let _ ← withHost fun host => i.refresh host (Names.ofList ["a", "b"])
    let e := (← get).document.element? 0
    return e.map fun e => ((e.props.get? "title").map Value.display, (e.props.get? "disabled").map Value.display)

theorem sampleFieldRefreshed_props :
    (sampleFieldRefreshed (samplePage [("a", .text "x"), ("b", .bool true)])).map (·.1) =
      some (some (some "y", some "")) := by
  decide +kernel

theorem sampleField_inert (ha : ∀ v, p.eval 0 (ValueSpec.property "a").value.formula = .ok v → v.Inert)
    (hb : ∀ v, p.eval 0 (ValueSpec.property "b").value.formula = .ok v → v.Inert) {p' : Page} (hp' : p.SameState p') :
    ∀ sub ∈ sampleField.preorder, ∀ spec ∈ sub.ownSpecs, ∀ v, p'.eval 0 spec.value.formula = .ok v → v.Inert := by
  have hproperty : ∀ name, (∀ v, p.eval 0 (ValueSpec.property name).value.formula = .ok v → v.Inert) →
      ∀ v, p'.eval 0 (ValueSpec.property name).value.formula = .ok v → v.Inert := by
    intro name hname v hv
    rw [hp'.eval (ValueSpec.FromLanguage.property name).ofProperties] at hv
    exact hname v hv
  intro sub hsub spec hspec
  cases List.mem_singleton.mp hsub
  rcases List.mem_cons.mp hspec with rfl | hspec
  · exact hproperty "a" ha
  · rcases List.mem_cons.mp hspec with rfl | hspec
    · exact hproperty "b" hb
    · cases List.mem_singleton.mp hspec
      exact hproperty "b" hb

/-- A field that was disabled under one title, and is enabled under another. -/
theorem reflected_properties_stay_in_step_sampleField : ∃ (q : Page) (i : Instance) (e : Element) (v w : Value),
    q.Drawn [i] none ∧ q.document.element? 0 = some e ∧ e.props.get? "title" = some v ∧ v.display = "y" ∧
    e.props.get? "disabled" = some w ∧ w.display = "" ∧
    (∀ text, e.attrs.get? "title" = some text ↔ v ≠ .null ∧ text = v.display) ∧
    ∀ text, e.attrs.get? "disabled" = some text ↔ w.truthy = true ∧ text = "" := by
  obtain ⟨⟨_, q⟩, hsession, heq⟩ := Option.map_eq_some_iff.mp sampleFieldRefreshed_props
  cases heq
  simp only [sampleFieldRefreshed, Act.bind_eq_some] at hsession
  obtain ⟨result, built, hbuild, hsession⟩ := hsession
  cases result with
  | error e => cases (Act.pure_eq_some.mp hsession).1
  | ok made =>
    obtain ⟨i, report⟩ := made
    simp only [Act.bind_eq_some, Act.modify_eq_some, Act.get_eq_some, Act.pure_eq_some] at hsession
    obtain ⟨_, _, rfl, refreshed, q', hrefresh, _, _, ⟨rfl, rfl⟩, hprops, rfl⟩ := hsession
    obtain ⟨e, he, hshown⟩ := Option.map_eq_some_iff.mp hprops
    obtain ⟨htitle, hdisabled⟩ := Prod.mk.inj hshown
    obtain ⟨v, hv, hv'⟩ := Option.map_eq_some_iff.mp htitle
    obtain ⟨w, hw, hw'⟩ := Option.map_eq_some_iff.mp hdisabled
    have hcompile : ∃ maps, compileWith (fun _ => none) .empty {} sampleField = (.ok sampleFieldTemplate, maps) :=
      ⟨_, rfl⟩
    obtain ⟨maps, hcompile⟩ := hcompile
    have hstart : (samplePage [("a", .text "x"), ("b", .bool true)]).Drawn [] none :=
      .start (samplePage_plain _) fun n => rfl
    obtain ⟨hbuilt, htemplate, hcomponent⟩ := hstart.instantiate hcompile rfl (fun p' hp' op hop =>
      Template.writesInert hcompile (sampleField_inert (by rintro _ ⟨⟩; trivial) (by rintro _ ⟨⟩; trivial) hp')
        (.inl hop)) hbuild
    have hchanged : (sampleFieldPage built).Drawn [i] none := hbuilt.change ⟨rfl, rfl⟩ fun n => rfl
    have hdrawn := hchanged.runRefresh List.mem_cons_self (fun p' hp' step hstep => by
      rw [hcomponent]
      exact Template.writesInert hcompile (sampleField_inert (by rintro _ ⟨⟩; trivial) (by rintro _ ⟨⟩; trivial) hp')
        (.inr ⟨step, htemplate ▸ hstep, rfl⟩)) hrefresh
    exact ⟨_, i, e, v, w, hdrawn, he, hv, hv', hw, hw',
      (reflected_properties_stay_in_step hdrawn he hv).1 "title" (by decide),
      (reflected_properties_stay_in_step hdrawn he hw).2 "disabled" (by decide)⟩

end LiveMarkup
