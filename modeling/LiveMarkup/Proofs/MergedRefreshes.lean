import LiveMarkup.Proofs.BuildErrors
import LiveMarkup.Proofs.BuildRenders
import LiveMarkup.Proofs.InnerBuild
import LiveMarkup.Proofs.MirroredSteps

namespace LiveMarkup

variable {p p₀ q : Page} {i : Instance} {op : Op} {tags : String → Prop} {plan : Plan} {declared : Declarations}
  {options : CompileOptions} {root : Option NodeId} {t : Template} {c : ComponentId} {k : Nat} {tag : String}

section Folding

variable {σ : Type u} {δ : Type v} {act : δ → σ → δ}

theorem foldl_act_comm {a : σ} {rest : List σ} (h : ∀ b ∈ rest, ∀ d, act (act d a) b = act (act d b) a) (d : δ) :
    rest.foldl act (act d a) = act (rest.foldl act d) a := by
  induction rest generalizing d with
  | nil => rfl
  | cons b rest ih =>
    rw [List.foldl_cons, List.foldl_cons, h b List.mem_cons_self]
    exact ih (fun b' hb' => h b' (List.mem_cons_of_mem _ hb')) _

/-- Where acts commute and repeating one changes nothing, picking some and then others is picking both. -/
theorem foldl_filter_or (act : δ → σ → δ) {steps : List σ}
    (hcomm : steps.Pairwise fun a b => ∀ d, act (act d a) b = act (act d b) a)
    (hrepeat : ∀ a ∈ steps, ∀ d, act (act d a) a = act d a) (P Q : σ → Bool) (d : δ) :
    (steps.filter Q).foldl act ((steps.filter P).foldl act d) = (steps.filter fun a => P a || Q a).foldl act d := by
  induction steps generalizing d with
  | nil => rfl
  | cons a rest ih =>
    obtain ⟨hfirst, hrest⟩ := List.pairwise_cons.mp hcomm
    have hmerge := ih hrest fun b hb => hrepeat b (List.mem_cons_of_mem _ hb)
    have hback : ∀ d, act ((rest.filter P).foldl act d) a = (rest.filter P).foldl act (act d a) :=
      fun d => (foldl_act_comm (fun b hb => hfirst b (List.mem_of_mem_filter hb)) d).symm
    cases hP : P a with
    | false =>
      cases hQ : Q a with
      | false => simpa [List.filter_cons, hP, hQ] using hmerge d
      | true => simpa [List.filter_cons, hP, hQ, hback] using hmerge (act d a)
    | true =>
      cases hQ : Q a with
      | false => simpa [List.filter_cons, hP, hQ] using hmerge (act d a)
      | true => simpa [List.filter_cons, hP, hQ, hback, hrepeat a List.mem_cons_self d] using hmerge (act d a)

end Folding

theorem Document.modifyNode_comm (d : Document) {m n : NodeId} (h : m ≠ n) (f g : Node → Node) :
    (d.modifyNode m f).modifyNode n g = (d.modifyNode n g).modifyNode m f := by
  refine congrArg Document.mk (Array.ext_getElem? fun k => ?_)
  simp only [modifyNode, Array.getElem?_modify]
  by_cases hm : m = k
  · have hn : n ≠ k := fun hn => h (hm.trans hn.symm)
    rw [if_neg hn, if_pos hm, if_pos hm, if_neg hn]
  · rw [if_neg hm, if_neg hm]

theorem Document.modifyNode_modifyNode (d : Document) (n : NodeId) (f g : Node → Node) :
    (d.modifyNode n f).modifyNode n g = d.modifyNode n fun node => g (f node) := by
  refine congrArg Document.mk (Array.ext_getElem? fun k => ?_)
  simp only [modifyNode, Array.getElem?_modify]
  by_cases hn : n = k
  · rw [if_pos hn, if_pos hn, if_pos hn, Option.map_map]
    rfl
  · rw [if_neg hn, if_neg hn, if_neg hn]

namespace Op

/-- What an instruction that is in place computes. -/
def value? : Op → Option Computation
  | .setProperty _ _ value => some value
  | .setAttribute _ _ value => some value
  | .setText _ value => some value
  | _ => none

/-- The node once an instruction has written a value to it. -/
def paint (owner : ComponentId) (v : Value) (op : Op) (node : Node) : Node :=
  match op, node.kind with
  | .setProperty _ path _, .element e => { node with kind := .element (e.write owner (.property path) v) }
  | .setAttribute _ name _, .element e => { node with kind := .element (e.write owner (.attr name) v) }
  | .setText .., .text _ => { node with kind := .text v.display }
  | _, _ => node

theorem paint_element (owner : ComponentId) (v : Value) (t : Target) (s : Slot) (value : Computation) (e : Element)
    (parent : Option NodeId) (children : List NodeId) :
    (t.op s value).paint owner v ⟨.element e, parent, children⟩ = ⟨.element (e.write owner t v), parent, children⟩ := by
  cases t <;> rfl

theorem paint_text (owner : ComponentId) (v : Value) (t : Target) (s : Slot) (value : Computation) (text : String)
    (parent : Option NodeId) (children : List NodeId) :
    (t.op s value).paint owner v ⟨.text text, parent, children⟩ = ⟨.text text, parent, children⟩ := by
  cases t <;> rfl

theorem paint_paint_self (owner : ComponentId) {v : Value} (hv : v.Inert) (op : Op) (node : Node) :
    op.paint owner v (op.paint owner v node) = op.paint owner v node := by
  have htarget : ∀ (t : Target) s value, (t.op s value).paint owner v ((t.op s value).paint owner v node) =
      (t.op s value).paint owner v node := by
    intro t s value
    obtain ⟨kind, parent, children⟩ := node
    cases kind with
    | element e => rw [paint_element, paint_element, e.write_write_self owner t hv hv]
    | text text => rw [paint_text, paint_text]
  cases op with
  | setProperty s path value => exact htarget (.property path) s value
  | setAttribute s name value => exact htarget (.attr name) s value
  | setText s value =>
    obtain ⟨kind, parent, children⟩ := node
    cases kind <;> rfl
  | _ => rfl

/-- Instructions that write to different nodes, or to places of one node that have nothing in common. -/
def Independent (a b : Op) : Prop :=
  a.slot = b.slot → ∀ (owner : ComponentId) (v w : Value) (node : Node), v.Inert → w.Inert →
    b.paint owner w (a.paint owner v node) = a.paint owner v (b.paint owner w node)

theorem independent_target {t t' : Target} (h : t.Apart t') (s : Slot) (value value' : Computation) :
    (t.op s value).Independent (t'.op s value') := by
  intro _ owner v w node hv hw
  obtain ⟨kind, parent, children⟩ := node
  cases kind with
  | element e => rw [paint_element, paint_element, paint_element, paint_element, e.write_comm owner h hv hw]
  | text text => rw [paint_text, paint_text, paint_text]

theorem independent_flush (a : Op) (s : Slot) : a.Independent (.flushNested s) :=
  fun _ _ _ _ _ _ _ => rfl

end Op

theorem Plan.value_of_mem_places {place : Op × ValueSpec} (h : place ∈ plan.places) :
    place.1.value? = some place.2.value := by
  cases plan with
  | text slot spec =>
    cases List.mem_singleton.mp h
    rfl
  | element head children =>
    obtain ⟨⟨target, spec⟩, -, rfl⟩ := List.mem_map.mp h
    cases target <;> rfl

theorem Plan.places_independent (h : plan.Separate) : plan.places.Pairwise fun a b => a.1.Independent b.1 := by
  cases plan with
  | text slot spec => exact List.pairwise_singleton _ _
  | element head children =>
    rw [Plan.places]
    refine List.pairwise_map.mpr ((List.pairwise_map.mp h).imp fun {a b} hapart => ?_)
    exact Op.independent_target hapart head.slot a.2.value b.2.value

theorem Plan.ownRefresh_independent (h : plan.Separate) :
    plan.ownRefresh.Pairwise fun a b => a.op.Independent b.op := by
  obtain ⟨flushes, heq, hflushes⟩ := plan.ownRefresh_eq
  rw [heq]
  refine List.pairwise_append.mpr ⟨List.pairwise_filterMap.mpr (plan.places_independent h |>.imp ?_), ?_, ?_⟩
  · intro a b hindependent step hstep step' hstep'
    rw [RefreshStep.op_of_gated? hstep, RefreshStep.op_of_gated? hstep']
    exact hindependent
  · refine List.Pairwise.imp_of_mem (fun _ hb _ => ?_) (List.pairwise_of_forall fun _ _ => trivial)
    rw [(hflushes _ hb).1]
    exact Op.independent_flush _ _
  · intro a _ b hb
    rw [(hflushes b hb).1]
    exact Op.independent_flush _ _

/-- The steps of a template whose attributes have targets of their own do not interfere. -/
theorem Plan.refresh_independent (hnum : plan.NumberedFrom k) (h : ∀ sub ∈ plan.preorder, sub.Separate) :
    plan.refresh.Pairwise fun a b => a.op.Independent b.op := by
  have hnodup : (plan.preorder.map Plan.slot).Nodup := by
    rw [Plan.map_slot_preorder hnum]
    exact List.nodup_range'
  rw [Plan.refresh_eq_flatMap]
  refine List.pairwise_flatMap.mpr ⟨fun sub hsub => Plan.ownRefresh_independent (h sub hsub), ?_⟩
  refine (List.pairwise_map.mp hnodup).imp fun hne a ha b hb heq => absurd ?_ hne
  rw [← Plan.slot_of_ownRefresh ha, ← Plan.slot_of_ownRefresh hb, heq]

/-- The page with another document and other warnings. -/
def Page.redrawn (p : Page) (d : Document) (warnings : List String) : Page :=
  { p with document := d, warnings := warnings }

namespace Instance

/-- What an instruction that is in place makes of a document, as long as no element is custom: a value that can be
computed is written to the node of the slot. -/
def redraw (i : Instance) (p : Page) (d : Document) (op : Op) : Document :=
  match op.value?, i.node? op.slot with
  | some value, some n =>
    match p.eval i.component value.formula with
    | .ok v => d.modifyNode n (op.paint i.component v)
    | .error _ => d
  | _, _ => d

theorem redraw_cases (i : Instance) (p : Page) (op : Op) : (∀ d, i.redraw p d op = d) ∨
    ∃ value n v, op.value? = some value ∧ i.node? op.slot = some n ∧ p.eval i.component value.formula = .ok v ∧
      ∀ d, i.redraw p d op = d.modifyNode n (op.paint i.component v) := by
  cases hvalue : op.value? with
  | none => exact Or.inl fun d => by simp only [redraw, hvalue]
  | some value =>
    cases hn : i.node? op.slot with
    | none => exact Or.inl fun d => by simp only [redraw, hvalue, hn]
    | some n =>
      cases hv : p.eval i.component value.formula with
      | error f => exact Or.inl fun d => by simp only [redraw, hvalue, hn, hv]
      | ok v => exact Or.inr ⟨value, n, v, rfl, rfl, hv, fun d => by simp only [redraw, hvalue, hn, hv]⟩

theorem redraw_comm {a b : Op} (hindependent : a.Independent b)
    (hinjective : ∀ s s' n, i.node? s = some n → i.node? s' = some n → s = s')
    (ha : ∀ value v, a.value? = some value → p.eval i.component value.formula = .ok v → v.Inert)
    (hb : ∀ value v, b.value? = some value → p.eval i.component value.formula = .ok v → v.Inert) (d : Document) :
    i.redraw p (i.redraw p d a) b = i.redraw p (i.redraw p d b) a := by
  rcases i.redraw_cases p a with hsame | ⟨value, m, v, hvalue, hm, hv, hdraw⟩
  · rw [hsame, hsame]
  · rcases i.redraw_cases p b with hsame' | ⟨value', n, w, hvalue', hn, hw, hdraw'⟩
    · rw [hsame', hsame']
    · rw [hdraw, hdraw', hdraw', hdraw]
      by_cases hmn : m = n
      · subst hmn
        have hslot := hinjective a.slot b.slot m hm hn
        have hpaint := fun node => hindependent hslot i.component v w node (ha value v hvalue hv) (hb value' w hvalue' hw)
        rw [d.modifyNode_modifyNode, d.modifyNode_modifyNode]
        simp only [hpaint]
      · exact d.modifyNode_comm hmn _ _

theorem redraw_redraw_self
    (hop : ∀ value v, op.value? = some value → p.eval i.component value.formula = .ok v → v.Inert) (d : Document) :
    i.redraw p (i.redraw p d op) op = i.redraw p d op := by
  rcases i.redraw_cases p op with hsame | ⟨value, n, v, hvalue, -, hv, hdraw⟩
  · rw [hsame, hsame]
  · rw [hdraw, hdraw, d.modifyNode_modifyNode]
    simp only [Op.paint_paint_self i.component (hop value v hvalue hv)]

/-- An instruction that writes a value does nothing without its node or without a value. -/
theorem exec_value_redraw (host : Host) {value : Computation} (hvalue : op.value? = some value)
    (hhost : op.needsHost = false) (hunbound : ∀ f, i.node op.slot = .error f → i.execLocal op p = i.skip f p)
    (hfault : ∀ n f, i.node op.slot = .ok n → p.eval i.component value.formula = .error f →
      i.execLocal op p = i.skip f p)
    (hwrite : ∀ n v, i.node op.slot = .ok n → p.eval i.component value.formula = .ok v → ∃ step,
      i.execLocal op p = (step, { p with document := p.document.modifyNode n (op.paint i.component v) })) :
    ∃ step, i.exec host op p = some (step, { p with document := i.redraw p p.document op }) := by
  cases hn : i.node? op.slot with
  | none =>
    have hsame : i.redraw p p.document op = p.document := by simp only [redraw, hvalue, hn]
    have hnode : ∃ f, i.node op.slot = .error f := by
      rw [node, hn]
      exact ⟨_, rfl⟩
    obtain ⟨f, hnode⟩ := hnode
    rw [hsame]
    exact ⟨_, (exec_local hhost).mpr (hunbound f hnode)⟩
  | some n =>
    have hnode : i.node op.slot = .ok n := node_eq_ok.mpr hn
    cases hv : p.eval i.component value.formula with
    | error f =>
      have hsame : i.redraw p p.document op = p.document := by simp only [redraw, hvalue, hn, hv]
      rw [hsame]
      exact ⟨_, (exec_local hhost).mpr (hfault n f hnode hv)⟩
    | ok v =>
      obtain ⟨step, hexec⟩ := hwrite n v hnode hv
      have hdraw : i.redraw p p.document op = p.document.modifyNode n (op.paint i.component v) := by
        simp only [redraw, hvalue, hn, hv]
      rw [hdraw]
      exact ⟨step, (exec_local hhost).mpr hexec⟩

theorem exec_target_redraw (hp : p.elements = []) (host : Host) (t : Target) (s : Slot) (value : Computation) :
    ∃ step, i.exec host (t.op s value) p =
      some (step, { p with document := i.redraw p p.document (t.op s value) }) := by
  have hslot : (t.op s value).slot = s := by cases t <;> rfl
  have hvalue : (t.op s value).value? = some value := by cases t <;> rfl
  refine exec_value_redraw host hvalue (t.needsHost_op _ _) (fun f hn => ?_) (fun n f hn hv => ?_) fun n v hn hv => ?_
  · rw [hslot] at hn
    cases t <;> simp only [Target.op, execLocal, hn]
  · exact execLocal_target_error t (hslot ▸ hn) hv
  · obtain ⟨edit, hexec⟩ := execLocal_target_ok t (Page.isCustom_eq_false hp n) (hslot ▸ hn) hv
    have hpaint : p.document.modifyNode n ((t.op s value).paint i.component v) =
        p.document.modifyElement n fun e => e.write i.component t v := by
      refine congrArg _ (funext fun node => ?_)
      obtain ⟨kind, parent, children⟩ := node
      cases kind with
      | element e => exact Op.paint_element ..
      | text text => exact Op.paint_text ..
    rw [hpaint]
    exact ⟨_, hexec⟩

theorem exec_setText_redraw (host : Host) (s : Slot) (value : Computation) : ∃ step,
    i.exec host (.setText s value) p = some (step, { p with document := i.redraw p p.document (.setText s value) }) := by
  refine exec_value_redraw host rfl rfl (fun f hn => ?_) (fun n f hn hv => ?_) fun n v hn hv => ?_ <;>
    change i.node s = _ at hn
  · simp only [execLocal, hn]
  · simp only [execLocal, hn, hv]
  · have hpaint : p.document.modifyNode n ((Op.setText s value).paint i.component v) =
        p.document.setText n v.display := by
      refine congrArg _ (funext fun node => ?_)
      obtain ⟨kind, parent, children⟩ := node
      cases kind <;> rfl
    rw [hpaint]
    simp only [execLocal, hn, hv]
    exact ⟨_, rfl⟩

theorem exec_flush_redraw (hp : p.elements = []) (depth : Nat) (s : Slot) :
    ∃ step, i.exec (hostTo (depth + 1)) (.flushNested s) p = some (step, p) := by
  cases hn : i.node s with
  | error f => exact ⟨_, exec_flushNested.mpr (Or.inl ⟨f, hn, rfl, rfl⟩)⟩
  | ok n => exact ⟨_, exec_flushNested.mpr (Or.inr ⟨n, _, hn, flushWith_plain (Page.custom?_eq_none hp n), rfl⟩)⟩

/-- Where no element is custom, an instruction that is in place changes nothing but the document. -/
theorem exec_redraw (hp : p.elements = []) (depth : Nat) (i : Instance) (hop : op.InPlace) :
    ∃ step, i.exec (hostTo (depth + 1)) op p = some (step, { p with document := i.redraw p p.document op }) := by
  cases op with
  | setProperty s path value => exact exec_target_redraw hp _ (.property path) s value
  | setAttribute s name value => exact exec_target_redraw hp _ (.attr name) s value
  | flushNested s => exact exec_flush_redraw hp depth s
  | setText s value => exact exec_setText_redraw _ s value
  | _ => exact hop.elim

/-- The document once steps have run on it in turn. -/
def redrawAll (i : Instance) (p : Page) (steps : List RefreshStep) (d : Document) : Document :=
  steps.foldl (fun d step => i.redraw p d step.op) d

theorem runSteps_redraw (depth : Nat) (i : Instance) {steps : List RefreshStep}
    (hsteps : ∀ step ∈ steps, step.op.InPlace) (hp : p.elements = []) : ∃ report warnings,
      i.runSteps (hostTo (depth + 1)) steps p = some (report, p.redrawn (i.redrawAll p steps p.document) warnings) := by
  induction steps generalizing p with
  | nil => exact ⟨_, p.warnings, Act.pure_eq_some.mpr ⟨rfl, rfl⟩⟩
  | cons first rest ih =>
    obtain ⟨step, hexec⟩ := exec_redraw hp depth i (hsteps first List.mem_cons_self)
    obtain ⟨more, hwarned⟩ := stepWarned_eq .refresh first.op step { p with document := i.redraw p p.document first.op }
    have hlifeless : (p.redrawn (i.redraw p p.document first.op) (p.warnings ++ more)).elements = [] := hp
    obtain ⟨others, warnings', hrun⟩ := ih (fun step hstep => hsteps step (List.mem_cons_of_mem _ hstep)) hlifeless
    exact ⟨_, warnings', runSteps_cons.mpr ⟨step, _, others, hexec, hwarned ▸ hrun, rfl⟩⟩

/-- A refresh for some changes leads from one page to another. -/
def Refreshed (i : Instance) (changed : Names) (p q : Page) : Prop :=
  ∃ report, withHost (fun host => i.refresh host changed) p = some (report, q)

/-- The document once all steps that some changes trigger have run. -/
def redrawFor (i : Instance) (p : Page) (changed : Names) (d : Document) : Document :=
  i.redrawAll p (i.template.refresh.filter fun step => step.triggeredBy changed) d

theorem refreshed_redrawn (hi : ∀ step ∈ i.template.refresh, step.op.InPlace) (hp : p.elements = []) (changed : Names)
    (d : Document) (warnings : List String) :
    ∃ warnings', i.Refreshed changed (p.redrawn d warnings) (p.redrawn (i.redrawFor p changed d) warnings') := by
  have hlifeless : (p.redrawn d warnings).elements = [] := hp
  obtain ⟨report, warnings', hrun⟩ := runSteps_redraw p.registry.size i
    (fun step hstep => hi step (List.mem_of_mem_filter hstep)) hlifeless
  exact ⟨warnings', report, withHost_eq_some.mpr hrun⟩

end Instance

theorem RefreshStep.triggeredBy_union {a b both : Names}
    (hboth : ∀ name, both.contains name = (a.contains name || b.contains name)) (step : RefreshStep) :
    step.triggeredBy both = (step.triggeredBy a || step.triggeredBy b) := by
  have hany : step.deps.any both.contains = (step.deps.any a.contains || step.deps.any b.contains) := by
    rw [Bool.eq_iff_iff, Bool.or_eq_true, List.any_eq_true, List.any_eq_true, List.any_eq_true, ← exists_or]
    refine exists_congr fun name => ?_
    rw [hboth, Bool.or_eq_true, and_or_left]
  rw [triggeredBy, triggeredBy, triggeredBy, hany]
  cases step.always <;> rfl

/-- Two sets of changes may be merged into one. -/
theorem Instance.redrawFor_redrawFor (hindependent : i.template.refresh.Pairwise fun a b => a.op.Independent b.op)
    (hinjective : ∀ s s' n, i.node? s = some n → i.node? s' = some n → s = s')
    (hvalues : ∀ step ∈ i.template.refresh, ∀ value v, step.op.value? = some value →
      p.eval i.component value.formula = .ok v → v.Inert) {a b both : Names}
    (hboth : ∀ name, both.contains name = (a.contains name || b.contains name)) (d : Document) :
    i.redrawFor p b (i.redrawFor p a d) = i.redrawFor p both d := by
  have hcomm : i.template.refresh.Pairwise fun a b => ∀ d,
      i.redraw p (i.redraw p d a.op) b.op = i.redraw p (i.redraw p d b.op) a.op :=
    hindependent.imp_of_mem fun ha hb hab d => redraw_comm hab hinjective (hvalues _ ha) (hvalues _ hb) d
  have hmerged := foldl_filter_or (fun d (step : RefreshStep) => i.redraw p d step.op) hcomm
    (fun step hstep d => redraw_redraw_self (hvalues step hstep) d) (·.triggeredBy a) (·.triggeredBy b) d
  simp only [redrawFor, redrawAll, RefreshStep.triggeredBy_union hboth]
  exact hmerged

namespace TemplateNode

mutual

/-- No HTML element of a template has one of some tags. -/
def Avoids (tags : String → Prop) (inherited : Namespace) : TemplateNode → Prop
  | .text _ => True
  | .node head children =>
    (head.namespaceIn inherited = .html → ¬tags head.tag) ∧ AllAvoid tags (head.namespaceIn inherited) children

def AllAvoid (tags : String → Prop) (inherited : Namespace) : List TemplateNode → Prop
  | [] => True
  | child :: rest => child.Avoids tags inherited ∧ AllAvoid tags inherited rest

end

end TemplateNode

/-- Neither has a plan, where its children do not count. -/
def Plan.Avoids (tags : String → Prop) : Plan → Prop
  | .element head _ => head.ns = .html → ¬tags head.tag
  | .text .. => True

namespace TemplateNode

mutual

theorem plan_avoids : ∀ {inherited : Namespace} {k : Nat} {node : TemplateNode}, node.Avoids tags inherited →
    ∀ sub ∈ (node.plan declared options inherited k).preorder, sub.Avoids tags
  | _, _, .text _, _, sub, hsub => by
    cases List.mem_singleton.mp hsub
    trivial
  | inherited, k, .node head children, h, sub, hsub => by
    unfold TemplateNode.plan at hsub
    split at hsub
    · cases List.mem_singleton.mp hsub
      trivial
    · rcases List.mem_cons.mp hsub with rfl | hsub
      · exact h.1
      · exact planAll_avoids h.2 sub hsub

theorem planAll_avoids : ∀ {inherited : Namespace} {k : Nat} {nodes : List TemplateNode},
    AllAvoid tags inherited nodes →
      ∀ sub ∈ Plan.preorderAll (planAll declared options inherited k nodes), sub.Avoids tags
  | _, _, [], _, _, hsub => absurd hsub List.not_mem_nil
  | _, _, child :: rest, h, sub, hsub => by
    rcases List.mem_append.mp hsub with hsub | hsub
    · exact plan_avoids h.1 sub hsub
    · exact planAll_avoids h.2 sub hsub

end

theorem rootPlan_avoids {head : NodeHead} {children : List TemplateNode}
    (h : (TemplateNode.node head children).Avoids tags .html) :
    ∀ sub ∈ ((TemplateNode.node head children).rootPlan declared options).preorder, sub.Avoids tags := by
  intro sub hsub
  rcases List.mem_cons.mp hsub with rfl | hsub
  · exact h.1
  · exact planAll_avoids h.2 sub hsub

end TemplateNode

/-- The custom elements and the definitions are as before, and no node has gone. -/
structure Page.Extends (p q : Page) : Prop where
  elements : q.elements = p.elements
  registry : q.registry = p.registry
  size : p.document.size ≤ q.document.size

theorem Page.Extends.refl (p : Page) : p.Extends p :=
  ⟨rfl, rfl, Nat.le_refl _⟩

theorem Page.Extends.trans {q' : Page} (h : p.Extends q) (h' : q.Extends q') : p.Extends q' :=
  ⟨h'.elements.trans h.elements, h'.registry.trans h.registry, Nat.le_trans h.size h'.size⟩

theorem Page.Extends.warned (phase : Phase) (op : Op) (step : Step) (p : Page) :
    p.Extends (Instance.stepWarned phase op step p) := by
  have hsame := Instance.sameState_stepWarned phase op step p
  exact ⟨hsame.elements, hsame.registry, Nat.le_of_eq (congrArg Document.size (Instance.document_stepWarned ..)).symm⟩

theorem Page.Extends.not_defines (h : p.Extends q) (hdefines : ¬p.Defines tag) : ¬q.Defines tag := by
  rw [Page.Defines, h.registry]
  exact hdefines

namespace Instance

variable {step : Step} {depth : Nat}

theorem execLocal_extends (hp : p.elements = []) (i : Instance) (op : Op) : p.Extends (i.execLocal op p).2 := by
  have hwrite : ∀ n path v, p.Extends (p.setProperty n path v) := by
    intro n path v
    rw [Page.setProperty_of_not_custom (Page.isCustom_eq_false hp n)]
    exact ⟨rfl, rfl, Nat.le_of_eq (p.document.size_modifyNode n _).symm⟩
  have hmodify : ∀ n f, p.Extends { p with document := p.document.modifyNode n f } :=
    fun n f => ⟨rfl, rfl, Nat.le_of_eq (p.document.size_modifyNode n f).symm⟩
  obtain ⟨run, hrun, heq⟩ := i.execLocal_runs op p
  rw [heq]
  cases hrun with
  | nothing _ => exact .refl p
  | skip _ f => exact .refl p
  | attach name hn => exact ⟨rfl, rfl, Nat.le_refl _⟩
  | property path hn hv => exact hwrite _ path _
  | callback name hn hv => exact hwrite _ _ _
  | attr value name text hn => exact hmodify _ _
  | noAttr value name hn => exact hmodify _ _
  | listener event handler hn => exact hmodify _ _
  | newText s value text fault =>
    refine ⟨rfl, rfl, ?_⟩
    rw [Document.size_push]
    exact Nat.le_succ _
  | text value text hn => exact hmodify _ _
  | child ha hb =>
    simp only [Page.append]
    split
    · exact ⟨rfl, rfl, Nat.le_of_eq (p.document.size_append _ _).symm⟩
    · exact ⟨rfl, rfl, Nat.le_refl _⟩

/-- Where no element is or becomes custom, an instruction of a build gives a slot the root that is given, or a new
node. -/
theorem execBuild_extends (hp : p.elements = []) (hop : ∀ s tag, op = .createElement s tag .html → ¬p.Defines tag)
    (h : i.execBuild (hostTo (depth + 1)) root op p = some (step, q)) :
    p.Extends q ∧ ∀ k, op.bound? = some k → op = .adoptRoot k ∧ step.inst = i.bind k root ∨
      step.inst = i.bind k (some p.document.size) ∧ p.document.size < q.document.size := by
  have hpushed : ∀ kind, p.document.size < (p.document.push kind).size := fun kind => by
    rw [Document.size_push]
    exact Nat.lt_succ_self _
  cases hbound : op.bound? with
  | none =>
    refine ⟨?_, fun k hk => by cases hk⟩
    cases execBuild_ran hbound h with
    | alone hneeds hlocal =>
      have hextends := execLocal_extends hp i op
      rwa [hlocal] at hextends
    | created hn => cases hbound
    | unbuilt hn => exact .refl p
    | flushed hn hflush =>
      rw [hostTo_flush_plain (Page.isCustom_eq_false hp _) hflush]
      exact .refl p
  | some k =>
    cases execBuild_bound hbound h with
    | @created tag ns n _ hn =>
      obtain ⟨rfl, rfl⟩ := hostTo_create_plain (fun hns => hop k tag (hns ▸ rfl)) hn
      refine ⟨⟨rfl, rfl, Nat.le_of_lt (hpushed _)⟩, fun k' hk => Or.inr ?_⟩
      cases hk
      exact ⟨rfl, hpushed _⟩
    | adopted =>
      refine ⟨.refl p, fun k' hk => Or.inl ?_⟩
      cases hk
      exact ⟨rfl, rfl⟩
    | newText value text fault =>
      refine ⟨⟨rfl, rfl, Nat.le_of_lt (hpushed _)⟩, fun k' hk => Or.inr ?_⟩
      cases hk
      exact ⟨rfl, hpushed _⟩

/-- In the middle of a build of a component from a template, on a page without custom elements: the slots from `k` on
are not bound yet, and the others to different nodes of the page. -/
structure Placing (t : Template) (c : ComponentId) (p₀ : Page) (k : Nat) (i : Instance) (p : Page) : Prop where
  template : i.template = t
  component : i.component = c
  grown : p₀.Extends p
  unbound : ∀ s, k ≤ s → i.node? s = none
  within : ∀ s n, i.node? s = some n → n < p.document.size
  injective : ∀ s s' n, i.node? s = some n → i.node? s' = some n → s = s'

section Placing

theorem Placing.extends (h : i.Placing t c p₀ k p) (hpq : p.Extends q) : i.Placing t c p₀ k q :=
  { h with
    grown := h.grown.trans hpq
    within := fun s n hn => Nat.lt_of_lt_of_le (h.within s n hn) hpq.size }

theorem Placing.bind {n : NodeId} (h : i.Placing t c p₀ k p) (hn : n < p.document.size)
    (hnew : ∀ s, i.node? s ≠ some n) : (i.bind k (some n)).Placing t c p₀ (k + 1) p := by
  have hnode : ∀ s m, (i.bind k (some n)).node? s = some m → s = k ∧ m = n ∨ s ≠ k ∧ i.node? s = some m := by
    intro s m hm
    exact (node?_bind_cases hm).imp_left fun hnew => ⟨hnew.1, (Option.some.inj hnew.2).symm⟩
  refine ⟨h.template, h.component, h.grown, fun s hs => ?_, fun s m hm => ?_, fun s s' m hm hm' => ?_⟩
  · rw [node?_bind_of_ne (Nat.ne_of_gt hs)]
    exact h.unbound s (Nat.le_of_succ_le hs)
  · rcases hnode s m hm with ⟨-, rfl⟩ | ⟨-, hm⟩
    · exact hn
    · exact h.within s m hm
  · rcases hnode s m hm with ⟨hs, hmn⟩ | ⟨-, hold⟩
    · rcases hnode s' m hm' with ⟨hs', -⟩ | ⟨-, hold'⟩
      · exact hs.trans hs'.symm
      · exact absurd (hmn ▸ hold') (hnew s')
    · rcases hnode s' m hm' with ⟨-, hmn⟩ | ⟨-, hold'⟩
      · exact absurd (hmn ▸ hold) (hnew s)
      · exact h.injective s s' m hold hold'

/-- A build where no element is or becomes custom binds its slots to different nodes. -/
theorem runBuild_placing {k' : Nat} {ops : List Op} (hseq : Op.Sequence k ops k')
    (hadopted : ∀ s, .adoptRoot s ∈ ops → s = 0 ∧ root.isSome) (hroot : ∀ r, root = some r → r < p₀.document.size)
    (htags : ∀ s tag, .createElement s tag .html ∈ ops → ¬p₀.Defines tag) (hp₀ : p₀.elements = [])
    (hi : i.Placing t c p₀ k p) {i' : Instance} {r : Report}
    (h : i.runBuild (hostTo (depth + 1)) root ops p = some ((i', r), q)) : i'.Placing t c p₀ k' q := by
  induction hseq generalizing i p r with
  | nil =>
    obtain ⟨heq, rfl⟩ := Act.pure_eq_some.mp h
    cases heq
    exact hi
  | @bind k k' op rest hop hrest ih =>
    obtain ⟨step, p₁, others, hexec, h, -⟩ := runBuild_cons.mp h
    obtain ⟨hextends, hbound⟩ := execBuild_extends (hi.grown.elements.trans hp₀)
      (fun s tag heq => hi.grown.not_defines (htags s tag (heq ▸ List.mem_cons_self))) hexec
    have hnext : step.inst.Placing t c p₀ (k + 1) p₁ := by
      rcases hbound k hop with ⟨rfl, hinst⟩ | ⟨hinst, hlt⟩
      · -- a root is adopted before anything else
        obtain ⟨rfl, hsome⟩ := hadopted k List.mem_cons_self
        obtain ⟨n, rfl⟩ := Option.isSome_iff_exists.mp hsome
        rw [hinst]
        refine (hi.extends hextends).bind
          (Nat.lt_of_lt_of_le (hroot n rfl) (hi.grown.trans hextends).size) fun s hs => ?_
        rw [hi.unbound s (Nat.zero_le s)] at hs
        cases hs
      · rw [hinst]
        exact (hi.extends hextends).bind hlt fun s hs => Nat.lt_irrefl _ (hi.within s _ hs)
    exact ih (fun s hs => hadopted s (List.mem_cons_of_mem _ hs)) (fun s tag hs => htags s tag (List.mem_cons_of_mem _ hs))
      (hnext.extends (.warned .build op step p₁)) h
  | @use k k' op rest hop hmentions hrest ih =>
    obtain ⟨step, p₁, others, hexec, h, -⟩ := runBuild_cons.mp h
    obtain ⟨hextends, -⟩ := execBuild_extends (hi.grown.elements.trans hp₀)
      (fun s tag heq => hi.grown.not_defines (htags s tag (heq ▸ List.mem_cons_self))) hexec
    have hnext : step.inst.Placing t c p₀ k p₁ := by
      rw [execBuild_inst_of_not_bound hop hexec]
      exact hi.extends hextends
    exact ih (fun s hs => hadopted s (List.mem_cons_of_mem _ hs)) (fun s tag hs => htags s tag (List.mem_cons_of_mem _ hs))
      (hnext.extends (.warned .build op step p₁)) h

end Placing

end Instance

/-- A build on a page without custom elements, of a template that creates none. -/
theorem Template.instantiate_placing (ht : t.Tends tags) (hp₀ : p₀.elements = [])
    (htags : ∀ s tag, .createElement s tag .html ∈ t.build → ¬p₀.Defines tag) {sink : Sink} {report : Report}
    (h : t.instantiate c root sink p₀ = some (.ok (i, report), q)) : i.Placing t c p₀ t.slotNames.length q := by
  have hbuild := withHost_eq_some.mp h
  have hobstacle := obstacle?_of_buildOn hbuild
  obtain ⟨i', _, hrun, -, rfl⟩ := runBuild_of_buildOn hbuild
  have hnone := t.node?_unbuilt c sink
  have hstart : (t.unbuilt c sink).Placing t c p₀ 0 p₀ :=
    ⟨rfl, rfl, .refl p₀, fun s _ => hnone s, fun s n hn => absurd hn (by simp [hnone s]),
      fun s s' n hn => absurd hn (by simp [hnone s])⟩
  have hadopted : ∀ s, .adoptRoot s ∈ t.build → s = 0 ∧ root.isSome :=
    fun s hs => ⟨(ht.adopted s hs).1, (ht.adopts_given hobstacle).resolve_right fun hno => hno s hs⟩
  have hplaced : i'.Placing t c p₀ t.slotNames.length q :=
    Instance.runBuild_placing ht.sequence hadopted (root_within hobstacle) htags hp₀ hstart hrun
  exact ⟨hplaced.template, hplaced.component, hplaced.grown, hplaced.unbound, hplaced.within, hplaced.injective⟩

theorem PlanHead.ns_of_createElement {h : PlanHead} {s : Slot} {ns : Namespace}
    (hop : .createElement s tag ns ∈ h.build) : h.ns = ns := by
  obtain ⟨create, rest, heq, -, hrest⟩ := h.build_eq
  rcases List.mem_cons.mp (heq ▸ hop) with hop | hop
  · have hcreate := (List.cons.inj heq).1
    rw [← hop] at hcreate
    split at hcreate <;> cases hcreate
    rfl
  · cases (hrest _ hop).1

theorem TemplateNode.not_of_createElement {head : NodeHead} {children : List TemplateNode}
    (h : (TemplateNode.node head children).Avoids tags .html) {s : Slot}
    (hop : .createElement s tag .html ∈ ((TemplateNode.node head children).rootPlan declared options).build) :
    ¬tags tag := by
  obtain ⟨planned, plans, hsub, hop⟩ := Plan.head_of_mem_build hop (by simp) (by simp)
  obtain ⟨hcreated, rfl, rfl⟩ := PlanHead.createElement_mem_build hop
  exact TemplateNode.rootPlan_avoids h _ hsub (PlanHead.ns_of_createElement hop)

/-- Whatever the values of a component are, a template without custom elements whose attributes have targets of their
own may be refreshed for two sets of changes in either order, or for both at once, and refreshing it again for the
same changes does nothing more than to report failures again, to what leaves the components alone
(`Receiver.LeavesComponents`). -/
theorem refreshes_may_be_merged {p₀ : Page} (hp₀ : p₀.elements = []) {declared : Declarations}
    {maps maps' : PropertyMaps} {options : CompileOptions} {node : TemplateNode} {t : Template}
    (h : compileWith declared maps options node = (.ok t, maps'))
    (hcustom : node.Avoids (fun tag => p₀.Defines tag ∨ declared tag ≠ none) .html)
    (hdistinct : node.DistinctTargets declared .html) {c : ComponentId} {root : Option NodeId} {sink : Sink}
    {i : Instance} {report : Report} {q₀ : Page} (hbuild : t.instantiate c root sink p₀ = some (.ok (i, report), q₀))
    {p : Page} (hp : p.elements = [])
    (hinert : ∀ sub ∈ node.preorder, ∀ spec ∈ sub.ownSpecs, ∀ v, p.eval c spec.value.formula = .ok v → v.Inert)
    (a b both : Names) (hboth : ∀ name, both.contains name = (a.contains name || b.contains name)) :
    ∃ (da db d : Document) (w₁ w₂ w₃ w₄ w₅ w₆ : List String),
      i.Refreshed a p (p.redrawn da w₁) ∧ i.Refreshed b (p.redrawn da w₁) (p.redrawn d w₂) ∧
      i.Refreshed b p (p.redrawn db w₃) ∧ i.Refreshed a (p.redrawn db w₃) (p.redrawn d w₄) ∧
      i.Refreshed both p (p.redrawn d w₅) ∧ i.Refreshed a (p.redrawn da w₁) (p.redrawn da w₆) := by
  have hcompiled : t.Compiled := ⟨_, _, _, _, _, h⟩
  obtain ⟨head, children, rfl, htag, hleaves, htemplate⟩ := compileWith_ok h
  have hplaced : i.Placing t c p₀ t.slotNames.length q₀ := by
    refine Template.instantiate_placing hcompiled.tends hp₀ (fun s tag hop hdefines => ?_) hbuild
    rw [htemplate] at hop
    exact TemplateNode.not_of_createElement hcustom hop (Or.inl hdefines)
  obtain rfl := hplaced.template
  obtain rfl := hplaced.component
  have hinPlace : ∀ step ∈ i.template.refresh, step.op.InPlace := fun step hstep => hcompiled.inPlace hstep
  have hrefresh : i.template.refresh = ((TemplateNode.node head children).rootPlan declared options).refresh := by
    rw [htemplate]
    rfl
  have hseparate : ∀ sub ∈ ((TemplateNode.node head children).rootPlan declared options).preorder, sub.Separate := by
    intro sub hsub
    refine TemplateNode.rootPlan_separate_of_undeclared options hdistinct sub hsub ?_
    have havoids := TemplateNode.rootPlan_avoids hcustom sub hsub
    cases sub with
    | text slot spec => trivial
    | element planned plans => exact fun hns => by_contra fun hdeclared => havoids hns (Or.inr hdeclared)
  have hindependent : i.template.refresh.Pairwise fun a b => a.op.Independent b.op := by
    rw [hrefresh]
    exact Plan.refresh_independent (TemplateNode.rootPlan_numbered _ options hleaves).1 hseparate
  have hvalues : ∀ step ∈ i.template.refresh, ∀ value v, step.op.value? = some value →
      p.eval i.component value.formula = .ok v → v.Inert := by
    intro step hstep value v hvalue hv
    rw [hrefresh] at hstep
    obtain ⟨q, hq, ⟨place, hplace, hop⟩ | ⟨hop, -⟩⟩ := Plan.refresh_cases hstep
    · obtain ⟨sub, hsub, hsame⟩ := TemplateNode.exists_source htag hleaves hq
      rw [hop, Plan.value_of_mem_places hplace] at hvalue
      cases hvalue
      refine hinert sub (List.mem_of_getElem? hsub) place.2 ?_ v hv
      rw [← hsame.specs]
      exact List.mem_map_of_mem hplace
    · rw [hop] at hvalue
      cases hvalue
  have hmerge : ∀ {a b both : Names}, (∀ name, both.contains name = (a.contains name || b.contains name)) → ∀ d,
      i.redrawFor p b (i.redrawFor p a d) = i.redrawFor p both d :=
    fun hboth d => Instance.redrawFor_redrawFor hindependent hplaced.injective hvalues hboth d
  have hrun := fun changed d warnings => Instance.refreshed_redrawn (i := i) hinPlace hp changed d warnings
  obtain ⟨w₁, ha⟩ := hrun a p.document p.warnings
  obtain ⟨w₂, hab⟩ := hrun b (i.redrawFor p a p.document) w₁
  obtain ⟨w₃, hb⟩ := hrun b p.document p.warnings
  obtain ⟨w₄, hba⟩ := hrun a (i.redrawFor p b p.document) w₃
  obtain ⟨w₅, hall⟩ := hrun both p.document p.warnings
  obtain ⟨w₆, haa⟩ := hrun a (i.redrawFor p a p.document) w₁
  rw [hmerge hboth] at hab
  rw [hmerge fun name => (hboth name).trans (Bool.or_comm _ _)] at hba
  rw [hmerge fun name => (Bool.or_self _).symm] at haa
  exact ⟨_, _, _, w₁, w₂, w₃, w₄, w₅, w₆, ha, hab, hb, hba, hall, haa⟩

/-- A paragraph with a title that cannot be computed. -/
def sampleLabel : TemplateNode :=
  .node { NodeHead.ofTag "p" with
      attributes := [("title", ⟨⟨"title", .fail "no title"⟩, ["a"]⟩), ("data-a", .property "a")] }
    [.text (.property "b")]

def sampleLabelTemplate : Template :=
  .ofPlan {} sampleLabel.size (sampleLabel.rootPlan (fun _ => none) {})

/-- The document of a page, and a component with two properties. -/
def sampleLabelPage (p : Page) : Page :=
  { samplePage [("a", .text "x"), ("b", .text "y")] with document := p.document }

def sampleLabelRefreshed : Act (Option String) := do
  match ← sampleLabelTemplate.instantiate 0 none .caller with
  | .error _ => return none
  | .ok (i, _) =>
    modify sampleLabelPage
    let _ ← withHost fun host => i.refresh host (Names.ofList ["a", "b"])
    return (← get).document.text? 1

theorem sampleLabelRefreshed_text : (sampleLabelRefreshed (samplePage [])).map (·.1) = some (some "y") := by
  decide +kernel

theorem sampleLabel_inert (p : Page) : ∀ sub ∈ sampleLabel.preorder, ∀ spec ∈ sub.ownSpecs, ∀ v,
    (sampleLabelPage p).eval 0 spec.value.formula = .ok v → v.Inert := by
  intro sub hsub spec hspec v hv
  rcases List.mem_cons.mp hsub with rfl | hsub
  · rcases List.mem_cons.mp hspec with rfl | hspec
    · cases hv
    · cases List.mem_singleton.mp hspec
      cases hv
      trivial
  · cases List.mem_singleton.mp hsub
    cases List.mem_singleton.mp hspec
    cases hv
    trivial

/-- The label shows what the component has once it has been refreshed for both properties, in whatever way. -/
theorem refreshes_may_be_merged_sampleLabel : ∃ i report built,
    sampleLabelTemplate.instantiate 0 none .caller (samplePage []) = some (.ok (i, report), built) ∧
    ∃ (da db d : Document) (w₁ w₂ w₃ w₄ w₅ w₆ : List String), d.text? 1 = some "y" ∧
      i.Refreshed (Names.ofList ["a"]) (sampleLabelPage built) ((sampleLabelPage built).redrawn da w₁) ∧
      i.Refreshed (Names.ofList ["b"]) ((sampleLabelPage built).redrawn da w₁) ((sampleLabelPage built).redrawn d w₂) ∧
      i.Refreshed (Names.ofList ["b"]) (sampleLabelPage built) ((sampleLabelPage built).redrawn db w₃) ∧
      i.Refreshed (Names.ofList ["a"]) ((sampleLabelPage built).redrawn db w₃) ((sampleLabelPage built).redrawn d w₄) ∧
      i.Refreshed (Names.ofList ["a", "b"]) (sampleLabelPage built) ((sampleLabelPage built).redrawn d w₅) ∧
      i.Refreshed (Names.ofList ["a"]) ((sampleLabelPage built).redrawn da w₁)
        ((sampleLabelPage built).redrawn da w₆) := by
  have hcompile : ∃ maps, compileWith (samplePage []).registry.declared .empty {} sampleLabel =
      (.ok sampleLabelTemplate, maps) := ⟨_, rfl⟩
  obtain ⟨maps, hcompile⟩ := hcompile
  have hcustom : sampleLabel.Avoids
      (fun tag => (samplePage []).Defines tag ∨ (samplePage []).registry.declared tag ≠ none) .html := by
    refine ⟨fun _ htag => ?_, trivial, trivial⟩
    rcases htag with hdefined | hdeclared
    · cases hdefined
    · exact hdeclared rfl
  have hdistinct : sampleLabel.DistinctTargets (samplePage []).registry.declared .html := ⟨by decide, trivial, trivial⟩
  have htext := sampleLabelRefreshed_text
  obtain ⟨⟨text, q⟩, hsession, heq⟩ := Option.map_eq_some_iff.mp htext
  cases heq
  simp only [sampleLabelRefreshed, Act.bind_eq_some] at hsession
  obtain ⟨result, built, hbuild, hsession⟩ := hsession
  cases result with
  | error e => cases (Act.pure_eq_some.mp hsession).1
  | ok made =>
    obtain ⟨i, report⟩ := made
    simp only [Act.bind_eq_some, Act.modify_eq_some, Act.get_eq_some, Act.pure_eq_some] at hsession
    obtain ⟨_, _, rfl, refreshed, q', hrefresh, _, _, ⟨rfl, rfl⟩, htext, rfl⟩ := hsession
    have hboth : ∀ name, (Names.ofList ["a", "b"]).contains name =
        ((Names.ofList ["a"]).contains name || (Names.ofList ["b"]).contains name) := by
      intro name
      simp only [Names.ofList, Names.add, List.foldl_cons, List.foldl_nil, Dict.contains, Dict.get?_insert]
      by_cases ha : name = "a" <;> by_cases hb : name = "b" <;> simp [ha, hb]
    obtain ⟨da, db, d, w₁, w₂, w₃, w₄, w₅, w₆, ha, hab, hb, hba, hall, haa⟩ :=
      refreshes_may_be_merged rfl hcompile hcustom hdistinct hbuild (p := sampleLabelPage built) rfl
        (sampleLabel_inert built) (.ofList ["a"]) (.ofList ["b"]) (.ofList ["a", "b"]) hboth
    refine ⟨i, report, built, hbuild, da, db, d, w₁, w₂, w₃, w₄, w₅, w₆, ?_, ha, hab, hb, hba, hall, haa⟩
    obtain ⟨report', hall⟩ := hall
    rw [hrefresh] at hall
    cases hall
    exact htext

end LiveMarkup
