import LiveMarkup.Proofs.AttachPoints
import LiveMarkup.Proofs.BuildErrors
import LiveMarkup.Proofs.InnerView
import LiveMarkup.Proofs.PlannedWrites
import LiveMarkup.Proofs.PropertyReads
import LiveMarkup.Proofs.SingleRound

namespace LiveMarkup

variable {p p₀ q : Page} {name tag : String} {op : Op} {value : Computation} {depth k : Nat} {n : NodeId}
  {flushed strict : Prop} {s : Slot} {step : Step} {i o : Instance} {c : ComponentId} {done rest : List Op}
  {root : Option NodeId} {found found' : Except Fault Value → Prop} {w : Widget} {result : Except Fault Value}

namespace Page

variable {d : ComponentId} {m : NodeId}

/-- The component `d` has a result under a name, its callbacks bound to the component `c`, unless it is a fault. -/
def Stores (p : Page) (d : ComponentId) (name : String) (c : ComponentId) (result : Except Fault Value) : Prop :=
  ∀ v, result = .ok v → ∃ x, (p.component d).props.get? name = some x ∧ x.ReadsAs (v.bound c)

/-- The component `d` has under a name what a computation gives for the component `c`, unless that fails. -/
def Supplied (p : Page) (c : ComponentId) (value : Computation) (d : ComponentId) (name : String) : Prop :=
  p.Stores d name c (p.eval c value.formula)

theorem Stores.congr (h : p.Stores d name c result)
    (hget : (q.component d).props.get? name = (p.component d).props.get? name) : q.Stores d name c result := by
  intro v hv
  rw [hget]
  exact h v hv

/-- A write of the property reaches the widget at the node. -/
def Receives (p : Page) (n : NodeId) (name : String) : Prop :=
  p.declares n name = true ∧ ¬p.IsBusy n

theorem Receives.steady (h : p.Receives n name) (hq : p.Steady q)
    (htag : q.document.tag? n = p.document.tag? n) : q.Receives n name :=
  ⟨(declares_congr hq.registry (hq.isCustom n) htag name).trans h.1, fun hbusy => h.2 ((hq.isBusy n).mp hbusy)⟩

theorem Receives.grown (h : p.Receives n name) (hn : n < p.document.size) (hq : p.Grown strict none q) :
    q.Receives n name := by
  have htag := Document.tag?_congr (hq.kinds n hn fun heq => by cases heq)
  refine ⟨(declares_congr hq.registry ?_ htag name).trans h.1, fun hbusy => h.2 ((hq.isBusy hn).mp hbusy)⟩
  rw [isCustom, hq.old n hn, isCustom]

theorem tag?_pageSetProperty (hp : p.WellNested strict) (n x : NodeId) (path : PropertyPath) (v : Value) :
    (p.setProperty n path v).document.tag? x = p.document.tag? x := by
  rcases setProperty_cases hp n path v with heq | ⟨w, -, -, heq⟩ | ⟨hdocument, -⟩
  · rw [heq]
    exact p.document.tag?_setProperty n x path v
  · rw [heq]
    rfl
  · rw [hdocument]

/-- A write under one name leaves what components have under another. -/
theorem get?_setProperty_of_ne (hp : p.WellNested strict) (n : NodeId) (path : PropertyPath)
    (hne : path.display ≠ name) (v : Value) (d : ComponentId) :
    ((p.setProperty n path v).component d).props.get? name = (p.component d).props.get? name := by
  rcases setProperty_cases hp n path v with heq | ⟨w, -, -, heq⟩ | ⟨-, hcomponents⟩
  · rw [heq]
    rfl
  · rw [heq]
    exact modifyComponent_frame (g := fun x => x.props.get? name) (fun x => x.get?_set_of_ne hne.symm v) p _ d
  · rw [component_of_getElem? (congrArg (·[d]?) hcomponents)]

theorem Receives.written (h : p.Receives n name) (hp : p.WellNested strict) (hw : p.widget? n = some w) (v : Value) :
    ∃ x, ((p.setProperty n (.single name) v).component w.component).props.get? name = some x ∧ x.ReadsAs v := by
  obtain ⟨e, he⟩ := custom?_of_declares h.1
  obtain ⟨w', hbehaviour, hw'⟩ := hp.behaviour he
  cases hw.symm.trans hw'
  have hidle : e.busy = false := Bool.eq_false_of_not_eq_true fun hbusy => h.2 ⟨e, he, hbusy⟩
  have hlives := hp.living n w hw
  have hhanded : p.setProperty n (.single name) v = p.writeWidget w (.single name) v :=
    setProperty_handed h.1 he hbehaviour hidle v
  rw [hhanded, writeWidget, if_pos hlives.free, component_modifyComponent hlives.owned]
  obtain ⟨x, hx, hreads⟩ := (p.component w.component).get?_set_self name v
  exact ⟨x, hx, Value.readsAs_of_eq_or_equals hreads⟩

/-- A component that no write reaches is left by writes as it is. -/
theorem Secludes.state_touched (hc : p.Secludes c) (h : p.Touched m q) :
    (q.component c).state = (p.component c).state := by
  by_contra hne
  obtain ⟨hidle, w, hw, hwc⟩ := h.components c hne
  exact hidle (hc m w hw hwc)

theorem Secludes.state_flushed (hc : p.Secludes c) (hp : p.WellNested strict) (hyoung : ∀ b, p.IsBusy b → b < m)
    (h : p.Flushed strict m q) : (q.component c).state = (p.component c).state := by
  by_contra hne
  obtain ⟨x, w, hx, hw, hwc⟩ := h.confined.components c hne
  exact Nat.not_lt.mpr (hp.within_le hx) (hyoung x (hc x w hw hwc))

theorem Secludes.grown (hc : p.Secludes c) (hlt : c < p.components.size) (hq : p.Grown strict none q) :
    q.Secludes c := by
  intro n w hw hwc
  by_cases hn : n < p.document.size
  · rw [widget?, hq.old n hn] at hw
    exact (hq.isBusy hn).mpr (hc n w hw hwc)
  · exact absurd (hwc ▸ hlt) (Nat.not_lt.mpr (hq.owned n w (Nat.not_lt.mp hn) hw))

/-- What happens elsewhere leaves the component of a widget as it is. -/
theorem WellNested.state_elsewhere {scope : NodeId → Prop} (hp : p.WellNested strict) (hw : p.widget? n = some w)
    (h : p.Confined scope q) (hn : ¬scope n) : (q.component w.component).state = (p.component w.component).state := by
  by_contra hne
  obtain ⟨x, w', hx, hw', hcomponent⟩ := h.components _ hne
  exact hn (hp.distinct x n w' w hw' hw hcomponent ▸ hx)

/-- A flush of a widget leaves its properties as they are. -/
theorem WellNested.props_flush {result : Except Fault Nat} (hp : p.WellNested False) (hw : p.widget? n = some w)
    (hyoung : ∀ b, p.IsBusy b → b < n) (h : (hostTo depth).flush n p = some (result, q)) :
    (q.component w.component).props = (p.component w.component).props := by
  cases depth with
  | zero => cases h
  | succ depth =>
    have hidle : ¬p.IsBusy n := fun hbusy => Nat.lt_irrefl n (hyoung n hbusy)
    obtain ⟨i, hshown⟩ := (hp.living n w hw).connected hidle
    obtain ⟨hcomponent, hatOnce, heq⟩ := hp.delivers_at_once hyoung hw hshown depth
    obtain ⟨⟨report, q'⟩, hdeliver, hanswer⟩ := Option.map_eq_some_iff.mp (heq.symm.trans h)
    cases hanswer
    have hfree : (p.setBusy n true).access i.component = .free := hcomponent ▸ (hp.living n w hw).free
    have hcleared := hatOnce.component hfree report q' hdeliver
    rw [hcomponent] at hcleared
    exact (congrArg Component.props hcleared :)

end Page

/-- The name of the property that a target sets, if it sets one. -/
def Target.key : Target → String
  | .property path => path.display
  | .attr name => name

/-- The instruction writes to the node of the slot what may go to the property. -/
def Op.Sets (op : Op) (s : Slot) (name : String) : Prop :=
  ∃ (t : Target) (value : Computation), op = t.op s value ∧ t.key = name

namespace Instance

/-- No instruction changes the tag of an element. -/
theorem tag?_execLocal (hp : p.WellNested strict) (o : Instance) (op : Op) (hbound : op.bound? = none) (x : NodeId) :
    (o.execLocal op p).2.document.tag? x = p.document.tag? x := by
  obtain ⟨run, hrun, heq⟩ := o.execLocal_runs op p
  rw [heq]
  cases hrun with
  | nothing _ => rfl
  | skip _ f => rfl
  | attach name hn => rfl
  | property path hn hv => exact Page.tag?_pageSetProperty hp _ x path _
  | callback name hn hv => exact Page.tag?_pageSetProperty hp _ x _ _
  | attr value name text hn => exact p.document.tag?_modifyElement _ x fun _ => rfl
  | noAttr value name hn => exact p.document.tag?_modifyElement _ x fun _ => rfl
  | listener event handler hn => exact p.document.tag?_modifyElement _ x fun _ => rfl
  | newText s value text fault => cases hbound
  | text value text hn => exact p.document.tag?_setText _ x _
  | child ha hb =>
    simp only [Page.append]
    split
    · exact Document.tag?_congr (p.document.kind?_append _ _ x)
    · rfl

/-- An instruction that does not write to the property leaves what components have under its name. -/
theorem get?_execLocal_of_not_sets (hp : p.WellNested strict) (o : Instance) (hsets : ¬op.Sets op.slot name)
    (d : ComponentId) :
    ((o.execLocal op p).2.component d).props.get? name = (p.component d).props.get? name := by
  obtain ⟨run, hrun, heq⟩ := o.execLocal_runs op p
  rw [heq]
  cases hrun with
  | @attach _ n key hn =>
    exact Page.modifyComponent_frame (g := fun x => x.props.get? name) (f := (·.attach key n)) (fun _ => rfl) p _ d
  | @property _ _ value _ path hn hv =>
    exact Page.get?_setProperty_of_ne hp _ path (fun hkey => hsets ⟨.property path, value, rfl, hkey⟩) _ d
  | @callback _ _ value _ key hn hv =>
    exact Page.get?_setProperty_of_ne hp _ (.single key) (fun hkey => hsets ⟨.attr key, value, rfl, hkey⟩) _ d
  | child ha hb =>
    simp only [Page.append]
    split <;> rfl
  | _ => rfl

end Instance

/-- What is known of the widget at a node in the course of a run for the component `c`: writes reach it until it is
flushed, and its property has what the last write has found. -/
structure Page.Supplies (p : Page) (c : ComponentId) (n : NodeId) (name : String) (flushed : Prop)
    (found : Except Fault Value → Prop) : Prop where
  widget : ∃ w, p.widget? n = some w
  receives : ¬flushed → p.Receives n name
  stored : ∀ result, found result → ∀ w, p.widget? n = some w → p.Stores w.component name c result

namespace Page.Supplies

theorem mono {flushed' : Prop} (h : p.Supplies c n name flushed found) (hflushed : flushed → flushed')
    (hfound : ∀ result, found' result → found result) : p.Supplies c n name flushed' found' :=
  ⟨h.widget, fun hnot => h.receives (mt hflushed hnot), fun result hresult => h.stored result (hfound result hresult)⟩

/-- At the start of a run all depends on the node being one that receives writes. -/
theorem start (hp : p.WellNested strict) (h : p.Receives n name) (hfound : ∀ result, ¬found result) :
    p.Supplies c n name flushed found :=
  ⟨hp.custom n (Bool.and_eq_true_iff.mp h.1).1, fun _ => h, fun result hresult => absurd hresult (hfound result)⟩

/-- What leaves the property and the tag of the widget as they are. -/
theorem steady (h : p.Supplies c n name flushed found) (hq : p.Steady q)
    (htag : q.document.tag? n = p.document.tag? n)
    (hget : ∀ w, p.widget? n = some w →
      (q.component w.component).props.get? name = (p.component w.component).props.get? name) :
    q.Supplies c n name flushed found where
  widget := by
    rw [hq.widget?]
    exact h.widget
  receives hnot := (h.receives hnot).steady hq htag
  stored result hresult w hw := by
    rw [hq.widget?] at hw
    exact (h.stored result hresult w hw).congr (hget w hw)

theorem grown (h : p.Supplies c n name flushed found) (hp : p.WellNested strict) (hn : n < p.document.size)
    (hq : p.Grown strict none q) : q.Supplies c n name flushed found where
  widget := by
    rw [Page.widget?, hq.old n hn]
    exact h.widget
  receives hnot := (h.receives hnot).grown hn hq
  stored result hresult w hw := by
    rw [Page.widget?, hq.old n hn] at hw
    have hstate := hq.states (hp.living n w hw).owned
    exact (h.stored result hresult w hw).congr (congrArg (·.get? name) (Component.props_of_state hstate))

theorem warned (h : p.Supplies c n name flushed found) (phase : Phase) (op : Op) (step : Step) :
    (Instance.stepWarned phase op step p).Supplies c n name flushed found := by
  refine h.steady (Instance.steady_stepWarned phase op step p) ?_ fun w _ => ?_
  · rw [Instance.document_stepWarned]
  · rw [Instance.component_stepWarned]

/-- The write itself. -/
theorem write (h : p.Supplies o.component n name flushed found) (hp : p.WellNested strict) (hn : o.node? s = some n)
    (hcalm : ¬flushed) (hexec : o.execLocal (.setProperty s (.single name) value) p = (step, q)) :
    q.Supplies o.component n name flushed (· = p.eval o.component value.formula) := by
  have htag := Instance.tag?_execLocal hp o (.setProperty s (.single name) value) rfl n
  rw [hexec] at htag
  simp only [Instance.execLocal, Instance.node_eq_ok.mpr hn] at hexec
  cases hv : p.eval o.component value.formula with
  | error f =>
    simp only [hv] at hexec
    cases hexec
    exact ⟨h.widget, h.receives, fun result hresult w _ v hv' => by cases hresult.symm.trans hv'⟩
  | ok v =>
    simp only [hv] at hexec
    cases hexec
    have hsteady := (Page.setProperty_touched hp n (.single name) (v.bound o.component)).steady
    refine ⟨?_, fun hnot => (h.receives hnot).steady hsteady htag, fun result hresult w hw v' hv' => ?_⟩
    · rw [hsteady.widget?]
      exact h.widget
    · cases hresult.symm.trans hv'
      rw [hsteady.widget?] at hw
      exact (h.receives hcalm).written hp hw _

end Page.Supplies

namespace Instance

/-- An instruction that leaves the property alone, or does not reach the node at all. -/
theorem get?_execLocal (hp : p.WellNested strict) (hn : o.Owns s n) (hbound : op.bound? = none)
    (hsets : ¬op.Sets s name) (hw : p.widget? n = some w) :
    ((o.execLocal op p).2.component w.component).props.get? name = (p.component w.component).props.get? name := by
  by_cases hs : op.slot = s
  · subst hs
    exact get?_execLocal_of_not_sets hp o hsets _
  · rcases o.execLocal_touched hp hbound with hnothing | ⟨m, hm, htouched, -⟩
    · rw [hnothing]
    · have hne : n ≠ m := fun heq => hs (hn.alone _ (heq ▸ hm))
      exact congrArg (·.get? name) (Component.props_of_state (hp.state_elsewhere hw htouched.confined hne))

/-- An instruction that binds no slot leaves a component that no write reaches as it is, apart from what it exposes. -/
theorem exec_state_secluded (hp : p.WellNested False) (hc : p.Secludes c) (hbound : op.bound? = none)
    (hyoung : ∀ s' m, op = .flushNested s' → o.node? s' = some m → ∀ b, p.IsBusy b → b < m)
    (hexec : o.exec (hostTo depth) op p = some (step, q)) : (q.component c).state = (p.component c).state := by
  cases exec_ran hexec with
  | alone hneeds hlocal =>
    have heffect := o.execLocal_touched hp hbound
    rw [hlocal] at heffect
    rcases heffect with rfl | ⟨m, -, htouched, -⟩
    · rfl
    · exact hc.state_touched htouched
  | created hm => cases hbound
  | unbuilt hf => rfl
  | @flushed s' m result _ hm hflush =>
    have hyoung := hyoung s' m rfl hm
    exact hc.state_flushed hp hyoung ((hostTo_flushes depth).flush m p result q hflush hp hyoung)

/-- What an instruction comes to for the widget at the node of a slot: only the write of the value writes to the
property, and nothing that is flushed before the widget is around it. -/
theorem exec_supplies (hp : p.WellNested False) (hn : o.Owns s n) (hbound : op.bound? = none)
    (hyoung : ∀ s' m, op = .flushNested s' → o.node? s' = some m → ∀ b, p.IsBusy b → b < m)
    (hapart : ∀ s' m, op = .flushNested s' → s' ≠ s → o.node? s' = some m → ¬p.Within m n)
    (hcalm : flushed → op.touched? ≠ some s) (hsets : op.Sets s name → op = .setProperty s (.single name) value)
    (h : p.Supplies o.component n name flushed found) (hexec : o.exec (hostTo depth) op p = some (step, q))
    (hwritten : op = .setProperty s (.single name) value → ∀ result, found' result →
      result = p.eval o.component value.formula)
    (hkept : op ≠ .setProperty s (.single name) value → ∀ result, found' result → found result) :
    q.Supplies o.component n name (flushed ∨ op = .flushNested s) found' := by
  by_cases hwrite : op = .setProperty s (.single name) value
  · subst hwrite
    have hcalm : ¬flushed := fun hflushed => hcalm hflushed rfl
    exact (h.write hp hn.node hcalm ((exec_local rfl).mp hexec)).mono Or.inl (hwritten rfl)
  have hsame := hkept hwrite
  cases exec_ran hexec with
  | alone hneeds hlocal =>
    refine Page.Supplies.mono ?_ Or.inl hsame
    have htag := tag?_execLocal hp o op hbound n
    have hget := fun w hw => get?_execLocal hp hn hbound (mt hsets hwrite) (w := w) hw
    have heffect := o.execLocal_touched hp hbound
    rw [hlocal] at htag hget heffect
    rcases heffect with rfl | ⟨m, -, htouched, -⟩
    · exact h
    · exact h.steady htouched.steady htag hget
  | created hm => cases hbound
  | unbuilt hf => exact h.mono Or.inl hsame
  | @flushed s' m result _ hm hflush =>
    have hyoung := hyoung s' m rfl hm
    have hflushed := (hostTo_flushes depth).flush m p result q hflush hp hyoung
    by_cases hs : s' = s
    · subst hs
      cases hm.symm.trans hn.node
      have hw := hflushed.steady.widget? n
      refine ⟨hw ▸ h.widget, fun hnot => absurd (Or.inr rfl) hnot, fun result hresult w hw' => ?_⟩
      rw [hw] at hw'
      refine (h.stored result (hsame result hresult) w hw').congr ?_
      rw [hp.props_flush hw' hyoung hflush]
    · have hout := hapart s' m rfl hs hm
      refine Page.Supplies.mono ?_ Or.inl hsame
      refine h.steady hflushed.steady (Document.tag?_congr (hflushed.confined.kinds n hout)) fun w hw => ?_
      exact congrArg (·.get? name) (Component.props_of_state (hp.state_elsewhere hw hflushed.confined hout))

/-- Steps that include the write of the value leave the widget supplied. -/
theorem runSteps_supplies {written : Prop} {excused : NodeId → Prop} {steps : List RefreshStep} {r : Report}
    (hp : p.WellNested False) (hc : p.Secludes o.component) (hn : o.Owns s n) (hprep : o.Prepared False excused steps p)
    (hapart : ∀ step ∈ steps, ∀ s' m, step.op = .flushNested s' → s' ≠ s → o.node? s' = some m → ¬p.Within m n)
    (hcalm : flushed → ∀ step ∈ steps, step.op.touched? ≠ some s)
    (hsets : ∀ step ∈ steps, step.op.Sets s name → step.op = .setProperty s (.single name) value)
    (h : p.Supplies o.component n name flushed fun result => written ∧ result = p.eval o.component value.formula)
    (hrun : o.runSteps (hostTo depth) steps p = some (r, q))
    (hwritten : written ∨ ∃ step ∈ steps, step.op = .setProperty s (.single name) value) :
    ∃ w, q.widget? n = some w ∧ q.Supplied o.component value w.component name := by
  induction steps generalizing flushed written p r with
  | nil =>
    obtain ⟨-, rfl⟩ := Act.pure_eq_some.mp hrun
    obtain ⟨w, hw⟩ := h.widget
    have hwritten := hwritten.resolve_right fun ⟨step, hstep, _⟩ => List.not_mem_nil hstep
    exact ⟨w, hw, h.stored _ ⟨hwritten, rfl⟩ w hw⟩
  | cons step rest ih =>
    obtain ⟨done, p₁, others, hexec, hrest, -⟩ := runSteps_cons.mp hrun
    obtain ⟨hsteady, -⟩ := exec_drains (hostTo_flushes depth) hp hprep hexec
    have hall := hsteady.trans (steady_stepWarned .refresh step.op done p₁)
    -- the component is spared, so the value is the same in all steps
    have heval : (stepWarned .refresh step.op done p₁).eval o.component value.formula =
        p.eval o.component value.formula := by
      refine Page.eval_of_getElem? ?_ _
      rw [components_stepWarned]
      exact exec_spares (hostTo_spares depth) hp hprep hc done p₁ hexec
    have hnext : p₁.Supplies o.component n name (flushed ∨ step.op = .flushNested s) fun result =>
        (written ∨ step.op = .setProperty s (.single name) value) ∧ result = p.eval o.component value.formula :=
      exec_supplies hp hn (hprep.inPlace step List.mem_cons_self).bound? (hprep.young step List.mem_cons_self)
        (hapart step List.mem_cons_self) (fun hflushed => hcalm hflushed step List.mem_cons_self)
        (hsets step List.mem_cons_self) h hexec (fun _ _ hresult => hresult.2)
        fun hwrite _ hresult => hresult.imp_left (Or.resolve_right · hwrite)
    refine ih (hp.steady hall) (hc.steady hall) (hprep.tail hall) ?_ ?_
      (fun other hother => hsets other (List.mem_cons_of_mem _ hother))
      (heval ▸ hnext.warned .refresh step.op done) hrest ?_
    · rw [hall.within]
      exact fun other hother => hapart other (List.mem_cons_of_mem _ hother)
    · rintro (hflushed | hop) other hother
      · exact hcalm hflushed other (List.mem_cons_of_mem _ hother)
      · exact (List.pairwise_cons.mp hprep.order).1 other hother s hop
    · rcases hwritten with hwritten | ⟨other, hother, hop⟩
      · exact Or.inl (Or.inl hwritten)
      · rcases List.mem_cons.mp hother with rfl | hother
        · exact Or.inl (Or.inr hop)
        · exact Or.inr ⟨other, hother, hop⟩

end Instance

/-- Before the first slot is bound nothing can be done. -/
theorem Op.Sequence.eq_nil {ops : List Op} (h : Op.Sequence 0 ops 0) : ops = [] := by
  cases ops with
  | nil => rfl
  | cons op rest => exact absurd h.first.2.le (Nat.not_succ_le_zero 0)

theorem Op.Sequence.bound_first {k' j : Nat} (h : Op.Sequence k (op :: rest) k') (hop : op.bound? = some j) :
    k = j := by
  cases h with
  | bind hop' _ => exact Option.some.inj (hop'.symm.trans hop)
  | use hop' _ _ => cases hop'.symm.trans hop

/-- A new widget receives writes of the properties that its tag declares. -/
theorem Page.During.create_receives {d : Definition} (h : p.During depth (.create tag .html))
    (hd : p.registry.get? tag = some d) (hname : name ∈ d.properties)
    (hcreate : (hostTo depth).create tag .html p = some (n, q)) : q.Receives n name := by
  cases depth with
  | zero => cases hcreate
  | succ depth =>
    have hp := h.ready.1
    have hmade := (hostTo_creates (depth + 1)).create tag .html p n q hcreate hp
    obtain ⟨rfl, t, initial, i, found, r, hkind, hbuild, hw, -, -, hlands⟩ :=
      createElementWith_lands (hostTo_leavesWaiting depth) hp h.waits hd hcreate
    -- the tag survives the build of the template, for the element is busy meanwhile
    have hconnects := Page.During.connects h hd hkind
    obtain ⟨-, htends, hconnecting⟩ := hp.startConnecting hd hkind
    have hobstacle := Template.obstacle?_of_buildOn hbuild
    obtain ⟨i', report, hrun, -⟩ := (Template.buildOn_eq_some hobstacle).mp hbuild
    obtain ⟨hheld, -⟩ := Instance.runBuild_holding (hostTo_leavesWaiting depth) hconnects.ready.2 hconnects.waits hrun
    obtain ⟨_, _, -, hunder, -⟩ := Template.buildOn_underway (hostTo_creates depth) (hostTo_flushes depth)
      hconnects.ready.1 (Page.tended_false _ ▸ htends) hobstacle hbuild
    have hdeclares : r.declares p.document.size name = true := by
      rw [hheld.declares _ name (hconnecting.isBusy hp), declares_startConnecting hp hd hkind]
      exact List.contains_iff_mem.mpr hname
    have hregistry : q.registry = r.registry :=
      hmade.registry.trans (hunder.grown.registry.trans hconnecting.registry).symm
    have hcustom : q.isCustom p.document.size = r.isCustom p.document.size := by
      obtain ⟨e, he⟩ := custom?_of_declares hdeclares
      rw [isCustom_of_widget? hw, isCustom_of_custom? he]
    refine ⟨(declares_congr hregistry hcustom ?_ name).trans hdeclares, hmade.calm _ (Nat.le_refl _)⟩
    rw [hlands.document]

/-- So does the node that a build takes for an element, if it is new or is given and receives them already. -/
theorem Page.During.bind_receives {d : Definition} (h : p.During depth (.build i root (op :: rest)))
    (hd : p.registry.get? tag = some d) (hname : name ∈ d.properties)
    (hop : op = .createElement s tag .html ∨ op = .adoptRoot s)
    (hroot : op = .adoptRoot s → ∀ r, root = some r → p.Receives r name) (hs : s < i.slots.length)
    (hexec : i.execBuild (hostTo depth) root op p = some (step, q)) (hn : step.inst.node? s = some n) :
    q.Receives n name := by
  rcases hop with rfl | rfl
  · obtain ⟨m, hcreate, rfl⟩ := Instance.exec_createElement.mp hexec
    rw [Instance.node?_bind_self hs] at hn
    cases hn
    exact h.creates.create_receives hd hname hcreate
  · obtain ⟨rfl, rfl⟩ := Instance.execBuild_adoptRoot.mp hexec
    rw [Instance.node?_bind_self hs] at hn
    exact hroot rfl n hn

/-- A template that writes the value to the property of the element at a slot, and nothing else to that property. -/
structure Template.Feeds (t : Template) (s : Slot) (tag name : String) (value : Computation) : Prop where
  binds : ∀ op ∈ t.build, op.bound? = some s → op = .createElement s tag .html ∨ op = .adoptRoot s
  writes : .setProperty s (.single name) value ∈ t.build
  alone : ∀ op ∈ t.build, op.Sets s name → op = .setProperty s (.single name) value
  again : ∀ changed, ∀ step ∈ t.refresh.filter fun step => step.triggeredBy changed,
    step.op.Sets s name → step.op = .setProperty s (.single name) value

/-- What the component of an instance exposes once the instructions have run. While it is in use, nothing is added. -/
def Page.exposedBy (p : Page) (i : Instance) (ops : List Op) : Dict NodeId :=
  if p.access i.component = .free then i.exposeAll ops (p.points i.component) else p.points i.component

/-- At every moment the elements are widgets of compiled templates. -/
theorem Page.During.widgetsOnly {a : Activity} (h : p.During depth a) : p.WidgetsOnly := by
  induction h with
  | create hp _ tag ns => exact hp.widgetsOnly
  | flush hp _ n => exact hp.widgetsOnly
  | build hp _ ht hfits sink => exact hp.widgetsOnly
  | refresh hp _ hi changed => exact hp.widgetsOnly
  | built _ hexec ih =>
    have hq := (Instance.execBuild_widgetsOnly (hostTo_orderly _) ih hexec).1
    exact (Instance.stepWarned_keeps hq True .build _ _).widgets
  | refreshed _ hexec ih =>
    have hq := (Instance.exec_keeps (hostTo_orderly _) ih hexec).widgets
    exact (Instance.stepWarned_keeps hq True .refresh _ _).widgets
  | again _ ih => exact ih.congr rfl rfl
  | creates _ ih => exact ih
  | flushesBuilt _ _ ih => exact ih
  | flushes _ _ _ ih => exact ih
  | @connects _ p tag d t initial _ hd _ ih =>
    have hpushed : { p with document := p.document.push (.element (.ofTag tag .html)) }.WidgetsOnly := ih.congr rfl rfl
    exact widgetsOnly_beginConnecting hpushed (ih.defined tag d hd) _
  | @delivers _ p n _ _ _ _ _ ih =>
    have hbusy : (p.setBusy n true).WidgetsOnly := ih.modifyCustom n fun _ hb => hb
    exact hbusy.congr rfl rfl

/-- The component of a build on what was the page `p₀` is as it was there, apart from what it exposes by now. -/
structure Instance.Outlined (i : Instance) (p₀ : Page) (done : List Op) (p : Page) : Prop where
  known : i.component < p₀.components.size
  count : p₀.components.size ≤ p.components.size
  access : p.access i.component = p₀.access i.component
  state : (p.component i.component).state = (p₀.component i.component).state
  points : p.points i.component = p₀.exposedBy i done

namespace Instance.Outlined

theorem start (hc : i.component < p.components.size) : i.Outlined p [] p :=
  ⟨hc, Nat.le_refl _, rfl, rfl, by rw [Page.exposedBy]; split <;> rfl⟩

theorem eval_exposing (h : i.Outlined p₀ done p) (points : Dict NodeId) (formula : Formula) :
    (p.exposing i.component points).eval i.component formula =
      (p₀.exposing i.component points).eval i.component formula := by
  refine Page.eval_congr ?_ ?_ formula
  · rw [Page.exposing, Page.access_modifyComponent, h.access, Page.exposing, Page.access_modifyComponent]
  · rw [Page.exposing, Page.component_modifyComponent (Nat.lt_of_lt_of_le h.known h.count), Page.exposing,
      Page.component_modifyComponent h.known]
    exact congrArg (fun state : Component => { state with attachPoints := points }) h.state

/-- What a computation gives in the course of the build. -/
theorem eval (h : i.Outlined p₀ done p) (formula : Formula) : p.eval i.component formula =
    (p₀.exposing i.component (p₀.exposedBy i done)).eval i.component formula := by
  rw [← h.eval_exposing, ← h.points]
  refine Page.eval_congr ?_ ?_ formula
  · rw [Page.exposing, Page.access_modifyComponent]
  · rw [Page.exposing_points]

theorem steady (h : i.Outlined p₀ done p) (hq : p.Steady q)
    (hcomponent : q.component i.component = p.component i.component) : i.Outlined p₀ done q :=
  ⟨h.known, hq.count ▸ h.count, (hq.access _).trans h.access, hcomponent ▸ h.state,
    (congrArg Component.attachPoints hcomponent).trans h.points⟩

theorem warned (h : i.Outlined p₀ done p) (phase : Phase) (op : Op) (step : Step) :
    i.Outlined p₀ done (stepWarned phase op step p) :=
  h.steady (steady_stepWarned phase op step p) (component_stepWarned phase op step p _)

/-- A new slot has nothing to do with the instructions before. -/
theorem bind (h : i.Outlined p₀ done p) (hdone : Op.Sequence 0 done k) (hop : op.bound? = some k)
    (hgrown : p.Grown False none q) (hfurnished : p.Furnished q) (n : Option NodeId) :
    (i.bind k n).Outlined p₀ (done ++ [op]) q := by
  have hlt : i.component < p.components.size := Nat.lt_of_lt_of_le h.known h.count
  have hexposed : p₀.exposedBy (i.bind k n) (done ++ [op]) = p₀.exposedBy i done := by
    have hne : ∀ s name, op ≠ .attach s name := by
      rintro s name rfl
      cases hop
    rw [Page.exposedBy, exposeAll_concat, expose_of_ne_attach hne, exposeAll_bind hdone]
    rfl
  refine ⟨h.known, Nat.le_trans h.count hgrown.count, (hgrown.access _ hlt).trans h.access,
    (hgrown.states hlt).trans h.state, ?_⟩
  rw [hexposed, ← h.points]
  exact hfurnished.kept _ hlt

theorem use (h : i.Outlined p₀ done p) (hp : p.WidgetsOnly) (hop : op.bound? = none) (hsteady : p.Steady q)
    (hstate : (q.component i.component).state = (p.component i.component).state)
    (hexec : i.execBuild (hostTo depth) root op p = some (step, q)) : i.Outlined p₀ (done ++ [op]) q := by
  refine ⟨h.known, hsteady.count ▸ h.count, (hsteady.access _).trans h.access, hstate.trans h.state, ?_⟩
  have hlt : i.component < p.components.size := Nat.lt_of_lt_of_le h.known h.count
  rw [Page.exposedBy]
  by_cases hfree : p₀.access i.component = .free
  · rw [(points_execBuild (hostTo_orderly depth) hlt (h.access.trans hfree) hp hop hexec).1, h.points,
      Page.exposedBy, if_pos hfree, if_pos hfree, exposeAll_concat]
  · rw [points_execBuild_of_busy (hostTo_orderly depth) (h.access ▸ hfree) hp hop hexec, h.points,
      Page.exposedBy, if_neg hfree, if_neg hfree]

end Instance.Outlined

/-- What the last of the writes of a value among the instructions that have run found. -/
def Page.FoundLast (p₀ : Page) (i : Instance) (s : Slot) (name : String) (value : Computation) (done : List Op)
    (result : Except Fault Value) : Prop :=
  ∃ before after, done = before ++ .setProperty s (.single name) value :: after ∧
    .setProperty s (.single name) value ∉ after ∧
    result = (p₀.exposing i.component (p₀.exposedBy i before)).eval i.component value.formula

namespace Page.FoundLast

theorem of_concat_ne (h : p₀.FoundLast i s name value (done ++ [op]) result)
    (hop : op ≠ .setProperty s (.single name) value) : p₀.FoundLast i s name value done result := by
  obtain ⟨before, after, hdone, hafter, hresult⟩ := h
  rcases List.eq_nil_or_concat after with rfl | ⟨front, last, rfl⟩
  · exact absurd (List.append_inj_right' hdone rfl) (by simpa using hop)
  · rw [List.concat_eq_append, ← List.cons_append, ← List.append_assoc] at hdone
    refine ⟨before, front, List.append_inj_left' hdone rfl, fun hmem => hafter ?_, hresult⟩
    rw [List.concat_eq_append]
    exact List.mem_append_left _ hmem

theorem of_concat_self (h : p₀.FoundLast i s name value (done ++ [.setProperty s (.single name) value]) result) :
    result = (p₀.exposing i.component (p₀.exposedBy i done)).eval i.component value.formula := by
  obtain ⟨before, after, hdone, hafter, hresult⟩ := h
  rcases List.eq_nil_or_concat after with rfl | ⟨front, last, rfl⟩
  · rwa [List.append_inj_left' hdone rfl]
  · rw [List.concat_eq_append, ← List.cons_append, ← List.append_assoc] at hdone
    cases List.append_inj_right' hdone rfl
    exact absurd (List.concat_eq_append ▸ List.mem_append_right _ (List.mem_singleton_self _)) hafter

theorem exists_of_mem (p₀ : Page) (i : Instance) (h : .setProperty s (.single name) value ∈ done) :
    ∃ before after, done = before ++ .setProperty s (.single name) value :: after ∧
      p₀.FoundLast i s name value done ((p₀.exposing i.component (p₀.exposedBy i before)).eval i.component
        value.formula) := by
  obtain ⟨after, before, hsplit, hafter⟩ := List.eq_append_cons_of_mem (List.mem_reverse.mpr h)
  have hdone : done = before.reverse ++ .setProperty s (.single name) value :: after.reverse := by
    rw [← List.reverse_reverse done, hsplit]
    simp
  exact ⟨before.reverse, after.reverse, hdone, _, _, hdone, mt List.mem_reverse.mp hafter, rfl⟩

theorem of_bind {n : Option NodeId} (h : p₀.FoundLast (i.bind k n) s name value done result)
    (hdone : Op.Sequence 0 done k) : p₀.FoundLast i s name value done result := by
  obtain ⟨before, after, rfl, hafter, hresult⟩ := h
  refine ⟨before, after, rfl, hafter, hresult.trans ?_⟩
  have hexposed : p₀.exposedBy (i.bind k n) before = p₀.exposedBy i before := by
    rw [exposedBy, exposedBy, Instance.exposeAll_congr fun op hop s hs => Instance.node?_bind_of_ne
      (Nat.ne_of_lt (hdone.mentions_lt op (List.mem_append_left _ hop) s hs)) n]
    rfl
  rw [hexposed]
  rfl

end Page.FoundLast

/-- A build under way on what was the page `p₀` that is to supply the widget at a slot. -/
structure Page.Supplying (p₀ : Page) (depth : Nat) (root : Option NodeId) (s : Slot) (tag name : String)
    (value : Computation) (done ops : List Op) (i : Instance) (p : Page) : Prop where
  during : p.During depth (.build i root ops)
  feeds : i.template.Feeds s tag name value
  build : i.template.build = done ++ ops
  secluded : p.Secludes i.component
  outlined : i.Outlined p₀ done p
  defined : ∃ d, p.registry.get? tag = some d ∧ name ∈ d.properties
  rooted : done = [] → .adoptRoot s ∈ ops → ∀ r, root = some r → p.Receives r name
  supplies : ∀ n, i.node? s = some n →
    p.Supplies i.component n name (.flushNested s ∈ done) (p₀.FoundLast i s name value done)

namespace Page.Supplying

variable {p₁ : Page}

/-- The node that the build takes for the slot receives writes, and others are left alone. -/
theorem bind (h : p₀.Supplying depth root s tag name value done (op :: rest) i p)
    (hunder : i.Underway False root p₁ k (op :: rest) p) (htends : i.template.Tends (p₁.Tended False))
    (hbefore : ∀ r, root = some r → r < p₁.document.size) (hk : k < i.slots.length) (hop : op.bound? = some k)
    (hexec : i.execBuild (hostTo depth) root op p = some (step, q)) :
    p₀.Supplying depth root s tag name value (done ++ [op]) rest step.inst (Instance.stepWarned .build op step q) := by
  have hmem : op ∈ i.template.build := h.build ▸ List.mem_append_right _ List.mem_cons_self
  have hsteady := Instance.steady_stepWarned .build op step q
  obtain ⟨hgrown, bound, hinst, -⟩ :=
    Instance.execBuild_binds (hostTo_creates depth) hunder h.build htends hbefore hk hop hexec
  obtain ⟨k₁, hdone, htail⟩ := (h.build ▸ htends.sequence : Op.Sequence 0 (done ++ op :: rest) _).split
  obtain rfl : k = k₁ := (htail.bound_first hop).symm
  have hfurnished := Instance.execBuild_furnishes (hostTo_furnishes depth) h.during.ready.1 h.during.widgetsOnly hop
    hexec
  have hlt : i.component < p.components.size := Nat.lt_of_lt_of_le h.outlined.known h.outlined.count
  obtain ⟨d, hd, hname⟩ := h.defined
  refine ⟨h.during.built hexec, ?_, ?_, ?_, ?_, ⟨d, ?_, hname⟩, fun hnil => by simp at hnil, fun n hn => ?_⟩
  · rw [hinst]
    exact h.feeds
  · rw [hinst, List.append_assoc]
    exact h.build
  · rw [hinst]
    exact (h.secluded.grown hlt hgrown).steady hsteady
  · rw [hinst]
    exact (h.outlined.bind hdone hop hgrown hfurnished bound).warned .build op step
  · rw [hsteady.registry, hgrown.registry]
    exact hd
  · refine Page.Supplies.warned ?_ .build op step
    by_cases hs : k = s
    · -- nothing has been done to a slot before it is bound
      subst hs
      have hnew : ∀ other ∈ done, other.slot ≠ k := fun other hother =>
        Nat.ne_of_lt (hdone.mentions_lt other hother _ other.slot_mem_mentions)
      refine .start hgrown.wellNested ?_ fun result hfound => ?_
      · refine h.during.bind_receives hd hname (h.feeds.binds op hmem hop) (fun heq => ?_) hk hexec hn
        have hzero := (htends.adopted k (heq ▸ hmem)).1
        exact h.rooted (hzero ▸ hdone).eq_nil (heq ▸ List.mem_cons_self)
      · obtain ⟨before, after, rfl, -⟩ := hfound.of_concat_ne (by rintro rfl; cases hop)
        exact hnew _ (List.mem_append_right _ List.mem_cons_self) rfl
    · rw [hinst] at hn ⊢
      rw [Instance.node?_bind_of_ne (Ne.symm hs)] at hn
      refine ((h.supplies n hn).grown h.during.ready.1 (hunder.node_lt hn) hgrown).mono
        (List.mem_append_left _) fun result hfound => ?_
      exact (hfound.of_concat_ne (by rintro rfl; cases hop)).of_bind hdone

theorem use (h : p₀.Supplying depth root s tag name value done (op :: rest) i p)
    (hunder : i.Underway False root p₁ k (op :: rest) p) (htends : i.template.Tends (p₁.Tended False))
    (hop : op.bound? = none) (hexec : i.execBuild (hostTo depth) root op p = some (step, q)) :
    p₀.Supplying depth root s tag name value (done ++ [op]) rest step.inst (Instance.stepWarned .build op step q) := by
  have hmem : op ∈ i.template.build := h.build ▸ List.mem_append_right _ List.mem_cons_self
  have hinst := Instance.execBuild_inst_of_not_bound hop hexec
  obtain ⟨hsteady, -⟩ := Instance.execBuild_uses (hostTo_flushes depth) hunder h.build htends hop hexec
  have hall := hsteady.trans (Instance.steady_stepWarned .build op step q)
  have hnext := h.during.built hexec
  have hexec' := hexec
  rw [Instance.execBuild_of_not_bound hop] at hexec'
  have hyoung : ∀ s' m, op = .flushNested s' → i.node? s' = some m → ∀ b, p.IsBusy b → b < m := by
    rintro s' m rfl hm b hb
    exact hunder.busy_lt (hunder.created_le htends hmem hm) hb
  have hstate := Instance.exec_state_secluded h.during.ready.1 h.secluded hop hyoung hexec'
  obtain ⟨d, hd, hname⟩ := h.defined
  rw [hinst] at hnext ⊢
  refine ⟨hnext, h.feeds, ?_, h.secluded.steady hall, ?_, ⟨d, ?_, hname⟩, fun hnil => by simp at hnil, fun n hn => ?_⟩
  · rw [List.append_assoc]
    exact h.build
  · exact (h.outlined.use h.during.widgetsOnly hop hsteady hstate hexec).warned .build op step
  · rw [hall.registry]
    exact hd
  · have horder := htends.build_order
    rw [h.build] at horder
    have hfirst : q.Supplies i.component n name (.flushNested s ∈ done ∨ op = .flushNested s)
        (p₀.FoundLast i s name value (done ++ [op])) := by
      refine Instance.exec_supplies h.during.ready.1 ⟨hn, fun s' hs' => hunder.injective s' s n hs' hn⟩ hop hyoung
        (fun s' m _ hs hm => hunder.spread s s' n m hs.symm hn hm)
        (fun hflushed => (List.pairwise_append.mp horder).2.2 _ hflushed op List.mem_cons_self s rfl)
        (h.feeds.alone op hmem) (h.supplies n hn) hexec' ?_ fun hne result hfound => hfound.of_concat_ne hne
      rintro rfl result hfound
      exact hfound.of_concat_self.trans (h.outlined.eval _).symm
    refine (hfirst.mono (fun hflushed => ?_) fun _ hfound => hfound).warned .build op step
    rwa [List.mem_append, List.mem_singleton, eq_comm (b := op)]

theorem next (h : p₀.Supplying depth root s tag name value done (op :: rest) i p)
    (hexec : i.execBuild (hostTo depth) root op p = some (step, q)) :
    p₀.Supplying depth root s tag name value (done ++ [op]) rest step.inst (Instance.stepWarned .build op step q) := by
  obtain ⟨-, hbuilding⟩ := h.during.ready
  obtain ⟨p₁, k, k', hunder, hbefore, hseq, hlen⟩ := hbuilding.underway
  have htends : i.template.Tends (p₁.Tended False) := p₁.tended_false ▸ hbuilding.tends
  cases hseq with
  | bind hop hseq => exact h.bind hunder htends hbefore (Nat.lt_of_lt_of_le hseq.le hlen) hop hexec
  | use hop _ hseq => exact h.use hunder htends hop hexec

/-- A build supplies the widget at a slot, be it created or given, with what the last write has found. -/
theorem supplied {ops : List Op} {i' : Instance} {r : Report}
    (h : p₀.Supplying depth root s tag name value done ops i p)
    (hrun : i.runBuild (hostTo depth) root ops p = some ((i', r), q)) (hn : i'.node? s = some n) :
    i'.Owns s n ∧ ∃ before after w,
      i'.template.build = before ++ .setProperty s (.single name) value :: after ∧ q.widget? n = some w ∧
      (q.exposing i'.component (p₀.exposedBy i' before)).Supplied i'.component value w.component name := by
  induction ops generalizing i p done r with
  | nil =>
    obtain ⟨heq, rfl⟩ := Act.pure_eq_some.mp hrun
    cases heq
    obtain ⟨_, _, _, hunder, -⟩ := h.during.ready.2.underway
    have hbuild := h.build.trans (List.append_nil done)
    obtain ⟨before, after, hsplit, hfound⟩ := FoundLast.exists_of_mem p₀ i' (hbuild ▸ h.feeds.writes)
    obtain ⟨w, hw⟩ := (h.supplies n hn).widget
    refine ⟨⟨hn, fun s' hs' => hunder.injective s' s n hs' hn⟩, before, after, w, hbuild.trans hsplit, hw, ?_⟩
    have hstored := (h.supplies n hn).stored _ hfound w hw
    rw [← h.outlined.eval_exposing] at hstored
    exact hstored.congr (by rw [props_exposing])
  | cons op rest ih =>
    obtain ⟨step, p₁, others, hexec, hrest, -⟩ := Instance.runBuild_cons.mp hrun
    exact ih (h.next hexec) hrest

end Page.Supplying

end LiveMarkup
