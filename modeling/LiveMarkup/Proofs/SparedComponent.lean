import LiveMarkup.Proofs.NestedFlush

namespace LiveMarkup

variable {c : ComponentId} {p q : Page} {strict : Prop} {n : NodeId} {host : Host} {path : PropertyPath}
  {e : CustomElement} {excused : NodeId → Prop}

/-- Whatever the act does on the page, it does not change the component. -/
def Act.Spares (c : ComponentId) (p : Page) (m : Act α) : Prop :=
  ∀ a q, m p = some (a, q) → q.components[c]? = p.components[c]?

namespace Act

theorem spares_pure (c : ComponentId) (p : Page) (a : α) : Spares c p (pure a) := by
  intro b q h
  obtain ⟨-, rfl⟩ := pure_eq_some.mp h
  rfl

theorem Spares.bind {m : Act α} {g : α → Act β} (hm : Spares c p m)
    (hg : ∀ a q, m p = some (a, q) → Spares c q (g a)) : Spares c p (m >>= g) := by
  intro b r h
  obtain ⟨a, q, hfirst, hrest⟩ := bind_eq_some.mp h
  exact (hg a q hfirst b r hrest).trans (hm a q hfirst)

theorem spares_get {g : Page → Act α} (hg : Spares c p (g p)) : Spares c p (get >>= g) :=
  hg

theorem spares_modifyGet {g : Page → α × Page} (h : (g p).2.components[c]? = p.components[c]?) :
    Spares c p (modifyGet g : Act α) := by
  intro a q hrun
  rw [modifyGet_eq_some.mp hrun] at h
  exact h

theorem spares_modify {g : Page → Page} (h : (g p).components[c]? = p.components[c]?) :
    Spares c p (modify g : Act PUnit) :=
  spares_modifyGet h

end Act

namespace Page

theorem eval_of_getElem? (h : q.components[c]? = p.components[c]?) (formula : Formula) :
    q.eval c formula = p.eval c formula := by
  have hcell : q.cell c = p.cell c := by rw [cell, h, cell]
  exact eval_congr (congrArg Cell.access hcell) (congrArg Cell.component hcell) formula

/-- No write reaches the component: if a widget has it, the widget is busy. -/
def Secludes (p : Page) (c : ComponentId) : Prop :=
  ∀ n w, p.widget? n = some w → w.component = c → p.IsBusy n

theorem Secludes.steady (h : p.Secludes c) (hq : p.Steady q) : q.Secludes c :=
  fun n w hw hwc => (hq.isBusy n).mpr (h n w (hq.widget? n ▸ hw) hwc)

theorem setProperty_stored (h : p.declares n path.head = false) (v : Value) :
    p.setProperty n path v = { p with document := p.document.setProperty n path v } := by
  rw [setProperty, h]
  rfl

theorem setProperty_handed {w : Widget} (h : p.declares n path.head = true) (he : p.custom? n = some e)
    (hw : e.behaviour = .widget w) (hbusy : e.busy = false) (v : Value) :
    p.setProperty n path v = p.writeWidget w path v := by
  simp only [setProperty, h, he, hbusy, hw, writeBehaviour, ↓reduceIte, Bool.not_false]

theorem setProperty_held (h : p.declares n path.head = true) (he : p.custom? n = some e) (hbusy : e.busy = true)
    (hconnecting : p.connecting.contains n = true) (v : Value) :
    p.setProperty n path v = { p with deferred := p.deferred ++ [⟨n, path, v⟩] } := by
  simp only [setProperty, h, he, hbusy, hconnecting, ↓reduceIte, Bool.not_true, Bool.false_eq_true]

theorem setProperty_dropped (h : p.declares n path.head = true) (he : p.custom? n = some e) (hbusy : e.busy = true)
    (hconnecting : p.connecting.contains n = false) (v : Value) :
    p.setProperty n path v = p.warn (droppedWrite n path) := by
  simp only [setProperty, h, he, hbusy, hconnecting, ↓reduceIte, Bool.not_true, Bool.false_eq_true]

theorem custom?_of_declares {name : String} (h : p.declares n name = true) : ∃ e, p.custom? n = some e := by
  rw [declares, Bool.and_eq_true] at h
  exact Option.isSome_iff_exists.mp h.1

/-- A write goes to the document, or to a widget that is not busy, or it waits or is dropped. -/
theorem setProperty_cases (hp : p.WellNested strict) (n : NodeId) (path : PropertyPath) (v : Value) :
    p.setProperty n path v = { p with document := p.document.setProperty n path v } ∨
    (∃ w, p.widget? n = some w ∧ ¬p.IsBusy n ∧
      p.setProperty n path v = p.modifyComponent w.component (·.set path.display v)) ∨
    (p.setProperty n path v).document = p.document ∧ (p.setProperty n path v).components = p.components := by
  cases hdeclares : p.declares n path.head with
  | false => exact Or.inl (setProperty_stored hdeclares v)
  | true =>
    obtain ⟨e, he⟩ := custom?_of_declares hdeclares
    obtain ⟨w, hbehaviour, hw⟩ := hp.behaviour he
    cases hbusy : e.busy with
    | false =>
      refine Or.inr (Or.inl ⟨w, hw, ?_, (setProperty_handed hdeclares he hbehaviour hbusy v).trans ?_⟩)
      · rintro ⟨e', he', hbusy'⟩
        cases he.symm.trans he'
        exact Bool.false_ne_true (hbusy.symm.trans hbusy')
      · exact if_pos (hp.living n w hw).free
    | true =>
      refine Or.inr (Or.inr ?_)
      cases hconnecting : p.connecting.contains n with
      | true =>
        rw [setProperty_held hdeclares he hbusy hconnecting]
        exact ⟨rfl, rfl⟩
      | false =>
        rw [setProperty_dropped hdeclares he hbusy hconnecting]
        exact ⟨rfl, rfl⟩

/-- A write to a busy widget waits or is dropped, and another widget has another component. -/
theorem setProperty_spared (hp : p.WellNested strict) (hc : p.Secludes c) (n : NodeId) (path : PropertyPath)
    (v : Value) : (p.setProperty n path v).components[c]? = p.components[c]? := by
  rcases setProperty_cases hp n path v with heq | ⟨w, hw, hidle, heq⟩ | ⟨-, heq⟩
  · rw [heq]
  · have hne : w.component ≠ c := fun hsame => hidle (hc n w hw hsame)
    rw [heq, modifyComponent, Array.getElem?_modify, if_neg hne]
  · rw [heq]

end Page

/-- Flushing one of the elements that came after all busy ones spares the components that no write reaches. -/
def Host.Spares (strict : Prop) (host : Host) : Prop :=
  ∀ c n p, p.WellNested strict → p.Secludes c → (∀ m, p.IsBusy m → m < n) → Act.Spares c p (host.flush n)

namespace Instance

variable {i : Instance}

theorem execLocal_spares (hp : p.WellNested strict) (hc : p.Secludes c) (i : Instance) {op : Op}
    (hop : op.InPlace) : Act.Spares c p (modifyGet (i.execLocal op) : Act Step) := by
  obtain ⟨run, hrun, heq⟩ := i.execLocal_effect op p
  refine Act.spares_modifyGet ?_
  rw [heq p (fun _ => rfl) rfl]
  cases hrun with
  | property path hn hv => exact Page.setProperty_spared hp hc _ path _
  | callback name hn hv => exact Page.setProperty_spared hp hc _ _ _
  | nothing _ => rfl
  | skip _ f => rfl
  | attr value name text hn => rfl
  | noAttr value name hn => rfl
  | text value text hn => rfl
  | _ => exact hop.elim

theorem exec_spares (hhost : host.Spares strict) {step : RefreshStep} {rest : List RefreshStep}
    (hp : p.WellNested strict) (hprep : i.Prepared strict excused (step :: rest) p) (hc : p.Secludes c) :
    Act.Spares c p (i.exec host step.op) := by
  have hop := hprep.inPlace step List.mem_cons_self
  cases hstep : step.op with
  | flushNested s =>
    cases hn : i.node s with
    | error f =>
      simp only [exec, hn]
      exact Act.spares_pure c p _
    | ok n =>
      simp only [exec, hn]
      have hyoung := hprep.young step List.mem_cons_self s n hstep (node_eq_ok.mp hn)
      refine (hhost c n p hp hc hyoung).bind fun result q _ => ?_
      cases result with
      | error f => exact Act.spares_pure c q _
      | ok k => exact Act.spares_pure c q _
  | setProperty s path value => exact execLocal_spares hp hc i trivial
  | setAttribute s name value => exact execLocal_spares hp hc i trivial
  | setText s value => exact execLocal_spares hp hc i trivial
  | _ =>
    rw [hstep] at hop
    exact hop.elim

theorem report_spares (c : ComponentId) (p : Page) (phase : Phase) (op : Op) (step : Step) :
    Act.Spares c p (report phase op step) := by
  unfold report
  cases step.fault with
  | none => exact Act.spares_pure c p _
  | some fault =>
    refine (Act.spares_modify ?_).bind fun _ q _ => Act.spares_pure c q _
    rw [Page.tell_eq]

theorem runSteps_spares (hflush : host.Flushes strict) (hhost : host.Spares strict) {steps : List RefreshStep}
    (hp : p.WellNested strict) (hprep : i.Prepared strict excused steps p) (hc : p.Secludes c) :
    Act.Spares c p (i.runSteps host steps) := by
  induction steps generalizing p with
  | nil => exact Act.spares_pure c p _
  | cons step rest ih =>
    refine (exec_spares hhost hp hprep hc).bind fun done p₁ hstep => ?_
    refine (report_spares c p₁ .refresh step.op done).bind fun first p₂ hreport => ?_
    have hsteady := (exec_drains hflush hp hprep hstep).1.trans (steady_stepWarned .refresh step.op done p₁)
    rw [report_eq] at hreport
    cases hreport
    refine (ih (hp.steady hsteady) (hprep.tail hsteady) (hc.steady hsteady)).bind fun others p₃ _ => ?_
    exact Act.spares_pure c p₃ _

/-- A delivery spares every component that no write reaches, apart from the one it is for. -/
theorem deliverRounds_spares (hflush : host.Flushes strict) (hhost : host.Spares strict) (hp : p.WellNested strict)
    (hprep : ∀ changed, i.Prepared strict excused (i.template.refresh.filter fun s => s.triggeredBy changed) p)
    (hc : p.Secludes c) (hne : i.component ≠ c) (rounds : Nat) : Act.Spares c p (i.deliverRounds host rounds) := by
  induction rounds generalizing p with
  | zero => exact (Act.spares_modify rfl).bind fun _ q _ => Act.spares_pure c q _
  | succ rounds ih =>
    refine Act.spares_get ?_
    by_cases hfree : p.access i.component = .free
    · simp only [hfree, ne_eq, not_true, ↓reduceIte]
      have hclears : Act.Spares c p (modify fun q => q.modifyComponent i.component (·.clearChanges)) :=
        Act.spares_modify (by rw [Page.modifyComponent, Array.getElem?_modify, if_neg hne])
      refine hclears.bind fun _ p₁ hp₁ => ?_
      obtain rfl := Act.modify_eq_some.mp hp₁
      cases hempty : (p.component i.component).pending.isEmpty with
      | true =>
        simp only [↓reduceIte]
        exact Act.spares_pure c _ _
      | false =>
        simp only [Bool.false_eq_true, ↓reduceIte]
        have hclear := p.steady_clear i.component
        have hprep₁ := (hprep (p.component i.component).pending).steady hclear
        refine (runSteps_spares hflush hhost (hp.steady hclear) hprep₁ (hc.steady hclear)).bind fun first p₂ h₂ => ?_
        have hsteady := hclear.trans (runSteps_drains hflush (hp.steady hclear) hprep₁ h₂).1
        refine (ih (hp.steady hsteady) (fun changed => (hprep changed).steady hsteady) (hc.steady hsteady)).bind
          fun others p₃ _ => Act.spares_pure c p₃ _
    · simp only [ne_eq, hfree, not_false_iff, ↓reduceIte]
      exact (Act.spares_modify rfl).bind fun _ q _ => Act.spares_pure c q _

end Instance

theorem flushWith_spares (hflush : host.Flushes strict) (hhost : host.Spares strict) :
    Host.Spares strict ⟨createElementWith host, flushWith host⟩ := by
  intro c n p hp hc hyoung
  have hfree : ¬p.IsBusy n := fun hbusy => Nat.lt_irrefl n (hyoung n hbusy)
  refine Act.spares_get ?_
  cases he : p.custom? n with
  | none => exact Act.spares_pure c p _
  | some e =>
    have hidle : e.busy = false := by
      cases hbusy : e.busy with
      | false => rfl
      | true => exact absurd ⟨e, he, hbusy⟩ hfree
    obtain ⟨w, hbehaviour, hw⟩ := hp.behaviour he
    obtain ⟨i, hshown⟩ := (hp.living n w hw).connected hfree
    have hcustom := Page.isCustom_of_custom? he
    have hcomponent := ((hp.living n w hw).shown i hshown).component
    have hne : i.component ≠ c := by
      rw [hcomponent]
      exact fun heq => hfree (hc n w hw heq)
    simp only [hidle, Bool.false_eq_true, ↓reduceIte, hbehaviour, Behaviour.flush, Widget.flush, hshown]
    refine (Act.spares_modify rfl).bind fun _ p₁ hp₁ => ?_
    obtain rfl := Act.modify_eq_some.mp hp₁
    obtain ⟨hp', hbusy', hyoung'⟩ := hp.setBusy hcustom hyoung
    have hw' := ((p.alike_setBusy n true).widget? n).trans hw
    have hc' : (p.setBusy n true).Secludes c := by
      intro m v hv hvc
      rw [(p.alike_setBusy n true).widget?] at hv
      exact (Page.isBusy_setBusy hcustom).mpr (Or.inr (hc m v hv hvc))
    have hdeliver := Instance.deliverRounds_spares hflush hhost hp'
      (Instance.prepared_refresh hp' hw' hshown hbusy' hyoung') hc' hne Instance.maxRounds
    refine (hdeliver.bind fun report p₂ _ => Act.spares_pure c p₂ _).bind fun result p₂ _ => ?_
    exact (Act.spares_modify rfl).bind fun _ q _ => Act.spares_pure c q _

theorem hostTo_spares (depth : Nat) : (hostTo depth).Spares strict := by
  induction depth with
  | zero =>
    intro c n p _ _ _
    exact fun a q => nofun
  | succ depth ih => exact flushWith_spares (hostTo_flushes depth) ih

end LiveMarkup
