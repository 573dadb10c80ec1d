import LiveMarkup.Proofs.NestedPage

namespace LiveMarkup

variable {p q : Page} {m n : NodeId} {strict : Prop} {host : Host} {r : Report} {i : Instance} {w : Widget}
  {excused : NodeId → Prop} {rounds : Nat}

namespace Page

/-- Only nodes in the scope and the components of widgets there have changed. -/
structure Confined (scope : NodeId → Prop) (p q : Page) : Prop where
  kinds : ∀ x, ¬scope x → q.document.kind? x = p.document.kind? x
  components : ∀ c, (q.component c).state ≠ (p.component c).state →
    ∃ x w, scope x ∧ p.widget? x = some w ∧ w.component = c

namespace Confined

variable {scope scope' : NodeId → Prop} {r : Page}

theorem of_same (hdocument : q.document = p.document) (hcomponents : ∀ c, q.component c = p.component c) :
    p.Confined scope q :=
  ⟨fun x _ => by rw [hdocument], fun c hc => absurd (congrArg Component.state (hcomponents c)) hc⟩

theorem mono (h : p.Confined scope q) (hscope : ∀ x, scope x → scope' x) : p.Confined scope' q where
  kinds x hx := h.kinds x fun hx' => hx (hscope x hx')
  components c hc := by
    obtain ⟨x, w, hx, hw⟩ := h.components c hc
    exact ⟨x, w, hscope x hx, hw⟩

theorem trans (h : p.Confined scope q) (hq : p.Alike q) (h' : q.Confined scope r) : p.Confined scope r where
  kinds x hx := (h'.kinds x hx).trans (h.kinds x hx)
  components c hc := by
    by_cases hsame : (q.component c).state = (p.component c).state
    · rw [← hsame] at hc
      obtain ⟨x, w, hx, hw, hwc⟩ := h'.components c hc
      exact ⟨x, w, hx, hq.widget? x ▸ hw, hwc⟩
    · exact h.components c hsame

end Confined

theorem Touched.confined (h : p.Touched n q) : p.Confined (· = n) q where
  kinds := h.kinds
  components c hc := by
    obtain ⟨-, w, hw⟩ := h.components c hc
    exact ⟨n, w, rfl, hw⟩

theorem Touched.isPending (h : p.Touched n q) (hp : p.WellNested strict) (hm : q.IsPending m) :
    p.IsPending m ∨ m = n ∧ ¬p.IsBusy n := by
  obtain ⟨w, hw, hpending⟩ := hm
  rw [h.steady.widget?] at hw
  by_cases hsame : (q.component w.component).state = (p.component w.component).state
  · have hsame' : (q.component w.component).pending = (p.component w.component).pending :=
      Component.pending_of_state hsame
    rw [hsame'] at hpending
    exact Or.inl ⟨w, hw, hpending⟩
  · obtain ⟨hbusy, w', hw', heq⟩ := h.components _ hsame
    exact Or.inr ⟨hp.distinct m n w w' hw hw' heq.symm, hbusy⟩

theorem Touched.isPending_of (h : p.Touched n q) (hm : p.IsPending m) : q.IsPending m := by
  obtain ⟨w, hw, hpending⟩ := hm
  exact ⟨w, (h.steady.widget? m).trans hw, h.pending _ hpending⟩

/-- A flush of the node `n`. On a strict page no widget has become pending, and where one is pending no
more, the widgets its template created are not pending either. -/
structure Flushed (strict : Prop) (n : NodeId) (p q : Page) : Prop where
  steady : p.Steady q
  confined : p.Confined (p.Within n) q
  kept : strict → ∀ m, q.IsPending m → p.IsPending m ∧ m ≠ n
  reached : strict → ∀ m k, p.IsPending m → ¬q.IsPending m → p.Inside m k → ¬q.IsPending k

theorem Flushed.refl (h : ¬p.IsPending n) : p.Flushed strict n p where
  steady := .refl p
  confined := .of_same rfl fun _ => rfl
  kept _ _ hm := ⟨hm, fun heq => h (heq ▸ hm)⟩
  reached _ _ _ hm hm' := absurd hm hm'

/-- On the way from a page: of the settled widgets only those that are due are pending, and so it is with
the widgets created by the template of one that is pending no more. -/
structure Drained (settled due : NodeId → Prop) (p q : Page) : Prop where
  kept : ∀ m, settled m → q.IsPending m → due m
  reached : ∀ m k, p.IsPending m → ¬q.IsPending m → p.Inside m k → q.IsPending k → due k

namespace Drained

variable {settled due due' : NodeId → Prop} {p₀ : Page}

theorem mono (h : p₀.Drained settled due p) (hdue : ∀ m, p.IsPending m → due m → due' m) :
    p₀.Drained settled due' p where
  kept m hm hpending := hdue m hpending (h.kept m hm hpending)
  reached m k hm hm' hk hpending := hdue k hpending (h.reached m k hm hm' hk hpending)

theorem same (h : p₀.Drained settled due p) (hq : p.Alike q)
    (hc : ∀ c, (q.component c).state = (p.component c).state) : p₀.Drained settled due q := by
  have hpending : q.IsPending = p.IsPending := by
    funext m
    have hsame : ∀ c, (q.component c).pending = (p.component c).pending := fun c => Component.pending_of_state (hc c)
    simp only [IsPending, hq.widget?, hsame]
  exact ⟨hpending ▸ h.kept, hpending ▸ h.reached⟩

theorem touched (h : p₀.Drained settled due p) (hp : p.WellNested strict) (ht : p.Touched n q)
    (hdue : p.isCustom n = true → ¬p.IsBusy n → due n) : p₀.Drained settled due q := by
  have hnew : ∀ m, q.IsPending m → p.IsPending m ∨ due m := by
    intro m hm
    refine (ht.isPending hp hm).imp_right ?_
    rintro ⟨rfl, hbusy⟩
    obtain ⟨w, hw, -⟩ := hm
    rw [ht.steady.widget?] at hw
    exact hdue (isCustom_of_widget? hw) hbusy
  constructor
  · intro m hm hpending
    exact (hnew m hpending).elim (h.kept m hm) id
  · intro m k hm hm' hk hpending
    have hgone : ¬p.IsPending m := fun hm'' => hm' (ht.isPending_of hm'')
    exact (hnew k hpending).elim (h.reached m k hm hgone hk) id

theorem flushed (hstrict : strict) (h : p₀.Drained settled (fun m => m = n ∨ due m) p)
    (hinside : p.Inside = p₀.Inside) (hf : p.Flushed strict n q) : p₀.Drained settled due q := by
  have hold : ∀ m, q.IsPending m → (p.IsPending m → m = n ∨ due m) → due m := by
    intro m hm hdue
    obtain ⟨hpending, hne⟩ := hf.kept hstrict m hm
    exact (hdue hpending).resolve_left hne
  constructor
  · intro m hm hpending
    exact hold m hpending (h.kept m hm)
  · intro m k hm hm' hk hpending
    by_cases hgone : p.IsPending m
    · exact absurd hpending (hf.reached hstrict m k hgone hm' (hinside ▸ hk))
    · exact hold k hpending (h.reached m k hm hgone hk)

end Drained

end Page

/-- Flushing one of the elements that came after all busy ones. -/
structure Host.Flushes (strict : Prop) (host : Host) : Prop where
  flush : ∀ n p result q, host.flush n p = some (result, q) → p.WellNested strict →
    (∀ m, p.IsBusy m → m < n) → p.Flushed strict n q

namespace Instance

/-- One of the steps flushes the node. -/
def ToFlush (i : Instance) (steps : List RefreshStep) (n : NodeId) : Prop :=
  ∃ step ∈ steps, ∃ s, step.op = .flushNested s ∧ i.node? s = some n

/-- The nodes that belong to an instance, directly or within its widgets. -/
def Scope (i : Instance) (p : Page) (x : NodeId) : Prop :=
  ∃ s n, i.node? s = some n ∧ p.Within n x

/-- What steps may rely on: they keep to the order of flushes, and what they flush came after all busy
elements. On a strict page they flush what they touch, unless it is excused. -/
structure Prepared (strict : Prop) (i : Instance) (excused : NodeId → Prop) (steps : List RefreshStep)
    (p : Page) : Prop where
  inPlace : ∀ step ∈ steps, step.op.InPlace
  order : steps.Pairwise fun a b => a.op.LeavesFlushed b.op
  flushed : strict → ∀ step ∈ steps, ∀ s n, step.op.touched? = some s → i.node? s = some n → p.isCustom n = true →
    ¬p.IsBusy n → excused n ∨ ∃ other ∈ steps, other.op = .flushNested s
  young : ∀ step ∈ steps, ∀ s n, step.op = .flushNested s → i.node? s = some n → ∀ m, p.IsBusy m → m < n

variable {step : RefreshStep} {rest : List RefreshStep}

theorem Prepared.steady {steps : List RefreshStep} (h : i.Prepared strict excused steps p) (hq : p.Steady q) :
    i.Prepared strict excused steps q where
  inPlace := h.inPlace
  order := h.order
  flushed hstrict step hstep s n htouched hn hcustom hbusy :=
    h.flushed hstrict step hstep s n htouched hn (hq.isCustom n ▸ hcustom) fun hn => hbusy ((hq.isBusy n).mpr hn)
  young step hstep s n hop hn m hm := h.young step hstep s n hop hn m ((hq.isBusy m).mp hm)

theorem Prepared.tail (h : i.Prepared strict excused (step :: rest) p) (hq : p.Steady q) :
    i.Prepared strict excused rest q where
  inPlace other hother := h.inPlace other (List.mem_cons_of_mem _ hother)
  order := (List.pairwise_cons.mp h.order).2
  flushed hstrict other hother s n htouched hn hcustom hbusy := by
    rw [hq.isCustom] at hcustom
    rw [hq.isBusy] at hbusy
    refine (h.flushed hstrict other (List.mem_cons_of_mem _ hother) s n htouched hn hcustom hbusy).imp_right ?_
    rintro ⟨flush, hflush, hop⟩
    -- what the first step flushes is not touched any more
    rcases List.mem_cons.mp hflush with rfl | hflush
    · exact absurd htouched ((List.pairwise_cons.mp h.order).1 other hother s hop)
    · exact ⟨flush, hflush, hop⟩
  young other hother s n hop hn m hm :=
    h.young other (List.mem_cons_of_mem _ hother) s n hop hn m ((hq.isBusy m).mp hm)

theorem ToFlush.tail (h : i.ToFlush (step :: rest) n) (hne : ∀ s, step.op = .flushNested s → i.node? s ≠ some n) :
    i.ToFlush rest n := by
  obtain ⟨flush, hflush, s, hop, hn⟩ := h
  rcases List.mem_cons.mp hflush with rfl | hflush
  · exact absurd hn (hne s hop)
  · exact ⟨flush, hflush, s, hop, hn⟩

theorem steady_stepWarned (phase : Phase) (op : Op) (done : Step) (p : Page) :
    p.Steady (stepWarned phase op done p) := by
  obtain ⟨more, heq⟩ := stepWarned_eq phase op done p
  rw [heq]
  exact .of_elements rfl rfl rfl rfl fun _ => rfl

theorem exec_drains (hhost : host.Flushes strict) (hp : p.WellNested strict) {done : Step}
    (hprep : i.Prepared strict excused (step :: rest) p) (h : i.exec host step.op p = some (done, q)) :
    p.Steady q ∧ p.Confined (i.Scope p) q ∧
      (strict → ∀ (p₀ : Page) (settled : NodeId → Prop), p.Inside = p₀.Inside →
        p₀.Drained settled (fun n => i.ToFlush (step :: rest) n ∨ excused n) p →
        p₀.Drained settled (fun n => i.ToFlush rest n ∨ excused n) q) := by
  generalize hop : step.op = op at h
  cases exec_ran h with
  | alone hneeds hlocal =>
    have hnot : ∀ s, step.op ≠ .flushNested s := fun s heq => by
      rw [← hop, heq] at hneeds
      cases hneeds
    have hdue : ∀ n, i.ToFlush (step :: rest) n ∨ excused n → i.ToFlush rest n ∨ excused n :=
      fun n hn => hn.imp_left fun hflush => hflush.tail fun s heq => absurd heq (hnot s)
    have heffect := i.execLocal_touched hp (hprep.inPlace step List.mem_cons_self).bound?
    rw [hop, hlocal] at heffect
    rcases heffect with rfl | ⟨n, hn, htouched, hcomponents⟩
    · exact ⟨.refl _, .of_same rfl (fun _ => rfl), fun _ _ _ _ hd => hd.mono fun m _ => hdue m⟩
    · refine ⟨htouched.steady, htouched.confined.mono ?_, fun hstrict p₀ settled _ hd => ?_⟩
      · rintro x rfl
        exact ⟨_, x, hn, .refl⟩
      · rcases hcomponents with hslot | hsame
        · refine (hd.mono fun m _ => hdue m).touched hp htouched fun hcustom hbusy => ?_
          rcases hprep.flushed hstrict step List.mem_cons_self _ n (hop ▸ hslot) hn hcustom hbusy with
            hex | ⟨other, hother, hflushes⟩
          · exact Or.inr hex
          · rcases List.mem_cons.mp hother with rfl | hother
            · exact absurd hflushes (hnot _)
            · exact Or.inl ⟨other, hother, _, hflushes, hn⟩
        · exact (hd.mono fun m _ => hdue m).same htouched.steady.toAlike hsame
  | created hn =>
    have hplace := hprep.inPlace step List.mem_cons_self
    rw [hop] at hplace
    exact hplace.elim
  | unbuilt hf =>
    refine ⟨.refl _, .of_same rfl (fun _ => rfl), fun _ _ _ _ hd => hd.mono fun m _ hm => hm.imp_left ?_⟩
    refine fun hflush => hflush.tail fun s' heq hn => ?_
    rw [hop] at heq
    cases heq
    rw [node_eq_ok.mpr hn] at hf
    cases hf
  | @flushed s n result _ hn hflush =>
    have hflushed := hhost.flush n p result q hflush hp (hprep.young step List.mem_cons_self s n hop hn)
    refine ⟨hflushed.steady, hflushed.confined.mono fun x hx => ⟨s, n, hn, hx⟩, ?_⟩
    intro hstrict p₀ settled hinside hd
    refine Page.Drained.flushed hstrict (hd.mono fun m _ hm => ?_) hinside hflushed
    by_cases heq : m = n
    · exact Or.inl heq
    · refine Or.inr (hm.imp_left fun hflush => hflush.tail fun s' hs' hm' => ?_)
      rw [hop] at hs'
      cases hs'
      rw [hn] at hm'
      exact heq (Option.some.inj hm').symm

/-- Running steps flushes all that they touch. -/
theorem runSteps_drains (hhost : host.Flushes strict) {steps : List RefreshStep} (hp : p.WellNested strict)
    (hprep : i.Prepared strict excused steps p) (h : i.runSteps host steps p = some (r, q)) :
    p.Steady q ∧ p.Confined (i.Scope p) q ∧
      (strict → ∀ (p₀ : Page) (settled : NodeId → Prop), p.Inside = p₀.Inside →
        p₀.Drained settled (fun n => i.ToFlush steps n ∨ excused n) p → p₀.Drained settled excused q) := by
  induction steps generalizing p r with
  | nil =>
    obtain ⟨-, rfl⟩ := Act.pure_eq_some.mp h
    refine ⟨.refl _, .of_same rfl (fun _ => rfl), fun _ _ _ _ hd => hd.mono fun m _ hm => hm.resolve_left ?_⟩
    rintro ⟨step, hstep, -⟩
    exact List.not_mem_nil hstep
  | cons step rest ih =>
    obtain ⟨done, p₁, others, hstep, hrest, -⟩ := runSteps_cons.mp h
    obtain ⟨hsteady, hconfined, hdrained⟩ := exec_drains hhost hp hprep hstep
    have hwarned := steady_stepWarned .refresh step.op done p₁
    have hsteady' := hsteady.trans hwarned
    obtain ⟨hsteady'', hconfined'', hdrained''⟩ := ih (hp.steady hsteady') (hprep.tail hsteady') hrest
    have hconfined' : p.Confined (i.Scope p) (stepWarned .refresh step.op done p₁) :=
      hconfined.trans hsteady.toAlike (.of_same (document_stepWarned ..) (component_stepWarned _ _ _ _))
    refine ⟨hsteady'.trans hsteady'', hconfined'.trans hsteady'.toAlike (hconfined''.mono fun x hx => ?_), ?_⟩
    · rwa [Scope, hsteady'.within] at hx
    · intro hstrict p₀ settled hinside hd
      refine hdrained'' hstrict p₀ settled (hsteady'.inside.trans hinside) ?_
      refine (hdrained hstrict p₀ settled hinside hd).same hwarned.toAlike fun c => ?_
      rw [component_stepWarned]

end Instance

namespace Page

/-- Taking the pending changes of one widget. -/
theorem steady_clear (p : Page) (c : ComponentId) : p.Steady (p.modifyComponent c (·.clearChanges)) :=
  .of_elements rfl rfl rfl (p.size_modifyComponent _ _) fun c' => p.access_modifyComponent _ c' _

theorem confined_clear (hw : p.widget? n = some w) :
    p.Confined (· = n) (p.modifyComponent w.component (·.clearChanges)) where
  kinds _ _ := rfl
  components c hc := by
    refine ⟨n, w, rfl, hw, ?_⟩
    by_contra hne
    exact hc (congrArg Component.state (p.component_modifyComponent_of_ne (Ne.symm hne) _))

theorem isPending_clear (hp : p.WellNested strict) (hw : p.widget? n = some w) :
    (p.modifyComponent w.component (·.clearChanges)).IsPending m ↔ p.IsPending m ∧ m ≠ n := by
  have hwidget := (p.steady_clear w.component).widget? m
  constructor
  · rintro ⟨w', hw', hpending⟩
    rw [hwidget] at hw'
    by_cases hsame : w'.component = w.component
    · rw [hsame, component_modifyComponent (hp.living n w hw).owned] at hpending
      cases hpending
    · rw [component_modifyComponent_of_ne p hsame] at hpending
      refine ⟨⟨w', hw', hpending⟩, ?_⟩
      rintro rfl
      rw [hw] at hw'
      cases hw'
      exact hsame rfl
  · rintro ⟨⟨w', hw', hpending⟩, hne⟩
    refine ⟨w', hwidget.trans hw', ?_⟩
    rw [component_modifyComponent_of_ne p fun hsame => hne (hp.distinct m n w' w hw' hw hsame)]
    exact hpending

theorem not_isPending (hw : p.widget? n = some w) (h : (p.component w.component).pending.isEmpty = true) :
    ¬p.IsPending n := by
  rintro ⟨w', hw', hpending⟩
  rw [hw] at hw'
  cases hw'
  rw [h] at hpending
  cases hpending

theorem isCustom_of_isPending (h : p.IsPending n) : p.isCustom n = true := by
  obtain ⟨w, hw, -⟩ := h
  exact isCustom_of_widget? hw

end Page

namespace Instance

/-- What a widget's refresh flushes was created within the widget. -/
theorem toFlush_bounds (hhoused : p.Housed strict n w i) {k : NodeId} (hk : i.ToFlush i.template.refresh k) :
    n < k ∧ k < p.document.size := by
  obtain ⟨step, hstep, s, hop, hnode⟩ := hk
  have hcreates := hhoused.tends.refresh_created hstep hop
  have hs : s ≠ 0 := hcreates.resolve_right (by simp [hhoused.adopts])
  exact hhoused.inner s k hs hnode

/-- A busy widget touches nothing but the elements its template created, and it flushes those. -/
theorem prepared_refresh (hp : p.WellNested strict) (hw : p.widget? n = some w) (hshown : w.shown = some i)
    (hbusy : p.IsBusy n) (hyoung : ∀ m, p.IsBusy m → m ≤ n) (changed : Names) :
    i.Prepared strict (fun _ => False) (i.template.refresh.filter fun s => s.triggeredBy changed) p := by
  have hhoused := (hp.living n w hw).shown i hshown
  have htends := hhoused.tends
  refine ⟨fun step hstep => htends.inPlace step (List.mem_of_mem_filter hstep),
    htends.refresh_order.filter _, ?_, ?_⟩
  · intro hstrict step hstep s k htouched hk hcustom hfree
    by_cases hs : s = 0
    · subst hs
      rw [hhoused.root] at hk
      cases hk
      exact absurd hbusy hfree
    · exact Or.inr ⟨_, List.mem_filter.mpr ⟨hhoused.flushed hstrict s k hs hk hcustom, rfl⟩, rfl⟩
  · intro step hstep s k hop hk m hm
    exact Nat.lt_of_le_of_lt (hyoung m hm)
      (toFlush_bounds hhoused ⟨step, List.mem_of_mem_filter hstep, s, hop, hk⟩).1

/-- A delivery is steady if the page is prepared for every refresh. -/
theorem deliverRounds_prepared (hhost : host.Flushes strict) (hp : p.WellNested strict)
    (hprep : ∀ changed, i.Prepared strict excused (i.template.refresh.filter fun s => s.triggeredBy changed) p)
    (h : i.deliverRounds host rounds p = some (r, q)) : p.Steady q := by
  have hdelivered := deliverRounds_delivered h
  clear h
  induction hdelivered with
  | exhausted p => exact .of_elements rfl rfl rfl rfl fun _ => rfl
  | postponed hbusy => exact .of_elements rfl rfl rfl rfl fun _ => rfl
  | @idle _ p hfree hpending => exact p.steady_clear i.component
  | @round _ p _ _ _ _ hfree hpending hfirst _ ih =>
    have hclear := p.steady_clear i.component
    have hsteady := hclear.trans (runSteps_drains hhost (hp.steady hclear) ((hprep _).steady hclear) hfirst).1
    exact hsteady.trans (ih (hp.steady hsteady) fun changed => (hprep changed).steady hsteady)

theorem toFlush_of_inside (hstrict : strict) (hp : p.WellNested strict) (hw : p.widget? n = some w)
    (hshown : w.shown = some i) {k : NodeId} (hk : p.Inside n k) (hcustom : p.isCustom k = true) (changed : Names) :
    i.ToFlush (i.template.refresh.filter fun s => s.triggeredBy changed) k := by
  obtain ⟨w', i', s, hw', hshown', hs, hnode⟩ := hk
  rw [hw] at hw'
  cases hw'
  rw [hshown] at hshown'
  cases hshown'
  have hflushed := ((hp.living n w hw).shown i hshown).flushed hstrict s k hs hnode hcustom
  exact ⟨_, List.mem_filter.mpr ⟨hflushed, rfl⟩, s, rfl, hnode⟩

theorem within_of_scope (hp : p.WellNested strict) (hw : p.widget? n = some w) (hshown : w.shown = some i)
    {x : NodeId} (hx : i.Scope p x) : p.Within n x := by
  obtain ⟨s, k, hk, hx⟩ := hx
  by_cases hs : s = 0
  · subst hs
    rw [((hp.living n w hw).shown i hshown).root] at hk
    cases hk
    exact hx
  · exact .head ⟨w, i, s, hw, hshown, hs, hk⟩ hx

theorem refresh_confined (hhost : host.Flushes strict) (hp : p.WellNested strict) (hw : p.widget? n = some w)
    (hshown : w.shown = some i) (hbusy : p.IsBusy n) (hyoung : ∀ m, p.IsBusy m → m ≤ n) {changed : Names}
    (h : i.refresh host changed p = some (r, q)) : p.Steady q ∧ p.Confined (p.Within n) q := by
  have hprep := prepared_refresh hp hw hshown hbusy hyoung changed
  obtain ⟨hsteady, hconfined, -⟩ := runSteps_drains hhost hp hprep h
  exact ⟨hsteady, hconfined.mono fun x => within_of_scope hp hw hshown⟩

/-- Delivering the changes of a busy widget touches nothing but what is within it. -/
theorem deliverRounds_confined (hhost : host.Flushes strict) (hp : p.WellNested strict) (hw : p.widget? n = some w)
    (hshown : w.shown = some i) (hbusy : p.IsBusy n) (hyoung : ∀ m, p.IsBusy m → m ≤ n)
    (h : i.deliverRounds host rounds p = some (r, q)) : p.Steady q ∧ p.Confined (p.Within n) q := by
  have hdelivered := deliverRounds_delivered h
  clear h
  induction hdelivered with
  | exhausted p => exact ⟨.of_elements rfl rfl rfl rfl fun _ => rfl, .of_same rfl fun _ => rfl⟩
  | postponed hbusy => exact ⟨.of_elements rfl rfl rfl rfl fun _ => rfl, .of_same rfl fun _ => rfl⟩
  | @idle _ p hfree hpending =>
    rw [((hp.living n w hw).shown i hshown).component]
    exact ⟨p.steady_clear w.component, (Page.confined_clear hw).mono fun x hx => hx ▸ .refl⟩
  | @round _ p _ _ _ _ hfree hpending hfirst _ ih =>
    have hclear := p.steady_clear w.component
    have hcleared : p.Confined (p.Within n) (p.modifyComponent w.component (·.clearChanges)) :=
      (Page.confined_clear hw).mono fun x hx => hx ▸ .refl
    rw [((hp.living n w hw).shown i hshown).component] at hfirst
    obtain ⟨hsteady, hconfined⟩ := refresh_confined hhost (hp.steady hclear) ((hclear.widget? n).trans hw) hshown
      ((hclear.isBusy n).mpr hbusy) (fun m hm => hyoung m ((hclear.isBusy m).mp hm)) hfirst
    have hall := hclear.trans hsteady
    obtain ⟨hsteady', hconfined'⟩ := ih (hp.steady hall) ((hall.widget? n).trans hw)
      ((hall.isBusy n).mpr hbusy) (fun m hm => hyoung m ((hall.isBusy m).mp hm))
    rw [hclear.within] at hconfined
    rw [hall.within] at hconfined'
    exact ⟨hall.trans hsteady', (hcleared.trans hclear.toAlike hconfined).trans hall.toAlike hconfined'⟩

/-- Refreshing a busy widget with its pending changes, once they are taken, leaves no changes of it, and none in the
widgets that its template created. -/
theorem refresh_taken_drains (hstrict : strict) (hhost : host.Flushes strict) (hp : p.WellNested strict)
    (hw : p.widget? n = some w) (hshown : w.shown = some i) (hbusy : p.IsBusy n) (hyoung : ∀ m, p.IsBusy m → m ≤ n)
    (h : i.refresh host (p.component w.component).pending (p.modifyComponent w.component (·.clearChanges)) =
      some (r, q)) : p.Steady q ∧ p.Drained (fun m => ¬p.IsPending m ∨ m = n ∨ p.Inside n m) (fun _ => False) q := by
  have hclear := p.steady_clear w.component
  have hp' := hp.steady hclear
  have hw' := (hclear.widget? n).trans hw
  have hbusy' := (hclear.isBusy n).mpr hbusy
  have hyoung' : ∀ m, (p.modifyComponent w.component (·.clearChanges)).IsBusy m → m ≤ n :=
    fun m hm => hyoung m ((hclear.isBusy m).mp hm)
  have hprep := prepared_refresh hp' hw' hshown hbusy' hyoung' (p.component w.component).pending
  obtain ⟨hsteady, -, hdrained⟩ := runSteps_drains hhost hp' hprep h
  have hdue : ∀ k, p.Inside n k → (p.modifyComponent w.component (·.clearChanges)).IsPending k →
      i.ToFlush (i.template.refresh.filter fun s => s.triggeredBy (p.component w.component).pending) k :=
    fun k hk hpending => toFlush_of_inside hstrict hp' hw' hshown (hclear.inside ▸ hk)
      (Page.isCustom_of_isPending hpending) _
  refine ⟨hclear.trans hsteady, hdrained hstrict p _ hclear.inside ⟨?_, ?_⟩⟩
  · intro m hm hpending
    obtain ⟨hm', hne⟩ := (Page.isPending_clear hp hw).mp hpending
    have hinside : p.Inside n m := (hm.resolve_left fun h => h hm').resolve_left hne
    exact Or.inl (hdue m hinside hpending)
  · intro m k hm hm' hk hpending
    obtain rfl : m = n := by
      by_contra hne
      exact hm' ((Page.isPending_clear hp hw).mpr ⟨hm, hne⟩)
    exact Or.inl (hdue k hk hpending)

/-- Delivering the changes of a busy widget on a strict page leaves none of them, and none in the widgets
that its template created if there were any. -/
theorem deliverRounds_settles (hstrict : strict) (hhost : host.Flushes strict) (hp : p.WellNested strict)
    (hw : p.widget? n = some w) (hshown : w.shown = some i) (hbusy : p.IsBusy n) (hyoung : ∀ m, p.IsBusy m → m ≤ n)
    (h : i.deliverRounds host (rounds + 2) p = some (r, q)) :
    (∀ m, q.IsPending m → p.IsPending m ∧ m ≠ n) ∧
      ∀ m k, p.IsPending m → ¬q.IsPending m → p.Inside m k → ¬q.IsPending k := by
  have hlives := hp.living n w hw
  have hcomponent := (hlives.shown i hshown).component
  cases deliverRounds_delivered h with
  | postponed hused => exact absurd (hcomponent ▸ hlives.free) hused
  | idle hfree hempty =>
    rw [hcomponent] at hempty ⊢
    have hidle := Page.not_isPending hw hempty
    refine ⟨fun m => (Page.isPending_clear hp hw).mp, fun m k hm hm' => ?_⟩
    refine absurd ((Page.isPending_clear hp hw).mpr ⟨hm, ?_⟩) hm'
    rintro rfl
    exact hidle hm
  | @round _ _ p₁ _ _ _ hfree _ hfirst hothers =>
    rw [hcomponent] at hfirst
    obtain ⟨hall, hdone⟩ := refresh_taken_drains hstrict hhost hp hw hshown hbusy hyoung hfirst
    have hp₁ := hp.steady hall
    have hw₁ := (hall.widget? n).trans hw
    have hidle : ¬p₁.IsPending n := hdone.kept n (Or.inr (Or.inl rfl))
    -- nothing is pending now, so the second round is the last one
    cases hothers with
    | postponed hused => exact absurd ((hall.access _).trans hfree) hused
    | round _ hpending _ _ =>
      rw [hcomponent] at hpending
      exact absurd ⟨w, hw₁, hpending⟩ hidle
    | idle _ _ =>
      rw [hcomponent]
      have hsame : ∀ m, (p₁.modifyComponent w.component (·.clearChanges)).IsPending m ↔ p₁.IsPending m := by
        intro m
        rw [Page.isPending_clear hp₁ hw₁]
        exact ⟨fun h => h.1, fun h => ⟨h, fun heq => hidle (heq ▸ h)⟩⟩
      refine ⟨fun m hm => ?_, fun m k hm hm' hk hpending => ?_⟩
      · by_contra hcon
        refine hdone.kept m ?_ ((hsame m).mp hm)
        by_cases hp₀ : p.IsPending m
        · exact Or.inr (Or.inl (by_contra fun hne => hcon ⟨hp₀, hne⟩))
        · exact Or.inl hp₀
      · exact hdone.reached m k hm (fun h => hm' ((hsame m).mpr h)) hk ((hsame k).mp hpending)

end Instance

namespace Page

theorem custom?_modifyCustom (p : Page) (n m : NodeId) (f : CustomElement → CustomElement) :
    (p.modifyCustom n f).custom? m = if m = n then (p.custom? m).map f else p.custom? m := by
  unfold custom? modifyCustom
  dsimp only
  induction p.elements with
  | nil => simp
  | cons e rest ih =>
    obtain ⟨k, e⟩ := e
    by_cases hm : m = k
    · subst hm
      by_cases hn : m = n
      · simp [hn]
      · simp [hn]
    · have hkey : (m == k) = false := by simpa using hm
      by_cases hk : k = n
      · simp only [List.map_cons, hk, ↓reduceIte, List.lookup_cons]
        rw [← hk, hkey]
        simpa [hk] using ih
      · simp only [List.map_cons, hk, ↓reduceIte, List.lookup_cons, hkey]
        exact ih

theorem custom?_setBusy (p : Page) (n m : NodeId) (busy : Bool) :
    (p.setBusy n busy).custom? m =
      if m = n then (p.custom? m).map fun e => { e with busy := busy } else p.custom? m :=
  p.custom?_modifyCustom n m _

theorem alike_setBusy (p : Page) (n : NodeId) (busy : Bool) : p.Alike (p.setBusy n busy) where
  registry := rfl
  widget? m := by
    rw [widget?, custom?_setBusy, widget?]
    split
    · cases p.custom? m <;> rfl
    · rfl
  isCustom m := by
    rw [isCustom, custom?_setBusy, isCustom]
    split
    · exact Option.isSome_map
    · rfl
  size := rfl
  count := rfl
  access _ := rfl

theorem isBusy_setBusy (he : p.isCustom n = true) : (p.setBusy n true).IsBusy m ↔ m = n ∨ p.IsBusy m := by
  rw [IsBusy, custom?_setBusy]
  by_cases hm : m = n
  · subst hm
    obtain ⟨e, he⟩ := Option.isSome_iff_exists.mp he
    simp [he]
  · simp only [hm, ↓reduceIte, false_or]
    rfl

theorem isBusy_setBusy_false : (p.setBusy n false).IsBusy m ↔ m ≠ n ∧ p.IsBusy m := by
  rw [IsBusy, custom?_setBusy]
  by_cases hm : m = n
  · simp only [hm, ↓reduceIte, ne_eq, not_true, false_and, iff_false]
    rintro ⟨e, he, hbusy⟩
    obtain ⟨_, -, rfl⟩ := Option.map_eq_some_iff.mp he
    cases hbusy
  · simp only [hm, ↓reduceIte, ne_eq, not_false_iff, true_and]
    rfl

theorem isPending_setBusy (p : Page) (n : NodeId) (busy : Bool) :
    (p.setBusy n busy).IsPending = p.IsPending := by
  funext m
  rw [IsPending, (p.alike_setBusy n busy).widget?, IsPending]
  rfl

/-- A flush is one of the page where the element is busy. -/
theorem Flushed.of_setBusy (hcustom : p.isCustom n = true) (hbusy : ¬p.IsBusy n)
    (h : (p.setBusy n true).Flushed strict n q) : p.Flushed strict n (q.setBusy n false) := by
  have hbefore := p.alike_setBusy n true
  have hafter := q.alike_setBusy n false
  refine ⟨⟨hbefore.trans (h.steady.toAlike.trans hafter), fun m => ?_⟩, ?_, ?_, ?_⟩
  · rw [isBusy_setBusy_false, h.steady.isBusy, isBusy_setBusy hcustom]
    constructor
    · rintro ⟨hne, heq | hm⟩
      · exact absurd heq hne
      · exact hm
    · intro hm
      refine ⟨?_, Or.inr hm⟩
      rintro rfl
      exact hbusy hm
  · have hconfined := h.confined
    rw [hbefore.within] at hconfined
    exact ⟨hconfined.kinds, fun c hc => by
      obtain ⟨x, w, hx, hw, hwc⟩ := hconfined.components c hc
      exact ⟨x, w, hx, hbefore.widget? x ▸ hw, hwc⟩⟩
  · intro hstrict m hm
    rw [isPending_setBusy] at hm
    have hkept := h.kept hstrict m hm
    rwa [isPending_setBusy] at hkept
  · intro hstrict m k hm hm' hk
    rw [isPending_setBusy] at hm' ⊢
    exact h.reached hstrict m k (by rwa [isPending_setBusy]) hm' (by rwa [hbefore.inside])

end Page

/-- A widget is busy while its changes are delivered. -/
theorem flushWith_eq_some {result : Except Fault Nat} (hp : p.WellNested strict) (hw : p.widget? n = some w)
    (hshown : w.shown = some i) (hfree : ¬p.IsBusy n) :
    flushWith host n p = some (result, q) ↔ ∃ report p₁,
      i.deliver host (p.setBusy n true) = some (report, p₁) ∧ result = .ok report.executed ∧
        q = p₁.setBusy n false := by
  obtain ⟨e, he, -⟩ := Option.bind_eq_some_iff.mp hw
  have hidle : e.busy = false := by
    cases hbusy : e.busy with
    | false => rfl
    | true => exact absurd ⟨e, he, hbusy⟩ hfree
  obtain ⟨w', hbehaviour, hw'⟩ := hp.behaviour he
  rw [hw] at hw'
  cases hw'
  simp only [flushWith, Act.bind_eq_some, Act.get_eq_some]
  constructor
  · rintro ⟨_, _, ⟨rfl, rfl⟩, h⟩
    simp only [he, hidle, Bool.false_eq_true, ↓reduceIte, hbehaviour, Behaviour.flush, Widget.flush, hshown,
      Act.bind_eq_some, Act.modify_eq_some, Act.pure_eq_some] at h
    obtain ⟨_, _, rfl, _, _, ⟨report, p₁, hdeliver, rfl, rfl⟩, _, _, rfl, rfl, rfl⟩ := h
    exact ⟨report, p₁, hdeliver, rfl, rfl⟩
  · rintro ⟨report, p₁, hdeliver, rfl, rfl⟩
    refine ⟨p, p, ⟨rfl, rfl⟩, ?_⟩
    simp only [he, hidle, Bool.false_eq_true, ↓reduceIte, hbehaviour, Behaviour.flush, Widget.flush, hshown,
      Act.bind_eq_some, Act.modify_eq_some, Act.pure_eq_some]
    exact ⟨(), _, rfl, .ok report.executed, p₁, ⟨report, p₁, hdeliver, rfl, rfl⟩, (), _, rfl, rfl, rfl⟩

/-- There is nothing to flush in a plain node. -/
theorem flushWith_plain (hn : p.custom? n = none) : flushWith host n p = some (.ok 0, p) := by
  simp only [flushWith, Act.bind_eq_some, Act.get_eq_some]
  refine ⟨p, p, ⟨rfl, rfl⟩, ?_⟩
  rw [hn]
  rfl

/-- While a widget is flushed it is the youngest of the busy ones. -/
theorem Page.WellNested.setBusy (hp : p.WellNested strict) (hcustom : p.isCustom n = true)
    (hyoung : ∀ m, p.IsBusy m → m < n) : (p.setBusy n true).WellNested strict ∧ (p.setBusy n true).IsBusy n ∧
      ∀ m, (p.setBusy n true).IsBusy m → m ≤ n := by
  refine ⟨hp.alike (p.alike_setBusy n true) fun m hm => (Page.isBusy_setBusy hcustom).mpr (Or.inr hm),
    (Page.isBusy_setBusy hcustom).mpr (Or.inl rfl), fun m hm => ?_⟩
  rcases (Page.isBusy_setBusy hcustom).mp hm with rfl | hm
  · exact Nat.le_refl m
  · exact Nat.le_of_lt (hyoung m hm)

theorem flushWith_flushed (hhost : host.Flushes strict) {result : Except Fault Nat} (hp : p.WellNested strict)
    (hyoung : ∀ m, p.IsBusy m → m < n) (h : flushWith host n p = some (result, q)) : p.Flushed strict n q := by
  have hfree : ¬p.IsBusy n := fun hbusy => Nat.lt_irrefl n (hyoung n hbusy)
  cases he : p.custom? n with
  | none =>
    rw [flushWith_plain he] at h
    cases h
    refine .refl fun hpending => ?_
    have hcustom := Page.isCustom_of_isPending hpending
    rw [Page.isCustom, he] at hcustom
    cases hcustom
  | some e =>
    have hcustom := Page.isCustom_of_custom? he
    obtain ⟨w, -, hw⟩ := hp.behaviour he
    obtain ⟨i, hshown⟩ := (hp.living n w hw).connected hfree
    obtain ⟨report, p₁, hdeliver, -, rfl⟩ := (flushWith_eq_some hp hw hshown hfree).mp h
    obtain ⟨hp', hbusy', hyoung'⟩ := hp.setBusy hcustom hyoung
    have hw' := ((p.alike_setBusy n true).widget? n).trans hw
    obtain ⟨hsteady, hconfined⟩ :=
      Instance.deliverRounds_confined hhost hp' hw' hshown hbusy' hyoung' hdeliver
    have hsettles := fun hstrict =>
      Instance.deliverRounds_settles hstrict hhost hp' hw' hshown hbusy' hyoung' hdeliver
    exact .of_setBusy hcustom hfree ⟨hsteady, hconfined, fun hstrict => (hsettles hstrict).1,
      fun hstrict => (hsettles hstrict).2⟩

/-- Elements may nest to any depth. -/
theorem hostTo_flushes (depth : Nat) : (hostTo depth).Flushes strict := by
  induction depth with
  | zero => exact ⟨fun _ _ _ _ h => by cases h⟩
  | succ depth ih => exact ⟨fun _ _ _ _ h hp hyoung => flushWith_flushed ih hp hyoung h⟩

end LiveMarkup
