import LiveMarkup.Proofs.NestingDepth

namespace LiveMarkup

variable {p q : Page} {strict : Prop} {host other : Host} {i : Instance} {root : Option NodeId} {r : Report}

/-- Whatever a host does on a page of widgets, to create an element or to flush one that came after all busy
ones, the other does too. -/
structure Host.CoveredBy (strict : Prop) (host other : Host) : Prop where
  create : ∀ tag ns p r, p.WellNested strict → host.create tag ns p = some r → other.create tag ns p = some r
  flush : ∀ n p r, p.WellNested strict → (∀ m, p.IsBusy m → m < n) → host.flush n p = some r →
    other.flush n p = some r

namespace Instance

variable {excused : NodeId → Prop}

theorem exec_covered (hcover : host.CoveredBy strict other) (hp : p.WellNested strict) {step : RefreshStep}
    {rest : List RefreshStep} (hprep : i.Prepared strict excused (step :: rest) p) {done : Step}
    (h : i.exec host step.op p = some (done, q)) : i.exec other step.op p = some (done, q) := by
  generalize hop : step.op = op at h ⊢
  cases exec_ran h with
  | alone hneeds hlocal => exact (Ran.alone hneeds hlocal).exec
  | created hn =>
    have hplace := hprep.inPlace step List.mem_cons_self
    rw [hop] at hplace
    exact hplace.elim
  | unbuilt hn => exact (Ran.unbuilt hn).exec
  | @flushed s n result _ hn hflush =>
    have hyoung := hprep.young step List.mem_cons_self s n hop hn
    exact (Ran.flushed hn (hcover.flush n p _ hp hyoung hflush)).exec

theorem runSteps_covered (hcover : host.CoveredBy strict other) (hhost : host.Flushes strict)
    {steps : List RefreshStep} (hp : p.WellNested strict) (hprep : i.Prepared strict excused steps p)
    (h : i.runSteps host steps p = some (r, q)) : i.runSteps other steps p = some (r, q) := by
  induction steps generalizing p r with
  | nil => exact h
  | cons step rest ih =>
    obtain ⟨done, p₁, others, hstep, hrest, rfl⟩ := runSteps_cons.mp h
    have hsteady := (exec_drains hhost hp hprep hstep).1.trans (steady_stepWarned .refresh step.op done p₁)
    exact runSteps_cons.mpr ⟨done, p₁, others, exec_covered hcover hp hprep hstep,
      ih (hp.steady hsteady) (hprep.tail hsteady) hrest, rfl⟩

theorem deliverRounds_covered (hcover : host.CoveredBy strict other) (hhost : host.Flushes strict) {rounds : Nat}
    (hp : p.WellNested strict)
    (hprep : ∀ changed, i.Prepared strict excused (i.template.refresh.filter fun s => s.triggeredBy changed) p)
    (h : i.deliverRounds host rounds p = some (r, q)) : i.deliverRounds other rounds p = some (r, q) := by
  refine Delivered.deliverRounds ?_
  have hdelivered := deliverRounds_delivered h
  clear h
  induction hdelivered with
  | exhausted p => exact .exhausted p
  | postponed hbusy => exact .postponed hbusy
  | idle hfree hpending => exact .idle hfree hpending
  | @round _ p _ _ _ _ hfree hpending hfirst _ ih =>
    have hclear := p.steady_clear i.component
    have hp' := hp.steady hclear
    have hprep' := (hprep (p.component i.component).pending).steady hclear
    have hsteady := hclear.trans (runSteps_drains hhost hp' hprep' hfirst).1
    exact .round hfree hpending (runSteps_covered hcover hhost hp' hprep' hfirst)
      (ih (hp.steady hsteady) fun changed => (hprep changed).steady hsteady)

end Instance

theorem flushWith_covered (hcover : host.CoveredBy strict other) (hhost : host.Flushes strict) {n : NodeId}
    {result : Except Fault Nat} (hp : p.WellNested strict) (hyoung : ∀ m, p.IsBusy m → m < n)
    (h : flushWith host n p = some (result, q)) : flushWith other n p = some (result, q) := by
  have hfree : ¬p.IsBusy n := fun hbusy => Nat.lt_irrefl n (hyoung n hbusy)
  cases he : p.custom? n with
  | none =>
    rw [flushWith_plain he] at h ⊢
    exact h
  | some e =>
    have hcustom := Page.isCustom_of_custom? he
    obtain ⟨w, -, hw⟩ := hp.behaviour he
    obtain ⟨i, hshown⟩ := (hp.living n w hw).connected hfree
    obtain ⟨report, p₁, hdeliver, rfl, rfl⟩ := (flushWith_eq_some hp hw hshown hfree).mp h
    obtain ⟨hp', hbusy', hyoung'⟩ := hp.setBusy hcustom hyoung
    have hw' := ((p.alike_setBusy n true).widget? n).trans hw
    exact (flushWith_eq_some hp hw hshown hfree).mpr ⟨report, p₁,
      Instance.deliverRounds_covered hcover hhost hp'
        (Instance.prepared_refresh hp' hw' hshown hbusy' hyoung') hdeliver, rfl, rfl⟩

namespace Instance

variable {p₀ : Page} {k : Nat} {op : Op} {done rest : List Op}

theorem execBuild_covered (hcover : host.CoveredBy strict other) {step : Step}
    (h : i.Underway strict root p₀ k (op :: rest) p) (hbuild : i.template.build = done ++ op :: rest)
    (htends : i.template.Tends (p₀.Tended strict)) (hexec : i.execBuild host root op p = some (step, q)) :
    i.execBuild other root op p = some (step, q) := by
  have hmem : op ∈ i.template.build := hbuild ▸ List.mem_append_right _ List.mem_cons_self
  have hp := h.grown.wellNested
  by_cases hadopt : ∃ s, op = .adoptRoot s
  · obtain ⟨s, rfl⟩ := hadopt
    exact hexec
  rw [execBuild_eq_exec fun s heq => hadopt ⟨s, heq⟩] at hexec ⊢
  cases exec_ran hexec with
  | alone hneeds hlocal => exact (Ran.alone hneeds hlocal).exec
  | created hcreate => exact (Ran.created (hcover.create _ _ p _ hp hcreate)).exec
  | unbuilt hn => exact (Ran.unbuilt hn).exec
  | @flushed s n result _ hn hflush =>
    have hyoung : ∀ m, p.IsBusy m → m < n := fun m => h.busy_lt (h.created_le htends hmem hn)
    exact (Ran.flushed hn (hcover.flush n p _ hp hyoung hflush)).exec

theorem runBuild_covered (hcover : host.CoveredBy strict other) (hcreate : host.Creates strict)
    (hflush : host.Flushes strict) {k' : Nat} {ops : List Op} (hseq : Op.Sequence k ops k') {i' : Instance}
    (h : i.Underway strict root p₀ k ops p) (hbuild : i.template.build = done ++ ops)
    (htends : i.template.Tends (p₀.Tended strict)) (hroot : ∀ r, root = some r → r < p₀.document.size)
    (hlen : k' ≤ i.slots.length) (hrun : i.runBuild host root ops p = some ((i', r), q)) :
    i.runBuild other root ops p = some ((i', r), q) := by
  induction hseq generalizing i p r done with
  | nil => exact hrun
  | @bind k k' op rest hop hrest ih =>
    obtain ⟨step, p₁, others, hexec, hothers, rfl⟩ := runBuild_cons.mp hrun
    obtain ⟨-, n, hinst, hnext⟩ := execBuild_binds hcreate h hbuild htends hroot
      (Nat.lt_of_lt_of_le hrest.le hlen) hop hexec
    refine runBuild_cons.mpr ⟨step, p₁, others, execBuild_covered hcover h hbuild htends hexec, ?_, rfl⟩
    rw [hinst] at hothers hnext ⊢
    exact ih (hnext.warned .build step) (by rw [List.append_cons] at hbuild; exact hbuild) htends
      (by simpa using hlen) hothers
  | @use k k' op rest hop _ hrest ih =>
    obtain ⟨step, p₁, others, hexec, hothers, rfl⟩ := runBuild_cons.mp hrun
    obtain ⟨-, hnext⟩ := execBuild_uses hflush h hbuild htends hop hexec
    refine runBuild_cons.mpr ⟨step, p₁, others, execBuild_covered hcover h hbuild htends hexec, ?_, rfl⟩
    rw [execBuild_inst_of_not_bound hop hexec] at hothers ⊢
    exact ih (hnext.warned .build step) (by rw [List.append_cons] at hbuild; exact hbuild) htends hlen hothers

end Instance

theorem Template.buildOn_covered (hcover : host.CoveredBy strict other) (hcreate : host.Creates strict)
    (hflush : host.Flushes strict) {t : Template} {c : ComponentId} {sink : Sink}
    {result : Except BuildError (Instance × Report)} (hp : p.WellNested strict) (htends : t.Tends (p.Tended strict))
    (h : t.buildOn host c root sink p = some (result, q)) : t.buildOn other c root sink p = some (result, q) := by
  cases hobstacle : t.obstacle? c root p with
  | some e =>
    rw [buildOn_of_obstacle hobstacle] at h ⊢
    exact h
  | none =>
    obtain ⟨i, r, hrun, hresult⟩ := (Template.buildOn_eq_some hobstacle).mp h
    exact (Template.buildOn_eq_some hobstacle).mpr ⟨i, r, Instance.runBuild_covered hcover hcreate hflush
      htends.sequence (underway_unbuilt hp c sink) (List.nil_append _).symm htends (root_within hobstacle)
      (by simp [unbuilt]) hrun,
      hresult⟩

theorem connectElement_covered (hcover : host.CoveredBy strict other) (hcreate : host.Creates strict)
    (hflush : host.Flushes strict) {tag : String} {d : Definition} {kind : NodeKind} {u : Unit}
    (hp : p.WellNested strict) (hd : p.registry.get? tag = some d)
    (h : connectElement host tag p.document.size d { p with document := p.document.push kind } = some (u, q)) :
    connectElement other tag p.document.size d { p with document := p.document.push kind } = some (u, q) := by
  obtain ⟨t, initial, _, i, _, found, r, rfl, hkind, -, -, hp₁, htends, hbuild, -, -, -, -, rfl⟩ :=
    connectElement_underway hcreate hflush hp hd h
  exact connectElement_of_buildOn hkind (Template.buildOn_covered hcover hcreate hflush hp₁ htends hbuild)

theorem createElementWith_covered (hcover : host.CoveredBy strict other) (hcreate : host.Creates strict)
    (hflush : host.Flushes strict) {tag : String} {ns : Namespace} {n : NodeId} (hp : p.WellNested strict)
    (h : createElementWith host tag ns p = some (n, q)) : createElementWith other tag ns p = some (n, q) := by
  obtain ⟨rfl, hplain | ⟨d, hns, hd, hconnect⟩⟩ := createElementWith_eq_some.mp h
  · exact createElementWith_eq_some.mpr ⟨rfl, Or.inl hplain⟩
  · exact createElementWith_eq_some.mpr ⟨rfl, Or.inr ⟨d, hns, hd,
      connectElement_covered hcover hcreate hflush hp hd hconnect⟩⟩

/-- What is done to some depth is done to every greater depth. -/
theorem hostTo_covered (depth more : Nat) : (hostTo depth).CoveredBy strict (hostTo (depth + more)) := by
  induction depth with
  | zero => exact ⟨fun _ _ _ _ _ h => (by cases h), fun _ _ _ _ _ h => (by cases h)⟩
  | succ depth ih =>
    rw [Nat.add_right_comm]
    exact ⟨fun _ _ _ _ hp h => createElementWith_covered ih (hostTo_creates depth) (hostTo_flushes depth) hp h,
      fun _ _ _ hp hyoung h => flushWith_covered ih (hostTo_flushes depth) hp hyoung h⟩

end LiveMarkup
