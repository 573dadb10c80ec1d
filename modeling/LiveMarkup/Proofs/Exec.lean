import LiveMarkup.Proofs.Act

namespace LiveMarkup

variable {i : Instance} {host : Host} {p p' q : Page} {step : Step} {op : Op} {s : Slot} {r : Report}
  {root : Option NodeId}

/-- Whether an instruction can make the document run templates. -/
def Op.needsHost : Op → Bool
  | .createElement .. => true
  | .flushNested _ => true
  | _ => false

/-- A receiver is only ever one that leaves the components alone. -/
theorem Sink.reach_eq (sink : Sink) (d : Diagnostic) (cells : Array Cell) : sink.reach d cells = cells := by
  cases sink with
  | receiver r h => exact h d cells
  | _ => rfl

theorem Page.tell_eq (p : Page) (sink : Sink) (d : Diagnostic) :
    p.tell sink d = { p with warnings := p.warnings ++ sink.log d } := by
  rw [Page.tell, Sink.reach_eq]

namespace Instance

def faultOf : Except Fault Nat → Option Fault
  | .error f => some f
  | .ok _ => none

theorem exec_createElement {tag : String} {ns : Namespace} : i.exec host (.createElement s tag ns) p = some (step, p') ↔
      ∃ n, host.create tag ns p = some (n, p') ∧
        step = ⟨i.bind s (some n), none, some (.create tag ns n)⟩ := by
  simp only [exec, Act.bind_eq_some, Act.pure_eq_some]
  constructor
  · rintro ⟨n, _, hn, rfl, rfl⟩
    exact ⟨n, hn, rfl⟩
  · rintro ⟨n, hn, rfl⟩
    exact ⟨n, p', hn, rfl, rfl⟩

theorem exec_flushNested :
    i.exec host (.flushNested s) p = some (step, p') ↔
      (∃ f, i.node s = .error f ∧ step = ⟨i, some f, none⟩ ∧ p = p') ∨
      ∃ n result, i.node s = .ok n ∧ host.flush n p = some (result, p') ∧
        step = ⟨i, faultOf result, some (.flush n result)⟩ := by
  cases hn : i.node s with
  | error f =>
    simp only [exec, hn, Act.pure_eq_some]
    constructor
    · rintro ⟨rfl, rfl⟩
      exact Or.inl ⟨f, rfl, rfl, rfl⟩
    · rintro (⟨_, heq, rfl, rfl⟩ | ⟨_, _, heq, -⟩)
      · cases heq
        exact ⟨rfl, rfl⟩
      · cases heq
  | ok n =>
    simp only [exec, hn, Act.bind_eq_some]
    constructor
    · rintro ⟨result, _, hflush, h⟩
      refine Or.inr ⟨n, result, rfl, ?_⟩
      cases result <;> obtain ⟨rfl, rfl⟩ := Act.pure_eq_some.mp h <;> exact ⟨hflush, rfl⟩
    · rintro (⟨_, heq, -⟩ | ⟨_, result, heq, hflush, rfl⟩)
      · cases heq
      · cases heq
        refine ⟨result, p', hflush, ?_⟩
        cases result <;> exact Act.pure_eq_some.mpr ⟨rfl, rfl⟩

theorem exec_local (hop : op.needsHost = false) :
    i.exec host op p = some (step, p') ↔ i.execLocal op p = (step, p') := by
  cases op with
  | createElement s tag ns => simp [Op.needsHost] at hop
  | flushNested s => simp [Op.needsHost] at hop
  | _ => exact Act.modifyGet_eq_some

theorem execBuild_adoptRoot : i.execBuild host root (.adoptRoot s) p = some (step, p') ↔
      step = ⟨i.bind s root, none, none⟩ ∧ p = p' := by
  simp only [execBuild, Act.pure_eq_some]
  exact and_congr_left' eq_comm

theorem execBuild_eq_exec (h : ∀ s, op ≠ .adoptRoot s) : i.execBuild host root op = i.exec host op := by
  cases op with
  | adoptRoot s => exact absurd rfl (h s)
  | _ => rfl

theorem node_eq_ok {n : NodeId} : i.node s = .ok n ↔ i.node? s = some n := by
  unfold node
  split
  next m hm => rw [hm, Except.ok.injEq, Option.some.injEq]
  next hm => simp [hm]

/-- What an instruction that runs no templates does to any page, once its slots have given their nodes and this page
the value to write. -/
inductive Effect (i : Instance) (p : Page) : Op → (Page → Step × Page) → Prop where
  | nothing (op : Op) : i.Effect p op fun q => (⟨i, none, none⟩, q)
  | skip (op : Op) (f : Fault) : i.Effect p op (i.skip f)
  | attach {s : Slot} {n : NodeId} (name : String) (hn : i.node? s = some n) :
    i.Effect p (.attach s name) fun q => (⟨i, none, none⟩, q.modifyComponent i.component (·.attach name n))
  | property {s : Slot} {n : NodeId} {value : Computation} {v : Value} (path : PropertyPath)
    (hn : i.node? s = some n) (hv : p.eval i.component value.formula = .ok v) :
    i.Effect p (.setProperty s path value) (i.writeProperty n path v)
  | callback {s : Slot} {n : NodeId} {value : Computation} {c : Callback} (name : String)
    (hn : i.node? s = some n) (hv : p.eval i.component value.formula = .ok (.callback c)) :
    i.Effect p (.setAttribute s name value) (i.writeProperty n (.single name) (.callback c))
  | attr {s : Slot} {n : NodeId} (value : Computation) (name text : String) (hn : i.node? s = some n) :
    i.Effect p (.setAttribute s name value) fun q =>
      (⟨i, none, some (.attr n name text)⟩, q.setAttribute n name text)
  | noAttr {s : Slot} {n : NodeId} (value : Computation) (name : String) (hn : i.node? s = some n) :
    i.Effect p (.setAttribute s name value) fun q => (⟨i, none, some (.removeAttr n name)⟩, q.removeAttribute n name)
  | listener {s : Slot} {n : NodeId} (event : String) (handler : Handler) (hn : i.node? s = some n) :
    i.Effect p (.connect s event handler) fun q =>
      (⟨i, none, some (.listen n event)⟩, q.addListener n event (.component i.component handler))
  | newText (s : Slot) (value : Computation) (text : String) (fault : Option Fault) :
    i.Effect p (.createText s value) fun q =>
      (⟨i.bind s (some q.document.size), fault, some (.text text q.document.size)⟩,
        { q with document := q.document.push (.text text) })
  | text {s : Slot} {n : NodeId} (value : Computation) (text : String) (hn : i.node? s = some n) :
    i.Effect p (.setText s value) fun q => (⟨i, none, some (.setText n text)⟩, q.setText n text)
  | child {parent child : Slot} {a b : NodeId} (ha : i.node? parent = some a) (hb : i.node? child = some b) :
    i.Effect p (.appendChild parent child) fun q => (⟨i, none, some (.append a b)⟩, q.append a b)

theorem writeAttribute_effect {n : NodeId} {value : Computation} {v : Value} (name : String) (hn : i.node? s = some n)
    (hv : p.eval i.component value.formula = .ok v) :
    i.Effect p (.setAttribute s name value) (i.writeAttribute n name v) := by
  unfold writeAttribute
  split
  · exact .callback name hn hv
  · exact .attr value name "" hn
  · split
    · exact .attr value name _ hn
    · exact .noAttr value name hn

/-- An instruction does the same on all pages where the component reads the same. -/
theorem execLocal_effect (i : Instance) (op : Op) (p : Page) : ∃ run, i.Effect p op run ∧ ∀ q : Page,
    (∀ f, q.eval i.component f = p.eval i.component f) → q.access i.component = p.access i.component →
      i.execLocal op q = run q := by
  cases op with
  | createElement s tag ns => exact ⟨_, .nothing _, fun _ _ _ => rfl⟩
  | flushNested s => exact ⟨_, .nothing _, fun _ _ _ => rfl⟩
  | createText s value =>
    cases hv : p.eval i.component value.formula with
    | error f =>
      refine ⟨_, .newText s value "" (some f), fun q heval _ => ?_⟩
      rw [execLocal, heval, hv]
      rfl
    | ok v =>
      refine ⟨_, .newText s value v.display none, fun q heval _ => ?_⟩
      rw [execLocal, heval, hv]
      rfl
  | adoptRoot s =>
    cases hn : i.node s with
    | error f => exact ⟨_, .skip _ f, fun q _ _ => by simp only [execLocal, hn]⟩
    | ok n => exact ⟨_, .nothing _, fun q _ _ => by simp only [execLocal, hn]⟩
  | attach s name =>
    cases hn : i.node s with
    | error f => exact ⟨_, .skip _ f, fun q _ _ => by simp only [execLocal, hn]⟩
    | ok n =>
      by_cases hfree : p.access i.component = .free
      · refine ⟨_, .attach name (node_eq_ok.mp hn), fun q _ haccess => ?_⟩
        simp only [execLocal, hn, attach, haccess, hfree, ↓reduceIte]
      · refine ⟨_, .skip _ .busy, fun q _ haccess => ?_⟩
        simp only [execLocal, hn, attach, haccess, hfree, ↓reduceIte]
  | connect s event handler =>
    cases hn : i.node s with
    | error f => exact ⟨_, .skip _ f, fun q _ _ => by simp only [execLocal, hn]⟩
    | ok n => exact ⟨_, .listener event handler (node_eq_ok.mp hn), fun q _ _ => by simp only [execLocal, hn]⟩
  | appendChild parent child =>
    cases ha : i.node parent with
    | error f => exact ⟨_, .skip _ f, fun q _ _ => by simp only [execLocal, ha]⟩
    | ok a =>
      cases hb : i.node child with
      | error f => exact ⟨_, .skip _ f, fun q _ _ => by simp only [execLocal, ha, hb]⟩
      | ok b =>
        refine ⟨_, .child (node_eq_ok.mp ha) (node_eq_ok.mp hb), fun q _ _ => ?_⟩
        simp only [execLocal, ha, hb]
  | setProperty s path value =>
    cases hn : i.node s with
    | error f => exact ⟨_, .skip _ f, fun q _ _ => by simp only [execLocal, hn]⟩
    | ok n =>
      cases hv : p.eval i.component value.formula with
      | error f => exact ⟨_, .skip _ f, fun q heval _ => by simp only [execLocal, hn, heval, hv]⟩
      | ok v =>
        refine ⟨_, .property path (node_eq_ok.mp hn) hv, fun q heval _ => ?_⟩
        simp only [execLocal, hn, heval, hv]
  | setAttribute s name value =>
    cases hn : i.node s with
    | error f => exact ⟨_, .skip _ f, fun q _ _ => by simp only [execLocal, hn]⟩
    | ok n =>
      cases hv : p.eval i.component value.formula with
      | error f => exact ⟨_, .skip _ f, fun q heval _ => by simp only [execLocal, hn, heval, hv]⟩
      | ok v =>
        refine ⟨_, writeAttribute_effect name (node_eq_ok.mp hn) hv, fun q heval _ => ?_⟩
        simp only [execLocal, hn, heval, hv]
  | setText s value =>
    cases hn : i.node s with
    | error f => exact ⟨_, .skip _ f, fun q _ _ => by simp only [execLocal, hn]⟩
    | ok n =>
      cases hv : p.eval i.component value.formula with
      | error f => exact ⟨_, .skip _ f, fun q heval _ => by simp only [execLocal, hn, heval, hv]⟩
      | ok v =>
        refine ⟨_, .text value v.display (node_eq_ok.mp hn), fun q heval _ => ?_⟩
        simp only [execLocal, hn, heval, hv]

theorem execLocal_runs (i : Instance) (op : Op) (p : Page) : ∃ run, i.Effect p op run ∧ i.execLocal op p = run p := by
  obtain ⟨run, hrun, heq⟩ := i.execLocal_effect op p
  exact ⟨run, hrun, heq p (fun _ => rfl) rfl⟩

/-- How an instruction runs: by itself, or through the host. -/
inductive Ran (host : Host) (i : Instance) (p : Page) : Op → Step → Page → Prop where
  | alone {op : Op} {step : Step} {q : Page} (hop : op.needsHost = false) (h : i.execLocal op p = (step, q)) :
    i.Ran host p op step q
  | created {s : Slot} {tag : String} {ns : Namespace} {n : NodeId} {q : Page}
    (h : host.create tag ns p = some (n, q)) :
    i.Ran host p (.createElement s tag ns) ⟨i.bind s (some n), none, some (.create tag ns n)⟩ q
  | unbuilt {s : Slot} {f : Fault} (hn : i.node s = .error f) :
    i.Ran host p (.flushNested s) ⟨i, some f, none⟩ p
  | flushed {s : Slot} {n : NodeId} {result : Except Fault Nat} {q : Page} (hn : i.node? s = some n)
    (h : host.flush n p = some (result, q)) :
    i.Ran host p (.flushNested s) ⟨i, faultOf result, some (.flush n result)⟩ q

theorem exec_ran (h : i.exec host op p = some (step, q)) : i.Ran host p op step q := by
  cases op with
  | createElement s tag ns =>
    obtain ⟨n, hn, rfl⟩ := exec_createElement.mp h
    exact .created hn
  | flushNested s =>
    rcases exec_flushNested.mp h with ⟨f, hf, rfl, rfl⟩ | ⟨n, result, hn, hflush, rfl⟩
    · exact .unbuilt hf
    · exact .flushed (node_eq_ok.mp hn) hflush
  | _ => exact .alone rfl (Act.modifyGet_eq_some.mp h)

theorem Ran.exec (h : i.Ran host p op step q) : i.exec host op p = some (step, q) := by
  cases h with
  | alone hop h => exact (exec_local hop).mpr h
  | created h => exact exec_createElement.mpr ⟨_, h, rfl⟩
  | unbuilt hn => exact exec_flushNested.mpr (Or.inl ⟨_, hn, rfl, rfl⟩)
  | flushed hn h => exact exec_flushNested.mpr (Or.inr ⟨_, _, node_eq_ok.mpr hn, h, rfl⟩)

/-- An instruction runs if the host does what is asked of it. -/
theorem exec_returns (hcreate : ∀ s tag ns, op = .createElement s tag ns → ∃ n q, host.create tag ns p = some (n, q))
    (hflush : ∀ s n, op = .flushNested s → i.node? s = some n → ∃ result q, host.flush n p = some (result, q)) :
    ∃ step q, i.exec host op p = some (step, q) := by
  cases op with
  | createElement s tag ns =>
    obtain ⟨n, q, h⟩ := hcreate s tag ns rfl
    exact ⟨_, q, (Ran.created h).exec⟩
  | flushNested s =>
    cases hn : i.node s with
    | error f => exact ⟨_, p, (Ran.unbuilt hn).exec⟩
    | ok n =>
      obtain ⟨result, q, h⟩ := hflush s n rfl (node_eq_ok.mp hn)
      exact ⟨_, q, (Ran.flushed (node_eq_ok.mp hn) h).exec⟩
  | _ => exact ⟨_, _, (exec_local rfl).mpr rfl⟩

/-- What a step says of itself in a report. -/
def stepReport (phase : Phase) (op : Op) (step : Step) : Report :=
  match step.fault with
  | none => ⟨1, 0, [], step.edit.toList⟩
  | some f => ⟨1, 1, [step.inst.diagnostic phase op f], step.edit.toList⟩

/-- The page once a step has been reported. -/
def stepWarned (phase : Phase) (op : Op) (step : Step) (p : Page) : Page :=
  match step.fault with
  | none => p
  | some f => p.tell step.inst.sink (step.inst.diagnostic phase op f)

/-- A report touches nothing but the warnings, for whoever receives it leaves the components alone. -/
theorem stepWarned_eq (phase : Phase) (op : Op) (step : Step) (p : Page) :
    ∃ more, stepWarned phase op step p = { p with warnings := p.warnings ++ more } := by
  unfold stepWarned
  cases step.fault with
  | none => exact ⟨[], by rw [List.append_nil]⟩
  | some f => exact ⟨_, p.tell_eq _ _⟩

theorem report_eq (phase : Phase) (op : Op) (step : Step) (p : Page) :
    report phase op step p = some (stepReport phase op step, stepWarned phase op step p) := by
  unfold report stepReport stepWarned
  cases step.fault <;> rfl

theorem runBuild_cons {i' : Instance} {rest : List Op} : i.runBuild host root (op :: rest) p = some ((i', r), p') ↔
      ∃ step p₁ others, i.execBuild host root op p = some (step, p₁) ∧
        step.inst.runBuild host root rest (stepWarned .build op step p₁) = some ((i', others), p') ∧
        r = (stepReport .build op step).append others := by
  simp only [runBuild, Act.bind_eq_some, report_eq, Act.pure_eq_some]
  constructor
  · rintro ⟨step, p₁, hstep, _, _, hreport, ⟨_, others⟩, _, hrest, heq, rfl⟩
    cases hreport
    cases heq
    exact ⟨step, p₁, others, hstep, hrest, rfl⟩
  · rintro ⟨step, p₁, others, hstep, hrest, rfl⟩
    exact ⟨step, p₁, hstep, _, _, rfl, (i', others), p', hrest, rfl, rfl⟩

theorem runSteps_cons {s : RefreshStep} {rest : List RefreshStep} : i.runSteps host (s :: rest) p = some (r, p') ↔
      ∃ step p₁ others, i.exec host s.op p = some (step, p₁) ∧
        i.runSteps host rest (stepWarned .refresh s.op step p₁) = some (others, p') ∧
        r = (stepReport .refresh s.op step).append others := by
  simp only [runSteps, Act.bind_eq_some, report_eq, Act.pure_eq_some]
  constructor
  · rintro ⟨step, p₁, hstep, _, _, hreport, others, _, hrest, rfl, rfl⟩
    cases hreport
    exact ⟨step, p₁, others, hstep, hrest, rfl⟩
  · rintro ⟨step, p₁, others, hstep, hrest, rfl⟩
    exact ⟨step, p₁, hstep, _, _, rfl, others, p', hrest, rfl, rfl⟩

/-- The rounds of a delivery: they end when none is left, when the component is in use or when nothing is pending, and
otherwise go on after a refresh. -/
inductive Delivered (host : Host) (i : Instance) : Nat → Page → Report → Page → Prop where
  | exhausted (p : Page) :
    i.Delivered host 0 p .empty (p.warn s!"{i.template.name}: changes still pending after {maxRounds} rounds")
  | postponed {rounds : Nat} {p : Page} (hbusy : p.access i.component ≠ .free) :
    i.Delivered host (rounds + 1) p .empty (p.warn s!"{i.template.name}: component busy, delivery postponed")
  | idle {rounds : Nat} {p : Page} (hfree : p.access i.component = .free)
    (hpending : (p.component i.component).pending.isEmpty = true) :
    i.Delivered host (rounds + 1) p .empty (p.modifyComponent i.component (·.clearChanges))
  | round {rounds : Nat} {p p₁ q : Page} {first others : Report} (hfree : p.access i.component = .free)
    (hpending : (p.component i.component).pending.isEmpty = false)
    (hfirst : i.refresh host (p.component i.component).pending (p.modifyComponent i.component (·.clearChanges)) =
      some (first, p₁))
    (hothers : i.Delivered host rounds p₁ others q) :
    i.Delivered host (rounds + 1) p (first.append others) q

theorem deliverRounds_delivered {rounds : Nat} (h : i.deliverRounds host rounds p = some (r, q)) :
    i.Delivered host rounds p r q := by
  induction rounds generalizing p r with
  | zero =>
    simp only [deliverRounds, Act.bind_eq_some, Act.modify_eq_some, Act.pure_eq_some] at h
    obtain ⟨_, _, rfl, rfl, rfl⟩ := h
    exact .exhausted p
  | succ rounds ih =>
    simp only [deliverRounds, Act.bind_eq_some, Act.get_eq_some] at h
    obtain ⟨_, _, ⟨rfl, rfl⟩, h⟩ := h
    by_cases hfree : p.access i.component = .free
    · simp only [hfree, ne_eq, not_true, ↓reduceIte, Act.bind_eq_some, Act.modify_eq_some] at h
      obtain ⟨_, _, rfl, h⟩ := h
      cases hpending : (p.component i.component).pending.isEmpty with
      | true =>
        simp only [hpending, ↓reduceIte, Act.pure_eq_some] at h
        obtain ⟨rfl, rfl⟩ := h
        exact .idle hfree hpending
      | false =>
        simp only [hpending, Bool.false_eq_true, ↓reduceIte, Act.bind_eq_some, Act.pure_eq_some] at h
        obtain ⟨first, p₁, hfirst, others, _, hothers, rfl, rfl⟩ := h
        exact .round hfree hpending hfirst (ih hothers)
    · simp only [hfree, ne_eq, not_false_eq_true, ↓reduceIte, Act.bind_eq_some, Act.modify_eq_some,
        Act.pure_eq_some] at h
      obtain ⟨_, _, rfl, rfl, rfl⟩ := h
      exact .postponed hfree

theorem Delivered.deliverRounds {rounds : Nat} (h : i.Delivered host rounds p r q) :
    i.deliverRounds host rounds p = some (r, q) := by
  induction h with
  | exhausted p => rfl
  | @postponed _ p hbusy =>
    simp only [Instance.deliverRounds, Act.bind_eq_some, Act.get_eq_some]
    refine ⟨p, p, ⟨rfl, rfl⟩, ?_⟩
    simp only [hbusy, ne_eq, not_false_eq_true, ↓reduceIte, Act.bind_eq_some, Act.modify_eq_some, Act.pure_eq_some]
    exact ⟨(), _, rfl, trivial, rfl⟩
  | @idle _ p hfree hpending =>
    simp only [Instance.deliverRounds, Act.bind_eq_some, Act.get_eq_some]
    refine ⟨p, p, ⟨rfl, rfl⟩, ?_⟩
    simp only [hfree, ne_eq, not_true, ↓reduceIte, hpending, Act.bind_eq_some, Act.modify_eq_some, Act.pure_eq_some]
    exact ⟨(), _, rfl, trivial, rfl⟩
  | @round _ p p₁ q first others hfree hpending hfirst _ ih =>
    simp only [Instance.deliverRounds, Act.bind_eq_some, Act.get_eq_some]
    refine ⟨p, p, ⟨rfl, rfl⟩, ?_⟩
    simp only [hfree, ne_eq, not_true, ↓reduceIte, hpending, Bool.false_eq_true, Act.bind_eq_some,
      Act.modify_eq_some, Act.pure_eq_some]
    exact ⟨(), _, rfl, first, p₁, hfirst, others, q, ih, rfl, rfl⟩

end Instance

end LiveMarkup
