import LiveMarkup.Proofs.Moments
import LiveMarkup.Proofs.SparedComponent

namespace LiveMarkup

variable {p q : Page} {strict : Prop} {n : NodeId} {step : Step} {report : Report}

def NodeKind.tag? : NodeKind → Option String
  | .element e => some e.tag
  | .text _ => none

namespace Document

variable {d d' : Document}

theorem tag?_eq_kind? (d : Document) (n : NodeId) : d.tag? n = (d.kind? n).bind NodeKind.tag? := by
  unfold tag? element? kind?
  cases d.nodes[n]? with
  | none => rfl
  | some node =>
    obtain ⟨kind, parent, children⟩ := node
    cases kind <;> rfl

theorem tag?_congr (h : d'.kind? n = d.kind? n) : d'.tag? n = d.tag? n := by
  rw [tag?_eq_kind?, h, tag?_eq_kind?]

theorem tag?_modifyNode (d : Document) (n x : NodeId) {f : Node → Node}
    (hf : ∀ node, (f node).kind.tag? = node.kind.tag?) : (d.modifyNode n f).tag? x = d.tag? x := by
  rw [tag?_eq_kind?, kind?, modifyNode, Array.getElem?_modify, tag?_eq_kind?, kind?]
  split
  · cases d.nodes[x]? with
    | none => rfl
    | some node => exact hf node
  · rfl

theorem tag?_modifyElement (d : Document) (n x : NodeId) {f : Element → Element}
    (hf : ∀ e, (f e).tag = e.tag) : (d.modifyElement n f).tag? x = d.tag? x := by
  apply tag?_modifyNode
  rintro ⟨kind, parent, children⟩
  cases kind with
  | element e => exact congrArg some (hf e)
  | text s => rfl

theorem tag?_setText (d : Document) (n x : NodeId) (s : String) : (d.setText n s).tag? x = d.tag? x := by
  apply tag?_modifyNode
  rintro ⟨kind, parent, children⟩
  cases kind <;> rfl

theorem tag?_setProperty (d : Document) (n x : NodeId) (path : PropertyPath) (v : Value) :
    (d.setProperty n path v).tag? x = d.tag? x :=
  d.tag?_modifyElement n x fun e => (KindShape.element.inj (e.shape_setProperty path.display v)).1

end Document

namespace Page

/-- Elements that are connecting are busy, and writes wait for none but them. -/
structure Waits (p : Page) : Prop where
  busy : ∀ n ∈ p.connecting, p.IsBusy n
  owned : ∀ w ∈ p.deferred, w.node ∈ p.connecting

/-- The write that has to wait if this is asked of the document. -/
def held? (p : Page) : Edit → Option DeferredWrite
  | .property n path v => if p.connecting.contains n && p.declares n path.head then some ⟨n, path, v⟩ else none
  | _ => none

/-- The writes among the edits that have to wait are added to those that do. Apart from that the same writes wait for
the same elements, the elements that were busy still are and answer for the same properties, and no warning is taken
back. -/
structure Holding (edits : List Edit) (p q : Page) : Prop where
  connecting : q.connecting = p.connecting
  deferred : q.deferred = p.deferred ++ edits.filterMap p.held?
  busy : ∀ n, p.IsBusy n → q.IsBusy n
  declares : ∀ n name, p.IsBusy n → q.declares n name = p.declares n name
  warnings : p.warnings <+: q.warnings

variable {r : Page} {edits : List Edit}

theorem Waits.of_quiet (h : p.Quiet) : p.Waits where
  busy n hn := by
    rw [h.1] at hn
    cases hn
  owned w hw := by
    rw [h.2] at hw
    cases hw

theorem held?_of_not_mem (h : n ∉ p.connecting) (path : PropertyPath) (v : Value) :
    p.held? (.property n path v) = none := by
  have hcontains : p.connecting.contains n = false := by simpa using h
  rw [held?, hcontains]
  rfl

theorem mem_connecting_of_held? {e : Edit} {w : DeferredWrite} (h : p.held? e = some w) :
    w.node ∈ p.connecting := by
  cases e with
  | property n path v =>
    rw [held?] at h
    split at h
    next hheld =>
      cases h
      exact List.contains_iff_mem.mp (Bool.and_eq_true_iff.mp hheld).1
    · cases h
  | _ => cases h

theorem declares_congr (hregistry : q.registry = p.registry) (hcustom : q.isCustom n = p.isCustom n)
    (htag : q.document.tag? n = p.document.tag? n) (name : String) : q.declares n name = p.declares n name := by
  rw [Page.declares, hregistry, hcustom, htag, Page.declares]

namespace Holding

theorem refl (p : Page) : p.Holding [] p :=
  ⟨rfl, (List.append_nil _).symm, fun _ h => h, fun _ _ _ => rfl, List.prefix_rfl⟩

theorem held?_eq (h : p.Holding edits q) (hp : p.Waits) : q.held? = p.held? := by
  funext e
  cases e with
  | property n path v =>
    by_cases hn : n ∈ p.connecting
    · rw [Page.held?, h.connecting, h.declares n _ (hp.busy n hn), Page.held?]
    · rw [held?_of_not_mem hn, held?_of_not_mem (h.connecting ▸ hn)]
  | _ => rfl

theorem waits (h : p.Holding edits q) (hp : p.Waits) : q.Waits where
  busy n hn := h.busy n (hp.busy n (h.connecting ▸ hn))
  owned w hw := by
    rw [h.connecting]
    rw [h.deferred] at hw
    rcases List.mem_append.mp hw with hw | hw
    · exact hp.owned w hw
    · obtain ⟨e, -, he⟩ := List.mem_filterMap.mp hw
      exact mem_connecting_of_held? he

theorem trans {others : List Edit} (h : p.Holding edits q) (hp : p.Waits) (h' : q.Holding others r) :
    p.Holding (edits ++ others) r where
  connecting := h'.connecting.trans h.connecting
  deferred := by rw [h'.deferred, h.deferred, h.held?_eq hp, List.append_assoc, List.filterMap_append]
  busy n hn := h'.busy n (h.busy n hn)
  declares n name hn := (h'.declares n name (h.busy n hn)).trans (h.declares n name hn)
  warnings := h.warnings.trans h'.warnings

theorem nothing_held (h : p.Holding edits q) (hedits : ∀ e ∈ edits, p.held? e = none) : p.Holding [] q :=
  ⟨h.connecting, by rw [h.deferred, List.filterMap_eq_nil_iff.mpr hedits, List.filterMap_nil], h.busy, h.declares,
    h.warnings⟩

/-- Edits that are not of properties do not wait. -/
theorem edit (h : p.Holding [] q) {e : Option Edit} (he : ∀ n path v, e ≠ some (.property n path v)) :
    p.Holding e.toList q := by
  have hnone : e.toList.filterMap p.held? = [] := by
    cases e with
    | none => rfl
    | some e =>
      cases e with
      | property n path v => exact absurd rfl (he n path v)
      | _ => rfl
  exact ⟨h.connecting, by rw [h.deferred, hnone, List.filterMap_nil], h.busy, h.declares, h.warnings⟩

theorem document {d : Document} (h : ∀ n, p.IsBusy n → d.tag? n = p.document.tag? n) :
    p.Holding [] { p with document := d } := by
  refine ⟨rfl, (List.append_nil _).symm, fun _ hn => hn, fun n name hn => ?_, List.prefix_rfl⟩
  exact declares_congr (p := p) (q := { p with document := d }) rfl rfl (h n hn) name

theorem warn (p : Page) (message : String) : p.Holding [] (p.warn message) :=
  ⟨rfl, (List.append_nil _).symm, fun _ hn => hn, fun _ _ _ => rfl, List.prefix_append _ _⟩

theorem modifyComponent (p : Page) (c : ComponentId) (f : Component → Component) :
    p.Holding [] (p.modifyComponent c f) :=
  ⟨rfl, (List.append_nil _).symm, fun _ hn => hn, fun _ _ _ => rfl, List.prefix_rfl⟩

theorem stepWarned (phase : Phase) (op : Op) (step : Step) (p : Page) :
    p.Holding [] (Instance.stepWarned phase op step p) := by
  obtain ⟨more, heq⟩ := Instance.stepWarned_eq phase op step p
  rw [heq]
  exact ⟨rfl, (List.append_nil _).symm, fun _ hn => hn, fun _ _ _ => rfl, List.prefix_append _ _⟩

/-- A declared property of a busy element waits if the element is connecting, and one that is connecting is busy. -/
theorem setProperty (hp : p.WellNested strict) (hwaits : p.Waits) (n : NodeId) (path : PropertyPath) (v : Value) :
    p.Holding [.property n path v] (p.setProperty n path v) := by
  have hunheld : ∀ {q}, p.held? (.property n path v) = none → p.Holding [] q →
      p.Holding [.property n path v] q := fun hnone h =>
    ⟨h.connecting, by rw [h.deferred, List.filterMap_cons, hnone], h.busy, h.declares, h.warnings⟩
  cases hdeclares : p.declares n path.head with
  | false =>
    rw [setProperty_stored hdeclares]
    refine hunheld ?_ (document fun x _ => p.document.tag?_setProperty n x path v)
    rw [Page.held?, hdeclares, Bool.and_false]
    rfl
  | true =>
    obtain ⟨e, he⟩ := custom?_of_declares hdeclares
    obtain ⟨w, hbehaviour, -⟩ := hp.behaviour he
    cases hbusy : e.busy with
    | false =>
      rw [setProperty_handed hdeclares he hbehaviour hbusy]
      refine hunheld (held?_of_not_mem (fun hn => ?_) path v) ?_
      · obtain ⟨e', he', hbusy'⟩ := hwaits.busy n hn
        rw [he] at he'
        cases he'
        rw [hbusy] at hbusy'
        cases hbusy'
      · unfold writeWidget
        split
        · exact modifyComponent p _ _
        · exact warn p _
    | true =>
      cases hconnecting : p.connecting.contains n with
      | true =>
        rw [setProperty_held hdeclares he hbusy hconnecting]
        refine ⟨rfl, ?_, fun _ hn => hn, fun _ _ _ => rfl, List.prefix_rfl⟩
        rw [List.filterMap_cons, Page.held?, hconnecting, hdeclares]
        rfl
      | false =>
        rw [setProperty_dropped hdeclares he hbusy hconnecting]
        refine hunheld ?_ (warn p _)
        rw [Page.held?, hconnecting]
        rfl

end Holding

end Page

/-- Whether an edit that writes a property writes it to one of these nodes. -/
def Edit.WritesTo (nodes : NodeId → Prop) : Edit → Prop
  | .property n _ _ => nodes n
  | _ => True

theorem Edit.WritesTo.imp {nodes nodes' : NodeId → Prop} {e : Edit} (h : e.WritesTo nodes)
    (himp : ∀ n, nodes n → nodes' n) : e.WritesTo nodes' := by
  cases e with
  | property n path v => exact himp n h
  | _ => trivial

namespace Instance

theorem execLocal_holding (hp : p.WellNested strict) (hwaits : p.Waits) (i : Instance) (op : Op) :
    p.Holding (i.execLocal op p).1.edit.toList (i.execLocal op p).2 := by
  obtain ⟨run, hrun, heq⟩ := i.execLocal_runs op p
  rw [heq]
  cases hrun with
  | nothing _ => exact .refl p
  | skip _ f => exact .refl p
  | attach name hn =>
    dsimp only
    exact .modifyComponent p i.component _
  | property path hn hv => exact .setProperty hp hwaits _ path _
  | callback name hn hv => exact .setProperty hp hwaits _ _ _
  | attr value name text hn =>
    refine Page.Holding.edit (.document fun x _ => ?_) (fun _ _ _ heq => by cases heq)
    exact p.document.tag?_modifyElement _ x fun _ => rfl
  | noAttr value name hn =>
    refine Page.Holding.edit (.document fun x _ => ?_) (fun _ _ _ heq => by cases heq)
    exact p.document.tag?_modifyElement _ x fun _ => rfl
  | listener event handler hn =>
    refine Page.Holding.edit (.document fun x _ => ?_) (fun _ _ _ heq => by cases heq)
    exact p.document.tag?_modifyElement _ x fun _ => rfl
  | newText s value text fault =>
    refine Page.Holding.edit (.document fun x hx => Document.tag?_congr ?_) (fun _ _ _ heq => by cases heq)
    obtain ⟨e, he, -⟩ := hx
    obtain ⟨w, -, hw⟩ := hp.behaviour he
    exact p.document.kind?_push_of_lt _ (hp.living x w hw).within
  | text value text hn =>
    exact .edit (.document fun x _ => p.document.tag?_setText _ x _) (fun _ _ _ heq => by cases heq)
  | child ha hb =>
    refine Page.Holding.edit ?_ (fun _ _ _ heq => by cases heq)
    simp only [Page.append]
    split
    · exact .document fun x _ => Document.tag?_congr (p.document.kind?_append _ _ x)
    · exact .warn p _

/-- The properties that an instruction writes are those of its node. -/
theorem execLocal_writesTo (i : Instance) (op : Op) (p : Page) :
    ∀ e ∈ (i.execLocal op p).1.edit, e.WritesTo fun n => i.node? op.slot = some n := by
  intro e he
  obtain ⟨run, hrun, heq⟩ := i.execLocal_runs op p
  rw [heq] at he
  cases hrun with
  | nothing _ => cases he
  | skip _ f => cases he
  | attach name hn => cases he
  | property path hn hv =>
    cases he
    exact hn
  | callback name hn hv =>
    cases he
    exact hn
  | _ =>
    cases he
    trivial

theorem edits_stepReport (phase : Phase) (op : Op) (step : Step) :
    (stepReport phase op step).edits = step.edit.toList := by
  unfold stepReport
  split <;> rfl

end Instance

/-- Creating elements, and flushing those that came after all busy ones, leaves alone what waits. -/
structure Host.LeavesWaiting (host : Host) : Prop where
  create : ∀ tag ns p n q, p.WellNested False → p.Waits → host.create tag ns p = some (n, q) → p.Holding [] q
  flush : ∀ n p result q, p.WellNested False → p.Waits → (∀ m, p.IsBusy m → m < n) →
    host.flush n p = some (result, q) → p.Holding [] q

namespace Instance

variable {i : Instance} {root : Option NodeId} {depth : Nat}

theorem exec_holding (hhost : (hostTo depth).LeavesWaiting) {op : Op} (hp : p.WellNested False) (hwaits : p.Waits)
    (hyoung : ∀ s n, op = .flushNested s → i.node? s = some n → ∀ m, p.IsBusy m → m < n)
    (hexec : i.exec (hostTo depth) op p = some (step, q)) :
    p.Holding step.edit.toList q ∧ ∀ e ∈ step.edit, e.WritesTo fun n => i.node? op.slot = some n := by
  cases exec_ran hexec with
  | alone hneeds hlocal =>
    have hholding := execLocal_holding hp hwaits i op
    have hwrites := execLocal_writesTo i op p
    rw [hlocal] at hholding hwrites
    exact ⟨hholding, hwrites⟩
  | created hcreate =>
    refine ⟨.edit (hhost.create _ _ p _ q hp hwaits hcreate) (fun _ _ _ heq => by cases heq), ?_⟩
    rintro e he
    cases he
    trivial
  | unbuilt hn => exact ⟨.refl p, fun _ he => by cases he⟩
  | @flushed s n result _ hn hflush =>
    refine ⟨.edit (hhost.flush n p result q hp hwaits (hyoung s n rfl hn) hflush) (fun _ _ _ heq => by cases heq), ?_⟩
    rintro e he
    cases he
    trivial

/-- An instruction of a build writes properties to the root, or to nodes that are not busy. -/
theorem Building.holding (hhost : (hostTo depth).LeavesWaiting) {op : Op} {rest : List Op}
    (h : i.Building root (op :: rest) p) (hwaits : p.Waits)
    (hexec : i.execBuild (hostTo depth) root op p = some (step, q)) :
    p.Holding step.edit.toList q ∧ ∀ e ∈ step.edit, e.WritesTo fun n => root = some n ∨ ¬p.IsBusy n := by
  obtain ⟨p₀, k, k', hunder, -⟩ := h.underway
  by_cases hadopts : ∃ s, op = .adoptRoot s
  · obtain ⟨s, rfl⟩ := hadopts
    obtain ⟨rfl, rfl⟩ := execBuild_adoptRoot.mp hexec
    exact ⟨.refl p, fun _ he => by cases he⟩
  rw [execBuild_eq_exec fun s heq => hadopts ⟨s, heq⟩] at hexec
  obtain ⟨hholding, hwrites⟩ := exec_holding hhost hunder.grown.wellNested hwaits
    (fun s n heq hn m hm => by subst heq; exact h.young hn hm) hexec
  refine ⟨hholding, fun e he => (hwrites e he).imp fun n hn => ?_⟩
  rcases hunder.nodes _ n hn with ⟨-, -, hroot, -⟩ | hnew
  · exact Or.inl hroot
  · exact Or.inr (hunder.grown.calm n hnew.2.1)

theorem runBuild_holding (hhost : (hostTo depth).LeavesWaiting) {ops : List Op} {i' : Instance}
    (h : i.Building root ops p) (hwaits : p.Waits)
    (hrun : i.runBuild (hostTo depth) root ops p = some ((i', report), q)) :
    p.Holding report.edits q ∧ ∀ e ∈ report.edits, e.WritesTo fun n => root = some n ∨ ¬p.IsBusy n := by
  induction ops generalizing i p report with
  | nil =>
    obtain ⟨heq, rfl⟩ := Act.pure_eq_some.mp hrun
    cases heq
    exact ⟨.refl p, fun _ he => by cases he⟩
  | cons op rest ih =>
    obtain ⟨step, p₁, others, hexec, hrest, rfl⟩ := runBuild_cons.mp hrun
    obtain ⟨hfirst, hfirstWrites⟩ := h.holding hhost hwaits hexec
    have hreported : p.Holding step.edit.toList (stepWarned .build op step p₁) := by
      simpa using hfirst.trans hwaits (.stepWarned .build op step p₁)
    obtain ⟨hothers, hothersWrites⟩ := ih (h.next hexec).2 (hreported.waits hwaits) hrest
    rw [Report.append, edits_stepReport]
    refine ⟨hreported.trans hwaits hothers, fun e he => ?_⟩
    rcases List.mem_append.mp he with he | he
    · exact hfirstWrites e (Option.mem_toList.mp he)
    · exact (hothersWrites e he).imp fun n => Or.imp_right fun hfree hbusy => hfree (hreported.busy n hbusy)

/-- A step of a refresh writes properties to nodes of the instance. -/
theorem Refreshing.holding (hhost : (hostTo depth).LeavesWaiting) {s : RefreshStep} {rest : List RefreshStep}
    (hp : p.WellNested False) (h : i.Refreshing (s :: rest) p) (hwaits : p.Waits)
    (hexec : i.exec (hostTo depth) s.op p = some (step, q)) :
    p.Holding step.edit.toList q ∧ ∀ e ∈ step.edit, e.WritesTo fun n => ∃ s, i.node? s = some n := by
  obtain ⟨hholding, hwrites⟩ := exec_holding hhost hp hwaits (h.prepared.young s List.mem_cons_self) hexec
  exact ⟨hholding, fun e he => (hwrites e he).imp fun n hn => ⟨_, hn⟩⟩

theorem runSteps_holding (hhost : (hostTo depth).LeavesWaiting) {steps : List RefreshStep} (hp : p.WellNested False)
    (h : i.Refreshing steps p) (hwaits : p.Waits) (hrun : i.runSteps (hostTo depth) steps p = some (report, q)) :
    p.Holding report.edits q ∧ ∀ e ∈ report.edits, e.WritesTo fun n => ∃ s, i.node? s = some n := by
  induction steps generalizing p report with
  | nil =>
    obtain ⟨rfl, rfl⟩ := Act.pure_eq_some.mp hrun
    exact ⟨.refl p, fun _ he => by cases he⟩
  | cons s rest ih =>
    obtain ⟨step, p₁, others, hexec, hrest, rfl⟩ := runSteps_cons.mp hrun
    obtain ⟨hfirst, hfirstWrites⟩ := h.holding hhost hp hwaits hexec
    have hreported : p.Holding step.edit.toList (stepWarned .refresh s.op step p₁) := by
      simpa using hfirst.trans hwaits (.stepWarned .refresh s.op step p₁)
    obtain ⟨hsteady, hnext⟩ := h.next hp hexec
    obtain ⟨hothers, hothersWrites⟩ := ih (hp.steady hsteady) hnext (hreported.waits hwaits) hrest
    rw [Report.append, edits_stepReport]
    refine ⟨hreported.trans hwaits hothers, fun e he => ?_⟩
    rcases List.mem_append.mp he with he | he
    · exact hfirstWrites e (Option.mem_toList.mp he)
    · exact hothersWrites e he

/-- Whatever the rounds of a delivery write, they write it to nodes of the instance. -/
theorem deliverRounds_holding (hhost : (hostTo depth).LeavesWaiting) {rounds : Nat} (hp : p.WellNested False)
    (hprep : ∀ changed, i.Prepared False (fun _ => False) (i.template.refresh.filter fun s => s.triggeredBy changed) p)
    (hwaits : p.Waits) (hrun : i.deliverRounds (hostTo depth) rounds p = some (report, q)) :
    ∃ edits, p.Holding edits q ∧ ∀ e ∈ edits, e.WritesTo fun n => ∃ s, i.node? s = some n := by
  have hdelivered := deliverRounds_delivered hrun
  clear hrun
  induction hdelivered with
  | exhausted p => exact ⟨[], .warn p _, fun _ he => absurd he List.not_mem_nil⟩
  | @postponed _ p hbusy => exact ⟨[], .warn p _, fun _ he => absurd he List.not_mem_nil⟩
  | @idle _ p hfree hpending =>
    exact ⟨[], .modifyComponent p i.component _, fun _ he => absurd he List.not_mem_nil⟩
  | @round _ p p₁ _ first _ hfree hpending hfirst _ ih =>
    have hclear := p.steady_clear i.component
    have hcleared := Page.Holding.modifyComponent p i.component (·.clearChanges)
    have hprep₁ := fun changed => (hprep changed).steady hclear
    obtain ⟨hholding, hwrites⟩ := runSteps_holding hhost (hp.steady hclear) (.start hprep₁ _)
      (hcleared.waits hwaits) hfirst
    have hdone : p.Holding first.edits p₁ := by simpa using hcleared.trans hwaits hholding
    have hsteady := hclear.trans (runSteps_drains (hostTo_flushes depth) (hp.steady hclear) (hprep₁ _) hfirst).1
    obtain ⟨edits, hedits, hothers⟩ := ih (hp.steady hsteady) (fun changed => (hprep changed).steady hsteady)
      (hdone.waits hwaits)
    refine ⟨first.edits ++ edits, hdone.trans hwaits hedits, fun e he => ?_⟩
    rcases List.mem_append.mp he with he | he
    · exact hwrites e he
    · exact hothers e he

end Instance

end LiveMarkup
