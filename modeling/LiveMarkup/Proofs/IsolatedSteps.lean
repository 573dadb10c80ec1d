import LiveMarkup.Proofs.BuildRun
import LiveMarkup.Proofs.DisjointRefresh

namespace LiveMarkup

variable {p q : Page} {i : Instance} {depth : Nat} {strict : Prop} {built : List Instance} {n : NodeId} {op : Op}
  {done : Step} {root : Option NodeId}

/-- A step that was tried, with the fault that it met if it failed. -/
structure Attempt where
  step : RefreshStep
  fault : Option Fault

namespace Attempt

def diagnostic? (i : Instance) (a : Attempt) : Option Diagnostic :=
  a.fault.map (i.diagnostic .refresh a.step.op)

/-- The steps that did not fail. -/
def survivors (attempts : List Attempt) : List RefreshStep :=
  (attempts.filter fun a => a.fault.isNone).map (·.step)

end Attempt

/-- The page once a sink has received a diagnostic. -/
def Page.notified (p : Page) (sink : Sink) (d : Diagnostic) : Page :=
  { p with warnings := p.warnings ++ sink.announce [d] }

namespace Instance

/-- The instance tries steps one after the other. A step that fails leaves the page as it is, apart from what the
sink receives. -/
inductive Tries (host : Host) (i : Instance) : Page → List Attempt → Page → Prop where
  | done (p : Page) : Tries host i p [] p
  | success {p p₁ q : Page} {s : RefreshStep} {edit : Option Edit} {rest : List Attempt}
      (h : i.exec host s.op p = some (⟨i, none, edit⟩, p₁)) (hrest : Tries host i p₁ rest q) :
      Tries host i p (⟨s, none⟩ :: rest) q
  | failure {p q : Page} {s : RefreshStep} {fault : Fault} {edit : Option Edit} {rest : List Attempt}
      (h : i.exec host s.op p = some (⟨i, some fault, edit⟩, p))
      (hrest : Tries host i (p.notified i.sink (i.diagnostic .refresh s.op fault)) rest q) :
      Tries host i p (⟨s, some fault⟩ :: rest) q

/-- How a refresh went: the steps that the change calls for were tried in the order of the template, the report
counts them and lists a diagnostic for each that failed, and the steps that did not fail would have come to the same
document, the same components and the same elements without the others. -/
structure Isolates (host : Host) (i : Instance) (changed : Names) (p : Page) (report : Report) (q : Page)
    (attempts : List Attempt) : Prop where
  steps : attempts.map (·.step) = i.template.refresh.filter fun s =>
    decide (s.always = true ∨ ∃ name ∈ s.deps, changed.contains name = true)
  tried : i.Tries host p attempts q
  executed : report.executed = attempts.length
  diagnostics : report.diagnostics = attempts.filterMap (Attempt.diagnostic? i)
  failed : report.failed = report.diagnostics.length
  survivors : ∃ others q', i.runSteps host (Attempt.survivors attempts) p = some (others, q') ∧ others.failed = 0 ∧
    q'.document = q.document ∧ q'.components = q.components ∧ ∀ n, q'.custom? n = q.custom? n

end Instance

section Faults

/-- The whole page. -/
def Region.everywhere : Region where
  nodes _ := True
  components _ := True
  shown := 0

variable {host : Host}

theorem Page.AgreesOn.everywhere (h : p.AgreesOn .everywhere q) :
    q.document = p.document ∧ q.components = p.components ∧ ∀ n, q.custom? n = p.custom? n :=
  ⟨congrArg Document.mk (Array.ext_getElem? fun n => h.nodes n trivial),
    Array.ext_getElem? fun c => h.components c (Or.inr trivial), fun n => h.elements n trivial⟩

theorem Page.Encloses.notified {R : Region} (h : p.Encloses R) (sink : Sink) (d : Diagnostic) :
    (p.notified sink d).Encloses R :=
  h

theorem Page.AgreesOn.notified {R : Region} (h : p.AgreesOn R q) (sink : Sink) (d : Diagnostic) :
    (p.notified sink d).AgreesOn R q :=
  ⟨h.registry, h.connecting, h.nodes, h.elements, h.components⟩

theorem Instance.stepWarned_failed (op : Op) (fault : Fault) (edit : Option Edit) (p : Page) :
    stepWarned .refresh op ⟨i, some fault, edit⟩ p = p.notified i.sink (i.diagnostic .refresh op fault) := by
  change p.tell i.sink _ = _
  rw [Page.tell_eq, Page.notified, Sink.announce, List.flatMap_singleton]

/-- A flush fails only if it finds the element busy. -/
theorem flushWith_error {fault : Fault} (hp : p.Encloses .everywhere)
    (h : flushWith host n p = some (.error fault, q)) : q = p := by
  obtain hsame | ⟨_, _, _, _, -, -, -, heq, -⟩ :=
    flushWith_widget (fun e he => (hp n e trivial he).imp fun _ hw => hw.1) h
  · exact hsame
  · cases heq

theorem hostTo_flush_error {fault : Fault} (hp : p.Encloses .everywhere)
    (h : (hostTo depth).flush n p = some (.error fault, q)) : q = p := by
  cases depth with
  | zero => cases h
  | succ depth => exact flushWith_error hp h

namespace Instance

theorem execLocal_failed (hop : op.InPlace) (hfault : (i.execLocal op p).1.fault ≠ none) :
    (i.execLocal op p).2 = p := by
  obtain ⟨run, hrun, heq⟩ := i.execLocal_runs op p
  rw [heq] at hfault ⊢
  cases hrun with
  | skip _ f => rfl
  | newText s value text fault => exact hop.elim
  | _ => exact absurd rfl hfault

/-- A step that fails changes nothing. -/
theorem exec_failed (hp : p.Encloses .everywhere) (hop : op.InPlace) (h : i.exec (hostTo depth) op p = some (done, q))
    (hfault : done.fault ≠ none) : q = p := by
  cases exec_ran h with
  | alone hneeds hlocal =>
    have hsame := execLocal_failed (i := i) (p := p) hop
    rw [hlocal] at hsame
    exact hsame hfault
  | created hn => exact hop.elim
  | unbuilt hn => rfl
  | @flushed _ _ result _ hn hflush =>
    cases result with
    | ok k => exact absurd rfl hfault
    | error f => exact hostTo_flush_error hp hflush

theorem exec_inst_inPlace (hop : op.InPlace) (h : i.exec host op p = some (done, q)) : done.inst = i := by
  have hadopt : ∀ s, op ≠ .adoptRoot s := by
    rintro s rfl
    exact hop
  have hbuild : i.execBuild host none op p = some (done, q) := by rw [execBuild_eq_exec hadopt, h]
  exact execBuild_inst_of_not_bound hop.bound? hbuild

end Instance

end Faults

namespace Instance

theorem covers_everywhere (hi : ∀ step ∈ i.template.refresh, step.op.InPlace) : Region.everywhere.Covers i where
  component := Or.inr trivial
  nodes _ _ _ := trivial
  inPlace := hi

/-- What a run of steps reports, and what each step came to. -/
theorem runSteps_tries {steps : List RefreshStep} {report : Report} (hp : p.Encloses .everywhere)
    (hi : Region.everywhere.Covers i) (hsteps : ∀ s ∈ steps, s.op.InPlace)
    (h : i.runSteps (hostTo depth) steps p = some (report, q)) :
    ∃ attempts : List Attempt, attempts.map (·.step) = steps ∧ i.Tries (hostTo depth) p attempts q ∧
      report.executed = attempts.length ∧ report.diagnostics = attempts.filterMap (Attempt.diagnostic? i) ∧
      report.failed = report.diagnostics.length := by
  induction steps generalizing p report with
  | nil =>
    obtain ⟨rfl, rfl⟩ := Act.pure_eq_some.mp h
    exact ⟨[], rfl, .done _, rfl, rfl, rfl⟩
  | cons s rest ih =>
    obtain ⟨⟨j, fault, edit⟩, p₁, others, hstep, hrest, rfl⟩ := runSteps_cons.mp h
    have hop := hsteps s List.mem_cons_self
    cases exec_inst_inPlace hop hstep
    have hlater : ∀ s' ∈ rest, s'.op.InPlace := fun s' hs' => hsteps s' (List.mem_cons_of_mem _ hs')
    have hp₁ := hp.differsIn (exec_keepsTo (hostTo_keepsTo _ depth) hi hp hop _ p₁ hstep).1
    cases fault with
    | none =>
      obtain ⟨attempts, hmap, htries, hexecuted, hdiagnostics, hfailed⟩ := ih hp₁ hlater hrest
      refine ⟨⟨s, none⟩ :: attempts, by rw [List.map_cons, hmap], .success hstep htries, ?_, ?_, ?_⟩
      · rw [List.length_cons, ← hexecuted, Nat.add_comm]
        rfl
      · exact hdiagnostics
      · rw [Report.append, stepReport, hfailed]
        simp
    | some fault =>
      -- the page after the fault is the one before it, so the diagnostic is all that is new
      cases exec_failed hp hop hstep (by simp)
      rw [stepWarned_failed] at hrest
      obtain ⟨attempts, hmap, htries, hexecuted, hdiagnostics, hfailed⟩ := ih (hp.notified _ _) hlater hrest
      refine ⟨⟨s, some fault⟩ :: attempts, by rw [List.map_cons, hmap], .failure hstep htries, ?_, ?_, ?_⟩
      · rw [List.length_cons, ← hexecuted, Nat.add_comm]
        rfl
      · rw [Report.append, stepReport, hdiagnostics]
        rfl
      · rw [Report.append, stepReport, hfailed]
        simp [Nat.add_comm]

/-- Without the steps that failed the others find the same page, apart from the warnings. -/
theorem Tries.survivors {attempts : List Attempt} (h : i.Tries (hostTo depth) p attempts q)
    (hp : p.Encloses .everywhere) (hi : Region.everywhere.Covers i)
    (hsteps : ∀ a ∈ attempts, a.step.op.InPlace) {p' : Page} (hp' : p.AgreesOn .everywhere p') :
    ∃ others q', i.runSteps (hostTo depth) (Attempt.survivors attempts) p' = some (others, q') ∧
      others.failed = 0 ∧ q.AgreesOn .everywhere q' := by
  induction h generalizing p' with
  | done p => exact ⟨.empty, p', Act.pure_eq_some.mpr ⟨rfl, rfl⟩, rfl, hp'⟩
  | @success p p₁ q s edit rest hstep _ ih =>
    obtain ⟨hop, hlater⟩ := List.forall_mem_cons.mp hsteps
    obtain ⟨hdiffers, hagrees⟩ := exec_keepsTo (hostTo_keepsTo _ depth) hi hp hop _ p₁ hstep
    obtain ⟨p₁', hstep', hp₁'⟩ := hagrees p' hp'
    obtain ⟨others, q', hrun, hfine, hq'⟩ := ih (hp.differsIn hdiffers) hlater hp₁'
    refine ⟨_, q', runSteps_cons.mpr ⟨_, p₁', others, hstep', hrun, rfl⟩, ?_, hq'⟩
    rw [Report.append, stepReport, hfine]
  | failure hstep _ ih =>
    exact ih (hp.notified _ _) (List.forall_mem_cons.mp hsteps).2 (hp'.notified _ _)

theorem refresh_isolates {changed : Names} {report : Report} (hp : p.Encloses .everywhere)
    (hi : ∀ step ∈ i.template.refresh, step.op.InPlace)
    (h : i.refresh (hostTo depth) changed p = some (report, q)) :
    ∃ attempts, i.Isolates (hostTo depth) changed p report q attempts := by
  have hcovers := covers_everywhere hi
  have hsteps : ∀ s ∈ i.template.refresh.filter fun s => s.triggeredBy changed, s.op.InPlace :=
    fun s hs => hi s (List.mem_of_mem_filter hs)
  obtain ⟨attempts, hmap, htries, hexecuted, hdiagnostics, hfailed⟩ := runSteps_tries hp hcovers hsteps h
  refine ⟨attempts, ?_, htries, hexecuted, hdiagnostics, hfailed, ?_⟩
  · rw [hmap]
    refine List.filter_congr fun s _ => ?_
    rw [RefreshStep.triggeredBy, Bool.eq_iff_iff]
    simp
  · have hattempts : ∀ a ∈ attempts, a.step.op.InPlace :=
      fun a ha => hsteps a.step (hmap ▸ List.mem_map_of_mem ha)
    obtain ⟨others, q', hrun, hfine, hagrees⟩ := htries.survivors hp hcovers hattempts (.refl _ p)
    exact ⟨others, q', hrun, hfine, hagrees.everywhere⟩

end Instance

section Slots

namespace Page

theorem WellNested.encloses_everywhere (hp : p.WellNested strict) : p.Encloses .everywhere := by
  intro n e _ he
  obtain ⟨w, hbehaviour, hw⟩ := hp.behaviour he
  refine ⟨w, hbehaviour, trivial, fun i hi => ?_⟩
  have hhoused := (hp.living n w hw).shown i hi
  exact ⟨hhoused.component, Instance.covers_everywhere hhoused.tends.inPlace⟩

theorem within_of_grown (hp : p.WellNested strict) (hq : p.Grown strict root q) {m : NodeId}
    (hm : m < p.document.size) (h : q.Within m n) : n < p.document.size ∧ p.Within m n := by
  induction h with
  | refl => exact ⟨hm, .refl⟩
  | @tail k l _ hl ih =>
    have hinside : p.Inside k l := (inside_congr (hq.old k ih.1)).mp hl
    exact ⟨(hp.inside_bounds hinside).2, ih.2.tail hinside⟩

theorem within_of_elements (helements : q.elements = p.elements) : q.Within = p.Within := by
  have hinside : q.Inside = p.Inside := by
    funext m k
    exact propext (inside_congr (by rw [custom?, helements, custom?]))
  rw [Within, hinside, Within]

end Page

namespace Instance

/-- No node of the instance is within the node of another slot. -/
def Spread (i : Instance) (p : Page) : Prop :=
  ∀ s s' n m, s ≠ s' → i.node? s = some n → i.node? s' = some m → ¬p.Within m n

theorem Spread.of_within (h : i.Spread p) (hq : q.Within = p.Within) : i.Spread q := by
  unfold Spread
  rw [hq]
  exact h

theorem Spread.grown (h : i.Spread p) (hp : p.WellNested strict) (hi : p.Holds strict i) (hq : p.Grown strict root q) :
    i.Spread q := by
  intro s s' n m hne hn hm hwithin
  exact h s s' n m hne hn hm (Page.within_of_grown hp hq (hi.within s' m hm) hwithin).2

/-- What a build creates stands side by side, and a root that it adopts was there before. -/
theorem Underway.spread {k : Nat} {ops : List Op} (h : i.Underway strict root p k ops q) : i.Spread q := by
  intro s s' n m hne hn hm hwithin
  rcases hwithin.cases_tail with rfl | ⟨b, -, hinside⟩
  · exact hne (h.injective s s' n hn hm)
  · rcases h.nodes s n hn with ⟨rfl, -, -, hlt⟩ | ⟨-, hle, -⟩
    · rcases h.nodes s' m hm with ⟨rfl, -⟩ | ⟨-, hle, -⟩
      · exact hne rfl
      · exact absurd (Nat.le_trans hle (h.grown.wellNested.within_le hwithin)) (Nat.not_le.mpr hlt)
    · exact h.outer s n hn hle b hinside

end Instance

namespace Page

theorem Hosted.spread (h : p.Hosted built) : ∀ i ∈ built, i.Spread p := by
  induction h with
  | start _ _ => exact fun i hi => absurd hi List.not_mem_nil
  | define hp ht h ih =>
    obtain ⟨-, helements, -⟩ := hp.sound.1.defineWidget ht h
    exact fun i hi => (ih i hi).of_within (within_of_elements helements)
  | create hp h ih =>
    have hsound := hp.sound.1
    have hgrown := ((hostTo_creates _).create _ _ _ _ _ (withHost_eq_some.mp h) hsound.wellNested).toGrown
    exact fun i hi => (ih i hi).grown hsound.wellNested (hsound.held i hi) hgrown
  | build hp ht _ h ih =>
    have hsound := hp.sound.1
    obtain ⟨hbuilt, -⟩ := Template.instantiate_underway hsound.wellNested (tended_false _ ▸ ht.tends) h
    intro i hi
    rcases List.mem_cons.mp hi with rfl | hi
    · exact hbuilt.spread
    · exact (ih i hi).grown hsound.wellNested (hsound.held i hi) hbuilt.grown
  | refresh hp hi h ih =>
    have hsound := hp.sound.1
    have hsteady := Instance.refresh_steady hsound.wellNested hsound.calm (hsound.held _ hi) (withHost_eq_some.mp h)
    exact fun i hi => (ih i hi).of_within hsteady.within
  | deliver hp hi h ih =>
    have hsound := hp.sound.1
    have hsteady :=
      Instance.deliverRounds_steady hsound.wellNested hsound.calm (hsound.held _ hi) (withHost_eq_some.mp h)
    exact fun i hi => (ih i hi).of_within hsteady.within
  | flush hp h ih =>
    have hsound := hp.sound.1
    have hflushed := (hostTo_flushes _).flush _ _ _ _ (withHost_eq_some.mp h) hsound.wellNested
      fun m hm => absurd hm (hsound.calm m)
    exact fun i hi => (ih i hi).of_within hflushed.steady.within
  | write hp n path v ih =>
    exact fun i hi => (ih i hi).of_within (setProperty_touched hp.sound.1.wellNested n path v).steady.within
  | dispatch _ h ih => exact fun i hi => (ih i hi).of_within (dispatch_undisturbed h).steady.within
  | change _ _ helements _ _ _ ih => exact fun i hi => (ih i hi).of_within (within_of_elements helements)

end Page

namespace Instance

/-- An instruction reaches no node outside that of its slot. -/
theorem exec_elsewhere (hp : p.WellNested strict) (hcalm : ∀ n, ¬p.IsBusy n) (hop : op.InPlace)
    (h : i.exec (hostTo depth) op p = some (done, q)) :
    p.Steady q ∧ ∀ n, (∀ m, i.node? op.slot = some m → ¬p.Within m n) →
      q.document.kind? n = p.document.kind? n := by
  cases exec_ran h with
  | alone hneeds hlocal =>
    have heffect := i.execLocal_touched hp hop.bound?
    rw [hlocal] at heffect
    rcases heffect with rfl | ⟨m, hm, htouched, -⟩
    · exact ⟨.refl _, fun _ _ => rfl⟩
    · refine ⟨htouched.steady, fun n hn => htouched.kinds n ?_⟩
      rintro rfl
      exact hn n hm .refl
  | created hn => exact hop.elim
  | unbuilt hn => exact ⟨.refl _, fun _ _ => rfl⟩
  | @flushed s m result _ hm hflush =>
    have hflushed := (hostTo_flushes depth).flush m p result q hflush hp fun k hk => absurd hk (hcalm k)
    exact ⟨hflushed.steady, fun n hn => hflushed.confined.kinds n (hn m hm)⟩

/-- A slot whose steps all fail keeps what it shows. -/
theorem Tries.keeps {attempts : List Attempt} (h : i.Tries (hostTo depth) p attempts q) (hp : p.WellNested strict)
    (hcalm : ∀ n, ¬p.IsBusy n) (hspread : i.Spread p) (hsteps : ∀ a ∈ attempts, a.step.op.InPlace) {s : Slot}
    (hn : i.node? s = some n) (hfailed : ∀ a ∈ attempts, a.step.op.slot = s → a.fault ≠ none) :
    q.document.kind? n = p.document.kind? n := by
  induction h with
  | done p => rfl
  | @success p p₁ q step edit rest hstep _ ih =>
    obtain ⟨hop, hlater⟩ := List.forall_mem_cons.mp hsteps
    obtain ⟨hother, hrest⟩ := List.forall_mem_cons.mp hfailed
    have hne : s ≠ step.op.slot := fun heq => hother heq.symm rfl
    obtain ⟨hsteady, hkinds⟩ := exec_elsewhere hp hcalm hop hstep
    have hkept := ih (hp.steady hsteady) (fun m hm => hcalm m ((hsteady.isBusy m).mp hm))
      (hspread.of_within hsteady.within) hlater hrest
    exact hkept.trans (hkinds n fun m hm => hspread s _ n m hne hn hm)
  | @failure p q step fault edit rest hstep _ ih =>
    have hsteady : p.Steady (p.notified i.sink (i.diagnostic .refresh step.op fault)) :=
      .of_elements rfl rfl rfl rfl fun _ => rfl
    exact ih (hp.steady hsteady) (fun m hm => hcalm m ((hsteady.isBusy m).mp hm))
      (hspread.of_within hsteady.within) (List.forall_mem_cons.mp hsteps).2 (List.forall_mem_cons.mp hfailed).2

end Instance

end Slots

/-- A refresh tries the steps that the change calls for, in the order of the template, and what fails neither
changes anything nor keeps the others from what they do, on any page whose elements are widgets and however deep
they nest. A refresh of an instance on such a page returns, and where all the steps for a slot that were tried
failed, the node of the slot is what it was. What receives the failures is taken to leave the components alone
(`Receiver.LeavesComponents`). -/
theorem refresh_isolates_failures :
    (∀ (p : Page) (i : Instance) (depth : Nat) (changed : Names) (report : Report) (q : Page),
      p.Encloses .everywhere → i.template.Compiled → i.refresh (hostTo depth) changed p = some (report, q) →
      ∃ attempts, i.Isolates (hostTo depth) changed p report q attempts) ∧
    ∀ (p : Page) (built : List Instance), p.Hosted built → ∀ i ∈ built, ∀ changed : Names,
      ∃ report q attempts, withHost (fun host => i.refresh host changed) p = some (report, q) ∧
        i.Isolates (hostTo p.nesting) changed p report q attempts ∧
        ∀ s n, i.node? s = some n → (∀ a ∈ attempts, a.step.op.slot = s → a.fault ≠ none) →
          q.document.kind? n = p.document.kind? n := by
  constructor
  · intro p i depth changed report q hp hi h
    exact Instance.refresh_isolates hp (fun step hstep => hi.inPlace hstep) h
  · intro p built hp i hi changed
    obtain ⟨hwell, hcalm, hheld⟩ := hp.sound.1
    have hinPlace := (hheld i hi).tends.inPlace
    obtain ⟨report, q, h⟩ := Instance.refresh_returns hwell hcalm (hheld i hi) changed
    obtain ⟨attempts, hisolates⟩ := Instance.refresh_isolates hwell.encloses_everywhere hinPlace h
    have hsteps : ∀ a ∈ attempts, a.step.op.InPlace := by
      intro a ha
      have hmem : a.step ∈ attempts.map (·.step) := List.mem_map_of_mem ha
      rw [hisolates.steps] at hmem
      exact hinPlace a.step (List.mem_of_mem_filter hmem)
    exact ⟨report, q, attempts, withHost_eq_some.mpr h, hisolates, fun s n hn hfailed =>
      hisolates.tried.keeps hwell hcalm (hp.spread i hi) hsteps hn hfailed⟩

theorem Page.Hosted.undisturbed (h : p.Hosted built) (hq : p.Undisturbed q) : q.Hosted built := by
  refine h.change hq.registry hq.elements (Nat.le_of_eq (by rw [hq.document])) (Nat.le_of_eq hq.count.symm)
    fun n w hw => ?_
  rw [hq.access]
  exact (h.sound.1.wellNested.living n w hw).free

/-- A shelf with an item whose label is the shelf's name, and a mark that is put together from two properties. -/
def sampleMarkedShelf : TemplateNode :=
  .node (.ofTag "section") [.node { NodeHead.ofTag "x-item" with attributes := [("label", .property "name")] } [],
    .text ((Expr.binary .add (.prop "mark") (.prop "rest")).toSpec "mark + rest")]

def sampleMarkedShelfTemplate : Template :=
  .ofPlan {} sampleMarkedShelf.size (sampleMarkedShelf.rootPlan sampleShelfPage.registry.declared {})

theorem sampleMarkedShelfTemplate_compiled : sampleMarkedShelfTemplate.Compiled :=
  ⟨sampleShelfPage.registry.declared, .empty, {}, sampleMarkedShelf, _, rfl⟩

/-- Builds the shelf with a mark, gives it another name and a mark that cannot be put together, and refreshes it.
Tells how many steps ran and failed, and the texts of the item and of the mark before and after. -/
def sampleMarkedShelfLoss : Act (Nat × Nat × List (Option String) × List (Option String)) := do
  modify (·.modifyComponent 0 (·.set "mark" (.text "t")))
  match ← sampleMarkedShelfTemplate.instantiate 0 none .warnings with
  | .error _ => return (0, 0, [], [])
  | .ok (i, _) =>
    modify (·.modifyComponent 0 (·.set "name" (.text "b")))
    modify (·.modifyComponent 0 (·.set "mark" (.bool true)))
    let before := [2, 3].map (← get).document.text?
    let report ← withHost fun host => i.refresh host (Names.ofList ["mark", "name"])
    return (report.executed, report.failed, before, [2, 3].map (← get).document.text?)

theorem sampleMarkedShelfLoss_result : (sampleMarkedShelfLoss sampleShelvesPage).map (·.1) =
    some (3, 1, [some "a", some "t"], [some "b", some "t"]) := by
  decide +kernel

theorem refresh_isolates_failures_sampleMarkedShelf : ∃ p i report q attempts,
    p.Hosted [i] ∧ p.Encloses .everywhere ∧ i.template.Compiled ∧
    withHost (fun host => i.refresh host (Names.ofList ["mark", "name"])) p = some (report, q) ∧
    i.Isolates (hostTo p.nesting) (Names.ofList ["mark", "name"]) p report q attempts ∧
    (∀ s n, i.node? s = some n → (∀ a ∈ attempts, a.step.op.slot = s → a.fault ≠ none) →
      q.document.kind? n = p.document.kind? n) ∧
    attempts.length = 3 ∧ (attempts.filterMap (Attempt.diagnostic? i)).length = 1 ∧
    [2, 3].map p.document.text? = [some "a", some "t"] ∧ [2, 3].map q.document.text? = [some "b", some "t"] := by
  obtain ⟨⟨answers, _⟩, hrun, hanswers⟩ := Option.map_eq_some_iff.mp sampleMarkedShelfLoss_result
  simp only [sampleMarkedShelfLoss, Act.bind_eq_some, Act.modify_eq_some] at hrun
  obtain ⟨_, p₀, hp₀, result, p₁, hbuild, hrun⟩ := hrun
  cases result with
  | error e =>
    obtain ⟨rfl, -⟩ := Act.pure_eq_some.mp hrun
    cases hanswers
  | ok result =>
    obtain ⟨i, built⟩ := result
    simp only [Act.bind_eq_some, Act.get_eq_some, Act.modify_eq_some, Act.pure_eq_some] at hrun
    obtain ⟨_, _, rfl, _, p, hp, _, _, ⟨rfl, rfl⟩, report, q, hrefresh, _, _, ⟨rfl, rfl⟩, rfl, rfl⟩ := hrun
    simp only [Prod.mk.injEq] at hanswers
    obtain ⟨hexecuted, hfailed, hbefore, hafter⟩ := hanswers
    have hmarked := sampleShelvesPage.undisturbed_modifyComponent 0 (·.set "mark" (.text "t"))
    rw [hp₀] at hmarked
    have hosted₀ := sampleShelvesPage_hosted.undisturbed hmarked
    have hosted₁ : p₁.Hosted [i] := hosted₀.build sampleMarkedShelfTemplate_compiled
      ((sampleShelvesPage_outer (by decide)).steady hmarked.steady) hbuild
    obtain ⟨-, htemplate, -⟩ := Template.instantiate_underway hosted₀.sound.1.wellNested
      (p₀.tended_false ▸ sampleMarkedShelfTemplate_compiled.tends) hbuild
    have hchanged := (p₁.undisturbed_modifyComponent 0 (·.set "name" (.text "b"))).trans
      (Page.undisturbed_modifyComponent _ 0 (·.set "mark" (.bool true)))
    rw [hp] at hchanged
    have hosted := hosted₁.undisturbed hchanged
    have hencloses : p.Encloses .everywhere := hosted.sound.1.wellNested.encloses_everywhere
    have hcompiled : i.template.Compiled := htemplate ▸ sampleMarkedShelfTemplate_compiled
    obtain ⟨_, _, attempts, hrefresh', hisolates, hkept⟩ := refresh_isolates_failures.2 p [i] hosted i
      List.mem_cons_self (Names.ofList ["mark", "name"])
    cases hrefresh.symm.trans hrefresh'
    refine ⟨p, i, report, q, attempts, hosted, hencloses, hcompiled, hrefresh, hisolates, hkept,
      hisolates.executed ▸ hexecuted, ?_, hbefore, hafter⟩
    rw [← hisolates.diagnostics, ← hisolates.failed, hfailed]

end LiveMarkup
