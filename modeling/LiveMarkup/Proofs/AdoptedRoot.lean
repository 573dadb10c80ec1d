import LiveMarkup.Proofs.BuildRenders
import LiveMarkup.Proofs.FirstFlaw
import LiveMarkup.Proofs.Grafts
import LiveMarkup.Proofs.Moves

namespace LiveMarkup

variable {t : Template} {p q : Page} {extra : Nat} {i : Instance} {host : Host} {s : Slot} {n : NodeId}
  {options : CompileOptions} {r : Report} {root : Option NodeId} {op : Op} {declared : Declarations}
  {maps maps' : PropertyMaps}

/-- The same instance under another template. -/
def Instance.under (i : Instance) (t : Template) : Instance :=
  { i with template := t }

/-- Two templates call themselves and their slots alike. -/
structure Template.NamedAlike (t t' : Template) : Prop where
  name : t'.name = t.name
  slotNames : t'.slotNames = t.slotNames

/-- A report of so many steps more than another, which found the same. -/
structure Report.Exceeds (extra : Nat) (r r' : Report) : Prop where
  executed : r.executed = r'.executed + extra
  failed : r.failed = r'.failed
  diagnostics : r.diagnostics = r'.diagnostics

namespace Report.Exceeds

variable {r' : Report}

theorem refl (r : Report) : r.Exceeds 0 r :=
  ⟨rfl, rfl, rfl⟩

theorem append (h : r.Exceeds extra r') (first : Report) : (first.append r).Exceeds extra (first.append r') where
  executed := by rw [Report.append, h.executed, Report.append, Nat.add_assoc]
  failed := by rw [Report.append, h.failed, Report.append]
  diagnostics := by rw [Report.append, h.diagnostics, Report.append]

theorem more (h : r.Exceeds extra r') (edits : List Edit) :
    (Report.append ⟨1, 0, [], edits⟩ r).Exceeds (extra + 1) r' where
  executed := by
    simp only [Report.append, h.executed]
    omega
  failed := by simp only [Report.append, h.failed, Nat.zero_add]
  diagnostics := by simp only [Report.append, h.diagnostics, List.nil_append]

end Report.Exceeds

namespace Instance

variable {i' : Instance} {root' : Option NodeId} {step : Step}

/-- An instruction that runs no templates leaves a page without custom elements so. -/
theorem execLocal_plain (hp : p.Plain) (i : Instance) (op : Op) : (i.execLocal op p).2.Plain := by
  have hset : ∀ n path v, (p.setProperty n path v).Plain := fun n path v => by
    rw [Page.setProperty_of_not_custom (hp.isCustom n)]
    exact ⟨hp.undefined, hp.lifeless⟩
  obtain ⟨run, hrun, heq⟩ := i.execLocal_runs op p
  rw [heq]
  cases hrun with
  | attach name hn => exact (Page.SameState.attach p i.component name _).plain hp
  | property path hn hv => exact hset _ path _
  | callback name hn hv => exact hset _ _ _
  | child ha hb =>
    simp only [Page.append]
    split <;> exact ⟨hp.undefined, hp.lifeless⟩
  | _ => exact ⟨hp.undefined, hp.lifeless⟩

/-- On a page without custom elements every instruction runs, and leaves it so. -/
theorem exec_plain (hhost : host.ServesPlain) (hp : p.Plain) (i : Instance) (op : Op) :
    ∃ step q, i.exec host op p = some (step, q) ∧ q.Plain := by
  cases hneeds : op.needsHost with
  | false => exact ⟨_, _, (exec_local hneeds).mpr rfl, execLocal_plain hp i op⟩
  | true =>
    cases op with
    | createElement s tag ns =>
      exact ⟨_, _, (Ran.created (hhost.create tag ns p hp)).exec, hp.undefined, hp.lifeless⟩
    | flushNested s =>
      cases hn : i.node s with
      | error f => exact ⟨_, p, (Ran.unbuilt hn).exec, hp⟩
      | ok n => exact ⟨_, p, (Ran.flushed (node_eq_ok.mp hn) (hhost.flush n p hp)).exec, hp⟩
    | _ => simp [Op.needsHost] at hneeds

/-- What an instruction does, told of an instance under another template. -/
def stepUnder (t : Template) (step : Step) : Step :=
  ⟨step.inst.under t, step.fault, step.edit⟩

theorem slotName_under (ht : i.template.NamedAlike t) (s : Slot) : t.slotName s = i.template.slotName s := by
  rw [Template.slotName, ht.slotNames, Template.slotName]

theorem node_under (ht : i.template.NamedAlike t) (s : Slot) : (i.under t).node s = i.node s := by
  have hslot : (i.under t).template.slotName s = i.template.slotName s := slotName_under ht s
  have hsame : (i.under t).node? s = i.node? s := rfl
  rw [node, node, hslot, hsame]

theorem component_under (i : Instance) (t : Template) : (i.under t).component = i.component :=
  rfl

theorem attach_under (i : Instance) (t : Template) (n : NodeId) (name : String) (p : Page) :
    (i.under t).attach n name p = (stepUnder t (i.attach n name p).1, (i.attach n name p).2) := by
  unfold attach
  by_cases hfree : p.access i.component = .free
  · have hfree' : p.access (i.under t).component = .free := hfree
    rw [if_pos hfree, if_pos hfree']
    rfl
  · have hfree' : p.access (i.under t).component ≠ .free := hfree
    rw [if_neg hfree, if_neg hfree']
    rfl

/-- Instructions look at no more of a template than its names. -/
theorem execLocal_under (ht : i.template.NamedAlike t) (op : Op) (p : Page) :
    (i.under t).execLocal op p = (stepUnder t (i.execLocal op p).1, (i.execLocal op p).2) := by
  cases op with
  | createElement s tag ns => rfl
  | flushNested s => rfl
  | createText s value => rfl
  | adoptRoot s =>
    simp only [execLocal, node_under ht]
    cases i.node s <;> rfl
  | connect s event handler =>
    simp only [execLocal, node_under ht]
    cases i.node s <;> rfl
  | attach s name =>
    simp only [execLocal, node_under ht]
    cases i.node s with
    | error f => rfl
    | ok n => exact attach_under i t n name p
  | setProperty s path value =>
    simp only [execLocal, node_under ht, component_under]
    cases i.node s with
    | error f => rfl
    | ok n => cases p.eval i.component value.formula <;> rfl
  | setText s value =>
    simp only [execLocal, node_under ht, component_under]
    cases i.node s with
    | error f => rfl
    | ok n => cases p.eval i.component value.formula <;> rfl
  | setAttribute s name value =>
    simp only [execLocal, node_under ht, component_under]
    cases i.node s with
    | error f => rfl
    | ok n =>
      cases p.eval i.component value.formula with
      | error f => rfl
      | ok v =>
        simp only [writeAttribute]
        split
        · rfl
        · rfl
        · split <;> rfl
  | appendChild parent child =>
    simp only [execLocal, node_under ht]
    cases i.node parent with
    | error f => rfl
    | ok a => cases i.node child <;> rfl

theorem exec_under (ht : i.template.NamedAlike t) (h : i.exec host op p = some (step, q)) :
    (i.under t).exec host op p = some (stepUnder t step, q) := by
  cases exec_ran h with
  | alone hneeds hlocal => rw [exec_local hneeds, execLocal_under ht, hlocal]
  | created hn => exact (Ran.created hn).exec
  | unbuilt hn => exact (Ran.unbuilt ((node_under ht _).trans hn)).exec
  | @flushed s n result _ hn hflush =>
    have hn' : (i.under t).node? s = some n := hn
    exact (Ran.flushed hn' hflush).exec

theorem diagnostic_under (ht : i.template.NamedAlike t) (phase : Phase) (op : Op) (f : Fault) :
    (i.under t).diagnostic phase op f = i.diagnostic phase op f := by
  change (⟨t.name, t.slotName op.slot, op.name, phase, f⟩ : Diagnostic) = _
  rw [ht.name, slotName_under ht, diagnostic]

theorem stepReport_under (ht : step.inst.template.NamedAlike t) (phase : Phase) (op : Op) :
    stepReport phase op (stepUnder t step) = stepReport phase op step := by
  simp only [stepReport, stepUnder, diagnostic_under ht]

theorem stepWarned_under (ht : step.inst.template.NamedAlike t) (phase : Phase) (op : Op) (p : Page) :
    stepWarned phase op (stepUnder t step) p = stepWarned phase op step p := by
  simp only [stepWarned, stepUnder, diagnostic_under ht]
  rfl

theorem exec_inst (hop : ∀ s, op ≠ .adoptRoot s) (h : i.exec host op p = some (step, q)) :
    step.inst.template = i.template ∧ ∀ s, op.bound? ≠ some s → step.inst.node? s = i.node? s := by
  have hbuild : i.execBuild host none op p = some (step, q) := by rwa [execBuild_eq_exec hop]
  cases hbound : op.bound? with
  | none =>
    rw [execBuild_inst_of_not_bound hbound hbuild]
    exact ⟨rfl, fun _ _ => rfl⟩
  | some s' =>
    obtain ⟨n, -, hinst⟩ := execBuild_inst_of_bound (Or.inr (hop s')) hbound hbuild
    rw [hinst]
    refine ⟨rfl, fun s hs => node?_bind_of_ne ?_ n⟩
    rintro rfl
    exact hs rfl

theorem stepWarned_plain (hp : p.Plain) (phase : Phase) (op : Op) (step : Step) :
    (stepWarned phase op step p).Plain :=
  (sameState_stepWarned phase op step p).plain hp

end Instance

/-- An instruction that neither binds the slot `s` nor adopts a root. -/
def Op.Apart (s : Slot) (op : Op) : Prop :=
  op.bound? ≠ some s ∧ ∀ s', op ≠ .adoptRoot s'

/-- The second list is the first without so many flushes of the slot `s`. -/
inductive LeavesOut (f : α → Op) (s : Slot) : List α → List α → Nat → Prop where
  | nil : LeavesOut f s [] [] 0
  | both {x : α} {l l' : List α} {extra : Nat} (hop : (f x).Apart s) (h : LeavesOut f s l l' extra) :
      LeavesOut f s (x :: l) (x :: l') extra
  | flush {x : α} {l l' : List α} {extra : Nat} (hop : f x = .flushNested s) (h : LeavesOut f s l l' extra) :
      LeavesOut f s (x :: l) l' (extra + 1)

namespace LeavesOut

variable {f : α → Op} {l l' : List α}

theorem same (h : ∀ x ∈ l, (f x).Apart s) : LeavesOut f s l l 0 := by
  induction l with
  | nil => exact .nil
  | cons x rest ih => exact .both (h x List.mem_cons_self) (ih fun y hy => h y (List.mem_cons_of_mem _ hy))

/-- What comes before and after what is left out is shared. -/
theorem between (h : LeavesOut f s l l' extra) {before after : List α} (hbefore : ∀ x ∈ before, (f x).Apart s)
    (hafter : ∀ x ∈ after, (f x).Apart s) :
    LeavesOut f s (before ++ (l ++ after)) (before ++ (l' ++ after)) extra := by
  induction before with
  | nil =>
    induction h with
    | nil => exact same hafter
    | both hop _ ih => exact .both hop ih
    | flush hop _ ih => exact .flush hop ih
  | cons x rest ih =>
    exact .both (hbefore x List.mem_cons_self) (ih fun y hy => hbefore y (List.mem_cons_of_mem _ hy))

end LeavesOut

namespace Instance

theorem exec_flush_plain (hhost : host.ServesPlain) (hp : p.Plain) (hn : i.node? s = some n) :
    i.exec host (.flushNested s) p = some (⟨i, none, some (.flush n (.ok 0))⟩, p) :=
  exec_flushNested.mpr (Or.inr ⟨n, .ok 0, node_eq_ok.mpr hn, hhost.flush n p hp, rfl⟩)

/-- On a page without custom elements two builds that differ in flushes of a built slot go the same way. -/
theorem runBuild_leavesOut (hhost : host.ServesPlain) {ops ops' : List Op}
    (hops : LeavesOut (fun op => op) s ops ops' extra) (ht : i.template.NamedAlike t) (hp : p.Plain)
    (hn : i.node? s = some n) (root root' : Option NodeId) :
    ∃ i' r r' q, i.runBuild host root ops p = some ((i', r), q) ∧
      (i.under t).runBuild host root' ops' p = some ((i'.under t, r'), q) ∧
      q.Plain ∧ i'.template = i.template ∧ i'.node? s = some n ∧ r.Exceeds extra r' := by
  induction hops generalizing i p with
  | nil =>
    exact ⟨i, .empty, .empty, p, Act.pure_eq_some.mpr ⟨rfl, rfl⟩, Act.pure_eq_some.mpr ⟨rfl, rfl⟩, hp, rfl, hn,
      .refl _⟩
  | @both op ops ops' extra hop _ ih =>
    obtain ⟨step, q, hexec, hq⟩ := exec_plain hhost hp i op
    obtain ⟨htemplate, hnodes⟩ := exec_inst hop.2 hexec
    have hexec' := exec_under ht hexec
    rw [← htemplate] at ht
    obtain ⟨i', r, r', q', hrun, hrun', hq', htemplate', hn', hreport⟩ :=
      ih ht (stepWarned_plain hq .build op step) ((hnodes s hop.1).trans hn)
    rw [← execBuild_eq_exec hop.2] at hexec hexec'
    refine ⟨i', _, _, q', runBuild_cons.mpr ⟨step, q, r, hexec, hrun, rfl⟩,
      runBuild_cons.mpr ⟨stepUnder t step, q, r', hexec', ?_, rfl⟩, hq', htemplate'.trans htemplate, hn', ?_⟩
    · rw [stepWarned_under ht]
      exact hrun'
    · rw [stepReport_under ht]
      exact hreport.append _
  | @flush op ops ops' extra hop _ ih =>
    subst hop
    have hexec := exec_flush_plain hhost hp hn
    obtain ⟨i', r, r', q, hrun, hrun', hq, htemplate, hn', hreport⟩ := ih ht hp hn
    exact ⟨i', _, r', q, runBuild_cons.mpr ⟨_, p, r, hexec, hrun, rfl⟩, hrun', hq, htemplate, hn', hreport.more _⟩

/-- So do two refreshes. -/
theorem runSteps_leavesOut (hhost : host.ServesPlain) {steps steps' : List RefreshStep}
    (hsteps : LeavesOut RefreshStep.op s steps steps' extra) (ht : i.template.NamedAlike t) (hp : p.Plain)
    (hn : i.node? s = some n) :
    ∃ r r' q, i.runSteps host steps p = some (r, q) ∧ (i.under t).runSteps host steps' p = some (r', q) ∧
      q.Plain ∧ r.Exceeds extra r' := by
  induction hsteps generalizing p with
  | nil =>
    exact ⟨.empty, .empty, p, Act.pure_eq_some.mpr ⟨rfl, rfl⟩, Act.pure_eq_some.mpr ⟨rfl, rfl⟩, hp, .refl _⟩
  | @both x steps steps' extra hop _ ih =>
    obtain ⟨step, q, hexec, hq⟩ := exec_plain hhost hp i x.op
    have ht' : step.inst.template.NamedAlike t := (exec_inst hop.2 hexec).1.symm ▸ ht
    obtain ⟨r, r', q', hrun, hrun', hq', hreport⟩ := ih (stepWarned_plain hq .refresh x.op step)
    refine ⟨_, _, q', runSteps_cons.mpr ⟨step, q, r, hexec, hrun, rfl⟩,
      runSteps_cons.mpr ⟨stepUnder t step, q, r', exec_under ht hexec, ?_, rfl⟩, hq', ?_⟩
    · rw [stepWarned_under ht']
      exact hrun'
    · rw [stepReport_under ht']
      exact hreport.append _
  | @flush x steps steps' extra hop _ ih =>
    have hexec : i.exec host x.op p = _ := hop ▸ exec_flush_plain hhost hp hn
    obtain ⟨r, r', q, hrun, hrun', hq, hreport⟩ := ih hp
    exact ⟨_, r', q, runSteps_cons.mpr ⟨_, p, r, hexec, hrun, rfl⟩, hrun', hq, hreport.more _⟩

end Instance

theorem NodeHead.plan_of_nested {options' : CompileOptions} (h : options'.nested = options.nested)
    (declared : Declarations) (slot : Slot) (created : Bool) (inherited : Namespace) (head : NodeHead) :
    head.plan declared options' slot created inherited = head.plan declared options slot created inherited := by
  rw [plan, plan, h]

mutual

/-- Whether the root is created makes no difference below it. -/
theorem TemplateNode.plan_of_nested {options options' : CompileOptions} (h : options'.nested = options.nested)
    (declared : Declarations) (inherited : Namespace) (slot : Slot) : ∀ node : TemplateNode,
    node.plan declared options' inherited slot = node.plan declared options inherited slot
  | .text _ => rfl
  | .node head children => by
    rw [plan, plan, NodeHead.plan_of_nested h, planAll_of_nested h]

theorem TemplateNode.planAll_of_nested {options options' : CompileOptions} (h : options'.nested = options.nested)
    (declared : Declarations) (inherited : Namespace) (slot : Slot) : ∀ nodes : List TemplateNode,
    TemplateNode.planAll declared options' inherited slot nodes =
      TemplateNode.planAll declared options inherited slot nodes
  | [] => rfl
  | child :: rest => by
    rw [planAll, planAll, plan_of_nested h, planAll_of_nested h]

end

/-- How a template is compiled that creates its root, or adopts it. -/
def CompileOptions.rooted (options : CompileOptions) (create : Bool) : CompileOptions :=
  { options with createRoot := create }

theorem flawIn?_rooted (options : CompileOptions) (create : Bool) (before visits : List Visit) :
    flawIn? (options.rooted create) before visits = flawIn? options before visits := by
  induction visits generalizing before with
  | nil => rfl
  | cons v rest ih =>
    rw [flawIn?, flawIn?, ih]
    rfl

/-- The template of a node that has been compiled with or without its root. -/
def TemplateNode.rootedTemplate (declared : Declarations) (options : CompileOptions) (create : Bool)
    (node : TemplateNode) : Template :=
  .ofPlan (options.rooted create) node.size (node.rootPlan declared (options.rooted create))

/-- What is compiled with one kind of root is compiled with the other. -/
theorem compileWith_rooted {node : TemplateNode} (h : compileWith declared maps options node = (.ok t, maps'))
    (create : Bool) (maps₂ : PropertyMaps) :
    (compileWith declared maps₂ (options.rooted create) node).1 =
      .ok (node.rootedTemplate declared options create) := by
  obtain ⟨head, children, rfl, -⟩ := compileWith_ok h
  have hsound := compileWith_eq_ok_iff.mp ⟨t, congrArg Prod.fst h⟩
  refine compileWith_eq_ok ?_
  rw [flawIn?_rooted]
  exact hsound

/-- The instructions with and without the creation of the root are the same but for a flush of it. -/
theorem TemplateNode.rootedTemplate_build (declared : Declarations) (options : CompileOptions) (head : NodeHead)
    (children : List TemplateNode) :
    ∃ before after, ∀ create, ((TemplateNode.node head children).rootedTemplate declared options create).build =
      (if create then .createElement 0 head.tag (head.namespaceIn .html) else .adoptRoot 0) ::
        (before ++ ((if create && options.nested.holds head.tag then [.flushNested 0] else []) ++ after)) := by
  let h := head.plan declared options 0 true .html
  refine ⟨h.attachPoints.map (Op.attach 0) ++ h.attributes.map (fun a => a.1.op 0 a.2.value),
    h.events.map (fun e => .connect 0 e.1 e.2) ++ Plan.buildChildren 0
      (planAll declared options (head.namespaceIn .html) 1 children), fun create => ?_⟩
  have hbelow := planAll_of_nested (show (options.rooted create).nested = options.nested from rfl) declared
    (head.namespaceIn .html) 1 children
  change PlanHead.build _ ++ Plan.buildChildren 0 (planAll declared (options.rooted create) _ 1 children) = _
  rw [hbelow]
  simp only [PlanHead.build, List.cons_append, List.append_assoc]
  rfl

/-- So are the steps that keep them current. -/
theorem TemplateNode.rootedTemplate_refresh (declared : Declarations) (options : CompileOptions) (head : NodeHead)
    (children : List TemplateNode) :
    ∃ before after, ∀ create, ((TemplateNode.node head children).rootedTemplate declared options create).refresh =
      before ++ ((if create && options.nested.holds head.tag then [.unconditional (.flushNested 0)] else []) ++
        after) := by
  let h := head.plan declared options 0 true .html
  refine ⟨h.attributes.filterMap (fun a => RefreshStep.gated? a.2.deps (a.1.op 0 a.2.value)),
    Plan.refreshChildren (planAll declared options (head.namespaceIn .html) 1 children), fun create => ?_⟩
  have hbelow := planAll_of_nested (show (options.rooted create).nested = options.nested from rfl) declared
    (head.namespaceIn .html) 1 children
  change PlanHead.refresh _ ++ Plan.refreshChildren (planAll declared (options.rooted create) _ 1 children) = _
  rw [hbelow]
  simp only [PlanHead.refresh, List.append_assoc]
  rfl

/-- How many flushes of its root a template has that one does not have which adopts it. -/
def CompileOptions.rootFlushes (options : CompileOptions) (tag : String) : Nat :=
  if options.nested.holds tag then 1 else 0

theorem LeavesOut.flushes {f : α → Op} {x : α} (hx : f x = .flushNested s) (options : CompileOptions) (tag : String) :
    LeavesOut f s (if options.nested.holds tag then [x] else []) [] (options.rootFlushes tag) := by
  rw [CompileOptions.rootFlushes]
  split
  · exact .flush hx .nil
  · exact .nil

theorem Template.Compiled.build_apart (ht : t.Compiled) {first : Op} {rest : List Op}
    (hbuild : t.build = first :: rest) (hfirst : first.bound? = some 0) : ∀ op ∈ rest, op.Apart 0 := by
  have hseq := ht.sequence
  rw [hbuild] at hseq
  have hrest : Op.Sequence 1 rest t.slotNames.length := by
    cases hseq with
    | bind _ hrest => exact hrest
    | use hnone _ _ =>
      rw [hfirst] at hnone
      cases hnone
  intro op hop
  have hbound : op.bound? ≠ some 0 := hrest.not_bound_below op hop 0 Nat.zero_lt_one
  refine ⟨hbound, ?_⟩
  rintro s rfl
  have hmem : .adoptRoot s ∈ t.build := hbuild ▸ List.mem_cons_of_mem _ hop
  obtain rfl := ht.adopts_first hmem
  exact hbound rfl

theorem Op.InPlace.apart (h : op.InPlace) (s : Slot) : op.Apart s := by
  cases op with
  | createElement s tag ns => exact h.elim
  | adoptRoot s => exact h.elim
  | createText s value => exact h.elim
  | _ => exact ⟨nofun, nofun⟩

/-- What can happen to an instance: its component and others change, or it is refreshed. -/
inductive Turn where
  | change (cells : Array Cell)
  | refresh (changed : Names)

/-- Takes turns, and gives the reports of the refreshes. -/
def Instance.takeTurns (i : Instance) : List Turn → Act (List Report)
  | [] => return []
  | .change cells :: rest => do
    modify ({ · with components := cells })
    i.takeTurns rest
  | .refresh changed :: rest => do
    let report ← withHost fun host => i.refresh host changed
    let reports ← i.takeTurns rest
    return report :: reports

section Rooted

variable {head : NodeHead} {children : List TemplateNode}

theorem rootedTemplate_compiled (h : compileWith declared maps options (.node head children) = (.ok t, maps'))
    (create : Bool) : ((TemplateNode.node head children).rootedTemplate declared options create).Compiled :=
  ⟨declared, maps, options.rooted create, .node head children, _, Prod.ext (compileWith_rooted h create maps) rfl⟩

theorem rootedTemplate_namedAlike (declared : Declarations) (options : CompileOptions) (node : TemplateNode)
    (create create' : Bool) :
    (node.rootedTemplate declared options create).NamedAlike (node.rootedTemplate declared options create') :=
  ⟨rfl, rfl⟩

/-- The steps that a change triggers are the same but for the flush of a created root. -/
theorem triggered_leavesOut (h : compileWith declared maps options (.node head children) = (.ok t, maps'))
    (changed : Names) :
    LeavesOut RefreshStep.op 0
      (((TemplateNode.node head children).rootedTemplate declared options true).refresh.filter
        fun s => s.triggeredBy changed)
      (((TemplateNode.node head children).rootedTemplate declared options false).refresh.filter
        fun s => s.triggeredBy changed) (options.rootFlushes head.tag) := by
  obtain ⟨before, after, hrefresh⟩ := TemplateNode.rootedTemplate_refresh declared options head children
  have hapart : ∀ step, step ∈ before ∨ step ∈ after → step.op.Apart 0 := by
    intro step hstep
    refine Op.InPlace.apart ((rootedTemplate_compiled h false).inPlace ?_) 0
    rw [hrefresh false]
    simpa using hstep
  have hflush : ∀ create : Bool, (if create && options.nested.holds head.tag
      then [RefreshStep.unconditional (.flushNested 0)] else []).filter (fun s => s.triggeredBy changed) =
      if create && options.nested.holds head.tag then [RefreshStep.unconditional (.flushNested 0)] else [] := by
    intro create
    split <;> rfl
  rw [hrefresh true, hrefresh false]
  simp only [List.filter_append, hflush]
  have hroot : LeavesOut RefreshStep.op 0 (if options.nested.holds head.tag
      then [RefreshStep.unconditional (.flushNested 0)] else []) [] (options.rootFlushes head.tag) :=
    .flushes (by rfl) options head.tag
  refine hroot.between (fun step hstep => ?_) fun step hstep => ?_
  · exact hapart step (Or.inl (List.mem_of_mem_filter hstep))
  · exact hapart step (Or.inr (List.mem_of_mem_filter hstep))

/-- An instance that created its root and one that adopted it take turns alike. -/
theorem takeTurns_under (h : compileWith declared maps options (.node head children) = (.ok t, maps'))
    (hi : i.template = (TemplateNode.node head children).rootedTemplate declared options true)
    (hp : p.Plain) (hn : i.node? 0 = some n) (turns : List Turn) :
    ∃ rs rs' q, i.takeTurns turns p = some (rs, q) ∧
      (i.under ((TemplateNode.node head children).rootedTemplate declared options false)).takeTurns turns p =
        some (rs', q) ∧ List.Forall₂ (Report.Exceeds (options.rootFlushes head.tag)) rs rs' := by
  induction turns generalizing p with
  | nil => exact ⟨[], [], p, Act.pure_eq_some.mpr ⟨rfl, rfl⟩, Act.pure_eq_some.mpr ⟨rfl, rfl⟩, .nil⟩
  | cons turn rest ih =>
    cases turn with
    | change cells =>
      have hchanged : { p with components := cells }.Plain := ⟨hp.undefined, hp.lifeless⟩
      obtain ⟨rs, rs', q, hrun, hrun', hreports⟩ := ih hchanged
      refine ⟨rs, rs', q, ?_, ?_, hreports⟩
      · exact Act.bind_eq_some.mpr ⟨(), _, Act.modify_eq_some.mpr rfl, hrun⟩
      · exact Act.bind_eq_some.mpr ⟨(), _, Act.modify_eq_some.mpr rfl, hrun'⟩
    | refresh changed =>
      have halike := rootedTemplate_namedAlike declared options (.node head children) true false
      obtain ⟨r, r', p₁, hfirst, hfirst', hp₁, hreport⟩ :=
        Instance.runSteps_leavesOut (hostTo_servesPlain p.registry.size) (triggered_leavesOut h changed)
          (hi.symm ▸ halike) hp hn
      obtain ⟨rs, rs', q, hrun, hrun', hreports⟩ := ih hp₁
      have hrefresh : withHost (fun host => i.refresh host changed) p = some (r, p₁) := by
        rw [withHost_eq_some, Instance.refresh, hi]
        exact hfirst
      refine ⟨r :: rs, r' :: rs', q, ?_, ?_, .cons hreport hreports⟩
      · exact Act.bind_eq_some.mpr ⟨r, p₁, hrefresh, Act.bind_eq_some.mpr ⟨rs, q, hrun, rfl⟩⟩
      · exact Act.bind_eq_some.mpr ⟨r', p₁, withHost_eq_some.mpr hfirst',
          Act.bind_eq_some.mpr ⟨rs', q, hrun', rfl⟩⟩

end Rooted

/-- The page with a new element on it. -/
def Page.withElement (p : Page) (tag : String) (ns : Namespace) : Page :=
  { p with document := p.document.push (.element (.ofTag tag ns)) }

theorem Page.Plain.withElement (hp : p.Plain) (tag : String) (ns : Namespace) : (p.withElement tag ns).Plain :=
  ⟨hp.undefined, hp.lifeless⟩

theorem Page.has_withElement (p : Page) (tag : String) (ns : Namespace) :
    (p.withElement tag ns).document.has p.document.size = true := by
  have hlt : p.document.size < (p.withElement tag ns).document.size := by
    rw [withElement, Document.size_push]
    exact Nat.lt_succ_self _
  exact decide_eq_true hlt

namespace Template

variable {tc ta : Template} {tag : String} {ns : Namespace} {restc resta : List Op} {c : ComponentId}

/-- A build that creates its root and one that adopts such a root go the same way on. -/
theorem runBuild_rooted (halike : tc.NamedAlike ta) (hcreate : tc.build = .createElement 0 tag ns :: restc)
    (hadopt : ta.build = .adoptRoot 0 :: resta) (hrest : LeavesOut (fun op => op) 0 restc resta extra)
    (hslots : 0 < tc.slotNames.length) (hhost : host.ServesPlain) (hp : p.Plain) (c : ComponentId) (sink : Sink) :
    ∃ i r r' q, (tc.unbuilt c sink).runBuild host none tc.build p = some ((i, r), q) ∧
      (ta.unbuilt c sink).runBuild host (some p.document.size) ta.build (p.withElement tag ns) =
        some ((i.under ta, r'), q) ∧
      q.Plain ∧ i.template = tc ∧ i.node? 0 = some p.document.size ∧ r.Exceeds extra r' := by
  let i₀ := (tc.unbuilt c sink).bind 0 (some p.document.size)
  have hn : i₀.node? 0 = some p.document.size := by
    have hroom : 0 < (tc.unbuilt c sink).slots.length := by rwa [unbuilt, List.length_replicate]
    exact Instance.node?_bind_self hroom _
  obtain ⟨i, r, r', q, hrun, hrun', hq, htemplate, hn', hreport⟩ :=
    Instance.runBuild_leavesOut hhost hrest halike (hp.withElement tag ns) hn none (some p.document.size)
  have hunder : i₀.under ta = (ta.unbuilt c sink).bind 0 (some p.document.size) := by
    simp only [i₀, Instance.under, Instance.bind, unbuilt, halike.slotNames]
  have hfirst : (tc.unbuilt c sink).execBuild host none (.createElement 0 tag ns) p =
      some (⟨i₀, none, some (.create tag ns p.document.size)⟩, p.withElement tag ns) :=
    Instance.exec_createElement.mpr ⟨_, hhost.create tag ns p hp, rfl⟩
  have hfirst' : (ta.unbuilt c sink).execBuild host (some p.document.size) (.adoptRoot 0) (p.withElement tag ns) =
      some (⟨i₀.under ta, none, none⟩, p.withElement tag ns) :=
    Instance.execBuild_adoptRoot.mpr ⟨by rw [hunder], rfl⟩
  rw [hcreate, hadopt]
  refine ⟨i, _, _, q, Instance.runBuild_cons.mpr ⟨_, _, r, hfirst, hrun, rfl⟩,
    Instance.runBuild_cons.mpr ⟨_, _, r', hfirst', hrun', rfl⟩, hq, htemplate, hn', ?_, ?_, ?_⟩
  · simp only [Instance.stepReport, Report.append, hreport.executed]
    omega
  · simp only [Instance.stepReport, Report.append, hreport.failed]
  · simp only [Instance.stepReport, Report.append, hreport.diagnostics]

theorem obstacle?_created (hc : tc.createsRoot = true) (c : ComponentId) (p : Page) :
    tc.obstacle? c none p = if p.access c ≠ .free then some .componentBusy else none := by
  simp only [obstacle?, hc]

theorem obstacle?_adopted (ha : ta.createsRoot = false) (c : ComponentId) (p : Page) (tag : String) (ns : Namespace) :
    ta.obstacle? c (some p.document.size) (p.withElement tag ns) =
      if p.access c ≠ .free then some .componentBusy else none := by
  simp only [obstacle?, ha, p.has_withElement tag ns, Bool.not_true, Bool.false_eq_true, if_false]
  rfl

theorem buildOn_of_run {sink : Sink} (hobstacle : t.obstacle? c root p = none)
    (hrun : (t.unbuilt c sink).runBuild host root t.build p = some ((i, r), q)) (hn : i.node? 0 = some n) :
    t.buildOn host c root sink p = some (.ok ({ i with root := n }, r), q) :=
  (buildOn_eq_some hobstacle).mpr ⟨i, r, hrun, by rw [hn]⟩

end Template

/-- A template that creates its root and one that adopts a new element of the same kind agree on a page without
custom elements: both are refused while the component is in use, and otherwise they leave the same page, with
the same nodes in their slots and the same faults found, and whatever turns they take together they still do,
with reports that differ only by the flush of the created root. -/
theorem created_root_agrees_with_adopted {declared : Declarations} {maps maps' : PropertyMaps}
    {options : CompileOptions} {node : TemplateNode} {t : Template}
    (h : compileWith declared maps options node = (.ok t, maps')) {p : Page} (hp : p.Plain) (c : ComponentId)
    (sink : Sink) :
    ∃ head children tc ta n p₁, node = .node head children ∧
      (∀ maps, (compileWith declared maps { options with createRoot := true } node).1 = .ok tc) ∧
      (∀ maps, (compileWith declared maps { options with createRoot := false } node).1 = .ok ta) ∧
      createElement head.tag (head.namespaceIn .html) p = some (n, p₁) ∧
      (p.access c ≠ .free → tc.instantiate c none sink p = some (.error .componentBusy, p) ∧
        ta.instantiate c (some n) sink p₁ = some (.error .componentBusy, p₁)) ∧
      (p.access c = .free → ∃ ic ia rc ra q, tc.instantiate c none sink p = some (.ok (ic, rc), q) ∧
        ta.instantiate c (some n) sink p₁ = some (.ok (ia, ra), q) ∧
        ic.root = n ∧ ia.root = n ∧ ic.slots = ia.slots ∧ rc.diagnostics = ra.diagnostics ∧
        ∀ turns, ∃ rcs ras q', ic.takeTurns turns q = some (rcs, q') ∧ ia.takeTurns turns q = some (ras, q') ∧
          List.Forall₂ (Report.Exceeds (if options.nested.holds head.tag then 1 else 0)) rcs ras) := by
  obtain ⟨head, children, rfl, -⟩ := compileWith_ok h
  have hhost := hostTo_servesPlain p.registry.size
  refine ⟨head, children, (TemplateNode.node head children).rootedTemplate declared options true,
    (TemplateNode.node head children).rootedTemplate declared options false, p.document.size,
    p.withElement head.tag (head.namespaceIn .html), rfl, compileWith_rooted h true, compileWith_rooted h false,
    withHost_eq_some.mpr (hhost.create _ _ p hp), fun hbusy => ⟨?_, ?_⟩, fun hfree => ?_⟩
  · refine withHost_eq_some.mpr (Template.buildOn_of_obstacle ?_)
    rw [Template.obstacle?_created rfl, if_pos hbusy]
  · refine withHost_eq_some.mpr (Template.buildOn_of_obstacle ?_)
    rw [Template.obstacle?_adopted rfl, if_pos hbusy]
  · obtain ⟨before, after, hbuild⟩ := TemplateNode.rootedTemplate_build declared options head children
    have hapart := (rootedTemplate_compiled h false).build_apart (hbuild false) rfl
    have hroot : LeavesOut (fun op => op) 0 (if options.nested.holds head.tag then [.flushNested 0] else []) []
      (options.rootFlushes head.tag) := .flushes (by rfl) options head.tag
    have hrest := hroot.between (fun op hop => hapart op (List.mem_append_left _ hop))
      fun op hop => hapart op (List.mem_append_right _ (List.mem_append_right _ hop))
    have hslots : 0 < ((TemplateNode.node head children).rootedTemplate declared options true).slotNames.length := by
      rw [TemplateNode.rootedTemplate, Template.ofPlan, numberedSlots, List.length_map, List.length_range]
      exact TemplateNode.size_pos _
    obtain ⟨i, rc, ra, q, hrun, hrun', hq, htemplate, hn, hreport⟩ := Template.runBuild_rooted
      (rootedTemplate_namedAlike declared options _ true false) (hbuild true) (hbuild false) hrest hslots hhost hp c sink
    have hobstacle : ((TemplateNode.node head children).rootedTemplate declared options true).obstacle? c none p =
        none := by rw [Template.obstacle?_created rfl, if_neg (not_not_intro hfree)]
    have hobstacle' : ((TemplateNode.node head children).rootedTemplate declared options false).obstacle? c
        (some p.document.size) (p.withElement head.tag (head.namespaceIn .html)) = none := by
      rw [Template.obstacle?_adopted rfl, if_neg (not_not_intro hfree)]
    refine ⟨{ i with root := p.document.size }, { i with
        template := (TemplateNode.node head children).rootedTemplate declared options false
        root := p.document.size }, rc, ra, q,
      withHost_eq_some.mpr (Template.buildOn_of_run hobstacle hrun hn),
      withHost_eq_some.mpr (Template.buildOn_of_run hobstacle' hrun' hn), rfl, rfl, rfl,
      hreport.diagnostics, takeTurns_under h htemplate hq hn⟩

/-- A ticket, a nested component itself, with an attach point, an attribute and a text. -/
def sampleTicket : TemplateNode :=
  .node { NodeHead.ofTag "x-ticket" with attachPoints := ["box"], attributes := [("title", .property "name")] }
    [.text (.property "name")]

/-- The name changes and the ticket is refreshed. -/
def sampleTurns : List Turn :=
  [.change #[⟨(Component.named "sample").withProp "name" (.text "b"), .free, true⟩],
    .refresh (Names.ofList ["name"])]

theorem created_root_agrees_with_adopted_sampleTicket :
    (samplePage [("name", .text "a")]).Plain ∧ ∃ tc ta n p₁ ic ia rc ra q,
      (compileWith (fun _ => none) .empty {} sampleTicket).1 = .ok tc ∧
      (compileWith (fun _ => none) .empty { createRoot := false } sampleTicket).1 = .ok ta ∧
      createElement "x-ticket" .html (samplePage [("name", .text "a")]) = some (n, p₁) ∧
      tc.instantiate 0 none .warnings (samplePage [("name", .text "a")]) = some (.ok (ic, rc), q) ∧
      ta.instantiate 0 (some n) .warnings p₁ = some (.ok (ia, ra), q) ∧ rc.diagnostics = ra.diagnostics ∧
      ∃ rcs ras q', ic.takeTurns sampleTurns q = some (rcs, q') ∧ ia.takeTurns sampleTurns q = some (ras, q') ∧
        List.Forall₂ (Report.Exceeds 1) rcs ras := by
  obtain ⟨t, maps, h⟩ : ∃ t maps, compileWith (fun _ => none) .empty {} sampleTicket = (.ok t, maps) :=
    ⟨_, _, rfl⟩
  have hp := samplePage_plain [("name", .text "a")]
  obtain ⟨head, children, tc, ta, n, p₁, hnode, hc, ha, hcreate, -, hfree⟩ :=
    created_root_agrees_with_adopted h hp 0 .warnings
  cases hnode
  obtain ⟨ic, ia, rc, ra, q, hbuild, hbuild', -, -, -, hdiagnostics, hturns⟩ := hfree rfl
  exact ⟨hp, tc, ta, n, p₁, ic, ia, rc, ra, q, hc .empty, ha .empty, hcreate, hbuild, hbuild', hdiagnostics,
    hturns sampleTurns⟩

end LiveMarkup
