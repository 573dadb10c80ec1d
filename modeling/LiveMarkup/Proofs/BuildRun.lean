import LiveMarkup.Proofs.Layout
import LiveMarkup.Proofs.PageState
import LiveMarkup.Proofs.Slots

namespace LiveMarkup

variable {i i' : Instance} {p p₁ : Page} {k : Nat} {points points' : Dict NodeId} {nodes nodes' : List Node}
  {host : Host} {a b : List Op} {op : Op} {fault : Option Fault}

/-- What a sink adds to the warnings of a page. -/
def Sink.announce (sink : Sink) (found : List Diagnostic) : List String :=
  found.flatMap sink.log

@[simp] theorem Sink.announce_nil (sink : Sink) : sink.announce [] = [] :=
  rfl

namespace Instance

theorem runBuild_append {root : Option NodeId} {i'' : Instance} {p' p'' : Page} {r r' : Report}
    (ha : i.runBuild host root a p = some ((i', r), p')) (hb : i'.runBuild host root b p' = some ((i'', r'), p'')) :
    ∃ r'', i.runBuild host root (a ++ b) p = some ((i'', r''), p'') ∧
      r''.diagnostics = r.diagnostics ++ r'.diagnostics := by
  induction a generalizing i p r with
  | nil =>
    obtain ⟨heq, rfl⟩ := Act.pure_eq_some.mp ha
    cases heq
    exact ⟨r', hb, rfl⟩
  | cons op rest ih =>
    obtain ⟨step, p₁, others, hstep, hrest, rfl⟩ := runBuild_cons.mp ha
    obtain ⟨r'', hrun, hdiagnostics⟩ := ih hrest
    refine ⟨_, runBuild_cons.mpr ⟨step, p₁, r'', hstep, hrun, rfl⟩, ?_⟩
    simp only [Report.append, hdiagnostics, List.append_assoc]

/-- The instructions run to their end, find the faults given, and announce them. -/
def Runs (host : Host) (i : Instance) (p : Page) (ops : List Op) (found : List Diagnostic) (i' : Instance)
    (p' : Page) : Prop :=
  ∃ report, i.runBuild host none ops p = some ((i', report), p') ∧ report.diagnostics = found ∧
    p'.warnings = p.warnings ++ i.sink.announce found

theorem Runs.append {found others : List Diagnostic} {i'' : Instance} {p' p'' : Page} (hsink : i'.sink = i.sink)
    (ha : i.Runs host p a found i' p') (hb : i'.Runs host p' b others i'' p'') :
    i.Runs host p (a ++ b) (found ++ others) i'' p'' := by
  obtain ⟨r, hrun, rfl, hwarnings⟩ := ha
  obtain ⟨r', hrun', rfl, hwarnings'⟩ := hb
  obtain ⟨r'', hboth, hdiagnostics⟩ := runBuild_append hrun hrun'
  refine ⟨r'', hboth, hdiagnostics, ?_⟩
  simp only [hwarnings', hwarnings, hsink, Sink.announce, List.flatMap_append, List.append_assoc]

theorem Runs.single {edit : Option Edit} (hsink : i'.sink = i.sink) (hwarnings : p₁.warnings = p.warnings)
    (hexec : i.execBuild host none op p = some (⟨i', fault, edit⟩, p₁)) :
    ∃ p', i.Runs host p [op] (fault.toList.map (i'.diagnostic .build op)) i' p' ∧
      p'.document = p₁.document ∧ p₁.SameState p' ∧ p'.components = p₁.components := by
  have hrun : i.runBuild host none [op] p = some ((i', (stepReport .build op ⟨i', fault, edit⟩).append .empty),
      stepWarned .build op ⟨i', fault, edit⟩ p₁) :=
    runBuild_cons.mpr ⟨_, p₁, .empty, hexec, Act.pure_eq_some.mpr ⟨rfl, rfl⟩, rfl⟩
  refine ⟨_, ⟨_, hrun, ?_, ?_⟩, document_stepWarned .., sameState_stepWarned .., components_stepWarned ..⟩
  · cases fault <;> rfl
  · cases fault with
    | none => simpa [stepWarned] using hwarnings
    | some f => simp [stepWarned, Page.tell, Sink.announce, hsink, hwarnings]

end Instance

/-- Where a template is built: a plain page, a component that is free, and a host that serves the page. What the
component exposes before each slot is built starts out from what it exposed already. -/
structure Site where
  host : Host
  start : Page
  template : Template
  owner : ComponentId
  sink : Sink
  points : Nat → Dict NodeId
  serves : host.ServesPlain
  plain : start.Plain
  free : start.access owner = .free
  exposed : points 0 = start.points owner

namespace Site

variable (site : Site)

/-- How many nodes there were before. -/
def off : Nat :=
  site.start.document.nodes.toList.length

/-- The value of a spec in the course of the building, when the component exposes the nodes given. -/
def valueWith (points : Dict NodeId) (spec : ValueSpec) : Except Fault Value :=
  (site.start.exposing site.owner points).eval site.owner spec.value.formula

/-- The value of a spec at a slot. The node of the slot is exposed before. -/
def value (s : Slot) (spec : ValueSpec) : Except Fault Value :=
  site.valueWith (site.points (s + 1)) spec

def diagnostic (op : Op) (fault : Fault) : Diagnostic :=
  ⟨site.template.name, site.template.slotName op.slot, op.name, .build, fault⟩

/-- The diagnostic of an instruction whose value fails. -/
def failed (op : Op) : Except Fault Value → List Diagnostic
  | .ok _ => []
  | .error f => [site.diagnostic op f]

/-- In the middle of the building: the slots below `k` have their nodes, which are the last ones. -/
structure At (k : Nat) (points : Dict NodeId) (nodes : List Node) (i : Instance) (p : Page) : Prop where
  template : i.template = site.template
  owner : i.component = site.owner
  sink : i.sink = site.sink
  room : i.slots.length = site.template.slotNames.length
  bound : ∀ s < k, i.node s = .ok (site.off + s)
  state : site.start.SameState p
  component : p.component site.owner = (site.start.exposing site.owner points).component site.owner
  laid : p.document.nodes.toList = nodes
  size : nodes.length = site.off + k

/-- What instructions do wherever they are reached with the slots below `k` built. -/
def Takes (ops : List Op) (k : Nat) (points : Dict NodeId) (nodes : List Node) (found : List Diagnostic) (k' : Nat)
    (points' : Dict NodeId) (nodes' : List Node) : Prop :=
  ∀ i p, site.At k points nodes i p →
    ∃ i' p', i.Runs site.host p ops found i' p' ∧ site.At k' points' nodes' i' p'

variable {site}

theorem takes_nil (k : Nat) (points : Dict NodeId) (nodes : List Node) :
    site.Takes [] k points nodes [] k points nodes := by
  intro i p h
  exact ⟨i, p, ⟨.empty, Act.pure_eq_some.mpr ⟨rfl, rfl⟩, rfl, by simp⟩, h⟩

theorem Takes.append {k' k'' : Nat} {points'' : Dict NodeId} {nodes'' : List Node} {found others : List Diagnostic}
    (ha : site.Takes a k points nodes found k' points' nodes')
    (hb : site.Takes b k' points' nodes' others k'' points'' nodes'') :
    site.Takes (a ++ b) k points nodes (found ++ others) k'' points'' nodes'' := by
  intro i p h
  obtain ⟨i', p', hrun, h'⟩ := ha i p h
  obtain ⟨i'', p'', hrun', h''⟩ := hb i' p' h'
  exact ⟨i'', p'', hrun.append (h'.sink.trans h.sink.symm) hrun', h''⟩

namespace At

theorem eval (h : site.At k points nodes i p) (spec : ValueSpec) :
    p.eval i.component spec.value.formula = site.valueWith points spec := by
  rw [h.owner]
  exact Page.eval_congr ((h.state.access _).trans (Page.access_modifyComponent ..).symm) h.component _

theorem documentSize (h : site.At k points nodes i p) : p.document.size = site.off + k := by
  rw [← h.size, ← h.laid]
  rfl

/-- Running an instruction that binds no slot. -/
theorem use {edit : Option Edit} (h : site.At k points nodes i p)
    (hexec : i.execBuild site.host none op p = some (⟨i, fault, edit⟩, p₁)) (hstate : p.SameState p₁)
    (hcomponent : p₁.component site.owner = (site.start.exposing site.owner points').component site.owner)
    (hwarnings : p₁.warnings = p.warnings) (hnodes : p₁.document.nodes.toList = nodes')
    (hlength : nodes'.length = nodes.length) :
    ∃ i' p', i.Runs site.host p [op] (fault.toList.map (site.diagnostic op)) i' p' ∧
      site.At k points' nodes' i' p' := by
  obtain ⟨p', hrun, hdocument, hsame, hcomponents⟩ := Instance.Runs.single rfl hwarnings hexec
  have hdiagnostic : i.diagnostic .build op = site.diagnostic op := by
    funext f
    rw [Instance.diagnostic, h.template, diagnostic]
  rw [hdiagnostic] at hrun
  exact ⟨i, p', hrun, { h with
    state := (h.state.trans hstate).trans hsame
    component := by rw [Page.component, Page.cell, hcomponents]; exact hcomponent
    laid := by rw [hdocument, hnodes]
    size := hlength.trans h.size }⟩

/-- Running an instruction that binds no slot and changes no component. -/
theorem edit {edit : Option Edit} (h : site.At k points nodes i p)
    (hexec : i.execBuild site.host none op p = some (⟨i, fault, edit⟩, p₁))
    (hp₁ : p₁ = { p with document := p₁.document }) (hnodes : p₁.document.nodes.toList = nodes')
    (hlength : nodes'.length = nodes.length) :
    ∃ i' p', i.Runs site.host p [op] (fault.toList.map (site.diagnostic op)) i' p' ∧
      site.At k points nodes' i' p' := by
  refine h.use hexec ?_ ?_ ?_ hnodes hlength
  · rw [hp₁]
    exact .document p _
  · rw [hp₁]
    exact h.component
  · rw [hp₁]

/-- Running an instruction that gives the next slot a new node. -/
theorem bind {op : Op} {fault : Option Fault} {edit : Option Edit} {kind : NodeKind}
    (h : site.At k points nodes i p) (hk : k < site.template.slotNames.length)
    (hexec : i.execBuild site.host none op p =
      some (⟨i.bind k (some p.document.size), fault, edit⟩, { p with document := p.document.push kind })) :
    ∃ i' p', i.Runs site.host p [op] (fault.toList.map (site.diagnostic op)) i' p' ∧
      site.At (k + 1) points (nodes ++ [⟨kind, none, []⟩]) i' p' := by
  obtain ⟨p', hrun, hdocument, hsame, hcomponents⟩ := Instance.Runs.single (by rfl) (by rfl) hexec
  have hdiagnostic : (i.bind k (some p.document.size)).diagnostic .build op = site.diagnostic op := by
    funext f
    rw [Instance.diagnostic, diagnostic, ← h.template]
    rfl
  rw [hdiagnostic] at hrun
  refine ⟨_, p', hrun, ⟨h.template, h.owner, h.sink, ?_, ?_, ?_, ?_, ?_, ?_⟩⟩
  · rw [Instance.length_slots_bind, h.room]
  · intro s hs
    rw [Instance.node_eq_ok, h.documentSize]
    by_cases heq : s = k
    · subst heq
      exact Instance.node?_bind_self (h.room ▸ hk) _
    · rw [Instance.node?_bind_of_ne heq, ← Instance.node_eq_ok]
      exact h.bound s (by omega)
  · exact h.state.trans (.trans (.document p _) hsame)
  · rw [Page.component, Page.cell, hcomponents]
    exact h.component
  · rw [hdocument, Document.toList_push, h.laid]
  · rw [List.length_append, h.size]
    rfl

end At

end Site

end LiveMarkup
