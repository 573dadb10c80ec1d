import LiveMarkup.Page.Write

namespace LiveMarkup

/-- The two services of a document that can run templates: to create an element, which connects a custom
one, and to flush a custom element. -/
structure Host where
  create : String → Namespace → Act NodeId
  flush : NodeId → Act (Except Fault Nat)

/-- What one instruction did. -/
structure Step where
  inst : Instance
  fault : Option Fault
  edit : Option Edit

namespace Instance

def skip (i : Instance) (f : Fault) (p : Page) : Step × Page :=
  (⟨i, some f, none⟩, p)

/-- Exposes a node on the component. -/
def attach (i : Instance) (n : NodeId) (name : String) (p : Page) : Step × Page :=
  if p.access i.component = .free then
    (⟨i, none, none⟩, p.modifyComponent i.component (·.attach name n))
  else i.skip .busy p

def writeProperty (i : Instance) (n : NodeId) (path : PropertyPath) (v : Value) (p : Page) :
    Step × Page :=
  let v := v.bound i.component
  (⟨i, none, some (.property n path v)⟩, p.setProperty n path v)

/-- A callback is stored as a property, `true` is an empty attribute, any other true value its text, and a
false value no attribute. -/
def writeAttribute (i : Instance) (n : NodeId) (name : String) (v : Value) (p : Page) : Step × Page :=
  match v with
  | .callback c => i.writeProperty n (.single name) (.callback c) p
  | .bool true => (⟨i, none, some (.attr n name "")⟩, p.setAttribute n name "")
  | v =>
    if v.truthy then (⟨i, none, some (.attr n name v.display)⟩, p.setAttribute n name v.display)
    else (⟨i, none, some (.removeAttr n name)⟩, p.removeAttribute n name)

/-- A text whose value fails is created empty. -/
def createText (i : Instance) (slot : Slot) (v : Except Fault Value) (p : Page) : Step × Page :=
  let (text, fault) := match v with
    | .ok v => (v.display, none)
    | .error f => ("", some f)
  let (n, p) := p.createText text
  (⟨i.bind slot (some n), fault, some (.text text n)⟩, p)

/-- Runs an instruction that does not run templates in turn. -/
def execLocal (i : Instance) (op : Op) (p : Page) : Step × Page :=
  match op with
  | .createElement .. => (⟨i, none, none⟩, p)
  | .flushNested .. => (⟨i, none, none⟩, p)
  | .adoptRoot slot =>
    match i.node slot with
    | .error f => i.skip f p
    | .ok _ => (⟨i, none, none⟩, p)
  | .attach slot name =>
    match i.node slot with
    | .error f => i.skip f p
    | .ok n => i.attach n name p
  | .setProperty slot path value =>
    match i.node slot with
    | .error f => i.skip f p
    | .ok n =>
      match p.eval i.component value.formula with
      | .error f => i.skip f p
      | .ok v => i.writeProperty n path v p
  | .setAttribute slot name value =>
    match i.node slot with
    | .error f => i.skip f p
    | .ok n =>
      match p.eval i.component value.formula with
      | .error f => i.skip f p
      | .ok v => i.writeAttribute n name v p
  | .connect slot event handler =>
    match i.node slot with
    | .error f => i.skip f p
    | .ok n => (⟨i, none, some (.listen n event)⟩, p.addListener n event (.component i.component handler))
  | .createText slot value => i.createText slot (p.eval i.component value.formula) p
  | .setText slot value =>
    match i.node slot with
    | .error f => i.skip f p
    | .ok n =>
      match p.eval i.component value.formula with
      | .error f => i.skip f p
      | .ok v => (⟨i, none, some (.setText n v.display)⟩, p.setText n v.display)
  | .appendChild parent child =>
    match i.node parent with
    | .error f => i.skip f p
    | .ok a =>
      match i.node child with
      | .error f => i.skip f p
      | .ok b => (⟨i, none, some (.append a b)⟩, p.append a b)

/-- Runs an instruction. -/
def exec (host : Host) (i : Instance) (op : Op) : Act Step :=
  match op with
  | .createElement slot tag ns => do
    let n ← host.create tag ns
    return ⟨i.bind slot (some n), none, some (.create tag ns n)⟩
  | .flushNested slot =>
    match i.node slot with
    | .error f => return ⟨i, some f, none⟩
    | .ok n => do
      let result ← host.flush n
      match result with
      | .error f => return ⟨i, some f, some (.flush n result)⟩
      | .ok _ => return ⟨i, none, some (.flush n result)⟩
  | op => modifyGet (i.execLocal op)

/-- Reports what an instruction did. -/
def report (phase : Phase) (op : Op) (step : Step) : Act Report := do
  match step.fault with
  | none => return ⟨1, 0, [], step.edit.toList⟩
  | some fault =>
    let d := step.inst.diagnostic phase op fault
    modify (·.tell step.inst.sink d)
    return ⟨1, 1, [d], step.edit.toList⟩

/-- Runs an instruction of a build, where the root to adopt is known. -/
def execBuild (host : Host) (root : Option NodeId) (i : Instance) (op : Op) : Act Step :=
  match op with
  | .adoptRoot slot => return ⟨i.bind slot root, none, none⟩
  | op => i.exec host op

def runBuild (host : Host) (root : Option NodeId) (i : Instance) : List Op → Act (Instance × Report)
  | [] => return (i, .empty)
  | op :: rest => do
    let step ← i.execBuild host root op
    let first ← report .build op step
    let (i, others) ← step.inst.runBuild host root rest
    return (i, first.append others)

def runSteps (host : Host) (i : Instance) : List RefreshStep → Act Report
  | [] => return .empty
  | s :: rest => do
    let step ← i.exec host s.op
    let first ← report .refresh s.op step
    let others ← i.runSteps host rest
    return first.append others

/-- Runs every step that a change triggers, in the order of the template. -/
def refresh (host : Host) (i : Instance) (changed : Names) : Act Report :=
  i.runSteps host (i.template.refresh.filter fun s => s.triggeredBy changed)

/-- How often one delivery may refresh. -/
def maxRounds : Nat := 32

/-- Takes the pending changes of the component and refreshes, until none are left or the rounds are used
up. -/
def deliverRounds (host : Host) (i : Instance) : Nat → Act Report
  | 0 => do
    modify (·.warn s!"{i.template.name}: changes still pending after {maxRounds} rounds")
    return .empty
  | rounds + 1 => do
    let p ← get
    if p.access i.component ≠ .free then
      modify (·.warn s!"{i.template.name}: component busy, delivery postponed")
      return .empty
    else
      let changed := (p.component i.component).pending
      modify (·.modifyComponent i.component (·.clearChanges))
      if changed.isEmpty then return .empty
      else
        let first ← i.refresh host changed
        let others ← i.deliverRounds host rounds
        return first.append others

def deliver (host : Host) (i : Instance) : Act Report :=
  i.deliverRounds host maxRounds

end Instance

/-- Why a template cannot be built at this root for this component, if anything. -/
def Template.obstacle? (t : Template) (c : ComponentId) (root : Option NodeId) (p : Page) :
    Option BuildError :=
  match t.createsRoot, root with
  | true, some _ => some (.unexpectedRoot t.name)
  | false, none => some (.missingRoot t.name)
  | false, some n =>
    if !p.document.has n then some (.unknownRoot n)
    else if p.access c ≠ .free then some .componentBusy
    else none
  | true, none => if p.access c ≠ .free then some .componentBusy else none

/-- An instance none of whose slots is built. -/
def Template.unbuilt (t : Template) (c : ComponentId) (sink : Sink) : Instance :=
  ⟨t, c, List.replicate t.slotNames.length none, 0, sink⟩

/-- Builds an instance for a component, on a given root when the template adopts one. -/
def Template.buildOn (host : Host) (t : Template) (c : ComponentId) (root : Option NodeId) (sink : Sink) :
    Act (Except BuildError (Instance × Report)) := do
  match t.obstacle? c root (← get) with
  | some e => return .error e
  | none =>
    let (i, report) ← (t.unbuilt c sink).runBuild host root t.build
    match i.node? 0 with
    | some n => return .ok ({ i with root := n }, report)
    | none => return .error (.missingRoot t.name)

end LiveMarkup
