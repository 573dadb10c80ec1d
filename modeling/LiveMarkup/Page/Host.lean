import LiveMarkup.Page.Build
import LiveMarkup.Page.Script

namespace LiveMarkup

namespace Widget

/-- Builds the template of a widget on a node. -/
def connect (host : Host) (w : Widget) (n : NodeId) : Act (Widget × Except Fault Report) := do
  match ← w.template.buildOn host w.component (some n) .warnings with
  | .error e => return (w, .error (.failed e.message))
  | .ok (i, report) => return ({ w with shown := some i }, .ok report)

/-- Delivers the pending changes of a widget. One that is not connected has nothing to do. -/
def flush (host : Host) (w : Widget) : Act Report := do
  match w.shown with
  | none => return .empty
  | some i => i.deliver host

end Widget

namespace Probe

def ofSpec (spec : ProbeSpec) : Probe :=
  ⟨spec, 0, Dict.empty, 0, 0⟩

/-- Makes the writes a probe is set to make while it connects. -/
def writeAll (n : NodeId) : List (PropertyPath × Operand) → Page → Page
  | [], p => p
  | (path, value) :: rest, p =>
    let (v, p) := p.valueOf value
    writeAll n rest (p.setProperty n path v)

/-- Shows the word `probe`, then makes the writes and the flush it is set to make, then fails if it is set
to fail. -/
def connect (host : Host) (probe : Probe) (n : NodeId) : Act (Probe × Except Fault Unit) := do
  let text ← modifyGet (·.createText "probe")
  modify (·.append n text)
  modify (writeAll n probe.spec.writes)
  if probe.spec.flushes then
    let result ← host.flush n
    modify (·.note (.flushedWhileConnecting n result))
  let probe := { probe with text := text }
  match probe.spec.failure with
  | some detail => return (probe, .error (.failed detail))
  | none => return (probe, .ok ())

def shownText (probe : Probe) : String :=
  String.intercalate ";" (probe.stored.entries.map fun e => s!"{e.1}={e.2.display}")

/-- Calls callbacks with the number of the flush until one fails. -/
def callAll (n : NodeId) (arg : Value) : List Callback → Act (Except Fault Unit)
  | [] => return .ok ()
  | c :: rest => do
    match ← callBound c arg with
    | .error f => return .error f
    | .ok v =>
      modify (·.note (.called n v))
      callAll n arg rest

/-- The property a probe writes when it is set to write: the first it declares, or the one without a
name. -/
def target (probe : Probe) : PropertyPath :=
  .single (probe.spec.properties.head?.getD "")

/-- Counts the flush and the writes since the last one, and then does what the probe is set to do. -/
def flush (host : Host) (probe : Probe) (n : NodeId) : Act (Except Fault Nat) := do
  let count := probe.pending
  let probe := { probe with flushCount := probe.flushCount + 1, pending := 0 }
  modify (·.setBehaviour n (.probe probe))
  match probe.spec.flush with
  | .fail => return .error (.failed "flush failed")
  | .reenter => host.flush n
  | .write =>
    modify (·.setProperty n probe.target .null)
    return .ok count
  | .call =>
    let callbacks := probe.stored.entries.filterMap fun e => e.2.asCallback?
    match ← callAll n (.number probe.flushCount.toFloat) callbacks with
    | .error f => return .error f
    | .ok () => return .ok count
  | .display =>
    modify (·.setText probe.text probe.shownText)
    return .ok count

end Probe

/-- The behaviour of a new element; a widget gets a component of its own. -/
def Page.instantiate (d : Definition) (p : Page) : Behaviour × Page :=
  match d.kind with
  | .widget t initial =>
    let (component, p) := p.make initial
    let (c, p) := p.addComponent component
    (.widget ⟨t, c, none⟩, p)
  | .probe spec => (.probe (.ofSpec spec), p)

def Behaviour.connect (host : Host) (b : Behaviour) (n : NodeId) :
    Act (Behaviour × Except Fault Unit) := do
  match b with
  | .widget w =>
    let (w, result) ← w.connect host n
    return (.widget w, result.map fun _ => ())
  | .probe x =>
    let (x, result) ← x.connect host n
    return (.probe x, result)

def Behaviour.flush (host : Host) (b : Behaviour) (n : NodeId) : Act (Except Fault Nat) :=
  match b with
  | .widget w => do
    let report ← w.flush host
    return .ok report.executed
  | .probe x => x.flush host n

/-- Connects a new custom element, which is busy meanwhile, and then applies the writes that waited for
it. -/
def connectElement (host : Host) (tag : String) (n : NodeId) (d : Definition) : Act Unit := do
  let b ← modifyGet (Page.instantiate d)
  modify fun p =>
    { p with elements := p.elements ++ [(n, ⟨b, true⟩)], connecting := p.connecting ++ [n] }
  let (b, result) ← b.connect host n
  modify fun p => { p with connecting := p.connecting.dropLast }
  modify (·.modifyCustom n fun _ => ⟨b, false⟩)
  match result with
  | .error f => modify (·.warn s!"connecting <{tag}> {nodeText n} failed: {f.message}")
  | .ok () => pure ()
  modify (·.applyDeferred n)

/-- Creates an element. In HTML a defined tag makes it a custom element. -/
def createElementWith (host : Host) (tag : String) (ns : Namespace) : Act NodeId := do
  let p ← get
  let n := p.document.size
  set { p with document := p.document.push (.element (.ofTag tag ns)) }
  if ns = .html then
    match p.registry.get? tag with
    | none => return n
    | some d =>
      connectElement host tag n d
      return n
  else return n

/-- Flushes a custom element, which is busy meanwhile. Other nodes have nothing to do. -/
def flushWith (host : Host) (n : NodeId) : Act (Except Fault Nat) := do
  match (← get).custom? n with
  | none => return .ok 0
  | some e =>
    if e.busy then return .error .busy
    else
      modify (·.setBusy n true)
      let result ← e.behaviour.flush host n
      modify (·.setBusy n false)
      return result

/-- The services of a document in which custom elements nest to a given depth. -/
def hostTo : Nat → Host
  | 0 => ⟨fun _ _ => failure, fun _ => failure⟩
  | depth + 1 =>
    let inner := hostTo depth
    ⟨createElementWith inner, flushWith inner⟩

/-- Elements within elements have different tags unless their definitions are circular, so this depth is
enough for all others. -/
def Page.nesting (p : Page) : Nat :=
  p.registry.size + 1

/-- Runs an act with the services that the definitions of the page need. -/
def withHost (act : Host → Act α) : Act α := do
  act (hostTo (← get).nesting)

def createElement (tag : String) (ns : Namespace) : Act NodeId :=
  withHost fun host => host.create tag ns

def flushNested (n : NodeId) : Act (Except Fault Nat) :=
  withHost fun host => host.flush n

def Template.instantiate (t : Template) (c : ComponentId) (root : Option NodeId) (sink : Sink) :
    Act (Except BuildError (Instance × Report)) :=
  withHost fun host => t.buildOn host c root sink

end LiveMarkup
