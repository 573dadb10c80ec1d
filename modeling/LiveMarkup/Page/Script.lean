import LiveMarkup.Page.Basic

namespace LiveMarkup

/-- What a script runs for: its component, the event, and the value that `event` names in it. -/
structure Call where
  self : ComponentId
  event : Event
  arg : Value

def Call.eval (call : Call) (e : Expr) (p : Page) : Except Fault Value :=
  e.eval (p.component call.self).get call.arg

/-- Whether an update may have a component for itself now. -/
def Page.lendable (p : Page) (c : ComponentId) : Except Fault Unit :=
  if !(p.cell c).attached then .error .detached
  else if p.access c ≠ .free then .error .busy
  else .ok ()

/-- Runs an act while no one else may use a component. -/
def exclusively (c : ComponentId) (act : Act (Except Fault α)) : Act (Except Fault α) := do
  match (← get).lendable c with
  | .error f => return .error f
  | .ok () =>
    modify (·.setAccess c .exclusive)
    let result ← act
    modify (·.setAccess c .free)
    return result

/-- A script under way: what it runs for, the actions it has left, and whether it has its component for
itself until it ends. -/
structure Frame where
  call : Call
  rest : Script
  exclusive : Bool

namespace Frame

def enter (f : Frame) (p : Page) : Page :=
  if f.exclusive then p.setAccess f.call.self .exclusive else p

def leave (f : Frame) (p : Page) : Page :=
  if f.exclusive then p.setAccess f.call.self .free else p

/-- The frame after its next action. -/
def advance (f : Frame) : Frame :=
  { f with rest := f.rest.tail }

/-- A method of a component; the event detail is its argument. -/
def ofMethod (p : Page) (self : ComponentId) (event : Event) (name : String) : Except Fault Frame :=
  match (p.component self).methods.get? name with
  | none => .error (.unknownMethod name)
  | some script => .ok ⟨⟨self, event, event.detail⟩, script, false⟩

/-- The routine of a callback on a component, whatever it is bound to. -/
def ofRoutine (p : Page) (self : ComponentId) (c : Callback) (arg : Value) : Frame :=
  ⟨⟨self, ⟨"callback", 0, arg⟩, arg⟩, p.routines[c.routine]?.getD [], false⟩

/-- The routine of a callback on the component it is bound to. -/
def ofCallback (p : Page) (c : Callback) (arg : Value) : Except Fault Frame :=
  match c.owner with
  | none => .error .detached
  | some owner =>
    match p.lendable owner with
    | .error f => .error f
    | .ok () => .ok { ofRoutine p owner c arg with exclusive := true }

end Frame

/-- What comes after an action: the next one, the end of the script, or another script first. -/
inductive Next where
  | proceed
  | finish (result : Except Fault Value)
  | enter (inner : Frame)

def Next.enterOr : Except Fault Frame → Next
  | .error f => .finish (.error f)
  | .ok inner => .enter inner

/-- Runs one action. -/
def Action.run (call : Call) (p : Page) : Action → Next × Page
  | .set name e =>
    match call.eval e p with
    | .error f => (.finish (.error f), p)
    | .ok v => (.proceed, p.modifyComponent call.self (·.set name v))
  | .put name value =>
    let (v, p) := p.valueOf value
    (.proceed, p.modifyComponent call.self (·.set name v))
  | .notify name => (.proceed, p.modifyComponent call.self (·.notify name))
  | .stop fault => (.finish (.error fault), p)
  | .invoke method => (.enterOr (Frame.ofMethod p call.self call.event method), p)
  | .answer e => (.finish (call.eval e p), p)
  | .log e =>
    match call.eval e p with
    | .error f => (.finish (.error f), p)
    | .ok v => (.proceed, p.note (.logged call.event.kind call.event.target v))
  | .call property =>
    match (p.component call.self).get property with
    | .callback c => (.enterOr (Frame.ofCallback p c call.arg), p)
    | _ => (.finish (.error (.failed "not a callback")), p)
  | .callHere property =>
    match (p.component call.self).get property with
    | .callback c => (.enter (.ofRoutine p call.self c call.arg), p)
    | _ => (.finish (.error (.failed "not a callback")), p)

/-- Runs the next action of a script. One without any left gives `null`. -/
def Frame.step (f : Frame) (p : Page) : Next × Page :=
  match f.rest with
  | [] => (.finish (.ok .null), p)
  | action :: _ => action.run f.call p

/-- Ends scripts, innermost first. -/
def leaveAll (frames : List Frame) (p : Page) : Page :=
  frames.foldl (fun p f => f.leave p) p

/-- Runs a script and then the ones that wait for it, innermost first. When a script ends, the one that
waits for it goes on, whatever the value was; a failure ends them all. It gives nothing when the actions
or the room for scripts within scripts run out. -/
def runFrames : Nat → Nat → Frame → List Frame → Page → Option (Except Fault Value × Page)
  | 0, _, _, _, _ => none
  | actions + 1, room, f, waiting, p =>
    match f.step p with
    | (.proceed, p) => runFrames actions room f.advance waiting p
    | (.enter inner, p) =>
      if room = 0 then none
      else runFrames actions (room - 1) inner (f.advance :: waiting) (inner.enter p)
    | (.finish (.error fault), p) => some (.error fault, leaveAll (f :: waiting) p)
    | (.finish (.ok v), p) =>
      match waiting with
      | [] => some (.ok v, f.leave p)
      | outer :: others => runFrames actions (room + 1) outer others (f.leave p)

/-- How many actions one run may take. -/
def maxActions : Nat := 1000000000000

/-- How deep scripts may nest. -/
def maxScriptDepth : Nat := 1000000

def Frame.run (f : Frame) : Act (Except Fault Value) :=
  fun p => runFrames maxActions maxScriptDepth f [] (f.enter p)

def runStarted : Except Fault Frame → Act (Except Fault Value)
  | .error f => return .error f
  | .ok frame => frame.run

/-- Runs a method of a component; the event detail is its argument. -/
def invokeMethod (self : ComponentId) (event : Event) (name : String) : Act (Except Fault Value) := do
  runStarted (Frame.ofMethod (← get) self event name)

/-- Runs the routine of a callback on a component, whatever it is bound to. -/
def callOn (self : ComponentId) (c : Callback) (arg : Value) : Act (Except Fault Value) := do
  (Frame.ofRoutine (← get) self c arg).run

/-- Runs the routine of a callback on the component it is bound to. -/
def callBound (c : Callback) (arg : Value) : Act (Except Fault Value) := do
  runStarted (Frame.ofCallback (← get) c arg)

/-- Runs a handler on a component. -/
def Handler.run (self : ComponentId) (event : Event) : Handler → Act (Except Fault Unit)
  | .method name => do
    let result ← invokeMethod self event name
    return result.map fun _ => ()
  | .assign _ target e => do
    match e.eval ((← get).component self).get event.detail with
    | .error f => return .error f
    | .ok v =>
      modify (·.modifyComponent self (·.set target v))
      return .ok ()
  | .script _ actions => do
    let result ← Frame.run ⟨⟨self, event, event.detail⟩, actions, false⟩
    return result.map fun _ => ()

def Listener.run (event : Event) : Listener → Act (Except Fault Unit)
  | .component owner handler => exclusively owner (handler.run owner event)
  | .observer label failure => do
    modify (·.note (.observed label event.kind event.target event.detail))
    match failure with
    | some detail => return .error (.failed detail)
    | none => return .ok ()

/-- The listeners an event meets on its way from a node to the root, in order. -/
def Document.listenersFor (d : Document) (target : NodeId) (kind : String) : List Listener :=
  (d.chain target).flatMap fun n => ((d.listeners n).filter fun l => l.1 == kind).map (·.2)

/-- How many listeners ran, and the failures among them. -/
structure Dispatch where
  invoked : Nat
  faults : List Fault

/-- Runs listeners one after the other. A failure is warned of and stops nothing. -/
def runListeners (event : Event) : List Listener → Act (List Fault)
  | [] => return []
  | l :: rest => do
    match ← l.run event with
    | .ok () => runListeners event rest
    | .error f =>
      modify (·.warn s!"listener for '{event.kind}' on {nodeText event.target} failed: {f.message}")
      let faults ← runListeners event rest
      return f :: faults

/-- Delivers an event to a node and then to each of its ancestors. -/
def dispatch (target : NodeId) (kind : String) (detail : Value) : Act Dispatch := do
  let listeners := (← get).document.listenersFor target kind
  let faults ← runListeners ⟨kind, target, detail⟩ listeners
  return ⟨listeners.length, faults⟩

end LiveMarkup
