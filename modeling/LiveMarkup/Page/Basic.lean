import LiveMarkup.CustomElement
import LiveMarkup.PropertyMap

namespace LiveMarkup

/-- What scripts, observers and probes note down. -/
inductive Note where
  | logged (kind : String) (target : NodeId) (v : Value)
  | observed (label kind : String) (target : NodeId) (detail : Value)
  | written (node : NodeId) (path : String) (v : Value)
  | flushedWhileConnecting (node : NodeId) (result : Except Fault Nat)
  | called (node : NodeId) (v : Value)

/-- A write to a custom element that waits until the element has connected. -/
structure DeferredWrite where
  node : NodeId
  path : PropertyPath
  value : Value

/-- A live page: the document, the components and custom elements behind it, the callbacks that have a name,
the definitions of tags, and what was noted and warned of. -/
structure Page where
  document : Document
  elements : List (NodeId × CustomElement)
  connecting : List NodeId
  deferred : List DeferredWrite
  components : Array Cell
  routines : Array Script
  callbacks : Dict Callback
  registry : Registry
  maps : PropertyMaps
  warnings : List String
  journal : List Note

namespace Page

def empty : Page where
  document := .empty
  elements := []
  connecting := []
  deferred := []
  components := #[]
  routines := #[]
  callbacks := Dict.empty
  registry := Dict.empty
  maps := .empty
  warnings := []
  journal := []

instance : Inhabited Page := ⟨empty⟩

def warn (p : Page) (message : String) : Page :=
  { p with warnings := p.warnings ++ [message] }

/-- Hands a failed step to a sink. -/
def tell (p : Page) (sink : Sink) (d : Diagnostic) : Page :=
  { p with warnings := p.warnings ++ sink.log d, components := sink.reach d p.components }

def note (p : Page) (n : Note) : Page :=
  { p with journal := p.journal ++ [n] }

def cell (p : Page) (c : ComponentId) : Cell :=
  p.components[c]?.getD default

def component (p : Page) (c : ComponentId) : Component :=
  (p.cell c).component

def access (p : Page) (c : ComponentId) : Access :=
  (p.cell c).access

def addComponent (p : Page) (c : Component) : ComponentId × Page :=
  (p.components.size, { p with components := p.components.push ⟨c, .free, true⟩ })

def modifyComponent (p : Page) (c : ComponentId) (f : Component → Component) : Page :=
  { p with components := p.components.modify c fun cell => { cell with component := f cell.component } }

def setAccess (p : Page) (c : ComponentId) (a : Access) : Page :=
  { p with components := p.components.modify c fun cell => { cell with access := a } }

def addRoutine (p : Page) (s : Script) : Nat × Page :=
  (p.routines.size, { p with routines := p.routines.push s })

def nameCallback (p : Page) (name : String) (c : Callback) : Page :=
  { p with callbacks := p.callbacks.insert name c }

/-- The callback that has a name. A name without one gets one that does nothing. -/
def callbackNamed (p : Page) (name : String) : Callback × Page :=
  match p.callbacks.get? name with
  | some c => (c, p)
  | none =>
    let (routine, p) := p.addRoutine []
    (⟨routine, none⟩, p.nameCallback name ⟨routine, none⟩)

/-- The value an operand has now. -/
def valueOf (p : Page) : Operand → Value × Page
  | .fixed v => (v, p)
  | .callback name =>
    let (c, p) := p.callbackNamed name
    (.callback c, p)

/-- Gives a component its first properties, in order. -/
def withProps (p : Page) (c : Component) : List (String × Operand) → Component × Page
  | [] => (c, p)
  | (name, value) :: rest =>
    let (v, p) := p.valueOf value
    p.withProps (c.withProp name v) rest

/-- A new component after a blueprint, not yet on the page. -/
def make (p : Page) (b : Blueprint) : Component × Page :=
  let (c, p) := p.withProps (.named b.name) b.props
  (b.methods.foldl (fun c m => c.withMethod m.1 m.2) c, p)

/-- Reading a component fails while a running update has it. -/
def eval (p : Page) (c : ComponentId) (f : Formula) : Except Fault Value :=
  if p.access c = .exclusive then .error .busy else f.eval (p.component c).sight

def custom? (p : Page) (n : NodeId) : Option CustomElement :=
  p.elements.lookup n

def isCustom (p : Page) (n : NodeId) : Bool :=
  (p.custom? n).isSome

def modifyCustom (p : Page) (n : NodeId) (f : CustomElement → CustomElement) : Page :=
  { p with elements := p.elements.map fun e => if e.1 = n then (e.1, f e.2) else e }

def setBusy (p : Page) (n : NodeId) (busy : Bool) : Page :=
  p.modifyCustom n fun e => { e with busy := busy }

def setBehaviour (p : Page) (n : NodeId) (b : Behaviour) : Page :=
  p.modifyCustom n fun e => { e with behaviour := b }

/-- The components that custom elements of the document hold. -/
def widgetComponents (p : Page) : List ComponentId :=
  p.elements.filterMap fun e =>
    match e.2.behaviour with
    | .widget w => some w.component
    | .probe _ => none

/-- Detaches every component that neither the caller nor an element of the document holds. -/
def release (p : Page) (held : List ComponentId) : Page :=
  let kept := held ++ p.widgetComponents
  { p with components := p.components.mapIdx fun c cell =>
      if kept.contains c then cell else { cell with attached := false } }

/-- Defines a tag. The first definition stays. -/
def define (p : Page) (tag : String) (d : Definition) : Bool × Page :=
  if p.registry.contains tag then (false, p.warn s!"custom element <{tag}> is already defined")
  else (true, { p with registry := p.registry.insert tag d })

/-- Defines a tag as a component shown by a template, which has to adopt its root. The properties of the
blueprint are the declared ones. -/
def defineWidget (p : Page) (tag : String) (t : Template) (initial : Blueprint) :
    Except BuildError (Bool × Page) :=
  if t.createsRoot then .error (.unexpectedRoot t.name)
  else .ok (p.define tag ⟨initial.propNames, .widget t initial⟩)

def defineProbe (p : Page) (tag : String) (spec : ProbeSpec) : Bool × Page :=
  p.define tag ⟨spec.properties, .probe spec⟩

end Page

/-- A computation on a page. It gives nothing when custom elements or scripts nest too deep. -/
abbrev Act := StateT Page Option

end LiveMarkup
