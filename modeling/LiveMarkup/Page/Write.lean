import LiveMarkup.Page.Basic

namespace LiveMarkup

/-- Whether the node is a custom element that answers for a property. -/
def Page.declares (p : Page) (n : NodeId) (name : String) : Bool :=
  p.isCustom n &&
    match p.document.tag? n with
    | some tag => ((p.registry.declared tag).getD []).contains name
    | none => false

def droppedWrite (n : NodeId) (path : PropertyPath) : String :=
  s!"property {path.display} on busy custom element {nodeText n} dropped"

/-- Hands a write to a widget's component, or drops it while the component is in use. -/
def Page.writeWidget (p : Page) (w : Widget) (path : PropertyPath) (v : Value) : Page :=
  if p.access w.component = .free then p.modifyComponent w.component (·.set path.display v)
  else p.warn s!"{w.template.name}: busy, property {path.display} dropped"

def Probe.write (probe : Probe) (path : PropertyPath) (v : Value) : Probe :=
  { probe with stored := probe.stored.insert path.display v, pending := probe.pending + 1 }

/-- Hands a write to the behaviour of a custom element. -/
def Page.writeBehaviour (p : Page) (n : NodeId) (b : Behaviour) (path : PropertyPath) (v : Value) :
    Page :=
  match b with
  | .widget w => p.writeWidget w path v
  | .probe probe =>
    (p.note (.written n path.display v)).setBehaviour n (.probe (probe.write path v))

/-- Writes a property. A custom element receives the properties it declares: a busy one later if it is
connecting, and otherwise never. All other properties are stored on the node. -/
def Page.setProperty (p : Page) (n : NodeId) (path : PropertyPath) (v : Value) : Page :=
  if p.declares n path.head then
    match p.custom? n with
    | none => p
    | some e =>
      if !e.busy then p.writeBehaviour n e.behaviour path v
      else if p.connecting.contains n then { p with deferred := p.deferred ++ [⟨n, path, v⟩] }
      else p.warn (droppedWrite n path)
  else { p with document := p.document.setProperty n path v }

/-- Applies the writes that waited for an element, in the order they were made. -/
def Page.applyWrites (p : Page) (n : NodeId) : List DeferredWrite → Page
  | [] => p
  | w :: rest =>
    match p.custom? n with
    | none => p.applyWrites n rest
    | some e =>
      if e.busy then (p.warn (droppedWrite n w.path)).applyWrites n rest
      else (p.writeBehaviour n e.behaviour w.path w.value).applyWrites n rest

/-- Takes the writes that waited for an element off the list and applies them. -/
def Page.applyDeferred (p : Page) (n : NodeId) : Page :=
  let mine := p.deferred.filter fun w => w.node = n
  let others := p.deferred.filter fun w => w.node ≠ n
  { p with deferred := others }.applyWrites n mine

def Widget.property? (w : Widget) (p : Page) (name : String) : Option Value :=
  if p.access w.component = .exclusive then none else (p.component w.component).props.get? name

/-- Reads a property. A custom element answers for the properties it declares, unless it is busy. -/
def Page.property? (p : Page) (n : NodeId) (name : String) : Option Value :=
  if p.declares n name then
    match p.custom? n with
    | none => none
    | some e =>
      if e.busy then none
      else match e.behaviour with
        | .widget w => w.property? p name
        | .probe probe => probe.stored.get? name
  else (p.document.element? n).bind fun e => e.props.get? name

/-- Moves a node to the end of the children of another. -/
def Page.append (p : Page) (parent child : NodeId) : Page :=
  if p.document.has parent && p.document.has child then
    { p with document := p.document.append parent child }
  else p.warn s!"append_child({nodeText parent}, {nodeText child}): unknown node"

def Page.createText (p : Page) (s : String) : NodeId × Page :=
  (p.document.size, { p with document := p.document.push (.text s) })

def Page.setAttribute (p : Page) (n : NodeId) (name text : String) : Page :=
  { p with document := p.document.setAttribute n name text }

def Page.removeAttribute (p : Page) (n : NodeId) (name : String) : Page :=
  { p with document := p.document.removeAttribute n name }

def Page.setText (p : Page) (n : NodeId) (s : String) : Page :=
  { p with document := p.document.setText n s }

def Page.addListener (p : Page) (n : NodeId) (event : String) (l : Listener) : Page :=
  { p with document := p.document.addListener n event l }

end LiveMarkup
