import LiveMarkup.Template.Plan
import LiveMarkup.Template.Reader

namespace LiveMarkup

/-- What is settled while a template is planned: the next slot, which slot each attach point names, and
the property maps looked up. -/
structure Draft where
  nextSlot : Slot
  owners : List (String × Slot)
  maps : PropertyMaps

/-- Planning can fail, and what it looked up until then stays. -/
abbrev Planner := ExceptT CompileError (StateM Draft)

def Planner.freshSlot : Planner Slot := do
  let draft ← get
  set { draft with nextSlot := draft.nextSlot + 1 }
  return draft.nextSlot

/-- Reserves the attach points of one node. A name the node has already is not kept twice, and a name of
another node is an error. -/
def Planner.reserveNames (slot : Slot) : List String → Planner (List String)
  | [] => return []
  | name :: rest => do
    let draft ← get
    match draft.owners.lookup name with
    | some owner =>
      if owner = slot then Planner.reserveNames slot rest else throw (.duplicateAttachPoint name)
    | none =>
      set { draft with owners := (name, slot) :: draft.owners }
      let names ← Planner.reserveNames slot rest
      return name :: names

/-- Declared properties of custom elements by tag. -/
abbrev Declarations := String → Option (List String)

def Planner.resolveAttribute (declared : Declarations) (tag : String) (ns : Namespace) (name : String) :
    Planner Target := do
  let draft ← get
  let (path?, maps) := resolve (declared tag) draft.maps tag ns name
  set { draft with maps := maps }
  match path? with
  | some path => return .property path
  | none => return .attr name

def Planner.resolveAttributes (declared : Declarations) (tag : String) (ns : Namespace) :
    List (String × ValueSpec) → Planner (List (Target × ValueSpec))
  | [] => return []
  | (name, spec) :: rest => do
    let target ← Planner.resolveAttribute declared tag ns name
    let targets ← Planner.resolveAttributes declared tag ns rest
    return (target, spec) :: targets

/-- The method a handler names without its being known. -/
def Handler.unknownMethod? (methods : Option Names) : Handler → Option String
  | .method name =>
    match methods with
    | some known => if known.contains name then none else some name
    | none => none
  | _ => none

def Planner.checkEvents (options : CompileOptions) (tag : String) :
    List (String × Handler) → Planner Unit
  | [] => return ()
  | (event, handler) :: rest =>
    match handler.unknownMethod? options.methods with
    | some method => throw (.unknownHandler tag event method)
    | none => Planner.checkEvents options tag rest

/-- The namespace a node declares, or that of its parent. -/
def Planner.namespaceOf (head : NodeHead) (inherited : Namespace) : Planner Namespace :=
  match head.ns with
  | none => return inherited
  | some raw =>
    match Namespace.ofText? raw with
    | some ns => return ns
    | none => throw (.unknownNamespace head.tag raw)

/-- Plans a node without its children: namespace, attach points, attributes, events. -/
def Planner.head (declared : Declarations) (options : CompileOptions) (slot : Slot) (created : Bool)
    (inherited : Namespace) (head : NodeHead) : Planner PlanHead := do
  let ns ← Planner.namespaceOf head inherited
  let names ← Planner.reserveNames slot head.attachPoints
  let targets ← Planner.resolveAttributes declared head.tag ns head.attributes
  Planner.checkEvents options head.tag head.events
  return {
    slot := slot
    created := created
    tag := head.tag
    ns := ns
    attachPoints := names
    attributes := targets
    nested := created && options.nested.holds head.tag
    events := head.events }

/-- Whether a node without a tag carries what only elements have. -/
def hasElementParts (head : NodeHead) (children : List TemplateNode) : Bool :=
  head.ns.isSome || !head.attachPoints.isEmpty || !head.attributes.isEmpty ||
    !head.events.isEmpty || !children.isEmpty

mutual

/-- Plans a child and gives it a slot. A child without a tag is a text. -/
def Planner.child (declared : Declarations) (options : CompileOptions) (inherited : Namespace)
    (path : String) : TemplateNode → Planner Plan
  | .text spec => do
    let slot ← Planner.freshSlot
    return .text slot spec
  | .node head children =>
    if head.tag = "" then
      match head.expression with
      | none => throw (.missingTagOrExpression path)
      | some spec =>
        if hasElementParts head children then throw (.textWithElementParts path)
        else do
          let slot ← Planner.freshSlot
          return .text slot spec
    else do
      let slot ← Planner.freshSlot
      let planHead ← Planner.head declared options slot true inherited head
      let plans ← Planner.children declared options planHead.ns path 0 children
      return .element planHead plans

/-- Plans children in order. A child's path is that of its parent and its position. -/
def Planner.children (declared : Declarations) (options : CompileOptions) (inherited : Namespace)
    (path : String) (index : Nat) : List TemplateNode → Planner (List Plan)
  | [] => return []
  | node :: rest => do
    let plan ← Planner.child declared options inherited s!"{path}/{index}" node
    let plans ← Planner.children declared options inherited path (index + 1) rest
    return plan :: plans

end

/-- Plans a whole template. The root has to be an element. -/
def Planner.root (declared : Declarations) (options : CompileOptions) : TemplateNode → Planner Plan
  | .text _ => throw .textRoot
  | .node head children =>
    if head.tag = "" then
      match head.expression with
      | some _ => throw .textRoot
      | none => throw (.missingTagOrExpression options.rootName)
    else do
      let slot ← Planner.freshSlot
      let planHead ← Planner.head declared options slot options.createRoot .html head
      let plans ← Planner.children declared options planHead.ns options.rootName 0 children
      return .element planHead plans

/-- The root has a name of its own and every other slot is named by its number. -/
def numberedSlots (rootName : String) (count : Nat) : List String :=
  (List.range count).map fun s => if s = 0 then rootName else s!"n{s}"

def Template.ofPlan (options : CompileOptions) (slots : Nat) (plan : Plan) : Template where
  name := options.name
  slotNames := numberedSlots options.rootName slots
  build := plan.build
  refresh := plan.refresh
  createsRoot := options.createRoot

/-- Compiles a template, with the property maps known before and after. -/
def compileWith (declared : Declarations) (maps : PropertyMaps) (options : CompileOptions)
    (node : TemplateNode) : Except CompileError Template × PropertyMaps :=
  let (result, draft) := ((Planner.root declared options node).run).run ⟨0, [], maps⟩
  (result.map (Template.ofPlan options draft.nextSlot), draft.maps)

/-- Any failure on the way from source to a compiled template. -/
inductive TemplateError where
  | parse (e : ParseError)
  | compile (e : CompileError)
deriving DecidableEq, Repr

def TemplateError.messageWith (mismatch : String) : TemplateError → String
  | .parse e => e.messageWith mismatch
  | .compile e => e.message

def compileSource (declared : Declarations) (maps : PropertyMaps) (options : CompileOptions)
    (source : String) : Except TemplateError Template × PropertyMaps :=
  match TemplateNode.parse source with
  | .error e => (.error (.parse e), maps)
  | .ok node =>
    let (result, maps) := compileWith declared maps options node
    (result.mapError .compile, maps)

end LiveMarkup
