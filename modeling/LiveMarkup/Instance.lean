import LiveMarkup.Document
import LiveMarkup.Template.Basic

namespace LiveMarkup

abbrev ComponentId := Nat

inductive Phase where
  | build
  | refresh
deriving DecidableEq, Repr

def Phase.name : Phase → String
  | .build => "build"
  | .refresh => "refresh"

/-- A step that failed. What it writes to keeps its value. -/
structure Diagnostic where
  template : String
  slot : String
  op : String
  phase : Phase
  fault : Fault

def Diagnostic.message (d : Diagnostic) : String :=
  s!"{d.template}: {d.op} of {d.slot} failed during {d.phase.name}: {d.fault.message}"

/-- What a caller has ready for failed steps: what it adds to the warnings, and what it does to the components
it may hold. -/
structure Receiver where
  log : Diagnostic → List String
  reach : Diagnostic → Array Cell → Array Cell

/-- The assumption on receivers: one that is told of a failed step leaves all components as they are. -/
def Receiver.LeavesComponents (r : Receiver) : Prop :=
  ∀ d cells, r.reach d cells = cells

/-- Where failed steps are reported: with the warnings, only to the caller, or also to a receiver of the
caller's, which is assumed to leave the components alone. -/
inductive Sink where
  | warnings
  | caller
  | receiver (r : Receiver) (h : r.LeavesComponents)

namespace Sink

def log : Sink → Diagnostic → List String
  | .warnings, d => [d.message]
  | .caller, _ => []
  | .receiver r _, d => r.log d

def reach : Sink → Diagnostic → Array Cell → Array Cell
  | .warnings, _, cells => cells
  | .caller, _, cells => cells
  | .receiver r _, d, cells => r.reach d cells

instance (sink : Sink) : Decidable (sink = .caller) :=
  match sink with
  | .warnings => isFalse nofun
  | .caller => isTrue rfl
  | .receiver _ _ => isFalse nofun

end Sink

/-- A built template: its nodes by slot and the component they show. -/
structure Instance where
  template : Template
  component : ComponentId
  slots : List (Option NodeId)
  root : NodeId
  sink : Sink

namespace Instance

def node? (i : Instance) (s : Slot) : Option NodeId :=
  i.slots[s]?.join

def bind (i : Instance) (s : Slot) (n : Option NodeId) : Instance :=
  { i with slots := i.slots.set s n }

/-- The node of a slot, which has to be built. -/
def node (i : Instance) (s : Slot) : Except Fault NodeId :=
  match i.node? s with
  | some n => .ok n
  | none => .error (.failed s!"{i.template.slotName s} was never built")

def diagnostic (i : Instance) (phase : Phase) (op : Op) (fault : Fault) : Diagnostic :=
  ⟨i.template.name, i.template.slotName op.slot, op.name, phase, fault⟩

def slotDescription : Option NodeId → String
  | some n => s!"Some(NodeId({n}))"
  | none => "None"

/-- An instance on one line. -/
def describe (i : Instance) : String :=
  let slots := String.intercalate ", " (i.slots.map slotDescription)
  s!"Instance \x7b template: {quoted i.template.name}, root: NodeId({i.root}), slots: [{slots}] \x7d"

end Instance

/-- A request a template made to the document. -/
inductive Edit where
  | create (tag : String) (ns : Namespace) (node : NodeId)
  | text (s : String) (node : NodeId)
  | append (parent child : NodeId)
  | property (node : NodeId) (path : PropertyPath) (v : Value)
  | attr (node : NodeId) (name text : String)
  | removeAttr (node : NodeId) (name : String)
  | setText (node : NodeId) (s : String)
  | listen (node : NodeId) (event : String)
  | flush (node : NodeId) (result : Except Fault Nat)

/-- The outcome of running steps: how many ran, how many of them failed and why, and what they asked of
the document. -/
structure Report where
  executed : Nat
  failed : Nat
  diagnostics : List Diagnostic
  edits : List Edit

def Report.empty : Report :=
  ⟨0, 0, [], []⟩

instance : Inhabited Report := ⟨.empty⟩

def Report.append (r s : Report) : Report :=
  ⟨r.executed + s.executed, r.failed + s.failed, r.diagnostics ++ s.diagnostics, r.edits ++ s.edits⟩

/-- Why an instance could not be built. -/
inductive BuildError where
  | missingRoot (template : String)
  | unexpectedRoot (template : String)
  | unknownRoot (node : NodeId)
  | componentBusy
deriving DecidableEq, Repr

def BuildError.message : BuildError → String
  | .missingRoot template => s!"template '{template}' adopts an existing root but none was supplied"
  | .unexpectedRoot template =>
    s!"template '{template}' creates its own root; an existing root was supplied"
  | .unknownRoot node => s!"root node {nodeText node} does not belong to the host"
  | .componentBusy => "owning component is borrowed elsewhere"

end LiveMarkup
