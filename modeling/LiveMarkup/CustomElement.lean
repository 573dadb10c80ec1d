import LiveMarkup.Component
import LiveMarkup.Instance

namespace LiveMarkup

/-- A component shown by a template that adopts the element's own node. -/
structure Widget where
  template : Template
  component : ComponentId
  shown : Option Instance

def Widget.isConnected (w : Widget) : Bool :=
  w.shown.isSome

/-- What a probe does when it is flushed. -/
inductive ProbeFlush where
  | display
  | fail
  | reenter
  | write
  | call
deriving DecidableEq, Repr

/-- The behaviour of a probe, an element that makes every access to it visible. -/
structure ProbeSpec where
  properties : List String
  writes : List (PropertyPath × Operand)
  flushes : Bool
  failure : Option String
  flush : ProbeFlush

structure Probe where
  spec : ProbeSpec
  text : NodeId
  stored : Dict Value
  pending : Nat
  flushCount : Nat

/-- The behaviour behind an element with a defined tag. -/
inductive Behaviour where
  | widget (w : Widget)
  | probe (p : Probe)

/-- A live custom element. While it connects or is flushed it is busy. -/
structure CustomElement where
  behaviour : Behaviour
  busy : Bool

inductive DefinitionKind where
  | widget (template : Template) (initial : Blueprint)
  | probe (spec : ProbeSpec)

/-- What a tag was defined as, with the properties its elements answer for. -/
structure Definition where
  properties : List String
  kind : DefinitionKind

abbrev Registry := Dict Definition

def Registry.declared (r : Registry) (tag : String) : Option (List String) :=
  (r.get? tag).map (·.properties)

end LiveMarkup
