import LiveMarkup.Expr.Parser

namespace LiveMarkup

/-- A value in a script or a definition: fixed, or the callback that has a name when the value is
needed. -/
inductive Operand where
  | fixed (v : Value)
  | callback (name : String)

/-- One action of a method, a handler or a callback on the component it runs on. -/
inductive Action where
  | set (name : String) (value : Expr)
  | put (name : String) (value : Operand)
  | notify (name : String)
  | stop (fault : Fault)
  | invoke (method : String)
  | answer (value : Expr)
  | log (value : Expr)
  | call (property : String)
  | callHere (property : String)

/-- Actions in the order they run. The first failure ends the script. -/
abbrev Script := List Action

/-- Something that happened at a node. -/
structure Event where
  kind : String
  target : Nat
  detail : Value
deriving Inhabited

end LiveMarkup
