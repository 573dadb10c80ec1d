import LiveMarkup.Dict
import LiveMarkup.Fault
import LiveMarkup.Value

namespace LiveMarkup

inductive BinOp where
  | or
  | and
  | eq
  | ne
  | add
  | sub
deriving DecidableEq, Repr

def BinOp.symbol : BinOp → String
  | .or => "||"
  | .and => "&&"
  | .eq => "=="
  | .ne => "!="
  | .add => "+"
  | .sub => "-"

/-- An expression over the properties of a component and the detail of an event. -/
inductive Expr where
  | literal (v : Value)
  | prop (name : String)
  | event
  | not (e : Expr)
  | binary (op : BinOp) (l r : Expr)
  | concat (parts : List Expr)
deriving Inhabited

mutual

/-- The property names of an expression from left to right. -/
def Expr.names : Expr → List String
  | .literal _ => []
  | .prop name => [name]
  | .event => []
  | .not e => e.names
  | .binary _ l r => l.names ++ r.names
  | .concat parts => Expr.namesOf parts

def Expr.namesOf : List Expr → List String
  | [] => []
  | e :: rest => e.names ++ Expr.namesOf rest

end

/-- The properties an expression reads, each at its first occurrence. -/
def Expr.deps (e : Expr) : List String :=
  firstOccurrences e.names

/-- Numbers add up; a text on either side makes a text. -/
def Value.add (l r : Value) : Except Fault Value :=
  match l, r with
  | .number x, .number y => .ok (.number (x + y))
  | .text _, _ => .ok (.text (l.display ++ r.display))
  | _, .text _ => .ok (.text (l.display ++ r.display))
  | _, _ => .error (.type s!"cannot add {l.kind} and {r.kind}")

def Value.sub (l r : Value) : Except Fault Value :=
  match l, r with
  | .number x, .number y => .ok (.number (x - y))
  | _, _ => .error (.type s!"cannot subtract {r.kind} from {l.kind}")

/-- The right operand of `||` and `&&` is not computed when the left one decides. -/
def BinOp.decides : BinOp → Value → Bool
  | .or, l => l.truthy
  | .and, l => !l.truthy
  | _, _ => false

def BinOp.apply (op : BinOp) (l r : Value) : Except Fault Value :=
  match op with
  | .or | .and => .ok r
  | .eq => .ok (.bool (l == r))
  | .ne => .ok (.bool (!(l == r)))
  | .add => l.add r
  | .sub => l.sub r

mutual

/-- The value of an expression where `read` gives the properties and `event` the event detail. -/
def Expr.eval (read : String → Value) (event : Value) : Expr → Except Fault Value
  | .literal v => .ok v
  | .prop name => .ok (read name)
  | .event => .ok event
  | .not e => do
    let v ← e.eval read event
    return .bool (!v.truthy)
  | .binary op l r => do
    let left ← l.eval read event
    if op.decides left then return left
    let right ← r.eval read event
    op.apply left right
  | .concat parts => do
    let s ← Expr.evalTexts read event parts
    return .text s

/-- The displayed values of a list of expressions, one after the other. -/
def Expr.evalTexts (read : String → Value) (event : Value) : List Expr → Except Fault String
  | [] => .ok ""
  | e :: rest => do
    let v ← e.eval read event
    let s ← Expr.evalTexts read event rest
    return v.display ++ s

end

end LiveMarkup
