import LiveMarkup.Expr.Token
import LiveMarkup.ParseError

namespace LiveMarkup

/-- How tightly an operator binds. All operators of a level group to the left. -/
def BinOp.level : BinOp → Nat
  | .or => 0
  | .and => 1
  | .eq => 2
  | .ne => 2
  | .add => 3
  | .sub => 3

/-- The level of `!`, above every binary operator. -/
def unaryLevel : Nat := 4

/-- The expression a single token stands for. -/
def Token.atom? : Token → Option Expr
  | .text s => some (.literal (.text s))
  | .number spelling => (readNumeral? spelling).map fun x => .literal (.number x)
  | .word s =>
    some (if s = "true" then .literal (.bool true)
      else if s = "false" then .literal (.bool false)
      else if s = "null" then .literal .null
      else if s = "event" then .event
      else .prop s)
  | _ => none

mutual

/-- Reads an expression whose operators all bind at least as tightly as `level`, and gives the tokens
after it. The first argument bounds the depth of the recursion. -/
def parseLevel : Nat → Nat → List Token → Option (Expr × List Token)
  | 0, _, _ => none
  | depth + 1, level, ts =>
    if level < unaryLevel then do
      let (e, rest) ← parseLevel depth (level + 1) ts
      parseOperands depth level e rest
    else parseUnary depth ts

/-- Continues an expression with the operators of one level. -/
def parseOperands : Nat → Nat → Expr → List Token → Option (Expr × List Token)
  | 0, _, _, _ => none
  | depth + 1, level, left, .op op :: rest =>
    if op.level = level then do
      let (right, after) ← parseLevel depth (level + 1) rest
      parseOperands depth level (.binary op left right) after
    else some (left, .op op :: rest)
  | _ + 1, _, left, ts => some (left, ts)

def parseUnary : Nat → List Token → Option (Expr × List Token)
  | 0, _ => none
  | _ + 1, [] => none
  | depth + 1, .bang :: rest => do
    let (e, after) ← parseUnary depth rest
    return (.not e, after)
  | depth + 1, .opening :: rest => do
    let (e, after) ← parseLevel depth 0 rest
    match after with
    | .closing :: tail => return (e, tail)
    | _ => none
  | _ + 1, t :: rest => t.atom?.map fun e => (e, rest)

end

/-- A parenthesis opens at most six nested calls and every other token fewer. -/
def parseDepth (ts : List Token) : Nat :=
  6 * (ts.length + 1)

/-- Reads all the tokens as one expression. -/
def parseTokens? (ts : List Token) : Option Expr :=
  match parseLevel (parseDepth ts) 0 ts with
  | some (e, []) => some e
  | _ => none

def Expr.parse (source : String) : Except ParseError Expr :=
  match (tokens? source.toList).bind parseTokens? with
  | some e => .ok e
  | none => .error (.expression source .mismatch)

end LiveMarkup
