import LiveMarkup.Decimal.Numeral
import LiveMarkup.Text.Quoted

namespace LiveMarkup

/-- A function value: the routine it runs and the component it is bound to, if any. -/
structure Callback where
  routine : Nat
  owner : Option Nat
deriving DecidableEq, Repr, Inhabited

def Callback.bind (c : Callback) (owner : Nat) : Callback :=
  { c with owner := some owner }

def Callback.isBound (c : Callback) : Bool :=
  c.owner.isSome

/-- What component properties, node properties and texts carry. -/
inductive Value where
  | null
  | bool (b : Bool)
  | number (x : Float)
  | text (s : String)
  | callback (c : Callback)
deriving Inhabited, Repr

namespace Value

/-- Numbers compare as numbers, so the zeros are equal and a NaN differs from itself; callbacks are
equal when they run the same routine for the same owner. -/
def equals : Value → Value → Bool
  | null, null => true
  | bool a, bool b => a == b
  | number x, number y => x == y
  | text s, text t => s == t
  | callback c, callback d => c == d
  | _, _ => false

instance : BEq Value := ⟨equals⟩

/-- `null`, `false`, zero, NaN and the empty text are false, all else is true. -/
def truthy : Value → Bool
  | null => false
  | bool b => b
  | number x => !(x == 0) && x == x
  | text s => s ≠ ""
  | callback _ => true

def kind : Value → String
  | null => "null"
  | bool _ => "bool"
  | number _ => "number"
  | text _ => "string"
  | callback _ => "callback"

def boolText (b : Bool) : String :=
  if b then "true" else "false"

/-- The text of a value in text nodes and attributes. Zero loses its sign. -/
def display : Value → String
  | null => ""
  | bool b => boolText b
  | number x => if x == 0 then "0" else numeral x
  | text s => s
  | callback _ => "[callback]"

/-- The text of a value in descriptions of components. -/
def describe : Value → String
  | null => "Null"
  | bool b => s!"Bool({boolText b})"
  | number x => s!"Number({numeral x})"
  | text s => s!"Str({quoted s})"
  | callback c => s!"Callback(bound: {boolText c.isBound})"

/-- The text of a fixed value in template listings. -/
def label : Value → String
  | text s => quoted s
  | callback _ => "<callback>"
  | v => v.display

/-- Reads `true`, `false`, `null` or a number; anything else is a text. -/
def ofLiteral (raw : String) : Value :=
  if raw = "true" then bool true
  else if raw = "false" then bool false
  else if raw = "null" then null
  else match readNumeral? raw with
    | some x => number x
    | none => text raw

def asText? : Value → Option String
  | text s => some s
  | _ => none

def asBool? : Value → Option Bool
  | bool b => some b
  | _ => none

def asNumber? : Value → Option Float
  | number x => some x
  | _ => none

def asCallback? : Value → Option Callback
  | callback c => some c
  | _ => none

/-- Binds a callback to the component that passes it on. -/
def bound (owner : Nat) : Value → Value
  | callback c => callback (c.bind owner)
  | v => v

end Value

end LiveMarkup
