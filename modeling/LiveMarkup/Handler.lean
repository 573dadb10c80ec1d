import LiveMarkup.Script
import LiveMarkup.Text.Blank

namespace LiveMarkup

/-- What a template does with an event. -/
inductive Handler where
  | method (name : String)
  | assign (label : String) (target : String) (value : Expr)
  | script (label : String) (actions : Script)

/-- A method by its name, any other handler by its label in braces. -/
def Handler.describe : Handler → String
  | .method name => name
  | .assign label _ _ => s!"\x7b{label}\x7d"
  | .script label _ => s!"\x7b{label}\x7d"

/-- Reads `method` or `property = expression`. -/
def Handler.ofTokens? (label : String) : List Token → Option Handler
  | [.word name] => some (.method name)
  | .word target :: .assign :: rest => (parseTokens? rest).map (.assign label target)
  | _ => none

def Handler.parse (source : String) : Except ParseError Handler :=
  match (tokens? source.toList).bind (Handler.ofTokens? (trimText source)) with
  | some h => .ok h
  | none => .error (.expression source .mismatch)

end LiveMarkup
