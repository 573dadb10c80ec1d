namespace LiveMarkup

/-- Why an expression was refused. -/
inductive ExprFlaw where
  | mismatch
  | unterminated
deriving DecidableEq, Repr

/-- Why template source was refused. -/
inductive ParseError where
  | mismatch
  | mismatchedClose (opened closed : String)
  | rootCount (found : Nat)
  | expression (source : String) (flaw : ExprFlaw)
deriving DecidableEq, Repr

/-- What is said of text that does not match the grammar. -/
def mismatchDetail : String :=
  "the text does not match the grammar"

def ExprFlaw.message (mismatch : String) : ExprFlaw → String
  | .mismatch => mismatch
  | .unterminated => "unterminated '\x7b\x7b'"

/-- The text of an error, given the words for a mismatch with the grammar. -/
def ParseError.messageWith (mismatch : String) : ParseError → String
  | .mismatch => s!"syntax error: {mismatch}"
  | .mismatchedClose opened closed => s!"closing tag </{closed}> does not match <{opened}>"
  | .rootCount found => s!"a template needs exactly one root element, found {found}"
  | .expression source flaw => s!"invalid expression '{source}': {flaw.message mismatch}"

def ParseError.message (e : ParseError) : String :=
  e.messageWith mismatchDetail

end LiveMarkup
