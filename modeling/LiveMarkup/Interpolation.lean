import LiveMarkup.Text.Blank
import LiveMarkup.ValueSpec

namespace LiveMarkup

/-- A part of a text with embedded expressions. -/
inductive Span where
  | literal (cs : List Char)
  | code (cs : List Char)
  | unclosed
deriving DecidableEq, Repr

mutual

/-- Cuts a text at double braces, outside an expression. The characters since the last cut come first,
the latest in front. -/
def literalSpans (seen : List Char) : List Char → List Span
  | [] => [.literal seen.reverse]
  | '\x7b' :: '\x7b' :: rest => .literal seen.reverse :: codeSpans [] rest
  | c :: rest => literalSpans (c :: seen) rest

/-- Cuts a text at double braces, inside an expression. -/
def codeSpans (seen : List Char) : List Char → List Span
  | [] => [.unclosed]
  | '\x7d' :: '\x7d' :: rest => .code seen.reverse :: literalSpans [] rest
  | c :: rest => codeSpans (c :: seen) rest

end

/-- The literal texts of a source and the expressions between double braces, in turn. -/
def spans (cs : List Char) : List Span :=
  literalSpans [] cs

/-- The expressions that spans stand for. Empty literal texts leave nothing. -/
def readSpans (source : String) : List Span → Except ParseError (List Expr)
  | [] => .ok []
  | .literal [] :: rest => readSpans source rest
  | .literal cs :: rest => do
    let parts ← readSpans source rest
    return .literal (.text (String.ofList cs)) :: parts
  | .code cs :: rest => do
    let e ← Expr.parse (String.ofList cs)
    let parts ← readSpans source rest
    return e :: parts
  | .unclosed :: _ => .error (.expression source .unterminated)

def Expr.isLiteral : Expr → Bool
  | .literal _ => true
  | _ => false

def dropOpening : List Char → List Char
  | '\x7b' :: '\x7b' :: rest => dropOpening rest
  | cs => cs

/-- Drops closing braces from the front of a reversed text. -/
def dropClosing : List Char → List Char
  | '\x7d' :: '\x7d' :: rest => dropClosing rest
  | cs => cs

/-- The text of a lone expression without its braces and the blanks around it. -/
def loneLabel (cs : List Char) : List Char :=
  trim (dropClosing (dropOpening (trim cs)).reverse).reverse

/-- Text without expressions is a constant, a lone expression keeps its own value, and a mixture is the
text of its parts in a row. -/
def ValueSpec.ofParts (source : String) (parts : List Expr) : ValueSpec :=
  if parts.all Expr.isLiteral then .constant (.text source)
  else match parts with
    | [e] => e.toSpec (String.ofList (loneLabel source.toList))
    | _ => (Expr.concat parts).toSpec source

def ValueSpec.ofInterpolated (source : String) : Except ParseError ValueSpec := do
  let parts ← readSpans source (spans source.toList)
  return .ofParts source parts

end LiveMarkup
