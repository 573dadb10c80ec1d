import LiveMarkup.Interpolation
import LiveMarkup.Markup.Source
import LiveMarkup.Template.Node

namespace LiveMarkup

/-- The names of an `attach-point` attribute, separated by commas. -/
def attachNames (value : String) : List String :=
  (((splitAtChar ',' value.toList).map trim).filter (· ≠ [])).map String.ofList

/-- The head of an element before its attributes. Two tags imply a namespace. -/
def NodeHead.initial (tag : String) : NodeHead :=
  let ns := if tag = "svg" then some "svg" else if tag = "math" then some "math" else none
  { NodeHead.ofTag tag with ns := ns }

/-- Adds one attribute: `:name` is an expression, `@name` an event, `attach-point` and `xmlns` have a
meaning of their own, and any other one is text. -/
def NodeHead.addAttribute (head : NodeHead) (name : String) (value : Option String) :
    Except ParseError NodeHead :=
  match name.toList with
  | ':' :: rest => do
    let bound := String.ofList rest
    let source := value.getD bound
    let e ← Expr.parse source
    return { head with attributes := head.attributes ++ [(bound, e.toSpec (trimText source))] }
  | '@' :: rest => do
    let handler ← Handler.parse (value.getD "")
    return { head with events := head.events ++ [(String.ofList rest, handler)] }
  | _ =>
    if name = "attach-point" then
      .ok { head with attachPoints := head.attachPoints ++ attachNames (value.getD "") }
    else if name = "xmlns" then .ok { head with ns := value }
    else match value with
      | none => .ok { head with attributes := head.attributes ++ [(name, .constant (.bool true))] }
      | some source => do
        let spec ← ValueSpec.ofInterpolated source
        return { head with attributes := head.attributes ++ [(name, spec)] }

def NodeHead.addAttributes (head : NodeHead) :
    List (String × Option String) → Except ParseError NodeHead
  | [] => .ok head
  | (name, value) :: rest => do
    let head ← head.addAttribute name value
    head.addAttributes rest

mutual

/-- Reads an element: its attributes, then its children, then the tag that closes it. -/
def TemplateNode.ofSource : SourceNode → Except ParseError TemplateNode
  | .text run => do
    let spec ← ValueSpec.ofInterpolated (String.ofList (trimIndentation run))
    return .text spec
  | .element tag attrs children closedBy => do
    let head ← (NodeHead.initial tag).addAttributes attrs
    let nodes ← TemplateNode.ofSources children
    match closedBy with
    | none => return .node head nodes
    | some close => if close = tag then return .node head nodes else .error (.mismatchedClose tag close)

/-- Reads the children of an element. Text that is indentation only leaves no node. -/
def TemplateNode.ofSources : List SourceNode → Except ParseError (List TemplateNode)
  | [] => .ok []
  | .text run :: rest =>
    if trimIndentation run = [] then TemplateNode.ofSources rest
    else do
      let node ← TemplateNode.ofSource (.text run)
      let nodes ← TemplateNode.ofSources rest
      return node :: nodes
  | .element tag attrs children closedBy :: rest => do
    let node ← TemplateNode.ofSource (.element tag attrs children closedBy)
    let nodes ← TemplateNode.ofSources rest
    return node :: nodes

end

/-- The elements at the top of a source, and how many texts stand beside them. -/
def readRoots : List SourceNode → Except ParseError (List TemplateNode × Nat)
  | [] => .ok ([], 0)
  | .text run :: rest => do
    let (roots, stray) ← readRoots rest
    return (roots, if run.all isBlank then stray else stray + 1)
  | .element tag attrs children closedBy :: rest => do
    let root ← TemplateNode.ofSource (.element tag attrs children closedBy)
    let (roots, stray) ← readRoots rest
    return (root :: roots, stray)

/-- Reads the source of a template: markup with exactly one element at the top. -/
def TemplateNode.parse (source : String) : Except ParseError TemplateNode :=
  match sourceNodes? source with
  | none => .error .mismatch
  | some nodes => do
    let (roots, stray) ← readRoots nodes
    match roots, stray with
    | [root], 0 => return root
    | _, _ => .error (.rootCount (roots.length + stray))

end LiveMarkup
