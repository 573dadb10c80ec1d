import LiveMarkup.Page.Host
import LiveMarkup.Template.Compile

namespace LiveMarkup

/-- `NAME=VALUE` on the command line. -/
structure Assignment where
  name : String
  raw : String
deriving DecidableEq, Repr

inductive AssignmentError where
  | noEquals (raw : String)
  | emptyName (raw : String)
deriving DecidableEq, Repr

def AssignmentError.message : AssignmentError → String
  | .noEquals raw => s!"expected NAME=VALUE, got '{raw}'"
  | .emptyName raw => s!"empty property name in '{raw}'"

/-- The first equals sign ends the name, and blanks around the name do not count. -/
def Assignment.parse (raw : String) : Except AssignmentError Assignment :=
  match raw.toList.dropWhile (· ≠ '=') with
  | [] => .error (.noEquals raw)
  | _ :: value =>
    let name := trim (raw.toList.takeWhile (· ≠ '='))
    if name.isEmpty then .error (.emptyName raw)
    else .ok ⟨String.ofList name, String.ofList value⟩

def Assignment.value (a : Assignment) : Value :=
  .ofLiteral a.raw

/-- Why a file could not be read as text. -/
inductive ReadError where
  | missing
  | notText
  | other (detail : String)
deriving DecidableEq, Repr

def ReadError.message : ReadError → String
  | .missing => "No such file or directory (os error 2)"
  | .notText => "stream did not contain valid UTF-8"
  | .other detail => detail

/-- Why a command failed. -/
inductive CommandError where
  | read (path : String) (e : ReadError)
  | parse (path : String) (e : ParseError)
  | compile (path : String) (e : CompileError)
  | build (template : String) (e : BuildError)
  | nesting (template : String)

/-- What was attempted, and what went wrong with it. -/
def CommandError.chainWith (mismatch : String) : CommandError → List String
  | .read path e => [s!"failed to read {path}", e.message]
  | .parse path e => [s!"failed to parse {path}", e.messageWith mismatch]
  | .compile path e => [s!"failed to compile {path}", e.message]
  | .build template e => [s!"failed to build {template}", e.message]
  | .nesting template => [s!"failed to build {template}", "custom elements nest too deep"]

/-- The parts of a path that name something. -/
def pathParts (path : String) : List (List Char) :=
  (splitAtChar '/' path.toList).filter fun part => part ≠ [] && part ≠ ['.']

/-- The file name of a path without its extension. A dot in front begins no extension. -/
def fileStem? (path : String) : Option String :=
  match (pathParts path).getLast? with
  | none => none
  | some name =>
    if name = ['.', '.'] then none
    else
      let front := (name.reverse.dropWhile (· ≠ '.')).drop 1
      some (String.ofList (if front.isEmpty then name else front.reverse))

def templateNameOf (path : String) (name : Option String) : String :=
  (name.orElse fun _ => fileStem? path).getD "template"

/-- Reads and compiles the template of a file. -/
def loadTemplate (path : String) (content : Except ReadError String) (adoptRoot : Bool)
    (name : Option String) : Except CommandError (TemplateNode × Template) := do
  let source ← content.mapError (.read path)
  let node ← (TemplateNode.parse source).mapError (.parse path)
  let options : CompileOptions := { name := templateNameOf path name, createRoot := !adoptRoot }
  let template ← (compileWith (fun _ => none) .empty options node).1.mapError (.compile path)
  return (node, template)

inductive Command where
  | compile (input : String) (adoptRoot : Bool) (name : Option String)
  | render (input : String) (props updates : List Assignment) (adoptRoot : Bool)

def Command.input : Command → String
  | .compile input _ _ => input
  | .render input _ _ _ => input

/-- The element a template that adopts its root is rendered into. -/
def TemplateNode.rootElement : TemplateNode → String × Namespace
  | .node head _ => (head.tag, (head.ns.bind Namespace.ofText?).getD .html)
  | .text _ => ("", .html)

/-- Builds a template, shows it, applies the updates and shows it again. -/
def renderTemplate (node : TemplateNode) (t : Template) (props updates : List Assignment) :
    Act (Except CommandError String) := do
  let initial := props.foldl (fun c a => c.withProp a.name a.value) (Component.named t.name)
  let c ← modifyGet (·.addComponent initial)
  let root ← if t.createsRoot then pure none else
    let (tag, ns) := node.rootElement
    some <$> createElement tag ns
  match ← t.instantiate c root .warnings with
  | .error e => return .error (.build t.name e)
  | .ok (i, _) =>
    let before := (← get).document.markup i.root ++ "\n"
    if updates.isEmpty then return .ok before
    else
      modify (·.modifyComponent c fun c => updates.foldl (fun c a => c.set a.name a.value) c)
      let report ← withHost fun host => i.deliver host
      let after := (← get).document.markup i.root ++ "\n"
      return .ok (before ++ s!"-- {report.executed} steps, {report.failed} failed\n" ++ after)

/-- The output of a command on the content of its input, and the warnings on the way. -/
def Command.run (content : Except ReadError String) : Command → Except CommandError (String × List String)
  | .compile input adoptRoot name => do
    let (_, template) ← loadTemplate input content adoptRoot name
    return (template.listing, [])
  | .render input props updates adoptRoot => do
    let (node, template) ← loadTemplate input content adoptRoot none
    match (renderTemplate node template props updates).run .empty with
    | none => .error (.nesting template.name)
    | some (result, page) => return (← result, page.warnings)

/-- What a command line asks for. -/
inductive Invocation where
  | run (c : Command)
  | help
  | version
  | misuse

/-- Where the arguments of a command have led so far. -/
structure ArgState where
  input : Option String := none
  name : Option String := none
  adoptRoot : Bool := false
  props : List Assignment := []
  updates : List Assignment := []
  onlyInputs : Bool := false

inductive Verb where
  | compile
  | render
deriving DecidableEq, Repr

/-- Whether an argument is an option and no value. A lone dash is a value. -/
def isOption (arg : String) : Bool :=
  match arg.toList with
  | '-' :: _ :: _ => true
  | _ => false

/-- Short options in one argument. Only `v` lets the line go on. -/
def shortOptions (withVersion : Bool) : List Char → Option Invocation
  | [] => none
  | 'v' :: rest => shortOptions withVersion rest
  | 'h' :: _ => some .help
  | 'V' :: _ => some (if withVersion then .version else .misuse)
  | _ :: _ => some .misuse

def ArgState.addInput (s : ArgState) (arg : String) : Option ArgState :=
  if s.input.isSome || arg = "" then none else some { s with input := some arg }

/-- Takes the value of an option. Only assignments may come more than once. -/
def ArgState.addOption (s : ArgState) (verb : Verb) (option value : String) : Option ArgState :=
  match verb with
  | .compile =>
    if option = "name" && s.name.isNone then some { s with name := some value } else none
  | .render =>
    if option = "set" then
      (Assignment.parse value).toOption.map fun a => { s with props := s.props ++ [a] }
    else if option = "update" then
      (Assignment.parse value).toOption.map fun a => { s with updates := s.updates ++ [a] }
    else none

def ArgState.setAdoptRoot (s : ArgState) : Option ArgState :=
  if s.adoptRoot then none else some { s with adoptRoot := true }

def ArgState.finish (s : ArgState) (verb : Verb) : Invocation :=
  match s.input, verb with
  | none, _ => .misuse
  | some input, .compile => .run (.compile input s.adoptRoot s.name)
  | some input, .render => .run (.render input s.props s.updates s.adoptRoot)

def continueWith (next : ArgState → Invocation) : Option ArgState → Invocation
  | some s => next s
  | none => .misuse

/-- Reads the arguments after the name of a command. -/
def Invocation.ofCommandArgs (verb : Verb) : List String → ArgState → Invocation
  | [], s => s.finish verb
  | arg :: rest, s =>
    if s.onlyInputs then continueWith (Invocation.ofCommandArgs verb rest) (s.addInput arg)
    else match arg.toList with
      | ['-', '-'] => Invocation.ofCommandArgs verb rest { s with onlyInputs := true }
      | '-' :: '-' :: long =>
        let option := String.ofList (long.takeWhile (· ≠ '='))
        match long.dropWhile (· ≠ '=') with
        | _ :: value =>
          continueWith (Invocation.ofCommandArgs verb rest) (s.addOption verb option (String.ofList value))
        | [] =>
          if option = "verbose" then Invocation.ofCommandArgs verb rest s
          else if option = "help" then .help
          else if option = "adopt-root" then
            continueWith (Invocation.ofCommandArgs verb rest) s.setAdoptRoot
          else match rest with
            | [] => .misuse
            | value :: rest' =>
              if isOption value then .misuse
              else continueWith (Invocation.ofCommandArgs verb rest') (s.addOption verb option value)
      | '-' :: c :: shorts =>
        match shortOptions false (c :: shorts) with
        | some i => i
        | none => Invocation.ofCommandArgs verb rest s
      | _ => continueWith (Invocation.ofCommandArgs verb rest) (s.addInput arg)

/-- Help for at most one command that exists. -/
def Invocation.ofHelpArgs : List String → Invocation
  | [] => .help
  | [topic] => if topic ∈ ["compile", "render", "help"] then .help else .misuse
  | _ => .misuse

/-- Reads a command line. -/
def Invocation.ofArgs : List String → Invocation
  | [] => .misuse
  | arg :: rest =>
    if arg = "compile" then Invocation.ofCommandArgs .compile rest {}
    else if arg = "render" then Invocation.ofCommandArgs .render rest {}
    else if arg = "help" then Invocation.ofHelpArgs rest
    else if arg = "--verbose" then Invocation.ofArgs rest
    else if arg = "--help" then .help
    else if arg = "--version" then .version
    else match arg.toList with
      | '-' :: '-' :: _ => .misuse
      | '-' :: c :: shorts =>
        match shortOptions true (c :: shorts) with
        | some i => i
        | none => Invocation.ofArgs rest
      | _ => .misuse

/-- What a program leaves behind. -/
structure Outcome where
  code : Nat
  output : String
  errors : String

/-- Text with every line after the first indented like the first line of a cause. -/
def indentCause (text : String) : String :=
  "    " ++ String.ofList (text.toList.flatMap fun c => if c = '\n' then "\n    ".toList else [c])

def errorReport (chain : List String) : String :=
  match chain with
  | [] => ""
  | [outer] => s!"Error: {outer}\n"
  | outer :: causes =>
    s!"Error: {outer}\n\nCaused by:\n" ++ String.join (causes.map fun c => indentCause c ++ "\n")

def usageText : String :=
  "usage: compile INPUT [--adopt-root] [--name NAME]\n" ++
  "       render INPUT [--set NAME=VALUE]... [--update NAME=VALUE]... [--adopt-root]\n"

/-- The outcome of a command line on the content of the input it names. -/
def Invocation.outcome (banner mismatch : String) (content : Except ReadError String) :
    Invocation → Outcome
  | .help => ⟨0, usageText, ""⟩
  | .version => ⟨0, banner ++ "\n", ""⟩
  | .misuse => ⟨2, "", usageText⟩
  | .run c =>
    match c.run content with
    | .ok (output, warnings) => ⟨0, output, String.join (warnings.map (· ++ "\n"))⟩
    | .error e => ⟨1, "", errorReport (e.chainWith mismatch)⟩

end LiveMarkup
