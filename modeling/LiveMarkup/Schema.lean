import LiveMarkup.Text.Blank

namespace LiveMarkup

inductive Namespace where
  | html
  | svg
  | math
deriving DecidableEq, Repr, Inhabited

/-- A short name or the full address of a namespace, with blanks around it. -/
def Namespace.ofText? (raw : String) : Option Namespace :=
  let name := trimText raw
  if name ∈ ["html", "xhtml", "http://www.w3.org/1999/xhtml"] then some .html
  else if name ∈ ["svg", "http://www.w3.org/2000/svg"] then some .svg
  else if name ∈ ["math", "mathml", "http://www.w3.org/1998/Math/MathML"] then some .math
  else none

def Namespace.uri : Namespace → String
  | .html => "http://www.w3.org/1999/xhtml"
  | .svg => "http://www.w3.org/2000/svg"
  | .math => "http://www.w3.org/1998/Math/MathML"

def Namespace.name : Namespace → String
  | .html => "html"
  | .svg => "svg"
  | .math => "math"

/-- A property of a node, or of an object it holds: `value`, `style.cssText`. -/
structure PropertyPath where
  segments : List String
deriving DecidableEq, Repr

namespace PropertyPath

def single (name : String) : PropertyPath :=
  ⟨[name]⟩

def dotted (path : String) : PropertyPath :=
  ⟨(splitAtChar '.' path.toList).map String.ofList⟩

/-- The property of the node itself. -/
def head (p : PropertyPath) : String :=
  p.segments.head?.getD ""

def leaf (p : PropertyPath) : String :=
  p.segments.getLast?.getD ""

def isNested (p : PropertyPath) : Bool :=
  1 < p.segments.length

def display (p : PropertyPath) : String :=
  String.intercalate "." p.segments

end PropertyPath

/-- The properties of every HTML element. -/
def globalProperties : List String :=
  ["id", "className", "title", "lang", "dir", "hidden", "tabIndex", "accessKey", "draggable",
    "spellcheck", "contentEditable", "style", "textContent", "innerHTML", "slot"]

/-- The properties of every element outside HTML. -/
def foreignProperties : List String :=
  ["id", "className", "style", "tabIndex"]

/-- The properties a tag has beside the global ones. -/
def ownProperties : List (List String × List String) := [
  (["input"], ["value", "defaultValue", "checked", "defaultChecked", "indeterminate", "disabled",
    "type", "name", "placeholder", "readOnly", "required", "autofocus", "min", "max", "step",
    "multiple", "maxLength", "minLength", "pattern", "size", "src", "alt"]),
  (["button"], ["disabled", "type", "name", "value", "autofocus"]),
  (["textarea"], ["value", "defaultValue", "disabled", "name", "placeholder", "readOnly", "required",
    "rows", "cols", "maxLength", "wrap"]),
  (["select"], ["value", "disabled", "name", "multiple", "required", "size", "selectedIndex"]),
  (["option"], ["value", "disabled", "label", "selected", "defaultSelected", "text"]),
  (["optgroup"], ["disabled", "label"]),
  (["fieldset"], ["disabled", "name"]),
  (["form"], ["action", "method", "name", "target", "noValidate", "enctype"]),
  (["label"], ["htmlFor"]),
  (["output"], ["htmlFor", "name", "value"]),
  (["a"], ["href", "target", "rel", "download", "hreflang", "type"]),
  (["area"], ["href", "target", "rel", "alt", "coords", "shape"]),
  (["img"], ["src", "alt", "width", "height", "srcset", "sizes", "useMap", "isMap"]),
  (["iframe"], ["src", "name", "width", "height", "allow", "srcdoc"]),
  (["video", "audio"], ["src", "autoplay", "controls", "loop", "muted", "preload", "currentTime",
    "volume"]),
  (["td", "th"], ["colSpan", "rowSpan", "headers"]),
  (["col", "colgroup"], ["span"]),
  (["ol"], ["start", "reversed", "type"]),
  (["li"], ["value"]),
  (["progress"], ["value", "max"]),
  (["meter"], ["value", "min", "max", "low", "high", "optimum"]),
  (["details"], ["open"]),
  (["dialog"], ["open"]),
  (["script"], ["src", "type", "async", "defer"]),
  (["link"], ["href", "rel", "type", "media"])]

def elementProperties (tag : String) : List String :=
  ((ownProperties.find? fun row => row.1.contains tag).map (·.2)).getD []

/-- The built-in properties of an element. -/
def propertyNames (tag : String) (ns : Namespace) : List String :=
  if ns = .html then globalProperties ++ elementProperties tag else foreignProperties

/-- HTML attributes whose property has another name. -/
def attributeAliases : List (String × String) :=
  [("class", "className"), ("for", "htmlFor")]

/-- How a property shows in an attribute. -/
inductive Reflection where
  /-- The attribute holds the displayed value and is absent for `null`. -/
  | text (attr : String)
  /-- The attribute is present and empty exactly for true values. -/
  | flag (attr : String)
deriving DecidableEq, Repr

def Reflection.attr : Reflection → String
  | .text a => a
  | .flag a => a

def reflections : List (String × Reflection) := [
  ("id", .text "id"), ("className", .text "class"), ("htmlFor", .text "for"), ("title", .text "title"),
  ("lang", .text "lang"), ("dir", .text "dir"), ("style.cssText", .text "style"),
  ("name", .text "name"), ("type", .text "type"), ("href", .text "href"), ("src", .text "src"),
  ("alt", .text "alt"), ("placeholder", .text "placeholder"), ("tabIndex", .text "tabindex"),
  ("hidden", .flag "hidden"), ("disabled", .flag "disabled"), ("readOnly", .flag "readonly"),
  ("required", .flag "required"), ("multiple", .flag "multiple"), ("open", .flag "open")]

def reflection? (path : String) : Option Reflection :=
  (reflections.find? fun r => r.1 == path).map (·.2)

end LiveMarkup
