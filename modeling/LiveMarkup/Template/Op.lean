import LiveMarkup.Handler
import LiveMarkup.Schema
import LiveMarkup.ValueSpec

namespace LiveMarkup

/-- The number of a node within one instance of a template. -/
abbrev Slot := Nat

/-- One instruction of a compiled template. -/
inductive Op where
  | createElement (slot : Slot) (tag : String) (ns : Namespace)
  | adoptRoot (slot : Slot)
  | attach (slot : Slot) (name : String)
  | setProperty (slot : Slot) (path : PropertyPath) (value : Computation)
  | setAttribute (slot : Slot) (name : String) (value : Computation)
  | flushNested (slot : Slot)
  | connect (slot : Slot) (event : String) (handler : Handler)
  | createText (slot : Slot) (value : Computation)
  | setText (slot : Slot) (value : Computation)
  | appendChild (parent child : Slot)

namespace Op

/-- The slot an instruction writes to. -/
def slot : Op → Slot
  | createElement s _ _ => s
  | adoptRoot s => s
  | attach s _ => s
  | setProperty s _ _ => s
  | setAttribute s _ _ => s
  | flushNested s => s
  | connect s _ _ => s
  | createText s _ => s
  | setText s _ => s
  | appendChild parent _ => parent

def name : Op → String
  | createElement .. => "create"
  | adoptRoot .. => "adopt"
  | attach .. => "attach"
  | setProperty .. => "prop"
  | setAttribute .. => "attr"
  | flushNested .. => "flush"
  | connect .. => "on"
  | createText .. => "text"
  | setText .. => "set-text"
  | appendChild .. => "append"

/-- A slot by its name, or by its number when it has none. -/
def slotText (names : List String) (s : Slot) : String :=
  names[s]?.getD s!"n{s}"

/-- The line of an instruction in a listing. -/
def describe (names : List String) : Op → String
  | createElement s tag ns =>
    let kind := if ns = .html then tag else s!"{ns.name}:{tag}"
    s!"{slotText names s} = create <{kind}>"
  | adoptRoot s => s!"{slotText names s} = adopt root"
  | attach s name => s!"attach {slotText names s} as '{name}'"
  | setProperty s path value => s!"{slotText names s}.{path.display} = {value.label}"
  | setAttribute s name value => s!"{slotText names s}[{name}] = {value.label}"
  | flushNested s => s!"flush {slotText names s}"
  | connect s event handler => s!"on {slotText names s} '{event}' -> {handler.describe}"
  | createText s value => s!"{slotText names s} = text {value.label}"
  | setText s value => s!"{slotText names s}.text = {value.label}"
  | appendChild parent child => s!"append {slotText names child} to {slotText names parent}"

end Op

end LiveMarkup
