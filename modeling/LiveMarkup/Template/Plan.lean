import LiveMarkup.PropertyMap
import LiveMarkup.Template.Basic
import LiveMarkup.Template.Node
import LiveMarkup.Text.UpperCase

namespace LiveMarkup

/-- Why a template was not compiled. -/
inductive CompileError where
  | missingTagOrExpression (path : String)
  | textWithElementParts (path : String)
  | textRoot
  | unknownNamespace (tag ns : String)
  | duplicateAttachPoint (name : String)
  | unknownHandler (tag event method : String)
deriving DecidableEq, Repr

def CompileError.message : CompileError → String
  | .missingTagOrExpression path => s!"node at {path} has neither a tag nor an expression"
  | .textWithElementParts path =>
    s!"text node at {path} carries attributes, events, attach points or children"
  | .textRoot => "the template root must be an element, not text"
  | .unknownNamespace tag ns => s!"unknown namespace '{ns}' on <{tag}>"
  | .duplicateAttachPoint name => s!"attach point '{name}' is declared on more than one node"
  | .unknownHandler tag event method =>
    s!"handler for '{event}' on <{tag}> names unknown method '{method}'"

/-- Which tags are components nested in a template: a test that is known by its address. -/
structure NestedTags where
  address : Nat
  holds : String → Bool

def NestedTags.hyphenated : NestedTags :=
  ⟨0, fun tag => tag.toList.contains '-'⟩

def NestedTags.capitalised : NestedTags :=
  ⟨1, fun tag => tag.toList.head?.any isUpperCase⟩

def NestedTags.every : NestedTags :=
  ⟨2, fun tag => tag ≠ ""⟩

def NestedTags.none : NestedTags :=
  ⟨3, fun _ => false⟩

instance : Inhabited NestedTags := ⟨.hyphenated⟩

/-- How a template is compiled. With `methods` given, a handler has to name one of them. -/
structure CompileOptions where
  name : String := "template"
  rootName : String := "root"
  createRoot : Bool := true
  nested : NestedTags := .hyphenated
  methods : Option Names := none
deriving Inhabited

/-- What an attribute writes to. -/
inductive Target where
  | property (path : PropertyPath)
  | attr (name : String)

def Target.op (slot : Slot) (value : Computation) : Target → Op
  | .property path => .setProperty slot path value
  | .attr name => .setAttribute slot name value

/-- An element with its slot and its attributes resolved. -/
structure PlanHead where
  slot : Slot
  created : Bool
  tag : String
  ns : Namespace
  attachPoints : List String
  attributes : List (Target × ValueSpec)
  nested : Bool
  events : List (String × Handler)

/-- A template with every slot assigned and every name resolved. -/
inductive Plan where
  | element (head : PlanHead) (children : List Plan)
  | text (slot : Slot) (spec : ValueSpec)

def Plan.slot : Plan → Slot
  | .element head _ => head.slot
  | .text slot _ => slot

def PlanHead.build (h : PlanHead) : List Op :=
  (if h.created then .createElement h.slot h.tag h.ns else .adoptRoot h.slot) ::
    h.attachPoints.map (Op.attach h.slot) ++
    h.attributes.map (fun a => a.1.op h.slot a.2.value) ++
    (if h.nested then [.flushNested h.slot] else []) ++
    h.events.map (fun e => .connect h.slot e.1 e.2)

def PlanHead.refresh (h : PlanHead) : List RefreshStep :=
  h.attributes.filterMap (fun a => RefreshStep.gated? a.2.deps (a.1.op h.slot a.2.value)) ++
    (if h.nested then [.unconditional (.flushNested h.slot)] else [])

mutual

/-- The instructions that build a plan. A child is complete before it joins its parent. -/
def Plan.build : Plan → List Op
  | .element head children => head.build ++ Plan.buildChildren head.slot children
  | .text slot spec => [.createText slot spec.value]

def Plan.buildChildren (parent : Slot) : List Plan → List Op
  | [] => []
  | child :: rest => child.build ++ .appendChild parent child.slot :: Plan.buildChildren parent rest

end

mutual

/-- The steps that keep a plan current. -/
def Plan.refresh : Plan → List RefreshStep
  | .element head children => head.refresh ++ Plan.refreshChildren children
  | .text slot spec => (RefreshStep.gated? spec.deps (.setText slot spec.value)).toList

def Plan.refreshChildren : List Plan → List RefreshStep
  | [] => []
  | child :: rest => child.refresh ++ Plan.refreshChildren rest

end

end LiveMarkup
