import LiveMarkup.Dict
import LiveMarkup.Template.Op

namespace LiveMarkup

/-- An instruction that runs again when one of its dependencies changes, or at every refresh. -/
structure RefreshStep where
  deps : List String
  op : Op
  always : Bool

namespace RefreshStep

def unconditional (op : Op) : RefreshStep :=
  ⟨[], op, true⟩

/-- A step for every value that can change; a value without dependencies needs none. -/
def gated? (deps : List String) (op : Op) : Option RefreshStep :=
  if deps.isEmpty then none else some ⟨firstOccurrences deps, op, false⟩

def triggeredBy (step : RefreshStep) (changed : Names) : Bool :=
  step.always || step.deps.any changed.contains

def gateText (step : RefreshStep) : String :=
  if step.always then "*" else String.intercalate ", " step.deps

end RefreshStep

/-- A compiled template: the instructions that build an instance and the steps that keep it current. -/
structure Template where
  name : String
  slotNames : List String
  build : List Op
  refresh : List RefreshStep
  createsRoot : Bool

namespace Template

def slotName (t : Template) (s : Slot) : String :=
  t.slotNames[s]?.getD "?"

def listingLines (t : Template) : List String :=
  s!"template {t.name}" :: "build:" :: t.build.map (fun op => "  " ++ op.describe t.slotNames) ++
    "refresh:" :: t.refresh.map (fun step => s!"  [{step.gateText}] {step.op.describe t.slotNames}")

/-- The instructions of a template, one to a line. -/
def listing (t : Template) : String :=
  String.join (t.listingLines.map (· ++ "\n"))

end Template

end LiveMarkup
