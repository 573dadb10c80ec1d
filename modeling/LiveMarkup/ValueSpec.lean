import LiveMarkup.Component

namespace LiveMarkup

/-- How a value is computed from a component: by an expression in its properties, or by any function of what
can be read of it. -/
inductive Formula where
  | expr (e : Expr)
  | computed (f : Sight → Except Fault Value)

def Formula.eval (sight : Sight) : Formula → Except Fault Value
  | .expr e => e.eval sight.get .null
  | .computed f => f sight

/-- A value that never comes about. -/
def Formula.fail (detail : String) : Formula :=
  .computed fun _ => .error (.failed detail)

/-- A formula with the label it has in listings. -/
structure Computation where
  label : String
  formula : Formula

/-- A computation and the properties whose change makes it run again. -/
structure ValueSpec where
  value : Computation
  deps : List String

def ValueSpec.constant (v : Value) : ValueSpec :=
  ⟨⟨v.label, .expr (.literal v)⟩, []⟩

def ValueSpec.property (name : String) : ValueSpec :=
  ⟨⟨name, .expr (.prop name)⟩, [name]⟩

def Expr.toSpec (e : Expr) (label : String) : ValueSpec :=
  ⟨⟨label, .expr e⟩, e.deps⟩

end LiveMarkup
