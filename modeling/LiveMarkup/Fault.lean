namespace LiveMarkup

/-- Why one computation, callback or handler failed. The step that needed it is reported and skipped. -/
inductive Fault where
  | type (detail : String)
  | unknownMethod (name : String)
  | detached
  | busy
  | failed (detail : String)
deriving DecidableEq, Repr

def Fault.message : Fault → String
  | .type detail => s!"type error: {detail}"
  | .unknownMethod name => s!"component has no method named '{name}'"
  | .detached => "owning component is no longer alive"
  | .busy => "component is already borrowed by a running update"
  | .failed detail => detail

end LiveMarkup
