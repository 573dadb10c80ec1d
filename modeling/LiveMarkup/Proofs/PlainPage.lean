import LiveMarkup.Proofs.Dict
import LiveMarkup.Proofs.Exec
import LiveMarkup.Template.Plan

namespace LiveMarkup

variable {p : Page} {n : NodeId}

/-- A write to a plain node is stored on it. -/
theorem Page.setProperty_of_not_custom (h : p.isCustom n = false) (path : PropertyPath) (v : Value) :
    p.setProperty n path v = { p with document := p.document.setProperty n path v } := by
  have hdeclares : p.declares n path.head = false := by simp [Page.declares, h]
  simp [Page.setProperty, hdeclares]

theorem Page.custom?_eq_none (hp : p.elements = []) (n : NodeId) : p.custom? n = none := by
  rw [Page.custom?, hp]
  rfl

theorem Page.isCustom_eq_false (hp : p.elements = []) (n : NodeId) : p.isCustom n = false := by
  rw [Page.isCustom, Page.custom?_eq_none hp n]
  rfl

/-- A page without custom elements: none live on it and no tag is defined as one. -/
structure Page.Plain (p : Page) : Prop where
  undefined : p.registry = Dict.empty
  lifeless : p.elements = []

namespace Page.Plain

theorem custom? (hp : p.Plain) (n : NodeId) : p.custom? n = none :=
  Page.custom?_eq_none hp.lifeless n

theorem isCustom (hp : p.Plain) (n : NodeId) : p.isCustom n = false :=
  Page.isCustom_eq_false hp.lifeless n

end Page.Plain

/-- On a plain page a new element is nothing but a new node, and a flush does nothing. -/
structure Host.ServesPlain (host : Host) : Prop where
  create : ∀ tag ns p, p.Plain → host.create tag ns p =
    some (p.document.size, { p with document := p.document.push (.element (.ofTag tag ns)) })
  flush : ∀ n p, p.Plain → host.flush n p = some (.ok 0, p)

theorem hostTo_servesPlain (depth : Nat) : (hostTo (depth + 1)).ServesPlain where
  create tag ns p hp := by
    change createElementWith (hostTo depth) tag ns p = _
    simp only [createElementWith, Act.bind_eq_some, Act.get_eq_some, Act.set_eq_some]
    refine ⟨p, p, ⟨rfl, rfl⟩, (), _, rfl, ?_⟩
    rw [hp.undefined]
    split <;> rfl
  flush n p hp := by
    change flushWith (hostTo depth) n p = _
    simp only [flushWith, Act.bind_eq_some, Act.get_eq_some]
    refine ⟨p, p, ⟨rfl, rfl⟩, ?_⟩
    rw [hp.custom? n]
    rfl

/-- Writes a value to what an attribute names. Where that is no property, a callback is one all the same,
`true` an empty attribute, any other true value its text, and a false value no attribute. -/
def Element.write (owner : ComponentId) (e : Element) : Target → Value → Element
  | .property path, v => e.setProperty path.display (v.bound owner)
  | .attr name, .callback c => e.setProperty name (.callback (c.bind owner))
  | .attr name, .bool true => { e with attrs := e.attrs.insert name "" }
  | .attr name, v =>
    if v.truthy then { e with attrs := e.attrs.insert name v.display }
    else { e with attrs := e.attrs.erase name }

/-- A value that could not be computed is not written. -/
def Element.show (owner : ComponentId) (e : Element) (target : Target) : Except Fault Value → Element
  | .ok v => e.write owner target v
  | .error _ => e

namespace Instance

theorem execLocal_target_error {i : Instance} {s : Slot} {value : Computation} {f : Fault} (target : Target)
    (hn : i.node s = .ok n) (hf : p.eval i.component value.formula = .error f) :
    i.execLocal (target.op s value) p = (⟨i, some f, none⟩, p) := by
  cases target <;> simp only [Target.op, execLocal, hn, hf, skip]

theorem execLocal_target_ok {i : Instance} {s : Slot} {value : Computation} {v : Value} (target : Target)
    (hcustom : p.isCustom n = false) (hn : i.node s = .ok n) (hv : p.eval i.component value.formula = .ok v) :
    ∃ edit, i.execLocal (target.op s value) p = (⟨i, none, edit⟩,
      { p with document := p.document.modifyElement n fun e => e.write i.component target v }) := by
  cases target with
  | property path =>
    simp only [Target.op, execLocal, hn, hv, writeProperty, Page.setProperty_of_not_custom hcustom]
    exact ⟨_, rfl⟩
  | attr name =>
    simp only [Target.op, execLocal, hn, hv]
    cases v with
    | callback cb =>
      simp only [writeAttribute, writeProperty, Page.setProperty_of_not_custom hcustom, Document.setProperty]
      exact ⟨_, rfl⟩
    | bool b =>
      cases b with
      | true => exact ⟨_, rfl⟩
      | false => exact ⟨_, rfl⟩
    | null => exact ⟨_, rfl⟩
    | number x =>
      simp only [writeAttribute, Element.write]
      split <;> exact ⟨_, rfl⟩
    | text t =>
      simp only [writeAttribute, Element.write]
      split <;> exact ⟨_, rfl⟩

end Instance

end LiveMarkup
