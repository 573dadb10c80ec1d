import LiveMarkup.Proofs.PlainPage

namespace LiveMarkup

/-- A value that is no callback. -/
def Value.Inert : Value → Prop
  | .callback _ => False
  | _ => True

theorem Value.Inert.bound {v : Value} (h : v.Inert) (owner : Nat) : v.bound owner = v := by
  cases v with
  | callback c => exact h.elim
  | _ => rfl

/-- What an attribute shows of a property. -/
def Reflection.text? (r : Reflection) (v : Value) : Option String :=
  match r, v with
  | .text _, .null => none
  | .text _, v => some v.display
  | .flag _, v => if v.truthy then some "" else none

theorem Element.reflect_eq (e : Element) (r : Reflection) (v : Value) :
    e.reflect r v = { e with attrs := e.attrs.put r.attr (r.text? v) } := by
  cases r with
  | text attr => cases v <;> rfl
  | flag attr =>
    simp only [Element.reflect, Reflection.text?, Reflection.attr]
    split <;> rfl

namespace Target

/-- The property a target stores values in. -/
def property? : Target → Option String
  | .property path => some path.display
  | .attr _ => none

/-- The attribute a target shows values in. -/
def attribute? : Target → Option String
  | .property path => (reflection? path.display).map Reflection.attr
  | .attr name => some name

/-- What the attribute of a target has for a value. -/
def text? : Target → Value → Option String
  | .property path, v => (reflection? path.display).bind fun r => r.text? v
  | .attr _, .bool true => some ""
  | .attr _, v => if v.truthy then some v.display else none

/-- Targets that share neither a property nor an attribute. -/
def Apart (t t' : Target) : Prop :=
  (∀ key, t.property? = some key → t'.property? ≠ some key) ∧
    ∀ name, t.attribute? = some name → t'.attribute? ≠ some name

theorem Apart.symm {t t' : Target} (h : t.Apart t') : t'.Apart t :=
  ⟨fun key hkey hkey' => h.1 key hkey' hkey, fun name hname hname' => h.2 name hname' hname⟩

end Target

/-- Sets or removes the entry of a name, if there is a name. -/
def Dict.putAt {α : Type u} (d : Dict α) : Option String → Option α → Dict α
  | some k, v => d.put k v
  | none, _ => d

theorem Dict.putAt_putAt_self {α : Type u} (d : Dict α) (k : Option String) (v w : Option α) :
    (d.putAt k v).putAt k w = d.putAt k w := by
  cases k with
  | some k => exact d.put_put_self k v w
  | none => rfl

theorem Dict.putAt_comm {α : Type u} (d : Dict α) {k k' : Option String} (v v' : Option α)
    (h : ∀ x, k = some x → k' ≠ some x) : (d.putAt k v).putAt k' v' = (d.putAt k' v').putAt k v := by
  cases k with
  | none => rfl
  | some k =>
    cases k' with
    | none => rfl
    | some k' => exact d.put_comm v v' fun heq => h k rfl (heq ▸ rfl)

namespace Element

theorem write_eq (owner : ComponentId) (e : Element) (t : Target) {v : Value} (hv : v.Inert) :
    e.write owner t v = { e with
      attrs := e.attrs.putAt t.attribute? (t.text? v), props := e.props.putAt t.property? (some v) } := by
  cases t with
  | property path =>
    simp only [write, hv.bound, setProperty, Target.attribute?, Target.text?, Target.property?]
    cases reflection? path.display with
    | none => rfl
    | some r =>
      simp only [reflect_eq]
      rfl
  | attr name =>
    cases v with
    | callback c => exact hv.elim
    | bool b => cases b <;> rfl
    | null => rfl
    | number x =>
      simp only [write, Target.attribute?, Target.text?, Target.property?]
      split <;> rfl
    | text s =>
      simp only [write, Target.attribute?, Target.text?, Target.property?]
      split <;> rfl

theorem write_write_self (owner : ComponentId) (e : Element) (t : Target) {v w : Value} (hv : v.Inert)
    (hw : w.Inert) : (e.write owner t v).write owner t w = e.write owner t w := by
  simp only [write_eq owner _ t hv, write_eq owner _ t hw, Dict.putAt_putAt_self]

theorem write_comm (owner : ComponentId) (e : Element) {t t' : Target} (ht : t.Apart t') {v w : Value}
    (hv : v.Inert) (hw : w.Inert) :
    (e.write owner t v).write owner t' w = (e.write owner t' w).write owner t v := by
  simp only [write_eq owner _ t hv, write_eq owner _ t' hw]
  rw [Dict.putAt_comm _ _ _ ht.2, Dict.putAt_comm _ _ _ ht.1]

end Element

end LiveMarkup
