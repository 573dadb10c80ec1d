import LiveMarkup.Interpolation
import LiveMarkup.Proofs.Targets

namespace LiveMarkup

mutual

/-- An expression depends on nothing but the properties it names and the event. -/
theorem Expr.eval_congr {read read' : String → Value} {event : Value} :
    ∀ (e : Expr), (∀ n ∈ e.names, read n = read' n) → e.eval read event = e.eval read' event
  | .literal _, _ => rfl
  | .prop name, h => congrArg Except.ok (h name List.mem_cons_self)
  | .event, _ => rfl
  | .not e, h => by rw [Expr.eval, Expr.eval, Expr.eval_congr e h]
  | .binary op l r, h => by
    rw [Expr.eval, Expr.eval, Expr.eval_congr l fun n hn => h n (List.mem_append_left _ hn),
      Expr.eval_congr r fun n hn => h n (List.mem_append_right _ hn)]
  | .concat parts, h => by rw [Expr.eval, Expr.eval, Expr.evalTexts_congr parts h]

theorem Expr.evalTexts_congr {read read' : String → Value} {event : Value} :
    ∀ (parts : List Expr), (∀ n ∈ Expr.namesOf parts, read n = read' n) →
      Expr.evalTexts read event parts = Expr.evalTexts read' event parts
  | [], _ => rfl
  | e :: rest, h => by
    rw [Expr.evalTexts, Expr.evalTexts, Expr.eval_congr e fun n hn => h n (List.mem_append_left _ hn),
      Expr.evalTexts_congr rest fun n hn => h n (List.mem_append_right _ hn)]

end

mutual

/-- No callback is written in the expression. -/
def Expr.CallbackFree : Expr → Prop
  | .literal v => v.Inert
  | .prop _ => True
  | .event => True
  | .not e => e.CallbackFree
  | .binary _ l r => l.CallbackFree ∧ r.CallbackFree
  | .concat parts => Expr.AllCallbackFree parts

def Expr.AllCallbackFree : List Expr → Prop
  | [] => True
  | e :: rest => e.CallbackFree ∧ Expr.AllCallbackFree rest

end

theorem BinOp.apply_inert {op : BinOp} {l r v : Value} (hr : r.Inert) (h : op.apply l r = .ok v) : v.Inert := by
  cases op with
  | or => cases h; exact hr
  | and => cases h; exact hr
  | eq => cases h; trivial
  | ne => cases h; trivial
  | add =>
    simp only [BinOp.apply, Value.add] at h
    split at h <;> cases h <;> trivial
  | sub =>
    simp only [BinOp.apply, Value.sub] at h
    split at h <;> cases h
    trivial

theorem except_bind_eq_ok {x : Except Fault α} {f : α → Except Fault β} {b : β} :
    (x >>= f) = .ok b ↔ ∃ a, x = .ok a ∧ f a = .ok b := by
  cases x with
  | error fault =>
    constructor
    · exact fun h => nomatch h
    · rintro ⟨_, heq, -⟩
      cases heq
  | ok a =>
    constructor
    · exact fun h => ⟨a, rfl, h⟩
    · rintro ⟨_, heq, h⟩
      cases heq
      exact h

/-- Where no callback can be read, none is the value of an expression without callbacks. -/
theorem Expr.eval_inert {read : String → Value} {event v : Value} (hread : ∀ n, (read n).Inert)
    (hevent : event.Inert) {e : Expr} (he : e.CallbackFree) (h : e.eval read event = .ok v) : v.Inert := by
  match e with
  | .literal w => cases h; exact he
  | .prop name => cases h; exact hread name
  | .event => cases h; exact hevent
  | .not e =>
    obtain ⟨w, -, heq⟩ := except_bind_eq_ok.mp h
    cases heq
    trivial
  | .binary op l r =>
    obtain ⟨left, hl, h⟩ := except_bind_eq_ok.mp h
    split at h
    · cases h
      exact Expr.eval_inert hread hevent he.1 hl
    · obtain ⟨right, hr, h⟩ := except_bind_eq_ok.mp h
      exact BinOp.apply_inert (Expr.eval_inert hread hevent he.2 hr) h
  | .concat parts =>
    obtain ⟨s, -, heq⟩ := except_bind_eq_ok.mp h
    cases heq
    trivial

/-- A spec written in the expression language. -/
inductive ValueSpec.FromLanguage : ValueSpec → Prop where
  | constant (v : Value) : FromLanguage (.constant v)
  | property (name : String) : FromLanguage (.property name)
  | expression (e : Expr) (label : String) : FromLanguage (e.toSpec label)
  | interpolated {source : String} {spec : ValueSpec} (h : ValueSpec.ofInterpolated source = .ok spec) :
      FromLanguage spec

/-- Of a component, the formula sees the properties only. -/
def Formula.OfProperties (f : Formula) : Prop :=
  ∀ s s' : Sight, s.get = s'.get → f.eval s = f.eval s'

/-- Where no callback can be read, the formula gives none. -/
def Formula.CallbackFree : Formula → Prop
  | .expr e => e.CallbackFree
  | .computed f => ∀ sight, (∀ n, (sight.get n).Inert) → ∀ v, f sight = .ok v → v.Inert

/-- The value of a spec where the properties are read so, and nothing else is. -/
def ValueSpec.evalIn (read : String → Value) (spec : ValueSpec) : Except Fault Value :=
  spec.value.formula.eval read

namespace ValueSpec

theorem reads_toSpec (e : Expr) (label : String) :
    ∃ e', (e.toSpec label).value.formula = .expr e' ∧ ∀ n ∈ e'.names, n ∈ (e.toSpec label).deps :=
  ⟨e, rfl, fun _ hn => mem_firstOccurrences.mpr hn⟩

/-- Everything a spec of the language reads is among its dependencies. -/
theorem FromLanguage.reads {spec : ValueSpec} (h : spec.FromLanguage) :
    ∃ e, spec.value.formula = .expr e ∧ ∀ n ∈ e.names, n ∈ spec.deps := by
  cases h with
  | constant v => exact ⟨_, rfl, fun _ hn => nomatch hn⟩
  | property name => exact ⟨_, rfl, fun _ hn => hn⟩
  | expression e label => exact reads_toSpec e label
  | @interpolated source _ h =>
    cases hparts : readSpans source (spans source.toList) with
    | error e =>
      rw [ofInterpolated, hparts] at h
      cases h
    | ok parts =>
      rw [ofInterpolated, hparts] at h
      cases h
      unfold ofParts
      split
      · exact ⟨_, rfl, fun _ hn => nomatch hn⟩
      · split
        · exact reads_toSpec _ _
        · exact reads_toSpec _ _

theorem FromLanguage.ofProperties {spec : ValueSpec} (h : spec.FromLanguage) : spec.value.formula.OfProperties := by
  obtain ⟨e, he, -⟩ := h.reads
  rw [he]
  exact fun s s' hget => congrArg (e.eval · .null) hget

theorem FromLanguage.evalIn_congr {spec : ValueSpec} (h : spec.FromLanguage) {read read' : String → Value}
    (hread : ∀ n ∈ spec.deps, read n = read' n) : spec.evalIn read = spec.evalIn read' := by
  obtain ⟨e, he, hnames⟩ := h.reads
  rw [evalIn, evalIn, he]
  exact e.eval_congr fun n hn => hread n (hnames n hn)

theorem evalIn_inert {spec : ValueSpec} (h : spec.value.formula.CallbackFree) {read : String → Value}
    (hread : ∀ n, (read n).Inert) {v : Value} (hv : spec.evalIn read = .ok v) : v.Inert := by
  unfold evalIn at hv
  generalize spec.value.formula = formula at h hv
  cases formula with
  | expr e => exact e.eval_inert hread (show Value.null.Inert from trivial) h hv
  | computed f => exact h (.ofReads read) hread v hv

end ValueSpec

end LiveMarkup
