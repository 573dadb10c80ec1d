import LiveMarkup.Proofs.BuildRenders
import LiveMarkup.Proofs.Targets

namespace LiveMarkup

theorem Document.element?_modifyElement (d : Document) (n : NodeId) (f : Element → Element) :
    (d.modifyElement n f).element? n = (d.element? n).map f := by
  simp only [element?, modifyElement, modifyNode, Array.getElem?_modify, ↓reduceIte]
  cases d.nodes[n]? with
  | none => rfl
  | some node =>
    obtain ⟨kind, parent, children⟩ := node
    cases kind <;> rfl

/-- The attribute that a property of the name shows in. -/
def reflectedIn? (name : String) : Option String :=
  (reflection? name).map Reflection.attr

namespace Element

variable (owner : ComponentId) (e : Element) (name : String)

/-- A callback is stored as a property, and shows where that property does. -/
theorem write_callback (c : Callback) :
    e.write owner (.attr name) (.callback c) = { e with
      attrs := e.attrs.putAt (reflectedIn? name)
        ((reflection? name).bind fun r => r.text? (.callback (c.bind owner)))
      props := e.props.insert name (.callback (c.bind owner)) } := by
  simp only [write, setProperty, reflectedIn?]
  cases reflection? name with
  | none => rfl
  | some r =>
    simp only [reflect_eq]
    rfl

/-- A value that is no callback is shown in the attribute alone. -/
theorem write_inert {v : Value} (hv : v.Inert) :
    e.write owner (.attr name) v = { e with attrs := e.attrs.put name (Target.text? (.attr name) v) } :=
  e.write_eq owner (.attr name) hv

theorem write_callback_callback (c d : Callback) :
    (e.write owner (.attr name) (.callback c)).write owner (.attr name) (.callback d) =
      e.write owner (.attr name) (.callback d) := by
  simp only [write_callback, Dict.putAt_putAt_self, Element.mk.injEq, true_and, and_true]
  exact e.props.put_put_self name (some _) (some _)

/-- After a callback the node keeps it as a property, and in the attribute where that property shows if that is
another one. -/
theorem write_callback_inert (c : Callback) {w : Value} (hw : w.Inert) :
    ((e.write owner (.attr name) (.callback c)).write owner (.attr name) w).props =
        (e.write owner (.attr name) w).props.insert name (.callback (c.bind owner)) ∧
    ∀ a, ((e.write owner (.attr name) (.callback c)).write owner (.attr name) w).attrs.get? a =
      if a ≠ name ∧ reflectedIn? name = some a then (e.write owner (.attr name) (.callback c)).attrs.get? a
      else (e.write owner (.attr name) w).attrs.get? a := by
  rw [write_inert owner (e.write owner _ _) name hw, write_inert owner e name hw, write_callback]
  refine ⟨rfl, fun a => ?_⟩
  rw [Dict.get?_put, Dict.get?_put]
  by_cases ha : a = name
  · rw [if_pos ha, if_neg fun h => h.1 ha, if_pos ha]
  · rw [if_neg ha, if_neg ha]
    cases hreflected : reflectedIn? name with
    | none => rw [if_neg fun h => (nomatch h.2), Dict.putAt]
    | some attr =>
      rw [Dict.putAt, Dict.get?_put]
      by_cases hattr : a = attr
      · rw [if_pos hattr, if_pos ⟨ha, congrArg some hattr.symm⟩]
      · rw [if_neg hattr, if_neg fun h => hattr (Option.some.inj h.2).symm]

/-- A callback takes the place of another value where its property shows in the attribute of that name. -/
theorem write_inert_callback {v : Value} (hv : v.Inert) (c : Callback) (hreflected : reflectedIn? name = some name) :
    (e.write owner (.attr name) v).write owner (.attr name) (.callback c) =
      e.write owner (.attr name) (.callback c) := by
  simp only [write_inert _ _ _ hv, write_callback, hreflected]
  rw [Dict.putAt, Dict.put_put_self, Dict.putAt]

/-- Elsewhere the attribute stays as it was for the other value. -/
theorem write_inert_callback_left {v : Value} (hv : v.Inert) (c : Callback) (hreflected : reflectedIn? name ≠ some name) :
    ((e.write owner (.attr name) v).write owner (.attr name) (.callback c)).props =
        (e.write owner (.attr name) (.callback c)).props ∧
    ((e.write owner (.attr name) v).write owner (.attr name) (.callback c)).attrs =
      (e.write owner (.attr name) (.callback c)).attrs.put name ((e.write owner (.attr name) v).attrs.get? name) := by
  rw [write_inert owner e name hv, write_callback, write_callback]
  refine ⟨rfl, ?_⟩
  rw [Dict.get?_put, if_pos rfl]
  exact Dict.putAt_comm e.attrs (k := some name) _ _ fun x hx hx' => hreflected (hx'.trans hx.symm)

end Element

theorem Value.callback_of_not_inert {v : Value} (h : ¬v.Inert) : ∃ c, v = .callback c := by
  cases v with
  | callback c => exact ⟨c, rfl⟩
  | _ => exact absurd trivial h

namespace Instance

variable {i : Instance} {s : Slot} {n : NodeId} {p : Page} {e : Element} {v : Value}

/-- An attribute step on an element that is no custom one. -/
theorem exec_setAttribute (host : Host) (name : String) (value : Computation) (hn : i.node s = .ok n)
    (hcustom : p.isCustom n = false) (he : p.document.element? n = some e)
    (hv : p.eval i.component value.formula = .ok v) :
    ∃ step q, i.exec host (.setAttribute s name value) p = some (step, q) ∧ step.fault = none ∧
      q.document.element? n = some (e.write i.component (.attr name) v) := by
  obtain ⟨edit, hexec⟩ := execLocal_target_ok (.attr name) hcustom hn hv
  refine ⟨_, _, (exec_local rfl).mpr hexec, rfl, ?_⟩
  rw [Document.element?_modifyElement, he, Option.map_some]

end Instance

/-- An attribute step runs for `v` on a node, and later for `w` on the node as it was left, or else only for `w` on
the node as it was. The node is the same in the end if the values are both callbacks or both are not, or if the
second is a callback whose property shows in the attribute itself. After a callback and another value the node
keeps the callback as a property, and in the attribute where that shows if it is another one. After another value
and a callback that shows elsewhere the attribute stays as it was for the first. All else is the same. -/
theorem attribute_step_leaves_other_kind (host : Host) (i : Instance) (s : Slot) (name : String)
    (value : Computation) {n : NodeId} (hn : i.node s = .ok n) {p : Page} {e : Element} {v : Value} (w : Value)
    (hp : p.isCustom n = false) (he : p.document.element? n = some e)
    (hv : p.eval i.component value.formula = .ok v) :
    ∃ step q e₁, i.exec host (.setAttribute s name value) p = some (step, q) ∧ q.document.element? n = some e₁ ∧
      ∀ p₂ p₃ : Page, p₂.isCustom n = false → p₃.isCustom n = false →
        p₂.document.element? n = some e₁ → p₃.document.element? n = some e →
        p₂.eval i.component value.formula = .ok w → p₃.eval i.component value.formula = .ok w →
        ∃ step₂ q₂ e₂ step₃ q₃ e₃,
          i.exec host (.setAttribute s name value) p₂ = some (step₂, q₂) ∧ q₂.document.element? n = some e₂ ∧
          i.exec host (.setAttribute s name value) p₃ = some (step₃, q₃) ∧ q₃.document.element? n = some e₃ ∧
          (((v.Inert ↔ w.Inert) ∨ ¬w.Inert ∧ reflectedIn? name = some name) →
            e₂.attrs = e₃.attrs ∧ e₂.props = e₃.props) ∧
          (¬v.Inert → w.Inert → e₂.props = e₃.props.insert name (v.bound i.component) ∧
            ∀ a, e₂.attrs.get? a =
              if a ≠ name ∧ reflectedIn? name = some a then e₁.attrs.get? a else e₃.attrs.get? a) ∧
          (v.Inert → ¬w.Inert → reflectedIn? name ≠ some name → e₂.props = e₃.props ∧
            e₂.attrs = e₃.attrs.put name (e₁.attrs.get? name)) := by
  obtain ⟨step, q, hexec, -, he₁⟩ := Instance.exec_setAttribute host name value hn hp he hv
  refine ⟨step, q, _, hexec, he₁, fun p₂ p₃ hp₂ hp₃ he₂ he₃ hw₂ hw₃ => ?_⟩
  obtain ⟨step₂, q₂, hexec₂, -, he₂⟩ := Instance.exec_setAttribute host name value hn hp₂ he₂ hw₂
  obtain ⟨step₃, q₃, hexec₃, -, he₃⟩ := Instance.exec_setAttribute host name value hn hp₃ he₃ hw₃
  refine ⟨step₂, q₂, _, step₃, q₃, _, hexec₂, he₂, hexec₃, he₃, ?_, fun hv hw => ?_, fun hv hw hreflected => ?_⟩
  · by_cases hw : w.Inert
    · rintro (hsame | ⟨hnot, -⟩)
      · rw [e.write_write_self i.component (.attr name) (hsame.mpr hw) hw]
        exact ⟨rfl, rfl⟩
      · exact absurd hw hnot
    · obtain ⟨d, rfl⟩ := Value.callback_of_not_inert hw
      intro h
      by_cases hv : v.Inert
      · have hreflected : reflectedIn? name = some name := (h.resolve_left fun hsame => hw (hsame.mp hv)).2
        rw [e.write_inert_callback i.component name hv d hreflected]
        exact ⟨rfl, rfl⟩
      · obtain ⟨c, rfl⟩ := Value.callback_of_not_inert hv
        rw [e.write_callback_callback]
        exact ⟨rfl, rfl⟩
  · obtain ⟨c, rfl⟩ := Value.callback_of_not_inert hv
    exact e.write_callback_inert i.component name c hw
  · obtain ⟨d, rfl⟩ := Value.callback_of_not_inert hw
    exact e.write_inert_callback_left i.component name hv d hreflected

/-- A page with an empty paragraph, where the property of the component is the one of `sampleCallback`. -/
def samplePlate (v : Value) : Page :=
  { samplePage [("f", v)] with document := Document.empty.push (.element (.ofTag "p" .html)) }

def samplePlateInstance : Instance :=
  ⟨sampleCallbackTemplate, 0, [some 0], 0, .caller⟩

def samplePlateValue : Computation :=
  (ValueSpec.property "f").value

theorem samplePlate_plain (v : Value) : (samplePlate v).Plain :=
  ⟨rfl, rfl⟩

theorem attribute_step_leaves_other_kind_samplePlate :
    samplePlateInstance.node 0 = .ok 0 ∧
    ∃ step q e₁ step₂ q₂ e₂ step₃ q₃ e₃,
      samplePlateInstance.exec (hostTo 1) (.setAttribute 0 "x" samplePlateValue) (samplePlate (.callback ⟨0, none⟩)) =
        some (step, q) ∧ q.document.element? 0 = some e₁ ∧
      samplePlateInstance.exec (hostTo 1) (.setAttribute 0 "x" samplePlateValue)
        { samplePlate (.text "s") with document := q.document } = some (step₂, q₂) ∧
      q₂.document.element? 0 = some e₂ ∧
      samplePlateInstance.exec (hostTo 1) (.setAttribute 0 "x" samplePlateValue) (samplePlate (.text "s")) =
        some (step₃, q₃) ∧ q₃.document.element? 0 = some e₃ ∧
      e₂.props = e₃.props.insert "x" (.callback ⟨0, some 0⟩) ∧ e₂.attrs.get? "x" = e₃.attrs.get? "x" := by
  refine ⟨rfl, ?_⟩
  obtain ⟨step, q, e₁, hexec, he₁, hlater⟩ := attribute_step_leaves_other_kind (hostTo 1) samplePlateInstance 0 "x"
    samplePlateValue rfl (.text "s") ((samplePlate_plain (.callback ⟨0, none⟩)).isCustom 0) rfl rfl
  obtain ⟨step₂, q₂, e₂, step₃, q₃, e₃, hexec₂, he₂, hexec₃, he₃, -, hleft, -⟩ :=
    hlater { samplePlate (.text "s") with document := q.document } (samplePlate (.text "s")) rfl rfl he₁ rfl rfl rfl
  obtain ⟨hprops, hattrs⟩ := hleft (fun h => h) trivial
  exact ⟨step, q, e₁, step₂, q₂, e₂, step₃, q₃, e₃, hexec, he₁, hexec₂, he₂, hexec₃, he₃, hprops, hattrs "x"⟩

/-- An attribute that is no property and had a callback does not forget it: when the value is a text, the paragraph
has a property that it would not have had without the callback. -/
theorem text_leaves_callback_property :
    resolvedPath? none "p" .html "x" = none ∧
    ⟨["f"], .setAttribute 0 "x" samplePlateValue, false⟩ ∈ sampleCallbackTemplate.refresh ∧
    (∀ v, (samplePlate v).Plain) ∧
    ∃ step q step₂ q₂ e₂ step₃ q₃ e₃,
      samplePlateInstance.exec (hostTo 1) (.setAttribute 0 "x" samplePlateValue) (samplePlate (.callback ⟨0, none⟩)) =
        some (step, q) ∧
      samplePlateInstance.exec (hostTo 1) (.setAttribute 0 "x" samplePlateValue)
        { samplePlate (.text "s") with document := q.document } = some (step₂, q₂) ∧
      q₂.document.element? 0 = some e₂ ∧
      samplePlateInstance.exec (hostTo 1) (.setAttribute 0 "x" samplePlateValue) (samplePlate (.text "s")) =
        some (step₃, q₃) ∧ q₃.document.element? 0 = some e₃ ∧ e₂.props ≠ e₃.props := by
  refine ⟨rfl, List.mem_singleton.mpr rfl, samplePlate_plain, ?_⟩
  obtain ⟨step, q, hexec, -, he₁⟩ := Instance.exec_setAttribute (hostTo 1) "x" samplePlateValue
    (i := samplePlateInstance) (s := 0) (n := 0) (v := .callback ⟨0, none⟩) rfl
    ((samplePlate_plain (.callback ⟨0, none⟩)).isCustom 0) rfl rfl
  obtain ⟨step₂, q₂, hexec₂, -, he₂⟩ := Instance.exec_setAttribute (hostTo 1) "x" samplePlateValue
    (i := samplePlateInstance) (s := 0) (n := 0) (v := .text "s")
    (p := { samplePlate (.text "s") with document := q.document }) rfl rfl he₁ rfl
  obtain ⟨step₃, q₃, hexec₃, -, he₃⟩ := Instance.exec_setAttribute (hostTo 1) "x" samplePlateValue
    (i := samplePlateInstance) (s := 0) (n := 0) (v := .text "s") rfl ((samplePlate_plain (.text "s")).isCustom 0)
    rfl rfl
  refine ⟨step, q, step₂, q₂, _, step₃, q₃, _, hexec, hexec₂, he₂, hexec₃, he₃, fun heq => ?_⟩
  exact absurd (congrArg (Dict.contains · "x") heq) (by decide)

end LiveMarkup
