import LiveMarkup.Proofs.Dict
import LiveMarkup.Template.Plan
import LiveMarkup.Template.Compile

namespace LiveMarkup

/-- The property an attribute sets, from the schema and the declared properties alone. -/
def resolvedPath? (declared : Option (List String)) (tag : String) (ns : Namespace) (attr : String) :
    Option PropertyPath :=
  if ns ≠ .html && isClassList attr then none
  else match (PropertyMap.ofTag tag ns).get? (lowerCase attr) with
    | some path => some path
    | none => if ns = .html then declaredPath? declared attr else none

/-- What an attribute of an element writes to. -/
def attributeTarget (declared : Declarations) (tag : String) (ns : Namespace) (name : String) : Target :=
  match resolvedPath? (declared tag) tag ns name with
  | some path => .property path
  | none => .attr name

theorem PropertyMaps.find?_eq_ofTag {maps : PropertyMaps} {tag : String} {ns : Namespace} {m : PropertyMap}
    (h : maps.find? tag ns = some m) : m = PropertyMap.ofTag tag ns := by
  obtain ⟨e, he, rfl⟩ := Option.map_eq_some_iff.mp h
  have hkey : e.1 = (tag, ns) := by simpa using List.find?_some he
  rw [maps.faithful e (List.mem_of_find?_eq_some he), hkey]

theorem PropertyMaps.get_fst (maps : PropertyMaps) (tag : String) (ns : Namespace) :
    (maps.get tag ns).1 = PropertyMap.ofTag tag ns := by
  unfold PropertyMaps.get
  split
  next h => exact PropertyMaps.find?_eq_ofTag h
  next => rfl

/-- The maps looked up before make no difference to what an attribute sets. -/
theorem resolve_fst (declared : Option (List String)) (maps : PropertyMaps) (tag : String)
    (ns : Namespace) (attr : String) :
    (resolve declared maps tag ns attr).1 = resolvedPath? declared tag ns attr := by
  unfold resolve resolvedPath?
  split
  · rfl
  · rw [← PropertyMaps.get_fst maps tag ns]
    rcases maps.get tag ns with ⟨m, maps'⟩
    cases hm : m.get? (lowerCase attr) <;> simp [hm]

end LiveMarkup
