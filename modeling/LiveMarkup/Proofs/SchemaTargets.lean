import LiveMarkup.Proofs.Resolution
import LiveMarkup.Proofs.Targets
import Mathlib.Data.List.Nodup

namespace LiveMarkup

variable {ns : Namespace} {a b k name tag : String} {path : PropertyPath} {r : Reflection}

theorem Dict.mem_of_get?_foldl {α : Type u} {pairs : List (String × α)} {d : Dict α} {v : α}
    (h : (pairs.foldl (fun d e => d.insert e.1 e.2) d).get? k = some v) : (k, v) ∈ pairs ∨ d.get? k = some v := by
  induction pairs generalizing d with
  | nil => exact Or.inr h
  | cons e rest ih =>
    rcases ih h with hmem | hget
    · exact Or.inl (List.mem_cons_of_mem _ hmem)
    · rw [Dict.get?_insert] at hget
      split at hget
      next hk =>
        cases hget
        exact Or.inl (hk ▸ List.mem_cons_self)
      next => exact Or.inr hget

theorem Dict.isSome_get?_foldl {α : Type u} {pairs : List (String × α)} {d : Dict α}
    (h : k ∈ pairs.map (·.1) ∨ (d.get? k).isSome) : ((pairs.foldl (fun d e => d.insert e.1 e.2) d).get? k).isSome := by
  induction pairs generalizing d with
  | nil => exact h.resolve_left List.not_mem_nil
  | cons e rest ih =>
    apply ih
    rw [Dict.get?_insert]
    by_cases hk : k = e.1
    · simp [hk]
    · simpa [hk] using h

namespace PropertyMap

theorem get?_addAlias {m : PropertyMap} {a : String × String} (h : (m.addAlias a).get? k = some path) :
    m.get? k = some path ∨ k = a.1 ∧ m.get? (lowerCase a.2) = some path := by
  unfold addAlias at h
  split at h
  next found hfound =>
    rw [Dict.get?_insert] at h
    split at h
    next hk =>
      cases h
      exact Or.inr ⟨hk, hfound⟩
    next => exact Or.inl h
  next => exact Or.inl h

theorem isSome_get?_addAlias {m : PropertyMap} {a : String × String}
    (h : (m.get? k).isSome ∨ k = a.1 ∧ (m.get? (lowerCase a.2)).isSome) : ((m.addAlias a).get? k).isSome := by
  unfold addAlias
  split
  next found hfound =>
    rw [Dict.get?_insert]
    split
    · rfl
    next hk => exact h.resolve_right fun hc => hk hc.1
  next hfound => exact h.resolve_right fun hc => by simp [hfound] at hc

/-- The map of an element before the aliases. -/
def ofNames (names : List String) : PropertyMap :=
  Dict.ofList (names.map fun name => (lowerCase name, schemaPath name))

theorem get?_ofNames {names : List String} (h : (ofNames names).get? k = some path) :
    ∃ name ∈ names, path = schemaPath name ∧ k = lowerCase name := by
  obtain ⟨name, hname, heq⟩ := List.mem_map.mp ((Dict.mem_of_get?_foldl h).resolve_right nofun)
  cases heq
  exact ⟨name, hname, rfl, rfl⟩

theorem isSome_get?_ofNames {names : List String} (h : name ∈ names) : ((ofNames names).get? (lowerCase name)).isSome :=
  Dict.isSome_get?_foldl (Or.inl (by simpa using ⟨name, h, rfl⟩))

theorem ofTag_eq (tag : String) (ns : Namespace) : ofTag tag ns =
    ((ofNames (propertyNames tag ns)).addAlias ("class", "className")).addAlias ("for", "htmlFor") :=
  rfl

/-- The attributes of an element name its properties, in lower case or by an alias. -/
theorem get?_ofTag (h : (ofTag tag ns).get? k = some path) :
    ∃ name ∈ propertyNames tag ns, path = schemaPath name ∧
      (k = lowerCase name ∨ k = "class" ∧ lowerCase name = "classname" ∨
        k = "for" ∧ lowerCase name = "htmlfor") := by
  rw [ofTag_eq] at h
  rcases get?_addAlias h with h | ⟨hk, h⟩
  · rcases get?_addAlias h with h | ⟨hk, h⟩
    · obtain ⟨name, hname, hpath, hk⟩ := get?_ofNames h
      exact ⟨name, hname, hpath, Or.inl hk⟩
    · obtain ⟨name, hname, hpath, hlower⟩ := get?_ofNames h
      exact ⟨name, hname, hpath, Or.inr (Or.inl ⟨hk, hlower.symm⟩)⟩
  · rcases get?_addAlias h with h | ⟨hclass, -⟩
    · obtain ⟨name, hname, hpath, hlower⟩ := get?_ofNames h
      exact ⟨name, hname, hpath, Or.inr (Or.inr ⟨hk, hlower.symm⟩)⟩
    · exact absurd hclass (by decide)

theorem isSome_get?_ofTag (h : name ∈ propertyNames tag ns) : ((ofTag tag ns).get? (lowerCase name)).isSome :=
  isSome_get?_addAlias (Or.inl (isSome_get?_addAlias (Or.inl (isSome_get?_ofNames h))))

theorem isSome_get?_class (h : "className" ∈ propertyNames tag ns) : ((ofTag tag ns).get? "class").isSome :=
  isSome_get?_addAlias (Or.inl (isSome_get?_addAlias (Or.inr ⟨rfl, isSome_get?_ofNames h⟩)))

theorem isSome_get?_for (h : "htmlFor" ∈ propertyNames tag ns) : ((ofTag tag ns).get? "for").isSome :=
  isSome_get?_addAlias (Or.inr ⟨rfl, isSome_get?_addAlias (Or.inl (isSome_get?_ofNames h))⟩)

end PropertyMap

/-- No property has the name under which the style text is stored. -/
theorem cssText_not_mem_propertyNames (tag : String) (ns : Namespace) :
    "style.cssText" ∉ propertyNames tag ns := by
  have hown : ∀ row ∈ ownProperties, "style.cssText" ∉ row.2 := by decide
  have helement : "style.cssText" ∉ elementProperties tag := by
    unfold elementProperties
    cases hrow : ownProperties.find? fun row => row.1.contains tag with
    | none => exact List.not_mem_nil
    | some row => exact hown row (List.mem_of_find?_eq_some hrow)
  unfold propertyNames
  split
  · rw [List.mem_append]
    rintro (h | h)
    · exact absurd h (by decide)
    · exact helement h
  · decide

theorem display_schemaPath (name : String) :
    (schemaPath name).display = if name = "style" then "style.cssText" else name := by
  unfold schemaPath
  split
  · decide
  · simp [PropertyPath.display, PropertyPath.single]

/-- The properties of an element are stored under different names. -/
theorem schemaPath_inj (ha : a ∈ propertyNames tag ns) (hb : b ∈ propertyNames tag ns)
    (h : (schemaPath a).display = (schemaPath b).display) : a = b := by
  have hcss := cssText_not_mem_propertyNames tag ns
  rw [display_schemaPath, display_schemaPath] at h
  split at h <;> split at h
  next ha' hb' => rw [ha', hb']
  next => exact absurd (h ▸ hb) hcss
  next => exact absurd (h ▸ ha) hcss
  next => exact h

/-- A property shows in the attribute with its name in lower case, or in that of its alias. -/
theorem reflection_attr : ∀ e ∈ reflections, e.2.attr = lowerCase e.1 ∨
    e = ("className", .text "class") ∨ e = ("htmlFor", .text "for") ∨ e = ("style.cssText", .text "style") := by
  decide

theorem lowerCase_reflection_attr : ∀ e ∈ reflections, lowerCase e.2.attr = e.2.attr := by
  decide

theorem className_of_isClassList : ∀ e ∈ reflections, isClassList e.2.attr = true → e.1 = "className" := by
  decide

theorem mem_reflections {key : String} (h : reflection? key = some r) : (key, r) ∈ reflections := by
  obtain ⟨e, he, rfl⟩ := Option.map_eq_some_iff.mp h
  have hkey : e.1 = key := by simpa using List.find?_some he
  exact hkey ▸ List.mem_of_find?_eq_some he

/-- Without declared properties an attribute sets a property of the schema. Outside HTML that is never the
class. -/
theorem resolvedPath?_undeclared {attr : String} (h : resolvedPath? none tag ns attr = some path) :
    ∃ name ∈ propertyNames tag ns, path = schemaPath name ∧ (ns ≠ .html → name ≠ "className") := by
  unfold resolvedPath? at h
  split at h
  · cases h
  next hclass =>
    cases hget : (PropertyMap.ofTag tag ns).get? (lowerCase attr) with
    | none => simp [hget, declaredPath?] at h
    | some found =>
      simp only [hget, Option.some.injEq] at h
      subst h
      obtain ⟨name, hname, hpath, hkey⟩ := PropertyMap.get?_ofTag hget
      refine ⟨name, hname, hpath, ?_⟩
      rintro hns rfl
      have hnot : isClassList attr = false := by simpa [hns] using hclass
      rcases hkey with hkey | ⟨hkey, -⟩ | ⟨-, hlower⟩
      · have : lowerCase attr = "classname" := hkey.trans (by decide)
        simp [isClassList, this] at hnot
      · simp [isClassList, hkey] at hnot
      · exact absurd hlower (by decide)

/-- The attribute a property shows in is in the map of its element. -/
theorem isSome_get?_reflected (hname : name ∈ propertyNames tag ns)
    (hr : reflection? (schemaPath name).display = some r) : ((PropertyMap.ofTag tag ns).get? r.attr).isSome := by
  rw [display_schemaPath] at hr
  split at hr
  next hstyle =>
    have : reflection? "style.cssText" = some (.text "style") := by decide
    cases this.symm.trans hr
    have hget := PropertyMap.isSome_get?_ofTag hname
    rw [hstyle, show lowerCase "style" = "style" by decide] at hget
    exact hget
  next =>
    rcases reflection_attr _ (mem_reflections hr) with hattr | heq | heq | heq
    · rw [hattr]
      exact PropertyMap.isSome_get?_ofTag hname
    · cases heq
      exact PropertyMap.isSome_get?_class hname
    · cases heq
      exact PropertyMap.isSome_get?_for hname
    · cases heq
      exact absurd hname (cssText_not_mem_propertyNames tag ns)

/-- The attribute a property shows in names a property itself. -/
theorem resolvedPath?_reflected (hname : name ∈ propertyNames tag ns) (hns : ns ≠ .html → name ≠ "className")
    (hr : reflection? (schemaPath name).display = some r) : (resolvedPath? none tag ns r.attr).isSome := by
  have hmem := mem_reflections hr
  have hlower := lowerCase_reflection_attr _ hmem
  have hclass := className_of_isClassList _ hmem
  obtain ⟨path, hpath⟩ := Option.isSome_iff_exists.mp (isSome_get?_reflected hname hr)
  unfold resolvedPath?
  rw [hlower, hpath]
  split
  next h =>
    obtain ⟨hforeign, hlist⟩ : ns ≠ .html ∧ isClassList r.attr = true := by simpa using h
    have hdisplay : (schemaPath name).display = "className" := hclass hlist
    rw [display_schemaPath] at hdisplay
    split at hdisplay
    · exact absurd hdisplay (by decide)
    · exact absurd hdisplay (hns hforeign)
  next => rfl

theorem reflection?_inj {key key' : String} {r' : Reflection} (h : reflection? key = some r)
    (h' : reflection? key' = some r') (hattr : r.attr = r'.attr) : key = key' := by
  have hnodup : (reflections.map (·.2.attr)).Nodup := by decide
  exact congrArg Prod.fst
    (List.inj_on_of_nodup_map hnodup (mem_reflections h) (mem_reflections h') hattr)

/-- The attribute that reflects a property would itself have set the property. -/
theorem property_apart_attr (ha : resolvedPath? none tag ns a = some path) (hb : resolvedPath? none tag ns b = none) :
    (Target.property path).Apart (.attr b) := by
  obtain ⟨name, hname, rfl, hns⟩ := resolvedPath?_undeclared ha
  refine ⟨fun key _ hkey => by simp [Target.property?] at hkey, fun attr hattr hattr' => ?_⟩
  obtain ⟨r, hr, rfl⟩ := Option.map_eq_some_iff.mp hattr
  have hresolved := resolvedPath?_reflected hname hns hr
  rw [← Option.some.inj hattr', hb] at hresolved
  cases hresolved

/-- Declared properties count in HTML only. -/
theorem resolvedPath?_congr {declared declared' : Option (List String)} (h : ns = .html → declared = declared')
    (tag attr : String) : resolvedPath? declared tag ns attr = resolvedPath? declared' tag ns attr := by
  by_cases hns : ns = .html
  · rw [h hns]
  · simp only [resolvedPath?, hns, ↓reduceIte]

/-- Where no properties are declared, different targets of one element share nothing. -/
theorem attributeTarget_apart {declared : Declarations} (hdeclared : ns = .html → declared tag = none)
    (hne : attributeTarget declared tag ns a ≠ attributeTarget declared tag ns b) :
    (attributeTarget declared tag ns a).Apart (attributeTarget declared tag ns b) := by
  unfold attributeTarget at hne ⊢
  simp only [resolvedPath?_congr hdeclared] at hne ⊢
  cases ha : resolvedPath? none tag ns a with
  | some path =>
    cases hb : resolvedPath? none tag ns b with
    | some path' =>
      obtain ⟨name, hname, rfl, -⟩ := resolvedPath?_undeclared ha
      obtain ⟨name', hname', rfl, -⟩ := resolvedPath?_undeclared hb
      simp only [ha, hb] at hne ⊢
      have hdisplay : (schemaPath name).display ≠ (schemaPath name').display := fun heq =>
        hne (by rw [schemaPath_inj hname hname' heq])
      refine ⟨fun key hkey hkey' => ?_, fun attr hattr hattr' => ?_⟩
      · exact hdisplay ((Option.some.inj hkey).trans (Option.some.inj hkey').symm)
      · obtain ⟨r, hr, rfl⟩ := Option.map_eq_some_iff.mp hattr
        obtain ⟨r', hr', hsame⟩ := Option.map_eq_some_iff.mp hattr'
        exact hdisplay (reflection?_inj hr hr' hsame.symm)
    | none => exact property_apart_attr ha hb
  | none =>
    cases hb : resolvedPath? none tag ns b with
    | some path' => exact (property_apart_attr hb ha).symm
    | none =>
      simp only [ha, hb] at hne ⊢
      refine ⟨fun key hkey => by simp [Target.property?] at hkey, fun attr hattr hattr' => ?_⟩
      exact hne (congrArg Target.attr ((Option.some.inj hattr).trans (Option.some.inj hattr').symm))

end LiveMarkup
