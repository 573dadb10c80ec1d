import LiveMarkup.Proofs.SchemaTargets

namespace LiveMarkup

section Schema

variable {tag key name name' : String} {ns : Namespace}

/-- The property that an attribute, in lower case, asks for, in lower case. -/
def propertyKey (key : String) : String :=
  ((attributeAliases.find? fun a => a.1 == key).map fun a => lowerCase a.2).getD key

/-- The property of the schema that an attribute sets, found by going through their names. -/
def schemaPath? (tag : String) (ns : Namespace) (key : String) : Option PropertyPath :=
  ((propertyNames tag ns).find? fun name => lowerCase name == propertyKey key).map schemaPath

theorem propertyKey_class : propertyKey "class" = "classname" := by
  decide

theorem propertyKey_for : propertyKey "for" = "htmlfor" := by
  decide

theorem propertyKey_of_ne (hclass : key ≠ "class") (hfor : key ≠ "for") : propertyKey key = key := by
  simp [propertyKey, attributeAliases, Ne.symm hclass, Ne.symm hfor]

/-- What holds of the own properties of every kind of element, and of none, holds of those of any tag. -/
theorem elementProperties_of {P : List String → Prop} (hnone : P []) (hrows : ∀ row ∈ ownProperties, P row.2)
    (tag : String) : P (elementProperties tag) := by
  unfold elementProperties
  cases hrow : ownProperties.find? fun row => row.1.contains tag with
  | none => exact hnone
  | some row => exact hrows row (List.mem_of_find?_eq_some hrow)

/-- The properties of an element differ in more than their case. -/
theorem nodup_lowerCase_propertyNames (tag : String) (ns : Namespace) :
    ((propertyNames tag ns).map lowerCase).Nodup := by
  unfold propertyNames
  split
  · exact elementProperties_of (P := fun own => ((globalProperties ++ own).map lowerCase).Nodup)
      (by decide +kernel) (by decide +kernel) tag
  · decide +kernel

/-- No alias is also the name of a property. -/
theorem alias_not_mem_propertyNames (tag : String) (ns : Namespace) :
    ∀ a ∈ attributeAliases, a.1 ∉ (propertyNames tag ns).map lowerCase := by
  unfold propertyNames
  split
  · exact elementProperties_of
      (P := fun own => ∀ a ∈ attributeAliases, a.1 ∉ (globalProperties ++ own).map lowerCase)
      (by decide +kernel) (by decide +kernel) tag
  · decide +kernel

theorem eq_of_lowerCase_eq (h : name ∈ propertyNames tag ns) (h' : name' ∈ propertyNames tag ns)
    (heq : lowerCase name = lowerCase name') : name = name' :=
  List.inj_on_of_nodup_map (nodup_lowerCase_propertyNames tag ns) h h' heq

theorem propertyKey_lowerCase (h : name ∈ propertyNames tag ns) : propertyKey (lowerCase name) = lowerCase name := by
  have halias := alias_not_mem_propertyNames tag ns
  have hmem : lowerCase name ∈ (propertyNames tag ns).map lowerCase := List.mem_map_of_mem h
  refine propertyKey_of_ne (fun heq => ?_) fun heq => ?_
  · exact halias ("class", "className") (by decide) (heq ▸ hmem)
  · exact halias ("for", "htmlFor") (by decide) (heq ▸ hmem)

theorem schemaPath?_of_mem (h : name ∈ propertyNames tag ns) (hkey : propertyKey key = lowerCase name) :
    schemaPath? tag ns key = some (schemaPath name) := by
  unfold schemaPath?
  cases hfind : (propertyNames tag ns).find? fun name => lowerCase name == propertyKey key with
  | none => exact absurd hkey.symm (by simpa using List.find?_eq_none.mp hfind name h)
  | some found =>
    have hlower : lowerCase found = propertyKey key := by simpa using List.find?_some hfind
    rw [eq_of_lowerCase_eq (List.mem_of_find?_eq_some hfind) h (hlower.trans hkey), Option.map_some]

/-- The property that a name or an alias asks for is in the map. -/
theorem PropertyMap.isSome_get?_of_propertyKey (h : name ∈ propertyNames tag ns)
    (hkey : propertyKey key = lowerCase name) : ((PropertyMap.ofTag tag ns).get? key).isSome := by
  have hnamed := PropertyMap.isSome_get?_ofNames h
  rw [PropertyMap.ofTag_eq]
  by_cases hclass : key = "class"
  · subst hclass
    rw [← hkey, propertyKey_class] at hnamed
    exact isSome_get?_addAlias (Or.inl (isSome_get?_addAlias (Or.inr ⟨rfl, hnamed⟩)))
  · by_cases hfor : key = "for"
    · subst hfor
      rw [← hkey, propertyKey_for] at hnamed
      exact isSome_get?_addAlias (Or.inr ⟨rfl, isSome_get?_addAlias (Or.inl hnamed)⟩)
    · rw [← hkey, propertyKey_of_ne hclass hfor] at hnamed
      exact isSome_get?_addAlias (Or.inl (isSome_get?_addAlias (Or.inl hnamed)))

/-- The map of an element gives what going through the names of its properties gives. -/
theorem PropertyMap.get?_ofTag_eq (tag : String) (ns : Namespace) (key : String) :
    (PropertyMap.ofTag tag ns).get? key = schemaPath? tag ns key := by
  cases hget : (PropertyMap.ofTag tag ns).get? key with
  | some path =>
    obtain ⟨name, hname, rfl, hkey⟩ := PropertyMap.get?_ofTag hget
    refine (schemaPath?_of_mem hname ?_).symm
    rcases hkey with rfl | ⟨rfl, hlower⟩ | ⟨rfl, hlower⟩
    · exact propertyKey_lowerCase hname
    · rw [propertyKey_class, hlower]
    · rw [propertyKey_for, hlower]
  | none =>
    refine (Option.map_eq_none_iff.mpr (List.find?_eq_none.mpr fun name hname hkey => ?_)).symm
    have hsome := PropertyMap.isSome_get?_of_propertyKey hname (eq_of_beq hkey).symm
    rw [hget] at hsome
    cases hsome

end Schema

/-- What an attribute sets, from its name in lower case and the first definition of its tag: a property of
the schema, or else one that the definition declares. Outside HTML a class is always an attribute and
declarations do not count. -/
def resolution (tag : String) (ns : Namespace) (key : String) (d : Option Definition) : Option PropertyPath :=
  if ns = .html then
    (schemaPath? tag ns key).or
      ((((d.map Definition.properties).getD []).find? fun name => lowerCase name == key).map PropertyPath.single)
  else if propertyKey key = "classname" then none
  else schemaPath? tag ns key

theorem isClassList_iff (attr : String) : isClassList attr = true ↔ propertyKey (lowerCase attr) = "classname" := by
  unfold isClassList
  generalize lowerCase attr = key
  by_cases hclass : key = "class"
  · simp [hclass, propertyKey_class]
  · by_cases hfor : key = "for"
    · simp [hfor, propertyKey_for]
    · simp [hclass, propertyKey_of_ne hclass hfor]

theorem resolvedPath?_eq_resolution (d : Option Definition) (tag : String) (ns : Namespace) (attr : String) :
    resolvedPath? (d.map Definition.properties) tag ns attr = resolution tag ns (lowerCase attr) d := by
  unfold resolvedPath? resolution
  rw [PropertyMap.get?_ofTag_eq]
  by_cases hns : ns = .html
  · simp only [hns, ↓reduceIte, ne_eq, not_true_eq_false, decide_false, Bool.false_and, Bool.false_eq_true]
    cases schemaPath? tag .html (lowerCase attr) with
    | none => rfl
    | some path => rfl
  · by_cases hclass : isClassList attr = true
    · simp [hns, hclass, (isClassList_iff attr).mp hclass]
    · have hkey := mt (isClassList_iff attr).mpr hclass
      simp only [hns, hclass, hkey, ↓reduceIte, ne_eq, not_false_eq_true, decide_true, Bool.true_and,
        Bool.false_eq_true]
      cases schemaPath? tag ns (lowerCase attr) with
      | none => rfl
      | some path => rfl

namespace Page

def resolve (p : Page) (tag : String) (ns : Namespace) (attr : String) : Option PropertyPath × Page :=
  let (path?, maps) := LiveMarkup.resolve (p.registry.declared tag) p.maps tag ns attr
  (path?, { p with maps := maps })

def propertyMap (p : Page) (tag : String) (ns : Namespace) : PropertyMap × Page :=
  let (m, maps) := p.maps.get tag ns
  (m, { p with maps := maps })

theorem resolve_fst (p : Page) (tag : String) (ns : Namespace) (attr : String) :
    (p.resolve tag ns attr).1 = resolution tag ns (lowerCase attr) (p.registry.get? tag) := by
  rw [← resolvedPath?_eq_resolution, ← LiveMarkup.resolve_fst _ p.maps]
  rfl

/-- A definition leaves every tag with the one it had, and gives its own tag one only if it had none. -/
theorem get?_define (p : Page) (tag : String) (d : Definition) (tag' : String) :
    (p.define tag d).2.registry.get? tag' = (p.registry.get? tag').or (if tag = tag' then some d else none) := by
  unfold define
  by_cases hknown : p.registry.contains tag = true
  · obtain ⟨known, hd⟩ := Option.isSome_iff_exists.mp hknown
    rw [if_pos hknown]
    by_cases heq : tag = tag'
    · subst heq
      rw [hd]
      exact hd
    · rw [if_neg heq, Option.or_none]
      rfl
  · have hnone : p.registry.get? tag = none := Option.not_isSome_iff_eq_none.mp hknown
    rw [if_neg hknown]
    simp only [Dict.get?_insert]
    by_cases heq : tag = tag'
    · subst heq
      simp [hnone]
    · simp [heq, Ne.symm heq]

end Page

/-- What bears on resolution: attributes are resolved, maps are asked for, tags are defined. -/
inductive ResolverCall where
  | resolve (tag : String) (ns : Namespace) (attr : String)
  | propertyMap (tag : String) (ns : Namespace)
  | define (tag : String) (d : Definition)

namespace ResolverCall

def run (p : Page) : ResolverCall → Page
  | .resolve tag ns attr => (p.resolve tag ns attr).2
  | .propertyMap tag ns => (p.propertyMap tag ns).2
  | .define tag d => (p.define tag d).2

def runAll (p : Page) (calls : List ResolverCall) : Page :=
  calls.foldl run p

/-- What a call would define a tag as. -/
def definition? (tag : String) : ResolverCall → Option Definition
  | .define tag' d => if tag' = tag then some d else none
  | _ => none

def firstDefinition? (tag : String) (calls : List ResolverCall) : Option Definition :=
  calls.findSome? (definition? tag)

theorem get?_run (p : Page) (call : ResolverCall) (tag : String) :
    (call.run p).registry.get? tag = (p.registry.get? tag).or (call.definition? tag) := by
  cases call with
  | resolve tag' ns attr => exact (Option.or_none).symm
  | propertyMap tag' ns => exact (Option.or_none).symm
  | define tag' d => exact p.get?_define tag' d tag

theorem get?_runAll (p : Page) (calls : List ResolverCall) (tag : String) :
    (runAll p calls).registry.get? tag = (p.registry.get? tag).or (firstDefinition? tag calls) := by
  induction calls generalizing p with
  | nil => exact (Option.or_none).symm
  | cons call rest ih =>
    have hstep : (runAll (call.run p) rest).registry.get? tag =
        (p.registry.get? tag).or ((call.definition? tag).or (firstDefinition? tag rest)) := by
      rw [ih, get?_run, Option.or_assoc]
    refine hstep.trans (congrArg _ ?_)
    rw [firstDefinition?, firstDefinition?, List.findSome?_cons]
    cases call.definition? tag with
    | none => rfl
    | some d => rfl

/-- What an attribute sets after some calls. -/
def answerAfter (calls : List ResolverCall) (tag : String) (ns : Namespace) (attr : String) :
    Option PropertyPath :=
  ((runAll .empty calls).resolve tag ns attr).1

theorem answerAfter_eq (calls : List ResolverCall) (tag : String) (ns : Namespace) (attr : String) :
    answerAfter calls tag ns attr = resolution tag ns (lowerCase attr) (firstDefinition? tag calls) := by
  rw [answerAfter, Page.resolve_fst, get?_runAll]
  rfl

end ResolverCall

theorem propertyKey_of_alias {key name : String} (h : (key, name) ∈ attributeAliases) :
    propertyKey key = lowerCase name := by
  have hall : ∀ a ∈ attributeAliases, propertyKey a.1 = lowerCase a.2 := by decide
  exact hall _ h

/-- In HTML a property of the schema is set by its name or its alias, whatever the definition declares. -/
theorem resolution_of_schema {tag key name : String} (hname : name ∈ propertyNames tag .html)
    (hkey : key = lowerCase name ∨ (key, name) ∈ attributeAliases) (d : Option Definition) :
    resolution tag .html key d = some (schemaPath name) := by
  have hasked : propertyKey key = lowerCase name := by
    rcases hkey with rfl | halias
    · exact propertyKey_lowerCase hname
    · exact propertyKey_of_alias halias
  rw [resolution, if_pos rfl, schemaPath?_of_mem hname hasked]
  rfl

theorem resolution_foreign {ns : Namespace} (hns : ns ≠ .html) (tag key : String) (d : Option Definition) :
    resolution tag ns key d = if propertyKey key = "classname" then none else schemaPath? tag ns key := by
  rw [resolution, if_neg hns]

/-- Whatever was resolved, looked up and defined before, what an attribute sets depends on its tag, its
namespace, its name in lower case and the first definition of the tag. The case of the name makes no
difference; the schema and its aliases go before what is declared; and outside HTML a class sets no property
and declarations make no difference. -/
theorem resolution_ignores_history (calls : List ResolverCall) (tag : String) (ns : Namespace) (attr : String) :
    ResolverCall.answerAfter calls tag ns attr =
        resolution tag ns (lowerCase attr) (ResolverCall.firstDefinition? tag calls) ∧
      (∀ attr', lowerCase attr' = lowerCase attr →
        ResolverCall.answerAfter calls tag ns attr' = ResolverCall.answerAfter calls tag ns attr) ∧
      (ns = .html → ∀ name ∈ propertyNames tag ns,
        lowerCase attr = lowerCase name ∨ (lowerCase attr, name) ∈ attributeAliases →
        ResolverCall.answerAfter calls tag ns attr = some (schemaPath name)) ∧
      (ns ≠ .html →
        (lowerCase attr = "class" ∨ lowerCase attr = "classname" →
          ResolverCall.answerAfter calls tag ns attr = none) ∧
        ∀ d, ResolverCall.answerAfter calls tag ns attr = resolution tag ns (lowerCase attr) d) := by
  have hanswer := ResolverCall.answerAfter_eq calls tag ns
  refine ⟨hanswer attr, fun attr' hcase => ?_, fun hns name hname hkey => ?_,
    fun hns => ⟨fun hkey => ?_, fun d => ?_⟩⟩
  · rw [hanswer, hanswer, hcase]
  · subst hns
    rw [hanswer, resolution_of_schema hname hkey]
  · rw [hanswer, resolution_foreign hns, if_pos]
    rcases hkey with hkey | hkey
    · rw [hkey, propertyKey_class]
    · rw [hkey]
      decide
  · rw [hanswer, resolution_foreign hns, resolution_foreign hns]

/-- A tag is resolved before it is defined, with a map that is then known, and defined twice. -/
def sampleLateDefinition : List ResolverCall :=
  [.resolve "x-late" .html "level", .propertyMap "x-late" .svg,
    .define "x-late" ⟨["Level", "class"], .probe ⟨[], [], false, none, .display⟩⟩,
    .define "x-late" ⟨["depth"], .probe ⟨[], [], false, none, .display⟩⟩]

example : ["LEVEL", "depth", "Class"].map
      (ResolverCall.answerAfter sampleLateDefinition "x-late" .html) =
    [some (.single "Level"), none, some (.single "className")] := by
  decide +kernel

example : ["level", "class", "TABINDEX"].map
      (ResolverCall.answerAfter sampleLateDefinition "x-late" .svg) =
    [none, none, some (.single "tabIndex")] := by
  decide +kernel

end LiveMarkup
