import LiveMarkup.Dict
import LiveMarkup.Schema

namespace LiveMarkup

/-- ASCII letters in lower case, all else as it is. -/
def lowerCase (s : String) : String :=
  String.ofList (s.toList.map Char.toLower)

/-- The property path of every attribute of one kind of element, by lower-case name. -/
abbrev PropertyMap := Dict PropertyPath

/-- The `style` property is set through the text it holds. -/
def schemaPath (name : String) : PropertyPath :=
  if name = "style" then .dotted "style.cssText" else .single name

def PropertyMap.addAlias (m : PropertyMap) (a : String × String) : PropertyMap :=
  match m.get? (lowerCase a.2) with
  | some path => m.insert a.1 path
  | none => m

def PropertyMap.ofTag (tag : String) (ns : Namespace) : PropertyMap :=
  attributeAliases.foldl PropertyMap.addAlias
    (Dict.ofList ((propertyNames tag ns).map fun name => (lowerCase name, schemaPath name)))

/-- The maps computed so far, each the one of its kind of element. -/
structure PropertyMaps where
  known : List ((String × Namespace) × PropertyMap)
  faithful : ∀ e ∈ known, e.2 = PropertyMap.ofTag e.1.1 e.1.2

def PropertyMaps.empty : PropertyMaps :=
  ⟨[], fun _ h => nomatch h⟩

instance : Inhabited PropertyMaps := ⟨.empty⟩

def PropertyMaps.find? (maps : PropertyMaps) (tag : String) (ns : Namespace) : Option PropertyMap :=
  (maps.known.find? fun e => e.1 == (tag, ns)).map (·.2)

/-- The maps with the one of a further kind of element. -/
def PropertyMaps.learn (maps : PropertyMaps) (tag : String) (ns : Namespace) : PropertyMaps where
  known := ((tag, ns), PropertyMap.ofTag tag ns) :: maps.known
  faithful := by
    intro e he
    rcases List.mem_cons.mp he with rfl | he
    · rfl
    · exact maps.faithful e he

/-- The map of a kind of element, computed the first time it is asked for. -/
def PropertyMaps.get (maps : PropertyMaps) (tag : String) (ns : Namespace) :
    PropertyMap × PropertyMaps :=
  match maps.find? tag ns with
  | some m => (m, maps)
  | none => (PropertyMap.ofTag tag ns, maps.learn tag ns)

def isClassList (attr : String) : Bool :=
  lowerCase attr == "class" || lowerCase attr == "classname"

/-- The declared property an attribute names, if any. -/
def declaredPath? (declared : Option (List String)) (attr : String) : Option PropertyPath :=
  ((declared.getD []).find? fun p => lowerCase p == lowerCase attr).map PropertyPath.single

/-- The property an attribute sets, or nothing when it is an attribute and no more. The schema is asked
first and the declared properties of a custom element after it. Outside HTML a class is always an
attribute and declarations do not count. -/
def resolve (declared : Option (List String)) (maps : PropertyMaps) (tag : String) (ns : Namespace)
    (attr : String) : Option PropertyPath × PropertyMaps :=
  if ns ≠ .html && isClassList attr then (none, maps)
  else
    let (m, maps) := maps.get tag ns
    match m.get? (lowerCase attr) with
    | some path => (some path, maps)
    | none => (if ns = .html then declaredPath? declared attr else none, maps)

end LiveMarkup
