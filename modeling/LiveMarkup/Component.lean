import LiveMarkup.Dict
import LiveMarkup.Script

namespace LiveMarkup

/-- The state a template shows: named properties and methods, the nodes the template exposed, and the
names of the properties changed since they were last taken. -/
structure Component where
  name : String
  props : Dict Value
  methods : Dict Script
  attachPoints : Dict Nat
  pending : Names
deriving Inhabited

/-- What is seen of a component by whoever may read it and not change it. -/
structure Sight where
  name : String
  propNames : List String
  get : String → Value
  methods : Dict Script
  attachPoints : Dict Nat
  pending : Names

/-- Of a component of which nothing else is known, what its properties read as. -/
def Sight.ofReads (get : String → Value) : Sight :=
  ⟨"", [], get, Dict.empty, Dict.empty, Dict.empty⟩

instance : Coe (String → Value) Sight := ⟨Sight.ofReads⟩

namespace Component

def named (name : String) : Component :=
  ⟨name, Dict.empty, Dict.empty, Dict.empty, Dict.empty⟩

/-- Gives a property its first value, which is no change. -/
def withProp (c : Component) (name : String) (v : Value) : Component :=
  { c with props := c.props.insert name v }

def withMethod (c : Component) (name : String) (s : Script) : Component :=
  { c with methods := c.methods.insert name s }

/-- Missing properties read as `null`. -/
def get (c : Component) (name : String) : Value :=
  (c.props.get? name).getD .null

def has (c : Component) (name : String) : Bool :=
  c.props.contains name

/-- Whether setting a property to `v` would change it. -/
def differs (c : Component) (name : String) (v : Value) : Bool :=
  match c.props.get? name with
  | some old => !(old == v)
  | none => true

def notify (c : Component) (name : String) : Component :=
  { c with pending := c.pending.add name }

/-- Sets a property and records the change, unless the value is equal to the one it has. -/
def set (c : Component) (name : String) (v : Value) : Component :=
  if c.differs name v then (c.withProp name v).notify name else c

def attach (c : Component) (name : String) (node : Nat) : Component :=
  { c with attachPoints := c.attachPoints.insert name node }

def clearChanges (c : Component) : Component :=
  { c with pending := Dict.empty }

/-- All that can be read of a component: its name, the names and the values of its properties, its methods,
the nodes it exposes and its pending changes. -/
def sight (c : Component) : Sight :=
  ⟨c.name, c.props.keys, c.get, c.methods, c.attachPoints, c.pending⟩

def describeList (items : List String) : String :=
  String.intercalate ", " items

/-- A component on one line. -/
def describe (c : Component) : String :=
  let props := describeList (c.props.entries.map fun e => s!"{quoted e.1}: {e.2.describe}")
  let methods := describeList (c.methods.keys.map quoted)
  let pending := describeList (c.pending.keys.map quoted)
  s!"Component \x7b name: {quoted c.name}, props: \x7b{props}\x7d, methods: [{methods}], pending: \x7b{pending}\x7d \x7d"

end Component

/-- Who may use a component at the moment. A running update has it for itself. -/
inductive Access where
  | free
  | shared
  | exclusive
deriving DecidableEq, Repr, Inhabited

/-- A component, its access, and whether anyone still holds it. -/
structure Cell where
  component : Component
  access : Access
  attached : Bool
deriving Inhabited

/-- What a component starts out as. -/
structure Blueprint where
  name : String
  props : List (String × Operand)
  methods : List (String × Script)

/-- The names of the properties a component starts out with, in ascending order. -/
def Blueprint.propNames (b : Blueprint) : List String :=
  (Names.ofList (b.props.map (·.1))).keys

end LiveMarkup
