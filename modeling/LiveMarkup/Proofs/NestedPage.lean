import LiveMarkup.Proofs.FlushOrder

namespace LiveMarkup

variable {p q r : Page} {n : NodeId} {strict : Prop} {w : Widget} {e : CustomElement}

/-- What a node is, wherever it stands. -/
def Document.kind? (d : Document) (n : NodeId) : Option NodeKind :=
  d.nodes[n]?.map (·.kind)

theorem Document.kind?_modifyNode_of_ne (d : Document) {x : NodeId} (h : x ≠ n) (f : Node → Node) :
    (d.modifyNode n f).kind? x = d.kind? x := by
  rw [kind?, modifyNode, Array.getElem?_modify, if_neg h.symm, kind?]

theorem Document.kind?_modifyNode (d : Document) (n x : NodeId) {f : Node → Node}
    (hf : ∀ node, (f node).kind = node.kind) : (d.modifyNode n f).kind? x = d.kind? x := by
  rw [kind?, modifyNode, Array.getElem?_modify, kind?]
  split
  · rw [Option.map_map]
    exact congrArg (Option.map · _) (funext hf)
  · rfl

theorem Document.size_modifyNode (d : Document) (n : NodeId) (f : Node → Node) :
    (d.modifyNode n f).size = d.size :=
  Array.size_modify

theorem Document.kind?_append (d : Document) (parent child x : NodeId) :
    (d.append parent child).kind? x = d.kind? x := by
  have hdetach : (d.detach child).kind? x = d.kind? x := by
    unfold detach
    split
    · rfl
    · rw [kind?_modifyNode, kind?_modifyNode]
      · exact fun _ => rfl
      · exact fun _ => rfl
  rw [append, kind?_modifyNode, kind?_modifyNode, hdetach]
  · exact fun _ => rfl
  · exact fun _ => rfl

theorem Document.size_append (d : Document) (parent child : NodeId) :
    (d.append parent child).size = d.size := by
  have hdetach : (d.detach child).size = d.size := by
    unfold detach
    split
    · rfl
    · rw [size_modifyNode, size_modifyNode]
  rw [append, size_modifyNode, size_modifyNode, hdetach]

theorem Document.size_push (d : Document) (kind : NodeKind) : (d.push kind).size = d.size + 1 :=
  Array.size_push ..

theorem Document.kind?_push_of_lt (d : Document) (kind : NodeKind) {x : NodeId} (h : x < d.size) :
    (d.push kind).kind? x = d.kind? x := by
  have hne : x ≠ d.nodes.size := Nat.ne_of_lt h
  rw [kind?, push, Array.getElem?_push, if_neg hne, kind?]

def Behaviour.widget? : Behaviour → Option Widget
  | .widget w => some w
  | .probe _ => none

namespace Page

/-- The widget behind a node. -/
def widget? (p : Page) (n : NodeId) : Option Widget :=
  (p.custom? n).bind fun e => e.behaviour.widget?

def IsBusy (p : Page) (n : NodeId) : Prop :=
  ∃ e, p.custom? n = some e ∧ e.busy = true

/-- The widget at the node has changes that its template has not been shown yet. -/
def IsPending (p : Page) (n : NodeId) : Prop :=
  ∃ w, p.widget? n = some w ∧ (p.component w.component).pending.isEmpty = false

/-- The template of the widget at `n` created the node `k`. -/
def Inside (p : Page) (n k : NodeId) : Prop :=
  ∃ w i s, p.widget? n = some w ∧ w.shown = some i ∧ s ≠ 0 ∧ i.node? s = some k

/-- The node `k` is `n`, or was created by the template of a widget within `n`. -/
def Within (p : Page) : NodeId → NodeId → Prop :=
  Relation.ReflTransGen p.Inside

def Defines (p : Page) (tag : String) : Prop :=
  p.registry.contains tag = true

theorem defines_of_get? {tag : String} {d : Definition} (h : p.registry.get? tag = some d) : p.Defines tag := by
  rw [Defines, Dict.contains, h]
  rfl

/-- The tags whose elements all templates look after. On a strict page these are the defined ones, and
otherwise there may be none. -/
def Tended (strict : Prop) (p : Page) (tag : String) : Prop :=
  strict ∧ p.Defines tag

/-- The same widgets and definitions, and as many nodes and components, which are used as before. -/
structure Alike (p q : Page) : Prop where
  registry : q.registry = p.registry
  widget? : ∀ n, q.widget? n = p.widget? n
  isCustom : ∀ n, q.isCustom n = p.isCustom n
  size : q.document.size = p.document.size
  count : q.components.size = p.components.size
  access : ∀ c, q.access c = p.access c

/-- Pages that are alike, and the same elements are busy. -/
structure Steady (p q : Page) : Prop extends p.Alike q where
  isBusy : ∀ n, q.IsBusy n ↔ p.IsBusy n

namespace Alike

theorem refl (p : Page) : p.Alike p :=
  ⟨rfl, fun _ => rfl, fun _ => rfl, rfl, rfl, fun _ => rfl⟩

theorem trans (h : p.Alike q) (h' : q.Alike r) : p.Alike r where
  registry := h'.registry.trans h.registry
  widget? n := (h'.widget? n).trans (h.widget? n)
  isCustom n := (h'.isCustom n).trans (h.isCustom n)
  size := h'.size.trans h.size
  count := h'.count.trans h.count
  access c := (h'.access c).trans (h.access c)

theorem inside (h : p.Alike q) : q.Inside = p.Inside := by
  funext n k
  simp only [Inside, h.widget?]

theorem within (h : p.Alike q) : q.Within = p.Within := by
  rw [Within, h.inside, Within]

theorem tended (h : p.Alike q) (strict : Prop) : q.Tended strict = p.Tended strict := by
  funext tag
  rw [Tended, Defines, h.registry, Tended, Defines]

end Alike

namespace Steady

theorem refl (p : Page) : p.Steady p :=
  ⟨.refl p, fun _ => Iff.rfl⟩

theorem trans (h : p.Steady q) (h' : q.Steady r) : p.Steady r :=
  ⟨h.toAlike.trans h'.toAlike, fun n => (h'.isBusy n).trans (h.isBusy n)⟩

theorem of_elements (hregistry : q.registry = p.registry) (helements : q.elements = p.elements)
    (hsize : q.document.size = p.document.size) (hcount : q.components.size = p.components.size)
    (haccess : ∀ c, q.access c = p.access c) : p.Steady q := by
  have hcustom : ∀ n, q.custom? n = p.custom? n := fun n => by rw [custom?, helements, custom?]
  exact ⟨⟨hregistry, fun n => by rw [Page.widget?, hcustom, Page.widget?],
    fun n => by rw [Page.isCustom, hcustom, Page.isCustom], hsize, hcount, haccess⟩,
    fun n => by rw [IsBusy, hcustom, IsBusy]⟩

end Steady

/-- What the widget at `n` shows: an instance of a template that looks after the elements it creates, all
of which come after `n`. -/
structure Housed (strict : Prop) (p : Page) (n : NodeId) (w : Widget) (i : Instance) : Prop where
  component : i.component = w.component
  tends : i.template.Tends (p.Tended strict)
  adopts : i.template.createsRoot = false
  root : i.node? 0 = some n
  inner : ∀ s k, s ≠ 0 → i.node? s = some k → n < k ∧ k < p.document.size
  flushed : strict → ∀ s k, s ≠ 0 → i.node? s = some k → p.isCustom k = true →
    .unconditional (.flushNested s) ∈ i.template.refresh

/-- A widget has a component of its own, and is connected unless it is busy. -/
structure Lives (strict : Prop) (p : Page) (n : NodeId) (w : Widget) : Prop where
  within : n < p.document.size
  owned : w.component < p.components.size
  free : p.access w.component = .free
  connected : ¬p.IsBusy n → ∃ i, w.shown = some i
  shown : ∀ i, w.shown = some i → p.Housed strict n w i

/-- All custom elements are widgets, each created by one template at most, and all tags are defined as
widgets. On a strict page their templates look after those tags. -/
structure WellNested (strict : Prop) (p : Page) : Prop where
  defined : ∀ tag d, p.registry.get? tag = some d →
    ∃ t initial, d.kind = .widget t initial ∧ t.createsRoot = false ∧ t.Tends (p.Tended strict)
  custom : ∀ n, p.isCustom n = true → ∃ w, p.widget? n = some w
  living : ∀ n w, p.widget? n = some w → p.Lives strict n w
  distinct : ∀ n n' w w', p.widget? n = some w → p.widget? n' = some w' → w.component = w'.component → n = n'
  unique : ∀ m m' k, p.Inside m k → p.Inside m' k → m = m'

theorem Housed.alike {i : Instance} (h : p.Housed strict n w i) (hq : p.Alike q) : q.Housed strict n w i where
  component := h.component
  tends := hq.tended strict ▸ h.tends
  adopts := h.adopts
  root := h.root
  inner s k hs hk := hq.size ▸ h.inner s k hs hk
  flushed hstrict s k hs hk hcustom := h.flushed hstrict s k hs hk (hq.isCustom k ▸ hcustom)

/-- Widgets may become busy at any time. -/
theorem WellNested.alike (h : p.WellNested strict) (hq : p.Alike q) (hbusy : ∀ n, p.IsBusy n → q.IsBusy n) :
    q.WellNested strict where
  defined := by
    rw [hq.registry, hq.tended]
    exact h.defined
  custom n hn := by
    rw [hq.widget?]
    exact h.custom n (hq.isCustom n ▸ hn)
  living n w hw := by
    have hlives := h.living n w (hq.widget? n ▸ hw)
    exact ⟨hq.size ▸ hlives.within, hq.count ▸ hlives.owned, (hq.access _).trans hlives.free,
      fun hn => hlives.connected fun hn' => hn (hbusy n hn'), fun i hi => (hlives.shown i hi).alike hq⟩
  distinct n n' w w' hw hw' := h.distinct n n' w w' (hq.widget? n ▸ hw) (hq.widget? n' ▸ hw')
  unique m m' k := by
    rw [hq.inside]
    exact h.unique m m' k

theorem WellNested.steady (h : p.WellNested strict) (hq : p.Steady q) : q.WellNested strict :=
  h.alike hq.toAlike fun n => (hq.isBusy n).mpr

theorem widget?_of_custom? (he : p.custom? n = some e) : p.widget? n = e.behaviour.widget? := by
  rw [widget?, he, Option.bind_some]

theorem isCustom_of_custom? (he : p.custom? n = some e) : p.isCustom n = true := by
  rw [isCustom, he]
  rfl

theorem isCustom_of_widget? (hw : p.widget? n = some w) : p.isCustom n = true := by
  obtain ⟨e, he, -⟩ := Option.bind_eq_some_iff.mp hw
  exact isCustom_of_custom? he

theorem WellNested.behaviour (h : p.WellNested strict) (he : p.custom? n = some e) :
    ∃ w, e.behaviour = .widget w ∧ p.widget? n = some w := by
  obtain ⟨w, hw⟩ := h.custom n (isCustom_of_custom? he)
  refine ⟨w, ?_, hw⟩
  rw [widget?_of_custom? he] at hw
  cases hb : e.behaviour with
  | widget w' =>
    rw [hb] at hw
    cases hw
    rfl
  | probe x =>
    rw [hb] at hw
    cases hw

/-- A write to the node `n`: it may change what the node is, and the component of its widget unless that
is busy, and it takes no pending changes away. -/
structure Touched (n : NodeId) (p q : Page) : Prop where
  steady : p.Steady q
  kinds : ∀ x, x ≠ n → q.document.kind? x = p.document.kind? x
  components : ∀ c, (q.component c).state ≠ (p.component c).state →
    ¬p.IsBusy n ∧ ∃ w, p.widget? n = some w ∧ w.component = c
  pending : ∀ c, (p.component c).pending.isEmpty = false → (q.component c).pending.isEmpty = false

theorem Touched.of_state (hsteady : p.Steady q) (hkinds : ∀ x, x ≠ n → q.document.kind? x = p.document.kind? x)
    (hstate : ∀ c, (q.component c).state = (p.component c).state) : p.Touched n q := by
  refine ⟨hsteady, hkinds, fun c hne => absurd (hstate c) hne, fun c h => ?_⟩
  have hpending : (q.component c).pending = (p.component c).pending := Component.pending_of_state (hstate c)
  rw [hpending]
  exact h

theorem Touched.refl (n : NodeId) (p : Page) : p.Touched n p :=
  .of_state (.refl p) (fun _ _ => rfl) fun _ => rfl

theorem Touched.trans (h : p.Touched n q) (h' : q.Touched n r) : p.Touched n r where
  steady := h.steady.trans h'.steady
  kinds x hx := (h'.kinds x hx).trans (h.kinds x hx)
  components c hc := by
    by_cases hsame : (q.component c).state = (p.component c).state
    · rw [← hsame] at hc
      obtain ⟨hbusy, w, hw, hwc⟩ := h'.components c hc
      exact ⟨fun hn => hbusy ((h.steady.isBusy n).mpr hn), w, h.steady.widget? n ▸ hw, hwc⟩
    · exact h.components c hsame
  pending c hc := h'.pending c (h.pending c hc)

/-- A change to the node `n` alone. -/
theorem Touched.document (p : Page) (n : NodeId) (f : Node → Node) :
    p.Touched n { p with document := p.document.modifyNode n f } :=
  .of_state (.of_elements rfl rfl (p.document.size_modifyNode n f) rfl fun _ => rfl)
    (fun _ hx => p.document.kind?_modifyNode_of_ne hx f) fun _ => rfl

end Page

theorem Dict.isEmpty_insert (d : Dict α) (k : String) (v : α) : (d.insert k v).isEmpty = false := by
  have hne : insertKey k v d.entries ≠ [] := by
    cases d.entries with
    | nil => simp [insertKey]
    | cons e rest =>
      obtain ⟨k', v'⟩ := e
      unfold insertKey
      split
      · simp
      · split <;> simp
  exact List.isEmpty_eq_false_iff.mpr hne

theorem Component.pending_set (c : Component) (name : String) (v : Value)
    (h : c.pending.isEmpty = false) : (c.set name v).pending.isEmpty = false := by
  unfold Component.set
  split
  · exact Dict.isEmpty_insert ..
  · exact h

namespace Page

theorem component_modifyComponent_of_ne (p : Page) {c c' : ComponentId} (h : c' ≠ c)
    (f : Component → Component) : (p.modifyComponent c f).component c' = p.component c' := by
  rw [component, cell_modifyComponent, if_neg fun hc => h hc.1.symm, component]

theorem writeWidget_touched (hw : p.widget? n = some w) (hbusy : ¬p.IsBusy n) (path : PropertyPath) (v : Value) :
    p.Touched n (p.writeWidget w path v) := by
  unfold writeWidget
  split
  · refine ⟨.of_elements rfl rfl rfl (p.size_modifyComponent _ _) fun c => p.access_modifyComponent _ c _,
      fun _ _ => rfl, fun c hne => ⟨hbusy, w, hw, ?_⟩, fun c h => ?_⟩
    · by_contra hc
      exact hne (congrArg Component.state (p.component_modifyComponent_of_ne (Ne.symm hc) _))
    · rw [component, cell_modifyComponent]
      split
      next hc =>
        rw [← hc.1] at h
        exact Component.pending_set _ _ _ h
      next => exact h
  · exact .of_state (.of_elements rfl rfl rfl rfl fun _ => rfl) (fun _ _ => rfl) fun _ => rfl

theorem setProperty_touched (hp : p.WellNested strict) (n : NodeId) (path : PropertyPath) (v : Value) :
    p.Touched n (p.setProperty n path v) := by
  unfold setProperty
  split
  · cases he : p.custom? n with
    | none => exact .refl n p
    | some e =>
      obtain ⟨w, hbehaviour, hw⟩ := hp.behaviour he
      dsimp only
      split
      next hbusy =>
        have hfree : ¬p.IsBusy n := by
          rintro ⟨e', he', hbusy'⟩
          rw [he] at he'
          cases he'
          simp [hbusy'] at hbusy
        rw [hbehaviour]
        exact writeWidget_touched hw hfree path v
      · split <;> exact .of_state (.of_elements rfl rfl rfl rfl fun _ => rfl) (fun _ _ => rfl) fun _ => rfl
  · exact .document p n _

end Page

theorem Op.InPlace.bound? {op : Op} (h : op.InPlace) : op.bound? = none := by
  cases op with
  | setProperty _ _ _ | setAttribute _ _ _ | flushNested _ | setText _ _ => rfl
  | _ => exact h.elim

namespace Instance

/-- An instruction that binds no slot and needs no host writes to its node, if it does anything, and changes
the state of a component only if it touches the slot. -/
theorem execLocal_touched (hp : p.WellNested strict) (i : Instance) {op : Op} (hop : op.bound? = none) :
    (i.execLocal op p).2 = p ∨ ∃ n, i.node? op.slot = some n ∧ p.Touched n (i.execLocal op p).2 ∧
      (op.touched? = some op.slot ∨
        ∀ c, ((i.execLocal op p).2.component c).state = (p.component c).state) := by
  obtain ⟨run, hrun, heq⟩ := i.execLocal_runs op p
  rw [heq]
  cases hrun with
  | nothing _ => exact Or.inl rfl
  | skip _ f => exact Or.inl rfl
  | @attach s n name hn =>
    have hstate : ∀ c, ((p.modifyComponent i.component (·.attach name n)).component c).state =
        (p.component c).state :=
      Page.modifyComponent_frame (g := Component.state) (f := (·.attach name n)) (fun _ => rfl) p i.component
    refine Or.inr ⟨n, hn, .of_state ?_ (fun _ _ => rfl) hstate, Or.inr hstate⟩
    exact .of_elements rfl rfl rfl (p.size_modifyComponent _ _) fun c => p.access_modifyComponent _ c _
  | property path hn hv => exact Or.inr ⟨_, hn, Page.setProperty_touched hp _ path _, Or.inl rfl⟩
  | callback name hn hv => exact Or.inr ⟨_, hn, Page.setProperty_touched hp _ _ _, Or.inl rfl⟩
  | attr value name text hn => exact Or.inr ⟨_, hn, .document p _ _, Or.inl rfl⟩
  | noAttr value name hn => exact Or.inr ⟨_, hn, .document p _ _, Or.inl rfl⟩
  | listener event handler hn => exact Or.inr ⟨_, hn, .document p _ _, Or.inr fun _ => rfl⟩
  | newText s value text fault => cases hop
  | text value text hn => exact Or.inr ⟨_, hn, .document p _ _, Or.inr fun _ => rfl⟩
  | @child _ _ a b ha hb =>
    refine Or.inr ⟨a, ha, ?_⟩
    simp only [Page.append]
    split
    · refine ⟨.of_state ?_ (fun x _ => p.document.kind?_append a b x) fun _ => rfl, Or.inr fun _ => rfl⟩
      exact .of_elements rfl rfl (p.document.size_append a b) rfl fun _ => rfl
    · exact ⟨.of_state (.of_elements rfl rfl rfl rfl fun _ => rfl) (fun _ _ => rfl) fun _ => rfl,
        Or.inr fun _ => rfl⟩

end Instance

end LiveMarkup
