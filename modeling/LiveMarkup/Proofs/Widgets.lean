import LiveMarkup.Proofs.PageState
import LiveMarkup.Proofs.Shape
import LiveMarkup.Template.Compile

namespace LiveMarkup

variable {p q r : Page} {tag : String} {n : NodeId} {t : Template} {initial : Blueprint}

/-- A template that some compilation gave. -/
def Template.Compiled (t : Template) : Prop :=
  ∃ declared maps options node maps', compileWith declared maps options node = (.ok t, maps')

def Definition.IsWidget (d : Definition) : Prop :=
  ∃ t initial, d.kind = .widget t initial ∧ t.Compiled

/-- A widget of a compiled template, which is also what it shows. -/
def Behaviour.IsWidget (b : Behaviour) : Prop :=
  ∃ w : Widget, b = .widget w ∧ w.template.Compiled ∧ ∀ i, w.shown = some i → i.template.Compiled

/-- All tags are defined as components with compiled templates, and all custom elements are such. -/
structure Page.WidgetsOnly (p : Page) : Prop where
  defined : ∀ tag d, p.registry.get? tag = some d → d.IsWidget
  living : ∀ e ∈ p.elements, e.2.behaviour.IsWidget

namespace Page

theorem WidgetsOnly.congr (h : p.WidgetsOnly) (hregistry : q.registry = p.registry)
    (helements : q.elements = p.elements) : q.WidgetsOnly where
  defined := hregistry ▸ h.defined
  living := helements ▸ h.living

theorem WidgetsOnly.warn (h : p.WidgetsOnly) (message : String) : (p.warn message).WidgetsOnly :=
  h.congr rfl rfl

theorem WidgetsOnly.custom (h : p.WidgetsOnly) {e : CustomElement} (he : p.custom? n = some e) :
    e.behaviour.IsWidget := by
  obtain ⟨before, after, heq, -⟩ := List.lookup_eq_some_iff.mp he
  exact h.living (n, e) (by simp [heq])

theorem WidgetsOnly.add (h : p.WidgetsOnly) {e : CustomElement} (hregistry : q.registry = p.registry)
    (helements : q.elements = p.elements ++ [(n, e)]) (he : e.behaviour.IsWidget) : q.WidgetsOnly := by
  refine ⟨hregistry ▸ h.defined, fun e' he' => ?_⟩
  rw [helements] at he'
  rcases List.mem_append.mp he' with he' | he'
  · exact h.living e' he'
  · cases List.mem_singleton.mp he'
    exact he

theorem widgetsOnly_empty : Page.empty.WidgetsOnly where
  defined tag d h := by cases h
  living e h := by cases h

/-- Defining a tag as a component adds a definition, or no more than a warning if the tag has one. -/
theorem defineWidget_ok {fresh : Bool} (h : p.defineWidget tag t initial = .ok (fresh, q)) :
    t.createsRoot = false ∧ ((∃ message, q = p.warn message) ∨
      q = { p with registry := p.registry.insert tag ⟨initial.propNames, .widget t initial⟩ }) := by
  unfold Page.defineWidget Page.define at h
  cases hroot : t.createsRoot with
  | true =>
    rw [hroot] at h
    cases h
  | false =>
    rw [hroot] at h
    refine ⟨rfl, ?_⟩
    cases hknown : p.registry.contains tag with
    | true =>
      rw [hknown] at h
      cases h
      exact Or.inl ⟨_, rfl⟩
    | false =>
      rw [hknown] at h
      cases h
      exact Or.inr rfl

/-- Defining a tag as a component with a compiled template keeps a page to widgets. -/
theorem WidgetsOnly.defineWidget {fresh : Bool} (h : p.WidgetsOnly) (ht : t.Compiled)
    (hq : p.defineWidget tag t initial = .ok (fresh, q)) : q.WidgetsOnly := by
  obtain ⟨-, ⟨message, rfl⟩ | rfl⟩ := defineWidget_ok hq
  · exact h.congr rfl rfl
  · refine ⟨fun tag' d hd => ?_, h.living⟩
    rw [Dict.get?_insert] at hd
    split at hd
    · cases hd
      exact ⟨t, initial, rfl, ht⟩
    · exact h.defined tag' d hd

/-- What becomes of a page that has widgets only: so it stays, and where `frame` holds its document keeps its
shape and no component exposes other nodes. -/
structure Keeps (frame : Prop) (p q : Page) : Prop where
  widgets : q.WidgetsOnly
  shape : frame → q.document.shape = p.document.shape
  points : frame → ∀ c, q.points c = p.points c

theorem Keeps.refl {frame : Prop} (h : p.WidgetsOnly) : p.Keeps frame p :=
  ⟨h, fun _ => rfl, fun _ _ => rfl⟩

theorem Keeps.trans {frame : Prop} (h : p.Keeps frame q) (h' : q.Keeps frame r) : p.Keeps frame r :=
  ⟨h'.widgets, fun hframe => (h'.shape hframe).trans (h.shape hframe),
    fun hframe c => (h'.points hframe c).trans (h.points hframe c)⟩

theorem points_modifyComponent (p : Page) (c c' : ComponentId) {f : Component → Component}
    (hf : ∀ x, (f x).attachPoints = x.attachPoints) : (p.modifyComponent c f).points c' = p.points c' :=
  modifyComponent_frame (g := Component.attachPoints) hf p c c'

theorem writeBehaviour_keeps (h : p.WidgetsOnly) {b : Behaviour} (hb : b.IsWidget) (n : NodeId) (path : PropertyPath)
    (v : Value) : p.Keeps True (p.writeBehaviour n b path v) := by
  obtain ⟨w, rfl, -, -⟩ := hb
  simp only [writeBehaviour, writeWidget]
  split
  · refine ⟨h.congr rfl rfl, fun _ => rfl, fun _ c => p.points_modifyComponent w.component c fun x => ?_⟩
    unfold Component.set
    split <;> rfl
  · exact ⟨h.congr rfl rfl, fun _ => rfl, fun _ _ => rfl⟩

theorem setProperty_keeps (h : p.WidgetsOnly) (n : NodeId) (path : PropertyPath) (v : Value) :
    p.Keeps True (p.setProperty n path v) := by
  unfold setProperty
  split
  · split
    · exact .refl h
    next e he =>
      split
      · exact writeBehaviour_keeps h (h.custom he) n path v
      · split <;> exact ⟨h.congr rfl rfl, fun _ => rfl, fun _ _ => rfl⟩
  · exact ⟨h.congr rfl rfl, fun _ => p.document.shape_setProperty n path v, fun _ _ => rfl⟩

theorem applyWrites_keeps (h : p.WidgetsOnly) (n : NodeId) (writes : List DeferredWrite) :
    p.Keeps True (p.applyWrites n writes) := by
  induction writes generalizing p with
  | nil => exact .refl h
  | cons w rest ih =>
    unfold applyWrites
    split
    · exact ih h
    next e he =>
      split
      · have hwarn : p.Keeps True (p.warn (droppedWrite n w.path)) := ⟨h.congr rfl rfl, fun _ => rfl, fun _ _ => rfl⟩
        exact hwarn.trans (ih hwarn.widgets)
      · have hwrite := writeBehaviour_keeps h (h.custom he) n w.path w.value
        exact hwrite.trans (ih hwrite.widgets)

theorem applyDeferred_keeps (h : p.WidgetsOnly) (n : NodeId) : p.Keeps True (p.applyDeferred n) := by
  have hlist : p.Keeps True { p with deferred := p.deferred.filter fun w => w.node ≠ n } :=
    ⟨h.congr rfl rfl, fun _ => rfl, fun _ _ => rfl⟩
  exact hlist.trans (applyWrites_keeps hlist.widgets n _)

theorem WidgetsOnly.modifyCustom (h : p.WidgetsOnly) (n : NodeId) {f : CustomElement → CustomElement}
    (hf : ∀ e, e.behaviour.IsWidget → (f e).behaviour.IsWidget) : (p.modifyCustom n f).WidgetsOnly := by
  refine ⟨h.defined, fun e he => ?_⟩
  obtain ⟨old, hold, rfl⟩ := List.mem_map.mp he
  split
  · exact hf old.2 (h.living old hold)
  · exact h.living old hold

end Page

/-- The instruction changes nothing but the values nodes show. -/
def Op.InPlace : Op → Prop
  | .setProperty .. => True
  | .setAttribute .. => True
  | .flushNested _ => True
  | .setText .. => True
  | _ => False

namespace Instance

theorem execLocal_keeps (h : p.WidgetsOnly) (i : Instance) (op : Op) : p.Keeps op.InPlace (i.execLocal op p).2 := by
  obtain ⟨run, hrun, heq⟩ := i.execLocal_runs op p
  rw [heq]
  cases hrun with
  | nothing _ => exact .refl h
  | skip _ f => exact .refl h
  | attach name hn => exact ⟨h.congr rfl rfl, False.elim, False.elim⟩
  | property path hn hv => exact Page.setProperty_keeps h _ path _
  | callback name hn hv => exact Page.setProperty_keeps h _ _ _
  | attr value name text hn =>
    exact ⟨h.congr rfl rfl, fun _ => p.document.shape_setAttribute _ name text, fun _ _ => rfl⟩
  | noAttr value name hn => exact ⟨h.congr rfl rfl, fun _ => p.document.shape_removeAttribute _ name, fun _ _ => rfl⟩
  | listener event handler hn => exact ⟨h.congr rfl rfl, False.elim, False.elim⟩
  | newText s value text fault => exact ⟨h.congr rfl rfl, False.elim, False.elim⟩
  | text value text hn => exact ⟨h.congr rfl rfl, fun _ => p.document.shape_setText _ text, fun _ _ => rfl⟩
  | child ha hb =>
    refine ⟨?_, False.elim, False.elim⟩
    simp only [Page.append]
    split <;> exact h.congr rfl rfl

end Instance

section Hosts

variable {host : Host} {d : Definition} {w : Widget}

namespace Page

theorem valueOf_frame (p : Page) (operand : Operand) :
    ∃ routines callbacks, (p.valueOf operand).2 = { p with routines := routines, callbacks := callbacks } := by
  cases operand with
  | fixed v => exact ⟨_, _, rfl⟩
  | callback name =>
    simp only [valueOf, callbackNamed]
    split
    · exact ⟨_, _, rfl⟩
    · exact ⟨_, _, rfl⟩

theorem withProps_frame (p : Page) (c : Component) (props : List (String × Operand)) :
    (∃ routines callbacks, (p.withProps c props).2 = { p with routines := routines, callbacks := callbacks }) ∧
      (p.withProps c props).1.pending = c.pending := by
  induction props generalizing p c with
  | nil => exact ⟨⟨_, _, rfl⟩, rfl⟩
  | cons prop rest ih =>
    obtain ⟨routines, callbacks, hvalue⟩ := p.valueOf_frame prop.2
    obtain ⟨⟨routines', callbacks', hrest⟩, hpending⟩ :=
      ih (p.valueOf prop.2).2 (c.withProp prop.1 (p.valueOf prop.2).1)
    refine ⟨⟨routines', callbacks', hrest.trans ?_⟩, hpending⟩
    rw [hvalue]

theorem make_frame (p : Page) (b : Blueprint) :
    ∃ c routines callbacks, p.make b = (c, { p with routines := routines, callbacks := callbacks }) ∧
      c.pending = Dict.empty := by
  obtain ⟨⟨routines, callbacks, hframe⟩, hpending⟩ := p.withProps_frame (.named b.name) b.props
  have hmethods : ∀ (methods : List (String × Script)) (c : Component),
      (methods.foldl (fun c m => c.withMethod m.1 m.2) c).pending = c.pending := by
    intro methods
    induction methods with
    | nil => exact fun _ => rfl
    | cons m rest ih => exact fun c => ih (c.withMethod m.1 m.2)
  exact ⟨_, routines, callbacks, Prod.ext rfl hframe, (hmethods _ _).trans hpending⟩

/-- The page while a new element is being connected. -/
def beginConnecting (p : Page) (n : NodeId) (d : Definition) : Page :=
  { (p.instantiate d).2 with
    elements := (p.instantiate d).2.elements ++ [(n, ⟨(p.instantiate d).1, true⟩)]
    connecting := (p.instantiate d).2.connecting ++ [n] }

/-- The page once a widget has been connected and the writes that waited for it have been made. -/
def finishConnecting (p : Page) (n : NodeId) (w : Widget) : Page :=
  ({ p with connecting := p.connecting.dropLast }.modifyCustom n fun _ => ⟨.widget w, false⟩).applyDeferred n

end Page

/-- What comes of connecting a widget: its template is built, and then what waited for it is written. A failure is
warned of in between. -/
theorem connectElement_connect {u : Unit} (hw : (p.instantiate d).1 = .widget w)
    (h : connectElement host tag n d p = some (u, q)) :
    ∃ w' result r, w.connect host n (p.beginConnecting n d) = some ((w', result), r) ∧
      (∀ found, result = .ok found → q = r.finishConnecting n w') ∧
      ∃ told, q = { r with warnings := told }.finishConnecting n w' := by
  simp only [connectElement, Act.bind_eq_some, Act.modifyGet_eq_some, Act.modify_eq_some] at h
  obtain ⟨b, p₁, hinst, _, _, rfl, ⟨b', result⟩, _, hconnect, _, _, rfl, _, _, rfl, h⟩ := h
  have hbegin : { p₁ with
      elements := p₁.elements ++ [(n, ⟨b, true⟩)], connecting := p₁.connecting ++ [n] } =
      p.beginConnecting n d := by rw [Page.beginConnecting, hinst]
  rw [hbegin] at hconnect
  rw [hinst] at hw
  cases hw
  simp only [Behaviour.connect, Act.bind_eq_some, Act.pure_eq_some] at hconnect
  obtain ⟨⟨w', report⟩, r, hconnect, heq, rfl⟩ := hconnect
  cases heq
  refine ⟨w', report, r, hconnect, ?_⟩
  cases report with
  | error f =>
    simp only [Except.map, Act.bind_eq_some, Act.modify_eq_some] at h
    obtain ⟨_, _, rfl, rfl⟩ := h
    exact ⟨fun _ heq => (by cases heq), r.warnings ++ [_], rfl⟩
  | ok found =>
    cases Act.modify_eq_some.mp h
    exact ⟨fun _ _ => rfl, _, rfl⟩

theorem connectElement_of_buildOn {i : Instance} {found : Report} (hd : d.kind = .widget t initial)
    (h : t.buildOn host p.components.size (some n) .warnings (p.beginConnecting n d) = some (.ok (i, found), r)) :
    connectElement host tag n d p = some ((), r.finishConnecting n ⟨t, p.components.size, some i⟩) := by
  obtain ⟨c, routines, callbacks, hmake, -⟩ := p.make_frame initial
  have hw : (p.instantiate d).1 = .widget ⟨t, p.components.size, none⟩ := by
    simp only [Page.instantiate, hd, hmake, Page.addComponent]
  have hinst : p.instantiate d = (.widget ⟨t, p.components.size, none⟩, (p.instantiate d).2) := Prod.ext hw rfl
  rw [Page.beginConnecting, hw] at h
  simp only [connectElement, Act.bind_eq_some, Act.modifyGet_eq_some, Act.modify_eq_some]
  refine ⟨_, _, hinst, (), _, rfl, (.widget ⟨t, p.components.size, some i⟩, .ok ()), r, ?_, (), _, rfl, (), _, rfl, ?_⟩
  · simp only [Behaviour.connect, Widget.connect, Act.bind_eq_some, Act.pure_eq_some]
    exact ⟨(⟨t, p.components.size, some i⟩, .ok found), r, ⟨_, r, h, Act.pure_eq_some.mpr ⟨rfl, rfl⟩⟩, rfl, rfl⟩
  · exact Act.modify_eq_some.mpr rfl

/-- An element is a plain node, or it is connected as its tag is defined. -/
theorem createElementWith_eq_some {ns : Namespace} :
    createElementWith host tag ns p = some (n, q) ↔ n = p.document.size ∧
      ((ns = .html → p.registry.get? tag = none) ∧
          q = { p with document := p.document.push (.element (.ofTag tag ns)) } ∨
        ∃ d, ns = .html ∧ p.registry.get? tag = some d ∧
          connectElement host tag p.document.size d
            { p with document := p.document.push (.element (.ofTag tag ns)) } = some ((), q)) := by
  simp only [createElementWith, Act.bind_eq_some, Act.get_eq_some, Act.set_eq_some]
  constructor
  · rintro ⟨_, _, ⟨rfl, rfl⟩, _, _, rfl, h⟩
    split at h
    next hns =>
      cases hd : p.registry.get? tag with
      | none =>
        simp only [hd] at h
        obtain ⟨rfl, rfl⟩ := Act.pure_eq_some.mp h
        exact ⟨rfl, Or.inl ⟨fun _ => rfl, rfl⟩⟩
      | some d =>
        simp only [hd, Act.bind_eq_some, Act.pure_eq_some] at h
        obtain ⟨_, _, hconnect, rfl, rfl⟩ := h
        exact ⟨rfl, Or.inr ⟨d, hns, rfl, hconnect⟩⟩
    next hns =>
      obtain ⟨rfl, rfl⟩ := Act.pure_eq_some.mp h
      exact ⟨rfl, Or.inl ⟨fun heq => absurd heq hns, rfl⟩⟩
  · rintro ⟨rfl, h⟩
    refine ⟨p, p, ⟨rfl, rfl⟩, (), _, rfl, ?_⟩
    rcases h with ⟨hd, rfl⟩ | ⟨d, hns, hd, hconnect⟩
    · split
      next hns => simp only [hd hns, Act.pure_eq_some, and_self]
      next hns => exact Act.pure_eq_some.mpr ⟨rfl, rfl⟩
    · subst hns
      simp only [↓reduceIte, hd, Act.bind_eq_some]
      exact ⟨(), q, hconnect, Act.pure_eq_some.mpr ⟨rfl, rfl⟩⟩

/-- A flush does nothing to a plain node or to a busy element, and else lets a widget deliver while it is busy. -/
theorem flushWith_widget {result : Except Fault Nat}
    (hwidget : ∀ e, p.custom? n = some e → ∃ w, e.behaviour = .widget w)
    (h : flushWith host n p = some (result, q)) :
    q = p ∨ ∃ e w report p₁, p.custom? n = some e ∧ e.behaviour = .widget w ∧
      w.flush host (p.setBusy n true) = some (report, p₁) ∧ result = .ok report.executed ∧ q = p₁.setBusy n false := by
  simp only [flushWith, Act.bind_eq_some, Act.get_eq_some] at h
  obtain ⟨_, _, ⟨rfl, rfl⟩, h⟩ := h
  cases he : p.custom? n with
  | none =>
    simp only [he] at h
    exact Or.inl (Act.pure_eq_some.mp h).2.symm
  | some e =>
    obtain ⟨w, hw⟩ := hwidget e he
    simp only [he] at h
    split at h
    · exact Or.inl (Act.pure_eq_some.mp h).2.symm
    · simp only [hw, Behaviour.flush, Act.bind_eq_some, Act.modify_eq_some, Act.pure_eq_some] at h
      obtain ⟨_, _, rfl, _, _, ⟨report, _, hflush, rfl, rfl⟩, _, _, rfl, rfl, rfl⟩ := h
      exact Or.inr ⟨e, w, report, _, rfl, hw, hflush, rfl, rfl⟩

end Hosts

end LiveMarkup
