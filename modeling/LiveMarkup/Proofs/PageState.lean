import LiveMarkup.Proofs.PlainPage

namespace LiveMarkup

/-- A component but for the nodes that it exposes. -/
def Component.state (c : Component) : Component :=
  { c with attachPoints := Dict.empty }

theorem Component.props_of_state {c c' : Component} (h : c'.state = c.state) : c'.props = c.props :=
  (congrArg props h :)

theorem Component.pending_of_state {c c' : Component} (h : c'.state = c.state) : c'.pending = c.pending :=
  (congrArg pending h :)

theorem Component.get_congr {c c' : Component} (h : c'.props = c.props) : c'.get = c.get := by
  funext name
  rw [get, h, get]

namespace Page

theorem cell_modifyComponent (p : Page) (c c' : ComponentId) (f : Component → Component) :
    (p.modifyComponent c f).cell c' = if c = c' ∧ c < p.components.size
      then { p.cell c with component := f (p.component c) } else p.cell c' := by
  simp only [cell, component, modifyComponent, Array.getElem?_modify]
  by_cases hc : c = c'
  · subst hc
    by_cases hsize : c < p.components.size
    · simp [hsize]
    · simp [hsize]
  · simp [hc]

theorem component_modifyComponent {p : Page} {c : ComponentId} (hc : c < p.components.size)
    (f : Component → Component) : (p.modifyComponent c f).component c = f (p.component c) := by
  rw [component, cell_modifyComponent, if_pos ⟨rfl, hc⟩]

/-- What a change of a component leaves as it is. -/
theorem modifyComponent_frame {β : Type} {g : Component → β} {f : Component → Component}
    (hf : ∀ x, g (f x) = g x) (p : Page) (c c' : ComponentId) :
    g ((p.modifyComponent c f).component c') = g (p.component c') := by
  rw [component, cell_modifyComponent]
  split
  next h =>
    rw [← h.1]
    exact hf _
  next => rfl

@[simp] theorem access_modifyComponent (p : Page) (c c' : ComponentId) (f : Component → Component) :
    (p.modifyComponent c f).access c' = p.access c' := by
  rw [access, cell_modifyComponent]
  split
  next h => rw [← h.1]; rfl
  next => rfl

@[simp] theorem size_modifyComponent (p : Page) (c : ComponentId) (f : Component → Component) :
    (p.modifyComponent c f).components.size = p.components.size :=
  Array.size_modify

/-- The nodes that a component exposes, by name. -/
def points (p : Page) (c : ComponentId) : Dict NodeId :=
  (p.component c).attachPoints

/-- The page with a component exposing other nodes. -/
def exposing (p : Page) (c : ComponentId) (points : Dict NodeId) : Page :=
  p.modifyComponent c ({ · with attachPoints := points })

theorem exposing_points (p : Page) (c : ComponentId) : (p.exposing c (p.points c)).component c = p.component c := by
  rw [exposing, component, cell_modifyComponent]
  split <;> rfl

theorem props_exposing (p : Page) (c : ComponentId) (points : Dict NodeId) (d : ComponentId) :
    ((p.exposing c points).component d).props = (p.component d).props :=
  modifyComponent_frame (g := Component.props) (f := ({ · with attachPoints := points })) (fun _ => rfl) p c d

theorem attach_of_exposing {p q : Page} {c : ComponentId} {points : Dict NodeId}
    (hcount : q.components.size = p.components.size) (h : q.component c = (p.exposing c points).component c)
    (name : String) (n : NodeId) :
    (q.modifyComponent c (·.attach name n)).component c = (p.exposing c (points.insert name n)).component c := by
  by_cases hc : c < p.components.size
  · rw [component_modifyComponent (hcount ▸ hc), h, exposing, component_modifyComponent hc, exposing,
      component_modifyComponent hc]
    rfl
  · have hout : ∀ (r : Page) f, r.components.size = p.components.size →
        (r.modifyComponent c f).component c = r.component c := by
      intro r f hr
      rw [component, cell_modifyComponent, if_neg fun h => hc (hr ▸ h.2), component]
    rw [hout q _ hcount, h, exposing, hout p _ rfl, exposing, hout p _ rfl]

theorem eval_congr {p q : Page} {c : ComponentId} (haccess : q.access c = p.access c)
    (hcomponent : q.component c = p.component c) (f : Formula) : q.eval c f = p.eval c f := by
  rw [Page.eval, haccess, hcomponent, Page.eval]

/-- The definitions, the custom elements and the components are as before, apart from the nodes that
components have exposed. -/
structure SameState (p q : Page) : Prop where
  registry : q.registry = p.registry
  elements : q.elements = p.elements
  count : q.components.size = p.components.size
  access : ∀ c, q.access c = p.access c
  states : ∀ c, (q.component c).state = (p.component c).state

namespace SameState

variable {p q r : Page}

theorem props (h : p.SameState q) (c : ComponentId) : (q.component c).props = (p.component c).props :=
  Component.props_of_state (h.states c)

theorem pending (h : p.SameState q) (c : ComponentId) : (q.component c).pending = (p.component c).pending :=
  Component.pending_of_state (h.states c)

theorem of_components (hregistry : q.registry = p.registry) (helements : q.elements = p.elements)
    (hcomponents : q.components = p.components) : p.SameState q := by
  have hcell : ∀ c, q.cell c = p.cell c := fun c => by rw [cell, hcomponents, cell]
  exact ⟨hregistry, helements, by rw [hcomponents], fun c => congrArg Cell.access (hcell c),
    fun c => congrArg (·.component.state) (hcell c)⟩

theorem document (p : Page) (d : Document) : p.SameState { p with document := d } :=
  .of_components rfl rfl rfl

theorem refl (p : Page) : p.SameState p :=
  .of_components rfl rfl rfl

theorem trans (h : p.SameState q) (h' : q.SameState r) : p.SameState r where
  registry := h'.registry.trans h.registry
  elements := h'.elements.trans h.elements
  count := h'.count.trans h.count
  access c := (h'.access c).trans (h.access c)
  states c := (h'.states c).trans (h.states c)

theorem plain (h : p.SameState q) (hp : p.Plain) : q.Plain :=
  ⟨h.registry.trans hp.undefined, h.elements.trans hp.lifeless⟩

theorem attach (p : Page) (c : ComponentId) (name : String) (n : NodeId) :
    p.SameState (p.modifyComponent c (·.attach name n)) where
  registry := rfl
  elements := rfl
  count := p.size_modifyComponent c _
  access c' := p.access_modifyComponent c c' _
  states := modifyComponent_frame (g := Component.state) (f := (·.attach name n)) (fun _ => rfl) p c

end SameState

end Page

namespace Instance

variable (phase : Phase) (op : Op) (step : Step) (p : Page)

theorem document_stepWarned : (stepWarned phase op step p).document = p.document := by
  obtain ⟨more, heq⟩ := stepWarned_eq phase op step p
  rw [heq]

theorem components_stepWarned : (stepWarned phase op step p).components = p.components := by
  obtain ⟨more, heq⟩ := stepWarned_eq phase op step p
  rw [heq]

theorem component_stepWarned (c : ComponentId) : (stepWarned phase op step p).component c = p.component c := by
  rw [Page.component, Page.cell, components_stepWarned, Page.component, Page.cell]

theorem sameState_stepWarned : p.SameState (stepWarned phase op step p) := by
  obtain ⟨more, heq⟩ := stepWarned_eq phase op step p
  rw [heq]
  exact .of_components rfl rfl rfl

end Instance

end LiveMarkup
