import LiveMarkup.Page.Script
import LiveMarkup.Proofs.Delivery

namespace LiveMarkup

variable {p : Page} {x : View} {c : ComponentId} {P : Page → Prop}

namespace View

variable {q : Page}

namespace Live

theorem sameState (h : x.Live p) (hsame : p.SameState q) (hdocument : q.document = p.document) : x.Live q where
  toReady := h.toReady.sameState hsame
  owned := by
    rw [hsame.count]
    exact h.owned
  shows := by
    refine h.shows.mono hdocument fun _ _ _ _ _ hsettled => ?_
    rw [read_sameState hsame, hsame.pending]
    exact hsettled

/-- A change of the component that notes every property it changes. -/
theorem modifyComponent (h : x.Live p) {f : Component → Component}
    (hinert : ∀ n, ((f (p.component x.inst.component)).get n).Inert)
    (hnoted : ∀ n, (f (p.component x.inst.component)).get n = (p.component x.inst.component).get n ∨
      (f (p.component x.inst.component)).pending.contains n = true)
    (hpending : ∀ n, (p.component x.inst.component).pending.contains n = true →
      (f (p.component x.inst.component)).pending.contains n = true) :
    x.Live (p.modifyComponent x.inst.component f) where
  toReady := h.toReady.modifyComponent h.owned hinert
  owned := by
    rw [Page.size_modifyComponent]
    exact h.owned
  shows := by
    refine h.shows.mono rfl fun sub hsub place hplace shown hsettled => ?_
    rw [read_modifyComponent h.owned, Page.component_modifyComponent h.owned]
    exact hsettled.changed (x.language sub hsub place hplace).1 hnoted hpending

end Live

end View

namespace Component

theorem contains_add {names : Names} {name n : String} :
    (names.add name).contains n = true ↔ n = name ∨ names.contains n = true := by
  rw [Names.add, Dict.contains, Dict.get?_insert]
  by_cases h : n = name <;> simp [h, Dict.contains]

theorem get_withProp (c : Component) (name : String) (v : Value) (n : String) :
    (c.withProp name v).get n = if n = name then v else c.get n := by
  rw [get, withProp, Dict.get?_insert]
  by_cases h : n = name <;> simp [h, get]

/-- Setting a property changes no other one, and notes the change if there is one. -/
theorem get_set (c : Component) (name : String) (v : Value) (n : String) :
    (c.set name v).get n = c.get n ∨
      n = name ∧ (c.set name v).get n = v ∧ (c.set name v).pending.contains n = true := by
  unfold set
  split
  · have hget : ((c.withProp name v).notify name).get n = if n = name then v else c.get n := c.get_withProp name v n
    by_cases hn : n = name
    · exact Or.inr ⟨hn, hget.trans (if_pos hn), contains_add.mpr (Or.inl hn)⟩
    · exact Or.inl (hget.trans (if_neg hn))
  · exact Or.inl rfl

theorem noted_set (c : Component) (name : String) (v : Value) (n : String) :
    (c.set name v).get n = c.get n ∨ (c.set name v).pending.contains n = true :=
  (c.get_set name v n).imp_right fun h => h.2.2

theorem contains_set (c : Component) (name : String) (v : Value) (n : String)
    (h : c.pending.contains n = true) : (c.set name v).pending.contains n = true := by
  unfold set
  split
  · exact contains_add.mpr (Or.inr h)
  · exact h

end Component

namespace View

theorem Live.notify (h : x.Live p) (name : String) :
    x.Live (p.modifyComponent x.inst.component (·.notify name)) :=
  h.modifyComponent h.inert (fun _ => Or.inl rfl) fun _ hn => Component.contains_add.mpr (Or.inr hn)

theorem Live.set (h : x.Live p) (name : String) {v : Value} (hv : v.Inert) :
    x.Live (p.modifyComponent x.inst.component (·.set name v)) := by
  refine h.modifyComponent (fun n => ?_) (Component.noted_set _ name v) (Component.contains_set _ name v)
  rcases Component.get_set (p.component x.inst.component) name v n with hn | ⟨-, hn, -⟩
  · rw [hn]
    exact h.inert n
  · rw [hn]
    exact hv

end View

namespace Page

/-- A component that was free is as it was once it is free again, apart from what was done to it. -/
theorem setAccess_modifyComponent (hfree : p.access c = .free) (f : Component → Component) :
    ((p.setAccess c .exclusive).modifyComponent c f).setAccess c .free = p.modifyComponent c f := by
  have hcells : ((p.components.modify c fun cell => { cell with access := .exclusive }).modify c
      fun cell => { cell with component := f cell.component }).modify c
        (fun cell => { cell with access := .free }) =
      p.components.modify c fun cell => { cell with component := f cell.component } := by
    apply Array.ext
    · simp
    · intro n hn hn'
      have hsize : n < p.components.size := by simpa using hn'
      simp only [Array.getElem_modify]
      split
      next heq =>
        subst heq
        have haccess : p.components[c].access = .free := by
          simpa [access, cell, hsize] using hfree
        rw [haccess]
      next => rfl
  simp only [setAccess, modifyComponent, hcells]

theorem modifyComponent_id (p : Page) (c : ComponentId) : p.modifyComponent c id = p := by
  have hcells : p.components.modify c (fun cell => { cell with component := id cell.component }) =
      p.components := by
    apply Array.ext
    · simp
    · intro n _ _
      simp only [Array.getElem_modify]
      split <;> rfl
  rw [modifyComponent, hcells]

theorem component_setAccess (p : Page) (c c' : ComponentId) (a : Access) :
    (p.setAccess c a).component c' = p.component c' := by
  simp only [component, cell, setAccess, Array.getElem?_modify]
  split
  · cases p.components[c']? <;> rfl
  · rfl

end Page

/-- An event that meets an assignment sets a property, or it fails and changes nothing. -/
theorem Listener.run_assign (hfree : p.access c = .free) (event : Event) (label target : String) (e : Expr) :
    (∃ f, Listener.run event (.component c (.assign label target e)) p = some (.error f, p)) ∨
      ∃ v, e.eval (p.component c).get event.detail = .ok v ∧
        Listener.run event (.component c (.assign label target e)) p =
          some (.ok (), p.modifyComponent c (·.set target v)) := by
  have hrestored : (p.setAccess c .exclusive).setAccess c .free = p := by
    have h := Page.setAccess_modifyComponent hfree id
    rwa [Page.modifyComponent_id, Page.modifyComponent_id] at h
  have hcomponent := p.component_setAccess c c .exclusive
  simp only [Listener.run, exclusively, Handler.run, Act.bind_eq_some, Act.get_eq_some]
  cases hlent : p.lendable c with
  | error f => exact Or.inl ⟨f, p, p, ⟨rfl, rfl⟩, by simp only [hlent]; rfl⟩
  | ok _ =>
    cases hv : e.eval (p.component c).get event.detail with
    | error f =>
      refine Or.inl ⟨f, p, p, ⟨rfl, rfl⟩, ?_⟩
      simp only [hlent, Act.bind_eq_some, Act.modify_eq_some, Act.pure_eq_some, Act.get_eq_some]
      refine ⟨(), _, rfl, .error f, _, ⟨_, _, ⟨rfl, rfl⟩, ?_⟩, (), _, hrestored, rfl, rfl⟩
      simp only [hcomponent, hv]
      rfl
    | ok v =>
      refine Or.inr ⟨v, rfl, p, p, ⟨rfl, rfl⟩, ?_⟩
      simp only [hlent, Act.bind_eq_some, Act.modify_eq_some, Act.pure_eq_some, Act.get_eq_some]
      refine ⟨(), _, rfl, .ok (), _, ⟨_, _, ⟨rfl, rfl⟩, ?_⟩, (), _,
        Page.setAccess_modifyComponent hfree (·.set target v), rfl, rfl⟩
      simp only [hcomponent, hv]
      rfl

/-- A handler of a component that sets a property to the value of an expression without callbacks. -/
def Listener.Assigns (c : ComponentId) (l : Listener) : Prop :=
  ∃ label target e, l = .component c (.assign label target e) ∧ e.CallbackFree

/-- What setting properties of a component to values that are no callbacks keeps, and warning too. While it holds, the
component is free and has no callbacks. -/
structure Page.KeptBySetting (c : ComponentId) (P : Page → Prop) : Prop where
  free : ∀ p, P p → p.access c = .free
  inert : ∀ p, P p → ∀ name, ((p.component c).get name).Inert
  set : ∀ p name v, P p → v.Inert → P (p.modifyComponent c (·.set name v))
  warn : ∀ p message, P p → P (p.warn message)

theorem Listener.run_keeps (hP : Page.KeptBySetting c P) {event : Event} (hevent : event.detail.Inert) {l : Listener}
    (hl : l.Assigns c) (h : P p) : ∃ result q, l.run event p = some (result, q) ∧ P q ∧ q.document = p.document := by
  obtain ⟨label, target, e, rfl, he⟩ := hl
  obtain ⟨f, hrun⟩ | ⟨v, hv, hrun⟩ := Listener.run_assign (hP.free p h) event label target e
  · exact ⟨_, p, hrun, h, rfl⟩
  · exact ⟨_, _, hrun, hP.set p target v h (e.eval_inert (hP.inert p h) hevent he hv), rfl⟩

theorem runListeners_keeps (hP : Page.KeptBySetting c P) {event : Event} (hevent : event.detail.Inert)
    {listeners : List Listener} (hlisteners : ∀ l ∈ listeners, l.Assigns c) (h : P p) :
    ∃ faults q, runListeners event listeners p = some (faults, q) ∧ P q ∧ q.document = p.document := by
  induction listeners generalizing p with
  | nil => exact ⟨[], p, Act.pure_eq_some.mpr ⟨rfl, rfl⟩, h, rfl⟩
  | cons l rest ih =>
    have hrest := fun l' hl' => hlisteners l' (List.mem_cons_of_mem _ hl')
    obtain ⟨result, p₁, hrun, hkept, hdocument⟩ := l.run_keeps hP hevent (hlisteners l List.mem_cons_self) h
    simp only [runListeners, Act.bind_eq_some]
    cases result with
    | ok _ =>
      obtain ⟨faults, q, hfaults, hq, hdocument'⟩ := ih hrest hkept
      exact ⟨faults, q, ⟨_, p₁, hrun, hfaults⟩, hq, hdocument'.trans hdocument⟩
    | error f =>
      have hwarned := hP.warn p₁ s!"listener for '{event.kind}' on {nodeText event.target} failed: {f.message}" hkept
      obtain ⟨faults, q, hfaults, hq, hdocument'⟩ := ih hrest hwarned
      refine ⟨f :: faults, q, ⟨_, p₁, hrun, ?_⟩, hq, hdocument'.trans hdocument⟩
      simp only [Act.bind_eq_some, Act.modify_eq_some, Act.pure_eq_some]
      exact ⟨(), _, rfl, faults, q, hfaults, rfl, rfl⟩

/-- An event that meets only assignments to a component. -/
theorem dispatch_keeps (hP : Page.KeptBySetting c P) {n : NodeId} {kind : String} {detail : Value}
    (hdetail : detail.Inert) (hlisteners : ∀ l ∈ p.document.listenersFor n kind, l.Assigns c) (h : P p) :
    ∃ result q, dispatch n kind detail p = some (result, q) ∧ P q ∧ q.document = p.document := by
  have hevent : (Event.mk kind n detail).detail.Inert := hdetail
  obtain ⟨faults, q, hrun, hq⟩ := runListeners_keeps hP hevent hlisteners h
  refine ⟨⟨(p.document.listenersFor n kind).length, faults⟩, q, ?_, hq⟩
  simp only [dispatch, Act.bind_eq_some, Act.get_eq_some, Act.pure_eq_some]
  exact ⟨p, p, ⟨rfl, rfl⟩, faults, q, hrun, rfl, rfl⟩

namespace View

theorem live_keptBySetting (x : View) : Page.KeptBySetting x.inst.component x.Live where
  free _ h := h.free
  inert _ h := h.inert
  set _ name _ h hv := h.set name hv
  warn _ _ h := h.sameState (.of_components rfl rfl rfl) rfl

theorem Live.dispatch (h : x.Live p) {n : NodeId} {kind : String} {detail : Value} (hdetail : detail.Inert)
    (hlisteners : ∀ l ∈ p.document.listenersFor n kind, l.Assigns x.inst.component) :
    ∃ result q, LiveMarkup.dispatch n kind detail p = some (result, q) ∧ x.Live q ∧ q.document = p.document :=
  dispatch_keeps x.live_keptBySetting hdetail hlisteners h

end View

end LiveMarkup
