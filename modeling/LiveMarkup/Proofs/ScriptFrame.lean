import LiveMarkup.Proofs.NestedCreation

namespace LiveMarkup

variable {event : Event} {f : Frame} {p q : Page} {c self : ComponentId} {result : Except Fault Unit}

namespace Page

/-- Everything but the components and what is noted is the same. -/
structure SameParts (p q : Page) : Prop where
  registry : q.registry = p.registry
  elements : q.elements = p.elements
  document : q.document = p.document
  count : q.components.size = p.components.size

variable {r : Page}

theorem SameParts.refl (p : Page) : p.SameParts p :=
  ⟨rfl, rfl, rfl, rfl⟩

theorem SameParts.trans (h : p.SameParts q) (h' : q.SameParts r) : p.SameParts r where
  registry := h'.registry.trans h.registry
  elements := h'.elements.trans h.elements
  document := h'.document.trans h.document
  count := h'.count.trans h.count

/-- Moreover, the components are as free as they were. -/
structure Undisturbed (p q : Page) : Prop extends p.SameParts q where
  access : ∀ c, q.access c = p.access c

theorem Undisturbed.refl (p : Page) : p.Undisturbed p :=
  ⟨.refl p, fun _ => rfl⟩

theorem Undisturbed.trans (h : p.Undisturbed q) (h' : q.Undisturbed r) : p.Undisturbed r :=
  ⟨h.toSameParts.trans h'.toSameParts, fun c => (h'.access c).trans (h.access c)⟩

theorem Undisturbed.steady (h : p.Undisturbed q) : p.Steady q :=
  .of_elements h.registry h.elements (by rw [h.document]) h.count h.access

theorem undisturbed_modifyComponent (p : Page) (c : ComponentId) (f : Component → Component) :
    p.Undisturbed (p.modifyComponent c f) :=
  ⟨⟨rfl, rfl, rfl, p.size_modifyComponent c f⟩, fun c' => p.access_modifyComponent c c' f⟩

theorem undisturbed_warn (p : Page) (message : String) : p.Undisturbed (p.warn message) :=
  ⟨⟨rfl, rfl, rfl, rfl⟩, fun _ => rfl⟩

theorem undisturbed_note (p : Page) (n : Note) : p.Undisturbed (p.note n) :=
  ⟨⟨rfl, rfl, rfl, rfl⟩, fun _ => rfl⟩

theorem undisturbed_valueOf (p : Page) (operand : Operand) : p.Undisturbed (p.valueOf operand).2 := by
  obtain ⟨routines, callbacks, hframe⟩ := p.valueOf_frame operand
  rw [hframe]
  exact ⟨⟨rfl, rfl, rfl, rfl⟩, fun _ => rfl⟩

theorem sameParts_setAccess (p : Page) (c : ComponentId) (a : Access) : p.SameParts (p.setAccess c a) :=
  ⟨rfl, rfl, rfl, Array.size_modify⟩

theorem access_setAccess_of_ne (p : Page) {c' : ComponentId} (h : c' ≠ c) (a : Access) :
    (p.setAccess c a).access c' = p.access c' := by
  rw [access, cell, setAccess, Array.getElem?_modify, if_neg h.symm, access, cell]

/-- A component that is not there is free. -/
theorem access_setAccess_free (p : Page) (c : ComponentId) : (p.setAccess c .free).access c = .free := by
  rw [access, cell, setAccess, Array.getElem?_modify, if_pos rfl]
  cases p.components[c]? <;> rfl

theorem lendable_ok {u : Unit} (h : p.lendable c = .ok u) : p.access c = .free := by
  unfold lendable at h
  split at h
  · cases h
  · split at h
    · cases h
    next hfree => exact not_not.mp hfree

end Page

namespace Frame

theorem sameParts_enter (f : Frame) (p : Page) : p.SameParts (f.enter p) := by
  unfold enter
  split
  · exact p.sameParts_setAccess _ _
  · exact .refl p

theorem sameParts_leave (f : Frame) (p : Page) : p.SameParts (f.leave p) := by
  unfold leave
  split
  · exact p.sameParts_setAccess _ _
  · exact .refl p

theorem access_leave_congr (f : Frame) (h : ∀ c, q.access c = p.access c) (c : ComponentId) :
    (f.leave q).access c = (f.leave p).access c := by
  unfold leave
  split
  · by_cases hc : c = f.call.self
    · rw [hc, Page.access_setAccess_free, Page.access_setAccess_free]
    · rw [Page.access_setAccess_of_ne _ hc, Page.access_setAccess_of_ne _ hc, h]
  · exact h c

theorem access_leave_enter (f : Frame) (h : f.exclusive = true → p.access f.call.self = .free)
    (c : ComponentId) : (f.leave (f.enter p)).access c = p.access c := by
  unfold leave enter
  split
  next hexclusive =>
    by_cases hc : c = f.call.self
    · rw [hc, Page.access_setAccess_free, h hexclusive]
    · rw [Page.access_setAccess_of_ne _ hc, Page.access_setAccess_of_ne _ hc]
  · rfl

/-- A frame that takes a component for itself takes a free one. -/
def Enters (f : Frame) (p : Page) : Prop :=
  f.exclusive = true → p.access f.call.self = .free

theorem ofMethod_enters {name : String} (h : ofMethod p self event name = .ok f) : f.Enters p := by
  unfold ofMethod at h
  split at h
  · cases h
  · cases h
    exact nofun

theorem ofCallback_enters {c : Callback} {arg : Value} (h : ofCallback p c arg = .ok f) : f.Enters p := by
  unfold ofCallback at h
  split at h
  · cases h
  · split at h
    · cases h
    next hlendable =>
      cases h
      exact fun _ => Page.lendable_ok hlendable

end Frame

theorem sameParts_leaveAll (frames : List Frame) (p : Page) : p.SameParts (leaveAll frames p) := by
  induction frames generalizing p with
  | nil => exact .refl p
  | cons f rest ih => exact (f.sameParts_leave p).trans (ih (f.leave p))

theorem access_leaveAll_congr (frames : List Frame) (h : ∀ c, q.access c = p.access c) (c : ComponentId) :
    (leaveAll frames q).access c = (leaveAll frames p).access c := by
  induction frames generalizing p q with
  | nil => exact h c
  | cons f rest ih => exact ih fun c => f.access_leave_congr h c

theorem Next.enterOr_enters {started : Except Fault Frame} (hstarted : ∀ f, started = .ok f → f.Enters p)
    {inner : Frame} (h : Next.enterOr started = .enter inner) : inner.Enters p := by
  cases started with
  | error fault => cases h
  | ok f =>
    cases h
    exact hstarted _ rfl

/-- An action changes components only, and leaves all of them as free as they were. -/
theorem Action.run_frame {call : Call} {a : Action} {next : Next} (h : a.run call p = (next, q)) :
    p.Undisturbed q ∧ ∀ inner, next = .enter inner → inner.Enters q := by
  cases a with
  | set name e =>
    simp only [run] at h
    split at h
    · cases h
      exact ⟨.refl p, nofun⟩
    · cases h
      exact ⟨p.undisturbed_modifyComponent _ _, nofun⟩
  | put name value =>
    cases h
    exact ⟨(p.undisturbed_valueOf value).trans (Page.undisturbed_modifyComponent _ _ _), nofun⟩
  | notify name =>
    cases h
    exact ⟨p.undisturbed_modifyComponent _ _, nofun⟩
  | stop fault =>
    cases h
    exact ⟨.refl p, nofun⟩
  | invoke method =>
    cases h
    exact ⟨.refl p, fun inner => Next.enterOr_enters fun _ => Frame.ofMethod_enters⟩
  | answer e =>
    cases h
    exact ⟨.refl p, nofun⟩
  | log e =>
    simp only [run] at h
    split at h
    · cases h
      exact ⟨.refl p, nofun⟩
    · cases h
      exact ⟨p.undisturbed_note _, nofun⟩
  | call property =>
    simp only [run] at h
    split at h
    · cases h
      exact ⟨.refl p, fun inner => Next.enterOr_enters fun _ => Frame.ofCallback_enters⟩
    · cases h
      exact ⟨.refl p, nofun⟩
  | callHere property =>
    simp only [run] at h
    split at h
    · cases h
      refine ⟨.refl p, fun inner heq => ?_⟩
      cases heq
      exact nofun
    · cases h
      exact ⟨.refl p, nofun⟩

theorem Frame.step_frame {next : Next} (h : f.step p = (next, q)) :
    p.Undisturbed q ∧ ∀ inner, next = .enter inner → inner.Enters q := by
  unfold step at h
  split at h
  · cases h
    exact ⟨.refl p, nofun⟩
  · exact Action.run_frame h

/-- Scripts give back the components they had for themselves. -/
theorem runFrames_frame {actions room : Nat} {waiting : List Frame} {result : Except Fault Value}
    (h : runFrames actions room f waiting p = some (result, q)) :
    p.SameParts q ∧ ∀ c, q.access c = (leaveAll (f :: waiting) p).access c := by
  induction actions generalizing room f waiting p with
  | zero => cases h
  | succ actions ih =>
    rw [runFrames] at h
    cases hstep : f.step p with | mk next p₁ => ?_
    obtain ⟨hsame, henters⟩ := Frame.step_frame hstep
    rw [hstep] at h
    cases next with
    | proceed =>
      obtain ⟨hrest, hleft⟩ := ih h
      refine ⟨hsame.toSameParts.trans hrest, fun c => (hleft c).trans ?_⟩
      exact access_leaveAll_congr (f :: waiting) hsame.access c
    | enter inner =>
      dsimp only at h
      split at h
      · cases h
      · obtain ⟨hrest, hleft⟩ := ih h
        refine ⟨hsame.toSameParts.trans ((inner.sameParts_enter p₁).trans hrest), fun c => (hleft c).trans ?_⟩
        have hback : ∀ c, (inner.leave (inner.enter p₁)).access c = p.access c :=
          fun c => (inner.access_leave_enter (henters inner rfl) c).trans (hsame.access c)
        exact access_leaveAll_congr (f :: waiting) hback c
    | finish outcome =>
      cases outcome with
      | error fault =>
        cases h
        exact ⟨hsame.toSameParts.trans (sameParts_leaveAll _ p₁),
          access_leaveAll_congr (f :: waiting) hsame.access⟩
      | ok v =>
        cases waiting with
        | nil =>
          cases h
          exact ⟨hsame.toSameParts.trans (f.sameParts_leave p₁), f.access_leave_congr hsame.access⟩
        | cons outer others =>
          obtain ⟨hrest, hleft⟩ := ih h
          refine ⟨hsame.toSameParts.trans ((f.sameParts_leave p₁).trans hrest), fun c => (hleft c).trans ?_⟩
          exact access_leaveAll_congr (outer :: others) (f.access_leave_congr hsame.access) c

theorem Frame.run_undisturbed {result : Except Fault Value} (henters : f.Enters p) (h : f.run p = some (result, q)) :
    p.Undisturbed q := by
  obtain ⟨hparts, haccess⟩ := runFrames_frame h
  exact ⟨(f.sameParts_enter p).trans hparts, fun c => (haccess c).trans (f.access_leave_enter henters c)⟩

/-- A handler does nothing, assigns one property, or runs a script. -/
theorem Handler.run_cases {handler : Handler} (h : handler.run self event p = some (result, q)) :
    q = p ∨ (∃ name v, q = p.modifyComponent self (·.set name v)) ∨
      ∃ f value, f.Enters p ∧ Frame.run f p = some (value, q) := by
  cases handler with
  | method name =>
    simp only [run, invokeMethod, Act.bind_eq_some, Act.get_eq_some, Act.pure_eq_some] at h
    obtain ⟨_, _, ⟨_, _, ⟨rfl, rfl⟩, h⟩, -, rfl⟩ := h
    cases hstart : Frame.ofMethod p self event name with
    | error f =>
      rw [hstart] at h
      obtain ⟨-, rfl⟩ := Act.pure_eq_some.mp h
      exact Or.inl rfl
    | ok f =>
      rw [hstart] at h
      exact Or.inr (Or.inr ⟨f, _, Frame.ofMethod_enters hstart, h⟩)
  | assign label target e =>
    simp only [run, Act.bind_eq_some, Act.get_eq_some] at h
    obtain ⟨_, _, ⟨rfl, rfl⟩, h⟩ := h
    cases hv : e.eval (p.component self).get event.detail with
    | error f =>
      simp only [hv] at h
      obtain ⟨-, rfl⟩ := Act.pure_eq_some.mp h
      exact Or.inl rfl
    | ok v =>
      simp only [hv, Act.bind_eq_some, Act.modify_eq_some, Act.pure_eq_some] at h
      obtain ⟨_, _, rfl, -, rfl⟩ := h
      exact Or.inr (Or.inl ⟨target, v, rfl⟩)
  | script label actions =>
    simp only [run, Act.bind_eq_some, Act.pure_eq_some] at h
    obtain ⟨_, _, h, -, rfl⟩ := h
    refine Or.inr (Or.inr ⟨_, _, fun hexclusive => ?_, h⟩)
    cases hexclusive

theorem Handler.run_undisturbed {handler : Handler} (h : handler.run self event p = some (result, q)) :
    p.Undisturbed q := by
  rcases Handler.run_cases h with rfl | ⟨name, v, rfl⟩ | ⟨f, value, henters, hrun⟩
  · exact .refl q
  · exact p.undisturbed_modifyComponent self _
  · exact Frame.run_undisturbed henters hrun

theorem exclusively_undisturbed {act : Act (Except Fault α)} {result : Except Fault α}
    (hact : ∀ p result q, act p = some (result, q) → p.Undisturbed q) (h : exclusively c act p = some (result, q)) :
    p.Undisturbed q := by
  simp only [exclusively, Act.bind_eq_some, Act.get_eq_some] at h
  obtain ⟨_, _, ⟨rfl, rfl⟩, h⟩ := h
  cases hlent : p.lendable c with
  | error f =>
    simp only [hlent] at h
    obtain ⟨-, rfl⟩ := Act.pure_eq_some.mp h
    exact .refl p
  | ok u =>
    simp only [hlent, Act.bind_eq_some, Act.modify_eq_some, Act.pure_eq_some] at h
    obtain ⟨_, _, rfl, _, p₁, hrun, _, _, rfl, -, rfl⟩ := h
    have hsame := hact _ _ _ hrun
    refine ⟨((p.sameParts_setAccess c .exclusive).trans hsame.toSameParts).trans
      (p₁.sameParts_setAccess c .free), fun c' => ?_⟩
    by_cases hc : c' = c
    · rw [hc, Page.access_setAccess_free, Page.lendable_ok hlent]
    · rw [Page.access_setAccess_of_ne _ hc, hsame.access, Page.access_setAccess_of_ne _ hc]

theorem Listener.run_undisturbed {l : Listener} (h : l.run event p = some (result, q)) : p.Undisturbed q := by
  cases l with
  | component owner handler => exact exclusively_undisturbed (fun _ _ _ => Handler.run_undisturbed) h
  | observer label failure =>
    simp only [run, Act.bind_eq_some, Act.modify_eq_some] at h
    obtain ⟨_, _, rfl, h⟩ := h
    cases failure with
    | none =>
      obtain ⟨-, rfl⟩ := Act.pure_eq_some.mp h
      exact p.undisturbed_note _
    | some detail =>
      obtain ⟨-, rfl⟩ := Act.pure_eq_some.mp h
      exact p.undisturbed_note _

theorem runListeners_undisturbed {listeners : List Listener} {faults : List Fault}
    (h : runListeners event listeners p = some (faults, q)) : p.Undisturbed q := by
  induction listeners generalizing p faults with
  | nil =>
    obtain ⟨-, rfl⟩ := Act.pure_eq_some.mp h
    exact .refl p
  | cons l rest ih =>
    simp only [runListeners, Act.bind_eq_some] at h
    obtain ⟨result, p₁, hrun, h⟩ := h
    have hfirst := l.run_undisturbed hrun
    cases result with
    | ok u => exact hfirst.trans (ih h)
    | error f =>
      simp only [Act.bind_eq_some, Act.modify_eq_some, Act.pure_eq_some] at h
      obtain ⟨_, _, rfl, _, _, h, -, rfl⟩ := h
      exact (hfirst.trans (p₁.undisturbed_warn _)).trans (ih h)

/-- An event changes nothing but components, whatever listens to it. -/
theorem dispatch_undisturbed {n : NodeId} {kind : String} {detail : Value} {result : Dispatch}
    (h : dispatch n kind detail p = some (result, q)) : p.Undisturbed q := by
  simp only [dispatch, Act.bind_eq_some, Act.get_eq_some, Act.pure_eq_some] at h
  obtain ⟨_, _, ⟨rfl, rfl⟩, _, _, hrun, -, rfl⟩ := h
  exact runListeners_undisturbed hrun

end LiveMarkup
