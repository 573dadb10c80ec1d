import LiveMarkup.Proofs.ScriptFrame

namespace LiveMarkup

namespace Page

/-- Whether anyone holds a component. -/
def attached (p : Page) (c : ComponentId) : Bool :=
  (p.cell c).attached

/-- The page with other warnings. -/
def withWarnings (p : Page) (warnings : List String) : Page :=
  { p with warnings := warnings }

theorem attached_modifyComponent (p : Page) (c c' : ComponentId) (f : Component → Component) :
    (p.modifyComponent c f).attached c' = p.attached c' := by
  rw [attached, cell, modifyComponent, Array.getElem?_modify, attached, cell]
  split
  · cases p.components[c']? <;> rfl
  · rfl

theorem attached_setAccess (p : Page) (c c' : ComponentId) (a : Access) :
    (p.setAccess c a).attached c' = p.attached c' := by
  rw [attached, cell, setAccess, Array.getElem?_modify, attached, cell]
  split
  · cases p.components[c']? <;> rfl
  · rfl

theorem attached_valueOf (p : Page) (operand : Operand) (c : ComponentId) :
    (p.valueOf operand).2.attached c = p.attached c := by
  obtain ⟨routines, callbacks, hframe⟩ := p.valueOf_frame operand
  rw [hframe]
  rfl

theorem lendable_iff {p : Page} {c : ComponentId} :
    p.lendable c = .ok () ↔ p.attached c = true ∧ p.access c = .free := by
  rw [lendable]
  cases hattached : (p.cell c).attached with
  | false => simp [attached, hattached]
  | true => simp [attached, hattached]

theorem valueOf_withWarnings (p : Page) (operand : Operand) (w : List String) :
    (p.withWarnings w).valueOf operand = ((p.valueOf operand).1, (p.valueOf operand).2.withWarnings w) := by
  cases operand with
  | fixed v => rfl
  | callback name =>
    simp only [valueOf, callbackNamed, withWarnings]
    cases p.callbacks.get? name <;> rfl

end Page

namespace Act

/-- An act that neither reads warnings nor gives any. -/
def Mute (m : Act α) : Prop :=
  ∀ p w, m (p.withWarnings w) = (m p).map fun r => (r.1, r.2.withWarnings w)

theorem mute_pure (a : α) : Mute (pure a) :=
  fun _ _ => rfl

theorem mute_modify {f : Page → Page} (hf : ∀ p w, f (p.withWarnings w) = (f p).withWarnings w) :
    Mute (modify f : Act PUnit) := by
  intro p w
  change some (PUnit.unit, f (p.withWarnings w)) = some (PUnit.unit, (f p).withWarnings w)
  rw [hf]

theorem Mute.bind {m : Act α} {g : α → Act β} (hm : Mute m) (hg : ∀ a, Mute (g a)) : Mute (m >>= g) := by
  intro p w
  change (m (p.withWarnings w)).bind (fun r => g r.1 r.2) = ((m p).bind fun r => g r.1 r.2).map _
  rw [hm p w]
  cases m p with
  | none => rfl
  | some r => exact hg r.1 r.2 w

theorem mute_get_bind {g : Page → Act α} (hsame : ∀ p w, g (p.withWarnings w) = g p) (hg : ∀ p, Mute (g p)) :
    Mute ((get : Act Page) >>= g) := by
  intro p w
  change g (p.withWarnings w) (p.withWarnings w) = (g p p).map _
  rw [hsame]
  exact hg p p w

end Act

variable {p q : Page}

theorem Action.run_attached (call : Call) (p : Page) (a : Action) (c : ComponentId) :
    (a.run call p).2.attached c = p.attached c := by
  cases a with
  | set name e =>
    simp only [run]
    cases call.eval e p with
    | error f => rfl
    | ok v => exact p.attached_modifyComponent call.self c _
  | put name value =>
    exact (Page.attached_modifyComponent _ call.self c _).trans (p.attached_valueOf value c)
  | notify name => exact p.attached_modifyComponent call.self c _
  | stop fault => rfl
  | invoke method => rfl
  | answer e => rfl
  | log e =>
    simp only [run]
    cases call.eval e p <;> rfl
  | call property =>
    simp only [run]
    cases (p.component call.self).get property <;> rfl
  | callHere property =>
    simp only [run]
    cases (p.component call.self).get property <;> rfl

/-- Scripts neither read warnings nor give any. -/
theorem Action.run_withWarnings (call : Call) (p : Page) (a : Action) (w : List String) :
    a.run call (p.withWarnings w) = ((a.run call p).1, (a.run call p).2.withWarnings w) := by
  have heval : ∀ e, call.eval e (p.withWarnings w) = call.eval e p := fun _ => rfl
  cases a with
  | set name e =>
    simp only [run, heval]
    cases call.eval e p <;> rfl
  | put name value =>
    simp only [run, Page.valueOf_withWarnings]
    rfl
  | notify name => rfl
  | stop fault => rfl
  | invoke method => rfl
  | answer e => rfl
  | log e =>
    simp only [run, heval]
    cases call.eval e p <;> rfl
  | call property =>
    have hget : ((p.withWarnings w).component call.self).get property = (p.component call.self).get property := rfl
    simp only [run, hget]
    cases (p.component call.self).get property <;> rfl
  | callHere property =>
    have hget : ((p.withWarnings w).component call.self).get property = (p.component call.self).get property := rfl
    simp only [run, hget]
    cases (p.component call.self).get property <;> rfl

namespace Frame

theorem step_attached (f : Frame) (p : Page) (c : ComponentId) : (f.step p).2.attached c = p.attached c := by
  unfold step
  cases f.rest with
  | nil => rfl
  | cons action _ => exact action.run_attached f.call p c

theorem step_withWarnings (f : Frame) (p : Page) (w : List String) :
    f.step (p.withWarnings w) = ((f.step p).1, (f.step p).2.withWarnings w) := by
  unfold step
  cases f.rest with
  | nil => rfl
  | cons action _ => exact action.run_withWarnings f.call p w

theorem enter_attached (f : Frame) (p : Page) (c : ComponentId) : (f.enter p).attached c = p.attached c := by
  unfold enter
  split
  · exact p.attached_setAccess f.call.self c _
  · rfl

theorem leave_attached (f : Frame) (p : Page) (c : ComponentId) : (f.leave p).attached c = p.attached c := by
  unfold leave
  split
  · exact p.attached_setAccess f.call.self c _
  · rfl

theorem enter_withWarnings (f : Frame) (p : Page) (w : List String) :
    f.enter (p.withWarnings w) = (f.enter p).withWarnings w := by
  unfold enter
  split <;> rfl

theorem leave_withWarnings (f : Frame) (p : Page) (w : List String) :
    f.leave (p.withWarnings w) = (f.leave p).withWarnings w := by
  unfold leave
  split <;> rfl

end Frame

theorem leaveAll_attached (frames : List Frame) (p : Page) (c : ComponentId) :
    (leaveAll frames p).attached c = p.attached c := by
  induction frames generalizing p with
  | nil => rfl
  | cons f rest ih => exact (ih (f.leave p)).trans (f.leave_attached p c)

theorem leaveAll_withWarnings (frames : List Frame) (p : Page) (w : List String) :
    leaveAll frames (p.withWarnings w) = (leaveAll frames p).withWarnings w := by
  induction frames generalizing p with
  | nil => rfl
  | cons f rest ih =>
    have hrest := ih (f.leave p)
    rw [← f.leave_withWarnings] at hrest
    exact hrest

theorem runFrames_attached {actions room : Nat} {f : Frame} {waiting : List Frame} {result : Except Fault Value}
    (h : runFrames actions room f waiting p = some (result, q)) (c : ComponentId) : q.attached c = p.attached c := by
  induction actions generalizing room f waiting p with
  | zero => cases h
  | succ actions ih =>
    have hstep := f.step_attached p c
    rw [runFrames] at h
    rcases hnext : f.step p with ⟨next, p₁⟩
    rw [hnext] at h hstep
    cases next with
    | proceed => exact (ih h).trans hstep
    | enter inner =>
      dsimp only at h
      split at h
      · cases h
      · exact (ih h).trans ((inner.enter_attached p₁ c).trans hstep)
    | finish outcome =>
      cases outcome with
      | error fault =>
        cases h
        exact (leaveAll_attached _ p₁ c).trans hstep
      | ok v =>
        cases waiting with
        | nil =>
          cases h
          exact (f.leave_attached p₁ c).trans hstep
        | cons outer others => exact (ih h).trans ((f.leave_attached p₁ c).trans hstep)

theorem runFrames_withWarnings (actions room : Nat) (f : Frame) (waiting : List Frame) (p : Page) (w : List String) :
    runFrames actions room f waiting (p.withWarnings w) =
      (runFrames actions room f waiting p).map fun r => (r.1, r.2.withWarnings w) := by
  induction actions generalizing room f waiting p with
  | zero => rfl
  | succ actions ih =>
    rw [runFrames, runFrames, f.step_withWarnings]
    rcases f.step p with ⟨next, p₁⟩
    cases next with
    | proceed => exact ih room f.advance waiting p₁
    | enter inner =>
      dsimp only
      split
      · rfl
      · rw [inner.enter_withWarnings]
        exact ih (room - 1) inner (f.advance :: waiting) (inner.enter p₁)
    | finish outcome =>
      cases outcome with
      | error fault =>
        dsimp only
        rw [leaveAll_withWarnings]
        rfl
      | ok v =>
        cases waiting with
        | nil =>
          dsimp only
          rw [f.leave_withWarnings]
          rfl
        | cons outer others =>
          dsimp only
          rw [f.leave_withWarnings]
          exact ih (room + 1) outer others (f.leave p₁)

namespace Frame

theorem run_attached {f : Frame} {result : Except Fault Value} (h : f.run p = some (result, q)) (c : ComponentId) :
    q.attached c = p.attached c :=
  (runFrames_attached h c).trans (f.enter_attached p c)

theorem run_mute (f : Frame) : Act.Mute f.run := by
  intro p w
  unfold run
  rw [f.enter_withWarnings]
  exact runFrames_withWarnings _ _ f [] (f.enter p) w

end Frame

namespace Handler

variable {self : ComponentId} {event : Event}

theorem run_attached {handler : Handler} {result : Except Fault Unit} (h : handler.run self event p = some (result, q))
    (c : ComponentId) : q.attached c = p.attached c := by
  rcases Handler.run_cases h with rfl | ⟨name, v, rfl⟩ | ⟨f, value, -, hrun⟩
  · rfl
  · exact p.attached_modifyComponent self c _
  · exact Frame.run_attached hrun c

theorem run_mute (handler : Handler) (self : ComponentId) (event : Event) : Act.Mute (handler.run self event) := by
  cases handler with
  | method name =>
    refine Act.Mute.bind (Act.mute_get_bind (fun _ _ => rfl) fun p => ?_) fun _ => Act.mute_pure _
    cases Frame.ofMethod p self event name with
    | error f => exact Act.mute_pure _
    | ok f => exact f.run_mute
  | assign label target e =>
    refine Act.mute_get_bind (fun _ _ => rfl) fun p => ?_
    cases e.eval (p.component self).get event.detail with
    | error f => exact Act.mute_pure _
    | ok v => exact Act.Mute.bind (Act.mute_modify fun _ _ => rfl) fun _ => Act.mute_pure _
  | script label actions => exact Act.Mute.bind (Frame.run_mute _) fun _ => Act.mute_pure _

end Handler

end LiveMarkup
