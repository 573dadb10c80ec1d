import LiveMarkup.Proofs.Changes
import LiveMarkup.Proofs.ScriptFrame

namespace LiveMarkup

variable {c : ComponentId}

/-- What can become of the properties and the pending changes of a component. Whoever takes the changes gets the
names that are pending, and none is left. -/
inductive Deed where
  | set (name : String) (v : Value)
  | notify (name : String)
  | take

def Deed.apply : Deed → Component → Component
  | .set name v, c => c.set name v
  | .notify name, c => c.notify name
  | .take, c => c.clearChanges

/-- What can be done with a component. A callback is called on the component it is bound to or on this one; to lend
the component is to say who may use it from now on. -/
inductive Operation where
  | deed (d : Deed)
  | invoke (event : Event) (method : String)
  | handle (event : Event) (handler : Handler)
  | call (callback : Callback) (arg : Value)
  | callHere (callback : Callback) (arg : Value)
  | lend (access : Access)

def Operation.run (self : ComponentId) : Operation → Act Unit
  | .deed d => modify (·.modifyComponent self d.apply)
  | .invoke event method => do
    let _ ← invokeMethod self event method
  | .handle event handler => do
    let _ ← handler.run self event
  | .call callback arg => do
    let _ ← callBound callback arg
  | .callHere callback arg => do
    let _ ← callOn self callback arg
  | .lend access => modify (·.setAccess self access)

/-- Operations one after another, each on what the one before has left, whether that failed or not. -/
def perform : List (ComponentId × Operation) → Act Unit
  | [] => return ()
  | (self, o) :: rest => do
    o.run self
    perform rest

/-- What an operation comes to at first: it fails, does a deed, starts a script, or lends the component. -/
inductive Outset where
  | refused
  | deed (d : Deed)
  | script (f : Frame)
  | lent (access : Access)

namespace Outset

def ofStarted : Except Fault Frame → Outset
  | .error _ => refused
  | .ok f => script f

def ofAssigned (target : String) : Except Fault Value → Outset
  | .error _ => refused
  | .ok v => deed (.set target v)

def ofHandler (self : ComponentId) (event : Event) (p : Page) : Handler → Outset
  | .method name => ofStarted (Frame.ofMethod p self event name)
  | .assign _ target e => ofAssigned target (e.eval (p.component self).get event.detail)
  | .script _ actions => script ⟨⟨self, event, event.detail⟩, actions, false⟩

def deed? : Outset → Option Deed
  | deed d => some d
  | _ => none

end Outset

def Operation.outset (self : ComponentId) (p : Page) : Operation → Outset
  | .deed d => .deed d
  | .invoke event method => .ofStarted (Frame.ofMethod p self event method)
  | .handle event handler => .ofHandler self event p handler
  | .call callback arg => .ofStarted (Frame.ofCallback p callback arg)
  | .callHere callback arg => .script (Frame.ofRoutine p self callback arg)
  | .lend access => .lent access

/-- The deed that an action is about to do. -/
def Action.deed? (call : Call) (p : Page) : Action → Option Deed
  | .set name e => (call.eval e p).toOption.map (.set name)
  | .put name value => some (.set name (p.valueOf value).1)
  | .notify name => some (.notify name)
  | _ => none

def Frame.deed? (f : Frame) (p : Page) : Option Deed :=
  f.rest.head?.bind (·.deed? f.call p)

/-- The scripts under way, innermost first, and the page they run on. -/
structure Moment where
  frames : List Frame
  page : Page

/-- What happens next: an operation on a component starts, be it from outside or because a script under way asks for
it, or the innermost script takes its next action. -/
inductive Happening where
  | start (self : ComponentId) (o : Operation)
  | resume

namespace Moment

/-- No script is under way. -/
def idle (p : Page) : Moment :=
  ⟨[], p⟩

def begin (m : Moment) (self : ComponentId) : Outset → Moment
  | .refused => m
  | .deed d => ⟨m.frames, m.page.modifyComponent self d.apply⟩
  | .script f => ⟨f :: m.frames, f.enter m.page⟩
  | .lent access => ⟨m.frames, m.page.setAccess self access⟩

/-- A script goes on, lets another one run first, or ends; its failure ends all that wait for it. -/
def proceed (f : Frame) (waiting : List Frame) (p : Page) : Next → Moment
  | .proceed => ⟨f.advance :: waiting, p⟩
  | .enter inner => ⟨inner :: f.advance :: waiting, inner.enter p⟩
  | .finish (.error _) => ⟨[], leaveAll (f :: waiting) p⟩
  | .finish (.ok _) => ⟨waiting, f.leave p⟩

def resume : Moment → Moment
  | ⟨[], p⟩ => ⟨[], p⟩
  | ⟨f :: waiting, p⟩ => proceed f waiting (f.step p).2 (f.step p).1

def after (m : Moment) : Happening → Moment
  | .start self o => m.begin self (o.outset self m.page)
  | .resume => m.resume

/-- The deed that is done when something happens, and the component it is done to. -/
def deed? (m : Moment) : Happening → Option (ComponentId × Deed)
  | .start self o => (o.outset self m.page).deed?.map (self, ·)
  | .resume => m.frames.head?.bind fun f => (f.deed? m.page).map (f.call.self, ·)

def play (m : Moment) (happenings : List Happening) : Moment :=
  happenings.foldl after m

theorem play_append (m : Moment) (first second : List Happening) :
    m.play (first ++ second) = (m.play first).play second :=
  List.foldl_append

end Moment

def Happening.operation? : Happening → Option (ComponentId × Operation)
  | .start self o => some (self, o)
  | .resume => none

/-- The operations that start, in order. -/
def started (happenings : List Happening) : List (ComponentId × Operation) :=
  happenings.filterMap Happening.operation?

theorem started_append (first second : List Happening) :
    started (first ++ second) = started first ++ started second :=
  List.filterMap_append

theorem started_resumes (k : Nat) : started (List.replicate k .resume) = [] :=
  List.filterMap_replicate_of_none rfl

variable {p q : Page}

namespace Frame

theorem component_enter (f : Frame) (p : Page) (c : ComponentId) : (f.enter p).component c = p.component c := by
  unfold enter
  split
  · exact p.component_setAccess _ c _
  · rfl

theorem component_leave (f : Frame) (p : Page) (c : ComponentId) : (f.leave p).component c = p.component c := by
  unfold leave
  split
  · exact p.component_setAccess _ c _
  · rfl

end Frame

theorem component_leaveAll (frames : List Frame) (p : Page) (c : ComponentId) :
    (leaveAll frames p).component c = p.component c := by
  induction frames generalizing p with
  | nil => rfl
  | cons f rest ih => exact (ih (f.leave p)).trans (f.component_leave p c)

theorem Page.component_valueOf (p : Page) (operand : Operand) (c : ComponentId) :
    (p.valueOf operand).2.component c = p.component c := by
  obtain ⟨routines, callbacks, hframe⟩ := p.valueOf_frame operand
  rw [hframe]
  rfl

/-- What a deed makes of a component, if it is done to this one. -/
def Component.done (x : Component) (c : ComponentId) : Option (ComponentId × Deed) → Component
  | none => x
  | some (self, d) => if self = c then d.apply x else x

theorem Page.component_deed (p : Page) (hc : c < p.components.size) (self : ComponentId) (d : Deed) :
    (p.modifyComponent self d.apply).component c = (p.component c).done c (some (self, d)) := by
  rw [Component.done]
  split
  next hself =>
    subst hself
    exact component_modifyComponent hc _
  next hself => exact p.component_modifyComponent_of_ne (Ne.symm hself) _

/-- An action does to a component the deed it is about to do, and nothing else. -/
theorem Action.component_run (call : Call) (p : Page) (a : Action) (hc : c < p.components.size) :
    (a.run call p).2.component c = (p.component c).done c ((a.deed? call p).map (call.self, ·)) := by
  cases a with
  | set name e =>
    simp only [run, deed?]
    cases call.eval e p with
    | error f => rfl
    | ok v => exact p.component_deed hc call.self (.set name v)
  | put name value =>
    have hcount : c < (p.valueOf value).2.components.size := by
      rw [(p.undisturbed_valueOf value).count]
      exact hc
    have hdone := (p.valueOf value).2.component_deed hcount call.self (.set name (p.valueOf value).1)
    rw [p.component_valueOf value c] at hdone
    exact hdone
  | notify name => exact p.component_deed hc call.self (.notify name)
  | stop fault => rfl
  | invoke method => rfl
  | answer e => rfl
  | log e =>
    simp only [run]
    cases call.eval e p <;> rfl
  | call property =>
    simp only [run]
    cases (p.component call.self).get property <;> rfl
  | callHere property =>
    simp only [run]
    cases (p.component call.self).get property <;> rfl

theorem Frame.component_step (f : Frame) (p : Page) (hc : c < p.components.size) :
    (f.step p).2.component c = (p.component c).done c ((f.deed? p).map (f.call.self, ·)) := by
  unfold step deed?
  cases f.rest with
  | nil => rfl
  | cons action _ => exact action.component_run f.call p hc

namespace Moment

theorem component_proceed (f : Frame) (waiting : List Frame) (p : Page) (next : Next) (c : ComponentId) :
    (proceed f waiting p next).page.component c = p.component c := by
  cases next with
  | proceed => rfl
  | enter inner => exact inner.component_enter p c
  | finish outcome =>
    cases outcome with
    | error fault => exact component_leaveAll (f :: waiting) p c
    | ok v => exact f.component_leave p c

/-- What happens does the deed that goes with it, and nothing else becomes of any component. -/
theorem component_after (m : Moment) (h : Happening) (hc : c < m.page.components.size) :
    (m.after h).page.component c = (m.page.component c).done c (m.deed? h) := by
  cases h with
  | start self o =>
    simp only [after, deed?]
    cases o.outset self m.page with
    | refused => rfl
    | deed d => exact m.page.component_deed hc self d
    | script f => exact f.component_enter m.page c
    | lent access => exact m.page.component_setAccess self c access
  | resume =>
    obtain ⟨frames, p⟩ := m
    cases frames with
    | nil => rfl
    | cons f waiting => exact (component_proceed f waiting _ _ c).trans (f.component_step p hc)

theorem size_proceed (f : Frame) (waiting : List Frame) (p : Page) (next : Next) :
    (proceed f waiting p next).page.components.size = p.components.size := by
  cases next with
  | proceed => rfl
  | enter inner => exact (inner.sameParts_enter p).count
  | finish outcome =>
    cases outcome with
    | error fault => exact (sameParts_leaveAll (f :: waiting) p).count
    | ok v => exact (f.sameParts_leave p).count

theorem size_after (m : Moment) (h : Happening) :
    (m.after h).page.components.size = m.page.components.size := by
  cases h with
  | start self o =>
    simp only [after]
    cases o.outset self m.page with
    | refused => rfl
    | deed d => exact m.page.size_modifyComponent self _
    | script f => exact (f.sameParts_enter m.page).count
    | lent access => exact (m.page.sameParts_setAccess self access).count
  | resume =>
    obtain ⟨frames, p⟩ := m
    cases frames with
    | nil => rfl
    | cons f waiting => exact (size_proceed f waiting _ _).trans (Frame.step_frame rfl).1.count

/-- A component that is there stays there. -/
theorem lt_size_after (m : Moment) (h : Happening) (hc : c < m.page.components.size) :
    c < (m.after h).page.components.size :=
  Nat.lt_of_lt_of_eq hc (m.size_after h).symm

theorem lt_size_play (m : Moment) (happenings : List Happening) (hc : c < m.page.components.size) :
    c < (m.play happenings).page.components.size := by
  induction happenings generalizing m with
  | nil => exact hc
  | cons h rest ih => exact ih (m.after h) (m.lt_size_after h hc)

end Moment

/-- A run of scripts passes through moments, one for each action, until no script is under way. -/
theorem runFrames_played {actions room : Nat} {f : Frame} {waiting : List Frame} {result : Except Fault Value}
    (h : runFrames actions room f waiting p = some (result, q)) :
    ∃ k, (Moment.mk (f :: waiting) p).play (List.replicate k .resume) = .idle q := by
  induction actions generalizing room f waiting p with
  | zero => cases h
  | succ actions ih =>
    have hnext : (Moment.mk (f :: waiting) p).after .resume =
        Moment.proceed f waiting (f.step p).2 (f.step p).1 := rfl
    -- One more moment in front of those that the rest of the run passes through.
    suffices hrest : ∃ k, (Moment.proceed f waiting (f.step p).2 (f.step p).1).play
        (List.replicate k .resume) = .idle q by
      obtain ⟨k, hk⟩ := hrest
      rw [← hnext] at hk
      exact ⟨k + 1, hk⟩
    rw [runFrames] at h
    generalize f.step p = stepped at h
    obtain ⟨next, p₁⟩ := stepped
    cases next with
    | proceed => exact ih h
    | enter inner =>
      dsimp only at h
      split at h
      · cases h
      · exact ih h
    | finish outcome =>
      cases outcome with
      | error fault =>
        cases h
        exact ⟨0, rfl⟩
      | ok v =>
        cases waiting with
        | nil =>
          cases h
          exact ⟨0, rfl⟩
        | cons outer others => exact ih h

/-- A script that starts, or fails to, passes through moments until none is under way. -/
theorem runStarted_played {started : Except Fault Frame} {result : Except Fault Value} (self : ComponentId)
    (h : runStarted started p = some (result, q)) :
    ∃ k, ((Moment.idle p).begin self (.ofStarted started)).play (List.replicate k .resume) = .idle q := by
  cases started with
  | error f =>
    obtain ⟨-, rfl⟩ := Act.pure_eq_some.mp h
    exact ⟨0, rfl⟩
  | ok f => exact runFrames_played h

theorem Handler.run_played {self : ComponentId} {event : Event} {handler : Handler} {result : Except Fault Unit}
    (h : handler.run self event p = some (result, q)) :
    ∃ k, ((Moment.idle p).begin self (.ofHandler self event p handler)).play (List.replicate k .resume) = .idle q := by
  cases handler with
  | method name =>
    simp only [run, invokeMethod, Act.bind_eq_some, Act.get_eq_some, Act.pure_eq_some] at h
    obtain ⟨_, _, ⟨_, _, ⟨rfl, rfl⟩, h⟩, -, rfl⟩ := h
    exact runStarted_played self h
  | assign label target e =>
    simp only [run, Act.bind_eq_some, Act.get_eq_some] at h
    obtain ⟨_, _, ⟨rfl, rfl⟩, h⟩ := h
    refine ⟨0, ?_⟩
    simp only [Outset.ofHandler]
    cases hv : e.eval (p.component self).get event.detail with
    | error f =>
      simp only [hv] at h
      obtain ⟨-, rfl⟩ := Act.pure_eq_some.mp h
      rfl
    | ok v =>
      simp only [hv, Act.bind_eq_some, Act.modify_eq_some, Act.pure_eq_some] at h
      obtain ⟨_, _, rfl, -, rfl⟩ := h
      rfl
  | script label actions =>
    simp only [run, Act.bind_eq_some, Act.pure_eq_some] at h
    obtain ⟨_, _, h, -, rfl⟩ := h
    exact runFrames_played h

theorem Operation.run_played {self : ComponentId} {o : Operation} {u : Unit} (h : o.run self p = some (u, q)) :
    ∃ k, (Moment.idle p).play (.start self o :: List.replicate k .resume) = .idle q := by
  change ∃ k, ((Moment.idle p).begin self (o.outset self p)).play (List.replicate k .resume) = .idle q
  cases o with
  | deed d =>
    simp only [run, Act.modify_eq_some] at h
    subst h
    exact ⟨0, rfl⟩
  | invoke event method =>
    simp only [run, invokeMethod, Act.bind_eq_some, Act.get_eq_some, Act.pure_eq_some] at h
    obtain ⟨_, _, ⟨_, _, ⟨rfl, rfl⟩, h⟩, -, rfl⟩ := h
    exact runStarted_played self h
  | handle event handler =>
    simp only [run, Act.bind_eq_some, Act.pure_eq_some] at h
    obtain ⟨_, _, h, -, rfl⟩ := h
    exact Handler.run_played h
  | call callback arg =>
    simp only [run, callBound, Act.bind_eq_some, Act.get_eq_some, Act.pure_eq_some] at h
    obtain ⟨_, _, ⟨_, _, ⟨rfl, rfl⟩, h⟩, -, rfl⟩ := h
    exact runStarted_played self h
  | callHere callback arg =>
    simp only [run, callOn, Act.bind_eq_some, Act.get_eq_some, Act.pure_eq_some] at h
    obtain ⟨_, _, ⟨_, _, ⟨rfl, rfl⟩, h⟩, -, rfl⟩ := h
    exact runFrames_played h
  | lend access =>
    simp only [run, Act.modify_eq_some] at h
    subst h
    exact ⟨0, rfl⟩

/-- Operations that come to an end pass through moments, in which they start one after another and nothing else
starts. -/
theorem perform_played {operations : List (ComponentId × Operation)} {u : Unit}
    (h : perform operations p = some (u, q)) :
    ∃ happenings, started happenings = operations ∧ (Moment.idle p).play happenings = .idle q := by
  induction operations generalizing p with
  | nil =>
    obtain ⟨-, rfl⟩ := Act.pure_eq_some.mp h
    exact ⟨[], rfl, rfl⟩
  | cons first rest ih =>
    obtain ⟨self, o⟩ := first
    simp only [perform, Act.bind_eq_some] at h
    obtain ⟨_, p₁, hfirst, hrest⟩ := h
    obtain ⟨k, hk⟩ := Operation.run_played hfirst
    obtain ⟨happenings, hstarted, hplay⟩ := ih hrest
    refine ⟨(.start self o :: List.replicate k .resume) ++ happenings, ?_, ?_⟩
    · calc
        started ((.start self o :: List.replicate k .resume) ++ happenings)
          = (self, o) :: (started (List.replicate k .resume) ++ started happenings) := started_append _ _
        _ = (self, o) :: rest := by rw [started_resumes, hstarted, List.nil_append]
    · rw [Moment.play_append, hk, hplay]

end LiveMarkup
