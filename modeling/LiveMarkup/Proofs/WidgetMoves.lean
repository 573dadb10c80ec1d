import LiveMarkup.Proofs.HostedWidget

namespace LiveMarkup

/-- What can happen to an instance and to a widget that its template has created. -/
inductive OuterMove where
  | change (f : Component → Component)
  | write (path : PropertyPath) (v : Value)
  | refresh (changed : Names)

/-- The component of the instance changes, a property is written to the widget, or the instance is
refreshed. -/
def OuterMove.run (o : Instance) (n : NodeId) : OuterMove → Act Unit
  | .change f => modify (·.modifyComponent o.component f)
  | .write path v => modify (·.setProperty n path v)
  | .refresh changed => do
    let _ ← withHost fun host => o.refresh host changed

def runOuterMoves (o : Instance) (n : NodeId) : List OuterMove → Act Unit
  | [] => return
  | m :: rest => do
    m.run o n
    runOuterMoves o n rest

section

variable {o : Instance} {n : NodeId} {p q : Page} {u : Unit}

theorem runOuterMoves_nil : runOuterMoves o n [] p = some (u, q) ↔ p = q := by
  rw [runOuterMoves, Act.pure_eq_some]
  exact and_iff_right rfl

theorem runOuterMoves_cons {m : OuterMove} {rest : List OuterMove} :
    runOuterMoves o n (m :: rest) p = some (u, q) ↔
      ∃ p₁, m.run o n p = some ((), p₁) ∧ runOuterMoves o n rest p₁ = some (u, q) := by
  rw [runOuterMoves, Act.bind_eq_some]
  exact ⟨fun ⟨_, p₁, hm, hrest⟩ => ⟨p₁, hm, hrest⟩, fun ⟨p₁, hm, hrest⟩ => ⟨(), p₁, hm, hrest⟩⟩

theorem runOuterMoves_append {moves rest : List OuterMove} :
    runOuterMoves o n (moves ++ rest) p = some (u, q) ↔
      ∃ p₁, runOuterMoves o n moves p = some ((), p₁) ∧ runOuterMoves o n rest p₁ = some (u, q) := by
  induction moves generalizing p with
  | nil =>
    constructor
    · exact fun h => ⟨p, runOuterMoves_nil.mpr rfl, h⟩
    · rintro ⟨p₁, hp₁, h⟩
      cases runOuterMoves_nil.mp hp₁
      exact h
  | cons m moves ih =>
    rw [List.cons_append, runOuterMoves_cons]
    constructor
    · rintro ⟨p₁, hm, h⟩
      obtain ⟨p₂, hmoves, hrest⟩ := ih.mp h
      exact ⟨p₂, runOuterMoves_cons.mpr ⟨p₁, hm, hmoves⟩, hrest⟩
    · rintro ⟨p₂, h, hrest⟩
      obtain ⟨p₁, hm, hmoves⟩ := runOuterMoves_cons.mp h
      exact ⟨p₁, hm, ih.mpr ⟨p₂, hmoves, hrest⟩⟩

/-- The moves are among the things that can happen to a page. -/
theorem Page.Live.runOuterMoves {tags : Page → String → Prop} {built : List Instance} (h : p.Live tags built)
    (ho : o ∈ built) {moves : List OuterMove} (hrun : runOuterMoves o n moves p = some (u, q)) :
    q.Live tags built := by
  induction moves generalizing p with
  | nil => exact runOuterMoves_nil.mp hrun ▸ h
  | cons m rest ih =>
    obtain ⟨p₁, hm, hrest⟩ := runOuterMoves_cons.mp hrun
    refine ih ?_ hrest
    cases m with
    | change f => exact Act.modify_eq_some.mp hm ▸ h.change o.component f
    | write path v => exact Act.modify_eq_some.mp hm ▸ h.write n path v
    | refresh changed =>
      obtain ⟨report, _, hrefresh, hdone⟩ := Act.bind_eq_some.mp hm
      obtain ⟨-, rfl⟩ := Act.pure_eq_some.mp hdone
      exact h.refresh ho hrefresh

end

/-- An instance that hosts a widget and flushes it at every refresh, as it is between calls. -/
structure Instance.Displays (strict : Prop) (o : Instance) (s : Slot) (n : NodeId) (i : Instance) (plan : Plan)
    (p : Page) : Prop where
  wellNested : p.WellNested strict
  calm : ∀ m, ¬p.IsBusy m
  held : p.Holds strict o
  hosts : o.Hosts s n p
  leaf : p.Leaf n i plan
  flushed : .unconditional (.flushNested s) ∈ o.template.refresh
  apart : o.component ≠ i.component

namespace Instance.Displays

variable {strict : Prop} {o i : Instance} {s : Slot} {n : NodeId} {plan : Plan} {p q : Page}

theorem steady (h : o.Displays strict s n i plan p) (hq : p.Steady q) : o.Displays strict s n i plan q where
  wellNested := h.wellNested.steady hq
  calm m hm := h.calm m ((hq.isBusy m).mp hm)
  held := h.held.steady hq
  hosts := h.hosts.steady hq
  leaf := h.leaf.alike hq.toAlike
  flushed := h.flushed
  apart := h.apart

/-- A refresh returns, and the widget shows what it has. -/
theorem run_refresh (h : o.Displays strict s n i plan p) (changed : Names) :
    ∃ q, (OuterMove.refresh changed).run o n p = some ((), q) ∧ p.Steady q ∧
      (i.Noted plan p → plan.CallbackFree (q.component i.component).get → i.Current plan q) := by
  obtain ⟨report, q, hrefresh⟩ := Instance.refresh_returns h.wellNested h.calm h.held changed
  refine ⟨q, ?_, Instance.refresh_steady h.wellNested h.calm h.held hrefresh, fun hnoted => ?_⟩
  · rw [OuterMove.run, Act.bind_eq_some]
    exact ⟨report, q, withHost_eq_some.mpr hrefresh, Act.pure_eq_some.mpr ⟨rfl, rfl⟩⟩
  · exact Instance.refresh_current h.wellNested h.calm h.held h.hosts h.leaf h.flushed hnoted hrefresh

/-- Every move returns, and what it changes in the widget is noted. -/
theorem run (h : o.Displays strict s n i plan p) (m : OuterMove) :
    ∃ q, m.run o n p = some ((), q) ∧ p.Steady q ∧
      (i.Noted plan p → plan.CallbackFree (q.component i.component).get → i.Noted plan q) := by
  cases m with
  | change f =>
    refine ⟨_, Act.modify_eq_some.mpr rfl, (p.undisturbed_modifyComponent o.component f).steady, fun hnoted _ => ?_⟩
    exact hnoted.same (fun _ _ _ _ => rfl)
      (congrArg Component.state (p.component_modifyComponent_of_ne (Ne.symm h.apart) f))
  | write path v =>
    exact ⟨_, Act.modify_eq_some.mpr rfl, (Page.setProperty_touched h.wellNested n path v).steady,
      fun hnoted _ => hnoted.write h.leaf h.wellNested path v⟩
  | refresh changed =>
    obtain ⟨q, hrun, hsteady, hcurrent⟩ := h.run_refresh changed
    exact ⟨q, hrun, hsteady, fun hnoted hfree => (hcurrent hnoted hfree).noted⟩

theorem runMoves (h : o.Displays strict s n i plan p) (moves : List OuterMove) :
    ∃ q, runOuterMoves o n moves p = some ((), q) ∧ p.Steady q ∧
      (i.Noted plan p → (∀ before, before <+: moves → ∀ q', runOuterMoves o n before p = some ((), q') →
        plan.CallbackFree (q'.component i.component).get) → i.Noted plan q) := by
  induction moves generalizing p with
  | nil => exact ⟨p, runOuterMoves_nil.mpr rfl, .refl p, fun hnoted _ => hnoted⟩
  | cons m rest ih =>
    obtain ⟨p₁, hm, hsteady, hfirst⟩ := h.run m
    obtain ⟨q, hrest, hsteady', hothers⟩ := ih (h.steady hsteady)
    refine ⟨q, runOuterMoves_cons.mpr ⟨p₁, hm, hrest⟩, hsteady.trans hsteady', fun hnoted hfree => ?_⟩
    have hone : runOuterMoves o n [m] p = some ((), p₁) :=
      runOuterMoves_cons.mpr ⟨p₁, hm, runOuterMoves_nil.mpr rfl⟩
    refine hothers (hfirst hnoted (hfree [m] (List.prefix_append [m] rest) p₁ hone)) fun before hbefore q' hq' => ?_
    exact hfree (m :: before) (List.cons_prefix_cons.mpr ⟨rfl, hbefore⟩) q' (runOuterMoves_cons.mpr ⟨p₁, hm, hq'⟩)

/-- Whatever happens, after a last refresh the widget shows what it has, if that was never a callback. -/
theorem runMoves_refresh (h : o.Displays strict s n i plan p)
    (hnoted : plan.CallbackFree (p.component i.component).get → i.Noted plan p) (moves : List OuterMove)
    (changed : Names) :
    ∃ q, runOuterMoves o n (moves ++ [.refresh changed]) p = some ((), q) ∧ p.Steady q ∧
      ((∀ before, before <+: moves ++ [.refresh changed] → ∀ q', runOuterMoves o n before p = some ((), q') →
        plan.CallbackFree (q'.component i.component).get) → i.Current plan q) := by
  obtain ⟨p₁, hmoves, hsteady, hothers⟩ := h.runMoves moves
  obtain ⟨q, hlast, hsteady', hcurrent⟩ := (h.steady hsteady).run_refresh changed
  have hrun : runOuterMoves o n (moves ++ [.refresh changed]) p = some ((), q) :=
    runOuterMoves_append.mpr ⟨p₁, hmoves, runOuterMoves_cons.mpr ⟨q, hlast, runOuterMoves_nil.mpr rfl⟩⟩
  refine ⟨q, hrun, hsteady.trans hsteady', fun hfree => hcurrent (hothers (hnoted ?_) fun before hbefore => ?_) ?_⟩
  · exact hfree [] List.nil_prefix p (runOuterMoves_nil.mpr rfl)
  · exact hfree before (hbefore.trans (List.prefix_append _ _))
  · exact hfree _ List.prefix_rfl q hrun

end Instance.Displays

end LiveMarkup
