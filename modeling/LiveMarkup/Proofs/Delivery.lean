import LiveMarkup.Proofs.View

namespace LiveMarkup

/-- The instructions of these steps are due. -/
def dueIn (steps : List RefreshStep) : Op → List String → Prop :=
  fun op _ => ∃ step ∈ steps, step.op = op

/-- Whatever depends on one of these names is due. -/
def dueAfter (changed : Names) : Op → List String → Prop :=
  fun _ deps => ∃ name ∈ deps, changed.contains name = true

/-- A change that notes every property it changes. -/
theorem Settled.changed {read read' : String → Value} {changed changed' : Names} {place : Op × ValueSpec}
    {shown : Option Value} (h : Settled read (dueAfter changed) place shown) (hlanguage : place.2.FromLanguage)
    (hnoted : ∀ name, read' name = read name ∨ changed'.contains name = true)
    (hkept : ∀ name, changed.contains name = true → changed'.contains name = true) :
    Settled read' (dueAfter changed') place shown := by
  rcases h with ⟨name, hname, hdue⟩ | hshown
  · exact Or.inl ⟨name, hname, hkept name hdue⟩
  by_cases hdue : ∃ name ∈ place.2.deps, changed'.contains name = true
  · exact Or.inl hdue
  · -- nothing the spec reads has changed
    have hread : ∀ name ∈ place.2.deps, read' name = read name :=
      fun name hname => (hnoted name).resolve_right fun hname' => hdue ⟨name, hname, hname'⟩
    rw [Settled, hlanguage.evalIn_congr hread]
    exact Or.inr hshown

namespace View

variable {x : View} {p : Page} {host : Host}

/-- The template shows the component as it is, apart from the specs that fail. -/
def UpToDate (x : View) (p : Page) : Prop :=
  x.Shows p fun _ _ => False

/-- Running the steps that are due leaves nothing due. -/
theorem runSteps_settles (hserves : host.ServesPlain) {steps : List RefreshStep}
    (hsteps : ∀ step ∈ steps, step ∈ x.plan.refresh) (hready : x.Ready p) (h : x.Shows p (dueIn steps)) :
    ∃ report q, x.inst.runSteps host steps p = some (report, q) ∧ p.SameState q ∧ x.UpToDate q := by
  induction steps generalizing p with
  | nil =>
    refine ⟨.empty, p, Act.pure_eq_some.mpr ⟨rfl, rfl⟩, .refl p, ?_⟩
    refine h.mono rfl fun _ _ _ _ _ hsettled => hsettled.imp_left ?_
    rintro ⟨step, hstep, -⟩
    exact List.not_mem_nil hstep
  | cons step rest ih =>
    obtain ⟨done, p₁, hexec, hsame, hshows⟩ := exec_step hserves hready h (hsteps step List.mem_cons_self)
    have hwarned := Instance.sameState_stepWarned .refresh step.op done p₁
    have hrest : x.Shows (Instance.stepWarned .refresh step.op done p₁) (dueIn rest) := by
      refine hshows.mono (Instance.document_stepWarned ..) fun _ _ place _ _ hsettled => ?_
      rw [read_sameState hwarned]
      refine hsettled.imp_left ?_
      rintro ⟨⟨other, hother, heq⟩, hne⟩
      rcases List.mem_cons.mp hother with rfl | hother
      · exact absurd heq.symm hne
      · exact ⟨other, hother, heq⟩
    obtain ⟨report, q, hrun, hsame', hdone⟩ := ih (fun s hs => hsteps s (List.mem_cons_of_mem _ hs))
      ((hready.sameState hsame).sameState hwarned) hrest
    exact ⟨_, q, Instance.runSteps_cons.mpr ⟨done, p₁, report, hexec, hrun, rfl⟩,
      hsame.trans (hwarned.trans hsame'), hdone⟩

/-- A refresh with all names that have changed brings the template up to date. -/
theorem refresh_settles (hserves : host.ServesPlain) {changed : Names} (hready : x.Ready p)
    (h : x.Shows p (dueAfter changed)) :
    ∃ report q, x.inst.refresh host changed p = some (report, q) ∧ p.SameState q ∧ x.UpToDate q := by
  unfold Instance.refresh
  rw [x.steps]
  refine runSteps_settles hserves (fun step hstep => (List.mem_filter.mp hstep).1) hready ?_
  refine h.mono rfl fun sub hsub place hplace _ hsettled => hsettled.imp_left ?_
  rintro ⟨name, hname, hchanged⟩
  exact Plan.exists_step hsub hplace hname hchanged

/-- What holds between any two moves: all that is not shown as it is has been noted as a change. -/
structure Live (x : View) (p : Page) : Prop extends x.Ready p where
  owned : x.inst.component < p.components.size
  shows : x.Shows p (dueAfter (p.component x.inst.component).pending)

theorem UpToDate.live (h : x.UpToDate p) (hready : x.Ready p) (howned : x.inst.component < p.components.size) :
    x.Live p :=
  { hready with
    owned := howned
    shows := h.mono rfl fun _ _ _ _ _ hsettled => hsettled.imp_left False.elim }

end View

namespace View

variable {x : View} {p : Page} {host : Host}

theorem read_modifyComponent (howned : x.inst.component < p.components.size) (f : Component → Component) :
    x.read (p.modifyComponent x.inst.component f) = (f (p.component x.inst.component)).get := by
  rw [read, Page.component_modifyComponent howned]

theorem Ready.modifyComponent (h : x.Ready p) (howned : x.inst.component < p.components.size)
    {f : Component → Component} (hf : ∀ n, ((f (p.component x.inst.component)).get n).Inert) :
    x.Ready (p.modifyComponent x.inst.component f) where
  plain := ⟨h.plain.undefined, h.plain.lifeless⟩
  free := (p.access_modifyComponent ..).trans h.free
  inert := by
    rw [read_modifyComponent howned]
    exact hf

/-- The page once the changes of the component have been taken. -/
def cleared (x : View) (p : Page) : Page :=
  p.modifyComponent x.inst.component (·.clearChanges)

namespace Live

theorem component_cleared (h : x.Live p) :
    (x.cleared p).component x.inst.component = (p.component x.inst.component).clearChanges :=
  Page.component_modifyComponent h.owned _

theorem ready_cleared (h : x.Live p) : x.Ready (x.cleared p) :=
  h.toReady.modifyComponent h.owned h.inert

theorem owned_cleared (h : x.Live p) : x.inst.component < (x.cleared p).components.size := by
  rw [View.cleared, Page.size_modifyComponent]
  exact h.owned

theorem shows_cleared (h : x.Live p) :
    x.Shows (x.cleared p) (dueAfter (p.component x.inst.component).pending) := by
  refine h.shows.mono rfl fun _ _ _ _ _ hsettled => ?_
  rw [View.cleared, read_modifyComponent h.owned]
  exact hsettled

theorem deliverRounds_idle (h : x.Live p) (hpending : (p.component x.inst.component).pending.isEmpty = true)
    (rounds : Nat) :
    ∃ q, x.inst.deliverRounds host (rounds + 1) p = some (.empty, q) ∧ x.Live q ∧ x.UpToDate q ∧
      (q.component x.inst.component).props = (p.component x.inst.component).props := by
  have hnone : ∀ op deps, ¬dueAfter (p.component x.inst.component).pending op deps := by
    rintro op deps ⟨name, -, hname⟩
    rw [Dict.contains_of_isEmpty hpending] at hname
    cases hname
  have hdone : x.UpToDate (x.cleared p) :=
    h.shows_cleared.mono rfl fun _ _ _ _ _ hsettled => hsettled.imp_left (hnone _ _)
  exact ⟨_, (Instance.Delivered.idle h.free hpending).deliverRounds, hdone.live h.ready_cleared h.owned_cleared,
    hdone, (congrArg Component.props h.component_cleared :)⟩

/-- A delivery brings the template up to date, in at most two rounds. -/
theorem deliverRounds (hserves : host.ServesPlain) (h : x.Live p) (rounds : Nat) :
    ∃ report q, x.inst.deliverRounds host (rounds + 2) p = some (report, q) ∧ x.Live q ∧ x.UpToDate q ∧
      (q.component x.inst.component).props = (p.component x.inst.component).props := by
  cases hpending : (p.component x.inst.component).pending.isEmpty with
  | true =>
    obtain ⟨q, hrun, hq⟩ := h.deliverRounds_idle hpending (rounds + 1)
    exact ⟨_, q, hrun, hq⟩
  | false =>
    obtain ⟨first, q, hrefresh, hsame, hdone⟩ := refresh_settles hserves h.ready_cleared h.shows_cleared
    have hlive := hdone.live (h.ready_cleared.sameState hsame) (by rw [hsame.count]; exact h.owned_cleared)
    -- the refresh itself changes no property, so the next round finds nothing to do
    have hidle : (q.component x.inst.component).pending.isEmpty = true := by
      rw [hsame.pending, h.component_cleared]
      rfl
    obtain ⟨r, hrun, hr, hdone', hprops⟩ := hlive.deliverRounds_idle hidle rounds
    have hothers := Instance.deliverRounds_delivered hrun
    refine ⟨_, r, (Instance.Delivered.round h.free hpending hrefresh hothers).deliverRounds, hr, hdone', ?_⟩
    rw [hprops, hsame.props, h.component_cleared]
    rfl

end Live

end View

end LiveMarkup
