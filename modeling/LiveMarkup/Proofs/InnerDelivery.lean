import LiveMarkup.Proofs.InnerView

namespace LiveMarkup

variable {plan : Plan} {tags : String → Prop} {r : Report}

namespace Template.Planned

variable {t : Template}

theorem runs_refresh (h : t.Planned plan) (htends : t.Tends tags) (hadopts : t.createsRoot = false)
    {step : RefreshStep} (hstep : step ∈ t.refresh) : plan.Runs step.op := by
  obtain ⟨sub, hsub, ⟨place, hplace, hop⟩ | ⟨hop, -⟩⟩ := Plan.refresh_cases (h.refresh ▸ hstep)
  · exact Or.inl ⟨sub, hsub, place, hplace, hop⟩
  · have hcreates := htends.refresh_created hstep hop
    have hs : sub.slot ≠ 0 := hcreates.resolve_right (by simp [hadopts])
    rw [hop]
    exact Or.inr ⟨trivial, fun heq => hs (Op.flushNested.inj heq)⟩

theorem runs_build (h : t.Planned plan) (htends : t.Tends tags) (hadopts : t.createsRoot = false) {op : Op}
    (hop : op ∈ t.build) (hbound : op.bound? = none) : plan.Runs op := by
  have hflush : op ≠ .flushNested 0 := by
    rintro rfl
    exact (htends.build_created hop).elim (fun hne => hne rfl) (by simp [hadopts])
  rcases Plan.mem_build.mp (h.build ▸ hop) with ⟨sub, hsub, hown⟩ | ⟨head, children, -, child, -, rfl⟩
  · cases sub with
    | text slot spec =>
      cases List.mem_singleton.mp hown
      cases hbound
    | element head children =>
      simp only [Plan.ownBuild, PlanHead.build, List.cons_append, List.mem_cons, List.mem_append,
        List.mem_map] at hown
      rcases hown with rfl | ((⟨_, -, rfl⟩ | ⟨a, ha, rfl⟩) | hnested) | ⟨_, -, rfl⟩
      · split at hbound <;> cases hbound
      · exact Or.inr ⟨trivial, nofun⟩
      · exact Or.inl ⟨_, hsub, _, List.mem_map.mpr ⟨a, ha, rfl⟩, rfl⟩
      · split at hnested
        · cases List.mem_singleton.mp hnested
          exact Or.inr ⟨trivial, hflush⟩
        · cases hnested
      · exact Or.inr ⟨trivial, nofun⟩
  · exact Or.inr ⟨trivial, nofun⟩

end Template.Planned

namespace Instance

/-- All that is not shown as it is has been noted as a change. -/
def Noted (i : Instance) (plan : Plan) (p : Page) : Prop :=
  i.Shows plan (dueAfter (p.component i.component).pending) p

/-- The template shows the component as it is, apart from the values that fail. -/
def Current (i : Instance) (plan : Plan) (p : Page) : Prop :=
  i.Shows plan (fun _ _ => False) p

variable {strict : Prop} {i : Instance} {p q : Page} {depth : Nat}

theorem Current.noted (h : i.Current plan p) : i.Noted plan p :=
  h.mono (fun _ _ _ _ => rfl) fun _ _ _ _ _ _ hsettled => hsettled.imp_left False.elim

theorem Shows.congr {due : Op → List String → Prop} (h : i.Shows plan due p)
    (hkinds : ∀ s n, s ≠ 0 → i.node? s = some n → q.document.kind? n = p.document.kind? n)
    (hprops : (q.component i.component).props = (p.component i.component).props) : i.Shows plan due q :=
  h.mono hkinds fun _ _ _ _ _ _ hsettled => by
    rw [Component.get_congr hprops]
    exact hsettled

/-- Running the steps that are due leaves nothing due. -/
theorem runSteps_inner {steps : List RefreshStep} (hp : p.WellNested strict) (h : i.Sheltered p)
    (hplan : i.template.Planned plan) (hruns : ∀ step ∈ steps, plan.Runs step.op)
    (hrun : i.runSteps (hostTo depth) steps p = some (r, q)) :
    p.Steady q ∧ (∀ c, (q.component c).state = (p.component c).state) ∧
      (plan.CallbackFree (p.component i.component).get → i.Shows plan (dueIn steps) p → i.Current plan q) := by
  induction steps generalizing p r with
  | nil =>
    obtain ⟨-, rfl⟩ := Act.pure_eq_some.mp hrun
    refine ⟨.refl _, fun _ => rfl, fun _ hshows => ?_⟩
    refine hshows.mono (fun _ _ _ _ => rfl) fun _ _ _ _ _ _ hsettled => hsettled.imp_left ?_
    rintro ⟨step, hstep, -⟩
    exact List.not_mem_nil hstep
  | cons step rest ih =>
    obtain ⟨done, p₁, others, hexec, hrest, -⟩ := runSteps_cons.mp hrun
    have hop := hruns step List.mem_cons_self
    obtain ⟨hsteady, hstates⟩ := exec_inner_steady hp h hop hexec
    have hall := hsteady.trans (steady_stepWarned .refresh step.op done p₁)
    have hstates' : ∀ c, ((stepWarned .refresh step.op done p₁).component c).state = (p.component c).state := by
      intro c
      rw [component_stepWarned]
      exact hstates c
    obtain ⟨hsteady'', hstates'', hcurrent⟩ := ih (hp.steady hall) (h.steady hall)
      (fun s hs => hruns s (List.mem_cons_of_mem _ hs)) hrest
    refine ⟨hall.trans hsteady'', fun c => (hstates'' c).trans (hstates' c), fun hfree hshows => ?_⟩
    have hread := Component.get_congr (Component.props_of_state (hstates' i.component))
    refine hcurrent (hread ▸ hfree) ?_
    have hnext := exec_shows hp h hplan hop hfree hshows hexec
    refine hnext.mono (fun s n _ _ => by rw [document_stepWarned]) fun _ _ _ place _ _ hsettled => ?_
    rw [component_stepWarned]
    refine hsettled.imp_left ?_
    rintro ⟨⟨other, hother, heq⟩, hne⟩
    rcases List.mem_cons.mp hother with rfl | hother
    · exact absurd heq.symm hne
    · exact ⟨other, hother, heq⟩

/-- A refresh with all names that have changed brings the nodes below the root up to date. -/
theorem refresh_inner {changed : Names} (hp : p.WellNested strict) (h : i.Sheltered p)
    (hplan : i.template.Planned plan) (htends : i.template.Tends tags) (hadopts : i.template.createsRoot = false)
    (hrun : i.refresh (hostTo depth) changed p = some (r, q)) :
    p.Steady q ∧ (∀ c, (q.component c).state = (p.component c).state) ∧
      (plan.CallbackFree (p.component i.component).get → i.Shows plan (dueAfter changed) p → i.Current plan q) := by
  obtain ⟨hsteady, hstates, hcurrent⟩ := runSteps_inner hp h hplan
    (fun step hstep => hplan.runs_refresh htends hadopts (List.mem_of_mem_filter hstep)) hrun
  refine ⟨hsteady, hstates, fun hfree hshows => hcurrent hfree ?_⟩
  refine hshows.mono (fun _ _ _ _ => rfl) fun sub hsub _ place hplace _ hsettled => hsettled.imp_left ?_
  rintro ⟨name, hname, hchanged⟩
  rw [hplan.refresh]
  exact Plan.exists_step hsub hplace hname hchanged

/-- With nothing pending a delivery changes nothing that is shown. -/
theorem Delivered.settled {host : Host} {rounds : Nat} (hpending : (p.component i.component).pending.isEmpty = true)
    (h : i.Delivered host rounds p r q) :
    q.document = p.document ∧ (q.component i.component).props = (p.component i.component).props := by
  cases h with
  | exhausted => exact ⟨rfl, rfl⟩
  | postponed _ => exact ⟨rfl, rfl⟩
  | idle _ _ =>
    exact ⟨rfl, Page.modifyComponent_frame (g := Component.props) (f := (·.clearChanges)) (fun _ => rfl) p _ _⟩
  | round _ hfalse _ _ =>
    rw [hpending] at hfalse
    cases hfalse

/-- A delivery brings the nodes below the root up to date. -/
theorem deliverRounds_inner {rounds : Nat} (hp : p.WellNested strict) (h : i.Sheltered p)
    (hplan : i.template.Planned plan) (htends : i.template.Tends tags) (hadopts : i.template.createsRoot = false)
    (howned : i.component < p.components.size) (hrun : i.deliverRounds (hostTo depth) (rounds + 1) p = some (r, q)) :
    (q.component i.component).props = (p.component i.component).props ∧
      (plan.CallbackFree (p.component i.component).get → i.Noted plan p → i.Current plan q) := by
  have hclear := p.steady_clear i.component
  have hcomponent : (p.modifyComponent i.component (·.clearChanges)).component i.component =
      (p.component i.component).clearChanges := Page.component_modifyComponent howned _
  have hprops : ((p.modifyComponent i.component (·.clearChanges)).component i.component).props =
      (p.component i.component).props := by
    rw [hcomponent]
    rfl
  cases deliverRounds_delivered hrun with
  | postponed hused => exact absurd h.free hused
  | idle hfree hempty =>
    refine ⟨hprops, fun _ hnoted => ?_⟩
    have hcurrent : i.Current plan p := by
      refine hnoted.mono (fun _ _ _ _ => rfl) fun _ _ _ _ _ _ hsettled => hsettled.imp_left ?_
      rintro ⟨name, -, hname⟩
      rw [Dict.contains_of_isEmpty hempty] at hname
      cases hname
    exact hcurrent.congr (fun _ _ _ _ => rfl) hprops
  | @round _ _ p₁ _ _ _ hfree _ hfirst hothers =>
    obtain ⟨hsteady, hstates, hcurrent⟩ := refresh_inner (hp.steady hclear) (h.steady hclear) hplan htends
      hadopts hfirst
    have hstate := hstates i.component
    have hprops₁ : (p₁.component i.component).props = (p.component i.component).props :=
      (Component.props_of_state hstate).trans hprops
    -- the refresh itself changes no property, so the next round finds nothing to do
    have hidle : (p₁.component i.component).pending.isEmpty = true := by
      have hpending : (p₁.component i.component).pending =
          ((p.modifyComponent i.component (·.clearChanges)).component i.component).pending :=
        Component.pending_of_state hstate
      rw [hpending, hcomponent]
      rfl
    obtain ⟨hdocument, hprops₂⟩ := hothers.settled hidle
    refine ⟨hprops₂.trans hprops₁, fun hinert hnoted => ?_⟩
    refine (hcurrent (Component.get_congr hprops ▸ hinert) ?_).congr (fun s n _ _ => by rw [hdocument]) hprops₂
    exact hnoted.congr (fun _ _ _ _ => rfl) hprops

end Instance

end LiveMarkup
