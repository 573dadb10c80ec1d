import LiveMarkup.Proofs.LeafCreation
import LiveMarkup.Proofs.LivePage

namespace LiveMarkup

variable {plan : Plan} {p p₀ q : Page} {depth k : Nat} {o : Instance} {s : Slot} {t t' : Template} {tag : String}
  {strict : Prop} {op : Op} {root : Option NodeId} {n : NodeId} {step : Step}

namespace Instance

/-- The instance has the node `n` at the slot `s`, no widget created it, and no other node of the instance
is inside it. -/
structure Hosts (o : Instance) (s : Slot) (n : NodeId) (p : Page) : Prop where
  node : o.node? s = some n
  only : ∀ s', o.node? s' = some n → s' = s
  outer : ∀ m, ¬p.Inside m n
  apart : ∀ s' m, o.node? s' = some m → ¬p.Inside n m

/-- What is known of a widget in the course of a run: it has noted all that it does not show until it is
flushed, and then it shows what it has, apart from callbacks. -/
def Abreast (i : Instance) (plan : Plan) (flushed : Prop) (p : Page) : Prop :=
  (¬flushed → i.Noted plan p) ∧
    (flushed → plan.CallbackFree (p.component i.component).get → i.Current plan p)

variable {flushed : Prop} {i : Instance}

theorem Hosts.steady (h : o.Hosts s n p) (hq : p.Steady q) : o.Hosts s n q where
  node := h.node
  only := h.only
  outer m := by
    rw [hq.inside]
    exact h.outer m
  apart s' m hm := by
    rw [hq.inside]
    exact h.apart s' m hm

theorem Abreast.congr {flushed' : Prop} (h : i.Abreast plan flushed p) (hiff : flushed' ↔ flushed) :
    i.Abreast plan flushed' p :=
  ⟨fun hnot => h.1 fun hflushed => hnot (hiff.mpr hflushed), fun hflushed => h.2 (hiff.mp hflushed)⟩

theorem Abreast.same (h : i.Abreast plan flushed p)
    (hkinds : ∀ s n, s ≠ 0 → i.node? s = some n → q.document.kind? n = p.document.kind? n)
    (hstate : (q.component i.component).state = (p.component i.component).state) : i.Abreast plan flushed q := by
  have hprops : (q.component i.component).props = (p.component i.component).props := Component.props_of_state hstate
  refine ⟨fun hnot => (h.1 hnot).same hkinds hstate, fun hflushed hfree => ?_⟩
  rw [Component.get_congr hprops] at hfree
  exact (h.2 hflushed hfree).congr hkinds hprops

theorem Abreast.noted (h : i.Abreast plan flushed p) (hfree : plan.CallbackFree (p.component i.component).get) :
    i.Noted plan p := by
  by_cases hflushed : flushed
  · exact (h.2 hflushed hfree).noted
  · exact h.1 hflushed

/-- What happens within another node of the instance does not reach the widget. -/
theorem Hosts.unmoved (h : o.Hosts s n p) (hp : p.WellNested strict) (hleaf : p.Leaf n i plan) {s' : Slot}
    {m : NodeId} (hm : o.node? s' = some m) (hs : s' ≠ s) (hq : p.Confined (p.Within m) q) :
    (∀ s k, s ≠ 0 → i.node? s = some k → q.document.kind? k = p.document.kind? k) ∧
      (q.component i.component).state = (p.component i.component).state := by
  have hout : ¬p.Within m n := by
    intro hwithin
    rcases hwithin.cases_tail with rfl | ⟨b, -, hinside⟩
    · exact hs (h.only s' hm)
    · exact h.outer b hinside
  obtain ⟨w, hw, hshown, hhoused⟩ := hleaf.housed hp
  constructor
  · intro s'' k hs'' hk
    have hinside : p.Inside n k := ⟨w, i, s'', hw, hshown, hs'', hk⟩
    refine hq.kinds k fun hwithin => ?_
    rcases hwithin.cases_tail with rfl | ⟨b, hwithin, hinside'⟩
    · exact h.apart s' k hm hinside
    · exact hout (hp.unique b n k hinside' hinside ▸ hwithin)
  · by_contra hne
    obtain ⟨x, w', hx, hw', hcomponent⟩ := hq.components _ hne
    have hxn : x = n := hp.distinct x n w' w hw' hw (hcomponent.trans hhoused.component)
    exact hout (hxn ▸ hx)

/-- A write to the widget by the template around it. -/
theorem Noted.execLocal (h : i.Noted plan p) (hp : p.WellNested strict) (hleaf : p.Leaf n i plan)
    (hn : o.node? op.slot = some n) (hop : op.touched? = some op.slot) : i.Noted plan (o.execLocal op p).2 := by
  have hself : ∀ f : Node → Node, i.Noted plan { p with document := p.document.modifyNode n f } := by
    refine fun f => h.same (fun s k hs hk => p.document.kind?_modifyNode_of_ne ?_ f) rfl
    obtain ⟨w, -, -, hhoused⟩ := hleaf.housed hp
    exact Nat.ne_of_gt (hhoused.inner s k hs hk).1
  obtain ⟨run, hrun, heq⟩ := o.execLocal_runs op p
  rw [heq]
  cases hrun with
  | nothing _ => exact h
  | skip _ f => exact h
  | property path hm hv =>
    cases hm.symm.trans hn
    exact h.write hleaf hp path _
  | callback name hm hv =>
    cases hm.symm.trans hn
    exact h.write hleaf hp _ _
  | attr value name text hm =>
    cases hm.symm.trans hn
    exact hself _
  | noAttr value name hm =>
    cases hm.symm.trans hn
    exact hself _
  | _ => cases hop

/-- An instruction of the template around the widget leaves it abreast, if it writes nothing to the widget
once that was flushed. -/
theorem exec_abreast (hp : p.WellNested strict) (hosts : o.Hosts s n p) (hleaf : p.Leaf n i plan)
    (hbound : op.bound? = none)
    (hyoung : ∀ s' m, op = .flushNested s' → o.node? s' = some m → ∀ b, p.IsBusy b → b < m)
    (hcalm : flushed → op.touched? ≠ some s) (h : i.Abreast plan flushed p)
    (hexec : o.exec (hostTo depth) op p = some (step, q)) : i.Abreast plan (flushed ∨ op = .flushNested s) q := by
  cases exec_ran hexec with
  | alone hneeds hlocal =>
    have hiff : (flushed ∨ op = .flushNested s) ↔ flushed :=
      or_iff_left fun heq => by simp [heq, Op.needsHost] at hneeds
    have heffect := o.execLocal_touched hp hbound
    rw [hlocal] at heffect
    refine Abreast.congr ?_ hiff
    rcases heffect with rfl | ⟨m, hm, htouched, hstate⟩
    · exact h
    · by_cases hs : op.slot = s
      · obtain rfl : m = n := Option.some.inj (hm.symm.trans (hs ▸ hosts.node))
        rcases hstate with hwrites | hsame
        · rw [hs] at hwrites
          have hnot : ¬flushed := fun hflushed => hcalm hflushed hwrites
          refine ⟨fun _ => ?_, fun hflushed => absurd hflushed hnot⟩
          have hnoted := (h.1 hnot).execLocal hp hleaf hm (hs ▸ hwrites)
          rw [hlocal] at hnoted
          exact hnoted
        · refine h.same (fun s' k hs' hk => htouched.kinds k ?_) (hsame _)
          obtain ⟨w, -, -, hhoused⟩ := hleaf.housed hp
          exact Nat.ne_of_gt (hhoused.inner s' k hs' hk).1
      · obtain ⟨hkinds, hstate'⟩ := hosts.unmoved hp hleaf hm hs (htouched.confined.mono fun x hx => hx ▸ .refl)
        exact h.same hkinds hstate'
  | created hn => cases hbound
  | @unbuilt s' f hf =>
    refine h.congr (or_iff_left fun heq => ?_)
    cases heq
    rw [node_eq_ok.mpr hosts.node] at hf
    cases hf
  | @flushed s' m result _ hm hflush =>
    by_cases hs : s' = s
    · subst hs
      cases hm.symm.trans hosts.node
      obtain ⟨hprops, hcurrent⟩ := hleaf.flush hp (hyoung s' n rfl hosts.node) hflush
      refine ⟨fun hnot => absurd (Or.inr rfl) hnot, fun _ hfree => ?_⟩
      rw [Component.get_congr hprops] at hfree
      exact hcurrent hfree (h.noted hfree)
    · refine Abreast.congr ?_ (or_iff_left fun heq => hs (Op.flushNested.inj heq))
      have hflushed := (hostTo_flushes depth).flush m p result q hflush hp (hyoung s' m rfl hm)
      obtain ⟨hkinds, hstate⟩ := hosts.unmoved hp hleaf hm hs hflushed.confined
      exact h.same hkinds hstate

/-- Running steps leaves the widget abreast. -/
theorem runSteps_abreast {excused : NodeId → Prop} {steps : List RefreshStep} {r : Report} (hp : p.WellNested strict)
    (hosts : o.Hosts s n p) (hleaf : p.Leaf n i plan) (hprep : o.Prepared strict excused steps p)
    (hcalm : flushed → ∀ step ∈ steps, step.op.touched? ≠ some s) (h : i.Abreast plan flushed p)
    (hrun : o.runSteps (hostTo depth) steps p = some (r, q)) :
    i.Abreast plan (flushed ∨ ∃ step ∈ steps, step.op = .flushNested s) q := by
  induction steps generalizing flushed p r with
  | nil =>
    obtain ⟨-, rfl⟩ := Act.pure_eq_some.mp hrun
    refine h.congr (or_iff_left ?_)
    rintro ⟨step, hstep, -⟩
    exact List.not_mem_nil hstep
  | cons step rest ih =>
    obtain ⟨done, p₁, others, hexec, hrest, -⟩ := runSteps_cons.mp hrun
    obtain ⟨hsteady, -⟩ := exec_drains (hostTo_flushes depth) hp hprep hexec
    have hall := hsteady.trans (steady_stepWarned .refresh step.op done p₁)
    have hfirst := exec_abreast hp hosts hleaf (hprep.inPlace step List.mem_cons_self).bound?
      (fun s' m hop hm => hprep.young step List.mem_cons_self s' m hop hm)
      (fun hflushed => hcalm hflushed step List.mem_cons_self) h hexec
    have hnext : i.Abreast plan (flushed ∨ step.op = .flushNested s) (stepWarned .refresh step.op done p₁) := by
      exact hfirst.same (fun _ _ _ _ => by rw [document_stepWarned]) (by rw [component_stepWarned])
    have hdone := ih (hp.steady hall) (hosts.steady hall) (hleaf.alike hall.toAlike) (hprep.tail hall) ?_ hnext hrest
    · refine hdone.congr ?_
      rw [or_assoc]
      refine or_congr_right ⟨?_, ?_⟩
      · rintro ⟨other, hother, hop⟩
        rcases List.mem_cons.mp hother with rfl | hother
        · exact Or.inl hop
        · exact Or.inr ⟨other, hother, hop⟩
      · rintro (hop | ⟨other, hother, hop⟩)
        · exact ⟨step, List.mem_cons_self, hop⟩
        · exact ⟨other, List.mem_cons_of_mem _ hother, hop⟩
    · rintro (hflushed | hop) other hother
      · exact hcalm hflushed other (List.mem_cons_of_mem _ hother)
      · exact (List.pairwise_cons.mp hprep.order).1 other hother s hop

/-- A refresh brings a widget that it flushes up to date. -/
theorem refresh_current {changed : Names} {r : Report} (hp : p.WellNested strict) (hcalm : ∀ n, ¬p.IsBusy n)
    (ho : p.Holds strict o) (hosts : o.Hosts s n p) (hleaf : p.Leaf n i plan)
    (hflush : .unconditional (.flushNested s) ∈ o.template.refresh) (hnoted : i.Noted plan p)
    (h : o.refresh (hostTo depth) changed p = some (r, q))
    (hfree : plan.CallbackFree (q.component i.component).get) : i.Current plan q := by
  have hstart : i.Abreast plan False p := ⟨fun _ => hnoted, False.elim⟩
  have hdone := runSteps_abreast hp hosts hleaf (prepared_held ho hcalm changed) False.elim hstart h
  exact hdone.2 (Or.inr ⟨_, List.mem_filter.mpr ⟨hflush, rfl⟩, rfl⟩) hfree

/-- A build hosts what it creates. -/
theorem Underway.hosts {ops : List Op} (h : o.Underway strict root p₀ k ops p) (hcreates : o.template.Creates s)
    (hn : o.node? s = some n) : o.Hosts s n p := by
  have hle : p₀.document.size ≤ n := by
    rcases h.nodes s n hn with ⟨rfl, hadopts, -⟩ | hnew
    · simp [Template.Creates, hadopts] at hcreates
    · exact hnew.2.1
  refine ⟨hn, fun s' hs' => h.injective s' s n hs' hn, h.outer s n hn hle, fun s' m hm hinside => ?_⟩
  rcases h.nodes s' m hm with ⟨-, -, -, hlt⟩ | hnew
  · have hbounds := (h.grown.wellNested.inside_bounds hinside).1
    exact Nat.lt_asymm hbounds (Nat.lt_of_lt_of_le hlt hle)
  · exact h.outer s' m hm hnew.2.1 n hinside

theorem Abreast.grown (h : i.Abreast plan flushed p) (hp : p.WellNested strict)
    (hleaf : p.Leaf n i plan) (hq : p.Grown strict none q) : i.Abreast plan flushed q := by
  obtain ⟨w, -, -, hhoused⟩ := hleaf.housed hp
  exact h.same (fun s k hs hk => hq.kinds k (hhoused.inner s k hs hk).2 nofun) (hq.states (hleaf.owned hp))

end Instance

/-- The widgets that a template makes of its elements with some tag, if they contain no others. -/
structure Page.MakesLeaf (p : Page) (tag : String) (t : Template) (plan : Plan) : Prop where
  planned : t.Planned plan
  plain : ∀ s tag, .createElement s tag .html ∈ t.build → ¬p.Defines tag
  defined : ∃ d initial, p.registry.get? tag = some d ∧ d.kind = .widget t initial ∧
    ∀ p' : Page, plan.CallbackFree (p'.make initial).1.get

theorem Page.MakesLeaf.create {strict : Prop} (h : p.MakesLeaf tag t plan) (hp : p.WellNested strict)
    (hcreate : (hostTo depth).create tag .html p = some (n, q)) :
    ∃ i, i.template = t ∧ q.Leaf n i plan ∧ i.Noted plan q := by
  obtain ⟨d, initial, hd, hkind, hfree⟩ := h.defined
  exact hostTo_create_leaf hp hd hkind h.planned h.plain hfree hcreate

theorem Page.MakesLeaf.congr (h : p.MakesLeaf tag t plan) (hq : q.registry = p.registry) : q.MakesLeaf tag t plan where
  planned := h.planned
  plain s tag hop := by
    rw [Page.Defines, hq]
    exact h.plain s tag hop
  defined := by
    rw [hq]
    exact h.defined

/-- A widget that the build has created, if it has come to that. -/
structure Instance.Embeds (o : Instance) (t : Template) (s : Slot) (tag : String) (t' : Template) (plan : Plan)
    (done : List Op) (p : Page) : Prop where
  template : o.template = t
  widget : .createElement s tag .html ∈ done → ∃ n i, o.node? s = some n ∧ i.template = t' ∧ p.Leaf n i plan ∧
    i.Abreast plan (.flushNested s ∈ done) p

namespace Instance.Embeds

variable {done rest : List Op}

theorem warned (h : o.Embeds t s tag t' plan done p) (step : Step) :
    o.Embeds t s tag t' plan done (stepWarned .build op step p) := by
  have hsteady := Instance.steady_stepWarned .build op step p
  refine ⟨h.template, fun hmem => ?_⟩
  obtain ⟨n, i, hn, htemplate, hleaf, habreast⟩ := h.widget hmem
  refine ⟨n, i, hn, htemplate, hleaf.alike hsteady.toAlike, habreast.same (fun _ _ _ _ => ?_) ?_⟩
  · rw [Instance.document_stepWarned]
  · rw [Instance.component_stepWarned]

theorem binds {m : Option NodeId} (hmakes : p₀.MakesLeaf tag t' plan)
    (hunder : o.Underway strict root p₀ k (op :: rest) p) (hdone : Op.Sequence 0 done k) (hop : op.bound? = some k)
    (hk : k < o.slots.length) (hexec : o.execBuild (hostTo depth) root op p = some (step, q))
    (hgrown : p.Grown strict none q) (hinst : step.inst = o.bind k m) (h : o.Embeds t s tag t' plan done p) :
    (o.bind k m).Embeds t s tag t' plan (done ++ [op]) q := by
  have hp := hunder.grown.wellNested
  refine ⟨h.template, fun hmem => ?_⟩
  have hiff : .flushNested s ∈ done ++ [op] ↔ .flushNested s ∈ done := by
    rw [List.mem_append, List.mem_singleton]
    refine or_iff_left ?_
    rintro rfl
    cases hop
  rcases List.mem_append.mp hmem with hmem | hmem
  · obtain ⟨n, i, hn, htemplate, hleaf, habreast⟩ := h.widget hmem
    have hs : s < k := hdone.mentions_lt _ hmem s (List.mem_singleton_self s)
    refine ⟨n, i, ?_, htemplate, hleaf.grown hp hgrown, (habreast.grown hp hleaf hgrown).congr hiff⟩
    rw [Instance.node?_bind_of_ne (Nat.ne_of_lt hs)]
    exact hn
  · cases List.mem_singleton.mp hmem
    cases hop
    obtain ⟨n, hcreate, rfl⟩ := Instance.exec_createElement.mp hexec
    obtain ⟨i, htemplate, hleaf, hnoted⟩ := (hmakes.congr hunder.grown.registry).create hp hcreate
    rw [← hinst]
    refine ⟨n, i, ?_, htemplate, hleaf, fun _ => hnoted, fun hflushed => ?_⟩
    · exact Instance.node?_bind_self hk _
    · have hlt := hdone.mentions_lt _ (hiff.mp hflushed) k (List.mem_singleton_self k)
      exact absurd hlt (Nat.lt_irrefl k)

theorem uses (hunder : o.Underway strict root p₀ k (op :: rest) p) (hbuild : t.build = done ++ op :: rest)
    (htends : t.Tends (p₀.Tended strict)) (hop : op.bound? = none)
    (hexec : o.exec (hostTo depth) op p = some (step, q)) (hsteady : p.Steady q)
    (h : o.Embeds t s tag t' plan done p) : o.Embeds t s tag t' plan (done ++ [op]) q := by
  refine ⟨h.template, fun hmem => ?_⟩
  have hcreated : .createElement s tag .html ∈ done := by
    refine (List.mem_append.mp hmem).resolve_right fun hmem => ?_
    cases List.mem_singleton.mp hmem
    cases hop
  obtain ⟨n, i, hn, htemplate, hleaf, habreast⟩ := h.widget hcreated
  refine ⟨n, i, hn, htemplate, hleaf.alike hsteady.toAlike, ?_⟩
  have hmem' : ∀ o ∈ done, o ∈ t.build := fun o ho => hbuild ▸ List.mem_append_left _ ho
  have hcreates : o.template.Creates s := by
    rw [h.template]
    exact htends.creates _ (hmem' _ hcreated) s rfl nofun
  have horder := htends.build_order
  rw [hbuild] at horder
  have hnext := Instance.exec_abreast hunder.grown.wellNested (hunder.hosts hcreates hn) hleaf hop ?_ ?_ habreast
    hexec
  · refine hnext.congr ?_
    rw [List.mem_append, List.mem_singleton, eq_comm]
  · rintro s' m rfl hm b hb
    have hflush : .flushNested s' ∈ o.template.build := by
      rw [h.template, hbuild]
      exact List.mem_append_right _ List.mem_cons_self
    exact hunder.busy_lt (hunder.created_le (h.template.symm ▸ htends) hflush hm) hb
  · exact fun hflushed => (List.pairwise_append.mp horder).2.2 _ hflushed op List.mem_cons_self s rfl

end Instance.Embeds

/-- A build leaves the widgets without further widgets that it has created abreast. -/
theorem Template.buildOn_embeds {strict : Prop} {c : ComponentId} {sink : Sink} {report : Report}
    (hp : p.WellNested strict) (htends : t.Tends (p.Tended strict)) (hmakes : p.MakesLeaf tag t' plan)
    (h : t.buildOn (hostTo depth) c root sink p = some (.ok (o, report), q)) : o.Embeds t s tag t' plan t.build q := by
  refine buildOn_invariant (hostTo_creates depth) (hostTo_flushes depth)
    (P := fun done o p' => o.Embeds t s tag t' plan done p') ⟨?_, ?_⟩ (fun _ h => ⟨h.template, h.widget⟩) hp htends
    ⟨rfl, nofun⟩ h
  · intro done rest op k o p₁ step q₁ m hunder _ hdone hop hk hexec hgrown hinst hkept
    exact (hkept.binds hmakes hunder hdone hop hk hexec hgrown hinst).warned step
  · intro done rest op k o p₁ step q₁ hunder hbuild _ hop hexec hsteady hkept
    rw [hkept.template] at hbuild
    rw [Instance.execBuild_of_not_bound hop] at hexec
    exact (hkept.uses hunder hbuild htends hop hexec hsteady).warned step

end LiveMarkup
