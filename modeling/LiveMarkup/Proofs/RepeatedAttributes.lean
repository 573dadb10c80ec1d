import LiveMarkup.Proofs.InnerView
import LiveMarkup.Proofs.Moves
import LiveMarkup.Proofs.PlannedWrites
import LiveMarkup.Proofs.SingleRound

namespace LiveMarkup

variable {p q : Page} {i : Instance} {current : ValueSpec}

/-- Of the specs for one target, the last one that depends on what has changed. If none does, the one that was in charge
stays so. -/
def inCharge (specs : List ValueSpec) (current : ValueSpec) (changed : Names) : ValueSpec :=
  ((specs.filter (·.dependsOn changed)).getLast?).getD current

theorem inCharge_mem {specs : List ValueSpec} (h : current ∈ specs) (changed : Names) :
    inCharge specs current changed ∈ specs := by
  rw [inCharge]
  cases hlast : (specs.filter (·.dependsOn changed)).getLast? with
  | none => exact h
  | some spec => exact List.mem_of_mem_filter (List.mem_of_getLast? hlast)

/-- If the last spec depends on all that the others do, it stays in charge. -/
theorem inCharge_last {specs : List ValueSpec} {last : ValueSpec} (hlast : specs.getLast? = some last)
    (hdeps : ∀ spec ∈ specs, ∀ name ∈ spec.deps, name ∈ last.deps) (changed : Names) :
    inCharge specs last changed = last := by
  rw [inCharge]
  cases hcharge : (specs.filter (·.dependsOn changed)).getLast? with
  | none => rfl
  | some spec =>
    obtain ⟨hspec, hchanged⟩ := List.mem_filter.mp (List.mem_of_getLast? hcharge)
    obtain ⟨name, hname, hcontains⟩ := List.any_eq_true.mp hchanged
    have htriggered : last.dependsOn changed = true :=
      List.any_eq_true.mpr ⟨name, hdeps spec hspec name hname, hcontains⟩
    obtain ⟨before, rfl⟩ := List.getLast?_eq_some_iff.mp hlast
    rw [List.filter_append, List.filter_singleton, htriggered] at hcharge
    simp only [cond_true, List.getLast?_concat] at hcharge
    exact (Option.some.inj hcharge).symm

/-- The changes that a move takes from the component. -/
def Move.taken? (i : Instance) (p : Page) : Move → Option Names
  | .deliver => some (p.component i.component).pending
  | _ => none

/-- The changes that the deliveries among the moves take, in turn. -/
def Instance.taken (i : Instance) : List Move → Page → List Names
  | [], _ => []
  | m :: rest, p => (m.taken? i p).toList ++ ((m.run i p).map fun r => i.taken rest r.2).getD []

theorem Instance.taken_cons {m : Move} (h : m.run i p = some ((), q)) (rest : List Move) :
    i.taken (m :: rest) p = (m.taken? i p).toList ++ i.taken rest q := by
  rw [taken, h, Option.map_some, Option.getD_some]

namespace Instance

/-- An element of a plan with a target that its attributes write to, and the node of the instance that shows it. -/
structure Presents (i : Instance) (plan : Plan) (head : PlanHead) (n : NodeId) (t : Target) : Prop where
  compiled : i.template.Compiled
  steps : i.template.refresh = plan.refresh
  numbered : plan.NumberedFrom 0
  planned : ∃ children, .element head children ∈ plan.preorder
  owns : i.Owns head.slot n
  apart : ∀ a ∈ head.attributes, a.1 = t ∨ a.1.Apart t
  language : ∀ a ∈ head.attributes, a.2.FromLanguage ∧ a.2.value.formula.CallbackFree

/-- Between two moves: the node carries the value of the spec in charge, unless that depends on a change that is
pending. No custom elements and no callbacks are there, and the component is free. -/
structure Upholds (i : Instance) (n : NodeId) (t : Target) (current : ValueSpec) (p : Page) : Prop where
  plain : p.Plain
  free : p.access i.component = .free
  owned : i.component < p.components.size
  inert : ∀ name, ((p.component i.component).get name).Inert
  element : ∃ e, p.document.element? n = some e
  carried : current.dependsOn (p.component i.component).pending = true ∨ p.Reflects i.component n t current.value

variable {plan : Plan} {head : PlanHead} {n : NodeId} {t : Target}

theorem Presents.spec (h : i.Presents plan head n t) {spec : ValueSpec} (hspec : spec ∈ head.specsFor t) :
    spec.FromLanguage ∧ spec.value.formula.CallbackFree := by
  obtain ⟨a, ha, rfl⟩ := List.mem_map.mp hspec
  exact h.language a (List.mem_of_mem_filter ha)

/-- A change of the component that notes every property it changes. -/
theorem Upholds.modifyComponent (h : i.Upholds n t current p) (hlanguage : current.FromLanguage)
    {f : Component → Component} (hinert : ∀ name, ((f (p.component i.component)).get name).Inert)
    (hnoted : ∀ name, (f (p.component i.component)).get name = (p.component i.component).get name ∨
      (f (p.component i.component)).pending.contains name = true)
    (hpending : ∀ name, (p.component i.component).pending.contains name = true →
      (f (p.component i.component)).pending.contains name = true) :
    i.Upholds n t current (p.modifyComponent i.component f) := by
  have hcomponent := Page.component_modifyComponent h.owned f
  have hfree : (p.modifyComponent i.component f).access i.component = .free :=
    (p.access_modifyComponent ..).trans h.free
  refine ⟨⟨h.plain.undefined, h.plain.lifeless⟩, hfree, ?_, ?_, h.element, ?_⟩
  · rw [Page.size_modifyComponent]
    exact h.owned
  · rw [hcomponent]
    exact hinert
  · rw [hcomponent]
    cases hdue : current.dependsOn (f (p.component i.component)).pending with
    | true => exact Or.inl rfl
    | false =>
      have hsame : ∀ name ∈ current.deps, (f (p.component i.component)).pending.contains name ≠ true :=
        fun name hname hcontains => Bool.false_ne_true (hdue.symm.trans (List.any_eq_true.mpr ⟨name, hname, hcontains⟩))
      have hread : ∀ name ∈ current.deps,
          (f (p.component i.component)).get name = (p.component i.component).get name :=
        fun name hname => (hnoted name).resolve_right (hsame name hname)
      have hbefore : ¬current.dependsOn (p.component i.component).pending = true := by
        intro hdue'
        obtain ⟨name, hname, hcontains⟩ := List.any_eq_true.mp hdue'
        exact hsame name hname (hpending name hcontains)
      refine Or.inr ⟨hlanguage.ofProperties, fun v hv => (h.carried.resolve_left hbefore).2 v ?_⟩
      rw [Page.eval_of_free hfree hlanguage, hcomponent, hlanguage.evalIn_congr hread] at hv
      rw [Page.eval_of_free h.free hlanguage]
      exact hv

theorem upholds_keptBySetting (hlanguage : current.FromLanguage) :
    Page.KeptBySetting i.component (i.Upholds n t current) where
  free _ h := h.free
  inert _ h := h.inert
  set p name v h hv := by
    refine h.modifyComponent hlanguage (fun n => ?_) (Component.noted_set _ name v) (Component.contains_set _ name v)
    rcases Component.get_set (p.component i.component) name v n with hn | ⟨-, hn, -⟩
    · rw [hn]
      exact h.inert n
    · rw [hn]
      exact hv
  warn p message h := by
    have hsame : p.SameState (p.warn message) := .of_components rfl rfl rfl
    refine ⟨hsame.plain h.plain, h.free, h.owned, h.inert, h.element, h.carried.imp_right fun hcarried => ?_⟩
    exact hcarried.sameState hsame rfl

theorem Presents.values (h : i.Presents plan head n t) (hfree : p.access i.component = .free)
    (hinert : ∀ name, ((p.component i.component).get name).Inert) :
    ∀ a ∈ head.attributes, a.2.value.formula.OfProperties ∧
      ∀ v, p.eval i.component a.2.value.formula = .ok v → v.Inert := by
  intro a ha
  obtain ⟨hlanguage, hcallbacks⟩ := h.language a ha
  refine ⟨hlanguage.ofProperties, fun v hv => ?_⟩
  rw [Page.eval_of_free hfree hlanguage] at hv
  exact ValueSpec.evalIn_inert hcallbacks hinert hv

/-- Refreshing leaves on the node the value of the spec that is in charge after the change. -/
theorem Presents.refresh (hd : i.Presents plan head n t) {host : Host} (hhost : host.ServesPlain) (hp : p.Plain)
    (hfree : p.access i.component = .free) (hinert : ∀ name, ((p.component i.component).get name).Inert) {e : Element}
    (he : p.document.element? n = some e) (hcurrent : current ∈ head.specsFor t) {changed : Names}
    (hcarried : current.dependsOn changed = true ∨ p.Reflects i.component n t current.value) :
    ∃ report q e', i.refresh host changed p = some (report, q) ∧ p.SameState q ∧ q.document.element? n = some e' ∧
      q.Reflects i.component n t (inCharge (head.specsFor t) current changed).value := by
  obtain ⟨children, hplanned⟩ := hd.planned
  have hspares : ∀ step ∈ plan.refresh.filter fun s => s.triggeredBy changed,
      step.op.Spares p i.component head.slot t :=
    fun step hstep => Plan.spares_refresh hd.numbered hplanned hd.apart (hd.values hfree hinert) hstep
  have hrun := fun (written : List Computation)
      (hlast : ∀ value, written.getLast? = some value → p.Reflects i.component n t value) =>
    runSteps_reflects hhost hp hd.owns he hspares hlast
  simp only [Plan.written_refresh hd.numbered hplanned] at hrun
  rw [Instance.refresh, hd.steps, inCharge]
  cases hlast : ((head.specsFor t).filter (·.dependsOn changed)).getLast? with
  | some spec =>
    obtain ⟨report, q, e', hsteps, hsame, he', hreflects⟩ := hrun [] fun _ h => by cases h
    refine ⟨report, q, e', hsteps, hsame, he', hreflects _ ?_⟩
    rw [List.nil_append, List.getLast?_map, hlast]
    rfl
  | none =>
    -- no attribute is written, so the one in charge does not depend on the change either
    have hnone := List.getLast?_eq_none_iff.mp hlast
    have hidle : ¬current.dependsOn changed = true := List.filter_eq_nil_iff.mp hnone current hcurrent
    obtain ⟨report, q, e', hsteps, hsame, he', hreflects⟩ := hrun [current.value] (fun value hvalue => by
      cases hvalue
      exact hcarried.resolve_left hidle)
    refine ⟨report, q, e', hsteps, hsame, he', hreflects _ ?_⟩
    rw [hnone]
    rfl

/-- A delivery takes the changes, and the spec in charge after them has its value on the node. -/
theorem Presents.deliver (hd : i.Presents plan head n t) (h : i.Upholds n t current p)
    (hcurrent : current ∈ head.specsFor t) :
    ∃ q, Move.deliver.run i p = some ((), q) ∧ q.document.shape = p.document.shape ∧
      i.Upholds n t (inCharge (head.specsFor t) current (p.component i.component).pending) q ∧
      q.Reflects i.component n t (inCharge (head.specsFor t) current (p.component i.component).pending).value := by
  have hdelivers : ∀ report q, i.deliverRounds (hostTo p.nesting) 32 p = some (report, q) →
      Move.deliver.run i p = some ((), q) ∧ q.document.shape = p.document.shape := by
    intro report q hrun
    have hkeeps := deliverRounds_keeps (hostTo_orderly p.nesting) hd.compiled h.plain.widgetsOnly hrun
    refine ⟨?_, hkeeps.shape trivial⟩
    simp only [Move.run, Act.bind_eq_some, Act.pure_eq_some, withHost_eq_some]
    exact ⟨report, q, hrun, trivial, rfl⟩
  cases hpending : (p.component i.component).pending.isEmpty with
  | true =>
    have hnever : ∀ spec : ValueSpec, spec.dependsOn (p.component i.component).pending = false := by
      intro spec
      rw [ValueSpec.dependsOn, List.any_eq_false]
      rintro name - hname
      rw [Dict.contains_of_isEmpty hpending] at hname
      cases hname
    have hsame : inCharge (head.specsFor t) current (p.component i.component).pending = current := by
      rw [inCharge, List.filter_eq_nil_iff.mpr fun spec _ => by simp [hnever spec]]
      rfl
    obtain ⟨hrun, hshape⟩ := hdelivers _ _ (deliverRounds_idle_eq h.free hpending 31)
    rw [hsame]
    refine ⟨p, hrun, hshape, h, h.carried.resolve_left ?_⟩
    rw [hnever]
    exact Bool.false_ne_true
  | false =>
    have hcomponent := Page.component_modifyComponent h.owned (·.clearChanges)
    have hfree : (p.modifyComponent i.component (·.clearChanges)).access i.component = .free :=
      (p.access_modifyComponent ..).trans h.free
    obtain ⟨e, he⟩ := h.element
    have hcarried : current.dependsOn (p.component i.component).pending = true ∨
        (p.modifyComponent i.component (·.clearChanges)).Reflects i.component n t current.value := by
      have hlanguage := (hd.spec hcurrent).1
      refine h.carried.imp_right fun hcarried => ⟨hcarried.1, fun v hv => hcarried.2 v ?_⟩
      rw [Page.eval_of_free hfree hlanguage, hcomponent] at hv
      rw [Page.eval_of_free h.free hlanguage]
      exact hv
    have hinert : ∀ name,
        (((p.modifyComponent i.component (·.clearChanges)).component i.component).get name).Inert := by
      rw [hcomponent]
      exact h.inert
    have hplain : (p.modifyComponent i.component (·.clearChanges)).Plain := ⟨h.plain.undefined, h.plain.lifeless⟩
    obtain ⟨report, q, e', hrefresh, hsame, he', hreflects⟩ := hd.refresh (hostTo_servesPlain p.registry.size) hplain
      hfree hinert he hcurrent hcarried
    have hfree' : q.access i.component = .free := (hsame.access _).trans hfree
    -- the refresh itself changes no property, so the next round finds nothing to do
    have hidle : (q.component i.component).pending.isEmpty = true := by
      rw [hsame.pending, hcomponent]
      rfl
    have hothers : i.Delivered (hostTo p.nesting) 31 q .empty q :=
      deliverRounds_delivered (deliverRounds_idle_eq hfree' hidle 30)
    obtain ⟨hrun, hshape⟩ := hdelivers _ _ (Delivered.round h.free hpending hrefresh hothers).deliverRounds
    refine ⟨q, hrun, hshape, ⟨hsame.plain hplain, hfree', ?_, ?_, ⟨e', he'⟩, Or.inr hreflects⟩, hreflects⟩
    · rw [hsame.count, Page.size_modifyComponent]
      exact h.owned
    · rw [Component.get_congr (hsame.props i.component)]
      exact hinert

/-- Any admissible move returns, and the spec that it leaves in charge is upheld. -/
theorem Presents.move (hd : i.Presents plan head n t) (h : i.Upholds n t current p)
    (hcurrent : current ∈ head.specsFor t) {m : Move} (hm : m.Admissible p.document i.component) :
    ∃ q, m.run i p = some ((), q) ∧ q.document.shape = p.document.shape ∧
      i.Upholds n t ((m.taken? i p).toList.foldl (inCharge (head.specsFor t)) current) q := by
  have hkept : Page.KeptBySetting i.component (i.Upholds n t current) :=
    upholds_keptBySetting (hd.spec hcurrent).1
  cases m with
  | set name v => exact ⟨_, Act.modify_eq_some.mpr rfl, rfl, hkept.set p name v h hm⟩
  | notify name =>
    refine ⟨_, Act.modify_eq_some.mpr rfl, rfl, ?_⟩
    exact h.modifyComponent (hd.spec hcurrent).1 h.inert (fun _ => Or.inl rfl)
      fun _ hn => Component.contains_add.mpr (Or.inr hn)
  | dispatch target kind detail =>
    obtain ⟨result, q, hrun, hq, hdocument⟩ := dispatch_keeps hkept hm.1 hm.2 h
    refine ⟨q, ?_, congrArg Document.shape hdocument, hq⟩
    simp only [Move.run, Act.bind_eq_some, Act.pure_eq_some]
    exact ⟨result, q, hrun, trivial, rfl⟩
  | deliver =>
    obtain ⟨q, hrun, hshape, hq, -⟩ := hd.deliver h hcurrent
    exact ⟨q, hrun, hshape, hq⟩

/-- However the moves went, after a last delivery the node carries the value of the spec in charge. -/
theorem Presents.moves (hd : i.Presents plan head n t) {moves : List Move} (h : i.Upholds n t current p)
    (hcurrent : current ∈ head.specsFor t) (hmoves : ∀ m ∈ moves, m.Admissible p.document i.component) :
    ∃ q, runMoves i (moves ++ [.deliver]) p = some ((), q) ∧
      q.Reflects i.component n t
        ((i.taken (moves ++ [.deliver]) p).foldl (inCharge (head.specsFor t)) current).value := by
  induction moves generalizing p current with
  | nil =>
    obtain ⟨q, hrun, -, -, hreflects⟩ := hd.deliver h hcurrent
    refine ⟨q, Act.bind_eq_some.mpr ⟨(), q, hrun, Act.pure_eq_some.mpr ⟨rfl, rfl⟩⟩, ?_⟩
    rw [List.nil_append, taken_cons hrun]
    exact hreflects
  | cons m rest ih =>
    obtain ⟨p₁, hrun, hshape, hupholds⟩ := hd.move h hcurrent (hmoves m List.mem_cons_self)
    have hnext : (m.taken? i p).toList.foldl (inCharge (head.specsFor t)) current ∈ head.specsFor t := by
      cases m with
      | deliver => exact inCharge_mem hcurrent _
      | _ => exact hcurrent
    obtain ⟨q, hrest, hreflects⟩ := ih hupholds hnext fun m' hm' =>
      (hmoves m' (List.mem_cons_of_mem _ hm')).of_shape hshape
    refine ⟨q, Act.bind_eq_some.mpr ⟨(), p₁, hrun, hrest⟩, ?_⟩
    rw [List.cons_append, taken_cons hrun, List.foldl_append]
    exact hreflects

end Instance

theorem Template.free_of_obstacle? {t : Template} {c : ComponentId} {root : Option NodeId}
    (h : t.obstacle? c root p = none) : p.access c = .free := by
  by_contra hbusy
  cases hcreates : t.createsRoot with
  | true => cases root <;> simp [obstacle?, hcreates, hbusy] at h
  | false =>
    cases root with
    | none => simp [obstacle?, hcreates] at h
    | some r =>
      simp only [obstacle?, hcreates, ne_eq, hbusy, not_false_eq_true, ↓reduceIte] at h
      split at h <;> cases h

/-- Building a template on a page without custom elements shows, of all attributes with one target, the last one. -/
theorem Template.instantiate_upholds (hp : p.Plain) {maps maps' : PropertyMaps} {options : CompileOptions}
    {node : TemplateNode} {t : Template} (h : compileWith p.registry.declared maps options node = (.ok t, maps'))
    {c : ComponentId} (hc : c < p.components.size) (hinert : ∀ name, ((p.component c).get name).Inert)
    {root : Option NodeId} (hobstacle : t.obstacle? c root p = none)
    (hroot : ∀ r, root = some r → ∃ e, p.document.element? r = some e) (sink : Sink) :
    ∃ i report built, t.instantiate c root sink p = some (.ok (i, report), built) ∧ i.component = c ∧
      ∀ head children, .element head children ∈ (node.rootPlan p.registry.declared options).preorder →
        (∀ a ∈ head.attributes, a.2.FromLanguage ∧ a.2.value.formula.CallbackFree) →
        ∀ target last, (head.specsFor target).getLast? = some last →
          ∃ n, i.Presents (node.rootPlan p.registry.declared options) head n target ∧ i.Upholds n target last built ∧
            built.Reflects i.component n target last.value := by
  have hcompiled : t.Compiled := ⟨_, _, _, _, _, h⟩
  obtain ⟨top, below, rfl, htag, hleaves, rfl⟩ := compileWith_ok h
  have hdeclared : ∀ tag, p.registry.declared tag = none := fun tag => by
    rw [Registry.declared, hp.undefined]
    rfl
  obtain ⟨hnum, hsize⟩ := TemplateNode.rootPlan_numbered p.registry.declared options hleaves
  have hfree := Template.free_of_obstacle? hobstacle
  obtain ⟨i, report, built, hbuild, htemplate, rfl, hbound, hinjective, hfilling⟩ :=
    Template.instantiate_filled hp hcompiled sink hobstacle hroot
  refine ⟨i, report, built, hbuild, rfl, fun head children hplanned hlanguage target last hlast => ?_⟩
  have hslot : head.slot < (numberedSlots options.rootName (TemplateNode.node top below).size).length := by
    rw [numberedSlots, List.length_map, List.length_range, ← hsize]
    exact Plan.slot_lt_size hnum hplanned
  obtain ⟨n, hn⟩ := hbound head.slot hslot
  have hn := Instance.node_eq_ok.mp hn
  have hapart := (TemplateNode.rootPlan_distinguishes hdeclared htag hleaves _ hplanned).apart (List.mem_of_getLast? hlast)
  have hpresents : i.Presents ((TemplateNode.node top below).rootPlan p.registry.declared options) head n target :=
    ⟨htemplate ▸ hcompiled, by rw [htemplate]; rfl, hnum, ⟨children, hplanned⟩,
      ⟨hn, fun s' hs' => hinjective s' _ n hs' hn⟩, hapart, hlanguage⟩
  have hfills := hfilling head.slot target (Plan.createText_not_mem_build hnum hplanned) fun op hop =>
    Plan.spares_build hnum hplanned hapart (hpresents.values hfree hinert) hop
  obtain ⟨hel, hfilled⟩ := hfills.filled n hn
  have hbuilt : built.Reflects i.component n target last.value := by
    refine hfilled last.value ((congrArg List.getLast? (Plan.written_build hnum hplanned target)).trans ?_)
    rw [List.getLast?_map, hlast]
    rfl
  refine ⟨n, hpresents, ?_, hbuilt⟩
  refine ⟨hfills.state.plain hp, (hfills.state.access _).trans hfree, ?_, ?_, hel, Or.inr hbuilt⟩
  · rw [hfills.state.count]
    exact hc
  · rw [Component.get_congr (hfills.state.props i.component)]
    exact hinert

/-- Attributes of one element with one target, on a page without custom elements, with values from the expression
language and no callbacks. When the template is built, the target has the value of the last one declared. From then on
each delivery puts the last one in charge that depends on what has changed, and the target has the present value of the
one in charge, if that does not fail. So the last one declared is always shown if it depends on all that the others
do. -/
theorem attribute_in_charge_is_shown {p : Page} (hp : p.Plain) {maps maps' : PropertyMaps} {options : CompileOptions}
    {node : TemplateNode} {t : Template} (h : compileWith p.registry.declared maps options node = (.ok t, maps'))
    {c : ComponentId} (hc : c < p.components.size) (hinert : ∀ name, ((p.component c).get name).Inert)
    {root : Option NodeId} (hobstacle : t.obstacle? c root p = none)
    (hroot : ∀ r, root = some r → ∃ e, p.document.element? r = some e) (sink : Sink) :
    ∃ i report built, t.instantiate c root sink p = some (.ok (i, report), built) ∧
      ∀ head children, .element head children ∈ (node.rootPlan p.registry.declared options).preorder →
        (∀ a ∈ head.attributes, a.2.FromLanguage ∧ a.2.value.formula.CallbackFree) →
        ∀ target last, (head.specsFor target).getLast? = some last →
          ∃ n, i.node? head.slot = some n ∧ (∀ v, built.valueFor c last = .ok v → built.Carries n target v) ∧
            ∀ moves : List Move, (∀ m ∈ moves, m.Admissible built.document c) →
              ∃ q current, runMoves i (moves ++ [.deliver]) built = some ((), q) ∧
                current = (i.taken (moves ++ [.deliver]) built).foldl (inCharge (head.specsFor target)) last ∧
                (∀ v, q.valueFor c current = .ok v → q.Carries n target v) ∧
                ((∀ spec ∈ head.specsFor target, ∀ name ∈ spec.deps, name ∈ last.deps) → current = last) := by
  obtain ⟨i, report, built, hbuild, rfl, hshows⟩ := Template.instantiate_upholds hp h hc hinert hobstacle hroot sink
  refine ⟨i, report, built, hbuild, fun head children hplanned hlanguage target last hlast => ?_⟩
  obtain ⟨n, hpresents, hupholds, hbuilt⟩ := hshows head children hplanned hlanguage target last hlast
  refine ⟨n, hpresents.owns.node, hbuilt.2, fun moves hmoves => ?_⟩
  obtain ⟨q, hrun, hreflects⟩ := hpresents.moves hupholds (List.mem_of_getLast? hlast) hmoves
  exact ⟨q, _, hrun, rfl, hreflects.2, fun hdeps => List.foldl_fixed' (inCharge_last hlast hdeps) _⟩

/-- A paragraph that declares its title twice. -/
def sampleTitlesHead : NodeHead :=
  { NodeHead.ofTag "p" with
    attributes := [("title", .property "x"), ("class", .property "x"), ("title", .property "y")] }

def sampleTitles : TemplateNode :=
  .node (NodeHead.ofTag "div") [.node sampleTitlesHead []]

def sampleTitlesTemplate : Template :=
  .ofPlan {} sampleTitles.size (sampleTitles.rootPlan (fun _ => none) {})

def sampleTitlesPage : Page :=
  samplePage [("x", .text "a"), ("y", .text "b")]

def sampleTitle : Target :=
  .property (.single "title")

theorem sampleTitles_compiled :
    ∃ maps, compileWith sampleTitlesPage.registry.declared .empty {} sampleTitles = (.ok sampleTitlesTemplate, maps) :=
  ⟨_, rfl⟩

theorem sampleTitlesHead_planned :
    .element (sampleTitlesHead.plan (fun _ => none) {} 1 true .html) [] ∈
      (sampleTitles.rootPlan sampleTitlesPage.registry.declared {}).preorder :=
  List.mem_cons_of_mem _ List.mem_cons_self

theorem sampleTitlesHead_specsFor :
    (sampleTitlesHead.plan (fun _ => none) {} 1 true .html).specsFor sampleTitle = [.property "x", .property "y"] := by
  rfl

theorem sampleTitlesHead_language :
    ∀ a ∈ (sampleTitlesHead.plan (fun _ => none) {} 1 true .html).attributes,
      a.2.FromLanguage ∧ a.2.value.formula.CallbackFree := by
  intro a ha
  obtain ⟨b, hb, rfl⟩ := List.mem_map.mp ha
  simp only [sampleTitlesHead, List.mem_cons, List.not_mem_nil, or_false] at hb
  rcases hb with rfl | rfl | rfl <;> exact ⟨.property _, trivial⟩

theorem sampleTitlesPage_inert (name : String) : ((sampleTitlesPage.component 0).get name).Inert := by
  change (Option.getD (if name = "x" then some (Value.text "a") else if name = "y" then some (.text "b") else none)
    .null).Inert
  split
  · trivial
  · split <;> trivial

/-- What there is to know of the titles: what the paragraph has, what the two attributes compute, and which of their
properties the deliveries took. -/
structure TitleFacts where
  title : Option String
  first : Option String
  second : Option String
  taken : List (Bool × Bool)
deriving DecidableEq

def Page.titleFacts (p : Page) (taken : List Names) : TitleFacts where
  title := ((p.document.element? 1).bind fun e => e.props.get? "title").map Value.display
  first := ((p.valueFor 0 (.property "x")).map Value.display).toOption
  second := ((p.valueFor 0 (.property "y")).map Value.display).toOption
  taken := taken.map fun names => (names.contains "x", names.contains "y")

def sampleRetitlingMoves : List Move :=
  [.set "x" (.text "c")]

/-- Builds the paragraph, sets the property of the first title and delivers. -/
def sampleRetitling : Act (Option (Bool × TitleFacts)) := do
  match ← sampleTitlesTemplate.instantiate 0 none .caller with
  | .error _ => return none
  | .ok (i, _) =>
    let built ← get
    runMoves i (sampleRetitlingMoves ++ [.deliver])
    let p ← get
    return some (i.node? 1 = some 1, p.titleFacts (i.taken (sampleRetitlingMoves ++ [.deliver]) built))

theorem sampleRetitling_result : (sampleRetitling sampleTitlesPage).map (·.1) =
    some (some (true, ⟨some "c", some "c", some "b", [(true, false)]⟩)) := by
  decide +kernel

/-- The run in which the title of the paragraph is `c` in the end, although the attribute declared last computes
`b`. -/
structure Retitled (i : Instance) (built q : Page) (first second : Value) : Prop where
  moved : runMoves i (sampleRetitlingMoves ++ [.deliver]) built = some ((), q)
  node : i.node? 1 = some 1
  title : ((q.document.element? 1).bind fun e => e.props.get? "title").map Value.display = some "c"
  first : q.valueFor 0 (.property "x") = .ok first ∧ first.display = "c"
  second : q.valueFor 0 (.property "y") = .ok second ∧ second.display = "b"
  taken : (i.taken (sampleRetitlingMoves ++ [.deliver]) built).map
    (fun names => (names.contains "x", names.contains "y")) = [(true, false)]

theorem sampleRetitling_exists : ∃ i report built q first second,
    sampleTitlesTemplate.instantiate 0 none .caller sampleTitlesPage = some (.ok (i, report), built) ∧
      Retitled i built q first second := by
  have hvalue : ∀ {r : Except Fault Value} {s : String}, (r.map Value.display).toOption = some s →
      ∃ v, r = .ok v ∧ v.display = s := by
    intro r s h
    cases r with
    | error f => cases h
    | ok v => exact ⟨v, rfl, Option.some.inj h⟩
  obtain ⟨⟨facts, _⟩, hrun, hfacts⟩ := Option.map_eq_some_iff.mp sampleRetitling_result
  simp only [sampleRetitling, Act.bind_eq_some] at hrun
  obtain ⟨result, built, hbuild, hrun⟩ := hrun
  cases result with
  | error e =>
    cases hrun
    cases hfacts
  | ok r =>
    simp only [Act.bind_eq_some, Act.get_eq_some, Act.pure_eq_some] at hrun
    obtain ⟨_, _, ⟨rfl, rfl⟩, _, q, hmoved, _, _, ⟨rfl, rfl⟩, rfl, -⟩ := hrun
    simp only [Option.some.injEq, Prod.mk.injEq, decide_eq_true_eq, Page.titleFacts, TitleFacts.mk.injEq] at hfacts
    obtain ⟨hnode, htitle, hfirst, hsecond, htaken⟩ := hfacts
    obtain ⟨first, hfirst⟩ := hvalue hfirst
    obtain ⟨second, hsecond⟩ := hvalue hsecond
    exact ⟨r.1, r.2, built, q, first, second, hbuild, hmoved, hnode, htitle, hfirst, hsecond, htaken⟩

theorem Retitled.charge {built : Page} {first second : Value} (h : Retitled i built q first second) :
    (i.taken (sampleRetitlingMoves ++ [.deliver]) built).foldl
      (inCharge ((sampleTitlesHead.plan (fun _ => none) {} 1 true .html).specsFor sampleTitle))
      (.property "y") = .property "x" := by
  obtain ⟨names, htaken, hnames⟩ := List.map_eq_singleton_iff.mp h.taken
  obtain ⟨hx, hy⟩ := Prod.mk.inj hnames
  have hfirst : (ValueSpec.property "x").dependsOn names = true := by
    rw [ValueSpec.dependsOn, ValueSpec.property, List.any_cons, hx, Bool.true_or]
  have hsecond : (ValueSpec.property "y").dependsOn names = false := by
    rw [ValueSpec.dependsOn, ValueSpec.property, List.any_cons, hy, List.any_nil, Bool.or_false]
  rw [htaken, sampleTitlesHead_specsFor, List.foldl_cons, List.foldl_nil, inCharge, List.filter_cons, hfirst,
    if_pos rfl, List.filter_cons, hsecond, if_neg Bool.false_ne_true, List.filter_nil]
  rfl

/-- The attribute declared last is not shown after a delivery that runs only the one before it. -/
theorem last_declared_title_is_replaced :
    ∃ i report built q second,
      sampleTitlesTemplate.instantiate 0 none .caller sampleTitlesPage = some (.ok (i, report), built) ∧
      runMoves i (sampleRetitlingMoves ++ [.deliver]) built = some ((), q) ∧ i.node? 1 = some 1 ∧
      ((sampleTitlesHead.plan (fun _ => none) {} 1 true .html).specsFor sampleTitle).getLast? = some (.property "y") ∧
      (∀ spec ∈ (sampleTitlesHead.plan (fun _ => none) {} 1 true .html).specsFor sampleTitle,
        ∃ v, q.valueFor 0 spec = .ok v) ∧
      q.valueFor 0 (.property "y") = .ok second ∧ ¬q.Carries 1 sampleTitle second := by
  obtain ⟨i, report, built, q, first, second, hbuild, h⟩ := sampleRetitling_exists
  refine ⟨i, report, built, q, second, hbuild, h.moved, h.node, congrArg List.getLast? sampleTitlesHead_specsFor, ?_,
    h.second.1, ?_⟩
  · rw [sampleTitlesHead_specsFor]
    simp only [List.forall_mem_cons, List.not_mem_nil, false_implies, implies_true, and_true]
    exact ⟨⟨first, h.first.1⟩, second, h.second.1⟩
  · rintro ⟨e, he, hcarries⟩
    have htitle := h.title
    rw [he, Option.bind_some, hcarries.stored "title" rfl, Option.map_some, h.second.2] at htitle
    exact absurd (Option.some.inj htitle) (by decide)

theorem attribute_in_charge_is_shown_sampleTitles :
    sampleTitlesPage.Plain ∧ (∀ name, ((sampleTitlesPage.component 0).get name).Inert) ∧
      sampleTitlesTemplate.obstacle? 0 none sampleTitlesPage = none ∧
      ∃ i report built q first second,
        sampleTitlesTemplate.instantiate 0 none .caller sampleTitlesPage = some (.ok (i, report), built) ∧
        Retitled i built q first second ∧ (∀ m ∈ sampleRetitlingMoves, m.Admissible built.document 0) ∧
        (∀ v, built.valueFor 0 (.property "y") = .ok v → built.Carries 1 sampleTitle v) ∧
        q.Carries 1 sampleTitle first := by
  have hp : sampleTitlesPage.Plain := samplePage_plain _
  obtain ⟨maps, hcompile⟩ := sampleTitles_compiled
  obtain ⟨i, report, built, q, first, second, hbuild, h⟩ := sampleRetitling_exists
  have hobstacle : sampleTitlesTemplate.obstacle? 0 none sampleTitlesPage = none := rfl
  obtain ⟨i', report', built', hbuild', hshown⟩ := attribute_in_charge_is_shown hp hcompile (by decide)
    sampleTitlesPage_inert hobstacle nofun .caller
  cases hbuild.symm.trans hbuild'
  have hadmissible : ∀ m ∈ sampleRetitlingMoves, m.Admissible built.document 0 := by
    intro m hm
    cases List.mem_singleton.mp hm
    trivial
  obtain ⟨n, hn, hfresh, hmoves⟩ := hshown _ _ sampleTitlesHead_planned sampleTitlesHead_language sampleTitle
    (.property "y") (congrArg List.getLast? sampleTitlesHead_specsFor)
  cases h.node.symm.trans hn
  obtain ⟨q', current, hmoved, hcurrent, hcarries, -⟩ := hmoves sampleRetitlingMoves hadmissible
  cases h.moved.symm.trans hmoved
  refine ⟨hp, sampleTitlesPage_inert, rfl, i, report, built, q, first, second, hbuild, h, hadmissible, hfresh, ?_⟩
  refine hcarries first ?_
  rw [hcurrent, h.charge]
  exact h.first.1

end LiveMarkup
