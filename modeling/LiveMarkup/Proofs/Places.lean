import LiveMarkup.Proofs.SlotOrder

namespace LiveMarkup

variable {plan : Plan} {place : Op × ValueSpec}

theorem Target.op_inj {t t' : Target} {s s' : Slot} {value value' : Computation}
    (h : t.op s value = t'.op s' value') : t = t' ∧ s = s' ∧ value = value' := by
  cases t <;> cases t' <;> simp only [Target.op, Op.setProperty.injEq, Op.setAttribute.injEq, reduceCtorEq] at h <;>
    obtain ⟨rfl, rfl, rfl⟩ := h <;> exact ⟨rfl, rfl, rfl⟩

namespace Plan

/-- The specs of a node itself, each with the instruction that shows its value again. -/
def places : Plan → List (Op × ValueSpec)
  | .element head _ => head.attributes.map fun a => (a.1.op head.slot a.2.value, a.2)
  | .text slot spec => [(.setText slot spec.value, spec)]

theorem slot_of_place (h : place ∈ plan.places) : place.1.slot = plan.slot := by
  cases plan with
  | text slot spec =>
    cases List.mem_singleton.mp h
    rfl
  | element head children =>
    obtain ⟨⟨target, spec⟩, -, rfl⟩ := List.mem_map.mp h
    cases target <;> rfl

theorem place_ne_flush (h : place ∈ plan.places) (s : Slot) : place.1 ≠ .flushNested s := by
  cases plan with
  | text slot spec =>
    cases List.mem_singleton.mp h
    exact nofun
  | element head children =>
    obtain ⟨⟨target, spec⟩, -, rfl⟩ := List.mem_map.mp h
    cases target <;> exact nofun

/-- What an instruction computes is the value of its spec. -/
theorem value_of_place {plan' : Plan} {place' : Op × ValueSpec} (h : place ∈ plan.places) (h' : place' ∈ plan'.places)
    (heq : place.1 = place'.1) : place.2.value = place'.2.value := by
  cases plan with
  | text slot spec =>
    cases List.mem_singleton.mp h
    cases plan' with
    | text slot' spec' =>
      cases List.mem_singleton.mp h'
      exact (Op.setText.inj heq).2
    | element head' children' =>
      obtain ⟨⟨target, spec'⟩, -, rfl⟩ := List.mem_map.mp h'
      cases target <;> cases heq
  | element head children =>
    obtain ⟨⟨target, spec⟩, -, rfl⟩ := List.mem_map.mp h
    cases plan' with
    | text slot' spec' =>
      cases List.mem_singleton.mp h'
      cases target <;> cases heq
    | element head' children' =>
      obtain ⟨⟨target', spec'⟩, -, rfl⟩ := List.mem_map.mp h'
      exact (Target.op_inj heq).2.2

theorem eq_of_slot {sub sub' : Plan} {k : Nat} (hnum : plan.NumberedFrom k) (hsub : sub ∈ plan.preorder)
    (hsub' : sub' ∈ plan.preorder) (h : sub.slot = sub'.slot) : sub = sub' := by
  obtain ⟨j, hj⟩ := List.mem_iff_getElem?.mp hsub
  obtain ⟨j', hj'⟩ := List.mem_iff_getElem?.mp hsub'
  rw [Plan.slot_of_preorder hnum hj, Plan.slot_of_preorder hnum hj'] at h
  cases Nat.add_left_cancel h
  exact Option.some.inj (hj.symm.trans hj')

end Plan

namespace Plan

/-- The refresh steps of a node are those of its specs, and flushes. -/
theorem ownRefresh_eq (plan : Plan) : ∃ flushes,
    plan.ownRefresh = plan.places.filterMap (fun place => RefreshStep.gated? place.2.deps place.1) ++ flushes ∧
      ∀ step ∈ flushes, step.op = .flushNested plan.slot ∧ ∃ head children, plan = .element head children := by
  cases plan with
  | text slot spec =>
    refine ⟨[], ?_, fun _ h => absurd h List.not_mem_nil⟩
    rw [ownRefresh, places, List.append_nil, List.filterMap_cons, List.filterMap_nil]
    cases RefreshStep.gated? spec.deps (.setText slot spec.value) <;> rfl
  | element head children =>
    refine ⟨if head.nested then [.unconditional (.flushNested head.slot)] else [], ?_, ?_⟩
    · rw [places, List.filterMap_map]
      rfl
    · intro step hstep
      split at hstep
      · cases List.mem_singleton.mp hstep
        exact ⟨rfl, head, children, rfl⟩
      · exact absurd hstep List.not_mem_nil

theorem refresh_cases {step : RefreshStep} (h : step ∈ plan.refresh) :
    ∃ sub ∈ plan.preorder, (∃ place ∈ sub.places, step.op = place.1) ∨
      step.op = .flushNested sub.slot ∧ ∃ head children, sub = .element head children := by
  rw [Plan.refresh_eq_flatMap] at h
  obtain ⟨sub, hsub, hstep⟩ := List.mem_flatMap.mp h
  obtain ⟨flushes, hown, hflushes⟩ := sub.ownRefresh_eq
  rw [hown] at hstep
  refine ⟨sub, hsub, ?_⟩
  rcases List.mem_append.mp hstep with hstep | hstep
  · obtain ⟨place, hplace, hgated⟩ := List.mem_filterMap.mp hstep
    simp only [RefreshStep.gated?, Option.ite_none_left_eq_some, Option.some.injEq] at hgated
    obtain ⟨-, rfl⟩ := hgated
    exact Or.inl ⟨place, hplace, rfl⟩
  · exact Or.inr (hflushes step hstep)

/-- A change of a dependency triggers the instruction of the spec. -/
theorem exists_step {sub : Plan} (hsub : sub ∈ plan.preorder) (hplace : place ∈ sub.places) {name : String}
    (hname : name ∈ place.2.deps) {changed : Names} (hchanged : changed.contains name = true) :
    ∃ step ∈ plan.refresh.filter fun s => s.triggeredBy changed, step.op = place.1 := by
  have hdeps : place.2.deps.isEmpty = false := List.isEmpty_eq_false_iff.mpr (List.ne_nil_of_mem hname)
  have htriggered : RefreshStep.triggeredBy ⟨firstOccurrences place.2.deps, place.1, false⟩ changed = true :=
    List.any_eq_true.mpr ⟨name, mem_firstOccurrences.mpr hname, hchanged⟩
  refine ⟨_, List.mem_filter.mpr ⟨?_, htriggered⟩, rfl⟩
  obtain ⟨flushes, hown, -⟩ := sub.ownRefresh_eq
  rw [Plan.refresh_eq_flatMap]
  refine List.mem_flatMap.mpr ⟨sub, hsub, ?_⟩
  rw [hown]
  refine List.mem_append_left _ (List.mem_filterMap.mpr ⟨place, hplace, ?_⟩)
  simp only [RefreshStep.gated?, hdeps, Bool.false_eq_true, ↓reduceIte]

end Plan

end LiveMarkup
