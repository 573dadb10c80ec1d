import LiveMarkup.Proofs.RefreshFrame

namespace LiveMarkup

variable {s : Slot} {op : Op} {h : PlanHead} {plan : Plan} {step : RefreshStep} {k : Nat} {t : Template}
  {tags : String → Prop}

namespace Op

/-- The slot an instruction may leave with changes to be flushed. -/
def touched? : Op → Option Slot
  | .createElement s _ _ => some s
  | .setProperty s _ _ => some s
  | .setAttribute s _ _ => some s
  | _ => none

/-- The later instruction does not touch what the earlier one has flushed. -/
def LeavesFlushed (earlier later : Op) : Prop :=
  ∀ s, earlier = .flushNested s → later.touched? ≠ some s

theorem leavesFlushed_of_not_flush {earlier : Op} (h : ∀ s, earlier ≠ .flushNested s) (later : Op) :
    earlier.LeavesFlushed later :=
  fun s heq => absurd heq (h s)

theorem leavesFlushed_appendChild (parent child : Slot) (later : Op) :
    (appendChild parent child).LeavesFlushed later := by
  intro s heq
  cases heq

theorem leavesFlushed_of_untouched (earlier : Op) {later : Op} (h : later.touched? = none) :
    earlier.LeavesFlushed later := by
  intro s _ htouched
  rw [h] at htouched
  cases htouched

theorem leavesFlushed_of_slot {earlier later : Op} (h : earlier.slot ≠ later.slot) :
    earlier.LeavesFlushed later := by
  rintro s rfl htouched
  have hslot : later.slot = s := by cases later <;> cases htouched <;> rfl
  exact h hslot.symm

end Op

theorem PlanHead.slot_of_mem_build (hop : op ∈ h.build) : op.slot = h.slot := by
  obtain ⟨create, rest, heq, hcreate, hrest⟩ := h.build_eq
  rw [heq] at hop
  have hmentions : op.mentions = [h.slot] := by
    rcases List.mem_cons.mp hop with rfl | hop
    · exact Op.mem_mentions_of_bound hcreate
    · exact (hrest op hop).2
  have hmem := op.slot_mem_mentions
  rw [hmentions] at hmem
  exact List.mem_singleton.mp hmem

theorem PlanHead.build_leavesFlushed (h : PlanHead) : h.build.Pairwise Op.LeavesFlushed := by
  have hbefore : ∀ op ∈ (if h.created then Op.createElement h.slot h.tag h.ns else .adoptRoot h.slot) ::
      h.attachPoints.map (Op.attach h.slot) ++ h.attributes.map (fun a => a.1.op h.slot a.2.value),
      ∀ s, op ≠ .flushNested s := by
    intro op hop s
    rw [List.cons_append, List.mem_cons, List.mem_append, List.mem_map, List.mem_map] at hop
    rcases hop with rfl | ⟨_, -, rfl⟩ | ⟨⟨target, spec⟩, -, rfl⟩
    · split <;> nofun
    · nofun
    · cases target <;> nofun
  have hafter : ∀ op ∈ h.events.map (fun e => Op.connect h.slot e.1 e.2), op.touched? = none := by
    intro op hop
    obtain ⟨_, -, rfl⟩ := List.mem_map.mp hop
    rfl
  unfold PlanHead.build
  refine List.pairwise_append.mpr ⟨List.pairwise_append.mpr ⟨?_, ?_, ?_⟩, ?_, ?_⟩
  · exact List.Pairwise.imp_of_mem (fun ha _ _ => Op.leavesFlushed_of_not_flush (hbefore _ ha) _)
      (List.pairwise_of_forall fun _ _ => trivial)
  · split
    · exact List.pairwise_singleton _ _
    · exact .nil
  · exact fun a ha b _ => Op.leavesFlushed_of_not_flush (hbefore a ha) b
  · exact List.Pairwise.imp_of_mem (fun _ hb _ => Op.leavesFlushed_of_untouched _ (hafter _ hb))
      (List.pairwise_of_forall fun _ _ => trivial)
  · exact fun a _ b hb => Op.leavesFlushed_of_untouched a (hafter b hb)

theorem Plan.slot_bounds {sub : Plan} (h : plan.NumberedFrom k) (hsub : sub ∈ plan.preorder) :
    k ≤ sub.slot ∧ sub.slot < k + plan.size := by
  have hmem : sub.slot ∈ plan.preorder.map Plan.slot := List.mem_map_of_mem hsub
  rw [Plan.map_slot_preorder h] at hmem
  exact List.mem_range'_1.mp hmem

theorem Plan.slot_bounds_all {plans : List Plan} {sub : Plan} (h : Plan.AllNumberedFrom k plans)
    (hsub : sub ∈ Plan.preorderAll plans) : k ≤ sub.slot ∧ sub.slot < k + Plan.sizeAll plans := by
  have hmem : sub.slot ∈ (Plan.preorderAll plans).map Plan.slot := List.mem_map_of_mem hsub
  rw [Plan.map_slot_preorderAll h] at hmem
  exact List.mem_range'_1.mp hmem

theorem Plan.slot_of_ownBuild (hop : op ∈ plan.ownBuild) : op.slot = plan.slot := by
  cases plan with
  | element head children => exact PlanHead.slot_of_mem_build hop
  | text slot spec =>
    cases List.mem_singleton.mp hop
    rfl

/-- An instruction emitted by some subplans has one of their slots, or touches and flushes nothing. -/
theorem Plan.Emits.slot {subs : List Plan} (h : Plan.Emits subs op) :
    (∃ sub ∈ subs, op.slot = sub.slot) ∨ ∃ parent child, op = .appendChild parent child := by
  rcases h with ⟨sub, hsub, hop⟩ | ⟨head, children, -, child, -, rfl⟩
  · exact Or.inl ⟨sub, hsub, Plan.slot_of_ownBuild hop⟩
  · exact Or.inr ⟨_, _, rfl⟩

theorem Plan.Emits.leavesFlushed {subs subs' : List Plan} {a b : Op} (ha : Plan.Emits subs a)
    (hb : Plan.Emits subs' b) (h : ∀ sub ∈ subs, ∀ sub' ∈ subs', sub.slot ≠ sub'.slot) :
    a.LeavesFlushed b := by
  rcases ha.slot with ⟨sub, hsub, haslot⟩ | ⟨_, _, rfl⟩
  · rcases hb.slot with ⟨sub', hsub', hbslot⟩ | ⟨_, _, rfl⟩
    · refine Op.leavesFlushed_of_slot ?_
      rw [haslot, hbslot]
      exact h sub hsub sub' hsub'
    · exact Op.leavesFlushed_of_untouched a rfl
  · exact Op.leavesFlushed_appendChild _ _ b

mutual

/-- A build never touches an element again once it has flushed it. -/
theorem Plan.build_leavesFlushed : ∀ {k : Nat} {plan : Plan}, plan.NumberedFrom k →
    plan.build.Pairwise Op.LeavesFlushed
  | _, .text _ _, _ => List.pairwise_singleton _ _
  | k, .element head children, h => by
    refine List.pairwise_append.mpr
      ⟨head.build_leavesFlushed, Plan.buildChildren_leavesFlushed head.slot h.2, fun a ha b hb => ?_⟩
    have hslot := PlanHead.slot_of_mem_build ha
    rcases Plan.mem_buildChildren.mp hb with hb | ⟨child, -, rfl⟩
    · rcases hb.slot with ⟨sub, hsub, hbslot⟩ | ⟨_, _, rfl⟩
      · have hbounds := Plan.slot_bounds_all h.2 hsub
        refine Op.leavesFlushed_of_slot ?_
        rw [hslot, hbslot, h.1]
        exact Nat.ne_of_lt hbounds.1
      · exact Op.leavesFlushed_of_untouched a rfl
    · exact Op.leavesFlushed_of_untouched a rfl

theorem Plan.buildChildren_leavesFlushed (parent : Slot) : ∀ {k : Nat} {plans : List Plan},
    Plan.AllNumberedFrom k plans → (Plan.buildChildren parent plans).Pairwise Op.LeavesFlushed
  | _, [], _ => .nil
  | k, child :: rest, h => by
    refine List.pairwise_append.mpr ⟨Plan.build_leavesFlushed h.1, List.pairwise_cons.mpr
      ⟨fun b _ => Op.leavesFlushed_appendChild _ _ b, Plan.buildChildren_leavesFlushed parent h.2⟩, ?_⟩
    intro a ha b hb
    rcases List.mem_cons.mp hb with rfl | hb
    · exact Op.leavesFlushed_of_untouched a rfl
    · rcases Plan.mem_buildChildren.mp hb with hb | ⟨child', -, rfl⟩
      · refine (Plan.mem_build.mp ha).leavesFlushed hb fun sub hsub sub' hsub' => ?_
        have hbounds := Plan.slot_bounds h.1 hsub
        have hbounds' := Plan.slot_bounds_all h.2 hsub'
        exact Nat.ne_of_lt (Nat.lt_of_lt_of_le hbounds.2 hbounds'.1)
      · exact Op.leavesFlushed_of_untouched a rfl

end

theorem RefreshStep.op_of_gated? {deps : List String} (h : RefreshStep.gated? deps op = some step) : step.op = op := by
  simp only [RefreshStep.gated?, Option.ite_none_left_eq_some, Option.some.injEq] at h
  obtain ⟨-, rfl⟩ := h
  rfl

theorem Plan.slot_of_ownRefresh (h : step ∈ plan.ownRefresh) : step.op.slot = plan.slot := by
  obtain ⟨flushes, heq, hflushes⟩ := plan.ownRefresh_eq
  rw [heq] at h
  rcases List.mem_append.mp h with h | h
  · obtain ⟨place, hplace, hgated⟩ := List.mem_filterMap.mp h
    rw [RefreshStep.op_of_gated? hgated]
    exact Plan.slot_of_place hplace
  · rw [(hflushes step h).1]
    rfl

theorem Plan.ownRefresh_leavesFlushed (plan : Plan) :
    plan.ownRefresh.Pairwise fun a b => a.op.LeavesFlushed b.op := by
  obtain ⟨flushes, heq, hflushes⟩ := plan.ownRefresh_eq
  have hbefore : ∀ step ∈ plan.places.filterMap (fun place => RefreshStep.gated? place.2.deps place.1),
      ∀ s, step.op ≠ .flushNested s := by
    intro step hstep s
    obtain ⟨place, hplace, hgated⟩ := List.mem_filterMap.mp hstep
    rw [RefreshStep.op_of_gated? hgated]
    exact Plan.place_ne_flush hplace s
  rw [heq]
  refine List.pairwise_append.mpr ⟨?_, ?_, fun a ha b _ => Op.leavesFlushed_of_not_flush (hbefore a ha) _⟩
  · exact List.Pairwise.imp_of_mem (fun ha _ _ => Op.leavesFlushed_of_not_flush (hbefore _ ha) _)
      (List.pairwise_of_forall fun _ _ => trivial)
  · refine List.Pairwise.imp_of_mem (fun _ hb _ => Op.leavesFlushed_of_untouched _ ?_)
      (List.pairwise_of_forall fun _ _ => trivial)
    rw [(hflushes _ hb).1]
    rfl

/-- A refresh never touches an element again once it has flushed it. -/
theorem Plan.refresh_leavesFlushed (h : plan.NumberedFrom k) :
    plan.refresh.Pairwise fun a b => a.op.LeavesFlushed b.op := by
  have hnodup : (plan.preorder.map Plan.slot).Nodup := by
    rw [Plan.map_slot_preorder h]
    exact List.nodup_range'
  rw [Plan.refresh_eq_flatMap]
  refine List.pairwise_flatMap.mpr ⟨fun sub _ => sub.ownRefresh_leavesFlushed, ?_⟩
  refine (List.pairwise_map.mp hnodup).imp fun hne a ha b hb => Op.leavesFlushed_of_slot ?_
  rw [Plan.slot_of_ownRefresh ha, Plan.slot_of_ownRefresh hb]
  exact hne

theorem Plan.head_of_mem_build (h : op ∈ plan.build) (happend : ∀ parent child, op ≠ .appendChild parent child)
    (htext : ∀ s value, op ≠ .createText s value) :
    ∃ head children, .element head children ∈ plan.preorder ∧ op ∈ head.build := by
  rcases Plan.mem_build.mp h with ⟨sub, hsub, hop⟩ | ⟨_, _, -, _, -, heq⟩
  · cases sub with
    | text slot spec => exact absurd (List.mem_singleton.mp hop) (htext _ _)
    | element head children => exact ⟨head, children, hsub, hop⟩
  · exact absurd heq (happend _ _)

theorem PlanHead.createElement_mem_build {tag : String} {ns : Namespace} (hop : .createElement s tag ns ∈ h.build) :
    h.created = true ∧ s = h.slot ∧ tag = h.tag := by
  simp only [PlanHead.build, List.cons_append, List.mem_cons, List.mem_append, List.mem_map] at hop
  rcases hop with hop | ((⟨_, _, hop⟩ | ⟨⟨target, spec⟩, _, hop⟩) | hop) | ⟨_, _, hop⟩
  · split at hop
    next hc =>
      cases hop
      exact ⟨hc, rfl, rfl⟩
    · cases hop
  · cases hop
  · cases target <;> cases hop
  · split at hop
    · cases List.mem_singleton.mp hop
    · exact absurd hop List.not_mem_nil
  · cases hop

theorem PlanHead.mem_build_of_created (h : PlanHead) (hcreated : h.created = true) :
    .createElement h.slot h.tag h.ns ∈ h.build := by
  rw [PlanHead.build, if_pos hcreated]
  exact List.mem_cons_self

theorem PlanHead.createText_not_mem_build {value : Computation} : .createText s value ∉ h.build := by
  intro hop
  obtain ⟨create, rest, heq, -, hrest⟩ := h.build_eq
  rcases List.mem_cons.mp (heq ▸ hop) with hop | hop
  · have hcreate := (List.cons.inj heq).1
    rw [← hop] at hcreate
    split at hcreate <;> cases hcreate
  · cases (hrest _ hop).1

theorem PlanHead.flushNested_mem_build : .flushNested s ∈ h.build ↔ h.nested = true ∧ s = h.slot := by
  simp only [PlanHead.build, List.cons_append, List.mem_cons, List.mem_append, List.mem_map]
  constructor
  · rintro (hop | ((⟨_, _, hop⟩ | ⟨⟨target, spec⟩, _, hop⟩) | hop) | ⟨_, _, hop⟩)
    · split at hop <;> cases hop
    · cases hop
    · cases target <;> cases hop
    · split at hop
      next hnested =>
        cases List.mem_singleton.mp hop
        exact ⟨hnested, rfl⟩
      · exact absurd hop List.not_mem_nil
    · cases hop
  · rintro ⟨hnested, rfl⟩
    refine Or.inr (Or.inl (Or.inr ?_))
    rw [if_pos hnested]
    exact List.mem_singleton_self _

theorem PlanHead.flushNested_mem_refresh (hstep : step ∈ h.refresh) (hop : step.op = .flushNested s) :
    h.nested = true ∧ s = h.slot := by
  rcases List.mem_append.mp hstep with hstep | hstep
  · obtain ⟨⟨target, spec⟩, -, hgated⟩ := List.mem_filterMap.mp hstep
    rw [RefreshStep.op_of_gated? hgated] at hop
    cases target <;> cases hop
  · split at hstep
    next hnested =>
      cases List.mem_singleton.mp hstep
      cases hop
      exact ⟨hnested, rfl⟩
    · exact absurd hstep List.not_mem_nil

/-- Whether the template makes the node of a slot itself. -/
def Template.Creates (t : Template) (s : Slot) : Prop :=
  s ≠ 0 ∨ t.createsRoot = true

/-- How a compiled template looks after the elements it creates with some tags: once a build or a refresh
has touched one of them it flushes it, and it touches nothing that it has flushed. -/
structure Template.Tends (t : Template) (tags : String → Prop) : Prop where
  sequence : Op.Sequence 0 t.build t.slotNames.length
  rooted : 0 < t.slotNames.length
  creates : ∀ op ∈ t.build, ∀ s, op.bound? = some s → op ≠ .adoptRoot s → t.Creates s
  build_order : t.build.Pairwise Op.LeavesFlushed
  refresh_order : t.refresh.Pairwise fun a b => a.op.LeavesFlushed b.op
  nested : ∀ s tag ns, .createElement s tag ns ∈ t.build → tags tag →
    .flushNested s ∈ t.build ∧ RefreshStep.unconditional (.flushNested s) ∈ t.refresh
  build_made : ∀ s, .flushNested s ∈ t.build → ∃ tag ns, .createElement s tag ns ∈ t.build
  refresh_made : ∀ step ∈ t.refresh, ∀ s, step.op = .flushNested s → ∃ tag ns, .createElement s tag ns ∈ t.build
  inPlace : ∀ step ∈ t.refresh, step.op.InPlace
  adopted : ∀ s, .adoptRoot s ∈ t.build → s = 0 ∧ t.createsRoot = false

theorem Template.Tends.build_created (h : t.Tends tags) (hop : .flushNested s ∈ t.build) : t.Creates s := by
  obtain ⟨tag, ns, hcreate⟩ := h.build_made s hop
  exact h.creates _ hcreate s rfl nofun

theorem Template.Tends.refresh_created (h : t.Tends tags) (hstep : step ∈ t.refresh) (hop : step.op = .flushNested s) :
    t.Creates s := by
  obtain ⟨tag, ns, hcreate⟩ := h.refresh_made step hstep s hop
  exact h.creates _ hcreate s rfl nofun

namespace TemplateNode

variable {nodeHead : NodeHead} {nodes : List TemplateNode} (declared : Declarations) (options : CompileOptions)

/-- Only an adopted root is bound without being created. -/
theorem rootPlan_binds (hroot : nodeHead.tag ≠ "") (hleaves : (TemplateNode.node nodeHead nodes).TextsAreLeaves)
    (hop : op ∈ ((TemplateNode.node nodeHead nodes).rootPlan declared options).build) (hbound : op.bound? = some s)
    (hadopt : op ≠ .adoptRoot s) : s ≠ 0 ∨ options.createRoot = true := by
  rcases Plan.mem_build.mp hop with ⟨sub, hsub, hop⟩ | ⟨_, _, -, _, -, rfl⟩
  · cases sub with
    | text slot spec =>
      cases List.mem_singleton.mp hop
      cases hbound
      rcases List.mem_cons.mp hsub with hsub | hsub
      · cases hsub
      · have hall := (planAll_numbered declared options (nodeHead.namespaceIn .html) 1 hleaves.2).1
        exact Or.inl (Nat.ne_of_gt (Plan.slot_bounds_all hall hsub).1)
    | element head children =>
      cases op with
      | createElement s' tag ns =>
        obtain ⟨hcreated, rfl, rfl⟩ := PlanHead.createElement_mem_build hop
        cases hbound
        rw [(rootPlan_heads hroot hleaves hsub).1, Bool.or_eq_true, decide_eq_true_eq] at hcreated
        exact hcreated
      | adoptRoot s' =>
        cases hbound
        exact absurd rfl hadopt
      | createText s' value => exact absurd hop PlanHead.createText_not_mem_build
      | _ => cases hbound
  · cases hbound

/-- What is nested is created. -/
theorem rootPlan_creates_nested (hroot : nodeHead.tag ≠ "")
    (hleaves : (TemplateNode.node nodeHead nodes).TextsAreLeaves) {head : PlanHead} {children : List Plan}
    (hsub : .element head children ∈ ((TemplateNode.node nodeHead nodes).rootPlan declared options).preorder)
    (hnested : head.nested = true) :
    .createElement head.slot head.tag head.ns ∈ ((TemplateNode.node nodeHead nodes).rootPlan declared options).build := by
  rw [(rootPlan_heads hroot hleaves hsub).2, Bool.and_eq_true] at hnested
  exact Plan.mem_build.mpr (Or.inl ⟨_, hsub, head.mem_build_of_created hnested.1⟩)

/-- What is created with the right tag is flushed, by the build and by every refresh. -/
theorem rootPlan_flushes (hroot : nodeHead.tag ≠ "") (hleaves : (TemplateNode.node nodeHead nodes).TextsAreLeaves)
    {tag : String} {ns : Namespace}
    (hop : .createElement s tag ns ∈ ((TemplateNode.node nodeHead nodes).rootPlan declared options).build)
    (htag : options.nested.holds tag = true) :
    .flushNested s ∈ ((TemplateNode.node nodeHead nodes).rootPlan declared options).build ∧
      RefreshStep.unconditional (.flushNested s) ∈
        ((TemplateNode.node nodeHead nodes).rootPlan declared options).refresh := by
  obtain ⟨head, children, hsub, hop⟩ := Plan.head_of_mem_build hop (by simp) (by simp)
  obtain ⟨hcreated, rfl, rfl⟩ := PlanHead.createElement_mem_build hop
  have hnested : head.nested = true := by
    rw [(rootPlan_heads hroot hleaves hsub).2, hcreated, htag, Bool.and_self]
  refine ⟨Plan.mem_build.mpr (Or.inl ⟨_, hsub, PlanHead.flushNested_mem_build.mpr ⟨hnested, rfl⟩⟩), ?_⟩
  rw [Plan.refresh_eq_flatMap]
  refine List.mem_flatMap.mpr ⟨_, hsub, List.mem_append_right _ ?_⟩
  rw [if_pos hnested]
  exact List.mem_singleton_self _

end TemplateNode

theorem Template.tends_of_compileWith {declared : Declarations} {maps maps' : PropertyMaps} {options : CompileOptions}
    {node : TemplateNode} (h : compileWith declared maps options node = (.ok t, maps'))
    (htags : ∀ tag, tags tag → options.nested.holds tag = true) : t.Tends tags := by
  have hdisc := slotDiscipline_of_compileWith h
  obtain ⟨hseq, hroot⟩ := sequence_of_compileWith h
  obtain ⟨nodeHead, nodes, rfl, hnode, hleaves, rfl⟩ := compileWith_ok h
  have hnum := (TemplateNode.rootPlan_numbered declared options hleaves).1
  have hrooted : 0 < (TemplateNode.node nodeHead nodes).size := TemplateNode.size_pos _
  exact {
    sequence := hseq
    rooted := by rwa [Template.ofPlan, length_numberedSlots]
    creates := fun op hop s hbound hadopt => TemplateNode.rootPlan_binds declared options hnode hleaves hop hbound hadopt
    build_order := Plan.build_leavesFlushed hnum
    refresh_order := Plan.refresh_leavesFlushed hnum
    nested := fun s tag ns hop htag => TemplateNode.rootPlan_flushes declared options hnode hleaves hop (htags tag htag)
    build_made := by
      intro s hop
      obtain ⟨head, children, hsub, hop⟩ := Plan.head_of_mem_build hop (by simp) (by simp)
      obtain ⟨hnested, rfl⟩ := PlanHead.flushNested_mem_build.mp hop
      exact ⟨_, _, TemplateNode.rootPlan_creates_nested declared options hnode hleaves hsub hnested⟩
    refresh_made := by
      intro step hstep s hop
      change _ ∈ Plan.refresh _ at hstep
      rw [Plan.refresh_eq_flatMap] at hstep
      obtain ⟨sub, hsub, hstep⟩ := List.mem_flatMap.mp hstep
      cases sub with
      | text slot spec =>
        rw [RefreshStep.op_of_gated? (Option.mem_toList.mp hstep)] at hop
        cases hop
      | element head children =>
        obtain ⟨hnested, rfl⟩ := PlanHead.flushNested_mem_refresh hstep hop
        exact ⟨_, _, TemplateNode.rootPlan_creates_nested declared options hnode hleaves hsub hnested⟩
    inPlace := fun step hstep => Template.Compiled.inPlace ⟨_, _, _, _, _, h⟩ hstep
    adopted := fun s hs => hdisc.adopted s hs }

end LiveMarkup
