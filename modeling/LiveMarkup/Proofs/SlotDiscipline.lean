import LiveMarkup.Proofs.AppendOrder
import LiveMarkup.Proofs.Places
import LiveMarkup.Proofs.Slots

namespace LiveMarkup

variable {t : Template} {sub : TemplateNode} {declared : Declarations} {options : CompileOptions}

/-- The instruction creates the node, or adopts it when it is an element. -/
def Op.Creates (s : Slot) : TemplateNode → Op → Prop
  | .text spec, op => op = .createText s spec.value
  | .node head _, op =>
    if head.tag = "" then op = .createText s head.textSpec.value
    else op = .adoptRoot s ∨ ∃ ns, op = .createElement s head.tag ns

/-- The instruction of a refresh step writes properties and attributes of elements or flushes them, or
writes a text. -/
def Op.Refreshes (node : TemplateNode) : Op → Prop
  | .setProperty .. => ¬ node.IsText
  | .setAttribute .. => ¬ node.IsText
  | .flushNested _ => ¬ node.IsText
  | .setText .. => node.IsText
  | _ => False

/-- How the instructions of a compiled template use their slots. -/
structure SlotDiscipline (options : CompileOptions) (node : TemplateNode) (t : Template) : Prop where
  slot_count : t.slotNames.length = node.preorder.length
  within : ∀ op ∈ t.build, ∀ s ∈ op.mentions, s < t.slotNames.length
  bound_once : ∀ s < t.slotNames.length, ∃ before op after, t.build = before ++ op :: after ∧
    op.bound? = some s ∧ (∀ o ∈ before, s ∉ o.mentions) ∧ ∀ o ∈ after, o.bound? ≠ some s
  adopted : ∀ s, .adoptRoot s ∈ t.build → s = 0 ∧ options.createRoot = false
  appended_once : ∀ s sub, 0 < s → node.preorder[s]? = some sub → Op.AppendedOnce s sub.size t.build
  created : ∀ s sub, node.preorder[s]? = some sub → ∃ op ∈ t.build, op.Creates s sub
  appends : ∀ s sub, node.preorder[s]? = some sub →
    ∀ c, .appendChild s c ∈ t.build ↔ c ∈ sub.childSlots s
  refreshes : ∀ step ∈ t.refresh, ∃ sub, node.preorder[step.op.slot]? = some sub ∧ step.op.Refreshes sub

theorem PlanHead.mem_build_adoptRoot {h : PlanHead} {s : Slot} (hop : .adoptRoot s ∈ h.build) :
    h.created = false ∧ s = h.slot := by
  simp only [PlanHead.build, List.cons_append, List.mem_cons, List.mem_append, List.mem_map] at hop
  rcases hop with hop | ((⟨_, _, hop⟩ | ⟨⟨target, spec⟩, _, hop⟩) | hop) | ⟨_, _, hop⟩
  · split at hop
    · cases hop
    next hc => exact ⟨Bool.eq_false_iff.mpr hc, Op.adoptRoot.inj hop⟩
  · cases hop
  · cases target <;> cases hop
  · split at hop
    · cases List.mem_singleton.mp hop
    · exact absurd hop List.not_mem_nil
  · cases hop

namespace TemplateNode

variable {head : NodeHead} {children : List TemplateNode} (declared : Declarations) (options : CompileOptions)

theorem rootPlan_creates (htag : head.tag ≠ "") (hleaves : (TemplateNode.node head children).TextsAreLeaves) {s : Nat}
    (hsub : (TemplateNode.node head children).preorder[s]? = some sub) :
    ∃ op ∈ ((TemplateNode.node head children).rootPlan declared options).build, op.Creates s sub := by
  obtain ⟨q, hq, -, hplanned⟩ := exists_planned declared options htag hleaves hsub
  have hemits := fun op (hop : op ∈ q.ownBuild) => Plan.mem_build.mpr (Or.inl ⟨q, List.mem_of_getElem? hq, hop⟩)
  cases hplanned with
  | text spec => exact ⟨_, hemits _ List.mem_cons_self, rfl⟩
  | expression htag' hspec => exact ⟨_, hemits _ List.mem_cons_self, by rw [Op.Creates, if_pos htag']⟩
  | element htag' hleaves' inherited =>
    refine ⟨_, hemits _ List.mem_cons_self, ?_⟩
    rw [Op.Creates, if_neg htag']
    split
    · exact Or.inr ⟨_, rfl⟩
    · exact Or.inl rfl

theorem rootPlan_appends (htag : head.tag ≠ "") (hleaves : (TemplateNode.node head children).TextsAreLeaves) {s : Nat}
    (hsub : (TemplateNode.node head children).preorder[s]? = some sub) (c : Slot) :
    .appendChild s c ∈ ((TemplateNode.node head children).rootPlan declared options).build ↔ c ∈ sub.childSlots s := by
  obtain ⟨q, hq, hslot, hplanned⟩ := exists_planned declared options htag hleaves hsub
  have hemitted : .appendChild s c ∈ ((TemplateNode.node head children).rootPlan declared options).build ↔
      ∃ planned plans, q = .element planned plans ∧ c ∈ plans.map Plan.slot := by
    rw [Plan.mem_build]
    constructor
    · rintro (⟨sub', -, hop⟩ | ⟨planned, plans, hmem, child, hchild, heq⟩)
      · cases sub' with
        | element planned plans => exact absurd hop PlanHead.appendChild_not_mem_build
        | text slot spec => exact nomatch List.mem_singleton.mp hop
      · obtain ⟨hs, rfl⟩ := Op.appendChild.inj heq
        have hsame := Plan.eq_of_slot (rootPlan_numbered declared options hleaves).1 (List.mem_of_getElem? hq) hmem
          (hslot.trans hs)
        exact ⟨planned, plans, hsame, List.mem_map_of_mem hchild⟩
    · rintro ⟨planned, plans, rfl, hc⟩
      obtain ⟨child, hchild, rfl⟩ := List.mem_map.mp hc
      exact Or.inr ⟨planned, plans, List.mem_of_getElem? hq, child, hchild, by rw [← hslot]; rfl⟩
  rw [hemitted]
  cases hplanned with
  | text spec => simp [childSlots]
  | expression htag' hspec => simp [childSlots, slotsFrom]
  | @element head' children' htag' hleaves' inherited =>
    have hslots := Plan.map_slot_planAll declared options children' (head'.namespaceIn inherited) (s + 1)
    simp [childSlots, ← hslots]

/-- Whether a node of a plan is a text is said by its source. -/
theorem PlannedAt.isText_iff {s : Slot} {q : Plan} (h : PlannedAt declared options s sub q) :
    sub.IsText ↔ ∃ slot spec, q = .text slot spec := by
  cases h with
  | text spec => exact ⟨fun _ => ⟨_, _, rfl⟩, fun _ => trivial⟩
  | expression htag hspec => exact ⟨fun _ => ⟨_, _, rfl⟩, fun _ => htag⟩
  | element htag hleaves inherited => exact ⟨fun h => absurd h htag, fun ⟨_, _, h⟩ => nomatch h⟩

theorem rootPlan_refreshes (htag : head.tag ≠ "") (hleaves : (TemplateNode.node head children).TextsAreLeaves)
    {step : RefreshStep} (hstep : step ∈ ((TemplateNode.node head children).rootPlan declared options).refresh) :
    ∃ sub, (TemplateNode.node head children).preorder[step.op.slot]? = some sub ∧ step.op.Refreshes sub := by
  obtain ⟨q, hq, hop⟩ := Plan.refresh_cases hstep
  have hslot : step.op.slot = q.slot := by
    rcases hop with ⟨place, hplace, heq⟩ | ⟨heq, -⟩
    · rw [heq, Plan.slot_of_place hplace]
    · rw [heq]
      rfl
  obtain ⟨sub, hsub, hplanned⟩ := exists_source htag hleaves hq
  rw [hslot]
  refine ⟨sub, hsub, ?_⟩
  cases q with
  | text slot spec =>
    rcases hop with ⟨place, hplace, heq⟩ | ⟨-, _, _, heq⟩
    · cases List.mem_singleton.mp hplace
      rw [heq]
      exact hplanned.isText_iff.mpr ⟨slot, spec, rfl⟩
    · cases heq
  | element planned plans =>
    have hnot : ¬ sub.IsText := fun htext => by
      obtain ⟨_, _, heq⟩ := hplanned.isText_iff.mp htext
      cases heq
    rcases hop with ⟨place, hplace, heq⟩ | ⟨heq, -⟩
    · obtain ⟨⟨target, spec⟩, -, rfl⟩ := List.mem_map.mp hplace
      rw [heq]
      cases target <;> exact hnot
    · rw [heq]
      exact hnot

end TemplateNode

theorem length_numberedSlots (name : String) (count : Nat) : (numberedSlots name count).length = count := by
  simp [numberedSlots]

theorem sequence_of_compileWith {maps maps' : PropertyMaps} {node : TemplateNode}
    (h : compileWith declared maps options node = (.ok t, maps')) :
    Op.Sequence 0 t.build t.slotNames.length ∧ t.createsRoot = options.createRoot := by
  obtain ⟨head, children, rfl, -, hleaves, rfl⟩ := compileWith_ok h
  obtain ⟨hnum, hsize⟩ := TemplateNode.rootPlan_numbered declared options hleaves
  have hseq := Plan.build_sequence hnum
  rw [Nat.zero_add, hsize] at hseq
  refine ⟨?_, rfl⟩
  rw [Template.ofPlan, length_numberedSlots]
  exact hseq

theorem slotDiscipline_of_compileWith {maps maps' : PropertyMaps} {node : TemplateNode}
    (h : compileWith declared maps options node = (.ok t, maps')) : SlotDiscipline options node t := by
  have hseq := (sequence_of_compileWith h).1
  obtain ⟨head, children, rfl, htag, hleaves, rfl⟩ := compileWith_ok h
  constructor
  case slot_count => exact (length_numberedSlots _ _).trans (TemplateNode.length_preorder _).symm
  case within => exact hseq.mentions_lt
  case bound_once => exact fun s hs => hseq.bound_once (Nat.zero_le s) hs
  case adopted =>
    intro s hs
    rcases Plan.mem_build.mp hs with ⟨q, hq, hop⟩ | ⟨_, _, -, _, -, heq⟩
    · cases q with
      | text slot spec => exact nomatch List.mem_singleton.mp hop
      | element planHead plans =>
        obtain ⟨hcreated, rfl⟩ := PlanHead.mem_build_adoptRoot hop
        rw [(TemplateNode.rootPlan_heads htag hleaves hq).1, Bool.or_eq_false_iff, decide_eq_false_iff_not,
          not_not] at hcreated
        exact hcreated
    · cases heq
  case appended_once =>
    intro s sub hs hsub
    obtain ⟨q, hq, -, hplanned⟩ := TemplateNode.exists_planned declared options htag hleaves hsub
    have happended := Plan.build_appended (TemplateNode.rootPlan_numbered declared options hleaves).1 hs hq
    rw [Nat.zero_add, hplanned.size_eq] at happended
    exact happended
  case created => exact fun s sub hsub => TemplateNode.rootPlan_creates declared options htag hleaves hsub
  case appends => exact fun s sub hsub c => TemplateNode.rootPlan_appends declared options htag hleaves hsub c
  case refreshes => exact fun step hstep => TemplateNode.rootPlan_refreshes declared options htag hleaves hstep

theorem Template.boundBelow_unbuilt (t : Template) (c : ComponentId) (sink : Sink) :
    (t.unbuilt c sink).BoundBelow 0 :=
  fun _ hs => absurd hs (Nat.not_lt_zero _)

theorem Template.root_given {c : ComponentId} {root : Option NodeId} {p : Page} (h : t.obstacle? c root p = none) :
    root.isSome ∨ t.createsRoot = true := by
  unfold Template.obstacle? at h
  split at h
  · cases h
  · cases h
  · exact Or.inl rfl
  next hc => exact Or.inr hc

theorem Template.buildOn_eq_some {host : Host} {c : ComponentId} {root : Option NodeId} {sink : Sink} {p p' : Page}
    {result : Except BuildError (Instance × Report)} (hobstacle : t.obstacle? c root p = none) :
    t.buildOn host c root sink p = some (result, p') ↔
      ∃ i r, (t.unbuilt c sink).runBuild host root t.build p = some ((i, r), p') ∧
        result = match i.node? 0 with
          | some n => .ok ({ i with root := n }, r)
          | none => .error (.missingRoot t.name) := by
  simp only [Template.buildOn, Act.bind_eq_some, Act.get_eq_some]
  constructor
  · rintro ⟨_, _, ⟨rfl, rfl⟩, h⟩
    rw [hobstacle] at h
    obtain ⟨⟨i, r⟩, p₁, hrun, h⟩ := Act.bind_eq_some.mp h
    cases hn : i.node? 0 with
    | none =>
      simp only [hn] at h
      obtain ⟨rfl, rfl⟩ := Act.pure_eq_some.mp h
      exact ⟨i, r, hrun, by rw [hn]⟩
    | some n =>
      simp only [hn] at h
      obtain ⟨rfl, rfl⟩ := Act.pure_eq_some.mp h
      exact ⟨i, r, hrun, by rw [hn]⟩
  · rintro ⟨i, r, hrun, rfl⟩
    refine ⟨p, p, ⟨rfl, rfl⟩, ?_⟩
    rw [hobstacle]
    refine Act.bind_eq_some.mpr ⟨(i, r), p', hrun, ?_⟩
    cases hn : i.node? 0 <;> exact Act.pure_eq_some.mpr ⟨rfl, rfl⟩

/-- The slots of a compiled template are numbered in the order of its source, each is bound by one
instruction before it is used and joins its parent once it is complete, and so no instruction and no
refresh step of any build ever misses a node. -/
theorem compiled_slots_disciplined {declared : Declarations} {maps maps' : PropertyMaps}
    {options : CompileOptions} {node : TemplateNode} {t : Template}
    (h : compileWith declared maps options node = (.ok t, maps')) :
    SlotDiscipline options node t ∧
      ∀ (host : Host) (c : ComponentId) (root : Option NodeId) (sink : Sink) (p : Page),
        t.obstacle? c root p = none →
        (∀ before op after i r p', t.build = before ++ op :: after →
          (t.unbuilt c sink).runBuild host root before p = some ((i, r), p') →
          ∀ s ∈ op.mentions, op.bound? ≠ some s → ∃ n, i.node s = .ok n) ∧
        ∀ result p', t.buildOn host c root sink p = some (result, p') →
          ∃ i r, result = .ok (i, r) ∧ (∀ s < t.slotNames.length, ∃ n, i.node s = .ok n) ∧
            ∀ step ∈ t.refresh, ∃ n, i.node step.op.slot = .ok n := by
  have hdisc := slotDiscipline_of_compileWith h
  obtain ⟨hseq, hcreates⟩ := sequence_of_compileWith h
  refine ⟨hdisc, fun host c root sink p hobstacle => ?_⟩
  have hlen : (t.unbuilt c sink).slots.length = t.slotNames.length := by simp [Template.unbuilt]
  have hroot : root.isSome ∨ ∀ s, .adoptRoot s ∉ t.build :=
    (Template.root_given hobstacle).imp_right fun hown s hs => by
      have := (hdisc.adopted s hs).2
      simp [← hcreates, hown] at this
  refine ⟨?_, ?_⟩
  · intro before op after i r p' hbuild hrun s hs hnot
    rw [hbuild] at hseq hroot
    obtain ⟨m, hbefore, hrest⟩ := hseq.split
    have hroot' : root.isSome ∨ ∀ s, .adoptRoot s ∉ before :=
      hroot.imp_right fun hno s hs => hno s (List.mem_append_left _ hs)
    obtain ⟨hbound, -⟩ := Instance.runBuild_boundBelow hbefore hroot' (by rw [hlen]; exact hrest.le)
      (t.boundBelow_unbuilt c sink) hrun
    cases hrest with
    | bind hop _ =>
      rw [Op.mem_mentions_of_bound hop, List.mem_singleton] at hs
      exact absurd (hs ▸ hop) hnot
    | use _ huse _ => exact hbound s (huse s hs)
  · intro result p' hbuilt
    obtain ⟨i, r, hrun, rfl⟩ := (Template.buildOn_eq_some hobstacle).mp hbuilt
    obtain ⟨hbound, -⟩ := Instance.runBuild_boundBelow hseq hroot (Nat.le_of_eq hlen.symm)
      (t.boundBelow_unbuilt c sink) hrun
    have hrefresh : ∀ step ∈ t.refresh, step.op.slot < t.slotNames.length := by
      intro step hstep
      obtain ⟨sub, hsub, -⟩ := hdisc.refreshes step hstep
      rw [hdisc.slot_count]
      exact (List.getElem?_eq_some_iff.mp hsub).1
    have hpos : 0 < t.slotNames.length := by
      rw [hdisc.slot_count, TemplateNode.length_preorder]
      exact node.size_pos
    obtain ⟨n, hn⟩ := hbound 0 hpos
    rw [Instance.node_eq_ok.mp hn]
    exact ⟨_, r, rfl, hbound, fun step hstep => hbound _ (hrefresh step hstep)⟩

/-- A card with an attribute, an attach point, a nested component and two texts. -/
def sampleCard : TemplateNode :=
  .node { NodeHead.ofTag "section" with
      attachPoints := ["box"], attributes := [("id", .property "name"), ("data-on", .property "on")] }
    [.node (.ofTag "x-item") [.text (.property "item")], .text (.property "note")]

theorem sampleCard_compiles :
    ∃ t maps, compileWith (fun _ => none) .empty {} sampleCard = (.ok t, maps) :=
  ⟨_, _, rfl⟩

theorem compiled_slots_disciplined_sampleCard :
    ∃ t maps, compileWith (fun _ => none) .empty {} sampleCard = (.ok t, maps) ∧
      SlotDiscipline {} sampleCard t ∧ t.slotNames.length = 4 := by
  obtain ⟨t, maps, h⟩ := sampleCard_compiles
  obtain ⟨hdisc, -⟩ := compiled_slots_disciplined h
  exact ⟨t, maps, h, hdisc, hdisc.slot_count⟩

end LiveMarkup
