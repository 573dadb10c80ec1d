import LiveMarkup.Proofs.LeafWidget
import LiveMarkup.Proofs.PlanRun

namespace LiveMarkup

variable {plan sub : Plan} {op : Op} {t : Template} {depth k : Nat} {head : PlanHead} {children : List Plan}
  {p q : Page} {i : Instance} {c : ComponentId} {place : Op × ValueSpec} {step : Step}

theorem Element.replay_nothing (owner : ComponentId) (e : Element) (targets : List Target) :
    e.replay owner (fun _ => none) targets = e := by
  induction targets with
  | nil => rfl
  | cons t rest ih => exact ih

/-- The instruction that creates a node below the root. -/
def Plan.createOp : Plan → Op
  | .element head _ => .createElement head.slot head.tag head.ns
  | .text slot spec => .createText slot spec.value

namespace Plan

/-- One instruction creates an element or takes the given node for it. -/
theorem bind_op (hnum : plan.NumberedFrom k) (hsub : .element head children ∈ plan.preorder) (hop : op ∈ plan.build)
    (hbound : op.bound? = some head.slot) :
    op = if head.created then .createElement head.slot head.tag head.ns else .adoptRoot head.slot := by
  rcases mem_build.mp hop with ⟨sub', hsub', hown⟩ | ⟨_, _, -, _, -, rfl⟩
  · have hslot : op.slot = head.slot := by cases op <;> cases hbound <;> rfl
    obtain rfl := eq_of_slot hnum hsub' hsub ((slot_of_ownBuild hown).symm.trans hslot)
    obtain ⟨create, rest, hbuild, -, hrest⟩ := head.build_eq
    rw [ownBuild, hbuild] at hown
    rcases List.mem_cons.mp hown with rfl | hown
    · exact (List.cons.inj hbuild).1.symm
    · rw [(hrest op hown).1] at hbound
      cases hbound
  · cases hbound

theorem place_mem_build (hsub : .element head children ∈ plan.preorder)
    (hplace : place ∈ (Plan.element head children).places) : place.1 ∈ plan.build := by
  obtain ⟨a, ha, rfl⟩ := List.mem_map.mp hplace
  refine mem_build.mpr (Or.inl ⟨_, hsub, ?_⟩)
  simp only [ownBuild, PlanHead.build, List.cons_append, List.mem_cons, List.mem_append, List.mem_map]
  exact Or.inr (Or.inl (Or.inl (Or.inr ⟨a, ha, rfl⟩)))

end Plan

namespace Template.Planned

/-- Below the root there is one instruction for every node that creates it. -/
theorem createOp_eq (h : t.Planned plan) (hadopted : ∀ s, .adoptRoot s ∈ t.build → s = 0)
    (hsub : sub ∈ plan.preorder) (hs : sub.slot ≠ 0) (hop : op ∈ t.build)
    (hbound : op.bound? = some sub.slot) : op = sub.createOp := by
  have hmem := h.build ▸ hop
  cases sub with
  | element head children =>
    have hcreate := Plan.bind_op h.numbered hsub hmem hbound
    split at hcreate
    · exact hcreate
    · rw [hcreate] at hop
      exact absurd (hadopted _ hop) hs
  | text slot spec =>
    rcases Plan.mem_build.mp hmem with ⟨sub', hsub', hown⟩ | ⟨_, _, -, _, -, rfl⟩
    · have hslot : op.slot = slot := by cases op <;> cases hbound <;> rfl
      obtain rfl := Plan.eq_of_slot h.numbered hsub' hsub ((Plan.slot_of_ownBuild hown).symm.trans hslot)
      exact List.mem_singleton.mp hown
    · cases hbound

theorem place_mem_build (h : t.Planned plan) {head : PlanHead} {children : List Plan}
    (hsub : .element head children ∈ plan.preorder) {place : Op × ValueSpec}
    (hplace : place ∈ (Plan.element head children).places) : place.1 ∈ t.build := by
  rw [h.build]
  exact Plan.place_mem_build hsub hplace

end Template.Planned

theorem Document.kind?_push_self (d : Document) (kind : NodeKind) : (d.push kind).kind? d.size = some kind := by
  rw [kind?, push, size, Array.getElem?_push, if_pos rfl]
  rfl

/-- No value is written by an instruction that binds a slot. -/
theorem Plan.place_ne_of_bound (h : place ∈ sub.places) {k : Slot} (hop : op.bound? = some k) : place.1 ≠ op := by
  have hnone : place.1.bound? = none := by
    cases sub with
    | text slot spec =>
      cases List.mem_singleton.mp h
      rfl
    | element head children =>
      obtain ⟨⟨target, spec⟩, -, rfl⟩ := List.mem_map.mp h
      cases target <;> rfl
  rintro rfl
  cases hnone.symm.trans hop

namespace Instance

/-- An instruction of the build that has not been run. -/
def Unsettled (t : Template) (done : List Op) (op : Op) (_ : List String) : Prop :=
  op ∈ t.build ∧ op ∉ done

/-- A build under way on the page `p₀`: the nodes below the root are plain and show the present values, unless
the instructions for these are still to be run, and the component is as it was. -/
structure Rendering (t : Template) (c : ComponentId) (plan : Plan) (p₀ : Page) (done : List Op) (i : Instance)
    (p : Page) : Prop where
  template : i.template = t
  component : i.component = c
  plain : ∀ s n, s ≠ 0 → i.node? s = some n → p.isCustom n = false
  state : (p.component c).state = (p₀.component c).state
  shows : i.Shows plan (Unsettled t done) p

variable {strict : Prop} {root : Option NodeId} {p₀ : Page} {rest done : List Op}

theorem Unsettled.next {op' : Op} {deps : List String} (h : Unsettled t done op' deps) (hne : op' ≠ op) :
    Unsettled t (done ++ [op]) op' deps :=
  ⟨h.1, fun hmem => (List.mem_append.mp hmem).elim h.2 fun hmem => hne (List.mem_singleton.mp hmem)⟩

theorem Rendering.warned (h : Rendering t c plan p₀ done i p) (step : Step) :
    Rendering t c plan p₀ done i (stepWarned .build op step p) := by
  have hsteady := steady_stepWarned .build op step p
  refine ⟨h.template, h.component, fun s n hs hn => (hsteady.isCustom n).trans (h.plain s n hs hn), ?_, ?_⟩
  · rw [component_stepWarned]
    exact h.state
  · exact h.shows.congr (fun _ _ _ _ => by rw [document_stepWarned]) (by rw [component_stepWarned])

/-- A new node that shows what it can. -/
theorem Rendering.push (h : Rendering t c plan p₀ done i p) (hunder : i.Underway strict root p₀ k (op :: rest) p)
    (hop : op.bound? = some k) {kind : NodeKind}
    (hkind : ∀ sub ∈ plan.preorder, sub.slot = k → sub.slot ≠ 0 →
      sub.ShownBy c (Settled (p.component c).get (Unsettled t (done ++ [op]))) kind) :
    Rendering t c plan p₀ (done ++ [op]) (i.bind k (some p.document.size))
      { p with document := p.document.push kind } := by
  have hp := hunder.grown.wellNested
  refine ⟨h.template, h.component, fun s n hs hn => ?_, h.state, fun sub hsub hs n hn => ?_⟩
  · rcases node?_bind_cases hn with ⟨-, hnew⟩ | ⟨-, hold⟩
    · cases hnew
      rw [Page.isCustom]
      exact congrArg Option.isSome (hp.custom?_eq_none (Nat.le_refl _))
    · exact h.plain s n hs hold
  · rcases node?_bind_cases hn with ⟨hsk, hnew⟩ | ⟨-, hn⟩
    · cases hnew
      refine ⟨kind, p.document.kind?_push_self kind, ?_⟩
      have hshown := hkind sub hsub hsk hs
      rw [← h.component] at hshown
      exact hshown
    · obtain ⟨kind', hkind', hshown⟩ := h.shows sub hsub hs n hn
      refine ⟨kind', ?_, hshown.mono fun place hplace shown hsettled => hsettled.imp_left fun hdue => ?_⟩
      · rw [← hkind']
        exact p.document.kind?_push_of_lt kind (hunder.node_lt hn)
      · exact hdue.next (Plan.place_ne_of_bound hplace hop)

/-- Nothing of a node has been written before it is created. -/
theorem unsettled_place (hplan : t.Planned plan) (hdone : Op.Sequence 0 done k) (hop : op.bound? = some k)
    (hsub : .element head children ∈ plan.preorder) (hk : head.slot = k)
    (hplace : place ∈ (Plan.element head children).places) (deps : List String) :
    Unsettled t (done ++ [op]) place.1 deps := by
  refine Unsettled.next ⟨hplan.place_mem_build hsub hplace, fun hmem => ?_⟩ (Plan.place_ne_of_bound hplace hop)
  have hlt := hdone.mentions_lt _ hmem _ (Op.slot_mem_mentions _)
  rw [Plan.slot_of_place hplace] at hlt
  exact absurd hk (Nat.ne_of_lt hlt)

theorem hostTo_create_plain {tag : String} {ns : Namespace} {n : NodeId} (hns : ns = .html → ¬p.Defines tag)
    (h : (hostTo depth).create tag ns p = some (n, q)) :
    n = p.document.size ∧ q = { p with document := p.document.push (.element (.ofTag tag ns)) } := by
  cases depth with
  | zero => cases h
  | succ depth =>
    obtain ⟨rfl, ⟨-, rfl⟩ | ⟨d, hhtml, hd, -⟩⟩ := createElementWith_eq_some.mp h
    · exact ⟨rfl, rfl⟩
    · exact absurd (Page.defines_of_get? hd) (hns hhtml)

/-- A new text node shows the value, and nothing where the value cannot be computed. -/
theorem execBuild_createText {host : Host} {s : Slot} {value : Computation}
    (h : i.execBuild host root (.createText s value) p = some (step, q)) :
    step.inst = i.bind s (some p.document.size) ∧
      q = { p with document := p.document.push (.text (shownText (p.eval i.component value.formula))) } := by
  have hlocal : i.createText s (p.eval i.component value.formula) p = (step, q) := Act.modifyGet_eq_some.mp h
  cases hv : p.eval i.component value.formula with
  | error f =>
    rw [hv] at hlocal
    cases hlocal
    exact ⟨rfl, rfl⟩
  | ok v =>
    rw [hv] at hlocal
    cases hlocal
    exact ⟨rfl, rfl⟩

/-- The root takes the slot that shows nothing. -/
theorem Rendering.adopted (h : Rendering t c plan p₀ done i p) (root : Option NodeId) :
    Rendering t c plan p₀ (done ++ [.adoptRoot 0]) (i.bind 0 root) p := by
  have hother : ∀ s, s ≠ 0 → (i.bind 0 root).node? s = i.node? s := fun s hs => node?_bind_of_ne hs root
  refine ⟨h.template, h.component, fun s n hs hn => h.plain s n hs (hother s hs ▸ hn), h.state, ?_⟩
  intro sub hsub hs n hn
  rw [hother _ hs] at hn
  obtain ⟨kind, hkind, hshown⟩ := h.shows sub hsub hs n hn
  refine ⟨kind, hkind, hshown.mono fun place hplace shown hsettled => hsettled.imp_left fun hdue => ?_⟩
  exact hdue.next (Plan.place_ne_of_bound hplace rfl)

/-- An instruction that creates a node. -/
theorem Rendering.binds {n : Option NodeId} (hplan : t.Planned plan) (hadopted : ∀ s, .adoptRoot s ∈ t.build → s = 0)
    (hplain : ∀ s tag, .createElement s tag .html ∈ t.build → ¬p₀.Defines tag) (hfree : p.access c = .free)
    (h : Rendering t c plan p₀ done i p) (hunder : i.Underway strict root p₀ k (op :: rest) p)
    (hbuild : t.build = done ++ op :: rest) (hdone : Op.Sequence 0 done k) (hop : op.bound? = some k)
    (hexec : i.execBuild (hostTo depth) root op p = some (step, q)) (hinst : step.inst = i.bind k n) :
    Rendering t c plan p₀ (done ++ [op]) (i.bind k n) q := by
  have hmem : op ∈ t.build := hbuild ▸ List.mem_append_right _ List.mem_cons_self
  -- the instruction is the one that the node's plan gives
  have hcreate : ∀ sub ∈ plan.preorder, sub.slot = k → sub.slot ≠ 0 → op = sub.createOp :=
    fun sub hsub hs hne => hplan.createOp_eq hadopted hsub hne hmem (hs ▸ hop)
  rw [← hinst]
  cases op with
  | createElement s tag ns =>
    cases hop
    obtain ⟨m, hm, rfl⟩ := exec_createElement.mp hexec
    have hundefined : ns = .html → ¬p.Defines tag := by
      rintro rfl
      rw [Page.Defines, hunder.grown.registry]
      exact hplain k tag hmem
    obtain ⟨rfl, rfl⟩ := hostTo_create_plain hundefined hm
    refine h.push hunder rfl fun sub hsub hs hne => ?_
    have hsame := hcreate sub hsub hs hne
    cases sub with
    | text slot spec => cases hsame
    | element head children =>
      cases hsame
      refine ⟨fun _ => none, by simp [Memory.Inert], (Element.replay_nothing ..).symm, fun a ha => Or.inl ?_⟩
      exact unsettled_place hplan hdone rfl hsub rfl (List.mem_map.mpr ⟨a, ha, rfl⟩) _
  | createText s value =>
    cases hop
    obtain ⟨hbound, rfl⟩ := execBuild_createText hexec
    rw [hbound]
    refine h.push hunder rfl fun sub hsub hs hne => ?_
    have hsame := hcreate sub hsub hs hne
    cases sub with
    | element head children => cases hsame
    | text slot spec =>
      obtain ⟨rfl, rfl⟩ := Op.createText.inj hsame
      rw [h.component, Page.eval_of_free hfree (hplan.language _ hsub hne _ (List.mem_singleton_self _))]
      refine ⟨(spec.evalIn (p.component c).get).toOption, ?_, Or.inr fun v hv => ?_⟩
      · cases spec.evalIn (p.component c).get <;> rfl
      · rw [hv]
        rfl
  | adoptRoot s =>
    cases hop
    obtain ⟨rfl, rfl⟩ := execBuild_adoptRoot.mp hexec
    have hk0 := hadopted k hmem
    subst hk0
    exact h.adopted root
  | _ => cases hop

/-- An instruction that creates no node. -/
theorem Rendering.uses (hplan : t.Planned plan) (hop : plan.Runs op) (hsheltered : i.Sheltered p)
    (hinert : plan.CallbackFree (p₀.component c).get) (hp : p.WellNested strict) (h : Rendering t c plan p₀ done i p)
    (hexec : i.exec (hostTo depth) op p = some (step, q)) : Rendering t c plan p₀ (done ++ [op]) i q := by
  obtain ⟨hsteady, hstates⟩ := exec_inner_steady hp hsheltered hop hexec
  have hread : (p.component i.component).get = (p₀.component c).get := by
    rw [h.component]
    exact Component.get_congr (Component.props_of_state h.state)
  refine ⟨h.template, h.component, fun s n hs hn => (hsteady.isCustom n).trans (h.plain s n hs hn),
    (hstates c).trans h.state, ?_⟩
  have hnext := exec_shows hp hsheltered (h.template.symm ▸ hplan) hop (hread ▸ hinert) h.shows hexec
  exact hnext.mono (fun _ _ _ _ => rfl) fun _ _ _ _ _ _ hsettled => hsettled.imp_left fun hdue => hdue.1.next hdue.2

end Instance

/-- A build on a root that passes nothing on: below the root the template shows the component as it is. -/
theorem Template.buildOn_inner {strict : Prop} {r : NodeId} {sink : Sink} {report : Report} (hp : p.WellNested strict)
    (hplan : t.Planned plan) (htends : t.Tends (p.Tended strict)) (hadopts : t.createsRoot = false)
    (hplain : ∀ s tag, .createElement s tag .html ∈ t.build → ¬p.Defines tag)
    (hroot : p.IsBusy r ∨ p.isCustom r = false) (hc : c < p.components.size) (hfree : p.access c = .free)
    (hinert : plan.CallbackFree (p.component c).get)
    (h : t.buildOn (hostTo depth) c (some r) sink p = some (.ok (i, report), q)) :
    i.Current plan q ∧ (∀ s n, s ≠ 0 → i.node? s = some n → q.isCustom n = false) ∧
      (q.component c).state = (p.component c).state := by
  have hr := root_lt (obstacle?_of_buildOn h)
  have hnone := t.node?_unbuilt c sink
  have hrendered : Instance.Rendering t c plan p t.build i q := by
    refine buildOn_invariant (hostTo_creates depth) (hostTo_flushes depth)
      (P := fun done i p' => Instance.Rendering t c plan p done i p') ⟨?_, ?_⟩
      (fun _ h => ⟨h.template, h.component, h.plain, h.state, h.shows⟩) hp htends
      ⟨rfl, rfl, fun s n _ hn => ?_, rfl, fun sub _ _ n hn => ?_⟩ h
    · rintro done rest op k i p₁ step q₁ n hunder hbuild hdone hop - hexec hgrown hinst hkept
      rw [hkept.template] at hbuild
      refine Instance.Rendering.warned ?_ step
      refine hkept.binds hplan (fun s hs => (htends.adopted s hs).1) hplain ?_ hunder hbuild hdone hop hexec hinst
      exact (hunder.grown.access c hc).trans hfree
    · intro done rest op k i p₁ step q₁ hunder hbuild hdone hop hexec hsteady hkept
      rw [hkept.template] at hbuild
      rw [Instance.execBuild_of_not_bound hop] at hexec
      have hmem : op ∈ t.build := hbuild ▸ List.mem_append_right _ List.mem_cons_self
      refine Instance.Rendering.warned ?_ step
      refine hkept.uses hplan (hplan.runs_build htends hadopts hmem hop) ?_ hinert hunder.grown.wellNested hexec
      refine ⟨hunder.injective, hkept.plain, fun n hn => ?_, ?_⟩
      · rcases hunder.nodes 0 n hn with ⟨-, -, heq, -⟩ | ⟨hcreates, -⟩
        · cases heq
          rw [hunder.grown.isBusy hr, Page.isCustom, hunder.grown.old r hr]
          exact hroot
        · rw [hkept.template, Creates, hadopts] at hcreates
          simp at hcreates
      · rw [hkept.component]
        exact (hunder.grown.access c hc).trans hfree
    · rw [hnone] at hn
      cases hn
    · rw [hnone] at hn
      cases hn
  have hcurrent : i.Current plan q := by
    refine hrendered.shows.mono (fun _ _ _ _ => rfl) fun _ _ _ _ _ _ hsettled => hsettled.imp_left ?_
    exact fun hdue => hdue.2 hdue.1
  exact ⟨hcurrent, hrendered.plain, hrendered.state⟩

end LiveMarkup
