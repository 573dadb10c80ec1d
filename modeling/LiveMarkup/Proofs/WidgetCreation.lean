import LiveMarkup.Proofs.BusyElements
import LiveMarkup.Proofs.UnfoldedTemplate
import Mathlib.Order.WellFounded

namespace LiveMarkup

variable {strict : Prop} {host : Host} {p q : Page} {tag : String} {t : Template} {root : Option NodeId} {i : Instance}
  {n : NodeId}

/-- Creating an element adds the element and what it unfolds to. -/
def Host.AddsUnfolded (strict : Prop) (host : Host) : Prop :=
  ∀ tag ns p n q within, p.WellNested strict → host.create tag ns p = some (n, q) →
    p.registry.Furnishes tag ns within → q.document.size = p.document.size + (1 + Outline.countAll within)

theorem Instance.execBuild_adds (hhost : host.AddsUnfolded strict) {op : Op} {step : Step} {k : Nat}
    (hp : p.WellNested strict) (hexec : i.execBuild host root op p = some (step, q))
    (hsteady : op.bound? = none → p.Steady q) (hadds : p.registry.Adds k op) :
    q.document.size = p.document.size + k := by
  cases hop : op.bound? with
  | none =>
    rw [(Registry.adds_of_not_bound hop).mp hadds]
    exact (hsteady hop).size
  | some s =>
    cases execBuild_bound hop hexec with
    | created hcreate =>
      obtain ⟨within, hwithin, rfl⟩ := hadds
      exact hhost _ _ p _ q within hp hcreate hwithin
    | adopted =>
      cases hadds
      rfl
    | newText value text fault =>
      cases hadds
      exact p.document.size_push _

namespace Template

variable {c : ComponentId} {sink : Sink} {report : Report}

/-- A build keeps what every instruction does to a page, of all that have been run. -/
theorem buildOn_kept (hcreate : host.Creates strict) (hflush : host.Flushes strict) {P : List Op → Page → Prop}
    (hstart : P [] p)
    (hstep : ∀ {done op i p' step q'}, p'.WellNested strict → p'.registry = p.registry →
      Instance.execBuild host root i op p' = some (step, q') → (op.bound? = none → p'.Steady q') → P done p' →
      P (done ++ [op]) (Instance.stepWarned .build op step q'))
    (hp : p.WellNested strict) (htends : t.Tends (p.Tended strict))
    (h : t.buildOn host c root sink p = some (.ok (i, report), q)) : P t.build q :=
  buildOn_invariant hcreate hflush (P := fun done _ p => P done p)
    ⟨fun hunder _ _ hop _ hexec _ _ hkept => hstep hunder.grown.wellNested hunder.grown.registry hexec
        (fun hnone => by rw [hop] at hnone; cases hnone) hkept,
      fun hunder _ _ _ hexec hsteady hkept => hstep hunder.grown.wellNested hunder.grown.registry hexec
        (fun _ => hsteady) hkept⟩
    (fun _ h => h) hp htends hstart h

/-- A build that has returned has created all elements of its template. -/
theorem buildOn_created (hcreate : host.Creates strict) (hflush : host.Flushes strict) (hp : p.WellNested strict)
    (htends : t.Tends (p.Tended strict)) (h : t.buildOn host c root sink p = some (.ok (i, report), q)) {s : Slot}
    {ns : Namespace} (hop : .createElement s tag ns ∈ t.build) :
    ∃ p' r, p'.WellNested strict ∧ p'.registry = p.registry ∧ host.create tag ns p' = some r := by
  have hall := buildOn_kept hcreate hflush
    (P := fun done _ => ∀ s tag ns, Op.createElement s tag ns ∈ done →
      ∃ p' r, p'.WellNested strict ∧ p'.registry = p.registry ∧ host.create tag ns p' = some r)
    (fun _ _ _ hmem => absurd hmem List.not_mem_nil) ?_ hp htends h
  · exact hall s tag ns hop
  · intro done op i p' step q' hp' hregistry hexec _ hdone s tag ns hmem
    rcases List.mem_append.mp hmem with hmem | hmem
    · exact hdone s tag ns hmem
    · obtain rfl := List.mem_singleton.mp hmem
      obtain ⟨n, hcreated, -⟩ := Instance.exec_createElement.mp hexec
      exact ⟨p', (n, q'), hp', hregistry, hcreated⟩

/-- A build adds what its instructions add. -/
theorem buildOn_adds (hcreate : host.Creates strict) (hflush : host.Flushes strict)
    (hhost : host.AddsUnfolded strict) (hp : p.WellNested strict) (htends : t.Tends (p.Tended strict))
    (h : t.buildOn host c root sink p = some (.ok (i, report), q)) {k : Nat}
    (hadds : p.registry.AddsAll k t.build) : q.document.size = p.document.size + k := by
  have hall := buildOn_kept hcreate hflush
    (P := fun done p' => ∀ k, p.registry.AddsAll k done → p'.document.size = p.document.size + k)
    (fun k hk => by cases hk; rfl) ?_ hp htends h
  · exact hall k hadds
  · intro done op i p' step q' hp' hregistry hexec hsteady hdone k hk
    obtain ⟨first, more, hfirst, hmore, rfl⟩ := Registry.addsAll_append.mp hk
    rw [Registry.addsAll_singleton, ← hregistry] at hmore
    rw [Instance.document_stepWarned, Instance.execBuild_adds hhost hp' hexec hsteady hmore, hdone first hfirst,
      Nat.add_assoc]

end Template

/-- An element that has been connected shows its template, built on a page that differs only by the element. -/
theorem connectElement_built (hcreate : host.Creates strict) (hflush : host.Flushes strict) {d : Definition}
    {kind : NodeKind} {u : Unit} (hp : p.WellNested strict) (hd : p.registry.get? tag = some d)
    (h : connectElement host tag p.document.size d { p with document := p.document.push kind } = some (u, q)) :
    q.isCustom p.document.size = true ∧ ∃ t initial p₁ q₁ i report, d.kind = .widget t initial ∧
      t.createsRoot = false ∧ p₁.WellNested strict ∧ p₁.registry = p.registry ∧
      p₁.document.size = p.document.size + 1 ∧ q.document.size = q₁.document.size ∧ t.Tends (p₁.Tended strict) ∧
      t.buildOn host p.components.size (some p.document.size) .warnings p₁ = some (.ok (i, report), q₁) := by
  obtain ⟨t, initial, p₁, i, k, found, r, -, hkind, hadopts, hconnecting, hp₁, htends, hbuild, -, -, hi, hhoused,
    rfl⟩ := connectElement_underway hcreate hflush hp hd h
  obtain ⟨hgrown, hwidget, -⟩ := hconnecting.grown hp hi hhoused r.connecting.dropLast rfl
  have hsteady := (Page.applyDeferred_touched hgrown.wellNested p.document.size).steady
  refine ⟨?_, t, initial, p₁, r, i, found, hkind, hadopts, hp₁, hconnecting.registry, hconnecting.size, hsteady.size,
    htends, hbuild⟩
  obtain ⟨e, he, -⟩ := Page.custom?_of_widget? hwidget
  rw [Page.finishConnecting, hsteady.isCustom, Page.isCustom, he]
  rfl

theorem createElementWith_adds (hcreate : host.Creates strict) (hflush : host.Flushes strict)
    (hhost : host.AddsUnfolded strict) {ns : Namespace} {within : List Outline} (hp : p.WellNested strict)
    (h : createElementWith host tag ns p = some (n, q)) (hwithin : p.registry.Furnishes tag ns within) :
    q.document.size = p.document.size + (1 + Outline.countAll within) := by
  obtain ⟨rfl, ⟨hplain, rfl⟩ | ⟨d, rfl, hd, hconnect⟩⟩ := createElementWith_eq_some.mp h
  · cases hwithin with
    | plain => exact p.document.size_push _
    | widget hd => cases (hplain rfl).symm.trans hd
  · obtain ⟨-, t, initial, p₁, q₁, i, report, hkind, hadopts, hp₁, hregistry, hsize, hsize', htends, hbuild⟩ :=
      connectElement_built hcreate hflush hp hd hconnect
    cases hwithin with
    | plain hplain => cases (hplain rfl).symm.trans hd
    | widget hd' hkind' hsource hinner =>
      cases hd.symm.trans hd'
      cases hkind.symm.trans hkind'
      have hadds := hsource.adds_build hadopts hinner
      rw [← hregistry] at hadds
      rw [hsize', Template.buildOn_adds hcreate hflush hhost hp₁ htends hbuild hadds, hsize, Nat.add_assoc]

theorem hostTo_addsUnfolded (depth : Nat) : (hostTo depth).AddsUnfolded strict := by
  induction depth with
  | zero => exact fun _ _ _ _ _ _ _ h => by cases h
  | succ depth ih =>
    exact fun _ _ _ _ _ _ hp h hwithin =>
      createElementWith_adds (hostTo_creates depth) (hostTo_flushes depth) ih hp h hwithin

theorem Template.exists_of_mem_createdTags (h : tag ∈ t.createdTags) : ∃ s, .createElement s tag .html ∈ t.build := by
  obtain ⟨op, hop, htag⟩ := List.mem_filterMap.mp h
  cases op with
  | createElement s inner ns =>
    cases ns with
    | html =>
      cases htag
      exact ⟨s, hop⟩
    | _ => cases htag
  | _ => cases htag

theorem Page.NestsFinitely.congr (hregistry : q.registry = p.registry) (h : p.NestsFinitely tag) :
    q.NestsFinitely tag := by
  unfold NestsFinitely Nests Defines
  rw [hregistry]
  exact h

/-- An element that has been created has all its elements within, so its tag holds others only finitely. -/
theorem nestsFinitely_of_create (depth : Nat) (hp : p.WellNested strict)
    (h : (hostTo depth).create tag .html p = some (n, q)) : p.NestsFinitely tag := by
  induction depth generalizing p q tag n with
  | zero => cases h
  | succ depth ih =>
    obtain ⟨-, ⟨hplain, -⟩ | ⟨d, -, hd, hconnect⟩⟩ := createElementWith_eq_some.mp h
    · refine ⟨_, fun inner ⟨_, d, _, _, hd, _⟩ => ?_⟩
      cases (hplain rfl).symm.trans hd
    · obtain ⟨-, t, initial, p₁, q₁, i, report, hkind, -, hp₁, hregistry, -, -, htends, hbuild⟩ :=
        connectElement_built (hostTo_creates depth) (hostTo_flushes depth) hp hd hconnect
      refine ⟨_, fun inner ⟨_, d', t', initial', hd', hkind', hmem⟩ => ?_⟩
      -- the template that was built is the one that holds the inner tag, so an element with it was created one
      -- level down, on a page with the same definitions
      cases hd.symm.trans hd'
      cases hkind.symm.trans hkind'
      obtain ⟨s, hop⟩ := Template.exists_of_mem_createdTags hmem
      obtain ⟨p₂, r, hp₂, hregistry', hcreated⟩ := Template.buildOn_created (hostTo_creates depth)
        (hostTo_flushes depth) hp₁ htends hbuild hop
      exact (ih hp₂ hcreated).congr (hregistry'.trans hregistry).symm

theorem createElement_returns_iff (hp : p.WellNested strict) :
    (∃ n q, createElement tag .html p = some (n, q)) ↔ p.NestsFinitely tag := by
  constructor
  · rintro ⟨n, q, h⟩
    exact nestsFinitely_of_create p.nesting hp (withHost_eq_some.mp h)
  · intro h
    obtain ⟨n, q, hcreate⟩ := (hostTo_reaches p.nesting).create tag .html p hp h.fits_nesting
    exact ⟨n, q, withHost_eq_some.mpr hcreate⟩

/-- However deep the elements nest that creating one takes, the page goes that deep. -/
theorem createElement_of_create (hp : p.WellNested strict) {depth : Nat}
    (h : (hostTo depth).create tag .html p = some (n, q)) : createElement tag .html p = some (n, q) := by
  obtain ⟨n', q', hcreate⟩ := (createElement_returns_iff hp).mpr (nestsFinitely_of_create depth hp h)
  -- both are what the sum of the two depths gives
  have hdeep := (hostTo_covered p.nesting depth).create tag .html p _ hp (withHost_eq_some.mp hcreate)
  have hdeep' := (hostTo_covered depth p.nesting).create tag .html p _ hp h
  rw [Nat.add_comm] at hdeep'
  cases hdeep.symm.trans hdeep'
  exact hcreate

/-- An element with a defined tag is created exactly if no endless chain of tags that hold each other starts
there, and then to any depth that is enough it is the same. All widgets that have been added are connected, and
the nodes that have been added are those of the element with its template unfolded. -/
theorem creation_ends_iff_not_circular {p : Page} (hp : p.Reached) {tag : String} (htag : p.Defines tag) :
    ((∃ n q, createElement tag .html p = some (n, q)) ↔
      ¬∃ chain : Nat → String, chain 0 = tag ∧ ∀ k, p.Nests (chain k) (chain (k + 1))) ∧
    (∀ depth n q, (hostTo depth).create tag .html p = some (n, q) → createElement tag .html p = some (n, q)) ∧
    ∀ n q, createElement tag .html p = some (n, q) →
      q.isCustom n = true ∧
      (∀ m e, p.custom? m = none → q.custom? m = some e → ∃ w i, e = ⟨.widget w, false⟩ ∧ w.shown = some i) ∧
      (∃ within, p.registry.Furnishes tag .html within) ∧
      ∀ within, p.registry.Furnishes tag .html within →
        q.document.size = p.document.size + (Outline.element tag .html within).count := by
  obtain ⟨hsound, hdefined⟩ := hp.sound
  have hnested := hsound.wellNested
  refine ⟨?_, fun depth n q h => createElement_of_create hnested h, fun n q h => ?_⟩
  · rw [createElement_returns_iff hnested]
    exact (not_iff_comm.mp not_acc_iff_exists_descending_chain).symm
  · have hcreate := withHost_eq_some.mp h
    have hmade := (hostTo_creates p.nesting).create tag .html p n q hcreate hnested
    refine ⟨?_, fun m e hnew he => ?_, ?_, fun within => ?_⟩
    · obtain ⟨rfl, ⟨hplain, -⟩ | ⟨d, -, hd, hconnect⟩⟩ := createElementWith_eq_some.mp hcreate
      · rw [Page.Defines, Dict.contains, hplain rfl] at htag
        cases htag
      · exact (connectElement_built (hostTo_creates _) (hostTo_flushes _) hnested hd hconnect).1
    · obtain ⟨-, w, i, he, -, hshown⟩ := hmade.connected hnew he
      exact ⟨w, i, he, hshown⟩
    · exact (nestsFinitely_of_create p.nesting hnested hcreate).furnishes hdefined
    · exact hostTo_addsUnfolded p.nesting tag .html p n q within hnested hcreate

/-- A box is three nodes: the box, the item in it and the text in that. -/
theorem sampleBox_furnishes :
    sampleCratePage.registry.Furnishes "x-box" .html [.element "x-item" .html [.text]] := by
  have hitem : sampleItemTemplate.CompiledFrom (.node (.ofTag "x-item") [.text (.property "label")]) :=
    ⟨fun _ => none, .empty, { createRoot := false }, _, rfl⟩
  have hbox : sampleBoxTemplate.CompiledFrom (.node (.ofTag "x-box")
      [.node { NodeHead.ofTag "x-item" with attributes := [("label", .property "label")] } []]) :=
    ⟨sampleShelfPage.registry.declared, .empty, { createRoot := false }, _, rfl⟩
  have hwithin : sampleCratePage.registry.Furnishes "x-item" .html [.text] :=
    .widget rfl rfl hitem (.cons (.text trivial) .nil)
  exact .widget rfl rfl hbox
    (.cons (@Registry.Unfolds.element _ .html _ [] [.text] [] (by decide) hwithin .nil) .nil)

theorem creation_ends_iff_not_circular_sampleBox :
    sampleCratePage.Reached ∧ sampleCratePage.Defines "x-box" ∧
    (¬∃ chain : Nat → String, chain 0 = "x-box" ∧ ∀ k, sampleCratePage.Nests (chain k) (chain (k + 1))) ∧
    ∃ n q, createElement "x-box" .html sampleCratePage = some (n, q) ∧ q.isCustom n = true ∧
      (∃ w i, q.custom? 1 = some ⟨.widget w, false⟩ ∧ w.shown = some i) ∧ q.document.size = 3 := by
  have hresult : (createElement "x-box" .html sampleCratePage).map (·.2.isCustom 1) = some true := by
    decide +kernel
  obtain ⟨⟨n, q⟩, hcreate, hitem⟩ := Option.map_eq_some_iff.mp hresult
  obtain ⟨e, he⟩ := Option.isSome_iff_exists.mp hitem
  have htag : sampleCratePage.Defines "x-box" := rfl
  obtain ⟨hends, -, hcreated⟩ := creation_ends_iff_not_circular sampleCratePage_reached htag
  obtain ⟨hcustom, hconnected, -, hsize⟩ := hcreated n q hcreate
  obtain ⟨w, i, rfl, hshown⟩ := hconnected 1 e rfl he
  exact ⟨sampleCratePage_reached, htag, hends.mp ⟨n, q, hcreate⟩, n, q, hcreate, hcustom, ⟨w, i, he, hshown⟩,
    hsize _ sampleBox_furnishes⟩

/-- A tag that holds itself. -/
def sampleLoop : TemplateNode :=
  .node (.ofTag "x-loop") [.node (.ofTag "x-loop") []]

def sampleLoopTemplate : Template :=
  .ofPlan { createRoot := false } sampleLoop.size (sampleLoop.rootPlan (fun _ => none) { createRoot := false })

example : (createElement "x-loop" .html { Page.empty with
    registry := Dict.empty.insert "x-loop" ⟨[], .widget sampleLoopTemplate ⟨"loop", [], []⟩⟩ }).isNone = true := by
  decide +kernel

end LiveMarkup
