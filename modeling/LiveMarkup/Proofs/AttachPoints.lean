import LiveMarkup.Proofs.BuildErrors
import LiveMarkup.Proofs.ExposedNodes
import LiveMarkup.Proofs.FirstFlaw
import LiveMarkup.Proofs.MirroredSteps

namespace LiveMarkup

variable {name : String} {s : Slot} {options : CompileOptions} {node : TemplateNode} {declared : Declarations}
  {t : Template} {p q : Page} {maps maps' : PropertyMaps} {n : NodeId} {host : Host}

namespace TemplateNode

def head? : TemplateNode → Option NodeHead
  | .text _ => none
  | .node head _ => some head

/-- The names that a node declares for itself. -/
def ownNames : TemplateNode → List String
  | .text _ => []
  | .node head _ => head.attachPoints

mutual

theorem map_visits : ∀ (path : String) (node : TemplateNode),
    (node.visits path).map (·.head) = node.preorder.filterMap head?
  | _, .text _ => rfl
  | path, .node head children => congrArg (head :: ·) (map_visitsFrom path 0 children)

theorem map_visitsFrom : ∀ (path : String) (index : Nat) (nodes : List TemplateNode),
    (visitsFrom path index nodes).map (·.head) = (preorderAll nodes).filterMap head?
  | _, _, [] => rfl
  | path, index, child :: rest => by
    rw [visitsFrom, preorderAll, List.map_append, List.filterMap_append, map_visits, map_visitsFrom]

end

/-- No two nodes declare the same name. -/
theorem WellFormed.names_apart (h : node.WellFormed options) {s s' : Nat} {sub sub' : TemplateNode}
    (hsub : node.preorder[s]? = some sub) (hsub' : node.preorder[s']? = some sub') (hname : name ∈ sub.ownNames)
    (hname' : name ∈ sub'.ownNames) : s = s' := by
  have hheads : (node.preorder.filterMap head?).Pairwise fun a b : NodeHead =>
      ∀ name ∈ a.attachPoints, name ∉ b.attachPoints := by
    rw [← map_visits options.rootName]
    exact List.pairwise_map.mpr h.attachPoints
  have hpairs : node.preorder.Pairwise fun a b => ∀ name ∈ a.ownNames, name ∉ b.ownNames := by
    refine (List.pairwise_filterMap.mp hheads).imp fun {a b} hab name ha hb => ?_
    cases a with
    | text spec => cases ha
    | node head children =>
      cases b with
      | text spec => cases hb
      | node head' children' => exact hab head rfl head' rfl name ha hb
  have hbefore : ∀ {i j : Nat} {a b : TemplateNode}, node.preorder[i]? = some a → node.preorder[j]? = some b →
      name ∈ a.ownNames → name ∈ b.ownNames → ¬i < j := by
    intro i j a b hi hj ha hb hlt
    obtain ⟨hi', rfl⟩ := List.getElem?_eq_some_iff.mp hi
    obtain ⟨hj', rfl⟩ := List.getElem?_eq_some_iff.mp hj
    exact List.pairwise_iff_getElem.mp hpairs i j hi' hj' hlt name ha hb
  have hle := Nat.not_lt.mp (hbefore hsub' hsub hname' hname)
  have hge := Nat.not_lt.mp (hbefore hsub hsub' hname hname')
  exact Nat.le_antisymm hle hge

theorem wellFormed_of_compileWith (h : compileWith declared maps options node = (.ok t, maps')) :
    node.WellFormed options := by
  obtain ⟨head, children, rfl, -⟩ := compileWith_ok h
  exact wellFormed_iff.mpr (compileWith_eq_ok_iff.mp ⟨t, by rw [h]⟩)

/-- A text that is written as a node without a tag declares nothing. -/
theorem WellFormed.tag_ne (h : node.WellFormed options) {s : Nat} {head : NodeHead} {children : List TemplateNode}
    (hsub : node.preorder[s]? = some (.node head children)) (hname : name ∈ head.attachPoints) : head.tag ≠ "" := by
  intro htag
  have hmem : head ∈ (node.visits options.rootName).map (·.head) := by
    rw [map_visits]
    exact List.mem_filterMap.mpr ⟨_, List.mem_of_getElem? hsub, rfl⟩
  obtain ⟨v, hv, rfl⟩ := List.mem_map.mp hmem
  rw [(h.texts v hv htag).2.2.1] at hname
  cases hname

end TemplateNode

theorem PlanHead.attach_mem_build {h : PlanHead} : .attach s name ∈ h.build ↔ s = h.slot ∧ name ∈ h.attachPoints := by
  simp only [PlanHead.build, List.cons_append, List.mem_cons, List.mem_append, List.mem_map]
  constructor
  · rintro (hop | ((⟨_, hname, hop⟩ | ⟨⟨target, spec⟩, _, hop⟩) | hop) | ⟨_, _, hop⟩)
    · split at hop <;> cases hop
    · cases hop
      exact ⟨rfl, hname⟩
    · cases target <;> cases hop
    · split at hop
      · cases List.mem_singleton.mp hop
      · exact absurd hop List.not_mem_nil
    · cases hop
  · rintro ⟨rfl, hname⟩
    exact Or.inr (Or.inl (Or.inl (Or.inl ⟨name, hname, rfl⟩)))

theorem TemplateNode.PlannedAt.mem_attachPoints {sub : TemplateNode} {planned : PlanHead} {plans : List Plan}
    (h : PlannedAt declared options s sub (.element planned plans)) :
    name ∈ planned.attachPoints ↔ name ∈ sub.ownNames := by
  cases h with
  | element => exact mem_firstOccurrences

/-- The names of a template are those of its source, each for the slot of the node that declares it. -/
theorem Template.attach_mem_build_iff (h : compileWith declared maps options node = (.ok t, maps')) :
    .attach s name ∈ t.build ↔ ∃ sub, node.preorder[s]? = some sub ∧ name ∈ sub.ownNames := by
  have hwell := TemplateNode.wellFormed_of_compileWith h
  obtain ⟨head, children, rfl, htag, hleaves, rfl⟩ := compileWith_ok h
  constructor
  · intro hop
    obtain ⟨planned, plans, hplan, hop⟩ := Plan.head_of_mem_build hop (by simp) (by simp)
    obtain ⟨rfl, hname⟩ := PlanHead.attach_mem_build.mp hop
    obtain ⟨sub, hsub, hsame⟩ := TemplateNode.exists_source htag hleaves hplan
    exact ⟨sub, hsub, hsame.mem_attachPoints.mp hname⟩
  · rintro ⟨sub, hsub, hname⟩
    obtain ⟨q, hq, hslot, hsame⟩ := TemplateNode.exists_planned declared options htag hleaves hsub
    cases q with
    | text slot spec =>
      cases hsame with
      | text spec => cases hname
      | expression htext _ => exact absurd htext (hwell.tag_ne hsub hname)
    | element planned plans =>
      refine Plan.mem_build.mpr (Or.inl ⟨_, List.mem_of_getElem? hq, ?_⟩)
      exact PlanHead.attach_mem_build.mpr ⟨hslot.symm, hsame.mem_attachPoints.mpr hname⟩

theorem Template.Compiled.names_apart (ht : t.Compiled) {s' : Slot} (hs : .attach s name ∈ t.build)
    (hs' : .attach s' name ∈ t.build) : s = s' := by
  obtain ⟨declared, maps, options, node, maps', h⟩ := ht
  obtain ⟨sub, hsub, hname⟩ := (Template.attach_mem_build_iff h).mp hs
  obtain ⟨sub', hsub', hname'⟩ := (Template.attach_mem_build_iff h).mp hs'
  exact (TemplateNode.wellFormed_of_compileWith h).names_apart hsub hsub' hname hname'

/-- From nothing, the instructions of a compiled template expose the nodes of the slots that have names. -/
theorem Instance.get?_exposeAll_iff (i : Instance) (h : i.template.Compiled) :
    (i.exposeAll i.template.build Dict.empty).get? name = some n ↔
      ∃ s, .attach s name ∈ i.template.build ∧ i.node? s = some n := by
  by_cases hnamed : ∃ s, .attach s name ∈ i.template.build
  · obtain ⟨s, hs⟩ := hnamed
    have halone : ∀ s', .attach s' name ∈ i.template.build → s' = s := fun s' hs' => h.names_apart hs' hs
    rw [get?_exposeAll_of_named hs halone]
    have hnone : (Dict.empty : Dict NodeId).get? name = none := rfl
    rw [hnone, Option.or_none]
    constructor
    · exact fun hn => ⟨s, hs, hn⟩
    · rintro ⟨s', hs', hn⟩
      rwa [halone s' hs'] at hn
  · have hunnamed : ∀ s, .attach s name ∉ i.template.build := fun s hs => hnamed ⟨s, hs⟩
    rw [get?_exposeAll_of_unnamed hunnamed]
    constructor
    · intro hn
      cases hn
    · rintro ⟨s, hs, -⟩
      exact absurd hs (hunnamed s)

/-- A slot has the node that the page gave for the element when it was asked for it. -/
theorem Instance.create_mem_edits {root : Option NodeId} {k k' : Nat} {ops : List Op} (hseq : Op.Sequence k ops k')
    (hroot : root.isSome ∨ ∀ s, .adoptRoot s ∉ ops) {i i' : Instance} {r : Report}
    (h : i.runBuild host root ops p = some ((i', r), q)) {tag : String} {ns : Namespace}
    (hop : .createElement s tag ns ∈ ops) (hn : i'.node? s = some n) : .create tag ns n ∈ r.edits := by
  induction hseq generalizing i p r with
  | nil => cases hop
  | @bind k k' op rest hbound hrest ih =>
    obtain ⟨step, p₁, others, hstep, hrun, rfl⟩ := runBuild_cons.mp h
    have hroot' := hroot.imp_right fun hno s hs => hno s (List.mem_cons_of_mem op hs)
    rcases List.mem_cons.mp hop with rfl | hop
    · cases hbound
      obtain ⟨made, -, rfl⟩ := exec_createElement.mp hstep
      have hkept := runBuild_node?_of_lt hrest (Nat.lt_succ_self s) hroot' hrun
      rcases node?_bind_cases (hkept.symm.trans hn) with ⟨-, hsame⟩ | ⟨hne, -⟩
      · cases hsame
        exact List.mem_append_left _ (List.mem_singleton_self _)
      · exact absurd rfl hne
    · exact List.mem_append_right _ (ih hroot' hrun hop)
  | @use k k' op rest hbound _ _ ih =>
    obtain ⟨step, p₁, others, -, hrun, rfl⟩ := runBuild_cons.mp h
    rcases List.mem_cons.mp hop with rfl | hop
    · cases hbound
    · refine List.mem_append_right _ (ih ?_ hrun hop)
      exact hroot.imp_right fun hno s hs => hno s (List.mem_cons_of_mem op hs)

/-- The node of an element that the template creates itself is one that it asked the page for. -/
theorem Template.create_mem_report (h : compileWith declared maps options node = (.ok t, maps')) {c : ComponentId}
    {root : Option NodeId} {sink : Sink} {i : Instance} {report : Report}
    (hbuild : t.buildOn host c root sink p = some (.ok (i, report), q)) {head : NodeHead}
    {children : List TemplateNode} (hsub : node.preorder[s]? = some (.node head children)) (htag : head.tag ≠ "")
    (hcreates : t.Creates s) (hn : i.node? s = some n) : ∃ ns, .create head.tag ns n ∈ report.edits := by
  have htends : t.Tends fun _ => False := Template.Compiled.tends ⟨declared, maps, options, node, maps', h⟩
  have hobstacle := obstacle?_of_buildOn hbuild
  obtain ⟨i', _, hrun, -, rfl⟩ := runBuild_of_buildOn hbuild
  obtain ⟨op, hop, hmakes⟩ := (slotDiscipline_of_compileWith h).created s _ hsub
  rw [Op.Creates, if_neg htag] at hmakes
  rcases hmakes with rfl | ⟨ns, rfl⟩
  · obtain ⟨rfl, hadopts⟩ := htends.adopted s hop
    rcases hcreates with hne | hcreates
    · exact absurd rfl hne
    · cases hadopts.symm.trans hcreates
  · exact ⟨ns, Instance.create_mem_edits htends.sequence (htends.adopts_given hobstacle) hrun hop hn⟩

/-- Requests leave widgets of compiled templates only. -/
theorem Request.widgetsOnly {α : Type} {act : Host → Act α} (hact : Request act) (hhost : host.Orderly) {answer : α}
    (hp : p.WidgetsOnly) (h : act host p = some (answer, q)) : q.WidgetsOnly := by
  cases hact with
  | create tag ns => exact hhost.create tag ns p answer q h hp
  | build ht c root sink => exact (Template.buildOn_widgetsOnly hhost hp h).1
  | refresh hi changed => exact (Instance.refresh_keeps hhost hi hp h).widgets
  | deliver hi => exact (Instance.deliverRounds_keeps hhost hi hp h).widgets
  | flush n => exact (hhost.flush n p answer q h hp).widgets
  | write n path v =>
    cases Act.modify_eq_some.mp h
    exact (Page.setProperty_keeps hp n path v).widgets

theorem Page.Reached.widgetsOnly (h : p.Reached) : p.WidgetsOnly := by
  induction h with
  | start helements hdefined =>
    refine ⟨fun tag d hd => ?_, fun e he => ?_⟩
    · obtain ⟨t, initial, hkind, -, declared, maps, options, node, maps', hcompile, -⟩ := hdefined tag d hd
      exact ⟨t, initial, hkind, declared, maps, options, node, maps', hcompile⟩
    · rw [helements] at he
      cases he
  | define _ ht hq ih => exact ih.defineWidget ht hq
  | request _ hact hq ih => exact hact.widgetsOnly (hostTo_orderly _) ih (withHost_eq_some.mp hq)
  | dispatch _ hq ih =>
    have hparts := dispatch_undisturbed hq
    exact ih.congr hparts.registry hparts.elements
  | change _ hregistry helements _ _ _ ih => exact ih.congr hregistry helements

/-- Under each of its names an element is exposed as the node that was created for it, or adopted, and it has all its
names for that node. Other names are left alone, and so is what other components expose: a widget that comes with the
build exposes what its own template says. -/
theorem attach_points_name_their_nodes {p : Page} (hp : p.Reached) {declared : Declarations}
    {maps maps' : PropertyMaps} {options : CompileOptions} {node : TemplateNode} {t : Template}
    (h : compileWith declared maps options node = (.ok t, maps'))
    (hfinite : ∀ tag ∈ t.createdTags, p.NestsFinitely tag) {c : ComponentId} (hc : c < p.components.size)
    (hfree : p.access c = .free) {root : Option NodeId} (hroot : t.SuitsRoot p root) (sink : Sink) :
    ∃ i report q, t.instantiate c root sink p = some (.ok (i, report), q) ∧
      (∀ s head children, node.preorder[s]? = some (.node head children) → head.tag ≠ "" →
        ∃ n, i.node? s = some n ∧ (∀ s', i.node? s' = some n → s' = s) ∧
          (s = 0 ∧ root = some n ∨ p.document.size ≤ n ∧ ∃ ns, .create head.tag ns n ∈ report.edits) ∧
          ∀ name ∈ head.attachPoints, (q.component c).attachPoints.get? name = some n) ∧
      (∀ name, (∀ sub ∈ node.preorder, name ∉ sub.ownNames) →
        (q.component c).attachPoints.get? name = (p.component c).attachPoints.get? name) ∧
      (∀ c', c' < p.components.size → c' ≠ c → (q.component c').attachPoints = (p.component c').attachPoints) ∧
      ∀ m w, p.document.size ≤ m → q.widget? m = some w → w.component ≠ c ∧ ∃ inner tag d initial,
        w.shown = some inner ∧ p.registry.get? tag = some d ∧ d.kind = .widget inner.template initial ∧
        ∀ name n, (q.component w.component).attachPoints.get? name = some n ↔
          ∃ s, .attach s name ∈ inner.template.build ∧ inner.node? s = some n := by
  have hwell := hp.sound.1.wellNested
  have hcompiled : t.Compiled := ⟨declared, maps, options, node, maps', h⟩
  have htends : t.Tends (p.Tended False) := p.tended_false ▸ hcompiled.tends
  have hobstacle : t.obstacle? c root p = none := by
    rw [Template.obstacle?_of_suitsRoot hroot, if_neg (not_not_intro hfree)]
  obtain ⟨i, report, q, hinstance⟩ := Template.instantiate_returns sink hwell htends hobstacle hfinite
  have hbuild := withHost_eq_some.mp hinstance
  obtain ⟨_, _, heq, hi, htemplate, -, hbound⟩ :=
    Template.buildOn_underway (hostTo_creates _) (hostTo_flushes _) hwell htends hobstacle hbuild
  cases heq
  have hexposing := Template.buildOn_exposing (hostTo_creates _) (hostTo_flushes _) (hostTo_orderly _)
    (hostTo_furnishes _) hwell hp.widgetsOnly htends hc hfree hbuild
  have hown : (q.component c).attachPoints = i.exposeAll t.build (p.component c).attachPoints := hexposing.own
  refine ⟨i, report, q, hinstance, ?_, ?_, fun c' hlt hne => hexposing.others c' hlt hne, ?_⟩
  · intro s head children hsub htag
    have hslot : s < t.slotNames.length := by
      rw [(slotDiscipline_of_compileWith h).slot_count]
      exact (List.getElem?_eq_some_iff.mp hsub).1
    obtain ⟨n, hnode⟩ := hbound s hslot
    have hn := Instance.node_eq_ok.mp hnode
    refine ⟨n, hn, fun s' hs' => hi.injective s' s n hs' hn, ?_, fun name hname => ?_⟩
    · rcases hi.nodes s n hn with ⟨rfl, -, hgiven, -⟩ | ⟨hcreates, hnew, -⟩
      · exact Or.inl ⟨rfl, hgiven⟩
      · exact Or.inr ⟨hnew, Template.create_mem_report h hbuild hsub htag (htemplate ▸ hcreates) hn⟩
    · have hop : .attach s name ∈ t.build := (Template.attach_mem_build_iff h).mpr ⟨_, hsub, hname⟩
      rw [hown, Instance.get?_exposeAll_of_named hop fun s' hs' => hcompiled.names_apart hs' hop, hn]
      rfl
  · intro name hundeclared
    rw [hown, Instance.get?_exposeAll_of_unnamed]
    intro s hop
    obtain ⟨sub, hsub, hname⟩ := (Template.attach_mem_build_iff h).mp hop
    exact hundeclared sub (List.mem_of_getElem? hsub) hname
  · intro m w hm hw
    have hnew := hi.grown.owned m w hm hw
    obtain ⟨inner, tag, d, initial, hshown, hd, hkind, hpoints⟩ := hexposing.made m w hm hw
    rw [hi.grown.registry] at hd
    obtain ⟨t', initial', hkind', ht'⟩ := hp.widgetsOnly.defined tag d hd
    cases hkind.symm.trans hkind'
    refine ⟨Nat.ne_of_gt (Nat.lt_of_lt_of_le hc hnew), inner, tag, d, initial, hshown, hd, hkind, fun name n => ?_⟩
    have hinner : (q.component w.component).attachPoints = inner.exposeAll inner.template.build Dict.empty := hpoints
    rw [hinner]
    exact inner.get?_exposeAll_iff ht'

/-- A stamp that exposes its root and its label. -/
def sampleStamp : TemplateNode :=
  .node { NodeHead.ofTag "x-stamp" with attachPoints := ["box"] }
    [.node { NodeHead.ofTag "b" with attachPoints := ["label"] } []]

def sampleStampTemplate : Template :=
  .ofPlan { createRoot := false } sampleStamp.size (sampleStamp.rootPlan (fun _ => none) { createRoot := false })

/-- A letter with two names for its root, one of which the stamp in it has as well. -/
def sampleLetter : TemplateNode :=
  .node { NodeHead.ofTag "div" with attachPoints := ["box", "top"] }
    [.node { NodeHead.ofTag "x-stamp" with attachPoints := ["inner"] } []]

def sampleLetterTemplate : Template :=
  .ofPlan {} sampleLetter.size (sampleLetter.rootPlan (fun _ => none) {})

def sampleLetterPage : Page :=
  { Page.empty with
    components := #[⟨(Component.named "letter").attach "old" 7, .free, true⟩]
    registry := Dict.empty.insert "x-stamp" ⟨[], .widget sampleStampTemplate ⟨"stamp", [], []⟩⟩ }

theorem sampleLetterPage_reached : sampleLetterPage.Reached := by
  have hblank : { sampleLetterPage with registry := Dict.empty }.Reached := .start rfl fun _ _ hd => by cases hd
  have hcompiled : sampleStampTemplate.Compiled := ⟨fun _ => none, .empty, { createRoot := false }, sampleStamp, _, rfl⟩
  have hdefine : { sampleLetterPage with registry := Dict.empty }.defineWidget "x-stamp" sampleStampTemplate
      ⟨"stamp", [], []⟩ = .ok (true, sampleLetterPage) := rfl
  exact .define hblank hcompiled hdefine

theorem sampleLetterPage_defined {tag : String} {d : Definition} (h : sampleLetterPage.registry.get? tag = some d) :
    tag = "x-stamp" ∧ d = ⟨[], .widget sampleStampTemplate ⟨"stamp", [], []⟩⟩ := by
  have hregistry : sampleLetterPage.registry =
      Dict.empty.insert "x-stamp" ⟨[], .widget sampleStampTemplate ⟨"stamp", [], []⟩⟩ := rfl
  rw [hregistry, Dict.get?_insert] at h
  by_cases htag : tag = "x-stamp"
  · rw [if_pos htag] at h
    exact ⟨htag, (Option.some.inj h).symm⟩
  · rw [if_neg htag] at h
    cases h

/-- A stamp holds no stamp. -/
theorem sampleLetterPage_nestsFinitely (tag : String) : sampleLetterPage.NestsFinitely tag := by
  refine ⟨tag, fun inner hinner => ?_⟩
  obtain ⟨hdefined, d, t, initial, hd, hkind, hmem⟩ := hinner
  obtain ⟨-, rfl⟩ := sampleLetterPage_defined hd
  cases hkind
  have htag : inner = "b" := List.mem_singleton.mp hmem
  subst htag
  cases hdefined

/-- The letter is built around a stamp. -/
theorem sampleLetterPage_built :
    (sampleLetterTemplate.instantiate 0 none .caller sampleLetterPage).map
      (fun r => (r.1.toOption.map fun b => (b.1.node? 0, b.1.node? 1), (r.2.widget? 1).isSome)) =
        some (some (some 0, some 1), true) := by
  decide +kernel

/-- The letter exposes its root under two names and the stamp under a third, and what it exposed before; the stamp,
whose root has one of these names as well, has none of the others. -/
theorem attach_points_name_their_nodes_sampleLetter : ∃ i report q w,
    sampleLetterTemplate.instantiate 0 none .caller sampleLetterPage = some (.ok (i, report), q) ∧
    i.node? 0 = some 0 ∧ i.node? 1 = some 1 ∧ q.widget? 1 = some w ∧ w.component ≠ 0 ∧
    (q.component 0).attachPoints.get? "box" = some 0 ∧ (q.component 0).attachPoints.get? "top" = some 0 ∧
    (q.component 0).attachPoints.get? "inner" = some 1 ∧ (q.component 0).attachPoints.get? "old" = some 7 ∧
    (q.component w.component).attachPoints.get? "top" = none ∧
    (q.component w.component).attachPoints.get? "inner" = none := by
  have hcompile : ∃ maps, compileWith (fun _ => none) .empty {} sampleLetter = (.ok sampleLetterTemplate, maps) :=
    ⟨_, rfl⟩
  obtain ⟨maps, hcompile⟩ := hcompile
  have hstamp : ∃ maps, compileWith (fun _ => none) .empty { createRoot := false } sampleStamp =
      (.ok sampleStampTemplate, maps) := ⟨_, rfl⟩
  obtain ⟨maps', hstamp⟩ := hstamp
  have hsuits : sampleLetterTemplate.SuitsRoot sampleLetterPage none := ⟨rfl, fun n hn => by cases hn⟩
  obtain ⟨i, report, q, hbuild, hnamed, hkept, -, hmade⟩ := attach_points_name_their_nodes sampleLetterPage_reached
    hcompile (fun tag _ => sampleLetterPage_nestsFinitely tag) (c := 0) (by decide) rfl hsuits .caller
  have hbuilt := sampleLetterPage_built
  rw [hbuild] at hbuilt
  obtain ⟨hnodes, hwidget⟩ := Prod.mk.inj (Option.some.inj hbuilt)
  obtain ⟨hroot, hinner⟩ := Prod.mk.inj (Option.some.inj hnodes)
  obtain ⟨w, hw⟩ := Option.isSome_iff_exists.mp hwidget
  obtain ⟨n, hn, -, -, hbox⟩ := hnamed 0 _ _ rfl (by decide)
  obtain ⟨m, hm, -, -, hlabel⟩ := hnamed 1 _ _ rfl (by decide)
  cases hroot.symm.trans hn
  cases hinner.symm.trans hm
  obtain ⟨hother, inner, tag, d, initial, -, hd, hkind, hexposed⟩ := hmade 1 w (by decide) hw
  obtain ⟨-, rfl⟩ := sampleLetterPage_defined hd
  have htemplate : inner.template = sampleStampTemplate := by
    injection hkind with htemplate _
    exact htemplate.symm
  have hnone : ∀ name, (∀ sub ∈ sampleStamp.preorder, name ∉ sub.ownNames) →
      (q.component w.component).attachPoints.get? name = none := by
    intro name hundeclared
    refine Option.eq_none_iff_forall_ne_some.mpr fun n hn => ?_
    obtain ⟨s, hs, -⟩ := (hexposed name n).mp hn
    obtain ⟨sub, hsub, hname⟩ := (Template.attach_mem_build_iff hstamp).mp (htemplate ▸ hs)
    exact hundeclared sub (List.mem_of_getElem? hsub) hname
  exact ⟨i, report, q, w, hbuild, hroot, hinner, hw, hother, hbox "box" (by decide), hbox "top" (by decide),
    hlabel "inner" (by decide), hkept "old" (by decide), hnone "top" (by decide), hnone "inner" (by decide)⟩

end LiveMarkup
