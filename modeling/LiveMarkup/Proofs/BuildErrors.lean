import LiveMarkup.Proofs.NestingDepth
import LiveMarkup.Proofs.ReachedPage

namespace LiveMarkup

variable {tags : String → Prop} {host : Host}

/-- A template that makes its root is given none, and one that adopts a root is given one that is there. -/
def Template.SuitsRoot (t : Template) (p : Page) (root : Option NodeId) : Prop :=
  t.createsRoot = root.isNone ∧ ∀ n, root = some n → n < p.document.size

/-- A build is refused because of its root, or else because the component is in use. -/
inductive Template.Refuses (t : Template) (c : ComponentId) (p : Page) : Option NodeId → BuildError → Prop
  | unexpectedRoot {n : NodeId} (hcreates : t.createsRoot = true) : Refuses t c p (some n) (.unexpectedRoot t.name)
  | missingRoot (hadopts : t.createsRoot = false) : Refuses t c p none (.missingRoot t.name)
  | unknownRoot {n : NodeId} (hadopts : t.createsRoot = false) (hunknown : p.document.size ≤ n) :
      Refuses t c p (some n) (.unknownRoot n)
  | componentBusy {root : Option NodeId} (hsuits : t.SuitsRoot p root) (hbusy : p.access c ≠ .free) :
      Refuses t c p root .componentBusy

/-- Instructions start by binding the first slot. -/
theorem Op.Sequence.first {op : Op} {rest : List Op} {k : Nat} (h : Op.Sequence 0 (op :: rest) k) :
    op.bound? = some 0 ∧ Op.Sequence 1 rest k := by
  cases h with
  | bind hop hrest => exact ⟨hop, hrest⟩
  | use _ hmentions _ => exact absurd (hmentions op.slot op.slot_mem_mentions) (Nat.not_lt_zero _)

/-- Instructions that bind later slots leave the earlier ones as they are. -/
theorem Instance.runBuild_node?_of_lt {root : Option NodeId} {k k' : Nat} {ops : List Op} {s : Slot}
    (hseq : Op.Sequence k ops k') (hs : s < k) (hroot : root.isSome ∨ ∀ s, .adoptRoot s ∉ ops) {i i' : Instance}
    {p q : Page} {r : Report} (h : i.runBuild host root ops p = some ((i', r), q)) : i'.node? s = i.node? s := by
  induction hseq generalizing i p r with
  | nil =>
    cases (Act.pure_eq_some.mp h).1
    rfl
  | @bind k k' op rest hop _ ih =>
    obtain ⟨step, p₁, others, hstep, h, -⟩ := runBuild_cons.mp h
    obtain ⟨n, -, hinst⟩ := execBuild_inst_of_bound
      (hroot.imp_right fun hno heq => hno k (heq ▸ List.mem_cons_self)) hop hstep
    have hrest := ih (Nat.lt_succ_of_lt hs) (hroot.imp_right fun hno s hs => hno s (List.mem_cons_of_mem _ hs)) h
    rw [hrest, hinst, node?_bind_of_ne (Nat.ne_of_lt hs)]
  | use hop _ _ ih =>
    obtain ⟨step, p₁, others, hstep, h, -⟩ := runBuild_cons.mp h
    rw [ih hs (hroot.imp_right fun hno s hs => hno s (List.mem_cons_of_mem _ hs)) h,
      execBuild_inst_of_not_bound hop hstep]

namespace Template

variable {t : Template} {c : ComponentId} {root : Option NodeId} {sink : Sink} {p q : Page}

theorem obstacle?_of_suitsRoot (h : t.SuitsRoot p root) :
    t.obstacle? c root p = if p.access c ≠ .free then some .componentBusy else none := by
  obtain ⟨hcreates, hknown⟩ := h
  cases root with
  | none => simp only [obstacle?, hcreates, Option.isNone_none]
  | some n =>
    have hhas : p.document.has n = true := decide_eq_true (hknown n rfl)
    simp [obstacle?, hcreates, hhas]

theorem suitsRoot_or_refuses (t : Template) (c : ComponentId) (p : Page) (root : Option NodeId) :
    t.SuitsRoot p root ∨ ∃ e, t.Refuses c p root e := by
  cases hcreates : t.createsRoot with
  | true =>
    cases root with
    | none => exact Or.inl ⟨hcreates, fun _ heq => by cases heq⟩
    | some n => exact Or.inr ⟨_, .unexpectedRoot hcreates⟩
  | false =>
    cases root with
    | none => exact Or.inr ⟨_, .missingRoot hcreates⟩
    | some n =>
      by_cases hn : n < p.document.size
      · exact Or.inl ⟨hcreates, fun m heq => Option.some.inj heq ▸ hn⟩
      · exact Or.inr ⟨_, .unknownRoot hcreates (Nat.not_lt.mp hn)⟩

theorem Refuses.obstacle? {e : BuildError} (h : t.Refuses c p root e) : t.obstacle? c root p = some e := by
  cases h with
  | unexpectedRoot hcreates => simp only [Template.obstacle?, hcreates]
  | missingRoot hadopts => simp only [Template.obstacle?, hadopts]
  | @unknownRoot n hadopts hunknown =>
    have hhas : p.document.has n = false := decide_eq_false (Nat.not_lt.mpr hunknown)
    simp [Template.obstacle?, hadopts, hhas]
  | componentBusy hsuits hbusy => rw [obstacle?_of_suitsRoot hsuits, if_pos hbusy]

/-- What keeps a template from being built is found in the order of the refusals. -/
theorem obstacle?_eq_some_iff {e : BuildError} : t.obstacle? c root p = some e ↔ t.Refuses c p root e := by
  refine ⟨fun h => ?_, Refuses.obstacle?⟩
  rcases t.suitsRoot_or_refuses c p root with hsuits | ⟨e', hrefuses⟩
  · rw [obstacle?_of_suitsRoot hsuits] at h
    by_cases hbusy : p.access c ≠ .free
    · rw [if_pos hbusy] at h
      cases h
      exact .componentBusy hsuits hbusy
    · rw [if_neg hbusy] at h
      cases h
  · cases hrefuses.obstacle?.symm.trans h
    exact hrefuses

theorem obstacle?_eq_none_iff : t.obstacle? c root p = none ↔ ∀ e, ¬t.Refuses c p root e := by
  simp only [← obstacle?_eq_some_iff, Option.eq_none_iff_forall_ne_some]

theorem Tends.adopts_given (h : t.Tends tags) (hobstacle : t.obstacle? c root p = none) :
    root.isSome ∨ ∀ s, .adoptRoot s ∉ t.build := by
  refine (root_given hobstacle).imp_right fun hcreates s hs => ?_
  rw [(h.adopted s hs).2] at hcreates
  cases hcreates

/-- A root that is given is the one that is adopted. -/
theorem Tends.adoptRoot_of_bound (h : t.Tends tags) {n : NodeId} (hobstacle : t.obstacle? c (some n) p = none)
    {op : Op} (hop : op ∈ t.build) (hbound : op.bound? = some 0) : op = .adoptRoot 0 := by
  by_contra hne
  rcases h.creates op hop 0 hbound hne with hzero | hcreates
  · exact hzero rfl
  · cases (Refuses.unexpectedRoot (c := c) hcreates).obstacle?.symm.trans hobstacle

/-- The root is there once the first instruction has run, and stays whatever becomes of the page. -/
theorem Tends.root_bound (h : t.Tends tags) (hobstacle : t.obstacle? c root p = none) {before after : List Op}
    (hbuild : t.build = before ++ after) (hne : before ≠ []) {i : Instance} {r : Report}
    (hrun : (t.unbuilt c sink).runBuild host root before p = some ((i, r), q)) :
    ∃ n, i.node? 0 = some n ∧ (root = none ∨ root = some n) ∧ ∀ q' i' r' q'',
      i.runBuild host root after q' = some ((i', r'), q'') → i'.node? 0 = some n := by
  have hadopts := h.adopts_given hobstacle
  have hseq := h.sequence
  rw [hbuild] at hseq hadopts
  obtain ⟨m, hbefore, hafter⟩ := hseq.split
  cases before with
  | nil => exact absurd rfl hne
  | cons op rest =>
    have hmem : op ∈ t.build := hbuild ▸ List.mem_append_left _ List.mem_cons_self
    obtain ⟨hop, hrest⟩ := hbefore.first
    obtain ⟨step, p₁, others, hstep, hrun, -⟩ := Instance.runBuild_cons.mp hrun
    obtain ⟨n, hn, hinst⟩ := Instance.execBuild_inst_of_bound
      (hadopts.imp_right fun hno heq => hno 0 (heq ▸ List.mem_cons_self)) hop hstep
    obtain ⟨n, rfl⟩ := Option.isSome_iff_exists.mp hn
    have hlen : 0 < (t.unbuilt c sink).slots.length := by simpa [unbuilt] using h.rooted
    have hfirst : step.inst.node? 0 = some n := by rw [hinst, Instance.node?_bind_self hlen]
    have hnow : i.node? 0 = some n := by
      rw [Instance.runBuild_node?_of_lt hrest Nat.zero_lt_one
        (hadopts.imp_right fun hno s hs => hno s (List.mem_append_left _ (List.mem_cons_of_mem _ hs))) hrun, hfirst]
    refine ⟨n, hnow, ?_, ?_⟩
    · cases root with
      | none => exact Or.inl rfl
      | some r =>
        obtain rfl := h.adoptRoot_of_bound hobstacle hmem hop
        obtain ⟨rfl, -⟩ := Instance.execBuild_adoptRoot.mp hstep
        rw [Instance.node?_bind_self hlen] at hfirst
        exact Or.inr hfirst
    · intro q' i' r' q'' hrun'
      rw [Instance.runBuild_node?_of_lt hafter (Nat.lt_of_lt_of_le Nat.zero_lt_one hrest.le)
        (hadopts.imp_right fun hno s hs => hno s (List.mem_append_right _ hs)) hrun', hnow]

/-- A build that starts gives an instance with its root. -/
theorem Tends.buildOn_ok (h : t.Tends tags) (hobstacle : t.obstacle? c root p = none)
    {result : Except BuildError (Instance × Report)} (hbuild : t.buildOn host c root sink p = some (result, q)) :
    ∃ i r, result = .ok (i, r) ∧ i.node? 0 = some i.root ∧ (root = none ∨ root = some i.root) := by
  obtain ⟨i, r, hrun, rfl⟩ := (buildOn_eq_some hobstacle).mp hbuild
  have hne : t.build ≠ [] := by
    intro hnil
    have hseq := h.sequence
    have hrooted := h.rooted
    rw [hnil] at hseq
    generalize t.slotNames.length = k at hseq hrooted
    cases hseq
    exact Nat.lt_irrefl 0 hrooted
  obtain ⟨n, hn, hroot, -⟩ := h.root_bound hobstacle (List.append_nil _).symm hne hrun
  rw [hn]
  exact ⟨{ i with root := n }, r, rfl, hn, hroot⟩

/-- A build fails just when it is refused, which changes nothing, and in the order of the refusals. Once its first
instruction has run there is a root, whatever the rest of the instructions do, and if no widget holds itself a build
that is not refused gives an instance. -/
theorem build_fails_only_when_refused {declared : Declarations} {maps maps' : PropertyMaps} {options : CompileOptions}
    {node : TemplateNode} (h : compileWith declared maps options node = (.ok t, maps')) (c : ComponentId)
    (root : Option NodeId) (sink : Sink) (p : Page) :
    t.createsRoot = options.createRoot ∧
    (∀ host e q, t.buildOn host c root sink p = some (.error e, q) ↔ t.Refuses c p root e ∧ q = p) ∧
    ((∀ e, ¬t.Refuses c p root e) →
      (∀ host before after i r q, t.build = before ++ after → before ≠ [] →
        (t.unbuilt c sink).runBuild host root before p = some ((i, r), q) →
        ∃ n, i.node? 0 = some n ∧ (root = none ∨ root = some n) ∧
          ∀ q' i' r' q'', i.runBuild host root after q' = some ((i', r'), q'') → i'.node? 0 = some n) ∧
      (∀ host result q, t.buildOn host c root sink p = some (result, q) →
        ∃ i r, result = .ok (i, r) ∧ i.node? 0 = some i.root ∧ (root = none ∨ root = some i.root)) ∧
      (p.Reached → (∀ tag ∈ t.createdTags, p.NestsFinitely tag) →
        ∃ i r q, t.instantiate c root sink p = some (.ok (i, r), q))) := by
  have hcompiled : t.Compiled := ⟨declared, maps, options, node, maps', h⟩
  have htends := hcompiled.tends
  refine ⟨(sequence_of_compileWith h).2, ?_, ?_⟩
  · intro host e q
    constructor
    · intro hbuild
      cases hobstacle : t.obstacle? c root p with
      | some e' =>
        cases (buildOn_of_obstacle hobstacle).symm.trans hbuild
        exact ⟨obstacle?_eq_some_iff.mp hobstacle, rfl⟩
      | none =>
        obtain ⟨i, r, hok, -⟩ := htends.buildOn_ok hobstacle hbuild
        cases hok
    · rintro ⟨hrefuses, rfl⟩
      exact buildOn_of_obstacle hrefuses.obstacle?
  · intro hfits
    have hobstacle := obstacle?_eq_none_iff.mpr hfits
    refine ⟨?_, fun host result q hbuild => htends.buildOn_ok hobstacle hbuild, fun hp hfinite => ?_⟩
    · intro host before after i r q hbuild hne hrun
      exact htends.root_bound hobstacle hbuild hne hrun
    · exact instantiate_returns sink hp.sound.1.wellNested (p.tended_false ▸ htends) hobstacle hfinite

end Template

/-- A paragraph that shows a sum in two places. -/
def sampleTally : TemplateNode :=
  .node { NodeHead.ofTag "p" with attributes := [("title", (Expr.binary .add (.prop "a") (.prop "b")).toSpec "a + b")] }
    [.text ((Expr.binary .add (.prop "a") (.prop "b")).toSpec "a + b")]

def sampleTallyTemplate : Template :=
  .ofPlan { createRoot := false } sampleTally.size (sampleTally.rootPlan (fun _ => none) { createRoot := false })

/-- A page with one element, and a component that has no properties. -/
def sampleTallyPage (access : Access) : Page :=
  { Page.empty with
    document := ⟨#[⟨.element (Element.ofTag "p" .html), none, []⟩]⟩
    components := #[⟨default, access, true⟩] }

/-- Without a root, with a root that is not there and with a component in use there is no instance; in the end there
is one, though what it shows cannot be put together. -/
theorem build_fails_only_when_refused_sampleTally :
    (∀ host, sampleTallyTemplate.buildOn host 0 none .caller (sampleTallyPage .shared) =
      some (.error (.missingRoot sampleTallyTemplate.name), sampleTallyPage .shared)) ∧
    (∀ host, sampleTallyTemplate.buildOn host 0 (some 1) .caller (sampleTallyPage .shared) =
      some (.error (.unknownRoot 1), sampleTallyPage .shared)) ∧
    (∀ host, sampleTallyTemplate.buildOn host 0 (some 0) .caller (sampleTallyPage .shared) =
      some (.error .componentBusy, sampleTallyPage .shared)) ∧
    ∃ i r q, sampleTallyTemplate.instantiate 0 (some 0) .caller (sampleTallyPage .free) = some (.ok (i, r), q) ∧
      i.root = 0 ∧ r.executed = 4 ∧ r.failed = 2 := by
  have hcompile : ∃ maps, compileWith (fun _ => none) .empty { createRoot := false } sampleTally =
      (.ok sampleTallyTemplate, maps) := ⟨_, rfl⟩
  obtain ⟨maps, hcompile⟩ := hcompile
  have hbuild := Template.build_fails_only_when_refused hcompile 0
  have hreached : (sampleTallyPage .free).Reached := .start rfl fun _ _ hd => by cases hd
  have hsuits : ∀ access, sampleTallyTemplate.SuitsRoot (sampleTallyPage access) (some 0) :=
    fun access => ⟨rfl, fun n hn => Option.some.inj hn ▸ Nat.zero_lt_one⟩
  refine ⟨fun host => ?_, fun host => ?_, fun host => ?_, ?_⟩
  · exact ((hbuild none .caller _).2.1 host _ _).mpr ⟨.missingRoot rfl, rfl⟩
  · exact ((hbuild (some 1) .caller _).2.1 host _ _).mpr ⟨.unknownRoot rfl (Nat.le_refl _), rfl⟩
  · exact ((hbuild (some 0) .caller _).2.1 host _ _).mpr ⟨.componentBusy (hsuits _) (by decide), rfl⟩
  · have hfits : ∀ e, ¬sampleTallyTemplate.Refuses 0 (sampleTallyPage .free) (some 0) e :=
      Template.obstacle?_eq_none_iff.mp rfl
    obtain ⟨-, hroot, hreturns⟩ := (hbuild (some 0) .caller (sampleTallyPage .free)).2.2 hfits
    obtain ⟨i, r, q, hinstance⟩ := hreturns hreached fun tag htag => by cases htag
    have hcounts : (sampleTallyTemplate.instantiate 0 (some 0) .caller (sampleTallyPage .free)).bind
        (fun found => found.1.toOption.map fun built => (built.2.executed, built.2.failed)) = some (4, 2) := by
      decide +kernel
    rw [hinstance] at hcounts
    obtain ⟨hexecuted, hfailed⟩ := Prod.mk.inj (Option.some.inj hcounts)
    obtain ⟨i', r', hok, -, hgiven⟩ := hroot _ _ _ (withHost_eq_some.mp hinstance)
    cases hok
    exact ⟨i, r, q, hinstance, (Option.some.inj (hgiven.resolve_left (by decide))).symm, hexecuted, hfailed⟩

end LiveMarkup
