import LiveMarkup.Proofs.NestedGrowth

namespace LiveMarkup

variable {done ops : List Op} {host : Host} {strict : Prop} {root : Option NodeId} {p q : Page} {n : NodeId}
  {i : Instance} {s : Slot} {sink : Sink}

namespace Instance

/-- A build under way that began on the page `p₀`, with the instructions `ops` to come and the slots below
`k` bound. On a strict page the new elements that have changes pending are those that will be flushed. -/
structure Underway (strict : Prop) (i : Instance) (root : Option NodeId) (p₀ : Page) (k : Nat) (ops : List Op)
    (p : Page) : Prop where
  grown : p₀.Grown strict root p
  settled : strict → ∀ m, p₀.document.size ≤ m → p.IsPending m →
    ∃ s, .flushNested s ∈ ops ∧ i.node? s = some m
  unbound : ∀ s, k ≤ s → i.node? s = none
  nodes : ∀ s n, i.node? s = some n →
    s = 0 ∧ i.template.createsRoot = false ∧ root = some n ∧ n < p₀.document.size ∨
    i.template.Creates s ∧ p₀.document.size ≤ n ∧ n < p.document.size
  custom : strict → ∀ s n, i.node? s = some n → p₀.document.size ≤ n → p.isCustom n = true →
    .flushNested s ∈ i.template.build ∧ .unconditional (.flushNested s) ∈ i.template.refresh
  outer : ∀ s n, i.node? s = some n → p₀.document.size ≤ n → ∀ m, ¬p.Inside m n
  injective : ∀ s s' n, i.node? s = some n → i.node? s' = some n → s = s'

variable {p₀ : Page} {k : Nat} {op : Op} {rest : List Op}

theorem Underway.steady (h : i.Underway strict root p₀ k ops p) (hq : p.Steady q) (hgrown : p₀.Grown strict root q)
    (hsettled : strict → ∀ m, p₀.document.size ≤ m → q.IsPending m →
      ∃ s, .flushNested s ∈ rest ∧ i.node? s = some m) :
    i.Underway strict root p₀ k rest q where
  grown := hgrown
  settled := hsettled
  unbound := h.unbound
  nodes s n hn := hq.size.symm ▸ h.nodes s n hn
  custom hstrict s n hn hle hcustom := h.custom hstrict s n hn hle (hq.isCustom n ▸ hcustom)
  outer s n hn hle m := by
    rw [hq.inside]
    exact h.outer s n hn hle m
  injective := h.injective

theorem Underway.settled_tail (hstrict : strict) (h : i.Underway strict root p₀ k (op :: rest) p) {m : NodeId}
    (hm : p₀.document.size ≤ m) (hpending : p.IsPending m)
    (hop : ∀ s, op = .flushNested s → i.node? s ≠ some m) :
    ∃ s, .flushNested s ∈ rest ∧ i.node? s = some m := by
  obtain ⟨s, hs, hnode⟩ := h.settled hstrict m hm hpending
  rcases List.mem_cons.mp hs with rfl | hs
  · exact absurd hnode (hop s rfl)
  · exact ⟨s, hs, hnode⟩

/-- An instruction that writes to a node leaves it pending only if it will be flushed. -/
theorem Underway.touched (h : i.Underway strict root p₀ k (op :: rest) p) {done : List Op}
    (hbuild : i.template.build = done ++ op :: rest) (htends : i.template.Tends (p₀.Tended strict))
    (hop : ∀ s, op ≠ .flushNested s) {n : NodeId}
    (hn : i.node? op.slot = some n) (ht : p.Touched n q)
    (hstate : op.touched? = some op.slot ∨ ∀ c, (q.component c).state = (p.component c).state) :
    i.Underway strict root p₀ k rest q := by
  have hwhere : root = some n ∧ n < p₀.document.size ∨ p₀.document.size ≤ n :=
    (h.nodes _ n hn).imp (fun hroot => hroot.2.2) fun hnew => hnew.2.1
  have hgrown : p₀.Grown strict root q := by
    refine h.grown.steady ht.steady (fun x hx hne => ht.kinds x ?_) fun c hc => ?_
    · rintro rfl
      rcases hwhere with ⟨heq, -⟩ | hle
      · exact hne heq
      · exact absurd hx (Nat.not_lt.mpr hle)
    · obtain ⟨hbusy, w, hw⟩ := ht.components c hc
      exact ⟨n, w, hwhere.imp_left fun hroot => ⟨hroot.1, hroot.2, hbusy⟩, hw⟩
  refine h.steady ht.steady hgrown fun hstrict m hm hpending => ?_
  have hold : p.IsPending m → ∃ s, .flushNested s ∈ rest ∧ i.node? s = some m :=
    fun hpending => h.settled_tail hstrict hm hpending fun s heq => absurd heq (hop s)
  rcases hstate with htouched | hsame
  · rcases ht.isPending h.grown.wellNested hpending with hpending' | ⟨rfl, -⟩
    · exact hold hpending'
    · have hcustom := Page.isCustom_of_isPending hpending
      rw [ht.steady.isCustom] at hcustom
      have hflush := (h.custom hstrict _ m hn hm hcustom).1
      -- had it been flushed before, it would not be touched now
      have horder := htends.build_order
      rw [hbuild] at horder hflush
      rcases List.mem_append.mp hflush with hdone | hflush
      · exact absurd htouched ((List.pairwise_append.mp horder).2.2 _ hdone _ List.mem_cons_self _ rfl)
      · rcases List.mem_cons.mp hflush with heq | hflush
        · exact absurd heq.symm (hop _)
        · exact ⟨_, hflush, hn⟩
  · obtain ⟨w, hw, hpending⟩ := hpending
    have hsame' : (q.component w.component).pending = (p.component w.component).pending :=
      Component.pending_of_state (hsame _)
    exact hold ⟨w, ht.steady.widget? m ▸ hw, hsame' ▸ hpending⟩

theorem Underway.created_le (h : i.Underway strict root p₀ k ops p) (htends : i.template.Tends (p₀.Tended strict))
    (hop : .flushNested s ∈ i.template.build) (hn : i.node? s = some n) : p₀.document.size ≤ n := by
  have hcreates := htends.build_created hop
  rcases h.nodes s n hn with ⟨rfl, hadopts, -⟩ | hnew
  · rw [Template.Creates, hadopts] at hcreates
    simp at hcreates
  · exact hnew.2.1

theorem Underway.node_lt (h : i.Underway strict root p₀ k ops p) (hn : i.node? s = some n) : n < p.document.size := by
  rcases h.nodes s n hn with ⟨-, -, -, hlt⟩ | hnew
  · exact Nat.lt_of_lt_of_le hlt h.grown.size
  · exact hnew.2.2

theorem Underway.busy_lt (h : i.Underway strict root p₀ k ops p) {m : NodeId} (hn : p₀.document.size ≤ n)
    (hm : p.IsBusy m) : m < n := by
  by_contra hlt
  exact h.grown.calm m (Nat.le_trans hn (Nat.not_lt.mp hlt)) hm

/-- An element that has been flushed has nothing pending. -/
theorem Underway.flushed (h : i.Underway strict root p₀ k (.flushNested s :: rest) p)
    (htends : i.template.Tends (p₀.Tended strict)) (hop : .flushNested s ∈ i.template.build) (hn : i.node? s = some n)
    (hf : p.Flushed strict n q) : i.Underway strict root p₀ k rest q := by
  have hle := h.created_le htends hop hn
  have hwithin : ∀ x, p.Within n x → n ≤ x := fun _ hx => h.grown.wellNested.within_le hx
  have hgrown : p₀.Grown strict root q := by
    refine h.grown.steady hf.steady (fun x hx _ => hf.confined.kinds x fun hin => ?_) fun c hc => ?_
    · exact absurd (Nat.lt_of_lt_of_le hx hle) (Nat.not_lt.mpr (hwithin x hin))
    · obtain ⟨x, w, hx, hw⟩ := hf.confined.components c hc
      exact ⟨x, w, Or.inr (Nat.le_trans hle (hwithin x hx)), hw⟩
  refine h.steady hf.steady hgrown fun hstrict m hm hpending => ?_
  obtain ⟨hpending', hne⟩ := hf.kept hstrict m hpending
  refine h.settled_tail hstrict hm hpending' fun s' heq hnode => ?_
  cases heq
  rw [hn] at hnode
  exact hne (Option.some.inj hnode).symm

/-- A new node for the next slot. -/
theorem Underway.created (h : i.Underway strict root p₀ k (op :: rest) p) (hk : k < i.slots.length)
    (hop : op.bound? = some k) (hcreates : i.template.Creates k) (hq : p.Grown strict none q)
    (hwithin : p.document.size < q.document.size)
    (hcustom : strict → q.isCustom p.document.size = true → .flushNested k ∈ rest ∧
      .flushNested k ∈ i.template.build ∧ .unconditional (.flushNested k) ∈ i.template.refresh)
    (hsettled : strict → ∀ m, p.document.size < m → ¬q.IsPending m) :
    (i.bind k (some p.document.size)).Underway strict root p₀ (k + 1) rest q := by
  have hp := h.grown.wellNested
  have hcases : ∀ s n, (i.bind k (some p.document.size)).node? s = some n →
      s = k ∧ n = p.document.size ∨ s ≠ k ∧ i.node? s = some n :=
    fun s n hn => (node?_bind_cases hn).imp_left fun hnew => ⟨hnew.1, (Option.some.inj hnew.2).symm⟩
  have hlt : ∀ s n, i.node? s = some n → n < p.document.size := fun s n hn => h.node_lt hn
  have hnot : ∀ s, op ≠ .flushNested s := by
    rintro s rfl
    cases hop
  refine ⟨h.grown.trans hq, ?_, ?_, ?_, ?_, ?_, ?_⟩
  · intro hstrict m hm hpending
    rcases Nat.lt_trichotomy m p.document.size with hm' | rfl | hm'
    · obtain ⟨s, hs, hnode⟩ := h.settled_tail hstrict hm ((hq.isPending hp hm').mp hpending)
        fun s heq => absurd heq (hnot s)
      refine ⟨s, hs, ?_⟩
      rw [node?_bind_of_ne, hnode]
      rintro rfl
      rw [h.unbound s (Nat.le_refl _)] at hnode
      cases hnode
    · exact ⟨k, (hcustom hstrict (Page.isCustom_of_isPending hpending)).1, node?_bind_self hk _⟩
    · exact absurd hpending (hsettled hstrict m hm')
  · intro s hs
    rw [node?_bind_of_ne (Nat.ne_of_gt hs)]
    exact h.unbound s (Nat.le_of_lt hs)
  · intro s n hn
    rcases hcases s n hn with ⟨rfl, rfl⟩ | ⟨-, hn⟩
    · exact Or.inr ⟨hcreates, h.grown.size, hwithin⟩
    · exact (h.nodes s n hn).imp_right fun hnew => ⟨hnew.1, hnew.2.1, Nat.lt_of_lt_of_le hnew.2.2 hq.size⟩
  · intro hstrict s n hn hle hn'
    rcases hcases s n hn with ⟨rfl, rfl⟩ | ⟨-, hn⟩
    · exact (hcustom hstrict hn').2
    · refine h.custom hstrict s n hn hle ?_
      rwa [Page.isCustom, hq.old n (hlt s n hn)] at hn'
  · intro s n hn hle m hinside
    rcases hq.inside hinside with hinside' | ⟨-, hgt⟩
    · rcases hcases s n hn with ⟨rfl, rfl⟩ | ⟨-, hn⟩
      · exact Nat.lt_irrefl _ (hp.inside_bounds hinside').2
      · exact h.outer s n hn hle m hinside'
    · rcases hcases s n hn with ⟨rfl, rfl⟩ | ⟨-, hn⟩
      · exact Nat.lt_irrefl _ hgt
      · exact Nat.lt_asymm hgt (hlt s n hn)
  · intro s s' n hn hn'
    rcases hcases s n hn with ⟨hs, hn₁⟩ | ⟨-, hn₁⟩
    · rcases hcases s' n hn' with ⟨hs', -⟩ | ⟨-, hn₂⟩
      · exact hs.trans hs'.symm
      · exact absurd hn₁ (Nat.ne_of_lt (hlt s' n hn₂))
    · rcases hcases s' n hn' with ⟨-, hn₂⟩ | ⟨-, hn₂⟩
      · exact absurd hn₂ (Nat.ne_of_lt (hlt s n hn₁))
      · exact h.injective s s' n hn₁ hn₂

/-- The root takes the slot it is adopted for. -/
theorem Underway.adopted (h : i.Underway strict root p₀ 0 (.adoptRoot 0 :: rest) p)
    (hadopts : i.template.createsRoot = false) (hroot : ∀ r, root = some r → r < p₀.document.size) :
    (i.bind 0 root).Underway strict root p₀ 1 rest p := by
  have hcases : ∀ s n, (i.bind 0 root).node? s = some n → s = 0 ∧ root = some n :=
    fun s n hn => node?_bind_of_unbound (h.unbound s (Nat.zero_le _)) hn
  have hold : ∀ s n, (i.bind 0 root).node? s = some n → ¬p₀.document.size ≤ n :=
    fun s n hn => Nat.not_le.mpr (hroot n (hcases s n hn).2)
  refine ⟨h.grown, ?_, ?_, ?_, fun _ s n hn hle => absurd hle (hold s n hn),
    fun s n hn hle => absurd hle (hold s n hn), ?_⟩
  · intro hstrict m hm hpending
    obtain ⟨s, -, hnode⟩ := h.settled hstrict m hm hpending
    rw [h.unbound s (Nat.zero_le _)] at hnode
    cases hnode
  · intro s hs
    rw [node?_bind_of_ne (Nat.ne_of_gt hs)]
    exact h.unbound s (Nat.zero_le _)
  · intro s n hn
    obtain ⟨rfl, hn'⟩ := hcases s n hn
    exact Or.inl ⟨rfl, hadopts, hn', hroot n hn'⟩
  · intro s s' n hn hn'
    exact (hcases s n hn).1.trans (hcases s' n hn').1.symm

theorem Underway.warned (h : i.Underway strict root p₀ k rest p) (phase : Phase) (step : Step) :
    i.Underway strict root p₀ k rest (stepWarned phase op step p) := by
  have hsteady := steady_stepWarned phase op step p
  have hsame := component_stepWarned phase op step p
  refine h.steady hsteady (h.grown.steady hsteady (fun x _ _ => by rw [document_stepWarned]) fun c hc =>
    absurd (congrArg Component.state (hsame c)) hc) fun hstrict m hm hpending => h.settled hstrict m hm ?_
  obtain ⟨w, hw, hpending⟩ := hpending
  exact ⟨w, hsteady.widget? m ▸ hw, hsame _ ▸ hpending⟩

/-- An instruction that binds the next slot. -/
theorem execBuild_binds (hcreate : host.Creates strict) {step : Step} (h : i.Underway strict root p₀ k (op :: rest) p)
    (hbuild : i.template.build = done ++ op :: rest) (htends : i.template.Tends (p₀.Tended strict))
    (hroot : ∀ r, root = some r → r < p₀.document.size) (hk : k < i.slots.length) (hop : op.bound? = some k)
    (hexec : i.execBuild host root op p = some (step, q)) :
    p.Grown strict none q ∧ ∃ n, step.inst = i.bind k n ∧ step.inst.Underway strict root p₀ (k + 1) rest q := by
  have hmem : op ∈ i.template.build := hbuild ▸ List.mem_append_right _ List.mem_cons_self
  have hp := h.grown.wellNested
  cases execBuild_bound hop hexec with
  | @created tag ns n _ hn =>
    have hmade := hcreate.create tag ns p n q hn hp
    have hnode := hmade.node
    subst hnode
    refine ⟨hmade.toGrown, _, rfl, h.created hk rfl (htends.creates _ hmem k rfl nofun) hmade.toGrown hmade.within
      ?_ hmade.settled⟩
    intro hstrict hcustom
    have htended : p.Tended strict tag := ⟨hstrict, hmade.custom hcustom⟩
    rw [Page.tended_congr h.grown.registry] at htended
    obtain ⟨hflush, hrefresh⟩ := htends.nested k tag ns hmem htended
    refine ⟨?_, hflush, hrefresh⟩
    have horder := htends.build_order
    rw [hbuild] at horder hflush
    rcases List.mem_append.mp hflush with hdone | hflush
    · exact absurd rfl ((List.pairwise_append.mp horder).2.2 _ hdone _ List.mem_cons_self _ rfl)
    · rcases List.mem_cons.mp hflush with heq | hflush
      · cases heq
      · exact hflush
  | adopted =>
    obtain ⟨rfl, hadopts⟩ := htends.adopted k hmem
    exact ⟨.refl none hp, root, rfl, h.adopted hadopts hroot⟩
  | newText value text fault =>
    refine ⟨.push hp (.text text), _, rfl,
      h.created hk rfl (htends.creates _ hmem k rfl nofun) (.push hp (.text text)) ?_ ?_ ?_⟩
    · rw [Document.size_push]
      exact Nat.lt_succ_self _
    · intro _ hcustom
      have hcustom' : p.isCustom p.document.size = true := hcustom
      rw [Page.isCustom, hp.custom?_eq_none (Nat.le_refl _)] at hcustom'
      cases hcustom'
    · intro _ m hm hpending
      have hcustom : p.isCustom m = true := Page.isCustom_of_isPending hpending
      rw [Page.isCustom, hp.custom?_eq_none (Nat.le_of_lt hm)] at hcustom
      cases hcustom

/-- An instruction that binds no slot. -/
theorem execBuild_uses (hflush : host.Flushes strict) {step : Step} (h : i.Underway strict root p₀ k (op :: rest) p)
    (hbuild : i.template.build = done ++ op :: rest) (htends : i.template.Tends (p₀.Tended strict))
    (hop : op.bound? = none) (hexec : i.execBuild host root op p = some (step, q)) :
    p.Steady q ∧ i.Underway strict root p₀ k rest q := by
  have hmem : op ∈ i.template.build := hbuild ▸ List.mem_append_right _ List.mem_cons_self
  have hp := h.grown.wellNested
  cases execBuild_ran hop hexec with
  | alone hneeds hlocal =>
    have hnot : ∀ s, op ≠ .flushNested s := fun s heq => by simp [heq, Op.needsHost] at hneeds
    have heffect := i.execLocal_touched hp hop
    rw [hlocal] at heffect
    rcases heffect with rfl | ⟨n, hn, htouched, hstate⟩
    · exact ⟨.refl _, h.steady (.refl _) h.grown fun hstrict m hm hpending =>
        h.settled_tail hstrict hm hpending fun s heq => absurd heq (hnot s)⟩
    · exact ⟨htouched.steady, h.touched hbuild htends hnot hn htouched hstate⟩
  | created hn => cases hop
  | unbuilt hf =>
    refine ⟨.refl _, h.steady (.refl _) h.grown fun hstrict m hm hpending =>
      h.settled_tail hstrict hm hpending ?_⟩
    intro s' heq hnode
    cases heq
    rw [node_eq_ok.mpr hnode] at hf
    cases hf
  | @flushed s n result _ hn hresult =>
    have hflushed := hflush.flush n p result q hresult hp fun m => h.busy_lt (h.created_le htends hmem hn)
    exact ⟨hflushed.steady, h.flushed htends hmem hn hflushed⟩

/-- Every instruction of a build keeps `P`, of all that have been run and what has come of them. -/
structure KeptByBuild (strict : Prop) (host : Host) (root : Option NodeId) (p₀ : Page)
    (P : List Op → Instance → Page → Prop) : Prop where
  bind : ∀ {done rest op k i p step q n}, i.Underway strict root p₀ k (op :: rest) p →
    i.template.build = done ++ op :: rest → Op.Sequence 0 done k → op.bound? = some k → k < i.slots.length →
    i.execBuild host root op p = some (step, q) → p.Grown strict none q → step.inst = i.bind k n →
    P done i p → P (done ++ [op]) (i.bind k n) (stepWarned .build op step q)
  use : ∀ {done rest op k i p step q}, i.Underway strict root p₀ k (op :: rest) p →
    i.template.build = done ++ op :: rest → Op.Sequence 0 done k → op.bound? = none →
    i.execBuild host root op p = some (step, q) → p.Steady q →
    P done i p → P (done ++ [op]) i (stepWarned .build op step q)

/-- Building flushes all elements that it touches, and keeps what every instruction keeps. -/
theorem runBuild_invariant (hcreate : host.Creates strict) (hflush : host.Flushes strict)
    {P : List Op → Instance → Page → Prop} (hkept : KeptByBuild strict host root p₀ P) {k' : Nat}
    (hseq : Op.Sequence k ops k') {i' : Instance} {r : Report} (h : i.Underway strict root p₀ k ops p)
    (hbuild : i.template.build = done ++ ops) (htends : i.template.Tends (p₀.Tended strict))
    (hroot : ∀ r, root = some r → r < p₀.document.size) (hlen : k' ≤ i.slots.length) (hdone : Op.Sequence 0 done k)
    (hstart : P done i p) (hrun : i.runBuild host root ops p = some ((i', r), q)) :
    i'.Underway strict root p₀ k' [] q ∧ P i.template.build i' q := by
  induction hseq generalizing i p r done with
  | nil =>
    obtain ⟨heq, rfl⟩ := Act.pure_eq_some.mp hrun
    cases heq
    rw [hbuild, List.append_nil]
    exact ⟨h, hstart⟩
  | @bind k k' op rest hop hrest ih =>
    obtain ⟨step, p₁, others, hexec, hrun, -⟩ := runBuild_cons.mp hrun
    have hk := Nat.lt_of_lt_of_le hrest.le hlen
    obtain ⟨hgrown, n, hinst, hnext⟩ := execBuild_binds hcreate h hbuild htends hroot hk hop hexec
    have hbound := hkept.bind h hbuild hdone hop hk hexec hgrown hinst hstart
    rw [hinst] at hrun hnext
    exact ih (i := i.bind k n) (hnext.warned .build step) (by rw [List.append_cons] at hbuild; exact hbuild)
      htends (by simpa using hlen) (hdone.append (.bind hop .nil)) hbound hrun
  | @use k k' op rest hop huses hrest ih =>
    obtain ⟨step, p₁, others, hexec, hrun, -⟩ := runBuild_cons.mp hrun
    obtain ⟨hsteady, hnext⟩ := execBuild_uses hflush h hbuild htends hop hexec
    have hused := hkept.use h hbuild hdone hop hexec hsteady hstart
    rw [execBuild_inst_of_not_bound hop hexec] at hrun
    exact ih (hnext.warned .build step) (by rw [List.append_cons] at hbuild; exact hbuild) htends hlen
      (hdone.append (.use hop huses .nil)) hused hrun

end Instance

namespace Template

variable {t : Template} {c : ComponentId}

theorem buildOn_of_obstacle {e : BuildError} (h : t.obstacle? c root p = some e) :
    t.buildOn host c root sink p = some (.error e, p) := by
  simp only [buildOn, Act.bind_eq_some, Act.get_eq_some]
  refine ⟨p, p, ⟨rfl, rfl⟩, ?_⟩
  simp only [h]
  exact Act.pure_eq_some.mpr ⟨rfl, rfl⟩

theorem obstacle?_of_buildOn {report : Report} (h : t.buildOn host c root sink p = some (.ok (i, report), q)) :
    t.obstacle? c root p = none := by
  cases hobstacle : t.obstacle? c root p with
  | none => rfl
  | some e =>
    rw [buildOn_of_obstacle hobstacle] at h
    cases h

theorem root_lt {r : NodeId} (h : t.obstacle? c (some r) p = none) : r < p.document.size := by
  unfold obstacle? at h
  split at h
  · cases h
  · contradiction
  next heq =>
    cases heq
    split at h
    · cases h
    next hhas =>
      have hlt : r < p.document.nodes.size := by simpa [Document.has] using hhas
      exact hlt
  · contradiction

theorem root_within (h : t.obstacle? c root p = none) : ∀ r, root = some r → r < p.document.size := by
  rintro r rfl
  exact root_lt h

/-- What a build gives is what its instructions have made, with the node of the first slot as its root. -/
theorem runBuild_of_buildOn {report : Report} (h : t.buildOn host c root sink p = some (.ok (i, report), q)) :
    ∃ i' n, (t.unbuilt c sink).runBuild host root t.build p = some ((i', report), q) ∧ i'.node? 0 = some n ∧
      i = { i' with root := n } := by
  obtain ⟨i', report', hrun, heq⟩ := (buildOn_eq_some (obstacle?_of_buildOn h)).mp h
  cases hn : i'.node? 0 with
  | none =>
    rw [hn] at heq
    cases heq
  | some n =>
    rw [hn] at heq
    cases heq
    exact ⟨i', n, hrun, hn, rfl⟩

theorem node?_unbuilt (t : Template) (c : ComponentId) (sink : Sink) (s : Slot) :
    (t.unbuilt c sink).node? s = none := by
  rw [Instance.node?, unbuilt, List.getElem?_replicate]
  split <;> rfl

theorem underway_unbuilt (hp : p.WellNested strict) (c : ComponentId) (sink : Sink) :
    (t.unbuilt c sink).Underway strict root p 0 t.build p := by
  have hnone := t.node?_unbuilt c sink
  refine ⟨.refl root hp, ?_, fun s _ => hnone s, ?_, ?_, ?_, ?_⟩
  · rintro - m hm ⟨w, hw, -⟩
    exact absurd (hp.living m w hw).within (Nat.not_lt.mpr hm)
  · intro s n hn
    rw [hnone] at hn
    cases hn
  · intro _ s n hn
    rw [hnone] at hn
    cases hn
  · intro s n hn
    rw [hnone] at hn
    cases hn
  · intro s s' n hn
    rw [hnone] at hn
    cases hn

/-- A build that meets no obstacle gives an instance, and leaves nothing pending in it. -/
theorem buildOn_underway (hcreate : host.Creates strict) (hflush : host.Flushes strict)
    {result : Except BuildError (Instance × Report)} (hp : p.WellNested strict) (htends : t.Tends (p.Tended strict))
    (hobstacle : t.obstacle? c root p = none) (h : t.buildOn host c root sink p = some (result, q)) :
    ∃ i r, result = .ok (i, r) ∧ i.Underway strict root p t.slotNames.length [] q ∧ i.template = t ∧
      i.component = c ∧ i.BoundBelow t.slotNames.length := by
  obtain ⟨i, r, hrun, rfl⟩ := (buildOn_eq_some hobstacle).mp h
  have hlen : t.slotNames.length ≤ (t.unbuilt c sink).slots.length := by simp [unbuilt]
  have hadopts : root.isSome ∨ ∀ s, .adoptRoot s ∉ t.build :=
    (root_given hobstacle).imp_right fun hown s hs => by
      have := (htends.adopted s hs).2
      simp [hown] at this
  obtain ⟨hdone, htemplate, hcomponent⟩ := Instance.runBuild_invariant hcreate hflush
    (P := fun _ i _ => i.template = t ∧ i.component = c) ⟨fun _ _ _ _ _ _ _ _ h => h, fun _ _ _ _ _ _ h => h⟩
    htends.sequence (underway_unbuilt hp c sink) (List.nil_append _).symm htends (root_within hobstacle) hlen .nil
    ⟨rfl, rfl⟩ hrun
  obtain ⟨hbound, -⟩ := Instance.runBuild_boundBelow htends.sequence hadopts hlen
    (t.boundBelow_unbuilt c sink) hrun
  obtain ⟨n, hn⟩ := hbound 0 htends.rooted
  rw [Instance.node_eq_ok.mp hn]
  exact ⟨{ i with root := n }, r, rfl, ⟨hdone.grown, hdone.settled, hdone.unbound, hdone.nodes, hdone.custom,
    hdone.outer, hdone.injective⟩, htemplate, hcomponent, hbound⟩

/-- A build keeps what every instruction keeps, if it does not depend on the root of the instance. -/
theorem buildOn_invariant (hcreate : host.Creates strict) (hflush : host.Flushes strict)
    {P : List Op → Instance → Page → Prop} (hkept : Instance.KeptByBuild strict host root p P)
    (hrooted : ∀ {i p} n, P t.build i p → P t.build { i with root := n } p) (hp : p.WellNested strict)
    (htends : t.Tends (p.Tended strict)) (hstart : P [] (t.unbuilt c sink) p) {report : Report}
    (h : t.buildOn host c root sink p = some (.ok (i, report), q)) : P t.build i q := by
  obtain ⟨i', n, hrun, -, rfl⟩ := runBuild_of_buildOn h
  exact hrooted n (Instance.runBuild_invariant hcreate hflush hkept htends.sequence (underway_unbuilt hp c sink)
    (List.nil_append _).symm htends (root_within (obstacle?_of_buildOn h)) (by simp [unbuilt]) .nil hstart hrun).2

end Template

end LiveMarkup
