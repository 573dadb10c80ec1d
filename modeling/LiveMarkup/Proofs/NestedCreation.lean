import LiveMarkup.Proofs.NestedBuild

namespace LiveMarkup

variable {p q r : Page} {n : NodeId} {tag : String} {t : Template} {w : Widget} {strict : Prop} {d : Definition}
  {k : Nat} {i : Instance}

namespace Page

variable {m : NodeId}

theorem applyWrites_touched (hp : p.WellNested strict) (n : NodeId) (writes : List DeferredWrite) :
    p.Touched n (p.applyWrites n writes) := by
  induction writes generalizing p with
  | nil => exact .refl n p
  | cons write rest ih =>
    have hnext : ∀ q, p.Touched n q → p.Touched n (q.applyWrites n rest) :=
      fun q hq => hq.trans (ih (hp.steady hq.steady))
    simp only [applyWrites]
    cases he : p.custom? n with
    | none => exact ih hp
    | some e =>
      obtain ⟨w, hbehaviour, hw⟩ := hp.behaviour he
      dsimp only
      split
      · exact hnext _ (.of_state (.of_elements rfl rfl rfl rfl fun _ => rfl) (fun _ _ => rfl) fun _ => rfl)
      next hbusy =>
        have hfree : ¬p.IsBusy n := by
          rintro ⟨e', he', hbusy'⟩
          rw [he] at he'
          cases he'
          exact hbusy hbusy'
        rw [hbehaviour]
        exact hnext _ (writeWidget_touched hw hfree _ _)

theorem applyDeferred_touched (hp : p.WellNested strict) (n : NodeId) : p.Touched n (p.applyDeferred n) := by
  have hlist : p.Touched n { p with deferred := p.deferred.filter fun w => w.node ≠ n } :=
    .of_state (.of_elements rfl rfl rfl rfl fun _ => rfl) (fun _ _ => rfl) fun _ => rfl
  exact hlist.trans (applyWrites_touched (hp.steady hlist.steady) n _)

theorem custom?_add {e : CustomElement} (helements : q.elements = p.elements ++ [(n, e)])
    (hn : p.custom? n = none) (m : NodeId) : q.custom? m = if m = n then some e else p.custom? m := by
  rw [custom?, helements, List.lookup_append]
  split
  next hm =>
    subst hm
    rw [custom?] at hn
    rw [hn]
    simp
  next hm =>
    have hkey : (m == n) = false := by simpa using hm
    simp [List.lookup_cons, hkey, custom?]

/-- A new widget that is being connected: busy, and with a component of its own that has nothing pending. -/
structure Connecting (n : NodeId) (t : Template) (p q : Page) : Prop where
  node : n = p.document.size
  registry : q.registry = p.registry
  document : ∃ kind, q.document = p.document.push kind
  components : ∃ c, q.components = p.components.push ⟨c, .free, true⟩ ∧ c.pending = Dict.empty
  elements : q.elements = p.elements ++ [(n, ⟨.widget ⟨t, p.components.size, none⟩, true⟩)]

namespace Connecting

theorem size (h : p.Connecting n t q) : q.document.size = n + 1 := by
  obtain ⟨kind, hdocument⟩ := h.document
  rw [hdocument, Document.size_push, h.node]

theorem count (h : p.Connecting n t q) : q.components.size = p.components.size + 1 := by
  obtain ⟨c, hcomponents, -⟩ := h.components
  rw [hcomponents, Array.size_push]

theorem cell (h : p.Connecting n t q) {c : ComponentId} (hc : c < p.components.size) : q.cell c = p.cell c := by
  obtain ⟨component, hcomponents, -⟩ := h.components
  have hne : c ≠ p.components.size := Nat.ne_of_lt hc
  rw [Page.cell, hcomponents, Array.getElem?_push, if_neg hne, Page.cell]

theorem access_self (h : p.Connecting n t q) : q.access p.components.size = .free := by
  obtain ⟨component, hcomponents, -⟩ := h.components
  rw [access, Page.cell, hcomponents, Array.getElem?_push, if_pos rfl]
  rfl

theorem custom? (h : p.Connecting n t q) (hp : p.WellNested strict) (m : NodeId) :
    q.custom? m = if m = n then some ⟨.widget ⟨t, p.components.size, none⟩, true⟩ else p.custom? m :=
  custom?_add h.elements (hp.custom?_eq_none (Nat.le_of_eq h.node.symm)) m

theorem wellNested (h : p.Connecting n t q) (hp : p.WellNested strict) : q.WellNested strict := by
  have hsize : q.document.size = p.document.size + 1 := by rw [h.size, h.node]
  refine hp.extend h.registry (Nat.le_of_lt ?_) (Nat.le_of_lt ?_) (fun c hc => ?_) (fun m hm => ?_) ?_
  · rw [hsize]
    exact Nat.lt_succ_self _
  · rw [h.count]
    exact Nat.lt_succ_self _
  · rw [access, h.cell hc, access]
  · rw [h.custom? hp, if_neg]
    rintro rfl
    exact Nat.lt_irrefl _ (h.node ▸ hm)
  · intro m e hm he
    rw [h.custom? hp] at he
    split at he
    next hmn =>
      cases he
      refine ⟨_, rfl, hmn.trans h.node, ?_, rfl, ?_, h.access_self, rfl⟩
      · rw [hmn, h.size]
        exact Nat.lt_succ_self _
      · rw [h.count]
        exact Nat.lt_succ_self _
    · rw [hp.custom?_eq_none hm] at he
      cases he

theorem isBusy (h : p.Connecting n t q) (hp : p.WellNested strict) : q.IsBusy n :=
  ⟨_, (h.custom? hp n).trans (if_pos rfl), rfl⟩

/-- The template of a new widget can be built on it. -/
theorem obstacle? (h : p.Connecting n t q) (hadopts : t.createsRoot = false) :
    t.obstacle? p.components.size (some n) q = none := by
  have hhas : q.document.has n = true := by
    have hlt : n < q.document.size := h.size.symm ▸ Nat.lt_succ_self n
    exact decide_eq_true hlt
  simp [Template.obstacle?, hadopts, hhas, h.access_self]

end Connecting

/-- What the instance that was built on a new widget is to it. -/
theorem Housed.of_underway {ops : List Op} (h : p.Connecting n t q) (hadopts : t.createsRoot = false)
    (htends : t.Tends (p.Tended strict)) (hi : i.Underway strict (some n) q k ops r) (htemplate : i.template = t)
    (hcomponent : i.component = p.components.size) (hroot : ∃ n', i.node? 0 = some n') :
    r.Housed strict n ⟨t, p.components.size, none⟩ i := by
  have hinner : ∀ s k, s ≠ 0 → i.node? s = some k → q.document.size ≤ k ∧ k < r.document.size := by
    intro s k hs hk
    rcases hi.nodes s k hk with ⟨rfl, -⟩ | hnew
    · exact absurd rfl hs
    · exact hnew.2
  refine ⟨hcomponent, ?_, htemplate ▸ hadopts, ?_, fun s k hs hk => ?_, fun hstrict s k hs hk hcustom => ?_⟩
  · rw [htemplate, tended_congr (hi.grown.registry.trans h.registry)]
    exact htends
  · obtain ⟨n', hn'⟩ := hroot
    rcases hi.nodes 0 n' hn' with ⟨-, -, heq, -⟩ | ⟨hcreates, -⟩
    · rw [hn', heq]
    · rw [htemplate, Template.Creates, hadopts] at hcreates
      simp at hcreates
  · refine ⟨?_, (hinner s k hs hk).2⟩
    exact Nat.lt_of_lt_of_le (h.size.symm ▸ Nat.lt_succ_self n) (hinner s k hs hk).1
  · exact (hi.custom hstrict s k hk (hinner s k hs hk).1 hcustom).2

/-- A widget whose template has been built, before the writes that waited for it are applied. -/
theorem Connecting.grown {r' : Page} (hp : p.WellNested strict) (h : p.Connecting n t q)
    (hi : i.Underway strict (some n) q k [] r) (hhoused : r.Housed strict n ⟨t, p.components.size, none⟩ i)
    (connecting : List NodeId) (hr' : r' = { r with connecting := connecting }.modifyCustom n
      fun _ => ⟨.widget ⟨t, p.components.size, some i⟩, false⟩) :
    p.Grown strict none r' ∧ r'.widget? n = some ⟨t, p.components.size, some i⟩ ∧
      (strict → ∀ m, n < m → ¬r'.IsPending m) := by
  have hsize := h.size
  have hnode := h.node
  have hn : n < q.document.size := hsize.symm ▸ Nat.lt_succ_self n
  have hwidget : r.widget? n = some ⟨t, p.components.size, none⟩ := by
    rw [widget?_congr (hi.grown.old n hn)]
    exact widget?_of_custom? ((h.custom? hp n).trans (if_pos rfl))
  have hrecast : r.Recast n ⟨.widget ⟨t, p.components.size, some i⟩, false⟩ r' :=
    hr' ▸ .modifyCustom hwidget _ connecting
  have hlater : ∀ m, p.document.size ≤ m → m ≠ n → q.document.size ≤ m := by
    intro m hm hne
    rw [hsize, hnode]
    exact Nat.lt_of_le_of_ne hm fun heq => hne (hnode.trans heq).symm
  have hcount : ∀ {c}, c < p.components.size → c < q.components.size :=
    fun hc => h.count.symm ▸ Nat.lt_succ_of_lt hc
  refine ⟨⟨?_, ?_, ?_, ?_, ?_, ?_, ?_, ?_, ?_, ?_⟩, hrecast.widget?_self, ?_⟩
  · refine hi.grown.wellNested.connect hwidget hhoused (fun s k m hs hk => ?_) hrecast
    refine hi.outer s k hk ?_ m
    rw [hsize]
    exact (hhoused.inner s k hs hk).1
  · exact hrecast.registry.trans (hi.grown.registry.trans h.registry)
  · rw [hrecast.document, ← hnode]
    exact Nat.le_trans (Nat.le_of_lt hn) hi.grown.size
  · rw [hrecast.components]
    exact Nat.le_trans (h.count.symm ▸ Nat.le_succ _) hi.grown.count
  · intro m hm
    have hne : m ≠ n := hnode ▸ Nat.ne_of_lt hm
    have hlt : m < q.document.size := Nat.lt_trans hm (hnode ▸ hn)
    rw [hrecast.other m hne, hi.grown.old m hlt, h.custom? hp, if_neg hne]
  · rintro m hm ⟨e, he, hbusy⟩
    by_cases hne : m = n
    · subst hne
      cases hrecast.self.symm.trans he
      cases hbusy
    · exact hi.grown.calm m (hlater m hm hne) ⟨e, hrecast.other m hne ▸ he, hbusy⟩
  · intro m w hm hw
    rcases hrecast.widget?_cases hw with ⟨rfl, rfl⟩ | ⟨hne, hw⟩
    · exact Nat.le_refl _
    · exact Nat.le_trans (h.count.symm ▸ Nat.le_succ _) (hi.grown.owned m w (hlater m hm hne) hw)
  · intro c hc
    rw [hrecast.access, hi.grown.access c (hcount hc), access, h.cell hc, access]
  · intro x hx _
    have hne : n ≠ x := hnode ▸ Nat.ne_of_gt hx
    obtain ⟨kind, hkind⟩ := h.document
    rw [hrecast.document, hi.grown.kinds x (Nat.lt_trans hx (hnode ▸ hn)) (fun heq => hne (Option.some.inj heq)), hkind]
    exact p.document.kind?_push_of_lt kind hx
  · intro c hc hne
    have hsame : q.component c = p.component c := by rw [component, h.cell hc, component]
    rw [hrecast.component, ← hsame] at hne
    -- the root is busy, so nothing is written to its component
    obtain ⟨r, w, hroot, hfree, -⟩ := hi.grown.components c (hcount hc) hne
    cases hroot
    exact absurd (h.isBusy hp) hfree
  · rintro hstrict m hm ⟨w, hw, hpending⟩
    rw [widget?_congr (hrecast.other m (Nat.ne_of_gt hm))] at hw
    obtain ⟨s, hs, -⟩ := hi.settled hstrict m (hsize.symm ▸ hm) ⟨w, hw, hrecast.component w.component ▸ hpending⟩
    cases hs

theorem Connecting.made (hp : p.WellNested strict) (h : p.Connecting n t q) (htag : p.Defines tag)
    (hi : i.Underway strict (some n) q k [] r) (hhoused : r.Housed strict n ⟨t, p.components.size, none⟩ i) :
    p.Made strict tag n (r.finishConnecting n ⟨t, p.components.size, some i⟩) := by
  obtain ⟨hgrown, hwidget, hsettled⟩ := h.grown hp hi hhoused r.connecting.dropLast rfl
  have htouched := applyDeferred_touched hgrown.wellNested n
  have hn := (hgrown.wellNested.living n _ hwidget).within
  refine ⟨hgrown.steady htouched.steady (fun x hx _ => htouched.kinds x ?_) fun c hc => ?_, h.node, ?_,
    fun _ => htag, fun hstrict m hm hpending => ?_⟩
  · exact h.node ▸ Nat.ne_of_lt hx
  · obtain ⟨-, w, hw⟩ := htouched.components c hc
    exact ⟨n, w, Or.inr (Nat.le_of_eq h.node.symm), hw⟩
  · exact htouched.steady.size.symm ▸ hn
  · rcases htouched.isPending hgrown.wellNested hpending with hpending | ⟨heq, -⟩
    · exact hsettled hstrict m hm hpending
    · exact absurd heq (Nat.ne_of_gt hm)

theorem instantiate_connecting (hp : p.WellNested strict) (hd : p.registry.get? tag = some d) (kind : NodeKind) :
    ∃ t initial, d.kind = .widget t initial ∧ t.createsRoot = false ∧ t.Tends (p.Tended strict) ∧
      ({ p with document := p.document.push kind }.instantiate d).1 = .widget ⟨t, p.components.size, none⟩ ∧
      p.Connecting p.document.size t
        ({ p with document := p.document.push kind }.beginConnecting p.document.size d) := by
  obtain ⟨t, initial, hkind, hadopts, htends⟩ := hp.defined tag d hd
  obtain ⟨c, routines, callbacks, hmake, hpending⟩ :=
    make_frame { p with document := p.document.push kind } initial
  have hmade : { p with document := p.document.push kind }.instantiate d =
      (.widget ⟨t, p.components.size, none⟩, { p with
        document := p.document.push kind, routines := routines, callbacks := callbacks,
        components := p.components.push ⟨c, .free, true⟩ }) := by
    simp only [instantiate, hkind, hmake, addComponent]
  refine ⟨t, initial, hkind, hadopts, htends, by rw [hmade], rfl, ?_, ⟨kind, ?_⟩, ⟨c, ?_, hpending⟩, ?_⟩
  · rw [beginConnecting, hmade]
  · rw [beginConnecting, hmade]
  · rw [beginConnecting, hmade]
  · rw [beginConnecting, hmade]

end Page

variable {host : Host}

/-- A new element is connected by building the template of its tag, which flushes all elements that it touches. -/
theorem connectElement_underway (hcreate : host.Creates strict) (hflush : host.Flushes strict) {kind : NodeKind}
    {u : Unit} (hp : p.WellNested strict) (hd : p.registry.get? tag = some d)
    (h : connectElement host tag p.document.size d { p with document := p.document.push kind } = some (u, q)) :
    ∃ t initial p₁ i k found r,
      p₁ = { p with document := p.document.push kind }.beginConnecting p.document.size d ∧
      d.kind = .widget t initial ∧ t.createsRoot = false ∧ p.Connecting p.document.size t p₁ ∧
      p₁.WellNested strict ∧ t.Tends (p₁.Tended strict) ∧
      t.buildOn host p.components.size (some p.document.size) .warnings p₁ = some (.ok (i, found), r) ∧
      i.template = t ∧ i.BoundBelow t.slotNames.length ∧ i.Underway strict (some p.document.size) p₁ k [] r ∧
      r.Housed strict p.document.size ⟨t, p.components.size, none⟩ i ∧
      q = r.finishConnecting p.document.size ⟨t, p.components.size, some i⟩ := by
  obtain ⟨t, initial, hkind, hadopts, htends, hw, hconnecting⟩ := Page.instantiate_connecting hp hd kind
  obtain ⟨w, result, r, hconnect, hfinish, -⟩ := connectElement_connect hw h
  have hp₁ := hconnecting.wellNested hp
  have htends₁ := Page.tended_congr hconnecting.registry ▸ htends
  simp only [Widget.connect, Act.bind_eq_some] at hconnect
  obtain ⟨built, r', hbuild, hconnect⟩ := hconnect
  obtain ⟨i, found, rfl, hi, htemplate, hcomponent, hbound⟩ := Template.buildOn_underway hcreate hflush hp₁ htends₁
    (hconnecting.obstacle? hadopts) hbuild
  obtain ⟨heq, rfl⟩ := Act.pure_eq_some.mp hconnect
  cases heq
  obtain ⟨root, hroot⟩ := hbound 0 htends.rooted
  exact ⟨t, initial, _, i, _, found, r', rfl, hkind, hadopts, hconnecting, hp₁, htends₁, hbuild, htemplate, hbound, hi,
    .of_underway hconnecting hadopts htends hi htemplate hcomponent ⟨root, Instance.node_eq_ok.mp hroot⟩,
    hfinish found rfl⟩

theorem connectElement_made (hcreate : host.Creates strict) (hflush : host.Flushes strict) {kind : NodeKind}
    {u : Unit} (hp : p.WellNested strict) (hd : p.registry.get? tag = some d)
    (h : connectElement host tag p.document.size d { p with document := p.document.push kind } =
      some (u, q)) : p.Made strict tag p.document.size q := by
  obtain ⟨t, _, p₁, i, k, _, r, -, -, -, hconnecting, -, -, -, -, -, hi, hhoused, rfl⟩ :=
    connectElement_underway hcreate hflush hp hd h
  exact hconnecting.made hp (Page.defines_of_get? hd) hi hhoused

theorem Page.Made.push (hp : p.WellNested strict) (tag : String) (kind : NodeKind) :
    p.Made strict tag p.document.size { p with document := p.document.push kind } := by
  have hplain : ∀ m, p.document.size ≤ m → p.isCustom m ≠ true := by
    intro m hm hcustom
    rw [Page.isCustom, hp.custom?_eq_none hm] at hcustom
    cases hcustom
  refine ⟨.push hp _, rfl, ?_, fun hcustom => absurd hcustom (hplain _ (Nat.le_refl _)), fun _ m hm hpending => ?_⟩
  · rw [Document.size_push]
    exact Nat.lt_succ_self _
  · exact hplain m (Nat.le_of_lt hm) (Page.isCustom_of_isPending hpending)

theorem createElementWith_made (hcreate : host.Creates strict) (hflush : host.Flushes strict) {ns : Namespace}
    (hp : p.WellNested strict) (h : createElementWith host tag ns p = some (n, q)) : p.Made strict tag n q := by
  obtain ⟨rfl, ⟨-, rfl⟩ | ⟨d, -, hd, hconnect⟩⟩ := createElementWith_eq_some.mp h
  · exact .push hp tag _
  · exact connectElement_made hcreate hflush hp hd hconnect

/-- Elements may be created within elements to any depth. -/
theorem hostTo_creates (depth : Nat) : (hostTo depth).Creates strict := by
  induction depth with
  | zero => exact ⟨fun _ _ _ _ _ h => by cases h⟩
  | succ depth ih => exact ⟨fun _ _ _ _ _ h hp => createElementWith_made ih (hostTo_flushes depth) hp h⟩

end LiveMarkup
