import LiveMarkup.Proofs.NestedFlush

namespace LiveMarkup

variable {i : Instance} {m n : NodeId} {e : CustomElement} {root : Option NodeId}

namespace Page

variable {strict : Prop} {p q : Page} {k : NodeId} {w : Widget}

theorem WellNested.inside_bounds (h : p.WellNested strict) (hk : p.Inside m k) : m < k ∧ k < p.document.size := by
  obtain ⟨w, i, s, hw, hshown, hs, hnode⟩ := hk
  exact ((h.living m w hw).shown i hshown).inner s k hs hnode

theorem WellNested.within_le (hp : p.WellNested strict) (h : p.Within n m) : n ≤ m := by
  induction h with
  | refl => exact Nat.le_refl _
  | tail _ hk ih => exact Nat.le_trans ih (Nat.le_of_lt (hp.inside_bounds hk).1)

theorem custom?_of_widget? (h : p.widget? n = some w) : ∃ e, p.custom? n = some e ∧ e.behaviour.widget? = some w :=
  Option.bind_eq_some_iff.mp h

theorem WellNested.custom?_eq_none (h : p.WellNested strict) (hn : p.document.size ≤ n) : p.custom? n = none := by
  cases he : p.custom? n with
  | none => rfl
  | some e =>
    obtain ⟨w, -, hw⟩ := h.behaviour he
    exact absurd (h.living n w hw).within (Nat.not_lt.mpr hn)

theorem tended_congr (h : q.registry = p.registry) : q.Tended strict = p.Tended strict := by
  funext tag
  rw [Tended, Defines, h, Tended, Defines]

theorem Housed.grow (h : p.Housed strict n w i) (hregistry : q.registry = p.registry)
    (hsize : p.document.size ≤ q.document.size) (hcustom : ∀ k, k < p.document.size → q.isCustom k = p.isCustom k) :
    q.Housed strict n w i where
  component := h.component
  tends := by
    rw [tended_congr hregistry]
    exact h.tends
  adopts := h.adopts
  root := h.root
  inner s k hs hk := ⟨(h.inner s k hs hk).1, Nat.lt_of_lt_of_le (h.inner s k hs hk).2 hsize⟩
  flushed hstrict s k hs hk hq := h.flushed hstrict s k hs hk (hcustom k (h.inner s k hs hk).2 ▸ hq)

theorem widget?_congr (h : q.custom? n = p.custom? n) : q.widget? n = p.widget? n := by
  rw [widget?, h, widget?]

theorem inside_congr (h : q.custom? m = p.custom? m) : q.Inside m k ↔ p.Inside m k := by
  rw [Inside, widget?_congr h, Inside]

/-- A page keeps to widgets when it grows by nodes, or by an element whose widget is busy and shows nothing
yet. -/
theorem WellNested.extend (hp : p.WellNested strict) (hregistry : q.registry = p.registry)
    (hsize : p.document.size ≤ q.document.size) (hcount : p.components.size ≤ q.components.size)
    (haccess : ∀ c, c < p.components.size → q.access c = p.access c)
    (hold : ∀ m, m < p.document.size → q.custom? m = p.custom? m)
    (hnew : ∀ m e, p.document.size ≤ m → q.custom? m = some e → ∃ w, e = ⟨.widget w, true⟩ ∧
      m = p.document.size ∧ m < q.document.size ∧ w.component = p.components.size ∧
      w.component < q.components.size ∧ q.access w.component = .free ∧ w.shown = none) :
    q.WellNested strict := by
  have hnew' : ∀ m w, p.document.size ≤ m → q.widget? m = some w → q.custom? m = some ⟨.widget w, true⟩ ∧
      m = p.document.size ∧ m < q.document.size ∧ w.component = p.components.size ∧
      w.component < q.components.size ∧ q.access w.component = .free ∧ w.shown = none := by
    intro m w hm hw
    obtain ⟨e, he, hbehaviour⟩ := custom?_of_widget? hw
    obtain ⟨w', rfl, hrest⟩ := hnew m e hm he
    cases hbehaviour
    exact ⟨he, hrest⟩
  have hold' : ∀ m, m < p.document.size → q.widget? m = p.widget? m := fun m hm => widget?_congr (hold m hm)
  have hinside : ∀ m k, q.Inside m k → p.Inside m k := by
    intro m k hk
    by_cases hm : m < p.document.size
    · exact (inside_congr (hold m hm)).mp hk
    · obtain ⟨w, i, s, hw, hshown, -⟩ := hk
      have hnone := (hnew' m w (Nat.not_lt.mp hm) hw).2.2.2.2.2.2
      rw [hnone] at hshown
      cases hshown
  refine ⟨?_, ?_, ?_, ?_, ?_⟩
  · rw [hregistry, tended_congr hregistry]
    exact hp.defined
  · intro m hm
    by_cases hlt : m < p.document.size
    · rw [hold' m hlt]
      rw [isCustom, hold m hlt] at hm
      exact hp.custom m hm
    · obtain ⟨e, he⟩ := Option.isSome_iff_exists.mp hm
      obtain ⟨w, rfl, -⟩ := hnew m e (Nat.not_lt.mp hlt) he
      exact ⟨w, widget?_of_custom? he⟩
  · intro m w hw
    by_cases hlt : m < p.document.size
    · rw [hold' m hlt] at hw
      have hlives := hp.living m w hw
      refine ⟨Nat.lt_of_lt_of_le hlives.within hsize, Nat.lt_of_lt_of_le hlives.owned hcount,
        (haccess _ hlives.owned).trans hlives.free, fun hfree => hlives.connected ?_, fun i hi => ?_⟩
      · rwa [IsBusy, hold m hlt] at hfree
      · refine (hlives.shown i hi).grow hregistry hsize fun k hk => ?_
        rw [isCustom, hold k hk, isCustom]
    · obtain ⟨he, -, hwithin, -, howned, hfree, hshown⟩ := hnew' m w (Nat.not_lt.mp hlt) hw
      refine ⟨hwithin, howned, hfree, fun hbusy => absurd ⟨_, he, rfl⟩ hbusy, fun i hi => ?_⟩
      rw [hshown] at hi
      cases hi
  · intro m m' w w' hw hw' hsame
    by_cases hlt : m < p.document.size
    · have hwp := hold' m hlt ▸ hw
      by_cases hlt' : m' < p.document.size
      · exact hp.distinct m m' w w' hwp (hold' m' hlt' ▸ hw') hsame
      · have hcomponent := (hnew' m' w' (Nat.not_lt.mp hlt') hw').2.2.2.1
        exact absurd (hsame.trans hcomponent) (Nat.ne_of_lt (hp.living m w hwp).owned)
    · obtain ⟨-, heq, -, hcomponent, -⟩ := hnew' m w (Nat.not_lt.mp hlt) hw
      by_cases hlt' : m' < p.document.size
      · exact absurd (hsame.symm.trans hcomponent) (Nat.ne_of_lt (hp.living m' w' (hold' m' hlt' ▸ hw')).owned)
      · exact heq.trans (hnew' m' w' (Nat.not_lt.mp hlt') hw').2.1.symm
  · exact fun m m' k hm hm' => hp.unique m m' k (hinside m k hm) (hinside m' k hm')

theorem WellNested.push (hp : p.WellNested strict) (kind : NodeKind) :
    { p with document := p.document.push kind }.WellNested strict := by
  refine hp.extend rfl ?_ (Nat.le_refl _) (fun _ _ => rfl) (fun _ _ => rfl) fun m e hm he => ?_
  · exact Nat.le_of_lt (by rw [Document.size_push]; exact Nat.lt_succ_self _)
  · have he' : p.custom? m = some e := he
    rw [hp.custom?_eq_none hm] at he'
    cases he'

/-- The other page has this custom element at the node, and is otherwise the same. -/
structure Recast (n : NodeId) (e : CustomElement) (p q : Page) : Prop where
  self : q.custom? n = some e
  other : ∀ m, m ≠ n → q.custom? m = p.custom? m
  registry : q.registry = p.registry
  document : q.document = p.document
  components : q.components = p.components

namespace Recast

variable {busy : Bool}

theorem modifyCustom (hw : p.widget? n = some w) (e : CustomElement) (connecting : List NodeId) :
    p.Recast n e ({ p with connecting := connecting }.modifyCustom n fun _ => e) where
  self := by
    obtain ⟨old, hold, -⟩ := custom?_of_widget? hw
    rw [custom?_modifyCustom, if_pos rfl]
    exact congrArg (Option.map _) hold
  other m hm := by
    rw [custom?_modifyCustom, if_neg hm]
    rfl
  registry := rfl
  document := rfl
  components := rfl

theorem cell (h : p.Recast n e q) (c : ComponentId) : q.cell c = p.cell c := by
  rw [Page.cell, h.components, Page.cell]

theorem access (h : p.Recast n e q) (c : ComponentId) : q.access c = p.access c :=
  congrArg Cell.access (h.cell c)

theorem component (h : p.Recast n e q) (c : ComponentId) : q.component c = p.component c :=
  congrArg Cell.component (h.cell c)

theorem isCustom (h : p.Recast n e q) (hw : p.widget? n = some w) (k : NodeId) : q.isCustom k = p.isCustom k := by
  by_cases hk : k = n
  · rw [hk, isCustom_of_custom? h.self, isCustom_of_widget? hw]
  · rw [Page.isCustom, h.other k hk, Page.isCustom]

theorem housed (h : p.Recast n e q) (hw : p.widget? n = some w) {w' : Widget} (hi : p.Housed strict m w' i) :
    q.Housed strict m w' i :=
  hi.grow h.registry (Nat.le_of_eq (congrArg Document.size h.document.symm)) fun k _ => h.isCustom hw k

theorem widget?_self (h : p.Recast n ⟨.widget w, busy⟩ q) : q.widget? n = some w :=
  widget?_of_custom? h.self

theorem widget?_cases (h : p.Recast n ⟨.widget w, busy⟩ q) {w' : Widget} (hw' : q.widget? m = some w') :
    m = n ∧ w' = w ∨ m ≠ n ∧ p.widget? m = some w' := by
  by_cases hm : m = n
  · subst hm
    rw [h.widget?_self] at hw'
    exact Or.inl ⟨rfl, (Option.some.inj hw').symm⟩
  · exact Or.inr ⟨hm, widget?_congr (h.other m hm) ▸ hw'⟩

theorem inside_cases (h : p.Recast n ⟨.widget { w with shown := some i }, busy⟩ q) (hk : q.Inside m k) :
    m = n ∧ (∃ s, s ≠ 0 ∧ i.node? s = some k) ∨ m ≠ n ∧ p.Inside m k := by
  obtain ⟨w', i', s, hw', hi', hs, hnode⟩ := hk
  rcases h.widget?_cases hw' with ⟨rfl, rfl⟩ | ⟨hm, hw'⟩
  · cases hi'
    exact Or.inl ⟨rfl, s, hs, hnode⟩
  · exact Or.inr ⟨hm, w', i', s, hw', hi', hs, hnode⟩

end Recast

/-- A widget that has been built shows its instance and is busy no more. -/
theorem WellNested.connect (hp : p.WellNested strict) (hw : p.widget? n = some w) (hi : p.Housed strict n w i)
    (hfresh : ∀ s k m, s ≠ 0 → i.node? s = some k → ¬p.Inside m k)
    (h : p.Recast n ⟨.widget { w with shown := some i }, false⟩ q) : q.WellNested strict where
  defined := by
    rw [h.registry, tended_congr h.registry]
    exact hp.defined
  custom m hm := by
    by_cases hmn : m = n
    · exact ⟨_, hmn ▸ h.widget?_self⟩
    · rw [widget?_congr (h.other m hmn)]
      exact hp.custom m (h.isCustom hw m ▸ hm)
  living m w' hw' := by
    rcases h.widget?_cases hw' with ⟨rfl, rfl⟩ | ⟨hm, hw'⟩
    · have hlives := hp.living m w hw
      refine ⟨h.document ▸ hlives.within, h.components ▸ hlives.owned, (h.access _).trans hlives.free,
        fun _ => ⟨i, rfl⟩, fun i' hi' => ?_⟩
      cases hi'
      exact h.housed hw ⟨hi.component, hi.tends, hi.adopts, hi.root, hi.inner, hi.flushed⟩
    · have hlives := hp.living m w' hw'
      refine ⟨h.document ▸ hlives.within, h.components ▸ hlives.owned, (h.access _).trans hlives.free,
        fun hfree => hlives.connected ?_, fun i' hi' => h.housed hw (hlives.shown i' hi')⟩
      rwa [IsBusy, h.other m hm] at hfree
  distinct m m' w₁ w₂ hw₁ hw₂ hsame := by
    have hold : ∀ m' w', q.widget? m' = some w' →
        ∃ w'', p.widget? m' = some w'' ∧ w''.component = w'.component := by
      intro m' w' hw'
      rcases h.widget?_cases hw' with ⟨rfl, rfl⟩ | ⟨-, hw'⟩
      · exact ⟨w, hw, rfl⟩
      · exact ⟨w', hw', rfl⟩
    obtain ⟨w₁', hw₁', heq₁⟩ := hold m w₁ hw₁
    obtain ⟨w₂', hw₂', heq₂⟩ := hold m' w₂ hw₂
    exact hp.distinct m m' w₁' w₂' hw₁' hw₂' (heq₁.trans (hsame.trans heq₂.symm))
  unique m m' k hk hk' := by
    rcases h.inside_cases hk with ⟨rfl, s, hs, hnode⟩ | ⟨hm, hk⟩
    · rcases h.inside_cases hk' with ⟨rfl, -⟩ | ⟨hm', hk'⟩
      · rfl
      · exact absurd hk' (hfresh s k m' hs hnode)
    · rcases h.inside_cases hk' with ⟨rfl, s, hs, hnode⟩ | ⟨hm', hk'⟩
      · exact absurd hk (hfresh s k m hs hnode)
      · exact hp.unique m m' k hk hk'

theorem Steady.custom? (h : p.Steady q) (hp : p.WellNested strict) (n : NodeId) : q.custom? n = p.custom? n := by
  have hq := hp.steady h
  cases he : p.custom? n with
  | none =>
    have hcustom := h.isCustom n
    rw [isCustom, isCustom, he] at hcustom
    exact Option.isSome_eq_false_iff.mp hcustom |> Option.isNone_iff_eq_none.mp
  | some e =>
    have hcustom := h.isCustom n
    rw [isCustom, isCustom, he] at hcustom
    obtain ⟨e', he'⟩ := Option.isSome_iff_exists.mp hcustom
    obtain ⟨w, hb, hw⟩ := hp.behaviour he
    obtain ⟨w', hb', hw'⟩ := hq.behaviour he'
    rw [h.widget?, hw] at hw'
    cases hw'
    have hbusy : e'.busy = true ↔ e.busy = true := by
      have hiff := h.isBusy n
      simpa [IsBusy, he, he'] using hiff
    rw [he']
    obtain ⟨b, busy⟩ := e
    obtain ⟨b', busy'⟩ := e'
    cases hb
    cases hb'
    have hsame : busy' = busy := Bool.eq_iff_iff.mpr hbusy
    rw [hsame]

/-- A page that has grown: the elements that have come are connected and have components that have come
as well, and of the rest only the root can have changed. -/
structure Grown (strict : Prop) (root : Option NodeId) (p q : Page) : Prop where
  wellNested : q.WellNested strict
  registry : q.registry = p.registry
  size : p.document.size ≤ q.document.size
  count : p.components.size ≤ q.components.size
  old : ∀ m, m < p.document.size → q.custom? m = p.custom? m
  calm : ∀ m, p.document.size ≤ m → ¬q.IsBusy m
  owned : ∀ m w, p.document.size ≤ m → q.widget? m = some w → p.components.size ≤ w.component
  access : ∀ c, c < p.components.size → q.access c = p.access c
  kinds : ∀ x, x < p.document.size → root ≠ some x → q.document.kind? x = p.document.kind? x
  components : ∀ c, c < p.components.size → (q.component c).state ≠ (p.component c).state →
    ∃ r w, root = some r ∧ ¬p.IsBusy r ∧ p.widget? r = some w ∧ w.component = c

namespace Grown

variable {r : Page}

theorem refl (root : Option NodeId) (hp : p.WellNested strict) : p.Grown strict root p where
  wellNested := hp
  registry := rfl
  size := Nat.le_refl _
  count := Nat.le_refl _
  old _ _ := rfl
  calm m hm := by
    rintro ⟨e, he, -⟩
    rw [hp.custom?_eq_none hm] at he
    cases he
  owned m w hm hw := absurd (hp.living m w hw).within (Nat.not_lt.mpr hm)
  access _ _ := rfl
  kinds _ _ _ := rfl
  components c _ hc := absurd rfl hc

theorem states (h : p.Grown strict none q) {c : ComponentId} (hc : c < p.components.size) :
    (q.component c).state = (p.component c).state := by
  by_contra hne
  obtain ⟨_, _, hroot, -⟩ := h.components c hc hne
  cases hroot

theorem isBusy (h : p.Grown strict root q) (hm : m < p.document.size) : q.IsBusy m ↔ p.IsBusy m := by
  rw [IsBusy, h.old m hm, IsBusy]

theorem trans (h : p.Grown strict root q) (h' : q.Grown strict none r) : p.Grown strict root r where
  wellNested := h'.wellNested
  registry := h'.registry.trans h.registry
  size := Nat.le_trans h.size h'.size
  count := Nat.le_trans h.count h'.count
  old m hm := (h'.old m (Nat.lt_of_lt_of_le hm h.size)).trans (h.old m hm)
  calm m hm := by
    by_cases hlt : m < q.document.size
    · rw [h'.isBusy hlt]
      exact h.calm m hm
    · exact h'.calm m (Nat.not_lt.mp hlt)
  owned m w hm hw := by
    by_cases hlt : m < q.document.size
    · exact h.owned m w hm (widget?_congr (h'.old m hlt) ▸ hw)
    · exact Nat.le_trans h.count (h'.owned m w (Nat.not_lt.mp hlt) hw)
  access c hc := (h'.access c (Nat.lt_of_lt_of_le hc h.count)).trans (h.access c hc)
  kinds x hx hroot := (h'.kinds x (Nat.lt_of_lt_of_le hx h.size) nofun).trans (h.kinds x hx hroot)
  components c hc hne := by
    rw [h'.states (Nat.lt_of_lt_of_le hc h.count)] at hne
    exact h.components c hc hne

/-- A change to a page that has grown, of what has come or of the root. -/
theorem steady (h : p.Grown strict root q) (hr : q.Steady r)
    (hkinds : ∀ x, x < p.document.size → root ≠ some x → r.document.kind? x = q.document.kind? x)
    (hcomponents : ∀ c, (r.component c).state ≠ (q.component c).state →
      ∃ x w, (root = some x ∧ x < p.document.size ∧ ¬q.IsBusy x ∨ p.document.size ≤ x) ∧
        q.widget? x = some w ∧ w.component = c) :
    p.Grown strict root r where
  wellNested := h.wellNested.steady hr
  registry := hr.registry.trans h.registry
  size := hr.size.symm ▸ h.size
  count := hr.count.symm ▸ h.count
  old m hm := (hr.custom? h.wellNested m).trans (h.old m hm)
  calm m hm hbusy := h.calm m hm ((hr.isBusy m).mp hbusy)
  owned m w hm hw := h.owned m w hm (hr.widget? m ▸ hw)
  access c hc := (hr.access c).trans (h.access c hc)
  kinds x hx hroot := (hkinds x hx hroot).trans (h.kinds x hx hroot)
  components c hc hne := by
    by_cases hsame : (r.component c).state = (q.component c).state
    · rw [hsame] at hne
      exact h.components c hc hne
    · obtain ⟨x, w, hx, hw, rfl⟩ := hcomponents c hsame
      rcases hx with ⟨hroot, hlt, hbusy⟩ | hx
      · rw [h.isBusy hlt] at hbusy
        exact ⟨x, w, hroot, hbusy, widget?_congr (h.old x hlt) ▸ hw, rfl⟩
      · exact absurd hc (Nat.not_lt.mpr (h.owned x w hx hw))

theorem inside (h : p.Grown strict root q) (hk : q.Inside m k) :
    p.Inside m k ∨ p.document.size ≤ m ∧ p.document.size < k := by
  by_cases hm : m < p.document.size
  · exact Or.inl ((inside_congr (h.old m hm)).mp hk)
  · have hm := Nat.not_lt.mp hm
    exact Or.inr ⟨hm, Nat.lt_of_le_of_lt hm (h.wellNested.inside_bounds hk).1⟩

theorem isPending (h : p.Grown strict none q) (hp : p.WellNested strict) (hm : m < p.document.size) :
    q.IsPending m ↔ p.IsPending m := by
  have hwidget := widget?_congr (h.old m hm)
  have hsame : ∀ w, p.widget? m = some w →
      (q.component w.component).pending = (p.component w.component).pending :=
    fun w hw => Component.pending_of_state (h.states (hp.living m w hw).owned)
  constructor
  · rintro ⟨w, hw, hpending⟩
    rw [hwidget] at hw
    exact ⟨w, hw, hsame w hw ▸ hpending⟩
  · rintro ⟨w, hw, hpending⟩
    exact ⟨w, hwidget.trans hw, (hsame w hw).symm ▸ hpending⟩

end Grown

/-- The elements that a growth has added are connected. -/
theorem Grown.connected (h : p.Grown strict root q) (hnew : p.custom? n = none) (he : q.custom? n = some e) :
    p.document.size ≤ n ∧ ∃ w i, e = ⟨.widget w, false⟩ ∧ q.widget? n = some w ∧ w.shown = some i := by
  have hn : p.document.size ≤ n := by
    by_contra hlt
    rw [h.old n (Nat.not_le.mp hlt), hnew] at he
    cases he
  have hcalm := h.calm n hn
  have hbusy : e.busy = false := by
    cases hbusy : e.busy with
    | false => rfl
    | true => exact absurd ⟨e, he, hbusy⟩ hcalm
  obtain ⟨w, hbehaviour, hw⟩ := h.wellNested.behaviour he
  obtain ⟨i, hshown⟩ := (h.wellNested.living n w hw).connected hcalm
  refine ⟨hn, w, i, ?_, hw, hshown⟩
  rw [← hbehaviour, ← hbusy]

theorem Grown.push (hp : p.WellNested strict) (kind : NodeKind) :
    p.Grown strict none { p with document := p.document.push kind } := by
  refine ⟨hp.push kind, rfl, ?_, Nat.le_refl _, fun _ _ => rfl, (Grown.refl none hp).calm,
    (Grown.refl none hp).owned, fun _ _ => rfl, fun x hx _ => p.document.kind?_push_of_lt kind hx,
    fun c _ hc => absurd rfl hc⟩
  exact Nat.le_of_lt (by rw [Document.size_push]; exact Nat.lt_succ_self _)

/-- The creation of the element `n`. On a strict page nothing is pending within it. -/
structure Made (strict : Prop) (tag : String) (n : NodeId) (p q : Page) : Prop extends p.Grown strict none q where
  node : n = p.document.size
  within : n < q.document.size
  custom : q.isCustom n = true → p.Defines tag
  settled : strict → ∀ m, n < m → ¬q.IsPending m

end Page

/-- Creating elements on a page of widgets. -/
structure Host.Creates (strict : Prop) (host : Host) : Prop where
  create : ∀ tag ns p n q, host.create tag ns p = some (n, q) → p.WellNested strict → p.Made strict tag n q

end LiveMarkup
