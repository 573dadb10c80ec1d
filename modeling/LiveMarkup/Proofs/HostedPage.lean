import LiveMarkup.Proofs.LivePage

namespace LiveMarkup

theorem Template.Compiled.tends {t : Template} (ht : t.Compiled) : t.Tends fun _ => False := by
  obtain ⟨declared, maps, options, node, maps', hcompile⟩ := ht
  exact Template.tends_of_compileWith hcompile fun tag htag => htag.elim

namespace Page

/-- A component on the page that no widget has. -/
structure IsOuter (p : Page) (c : ComponentId) : Prop where
  known : c < p.components.size
  apart : ∀ n w, p.widget? n = some w → w.component ≠ c

/-- A page with the instances built on it. At first it had neither elements nor definitions. Then tags were
defined as components, elements were created, instances were built for components that no widget has, and
instances and elements were brought up to date. Meanwhile properties were written, events were handled, and
all else changed that is neither an element nor a definition, with no widget left in use. -/
inductive Hosted : Page → List Instance → Prop
  | start {p : Page} (helements : p.elements = []) (hregistry : p.registry = Dict.empty) : Hosted p []
  | define {p q : Page} {built : List Instance} (hp : Hosted p built) {tag : String} {t : Template}
      {initial : Blueprint} {fresh : Bool} (ht : t.Compiled)
      (h : p.defineWidget tag t initial = .ok (fresh, q)) : Hosted q built
  | create {p q : Page} {built : List Instance} (hp : Hosted p built) {tag : String} {ns : Namespace} {n : NodeId}
      (h : createElement tag ns p = some (n, q)) : Hosted q built
  | build {p q : Page} {built : List Instance} (hp : Hosted p built) {t : Template} {c : ComponentId}
      {root : Option NodeId} {sink : Sink} {i : Instance} {report : Report} (ht : t.Compiled) (hc : p.IsOuter c)
      (h : t.instantiate c root sink p = some (.ok (i, report), q)) : Hosted q (i :: built)
  | refresh {p q : Page} {built : List Instance} (hp : Hosted p built) {i : Instance} {changed : Names}
      {report : Report} (hi : i ∈ built) (h : withHost (fun host => i.refresh host changed) p = some (report, q)) :
      Hosted q built
  | deliver {p q : Page} {built : List Instance} (hp : Hosted p built) {i : Instance} {report : Report}
      (hi : i ∈ built) (h : withHost (fun host => i.deliver host) p = some (report, q)) : Hosted q built
  | flush {p q : Page} {built : List Instance} (hp : Hosted p built) {n : NodeId} {result : Except Fault Nat}
      (h : flushNested n p = some (result, q)) : Hosted q built
  | write {p : Page} {built : List Instance} (hp : Hosted p built) (n : NodeId) (path : PropertyPath) (v : Value) :
      Hosted (p.setProperty n path v) built
  | dispatch {p q : Page} {built : List Instance} (hp : Hosted p built) {n : NodeId} {kind : String}
      {detail : Value} {result : Dispatch} (h : dispatch n kind detail p = some (result, q)) : Hosted q built
  | change {p q : Page} {built : List Instance} (hp : Hosted p built) (hregistry : q.registry = p.registry)
      (helements : q.elements = p.elements) (hsize : p.document.size ≤ q.document.size)
      (hcount : p.components.size ≤ q.components.size)
      (hfree : ∀ n w, p.widget? n = some w → q.access w.component = .free) : Hosted q built

variable {p q : Page} {built : List Instance} {c : ComponentId}

theorem tended_false (p : Page) : p.Tended False = fun _ => False := by
  funext tag
  rw [Tended, false_and]

theorem IsOuter.of_widgets (h : p.IsOuter c) (hcount : p.components.size ≤ q.components.size)
    (hwidget : ∀ n, q.widget? n = p.widget? n) : q.IsOuter c where
  known := Nat.lt_of_lt_of_le h.known hcount
  apart n w hw := h.apart n w (hwidget n ▸ hw)

theorem IsOuter.steady (h : p.IsOuter c) (hq : p.Steady q) : q.IsOuter c :=
  h.of_widgets (Nat.le_of_eq hq.count.symm) hq.widget?

/-- A new widget has a new component. -/
theorem IsOuter.grown {strict : Prop} {root : Option NodeId} (h : p.IsOuter c) (hq : p.Grown strict root q) :
    q.IsOuter c where
  known := Nat.lt_of_lt_of_le h.known hq.count
  apart n w hw := by
    by_cases hn : n < p.document.size
    · exact h.apart n w (widget?_congr (hq.old n hn) ▸ hw)
    · have hnew := hq.owned n w (Nat.not_lt.mp hn) hw
      exact Nat.ne_of_gt (Nat.lt_of_lt_of_le h.known hnew)

theorem Shallow.mono {depth depth' : Nat} {n : NodeId} (h : p.Shallow depth n) (hle : depth ≤ depth') :
    p.Shallow depth' n := by
  induction depth generalizing depth' n with
  | zero => exact h.elim
  | succ depth ih =>
    cases depth' with
    | zero => exact absurd hle (Nat.not_succ_le_zero depth)
    | succ depth' =>
      intro w i k hw hshown hk
      exact ih (h w i k hw hshown hk) (Nat.le_of_succ_le_succ hle)

/-- What the host changes around the elements does them no harm. -/
theorem Sound.surround (h : p.Sound False built) (hnesting : p.nesting ≤ q.nesting)
    (hdefined : ∀ tag d, q.registry.get? tag = some d →
      ∃ t initial, d.kind = .widget t initial ∧ t.createsRoot = false ∧ t.Tends fun _ => False)
    (helements : q.elements = p.elements) (hsize : p.document.size ≤ q.document.size)
    (hcount : p.components.size ≤ q.components.size)
    (hfree : ∀ n w, p.widget? n = some w → q.access w.component = .free) : q.Sound False built := by
  have hcustom : ∀ n, q.custom? n = p.custom? n := fun n => by rw [custom?, helements, custom?]
  have hwidget : ∀ n, q.widget? n = p.widget? n := fun n => widget?_congr (hcustom n)
  have htended : q.Tended False = p.Tended False := by rw [tended_false, tended_false]
  have hbusy : ∀ n, q.IsBusy n ↔ p.IsBusy n := fun n => by rw [IsBusy, hcustom, IsBusy]
  refine ⟨⟨q.tended_false ▸ hdefined, fun n hn => ?_, fun n w hw => ?_, fun n n' w w' hw hw' => ?_, fun m m' k hm hm' => ?_⟩,
    fun n hn => h.calm n ((hbusy n).mp hn), fun i hi => ?_⟩
  · rw [isCustom, hcustom] at hn
    rw [hwidget]
    exact h.wellNested.custom n hn
  · rw [hwidget] at hw
    have hlives := h.wellNested.living n w hw
    refine ⟨Nat.lt_of_lt_of_le hlives.within hsize, Nat.lt_of_lt_of_le hlives.owned hcount, hfree n w hw,
      fun hn => hlives.connected fun hn' => hn ((hbusy n).mpr hn'), fun i hi => ?_⟩
    have hhoused := hlives.shown i hi
    exact ⟨hhoused.component, htended ▸ hhoused.tends, hhoused.adopts, hhoused.root,
      fun s k hs hk => ⟨(hhoused.inner s k hs hk).1, Nat.lt_of_lt_of_le (hhoused.inner s k hs hk).2 hsize⟩,
      fun hstrict => hstrict.elim⟩
  · rw [hwidget] at hw hw'
    exact h.wellNested.distinct n n' w w' hw hw'
  · rw [inside_congr (hcustom m)] at hm
    rw [inside_congr (hcustom m')] at hm'
    exact h.wellNested.unique m m' k hm hm'
  · have hheld := h.held i hi
    refine ⟨htended ▸ hheld.tends, fun s n hn => Nat.lt_of_lt_of_le (hheld.within s n hn) hsize,
      fun hstrict => hstrict.elim, hheld.below, fun k hk => ?_⟩
    have hshallow : q.Shallow p.nesting k := (hheld.shallow k hk).congr (P := fun _ => True) trivial
      (fun m _ => hwidget m) fun _ _ _ _ _ _ _ _ => trivial
    exact hshallow.mono hnesting

theorem Sound.defineWidget {tag : String} {t : Template} {initial : Blueprint} {fresh : Bool}
    (h : p.Sound False built) (ht : t.Compiled) (hq : p.defineWidget tag t initial = .ok (fresh, q)) :
    q.Sound False built ∧ q.elements = p.elements ∧ q.components = p.components := by
  have hfree : ∀ n w, p.widget? n = some w → p.access w.component = .free :=
    fun n w hw => (h.wellNested.living n w hw).free
  have hdefined := h.wellNested.defined
  rw [tended_false] at hdefined
  obtain ⟨hroot, ⟨message, rfl⟩ | rfl⟩ := defineWidget_ok hq
  · exact ⟨h.surround (Nat.le_refl _) hdefined rfl (Nat.le_refl _) (Nat.le_refl _) hfree, rfl, rfl⟩
  · refine ⟨h.surround (Nat.succ_le_succ (Dict.size_le_insert _ _ _)) (fun tag' d hd => ?_) rfl (Nat.le_refl _)
      (Nat.le_refl _) hfree, rfl, rfl⟩
    rw [Dict.get?_insert] at hd
    by_cases htag : tag' = tag
    · rw [if_pos htag] at hd
      cases hd
      exact ⟨t, initial, rfl, hroot, ht.tends⟩
    · rw [if_neg htag] at hd
      exact hdefined tag' d hd

/-- The page is sound, and its instances show components that no widget has. -/
theorem Hosted.sound (h : p.Hosted built) : p.Sound False built ∧ ∀ i ∈ built, p.IsOuter i.component := by
  have hsteady : ∀ {p q : Page} {built : List Instance}, (p.Sound False built ∧ ∀ i ∈ built, p.IsOuter i.component) →
      p.Steady q → q.Sound False built ∧ ∀ i ∈ built, q.IsOuter i.component :=
    fun h hq => ⟨h.1.steady hq, fun i hi => (h.2 i hi).steady hq⟩
  induction h with
  | start helements hregistry =>
    refine ⟨⟨wellNested_of_blank helements fun tag d hd => ?_, ?_, fun i hi => absurd hi List.not_mem_nil⟩,
      fun i hi => absurd hi List.not_mem_nil⟩
    · rw [hregistry] at hd
      cases hd
    · rintro n ⟨e, he, -⟩
      rw [custom?, helements] at he
      cases he
  | define _ ht h ih =>
    obtain ⟨hsound, helements, hcomponents⟩ := ih.1.defineWidget ht h
    refine ⟨hsound, fun i hi => (ih.2 i hi).of_widgets (Nat.le_of_eq (by rw [hcomponents])) fun n => widget?_congr ?_⟩
    rw [custom?, helements, custom?]
  | create _ h ih =>
    have hgrown := ((hostTo_creates _).create _ _ _ _ _ (withHost_eq_some.mp h) ih.1.wellNested).toGrown
    exact ⟨ih.1.grown hgrown, fun i hi => (ih.2 i hi).grown hgrown⟩
  | build _ ht hc h ih =>
    obtain ⟨hi, -, hcomponent, hheld⟩ := Template.instantiate_underway ih.1.wellNested (tended_false _ ▸ ht.tends) h
    have hsound := ih.1.grown hi.grown
    refine ⟨⟨hsound.wellNested, hsound.calm, fun i' hi' => ?_⟩, fun i' hi' => ?_⟩
    · rcases List.mem_cons.mp hi' with rfl | hi'
      · exact hheld
      · exact hsound.held i' hi'
    · rcases List.mem_cons.mp hi' with rfl | hi'
      · rw [hcomponent]
        exact hc.grown hi.grown
      · exact (ih.2 i' hi').grown hi.grown
  | refresh _ hi h ih =>
    exact hsteady ih (Instance.refresh_steady ih.1.wellNested ih.1.calm (ih.1.held _ hi) (withHost_eq_some.mp h))
  | deliver _ hi h ih =>
    exact hsteady ih (Instance.deliverRounds_steady ih.1.wellNested ih.1.calm (ih.1.held _ hi) (withHost_eq_some.mp h))
  | flush _ h ih =>
    exact hsteady ih ((hostTo_flushes _).flush _ _ _ _ (withHost_eq_some.mp h) ih.1.wellNested
      fun m hm => absurd hm (ih.1.calm m)).steady
  | write _ n path v ih => exact hsteady ih (setProperty_touched ih.1.wellNested n path v).steady
  | dispatch _ h ih => exact hsteady ih (dispatch_undisturbed h).steady
  | change _ hregistry helements hsize hcount hfree ih =>
    have hdefined := ih.1.wellNested.defined
    rw [tended_false, ← hregistry] at hdefined
    refine ⟨ih.1.surround (Nat.le_of_eq (by rw [nesting, nesting, hregistry])) hdefined helements hsize hcount hfree,
      fun i hi => (ih.2 i hi).of_widgets hcount fun n => widget?_congr ?_⟩
    rw [custom?, helements, custom?]

end Page

end LiveMarkup
