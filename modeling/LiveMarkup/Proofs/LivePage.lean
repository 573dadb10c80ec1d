import LiveMarkup.Proofs.NestingDepth
import LiveMarkup.Proofs.ScriptFrame

namespace LiveMarkup

variable {p q : Page} {strict : Prop} {i : Instance} {t : Template} {root : Option NodeId} {built : List Instance}
  {tags : String → Prop} {report : Report}

/-- Compiled so that elements with the tags count as nested components. -/
def Template.CompiledFor (t : Template) (tags : String → Prop) : Prop :=
  ∃ declared maps options node maps', compileWith declared maps options node = (.ok t, maps') ∧
    ∀ tag, tags tag → options.nested.holds tag = true

theorem Template.CompiledFor.mono {tags' : String → Prop} (h : t.CompiledFor tags)
    (htags : ∀ tag, tags' tag → tags tag) : t.CompiledFor tags' := by
  obtain ⟨declared, maps, options, node, maps', hcompile, hnested⟩ := h
  exact ⟨declared, maps, options, node, maps', hcompile, fun tag htag => hnested tag (htags tag htag)⟩

theorem Template.CompiledFor.tends (h : t.CompiledFor tags) : t.Tends tags := by
  obtain ⟨declared, maps, options, node, maps', hcompile, htags⟩ := h
  exact Template.tends_of_compileWith hcompile htags

theorem Template.CompiledFor.tends_strict (h : t.CompiledFor p.Defines) : t.Tends (p.Tended True) :=
  Template.CompiledFor.tends (h.mono fun _ htag => htag.2)

namespace Page

/-- All tags are defined as widgets, whose templates were compiled so that elements with certain tags count
as nested components. -/
def DefinesWidgets (p : Page) (tags : String → Prop) : Prop :=
  ∀ tag d, p.registry.get? tag = some d →
    ∃ t initial, d.kind = .widget t initial ∧ t.createsRoot = false ∧ t.CompiledFor tags

/-- A page of widgets with the instances built on it, whatever has happened to it since: other elements
were created, components changed, properties were written, events were handled, and instances and
elements were brought up to date. In all templates elements with the given tags count as nested components. -/
inductive Live (tags : Page → String → Prop) : Page → List Instance → Prop
  | start {p : Page} (helements : p.elements = []) (hdefined : p.DefinesWidgets (tags p)) : Live tags p []
  | build {p q : Page} {built : List Instance} (hp : Live tags p built) {t : Template} {c : ComponentId}
      {root : Option NodeId} {sink : Sink} {i : Instance} {report : Report} (ht : t.CompiledFor (tags p))
      (h : t.instantiate c root sink p = some (.ok (i, report), q)) : Live tags q (i :: built)
  | create {p q : Page} {built : List Instance} (hp : Live tags p built) {tag : String} {ns : Namespace} {n : NodeId}
      (h : createElement tag ns p = some (n, q)) : Live tags q built
  | change {p : Page} {built : List Instance} (hp : Live tags p built) (c : ComponentId) (f : Component → Component) :
      Live tags (p.modifyComponent c f) built
  | write {p : Page} {built : List Instance} (hp : Live tags p built) (n : NodeId) (path : PropertyPath) (v : Value) :
      Live tags (p.setProperty n path v) built
  | dispatch {p q : Page} {built : List Instance} (hp : Live tags p built) {n : NodeId} {kind : String}
      {detail : Value} {result : Dispatch} (h : dispatch n kind detail p = some (result, q)) : Live tags q built
  | refresh {p q : Page} {built : List Instance} (hp : Live tags p built) {i : Instance} {changed : Names}
      {report : Report} (hi : i ∈ built) (h : withHost (fun host => i.refresh host changed) p = some (report, q)) :
      Live tags q built
  | deliver {p q : Page} {built : List Instance} (hp : Live tags p built) {i : Instance} {report : Report}
      (hi : i ∈ built) (h : withHost (fun host => i.deliver host) p = some (report, q)) : Live tags q built
  | flush {p q : Page} {built : List Instance} (hp : Live tags p built) {n : NodeId} {result : Except Fault Nat}
      (h : flushNested n p = some (result, q)) : Live tags q built

/-- An instance on a page: the elements its template created come after the root it adopted, and they can
be flushed. On a strict page it flushes them at every refresh. -/
structure Holds (strict : Prop) (p : Page) (i : Instance) : Prop where
  tends : i.template.Tends (p.Tended strict)
  within : ∀ s n, i.node? s = some n → n < p.document.size
  flushed : strict → ∀ s n, i.template.Creates s → i.node? s = some n → p.isCustom n = true →
    .unconditional (.flushNested s) ∈ i.template.refresh
  below : ∀ r s n, i.template.createsRoot = false → i.node? 0 = some r → s ≠ 0 → i.node? s = some n → r < n
  shallow : ∀ k, i.ToFlush i.template.refresh k → p.Shallow p.nesting k

/-- What holds of a page of widgets between calls. -/
structure Sound (strict : Prop) (p : Page) (built : List Instance) : Prop where
  wellNested : p.WellNested strict
  calm : ∀ n, ¬p.IsBusy n
  held : ∀ i ∈ built, p.Holds strict i

theorem Holds.steady (h : p.Holds strict i) (hq : p.Steady q) : q.Holds strict i where
  tends := hq.tended strict ▸ h.tends
  within s n hn := hq.size ▸ h.within s n hn
  flushed hstrict s n hs hn hcustom := h.flushed hstrict s n hs hn (hq.isCustom n ▸ hcustom)
  below := h.below
  shallow k hk := by
    rw [nesting, hq.registry]
    exact (h.shallow k hk).alike hq.toAlike

theorem Holds.grown (h : p.Holds strict i) (hp : p.WellNested strict) (hq : p.Grown strict root q) :
    q.Holds strict i where
  tends := by
    rw [tended_congr hq.registry]
    exact h.tends
  within s n hn := Nat.lt_of_lt_of_le (h.within s n hn) hq.size
  flushed hstrict s n hs hn hcustom := by
    rw [isCustom, hq.old n (h.within s n hn)] at hcustom
    exact h.flushed hstrict s n hs hn hcustom
  below := h.below
  shallow k hk := by
    obtain ⟨_, -, s, -, hnode⟩ := id hk
    rw [nesting, hq.registry]
    exact (h.shallow k hk).grown hp hq (h.within s k hnode)

theorem Sound.steady (h : p.Sound strict built) (hq : p.Steady q) : q.Sound strict built where
  wellNested := h.wellNested.steady hq
  calm n hn := h.calm n ((hq.isBusy n).mp hn)
  held i hi := (h.held i hi).steady hq

theorem Sound.grown (h : p.Sound strict built) (hq : p.Grown strict root q) :
    q.Sound strict built where
  wellNested := hq.wellNested
  calm n hn := by
    by_cases hlt : n < p.document.size
    · exact h.calm n ((hq.isBusy hlt).mp hn)
    · exact hq.calm n (Nat.not_lt.mp hlt) hn
  held i hi := (h.held i hi).grown h.wellNested hq

end Page

theorem Template.not_creates {s : Slot} (h : ¬t.Creates s) : s = 0 ∧ t.createsRoot = false := by
  rw [Creates, not_or, not_not, Bool.not_eq_true] at h
  exact h

namespace Instance

theorem Underway.created_iff {k : Nat} {ops : List Op} (h : i.Underway strict root p k ops q) {s : Slot} {n : NodeId}
    (hn : i.node? s = some n) : i.template.Creates s ↔ p.document.size ≤ n := by
  rcases h.nodes s n hn with ⟨rfl, hadopts, -, hlt⟩ | ⟨hcreates, hle, -⟩
  · exact ⟨fun hcreates => by simp [Template.Creates, hadopts] at hcreates,
      fun hle => absurd hlt (Nat.not_lt.mpr hle)⟩
  · exact ⟨fun _ => hle, fun _ => hcreates⟩

theorem Underway.holds {k : Nat} {ops : List Op} (h : i.Underway strict root p k ops q)
    (htends : i.template.Tends (p.Tended strict))
    (hshallow : ∀ k, i.ToFlush i.template.refresh k → q.Shallow q.nesting k) : q.Holds strict i where
  tends := by
    rw [Page.tended_congr h.grown.registry]
    exact htends
  within s n hn := h.node_lt hn
  flushed hstrict s n hs hn hcustom := (h.custom hstrict s n hn ((h.created_iff hn).mp hs) hcustom).2
  below r s n hadopts hr hs hn := by
    have hle : p.document.size ≤ n := (h.created_iff hn).mp (Or.inl hs)
    have hlt : ¬p.document.size ≤ r := fun hle => by
      have hcreates := (h.created_iff hr).mpr hle
      simp [Template.Creates, hadopts] at hcreates
    exact Nat.lt_of_lt_of_le (Nat.not_le.mp hlt) hle
  shallow := hshallow

/-- The root that the template did not create. -/
def Adopted (i : Instance) (n : NodeId) : Prop :=
  i.template.createsRoot = false ∧ i.node? 0 = some n

theorem prepared_held (hi : p.Holds strict i) (hcalm : ∀ n, ¬p.IsBusy n) (changed : Names) :
    i.Prepared strict i.Adopted (i.template.refresh.filter fun s => s.triggeredBy changed) p := by
  refine ⟨fun step hstep => hi.tends.inPlace step (List.mem_of_mem_filter hstep),
    hi.tends.refresh_order.filter _, ?_, fun _ _ _ _ _ _ m hm => absurd hm (hcalm m)⟩
  intro hstrict step hstep s n _ hn hcustom _
  by_cases hs : i.template.Creates s
  · exact Or.inr ⟨_, List.mem_filter.mpr ⟨hi.flushed hstrict s n hs hn hcustom, rfl⟩, rfl⟩
  · obtain ⟨rfl, hadopts⟩ := Template.not_creates hs
    exact Or.inl ⟨hadopts, hn⟩

theorem refresh_steady {depth : Nat} {changed : Names} (hp : p.WellNested strict) (hcalm : ∀ n, ¬p.IsBusy n)
    (hi : p.Holds strict i) (h : i.refresh (hostTo depth) changed p = some (report, q)) : p.Steady q :=
  (runSteps_drains (hostTo_flushes depth) hp (prepared_held hi hcalm changed) h).1

theorem refresh_returns (hp : p.WellNested strict) (hcalm : ∀ n, ¬p.IsBusy n) (hi : p.Holds strict i)
    (changed : Names) : ∃ report q, i.refresh (hostTo p.nesting) changed p = some (report, q) :=
  runSteps_returns (hostTo_flushes p.nesting) (hostTo_reaches p.nesting) hp (prepared_held hi hcalm changed)
    fun k ⟨step, hstep, hk⟩ => hi.shallow k ⟨step, List.mem_of_mem_filter hstep, hk⟩

theorem deliverRounds_steady {depth rounds : Nat} (hp : p.WellNested strict) (hcalm : ∀ n, ¬p.IsBusy n)
    (hi : p.Holds strict i) (h : i.deliverRounds (hostTo depth) rounds p = some (report, q)) : p.Steady q :=
  deliverRounds_prepared (hostTo_flushes depth) hp (prepared_held hi hcalm) h

end Instance

/-- Building an instance on a page of widgets. -/
theorem Template.instantiate_underway {strict : Prop} {c : ComponentId} {sink : Sink} (hp : p.WellNested strict)
    (ht : t.Tends (p.Tended strict)) (h : t.instantiate c root sink p = some (.ok (i, report), q)) :
    i.Underway strict root p t.slotNames.length [] q ∧ i.template = t ∧ i.component = c ∧ q.Holds strict i := by
  have hbuild := withHost_eq_some.mp h
  obtain ⟨_, _, heq, hi, htemplate, hcomponent, -⟩ := Template.buildOn_underway (hostTo_creates _)
    (hostTo_flushes _) hp ht (obstacle?_of_buildOn hbuild) hbuild
  cases heq
  have hshallow : ∀ k, i.ToFlush i.template.refresh k → q.Shallow q.nesting k := by
    intro k hk
    rw [Page.nesting, hi.grown.registry]
    exact buildOn_shallow (hostTo_creates _) (hostTo_flushes _) (hostTo_reaches _) hp ht hbuild hk
  exact ⟨hi, htemplate, hcomponent, hi.holds (htemplate ▸ ht) hshallow⟩

namespace Page

theorem DefinesWidgets.mono {tags' : String → Prop} (h : p.DefinesWidgets tags) (htags : ∀ tag, tags' tag → tags tag) :
    p.DefinesWidgets tags' := by
  intro tag d hd
  obtain ⟨t, initial, hkind, hadopts, ht⟩ := h tag d hd
  exact ⟨t, initial, hkind, hadopts, ht.mono htags⟩

theorem wellNested_of_blank (helements : p.elements = []) (hdefined : p.DefinesWidgets (p.Tended strict)) :
    p.WellNested strict := by
  have hcustom : ∀ n, p.custom? n = none := fun n => by
    rw [custom?, helements]
    rfl
  have hwidget : ∀ n w, p.widget? n ≠ some w := by
    intro n w hw
    rw [widget?, hcustom] at hw
    cases hw
  refine ⟨fun tag d hd => ?_, fun n hn => ?_, fun n w hw => absurd hw (hwidget n w),
    fun n _ w _ hw => absurd hw (hwidget n w), ?_⟩
  · obtain ⟨t, initial, hkind, hadopts, ht⟩ := hdefined tag d hd
    exact ⟨t, initial, hkind, hadopts, ht.tends⟩
  · rw [isCustom, hcustom] at hn
    cases hn
  · rintro m m' k ⟨w, _, _, hw, -⟩
    exact absurd hw (hwidget m w)

theorem Live.sound {tags : Page → String → Prop} (htags : ∀ p tag, p.Tended strict tag → tags p tag)
    (h : p.Live tags built) : p.Sound strict built := by
  induction h with
  | start helements hdefined =>
    refine ⟨wellNested_of_blank helements (hdefined.mono (htags _)), ?_, fun i hi => absurd hi List.not_mem_nil⟩
    rintro n ⟨e, he, -⟩
    rw [custom?, helements] at he
    cases he
  | build _ ht h ih =>
    have htends := (ht.mono (htags _)).tends
    obtain ⟨hi, -, -, hheld⟩ := Template.instantiate_underway ih.wellNested htends h
    have hsound := ih.grown hi.grown
    refine ⟨hsound.wellNested, hsound.calm, fun i' hi' => ?_⟩
    rcases List.mem_cons.mp hi' with rfl | hi'
    · exact hheld
    · exact hsound.held i' hi'
  | create _ h ih =>
    exact ih.grown ((hostTo_creates _).create _ _ _ _ _ (withHost_eq_some.mp h) ih.wellNested).toGrown
  | change _ c f ih => exact ih.steady (undisturbed_modifyComponent _ c f).steady
  | write _ n path v ih => exact ih.steady (setProperty_touched ih.wellNested n path v).steady
  | dispatch _ h ih => exact ih.steady (dispatch_undisturbed h).steady
  | refresh _ hi h ih =>
    exact ih.steady (Instance.refresh_steady ih.wellNested ih.calm (ih.held _ hi) (withHost_eq_some.mp h))
  | deliver _ hi h ih =>
    exact ih.steady (Instance.deliverRounds_steady ih.wellNested ih.calm (ih.held _ hi) (withHost_eq_some.mp h))
  | flush _ h ih =>
    exact ih.steady ((hostTo_flushes _).flush _ _ _ _ (withHost_eq_some.mp h) ih.wellNested
      fun m hm => absurd hm (ih.calm m)).steady

end Page

end LiveMarkup
