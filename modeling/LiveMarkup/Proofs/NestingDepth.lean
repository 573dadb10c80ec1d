import LiveMarkup.Proofs.Delivery
import LiveMarkup.Proofs.NestedCreation
import Mathlib.Data.List.Perm.Subperm

namespace LiveMarkup

variable {p q : Page} {depth : Nat} {tag : String} {strict : Prop} {host : Host} {n : NodeId} {root : Option NodeId}
  {i : Instance} {t : Template} {ns : Namespace} {c : ComponentId} {d : Definition}

def Op.createdTag? : Op → Option String
  | .createElement _ tag .html => some tag
  | _ => none

/-- The tags of the HTML elements that a template creates. No others can be custom elements. -/
def Template.createdTags (t : Template) : List String :=
  t.build.filterMap Op.createdTag?

theorem Template.mem_createdTags {s : Slot} (h : .createElement s tag .html ∈ t.build) : tag ∈ t.createdTags :=
  List.mem_filterMap.mpr ⟨_, h, rfl⟩

namespace Page

/-- Flushing the element takes no more than so many elements within each other. -/
def Shallow (p : Page) : Nat → NodeId → Prop
  | 0, _ => False
  | depth + 1, n => ∀ w i k, p.widget? n = some w → w.shown = some i → i.ToFlush i.template.refresh k →
      p.Shallow depth k

theorem Shallow.congr {P : NodeId → Prop} (h : p.Shallow depth n) (hn : P n)
    (hagree : ∀ m, P m → q.widget? m = p.widget? m)
    (hinner : ∀ m w i k, P m → p.widget? m = some w → w.shown = some i → i.ToFlush i.template.refresh k → P k) :
    q.Shallow depth n := by
  induction depth generalizing n with
  | zero => exact h
  | succ depth ih =>
    intro w i k hw hshown hk
    rw [hagree n hn] at hw
    exact ih (h w i k hw hshown hk) (hinner n w i k hn hw hshown hk)

theorem Shallow.alike (h : p.Shallow depth n) (hq : p.Alike q) : q.Shallow depth n :=
  h.congr (P := fun _ => True) trivial (fun m _ => hq.widget? m) fun _ _ _ _ _ _ _ _ => trivial

theorem Shallow.grown (h : p.Shallow depth n) (hp : p.WellNested strict) (hq : p.Grown strict root q)
    (hn : n < p.document.size) : q.Shallow depth n :=
  h.congr (P := fun m => m < p.document.size) hn (fun m hm => widget?_congr (hq.old m hm))
    fun m w i _ _ hw hshown hk => (Instance.toFlush_bounds ((hp.living m w hw).shown i hshown) hk).2

/-- What is within an element does not depend on the elements before it. -/
theorem Shallow.above {k : NodeId} (h : p.Shallow depth k) (hp : p.WellNested strict) (hk : n < k)
    (hagree : ∀ m, n < m → q.widget? m = p.widget? m) : q.Shallow depth k :=
  h.congr (P := fun m => n < m) hk hagree fun m w i _ hm hw hshown hk =>
    Nat.lt_trans hm (Instance.toFlush_bounds ((hp.living m w hw).shown i hshown) hk).1

/-- An element with the tag needs no more than so many elements within each other. -/
def Fits (p : Page) : Nat → String → Namespace → Prop
  | 0, _, _ => False
  | depth + 1, tag, ns => ns = .html → ∀ d t initial, p.registry.get? tag = some d → d.kind = .widget t initial →
      ∀ s inner ns', .createElement s inner ns' ∈ t.build → p.Fits depth inner ns'

theorem Fits.congr (h : p.Fits depth tag ns) (hregistry : q.registry = p.registry) : q.Fits depth tag ns := by
  induction depth generalizing tag ns with
  | zero => exact h
  | succ depth ih =>
    intro hns d t initial hd hkind s inner ns' hop
    rw [hregistry] at hd
    exact ih (h hns d t initial hd hkind s inner ns' hop)

end Page

/-- Up to a depth, elements can be created and flushed. -/
structure Host.Reaches (strict : Prop) (host : Host) (depth : Nat) : Prop where
  create : ∀ tag ns p, p.WellNested strict → p.Fits depth tag ns → ∃ n q, host.create tag ns p = some (n, q)
  made : ∀ tag ns p n q, host.create tag ns p = some (n, q) → p.WellNested strict → q.Shallow depth n
  flush : ∀ n p, p.WellNested strict → (∀ m, p.IsBusy m → m < n) → p.Shallow depth n →
    ∃ result q, host.flush n p = some (result, q)

namespace Instance

variable {w : Widget}

theorem runSteps_returns (hflush : host.Flushes strict) (hreach : host.Reaches strict depth)
    {excused : NodeId → Prop} {steps : List RefreshStep} (hp : p.WellNested strict)
    (hprep : i.Prepared strict excused steps p) (hshallow : ∀ k, i.ToFlush steps k → p.Shallow depth k) :
    ∃ r q, i.runSteps host steps p = some (r, q) := by
  induction steps generalizing p with
  | nil => exact ⟨_, _, Act.pure_eq_some.mpr ⟨rfl, rfl⟩⟩
  | cons step rest ih =>
    have hexec : ∃ done p₁, i.exec host step.op p = some (done, p₁) := by
      refine exec_returns (fun s tag ns hop => ?_) fun s k hop hk => ?_
      · have hplace := hprep.inPlace step List.mem_cons_self
        rw [hop] at hplace
        exact hplace.elim
      · exact hreach.flush k p hp (hprep.young step List.mem_cons_self s k hop hk)
          (hshallow k ⟨step, List.mem_cons_self, s, hop, hk⟩)
    obtain ⟨done, p₁, hexec⟩ := hexec
    obtain ⟨hsteady, -, -⟩ := exec_drains hflush hp hprep hexec
    have hsteady' := hsteady.trans (steady_stepWarned .refresh step.op done p₁)
    have hlater : ∀ k, i.ToFlush rest k → (stepWarned .refresh step.op done p₁).Shallow depth k := by
      rintro k ⟨step', hstep', hk⟩
      exact (hshallow k ⟨step', List.mem_cons_of_mem _ hstep', hk⟩).alike hsteady'.toAlike
    obtain ⟨r, q, hrest⟩ := ih (hp.steady hsteady') (hprep.tail hsteady') hlater
    exact ⟨_, q, runSteps_cons.mpr ⟨done, p₁, r, hexec, hrest, rfl⟩⟩

theorem deliverRounds_returns (hflush : host.Flushes strict) (hreach : host.Reaches strict depth)
    (hp : p.WellNested strict) (hw : p.widget? n = some w) (hshown : w.shown = some i) (hbusy : p.IsBusy n)
    (hyoung : ∀ m, p.IsBusy m → m ≤ n) (hshallow : p.Shallow (depth + 1) n) (rounds : Nat) :
    ∃ r q, i.deliverRounds host rounds p = some (r, q) := by
  induction rounds generalizing p with
  | zero => exact ⟨.empty, _, Act.bind_eq_some.mpr
      ⟨(), _, Act.modify_eq_some.mpr rfl, Act.pure_eq_some.mpr ⟨rfl, rfl⟩⟩⟩
  | succ rounds ih =>
    have hlives := hp.living n w hw
    have hcomponent := (hlives.shown i hshown).component
    have hfree : p.access i.component = .free := hcomponent ▸ hlives.free
    cases hpending : (p.component i.component).pending.isEmpty with
    | true => exact ⟨_, _, (Delivered.idle hfree hpending).deliverRounds⟩
    | false =>
      have hclear := p.steady_clear i.component
      have hp' := hp.steady hclear
      have hw' := (hclear.widget? n).trans hw
      have hbusy' := (hclear.isBusy n).mpr hbusy
      have hyoung' : ∀ m, (p.modifyComponent i.component (·.clearChanges)).IsBusy m → m ≤ n :=
        fun m hm => hyoung m ((hclear.isBusy m).mp hm)
      have hprep := prepared_refresh hp' hw' hshown hbusy' hyoung' (p.component i.component).pending
      obtain ⟨first, p₁, hfirst⟩ := runSteps_returns hflush hreach hp' hprep fun k ⟨step, hstep, hk⟩ =>
        (hshallow.alike hclear.toAlike) w i k hw' hshown ⟨step, List.mem_of_mem_filter hstep, hk⟩
      obtain ⟨hsteady, -⟩ := refresh_confined hflush hp' hw' hshown hbusy' hyoung' hfirst
      have hall := hclear.trans hsteady
      obtain ⟨others, q, hothers⟩ := ih (hp.steady hall) ((hall.widget? n).trans hw)
        ((hall.isBusy n).mpr hbusy) (fun m hm => hyoung m ((hall.isBusy m).mp hm)) (hshallow.alike hall.toAlike)
      exact ⟨_, q, (Delivered.round hfree hpending hfirst (deliverRounds_delivered hothers)).deliverRounds⟩

end Instance

theorem flushWith_returns {strict : Prop} (hflush : host.Flushes strict) (hreach : host.Reaches strict depth)
    (hp : p.WellNested strict) (hyoung : ∀ m, p.IsBusy m → m < n) (hshallow : p.Shallow (depth + 1) n) :
    ∃ result q, flushWith host n p = some (result, q) := by
  have hfree : ¬p.IsBusy n := fun hbusy => Nat.lt_irrefl n (hyoung n hbusy)
  cases he : p.custom? n with
  | none => exact ⟨_, _, flushWith_plain he⟩
  | some e =>
    have hcustom := Page.isCustom_of_custom? he
    obtain ⟨w, -, hw⟩ := hp.behaviour he
    obtain ⟨i, hshown⟩ := (hp.living n w hw).connected hfree
    have hbusy := p.alike_setBusy n true
    obtain ⟨hp', hbusy', hyoung'⟩ := hp.setBusy hcustom hyoung
    obtain ⟨report, q, hdeliver⟩ := Instance.deliverRounds_returns hflush hreach hp' ((hbusy.widget? n).trans hw)
      hshown hbusy' hyoung' (hshallow.alike hbusy) Instance.maxRounds
    exact ⟨_, _, (flushWith_eq_some hp hw hshown hfree).mpr ⟨report, q, hdeliver, rfl, rfl⟩⟩

namespace Instance

/-- The elements that the instructions have created can be flushed. -/
def MadeShallow (i : Instance) (depth : Nat) (done : List Op) (p : Page) : Prop :=
  ∀ s tag ns n, .createElement s tag ns ∈ done → i.node? s = some n → p.Shallow depth n

variable {p₀ : Page} {k : Nat} {op : Op} {rest done : List Op}

theorem MadeShallow.steady (h : i.MadeShallow depth done p) (hop : op.bound? = none) (hq : p.Steady q) :
    i.MadeShallow depth (done ++ [op]) q := by
  intro s tag ns n hmem hn
  rcases List.mem_append.mp hmem with hmem | hmem
  · exact (h s tag ns n hmem hn).alike hq.toAlike
  · cases List.mem_singleton.mp hmem
    cases hop

theorem MadeShallow.bind (h : i.MadeShallow depth done p) (hreach : host.Reaches strict depth)
    (hunder : i.Underway strict root p₀ k (op :: rest) p) (hdone : Op.Sequence 0 done k) (hop : op.bound? = some k)
    {step : Step} (hexec : i.execBuild host root op p = some (step, q)) (hq : p.Grown strict none q)
    {n : Option NodeId} (hinst : step.inst = i.bind k n) : step.inst.MadeShallow depth (done ++ [op]) q := by
  intro s tag ns m hmem hm
  rcases List.mem_append.mp hmem with hmem | hmem
  · have hs : s < k := hdone.mentions_lt _ hmem s (List.mem_singleton_self s)
    rw [hinst, node?_bind_of_ne (Nat.ne_of_lt hs)] at hm
    exact (h s tag ns m hmem hm).grown hunder.grown.wellNested hq (hunder.node_lt hm)
  · cases List.mem_singleton.mp hmem
    cases hop
    obtain ⟨m', hcreate, rfl⟩ := exec_createElement.mp hexec
    obtain ⟨-, hmade⟩ := node?_bind_of_unbound (hunder.unbound k (Nat.le_refl k)) hm
    cases hmade
    exact hreach.made tag ns p m q hcreate hunder.grown.wellNested

theorem MadeShallow.warned (h : i.MadeShallow depth done p) (phase : Phase) (step : Step) :
    i.MadeShallow depth done (stepWarned phase op step p) := fun s tag ns n hmem hn =>
  (h s tag ns n hmem hn).alike (steady_stepWarned phase op step p).toAlike

theorem execBuild_returns (hreach : host.Reaches strict depth) {k' : Nat} (hseq : Op.Sequence k (op :: rest) k')
    (h : i.Underway strict root p₀ k (op :: rest) p) (hbuild : i.template.build = done ++ op :: rest)
    (htends : i.template.Tends (p₀.Tended strict)) (hshallow : i.MadeShallow depth done p)
    (hfits : ∀ s tag ns, .createElement s tag ns ∈ op :: rest → p.Fits depth tag ns) :
    ∃ step q, i.execBuild host root op p = some (step, q) := by
  have hmem : op ∈ i.template.build := hbuild ▸ List.mem_append_right _ List.mem_cons_self
  have hp := h.grown.wellNested
  by_cases hadopt : ∃ s, op = .adoptRoot s
  · obtain ⟨s, rfl⟩ := hadopt
    exact ⟨_, _, execBuild_adoptRoot.mpr ⟨rfl, rfl⟩⟩
  rw [execBuild_eq_exec fun s heq => hadopt ⟨s, heq⟩]
  refine exec_returns ?_ ?_
  · rintro s tag ns rfl
    exact hreach.create tag ns p hp (hfits s tag ns List.mem_cons_self)
  · rintro s n rfl hn
    obtain ⟨tag, ns, hmade⟩ := htends.build_made s hmem
    have hs : s < k := by
      by_contra hle
      rw [h.unbound s (Nat.not_lt.mp hle)] at hn
      cases hn
    -- the slot is bound, so its element was created before
    have hdone : .createElement s tag ns ∈ done := by
      rw [hbuild] at hmade
      refine (List.mem_append.mp hmade).resolve_right fun hlater => ?_
      exact hseq.not_bound_below _ hlater s hs rfl
    exact hreach.flush n p hp (fun m => h.busy_lt (h.created_le htends hmem hn)) (hshallow s tag ns n hdone hn)

/-- A build returns when the elements it is to create fit. -/
theorem runBuild_returns (hcreate : host.Creates strict) (hflush : host.Flushes strict)
    (hreach : host.Reaches strict depth) {k' : Nat} {ops : List Op} (hseq : Op.Sequence k ops k')
    (h : i.Underway strict root p₀ k ops p) (hbuild : i.template.build = done ++ ops)
    (htends : i.template.Tends (p₀.Tended strict)) (hroot : ∀ r, root = some r → r < p₀.document.size)
    (hlen : k' ≤ i.slots.length) (hdone : Op.Sequence 0 done k) (hshallow : i.MadeShallow depth done p)
    (hfits : ∀ s tag ns, .createElement s tag ns ∈ ops → p₀.Fits depth tag ns) :
    ∃ result q, i.runBuild host root ops p = some (result, q) := by
  induction hseq generalizing i p done with
  | nil => exact ⟨_, _, Act.pure_eq_some.mpr ⟨rfl, rfl⟩⟩
  | @bind k k' op rest hop hrest ih =>
    obtain ⟨step, p₁, hexec⟩ := execBuild_returns hreach (.bind hop hrest) h hbuild htends hshallow
      fun s tag ns hmem => (hfits s tag ns hmem).congr h.grown.registry
    obtain ⟨hgrown, n, hinst, hnext⟩ := execBuild_binds hcreate h hbuild htends hroot
      (Nat.lt_of_lt_of_le hrest.le hlen) hop hexec
    have hshallow' := hshallow.bind hreach h hdone hop hexec hgrown hinst
    rw [hinst] at hnext hshallow'
    obtain ⟨⟨i', r⟩, q, hrun⟩ := ih (i := i.bind k n) (hnext.warned .build step)
      (by rw [List.append_cons] at hbuild; exact hbuild) htends (by simpa using hlen)
      (hdone.append (.bind hop .nil)) (hshallow'.warned .build step)
      fun s tag ns hmem => hfits s tag ns (List.mem_cons_of_mem _ hmem)
    exact ⟨_, q, runBuild_cons.mpr ⟨step, p₁, r, hexec, hinst ▸ hrun, rfl⟩⟩
  | @use k k' op rest hop huse hrest ih =>
    obtain ⟨step, p₁, hexec⟩ := execBuild_returns hreach (.use hop huse hrest) h hbuild htends hshallow
      fun s tag ns hmem => (hfits s tag ns hmem).congr h.grown.registry
    obtain ⟨hsteady, hnext⟩ := execBuild_uses hflush h hbuild htends hop hexec
    obtain ⟨⟨i', r⟩, q, hrun⟩ := ih (hnext.warned .build step)
      (by rw [List.append_cons] at hbuild; exact hbuild) htends hlen (hdone.append (.use hop huse .nil))
      ((hshallow.steady hop hsteady).warned .build step)
      fun s tag ns hmem => hfits s tag ns (List.mem_cons_of_mem _ hmem)
    have hinst := execBuild_inst_of_not_bound hop hexec
    exact ⟨_, q, runBuild_cons.mpr ⟨step, p₁, r, hexec, hinst.symm ▸ hrun, rfl⟩⟩

end Instance

namespace Template

theorem madeShallow_unbuilt (c : ComponentId) (sink : Sink) (depth : Nat) (p : Page) :
    (t.unbuilt c sink).MadeShallow depth [] p :=
  fun _ _ _ _ hmem => absurd hmem List.not_mem_nil

/-- What a built instance flushes can be flushed. -/
theorem buildOn_shallow (hcreate : host.Creates strict) (hflush : host.Flushes strict)
    (hreach : host.Reaches strict depth) {sink : Sink} {report : Report} (hp : p.WellNested strict)
    (htends : t.Tends (p.Tended strict)) (h : t.buildOn host c root sink p = some (.ok (i, report), q)) {k : NodeId}
    (hk : i.ToFlush i.template.refresh k) : q.Shallow depth k := by
  obtain ⟨_, _, heq, -, htemplate, -⟩ := buildOn_underway hcreate hflush hp htends (obstacle?_of_buildOn h) h
  cases heq
  have hshallow : i.MadeShallow depth t.build q := by
    refine buildOn_invariant hcreate hflush (P := fun done i p => i.MadeShallow depth done p)
      ⟨fun hunder _ hdone hop _ hexec hgrown hinst hmade => ?_, fun _ _ _ hop _ hsteady hmade => ?_⟩ (fun _ h => h) hp
      htends (madeShallow_unbuilt c sink depth p) h
    · exact hinst ▸ (hmade.bind hreach hunder hdone hop hexec hgrown hinst).warned .build _
    · exact (hmade.steady hop hsteady).warned .build _
  obtain ⟨step, hstep, s, hop, hnode⟩ := hk
  rw [htemplate] at hstep
  obtain ⟨tag, ns, hmade⟩ := htends.refresh_made step hstep s hop
  exact hshallow s tag ns k hmade hnode

theorem buildOn_returns (hcreate : host.Creates strict) (hflush : host.Flushes strict)
    (hreach : host.Reaches strict depth) (sink : Sink) (hp : p.WellNested strict) (htends : t.Tends (p.Tended strict))
    (hobstacle : t.obstacle? c root p = none)
    (hfits : ∀ s tag ns, .createElement s tag ns ∈ t.build → p.Fits depth tag ns) :
    ∃ i report q, t.buildOn host c root sink p = some (.ok (i, report), q) := by
  have hlen : t.slotNames.length ≤ (t.unbuilt c sink).slots.length := by simp [unbuilt]
  obtain ⟨⟨i, r⟩, q, hrun⟩ := Instance.runBuild_returns hcreate hflush hreach htends.sequence
    (underway_unbuilt hp c sink) (List.nil_append _).symm htends (root_within hobstacle) hlen .nil
    (madeShallow_unbuilt c sink depth p) hfits
  have hbuild := (buildOn_eq_some hobstacle).mpr ⟨i, r, hrun, rfl⟩
  obtain ⟨i', report, heq, -⟩ := buildOn_underway hcreate hflush hp htends hobstacle hbuild
  exact ⟨i', report, q, heq ▸ hbuild⟩

end Template

/-- A new element can be flushed, and so can what is within it. -/
theorem connectElement_shallow (hcreate : host.Creates strict) (hflush : host.Flushes strict)
    (hreach : host.Reaches strict depth) {kind : NodeKind} {u : Unit} (hp : p.WellNested strict)
    (hd : p.registry.get? tag = some d)
    (h : connectElement host tag p.document.size d { p with document := p.document.push kind } =
      some (u, q)) : q.Shallow (depth + 1) p.document.size := by
  obtain ⟨t, _, p₁, i, k, _, r, -, -, -, hconnecting, hp₁, htends, hbuild, -, -, hi, hhoused, rfl⟩ :=
    connectElement_underway hcreate hflush hp hd h
  obtain ⟨hgrown, hwidget, -⟩ := hconnecting.grown hp hi hhoused r.connecting.dropLast rfl
  refine Page.Shallow.alike ?_ (Page.applyDeferred_touched hgrown.wellNested _).steady.toAlike
  intro w' i' m hw' hshown hm
  rw [hwidget] at hw'
  cases hw'
  cases hshown
  have hinner := Template.buildOn_shallow hcreate hflush hreach hp₁ htends hbuild hm
  refine hinner.above hi.grown.wellNested (Instance.toFlush_bounds hhoused hm).1 fun m' hm' => ?_
  refine Page.widget?_congr ?_
  rw [Page.custom?_modifyCustom, if_neg (Nat.ne_of_gt hm')]
  rfl

theorem connectElement_returns (hcreate : host.Creates strict) (hflush : host.Flushes strict)
    (hreach : host.Reaches strict depth) {kind : NodeKind} (hp : p.WellNested strict)
    (hd : p.registry.get? tag = some d) (hfits : p.Fits (depth + 1) tag .html) :
    ∃ q, connectElement host tag p.document.size d { p with document := p.document.push kind } = some ((), q) := by
  obtain ⟨t, initial, hkind, hadopts, htends, -, hconnecting⟩ := Page.instantiate_connecting hp hd kind
  obtain ⟨i, report, r, hbuild⟩ := Template.buildOn_returns hcreate hflush hreach .warnings
    (hconnecting.wellNested hp) (Page.tended_congr hconnecting.registry ▸ htends) (hconnecting.obstacle? hadopts)
    fun s inner ns hop => (hfits rfl d t initial hd hkind s inner ns hop).congr hconnecting.registry
  exact ⟨_, connectElement_of_buildOn hkind hbuild⟩

theorem createElementWith_shallow (hcreate : host.Creates strict) (hflush : host.Flushes strict)
    (hreach : host.Reaches strict depth) (hp : p.WellNested strict)
    (h : createElementWith host tag ns p = some (n, q)) : q.Shallow (depth + 1) n := by
  obtain ⟨rfl, ⟨-, rfl⟩ | ⟨d, -, hd, hconnect⟩⟩ := createElementWith_eq_some.mp h
  · intro w i k hw
    have hnone : p.widget? p.document.size = none := by
      rw [Page.widget?, hp.custom?_eq_none (Nat.le_refl _)]
      rfl
    cases hnone.symm.trans hw
  · exact connectElement_shallow hcreate hflush hreach hp hd hconnect

theorem createElementWith_returns (hcreate : host.Creates strict) (hflush : host.Flushes strict)
    (hreach : host.Reaches strict depth) (hp : p.WellNested strict) (hfits : p.Fits (depth + 1) tag ns) :
    ∃ n q, createElementWith host tag ns p = some (n, q) := by
  by_cases hplain : ns = .html → p.registry.get? tag = none
  · exact ⟨_, _, createElementWith_eq_some.mpr ⟨rfl, Or.inl ⟨hplain, rfl⟩⟩⟩
  · obtain ⟨hns, hdefined⟩ := Classical.not_imp.mp hplain
    obtain ⟨d, hd⟩ := Option.ne_none_iff_exists'.mp hdefined
    subst hns
    obtain ⟨q, hconnect⟩ := connectElement_returns hcreate hflush hreach hp hd hfits
    exact ⟨_, q, createElementWith_eq_some.mpr ⟨rfl, Or.inr ⟨d, rfl, hd, hconnect⟩⟩⟩

/-- Elements within elements can be created and flushed as deep as the services go. -/
theorem hostTo_reaches (depth : Nat) : (hostTo depth).Reaches strict depth := by
  induction depth with
  | zero =>
    refine ⟨fun _ _ _ _ hfits => hfits.elim, fun _ _ _ _ _ h => ?_, fun _ _ _ _ hshallow => hshallow.elim⟩
    cases h
  | succ depth ih =>
    have hcreate : (hostTo depth).Creates strict := hostTo_creates depth
    have hflush : (hostTo depth).Flushes strict := hostTo_flushes depth
    exact ⟨fun _ _ _ hp hfits => createElementWith_returns hcreate hflush ih hp hfits,
      fun _ _ _ _ _ h hp => createElementWith_shallow hcreate hflush ih hp h,
      fun _ _ hp hyoung hshallow => flushWith_returns hflush ih hp hyoung hshallow⟩

namespace Page

/-- The widgets with one tag hold elements with another, which is defined too. -/
def Nests (p : Page) (outer inner : String) : Prop :=
  p.Defines inner ∧ ∃ d t initial, p.registry.get? outer = some d ∧ d.kind = .widget t initial ∧
    inner ∈ t.createdTags

/-- There is no endless chain of tags that hold each other. -/
def NestsFinitely (p : Page) (tag : String) : Prop :=
  Acc (fun inner outer => p.Nests outer inner) tag

theorem NestsFinitely.not_transGen_self (h : p.NestsFinitely tag) : ¬Relation.TransGen p.Nests tag tag := by
  induction h with
  | intro tag _ ih =>
    intro hself
    obtain ⟨inner, hinner, hback⟩ := Relation.TransGen.head'_iff.mp hself
    exact ih inner hinner (.tail' hback hinner)

theorem mem_keys_of_get? (h : p.registry.get? tag = some d) : tag ∈ p.registry.keys :=
  List.mem_map_of_mem (mem_of_lookupKey h)

theorem mem_keys_of_transGen {outer inner : String} (h : Relation.TransGen p.Nests outer inner) :
    outer ∈ p.registry.keys := by
  obtain ⟨_, ⟨-, d, -, -, hd, -⟩, -⟩ := Relation.TransGen.head'_iff.mp h
  exact mem_keys_of_get? hd

theorem fits_of_not_defines (h : ns = .html → ¬p.Defines tag) (depth : Nat) : p.Fits (depth + 1) tag ns := by
  intro hns d t initial hd
  exact absurd (defines_of_get? hd) (h hns)

theorem nestsFinitely_of_not_defines (h : ¬p.Defines tag) : p.NestsFinitely tag :=
  ⟨_, fun _ ⟨_, _, _, _, hd, _⟩ => absurd (defines_of_get? hd) h⟩

/-- Tags that hold each other are different, so there are no more levels than tags. -/
theorem NestsFinitely.fits {around : List String} (h : p.NestsFinitely tag) (hdistinct : around.Nodup)
    (haround : ∀ outer ∈ around, Relation.TransGen p.Nests outer tag)
    (hdepth : p.registry.size ≤ around.length + depth) : p.Fits (depth + 1) tag .html := by
  induction depth generalizing around tag with
  | zero =>
    intro _ d t initial hd
    have hnew : tag ∉ around := fun hmem => h.not_transGen_self (haround tag hmem)
    have hkeys : tag :: around ⊆ p.registry.keys := by
      intro outer houter
      rcases List.mem_cons.mp houter with rfl | houter
      · exact mem_keys_of_get? hd
      · exact mem_keys_of_transGen (haround outer houter)
    have hmore := ((List.nodup_cons.mpr ⟨hnew, hdistinct⟩).subperm hkeys).length_le
    rw [Dict.keys, List.length_map] at hmore
    exact absurd hdepth (Nat.not_le.mpr hmore)
  | succ depth ih =>
    intro _ d t initial hd hkind s inner ns hop
    by_cases hdefined : ns = .html ∧ p.Defines inner
    · obtain ⟨rfl, hdefined⟩ := hdefined
      have hnests : p.Nests tag inner := ⟨hdefined, d, t, initial, hd, hkind, Template.mem_createdTags hop⟩
      have hnew : tag ∉ around := fun hmem => h.not_transGen_self (haround tag hmem)
      refine ih (h.inv hnests) (List.nodup_cons.mpr ⟨hnew, hdistinct⟩) ?_ ?_
      · intro outer houter
        rcases List.mem_cons.mp houter with rfl | houter
        · exact .single hnests
        · exact (haround outer houter).tail hnests
      · rw [List.length_cons, Nat.add_right_comm]
        exact hdepth
    · exact fits_of_not_defines (fun hns hinner => hdefined ⟨hns, hinner⟩) depth

theorem NestsFinitely.fits_nesting (h : p.NestsFinitely tag) : p.Fits p.nesting tag .html :=
  h.fits List.nodup_nil (fun _ hmem => absurd hmem List.not_mem_nil) (Nat.le_of_eq (Nat.zero_add _).symm)

end Page

/-- A build returns if the elements it creates nest finitely. -/
theorem Template.instantiate_returns (sink : Sink) (hp : p.WellNested strict) (htends : t.Tends (p.Tended strict))
    (hobstacle : t.obstacle? c root p = none) (hfinite : ∀ tag ∈ t.createdTags, p.NestsFinitely tag) :
    ∃ i report q, t.instantiate c root sink p = some (.ok (i, report), q) := by
  have hfits : ∀ s tag ns, .createElement s tag ns ∈ t.build → p.Fits p.nesting tag ns := by
    intro s tag ns hop
    by_cases hns : ns = .html
    · subst hns
      exact (hfinite tag (mem_createdTags hop)).fits_nesting
    · exact Page.fits_of_not_defines (fun heq => absurd heq hns) _
  obtain ⟨i, report, q, hbuild⟩ := buildOn_returns (hostTo_creates p.nesting) (hostTo_flushes p.nesting)
    (hostTo_reaches p.nesting) sink hp htends hobstacle hfits
  exact ⟨i, report, q, withHost_eq_some.mpr hbuild⟩

end LiveMarkup
