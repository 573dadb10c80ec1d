import LiveMarkup.Proofs.ReachedPage

namespace LiveMarkup

/-- What is going on: an element is to be created or flushed, or an instance has instructions of its build or
steps of a refresh left to run. -/
inductive Activity where
  | create (tag : String) (ns : Namespace)
  | flush (n : NodeId)
  | build (i : Instance) (root : Option NodeId) (ops : List Op)
  | refresh (i : Instance) (steps : List RefreshStep)

namespace Page

/-- No element is connecting, and no write waits for one. -/
def Quiet (p : Page) : Prop :=
  p.connecting = [] ∧ p.deferred = []

/-- The page on which the template of a new element is built. -/
def startConnecting (p : Page) (tag : String) (d : Definition) : Page :=
  { p with document := p.document.push (.element (.ofTag tag .html)) }.beginConnecting p.document.size d

/-- The moments of all that goes on at a page and within it, each with what comes next and with how deep elements may
still nest. A delivery refreshes with the changes that it has taken. -/
inductive During : Nat → Page → Activity → Prop
  | create {p : Page} (hp : p.Reached) (hquiet : p.Quiet) (tag : String) (ns : Namespace) :
      During p.nesting p (.create tag ns)
  | flush {p : Page} (hp : p.Reached) (hquiet : p.Quiet) (n : NodeId) : During p.nesting p (.flush n)
  | build {p : Page} (hp : p.Reached) (hquiet : p.Quiet) {t : Template} (ht : t.Compiled) {c : ComponentId}
      {root : Option NodeId} (hfits : t.obstacle? c root p = none) (sink : Sink) :
      During p.nesting p (.build (t.unbuilt c sink) root t.build)
  | refresh {p : Page} (hp : p.Reached) (hquiet : p.Quiet) {i : Instance} (hi : i.template.Compiled)
      (changed : Names) :
      During p.nesting p (.refresh i (i.template.refresh.filter fun s => s.triggeredBy changed))
  | built {depth : Nat} {p q : Page} {i : Instance} {root : Option NodeId} {op : Op} {rest : List Op} {step : Step}
      (h : During depth p (.build i root (op :: rest))) (hexec : i.execBuild (hostTo depth) root op p = some (step, q)) :
      During depth (Instance.stepWarned .build op step q) (.build step.inst root rest)
  | refreshed {depth : Nat} {p q : Page} {i : Instance} {s : RefreshStep} {rest : List RefreshStep} {step : Step}
      (h : During depth p (.refresh i (s :: rest))) (hexec : i.exec (hostTo depth) s.op p = some (step, q)) :
      During depth (Instance.stepWarned .refresh s.op step q) (.refresh i rest)
  | again {depth : Nat} {p : Page} {i : Instance} (h : During depth p (.refresh i [])) :
      During depth (p.modifyComponent i.component (·.clearChanges))
        (.refresh i (i.template.refresh.filter fun s => s.triggeredBy (p.component i.component).pending))
  | creates {depth : Nat} {p : Page} {i : Instance} {root : Option NodeId} {s : Slot} {tag : String} {ns : Namespace}
      {rest : List Op} (h : During depth p (.build i root (.createElement s tag ns :: rest))) :
      During depth p (.create tag ns)
  | flushesBuilt {depth : Nat} {p : Page} {i : Instance} {root : Option NodeId} {s : Slot} {rest : List Op}
      {n : NodeId} (h : During depth p (.build i root (.flushNested s :: rest))) (hn : i.node? s = some n) :
      During depth p (.flush n)
  | flushes {depth : Nat} {p : Page} {i : Instance} {step : RefreshStep} {rest : List RefreshStep} {s : Slot}
      {n : NodeId} (h : During depth p (.refresh i (step :: rest))) (hop : step.op = .flushNested s)
      (hn : i.node? s = some n) : During depth p (.flush n)
  | connects {depth : Nat} {p : Page} {tag : String} {d : Definition} {t : Template} {initial : Blueprint}
      (h : During (depth + 1) p (.create tag .html)) (hd : p.registry.get? tag = some d)
      (hkind : d.kind = .widget t initial) :
      During depth (p.startConnecting tag d)
        (.build (t.unbuilt p.components.size .warnings) (some p.document.size) t.build)
  | delivers {depth : Nat} {p : Page} {n : NodeId} {w : Widget} {i : Instance}
      (h : During (depth + 1) p (.flush n)) (hw : p.widget? n = some w) (hi : w.shown = some i) :
      During depth ((p.setBusy n true).modifyComponent w.component (·.clearChanges))
        (.refresh i (i.template.refresh.filter fun s => s.triggeredBy (p.component w.component).pending))

end Page

/-- A build that has come to the given instructions. -/
structure Instance.Building (i : Instance) (root : Option NodeId) (ops : List Op) (p : Page) : Prop where
  tends : i.template.Tends fun _ => False
  underway : ∃ p₀ k k', i.Underway False root p₀ k ops p ∧ (∀ r, root = some r → r < p₀.document.size) ∧
    Op.Sequence k ops k' ∧ k' ≤ i.slots.length
  rest : ∃ done, i.template.build = done ++ ops

/-- A refresh that has come to the given steps, and could be repeated. -/
structure Instance.Refreshing (i : Instance) (steps : List RefreshStep) (p : Page) : Prop where
  prepared : i.Prepared False (fun _ => False) steps p
  always : ∀ changed, i.Prepared False (fun _ => False) (i.template.refresh.filter fun s => s.triggeredBy changed) p

/-- What may be relied on: that an element to be flushed came after all busy ones, and that builds and refreshes are
well under way. -/
def Activity.Ready (p : Page) : Activity → Prop
  | .create _ _ => True
  | .flush n => ∀ m, p.IsBusy m → m < n
  | .build i root ops => i.Building root ops p
  | .refresh i steps => i.Refreshing steps p

namespace Instance

variable {p q : Page} {i : Instance} {root : Option NodeId} {depth : Nat}

theorem Refreshing.steady {steps : List RefreshStep} (h : i.Refreshing steps p) (hq : p.Steady q) :
    i.Refreshing steps q :=
  ⟨h.prepared.steady hq, fun changed => (h.always changed).steady hq⟩

theorem Refreshing.start (h : ∀ changed,
      i.Prepared False (fun _ => False) (i.template.refresh.filter fun s => s.triggeredBy changed) p)
    (changed : Names) : i.Refreshing (i.template.refresh.filter fun s => s.triggeredBy changed) p :=
  ⟨h changed, h⟩

/-- The next instruction of a build either binds the next slot or leaves the elements as they are. -/
theorem Building.next {op : Op} {rest : List Op} {step : Step} (h : i.Building root (op :: rest) p)
    (hexec : i.execBuild (hostTo depth) root op p = some (step, q)) :
    (stepWarned .build op step q).WellNested False ∧ step.inst.Building root rest (stepWarned .build op step q) := by
  obtain ⟨p₀, k, k', hunder, hroot, hseq, hlen⟩ := h.underway
  obtain ⟨done, hbuild⟩ := h.rest
  have htends : i.template.Tends (p₀.Tended False) := p₀.tended_false ▸ h.tends
  have hrest : i.template.build = (done ++ [op]) ++ rest := by
    rw [List.append_assoc]
    exact hbuild
  cases hseq with
  | bind hop hseq =>
    obtain ⟨-, n, hinst, hnext⟩ := execBuild_binds (hostTo_creates depth) hunder hbuild htends hroot
      (Nat.lt_of_lt_of_le hseq.le hlen) hop hexec
    have hwarned : step.inst.Underway False root p₀ (k + 1) rest (stepWarned .build op step q) :=
      hnext.warned .build step
    rw [hinst] at hwarned ⊢
    have hlen' : k' ≤ (i.bind k n).slots.length := by simpa using hlen
    exact ⟨hwarned.grown.wellNested, h.tends, ⟨p₀, k + 1, k', hwarned, hroot, hseq, hlen'⟩, done ++ [op], hrest⟩
  | use hop hused hseq =>
    obtain ⟨-, hnext⟩ := execBuild_uses (hostTo_flushes depth) hunder hbuild htends hop hexec
    have hwarned : i.Underway False root p₀ k rest (stepWarned .build op step q) := hnext.warned .build step
    rw [execBuild_inst_of_not_bound hop hexec]
    exact ⟨hwarned.grown.wellNested, h.tends, ⟨p₀, k, k', hwarned, hroot, hseq, hlen⟩, done ++ [op], hrest⟩

theorem Building.young {s : Slot} {rest : List Op} (h : i.Building root (.flushNested s :: rest) p) {n m : NodeId}
    (hn : i.node? s = some n) (hm : p.IsBusy m) : m < n := by
  obtain ⟨p₀, k, k', hunder, -⟩ := h.underway
  obtain ⟨done, hbuild⟩ := h.rest
  have hop : .flushNested s ∈ i.template.build := hbuild ▸ List.mem_append_right _ List.mem_cons_self
  exact hunder.busy_lt (hunder.created_le (p₀.tended_false ▸ h.tends) hop hn) hm

theorem Building.start {t : Template} (hp : p.WellNested False) (ht : t.Tends fun _ => False) (c : ComponentId)
    (hroot : ∀ r, root = some r → r < p.document.size) (sink : Sink) :
    (t.unbuilt c sink).Building root t.build p where
  tends := ht
  underway := ⟨p, 0, _, Template.underway_unbuilt hp c sink, hroot, ht.sequence, by simp [Template.unbuilt]⟩
  rest := ⟨[], rfl⟩

theorem Refreshing.next {s : RefreshStep} {rest : List RefreshStep} {step : Step} (hp : p.WellNested False)
    (h : i.Refreshing (s :: rest) p) (hexec : i.exec (hostTo depth) s.op p = some (step, q)) :
    p.Steady (stepWarned .refresh s.op step q) ∧ i.Refreshing rest (stepWarned .refresh s.op step q) := by
  have hsteady := (exec_drains (hostTo_flushes depth) hp h.prepared hexec).1.trans
    (steady_stepWarned .refresh s.op step q)
  exact ⟨hsteady, h.prepared.tail hsteady, fun changed => (h.always changed).steady hsteady⟩

end Instance

namespace Page

variable {p : Page} {depth : Nat}

theorem WellNested.startConnecting (hp : p.WellNested False) {tag : String} {d : Definition} {t : Template}
    {initial : Blueprint} (hd : p.registry.get? tag = some d) (hkind : d.kind = .widget t initial) :
    t.createsRoot = false ∧ t.Tends (fun _ => False) ∧
      p.Connecting p.document.size t (p.startConnecting tag d) := by
  obtain ⟨t', initial', hkind', hadopts, htends, -, hconnecting⟩ :=
    instantiate_connecting hp hd (.element (.ofTag tag .html))
  cases hkind.symm.trans hkind'
  exact ⟨hadopts, p.tended_false ▸ htends, hconnecting⟩

/-- At every moment the page is well nested, and ready for what comes next. -/
theorem During.ready {a : Activity} (h : p.During depth a) : p.WellNested False ∧ a.Ready p := by
  induction h with
  | create hp _ tag ns => exact ⟨hp.sound.1.wellNested, trivial⟩
  | flush hp _ n => exact ⟨hp.sound.1.wellNested, fun m hm => absurd hm (hp.sound.1.calm m)⟩
  | build hp _ ht hfits sink =>
    exact ⟨hp.sound.1.wellNested, .start hp.sound.1.wellNested ht.tends _ (Template.root_within hfits) sink⟩
  | refresh hp _ hi changed =>
    exact ⟨hp.sound.1.wellNested, .start (Instance.prepared_calm hi hp.sound.1.calm) changed⟩
  | built _ hexec ih => exact ih.2.next hexec
  | refreshed _ hexec ih =>
    obtain ⟨hsteady, hnext⟩ := Instance.Refreshing.next ih.1 ih.2 hexec
    exact ⟨ih.1.steady hsteady, hnext⟩
  | @again _ p i _ ih =>
    have hclear := p.steady_clear i.component
    exact ⟨ih.1.steady hclear, .start (ih.2.steady hclear).always _⟩
  | creates _ ih => exact ⟨ih.1, trivial⟩
  | flushesBuilt _ hn ih => exact ⟨ih.1, fun m hm => ih.2.young hn hm⟩
  | flushes _ hop hn ih => exact ⟨ih.1, ih.2.prepared.young _ List.mem_cons_self _ _ hop hn⟩
  | connects _ hd hkind ih =>
    obtain ⟨hadopts, htends, hconnecting⟩ := ih.1.startConnecting hd hkind
    have hp := hconnecting.wellNested ih.1
    refine ⟨hp, .start hp htends _ ?_ .warnings⟩
    rintro r heq
    cases heq
    exact hconnecting.size.symm ▸ Nat.lt_succ_self _
  | @delivers depth p n w i _ hw hi ih =>
    have hcustom := isCustom_of_widget? hw
    obtain ⟨hp, hbusy, hyoung⟩ := ih.1.setBusy hcustom ih.2
    have hprepared := Instance.prepared_refresh hp (((p.alike_setBusy n true).widget? n).trans hw) hi hbusy hyoung
    have hclear := (p.setBusy n true).steady_clear w.component
    exact ⟨hp.steady hclear, .start (fun changed => (hprepared changed).steady hclear) _⟩

end Page

end LiveMarkup
