import LiveMarkup.Proofs.BusyElements
import LiveMarkup.Proofs.IsolatedSteps
import LiveMarkup.Proofs.Moments
import LiveMarkup.Proofs.SparedComponent

namespace LiveMarkup

variable {p : Page} {i : Instance} {n : NodeId} {w : Widget} {c : ComponentId} {host : Host} {depth : Nat}

theorem Report.append_empty (r : Report) : r.append .empty = r := by
  simp [Report.append, Report.empty]

theorem Component.clearChanges_of_isEmpty {c : Component} (h : c.pending.isEmpty = true) : c.clearChanges = c := by
  have hempty : c.pending = Dict.empty := by
    obtain ⟨name, props, methods, attachPoints, ⟨entries, hentries⟩⟩ := c
    obtain rfl : entries = [] := List.isEmpty_iff.mp h
    rfl
  rw [clearChanges, ← hempty]

namespace Page

theorem component_of_getElem? {q : Page} (h : q.components[c]? = p.components[c]?) :
    q.component c = p.component c := by
  rw [component, cell, h, component, cell]

theorem component_clear (p : Page) (c : ComponentId) :
    (p.modifyComponent c (·.clearChanges)).component c = (p.component c).clearChanges := by
  by_cases hc : c < p.components.size
  · exact component_modifyComponent hc _
  · have hnone : p.components[c]? = none := Array.getElem?_eq_none (Nat.not_lt.mp hc)
    rw [component, cell_modifyComponent, if_neg fun h => hc h.2, component, cell, hnone]
    rfl

/-- Where nothing is pending, there is nothing to take. -/
theorem modifyComponent_clear_of_isEmpty (h : (p.component c).pending.isEmpty = true) :
    p.modifyComponent c (·.clearChanges) = p := by
  refine congrArg (fun cells => { p with components := cells }) (Array.ext_getElem? fun k => ?_)
  rw [Array.getElem?_modify]
  by_cases hk : c = k
  · subst hk
    rw [if_pos rfl]
    cases hcell : p.components[c]? with
    | none => rfl
    | some cell =>
      rw [component, Page.cell, hcell, Option.getD_some] at h
      change some { cell with component := cell.component.clearChanges } = some cell
      rw [Component.clearChanges_of_isEmpty h]
  · rw [if_neg hk]

end Page

namespace Instance

/-- How a delivery goes, whatever receives the failures as long as it leaves the components alone
(`Receiver.LeavesComponents`). While the component is in use the delivery is put off, and while nothing is pending it
does nothing. Otherwise it takes all that is pending and is one refresh with that, and of the component nothing else
changes. Two rounds are always enough for it. -/
structure DeliversAtOnce (host : Host) (i : Instance) (p : Page) : Prop where
  postponed : p.access i.component ≠ .free →
    i.deliver host p = some (.empty, p.warn s!"{i.template.name}: component busy, delivery postponed")
  idle : p.access i.component = .free → (p.component i.component).pending.isEmpty = true →
    i.deliver host p = some (.empty, p)
  round : p.access i.component = .free → (p.component i.component).pending.isEmpty = false →
    i.deliver host p = i.refresh host (p.component i.component).pending
      (p.modifyComponent i.component (·.clearChanges))
  component : p.access i.component = .free → ∀ report q, i.deliver host p = some (report, q) →
    q.component i.component = (p.component i.component).clearChanges
  enough : ∀ rounds, i.deliverRounds host (rounds + 2) p = i.deliver host p

theorem deliverRounds_idle_eq (hfree : p.access i.component = .free)
    (hpending : (p.component i.component).pending.isEmpty = true) (rounds : Nat) :
    i.deliverRounds host (rounds + 1) p = some (.empty, p) := by
  rw [(Delivered.idle hfree hpending).deliverRounds, Page.modifyComponent_clear_of_isEmpty hpending]

theorem deliverRounds_succ_eq (hfree : p.access i.component = .free)
    (hpending : (p.component i.component).pending.isEmpty = false) (rounds : Nat) :
    i.deliverRounds host (rounds + 1) p =
      (i.refresh host (p.component i.component).pending (p.modifyComponent i.component (·.clearChanges))).bind
        fun r => (i.deliverRounds host rounds r.2).map fun r' => (r.1.append r'.1, r'.2) := by
  have hget : ∀ {α : Type} (g : Page → Act α), (get >>= g) p = g p p := fun _ => rfl
  rw [deliverRounds, hget]
  simp only [hfree, ne_eq, not_true, ↓reduceIte, hpending, Bool.false_eq_true]
  change ((i.refresh host _ (p.modifyComponent i.component (·.clearChanges))).bind fun r =>
    (i.deliverRounds host rounds r.2).bind fun r' => some (r.1.append r'.1, r'.2)) = _
  simp only [Option.map_eq_bind, Function.comp_def]

/-- A refresh with what has been taken leaves the component as it is, with nothing pending. -/
theorem refresh_drained (hp : p.WellNested False)
    (hprep : ∀ changed,
      i.Prepared False (fun _ => False) (i.template.refresh.filter fun s => s.triggeredBy changed) p)
    (hc : p.Secludes i.component) {changed : Names} {report : Report} {q : Page}
    (h : i.refresh (hostTo depth) changed (p.modifyComponent i.component (·.clearChanges)) = some (report, q)) :
    q.access i.component = p.access i.component ∧ q.component i.component = (p.component i.component).clearChanges := by
  have hclear := p.steady_clear i.component
  have hp' := hp.steady hclear
  have hprep' := (hprep changed).steady hclear
  have hkept := runSteps_spares (hostTo_flushes depth) (hostTo_spares depth) hp' hprep' (hc.steady hclear) report q h
  have hsteady := hclear.trans (runSteps_drains (hostTo_flushes depth) hp' hprep' h).1
  exact ⟨hsteady.access _, (Page.component_of_getElem? hkept).trans (p.component_clear _)⟩

/-- The refresh makes no changes of its own, so the second round finds nothing to do. -/
theorem deliverRounds_one_round (hp : p.WellNested False)
    (hprep : ∀ changed,
      i.Prepared False (fun _ => False) (i.template.refresh.filter fun s => s.triggeredBy changed) p)
    (hc : p.Secludes i.component) (hfree : p.access i.component = .free)
    (hpending : (p.component i.component).pending.isEmpty = false) (depth rounds : Nat) :
    i.deliverRounds (hostTo depth) (rounds + 2) p = i.refresh (hostTo depth) (p.component i.component).pending
      (p.modifyComponent i.component (·.clearChanges)) := by
  rw [deliverRounds_succ_eq hfree hpending]
  cases hrefresh : i.refresh (hostTo depth) (p.component i.component).pending
      (p.modifyComponent i.component (·.clearChanges)) with
  | none => rfl
  | some r =>
    obtain ⟨haccess, hdrained⟩ := refresh_drained hp hprep hc hrefresh
    have hidle : (r.2.component i.component).pending.isEmpty = true := by
      rw [hdrained]
      rfl
    rw [Option.bind_some, deliverRounds_idle_eq (haccess.trans hfree) hidle, Option.map_some, Report.append_empty]

theorem deliversAtOnce (hp : p.WellNested False)
    (hprep : ∀ changed,
      i.Prepared False (fun _ => False) (i.template.refresh.filter fun s => s.triggeredBy changed) p)
    (hc : p.Secludes i.component) (depth : Nat) : i.DeliversAtOnce (hostTo depth) p := by
  have hround := fun hfree hpending => deliverRounds_one_round hp hprep hc hfree hpending depth
  refine ⟨fun hbusy => (Delivered.postponed hbusy).deliverRounds,
    fun hfree hpending => deliverRounds_idle_eq hfree hpending 31,
    fun hfree hpending => hround hfree hpending 30, fun hfree report q h => ?_, fun rounds => ?_⟩
  · cases hpending : (p.component i.component).pending.isEmpty with
    | true =>
      cases (deliverRounds_idle_eq hfree hpending 31).symm.trans h
      exact (Component.clearChanges_of_isEmpty hpending).symm
    | false => exact (refresh_drained hp hprep hc ((hround hfree hpending 30).symm.trans h)).2
  · by_cases hfree : p.access i.component = .free
    · cases hpending : (p.component i.component).pending.isEmpty with
      | true => exact (deliverRounds_idle_eq hfree hpending _).trans (deliverRounds_idle_eq hfree hpending 31).symm
      | false => exact (hround hfree hpending rounds).trans (hround hfree hpending 30).symm
    · exact (Delivered.postponed hfree).deliverRounds.trans (Delivered.postponed hfree).deliverRounds.symm

end Instance

/-- A flush of a widget that is not busy is a delivery of its changes. -/
theorem flushWith_eq_map {strict : Prop} (hp : p.WellNested strict) (hw : p.widget? n = some w)
    (hshown : w.shown = some i) (hfree : ¬p.IsBusy n) :
    flushWith host n p = (i.deliver host (p.setBusy n true)).map fun r =>
      (.ok r.1.executed, r.2.setBusy n false) := by
  refine Option.ext fun ⟨result, q⟩ => ?_
  rw [flushWith_eq_some hp hw hshown hfree, Option.map_eq_some_iff]
  constructor
  · rintro ⟨report, q', hdeliver, rfl, rfl⟩
    exact ⟨(report, q'), hdeliver, rfl⟩
  · rintro ⟨⟨report, q'⟩, hdeliver, heq⟩
    cases heq
    exact ⟨report, q', hdeliver, rfl, rfl⟩

/-- While a widget is flushed, its component is out of reach. -/
theorem Page.WellNested.secludes_setBusy {strict : Prop} (hp : p.WellNested strict) (hw : p.widget? n = some w) :
    (p.setBusy n true).Secludes w.component := by
  intro m v hv hvc
  rw [(p.alike_setBusy n true).widget?] at hv
  cases hp.distinct m n v w hv hw hvc
  exact (isBusy_setBusy (isCustom_of_widget? hw)).mpr (Or.inl rfl)

theorem Page.IsOuter.secludes (h : p.IsOuter c) : p.Secludes c :=
  fun n w hw hwc => absurd hwc (h.apart n w hw)

/-- A flush of a widget that came after all busy ones is one delivery of its changes. -/
theorem Page.WellNested.delivers_at_once (hp : p.WellNested False) (hyoung : ∀ m, p.IsBusy m → m < n)
    (hw : p.widget? n = some w) (hshown : w.shown = some i) (depth : Nat) :
    i.component = w.component ∧ i.DeliversAtOnce (hostTo depth) (p.setBusy n true) ∧
      (hostTo (depth + 1)).flush n p = (i.deliver (hostTo depth) (p.setBusy n true)).map fun r =>
        (.ok r.1.executed, r.2.setBusy n false) := by
  have hcomponent := ((hp.living n w hw).shown i hshown).component
  have hfree : ¬p.IsBusy n := fun hbusy => Nat.lt_irrefl n (hyoung n hbusy)
  obtain ⟨hp', hbusy', hyoung'⟩ := hp.setBusy (Page.isCustom_of_widget? hw) hyoung
  have hw' := ((p.alike_setBusy n true).widget? n).trans hw
  have hc : (p.setBusy n true).Secludes i.component := hcomponent ▸ hp.secludes_setBusy hw
  exact ⟨hcomponent, Instance.deliversAtOnce hp' (Instance.prepared_refresh hp' hw' hshown hbusy' hyoung') hc depth,
    flushWith_eq_map hp hw hshown hfree⟩

/-- So is every flush from outside or from within another delivery or build. -/
theorem Page.During.delivers_at_once (h : p.During (depth + 1) (.flush n)) (hw : p.widget? n = some w)
    (hshown : w.shown = some i) :
    i.component = w.component ∧ i.DeliversAtOnce (hostTo depth) (p.setBusy n true) ∧
      (hostTo (depth + 1)).flush n p = (i.deliver (hostTo depth) (p.setBusy n true)).map fun r =>
        (.ok r.1.executed, r.2.setBusy n false) :=
  h.ready.1.delivers_at_once h.ready.2 hw hshown depth

/-- The instances on a page deliver their changes at once, and so do the widgets whenever they are flushed, be it from
outside or from within another delivery or build. -/
theorem deliveries_drain_at_once :
    (∀ (p : Page) (built : List Instance), p.Hosted built → ∀ i ∈ built,
      i.DeliversAtOnce (hostTo p.nesting) p ∧
        ∃ report q, withHost (fun host => i.deliver host) p = some (report, q)) ∧
    ∀ (depth : Nat) (p : Page) (n : NodeId) (w : Widget) (i : Instance), p.During (depth + 1) (.flush n) →
      p.widget? n = some w → w.shown = some i → i.component = w.component ∧
        i.DeliversAtOnce (hostTo depth) (p.setBusy n true) ∧
        (hostTo (depth + 1)).flush n p = (i.deliver (hostTo depth) (p.setBusy n true)).map fun r =>
          (.ok r.1.executed, r.2.setBusy n false) := by
  constructor
  · intro p built hp i hi
    obtain ⟨hsound, houter⟩ := hp.sound
    have hheld := hsound.held i hi
    have hprep := fun changed => Instance.prepared_held hheld hsound.calm changed
    have hprep' : ∀ changed, i.Prepared False (fun _ => False)
        (i.template.refresh.filter fun s => s.triggeredBy changed) p := fun changed =>
      ⟨(hprep changed).inPlace, (hprep changed).order, fun h => h.elim, (hprep changed).young⟩
    have hatOnce := Instance.deliversAtOnce hsound.wellNested hprep' (houter i hi).secludes p.nesting
    refine ⟨hatOnce, ?_⟩
    by_cases hfree : p.access i.component = .free
    · cases hpending : (p.component i.component).pending.isEmpty with
      | true => exact ⟨_, _, hatOnce.idle hfree hpending⟩
      | false =>
        have hclear := p.steady_clear i.component
        obtain ⟨report, q, hrefresh⟩ := Instance.refresh_returns (hsound.wellNested.steady hclear)
          (fun n hbusy => hsound.calm n ((hclear.isBusy n).mp hbusy)) (hheld.steady hclear)
          (p.component i.component).pending
        exact ⟨report, q, (hatOnce.round hfree hpending).trans hrefresh⟩
    · exact ⟨_, _, hatOnce.postponed hfree⟩
  · intro depth p n w i hduring hw hshown
    exact hduring.delivers_at_once hw hshown

/-- A shelf that has been built and given another name. -/
theorem sampleShelf_renamed {report : Report} {built : Page}
    (h : sampleShelfTemplate.instantiate 0 none .warnings sampleShelvesPage = some (.ok (i, report), built)) :
    i.template = sampleShelfTemplate ∧ i.component = 0 ∧
      (built.modifyComponent 0 (·.set "name" (.text "b"))).Hosted [i] ∧
      (built.modifyComponent 0 (·.set "name" (.text "b"))).access 0 = .free := by
  obtain ⟨hunder, htemplate, hcomponent, -⟩ := Template.instantiate_underway
    sampleShelvesPage_hosted.sound.1.wellNested (sampleShelvesPage.tended_false ▸ sampleShelfTemplate_compiled.tends) h
  have hosted := sampleShelvesPage_hosted.build sampleShelfTemplate_compiled (sampleShelvesPage_outer (by decide)) h
  have hchanged := built.undisturbed_modifyComponent 0 (·.set "name" (.text "b"))
  refine ⟨htemplate, hcomponent, hosted.undisturbed hchanged, ?_⟩
  rw [hchanged.access, hunder.grown.access 0 (by decide)]
  rfl

/-- Builds a shelf, gives it another name and delivers the change. Tells how many steps ran, and the text of the item
before and after. -/
def sampleShelfDelivery : Act (Nat × Option String × Option String) := do
  match ← sampleShelfTemplate.instantiate 0 none .warnings with
  | .error _ => return (0, none, none)
  | .ok (i, _) =>
    modify (·.modifyComponent 0 (·.set "name" (.text "b")))
    let before := (← get).document.text? 2
    let report ← withHost fun host => i.deliver host
    return (report.executed, before, (← get).document.text? 2)

theorem sampleShelfDelivery_result :
    (sampleShelfDelivery sampleShelvesPage).map (·.1) = some (2, some "a", some "b") := by
  decide +kernel

/-- Creates a box and gives it a label. Tells whether anything is left of connecting it, and what is pending. -/
def sampleLabelledBox : Act (List NodeId × Nat × Option (List String)) := do
  let box ← createElement "x-box" .html
  modify (·.setProperty box (.single "label") (.text "b"))
  let p ← get
  return (p.connecting, p.deferred.length, (p.widget? box).map fun w => (p.component w.component).pending.keys)

theorem sampleLabelledBox_result :
    (sampleLabelledBox sampleCratePage).map (·.1) = some ([], 0, some ["label"]) := by
  decide +kernel

theorem deliveries_drain_at_once_samples :
    (∃ p i report q, p.Hosted [i] ∧ p.access i.component = .free ∧ i.DeliversAtOnce (hostTo p.nesting) p ∧
      withHost (fun host => i.deliver host) p = some (report, q) ∧ report.executed = 2 ∧
      p.document.text? 2 = some "a" ∧ q.document.text? 2 = some "b") ∧
    ∃ depth p n w i, p.During (depth + 1) (.flush n) ∧ p.widget? n = some w ∧ w.shown = some i ∧
      (p.component w.component).pending.keys = ["label"] ∧ i.DeliversAtOnce (hostTo depth) (p.setBusy n true) ∧
      (hostTo (depth + 1)).flush n p = (i.deliver (hostTo depth) (p.setBusy n true)).map fun r =>
        (.ok r.1.executed, r.2.setBusy n false) := by
  constructor
  · obtain ⟨⟨answers, _⟩, hrun, hanswers⟩ := Option.map_eq_some_iff.mp sampleShelfDelivery_result
    simp only [sampleShelfDelivery, Act.bind_eq_some] at hrun
    obtain ⟨result, p₁, hbuild, hrun⟩ := hrun
    cases result with
    | error e =>
      obtain ⟨rfl, -⟩ := Act.pure_eq_some.mp hrun
      cases hanswers
    | ok result =>
      obtain ⟨i, built⟩ := result
      simp only [Act.bind_eq_some, Act.get_eq_some, Act.modify_eq_some, Act.pure_eq_some] at hrun
      obtain ⟨_, p, rfl, _, _, ⟨rfl, rfl⟩, report, q, hdeliver, _, _, ⟨rfl, rfl⟩, rfl, rfl⟩ := hrun
      simp only [Prod.mk.injEq] at hanswers
      obtain ⟨hexecuted, hbefore, hafter⟩ := hanswers
      obtain ⟨-, hcomponent, hosted, hfree⟩ := sampleShelf_renamed hbuild
      obtain ⟨hatOnce, -⟩ := deliveries_drain_at_once.1 _ [i] hosted i List.mem_cons_self
      exact ⟨_, i, report, q, hosted, hcomponent ▸ hfree, hatOnce, hdeliver, hexecuted, hbefore, hafter⟩
  · obtain ⟨⟨answers, _⟩, hrun, hanswers⟩ := Option.map_eq_some_iff.mp sampleLabelledBox_result
    simp only [sampleLabelledBox, Act.bind_eq_some, Act.modify_eq_some, Act.get_eq_some, Act.pure_eq_some] at hrun
    obtain ⟨n, p₁, hcreate, _, p, hp, _, _, ⟨rfl, rfl⟩, rfl, rfl⟩ := hrun
    simp only [Prod.mk.injEq, List.length_eq_zero_iff, Option.map_eq_some_iff] at hanswers
    obtain ⟨hconnecting, hdeferred, w, hw, hpending⟩ := hanswers
    have hwrite : withHost (fun _ => modify (·.setProperty n (.single "label") (.text "b"))) p₁ = some ((), p) :=
      withHost_eq_some.mpr (Act.modify_eq_some.mpr hp)
    have hreached := (sampleCratePage_reached.request (.create "x-box" .html) hcreate).request (.write n _ _) hwrite
    obtain ⟨i, hshown⟩ := (hreached.sound.1.wellNested.living n w hw).connected (hreached.sound.1.calm n)
    have hduring : p.During (p.registry.size + 1) (.flush n) := .flush hreached ⟨hconnecting, hdeferred⟩ n
    obtain ⟨-, hatOnce, hflush⟩ := deliveries_drain_at_once.2 _ p n w i hduring hw hshown
    exact ⟨_, p, n, w, i, hduring, hw, hshown, hpending, hatOnce, hflush⟩

end LiveMarkup
