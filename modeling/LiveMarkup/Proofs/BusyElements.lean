import LiveMarkup.Proofs.PendingWidgets
import LiveMarkup.Proofs.ReachedPage

namespace LiveMarkup

/-- The elements that are busy. -/
def Page.busy (p : Page) : List NodeId :=
  (p.elements.map (·.1)).filter fun n => (p.custom? n).any (·.busy)

theorem Page.mem_busy {p : Page} {n : NodeId} : n ∈ p.busy ↔ p.IsBusy n := by
  rw [busy, List.mem_filter, Option.any_eq_true]
  refine ⟨fun h => h.2, fun h => ⟨?_, h⟩⟩
  obtain ⟨e, he, -⟩ := h
  obtain ⟨before, after, heq, -⟩ := List.lookup_eq_some_iff.mp he
  rw [heq]
  simp

theorem Page.busy_eq_nil {p : Page} (h : ∀ n, ¬p.IsBusy n) : p.busy = [] :=
  List.eq_nil_iff_forall_not_mem.mpr fun n hn => h n (mem_busy.mp hn)

namespace Host

/-- The services of a document whose custom elements find the services of the host. -/
def deeper (host : Host) : Host :=
  ⟨createElementWith host, flushWith host⟩

/-- Gives up unless all busy elements come before the one that is created or flushed, and when a flush finds
its element busy. -/
def checked (host : Host) : Host where
  create tag ns := do
    let p ← get
    if ∀ m ∈ p.busy, m < p.document.size then host.create tag ns else failure
  flush n := do
    let p ← get
    if ∀ m ∈ p.busy, m < n then
      let result ← host.flush n
      if result = .error .busy then failure else return result
    else failure

/-- All elements are plain, whatever is defined. -/
def plain : Host where
  create tag ns := modifyGet fun p =>
    (p.document.size, { p with document := p.document.push (.element (.ofTag tag ns)) })
  flush _ := return .ok 0

/-- Services in which custom elements nest to a given depth. Those at the bottom are given, and something may be
put around all others. -/
def layers (around : Host → Host) (bottom : Host) : Nat → Host
  | 0 => bottom
  | depth + 1 => around (layers around bottom depth).deeper

end Host

theorem hostTo_eq_layers (depth : Nat) : hostTo depth = Host.layers id (hostTo 0) depth := by
  induction depth with
  | zero => rfl
  | succ depth ih =>
    change (hostTo depth).deeper = (Host.layers id (hostTo 0) depth).deeper
    rw [ih]

namespace Host

variable {host other third : Host} {p q : Page} {n : NodeId}

theorem checked_create {tag : String} {ns : Namespace} :
    host.checked.create tag ns p = some (n, q) ↔
      (∀ m, p.IsBusy m → m < p.document.size) ∧ host.create tag ns p = some (n, q) := by
  simp only [checked, Act.bind_eq_some, Act.get_eq_some]
  constructor
  · rintro ⟨_, _, ⟨rfl, rfl⟩, h⟩
    split at h
    next hbusy => exact ⟨fun m hm => hbusy m (Page.mem_busy.mpr hm), h⟩
    next => cases h
  · rintro ⟨hbusy, h⟩
    refine ⟨p, p, ⟨rfl, rfl⟩, ?_⟩
    rw [if_pos fun m hm => hbusy m (Page.mem_busy.mp hm)]
    exact h

theorem checked_flush {result : Except Fault Nat} :
    host.checked.flush n p = some (result, q) ↔
      (∀ m, p.IsBusy m → m < n) ∧ host.flush n p = some (result, q) ∧ result ≠ .error .busy := by
  simp only [checked, Act.bind_eq_some, Act.get_eq_some]
  constructor
  · rintro ⟨_, _, ⟨rfl, rfl⟩, h⟩
    split at h
    next hbusy =>
      obtain ⟨_, _, hflush, h⟩ := Act.bind_eq_some.mp h
      split at h
      next => cases h
      next hfree =>
        obtain ⟨rfl, rfl⟩ := Act.pure_eq_some.mp h
        exact ⟨fun m hm => hbusy m (Page.mem_busy.mpr hm), hflush, hfree⟩
    next => cases h
  · rintro ⟨hbusy, h, hfree⟩
    refine ⟨p, p, ⟨rfl, rfl⟩, ?_⟩
    rw [if_pos fun m hm => hbusy m (Page.mem_busy.mp hm)]
    refine Act.bind_eq_some.mpr ⟨result, q, h, ?_⟩
    rw [if_neg hfree]
    rfl

/-- What the services of a document have to keep to, so that no element is found busy. -/
structure Safe (host : Host) : Prop where
  creates : host.Creates False
  flushes : host.Flushes False
  free : ∀ n p result q, p.WellNested False → (∀ m, p.IsBusy m → m < n) →
    host.flush n p = some (result, q) → result ≠ .error .busy

theorem CoveredBy.trans {strict : Prop} (h : host.CoveredBy strict other) (h' : other.CoveredBy strict third) :
    host.CoveredBy strict third where
  create tag ns p r hp hr := h'.create tag ns p r hp (h.create tag ns p r hp hr)
  flush n p r hp hyoung hr := h'.flush n p r hp hyoung (h.flush n p r hp hyoung hr)

theorem CoveredBy.deeper (h : host.CoveredBy False other) (hhost : host.Safe) :
    host.deeper.CoveredBy False other.deeper where
  create _ _ _ _ hp hr := createElementWith_covered h hhost.creates hhost.flushes hp hr
  flush _ _ _ hp hyoung hr := flushWith_covered h hhost.flushes hp hyoung hr

theorem Safe.deeper (h : host.Safe) : host.deeper.Safe where
  creates := ⟨fun _ _ _ _ _ hcreate hp => createElementWith_made h.creates h.flushes hp hcreate⟩
  flushes := ⟨fun _ _ _ _ hflush hp hyoung => flushWith_flushed h.flushes hp hyoung hflush⟩
  free n p result q hp hyoung hflush := by
    have hidle : ¬p.IsBusy n := fun hbusy => Nat.lt_irrefl n (hyoung n hbusy)
    cases he : p.custom? n with
    | none => cases (flushWith_plain he).symm.trans hflush; exact fun heq => by cases heq
    | some e =>
      obtain ⟨w, -, hw⟩ := hp.behaviour he
      obtain ⟨i, hshown⟩ := (hp.living n w hw).connected hidle
      obtain ⟨report, _, -, rfl, -⟩ := (flushWith_eq_some hp hw hshown hidle).mp hflush
      exact fun heq => by cases heq

theorem Safe.checked (h : host.Safe) : host.checked.Safe where
  creates := ⟨fun tag ns p n q hcreate => h.creates.create tag ns p n q (checked_create.mp hcreate).2⟩
  flushes := ⟨fun n p result q hflush => h.flushes.flush n p result q (checked_flush.mp hflush).2.1⟩
  free _ _ _ _ _ _ hflush := (checked_flush.mp hflush).2.2

theorem checked_coveredBy (host : Host) : host.checked.CoveredBy False host where
  create _ _ _ _ _ h := (checked_create.mp h).2
  flush _ _ _ _ _ h := (checked_flush.mp h).2.1

/-- The elements there are come before the next one, and what is flushed comes after the busy ones and is not
busy: the checks succeed. -/
theorem Safe.coveredBy_checked (h : host.Safe) : host.CoveredBy False host.checked where
  create tag ns p r hp hr := by
    refine checked_create.mpr ⟨fun m hm => ?_, hr⟩
    obtain ⟨e, he, -⟩ := hm
    obtain ⟨w, -, hw⟩ := hp.behaviour he
    exact (hp.living m w hw).within
  flush n p r hp hyoung hr := checked_flush.mpr ⟨hyoung, hr, h.free n p r.1 r.2 hp hyoung hr⟩

theorem layers_safe (around : Host → Host) (haround : ∀ host : Host, host.Safe → (around host).Safe) {bottom : Host}
    (hbottom : bottom.Safe) (depth : Nat) : (layers around bottom depth).Safe := by
  induction depth with
  | zero => exact hbottom
  | succ depth ih => exact haround _ ih.deeper

theorem layers_checked {bottom : Host} (hbottom : bottom.Safe) (depth : Nat) :
    (layers checked bottom depth).CoveredBy False (layers id bottom depth) ∧
      (layers id bottom depth).CoveredBy False (layers checked bottom depth) := by
  induction depth with
  | zero => exact ⟨⟨fun _ _ _ _ _ h => h, fun _ _ _ _ _ h => h⟩, ⟨fun _ _ _ _ _ h => h, fun _ _ _ _ _ h => h⟩⟩
  | succ depth ih =>
    have hchecked := layers_safe checked (fun _ => Safe.checked) hbottom depth
    have hplain := layers_safe id (fun _ h => h) hbottom depth
    -- on the way back the layers below are exchanged first, since only safe ones pass the checks
    exact ⟨(checked_coveredBy _).trans (ih.1.deeper hchecked),
      (ih.2.deeper hplain).trans hchecked.deeper.coveredBy_checked⟩

theorem safe_hostTo_zero : (hostTo 0).Safe where
  creates := hostTo_creates 0
  flushes := hostTo_flushes 0
  free _ _ _ _ _ _ h := by cases h

theorem safe_plain : plain.Safe where
  creates := ⟨fun tag ns p n q h hp => by
    obtain ⟨rfl, rfl⟩ := Prod.mk.inj (Act.modifyGet_eq_some.mp h)
    exact .push hp tag _⟩
  flushes := ⟨fun n p result q h hp hyoung => by
    obtain ⟨-, rfl⟩ := Act.pure_eq_some.mp h
    exact ⟨.refl p, .of_same rfl fun _ => rfl, fun h => h.elim, fun h => h.elim⟩⟩
  free n p result q _ _ h := by
    obtain ⟨rfl, -⟩ := Act.pure_eq_some.mp h
    exact fun heq => by cases heq

end Host

/-- At a request the checks succeed at every depth. -/
theorem Request.checked {α : Type} {act : Host → Act α} (hact : Request act) {p : Page} (hp : p.Sound False [])
    {bottom : Host} (hbottom : bottom.Safe) (depth : Nat) :
    act (Host.layers Host.checked bottom depth) p = act (Host.layers id bottom depth) p := by
  obtain ⟨hle, hge⟩ := Host.layers_checked hbottom depth
  have hchecked := Host.layers_safe Host.checked (fun _ => Host.Safe.checked) hbottom depth
  have hplain := Host.layers_safe id (fun _ h => h) hbottom depth
  refine Option.ext fun r => ⟨fun h => ?_, fun h => ?_⟩
  · exact hact.covered hle hchecked.creates hchecked.flushes hp h
  · exact hact.covered hge hplain.creates hplain.flushes hp h

/-- No element is found busy, neither at a request nor within one: whether all the custom elements there are do
their work, or those below some depth are replaced with plain ones, the run is the one in which every element to
be created or flushed is checked to come after all busy ones, and every flush to find its element free. After a
request no element is busy. -/
theorem flushes_find_elements_free {p : Page} (hp : p.Reached) {α : Type} {act : Host → Act α} (hact : Request act) :
    withHost act p = act (Host.layers Host.checked (hostTo 0) p.nesting) p ∧
      (∀ depth, act (Host.layers id .plain depth) p = act (Host.layers Host.checked .plain depth) p) ∧
      (∀ answer q, withHost act p = some (answer, q) → q.busy = []) ∧
      ∀ n result q, flushNested n p = some (result, q) → result ≠ .error .busy := by
  obtain ⟨hsound, -⟩ := hp.sound
  refine ⟨?_, fun depth => ?_, fun answer q h => ?_, fun n result q h => ?_⟩
  · rw [hact.checked hsound Host.safe_hostTo_zero, ← hostTo_eq_layers]
    rfl
  · exact (hact.checked hsound Host.safe_plain depth).symm
  · exact Page.busy_eq_nil (hp.request hact h).sound.1.calm
  · have hsafe := Host.layers_safe id (fun _ h => h) Host.safe_hostTo_zero p.nesting
    rw [← hostTo_eq_layers] at hsafe
    exact hsafe.free n p result q hsound.wellNested (fun m hm => absurd hm (hsound.calm m)) (withHost_eq_some.mp h)

/-- Creates a box, gives it a label and flushes it, which flushes the item in it. Tells the answer, and the text of
the item before and after. -/
def sampleBoxFlush : Act (Except Fault Nat × Option String × Option String) := do
  let box ← createElement "x-box" .html
  modify (·.setProperty box (.single "label") (.text "b"))
  let before := (← get).document.text? 2
  let result ← flushNested box
  return (result, before, (← get).document.text? 2)

theorem sampleBoxFlush_result :
    (sampleBoxFlush sampleCratePage).map (·.1) = some (.ok 2, some "", some "b") := by
  decide +kernel

theorem sampleCratePage_reached : sampleCratePage.Reached :=
  .start rfl (sampleCratePage_widgets.mono fun _ h => h.elim)

theorem flushes_find_elements_free_sampleBox : ∃ p n q,
    p.Reached ∧ flushNested n p = some (.ok 2, q) ∧ p.document.text? 2 = some "" ∧ q.document.text? 2 = some "b" ∧
    flushNested n p = (Host.layers Host.checked (hostTo 0) p.nesting).flush n p ∧
    (∀ depth, (Host.layers id .plain depth).flush n p = (Host.layers Host.checked .plain depth).flush n p) ∧
    q.busy = [] ∧ ∀ m result q', flushNested m p = some (result, q') → result ≠ .error .busy := by
  obtain ⟨⟨answers, _⟩, hrun, hanswers⟩ := Option.map_eq_some_iff.mp sampleBoxFlush_result
  simp only [sampleBoxFlush, Act.bind_eq_some, Act.modify_eq_some, Act.get_eq_some, Act.pure_eq_some] at hrun
  obtain ⟨n, p, hcreate, _, _, rfl, _, _, ⟨rfl, rfl⟩, result, q, hflush, _, _, ⟨rfl, rfl⟩, rfl, rfl⟩ := hrun
  simp only [Prod.mk.injEq] at hanswers
  obtain ⟨rfl, hbefore, hafter⟩ := hanswers
  have hwrite : withHost (fun _ => modify (·.setProperty n (.single "label") (.text "b"))) p =
      some ((), p.setProperty n (.single "label") (.text "b")) :=
    withHost_eq_some.mpr (Act.modify_eq_some.mpr rfl)
  have hreached := (sampleCratePage_reached.request (.create "x-box" .html) hcreate).request (.write n _ _) hwrite
  obtain ⟨hchecked, hplain, hcalm, hfree⟩ := flushes_find_elements_free hreached (.flush n)
  exact ⟨_, n, q, hreached, hflush, hbefore, hafter, hchecked, hplain, hcalm _ q hflush, hfree⟩

end LiveMarkup
