import LiveMarkup.Proofs.Changes
import LiveMarkup.Proofs.WaitingWrites
import LiveMarkup.Proofs.WidgetCreation

namespace LiveMarkup

variable {t : Template} {initial : Blueprint} {d : Definition}

namespace Component

/-- Makes writes in order. -/
def setAll (c : Component) (writes : List DeferredWrite) : Component :=
  writes.foldl (fun c w => c.set w.path.display w.value) c

theorem get?_set_self (c : Component) (name : String) (v : Value) :
    ∃ x, (c.set name v).props.get? name = some x ∧ (x = v ∨ (x == v) = true) := by
  unfold set differs
  cases hold : c.props.get? name with
  | none => exact ⟨v, by simp [withProp, notify, Dict.get?_insert], Or.inl rfl⟩
  | some x =>
    cases hsame : x == v with
    | true => exact ⟨x, by simpa [hsame] using hold, Or.inr hsame⟩
    | false => exact ⟨v, by simp [hsame, withProp, notify, Dict.get?_insert], Or.inl rfl⟩

theorem get?_set_of_ne (c : Component) {name other : String} (h : other ≠ name) (v : Value) :
    (c.set name v).props.get? other = c.props.get? other := by
  unfold set
  split
  · simp [withProp, notify, Dict.get?_insert, h]
  · rfl

theorem get?_setAll_of_ne {c : Component} {writes : List DeferredWrite} {name : String}
    (h : ∀ w ∈ writes, w.path.display ≠ name) : (c.setAll writes).props.get? name = c.props.get? name := by
  induction writes generalizing c with
  | nil => rfl
  | cons w rest ih =>
    obtain ⟨hw, hrest⟩ := List.forall_mem_cons.mp h
    exact (ih hrest).trans (c.get?_set_of_ne (Ne.symm hw) w.value)

/-- Of the writes to one property the last is the one that counts. -/
theorem get?_setAll_last (c : Component) (before : List DeferredWrite) (w : DeferredWrite)
    {after : List DeferredWrite} (h : ∀ w' ∈ after, w'.path.display ≠ w.path.display) :
    ∃ x, (c.setAll (before ++ w :: after)).props.get? w.path.display = some x ∧
      (x = w.value ∨ (x == w.value) = true) := by
  have hsplit : c.setAll (before ++ w :: after) = ((c.setAll before).set w.path.display w.value).setAll after := by
    rw [setAll, List.foldl_append]
    rfl
  rw [hsplit, get?_setAll_of_ne h]
  exact get?_set_self _ _ _

end Component

/-- The write that an edit makes to one of these properties of the node. -/
def Edit.writeTo? (n : NodeId) (names : List String) : Edit → Option DeferredWrite
  | .property m path v => if m = n && names.contains path.head then some ⟨n, path, v⟩ else none
  | _ => none

namespace Page

variable {p q r : Page} {n : NodeId} {tag : String}

theorem modifyComponent_modifyComponent (p : Page) (c : ComponentId) (f g : Component → Component) :
    (p.modifyComponent c f).modifyComponent c g = p.modifyComponent c fun x => g (f x) := by
  refine congrArg (fun cells => { p with components := cells }) (Array.ext_getElem? fun k => ?_)
  simp only [modifyComponent, Array.getElem?_modify]
  by_cases hk : c = k
  · simp only [hk, ↓reduceIte, Option.map_map]
    rfl
  · simp only [hk, ↓reduceIte]

/-- Writes to a widget that is not busy any more are made one after another. -/
theorem applyWrites_free {w : Widget} (he : p.custom? n = some ⟨.widget w, false⟩)
    (hfree : p.access w.component = .free) (writes : List DeferredWrite) :
    p.applyWrites n writes = p.modifyComponent w.component (·.setAll writes) := by
  induction writes generalizing p with
  | nil => exact (p.modifyComponent_id w.component).symm
  | cons write rest ih =>
    have hnext : p.applyWrites n (write :: rest) =
        (p.modifyComponent w.component (·.set write.path.display write.value)).applyWrites n rest := by
      simp only [applyWrites, he, Bool.false_eq_true, ↓reduceIte, writeBehaviour, writeWidget, hfree]
    have hrest := ih (p := p.modifyComponent w.component (·.set write.path.display write.value)) he
      ((p.access_modifyComponent _ _ _).trans hfree)
    rw [hnext, hrest, modifyComponent_modifyComponent]
    rfl

theorem applyDeferred_free {w : Widget} {others mine : List DeferredWrite}
    (he : p.custom? n = some ⟨.widget w, false⟩) (hfree : p.access w.component = .free)
    (hdeferred : p.deferred = others ++ mine) (hothers : ∀ x ∈ others, x.node ≠ n)
    (hmine : ∀ x ∈ mine, x.node = n) :
    p.applyDeferred n = { p with deferred := others }.modifyComponent w.component (·.setAll mine) := by
  have htaken : (p.deferred.filter fun x => x.node = n) = mine := by
    rw [hdeferred, List.filter_append, List.filter_eq_nil_iff.mpr fun x hx => by simpa using hothers x hx,
      List.filter_eq_self.mpr fun x hx => by simpa using hmine x hx, List.nil_append]
  have hleft : (p.deferred.filter fun x => x.node ≠ n) = others := by
    rw [hdeferred, List.filter_append, List.filter_eq_self.mpr fun x hx => by simpa using hothers x hx,
      List.filter_eq_nil_iff.mpr fun x hx => by simpa using hmine x hx, List.append_nil]
  rw [applyDeferred, htaken, hleft]
  exact applyWrites_free (p := { p with deferred := others }) he hfree mine

theorem startConnecting_lists (hkind : d.kind = .widget t initial) (p : Page) (tag : String) :
    (p.startConnecting tag d).connecting = p.connecting ++ [p.document.size] ∧
      (p.startConnecting tag d).deferred = p.deferred ∧ (p.startConnecting tag d).warnings = p.warnings := by
  obtain ⟨c, routines, callbacks, hmake, -⟩ :=
    make_frame { p with document := p.document.push (.element (.ofTag tag .html)) } initial
  simp only [startConnecting, beginConnecting, instantiate, hkind, hmake, addComponent, and_self]

theorem Waits.startConnecting (h : p.Waits) (hp : p.WellNested False) (hd : p.registry.get? tag = some d)
    (hkind : d.kind = .widget t initial) : (p.startConnecting tag d).Waits := by
  obtain ⟨-, -, hconnecting⟩ := hp.startConnecting hd hkind
  obtain ⟨hstack, hlist, -⟩ := startConnecting_lists hkind p tag
  constructor
  · intro m hm
    rw [hstack] at hm
    rcases List.mem_append.mp hm with hm | hm
    · obtain ⟨e, he, hbusy⟩ := h.busy m hm
      refine ⟨e, ?_, hbusy⟩
      rw [hconnecting.custom? hp, if_neg, he]
      rintro rfl
      rw [hp.custom?_eq_none (Nat.le_refl _)] at he
      cases he
    · cases List.mem_singleton.mp hm
      exact hconnecting.isBusy hp
  · intro w hw
    rw [hlist] at hw
    rw [hstack]
    exact List.mem_append_left _ (h.owned w hw)

theorem declares_startConnecting (hp : p.WellNested False) (hd : p.registry.get? tag = some d)
    (hkind : d.kind = .widget t initial) (name : String) :
    (p.startConnecting tag d).declares p.document.size name = d.properties.contains name := by
  obtain ⟨-, -, hconnecting⟩ := hp.startConnecting hd hkind
  have hcustom : (p.startConnecting tag d).isCustom p.document.size = true := by
    rw [isCustom, hconnecting.custom? hp, if_pos rfl]
    rfl
  have htag : (p.startConnecting tag d).document.tag? p.document.size = some tag := by
    obtain ⟨c, routines, callbacks, hmake, -⟩ :=
      make_frame { p with document := p.document.push (.element (.ofTag tag .html)) } initial
    have hdocument : (p.startConnecting tag d).document = p.document.push (.element (.ofTag tag .html)) := by
      simp only [startConnecting, beginConnecting, instantiate, hkind, hmake, addComponent]
    rw [hdocument, Document.tag?_eq_kind?, Document.kind?, Document.push, Document.size, Array.getElem?_push,
      if_pos rfl]
    rfl
  simp only [declares, hcustom, htag, hconnecting.registry, Registry.declared, hd, Bool.true_and, Option.map_some,
    Option.getD_some]

/-- While an element is connecting, its own template writes no declared properties of other busy elements, so what has
to wait are its writes to properties that the element declares. -/
theorem held?_startConnecting (h : p.Waits) (hp : p.WellNested False) (hd : p.registry.get? tag = some d)
    (hkind : d.kind = .widget t initial) {e : Edit}
    (he : e.WritesTo fun m => some p.document.size = some m ∨ ¬(p.startConnecting tag d).IsBusy m) :
    (p.startConnecting tag d).held? e = e.writeTo? p.document.size d.properties := by
  cases e with
  | property m path v =>
    by_cases hm : m = p.document.size
    · subst hm
      have hstack := (startConnecting_lists hkind p tag).1
      have hcontains : (p.startConnecting tag d).connecting.contains p.document.size = true := by
        rw [hstack]
        simp
      rw [held?, hcontains, declares_startConnecting hp hd hkind, Edit.writeTo?, decide_eq_true rfl]
    · have hfree : ¬(p.startConnecting tag d).IsBusy m :=
        he.resolve_left fun heq => hm (Option.some.inj heq).symm
      rw [held?_of_not_mem fun hmem => hfree ((h.startConnecting hp hd hkind).busy m hmem), Edit.writeTo?,
        decide_eq_false hm, Bool.false_and]
      rfl
  | _ => rfl

/-- What becomes of the writes that the template of a new element makes to properties the element declares, of which
the report `found` tells. On the page `r`, where the template has been built, they wait in the order they were made.
On the page `q`, where the element is connected, they have been made to its component in that order, and nothing else
has changed or waits any more. -/
structure LandsOnce (p : Page) (tag : String) (d : Definition) (found : Report) (r q : Page) : Prop where
  connecting : r.connecting = p.connecting ++ [p.document.size]
  held : r.deferred = p.deferred ++ found.edits.filterMap (Edit.writeTo? p.document.size d.properties)
  untouched : (r.component p.components.size).state =
    ((p.startConnecting tag d).component p.components.size).state
  applied : q.component p.components.size =
    (r.component p.components.size).setAll (found.edits.filterMap (Edit.writeTo? p.document.size d.properties))
  apart : ∀ c, c ≠ p.components.size → q.component c = r.component c
  document : q.document = r.document
  warnings : q.warnings = r.warnings
  released : q.connecting = p.connecting ∧ q.deferred = p.deferred

theorem node_lt_of_waits (h : p.Waits) (hp : p.WellNested False) {w : DeferredWrite} (hw : w ∈ p.deferred) :
    w.node < p.document.size := by
  obtain ⟨e, he, -⟩ := h.busy _ (h.owned w hw)
  obtain ⟨v, -, hv⟩ := hp.behaviour he
  exact (hp.living _ v hv).within

theorem Connecting.landsOnce {k : Nat} {i : Instance} {found : Report} (hp : p.WellNested False) (hwaits : p.Waits)
    (hd : p.registry.get? tag = some d) (hkind : d.kind = .widget t initial)
    (h : p.Connecting p.document.size t (p.startConnecting tag d))
    (hi : i.Underway False (some p.document.size) (p.startConnecting tag d) k [] r)
    (hheld : (p.startConnecting tag d).Holding found.edits r) (hwrites : ∀ e ∈ found.edits,
      e.WritesTo fun m => some p.document.size = some m ∨ ¬(p.startConnecting tag d).IsBusy m) :
    p.LandsOnce tag d found r (r.finishConnecting p.document.size ⟨t, p.components.size, some i⟩) := by
  obtain ⟨hstack, hlist, -⟩ := startConnecting_lists hkind p tag
  have hconnecting : r.connecting = p.connecting ++ [p.document.size] := hheld.connecting.trans hstack
  have hdeferred : r.deferred = p.deferred ++ found.edits.filterMap (Edit.writeTo? p.document.size d.properties) := by
    rw [hheld.deferred, hlist]
    refine congrArg (p.deferred ++ ·) (List.filterMap_congr fun e he => ?_)
    exact held?_startConnecting hwaits hp hd hkind (hwrites e he)
  have hcount : p.components.size < (p.startConnecting tag d).components.size := h.count ▸ Nat.lt_succ_self _
  have hcustom : r.custom? p.document.size = some ⟨.widget ⟨t, p.components.size, none⟩, true⟩ := by
    rw [hi.grown.old _ (h.size ▸ Nat.lt_succ_self _), h.custom? hp, if_pos rfl]
  have hself : ({ r with connecting := r.connecting.dropLast }.modifyCustom p.document.size fun _ =>
      ⟨.widget ⟨t, p.components.size, some i⟩, false⟩).custom? p.document.size =
        some ⟨.widget ⟨t, p.components.size, some i⟩, false⟩ := by
    rw [custom?_modifyCustom, if_pos rfl]
    exact congrArg (Option.map _) hcustom
  have hfree : r.access p.components.size = .free := (hi.grown.access _ hcount).trans h.access_self
  have hfinish := applyDeferred_free hself hfree hdeferred
    (fun w hw => Nat.ne_of_lt (node_lt_of_waits hwaits hp hw)) fun w hw => ?_
  · rw [finishConnecting, hfinish]
    refine ⟨hconnecting, hdeferred, ?_, component_modifyComponent ?_ _,
      fun c hc => component_modifyComponent_of_ne _ hc _, rfl, rfl, ?_, rfl⟩
    · by_contra hne
      -- the element is busy, so its component is left alone
      obtain ⟨m, w, hroot, hidle, -⟩ := hi.grown.components _ hcount hne
      cases hroot
      exact hidle (h.isBusy hp)
    · exact Nat.lt_of_lt_of_le hcount hi.grown.count
    · exact (congrArg List.dropLast hconnecting).trans List.dropLast_concat
  · obtain ⟨e, -, he⟩ := List.mem_filterMap.mp hw
    cases e with
    | property m path v =>
      rw [Edit.writeTo?] at he
      split at he
      · cases he
        rfl
      · cases he
    | _ => cases he

end Page

variable {depth : Nat} {p q : Page} {n : NodeId} {tag : String}

/-- An element with a defined tag is connected by building its template, and its own writes land once. -/
theorem createElementWith_lands (hhost : (hostTo depth).LeavesWaiting) (hp : p.WellNested False) (hwaits : p.Waits)
    (hd : p.registry.get? tag = some d) (h : createElementWith (hostTo depth) tag .html p = some (n, q)) :
    n = p.document.size ∧ ∃ t initial i found r, d.kind = .widget t initial ∧
      t.buildOn (hostTo depth) p.components.size (some n) .warnings (p.startConnecting tag d) =
        some (.ok (i, found), r) ∧
      q.widget? n = some ⟨t, p.components.size, some i⟩ ∧ i.template = t ∧ p.warnings <+: r.warnings ∧
      p.LandsOnce tag d found r q := by
  obtain ⟨rfl, ⟨hplain, -⟩ | ⟨d', -, hd', hconnect⟩⟩ := createElementWith_eq_some.mp h
  · cases (hplain rfl).symm.trans hd
  · cases hd.symm.trans hd'
    obtain ⟨t, initial, _, i, k, found, r, rfl, hkind, hadopts, hconnecting, hp₁, htends, hbuild, htemplate, -, hi,
      hhoused, rfl⟩ := connectElement_underway (hostTo_creates depth) (hostTo_flushes depth) hp hd hconnect
    obtain ⟨_, _, hrun, -, -⟩ := Template.runBuild_of_buildOn hbuild
    have hroot := Template.root_within (Template.obstacle?_of_buildOn hbuild)
    obtain ⟨hheld, hwrites⟩ := Instance.runBuild_holding hhost
      (.start hp₁ (Page.tended_false _ ▸ htends) _ hroot _) (hwaits.startConnecting hp hd hkind) hrun
    have hlands := hconnecting.landsOnce hp hwaits hd hkind hi hheld hwrites
    obtain ⟨hgrown, hwidget, -⟩ := hconnecting.grown hp hi hhoused r.connecting.dropLast rfl
    refine ⟨rfl, t, initial, i, found, r, hkind, hbuild, ?_, htemplate, ?_, hlands⟩
    · exact ((Page.applyDeferred_touched hgrown.wellNested _).steady.widget? _).trans hwidget
    · exact (Page.startConnecting_lists hkind p tag).2.2 ▸ hheld.warnings

theorem createElementWith_holding (hhost : (hostTo depth).LeavesWaiting) {ns : Namespace} (hp : p.WellNested False)
    (hwaits : p.Waits) (h : createElementWith (hostTo depth) tag ns p = some (n, q)) : p.Holding [] q := by
  have hgrown := (createElementWith_made (hostTo_creates depth) (hostTo_flushes depth) hp h).toGrown
  have hold : ∀ m, p.IsBusy m → m < p.document.size := by
    rintro m ⟨e, he, -⟩
    obtain ⟨w, -, hw⟩ := hp.behaviour he
    exact (hp.living m w hw).within
  have hlists : q.connecting = p.connecting ∧ q.deferred = p.deferred ∧ p.warnings <+: q.warnings := by
    obtain ⟨-, ⟨-, rfl⟩ | ⟨d, rfl, hd, -⟩⟩ := createElementWith_eq_some.mp h
    · exact ⟨rfl, rfl, List.prefix_rfl⟩
    · obtain ⟨-, t, initial, i, found, r, -, -, -, -, hwarnings, hlands⟩ :=
        createElementWith_lands hhost hp hwaits hd h
      exact ⟨hlands.released.1, hlands.released.2, hlands.warnings ▸ hwarnings⟩
  refine ⟨hlists.1, hlists.2.1.trans (List.append_nil _).symm, fun m hm => (hgrown.isBusy (hold m hm)).mpr hm,
    fun m name hm => Page.declares_congr hgrown.registry ?_ ?_ name, hlists.2.2⟩
  · rw [Page.isCustom, hgrown.old m (hold m hm), Page.isCustom]
  · exact Document.tag?_congr (hgrown.kinds m (hold m hm) fun hr => by cases hr)

theorem Page.declares_setBusy (p : Page) (n : NodeId) (busy : Bool) (m : NodeId) (name : String) :
    (p.setBusy n busy).declares m name = p.declares m name := by
  apply declares_congr
  · rfl
  · exact (p.alike_setBusy n busy).isCustom m
  · rfl

theorem Page.Waits.setBusy (h : p.Waits) (hcustom : p.isCustom n = true) : (p.setBusy n true).Waits :=
  ⟨fun m hm => (isBusy_setBusy hcustom).mpr (Or.inr (h.busy m hm)), h.owned⟩

/-- An element that is flushed is not connecting, and neither is any that its template has created. -/
theorem flushWith_holding (hhost : (hostTo depth).LeavesWaiting) {result : Except Fault Nat}
    (hp : p.WellNested False) (hwaits : p.Waits) (hyoung : ∀ m, p.IsBusy m → m < n)
    (h : flushWith (hostTo depth) n p = some (result, q)) : p.Holding [] q := by
  have hfree : ¬p.IsBusy n := fun hbusy => Nat.lt_irrefl n (hyoung n hbusy)
  cases he : p.custom? n with
  | none =>
    rw [flushWith_plain he] at h
    cases h
    exact .refl p
  | some e =>
    have hcustom := Page.isCustom_of_custom? he
    obtain ⟨w, -, hw⟩ := hp.behaviour he
    obtain ⟨i, hshown⟩ := (hp.living n w hw).connected hfree
    have hhoused := (hp.living n w hw).shown i hshown
    obtain ⟨report, p₁, hdeliver, -, rfl⟩ := (flushWith_eq_some hp hw hshown hfree).mp h
    obtain ⟨hp', hbusy', hyoung'⟩ := hp.setBusy hcustom hyoung
    have hw' := ((p.alike_setBusy n true).widget? n).trans hw
    have hbusy : ∀ m, p.IsBusy m → (p.setBusy n true).IsBusy m := fun m hm =>
      (Page.isBusy_setBusy hcustom).mpr (Or.inr hm)
    obtain ⟨edits, hheld, hwrites⟩ := Instance.deliverRounds_holding hhost hp'
      (Instance.prepared_refresh hp' hw' hshown hbusy' hyoung') (hwaits.setBusy hcustom) hdeliver
    have hdone := hheld.nothing_held fun e he => ?_
    · refine ⟨hdone.connecting, hdone.deferred, fun m hm => ?_, fun m name hm => ?_, hdone.warnings⟩
      · exact Page.isBusy_setBusy_false.mpr ⟨Nat.ne_of_lt (hyoung m hm), hdone.busy m (hbusy m hm)⟩
      · rw [Page.declares_setBusy, hdone.declares m name (hbusy m hm), Page.declares_setBusy]
    · have hnode := hwrites e he
      cases e with
      | property m path v =>
        obtain ⟨s, hs⟩ := hnode
        have hle : n ≤ m := by
          by_cases hroot : s = 0
          · subst hroot
            rw [hhoused.root] at hs
            exact Nat.le_of_eq (Option.some.inj hs)
          · exact Nat.le_of_lt (hhoused.inner s m hroot hs).1
        refine Page.held?_of_not_mem (fun hm => ?_) path v
        exact Nat.not_lt.mpr hle (hyoung m (hwaits.busy m hm))
      | _ => rfl

theorem hostTo_leavesWaiting (depth : Nat) : (hostTo depth).LeavesWaiting := by
  induction depth with
  | zero => exact ⟨fun _ _ _ _ _ _ _ => nofun, fun _ _ _ _ _ _ _ => nofun⟩
  | succ depth ih =>
    exact ⟨fun _ _ _ _ _ hp hwaits h => createElementWith_holding ih hp hwaits h,
      fun _ _ _ _ hp hwaits hyoung h => flushWith_holding ih hp hwaits hyoung h⟩

/-- At every moment the writes that wait are for elements that are connecting. -/
theorem Page.During.waits {a : Activity} (h : p.During depth a) : p.Waits := by
  induction h with
  | create _ hquiet _ _ => exact .of_quiet hquiet
  | flush _ hquiet _ => exact .of_quiet hquiet
  | build _ hquiet _ _ _ => exact .of_quiet hquiet
  | refresh _ hquiet _ _ => exact .of_quiet hquiet
  | @built depth p q i root op rest step hduring hexec ih =>
    have hheld := (hduring.ready.2.holding (hostTo_leavesWaiting depth) ih hexec).1
    exact (Holding.stepWarned .build op step q).waits (hheld.waits ih)
  | @refreshed depth p q i s rest step hduring hexec ih =>
    have hheld := (hduring.ready.2.holding (hostTo_leavesWaiting depth) hduring.ready.1 ih hexec).1
    exact (Holding.stepWarned .refresh s.op step q).waits (hheld.waits ih)
  | @again _ p i _ ih => exact (Holding.modifyComponent p i.component _).waits ih
  | creates _ ih => exact ih
  | flushesBuilt _ _ ih => exact ih
  | flushes _ _ _ ih => exact ih
  | connects hduring hd hkind ih => exact ih.startConnecting hduring.ready.1 hd hkind
  | @delivers depth p n w i hduring hw _ ih =>
    have hbusy := ih.setBusy (isCustom_of_widget? hw)
    exact (Holding.modifyComponent (p.setBusy n true) w.component _).waits hbusy

theorem Page.Holding.quiet {edits : List Edit} (h : p.Holding edits q) (hquiet : p.Quiet) : q.Quiet := by
  have hnone : ∀ e ∈ edits, p.held? e = none := by
    intro e _
    cases e with
    | property n path v =>
      refine held?_of_not_mem (fun hn => ?_) path v
      rw [hquiet.1] at hn
      cases hn
    | _ => rfl
  have h := h.nothing_held hnone
  refine ⟨h.connecting.trans hquiet.1, ?_⟩
  rw [h.deferred, hquiet.2]
  rfl

/-- When a request has been met, nothing is connecting and nothing waits. -/
theorem Request.quiet {α : Type} {act : Host → Act α} {answer : α} (hact : Request act) (hp : p.Sound False [])
    (hquiet : p.Quiet) (h : act (hostTo depth) p = some (answer, q)) : q.Quiet := by
  have hwaits := Page.Waits.of_quiet hquiet
  have hhost := hostTo_leavesWaiting depth
  cases hact with
  | create tag ns => exact (hhost.create tag ns p answer q hp.wellNested hwaits h).quiet hquiet
  | @build t ht c root sink =>
    cases hobstacle : t.obstacle? c root p with
    | some e =>
      cases (Template.buildOn_of_obstacle hobstacle).symm.trans h
      exact hquiet
    | none =>
      obtain ⟨i, report, hrun, -⟩ := (Template.buildOn_eq_some hobstacle).mp h
      have hstart := Instance.Building.start hp.wellNested ht.tends c (Template.root_within hobstacle) sink
      exact (Instance.runBuild_holding hhost hstart hwaits hrun).1.quiet hquiet
  | refresh hi changed =>
    have hprep := Instance.prepared_calm hi hp.calm
    exact (Instance.runSteps_holding hhost hp.wellNested (.start hprep changed) hwaits h).1.quiet hquiet
  | deliver hi =>
    obtain ⟨edits, hheld, -⟩ := Instance.deliverRounds_holding hhost hp.wellNested
      (Instance.prepared_calm hi hp.calm) hwaits h
    exact hheld.quiet hquiet
  | flush n =>
    exact (hhost.flush n p answer q hp.wellNested hwaits (fun m hm => absurd hm (hp.calm m)) h).quiet hquiet
  | write n path v =>
    obtain rfl := Act.modify_eq_some.mp h
    exact (Page.Holding.setProperty hp.wellNested hwaits n path v).quiet hquiet

theorem Page.Quiet.request {α : Type} {act : Host → Act α} {answer : α} (hquiet : p.Quiet) (hp : p.Reached)
    (hact : Request act) (h : withHost act p = some (answer, q)) : q.Quiet :=
  hact.quiet hp.sound.1 hquiet (withHost_eq_some.mp h)

/-- The writes that a template makes to declared properties of its own element while that is connecting wait for the
element and for no other, are made once in order when it has connected, and none are left when a request has been
met. -/
theorem writes_while_connecting_land_once :
    (∀ depth p a, Page.During depth p a → ∀ w ∈ p.deferred, w.node ∈ p.connecting) ∧
    (∀ depth p tag d n q, p.During (depth + 1) (.create tag .html) → p.registry.get? tag = some d →
      (hostTo (depth + 1)).create tag .html p = some (n, q) →
      n = p.document.size ∧ ∃ t initial i found r, d.kind = .widget t initial ∧
        t.buildOn (hostTo depth) p.components.size (some n) .warnings (p.startConnecting tag d) =
          some (.ok (i, found), r) ∧
        q.widget? n = some ⟨t, p.components.size, some i⟩ ∧ p.LandsOnce tag d found r q ∧
        (∀ c, c < p.components.size → (q.component c).state = (p.component c).state) ∧
        ∀ before w after, found.edits.filterMap (Edit.writeTo? n d.properties) = before ++ w :: after →
          (∀ w' ∈ after, w'.path.display ≠ w.path.display) →
          ∃ x, (q.component p.components.size).props.get? w.path.display = some x ∧
            (x = w.value ∨ (x == w.value) = true)) ∧
    ∀ p, p.Reached → p.Quiet →
      (∀ tag, (¬∃ chain : Nat → String, chain 0 = tag ∧ ∀ k, p.Nests (chain k) (chain (k + 1))) →
        ∃ n q, createElement tag .html p = some (n, q)) ∧
      ∀ {α : Type} (act : Host → Act α) (answer : α) (q : Page), Request act →
        withHost act p = some (answer, q) → q.Quiet := by
  refine ⟨fun depth p a h => h.waits.owned, fun depth p tag d n q hduring hd hcreate => ?_, fun p hp hquiet => ?_⟩
  · obtain ⟨rfl, t, initial, i, found, r, hkind, hbuild, hw, -, -, hlands⟩ :=
      createElementWith_lands (hostTo_leavesWaiting depth) hduring.ready.1 hduring.waits hd hcreate
    have hmade := (hostTo_creates (depth + 1)).create tag .html p _ q hcreate hduring.ready.1
    refine ⟨rfl, t, initial, i, found, r, hkind, hbuild, hw, hlands, fun c hc => hmade.states hc, ?_⟩
    intro before w after hwrites hlast
    rw [hlands.applied, hwrites]
    exact Component.get?_setAll_last _ before w hlast
  · have hsound := hp.sound.1
    refine ⟨fun tag hchain => ?_, fun act answer q hact h => hquiet.request hp hact h⟩
    rw [createElement_returns_iff hsound.wellNested]
    exact not_not.mp (mt not_acc_iff_exists_descending_chain.mp hchain)

/-- A banner whose own title is first its heading and then its motto. -/
def sampleBanner : TemplateNode :=
  .node { NodeHead.ofTag "x-banner" with attributes := [("title", .property "heading"), ("title", .property "motto")] }
    [.text (.property "title")]

def sampleBannerTemplate : Template :=
  .ofPlan { createRoot := false } sampleBanner.size (sampleBanner.rootPlan (fun _ => none) { createRoot := false })

def sampleBannerBlueprint : Blueprint :=
  ⟨"banner", [("heading", .fixed (.text "a")), ("motto", .fixed (.text "b")), ("title", .fixed .null)], []⟩

/-- A stage with one banner. -/
def sampleStage : TemplateNode :=
  .node (.ofTag "x-stage") [.node (.ofTag "x-banner") []]

def sampleStageTemplate : Template :=
  .ofPlan { createRoot := false } sampleStage.size (sampleStage.rootPlan (fun _ => none) { createRoot := false })

def sampleStagePage : Page :=
  { Page.empty with
    registry := (Dict.empty.insert "x-banner"
      ⟨sampleBannerBlueprint.propNames, .widget sampleBannerTemplate sampleBannerBlueprint⟩).insert
        "x-stage" ⟨[], .widget sampleStageTemplate ⟨"stage", [], []⟩⟩ }

theorem sampleStagePage_reached : sampleStagePage.Reached := by
  have hbanner : sampleBannerTemplate.Compiled := ⟨fun _ => none, .empty, { createRoot := false }, sampleBanner, _, rfl⟩
  have hstage : sampleStageTemplate.Compiled := ⟨fun _ => none, .empty, { createRoot := false }, sampleStage, _, rfl⟩
  have hempty : Page.empty.Reached := .start rfl fun tag d hd => nomatch hd
  have hfirst : ∃ fresh p, Page.empty.defineWidget "x-banner" sampleBannerTemplate sampleBannerBlueprint =
      .ok (fresh, p) ∧ p.defineWidget "x-stage" sampleStageTemplate ⟨"stage", [], []⟩ = .ok (true, sampleStagePage) :=
    ⟨_, _, rfl, rfl⟩
  obtain ⟨fresh, p, hdefine, hnext⟩ := hfirst
  exact (hempty.define hbanner hdefine).define hstage hnext

/-- The page when the banner of a new stage is to be created. -/
def sampleStageMoment : Page :=
  sampleStagePage.startConnecting "x-stage" ⟨[], .widget sampleStageTemplate ⟨"stage", [], []⟩⟩

theorem sampleStageMoment_during : sampleStageMoment.During 2 (.create "x-banner" .html) := by
  have htop : sampleStagePage.During (2 + 1) (.create "x-stage" .html) :=
    .create sampleStagePage_reached ⟨rfl, rfl⟩ "x-stage" .html
  have hbuild := htop.connects (d := ⟨[], .widget sampleStageTemplate ⟨"stage", [], []⟩⟩) rfl rfl
  exact (hbuild.built (Instance.execBuild_adoptRoot.mpr ⟨rfl, rfl⟩)).creates

/-- Creates the banner. Tells what is connecting and waits afterwards, and the title. -/
theorem sampleStageMoment_create :
    ((hostTo 2).create "x-banner" .html sampleStageMoment).map
      (fun r => (r.1, r.2.connecting, r.2.deferred.length, ((r.2.component 1).get "title").display)) =
      some (1, [0], 0, "b") := by
  decide +kernel

theorem sampleStageMoment_writes :
    (sampleBannerTemplate.buildOn (hostTo 1) 1 (some 1) .warnings (sampleStageMoment.startConnecting "x-banner"
      ⟨sampleBannerBlueprint.propNames, .widget sampleBannerTemplate sampleBannerBlueprint⟩)).bind
      (fun r => r.1.toOption.map fun found =>
        (found.2.edits.filterMap (Edit.writeTo? 1 sampleBannerBlueprint.propNames)).map (·.value.display)) =
      some ["a", "b"] := by
  decide +kernel

theorem writes_while_connecting_land_once_sampleStage :
    (∃ d n q found r, sampleStageMoment.During 2 (.create "x-banner" .html) ∧ sampleStageMoment.connecting = [0] ∧
      sampleStageMoment.registry.get? "x-banner" = some d ∧
      (hostTo 2).create "x-banner" .html sampleStageMoment = some (n, q) ∧
      sampleStageMoment.LandsOnce "x-banner" d found r q ∧
      (found.edits.filterMap (Edit.writeTo? n d.properties)).map (·.value.display) = ["a", "b"] ∧
      ((q.component 1).get "title").display = "b" ∧ q.connecting = [0] ∧ q.deferred = []) ∧
    sampleStagePage.Reached ∧ sampleStagePage.Quiet ∧
    (¬∃ chain : Nat → String, chain 0 = "x-stage" ∧ ∀ k, sampleStagePage.Nests (chain k) (chain (k + 1))) ∧
    ∃ n q, createElement "x-stage" .html sampleStagePage = some (n, q) ∧ q.Quiet := by
  obtain ⟨-, hcreation, hrequests⟩ := writes_while_connecting_land_once
  constructor
  · obtain ⟨⟨n, q⟩, hcreate, hanswers⟩ := Option.map_eq_some_iff.mp sampleStageMoment_create
    simp only [Prod.mk.injEq, List.length_eq_zero_iff] at hanswers
    obtain ⟨rfl, hconnecting, hdeferred, htitle⟩ := hanswers
    obtain ⟨-, t, initial, i, found, r, hkind, hbuild, -, hlands, -⟩ :=
      hcreation 1 _ "x-banner" _ 1 q sampleStageMoment_during rfl hcreate
    cases hkind
    have hwrites := sampleStageMoment_writes
    have hbuild' : sampleBannerTemplate.buildOn (hostTo 1) 1 (some 1) .warnings
        (sampleStageMoment.startConnecting "x-banner"
          ⟨sampleBannerBlueprint.propNames, .widget sampleBannerTemplate sampleBannerBlueprint⟩) =
        some (.ok (i, found), r) := hbuild
    rw [hbuild'] at hwrites
    exact ⟨_, 1, q, found, r, sampleStageMoment_during, rfl, rfl, hcreate, hlands, Option.some.inj hwrites, htitle,
      hconnecting, hdeferred⟩
  · have hquiet : sampleStagePage.Quiet := ⟨rfl, rfl⟩
    have hreturns : (createElement "x-stage" .html sampleStagePage).isSome = true := by decide +kernel
    obtain ⟨⟨n, q⟩, hcreate⟩ := Option.isSome_iff_exists.mp hreturns
    have hfinite := (createElement_returns_iff sampleStagePage_reached.sound.1.wellNested).mp ⟨n, q, hcreate⟩
    obtain ⟨hends, hmet⟩ := hrequests sampleStagePage sampleStagePage_reached hquiet
    have hchain : ¬∃ chain : Nat → String, chain 0 = "x-stage" ∧
        ∀ k, sampleStagePage.Nests (chain k) (chain (k + 1)) :=
      fun h => not_acc_iff_exists_descending_chain.mpr h hfinite
    obtain ⟨n', q', hcreate'⟩ := hends "x-stage" hchain
    exact ⟨sampleStagePage_reached, hquiet, hchain, n', q', hcreate',
      hmet _ _ q' (.create "x-stage" .html) hcreate'⟩

end LiveMarkup
