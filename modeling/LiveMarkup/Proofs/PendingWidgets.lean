import LiveMarkup.Proofs.LivePage

namespace LiveMarkup

variable {p q : Page} {n : NodeId} {i : Instance}

namespace Page

/-- The widgets between two nodes that were all pending pass a flush on. -/
theorem Drained.passed {settled excused : NodeId → Prop} (h : p.Drained settled excused q)
    (hn : ¬q.IsPending n) (hexcused : ∀ k, p.Within n k → ¬excused k) {m : NodeId} (hm : p.Within n m)
    (hpending : ∀ k, p.Within n k → Relation.TransGen p.Inside k m → p.IsPending k) : ¬q.IsPending m := by
  induction hm with
  | refl => exact hn
  | @tail k m hk hinside ih =>
    have hgone : ¬q.IsPending k :=
      ih fun j hj hjk => hpending j hj (hjk.tail hinside)
    have hpending' : p.IsPending k := hpending k hk (.single hinside)
    exact fun hm => hexcused m (hk.tail hinside) (h.reached k m hpending' hgone hinside hm)

end Page

namespace Instance

/-- The template of the instance created the node. -/
def Created (i : Instance) (n : NodeId) : Prop :=
  ∃ s, i.template.Creates s ∧ i.node? s = some n

theorem Created.not_adopted {strict : Prop} (hi : p.Holds strict i) {r : NodeId} (hn : i.Created n) (hr : i.Adopted r) :
    r < n := by
  obtain ⟨s, hs, hn⟩ := hn
  obtain ⟨hadopts, hr⟩ := hr
  have hs' : s ≠ 0 := hs.resolve_right (by simp [hadopts])
  exact hi.below r s n hadopts hr hs' hn

/-- A refresh flushes all that its template has created. -/
theorem refresh_drains {depth : Nat} {changed : Names} {report : Report} (hp : p.WellNested True)
    (hcalm : ∀ n, ¬p.IsBusy n) (hi : p.Holds True i)
    (h : i.refresh (hostTo depth) changed p = some (report, q)) :
    p.Drained (fun m => ¬p.IsPending m ∨ i.Created m) i.Adopted q := by
  obtain ⟨-, -, hdrained⟩ :=
    runSteps_drains (hostTo_flushes depth) hp (prepared_held hi hcalm changed) h
  refine hdrained trivial p _ rfl ⟨fun m hm hpending => ?_, fun m k hm hm' => absurd hm hm'⟩
  obtain ⟨s, hs, hn⟩ := hm.resolve_left fun hidle => hidle hpending
  have hflush := hi.flushed trivial s m hs hn (Page.isCustom_of_isPending hpending)
  exact Or.inl ⟨_, List.mem_filter.mpr ⟨hflush, rfl⟩, s, rfl, hn⟩

end Instance

/-- A box with an item that has the box's label. -/
def sampleBox : TemplateNode :=
  .node (.ofTag "x-box") [.node { NodeHead.ofTag "x-item" with attributes := [("label", .property "label")] } []]

def sampleBoxTemplate : Template :=
  .ofPlan { createRoot := false } sampleBox.size
    (sampleBox.rootPlan sampleShelfPage.registry.declared { createRoot := false })

/-- A crate with a box whose label is the crate's name. -/
def sampleCrate : TemplateNode :=
  .node (.ofTag "section") [.node { NodeHead.ofTag "x-box" with attributes := [("label", .property "name")] } []]

def sampleCratePage : Page :=
  match sampleShelfPage.defineWidget "x-box" sampleBoxTemplate ⟨"box", [("label", .fixed .null)], []⟩ with
  | .ok (_, p) => p
  | .error _ => .empty

def sampleCrateTemplate : Template :=
  .ofPlan {} sampleCrate.size (sampleCrate.rootPlan sampleCratePage.registry.declared {})

theorem sampleCratePage_registry : sampleCratePage.registry =
    (Dict.empty.insert "x-item"
        ⟨["label"], .widget sampleItemTemplate ⟨"item", [("label", .fixed .null)], []⟩⟩).insert
      "x-box" ⟨["label"], .widget sampleBoxTemplate ⟨"box", [("label", .fixed .null)], []⟩⟩ :=
  rfl

theorem sampleCratePage_defines {tag : String} (h : sampleCratePage.Defines tag) :
    tag = "x-box" ∨ tag = "x-item" := by
  rw [Page.Defines, sampleCratePage_registry, Dict.contains, Dict.get?_insert, Dict.get?_insert] at h
  by_cases hbox : tag = "x-box"
  · exact Or.inl hbox
  · by_cases hitem : tag = "x-item"
    · exact Or.inr hitem
    · simp [hbox, hitem, Dict.get?, Dict.empty, lookupKey] at h

theorem sampleCratePage_nested (tag : String) (h : sampleCratePage.Defines tag) :
    NestedTags.hyphenated.holds tag = true := by
  rcases sampleCratePage_defines h with rfl | rfl <;> decide

theorem sampleCratePage_widgets : sampleCratePage.DefinesWidgets sampleCratePage.Defines := by
  have hitem : sampleItemTemplate.CompiledFor sampleCratePage.Defines :=
    ⟨fun _ => none, .empty, { createRoot := false }, sampleItem, _, rfl, sampleCratePage_nested⟩
  have hbox : sampleBoxTemplate.CompiledFor sampleCratePage.Defines :=
    ⟨sampleShelfPage.registry.declared, .empty, { createRoot := false }, sampleBox, _, rfl, sampleCratePage_nested⟩
  intro tag d hd
  rw [sampleCratePage_registry, Dict.get?_insert, Dict.get?_insert] at hd
  split at hd
  · cases hd
    exact ⟨_, _, rfl, rfl, hbox⟩
  · split at hd
    · cases hd
      exact ⟨_, _, rfl, rfl, hitem⟩
    · cases hd

theorem sampleCrateTemplate_compiled : sampleCrateTemplate.CompiledFor sampleCratePage.Defines :=
  ⟨sampleCratePage.registry.declared, .empty, {}, sampleCrate, _, rfl, sampleCratePage_nested⟩

theorem sampleCratePage_nests {outer inner : String} (h : sampleCratePage.Nests outer inner) :
    outer = "x-box" ∧ inner = "x-item" := by
  obtain ⟨hinner, d, t, initial, hd, hkind, hcreated⟩ := h
  rw [sampleCratePage_registry, Dict.get?_insert, Dict.get?_insert] at hd
  split at hd
  next hbox =>
    cases hd
    cases hkind
    exact ⟨hbox, List.mem_singleton.mp hcreated⟩
  · split at hd
    · cases hd
      cases hkind
      cases hcreated
    · cases hd

theorem sampleCratePage_nestsFinitely (tag : String) : sampleCratePage.NestsFinitely tag := by
  have hitem : sampleCratePage.NestsFinitely "x-item" :=
    ⟨_, fun _ h => absurd (sampleCratePage_nests h).1 (by decide)⟩
  exact ⟨_, fun _ h => (sampleCratePage_nests h).2 ▸ hitem⟩

theorem sampleCratePage_live : sampleCratePage.Live Page.Defines [] :=
  .start rfl sampleCratePage_widgets

/-- The nodes of what the widget at a node shows. -/
def Page.shownSlots (p : Page) (n : NodeId) : Option (List (Option NodeId)) :=
  (p.widget? n).bind fun w => w.shown.map (·.slots)

/-- Whether the widget at a node has nothing pending. -/
def Page.isSettled? (p : Page) (n : NodeId) : Option Bool :=
  (p.widget? n).map fun w => (p.component w.component).pending.isEmpty

theorem Page.widget_of_shownSlots {slots : List (Option NodeId)} (h : p.shownSlots n = some slots) :
    ∃ w i, p.widget? n = some w ∧ w.shown = some i ∧ i.slots = slots := by
  obtain ⟨w, hw, hshown⟩ := Option.bind_eq_some_iff.mp h
  obtain ⟨i, hi, rfl⟩ := Option.map_eq_some_iff.mp hshown
  exact ⟨w, i, hw, hi, rfl⟩

theorem Page.inside_of_shownSlots {k : NodeId} {slots : List (Option NodeId)} {s : Slot}
    (h : p.shownSlots n = some slots) (hs : s ≠ 0) (hk : slots[s]?.join = some k) : p.Inside n k := by
  obtain ⟨w, i, hw, hi, rfl⟩ := Page.widget_of_shownSlots h
  exact ⟨w, i, s, hw, hi, hs, hk⟩

theorem Page.isPending_of_isSettled? (h : p.isSettled? n = some false) : p.IsPending n :=
  Option.map_eq_some_iff.mp h

/-- Builds the crate, gives the item in its box another label and refreshes the crate. Tells the nodes of the
crate and of its box, how many steps failed, and whether the item is settled. -/
def sampleCrateRelabelling :
    Act (List (Option NodeId) × Option (List (Option NodeId)) × Nat × Option Bool) := do
  match ← sampleCrateTemplate.instantiate 0 none .warnings with
  | .error _ => return ([], none, 0, none)
  | .ok (i, _) =>
    modify (·.setProperty 2 (.single "label") (.text "b"))
    let box := (← get).shownSlots 1
    let report ← withHost fun host => i.refresh host Dict.empty
    return (i.slots, box, report.failed, (← get).isSettled? 2)

theorem sampleCrateRelabelling_result : (sampleCrateRelabelling sampleCratePage).map (·.1) =
    some ([some 0, some 1], some [some 1, some 2], 0, some false) := by
  decide +kernel

/-- What happened to the crate and the item in its box. -/
theorem sampleCrateRelabelling_run : ∃ i r built report q,
    sampleCrateTemplate.instantiate 0 none .warnings sampleCratePage = some (.ok (i, r), built) ∧
    withHost (fun host => i.refresh host Dict.empty) (built.setProperty 2 (.single "label") (.text "b")) =
      some (report, q) ∧
    i.Created 1 ∧ (built.setProperty 2 (.single "label") (.text "b")).Inside 1 2 ∧ report.failed = 0 ∧
    q.IsPending 2 := by
  obtain ⟨⟨result, _⟩, hrun, hresult⟩ := Option.map_eq_some_iff.mp sampleCrateRelabelling_result
  simp only [sampleCrateRelabelling, Act.bind_eq_some] at hrun
  obtain ⟨made, built, hbuild, hrun⟩ := hrun
  cases made with
  | error e =>
    obtain ⟨rfl, -⟩ := Act.pure_eq_some.mp hrun
    cases hresult
  | ok made =>
    obtain ⟨i, r⟩ := made
    simp only [Act.bind_eq_some, Act.get_eq_some, Act.modify_eq_some, Act.pure_eq_some] at hrun
    obtain ⟨_, _, rfl, _, _, ⟨rfl, rfl⟩, report, q, hrefresh, _, _, ⟨rfl, rfl⟩, rfl, rfl⟩ := hrun
    simp only [Prod.mk.injEq] at hresult
    obtain ⟨hslots, hbox, hfailed, hsettled⟩ := hresult
    have hnode : i.node? 1 = some 1 := by rw [Instance.node?, hslots]; rfl
    exact ⟨i, r, built, report, q, hbuild, hrefresh, ⟨1, Or.inl Nat.one_ne_zero, hnode⟩,
      Page.inside_of_shownSlots hbox Nat.one_ne_zero rfl, hfailed, Page.isPending_of_isSettled? hsettled⟩

/-- A refresh returns and leaves none of the widgets that the template of the instance created with changes
pending. A widget further inside can have some only if it had some before and a widget around it had none, so
that the flush ended there. What receives the failures is taken to leave the components alone
(`Receiver.LeavesComponents`). -/
theorem refresh_settles_created_widgets {p : Page} {built : List Instance} (hp : p.Live Page.Defines built)
    {i : Instance} (hi : i ∈ built) (changed : Names) :
    ∃ report q, withHost (fun host => i.refresh host changed) p = some (report, q) ∧
      ∀ n, i.Created n → ¬q.IsPending n ∧ ∀ m, p.Within n m → q.IsPending m →
        p.IsPending m ∧ ∃ k, p.Within n k ∧ Relation.TransGen p.Inside k m ∧ ¬p.IsPending k := by
  have hsound : p.Sound True built := hp.sound fun _ _ htag => htag.2
  have hheld := hsound.held i hi
  obtain ⟨report, q, hrefresh⟩ := Instance.refresh_returns hsound.wellNested hsound.calm hheld changed
  refine ⟨report, q, withHost_eq_some.mpr hrefresh, fun n hn => ?_⟩
  have hdrained := Instance.refresh_drains hsound.wellNested hsound.calm hheld hrefresh
  have hexcused : ∀ m, p.Within n m → ¬i.Adopted m := fun m hm hadopted =>
    Nat.lt_irrefl m (Nat.lt_of_lt_of_le (hn.not_adopted hheld hadopted) (hsound.wellNested.within_le hm))
  have hsettled : ¬q.IsPending n := fun hpending => hexcused n .refl (hdrained.kept n (Or.inr hn) hpending)
  refine ⟨hsettled, fun m hm hpending => ⟨?_, ?_⟩⟩
  · by_contra hidle
    exact hexcused m hm (hdrained.kept m (Or.inl hidle) hpending)
  · by_contra hnone
    refine hdrained.passed hsettled hexcused hm (fun k hk hkm => ?_) hpending
    by_contra hidle
    exact hnone ⟨k, hk, hkm, hidle⟩

theorem refresh_settles_created_widgets_sampleCrate : ∃ p built i report q,
    p.Live Page.Defines built ∧ i ∈ built ∧ withHost (fun host => i.refresh host Dict.empty) p = some (report, q) ∧
    i.Created 1 ∧ p.Within 1 2 ∧ q.IsPending 2 ∧ ¬q.IsPending 1 ∧ p.IsPending 2 ∧
    ∃ k, p.Within 1 k ∧ Relation.TransGen p.Inside k 2 ∧ ¬p.IsPending k := by
  obtain ⟨i, r, built, report, q, hbuild, hrefresh, hcreated, hinside, -, hpending⟩ := sampleCrateRelabelling_run
  have hlive := (sampleCratePage_live.build sampleCrateTemplate_compiled hbuild).write 2 (.single "label") (.text "b")
  obtain ⟨_, _, hrefresh', hsettles⟩ := refresh_settles_created_widgets hlive List.mem_cons_self Dict.empty
  cases Option.some.inj (hrefresh'.symm.trans hrefresh)
  obtain ⟨hsettled, hinner⟩ := hsettles 1 hcreated
  obtain ⟨hbefore, hbetween⟩ := hinner 2 (.single hinside) hpending
  exact ⟨_, _, i, report, q, hlive, List.mem_cons_self, hrefresh, hcreated, .single hinside, hpending, hsettled,
    hbefore, hbetween⟩

/-- A refresh whose steps all succeed can leave a widget with changes pending that is within one that the
template created. -/
theorem refresh_misses_inner_widget : ∃ p built i report q n m,
    p.Live Page.Defines built ∧ i ∈ built ∧ withHost (fun host => i.refresh host Dict.empty) p = some (report, q) ∧
    report.failed = 0 ∧ i.Created n ∧ p.Within n m ∧ q.IsPending m := by
  obtain ⟨i, r, built, report, q, hbuild, hrefresh, hcreated, hinside, hfailed, hpending⟩ :=
    sampleCrateRelabelling_run
  have hlive := (sampleCratePage_live.build sampleCrateTemplate_compiled hbuild).write 2 (.single "label") (.text "b")
  exact ⟨_, _, i, report, q, 1, 2, hlive, List.mem_cons_self, hrefresh, hfailed, hcreated, .single hinside,
    hpending⟩

/-- The widgets that a build has made are connected and have nothing pending. -/
theorem Instance.Underway.new_settled {root : Option NodeId} {k : Nat} (hi : i.Underway True root p k [] q)
    {e : CustomElement} (hnew : p.custom? n = none) (he : q.custom? n = some e) :
    ∃ w shown, e = ⟨.widget w, false⟩ ∧ w.shown = some shown ∧
      (q.component w.component).pending.isEmpty = true := by
  obtain ⟨hn, w, shown, rfl, hw, hshown⟩ := hi.grown.connected hnew he
  refine ⟨w, shown, rfl, hshown, ?_⟩
  cases hpending : (q.component w.component).pending.isEmpty with
  | true => rfl
  | false =>
    obtain ⟨s, hs, -⟩ := hi.settled trivial n hn ⟨w, hw, hpending⟩
    cases hs

/-- A build whose elements nest finitely returns, with an instance if its component is free. All widgets that
it has made are then connected and have nothing pending, however deep they are nested. -/
theorem build_settles_new_widgets {p : Page} {built : List Instance} (hp : p.Live Page.Defines built) {t : Template}
    (ht : t.CompiledFor p.Defines) (hroot : t.createsRoot = true)
    (hfinite : ∀ tag ∈ t.createdTags, p.NestsFinitely tag) (c : ComponentId) (sink : Sink) :
    ∃ result q, t.instantiate c none sink p = some (result, q) ∧
      (p.access c = .free → ∃ i report, result = .ok (i, report)) ∧
      ∀ n e, p.custom? n = none → q.custom? n = some e →
        ∃ w shown, e = ⟨.widget w, false⟩ ∧ w.shown = some shown ∧
          (q.component w.component).pending.isEmpty = true := by
  have hsound : p.Sound True built := hp.sound fun _ _ htag => htag.2
  cases hobstacle : t.obstacle? c none p with
  | none =>
    obtain ⟨i, report, q, hbuild⟩ := Template.instantiate_returns sink hsound.wellNested ht.tends_strict hobstacle
      hfinite
    obtain ⟨hi, -⟩ := Template.instantiate_underway hsound.wellNested ht.tends_strict hbuild
    exact ⟨_, q, hbuild, fun _ => ⟨i, report, rfl⟩, fun n e hnew he => hi.new_settled hnew he⟩
  | some obstacle =>
    refine ⟨.error obstacle, p, withHost_eq_some.mpr ?_, fun hfree => ?_, fun n e hnew he => ?_⟩
    · exact Template.buildOn_of_obstacle hobstacle
    · simp [Template.obstacle?, hroot, hfree] at hobstacle
    · rw [hnew] at he
      cases he

theorem build_settles_new_widgets_sampleCrate :
    sampleCratePage.Live Page.Defines [] ∧ sampleCrateTemplate.CompiledFor sampleCratePage.Defines ∧
    sampleCrateTemplate.createsRoot = true ∧
    (∀ tag ∈ sampleCrateTemplate.createdTags, sampleCratePage.NestsFinitely tag) ∧
    ∃ result q w shown, sampleCrateTemplate.instantiate 0 none .warnings sampleCratePage = some (result, q) ∧
      q.custom? 2 = some ⟨.widget w, false⟩ ∧ w.shown = some shown ∧
      (q.component w.component).pending.isEmpty = true := by
  have hitem : (sampleCrateTemplate.instantiate 0 none .warnings sampleCratePage).map (·.2.isCustom 2) =
      some true := by
    decide +kernel
  have hfinite : ∀ tag ∈ sampleCrateTemplate.createdTags, sampleCratePage.NestsFinitely tag :=
    fun tag _ => sampleCratePage_nestsFinitely tag
  obtain ⟨result, q, hbuild, -, hsettled⟩ := build_settles_new_widgets sampleCratePage_live
    sampleCrateTemplate_compiled rfl hfinite 0 .warnings
  rw [hbuild] at hitem
  obtain ⟨e, he⟩ := Option.isSome_iff_exists.mp (Option.some.inj hitem)
  obtain ⟨w, shown, rfl, hrest⟩ := hsettled 2 e rfl he
  exact ⟨sampleCratePage_live, sampleCrateTemplate_compiled, rfl, hfinite, result, q, w, shown, hbuild, he, hrest⟩

end LiveMarkup
