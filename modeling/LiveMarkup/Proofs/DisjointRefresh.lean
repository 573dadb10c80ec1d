import LiveMarkup.Proofs.HostedPage
import LiveMarkup.Proofs.Regions

namespace LiveMarkup

variable {p q : Page} {R S : Region} {i : Instance}

/-- Two changes of disjoint parts, made one after the other, come to the same in either order. -/
theorem eq_of_disjoint_changes {inR inS : Prop} {x xR xS y y' : α} (hdisjoint : ¬(inR ∧ inS))
    (hxR : ¬inR → xR = x) (hxS : ¬inS → xS = x) (hy : inS → y = xS) (hy' : ¬inS → y = xR)
    (hz : inR → y' = xR) (hz' : ¬inR → y' = xS) : y = y' := by
  by_cases hR : inR
  · have hS : ¬inS := fun hS => hdisjoint ⟨hR, hS⟩
    rw [hy' hS, hz hR]
  · rw [hz' hR]
    by_cases hS : inS
    · exact hy hS
    · rw [hy' hS, hxR hR, hxS hS]

/-- No node and no component of either region is in the other, and neither reads what the other may write. -/
structure Region.Apart (R S : Region) : Prop where
  nodes : ∀ n, ¬(R.nodes n ∧ S.nodes n)
  left : ∀ c, R.components c → ¬S.Reads c
  right : ∀ c, S.components c → ¬R.Reads c

theorem Region.Apart.symm (h : R.Apart S) : S.Apart R :=
  ⟨fun n hn => h.nodes n hn.symm, h.right, h.left⟩

theorem Page.DiffersIn.agreesOn (h : p.DiffersIn R q) (hRS : R.Apart S) :
    p.AgreesOn S q where
  registry := h.registry
  connecting := h.connecting
  nodes n hn := h.nodes n fun hR => hRS.nodes n ⟨hR, hn⟩
  elements n hn := h.elements n fun hR => hRS.nodes n ⟨hR, hn⟩
  components c hc := h.components c fun hR => hRS.left c hR hc

/-- Acts that keep to regions apart from each other give the same in either order. -/
theorem Act.KeepsTo.commute (hRS : R.Apart S) {m : Act α} {m' : Act β} {pR pS : Page} {a : α} {b : β}
    (hm : m p = some (a, pR)) (hm' : m' p = some (b, pS)) (hR : Act.KeepsTo R p m) (hS : Act.KeepsTo S p m')
    (hR' : Act.KeepsTo R pS m) (hS' : Act.KeepsTo S pR m') :
    ∃ q q', m' pR = some (b, q) ∧ m pS = some (a, q') ∧ q.document = q'.document ∧
      q.components = q'.components ∧ ∀ n, q.custom? n = q'.custom? n := by
  obtain ⟨hpR, hsameR⟩ := hR a pR hm
  obtain ⟨hpS, hsameS⟩ := hS b pS hm'
  -- each act finds its region as it was, whether or not the other has run
  obtain ⟨q, hq, hqS⟩ := hsameS pR (hpR.agreesOn hRS)
  obtain ⟨q', hq', hqR⟩ := hsameR pS (hpS.agreesOn hRS.symm)
  have hqR' : pR.DiffersIn S q := (hS' b q hq).1
  have hqS' : pS.DiffersIn R q' := (hR' a q' hq').1
  have hdisjoint : ∀ c, ¬(R.components c ∧ S.components c) := fun c hc => hRS.left c hc.1 (Or.inr hc.2)
  refine ⟨q, q', hq, hq', congrArg Document.mk (Array.ext_getElem? fun n => ?_), Array.ext_getElem? fun c => ?_,
    fun n => ?_⟩
  · exact eq_of_disjoint_changes (hRS.nodes n) (hpR.nodes n) (hpS.nodes n) (hqS.nodes n) (hqR'.nodes n)
      (hqR.nodes n) (hqS'.nodes n)
  · exact eq_of_disjoint_changes (hdisjoint c) (hpR.components c) (hpS.components c)
      (fun hc => hqS.components c (Or.inr hc)) (hqR'.components c) (fun hc => hqR.components c (Or.inr hc))
      (hqS'.components c)
  · exact eq_of_disjoint_changes (hRS.nodes n) (hpR.elements n) (hpS.elements n) (hqS.elements n)
      (hqR'.elements n) (hqR.elements n) (hqS'.elements n)

namespace Instance

variable {strict : Prop}

/-- What belongs to an instance: the nodes in its scope, the components of the widgets there, and its own
component, which it only reads. -/
def region (i : Instance) (p : Page) : Region where
  nodes := i.Scope p
  components c := ∃ n w, i.Scope p n ∧ p.widget? n = some w ∧ w.component = c
  shown := i.component

theorem covers_region (hi : p.Holds strict i) : (i.region p).Covers i where
  component := Or.inl rfl
  nodes s n hn := ⟨s, n, hn, .refl⟩
  inPlace := hi.tends.inPlace

/-- A scope goes on into the widgets in it. -/
theorem encloses_region (hp : p.WellNested strict) (i : Instance) : p.Encloses (i.region p) := by
  intro n e hn he
  obtain ⟨w, hbehaviour, hw⟩ := hp.behaviour he
  have hcomponent : (i.region p).components w.component := ⟨n, w, hn, hw, rfl⟩
  refine ⟨w, hbehaviour, hcomponent, fun j hj => ?_⟩
  have hhoused := (hp.living n w hw).shown j hj
  refine ⟨hhoused.component, Or.inr (hhoused.component ▸ hcomponent), fun s k hk => ?_, hhoused.tends.inPlace⟩
  by_cases hs : s = 0
  · subst hs
    rw [hhoused.root] at hk
    cases hk
    exact hn
  · obtain ⟨s', m, hm, hwithin⟩ := hn
    exact ⟨s', m, hm, hwithin.tail ⟨w, j, s, hw, hj, hs, hk⟩⟩

/-- Instances with disjoint scopes have nothing in common that either could write. -/
theorem region_apart {a b : Instance} (hp : p.WellNested strict) (ha : p.IsOuter a.component)
    (hb : p.IsOuter b.component) (hdisjoint : ∀ n, ¬(a.Scope p n ∧ b.Scope p n)) :
    (a.region p).Apart (b.region p) := by
  have hwrites : ∀ {a b : Instance}, p.IsOuter b.component → (∀ n, ¬(a.Scope p n ∧ b.Scope p n)) →
      ∀ c, (a.region p).components c → ¬(b.region p).Reads c := by
    rintro a b hb hdisjoint c ⟨n, w, hn, hw, rfl⟩ (hc | ⟨n', w', hn', hw', hc⟩)
    · exact hb.apart n w hw hc
    · cases hp.distinct n' n w' w hw' hw hc
      exact hdisjoint n ⟨hn, hn'⟩
  exact ⟨hdisjoint, hwrites hb hdisjoint, hwrites ha fun n hn => hdisjoint n hn.symm⟩

/-- A refresh keeps to what belongs to the instance, also after a change of something else. -/
theorem refresh_keepsTo_region (hp : p.WellNested strict) (hi : p.Holds strict i) (hq : p.DiffersIn S q) (depth : Nat)
    (changed : Names) : Act.KeepsTo (i.region p) q (i.refresh (hostTo depth) changed) :=
  refresh_keepsTo (hostTo_keepsTo _ depth) (covers_region hi) ((encloses_region hp i).differsIn hq) changed

theorem scope_lt (hp : p.WellNested strict) (hi : p.Holds strict i) {n : NodeId} (hn : i.Scope p n) :
    n < p.document.size := by
  obtain ⟨s, m, hm, hwithin⟩ := hn
  cases hwithin with
  | refl => exact hi.within s n hm
  | tail _ hk => exact (hp.inside_bounds hk).2

/-- What was there before belongs to the same instances as it did. -/
theorem scope_of_grown {root : Option NodeId} (hp : p.WellNested strict) (hi : p.Holds strict i)
    (hq : p.Grown strict root q) {n : NodeId} (hn : i.Scope q n) : i.Scope p n := by
  obtain ⟨s, m, hm, hwithin⟩ := hn
  refine ⟨s, m, hm, ?_⟩
  induction hwithin with
  | refl => exact .refl
  | @tail k l _ hl ih =>
    have hk : k < p.document.size := scope_lt hp hi ⟨s, m, hm, ih⟩
    exact ih.tail ((Page.inside_congr (hq.old k hk)).mp hl)

end Instance

/-- An instance whose template creates its root has nothing in common with the instances before it. -/
theorem Template.instantiate_disjoint {strict : Prop} {t : Template} {c : ComponentId} {root : Option NodeId}
    {sink : Sink} {j : Instance} {report : Report} (hp : p.WellNested strict) (ht : t.Tends (p.Tended strict))
    (hroot : t.createsRoot = true) (hj : p.Holds strict j)
    (h : t.instantiate c root sink p = some (.ok (i, report), q)) (n : NodeId) : ¬(j.Scope q n ∧ i.Scope q n) := by
  obtain ⟨hi, htemplate, -, -⟩ := Template.instantiate_underway hp ht h
  -- what the new instance has came after all that was there
  rintro ⟨hold, s, m, hm, hwithin⟩
  have hlt : n < p.document.size := Instance.scope_lt hp hj (Instance.scope_of_grown hp hj hi.grown hold)
  have hcreates : i.template.Creates s := Or.inr (htemplate ▸ hroot)
  have hle : p.document.size ≤ m := (hi.created_iff hm).mp hcreates
  exact Nat.not_le.mpr hlt (Nat.le_trans hle (hi.grown.wellNested.within_le hwithin))

/-- A refresh returns and changes no node, no element and no component of a widget but those in the scope of
the instance. Refreshes of two instances with disjoint scopes give the same reports, the same document, the
same components and the same elements in either order. What receives the failures of either is taken to leave the
components alone (`Receiver.LeavesComponents`). -/
theorem disjoint_refreshes_commute {p : Page} {built : List Instance} (hp : p.Hosted built) :
    (∀ i ∈ built, ∀ changed, ∃ report q, withHost (fun host => i.refresh host changed) p = some (report, q) ∧
      (∀ n, ¬i.Scope p n → q.document.nodes[n]? = p.document.nodes[n]? ∧ q.custom? n = p.custom? n) ∧
      ∀ c, (¬∃ n w, i.Scope p n ∧ p.widget? n = some w ∧ w.component = c) →
        q.components[c]? = p.components[c]?) ∧
    ∀ a ∈ built, ∀ b ∈ built, (∀ n, ¬(a.Scope p n ∧ b.Scope p n)) → ∀ ca cb, ∃ ra rb pa pb q q',
      withHost (fun host => a.refresh host ca) p = some (ra, pa) ∧
      withHost (fun host => b.refresh host cb) pa = some (rb, q) ∧
      withHost (fun host => b.refresh host cb) p = some (rb, pb) ∧
      withHost (fun host => a.refresh host ca) pb = some (ra, q') ∧
      q.document = q'.document ∧ q.components = q'.components ∧ ∀ n, q.custom? n = q'.custom? n := by
  obtain ⟨hsound, houter⟩ := hp.sound
  have hwell := hsound.wellNested
  have hreturns : ∀ i ∈ built, ∀ changed, ∃ report q,
      i.refresh (hostTo p.nesting) changed p = some (report, q) ∧ p.DiffersIn (i.region p) q := by
    intro i hi changed
    obtain ⟨report, q, hq⟩ := Instance.refresh_returns hwell hsound.calm (hsound.held i hi) changed
    have hkeeps := Instance.refresh_keepsTo_region hwell (hsound.held i hi) (.refl (i.region p) p) p.nesting changed
    exact ⟨report, q, hq, (hkeeps report q hq).1⟩
  constructor
  · intro i hi changed
    obtain ⟨report, q, hq, hdiffers⟩ := hreturns i hi changed
    exact ⟨report, q, withHost_eq_some.mpr hq, fun n hn => ⟨hdiffers.nodes n hn, hdiffers.elements n hn⟩,
      hdiffers.components⟩
  · intro a ha b hb hdisjoint ca cb
    obtain ⟨ra, pa, hpa, hdiffersA⟩ := hreturns a ha ca
    obtain ⟨rb, pb, hpb, hdiffersB⟩ := hreturns b hb cb
    have hapart := Instance.region_apart hwell (houter a ha) (houter b hb) hdisjoint
    have hkeepsA := fun {S : Region} {q : Page} (hq : p.DiffersIn S q) =>
      Instance.refresh_keepsTo_region hwell (hsound.held a ha) hq p.nesting ca
    have hkeepsB := fun {S : Region} {q : Page} (hq : p.DiffersIn S q) =>
      Instance.refresh_keepsTo_region hwell (hsound.held b hb) hq p.nesting cb
    obtain ⟨q, q', hq, hq', hsame⟩ := Act.KeepsTo.commute hapart hpa hpb (hkeepsA (.refl (a.region p) p))
      (hkeepsB (.refl (b.region p) p)) (hkeepsA hdiffersB) (hkeepsB hdiffersA)
    have hnestingA : pa.nesting = p.nesting := by rw [Page.nesting, hdiffersA.registry, Page.nesting]
    have hnestingB : pb.nesting = p.nesting := by rw [Page.nesting, hdiffersB.registry, Page.nesting]
    exact ⟨ra, rb, pa, pb, q, q', withHost_eq_some.mpr hpa, withHost_eq_some.mpr (hnestingA ▸ hq),
      withHost_eq_some.mpr hpb, withHost_eq_some.mpr (hnestingB ▸ hq'), hsame⟩

/-- The page of the shelf with a component for one more. -/
def sampleShelvesPage : Page :=
  (sampleShelfPage.addComponent ((Component.named "shelf").withProp "name" (.text "b"))).2

theorem sampleShelvesPage_hosted : sampleShelvesPage.Hosted [] := by
  have hdefined : ∃ fresh p, Page.empty.defineWidget "x-item" sampleItemTemplate
      ⟨"item", [("label", .fixed .null)], []⟩ = .ok (fresh, p) ∧ sampleShelvesPage.registry = p.registry ∧
      sampleShelvesPage.elements = p.elements ∧ p.elements = [] ∧ p.document.size = 0 ∧ p.components.size = 0 :=
    ⟨_, _, rfl, rfl, rfl, rfl, rfl, rfl⟩
  obtain ⟨fresh, p, hdefine, hregistry, helements, hnone, hsize, hcount⟩ := hdefined
  refine .change (.define (.start rfl rfl) sampleItemTemplate_compiled hdefine) hregistry helements
    (hsize ▸ Nat.zero_le _) (hcount ▸ Nat.zero_le _) fun n w hw => ?_
  rw [Page.widget?, Page.custom?, hnone] at hw
  cases hw

theorem sampleShelvesPage_outer {c : ComponentId} (hc : c < 2) : sampleShelvesPage.IsOuter c where
  known := hc
  apart n w hw := by cases hw

/-- Builds two shelves, gives both another name, and refreshes one after the other. Tells the texts of the two
items before and after, and how many steps failed. -/
def sampleShelvesRenaming : Act (List (Option String) × List (Option String) × Nat) := do
  match ← sampleShelfTemplate.instantiate 0 none .warnings with
  | .error _ => return ([], [], 0)
  | .ok (a, _) =>
    match ← sampleShelfTemplate.instantiate 1 none .warnings with
    | .error _ => return ([], [], 0)
    | .ok (b, _) =>
      modify (·.modifyComponent 0 (·.set "name" (.text "c")))
      modify (·.modifyComponent 1 (·.set "name" (.text "d")))
      let before := [2, 5].map (← get).document.text?
      let first ← withHost fun host => a.refresh host (Names.ofList ["name"])
      let second ← withHost fun host => b.refresh host (Names.ofList ["name"])
      return (before, [2, 5].map (← get).document.text?, first.failed + second.failed)

theorem sampleShelvesRenaming_result : (sampleShelvesRenaming sampleShelvesPage).map (·.1) =
    some ([some "a", some "b"], [some "c", some "d"], 0) := by
  decide +kernel

/-- What happened to the two shelves. -/
theorem sampleShelvesRenaming_run : ∃ a b reportA reportB p₁ p₂ p ra rb pa q,
    sampleShelfTemplate.instantiate 0 none .warnings sampleShelvesPage = some (.ok (a, reportA), p₁) ∧
    sampleShelfTemplate.instantiate 1 none .warnings p₁ = some (.ok (b, reportB), p₂) ∧
    (p₂.modifyComponent 0 (·.set "name" (.text "c"))).modifyComponent 1 (·.set "name" (.text "d")) = p ∧
    withHost (fun host => a.refresh host (Names.ofList ["name"])) p = some (ra, pa) ∧
    withHost (fun host => b.refresh host (Names.ofList ["name"])) pa = some (rb, q) ∧
    [2, 5].map p.document.text? = [some "a", some "b"] ∧ [2, 5].map q.document.text? = [some "c", some "d"] := by
  obtain ⟨⟨texts, _⟩, hrun, htexts⟩ := Option.map_eq_some_iff.mp sampleShelvesRenaming_result
  simp only [sampleShelvesRenaming, Act.bind_eq_some] at hrun
  obtain ⟨first, p₁, hfirst, hrun⟩ := hrun
  cases first with
  | error e =>
    obtain ⟨rfl, -⟩ := Act.pure_eq_some.mp hrun
    cases htexts
  | ok first =>
    obtain ⟨a, reportA⟩ := first
    simp only [Act.bind_eq_some] at hrun
    obtain ⟨second, p₂, hsecond, hrun⟩ := hrun
    cases second with
    | error e =>
      obtain ⟨rfl, -⟩ := Act.pure_eq_some.mp hrun
      cases htexts
    | ok second =>
      obtain ⟨b, reportB⟩ := second
      simp only [Act.bind_eq_some, Act.get_eq_some, Act.modify_eq_some, Act.pure_eq_some] at hrun
      obtain ⟨_, _, rfl, _, p, hp, _, _, ⟨rfl, rfl⟩, ra, pa, hpa, rb, q, hq, _, _, ⟨rfl, rfl⟩, rfl, rfl⟩ := hrun
      simp only [Prod.mk.injEq] at htexts
      exact ⟨a, b, reportA, reportB, p₁, p₂, p, ra, rb, pa, q, hfirst, hsecond, hp, hpa, hq, htexts.1, htexts.2.1⟩

theorem disjoint_refreshes_commute_sampleShelves : ∃ p a b, p.Hosted [b, a] ∧
    (∀ n, ¬(a.Scope p n ∧ b.Scope p n)) ∧ [2, 5].map p.document.text? = [some "a", some "b"] ∧
    ∃ ra rb pa pb q q',
      withHost (fun host => a.refresh host (Names.ofList ["name"])) p = some (ra, pa) ∧
      withHost (fun host => b.refresh host (Names.ofList ["name"])) pa = some (rb, q) ∧
      withHost (fun host => b.refresh host (Names.ofList ["name"])) p = some (rb, pb) ∧
      withHost (fun host => a.refresh host (Names.ofList ["name"])) pb = some (ra, q') ∧
      q.document = q'.document ∧ q.components = q'.components ∧ (∀ n, q.custom? n = q'.custom? n) ∧
      [2, 5].map q'.document.text? = [some "c", some "d"] := by
  obtain ⟨a, b, _, _, p₁, p₂, p, ra, rb, pa, q, hfirst, hsecond, hp, hpa, hq, hbefore, hafter⟩ :=
    sampleShelvesRenaming_run
  have htends : ∀ p : Page, sampleShelfTemplate.Tends (p.Tended False) := fun p =>
    p.tended_false ▸ sampleShelfTemplate_compiled.tends
  have hosted₁ : p₁.Hosted [a] := sampleShelvesPage_hosted.build sampleShelfTemplate_compiled
    (sampleShelvesPage_outer (by decide)) hfirst
  obtain ⟨hbuilt, -, -, -⟩ :=
    Template.instantiate_underway sampleShelvesPage_hosted.sound.1.wellNested (htends _) hfirst
  have hosted₂ : p₂.Hosted [b, a] := hosted₁.build sampleShelfTemplate_compiled
    ((sampleShelvesPage_outer (by decide)).grown hbuilt.grown) hsecond
  have hrenamed := (p₂.undisturbed_modifyComponent 0 (·.set "name" (.text "c"))).trans
    (Page.undisturbed_modifyComponent _ 1 (·.set "name" (.text "d")))
  rw [hp] at hrenamed
  have hosted : p.Hosted [b, a] := by
    refine hosted₂.change hrenamed.registry hrenamed.elements (Nat.le_of_eq (by rw [hrenamed.document]))
      (Nat.le_of_eq hrenamed.count.symm) fun n w hw => ?_
    rw [hrenamed.access]
    exact (hosted₂.sound.1.wellNested.living n w hw).free
  have hdisjoint : ∀ n, ¬(a.Scope p n ∧ b.Scope p n) := by
    simp only [Instance.Scope, hrenamed.steady.within]
    exact Template.instantiate_disjoint hosted₁.sound.1.wellNested (htends _) rfl
      (hosted₁.sound.1.held a List.mem_cons_self) hsecond
  obtain ⟨_, _, _, pb, _, q', hpa', hq₁, hpb, hq', hdocument, hcomponents, hcustom⟩ :=
    (disjoint_refreshes_commute hosted).2 a (List.mem_cons_of_mem b List.mem_cons_self) b List.mem_cons_self
      hdisjoint (Names.ofList ["name"]) (Names.ofList ["name"])
  cases hpa.symm.trans hpa'
  cases hq.symm.trans hq₁
  exact ⟨p, a, b, hosted, hdisjoint, hbefore, ra, rb, pa, pb, q, q', hpa, hq, hpb, hq', hdocument, hcomponents,
    hcustom, hdocument ▸ hafter⟩

end LiveMarkup
