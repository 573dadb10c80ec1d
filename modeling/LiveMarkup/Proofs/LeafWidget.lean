import LiveMarkup.Proofs.Changes
import LiveMarkup.Proofs.InnerDelivery

namespace LiveMarkup

variable {strict : Prop} {p q : Page} {n : NodeId} {i : Instance} {plan : Plan}

namespace Page

/-- The widget at the node shows an instance whose other nodes are plain ones. -/
structure Leaf (p : Page) (n : NodeId) (i : Instance) (plan : Plan) : Prop where
  planned : i.template.Planned plan
  shown : ∃ w, p.widget? n = some w ∧ w.shown = some i
  bound : i.BoundBelow i.template.slotNames.length
  injective : ∀ s s' k, i.node? s = some k → i.node? s' = some k → s = s'
  plain : ∀ s k, s ≠ 0 → i.node? s = some k → p.isCustom k = false

theorem Leaf.alike (h : p.Leaf n i plan) (hq : p.Alike q) : q.Leaf n i plan where
  planned := h.planned
  shown := by
    rw [hq.widget?]
    exact h.shown
  bound := h.bound
  injective := h.injective
  plain s k hs hk := (hq.isCustom k).trans (h.plain s k hs hk)

theorem Leaf.housed (h : p.Leaf n i plan) (hp : p.WellNested strict) :
    ∃ w, p.widget? n = some w ∧ w.shown = some i ∧ p.Housed strict n w i := by
  obtain ⟨w, hw, hshown⟩ := h.shown
  exact ⟨w, hw, hshown, (hp.living n w hw).shown i hshown⟩

theorem Leaf.grown {root : Option NodeId} (h : p.Leaf n i plan) (hp : p.WellNested strict)
    (hq : p.Grown strict root q) : q.Leaf n i plan where
  planned := h.planned
  shown := by
    obtain ⟨w, hw, hshown⟩ := h.shown
    exact ⟨w, (widget?_congr (hq.old n (hp.living n w hw).within)).trans hw, hshown⟩
  bound := h.bound
  injective := h.injective
  plain s k hs hk := by
    obtain ⟨w, hw, hshown, hhoused⟩ := h.housed hp
    rw [isCustom, hq.old k (hhoused.inner s k hs hk).2]
    exact h.plain s k hs hk

theorem Leaf.sheltered (h : p.Leaf n i plan) (hp : p.WellNested strict) (hbusy : p.IsBusy n) : i.Sheltered p where
  injective := h.injective
  plain := h.plain
  root m hm := by
    obtain ⟨w, -, -, hhoused⟩ := h.housed hp
    rw [hhoused.root] at hm
    cases hm
    exact Or.inl hbusy
  free := by
    obtain ⟨w, hw, -, hhoused⟩ := h.housed hp
    rw [hhoused.component]
    exact (hp.living n w hw).free

theorem Leaf.owned (h : p.Leaf n i plan) (hp : p.WellNested strict) : i.component < p.components.size := by
  obtain ⟨w, hw, -, hhoused⟩ := h.housed hp
  rw [hhoused.component]
  exact (hp.living n w hw).owned

/-- Flushing the widget brings the nodes below its root up to date. -/
theorem Leaf.flush {depth : Nat} {result : Except Fault Nat} (h : p.Leaf n i plan) (hp : p.WellNested strict)
    (hyoung : ∀ m, p.IsBusy m → m < n) (hflush : (hostTo depth).flush n p = some (result, q)) :
    (q.component i.component).props = (p.component i.component).props ∧
      (plan.CallbackFree (p.component i.component).get → i.Noted plan p → i.Current plan q) := by
  cases depth with
  | zero => cases hflush
  | succ depth =>
    obtain ⟨w, hw, hshown, hhoused⟩ := h.housed hp
    have hfree : ¬p.IsBusy n := fun hbusy => Nat.lt_irrefl n (hyoung n hbusy)
    obtain ⟨report, p₁, hdeliver, -, rfl⟩ := (flushWith_eq_some hp hw hshown hfree).mp hflush
    have hcustom := isCustom_of_widget? hw
    obtain ⟨hp', hbusy, -⟩ := hp.setBusy hcustom hyoung
    have hleaf := h.alike (p.alike_setBusy n true)
    obtain ⟨hprops, hcurrent⟩ := Instance.deliverRounds_inner hp' (hleaf.sheltered hp' hbusy) h.planned
      hhoused.tends hhoused.adopts (hleaf.owned hp') hdeliver
    exact ⟨hprops, fun hinert hnoted => hcurrent hinert hnoted⟩

end Page

namespace Instance

/-- A change that notes every property it changes. -/
theorem Noted.changed (h : i.Noted plan p) (hplan : i.template.Planned plan)
    (hkinds : ∀ s n, s ≠ 0 → i.node? s = some n → q.document.kind? n = p.document.kind? n)
    (hnoted : ∀ name, (q.component i.component).get name = (p.component i.component).get name ∨
      (q.component i.component).pending.contains name = true)
    (hpending : ∀ name, (p.component i.component).pending.contains name = true →
      (q.component i.component).pending.contains name = true) : i.Noted plan q :=
  h.mono hkinds fun sub hsub hs place hplace _ hsettled =>
    hsettled.changed (hplan.language sub hsub hs place hplace) hnoted hpending

theorem Noted.same (h : i.Noted plan p)
    (hkinds : ∀ s n, s ≠ 0 → i.node? s = some n → q.document.kind? n = p.document.kind? n)
    (hstate : (q.component i.component).state = (p.component i.component).state) : i.Noted plan q := by
  have hpending : (q.component i.component).pending = (p.component i.component).pending := Component.pending_of_state hstate
  rw [Noted, hpending]
  exact Shows.congr h hkinds (Component.props_of_state hstate)

theorem Noted.writeWidget (h : i.Noted plan p) (hplan : i.template.Planned plan) (w : Widget) (path : PropertyPath)
    (v : Value) : i.Noted plan (p.writeWidget w path v) := by
  unfold Page.writeWidget
  split
  · have hcell := p.cell_modifyComponent w.component i.component (·.set path.display v)
    split at hcell
    next hc =>
      have hset : (p.modifyComponent w.component (·.set path.display v)).component i.component =
          (p.component i.component).set path.display v := by
        rw [Page.component, hcell, ← hc.1, Page.component]
      refine h.changed hplan (fun _ _ _ _ => rfl) ?_ ?_
      · rw [hset]
        exact Component.noted_set _ _ _
      · rw [hset]
        exact Component.contains_set _ _ _
    next =>
      refine h.same (fun _ _ _ _ => rfl) ?_
      rw [Page.component, hcell, Page.component]
  · exact h.same (fun _ _ _ _ => rfl) rfl

/-- What a write to the widget changes is noted. -/
theorem Noted.write (h : i.Noted plan p) (hleaf : p.Leaf n i plan) (hp : p.WellNested strict) (path : PropertyPath)
    (v : Value) : i.Noted plan (p.setProperty n path v) := by
  unfold Page.setProperty
  split
  · cases he : p.custom? n with
    | none => exact h
    | some e =>
      obtain ⟨w, hbehaviour, -⟩ := hp.behaviour he
      dsimp only
      split
      · rw [hbehaviour]
        exact h.writeWidget hleaf.planned w path v
      · split <;> exact h.same (fun _ _ _ _ => rfl) rfl
  · refine h.same (fun s k hs hk => p.document.kind?_modifyNode_of_ne ?_ _) rfl
    rintro rfl
    obtain ⟨w, -, -, hhoused⟩ := hleaf.housed hp
    exact Nat.lt_irrefl _ (hhoused.inner s k hs hk).1

/-- So it is with writes that had to wait. -/
theorem Noted.applyWrites (h : i.Noted plan p) (hplan : i.template.Planned plan) (hp : p.WellNested strict)
    (writes : List DeferredWrite) : i.Noted plan (p.applyWrites n writes) := by
  induction writes generalizing p with
  | nil => exact h
  | cons write rest ih =>
    have hfirst := Page.applyWrites_touched hp n [write]
    simp only [Page.applyWrites] at hfirst ⊢
    cases he : p.custom? n with
    | none => exact ih h hp
    | some e =>
      obtain ⟨w, hbehaviour, -⟩ := hp.behaviour he
      simp only [he] at hfirst ⊢
      split
      next hbusy =>
        rw [if_pos hbusy] at hfirst
        exact ih (h.same (fun _ _ _ _ => rfl) rfl) (hp.steady hfirst.steady)
      next hbusy =>
        rw [if_neg hbusy] at hfirst
        refine ih ?_ (hp.steady hfirst.steady)
        rw [hbehaviour]
        exact h.writeWidget hplan w write.path write.value

end Instance

end LiveMarkup
