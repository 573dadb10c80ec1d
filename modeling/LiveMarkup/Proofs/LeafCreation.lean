import LiveMarkup.Proofs.InnerBuild

namespace LiveMarkup

namespace Page

variable {strict : Prop} {p q r : Page} {n : NodeId} {t : Template} {i : Instance} {plan : Plan}

/-- The component of a new widget is the one that its blueprint makes. -/
theorem component_beginConnecting (p : Page) (n : NodeId) {d : Definition} {initial : Blueprint}
    (hd : d.kind = .widget t initial) :
    (p.beginConnecting n d).component p.components.size = (p.make initial).1 := by
  obtain ⟨c, routines, callbacks, hmake, -⟩ := p.make_frame initial
  have hcomponents : (p.beginConnecting n d).components = p.components.push ⟨c, .free, true⟩ := by
    simp only [beginConnecting, instantiate, hd, hmake, addComponent]
  rw [component, cell, hcomponents, Array.getElem?_push, if_pos rfl, hmake]
  rfl

theorem Connecting.leaf {k : Nat} (hp : p.WellNested strict) (h : p.Connecting n t q)
    (hi : i.Underway strict (some n) q k [] r) (hhoused : r.Housed strict n ⟨t, p.components.size, none⟩ i)
    (hplan : i.template.Planned plan) (hbound : i.BoundBelow i.template.slotNames.length)
    (hplain : ∀ s k, s ≠ 0 → i.node? s = some k → r.isCustom k = false)
    (hcurrent : i.Current plan r) :
    (r.finishConnecting n ⟨t, p.components.size, some i⟩).Leaf n i plan ∧
      i.Noted plan (r.finishConnecting n ⟨t, p.components.size, some i⟩) := by
  obtain ⟨hgrown, hwidget, -⟩ := h.grown hp hi hhoused r.connecting.dropLast rfl
  have hdeferred : ∀ (p : Page) (deferred : List DeferredWrite), p.Steady { p with deferred := deferred } :=
    fun p deferred => .of_elements rfl rfl rfl rfl fun _ => rfl
  refine ⟨Leaf.alike ⟨hplan, ⟨_, hwidget, rfl⟩, hbound, hi.injective, fun s k hs hk => ?_⟩
    (applyDeferred_touched hgrown.wellNested n).steady.toAlike, ?_⟩
  · have hne : k ≠ n := Nat.ne_of_gt (hhoused.inner s k hs hk).1
    rw [isCustom, custom?_modifyCustom, if_neg hne]
    exact hplain s k hs hk
  · refine Instance.Noted.applyWrites ?_ hplan (hgrown.wellNested.steady (hdeferred _ _)) _
    exact hcurrent.noted.same (fun _ _ _ _ => rfl) rfl

end Page

/-- A new widget without further widgets has noted all that it does not show. -/
theorem hostTo_create_leaf {strict : Prop} {depth : Nat} {p q : Page} {tag : String} {n : NodeId} {d : Definition}
    {t : Template} {initial : Blueprint} {plan : Plan} (hp : p.WellNested strict)
    (hd : p.registry.get? tag = some d) (hkind : d.kind = .widget t initial) (hplan : t.Planned plan)
    (hplain : ∀ s tag, .createElement s tag .html ∈ t.build → ¬p.Defines tag)
    (hinert : ∀ p' : Page, plan.CallbackFree (p'.make initial).1.get)
    (h : (hostTo depth).create tag .html p = some (n, q)) :
    ∃ i, i.template = t ∧ q.Leaf n i plan ∧ i.Noted plan q := by
  cases depth with
  | zero => cases h
  | succ depth =>
    obtain ⟨rfl, ⟨hnone, -⟩ | ⟨d', -, hd', hconnect⟩⟩ := createElementWith_eq_some.mp h
    · rw [hnone rfl] at hd
      cases hd
    rw [hd] at hd'
    cases hd'
    obtain ⟨t', initial', _, i, k, found, r, rfl, hkind', hadopts, hconnecting, hp₁, htends, hbuild, htemplate, hbound,
      hi, hhoused, rfl⟩ := connectElement_underway (hostTo_creates depth) (hostTo_flushes depth) hp hd hconnect
    cases hkind.symm.trans hkind'
    obtain ⟨hcurrent, hplain', -⟩ := Template.buildOn_inner hp₁ hplan htends hadopts
      (fun s tag hop => by rw [Page.Defines, hconnecting.registry]; exact hplain s tag hop)
      (Or.inl (hconnecting.isBusy hp)) (hconnecting.count ▸ Nat.lt_succ_self _) hconnecting.access_self
      (by rw [Page.component_beginConnecting _ _ hkind]; exact hinert _) hbuild
    exact ⟨i, htemplate, hconnecting.leaf hp hi hhoused (htemplate.symm ▸ hplan) (htemplate.symm ▸ hbound) hplain'
      hcurrent⟩

end LiveMarkup
