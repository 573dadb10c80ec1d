import LiveMarkup.Proofs.SlotOrder

namespace LiveMarkup

mutual

/-- The instructions of a plan write to its own slots, and append none but those below its root. -/
theorem Plan.build_range : ∀ {k : Nat} {plan : Plan}, plan.NumberedFrom k → ∀ op ∈ plan.build,
    op.slot ∈ List.range' k plan.size ∧
      ∀ q c : Nat, op = .appendChild q c → k < c ∧ c < k + plan.size
  | k, .text slot spec, h, op, hop => by
    cases h
    cases List.mem_singleton.mp hop
    exact ⟨List.mem_singleton_self _, fun q c heq => nomatch heq⟩
  | k, .element head children, h, op, hop => by
    rw [List.mem_range'_1, Plan.size]
    rcases List.mem_append.mp hop with hop | hop
    · obtain ⟨create, rest, heq, hcreate, hrest⟩ := head.build_eq
      have hm : op.mentions = [head.slot] := by
        rcases List.mem_cons.mp (heq ▸ hop) with rfl | hop
        · exact Op.mem_mentions_of_bound hcreate
        · exact (hrest op hop).2
      have hs : op.slot = k := (List.mem_singleton.mp (hm ▸ op.slot_mem_mentions)).trans h.1
      refine ⟨by rw [hs]; omega, ?_⟩
      rintro q c rfl
      simp [Op.mentions] at hm
    · obtain ⟨hslot, happend⟩ := Plan.buildChildren_range head.slot h.2 op hop
      refine ⟨?_, fun q c heq => ?_⟩
      · rcases hslot with hs | hs
        · rw [hs.trans h.1]
          omega
        · have := List.mem_range'_1.mp hs
          omega
      · have := happend q c heq
        omega

theorem Plan.buildChildren_range (parent : Nat) : ∀ {k : Nat} {plans : List Plan},
    Plan.AllNumberedFrom k plans → ∀ op ∈ Plan.buildChildren parent plans,
    (op.slot = parent ∨ op.slot ∈ List.range' k (Plan.sizeAll plans)) ∧
      ∀ q c : Nat, op = .appendChild q c → k ≤ c ∧ c < k + Plan.sizeAll plans
  | k, [], _, op, hop => nomatch hop
  | k, child :: rest, h, op, hop => by
    rw [List.mem_range'_1, Plan.sizeAll]
    rcases List.mem_append.mp hop with hop | hop
    · obtain ⟨hslot, happend⟩ := Plan.build_range h.1 op hop
      have hs := List.mem_range'_1.mp hslot
      refine ⟨Or.inr (by omega), fun q c heq => ?_⟩
      have := happend q c heq
      omega
    · rcases List.mem_cons.mp hop with rfl | hop
      · refine ⟨Or.inl rfl, fun q c heq => ?_⟩
        have hc : c = k := (Op.appendChild.inj heq).2.symm.trans h.1.slot_eq
        have := child.size_pos
        omega
      · obtain ⟨hslot, happend⟩ := Plan.buildChildren_range parent h.2 op hop
        refine ⟨hslot.imp_right fun hs => ?_, fun q c heq => ?_⟩
        · have := List.mem_range'_1.mp hs
          omega
        · have := happend q c heq
          omega

end

/-- The slot `s` is appended once, to a smaller slot, and after every instruction that writes to one of
the `size` slots from `s` on. -/
def Op.AppendedOnce (s size : Nat) (ops : List Op) : Prop :=
  ∃ parent before after, ops = before ++ .appendChild parent s :: after ∧ parent < s ∧
    (∀ op ∈ after, op.slot ∉ List.range' s size) ∧
    ∀ op ∈ before ++ after, ∀ q, op ≠ .appendChild q s

theorem Op.AppendedOnce.between {s size : Nat} {ops : List Op} (h : Op.AppendedOnce s size ops)
    (earlier later : List Op) (hearlier : ∀ op ∈ earlier, ∀ q, op ≠ .appendChild q s)
    (hlater : ∀ op ∈ later, op.slot ∉ List.range' s size ∧ ∀ q, op ≠ .appendChild q s) :
    Op.AppendedOnce s size (earlier ++ (ops ++ later)) := by
  obtain ⟨parent, before, after, rfl, hparent, hafter, honly⟩ := h
  refine ⟨parent, earlier ++ before, after ++ later, by simp, hparent, ?_, ?_⟩
  · intro op hop
    rcases List.mem_append.mp hop with hop | hop
    · exact hafter op hop
    · exact (hlater op hop).1
  · intro op hop
    simp only [List.mem_append] at hop
    rcases hop with (hop | hop) | hop | hop
    · exact hearlier op hop
    · exact honly op (List.mem_append_left _ hop)
    · exact honly op (List.mem_append_right _ hop)
    · exact (hlater op hop).2

mutual

theorem Plan.build_appended : ∀ {k : Nat} {plan : Plan}, plan.NumberedFrom k → ∀ {j : Nat} {sub : Plan},
    0 < j → plan.preorder[j]? = some sub → Op.AppendedOnce (k + j) sub.size plan.build
  | k, .text slot spec, _, j, sub, hj, hsub => by
    simp [Plan.preorder, Nat.ne_of_gt hj] at hsub
  | k, .element head children, h, j, sub, hj, hsub => by
    obtain ⟨i, rfl⟩ : ∃ i, j = i + 1 := ⟨j - 1, by omega⟩
    have hsub' : (Plan.preorderAll children)[i]? = some sub := by simpa [Plan.preorder] using hsub
    have happended := Plan.buildChildren_appended (Nat.lt_succ_self k) h.2 hsub'
    have hown : ∀ op ∈ head.build, ∀ q, op ≠ .appendChild q (k + 1 + i) := by
      rintro op hop q rfl
      exact PlanHead.appendChild_not_mem_build hop
    rw [show k + (i + 1) = k + 1 + i by omega, Plan.build, h.1]
    simpa using happended.between head.build [] hown (by simp)

theorem Plan.buildChildren_appended : ∀ {parent k : Nat} {plans : List Plan}, parent < k →
    Plan.AllNumberedFrom k plans → ∀ {j : Nat} {sub : Plan}, (Plan.preorderAll plans)[j]? = some sub →
    Op.AppendedOnce (k + j) sub.size (Plan.buildChildren parent plans)
  | parent, k, [], _, _, j, sub, hsub => by simp [Plan.preorderAll] at hsub
  | parent, k, child :: rest, hparent, h, j, sub, hsub => by
    have hpos := child.size_pos
    have hfirst := Plan.build_range h.1
    have hrest : ∀ op ∈ Plan.buildChildren parent rest,
        (op.slot = parent ∨ op.slot ∈ List.range' (k + child.size) (Plan.sizeAll rest)) ∧
          ∀ q c : Nat, op = .appendChild q c → k + child.size ≤ c := fun op hop =>
      (Plan.buildChildren_range parent h.2 op hop).imp_right fun hc q c heq => (hc q c heq).1
    rw [Plan.preorderAll] at hsub
    rw [Plan.buildChildren, h.1.slot_eq]
    by_cases hj : j < child.size
    · rw [List.getElem?_append_left (by rw [Plan.length_preorder]; exact hj)] at hsub
      have hend := Plan.size_of_preorder hsub
      -- what comes after the first sibling leaves the slots of that sibling alone
      have hapart : ∀ op ∈ Plan.buildChildren parent rest,
          op.slot ∉ List.range' (k + j) sub.size ∧ ∀ q, op ≠ .appendChild q (k + j) := by
        intro op hop
        obtain ⟨hs, hc⟩ := hrest op hop
        refine ⟨fun hin => ?_, fun q heq => ?_⟩
        · have hin := List.mem_range'_1.mp hin
          rcases hs with hs | hs
          · rw [hs] at hin
            omega
          · have := List.mem_range'_1.mp hs
            omega
        · have := hc q _ heq
          omega
      -- the sibling itself is appended right after it is built, what is below it earlier still
      by_cases hzero : j = 0
      · subst hzero
        obtain rfl : child = sub := by cases child <;> simpa [Plan.preorder] using hsub
        refine ⟨parent, child.build, Plan.buildChildren parent rest, rfl, hparent,
          fun op hop => (hapart op hop).1, fun op hop q heq => ?_⟩
        rcases List.mem_append.mp hop with hop | hop
        · exact Nat.lt_irrefl _ ((hfirst op hop).2 q _ heq).1
        · exact (hapart op hop).2 q heq
      · refine (Plan.build_appended h.1 (Nat.pos_of_ne_zero hzero) hsub).between [] _ (by simp) ?_
        intro op hop
        rcases List.mem_cons.mp hop with rfl | hop
        · refine ⟨fun hin => ?_, fun q heq => ?_⟩
          · have : k + j ≤ parent := (List.mem_range'_1.mp hin).1
            omega
          · have : k = k + j := (Op.appendChild.inj heq).2
            omega
        · exact hapart op hop
    · rw [List.getElem?_append_right (by rw [Plan.length_preorder]; exact Nat.le_of_not_lt hj),
        Plan.length_preorder] at hsub
      have hinner :=
        Plan.buildChildren_appended (Nat.lt_of_lt_of_le hparent (Nat.le_add_right k child.size)) h.2 hsub
      rw [show k + child.size + (j - child.size) = k + j by omega] at hinner
      have hearlier : ∀ op ∈ child.build ++ [.appendChild parent k], ∀ q : Nat, op ≠ .appendChild q (k + j) := by
        intro op hop q heq
        rcases List.mem_append.mp hop with hop | hop
        · have := ((hfirst op hop).2 q _ heq).2
          omega
        · have : k = k + j := (Op.appendChild.inj ((List.mem_singleton.mp hop).symm.trans heq)).2
          omega
      have hall := hinner.between (child.build ++ [.appendChild parent k]) [] hearlier (by simp)
      rw [List.append_nil, List.append_assoc] at hall
      exact hall

end

end LiveMarkup
