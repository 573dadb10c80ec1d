import LiveMarkup.Proofs.Exec
import LiveMarkup.Proofs.SlotOrder

namespace LiveMarkup

variable {i : Instance} {p p' : Page} {s s' : Slot} {op : Op} {host : Host} {n root : Option NodeId} {step : Step}
  {k : Nat}

namespace Instance

theorem node?_bind (i : Instance) (s s' : Slot) (n : Option NodeId) :
    (i.bind s n).node? s' = if s = s' then (if s < i.slots.length then n else none) else i.node? s' := by
  unfold node? bind
  rw [List.getElem?_set]
  split
  · split <;> rfl
  · rfl

theorem node?_bind_self (hs : s < i.slots.length) (n : Option NodeId) : (i.bind s n).node? s = n := by
  rw [node?_bind, if_pos rfl, if_pos hs]

theorem node?_bind_of_ne (hs : s' ≠ s) (n : Option NodeId) : (i.bind s n).node? s' = i.node? s' := by
  rw [node?_bind, if_neg (Ne.symm hs)]

/-- A slot that has a node after a binding has the one just bound or had it before. -/
theorem node?_bind_cases {m : NodeId} (h : (i.bind s n).node? s' = some m) :
    s' = s ∧ n = some m ∨ s' ≠ s ∧ i.node? s' = some m := by
  by_cases hs : s' = s
  · subst hs
    rw [node?_bind, if_pos rfl] at h
    exact Or.inl ⟨rfl, (Option.ite_none_right_eq_some.mp h).2⟩
  · rw [node?_bind_of_ne hs] at h
    exact Or.inr ⟨hs, h⟩

theorem node?_bind_of_unbound {m : NodeId} (hi : i.node? s' = none) (h : (i.bind s n).node? s' = some m) :
    s' = s ∧ n = some m := by
  refine (node?_bind_cases h).resolve_right fun hold => ?_
  rw [hi] at hold
  cases hold.2

@[simp] theorem length_slots_bind (i : Instance) (s : Slot) (n : Option NodeId) :
    (i.bind s n).slots.length = i.slots.length :=
  List.length_set ..

/-- Every slot below `k` has its node. -/
def BoundBelow (i : Instance) (k : Nat) : Prop :=
  ∀ s < k, ∃ n, i.node s = .ok n

theorem BoundBelow.bind (h : i.BoundBelow k) (hk : k < i.slots.length) (hn : n.isSome) :
    (i.bind k n).BoundBelow (k + 1) := by
  intro s hs
  obtain ⟨m, rfl⟩ := Option.isSome_iff_exists.mp hn
  by_cases heq : s = k
  · subst heq
    exact ⟨m, node_eq_ok.mpr (node?_bind_self hk _)⟩
  · obtain ⟨m', hm'⟩ := h s (by omega)
    exact ⟨m', node_eq_ok.mpr ((node?_bind_of_ne heq _).trans (node_eq_ok.mp hm'))⟩

theorem execLocal_inst (h : op.bound? = none) : (i.execLocal op p).1.inst = i := by
  obtain ⟨run, hrun, heq⟩ := i.execLocal_runs op p
  rw [heq]
  cases hrun with
  | newText s value text fault => cases h
  | _ => rfl

/-- How an instruction of a build gives the slot `k` its node. -/
inductive Bound (host : Host) (root : Option NodeId) (i : Instance) (k : Slot) (p : Page) : Op → Step → Page → Prop where
  | created {tag : String} {ns : Namespace} {n : NodeId} {q : Page} (h : host.create tag ns p = some (n, q)) :
    i.Bound host root k p (.createElement k tag ns) ⟨i.bind k (some n), none, some (.create tag ns n)⟩ q
  | adopted : i.Bound host root k p (.adoptRoot k) ⟨i.bind k root, none, none⟩ p
  | newText (value : Computation) (text : String) (fault : Option Fault) :
    i.Bound host root k p (.createText k value)
      ⟨i.bind k (some p.document.size), fault, some (.text text p.document.size)⟩
      { p with document := p.document.push (.text text) }

theorem execBuild_bound {k : Slot} {q : Page} (hop : op.bound? = some k)
    (h : i.execBuild host root op p = some (step, q)) : i.Bound host root k p op step q := by
  cases op with
  | createElement s tag ns =>
    cases hop
    obtain ⟨n, hn, rfl⟩ := exec_createElement.mp h
    exact .created hn
  | adoptRoot s =>
    cases hop
    obtain ⟨rfl, rfl⟩ := execBuild_adoptRoot.mp h
    exact .adopted
  | createText s value =>
    cases hop
    cases Act.modifyGet_eq_some.mp h
    exact .newText value _ _
  | _ => cases hop

theorem execBuild_of_not_bound (hop : op.bound? = none) : i.execBuild host root op = i.exec host op :=
  execBuild_eq_exec fun s heq => by simp [heq, Op.bound?] at hop

theorem execBuild_ran {q : Page} (hop : op.bound? = none) (h : i.execBuild host root op p = some (step, q)) :
    i.Ran host p op step q := by
  rw [execBuild_of_not_bound hop] at h
  exact exec_ran h

/-- An instruction that binds no slot leaves the instance as it is. -/
theorem execBuild_inst_of_not_bound (hop : op.bound? = none) (h : i.execBuild host root op p = some (step, p')) :
    step.inst = i := by
  cases execBuild_ran hop h with
  | alone _ hlocal => rw [← execLocal_inst (i := i) (p := p) hop, hlocal]
  | created _ => cases hop
  | unbuilt _ => rfl
  | flushed _ _ => rfl

/-- An instruction that binds a slot gives it a node, provided there is a root to adopt. -/
theorem execBuild_inst_of_bound (hroot : root.isSome ∨ op ≠ .adoptRoot s) (hop : op.bound? = some s)
    (h : i.execBuild host root op p = some (step, p')) : ∃ n : Option NodeId, n.isSome ∧ step.inst = i.bind s n := by
  cases execBuild_bound hop h with
  | created hn => exact ⟨some _, rfl, rfl⟩
  | adopted => exact ⟨root, hroot.resolve_right fun hne => hne rfl, rfl⟩
  | newText value text fault => exact ⟨some _, rfl, rfl⟩

/-- Running instructions that bind the slots from `k` to `k'` leaves all slots below `k'` bound. -/
theorem runBuild_boundBelow {k' : Nat} {ops : List Op} (hseq : Op.Sequence k ops k') {i' : Instance} {r : Report}
    (hroot : root.isSome ∨ ∀ s, .adoptRoot s ∉ ops) (hlen : k' ≤ i.slots.length) (hi : i.BoundBelow k)
    (h : i.runBuild host root ops p = some ((i', r), p')) : i'.BoundBelow k' ∧ i'.slots.length = i.slots.length := by
  induction hseq generalizing i p r with
  | nil =>
    obtain ⟨heq, -⟩ := Act.pure_eq_some.mp h
    cases heq
    exact ⟨hi, rfl⟩
  | @bind k k' op rest hop hrest ih =>
    obtain ⟨step, p₁, others, hstep, h, -⟩ := runBuild_cons.mp h
    have hroot' : root.isSome ∨ ∀ s, .adoptRoot s ∉ rest :=
      hroot.imp_right fun hno s hs => hno s (List.mem_cons_of_mem _ hs)
    obtain ⟨n, hn, hinst⟩ := execBuild_inst_of_bound
      (hroot.imp_right fun hno heq => hno k (heq ▸ List.mem_cons_self ..)) hop hstep
    rw [hinst] at h
    obtain ⟨hbound, hsize⟩ := ih hroot' (by simpa using hlen)
      (hi.bind (Nat.lt_of_lt_of_le hrest.le hlen) hn) h
    exact ⟨hbound, by simpa using hsize⟩
  | @use k k' op rest hop _ hrest ih =>
    obtain ⟨step, p₁, others, hstep, h, -⟩ := runBuild_cons.mp h
    rw [execBuild_inst_of_not_bound hop hstep] at h
    exact ih (hroot.imp_right fun hno s hs => hno s (List.mem_cons_of_mem _ hs)) hlen hi h

end Instance

theorem Op.Sequence.split {n : Nat} {a b : List Op} (h : Op.Sequence k (a ++ b) n) :
    ∃ m, Op.Sequence k a m ∧ Op.Sequence m b n := by
  induction a generalizing k with
  | nil => exact ⟨k, .nil, h⟩
  | cons op rest ih =>
    cases h with
    | bind hop hrest =>
      obtain ⟨m, ha, hb⟩ := ih hrest
      exact ⟨m, .bind hop ha, hb⟩
    | use hop huse hrest =>
      obtain ⟨m, ha, hb⟩ := ih hrest
      exact ⟨m, .use hop huse ha, hb⟩

end LiveMarkup
