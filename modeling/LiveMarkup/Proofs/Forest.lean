import LiveMarkup.Proofs.HostCalls
import Mathlib.Data.List.Perm.Subperm

namespace LiveMarkup

variable {l seen : List NodeId}

namespace Document

variable {d d' : Document} {n m parent child : NodeId}

/-- The second node is the parent of the first. -/
def Up (d : Document) (n m : NodeId) : Prop :=
  d.parent? n = some m

/-- No node is its own proper ancestor. -/
def Forest (d : Document) : Prop :=
  ∀ n, ¬Relation.TransGen d.Up n n

theorem forest_empty : empty.Forest := by
  intro n hcycle
  obtain ⟨m, hup, -⟩ := Relation.TransGen.head'_iff.mp hcycle
  rw [Up, parent?_eq_none_of_le (Nat.zero_le n)] at hup
  cases hup

/-- Grafting new nodes keeps a forest: above a new node stand earlier ones, and above those that were there
stands what stood there. -/
theorem Grafted.forest (h : Grafted d.size d d') (hlinked : d.Linked) (hd : d.Forest) : d'.Forest := by
  have hold : ∀ {n m}, n < d.size → d'.Up n m → d.Up n m := fun hn hup => by
    rwa [Up, h.parent?_old hn] at hup
  have holder : ∀ {n m}, Relation.TransGen d'.Up n m → n < d.size →
      m < d.size ∧ Relation.TransGen d.Up n m := by
    intro n m hpath hn
    induction hpath with
    | single hup => exact ⟨hlinked.parent_lt (hold hn hup), .single (hold hn hup)⟩
    | tail _ hup ih => exact ⟨hlinked.parent_lt (hold ih.1 hup), .tail ih.2 (hold ih.1 hup)⟩
  have hnewer : ∀ {n m}, Relation.TransGen d'.Up n m → d.size ≤ n → m < n := by
    intro n m hpath hn
    induction hpath with
    | single hup => exact h.parent_lt (Nat.le_refl _) hn hup
    | @tail b c _ hup ih =>
      by_cases hb : d.size ≤ b
      · exact Nat.lt_trans (h.parent_lt (Nat.le_refl _) hb hup) ih
      · have hc := hlinked.parent_lt (hold (Nat.lt_of_not_le hb) hup)
        exact Nat.lt_of_lt_of_le hc hn
  intro n hcycle
  by_cases hn : d.size ≤ n
  · exact Nat.lt_irrefl n (hnewer hcycle hn)
  · exact hd n (holder hcycle (Nat.lt_of_not_le hn)).2

theorem up_append (hchild : child < d.size) :
    (d.append parent child).Up n m ↔ n = child ∧ m = parent ∨ n ≠ child ∧ d.Up n m := by
  rw [Up, parent?_append hchild]
  by_cases hn : n = child
  · rw [if_pos hn]
    simp [hn, eq_comm]
  · rw [if_neg hn]
    simp [hn, Up]

/-- A path in the new document that does not come from the old one goes through the moved node. -/
theorem path_append (hchild : child < d.size) (habove : ¬Relation.ReflTransGen d.Up parent child)
    (hpath : Relation.TransGen (d.append parent child).Up n m) :
    Relation.TransGen d.Up n m ∨
      Relation.ReflTransGen d.Up n child ∧ Relation.ReflTransGen d.Up parent m := by
  induction hpath with
  | single hup =>
    rcases (up_append hchild).mp hup with ⟨rfl, rfl⟩ | ⟨-, hup⟩
    · exact Or.inr ⟨.refl, .refl⟩
    · exact Or.inl (.single hup)
  | tail _ hup ih =>
    rcases (up_append hchild).mp hup with ⟨rfl, rfl⟩ | ⟨-, hup⟩
    · rcases ih with hold | ⟨-, hback⟩
      · exact Or.inr ⟨hold.to_reflTransGen, .refl⟩
      · exact absurd hback habove
    · exact ih.imp (·.tail hup) fun hnew => ⟨hnew.1, hnew.2.tail hup⟩

/-- Moving a node closes a cycle just when it is the new parent or stands above it. -/
theorem forest_append_iff (hd : d.Forest) (parent : NodeId) (hchild : child < d.size) :
    (d.append parent child).Forest ↔ ¬Relation.ReflTransGen d.Up parent child := by
  constructor
  · intro hforest habove
    have hback : ∀ n, Relation.ReflTransGen d.Up n child →
        Relation.ReflTransGen (d.append parent child).Up n child := by
      intro n hpath
      induction hpath using Relation.ReflTransGen.head_induction_on with
      | refl => exact .refl
      | @head a b hup _ ih =>
        by_cases ha : a = child
        · exact ha ▸ .refl
        · exact .head ((up_append hchild).mpr (Or.inr ⟨ha, hup⟩)) ih
    exact hforest child (.head' ((up_append hchild).mpr (Or.inl ⟨rfl, rfl⟩)) (hback parent habove))
  · intro habove n hcycle
    rcases path_append hchild habove hcycle with hold | ⟨hdown, hup⟩
    · exact hd n hold
    · exact habove (hup.trans hdown)

/-- The walk from a node through its ancestors ends, after these nodes. -/
inductive Climbs (d : Document) : NodeId → List NodeId → Prop where
  | top {n : NodeId} (h : d.parent? n = none) : Climbs d n [n]
  | step {n m : NodeId} {rest : List NodeId} (h : d.parent? n = some m) (hrest : Climbs d m rest) :
      Climbs d n (n :: rest)

/-- The walk through everything below a node ends, with this tree. -/
inductive Unfolds (d : Document) : NodeId → Tree → Prop where
  | missing {n : NodeId} (h : d.nodes[n]? = none) : Unfolds d n (.text "")
  | text {n : NodeId} {s : String} {parent : Option NodeId} {children : List NodeId}
      (h : d.nodes[n]? = some ⟨.text s, parent, children⟩) : Unfolds d n (.text s)
  | element {n : NodeId} {e : Element} {parent : Option NodeId} {children : List NodeId} {f : NodeId → Tree}
      (h : d.nodes[n]? = some ⟨.element e, parent, children⟩) (hbelow : ∀ c ∈ children, Unfolds d c (f c)) :
      Unfolds d n (.element e.tag e.ns e.attrs e.props (children.map f))

theorem length_le_size (hdistinct : l.Nodup) (hwithin : ∀ m ∈ l, m < d.size) : l.length ≤ d.size := by
  have hsub : l ⊆ List.range d.size := fun m hm => List.mem_range.mpr (hwithin m hm)
  have hlength := (List.subperm_of_subset hdistinct hsub).length_le
  rwa [List.length_range] at hlength

/-- The nodes below `n` that a walk has passed on its way there. -/
structure Passed (d : Document) (seen : List NodeId) (n : NodeId) : Prop where
  below : ∀ s ∈ seen, Relation.TransGen d.Up s n
  distinct : seen.Nodup
  within : ∀ s ∈ seen, s < d.size

namespace Passed

theorem nil (d : Document) (n : NodeId) : d.Passed [] n :=
  ⟨fun _ hs => absurd hs List.not_mem_nil, List.nodup_nil, fun _ hs => absurd hs List.not_mem_nil⟩

/-- A walk does not come back to a node that it has passed. -/
theorem nodup_cons (h : d.Passed seen n) (hd : d.Forest) : (n :: seen).Nodup :=
  List.nodup_cons.mpr ⟨fun hmem => hd n (h.below n hmem), h.distinct⟩

theorem within_cons (h : d.Passed seen n) (hn : n < d.size) : ∀ s ∈ n :: seen, s < d.size := by
  intro s hs
  rcases List.mem_cons.mp hs with rfl | hs
  · exact hn
  · exact h.within s hs

theorem step (h : d.Passed seen n) (hd : d.Forest) (hparent : d.parent? n = some m) : d.Passed (n :: seen) m := by
  have hn : n < d.size := by
    by_contra hout
    rw [parent?_eq_none_of_le (Nat.le_of_not_lt hout)] at hparent
    cases hparent
  refine ⟨fun s hs => ?_, h.nodup_cons hd, h.within_cons hn⟩
  rcases List.mem_cons.mp hs with rfl | hs
  · exact .single hparent
  · exact (h.below s hs).tail hparent

/-- As long as the walk is at a node, it has not passed all there are. -/
theorem length_lt (h : d.Passed seen n) (hd : d.Forest) (hn : n < d.size) : seen.length < d.size :=
  length_le_size (h.nodup_cons hd) (h.within_cons hn)

end Passed

/-- As many steps as there are nodes not yet passed are enough. -/
theorem climbs_chainUpTo (hlinked : d.Linked) (hd : d.Forest) {bound : Nat} (h : d.Passed seen n) (hn : n < d.size)
    (hbound : d.size ≤ bound + seen.length) : Climbs d n (d.chainUpTo bound n) := by
  induction bound generalizing n seen with
  | zero =>
    have hlength := h.length_lt hd hn
    omega
  | succ bound ih =>
    rw [chainUpTo]
    cases hparent : d.parent? n with
    | none => exact .top hparent
    | some m =>
      have hlength : d.size ≤ bound + (n :: seen).length := by
        rw [List.length_cons]
        omega
      exact .step hparent (ih (h.step hd hparent) (hlinked.parent_lt hparent) hlength)

theorem climbs_chain (hlinked : d.Linked) (hd : d.Forest) (hn : n < d.size) : Climbs d n (d.chain n) :=
  climbs_chainUpTo hlinked hd (.nil d n) hn (Nat.le_refl _)

namespace Climbs

theorem length_pos (h : Climbs d n l) : 0 < l.length := by
  cases h with
  | top => exact Nat.zero_lt_one
  | step => exact Nat.succ_pos _

theorem above (h : Climbs d n l) : ∀ m ∈ l, Relation.ReflTransGen d.Up n m := by
  induction h with
  | top =>
    intro m hm
    exact List.mem_singleton.mp hm ▸ .refl
  | step hparent _ ih =>
    intro m hm
    rcases List.mem_cons.mp hm with rfl | hm
    · exact .refl
    · exact .head hparent (ih m hm)

theorem distinct (h : Climbs d n l) (hd : d.Forest) : l.Nodup := by
  induction h with
  | top => exact List.nodup_cons.mpr ⟨nofun, List.nodup_nil⟩
  | @step n m rest hparent hrest ih =>
    refine List.nodup_cons.mpr ⟨fun hmem => ?_, ih⟩
    exact hd n (.head' hparent (hrest.above n hmem))

theorem within (h : Climbs d n l) (hlinked : d.Linked) (hn : n < d.size) : ∀ m ∈ l, m < d.size := by
  induction h with
  | top =>
    intro m hm
    exact List.mem_singleton.mp hm ▸ hn
  | step hparent _ ih =>
    intro m hm
    rcases List.mem_cons.mp hm with rfl | hm
    · exact hn
    · exact ih (hlinked.parent_lt hparent) m hm

end Climbs

/-- The deeper a node stands, the fewer levels are needed below it. -/
theorem unfolds_subtreeTo (hlinked : d.Linked) (hd : d.Forest) {depth : Nat} (hclimb : Climbs d n l) (hn : n < d.size)
    (hdepth : d.size < depth + l.length) : Unfolds d n (d.subtreeTo depth n) := by
  induction depth generalizing n l with
  | zero =>
    have hlength := length_le_size (hclimb.distinct hd) (hclimb.within hlinked hn)
    omega
  | succ depth ih =>
    cases hnode : d.nodes[n]? with
    | none =>
      simp only [subtreeTo, hnode]
      exact .missing hnode
    | some node =>
      obtain ⟨kind, parent, children⟩ := node
      cases kind with
      | text s =>
        simp only [subtreeTo, hnode]
        exact .text hnode
      | element e =>
        simp only [subtreeTo, hnode]
        refine .element hnode fun c hc => ?_
        have hmem : c ∈ d.children n := by rwa [Document.children, hnode]
        have hparent := (hlinked.agree n c).mp hmem
        refine ih (.step hparent hclimb) (hlinked.child_lt hmem) ?_
        rw [List.length_cons]
        omega

theorem unfolds_subtree (hlinked : d.Linked) (hd : d.Forest) (hn : n < d.size) :
    Unfolds d n (d.subtree n) := by
  have hclimb := climbs_chain hlinked hd hn
  exact unfolds_subtreeTo hlinked hd hclimb hn (Nat.lt_add_of_pos_right hclimb.length_pos)

/-- Appending does not put a node below itself. -/
def KeepsOrder (d : Document) (parent child : NodeId) : Prop :=
  parent < d.size → child < d.size → ¬Relation.ReflTransGen d.Up parent child

theorem keepsOrder_of_root (hroot : d.parent? parent = none) (hne : parent ≠ child) :
    d.KeepsOrder parent child := by
  intro _ _ hpath
  rcases Relation.ReflTransGen.cases_head hpath with heq | ⟨m, hup, -⟩
  · exact hne heq
  · rw [Up, hroot] at hup
    cases hup

/-- From a node that is its own parent the walk up never ends. -/
theorem Climbs.parent_ne (h : Climbs d n l) : d.parent? n ≠ some n := by
  intro hself
  induction h with
  | top hnone =>
    rw [hself] at hnone
    cases hnone
  | step hparent _ ih =>
    rw [hself] at hparent
    cases hparent
    exact ih hself

/-- Nor does the walk down from an element that is its own child. -/
theorem Unfolds.not_mem_children {t : Tree} (h : Unfolds d n t) (helement : (d.element? n).isSome) :
    n ∉ d.children n := by
  intro hself
  induction h with
  | missing hnode => simp [element?, hnode] at helement
  | text hnode => simp [element?, hnode] at helement
  | @element n e parent children f hnode _ ih =>
    have hmem : n ∈ children := by rwa [Document.children, hnode] at hself
    exact ih n hmem helement hself

end Document

theorem Page.HostCall.forest {q : Page} (h : Relation.ReflTransGen (HostCall Document.KeepsOrder) .empty q) :
    q.document.Forest := by
  suffices hall : q.document.Linked ∧ q.document.Forest from hall.2
  refine HostCall.induction (P := fun d => d.Linked ∧ d.Forest) ⟨Document.linked_empty, Document.forest_empty⟩ ?_ h
  rintro d d' ⟨hlinked, hforest⟩ hedited
  refine ⟨hedited.linked hlinked, ?_⟩
  cases hedited with
  | grafted h => exact h.forest hlinked hforest
  | moved hmove hparent hchild heq =>
    rw [heq]
    exact (Document.forest_append_iff hforest _ hchild).mpr (hmove hparent hchild)

/-- As long as no node is appended to itself or to something below it, no node is its own ancestor, the walks
up and down from every node end with what `chain` and `subtree` give, and just the appends left out would
make a node its own ancestor. -/
theorem documents_stay_forests {q : Page}
    (h : Relation.ReflTransGen (Page.HostCall Document.KeepsOrder) .empty q) :
    (∀ n, ¬Relation.TransGen q.document.Up n n) ∧
      (∀ n, n < q.document.size → q.document.Climbs n (q.document.chain n) ∧
        q.document.Unfolds n (q.document.subtree n)) ∧
      ∀ parent child, parent < q.document.size → child < q.document.size →
        ((∃ n, Relation.TransGen (q.append parent child).document.Up n n) ↔
          Relation.ReflTransGen q.document.Up parent child) := by
  have hlinked := Page.HostCall.linked h
  have hforest := Page.HostCall.forest h
  refine ⟨hforest, fun n hn => ?_, fun parent child hparent hchild => ?_⟩
  · exact ⟨Document.climbs_chain hlinked hforest hn, Document.unfolds_subtree hlinked hforest hn⟩
  · have hknown : (q.document.has parent && q.document.has child) = true :=
      Bool.and_eq_true_iff.mpr ⟨decide_eq_true hparent, decide_eq_true hchild⟩
    have hiff := Document.forest_append_iff hforest parent hchild
    rw [Page.append, if_pos hknown, ← not_iff_not, ← hiff, not_exists]
    rfl

/-- Creates an item and puts a text below and an element above it, and tells the roots met on the way and
the ancestors of the text. -/
def sampleNesting : Act (List (Option NodeId) × List NodeId) := do
  let _ ← createElement "x-item" .html
  modify fun p => (p.createText "b").2
  let item := (← get).document.parent? 0
  modify (·.append 0 2)
  let _ ← createElement "div" .html
  let outer := (← get).document.parent? 3
  modify (·.append 3 0)
  return ([item, outer], (← get).document.chain 2)

theorem sampleNesting_ancestors :
    (sampleNesting sampleShelfPage).map (·.1) = some ([none, none], [2, 0, 3]) := by
  decide +kernel

theorem documents_stay_forests_sampleNesting :
    ∃ q, Relation.ReflTransGen (Page.HostCall Document.KeepsOrder) .empty q ∧ q.document.chain 2 = [2, 0, 3] ∧
      (∀ n, ¬Relation.TransGen q.document.Up n n) ∧
      ∀ n, n < q.document.size → q.document.Climbs n (q.document.chain n) ∧
        q.document.Unfolds n (q.document.subtree n) := by
  obtain ⟨⟨told, _⟩, hrun, htold⟩ := Option.map_eq_some_iff.mp sampleNesting_ancestors
  simp only [sampleNesting, Act.bind_eq_some, Act.modify_eq_some, Act.get_eq_some, Act.pure_eq_some] at hrun
  obtain ⟨_, p, hitem, _, _, rfl, _, _, ⟨rfl, rfl⟩, _, _, rfl, _, q, houter, _, _, ⟨rfl, rfl⟩, _, _, rfl, _, _,
    ⟨rfl, rfl⟩, rfl, rfl⟩ := hrun
  obtain ⟨hroots, hchain⟩ := Prod.mk.inj htold
  obtain ⟨hroot, hroots⟩ := List.cons.inj hroots
  have hroot' := (List.cons.inj hroots).1
  have hcalls : Relation.ReflTransGen (Page.HostCall Document.KeepsOrder) .empty (q.append 3 0) :=
    .tail (.tail (.tail (.tail (.tail (sampleShelfPage_reached _) (.create hitem)) (.createText p "b"))
      (.append (Document.keepsOrder_of_root hroot (by decide)))) (.create houter))
      (.append (Document.keepsOrder_of_root hroot' (by decide)))
  obtain ⟨hforest, hwalks, -⟩ := documents_stay_forests hcalls
  exact ⟨_, hcalls, hchain, hforest, hwalks⟩

/-- Appends a text to itself and an element to itself. -/
def sampleKnots : Act (Option NodeId × Bool × List NodeId) := do
  modify fun p => (p.createText "x").2
  modify (·.append 0 0)
  let _ ← createElement "div" .html
  modify (·.append 1 1)
  let d := (← get).document
  return (d.parent? 0, (d.element? 1).isSome, d.children 1)

theorem sampleKnots_links : (sampleKnots .empty).map (·.1) = some (some 0, true, [1]) := by
  decide +kernel

/-- Nothing keeps a node from becoming its own ancestor, and then the walks up and down do not end. -/
theorem append_closes_cycle :
    ∃ q, Relation.ReflTransGen (Page.HostCall fun _ _ _ => True) .empty q ∧
      Relation.TransGen q.document.Up 0 0 ∧ (¬∃ l, q.document.Climbs 0 l) ∧ ¬∃ t, q.document.Unfolds 1 t := by
  obtain ⟨⟨told, _⟩, hrun, htold⟩ := Option.map_eq_some_iff.mp sampleKnots_links
  simp only [sampleKnots, Act.bind_eq_some, Act.modify_eq_some, Act.get_eq_some, Act.pure_eq_some] at hrun
  obtain ⟨_, _, rfl, _, _, rfl, _, p, hcreate, _, q, rfl, _, _, ⟨rfl, rfl⟩, rfl, rfl⟩ := hrun
  obtain ⟨hparent, hrest⟩ := Prod.mk.inj htold
  obtain ⟨helement, hchildren⟩ := Prod.mk.inj hrest
  have hcalls : Relation.ReflTransGen (Page.HostCall fun _ _ _ => True) .empty (p.append 1 1) :=
    .tail (.tail (.tail (.single (.createText .empty "x")) (.append trivial)) (.create hcreate)) (.append trivial)
  refine ⟨_, hcalls, .single hparent, ?_, ?_⟩
  · rintro ⟨l, hclimb⟩
    exact hclimb.parent_ne hparent
  · rintro ⟨t, hunfold⟩
    exact hunfold.not_mem_children helement (hchildren ▸ List.mem_singleton_self 1)

end LiveMarkup
