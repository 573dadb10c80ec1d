import LiveMarkup.Proofs.Forest

namespace LiveMarkup

namespace Document

variable {d d' : Document} {n m : NodeId}

/-- Every node stands below an earlier one. -/
def Ordered (d : Document) : Prop :=
  ∀ n m, d.parent? n = some m → m < n

theorem ordered_empty : empty.Ordered := by
  intro n m hparent
  rw [parent?_eq_none_of_le (Nat.zero_le n)] at hparent
  cases hparent

theorem Grafted.ordered (h : Grafted d.size d d') (hd : d.Ordered) : d'.Ordered := by
  intro n m hparent
  by_cases hn : d.size ≤ n
  · exact h.parent_lt (Nat.le_refl _) hn hparent
  · rw [h.parent?_old (Nat.lt_of_not_le hn)] at hparent
    exact hd n m hparent

theorem Ordered.above_lt (hd : d.Ordered) (h : Relation.TransGen d.Up n m) : m < n := by
  induction h with
  | single hup => exact hd _ _ hup
  | tail _ hup ih => exact Nat.lt_trans (hd _ _ hup) ih

theorem Ordered.forest (hd : d.Ordered) : d.Forest :=
  fun n hcycle => Nat.lt_irrefl n (hd.above_lt hcycle)

theorem Climbs.descends {l : List NodeId} (h : Climbs d n l) (hd : d.Ordered) : l.Pairwise (· > ·) := by
  induction h with
  | top => exact List.pairwise_singleton _ _
  | @step n m rest hparent hrest ih =>
    refine List.pairwise_cons.mpr ⟨fun a ha => ?_, ih⟩
    exact hd.above_lt (.head' hparent (hrest.above a ha))

/-- The listeners of a node for one kind of event. -/
def heardAt (d : Document) (kind : String) (n : NodeId) : List Listener :=
  ((d.listeners n).filter fun l => l.1 == kind).map (·.2)

theorem listenersFor_eq (d : Document) (n : NodeId) (kind : String) :
    d.listenersFor n kind = (d.chain n).flatMap (d.heardAt kind) :=
  rfl

end Document

/-- Every edit that moves nothing by hand keeps the order. -/
theorem Page.HostCall.ordered {q : Page} (h : Relation.ReflTransGen (HostCall fun _ _ _ => False) .empty q) :
    q.document.Ordered := by
  refine HostCall.induction Document.ordered_empty (fun d d' hd hedited => ?_) h
  cases hedited with
  | grafted h => exact h.ordered hd
  | moved hmove => exact hmove.elim

/-- A listener that comes to an end wherever it runs. -/
def Listener.Returns (event : Event) (l : Listener) : Prop :=
  ∀ p, ∃ result q, l.run event p = some (result, q)

theorem runListeners_returns {event : Event} {listeners : List Listener}
    (h : ∀ l ∈ listeners, l.Returns event) (p : Page) :
    ∃ faults q, runListeners event listeners p = some (faults, q) := by
  induction listeners generalizing p with
  | nil => exact ⟨[], p, rfl⟩
  | cons l rest ih =>
    have hrest := ih fun l hl => h l (List.mem_cons_of_mem _ hl)
    obtain ⟨result, p₁, hrun⟩ := h l List.mem_cons_self p
    cases result with
    | ok u =>
      obtain ⟨faults, q, hq⟩ := hrest p₁
      exact ⟨faults, q, Act.bind_eq_some.mpr ⟨_, _, hrun, hq⟩⟩
    | error f =>
      obtain ⟨faults, q, hq⟩ := hrest (p₁.warn _)
      refine ⟨f :: faults, q, Act.bind_eq_some.mpr ⟨_, _, hrun, ?_⟩⟩
      simp only [Act.bind_eq_some, Act.modify_eq_some, Act.pure_eq_some]
      exact ⟨(), _, rfl, _, _, hq, rfl, rfl⟩

/-- An event whose listeners come to an end runs all of them. -/
theorem dispatch_returns {n : NodeId} {kind : String} {detail : Value} {p : Page}
    (h : ∀ l ∈ p.document.listenersFor n kind, l.Returns ⟨kind, n, detail⟩) :
    ∃ result q, dispatch n kind detail p = some (result, q) ∧
      result.invoked = (p.document.listenersFor n kind).length := by
  obtain ⟨faults, q, hq⟩ := runListeners_returns h p
  refine ⟨⟨_, faults⟩, q, ?_, rfl⟩
  simp only [dispatch, Act.bind_eq_some, Act.get_eq_some, Act.pure_eq_some]
  exact ⟨_, _, ⟨rfl, rfl⟩, _, _, hq, rfl, rfl⟩

/-- As long as only templates append, every node stands below an earlier one. So the walk up from a node
ends, through ever earlier nodes; an event sent to the node meets the listeners on that walk and comes back
when they do; and the walk down ends with the tree that is written out. -/
theorem template_documents_ordered {q : Page}
    (h : Relation.ReflTransGen (Page.HostCall fun _ _ _ => False) .empty q) :
    (∀ parent child, child ∈ q.document.children parent → parent < child) ∧
      ∀ n, n < q.document.size →
        (q.document.Climbs n (q.document.chain n) ∧ (q.document.chain n).Pairwise (· > ·)) ∧
        (∀ kind detail,
          (∀ m ∈ q.document.chain n, ∀ l ∈ q.document.heardAt kind m, l.Returns ⟨kind, n, detail⟩) →
          ∃ result p, dispatch n kind detail q = some (result, p) ∧
            result.invoked = ((q.document.chain n).flatMap (q.document.heardAt kind)).length) ∧
        ∃ below, q.document.Unfolds n below ∧ q.document.markup n = below.markup ∧
          q.document.content n = below.content ∧ (q.document.subtree n).snapshot = below.snapshot := by
  have hlinked := Page.HostCall.linked h
  have hordered := Page.HostCall.ordered h
  refine ⟨fun parent child hchild => ?_, fun n hn => ?_⟩
  · exact hordered child parent ((hlinked.agree parent child).mp hchild)
  · have hclimbs := Document.climbs_chain hlinked hordered.forest hn
    refine ⟨⟨hclimbs, hclimbs.descends hordered⟩, fun kind detail hreturns => ?_,
      _, Document.unfolds_subtree hlinked hordered.forest hn, rfl, rfl, rfl⟩
    rw [← Document.listenersFor_eq]
    refine dispatch_returns fun l hl => ?_
    rw [Document.listenersFor_eq] at hl
    obtain ⟨m, hm, hl⟩ := List.mem_flatMap.mp hl
    exact hreturns m hm l hl

def Listener.label? : Listener → Option String
  | .observer label _ => some label
  | .component _ _ => none

theorem Listener.returns_of_label? {l : Listener} {label : String} (h : l.label? = some label) (event : Event) :
    l.Returns event := by
  intro p
  cases l with
  | component owner handler => cases h
  | observer label failure =>
    cases failure with
    | none => exact ⟨_, _, rfl⟩
    | some detail => exact ⟨_, _, rfl⟩

/-- Builds an item on an element that is there and then a shelf with an item of its own, puts a text beside
them and an observer on the shelf, and tells the ancestors of the second item's text and of the other text
and who hears an event at the first of them. -/
def sampleStock : Act (Nat × List NodeId × List NodeId × List (Option String)) := do
  let n ← createElement "div" .html
  let _ ← sampleItemTemplate.instantiate 0 (some n) .warnings
  let _ ← sampleShelfTemplate.instantiate 0 none .warnings
  modify fun p => (p.createText "b").2
  modify (·.addListener 2 "press" (.observer "shelf" none))
  let d := (← get).document
  return (d.size, d.chain 4, d.chain 5, (d.listenersFor 4 "press").map Listener.label?)

theorem sampleStock_ancestors :
    (sampleStock sampleShelfPage).map (·.1) = some (6, [4, 3, 2], [5], [some "shelf"]) := by
  decide +kernel

theorem template_documents_ordered_sampleStock :
    ∃ q, Relation.ReflTransGen (Page.HostCall fun _ _ _ => False) .empty q ∧ q.document.chain 4 = [4, 3, 2] ∧
      q.document.chain 5 = [5] ∧ (∀ parent child, child ∈ q.document.children parent → parent < child) ∧
      (∃ result p, dispatch 4 "press" .null q = some (result, p) ∧ result.invoked = 1) ∧
      ∃ below, q.document.Unfolds 4 below ∧ q.document.markup 4 = below.markup := by
  obtain ⟨⟨told, _⟩, hrun, htold⟩ := Option.map_eq_some_iff.mp sampleStock_ancestors
  simp only [sampleStock, Act.bind_eq_some, Act.modify_eq_some, Act.get_eq_some, Act.pure_eq_some] at hrun
  obtain ⟨n, p₁, hcreate, _, p₂, hadopt, _, p₃, hbuild, _, _, rfl, _, _, rfl, _, _, ⟨rfl, rfl⟩, rfl, rfl⟩ := hrun
  simp only [Prod.mk.injEq] at htold
  obtain ⟨hsize, hshelf, htext, hheard⟩ := htold
  have hcalls := (((((sampleShelfPage_reached fun _ _ _ => False).tail (.create hcreate)).tail
    (.build sampleItemTemplate_compiled hadopt)).tail (.build sampleShelfTemplate_compiled hbuild)).tail
    (.createText p₃ "b")).tail (.listen _ 2 "press" (.observer "shelf" none))
  generalize (p₃.createText "b").2.addListener 2 "press" (.observer "shelf" none) = q at *
  obtain ⟨hordered, hwalks⟩ := template_documents_ordered hcalls
  obtain ⟨-, hsent, below, hunfolds, hmarkup, -⟩ := hwalks 4 (by rw [hsize]; decide)
  have hreturns : ∀ l ∈ q.document.listenersFor 4 "press", l.Returns ⟨"press", 4, .null⟩ := by
    intro l hl
    have hlabel := List.mem_map_of_mem (f := Listener.label?) hl
    rw [hheard] at hlabel
    exact Listener.returns_of_label? (List.mem_singleton.mp hlabel) _
  obtain ⟨result, p, hdispatch, hinvoked⟩ := hsent "press" .null fun m hm l hl =>
    hreturns l (List.mem_flatMap.mpr ⟨m, hm, hl⟩)
  rw [← Document.listenersFor_eq, ← List.length_map (f := Listener.label?), hheard] at hinvoked
  exact ⟨q, hcalls, hshelf, htext, hordered, ⟨result, p, hdispatch, hinvoked⟩, below, hunfolds, hmarkup⟩

end LiveMarkup
