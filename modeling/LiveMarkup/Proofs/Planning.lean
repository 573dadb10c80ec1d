import LiveMarkup.Proofs.Resolution

namespace LiveMarkup

variable {d d' : Draft} {head : NodeHead} {slot : Slot} {tag : String} {inherited ns : Namespace}
  {declared : Declarations} {options : CompileOptions}

/-- The namespace of a node whose parent has `inherited`. -/
def NodeHead.namespaceIn (head : NodeHead) (inherited : Namespace) : Namespace :=
  match head.ns with
  | none => inherited
  | some raw => (Namespace.ofText? raw).getD inherited

/-- The value of a node without a tag. -/
def NodeHead.textSpec (head : NodeHead) : ValueSpec :=
  head.expression.getD (.constant .null)

def NodeHead.plan (declared : Declarations) (options : CompileOptions) (slot : Slot) (created : Bool)
    (inherited : Namespace) (head : NodeHead) : PlanHead where
  slot := slot
  created := created
  tag := head.tag
  ns := head.namespaceIn inherited
  attachPoints := firstOccurrences head.attachPoints
  attributes := head.attributes.map fun a =>
    (attributeTarget declared head.tag (head.namespaceIn inherited) a.1, a.2)
  nested := created && options.nested.holds head.tag
  events := head.events

mutual

/-- How many nodes a template has. -/
def TemplateNode.size : TemplateNode → Nat
  | .text _ => 1
  | .node _ children => 1 + TemplateNode.sizeAll children

def TemplateNode.sizeAll : List TemplateNode → Nat
  | [] => 0
  | child :: rest => child.size + TemplateNode.sizeAll rest

end

mutual

/-- The plan of a node whose slots start at `slot`. -/
def TemplateNode.plan (declared : Declarations) (options : CompileOptions) (inherited : Namespace)
    (slot : Slot) : TemplateNode → Plan
  | .text spec => .text slot spec
  | .node head children =>
    if head.tag = "" then .text slot head.textSpec
    else .element (head.plan declared options slot true inherited)
      (TemplateNode.planAll declared options (head.namespaceIn inherited) (slot + 1) children)

/-- The plans of siblings. The slots of each start where those of the one before it end. -/
def TemplateNode.planAll (declared : Declarations) (options : CompileOptions) (inherited : Namespace)
    (slot : Slot) : List TemplateNode → List Plan
  | [] => []
  | child :: rest =>
    child.plan declared options inherited slot ::
      TemplateNode.planAll declared options inherited (slot + child.size) rest

end

/-- The plan of a whole template, whose root may be adopted. -/
def TemplateNode.rootPlan (declared : Declarations) (options : CompileOptions) : TemplateNode → Plan
  | .text spec => .text 0 spec
  | .node head children =>
    .element (head.plan declared options 0 options.createRoot .html)
      (TemplateNode.planAll declared options (head.namespaceIn .html) 1 children)

mutual

/-- Every node without a tag has a value and nothing below it. -/
def TemplateNode.TextsAreLeaves : TemplateNode → Prop
  | .text _ => True
  | .node head children =>
    (head.tag = "" → head.expression.isSome ∧ children = []) ∧ TemplateNode.AllTextsAreLeaves children

def TemplateNode.AllTextsAreLeaves : List TemplateNode → Prop
  | [] => True
  | child :: rest => child.TextsAreLeaves ∧ TemplateNode.AllTextsAreLeaves rest

end

/-- The outcome of a planning step that succeeds. -/
def Planner.Gives (m : Planner α) (d : Draft) (a : α) (d' : Draft) : Prop :=
  @Eq (Except CompileError α × Draft) (m.run.run d) (.ok a, d')

/-- Attach points belong to slots that are taken. -/
def Draft.Bounded (d : Draft) : Prop :=
  ∀ e ∈ d.owners, e.2 < d.nextSlot

namespace Planner

theorem gives_pure {a b : α} : Gives (pure a) d b d' ↔ a = b ∧ d = d' := by
  change (Except.ok a, d) = (Except.ok b, d') ↔ _
  simp

theorem run_bind (m : Planner α) (f : α → Planner β) (d : Draft) :
    (m >>= f).run.run d = match m.run.run d with
      | (.ok a, d') => (f a).run.run d'
      | (.error e, d') => (.error e, d') := by
  change (match m.run.run d with
    | (r, d') => StateT.run (ExceptT.bindCont f r) d') = _
  rcases m.run.run d with ⟨_ | _, d'⟩ <;> rfl

theorem gives_bind {m : Planner α} {f : α → Planner β} {d'' : Draft} {b : β} :
    Gives (m >>= f) d b d'' ↔ ∃ a d', Gives m d a d' ∧ Gives (f a) d' b d'' := by
  unfold Gives
  rw [run_bind]
  rcases m.run.run d with ⟨_ | a, d'⟩
  · simp
  · constructor
    · intro h
      exact ⟨a, d', rfl, h⟩
    · rintro ⟨_, _, heq, h⟩
      cases heq
      exact h

theorem gives_get {a : Draft} : Gives (get : Planner Draft) d a d' ↔ d = a ∧ d = d' := by
  change (Except.ok d, d) = (Except.ok a, d') ↔ _
  simp

theorem gives_set {s : Draft} {u : PUnit} : Gives (set s : Planner PUnit) d u d' ↔ s = d' := by
  change (Except.ok PUnit.unit, s) = (Except.ok u, d') ↔ _
  simp

theorem not_gives_throw {e : CompileError} {a : α} : ¬ Gives (throw e : Planner α) d a d' := by
  change ¬ (Except.error e, d) = (Except.ok a, d')
  simp

theorem freshSlot_gives {s : Slot} (h : Gives freshSlot d s d') :
    s = d.nextSlot ∧ d' = { d with nextSlot := d.nextSlot + 1 } := by
  simp only [freshSlot, gives_bind, gives_get, gives_set, gives_pure] at h
  obtain ⟨_, _, ⟨rfl, rfl⟩, _, _, rfl, rfl, rfl⟩ := h
  exact ⟨rfl, rfl⟩

/-- The names a node keeps are those it does not have already, each once. -/
theorem reserveNames_gives {names kept : List String} (h : Gives (reserveNames slot names) d kept d') :
    kept = (firstOccurrences names).filter (fun n => d.owners.lookup n != some slot) ∧
      d'.nextSlot = d.nextSlot ∧ d'.maps = d.maps ∧ ∀ e ∈ d'.owners, e ∈ d.owners ∨ e.2 = slot := by
  induction names generalizing d kept with
  | nil =>
    obtain ⟨rfl, rfl⟩ := gives_pure.mp h
    exact ⟨rfl, rfl, rfl, fun e he => Or.inl he⟩
  | cons name rest ih =>
    obtain ⟨_, _, hget, h⟩ := gives_bind.mp h
    obtain ⟨rfl, rfl⟩ := gives_get.mp hget
    split at h
    next owner howner =>
      split at h
      next hmine =>
        subst hmine
        obtain ⟨hk, hrest⟩ := ih h
        refine ⟨?_, hrest⟩
        rw [hk, firstOccurrences, List.filter_cons_of_neg (by simp [howner]), List.filter_filter]
        apply List.filter_congr
        intro n _
        by_cases hn : n = name <;> simp [hn, howner]
      next => exact absurd h not_gives_throw
    next hfree =>
      obtain ⟨_, _, hset, h⟩ := gives_bind.mp h
      cases gives_set.mp hset
      obtain ⟨others, _, hrest, h⟩ := gives_bind.mp h
      obtain ⟨rfl, rfl⟩ := gives_pure.mp h
      obtain ⟨hk, hnext, hmaps, howners⟩ := ih hrest
      refine ⟨?_, hnext, hmaps, ?_⟩
      · rw [hk, firstOccurrences, List.filter_cons_of_pos (by simp [hfree]), List.filter_filter]
        congr 1
        apply List.filter_congr
        intro n _
        by_cases hn : n = name
        · simp [hn]
        · have hne : (n == name) = false := by simpa using hn
          simp [List.lookup_cons, hne, hn]
      · intro e he
        rcases howners e he with hm | hs
        · rcases List.mem_cons.mp hm with rfl | hm
          · exact Or.inr rfl
          · exact Or.inl hm
        · exact Or.inr hs

theorem resolveAttribute_gives {name : String} {target : Target}
    (h : Gives (resolveAttribute declared tag ns name) d target d') :
    target = attributeTarget declared tag ns name ∧ d'.nextSlot = d.nextSlot ∧ d'.owners = d.owners := by
  simp only [resolveAttribute, gives_bind, gives_get, gives_set] at h
  obtain ⟨_, _, ⟨rfl, rfl⟩, _, _, rfl, h⟩ := h
  unfold attributeTarget
  rw [← resolve_fst (declared tag) d.maps tag ns name]
  cases hpath : (resolve (declared tag) d.maps tag ns name).1 with
  | some path =>
    simp only [hpath] at h
    obtain ⟨rfl, rfl⟩ := gives_pure.mp h
    exact ⟨rfl, rfl, rfl⟩
  | none =>
    simp only [hpath] at h
    obtain ⟨rfl, rfl⟩ := gives_pure.mp h
    exact ⟨rfl, rfl, rfl⟩

theorem resolveAttributes_gives {attributes : List (String × ValueSpec)} {targets : List (Target × ValueSpec)}
    (h : Gives (resolveAttributes declared tag ns attributes) d targets d') :
    targets = attributes.map (fun a => (attributeTarget declared tag ns a.1, a.2)) ∧
      d'.nextSlot = d.nextSlot ∧ d'.owners = d.owners := by
  induction attributes generalizing d targets with
  | nil =>
    obtain ⟨rfl, rfl⟩ := gives_pure.mp h
    exact ⟨rfl, rfl, rfl⟩
  | cons a rest ih =>
    obtain ⟨name, spec⟩ := a
    simp only [resolveAttributes, gives_bind, gives_pure] at h
    obtain ⟨target, _, hfirst, others, _, hrest, rfl, rfl⟩ := h
    obtain ⟨rfl, hnext, howners⟩ := resolveAttribute_gives hfirst
    obtain ⟨rfl, hnext', howners'⟩ := ih hrest
    exact ⟨rfl, hnext'.trans hnext, howners'.trans howners⟩

theorem checkEvents_gives {events : List (String × Handler)} {u : Unit}
    (h : Gives (checkEvents options tag events) d u d') : d = d' := by
  induction events with
  | nil => exact (gives_pure.mp h).2
  | cons e rest ih =>
    obtain ⟨event, handler⟩ := e
    unfold checkEvents at h
    split at h
    · exact absurd h not_gives_throw
    · exact ih h

theorem namespaceOf_gives (h : Gives (namespaceOf head inherited) d ns d') :
    ns = head.namespaceIn inherited ∧ d = d' := by
  unfold namespaceOf at h
  unfold NodeHead.namespaceIn
  cases hns : head.ns with
  | none =>
    simp only [hns] at h
    obtain ⟨rfl, rfl⟩ := gives_pure.mp h
    exact ⟨rfl, rfl⟩
  | some raw =>
    simp only [hns] at h
    cases hknown : Namespace.ofText? raw with
    | some known =>
      simp only [hknown] at h
      obtain ⟨rfl, rfl⟩ := gives_pure.mp h
      exact ⟨by simp only [hknown, Option.getD_some], rfl⟩
    | none =>
      simp only [hknown] at h
      exact absurd h not_gives_throw

/-- A node planned at the newest slot gets exactly the head its source describes. -/
theorem head_gives {created : Bool} {out : PlanHead} (hnew : ∀ e ∈ d.owners, e.2 < slot)
    (hslot : d.nextSlot = slot + 1) (h : Gives (Planner.head declared options slot created inherited head) d out d') :
    out = head.plan declared options slot created inherited ∧ d'.nextSlot = d.nextSlot ∧
      d'.Bounded := by
  simp only [Planner.head, gives_bind, gives_pure] at h
  obtain ⟨ns, _, hns, kept, _, hkept, targets, _, htargets, _, _, hevents, rfl, rfl⟩ := h
  obtain ⟨rfl, rfl⟩ := namespaceOf_gives hns
  obtain ⟨rfl, hnext, -, howners⟩ := reserveNames_gives hkept
  obtain ⟨rfl, hnext', howners'⟩ := resolveAttributes_gives htargets
  cases checkEvents_gives hevents
  refine ⟨?_, hnext'.trans hnext, ?_⟩
  · have hall : (firstOccurrences head.attachPoints).filter
        (fun n => d.owners.lookup n != some slot) = firstOccurrences head.attachPoints := by
      apply List.filter_eq_self.mpr
      intro n _
      rw [bne_iff_ne]
      intro hlookup
      obtain ⟨before, after, heq, -⟩ := List.lookup_eq_some_iff.mp hlookup
      have hmem : (n, slot) ∈ d.owners := by simp [heq]
      exact Nat.lt_irrefl _ (hnew _ hmem)
    rw [hall]
    rfl
  · intro e he
    rw [howners'] at he
    rw [hnext', hnext, hslot]
    rcases howners e he with hold | hmine
    · exact Nat.lt_succ_of_lt (hnew e hold)
    · exact hmine ▸ Nat.lt_succ_self _

theorem hasElementParts_eq_false {children : List TemplateNode} (h : hasElementParts head children = false) :
    children = [] := by
  unfold hasElementParts at h
  simp only [Bool.or_eq_false_iff, Bool.not_eq_false', List.isEmpty_iff] at h
  exact h.2

theorem head_gives_fresh {created : Bool} {out : PlanHead} {d₁ d₂ : Draft} (hd : d.Bounded)
    (hs : Gives freshSlot d slot d₁) (h : Gives (Planner.head declared options slot created inherited head) d₁ out d₂) :
    slot = d.nextSlot ∧ out = head.plan declared options d.nextSlot created inherited ∧
      d₂.nextSlot = d.nextSlot + 1 ∧ d₂.Bounded := by
  obtain ⟨hslot, hd₁⟩ := freshSlot_gives hs
  subst hslot
  have hnew : ∀ e ∈ d₁.owners, e.2 < d.nextSlot := by
    rw [hd₁]
    exact hd
  have hnext₁ : d₁.nextSlot = d.nextSlot + 1 := by rw [hd₁]
  obtain ⟨hout, hnext, hbounded⟩ := head_gives hnew hnext₁ h
  exact ⟨rfl, hout, hnext.trans hnext₁, hbounded⟩

mutual

/-- A planned node takes as many slots as its source has nodes, in order. -/
theorem child_gives {inherited : Namespace} {path : String} {plan : Plan} {d d' : Draft} (hd : d.Bounded) :
    ∀ {node : TemplateNode}, Gives (child declared options inherited path node) d plan d' →
      plan = node.plan declared options inherited d.nextSlot ∧
        d'.nextSlot = d.nextSlot + node.size ∧ d'.Bounded ∧ node.TextsAreLeaves
  | .text spec, h => by
    simp only [child, gives_bind, gives_pure] at h
    obtain ⟨slot, _, hs, rfl, rfl⟩ := h
    obtain ⟨rfl, rfl⟩ := freshSlot_gives hs
    exact ⟨rfl, rfl, fun e he => Nat.lt_succ_of_lt (hd e he), trivial⟩
  | .node head children, h => by
    unfold child at h
    split at h
    next htag =>
      split at h
      next => exact absurd h not_gives_throw
      next spec hspec =>
        split at h
        next => exact absurd h not_gives_throw
        next hparts =>
          simp only [gives_bind, gives_pure] at h
          obtain ⟨slot, _, hs, rfl, rfl⟩ := h
          obtain ⟨rfl, rfl⟩ := freshSlot_gives hs
          obtain rfl := hasElementParts_eq_false (Bool.eq_false_iff.mpr hparts)
          refine ⟨?_, rfl, fun e he => Nat.lt_succ_of_lt (hd e he), ?_, trivial⟩
          · simp [TemplateNode.plan, htag, NodeHead.textSpec, hspec]
          · exact fun _ => ⟨by simp [hspec], rfl⟩
    next htag =>
      simp only [gives_bind, gives_pure] at h
      obtain ⟨slot, d₁, hs, out, d₂, hhead, plans, d₃, hchildren, rfl, rfl⟩ := h
      obtain ⟨-, rfl, hnext, hbounded⟩ := head_gives_fresh hd hs hhead
      obtain ⟨rfl, hnext', hbounded', hleaves⟩ := children_gives hbounded hchildren
      refine ⟨?_, ?_, hbounded', fun h => absurd h htag, hleaves⟩
      · simp only [TemplateNode.plan, if_neg htag, hnext]
        rfl
      · rw [hnext', hnext, TemplateNode.size, Nat.add_assoc]

theorem children_gives {inherited : Namespace} {path : String} {index : Nat} {plans : List Plan} {d d' : Draft}
    (hd : d.Bounded) :
    ∀ {nodes : List TemplateNode}, Gives (children declared options inherited path index nodes) d plans d' →
      plans = TemplateNode.planAll declared options inherited d.nextSlot nodes ∧
        d'.nextSlot = d.nextSlot + TemplateNode.sizeAll nodes ∧ d'.Bounded ∧
        TemplateNode.AllTextsAreLeaves nodes
  | [], h => by
    simp only [children, gives_pure] at h
    obtain ⟨rfl, rfl⟩ := h
    exact ⟨rfl, rfl, hd, trivial⟩
  | node :: rest, h => by
    simp only [children, gives_bind, gives_pure] at h
    obtain ⟨plan, d₁, hfirst, others, _, hrest, rfl, rfl⟩ := h
    obtain ⟨rfl, hnext, hbounded, hleaves⟩ := child_gives hd hfirst
    obtain ⟨rfl, hnext', hbounded', hleaves'⟩ := children_gives hbounded hrest
    refine ⟨?_, ?_, hbounded', hleaves, hleaves'⟩
    · rw [TemplateNode.planAll, hnext]
    · rw [hnext', hnext, TemplateNode.sizeAll, Nat.add_assoc]

end

theorem root_gives {node : TemplateNode} {plan : Plan} {maps : PropertyMaps}
    (h : Gives (root declared options node) ⟨0, [], maps⟩ plan d') :
    ∃ head children, node = .node head children ∧ head.tag ≠ "" ∧ node.TextsAreLeaves ∧
      plan = node.rootPlan declared options ∧ d'.nextSlot = node.size := by
  cases node with
  | text spec => exact absurd h not_gives_throw
  | node head children =>
    simp only [root] at h
    split at h
    next =>
      split at h <;> exact absurd h not_gives_throw
    next htag =>
      simp only [gives_bind, gives_pure] at h
      obtain ⟨slot, d₁, hs, out, d₂, hhead, plans, d₃, hchildren, rfl, rfl⟩ := h
      have hd : (⟨0, [], maps⟩ : Draft).Bounded := fun e he => nomatch he
      obtain ⟨-, rfl, hnext, hbounded⟩ := head_gives_fresh hd hs hhead
      obtain ⟨rfl, hnext', -, hleaves⟩ := children_gives hbounded hchildren
      refine ⟨head, children, rfl, htag, ⟨fun h => absurd h htag, hleaves⟩, ?_, ?_⟩
      · rw [hnext]
        rfl
      · rw [hnext', hnext, TemplateNode.size, Nat.zero_add]

end Planner

/-- A template that compiles is the plan of its source, with a slot for every node. -/
theorem compileWith_ok {maps maps' : PropertyMaps} {node : TemplateNode} {t : Template}
    (h : compileWith declared maps options node = (.ok t, maps')) :
    ∃ head children, node = .node head children ∧ head.tag ≠ "" ∧ node.TextsAreLeaves ∧
      t = Template.ofPlan options node.size (node.rootPlan declared options) := by
  unfold compileWith at h
  rcases hrun : (Planner.root declared options node).run.run ⟨0, [], maps⟩ with ⟨result, draft⟩
  simp only [hrun] at h
  cases result with
  | error e => simp [Except.map] at h
  | ok plan =>
    obtain ⟨head, children, hnode, htag, hleaves, rfl, hsize⟩ := Planner.root_gives hrun
    refine ⟨head, children, hnode, htag, hleaves, ?_⟩
    simp only [Except.map, Prod.mk.injEq, Except.ok.injEq] at h
    rw [← h.1, hsize]

end LiveMarkup
