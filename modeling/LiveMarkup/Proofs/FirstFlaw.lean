import LiveMarkup.Proofs.Flaws
import LiveMarkup.Proofs.Planning

namespace LiveMarkup

variable {d : Draft} {declared : Declarations} {options : CompileOptions} {flaw : Option CompileError}
  {after : Draft → Prop} {before : List Visit} {head : NodeHead} {e : CompileError}

/-- The outcome of a planning step that fails. -/
def Planner.Fails (m : Planner α) (d : Draft) (e : CompileError) : Prop :=
  ∃ d', @Eq (Except CompileError α × Draft) (m.run.run d) (.error e, d')

/-- A planning step fails with the flaw there is, and without one it succeeds. -/
def Planner.Checks (m : Planner α) (d : Draft) (flaw : Option CompileError) (after : Draft → Prop) : Prop :=
  (flaw = none → ∃ a d', Planner.Gives m d a d' ∧ after d') ∧
    ∀ e, flaw = some e → Planner.Fails m d e

namespace Planner

variable {flaw' : Option CompileError} {after' : Draft → Prop}

theorem checks_pure {a : α} (h : after d) : Checks (pure a : Planner α) d none after :=
  ⟨fun _ => ⟨a, d, gives_pure.mpr ⟨rfl, rfl⟩, h⟩, fun _ he => nomatch he⟩

theorem checks_throw : Checks (throw e : Planner α) d (some e) after := by
  refine ⟨fun h => (nomatch h), ?_⟩
  intro e' he
  cases he
  exact ⟨d, rfl⟩

/-- In a row, the first flaw counts. -/
theorem Checks.bind {m : Planner α} {f : α → Planner β} (h : Checks m d flaw after)
    (hf : ∀ a d', Gives m d a d' → after d' → Checks (f a) d' flaw' after') :
    Checks (m >>= f) d (flaw.or flaw') after' := by
  cases flaw with
  | some e =>
    refine ⟨fun h => (nomatch h), ?_⟩
    rintro e' he
    cases he
    obtain ⟨d', hrun⟩ := h.2 e rfl
    exact ⟨d', by rw [run_bind, hrun]⟩
  | none =>
    obtain ⟨a, d', hgives, hafter⟩ := h.1 rfl
    obtain ⟨hok, hfail⟩ := hf a d' hgives hafter
    rw [Option.none_or]
    constructor
    · intro hnone
      obtain ⟨b, d'', hb, hd''⟩ := hok hnone
      exact ⟨b, d'', gives_bind.mpr ⟨a, d', hgives, hb⟩, hd''⟩
    · intro e he
      obtain ⟨d'', hrun⟩ := hfail e he
      refine ⟨d'', ?_⟩
      rw [run_bind, hgives]
      exact hrun

theorem Checks.mono {m : Planner α} (h : Checks m d flaw after) (hafter : ∀ d', after d' → after' d') :
    Checks m d flaw after' := by
  refine ⟨fun hnone => ?_, h.2⟩
  obtain ⟨a, d', hgives, hd'⟩ := h.1 hnone
  exact ⟨a, d', hgives, hafter d' hd'⟩

theorem checks_get_bind {f : Draft → Planner α} (h : Checks (f d) d flaw after) :
    Checks (get >>= f) d flaw after :=
  h

theorem checks_set_bind {s : Draft} {f : PUnit → Planner α} (h : Checks (f ⟨⟩) s flaw after) :
    Checks (set s >>= f) d flaw after :=
  h

theorem namespaceOf_checks (v : Visit) (inherited : Namespace) :
    Checks (namespaceOf v.head inherited) d v.namespaceFlaw? (· = d) := by
  unfold namespaceOf Visit.namespaceFlaw?
  cases v.head.ns with
  | none => exact checks_pure rfl
  | some raw =>
    simp only [Option.bind_some]
    cases Namespace.ofText? raw with
    | none => exact checks_throw
    | some ns => exact checks_pure rfl

/-- Names are reserved up to the first one that another slot has. -/
theorem reserveNames_checks {slot : Slot} {names : List String} {taken : String → Bool}
    (htaken : ∀ name, taken name = true ↔ ∃ owner, d.owners.lookup name = some owner ∧ owner ≠ slot) :
    Checks (reserveNames slot names) d ((names.find? taken).map .duplicateAttachPoint) fun d' =>
      d'.nextSlot = d.nextSlot ∧ (∀ e ∈ d'.owners, e ∈ d.owners ∨ e.2 = slot) ∧
        ∀ name, (d'.owners.lookup name).isSome ↔ (d.owners.lookup name).isSome ∨ name ∈ names := by
  induction names generalizing d with
  | nil => exact checks_pure ⟨rfl, fun e he => Or.inl he, fun name => by simp⟩
  | cons name rest ih =>
    unfold reserveNames
    apply checks_get_bind
    split
    next owner howner =>
      split
      next hmine =>
        have hfree : taken name = false := by
          rw [Bool.eq_false_iff, ne_eq, htaken]
          rintro ⟨other, hother, hne⟩
          rw [howner] at hother
          exact hne (Option.some.inj hother ▸ hmine)
        rw [List.find?_cons_of_neg (by simp [hfree])]
        refine (ih htaken).mono ?_
        rintro d' ⟨hnext, howners, hnames⟩
        refine ⟨hnext, howners, fun n => ?_⟩
        rw [hnames, List.mem_cons]
        constructor
        · exact fun h => h.imp_right Or.inr
        · rintro (h | rfl | h)
          · exact Or.inl h
          · exact Or.inl (by rw [howner]; rfl)
          · exact Or.inr h
      next hother =>
        rw [List.find?_cons_of_pos ((htaken name).mpr ⟨owner, howner, hother⟩)]
        exact checks_throw
    next hnone =>
      have hfree : taken name = false := by
        rw [Bool.eq_false_iff, ne_eq, htaken]
        rintro ⟨other, hother, -⟩
        rw [hnone] at hother
        cases hother
      rw [List.find?_cons_of_neg (by simp [hfree]), ← Option.or_none (o := Option.map _ _)]
      apply checks_set_bind
      have htaken' : ∀ n, taken n = true ↔
          ∃ owner, ((name, slot) :: d.owners).lookup n = some owner ∧ owner ≠ slot := by
        intro n
        rw [List.lookup_cons]
        by_cases hn : n = name
        · subst hn
          simp [hfree]
        · have hne : (n == name) = false := by simpa using hn
          simp only [hne, htaken]
      refine (ih htaken').bind ?_
      rintro kept d' - ⟨hnext, howners, hnames⟩
      refine checks_pure ⟨hnext, ?_, ?_⟩
      · intro e he
        rcases howners e he with hold | hmine
        · rcases List.mem_cons.mp hold with rfl | hold
          · exact Or.inr rfl
          · exact Or.inl hold
        · exact Or.inr hmine
      · intro n
        rw [hnames, List.lookup_cons, List.mem_cons]
        by_cases hn : n = name
        · simp [hn]
        · have hne : (n == name) = false := by simpa using hn
          simp only [hne, hn, false_or]

theorem resolveAttributes_checks (declared : Declarations) (tag : String) (ns : Namespace)
    (attributes : List (String × ValueSpec)) :
    Checks (resolveAttributes declared tag ns attributes) d none fun d' =>
      d'.nextSlot = d.nextSlot ∧ d'.owners = d.owners := by
  induction attributes generalizing d with
  | nil => exact checks_pure ⟨rfl, rfl⟩
  | cons a rest ih =>
    have hfirst : Checks (resolveAttribute declared tag ns a.1) d none fun d' =>
        d'.nextSlot = d.nextSlot ∧ d'.owners = d.owners := by
      apply checks_get_bind
      apply checks_set_bind
      split <;> exact checks_pure ⟨rfl, rfl⟩
    refine hfirst.bind ?_
    rintro target d₁ - ⟨hnext, howners⟩
    refine ih.bind ?_
    rintro targets d₂ - ⟨hnext', howners'⟩
    exact checks_pure ⟨hnext'.trans hnext, howners'.trans howners⟩

theorem checkEvents_checks (options : CompileOptions) (v : Visit) :
    Checks (checkEvents options v.head.tag v.head.events) d (v.handlerFlaw? options) (· = d) := by
  unfold Visit.handlerFlaw?
  induction v.head.events with
  | nil => exact checks_pure rfl
  | cons e rest ih =>
    unfold checkEvents
    cases hknown : e.2.unknownMethod? options.methods with
    | some method =>
      simp only [List.findSome?_cons, hknown, Option.map_some]
      exact checks_throw
    | none =>
      simp only [List.findSome?_cons, hknown, Option.map_none]
      exact ih

end Planner

/-- A draft after some nodes: their attach points are reserved, for slots that are taken. -/
structure Draft.Follows (d : Draft) (before : List Visit) : Prop where
  bounded : d.Bounded
  names : ∀ name, (d.owners.lookup name).isSome ↔ ∃ v ∈ before, name ∈ v.head.attachPoints

theorem Draft.Follows.next (h : d.Follows before) : Draft.Follows { d with nextSlot := d.nextSlot + 1 } before :=
  ⟨fun e he => Nat.lt_succ_of_lt (h.bounded e he), h.names⟩

namespace Planner

theorem checks_freshSlot_bind {f : Slot → Planner α}
    (h : Checks (f d.nextSlot) { d with nextSlot := d.nextSlot + 1 } flaw after) :
    Checks (freshSlot >>= f) d flaw after :=
  h

/-- The names that other slots have are the attach points of the nodes before. -/
theorem taken_iff (h : d.Follows before) (name : String) :
    (before.any fun u => u.head.attachPoints.contains name) = true ↔
      ∃ owner, d.owners.lookup name = some owner ∧ owner ≠ d.nextSlot := by
  rw [List.any_eq_true]
  simp only [List.contains_iff_mem]
  rw [← h.names name, Option.isSome_iff_exists]
  constructor
  · rintro ⟨owner, howner⟩
    refine ⟨owner, howner, ?_⟩
    obtain ⟨front, rest, heq, -⟩ := List.lookup_eq_some_iff.mp howner
    have hlt := h.bounded (name, owner) (by simp [heq])
    exact Nat.ne_of_lt hlt
  · rintro ⟨owner, howner, -⟩
    exact ⟨owner, howner⟩

/-- A node planned at the newest slot is checked as an element. -/
theorem head_checks {created : Bool} {inherited : Namespace} (v : Visit) (h : d.Follows before) :
    Checks (Planner.head declared options d.nextSlot created inherited v.head)
      { d with nextSlot := d.nextSlot + 1 } (v.elementFlaw? options before) (·.Follows (before ++ [v])) := by
  have hflaws : v.elementFlaw? options before =
      v.namespaceFlaw?.or ((v.attachFlaw? before).or (none.or ((v.handlerFlaw? options).or none))) := by
    rw [Option.none_or, Option.or_none]
    rfl
  rw [hflaws]
  refine (namespaceOf_checks v inherited).bind ?_
  rintro ns _ - rfl
  have htaken : ∀ name, _ ↔ ∃ owner,
      ({ d with nextSlot := d.nextSlot + 1 } : Draft).owners.lookup name = some owner ∧ owner ≠ d.nextSlot :=
    taken_iff h
  refine (reserveNames_checks htaken).bind ?_
  rintro names d₁ - ⟨hnext, howners, hnames⟩
  refine (resolveAttributes_checks declared v.head.tag ns v.head.attributes).bind ?_
  rintro targets d₂ - ⟨hnext', howners'⟩
  refine (checkEvents_checks options v).bind ?_
  rintro _ _ - rfl
  refine checks_pure ⟨?_, ?_⟩
  · intro e he
    rw [howners'] at he
    rw [hnext', hnext]
    rcases howners e he with hold | hmine
    · exact Nat.lt_succ_of_lt (h.bounded e hold)
    · exact hmine ▸ Nat.lt_succ_self _
  · intro name
    rw [howners', hnames, h.names]
    simp only [List.mem_append, List.mem_singleton]
    constructor
    · rintro (⟨u, hu, hname⟩ | hname)
      · exact ⟨u, Or.inl hu, hname⟩
      · exact ⟨v, Or.inr rfl, hname⟩
    · rintro ⟨u, hu | rfl, hname⟩
      · exact Or.inl ⟨u, hu, hname⟩
      · exact Or.inr hname

/-- A node without a tag below the root is checked as a text, which has nothing below it. -/
theorem text_checks {path : String} {children : List TemplateNode} (h : d.Follows before) (htag : head.tag = "")
    (inherited : Namespace) :
    Checks (child declared options inherited path (.node head children)) d
      (Visit.textFlaw? ⟨path, head, children⟩)
      (·.Follows (before ++ TemplateNode.visits path (.node head children))) := by
  unfold child
  rw [if_pos htag]
  cases hflaw : Visit.textFlaw? ⟨path, head, children⟩ with
  | some e =>
    unfold Visit.textFlaw? at hflaw
    cases hexpr : head.expression with
    | none =>
      simp only [hexpr, Option.isNone_none, if_true, Option.some.injEq] at hflaw
      exact hflaw ▸ checks_throw
    | some spec =>
      simp only [hexpr, Option.isNone_some, Bool.false_eq_true, if_false] at hflaw
      cases hparts : hasElementParts head children with
      | true =>
        simp only [hparts, if_true, Option.some.injEq] at hflaw
        exact hflaw ▸ checks_throw
      | false => simp [hparts] at hflaw
  | none =>
    obtain ⟨⟨spec, hexpr⟩, hns, hattach, hattrs, hevents, hchildren⟩ := Visit.textFlaw?_eq_none_iff.mp hflaw
    dsimp only at hexpr hns hattach hattrs hevents hchildren
    have hparts : hasElementParts head children = false := by
      simp [hasElementParts, hns, hattach, hattrs, hevents, hchildren]
    simp only [hexpr, hparts, Bool.false_eq_true, if_false]
    apply checks_freshSlot_bind
    refine checks_pure ⟨h.next.bounded, fun name => ?_⟩
    rw [h.next.names, hchildren]
    simp [TemplateNode.visits, TemplateNode.visitsFrom, hattach]

theorem textFlaw?_or_flawIn? (v : Visit) (path : String) :
    v.textFlaw?.or (flawIn? options before (TemplateNode.visitsFrom path 0 v.children)) = v.textFlaw? := by
  cases hflaw : v.textFlaw? with
  | some e => rfl
  | none =>
    rw [(Visit.textFlaw?_eq_none_iff.mp hflaw).2.2.2.2.2]
    rfl

mutual

/-- Below the root a node is refused for the first flaw in it and its descendants. -/
theorem child_checks {d : Draft} {before : List Visit} {inherited : Namespace} {path : String}
    (hbefore : before ≠ []) (h : d.Follows before) :
    ∀ node : TemplateNode, Checks (child declared options inherited path node) d
      (flawIn? options before (node.visits path)) (·.Follows (before ++ node.visits path))
  | .text spec => by
    rw [TemplateNode.visits, List.append_nil]
    exact checks_freshSlot_bind (checks_pure h.next)
  | .node head children => by
    have hempty : before.isEmpty = false := List.isEmpty_eq_false_iff.mpr hbefore
    by_cases htag : head.tag = ""
    · rw [TemplateNode.visits, flawIn?, Visit.flaw?, if_pos htag, hempty, if_neg Bool.false_ne_true,
        textFlaw?_or_flawIn? ⟨path, head, children⟩]
      exact text_checks h htag inherited
    · rw [TemplateNode.visits, flawIn?, Visit.flaw?, if_neg htag]
      unfold child
      rw [if_neg htag]
      apply checks_freshSlot_bind
      refine (head_checks ⟨path, head, children⟩ h).bind ?_
      rintro out d₁ - hd₁
      rw [← Option.or_none (o := flawIn? _ _ _)]
      refine (children_checks (by simp) hd₁ children).bind ?_
      rintro plans d₂ - hd₂
      rw [List.append_assoc] at hd₂
      exact checks_pure hd₂

theorem children_checks {d : Draft} {before : List Visit} {inherited : Namespace} {path : String}
    {index : Nat} (hbefore : before ≠ []) (h : d.Follows before) : ∀ nodes : List TemplateNode,
    Checks (children declared options inherited path index nodes) d
      (flawIn? options before (TemplateNode.visitsFrom path index nodes))
      (·.Follows (before ++ TemplateNode.visitsFrom path index nodes))
  | [] => by
    rw [TemplateNode.visitsFrom, List.append_nil]
    exact checks_pure h
  | node :: rest => by
    rw [TemplateNode.visitsFrom, flawIn?_append]
    refine (child_checks hbefore h node).bind ?_
    rintro plan d₁ - hd₁
    rw [← Option.or_none (o := flawIn? _ _ _)]
    refine (children_checks (by simp [hbefore]) hd₁ rest).bind ?_
    rintro plans d₂ - hd₂
    rw [List.append_assoc] at hd₂
    exact checks_pure hd₂

end

/-- A template is refused for its first flaw. -/
theorem root_checks (declared : Declarations) (options : CompileOptions) (maps : PropertyMaps)
    (head : NodeHead) (children : List TemplateNode) :
    Checks (root declared options (.node head children)) ⟨0, [], maps⟩
      (flawIn? options [] (TemplateNode.visits options.rootName (.node head children))) fun _ => True := by
  have hstart : Draft.Follows ⟨0, [], maps⟩ [] :=
    ⟨fun e he => absurd he List.not_mem_nil, fun name => by simp⟩
  rw [root, TemplateNode.visits, flawIn?, Visit.flaw?]
  by_cases htag : head.tag = ""
  · rw [if_pos htag, if_pos htag]
    simp only [List.isEmpty_nil, if_true, Option.some_or, Visit.rootTextFlaw]
    cases head.expression with
    | none => exact checks_throw
    | some spec => exact checks_throw
  · rw [if_neg htag, if_neg htag]
    apply checks_freshSlot_bind
    refine (head_checks ⟨options.rootName, head, children⟩ hstart).bind ?_
    rintro out d₁ - hd₁
    rw [← Option.or_none (o := flawIn? _ _ _)]
    refine (children_checks (List.cons_ne_nil _ _) hd₁ children).bind ?_
    rintro plans d₂ - -
    exact checks_pure trivial

end Planner

section Compiled

variable {maps : PropertyMaps} {children : List TemplateNode}

/-- A template without a flaw compiles to its plan. -/
theorem compileWith_eq_ok
    (h : flawIn? options [] (TemplateNode.visits options.rootName (.node head children)) = none) :
    (compileWith declared maps options (.node head children)).1 =
      .ok (Template.ofPlan options (TemplateNode.node head children).size
        ((TemplateNode.node head children).rootPlan declared options)) := by
  obtain ⟨plan, d, hgives, -⟩ := (Planner.root_checks declared options maps head children).1 h
  obtain ⟨_, _, -, -, -, hplan, hsize⟩ := Planner.root_gives hgives
  unfold compileWith
  rw [show StateT.run _ _ = _ from hgives, ← hplan, ← hsize]
  rfl

/-- A template with flaws is refused for the first one. -/
theorem compileWith_eq_error
    (h : flawIn? options [] (TemplateNode.visits options.rootName (.node head children)) = some e) :
    (compileWith declared maps options (.node head children)).1 = .error e := by
  obtain ⟨d, hrun⟩ := (Planner.root_checks declared options maps head children).2 e h
  unfold compileWith
  rw [show StateT.run _ _ = _ from hrun]
  rfl

theorem compileWith_eq_ok_iff : (∃ t, (compileWith declared maps options (.node head children)).1 = .ok t) ↔
    flawIn? options [] (TemplateNode.visits options.rootName (.node head children)) = none := by
  cases hflaw : flawIn? options [] (TemplateNode.visits options.rootName (.node head children)) with
  | none => exact ⟨fun _ => rfl, fun _ => ⟨_, compileWith_eq_ok hflaw⟩⟩
  | some e =>
    rw [compileWith_eq_error hflaw]
    simp

theorem compileWith_eq_error_iff :
    (compileWith declared maps options (.node head children)).1 = .error e ↔
      flawIn? options [] (TemplateNode.visits options.rootName (.node head children)) = some e := by
  cases hflaw : flawIn? options [] (TemplateNode.visits options.rootName (.node head children)) with
  | none =>
    rw [compileWith_eq_ok hflaw]
    simp
  | some e' =>
    rw [compileWith_eq_error hflaw]
    simp

end Compiled

/-- A template compiles exactly when it is well-formed, whatever tags are defined and whatever property maps
are known, and otherwise the error is about the first flaw on a walk through it. -/
theorem compile_reports_first_flaw (declared : Declarations) (maps : PropertyMaps) (options : CompileOptions)
    (head : NodeHead) (children : List TemplateNode) :
    ((∃ t, (compileWith declared maps options (.node head children)).1 = .ok t) ↔
      (TemplateNode.node head children).WellFormed options) ∧
    ∀ e, (compileWith declared maps options (.node head children)).1 = .error e ↔
      (TemplateNode.node head children).FirstFlaw options e := by
  constructor
  · rw [compileWith_eq_ok_iff, TemplateNode.wellFormed_iff]
  · intro e
    rw [compileWith_eq_error_iff, TemplateNode.firstFlaw_iff]

end LiveMarkup
