import LiveMarkup.Proofs.Delivery
import LiveMarkup.Proofs.Rendering

namespace LiveMarkup

namespace Element

/-- Without callbacks it does not matter whose values are written. -/
theorem replay_owner {owner owner' : ComponentId} {memory : Memory} (hmemory : memory.Inert) (e : Element)
    (targets : List Target) : e.replay owner memory targets = e.replay owner' memory targets := by
  induction targets generalizing e with
  | nil => rfl
  | cons t rest ih =>
    unfold replay
    cases hm : memory t with
    | none => exact ih e
    | some v =>
      have hv := hmemory t v hm
      have hsame : e.write owner t v = e.write owner' t v := by
        rw [write_eq owner e t hv, write_eq owner' e t hv]
      simp only [hsame, ih]

theorem bare_eq_self {e : Element} (h : e.listeners = []) : e.bare = e := by
  cases e
  cases h
  rfl

end Element

theorem NodeKind.tree_bare {e e' : Element} (h : e.bare = e'.bare) (children : List Tree) :
    (NodeKind.element e).tree children = (NodeKind.element e').tree children :=
  (congrArg (fun x : Element => Tree.element x.tag x.ns x.attrs x.props children) h :)

namespace Plan

/-- A node that shows the present values of all its specs can look one way only. -/
theorem ShownBy.tree_eq {owner owner' : ComponentId} {read : String → Value} {plan : Plan}
    {kind kind' : NodeKind} (h : plan.ShownBy owner (Settled read fun _ _ => False) kind)
    (h' : plan.ShownBy owner' (Settled read fun _ _ => False) kind')
    (hok : ∀ place ∈ plan.places, ∃ v, place.2.evalIn read = .ok v) (children : List Tree) :
    kind.tree children = kind'.tree children := by
  -- with nothing due and no failure the value shown is the value of the spec
  have hunique : ∀ place ∈ plan.places, ∀ shown shown', Settled read (fun _ _ => False) place shown →
      Settled read (fun _ _ => False) place shown' → shown = shown' := by
    rintro place hplace shown shown' hs hs'
    obtain ⟨v, hv⟩ := hok place hplace
    rw [hs.resolve_left id v hv, hs'.resolve_left id v hv]
  cases plan with
  | text slot spec =>
    cases kind with
    | element e => exact h.elim
    | text s =>
      cases kind' with
      | element e => exact h'.elim
      | text s' =>
        obtain ⟨shown, rfl, hshown⟩ := h
        obtain ⟨shown', rfl, hshown'⟩ := h'
        rw [hunique _ List.mem_cons_self shown shown' hshown hshown']
  | element head below =>
    cases kind with
    | text s => exact h.elim
    | element e =>
      cases kind' with
      | text s => exact h'.elim
      | element e' =>
        obtain ⟨memory, hmemory, hbare, hall⟩ := h
        obtain ⟨memory', -, hbare', hall'⟩ := h'
        refine NodeKind.tree_bare ?_ children
        have hsame : ∀ t ∈ head.attributes.map (·.1), memory t = memory' t := by
          intro t ht
          obtain ⟨a, ha, rfl⟩ := List.mem_map.mp ht
          exact hunique _ (List.mem_map.mpr ⟨a, ha, rfl⟩) _ _ (hall a ha) (hall' a ha)
        rw [hbare, hbare', Element.replay_owner hmemory, Element.replay_congr hsame]

mutual

theorem tree_congr {kind kind' : Plan → NodeKind} : ∀ {plan : Plan},
    (∀ sub ∈ plan.preorder, ∀ children, (kind sub).tree children = (kind' sub).tree children) →
      plan.tree kind = plan.tree kind'
  | .text _ _, h => h _ List.mem_cons_self []
  | .element head children, h => by
    rw [Plan.tree, Plan.tree, h _ List.mem_cons_self,
      treeAll_congr fun sub hsub => h sub (List.mem_cons_of_mem _ hsub)]

theorem treeAll_congr {kind kind' : Plan → NodeKind} : ∀ {plans : List Plan},
    (∀ sub ∈ Plan.preorderAll plans, ∀ children, (kind sub).tree children = (kind' sub).tree children) →
      Plan.treeAll kind plans = Plan.treeAll kind' plans
  | [], _ => rfl
  | child :: rest, h => by
    rw [Plan.treeAll, Plan.treeAll, tree_congr fun sub hsub => h sub (List.mem_append_left _ hsub),
      treeAll_congr fun sub hsub => h sub (List.mem_append_right _ hsub)]

end

end Plan

/-- A document that holds a plan has room for it. -/
theorem Document.Holds.size_le {d : Document} {off : Nat} {kind : Plan → NodeKind} {plan : Plan}
    (hnum : plan.NumberedFrom 0) (h : d.Holds off kind plan.preorder) : plan.size ≤ d.size := by
  have hlast : plan.size - 1 < plan.preorder.length := by
    rw [Plan.length_preorder]
    exact Nat.sub_lt plan.size_pos Nat.one_pos
  have hj := List.getElem?_eq_getElem hlast
  obtain ⟨parent, hnode⟩ := h _ (List.mem_of_getElem? hj)
  rw [Plan.slot_of_preorder hnum hj, Nat.zero_add] at hnode
  have hin : off + (plan.size - 1) < d.nodes.size := (Array.getElem?_eq_some_iff.mp hnode).1
  change plan.size ≤ d.nodes.size
  omega

namespace View

variable {x x' : View} {p p' : Page}

/-- Two views of one template that are up to date with the same properties look the same. -/
theorem UpToDate.subtree_eq (h : x.UpToDate p) (h' : x'.UpToDate p') (hplan : x'.plan = x.plan)
    (hread : x'.read p' = x.read p)
    (hok : ∀ sub ∈ x.plan.preorder, ∀ place ∈ sub.places, ∃ v, place.2.evalIn (x.read p) = .ok v) :
    p'.document.subtree x'.off = p.document.subtree x.off := by
  obtain ⟨kind, hheld, hshown⟩ := h
  obtain ⟨kind', hheld', hshown'⟩ := h'
  rw [hplan] at hheld' hshown'
  rw [hread] at hshown'
  have htree := Document.subtreeTo_of_holds hheld (hheld.size_le x.numbered)
  have htree' := Document.subtreeTo_of_holds hheld' (hheld'.size_le x.numbered)
  rw [x.numbered.slot_eq] at htree htree'
  refine (htree'.trans ?_).trans htree.symm
  exact Plan.tree_congr fun sub hsub => (hshown' sub hsub).tree_eq (hshown sub hsub) (hok sub hsub)

end View

namespace Site

variable {site : Site}

/-- The properties of the component when the building starts. -/
def read (site : Site) : String → Value :=
  (site.start.component site.owner).get

/-- What is exposed by the time does not show in a value of the expression language. -/
theorem valueWith_eq_evalIn {spec : ValueSpec} (h : spec.FromLanguage) (points : Dict NodeId) :
    site.valueWith points spec = spec.evalIn site.read :=
  (Page.eval_exposing h.ofProperties _ _ _).trans (Page.eval_of_free site.free h)

/-- What the building writes to the targets of an element. -/
def memory (site : Site) (head : PlanHead) : Memory :=
  fun t => (head.attributes.find? fun a => a.1 = t).bind fun a => (a.2.evalIn site.read).toOption

theorem memory_eq {head : PlanHead} (hnodup : (head.attributes.map (·.1)).Nodup) {a : Target × ValueSpec}
    (ha : a ∈ head.attributes) : site.memory head a.1 = (a.2.evalIn site.read).toOption := by
  have hfind : head.attributes.find? (fun b => b.1 = a.1) = some a := by
    cases hb : head.attributes.find? (fun b => b.1 = a.1) with
    | none => exact absurd (decide_eq_true rfl) (List.find?_eq_none.mp hb a ha)
    | some b =>
      have hsame : b.1 = a.1 := by simpa using List.find?_some hb
      rw [List.inj_on_of_nodup_map hnodup (List.mem_of_find?_eq_some hb) ha hsame]
  rw [memory, hfind]
  rfl

theorem showAttributes_eq_replay {memory : Memory} {points : Dict NodeId} {attributes : List (Target × ValueSpec)}
    (h : ∀ a ∈ attributes, memory a.1 = (site.valueWith points a.2).toOption) (e : Element) :
    attributes.foldl (site.showAttribute points) e = e.replay site.owner memory (attributes.map (·.1)) := by
  induction attributes generalizing e with
  | nil => rfl
  | cons a rest ih =>
    rw [List.foldl_cons, List.map_cons, ih fun b hb => h b (List.mem_cons_of_mem _ hb), Element.replay,
      h a List.mem_cons_self, showAttribute]
    cases site.valueWith points a.2 <;> rfl

theorem bare_element (head : PlanHead) :
    (site.element head).bare =
      head.attributes.foldl (site.showAttribute (site.points (head.slot + 1))) (.ofTag head.tag head.ns) := by
  have hshape := site.shape_showAttributes (site.points (head.slot + 1)) head.attributes (.ofTag head.tag head.ns)
  simp only [Element.shape, KindShape.element.injEq] at hshape
  exact Element.bare_eq_self hshape.2.2

/-- What has just been built shows the present values. -/
theorem shownBy_kind {sub : Plan} (hseparate : sub.Separate)
    (hlanguage : ∀ place ∈ sub.places, place.2.FromLanguage ∧ place.2.value.formula.CallbackFree)
    (hread : ∀ n, (site.read n).Inert) :
    sub.ShownBy site.owner (Settled site.read fun _ _ => False) (site.kind sub) := by
  have hshown : ∀ place : Op × ValueSpec,
      Settled site.read (fun _ _ => False) place (place.2.evalIn site.read).toOption := by
    refine fun place => Or.inr fun v hv => ?_
    rw [hv]
    rfl
  cases sub with
  | text slot spec =>
    refine ⟨(spec.evalIn site.read).toOption, ?_, hshown _⟩
    have hvalue : site.value slot spec = spec.evalIn site.read :=
      valueWith_eq_evalIn (hlanguage _ (List.mem_singleton_self _)).1 _
    change shownText (site.value slot spec) = _
    rw [hvalue]
    cases spec.evalIn site.read <;> rfl
  | element head children =>
    have hplace : ∀ a ∈ head.attributes, (a.1.op head.slot a.2.value, a.2) ∈ (Plan.element head children).places :=
      fun a ha => List.mem_map.mpr ⟨a, ha, rfl⟩
    have hmemory : ∀ a ∈ head.attributes, site.memory head a.1 = (a.2.evalIn site.read).toOption :=
      fun a ha => memory_eq (hseparate.imp fun h => h.ne) ha
    refine ⟨site.memory head, ?_, ?_, fun a ha => ?_⟩
    · intro t v ht
      obtain ⟨a, ha, hv⟩ := Option.bind_eq_some_iff.mp ht
      refine ValueSpec.evalIn_inert (hlanguage _ (hplace a (List.mem_of_find?_eq_some ha))).2 hread ?_
      cases hval : a.2.evalIn site.read with
      | error f =>
        rw [hval] at hv
        cases hv
      | ok w =>
        rw [hval] at hv
        cases hv
        rfl
    · rw [bare_element]
      refine showAttributes_eq_replay (fun a ha => ?_) _
      rw [hmemory a ha, valueWith_eq_evalIn (hlanguage _ (hplace a ha)).1]
    · rw [hmemory a ha]
      exact hshown (_, a.2)

variable {declared : Declarations} {options : CompileOptions} {head : NodeHead} {children : List TemplateNode}

variable (site) in
/-- Building a template gives a view of it that is up to date. -/
theorem builds_view
    (htemplate : site.template = .ofPlan options (TemplateNode.node head children).size
      ((TemplateNode.node head children).rootPlan declared options))
    (htag : head.tag ≠ "") (hleaves : (TemplateNode.node head children).TextsAreLeaves)
    (hroot : options.createRoot = true)
    (hfollows : ∀ sub ∈ ((TemplateNode.node head children).rootPlan declared options).preorder, site.Follows sub)
    (hseparate : ∀ sub ∈ ((TemplateNode.node head children).rootPlan declared options).preorder, sub.Separate)
    (hlanguage : ∀ sub ∈ ((TemplateNode.node head children).rootPlan declared options).preorder,
      ∀ place ∈ sub.places, place.2.FromLanguage ∧ place.2.value.formula.CallbackFree)
    (hread : ∀ n, (site.read n).Inert) :
    ∃ (x : View) (report : Report) (q : Page),
      site.template.buildOn site.host site.owner none site.sink site.start = some (.ok (x.inst, report), q) ∧
      x.plan = (TemplateNode.node head children).rootPlan declared options ∧ x.inst.root = x.off ∧
      x.inst.template = site.template ∧ x.inst.component = site.owner ∧ site.start.SameState q ∧
      x.Ready q ∧ x.UpToDate q := by
  obtain ⟨i, report, q, hbuild, hi, hend, -, -⟩ := builds htemplate htag hleaves hroot hfollows
  obtain ⟨hnum, hsize⟩ := TemplateNode.rootPlan_numbered declared options hleaves
  have hbound : ∀ sub ∈ ((TemplateNode.node head children).rootPlan declared options).preorder,
      i.node sub.slot = .ok (site.off + sub.slot) := by
    intro sub hsub
    obtain ⟨j, hj⟩ := List.mem_iff_getElem?.mp hsub
    obtain ⟨hlt, -⟩ := List.getElem?_eq_some_iff.mp hj
    rw [Plan.length_preorder, hsize] at hlt
    rw [Plan.slot_of_preorder hnum hj, Nat.zero_add]
    exact hend.bound j hlt
  have hsteps : i.template.refresh = ((TemplateNode.node head children).rootPlan declared options).refresh := by
    rw [hend.template, htemplate]
    rfl
  let x : View := ⟨i, _, site.off, hnum, hbound, hsteps, hseparate, hlanguage⟩
  have howner : x.inst.component = site.owner := hend.owner
  have hsame : x.read q = site.read := by
    rw [View.read_sameState hend.state, View.read, howner]
    rfl
  refine ⟨x, report, q, hbuild, rfl, hi, hend.template, howner, hend.state, ?_, ?_⟩
  · refine ⟨hend.state.plain site.plain, ?_, ?_⟩
    · rw [howner, hend.state.access, site.free]
    · rw [hsame]
      exact hread
  · refine ⟨site.kind, Document.holds_of_toList hnum hend.laid, fun sub hsub => ?_⟩
    rw [hsame, howner]
    exact shownBy_kind (hseparate sub hsub) (hlanguage sub hsub) hread

end Site

end LiveMarkup
