import LiveMarkup.Proofs.LivePage
import LiveMarkup.Proofs.Preorder

namespace LiveMarkup

variable {registry : Registry} {k : Nat}

/-- Which nodes there are, of all that a tree shows. -/
inductive Outline where
  | text
  | element (tag : String) (ns : Namespace) (children : List Outline)

mutual

def Outline.count : Outline → Nat
  | .text => 1
  | .element _ _ children => 1 + Outline.countAll children

def Outline.countAll : List Outline → Nat
  | [] => 0
  | child :: rest => child.count + Outline.countAll rest

end

theorem Outline.countAll_append (before after : List Outline) :
    Outline.countAll (before ++ after) = Outline.countAll before + Outline.countAll after := by
  induction before with
  | nil => exact (Nat.zero_add _).symm
  | cons child rest ih => rw [List.cons_append, countAll, countAll, ih, Nat.add_assoc]

/-- The source that a template was compiled from, whatever was declared and set for it. -/
def Template.CompiledFrom (t : Template) (node : TemplateNode) : Prop :=
  ∃ declared maps options maps', compileWith declared maps options node = (.ok t, maps')

namespace Registry

mutual

/-- What a node of a template comes to. An element shows first what the definition of its tag puts in it, and
then what the template does. -/
inductive Unfolds (registry : Registry) : Namespace → TemplateNode → Outline → Prop
  | text {inherited : Namespace} {node : TemplateNode} (h : node.IsText) : Unfolds registry inherited node .text
  | element {inherited : Namespace} {head : NodeHead} {children : List TemplateNode} {within below : List Outline}
      (htag : head.tag ≠ "") (hwithin : Furnishes registry head.tag (head.namespaceIn inherited) within)
      (hbelow : UnfoldsAll registry (head.namespaceIn inherited) children below) :
      Unfolds registry inherited (.node head children)
        (.element head.tag (head.namespaceIn inherited) (within ++ below))

inductive UnfoldsAll (registry : Registry) : Namespace → List TemplateNode → List Outline → Prop
  | nil {inherited : Namespace} : UnfoldsAll registry inherited [] []
  | cons {inherited : Namespace} {child : TemplateNode} {rest : List TemplateNode} {outline : Outline}
      {others : List Outline} (hchild : Unfolds registry inherited child outline)
      (hrest : UnfoldsAll registry inherited rest others) :
      UnfoldsAll registry inherited (child :: rest) (outline :: others)

/-- What the definition of a tag puts in its elements: the nodes below the root of its template. Only tags in
HTML are defined, and the tag of the root does not matter. -/
inductive Furnishes (registry : Registry) : String → Namespace → List Outline → Prop
  | plain {tag : String} {ns : Namespace} (h : ns = .html → registry.get? tag = none) :
      Furnishes registry tag ns []
  | widget {tag : String} {d : Definition} {t : Template} {initial : Blueprint} {root : NodeHead}
      {inner : List TemplateNode} {within : List Outline} (hd : registry.get? tag = some d)
      (hkind : d.kind = .widget t initial) (hsource : t.CompiledFrom (.node root inner))
      (hinner : UnfoldsAll registry (root.namespaceIn .html) inner within) : Furnishes registry tag .html within

end

/-- How many nodes an instruction adds, with those in the element it creates. -/
def Adds (registry : Registry) (k : Nat) : Op → Prop
  | .createElement _ tag ns => ∃ within, registry.Furnishes tag ns within ∧ k = 1 + Outline.countAll within
  | .createText _ _ => k = 1
  | _ => k = 0

inductive AddsAll (registry : Registry) : Nat → List Op → Prop
  | nil : AddsAll registry 0 []
  | cons {k more : Nat} {op : Op} {rest : List Op} (hop : registry.Adds k op) (hrest : AddsAll registry more rest) :
      AddsAll registry (k + more) (op :: rest)

theorem adds_of_not_bound {op : Op} (hop : op.bound? = none) : registry.Adds k op ↔ k = 0 := by
  cases op with
  | createElement s tag ns => cases hop
  | adoptRoot s => cases hop
  | createText s value => cases hop
  | _ => rfl

theorem addsAll_append {before after : List Op} :
    registry.AddsAll k (before ++ after) ↔
      ∃ first more, registry.AddsAll first before ∧ registry.AddsAll more after ∧ k = first + more := by
  constructor
  · intro h
    induction before generalizing k with
    | nil => exact ⟨0, k, .nil, h, (Nat.zero_add k).symm⟩
    | cons op rest ih =>
      cases h with
      | @cons first _ _ _ hop hrest =>
        obtain ⟨j, more, hj, hmore, rfl⟩ := ih hrest
        exact ⟨first + j, more, .cons hop hj, hmore, (Nat.add_assoc ..).symm⟩
  · rintro ⟨first, more, hfirst, hmore, rfl⟩
    induction hfirst with
    | nil => rwa [Nat.zero_add, List.nil_append]
    | cons hop _ ih =>
      rw [Nat.add_assoc]
      exact .cons hop ih

theorem addsAll_singleton {op : Op} : registry.AddsAll k [op] ↔ registry.Adds k op := by
  constructor
  · intro h
    cases h with
    | cons hop hrest =>
      cases hrest
      exact hop
  · exact fun h => .cons h .nil

theorem addsAll_of_not_bound {ops : List Op} (h : ∀ op ∈ ops, op.bound? = none) : registry.AddsAll 0 ops := by
  induction ops with
  | nil => exact .nil
  | cons op rest ih =>
    exact .cons ((adds_of_not_bound (h op List.mem_cons_self)).mpr rfl)
      (ih fun other hother => h other (List.mem_cons_of_mem _ hother))

/-- Beside the element itself the instructions for it add nothing. -/
theorem addsAll_head (h : PlanHead)
    (hcreate : registry.Adds k (if h.created then .createElement h.slot h.tag h.ns else .adoptRoot h.slot)) :
    registry.AddsAll k h.build := by
  obtain ⟨create, rest, heq, -, hrest⟩ := h.build_eq
  rw [(List.cons.inj heq).1] at hcreate
  rw [heq]
  exact .cons hcreate (addsAll_of_not_bound fun op hop => (hrest op hop).1)

end Registry

mutual

theorem TemplateNode.adds_build (declared : Declarations) (options : CompileOptions) :
    ∀ (node : TemplateNode) {inherited : Namespace} {slot : Slot} {outline : Outline},
      registry.Unfolds inherited node outline →
      registry.AddsAll outline.count (node.plan declared options inherited slot).build
  | .text spec, inherited, slot, outline, h => by
    cases h
    exact Registry.addsAll_singleton.mpr rfl
  | .node head children, inherited, slot, outline, h => by
    unfold TemplateNode.plan
    cases h with
    | text htext =>
      have htag : head.tag = "" := htext
      rw [if_pos htag]
      exact Registry.addsAll_singleton.mpr rfl
    | @element _ _ _ within below htag hwithin hbelow =>
      rw [if_neg htag, Outline.count, Outline.countAll_append, ← Nat.add_assoc]
      refine Registry.addsAll_append.mpr ⟨_, _, Registry.addsAll_head _ ?_,
        TemplateNode.adds_buildChildren declared options children hbelow, rfl⟩
      exact ⟨within, hwithin, rfl⟩

theorem TemplateNode.adds_buildChildren (declared : Declarations) (options : CompileOptions) :
    ∀ (nodes : List TemplateNode) {inherited : Namespace} {parent slot : Slot} {outlines : List Outline},
      registry.UnfoldsAll inherited nodes outlines →
      registry.AddsAll (Outline.countAll outlines)
        (Plan.buildChildren parent (TemplateNode.planAll declared options inherited slot nodes))
  | [], inherited, parent, slot, outlines, h => by
    cases h
    exact .nil
  | child :: rest, inherited, parent, slot, outlines, h => by
    cases h with
    | @cons _ _ _ outline others hchild hrest =>
      refine Registry.addsAll_append.mpr ⟨_, _, TemplateNode.adds_build declared options child hchild, ?_, rfl⟩
      rw [← Nat.zero_add (Outline.countAll others)]
      exact .cons rfl (TemplateNode.adds_buildChildren declared options rest hrest)

end

mutual

/-- What all its elements put in themselves, a node shows. -/
theorem TemplateNode.exists_unfolds (declared : Declarations) (options : CompileOptions) :
    ∀ (node : TemplateNode) {inherited : Namespace} {slot : Slot},
      (∀ s tag ns, .createElement s tag ns ∈ (node.plan declared options inherited slot).build →
        ∃ within, registry.Furnishes tag ns within) →
      ∃ outline, registry.Unfolds inherited node outline
  | .text _, _, _, _ => ⟨_, .text trivial⟩
  | .node head children, inherited, slot, h => by
    by_cases htag : head.tag = ""
    · exact ⟨_, .text htag⟩
    · rw [TemplateNode.plan, if_neg htag] at h
      obtain ⟨within, hwithin⟩ := h slot head.tag (head.namespaceIn inherited)
        (List.mem_append_left _ (PlanHead.mem_build_of_created _ rfl))
      obtain ⟨below, hbelow⟩ := TemplateNode.exists_unfoldsAll declared options children
        fun s tag ns hop => h s tag ns (List.mem_append_right _ hop)
      exact ⟨_, .element htag hwithin hbelow⟩

theorem TemplateNode.exists_unfoldsAll (declared : Declarations) (options : CompileOptions) :
    ∀ (nodes : List TemplateNode) {inherited : Namespace} {parent slot : Slot},
      (∀ s tag ns, .createElement s tag ns ∈
          Plan.buildChildren parent (TemplateNode.planAll declared options inherited slot nodes) →
        ∃ within, registry.Furnishes tag ns within) →
      ∃ outlines, registry.UnfoldsAll inherited nodes outlines
  | [], _, _, _, _ => ⟨_, .nil⟩
  | child :: rest, inherited, parent, slot, h => by
    obtain ⟨outline, hchild⟩ := TemplateNode.exists_unfolds declared options child
      fun s tag ns hop => h s tag ns (List.mem_append_left _ hop)
    obtain ⟨others, hrest⟩ := TemplateNode.exists_unfoldsAll declared options rest
      fun s tag ns hop => h s tag ns (List.mem_append_right _ (List.mem_cons_of_mem _ hop))
    exact ⟨_, .cons hchild hrest⟩

end

namespace Template

variable {t : Template}

/-- A template that adopts its root adds the nodes below it. -/
theorem CompiledFrom.adds_build {root : NodeHead} {inner : List TemplateNode} {within : List Outline}
    (h : t.CompiledFrom (.node root inner)) (hadopts : t.createsRoot = false)
    (hinner : registry.UnfoldsAll (root.namespaceIn .html) inner within) :
    registry.AddsAll (Outline.countAll within) t.build := by
  obtain ⟨declared, maps, options, maps', hcompile⟩ := h
  obtain ⟨_, _, -, -, -, rfl⟩ := compileWith_ok hcompile
  refine Registry.addsAll_append.mpr ⟨0, _, Registry.addsAll_head _ ?_,
    TemplateNode.adds_buildChildren declared options inner hinner, (Nat.zero_add _).symm⟩
  have hcreated : options.createRoot = false := hadopts
  rw [NodeHead.plan, hcreated]
  rfl

theorem CompiledFor.exists_source {tags : String → Prop} (h : t.CompiledFor tags) :
    ∃ root inner, t.CompiledFrom (.node root inner) := by
  obtain ⟨declared, maps, options, node, maps', hcompile, -⟩ := h
  obtain ⟨root, inner, rfl, -⟩ := compileWith_ok hcompile
  exact ⟨root, inner, declared, maps, options, maps', hcompile⟩

theorem CompiledFrom.exists_unfoldsAll {root : NodeHead} {inner : List TemplateNode}
    (h : t.CompiledFrom (.node root inner))
    (hcreated : ∀ s tag ns, .createElement s tag ns ∈ t.build → ∃ within, registry.Furnishes tag ns within) :
    ∃ within, registry.UnfoldsAll (root.namespaceIn .html) inner within := by
  obtain ⟨declared, maps, options, maps', hcompile⟩ := h
  obtain ⟨_, _, -, -, -, rfl⟩ := compileWith_ok hcompile
  exact TemplateNode.exists_unfoldsAll declared options inner
    fun s tag ns hop => hcreated s tag ns (List.mem_append_right _ hop)

end Template

/-- Where tags do not hold each other without end, their elements can be unfolded. -/
theorem Page.NestsFinitely.furnishes {p : Page} {tags : String → Prop} (hdefined : p.DefinesWidgets tags)
    {tag : String} (h : p.NestsFinitely tag) : ∃ within, p.registry.Furnishes tag .html within := by
  induction h with
  | intro tag _ ih =>
    cases hd : p.registry.get? tag with
    | none => exact ⟨[], .plain fun _ => hd⟩
    | some d =>
      obtain ⟨t, initial, hkind, -, ht⟩ := hdefined tag d hd
      obtain ⟨root, inner, hsource⟩ := ht.exists_source
      have hcreated : ∀ s inner ns, .createElement s inner ns ∈ t.build →
          ∃ within, p.registry.Furnishes inner ns within := by
        intro s inner ns hop
        by_cases hplain : ns = .html → p.registry.get? inner = none
        · exact ⟨[], .plain hplain⟩
        · obtain ⟨rfl, hne⟩ := Classical.not_imp.mp hplain
          obtain ⟨d', hd'⟩ := Option.ne_none_iff_exists'.mp hne
          exact ih inner ⟨defines_of_get? hd', d, t, initial, hd, hkind, Template.mem_createdTags hop⟩
      obtain ⟨within, hinner⟩ := hsource.exists_unfoldsAll hcreated
      exact ⟨within, .widget hd hkind hsource hinner⟩

end LiveMarkup
