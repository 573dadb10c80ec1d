import LiveMarkup.Template.Compile

namespace LiveMarkup

variable {options : CompileOptions} {before : List Visit}

/-- A node that may have a tag, as a compilation comes to it, with the path that errors name it by. -/
structure Visit where
  path : String
  head : NodeHead
  children : List TemplateNode

mutual

/-- The nodes of a template in pre-order. The path of a child is that of its parent and its position. -/
def TemplateNode.visits (path : String) : TemplateNode → List Visit
  | .text _ => []
  | .node head children => ⟨path, head, children⟩ :: TemplateNode.visitsFrom path 0 children

def TemplateNode.visitsFrom (path : String) (index : Nat) : List TemplateNode → List Visit
  | [] => []
  | child :: rest => child.visits s!"{path}/{index}" ++ TemplateNode.visitsFrom path (index + 1) rest

end

namespace Visit

/-- A declared namespace has to be a known one. -/
def namespaceFlaw? (v : Visit) : Option CompileError :=
  v.head.ns.bind fun raw =>
    if (Namespace.ofText? raw).isSome then none else some (.unknownNamespace v.head.tag raw)

/-- An attach point must not be one of a node before. -/
def attachFlaw? (before : List Visit) (v : Visit) : Option CompileError :=
  (v.head.attachPoints.find? fun name => before.any fun u => u.head.attachPoints.contains name).map
    .duplicateAttachPoint

/-- A handler has to name a known method. -/
def handlerFlaw? (options : CompileOptions) (v : Visit) : Option CompileError :=
  v.head.events.findSome? fun e =>
    (e.2.unknownMethod? options.methods).map (.unknownHandler v.head.tag e.1)

/-- What is wrong with an element: its namespace, then its attach points, then its handlers. -/
def elementFlaw? (options : CompileOptions) (before : List Visit) (v : Visit) : Option CompileError :=
  v.namespaceFlaw?.or ((v.attachFlaw? before).or (v.handlerFlaw? options))

/-- What is wrong with a node without a tag below the root. -/
def textFlaw? (v : Visit) : Option CompileError :=
  if v.head.expression.isNone then some (.missingTagOrExpression v.path)
  else if hasElementParts v.head v.children then some (.textWithElementParts v.path)
  else none

/-- What is wrong with a root without a tag. -/
def rootTextFlaw (v : Visit) : CompileError :=
  if v.head.expression.isSome then .textRoot else .missingTagOrExpression v.path

/-- The first thing wrong with a node after the nodes before it. The root has none before it. -/
def flaw? (options : CompileOptions) (before : List Visit) (v : Visit) : Option CompileError :=
  if v.head.tag = "" then if before.isEmpty then some v.rootTextFlaw else v.textFlaw?
  else v.elementFlaw? options before

end Visit

/-- The first thing wrong with nodes that follow others. -/
def flawIn? (options : CompileOptions) (before : List Visit) : List Visit → Option CompileError
  | [] => none
  | v :: rest => (v.flaw? options before).or (flawIn? options (before ++ [v]) rest)

section FlawIn

theorem flawIn?_append (vs ws : List Visit) :
    flawIn? options before (vs ++ ws) =
      (flawIn? options before vs).or (flawIn? options (before ++ vs) ws) := by
  induction vs generalizing before with
  | nil => rw [List.nil_append, List.append_nil, flawIn?, Option.none_or]
  | cons v vs ih =>
    rw [List.cons_append, flawIn?, flawIn?, ih, Option.or_assoc, List.append_assoc]
    rfl

/-- Nodes are flawless when each of them is, after those before it. -/
theorem flawIn?_eq_none_iff {vs : List Visit} :
    flawIn? options before vs = none ↔
      ∀ front v rest, vs = front ++ v :: rest → v.flaw? options (before ++ front) = none := by
  constructor
  · rintro h front v rest rfl
    rw [flawIn?_append, Option.or_eq_none_iff, flawIn?, Option.or_eq_none_iff] at h
    exact h.2.1
  · intro h
    induction vs generalizing before with
    | nil => rfl
    | cons v vs ih =>
      have hfirst : v.flaw? options before = none := by
        have := h [] v vs rfl
        rwa [List.append_nil] at this
      have hrest : flawIn? options (before ++ [v]) vs = none := by
        apply ih
        rintro front u rest rfl
        have := h (v :: front) u rest rfl
        rwa [List.append_assoc]
      rw [flawIn?, hfirst, hrest, Option.none_or]

/-- The flaw of some nodes is that of the first flawed one. -/
theorem flawIn?_eq_some_iff {vs : List Visit} {e : CompileError} :
    flawIn? options before vs = some e ↔
      ∃ front v rest, vs = front ++ v :: rest ∧ flawIn? options before front = none ∧
        v.flaw? options (before ++ front) = some e := by
  constructor
  · intro h
    induction vs generalizing before with
    | nil => cases h
    | cons v vs ih =>
      rw [flawIn?, Option.or_eq_some_iff] at h
      rcases h with h | ⟨hnone, h⟩
      · exact ⟨[], v, vs, rfl, rfl, by rwa [List.append_nil]⟩
      · obtain ⟨front, u, rest, rfl, hfront, hu⟩ := ih h
        refine ⟨v :: front, u, rest, rfl, ?_, ?_⟩
        · rw [flawIn?, hnone, hfront, Option.none_or]
        · rwa [List.append_assoc] at hu
  · rintro ⟨front, v, rest, rfl, hfront, hv⟩
    rw [flawIn?_append, hfront, Option.none_or, flawIn?, hv, Option.some_or]

end FlawIn

/-- What a template has to keep to. -/
structure TemplateNode.WellFormed (options : CompileOptions) (node : TemplateNode) : Prop where
  root : ∃ head children, node = .node head children ∧ head.tag ≠ ""
  namespaces : ∀ v ∈ node.visits options.rootName, v.head.tag ≠ "" → ∀ raw, v.head.ns = some raw →
    ∃ ns, Namespace.ofText? raw = some ns
  attachPoints : (node.visits options.rootName).Pairwise fun v w =>
    ∀ name ∈ v.head.attachPoints, name ∉ w.head.attachPoints
  methods : ∀ known, options.methods = some known → ∀ v ∈ node.visits options.rootName,
    ∀ event name, (event, Handler.method name) ∈ v.head.events → known.contains name = true
  texts : ∀ v ∈ node.visits options.rootName, v.head.tag = "" →
    (∃ spec, v.head.expression = some spec) ∧ v.head.ns = none ∧ v.head.attachPoints = [] ∧
      v.head.attributes = [] ∧ v.head.events = [] ∧ v.children = []

/-- The node an error is about is the first flawed one in pre-order, and the error is the first one found
at it. -/
def TemplateNode.FirstFlaw (options : CompileOptions) (node : TemplateNode) (e : CompileError) : Prop :=
  ∃ before v after, node.visits options.rootName = before ++ v :: after ∧
    (∀ front u rest, before = front ++ u :: rest → u.flaw? options front = none) ∧
    v.flaw? options before = some e

theorem TemplateNode.firstFlaw_iff {node : TemplateNode} {e : CompileError} :
    node.FirstFlaw options e ↔ flawIn? options [] (node.visits options.rootName) = some e := by
  rw [flawIn?_eq_some_iff]
  simp only [flawIn?_eq_none_iff, List.nil_append]
  rfl

theorem pairwise_of_splits {α : Type u} {R : α → α → Prop} {l : List α}
    (h : ∀ front a rest, l = front ++ a :: rest → ∀ b ∈ front, R b a) : l.Pairwise R := by
  induction l with
  | nil => exact List.Pairwise.nil
  | cons x l ih =>
    refine List.pairwise_cons.mpr ⟨?_, ih ?_⟩
    · intro a ha
      obtain ⟨front, rest, rfl⟩ := List.append_of_mem ha
      exact h (x :: front) a rest rfl x List.mem_cons_self
    · rintro front a rest rfl b hb
      exact h (x :: front) a rest rfl b (List.mem_cons_of_mem x hb)

section WellFormed

variable {v : Visit}

theorem Visit.namespaceFlaw?_eq_none_iff :
    v.namespaceFlaw? = none ↔ ∀ raw, v.head.ns = some raw → ∃ ns, Namespace.ofText? raw = some ns := by
  unfold Visit.namespaceFlaw?
  cases v.head.ns with
  | none => simp
  | some raw => simp [Option.isSome_iff_exists]

theorem Visit.attachFlaw?_eq_none_iff :
    v.attachFlaw? before = none ↔ ∀ u ∈ before, ∀ name ∈ u.head.attachPoints, name ∉ v.head.attachPoints := by
  unfold Visit.attachFlaw?
  rw [Option.map_eq_none_iff, List.find?_eq_none]
  constructor
  · intro h u hu name hname hv
    apply h name hv
    exact List.any_eq_true.mpr ⟨u, hu, List.contains_iff_mem.mpr hname⟩
  · intro h name hv hany
    obtain ⟨u, hu, hname⟩ := List.any_eq_true.mp hany
    exact h u hu name (List.contains_iff_mem.mp hname) hv

theorem Handler.unknownMethod?_eq_none_iff {methods : Option Names} {handler : Handler} :
    handler.unknownMethod? methods = none ↔
      ∀ known, methods = some known → ∀ name, handler = .method name → known.contains name = true := by
  cases handler with
  | method name => cases methods <;> simp [Handler.unknownMethod?]
  | assign label target value => simp [Handler.unknownMethod?]
  | script label actions => simp [Handler.unknownMethod?]

theorem Visit.handlerFlaw?_eq_none_iff :
    v.handlerFlaw? options = none ↔ ∀ known, options.methods = some known → ∀ event name,
      (event, Handler.method name) ∈ v.head.events → known.contains name = true := by
  unfold Visit.handlerFlaw?
  rw [List.findSome?_eq_none_iff]
  simp only [Option.map_eq_none_iff, Handler.unknownMethod?_eq_none_iff]
  constructor
  · intro h known hknown event name hmem
    exact h _ hmem known hknown name rfl
  · rintro h ⟨event, handler⟩ hmem known hknown name rfl
    exact h known hknown event name hmem

theorem Visit.textFlaw?_eq_none_iff :
    v.textFlaw? = none ↔ (∃ spec, v.head.expression = some spec) ∧ v.head.ns = none ∧
      v.head.attachPoints = [] ∧ v.head.attributes = [] ∧ v.head.events = [] ∧ v.children = [] := by
  unfold Visit.textFlaw? hasElementParts
  cases v.head.expression with
  | none => simp
  | some spec => simp [and_assoc]

theorem Visit.elementFlaw?_eq_none_iff :
    v.elementFlaw? options before = none ↔
      v.namespaceFlaw? = none ∧ v.attachFlaw? before = none ∧ v.handlerFlaw? options = none := by
  rw [Visit.elementFlaw?, Option.or_eq_none_iff, Option.or_eq_none_iff]

/-- A node without a tag is a text, and the first node must not be one. -/
theorem Visit.flaw?_eq_none_iff_of_text (htag : v.head.tag = "") :
    v.flaw? options before = none ↔ before ≠ [] ∧ v.textFlaw? = none := by
  rw [Visit.flaw?, if_pos htag]
  cases before <;> simp

theorem Visit.flaw?_of_element (htag : v.head.tag ≠ "") : v.flaw? options before = v.elementFlaw? options before := by
  rw [Visit.flaw?, if_neg htag]

variable {head : NodeHead} {children : List TemplateNode}

theorem TemplateNode.WellFormed.flaw?_eq_none (h : (TemplateNode.node head children).WellFormed options)
    {rest : List Visit} (hsplit : (TemplateNode.node head children).visits options.rootName = before ++ v :: rest) :
    v.flaw? options before = none := by
  have hmem : v ∈ (TemplateNode.node head children).visits options.rootName := by simp [hsplit]
  by_cases htag : v.head.tag = ""
  · refine (Visit.flaw?_eq_none_iff_of_text htag).mpr ⟨?_, Visit.textFlaw?_eq_none_iff.mpr (h.texts v hmem htag)⟩
    -- the first node is the root, which has a tag
    rintro rfl
    obtain ⟨_, _, heq, hroot⟩ := h.root
    cases heq
    simp only [TemplateNode.visits, List.nil_append, List.cons.injEq] at hsplit
    rw [← hsplit.1] at htag
    exact hroot htag
  · have hpairs := h.attachPoints
    rw [hsplit, List.pairwise_append] at hpairs
    rw [Visit.flaw?_of_element htag, Visit.elementFlaw?_eq_none_iff]
    refine ⟨Visit.namespaceFlaw?_eq_none_iff.mpr (h.namespaces v hmem htag), ?_, ?_⟩
    · exact Visit.attachFlaw?_eq_none_iff.mpr fun u hu => hpairs.2.2 u hu v List.mem_cons_self
    · exact Visit.handlerFlaw?_eq_none_iff.mpr fun known hknown => h.methods known hknown v hmem

theorem TemplateNode.wellFormed_of_flaw?_eq_none
    (h : ∀ front v rest, (TemplateNode.node head children).visits options.rootName = front ++ v :: rest →
      v.flaw? options front = none) : (TemplateNode.node head children).WellFormed options := by
  have hsplits : ∀ v ∈ (TemplateNode.node head children).visits options.rootName,
      ∃ front, v.flaw? options front = none := by
    intro v hv
    obtain ⟨front, rest, hsplit⟩ := List.append_of_mem hv
    exact ⟨front, h front v rest hsplit⟩
  have htexts : ∀ v ∈ (TemplateNode.node head children).visits options.rootName, v.head.tag = "" →
      v.textFlaw? = none := by
    intro v hv htag
    obtain ⟨front, hflaw⟩ := hsplits v hv
    exact ((Visit.flaw?_eq_none_iff_of_text htag).mp hflaw).2
  refine ⟨⟨head, children, rfl, fun htag => ?_⟩, ?_, ?_, ?_,
    fun v hv htag => Visit.textFlaw?_eq_none_iff.mp (htexts v hv htag)⟩
  · have hfirst := h [] ⟨options.rootName, head, children⟩ _ rfl
    exact ((Visit.flaw?_eq_none_iff_of_text htag).mp hfirst).1 rfl
  · intro v hv htag
    obtain ⟨front, hflaw⟩ := hsplits v hv
    rw [Visit.flaw?_of_element htag, Visit.elementFlaw?_eq_none_iff] at hflaw
    exact Visit.namespaceFlaw?_eq_none_iff.mp hflaw.1
  · apply pairwise_of_splits
    intro front v rest hsplit u hu name hname
    by_cases htag : v.head.tag = ""
    · rw [(Visit.textFlaw?_eq_none_iff.mp (htexts v (by simp [hsplit]) htag)).2.2.1]
      exact List.not_mem_nil
    · have hflaw := h front v rest hsplit
      rw [Visit.flaw?_of_element htag, Visit.elementFlaw?_eq_none_iff] at hflaw
      exact Visit.attachFlaw?_eq_none_iff.mp hflaw.2.1 u hu name hname
  · intro known hknown v hv event name hmem
    by_cases htag : v.head.tag = ""
    · rw [(Visit.textFlaw?_eq_none_iff.mp (htexts v hv htag)).2.2.2.2.1] at hmem
      cases hmem
    · obtain ⟨front, hflaw⟩ := hsplits v hv
      rw [Visit.flaw?_of_element htag, Visit.elementFlaw?_eq_none_iff] at hflaw
      exact Visit.handlerFlaw?_eq_none_iff.mp hflaw.2.2 known hknown event name hmem

/-- A template is well-formed exactly when a walk through it finds no flaw. -/
theorem TemplateNode.wellFormed_iff :
    (TemplateNode.node head children).WellFormed options ↔
      flawIn? options [] ((TemplateNode.node head children).visits options.rootName) = none := by
  rw [flawIn?_eq_none_iff]
  simp only [List.nil_append]
  exact ⟨fun h front v rest hsplit => h.flaw?_eq_none hsplit, wellFormed_of_flaw?_eq_none⟩

end WellFormed

end LiveMarkup
