import LiveMarkup.Proofs.CacheSharing
import LiveMarkup.Proofs.FirstFlaw
import LiveMarkup.Proofs.Places
import Mathlib.Data.List.Induction

namespace LiveMarkup

variable {declared declared' : Declarations} {r r' : CacheRequest} {options : CompileOptions}
  {maps maps' : PropertyMaps} {t : Template} {head : NodeHead}

/-- Where an attribute stands: the tag and the namespace of its element, and its own name. -/
structure AttributeSite where
  tag : String
  ns : Namespace
  name : String

mutual

/-- The attributes of a template in pre-order. -/
def TemplateNode.sites (inherited : Namespace) : TemplateNode → List AttributeSite
  | .text _ => []
  | .node head children =>
    if head.tag = "" then []
    else head.attributes.map (fun a => ⟨head.tag, head.namespaceIn inherited, a.1⟩) ++
      TemplateNode.sitesAll (head.namespaceIn inherited) children

def TemplateNode.sitesAll (inherited : Namespace) : List TemplateNode → List AttributeSite
  | [] => []
  | child :: rest => child.sites inherited ++ TemplateNode.sitesAll inherited rest

end

/-- Two sets of definitions under which the attributes at some sites write to the same targets. -/
def AlikeAt (declared declared' : Declarations) (sites : List AttributeSite) : Prop :=
  ∀ a ∈ sites, attributeTarget declared a.tag a.ns a.name = attributeTarget declared' a.tag a.ns a.name

section Plans

theorem alikeAt_append {sites sites' : List AttributeSite} :
    AlikeAt declared declared' (sites ++ sites') ↔
      AlikeAt declared declared' sites ∧ AlikeAt declared declared' sites' :=
  List.forall_mem_append

theorem NodeHead.plan_congr {ns : Namespace} {slot : Slot} {created : Bool} {inherited : Namespace}
    (hns : ns = head.namespaceIn inherited)
    (h : AlikeAt declared declared' (head.attributes.map fun a => ⟨head.tag, ns, a.1⟩)) :
    head.plan declared options slot created inherited = head.plan declared' options slot created inherited := by
  subst hns
  have htargets : head.attributes.map (fun a =>
        (attributeTarget declared head.tag (head.namespaceIn inherited) a.1, a.2)) =
      head.attributes.map fun a =>
        (attributeTarget declared' head.tag (head.namespaceIn inherited) a.1, a.2) := by
    apply List.map_congr_left
    intro a ha
    rw [h _ (List.mem_map_of_mem ha)]
  unfold NodeHead.plan
  rw [htargets]

mutual

theorem TemplateNode.plan_congr {inherited : Namespace} {slot : Slot} :
    ∀ {node : TemplateNode}, AlikeAt declared declared' (node.sites inherited) →
      node.plan declared options inherited slot = node.plan declared' options inherited slot
  | .text _, _ => rfl
  | .node head children, h => by
    rw [TemplateNode.plan, TemplateNode.plan]
    by_cases htag : head.tag = ""
    · rw [if_pos htag, if_pos htag]
    · rw [TemplateNode.sites, if_neg htag, alikeAt_append] at h
      rw [if_neg htag, if_neg htag, NodeHead.plan_congr rfl h.1, TemplateNode.planAll_congr h.2]

theorem TemplateNode.planAll_congr {inherited : Namespace} {slot : Slot} :
    ∀ {nodes : List TemplateNode}, AlikeAt declared declared' (TemplateNode.sitesAll inherited nodes) →
      TemplateNode.planAll declared options inherited slot nodes =
        TemplateNode.planAll declared' options inherited slot nodes
  | [], _ => rfl
  | child :: rest, h => by
    rw [TemplateNode.sitesAll, alikeAt_append] at h
    rw [TemplateNode.planAll, TemplateNode.planAll, TemplateNode.plan_congr h.1,
      TemplateNode.planAll_congr h.2]

end

theorem NodeHead.length_build (declared declared' : Declarations) (head : NodeHead) (slot : Slot)
    (created : Bool) (inherited : Namespace) :
    (head.plan declared options slot created inherited).build.length =
      (head.plan declared' options slot created inherited).build.length := by
  simp [PlanHead.build, NodeHead.plan]

mutual

/-- How many instructions a template takes does not depend on the definitions. -/
theorem TemplateNode.length_build (declared declared' : Declarations) (inherited : Namespace) (slot : Slot) :
    ∀ node : TemplateNode, (node.plan declared options inherited slot).build.length =
      (node.plan declared' options inherited slot).build.length
  | .text _ => rfl
  | .node head children => by
    rw [TemplateNode.plan, TemplateNode.plan]
    by_cases htag : head.tag = ""
    · rw [if_pos htag, if_pos htag]
    · rw [if_neg htag, if_neg htag, Plan.build, Plan.build, List.length_append, List.length_append,
        NodeHead.length_build declared declared']
      exact congrArg _ (TemplateNode.length_buildChildren declared declared' _ _ _ children)

theorem TemplateNode.length_buildChildren (declared declared' : Declarations) (inherited : Namespace)
    (parent slot : Slot) : ∀ nodes : List TemplateNode,
    (Plan.buildChildren parent (TemplateNode.planAll declared options inherited slot nodes)).length =
      (Plan.buildChildren parent (TemplateNode.planAll declared' options inherited slot nodes)).length
  | [] => rfl
  | child :: rest => by
    simp only [TemplateNode.planAll, Plan.buildChildren, List.length_append, List.length_cons]
    rw [TemplateNode.length_build declared declared' inherited slot child,
      TemplateNode.length_buildChildren declared declared' inherited parent _ rest]

end

/-- The instructions of an element tell what its attributes write to. -/
theorem NodeHead.alikeAt_of_build {slot : Slot} {created : Bool} {inherited : Namespace}
    (h : (head.plan declared options slot created inherited).build =
      (head.plan declared' options slot created inherited).build) :
    AlikeAt declared declared' (head.attributes.map fun a => ⟨head.tag, head.namespaceIn inherited, a.1⟩) := by
  unfold PlanHead.build at h
  have hops := List.append_cancel_left (List.append_cancel_right (List.append_cancel_right h))
  simp only [NodeHead.plan, List.map_map] at hops
  intro site hsite
  obtain ⟨a, ha, rfl⟩ := List.mem_map.mp hsite
  exact (Target.op_inj (List.map_inj_left.mp hops a ha)).1

mutual

theorem TemplateNode.alikeAt_of_build {inherited : Namespace} {slot : Slot} :
    ∀ {node : TemplateNode}, (node.plan declared options inherited slot).build =
        (node.plan declared' options inherited slot).build →
      AlikeAt declared declared' (node.sites inherited)
  | .text _, _ => fun _ ha => absurd ha List.not_mem_nil
  | .node head children, h => by
    rw [TemplateNode.sites]
    rw [TemplateNode.plan, TemplateNode.plan] at h
    by_cases htag : head.tag = ""
    · rw [if_pos htag]
      exact fun _ ha => absurd ha List.not_mem_nil
    · rw [if_neg htag, if_neg htag, Plan.build, Plan.build] at h
      obtain ⟨hhead, hchildren⟩ := List.append_inj h (NodeHead.length_build declared declared' ..)
      rw [if_neg htag, alikeAt_append]
      exact ⟨NodeHead.alikeAt_of_build hhead, TemplateNode.alikeAt_of_buildChildren hchildren⟩

theorem TemplateNode.alikeAt_of_buildChildren {inherited : Namespace} {parent slot : Slot} :
    ∀ {nodes : List TemplateNode},
      Plan.buildChildren parent (TemplateNode.planAll declared options inherited slot nodes) =
        Plan.buildChildren parent (TemplateNode.planAll declared' options inherited slot nodes) →
      AlikeAt declared declared' (TemplateNode.sitesAll inherited nodes)
  | [], _ => fun _ ha => absurd ha List.not_mem_nil
  | child :: rest, h => by
    rw [TemplateNode.planAll, TemplateNode.planAll, Plan.buildChildren, Plan.buildChildren] at h
    obtain ⟨hchild, hrest⟩ :=
      List.append_inj h (TemplateNode.length_build declared declared' inherited slot child)
    rw [TemplateNode.sitesAll, alikeAt_append]
    exact ⟨TemplateNode.alikeAt_of_build hchild, TemplateNode.alikeAt_of_buildChildren (List.tail_eq_of_cons_eq hrest)⟩

end

/-- A template is the same under two sets of definitions exactly when its attributes write to the same
targets. -/
theorem Template.ofPlan_eq_iff {children : List TemplateNode} (htag : head.tag ≠ "") (slots : Nat) :
    Template.ofPlan options slots ((TemplateNode.node head children).rootPlan declared options) =
        Template.ofPlan options slots ((TemplateNode.node head children).rootPlan declared' options) ↔
      AlikeAt declared declared' ((TemplateNode.node head children).sites .html) := by
  rw [TemplateNode.sites, if_neg htag, alikeAt_append]
  constructor
  · intro h
    have hbuild := congrArg Template.build h
    obtain ⟨hhead, hchildren⟩ := List.append_inj hbuild (NodeHead.length_build declared declared' ..)
    exact ⟨NodeHead.alikeAt_of_build hhead, TemplateNode.alikeAt_of_buildChildren hchildren⟩
  · rintro ⟨hhead, hchildren⟩
    rw [TemplateNode.rootPlan, TemplateNode.rootPlan, NodeHead.plan_congr rfl hhead,
      TemplateNode.planAll_congr hchildren]

end Plans

/-- What a template compiles to later is what it compiled to before exactly when its attributes write to the
same targets. -/
theorem compileWith_later_iff {node : TemplateNode} (h : (compileWith declared maps options node).1 = .ok t) :
    (compileWith declared' maps' options node).1 = .ok t ↔ AlikeAt declared declared' (node.sites .html) := by
  obtain ⟨head, children, rfl, htag, -, rfl⟩ := compileWith_ok (Prod.ext h rfl)
  have hflawless := compileWith_eq_ok_iff.mp ⟨_, h⟩
  rw [compileWith_eq_ok hflawless, Except.ok.injEq, eq_comm, Template.ofPlan_eq_iff htag]

theorem CompileOptions.eq_of_key {options' : CompileOptions} (hkey : options.key = options'.key)
    (htest : options.nested.holds = options'.nested.holds) : options = options' := by
  obtain ⟨name, rootName, createRoot, ⟨address, holds⟩, methods⟩ := options
  obtain ⟨name', rootName', createRoot', ⟨address', holds'⟩, methods'⟩ := options'
  simp only [CompileOptions.key, OptionsKey.mk.injEq] at hkey
  obtain ⟨rfl, rfl, rfl, rfl, rfl⟩ := hkey
  cases htest
  rfl

namespace CacheRequest

/-- The tree that is asked for, if its source can be read. -/
def node? : CacheRequest → Option TemplateNode
  | .tree _ node _ => some node
  | .source text _ => (TemplateNode.parse text).toOption

/-- A number stands for one tree and an address for one test. -/
structure Agrees (r r' : CacheRequest) : Prop where
  node : r.origin = r'.origin → r.node? = r'.node?
  test : r.options.nested.address = r'.options.nested.address → r.options.nested.holds = r'.options.nested.holds

/-- The attributes of what is asked for write to the same targets under two sets of definitions. -/
def ResolvesAlike (r : CacheRequest) (declared declared' : Declarations) : Prop :=
  ∀ node, r.node? = some node → AlikeAt declared declared' (node.sites .html)

theorem compile_eq_ok_iff : (r.compile declared maps).1 = .ok t ↔
    ∃ node, r.node? = some node ∧ (compileWith declared maps r.options node).1 = .ok t := by
  cases r with
  | tree id node options =>
    simp only [compile, node?, CacheRequest.options, Option.some.injEq, exists_eq_left']
    cases (compileWith declared maps options node).1 <;> simp [Except.mapError]
  | source text options =>
    simp only [compile, compileSource, node?, CacheRequest.options]
    cases TemplateNode.parse text with
    | error e => simp [Except.toOption]
    | ok node =>
      simp only [Except.toOption, Option.some.injEq, exists_eq_left']
      cases (compileWith declared maps options node).1 <;> simp [Except.mapError]

theorem compile_later_iff (h : (r.compile declared maps).1 = .ok t) :
    (r.compile declared' maps').1 = .ok t ↔ r.ResolvesAlike declared declared' := by
  obtain ⟨node, hnode, hcompiled⟩ := compile_eq_ok_iff.mp h
  have hlater : (r.compile declared' maps').1 = .ok t ↔ (compileWith declared' maps' r.options node).1 = .ok t := by
    rw [compile_eq_ok_iff]
    simp [hnode]
  rw [hlater, compileWith_later_iff hcompiled]
  simp [ResolvesAlike, hnode]

/-- Requests with one key are for one template. -/
theorem Agrees.compile_eq (h : r.Agrees r') (hkey : r'.key = r.key) :
    r'.compile declared maps = r.compile declared maps := by
  have horigin : r'.origin = r.origin := congrArg CacheKey.origin hkey
  have hoptions : r'.options = r.options := by
    have hkeys : r'.options.key = r.options.key := congrArg CacheKey.options hkey
    exact CompileOptions.eq_of_key hkeys (h.test (congrArg OptionsKey.nested hkeys).symm).symm
  have hnode := h.node horigin.symm
  cases r with
  | tree id node options =>
    cases r' with
    | tree id' node' options' =>
      cases hoptions
      cases hnode
      rfl
    | source text' options' => cases horigin
  | source text options =>
    cases r' with
    | tree id' node' options' => cases horigin
    | source text' options' =>
      cases hoptions
      cases horigin
      rfl

end CacheRequest

namespace CacheSession

theorem run_append (s : CacheSession) (moves : List CacheMove) (m : CacheMove) :
    s.run (moves ++ [m]) = (s.run moves).move m := by
  rw [run, List.foldl_append]
  rfl

/-- The moment at which the entry for a request was made. No request with its key was served before. -/
structure MadeAt (s : CacheSession) (earlier : List CacheMove) (key : CacheKey) (t : Template)
    (r : CacheRequest) : Prop where
  key_eq : r.key = key
  absent : (s.run earlier).cache.find? key = none
  compiled : (s.run earlier).direct r = .ok t

/-- Every entry of a cache that was empty was made by a request that found none. -/
theorem entry_made (page : Page) (moves : List CacheMove) {e : CacheKey × Template}
    (he : e ∈ ((start page).run moves).cache.entries) :
    ∃ earlier r later, moves = earlier ++ .request r :: later ∧ (start page).MadeAt earlier e.1 e.2 r := by
  induction moves using List.reverseRecOn with
  | nil => exact absurd he List.not_mem_nil
  | append_singleton moves m ih =>
    have hold : e ∈ ((start page).run moves).cache.entries →
        ∃ earlier r later, moves ++ [m] = earlier ++ .request r :: later ∧
          (start page).MadeAt earlier e.1 e.2 r := by
      intro hmem
      obtain ⟨earlier, r, later, rfl, hmade⟩ := ih hmem
      exact ⟨earlier, r, later ++ [m], by simp, hmade⟩
    rw [run_append] at he
    rcases move_cases ((start page).run moves) m with ⟨page', hmove⟩ | ⟨r, rfl⟩
    · rw [hmove] at he
      exact hold he
    · rw [show move _ (.request r) = request _ r from rfl] at he
      rcases request_cases ((start page).run moves) r with ⟨hit, -, -, hcache⟩ | ⟨-, e', -, -, hcache⟩ |
        ⟨hfind, t, hdirect, -, hcache⟩
      · rw [hcache] at he
        exact hold he
      · rw [hcache] at he
        exact hold he
      · rw [hcache, List.mem_append] at he
        rcases he with he | he
        · exact hold he
        · cases List.mem_singleton.mp he
          exact ⟨moves, r, [], rfl, rfl, hfind, hdirect⟩

/-- A key without an entry is one that no request was served under. -/
theorem Recorded.key_ne {s : CacheSession} (h : s.Recorded) {key : CacheKey} (habsent : s.cache.find? key = none)
    {a : CachedTemplate} (ha : (r, .ok a) ∈ s.answered) : r.key ≠ key := by
  intro heq
  have hmem : (r.key, a.template) ∈ s.cache.entries := List.mem_of_getElem? (h.held ha)
  exact TemplateCache.findFrom_eq_none habsent (heq ▸ List.mem_map_of_mem hmem)

/-- What the answer to a request goes back to: the moment when a request with its key was first served, which
is the present one if none was. -/
structure GoesBackTo (page : Page) (r : CacheRequest) (earlier later : List CacheMove) : Prop where
  unserved : ∀ r' a, (r', .ok a) ∈ ((start page).run earlier).answered → r'.key ≠ r.key
  served : later = [] ∨ ∃ r' a rest, later = .request r' :: rest ∧ r'.key = r.key ∧
    ((start page).run earlier).answer r' = .ok a
  answer_eq : (((start page).run (earlier ++ later)).answer r).map (·.template) =
    ((start page).run earlier).direct r
  current_iff : (((start page).run (earlier ++ later)).answer r).map (·.template) =
      ((start page).run (earlier ++ later)).direct r ↔
    r.ResolvesAlike ((start page).run earlier).page.registry.declared
      ((start page).run (earlier ++ later)).page.registry.declared

variable {page : Page}

/-- A request that finds no entry is answered as of now. -/
theorem goesBackTo_now {moves : List CacheMove} (habsent : ((start page).run moves).cache.find? r.key = none)
    (hanswer : (((start page).run moves).answer r).map (·.template) = ((start page).run moves).direct r) :
    GoesBackTo page r moves [] := by
  refine ⟨fun r' a ha => ((recorded_start page).run moves).key_ne habsent ha, Or.inl rfl, ?_, ?_⟩
  · rwa [List.append_nil]
  · rw [List.append_nil]
    exact ⟨fun _ _ _ _ _ => rfl, fun _ => hanswer⟩

/-- A request that finds an entry is answered as of the moment when the entry was made. -/
theorem goesBackTo_made {earlier later : List CacheMove} {hit : CachedTemplate} (hagrees : r.Agrees r')
    (hmade : (start page).MadeAt earlier r.key hit.template r')
    (hanswer : ((start page).run (earlier ++ .request r' :: later)).answer r = .ok hit) :
    GoesBackTo page r earlier (.request r' :: later) := by
  have hdirect : ((start page).run earlier).direct r = .ok hit.template := by
    rw [← hmade.compiled]
    exact congrArg Prod.fst (hagrees.compile_eq hmade.key_eq).symm
  refine ⟨fun _ a ha => ((recorded_start page).run earlier).key_ne hmade.absent ha, ?_, ?_, ?_⟩
  · right
    have habsent := hmade.key_eq ▸ hmade.absent
    rcases request_cases ((start page).run earlier) r' with ⟨hit', hfind, -, -⟩ | ⟨-, e, herror, -, -⟩ |
      ⟨-, t, -, hserved, -⟩
    · rw [habsent] at hfind
      cases hfind
    · rw [hmade.compiled] at herror
      cases herror
    · exact ⟨r', _, later, rfl, hmade.key_eq, hserved⟩
  · rw [hanswer, hdirect]
    rfl
  · rw [hanswer]
    exact eq_comm.trans (CacheRequest.compile_later_iff hdirect)

end CacheSession

open CacheSession in
/-- In every session a request is answered with what compiling gave at the moment its key was first served.
This is what compiling gives now exactly when no attribute of the template has come to write to another
target since. -/
theorem cached_answer_is_first_compiled (page : Page) (moves : List CacheMove) (r : CacheRequest)
    (hr : ∀ r', .request r' ∈ moves → r.Agrees r') :
    ∃ earlier later, moves = earlier ++ later ∧ GoesBackTo page r earlier later := by
  rcases request_cases ((start page).run moves) r with ⟨hit, hfind, hanswer, -⟩ |
    ⟨habsent, e, hdirect, hanswer, -⟩ | ⟨habsent, t, hdirect, hanswer, -⟩
  · have hentry := List.mem_of_getElem? (TemplateCache.find?_eq_some hfind)
    obtain ⟨earlier, r', later, rfl, hmade⟩ := entry_made page moves hentry
    exact ⟨earlier, _, rfl, goesBackTo_made (hr r' (by simp)) hmade hanswer⟩
  · refine ⟨moves, [], (List.append_nil _).symm, goesBackTo_now habsent ?_⟩
    rw [hanswer, hdirect]
    rfl
  · refine ⟨moves, [], (List.append_nil _).symm, goesBackTo_now habsent ?_⟩
    rw [hanswer, hdirect]
    rfl

def sampleLate : CacheRequest :=
  .tree 0 (.node { NodeHead.ofTag "x-late" with attributes := [("level", .constant (.text "1"))] } []) {}

def sampleLateElement : Definition :=
  ⟨["level"], .probe ⟨["level"], [], false, none, .display⟩⟩

/-- A tag is defined after a template with it was compiled. -/
def sampleLateMoves : List CacheMove :=
  [.request sampleLate, .defineElement "x-late" sampleLateElement]

theorem cached_answer_is_first_compiled_sampleLate :
    ∃ earlier later, sampleLateMoves = earlier ++ later ∧
      CacheSession.GoesBackTo .empty sampleLate earlier later := by
  apply cached_answer_is_first_compiled .empty sampleLateMoves sampleLate
  intro r' hr'
  have hsame : r' = sampleLate := by simpa [sampleLateMoves] using hr'
  rw [hsame]
  exact ⟨fun _ => rfl, fun _ => rfl⟩

/-- The instructions of a template by name. -/
def Template.opNames (t : Template) : List String :=
  t.build.map Op.name

/-- The cached template still sets an attribute where compiling now would set the declared property. -/
theorem late_definition_misses_cached_template :
    (((CacheSession.start .empty).run sampleLateMoves).answer sampleLate).map (·.template) ≠
      ((CacheSession.start .empty).run sampleLateMoves).direct sampleLate := by
  intro h
  have hops : (((CacheSession.start .empty).run sampleLateMoves).answer sampleLate).toOption.map
        (·.template.opNames) =
      (((CacheSession.start .empty).run sampleLateMoves).direct sampleLate).toOption.map (·.opNames) := by
    rw [← h]
    cases ((CacheSession.start .empty).run sampleLateMoves).answer sampleLate <;> rfl
  revert hops
  decide +kernel

end LiveMarkup
