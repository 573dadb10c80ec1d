import LiveMarkup.Proofs.BuildRun

namespace LiveMarkup

variable {s : Nat}

/-- The text of a value; one that could not be computed has none. -/
def shownText : Except Fault Value → String
  | .ok v => v.display
  | .error _ => ""

/-- The dictionary with one value put under several names. -/
def Dict.insertAll {α : Type} (d : Dict α) (v : α) (names : List String) : Dict α :=
  names.foldl (fun d name => d.insert name v) d

/-- The names under which the node of a plan is exposed. -/
def Plan.attachPoints : Plan → List String
  | .element head _ => head.attachPoints
  | .text .. => []

/-- The element with handlers of a component listening to it. -/
def Element.listen (owner : ComponentId) (e : Element) (events : List (String × Handler)) : Element :=
  { e with listeners := e.listeners ++ events.map fun ev => (ev.1, .component owner ev.2) }

namespace Site

variable {site : Site} {k : Nat} {points : Dict NodeId} {nodes : List Node}

theorem takes_create (hk : k < site.template.slotNames.length) (tag : String) (ns : Namespace) :
    site.Takes [.createElement k tag ns] k points nodes [] (k + 1) points
      (nodes ++ [⟨.element (.ofTag tag ns), none, []⟩]) := by
  intro i p h
  have hcreate := site.serves.create tag ns p (h.state.plain site.plain)
  have hexec : i.execBuild site.host none (.createElement k tag ns) p = some _ :=
    Instance.exec_createElement.mpr ⟨_, hcreate, rfl⟩
  exact h.bind hk hexec

theorem takes_attach (hs : s < k) (name : String) :
    site.Takes [.attach s name] k points nodes [] k (points.insert name (site.off + s)) nodes := by
  intro i p h
  have hfree : p.access i.component = .free := by rw [h.owner, h.state.access, site.free]
  have hexec : i.execBuild site.host none (.attach s name) p = some (⟨i, none, none⟩,
      p.modifyComponent i.component (·.attach name (site.off + s))) := by
    change some (i.execLocal _ p) = _
    simp only [Instance.execLocal, h.bound s hs, Instance.attach, hfree, if_pos]
  refine h.use hexec (.attach p ..) ?_ rfl h.laid rfl
  rw [h.owner]
  exact Page.attach_of_exposing h.state.count h.component name _

theorem takes_flush (hs : s < k) : site.Takes [.flushNested s] k points nodes [] k points nodes := by
  intro i p h
  have hflush := site.serves.flush (site.off + s) p (h.state.plain site.plain)
  have hexec : i.execBuild site.host none (.flushNested s) p = some _ :=
    Instance.exec_flushNested.mpr (Or.inr ⟨_, _, h.bound s hs, hflush, rfl⟩)
  exact h.edit hexec rfl h.laid rfl

variable {before after : List Node} {e : Element} {parent : Option NodeId} {children : List NodeId}

theorem takes_attribute (hs : s < k) (hbefore : before.length = site.off + s) (target : Target) (spec : ValueSpec) :
    site.Takes [target.op s spec.value] k points (before ++ ⟨.element e, parent, children⟩ :: after)
      (site.failed (target.op s spec.value) (site.valueWith points spec)) k points
      (before ++ ⟨.element (e.show site.owner target (site.valueWith points spec)), parent, children⟩ :: after) := by
  intro i p h
  have hbuild : i.execBuild site.host none (target.op s spec.value) p =
      some (i.execLocal (target.op s spec.value) p) := by cases target <;> rfl
  cases hv : site.valueWith points spec with
  | error f =>
    rw [Instance.execLocal_target_error target (h.bound s hs) ((h.eval spec).trans hv)] at hbuild
    exact h.edit hbuild rfl h.laid rfl
  | ok v =>
    obtain ⟨edit, hexec⟩ := Instance.execLocal_target_ok target ((h.state.plain site.plain).isCustom _)
      (h.bound s hs) ((h.eval spec).trans hv)
    rw [hexec] at hbuild
    refine h.edit hbuild rfl ?_ (by simp)
    rw [h.owner, ← hbefore, Document.toList_modifyElement _ h.laid]
    rfl

theorem takes_connect (hs : s < k) (hbefore : before.length = site.off + s) (event : String) (handler : Handler) :
    site.Takes [.connect s event handler] k points (before ++ ⟨.element e, parent, children⟩ :: after) [] k points
      (before ++ ⟨.element (e.listen site.owner [(event, handler)]), parent, children⟩ :: after) := by
  intro i p h
  have hexec : i.execBuild site.host none (.connect s event handler) p =
      some (⟨i, none, some (.listen (site.off + s) event)⟩,
        p.addListener (site.off + s) event (.component i.component handler)) := by
    change some (i.execLocal _ p) = _
    simp only [Instance.execLocal, h.bound s hs]
  refine h.edit hexec rfl ?_ (by simp)
  rw [h.owner, ← hbefore, Page.addListener, Document.addListener, Document.toList_modifyElement _ h.laid]
  rfl

theorem takes_text (hk : k < site.template.slotNames.length) (spec : ValueSpec) :
    site.Takes [.createText k spec.value] k points nodes
      (site.failed (.createText k spec.value) (site.valueWith points spec)) (k + 1) points
      (nodes ++ [⟨.text (shownText (site.valueWith points spec)), none, []⟩]) := by
  intro i p h
  have hexec : i.execBuild site.host none (.createText k spec.value) p =
      some (i.createText k (site.valueWith points spec) p) := by
    change some (i.execLocal _ p) = _
    simp only [Instance.execLocal, h.eval spec]
  cases hv : site.valueWith points spec with
  | error f =>
    rw [hv] at hexec
    exact h.bind hk hexec
  | ok v =>
    rw [hv] at hexec
    exact h.bind hk hexec

/-- A child that has no parent yet joins its parent. -/
theorem takes_append {child : Nat} {a b : NodeKind} {below : List NodeId} {between : List Node} (hs : s < k)
    (hbefore : before.length = site.off + s) (hchild : site.off + child = before.length + 1 + between.length) :
    site.Takes [.appendChild s child] k points
      (before ++ ⟨a, parent, children⟩ :: (between ++ ⟨b, none, below⟩ :: after)) [] k points
      (before ++ ⟨a, parent, children ++ [site.off + child]⟩ ::
        (between ++ ⟨b, some (site.off + s), below⟩ :: after)) := by
  intro i p h
  have hlength := h.size
  simp only [List.length_append, List.length_cons] at hlength
  have hk : child < k := by omega
  have hhas : (p.document.has (site.off + s) && p.document.has (site.off + child)) = true := by
    have := h.documentSize
    simp only [Document.has, Document.size] at this ⊢
    simp [this, hs, hk]
  have hexec : i.execBuild site.host none (.appendChild s child) p =
      some (⟨i, none, some (.append (site.off + s) (site.off + child))⟩,
        p.append (site.off + s) (site.off + child)) := by
    change some (i.execLocal _ p) = _
    simp only [Instance.execLocal, h.bound s hs, h.bound child hk]
  rw [Page.append, if_pos hhas] at hexec
  refine h.edit hexec rfl ?_ (by simp)
  rw [← hbefore]
  exact Document.toList_append h.laid hchild

theorem takes_attachments (hs : s < k) (names : List String) :
    site.Takes (names.map (Op.attach s)) k points nodes [] k (points.insertAll (site.off + s) names) nodes := by
  induction names generalizing points with
  | nil => exact takes_nil k points nodes
  | cons name rest ih => exact (takes_attach hs name).append ih

variable (site) in
def showAttribute (points : Dict NodeId) (e : Element) (a : Target × ValueSpec) : Element :=
  e.show site.owner a.1 (site.valueWith points a.2)

theorem takes_attributes (hs : s < k) (hbefore : before.length = site.off + s)
    (attributes : List (Target × ValueSpec)) :
    site.Takes (attributes.map fun a => a.1.op s a.2.value) k points
      (before ++ ⟨.element e, parent, children⟩ :: after)
      (attributes.flatMap fun a => site.failed (a.1.op s a.2.value) (site.valueWith points a.2)) k points
      (before ++ ⟨.element (attributes.foldl (site.showAttribute points) e), parent, children⟩ :: after) := by
  induction attributes generalizing e with
  | nil => exact takes_nil k points _
  | cons a rest ih => exact (takes_attribute hs hbefore a.1 a.2).append ih

theorem takes_connections (hs : s < k) (hbefore : before.length = site.off + s) (events : List (String × Handler)) :
    site.Takes (events.map fun ev => .connect s ev.1 ev.2) k points
      (before ++ ⟨.element e, parent, children⟩ :: after) [] k points
      (before ++ ⟨.element (e.listen site.owner events), parent, children⟩ :: after) := by
  induction events generalizing e with
  | nil => simpa [Element.listen] using takes_nil k _ _
  | cons ev rest ih =>
    have hrest := (takes_connect hs hbefore ev.1 ev.2).append (ih (e := e.listen site.owner [ev]))
    simpa [Element.listen] using hrest

/-- The element a plan is built into: its attributes are shown in order, and its handlers listen. -/
def element (site : Site) (head : PlanHead) : Element :=
  (head.attributes.foldl (site.showAttribute (site.points (head.slot + 1))) (.ofTag head.tag head.ns)).listen
    site.owner head.events

/-- The node a plan is built into. -/
def kind (site : Site) : Plan → NodeKind
  | .element head _ => .element (site.element head)
  | .text slot spec => .text (shownText (site.value slot spec))

def attributeFailures (site : Site) (head : PlanHead) : List Diagnostic :=
  head.attributes.flatMap fun a => site.failed (a.1.op head.slot a.2.value) (site.value head.slot a.2)

mutual

/-- What building a plan finds at fault, in the order of the instructions. -/
def failures (site : Site) : Plan → List Diagnostic
  | .element head children => site.attributeFailures head ++ failuresAll site children
  | .text slot spec => site.failed (.createText slot spec.value) (site.value slot spec)

def failuresAll (site : Site) : List Plan → List Diagnostic
  | [] => []
  | child :: rest => failures site child ++ failuresAll site rest

end

/-- The component comes to expose the nodes of a plan one after the other. -/
def Follows (site : Site) (plan : Plan) : Prop :=
  site.points (plan.slot + 1) = (site.points plan.slot).insertAll (site.off + plan.slot) plan.attachPoints

theorem takes_head {head : PlanHead} {below : List Plan} (hslot : head.slot = k) (hcreated : head.created = true)
    (hfollows : site.Follows (.element head below)) (hk : k < site.template.slotNames.length)
    (hsize : nodes.length = site.off + k) :
    site.Takes head.build k (site.points k) nodes (site.attributeFailures head) (k + 1) (site.points (k + 1))
      (nodes ++ [⟨.element (site.element head), none, []⟩]) := by
  subst hslot
  have hs : head.slot < head.slot + 1 := Nat.lt_succ_self _
  have hpoints : site.points (head.slot + 1) =
      (site.points head.slot).insertAll (site.off + head.slot) head.attachPoints := hfollows
  have hflush : ∀ points laid, site.Takes (if head.nested then [.flushNested head.slot] else []) (head.slot + 1)
      points laid [] (head.slot + 1) points laid := by
    intro points laid
    split
    · exact takes_flush hs
    · exact takes_nil _ _ _
  have hcreate : site.Takes [.createElement head.slot head.tag head.ns] _ (site.points head.slot) nodes _ _ _ _ :=
    takes_create hk head.tag head.ns
  have hrun := (((hcreate.append (takes_attachments hs head.attachPoints)).append
    (takes_attributes hs hsize head.attributes)).append (hflush _ _)).append
    (takes_connections hs hsize head.events)
  rw [← hpoints] at hrun
  simpa [PlanHead.build, hcreated, attributeFailures, element, value] using hrun

mutual

theorem takes_plan : ∀ {k : Nat} {nodes : List Node} {plan : Plan}, plan.NumberedFrom k →
    (∀ head children, .element head children ∈ plan.preorder → head.created = true) →
    (∀ sub ∈ plan.preorder, site.Follows sub) →
    k + plan.size ≤ site.template.slotNames.length → nodes.length = site.off + k →
    site.Takes plan.build k (site.points k) nodes (site.failures plan) (k + plan.size) (site.points (k + plan.size))
      (nodes ++ plan.nodes site.kind site.off none)
  | k, nodes, .text slot spec, hnum, _, hfollows, hroom, _ => by
    obtain rfl : slot = k := hnum
    have hpoints : site.points (slot + 1) = site.points slot := hfollows _ List.mem_cons_self
    have htext : site.Takes [.createText slot spec.value] slot (site.points slot) nodes _ _ _ _ := takes_text hroom spec
    rw [← hpoints] at htext ⊢
    exact htext
  | k, nodes, .element head children, hnum, hcreated, hfollows, hroom, hsize => by
    obtain ⟨hslot, hchildren⟩ := hnum
    rw [Plan.size] at hroom
    have hhead := takes_head hslot (hcreated head children List.mem_cons_self)
      (hfollows _ List.mem_cons_self) (by omega) hsize
    have hrest : site.Takes (Plan.buildChildren k children) (k + 1) (site.points (k + 1))
        (nodes ++ ⟨.element (site.element head), none, []⟩ :: []) (site.failuresAll children) _ _ _ :=
      takes_children hchildren (fun h cs hmem => hcreated h cs (List.mem_cons_of_mem _ hmem))
        (fun sub hmem => hfollows sub (List.mem_cons_of_mem _ hmem)) (by omega) hsize
        (Nat.lt_succ_self k) (by simp [hsize, Nat.add_assoc])
    have hboth := hhead.append hrest
    subst hslot
    simpa [Plan.build, Plan.size, Plan.nodes, failures, kind, Nat.add_assoc, Nat.add_comm] using hboth

theorem takes_children : ∀ {k s : Nat} {plans : List Plan} {before between : List Node} {a : NodeKind}
    {parent : Option NodeId} {children : List NodeId}, Plan.AllNumberedFrom k plans →
    (∀ head children, .element head children ∈ Plan.preorderAll plans → head.created = true) →
    (∀ sub ∈ Plan.preorderAll plans, site.Follows sub) →
    k + Plan.sizeAll plans ≤ site.template.slotNames.length → before.length = site.off + s → s < k →
    (before ++ ⟨a, parent, children⟩ :: between).length = site.off + k →
    site.Takes (Plan.buildChildren s plans) k (site.points k) (before ++ ⟨a, parent, children⟩ :: between)
      (site.failuresAll plans) (k + Plan.sizeAll plans) (site.points (k + Plan.sizeAll plans))
      (before ++ ⟨a, parent, children ++ plans.map fun child => site.off + child.slot⟩ ::
        (between ++ Plan.nodesAll site.kind site.off (site.off + s) plans))
  | k, s, [], before, between, a, parent, children, _, _, _, _, _, _, _ => by
    simpa [Plan.buildChildren, Plan.sizeAll, Plan.nodesAll, failuresAll] using takes_nil k _ _
  | k, s, child :: rest, before, between, a, parent, children, hnum, hcreated, hfollows, hroom, hbefore, hs, hsize => by
    obtain ⟨hchild, hrest⟩ := hnum
    obtain ⟨below, hbelow⟩ := Plan.nodes_eq_cons site.kind site.off child
    rw [Plan.sizeAll] at hroom
    have hlength : before.length + (between.length + 1) = site.off + k := by simpa using hsize
    -- the child is built as a tree of its own and then becomes the last child; its siblings follow
    have hbuild := takes_plan hchild (fun h cs hmem => hcreated h cs (List.mem_append_left _ hmem))
      (fun sub hmem => hfollows sub (List.mem_append_left _ hmem)) (by omega) hsize
    rw [hbelow none, List.append_assoc, List.cons_append] at hbuild
    have hjoin : site.Takes [.appendChild s child.slot] (k + child.size) (site.points (k + child.size))
        (before ++ ⟨a, parent, children⟩ ::
          (between ++ ⟨site.kind child, none, child.childIds site.off⟩ :: below)) [] _ _ _ :=
      takes_append (by omega) hbefore (by rw [hchild.slot_eq]; omega)
    have hothers : site.Takes (Plan.buildChildren s rest) (k + child.size) (site.points (k + child.size))
        (before ++ ⟨a, parent, children ++ [site.off + child.slot]⟩ ::
          (between ++ child.nodes site.kind site.off (some (site.off + s)))) (site.failuresAll rest) _ _ _ :=
      takes_children hrest (fun h cs hmem => hcreated h cs (List.mem_append_right _ hmem))
        (fun sub hmem => hfollows sub (List.mem_append_right _ hmem)) (by omega) hbefore (by omega)
        (by simp [Plan.length_nodes]; omega)
    rw [hbelow] at hothers
    have hall := hbuild.append (hjoin.append hothers)
    simpa [Plan.buildChildren, Plan.sizeAll, Plan.nodesAll, failuresAll, hbelow, Nat.add_assoc] using hall

end

end Site

end LiveMarkup
