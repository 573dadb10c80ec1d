import LiveMarkup.Proofs.Links
import LiveMarkup.Proofs.NestedCreation
import Mathlib.Logic.Relation

namespace LiveMarkup

variable {n : NodeId} {base : Nat} {d d' : Document} {host : Host} {p q : Page} {t : Template} {root : Option NodeId}

namespace Document

/-- One step of a build that found `base` nodes: a node comes, a node that has come since then moves below
an earlier one, or nothing moves. -/
inductive Graft (base : Nat) : Document → Document → Prop where
  | push (d : Document) (kind : NodeKind) : Graft base d (d.push kind)
  | join {d : Document} {parent child : NodeId} (hnew : base ≤ child) (horder : parent < child)
      (hchild : child < d.size) : Graft base d (d.append parent child)
  | still {d d' : Document} (h : d'.links = d.links) : Graft base d d'

/-- Any number of such steps. -/
def Grafted (base : Nat) : Document → Document → Prop :=
  Relation.ReflTransGen (Graft base)

namespace Grafted

variable {base' : Nat} {d'' : Document} {parent : NodeId}

theorem refl (base : Nat) (d : Document) : Grafted base d d :=
  Relation.ReflTransGen.refl

theorem single (h : Graft base d d') : Grafted base d d' :=
  Relation.ReflTransGen.single h

theorem of_shape (h : d'.shape = d.shape) : Grafted base d d' :=
  single (.still (links_of_shape h))

theorem trans (h : Grafted base d d') (h' : Grafted base d' d'') : Grafted base d d'' :=
  Relation.ReflTransGen.trans h h'

theorem mono (hle : base ≤ base') (h : Grafted base' d d') : Grafted base d d' := by
  refine Relation.ReflTransGen.mono ?_ _ _ h
  intro d d' hstep
  cases hstep with
  | push kind => exact .push d kind
  | join hnew horder hchild => exact .join (Nat.le_trans hle hnew) horder hchild
  | still hlinks => exact .still hlinks

theorem size_le (h : Grafted base d d') : d.size ≤ d'.size := by
  induction h with
  | refl => exact Nat.le_refl _
  | tail _ hstep ih =>
    cases hstep with
    | push kind => exact Nat.le_trans ih (by rw [size_push]; exact Nat.le_succ _)
    | join => exact Nat.le_trans ih (Nat.le_of_eq (size_append _ _ _).symm)
    | still hlinks => exact Nat.le_trans ih (Nat.le_of_eq (size_of_links hlinks).symm)

theorem linked (h : Grafted base d d') (hd : d.Linked) : d'.Linked := by
  induction h with
  | refl => exact hd
  | tail _ hstep ih =>
    cases hstep with
    | push kind => exact ih.push kind
    | join _ horder hchild => exact ih.append (Nat.lt_trans horder hchild) hchild
    | still hlinks => exact ih.of_links hlinks

/-- The nodes that were there keep their parents. -/
theorem parent?_old (h : Grafted base d d') (hn : n < base) : d'.parent? n = d.parent? n := by
  induction h with
  | refl => rfl
  | tail _ hstep ih =>
    rw [← ih]
    cases hstep with
    | push kind => exact parent?_push _ kind n
    | join hnew _ hchild =>
      rw [parent?_append hchild, if_neg]
      exact Nat.ne_of_lt (Nat.lt_of_lt_of_le hn hnew)
    | still hlinks => exact parent?_of_links hlinks n

/-- The nodes that have come stand below earlier ones. -/
theorem parent_lt (h : Grafted base d d') (hsize : d.size ≤ base) (hn : base ≤ n)
    (hparent : d'.parent? n = some parent) : parent < n := by
  induction h with
  | refl =>
    rw [parent?_eq_none_of_le (Nat.le_trans hsize hn)] at hparent
    cases hparent
  | tail _ hstep ih =>
    cases hstep with
    | push kind =>
      rw [parent?_push] at hparent
      exact ih hparent
    | join _ horder hchild =>
      rw [parent?_append hchild] at hparent
      split at hparent
      next heq =>
        cases hparent
        exact heq ▸ horder
      next => exact ih hparent
    | still hlinks =>
      rw [parent?_of_links hlinks] at hparent
      exact ih hparent

end Grafted

end Document

theorem TemplateNode.le_of_mem_slotsFrom {slot c : Nat} {nodes : List TemplateNode}
    (h : c ∈ TemplateNode.slotsFrom slot nodes) : slot ≤ c := by
  induction nodes generalizing slot with
  | nil => cases h
  | cons node rest ih =>
    rcases List.mem_cons.mp h with rfl | h
    · exact Nat.le_refl _
    · exact Nat.le_trans (Nat.le_add_right _ _) (ih h)

/-- What the instructions of a compiled template do to links: a slot is appended to an earlier one, and
only the first is adopted. -/
theorem Template.Compiled.append_order (ht : t.Compiled) {parent child : Nat}
    (hop : .appendChild parent child ∈ t.build) : parent < child := by
  obtain ⟨declared, maps, options, node, maps', h⟩ := ht
  have hdisc := slotDiscipline_of_compileWith h
  have hparent : parent < node.preorder.length := by
    rw [← hdisc.slot_count]
    exact hdisc.within _ hop parent (by simp [Op.mentions])
  have hmem := (hdisc.appends parent _ (List.getElem?_eq_getElem hparent) child).mp hop
  cases hsub : node.preorder[parent] with
  | text spec =>
    rw [hsub] at hmem
    cases hmem
  | node head children =>
    rw [hsub] at hmem
    exact TemplateNode.le_of_mem_slotsFrom hmem

theorem Template.Compiled.adopts_first (ht : t.Compiled) {s : Slot} (hop : .adoptRoot s ∈ t.build) : s = 0 := by
  obtain ⟨declared, maps, options, node, maps', h⟩ := ht
  exact ((slotDiscipline_of_compileWith h).adopted s hop).1

theorem Template.Compiled.sequence (ht : t.Compiled) : Op.Sequence 0 t.build t.slotNames.length := by
  obtain ⟨declared, maps, options, node, maps', h⟩ := ht
  exact (sequence_of_compileWith h).1

/-- Creating an element on a page of widgets grafts it and what it is connected to onto the document. -/
structure Host.Grafts (host : Host) : Prop where
  create : ∀ tag ns p n q, host.create tag ns p = some (n, q) → p.WidgetsOnly →
    n = p.document.size ∧ n < q.document.size ∧ p.document.Grafted p.document.size q.document

namespace Instance

/-- The slots below `k` are bound, later slots to later nodes, and all but the first to nodes from `base`
on. -/
structure Ascending (i : Instance) (base k : Nat) (d : Document) : Prop where
  unbound : ∀ s, k ≤ s → i.node? s = none
  within : ∀ s n, i.node? s = some n → n < d.size
  later : ∀ s n, s ≠ 0 → i.node? s = some n → base ≤ n
  ascending : ∀ s s' n n', s < s' → i.node? s = some n → i.node? s' = some n' → n < n'

variable {i : Instance} {k : Nat} {op : Op} {step : Step}

theorem Ascending.grow (h : i.Ascending base k d) (hsize : d.size ≤ d'.size) : i.Ascending base k d' :=
  ⟨h.unbound, fun s n hn => Nat.lt_of_lt_of_le (h.within s n hn) hsize, h.later, h.ascending⟩

/-- The next slot takes a new node. -/
theorem Ascending.bind (h : i.Ascending base k d) (hbase : base ≤ d.size) (hsize : d.size < d'.size) :
    (i.bind k (some d.size)).Ascending base (k + 1) d' := by
  have hcases : ∀ s n, (i.bind k (some d.size)).node? s = some n →
      s = k ∧ n = d.size ∨ s < k ∧ i.node? s = some n := by
    intro s n hn
    refine (node?_bind_cases hn).imp (fun hnew => ⟨hnew.1, (Option.some.inj hnew.2).symm⟩) fun hold => ?_
    refine ⟨Nat.lt_of_not_le fun hle => ?_, hold.2⟩
    rw [h.unbound s hle] at hold
    cases hold.2
  refine ⟨fun s hs => ?_, fun s n hn => ?_, fun s n hs hn => ?_, fun s s' n n' hlt hn hn' => ?_⟩
  · rw [node?_bind_of_ne (Nat.ne_of_gt hs)]
    exact h.unbound s (Nat.le_of_lt hs)
  · rcases hcases s n hn with ⟨-, rfl⟩ | ⟨-, hn⟩
    · exact hsize
    · exact Nat.lt_trans (h.within s n hn) hsize
  · rcases hcases s n hn with ⟨-, rfl⟩ | ⟨-, hn⟩
    · exact hbase
    · exact h.later s n hs hn
  · rcases hcases s' n' hn' with ⟨rfl, rfl⟩ | ⟨hs', hn'⟩
    · rcases hcases s n hn with ⟨rfl, -⟩ | ⟨-, hn⟩
      · exact absurd hlt (Nat.lt_irrefl _)
      · exact h.within s n hn
    · rcases hcases s n hn with ⟨rfl, -⟩ | ⟨-, hn⟩
      · exact absurd (Nat.lt_trans hlt hs') (Nat.lt_irrefl _)
      · exact h.ascending s s' n n' hlt hn hn'

/-- The first slot takes a root that is there. -/
theorem Ascending.adopt (h : i.Ascending base 0 d) (hroot : ∀ r, root = some r → r < d.size) :
    (i.bind 0 root).Ascending base 1 d := by
  have hcases : ∀ s n, (i.bind 0 root).node? s = some n → s = 0 ∧ root = some n :=
    fun s n hn => node?_bind_of_unbound (h.unbound s (Nat.zero_le _)) hn
  refine ⟨fun s hs => ?_, fun s n hn => hroot n (hcases s n hn).2, fun s n hs hn => ?_,
    fun s s' n n' hlt hn hn' => ?_⟩
  · rw [node?_bind_of_ne (Nat.ne_of_gt hs)]
    exact h.unbound s (Nat.zero_le _)
  · exact absurd (hcases s n hn).1 hs
  · rw [(hcases s' n' hn').1] at hlt
    exact absurd hlt (Nat.not_lt_zero _)

/-- An instruction that binds the next slot grafts its node onto the document. -/
theorem execBuild_binds_grafted (hhost : host.Grafts) (hp : p.WidgetsOnly)
    (hadopt : ∀ s, op = .adoptRoot s → s = 0) (hroot : ∀ r, root = some r → r < base)
    (hbase : base ≤ p.document.size) (hi : i.Ascending base k p.document) (hop : op.bound? = some k)
    (hexec : i.execBuild host root op p = some (step, q)) :
    p.document.Grafted base q.document ∧ step.inst.Ascending base (k + 1) q.document := by
  cases execBuild_bound hop hexec with
  | @created tag ns n _ hn =>
    obtain ⟨rfl, hlt, hgrafted⟩ := hhost.create tag ns p n q hn hp
    exact ⟨hgrafted.mono hbase, hi.bind hbase hlt⟩
  | adopted =>
    obtain rfl := hadopt k rfl
    exact ⟨.refl base _, hi.adopt fun r hr => Nat.lt_of_lt_of_le (hroot r hr) hbase⟩
  | newText value text fault =>
    refine ⟨.single (.push _ _), hi.bind hbase ?_⟩
    rw [Document.size_push]
    exact Nat.lt_succ_self _

/-- An instruction that neither binds a slot nor runs templates moves at most a new node. -/
theorem execLocal_grafted (hp : p.WidgetsOnly) (happend : ∀ a c : Nat, op = .appendChild a c → a < c)
    (hi : i.Ascending base k p.document) (hop : op.bound? = none) :
    p.document.Grafted base (i.execLocal op p).2.document := by
  have hinPlace : op.InPlace → p.document.Grafted base (i.execLocal op p).2.document :=
    fun h => .of_shape ((i.execLocal_keeps hp op).shape h)
  obtain ⟨run, hrun, heq⟩ := i.execLocal_runs op p
  rw [heq] at hinPlace ⊢
  cases hrun with
  | nothing _ => exact .refl base _
  | skip _ f => exact .refl base _
  | attach name hn => exact .refl base _
  | listener event handler hn => exact .single (.still (Document.links_modifyElement p.document _ _))
  | newText s value text fault => cases hop
  | @child a c parent child ha hc =>
    have hlt := happend a c rfl
    have hwithin := hi.within c child hc
    have hnew := hi.later c child (Nat.ne_of_gt (Nat.lt_of_le_of_lt (Nat.zero_le _) hlt)) hc
    have horder := hi.ascending a c parent child hlt ha hc
    simp only [Page.append]
    split
    · exact .single (.join hnew horder hwithin)
    · exact .refl base _
  | _ => exact hinPlace trivial

theorem execBuild_uses_grafted (horderly : host.Orderly) (hp : p.WidgetsOnly)
    (happend : ∀ a c : Nat, op = .appendChild a c → a < c) (hi : i.Ascending base k p.document)
    (hop : op.bound? = none) (hexec : i.execBuild host root op p = some (step, q)) :
    p.document.Grafted base q.document := by
  cases execBuild_ran hop hexec with
  | alone hneeds hlocal =>
    have hgrafted := execLocal_grafted hp happend hi hop
    rw [hlocal] at hgrafted
    exact hgrafted
  | created hn => cases hop
  | unbuilt hn => exact .refl base _
  | flushed hn hflush => exact .of_shape ((horderly.flush _ p _ q hflush hp).shape trivial)

/-- What a build relies on still holds once a step has been reported. -/
theorem reported_grafted (horderly : host.Orderly) (hp : p.WidgetsOnly) (hbase : base ≤ p.document.size)
    (hexec : i.execBuild host root op p = some (step, q)) (hgrafted : p.document.Grafted base q.document)
    (hi : step.inst.Ascending base k q.document) :
    base ≤ (stepWarned .build op step q).document.size ∧ (stepWarned .build op step q).WidgetsOnly ∧
      step.inst.Ascending base k (stepWarned .build op step q).document := by
  have hq := (execBuild_widgetsOnly horderly hp hexec).1
  rw [document_stepWarned]
  exact ⟨Nat.le_trans hbase hgrafted.size_le, (stepWarned_keeps hq True .build op step).widgets, hi⟩

/-- A whole build grafts its nodes onto the document. -/
theorem runBuild_grafted (horderly : host.Orderly) (hhost : host.Grafts) {k' : Nat} {ops : List Op}
    (hseq : Op.Sequence k ops k') {i' : Instance} {r : Report}
    (happend : ∀ a c : Nat, .appendChild a c ∈ ops → a < c) (hadopt : ∀ s, .adoptRoot s ∈ ops → s = 0)
    (hroot : ∀ r, root = some r → r < base) (hbase : base ≤ p.document.size) (hp : p.WidgetsOnly)
    (hi : i.Ascending base k p.document) (h : i.runBuild host root ops p = some ((i', r), q)) :
    p.document.Grafted base q.document := by
  induction hseq generalizing i p r with
  | nil =>
    obtain ⟨-, rfl⟩ := Act.pure_eq_some.mp h
    exact .refl base _
  | @bind k k' op rest hop _ ih =>
    obtain ⟨step, p₁, others, hstep, h, -⟩ := runBuild_cons.mp h
    obtain ⟨hfirst, hi₁⟩ := execBuild_binds_grafted hhost hp
      (fun s heq => hadopt s (heq ▸ List.mem_cons_self)) hroot hbase hi hop hstep
    obtain ⟨hbase₁, hp₁, hi₁⟩ := reported_grafted horderly hp hbase hstep hfirst hi₁
    have hrest := ih (fun a c hmem => happend a c (List.mem_cons_of_mem _ hmem))
      (fun s hmem => hadopt s (List.mem_cons_of_mem _ hmem)) hbase₁ hp₁ hi₁ h
    rw [document_stepWarned] at hrest
    exact hfirst.trans hrest
  | @use k k' op rest hop _ _ ih =>
    obtain ⟨step, p₁, others, hstep, h, -⟩ := runBuild_cons.mp h
    have hfirst := execBuild_uses_grafted horderly hp
      (fun a c heq => happend a c (heq ▸ List.mem_cons_self)) hi hop hstep
    have hi₁ : step.inst.Ascending base k p₁.document := by
      rw [execBuild_inst_of_not_bound hop hstep]
      exact hi.grow hfirst.size_le
    obtain ⟨hbase₁, hp₁, hi₁⟩ := reported_grafted horderly hp hbase hstep hfirst hi₁
    have hrest := ih (fun a c hmem => happend a c (List.mem_cons_of_mem _ hmem))
      (fun s hmem => hadopt s (List.mem_cons_of_mem _ hmem)) hbase₁ hp₁ hi₁ h
    rw [document_stepWarned] at hrest
    exact hfirst.trans hrest

end Instance

theorem Template.ascending_unbuilt (t : Template) (c : ComponentId) (sink : Sink) (base : Nat) (d : Document) :
    (t.unbuilt c sink).Ascending base 0 d := by
  have hnone := t.node?_unbuilt c sink
  have hno : ∀ s n, (t.unbuilt c sink).node? s ≠ some n := fun s n => by simp [hnone s]
  exact ⟨fun s _ => hnone s, fun s n hn => absurd hn (hno s n), fun s n _ hn => absurd hn (hno s n),
    fun s _ n _ _ hn _ => absurd hn (hno s n)⟩

theorem Template.buildOn_grafted (horderly : host.Orderly) (hhost : host.Grafts) (ht : t.Compiled) {c : ComponentId}
    {sink : Sink} (hp : p.WidgetsOnly) {result : Except BuildError (Instance × Report)}
    (h : t.buildOn host c root sink p = some (result, q)) : p.document.Grafted p.document.size q.document := by
  cases hobstacle : t.obstacle? c root p with
  | some e =>
    rw [buildOn_of_obstacle hobstacle] at h
    cases h
    exact .refl _ _
  | none =>
    obtain ⟨i, r, hrun, -⟩ := (Template.buildOn_eq_some hobstacle).mp h
    exact Instance.runBuild_grafted horderly hhost ht.sequence (fun a c => ht.append_order)
      (fun s => ht.adopts_first) (root_within hobstacle) (Nat.le_refl _) hp
      (t.ascending_unbuilt c sink _ _) hrun

theorem Page.document_instantiate (p : Page) (d : Definition) : (p.instantiate d).2.document = p.document := by
  cases hkind : d.kind with
  | probe spec => simp only [instantiate, hkind]
  | widget t initial =>
    obtain ⟨c, routines, callbacks, hmake, -⟩ := make_frame p initial
    simp only [instantiate, hkind, hmake, addComponent]

theorem Widget.connect_grafted (horderly : host.Orderly) (hhost : host.Grafts) {w w' : Widget}
    (hw : w.template.Compiled) {result : Except Fault Report} (hp : p.WidgetsOnly)
    (h : w.connect host n p = some ((w', result), q)) : p.document.Grafted p.document.size q.document := by
  simp only [connect, Act.bind_eq_some] at h
  obtain ⟨built, p₁, hbuild, h⟩ := h
  have hgrafted := Template.buildOn_grafted horderly hhost hw hp hbuild
  cases built with
  | error e =>
    obtain ⟨-, rfl⟩ := Act.pure_eq_some.mp h
    exact hgrafted
  | ok built =>
    obtain ⟨-, rfl⟩ := Act.pure_eq_some.mp h
    exact hgrafted

theorem connectElement_grafted (horderly : host.Orderly) (hhost : host.Grafts) {tag : String} {d : Definition}
    (hd : d.IsWidget) {u : Unit} (hp : p.WidgetsOnly) (h : connectElement host tag n d p = some (u, q)) :
    p.document.Grafted p.document.size q.document := by
  obtain ⟨-, w, hw, hcompiled, hshown⟩ := p.instantiate_widgetsOnly hp hd
  obtain ⟨w', result, r, hconnect, -, told, rfl⟩ := connectElement_connect hw h
  have hbegun := p.widgetsOnly_beginConnecting hp hd n
  have hbuilt := Widget.connect_grafted horderly hhost hcompiled hbegun hconnect
  rw [Page.beginConnecting, p.document_instantiate d] at hbuilt
  obtain ⟨hr, hw'⟩ := Widget.connect_widgetsOnly horderly hcompiled hshown hbegun hconnect
  have htold : { r with warnings := told }.WidgetsOnly := hr.congr rfl rfl
  exact hbuilt.trans (.of_shape ((Page.finishConnecting_keeps htold n hw').shape trivial))

theorem createElementWith_grafted (horderly : host.Orderly) (hhost : host.Grafts) {tag : String} {ns : Namespace}
    (hp : p.WidgetsOnly) (h : createElementWith host tag ns p = some (n, q)) :
    n = p.document.size ∧ n < q.document.size ∧ p.document.Grafted p.document.size q.document := by
  have hpush : ∀ kind, p.document.Grafted p.document.size (p.document.push kind) := fun kind =>
    .single (.push _ kind)
  have hnext : ∀ kind, p.document.size < (p.document.push kind).size := fun kind => by
    rw [Document.size_push]
    exact Nat.lt_succ_self _
  obtain ⟨rfl, ⟨-, rfl⟩ | ⟨d, -, hd, hconnect⟩⟩ := createElementWith_eq_some.mp h
  · exact ⟨rfl, hnext _, hpush _⟩
  · have hpushed : { p with document := p.document.push (.element (.ofTag tag ns)) }.WidgetsOnly :=
      hp.congr rfl rfl
    have hgrafted := connectElement_grafted horderly hhost (hp.defined tag d hd) hpushed hconnect
    exact ⟨rfl, Nat.lt_of_lt_of_le (hnext _) hgrafted.size_le,
      (hpush _).trans (hgrafted.mono (Nat.le_of_lt (hnext _)))⟩

theorem hostTo_grafts (depth : Nat) : (hostTo depth).Grafts := by
  induction depth with
  | zero => exact ⟨fun _ _ _ _ _ h => by cases h⟩
  | succ depth ih => exact ⟨fun _ _ _ _ _ h hp => createElementWith_grafted (hostTo_orderly depth) ih hp h⟩

end LiveMarkup
