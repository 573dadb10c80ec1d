import LiveMarkup.Proofs.Grafts

namespace LiveMarkup

namespace Page

/-- One call on a page whose tags are defined as components: an element or a text is created, a node is
appended where `moves` allows it, a property, an attribute, a text or a listener is set, a tag is defined, a
template is built, refreshed, delivered or flushed, or something changes that is neither a node, an element
nor a definition. -/
inductive HostCall (moves : Document → NodeId → NodeId → Prop) : Page → Page → Prop where
  | create {p q : Page} {tag : String} {ns : Namespace} {n : NodeId}
      (h : createElement tag ns p = some (n, q)) : HostCall moves p q
  | createText (p : Page) (s : String) : HostCall moves p (p.createText s).2
  | append {p : Page} {parent child : NodeId} (h : moves p.document parent child) :
      HostCall moves p (p.append parent child)
  | setAttribute (p : Page) (n : NodeId) (name text : String) : HostCall moves p (p.setAttribute n name text)
  | removeAttribute (p : Page) (n : NodeId) (name : String) : HostCall moves p (p.removeAttribute n name)
  | setText (p : Page) (n : NodeId) (s : String) : HostCall moves p (p.setText n s)
  | listen (p : Page) (n : NodeId) (event : String) (l : Listener) : HostCall moves p (p.addListener n event l)
  | call {p q : Page} (h : p.Call q) : HostCall moves p q
  | define {p q : Page} {tag : String} {t : Template} {initial : Blueprint} {fresh : Bool} (ht : t.Compiled)
      (h : p.defineWidget tag t initial = .ok (fresh, q)) : HostCall moves p q
  | build {p q : Page} {t : Template} {c : ComponentId} {root : Option NodeId} {sink : Sink}
      {result : Except BuildError (Instance × Report)} (ht : t.Compiled)
      (h : t.instantiate c root sink p = some (result, q)) : HostCall moves p q
  | change {p q : Page} (hdocument : q.document = p.document) (helements : q.elements = p.elements)
      (hregistry : q.registry = p.registry) : HostCall moves p q

variable {moves : Document → NodeId → NodeId → Prop} {p q : Page}

/-- What a call does to links: it grafts new nodes onto the document, or moves one node. -/
inductive Edited (moves : Document → NodeId → NodeId → Prop) (d d' : Document) : Prop where
  | grafted (h : d.Grafted d.size d')
  | moved {parent child : NodeId} (h : moves d parent child) (hparent : parent < d.size)
      (hchild : child < d.size) (heq : d' = d.append parent child)

theorem HostCall.edits (h : p.HostCall moves q) (hp : p.WidgetsOnly) :
    q.WidgetsOnly ∧ Edited moves p.document q.document := by
  have hhost := hostTo_orderly p.nesting
  have hgrafts := hostTo_grafts p.nesting
  have hshape : ∀ {d : Document}, d.shape = p.document.shape → Edited moves p.document d :=
    fun h => .grafted (.of_shape h)
  cases h with
  | create h =>
    have hcreate := withHost_eq_some.mp h
    exact ⟨hhost.create _ _ p _ q hcreate hp, .grafted (hgrafts.create _ _ p _ q hcreate hp).2.2⟩
  | createText s => exact ⟨hp.congr rfl rfl, .grafted (.single (.push _ _))⟩
  | append h =>
    simp only [Page.append]
    split
    next hknown =>
      rw [Bool.and_eq_true] at hknown
      exact ⟨hp.congr rfl rfl, .moved h (of_decide_eq_true hknown.1) (of_decide_eq_true hknown.2) rfl⟩
    next => exact ⟨hp.warn _, hshape rfl⟩
  | setAttribute n name text => exact ⟨hp.congr rfl rfl, hshape (Document.shape_setAttribute _ n name text)⟩
  | removeAttribute n name => exact ⟨hp.congr rfl rfl, hshape (Document.shape_removeAttribute _ n name)⟩
  | setText n s => exact ⟨hp.congr rfl rfl, hshape (Document.shape_setText _ n s)⟩
  | listen n event l =>
    exact ⟨hp.congr rfl rfl, .grafted (.single (.still (Document.links_modifyElement _ n _)))⟩
  | call h => exact ⟨(h.keeps hp).1, hshape (h.keeps hp).2⟩
  | define ht h =>
    refine ⟨hp.defineWidget ht h, ?_⟩
    obtain ⟨-, ⟨message, rfl⟩ | rfl⟩ := defineWidget_ok h
    · exact hshape rfl
    · exact hshape rfl
  | build ht h =>
    have hbuild := withHost_eq_some.mp h
    exact ⟨(Template.buildOn_widgetsOnly hhost hp hbuild).1,
      .grafted (Template.buildOn_grafted hhost hgrafts ht hp hbuild)⟩
  | change hdocument helements hregistry =>
    exact ⟨hp.congr hregistry helements, hshape (by rw [hdocument])⟩

/-- Whatever an edit of links keeps, and holds of the empty document, holds after all calls. -/
theorem HostCall.induction {P : Document → Prop} (hempty : P .empty)
    (hstep : ∀ d d', P d → Edited moves d d' → P d') (h : Relation.ReflTransGen (HostCall moves) .empty q) :
    P q.document := by
  suffices hall : q.WidgetsOnly ∧ P q.document from hall.2
  induction h with
  | refl => exact ⟨widgetsOnly_empty, hempty⟩
  | tail _ hcall ih =>
    obtain ⟨hwidgets, hedited⟩ := hcall.edits ih.1
    exact ⟨hwidgets, hstep _ _ ih.2 hedited⟩

theorem Edited.linked {d d' : Document} (h : Edited moves d d') (hd : d.Linked) : d'.Linked := by
  cases h with
  | grafted h => exact h.linked hd
  | moved _ hparent hchild heq => exact heq ▸ hd.append hparent hchild

theorem HostCall.linked (h : Relation.ReflTransGen (HostCall moves) .empty q) : q.document.Linked :=
  HostCall.induction Document.linked_empty (fun _ _ hd hedited => hedited.linked hd) h

/-- However nodes are created and moved, parents and children agree, no child is listed twice, and all nodes
that are named are there. -/
theorem host_calls_keep_links
    (h : Relation.ReflTransGen (HostCall fun _ _ _ => True) .empty q) :
    (∀ parent child, child ∈ q.document.children parent ↔ q.document.parent? child = some parent) ∧
      (∀ parent, (q.document.children parent).Nodup) ∧
      ∀ n m, q.document.parent? n = some m ∨ m ∈ q.document.children n → m < q.document.size := by
  have hlinked := HostCall.linked h
  refine ⟨hlinked.agree, hlinked.distinct, ?_⟩
  rintro n m (hparent | hchild)
  · exact hlinked.parent_lt hparent
  · exact hlinked.child_lt hchild

end Page

/-- Moves the text below the item away and back, appends the item's own text to itself and to a node that is
not there, and tells the parents. -/
def sampleShuffle : Act (List (Option NodeId)) := do
  let _ ← createElement "x-item" .html
  modify fun p => (p.createText "b").2
  modify (·.append 0 2)
  modify (·.append 0 2)
  modify (·.append 1 1)
  modify (·.append 9 0)
  return (List.range 3).map (← get).document.parent?

theorem sampleShuffle_parents :
    (sampleShuffle sampleShelfPage).map (·.1) = some [none, some 1, some 0] := by
  decide +kernel

theorem sampleShelfPage_reached (moves : Document → NodeId → NodeId → Prop) :
    Relation.ReflTransGen (Page.HostCall moves) .empty sampleShelfPage := by
  have hdefined : ∃ fresh p, Page.empty.defineWidget "x-item" sampleItemTemplate
      ⟨"item", [("label", .fixed .null)], []⟩ = .ok (fresh, p) ∧ sampleShelfPage.document = p.document ∧
      sampleShelfPage.elements = p.elements ∧ sampleShelfPage.registry = p.registry :=
    ⟨_, _, rfl, rfl, rfl, rfl⟩
  obtain ⟨fresh, p, hdefine, hdocument, helements, hregistry⟩ := hdefined
  exact .tail (.single (.define sampleItemTemplate_compiled hdefine)) (.change hdocument helements hregistry)

theorem host_calls_keep_links_sampleShuffle :
    ∃ q, Relation.ReflTransGen (Page.HostCall fun _ _ _ => True) .empty q ∧
      (List.range 3).map q.document.parent? = [none, some 1, some 0] ∧
      (∀ parent child, child ∈ q.document.children parent ↔ q.document.parent? child = some parent) ∧
      (∀ parent, (q.document.children parent).Nodup) ∧
      ∀ n m, q.document.parent? n = some m ∨ m ∈ q.document.children n → m < q.document.size := by
  obtain ⟨⟨parents, _⟩, hrun, hparents⟩ := Option.map_eq_some_iff.mp sampleShuffle_parents
  simp only [sampleShuffle, Act.bind_eq_some, Act.modify_eq_some, Act.get_eq_some, Act.pure_eq_some] at hrun
  obtain ⟨_, p, hcreate, _, _, rfl, _, _, rfl, _, _, rfl, _, _, rfl, _, q, rfl, _, _, ⟨rfl, rfl⟩, rfl, rfl⟩ := hrun
  have hcalls : Relation.ReflTransGen (Page.HostCall fun _ _ _ => True) .empty
      (((((p.createText "b").2.append 0 2).append 0 2).append 1 1).append 9 0) :=
    .tail (.tail (.tail (.tail (.tail (.tail (sampleShelfPage_reached _) (.create hcreate)) (.createText p "b"))
      (.append trivial)) (.append trivial)) (.append trivial)) (.append trivial)
  exact ⟨_, hcalls, hparents, Page.host_calls_keep_links hcalls⟩

end LiveMarkup
