import LiveMarkup.Proofs.CoveringHosts
import LiveMarkup.Proofs.HostedPage

namespace LiveMarkup

/-- What the owner of a page may ask of it: to create an element, to build an instance, to bring an instance or
an element up to date, and to write a property. -/
inductive Request : {α : Type} → (Host → Act α) → Prop
  | create (tag : String) (ns : Namespace) : Request fun host => host.create tag ns
  | build {t : Template} (ht : t.Compiled) (c : ComponentId) (root : Option NodeId) (sink : Sink) :
      Request fun host => t.buildOn host c root sink
  | refresh {i : Instance} (hi : i.template.Compiled) (changed : Names) : Request fun host => i.refresh host changed
  | deliver {i : Instance} (hi : i.template.Compiled) : Request fun host => i.deliver host
  | flush (n : NodeId) : Request fun host => host.flush n
  | write (n : NodeId) (path : PropertyPath) (v : Value) : Request fun _ => modify (·.setProperty n path v)

/-- A page whose owner has made requests. At first there were no elements. Meanwhile tags were defined as
components, events were handled, and all else changed that is neither an element nor a definition, with no
widget left in use. -/
inductive Page.Reached : Page → Prop
  | start {p : Page} (helements : p.elements = []) (hdefined : p.DefinesWidgets fun _ => False) : Reached p
  | define {p q : Page} (hp : Reached p) {tag : String} {t : Template} {initial : Blueprint} {fresh : Bool}
      (ht : t.Compiled) (h : p.defineWidget tag t initial = .ok (fresh, q)) : Reached q
  | request {p q : Page} (hp : Reached p) {α : Type} {act : Host → Act α} {answer : α} (hact : Request act)
      (h : withHost act p = some (answer, q)) : Reached q
  | dispatch {p q : Page} (hp : Reached p) {n : NodeId} {kind : String} {detail : Value} {result : Dispatch}
      (h : dispatch n kind detail p = some (result, q)) : Reached q
  | change {p q : Page} (hp : Reached p) (hregistry : q.registry = p.registry) (helements : q.elements = p.elements)
      (hsize : p.document.size ≤ q.document.size) (hcount : p.components.size ≤ q.components.size)
      (hfree : ∀ n w, p.widget? n = some w → q.access w.component = .free) : Reached q

/-- On a page with no busy element a compiled template has nothing to mind. -/
theorem Instance.prepared_calm {i : Instance} {p : Page} (hi : i.template.Compiled) (hcalm : ∀ n, ¬p.IsBusy n)
    (changed : Names) :
    i.Prepared False (fun _ => False) (i.template.refresh.filter fun s => s.triggeredBy changed) p where
  inPlace step hstep := hi.tends.inPlace step (List.mem_of_mem_filter hstep)
  order := hi.tends.refresh_order.filter _
  flushed hstrict := hstrict.elim
  young _ _ _ _ _ _ m hm := absurd hm (hcalm m)

namespace Request

variable {α : Type} {act : Host → Act α} {host other : Host} {p q : Page} {answer : α}

theorem sound (hact : Request act) (hcreate : host.Creates False) (hflush : host.Flushes False)
    (hp : p.Sound False []) (h : act host p = some (answer, q)) : q.Sound False [] ∧ q.registry = p.registry := by
  have hgrown : ∀ {root}, p.Grown False root q → q.Sound False [] ∧ q.registry = p.registry :=
    fun hq => ⟨hp.grown hq, hq.registry⟩
  have hsteady : p.Steady q → q.Sound False [] ∧ q.registry = p.registry :=
    fun hq => ⟨hp.steady hq, hq.registry⟩
  cases hact with
  | create tag ns => exact hgrown (hcreate.create tag ns p answer q h hp.wellNested).toGrown
  | @build t ht c root sink =>
    cases hobstacle : t.obstacle? c root p with
    | some e =>
      cases (Template.buildOn_of_obstacle hobstacle).symm.trans h
      exact ⟨hp, rfl⟩
    | none =>
      obtain ⟨i, report, -, hi, -⟩ := Template.buildOn_underway hcreate hflush hp.wellNested
        (p.tended_false ▸ ht.tends) hobstacle h
      exact hgrown hi.grown
  | refresh hi changed =>
    exact hsteady (Instance.runSteps_drains hflush hp.wellNested (Instance.prepared_calm hi hp.calm changed) h).1
  | deliver hi =>
    exact hsteady (Instance.deliverRounds_prepared hflush hp.wellNested (Instance.prepared_calm hi hp.calm) h)
  | flush n => exact hsteady (hflush.flush n p answer q h hp.wellNested fun m hm => absurd hm (hp.calm m)).steady
  | write n path v =>
    obtain rfl := Act.modify_eq_some.mp h
    exact hsteady (Page.setProperty_touched hp.wellNested n path v).steady

/-- What one host does at a request, one that covers it does too. -/
theorem covered (hact : Request act) (hcover : host.CoveredBy False other) (hcreate : host.Creates False)
    (hflush : host.Flushes False) (hp : p.Sound False []) (h : act host p = some (answer, q)) :
    act other p = some (answer, q) := by
  cases hact with
  | create tag ns => exact hcover.create tag ns p _ hp.wellNested h
  | build ht c root sink =>
    exact Template.buildOn_covered hcover hcreate hflush hp.wellNested (p.tended_false ▸ ht.tends) h
  | refresh hi changed =>
    exact Instance.runSteps_covered hcover hflush hp.wellNested (Instance.prepared_calm hi hp.calm changed) h
  | deliver hi =>
    exact Instance.deliverRounds_covered hcover hflush hp.wellNested (Instance.prepared_calm hi hp.calm) h
  | flush n => exact hcover.flush n p _ hp.wellNested (fun m hm => absurd hm (hp.calm m)) h
  | write n path v => exact h

end Request

namespace Page

variable {p q : Page}

theorem DefinesWidgets.define {tag : String} {t : Template} {initial : Blueprint} {fresh : Bool}
    (h : p.DefinesWidgets fun _ => False) (ht : t.Compiled) (hq : p.defineWidget tag t initial = .ok (fresh, q)) :
    q.DefinesWidgets fun _ => False := by
  obtain ⟨hadopts, ⟨message, rfl⟩ | rfl⟩ := defineWidget_ok hq
  · exact h
  · intro tag' d hd
    rw [Dict.get?_insert] at hd
    by_cases htag : tag' = tag
    · rw [if_pos htag] at hd
      cases hd
      obtain ⟨declared, maps, options, node, maps', hcompile⟩ := ht
      exact ⟨t, initial, rfl, hadopts, declared, maps, options, node, maps', hcompile, fun _ h => h.elim⟩
    · rw [if_neg htag] at hd
      exact h tag' d hd

theorem DefinesWidgets.of_registry {tags : String → Prop} (h : p.DefinesWidgets tags)
    (hregistry : q.registry = p.registry) : q.DefinesWidgets tags := by
  unfold DefinesWidgets
  rw [hregistry]
  exact h

/-- Between requests no element is busy. -/
theorem Reached.sound (h : p.Reached) : p.Sound False [] ∧ p.DefinesWidgets fun _ => False := by
  induction h with
  | @start p helements hdefined =>
    refine ⟨⟨wellNested_of_blank helements (p.tended_false ▸ hdefined), ?_, fun i hi => absurd hi List.not_mem_nil⟩,
      hdefined⟩
    rintro n ⟨e, he, -⟩
    rw [custom?, helements] at he
    cases he
  | define _ ht h ih => exact ⟨(ih.1.defineWidget ht h).1, ih.2.define ht h⟩
  | request _ hact h ih =>
    obtain ⟨hsound, hregistry⟩ :=
      hact.sound (hostTo_creates _) (hostTo_flushes _) ih.1 (withHost_eq_some.mp h)
    exact ⟨hsound, ih.2.of_registry hregistry⟩
  | dispatch _ h ih =>
    have hsteady := (dispatch_undisturbed h).steady
    exact ⟨ih.1.steady hsteady, ih.2.of_registry hsteady.registry⟩
  | change _ hregistry helements hsize hcount hfree ih =>
    have hdefined := ih.1.wellNested.defined
    rw [tended_false, ← hregistry] at hdefined
    exact ⟨ih.1.surround (Nat.le_of_eq (by rw [nesting, nesting, hregistry])) hdefined helements hsize hcount hfree,
      ih.2.of_registry hregistry⟩

end Page

end LiveMarkup
