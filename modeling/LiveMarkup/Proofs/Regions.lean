import LiveMarkup.Proofs.NestedFlush

namespace LiveMarkup

variable {R : Region} {p : Page} {n : NodeId} {host : Host} {c : ComponentId} {f : Page → Page}

/-- A part of a page: some nodes with the elements on them, some components, and one component more that is
only read. -/
structure Region where
  nodes : NodeId → Prop
  components : ComponentId → Prop
  shown : ComponentId

namespace Region

def Reads (R : Region) (c : ComponentId) : Prop :=
  c = R.shown ∨ R.components c

/-- The instance shows a component that the region reads, and its nodes are in the region. -/
structure Covers (R : Region) (i : Instance) : Prop where
  component : R.Reads i.component
  nodes : ∀ s n, i.node? s = some n → R.nodes n
  inPlace : ∀ step ∈ i.template.refresh, step.op.InPlace

end Region

namespace Page

/-- The elements of the region are widgets, and what they consist of is in the region too. -/
def Encloses (R : Region) (p : Page) : Prop :=
  ∀ n e, R.nodes n → p.custom? n = some e → ∃ w, e.behaviour = .widget w ∧ R.components w.component ∧
    ∀ i, w.shown = some i → i.component = w.component ∧ R.Covers i

/-- The pages are the same in the region. -/
structure AgreesOn (R : Region) (p q : Page) : Prop where
  registry : q.registry = p.registry
  connecting : q.connecting = p.connecting
  nodes : ∀ n, R.nodes n → q.document.nodes[n]? = p.document.nodes[n]?
  elements : ∀ n, R.nodes n → q.custom? n = p.custom? n
  components : ∀ c, R.Reads c → q.components[c]? = p.components[c]?

/-- The pages are the same outside the region, and the behaviours of the elements everywhere. -/
structure DiffersIn (R : Region) (p q : Page) : Prop where
  registry : q.registry = p.registry
  connecting : q.connecting = p.connecting
  nodes : ∀ n, ¬R.nodes n → q.document.nodes[n]? = p.document.nodes[n]?
  elements : ∀ n, ¬R.nodes n → q.custom? n = p.custom? n
  behaviours : ∀ n, (q.custom? n).map (·.behaviour) = (p.custom? n).map (·.behaviour)
  components : ∀ c, ¬R.components c → q.components[c]? = p.components[c]?

variable {q r : Page}

theorem AgreesOn.refl (R : Region) (p : Page) : p.AgreesOn R p :=
  ⟨rfl, rfl, fun _ _ => rfl, fun _ _ => rfl, fun _ _ => rfl⟩

theorem DiffersIn.refl (R : Region) (p : Page) : p.DiffersIn R p :=
  ⟨rfl, rfl, fun _ _ => rfl, fun _ _ => rfl, fun _ => rfl, fun _ _ => rfl⟩

theorem DiffersIn.trans (h : p.DiffersIn R q) (h' : q.DiffersIn R r) : p.DiffersIn R r where
  registry := h'.registry.trans h.registry
  connecting := h'.connecting.trans h.connecting
  nodes n hn := (h'.nodes n hn).trans (h.nodes n hn)
  elements n hn := (h'.elements n hn).trans (h.elements n hn)
  behaviours n := (h'.behaviours n).trans (h.behaviours n)
  components c hc := (h'.components c hc).trans (h.components c hc)

theorem Encloses.differsIn {S : Region} (h : p.Encloses R) (hq : p.DiffersIn S q) : q.Encloses R := by
  intro n e hn he
  have hbehaviour := hq.behaviours n
  rw [he, Option.map_some] at hbehaviour
  obtain ⟨e', he', heq⟩ := Option.map_eq_some_iff.mp hbehaviour.symm
  obtain ⟨w, hw, hrest⟩ := h n e' hn he'
  exact ⟨w, heq.symm.trans hw, hrest⟩

namespace AgreesOn

theorem declares (h : p.AgreesOn R q) (hn : R.nodes n) (name : String) : q.declares n name = p.declares n name := by
  have hcustom : q.isCustom n = p.isCustom n := by rw [isCustom, h.elements n hn, isCustom]
  have htag : q.document.tag? n = p.document.tag? n := by
    rw [Document.tag?, Document.element?, h.nodes n hn]
    rfl
  rw [Page.declares, hcustom, htag, h.registry, Page.declares]

theorem cell (h : p.AgreesOn R q) (hc : R.Reads c) : q.cell c = p.cell c := by
  rw [Page.cell, h.components c hc, Page.cell]

theorem access (h : p.AgreesOn R q) (hc : R.Reads c) : q.access c = p.access c :=
  congrArg Cell.access (h.cell hc)

theorem component (h : p.AgreesOn R q) (hc : R.Reads c) : q.component c = p.component c :=
  congrArg Cell.component (h.cell hc)

theorem eval (h : p.AgreesOn R q) (hc : R.Reads c) (f : Formula) : q.eval c f = p.eval c f := by
  rw [Page.eval, h.access hc, h.component hc, Page.eval]

end AgreesOn

end Page

namespace Region

variable {g : Page → Page}

/-- The function changes nothing outside the region, and what it makes of the region depends on nothing
else. -/
def Confines (R : Region) (p : Page) (f : Page → Page) : Prop :=
  p.DiffersIn R (f p) ∧ ∀ q, p.AgreesOn R q → (f p).AgreesOn R (f q)

theorem Confines.congr (h : R.Confines p g) (hfg : ∀ q, p.AgreesOn R q → f q = g q) : R.Confines p f := by
  rw [Confines, hfg p (.refl R p)]
  refine ⟨h.1, fun q hq => ?_⟩
  rw [hfg q hq]
  exact h.2 q hq

theorem confines_id (R : Region) (p : Page) : R.Confines p fun q => q :=
  ⟨.refl R p, fun _ hq => hq⟩

theorem confines_warnings (R : Region) (p : Page) (more : List String) :
    R.Confines p fun q => { q with warnings := q.warnings ++ more } :=
  ⟨⟨rfl, rfl, fun _ _ => rfl, fun _ _ => rfl, fun _ => rfl, fun _ _ => rfl⟩,
    fun _ hq => ⟨hq.registry, hq.connecting, hq.nodes, hq.elements, hq.components⟩⟩

theorem confines_warn (R : Region) (p : Page) (message : String) : R.Confines p (·.warn message) :=
  confines_warnings R p [message]

theorem confines_tell (R : Region) (p : Page) (sink : Sink) (d : Diagnostic) : R.Confines p (·.tell sink d) :=
  (confines_warnings R p (sink.log d)).congr fun q _ => q.tell_eq sink d

theorem confines_defer (R : Region) (p : Page) (w : DeferredWrite) :
    R.Confines p fun q => { q with deferred := q.deferred ++ [w] } :=
  ⟨⟨rfl, rfl, fun _ _ => rfl, fun _ _ => rfl, fun _ => rfl, fun _ _ => rfl⟩,
    fun _ hq => ⟨hq.registry, hq.connecting, hq.nodes, hq.elements, hq.components⟩⟩

theorem confines_node (hn : R.nodes n) (p : Page) (f : Node → Node) :
    R.Confines p fun q => { q with document := q.document.modifyNode n f } := by
  refine ⟨⟨rfl, rfl, fun x hx => ?_, fun _ _ => rfl, fun _ => rfl, fun _ _ => rfl⟩,
    fun q hq => ⟨hq.registry, hq.connecting, fun x hx => ?_, hq.elements, hq.components⟩⟩
  · have hne : n ≠ x := fun heq => hx (heq ▸ hn)
    simp only [Document.modifyNode, Array.getElem?_modify, hne, ↓reduceIte]
  · simp only [Document.modifyNode, Array.getElem?_modify, hq.nodes x hx]

theorem confines_component (hc : R.components c) (p : Page) (f : Component → Component) :
    R.Confines p (·.modifyComponent c f) := by
  refine ⟨⟨rfl, rfl, fun _ _ => rfl, fun _ _ => rfl, fun _ => rfl, fun x hx => ?_⟩,
    fun q hq => ⟨hq.registry, hq.connecting, hq.nodes, hq.elements, fun x hx => ?_⟩⟩
  · have hne : c ≠ x := fun heq => hx (heq ▸ hc)
    simp only [Page.modifyComponent, Array.getElem?_modify, hne, ↓reduceIte]
  · simp only [Page.modifyComponent, Array.getElem?_modify, hq.components x hx]

theorem confines_setBusy (hn : R.nodes n) (p : Page) (busy : Bool) : R.Confines p (·.setBusy n busy) := by
  refine ⟨⟨rfl, rfl, fun _ _ => rfl, fun x hx => ?_, fun x => ?_, fun _ _ => rfl⟩,
    fun q hq => ⟨hq.registry, hq.connecting, hq.nodes, fun x hx => ?_, hq.components⟩⟩
  · have hne : x ≠ n := fun heq => hx (heq ▸ hn)
    rw [Page.custom?_setBusy, if_neg hne]
  · rw [Page.custom?_setBusy]
    split
    · rw [Option.map_map]
      rfl
    · rfl
  · rw [Page.custom?_setBusy, Page.custom?_setBusy, hq.elements x hx]

theorem confines_writeWidget {w : Widget} (hw : R.components w.component) (p : Page) (path : PropertyPath)
    (v : Value) : R.Confines p (·.writeWidget w path v) := by
  by_cases hfree : p.access w.component = .free
  · refine (confines_component hw p (·.set path.display v)).congr fun q hq => ?_
    rw [Page.writeWidget, hq.access (Or.inr hw), if_pos hfree]
  · refine (R.confines_warn p s!"{w.template.name}: busy, property {path.display} dropped").congr fun q hq => ?_
    rw [Page.writeWidget, hq.access (Or.inr hw), if_neg hfree]

theorem confines_setProperty (hp : p.Encloses R) (hn : R.nodes n) (path : PropertyPath) (v : Value) :
    R.Confines p (·.setProperty n path v) := by
  cases hdeclares : p.declares n path.head with
  | false =>
    have hstored : R.Confines p fun q => { q with document := q.document.setProperty n path v } :=
      confines_node hn p _
    refine hstored.congr fun q hq => ?_
    rw [Page.setProperty, hq.declares hn, hdeclares]
    rfl
  | true =>
    cases he : p.custom? n with
    | none =>
      refine (R.confines_id p).congr fun q hq => ?_
      rw [Page.setProperty, hq.declares hn, hdeclares, hq.elements n hn, he]
      rfl
    | some e =>
      obtain ⟨w, hbehaviour, hw, -⟩ := hp n e hn he
      -- the write goes the same way on all pages that agree
      have hset : ∀ q, p.AgreesOn R q → q.setProperty n path v =
          if !e.busy then q.writeWidget w path v
          else if p.connecting.contains n then { q with deferred := q.deferred ++ [⟨n, path, v⟩] }
          else q.warn (droppedWrite n path) := by
        intro q hq
        rw [Page.setProperty, hq.declares hn, hdeclares, hq.elements n hn, he, hq.connecting]
        simp only [↓reduceIte, hbehaviour, Page.writeBehaviour]
      cases hbusy : e.busy with
      | false =>
        refine (confines_writeWidget hw p path v).congr fun q hq => ?_
        rw [hset q hq, hbusy]
        rfl
      | true =>
        cases hconnecting : p.connecting.contains n with
        | true =>
          refine (R.confines_defer p ⟨n, path, v⟩).congr fun q hq => ?_
          rw [hset q hq, hbusy, hconnecting]
          rfl
        | false =>
          refine (R.confines_warn p (droppedWrite n path)).congr fun q hq => ?_
          rw [hset q hq, hbusy, hconnecting]
          rfl

end Region

/-- Whatever the act does on the page it does within the region, and it does the same on all pages that agree
there. -/
def Act.KeepsTo (R : Region) (p : Page) (m : Act α) : Prop :=
  ∀ a p', m p = some (a, p') → p.DiffersIn R p' ∧
    ∀ q, p.AgreesOn R q → ∃ q', m q = some (a, q') ∧ p'.AgreesOn R q'

namespace Act

theorem keepsTo_pure (R : Region) (p : Page) (a : α) : KeepsTo R p (pure a) := by
  intro b p' h
  obtain ⟨rfl, rfl⟩ := pure_eq_some.mp h
  exact ⟨.refl R p, fun q hq => ⟨q, pure_eq_some.mpr ⟨rfl, rfl⟩, hq⟩⟩

theorem KeepsTo.bind {m : Act α} {f : α → Act β} (hm : KeepsTo R p m)
    (hf : ∀ a p', p.DiffersIn R p' → KeepsTo R p' (f a)) : KeepsTo R p (m >>= f) := by
  intro b p'' h
  obtain ⟨a, p', hfirst, hrest⟩ := bind_eq_some.mp h
  obtain ⟨hdiffers, hagrees⟩ := hm a p' hfirst
  obtain ⟨hdiffers', hagrees'⟩ := hf a p' hdiffers b p'' hrest
  refine ⟨hdiffers.trans hdiffers', fun q hq => ?_⟩
  obtain ⟨q', hfirst', hq'⟩ := hagrees q hq
  obtain ⟨q'', hrest', hq''⟩ := hagrees' q' hq'
  exact ⟨q'', bind_eq_some.mpr ⟨a, q', hfirst', hrest'⟩, hq''⟩

/-- Reading the page first does no harm if only the region is looked at. -/
theorem keepsTo_get {f : Page → Act α} (hread : ∀ q, p.AgreesOn R q → f q = f p) (hf : KeepsTo R p (f p)) :
    KeepsTo R p (get >>= f) := by
  have hget : ∀ q, (get >>= f) q = f q q := fun _ => rfl
  intro a p' h
  rw [hget] at h
  obtain ⟨hdiffers, hagrees⟩ := hf a p' h
  refine ⟨hdiffers, fun q hq => ?_⟩
  rw [hget, hread q hq]
  exact hagrees q hq

theorem keepsTo_modifyGet {f g : Page → α × Page} (hfg : ∀ q, p.AgreesOn R q → f q = g q)
    (hg : R.Confines p fun q => (g q).2) (hvalue : ∀ q, (g q).1 = (g p).1) :
    KeepsTo R p (modifyGet f : Act α) := by
  intro a p' h
  have heq : g p = (a, p') := by
    rw [← hfg p (.refl R p)]
    exact modifyGet_eq_some.mp h
  have hp : (g p).2 = p' := by rw [heq]
  refine ⟨hp ▸ hg.1, fun q hq => ⟨(g q).2, modifyGet_eq_some.mpr ?_, hp ▸ hg.2 q hq⟩⟩
  have ha : (g q).1 = a := by rw [hvalue q, heq]
  rw [hfg q hq]
  exact Prod.ext ha rfl

theorem keepsTo_modify (hf : R.Confines p f) : KeepsTo R p (modify f : Act PUnit) :=
  keepsTo_modifyGet (fun _ _ => rfl) hf fun _ => rfl

end Act

/-- Flushing an element of the region keeps to the region. -/
def Host.KeepsTo (R : Region) (host : Host) : Prop :=
  ∀ n p, R.nodes n → p.Encloses R → Act.KeepsTo R p (host.flush n)

namespace Instance

variable {i : Instance}

theorem execLocal_keepsTo (hi : R.Covers i) (hp : p.Encloses R) {op : Op} (hop : op.InPlace) :
    Act.KeepsTo R p (modifyGet (i.execLocal op) : Act Step) := by
  obtain ⟨run, hrun, heq⟩ := i.execLocal_effect op p
  have hagree : ∀ q, p.AgreesOn R q → i.execLocal op q = run q :=
    fun q hq => heq q (hq.eval hi.component) (hq.access hi.component)
  cases hrun with
  | nothing _ => exact Act.keepsTo_modifyGet hagree (R.confines_id p) fun _ => rfl
  | skip _ f => exact Act.keepsTo_modifyGet hagree (R.confines_id p) fun _ => rfl
  | property path hn hv =>
    exact Act.keepsTo_modifyGet hagree (Region.confines_setProperty hp (hi.nodes _ _ hn) path _) fun _ => rfl
  | callback name hn hv =>
    exact Act.keepsTo_modifyGet hagree (Region.confines_setProperty hp (hi.nodes _ _ hn) _ _) fun _ => rfl
  | attr value name text hn =>
    exact Act.keepsTo_modifyGet hagree (Region.confines_node (hi.nodes _ _ hn) p _) fun _ => rfl
  | noAttr value name hn =>
    exact Act.keepsTo_modifyGet hagree (Region.confines_node (hi.nodes _ _ hn) p _) fun _ => rfl
  | text value text hn =>
    exact Act.keepsTo_modifyGet hagree (Region.confines_node (hi.nodes _ _ hn) p _) fun _ => rfl
  | _ => exact hop.elim

theorem exec_keepsTo (hhost : host.KeepsTo R) (hi : R.Covers i) (hp : p.Encloses R) {op : Op}
    (hop : op.InPlace) : Act.KeepsTo R p (i.exec host op) := by
  cases op with
  | flushNested s =>
    cases hn : i.node s with
    | error f =>
      simp only [exec, hn]
      exact Act.keepsTo_pure R p _
    | ok n =>
      simp only [exec, hn]
      refine (hhost n p (hi.nodes s n (node_eq_ok.mp hn)) hp).bind fun result p' _ => ?_
      cases result with
      | error f => exact Act.keepsTo_pure R p' _
      | ok k => exact Act.keepsTo_pure R p' _
  | setProperty s path value => exact execLocal_keepsTo hi hp hop
  | setAttribute s name value => exact execLocal_keepsTo hi hp hop
  | setText s value => exact execLocal_keepsTo hi hp hop
  | _ => exact hop.elim

theorem report_keepsTo (R : Region) (p : Page) (phase : Phase) (op : Op) (step : Step) :
    Act.KeepsTo R p (report phase op step) := by
  unfold report
  cases step.fault with
  | none => exact Act.keepsTo_pure R p _
  | some fault => exact (Act.keepsTo_modify (R.confines_tell p _ _)).bind fun _ p' _ => Act.keepsTo_pure R p' _

theorem runSteps_keepsTo (hhost : host.KeepsTo R) (hi : R.Covers i) (hp : p.Encloses R)
    {steps : List RefreshStep} (hsteps : ∀ step ∈ steps, step.op.InPlace) :
    Act.KeepsTo R p (i.runSteps host steps) := by
  induction steps generalizing p with
  | nil => exact Act.keepsTo_pure R p _
  | cons step rest ih =>
    have hfirst := hsteps step List.mem_cons_self
    have hrest : ∀ step' ∈ rest, step'.op.InPlace := fun step' h => hsteps step' (List.mem_cons_of_mem _ h)
    refine (exec_keepsTo hhost hi hp hfirst).bind fun done p₁ h₁ => ?_
    refine (report_keepsTo R p₁ .refresh step.op done).bind fun first p₂ h₂ => ?_
    refine (ih ((hp.differsIn h₁).differsIn h₂) hrest).bind fun others p₃ _ => ?_
    exact Act.keepsTo_pure R p₃ _

theorem refresh_keepsTo (hhost : host.KeepsTo R) (hi : R.Covers i) (hp : p.Encloses R) (changed : Names) :
    Act.KeepsTo R p (i.refresh host changed) :=
  runSteps_keepsTo hhost hi hp fun step hstep => hi.inPlace step (List.mem_of_mem_filter hstep)

theorem deliverRounds_keepsTo (hhost : host.KeepsTo R) (hi : R.Covers i) (hc : R.components i.component)
    (hp : p.Encloses R) (rounds : Nat) : Act.KeepsTo R p (i.deliverRounds host rounds) := by
  induction rounds generalizing p with
  | zero => exact (Act.keepsTo_modify (R.confines_warn p _)).bind fun _ p' _ => Act.keepsTo_pure R p' _
  | succ rounds ih =>
    refine Act.keepsTo_get (fun q hq => ?_) ?_
    · rw [hq.access hi.component, hq.component hi.component]
    · by_cases hfree : p.access i.component = .free
      · simp only [hfree, ne_eq, not_true, ↓reduceIte]
        refine (Act.keepsTo_modify (Region.confines_component hc p _)).bind fun _ p₁ h₁ => ?_
        cases hempty : (p.component i.component).pending.isEmpty with
        | true =>
          simp only [↓reduceIte]
          exact Act.keepsTo_pure R p₁ _
        | false =>
          have hp₁ := hp.differsIn h₁
          simp only [Bool.false_eq_true, ↓reduceIte]
          refine (refresh_keepsTo hhost hi hp₁ _).bind fun first p₂ h₂ => ?_
          exact (ih (hp₁.differsIn h₂)).bind fun others p₃ _ => Act.keepsTo_pure R p₃ _
      · simp only [ne_eq, hfree, not_false_iff, ↓reduceIte]
        exact (Act.keepsTo_modify (R.confines_warn p _)).bind fun _ p' _ => Act.keepsTo_pure R p' _

end Instance

theorem Widget.flush_keepsTo (hhost : host.KeepsTo R) (hp : p.Encloses R) {w : Widget} (hw : R.components w.component)
    (hshown : ∀ i, w.shown = some i → i.component = w.component ∧ R.Covers i) : Act.KeepsTo R p (w.flush host) := by
  cases hs : w.shown with
  | none =>
    simp only [Widget.flush, hs]
    exact Act.keepsTo_pure R p _
  | some i =>
    obtain ⟨hcomponent, hi⟩ := hshown i hs
    simp only [Widget.flush, hs]
    exact Instance.deliverRounds_keepsTo hhost hi (hcomponent ▸ hw) hp _

theorem flushWith_keepsTo (hhost : host.KeepsTo R) (hn : R.nodes n) (hp : p.Encloses R) :
    Act.KeepsTo R p (flushWith host n) := by
  refine Act.keepsTo_get (fun q hq => ?_) ?_
  · rw [hq.elements n hn]
  · cases he : p.custom? n with
    | none => exact Act.keepsTo_pure R p _
    | some e =>
      obtain ⟨w, hbehaviour, hw, hshown⟩ := hp n e hn he
      cases hbusy : e.busy with
      | true =>
        simp only [hbusy, ↓reduceIte]
        exact Act.keepsTo_pure R p _
      | false =>
        simp only [hbusy, Bool.false_eq_true, ↓reduceIte, hbehaviour, Behaviour.flush]
        refine (Act.keepsTo_modify (Region.confines_setBusy hn p true)).bind fun _ p₁ h₁ => ?_
        have hflush := Widget.flush_keepsTo hhost (hp.differsIn h₁) hw hshown
        refine (hflush.bind fun report p₂ _ => Act.keepsTo_pure R p₂ _).bind fun result p₂ _ => ?_
        refine (Act.keepsTo_modify (Region.confines_setBusy hn p₂ false)).bind fun _ p₃ _ => ?_
        exact Act.keepsTo_pure R p₃ _

/-- However deep elements nest, flushing one stays in a region that encloses it. -/
theorem hostTo_keepsTo (R : Region) (depth : Nat) : (hostTo depth).KeepsTo R := by
  induction depth with
  | zero =>
    intro n p _ _ a p' h
    cases h
  | succ depth ih => exact fun n p hn hp => flushWith_keepsTo ih hn hp

end LiveMarkup
