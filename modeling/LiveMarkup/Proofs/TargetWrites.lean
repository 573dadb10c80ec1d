import LiveMarkup.Proofs.AdoptedRoot
import LiveMarkup.Proofs.HostedPage
import LiveMarkup.Proofs.Leftovers
import LiveMarkup.Proofs.Places
import LiveMarkup.Proofs.Shown

namespace LiveMarkup

variable {p q : Page} {e : Element} {t : Target} {n : NodeId} {op : Op} {c : ComponentId} {v : Value} {host : Host}
  {i : Instance} {step : Step} {s : Slot} {root : Option NodeId} {d : Document} {value : Computation}

theorem Document.element?_eq_some : d.element? n = some e ↔ d.kind? n = some (.element e) := by
  rw [element?, kind?]
  cases d.nodes[n]? with
  | none => simp
  | some node =>
    obtain ⟨kind, parent, children⟩ := node
    cases kind <;> simp

theorem Document.element?_congr {d' : Document} (h : d'.kind? n = d.kind? n) : d'.element? n = d.element? n := by
  refine Option.ext fun e => ?_
  rw [element?_eq_some, element?_eq_some, h]

theorem Document.lt_of_element? (h : d.element? n = some e) : n < d.size := by
  rw [element?] at h
  cases hnode : d.nodes[n]? with
  | none =>
    rw [hnode] at h
    cases h
  | some node => exact (Array.getElem?_eq_some_iff.mp hnode).1

theorem Document.element?_push (h : d.element? n = some e) (kind : NodeKind) : (d.push kind).element? n = some e := by
  rw [← h]
  exact element?_congr (d.kind?_push_of_lt kind (lt_of_element? h))

theorem Document.element?_setText (d : Document) (n m : NodeId) (s : String) :
    (d.setText m s).element? n = d.element? n := by
  rw [element?, setText, modifyNode, Array.getElem?_modify, element?]
  by_cases hm : m = n
  · rw [if_pos hm]
    cases d.nodes[n]? with
    | none => rfl
    | some node =>
      obtain ⟨kind, parent, children⟩ := node
      cases kind <;> rfl
  · rw [if_neg hm]

theorem Dict.get?_putAt_of_ne {α : Type u} (d : Dict α) {k : Option String} {x : String} (v : Option α)
    (h : k ≠ some x) : (d.putAt k v).get? x = d.get? x := by
  cases k with
  | none => rfl
  | some k =>
    have hx : x ≠ k := fun heq => h (heq ▸ rfl)
    exact (Dict.get?_put ..).trans (if_neg hx)

/-- An element has a value in all that a target writes to. -/
structure Element.Carries (e : Element) (t : Target) (v : Value) : Prop where
  stored : ∀ key, t.property? = some key → e.props.get? key = some v
  shown : ∀ name, t.attribute? = some name → e.attrs.get? name = t.text? v

namespace Element

variable {e' : Element} {t' : Target} {w : Value}

theorem carries_write (owner : ComponentId) (e : Element) (t : Target) (hv : v.Inert) :
    (e.write owner t v).Carries t v := by
  rw [write_eq owner e t hv]
  refine ⟨fun key hkey => ?_, fun name hname => ?_⟩
  · rw [hkey]
    exact (Dict.get?_put ..).trans (if_pos rfl)
  · rw [hname]
    exact (Dict.get?_put ..).trans (if_pos rfl)

theorem Carries.write (h : e.Carries t v) (owner : ComponentId) (ht : t'.Apart t) (hw : w.Inert) :
    (e.write owner t' w).Carries t v := by
  rw [write_eq owner e t' hw]
  refine ⟨fun key hkey => ?_, fun name hname => ?_⟩
  · exact (Dict.get?_putAt_of_ne _ _ fun hkey' => ht.1 key hkey' hkey).trans (h.stored key hkey)
  · exact (Dict.get?_putAt_of_ne _ _ fun hname' => ht.2 name hname' hname).trans (h.shown name hname)

/-- What an element carries does not depend on its listeners. -/
theorem Carries.bare (h : e.Carries t v) (he : e'.bare = e.bare) : e'.Carries t v := by
  have hprops : e'.props = e.props := (congrArg Element.props he :)
  have hattrs : e'.attrs = e.attrs := (congrArg Element.attrs he :)
  refine ⟨fun key hkey => ?_, fun name hname => ?_⟩
  · rw [hprops]
    exact h.stored key hkey
  · rw [hattrs]
    exact h.shown name hname

end Element

/-- A node is an element that carries the value. -/
def Page.Carries (p : Page) (n : NodeId) (t : Target) (v : Value) : Prop :=
  ∃ e, p.document.element? n = some e ∧ e.Carries t v

/-- A node carries the value that is computed so from the properties, unless that fails. -/
def Page.Reflects (p : Page) (c : ComponentId) (n : NodeId) (t : Target) (value : Computation) : Prop :=
  value.formula.OfProperties ∧ ∀ v, p.eval c value.formula = .ok v → p.Carries n t v

/-- What components expose matters to no computation that sees the properties only. -/
theorem Page.SameState.eval (h : p.SameState q) {f : Formula} (hf : f.OfProperties) (c : ComponentId) :
    q.eval c f = p.eval c f := by
  rw [Page.eval, Page.eval, h.access c]
  exact ite_congr rfl (fun _ => rfl) fun _ => hf _ _ (Component.get_congr (h.props c))

namespace Instance

/-- What an instruction may do to an element: it writes a value, or nothing that the element carries depends on it. -/
def Edits (i : Instance) (op : Op) (p : Page) (m : NodeId) (e e' : Element) : Prop :=
  e'.bare = e.bare ∨ ∃ t value v, op = t.op op.slot value ∧ i.node? op.slot = some m ∧
    p.eval i.component value.formula = .ok v ∧ e' = e.write i.component t v

/-- Without custom elements an instruction changes the state of no component, and no element but by a write. -/
structure Plainly (i : Instance) (op : Op) (p q : Page) : Prop where
  state : p.SameState q
  elements : ∀ m e, p.document.element? m = some e → ∃ e', q.document.element? m = some e' ∧ i.Edits op p m e e'

theorem Plainly.of_elements (hstate : p.SameState q)
    (h : ∀ m e, p.document.element? m = some e → q.document.element? m = some e) : i.Plainly op p q :=
  ⟨hstate, fun m e he => ⟨e, h m e he, Or.inl rfl⟩⟩

theorem Plainly.refl (i : Instance) (op : Op) (p : Page) : i.Plainly op p p :=
  .of_elements (.refl p) fun _ _ he => he

theorem Plainly.push (i : Instance) (op : Op) (p : Page) (kind : NodeKind) :
    i.Plainly op p { p with document := p.document.push kind } :=
  .of_elements (.document p _) fun _ _ he => Document.element?_push he kind

theorem Plainly.modifyElement {f : Element → Element} (n : NodeId)
    (h : ∀ e, p.document.element? n = some e → i.Edits op p n e (f e)) :
    i.Plainly op p { p with document := p.document.modifyElement n f } := by
  refine ⟨.document p _, fun m e he => ?_⟩
  by_cases hm : m = n
  · subst hm
    exact ⟨f e, by rw [Document.element?_modifyElement, he, Option.map_some], h e he⟩
  · refine ⟨e, ?_, Or.inl rfl⟩
    rw [← he]
    exact Document.element?_congr (p.document.kind?_modifyNode_of_ne hm _)

theorem execLocal_target_plainly (hp : p.Plain) (t : Target) (s : Slot) (value : Computation) :
    i.Plainly (t.op s value) p (i.execLocal (t.op s value) p).2 := by
  have hslot : (t.op s value).slot = s := by cases t <;> rfl
  cases hn : i.node s with
  | error f =>
    have hsame : i.execLocal (t.op s value) p = i.skip f p := by
      cases t <;> simp only [Target.op, execLocal, hn]
    rw [hsame]
    exact .refl i _ p
  | ok n =>
    cases hv : p.eval i.component value.formula with
    | error f =>
      rw [execLocal_target_error t hn hv]
      exact .refl i _ p
    | ok v =>
      obtain ⟨edit, hexec⟩ := execLocal_target_ok t (hp.isCustom n) hn hv
      rw [hexec]
      refine .modifyElement n fun e _ => Or.inr ⟨t, value, v, ?_, ?_, hv, rfl⟩
      · rw [hslot]
      · rw [hslot]
        exact node_eq_ok.mp hn

theorem execLocal_plainly (hp : p.Plain) (i : Instance) (op : Op) : i.Plainly op p (i.execLocal op p).2 := by
  obtain ⟨run, hrun, heq⟩ := i.execLocal_runs op p
  cases hrun with
  | property path hn hv => exact execLocal_target_plainly hp (.property path) _ _
  | callback name hn hv => exact execLocal_target_plainly hp (.attr name) _ _
  | attr value name text hn => exact execLocal_target_plainly hp (.attr name) _ value
  | noAttr value name hn => exact execLocal_target_plainly hp (.attr name) _ value
  | nothing _ =>
    rw [heq]
    exact .refl i _ p
  | skip _ f =>
    rw [heq]
    exact .refl i _ p
  | attach name hn =>
    rw [heq]
    exact .of_elements (.attach p ..) fun _ _ he => he
  | listener event handler hn =>
    rw [heq]
    exact .modifyElement _ fun e _ => Or.inl rfl
  | newText s value text fault =>
    rw [heq]
    exact .push i _ p _
  | @text s n value text hn =>
    rw [heq]
    refine .of_elements (.document p _) fun m e he => ?_
    rw [← he]
    exact p.document.element?_setText m n text
  | @child _ _ a b ha hb =>
    rw [heq]
    simp only [Page.append]
    split
    · refine .of_elements (.document p _) fun m e he => ?_
      rw [← he]
      exact Document.element?_congr (p.document.kind?_append a b m)
    · exact .of_elements (.of_components rfl rfl rfl) fun _ _ he => he

theorem exec_plainly (hhost : host.ServesPlain) (hp : p.Plain) (h : i.exec host op p = some (step, q)) :
    i.Plainly op p q := by
  cases exec_ran h with
  | alone hneeds hlocal =>
    have hplainly := execLocal_plainly hp i op
    rw [hlocal] at hplainly
    exact hplainly
  | created hn =>
    rw [hhost.create _ _ p hp] at hn
    cases hn
    exact .push i _ p _
  | unbuilt hn => exact .refl i _ p
  | flushed hn hflush =>
    rw [hhost.flush _ p hp] at hflush
    cases hflush
    exact .refl i _ p

end Instance

/-- What an instruction computes for a target of the node of a slot, if it writes there. -/
def Op.written? (s : Slot) (t : Target) : Op → Option Computation
  | .setProperty s' path value => if s' = s ∧ .property path = t then some value else none
  | .setAttribute s' name value => if s' = s ∧ .attr name = t then some value else none
  | _ => none

theorem Op.written?_eq_some : op.written? s t = some value ↔ op = t.op s value := by
  constructor
  · intro h
    cases op with
    | setProperty s' path value' =>
      simp only [written?, Option.ite_none_right_eq_some, Option.some.injEq] at h
      obtain ⟨⟨rfl, rfl⟩, rfl⟩ := h
      rfl
    | setAttribute s' name value' =>
      simp only [written?, Option.ite_none_right_eq_some, Option.some.injEq] at h
      obtain ⟨⟨rfl, rfl⟩, rfl⟩ := h
      rfl
    | _ => cases h
  · rintro rfl
    cases t <;> simp [Target.op, written?]

/-- The node of a slot, which is that of no other slot. -/
structure Instance.Owns (i : Instance) (s : Slot) (n : NodeId) : Prop where
  node : i.node? s = some n
  alone : ∀ s', i.node? s' = some n → s' = s

/-- The writes of an instruction to a slot are computed from the properties and are no callbacks, and those to other
targets leave the target alone. -/
def Op.Spares (op : Op) (p : Page) (c : ComponentId) (s : Slot) (t : Target) : Prop :=
  ∀ t' value, op = t'.op s value → (t' = t ∨ t'.Apart t) ∧ value.formula.OfProperties ∧
    ∀ v, p.eval c value.formula = .ok v → v.Inert

theorem Page.Reflects.sameState (h : p.Reflects c n t value) (hsame : p.SameState q)
    (hdocument : q.document = p.document) : q.Reflects c n t value := by
  refine ⟨h.1, fun v hv => ?_⟩
  rw [hsame.eval h.1] at hv
  rw [Page.Carries, hdocument]
  exact h.2 v hv

theorem Op.Spares.sameState (h : op.Spares p c s t) (hsame : p.SameState q) : op.Spares q c s t := by
  intro t' value heq
  obtain ⟨htarget, hvalue, hinert⟩ := h t' value heq
  rw [hsame.eval hvalue]
  exact ⟨htarget, hvalue, hinert⟩

namespace Instance

theorem exec_carries (hhost : host.ServesPlain) (hp : p.Plain) (hn : i.Owns s n) (hop : op.Spares p i.component s t)
    (hwritten : op.written? s t = none) (hv : p.Carries n t v) (h : i.exec host op p = some (step, q)) :
    q.Carries n t v := by
  obtain ⟨e, he, hcarries⟩ := hv
  obtain ⟨e', he', hedits⟩ := (exec_plainly hhost hp h).elements n e he
  refine ⟨e', he', ?_⟩
  rcases hedits with hbare | ⟨t', value, w, heq, hslot, hw, rfl⟩
  · exact hcarries.bare hbare
  · rw [hn.alone _ hslot] at heq
    obtain ⟨hsame | hapart, -, hinert⟩ := hop t' value heq
    · subst hsame
      rw [Op.written?_eq_some.mpr heq] at hwritten
      cases hwritten
    · exact hcarries.write i.component hapart (hinert w hw)

theorem exec_written (hp : p.Plain) (hn : i.Owns s n) (he : p.document.element? n = some e)
    (hv : p.eval i.component value.formula = .ok v) (hinert : v.Inert)
    (h : i.exec host (t.op s value) p = some (step, q)) : q.Carries n t v := by
  obtain ⟨edit, hexec⟩ := execLocal_target_ok t (hp.isCustom n) (node_eq_ok.mpr hn.node) hv
  cases hexec.symm.trans ((exec_local (t.needsHost_op _ _)).mp h)
  refine ⟨e.write i.component t v, ?_, e.carries_write i.component t hinert⟩
  rw [Document.element?_modifyElement, he, Option.map_some]

/-- If a node carries the value that was written last, it does so after one more instruction. -/
theorem exec_reflects (hhost : host.ServesPlain) (hp : p.Plain) (hn : i.Owns s n)
    (he : p.document.element? n = some e) (hop : op.Spares p i.component s t) {written : List Computation}
    (hlast : ∀ value, written.getLast? = some value → p.Reflects i.component n t value)
    (h : i.exec host op p = some (step, q)) (hvalue : (written ++ (op.written? s t).toList).getLast? = some value) :
    q.Reflects i.component n t value := by
  have hstate := (exec_plainly hhost hp h).state
  cases hwritten : op.written? s t with
  | none =>
    rw [hwritten, Option.toList_none, List.append_nil] at hvalue
    obtain ⟨hproperties, hcarries⟩ := hlast value hvalue
    refine ⟨hproperties, fun v hv => ?_⟩
    rw [hstate.eval hproperties] at hv
    exact exec_carries hhost hp hn hop hwritten (hcarries v hv) h
  | some value' =>
    rw [hwritten, Option.toList_some, List.getLast?_append, List.getLast?_singleton, Option.some_or] at hvalue
    cases hvalue
    have heq := Op.written?_eq_some.mp hwritten
    obtain ⟨-, hproperties, hinert⟩ := hop t value heq
    refine ⟨hproperties, fun v hv => ?_⟩
    rw [hstate.eval hproperties] at hv
    rw [heq] at h
    exact exec_written hp hn he hv (hinert v hv) h

/-- Refreshing leaves on a node the value that was written last. -/
theorem runSteps_reflects (hhost : host.ServesPlain) (hp : p.Plain) (hn : i.Owns s n)
    (he : p.document.element? n = some e) {steps : List RefreshStep}
    (hsteps : ∀ step ∈ steps, step.op.Spares p i.component s t) {written : List Computation}
    (hlast : ∀ value, written.getLast? = some value → p.Reflects i.component n t value) :
    ∃ report q e', i.runSteps host steps p = some (report, q) ∧ p.SameState q ∧ q.document.element? n = some e' ∧
      ∀ value, (written ++ steps.filterMap fun step => step.op.written? s t).getLast? = some value →
        q.Reflects i.component n t value := by
  induction steps generalizing p e written with
  | nil =>
    refine ⟨.empty, p, e, Act.pure_eq_some.mpr ⟨rfl, rfl⟩, .refl p, he, fun value hvalue => hlast value ?_⟩
    rwa [List.filterMap_nil, List.append_nil] at hvalue
  | cons first rest ih =>
    obtain ⟨step, p₁, hexec, -⟩ := exec_plain hhost hp i first.op
    have hplainly := exec_plainly hhost hp hexec
    obtain ⟨e₁, he₁, -⟩ := hplainly.elements n e he
    have hdocument := document_stepWarned .refresh first.op step p₁
    have hsame := hplainly.state.trans (sameState_stepWarned .refresh first.op step p₁)
    have hlast₁ : ∀ value, (written ++ (first.op.written? s t).toList).getLast? = some value →
        (stepWarned .refresh first.op step p₁).Reflects i.component n t value := by
      intro value hvalue
      have hreflects := exec_reflects hhost hp hn he (hsteps first List.mem_cons_self) hlast hexec hvalue
      exact hreflects.sameState (sameState_stepWarned ..) hdocument
    obtain ⟨report, q, e', hrun, hsame', he', hdone⟩ := ih (hsame.plain hp) (hdocument ▸ he₁)
      (fun step hstep => (hsteps step (List.mem_cons_of_mem _ hstep)).sameState hsame) hlast₁
    refine ⟨_, q, e', runSteps_cons.mpr ⟨step, p₁, report, hexec, hrun, rfl⟩, hsame.trans hsame', he', ?_⟩
    intro value hvalue
    refine hdone value ?_
    rw [← hvalue, List.append_assoc]
    cases hw : first.op.written? s t <;> simp [hw]

/-- An instruction that binds a slot leaves all elements as they are, and binds it to one unless it is that of a
text. -/
theorem execBuild_binds_plainly (hhost : host.ServesPlain) (hp : p.Plain) {k : Slot} (hop : op.bound? = some k)
    (h : i.execBuild host root op p = some (step, q)) :
    p.SameState q ∧ (∀ m e, p.document.element? m = some e → q.document.element? m = some e) ∧
      ∃ bound, step.inst = i.bind k bound ∧ ((∃ value, op = .createText k value) ∨
        bound = root ∨ ∃ m e, bound = some m ∧ q.document.element? m = some e) := by
  have hpushed : ∀ kind m e, p.document.element? m = some e → (p.document.push kind).element? m = some e :=
    fun kind _ _ he => Document.element?_push he kind
  cases execBuild_bound hop h with
  | @created tag ns n _ hn =>
    rw [hhost.create tag ns p hp] at hn
    cases hn
    refine ⟨.document p _, hpushed _, _, rfl, Or.inr (Or.inr ⟨_, .ofTag tag ns, rfl, ?_⟩)⟩
    rw [Document.element?, Document.push, Document.size, Array.getElem?_push, if_pos rfl]
  | adopted => exact ⟨.refl p, fun _ _ he => he, root, rfl, Or.inr (Or.inl rfl)⟩
  | newText value text fault => exact ⟨.document p _, hpushed _, _, rfl, Or.inl ⟨value, rfl⟩⟩

/-- A build under way on the page `p₀`: the node of the slot is an element and carries the value that was written last
to the target. -/
structure Filling (root : Option NodeId) (p₀ : Page) (c : ComponentId) (s : Slot) (t : Target) (done : List Op)
    (i : Instance) (p : Page) : Prop where
  component : i.component = c
  state : p₀.SameState p
  rooted : ∀ r, root = some r → ∃ e, p.document.element? r = some e
  filled : ∀ n, i.node? s = some n → (∃ e, p.document.element? n = some e) ∧
    ∀ value, (done.filterMap (·.written? s t)).getLast? = some value → p.Reflects c n t value

variable {p₀ : Page} {done : List Op}

theorem Filling.warned (h : Filling root p₀ c s t done i p) (phase : Phase) (op : Op) (step : Step) :
    Filling root p₀ c s t done i (stepWarned phase op step p) := by
  have hsame := sameState_stepWarned phase op step p
  have hdocument := document_stepWarned phase op step p
  refine ⟨h.component, h.state.trans hsame, ?_, fun n hn => ?_⟩
  · rw [hdocument]
    exact h.rooted
  · obtain ⟨hel, hlast⟩ := h.filled n hn
    rw [hdocument]
    exact ⟨hel, fun value hvalue => (hlast value hvalue).sameState hsame hdocument⟩

theorem Filling.binds (hhost : host.ServesPlain) (hp₀ : p₀.Plain) (h : Filling root p₀ c s t done i p) {k : Slot}
    (hdone : Op.Sequence 0 done k) (hop : op.bound? = some k) (hel : ∀ value, op ≠ .createText s value)
    (hexec : i.execBuild host root op p = some (step, q)) :
    Filling root p₀ c s t (done ++ [op]) step.inst q := by
  obtain ⟨hsame, hkept, bound, hinst, hbound⟩ := execBuild_binds_plainly hhost (h.state.plain hp₀) hop hexec
  have hrooted : ∀ r, root = some r → ∃ e, q.document.element? r = some e := fun r hr => by
    obtain ⟨e, he⟩ := h.rooted r hr
    exact ⟨e, hkept r e he⟩
  have hwritten : op.written? s t = none := by cases op <;> cases hop <;> rfl
  rw [hinst]
  refine ⟨h.component, h.state.trans hsame, hrooted, fun n hn => ?_⟩
  rw [List.filterMap_append, List.filterMap_cons, hwritten, List.filterMap_nil, List.append_nil]
  rcases node?_bind_cases hn with ⟨hs, hnew⟩ | ⟨-, hold⟩
  · subst hs
    refine ⟨?_, fun value hvalue => ?_⟩
    · rcases hbound with ⟨value, heq⟩ | hroot | ⟨m, e, hm, he⟩
      · exact absurd heq (hel value)
      · exact hrooted n (hroot ▸ hnew)
      · cases hm.symm.trans hnew
        exact ⟨e, he⟩
    · -- nothing has been written to a slot before it is bound
      have hnone : done.filterMap (·.written? s t) = [] := by
        refine List.filterMap_eq_nil_iff.mpr fun o ho => Option.eq_none_iff_forall_ne_some.mpr fun value' heq => ?_
        have hlt := hdone.mentions_lt o ho _ o.slot_mem_mentions
        rw [Op.written?_eq_some.mp heq] at hlt
        cases t <;> exact Nat.lt_irrefl _ hlt
      rw [hnone] at hvalue
      cases hvalue
  · obtain ⟨⟨e, he⟩, hlast⟩ := h.filled n hold
    refine ⟨⟨e, hkept n e he⟩, fun value hvalue => ?_⟩
    obtain ⟨hproperties, hlast⟩ := hlast value hvalue
    refine ⟨hproperties, fun v hv => ?_⟩
    rw [hsame.eval hproperties] at hv
    obtain ⟨e', he', hcarries⟩ := hlast v hv
    exact ⟨e', hkept n e' he', hcarries⟩

theorem Filling.uses (hhost : host.ServesPlain) (hp₀ : p₀.Plain) (h : Filling root p₀ c s t done i p)
    (hinjective : ∀ s s' n, i.node? s = some n → i.node? s' = some n → s = s') (hop : op.Spares p₀ c s t)
    (hexec : i.exec host op p = some (step, q)) : Filling root p₀ c s t (done ++ [op]) i q := by
  have hp := h.state.plain hp₀
  have hplainly := exec_plainly hhost hp hexec
  refine ⟨h.component, h.state.trans hplainly.state, fun r hr => ?_, fun n hn => ?_⟩
  · obtain ⟨e, he⟩ := h.rooted r hr
    obtain ⟨e', he', -⟩ := hplainly.elements r e he
    exact ⟨e', he'⟩
  · obtain ⟨⟨e, he⟩, hlast⟩ := h.filled n hn
    obtain ⟨e', he', -⟩ := hplainly.elements n e he
    refine ⟨⟨e', he'⟩, fun value hvalue => ?_⟩
    rw [← h.component] at hlast ⊢
    refine exec_reflects hhost hp ⟨hn, fun s' hs' => hinjective s' s n hs' hn⟩ he ?_ hlast hexec ?_
    · exact h.component ▸ hop.sameState h.state
    · rw [← hvalue, List.filterMap_append]
      cases hw : op.written? s t <;> simp [hw]

end Instance

theorem Page.Plain.wellNested (hp : p.Plain) : p.WellNested False := by
  refine wellNested_of_blank hp.lifeless fun tag d hd => ?_
  rw [hp.undefined] at hd
  cases hd

theorem Page.Plain.not_defines (hp : p.Plain) (tag : String) : ¬p.Defines tag := by
  rw [Defines, hp.undefined]
  exact Bool.false_ne_true

/-- Without custom elements a build that meets no obstacle gives an instance, and each of its elements carries the
value that the build wrote last. -/
theorem Template.instantiate_filled {tmpl : Template} (hp : p.Plain) (ht : tmpl.Compiled) (sink : Sink)
    (hobstacle : tmpl.obstacle? c root p = none) (hroot : ∀ r, root = some r → ∃ e, p.document.element? r = some e) :
    ∃ i report q, tmpl.instantiate c root sink p = some (.ok (i, report), q) ∧ i.template = tmpl ∧
      i.component = c ∧ i.BoundBelow tmpl.slotNames.length ∧
      (∀ s s' n, i.node? s = some n → i.node? s' = some n → s = s') ∧
      ∀ s t, (∀ value, .createText s value ∉ tmpl.build) → (∀ op ∈ tmpl.build, op.Spares p c s t) →
        i.Filling root p c s t tmpl.build q := by
  have htends : tmpl.Tends (p.Tended False) := p.tended_false ▸ ht.tends
  obtain ⟨i, report, q, hbuild⟩ := tmpl.instantiate_returns sink hp.wellNested htends hobstacle
    fun tag _ => Page.nestsFinitely_of_not_defines (hp.not_defines tag)
  have hhost := hostTo_servesPlain p.registry.size
  have hon := withHost_eq_some.mp hbuild
  obtain ⟨_, _, heq, hunder, htemplate, hcomponent, hbound⟩ := buildOn_underway (hostTo_creates _) (hostTo_flushes _)
    hp.wellNested htends hobstacle hon
  cases heq
  refine ⟨i, report, q, hbuild, htemplate, hcomponent, hbound, hunder.injective, fun s t hel hspares => ?_⟩
  have hnone := tmpl.node?_unbuilt c sink
  have hstart : (tmpl.unbuilt c sink).Filling root p c s t [] p := by
    refine ⟨rfl, .refl p, hroot, fun n hn => ?_⟩
    rw [hnone] at hn
    cases hn
  refine (buildOn_invariant (P := fun done i p' => i.template = tmpl ∧ i.Filling root p c s t done p')
    (hostTo_creates _) (hostTo_flushes _) ⟨?_, ?_⟩ (fun _ h => ⟨h.1, h.2.component, h.2.state, h.2.rooted, h.2.filled⟩)
    hp.wellNested htends ⟨rfl, hstart⟩ hon).2
  · rintro done rest op k i p₁ step q₁ n - hops hdone hop - hexec - hinst ⟨htemplate, hkept⟩
    have hmem : op ∈ tmpl.build := htemplate ▸ hops ▸ List.mem_append_right _ List.mem_cons_self
    have hnext := hkept.binds hhost hp hdone hop (fun value heq => hel value (heq ▸ hmem)) hexec
    exact ⟨htemplate, (hinst ▸ hnext).warned .build op step⟩
  · rintro done rest op k i p₁ step q₁ hunder hops - hop hexec - ⟨htemplate, hkept⟩
    have hmem : op ∈ tmpl.build := htemplate ▸ hops ▸ List.mem_append_right _ List.mem_cons_self
    rw [Instance.execBuild_of_not_bound hop] at hexec
    exact ⟨htemplate, (hkept.uses hhost hp hunder.injective (hspares op hmem) hexec).warned .build op step⟩

end LiveMarkup
