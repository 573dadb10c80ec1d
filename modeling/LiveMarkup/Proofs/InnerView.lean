import LiveMarkup.Proofs.Delivery
import LiveMarkup.Proofs.NestedCreation

namespace LiveMarkup

variable {op : Op} {step : Step} {n : NodeId} {plan sub : Plan} {depth : Nat} {place : Op × ValueSpec} {p q : Page}

theorem Document.kind?_modifyNode_self (d : Document) {kind : NodeKind} {f : Node → Node}
    (hf : ∀ kind parent children, (f ⟨kind, parent, children⟩).kind = (f ⟨kind, none, []⟩).kind)
    (h : d.kind? n = some kind) : (d.modifyNode n f).kind? n = some (f ⟨kind, none, []⟩).kind := by
  obtain ⟨node, hnode, rfl⟩ := Option.map_eq_some_iff.mp h
  rw [kind?, modifyNode, Array.getElem?_modify, if_pos rfl, hnode]
  exact congrArg some (hf node.kind node.parent node.children)

/-- The plan of a template. Below the root all values come from the expression language, and those of one node
are written to places that share nothing. -/
structure Template.Planned (t : Template) (plan : Plan) : Prop where
  build : t.build = plan.build
  refresh : t.refresh = plan.refresh
  numbered : plan.NumberedFrom 0
  size : plan.size = t.slotNames.length
  separate : ∀ sub ∈ plan.preorder, sub.slot ≠ 0 → sub.Separate
  language : ∀ sub ∈ plan.preorder, sub.slot ≠ 0 → ∀ place ∈ sub.places, place.2.FromLanguage

/-- With these properties no value below the root is a callback. -/
def Plan.CallbackFree (plan : Plan) (read : String → Value) : Prop :=
  ∀ sub ∈ plan.preorder, sub.slot ≠ 0 → ∀ place ∈ sub.places, ∀ v, place.2.evalIn read = .ok v → v.Inert

/-- An instruction that writes no value. -/
def Op.Quiet : Op → Prop
  | .attach _ _ | .connect _ _ _ | .flushNested _ | .appendChild _ _ => True
  | _ => False

/-- An instruction of one of the nodes of a plan, which is flushed only if it is not the root. -/
def Plan.Runs (plan : Plan) (op : Op) : Prop :=
  (∃ sub ∈ plan.preorder, ∃ place ∈ sub.places, op = place.1) ∨ op.Quiet ∧ op ≠ .flushNested 0

theorem Plan.Runs.needsHost (h : plan.Runs op) (hflush : ∀ s, op ≠ .flushNested s) :
    op.needsHost = false ∧ op.bound? = none := by
  rcases h with ⟨sub, -, place, hplace, rfl⟩ | ⟨hquiet, -⟩
  · cases sub with
    | element head children =>
      obtain ⟨a, -, rfl⟩ := List.mem_map.mp hplace
      exact ⟨a.1.needsHost_op _ _, by cases a.1 <;> rfl⟩
    | text slot spec =>
      cases List.mem_singleton.mp hplace
      exact ⟨rfl, rfl⟩
  · cases op with
    | flushNested s => exact absurd rfl (hflush s)
    | attach _ _ | connect _ _ _ | appendChild _ _ => exact ⟨rfl, rfl⟩
    | _ => exact hquiet.elim

theorem Op.Quiet.ne_place (h : op.Quiet) (hplace : place ∈ sub.places) : place.1 ≠ op := by
  rintro rfl
  cases sub with
  | element head children =>
    obtain ⟨⟨target, spec⟩, -, rfl⟩ := List.mem_map.mp hplace
    cases target <;> exact h
  | text slot spec =>
    cases List.mem_singleton.mp hplace
    exact h

theorem hostTo_flush_plain {result : Except Fault Nat} (hn : p.isCustom n = false)
    (h : (hostTo depth).flush n p = some (result, q)) : q = p := by
  cases depth with
  | zero => cases h
  | succ depth =>
    have hnone : p.custom? n = none := Option.isSome_eq_false_iff.mp hn |> Option.isNone_iff_eq_none.mp
    cases (flushWith_plain hnone).symm.trans h
    rfl

namespace Instance

/-- Every node below the root shows the present values of its specs, as far as they do not fail and their
instructions are not due. -/
def Shows (i : Instance) (plan : Plan) (due : Op → List String → Prop) (p : Page) : Prop :=
  ∀ sub ∈ plan.preorder, sub.slot ≠ 0 → ∀ n, i.node? sub.slot = some n → ∃ kind,
    p.document.kind? n = some kind ∧
      sub.ShownBy i.component (Settled (p.component i.component).get due) kind

/-- The nodes below the root are plain nodes, and what is written to the root reaches no component. -/
structure Sheltered (i : Instance) (p : Page) : Prop where
  injective : ∀ s s' n, i.node? s = some n → i.node? s' = some n → s = s'
  plain : ∀ s n, s ≠ 0 → i.node? s = some n → p.isCustom n = false
  root : ∀ n, i.node? 0 = some n → p.IsBusy n ∨ p.isCustom n = false
  free : p.access i.component = .free

variable {strict : Prop} {i : Instance} {due due' : Op → List String → Prop}

theorem Shows.mono (h : i.Shows plan due p)
    (hkinds : ∀ s n, s ≠ 0 → i.node? s = some n → q.document.kind? n = p.document.kind? n)
    (hplaces : ∀ sub ∈ plan.preorder, sub.slot ≠ 0 → ∀ place ∈ sub.places, ∀ shown,
      Settled (p.component i.component).get due place shown →
        Settled (q.component i.component).get due' place shown) : i.Shows plan due' q := by
  intro sub hsub hs n hn
  obtain ⟨kind, hkind, hshown⟩ := h sub hsub hs n hn
  exact ⟨kind, (hkinds _ n hs hn).trans hkind, hshown.mono (hplaces sub hsub hs)⟩

theorem Sheltered.steady (h : i.Sheltered p) (hq : p.Steady q) : i.Sheltered q where
  injective := h.injective
  plain s n hs hn := (hq.isCustom n).trans (h.plain s n hs hn)
  root n hn := (h.root n hn).imp (hq.isBusy n).mpr (hq.isCustom n).trans
  free := (hq.access _).trans h.free

theorem Sheltered.states (h : i.Sheltered p) {s : Slot} (hn : i.node? s = some n) (ht : p.Touched n q)
    (c : ComponentId) : (q.component c).state = (p.component c).state := by
  by_contra hne
  obtain ⟨hfree, w, hw, -⟩ := ht.components c hne
  have hcustom : p.isCustom n ≠ false := by
    rw [Page.isCustom_of_widget? hw]
    exact Bool.noConfusion
  by_cases hs : s = 0
  · subst hs
    exact (h.root n hn).elim hfree hcustom
  · exact hcustom (h.plain s n hs hn)

/-- What a node shows does not depend on its listeners. -/
theorem execLocal_quiet (hop : op.Quiet) (i : Instance) (p : Page) {kind : NodeKind}
    (h : p.document.kind? n = some kind) :
    ∃ kind', (i.execLocal op p).2.document.kind? n = some kind' ∧
      ∀ (sub : Plan) (owner : ComponentId) (good : Op × ValueSpec → Option Value → Prop),
        sub.ShownBy owner good kind → sub.ShownBy owner good kind' := by
  have hsame : ∀ {q : Page}, q.document.kind? n = p.document.kind? n → ∃ kind',
      q.document.kind? n = some kind' ∧
        ∀ (sub : Plan) (owner : ComponentId) (good : Op × ValueSpec → Option Value → Prop),
          sub.ShownBy owner good kind → sub.ShownBy owner good kind' :=
    fun hq => ⟨kind, hq.trans h, fun _ _ _ hshown => hshown⟩
  obtain ⟨run, hrun, heq⟩ := i.execLocal_runs op p
  rw [heq]
  cases hrun with
  | nothing _ => exact hsame rfl
  | skip _ f => exact hsame rfl
  | attach name hn => exact hsame rfl
  | @listener _ m event handler hm =>
    by_cases hnm : n = m
    · subst hnm
      refine ⟨_, p.document.kind?_modifyNode_self (fun kind _ _ => ?_) h, fun sub owner good hshown => ?_⟩
      · cases kind <;> rfl
      · cases kind with
        | text s => exact hshown
        | element e =>
          cases sub with
          | text slot spec => exact hshown
          | element head children => exact hshown
    · exact hsame (p.document.kind?_modifyNode_of_ne hnm _)
  | child ha hb =>
    simp only [Page.append]
    split
    · exact hsame (p.document.kind?_append _ _ n)
    · exact hsame rfl
  | _ => exact hop.elim

theorem exec_flush_inner {s : Slot} (h : i.Sheltered p) (hop : plan.Runs (.flushNested s))
    (hexec : i.exec (hostTo depth) (.flushNested s) p = some (step, q)) : q = p := by
  rcases exec_flushNested.mp hexec with ⟨_, -, -, rfl⟩ | ⟨n, result, hn, hresult, -⟩
  · rfl
  · have hs : s ≠ 0 := by
      rintro rfl
      rcases hop with ⟨sub, -, place, hplace, heq⟩ | ⟨-, hne⟩
      · exact Plan.place_ne_flush hplace 0 heq.symm
      · exact hne rfl
    exact hostTo_flush_plain (h.plain s n hs (node_eq_ok.mp hn)) hresult

/-- An instruction of one node writes to that node, if it does anything. -/
theorem exec_inner (hp : p.WellNested strict) (h : i.Sheltered p) (hop : plan.Runs op)
    (hexec : i.exec (hostTo depth) op p = some (step, q)) : q = p ∨ ∃ n, i.node? op.slot = some n ∧ p.Touched n q := by
  by_cases hflush : ∃ s, op = .flushNested s
  · obtain ⟨s, rfl⟩ := hflush
    exact Or.inl (exec_flush_inner h hop hexec)
  · obtain ⟨hneeds, hbound⟩ := hop.needsHost fun s heq => hflush ⟨s, heq⟩
    have heffect := i.execLocal_touched hp hbound
    rw [(exec_local hneeds).mp hexec] at heffect
    exact heffect.imp id fun ⟨n, hn, ht, _⟩ => ⟨n, hn, ht⟩

theorem exec_inner_steady (hp : p.WellNested strict) (h : i.Sheltered p) (hop : plan.Runs op)
    (hexec : i.exec (hostTo depth) op p = some (step, q)) :
    p.Steady q ∧ ∀ c, (q.component c).state = (p.component c).state := by
  rcases exec_inner hp h hop hexec with rfl | ⟨n, hn, ht⟩
  · exact ⟨.refl _, fun _ => rfl⟩
  · exact ⟨ht.steady, h.states hn ht⟩

/-- The change of one node settles an instruction of it, if it does so in the node. -/
theorem Shows.modifyNode (hshows : i.Shows plan due p) (h : i.Sheltered p) (hnum : plan.NumberedFrom 0)
    (hsub : sub ∈ plan.preorder) (hn : i.node? sub.slot = some n) {f : Node → Node}
    (hf : ∀ kind parent children, (f ⟨kind, parent, children⟩).kind = (f ⟨kind, none, []⟩).kind)
    (hop : op.slot = sub.slot)
    (hnode : ∀ kind, sub.ShownBy i.component (Settled (p.component i.component).get due) kind →
      sub.ShownBy i.component (Settled (p.component i.component).get fun o deps => due o deps ∧ o ≠ op)
        (f ⟨kind, none, []⟩).kind) :
    i.Shows plan (fun o deps => due o deps ∧ o ≠ op)
      { p with document := p.document.modifyNode n f } := by
  intro sub' hsub' hs' m hm
  obtain ⟨kind, hkind, hshown⟩ := hshows sub' hsub' hs' m hm
  by_cases hslot : sub'.slot = sub.slot
  · obtain rfl := Plan.eq_of_slot hnum hsub' hsub hslot
    rw [hn] at hm
    cases hm
    exact ⟨_, p.document.kind?_modifyNode_self hf hkind, hnode kind hshown⟩
  · have hne : m ≠ n := by
      rintro rfl
      exact hslot (h.injective _ _ m hm hn)
    refine ⟨kind, (p.document.kind?_modifyNode_of_ne hne f).trans hkind, hshown.mono fun place hplace _ hsettled => ?_⟩
    -- the instruction is none of this node's
    refine hsettled.imp_left fun hdue => ⟨hdue, fun heq => hslot ?_⟩
    rw [← Plan.slot_of_place hplace, heq, hop]

/-- An instruction whose node is missing or whose value fails changes nothing. -/
theorem exec_place_skipped {host : Host} (hplace : place ∈ sub.places)
    (h : i.node? sub.slot = none ∨ ∃ f, p.eval i.component place.2.value.formula = .error f)
    (hexec : i.exec host place.1 p = some (step, q)) : q = p := by
  have hcases : ∀ s, sub.slot = s → (∃ f, i.node s = .error f) ∨
      ∃ n f, i.node s = .ok n ∧ p.eval i.component place.2.value.formula = .error f := by
    rintro s rfl
    cases hn : i.node sub.slot with
    | error f => exact Or.inl ⟨f, rfl⟩
    | ok n =>
      rw [node_eq_ok.mp hn] at h
      obtain ⟨f, hf⟩ := h.resolve_left nofun
      exact Or.inr ⟨n, f, rfl, hf⟩
  cases sub with
  | element head children =>
    obtain ⟨⟨target, spec⟩, -, rfl⟩ := List.mem_map.mp hplace
    have hlocal := (exec_local (target.needsHost_op _ _)).mp hexec
    rcases hcases head.slot rfl with ⟨f, hf⟩ | ⟨n, f, hn, hf⟩
    · cases target <;> simp only [Target.op, execLocal, hf, skip] at hlocal <;> cases hlocal <;> rfl
    · rw [execLocal_target_error target hn hf] at hlocal
      cases hlocal
      rfl
  | text slot spec =>
    cases List.mem_singleton.mp hplace
    have hlocal := (exec_local rfl).mp hexec
    rcases hcases slot rfl with ⟨f, hf⟩ | ⟨n, f, hn, hf⟩
    · simp only [execLocal, hf, skip] at hlocal
      cases hlocal
      rfl
    · simp only [execLocal, hn, hf, skip] at hlocal
      cases hlocal
      rfl

theorem Shows.skipped (hshows : i.Shows plan due p) (hplace : place ∈ sub.places)
    (h : i.node? sub.slot = none ∨ ∃ f, place.2.evalIn (p.component i.component).get = .error f) :
    i.Shows plan (fun o deps => due o deps ∧ o ≠ place.1) p := by
  intro sub' hsub' hs' n hn
  obtain ⟨kind, hkind, hshown⟩ := hshows sub' hsub' hs' n hn
  refine ⟨kind, hkind, hshown.mono fun place' hplace' shown hsettled => ?_⟩
  by_cases hsame : place'.1 = place.1
  · rcases h with hnone | ⟨f, hf⟩
    · rw [← Plan.slot_of_place hplace, ← hsame, Plan.slot_of_place hplace', hn] at hnone
      cases hnone
    · -- the instruction fixes the value, so a place that shares it fails as well
      refine Or.inr fun v hv => ?_
      rw [ValueSpec.evalIn, Plan.value_of_place hplace' hplace hsame] at hv
      cases hf.symm.trans hv
  · exact hsettled.imp_left fun hdue => ⟨hdue, hsame⟩

/-- Running the instruction of a value below the root settles it. -/
theorem exec_place {host : Host} (h : i.Sheltered p) (hplan : i.template.Planned plan) (hsub : sub ∈ plan.preorder)
    (hs : sub.slot ≠ 0) (hplace : place ∈ sub.places) (hinert : plan.CallbackFree (p.component i.component).get)
    (hshows : i.Shows plan due p) (hexec : i.exec host place.1 p = some (step, q)) :
    i.Shows plan (fun o deps => due o deps ∧ o ≠ place.1) q := by
  have hslot := Plan.slot_of_place hplace
  have heval := Page.eval_of_free h.free (hplan.language sub hsub hs place hplace)
  cases hn : i.node? sub.slot with
  | none =>
    rw [exec_place_skipped hplace (Or.inl hn) hexec]
    exact hshows.skipped hplace (Or.inl hn)
  | some n =>
    have hnode := node_eq_ok.mpr hn
    cases hv : place.2.evalIn (p.component i.component).get with
    | error f =>
      rw [exec_place_skipped hplace (Or.inr ⟨f, heval.trans hv⟩) hexec]
      exact hshows.skipped hplace (Or.inr ⟨f, hv⟩)
    | ok v =>
      have hvinert := hinert sub hsub hs place hplace v hv
      cases sub with
      | element head children =>
        obtain ⟨a, ha, rfl⟩ := List.mem_map.mp hplace
        obtain ⟨edit, hlocal⟩ := execLocal_target_ok a.1 (h.plain _ n hs hn) hnode (heval.trans hv)
        cases hlocal.symm.trans ((exec_local (a.1.needsHost_op _ _)).mp hexec)
        refine hshows.modifyNode h hplan.numbered hsub hn (fun kind _ _ => ?_) hslot fun kind hkind => ?_
        · cases kind <;> rfl
        · cases kind with
          | text s => exact hkind.elim
          | element e => exact hkind.write (hplan.separate _ hsub hs) ha hv hvinert
      | text slot spec =>
        cases List.mem_singleton.mp hplace
        change i.node slot = .ok n at hnode
        have hlocal : i.execLocal (.setText slot spec.value) p =
            (⟨i, none, some (.setText n v.display)⟩, p.setText n v.display) := by
          simp only [execLocal, hnode, heval.trans hv]
        cases hlocal.symm.trans ((exec_local rfl).mp hexec)
        refine hshows.modifyNode h hplan.numbered hsub hn (fun kind _ _ => ?_) hslot fun kind hkind => ?_
        · cases kind <;> rfl
        · cases kind with
          | element e => exact hkind.elim
          | text s => exact Plan.ShownBy.setText hv

theorem exec_shows (hp : p.WellNested strict) (h : i.Sheltered p) (hplan : i.template.Planned plan)
    (hop : plan.Runs op) (hinert : plan.CallbackFree (p.component i.component).get) (hshows : i.Shows plan due p)
    (hexec : i.exec (hostTo depth) op p = some (step, q)) : i.Shows plan (fun o deps => due o deps ∧ o ≠ op) q := by
  have hread : (q.component i.component).get = (p.component i.component).get :=
    Component.get_congr (Component.props_of_state ((exec_inner_steady hp h hop hexec).2 i.component))
  rcases id hop with ⟨sub, hsub, place, hplace, rfl⟩ | ⟨hquiet, -⟩
  · by_cases hs : sub.slot = 0
    · -- the instruction belongs to the root
      have hslot := (Plan.slot_of_place hplace).trans hs
      refine hshows.mono (fun s n hs' hn => ?_) fun sub' hsub' hs' place' hplace' shown hsettled => ?_
      · rcases exec_inner hp h hop hexec with rfl | ⟨m, hm, ht⟩
        · rfl
        · refine ht.kinds n ?_
          rintro rfl
          rw [hslot] at hm
          exact hs' (h.injective s 0 n hn hm)
      · rw [hread]
        refine hsettled.imp_left fun hdue => ⟨hdue, fun heq => hs' ?_⟩
        rw [← Plan.slot_of_place hplace', heq, hslot]
    · exact exec_place h hplan hsub hs hplace hinert hshows hexec
  · intro sub hsub hs n hn
    obtain ⟨kind, hkind, hshown⟩ := hshows sub hsub hs n hn
    have hdue : ∀ place ∈ sub.places, ∀ shown, Settled (p.component i.component).get due place shown →
        Settled (p.component i.component).get (fun o deps => due o deps ∧ o ≠ op) place shown :=
      fun place hplace shown hsettled => hsettled.imp_left fun hdue => ⟨hdue, hquiet.ne_place hplace⟩
    rw [hread]
    by_cases hflush : ∃ s, op = .flushNested s
    · obtain ⟨s, rfl⟩ := hflush
      rw [exec_flush_inner h hop hexec]
      exact ⟨kind, hkind, hshown.mono hdue⟩
    · have hlocal := (exec_local (hop.needsHost fun s heq => hflush ⟨s, heq⟩).1).mp hexec
      obtain ⟨kind', hkind', hkept⟩ := execLocal_quiet hquiet i p hkind
      rw [hlocal] at hkind'
      exact ⟨kind', hkind', (hkept sub _ _ hshown).mono hdue⟩

end Instance

end LiveMarkup
