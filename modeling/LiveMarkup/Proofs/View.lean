import LiveMarkup.Proofs.Layout
import LiveMarkup.Proofs.PageState
import LiveMarkup.Proofs.Shown

namespace LiveMarkup

/-- A template as it was built for a component. -/
structure View where
  inst : Instance
  plan : Plan
  off : Nat
  numbered : plan.NumberedFrom 0
  bound : ∀ sub ∈ plan.preorder, inst.node sub.slot = .ok (off + sub.slot)
  steps : inst.template.refresh = plan.refresh
  separate : ∀ sub ∈ plan.preorder, sub.Separate
  language : ∀ sub ∈ plan.preorder, ∀ place ∈ sub.places,
    place.2.FromLanguage ∧ place.2.value.formula.CallbackFree

theorem Target.needsHost_op (target : Target) (s : Slot) (value : Computation) :
    (target.op s value).needsHost = false := by
  cases target <;> rfl

/-- Changing one node of those that a document holds, where it stands. -/
theorem Document.Holds.modifyNode {d : Document} {off : Nat} {kind : Plan → NodeKind} {plans : List Plan}
    (h : d.Holds off kind plans) (s : Nat) {f : Node → Node}
    (hf : ∀ kind parent children, f ⟨kind, parent, children⟩ = ⟨(f ⟨kind, none, []⟩).kind, parent, children⟩) :
    (d.modifyNode (off + s) f).Holds off
      (fun sub => if s = sub.slot then (f ⟨kind sub, none, []⟩).kind else kind sub) plans := by
  intro sub hsub
  obtain ⟨parent, hnode⟩ := h sub hsub
  refine ⟨parent, ?_⟩
  rw [Document.modifyNode, Array.getElem?_modify, hnode]
  by_cases hs : s = sub.slot
  · simp only [hs, ↓reduceIte, Option.map_some, hf (kind sub) parent]
  · have hne : ¬off + s = off + sub.slot := fun heq => hs (Nat.add_left_cancel heq)
    simp only [hs, hne, ↓reduceIte]

theorem Page.eval_of_free {p : Page} {c : ComponentId} (h : p.access c = .free) {spec : ValueSpec}
    (hspec : spec.FromLanguage) : p.eval c spec.value.formula = spec.evalIn (p.component c).get := by
  have hshared : p.access c ≠ .exclusive := by simp [h]
  rw [Page.eval, if_neg hshared]
  exact hspec.ofProperties _ _ rfl

/-- A formula of properties does not see other changes of a component. -/
theorem Page.eval_modifyComponent {formula : Formula} (h : formula.OfProperties) {f : Component → Component}
    (hf : ∀ x, (f x).props = x.props) (p : Page) (c : ComponentId) :
    (p.modifyComponent c f).eval c formula = p.eval c formula := by
  rw [eval, access_modifyComponent, eval]
  refine if_congr Iff.rfl rfl (h _ _ ?_)
  exact Component.get_congr (modifyComponent_frame (g := Component.props) hf p c c)

theorem Page.eval_exposing {formula : Formula} (h : formula.OfProperties) (p : Page) (c : ComponentId)
    (points : Dict NodeId) : (p.exposing c points).eval c formula = p.eval c formula :=
  eval_modifyComponent (f := ({ · with attachPoints := points })) h (fun _ => rfl) p c

namespace View

/-- The properties the template reads. -/
def read (x : View) (p : Page) : String → Value :=
  (p.component x.inst.component).get

/-- Every place shows the present value of its spec, unless the spec fails or the place is due. -/
def Shows (x : View) (p : Page) (due : Op → List String → Prop) : Prop :=
  ∃ kind, p.document.Holds x.off kind x.plan.preorder ∧
    ∀ sub ∈ x.plan.preorder, sub.ShownBy x.inst.component (Settled (x.read p) due) (kind sub)

/-- On the page nothing keeps the template from being refreshed, and no callback can be read. -/
structure Ready (x : View) (p : Page) : Prop where
  plain : p.Plain
  free : p.access x.inst.component = .free
  inert : ∀ n, (x.read p n).Inert

variable {x : View} {p q : Page} {due due' : Op → List String → Prop}

theorem read_sameState (h : p.SameState q) : x.read q = x.read p :=
  Component.get_congr (h.props _)

theorem Ready.sameState (h : x.Ready p) (hsame : p.SameState q) : x.Ready q :=
  ⟨hsame.plain h.plain, (hsame.access _).trans h.free, by rw [read_sameState hsame]; exact h.inert⟩

theorem Ready.eval (h : x.Ready p) {spec : ValueSpec} (hspec : spec.FromLanguage) :
    p.eval x.inst.component spec.value.formula = spec.evalIn (x.read p) :=
  Page.eval_of_free h.free hspec

theorem Shows.mono (h : x.Shows p due) (hdocument : q.document = p.document)
    (hplaces : ∀ sub ∈ x.plan.preorder, ∀ place ∈ sub.places, ∀ shown,
      Settled (x.read p) due place shown → Settled (x.read q) due' place shown) : x.Shows q due' := by
  obtain ⟨kind, hheld, hshown⟩ := h
  rw [← hdocument] at hheld
  exact ⟨kind, hheld, fun sub hsub => (hshown sub hsub).mono (hplaces sub hsub)⟩

/-- The change of one node settles an instruction of it, if it does so in the node. -/
theorem Shows.modifyNode (h : x.Shows p due) (hread : x.read q = x.read p) {sub : Plan}
    (hsub : sub ∈ x.plan.preorder) {f : Node → Node}
    (hq : q.document = p.document.modifyNode (x.off + sub.slot) f)
    (hf : ∀ kind parent children, f ⟨kind, parent, children⟩ = ⟨(f ⟨kind, none, []⟩).kind, parent, children⟩)
    {op : Op} (hop : op.slot = sub.slot)
    (hnode : ∀ kind, sub.ShownBy x.inst.component (Settled (x.read p) due) kind →
      sub.ShownBy x.inst.component (Settled (x.read p) fun op' deps => due op' deps ∧ op' ≠ op)
        (f ⟨kind, none, []⟩).kind) :
    x.Shows q fun op' deps => due op' deps ∧ op' ≠ op := by
  obtain ⟨kind, hheld, hshown⟩ := h
  have hafter := hheld.modifyNode sub.slot hf
  rw [← hq] at hafter
  refine ⟨_, hafter, fun sub' hsub' => ?_⟩
  rw [hread]
  by_cases hslot : sub.slot = sub'.slot
  · obtain rfl := Plan.eq_of_slot x.numbered hsub hsub' hslot
    rw [if_pos rfl]
    exact hnode _ (hshown sub hsub)
  · -- all other nodes keep their values, and the instruction is none of theirs
    rw [if_neg hslot]
    refine (hshown sub' hsub').mono fun place hplace shown hsettled => hsettled.imp_left fun hdue => ⟨hdue, ?_⟩
    rintro rfl
    exact hslot (hop.symm.trans (Plan.slot_of_place hplace))

/-- An instruction whose value fails changes nothing. -/
theorem exec_error (host : Host) {sub : Plan} (hsub : sub ∈ x.plan.preorder) {place : Op × ValueSpec}
    (hplace : place ∈ sub.places) {f : Fault}
    (hf : p.eval x.inst.component place.2.value.formula = .error f) :
    x.inst.exec host place.1 p = some (⟨x.inst, some f, none⟩, p) := by
  have hbound := x.bound sub hsub
  cases sub with
  | element head children =>
    obtain ⟨a, -, rfl⟩ := List.mem_map.mp hplace
    exact (Instance.exec_local (a.1.needsHost_op _ _)).mpr (Instance.execLocal_target_error a.1 hbound hf)
  | text slot spec =>
    cases List.mem_singleton.mp hplace
    refine (Instance.exec_local rfl).mpr ?_
    change x.inst.node slot = .ok (x.off + slot) at hbound
    simp only [Instance.execLocal, hbound, hf, Instance.skip]

theorem exec_ok (host : Host) (hready : x.Ready p) (h : x.Shows p due) {sub : Plan}
    (hsub : sub ∈ x.plan.preorder) {place : Op × ValueSpec} (hplace : place ∈ sub.places) {v : Value}
    (hv : place.2.evalIn (x.read p) = .ok v) :
    ∃ step q, x.inst.exec host place.1 p = some (step, q) ∧ p.SameState q ∧
      x.Shows q fun op deps => due op deps ∧ op ≠ place.1 := by
  have hbound := x.bound sub hsub
  have hop := Plan.slot_of_place hplace
  have heval := (hready.eval (x.language _ hsub _ hplace).1).trans hv
  cases sub with
  | element head children =>
    obtain ⟨a, ha, rfl⟩ := List.mem_map.mp hplace
    obtain ⟨edit, hexec⟩ := Instance.execLocal_target_ok a.1 (hready.plain.isCustom _) hbound heval
    have hinert := ValueSpec.evalIn_inert (x.language _ hsub _ hplace).2 hready.inert hv
    refine ⟨_, _, (Instance.exec_local (a.1.needsHost_op _ _)).mpr hexec, .document p _, ?_⟩
    refine h.modifyNode (read_sameState (.document p _)) hsub rfl ?_ hop ?_
    · intro kind parent children
      cases kind <;> rfl
    · intro kind hkind
      cases kind with
      | text s => exact hkind.elim
      | element e => exact hkind.write (x.separate _ hsub) ha hv hinert
  | text slot spec =>
    cases List.mem_singleton.mp hplace
    change x.inst.node slot = .ok (x.off + slot) at hbound
    have hexec : x.inst.execLocal (.setText slot spec.value) p =
        (⟨x.inst, none, some (.setText (x.off + slot) v.display)⟩, p.setText (x.off + slot) v.display) := by
      simp only [Instance.execLocal, hbound, heval]
    refine ⟨_, _, (Instance.exec_local rfl).mpr hexec, .document p _, ?_⟩
    refine h.modifyNode (read_sameState (.document p _)) hsub rfl ?_ hop ?_
    · intro kind parent children
      cases kind <;> rfl
    · intro kind hkind
      cases kind with
      | element e => exact hkind.elim
      | text s => exact Plan.ShownBy.setText hv

/-- Running a step of the refresh settles what it shows, and changes nothing else. -/
theorem exec_step {host : Host} (hserves : host.ServesPlain) (hready : x.Ready p) (h : x.Shows p due)
    {step : RefreshStep} (hstep : step ∈ x.plan.refresh) :
    ∃ done q, x.inst.exec host step.op p = some (done, q) ∧ p.SameState q ∧
      x.Shows q fun op deps => due op deps ∧ op ≠ step.op := by
  obtain ⟨sub, hsub, ⟨place, hplace, hop⟩ | ⟨hop, -⟩⟩ := Plan.refresh_cases hstep
  · rw [hop]
    cases hv : place.2.evalIn (x.read p) with
    | ok v => exact exec_ok host hready h hsub hplace hv
    | error f =>
      refine ⟨_, p, exec_error host hsub hplace
        ((hready.eval (x.language _ hsub _ hplace).1).trans hv), .refl p, ?_⟩
      refine h.mono rfl fun sub' hsub' place' hplace' shown hsettled => ?_
      by_cases hsame : place'.1 = place.1
      · -- the instruction fixes the value, so a place that shares it fails as well
        refine Or.inr fun v hv' => ?_
        rw [ValueSpec.evalIn, Plan.value_of_place hplace' hplace hsame] at hv'
        cases hv.symm.trans hv'
      · exact hsettled.imp_left fun hdue => ⟨hdue, hsame⟩
  · rw [hop]
    refine ⟨_, p, Instance.exec_flushNested.mpr
      (Or.inr ⟨_, .ok 0, x.bound sub hsub, hserves.flush _ p hready.plain, rfl⟩), .refl p, ?_⟩
    refine h.mono rfl fun sub' hsub' place' hplace' shown hsettled => hsettled.imp_left fun hdue => ⟨hdue, ?_⟩
    exact Plan.place_ne_flush hplace' _

end View

end LiveMarkup
