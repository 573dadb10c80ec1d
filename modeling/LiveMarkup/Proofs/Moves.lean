import LiveMarkup.Proofs.Changes
import LiveMarkup.Proofs.RefreshFrame

namespace LiveMarkup

/-- What can happen to a template between its building and the last delivery. -/
inductive Move where
  | set (name : String) (v : Value)
  | notify (name : String)
  | dispatch (n : NodeId) (kind : String) (detail : Value)
  | deliver

/-- A move of the component of an instance, or of the instance itself. -/
def Move.run (i : Instance) : Move → Act Unit
  | .set name v => modify (·.modifyComponent i.component (·.set name v))
  | .notify name => modify (·.modifyComponent i.component (·.notify name))
  | .dispatch n kind detail => do
    let _ ← LiveMarkup.dispatch n kind detail
  | .deliver => do
    let _ ← withHost fun host => i.deliver host

def runMoves (i : Instance) : List Move → Act Unit
  | [] => return
  | m :: rest => do
    m.run i
    runMoves i rest

/-- No callback is set or sent, and an event meets only handlers that assign to a property. -/
def Move.Admissible (d : Document) (c : ComponentId) : Move → Prop
  | .set _ v => v.Inert
  | .dispatch n kind detail => detail.Inert ∧ ∀ l ∈ d.listenersFor n kind, l.Assigns c
  | _ => True

theorem Move.Admissible.of_shape {d d' : Document} {c : ComponentId} {m : Move} (hm : m.Admissible d c)
    (hshape : d'.shape = d.shape) : m.Admissible d' c := by
  cases m with
  | dispatch n kind detail =>
    refine ⟨hm.1, ?_⟩
    rw [Document.listenersFor_of_shape hshape]
    exact hm.2
  | _ => exact hm

theorem Page.Plain.widgetsOnly {p : Page} (h : p.Plain) : p.WidgetsOnly where
  defined tag d hd := by
    rw [h.undefined] at hd
    cases hd
  living e he := by
    rw [h.lifeless] at he
    cases he

namespace View

variable {x : View} {p : Page}

theorem Live.deliver (h : x.Live p) (hcompiled : x.inst.template.Compiled) :
    ∃ q, Move.deliver.run x.inst p = some ((), q) ∧ x.Live q ∧ x.UpToDate q ∧
      q.document.shape = p.document.shape := by
  -- two of the rounds are all that is needed
  obtain ⟨report, q, hrun, hlive, hdone, -⟩ := h.deliverRounds (hostTo_servesPlain p.registry.size) 30
  have hkeeps := Instance.deliverRounds_keeps (hostTo_orderly p.nesting) hcompiled h.plain.widgetsOnly hrun
  refine ⟨q, ?_, hlive, hdone, hkeeps.shape trivial⟩
  simp only [Move.run, Act.bind_eq_some, Act.pure_eq_some, withHost_eq_some]
  exact ⟨report, q, hrun, trivial, rfl⟩

/-- Any admissible move returns, and what is not shown as it is stays noted. -/
theorem Live.move (h : x.Live p) (hcompiled : x.inst.template.Compiled) {m : Move}
    (hm : m.Admissible p.document x.inst.component) :
    ∃ q, m.run x.inst p = some ((), q) ∧ x.Live q ∧ q.document.shape = p.document.shape := by
  cases m with
  | set name v => exact ⟨_, Act.modify_eq_some.mpr rfl, h.set name hm, rfl⟩
  | notify name => exact ⟨_, Act.modify_eq_some.mpr rfl, h.notify name, rfl⟩
  | dispatch n kind detail =>
    obtain ⟨result, q, hrun, hlive, hdocument⟩ := h.dispatch hm.1 hm.2
    refine ⟨q, ?_, hlive, congrArg Document.shape hdocument⟩
    simp only [Move.run, Act.bind_eq_some, Act.pure_eq_some]
    exact ⟨result, q, hrun, trivial, rfl⟩
  | deliver =>
    obtain ⟨q, hrun, hlive, -, hshape⟩ := h.deliver hcompiled
    exact ⟨q, hrun, hlive, hshape⟩

/-- However the moves went, a last delivery brings the template up to date. -/
theorem Live.moves (h : x.Live p) (hcompiled : x.inst.template.Compiled) {moves : List Move}
    (hmoves : ∀ m ∈ moves, m.Admissible p.document x.inst.component) :
    ∃ q, runMoves x.inst (moves ++ [.deliver]) p = some ((), q) ∧ x.Live q ∧ x.UpToDate q := by
  induction moves generalizing p with
  | nil =>
    obtain ⟨q, hrun, hlive, hdone, -⟩ := h.deliver hcompiled
    refine ⟨q, ?_, hlive, hdone⟩
    exact Act.bind_eq_some.mpr ⟨(), q, hrun, Act.pure_eq_some.mpr ⟨rfl, rfl⟩⟩
  | cons m rest ih =>
    obtain ⟨p₁, hrun, hlive, hshape⟩ := h.move hcompiled (hmoves m List.mem_cons_self)
    obtain ⟨q, hrest, hq⟩ := ih hlive fun m' hm' =>
      (hmoves m' (List.mem_cons_of_mem _ hm')).of_shape hshape
    exact ⟨q, Act.bind_eq_some.mpr ⟨(), p₁, hrun, hrest⟩, hq⟩

end View

end LiveMarkup
