import LiveMarkup.Proofs.Targets

namespace LiveMarkup

variable {t : Target} {memory : Memory} {v : Value} {owner : ComponentId} {targets : List Target}

deriving instance DecidableEq for Target

theorem Target.Apart.ne {t' : Target} (h : t.Apart t') : t ≠ t' := by
  rintro rfl
  cases t with
  | property path => exact h.1 _ rfl rfl
  | attr name => exact h.2 _ rfl rfl

/-- The values last written to the targets of an element. -/
abbrev Memory := Target → Option Value

def Memory.Inert (memory : Memory) : Prop :=
  ∀ t v, memory t = some v → v.Inert

def Memory.write (memory : Memory) (t : Target) (v : Value) : Memory :=
  fun t' => if t' = t then some v else memory t'

theorem Memory.Inert.write (h : memory.Inert) (hv : v.Inert) : (memory.write t v).Inert := by
  intro t' v' heq
  unfold Memory.write at heq
  split at heq
  · cases heq
    exact hv
  · exact h t' v' heq

namespace Element

/-- The element after the remembered values have been written to its targets. -/
def replay (owner : ComponentId) (memory : Memory) (e : Element) : List Target → Element
  | [] => e
  | t :: rest =>
    match memory t with
    | some v => (e.write owner t v).replay owner memory rest
    | none => e.replay owner memory rest

theorem replay_congr {memory' : Memory} (h : ∀ t ∈ targets, memory t = memory' t) (e : Element) :
    e.replay owner memory targets = e.replay owner memory' targets := by
  induction targets generalizing e with
  | nil => rfl
  | cons t rest ih =>
    have hrest := ih fun t' ht' => h t' (List.mem_cons_of_mem _ ht')
    simp only [replay, h t List.mem_cons_self, hrest]

/-- A write to a target apart from all others may as well come first. -/
theorem replay_write_apart (hmemory : memory.Inert) (hv : v.Inert) (h : ∀ t' ∈ targets, t.Apart t') (e : Element) :
    (e.replay owner memory targets).write owner t v = (e.write owner t v).replay owner memory targets := by
  induction targets generalizing e with
  | nil => rfl
  | cons t' rest ih =>
    have hrest := ih fun t'' ht'' => h t'' (List.mem_cons_of_mem _ ht'')
    unfold replay
    cases hm : memory t' with
    | none => exact hrest e
    | some w =>
      have hcomm := write_comm owner e (h t' List.mem_cons_self) hv (hmemory t' w hm)
      simp only [hrest, hcomm]

/-- A further write to one of the targets changes what is remembered of it, and nothing else. -/
theorem replay_write (hmemory : memory.Inert) (hv : v.Inert) (h : targets.Pairwise Target.Apart) (ht : t ∈ targets)
    (e : Element) : (e.replay owner memory targets).write owner t v = e.replay owner (memory.write t v) targets := by
  induction targets generalizing e with
  | nil => exact absurd ht List.not_mem_nil
  | cons t' rest ih =>
    obtain ⟨hhead, hrest⟩ := List.pairwise_cons.mp h
    rcases List.mem_cons.mp ht with rfl | ht
    · have hsame : ∀ e : Element, e.replay owner memory rest = e.replay owner (memory.write t v) rest :=
        replay_congr fun t' ht' => by rw [Memory.write, if_neg (hhead t' ht').ne.symm]
      have hwritten : memory.write t v t = some v := if_pos rfl
      simp only [replay, hwritten, ← hsame]
      -- the new write moves past the later ones to the front, where it replaces the remembered one
      cases hm : memory t with
      | none => exact replay_write_apart hmemory hv hhead e
      | some w =>
        rw [replay_write_apart hmemory hv hhead, write_write_self owner e t (hmemory t w hm) hv]
    · have hkept : memory.write t v t' = memory t' := if_neg (hhead t ht).ne
      simp only [replay, hkept]
      cases memory t' <;> exact ih hrest ht _

/-- The element without its listeners. -/
def bare (e : Element) : Element :=
  { e with listeners := [] }

theorem bare_write (owner : ComponentId) (e : Element) (t : Target) (hv : v.Inert) :
    (e.write owner t v).bare = e.bare.write owner t v := by
  rw [write_eq owner e t hv, write_eq owner e.bare t hv]
  rfl

end Element

end LiveMarkup
