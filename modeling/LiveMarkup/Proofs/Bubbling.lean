import LiveMarkup.Proofs.OrderedForest
import LiveMarkup.Proofs.QuietScripts
import LiveMarkup.Proofs.TargetWrites

namespace LiveMarkup

variable {p q : Page}

/-- Runs an act on a component that no one else may use meanwhile. -/
def lend (c : ComponentId) (act : Act α) : Act α := do
  modify (·.setAccess c .exclusive)
  let a ← act
  modify (·.setAccess c .free)
  return a

theorem lend_mute (c : ComponentId) {act : Act α} (h : Act.Mute act) : Act.Mute (lend c act) :=
  .bind (Act.mute_modify fun _ _ => rfl) fun _ => .bind h fun a =>
    .bind (Act.mute_modify fun _ _ => rfl) fun _ => Act.mute_pure a

theorem lend_eq_some {c : ComponentId} {act : Act α} {a : α} : lend c act p = some (a, q) ↔
    ∃ p₁, act (p.setAccess c .exclusive) = some (a, p₁) ∧ p₁.setAccess c .free = q := by
  simp only [lend, Act.bind_eq_some, Act.modify_eq_some, Act.pure_eq_some]
  constructor
  · rintro ⟨_, _, rfl, _, p₁, hact, _, _, rfl, rfl, rfl⟩
    exact ⟨p₁, hact, rfl⟩
  · rintro ⟨p₁, hact, rfl⟩
    exact ⟨(), _, rfl, a, p₁, hact, (), _, rfl, rfl, rfl⟩

/-- The listener that a template wires for a handler of its component. -/
def Listener.wired (h : ComponentId × Handler) : Listener :=
  .component h.1 h.2

/-- A component that is held and free is lent to the handler. -/
theorem Listener.run_wired {h : ComponentId × Handler} (hlendable : p.lendable h.1 = .ok ()) (event : Event) :
    (Listener.wired h).run event p = lend h.1 (h.2.run h.1 event) p := by
  change exclusively h.1 (h.2.run h.1 event) p = _
  refine Option.ext fun r => ?_
  obtain ⟨outcome, q⟩ := r
  simp only [exclusively, Act.bind_eq_some, Act.get_eq_some]
  constructor
  · rintro ⟨_, _, ⟨rfl, rfl⟩, hrun⟩
    rw [hlendable] at hrun
    exact hrun
  · intro hrun
    refine ⟨p, p, ⟨rfl, rfl⟩, ?_⟩
    rw [hlendable]
    exact hrun

/-- Whatever a handler did, the components are held and free that were so before. -/
theorem lendable_after_handler {h : ComponentId × Handler} {event : Event} {outcome : Except Fault Unit}
    (hrun : lend h.1 (h.2.run h.1 event) p = some (outcome, q)) {c : ComponentId} (hc : p.lendable c = .ok ()) :
    q.lendable c = .ok () := by
  obtain ⟨p₁, hact, rfl⟩ := lend_eq_some.mp hrun
  have haccess := (Handler.run_undisturbed hact).access
  rw [Page.lendable_iff] at hc ⊢
  constructor
  · rw [Page.attached_setAccess, Handler.run_attached hact, Page.attached_setAccess]
    exact hc.1
  · by_cases hsame : c = h.1
    · rw [hsame]
      exact Page.access_setAccess_free _ _
    · rw [Page.access_setAccess_of_ne _ hsame, haccess, Page.access_setAccess_of_ne _ hsame]
      exact hc.2

def failure? : Except Fault Unit → Option Fault
  | .ok _ => none
  | .error f => some f

/-- The failures among the outcomes, in order. -/
def failures (outcomes : List (Except Fault Unit)) : List Fault :=
  outcomes.filterMap failure?

namespace Event

/-- What is warned of when a listener fails. -/
def complaint (event : Event) (f : Fault) : String :=
  s!"listener for '{event.kind}' on {nodeText event.target} failed: {f.message}"

/-- The page when a listener has come to an end. -/
def settle (event : Event) (p : Page) : Except Fault Unit → Page
  | .ok _ => p
  | .error f => p.warn (event.complaint f)

theorem settle_withWarnings (event : Event) (p : Page) (w : List String) (outcome : Except Fault Unit) :
    event.settle (p.withWarnings w) outcome =
      p.withWarnings (w ++ (failure? outcome).toList.map event.complaint) := by
  cases outcome with
  | ok u => simp only [settle, failure?, Option.toList, List.map_nil, List.append_nil]
  | error f => rfl

end Event

theorem failures_cons (outcome : Except Fault Unit) (rest : List (Except Fault Unit)) :
    failures (outcome :: rest) = (failure? outcome).toList ++ failures rest := by
  cases outcome <;> rfl

/-- The next listener runs on what the last one has left, whatever came of it. -/
theorem runListeners_cons {event : Event} {l : Listener} {outcome : Except Fault Unit}
    (h : l.run event p = some (outcome, q)) (rest : List Listener) :
    runListeners event (l :: rest) p = (runListeners event rest (event.settle q outcome)).map
      fun r => ((failure? outcome).toList ++ r.1, r.2) := by
  rw [runListeners]
  change (l.run event p).bind _ = _
  rw [h]
  cases outcome with
  | ok u =>
    change runListeners event rest q = (runListeners event rest q).map id
    rw [Option.map_id_fun, id]
  | error f =>
    change (runListeners event rest (event.settle q (.error f))).bind (fun r => some (f :: r.1, r.2)) = _
    exact Option.map_eq_bind.symm

theorem runListeners_cons_none {event : Event} {l : Listener} (h : l.run event p = none) (rest : List Listener) :
    runListeners event (l :: rest) p = none := by
  rw [runListeners]
  change (l.run event p).bind _ = none
  rw [h]
  rfl

/-- Listeners are met one after another, each with what came of it. A failure is warned of, and the next
listener is met all the same. -/
inductive Met (event : Event) : Page → List (Listener × Except Fault Unit) → Page → Prop where
  | done (p : Page) : Met event p [] p
  | next {p p₁ q : Page} {l : Listener} {outcome : Except Fault Unit} {rest : List (Listener × Except Fault Unit)}
      (hrun : l.run event p = some (outcome, p₁)) (hrest : Met event (event.settle p₁ outcome) rest q) :
      Met event p ((l, outcome) :: rest) q

theorem Met.runListeners {event : Event} {met : List (Listener × Except Fault Unit)} (h : Met event p met q) :
    runListeners event (met.map (·.1)) p = some (failures (met.map (·.2)), q) := by
  induction h with
  | done p => rfl
  | @next p p₁ q l outcome rest hrun _ ih =>
    rw [List.map_cons, runListeners_cons hrun, ih, List.map_cons, failures_cons]
    rfl

/-- Running listeners is meeting all of them. -/
theorem runListeners_eq_some {event : Event} {listeners : List Listener} {faults : List Fault} :
    runListeners event listeners p = some (faults, q) ↔
      ∃ met, Met event p met q ∧ met.map (·.1) = listeners ∧ failures (met.map (·.2)) = faults := by
  constructor
  · intro h
    induction listeners generalizing p faults with
    | nil =>
      obtain ⟨rfl, rfl⟩ := Act.pure_eq_some.mp h
      exact ⟨[], .done _, rfl, rfl⟩
    | cons l rest ih =>
      cases hrun : l.run event p with
      | none =>
        rw [runListeners_cons_none hrun] at h
        cases h
      | some r =>
        obtain ⟨outcome, p₁⟩ := r
        rw [runListeners_cons hrun] at h
        obtain ⟨⟨_, _⟩, hrest, h⟩ := Option.map_eq_some_iff.mp h
        obtain ⟨rfl, rfl⟩ := Prod.mk.inj h
        obtain ⟨met, hmet, rfl, rfl⟩ := ih hrest
        exact ⟨(l, outcome) :: met, .next hrun hmet, rfl, failures_cons _ _⟩
  · rintro ⟨met, hmet, rfl, rfl⟩
    exact hmet.runListeners

/-- Runs handlers one after another, each on what the one before has left, whether that failed or not. -/
def runHandlers (event : Event) : List (ComponentId × Handler) → Act (List (Except Fault Unit))
  | [] => return []
  | h :: rest => do
    let outcome ← lend h.1 (h.2.run h.1 event)
    let outcomes ← runHandlers event rest
    return outcome :: outcomes

theorem runHandlers_cons (event : Event) (h : ComponentId × Handler) (rest : List (ComponentId × Handler))
    (p : Page) : runHandlers event (h :: rest) p = (lend h.1 (h.2.run h.1 event) p).bind fun first =>
      (runHandlers event rest first.2).map fun r => (first.1 :: r.1, r.2) := by
  rw [runHandlers]
  change (lend h.1 (h.2.run h.1 event) p).bind (fun first =>
    (runHandlers event rest first.2).bind fun r => some (first.1 :: r.1, r.2)) = _
  simp only [Option.map_eq_bind]
  rfl

/-- Listeners that templates have wired run the handlers, and failures are warned of. -/
theorem runListeners_wired (event : Event) {handlers : List (ComponentId × Handler)} {p : Page}
    (hlendable : ∀ h ∈ handlers, p.lendable h.1 = .ok ()) (w : List String) :
    runListeners event (handlers.map Listener.wired) (p.withWarnings w) =
      (runHandlers event handlers p).map fun r =>
        (failures r.1, r.2.withWarnings (w ++ (failures r.1).map event.complaint)) := by
  induction handlers generalizing p w with
  | nil => exact congrArg (fun w => some ([], p.withWarnings w)) (List.append_nil w).symm
  | cons h rest ih =>
    have hself : (p.withWarnings w).lendable h.1 = .ok () := hlendable h List.mem_cons_self
    have hrun : (Listener.wired h).run event (p.withWarnings w) =
        (lend h.1 (h.2.run h.1 event) p).map fun r => (r.1, r.2.withWarnings w) := by
      rw [Listener.run_wired hself]
      exact lend_mute h.1 (h.2.run_mute h.1 event) p w
    rw [runHandlers_cons, List.map_cons]
    cases hfirst : lend h.1 (h.2.run h.1 event) p with
    | none =>
      rw [hfirst] at hrun
      rw [runListeners_cons_none hrun]
      rfl
    | some first =>
      obtain ⟨outcome, p₁⟩ := first
      rw [hfirst] at hrun
      have hlater : ∀ h ∈ rest, p₁.lendable h.1 = .ok () := fun h hh =>
        lendable_after_handler hfirst (hlendable h (List.mem_cons_of_mem _ hh))
      rw [runListeners_cons hrun, Event.settle_withWarnings, ih hlater]
      simp only [Option.bind_some, Option.map_map]
      congr 1
      funext r
      simp only [Function.comp_apply, failures_cons, List.map_append, List.append_assoc]

namespace Document

variable {d : Document} {n : NodeId}

theorem heardAt_eq_nil_of_le (h : d.size ≤ n) (kind : String) : d.heardAt kind n = [] := by
  have hmissing : d.nodes[n]? = none := Array.getElem?_eq_none h
  simp only [heardAt, listeners, element?, hmissing]
  rfl

/-- A listener is the last of its node to be registered so far, and changes nothing elsewhere. -/
theorem heardAt_addListener {e : Element} (h : d.element? n = some e) (event kind : String) (l : Listener)
    (m : NodeId) : (d.addListener n event l).heardAt kind m =
      d.heardAt kind m ++ if m = n ∧ event = kind then [l] else [] := by
  by_cases hm : m = n
  · have hadded : (d.addListener n event l).element? n = some { e with listeners := e.listeners ++ [(event, l)] } := by
      rw [addListener, element?_modifyElement, h, Option.map_some]
    simp only [hm, heardAt, listeners, hadded, h, Option.map_some, Option.getD_some, List.filter_append,
      List.map_append, true_and]
    by_cases hkind : event = kind <;> simp [hkind]
  · have hsame : (d.addListener n event l).element? m = d.element? m :=
      element?_congr (d.kind?_modifyNode_of_ne hm _)
    simp only [heardAt, listeners, hsame, hm, false_and, if_false, List.append_nil]

/-- The bound on a walk cuts off at most a last node that is not there, where nothing is heard. -/
theorem exists_climbs_chainUpTo (hd : d.Forest) {bound : Nat} {seen : List NodeId} (h : d.Passed seen n)
    (hbound : d.size ≤ bound + seen.length) :
    ∃ path, Climbs d n path ∧
      ∀ kind, (d.chainUpTo bound n).flatMap (d.heardAt kind) = path.flatMap (d.heardAt kind) := by
  induction bound generalizing n seen with
  | zero =>
    have hout : d.size ≤ n := by
      by_contra hn
      have hlength := h.length_lt hd (Nat.lt_of_not_le hn)
      omega
    refine ⟨[n], .top (parent?_eq_none_of_le hout), fun kind => ?_⟩
    rw [List.flatMap_singleton, heardAt_eq_nil_of_le hout]
    rfl
  | succ bound ih =>
    rw [chainUpTo]
    cases hparent : d.parent? n with
    | none => exact ⟨[n], .top hparent, fun kind => rfl⟩
    | some m =>
      have hlength : d.size ≤ bound + (n :: seen).length := by
        rw [List.length_cons]
        omega
      obtain ⟨path, hpath, hheard⟩ := ih (h.step hd hparent) hlength
      refine ⟨n :: path, .step hparent hpath, fun kind => ?_⟩
      rw [List.flatMap_cons, List.flatMap_cons, hheard kind]

/-- An event at a node is heard on the walk up to the root, and nowhere else. -/
theorem exists_climbs_listenersFor (hd : d.Forest) (n : NodeId) :
    ∃ path, Climbs d n path ∧ ∀ kind, d.listenersFor n kind = path.flatMap (d.heardAt kind) :=
  exists_climbs_chainUpTo hd (.nil d n) (Nat.le_refl _)

end Document

theorem dispatch_eq_map (target : NodeId) (kind : String) (detail : Value) (p : Page) :
    dispatch target kind detail p =
      (runListeners ⟨kind, target, detail⟩ (p.document.listenersFor target kind) p).map
        fun r => (⟨(p.document.listenersFor target kind).length, r.1⟩, r.2) := by
  change (runListeners ⟨kind, target, detail⟩ (p.document.listenersFor target kind) p).bind
    (fun r => some ((⟨(p.document.listenersFor target kind).length, r.1⟩ : Dispatch), r.2)) = _
  exact Option.map_eq_bind.symm

/-- An event bubbles from its target to the root. It meets the listeners for its kind along that walk, those of
a node in the order in which they were registered, each of them once and whatever came of the ones before; the
result counts them and lists their failures. When all of them were wired by templates for components that are
held and free, they leave what their handlers leave that run one after another. -/
theorem dispatch_bubbles {p : Page} (hforest : p.document.Forest) (target : NodeId) (kind : String)
    (detail : Value) :
    ∃ path, p.document.Climbs target path ∧ path.Nodup ∧
      (∀ n e event l, p.document.element? n = some e → ∀ m,
        (p.addListener n event l).document.heardAt kind m =
          p.document.heardAt kind m ++ if m = n ∧ event = kind then [l] else []) ∧
      (∀ result q, dispatch target kind detail p = some (result, q) ↔
        ∃ met, Met ⟨kind, target, detail⟩ p met q ∧ met.map (·.1) = path.flatMap (p.document.heardAt kind) ∧
          result = ⟨met.length, failures (met.map (·.2))⟩) ∧
      ((∀ l ∈ path.flatMap (p.document.heardAt kind), l.Returns ⟨kind, target, detail⟩) →
        ∃ result q, dispatch target kind detail p = some (result, q)) ∧
      ∀ handlers, path.flatMap (p.document.heardAt kind) = handlers.map Listener.wired →
        (∀ h ∈ handlers, p.attached h.1 = true ∧ p.access h.1 = .free) →
        dispatch target kind detail p = (runHandlers ⟨kind, target, detail⟩ handlers p).map fun r =>
          (⟨handlers.length, failures r.1⟩,
            r.2.withWarnings (p.warnings ++ (failures r.1).map (Event.complaint ⟨kind, target, detail⟩))) := by
  obtain ⟨path, hpath, hheard⟩ := Document.exists_climbs_listenersFor hforest target
  refine ⟨path, hpath, hpath.distinct hforest, fun n e event l he m => ?_, fun result q => ?_,
    fun hreturns => ?_, fun handlers hwired hfree => ?_⟩
  · exact Document.heardAt_addListener he event kind l m
  · rw [dispatch_eq_map, hheard, Option.map_eq_some_iff]
    constructor
    · rintro ⟨⟨faults, _⟩, hrun, h⟩
      obtain ⟨rfl, rfl⟩ := Prod.mk.inj h
      obtain ⟨met, hmet, hall, rfl⟩ := runListeners_eq_some.mp hrun
      refine ⟨met, hmet, hall, ?_⟩
      rw [← hall, List.length_map]
    · rintro ⟨met, hmet, hall, rfl⟩
      refine ⟨(failures (met.map (·.2)), q), runListeners_eq_some.mpr ⟨met, hmet, hall, rfl⟩, ?_⟩
      rw [← hall, List.length_map]
  · rw [← hheard] at hreturns
    obtain ⟨result, q, hrun, -⟩ := dispatch_returns hreturns
    exact ⟨result, q, hrun⟩
  · have hrun := runListeners_wired ⟨kind, target, detail⟩
      (fun h hh => Page.lendable_iff.mpr (hfree h hh)) p.warnings
    rw [dispatch_eq_map, hheard, hwired, List.length_map]
    change (runListeners _ _ (p.withWarnings p.warnings)).map _ = _
    rw [hrun, Option.map_map]
    rfl

/-- A bell that cracks when it is rung, once its tone is low. -/
def sampleBell : Component :=
  (Component.named "bell").withMethod "ring"
    [.set "tone" (.literal (.text "low")), .stop (.failed "cracked"), .set "tone" (.literal (.text "high"))]

def sampleRing : Handler :=
  .method "ring"

def sampleHearing : Handler :=
  .assign "heard = tone" "heard" (.prop "tone")

/-- A knob in a frame: pressing the knob rings the bell, and the frame keeps the tone. -/
def sampleBellPage : Page :=
  let frame : NodeKind := .element (.ofTag "div" .html)
  let knob : NodeKind := .element (.ofTag "p" .html)
  { (Page.empty.addComponent sampleBell).2 with
    document := (((Document.empty.push frame).push knob).append 0 1).addListener 1 "press" (.component 0 sampleRing)
      |>.addListener 0 "press" (.component 0 sampleHearing) }

theorem sampleBellPage_forest : sampleBellPage.document.Forest := by
  refine Document.Ordered.forest fun n m hparent => ?_
  rcases n with _ | _ | n
  · cases (hparent : none = some m)
  · cases (hparent : some 0 = some m)
    exact Nat.zero_lt_one
  · have hout : sampleBellPage.document.size ≤ n + 2 := Nat.le_add_left 2 n
    rw [Document.parent?_eq_none_of_le hout] at hparent
    cases hparent

theorem sampleBellPage_path {path : List NodeId} (h : sampleBellPage.document.Climbs 1 path) : path = [1, 0] := by
  cases h with
  | top hparent => cases (hparent : some 0 = none)
  | step hparent hrest =>
    cases (hparent : some 0 = some _)
    cases hrest with
    | top _ => rfl
    | step hparent _ => cases (hparent : none = some _)

/-- The second handler hears the tone that the first has left when it failed. -/
theorem sampleBellPage_runHandlers :
    (runHandlers ⟨"press", 1, .null⟩ [(0, sampleRing), (0, sampleHearing)] sampleBellPage).map
      (fun r => (failures r.1, ((r.2.component 0).get "heard").asText?)) =
      some ([.failed "cracked"], some "low") := by
  decide +kernel

theorem dispatch_bubbles_sampleBell :
    sampleBellPage.document.Forest ∧ ∃ result q, dispatch 1 "press" .null sampleBellPage = some (result, q) ∧
      result.invoked = 2 ∧ result.faults = [.failed "cracked"] ∧
      ((q.component 0).get "heard").asText? = some "low" ∧
      ∃ met, Met ⟨"press", 1, .null⟩ sampleBellPage met q ∧
        met.map (·.1) = [.component 0 sampleRing, .component 0 sampleHearing] := by
  refine ⟨sampleBellPage_forest, ?_⟩
  obtain ⟨path, hpath, -, -, hmet, -, hwired⟩ := dispatch_bubbles sampleBellPage_forest 1 "press" .null
  obtain rfl := sampleBellPage_path hpath
  have hheard : [1, 0].flatMap (sampleBellPage.document.heardAt "press") =
      [.component 0 sampleRing, .component 0 sampleHearing] := rfl
  have hfree : ∀ h ∈ [(0, sampleRing), (0, sampleHearing)],
      sampleBellPage.attached h.1 = true ∧ sampleBellPage.access h.1 = .free := by
    intro h hh
    rcases List.mem_pair.mp hh with rfl | rfl <;> exact ⟨rfl, rfl⟩
  obtain ⟨⟨outcomes, q⟩, hrun, hleft⟩ := Option.map_eq_some_iff.mp sampleBellPage_runHandlers
  obtain ⟨hfaults, htone⟩ := Prod.mk.inj hleft
  have hdispatch := hwired [(0, sampleRing), (0, sampleHearing)] hheard hfree
  rw [hrun, Option.map_some] at hdispatch
  obtain ⟨met, hmet, hall, -⟩ := (hmet _ _).mp hdispatch
  exact ⟨_, _, hdispatch, rfl, hfaults, htone, met, hmet, hall.trans hheard⟩

end LiveMarkup
