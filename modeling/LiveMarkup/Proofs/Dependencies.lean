import LiveMarkup.Proofs.Language
import LiveMarkup.Template.Basic

namespace LiveMarkup

/-- The expression names a property at a place. A place is the way there from the whole expression, by the
numbers of the operands and parts. -/
inductive Expr.NamesAt : Expr → List Nat → String → Prop where
  | prop (name : String) : NamesAt (.prop name) [] name
  | not {e : Expr} {place : List Nat} {name : String} (h : NamesAt e place name) :
      NamesAt (.not e) (0 :: place) name
  | left {op : BinOp} {l r : Expr} {place : List Nat} {name : String} (h : NamesAt l place name) :
      NamesAt (.binary op l r) (0 :: place) name
  | right {op : BinOp} {l r : Expr} {place : List Nat} {name : String} (h : NamesAt r place name) :
      NamesAt (.binary op l r) (1 :: place) name
  | part {parts : List Expr} {k : Nat} {e : Expr} {place : List Nat} {name : String} (hk : parts[k]? = some e)
      (h : NamesAt e place name) : NamesAt (.concat parts) (k :: place) name

/-- A place within the operand with a number. -/
def below (k : Nat) (found : List Nat × String) : List Nat × String :=
  (k :: found.1, found.2)

mutual

/-- The places where an expression names properties, from left to right. -/
def Expr.places : Expr → List (List Nat × String)
  | .literal _ => []
  | .prop name => [([], name)]
  | .event => []
  | .not e => e.places.map (below 0)
  | .binary _ l r => l.places.map (below 0) ++ r.places.map (below 1)
  | .concat parts => Expr.placesFrom 0 parts

def Expr.placesFrom (k : Nat) : List Expr → List (List Nat × String)
  | [] => []
  | e :: rest => e.places.map (below k) ++ Expr.placesFrom (k + 1) rest

end

theorem mem_map_below {k : Nat} {found : List (List Nat × String)} {place : List Nat} {name : String} :
    (place, name) ∈ found.map (below k) ↔ ∃ inner, place = k :: inner ∧ (inner, name) ∈ found := by
  constructor
  · intro h
    obtain ⟨⟨inner, _⟩, hin, heq⟩ := List.mem_map.mp h
    cases heq
    exact ⟨inner, rfl, hin⟩
  · rintro ⟨inner, rfl, hin⟩
    exact List.mem_map.mpr ⟨_, hin, rfl⟩

theorem map_snd_map_below (k : Nat) (found : List (List Nat × String)) :
    (found.map (below k)).map (·.2) = found.map (·.2) := by
  rw [List.map_map]
  rfl

mutual

theorem Expr.names_eq_places : ∀ e : Expr, e.names = e.places.map (·.2)
  | .literal _ => rfl
  | .prop _ => rfl
  | .event => rfl
  | .not e => by rw [names, places, map_snd_map_below, Expr.names_eq_places e]
  | .binary _ l r => by
    rw [names, places, List.map_append, map_snd_map_below, map_snd_map_below, Expr.names_eq_places l,
      Expr.names_eq_places r]
  | .concat parts => Expr.namesOf_eq_places 0 parts

theorem Expr.namesOf_eq_places : ∀ (k : Nat) (parts : List Expr),
    Expr.namesOf parts = (Expr.placesFrom k parts).map (·.2)
  | _, [] => rfl
  | k, e :: rest => by
    rw [namesOf, placesFrom, List.map_append, map_snd_map_below, Expr.names_eq_places e,
      Expr.namesOf_eq_places (k + 1) rest]

end

mutual

theorem Expr.mem_places {place : List Nat} {name : String} :
    ∀ e : Expr, (place, name) ∈ e.places ↔ e.NamesAt place name
  | .literal _ => ⟨fun h => (nomatch h), fun h => (nomatch h)⟩
  | .prop other => by
    rw [places, List.mem_singleton]
    constructor
    · intro h
      cases h
      exact .prop name
    · intro h
      cases h
      rfl
  | .event => ⟨fun h => (nomatch h), fun h => (nomatch h)⟩
  | .not e => by
    rw [places, mem_map_below]
    constructor
    · rintro ⟨inner, rfl, h⟩
      exact .not ((Expr.mem_places e).mp h)
    · intro h
      cases h with
      | not h => exact ⟨_, rfl, (Expr.mem_places e).mpr h⟩
  | .binary op l r => by
    rw [places, List.mem_append, mem_map_below, mem_map_below]
    constructor
    · rintro (⟨inner, rfl, h⟩ | ⟨inner, rfl, h⟩)
      · exact .left ((Expr.mem_places l).mp h)
      · exact .right ((Expr.mem_places r).mp h)
    · intro h
      cases h with
      | left h => exact Or.inl ⟨_, rfl, (Expr.mem_places l).mpr h⟩
      | right h => exact Or.inr ⟨_, rfl, (Expr.mem_places r).mpr h⟩
  | .concat parts => by
    rw [places, Expr.mem_placesFrom 0 parts]
    constructor
    · rintro ⟨k, e, inner, hk, rfl, h⟩
      rw [Nat.zero_add]
      exact .part hk h
    · intro h
      cases h with
      | part hk h => exact ⟨_, _, _, hk, by rw [Nat.zero_add], h⟩

theorem Expr.mem_placesFrom {place : List Nat} {name : String} : ∀ (first : Nat) (parts : List Expr),
    (place, name) ∈ Expr.placesFrom first parts ↔
      ∃ k e inner, parts[k]? = some e ∧ place = (first + k) :: inner ∧ e.NamesAt inner name
  | _, [] => ⟨fun h => (nomatch h), fun ⟨_, _, _, hk, _⟩ => (nomatch hk)⟩
  | first, e :: rest => by
    rw [placesFrom, List.mem_append, mem_map_below, Expr.mem_placesFrom (first + 1) rest]
    constructor
    · rintro (⟨inner, rfl, h⟩ | ⟨k, e', inner, hk, rfl, h⟩)
      · exact ⟨0, e, inner, rfl, rfl, (Expr.mem_places e).mp h⟩
      · exact ⟨k + 1, e', inner, hk, by rw [Nat.add_assoc, Nat.add_comm 1 k], h⟩
    · rintro ⟨k, e', inner, hk, rfl, h⟩
      cases k with
      | zero =>
        cases hk
        exact Or.inl ⟨inner, rfl, (Expr.mem_places e).mpr h⟩
      | succ k => exact Or.inr ⟨k, e', inner, hk, by rw [Nat.add_assoc, Nat.add_comm 1 k], h⟩

end

theorem ascending_map_below {found : List (List Nat × String)} (k : Nat)
    (h : found.Pairwise fun a b => a.1 < b.1) : (found.map (below k)).Pairwise fun a b => a.1 < b.1 :=
  List.pairwise_map.mpr (h.imp fun hlt => List.cons_lt_cons_iff.mpr (Or.inr ⟨rfl, hlt⟩))

mutual

/-- Places further left come first. -/
theorem Expr.places_ascending : ∀ e : Expr, e.places.Pairwise fun a b => a.1 < b.1
  | .literal _ => .nil
  | .prop _ => List.pairwise_singleton _ _
  | .event => .nil
  | .not e => ascending_map_below 0 (Expr.places_ascending e)
  | .binary _ l r => by
    refine List.pairwise_append.mpr ⟨ascending_map_below 0 (Expr.places_ascending l),
      ascending_map_below 1 (Expr.places_ascending r), ?_⟩
    rintro ⟨a, _⟩ ha ⟨b, _⟩ hb
    obtain ⟨inner, rfl, -⟩ := mem_map_below.mp ha
    obtain ⟨inner', rfl, -⟩ := mem_map_below.mp hb
    exact List.cons_lt_cons_iff.mpr (Or.inl Nat.zero_lt_one)
  | .concat parts => Expr.placesFrom_ascending 0 parts

theorem Expr.placesFrom_ascending : ∀ (first : Nat) (parts : List Expr),
    (Expr.placesFrom first parts).Pairwise fun a b => a.1 < b.1
  | _, [] => .nil
  | first, e :: rest => by
    refine List.pairwise_append.mpr ⟨ascending_map_below first (Expr.places_ascending e),
      Expr.placesFrom_ascending (first + 1) rest, ?_⟩
    rintro ⟨a, _⟩ ha ⟨b, _⟩ hb
    obtain ⟨inner, rfl, -⟩ := mem_map_below.mp ha
    obtain ⟨k, _, inner', -, rfl, -⟩ := (Expr.mem_placesFrom (first + 1) rest).mp hb
    exact List.cons_lt_cons_iff.mpr (Or.inl (Nat.lt_of_lt_of_le (Nat.lt_succ_self first) (Nat.le_add_right _ k)))

end

theorem nodup_firstOccurrences (names : List String) : (firstOccurrences names).Nodup := by
  induction names with
  | nil => exact .nil
  | cons name rest ih =>
    refine List.nodup_cons.mpr ⟨fun h => ?_, ih.filter _⟩
    have hne := (List.mem_filter.mp h).2
    simp at hne

/-- Of two names that are kept, the one that comes first among all does so among the kept ones. -/
theorem firstOccurrences_ordered {α : Type} [LT α] {found : List (α × String)}
    (h : found.Pairwise fun a b => a.1 < b.1) :
    (firstOccurrences (found.map (·.2))).Pairwise fun name later =>
      ∃ place, (place, name) ∈ found ∧ ∀ place', (place', later) ∈ found → place < place' := by
  induction found with
  | nil => exact .nil
  | cons first rest ih =>
    obtain ⟨hfirst, hrest⟩ := List.pairwise_cons.mp h
    -- a name other than the first one stands only further right
    have hright : ∀ later place, later ≠ first.2 → (place, later) ∈ first :: rest → (place, later) ∈ rest := by
      intro later place hne hin
      rcases List.mem_cons.mp hin with rfl | hin
      · exact absurd rfl hne
      · exact hin
    refine List.pairwise_cons.mpr ⟨fun later hlater => ?_, ?_⟩
    · have hne : later ≠ first.2 := by simpa using (List.mem_filter.mp hlater).2
      exact ⟨first.1, List.mem_cons_self, fun place hin => hfirst _ (hright later place hne hin)⟩
    · refine ((ih hrest).filter _).imp_of_mem fun {name later} _ hlater => ?_
      rintro ⟨place, hin, hbefore⟩
      have hne : later ≠ first.2 := by simpa using (List.mem_filter.mp hlater).2
      exact ⟨place, List.mem_cons_of_mem _ hin, fun place' hin' => hbefore place' (hright later place' hne hin')⟩

namespace Expr

theorem mem_deps {e : Expr} {name : String} : name ∈ e.deps ↔ ∃ place, e.NamesAt place name := by
  rw [deps, mem_firstOccurrences, e.names_eq_places, List.mem_map]
  constructor
  · rintro ⟨⟨place, _⟩, hin, rfl⟩
    exact ⟨place, (mem_places e).mp hin⟩
  · rintro ⟨place, h⟩
    exact ⟨(place, name), (mem_places e).mpr h, rfl⟩

theorem deps_ordered (e : Expr) : e.deps.Pairwise fun name later =>
    ∃ place, e.NamesAt place name ∧ ∀ place', e.NamesAt place' later → place < place' := by
  rw [deps, e.names_eq_places]
  refine (firstOccurrences_ordered e.places_ascending).imp ?_
  rintro name later ⟨place, hin, hbefore⟩
  exact ⟨place, (mem_places e).mp hin, fun place' h => hbefore place' ((mem_places e).mpr h)⟩

end Expr

/-- Where the step of some dependencies is not run for a change, none of them has changed. -/
theorem RefreshStep.gated?_untriggered {deps : List String} {op : Op} {changed : Names}
    (h : ∀ step, RefreshStep.gated? deps op = some step → step.triggeredBy changed = false) {name : String}
    (hname : name ∈ deps) : changed.contains name = false := by
  have hsome : RefreshStep.gated? deps op = some ⟨firstOccurrences deps, op, false⟩ := by
    rw [RefreshStep.gated?, if_neg]
    simpa using List.ne_nil_of_mem hname
  have hquiet := h _ hsome
  rw [RefreshStep.triggeredBy, Bool.false_or, List.any_eq_false] at hquiet
  simpa using hquiet name (mem_firstOccurrences.mpr hname)

/-- Evaluation needs no more of a component than the dependencies, which are the properties that the expression
names, each once and in the order of the first places. So a value whose step is not run after a change is the one
from before. -/
theorem evaluation_needs_only_deps :
    (∀ (e : Expr) (event : Value) (c c' : Component), (∀ name ∈ e.deps, c.get name = c'.get name) →
      e.eval c.get event = e.eval c'.get event) ∧
    (∀ e : Expr, e.deps.Nodup ∧ (∀ name, name ∈ e.deps ↔ ∃ place, e.NamesAt place name) ∧
      e.deps.Pairwise fun name later =>
        ∃ place, e.NamesAt place name ∧ ∀ place', e.NamesAt place' later → place < place') ∧
    ∀ spec : ValueSpec,
      ((∃ e label, spec = Expr.toSpec e label) ∨ ∃ source, ValueSpec.ofInterpolated source = .ok spec) →
      ∀ (op : Op) (changed : Names) (c c' : Component),
        (∀ step, RefreshStep.gated? spec.deps op = some step → step.triggeredBy changed = false) →
        (∀ name, changed.contains name = false → c.get name = c'.get name) →
        spec.evalIn c.get = spec.evalIn c'.get := by
  refine ⟨fun e event c c' h => e.eval_congr fun name hname => h name (mem_firstOccurrences.mpr hname),
    fun e => ⟨nodup_firstOccurrences _, fun _ => Expr.mem_deps, e.deps_ordered⟩, ?_⟩
  intro spec hspec op changed c c' hquiet hsame
  have hlanguage : spec.FromLanguage := by
    rcases hspec with ⟨e, label, rfl⟩ | ⟨source, h⟩
    · exact .expression e label
    · exact .interpolated h
  exact hlanguage.evalIn_congr fun name hname => hsame name (RefreshStep.gated?_untriggered hquiet hname)

/-- A text that shows one of its two properties twice. -/
def sampleEcho : Expr :=
  .concat [.binary .add (.prop "name") (.prop "mark"), .prop "name"]

def sampleSpeaker (mood : String) : Component :=
  (((Component.named "speaker").withProp "name" (.text "a")).withProp "mark" (.text "!")).withProp "mood" (.text mood)

theorem evaluation_needs_only_deps_sampleEcho :
    sampleEcho.deps = ["name", "mark"] ∧
    (∀ name ∈ sampleEcho.deps, (sampleSpeaker "calm").get name = (sampleSpeaker "loud").get name) ∧
    (sampleSpeaker "calm").get "mood" ≠ (sampleSpeaker "loud").get "mood" ∧
    sampleEcho.eval (sampleSpeaker "calm").get .null = sampleEcho.eval (sampleSpeaker "loud").get .null ∧
    (∃ place, sampleEcho.NamesAt place "name" ∧ ∀ place', sampleEcho.NamesAt place' "mark" → place < place') ∧
    RefreshStep.triggeredBy ⟨["name", "mark"], .setText 1 (sampleEcho.toSpec "echo").value, false⟩
      (Names.ofList ["mood"]) = false ∧
    (sampleEcho.toSpec "echo").evalIn (sampleSpeaker "calm").get =
      (sampleEcho.toSpec "echo").evalIn (sampleSpeaker "loud").get := by
  obtain ⟨heval, hlisted, hgate⟩ := evaluation_needs_only_deps
  have hdeps : sampleEcho.deps = ["name", "mark"] := rfl
  have hsame : ∀ name ∈ sampleEcho.deps, (sampleSpeaker "calm").get name = (sampleSpeaker "loud").get name := by
    rw [hdeps]
    intro name hname
    rcases List.mem_cons.mp hname with rfl | hname
    · rfl
    · cases List.mem_singleton.mp hname
      rfl
  have hquiet : RefreshStep.triggeredBy ⟨["name", "mark"], .setText 1 (sampleEcho.toSpec "echo").value, false⟩
      (Names.ofList ["mood"]) = false := rfl
  have hdiffers : (sampleSpeaker "calm").get "mood" ≠ (sampleSpeaker "loud").get "mood" :=
    fun heq => absurd (Value.text.inj heq) (by decide)
  refine ⟨hdeps, hsame, hdiffers, heval sampleEcho .null _ _ hsame, ?_, hquiet, ?_⟩
  · have hordered := (hlisted sampleEcho).2.2
    rw [hdeps] at hordered
    exact (List.pairwise_cons.mp hordered).1 "mark" List.mem_cons_self
  · refine hgate _ (Or.inl ⟨sampleEcho, "echo", rfl⟩) (.setText 1 (sampleEcho.toSpec "echo").value)
      (Names.ofList ["mood"]) _ _ (fun step hstep => ?_) fun name hname => ?_
    · cases hstep
      exact hquiet
    · have hne : name ≠ "mood" := by
        rintro rfl
        cases hname
      simp only [sampleSpeaker, Component.get, Component.withProp, Dict.get?_insert, if_neg hne]

end LiveMarkup
