import LiveMarkup.Proofs.ScriptMoments

namespace LiveMarkup

namespace Deed

/-- A deed notes a property on a component when it says that it has changed, or sets it to a value that is not equal to
the one that is stored. -/
def Notes (x : Component) (n : String) : Deed → Prop
  | .set name v => n = name ∧ (x.props.get? name == some v) = false
  | .notify name => n = name
  | .take => False

theorem differs_eq (x : Component) (name : String) (v : Value) :
    x.differs name v = !(x.props.get? name == some v) := by
  unfold Component.differs
  cases x.props.get? name <;> rfl

/-- What is pending after a deed: what it notes, and all that was pending unless it takes the changes. -/
theorem pending_apply (d : Deed) (x : Component) (n : String) :
    (d.apply x).pending.contains n = true ↔ d.Notes x n ∨ d ≠ .take ∧ x.pending.contains n = true := by
  cases d with
  | set name v =>
    simp only [apply, Component.set, differs_eq, Notes]
    cases x.props.get? name == some v with
    | true => simp
    | false =>
      have hnoted : ((x.withProp name v).notify name).pending.contains n = true ↔
          n = name ∨ x.pending.contains n = true := Component.contains_add
      simpa using hnoted
  | notify name =>
    have hnoted : (x.notify name).pending.contains n = true ↔ n = name ∨ x.pending.contains n = true :=
      Component.contains_add
    simpa [apply, Notes] using hnoted
  | take =>
    have hnone : x.clearChanges.pending.contains n = false := rfl
    simp [apply, Notes, hnone]

/-- A deed that changes what is stored notes it. -/
theorem stored_apply (d : Deed) (x : Component) (n : String) :
    (d.apply x).props.get? n = x.props.get? n ∨ (d.apply x).pending.contains n = true := by
  cases d with
  | set name v =>
    simp only [apply, Component.set]
    split
    · by_cases hn : n = name
      · exact Or.inr (Component.contains_add.mpr (Or.inl hn))
      · exact Or.inl ((x.props.get?_insert name n v).trans (if_neg hn))
    · exact Or.inl rfl
  | notify name => exact Or.inl rfl
  | take => exact Or.inl rfl

end Deed

/-- An entry in the history of a component: what it was like, and the deed that was done to it then. -/
structure Entry where
  before : Component
  deed : Deed

/-- Nobody takes the changes. -/
def Untaken (history : List Entry) : Prop :=
  ∀ e ∈ history, e.deed ≠ .take

/-- A deed notes the property, and nobody takes the changes after that. -/
def NotedSinceTaken (n : String) (history : List Entry) : Prop :=
  ∃ earlier e later, history = earlier ++ e :: later ∧ e.deed.Notes e.before n ∧ Untaken later

/-- The property is among the changes that somebody takes. -/
def Drained (n : String) (history : List Entry) : Prop :=
  ∃ e ∈ history, e.deed = .take ∧ e.before.pending.contains n = true

section History

variable {n : String} {e : Entry} {history : List Entry}

theorem untaken_cons : Untaken (e :: history) ↔ e.deed ≠ .take ∧ Untaken history :=
  List.forall_mem_cons

theorem not_notedSinceTaken_nil : ¬ NotedSinceTaken n [] := by
  rintro ⟨earlier, e, later, h, -⟩
  exact List.append_ne_nil_of_right_ne_nil earlier (List.cons_ne_nil e later) h.symm

theorem notedSinceTaken_cons : NotedSinceTaken n (e :: history) ↔
    NotedSinceTaken n history ∨ e.deed.Notes e.before n ∧ Untaken history := by
  constructor
  · rintro ⟨earlier, noting, later, h, hnotes, hlater⟩
    cases earlier with
    | nil =>
      obtain ⟨rfl, rfl⟩ := List.cons.inj h
      exact Or.inr ⟨hnotes, hlater⟩
    | cons first earlier => exact Or.inl ⟨earlier, noting, later, (List.cons.inj h).2, hnotes, hlater⟩
  · rintro (⟨earlier, noting, later, rfl, hnotes, hlater⟩ | ⟨hnotes, hlater⟩)
    · exact ⟨e :: earlier, noting, later, rfl, hnotes, hlater⟩
    · exact ⟨[], e, history, rfl, hnotes, hlater⟩

theorem Drained.of_mem_imp {other : List Entry} (h : Drained n history) (hsub : ∀ e ∈ history, e ∈ other) :
    Drained n other := by
  obtain ⟨e, he, htakes, hn⟩ := h
  exact ⟨e, hsub e he, htakes, hn⟩

theorem Untaken.not_drained (h : Untaken history) : ¬ Drained n history := by
  rintro ⟨e, he, htakes, -⟩
  exact h e he htakes

end History

namespace Moment

/-- The properties of a component that are pending. -/
def pending (m : Moment) (c : ComponentId) : Names :=
  (m.page.component c).pending

/-- The value that is stored for a property, if any. -/
def stored (m : Moment) (c : ComponentId) (n : String) : Option Value :=
  (m.page.component c).props.get? n

/-- What the history of a component gains when something happens. -/
def entries (m : Moment) (c : ComponentId) (h : Happening) : List Entry :=
  ((m.deed? h).filter (·.1 = c)).toList.map fun done => ⟨m.page.component c, done.2⟩

/-- The history of a component from this moment on. -/
def history (m : Moment) (c : ComponentId) : List Happening → List Entry
  | [] => []
  | h :: rest => m.entries c h ++ (m.after h).history c rest

variable {c : ComponentId} {n : String}

theorem history_append (m : Moment) (first second : List Happening) :
    m.history c (first ++ second) = m.history c first ++ (m.play first).history c second := by
  induction first generalizing m with
  | nil => rfl
  | cons h rest ih =>
    calc
      m.history c (h :: (rest ++ second)) = m.entries c h ++ (m.after h).history c (rest ++ second) := rfl
      _ = m.entries c h ++ ((m.after h).history c rest ++ ((m.after h).play rest).history c second) := by rw [ih]
      _ = m.history c (h :: rest) ++ (m.play (h :: rest)).history c second := (List.append_assoc ..).symm

theorem drained_cons {m : Moment} {h : Happening} {rest : List Happening}
    (hdrained : Drained n ((m.after h).history c rest)) : Drained n (m.history c (h :: rest)) :=
  hdrained.of_mem_imp fun _ he => List.mem_append_right _ he

/-- All that happens to a component is in its history. -/
theorem after_cases (m : Moment) (h : Happening) (hc : c < m.page.components.size) :
    m.entries c h = [] ∧ (m.after h).page.component c = m.page.component c ∨
      ∃ d, m.entries c h = [⟨m.page.component c, d⟩] ∧
        (m.after h).page.component c = d.apply (m.page.component c) := by
  rw [m.component_after h hc, entries]
  cases m.deed? h with
  | none => exact Or.inl ⟨rfl, rfl⟩
  | some done =>
    obtain ⟨self, d⟩ := done
    by_cases hself : self = c
    · exact Or.inr ⟨d, by simp [Option.filter_some, hself], if_pos hself⟩
    · exact Or.inl ⟨by simp [Option.filter_some, hself], if_neg hself⟩

/-- What is pending was noted since the changes were last taken, or was so from the start. -/
theorem pending_play (m : Moment) (happenings : List Happening) (hc : c < m.page.components.size) :
    ((m.play happenings).pending c).contains n = true ↔ NotedSinceTaken n (m.history c happenings) ∨
      Untaken (m.history c happenings) ∧ (m.pending c).contains n = true := by
  induction happenings generalizing m with
  | nil =>
    have huntaken : Untaken [] := List.forall_mem_nil _
    simp only [history, not_notedSinceTaken_nil, false_or, huntaken, true_and]
    rfl
  | cons h rest ih =>
    have hrest := ih (m.after h) (m.lt_size_after h hc)
    refine hrest.trans ?_
    rcases m.after_cases h hc with ⟨hentries, hsame⟩ | ⟨d, hentries, hdone⟩
    · rw [history, hentries, List.nil_append, pending, hsame]
      rfl
    · rw [history, hentries, List.singleton_append, notedSinceTaken_cons, untaken_cons, pending, hdone,
        d.pending_apply]
      tauto

/-- What is pending stays so until somebody takes it. -/
theorem pending_or_drained (m : Moment) (happenings : List Happening) (hc : c < m.page.components.size)
    (hn : (m.pending c).contains n = true) :
    ((m.play happenings).pending c).contains n = true ∨ Drained n (m.history c happenings) := by
  induction happenings generalizing m with
  | nil => exact Or.inl hn
  | cons h rest ih =>
    have hrest := ih (m.after h) (m.lt_size_after h hc)
    rcases m.after_cases h hc with ⟨-, hsame⟩ | ⟨d, hentries, hdone⟩
    · rw [pending, hsame] at hrest
      exact (hrest hn).imp_right drained_cons
    · by_cases htakes : d = .take
      · refine Or.inr ⟨⟨m.page.component c, d⟩, List.mem_append_left _ ?_, htakes, hn⟩
        rw [hentries]
        exact List.mem_singleton_self _
      · rw [pending, hdone, d.pending_apply] at hrest
        exact (hrest (Or.inr ⟨htakes, hn⟩)).imp_right drained_cons

/-- What is stored stays as it is, or the change is pending until somebody takes it. -/
theorem stored_or_noted (m : Moment) (happenings : List Happening) (hc : c < m.page.components.size) (n : String) :
    (m.play happenings).stored c n = m.stored c n ∨
      ((m.play happenings).pending c).contains n = true ∨ Drained n (m.history c happenings) := by
  induction happenings generalizing m with
  | nil => exact Or.inl rfl
  | cons h rest ih =>
    have hc' := m.lt_size_after h hc
    have hstep : (m.after h).stored c n = m.stored c n ∨ ((m.after h).pending c).contains n = true := by
      rw [stored, pending]
      rcases m.after_cases h hc with ⟨-, hsame⟩ | ⟨d, -, hdone⟩
      · exact Or.inl (congrArg (·.props.get? n) hsame)
      · rw [hdone]
        exact d.stored_apply _ n
    rcases hstep with hsame | hnoted
    · rw [← hsame]
      exact (ih (m.after h) hc').imp_right (Or.imp_right drained_cons)
    · exact Or.inr (((m.after h).pending_or_drained rest hc' hnoted).imp_right drained_cons)

/-- What is not stored as it was when the changes were last taken is pending. -/
theorem pending_of_stored_ne (m : Moment) (happenings : List Happening) (hc : c < m.page.components.size)
    {earlier later : List Entry} {taking : Entry} (hhistory : m.history c happenings = earlier ++ taking :: later)
    (htakes : taking.deed = .take) (hlater : Untaken later)
    (hn : (m.play happenings).stored c n ≠ taking.before.props.get? n) :
    ((m.play happenings).pending c).contains n = true := by
  induction happenings generalizing m earlier with
  | nil => exact absurd hhistory.symm (List.append_ne_nil_of_right_ne_nil earlier (List.cons_ne_nil _ _))
  | cons h rest ih =>
    have hc' := m.lt_size_after h hc
    rw [history] at hhistory
    rcases m.after_cases h hc with ⟨hentries, -⟩ | ⟨d, hentries, hdone⟩
    · rw [hentries] at hhistory
      exact ih (m.after h) hc' hhistory hn
    · rw [hentries] at hhistory
      cases earlier with
      | cons first earlier => exact ih (m.after h) hc' (List.cons.inj hhistory).2 hn
      | nil =>
        -- The changes are taken just now, which changes no property.
        obtain ⟨rfl, rfl⟩ := List.cons.inj hhistory
        obtain rfl : d = .take := htakes
        rcases (m.after h).stored_or_noted rest hc' n with hsame | hnoted | hdrained
        · refine absurd (hsame.trans ?_) hn
          rw [stored, hdone]
          rfl
        · exact hnoted
        · exact absurd hdrained hlater.not_drained

/-- What was not stored alike at two moments is pending, or somebody took it. -/
theorem pending_or_drained_of_changed (m : Moment) (first second third : List Happening)
    (hc : c < m.page.components.size) (hn : (m.play first).stored c n ≠ (m.play (first ++ second)).stored c n) :
    ((m.play (first ++ second ++ third)).pending c).contains n = true ∨
      Drained n (m.history c (first ++ second ++ third)) := by
  have hfirst := m.lt_size_play first hc
  have hsecond := m.lt_size_play (first ++ second) hc
  rw [history_append, history_append]
  rcases (m.play first).stored_or_noted second hfirst n with hsame | hnoted | hdrained
  · rw [← play_append] at hsame
    exact absurd hsame.symm hn
  · rw [← play_append] at hnoted
    rw [play_append m (first ++ second)]
    exact ((m.play (first ++ second)).pending_or_drained third hsecond hnoted).imp_right fun hdrained =>
      hdrained.of_mem_imp fun e he => List.mem_append_right _ he
  · exact Or.inr (hdrained.of_mem_imp fun e he => List.mem_append_left _ (List.mem_append_right _ he))

end Moment

/-- No change is lost. Operations on components pass through moments, in which scripts take one action after another and
call each other, until they end or fail, and in which any component may have its changes taken. At every moment,
pending are exactly the properties that were noted since the changes were last taken, or since the start and those that
were pending then; what is not stored as it was when the changes were last taken is among them. A property that was not
stored alike at some two moments is pending or has been taken. -/
theorem changes_wait_until_taken (p : Page) {c : ComponentId} (hc : c < p.components.size) :
    (∀ operations q, perform operations p = some ((), q) →
      ∃ happenings, started happenings = operations ∧ (Moment.idle p).play happenings = .idle q) ∧
    ∀ happenings now history, (Moment.idle p).play happenings = now →
      (Moment.idle p).history c happenings = history →
      (∀ n, (now.pending c).contains n = true ↔ NotedSinceTaken n history ∨
        Untaken history ∧ (p.component c).pending.contains n = true) ∧
      (∀ n earlier taking later, history = earlier ++ taking :: later → taking.deed = .take → Untaken later →
        now.stored c n ≠ taking.before.props.get? n → (now.pending c).contains n = true) ∧
      ∀ n first second third, happenings = first ++ second ++ third →
        ((Moment.idle p).play first).stored c n ≠ ((Moment.idle p).play (first ++ second)).stored c n →
        (now.pending c).contains n = true ∨ Drained n history := by
  refine ⟨fun operations q => perform_played, fun happenings now history hnow hhistory => ?_⟩
  subst hnow hhistory
  refine ⟨fun n => Moment.pending_play _ happenings hc, fun n earlier taking later hsplit htakes hlater hne => ?_,
    fun n first second third hsplit hne => ?_⟩
  · exact Moment.pending_of_stored_ne _ happenings hc hsplit htakes hlater hne
  · subst hsplit
    exact Moment.pending_or_drained_of_changed _ first second third hc hne

/-- A till that adds up a sale and prints it. The printer takes the sum off again and fails. -/
def sampleTill : Component :=
  ((Component.named "till").withProp "total" (.text "0")).withMethod "sell"
      [.set "total" (.literal (.text "5")), .invoke "print", .set "paid" (.literal (.bool true))]
    |>.withMethod "print" [.notify "receipt", .set "total" (.literal (.text "0")), .stop (.failed "no paper")]

def sampleTillPage : Page :=
  (Page.empty.addComponent sampleTill).2

def sampleSell : Operation :=
  .invoke ⟨"sale", 0, .null⟩ "sell"

def sampleClose : Operation :=
  .handle ⟨"close", 0, .null⟩ (.assign "closed = total" "closed" (.prop "total"))

/-- The changes of a failed sale are taken, the sum is set to what it is, and the till is closed. -/
def sampleSale : List (ComponentId × Operation) :=
  [(0, sampleSell), (0, .deed .take), (0, .deed (.set "total" (.text "0"))), (0, sampleClose)]

/-- The sale begins, and the sum is written. -/
def sampleSaleBegun : List Happening :=
  [.start 0 sampleSell, .resume]

def sampleSaleEnded : List Happening :=
  [.resume, .resume, .resume, .resume, .start 0 (.deed .take), .start 0 (.deed (.set "total" (.text "0"))),
    .start 0 sampleClose]

theorem perform_sampleSale :
    (perform sampleSale sampleTillPage).map (fun r => (r.2.component 0).pending.contains "closed") = some true := by
  decide +kernel

theorem sampleSale_stored :
    ((Moment.idle sampleTillPage).stored 0 "total").map Value.display = some "0" ∧
      (((Moment.idle sampleTillPage).play sampleSaleBegun).stored 0 "total").map Value.display = some "5" := by
  decide +kernel

theorem sampleSale_pending :
    (((Moment.idle sampleTillPage).play (sampleSaleBegun ++ sampleSaleEnded)).pending 0).contains "total" = false := by
  decide +kernel

/-- The sum was set back before the sale failed, and was among the changes that were taken all the same. -/
theorem changes_wait_until_taken_sampleTill :
    0 < sampleTillPage.components.size ∧
      (∃ q happenings, perform sampleSale sampleTillPage = some ((), q) ∧ started happenings = sampleSale ∧
        (Moment.idle sampleTillPage).play happenings = .idle q ∧
        NotedSinceTaken "closed" ((Moment.idle sampleTillPage).history 0 happenings)) ∧
      Drained "total" ((Moment.idle sampleTillPage).history 0 (sampleSaleBegun ++ sampleSaleEnded)) := by
  have hsize : 0 < sampleTillPage.components.size := Nat.zero_lt_one
  obtain ⟨hperform, hmoments⟩ := changes_wait_until_taken sampleTillPage hsize
  refine ⟨hsize, ?_, ?_⟩
  · obtain ⟨⟨_, q⟩, hrun, hclosed⟩ := Option.map_eq_some_iff.mp perform_sampleSale
    obtain ⟨happenings, hstarted, hplay⟩ := hperform _ q hrun
    refine ⟨q, happenings, hrun, hstarted, hplay, ?_⟩
    have hnew : (sampleTillPage.component 0).pending.contains "closed" = false := rfl
    refine (((hmoments happenings _ _ hplay rfl).1 "closed").mp hclosed).resolve_right fun hstart => ?_
    exact absurd (hnew.symm.trans hstart.2) Bool.false_ne_true
  · have hchanged : (Moment.idle sampleTillPage).stored 0 "total" ≠
        ((Moment.idle sampleTillPage).play sampleSaleBegun).stored 0 "total" := by
      intro hsame
      have hshown := sampleSale_stored.1
      rw [hsame, sampleSale_stored.2] at hshown
      exact absurd hshown (by decide)
    obtain hpending | hdrained := (hmoments (sampleSaleBegun ++ sampleSaleEnded) _ _ rfl rfl).2.2 "total" []
      sampleSaleBegun sampleSaleEnded rfl hchanged
    · rw [sampleSale_pending] at hpending
      cases hpending
    · exact hdrained

end LiveMarkup
