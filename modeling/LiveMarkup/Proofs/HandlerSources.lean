import LiveMarkup.Proofs.Changes
import LiveMarkup.Proofs.InterpolatedText
import LiveMarkup.Proofs.PropertyReads

namespace LiveMarkup

variable {e : Expr} {label name source target : String} {cs : List Char} {ts : List Token}

/-- A letter, `_` or `$`, and then letters, digits, `_` and `$`. -/
def IsIdentifier (cs : List Char) : Prop :=
  ∃ c rest, cs = c :: rest ∧ BeginsWord c ∧ ∀ x ∈ rest, ContinuesWord x

theorem isIdentifier_of_class {c : Char} {rest : List Char} (hc : isWordStart c = true)
    (hrest : ∀ x ∈ rest, isWordChar x = true) : IsIdentifier (c :: rest) :=
  ⟨c, rest, rfl, isWordStart_iff.mp hc, fun x hx => isWordChar_iff.mp (hrest x hx)⟩

theorem Token.spelled_word_iff : (Token.word name).Spelled cs ↔ cs = name.toList ∧ IsIdentifier name.toList := by
  constructor
  · intro h
    generalize ht : Token.word name = t at h
    cases h with
    | word hc hcs =>
      cases ht
      rw [String.toList_ofList]
      exact ⟨rfl, _, _, rfl, hc, hcs⟩
    | _ => cases ht
  · rintro ⟨rfl, c, rest, hname, hc, hrest⟩
    have hspelled := Token.Spelled.word hc hrest
    rwa [← hname, String.ofList_toList] at hspelled

/-- A handler that names a method: an identifier with layout around it. -/
def NamesMethod (cs : List Char) (name : String) : Prop :=
  ∃ before after, IsGap before ∧ IsGap after ∧ IsIdentifier name.toList ∧ cs = before ++ (name.toList ++ after)

/-- A handler that assigns: an identifier, one equals sign that no other one follows, and an expression. -/
def AssignsExpr (cs : List Char) (target : String) (e : Expr) : Prop :=
  ∃ before between source, IsGap before ∧ IsGap between ∧ IsIdentifier target.toList ∧ (skipLayout source).head? ≠ some '=' ∧
    Expr.parse (String.ofList source) = .ok e ∧ cs = before ++ (target.toList ++ (between ++ '=' :: source))

section Reading

theorem tokens?_eq_word_iff : tokens? cs = some [.word name] ↔ NamesMethod cs name := by
  constructor
  · intro h
    cases spaced_of_tokens? h with
    | token hbefore hword hrest =>
      obtain ⟨rfl, hname⟩ := Token.spelled_word_iff.mp hword
      cases hrest with
      | done hafter => exact ⟨_, _, hbefore, hafter, hname, rfl⟩
  · rintro ⟨before, after, hbefore, hafter, hname, rfl⟩
    have hspaced : Spaced [.word name] (before ++ (name.toList ++ after)) :=
      .token hbefore (Token.spelled_word_iff.mpr ⟨rfl, hname⟩) (.done hafter)
    exact hspaced.tokens? (.singleton _)

/-- The tokens of an expression are read from wherever they are written. -/
theorem Spaced.parse (h : Spaced ts cs) (hts : parseTokens? ts = some e) : Expr.parse (String.ofList cs) = .ok e := by
  have hspaced : Spaced ts (String.ofList cs).toList := by rwa [String.toList_ofList]
  exact Expr.parse_of_printed (printed_of_parseTokens? h.spelled hts) hspaced

theorem exists_spaced_of_parse (h : Expr.parse (String.ofList cs) = .ok e) :
    ∃ ts, Spaced ts cs ∧ parseTokens? ts = some e := by
  rw [Expr.parse_eq_ok_iff, Option.bind_eq_some_iff, String.toList_ofList] at h
  obtain ⟨ts, hts, hparse⟩ := h
  exact ⟨ts, spaced_of_tokens? hts, hparse⟩

/-- An expression does not begin with an equals sign. -/
theorem Spaced.head?_skipLayout (h : Spaced ts cs) (hts : parseTokens? ts = some e) :
    (skipLayout cs).head? ≠ some '=' := by
  obtain ⟨first, hfirst, hopens⟩ := (printed_of_parseTokens? h.spelled hts).follows.2.1
  cases h with
  | done => cases hfirst
  | @token gap spelling rest t ts hgap ht hrest =>
    cases hfirst
    obtain ⟨c, more, rfl, hlayout, hequals, -⟩ := ht.exists_cons
    have hskip : skipLayout (gap ++ (c :: more ++ rest)) = c :: (more ++ rest) := by
      refine skipLayout_gap hgap fun x hx => ?_
      cases hx
      exact hlayout
    rw [hskip]
    intro heq
    exact hequals hopens (Option.some.inj heq)

/-- A word, an equals sign and the tokens of an expression do not run together. -/
theorem Spaced.follows_assignment (h : Spaced ts cs) (target : String) (hts : parseTokens? ts = some e) :
    (.word target :: .assign :: ts).IsChain Token.Follows := by
  obtain ⟨hchain, ⟨first, hfirst, hopens⟩, -⟩ := (printed_of_parseTokens? h.spelled hts).follows
  have hassign : (.assign :: ts).IsChain Token.Follows := by
    refine hchain.cons fun t ht => ?_
    rw [Option.mem_unique ht hfirst]
    exact hopens
  refine hassign.cons fun t ht => ?_
  cases ht
  rfl

theorem tokens?_eq_assignment_iff :
    (∃ ts, tokens? cs = some (.word target :: .assign :: ts) ∧ parseTokens? ts = some e) ↔
      AssignsExpr cs target e := by
  constructor
  · rintro ⟨ts, htokens, hts⟩
    cases spaced_of_tokens? htokens with
    | token hbefore hword hrest =>
      obtain ⟨rfl, htarget⟩ := Token.spelled_word_iff.mp hword
      cases hrest with
      | token hbetween hassign hsource =>
        cases hassign
        exact ⟨_, _, _, hbefore, hbetween, htarget, hsource.head?_skipLayout hts, hsource.parse hts, rfl⟩
  · rintro ⟨before, between, source, hbefore, hbetween, htarget, -, hparse, rfl⟩
    obtain ⟨ts, hsource, hts⟩ := exists_spaced_of_parse hparse
    have hspaced : Spaced (.word target :: .assign :: ts) (before ++ (target.toList ++ (between ++ '=' :: source))) :=
      .token hbefore (Token.spelled_word_iff.mpr ⟨rfl, htarget⟩) (.token hbetween .assign hsource)
    exact ⟨ts, hspaced.tokens? (hsource.follows_assignment target hts), hts⟩

theorem Handler.ofTokens?_cases {h : Handler} (hread : Handler.ofTokens? label ts = some h) :
    (∃ name, h = .method name ∧ ts = [.word name]) ∨
      ∃ target rest e, h = .assign label target e ∧ ts = .word target :: .assign :: rest ∧
        parseTokens? rest = some e := by
  unfold Handler.ofTokens? at hread
  split at hread
  next name =>
    cases hread
    exact Or.inl ⟨name, rfl, rfl⟩
  next target rest =>
    obtain ⟨e, he, rfl⟩ := Option.map_eq_some_iff.mp hread
    exact Or.inr ⟨target, rest, e, rfl, rfl, he⟩
  next => cases hread

theorem Handler.parse_eq_ok_iff {h : Handler} : Handler.parse source = .ok h ↔
    ∃ ts, tokens? source.toList = some ts ∧ Handler.ofTokens? (trimText source) ts = some h := by
  rw [← Option.bind_eq_some_iff]
  unfold Handler.parse
  cases (tokens? source.toList).bind (Handler.ofTokens? (trimText source)) <;> simp

/-- A source that no handler is read from is reported as it is. -/
theorem Handler.parse_cases (source : String) :
    (∃ h, Handler.parse source = .ok h) ∨ Handler.parse source = .error (.expression source .mismatch) := by
  unfold Handler.parse
  cases (tokens? source.toList).bind (Handler.ofTokens? (trimText source)) with
  | none => exact Or.inr rfl
  | some h => exact Or.inl ⟨h, rfl⟩

theorem Handler.parse_method_iff : Handler.parse source = .ok (.method name) ↔ NamesMethod source.toList name := by
  rw [Handler.parse_eq_ok_iff, ← tokens?_eq_word_iff]
  constructor
  · rintro ⟨ts, hts, hread⟩
    rcases Handler.ofTokens?_cases hread with ⟨_, heq, rfl⟩ | ⟨_, _, _, heq, -⟩
    · cases heq
      exact hts
    · cases heq
  · intro hts
    exact ⟨_, hts, rfl⟩

theorem Handler.parse_assign_iff :
    Handler.parse source = .ok (.assign label target e) ↔
      label = trimText source ∧ AssignsExpr source.toList target e := by
  rw [Handler.parse_eq_ok_iff, ← tokens?_eq_assignment_iff]
  constructor
  · rintro ⟨ts, hts, hread⟩
    rcases Handler.ofTokens?_cases hread with ⟨_, heq, -⟩ | ⟨_, rest, _, heq, rfl, he⟩
    · cases heq
    · cases heq
      exact ⟨rfl, rest, hts, he⟩
  · rintro ⟨rfl, rest, hts, he⟩
    refine ⟨_, hts, ?_⟩
    rw [Handler.ofTokens?, he, Option.map_some]

end Reading

section Running

/-- What setting one property leaves of a component: all but the property and whether it is pending. -/
structure Component.SameBut (name : String) (c c' : Component) : Prop where
  label : c'.name = c.name
  props : ∀ other, other ≠ name → c'.props.get? other = c.props.get? other
  methods : c'.methods = c.methods
  attachPoints : c'.attachPoints = c.attachPoints
  pending : ∀ other, other ≠ name → c'.pending.contains other = c.pending.contains other

theorem Component.sameBut_set (c : Component) (name : String) (v : Value) : c.SameBut name (c.set name v) := by
  have hprops : ∀ other, other ≠ name → (c.set name v).props.get? other = c.props.get? other :=
    fun other hne => c.get?_set_of_ne hne v
  unfold Component.set at hprops ⊢
  split
  next hdiffers =>
    rw [if_pos hdiffers] at hprops
    refine ⟨rfl, hprops, rfl, rfl, fun other hne => ?_⟩
    rw [Bool.eq_iff_iff]
    exact Component.contains_add.trans (or_iff_right hne)
  next => exact ⟨rfl, fun _ _ => rfl, rfl, rfl, fun _ _ => rfl⟩

variable {p : Page} {self : ComponentId} {event : Event}

theorem Handler.run_assign_ok {v : Value} (h : e.eval (p.component self).get event.detail = .ok v) :
    Handler.run self event (.assign label target e) p = some (.ok (), p.modifyComponent self (·.set target v)) := by
  simp only [Handler.run, Act.bind_eq_some, Act.get_eq_some]
  refine ⟨p, p, ⟨rfl, rfl⟩, ?_⟩
  rw [h]
  rfl

theorem Handler.run_assign_error {f : Fault} (h : e.eval (p.component self).get event.detail = .error f) :
    Handler.run self event (.assign label target e) p = some (.error f, p) := by
  simp only [Handler.run, Act.bind_eq_some, Act.get_eq_some]
  refine ⟨p, p, ⟨rfl, rfl⟩, ?_⟩
  rw [h]
  rfl

end Running

/-- A source is read as a method exactly when it is an identifier with layout around it, as an assignment exactly when
it is an identifier, one equals sign and an expression, and as nothing else. An assignment sets its property to the
value of its expression and changes nothing else, and if there is no value it changes nothing. -/
theorem handler_sources_mean_what_they_say (source : String) :
    (∀ name, Handler.parse source = .ok (.method name) ↔ NamesMethod source.toList name) ∧
    (∀ label target e, Handler.parse source = .ok (.assign label target e) ↔
      label = trimText source ∧ AssignsExpr source.toList target e) ∧
    ((∀ name, ¬ NamesMethod source.toList name) → (∀ target e, ¬ AssignsExpr source.toList target e) →
      Handler.parse source = .error (.expression source .mismatch)) ∧
    ∀ label target e, Handler.parse source = .ok (.assign label target e) →
      ∀ (p : Page) (self : ComponentId) (event : Event), self < p.components.size →
        (∀ v, e.eval (p.component self).get event.detail = .ok v →
          ∃ q, Handler.run self event (.assign label target e) p = some (.ok (), q) ∧
            q = p.modifyComponent self (·.set target v) ∧ q.component self = (p.component self).set target v ∧
            (p.component self).SameBut target (q.component self)) ∧
        ∀ f, e.eval (p.component self).get event.detail = .error f →
          Handler.run self event (.assign label target e) p = some (.error f, p) := by
  refine ⟨fun name => Handler.parse_method_iff, fun label target e => Handler.parse_assign_iff, ?_, ?_⟩
  · intro hmethod hassign
    rcases Handler.parse_cases source with ⟨h, hparse⟩ | hparse
    · obtain ⟨ts, hts, hread⟩ := Handler.parse_eq_ok_iff.mp hparse
      rcases Handler.ofTokens?_cases hread with ⟨name, -, rfl⟩ | ⟨target, rest, e, -, rfl, he⟩
      · exact absurd (tokens?_eq_word_iff.mp hts) (hmethod name)
      · exact absurd (tokens?_eq_assignment_iff.mp ⟨rest, hts, he⟩) (hassign target e)
    · exact hparse
  · intro label target e _ p self event hself
    refine ⟨fun v hv => ?_, fun f hf => Handler.run_assign_error hf⟩
    have hset : (p.modifyComponent self (·.set target v)).component self = (p.component self).set target v :=
      Page.component_modifyComponent hself _
    refine ⟨_, Handler.run_assign_ok hv, rfl, hset, ?_⟩
    rw [hset]
    exact Component.sameBut_set _ target v

/-- A comparison is no handler, though it begins like an assignment. -/
theorem comparison_is_no_handler : (∀ name, ¬ NamesMethod (String.toList "a == b") name) ∧
    ∀ target e, ¬ AssignsExpr (String.toList "a == b") target e := by
  have hlayout : ∀ {cs : List Char}, IsGap cs → ∀ c ∈ cs, decide (c ≠ '=') = true := by
    intro cs hcs c hc
    exact decide_eq_true (ne_of_class (isGap_iff.mp hcs c hc) rfl)
  have hname : ∀ {cs : List Char}, IsIdentifier cs → ∀ c ∈ cs, decide (c ≠ '=') = true := by
    rintro cs ⟨first, rest, rfl, hfirst, hrest⟩ c hc
    refine decide_eq_true (ne_of_class (isWordChar_iff.mpr ?_) rfl)
    rcases List.mem_cons.mp hc with rfl | hc
    · exact .inr hfirst
    · exact hrest c hc
  constructor
  · rintro name ⟨before, after, hbefore, hafter, hidentifier, heq⟩
    have hequals : '=' ∈ before ++ (name.toList ++ after) := heq ▸ (by decide : '=' ∈ String.toList "a == b")
    rcases List.mem_append.mp hequals with hin | hin
    · exact absurd (hlayout hbefore _ hin) (by decide)
    · rcases List.mem_append.mp hin with hin | hin
      · exact absurd (hname hidentifier _ hin) (by decide)
      · exact absurd (hlayout hafter _ hin) (by decide)
  · rintro target e ⟨before, between, source, hbefore, hbetween, hidentifier, hsource, -, heq⟩
    -- the sign of an assignment is the first one, and here another follows it
    have hfront : ∀ c ∈ before ++ (target.toList ++ between), decide (c ≠ '=') = true := by
      intro c hc
      rcases List.mem_append.mp hc with hc | hc
      · exact hlayout hbefore c hc
      · exact (List.mem_append.mp hc).elim (hname hidentifier c) (hlayout hbetween c)
    have hstop : ∀ c ∈ ('=' :: source).head?, decide (c ≠ '=') = false := by
      rintro _ ⟨⟩
      rfl
    have hdrop := dropWhile_run hfront hstop
    rw [List.append_assoc, List.append_assoc, ← heq] at hdrop
    have hrest : (String.toList "a == b").dropWhile (fun c => decide (c ≠ '=')) = '=' :: ['=', ' ', 'b'] := by decide
    obtain rfl : source = ['=', ' ', 'b'] := (List.cons.inj (hdrop.symm.trans hrest)).2
    exact hsource (by decide)

theorem assignsExpr_sample : AssignsExpr (String.toList "t=\ta==b ") "t" (.binary .eq (.prop "a") (.prop "b")) := by
  have hword : ∀ c : Char, isWordStart c = true → (Token.word (String.ofList [c])).Spelled [c] :=
    fun c hc => Token.spelled_word hc fun x hx => absurd hx List.not_mem_nil
  have hspaced : Spaced [.word "a", .op .eq, .word "b"] (String.toList "\ta==b ") :=
    .layout (.adjacent (hword 'a' rfl) (.adjacent (.op .eq)
      (.adjacent (hword 'b' rfl) (.done (isGap_of_all rfl))))) rfl
  have hprinted : (Expr.binary .eq (.prop "a") (.prop "b")).Printed true 0 ([.word "a"] ++ .op .eq :: [.word "b"]) :=
    .binary (by decide) (.prop (by decide)) (.prop (by decide))
  exact ⟨[], [], String.toList "\ta==b ", isGap_nil, isGap_nil,
    @isIdentifier_of_class 't' [] rfl (List.all_eq_true.mp rfl), by decide, hspaced.parse hprinted.parseTokens?, rfl⟩

/-- A method, a comparison, and an assignment of what a comparison says. -/
theorem handler_sources_mean_what_they_say_samples :
    Handler.parse " go\n" = .ok (.method "go") ∧
    Handler.parse "a == b" = .error (.expression "a == b" .mismatch) ∧
    Handler.parse "t=\ta==b " = .ok (.assign "t=\ta==b" "t" (.binary .eq (.prop "a") (.prop "b"))) ∧
    ∃ q, Handler.run 0 ⟨"click", 0, .null⟩ (.assign "t=\ta==b" "t" (.binary .eq (.prop "a") (.prop "b")))
        (samplePage [("a", .text "x"), ("b", .text "x")]) = some (.ok (), q) ∧
      q.component 0 = ((samplePage [("a", .text "x"), ("b", .text "x")]).component 0).set "t" (.bool true) := by
  have hmethod : NamesMethod (String.toList " go\n") "go" :=
    ⟨[' '], ['\n'], isGap_of_all rfl, isGap_of_all rfl,
      @isIdentifier_of_class 'g' ['o'] rfl (List.all_eq_true.mp rfl), rfl⟩
  obtain ⟨-, hassign, -, hrun⟩ := handler_sources_mean_what_they_say "t=\ta==b "
  have hparse := (hassign "t=\ta==b" "t" _).mpr ⟨by decide, assignsExpr_sample⟩
  refine ⟨((handler_sources_mean_what_they_say " go\n").1 "go").mpr hmethod, ?_, hparse, ?_⟩
  · exact (handler_sources_mean_what_they_say "a == b").2.2.1 comparison_is_no_handler.1 comparison_is_no_handler.2
  · obtain ⟨q, hq, -, hcomponent, -⟩ := (hrun _ _ _ hparse (samplePage [("a", .text "x"), ("b", .text "x")]) 0
      ⟨"click", 0, .null⟩ (by decide)).1 (.bool true) rfl
    exact ⟨q, hq, hcomponent⟩

section ReadingBack

/-- No expression names a property by a reserved word. -/
theorem Expr.Printed.names_free {extra : Bool} {level : Nat} (h : e.Printed extra level ts) :
    ∀ name ∈ e.names, name ∉ reservedWords := by
  induction h with
  | text _ | number _ _ | bool _ | null | event => exact fun name hname => absurd hname List.not_mem_nil
  | prop hfree =>
    intro name hname
    rw [List.mem_singleton.mp hname]
    exact hfree
  | not _ ih => exact ih
  | binary _ _ _ ihl ihr =>
    intro name hname
    exact (List.mem_append.mp hname).elim (ihl name) (ihr name)
  | parens _ _ ih => exact ih

theorem Expr.deps_free (h : Expr.parse source = .ok e) {word : String} (hword : word ∈ reservedWords) :
    word ∉ e.deps := by
  rw [Expr.parse_eq_ok_iff, Option.bind_eq_some_iff] at h
  obtain ⟨ts, htokens, hts⟩ := h
  intro hmem
  exact (printed_of_parseTokens? (spaced_of_tokens? htokens).spelled hts).names_free word (mem_firstOccurrences.mp hmem) hword

theorem Expr.parse_of_spelled {s : String} (hs : (Token.word s).Spelled s.toList) (h : e.Printed true 0 [.word s]) :
    Expr.parse s = .ok e := by
  have hspaced : Spaced [.word s] (s.toList ++ []) :=
    .adjacent hs (.done isGap_nil)
  rw [List.append_nil] at hspaced
  exact Expr.parse_of_printed h hspaced

/-- An expression that is a reserved word reads no property: it has one value, whatever the component. -/
theorem Expr.parse_reserved {word : String} (h : word ∈ reservedWords) :
    ∃ e w, Expr.parse word = .ok e ∧ e.deps = [] ∧ ∀ read, e.eval read .null = .ok w := by
  have hspelled := spelled_of_reserved h
  simp only [reservedWords, List.mem_cons, List.not_mem_nil, or_false] at h
  rcases h with rfl | rfl | rfl | rfl
  · exact ⟨_, _, Expr.parse_of_spelled hspelled (.bool true), rfl, fun _ => rfl⟩
  · exact ⟨_, _, Expr.parse_of_spelled hspelled (.bool false), rfl, fun _ => rfl⟩
  · exact ⟨_, _, Expr.parse_of_spelled hspelled .null, rfl, fun _ => rfl⟩
  · exact ⟨_, _, Expr.parse_of_spelled hspelled .event, rfl, fun _ => rfl⟩

end ReadingBack

/-- What a handler assigns is stored. If the property has a name that expressions can use, the name read as an
expression gives the value back. If it is a reserved word, the name gives a value that has nothing to do with the
component, and no expression reads the property. -/
theorem assignment_reads_back_unless_reserved {source label target : String} {e : Expr}
    (hparse : Handler.parse source = .ok (.assign label target e)) {p : Page} {self : ComponentId}
    (hself : self < p.components.size) {event : Event} {v : Value}
    (hv : e.eval (p.component self).get event.detail = .ok v) :
    ∃ q, Handler.run self event (.assign label target e) p = some (.ok (), q) ∧
      (∃ w, (q.component self).props.get? target = some w ∧ w.ReadsAs v) ∧
      (target ∉ reservedWords → ∃ r w, Expr.parse target = .ok r ∧ r.deps = [target] ∧
        r.eval (q.component self).get .null = .ok w ∧ w.ReadsAs v) ∧
      (target ∈ reservedWords →
        (∃ r w, Expr.parse target = .ok r ∧ r.deps = [] ∧ ∀ read, r.eval read .null = .ok w) ∧
        ∀ other r, Expr.parse other = .ok r → target ∉ r.deps) := by
  obtain ⟨-, before, between, rest, -, -, hname, -⟩ := Handler.parse_assign_iff.mp hparse
  have hspelled : (Token.word target).Spelled target.toList := Token.spelled_word_iff.mpr ⟨rfl, hname⟩
  have hset : (p.modifyComponent self (·.set target v)).component self = (p.component self).set target v :=
    Page.component_modifyComponent hself _
  obtain ⟨w, hw, hreads⟩ := (p.component self).get?_set_self target v
  have hreads := Value.readsAs_of_eq_or_equals hreads
  rw [← hset] at hw
  refine ⟨_, Handler.run_assign_ok hv, ⟨w, hw, hreads⟩, fun hfree => ?_, fun hreserved => ?_⟩
  · refine ⟨.prop target, w, Expr.parse_of_spelled hspelled (.prop hfree), rfl, ?_, hreads⟩
    rw [Expr.eval, Component.get, hw]
    rfl
  · exact ⟨Expr.parse_reserved hreserved, fun other r hr => Expr.deps_free hr hreserved⟩

theorem assignsExpr_event (target : String) (h : IsIdentifier target.toList) :
    AssignsExpr (target.toList ++ ['=', 'e', 'v', 'e', 'n', 't']) target .event := by
  have hevent : Expr.parse (String.ofList ['e', 'v', 'e', 'n', 't']) = .ok .event :=
    Expr.parse_of_spelled (spelled_of_reserved (by decide)) .event
  exact ⟨[], [], ['e', 'v', 'e', 'n', 't'], isGap_nil, isGap_nil, h, by decide, hevent, rfl⟩

/-- What is not a number can be assigned and read back. -/
theorem assignment_reads_back_unless_reserved_sample :
    Handler.parse "t=event" = .ok (.assign "t=event" "t" .event) ∧
    ∃ q, Handler.run 0 ⟨"input", 0, .number (0 / 0)⟩ (.assign "t=event" "t" .event) (samplePage []) = some (.ok (), q) ∧
      ∃ r w, Expr.parse "t" = .ok r ∧ r.deps = ["t"] ∧ r.eval (q.component 0).get .null = .ok w ∧
        w.ReadsAs (.number (0 / 0)) := by
  have hname : IsIdentifier (String.toList "t") := @isIdentifier_of_class 't' [] rfl (List.all_eq_true.mp rfl)
  have hparse : Handler.parse "t=event" = .ok (.assign "t=event" "t" .event) :=
    Handler.parse_assign_iff.mpr ⟨by decide, assignsExpr_event "t" hname⟩
  have hself : 0 < (samplePage []).components.size := by decide
  have hv : Expr.event.eval ((samplePage []).component 0).get (Event.mk "input" 0 (.number (0 / 0))).detail =
      .ok (.number (0 / 0)) := rfl
  obtain ⟨q, hq, -, hread, -⟩ := assignment_reads_back_unless_reserved hparse hself hv
  exact ⟨hparse, q, hq, hread (by decide)⟩

/-- A handler can assign to `null`, which stays `null` in every expression. -/
theorem assigned_null_reads_as_null :
    Handler.parse "null=event" = .ok (.assign "null=event" "null" .event) ∧
    ∃ q, Handler.run 0 ⟨"input", 0, .text "a"⟩ (.assign "null=event" "null" .event) (samplePage []) = some (.ok (), q) ∧
      ((q.component 0).props.get? "null").map Value.display = some "a" ∧
      Expr.parse "null" = .ok (.literal .null) ∧
      (Expr.literal .null).eval (q.component 0).get .null = .ok .null ∧ (Value.null == .text "a") = false ∧
      (Expr.literal .null).deps = [] := by
  have hname : IsIdentifier (String.toList "null") := @isIdentifier_of_class 'n' ['u', 'l', 'l'] rfl (List.all_eq_true.mp rfl)
  refine ⟨Handler.parse_assign_iff.mpr ⟨by decide, assignsExpr_event "null" hname⟩, _, rfl, by decide +kernel, ?_, rfl,
    rfl, rfl⟩
  exact Expr.parse_of_spelled (spelled_of_reserved (by decide)) .null

end LiveMarkup
