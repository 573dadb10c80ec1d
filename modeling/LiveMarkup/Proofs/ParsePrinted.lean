import LiveMarkup.Expr.Parser
import LiveMarkup.Proofs.Printing

namespace LiveMarkup

variable {e : Expr} {ts : List Token} {level : Nat} {t : Token}

theorem Token.printed_of_atom? (hspelled : ∃ cs, t.Spelled cs) (h : t.atom? = some e) (level : Nat) :
    e.Printed true level [t] := by
  cases t with
  | text s =>
    cases h
    exact .text s
  | number spelling =>
    obtain ⟨x, hx, rfl⟩ := Option.map_eq_some_iff.mp h
    obtain ⟨cs, hcs⟩ := hspelled
    cases hcs with
    | number hnumeral =>
      obtain ⟨q, hq⟩ := hnumeral.exists_value
      exact .number hq (hq.readNumeral?_eq_some_iff.mp hx)
  | word s =>
    simp only [Token.atom?, Option.some.injEq] at h
    by_cases htrue : s = "true"
    · subst htrue
      cases h
      exact .bool true
    by_cases hfalse : s = "false"
    · subst hfalse
      cases h
      exact .bool false
    by_cases hnull : s = "null"
    · subst hnull
      cases h
      exact .null
    by_cases hevent : s = "event"
    · subst hevent
      cases h
      exact .event
    rw [if_neg htrue, if_neg hfalse, if_neg hnull, if_neg hevent] at h
    subst h
    refine .prop ?_
    simp [reservedWords, htrue, hfalse, hnull, hevent]
  | op _ | bang | assign | opening | closing => cases h

section Reading

theorem parseLevel_succ {depth : Nat} (hlevel : level < unaryLevel) (ts : List Token) :
    parseLevel (depth + 1) level ts =
      (parseLevel depth (level + 1) ts).bind fun r => parseOperands depth level r.1 r.2 := by
  rw [parseLevel, if_pos hlevel]
  rfl

theorem parseLevel_unary (depth : Nat) (ts : List Token) :
    parseLevel (depth + 1) unaryLevel ts = parseUnary depth ts := by
  rw [parseLevel, if_neg (Nat.lt_irrefl _)]

theorem parseOperands_op (depth : Nat) (op : BinOp) (left : Expr) (ts : List Token) :
    parseOperands (depth + 1) op.level left (.op op :: ts) =
      (parseLevel depth (op.level + 1) ts).bind fun r =>
        parseOperands depth op.level (.binary op left r.1) r.2 := by
  rw [parseOperands, if_pos rfl]
  rfl

/-- No operator of level `level` or above comes next. -/
def OperatorBelow (level : Nat) (ts : List Token) : Prop :=
  ∀ op, ts.head? = some (.op op) → op.level < level

theorem parseOperands_below (h : ∀ op, ts.head? = some (.op op) → op.level ≠ level) (depth : Nat) (left : Expr) :
    parseOperands (depth + 1) level left ts = some (left, ts) := by
  cases ts with
  | nil => rfl
  | cons t ts =>
    cases t with
    | op op => rw [parseOperands, if_neg (h op rfl)]
    | text _ | number _ | word _ | bang | assign | opening | closing => rfl

theorem parseUnary_bang (depth : Nat) (ts : List Token) :
    parseUnary (depth + 1) (.bang :: ts) = (parseUnary depth ts).map fun r => (.not r.1, r.2) := by
  rw [parseUnary]
  cases parseUnary depth ts <;> rfl

theorem parseUnary_opening_eq_some {depth : Nat} {rest : List Token} :
    parseUnary (depth + 1) (.opening :: ts) = some (e, rest) ↔
      parseLevel depth 0 ts = some (e, .closing :: rest) := by
  rw [parseUnary]
  cases hinner : parseLevel depth 0 ts with
  | none => simp
  | some r =>
    obtain ⟨e', after⟩ := r
    cases after with
    | nil => simp
    | cons t after => cases t <;> simp

theorem parseUnary_atom (hbang : t ≠ .bang) (hopening : t ≠ .opening) (depth : Nat) (ts : List Token) :
    parseUnary (depth + 1) (t :: ts) = t.atom?.map fun e => (e, ts) := by
  cases t with
  | bang => exact absurd rfl hbang
  | opening => exact absurd rfl hopening
  | text _ | number _ | word _ | op _ | assign | closing => rfl

/-- What the three readers take from the front of their tokens writes the tree they return. -/
theorem printed_of_parse (depth : Nat) :
    (∀ {level : Nat} {e : Expr} {ts rest : List Token}, (∀ t ∈ ts, ∃ cs, t.Spelled cs) → level ≤ unaryLevel →
      parseLevel depth level ts = some (e, rest) → ∃ used, ts = used ++ rest ∧ e.Printed true level used) ∧
    (∀ {level : Nat} {left e : Expr} {before ts rest : List Token}, (∀ t ∈ ts, ∃ cs, t.Spelled cs) →
      level < unaryLevel → left.Printed true level before → parseOperands depth level left ts = some (e, rest) →
      ∃ used, ts = used ++ rest ∧ e.Printed true level (before ++ used)) ∧
    (∀ {e : Expr} {ts rest : List Token}, (∀ t ∈ ts, ∃ cs, t.Spelled cs) → parseUnary depth ts = some (e, rest) →
      ∃ used, ts = used ++ rest ∧ e.Printed true unaryLevel used) := by
  induction depth with
  | zero =>
    refine ⟨?_, ?_, ?_⟩
    · intro level e ts rest _ _ h
      simp [parseLevel] at h
    · intro level left e before ts rest _ _ _ h
      simp [parseOperands] at h
    · intro e ts rest _ h
      simp [parseUnary] at h
  | succ depth ih =>
    obtain ⟨ihLevel, ihOperands, ihUnary⟩ := ih
    refine ⟨?_, ?_, ?_⟩
    · intro level e ts rest hts hle h
      by_cases hlt : level < unaryLevel
      · rw [parseLevel_succ hlt, Option.bind_eq_some_iff] at h
        obtain ⟨⟨first, after⟩, hfirst, hoperands⟩ := h
        obtain ⟨used, rfl, hused⟩ := ihLevel hts hlt hfirst
        obtain ⟨more, rfl, hmore⟩ :=
          ihOperands (List.forall_mem_append.mp hts).2 hlt (hused.loosen (Nat.le_succ level)) hoperands
        exact ⟨used ++ more, (List.append_assoc ..).symm, hmore⟩
      · have heq : level = unaryLevel := by omega
        subst heq
        rw [parseLevel_unary] at h
        exact ihUnary hts h
    · intro level left e before ts rest hts hlt hleft h
      by_cases hop : ∃ op tail, ts = .op op :: tail ∧ op.level = level
      · obtain ⟨op, tail, rfl, rfl⟩ := hop
        rw [parseOperands_op, Option.bind_eq_some_iff] at h
        obtain ⟨⟨right, after⟩, hright, hoperands⟩ := h
        have htail := (List.forall_mem_cons.mp hts).2
        obtain ⟨used, rfl, hused⟩ := ihLevel htail hlt hright
        obtain ⟨more, rfl, hmore⟩ :=
          ihOperands (List.forall_mem_append.mp htail).2 hlt (.binary (Nat.le_refl _) hleft hused) hoperands
        refine ⟨.op op :: (used ++ more), by simp, ?_⟩
        rwa [List.append_assoc, List.cons_append] at hmore
      · have hbelow : ∀ op, ts.head? = some (.op op) → op.level ≠ level := by
          intro op hhead heq
          obtain ⟨tail, rfl⟩ := List.head?_eq_some_iff.mp hhead
          exact hop ⟨op, tail, rfl, heq⟩
        rw [parseOperands_below hbelow] at h
        cases h
        exact ⟨[], rfl, by rwa [List.append_nil]⟩
    · intro e ts rest hts h
      cases ts with
      | nil => simp [parseUnary] at h
      | cons t tail =>
        obtain ⟨hfirst, htail⟩ := List.forall_mem_cons.mp hts
        by_cases hbang : t = .bang
        · subst hbang
          rw [parseUnary_bang, Option.map_eq_some_iff] at h
          obtain ⟨⟨inner, after⟩, hinner, heq⟩ := h
          cases heq
          obtain ⟨used, rfl, hused⟩ := ihUnary htail hinner
          exact ⟨.bang :: used, rfl, .not hused⟩
        by_cases hopening : t = .opening
        · subst hopening
          rw [parseUnary_opening_eq_some] at h
          obtain ⟨used, rfl, hused⟩ := ihLevel htail (Nat.zero_le _) h
          exact ⟨.opening :: (used ++ [.closing]), by simp, .parens (.inl rfl) hused⟩
        rw [parseUnary_atom hbang hopening, Option.map_eq_some_iff] at h
        obtain ⟨atom, hatom, heq⟩ := h
        cases heq
        exact ⟨[t], rfl, t.printed_of_atom? hfirst hatom unaryLevel⟩

/-- From the tokens `ts` the reader of level `level` gets to its operators with the tree `e`. -/
def Expr.StartsAt (e : Expr) (level : Nat) (ts : List Token) : Prop :=
  ∀ rest depth, OperatorBelow (level + 1) rest → 6 * (ts ++ rest).length + 6 ≤ depth + level →
    ∃ depth', 6 * rest.length + 1 ≤ depth' ∧
      parseLevel depth level (ts ++ rest) = parseOperands depth' level e rest

/-- The tokens `ts` are read as the operand `e` in front of anything. -/
def Expr.IsOperand (e : Expr) (ts : List Token) : Prop :=
  ∀ rest depth, 6 * (ts ++ rest).length + 1 ≤ depth → parseUnary depth (ts ++ rest) = some (e, rest)

/-- The tokens `ts` are read as `e` at level `level` when no operator of the level follows. -/
def Expr.EndsAt (e : Expr) (level : Nat) (ts : List Token) : Prop :=
  ∀ rest depth, OperatorBelow level rest → 6 * (ts ++ rest).length + 6 ≤ depth + level →
    parseLevel depth level (ts ++ rest) = some (e, rest)

theorem Expr.StartsAt.endsAt (h : e.StartsAt level ts) : e.EndsAt level ts := by
  intro rest depth hbelow hdepth
  have hbelow' : OperatorBelow (level + 1) rest := fun op hop => Nat.lt_succ_of_lt (hbelow op hop)
  obtain ⟨depth', hdepth', heq⟩ := h rest depth hbelow' hdepth
  obtain ⟨d, rfl⟩ : ∃ d, depth' = d + 1 := ⟨depth' - 1, by omega⟩
  rw [heq, parseOperands_below fun op hop => Nat.ne_of_lt (hbelow op hop)]

theorem Expr.EndsAt.startsAt (h : e.EndsAt (level + 1) ts) (hlevel : level < unaryLevel) :
    e.StartsAt level ts := by
  intro rest depth hbelow hdepth
  have hfour : unaryLevel = 4 := rfl
  rw [List.length_append] at hdepth
  obtain ⟨d, rfl⟩ : ∃ d, depth = d + 1 := ⟨depth - 1, by omega⟩
  have hread := h rest d hbelow (by rw [List.length_append]; omega)
  refine ⟨d, by omega, ?_⟩
  rw [parseLevel_succ hlevel, hread]
  rfl

theorem Expr.IsOperand.endsAt (h : e.IsOperand ts) : e.EndsAt unaryLevel ts := by
  intro rest depth hbelow hdepth
  have hfour : unaryLevel = 4 := rfl
  obtain ⟨d, rfl⟩ : ∃ d, depth = d + 1 := ⟨depth - 1, by omega⟩
  rw [parseLevel_unary]
  exact h rest d (by omega)

/-- An expression of a level is one of every level below. -/
theorem Expr.EndsAt.startsAt_of_lt {level' : Nat} (h : e.EndsAt level ts) (hlevel : level ≤ unaryLevel)
    (hlt : level' < level) : e.StartsAt level' ts := by
  induction level with
  | zero => omega
  | succ level ih =>
    have hstarts := h.startsAt hlevel
    by_cases heq : level' = level
    · exact heq ▸ hstarts
    · exact ih hstarts.endsAt (by omega) (by omega)

theorem Expr.StartsAt.binary {op : BinOp} {l r : Expr} {ls rs : List Token} (hl : l.StartsAt op.level ls)
    (hr : r.EndsAt (op.level + 1) rs) : (Expr.binary op l r).StartsAt op.level (ls ++ .op op :: rs) := by
  intro rest depth hbelow hdepth
  rw [List.append_assoc, List.cons_append] at hdepth ⊢
  have hop : OperatorBelow (op.level + 1) (.op op :: (rs ++ rest)) := by
    intro op' hop'
    cases hop'
    exact Nat.lt_succ_self _
  obtain ⟨depth', hdepth', heq⟩ := hl _ depth hop hdepth
  rw [List.length_cons, List.length_append] at hdepth'
  obtain ⟨d, rfl⟩ : ∃ d, depth' = d + 1 := ⟨depth' - 1, by omega⟩
  have hread := hr rest d hbelow (by rw [List.length_append]; omega)
  refine ⟨d, by omega, ?_⟩
  rw [heq, parseOperands_op, hread]
  rfl

theorem Expr.isOperand_atom (h : t.atom? = some e) : e.IsOperand [t] := by
  intro rest depth hdepth
  have hbang : t ≠ .bang := by
    rintro rfl
    cases h
  have hopening : t ≠ .opening := by
    rintro rfl
    cases h
  obtain ⟨d, rfl⟩ : ∃ d, depth = d + 1 := ⟨depth - 1, by omega⟩
  rw [List.singleton_append, parseUnary_atom hbang hopening, h]
  rfl

theorem Expr.IsOperand.not (h : e.IsOperand ts) : (Expr.not e).IsOperand (.bang :: ts) := by
  intro rest depth hdepth
  rw [List.cons_append] at hdepth ⊢
  rw [List.length_cons] at hdepth
  obtain ⟨d, rfl⟩ : ∃ d, depth = d + 1 := ⟨depth - 1, by omega⟩
  rw [parseUnary_bang, h rest d (by omega)]
  rfl

theorem Expr.EndsAt.parens (h : e.EndsAt 0 ts) : e.IsOperand (.opening :: (ts ++ [.closing])) := by
  intro rest depth hdepth
  rw [List.cons_append, List.append_assoc, List.singleton_append] at hdepth ⊢
  rw [List.length_cons] at hdepth
  obtain ⟨d, rfl⟩ : ∃ d, depth = d + 1 := ⟨depth - 1, by omega⟩
  have hclosing : OperatorBelow 0 (.closing :: rest) := nofun
  rw [parseUnary_opening_eq_some]
  exact h _ d hclosing (by omega)

/-- What a reader does on a printing: operands are read whole, and the rest level by level. -/
structure Expr.ReadAt (e : Expr) (level : Nat) (ts : List Token) : Prop where
  operand : unaryLevel ≤ level → e.IsOperand ts
  startsAt : ∀ level' ≤ level, level' < unaryLevel → e.StartsAt level' ts

theorem Expr.IsOperand.readAt (h : e.IsOperand ts) (level : Nat) : e.ReadAt level ts where
  operand _ := h
  startsAt _ _ hlt := h.endsAt.startsAt_of_lt (Nat.le_refl _) hlt

theorem Expr.ReadAt.endsAt (h : e.ReadAt level ts) (hlevel : level ≤ unaryLevel) : e.EndsAt level ts := by
  by_cases hlt : level < unaryLevel
  · exact (h.startsAt level (Nat.le_refl _) hlt).endsAt
  · have heq : level = unaryLevel := by omega
    subst heq
    exact (h.operand (Nat.le_refl _)).endsAt

theorem Expr.Printed.readAt {extra : Bool} (h : e.Printed extra level ts) : e.ReadAt level ts := by
  induction h with
  | text s => exact (Expr.isOperand_atom rfl).readAt _
  | number hq hx =>
    refine (Expr.isOperand_atom ?_).readAt _
    rw [Token.atom?, hq.readNumeral?_eq_some_iff.mpr hx]
    rfl
  | bool b =>
    refine (Expr.isOperand_atom ?_).readAt _
    cases b <;> rfl
  | null => exact (Expr.isOperand_atom rfl).readAt _
  | event => exact (Expr.isOperand_atom rfl).readAt _
  | prop h =>
    simp only [reservedWords, List.mem_cons, List.not_mem_nil, or_false, not_or] at h
    refine (Expr.isOperand_atom ?_).readAt _
    rw [Token.atom?, if_neg h.1, if_neg h.2.1, if_neg h.2.2.1, if_neg h.2.2.2]
  | not _ ih => exact (ih.operand (Nat.le_refl _)).not.readAt _
  | @binary level op l r ls rs hlevel _ _ ihl ihr =>
    have hop := op.level_lt
    have hstarts := (ihl.startsAt op.level (Nat.le_refl _) hop).binary (ihr.endsAt hop)
    refine ⟨fun h => by omega, fun level' hle hlt => ?_⟩
    by_cases heq : level' = op.level
    · exact heq ▸ hstarts
    · exact hstarts.endsAt.startsAt_of_lt (Nat.le_of_lt hop) (by omega)
  | parens _ _ ih => exact (ih.endsAt (Nat.zero_le _)).parens.readAt _

theorem Expr.Printed.parseTokens? {extra : Bool} (h : e.Printed extra 0 ts) : parseTokens? ts = some e := by
  have hread := h.readAt.endsAt (Nat.zero_le _) [] (parseDepth ts) nofun (by
    rw [List.append_nil, parseDepth]
    omega)
  rw [List.append_nil] at hread
  rw [LiveMarkup.parseTokens?, hread]

theorem printed_of_parseTokens? (hts : ∀ t ∈ ts, ∃ cs, t.Spelled cs) (h : parseTokens? ts = some e) :
    e.Printed true 0 ts := by
  unfold parseTokens? at h
  split at h
  next e' hread =>
    cases h
    obtain ⟨used, hsplit, hused⟩ := (printed_of_parse _).1 hts (Nat.zero_le _) hread
    rwa [hsplit, List.append_nil]
  next => cases h

end Reading

theorem Expr.parse_eq_ok_iff {source : String} :
    Expr.parse source = .ok e ↔ (tokens? source.toList).bind parseTokens? = some e := by
  unfold Expr.parse
  cases (tokens? source.toList).bind parseTokens? with
  | none => simp
  | some e' => simp

theorem Expr.parse_of_printed {extra : Bool} {source : String} (h : e.Printed extra 0 ts)
    (hspaced : Spaced ts source.toList) : Expr.parse source = .ok e := by
  rw [Expr.parse_eq_ok_iff, hspaced.tokens? h.follows.1]
  exact h.parseTokens?

/-- Reading a source gives a tree exactly when the source is a printing of the tree, with layout and
extra parentheses anywhere. Trees of the language have a printing, also without extra parentheses. -/
theorem parse_inverts_printing :
    (∀ (e : Expr) (extra : Bool) (ts : List Token) (source : String),
      e.Printed extra 0 ts → Spaced ts source.toList → Expr.parse source = .ok e) ∧
    (∀ (source : String) (e : Expr), Expr.parse source = .ok e →
      ∃ ts, e.Printed true 0 ts ∧ Spaced ts source.toList) ∧
    (∀ e : Expr, e.Writable → ∃ ts source, e.Printed false 0 ts ∧ Spaced ts (String.toList source)) ∧
    (∀ cs : List Char, IsNumeral cs → ∃ q x, NumeralValue cs q ∧ IsNearest q x) ∧
    BinOp.or.level < BinOp.and.level ∧ BinOp.and.level < BinOp.eq.level ∧
    BinOp.eq.level = BinOp.ne.level ∧ BinOp.ne.level < BinOp.add.level ∧
    BinOp.add.level = BinOp.sub.level ∧ BinOp.sub.level < unaryLevel := by
  refine ⟨?_, ?_, ?_, ?_, by decide⟩
  · exact fun e extra ts source hprinted hspaced => Expr.parse_of_printed hprinted hspaced
  · intro source e h
    rw [Expr.parse_eq_ok_iff, Option.bind_eq_some_iff] at h
    obtain ⟨ts, hts, hparse⟩ := h
    have hspaced := spaced_of_tokens? hts
    exact ⟨ts, printed_of_parseTokens? hspaced.spelled hparse, hspaced⟩
  · intro e h
    obtain ⟨ts, hprinted, hspelled⟩ := h.exists_printed 0
    obtain ⟨cs, hspaced⟩ := exists_spaced hspelled
    refine ⟨ts, String.ofList cs, hprinted, ?_⟩
    rwa [String.toList_ofList]
  · intro cs h
    obtain ⟨q, hq⟩ := h.exists_value
    obtain ⟨x, -, hx⟩ := hq.exists_readNumeral?
    exact ⟨q, x, hq, hx⟩

theorem parse_inverts_printing_trueish :
    ∃ ts, (Expr.binary .or (.not (.prop "a"))
        (.binary .eq (.literal (.number 12.5)) (.prop "trueish"))).Printed true 0 ts ∧
      Spaced ts (String.toList "!a ||12.50 ==(trueish)") ∧ Expr.parse "!a ||12.50 ==(trueish)" =
        .ok (.binary .or (.not (.prop "a")) (.binary .eq (.literal (.number 12.5)) (.prop "trueish"))) := by
  have hvalue : NumeralValue ['1', '2', '.', '5', '0'] _ :=
    @NumeralValue.fraction ['1', '2'] ['5', '0'] nofun (List.all_eq_true.mp rfl) nofun (List.all_eq_true.mp rfl)
  have hnumber : IsNearest (digitsValue ['1', '2'] + digitsValue ['5', '0'] / 10 ^ 2) 12.5 := by
    have htwelve : digitsValue ['1', '2'] = 12 := by decide
    have hfifty : digitsValue ['5', '0'] = 50 := by decide
    have hx : Binary.ofFloat 12.5 = .finite false 7036874417766400 (-49) := by decide
    rw [htwelve, hfifty]
    refine .of_value hx (by norm_num) ?_
    calc (12 : ℚ) + 50 / 10 ^ 2 < 2 ^ 4 := by norm_num
      _ ≤ 2 ^ 970 := pow_le_pow_right₀ one_le_two (by norm_num)
      _ ≤ overflow := le_overflow
  have hnot : (Expr.not (.prop "a")).Printed true 0 [.bang, .word "a"] := .not (.prop (by decide))
  have hparens : (Expr.prop "trueish").Printed true 3 [.opening, .word "trueish", .closing] :=
    .parens (.inl rfl) (.prop (by decide))
  have hright : (Expr.binary .eq (.literal (.number 12.5)) (.prop "trueish")).Printed true 1
      ([.number "12.50"] ++ [.op .eq, .opening, .word "trueish", .closing]) :=
    .binary (by decide) (.number hvalue hnumber) hparens
  have hspaced : Spaced [.bang, .word "a", .op .or, .number "12.50", .op .eq, .opening, .word "trueish", .closing]
      (String.toList "!a ||12.50 ==(trueish)") := by
    have hend : Spaced [.opening, .word "trueish", .closing] (String.toList "(trueish)") :=
      .adjacent .opening (.adjacent (Token.spelled_word rfl (List.all_eq_true.mp rfl))
        (.adjacent .closing (.done isGap_nil)))
    have hequation : Spaced [.number "12.50", .op .eq, .opening, .word "trueish", .closing]
        (String.toList "12.50 ==(trueish)") :=
      .adjacent (.number hvalue.isNumeral) (.layout (.adjacent (.op .eq) hend) rfl)
    exact .adjacent .bang (.adjacent (Token.spelled_word rfl (List.all_eq_true.mp rfl))
      (.layout (.adjacent (.op .or) hequation) rfl))
  have hprinted := @Expr.Printed.binary true 0 .or _ _ _ _ (Nat.le_refl _) hnot hright
  exact ⟨_, hprinted, hspaced, parse_inverts_printing.1 _ true _ _ hprinted hspaced⟩

end LiveMarkup
