import LiveMarkup.Expr.Parser
import LiveMarkup.Proofs.NumeralValue

namespace LiveMarkup

/-- The words that do not name a property. -/
def reservedWords : List String :=
  ["true", "false", "null", "event"]

/-- How tightly the outermost operator of a tree binds. -/
def Expr.level : Expr → Nat
  | .binary op _ _ => op.level
  | _ => unaryLevel

/-- The ways to write a tree where only operators from `level` upwards may stand outside parentheses.
Parentheses stand where the tree needs them, and anywhere else too when `extra` is set. -/
inductive Expr.Printed (extra : Bool) : Nat → Expr → List Token → Prop where
  | text {level : Nat} (s : String) : Printed extra level (.literal (.text s)) [.text s]
  | number {level : Nat} {cs : List Char} {q : ℚ} {x : Float} (hq : NumeralValue cs q) (hx : IsNearest q x) :
      Printed extra level (.literal (.number x)) [.number (String.ofList cs)]
  | bool {level : Nat} (b : Bool) :
      Printed extra level (.literal (.bool b)) [.word (if b then "true" else "false")]
  | null {level : Nat} : Printed extra level (.literal .null) [.word "null"]
  | event {level : Nat} : Printed extra level .event [.word "event"]
  | prop {level : Nat} {name : String} (h : name ∉ reservedWords) :
      Printed extra level (.prop name) [.word name]
  | not {level : Nat} {e : Expr} {ts : List Token} (h : Printed extra unaryLevel e ts) :
      Printed extra level (.not e) (.bang :: ts)
  | binary {level : Nat} {op : BinOp} {l r : Expr} {ls rs : List Token} (hlevel : level ≤ op.level)
      (hl : Printed extra op.level l ls) (hr : Printed extra (op.level + 1) r rs) :
      Printed extra level (.binary op l r) (ls ++ .op op :: rs)
  | parens {level : Nat} {e : Expr} {ts : List Token} (hneed : extra = true ∨ e.level < level)
      (h : Printed extra 0 e ts) : Printed extra level e (.opening :: (ts ++ [.closing]))

theorem BinOp.level_lt (op : BinOp) : op.level < unaryLevel := by
  cases op <;> decide

theorem Expr.Printed.loosen {e : Expr} {level level' : Nat} {ts : List Token}
    (h : e.Printed true level ts) (hle : level' ≤ level) : e.Printed true level' ts := by
  cases h with
  | text s => exact .text s
  | number hq hx => exact .number hq hx
  | bool b => exact .bool b
  | null => exact .null
  | event => exact .event
  | prop h => exact .prop h
  | not h => exact .not h
  | binary hlevel hl hr => exact .binary (by omega) hl hr
  | parens hneed h => exact .parens (.inl rfl) h

/-- A printing begins and ends with an operand, and no two of its tokens run together. -/
theorem Expr.Printed.follows {extra : Bool} {e : Expr} {level : Nat} {ts : List Token}
    (h : e.Printed extra level ts) :
    ts.IsChain Token.Follows ∧ (∃ t ∈ ts.head?, t.opensOperand = true) ∧
      ∃ t ∈ ts.getLast?, t.closesOperand = true := by
  induction h with
  | text s => exact ⟨.singleton _, ⟨_, rfl, rfl⟩, _, rfl, rfl⟩
  | number hq hx => exact ⟨.singleton _, ⟨_, rfl, rfl⟩, _, rfl, rfl⟩
  | bool b => exact ⟨.singleton _, ⟨_, rfl, rfl⟩, _, rfl, rfl⟩
  | null => exact ⟨.singleton _, ⟨_, rfl, rfl⟩, _, rfl, rfl⟩
  | event => exact ⟨.singleton _, ⟨_, rfl, rfl⟩, _, rfl, rfl⟩
  | prop h => exact ⟨.singleton _, ⟨_, rfl, rfl⟩, _, rfl, rfl⟩
  | @not level e ts _ ih =>
    obtain ⟨hchain, ⟨first, hfirst, hopens⟩, last, hlast, hcloses⟩ := ih
    refine ⟨hchain.cons ?_, ⟨_, rfl, rfl⟩, last, ?_, hcloses⟩
    · intro t ht
      rw [Option.mem_unique ht hfirst]
      exact hopens
    · rw [List.getLast?_cons, hlast]
      rfl
  | @binary level op l r ls rs hlevel _ _ ihl ihr =>
    obtain ⟨hchainl, ⟨firstl, hfirstl, hopensl⟩, lastl, hlastl, hclosesl⟩ := ihl
    obtain ⟨hchainr, ⟨firstr, hfirstr, hopensr⟩, lastr, hlastr, hclosesr⟩ := ihr
    have hop : (Token.op op :: rs).IsChain Token.Follows := by
      refine hchainr.cons fun t ht => ?_
      rw [Option.mem_unique ht hfirstr]
      exact hopensr
    refine ⟨hchainl.append hop ?_, ⟨firstl, ?_, hopensl⟩, lastr, ?_, hclosesr⟩
    · intro t ht t' ht'
      rw [Option.mem_unique ht hlastl]
      cases ht'
      rw [Token.Follows, hclosesl]
      rfl
    · rw [List.head?_append, hfirstl]
      rfl
    · rw [List.getLast?_append, List.getLast?_cons, hlastr]
      rfl
  | @parens level e ts _ _ ih =>
    obtain ⟨hchain, ⟨first, hfirst, hopens⟩, last, hlast, hcloses⟩ := ih
    have hclosing : (ts ++ [Token.closing]).IsChain Token.Follows := by
      refine hchain.append (.singleton _) ?_
      intro t ht t' ht'
      rw [Option.mem_unique ht hlast]
      cases ht'
      rw [Token.Follows, hcloses]
      rfl
    refine ⟨hclosing.cons ?_, ⟨_, rfl, rfl⟩, .closing, ?_, rfl⟩
    · intro t ht
      rw [List.head?_append, hfirst] at ht
      cases ht
      exact hopens
    · rw [← List.cons_append, List.getLast?_append]
      rfl

/-- The trees of the language: a text lacks one of the quotes, a number stands for a numeral, and a
property has a name that is no reserved word. -/
inductive Expr.Writable : Expr → Prop where
  | text {quote : Char} {cs : List Char} (hquote : quote = '"' ∨ quote = '\'') (hcs : quote ∉ cs) :
      Writable (.literal (.text (String.ofList cs)))
  | number {cs : List Char} {q : ℚ} {x : Float} (hq : NumeralValue cs q) (hx : IsNearest q x) :
      Writable (.literal (.number x))
  | bool (b : Bool) : Writable (.literal (.bool b))
  | null : Writable (.literal .null)
  | event : Writable .event
  | prop {c : Char} {cs : List Char} (hc : BeginsWord c) (hcs : ∀ x ∈ cs, ContinuesWord x)
      (h : String.ofList (c :: cs) ∉ reservedWords) : Writable (.prop (String.ofList (c :: cs)))
  | not {e : Expr} (h : Writable e) : Writable (.not e)
  | binary {op : BinOp} {l r : Expr} (hl : Writable l) (hr : Writable r) : Writable (.binary op l r)

/-- Tokens that can be written can be written side by side. -/
theorem exists_spaced {ts : List Token} (h : ∀ t ∈ ts, ∃ cs, t.Spelled cs) : ∃ cs, Spaced ts cs := by
  induction ts with
  | nil => exact ⟨[], .done isGap_nil⟩
  | cons t ts ih =>
    obtain ⟨cs, hcs⟩ := h t List.mem_cons_self
    obtain ⟨rest, hrest⟩ := ih fun t' ht' => h t' (List.mem_cons_of_mem _ ht')
    exact ⟨cs ++ rest, .adjacent hcs hrest⟩

theorem spelled_append {ts ts' : List Token} (h : ∀ t ∈ ts, ∃ cs, t.Spelled cs)
    (h' : ∀ t ∈ ts', ∃ cs, t.Spelled cs) : ∀ t ∈ ts ++ ts', ∃ cs, t.Spelled cs := by
  intro t ht
  rcases List.mem_append.mp ht with ht | ht
  · exact h t ht
  · exact h' t ht

theorem spelled_singleton {t : Token} {cs : List Char} (h : t.Spelled cs) :
    ∀ t' ∈ [t], ∃ cs, t'.Spelled cs := by
  intro t' ht'
  cases List.mem_singleton.mp ht'
  exact ⟨cs, h⟩

theorem spelled_of_reserved {s : String} (h : s ∈ reservedWords) : (Token.word s).Spelled s.toList := by
  simp only [reservedWords, List.mem_cons, List.not_mem_nil, or_false] at h
  rcases h with rfl | rfl | rfl | rfl <;> exact Token.spelled_word rfl (List.all_eq_true.mp rfl)

/-- A tree of the language has a printing without needless parentheses. -/
theorem Expr.Writable.exists_printed {e : Expr} (h : e.Writable) (level : Nat) :
    ∃ ts, e.Printed false level ts ∧ ∀ t ∈ ts, ∃ cs, t.Spelled cs := by
  induction h generalizing level with
  | text hquote hcs => exact ⟨_, .text _, spelled_singleton (.text hquote hcs)⟩
  | number hq hx => exact ⟨_, .number hq hx, spelled_singleton (.number hq.isNumeral)⟩
  | bool b =>
    refine ⟨_, .bool b, spelled_singleton (spelled_of_reserved ?_)⟩
    cases b <;> decide
  | null => exact ⟨_, .null, spelled_singleton (spelled_of_reserved (by decide))⟩
  | event => exact ⟨_, .event, spelled_singleton (spelled_of_reserved (by decide))⟩
  | prop hc hcs h => exact ⟨_, .prop h, spelled_singleton (.word hc hcs)⟩
  | not _ ih =>
    obtain ⟨ts, hts, hspelled⟩ := ih unaryLevel
    exact ⟨_, .not hts, spelled_append (spelled_singleton .bang) hspelled⟩
  | @binary op l r _ _ ihl ihr =>
    obtain ⟨ls, hls, hlspelled⟩ := ihl op.level
    obtain ⟨rs, hrs, hrspelled⟩ := ihr (op.level + 1)
    have hall := spelled_append hlspelled (spelled_append (spelled_singleton (.op op)) hrspelled)
    by_cases hlevel : level ≤ op.level
    · exact ⟨_, .binary hlevel hls hrs, hall⟩
    · refine ⟨_, .parens (.inr ?_) (.binary (Nat.zero_le _) hls hrs), ?_⟩
      · exact Nat.lt_of_not_le hlevel
      · exact spelled_append (spelled_singleton .opening)
          (spelled_append hall (spelled_singleton .closing))

end LiveMarkup
