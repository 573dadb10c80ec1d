import LiveMarkup.Expr.Basic

namespace LiveMarkup

/-- The words of the expression language. A number keeps its spelling. -/
inductive Token where
  | text (s : String)
  | number (spelling : String)
  | word (s : String)
  | op (op : BinOp)
  | bang
  | assign
  | opening
  | closing
deriving DecidableEq, Repr

/-- The characters that may stand between tokens. -/
def isLayout (c : Char) : Bool :=
  c == ' ' || c == '\t' || c == '\r' || c == '\n'

def isWordStart (c : Char) : Bool :=
  c.isAlpha || c == '_' || c == '$'

def isWordChar (c : Char) : Bool :=
  c.isAlphanum || c == '_' || c == '$'

/-- Digits, and a fraction when a digit follows the point. -/
def spanNumber (cs : List Char) : List Char × List Char :=
  let whole := cs.takeWhile Char.isDigit
  match cs.dropWhile Char.isDigit with
  | '.' :: d :: rest =>
    if d.isDigit then
      (whole ++ '.' :: (d :: rest).takeWhile Char.isDigit, (d :: rest).dropWhile Char.isDigit)
    else (whole, '.' :: d :: rest)
  | rest => (whole, rest)

/-- The token a text begins with, and the text after it. -/
def nextToken? : List Char → Option (Token × List Char)
  | [] => none
  | '|' :: '|' :: rest => some (.op .or, rest)
  | '&' :: '&' :: rest => some (.op .and, rest)
  | '=' :: '=' :: rest => some (.op .eq, rest)
  | '!' :: '=' :: rest => some (.op .ne, rest)
  | '=' :: rest => some (.assign, rest)
  | '!' :: rest => some (.bang, rest)
  | '+' :: rest => some (.op .add, rest)
  | '-' :: rest => some (.op .sub, rest)
  | '(' :: rest => some (.opening, rest)
  | ')' :: rest => some (.closing, rest)
  | c :: rest =>
    if c == '"' || c == '\'' then
      match rest.dropWhile (· ≠ c) with
      | [] => none
      | _ :: after => some (.text (String.ofList (rest.takeWhile (· ≠ c))), after)
    else if c.isDigit then
      let (spelling, after) := spanNumber (c :: rest)
      some (.number (String.ofList spelling), after)
    else if isWordStart c then
      some (.word (String.ofList ((c :: rest).takeWhile isWordChar)), (c :: rest).dropWhile isWordChar)
    else none

theorem length_dropWhile_le (p : α → Bool) (xs : List α) : (xs.dropWhile p).length ≤ xs.length := by
  induction xs with
  | nil => simp
  | cons x xs ih =>
    rw [List.dropWhile_cons]
    split
    · simp only [List.length_cons]
      omega
    · simp

theorem length_dropWhile_lt {p : α → Bool} {x : α} {xs : List α} (h : p x = true) :
    ((x :: xs).dropWhile p).length < (x :: xs).length := by
  rw [List.dropWhile_cons_of_pos h]
  have := length_dropWhile_le p xs
  simp only [List.length_cons]
  omega

theorem isWordChar_of_isWordStart {c : Char} (h : isWordStart c = true) : isWordChar c = true := by
  simp only [isWordStart, isWordChar, Char.isAlphanum, Bool.or_eq_true] at h ⊢
  rcases h with (h | h) | h <;> simp [h]

theorem length_spanNumber {c : Char} {cs : List Char} (h : c.isDigit = true) :
    (spanNumber (c :: cs)).2.length < (c :: cs).length := by
  have hlt : ((c :: cs).dropWhile Char.isDigit).length < (c :: cs).length := length_dropWhile_lt h
  unfold spanNumber
  split
  next d rest heq =>
    rw [heq] at hlt
    simp only [List.length_cons] at hlt ⊢
    split
    · have := length_dropWhile_le Char.isDigit (d :: rest)
      simp only [List.length_cons] at this
      dsimp only
      omega
    · simp only [List.length_cons]
      omega
  next rest _ => exact hlt

theorem length_nextToken? {cs rest : List Char} {t : Token} (h : nextToken? cs = some (t, rest)) :
    rest.length < cs.length := by
  unfold nextToken? at h
  split at h
  case h_1 => simp at h
  case h_12 c tail _ _ _ _ _ _ _ _ _ _ =>
    split at h
    · split at h
      · simp at h
      next q after heq =>
        have hle := length_dropWhile_le (fun x => decide (x ≠ c)) tail
        rw [heq] at hle
        simp only [Option.some.injEq, Prod.mk.injEq] at h
        obtain ⟨-, rfl⟩ := h
        simp only [List.length_cons] at hle ⊢
        omega
    · split at h
      next hd =>
        simp only [Option.some.injEq, Prod.mk.injEq] at h
        obtain ⟨-, rfl⟩ := h
        exact length_spanNumber hd
      · split at h
        next hw =>
          simp only [Option.some.injEq, Prod.mk.injEq] at h
          obtain ⟨-, rfl⟩ := h
          exact length_dropWhile_lt (isWordChar_of_isWordStart hw)
        · simp at h
  all_goals
    simp only [Option.some.injEq, Prod.mk.injEq] at h
    obtain ⟨-, rfl⟩ := h
    simp only [List.length_cons]
    omega

/-- The tokens of a text, or nothing when some part of it is no token. -/
def tokens? (cs : List Char) : Option (List Token) :=
  match cs with
  | [] => some []
  | c :: rest =>
    if isLayout c then tokens? rest
    else
      match h : nextToken? (c :: rest) with
      | none => none
      | some (t, after) =>
        have : after.length < (c :: rest).length := length_nextToken? h
        (tokens? after).map (t :: ·)
termination_by cs.length
decreasing_by
  · exact Nat.lt_succ_self _
  · exact this

end LiveMarkup
