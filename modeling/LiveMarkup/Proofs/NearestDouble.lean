import Mathlib
import LiveMarkup.Decimal.Binary

/-!
Which double stands for a number: the nearest one, and of two equally near ones the one with the even
mantissa. The bits of the doubles from zero on are in the order of their numbers, so rounding is a
choice between two neighbours among the bits.
-/

namespace LiveMarkup

/-- The number that a finite double stands for. -/
def Binary.value? : Binary → Option ℚ
  | .nan | .infinite _ => none
  | .finite negative mantissa exponent =>
    some ((if negative then -1 else 1) * (mantissa * 2 ^ exponent))

/-- Halfway from the largest double to `2 ^ 1024`. -/
def overflow : ℚ :=
  2 ^ 1024 - 2 ^ 970

/-- The double that stands for a number `q` from zero on. -/
inductive IsNearest (q : ℚ) (x : Float) : Prop where
  | finite {mantissa : ℕ} {exponent : ℤ} (hx : Binary.ofFloat x = .finite false mantissa exponent)
      (hq : q < overflow)
      (hnear : ∀ (y : Float) (v : ℚ), (Binary.ofFloat y).value? = some v →
        |mantissa * 2 ^ exponent - q| ≤ |v - q|)
      (heven : ∀ (y : Float) (v : ℚ), (Binary.ofFloat y).value? = some v → v ≠ mantissa * 2 ^ exponent →
        |v - q| = |mantissa * 2 ^ exponent - q| → mantissa % 2 = 0)
  | infinite (hx : Binary.ofFloat x = .infinite false) (hq : overflow ≤ q)

section Grid

/-- The number that the bits of a double from zero on stand for, with the exponents going on above the
largest double. -/
def bitsValue (b : ℕ) : ℚ :=
  if b < twoTo 52 then b * 2 ^ (-1074 : ℤ)
  else (b % twoTo 52 + twoTo 52 : ℕ) * 2 ^ ((b / twoTo 52 : ℕ) - 1075 : ℤ)

theorem twoTo_pos (n : ℕ) : 0 < twoTo n :=
  Nat.two_pow_pos n

theorem twoTo_succ (n : ℕ) : twoTo (n + 1) = 2 * twoTo n :=
  Nat.pow_succ'

/-- `k` steps of one width above `t` full rows of bits. -/
theorem bitsValue_grid {t k : ℕ} (hk : k ≤ twoTo 53) (h : twoTo 52 ≤ k ∨ t = 0) :
    bitsValue (t * twoTo 52 + k) = k * 2 ^ ((t : ℤ) - 1074) := by
  have hrow : twoTo 53 = 2 * twoTo 52 := twoTo_succ 52
  have hpos := twoTo_pos 52
  unfold bitsValue
  by_cases hlow : k < twoTo 52
  · obtain rfl : t = 0 := h.resolve_left (by omega)
    rw [Nat.zero_mul, Nat.zero_add, if_pos hlow]
    simp
  rw [if_neg (by omega)]
  rcases Nat.lt_or_ge k (twoTo 53) with hlt | hge
  · obtain ⟨r, rfl⟩ : ∃ r, k = r + twoTo 52 := ⟨k - twoTo 52, by omega⟩
    have hr : r < twoTo 52 := by omega
    have hsum : t * twoTo 52 + (r + twoTo 52) = r + twoTo 52 * (t + 1) := by ring
    rw [hsum, Nat.add_mul_mod_self_left, Nat.mod_eq_of_lt hr, Nat.add_mul_div_left _ _ hpos,
      Nat.div_eq_of_lt hr]
    congr 2
    push_cast
    ring
  · -- the top of a row is the start of the next one, which is twice as wide
    obtain rfl : k = twoTo 52 * 2 := by omega
    have hsum : t * twoTo 52 + twoTo 52 * 2 = twoTo 52 * (t + 2) := by ring
    rw [hsum, Nat.mul_mod_right, Nat.mul_div_cancel_left _ hpos, Nat.zero_add, Nat.cast_mul, mul_assoc]
    congr 1
    rw [show ((t + 2 : ℕ) : ℤ) - 1075 = 1 + (t - 1074) by push_cast; ring, zpow_add₀ two_ne_zero, zpow_one]
    rfl

/-- Every bit pattern is a place in its row. -/
theorem exists_grid (b : ℕ) :
    ∃ t k, b = t * twoTo 52 + k ∧ k < twoTo 53 ∧ (twoTo 52 ≤ k ∨ t = 0) := by
  have hrow : twoTo 53 = 2 * twoTo 52 := twoTo_succ 52
  have hpos := twoTo_pos 52
  rcases Nat.lt_or_ge b (twoTo 52) with hlt | hge
  · exact ⟨0, b, by omega, by omega, .inr rfl⟩
  · have hdiv : 0 < b / twoTo 52 := Nat.div_pos hge hpos
    have hmod := Nat.mod_lt b hpos
    obtain ⟨t, ht⟩ : ∃ t, b / twoTo 52 = t + 1 := ⟨b / twoTo 52 - 1, by omega⟩
    refine ⟨t, b % twoTo 52 + twoTo 52, ?_, by omega, .inl (by omega)⟩
    have hsplit := Nat.div_add_mod b (twoTo 52)
    rw [ht, Nat.mul_add, Nat.mul_comm] at hsplit
    omega

theorem bitsValue_strictMono : StrictMono bitsValue := by
  refine strictMono_nat_of_lt_succ fun b => ?_
  obtain ⟨t, k, rfl, hk, h⟩ := exists_grid b
  have hnext : twoTo 52 ≤ k + 1 ∨ t = 0 := h.imp_left Nat.le_succ_of_le
  rw [bitsValue_grid hk.le h, Nat.add_assoc, bitsValue_grid hk hnext]
  gcongr
  exact Nat.lt_succ_self k

theorem bitsValue_zero : bitsValue 0 = 0 := by
  simpa using bitsValue_grid (t := 0) (Nat.zero_le _) (.inr rfl)

theorem bitsValue_nonneg (b : ℕ) : 0 ≤ bitsValue b :=
  bitsValue_zero ▸ bitsValue_strictMono.monotone (Nat.zero_le b)

/-- The bits of the number nearest to `q`, those of an even mantissa at a tie. -/
structure NearestBits (q : ℚ) (b : ℕ) : Prop where
  near : ∀ b', |bitsValue b - q| ≤ |bitsValue b' - q|
  even : ∀ b' ≠ b, |bitsValue b' - q| = |bitsValue b - q| → b % 2 = 0

variable {q : ℚ} {b b' : ℕ}

/-- Between two neighbours the lower one is taken up to the middle. -/
theorem NearestBits.lower (hlow : bitsValue b ≤ q) (hhigh : q < bitsValue (b + 1))
    (hhalf : q - bitsValue b ≤ bitsValue (b + 1) - q)
    (htie : q - bitsValue b = bitsValue (b + 1) - q → b % 2 = 0) : NearestBits q b := by
  have hbelow : ∀ b' < b, q - bitsValue b < |bitsValue b' - q| := by
    intro b' hlt
    have hval := bitsValue_strictMono hlt
    rw [abs_sub_comm]
    exact lt_of_lt_of_le (by linarith) (le_abs_self _)
  have habove : ∀ b' > b, bitsValue (b + 1) - q ≤ |bitsValue b' - q| := by
    intro b' hgt
    have hval := bitsValue_strictMono.monotone (show b + 1 ≤ b' from hgt)
    exact le_trans (by linarith) (le_abs_self _)
  have hself : |bitsValue b - q| = q - bitsValue b := by
    rw [abs_sub_comm, abs_of_nonneg (by linarith)]
  refine ⟨fun b' => ?_, fun b' hne heq => ?_⟩
  · rcases Nat.lt_trichotomy b' b with hlt | rfl | hgt
    · exact hself.trans_le (hbelow b' hlt).le
    · exact le_rfl
    · exact hself.trans_le (hhalf.trans (habove b' hgt))
  · rw [hself] at heq
    rcases Nat.lt_or_gt_of_ne hne with hlt | hgt
    · exact absurd heq (hbelow b' hlt).ne'
    · exact htie (le_antisymm hhalf (heq ▸ habove b' hgt))

/-- Between two neighbours the upper one is taken from the middle on. -/
theorem NearestBits.upper (hhigh : q < bitsValue (b + 1))
    (hhalf : bitsValue (b + 1) - q ≤ q - bitsValue b)
    (htie : q - bitsValue b = bitsValue (b + 1) - q → (b + 1) % 2 = 0) : NearestBits q (b + 1) := by
  have hbelow : ∀ b' < b + 1, q - bitsValue b ≤ |bitsValue b' - q| := by
    intro b' hlt
    have hval := bitsValue_strictMono.monotone (Nat.le_of_lt_succ hlt)
    rw [abs_sub_comm]
    exact le_trans (by linarith) (le_abs_self _)
  have habove : ∀ b' > b + 1, bitsValue (b + 1) - q < |bitsValue b' - q| := by
    intro b' hgt
    have hval := bitsValue_strictMono hgt
    exact lt_of_lt_of_le (by linarith) (le_abs_self _)
  have hself : |bitsValue (b + 1) - q| = bitsValue (b + 1) - q := abs_of_nonneg (by linarith)
  refine ⟨fun b' => ?_, fun b' hne heq => ?_⟩
  · rcases Nat.lt_trichotomy b' (b + 1) with hlt | rfl | hgt
    · exact hself.trans_le (hhalf.trans (hbelow b' hlt))
    · exact le_rfl
    · exact hself.trans_le (habove b' hgt).le
  · rw [hself] at heq
    rcases Nat.lt_or_gt_of_ne hne with hlt | hgt
    · exact htie (le_antisymm (heq ▸ hbelow b' hlt) hhalf)
    · exact absurd heq (habove b' hgt).ne'

theorem NearestBits.not_lt (h : NearestBits q b) (h' : NearestBits q b') : ¬b < b' := by
  intro hlt
  have heq : |bitsValue b - q| = |bitsValue b' - q| := le_antisymm (h.near b') (h'.near b)
  have heven := h.even b' hlt.ne' heq.symm
  have heven' := h'.even b hlt.ne heq
  -- two even patterns have one in between, which is nearer than both
  have hval := bitsValue_strictMono (Nat.lt_succ_self b)
  have hval' := bitsValue_strictMono (show b + 1 < b' by omega)
  have hnear := h.near (b + 1)
  rcases abs_cases (bitsValue b - q) with hb | hb <;> rcases abs_cases (bitsValue b' - q) with hb' | hb' <;>
    rcases abs_cases (bitsValue (b + 1) - q) with hm | hm <;> linarith

theorem NearestBits.unique (h : NearestBits q b) (h' : NearestBits q b') : b = b' :=
  Nat.le_antisymm (Nat.le_of_not_lt (h'.not_lt h)) (Nat.le_of_not_lt (h.not_lt h'))

end Grid

section Rounding

variable {num den : ℕ} {e : ℤ}

/-- The floor, and which half above it the quotient lies in. -/
theorem roundEven_cases (n : ℕ) {d : ℕ} (hd : 0 < d) :
    (roundEven n d = n / d ∧ (n / d : ℚ) - (n / d : ℕ) ≤ 1 / 2 ∧
      ((n / d : ℚ) - (n / d : ℕ) = 1 / 2 → n / d % 2 = 0)) ∨
    (roundEven n d = n / d + 1 ∧ 1 / 2 ≤ (n / d : ℚ) - (n / d : ℕ) ∧
      ((n / d : ℚ) - (n / d : ℕ) = 1 / 2 → (n / d + 1) % 2 = 0)) := by
  have hd' : (0 : ℚ) < d := Nat.cast_pos.mpr hd
  have hrest : (n / d : ℚ) - (n / d : ℕ) = (n % d : ℕ) / d := by
    have hsplit : (n : ℚ) = d * (n / d : ℕ) + (n % d : ℕ) := by
      exact_mod_cast (Nat.div_add_mod n d).symm
    rw [eq_div_iff hd'.ne', sub_mul, div_mul_cancel₀ _ hd'.ne']
    linarith
  rw [hrest, div_le_div_iff₀ hd' two_pos, div_le_div_iff₀ two_pos hd', div_eq_div_iff hd'.ne' two_ne_zero,
    one_mul]
  norm_cast
  unfold roundEven
  dsimp only
  split
  next hup =>
    refine .inr ⟨rfl, ?_, fun htie => ?_⟩
    · grind
    · grind
  next hup =>
    refine .inl ⟨rfl, ?_, fun htie => ?_⟩
    · grind
    · grind

theorem inUnits_pos (num : ℕ) (e : ℤ) (hden : 0 < den) : 0 < (inUnits num den e).2 := by
  unfold inUnits
  split
  · exact hden
  · exact Nat.mul_pos hden (twoTo_pos _)

theorem twoTo_cast (n : ℕ) : (twoTo n : ℚ) = 2 ^ (n : ℤ) := by
  rw [twoTo, Nat.pow_eq, Nat.cast_pow, Nat.cast_ofNat, zpow_natCast]

theorem inUnits_div : ((inUnits num den e).1 : ℚ) / (inUnits num den e).2 = num / den / 2 ^ e := by
  unfold inUnits
  split
  next hneg =>
    rw [Nat.cast_mul, twoTo_cast, show (e.natAbs : ℤ) = -e by omega, zpow_neg]
    ring
  next hnonneg =>
    rw [Nat.cast_mul, twoTo_cast, show (e.toNat : ℤ) = e by omega, div_div]

/-- The logarithms place a fraction up to a factor of four. -/
theorem div_log2_bounds (hnum : 0 < num) (hden : 0 < den) :
    (2 : ℚ) ^ ((num.log2 : ℤ) - den.log2 - 1) < num / den ∧
      (num / den : ℚ) < 2 ^ ((num.log2 : ℤ) - den.log2 + 1) := by
  have hlow : (2 : ℚ) ^ (num.log2 : ℤ) ≤ num := by
    rw [zpow_natCast]
    exact_mod_cast Nat.log2_self_le hnum.ne'
  have hhigh : (num : ℚ) < 2 ^ ((num.log2 : ℤ) + 1) := by
    exact_mod_cast Nat.lt_log2_self
  have hlow' : (2 : ℚ) ^ (den.log2 : ℤ) ≤ den := by
    rw [zpow_natCast]
    exact_mod_cast Nat.log2_self_le hden.ne'
  have hhigh' : (den : ℚ) < 2 ^ ((den.log2 : ℤ) + 1) := by
    exact_mod_cast Nat.lt_log2_self
  have hden' : (0 : ℚ) < den := Nat.cast_pos.mpr hden
  constructor
  · rw [lt_div_iff₀ hden']
    calc (2 : ℚ) ^ ((num.log2 : ℤ) - den.log2 - 1) * den
        < 2 ^ ((num.log2 : ℤ) - den.log2 - 1) * 2 ^ ((den.log2 : ℤ) + 1) := by gcongr
      _ = 2 ^ (num.log2 : ℤ) := by rw [← zpow_add₀ two_ne_zero]; congr 1; ring
      _ ≤ num := hlow
  · rw [div_lt_iff₀ hden']
    calc (num : ℚ) < 2 ^ ((num.log2 : ℤ) + 1) := hhigh
      _ = 2 ^ ((num.log2 : ℤ) - den.log2 + 1) * 2 ^ (den.log2 : ℤ) := by
        rw [← zpow_add₀ two_ne_zero]; congr 1; ring
      _ ≤ 2 ^ ((num.log2 : ℤ) - den.log2 + 1) * den := by gcongr

/-- At its exponent a fraction has a mantissa of 53 bits, or of less at the smallest exponent. -/
theorem mantissaExponent_spec (hnum : 0 < num) (hden : 0 < den) :
    -1074 ≤ mantissaExponent num den ∧ (num / den / 2 ^ mantissaExponent num den : ℚ) < twoTo 53 ∧
      ((twoTo 52 : ℚ) ≤ num / den / 2 ^ mantissaExponent num den ∨ mantissaExponent num den = -1074) := by
  obtain ⟨hlow, hhigh⟩ := div_log2_bounds hnum hden
  obtain ⟨wanted, hwanted⟩ : ∃ w : ℤ, w = (num.log2 : ℤ) - den.log2 - 53 := ⟨_, rfl⟩
  obtain ⟨guess, hguess⟩ : ∃ g : ℤ, g = if wanted < -1074 then -1074 else wanted := ⟨_, rfl⟩
  have hge : -1074 ≤ guess ∧ wanted ≤ guess ∧ (wanted = guess ∨ guess = -1074) := by
    split at hguess <;> omega
  have hexp : mantissaExponent num den =
      if twoTo 53 ≤ (inUnits num den guess).1 / (inUnits num den guess).2 then guess + 1 else guess := by
    rw [hguess, hwanted]
    rfl
  have hfull : twoTo 53 ≤ (inUnits num den guess).1 / (inUnits num den guess).2 ↔
      (twoTo 53 : ℚ) ≤ num / den / 2 ^ guess := by
    have hpos := inUnits_pos num guess hden
    rw [Nat.le_div_iff_mul_le hpos, ← inUnits_div, le_div_iff₀ (Nat.cast_pos.mpr hpos)]
    norm_cast
  rw [hexp, twoTo_cast, twoTo_cast]
  rw [twoTo_cast] at hfull
  simp only [le_div_iff₀ (zpow_pos (two_pos (α := ℚ)) _), div_lt_iff₀ (zpow_pos (two_pos (α := ℚ)) _),
    ← zpow_add₀ (two_ne_zero (α := ℚ))] at hfull ⊢
  split
  next hyes =>
    have hnext : (num / den : ℚ) < 2 ^ (53 + (guess + 1)) :=
      hhigh.trans_le (zpow_le_zpow_right₀ one_le_two (by omega))
    have hleast : (2 : ℚ) ^ (52 + (guess + 1)) ≤ num / den := by
      rw [show 52 + (guess + 1) = ((53 : ℕ) : ℤ) + guess by push_cast; ring]
      exact hfull.mp hyes
    exact ⟨by omega, hnext, .inl hleast⟩
  next hno =>
    refine ⟨hge.1, lt_of_not_ge (mt hfull.mpr hno), hge.2.2.imp_left fun heq => ?_⟩
    exact (zpow_le_zpow_right₀ one_le_two (by omega)).trans hlow.le

/-- A number of `k` whole steps and a part of one is rounded to an end of that step. -/
theorem NearestBits.of_roundEven {q : ℚ} {t n d : ℕ} (hd : 0 < d) (hq : (n / d : ℚ) = q / 2 ^ ((t : ℤ) - 1074))
    (hk : n / d < twoTo 53) (h : twoTo 52 ≤ n / d ∨ t = 0) :
    NearestBits q (t * twoTo 52 + roundEven n d) := by
  have hpos : (0 : ℚ) < 2 ^ ((t : ℤ) - 1074) := zpow_pos two_pos _
  have hd' : (0 : ℚ) < d := Nat.cast_pos.mpr hd
  obtain ⟨w, hw⟩ : ∃ w : ℚ, w = 2 ^ ((t : ℤ) - 1074) := ⟨_, rfl⟩
  have hlow : bitsValue (t * twoTo 52 + n / d) = (n / d : ℕ) * w := hw ▸ bitsValue_grid hk.le h
  have hhigh : bitsValue (t * twoTo 52 + n / d + 1) = ((n / d : ℕ) + 1) * w := by
    rw [hw, Nat.add_assoc, bitsValue_grid hk (h.imp_left Nat.le_succ_of_le), Nat.cast_succ]
  have hqw : q = n / d * w := by rw [hq, hw, div_mul_cancel₀ _ hpos.ne']
  have hfloor : ((n / d : ℕ) : ℚ) ≤ n / d := Nat.cast_div_le
  have hceil : (n / d : ℚ) < (n / d : ℕ) + 1 := by
    rw [div_lt_iff₀ hd', ← Nat.cast_succ, ← Nat.cast_mul, Nat.cast_lt, Nat.mul_comm]
    exact Nat.lt_mul_div_succ n hd
  rw [← hw] at hpos
  have heven : t * twoTo 52 % 2 = 0 := by
    rw [twoTo_succ, Nat.mul_left_comm, Nat.mul_mod_right]
  rcases roundEven_cases n hd with ⟨hround, hhalf, htie⟩ | ⟨hround, hhalf, htie⟩
  · rw [hround]
    refine .lower ?_ ?_ ?_ fun heq => ?_
    · rw [hlow, hqw]
      gcongr
    · rw [hhigh, hqw]
      gcongr
    · rw [hlow, hhigh, hqw]
      nlinarith
    · rw [hlow, hhigh, hqw] at heq
      have := htie (by nlinarith)
      omega
  · rw [hround, ← Nat.add_assoc]
    refine .upper ?_ ?_ fun heq => ?_
    · rw [hhigh, hqw]
      gcongr
    · rw [hlow, hhigh, hqw]
      nlinarith
    · rw [hlow, hhigh, hqw] at heq
      have := htie (by nlinarith)
      omega

/-- The bits are the nearest ones, up to the bound that stands for all above it. -/
theorem nearestBits_spec (hnum : 0 < num) (hden : 0 < den) :
    ∃ b, NearestBits (num / den) b ∧ nearestBits num den = if infiniteBits < b then infiniteBits else b := by
  obtain ⟨hexp, hlt, hge⟩ := mantissaExponent_spec hnum hden
  have hpos := inUnits_pos num (mantissaExponent num den) hden
  have hunits := @inUnits_div num den (mantissaExponent num den)
  unfold nearestBits
  dsimp only
  generalize mantissaExponent num den = e at *
  generalize (inUnits num den e).1 = n, (inUnits num den e).2 = d at *
  obtain ⟨t, rfl⟩ : ∃ t : ℕ, e = t - 1074 := ⟨(e + 1074).toNat, by omega⟩
  rw [← hunits] at hlt hge
  have hpos' : (0 : ℚ) < d := Nat.cast_pos.mpr hpos
  have hk : n / d < twoTo 53 := by
    rw [Nat.div_lt_iff_lt_mul hpos]
    exact_mod_cast (div_lt_iff₀ hpos').mp hlt
  have hrow : twoTo 52 ≤ n / d ∨ t = 0 := by
    refine hge.imp (fun h => ?_) (fun h => by omega)
    rw [Nat.le_div_iff_mul_le hpos]
    exact_mod_cast (le_div_iff₀ hpos').mp h
  have hbits : (if roundEven n d < twoTo 52 then roundEven n d
      else ((t : ℤ) - 1074 + 1074).toNat * twoTo 52 + roundEven n d) = t * twoTo 52 + roundEven n d := by
    have hround : n / d ≤ roundEven n d := by
      rcases roundEven_cases n hpos with ⟨hround, -⟩ | ⟨hround, -⟩ <;> omega
    split
    next hlow =>
      obtain rfl : t = 0 := hrow.resolve_left (by omega)
      omega
    next => simp
  exact ⟨_, .of_roundEven hpos hunits hk hrow, by rw [hbits]⟩

end Rounding

section Doubles

variable {q : ℚ} {x y : Float}

/-- The bits of a double without their sign tell its kind and its number. -/
theorem Binary.ofBits_cases (u : ℕ) :
    (u % twoTo 63 < infiniteBits ∧ ∃ mantissa exponent,
      Binary.ofBits u = .finite (u / twoTo 63 % 2 == 1) mantissa exponent ∧
      mantissa * 2 ^ exponent = bitsValue (u % twoTo 63) ∧ mantissa % 2 = u % twoTo 63 % 2) ∨
    (u % twoTo 63 = infiniteBits ∧ Binary.ofBits u = .infinite (u / twoTo 63 % 2 == 1)) ∨
    (infiniteBits < u % twoTo 63 ∧ Binary.ofBits u = .nan) := by
  have hfield : u / twoTo 52 % twoTo 11 = u % twoTo 63 / twoTo 52 := (Nat.mod_mul_right_div_self _ _ _).symm
  have hfraction : u % twoTo 52 = u % twoTo 63 % twoTo 52 := (Nat.mod_mul_right_mod u (twoTo 52) (twoTo 11)).symm
  have hbound : u % twoTo 63 < twoTo 52 * 2048 := Nat.mod_lt u (twoTo_pos 63)
  unfold Binary.ofBits infiniteBits
  dsimp only
  rw [hfield, hfraction]
  generalize u % twoTo 63 = b at *
  have hsplit := Nat.div_add_mod b (twoTo 52)
  have hmod := Nat.mod_lt b (twoTo_pos 52)
  have hdiv : b / twoTo 52 < 2048 := Nat.div_lt_of_lt_mul hbound
  by_cases hinf : b / twoTo 52 = 2047
  · rw [if_pos hinf]
    rw [hinf] at hsplit
    right
    split
    next hzero => exact .inl ⟨by omega, rfl⟩
    next hnonzero => exact .inr ⟨by omega, rfl⟩
  · have hlt : b < 2047 * twoTo 52 := (Nat.div_lt_iff_lt_mul (twoTo_pos 52)).mp (by omega)
    rw [if_neg hinf]
    refine .inl ⟨hlt, ?_⟩
    unfold bitsValue
    split
    next hzero =>
      have hlow : b < twoTo 52 := (Nat.div_eq_zero_iff_lt (twoTo_pos 52)).mp hzero
      rw [Nat.mod_eq_of_lt hlow, if_pos hlow]
      exact ⟨_, _, rfl, rfl, rfl⟩
    next hnonzero =>
      have hhigh : ¬b < twoTo 52 := fun hlow => hnonzero (Nat.div_eq_of_lt hlow)
      refine ⟨_, _, rfl, by rw [if_neg hhigh], ?_⟩
      rw [twoTo_succ 51, Nat.add_mul_mod_self_left, Nat.mod_mul_right_mod]

/-- Bits up to those of the infinity are the bits of a double. -/
theorem toBits_ofBits {b : ℕ} (h : b ≤ infiniteBits) : (Float.ofBits (UInt64.ofNat b)).toBits.toNat = b := by
  have hsize : b < 2 ^ 64 := lt_of_le_of_lt h (by decide)
  have hvalid : Float.Model.Format.binary64.Valid (UInt64.ofNat b).toBitVec := by
    refine ⟨fun hexponent hmantissa => absurd hmantissa ?_⟩
    rw [Float.Model.UnpackedFloat.unpackExponent_def] at hexponent
    rw [not_ne_iff, Float.Model.UnpackedFloat.unpackMantissa_def]
    have hfield : b % 2 ^ 64 / 2 ^ 52 % 2 ^ 11 = 2047 := by
      simpa [Nat.shiftRight_eq_div_pow] using congrArg BitVec.toNat hexponent
    apply BitVec.eq_of_toNat_eq
    have hfraction : b % 2 ^ 52 = 0 := by
      have hbound : b ≤ 2047 * 2 ^ 52 := h
      omega
    simpa using hfraction
  have hbits := Float.ofBits_toBits ⟨⟨UInt64.ofNat b, hvalid⟩⟩
  rw [show Float.toBits ⟨⟨UInt64.ofNat b, hvalid⟩⟩ = UInt64.ofNat b from rfl] at hbits
  rw [hbits]
  exact UInt64.toNat_ofNat_of_lt' hsize

/-- The largest double and the bound above it enclose the overflow. -/
theorem overflow_spec :
    overflow - bitsValue (infiniteBits - 1) = bitsValue infiniteBits - overflow ∧
      overflow < bitsValue infiniteBits := by
  have hbound : bitsValue infiniteBits = twoTo 53 * 2 ^ (971 : ℤ) :=
    bitsValue_grid (t := 2045) le_rfl (.inl (by decide))
  have hlast : bitsValue (infiniteBits - 1) = (twoTo 53 - 1 : ℕ) * 2 ^ (971 : ℤ) :=
    bitsValue_grid (t := 2045) (k := twoTo 53 - 1) (Nat.sub_le _ _) (.inl (by decide))
  have hover : overflow = twoTo 53 * 2 ^ (971 : ℤ) - 2 ^ (971 : ℤ) / 2 := by
    rw [overflow, twoTo_cast, ← zpow_add₀ two_ne_zero, div_eq_mul_inv, ← zpow_neg_one, ← zpow_add₀ two_ne_zero,
      ← zpow_natCast, ← zpow_natCast]
    rfl
  have hpos : (0 : ℚ) < 2 ^ (971 : ℤ) := zpow_pos two_pos _
  rw [hbound, hlast, hover, Nat.cast_pred (twoTo_pos 53)]
  generalize (2 : ℚ) ^ (971 : ℤ) = w at *
  constructor
  · ring
  · linarith

variable {b : ℕ}

theorem NearestBits.infinite_le_iff (h : NearestBits q b) : infiniteBits ≤ b ↔ overflow ≤ q := by
  obtain ⟨hmiddle, hbound⟩ := overflow_spec
  have hlast : infiniteBits - 1 + 1 = infiniteBits := rfl
  have hodd : (infiniteBits - 1) % 2 = 1 := rfl
  have hnear := h.near infiniteBits
  have hnear' := h.near (infiniteBits - 1)
  constructor
  · intro hge
    by_contra hlt
    have hval := bitsValue_strictMono.monotone hge
    rcases abs_cases (bitsValue b - q) with hb | hb <;>
      rcases abs_cases (bitsValue (infiniteBits - 1) - q) with hm | hm <;> linarith
  · intro hge
    by_contra hlt
    have hval := bitsValue_strictMono.monotone (show b ≤ infiniteBits - 1 by omega)
    have htie : |bitsValue infiniteBits - q| = |bitsValue b - q| ∧ bitsValue b = bitsValue (infiniteBits - 1) := by
      rcases abs_cases (bitsValue b - q) with hb | hb <;>
        rcases abs_cases (bitsValue infiniteBits - q) with hm | hm <;>
        constructor <;> linarith
    have heven := h.even infiniteBits (by omega) htie.1
    have hlast := bitsValue_strictMono.injective htie.2
    omega

/-- The number of a double is that of its bits up to the sign. -/
theorem exists_bits_of_value? {v : ℚ} (h : (Binary.ofFloat x).value? = some v) :
    ∃ b < infiniteBits, v = bitsValue b ∨ v = -bitsValue b := by
  rcases Binary.ofBits_cases x.toBits.toNat with ⟨hlt, m, e, hx, hval, -⟩ | ⟨-, hx⟩ | ⟨-, hx⟩
  · rw [Binary.ofFloat, hx] at h
    cases h
    refine ⟨_, hlt, ?_⟩
    rw [hval]
    split <;> simp
  · rw [Binary.ofFloat, hx] at h
    cases h
  · rw [Binary.ofFloat, hx] at h
    cases h

theorem Binary.ofFloat_ofBits (h : b < infiniteBits) : ∃ mantissa exponent,
    Binary.ofFloat (Float.ofBits (UInt64.ofNat b)) = .finite false mantissa exponent ∧
      mantissa * 2 ^ exponent = bitsValue b ∧ mantissa % 2 = b % 2 := by
  have hsign : b < twoTo 63 := h.trans (by decide)
  have hcases := Binary.ofBits_cases b
  rw [Nat.mod_eq_of_lt hsign, Nat.div_eq_of_lt hsign] at hcases
  rw [Binary.ofFloat, toBits_ofBits h.le]
  rcases hcases with ⟨-, hfinite⟩ | ⟨heq, -⟩ | ⟨hgt, -⟩
  · exact hfinite
  · omega
  · omega

/-- A double below zero is never nearer than its opposite. -/
theorem abs_sub_le_abs_neg_sub (hq : 0 ≤ q) {v : ℚ} (hv : 0 ≤ v) : |v - q| ≤ |-v - q| := by
  rw [abs_of_nonpos (show -v - q ≤ 0 by linarith)]
  exact abs_le.mpr ⟨by linarith, by linarith⟩

/-- The nearest bits up to those of the infinity make the nearest double. -/
theorem NearestBits.isNearest (hq : 0 ≤ q) (h : NearestBits q b) :
    IsNearest q (Float.ofBits (UInt64.ofNat (if infiniteBits < b then infiniteBits else b))) := by
  by_cases hlt : b < infiniteBits
  · rw [if_neg hlt.not_gt]
    obtain ⟨m, e, hx, hval, hparity⟩ := Binary.ofFloat_ofBits hlt
    have hfinite : q < overflow := lt_of_not_ge (mt h.infinite_le_iff.mpr hlt.not_ge)
    refine .finite hx hfinite ?_ ?_
    · intro y v hv
      obtain ⟨b', -, rfl | rfl⟩ := exists_bits_of_value? hv
      · exact hval ▸ h.near b'
      · exact hval ▸ (h.near b').trans (abs_sub_le_abs_neg_sub hq (bitsValue_nonneg b'))
    · intro y v hv hne heq
      rw [hval] at hne heq
      rw [hparity]
      obtain ⟨b', -, rfl | rfl⟩ := exists_bits_of_value? hv
      · exact h.even b' (fun hb => hne (hb ▸ rfl)) heq
      · -- only minus zero ties, and it is as far as zero
        have hzero := h.near 0
        rw [bitsValue_zero] at hzero
        have hpos := bitsValue_nonneg b'
        have hb' : bitsValue b' = 0 := by
          rw [← heq, abs_of_nonpos (show -bitsValue b' - q ≤ 0 by linarith),
            abs_of_nonpos (show 0 - q ≤ 0 by linarith)] at hzero
          linarith
        rw [hb', neg_zero] at hne heq
        refine h.even 0 (fun hb => hne ?_) (bitsValue_zero ▸ heq)
        rw [← hb, bitsValue_zero]
  · have hinf : (if infiniteBits < b then infiniteBits else b) = infiniteBits := by
      split <;> omega
    rw [hinf]
    refine .infinite ?_ (h.infinite_le_iff.mp (Nat.le_of_not_lt hlt))
    rw [Binary.ofFloat, toBits_ofBits le_rfl]
    decide

/-- What is nearest among the doubles is nearest among all bits, those above the infinity included. -/
theorem NearestBits.of_doubles (hq : q < overflow)
    (hnear : ∀ b' < infiniteBits, |bitsValue b - q| ≤ |bitsValue b' - q|)
    (heven : ∀ b' < infiniteBits, b' ≠ b → |bitsValue b' - q| = |bitsValue b - q| → b % 2 = 0) :
    NearestBits q b := by
  have hfar : ∀ b', infiniteBits ≤ b' → |bitsValue b - q| < |bitsValue b' - q| := by
    intro b' hge
    obtain ⟨hmiddle, hbound⟩ := overflow_spec
    have hval := bitsValue_strictMono.monotone hge
    refine (hnear (infiniteBits - 1) (by decide)).trans_lt ?_
    refine lt_of_lt_of_le (abs_lt.mpr ⟨?_, ?_⟩) (le_abs_self _) <;> linarith
  refine ⟨fun b' => ?_, fun b' hne heq => ?_⟩
  · rcases Nat.lt_or_ge b' infiniteBits with hb' | hb'
    · exact hnear b' hb'
    · exact (hfar b' hb').le
  · rcases Nat.lt_or_ge b' infiniteBits with hb' | hb'
    · exact heven b' hb' hne heq
    · exact absurd heq (hfar b' hb').ne'

/-- A double nearest to a number has the nearest bits, or those of the infinity. -/
theorem IsNearest.bits (h : IsNearest q x) :
    (q < overflow ∧ NearestBits q x.toBits.toNat) ∨ (overflow ≤ q ∧ x.toBits.toNat = infiniteBits) := by
  have hsize : x.toBits.toNat < 2 * twoTo 63 := x.toBits.toNat_lt
  have hunsigned : (x.toBits.toNat / twoTo 63 % 2 == 1) = false → x.toBits.toNat % twoTo 63 = x.toBits.toNat := by
    intro hsign
    have hdiv : x.toBits.toNat / twoTo 63 < 2 := Nat.div_lt_of_lt_mul (by omega)
    rw [Nat.mod_eq_of_lt hdiv, beq_eq_false_iff_ne] at hsign
    have hzero : x.toBits.toNat / twoTo 63 = 0 :=
      (Nat.le_one_iff_eq_zero_or_eq_one.mp (Nat.le_of_lt_succ hdiv)).resolve_right hsign
    exact Nat.mod_eq_of_lt ((Nat.div_eq_zero_iff_lt (twoTo_pos 63)).mp hzero)
  have hcases := Binary.ofBits_cases x.toBits.toNat
  rw [← Binary.ofFloat] at hcases
  cases h with
  | @finite m e hx hq hnear heven =>
    refine .inl ⟨hq, ?_⟩
    rw [hx] at hcases
    rcases hcases with ⟨-, m', e', heq, hval, hparity⟩ | ⟨-, heq⟩ | ⟨-, heq⟩
    · obtain ⟨hsign, rfl, rfl⟩ := Binary.finite.inj heq
      rw [hunsigned hsign.symm] at hval hparity
      rw [hval] at hnear heven
      rw [hparity] at heven
      have hvalue : ∀ b' < infiniteBits,
          (Binary.ofFloat (Float.ofBits (UInt64.ofNat b'))).value? = some (bitsValue b') := by
        intro b' hb'
        obtain ⟨m', e', heq', hval', -⟩ := Binary.ofFloat_ofBits hb'
        simp [heq', Binary.value?, hval']
      refine .of_doubles hq (fun b' hb' => hnear _ _ (hvalue b' hb')) fun b' hb' hne => ?_
      exact heven _ _ (hvalue b' hb') (bitsValue_strictMono.injective.ne hne)
    · cases heq
    · cases heq
  | infinite hx hq =>
    refine .inr ⟨hq, ?_⟩
    rw [hx] at hcases
    rcases hcases with ⟨-, m, e, heq, -⟩ | ⟨hbits, heq⟩ | ⟨-, heq⟩
    · cases heq
    · rw [← hunsigned (Binary.infinite.inj heq).symm, hbits]
    · cases heq

theorem le_overflow : 2 ^ 970 ≤ overflow := by
  have hpos : (0 : ℚ) < 2 ^ 970 := pow_pos two_pos _
  rw [overflow, show (2 : ℚ) ^ 1024 = 2 ^ 54 * 2 ^ 970 from pow_add 2 54 970]
  generalize (2 : ℚ) ^ 970 = w at *
  linarith

/-- A double stands for its own number. -/
theorem IsNearest.of_value {mantissa : ℕ} {exponent : ℤ} (hx : Binary.ofFloat x = .finite false mantissa exponent)
    (hq : mantissa * 2 ^ exponent = q) (hfinite : q < overflow) : IsNearest q x := by
  refine .finite hx hfinite (fun y v _ => ?_) (fun y v _ hne heq => ?_)
  · rw [hq, sub_self, abs_zero]
    exact abs_nonneg _
  · rw [hq, sub_self, abs_zero, abs_eq_zero, sub_eq_zero] at heq
    exact absurd (heq.trans hq.symm) hne

theorem IsNearest.unique (h : IsNearest q x) (h' : IsNearest q y) : x = y := by
  rw [← Float.toBits_inj, ← UInt64.toNat_inj]
  rcases h.bits with ⟨hlt, hbits⟩ | ⟨hge, hbits⟩ <;> rcases h'.bits with ⟨hlt', hbits'⟩ | ⟨hge', hbits'⟩
  · exact hbits.unique hbits'
  · exact absurd hlt hge'.not_gt
  · exact absurd hlt' hge.not_gt
  · rw [hbits, hbits']

end Doubles

end LiveMarkup
