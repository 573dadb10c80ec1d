import LiveMarkup.Decimal.Numeral
import LiveMarkup.Proofs.NearestDouble
import LiveMarkup.Proofs.Spelling

/-!
The number that a numeral writes. Reading a numeral gives the double that stands for its number.
-/

namespace LiveMarkup

/-- The number that decimal digits write. -/
def digitsValue (ds : List Char) : ℕ :=
  Nat.ofDigits 10 (ds.reverse.map fun c => c.toNat - '0'.toNat)

/-- The number that a numeral writes: its digits, and those of a fraction behind the point. -/
inductive NumeralValue : List Char → ℚ → Prop where
  | whole {ds : List Char} (hne : ds ≠ []) (hds : ∀ c ∈ ds, c.isDigit = true) :
      NumeralValue ds (digitsValue ds)
  | fraction {ds fs : List Char} (hne : ds ≠ []) (hds : ∀ c ∈ ds, c.isDigit = true) (hfs : fs ≠ [])
      (hall : ∀ c ∈ fs, c.isDigit = true) :
      NumeralValue (ds ++ '.' :: fs) (digitsValue ds + digitsValue fs / 10 ^ fs.length)

variable {cs : List Char} {q : ℚ}

theorem NumeralValue.isNumeral (h : NumeralValue cs q) : IsNumeral cs := by
  cases h with
  | whole hne hds => exact .whole hne hds
  | fraction hne hds hfs hall => exact .fraction hne hds hfs hall

theorem IsNumeral.exists_value (h : IsNumeral cs) : ∃ q, NumeralValue cs q := by
  cases h with
  | whole hne hds => exact ⟨_, .whole hne hds⟩
  | fraction hne hds hfs hall => exact ⟨_, .fraction hne hds hfs hall⟩

theorem digitsValue_append (ds fs : List Char) :
    digitsValue (ds ++ fs) = digitsValue ds * 10 ^ fs.length + digitsValue fs := by
  simp only [digitsValue, List.reverse_append, List.map_append, Nat.ofDigits_append, List.length_map,
    List.length_reverse]
  ring

theorem ofDigits_eq (ds : List Char) : ofDigits ds = digitsValue ds := by
  induction ds using List.reverseRecOn with
  | nil => rfl
  | append_singleton ds c ih =>
    have hone : digitsValue [c] = digitValue c := Nat.ofDigits_singleton
    have hstep : ofDigits (ds ++ [c]) = 10 * ofDigits ds + digitValue c := List.foldl_concat ..
    rw [hstep, ih, digitsValue_append, hone, List.length_singleton, pow_one, Nat.mul_comm]

section Decimals

/-- The number that a decimal stands for. -/
def Decimal.value (d : Decimal) : ℚ :=
  d.digits * 10 ^ d.exponent

variable {d : Decimal}

theorem tenTo_cast (n : ℕ) : (tenTo n : ℚ) = 10 ^ (n : ℤ) := by
  rw [tenTo, Nat.pow_eq, Nat.cast_pow, Nat.cast_ofNat, zpow_natCast]

theorem Decimal.value_eq_div (d : Decimal) :
    d.value = (d.digits * tenTo d.exponent.toNat : ℕ) / (tenTo (-d.exponent).toNat : ℕ) := by
  rw [Decimal.value, Nat.cast_mul, tenTo_cast, tenTo_cast, mul_div_assoc, ← zpow_sub₀ (by norm_num)]
  congr 2
  omega

theorem Decimal.value_pos (h : d.digits ≠ 0) : 0 < d.value :=
  mul_pos (Nat.cast_pos.mpr (Nat.pos_of_ne_zero h)) (zpow_pos (by norm_num) _)

/-- The number of its digits places a decimal between two powers of ten. -/
theorem Decimal.value_bounds (h : d.digits ≠ 0) :
    (10 : ℚ) ^ (((Nat.toDigits 10 d.digits).length : ℤ) + d.exponent - 1) ≤ d.value ∧
      d.value < 10 ^ (((Nat.toDigits 10 d.digits).length : ℤ) + d.exponent) := by
  have hlen := Nat.length_toDigits_pos (b := 10) (n := d.digits)
  generalize hn : (Nat.toDigits 10 d.digits).length = len at hlen ⊢
  have hhigh : (d.digits : ℚ) < 10 ^ (len : ℤ) := by
    exact_mod_cast (Nat.length_toDigits_le_iff (by decide) hlen).mp hn.le
  have hlow : (10 : ℚ) ^ ((len : ℤ) - 1) ≤ d.digits := by
    rcases Nat.eq_or_lt_of_le hlen with hone | hmore
    · have hdigits : (1 : ℚ) ≤ d.digits := Nat.one_le_cast.mpr (Nat.pos_of_ne_zero h)
      simpa [← hone] using hdigits
    · rw [← Nat.cast_pred hlen, zpow_natCast]
      have hge := mt (Nat.length_toDigits_le_iff (n := d.digits) (by decide : 1 < 10) (show 0 < len - 1 by omega)).mpr
        (show ¬(Nat.toDigits 10 d.digits).length ≤ len - 1 by omega)
      exact_mod_cast Nat.le_of_not_lt hge
  have hpos : (0 : ℚ) < 10 ^ d.exponent := zpow_pos (by norm_num) _
  rw [Decimal.value]
  constructor
  · rw [add_sub_right_comm, zpow_add₀ (by norm_num)]
    gcongr
  · rw [zpow_add₀ (by norm_num)]
    gcongr

theorem overflow_le : overflow ≤ 10 ^ (310 : ℤ) := by
  calc overflow ≤ 2 ^ 1024 := by
        rw [overflow]
        exact sub_le_self _ (by positivity)
    _ ≤ 2 ^ (205 * 5) := pow_le_pow_right₀ one_le_two (by norm_num)
    _ = (2 ^ 205) ^ 5 := pow_mul ..
    _ ≤ (10 ^ 62) ^ 5 := pow_le_pow_left₀ (by positivity) (by norm_num) 5
    _ = 10 ^ (310 : ℤ) := (pow_mul ..).symm

/-- Half the smallest double above zero is more than any decimal that far down. -/
theorem le_half_step : (10 : ℚ) ^ (-331 : ℤ) ≤ 2 ^ (-1074 : ℤ) / 2 := by
  have hpow : (2 : ℚ) ^ (1075 : ℤ) ≤ 10 ^ (331 : ℤ) := by
    calc (2 : ℚ) ^ 1075 = (2 ^ 215) ^ 5 := pow_mul 2 215 5
      _ ≤ (10 ^ 66) ^ 5 := pow_le_pow_left₀ (by positivity) (by norm_num) 5
      _ = 10 ^ 330 := (pow_mul ..).symm
      _ ≤ 10 ^ 331 := pow_le_pow_right₀ (by norm_num) (by norm_num)
  have hhalf : (2 : ℚ) ^ (-1074 : ℤ) / 2 = (2 ^ (1075 : ℤ))⁻¹ := by
    rw [← zpow_neg, div_eq_mul_inv, ← zpow_neg_one, ← zpow_add₀ two_ne_zero]
    rfl
  rw [hhalf, show (-331 : ℤ) = -(331 : ℤ) from rfl, zpow_neg]
  exact inv_anti₀ (zpow_pos two_pos _) hpow

/-- The bits of a decimal are the nearest ones, also where its length alone tells them. -/
theorem Decimal.bits_spec (d : Decimal) :
    ∃ b, NearestBits d.value b ∧ d.bits = if infiniteBits < b then infiniteBits else b := by
  unfold Decimal.bits
  by_cases hzero : d.digits = 0
  · rw [if_pos hzero]
    refine ⟨0, ⟨fun b' => ?_, fun b' _ _ => rfl⟩, rfl⟩
    rw [bitsValue_zero, Decimal.value, hzero]
    simp
  rw [if_neg hzero]
  dsimp only
  obtain ⟨hlow, hhigh⟩ := d.value_bounds hzero
  generalize ((Nat.toDigits 10 d.digits).length : ℤ) + d.exponent = top at *
  have hspec := @nearestBits_spec (d.digits * tenTo d.exponent.toNat) (tenTo (-d.exponent).toNat)
    (Nat.mul_pos (Nat.pos_of_ne_zero hzero) (Nat.pow_pos (by decide))) (Nat.pow_pos (by decide))
  rw [← d.value_eq_div] at hspec
  split
  next hlong =>
    obtain ⟨b, hb, -⟩ := hspec
    have hover : overflow ≤ d.value :=
      overflow_le.trans ((zpow_le_zpow_right₀ (by norm_num) (by omega)).trans hlow)
    have hge := hb.infinite_le_iff.mpr hover
    refine ⟨b, hb, ?_⟩
    split <;> omega
  next =>
    split
    next hsmall =>
      have htiny : d.value < 2 ^ (-1074 : ℤ) / 2 :=
        hhigh.trans_le ((zpow_le_zpow_right₀ (by norm_num) (by omega)).trans le_half_step)
      have hone : bitsValue (0 + 1) = 2 ^ (-1074 : ℤ) := by
        simpa using bitsValue_grid (t := 0) (k := 1) (by decide) (.inr rfl)
      have hpos := d.value_pos hzero
      refine ⟨0, .lower ?_ ?_ ?_ fun _ => rfl, rfl⟩
      · rw [bitsValue_zero]
        exact hpos.le
      · rw [hone]
        linarith
      · rw [hone, bitsValue_zero]
        linarith
    next => exact hspec

end Decimals

/-- A numeral is a decimal with as many digits behind the point as its fraction has. -/
theorem NumeralValue.readDecimal? (h : NumeralValue cs q) :
    ∃ d, LiveMarkup.readDecimal? cs = some d ∧ d.value = q := by
  cases h with
  | whole hne hds =>
    have htake : cs.takeWhile Char.isDigit = cs := List.takeWhile_eq_self_iff.mpr hds
    have hdrop : cs.dropWhile Char.isDigit = [] := List.dropWhile_eq_nil_iff.mpr hds
    refine ⟨⟨ofDigits (cs ++ []), 0⟩, ?_, ?_⟩
    · simp [LiveMarkup.readDecimal?, htake, hdrop, hne, readExponent?]
    · simp [Decimal.value, ofDigits_eq]
  | @fraction ds fs hne hds hfne hfs =>
    have hpoint : ∀ c ∈ ('.' :: fs).head?, c.isDigit = false := by
      intro c hc
      cases hc
      rfl
    have htake := takeWhile_run hds hpoint
    have hdrop := dropWhile_run hds hpoint
    have htake' : fs.takeWhile Char.isDigit = fs := List.takeWhile_eq_self_iff.mpr hfs
    have hdrop' : fs.dropWhile Char.isDigit = [] := List.dropWhile_eq_nil_iff.mpr hfs
    refine ⟨⟨ofDigits (ds ++ fs), 0 - fs.length⟩, ?_, ?_⟩
    · simp [LiveMarkup.readDecimal?, htake, hdrop, htake', hdrop', hne, readExponent?]
    · have hpos : (10 : ℚ) ^ fs.length ≠ 0 := by positivity
      rw [Decimal.value, ofDigits_eq, digitsValue_append, zero_sub, zpow_neg, zpow_natCast]
      push_cast
      field_simp

theorem toLower_of_isDigit {c : Char} (h : c.isDigit = true) : c.toLower = c := by
  simp only [Char.isDigit, ge_iff_le, Bool.and_eq_true, decide_eq_true_eq] at h
  unfold Char.toLower
  exact dif_neg fun hupper => absurd (UInt32.le_trans hupper.1 h.2) (by decide)

/-- What starts with a digit is read as a decimal. -/
theorem readNumeral?_decimal {c : Char} (cs : List Char) (hc : c.isDigit = true) :
    readNumeral? (String.ofList (c :: cs)) =
      (readDecimal? (c :: cs)).map fun d => Float.ofBits (UInt64.ofNat d.bits) := by
  have hother : ∀ w : Char, w.isDigit = false → c ≠ w := by
    rintro w hw rfl
    rw [hw] at hc
    cases hc
  simp [readNumeral?, readMagnitudeBits?, toLower_of_isDigit hc, hother, Function.comp_def]

/-- A numeral is read as the double that stands for its number. -/
theorem NumeralValue.exists_readNumeral? (h : NumeralValue cs q) :
    ∃ x, readNumeral? (String.ofList cs) = some x ∧ IsNearest q x := by
  obtain ⟨d, hread, rfl⟩ := h.readDecimal?
  obtain ⟨b, hb, hbits⟩ := d.bits_spec
  have hvalue : 0 ≤ d.value := mul_nonneg (Nat.cast_nonneg _) (zpow_nonneg (by norm_num) _)
  refine ⟨_, ?_, hb.isNearest hvalue⟩
  obtain ⟨c, cs', rfl, hc⟩ := h.isNumeral.exists_cons
  rw [readNumeral?_decimal cs' hc, hread, ← hbits]
  rfl

theorem NumeralValue.readNumeral?_eq_some_iff (h : NumeralValue cs q) {x : Float} :
    readNumeral? (String.ofList cs) = some x ↔ IsNearest q x := by
  obtain ⟨y, hy, hnearest⟩ := h.exists_readNumeral?
  rw [hy, Option.some.injEq]
  exact ⟨fun heq => heq ▸ hnearest, hnearest.unique⟩

end LiveMarkup
