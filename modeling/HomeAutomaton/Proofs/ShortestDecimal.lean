import HomeAutomaton.Proofs.DecimalRounding

/-!
# The shortest decimal reads back

The search for the shortest decimal compares decimals with the ends of the interval of numbers that are
rounded to a magnitude, in whole numbers. Here the comparison is one of rational numbers, so a decimal that
passes it is rounded to the magnitude. What the search falls back on is the exact value.

* `Decimal.value` is the number that a decimal stands for.
* `Decimal.catches_of_readsBack` is what passing the comparison says.
* `Decimal.catches_shortest` is the result: the magnitude catches its shortest decimal.
-/

namespace HomeAutomaton.Decimal

open Binary64

/-- The number that a decimal stands for. -/
def value (d : Decimal) : ℚ := d.digits * 10 ^ d.exponent

/-! ### Comparison -/

/-- A power is the quotient of its two parts, of which one is one. -/
theorem zpow_mul_toNat {b : ℚ} (hb : b ≠ 0) (i : ℤ) : b ^ i * b ^ (-i).toNat = b ^ i.toNat := by
  have hsum : i + ((-i).toNat : ℤ) = (i.toNat : ℤ) := by omega
  rw [← zpow_natCast, ← zpow_natCast, ← zpow_add₀ hb, hsum]

/-- Decimals are compared with binary numbers as the numbers that they are. -/
theorem compareBinary_eq (a : ℕ) (i : ℤ) (n : ℕ) (j : ℤ) :
    compareBinary a i n j = compare ((a : ℚ) * 10 ^ i) (n * 2 ^ j) := by
  -- both sides are multiplied by the powers that have negative exponents
  have hscale : (0 : ℚ) < 10 ^ (-i).toNat * 2 ^ (-j).toNat := by positivity
  have hleft : ((a * Nat.pow 10 i.toNat * Nat.pow 2 (-j).toNat : ℕ) : ℚ) =
      a * 10 ^ i * (10 ^ (-i).toNat * 2 ^ (-j).toNat) := by
    have hpart := zpow_mul_toNat (by norm_num : (10 : ℚ) ≠ 0) i
    calc ((a * Nat.pow 10 i.toNat * Nat.pow 2 (-j).toNat : ℕ) : ℚ)
        = a * 10 ^ i.toNat * 2 ^ (-j).toNat := by
          rw [Nat.pow_eq, Nat.pow_eq]
          push_cast
          rfl
      _ = a * 10 ^ i * (10 ^ (-i).toNat * 2 ^ (-j).toNat) := by
          rw [← hpart]
          ring
  have hright : ((n * Nat.pow 2 j.toNat * Nat.pow 10 (-i).toNat : ℕ) : ℚ) =
      n * 2 ^ j * (10 ^ (-i).toNat * 2 ^ (-j).toNat) := by
    have hpart := zpow_mul_toNat (by norm_num : (2 : ℚ) ≠ 0) j
    calc ((n * Nat.pow 2 j.toNat * Nat.pow 10 (-i).toNat : ℕ) : ℚ)
        = n * 2 ^ j.toNat * 10 ^ (-i).toNat := by
          rw [Nat.pow_eq, Nat.pow_eq]
          push_cast
          rfl
      _ = n * 2 ^ j * (10 ^ (-i).toNat * 2 ^ (-j).toNat) := by
          rw [← hpart]
          ring
  rw [compareBinary]
  -- scaling keeps the order
  rcases lt_trichotomy ((a : ℚ) * 10 ^ i) (n * 2 ^ j) with h | h | h
  · rw [compare_lt_iff_lt.mpr h, compare_lt_iff_lt, ← Nat.cast_lt (α := ℚ), hleft, hright]
    exact mul_lt_mul_of_pos_right h hscale
  · rw [compare_eq_iff_eq.mpr h, compare_eq_iff_eq, ← Nat.cast_inj (R := ℚ), hleft, hright, h]
  · rw [compare_gt_iff_gt.mpr h, compare_gt_iff_gt, ← Nat.cast_lt (α := ℚ), hleft, hright]
    exact mul_lt_mul_of_pos_right h hscale

variable {x : Magnitude} {d : Decimal}

/-- **A decimal that passes the comparison is rounded to the magnitude.** -/
theorem catches_of_readsBack (hx : x.Proper) (h : readsBack x d = true) : x.Catches d.value := by
  have hpos := hx.pos
  have hunit : (0 : ℚ) < 2 ^ x.exponent := by positivity
  have hquarter : (2 : ℚ) ^ (x.exponent - 2) = 2 ^ x.exponent / 4 := by
    rw [zpow_sub₀ two_ne_zero]
    norm_num
  -- the ends are given in quarters of a unit
  have hlow : (((if x.narrowBelow then 4 * x.significand - 1 else 4 * x.significand - 2 : ℕ)) : ℚ) *
      2 ^ (x.exponent - 2) = (x.significand - (if x.narrowBelow then 1 / 4 else 1 / 2)) * 2 ^ x.exponent := by
    rw [hquarter]
    split
    · rw [Nat.cast_sub (by omega)]
      push_cast
      ring
    · rw [Nat.cast_sub (by omega)]
      push_cast
      ring
  have hhigh : ((4 * x.significand + 2 : ℕ) : ℚ) * 2 ^ (x.exponent - 2) =
      (x.significand + 1 / 2) * 2 ^ x.exponent := by
    rw [hquarter]
    push_cast
    ring
  simp only [readsBack, Bool.and_eq_true, Bool.or_eq_true, beq_iff_eq, compareBinary_eq, hlow, hhigh,
    compare_gt_iff_gt, compare_lt_iff_lt, compare_eq_iff_eq] at h
  rw [Magnitude.Catches, lt_div_iff₀ hunit, div_lt_iff₀ hunit, eq_div_iff hunit.ne', div_eq_iff hunit.ne']
  exact ⟨h.1.imp id fun heq => ⟨heq.1, heq.2.symm⟩, h.2⟩

/-! ### The search -/

/-- What is found on a grid passes the comparison. -/
theorem readsBack_of_nearest? {grid : ℤ} (h : nearest? x grid = some d) : readsBack x d = true := by
  rw [nearest?] at h
  dsimp only at h
  split at h
  next hlow _ =>
    obtain rfl := Option.some.inj h
    exact hlow
  next _ hhigh =>
    obtain rfl := Option.some.inj h
    exact hhigh
  next => cases h
  -- both neighbours pass; one of them is taken
  next hlow hhigh =>
    split at h
    · obtain rfl := Option.some.inj h
      exact hhigh
    · obtain rfl := Option.some.inj h
      exact hlow
    · split at h
      · obtain rfl := Option.some.inj h
        exact hlow
      · obtain rfl := Option.some.inj h
        exact hhigh

/-- The exact decimal is the number. -/
theorem value_exact (x : Magnitude) : (exact x).value = x.significand * 2 ^ x.exponent := by
  rw [exact]
  split
  -- a whole number is written as it is
  next hnonneg =>
    have hpart := zpow_mul_toNat (by norm_num : (2 : ℚ) ≠ 0) x.exponent
    have hzero : (-x.exponent).toNat = 0 := by omega
    rw [hzero, pow_zero, mul_one] at hpart
    rw [value, hpart, Nat.pow_eq]
    push_cast
    rw [mul_one]
  next hnegative =>
    have hzero : x.exponent.toNat = 0 := by omega
    have htwo := zpow_mul_toNat (by norm_num : (2 : ℚ) ≠ 0) x.exponent
    have hten := zpow_mul_toNat (by norm_num : (10 : ℚ) ≠ 0) x.exponent
    rw [hzero, pow_zero] at htwo hten
    rw [value, Nat.pow_eq]
    push_cast
    -- ten is two times five
    have hfive : (5 : ℚ) ^ (-x.exponent).toNat * 10 ^ x.exponent = 2 ^ x.exponent := by
      have hsplit : (10 : ℚ) ^ (-x.exponent).toNat = 2 ^ (-x.exponent).toNat * 5 ^ (-x.exponent).toNat := by
        rw [← mul_pow]
        norm_num
      have hne : (2 : ℚ) ^ (-x.exponent).toNat ≠ 0 := by positivity
      refine mul_right_cancel₀ hne ?_
      rw [htwo, ← hten, hsplit]
      ring
    rw [mul_assoc, hfive]

theorem catches_exact (x : Magnitude) : x.Catches (exact x).value := by
  have hunit : (2 : ℚ) ^ x.exponent ≠ 0 := by positivity
  rw [Magnitude.Catches, value_exact, mul_div_cancel_right₀ _ hunit]
  refine ⟨.inl ?_, .inl (by linarith)⟩
  split <;> linarith

/-- Zeros at the end are part of the exponent. -/
theorem value_stripZeros (fuel : ℕ) (d : Decimal) : (stripZeros fuel d).value = d.value := by
  -- on the zeros that may be there
  induction fuel generalizing d with
  | zero => rfl
  | succ fuel ih =>
    rw [stripZeros]
    split
    next h =>
      rw [ih, value, value]
      have hdigits : (d.digits : ℚ) = 10 * (d.digits / 10 : ℕ) := by
        have hnat : d.digits = 10 * (d.digits / 10) := by omega
        exact_mod_cast hnat
      rw [hdigits, zpow_add_one₀ (by norm_num)]
      ring
    next => rfl

/-- **The shortest decimal is rounded to its magnitude.** -/
theorem catches_shortest (hx : x.Proper) : x.Catches (shortest x).value := by
  rw [shortest, value_stripZeros]
  cases hfound : (List.range 17).findSome? fun (n : Nat) => nearest? x (scale x - ((n : Int) + 1)) with
  | none => exact catches_exact x
  | some d =>
    obtain ⟨n, -, hnearest⟩ := List.exists_of_findSome?_eq_some hfound
    exact catches_of_readsBack hx (readsBack_of_nearest? hnearest)

theorem digits_shortest_pos (hx : x.Proper) : 0 < (shortest x).digits := by
  obtain ⟨hlow, -⟩ := (catches_shortest hx).range hx
  refine Nat.pos_of_ne_zero fun hzero => ?_
  rw [value, hzero, Nat.cast_zero, zero_mul] at hlow
  exact absurd hlow (not_le.mpr (by positivity))

end HomeAutomaton.Decimal
