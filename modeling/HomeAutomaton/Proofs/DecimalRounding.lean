import HomeAutomaton.Proofs.Rounding
import HomeAutomaton.Proofs.Sameness

/-!
# Decimals that are read as numbers

A decimal is read as the product or the quotient of two whole numbers, of which one is a power of ten, and
both are rounded. All decimals that a magnitude catches are so read as one number, whatever decimals they
are; and a number is put together from its magnitude and its sign, so it can be read back.

* `Rounding.unpack_pack_of_normal` says that a number is what it was packed from.
* `Rounding.mul_eq` and `Rounding.div_eq` are the products and quotients that a magnitude catches,
  `Rounding.ofScientific_eq` the decimals.
* `Rounding.float_ofScientific_eq` is the same of the number that the core library makes of a decimal. For
  small ones it uses a table of powers of ten, which is looked up rather than computed.
* `Binary64.ofDecimal_eq` is the result, signs included, and `Binary64.isNaN_ofDecimal` says that every
  decimal is read as a number.
-/

namespace HomeAutomaton.Rounding

open Float.Model Float.Model.UnpackedFloat

/-! ### Packed numbers -/

/-- The bits of a positive number, as a number. -/
theorem toNat_packComponents (exponent : BitVec 11) (mantissa : BitVec 52) :
    (packComponents .binary64 .positive exponent mantissa).toNat =
      exponent.toNat * 2 ^ 52 + mantissa.toNat := by
  have hsign : (Sign.positive.toBitVec ++ exponent).toNat = exponent.toNat := by
    rw [BitVec.toNat_append]
    exact Nat.zero_or _
  rw [packComponents, BitVec.toNat_append, hsign, ← Nat.shiftLeft_add_eq_or_of_lt mantissa.isLt,
    Nat.shiftLeft_eq]

/-- The first bit of a positive number. -/
theorem unpackSign_packComponents (exponent : BitVec 11) (mantissa : BitVec 52) :
    unpackSign (packComponents .binary64 .positive exponent mantissa) = 0#1 := by
  have hsmall : (packComponents .binary64 .positive exponent mantissa).toNat < 2 ^ 63 := by
    rw [toNat_packComponents]
    have he := exponent.isLt
    have hm := mantissa.isLt
    omega
  refine BitVec.eq_of_toNat_eq ?_
  rw [unpackSign, BitVec.toNat_cast, BitVec.extractLsb_toNat, Nat.shiftRight_eq_div_pow]
  change _ / 2 ^ 63 % 2 = 0
  omega

/-- A number of fifty-three bits has its leading bit in the last place. -/
theorem log2_eq_of_lt {m : ℕ} (hle : 2 ^ 52 ≤ m) (hlt : m < 2 ^ 53) : m.log2 = 52 := by
  have hpos : m ≠ 0 := by
    rintro rfl
    exact absurd hle (by norm_num)
  have hupper := (Nat.log2_lt hpos).mpr hlt
  have hlower := (Nat.le_log2 hpos).mpr hle
  omega

/-- The bits of a positive number with a leading bit. -/
theorem pack_of_normal {m : ℕ} {e : ℤ} (hle : 2 ^ 52 ≤ m) (hlt : m < 2 ^ 53) (he : -1074 ≤ e) (he' : e ≤ 971)
    (hpos : 0 < m) : UnpackedFloat.pack .binary64 (.finite .positive m e hpos) =
      packComponents .binary64 .positive (BitVec.ofNat _ (e + 1075).toNat) (BitVec.ofNat _ m) := by
  -- the exponent is stored with the bias, and is in range
  have hbias : e + (Format.binary64.exponentBias : ℕ) + (Format.binary64.mantissaBitsWithoutImplicit : ℕ) =
      e + 1075 := by
    have hvalue : Format.binary64.exponentBias = 1023 := rfl
    rw [hvalue]
    push_cast
    ring
  have hlog : m.log2 + 1 = Format.mantissaBits .binary64 := by
    rw [log2_eq_of_lt hle hlt]
    rfl
  have hrange : ¬ 2 ^ Format.binary64.exponentBits ≤ (e + 1075).toNat + 1 := by
    norm_num
    omega
  rw [UnpackedFloat.pack]
  dsimp only
  rw [hbias, if_neg hrange, if_pos hlog]

/-- The bits of a positive number without one. -/
theorem pack_of_subnormal {m : ℕ} (hlt : m < 2 ^ 52) (hpos : 0 < m) :
    UnpackedFloat.pack .binary64 (.finite .positive m (-1074) hpos) =
      packComponents .binary64 .positive 0 (BitVec.ofNat _ m) := by
  have hlog : ¬ m.log2 + 1 = Format.mantissaBits .binary64 := by
    have hupper := (Nat.log2_lt hpos.ne').mpr hlt
    have hbits : Format.mantissaBits .binary64 = 53 := rfl
    omega
  rw [UnpackedFloat.pack]
  dsimp only
  rw [if_neg (by decide), if_neg hlog]
  rfl

/-- A number with a leading bit is unpacked again. -/
theorem unpack_pack_of_normal {m : ℕ} {e : ℤ} (hle : 2 ^ 52 ≤ m) (hlt : m < 2 ^ 53) (he : -1074 ≤ e)
    (he' : e ≤ 971) (hpos : 0 < m) :
    (Float.Model.pack (.finite .positive m e hpos)).unpack = .finite .positive m e hpos := by
  -- the two fields hold the exponent and all bits but the leading one
  have hexponent : (BitVec.ofNat 11 (e + 1075).toNat).toNat = (e + 1075).toNat :=
    Nat.mod_eq_of_lt (by omega)
  have hmantissa : (1#1 ++ BitVec.ofNat 52 m).toNat = m := by
    rw [BitVec.toNat_append, ← Nat.shiftLeft_add_eq_or_of_lt (BitVec.ofNat 52 m).isLt, BitVec.toNat_ofNat,
      BitVec.toNat_ofNat, Nat.shiftLeft_eq]
    omega
  -- the stored exponent is neither that of infinities nor that of numbers without a leading bit
  have hones : BitVec.ofNat 11 (e + 1075).toNat ≠ -1#11 := by
    intro heq
    have hvalue := congrArg BitVec.toNat heq
    rw [hexponent] at hvalue
    norm_num at hvalue
    omega
  have hzero : BitVec.ofNat 11 (e + 1075).toNat ≠ 0#11 := by
    intro heq
    have hvalue := congrArg BitVec.toNat heq
    rw [hexponent] at hvalue
    norm_num at hvalue
    omega
  have hbias : ((Format.binary64.exponentBias + Format.binary64.mantissaBitsWithoutImplicit : ℕ) : ℤ) = 1075 :=
    rfl
  have hsign : Sign.ofBitVec 0#1 = .positive := rfl
  have hvalue : ((e + 1075).toNat : ℤ) - 1075 = e := by omega
  -- so the stored fields are read as what they were
  change UnpackedFloat.unpack .binary64 (UnpackedFloat.pack .binary64 (.finite .positive m e hpos)) = _
  rw [pack_of_normal hle hlt he he']
  unfold UnpackedFloat.unpack
  simp only [unpackExponent_packComponents, unpackMantissa_packComponents]
  rw [unpackSign_packComponents, hsign, if_neg hones, if_neg hzero]
  simp only [hexponent, hmantissa, ← Nat.cast_add, hbias, hvalue]

/-! ### Products and quotients -/

/-- A number lies between two powers of two. -/
theorem log2_bounds {m : ℕ} (hm : 0 < m) : (2 : ℚ) ^ m.log2 ≤ m ∧ (m : ℚ) < 2 ^ (m.log2 + 1) :=
  ⟨by exact_mod_cast Nat.log2_self_le hm.ne', by exact_mod_cast Nat.lt_log2_self⟩

variable {x : Binary64.Magnitude} {v : ℚ}

/-- A product with enough bits is rounded to the magnitude. -/
theorem mul_eq (hx : x.Proper) (hc : x.Catches v) {m₁ m₂ : ℕ} {e₁ e₂ : ℤ} (hm₁ : 0 < m₁) (hm₂ : 0 < m₂)
    (hbits : 2 ^ 52 ≤ m₁ * m₂) (hv : v = m₁ * 2 ^ e₁ * (m₂ * 2 ^ e₂)) :
    UnpackedFloat.mul .binary64 (.finite .positive m₁ e₁ hm₁) (.finite .positive m₂ e₂ hm₂) =
      .finite .positive x.significand x.exponent hx.pos := by
  have hunits : v = (m₁ * m₂ : ℕ) * 2 ^ (e₁ + e₂) := by
    rw [hv, zpow_add₀ two_ne_zero]
    push_cast
    ring
  have hpos : 0 < v := by
    rw [hunits]
    have hproduct : (0 : ℚ) < (m₁ * m₂ : ℕ) := by exact_mod_cast Nat.mul_pos hm₁ hm₂
    positivity
  have hdescribes : Describes (.ofMantissaAndAccuracy (m₁ * m₂) .exact) (v / 2 ^ (e₁ + e₂)) := by
    rw [hunits, mul_div_cancel_right₀ _ (by positivity)]
    exact describes_exact _
  refine hc.roundWithAccuracy_eq hx hpos _ hdescribes fun l _ hl => ?_
  -- the product has a bit at the fifty-second place at least
  have hle : (2 : ℚ) ^ (e₁ + e₂ + (52 : ℕ)) ≤ v := by
    rw [← Binary64.zpow_le_iff, hunits, mul_div_cancel_right₀ _ (by positivity)]
    exact_mod_cast hbits
  have hlt := (zpow_lt_zpow_iff_right₀ (by norm_num : (1 : ℚ) < 2)).mp (hle.trans_lt hl)
  rw [targetOf]
  omega

/-- A quotient is rounded to the magnitude. -/
theorem div_eq (hx : x.Proper) (hc : x.Catches v) {m₁ m₂ : ℕ} {e₁ e₂ : ℤ} (hm₁ : 0 < m₁) (hm₂ : 0 < m₂)
    (hv : v = m₁ * 2 ^ e₁ / (m₂ * 2 ^ e₂)) :
    UnpackedFloat.div .binary64 (.finite .positive m₁ e₁ hm₁) (.finite .positive m₂ e₂ hm₂) =
      .finite .positive x.significand x.exponent hx.pos := by
  have hd : (0 : ℚ) < m₂ := by exact_mod_cast hm₂
  have hn : (0 : ℚ) < m₁ := by exact_mod_cast hm₁
  have hpos : 0 < v := by
    rw [hv]
    positivity
  rw [UnpackedFloat.div, divCore]
  dsimp only
  -- the quotient is computed to the place where it will be rounded, or to a finer one
  generalize htarget : min (e₁ - e₂) (Format.binary64.targetExponent (totalExponent m₁ e₁ - totalExponent m₂ e₂)) =
    target
  have hle : target ≤ e₁ - e₂ := htarget ▸ min_le_left _ _
  have hshift : ((e₁ - e₂ - target).toNat : ℤ) = e₁ - e₂ - target := Int.toNat_of_nonneg (by omega)
  generalize (e₁ - e₂ - target).toNat = shift at hshift
  -- in units of that place it is a fraction of two whole numbers
  have hunits : v / 2 ^ target = ((m₁ <<< shift : ℕ) : ℚ) / m₂ := by
    have hexponent : e₁ = e₂ + target + shift := by omega
    rw [hv, hexponent, Nat.shiftLeft_eq, zpow_add₀ two_ne_zero, zpow_add₀ two_ne_zero, zpow_natCast]
    push_cast
    field_simp
  refine hc.roundWithAccuracy_eq hx hpos _ (hunits ▸ describes_fraction _ hm₂) fun l hl hl' => ?_
  -- the leading bits of both tell that of the quotient, but for one place
  have hlog : totalExponent m₁ e₁ - totalExponent m₂ e₂ ≤ l + 1 := by
    have hupper : (2 : ℚ) ^ (m₁.log2 + e₁) < 2 ^ (l + 1 + (m₂.log2 + 1 + e₂)) := by
      calc (2 : ℚ) ^ (m₁.log2 + e₁) = 2 ^ m₁.log2 * 2 ^ e₁ := by
            rw [zpow_add₀ two_ne_zero, zpow_natCast]
        -- the numerator is no less than its leading bit
        _ ≤ m₁ * 2 ^ e₁ := by
            have hbound := (log2_bounds hm₁).1
            gcongr
        _ = v * (m₂ * 2 ^ e₂) := by
            rw [hv]
            field_simp
        -- and the denominator is less than the bit above its own
        _ < 2 ^ (l + 1) * (2 ^ (m₂.log2 + 1) * 2 ^ e₂) := by
            have hbound := (log2_bounds hm₂).2
            gcongr
        _ = 2 ^ (l + 1 + (m₂.log2 + 1 + e₂)) := by
            rw [zpow_add₀ two_ne_zero (l + 1), zpow_add₀ two_ne_zero _ e₂, ← Nat.cast_succ, zpow_natCast]
    have hlt := (zpow_lt_zpow_iff_right₀ (by norm_num : (1 : ℚ) < 2)).mp hupper
    rw [totalExponent, totalExponent]
    omega
  have hmono : Format.binary64.targetExponent (totalExponent m₁ e₁ - totalExponent m₂ e₂) ≤ targetOf l := by
    rw [← targetExponent_eq, Format.targetExponent, Format.targetExponent]
    exact max_le_max (Int.sub_le_sub_right hlog _) le_rfl
  exact htarget ▸ (min_le_right _ _).trans hmono

/-! ### Decimals -/

/-- A decimal within the range that is computed is rounded to the magnitude. -/
theorem ofScientific_eq (hx : x.Proper) (hc : x.Catches v) {m : ℕ} {e : ℤ} (hm : 0 < m) (hv : v = m * 10 ^ e)
    (hlow : -(2048 + m.log2) ≤ e) (hhigh : e ≤ 2048) :
    UnpackedFloat.ofScientific .binary64 m e = .finite .positive x.significand x.exponent hx.pos := by
  have hbits : Format.mantissaBits .binary64 = 53 := rfl
  rw [UnpackedFloat.ofScientific, dif_neg hm.ne', if_neg (by norm_num; omega), if_neg (by norm_num; omega)]
  -- a power of ten that is multiplied is given enough bits first; one in the denominator is divided by
  split
  next hnonneg =>
    refine mul_eq hx hc _ _ ?_ ?_
    · rw [hbits, Nat.shiftLeft_eq]
      have hpow : 1 ≤ 10 ^ e.toNat := Nat.one_le_pow _ _ (by norm_num)
      nlinarith
    · have hexponent : (10 : ℚ) ^ e = 10 ^ e.toNat := by
        rw [← zpow_natCast, Int.toNat_of_nonneg hnonneg]
      have hunit : (2 : ℚ) ^ (-((53 : ℕ) : ℤ)) = (2 ^ 53)⁻¹ := by rw [zpow_neg, zpow_natCast]
      rw [hv, hexponent, hbits, Nat.shiftLeft_eq, hunit]
      push_cast
      field_simp
      norm_num
  next hnegative =>
    refine div_eq hx hc _ _ ?_
    have hexponent : (10 : ℚ) ^ e = (10 ^ (-e).toNat)⁻¹ := by
      rw [← zpow_natCast, Int.toNat_of_nonneg (by omega), zpow_neg, inv_inv]
    rw [hv, hexponent]
    push_cast
    simp [div_eq_mul_inv]

/-- A number that fits is not rounded. -/
theorem roundWithAccuracy_of_fits {m : ℕ} {e : ℤ} (hm : 0 < m) (hlt : m < 2 ^ 53) (he : -1074 ≤ e) :
    roundWithAccuracy .binary64 .positive m e .exact = .finite .positive m e hm := by
  have hrounded : (ExtendedMantissa.ofMantissaAndAccuracy m .exact).roundedMantissa = m := rfl
  rw [roundWithAccuracy, shift_of_lt hlt he]
  dsimp only
  rw [hrounded, shift_of_lt hlt he]
  exact dif_neg hm.ne'

/-- A natural number that fits is brought to fifty-three bits. -/
theorem ofNat_eq {m : ℕ} (hm : 0 < m) (hlt : m < 2 ^ 53) :
    ∃ n e, ∃ hn : 0 < n, UnpackedFloat.ofNat .binary64 m = .finite .positive n e hn ∧ 2 ^ 52 ≤ n ∧ n < 2 ^ 53 ∧
      -52 ≤ e ∧ e ≤ 0 ∧ (n : ℚ) * 2 ^ e = m := by
  have hlog : m.log2 ≤ 52 := Nat.lt_succ_iff.mp ((Nat.log2_lt hm.ne').mpr hlt)
  obtain ⟨hlow, hhigh⟩ : 2 ^ m.log2 ≤ m ∧ m < 2 ^ (m.log2 + 1) := ⟨Nat.log2_self_le hm.ne', Nat.lt_log2_self⟩
  generalize hl : m.log2 = l at hlog hlow hhigh
  have hpow : 2 ^ l * 2 ^ (52 - l) = 2 ^ 52 := by rw [← pow_add, Nat.add_sub_cancel' hlog]
  have htwo : 0 < 2 ^ (52 - l) := by positivity
  have hge : 2 ^ 52 ≤ m * 2 ^ (52 - l) := hpow ▸ Nat.mul_le_mul_right _ hlow
  have hfits : m * 2 ^ (52 - l) < 2 ^ 53 := by
    have hmul := Nat.mul_lt_mul_of_pos_right hhigh htwo
    rw [pow_succ, mul_right_comm, hpow] at hmul
    omega
  -- the place where the number is rounded is that of its last bit, once it has fifty-three of them
  have htarget : Format.binary64.targetExponent (totalExponent m 0) = (l : ℤ) - 52 := by
    rw [totalExponent, add_zero, targetExponent_eq, hl, targetOf]
    omega
  have hshift : (0 - ((l : ℤ) - 52)).toNat = 52 - l := by omega
  have hexponent : (0 : ℤ) - ((52 - l : ℕ) : ℤ) = (l : ℤ) - 52 := by omega
  refine ⟨m * 2 ^ (52 - l), (l : ℤ) - 52, Nat.mul_pos hm htwo, ?_, hge, hfits, by omega, by omega, ?_⟩
  -- a natural number is read as a positive integer, and then rounded at that place
  · have hcompare : compare (m : ℤ) 0 = .gt := by
      rw [compare_gt_iff_gt]
      exact_mod_cast hm
    rw [UnpackedFloat.ofNat, UnpackedFloat.ofInt, UnpackedFloat.normalize, hcompare]
    dsimp only
    rw [Int.toNat_natCast, UnpackedFloat.round, htarget, decreaseExponent, hshift]
    dsimp only
    rw [hexponent, Nat.shiftLeft_eq]
    exact roundWithAccuracy_of_fits _ hfits (by omega)
  · rw [zpow_sub₀ two_ne_zero, zpow_natCast]
    have hcast : (2 : ℚ) ^ l * 2 ^ (52 - l) = 2 ^ (52 : ℤ) := by exact_mod_cast hpow
    rw [← hcast]
    push_cast
    field_simp

/-- Is the number a power of ten, with a leading bit? -/
def isPowerOfTen (k : ℕ) : UnpackedFloat → Bool
  | .finite .positive n e _ => 2 ^ 52 ≤ n && -52 ≤ e && n * 2 ^ (e + 52).toNat == 10 ^ k * 2 ^ 52
  | _ => false

/-- A number found to be a power of ten has its value. -/
theorem eq_of_isPowerOfTen {k : ℕ} {f : UnpackedFloat} (h : isPowerOfTen k f = true) :
    ∃ n e, ∃ hn : 0 < n, f = .finite .positive n e hn ∧ 2 ^ 52 ≤ n ∧ (n : ℚ) * 2 ^ e = 10 ^ k := by
  unfold isPowerOfTen at h
  split at h
  next n e hn =>
    simp only [Bool.and_eq_true, decide_eq_true_eq, beq_iff_eq] at h
    obtain ⟨⟨hle, he⟩, hvalue⟩ := h
    refine ⟨n, e, hn, rfl, hle, ?_⟩
    have hcast : (n : ℚ) * 2 ^ (e + 52).toNat = 10 ^ k * 2 ^ 52 := by exact_mod_cast hvalue
    have hexponent : (2 : ℚ) ^ (e + 52).toNat = 2 ^ e * 2 ^ 52 := by
      rw [← zpow_natCast, Int.toNat_of_nonneg (by omega), zpow_add₀ two_ne_zero]
      norm_num
    rw [hexponent, ← mul_assoc] at hcast
    exact mul_right_cancel₀ (by positivity) hcast
  next => cases h

/-- The powers of ten that the core library keeps are exact. -/
theorem unpack_powerOfTen {k : ℕ} (hk : k < 23) :
    ∃ n e, ∃ hn : 0 < n, (Float.exactlyRepresentablePowersOfTen[k]).toModel.unpack =
      .finite .positive n e hn ∧ 2 ^ 52 ≤ n ∧ (n : ℚ) * 2 ^ e = 10 ^ k := by
  have hall : ∀ k : Fin 23, isPowerOfTen k (Float.exactlyRepresentablePowersOfTen[k]).toModel.unpack = true := by
    decide +kernel
  exact eq_of_isPowerOfTen (hall ⟨k, hk⟩)

/-- The exponent that is written as a sign and a natural number. -/
def signedExponent (negative : Bool) (e : ℕ) : ℤ := if negative then -(e : ℤ) else e

/-- A decimal is computed from two exact numbers, or from its digits. -/
theorem float_ofScientific_cases {m : ℕ} (negative : Bool) (e : ℕ) (hm : 0 < m) :
    (∃ (n : ℕ) (k : ℤ) (n' : ℕ) (k' : ℤ) (hn : 0 < n) (hn' : 0 < n'), 2 ^ 52 ≤ n ∧ 2 ^ 52 ≤ n' ∧ (n : ℚ) * 2 ^ k = m ∧
      (n' : ℚ) * 2 ^ k' = 10 ^ e ∧ Float.ofScientific m negative e = .ofModel (.pack (if negative then
        UnpackedFloat.div .binary64 (.finite .positive n k hn) (.finite .positive n' k' hn')
        else UnpackedFloat.mul .binary64 (.finite .positive n k hn) (.finite .positive n' k' hn')))) ∨
    Float.ofScientific m negative e =
      .ofModel (.pack (UnpackedFloat.ofScientific .binary64 m (signedExponent negative e))) := by
  rw [Float.ofScientific]
  -- with few digits and a small exponent both numbers are exact; else the digits are rounded at once
  split
  next hexact =>
    obtain ⟨hlt, he⟩ := hexact
    have htoNat : m.toUInt64.toNat = m := Nat.mod_eq_of_lt (by omega)
    obtain ⟨n, k, hn, hofNat, hle, hlt', hk, hk', hnat⟩ := ofNat_eq hm hlt
    obtain ⟨n', k', hn', hpower, hle', htenth⟩ := unpack_powerOfTen (Nat.lt_succ_of_le he)
    have hunpack : (m.toUInt64.toFloat).toModel.unpack = .finite .positive n k hn := by
      rw [UInt64.toFloat, Float.Model.ofUInt64, UnpackedFloat.ofUInt64, htoNat, hofNat]
      exact unpack_pack_of_normal hle hlt' (by omega) (by omega) hn
    refine .inl ⟨n, k, n', k', hn, hn', hle, hle', hnat, htenth, ?_⟩
    rw [← hunpack, ← hpower]
    cases negative <;> rfl
  next =>
    have hexponent : (if negative = true then Int.negOfNat e else Int.ofNat e) = signedExponent negative e := by
      cases negative
      · rfl
      · exact Int.negOfNat_eq
    dsimp only
    rw [hexponent]
    exact .inr rfl

/-- **A decimal is read as the number that it is rounded to**, in whichever way it is computed. -/
theorem float_ofScientific_eq (hx : x.Proper) (hc : x.Catches v) {m e : ℕ} {negative : Bool} (hm : 0 < m)
    (hv : v = m * 10 ^ signedExponent negative e) (hlow : -(2048 + m.log2) ≤ signedExponent negative e)
    (hhigh : signedExponent negative e ≤ 2048) :
    Float.ofScientific m negative e =
      .ofModel (.pack (.finite .positive x.significand x.exponent hx.pos)) := by
  -- both ways end in a product or a quotient with the value of the decimal
  rcases float_ofScientific_cases negative e hm with
    ⟨n, k, n', k', hn, hn', hle, hle', hnat, htenth, heq⟩ | heq
  · rw [heq]
    cases negative with
    | true =>
      have hvalue : v = n * 2 ^ k / (n' * 2 ^ k') := by
        rw [hv, signedExponent, if_pos rfl, hnat, htenth, zpow_neg, zpow_natCast, div_eq_mul_inv]
      rw [if_pos rfl, div_eq hx hc hn hn' hvalue]
    | false =>
      have hvalue : v = n * 2 ^ k * (n' * 2 ^ k') := by
        rw [hv, signedExponent, if_neg Bool.false_ne_true, hnat, htenth, zpow_natCast]
      rw [if_neg Bool.false_ne_true, mul_eq hx hc hn hn' (by nlinarith) hvalue]
  · rw [heq, ofScientific_eq hx hc hm hv hlow hhigh]

/-! ### Results that are numbers -/

/-- Rounding gives a number or an infinity. -/
theorem roundWithAccuracy_ne_notANumber (s : Sign) (m : ℕ) (e : ℤ) (acc : Accuracy) :
    roundWithAccuracy .binary64 s m e acc ≠ .notANumber := by
  rw [roundWithAccuracy]
  dsimp only
  split <;> exact UnpackedFloat.noConfusion

theorem mul_ne_notANumber {m₁ m₂ : ℕ} {e₁ e₂ : ℤ} (hm₁ : 0 < m₁) (hm₂ : 0 < m₂) :
    UnpackedFloat.mul .binary64 (.finite .positive m₁ e₁ hm₁) (.finite .positive m₂ e₂ hm₂) ≠ .notANumber := by
  rw [UnpackedFloat.mul]
  exact roundWithAccuracy_ne_notANumber _ _ _ _

theorem div_ne_notANumber {m₁ m₂ : ℕ} {e₁ e₂ : ℤ} (hm₁ : 0 < m₁) (hm₂ : 0 < m₂) :
    UnpackedFloat.div .binary64 (.finite .positive m₁ e₁ hm₁) (.finite .positive m₂ e₂ hm₂) ≠ .notANumber := by
  rw [UnpackedFloat.div]
  exact roundWithAccuracy_ne_notANumber _ _ _ _

/-- A decimal is read as a number or as an infinity. -/
theorem ofScientific_ne_notANumber (m : ℕ) (e : ℤ) :
    UnpackedFloat.ofScientific .binary64 m e ≠ .notANumber := by
  rw [UnpackedFloat.ofScientific]
  split_ifs
  · exact UnpackedFloat.noConfusion
  · exact UnpackedFloat.noConfusion
  · exact UnpackedFloat.noConfusion
  · exact mul_ne_notANumber _ _
  · exact div_ne_notANumber _ _

/-- What is a number is packed as one. -/
theorem unpack_pack_ne_notANumber {f : UnpackedFloat} (h : f ≠ .notANumber) :
    UnpackedFloat.unpackExponent (UnpackedFloat.pack .binary64 f) ≠ -1#11 ∨
      UnpackedFloat.unpackMantissa (UnpackedFloat.pack .binary64 f) = 0#52 := by
  -- along the cases of packing: infinities and zeros have no fraction, and other numbers have a smaller
  -- exponent
  fun_cases UnpackedFloat.pack with
  | case1 => exact absurd rfl h
  | case2 s => exact .inr (unpackMantissa_packComponents ..)
  | case3 s => exact .inr (unpackMantissa_packComponents ..)
  | case4 s m e hm biased hlarge => exact .inr (unpackMantissa_packComponents ..)
  | case5 s m e hm bits biased hsmall hbits =>
    left
    rw [unpackExponent_packComponents]
    intro heq
    have hvalue := congrArg BitVec.toNat heq
    norm_num at hvalue hsmall
    omega
  | case6 s m e hm bits biased hsmall hbits =>
    left
    rw [unpackExponent_packComponents]
    decide

end HomeAutomaton.Rounding

namespace HomeAutomaton.Binary64

open Float.Model Float.Model.UnpackedFloat Rounding

variable {x : Binary64}

/-- The number is finite, and neither zero nor below zero. -/
structure IsPositive (x : Binary64) : Prop where
  finite : x.exponentField ≠ 2047
  sign : x.isNegative = false
  nonzero : x.isZero = false

/-- The exponent field has eleven bits. -/
theorem exponentField_lt (x : Binary64) : x.exponentField < 2 ^ 11 := by
  rw [exponentField_eq]
  exact Nat.mod_lt _ (by norm_num)

/-- The bits of a positive number, as a number. -/
theorem IsPositive.toNat_bits (h : x.IsPositive) :
    x.bits.toNat = x.exponentField * 2 ^ 52 + x.fractionField := by
  have hlt := x.bits.toNat_lt
  have hsign : ¬ x.bits.toNat / 2 ^ 63 = 1 := by
    rw [← isNegative_iff, h.sign]
    exact Bool.false_ne_true
  rw [exponentField_eq, fractionField_eq]
  omega

/-- A number has a leading bit unless its exponent field is zero. -/
theorem magnitude_cases (hfinite : x.exponentField ≠ 2047) (hzero : x.isZero = false) :
    (x.exponentField = 0 ∧ 0 < x.fractionField ∧ x.magnitude = ⟨x.fractionField, -1074, false⟩) ∨
      (0 < x.exponentField ∧ x.exponentField < 2047 ∧ x.magnitude =
        ⟨2 ^ 52 + x.fractionField, (x.exponentField : ℤ) - 1075,
          x.fractionField == 0 && decide (x.exponentField > 1)⟩) := by
  have hlt := x.exponentField_lt
  rw [magnitude]
  by_cases hexponent : x.exponentField = 0
  · left
    rw [if_pos hexponent]
    refine ⟨hexponent, Nat.pos_of_ne_zero fun hfraction => ?_, rfl⟩
    rw [x.isZero_iff.mpr ⟨hexponent, hfraction⟩] at hzero
    cases hzero
  · right
    rw [if_neg hexponent]
    exact ⟨Nat.pos_of_ne_zero hexponent, by omega, rfl⟩

/-- A finite number other than zero has a proper magnitude. -/
theorem proper_magnitude (hfinite : x.exponentField ≠ 2047) (hzero : x.isZero = false) :
    x.magnitude.Proper := by
  have hfraction := x.fractionField_lt
  -- a number without a leading bit has the least exponent there is
  rcases magnitude_cases hfinite hzero with ⟨-, hpos, heq⟩ | ⟨hpos, hlt, heq⟩
  · rw [heq]
    refine ⟨hpos, ?_, le_rfl, by norm_num, .inr rfl, ?_⟩
    · dsimp only
      omega
    · simp
  · rw [heq]
    refine ⟨?_, ?_, ?_, ?_, .inl ?_, ?_⟩ <;> dsimp only
    · omega
    · omega
    · omega
    · omega
    · omega
    · simp only [Bool.and_eq_true, beq_iff_eq, decide_eq_true_eq]
      omega

theorem IsPositive.proper (h : x.IsPositive) : x.magnitude.Proper := proper_magnitude h.finite h.nonzero

/-- **A positive number is packed from its magnitude.** -/
theorem IsPositive.ofFloat_pack (h : x.IsPositive) :
    ofFloat (.ofModel (.pack (.finite .positive x.magnitude.significand x.magnitude.exponent h.proper.pos))) =
      x := by
  have hfraction := x.fractionField_lt
  have hbits := h.toNat_bits
  -- numbers are equal when their bits are
  have hext : ∀ f : UnpackedFloat, (UnpackedFloat.pack .binary64 f).toNat = x.bits.toNat →
      ofFloat (.ofModel (.pack f)) = x := by
    intro f hf
    have hsame : (ofFloat (.ofModel (.pack f))).bits = x.bits := UInt64.toNat_inj.mp hf
    exact congrArg Binary64.mk hsame
  refine hext _ ?_
  rcases magnitude_cases h.finite h.nonzero with ⟨hexponent, hpos, heq⟩ | ⟨hpos, hlt, heq⟩
  · simp only [heq]
    rw [pack_of_subnormal hfraction hpos, toNat_packComponents, BitVec.toNat_ofNat, Nat.mod_eq_of_lt hfraction,
      hbits, hexponent]
    rfl
  · have hbiased : ((x.exponentField : ℤ) - 1075 + 1075).toNat = x.exponentField := by omega
    simp only [heq]
    rw [pack_of_normal (by omega) (by omega) (by omega) (by omega), toNat_packComponents, BitVec.toNat_ofNat,
      BitVec.toNat_ofNat, hbits, hbiased, Nat.mod_eq_of_lt x.exponentField_lt, Nat.add_mod_left,
      Nat.mod_eq_of_lt hfraction]

/-! ### Results that are numbers -/

/-- What is no error is packed as a number. -/
theorem isNaN_ofFloat_pack {f : UnpackedFloat} (h : f ≠ .notANumber) :
    (ofFloat (.ofModel (.pack f))).isNaN = false := by
  have hexponent : (ofFloat (.ofModel (.pack f))).exponentField =
      (UnpackedFloat.unpackExponent (UnpackedFloat.pack .binary64 f)).toNat := by
    rw [exponentField_eq, unpackExponent, BitVec.toNat_cast, BitVec.extractLsb_toNat, Nat.shiftRight_eq_div_pow]
    rfl
  have hfraction : (ofFloat (.ofModel (.pack f))).fractionField =
      (UnpackedFloat.unpackMantissa (UnpackedFloat.pack .binary64 f)).toNat := by
    rw [fractionField_eq, unpackMantissa, BitVec.toNat_cast, BitVec.extractLsb_toNat, Nat.shiftRight_zero]
    rfl
  rw [isNaN, hexponent, hfraction]
  -- either the exponent has a zero in it, or the fraction is zero
  rcases unpack_pack_ne_notANumber h with hne | hzero
  · have hfield : (UnpackedFloat.unpackExponent (UnpackedFloat.pack .binary64 f)).toNat ≠ 2047 :=
      fun heq => hne (BitVec.eq_of_toNat_eq heq)
    rw [beq_eq_false_iff_ne.mpr hfield, Bool.false_and]
  · rw [hzero]
    exact Bool.and_false _

/-- Whatever the digits and the exponent are, a number is read. -/
theorem isNaN_ofMagnitude (digits : ℕ) (exponent : ℤ) : (ofMagnitude digits exponent).isNaN = false := by
  rw [ofMagnitude]
  -- too small and too large numbers are read as zero and as infinity
  split_ifs with hzero hlarge
  · rfl
  · rfl
  · have hpos : 0 < digits := Nat.pos_of_ne_zero fun h => hzero (.inl h)
    rcases float_ofScientific_cases (decide (exponent < 0)) exponent.natAbs hpos with
      ⟨n, k, n', k', hn, hn', -, -, -, -, heq⟩ | heq
    · rw [heq]
      split_ifs
      · exact isNaN_ofFloat_pack (div_ne_notANumber hn hn')
      · exact isNaN_ofFloat_pack (mul_ne_notANumber hn hn')
    · rw [heq]
      exact isNaN_ofFloat_pack (ofScientific_ne_notANumber _ _)

/-! ### Decimals that read back -/

/-- A number lies between the powers of ten that have as many digits. -/
theorem length_toDigits_bounds {m : ℕ} (hm : 0 < m) :
    10 ^ ((Nat.toDigits 10 m).length - 1) ≤ m ∧ m < 10 ^ (Nat.toDigits 10 m).length := by
  have hlength : 0 < (Nat.toDigits 10 m).length := Nat.length_toDigits_pos
  refine ⟨?_, (Nat.length_toDigits_le_iff (by norm_num) hlength).mp le_rfl⟩
  by_contra hnot
  rw [not_le] at hnot
  rcases Nat.eq_zero_or_pos ((Nat.toDigits 10 m).length - 1) with hone | hmore
  · rw [hone, pow_zero] at hnot
    omega
  · have hle := (Nat.length_toDigits_le_iff (by norm_num) hmore).mpr hnot
    omega

/-- Numbers that are rounded to a finite magnitude are neither too small nor too large. -/
theorem Magnitude.Catches.range {x : Magnitude} {v : ℚ} (hx : x.Proper) (hc : x.Catches v) :
    (2 : ℚ) ^ (-1075 : ℤ) ≤ v ∧ v < 2 ^ (1024 : ℤ) := by
  obtain ⟨hlow, hhigh⟩ := hc.bounds
  have hunit : (0 : ℚ) < 2 ^ x.exponent := by positivity
  rw [le_div_iff₀ hunit] at hlow
  rw [div_le_iff₀ hunit] at hhigh
  constructor
  -- from below: at least half of the least unit
  · have hone : (1 : ℚ) ≤ x.significand := by exact_mod_cast hx.pos
    have hleast : (2 : ℚ) ^ (-1074 : ℤ) ≤ 2 ^ x.exponent := zpow_le_zpow_right₀ (by norm_num) hx.least
    have hhalf : (1 / 2 : ℚ) ≤ x.significand - (if x.narrowBelow then 1 / 4 else 1 / 2) := by
      split <;> linarith
    calc (2 : ℚ) ^ (-1075 : ℤ) = 1 / 2 * 2 ^ (-1074 : ℤ) := by
          rw [show (-1075 : ℤ) = -1074 - 1 by norm_num, zpow_sub_one₀ two_ne_zero]
          ring
      _ ≤ 1 / 2 * 2 ^ x.exponent := by gcongr
      _ ≤ (x.significand - (if x.narrowBelow then 1 / 4 else 1 / 2)) * 2 ^ x.exponent := by gcongr
      _ ≤ v := hlow
  -- from above: fifty-three bits at the greatest exponent
  · have hsig : (x.significand : ℚ) + 1 / 2 < 2 ^ 53 := by
      have hle : (x.significand : ℚ) + 1 ≤ 2 ^ 53 := by exact_mod_cast hx.lt
      linarith
    have hgreatest : (2 : ℚ) ^ x.exponent ≤ 2 ^ (971 : ℤ) := zpow_le_zpow_right₀ (by norm_num) hx.greatest
    calc v ≤ (x.significand + 1 / 2) * 2 ^ x.exponent := hhigh
      _ < 2 ^ 53 * 2 ^ x.exponent := by gcongr
      _ ≤ 2 ^ 53 * 2 ^ (971 : ℤ) := by gcongr
      _ = 2 ^ (1024 : ℤ) := by
          rw [← zpow_natCast, ← zpow_add₀ two_ne_zero]
          norm_num

/-- The powers of ten beyond the range of the numbers. -/
theorem two_pow_le_ten_pow : (2 : ℚ) ^ 1075 ≤ 10 ^ 400 := by
  calc (2 : ℚ) ^ 1075 ≤ 2 ^ (13 * 100) := pow_le_pow_right₀ (by norm_num) (by norm_num)
    _ = (2 ^ 13) ^ 100 := pow_mul 2 13 100
    _ ≤ (10 ^ 4) ^ 100 := pow_le_pow_left₀ (by norm_num) (by norm_num) 100
    _ = 10 ^ (4 * 100) := (pow_mul 10 4 100).symm

/-- The place of the first digit of a decimal. -/
theorem place_bounds {digits : ℕ} (hpos : 0 < digits) (exponent : ℤ) :
    (10 : ℚ) ^ (((Nat.toDigits 10 digits).length : ℤ) + exponent - 1) ≤ digits * 10 ^ exponent ∧
      (digits : ℚ) * 10 ^ exponent < 10 ^ (((Nat.toDigits 10 digits).length : ℤ) + exponent) := by
  obtain ⟨hfrom, hto⟩ := length_toDigits_bounds hpos
  have hlength : 0 < (Nat.toDigits 10 digits).length := Nat.length_toDigits_pos
  -- the digits lie between two powers of ten, and the exponent moves all three
  generalize (Nat.toDigits 10 digits).length = length at hfrom hto hlength ⊢
  have hten : (0 : ℚ) < 10 ^ exponent := by positivity
  constructor
  · have hcast : (10 : ℚ) ^ (length - 1) ≤ digits := by exact_mod_cast hfrom
    have hexponent : (length : ℤ) + exponent - 1 = ((length - 1 : ℕ) : ℤ) + exponent := by omega
    rw [hexponent, zpow_add₀ (by norm_num), zpow_natCast]
    gcongr
  · have hcast : (digits : ℚ) < 10 ^ length := by exact_mod_cast hto
    rw [zpow_add₀ (by norm_num), zpow_natCast]
    gcongr

/-- The first digit of a decimal that is rounded to a finite magnitude is not too far from the point. -/
theorem Magnitude.Catches.place {x : Magnitude} (hx : x.Proper) {digits : ℕ} {exponent : ℤ} (hpos : 0 < digits)
    (hc : x.Catches (digits * 10 ^ exponent)) :
    -400 ≤ ((Nat.toDigits 10 digits).length : ℤ) + exponent ∧
      ((Nat.toDigits 10 digits).length : ℤ) + exponent ≤ 400 := by
  obtain ⟨hlow, hhigh⟩ := hc.range hx
  obtain ⟨habove, hbelow⟩ := place_bounds hpos exponent
  constructor
  -- a decimal beyond either bound would be out of the range of the numbers
  · by_contra hlt
    have hsmall : (10 : ℚ) ^ (((Nat.toDigits 10 digits).length : ℤ) + exponent) ≤ 10 ^ (-400 : ℤ) :=
      zpow_le_zpow_right₀ (by norm_num) (by omega)
    have hcontra := (hlow.trans_lt hbelow).trans_le hsmall
    rw [zpow_neg, zpow_neg, inv_lt_inv₀ (by positivity) (by positivity)] at hcontra
    exact absurd hcontra (not_lt.mpr two_pow_le_ten_pow)
  · by_contra hlt
    have hlarge : (10 : ℚ) ^ (400 : ℤ) ≤ 10 ^ (((Nat.toDigits 10 digits).length : ℤ) + exponent - 1) :=
      zpow_le_zpow_right₀ (by norm_num) (by omega)
    have hcontra := (hlarge.trans habove).trans_lt hhigh
    have hmono : (2 : ℚ) ^ 1024 ≤ 2 ^ 1075 := pow_le_pow_right₀ (by norm_num) (by norm_num)
    exact absurd hcontra (not_lt.mpr (hmono.trans two_pow_le_ten_pow))

/-- An exponent is its size with its sign. -/
theorem signedExponent_natAbs (e : ℤ) : signedExponent (decide (e < 0)) e.natAbs = e := by
  rw [signedExponent]
  split
  next hneg =>
    have hneg' : e < 0 := by simpa using hneg
    omega
  next hneg =>
    have hneg' : ¬ e < 0 := by simpa using hneg
    omega

/-- **A positive number is read from every decimal that is rounded to it.** -/
theorem IsPositive.ofMagnitude_eq (h : x.IsPositive) {digits : ℕ} {exponent : ℤ}
    (hc : x.magnitude.Catches (digits * 10 ^ exponent)) : ofMagnitude digits exponent = x := by
  have hpos : 0 < digits := by
    obtain ⟨hlow, -⟩ := hc.range h.proper
    refine Nat.pos_of_ne_zero fun hzero => ?_
    rw [hzero, Nat.cast_zero, zero_mul] at hlow
    exact absurd hlow (not_le.mpr (by positivity))
  obtain ⟨hleast, hgreatest⟩ := hc.place h.proper hpos
  -- the digits are no fewer than a bound in bits asks for
  have hlog : (Nat.toDigits 10 digits).length - 1 ≤ digits.log2 := by
    refine (Nat.le_log2 hpos.ne').mpr (le_trans ?_ (length_toDigits_bounds hpos).1)
    exact Nat.pow_le_pow_left (by norm_num) _
  have hsigned := signedExponent_natAbs exponent
  have hread := float_ofScientific_eq h.proper hc hpos (by rw [hsigned]) (by rw [hsigned]; omega)
    (by rw [hsigned]; omega)
  rw [ofMagnitude, if_neg (by omega), if_neg (by omega), hread]
  exact h.ofFloat_pack

/-! ### Numbers below zero -/

/-- Changing the sign changes the first bit. -/
theorem toNat_bits_negate (x : Binary64) : x.negate.bits.toNat = x.bits.toNat ^^^ 2 ^ 63 := by
  rw [negate, UInt64.toNat_xor]
  rfl

@[simp] theorem exponentField_negate (x : Binary64) : x.negate.exponentField = x.exponentField := by
  simp [exponentField, toNat_bits_negate, Nat.shiftRight_xor_distrib, Nat.and_xor_distrib_right]

@[simp] theorem fractionField_negate (x : Binary64) : x.negate.fractionField = x.fractionField := by
  simp [fractionField, toNat_bits_negate, Nat.and_xor_distrib_right]

@[simp] theorem isNegative_negate (x : Binary64) : x.negate.isNegative = !x.isNegative := by
  have hlt := x.bits.toNat_lt
  have hflip : x.negate.bits.toNat / 2 ^ 63 = x.bits.toNat / 2 ^ 63 ^^^ 1 := by
    rw [toNat_bits_negate, ← Nat.shiftRight_eq_div_pow, ← Nat.shiftRight_eq_div_pow, Nat.shiftRight_xor_distrib]
    rfl
  rw [Bool.eq_iff_iff, isNegative_iff, hflip, Bool.not_eq_true', ← Bool.not_eq_true, isNegative_iff]
  have hbit : x.bits.toNat / 2 ^ 63 = 0 ∨ x.bits.toNat / 2 ^ 63 = 1 := by omega
  rcases hbit with h | h <;> rw [h] <;> decide

theorem magnitude_negate (x : Binary64) : x.negate.magnitude = x.magnitude := by
  rw [magnitude, magnitude, exponentField_negate, fractionField_negate]

/-- Changed twice, the sign is the one from before. -/
theorem negate_negate (x : Binary64) : x.negate.negate = x :=
  ext_fields (by simp) (by simp) (by simp)

/-- Zero stays zero. -/
theorem isZero_negate (x : Binary64) : x.negate.isZero = x.isZero := by
  rw [isZero, isZero, exponentField_negate, fractionField_negate]

/-- A number stays a number. -/
theorem isNaN_negate (x : Binary64) : x.negate.isNaN = x.isNaN := by
  rw [isNaN, isNaN, exponentField_negate, fractionField_negate]

/-- An infinity has the last exponent and no fraction. -/
theorem isInfinite_iff (x : Binary64) : x.isInfinite = true ↔ x.exponentField = 2047 ∧ x.fractionField = 0 := by
  rw [isInfinite, Bool.and_eq_true, beq_iff_eq, beq_iff_eq]

theorem eq_infinity (h : x.isInfinite = true) :
    x = if x.isNegative = true then infinity.negate else infinity := by
  obtain ⟨hexponent, hfraction⟩ := x.isInfinite_iff.mp h
  split
  next hsign => exact ext_fields hsign hexponent hfraction
  next hsign => exact ext_fields (Bool.eq_false_iff.mpr hsign) hexponent hfraction

/-- **A number is read from every decimal that is rounded to its magnitude**, with its sign in front. -/
theorem ofDecimal_eq (hfinite : x.exponentField ≠ 2047) (hzero : x.isZero = false) {digits : ℕ} {exponent : ℤ}
    (hc : x.magnitude.Catches (digits * 10 ^ exponent)) : ofDecimal x.isNegative digits exponent = x := by
  rw [ofDecimal]
  cases hsign : x.isNegative with
  | false => exact IsPositive.ofMagnitude_eq ⟨hfinite, hsign, hzero⟩ hc
  | true =>
    have hpositive : x.negate.IsPositive := by
      exact ⟨by rwa [exponentField_negate], by rw [isNegative_negate, hsign]; rfl, by rwa [isZero_negate]⟩
    rw [if_pos rfl, hpositive.ofMagnitude_eq (by rwa [magnitude_negate]), negate_negate]

/-- Zero is read with its sign. -/
theorem ofDecimal_zero (hzero : x.isZero = true) (exponent : ℤ) : ofDecimal x.isNegative 0 exponent = x := by
  have hmagnitude : ofMagnitude 0 exponent = ⟨0⟩ := by
    rw [ofMagnitude]
    exact if_pos (.inl rfl)
  obtain ⟨hexponent, hfraction⟩ := x.isZero_iff.mp hzero
  rw [ofDecimal, hmagnitude]
  cases hsign : x.isNegative with
  | false => exact ext_fields hsign.symm hexponent.symm hfraction.symm
  | true => exact ext_fields hsign.symm hexponent.symm hfraction.symm

/-- Every decimal is read as a number. -/
theorem isNaN_ofDecimal (negative : Bool) (digits : ℕ) (exponent : ℤ) :
    (ofDecimal negative digits exponent).isNaN = false := by
  cases negative with
  | false => exact isNaN_ofMagnitude digits exponent
  | true => exact (isNaN_negate _).trans (isNaN_ofMagnitude digits exponent)

end HomeAutomaton.Binary64
