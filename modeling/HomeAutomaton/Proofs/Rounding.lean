import HomeAutomaton.Number.Shortest
import Mathlib
import Mathlib.Tactic.Linarith
import Mathlib.Tactic.Positivity

/-!
# Rounding to the nearest number

The core library computes with unpacked numbers: a result that is no floating-point number is known by its
leading bits, by the bit after these and by whether there is anything behind. That is enough to round it.
Here the result is a rational number, and what is said of the bits is said of it.

* `Rounding.Describes` says what the bits tell of a number, and `Rounding.Describes.rounded` that they are
  enough to round it to a natural number.
* `Binary64.Magnitude.Catches` says which numbers are rounded to a magnitude.
* `Binary64.Magnitude.Catches.roundWithAccuracy_eq` is the result: those are.
-/

namespace HomeAutomaton.Rounding

open Float.Model Float.Model.UnpackedFloat

/-- The extended mantissa describes the number: its whole part, whether what is left is a half or more, and
whether anything is left then. -/
def Describes (em : ExtendedMantissa) (v : ℚ) : Prop :=
  ∃ rest : ℚ, v = em.mantissa + (if em.roundBit then 1 / 2 else 0) + rest ∧ 0 ≤ rest ∧ rest < 1 / 2 ∧
    (em.stickyBit = true ↔ 0 < rest)

/-- Half the number is described when its bits go one place down. -/
theorem Describes.half {em : ExtendedMantissa} {v : ℚ} (h : Describes em v) :
    Describes em.shiftRightOne (v / 2) := by
  -- the last bit of the whole part becomes the round bit, and the old round bit is part of what is behind it
  obtain ⟨rest, rfl, hnonneg, hlt, hsticky⟩ := h
  have hdiv : (em.mantissa : ℚ) = 2 * (em.mantissa / 2 : ℕ) + (em.mantissa % 2 : ℕ) := by
    exact_mod_cast (Nat.div_add_mod em.mantissa 2).symm
  refine ⟨(if em.roundBit then 1 / 4 else 0) + rest / 2, ?_, ?_, ?_, ?_⟩
  · rw [hdiv, ExtendedMantissa.shiftRightOne]
    rcases Nat.mod_two_eq_zero_or_one em.mantissa with heven | hodd
    · simp only [heven]
      split <;> simp <;> ring
    · simp only [hodd]
      split <;> simp <;> ring
  · split <;> linarith
  · split <;> linarith
  · cases hround : em.roundBit
    · simp [ExtendedMantissa.shiftRightOne, hround, hsticky]
    · simp [ExtendedMantissa.shiftRightOne, hround]
      positivity

theorem Describes.shift {em : ExtendedMantissa} {v : ℚ} (h : Describes em v) (n : ℕ) :
    Describes (em >>> n) (v / 2 ^ n) := by
  induction n with
  | zero =>
    rw [pow_zero, div_one]
    exact h
  | succ n ih =>
    have hhalf := ih.half
    rw [div_div, ← pow_succ] at hhalf
    exact hhalf

/-- The number is rounded to the natural number: no other one is nearer, and of two that are as near, this
one is even. -/
def RoundsTo (v : ℚ) (n : ℕ) : Prop :=
  (n - 1 / 2 < v ∨ (n % 2 = 0 ∧ n - 1 / 2 = v)) ∧ (v < n + 1 / 2 ∨ (n % 2 = 0 ∧ v = n + 1 / 2))

/-- No rounding goes further than a half. -/
theorem RoundsTo.bounds {v : ℚ} {n : ℕ} (h : RoundsTo v n) : (n : ℚ) ≤ v + 1 / 2 ∧ v ≤ n + 1 / 2 := by
  obtain ⟨hlow, hhigh⟩ := h
  constructor
  · rcases hlow with h | ⟨-, h⟩ <;> linarith
  · rcases hhigh with h | ⟨-, h⟩ <;> linarith

/-- Of the two natural numbers around a half it is the even one. -/
theorem RoundsTo.even_of_half {m n : ℕ} (h : RoundsTo (m + 1 / 2) n) (hm : m ≤ n) (hn : n < m + 2) :
    n % 2 = 0 := by
  obtain ⟨hlow, hhigh⟩ := h
  -- only the two neighbours are left, and each of them must be even to win
  rcases Nat.lt_or_ge m n with hlt | hge
  · obtain rfl : n = m + 1 := by omega
    push_cast at hlow
    rcases hlow with h | ⟨h, -⟩
    · linarith
    · exact h
  · obtain rfl : n = m := by omega
    rcases hhigh with h | ⟨h, -⟩
    · linarith
    · exact h

/-- **A description is enough to round by**: what the bits are rounded to is what the number is rounded to. -/
theorem Describes.rounded {em : ExtendedMantissa} {v : ℚ} {n : ℕ} (h : Describes em v)
    (hn : RoundsTo v n) : em.roundedMantissa = n := by
  obtain ⟨m, round, sticky⟩ := em
  obtain ⟨rest, hv, hnonneg, hlt, hsticky⟩ := h
  obtain ⟨hge, hle⟩ := hn.bounds
  dsimp only at hv hsticky
  cases round with
  | false =>
    have hrest : v = m + rest := by simpa using hv
    -- less than a half is left, so no other natural number is as near
    have heq : m = n := by
      have h₁ : (n : ℚ) < m + 1 := by linarith
      have h₂ : (m : ℚ) < n + 1 := by linarith
      have h₁' : n < m + 1 := by exact_mod_cast h₁
      have h₂' : m < n + 1 := by exact_mod_cast h₂
      omega
    cases sticky <;> simpa [ExtendedMantissa.roundedMantissa, ExtendedMantissa.accuracy,
      Accuracy.roundToNearestEven] using heq
  | true =>
    have hrest : v = m + 1 / 2 + rest := by simpa using hv
    have hupper : (n : ℚ) < m + 2 := by linarith
    have hlower : (m : ℚ) ≤ n := by linarith
    have hupper' : n < m + 2 := by exact_mod_cast hupper
    have hlower' : m ≤ n := by exact_mod_cast hlower
    cases sticky with
    | true =>
      -- more than a half is left: the number above is the nearest
      have hpos : 0 < rest := hsticky.mp rfl
      have hne : (m : ℚ) < n := by linarith
      have hne' : m < n := by exact_mod_cast hne
      simp [ExtendedMantissa.roundedMantissa, ExtendedMantissa.accuracy, Accuracy.roundToNearestEven]
      omega
    | false =>
      -- exactly a half is left, and the even neighbour is taken
      have hzero : rest = 0 := by
        by_contra hne
        exact absurd (hsticky.mpr (lt_of_le_of_ne hnonneg (Ne.symm hne))) (by simp)
      rw [hzero, add_zero] at hrest
      have heven : n % 2 = 0 := (hrest ▸ hn).even_of_half hlower' hupper'
      simp [ExtendedMantissa.roundedMantissa, ExtendedMantissa.accuracy, Accuracy.roundToNearestEven]
      omega

/-- A natural number is described by itself. -/
theorem describes_exact (m : ℕ) : Describes (.ofMantissaAndAccuracy m .exact) m :=
  ⟨0, by simp [ExtendedMantissa.ofMantissaAndAccuracy], le_refl _, by norm_num,
    by simp [ExtendedMantissa.ofMantissaAndAccuracy]⟩

/-- The quotient of two natural numbers is described by its whole part and its remainder. -/
theorem describes_fraction (n : ℕ) {d : ℕ} (hd : 0 < d) :
    Describes (.ofMantissaAndAccuracy (n / d) (accuracyOfFraction (n % d) d)) ((n : ℚ) / d) := by
  have hdiv : (n : ℚ) / d = (n / d : ℕ) + (n % d : ℕ) / d := by
    have hmod : (n : ℚ) = d * (n / d : ℕ) + (n % d : ℕ) := by exact_mod_cast (Nat.div_add_mod n d).symm
    field_simp
    exact hmod
  -- the remainder is less than a whole
  have hlt : ((n % d : ℕ) : ℚ) / d < 1 := by
    rw [div_lt_one (by positivity)]
    exact_mod_cast Nat.mod_lt n hd
  generalize n % d = r at hdiv hlt
  generalize n / d = q at hdiv
  rw [hdiv, accuracyOfFraction]
  have hd' : (0 : ℚ) < d := by positivity
  -- from here on the whole part and the remainder are any numbers
  by_cases hr : r = 0
  · subst hr
    simpa using describes_exact q
  · rw [if_neg hr]
    have hpos : (0 : ℚ) < r := by positivity
    -- where the remainder stands to a half gives the two bits
    cases hcmp : compare (2 * r) d with
    | lt =>
      have hlt' : (2 * r : ℚ) < d := by exact_mod_cast Nat.compare_eq_lt.mp hcmp
      refine ⟨r / d, by simp [ExtendedMantissa.ofMantissaAndAccuracy], by positivity, ?_, ?_⟩
      · rw [div_lt_div_iff₀ hd' two_pos]
        linarith
      · simpa [ExtendedMantissa.ofMantissaAndAccuracy] using div_pos hpos hd'
    | eq =>
      have heq : (2 * r : ℚ) = d := by exact_mod_cast Nat.compare_eq_eq.mp hcmp
      refine ⟨0, ?_, le_refl _, by norm_num, by simp [ExtendedMantissa.ofMantissaAndAccuracy]⟩
      simp only [ExtendedMantissa.ofMantissaAndAccuracy, if_true, add_zero, add_right_inj]
      rw [← heq]
      field_simp
    | gt =>
      have hgt : (d : ℚ) < 2 * r := by exact_mod_cast Nat.compare_eq_gt.mp hcmp
      have hhalf : 1 / 2 < (r : ℚ) / d := by
        rw [div_lt_div_iff₀ two_pos hd']
        linarith
      refine ⟨r / d - 1 / 2, ?_, by linarith, by linarith, ?_⟩
      · simp [ExtendedMantissa.ofMantissaAndAccuracy]
      · simpa [ExtendedMantissa.ofMantissaAndAccuracy] using hhalf

/-! ### Rounding to the format -/

/-- The exponent of numbers from `2 ^ l` to below `2 ^ (l + 1)`. -/
def targetOf (l : ℤ) : ℤ := max (l - 52) (-1074)

/-- The format has this exponent for numbers with a leading bit there. -/
theorem targetExponent_eq (l : ℤ) : Format.binary64.targetExponent (l + 1) = targetOf l := by
  simp [Format.targetExponent, targetOf, Format.mantissaBits, Format.minExponent]
  omega

/-- Two powers of two that enclose one number in their ranges are one. -/
theorem eq_of_zpow_le {v : ℚ} {k l : ℤ} (hk : (2 : ℚ) ^ k ≤ v) (hk' : v < 2 ^ (k + 1)) (hl : (2 : ℚ) ^ l ≤ v)
    (hl' : v < 2 ^ (l + 1)) : k = l := by
  have h₁ := (zpow_lt_zpow_iff_right₀ (by norm_num : (1 : ℚ) < 2)).mp (hk.trans_lt hl')
  have h₂ := (zpow_lt_zpow_iff_right₀ (by norm_num : (1 : ℚ) < 2)).mp (hl.trans_lt hk')
  omega

/-- The whole part is the number below. -/
theorem Describes.bounds {em : ExtendedMantissa} {v : ℚ} (h : Describes em v) :
    (em.mantissa : ℚ) ≤ v ∧ v < em.mantissa + 1 := by
  obtain ⟨rest, rfl, hnonneg, hlt, -⟩ := h
  constructor <;> split <;> linarith

/-- What is known of a number is enough to tell its exponent. -/
theorem target_of_describes {m : ℕ} {e l : ℤ} {acc : Accuracy} {v : ℚ}
    (h : Describes (.ofMantissaAndAccuracy m acc) v) (hl : (2 : ℚ) ^ l ≤ v * 2 ^ e)
    (hl' : v * 2 ^ e < 2 ^ (l + 1)) (he : e ≤ targetOf l) :
    Format.binary64.targetExponent (totalExponent m e) = targetOf l := by
  have hmantissa : (ExtendedMantissa.ofMantissaAndAccuracy m acc).mantissa = m := by
    unfold ExtendedMantissa.ofMantissaAndAccuracy
    split <;> rfl
  have hbounds := h.bounds
  rw [hmantissa] at hbounds
  have htwo : (0 : ℚ) < 2 ^ e := by positivity
  rw [totalExponent, add_right_comm, targetExponent_eq]
  rcases Nat.eq_zero_or_pos m with rfl | hm
  · -- the number is smaller than one unit, and so it is below the normal numbers
    have hlt : (2 : ℚ) ^ l < 2 ^ e := by
      refine hl.trans_lt ?_
      have hone : v < 1 := by simpa using hbounds.2
      nlinarith
    have hle := (zpow_lt_zpow_iff_right₀ (by norm_num : (1 : ℚ) < 2)).mp hlt
    simp only [targetOf, Nat.log2_zero] at he ⊢
    omega
  -- the leading bit of the whole part is that of the number
  · have hlog : ((m.log2 : ℤ) + e) = l := by
      refine eq_of_zpow_le ?_ ?_ hl hl'
      · rw [zpow_add₀ two_ne_zero, zpow_natCast]
        have hpow : (2 ^ m.log2 : ℚ) ≤ m := by exact_mod_cast Nat.log2_self_le hm.ne'
        exact mul_le_mul_of_nonneg_right (hpow.trans hbounds.1) htwo.le
      · rw [add_right_comm, zpow_add₀ two_ne_zero, ← Nat.cast_succ, zpow_natCast]
        have hpow : (m : ℚ) + 1 ≤ 2 ^ (m.log2 + 1) := by exact_mod_cast Nat.lt_log2_self
        exact mul_lt_mul_of_pos_right (hbounds.2.trans_le hpow) htwo
    rw [hlog]

/-- A mantissa that fits stays as it is. -/
theorem shift_of_lt {n : ℕ} {e : ℤ} (hn : n < 2 ^ 53) (he : -1074 ≤ e) :
    shiftToTargetExponent .binary64 n e .exact = (.ofMantissaAndAccuracy n .exact, e) := by
  have hlog : n.log2 ≤ 52 := by
    rcases Nat.eq_zero_or_pos n with rfl | hpos
    · simp
    · exact Nat.lt_succ_iff.mp ((Nat.log2_lt hpos.ne').mpr hn)
  have hshift : (Format.binary64.targetExponent (totalExponent n e) - e).toNat = 0 := by
    rw [totalExponent, add_right_comm, targetExponent_eq, targetOf]
    omega
  rw [shiftToTargetExponent, shiftToExponent, hshift]
  simp
  rfl

/-- A mantissa that was rounded up to one bit more is halved. -/
theorem shift_of_eq {e : ℤ} (he : -1074 ≤ e) :
    shiftToTargetExponent .binary64 (2 ^ 53) e .exact = (.ofMantissaAndAccuracy (2 ^ 52) .exact, e + 1) := by
  have hshift : (Format.binary64.targetExponent (totalExponent (2 ^ 53) e) - e).toNat = 1 := by
    rw [totalExponent, add_right_comm, targetExponent_eq, targetOf, Nat.log2_two_pow]
    omega
  rw [shiftToTargetExponent, shiftToExponent, hshift]
  rfl

/-- The number, in units of its exponent, is rounded to a natural number. -/
theorem roundWithAccuracy_shifted {m n : ℕ} {e l : ℤ} {acc : Accuracy} {v : ℚ} (s : Sign)
    (h : Describes (.ofMantissaAndAccuracy m acc) v) (hl : (2 : ℚ) ^ l ≤ v * 2 ^ e)
    (hl' : v * 2 ^ e < 2 ^ (l + 1)) (he : e ≤ targetOf l)
    (hn : RoundsTo (v * 2 ^ e / 2 ^ targetOf l) n) :
    roundWithAccuracy .binary64 s m e acc =
      let shifted := shiftToTargetExponent .binary64 n (targetOf l) .exact
      if h : shifted.1.mantissa = 0 then .zero s
      else .finite s shifted.1.mantissa shifted.2 (Nat.pos_of_ne_zero h) := by
  have htarget := target_of_describes h hl hl' he
  have hamount : ((targetOf l - e).toNat : ℤ) = targetOf l - e := Int.toNat_of_nonneg (by omega)
  -- moved to the target exponent the bits still describe the number
  have hrounded : (ExtendedMantissa.ofMantissaAndAccuracy m acc >>> (targetOf l - e).toNat).roundedMantissa =
      n := by
    refine (h.shift _).rounded ?_
    rw [mul_div_assoc, ← zpow_sub₀ two_ne_zero] at hn
    rwa [div_eq_mul_inv, ← zpow_natCast, hamount, ← zpow_neg, neg_sub]
  have hexponent : e + ((targetOf l - e).toNat : ℤ) = targetOf l := by omega
  rw [roundWithAccuracy]
  simp only [shiftToTargetExponent, shiftToExponent, htarget, hrounded, hexponent]
  rfl

/-- Rounding to a number that needs no more bits than there are. -/
theorem roundWithAccuracy_of_lt {m n : ℕ} {e l : ℤ} {acc : Accuracy} {v : ℚ} (s : Sign)
    (h : Describes (.ofMantissaAndAccuracy m acc) v) (hl : (2 : ℚ) ^ l ≤ v * 2 ^ e)
    (hl' : v * 2 ^ e < 2 ^ (l + 1)) (he : e ≤ targetOf l)
    (hround : RoundsTo (v * 2 ^ e / 2 ^ targetOf l) n) (hpos : 0 < n) (hn : n < 2 ^ 53) :
    roundWithAccuracy .binary64 s m e acc = .finite s n (targetOf l) hpos := by
  have hleast : -1074 ≤ targetOf l := le_max_right _ _
  rw [roundWithAccuracy_shifted s h hl hl' he hround, shift_of_lt hn hleast]
  exact dif_neg hpos.ne'

/-- A mantissa with the leading bit alone is not zero. -/
theorem leadingBit_pos : 0 < 2 ^ 52 := by norm_num

/-- Rounding up to the next power of two, which moves the exponent. -/
theorem roundWithAccuracy_of_eq {m : ℕ} {e l : ℤ} {acc : Accuracy} {v : ℚ} (s : Sign)
    (h : Describes (.ofMantissaAndAccuracy m acc) v) (hl : (2 : ℚ) ^ l ≤ v * 2 ^ e)
    (hl' : v * 2 ^ e < 2 ^ (l + 1)) (he : e ≤ targetOf l)
    (hround : RoundsTo (v * 2 ^ e / 2 ^ targetOf l) (2 ^ 53)) :
    roundWithAccuracy .binary64 s m e acc = .finite s (2 ^ 52) (targetOf l + 1) leadingBit_pos := by
  have hleast : -1074 ≤ targetOf l := le_max_right _ _
  rw [roundWithAccuracy_shifted s h hl hl' he hround, shift_of_eq hleast]
  exact dif_neg (by norm_num [ExtendedMantissa.ofMantissaAndAccuracy])

end HomeAutomaton.Rounding

namespace HomeAutomaton.Binary64

open Float.Model Float.Model.UnpackedFloat Rounding

/-- The magnitude is one of a finite number other than zero. -/
structure Magnitude.Proper (x : Magnitude) : Prop where
  pos : 0 < x.significand
  lt : x.significand < 2 ^ 53
  least : -1074 ≤ x.exponent
  greatest : x.exponent ≤ 971
  leading : 2 ^ 52 ≤ x.significand ∨ x.exponent = -1074
  narrow : x.narrowBelow = true ↔ x.significand = 2 ^ 52 ∧ -1074 < x.exponent

/-- The number is rounded to the magnitude: it is less than half as far away as the neighbours of the
magnitude are, or half as far away if the significand is even. -/
def Magnitude.Catches (x : Magnitude) (v : ℚ) : Prop :=
  (x.significand - (if x.narrowBelow then 1 / 4 else 1 / 2) < v / 2 ^ x.exponent ∨
    (x.significand % 2 = 0 ∧ x.significand - (if x.narrowBelow then 1 / 4 else 1 / 2) = v / 2 ^ x.exponent)) ∧
  (v / 2 ^ x.exponent < x.significand + 1 / 2 ∨
    (x.significand % 2 = 0 ∧ v / 2 ^ x.exponent = x.significand + 1 / 2))

variable {x : Magnitude} {v : ℚ}

/-- The number, in units of the magnitude, lies around the significand. -/
theorem Magnitude.Catches.bounds (h : x.Catches v) :
    x.significand - (if x.narrowBelow then 1 / 4 else 1 / 2) ≤ v / 2 ^ x.exponent ∧
      v / 2 ^ x.exponent ≤ x.significand + 1 / 2 :=
  ⟨h.1.elim le_of_lt fun heq => heq.2.le, h.2.elim le_of_lt fun heq => heq.2.le⟩

/-- Between powers of two a number is found by its powers in units. -/
theorem zpow_le_iff {v : ℚ} {e : ℤ} {k : ℕ} : 2 ^ k ≤ v / 2 ^ e ↔ (2 : ℚ) ^ (e + k) ≤ v := by
  rw [le_div_iff₀ (by positivity), zpow_add₀ two_ne_zero, zpow_natCast, mul_comm]

theorem lt_zpow_iff {v : ℚ} {e : ℤ} {k : ℕ} : v / 2 ^ e < 2 ^ k ↔ v < (2 : ℚ) ^ (e + k) := by
  rw [div_lt_iff₀ (by positivity), zpow_add₀ two_ne_zero, zpow_natCast, mul_comm]

/-- Where the neighbour below is as far away as the one above, the number has the exponent of the magnitude. -/
theorem Magnitude.Catches.target_eq (hx : x.Proper) (hc : x.Catches v)
    (hwide : ¬ (x.narrowBelow = true ∧ v / 2 ^ x.exponent < 2 ^ 52)) {l : ℤ} (hl : (2 : ℚ) ^ l ≤ v)
    (hl' : v < 2 ^ (l + 1)) : targetOf l = x.exponent := by
  obtain ⟨hlow, hhigh⟩ := hc.bounds
  -- from above the number is kept by the neighbour, which has no more bits
  have hlt : v < (2 : ℚ) ^ (x.exponent + (53 : ℕ)) := by
    rw [← lt_zpow_iff]
    have hsig : (x.significand : ℚ) ≤ 2 ^ 53 - 1 := by
      have hle : x.significand + 1 ≤ 2 ^ 53 := hx.lt
      have hcast : (x.significand : ℚ) + 1 ≤ 2 ^ 53 := by exact_mod_cast hle
      linarith
    linarith
  have hupper := (zpow_lt_zpow_iff_right₀ (by norm_num : (1 : ℚ) < 2)).mp (hl.trans_lt hlt)
  have hleast := hx.least
  rw [targetOf]
  rcases hx.least.eq_or_lt with heq | hgt
  · omega
  · -- above the least exponent the number has a leading bit
    have hle : (2 : ℚ) ^ 52 ≤ v / 2 ^ x.exponent := by
      by_contra hnot
      rw [not_le] at hnot
      have hnarrow : x.narrowBelow = false := by
        by_contra htrue
        exact hwide ⟨by simpa using htrue, hnot⟩
      have hsig : 2 ^ 52 ≤ x.significand := hx.leading.resolve_right (by omega)
      have hne : x.significand ≠ 2 ^ 52 := by
        intro heq
        have htrue := hx.narrow.mpr ⟨heq, hgt⟩
        rw [hnarrow] at htrue
        cases htrue
      have hge : 2 ^ 52 + 1 ≤ x.significand := by omega
      have hcast : (2 : ℚ) ^ 52 + 1 ≤ x.significand := by exact_mod_cast hge
      simp only [hnarrow, Bool.false_eq_true, if_false] at hlow
      linarith
    rw [zpow_le_iff] at hle
    have hlower := (zpow_lt_zpow_iff_right₀ (by norm_num : (1 : ℚ) < 2)).mp (hle.trans_lt hl')
    omega

/-- Below a magnitude with a narrow side the numbers lie twice as close. What it catches there is rounded up to
it, in the smaller unit. -/
theorem Magnitude.Catches.roundsTo_below (hx : x.Proper) (hc : x.Catches v) (hnarrow : x.narrowBelow = true)
    (hlt : v / 2 ^ x.exponent < 2 ^ 52) {l : ℤ} (hl : (2 : ℚ) ^ l ≤ v) (hl' : v < 2 ^ (l + 1)) :
    targetOf l = x.exponent - 1 ∧ RoundsTo (v / 2 ^ targetOf l) (2 ^ 53) := by
  obtain ⟨hsig, hexp⟩ := hx.narrow.mp hnarrow
  obtain ⟨hlow, -⟩ := hc.bounds
  -- the number is in the range below that of the magnitude, whose units are half as large
  have hlog : l = x.exponent + 51 := by
    simp only [hnarrow, if_true, hsig] at hlow
    have hle : (2 : ℚ) ^ 51 ≤ v / 2 ^ x.exponent := by
      refine le_trans ?_ hlow
      norm_num
    have hupper : v < (2 : ℚ) ^ (x.exponent + 51 + 1) := by
      rw [add_assoc]
      exact lt_zpow_iff.mp hlt
    exact eq_of_zpow_le hl hl' (zpow_le_iff.mp hle) hupper
  have hexponent : targetOf l = x.exponent - 1 := by
    rw [targetOf]
    omega
  -- in units half as large it is twice as many
  have hdouble : v / (2 : ℚ) ^ (x.exponent - 1) = 2 * (v / 2 ^ x.exponent) := by
    rw [zpow_sub_one₀ two_ne_zero]
    field_simp
  refine ⟨hexponent, ?_⟩
  rw [hexponent, hdouble]
  obtain ⟨hfrom, -⟩ := hc
  simp only [hnarrow, if_true, hsig] at hfrom
  refine ⟨?_, .inl ?_⟩
  · rcases hfrom with hfrom | ⟨-, hfrom⟩
    · left
      push_cast at hfrom ⊢
      linarith
    · right
      refine ⟨by norm_num, ?_⟩
      push_cast at hfrom ⊢
      linarith
  · push_cast
    linarith

/-- Anywhere else what it catches is rounded to it. -/
theorem Magnitude.Catches.roundsTo (hc : x.Catches v)
    (hwide : ¬ (x.narrowBelow = true ∧ v / 2 ^ x.exponent < 2 ^ 52)) (hx : x.Proper) :
    RoundsTo (v / 2 ^ x.exponent) x.significand := by
  refine ⟨?_, hc.2⟩
  cases hnarrow : x.narrowBelow with
  | false => simpa [hnarrow] using hc.1
  | true =>
    left
    have hge : 2 ^ 52 ≤ v / 2 ^ x.exponent := not_lt.mp fun hlt => hwide ⟨hnarrow, hlt⟩
    rw [(hx.narrow.mp hnarrow).1]
    push_cast
    linarith

/-- **Rounding finds the magnitude.** -/
theorem Magnitude.Catches.roundWithAccuracy_eq (hx : x.Proper) (hc : x.Catches v) (hv : 0 < v) {m : ℕ} {e : ℤ}
    {acc : Accuracy} (s : Sign) (h : Describes (.ofMantissaAndAccuracy m acc) (v / 2 ^ e))
    (he : ∀ l : ℤ, (2 : ℚ) ^ l ≤ v → v < 2 ^ (l + 1) → e ≤ targetOf l) :
    roundWithAccuracy .binary64 s m e acc = .finite s x.significand x.exponent hx.pos := by
  obtain ⟨l, hl, hl'⟩ := exists_mem_Ico_zpow hv (by norm_num : (1 : ℚ) < 2)
  have hunit : v / 2 ^ e * 2 ^ e = v := div_mul_cancel₀ _ (by positivity)
  have htarget := he l hl hl'
  -- the narrow side is special: there the units are those of the exponent below
  by_cases hbelow : x.narrowBelow = true ∧ v / 2 ^ x.exponent < 2 ^ 52
  · obtain ⟨hnarrow, hlt⟩ := hbelow
    obtain ⟨hexponent, hround⟩ := hc.roundsTo_below hx hnarrow hlt hl hl'
    rw [← hunit] at hl hl' hround
    rw [roundWithAccuracy_of_eq s h hl hl' htarget hround]
    simp only [hexponent, (hx.narrow.mp hnarrow).1, sub_add_cancel]
  · have hexponent := hc.target_eq hx hbelow hl hl'
    have hround := hc.roundsTo hbelow hx
    rw [← hexponent] at hround
    rw [← hunit] at hl hl' hround
    rw [roundWithAccuracy_of_lt s h hl hl' htarget hround hx.pos hx.lt]
    simp only [hexponent]

end HomeAutomaton.Binary64
