import HomeAutomaton.Machine.Basic
import Mathlib.Data.List.Pairwise
import Mathlib.Tactic.Ring

/-!
# Sameness of keys

Keys of a mapping are told apart by `Data.same`, under which a truth value, an integer and a floating-point
number can be the same key. It is still an equivalence: every key stands for something
(`Data.standsFor`), and keys are the same exactly if they stand for the same. Among values that are no
keys it is none, since sets are compared one way only.

* `Binary64.same_of_toInt?` says that floating-point numbers which stand for one integer are the same.
* `Data.same_iff_standsFor` is the result; `Data.same_comm` and `Data.same_trans` follow from it.
* `DistinctPaths.perm` and `DistinctPaths.eq_of_same` are about nodes, which are looked up by their paths.
-/

namespace HomeAutomaton

namespace Binary64

variable {x y : Binary64} {n : Int}

/-- The exponent field as a number: eleven bits behind the sign. -/
theorem exponentField_eq (x : Binary64) : x.exponentField = x.bits.toNat / 2 ^ 52 % 2 ^ 11 := by
  have hmask : (0x7FF : Nat) = 2 ^ 11 - 1 := rfl
  simp only [exponentField, UInt64.toNat_and, UInt64.toNat_shiftRight, UInt64.toNat_ofNat, hmask]
  rw [Nat.shiftRight_eq_div_pow]
  exact Nat.and_two_pow_sub_one_eq_mod _ 11

/-- The fraction field as a number: the last fifty-two bits. -/
theorem fractionField_eq (x : Binary64) : x.fractionField = x.bits.toNat % 2 ^ 52 := by
  simp only [fractionField, UInt64.toNat_and, UInt64.toNat_ofNat]
  exact Nat.and_two_pow_sub_one_eq_mod _ 52

/-- The sign is the first bit. -/
theorem isNegative_iff (x : Binary64) : x.isNegative = true ↔ x.bits.toNat / 2 ^ 63 = 1 := by
  rw [isNegative, beq_iff_eq, ← UInt64.toNat_inj]
  simp only [UInt64.toNat_shiftRight, UInt64.toNat_ofNat]
  rw [Nat.shiftRight_eq_div_pow]

/-- A number is put together from its sign, its exponent field and its fraction field. -/
theorem ext_fields (hsign : x.isNegative = y.isNegative) (hexponent : x.exponentField = y.exponentField)
    (hfraction : x.fractionField = y.fractionField) : x = y := by
  have hx := x.bits.toNat_lt
  have hy := y.bits.toNat_lt
  have hsign' : x.bits.toNat / 2 ^ 63 = 1 ↔ y.bits.toNat / 2 ^ 63 = 1 := by
    rw [← isNegative_iff, ← isNegative_iff, hsign]
  rw [exponentField_eq, exponentField_eq] at hexponent
  rw [fractionField_eq, fractionField_eq] at hfraction
  have hbits : x.bits.toNat = y.bits.toNat := by omega
  obtain ⟨_⟩ := x
  obtain ⟨_⟩ := y
  exact congrArg _ (UInt64.toNat_inj.mp hbits)

/-- The fraction is below a leading bit. -/
theorem fractionField_lt (x : Binary64) : x.fractionField < 2 ^ 52 := by
  rw [fractionField_eq]
  exact Nat.mod_lt _ (by decide)

/-- Both zeros have empty fields. -/
theorem isZero_iff (x : Binary64) :
    x.isZero = true ↔ x.exponentField = 0 ∧ x.fractionField = 0 := by
  rw [isZero, Bool.and_eq_true, beq_iff_eq, beq_iff_eq]

/-- An integer as large as a natural number, with the sign of a floating-point number. -/
def signed (x : Binary64) (n : Nat) : Int := if x.isNegative then -(n : Int) else n

/-- The sign does not change how large the integer is. -/
theorem natAbs_signed (x : Binary64) (n : Nat) : (x.signed n).natAbs = n := by
  rw [signed]
  split <;> simp

/-- Zero stands for zero, whatever its sign. -/
theorem toInt?_of_isZero (h : x.isZero = true) : x.toInt? = some 0 := by
  obtain ⟨hexponent, hfraction⟩ := x.isZero_iff.mp h
  have hmagnitude : x.magnitude = ⟨0, -1074, false⟩ := by rw [magnitude, if_pos hexponent, hfraction]
  have hunit : ¬ (0 : Int) ≤ -1074 := by decide
  rw [toInt?, if_neg (by rw [hexponent]; decide), hmagnitude]
  simp only [if_neg hunit, Nat.zero_mod, if_true, Nat.zero_div, Int.natCast_zero, neg_zero, ite_self]

/-- The integer that a number stands for has the magnitude of the number. -/
theorem toInt?_magnitude (h : x.toInt? = some n) : x.exponentField ≠ 2047 ∧ ∃ m, n = x.signed m ∧
    (0 ≤ x.magnitude.exponent → m = x.magnitude.significand * 2 ^ x.magnitude.exponent.toNat) ∧
    (x.magnitude.exponent < 0 → m * 2 ^ (-x.magnitude.exponent).toNat = x.magnitude.significand) := by
  rw [toInt?] at h
  -- an infinity stands for nothing; else the exponent says whether bits have to be cut off
  split at h
  next => cases h
  next hfinite =>
    refine ⟨hfinite, ?_⟩
    dsimp only at h
    split at h
    next hwhole =>
      exact ⟨_, (Option.some.inj h).symm, fun _ => rfl, fun hnot => absurd hwhole (not_le.mpr hnot)⟩
    next hpart =>
      split at h
      next hdvd =>
        exact ⟨_, (Option.some.inj h).symm, fun hwhole => absurd hwhole hpart,
          fun _ => Nat.div_mul_cancel (Nat.dvd_of_mod_eq_zero hdvd)⟩
      next => cases h

/-- A number that stands for an integer is zero, or its fields give the magnitude of the integer. -/
theorem toInt?_cases (h : x.toInt? = some n) :
    (x.isZero = true ∧ n = 0) ∨ ∃ m, 0 < m ∧ n = x.signed m ∧
      m * 2 ^ 1075 = (2 ^ 52 + x.fractionField) * 2 ^ x.exponentField := by
  obtain ⟨-, m, rfl, hwhole, hpart⟩ := toInt?_magnitude h
  by_cases hexponent : x.exponentField = 0
  · -- so close to zero there is no other integer
    have hmagnitude : x.magnitude = ⟨x.fractionField, -1074, false⟩ := by
      rw [magnitude, if_pos hexponent]
    rw [hmagnitude] at hpart
    have hpart : m * 2 ^ (-(-1074) : Int).toNat = x.fractionField :=
      hpart (show (-1074 : Int) < 0 by decide)
    have hlarge : 2 ^ 52 ≤ 2 ^ (-(-1074) : Int).toNat := Nat.pow_le_pow_right (by decide) (by decide)
    have hzero : m = 0 := by
      by_contra hm
      have hle := Nat.le_mul_of_pos_left (2 ^ (-(-1074) : Int).toNat) (Nat.pos_of_ne_zero hm)
      exact absurd (hpart ▸ x.fractionField_lt) (not_lt.mpr (hlarge.trans hle))
    subst hzero
    rw [Nat.zero_mul] at hpart
    exact .inl ⟨x.isZero_iff.mpr ⟨hexponent, hpart.symm⟩, by simp [signed]⟩
  -- with a leading bit the magnitude is moved to one exponent for all numbers
  · have hsignificand : x.magnitude.significand = 2 ^ 52 + x.fractionField := by
      rw [magnitude, if_neg hexponent]
      rfl
    have hshift : x.magnitude.exponent = (x.exponentField : Int) - 1075 := by
      rw [magnitude, if_neg hexponent]
    rw [hsignificand, hshift] at hwhole hpart
    have hm : m * 2 ^ 1075 = (2 ^ 52 + x.fractionField) * 2 ^ x.exponentField := by
      -- the bits are moved up, or cut off and found to be zeros
      rcases le_or_gt 1075 x.exponentField with hle | hlt
      · have htotal : ((x.exponentField : Int) - 1075).toNat + 1075 = x.exponentField := by omega
        rw [hwhole (by omega), Nat.mul_assoc, ← Nat.pow_add, htotal]
      · have htotal : (-((x.exponentField : Int) - 1075)).toNat + x.exponentField = 1075 := by omega
        rw [← hpart (by omega), Nat.mul_assoc, ← Nat.pow_add, htotal]
    have hpositive : 0 < (2 ^ 52 + x.fractionField) * 2 ^ x.exponentField :=
      Nat.mul_pos (by omega) (Nat.two_pow_pos _)
    refine .inr ⟨m, Nat.pos_of_ne_zero fun hzero => ?_, rfl, hm⟩
    rw [← hm, hzero, Nat.zero_mul] at hpositive
    exact absurd hpositive (lt_irrefl 0)

/-- Magnitudes with a leading bit are written in one way only. -/
theorem eq_of_mul_two_pow_eq {f f' e e' : Nat} (hf : f < 2 ^ 52) (hf' : f' < 2 ^ 52)
    (h : (2 ^ 52 + f) * 2 ^ e = (2 ^ 52 + f') * 2 ^ e') : e = e' ∧ f = f' := by
  wlog hle : e ≤ e' generalizing f f' e e'
  · obtain ⟨rfl, rfl⟩ := this hf' hf h.symm (by omega)
    exact ⟨rfl, rfl⟩
  obtain ⟨k, rfl⟩ := Nat.exists_eq_add_of_le hle
  have hcancel : 2 ^ 52 + f = (2 ^ 52 + f') * 2 ^ k := by
    have hpos : 0 < 2 ^ e := Nat.two_pow_pos e
    refine Nat.eq_of_mul_eq_mul_right hpos ?_
    rw [h, Nat.pow_add]
    ring
  cases k with
  | zero => omega
  | succ k =>
    -- a larger exponent would make the other magnitude twice as large
    have hpos := Nat.two_pow_pos k
    have hdouble : (2 ^ 52 + f') * 2 ^ (k + 1) = 2 * ((2 ^ 52 + f') * 2 ^ k) := by ring
    have hge : 2 ^ 52 + f' ≤ (2 ^ 52 + f') * 2 ^ k := Nat.le_mul_of_pos_right _ hpos
    omega

/-- Integers other than zero tell their signs. -/
theorem isNegative_of_signed_eq {m : Nat} (hm : 0 < m) (h : x.signed m = y.signed m) :
    x.isNegative = y.isNegative := by
  unfold signed at h
  cases hx : x.isNegative <;> cases hy : y.isNegative <;> simp only [hx, hy] at h <;>
    first | rfl | (simp only [if_true, Bool.false_eq_true, if_false] at h; omega)

/-- **Numbers that stand for one integer are the same.** -/
theorem same_of_toInt? (hx : x.toInt? = some n) (hy : y.toInt? = some n) : x.same y = true := by
  -- zeros are the same by definition; otherwise the fields and the sign are found equal
  rcases toInt?_cases hx with ⟨hzero, rfl⟩ | ⟨m, hpos, rfl, hm⟩
  · rcases toInt?_cases hy with ⟨hzero', -⟩ | ⟨m', hpos', hsigned, -⟩
    · rw [same, hzero, hzero', Bool.and_self, Bool.or_true]
    · have hnatAbs := y.natAbs_signed m'
      rw [← hsigned, Int.natAbs_zero] at hnatAbs
      omega
  · have hnatAbs := x.natAbs_signed m
    rcases toInt?_cases hy with ⟨-, hsigned⟩ | ⟨m', -, hsigned, hm'⟩
    · rw [hsigned, Int.natAbs_zero] at hnatAbs
      omega
    · obtain rfl : m' = m := by rw [← hnatAbs, hsigned, natAbs_signed]
      obtain ⟨hexponent, hfraction⟩ :=
        eq_of_mul_two_pow_eq x.fractionField_lt y.fractionField_lt (hm.symm.trans hm')
      rw [ext_fields (isNegative_of_signed_eq hpos hsigned) hexponent hfraction, same, BEq.rfl,
        Bool.true_or]

/-- Numbers that are the same stand for one integer or for none. -/
theorem toInt?_of_same (h : x.same y = true) : x.toInt? = y.toInt? := by
  rw [same, Bool.or_eq_true, beq_iff_eq, Bool.and_eq_true] at h
  rcases h with rfl | ⟨hx, hy⟩
  · rfl
  · rw [toInt?_of_isZero hx, toInt?_of_isZero hy]

end Binary64

/-- What a key stands for. -/
inductive Meaning where
  | null
  | integer (n : Int)
  | float (x : Binary64)
  | text (s : String)
  | bytes (bs : List UInt8)
  | date (d : Date)
  | clock (microseconds : Int)
  | instant (microseconds : Int)
  | kind (k : NodeKind)
  | object (label : Nat)
  | tuple (items : List Meaning)
  /-- A value that is no key. -/
  | container

/-- A floating-point number stands for an integer if it can, and otherwise for itself. -/
def Binary64.meaning (x : Binary64) : Meaning :=
  match x.toInt? with
  | some n => .integer n
  | none => .float x

/-- A time stands for a point in time if its offset is known, and otherwise for what the clock shows. -/
def DateTime.meaning (t : DateTime) : Meaning :=
  match t.offset with
  | some offset => .instant (t.shown - offset)
  | none => .clock t.shown

/-- Which of the two a number stands for. -/
theorem Binary64.meaning_cases (x : Binary64) :
    (∃ n, x.toInt? = some n ∧ x.meaning = .integer n) ∨ (x.toInt? = none ∧ x.meaning = .float x) := by
  rw [meaning]
  cases x.toInt? <;> simp

theorem DateTime.meaning_cases (t : DateTime) :
    (∃ n, t.meaning = .clock n) ∨ ∃ n, t.meaning = .instant n := by
  rw [meaning]
  cases t.offset <;> simp

/-- Times are compared by what they stand for. -/
theorem DateTime.same_iff_meaning (s t : DateTime) : s.same t = true ↔ s.meaning = t.meaning := by
  rw [same, meaning, meaning]
  cases s.offset <;> cases t.offset <;> simp

theorem Binary64.same_iff_meaning (x y : Binary64) : x.same y = true ↔ x.meaning = y.meaning := by
  constructor
  · intro h
    have htoInt := toInt?_of_same h
    rcases x.meaning_cases with ⟨n, hn, hx⟩ | ⟨hn, hx⟩
    · rw [hx, meaning, ← htoInt, hn]
    · -- zeros stand for an integer, so the two are one
      rw [same, Bool.or_eq_true, beq_iff_eq, Bool.and_eq_true] at h
      rcases h with rfl | ⟨hzero, -⟩
      · rfl
      · rw [toInt?_of_isZero hzero] at hn
        cases hn
  · intro h
    rcases x.meaning_cases with ⟨n, hn, hx⟩ | ⟨-, hx⟩ <;>
      -- two integers are compared, two numbers are, and an integer is never a number for itself
      rcases y.meaning_cases with ⟨m, hm, hy⟩ | ⟨-, hy⟩ <;> rw [hx, hy] at h
    · obtain rfl := Meaning.integer.inj h
      exact same_of_toInt? hn hm
    · cases h
    · cases h
    · obtain rfl := Meaning.float.inj h
      rw [same, BEq.rfl, Bool.true_or]

namespace Data

mutual

/-- What a value stands for as a key. -/
def standsFor : Data → Meaning
  | null => .null
  | bool b => .integer (if b then 1 else 0)
  | int n => .integer n
  | float x => x.meaning
  | str s => .text s
  | bytes bs => .bytes bs
  | date d => .date d
  | dateTime t => t.meaning
  | kind k => .kind k
  | tuple items => .tuple (allStandFor items)
  | object label _ => .object label
  | list _ | set _ | map _ | up _ => .container

/-- What the values stand for, one by one. -/
def allStandFor : List Data → List Meaning
  | [] => []
  | d :: ds => standsFor d :: allStandFor ds

end

/-- A floating-point number is the same as another one, or as the integer that it stands for. -/
theorem sameScalar_float_iff (x : Binary64) (e : Data) :
    (sameScalar (float x) e = true ↔ x.meaning = e.standsFor) ∧
      (sameScalar e (float x) = true ↔ e.standsFor = x.meaning) := by
  cases e with
  | float y =>
    rw [sameScalar, sameScalar, standsFor]
    exact ⟨x.same_iff_meaning y, y.same_iff_meaning x⟩
  | dateTime t =>
    rcases x.meaning_cases with ⟨n, -, hx⟩ | ⟨-, hx⟩ <;>
      rcases t.meaning_cases with ⟨m, ht⟩ | ⟨m, ht⟩ <;>
      simp [sameScalar, toInt?, standsFor, hx, ht]
  | _ => rcases x.meaning_cases with ⟨n, hn, hx⟩ | ⟨hn, hx⟩ <;> simp [sameScalar, toInt?, standsFor, hn, hx]

/-- A time is the same as another one alone. -/
theorem sameScalar_dateTime_iff (t : DateTime) (e : Data) :
    (sameScalar (dateTime t) e = true ↔ t.meaning = e.standsFor) ∧
      (sameScalar e (dateTime t) = true ↔ e.standsFor = t.meaning) := by
  cases e with
  | float x => exact (sameScalar_float_iff x (dateTime t)).symm
  | dateTime s =>
    rw [sameScalar, sameScalar, standsFor]
    exact ⟨t.same_iff_meaning s, s.same_iff_meaning t⟩
  | _ => rcases t.meaning_cases with ⟨n, ht⟩ | ⟨n, ht⟩ <;> simp [sameScalar, toInt?, standsFor, ht]

/-- A key that is no tuple is the same as what stands for the same. -/
theorem sameScalar_iff {d : Data} (e : Data) (hd : d.isKey = true) (hnot : ∀ ds, d ≠ tuple ds) :
    sameScalar d e = true ↔ d.standsFor = e.standsFor := by
  cases d with
  | float x => exact (sameScalar_float_iff x e).1
  | dateTime t => exact (sameScalar_dateTime_iff t e).1
  | tuple ds => exact absurd rfl (hnot ds)
  | list | set | map | up => simp [isKey] at hd
  | _ =>
    cases e with
    | float x => exact (sameScalar_float_iff x _).2
    | dateTime t => exact (sameScalar_dateTime_iff t _).2
    | _ => simp [sameScalar, toInt?, standsFor]

/-- Nothing but a tuple stands for what a tuple stands for. -/
theorem tuple_standsFor_ne (ds : List Data) (e : Data) (hnot : ∀ es, e ≠ tuple es) :
    (tuple ds).standsFor ≠ e.standsFor := by
  cases e with
  | tuple es => exact absurd rfl (hnot es)
  | float x => rcases x.meaning_cases with ⟨n, -, hx⟩ | ⟨-, hx⟩ <;> simp [standsFor, hx]
  | dateTime t => rcases t.meaning_cases with ⟨n, ht⟩ | ⟨n, ht⟩ <;> simp [standsFor, ht]
  | _ => simp [standsFor]

mutual

/-- **A key is the same as what stands for the same.** -/
theorem same_iff_standsFor (d e : Data) (hd : d.isKey = true) :
    d.same e = true ↔ d.standsFor = e.standsFor := by
  match d, hd with
  -- tuples are compared member by member, and with nothing else
  | .tuple ds, hd =>
    rw [isKey] at hd
    cases e with
    | tuple es => rw [same, standsFor, standsFor, Meaning.tuple.injEq, sameItems_iff_standFor ds es hd]
    | _ =>
      refine iff_of_false ?_ (tuple_standsFor_ne ds _ fun es h => by cases h)
      simp [same, sameScalar, toInt?]
  | .null, hd | .bool _, hd | .int _, hd | .float _, hd | .str _, hd | .bytes _, hd | .date _, hd
  | .dateTime _, hd | .kind _, hd | .object .., hd =>
    rw [same]
    · exact sameScalar_iff e hd fun ds h => by cases h
    all_goals exact fun _ _ h => by cases h

/-- Members are compared one by one. -/
theorem sameItems_iff_standFor (ds es : List Data) (hds : allKeys ds = true) :
    sameItems ds es = true ↔ allStandFor ds = allStandFor es := by
  match ds, es, hds with
  | [], [], _ => simp [sameItems, allStandFor]
  | [], _ :: _, _ => simp [sameItems, allStandFor]
  | _ :: _, [], _ => simp [sameItems, allStandFor]
  | d :: ds, e :: es, hds =>
    rw [allKeys, Bool.and_eq_true] at hds
    rw [sameItems, Bool.and_eq_true, same_iff_standsFor d e hds.1, sameItems_iff_standFor ds es hds.2,
      allStandFor, allStandFor, List.cons.injEq]

end

variable {d e f : Data}

/-- Keys are the same either way. -/
theorem same_comm (hd : d.isKey = true) (he : e.isKey = true) : d.same e = e.same d := by
  rw [Bool.eq_iff_iff, same_iff_standsFor d e hd, same_iff_standsFor e d he, eq_comm]

/-- And keys that are the same as a third one are the same. -/
theorem same_trans (hd : d.isKey = true) (he : e.isKey = true) (h : d.same e = true)
    (h' : e.same f = true) : d.same f = true := by
  rw [same_iff_standsFor d e hd] at h
  rw [same_iff_standsFor e f he] at h'
  exact (same_iff_standsFor d f hd).mpr (h.trans h')

end Data

/-! ### Nodes with keys as paths -/

namespace DistinctPaths

variable {nodes nodes' : List Node}

/-- Paths that are keys are told apart in both directions. -/
theorem both (h : DistinctPaths nodes) (hkeys : ∀ n ∈ nodes, n.path.isKey = true) :
    nodes.Pairwise fun n n' => n.path.same n'.path = false ∧ n'.path.same n.path = false := by
  refine h.imp_of_mem fun {n n'} hn hn' hnot => ⟨hnot, ?_⟩
  rw [Data.same_comm (hkeys n' hn') (hkeys n hn), hnot]

/-- The paths of nodes are told apart in any order. -/
theorem perm (h : DistinctPaths nodes) (hkeys : ∀ n ∈ nodes, n.path.isKey = true)
    (hperm : nodes.Perm nodes') : DistinctPaths nodes' :=
  ((hperm.pairwise_iff fun h => h.symm).mp (h.both hkeys)).imp fun h => h.1

/-- No two nodes have the path that is looked for. -/
theorem eq_of_same (h : DistinctPaths nodes) (hkeys : ∀ n ∈ nodes, n.path.isKey = true) {path : Data}
    (hpath : path.isKey = true) {n n' : Node} (hn : n ∈ nodes) (hn' : n' ∈ nodes)
    (hsame : n.path.same path = true) (hsame' : n'.path.same path = true) : n = n' := by
  have hsymm : Std.Symm fun n n' : Node => n.path.same n'.path = false ∧ n'.path.same n.path = false :=
    ⟨fun _ _ h => h.symm⟩
  by_contra hne
  have hnot := ((h.both hkeys).forall hn hn' hne).1
  rw [Data.same_comm (hkeys n' hn') hpath] at hsame'
  rw [Data.same_trans (hkeys n hn) hpath hsame hsame'] at hnot
  cases hnot

end DistinctPaths

end HomeAutomaton
