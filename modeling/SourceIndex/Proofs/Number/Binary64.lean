import SourceIndex.Number.Basic
import Mathlib.Data.Nat.Log
import Mathlib.Tactic.Ring
import Mathlib.Tactic.SplitIfs
/-!
# Integers as floating-point numbers

A positive integer becomes a positive number, and an integer is too large for one from half a unit
above the largest number on: the number `2 ^ 1024 - 2 ^ 971` is the largest, and the middle between
it and `2 ^ 1024` is rounded up.
-/

namespace SourceIndex
namespace Binary64

/-! ### Powers of two -/

theorem twoTo_add (m n : Nat) : twoTo (m + n) = twoTo m * twoTo n := Nat.pow_add 2 m n

theorem twoTo_pos (n : Nat) : 0 < twoTo n := Nat.two_pow_pos n

theorem twoTo_le_twoTo {m n : Nat} (le : m ≤ n) : twoTo m ≤ twoTo n :=
  Nat.pow_le_pow_right (by decide) le

theorem twoTo_lt_twoTo {m n : Nat} (lt : m < n) : twoTo m < twoTo n :=
  Nat.pow_lt_pow_right (by decide) lt

/-! ### Rounding -/

/-- Rounding a quotient below an even `top` gives `top` exactly from half a unit below it on. -/
theorem roundDiv_eq_top_iff {num den top : Nat} (even : top % 2 = 0) (below : num < top * den) :
    roundDiv num den = top ↔ (2 * top - 1) * den ≤ 2 * num := by
  have quotient : num / den < top := Nat.div_lt_of_lt_mul (Nat.mul_comm top den ▸ below)
  have whole : den * (num / den) + num % den = num := Nat.div_add_mod num den
  have less : num % den < den :=
    Nat.mod_lt _ (Nat.pos_of_ne_zero fun zero => by simp [zero] at below)
  obtain ⟨gap, rfl⟩ : ∃ gap, top = num / den + 1 + gap := ⟨top - (num / den + 1), by omega⟩
  unfold roundDiv
  simp only
  generalize num / den = q at *
  generalize num % den = r at *
  have product : (2 * (q + 1 + gap) - 1) * den = 2 * (den * q) + den + 2 * (den * gap) := by
    rw [show 2 * (q + 1 + gap) - 1 = 2 * q + 1 + 2 * gap by omega]
    ring
  rw [product]
  rcases Nat.eq_zero_or_pos gap with rfl | more
  · rw [Nat.mul_zero]
    split
    · omega
    · split <;> omega
  · have far : den ≤ den * gap := Nat.le_mul_of_pos_right den more
    split
    · omega
    · split <;> omega

theorem le_roundDiv (num den : Nat) : num / den ≤ roundDiv num den := by
  unfold roundDiv
  simp only
  split
  · exact Nat.le_refl _
  · split <;> omega

theorem roundShifted_one_neg (n e : Nat) : roundShifted n 1 (-(e : Int)) = roundDiv n (twoTo e) := by
  have none : (-(e : Int)).toNat = 0 := by omega
  rw [roundShifted, none, Int.neg_neg, Int.toNat_natCast, Nat.one_mul]
  exact congrArg (roundDiv · _) (Nat.mul_one n)

/-! ### Integers -/

theorem exponentOf_one {n : Nat} (positive : 0 < n) : exponentOf n 1 = (n.log2 : Int) - 52 := by
  have first : 2 ^ n.log2 ≤ n := Nat.log2_self_le (Nat.ne_of_gt positive)
  have inside : ¬ n * twoTo (-((n.log2 : Int) - 52)).toNat <
      twoTo 52 * 1 * twoTo ((n.log2 : Int) - 52).toNat := by
    rw [Nat.not_lt]
    simp only [twoTo, Nat.mul_one]
    rcases Nat.le_total n.log2 52 with small | large
    · rw [show ((n.log2 : Int) - 52).toNat = 0 by omega,
        show (-((n.log2 : Int) - 52)).toNat = 52 - n.log2 by omega]
      calc 2 ^ 52 * 2 ^ 0 = 2 ^ n.log2 * 2 ^ (52 - n.log2) := by
            rw [← Nat.pow_add, ← Nat.pow_add]
            congr 1
            omega
        _ ≤ n * 2 ^ (52 - n.log2) := Nat.mul_le_mul_right _ first
    · rw [show (-((n.log2 : Int) - 52)).toNat = 0 by omega,
        show ((n.log2 : Int) - 52).toNat = n.log2 - 52 by omega]
      calc 2 ^ 52 * 2 ^ (n.log2 - 52) = 2 ^ n.log2 := by rw [← Nat.pow_add]; congr 1; omega
        _ ≤ n * 2 ^ 0 := by rwa [Nat.pow_zero, Nat.mul_one]
  have one : Nat.log2 1 = 0 := by decide
  unfold exponentOf
  simp only [one, Nat.cast_zero, sub_zero, if_neg inside]
  omega

theorem roundShifted_pos {n : Nat} (positive : 0 < n) :
    0 < roundShifted n 1 (-((n.log2 : Int) - 52)) := by
  have first : 2 ^ n.log2 ≤ n := Nat.log2_self_le (Nat.ne_of_gt positive)
  refine Nat.lt_of_lt_of_le (Nat.div_pos ?_ ?_) (le_roundDiv _ _)
  · rw [Int.neg_neg, Nat.one_mul]
    calc twoTo ((n.log2 : Int) - 52).toNat ≤ 2 ^ n.log2 :=
          Nat.pow_le_pow_right (by decide) (by omega)
      _ ≤ n := first
      _ ≤ n * twoTo (-((n.log2 : Int) - 52)).toNat :=
          Nat.le_mul_of_pos_right _ (Nat.pow_pos (by decide))
  · rw [Nat.one_mul]
    exact Nat.pow_pos (by decide)

def roundedExponent (n : Nat) : Int :=
  (n.log2 : Int) - 52 +
    if roundShifted n 1 (-((n.log2 : Int) - 52)) = twoTo 53 then 1 else 0

theorem exists_ofInt?_eq {n : Int} (nonzero : n ≠ 0) :
    ∃ m, 0 < m ∧ ofInt? n =
      if 971 < roundedExponent n.natAbs then none
      else some (.finite (n < 0) m (roundedExponent n.natAbs)) := by
  have positive : 0 < n.natAbs := Int.natAbs_pos.mpr nonzero
  unfold ofInt? ofRatio roundedExponent
  simp only [if_neg (Nat.ne_of_gt positive), exponentOf_one positive]
  by_cases full : roundShifted n.natAbs 1 (-((n.natAbs.log2 : Int) - 52)) = twoTo 53
  · refine ⟨twoTo 52, by decide, ?_⟩
    simp only [if_pos full]
    split_ifs <;> rfl
  · refine ⟨_, roundShifted_pos positive, ?_⟩
    simp only [if_neg full, add_zero]
    split_ifs <;> rfl

/-- Rounding goes beyond the last exponent from half a unit above the largest number on. -/
theorem roundedExponent_gt_iff {n : Nat} (positive : 0 < n) :
    971 < roundedExponent n ↔ twoTo 1024 - twoTo 970 ≤ n := by
  have first : twoTo n.log2 ≤ n := Nat.log2_self_le (Nat.ne_of_gt positive)
  have next : n < twoTo (n.log2 + 1) := Nat.lt_log2_self
  have high : twoTo 1024 = twoTo 54 * twoTo 970 := twoTo_add 54 970
  have middle : twoTo 1023 = twoTo 53 * twoTo 970 := twoTo_add 53 970
  have unit : twoTo 971 = twoTo 1 * twoTo 970 := twoTo_add 1 970
  have some : 0 < twoTo 970 := twoTo_pos 970
  simp only [show twoTo 54 = 18014398509481984 from rfl, show twoTo 53 = 9007199254740992 from rfl,
    show twoTo 1 = 2 from rfl] at high middle unit
  unfold roundedExponent
  rcases Nat.lt_trichotomy n.log2 1023 with small | last | large
  · have below : twoTo (n.log2 + 1) ≤ twoTo 1023 := twoTo_le_twoTo small
    split <;> omega
  · have shift : (n.log2 : Int) - 52 = (971 : Nat) := by omega
    have below : n < twoTo 53 * twoTo 971 := by
      rw [last] at next
      rwa [← twoTo_add]
    have full : roundDiv n (twoTo 971) = twoTo 53 ↔ 18014398509481983 * twoTo 971 ≤ 2 * n := by
      rw [roundDiv_eq_top_iff rfl below, show 2 * twoTo 53 - 1 = 18014398509481983 from rfl]
    rw [shift, roundShifted_one_neg]
    split <;> omega
  · have above : twoTo 1024 ≤ twoTo n.log2 := twoTo_le_twoTo large
    split <;> omega

theorem ofInt?_eq_none_iff (n : Int) : ofInt? n = none ↔ twoTo 1024 - twoTo 970 ≤ n.natAbs := by
  by_cases nonzero : n = 0
  · subst nonzero
    refine ⟨fun none => ?_, fun large => ?_⟩
    · cases none
    · exact absurd large (Nat.not_le.mpr (Nat.sub_pos_of_lt (twoTo_lt_twoTo (by decide))))
  · obtain ⟨m, -, equal⟩ := exists_ofInt?_eq nonzero
    rw [equal, ← roundedExponent_gt_iff (Int.natAbs_pos.mpr nonzero)]
    split <;> simp_all

theorem exists_of_ofInt?_pos {n : Int} {x : Binary64} (positive : 0 < n)
    (found : ofInt? n = some x) : ∃ m e, 0 < m ∧ x = .finite false m e := by
  obtain ⟨m, some, equal⟩ := exists_ofInt?_eq (Int.ne_of_gt positive)
  rw [equal] at found
  split at found
  · cases found
  · refine ⟨m, roundedExponent n.natAbs, some, ?_⟩
    rw [← Option.some.inj found, decide_eq_false (Int.not_lt.mpr (Int.le_of_lt positive))]

end Binary64

/-! ### Comparing -/

namespace Number

theorem lt_eq_true_iff (a b : Number) : a.lt b = true ↔ a.compare? b = some .lt := by
  rw [lt, decide_eq_true_iff]

theorem le_eq_true_iff (a b : Number) :
    a.le b = true ↔ a.compare? b = some .lt ∨ a.compare? b = some .eq := by
  rw [le, Bool.or_eq_true, decide_eq_true_iff, decide_eq_true_iff]

theorem whole_lt_whole (a b : Int) : (whole a).lt (.whole b) = true ↔ a < b := by
  rw [lt_eq_true_iff, compare?, Option.some_inj, compare_lt_iff_lt]

theorem whole_le_whole (a b : Int) : (whole a).le (.whole b) = true ↔ a ≤ b := by
  rw [le_eq_true_iff, compare?, Option.some_inj, Option.some_inj, compare_lt_iff_lt,
    compare_eq_iff_eq, le_iff_lt_or_eq]

theorem exact_eq_none_iff (a : Int) (x : Binary64) : compare?.exact a x = none ↔ x = .nan := by
  cases x <;> simp [compare?.exact]

/-- A floating-point number is above an integer unless it is at most that integer or no number. -/
theorem whole_lt_real_iff (a : Int) (x : Binary64) :
    (whole a).lt (.real x) = true ↔ (real x).le (.whole a) = false ∧ x ≠ .nan := by
  rw [ne_eq, ← exact_eq_none_iff a, ← Bool.not_eq_true, lt_eq_true_iff, le_eq_true_iff]
  simp only [compare?]
  rcases compare?.exact a x with _ | _ | _ | _ <;> decide

theorem whole_le_real_iff (a : Int) (x : Binary64) :
    (whole a).le (.real x) = true ↔ (real x).lt (.whole a) = false ∧ x ≠ .nan := by
  rw [ne_eq, ← exact_eq_none_iff a, ← Bool.not_eq_true, lt_eq_true_iff, le_eq_true_iff]
  simp only [compare?]
  rcases compare?.exact a x with _ | _ | _ | _ <;> decide

theorem zero_lt_finite {m : Nat} (positive : 0 < m) (e : Int) :
    (whole 0).lt (.real (.finite false m e)) = true := by
  have above : 0 < (m : Int) * Binary64.twoTo (e - min 0 e).toNat :=
    Int.mul_pos (Int.natCast_pos.mpr positive) (Int.natCast_pos.mpr (Binary64.twoTo_pos _))
  have compared : Binary64.compareScaled 0 0 m e = .lt := by
    rw [Binary64.compareScaled, Int.zero_mul]
    exact compare_lt_iff_lt.mpr above
  rw [lt_eq_true_iff, compare?, compare?.exact]
  exact congrArg some compared

end Number
end SourceIndex
