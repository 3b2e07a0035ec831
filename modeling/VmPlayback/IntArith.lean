import Mathlib.Tactic

namespace VmPlayback.IntArith

def Fits (x : ℤ) : Prop := -2 ^ 31 ≤ x ∧ x < 2 ^ 31

instance : DecidablePred Fits := fun _ => inferInstanceAs (Decidable (_ ∧ _))

theorem fits_toInt (a : Int32) : Fits a.toInt := ⟨a.le_toInt, a.toInt_lt⟩

/-- The unsigned reading of the same word. -/
theorem toUInt32_toNat (x : Int32) : (x.toUInt32.toNat : ℤ) = x.toInt % 2 ^ 32 := by
  have hcond : x.toInt = _ := BitVec.toInt_eq_toNat_cond x.toBitVec
  have hlt : x.toUInt32.toNat < 2 ^ 32 := x.toUInt32.toNat_lt
  have hnat : x.toBitVec.toNat = x.toUInt32.toNat := rfl
  rw [hnat] at hcond
  split at hcond <;> omega

theorem bmod_of_fits {x : ℤ} (h : Fits x) : x.bmod (2 ^ 32) = x := by
  obtain ⟨hlow, hhigh⟩ := h
  exact Int.bmod_eq_of_le (by omega) (by omega)

theorem toInt_add {a b : Int32} (h : Fits (a.toInt + b.toInt)) :
    (a + b).toInt = a.toInt + b.toInt := by
  rw [Int32.toInt_add, bmod_of_fits h]

theorem toInt_sub {a b : Int32} (h : Fits (a.toInt - b.toInt)) :
    (a - b).toInt = a.toInt - b.toInt := by
  rw [Int32.toInt_sub, bmod_of_fits h]

theorem toInt_mul {a b : Int32} (h : Fits (a.toInt * b.toInt)) :
    (a * b).toInt = a.toInt * b.toInt := by
  rw [Int32.toInt_mul, bmod_of_fits h]

/-- The one quotient that does not fit has the divisor -1. -/
theorem toInt_div (a : Int32) {b : Int32} (hb : 0 < b.toInt) :
    (a / b).toInt = a.toInt.tdiv b.toInt := by
  apply Int32.toInt_div_of_ne_right
  rintro rfl
  exact absurd hb (by decide)

/-- A product of a bounded number and a small positive one. -/
theorem fits_mul {x y m n : ℤ} (hx : -m ≤ x ∧ x ≤ m) (hy : 0 ≤ y ∧ y ≤ n) (hmn : m * n < 2 ^ 31) :
    Fits (x * y) := by
  have hm : 0 ≤ m := by omega
  have hn : 0 ≤ n := hy.1.trans hy.2
  have hxy : |x * y| ≤ m * n := by
    rw [abs_mul]
    exact mul_le_mul (abs_le.mpr hx) (by rw [abs_of_nonneg hy.1]; exact hy.2) (abs_nonneg y) hm
  obtain ⟨hlow, hhigh⟩ := abs_le.mp hxy
  constructor
  · omega
  · omega

/-- Quotients are no larger than what is divided. -/
theorem fits_tdiv {x r : ℤ} (h : Fits x) (hr : 0 < r) : Fits (x.tdiv r) := by
  obtain ⟨hlow, hhigh⟩ := h
  have habs := Int.natAbs_tdiv_le_natAbs x r
  rcases le_or_gt 0 x with hx | hx
  · constructor
    · omega
    · omega
  · have hneg := Int.tdiv_nonneg (neg_nonneg.mpr hx.le) hr.le
    rw [Int.neg_tdiv] at hneg
    constructor
    · omega
    · omega

end VmPlayback.IntArith
