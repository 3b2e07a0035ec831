import Mathlib.Tactic

namespace VmPlayback.Letterbox

/-- The width of the picture; its height is `fit b a H W`. -/
def fit (a b W H : ℤ) : ℤ := min W (a * H / b)

variable {a b W H : ℤ}

theorem fit_le (a b W H : ℤ) : fit a b W H ≤ W := min_le_left _ _

theorem fit_nonneg (ha : 0 < a) (hb : 0 < b) (hW : 0 ≤ W) (hH : 0 ≤ H) : 0 ≤ fit a b W H :=
  le_min hW (Int.ediv_nonneg (Int.mul_nonneg ha.le hH) hb.le)

/-- The window is too wide for the picture. -/
theorem fit_of_wide (hb : 0 < b) (h : a * H ≤ W * b) : fit a b W H = a * H / b := by
  apply min_eq_right
  exact Int.ediv_le_of_le_mul hb h

/-- The window is too high for the picture. -/
theorem fit_of_high (hb : 0 < b) (h : W * b ≤ a * H) : fit a b W H = W := by
  apply min_eq_left
  exact (Int.le_ediv_iff_mul_le hb).mpr h

/-- The picture touches the window in one direction. -/
theorem fit_full (ha : 0 < a) (hb : 0 < b) : fit a b W H = W ∨ fit b a H W = H := by
  rcases le_total (W * b) (a * H) with h | h
  · exact Or.inl (fit_of_high hb h)
  · refine Or.inr (fit_of_high ha ?_)
    rw [mul_comm H a, mul_comm b W]
    exact h

/-- Where the height is full, the width is that of the proportions, rounded down. -/
theorem fit_aspect (ha : 0 < a) (hb : 0 < b) (h : fit b a H W = H) :
    0 ≤ a * H - fit a b W H * b ∧ a * H - fit a b W H * b < b := by
  have hfull : H * a ≤ b * W := (Int.le_ediv_iff_mul_le ha).mp (min_eq_left_iff.mp h)
  have hwide : a * H ≤ W * b := by
    rw [mul_comm a H, mul_comm W b]
    exact hfull
  rw [fit_of_wide hb hwide]
  have hmod := Int.mul_ediv_add_emod (a * H) b
  have hnonneg := Int.emod_nonneg (a * H) hb.ne'
  have hlt := Int.emod_lt_of_pos (a * H) hb
  rw [mul_comm] at hmod
  constructor
  · omega
  · omega

variable {x y r s : ℤ}

/-- A quotient is less than one off on either side. -/
theorem tdiv_mul_near (x : ℤ) (hr : 0 < r) : x - r < x.tdiv r * r ∧ x.tdiv r * r < x + r := by
  have hmod := Int.mul_tdiv_add_tmod x r
  have hlt := Int.tmod_lt_of_pos x hr
  have hgt := Int.lt_tmod_of_pos x hr
  rw [mul_comm] at hmod
  constructor
  · omega
  · omega

theorem tdiv_mul_le (hx : 0 ≤ x) (hr : 0 < r) : x.tdiv r * r ≤ x := by
  rw [Int.tdiv_eq_ediv_of_nonneg hx]
  exact Int.ediv_mul_le x hr.ne'

theorem tdiv_lt_iff (hr : 0 < r) (hy : 0 < y) : x.tdiv r < y ↔ x < y * r := by
  rcases le_or_gt 0 x with hx | hx
  · rw [Int.tdiv_eq_ediv_of_nonneg hx, Int.ediv_lt_iff_lt_mul hr]
  · refine iff_of_true ?_ ?_
    · have hneg := Int.tdiv_nonneg (neg_nonneg.mpr hx.le) hr.le
      rw [Int.neg_tdiv] at hneg
      omega
    · have := Int.mul_pos hy hr
      omega

/-- Below zero the quotient rounds up, so the bound moves by one. -/
theorem le_tdiv_iff (hr : 0 < r) (hy : y ≤ 0) : y ≤ x.tdiv r ↔ (y - 1) * r < x := by
  have h := tdiv_lt_iff (x := -x) (y := 1 - y) hr (by omega)
  rw [Int.neg_tdiv] at h
  have hmul : (1 - y) * r = -((y - 1) * r) := by ring
  rw [hmul] at h
  constructor
  · intro hle
    have := h.mp (by omega)
    omega
  · intro hlt
    have := h.mpr (by omega)
    omega

theorem le_tdiv_iff_of_nonneg (hx : 0 ≤ x) (hr : 0 < r) : y ≤ x.tdiv r ↔ y * r ≤ x := by
  rw [Int.tdiv_eq_ediv_of_nonneg hx, Int.le_ediv_iff_mul_le hr]

theorem tdiv_pos_iff (hx : 0 ≤ x) (hr : 0 < r) : 0 < x.tdiv r ↔ r ≤ x := by
  rw [← Int.add_one_le_iff, zero_add, le_tdiv_iff_of_nonneg hx hr, one_mul]

/-- A span put in the middle of its window, the odd pixel going to the far side. -/
theorem centred_inside {l n w W : ℤ} (h : w ≤ W) (hn : n = l + (W - w).tdiv 2) :
    l ≤ n ∧ n + w ≤ l + W ∧ |(n - l) - (l + W - (n + w))| ≤ 1 := by
  rw [Int.tdiv_eq_ediv_of_nonneg (by omega)] at hn
  rw [abs_le]
  omega

/-- A span inside a window stays inside its image up to less than one unit. -/
theorem span_near {l n w W : ℤ} (hr : 0 < r) (hs : 0 ≤ s) (hl : l ≤ n) (hw : 0 ≤ w)
    (hW : n + w ≤ l + W) :
    (l * s : ℚ) / r - 1 < (n * s).tdiv r ∧
      ((n * s).tdiv r + (w * s).tdiv r : ℚ) < ((l + W) * s : ℚ) / r + 1 := by
  obtain ⟨hlow, hhigh⟩ := tdiv_mul_near (n * s) hr
  have hwidth := tdiv_mul_le (Int.mul_nonneg hw hs) hr
  have hleft : l * s ≤ n * s := Int.mul_le_mul_of_nonneg_right hl hs
  have hright : (n + w) * s ≤ (l + W) * s := Int.mul_le_mul_of_nonneg_right hW hs
  have hrq : (0 : ℚ) < r := by exact_mod_cast hr
  rw [sub_lt_iff_lt_add, div_lt_iff₀ hrq, ← sub_lt_iff_lt_add, lt_div_iff₀ hrq]
  constructor
  · have : l * s < ((n * s).tdiv r + 1) * r := by rw [add_mul, one_mul]; omega
    exact_mod_cast this
  · have : ((n * s).tdiv r + (w * s).tdiv r - 1) * r < (l + W) * s := by
      rw [sub_mul, add_mul, one_mul]
      rw [add_mul] at hright
      omega
    exact_mod_cast this

end VmPlayback.Letterbox
