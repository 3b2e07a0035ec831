import VmPlayback.CalcScale
import VmPlayback.IntArith
import VmPlayback.Letterbox

namespace VmPlayback

open IntArith Letterbox

@[ext] structure IntRect where
  l : ℤ
  t : ℤ
  w : ℤ
  h : ℤ
  deriving DecidableEq

def Rect.toInts (r : Rect) : IntRect := ⟨r.l.toInt, r.t.toInt, r.w.toInt, r.h.toInt⟩

namespace Exact

def window (window : ℤ) : ℤ := max 0 (min window 2000)

def inner (videow videoh : ℤ) (clientRect : IntRect) : IntRect :=
  let windoww := window clientRect.w
  let windowh := window clientRect.h
  if windoww * videoh > windowh * videow then
    let nwindoww := (videow * windowh).tdiv videoh
    let nwindowh := windowh
    ⟨clientRect.l + (windoww - nwindoww).tdiv 2, clientRect.t + (windowh - nwindowh).tdiv 2,
      nwindoww, nwindowh⟩
  else
    let nwindowh := (videoh * windoww).tdiv videow
    let nwindoww := windoww
    ⟨clientRect.l + (windoww - nwindoww).tdiv 2, clientRect.t + (windowh - nwindowh).tdiv 2,
      nwindoww, nwindowh⟩

def scale (videow videoh : ℤ) (clientRect : IntRect) (screenw screenh reswidth resheight : ℤ) :
    IntRect :=
  let n := inner videow videoh clientRect
  ⟨(n.l * screenw).tdiv reswidth, (n.t * screenh).tdiv resheight, (n.w * screenw).tdiv reswidth,
    (n.h * screenh).tdiv resheight⟩

/-- Every value that is computed on the way; the product that is divided is one of
the two that are compared. -/
def intermediates (videow videoh : ℤ) (clientRect : IntRect)
    (screenw screenh reswidth resheight : ℤ) : List ℤ :=
  let windoww := window clientRect.w
  let windowh := window clientRect.h
  let n := inner videow videoh clientRect
  let v := scale videow videoh clientRect screenw screenh reswidth resheight
  [windoww * videoh, windowh * videow, n.w, n.h, windoww - n.w, windowh - n.h,
    (windoww - n.w).tdiv 2, (windowh - n.h).tdiv 2, n.l, n.t, n.l * screenw, n.t * screenh,
    n.w * screenw, n.h * screenh, v.l, v.t, v.w, v.h]

theorem window_bounds (w : ℤ) : 0 ≤ window w ∧ window w ≤ 2000 := by
  unfold window
  omega

variable {videow videoh : ℤ} (c : IntRect)

theorem inner_w (hw : 0 < videow) (hh : 0 < videoh) :
    (inner videow videoh c).w = fit videow videoh (window c.w) (window c.h) := by
  have hH := (window_bounds c.h).1
  unfold inner
  dsimp only
  split
  · next h =>
    rw [fit_of_wide hh (by rw [mul_comm videow]; exact h.le)]
    exact Int.tdiv_eq_ediv_of_nonneg (Int.mul_nonneg hw.le hH)
  · next h =>
    rw [fit_of_high hh (by rw [mul_comm videow]; exact not_lt.mp h)]

theorem inner_h (hw : 0 < videow) (hh : 0 < videoh) :
    (inner videow videoh c).h = fit videoh videow (window c.h) (window c.w) := by
  have hW := (window_bounds c.w).1
  unfold inner
  dsimp only
  split
  · next h =>
    rw [fit_of_high hw (by rw [mul_comm videoh]; exact h.le)]
  · next h =>
    rw [fit_of_wide hw (by rw [mul_comm videoh]; exact not_lt.mp h)]
    exact Int.tdiv_eq_ediv_of_nonneg (Int.mul_nonneg hh.le hW)

theorem inner_l (videow videoh : ℤ) :
    (inner videow videoh c).l = c.l + (window c.w - (inner videow videoh c).w).tdiv 2 := by
  unfold inner
  dsimp only
  split <;> rfl

theorem inner_t (videow videoh : ℤ) :
    (inner videow videoh c).t = c.t + (window c.h - (inner videow videoh c).h).tdiv 2 := by
  unfold inner
  dsimp only
  split <;> rfl

theorem inner_w_bounds (hw : 0 < videow) (hh : 0 < videoh) :
    0 ≤ (inner videow videoh c).w ∧ (inner videow videoh c).w ≤ window c.w := by
  rw [inner_w c hw hh]
  exact ⟨fit_nonneg hw hh (window_bounds c.w).1 (window_bounds c.h).1, fit_le _ _ _ _⟩

theorem inner_h_bounds (hw : 0 < videow) (hh : 0 < videoh) :
    0 ≤ (inner videow videoh c).h ∧ (inner videow videoh c).h ≤ window c.h := by
  rw [inner_h c hw hh]
  exact ⟨fit_nonneg hh hw (window_bounds c.h).1 (window_bounds c.w).1, fit_le _ _ _ _⟩

/-- The picture `n` in the window of `c`: inside it, as large as the proportions
allow, and in the middle. -/
structure Letterboxed (videow videoh : ℤ) (c n : IntRect) : Prop where
  nonneg : 0 ≤ n.w ∧ 0 ≤ n.h
  inside_width : c.l ≤ n.l ∧ n.l + n.w ≤ c.l + window c.w
  inside_height : c.t ≤ n.t ∧ n.t + n.h ≤ c.t + window c.h
  full : n.w = window c.w ∨ n.h = window c.h
  aspect_of_height : n.h = window c.h →
    0 ≤ videow * n.h - n.w * videoh ∧ videow * n.h - n.w * videoh < videoh
  aspect_of_width : n.w = window c.w →
    0 ≤ videoh * n.w - n.h * videow ∧ videoh * n.w - n.h * videow < videow
  centred_width : |(n.l - c.l) - (c.l + window c.w - (n.l + n.w))| ≤ 1
  centred_height : |(n.t - c.t) - (c.t + window c.h - (n.t + n.h))| ≤ 1

theorem inner_letterboxed (hw : 0 < videow) (hh : 0 < videoh) :
    Letterboxed videow videoh c (inner videow videoh c) := by
  obtain ⟨hw0, hwle⟩ := inner_w_bounds c hw hh
  obtain ⟨hh0, hhle⟩ := inner_h_bounds c hw hh
  obtain ⟨hl, hr, hcl⟩ := centred_inside hwle (inner_l c videow videoh)
  obtain ⟨ht, hb, hct⟩ := centred_inside hhle (inner_t c videow videoh)
  refine ⟨⟨hw0, hh0⟩, ⟨hl, hr⟩, ⟨ht, hb⟩, ?_, ?_, ?_, hcl, hct⟩
  · rw [inner_w c hw hh, inner_h c hw hh]
    exact fit_full hw hh
  · intro hfull
    rw [hfull, inner_w c hw hh]
    exact fit_aspect hw hh (by rwa [← inner_h c hw hh])
  · intro hfull
    rw [hfull, inner_h c hw hh]
    exact fit_aspect hh hw (by rwa [← inner_w c hw hh])

/-- A picture is no further out than its window. -/
theorem position_bounds {l n w W : ℤ} (hl : |l| ≤ 32768)
    (hin : l ≤ n ∧ n + w ≤ l + window W) (hw : 0 ≤ w) : -34768 ≤ n ∧ n ≤ 34768 := by
  obtain ⟨hlow, hhigh⟩ := abs_le.mp hl
  have hW := (window_bounds W).2
  omega

/-- The rectangle `v` on the screen lies in the image of the window of `c`, enlarged
by less than one pixel on each side. -/
structure InImage (screenw screenh reswidth resheight : ℤ) (c v : IntRect) : Prop where
  nonneg : 0 ≤ v.w ∧ 0 ≤ v.h
  left : (c.l * screenw : ℚ) / reswidth - 1 < v.l
  right : (v.l + v.w : ℚ) < ((c.l + window c.w) * screenw : ℚ) / reswidth + 1
  top : (c.t * screenh : ℚ) / resheight - 1 < v.t
  bottom : (v.t + v.h : ℚ) < ((c.t + window c.h) * screenh : ℚ) / resheight + 1

theorem scale_inImage {screenw screenh reswidth resheight : ℤ} (hw : 0 < videow)
    (hh : 0 < videoh) (hsw : 0 ≤ screenw) (hsh : 0 ≤ screenh) (hrw : 0 < reswidth)
    (hrh : 0 < resheight) :
    InImage screenw screenh reswidth resheight c
      (scale videow videoh c screenw screenh reswidth resheight) := by
  have hbox := inner_letterboxed c hw hh
  obtain ⟨hleft, hright⟩ := span_near hrw hsw hbox.inside_width.1 hbox.nonneg.1 hbox.inside_width.2
  obtain ⟨htop, hbottom⟩ :=
    span_near hrh hsh hbox.inside_height.1 hbox.nonneg.2 hbox.inside_height.2
  exact ⟨⟨Int.tdiv_nonneg (Int.mul_nonneg hbox.nonneg.1 hsw) hrw.le,
    Int.tdiv_nonneg (Int.mul_nonneg hbox.nonneg.2 hsh) hrh.le⟩, hleft, hright, htop, hbottom⟩

/-- With the sizes in bounds, only the position can make a value too large. -/
theorem intermediates_fit {screenw screenh reswidth resheight : ℤ}
    (hw : 0 < videow ∧ videow ≤ 65536) (hh : 0 < videoh ∧ videoh ≤ 65536)
    (hsw : 0 ≤ screenw ∧ screenw ≤ 16384) (hsh : 0 ≤ screenh ∧ screenh ≤ 16384)
    (hrw : 0 < reswidth) (hrh : 0 < resheight) (hl : Fits (inner videow videoh c).l)
    (ht : Fits (inner videow videoh c).t) (hls : Fits ((inner videow videoh c).l * screenw))
    (hts : Fits ((inner videow videoh c).t * screenh)) :
    ∀ x ∈ intermediates videow videoh c screenw screenh reswidth resheight, Fits x := by
  obtain ⟨hW, hW'⟩ := window_bounds c.w
  obtain ⟨hH, hH'⟩ := window_bounds c.h
  obtain ⟨hnw, hnw'⟩ := inner_w_bounds c hw.1 hh.1
  obtain ⟨hnh, hnh'⟩ := inner_h_bounds c hw.1 hh.1
  have hws : Fits ((inner videow videoh c).w * screenw) :=
    fits_mul (m := 2000) ⟨by omega, by omega⟩ hsw (by norm_num)
  have hhs : Fits ((inner videow videoh c).h * screenh) :=
    fits_mul (m := 2000) ⟨by omega, by omega⟩ hsh (by norm_num)
  have hmw : Fits (window c.w - (inner videow videoh c).w) := ⟨by omega, by omega⟩
  have hmh : Fits (window c.h - (inner videow videoh c).h) := ⟨by omega, by omega⟩
  simp only [intermediates, List.forall_mem_cons]
  refine ⟨?_, ?_, ⟨by omega, by omega⟩, ⟨by omega, by omega⟩, hmw, hmh, fits_tdiv hmw two_pos,
    fits_tdiv hmh two_pos, hl, ht, hls, hts, hws, hhs, fits_tdiv hls hrw, fits_tdiv hts hrh,
    fits_tdiv hws hrw, fits_tdiv hhs hrh, by simp⟩
  · exact fits_mul (m := 2000) ⟨by omega, by omega⟩ ⟨hh.1.le, hh.2⟩ (by norm_num)
  · exact fits_mul (m := 2000) ⟨by omega, by omega⟩ ⟨hw.1.le, hw.2⟩ (by norm_num)

theorem clampWindow_toInt (w : Int32) : (clampWindow w).toInt = window w.toInt := by
  have h0 : w < 0 ↔ w.toInt < 0 := Int32.lt_iff_toInt_lt
  have h2000 : 2000 < w ↔ 2000 < w.toInt := Int32.lt_iff_toInt_lt
  unfold clampWindow window
  by_cases hneg : w < 0
  · have := h0.mp hneg
    simp only [if_pos hneg]
    rw [if_neg (by decide), max_eq_left (by omega)]
    rfl
  · have := mt h0.mpr hneg
    simp only [if_neg hneg]
    by_cases hbig : 2000 < w
    · have := h2000.mp hbig
      rw [if_pos hbig, min_eq_right (by omega)]
      rfl
    · have := mt h2000.mpr hbig
      rw [if_neg hbig, min_eq_left (by omega), max_eq_right (by omega)]

/-- The rectangle in the middle of the window, from its size. -/
theorem centred_toInts {c : Rect} {nw nh : Int32} {x y : ℤ} (hx : nw.toInt = x)
    (hy : nh.toInt = y) (hw : Fits (window c.w.toInt - x)) (hh : Fits (window c.h.toInt - y))
    (hl : Fits (c.l.toInt + (window c.w.toInt - x).tdiv 2))
    (ht : Fits (c.t.toInt + (window c.h.toInt - y).tdiv 2)) :
    (⟨c.l + (clampWindow c.w - nw) / 2, c.t + (clampWindow c.h - nh) / 2, nw, nh⟩ : Rect).toInts =
      ⟨c.l.toInt + (window c.w.toInt - x).tdiv 2, c.t.toInt + (window c.h.toInt - y).tdiv 2,
        x, y⟩ := by
  subst hx hy
  have h2 : (0 : ℤ) < (2 : Int32).toInt := by decide
  have hdw : ((clampWindow c.w - nw) / 2).toInt = (window c.w.toInt - nw.toInt).tdiv 2 := by
    rw [toInt_div _ h2, toInt_sub (by rwa [clampWindow_toInt]), clampWindow_toInt]
    rfl
  have hdh : ((clampWindow c.h - nh) / 2).toInt = (window c.h.toInt - nh.toInt).tdiv 2 := by
    rw [toInt_div _ h2, toInt_sub (by rwa [clampWindow_toInt]), clampWindow_toInt]
    rfl
  rw [Rect.toInts]
  dsimp only
  rw [toInt_add (by rwa [hdw]), toInt_add (by rwa [hdh]), hdw, hdh]

variable {videow videoh : Int32} {c : Rect} {screen : Surface} {reswidth resheight : Int32}

structure InnerFits (videow videoh : Int32) (c : Rect) : Prop where
  wide : Fits (window c.w.toInt * videoh.toInt)
  high : Fits (window c.h.toInt * videow.toInt)
  w : Fits (window c.w.toInt - (inner videow.toInt videoh.toInt c.toInts).w)
  h : Fits (window c.h.toInt - (inner videow.toInt videoh.toInt c.toInts).h)
  l : Fits (inner videow.toInt videoh.toInt c.toInts).l
  t : Fits (inner videow.toInt videoh.toInt c.toInts).t

theorem innerRect_exact (hw : 0 < videow.toInt) (hh : 0 < videoh.toInt)
    (hf : InnerFits videow videoh c) :
    ∃ n, innerRect videow videoh c = some n ∧
      n.toInts = inner videow.toInt videoh.toInt c.toInts := by
  obtain ⟨hwide, hhigh, hfw, hfh, hfl, hft⟩ := hf
  have hpw : 0 < videow := Int32.lt_iff_toInt_lt.mpr hw
  have hph : 0 < videoh := Int32.lt_iff_toInt_lt.mpr hh
  have hcond : clampWindow c.w * videoh > clampWindow c.h * videow ↔
      window c.w.toInt * videoh.toInt > window c.h.toInt * videow.toInt := by
    rw [gt_iff_lt, Int32.lt_iff_toInt_lt, toInt_mul (by rwa [clampWindow_toInt]),
      toInt_mul (by rwa [clampWindow_toInt]), clampWindow_toInt, clampWindow_toInt]
  unfold innerRect
  unfold inner at hfw hfh hfl hft ⊢
  dsimp only [Rect.toInts] at hfw hfh hfl hft ⊢
  by_cases hc : clampWindow c.w * videoh > clampWindow c.h * videow
  · simp only [if_pos (hcond.mp hc)] at hfw hfh hfl hft ⊢
    have hq : (videow * clampWindow c.h / videoh).toInt =
        (videow.toInt * window c.h.toInt).tdiv videoh.toInt := by
      rw [toInt_div _ hh, toInt_mul (by rwa [clampWindow_toInt, mul_comm]), clampWindow_toInt]
    rw [if_pos hc, cdiv_of_pos _ hph]
    exact ⟨_, rfl, centred_toInts hq (clampWindow_toInt c.h) hfw hfh hfl hft⟩
  · simp only [if_neg (mt hcond.mpr hc)] at hfw hfh hfl hft ⊢
    have hq : (videoh * clampWindow c.w / videow).toInt =
        (videoh.toInt * window c.w.toInt).tdiv videow.toInt := by
      rw [toInt_div _ hw, toInt_mul (by rwa [clampWindow_toInt, mul_comm]), clampWindow_toInt]
    rw [if_neg hc, cdiv_of_pos _ hpw]
    exact ⟨_, rfl, centred_toInts (clampWindow_toInt c.w) hq hfw hfh hfl hft⟩

/-- One coordinate carried to the screen. -/
theorem carried_toInt {x s r : Int32} (hr : 0 < r.toInt) (h : Fits (x.toInt * s.toInt)) :
    cdiv (x * s) r = some (x * s / r) ∧ (x * s / r).toInt = (x.toInt * s.toInt).tdiv r.toInt := by
  refine ⟨cdiv_of_pos _ (Int32.lt_iff_toInt_lt.mpr hr), ?_⟩
  rw [toInt_div _ hr, toInt_mul h]

/-- As long as every value fits, the code computes the formulas. -/
theorem calcScale_exact (hw : 0 < videow.toInt) (hh : 0 < videoh.toInt)
    (hrw : 0 < reswidth.toInt) (hrh : 0 < resheight.toInt)
    (hfit : ∀ x ∈ intermediates videow.toInt videoh.toInt c.toInts screen.w.toInt screen.h.toInt
      reswidth.toInt resheight.toInt, Fits x) :
    ∃ n v, innerRect videow videoh c = some n ∧
      n.toInts = inner videow.toInt videoh.toInt c.toInts ∧
      calcScale videow videoh c screen reswidth resheight = some v ∧
      v.toInts = scale videow.toInt videoh.toInt c.toInts screen.w.toInt screen.h.toInt
        reswidth.toInt resheight.toInt := by
  simp only [intermediates, List.forall_mem_cons] at hfit
  obtain ⟨hwide, hhigh, -, -, hmw, hmh, -, -, hl, ht, hls, hts, hws, hhs, -⟩ := hfit
  obtain ⟨n, hn, hni⟩ := innerRect_exact hw hh ⟨hwide, hhigh, hmw, hmh, hl, ht⟩
  rw [← hni] at hls hts hws hhs
  obtain ⟨hdl, hvl⟩ := carried_toInt hrw hls
  obtain ⟨hdt, hvt⟩ := carried_toInt hrh hts
  obtain ⟨hdw, hvw⟩ := carried_toInt hrw hws
  obtain ⟨hdh, hvh⟩ := carried_toInt hrh hhs
  have hv : calcScale videow videoh c screen reswidth resheight =
      some ⟨n.l * screen.w / reswidth, n.t * screen.h / resheight, n.w * screen.w / reswidth,
        n.h * screen.h / resheight⟩ := by
    simp only [calcScale, hn, hdl, hdt, hdw, hdh, Option.bind_eq_bind, Option.bind_some,
      Option.pure_def]
  refine ⟨n, _, hn, hni, hv, ?_⟩
  rw [scale, ← hni, Rect.toInts]
  simp only [hvl, hvt, hvw, hvh]
  rfl

end Exact

open Exact

/-- The geometry of `calcScale`, for every client rectangle, on and off the screen,
empty ones included. -/
theorem calcScale_letterboxes (videow videoh : Int32) (c : Rect) (screen : Surface)
    (reswidth resheight : Int32) (hw : 1 ≤ videow.toInt ∧ videow.toInt ≤ 65536)
    (hh : 1 ≤ videoh.toInt ∧ videoh.toInt ≤ 65536) (hl : |c.l.toInt| ≤ 32768)
    (ht : |c.t.toInt| ≤ 32768) (hsw : 1 ≤ screen.w.toInt ∧ screen.w.toInt ≤ 16384)
    (hsh : 1 ≤ screen.h.toInt ∧ screen.h.toInt ≤ 16384) (hrw : 1 ≤ reswidth.toInt)
    (hrh : 1 ≤ resheight.toInt) :
    ∃ n v, innerRect videow videoh c = some n ∧
      calcScale videow videoh c screen reswidth resheight = some v ∧
      Letterboxed videow.toInt videoh.toInt c.toInts n.toInts ∧
      InImage screen.w.toInt screen.h.toInt reswidth.toInt resheight.toInt c.toInts v.toInts := by
  have hw0 : 0 < videow.toInt := by omega
  have hh0 : 0 < videoh.toInt := by omega
  have hrw0 : 0 < reswidth.toInt := by omega
  have hrh0 : 0 < resheight.toInt := by omega
  have hsw0 : 0 ≤ screen.w.toInt := by omega
  have hsh0 : 0 ≤ screen.h.toInt := by omega
  have hbox := inner_letterboxed c.toInts hw0 hh0
  have hnl := position_bounds hl hbox.inside_width hbox.nonneg.1
  have hnt := position_bounds ht hbox.inside_height hbox.nonneg.2
  have hfit := intermediates_fit c.toInts ⟨hw0, hw.2⟩ ⟨hh0, hh.2⟩ ⟨hsw0, hsw.2⟩ ⟨hsh0, hsh.2⟩
    hrw0 hrh0 ⟨by omega, by omega⟩ ⟨by omega, by omega⟩
    (fits_mul hnl ⟨hsw0, hsw.2⟩ (by norm_num)) (fits_mul hnt ⟨hsh0, hsh.2⟩ (by norm_num))
  obtain ⟨n, v, hn, hni, hv, hvi⟩ := calcScale_exact hw0 hh0 hrw0 hrh0 hfit
  refine ⟨n, v, hn, hv, ?_, ?_⟩
  · rw [hni]
    exact hbox
  · rw [hvi]
    exact scale_inImage c.toInts hw0 hh0 hsw0 hsh0 hrw0 hrh0

/-- A wide film in a window that hangs over the left edge. -/
theorem calcScale_letterboxes_left :
    ∃ n v, innerRect 1920 800 ⟨-300, 20, 640, 480⟩ = some n ∧
      calcScale 1920 800 ⟨-300, 20, 640, 480⟩ ⟨1, 1280, 1024⟩ 1024 768 = some v ∧
      Letterboxed 1920 800 ⟨-300, 20, 640, 480⟩ n.toInts ∧
      InImage 1280 1024 1024 768 ⟨-300, 20, 640, 480⟩ v.toInts :=
  calcScale_letterboxes 1920 800 ⟨-300, 20, 640, 480⟩ ⟨1, 1280, 1024⟩ 1024 768 (by decide)
    (by decide) (by decide) (by decide) (by decide) (by decide) (by decide) (by decide)

end VmPlayback
