import VmPlayback.Placement
import VmPlayback.Playback

namespace VmPlayback.Playback

open IntArith Letterbox Exact

def SDLRect.toInts (r : SDLRect) : IntRect := ⟨r.x.toInt, r.y.toInt, r.w.toNat, r.h.toNat⟩

theorem toInt16_toInt_iff (x : Int32) :
    x.toInt16.toInt = x.toInt ↔ -2 ^ 15 ≤ x.toInt ∧ x.toInt < 2 ^ 15 := by
  rw [Int32.toInt_toInt16]
  constructor
  · intro h
    rw [← h]
    have hlow := Int.le_bmod (x := x.toInt) (m := 2 ^ 16) (by decide)
    have hhigh := Int.bmod_lt (x := x.toInt) (m := 2 ^ 16) (by decide)
    norm_num at hlow hhigh ⊢
    exact ⟨hlow, hhigh⟩
  · rintro ⟨hlow, hhigh⟩
    exact Int.bmod_eq_of_le (by omega) (by omega)

theorem toUInt16_toNat_iff (x : Int32) :
    (x.toUInt32.toUInt16.toNat : ℤ) = x.toInt ↔ 0 ≤ x.toInt ∧ x.toInt < 2 ^ 16 := by
  have hnat := toUInt32_toNat x
  obtain ⟨hlow, hhigh⟩ := fits_toInt x
  rw [UInt32.toNat_toUInt16]
  omega

/-- The fields hold the rectangle exactly when it fits them. -/
theorem toSDL_toInts_iff (v : Rect) :
    (Rect.toSDL v).toInts = v.toInts ↔
      (-2 ^ 15 ≤ v.l.toInt ∧ v.l.toInt < 2 ^ 15 ∧ 0 ≤ v.w.toInt ∧ v.w.toInt < 2 ^ 16) ∧
      (-2 ^ 15 ≤ v.t.toInt ∧ v.t.toInt < 2 ^ 15 ∧ 0 ≤ v.h.toInt ∧ v.h.toInt < 2 ^ 16) := by
  rw [IntRect.ext_iff]
  simp only [SDLRect.toInts, Rect.toSDL, Rect.toInts, toInt16_toInt_iff, toUInt16_toNat_iff]
  tauto

def PlacedExactly (videow videoh : Int32) (c : Rect) (screen : Surface)
    (reswidth resheight : Int32) : Prop :=
  (∀ x ∈ intermediates videow.toInt videoh.toInt c.toInts screen.w.toInt screen.h.toInt
    reswidth.toInt resheight.toInt, Fits x) ∧
  ∃ v, calcScale videow videoh c screen reswidth resheight = some v ∧
    (Rect.toSDL v).toInts = scale videow.toInt videoh.toInt c.toInts screen.w.toInt
      screen.h.toInt reswidth.toInt resheight.toInt

/-- A span of guest pixels whose image on the screen a signed 16-bit position and an
unsigned 16-bit length can describe. -/
def SpanShows (start len screen res : ℤ) : Prop :=
  -32769 * res < start * screen ∧ start * screen < 32768 * res ∧ len * screen < 65536 * res

instance (start len screen res : ℤ) : Decidable (SpanShows start len screen res) :=
  inferInstanceAs (Decidable (_ ∧ _))

/-- In one direction: the client rectangle begins at `start` and leaves the picture
`len` of its `window`, the rest going half and half to both sides. -/
def AxisShows (start window len screen res : ℤ) : Prop :=
  SpanShows (start + (window - len).tdiv 2) len screen res

instance (start window len screen res : ℤ) : Decidable (AxisShows start window len screen res) :=
  inferInstanceAs (Decidable (SpanShows ..))

/-- The rectangles from the guest that end up where an `SDL_Rect` can be. -/
def Displayable (videow videoh : ℤ) (c : IntRect) (screenw screenh reswidth resheight : ℤ) :
    Prop :=
  AxisShows c.l (window c.w) (fit videow videoh (window c.w) (window c.h)) screenw reswidth ∧
  AxisShows c.t (window c.h) (fit videoh videow (window c.h) (window c.w)) screenh resheight

instance (videow videoh : ℤ) (c : IntRect) (screenw screenh reswidth resheight : ℤ) :
    Decidable (Displayable videow videoh c screenw screenh reswidth resheight) :=
  inferInstanceAs (Decidable (_ ∧ _))

theorem spanShows_iff {start len screen res : ℤ} (hr : 0 < res) (hl : 0 ≤ len * screen) :
    SpanShows start len screen res ↔
      -2 ^ 15 ≤ (start * screen).tdiv res ∧ (start * screen).tdiv res < 2 ^ 15 ∧
        0 ≤ (len * screen).tdiv res ∧ (len * screen).tdiv res < 2 ^ 16 := by
  have hnonneg := Int.tdiv_nonneg hl hr.le
  rw [le_tdiv_iff hr (by norm_num), tdiv_lt_iff hr (by norm_num), tdiv_lt_iff hr (by norm_num),
    SpanShows]
  norm_num [hnonneg]

/-- A position that shows is small enough for the arithmetic. -/
theorem fits_of_spanShows {start len screen res : ℤ} (hs : 0 < screen) (hr : res ≤ 2560)
    (h : SpanShows start len screen res) : Fits start ∧ Fits (start * screen) := by
  obtain ⟨hlow, hhigh, -⟩ := h
  have hprod : Fits (start * screen) := ⟨by omega, by omega⟩
  refine ⟨⟨?_, ?_⟩, hprod⟩
  · by_contra hneg
    have : start * screen ≤ start * 1 := Int.mul_le_mul_of_nonpos_left (by omega) (by omega)
    have := hprod.1
    omega
  · by_contra hpos
    have : start * 1 ≤ start * screen := Int.mul_le_mul_of_nonneg_left (by omega) (by omega)
    have := hprod.2
    omega

theorem displayable_iff {videow videoh : ℤ} (hw : 0 < videow) (hh : 0 < videoh) (c : IntRect)
    (screenw screenh reswidth resheight : ℤ) :
    Displayable videow videoh c screenw screenh reswidth resheight ↔
      SpanShows (inner videow videoh c).l (inner videow videoh c).w screenw reswidth ∧
      SpanShows (inner videow videoh c).t (inner videow videoh c).h screenh resheight := by
  rw [inner_l, inner_t, inner_w c hw hh, inner_h c hw hh]
  rfl

/-- A placement without overflow reaches SDL unchanged exactly when it fits there. -/
theorem shown_exactly_iff {videow videoh : Int32} {c : Rect} {screen : Surface}
    {reswidth resheight : Int32} (hw : 0 < videow.toInt) (hh : 0 < videoh.toInt)
    (hsw : 0 ≤ screen.w.toInt) (hsh : 0 ≤ screen.h.toInt) (hrw : 0 < reswidth.toInt)
    (hrh : 0 < resheight.toInt)
    (hfit : ∀ x ∈ intermediates videow.toInt videoh.toInt c.toInts screen.w.toInt screen.h.toInt
      reswidth.toInt resheight.toInt, Fits x) :
    (∃ v, calcScale videow videoh c screen reswidth resheight = some v ∧
      (Rect.toSDL v).toInts = scale videow.toInt videoh.toInt c.toInts screen.w.toInt
        screen.h.toInt reswidth.toInt resheight.toInt) ↔
      Displayable videow.toInt videoh.toInt c.toInts screen.w.toInt screen.h.toInt
        reswidth.toInt resheight.toInt := by
  obtain ⟨-, v, -, -, hv, hvi⟩ := calcScale_exact hw hh hrw hrh hfit
  obtain ⟨hnw, -⟩ := inner_w_bounds c.toInts hw hh
  obtain ⟨hnh, -⟩ := inner_h_bounds c.toInts hw hh
  rw [hv, displayable_iff hw hh, spanShows_iff hrw (Int.mul_nonneg hnw hsw),
    spanShows_iff hrh (Int.mul_nonneg hnh hsh)]
  have hiff := toSDL_toInts_iff v
  rw [hvi] at hiff
  have hl : v.l.toInt = _ := congrArg IntRect.l hvi
  have ht : v.t.toInt = _ := congrArg IntRect.t hvi
  have hvw : v.w.toInt = _ := congrArg IntRect.w hvi
  have hvh : v.h.toInt = _ := congrArg IntRect.h hvi
  rw [hl, ht, hvw, hvh] at hiff
  simp only [Option.some.injEq, exists_eq_left']
  exact hiff

/-- The frame is placed where the formulas say if and only if the client rectangle,
carried to the screen, is within reach of an `SDL_Rect`: nothing checks that. -/
theorem placed_exactly_iff (videow videoh : Int32) (c : Rect) (screen : Surface)
    (reswidth resheight : Int32) (hw : 1 ≤ videow.toInt ∧ videow.toInt ≤ 16384)
    (hh : 1 ≤ videoh.toInt ∧ videoh.toInt ≤ 16384)
    (hsw : 1 ≤ screen.w.toInt ∧ screen.w.toInt ≤ 4096)
    (hsh : 1 ≤ screen.h.toInt ∧ screen.h.toInt ≤ 4096)
    (hrw : 8 ≤ reswidth.toInt ∧ reswidth.toInt ≤ 2560)
    (hrh : 1 ≤ resheight.toInt ∧ resheight.toInt ≤ 1600) :
    PlacedExactly videow videoh c screen reswidth resheight ↔
      Displayable videow.toInt videoh.toInt c.toInts screen.w.toInt screen.h.toInt
        reswidth.toInt resheight.toInt := by
  have hw0 : 0 < videow.toInt := by omega
  have hh0 : 0 < videoh.toInt := by omega
  have hsw0 : 0 < screen.w.toInt := by omega
  have hsh0 : 0 < screen.h.toInt := by omega
  have hrw0 : 0 < reswidth.toInt := by omega
  have hrh0 : 0 < resheight.toInt := by omega
  constructor
  · rintro ⟨hfit, hshown⟩
    exact (shown_exactly_iff hw0 hh0 hsw0.le hsh0.le hrw0 hrh0 hfit).mp hshown
  · intro hd
    obtain ⟨hx, hy⟩ := (displayable_iff hw0 hh0 c.toInts _ _ _ _).mp hd
    -- in reach of SDL, the products are far from overflowing
    obtain ⟨hl, hls⟩ := fits_of_spanShows hsw0 hrw.2 hx
    obtain ⟨ht, hts⟩ := fits_of_spanShows hsh0 (by omega) hy
    have hfit := intermediates_fit c.toInts ⟨hw0, by omega⟩ ⟨hh0, by omega⟩ ⟨hsw0.le, by omega⟩
      ⟨hsh0.le, by omega⟩ hrw0 hrh0 hl ht hls hts
    exact ⟨hfit, (shown_exactly_iff hw0 hh0 hsw0.le hsh0.le hrw0 hrh0 hfit).mpr hd⟩

theorem placed_exactly_left :
    PlacedExactly 1920 800 ⟨-300, 20, 640, 480⟩ ⟨1, 1280, 1024⟩ 1024 768 :=
  (placed_exactly_iff 1920 800 ⟨-300, 20, 640, 480⟩ ⟨1, 1280, 1024⟩ 1024 768 (by decide)
    (by decide) (by decide) (by decide) (by decide) (by decide)).mpr (by decide)

/-- A window forty thousand pixels to the right of the screen comes back in from the
left. -/
theorem far_right_wraps :
    (∃ v, calcScale 640 480 ⟨40000, 0, 640, 480⟩ ⟨1, 1024, 768⟩ 1024 768 = some v ∧
      v = ⟨40000, 0, 640, 480⟩ ∧ (Rect.toSDL v).x = -25536) ∧
    (scale 640 480 ⟨40000, 0, 640, 480⟩ 1024 768 1024 768).l = 40000 ∧
    ¬ PlacedExactly 640 480 ⟨40000, 0, 640, 480⟩ ⟨1, 1024, 768⟩ 1024 768 := by
  have hv : calcScale 640 480 ⟨40000, 0, 640, 480⟩ ⟨1, 1024, 768⟩ 1024 768 =
      some ⟨40000, 0, 640, 480⟩ := by decide
  refine ⟨⟨_, hv, rfl, by decide⟩, by decide, ?_⟩
  rintro ⟨-, v, hv', hshown⟩
  rw [hv] at hv'
  cases hv'
  exact absurd hshown (by decide)

end VmPlayback.Playback
