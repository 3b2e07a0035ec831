import VmPlayback.Overlays
import VmPlayback.Placement

namespace VmPlayback.Playback

open IntArith Letterbox Exact

/-- The call gets to `SDL_CreateYUVOverlay` or, with the overlay there is, to
`convert`. -/
def Reaches (s : State) (c : DrawCall) (v : Rect) : Prop :=
  s.status = .running ∧ ∃ va avctx, c.Draws va avctx v ∧
    (overlayFits s.overlay s.lastScreen v c.screen = true ∨ ¬ TooSmall avctx v)

def Performs (s : State) (c : DrawCall) (e : Effect) : Prop :=
  ∃ added, (call s c).effects = s.effects ++ added ∧ e ∈ added

/-- The test is that of the code: if SDL makes the overlay, these are the calls that
convert. -/
theorem reaches_iff_converts {s : State} {c : DrawCall} (hs : Cached s)
    (hcreated : c.sdl.created = true) (v : Rect) :
    Reaches s c v ↔ s.status = .running ∧ ∃ va avctx overlay, c.Draws va avctx v ∧
      Performs s c (.convert overlay avctx va.frame v.w v.h) := by
  unfold Performs
  have hexit := call_exit (c := c) hs.idle
  generalize call s c = s' at hexit
  constructor
  · rintro ⟨hrun, va, avctx, hd, hreach⟩
    refine ⟨hrun, va, avctx, ?_⟩
    cases hexit with
    | untouched hno => exact absurd hd (hno hrun va avctx v)
    | stopped hc hp => simp [hd.plays hc] at hp
    | gaveUp hd' hf hg =>
      obtain ⟨rfl, rfl, rfl⟩ := hd.unique hd'
      simp [hf, hcreated] at hreach hg
      exact absurd hg hreach
    | kept hd' hf =>
      obtain ⟨rfl, rfl, rfl⟩ := hd.unique hd'
      exact ⟨s.overlay, hd, _, rfl, List.mem_cons_self⟩
    | created hd' hf hbig =>
      obtain ⟨rfl, rfl, rfl⟩ := hd.unique hd'
      exact ⟨some (madeOverlay s v c.screen), hd, _, rfl, by simp [drawnInto]⟩
  · rintro ⟨hrun, va, avctx, overlay, hd, added, hadded, hmem⟩
    refine ⟨hrun, va, avctx, hd, ?_⟩
    cases hexit with
    | untouched hno => exact absurd hd (hno hrun va avctx v)
    | stopped | gaveUp =>
      obtain rfl := List.append_cancel_left hadded
      simp [mem_freed] at hmem
    | kept hd' hf =>
      obtain ⟨rfl, rfl, rfl⟩ := hd.unique hd'
      exact Or.inl hf
    | created hd' hf hbig =>
      obtain ⟨rfl, rfl, rfl⟩ := hd.unique hd'
      exact Or.inr hbig

/-- In one direction: the video has less than twenty pixels, and its picture of `len`
guest pixels less than one on the screen. -/
def AxisVanishes (video len screen res : ℤ) : Prop := video < 20 ∧ len * screen < res

def AxisRemains (video len screen res : ℤ) : Prop := video / 20 * res ≤ len * screen

/-- A small video that disappears in one direction and is large enough in the other. -/
def Vanishes (videow videoh : ℤ) (c : IntRect) (screenw screenh reswidth resheight : ℤ) : Prop :=
  let nwindoww := fit videow videoh (window c.w) (window c.h)
  let nwindowh := fit videoh videow (window c.h) (window c.w)
  (AxisVanishes videow nwindoww screenw reswidth ∧ AxisRemains videoh nwindowh screenh resheight) ∨
  (AxisVanishes videoh nwindowh screenh resheight ∧ AxisRemains videow nwindoww screenw reswidth)

instance (videow videoh : ℤ) (c : IntRect) (screenw screenh reswidth resheight : ℤ) :
    Decidable (Vanishes videow videoh c screenw screenh reswidth resheight) :=
  inferInstanceAs (Decidable ((_ < _ ∧ _ < _) ∧ _ ≤ _ ∨ (_ < _ ∧ _ < _) ∧ _ ≤ _))

theorem axisVanishes_iff {video len screen res : ℤ} (hv : 0 < video) (hl : 0 ≤ len * screen)
    (hr : 0 < res) :
    AxisVanishes video len screen res ↔
      video.tdiv 20 ≤ (len * screen).tdiv res ∧ ¬ 0 < (len * screen).tdiv res := by
  have hnonneg := Int.tdiv_nonneg hl hr.le
  rw [AxisVanishes, Int.tdiv_eq_ediv_of_nonneg hv.le, ← not_le (a := res), ← tdiv_pos_iff hl hr]
  omega

theorem axisRemains_iff {video len screen res : ℤ} (hv : 0 < video) (hl : 0 ≤ len * screen)
    (hr : 0 < res) :
    AxisRemains video len screen res ↔ video.tdiv 20 ≤ (len * screen).tdiv res := by
  rw [AxisRemains, le_tdiv_iff_of_nonneg hl hr, Int.tdiv_eq_ediv_of_nonneg hv.le]

theorem vanishes_iff {videow videoh screenw screenh reswidth resheight : ℤ} (c : IntRect)
    (hw : 0 < videow) (hh : 0 < videoh) (hsw : 0 ≤ screenw) (hsh : 0 ≤ screenh)
    (hrw : 0 < reswidth) (hrh : 0 < resheight) :
    Vanishes videow videoh c screenw screenh reswidth resheight ↔
      (videow.tdiv 20 ≤ (scale videow videoh c screenw screenh reswidth resheight).w ∧
        videoh.tdiv 20 ≤ (scale videow videoh c screenw screenh reswidth resheight).h) ∧
      ¬ (0 < (scale videow videoh c screenw screenh reswidth resheight).w ∧
        0 < (scale videow videoh c screenw screenh reswidth resheight).h) := by
  have hnw := Int.mul_nonneg (inner_w_bounds c hw hh).1 hsw
  have hnh := Int.mul_nonneg (inner_h_bounds c hw hh).1 hsh
  rw [Vanishes, ← inner_w c hw hh, ← inner_h c hw hh]
  dsimp only [scale]
  rw [axisVanishes_iff hw hnw hrw, axisVanishes_iff hh hnh hrh, axisRemains_iff hw hnw hrw,
    axisRemains_iff hh hnh hrh]
  tauto

structure InRange (avctx : AVCodecContext) (clientRect : Rect) (c : DrawCall) : Prop where
  video : 0 < avctx.width.toInt ∧ 0 < avctx.height.toInt
  screen : 0 < c.screen.w.toInt ∧ 0 < c.screen.h.toInt
  resolution : 0 < c.width.toInt ∧ 0 < c.height.toInt
  fits : ∀ x ∈ intermediates avctx.width.toInt avctx.height.toInt clientRect.toInts
    c.screen.w.toInt c.screen.h.toInt c.width.toInt c.height.toInt, Fits x

namespace DrawCall

def Sound (c : DrawCall) : Prop :=
  ∀ va avctx, c.Finds va avctx → InRange avctx va.clientRect c

def FindsVanishing (c : DrawCall) : Prop :=
  ∃ va avctx, c.Finds va avctx ∧
    Vanishes avctx.width.toInt avctx.height.toInt va.clientRect.toInts c.screen.w.toInt
      c.screen.h.toInt c.width.toInt c.height.toInt

variable {c : DrawCall} {va : VAContext} {avctx : AVCodecContext} {v : Rect}

theorem Finds.draws (h : c.Finds va avctx) (hr : InRange avctx va.clientRect c) :
    ∃ v, c.Draws va avctx v := by
  obtain ⟨-, v, -, -, hv, -⟩ :=
    calcScale_exact hr.video.1 hr.video.2 hr.resolution.1 hr.resolution.2 hr.fits
  exact ⟨v, h, hv⟩

/-- The guard lets an empty overlay pass exactly for these frames. -/
theorem Draws.vanishes_iff (h : c.Draws va avctx v) (hr : InRange avctx va.clientRect c) :
    Vanishes avctx.width.toInt avctx.height.toInt va.clientRect.toInts c.screen.w.toInt
      c.screen.h.toInt c.width.toInt c.height.toInt ↔
    ¬ TooSmall avctx v ∧ ¬ (0 < v.w ∧ 0 < v.h) := by
  obtain ⟨-, v', -, -, hv, hvi⟩ :=
    calcScale_exact hr.video.1 hr.video.2 hr.resolution.1 hr.resolution.2 hr.fits
  obtain rfl := Option.some.inj (h.placed.symm.trans hv)
  have hvw : v.w.toInt = _ := congrArg IntRect.w hvi
  have hvh : v.h.toInt = _ := congrArg IntRect.h hvi
  have h20 : (0 : ℤ) < (20 : Int32).toInt := by decide
  rw [Playback.vanishes_iff va.clientRect.toInts hr.video.1 hr.video.2 hr.screen.1.le
    hr.screen.2.le hr.resolution.1 hr.resolution.2, ← hvw, ← hvh, TooSmall, not_or]
  simp only [Int32.lt_iff_toInt_lt, toInt_div _ h20, not_lt]
  rfl

end DrawCall

def Filled (s : State) : Prop :=
  Cached s ∧ ∀ overlay, s.overlay = some overlay → 0 < overlay.w ∧ 0 < overlay.h

variable {s : State} {c : DrawCall}

theorem reaches_positive_iff (hs : Filled s) (hr : c.Sound) :
    (∀ v, Reaches s c v → 0 < v.w ∧ 0 < v.h) ↔ (s.status = .running → ¬ c.FindsVanishing) := by
  constructor
  · rintro h hrun ⟨va, avctx, hfinds, hvanishes⟩
    obtain ⟨v, hd⟩ := hfinds.draws (hr va avctx hfinds)
    obtain ⟨hbig, hempty⟩ := (hd.vanishes_iff (hr va avctx hfinds)).mp hvanishes
    exact hempty (h v ⟨hrun, va, avctx, hd, Or.inr hbig⟩)
  · rintro h v ⟨hrun, va, avctx, hd, hf | hbig⟩
    · -- what is kept has the size of this call
      obtain ⟨overlay, ho, hw, hh, -⟩ := overlayFits_iff.mp hf
      rw [← hw, ← hh]
      exact hs.2 overlay ho
    · by_contra hempty
      exact h hrun ⟨va, avctx, hd.toFinds,
        (hd.vanishes_iff (hr va avctx hd.toFinds)).mpr ⟨hbig, hempty⟩⟩

theorem call_filled (hs : Filled s) (hpos : ∀ v, Reaches s c v → 0 < v.w ∧ 0 < v.h) :
    Filled (call s c) := by
  by_cases hrun : s.status = .running
  · refine ⟨call_cached hs.1 c, ?_⟩
    have hexit := call_exit (c := c) hs.1.idle
    generalize call s c = s' at hexit
    cases hexit with
    | untouched _ ho =>
      rw [ho]
      exact hs.2
    | stopped | gaveUp => simp
    | kept => exact hs.2
    | @created va avctx v hd hf hbig =>
      rintro overlay ⟨⟩
      exact hpos v ⟨hrun, va, avctx, hd, Or.inr hbig⟩
  · rw [call, if_neg hrun]
    exact hs

/-- No overlay without a pixel is ever asked for or filled, if and only if no call finds
a frame that vanishes. -/
theorem no_empty_overlay_iff (calls : List DrawCall) (hr : ∀ c ∈ calls, c.Sound) :
    Along call (fun s c => ∀ v, Reaches s c v → 0 < v.w ∧ 0 < v.h) init calls ↔
      Along call (fun s c => s.status = .running → ¬ c.FindsVanishing) init calls := by
  have hsound : Along call (fun _ c => c.Sound) init calls :=
    along_of_forall_mem init fun _ c hc => hr c hc
  have hinit : Filled init := ⟨cached_init, by simp [init]⟩
  refine along_iff_under (J := Filled) (fun s c hs hr => reaches_positive_iff hs hr) ?_ hinit hsound
  intro s c hs hr hq
  exact call_filled hs ((reaches_positive_iff hs hr).mpr hq)

def frameOf (width height : Int32) (clientRect : Rect) : DrawCall where
  context := some ⟨none, some ⟨0, width, height, true, true⟩, some 0, clientRect, true, true⟩
  screen := ⟨1, 1024, 768⟩
  width := 1024
  height := 768
  sdl := ⟨true, 1⟩

section FrameOf

variable {width height : Int32} {clientRect : Rect}

theorem frameOf_finds {va : VAContext} {avctx : AVCodecContext}
    (h : (frameOf width height clientRect).Finds va avctx) :
    va.clientRect = clientRect ∧ avctx = ⟨0, width, height, true, true⟩ := by
  obtain ⟨hc, -, -, ha⟩ := h
  cases hc
  cases ha
  exact ⟨rfl, rfl⟩

theorem frameOf_sound
    (h : InRange ⟨0, width, height, true, true⟩ clientRect (frameOf width height clientRect)) :
    (frameOf width height clientRect).Sound := by
  intro va avctx hfinds
  obtain ⟨hrect, rfl⟩ := frameOf_finds hfinds
  rwa [hrect]

theorem frameOf_not_vanishing
    (h : ¬ Vanishes width.toInt height.toInt clientRect.toInts 1024 768 1024 768) :
    ¬ (frameOf width height clientRect).FindsVanishing := by
  rintro ⟨va, avctx, hfinds, hvanishes⟩
  obtain ⟨hrect, rfl⟩ := frameOf_finds hfinds
  rw [hrect] at hvanishes
  exact h hvanishes

end FrameOf

/-- An ordinary film in its window, and then in the minimised one. -/
theorem no_empty_overlay_film :
    Along call (fun s c => ∀ v, Reaches s c v → 0 < v.w ∧ 0 < v.h) init
      [frameOf 320 240 ⟨0, 0, 640, 480⟩, frameOf 320 240 ⟨0, 0, 0, 0⟩] := by
  refine (no_empty_overlay_iff _ ?_).mpr ?_
  · rw [List.forall_mem_cons, List.forall_mem_singleton]
    exact ⟨frameOf_sound ⟨by decide, by decide, by decide, by decide⟩,
      frameOf_sound ⟨by decide, by decide, by decide, by decide⟩⟩
  · exact ⟨fun _ => frameOf_not_vanishing (by decide), fun _ => frameOf_not_vanishing (by decide),
      trivial⟩

/-- An icon of sixteen pixels in a minimised window: an overlay of nothing is created,
filled and displayed. -/
theorem icon_minimised :
    (frameOf 16 16 ⟨0, 0, 0, 0⟩).Sound ∧
    (call init (frameOf 16 16 ⟨0, 0, 0, 0⟩)).effects =
      [.createOverlay ⟨0, 0, 0, 1⟩,
        .convert (some ⟨0, 0, 0, 1⟩) ⟨0, 16, 16, true, true⟩ (some 0) 0 0,
        .display (some ⟨0, 0, 0, 1⟩) ⟨0, 0, 0, 0⟩] ∧
    Reaches init (frameOf 16 16 ⟨0, 0, 0, 0⟩) ⟨0, 0, 0, 0⟩ := by
  refine ⟨frameOf_sound ⟨by decide, by decide, by decide, by decide⟩, by decide, ?_⟩
  exact ⟨rfl, _, _, ⟨⟨rfl, rfl, rfl, rfl⟩, by decide⟩, Or.inr (by decide)⟩

end VmPlayback.Playback
