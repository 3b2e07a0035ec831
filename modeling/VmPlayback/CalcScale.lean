import Mathlib.Tactic

namespace VmPlayback

structure Rect where
  l : Int32
  t : Int32
  w : Int32
  h : Int32
  deriving DecidableEq, Repr

structure Surface where
  ptr : ℕ
  w : Int32
  h : Int32
  deriving DecidableEq, Repr

/-- Division of `int`s.  The processor traps on a zero divisor and on the one
quotient that does not fit. -/
def cdiv (a b : Int32) : Option Int32 :=
  if b = 0 ∨ (a = Int32.minValue ∧ b = -1) then none else some (a / b)

theorem cdiv_of_pos (a : Int32) {b : Int32} (h : 0 < b) : cdiv a b = some (a / b) := by
  apply if_neg
  rintro (rfl | ⟨-, rfl⟩)
  · exact absurd h (by decide)
  · exact absurd h (by decide)

def clampWindow (window : Int32) : Int32 :=
  let window := if window < 0 then 0 else window
  if window > 2000 then 2000 else window

/-- The rectangle of the video inside the client rectangle, in guest coordinates. -/
def innerRect (videow videoh : Int32) (clientRect : Rect) : Option Rect := do
  let windoww := clampWindow clientRect.w
  let windowh := clampWindow clientRect.h
  if windoww * videoh > windowh * videow then
    let nwindoww ← cdiv (videow * windowh) videoh
    let nwindowh := windowh
    return ⟨clientRect.l + (windoww - nwindoww) / 2, clientRect.t + (windowh - nwindowh) / 2,
      nwindoww, nwindowh⟩
  else
    let nwindowh ← cdiv (videoh * windoww) videow
    let nwindoww := windoww
    return ⟨clientRect.l + (windoww - nwindoww) / 2, clientRect.t + (windowh - nwindowh) / 2,
      nwindoww, nwindowh⟩

def calcScale (videow videoh : Int32) (clientRect : Rect) (screen : Surface)
    (reswidth resheight : Int32) : Option Rect := do
  let n ← innerRect videow videoh clientRect
  let vl ← cdiv (n.l * screen.w) reswidth
  let vt ← cdiv (n.t * screen.h) resheight
  let vw ← cdiv (n.w * screen.w) reswidth
  let vh ← cdiv (n.h * screen.h) resheight
  return ⟨vl, vt, vw, vh⟩

/-- Neither division by a video dimension traps when both are positive. -/
theorem innerRect_isSome {videow videoh : Int32} (hw : 0 < videow) (hh : 0 < videoh)
    (clientRect : Rect) : (innerRect videow videoh clientRect).isSome = true := by
  unfold innerRect
  dsimp only
  -- each branch divides by one of the two
  split
  · rw [cdiv_of_pos _ hh]
    rfl
  · rw [cdiv_of_pos _ hw]
    rfl

end VmPlayback
