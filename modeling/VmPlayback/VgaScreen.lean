import VmPlayback.VgaBus
import VmPlayback.VgaText

namespace VmPlayback.Vga

open Transducer

/-- The device, its display, and the registers at the last refresh that drew, which
are no part of the program. -/
structure VgaScreen where
  dev : VGADevice
  disp : Refresh
  seen : Option VGAState

/-- What happens to the device: an access of the guest, a byte written to the linear
frame buffer, `vga_invalidate_display`, and the timer of the display. -/
inductive ScreenOp where
  | bus (op : BusOp)
  | lfb (addr : ℕ) (val : UInt8)
  | invalidate
  | refresh
  deriving DecidableEq

def Refresh.invalidate (r : Refresh) : Refresh :=
  { r with lastWidth := 0xffffffff, lastHeight := 0xffffffff }

namespace VgaScreen

variable (o : ByteOrder) (m : VgaScreen)

/-- The answer is what the hook at the end of `vga_draw_graphic` is called with. -/
def vgaUpdateDisplay : Except Halt (Option (Int32 × Int32) × VgaScreen) :=
  let mode := m.dev.regs.graphicMode
  let full := decide (m.disp.graphicMode ≠ some mode)
  let disp := { m.disp with graphicMode := some mode }
  match mode with
  | .text => do
    let (dev, disp) ← vgaDrawText o full m.dev disp
    return (none, ⟨dev, disp, m.seen⟩)
  | .graph => do
    let (dev, disp) ← vgaDrawGraphic o full m.dev disp
    return (m.dev.regs.vgaDrawGraphic, ⟨dev, disp, some m.dev.regs⟩)
  | .blank => do
    let (dev, disp) ← vgaDrawBlank full m.dev disp
    return (none, ⟨dev, disp, m.seen⟩)

def step : ScreenOp → Except Halt (Option (Int32 × Int32) × VgaScreen)
  | .bus op =>
    match m.dev.busStep o op with
    | .ok (_, dev) => .ok (none, { m with dev })
    | .error f => .error (.fault f)
  | .lfb addr val =>
    if addr < m.dev.size then
      let dev := { m.dev with vram := m.dev.vram.store addr [val] }.setDirty addr
      .ok (none, { m with dev })
    else .ok (none, m)
  | .invalidate => .ok (none, { m with disp := m.disp.invalidate })
  | .refresh => m.vgaUpdateDisplay o

def reset (vram : Mem) (latch : BitVec 32) (dirty : ℕ → Bool) (pixels : Raster) : VgaScreen :=
  ⟨.reset vram latch dirty, .reset pixels, none⟩

end VgaScreen

theorem Surface.Alike.shared {surface surface' : Surface} (h : surface.Alike surface')
    {data bytes width linesize : ℕ} (hs : surface' = .shared data bytes width linesize) :
    surface = .shared data bytes width linesize := by
  rcases h with rfl | ⟨w, h, px, px', -, h⟩
  · exact hs
  · rw [h] at hs
    cases hs

namespace Frame

variable (f : Frame) (o : ByteOrder)

def columns : Surface → ℕ
  | .own .. => f.kind.columns f.width
  | .shared _ _ width _ => width

def picture (vram : Mem) (surface : Surface) (y : ℕ) : List UInt32 :=
  match surface with
  | .own .. => drawLine o f.colours vram f.kind (f.addr y).toNat f.width
  | .shared .. => (surface.pixels vram).row y (f.columns surface)

def pages (y : ℕ) : Set ℕ := {p | ∃ i < f.bwidth, p = ((f.addr y).toNat + i) / pageSize}

/-- If the surface is the video memory itself, its lines are those of the loop. -/
def Follows : Surface → Prop
  | .own .. => True
  | .shared data bytes width linesize =>
    f.kind = (if bytes = 2 then .line16 else .line32) ∧ f.width = width ∧
      ∀ y < f.height, (f.addr y).toNat = data + y * linesize

instance : ∀ surface, Decidable (f.Follows surface)
  | .own .. => isTrue trivial
  | .shared .. => inferInstanceAs (Decidable (_ ∧ _ ∧ _))

/-- The marks of a line's first two pages and its last are all of its marks. -/
structure Watchable (surface : Surface) : Prop where
  narrow : ∀ y < f.height, f.page1 (f.addr y) ≤ page0 (f.addr y) + 2
  follows : f.Follows surface

instance (surface : Surface) : Decidable (f.Watchable surface) :=
  decidable_of_iff ((∀ y < f.height, f.page1 (f.addr y) ≤ page0 (f.addr y) + 2) ∧ f.Follows surface)
    ⟨fun h => ⟨h.1, h.2⟩, fun h => ⟨h.narrow, h.follows⟩⟩

def Safe (size : ℕ) (surface : Surface) : Prop :=
  ∀ y < f.height, f.OnPages size (f.addr y) ∧ f.drawFault size y (f.addr y) surface = none

variable {f o} {surface : Surface}

theorem Watchable.alike (h : f.Watchable surface) {surface' : Surface}
    (ha : surface.Alike surface') : f.Watchable surface' := by
  rcases ha with rfl | ⟨w, h', px, px', rfl, rfl⟩
  · exact h
  · exact ⟨h.narrow, trivial⟩

theorem Safe.alike {size : ℕ} (h : f.Safe size surface) {surface' : Surface}
    (ha : surface.Alike surface') : f.Safe size surface' := fun y hy =>
  ⟨(h y hy).1, (drawFault_alike ha y _).trans (h y hy).2⟩

theorem picture_alike {surface' : Surface} (ha : surface.Alike surface') (vram : Mem) :
    f.picture o vram surface' = f.picture o vram surface := by
  rcases ha with rfl | ⟨w, h, px, px', rfl, rfl⟩
  · rfl
  · rfl

theorem columns_alike {surface' : Surface} (ha : surface.Alike surface') :
    f.columns surface' = f.columns surface := by
  rcases ha with rfl | ⟨w, h, px, px', rfl, rfl⟩
  · rfl
  · rfl

/-- What a line on a surface of its own is drawn from is inside the memory. -/
theorem Safe.bytes {size w h : ℕ} {px : Raster} (hsafe : f.Safe size (.own w h px)) {y : ℕ}
    (hy : y < f.height) : (f.addr y).toNat + f.kind.bytes f.width ≤ size := by
  have hnone := (hsafe y hy).2
  simp only [drawFault] at hnone
  split at hnone
  · cases hnone
  · next hle => exact Nat.not_lt.mp hle

theorem Watchable.picture_congr (h : f.Watchable surface) {size : ℕ} (hsize : size < 2 ^ 32)
    (hsafe : f.Safe size surface) {m m' : Mem} {y : ℕ} (hy : y < f.height)
    (hm : ∀ i < f.bwidth, m ((f.addr y).toNat + i) = m' ((f.addr y).toNat + i)) :
    f.picture o m surface y = f.picture o m' surface y := by
  cases surface with
  | own w h' px =>
    have hbytes := hsafe.bytes hy
    have hle : f.kind.bytes f.width ≤ f.bwidth := f.kind.bytes_le (by omega)
    exact drawLine_congr f.kind fun i hi => hm i (by omega)
  | shared data bytes width linesize =>
    obtain ⟨hkind, hwidth, haddr⟩ := h.follows
    refine Raster.row_congr fun x hx => ?_
    simp only [columns] at hx
    rw [haddr y hy, bwidth, hkind, hwidth] at hm
    simp only [Surface.pixels]
    split
    · next h2 =>
      simp only [h2, if_true, DrawLine.bits] at hm
      simp only [pixel16, lduw, Nat.add_assoc]
      simp only [Nat.add_assoc] at hm
      rw [hm _ (by omega), hm _ (by omega)]
    · next h2 =>
      simp only [h2, if_false, DrawLine.bits] at hm
      simp only [pixel24, Nat.add_assoc]
      simp only [Nat.add_assoc] at hm
      rw [hm _ (by omega), hm _ (by omega), hm _ (by omega)]

theorem page1_eq {a : UInt32} (hpos : 0 < f.bwidth) (hlt : a.toNat + f.bwidth < 2 ^ 32) :
    f.page1 a = (a.toNat + f.bwidth - 1) / pageSize := by
  have hword : UInt32.size = 2 ^ 32 := rfl
  have hone : (1 : UInt32).toNat = 1 := rfl
  have hw : (UInt32.ofNat f.bwidth).toNat = f.bwidth := UInt32.toNat_ofNat_of_lt (by omega)
  have hsum : (a + UInt32.ofNat f.bwidth - 1).toNat = a.toNat + f.bwidth - 1 := by
    rw [UInt32.toNat_sub, UInt32.toNat_add, hw, hone]
    omega
  rw [page1, hsum]

/-- A line that is left out has no page that was written. -/
theorem Watchable.clean (h : f.Watchable surface) {full : Bool} {dirty invalidated : ℕ → Bool}
    {y : ℕ} (hy : y < f.height) (hlt : (f.addr y).toNat + f.bwidth < 2 ^ 32)
    (hkept : f.drawn full dirty invalidated y = false) :
    Disjoint (f.pages y) {p | dirty p = true} := by
  rw [Set.disjoint_left]
  rintro p ⟨i, hi, rfl⟩ (hp : dirty _ = true)
  have hnarrow := h.narrow y hy
  simp only [drawn, update, Bool.or_eq_false_iff, Bool.and_eq_false_iff,
    decide_eq_false_iff_not] at hkept
  obtain ⟨⟨⟨⟨-, h0⟩, h1⟩, hwide⟩, -⟩ := hkept
  simp only [Wide] at hwide
  rw [page1_eq (by omega) hlt] at h1 hwide hnarrow
  simp only [page0, pageSize] at *
  -- the first page, the last page, or the one between them
  have hpage : ((f.addr y).toNat + i) / 4096 = (f.addr y).toNat / 4096 ∨
      ((f.addr y).toNat + i) / 4096 = ((f.addr y).toNat + f.bwidth - 1) / 4096 ∨
      ((f.addr y).toNat + i) / 4096 = (f.addr y).toNat / 4096 + 1 ∧
        (f.addr y).toNat / 4096 + 1 < ((f.addr y).toNat + f.bwidth - 1) / 4096 := by omega
  rcases hpage with hpage | hpage | ⟨hpage, hlt⟩
  · rw [hpage, h0] at hp
    cases hp
  · rw [hpage, h1] at hp
    cases hp
  · rcases hwide with hwide | hwide
    · exact absurd (Or.inr hlt) hwide
    · rw [hpage, hwide] at hp
      cases hp

end Frame

section

variable {px : Raster} {n y x : ℕ} {rects : List (ℕ × ℕ)}

theorem dpyUpdates_of_not_spans (screen : Raster) (h : ¬ Redraw.Spans rects y) :
    dpyUpdates px n rects screen y x = screen y x := by
  induction rects generalizing screen with
  | nil => rfl
  | cons r rects ih =>
    have hr : ¬ (⟨0, r.1, n, r.2⟩ : Box).Holds y x := fun hr =>
      h ⟨r, List.mem_cons_self, hr.1, hr.2.1⟩
    have hrest : ¬ Redraw.Spans rects y := fun ⟨r', hr', hy⟩ =>
      h ⟨r', List.mem_cons_of_mem r hr', hy⟩
    calc dpyUpdates px n (r :: rects) screen y x
        = dpyUpdates px n rects (dpyUpdate px ⟨0, r.1, n, r.2⟩ screen) y x := rfl
      _ = dpyUpdate px ⟨0, r.1, n, r.2⟩ screen y x := ih _ hrest
      _ = screen y x := if_neg hr

theorem dpyUpdates_of_spans (screen : Raster) (hx : x < n) (h : Redraw.Spans rects y) :
    dpyUpdates px n rects screen y x = px y x := by
  induction rects generalizing screen with
  | nil => exact absurd h (Redraw.spans_nil y)
  | cons r rects ih =>
    by_cases hrest : Redraw.Spans rects y
    · exact ih _ hrest
    · obtain ⟨r', hr', hy⟩ := h
      rcases List.mem_cons.mp hr' with rfl | hr'
      · refine (dpyUpdates_of_not_spans _ hrest).trans (if_pos ?_)
        exact ⟨hy.1, hy.2, Nat.zero_le x, by simpa using hx⟩
      · exact absurd ⟨r', hr', hy⟩ hrest

end

namespace Frame

variable {f : Frame} {o : ByteOrder} {full : Bool} {dirty invalidated : ℕ → Bool} {vram : Mem}
variable {surface : Surface}

/-- What the loop has put into the surface is what the memory has. -/
theorem loop_row {y : ℕ} (hy : y < f.height) (hd : f.drawn full dirty invalidated y = true) :
    Raster.row ((f.loop o full dirty invalidated vram surface f.height).surface.pixels vram) y
      (f.columns surface) = f.picture o vram surface y := by
  cases surface with
  | own w h px =>
    rw [loop_own]
    simp only [Surface.pixels, Raster.row, hy, hd, and_self, if_true]
    rw [columns, ← length_drawLine (o := o) (c := f.colours) (m := vram) f.kind (f.addr y).toNat]
    exact px.row_getD y _
  | shared data bytes width linesize =>
    rw [loop_shared]
    rfl

/-- The screen after the loop, if it was up to date where the marks are not. -/
theorem loop_shows (invalidated : ℕ → Bool) (h : f.Watchable surface)
    (hlt : ∀ y < f.height, (f.addr y).toNat + f.bwidth < 2 ^ 32)
    (hcolumns : ∀ y < f.height, f.columns surface ≤ f.dispWidth) {screen : Raster}
    (hfresh : full = true ∨ Redraw.Fresh (fun m => f.picture o m surface) {y | y < f.height} f.pages
      {p | dirty p = true} vram fun y => screen.row y (f.columns surface)) :
    let l := f.loop o full dirty invalidated vram surface f.height
    ∀ y < f.height, (f.flush (l.surface.pixels vram) l screen).row y (f.columns surface) =
      f.picture o vram surface y := by
  intro l y hy
  have hrects : Redraw.Maximal (f.drawn full dirty invalidated) f.height (f.rectangles l) :=
    rectangles_maximal surface
  cases hd : f.drawn full dirty invalidated y with
  | true =>
    rw [← loop_row hy hd]
    refine Raster.row_congr fun x hx => ?_
    exact dpyUpdates_of_spans screen (lt_of_lt_of_le hx (hcolumns y hy))
      ((hrects.spans y).mpr ⟨hy, hd⟩)
  | false =>
    have hspans : ¬ Redraw.Spans (f.rectangles l) y := by
      rw [hrects.spans]
      rintro ⟨-, ht⟩
      rw [hd] at ht
      cases ht
    rcases hfresh with rfl | hfresh
    · simp [drawn, update] at hd
    · refine Eq.trans ?_ (hfresh y hy (h.clean hy (hlt y hy) hd))
      exact Raster.row_congr fun x _ => dpyUpdates_of_not_spans screen hspans

end Frame

namespace VGAState

/-- What `vga_draw_graphic` uses and does not compare with the last time. -/
def untracked (s : VGAState) : UInt8 × UInt8 × UInt8 × UInt8 :=
  (s.cr 0x17, s.cr 0x09 &&& 0x1f, s.ar 0x12 &&& 0x0f, s.sr 0x01 &&& 8)

def linePalette (s : VGAState) : DrawLine → ℕ × (ℕ → UInt32)
  | .line2 | .line2d2 | .line4 | .line4d2 => (16, s.palette16)
  | .line8 | .line8d2 => (256, s.palette256)
  | .line15 | .line16 | .line24 | .line32 => (0, fun _ => 0)

theorem width_lt (s : VGAState) : s.width.toNat < 2 ^ 16 := by
  unfold width VGACommonState.vgaGetResolution
  split
  · have hlt := (s.vbeRegs .xres).toNat_lt
    simpa using hlt
  · have hlt := (s.cr 0x01).toNat_lt
    have heq : (((s.cr 0x01).toUInt32.toInt32 + 1) * 8).toUInt32 = ((s.cr 0x01).toUInt32 + 1) * 8 :=
      rfl
    have hone : (1 : UInt32).toNat = 1 := rfl
    have height : (8 : UInt32).toNat = 8 := rfl
    rw [heq, UInt32.toNat_mul, UInt32.toNat_add, UInt8.toNat_toUInt32, hone, height]
    omega

/-- The pixels of a planar line are doubled, or the width is what is shown. -/
theorem dispWidth_toNat (s : VGAState) :
    s.dispWidth.toNat = if (s.shiftControl = 0 ∨ s.shiftControl = 1) ∧ s.sr 0x01 &&& 8 ≠ 0 then
      2 * s.width.toNat else s.width.toNat := by
  have hlt := s.width_lt
  unfold dispWidth
  split
  · rw [UInt32.toNat_shiftLeft, Nat.shiftLeft_eq]
    have hone : (1 : UInt32).toNat % 32 = 1 := rfl
    rw [hone]
    omega
  · rfl

theorem width_le_dispWidth (s : VGAState) : s.width.toNat ≤ s.dispWidth.toNat := by
  rw [s.dispWidth_toNat]
  split <;> omega

theorem doubled_of_kind {s : VGAState} (h : s.kind = .line2d2 ∨ s.kind = .line4d2) :
    (s.shiftControl = 0 ∨ s.shiftControl = 1) ∧ s.sr 0x01 &&& 8 ≠ 0 := by
  unfold kind at h
  split at h
  · next h0 =>
    split at h
    · next h8 => exact ⟨.inl h0, h8⟩
    · simp at h
  · split at h
    · next h1 =>
      split at h
      · next h8 => exact ⟨.inr h1, h8⟩
      · simp at h
    · split_ifs at h <;> simp at h

theorem columns_le_dispWidth (s : VGAState) (h : s.kind.bytes s.width.toNat < 2 ^ 32) :
    s.kind.columns s.width.toNat ≤ s.dispWidth.toNat := by
  refine (s.kind.columns_le h).trans ?_
  split
  · next hd => rw [s.dispWidth_toNat, if_pos (doubled_of_kind hd)]
  · exact s.width_le_dispWidth

/-- So the size of an invalidated display is never the size of a mode. -/
theorem dispWidth_ne (s : VGAState) : s.dispWidth ≠ 0xffffffff := by
  intro h
  have hlt := s.width_lt
  have heq := s.dispWidth_toNat
  have hspoilt : (0xffffffff : UInt32).toNat = 2 ^ 32 - 1 := rfl
  rw [h, hspoilt] at heq
  split at heq <;> omega

end VGAState

/-- The display was last refreshed with these registers; an invalidation since then has
spoilt the size. -/
structure Refresh.Synced (r : Refresh) (s : VGAState) : Prop where
  offsets : (r.lineOffset, r.startAddr, r.lineCompare) = s.vgaGetOffsets
  shift : r.shiftControl = s.shiftControl
  double : r.doubleScan = s.doubleScan
  depth : r.lastDepth = s.vgaGetBpp
  size : r.lastWidth = s.dispWidth ∧ r.lastHeight = s.height ∨ r.lastWidth = 0xffffffff
  data : ∀ data bytes width linesize, r.surface = .shared data bytes width linesize →
    data = (r.startAddr * 4).toNat
  palette : ∀ i < (s.linePalette s.kind).1, r.lastPalette i = (s.linePalette s.kind).2 i

namespace Refresh

variable {r : Refresh} {s s₀ : VGAState} {o : ByteOrder} {full : Bool}

theorem updateBasicParams_eq (r : Refresh) (s : VGAState) : r.updateBasicParams s =
    (decide ((r.lineOffset, r.startAddr, r.lineCompare) ≠ s.vgaGetOffsets),
      { r with
        lineOffset := s.vgaGetOffsets.1
        startAddr := s.vgaGetOffsets.2.1
        lineCompare := s.vgaGetOffsets.2.2 }) := by
  rcases hoff : s.vgaGetOffsets with ⟨lineOffset, startAddr, lineCompare⟩
  simp only [updateBasicParams, hoff]
  by_cases h : (r.lineOffset, r.startAddr, r.lineCompare) = (lineOffset, startAddr, lineCompare)
  · simp only [Prod.mk.injEq] at h
    obtain ⟨rfl, rfl, rfl⟩ := h
    simp
  · have hne : lineOffset ≠ r.lineOffset ∨ startAddr ≠ r.startAddr ∨
        lineCompare ≠ r.lineCompare := by
      by_contra hall
      push Not at hall
      exact h (by simp [hall])
    rw [if_pos hne, decide_eq_true h]

theorem updateShift_eq (r : Refresh) (s : VGAState) : r.updateShift s =
    (decide (s.shiftControl ≠ r.shiftControl ∨ s.doubleScan ≠ r.doubleScan),
      { r with shiftControl := s.shiftControl, doubleScan := s.doubleScan }) := by
  unfold updateShift
  split
  · next h => rw [decide_eq_true h]
  · next h =>
    rw [decide_eq_false h]
    push Not at h
    rw [h.1, h.2]

/-- The surface after `updateSurface` is the one of these registers. -/
theorem updateSurface_synced (r : Refresh) (s : VGAState) (o : ByteOrder) (full : Bool) :
    let r' := (r.updateSurface s o full).2
    (r'.lastWidth = s.dispWidth ∧ r'.lastHeight = s.height) ∧ r'.lastDepth = s.vgaGetBpp ∧
      ∀ data bytes width linesize, r'.surface = .shared data bytes width linesize →
        data = (r.startAddr * 4).toNat := by
  unfold updateSurface
  split
  · refine ⟨⟨rfl, rfl⟩, rfl, fun data bytes width linesize h => ?_⟩
    simp only [newSurface] at h
    split at h
    · cases h
      rfl
    · cases h
  · next hsame =>
    push Not at hsame
    obtain ⟨-, hw, hh, hd⟩ := hsame
    cases hr : r.surface with
    | own w h px =>
      refine ⟨⟨hw.symm, hh.symm⟩, hd, fun data bytes width linesize h => ?_⟩
      simp only [hr] at h
      cases h
    | shared old bytes width linesize =>
      dsimp only
      split
      · refine ⟨⟨hw.symm, hh.symm⟩, hd, fun data bytes width linesize h => ?_⟩
        cases h
        rfl
      · next hold =>
        refine ⟨⟨hw.symm, hh.symm⟩, hd, fun data bytes width linesize h => ?_⟩
        push Not at hold
        rw [hr] at h
        cases h
        exact hold.2

/-- What `updateSurface` leaves alone. -/
theorem updateSurface_other (r : Refresh) (s : VGAState) (o : ByteOrder) (full : Bool) :
    let r' := (r.updateSurface s o full).2
    r'.lineOffset = r.lineOffset ∧ r'.startAddr = r.startAddr ∧ r'.lineCompare = r.lineCompare ∧
      r'.shiftControl = r.shiftControl ∧ r'.doubleScan = r.doubleScan ∧
      r'.graphicMode = r.graphicMode := by
  unfold updateSurface
  split
  · exact ⟨rfl, rfl, rfl, rfl, rfl, rfl⟩
  · cases r.surface with
    | own w h px => exact ⟨rfl, rfl, rfl, rfl, rfl, rfl⟩
    | shared old bytes width linesize =>
      dsimp only
      split
      · exact ⟨rfl, rfl, rfl, rfl, rfl, rfl⟩
      · exact ⟨rfl, rfl, rfl, rfl, rfl, rfl⟩

theorem updatePalette_eq (r : Refresh) (s : VGAState) :
    r.updatePalette s = r.setPalette (s.linePalette s.kind).1 (s.linePalette s.kind).2 := by
  unfold updatePalette VGAState.linePalette
  cases s.kind with
  | line15 | line16 | line24 | line32 => simp [setPalette]
  | _ => rfl

theorem prepare_eq (r : Refresh) (s : VGAState) (o : ByteOrder) (full : Bool) :
    r.prepare s o full =
      let c₁ := decide ((r.lineOffset, r.startAddr, r.lineCompare) ≠ s.vgaGetOffsets)
      let c₂ := decide (s.shiftControl ≠ r.shiftControl ∨ s.doubleScan ≠ r.doubleScan)
      let u := { r with
        lineOffset := s.vgaGetOffsets.1
        startAddr := s.vgaGetOffsets.2.1
        lineCompare := s.vgaGetOffsets.2.2
        shiftControl := s.shiftControl
        doubleScan := s.doubleScan }.updateSurface s o (full || c₁ || c₂)
      let v := u.2.updatePalette s
      (full || c₁ || c₂ || u.1 || v.1, v.2) := by
  simp only [prepare, updateBasicParams_eq, updateShift_eq]

theorem prepare_synced (r : Refresh) (s : VGAState) (o : ByteOrder) (full : Bool) :
    (r.prepare s o full).2.Synced s ∧ (r.prepare s o full).2.graphicMode = r.graphicMode ∧
      (r.prepare s o full).2.lastWidth = s.dispWidth ∧
      (r.prepare s o full).2.lastHeight = s.height := by
  rw [prepare_eq]
  simp only [updatePalette_eq, setPalette]
  generalize hr' : ({ r with
    lineOffset := s.vgaGetOffsets.1
    startAddr := s.vgaGetOffsets.2.1
    lineCompare := s.vgaGetOffsets.2.2
    shiftControl := s.shiftControl
    doubleScan := s.doubleScan } : Refresh) = r'
  generalize (full || _ || _) = full'
  obtain ⟨hsize, hdepth, hdata⟩ := r'.updateSurface_synced s o full'
  obtain ⟨h1, h2, h3, h4, h5, h6⟩ := r'.updateSurface_other s o full'
  subst hr'
  refine ⟨⟨?_, h4, h5, hdepth, .inl hsize, ?_, fun i hi => if_pos hi⟩, h6, hsize⟩
  · simp only [h1, h2, h3]
  · intro data bytes width linesize h
    simp only [h2]
    exact hdata data bytes width linesize h

theorem updateSurface_kept (hdata : ∀ data bytes width linesize,
      r.surface = .shared data bytes width linesize → data = (r.startAddr * 4).toNat)
    (h : (r.updateSurface s o false).1 = false) :
    (r.updateSurface s o false).2 = r ∧ r.lastWidth = s.dispWidth ∧ r.lastHeight = s.height ∧
      r.lastDepth = s.vgaGetBpp := by
  unfold updateSurface at h ⊢
  split at h
  · cases h
  · next hsame =>
    rw [if_neg hsame]
    push Not at hsame
    obtain ⟨-, hw, hh, hd⟩ := hsame
    refine ⟨?_, hw.symm, hh.symm, hd⟩
    cases hr : r.surface with
    | own w h px => rfl
    | shared old bytes width linesize =>
      rw [hdata old bytes width linesize hr]
      simp

theorem updatePalette_kept (h : (r.updatePalette s).1 = false) : (r.updatePalette s).2 = r := by
  simp only [updatePalette_eq, setPalette, List.any_eq_false, List.mem_range, decide_eq_true_eq,
    not_not] at h ⊢
  have hsame : (fun i => if i < (s.linePalette s.kind).1 then (s.linePalette s.kind).2 i
      else r.lastPalette i) = r.lastPalette := by
    funext i
    split
    · next hi => exact h i hi
    · rfl
  rw [hsame]

theorem flushed_frame (r : Refresh) (f : Frame) (l : Frame.Loop) (vram : Mem) (s : VGAState) :
    (r.flushed f l vram).frame s = r.frame s := rfl

/-- Drawing lines does not change the mode. -/
theorem Synced.flushed (h : r.Synced s) {l : Frame.Loop} (ha : r.surface.Alike l.surface)
    (f : Frame) (vram : Mem) : (r.flushed f l vram).Synced s :=
  ⟨h.offsets, h.shift, h.double, h.depth, h.size, fun data bytes width linesize hs =>
    h.data data bytes width linesize (ha.shared hs), h.palette⟩

/-- The frame depends on the registers through what is compared and what is not. -/
theorem frame_eq (r : Refresh) (hu : s.untracked = s₀.untracked)
    (hshift : s.shiftControl = s₀.shiftControl) (hdouble : s.doubleScan = s₀.doubleScan)
    (hdepth : s.vgaGetBpp = s₀.vgaGetBpp) (hwidth : s.dispWidth = s₀.dispWidth)
    (hheight : s.height = s₀.height) : r.frame s = r.frame s₀ := by
  simp only [VGAState.untracked, Prod.mk.injEq] at hu
  obtain ⟨hcr17, hcr9, har12, hsr1⟩ := hu
  have hkind : s.kind = s₀.kind := by
    simp only [VGAState.kind, hshift, hsr1, hdepth]
  have hmulti : s.multiScan = s₀.multiScan := by
    simp only [VGAState.multiScan, hshift, hcr9, hdouble]
  have hnat : s.width.toNat = s₀.width.toNat := by
    have hdisp := congrArg UInt32.toNat hwidth
    rw [s.dispWidth_toNat, s₀.dispWidth_toNat, hshift, hsr1] at hdisp
    split at hdisp
    · omega
    · exact hdisp
  simp only [frame, hkind, hmulti, hnat, hcr17, har12, hwidth, hheight]

/-- Nothing that is compared has changed. -/
theorem prepare_kept (hdata : ∀ data bytes width linesize,
      r.surface = .shared data bytes width linesize → data = (r.startAddr * 4).toNat)
    (hkept : (r.prepare s o full).1 = false) :
    (r.prepare s o full).2 = r ∧ s.shiftControl = r.shiftControl ∧ s.doubleScan = r.doubleScan ∧
      r.lastWidth = s.dispWidth ∧ r.lastHeight = s.height ∧ r.lastDepth = s.vgaGetBpp := by
  rw [prepare_eq] at hkept ⊢
  simp only [Bool.or_eq_false_iff, decide_eq_false_iff_not, not_not, not_or] at hkept ⊢
  obtain ⟨⟨⟨⟨rfl, hoff⟩, hshift, hdouble⟩, hsurface⟩, hpalette⟩ := hkept
  have hr : ({ r with
      lineOffset := s.vgaGetOffsets.1
      startAddr := s.vgaGetOffsets.2.1
      lineCompare := s.vgaGetOffsets.2.2
      shiftControl := s.shiftControl
      doubleScan := s.doubleScan } : Refresh) = r := by
    rw [← hoff, hshift, hdouble]
  rw [hr] at hsurface hpalette ⊢
  simp only [hoff, hshift, hdouble, ne_eq, not_true_eq_false, decide_false, or_self,
    Bool.or_self] at hsurface hpalette ⊢
  obtain ⟨hsame, hsize⟩ := updateSurface_kept hdata hsurface
  rw [hsame] at hpalette ⊢
  exact ⟨updatePalette_kept hpalette, trivial, trivial, hsize⟩

/-- Then nothing the loop works with has changed, as long as the rest has not either. -/
theorem Synced.frame_kept (h : r.Synced s₀) (hu : s.untracked = s₀.untracked)
    (hkept : (r.prepare s o full).1 = false) :
    (r.prepare s o full).2 = r ∧ r.frame s = r.frame s₀ := by
  obtain ⟨hsame, hshift, hdouble, hw, hh, hd⟩ := prepare_kept h.data hkept
  have hsize : s.dispWidth = s₀.dispWidth ∧ s.height = s₀.height := by
    rcases h.size with ⟨hw₀, hh₀⟩ | hspoilt
    · exact ⟨hw.symm.trans hw₀, hh.symm.trans hh₀⟩
    · exact absurd (hw.symm.trans hspoilt) s.dispWidth_ne
  exact ⟨hsame, frame_eq r hu (hshift.trans h.shift) (hdouble.trans h.double)
    (hd.symm.trans h.depth) hsize.1 hsize.2⟩

end Refresh

def BusOp.clears (s : VGAState) : BusOp → Bool
  | .vbeWriteData val => (s.clearSize val).isSome
  | _ => false

namespace VGADevice

/-- Marks have only been added, and memory has changed only on marked pages. -/
structure Marked (d d' : VGADevice) : Prop where
  mono : ∀ p, d.dirty p = true → d'.dirty p = true
  changed : ∀ a, d'.vram a = d.vram a ∨ d'.dirty (a / pageSize) = true

variable {o : ByteOrder} {d d' d'' : VGADevice}

theorem Marked.refl (d : VGADevice) : d.Marked d := ⟨fun _ h => h, fun _ => .inl rfl⟩

theorem Marked.trans (h : d.Marked d') (h' : d'.Marked d'') : d.Marked d'' := by
  refine ⟨fun p hp => h'.mono p (h.mono p hp), fun a => ?_⟩
  rcases h'.changed a with heq | hdirty
  · rcases h.changed a with heq' | hdirty
    · exact .inl (heq.trans heq')
    · exact .inr (h'.mono _ hdirty)
  · exact .inr hdirty

/-- Neither registers nor latches nor plane flags are memory. -/
theorem marked_of_eq (hvram : d'.vram = d.vram) (hdirty : d'.dirty = d.dirty) : d.Marked d' :=
  ⟨fun p hp => by rw [hdirty]; exact hp, fun a => .inl (by rw [hvram])⟩

theorem marked_setDirty {addr : ℕ} (hdirty : d'.dirty = d.dirty)
    (hvram : ∀ a, a / pageSize ≠ addr / pageSize → d'.vram a = d.vram a) :
    d.Marked (d'.setDirty addr) where
  mono p hp := by
    by_cases h : p = addr / pageSize
    · simp [setDirty, h]
    · simpa [setDirty, h, hdirty] using hp
  changed a := by
    by_cases h : a / pageSize = addr / pageSize
    · exact .inr (by simp [setDirty, h])
    · exact .inl (hvram a h)

theorem store_of_page_ne (vram : Mem) (addr : ℕ) (val : UInt8) {a : ℕ}
    (h : a / pageSize ≠ addr / pageSize) : vram.store addr [val] a = vram a := by
  rw [Mem.store_singleton, if_neg]
  rintro rfl
  exact h rfl

/-- A word does not cross a page. -/
theorem storeWord_of_page_ne (vram : Mem) (addr : ℕ) (w : BitVec 32) {a : ℕ}
    (h : a / pageSize ≠ 4 * addr / pageSize) :
    vram.storeWord (k := 4) o (4 * addr) w a = vram a := by
  refine Mem.storeWord_of_ne (k := 4) o vram w fun p hp => h ?_
  have hp4 := p.isLt
  simp only [pageSize]
  omega

theorem writePlane_marked {addr plane : ℕ} {val : UInt8}
    (hok : d.writePlane addr plane val = .ok d') : d.Marked d' := by
  unfold writePlane at hok
  split at hok
  · split at hok
    · cases hok
      exact marked_setDirty rfl fun a ha => store_of_page_ne d.vram addr val ha
    · cases hok
  · cases hok
    exact .refl d

theorem vgaMemWriteb_marked {addr : ℕ} {val : UInt8} (hok : d.vgaMemWriteb o addr val = .ok d') :
    d.Marked d' := by
  unfold vgaMemWriteb at hok
  cases ha : d.regs.memoryOffset addr with
  | none =>
    rw [ha] at hok
    cases hok
    exact .refl d
  | some a =>
    rw [ha] at hok
    cases hacc : d.regs.access with
    | chain4 | oddEven =>
      simp only [hacc] at hok
      exact writePlane_marked hok
    | latched =>
      simp only [hacc] at hok
      obtain ⟨w, -, hok⟩ := bind_ok hok
      obtain ⟨mask, -, hok⟩ := bind_ok hok
      obtain ⟨old, -, hok⟩ := bind_ok hok
      cases hok
      exact marked_setDirty rfl fun a' ha' => storeWord_of_page_ne d.vram a _ ha'

theorem vgaMemReadb_marked {addr : ℕ} {v : UInt8} (hok : d.vgaMemReadb o addr = .ok (v, d')) :
    d.Marked d' := by
  unfold vgaMemReadb at hok
  cases ha : d.regs.memoryOffset addr with
  | none =>
    rw [ha] at hok
    cases hok
    exact .refl d
  | some a =>
    rw [ha] at hok
    cases hacc : d.regs.access with
    | chain4 | oddEven =>
      simp only [hacc] at hok
      obtain ⟨b, -, hok⟩ := bind_ok hok
      cases hok
      exact .refl d
    | latched =>
      simp only [hacc] at hok
      obtain ⟨latch, -, hok⟩ := bind_ok hok
      obtain ⟨b, -, hok⟩ := bind_ok hok
      cases hok
      exact marked_of_eq rfl rfl

theorem readBytes_marked {addr n : ℕ} {bs : List UInt8}
    (hok : d.readBytes o addr n = .ok (bs, d')) : d.Marked d' := by
  induction n generalizing d addr bs with
  | zero =>
    cases hok
    exact .refl _
  | succ n ih =>
    obtain ⟨⟨b, d₁⟩, hone, hok⟩ := bind_ok hok
    obtain ⟨⟨bs', d₂⟩, hrest, hok⟩ := bind_ok hok
    cases hok
    exact (vgaMemReadb_marked hone).trans (ih hrest)

theorem writeBytes_marked {addr : ℕ} {bs : List UInt8} (hok : d.writeBytes o addr bs = .ok d') :
    d.Marked d' := by
  induction bs generalizing d addr with
  | nil =>
    cases hok
    exact .refl _
  | cons b bs ih =>
    obtain ⟨d₁, hone, hok⟩ := bind_ok hok
    exact (vgaMemWriteb_marked hone).trans (ih hok)

/-- The clearing of the screen is the one store that marks nothing. -/
theorem busStep_marked {op : BusOp} {v : UInt32} (hok : d.busStep o op = .ok (v, d'))
    (hclear : op.clears d.regs = false) : d.Marked d' := by
  cases op with
  | inb port =>
    obtain ⟨⟨v', s'⟩, -, hok⟩ := bind_ok hok
    cases hok
    exact marked_of_eq rfl rfl
  | outb port val =>
    obtain ⟨s', -, hok⟩ := bind_ok hok
    cases hok
    exact marked_of_eq rfl rfl
  | vbeReadIndex =>
    cases hok
    exact .refl d
  | vbeWriteIndex val =>
    cases hok
    exact marked_of_eq rfl rfl
  | vbeReadData =>
    obtain ⟨v', -, hok⟩ := bind_ok hok
    cases hok
    exact .refl d
  | vbeWriteData val =>
    obtain ⟨d₁, hwrite, hok⟩ := bind_ok hok
    cases hok
    obtain ⟨regs, -, hwrite⟩ := bind_ok hwrite
    rw [BusOp.clears, Option.isSome_eq_false_iff, Option.isNone_iff_eq_none] at hclear
    simp only [hclear] at hwrite
    cases hwrite
    exact marked_of_eq rfl rfl
  | readb addr =>
    obtain ⟨⟨v', d₁⟩, hread, hok⟩ := bind_ok hok
    cases hok
    exact vgaMemReadb_marked hread
  | readw addr =>
    rw [busStep, vgaMemReadw_eq] at hok
    obtain ⟨⟨v', d₁⟩, hword, hok⟩ := bind_ok hok
    obtain ⟨⟨bs, d₂⟩, hread, hword⟩ := bind_ok hword
    cases hword
    cases hok
    exact readBytes_marked hread
  | readl addr =>
    rw [busStep, vgaMemReadl_eq] at hok
    obtain ⟨⟨bs, d₁⟩, hread, hok⟩ := bind_ok hok
    cases hok
    exact readBytes_marked hread
  | writeb addr val =>
    obtain ⟨d₁, hwrite, hok⟩ := bind_ok hok
    cases hok
    exact vgaMemWriteb_marked hwrite
  | writew addr val =>
    rw [busStep, vgaMemWritew_eq] at hok
    obtain ⟨d₁, hwrite, hok⟩ := bind_ok hok
    cases hok
    exact writeBytes_marked hwrite
  | writel addr val =>
    rw [busStep, vgaMemWritel_eq] at hok
    obtain ⟨d₁, hwrite, hok⟩ := bind_ok hok
    cases hok
    exact writeBytes_marked hwrite

end VGADevice

section

variable {o : ByteOrder} {full : Bool} {d : VGADevice} {r : Refresh} {p : VGADevice × Refresh}

theorem vgaDrawBlank_regs (hok : vgaDrawBlank full d r = .ok p) : p.1.regs = d.regs := by
  unfold vgaDrawBlank at hok
  split at hok
  · cases hok
    rfl
  · dsimp only at hok
    split at hok <;> split at hok <;> cases hok <;> rfl

theorem vgaDrawBlank_graphicMode (hok : vgaDrawBlank full d r = .ok p) :
    p.2.graphicMode = r.graphicMode := by
  unfold vgaDrawBlank at hok
  split at hok
  · cases hok
    rfl
  · dsimp only at hok
    split at hok <;> split at hok <;> cases hok <;> rfl

theorem drawPage_ok (hok : drawPage o full d r = .ok p) :
    p.1 = d ∧ p.2.graphicMode = r.graphicMode := by
  unfold drawPage at hok
  split at hok
  · obtain ⟨l, -, hok⟩ := bind_ok hok
    cases hok
    exact ⟨rfl, rfl⟩
  · cases hok

theorem vgaDrawText_regs (hok : vgaDrawText o full d r = .ok p) : p.1.regs = d.regs := by
  unfold vgaDrawText at hok
  dsimp only at hok
  split at hok
  · cases hok
    rfl
  · rw [(drawPage_ok hok).1]
    rfl

theorem locateText_eq (r : Refresh) (s : VGAState) :
    (r.locateText s).2 = { r with
      fontOffset0 := s.fontOffset0
      fontOffset1 := s.fontOffset1
      lineOffset := s.vgaGetOffsets.1
      startAddr := s.vgaGetOffsets.2.1
      lineCompare := s.vgaGetOffsets.2.2 } := by
  simp only [Refresh.locateText, Refresh.updateFonts, Refresh.updateBasicParams_eq]

theorem prepareText_eq (r : Refresh) (s : VGAState) (full : Bool) :
    (r.prepareText s full).2 =
      ((r.resizeText s.vgaGetTextResolution).2.updatePalette16 s).2.moveCursor s := rfl

theorem prepareText_other (r : Refresh) (s : VGAState) (full : Bool) :
    (r.prepareText s full).2.graphicMode = r.graphicMode ∧
      (r.prepareText s full).2.fontOffset0 = r.fontOffset0 ∧
      (r.prepareText s full).2.fontOffset1 = r.fontOffset1 := by
  have hresize : (r.resizeText s.vgaGetTextResolution).2.graphicMode = r.graphicMode ∧
      (r.resizeText s.vgaGetTextResolution).2.fontOffset0 = r.fontOffset0 ∧
      (r.resizeText s.vgaGetTextResolution).2.fontOffset1 = r.fontOffset1 := by
    unfold Refresh.resizeText
    split <;> exact ⟨rfl, rfl, rfl⟩
  rw [prepareText_eq]
  generalize (r.resizeText s.vgaGetTextResolution).2 = r' at hresize
  exact hresize

theorem vgaDrawText_graphicMode (hok : vgaDrawText o full d r = .ok p) :
    p.2.graphicMode = r.graphicMode := by
  unfold vgaDrawText at hok
  dsimp only at hok
  split at hok
  · cases hok
    rw [locateText_eq]
  · rw [(drawPage_ok hok).2, (prepareText_other _ _ _).1, locateText_eq]

end

theorem DrawLine.bits_le (v : DrawLine) : v.bits ≤ 32 := by
  cases v <;> decide

theorem VGADevice.size_eq {d : VGADevice} (h : d.regs.WellFormed) : d.size = 2 ^ 24 := by
  rw [size, h.common.vramSize_eq]
  rfl

namespace Refresh

variable (r : Refresh) (s : VGAState)

theorem frame_bwidth_le : (r.frame s).bwidth ≤ 2 ^ 18 := by
  have hwidth := s.width_lt
  have hmul : s.width.toNat * s.kind.bits ≤ 2 ^ 16 * 32 :=
    Nat.mul_le_mul hwidth.le s.kind.bits_le
  have heq : (r.frame s).bwidth = (s.width.toNat * s.kind.bits + 7) / 8 := rfl
  rw [heq]
  omega

/-- The surface has the columns a line takes. -/
theorem frame_columns_le {size : ℕ} (hsize : size < 2 ^ 32) {surface : Surface}
    (hsafe : (r.frame s).Safe size surface) (hfollows : (r.frame s).Follows surface) {y : ℕ}
    (hy : y < (r.frame s).height) : (r.frame s).columns surface ≤ (r.frame s).dispWidth := by
  cases surface with
  | shared data bytes width linesize =>
    obtain ⟨-, rfl, -⟩ := hfollows
    exact s.width_le_dispWidth
  | own w h px =>
    have hbytes := hsafe.bytes hy
    exact s.columns_le_dispWidth (lt_of_le_of_lt (Nat.le_of_add_left_le hbytes) hsize)

end Refresh

namespace VgaScreen

variable (o : ByteOrder) (m : VgaScreen)

/-- The mode a refresh would draw with, and whether it would draw everything. -/
def prepared : Bool × Refresh :=
  Refresh.prepare m.dev.regs { m.disp with graphicMode := some .graph } o
    (decide (m.disp.graphicMode ≠ some .graph))

/-- What a run must keep to.  While a graphics mode is shown the screen is not cleared
through the VBE enable register, and the registers that are used and not compared stay;
and every mode that is drawn is one whose lines can be watched. -/
def Steady : ScreenOp → Prop
  | .bus op => m.disp.graphicMode = some .graph → op.clears m.dev.regs = false
  | .refresh => m.dev.regs.graphicMode = .graph →
    ((m.prepared o).2.frame m.dev.regs).Watchable (m.prepared o).2.surface ∧
      (m.disp.graphicMode = some .graph →
        ∀ s₀ ∈ m.seen, m.dev.regs.untracked = s₀.untracked)
  | _ => True

instance : ∀ op, Decidable (m.Steady o op)
  | .bus _ => inferInstanceAs (Decidable (_ → _))
  | .lfb _ _ | .invalidate => isTrue trivial
  | .refresh => inferInstanceAs (Decidable (_ → _))

/-- The screen shows the frame of these registers, but for lines with a marked page. -/
structure FreshFor (s₀ : VGAState) : Prop where
  synced : m.disp.Synced s₀
  watchable : (m.disp.frame s₀).Watchable m.disp.surface
  safe : (m.disp.frame s₀).Safe m.dev.size m.disp.surface
  fresh : Redraw.Fresh (fun vram => (m.disp.frame s₀).picture o vram m.disp.surface)
    {y | y < (m.disp.frame s₀).height} (m.disp.frame s₀).pages {p | m.dev.dirty p = true}
    m.dev.vram fun y => m.disp.screen.row y ((m.disp.frame s₀).columns m.disp.surface)

structure UpToDate : Prop where
  wellFormed : m.dev.regs.WellFormed
  fresh : m.disp.graphicMode = some .graph → ∃ s₀, m.seen = some s₀ ∧ m.FreshFor o s₀

variable {o m}

theorem prepared_synced (o : ByteOrder) (m : VgaScreen) :
    (m.prepared o).2.Synced m.dev.regs ∧ (m.prepared o).2.graphicMode = some .graph ∧
      (m.prepared o).2.lastWidth = m.dev.regs.dispWidth ∧
      (m.prepared o).2.lastHeight = m.dev.regs.height := by
  rw [prepared]
  have h := Refresh.prepare_synced { m.disp with graphicMode := some .graph } m.dev.regs o
    (decide (m.disp.graphicMode ≠ some .graph))
  exact ⟨h.1, by rw [h.2.1], h.2.2⟩

/-- Stores that mark their pages leave the screen up to date. -/
theorem FreshFor.marked {s₀ : VGAState} (h : m.FreshFor o s₀) {dev : VGADevice}
    (hmark : m.dev.Marked dev) (hsize : dev.size = m.dev.size) :
    ({ m with dev } : VgaScreen).FreshFor o s₀ := by
  refine ⟨h.synced, h.watchable, hsize ▸ h.safe, h.fresh.write (fun p hp => hmark.mono p hp) ?_⟩
  intro y hy hclean
  refine h.watchable.picture_congr m.dev.regs.vramSize.toNat_lt h.safe hy fun i hi => ?_
  rcases hmark.changed (((m.disp.frame s₀).addr y).toNat + i) with heq | hdirty
  · exact heq
  · exact absurd hdirty (Set.disjoint_left.mp hclean ⟨i, hi, rfl⟩)

/-- The size is not what the picture depends on. -/
theorem UpToDate.invalidate (h : m.UpToDate o) :
    ({ m with disp := m.disp.invalidate } : VgaScreen).UpToDate o := by
  refine ⟨h.wellFormed, fun hmode => ?_⟩
  obtain ⟨s₀, hseen, hfresh⟩ := h.fresh hmode
  exact ⟨s₀, hseen, { hfresh.synced with size := .inr rfl }, hfresh.watchable, hfresh.safe,
    hfresh.fresh⟩

/-- The frame of the registers is on the screen. -/
def Shows (o : ByteOrder) (m : VgaScreen) : Prop :=
  ∀ y < (m.disp.frame m.dev.regs).height,
    m.disp.screen.row y ((m.disp.frame m.dev.regs).columns m.disp.surface) =
      (m.disp.frame m.dev.regs).picture o m.dev.vram m.disp.surface y

/-- A refresh that does not draw everything finds the frame of the last one. -/
theorem UpToDate.prepared (h : m.UpToDate o)
    (huntracked : m.disp.graphicMode = some .graph →
      ∀ s₀ ∈ m.seen, m.dev.regs.untracked = s₀.untracked) :
    (m.prepared o).1 = true ∨
      ({ m with disp := (m.prepared o).2 } : VgaScreen).FreshFor o m.dev.regs := by
  cases hp : (m.prepared o).1 with
  | true => exact .inl rfl
  | false =>
    have hgraph : m.disp.graphicMode = some .graph := by
      by_contra hne
      simp [VgaScreen.prepared, Refresh.prepare_eq, hne] at hp
    have hdisp : ({ m.disp with graphicMode := some .graph } : Refresh) = m.disp := by
      rw [← hgraph]
    obtain ⟨s₀, hseen, hfresh⟩ := h.fresh hgraph
    have hsync := (prepared_synced o m).1
    rw [VgaScreen.prepared, hdisp] at hp hsync ⊢
    obtain ⟨hsame, hframe⟩ := hfresh.synced.frame_kept (huntracked hgraph s₀ hseen) hp
    rw [hsame] at hsync ⊢
    refine .inr ⟨hsync, ?_, ?_, ?_⟩
    · rw [hframe]
      exact hfresh.watchable
    · rw [hframe]
      exact hfresh.safe
    · rw [hframe]
      exact hfresh.fresh

theorem vgaUpdateDisplay_graph {hook : Option (Int32 × Int32)} {m' : VgaScreen}
    (hmode : m.dev.regs.graphicMode = .graph) (hok : m.vgaUpdateDisplay o = .ok (hook, m')) :
    ∃ p, drawFrame o (m.prepared o).1 m.dev (m.prepared o).2 = .ok p ∧
      hook = m.dev.regs.vgaDrawGraphic ∧ m' = ⟨p.1, p.2, some m.dev.regs⟩ := by
  unfold vgaUpdateDisplay at hok
  simp only [hmode] at hok
  obtain ⟨p, hdraw, hok⟩ := bind_ok hok
  cases hok
  exact ⟨p, hdraw, rfl, rfl⟩

/-- Drawing a frame, from a screen that is up to date or with all of its lines. -/
theorem drawFrame_shows {full : Bool} {r : Refresh} (hwf : m.dev.regs.WellFormed)
    (hsync : r.Synced m.dev.regs) (hwatch : (r.frame m.dev.regs).Watchable r.surface)
    (hfresh : full = true ∨ ({ m with disp := r } : VgaScreen).FreshFor o m.dev.regs)
    {p : VGADevice × Refresh} (hok : drawFrame o full m.dev r = .ok p) :
    let m' : VgaScreen := ⟨p.1, p.2, some m.dev.regs⟩
    m'.dev.regs = m.dev.regs ∧ m'.Shows o ∧ m'.FreshFor o m.dev.regs := by
  obtain ⟨l, hdraw, hok⟩ := bind_ok hok
  cases hok
  obtain ⟨hfault, hl⟩ := Frame.drawLines_eq_ok_iff.mp hdraw
  set f := r.frame m.dev.regs with hf
  have hnone := fun y hy => Frame.fault_eq_none_iff.mp (hfault y hy)
  -- what is not drawn now was drawn before
  have hsafe : f.Safe m.dev.size r.surface := by
    rcases hfresh with rfl | hfresh
    · exact fun y hy => ⟨(hnone y hy).1, (hnone y hy).2 rfl⟩
    · exact hfresh.safe
  have hsize := VGADevice.size_eq hwf
  have hlt : ∀ y < f.height, (f.addr y).toNat + f.bwidth < 2 ^ 32 := by
    intro y hy
    have hpage : (f.addr y).toNat / 4096 < m.dev.size / 4096 := (hnone y hy).1.1
    have hbwidth : f.bwidth ≤ 2 ^ 18 := r.frame_bwidth_le m.dev.regs
    omega
  have hcolumns : ∀ y < f.height, f.columns r.surface ≤ f.dispWidth := fun y hy =>
    r.frame_columns_le m.dev.regs m.dev.regs.vramSize.toNat_lt hsafe hwatch.follows hy
  have hrows : full = true ∨ Redraw.Fresh (fun vram => f.picture o vram r.surface)
      {y | y < f.height} f.pages {p | m.dev.dirty p = true} m.dev.vram
      fun y => r.screen.row y (f.columns r.surface) := hfresh.imp id fun h => h.fresh
  have hshows := Frame.loop_shows r.invalidated hwatch hlt hcolumns hrows
  rw [hl] at hshows
  have halike : r.surface.Alike l.surface := by
    rw [← hl]
    exact Frame.loop_alike _ _
  rw [← Frame.picture_alike halike, ← Frame.columns_alike halike] at hshows
  have hframe := r.flushed_frame f l m.dev.vram m.dev.regs
  refine ⟨rfl, ?_, hsync.flushed halike f m.dev.vram, ?_, ?_, ?_⟩
  · simp only [Shows, hframe]
    exact hshows
  · simp only [hframe]
    exact hwatch.alike halike
  · simp only [hframe]
    exact hsafe.alike halike
  · simp only [hframe]
    exact Redraw.fresh_of_forall hshows _

/-- A refresh in a graphics mode brings the screen up to date. -/
theorem UpToDate.refresh (h : m.UpToDate o) (hsteady : m.Steady o .refresh)
    (hmode : m.dev.regs.graphicMode = .graph) {hook : Option (Int32 × Int32)} {m' : VgaScreen}
    (hok : m.vgaUpdateDisplay o = .ok (hook, m')) :
    m'.Shows o ∧ m'.disp.Synced m'.dev.regs ∧ m'.UpToDate o := by
  obtain ⟨hwatch, huntracked⟩ := hsteady hmode
  obtain ⟨p, hdraw, -, rfl⟩ := vgaUpdateDisplay_graph hmode hok
  obtain ⟨hregs, hshows, hfresh⟩ := drawFrame_shows h.wellFormed
    (prepared_synced o m).1 hwatch (h.prepared huntracked) hdraw
  refine ⟨hshows, ?_, ?_, fun _ => ⟨m.dev.regs, rfl, hfresh⟩⟩
  · rw [hregs]
    exact hfresh.synced
  · rw [hregs]
    exact h.wellFormed

/-- A refresh does not touch the registers, and remembers its mode. -/
theorem vgaUpdateDisplay_ok {hook : Option (Int32 × Int32)} {m' : VgaScreen}
    (hok : m.vgaUpdateDisplay o = .ok (hook, m')) :
    m'.dev.regs = m.dev.regs ∧ m'.disp.graphicMode = some m.dev.regs.graphicMode := by
  cases hmode : m.dev.regs.graphicMode with
  | graph =>
    obtain ⟨p, hdraw, -, rfl⟩ := vgaUpdateDisplay_graph hmode hok
    obtain ⟨l, -, hdraw⟩ := bind_ok hdraw
    cases hdraw
    have hgraph := (prepared_synced o m).2.1
    generalize m.prepared o = q at hgraph
    exact ⟨rfl, hgraph⟩
  | text =>
    unfold vgaUpdateDisplay at hok
    simp only [hmode] at hok
    obtain ⟨p, hdraw, hok⟩ := bind_ok hok
    cases hok
    exact ⟨vgaDrawText_regs hdraw, vgaDrawText_graphicMode hdraw⟩
  | blank =>
    unfold vgaUpdateDisplay at hok
    simp only [hmode] at hok
    obtain ⟨p, hdraw, hok⟩ := bind_ok hok
    cases hok
    exact ⟨vgaDrawBlank_regs hdraw, vgaDrawBlank_graphicMode hdraw⟩

theorem UpToDate.step (h : m.UpToDate o) {op : ScreenOp} (hsteady : m.Steady o op)
    {hook : Option (Int32 × Int32)} {m' : VgaScreen} (hok : m.step o op = .ok (hook, m')) :
    m'.UpToDate o := by
  cases op with
  | bus op =>
    simp only [VgaScreen.step] at hok
    cases hbus : m.dev.busStep o op with
    | error f =>
      rw [hbus] at hok
      cases hok
    | ok r =>
      rw [hbus] at hok
      cases hok
      have hwf := VGADevice.busStep_wellFormed h.wellFormed hbus
      refine ⟨hwf, fun hmode => ?_⟩
      obtain ⟨s₀, hseen, hfresh⟩ := h.fresh hmode
      refine ⟨s₀, hseen, hfresh.marked (VGADevice.busStep_marked hbus (hsteady hmode)) ?_⟩
      rw [VGADevice.size_eq hwf, VGADevice.size_eq h.wellFormed]
  | lfb addr val =>
    simp only [VgaScreen.step] at hok
    split at hok
    · cases hok
      refine ⟨h.wellFormed, fun hmode => ?_⟩
      obtain ⟨s₀, hseen, hfresh⟩ := h.fresh hmode
      refine ⟨s₀, hseen, hfresh.marked (VGADevice.marked_setDirty rfl fun a ha => ?_) rfl⟩
      exact VGADevice.store_of_page_ne m.dev.vram addr val ha
    · cases hok
      exact h
  | invalidate =>
    cases hok
    exact h.invalidate
  | refresh =>
    by_cases hmode : m.dev.regs.graphicMode = .graph
    · exact (h.refresh hsteady hmode hok).2.2
    · obtain ⟨hregs, hnow⟩ := vgaUpdateDisplay_ok hok
      refine ⟨hregs ▸ h.wellFormed, fun hgraph => ?_⟩
      rw [hnow] at hgraph
      exact absurd (Option.some_inj.mp hgraph) hmode

/-- Colour 1 is made white, the mode of eight pixels in 16 colours is shown, and then the
left half of the first plane is set. -/
def halfWhite : List ScreenOp :=
  [.refresh, .bus (.outb 0x3c0 0x12), .bus (.outb 0x3c0 0x0f), .bus (.outb 0x3c0 1),
    .bus (.outb 0x3c0 1), .bus (.outb 0x3c8 1), .bus (.outb 0x3c9 0x3f), .bus (.outb 0x3c9 0x3f),
    .bus (.outb 0x3c9 0x3f), .bus (.outb 0x3c0 0x20), .refresh, .bus (.outb 0x3ce 6),
    .bus (.outb 0x3cf 1), .refresh, .lfb 0 0xf0]

end VgaScreen

end VmPlayback.Vga
