import VmPlayback.VgaScreen

namespace VmPlayback.Vga

open Transducer

/-- The surface is the video memory only from the start address on. -/
def Surface.Starts (startAddr : UInt32) (surface : Surface) : Prop :=
  ∀ data bytes w linesize, surface = .shared data bytes w linesize → data = (startAddr * 4).toNat

namespace Refresh

variable (r : Refresh)

/-- A buffer is as large as the display takes it to be, and a surface that is the video
memory belongs to a mode with a depth. -/
def Placed : Prop :=
  match r.surface with
  | .own w h _ => r.lastScrWidth.toNat ≤ w ∧ r.lastScrHeight.toNat ≤ h ∧
      (r.lastWidth = 0xffffffff ∨ r.lastWidth.toNat ≤ w ∧ r.lastHeight.toNat ≤ h)
  | .shared _ _ w _ => r.lastDepth ≠ 0 ∧ r.lastScrWidth.toNat = w ∧
      (r.lastWidth = 0xffffffff ∨ r.lastHeight = r.lastScrHeight)

/-- The rows of a surface that is the video memory are inside it. -/
def Inside (size : ℕ) : Prop :=
  ∀ data bytes w linesize, r.surface = .shared data bytes w linesize →
    ∀ y < r.lastScrHeight.toNat, data + y * linesize + w * bytes ≤ size

structure Fits (size : ℕ) : Prop where
  placed : r.Placed
  inside : r.Inside size
  starts : r.graphicMode = some .graph → r.surface.Starts r.startAddr

variable {r} {s : VGAState} {o : ByteOrder} {full : Bool} {size : ℕ}

theorem Placed.own (h : r.Placed) (hdepth : r.lastDepth = 0) :
    ∃ w h px, r.surface = .own w h px := by
  cases hr : r.surface with
  | own w h' px => exact ⟨w, h', px, rfl⟩
  | shared data bytes w linesize =>
    simp only [Placed, hr] at h
    exact absurd hdepth h.1

theorem Placed.updateSurface (h : r.Placed) : (r.updateSurface s o full).2.Placed := by
  unfold Refresh.updateSurface
  split
  · by_cases hshared : s.vgaGetBpp = 32 ∨ (s.vgaGetBpp = 16 ∧ o = .little)
    · have hdepth : s.vgaGetBpp ≠ 0 := by
        rcases hshared with hbpp | ⟨hbpp, -⟩ <;> rw [hbpp] <;> decide
      simp only [Placed, newSurface, hshared, if_true]
      exact ⟨hdepth, trivial, .inr trivial⟩
    · simp only [Placed, newSurface, hshared, if_false]
      exact ⟨le_rfl, le_rfl, .inr ⟨le_rfl, le_rfl⟩⟩
  · cases hr : r.surface with
    | own w h' px => exact h
    | shared old bytes w linesize =>
      dsimp only
      split
      · simp only [Placed, hr] at h ⊢
        exact h
      · exact h

theorem Placed.prepare (h : r.Placed) : (r.prepare s o full).2.Placed := by
  have h' : Placed { r with
      lineOffset := s.vgaGetOffsets.1
      startAddr := s.vgaGetOffsets.2.1
      lineCompare := s.vgaGetOffsets.2.2
      shiftControl := s.shiftControl
      doubleScan := s.doubleScan } := h
  rw [prepare_eq]
  simp only [updatePalette_eq, setPalette]
  exact h'.updateSurface

/-- The frame that is about to be drawn has its place. -/
theorem Placed.frame_le (h : r.Placed) (hwidth : r.lastWidth = s.dispWidth)
    (hheight : r.lastHeight = s.height) {w h' : ℕ} {px : Raster}
    (hr : r.surface = .own w h' px) : (r.frame s).dispWidth ≤ w ∧ (r.frame s).height ≤ h' := by
  simp only [Placed, hr] at h
  rcases h.2.2 with hspoilt | hle
  · exact absurd (hwidth.symm.trans hspoilt) s.dispWidth_ne
  · rw [hwidth, hheight] at hle
    exact hle

theorem Placed.frame_height (h : r.Placed) (hwidth : r.lastWidth = s.dispWidth)
    (hheight : r.lastHeight = s.height) {data bytes w linesize : ℕ}
    (hr : r.surface = .shared data bytes w linesize) :
    (r.frame s).height = r.lastScrHeight.toNat := by
  simp only [Placed, hr] at h
  rcases h.2.2 with hspoilt | heq
  · exact absurd (hwidth.symm.trans hspoilt) s.dispWidth_ne
  · rw [← heq, hheight]
    rfl

/-- The pixels are not what is fitted. -/
theorem Placed.alike (h : r.Placed) {r' : Refresh} (ha : r.surface.Alike r'.surface)
    (hsame : r'.lastScrWidth = r.lastScrWidth ∧ r'.lastScrHeight = r.lastScrHeight ∧
      r'.lastWidth = r.lastWidth ∧ r'.lastHeight = r.lastHeight ∧ r'.lastDepth = r.lastDepth) :
    r'.Placed := by
  obtain ⟨h1, h2, h3, h4, h5⟩ := hsame
  unfold Placed at h ⊢
  rw [h1, h2, h3, h4, h5]
  rcases ha with heq | ⟨w, h', px, px', heq, heq'⟩
  · rw [heq]
    exact h
  · rw [heq] at h
    rw [heq']
    exact h

end Refresh

namespace Frame

variable (f : Frame) {full : Bool} {dirty invalidated : ℕ → Bool} {size : ℕ} {surface : Surface}

/-- A line without a width on which the loop goes round all the same. -/
def Endless : Prop := f.width = 0 ∧ f.kind.deep = true

instance : Decidable f.Endless := inferInstanceAs (Decidable (_ ∧ _))

/-- What the loop leaves the memory with: the pages of a line, the pixels of one that is
drawn and has no end, or a row of the surface that `dpy_update` reads. -/
def Leaves (full : Bool) (dirty invalidated : ℕ → Bool) (size : ℕ) (surface : Surface) : Prop :=
  ∃ y < f.height, ¬ f.OnPages size (f.addr y) ∨ f.drawn full dirty invalidated y = true ∧
    match surface with
    | .own .. => f.Endless
    | .shared data bytes w linesize => size < data + y * linesize + w * bytes

end Frame

namespace Refresh

variable {r : Refresh} {s : VGAState} {o : ByteOrder} {full : Bool} {size : ℕ}

/-- On pages of the memory, in a place of its own: what is left to go wrong. -/
theorem drawFault_own (hsize : size = 2 ^ 24) {y : ℕ} {a : UInt32}
    (hpages : (r.frame s).OnPages size a) {w h : ℕ} {px : Raster}
    (hw : (r.frame s).dispWidth ≤ w) (hy : y < h) :
    (r.frame s).drawFault size y a (.own w h px) ≠ none ↔ (r.frame s).Endless := by
  have hbytes : (r.frame s).kind.bytes (r.frame s).width < 2 ^ 32 ↔ ¬ (r.frame s).Endless :=
    DrawLine.bytes_lt_iff _ s.width_lt
  simp only [Frame.drawFault]
  by_cases hend : (r.frame s).Endless
  · have hlarge := mt hbytes.mp (not_not.mpr hend)
    rw [if_pos (by omega)]
    exact iff_of_true (Option.some_ne_none _) hend
  · have hlt := hbytes.mpr hend
    have hcolumns : (r.frame s).kind.columns (r.frame s).width ≤ (r.frame s).dispWidth :=
      s.columns_le_dispWidth hlt
    have hle : (r.frame s).kind.bytes (r.frame s).width ≤ (r.frame s).bwidth :=
      DrawLine.bytes_le _ hlt
    have hbwidth := r.frame_bwidth_le s
    have hpage0 : a.toNat / 4096 < size / 4096 := hpages.1
    -- the pages of the first and the last byte of the line are pages of the memory
    have hin : a.toNat + (r.frame s).bwidth ≤ size := by
      rcases Nat.eq_zero_or_pos (r.frame s).bwidth with hzero | hpos
      · omega
      · have hpage1 : (r.frame s).page1 a < size / 4096 := hpages.2.1
        rw [Frame.page1_eq hpos (by omega)] at hpage1
        simp only [pageSize] at hpage1
        omega
    rw [if_neg (by omega), if_neg (by omega)]
    exact iff_of_false (not_not.mpr rfl) hend

theorem drawFault_shared (f : Frame) {y : ℕ} {a : UInt32} {data bytes w linesize : ℕ} :
    f.drawFault size y a (.shared data bytes w linesize) ≠ none ↔
      size < data + y * linesize + w * bytes := by
  simp only [Frame.drawFault]
  split
  · next h => exact iff_of_true (Option.some_ne_none _) h
  · next h => exact iff_of_false (not_not.mpr rfl) h

/-- What ends the loop over the lines. -/
theorem drawLines_leaves (hsize : size = 2 ^ 24) (h : r.Placed) (hwidth : r.lastWidth = s.dispWidth)
    (hheight : r.lastHeight = s.height) {dirty invalidated : ℕ → Bool} {vram : Mem} :
    (∃ e, (r.frame s).drawLines o full dirty invalidated vram size r.surface = .error e) ↔
      (r.frame s).Leaves full dirty invalidated size r.surface := by
  rw [Frame.drawLines_eq_error_iff]
  refine exists_congr fun y => and_congr_right fun hy => ?_
  rw [ne_eq, Frame.fault_eq_none_iff, not_and_or]
  by_cases hpages : (r.frame s).OnPages size ((r.frame s).addr y)
  · refine or_congr Iff.rfl ?_
    rw [Classical.not_imp]
    refine and_congr Iff.rfl ?_
    cases hr : r.surface with
    | own w h' px =>
      obtain ⟨hw, hh⟩ := h.frame_le hwidth hheight hr
      exact drawFault_own hsize hpages hw (by omega)
    | shared data bytes w linesize => exact drawFault_shared _
  · exact iff_of_true (.inl hpages) (.inl hpages)

/-- A frame that could be drawn leaves the surface inside the memory. -/
theorem Inside.drawn (h : r.Placed) (hwidth : r.lastWidth = s.dispWidth)
    (hheight : r.lastHeight = s.height) {dirty invalidated : ℕ → Bool} {vram : Mem}
    (hin : full = true ∨ r.Inside size) {l : Frame.Loop}
    (hok : (r.frame s).drawLines o full dirty invalidated vram size r.surface = .ok l) :
    r.Inside size := by
  rcases hin with rfl | hin
  · -- all lines have been drawn, so all rows were looked at
    intro data bytes w linesize hr y hy
    rw [← h.frame_height hwidth hheight hr] at hy
    have hnone := (Frame.fault_eq_none_iff.mp ((Frame.drawLines_eq_ok_iff.mp hok).1 y hy)).2 rfl
    rw [hr] at hnone
    by_contra hlt
    exact (drawFault_shared _).mpr (Nat.not_le.mp hlt) hnone
  · exact hin

end Refresh

namespace VGAState

variable (s : VGAState)

theorem textResolution_bounds :
    let t := s.vgaGetTextResolution
    (0 < t.width ∧ t.width ≤ 256) ∧ t.height ≤ 1024 ∧ (8 ≤ t.cw ∧ t.cw ≤ 16) ∧
      0 < t.cheight ∧ t.cheight ≤ 32 := by
  have hcr1 := (s.cr 0x01).toNat_lt
  have hcheight : (s.cr 0x09 &&& 0x1f).toNat ≤ 31 := by
    rw [UInt8.toNat_and]
    exact Nat.and_le_right
  have hlines : (s.cr 0x12).toNat ||| (s.cr 0x07 &&& 0x02).toNat <<< 7 |||
      (s.cr 0x07 &&& 0x40).toNat <<< 3 < 2 ^ 10 := by
    refine Nat.or_lt_two_pow (Nat.or_lt_two_pow ?_ ?_) ?_
    · have hcr12 := (s.cr 0x12).toNat_lt
      omega
    · rw [UInt8.toNat_and, Nat.shiftLeft_eq]
      exact lt_of_le_of_lt (Nat.mul_le_mul_right _ Nat.and_le_right) (by decide)
    · rw [UInt8.toNat_and, Nat.shiftLeft_eq]
      exact lt_of_le_of_lt (Nat.mul_le_mul_right _ Nat.and_le_right) (by decide)
  refine ⟨⟨Nat.succ_pos _, ?_⟩, ?_, ?_, Nat.succ_pos _, ?_⟩
  · simp only [vgaGetTextResolution]
    omega
  · simp only [vgaGetTextResolution]
    split
    · omega
    · exact (Nat.div_le_self _ _).trans (by omega)
  · simp only [vgaGetTextResolution]
    split_ifs <;> omega
  · simp only [vgaGetTextResolution]
    omega

theorem fontOffset_lt : s.fontOffset0.toNat < 2 ^ 18 ∧ s.fontOffset1.toNat < 2 ^ 18 := by
  have hfont : ∀ a b : UInt32,
      (((a &&& 1 : UInt32) ||| (b &&& 6 : UInt32)) * 8192 * 4 + 2).toNat < 2 ^ 18 := by
    intro a b
    have hor : ((a &&& 1 : UInt32) ||| (b &&& 6 : UInt32)).toNat < 2 ^ 3 := by
      rw [UInt32.toNat_or, UInt32.toNat_and, UInt32.toNat_and]
      refine Nat.or_lt_two_pow ?_ ?_
      · exact lt_of_le_of_lt Nat.and_le_right (by decide)
      · exact lt_of_le_of_lt Nat.and_le_right (by decide)
    have h8192 : (8192 : UInt32).toNat = 8192 := rfl
    have h4 : (4 : UInt32).toNat = 4 := rfl
    have h2 : (2 : UInt32).toNat = 2 := rfl
    rw [UInt32.toNat_add, UInt32.toNat_mul, UInt32.toNat_mul, h8192, h4, h2]
    omega
  exact ⟨hfont _ _, hfont _ _⟩

end VGAState

namespace TextFrame

variable (f : TextFrame)

/-- What the loops leave the memory or the surface with: a character, or one that is
drawn. -/
def Leaves (o : ByteOrder) (full : Bool) (vram : Mem) (attrs : ℕ → UInt32) (size w h : ℕ) : Prop :=
  ∃ i < f.size.width * f.size.height, size < f.addr i + 2 ∨
    f.drawn o full vram attrs i = true ∧
      (w < (i % f.size.width + 1) * f.size.cw ∨ h < (i / f.size.width + 1) * f.size.cheight)

end TextFrame

namespace Refresh

variable {r : Refresh} {s : VGAState} {o : ByteOrder} {full : Bool} {size : ℕ}

/-- What ends the loops over the characters.  The glyphs are all inside the memory. -/
theorem drawCells_leaves (hsize : size = 2 ^ 24) (hfont0 : r.fontOffset0 = s.fontOffset0)
    (hfont1 : r.fontOffset1 = s.fontOffset1) {vram : Mem} {w h : ℕ} (px screen : Raster)
    (attrs : ℕ → UInt32) :
    (∃ e, (r.textFrame s).drawCells o full vram size w h
        ((r.textFrame s).start px attrs screen) = .error e) ↔
      (r.textFrame s).Leaves o full vram attrs size w h := by
  obtain ⟨⟨hwidth, -⟩, -, -, -, hcheight⟩ := s.textResolution_bounds
  -- both fonts are in the first 2 ^ 18 bytes, and a glyph has 128
  have hglyph : ∀ ch cattr : UInt8,
      (r.textFrame s).fontPtr ch cattr + 4 * ((r.textFrame s).size.cheight - 1) < size := by
    intro ch cattr
    have hch := ch.toNat_lt
    have hfont : (if cattr &&& 8 = 0 then (r.textFrame s).font0 else (r.textFrame s).font1) <
        2 ^ 18 := by
      split
      · exact lt_of_eq_of_lt (congrArg UInt32.toNat hfont0) s.fontOffset_lt.1
      · exact lt_of_eq_of_lt (congrArg UInt32.toNat hfont1) s.fontOffset_lt.2
    have hrows : (r.textFrame s).size.cheight ≤ 32 := hcheight
    unfold TextFrame.fontPtr
    omega
  rw [TextFrame.drawCells_eq_error_iff hwidth]
  refine exists_congr fun i => and_congr_right fun _ => ?_
  unfold TextFrame.fault
  rw [if_neg (Nat.not_le.mpr (hglyph _ _))]
  by_cases hcell : size < (r.textFrame s).addr i + 2
  · simp [hcell]
  · by_cases hdrawn : (r.textFrame s).drawn o full vram attrs i = true
    · simp only [hcell, hdrawn, if_true, if_false, false_or, true_and, ne_eq, ite_eq_right_iff,
        reduceCtorEq, imp_false, not_not]
    · simp [hcell, hdrawn]

theorem toNat_ofNat_of_le {n : ℕ} (h : n ≤ 2 ^ 16) : (UInt32.ofNat n).toNat = n :=
  UInt32.toNat_ofNat_of_lt (lt_of_le_of_lt h (by decide))

/-- The size the display goes by is not the one that is spoilt. -/
theorem Placed.invalidate (h : r.Placed) : r.invalidate.Placed := by
  unfold Placed at h ⊢
  simp only [Refresh.invalidate]
  cases hr : r.surface with
  | own w h' px =>
    rw [hr] at h
    exact ⟨h.1, h.2.1, .inl trivial⟩
  | shared data bytes w linesize =>
    rw [hr] at h
    exact ⟨h.1, h.2.1, .inl trivial⟩

theorem Placed.resizeText (h : r.Placed) :
    (r.resizeText s.vgaGetTextResolution).2.Placed ∧
      (r.resizeText s.vgaGetTextResolution).2.lastDepth = 0 := by
  obtain ⟨⟨-, hwidth⟩, hheight, hcw, hcheight⟩ := s.textResolution_bounds
  generalize s.vgaGetTextResolution = t at *
  unfold Refresh.resizeText
  split
  · have hw : t.width * t.cw ≤ 256 * 16 := Nat.mul_le_mul hwidth hcw.2
    have hh : t.height * t.cheight ≤ 1024 * 32 := Nat.mul_le_mul hheight hcheight.2
    have hlew : t.width ≤ t.width * t.cw := Nat.le_mul_of_pos_right _ (by omega)
    have hleh : t.height ≤ t.height * t.cheight := Nat.le_mul_of_pos_right _ (by omega)
    refine ⟨?_, rfl⟩
    simp only [Placed]
    rw [toNat_ofNat_of_le (by omega), toNat_ofNat_of_le (by omega), toNat_ofNat_of_le (by omega),
      toNat_ofNat_of_le (by omega)]
    exact ⟨le_rfl, le_rfl, .inr ⟨hlew, hleh⟩⟩
  · next hsame =>
    push Not at hsame
    exact ⟨h, hsame.2.2.2.2⟩

theorem Placed.prepareText (h : r.Placed) :
    (r.prepareText s full).2.Placed ∧ (r.prepareText s full).2.lastDepth = 0 := by
  have hresize := h.resizeText (s := s)
  rw [prepareText_eq]
  generalize (r.resizeText s.vgaGetTextResolution).2 = r' at hresize
  exact hresize

/-- A new surface is a buffer. -/
theorem Inside.of_own {w h : ℕ} {px : Raster} (hr : r.surface = .own w h px) : r.Inside size := by
  intro data bytes w linesize hs
  rw [hr] at hs
  cases hs

theorem drawPage_fits {d d' : VGADevice} {r' : Refresh} (h : r.Placed) (hdepth : r.lastDepth = 0)
    (hmode : r.graphicMode = some .text) (hok : drawPage o full d r = .ok (d', r')) :
    r'.Fits size := by
  obtain ⟨w, h', px, hr⟩ := h.own hdepth
  simp only [drawPage, hr] at hok
  obtain ⟨l, -, hok⟩ := bind_ok hok
  cases hok
  refine ⟨h.alike (.inr ⟨w, h', px, _, hr, rfl⟩) ⟨rfl, rfl, rfl, rfl, rfl⟩, .of_own rfl, ?_⟩
  intro hgraph
  rw [hmode] at hgraph
  cases hgraph

theorem drawBlank_fits (full : Bool) {d : VGADevice} (h : r.Fits d.size)
    (hmode : r.graphicMode = some .blank) :
    ∃ p : VGADevice × Refresh, vgaDrawBlank full d r = .ok p ∧ p.2.Fits d.size := by
  have hstarts : ∀ r' : Refresh, r'.graphicMode = some .blank →
      r'.graphicMode = some .graph → r'.surface.Starts r'.startAddr := by
    intro r' hb hg
    rw [hb] at hg
    cases hg
  unfold vgaDrawBlank
  split
  · exact ⟨_, rfl, h⟩
  · next hsome =>
    cases hr : r.surface with
    | own w h' px =>
      have hplaced := h.placed
      simp only [Placed, hr] at hplaced
      simp only [hplaced.1, hplaced.2.1, and_self, if_true]
      refine ⟨_, rfl, h.placed.alike (.inr ⟨w, h', px, _, hr, rfl⟩) ⟨rfl, rfl, rfl, rfl, rfl⟩,
        .of_own rfl, hstarts _ hmode⟩
    | shared data bytes w linesize =>
      have hplaced := h.placed
      simp only [Placed, hr] at hplaced
      simp only [Bool.or_eq_true, Bool.not_eq_true', decide_eq_true_eq, not_or] at hsome
      have hpos : r.lastScrHeight.toNat ≠ 0 := fun h0 => hsome.2 (UInt32.toNat_inj.mp h0)
      have hin := h.inside data bytes w linesize hr (r.lastScrHeight.toNat - 1) (by omega)
      simp only [hplaced.2.1, hin, if_true]
      exact ⟨_, rfl, h.placed.alike (.inl hr.symm) ⟨rfl, rfl, rfl, rfl, rfl⟩,
        fun _ _ _ _ hs => h.inside _ _ _ _ (hr.trans hs), hstarts _ hmode⟩

end Refresh

namespace VgaScreen

variable (o : ByteOrder) (m : VgaScreen)

def preparedText : Bool × Refresh :=
  let q := Refresh.locateText m.dev.regs { m.disp with graphicMode := some .text }
  q.2.prepareText m.dev.regs
    (decide (m.disp.graphicMode ≠ some .text) || m.dev.fontModified || q.1)

/-- What a refresh runs into.  Blanking the screen is safe. -/
def Leaves : Prop :=
  match m.dev.regs.graphicMode with
  | .text => ¬ Refresh.tooBig m.dev.regs ∧ ∃ w h px, m.preparedText.2.surface = .own w h px ∧
      (m.preparedText.2.textFrame m.dev.regs).Leaves o m.preparedText.1 m.dev.vram
        m.preparedText.2.lastChAttr m.dev.size w h
  | .graph => ((m.prepared o).2.frame m.dev.regs).Leaves (m.prepared o).1 m.dev.dirty
      (m.prepared o).2.invalidated m.dev.size (m.prepared o).2.surface
  | .blank => False

variable {o m}

theorem vgaUpdateDisplay_text (hmode : m.dev.regs.graphicMode = .text) :
    m.vgaUpdateDisplay o =
      if Refresh.tooBig m.dev.regs then
        .ok (none, ⟨m.dev.takeFont,
          (Refresh.locateText m.dev.regs { m.disp with graphicMode := some .text }).2, m.seen⟩)
      else do
        let (dev, disp) ← drawPage o m.preparedText.1 m.dev.takeFont m.preparedText.2
        return (none, ⟨dev, disp, m.seen⟩) := by
  unfold vgaUpdateDisplay
  simp only [hmode, vgaDrawText]
  split
  · rfl
  · rfl

/-- The display after `prepare`. -/
theorem prepared_placed (h : m.disp.Placed) : (m.prepared o).2.Placed := by
  have h' : Refresh.Placed { m.disp with graphicMode := some .graph } := h
  rw [prepared]
  exact h'.prepare

theorem prepared_inside (h : m.disp.Fits m.dev.size) :
    (m.prepared o).1 = true ∨ (m.prepared o).2.Inside m.dev.size := by
  cases hp : (m.prepared o).1 with
  | true => exact .inl rfl
  | false =>
    have hgraph : m.disp.graphicMode = some .graph := by
      by_contra hne
      simp [prepared, Refresh.prepare_eq, hne] at hp
    -- nothing is new, so the surface is that of the last refresh
    have hdisp : ({ m.disp with graphicMode := some .graph } : Refresh) = m.disp := by
      rw [← hgraph]
    rw [prepared, hdisp] at hp ⊢
    rw [(Refresh.prepare_kept (h.starts hgraph) hp).1]
    exact .inr h.inside

theorem preparedText_placed (h : m.disp.Placed) :
    m.preparedText.2.Placed ∧ m.preparedText.2.lastDepth = 0 := by
  have h' : Refresh.Placed
      (Refresh.locateText m.dev.regs { m.disp with graphicMode := some .text }).2 := by
    rw [locateText_eq]
    exact h
  rw [preparedText]
  exact h'.prepareText

theorem preparedText_other (m : VgaScreen) : m.preparedText.2.graphicMode = some .text ∧
    m.preparedText.2.fontOffset0 = m.dev.regs.fontOffset0 ∧
    m.preparedText.2.fontOffset1 = m.dev.regs.fontOffset1 := by
  obtain ⟨h0, h1, h2⟩ := prepareText_other
    (Refresh.locateText m.dev.regs { m.disp with graphicMode := some .text }).2 m.dev.regs
    (decide (m.disp.graphicMode ≠ some .text) || m.dev.fontModified ||
      (Refresh.locateText m.dev.regs { m.disp with graphicMode := some .text }).1)
  rw [preparedText, h0, h1, h2, locateText_eq]
  exact ⟨rfl, rfl, rfl⟩

theorem drawPage_error_iff {full : Bool} {d : VGADevice} {r : Refresh} (hsize : d.size = 2 ^ 24)
    (hplaced : r.Placed) (hdepth : r.lastDepth = 0) (hfont0 : r.fontOffset0 = d.regs.fontOffset0)
    (hfont1 : r.fontOffset1 = d.regs.fontOffset1) :
    (∃ e, drawPage o full d r = .error e) ↔ ∃ w h px, r.surface = .own w h px ∧
      (r.textFrame d.regs).Leaves o full d.vram r.lastChAttr d.size w h := by
  obtain ⟨w, h, px, hr⟩ := hplaced.own hdepth
  simp only [drawPage, hr]
  rw [bind_pure_error_iff, Refresh.drawCells_leaves hsize hfont0 hfont1 px r.screen r.lastChAttr]
  constructor
  · exact fun hl => ⟨w, h, px, rfl, hl⟩
  · rintro ⟨w', h', px', heq, hl⟩
    cases heq
    exact hl

/-- What ends a refresh. -/
theorem vgaUpdateDisplay_error_iff (h : m.disp.Fits m.dev.size) (hwf : m.dev.regs.WellFormed) :
    (∃ e, m.vgaUpdateDisplay o = .error e) ↔ m.Leaves o := by
  have hsize := VGADevice.size_eq hwf
  unfold Leaves
  cases hmode : m.dev.regs.graphicMode with
  | text =>
    rw [vgaUpdateDisplay_text hmode]
    obtain ⟨hplaced, hdepth⟩ := preparedText_placed h.placed
    obtain ⟨-, hfont0, hfont1⟩ := preparedText_other m
    generalize m.preparedText = q at *
    by_cases hbig : Refresh.tooBig m.dev.regs
    · simp [hbig]
    · rw [if_neg hbig, bind_pure_error_iff]
      refine (drawPage_error_iff (d := m.dev.takeFont) hsize hplaced hdepth hfont0 hfont1).trans ?_
      exact (and_iff_right hbig).symm
  | graph =>
    obtain ⟨-, -, hwidth, hheight⟩ := prepared_synced o m
    have hplaced := prepared_placed (o := o) h.placed
    have hgraph : m.vgaUpdateDisplay o =
        drawFrame o (m.prepared o).1 m.dev (m.prepared o).2 >>= fun p =>
          pure (m.dev.regs.vgaDrawGraphic, ⟨p.1, p.2, some m.dev.regs⟩) := by
      unfold vgaUpdateDisplay
      simp only [hmode]
      rfl
    rw [hgraph, bind_pure_error_iff]
    generalize m.prepared o = q at *
    rw [drawFrame, bind_pure_error_iff]
    exact Refresh.drawLines_leaves hsize hplaced hwidth hheight
  | blank =>
    have h' : Refresh.Fits { m.disp with graphicMode := some .blank } m.dev.size :=
      ⟨h.placed, h.inside, nofun⟩
    obtain ⟨p, hok, -⟩ := Refresh.drawBlank_fits
      (decide (m.disp.graphicMode ≠ some .blank)) h' rfl
    unfold vgaUpdateDisplay
    simp only [hmode]
    rw [bind_pure_error_iff, hok]
    exact iff_of_false (ok_ne_error _) id

/-- A refresh that ends leaves a surface that fits. -/
theorem fits_refresh (h : m.disp.Fits m.dev.size) {hook : Option (Int32 × Int32)} {m' : VgaScreen}
    (hok : m.vgaUpdateDisplay o = .ok (hook, m')) : m'.disp.Fits m.dev.size := by
  cases hmode : m.dev.regs.graphicMode with
  | text =>
    rw [vgaUpdateDisplay_text hmode] at hok
    split at hok
    · cases hok
      rw [locateText_eq]
      exact ⟨h.placed, h.inside, nofun⟩
    · obtain ⟨⟨dev, disp⟩, hdraw, hok⟩ := bind_ok hok
      cases hok
      obtain ⟨hplaced, hdepth⟩ := preparedText_placed h.placed
      exact Refresh.drawPage_fits hplaced hdepth (preparedText_other m).1 hdraw
  | graph =>
    obtain ⟨p, hdraw, -, rfl⟩ := vgaUpdateDisplay_graph hmode hok
    obtain ⟨hsync, -, hwidth, hheight⟩ := prepared_synced o m
    have hplaced := prepared_placed (o := o) h.placed
    have hinside := prepared_inside (o := o) h
    generalize m.prepared o = q at *
    obtain ⟨l, hl, hdraw⟩ := bind_ok hdraw
    cases hdraw
    have hin := Refresh.Inside.drawn hplaced hwidth hheight hinside hl
    -- the loop changes the pixels of a buffer and nothing else of a surface
    have halike : q.2.surface.Alike l.surface := by
      rw [← (Frame.drawLines_eq_ok_iff.mp hl).2]
      exact Frame.loop_alike _ _
    refine ⟨hplaced.alike halike ⟨rfl, rfl, rfl, rfl, rfl⟩, ?_, fun _ => ?_⟩
    · exact fun data bytes w linesize hs => hin data bytes w linesize (halike.shared hs)
    · exact fun data bytes w linesize hs => hsync.data data bytes w linesize (halike.shared hs)
  | blank =>
    have h' : Refresh.Fits { m.disp with graphicMode := some .blank } m.dev.size :=
      ⟨h.placed, h.inside, nofun⟩
    obtain ⟨p, hblank, hfits⟩ := Refresh.drawBlank_fits
      (decide (m.disp.graphicMode ≠ some .blank)) h' rfl
    unfold vgaUpdateDisplay at hok
    simp only [hmode] at hok
    rw [hblank] at hok
    cases hok
    exact hfits

structure Sound (m : VgaScreen) : Prop where
  wellFormed : m.dev.regs.WellFormed
  fits : m.disp.Fits m.dev.size

theorem sound_reset (vram : Mem) (latch : BitVec 32) (dirty : ℕ → Bool) (pixels : Raster) :
    (reset vram latch dirty pixels).Sound := by
  refine ⟨VGAState.reset_wellFormed, ⟨Nat.zero_le _, Nat.zero_le _, .inr ⟨Nat.zero_le _,
    Nat.zero_le _⟩⟩, .of_own rfl, nofun⟩

theorem Sound.step (h : m.Sound) {op : ScreenOp} {hook : Option (Int32 × Int32)} {m' : VgaScreen}
    (hok : m.step o op = .ok (hook, m')) : m'.Sound := by
  cases op with
  | bus op =>
    simp only [VgaScreen.step] at hok
    cases hbus : m.dev.busStep o op with
    | error f =>
      rw [hbus] at hok
      cases hok
    | ok r =>
      rw [hbus] at hok
      cases hok
      have hwf := VGADevice.busStep_wellFormed h.wellFormed hbus
      refine ⟨hwf, ?_⟩
      rw [VGADevice.size_eq hwf, ← VGADevice.size_eq h.wellFormed]
      exact h.fits
  | lfb addr val =>
    simp only [VgaScreen.step] at hok
    split at hok
    · cases hok
      exact ⟨h.wellFormed, h.fits⟩
    · cases hok
      exact h
  | invalidate =>
    cases hok
    exact ⟨h.wellFormed, h.fits.placed.invalidate, h.fits.inside, h.fits.starts⟩
  | refresh =>
    have hregs := (vgaUpdateDisplay_ok hok).1
    refine ⟨hregs ▸ h.wellFormed, ?_⟩
    have hsize : m'.dev.size = m.dev.size := congrArg (fun s => s.vramSize.toNat) hregs
    rw [hsize]
    exact fits_refresh h.fits hok

end VgaScreen

end VmPlayback.Vga
