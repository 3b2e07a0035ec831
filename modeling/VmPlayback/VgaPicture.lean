import VmPlayback.VgaSurface

namespace VmPlayback.Vga

open Transducer

namespace PlanarVga

variable (t : PlanarVga)

/-- Where a line of the screen begins.  Lines are repeated, and those after the line
compare come from the beginning of the memory. -/
def base (y : ℕ) : ℕ :=
  let (lineOffset, startAddr, lineCompare) := t.regs.vgaGetOffsets
  let line := y / (t.regs.multiScan + 1)
  if y ≤ lineCompare.toNat then startAddr.toNat + line * (lineOffset.toNat / 4)
  else (line - (lineCompare.toNat + 1) / (t.regs.multiScan + 1)) * (lineOffset.toNat / 4)

def picture (y : ℕ) : List UInt32 :=
  let pixels := (List.range (t.regs.width.toNat / 8)).flatMap fun x =>
    (List.finRange 8).map fun k =>
      t.regs.palette16 (colour (t.regs.ar 0x12 &&& 0xf) (t.cell (t.base y + x)) k.rev)
  if t.regs.sr 0x01 &&& 8 ≠ 0 then twice pixels else pixels

end PlanarVga

namespace VGAState

def Legacy (s : VGAState) : Prop := s.vbeRegs .enable &&& 1 = 0

instance (s : VGAState) : Decidable s.Legacy := inferInstanceAs (Decidable (_ = _))

variable {s : VGAState}

theorem and_shiftLeft_lt (x mask : UInt8) (k : UInt32) {n : ℕ}
    (h : mask.toNat <<< (k.toNat % 32) < n) : ((x &&& mask).toUInt32 <<< k).toNat < n := by
  rw [UInt32.toNat_shiftLeft, UInt8.toNat_toUInt32, UInt8.toNat_and]
  refine lt_of_le_of_lt (Nat.mod_le _ _) (lt_of_le_of_lt ?_ h)
  rw [Nat.shiftLeft_eq, Nat.shiftLeft_eq]
  exact Nat.mul_le_mul_right _ Nat.and_le_right

theorem Legacy.height_le (h : s.Legacy) : s.height.toNat ≤ 1024 := by
  have hno : ¬ s.vbeRegs .enable &&& 1 ≠ 0 := not_not.mpr h
  have hbits : ((s.cr 0x12).toUInt32 ||| ((s.cr 0x07 &&& 0x02).toUInt32 <<< 7) |||
      ((s.cr 0x07 &&& 0x40).toUInt32 <<< 3)).toNat < 2 ^ 10 := by
    rw [UInt32.toNat_or, UInt32.toNat_or]
    refine Nat.or_lt_two_pow (Nat.or_lt_two_pow ?_ ?_) ?_
    · rw [UInt8.toNat_toUInt32]
      exact lt_trans (s.cr 0x12).toNat_lt (by decide)
    · exact and_shiftLeft_lt _ _ _ (by decide)
    · exact and_shiftLeft_lt _ _ _ (by decide)
  have heq : s.height = ((s.cr 0x12).toUInt32 ||| ((s.cr 0x07 &&& 0x02).toUInt32 <<< 7) |||
      ((s.cr 0x07 &&& 0x40).toUInt32 <<< 3)) + 1 := by
    rw [height, VGACommonState.vgaGetResolution, if_neg hno]
    rfl
  have hone : (1 : UInt32).toNat = 1 := rfl
  rw [heq, UInt32.toNat_add, hone]
  omega

theorem Legacy.width_mem (h : s.Legacy) :
    8 ≤ s.width.toNat ∧ s.width.toNat ≤ 2048 ∧ s.width.toNat % 8 = 0 := by
  have hno : ¬ s.vbeRegs .enable &&& 1 ≠ 0 := not_not.mpr h
  have hlt := (s.cr 0x01).toNat_lt
  have heq : s.width = ((s.cr 0x01).toUInt32 + 1) * 8 := by
    rw [width, VGACommonState.vgaGetResolution, if_neg hno]
    rfl
  have hone : (1 : UInt32).toNat = 1 := rfl
  have height : (8 : UInt32).toNat = 8 := rfl
  rw [heq, UInt32.toNat_mul, UInt32.toNat_add, UInt8.toNat_toUInt32, hone, height]
  omega

theorem Legacy.bpp (h : s.Legacy) : s.vgaGetBpp = 0 := by
  have hno : ¬ s.vbeRegs .enable &&& 1 ≠ 0 := not_not.mpr h
  rw [VGACommonState.vgaGetBpp, if_neg hno]

theorem Legacy.bits (h : s.Legacy) : s.kind.bits = 4 := by
  unfold kind
  rw [h.bpp]
  split
  · split <;> rfl
  · split
    · split <;> rfl
    · rfl

/-- A line of the 16-colour modes is as long as what is shown. -/
theorem Legacy.columns (h : s.Legacy) (hshift : s.shiftControl = 0) :
    s.kind.columns s.width.toNat = s.dispWidth.toNat := by
  obtain ⟨-, -, hmod⟩ := h.width_mem
  rw [s.dispWidth_toNat, kind, if_pos hshift]
  by_cases hdouble : s.sr 0x01 &&& 8 ≠ 0
  · rw [if_pos hdouble, if_pos ⟨.inl hshift, hdouble⟩, DrawLine.columns]
    omega
  · rw [if_neg hdouble, if_neg fun h => hdouble h.2, DrawLine.columns]
    omega

theorem Legacy.offsets (h : s.Legacy) : s.vgaGetOffsets.1.toNat ≤ 2040 ∧
    s.vgaGetOffsets.1.toNat % 8 = 0 ∧ s.vgaGetOffsets.2.1.toNat < 2 ^ 16 := by
  have hno : ¬ s.vbeRegs .enable &&& 1 ≠ 0 := not_not.mpr h
  rw [vgaGetOffsets, if_neg hno]
  have h13 := (s.cr 0x13).toNat_lt
  have h3 : (3 : UInt32).toNat % 32 = 3 := rfl
  have hline : ((s.cr 0x13).toUInt32 <<< 3).toNat = (s.cr 0x13).toNat * 8 := by
    rw [UInt32.toNat_shiftLeft, UInt8.toNat_toUInt32, h3, Nat.shiftLeft_eq]
    omega
  refine ⟨by simp only [hline]; omega, by simp only [hline]; omega, ?_⟩
  simp only [UInt32.toNat_or]
  refine Nat.or_lt_two_pow ?_ ?_
  · rw [UInt8.toNat_toUInt32]
    exact lt_trans (s.cr 0x0d).toNat_lt (by decide)
  · have h0c := (s.cr 0x0c).toNat_lt
    have h8 : (8 : UInt32).toNat % 32 = 8 := rfl
    rw [UInt32.toNat_shiftLeft, UInt8.toNat_toUInt32, h8, Nat.shiftLeft_eq]
    omega

end VGAState

namespace Frame

variable {f : Frame}

theorem next_addr1_le (y : ℕ) (c : Scan) :
    (f.next y c).addr1.toNat ≤ c.addr1.toNat + f.lineOffset.toNat := by
  unfold next
  dsimp only
  have hadd : (c.addr1 + f.lineOffset).toNat ≤ c.addr1.toNat + f.lineOffset.toNat := by
    rw [UInt32.toNat_add]
    exact Nat.mod_le _ _
  split
  · exact Nat.zero_le _
  · split
    · dsimp only
      split
      · exact hadd
      · omega
    · exact Nat.le_add_right _ _

theorem scan_addr1_le (y : ℕ) :
    (f.scan y).addr1.toNat ≤ 4 * f.startAddr.toNat + y * f.lineOffset.toNat := by
  induction y with
  | zero =>
    have h4 : (4 : UInt32).toNat = 4 := rfl
    simp only [scan, UInt32.toNat_mul, h4]
    refine le_trans (Nat.mod_le _ _) ?_
    omega
  | succ y ih =>
    calc (f.next y (f.scan y)).addr1.toNat
        ≤ (f.scan y).addr1.toNat + f.lineOffset.toNat := next_addr1_le y _
      _ ≤ 4 * f.startAddr.toNat + y * f.lineOffset.toNat + f.lineOffset.toNat :=
        Nat.add_le_add_right ih _
      _ = 4 * f.startAddr.toNat + (y + 1) * f.lineOffset.toNat := by ring

/-- What replacing bits 14 to 16 of an address keeps, the address of a line has. -/
theorem lineAddr_of_addr1 {P : UInt32 → Prop} {c : Scan} (h : P c.addr1)
    (hset : ∀ a mask b shift : UInt32, P a → b.toNat < 4 → shift.toNat = 14 ∨ shift.toNat = 15 →
      P ((a &&& ~~~mask) ||| b <<< shift)) : P (f.lineAddr c) := by
  have hshift : ((14 : UInt32) + ((f.cr17 >>> 6) &&& 1).toUInt32).toNat = 14 ∨
      ((14 : UInt32) + ((f.cr17 >>> 6) &&& 1).toUInt32).toNat = 15 := by
    have h14 : (14 : UInt32).toNat = 14 := rfl
    have h1 : (1 : UInt8).toNat = 1 := rfl
    rw [UInt32.toNat_add, UInt8.toNat_toUInt32, UInt8.toNat_and, h14, h1, Nat.and_one_is_mod]
    omega
  have hbit : ∀ n < 4, (UInt32.ofNat n).toNat < 4 := by decide
  unfold lineAddr
  dsimp only
  have hfirst : P (if f.cr17 &&& 1 = 0 then
      (c.addr1 &&& ~~~((1 : UInt32) <<< ((14 : UInt32) + ((f.cr17 >>> 6) &&& 1).toUInt32))) |||
        UInt32.ofNat (c.y1 % 2) <<< ((14 : UInt32) + ((f.cr17 >>> 6) &&& 1).toUInt32)
      else c.addr1) := by
    split
    · exact hset _ _ _ _ h (hbit _ (by omega)) hshift
    · exact h
  split
  · exact hset _ _ _ _ hfirst (hbit _ (by omega)) (.inl rfl)
  · exact hfirst

theorem two_pow_shift {shift : UInt32} (hs : shift.toNat = 14 ∨ shift.toNat = 15) :
    2 ^ (shift.toNat % 32) = 16384 ∨ 2 ^ (shift.toNat % 32) = 32768 := by
  rcases hs with hs | hs
  · exact .inl (by rw [hs]; rfl)
  · exact .inr (by rw [hs]; rfl)

theorem setBits_lt {a mask b shift : UInt32} (ha : a.toNat < 2 ^ 22) (hb : b.toNat < 4)
    (hs : shift.toNat = 14 ∨ shift.toNat = 15) :
    ((a &&& ~~~mask) ||| b <<< shift).toNat < 2 ^ 22 := by
  rw [UInt32.toNat_or, UInt32.toNat_and, UInt32.toNat_shiftLeft, Nat.shiftLeft_eq]
  refine Nat.or_lt_two_pow (lt_of_le_of_lt Nat.and_le_left ha) ?_
  rcases two_pow_shift hs with hs | hs <;> rw [hs] <;> omega

theorem succ_div_succ (y m : ℕ) (h : y % (m + 1) = m) :
    (y + 1) / (m + 1) = y / (m + 1) + 1 ∧ (y + 1) % (m + 1) = 0 := by
  have hdvd : m + 1 ∣ y + 1 := by
    have := Nat.div_add_mod y (m + 1)
    refine ⟨y / (m + 1) + 1, ?_⟩
    rw [Nat.mul_succ]
    omega
  exact ⟨Nat.succ_div_of_dvd hdvd, Nat.mod_eq_zero_of_dvd hdvd⟩

theorem succ_div_same (y m : ℕ) (h : y % (m + 1) ≠ m) :
    (y + 1) / (m + 1) = y / (m + 1) ∧ (y + 1) % (m + 1) = y % (m + 1) + 1 := by
  have hlt : y % (m + 1) < m + 1 := Nat.mod_lt y (Nat.succ_pos m)
  have hmod : (y + 1) % (m + 1) = y % (m + 1) + 1 := by
    rw [Nat.add_mod, Nat.mod_eq_of_lt (by omega : 1 < m + 1), Nat.mod_eq_of_lt (by omega)]
  refine ⟨Nat.succ_div_of_not_dvd ?_, hmod⟩
  rw [Nat.dvd_iff_mod_eq_zero]
  omega

/-- Every line of the memory is shown `multi_scan + 1` times; after the line compare the
count starts again at the beginning of the memory. -/
theorem scan_eq (hcga : f.cr17 &&& 3 = 3) (y : ℕ) :
    f.scan y =
      { addr1 := if y ≤ f.lineCompare.toNat then
            f.startAddr * 4 + UInt32.ofNat (y / (f.multiScan + 1)) * f.lineOffset
          else
            UInt32.ofNat (y / (f.multiScan + 1) - (f.lineCompare.toNat + 1) / (f.multiScan + 1)) *
              f.lineOffset
        y1 := y / (f.multiScan + 1)
        multiRun := f.multiScan - y % (f.multiScan + 1) } := by
  have hmask : ((f.cr17 &&& 3) ^^^ 3).toNat = 0 := by
    rw [hcga]
    rfl
  induction y with
  | zero => simp [scan]
  | succ y ih =>
    have hlt : y % (f.multiScan + 1) < f.multiScan + 1 := Nat.mod_lt y (Nat.succ_pos _)
    rw [scan, ih, next]
    simp only [hmask, Nat.and_zero, if_true]
    by_cases hrun : y % (f.multiScan + 1) = f.multiScan
    · obtain ⟨hdiv, hmod⟩ := succ_div_succ y f.multiScan hrun
      rw [if_pos (by omega : f.multiScan - y % (f.multiScan + 1) = 0), hdiv, hmod]
      rcases Nat.lt_trichotomy y f.lineCompare.toNat with hy | hy | hy
      · rw [if_neg hy.ne, if_pos hy.le, if_pos (by omega)]
        simp [UInt32.add_assoc, add_mul]
      · have hnext : ¬ y + 1 ≤ f.lineCompare.toNat := by omega
        rw [if_pos hy, if_neg hnext, ← hy, hdiv]
        simp
      · have hle : (f.lineCompare.toNat + 1) / (f.multiScan + 1) ≤ y / (f.multiScan + 1) :=
          Nat.div_le_div_right hy
        have hsub : y / (f.multiScan + 1) + 1 - (f.lineCompare.toNat + 1) / (f.multiScan + 1) =
            y / (f.multiScan + 1) - (f.lineCompare.toNat + 1) / (f.multiScan + 1) + 1 := by omega
        rw [if_neg hy.ne', if_neg (by omega), if_neg (by omega), hsub]
        simp [add_mul]
    · obtain ⟨hdiv, hmod⟩ := succ_div_same y f.multiScan hrun
      rw [if_neg (by omega : ¬ f.multiScan - y % (f.multiScan + 1) = 0), hdiv, hmod]
      rcases Nat.lt_trichotomy y f.lineCompare.toNat with hy | hy | hy
      · rw [if_neg hy.ne, if_pos hy.le, if_pos (by omega)]
        simp
        omega
      · have hnext : ¬ y + 1 ≤ f.lineCompare.toNat := by omega
        rw [if_pos hy, if_neg hnext, ← hy, hdiv]
        simp
        omega
      · rw [if_neg hy.ne', if_neg (by omega), if_neg (by omega)]
        simp
        omega

/-- In the modes without VBE no address of a line comes near the end of the memory. -/
theorem addr_lt {y : ℕ} (hstart : f.startAddr.toNat < 2 ^ 16) (hoff : f.lineOffset.toNat ≤ 2040)
    (hy : y < 1024) : (f.addr y).toNat < 2 ^ 22 := by
  have hscan : (f.scan y).addr1.toNat < 2 ^ 22 := by
    have hle : (f.scan y).addr1.toNat ≤ 4 * f.startAddr.toNat + y * f.lineOffset.toNat :=
      scan_addr1_le y
    have hmul : y * f.lineOffset.toNat ≤ 1024 * 2040 := Nat.mul_le_mul hy.le hoff
    omega
  exact lineAddr_of_addr1 (P := fun a => a.toNat < 2 ^ 22) hscan
    fun a mask b shift ha hb hs => setBits_lt ha hb hs

end Frame

namespace Refresh

variable {r : Refresh} {s : VGAState}

/-- Without VBE the lines can always be watched. -/
theorem frame_watchable (hsync : r.Synced s) (h : s.Legacy) {w h' : ℕ} {px : Raster}
    (hown : r.surface = .own w h' px) : (r.frame s).Watchable r.surface := by
  have hoffsets := h.offsets
  rw [← hsync.offsets] at hoffsets
  obtain ⟨hoff, -, hstart⟩ := hoffsets
  have hheight : (r.frame s).height ≤ 1024 := h.height_le
  have hwidth : 0 < (r.frame s).bwidth ∧ (r.frame s).bwidth ≤ 1024 := by
    have hw := h.width_mem
    have hbits : (r.frame s).kind.bits = 4 := h.bits
    have hfw : (r.frame s).width = s.width.toNat := rfl
    rw [Frame.bwidth, hbits, hfw]
    omega
  refine ⟨fun y hy => ?_, ?_⟩
  · have haddr : ((r.frame s).addr y).toNat < 2 ^ 22 := Frame.addr_lt hstart hoff (by omega)
    rw [Frame.page1_eq hwidth.1 (by omega), Frame.page0]
    simp only [pageSize]
    omega
  · rw [hown]
    trivial

end Refresh

namespace Frame

variable {f : Frame}

theorem lineAddr_of_mode (hcga : f.cr17 &&& 3 = 3) (c : Scan) : f.lineAddr c = c.addr1 := by
  have hand : ∀ b : UInt8, 3 &&& b = b → f.cr17 &&& b = b := by
    intro b hb
    calc f.cr17 &&& b = f.cr17 &&& 3 &&& b := by rw [UInt8.and_assoc, hb]
      _ = b := by rw [hcga, hb]
  have h1 : ¬ f.cr17 &&& 1 = 0 := by
    rw [hand 1 rfl]
    decide
  have h2 : ¬ f.cr17 &&& 2 = 0 := by
    rw [hand 2 rfl]
    decide
  simp only [lineAddr, h1, h2, if_false]

theorem toNat_ofNat_mul {q : ℕ} {lineOffset : UInt32} (hq : q ≤ 1024)
    (hoff : lineOffset.toNat ≤ 2040) :
    (UInt32.ofNat q * lineOffset).toNat = q * lineOffset.toNat := by
  have hmul : q * lineOffset.toNat ≤ 1024 * 2040 := Nat.mul_le_mul hq hoff
  rw [UInt32.toNat_mul, UInt32.toNat_ofNat', Nat.mod_eq_of_lt (by omega : q < 2 ^ 32),
    Nat.mod_eq_of_lt (by omega)]

/-- No address wraps around, so lines are where counting finds them. -/
theorem addr_toNat (hcga : f.cr17 &&& 3 = 3) (hstart : f.startAddr.toNat < 2 ^ 16)
    (hoff : f.lineOffset.toNat ≤ 2040) {y : ℕ} (hy : y < 1024) :
    (f.addr y).toNat =
      if y ≤ f.lineCompare.toNat then
        4 * f.startAddr.toNat + y / (f.multiScan + 1) * f.lineOffset.toNat
      else (y / (f.multiScan + 1) - (f.lineCompare.toNat + 1) / (f.multiScan + 1)) *
        f.lineOffset.toNat := by
  have hq : y / (f.multiScan + 1) ≤ 1024 := le_trans (Nat.div_le_self _ _) hy.le
  have h4 : (4 : UInt32).toNat = 4 := rfl
  rw [addr, lineAddr_of_mode hcga, scan_eq hcga]
  dsimp only
  split
  · have hmul := toNat_ofNat_mul hq hoff
    have hle : y / (f.multiScan + 1) * f.lineOffset.toNat ≤ 1024 * 2040 := Nat.mul_le_mul hq hoff
    rw [UInt32.toNat_add, UInt32.toNat_mul, h4, hmul]
    omega
  · exact toNat_ofNat_mul (le_trans (Nat.sub_le _ _) hq) hoff

end Frame

namespace Refresh

variable {r : Refresh} {o : ByteOrder}

theorem Synced.addr_eq_base {t : PlanarVga} (hsync : r.Synced t.regs) (h : t.regs.Legacy)
    (hcga : t.regs.cr 0x17 &&& 3 = 3) {y : ℕ} (hy : y < t.regs.height.toNat) :
    ((r.frame t.regs).addr y).toNat = 4 * t.base y := by
  have hoffsets := h.offsets
  have hget := hsync.offsets
  unfold PlanarVga.base
  rw [← hget] at hoffsets ⊢
  dsimp only at hoffsets ⊢
  obtain ⟨hoff, hmod, hstart⟩ := hoffsets
  have haddr : ((r.frame t.regs).addr y).toNat = _ :=
    Frame.addr_toNat hcga hstart hoff (lt_of_lt_of_le hy h.height_le)
  obtain ⟨k, hk⟩ : ∃ k, r.lineOffset.toNat = 4 * k := ⟨r.lineOffset.toNat / 4, by omega⟩
  have hdiv : r.lineOffset.toNat / 4 = k := by omega
  rw [haddr, hdiv]
  by_cases hc : y ≤ (r.frame t.regs).lineCompare.toNat
  · rw [if_pos hc, if_pos (show y ≤ r.lineCompare.toNat from hc)]
    simp only [frame, hk]
    ring
  · rw [if_neg hc, if_neg (show ¬ y ≤ r.lineCompare.toNat from hc)]
    simp only [frame, hk]
    ring

/-- A line of the 16-colour modes as the memory has it is the line of the picture. -/
theorem Synced.picture_eq {d : VGADevice} (hsync : r.Synced d.regs) (h : d.regs.Legacy)
    (hshift : d.regs.shiftControl = 0) (hcga : d.regs.cr 0x17 &&& 3 = 3)
    {w h' : ℕ} {px : Raster} (hown : r.surface = .own w h' px) {y : ℕ}
    (hy : y < d.regs.height.toNat) :
    (r.frame d.regs).picture o d.vram r.surface y = (d.planar o).picture y := by
  have haddr : ((r.frame d.regs).addr y).toNat = 4 * (d.planar o).base y :=
    Synced.addr_eq_base (t := d.planar o) hsync h hcga hy
  have hplanes : d.regs.ar 0x12 &&& 0xf < 16 := by
    rw [UInt8.lt_iff_toNat_lt, UInt8.toNat_and]
    exact Nat.lt_succ_of_le Nat.and_le_right
  have hpalette : ∀ i < 16, r.lastPalette i = d.regs.palette16 i := by
    have hp := hsync.palette
    have hline : d.regs.linePalette d.regs.kind = (16, d.regs.palette16) := by
      simp only [VGAState.kind, hshift, if_true]
      split <;> rfl
    rwa [hline] at hp
  have hcolour : ∀ (shown : UInt8) (c : Cell) (i : Fin 8), colour shown c i < 16 := fun _ _ _ =>
    (BitVec.ofFnLE _).isLt
  have hline : drawLine o (r.frame d.regs).colours d.vram .line4 (4 * (d.planar o).base y)
      d.regs.width.toNat = (List.range (d.regs.width.toNat / 8)).flatMap fun x =>
        (List.finRange 8).map fun k => d.regs.palette16
          (colour (d.regs.ar 0x12 &&& 0xf) ((d.planar o).cell ((d.planar o).base y + x)) k.rev) :=
      by
    rw [line4_eq hplanes]
    simp only [frame, hpalette _ (hcolour _ _ _)]
    rfl
  rw [hown]
  simp only [Frame.picture, haddr, PlanarVga.picture]
  change drawLine o (r.frame d.regs).colours d.vram d.regs.kind (4 * (d.planar o).base y)
    d.regs.width.toNat = if d.regs.sr 0x01 &&& 8 ≠ 0 then twice _ else _
  by_cases hdouble : d.regs.sr 0x01 &&& 8 ≠ 0
  · have hkind : d.regs.kind = .line4d2 := by rw [VGAState.kind, if_pos hshift, if_pos hdouble]
    rw [if_pos hdouble, hkind, line4d2_eq, hline]
    rfl
  · have hkind : d.regs.kind = .line4 := by rw [VGAState.kind, if_pos hshift, if_neg hdouble]
    rw [if_neg hdouble, hkind, hline]
    rfl

end Refresh

namespace VgaScreen

variable {o : ByteOrder} (m : VgaScreen)

/-- What a run must keep to: no refresh with VBE on, and while a graphics mode is shown
the registers that are used and not compared stay, and the screen is not cleared. -/
def Tame : ScreenOp → Prop
  | .bus op => m.disp.graphicMode = some .graph → op.clears m.dev.regs = false
  | .refresh => m.dev.regs.graphicMode = .graph →
    m.dev.regs.Legacy ∧ (m.disp.graphicMode = some .graph →
      ∀ s₀ ∈ m.seen, m.dev.regs.untracked = s₀.untracked)
  | _ => True

instance : ∀ op, Decidable (m.Tame op)
  | .bus _ | .refresh => inferInstanceAs (Decidable (_ → _))
  | .lfb _ _ | .invalidate => isTrue trivial

variable {m}

theorem prepared_own (h : m.disp.Placed) (hlegacy : m.dev.regs.Legacy) :
    ∃ w h px, (m.prepared o).2.surface = .own w h px :=
  (prepared_placed h).own ((prepared_synced o m).1.depth.trans hlegacy.bpp)

theorem Tame.steady (h : m.Sound) {op : ScreenOp} (ht : m.Tame op) : m.Steady o op := by
  cases op with
  | bus op => exact ht
  | lfb addr val => trivial
  | invalidate => trivial
  | refresh =>
    intro hmode
    obtain ⟨hlegacy, huntracked⟩ := ht hmode
    obtain ⟨w, h', px, hown⟩ := prepared_own (o := o) h.fits.placed hlegacy
    exact ⟨Refresh.frame_watchable (prepared_synced o m).1 hlegacy hown, huntracked⟩

/-- Over every run without VBE, in the 16-colour modes: after a refresh the screen is the
picture of the planar machine, line by line and pixel by pixel. -/
theorem run_pictures (o : ByteOrder) (vram : Mem) (latch : BitVec 32) (dirty : ℕ → Bool)
    (pixels : Raster) (es : List ScreenOp)
    (htame : Throughout (VgaScreen.step o) Tame (reset vram latch dirty pixels) (es ++ [.refresh]))
    {hooks : List (Option (Int32 × Int32))} {m : VgaScreen}
    (hrun : run (VgaScreen.step o) (reset vram latch dirty pixels) (es ++ [.refresh]) =
      .ok (hooks, m))
    (hmode : m.dev.regs.graphicMode = .graph) (hshift : m.dev.regs.shiftControl = 0)
    (hcga : m.dev.regs.cr 0x17 &&& 3 = 3) :
    ∀ y < m.dev.regs.height.toNat,
      m.disp.screen.row y m.dev.regs.dispWidth.toNat = (m.dev.planar o).picture y := by
  obtain ⟨hooks₁, m₁, hooks₂, hes, hlast, -⟩ := run_append_ok.mp hrun
  obtain ⟨hook, m₂, hooks', hone, hnil, -⟩ := run_cons_ok.mp hlast
  cases hnil
  obtain ⟨hpre, hrefresh, -⟩ := htame.append hes
  have hinv : m₁.UpToDate o ∧ m₁.Sound :=
    hpre.invariant (J := fun m => m.UpToDate o ∧ m.Sound)
      (fun m op hook m' hm ht hok => ⟨hm.1.step (ht.steady hm.2) hok, hm.2.step hok⟩)
      ⟨⟨VGAState.reset_wellFormed, fun h => nomatch h⟩, sound_reset vram latch dirty pixels⟩ hes
  have hsteady : m₁.Steady o .refresh := hrefresh.steady hinv.2
  have hregs := (vgaUpdateDisplay_ok hone).1
  rw [hregs] at hmode
  obtain ⟨hshows, hsync, -⟩ := hinv.1.refresh hsteady hmode hone
  have hlegacy : m.dev.regs.Legacy := by
    rw [hregs]
    exact (hrefresh hmode).1
  have hrefreshed : m₁.step o .refresh = .ok (hook, m) := hone
  have hsound : m.Sound := hinv.2.step hrefreshed
  obtain ⟨w, h', px, hown⟩ := hsound.fits.placed.own (hsync.depth.trans hlegacy.bpp)
  intro y hy
  rw [← VGAState.Legacy.columns hlegacy hshift, ← hsync.picture_eq hlegacy hshift hcga hown hy,
    ← hshows y hy, hown]
  rfl

theorem run_pictures_halfWhite :
    ∃ hooks m, run (VgaScreen.step .little) (reset (fun _ => 0) 0 (fun _ => false) fun _ _ => 0)
        ([.bus (.outb 0x3b4 0x17), .bus (.outb 0x3b5 3)] ++ halfWhite ++ [.refresh]) =
          .ok (hooks, m) ∧
      (∀ y < m.dev.regs.height.toNat,
        m.disp.screen.row y m.dev.regs.dispWidth.toNat = (m.dev.planar .little).picture y) ∧
      (m.dev.planar .little).picture 0 =
        [0xffffff, 0xffffff, 0xffffff, 0xffffff, 0, 0, 0, 0] := by
  refine ⟨_, _, rfl, ?_, by decide +kernel⟩
  exact run_pictures .little (fun _ => 0) 0 (fun _ => false) (fun _ _ => 0)
    ([.bus (.outb 0x3b4 0x17), .bus (.outb 0x3b5 3)] ++ halfWhite) (by decide +kernel) rfl
    (by decide +kernel) (by decide +kernel) (by decide +kernel)

end VgaScreen

end VmPlayback.Vga
