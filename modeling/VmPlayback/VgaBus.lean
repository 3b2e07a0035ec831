import VmPlayback.VgaMemory

namespace VmPlayback.Vga

open Transducer

inductive BusOp where
  | inb (port : UInt16)
  | outb (port : UInt16) (val : UInt8)
  | vbeReadIndex
  | vbeReadData
  | vbeWriteIndex (val : UInt16)
  | vbeWriteData (val : UInt16)
  | readb (addr : ℕ)
  | readw (addr : ℕ)
  | readl (addr : ℕ)
  | writeb (addr : ℕ) (val : UInt8)
  | writew (addr : ℕ) (val : UInt16)
  | writel (addr : ℕ) (val : UInt32)
  deriving DecidableEq, Repr

namespace VGADevice

/-- After `vga_common_init` and `vga_common_reset`, which leave the latch alone. -/
def reset (vram : Mem) (latch : BitVec 32) (dirty : ℕ → Bool) : VGADevice where
  regs := VGAState.reset
  vram := vram
  latch := latch
  planeUpdated := 0
  dirty := dirty

def busStep (o : ByteOrder) (d : VGADevice) : BusOp → Except Fault (UInt32 × VGADevice)
  | .inb port => do
    let (val, regs) ← d.regs.vgaIoportRead port
    return (val.toUInt32, { d with regs })
  | .outb port val => do
    let regs ← d.regs.vgaIoportWrite port val
    return (0, { d with regs })
  | .vbeReadIndex => return (d.regs.vbeIndex.toUInt32, d)
  | .vbeReadData => do
    let val ← d.regs.vbeIoportReadData
    return (val.toUInt32, d)
  | .vbeWriteIndex val => return (0, { d with regs := d.regs.vbeWriteIndex val })
  | .vbeWriteData val => do
    let d ← d.vbeIoportWriteData val
    return (0, d)
  | .readb addr => do
    let (val, d) ← d.vgaMemReadb o addr
    return (val.toUInt32, d)
  | .readw addr => do
    let (val, d) ← d.vgaMemReadw o addr
    return (val.toUInt32, d)
  | .readl addr => d.vgaMemReadl o addr
  | .writeb addr val => do
    let d ← d.vgaMemWriteb o addr val
    return (0, d)
  | .writew addr val => do
    let d ← d.vgaMemWritew o addr val
    return (0, d)
  | .writel addr val => do
    let d ← d.vgaMemWritel o addr val
    return (0, d)

end VGADevice

def Within (mask x : UInt8) : Prop := x &&& mask = x

instance (mask x : UInt8) : Decidable (Within mask x) := inferInstanceAs (Decidable (_ = _))

theorem Within.le {mask x : UInt8} (h : Within mask x) : x ≤ mask := by
  rw [← h, UInt8.le_iff_toNat_le, UInt8.toNat_and]
  exact Nat.and_le_right

theorem within_and (mask x : UInt8) : Within mask (x &&& mask) := by
  rw [Within, UInt8.and_assoc, UInt8.and_self]

theorem Within.and {mask x : UInt8} (h : Within mask x) (y : UInt8) : Within mask (x &&& y) := by
  rw [Within, UInt8.and_assoc, UInt8.and_comm y, ← UInt8.and_assoc, h]

theorem Within.or {mask x y : UInt8} (hx : Within mask x) (hy : Within mask y) :
    Within mask (x ||| y) := by
  apply UInt8.toNat_inj.mp
  rw [UInt8.toNat_and, UInt8.toNat_or, Nat.and_or_distrib_right, ← UInt8.toNat_and,
    ← UInt8.toNat_and, hx, hy]

/-- What the guest cannot undo, of the registers the VBE ports write. -/
structure VGACommonState.WellFormed (s : VGACommonState) : Prop where
  vramSize_eq : s.vramSize = vgaRamSize
  bankMask_eq : s.vbeBankMask = 0xff
  bankOffset_le : s.bankOffset.toNat ≤ 0xff0000
  sr_within : ∀ i, Within (srMask.getD i.toNat 0) (s.sr i)
  gr_within : ∀ i, Within (grMask.getD i.toNat 0) (s.gr i)
  xres_le : s.vbeRegs .xres ≤ 2560
  yres_le : s.vbeRegs .yres ≤ 1600
  bpp_le : s.vbeRegs .bpp ≤ 32

namespace VGACommonState

variable {s s' : VGACommonState}

theorem WellFormed.modSr (h : s.WellFormed) {i : UInt8} {f : UInt8 → UInt8}
    (hf : Within (srMask.getD i.toNat 0) (f (s.sr i))) : (s.modSr i f).WellFormed :=
  { h with
    sr_within := by
      intro j
      by_cases hj : j = i
      · subst hj
        simpa [VGACommonState.modSr] using hf
      · simpa [VGACommonState.modSr, hj] using h.sr_within j }

theorem WellFormed.modGr (h : s.WellFormed) {i : UInt8} {f : UInt8 → UInt8}
    (hf : Within (grMask.getD i.toNat 0) (f (s.gr i))) : (s.modGr i f).WellFormed :=
  { h with
    gr_within := by
      intro j
      by_cases hj : j = i
      · subst hj
        simpa [VGACommonState.modGr] using hf
      · simpa [VGACommonState.modGr, hj] using h.gr_within j }

theorem WellFormed.modCr (h : s.WellFormed) (i : UInt8) (f : UInt8 → UInt8) :
    (s.modCr i f).WellFormed := { h with }

theorem WellFormed.setDac (h : s.WellFormed) (b : Bool) :
    ({ s with dac8bit := b } : VGACommonState).WellFormed := { h with }

theorem WellFormed.setLine (h : s.WellFormed) (line start : UInt32) :
    ({ s with vbeLineOffset := line, vbeStartAddr := start } : VGACommonState).WellFormed :=
  { h with }

/-- A register the mode does not depend on. -/
theorem WellFormed.setReg (h : s.WellFormed) {i : VbeIndex} (val : UInt16)
    (hi : i ≠ .xres ∧ i ≠ .yres ∧ i ≠ .bpp) : (s.setReg i val).WellFormed :=
  { h with
    xres_le := by
      rw [setReg_other s hi.1.symm]
      exact h.xres_le
    yres_le := by
      rw [setReg_other s hi.2.1.symm]
      exact h.yres_le
    bpp_le := by
      rw [setReg_other s hi.2.2.symm]
      exact h.bpp_le }

theorem WellFormed.initPlanes (h : s.WellFormed) : s.initPlanes.WellFormed := by
  unfold VGACommonState.initPlanes
  split
  · have h1 := h.modSr (i := 1) (f := fun r => r &&& ~~~8) ((h.sr_within 1).and _)
    exact h1.modGr (f := fun r => r &&& ~~~0x60) ((h1.gr_within 5).and _)
  · have h4 := h.modSr (i := 4) (f := fun r => r ||| 0x08) ((h.sr_within 4).or (by decide))
    have h2 := h4.modSr (i := 2) (f := fun r => r ||| 0x0f) ((h4.sr_within 2).or (by decide))
    exact h2.modGr (f := fun r => (r &&& ~~~0x60) ||| 0x40)
      (((h2.gr_within 5).and _).or (by decide))

theorem WellFormed.initGraphicMode (h : s.WellFormed) : s.initGraphicMode.WellFormed := by
  have h6 := h.modGr (i := 6) (f := fun r => (r &&& ~~~0x0c) ||| 0x05)
    (((h.gr_within 6).and _).or (by decide))
  unfold VGACommonState.initGraphicMode
  dsimp only
  -- the CRT registers are free, so only the order of the writes is left
  apply WellFormed.modCr
  apply WellFormed.initPlanes
  iterate 8 apply WellFormed.modCr
  exact h6

theorem WellFormed.writeEnable (h : s.WellFormed) (val : UInt16) :
    (s.writeEnable val).WellFormed := by
  unfold VGACommonState.writeEnable
  dsimp only
  refine (WellFormed.setDac ?_ _).setReg val (by decide)
  split
  · apply WellFormed.initGraphicMode
    apply WellFormed.setLine
    iterate 4 refine WellFormed.setReg ?_ _ (by decide)
    exact h
  · exact { h with bankOffset_le := by simp }

theorem WellFormed.setBank (h : s.WellFormed) {bank : UInt32} (hb : bank.toNat ≤ 0xff0000) :
    ({ s with bankOffset := bank } : VGACommonState).WellFormed := { h with bankOffset_le := hb }

theorem bank_le (val : UInt32) {mask : UInt32} (h : mask.toNat ≤ 0xff) :
    ((val &&& mask) <<< 16).toNat ≤ 0xff0000 := by
  have hval : (val &&& mask).toNat ≤ 0xff := by
    rw [UInt32.toNat_and]
    exact Nat.and_le_right.trans h
  have hshift : (16 : UInt32).toNat % 32 = 16 := by decide
  rw [UInt32.toNat_shiftLeft, hshift, Nat.shiftLeft_eq]
  exact (Nat.mod_le _ _).trans (by omega)

theorem WellFormed.writeBank (h : s.WellFormed) (val : UInt16) : (s.writeBank val).WellFormed := by
  have hmask :
      (if s.vbeRegs .bpp = 4 then s.vbeBankMask >>> 2 else s.vbeBankMask).toNat ≤ 0xff := by
    rw [h.bankMask_eq]
    split
    · decide
    · decide
  unfold VGACommonState.writeBank
  exact (h.setReg _ (by decide)).setBank (bank_le _ hmask)

theorem WellFormed.writeVirtWidth (h : s.WellFormed) {val : UInt16}
    (hs : s.writeVirtWidth val = some s') : s'.WellFormed := by
  unfold VGACommonState.writeVirtWidth at hs
  dsimp only at hs
  split at hs
  · cases hs
    exact h
  · split at hs
    · cases hs
    · split at hs
      · cases hs
        exact h
      · cases hs
        refine WellFormed.setLine ?_ _ _
        iterate 2 refine WellFormed.setReg ?_ _ (by decide)
        exact h

theorem WellFormed.vbeIoportWriteData (h : s.WellFormed) {val : UInt16}
    (hs : s.vbeIoportWriteData val = some s') : s'.WellFormed := by
  unfold VGACommonState.vbeIoportWriteData at hs
  cases hi : VbeIndex.ofIndex s.vbeIndex with
  | none =>
    simp only [hi, Option.some.injEq] at hs
    exact hs ▸ h
  | some i =>
    rw [hi] at hs
    cases i with
    | id =>
      simp only at hs
      split at hs
      all_goals cases hs
      · exact h.setReg val (by decide)
      · exact h
    | xres =>
      simp only at hs
      split at hs
      all_goals cases hs
      · next hval =>
        exact { h with
          xres_le := by simpa [VGACommonState.setReg] using hval.1
          yres_le := by simpa [VGACommonState.setReg] using h.yres_le
          bpp_le := by simpa [VGACommonState.setReg] using h.bpp_le }
      · exact h
    | yres =>
      simp only at hs
      split at hs
      all_goals cases hs
      · next hval =>
        exact { h with
          xres_le := by simpa [VGACommonState.setReg] using h.xres_le
          yres_le := by simpa [VGACommonState.setReg] using hval
          bpp_le := by simpa [VGACommonState.setReg] using h.bpp_le }
      · exact h
    | bpp =>
      simp only at hs
      generalize (if val = 0 then (8 : UInt16) else val) = depth at hs
      split at hs
      all_goals cases hs
      · next hval =>
        have hdepth : depth ≤ 32 := by
          rcases hval with rfl | rfl | rfl | rfl | rfl | rfl
          all_goals decide
        exact { h with
          xres_le := by simpa [VGACommonState.setReg] using h.xres_le
          yres_le := by simpa [VGACommonState.setReg] using h.yres_le
          bpp_le := by simpa [VGACommonState.setReg] using hdepth }
      · exact h
    | enable =>
      cases hs
      exact h.writeEnable val
    | bank =>
      cases hs
      exact h.writeBank val
    | virtWidth => exact h.writeVirtWidth hs
    | virtHeight =>
      cases hs
      exact h
    | xOffset =>
      cases hs
      exact (h.setReg val (by decide)).setLine _ _
    | yOffset =>
      cases hs
      exact (h.setReg val (by decide)).setLine _ _

/-- The screen that is cleared is inside the video memory. -/
theorem WellFormed.screen_le (h : s.WellFormed) :
    ((s.vbeRegs .yres).toUInt32 * s.pixelBytes (s.vbeRegs .xres).toUInt32).toNat ≤
      s.vramSize.toNat := by
  have hx := UInt16.le_iff_toNat_le.mp h.xres_le
  have hy := UInt16.le_iff_toNat_le.mp h.yres_le
  have hb := UInt16.le_iff_toNat_le.mp h.bpp_le
  simp only [UInt16.reduceToNat] at hx hy hb
  have hline : (s.pixelBytes (s.vbeRegs .xres).toUInt32).toNat ≤ 2560 * 4 := by
    unfold VGACommonState.pixelBytes
    split
    · rw [UInt32.toNat_shiftRight, Nat.shiftRight_eq_div_pow, UInt16.toNat_toUInt32]
      exact (Nat.div_le_self _ _).trans (by omega)
    · rw [UInt32.toNat_mul, UInt32.toNat_shiftRight, Nat.shiftRight_eq_div_pow, UInt32.toNat_add,
        UInt16.toNat_toUInt32, UInt16.toNat_toUInt32]
      have hbytes : ((s.vbeRegs .bpp).toNat + (7 : UInt32).toNat) % 2 ^ 32 /
          2 ^ ((3 : UInt32).toNat % 32) ≤ 4 := by
        simp only [UInt32.reduceToNat, Nat.reduceMod, Nat.reducePow]
        omega
      exact (Nat.mod_le _ _).trans (Nat.mul_le_mul hx hbytes)
  rw [UInt32.toNat_mul, UInt16.toNat_toUInt32, h.vramSize_eq]
  calc _ ≤ (s.vbeRegs .yres).toNat * (s.pixelBytes (s.vbeRegs .xres).toUInt32).toNat :=
        Nat.mod_le _ _
    _ ≤ 1600 * (2560 * 4) := Nat.mul_le_mul hy hline
    _ ≤ vgaRamSize.toNat := by decide

end VGACommonState

theorem lookup_ok {α : Type} {table : List α} {i : ℕ} (h : i < table.length) :
    lookup table i = .ok table[i] := by
  simp [lookup, List.getElem?_eq_getElem h]

structure VGAState.WellFormed (s : VGAState) : Prop where
  common : s.toVGACommonState.WellFormed
  srIndex_lt : s.srIndex < 8
  grIndex_lt : s.grIndex < 16
  dacSubIndex_lt : s.dacSubIndex < 3

namespace VGAState

theorem reset_wellFormed : reset.WellFormed where
  common :=
    { vramSize_eq := rfl
      bankMask_eq := by decide
      bankOffset_le := by decide
      sr_within := fun i => by
        show (0 : UInt8) &&& _ = 0
        exact UInt8.zero_and
      gr_within := fun i => by
        show (0 : UInt8) &&& _ = 0
        exact UInt8.zero_and
      xres_le := by decide
      yres_le := by decide
      bpp_le := by decide }
  srIndex_lt := by decide
  grIndex_lt := by decide
  dacSubIndex_lt := by decide

variable {s : VGAState}

theorem WellFormed.sr_le (h : s.WellFormed) (i : UInt8) : s.sr i ≤ srMask.getD i.toNat 0 :=
  (h.common.sr_within i).le

theorem WellFormed.gr_le (h : s.WellFormed) (i : UInt8) : s.gr i ≤ grMask.getD i.toNat 0 :=
  (h.common.gr_within i).le

/-- The component a DAC port has reached stays below three. -/
theorem subIndex_lt {x : UInt8} (h : x < 3) (hx : x + 1 ≠ 3) : x + 1 < 3 := by
  have hlt := UInt8.lt_iff_toNat_lt.mp h
  rw [UInt8.lt_iff_toNat_lt]
  have hne : ¬ (x + 1).toNat = 3 := fun he => hx (UInt8.toNat_inj.mp he)
  rw [UInt8.toNat_add] at hne ⊢
  simp only [UInt8.reduceToNat] at hlt hne ⊢
  omega

theorem WellFormed.readDac (h : s.WellFormed) :
    ∃ v s', s.readDac = .ok (v, s') ∧ s'.WellFormed := by
  have hsub := UInt8.lt_iff_toNat_lt.mp h.dacSubIndex_lt
  have hread := s.dacReadIndex.toNat_lt
  have hin : s.dacReadIndex.toNat * 3 + s.dacSubIndex.toNat < 768 := by
    simp only [UInt8.reduceToNat] at hsub
    omega
  unfold VGAState.readDac
  dsimp only
  rw [if_pos hin]
  split
  · exact ⟨_, _, rfl, { h with dacSubIndex_lt := (by decide : (0 : UInt8) < 3) }⟩
  · next hne => exact ⟨_, _, rfl, { h with dacSubIndex_lt := subIndex_lt h.dacSubIndex_lt hne }⟩

theorem WellFormed.vgaIoportRead (h : s.WellFormed) (addr : UInt16) :
    ∃ v s', s.vgaIoportRead addr = .ok (v, s') ∧ s'.WellFormed := by
  unfold VGAState.vgaIoportRead
  split
  · exact ⟨_, _, rfl, h⟩
  · cases Port.ofAddr addr with
    | none => exact ⟨_, _, rfl, h⟩
    | some port =>
      cases port with
      | dacData => exact h.readDac
      | status => exact ⟨_, _, rfl, { h with common := { h.common with } }⟩
      | _ => exact ⟨_, _, rfl, h⟩

theorem WellFormed.writeAttr (h : s.WellFormed) (val : UInt8) : (s.writeAttr val).WellFormed := by
  unfold VGAState.writeAttr
  dsimp only
  split
  · exact { h with common := { h.common with } }
  · split
    · exact { h with common := { h.common with } }
    · exact { h with common := { h.common with } }

theorem WellFormed.writeDac (h : s.WellFormed) (val : UInt8) :
    ∃ s', s.writeDac val = .ok s' ∧ s'.WellFormed := by
  unfold VGAState.writeDac
  dsimp only
  rw [if_pos h.dacSubIndex_lt]
  split
  · exact ⟨_, rfl, { h with dacSubIndex_lt := (by decide : (0 : UInt8) < 3) }⟩
  · next hne => exact ⟨_, rfl, { h with dacSubIndex_lt := subIndex_lt h.dacSubIndex_lt hne }⟩

theorem WellFormed.writeCr (h : s.WellFormed) (val : UInt8) : (s.writeCr val).WellFormed := by
  unfold VGAState.writeCr
  split
  · split
    · exact { h with common := { h.common with } }
    · exact h
  · exact { h with common := { h.common with } }

theorem and_lt {x m n : UInt8} (h : m < n) : x &&& m < n := by
  rw [UInt8.lt_iff_toNat_lt] at h ⊢
  rw [UInt8.toNat_and]
  exact lt_of_le_of_lt Nat.and_le_right h

theorem WellFormed.vgaIoportWrite (h : s.WellFormed) (addr : UInt16) (val : UInt8) :
    ∃ s', s.vgaIoportWrite addr val = .ok s' ∧ s'.WellFormed := by
  unfold VGAState.vgaIoportWrite
  split
  · exact ⟨_, rfl, h⟩
  · cases Port.ofAddr addr with
    | none => exact ⟨_, rfl, h⟩
    | some port =>
      cases port with
      | attr => exact ⟨_, rfl, h.writeAttr val⟩
      | dacData => exact h.writeDac val
      | crData => exact ⟨_, rfl, h.writeCr val⟩
      | srIndex => exact ⟨_, rfl, { h with srIndex_lt := and_lt (by decide) }⟩
      | grIndex => exact ⟨_, rfl, { h with grIndex_lt := and_lt (by decide) }⟩
      | srData =>
        have hlt : s.srIndex.toNat < srMask.length := UInt8.lt_iff_toNat_lt.mp h.srIndex_lt
        refine ⟨_, by rw [lookup_ok hlt]; rfl, ?_⟩
        refine { h with common := h.common.modSr (i := s.srIndex) (f := fun _ => _) ?_ }
        rw [List.getD_eq_getElem _ _ hlt]
        exact within_and _ _
      | grData =>
        have hlt : s.grIndex.toNat < grMask.length := UInt8.lt_iff_toNat_lt.mp h.grIndex_lt
        refine ⟨_, by rw [lookup_ok hlt]; rfl, ?_⟩
        refine { h with common := h.common.modGr (i := s.grIndex) (f := fun _ => _) ?_ }
        rw [List.getD_eq_getElem _ _ hlt]
        exact within_and _ _
      | dacRead | dacWrite =>
        exact ⟨_, rfl, { h with dacSubIndex_lt := (by decide : (0 : UInt8) < 3) }⟩
      | misc | crIndex | status => exact ⟨_, rfl, { h with }⟩
      | attrData | feature | miscRead => exact ⟨_, rfl, h⟩

variable (s)

/-- A read through the banked window, without chain-4, that the bank takes past the
video memory: only chain-4 divides the memory into the banks the bank register counts. -/
def ReadEscapes (addr : ℕ) : Prop :=
  (s.gr 6 >>> 2) &&& 3 = 1 ∧ addr % 0x20000 < 0x10000 ∧
    match s.access with
    | .chain4 => False
    | .oddEven => s.vramSize.toNat ≤ 2 * (addr % 0x20000 + s.bankOffset.toNat)
    | .latched => s.vramSize.toNat ≤ 4 * (addr % 0x20000 + s.bankOffset.toNat)

/-- A write likewise; a plane that is not enabled is not reached. -/
def WriteEscapes (addr : ℕ) : Prop :=
  s.ReadEscapes addr ∧
    (s.access = .oddEven →
      s.planeEnabled (s.oddEvenPlane (addr % 0x20000 + s.bankOffset.toNat)) = true)

def Trips : BusOp → Prop
  | .vbeReadData => s.vbeIndex = 10
  | .vbeWriteData val =>
    VbeIndex.ofIndex s.vbeIndex = some .virtWidth ∧ s.vbeRegs .xres ≤ val ∧
      s.pixelBytes val.toUInt32 = 0
  | .readb addr => s.ReadEscapes addr
  | .readw addr => ∃ i < 2, s.ReadEscapes (addr + i)
  | .readl addr => ∃ i < 4, s.ReadEscapes (addr + i)
  | .writeb addr _ => s.WriteEscapes addr
  | .writew addr _ => ∃ i < 2, s.WriteEscapes (addr + i)
  | .writel addr _ => ∃ i < 4, s.WriteEscapes (addr + i)
  | .inb _ | .outb _ _ | .vbeReadIndex | .vbeWriteIndex _ => False

variable {s}

theorem oddEvenPlane_lt (addr : ℕ) : s.oddEvenPlane addr < 4 := by
  unfold oddEvenPlane
  rw [UInt8.toNat_or, UInt8.toNat_and]
  apply Nat.or_lt_two_pow (n := 2)
  · exact lt_of_le_of_lt Nat.and_le_right (by decide)
  · rw [UInt8.toNat_ofNat']
    omega

theorem WellFormed.vramSize_toNat (h : s.WellFormed) : s.vramSize.toNat = 0x1000000 := by
  rw [h.common.vramSize_eq]
  rfl

/-- Where an access lands: below half a megabyte, or in the banked window. -/
theorem memoryOffset_cases {addr a : ℕ} (h : s.memoryOffset addr = some a) :
    a < 0x20000 ∧ ¬ (s.gr 6 >>> 2) &&& 3 = 1 ∨
      (s.gr 6 >>> 2) &&& 3 = 1 ∧ addr % 0x20000 < 0x10000 ∧
        a = addr % 0x20000 + s.bankOffset.toNat := by
  have hlt : addr % 0x20000 < 0x20000 := Nat.mod_lt _ (by decide)
  unfold memoryOffset at h
  dsimp only at h
  split at h
  · next h0 =>
    have ha := Option.some.inj h
    refine .inl ⟨by omega, ?_⟩
    rw [h0]
    decide
  · split at h
    · next h1 =>
      split at h
      · cases h
      · exact .inr ⟨h1, by omega, (Option.some.inj h).symm⟩
    · next h1 =>
      split at h
      all_goals
        split at h
        · cases h
        · have ha := Option.some.inj h
          exact .inl ⟨by omega, h1⟩

theorem not_escapes_of_outside {addr : ℕ} (h : s.memoryOffset addr = none) :
    ¬ s.ReadEscapes addr := by
  rintro ⟨hmode, hlt, -⟩
  have h0 : ¬ (1 : UInt8) = 0 := by decide
  simp [memoryOffset, hmode, Nat.not_le.mpr hlt, h0] at h

def reach (s : VGAState) (a : ℕ) : ℕ :=
  match s.access with
  | .chain4 => a
  | .oddEven => s.oddEvenAddr a
  | .latched => 4 * a + 3

theorem WellFormed.escapes_iff (h : s.WellFormed) {addr a : ℕ}
    (ha : s.memoryOffset addr = some a) :
    s.ReadEscapes addr ↔ ¬ s.reach a < s.vramSize.toNat := by
  have hplane := s.oddEvenPlane_lt a
  have hbank := h.common.bankOffset_le
  rw [h.vramSize_toNat, ReadEscapes, h.vramSize_toNat, reach]
  rcases memoryOffset_cases ha with ⟨hlow, hmode⟩ | ⟨hmode, hin, rfl⟩
  · -- the whole of an unbanked window is inside
    simp only [hmode, false_and, false_iff, not_not]
    cases s.access with
    | chain4 => simp only; omega
    | oddEven => simp only [oddEvenAddr]; omega
    | latched => simp only; omega
  · simp only [hmode, hin, true_and]
    cases s.access with
    | chain4 => simp only [false_iff, not_not]; omega
    | oddEven => simp only [oddEvenAddr]; omega
    | latched => simp only; omega

/-- The registers that select planes have four bits. -/
theorem WellFormed.gr_lt (h : s.WellFormed) {i : UInt8} (hi : grMask.getD i.toNat 0 = 0x0f) :
    (s.gr i).toNat < 16 := by
  have hle := UInt8.le_iff_toNat_le.mp (h.gr_le i)
  rw [hi] at hle
  exact Nat.lt_succ_of_le hle

theorem WellFormed.sr_lt (h : s.WellFormed) : (s.sr 2).toNat < 16 :=
  Nat.lt_succ_of_le (UInt8.le_iff_toNat_le.mp (h.sr_le 2))

theorem low_nibble_lt (val : UInt8) : (val.toBitVec.setWidth 32 &&& 0x0f).toNat < 16 := by
  rw [BitVec.toNat_and]
  exact lt_of_le_of_lt Nat.and_le_right (by decide)

theorem WellFormed.latchedByte_ok (h : s.WellFormed) (o : ByteOrder) (latch : BitVec 32) :
    ∃ v, s.latchedByte o latch = .ok v := by
  unfold latchedByte
  split
  · exact ⟨_, rfl⟩
  · rw [lookup_ok (h.gr_lt rfl), lookup_ok (h.gr_lt rfl)]
    exact ⟨_, rfl⟩

theorem WellFormed.latchedWord_ok (h : s.WellFormed) (o : ByteOrder) (latch : BitVec 32)
    (val : UInt8) : ∃ w, s.latchedWord o latch val = .ok w := by
  unfold latchedWord
  dsimp only
  split
  · exact ⟨_, rfl⟩
  · split
    · rw [lookup_ok (low_nibble_lt val)]
      exact ⟨_, rfl⟩
    · split
      · rw [lookup_ok (h.gr_lt rfl)]
        exact ⟨_, rfl⟩
      · rw [lookup_ok (h.gr_lt rfl), lookup_ok (h.gr_lt rfl)]
        exact ⟨_, rfl⟩

end VGAState

namespace VGADevice

open VGAState

variable {o : ByteOrder} {d : VGADevice}

/-- A read either leaves the video memory or answers, and it changes the latch only. -/
theorem vgaMemReadb_cases (h : d.regs.WellFormed) (addr : ℕ) :
    (d.regs.ReadEscapes addr ∧ d.vgaMemReadb o addr = .error .vram) ∨
      (¬ d.regs.ReadEscapes addr ∧
        ∃ v latch, d.vgaMemReadb o addr = .ok (v, { d with latch := latch })) := by
  cases ha : d.regs.memoryOffset addr with
  | none =>
    refine .inr ⟨not_escapes_of_outside ha, 0xff, d.latch, ?_⟩
    simp [vgaMemReadb, ha]
  | some a =>
    have hreach := h.escapes_iff ha
    by_cases hin : d.regs.reach a < d.regs.vramSize.toNat
    · refine .inr ⟨fun he => hreach.mp he hin, ?_⟩
      unfold reach at hin
      cases hacc : d.regs.access with
      | chain4 =>
        simp only [hacc] at hin
        exact ⟨d.vram a, d.latch, by simp [vgaMemReadb, ha, hacc, vramByte, hin]⟩
      | oddEven =>
        simp only [hacc] at hin
        exact ⟨d.vram (d.regs.oddEvenAddr a), d.latch, by
          simp [vgaMemReadb, ha, hacc, vramByte, hin]⟩
      | latched =>
        simp only [hacc] at hin
        obtain ⟨v, hv⟩ := h.latchedByte_ok o (d.vram.loadWord (k := 4) o (4 * a))
        exact ⟨v, d.vram.loadWord (k := 4) o (4 * a), by
          simp [vgaMemReadb, ha, hacc, vramWord, hin, hv]⟩
    · refine .inl ⟨hreach.mpr hin, ?_⟩
      unfold reach at hin
      cases hacc : d.regs.access with
      | chain4 | oddEven =>
        simp only [hacc] at hin
        simp [vgaMemReadb, ha, hacc, vramByte, hin]
      | latched =>
        simp only [hacc] at hin
        simp [vgaMemReadb, ha, hacc, vramWord, hin]

theorem vgaMemReadb_regs (h : d.regs.WellFormed) {addr : ℕ} {v : UInt8} {d' : VGADevice}
    (hok : d.vgaMemReadb o addr = .ok (v, d')) : d'.regs = d.regs := by
  rcases vgaMemReadb_cases (o := o) h addr with ⟨-, herr⟩ | ⟨-, v', latch, hok'⟩
  · rw [hok] at herr
    cases herr
  · rw [hok] at hok'
    cases hok'
    rfl

/-- A write either leaves the video memory or keeps the registers. -/
theorem vgaMemWriteb_cases (h : d.regs.WellFormed) (addr : ℕ) (val : UInt8) :
    (d.regs.WriteEscapes addr ∧ d.vgaMemWriteb o addr val = .error .vram) ∨
      (¬ d.regs.WriteEscapes addr ∧
        ∃ d', d.vgaMemWriteb o addr val = .ok d' ∧ d'.regs = d.regs) := by
  cases ha : d.regs.memoryOffset addr with
  | none =>
    refine .inr ⟨fun he => not_escapes_of_outside ha he.1, d, ?_, rfl⟩
    simp [vgaMemWriteb, ha]
  | some a =>
    have hreach := h.escapes_iff ha
    -- inside the window the escaping offset is the one the access uses
    have hoff : d.regs.ReadEscapes addr → addr % 0x20000 + d.regs.bankOffset.toNat = a := by
      rintro ⟨hmode, -⟩
      rcases memoryOffset_cases ha with ⟨-, hno⟩ | ⟨-, -, rfl⟩
      · exact absurd hmode hno
      · rfl
    unfold reach at hreach
    cases hacc : d.regs.access with
    | chain4 =>
      have hno : ¬ d.regs.ReadEscapes addr := by
        rintro ⟨-, -, hf⟩
        simp [hacc] at hf
      simp only [hacc, hno, false_iff, not_not] at hreach
      refine .inr ⟨fun he => hno he.1, ?_⟩
      by_cases hp : d.regs.planeEnabled (a % 4)
      · exact ⟨d.storePlane a (a % 4) val, by simp [vgaMemWriteb, ha, hacc, writePlane, hp, hreach],
          rfl⟩
      · exact ⟨d, by simp [vgaMemWriteb, ha, hacc, writePlane, hp], rfl⟩
    | oddEven =>
      simp only [hacc] at hreach
      by_cases hp : d.regs.planeEnabled (d.regs.oddEvenPlane a)
      · by_cases hin : d.regs.oddEvenAddr a < d.regs.vramSize.toNat
        · refine .inr ⟨fun he => hreach.mp he.1 hin, ?_⟩
          exact ⟨d.storePlane (d.regs.oddEvenAddr a) (d.regs.oddEvenPlane a) val, by
            simp [vgaMemWriteb, ha, hacc, writePlane, hp, hin], rfl⟩
        · have he := hreach.mpr hin
          refine .inl ⟨⟨he, fun _ => by rw [hoff he]; exact hp⟩, ?_⟩
          simp [vgaMemWriteb, ha, hacc, writePlane, hp, hin]
      · refine .inr ⟨fun he => hp ?_, d, by simp [vgaMemWriteb, ha, hacc, writePlane, hp], rfl⟩
        rw [← hoff he.1]
        exact he.2 hacc
    | latched =>
      simp only [hacc] at hreach
      obtain ⟨w, hw⟩ := h.latchedWord_ok o d.latch val
      obtain ⟨mask, hmask⟩ : ∃ mask, lookup (mask16 o) (d.regs.sr 2).toNat = .ok mask :=
        ⟨_, lookup_ok h.sr_lt⟩
      by_cases hin : 4 * a + 3 < d.regs.vramSize.toNat
      · refine .inr ⟨fun he => hreach.mp he.1 hin, ?_⟩
        exact ⟨d.storeMasked o a (d.vram.loadWord (k := 4) o (4 * a)) w mask, by
          simp [vgaMemWriteb, ha, hacc, hw, hmask, vramWord, hin], rfl⟩
      · refine .inl ⟨⟨hreach.mpr hin, by simp [hacc]⟩, ?_⟩
        simp [vgaMemWriteb, ha, hacc, hw, hmask, vramWord, hin]

theorem vgaMemWriteb_regs (h : d.regs.WellFormed) {addr : ℕ} {val : UInt8} {d' : VGADevice}
    (hok : d.vgaMemWriteb o addr val = .ok d') : d'.regs = d.regs := by
  rcases vgaMemWriteb_cases (o := o) h addr val with ⟨-, herr⟩ | ⟨-, d'', hok', hr⟩
  · rw [hok] at herr
    cases herr
  · rw [hok] at hok'
    cases hok'
    exact hr

theorem exists_offset_succ {P : ℕ → Prop} (a n : ℕ) :
    (∃ i < n + 1, P (a + i)) ↔ P a ∨ ∃ i < n, P (a + 1 + i) := by
  simp only [Nat.exists_lt_succ_left, Nat.add_zero, Nat.add_assoc, Nat.add_comm 1]

theorem readBytes_cases (h : d.regs.WellFormed) (addr n : ℕ) :
    ((∃ i < n, d.regs.ReadEscapes (addr + i)) ∧ d.readBytes o addr n = .error .vram) ∨
      ((¬ ∃ i < n, d.regs.ReadEscapes (addr + i)) ∧
        ∃ bs d', d.readBytes o addr n = .ok (bs, d') ∧ d'.regs = d.regs) := by
  induction n generalizing d addr with
  | zero => exact .inr ⟨by simp, [], d, rfl, rfl⟩
  | succ n ih =>
    rw [exists_offset_succ]
    rcases vgaMemReadb_cases (o := o) h addr with ⟨he, herr⟩ | ⟨hne, v, latch, hok⟩
    · exact .inl ⟨.inl he, by simp [readBytes, herr]⟩
    · rcases ih (d := { d with latch := latch }) h (addr + 1) with
        ⟨he, herr⟩ | ⟨hn, bs, d', hok', hr⟩
      · exact .inl ⟨.inr he, by simp [readBytes, hok, herr]⟩
      · exact .inr ⟨by simp only [hne, false_or]; exact hn, v :: bs, d', by
          simp [readBytes, hok, hok'], hr⟩

theorem writeBytes_cases (h : d.regs.WellFormed) (addr : ℕ) (bs : List UInt8) :
    ((∃ i < bs.length, d.regs.WriteEscapes (addr + i)) ∧ d.writeBytes o addr bs = .error .vram) ∨
      ((¬ ∃ i < bs.length, d.regs.WriteEscapes (addr + i)) ∧
        ∃ d', d.writeBytes o addr bs = .ok d' ∧ d'.regs = d.regs) := by
  induction bs generalizing d addr with
  | nil => exact .inr ⟨by simp, d, rfl, rfl⟩
  | cons b bs ih =>
    rw [List.length_cons, exists_offset_succ]
    rcases vgaMemWriteb_cases (o := o) h addr b with ⟨he, herr⟩ | ⟨hne, d₁, hok, hr₁⟩
    · exact .inl ⟨.inl he, by simp [writeBytes, herr]⟩
    · rcases ih (d := d₁) (hr₁ ▸ h) (addr + 1) with ⟨he, herr⟩ | ⟨hn, d', hok', hr⟩
      · exact .inl ⟨.inr (by rwa [hr₁] at he), by simp [writeBytes, hok, herr]⟩
      · rw [hr₁] at hn
        exact .inr ⟨by simp only [hne, false_or]; exact hn, d', by
          simp [writeBytes, hok, hok'], hr.trans hr₁⟩

/-- The check on the index lets one value too many pass. -/
theorem ofIndex_eq_none {i : UInt16} (hle : i ≤ 10) (hi : VbeIndex.ofIndex i = none) : i = 10 := by
  have hnat := UInt16.le_iff_toNat_le.mp hle
  unfold VbeIndex.ofIndex at hi
  split_ifs at hi with h0 h1 h2 h3 h4 h5 h6 h7 h8 h9
  simp only [← UInt16.toNat_inj, UInt16.reduceToNat] at *
  omega

theorem vbeIoportReadData_cases (s : VGAState) :
    match s.vbeIoportReadData with
    | .error _ => s.vbeIndex = 10
    | .ok _ => s.vbeIndex ≠ 10 := by
  unfold VGAState.vbeIoportReadData
  by_cases hle : s.vbeIndex ≤ 10
  · rw [if_pos hle]
    cases hi : VbeIndex.ofIndex s.vbeIndex with
    | none => exact ofIndex_eq_none hle hi
    | some i =>
      rintro h10
      rw [h10] at hi
      cases hi
  · rw [if_neg hle]
    rintro h10
    exact hle (by rw [h10]; decide)

/-- Only the division for a virtual width traps. -/
theorem vbeIoportWriteData_isSome_iff (s : VGACommonState) (val : UInt16) :
    s.vbeIoportWriteData val = none ↔
      VbeIndex.ofIndex s.vbeIndex = some .virtWidth ∧ s.vbeRegs .xres ≤ val ∧
        s.pixelBytes val.toUInt32 = 0 := by
  unfold VGACommonState.vbeIoportWriteData
  cases hi : VbeIndex.ofIndex s.vbeIndex with
  | none => simp
  | some i =>
    cases i with
    | virtWidth =>
      simp only [VGACommonState.writeVirtWidth, true_and]
      split
      · next hlt => simp [UInt16.not_le.mpr hlt]
      · next hge =>
        simp only [UInt16.not_lt.mp hge, true_and]
        split
        · next h0 => simp [h0]
        · next h0 =>
          simp only [h0, iff_false]
          split
          · exact Option.some_ne_none _
          · exact Option.some_ne_none _
    | enable | bank | virtHeight | xOffset | yOffset => simp
    | bpp =>
      simp only
      generalize (if val = 0 then (8 : UInt16) else val) = depth
      split
      · simp
      · simp
    | id | xres | yres =>
      simp only
      split
      · simp
      · simp

theorem vbeIoportWriteData_cases (h : d.regs.WellFormed) (val : UInt16) :
    match d.vbeIoportWriteData val with
    | .error _ => d.regs.Trips (.vbeWriteData val)
    | .ok d' => ¬ d.regs.Trips (.vbeWriteData val) ∧ d'.regs.WellFormed := by
  have hiff := vbeIoportWriteData_isSome_iff d.regs.toVGACommonState val
  unfold vbeIoportWriteData vbeWriteData
  cases hw : d.regs.toVGACommonState.vbeIoportWriteData val with
  | none => exact hiff.mp hw
  | some s' =>
    have hno : ¬ d.regs.Trips (.vbeWriteData val) := by
      intro ht
      rw [hiff.mpr ht] at hw
      cases hw
    have hwf : ({ d.regs with toVGACommonState := s' } : VGAState).WellFormed :=
      { h with common := h.common.vbeIoportWriteData hw }
    simp only [ok_bind, pure_eq_ok]
    cases hc : d.regs.clearSize val with
    | none => exact ⟨hno, hwf⟩
    | some n =>
      have hn : n ≤ d.regs.vramSize.toNat := by
        unfold clearSize at hc
        split at hc
        · exact Option.some.inj hc ▸ h.common.screen_le
        · cases hc
      simp only [if_pos hn]
      exact ⟨hno, hwf⟩

/-- What an access can do: it faults if it is one of the three kinds that do, and
otherwise leaves the registers well formed. -/
theorem busStep_cases (h : d.regs.WellFormed) (op : BusOp) :
    match d.busStep o op with
    | .error _ => d.regs.Trips op
    | .ok (_, d') => ¬ d.regs.Trips op ∧ d'.regs.WellFormed := by
  cases op with
  | inb port =>
    obtain ⟨v, s', hok, hwf⟩ := h.vgaIoportRead port
    simp only [busStep, hok, ok_bind, pure_eq_ok]
    exact ⟨not_false, hwf⟩
  | outb port val =>
    obtain ⟨s', hok, hwf⟩ := h.vgaIoportWrite port val
    simp only [busStep, hok, ok_bind, pure_eq_ok]
    exact ⟨not_false, hwf⟩
  | vbeReadIndex => exact ⟨not_false, h⟩
  | vbeWriteIndex val => exact ⟨not_false, { h with common := { h.common with } }⟩
  | vbeReadData =>
    have hcases := vbeIoportReadData_cases d.regs
    cases hread : d.regs.vbeIoportReadData with
    | error f =>
      simp only [hread] at hcases
      simp only [busStep, hread, error_bind]
      exact hcases
    | ok v =>
      simp only [hread] at hcases
      simp only [busStep, hread, ok_bind, pure_eq_ok]
      exact ⟨hcases, h⟩
  | vbeWriteData val =>
    have hcases := vbeIoportWriteData_cases h val
    cases hwrite : d.vbeIoportWriteData val with
    | error f =>
      simp only [hwrite] at hcases
      simp only [busStep, hwrite, error_bind]
      exact hcases
    | ok d' =>
      simp only [hwrite] at hcases
      simp only [busStep, hwrite, ok_bind, pure_eq_ok]
      exact hcases
  | readb addr =>
    rcases vgaMemReadb_cases (o := o) h addr with ⟨he, herr⟩ | ⟨hne, v, latch, hok⟩
    · simp only [busStep, herr, error_bind]
      exact he
    · simp only [busStep, hok, ok_bind, pure_eq_ok]
      exact ⟨hne, h⟩
  | readw addr =>
    rcases readBytes_cases (o := o) h addr 2 with ⟨he, herr⟩ | ⟨hne, bs, d', hok, hr⟩
    · simp only [busStep, vgaMemReadw_eq, herr, error_bind]
      exact he
    · simp only [busStep, vgaMemReadw_eq, hok, ok_bind, pure_eq_ok]
      exact ⟨hne, hr ▸ h⟩
  | readl addr =>
    rcases readBytes_cases (o := o) h addr 4 with ⟨he, herr⟩ | ⟨hne, bs, d', hok, hr⟩
    · simp only [busStep, vgaMemReadl_eq, herr, error_bind]
      exact he
    · simp only [busStep, vgaMemReadl_eq, hok, ok_bind, pure_eq_ok]
      exact ⟨hne, hr ▸ h⟩
  | writeb addr val =>
    rcases vgaMemWriteb_cases (o := o) h addr val with ⟨he, herr⟩ | ⟨hne, d', hok, hr⟩
    · simp only [busStep, herr, error_bind]
      exact he
    · simp only [busStep, hok, ok_bind, pure_eq_ok]
      exact ⟨hne, hr ▸ h⟩
  | writew addr val =>
    rcases writeBytes_cases (o := o) h addr [val.toUInt8, (val >>> 8).toUInt8] with
      ⟨he, herr⟩ | ⟨hne, d', hok, hr⟩
    · simp only [busStep, vgaMemWritew_eq, herr, error_bind]
      exact he
    · simp only [busStep, vgaMemWritew_eq, hok, ok_bind, pure_eq_ok]
      exact ⟨hne, hr ▸ h⟩
  | writel addr val =>
    rcases writeBytes_cases (o := o) h addr [val.toUInt8, (val >>> 8).toUInt8,
        (val >>> 16).toUInt8, (val >>> 24).toUInt8] with ⟨he, herr⟩ | ⟨hne, d', hok, hr⟩
    · simp only [busStep, vgaMemWritel_eq, herr, error_bind]
      exact he
    · simp only [busStep, vgaMemWritel_eq, hok, ok_bind, pure_eq_ok]
      exact ⟨hne, hr ▸ h⟩

theorem busStep_wellFormed {op : BusOp} {v : UInt32} {d' : VGADevice} (h : d.regs.WellFormed)
    (hok : d.busStep o op = .ok (v, d')) : d'.regs.WellFormed := by
  have hcases := busStep_cases (o := o) h op
  simp only [hok] at hcases
  exact hcases.2

theorem busStep_error_iff (h : d.regs.WellFormed) (op : BusOp) :
    (∃ f, d.busStep o op = .error f) ↔ d.regs.Trips op := by
  have hcases := busStep_cases (o := o) h op
  cases hstep : d.busStep o op with
  | error f =>
    simp only [hstep] at hcases
    exact iff_of_true ⟨f, rfl⟩ hcases
  | ok r =>
    simp only [hstep] at hcases
    exact iff_of_false (by simp) hcases.1

/-- Over every run of the guest, on a host of either byte order: the device faults
exactly if some access of it reads the VBE data port at index ten, sets a virtual
width whose lines have no bytes, or goes through the banked window past the end of the
video memory without chain-4.  No table is ever overrun through a register, and the
clearing of the screen stays inside the memory. -/
theorem run_faults_iff (o : ByteOrder) (vram : Mem) (latch : BitVec 32) (dirty : ℕ → Bool)
    (ops : List BusOp) :
    (∃ f, run (busStep o) (reset vram latch dirty) ops = .error f) ↔
      ∃ pre op post vs d, ops = pre ++ op :: post ∧
        run (busStep o) (reset vram latch dirty) pre = .ok (vs, d) ∧ d.regs.Trips op := by
  have hwf : ∀ {pre vs d}, run (busStep o) (reset vram latch dirty) pre = .ok (vs, d) →
      d.regs.WellFormed := fun hrun =>
    run_invariant (J := fun d : VGADevice => d.regs.WellFormed)
      (fun d op v d' h hok => busStep_wellFormed h hok) reset_wellFormed hrun
  rw [run_error_iff]
  constructor
  · rintro ⟨pre, op, post, vs, d, f, hops, hpre, hf⟩
    exact ⟨pre, op, post, vs, d, hops, hpre, (busStep_error_iff (hwf hpre) op).mp ⟨f, hf⟩⟩
  · rintro ⟨pre, op, post, vs, d, hops, hpre, ht⟩
    obtain ⟨f, hf⟩ := (busStep_error_iff (o := o) (hwf hpre) op).mpr ht
    exact ⟨pre, op, post, vs, d, f, hops, hpre, hf⟩

-- bank 64 of the 256 is past the end for the planar accesses of the reset state
example : run (busStep .little) (reset (fun _ => 0) 0 fun _ => false)
    [.outb 0x3ce 6, .outb 0x3cf 4, .vbeWriteIndex 5, .vbeWriteData 64, .readb 0xa0000] =
      .error .vram := rfl

end VGADevice

end VmPlayback.Vga
