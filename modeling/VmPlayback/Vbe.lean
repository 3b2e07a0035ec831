import VmPlayback.CalcScale
import VmPlayback.IntArith
import VmPlayback.Runs

namespace VmPlayback.Vga

inductive VbeIndex where
  | id
  | xres
  | yres
  | bpp
  | enable
  | bank
  | virtWidth
  | virtHeight
  | xOffset
  | yOffset
  deriving DecidableEq, Repr

def VbeIndex.ofIndex (i : UInt16) : Option VbeIndex :=
  if i = 0 then some .id
  else if i = 1 then some .xres
  else if i = 2 then some .yres
  else if i = 3 then some .bpp
  else if i = 4 then some .enable
  else if i = 5 then some .bank
  else if i = 6 then some .virtWidth
  else if i = 7 then some .virtHeight
  else if i = 8 then some .xOffset
  else if i = 9 then some .yOffset
  else none

/-- What the ports below read and write of a `VGACommonState`. -/
structure VGACommonState where
  vramSize : UInt32
  sr : UInt8 → UInt8
  gr : UInt8 → UInt8
  arIndex : UInt8
  arFlipFlop : Bool
  cr : UInt8 → UInt8
  dac8bit : Bool
  bankOffset : UInt32
  vbeIndex : UInt16
  vbeRegs : VbeIndex → UInt16
  vbeStartAddr : UInt32
  vbeLineOffset : UInt32
  vbeBankMask : UInt32

def vgaCommonReset (vramSize : UInt32) : VGACommonState where
  vramSize := vramSize
  sr _ := 0
  gr _ := 0
  arIndex := 0
  arFlipFlop := false
  cr _ := 0
  dac8bit := false
  bankOffset := 0
  vbeIndex := 0
  vbeRegs := Function.update (fun _ => 0) .id 0xB0C0
  vbeStartAddr := 0
  vbeLineOffset := 0
  vbeBankMask := (vramSize >>> 16) - 1

namespace VGACommonState

variable (s : VGACommonState)

def setReg (i : VbeIndex) (val : UInt16) : VGACommonState :=
  { s with vbeRegs := Function.update s.vbeRegs i val }

def modSr (i : UInt8) (f : UInt8 → UInt8) : VGACommonState :=
  { s with sr := Function.update s.sr i (f (s.sr i)) }

def modGr (i : UInt8) (f : UInt8 → UInt8) : VGACommonState :=
  { s with gr := Function.update s.gr i (f (s.gr i)) }

def modCr (i : UInt8) (f : UInt8 → UInt8) : VGACommonState :=
  { s with cr := Function.update s.cr i (f (s.cr i)) }

/-- The bytes `w` pixels take; four bits a pixel are packed two to a byte. -/
def pixelBytes (w : UInt32) : UInt32 :=
  if s.vbeRegs .bpp = 4 then w >>> 1 else w * (((s.vbeRegs .bpp).toUInt32 + 7) >>> 3)

def initPlanes : VGACommonState :=
  if s.vbeRegs .bpp = 4 then
    -- "no double line", and a shift control of zero
    (s.modSr 0x01 fun r => r &&& ~~~8).modGr 0x05 fun r => r &&& ~~~0x60
  else
    -- "set chain 4 mode", "activate all planes"
    ((s.modSr 4 fun r => r ||| 0x08).modSr 2 fun r => r ||| 0x0f).modGr 0x05
      fun r => (r &&& ~~~0x60) ||| 0x40

/-- "we initialize the VGA graphic mode (should be done in BIOS)" -/
def initGraphicMode : VGACommonState :=
  let h : Int32 := (s.vbeRegs .yres).toUInt32.toInt32 - 1
  let s := s.modGr 0x06 fun r => (r &&& ~~~0x0c) ||| 0x05
  let s := s.modCr 0x17 fun r => r ||| 3
  let s := s.modCr 0x13 fun _ => (s.vbeLineOffset >>> 3).toUInt8
  let s := s.modCr 0x01 fun _ => ((s.vbeRegs .xres >>> 3) - 1).toUInt8
  let s := s.modCr 0x12 fun _ => h.toUInt32.toUInt8
  let s := s.modCr 0x07 fun r => (r &&& ~~~(0x42 : UInt8)) |||
    ((h >>> 7) &&& 0x02).toUInt32.toUInt8 ||| ((h >>> 3) &&& 0x40).toUInt32.toUInt8
  let s := s.modCr 0x18 fun _ => 0xff
  let s := s.modCr 0x07 fun r => r ||| 0x10
  let s := s.modCr 0x09 fun r => r ||| 0x40
  s.initPlanes.modCr 0x09 fun r => r &&& ~~~0x9f

/-- A write to `VBE_DISPI_INDEX_ENABLE`: the mode is set up when it goes from off to
on, and only then. -/
def writeEnable (val : UInt16) : VGACommonState :=
  let s :=
    if val &&& 1 ≠ 0 ∧ s.vbeRegs .enable &&& 1 = 0 then
      let s := s.setReg .virtWidth (s.vbeRegs .xres)
      let s := s.setReg .virtHeight (s.vbeRegs .yres)
      let s := s.setReg .xOffset 0
      let s := s.setReg .yOffset 0
      let s := { s with
        vbeLineOffset := s.pixelBytes (s.vbeRegs .xres).toUInt32
        vbeStartAddr := 0 }
      s.initGraphicMode
    else
      { s with bankOffset := 0 }
  { s with dac8bit := decide (val &&& 0x20 ≠ 0) }.setReg .enable val

/-- A write to `VBE_DISPI_INDEX_VIRT_WIDTH`; the division traps when a line of that
many pixels has no bytes. -/
def writeVirtWidth (val : UInt16) : Option VGACommonState :=
  if val < s.vbeRegs .xres then
    some s
  else
    let lineOffset := s.pixelBytes val.toUInt32
    if lineOffset = 0 then
      none
    else
      let h := s.vramSize / lineOffset
      if h < (s.vbeRegs .yres).toUInt32 then
        some s
      else
        some { (s.setReg .virtWidth val).setReg .virtHeight h.toUInt16 with
          vbeLineOffset := lineOffset }

def writeBank (val : UInt16) : VGACommonState :=
  let val := val.toUInt32 &&& if s.vbeRegs .bpp = 4 then s.vbeBankMask >>> 2 else s.vbeBankMask
  { s.setReg .bank val.toUInt16 with bankOffset := val <<< 16 }

def writeOffset (i : VbeIndex) (val : UInt16) : VGACommonState :=
  let s := s.setReg i val
  let start := s.vbeLineOffset * (s.vbeRegs .yOffset).toUInt32 +
    s.pixelBytes (s.vbeRegs .xOffset).toUInt32
  { s with vbeStartAddr := start >>> 2 }

/-- Nothing comes back from a write that traps. -/
def vbeIoportWriteData (val : UInt16) : Option VGACommonState :=
  match VbeIndex.ofIndex s.vbeIndex with
  | some .id =>
    if val = 0xB0C0 ∨ val = 0xB0C1 ∨ val = 0xB0C2 ∨ val = 0xB0C3 ∨ val = 0xB0C4 then
      some (s.setReg .id val)
    else some s
  | some .xres => if val ≤ 2560 ∧ val &&& 7 = 0 then some (s.setReg .xres val) else some s
  | some .yres => if val ≤ 1600 then some (s.setReg .yres val) else some s
  | some .bpp =>
    let val := if val = 0 then 8 else val
    if val = 4 ∨ val = 8 ∨ val = 15 ∨ val = 16 ∨ val = 24 ∨ val = 32 then
      some (s.setReg .bpp val)
    else some s
  | some .bank => some (s.writeBank val)
  | some .enable => some (s.writeEnable val)
  | some .virtWidth => s.writeVirtWidth val
  | some .xOffset => some (s.writeOffset .xOffset val)
  | some .yOffset => some (s.writeOffset .yOffset val)
  | some .virtHeight => some s
  | none => some s

def vbeIoportWriteIndex (val : UInt16) : VGACommonState := { s with vbeIndex := val }

/-- `vga_ioport_write` on port 0x3c0, as far as the index register; the palette
registers behind it do not matter here. -/
def writeAttribute (val : UInt8) : VGACommonState :=
  let s := if s.arFlipFlop then s else { s with arIndex := val &&& 0x3f }
  { s with arFlipFlop := !s.arFlipFlop }

def vgaGetBpp : UInt16 := if s.vbeRegs .enable &&& 1 ≠ 0 then s.vbeRegs .bpp else 0

def vgaGetResolution : Int32 × Int32 :=
  if s.vbeRegs .enable &&& 1 ≠ 0 then
    ((s.vbeRegs .xres).toUInt32.toInt32, (s.vbeRegs .yres).toUInt32.toInt32)
  else
    (((s.cr 0x01).toUInt32.toInt32 + 1) * 8,
      ((s.cr 0x12).toUInt32 ||| ((s.cr 0x07 &&& 0x02).toUInt32 <<< 7) |||
        ((s.cr 0x07 &&& 0x40).toUInt32 <<< 3)).toInt32 + 1)

/-- The video acceleration hook at the end of `vga_draw_graphic`: the width and
height it calls `va_do_drawing` with, if it does. -/
def vgaDrawGraphic : Option (Int32 × Int32) :=
  if s.vgaGetBpp = 24 ∨ s.vgaGetBpp = 16 ∨ s.vgaGetBpp = 32 then some s.vgaGetResolution
  else none

inductive GraphicMode where
  | text
  | graph
  | blank
  deriving DecidableEq, Repr

def graphicMode : GraphicMode :=
  if s.arIndex &&& 0x20 = 0 then .blank
  else if s.gr 6 &&& 1 = 0 then .text
  else .graph

/-- The call of `va_do_drawing` a refresh of the display makes. -/
def vgaUpdateDisplay : Option (Int32 × Int32) :=
  match s.graphicMode with
  | .graph => s.vgaDrawGraphic
  | _ => none

end VGACommonState

inductive PortWrite where
  | vbeIndex (val : UInt16)
  | vbeData (val : UInt16)
  | ar (val : UInt8)
  deriving DecidableEq, Repr

/-- A device that has trapped does nothing more. -/
def step (s : Option VGACommonState) (w : PortWrite) : Option VGACommonState :=
  s.bind fun s =>
    match w with
    | .vbeIndex val => some (s.vbeIoportWriteIndex val)
    | .vbeData val => s.vbeIoportWriteData val
    | .ar val => some (s.writeAttribute val)

namespace VGACommonState

variable (s : VGACommonState)

def HookPositive : Prop :=
  match s.vgaDrawGraphic with
  | some (width, height) => 0 < width ∧ 0 < height
  | none => True

def Enabled : Prop := s.vbeRegs .enable &&& 1 ≠ 0

def TrueColour (bpp : UInt16) : Prop := bpp = 24 ∨ bpp = 16 ∨ bpp = 32

def NoSize : Prop := s.vbeRegs .xres = 0 ∨ s.vbeRegs .yres = 0

instance : Decidable s.Enabled := inferInstanceAs (Decidable (¬ _))

instance (bpp : UInt16) : Decidable (TrueColour bpp) := inferInstanceAs (Decidable (_ ∨ _))

instance : Decidable s.NoSize := inferInstanceAs (Decidable (_ ∨ _))

theorem toInt32_pos_iff (x : UInt16) : 0 < x.toUInt32.toInt32 ↔ x ≠ 0 := by
  have hlt := x.toNat_lt
  have hnat := IntArith.toUInt32_toNat x.toUInt32.toInt32
  obtain ⟨hlow, hhigh⟩ := IntArith.fits_toInt x.toUInt32.toInt32
  rw [UInt32.toUInt32_toInt32, UInt16.toNat_toUInt32] at hnat
  have hzero : x = 0 ↔ x.toNat = 0 := UInt16.toNat_inj.symm
  rw [Int32.lt_iff_toInt_lt, Int32.toInt_zero, ne_eq, hzero]
  omega

/-- The hook draws without a size in one kind of mode only. -/
theorem hookPositive_iff :
    s.HookPositive ↔ ¬ (s.Enabled ∧ TrueColour (s.vbeRegs .bpp) ∧ s.NoSize) := by
  unfold HookPositive vgaDrawGraphic vgaGetBpp vgaGetResolution
  by_cases he : s.vbeRegs .enable &&& 1 ≠ 0
  · have hen : s.Enabled := he
    by_cases hb : s.vbeRegs .bpp = 24 ∨ s.vbeRegs .bpp = 16 ∨ s.vbeRegs .bpp = 32
    · have hdeep : TrueColour (s.vbeRegs .bpp) := hb
      simp only [if_pos he, if_pos hb, toInt32_pos_iff, hen, hdeep, true_and, NoSize, not_or]
    · have hdeep : ¬ TrueColour (s.vbeRegs .bpp) := hb
      simp only [if_pos he, if_neg hb, hdeep, false_and, and_false, not_false_eq_true]
  · have hen : ¬ s.Enabled := he
    have hzero : ¬ ((0 : UInt16) = 24 ∨ (0 : UInt16) = 16 ∨ (0 : UInt16) = 32) := by decide
    simp only [if_neg he, if_neg hzero, hen, false_and, not_false_eq_true]

/-- The writes that leave an enabled true-colour mode without a size: a zero while
such a mode is on, or the last of depth and enabling while a size is missing. -/
def Zeroes : PortWrite → Prop
  | .vbeData val =>
    match VbeIndex.ofIndex s.vbeIndex with
    | some .xres => val = 0 ∧ s.Enabled ∧ TrueColour (s.vbeRegs .bpp)
    | some .yres => val = 0 ∧ s.Enabled ∧ TrueColour (s.vbeRegs .bpp)
    | some .bpp => TrueColour val ∧ s.Enabled ∧ s.NoSize
    | some .enable => val &&& 1 ≠ 0 ∧ TrueColour (s.vbeRegs .bpp) ∧ s.NoSize
    | _ => False
  | _ => False

variable {s} {s' : VGACommonState}

def SameMode (s s' : VGACommonState) : Prop :=
  s'.vbeRegs .enable = s.vbeRegs .enable ∧ s'.vbeRegs .xres = s.vbeRegs .xres ∧
    s'.vbeRegs .yres = s.vbeRegs .yres ∧ s'.vbeRegs .bpp = s.vbeRegs .bpp

theorem SameMode.hookPositive_iff (h : SameMode s s') : s'.HookPositive ↔ s.HookPositive := by
  obtain ⟨he, hx, hy, hb⟩ := h
  rw [VGACommonState.hookPositive_iff, VGACommonState.hookPositive_iff, Enabled, Enabled, NoSize,
    NoSize, he, hx, hy, hb]

theorem setReg_sameMode (s : VGACommonState) (i : VbeIndex) (val : UInt16)
    (hi : i ≠ .enable ∧ i ≠ .xres ∧ i ≠ .yres ∧ i ≠ .bpp) : SameMode s (s.setReg i val) := by
  obtain ⟨he, hx, hy, hb⟩ := hi
  exact ⟨Function.update_of_ne he.symm _ _, Function.update_of_ne hx.symm _ _,
    Function.update_of_ne hy.symm _ _, Function.update_of_ne hb.symm _ _⟩

theorem writeBank_sameMode (s : VGACommonState) (val : UInt16) : SameMode s (s.writeBank val) :=
  ⟨rfl, rfl, rfl, rfl⟩

theorem writeOffset_sameMode (s : VGACommonState) (i : VbeIndex) (val : UInt16)
    (hi : i ≠ .enable ∧ i ≠ .xres ∧ i ≠ .yres ∧ i ≠ .bpp) : SameMode s (s.writeOffset i val) := by
  obtain ⟨he, hx, hy, hb⟩ := setReg_sameMode s i val hi
  exact ⟨he, hx, hy, hb⟩

theorem modGr_vbeRegs (i : UInt8) (f : UInt8 → UInt8) : (s.modGr i f).vbeRegs = s.vbeRegs := rfl

theorem modCr_vbeRegs (i : UInt8) (f : UInt8 → UInt8) : (s.modCr i f).vbeRegs = s.vbeRegs := rfl

theorem initPlanes_vbeRegs (s : VGACommonState) : s.initPlanes.vbeRegs = s.vbeRegs := by
  unfold initPlanes
  split
  · rfl
  · rfl

theorem initGraphicMode_vbeRegs (s : VGACommonState) : s.initGraphicMode.vbeRegs = s.vbeRegs := by
  unfold initGraphicMode
  simp only [modCr_vbeRegs, initPlanes_vbeRegs, modGr_vbeRegs]

theorem writeEnable_mode (s : VGACommonState) (val : UInt16) :
    (s.writeEnable val).vbeRegs .enable = val ∧
      (s.writeEnable val).vbeRegs .xres = s.vbeRegs .xres ∧
      (s.writeEnable val).vbeRegs .yres = s.vbeRegs .yres ∧
      (s.writeEnable val).vbeRegs .bpp = s.vbeRegs .bpp := by
  unfold writeEnable
  dsimp only
  split
  · simp [setReg, initGraphicMode_vbeRegs]
  · simp [setReg]

theorem writeVirtWidth_sameMode {val : UInt16} (h : s.writeVirtWidth val = some s') :
    SameMode s s' := by
  unfold writeVirtWidth at h
  dsimp only at h
  split at h
  · cases h
    exact ⟨rfl, rfl, rfl, rfl⟩
  · split at h
    · cases h
    · split at h
      · cases h
        exact ⟨rfl, rfl, rfl, rfl⟩
      · cases h
        simp [SameMode, setReg]

theorem setReg_self (s : VGACommonState) (i : VbeIndex) (val : UInt16) :
    (s.setReg i val).vbeRegs i = val := Function.update_self _ _ _

theorem setReg_other (s : VGACommonState) {i j : VbeIndex} (h : j ≠ i) (val : UInt16) :
    (s.setReg i val).vbeRegs j = s.vbeRegs j := Function.update_of_ne h _ _

theorem setSize_hookPositive_iff {i : VbeIndex} (hi : i = .xres ∨ i = .yres)
    (hs : s.HookPositive) (val : UInt16) :
    (s.setReg i val).HookPositive ↔ ¬ (val = 0 ∧ s.Enabled ∧ TrueColour (s.vbeRegs .bpp)) := by
  rw [hookPositive_iff, NoSize] at hs
  rw [hookPositive_iff, Enabled, NoSize]
  rcases hi with rfl | rfl
  all_goals
    rw [setReg_self, setReg_other _ (by decide), setReg_other _ (by decide),
      setReg_other _ (by decide), ← Enabled]
    tauto

theorem setDepth_hookPositive_iff (s : VGACommonState) (val : UInt16) :
    (s.setReg .bpp val).HookPositive ↔ ¬ (TrueColour val ∧ s.Enabled ∧ s.NoSize) := by
  rw [hookPositive_iff, Enabled, NoSize, setReg_self, setReg_other _ (by decide),
    setReg_other _ (by decide), setReg_other _ (by decide), ← Enabled, ← NoSize, and_left_comm]

theorem writeEnable_hookPositive_iff (s : VGACommonState) (val : UInt16) :
    (s.writeEnable val).HookPositive ↔
      ¬ (val &&& 1 ≠ 0 ∧ TrueColour (s.vbeRegs .bpp) ∧ s.NoSize) := by
  obtain ⟨he, hx, hy, hb⟩ := writeEnable_mode s val
  rw [hookPositive_iff, Enabled, NoSize, he, hx, hy, hb, NoSize]

/-- A zero is taken as a depth of eight, which is none of the hook's either. -/
theorem trueColour_default (val : UInt16) :
    TrueColour (if val = 0 then 8 else val) ↔ TrueColour val := by
  by_cases h0 : val = 0
  · subst h0
    decide
  · rw [if_neg h0]

/-- A write to the data port keeps the hook safe unless it takes away the size. -/
theorem writeData_hookPositive_iff {val : UInt16} (hs : s.HookPositive) :
    (∀ s', s.vbeIoportWriteData val = some s' → s'.HookPositive) ↔ ¬ s.Zeroes (.vbeData val) := by
  simp only [vbeIoportWriteData, Zeroes]
  cases hi : VbeIndex.ofIndex s.vbeIndex with
  | none => simpa using hs
  | some i =>
    cases i with
    | xres | yres =>
      simp only
      split
      · simp only [Option.some.injEq, forall_eq']
        exact setSize_hookPositive_iff (by simp) hs val
      · next hrefused =>
        -- a zero is never refused
        have hval : val ≠ 0 := by
          rintro rfl
          exact hrefused (by decide)
        simpa [hval] using hs
    | bpp =>
      simp only
      rw [← trueColour_default]
      generalize (if val = 0 then (8 : UInt16) else val) = depth
      split
      · simp only [Option.some.injEq, forall_eq']
        exact setDepth_hookPositive_iff s depth
      · next hrefused =>
        have hdepth : ¬ TrueColour depth := by
          rintro (rfl | rfl | rfl)
          all_goals exact hrefused (by decide)
        simpa [hdepth] using hs
    | enable =>
      simp only [Option.some.injEq, forall_eq']
      exact writeEnable_hookPositive_iff s val
    | virtWidth =>
      exact iff_of_true (fun s' h => (writeVirtWidth_sameMode h).hookPositive_iff.mpr hs) not_false
    | id =>
      simp only
      split
      · simpa [(setReg_sameMode s .id val (by decide)).hookPositive_iff] using hs
      · simpa using hs
    | virtHeight => simpa using hs
    | bank => simpa [(writeBank_sameMode s val).hookPositive_iff] using hs
    | xOffset | yOffset =>
      simp only [Option.some.injEq, forall_eq', not_false_eq_true, iff_true]
      exact (writeOffset_sameMode s _ val (by decide)).hookPositive_iff.mpr hs

theorem step_hookPositive_iff {w : PortWrite} (hs : s.HookPositive) :
    (∀ s', step (some s) w = some s' → s'.HookPositive) ↔ ¬ s.Zeroes w := by
  cases w with
  | vbeData val => exact writeData_hookPositive_iff hs
  | vbeIndex val =>
    have hsame : SameMode s (s.vbeIoportWriteIndex val) := ⟨rfl, rfl, rfl, rfl⟩
    simpa [step, Zeroes, hsame.hookPositive_iff] using hs
  | ar val =>
    have hsame : SameMode s (s.writeAttribute val) := by
      unfold writeAttribute
      split
      · exact ⟨rfl, rfl, rfl, rfl⟩
      · exact ⟨rfl, rfl, rfl, rfl⟩
    simpa [step, Zeroes, hsame.hookPositive_iff] using hs

end VGACommonState

open VGACommonState

/-- Over every run of port writes: the hook is given a positive width and height in
every state of the run exactly if no write of it takes the size away from an enabled
true-colour mode, or enables one without a size. -/
theorem hook_positive_iff (vramSize : UInt32) (ws : List PortWrite) :
    (∀ pre, pre <+: ws → ∀ s, pre.foldl step (some (vgaCommonReset vramSize)) = some s →
        s.HookPositive) ↔
      Along step (fun s w => ∀ s₀, s = some s₀ → ¬ s₀.Zeroes w) (some (vgaCommonReset vramSize))
        ws := by
  have hreset : (vgaCommonReset vramSize).HookPositive := by
    rw [hookPositive_iff]
    rintro ⟨he, -⟩
    exact he (by simp [vgaCommonReset])
  rw [forall_prefix_iff (J := fun s : Option VGACommonState => ∀ s₀, s = some s₀ → s₀.HookPositive)]
  rw [and_iff_right (by simpa using hreset)]
  refine along_iff_of_invariant
    (J := fun s : Option VGACommonState => ∀ s₀, s = some s₀ → s₀.HookPositive) ?_ ?_
    (by simpa using hreset) ws
  · rintro (- | s) w hs
    · simp [step]
    · simpa using step_hookPositive_iff (hs s rfl)
  · rintro (- | s) w hs hq
    · simp [step]
    · exact (step_hookPositive_iff (hs s rfl)).mpr (hq s rfl)

/-- Thirty-two bits a pixel, enabled without a size: the hook gets zeros from the four
writes alone, and with the screen on the next refresh divides by them. -/
theorem enabled_without_size :
    ∃ s s', [PortWrite.vbeIndex 3, .vbeData 32, .vbeIndex 4, .vbeData 1].foldl step
        (some (vgaCommonReset 0x800000)) = some s ∧
      s.vgaDrawGraphic = some (0, 0) ∧
      [PortWrite.ar 0x20].foldl step (some s) = some s' ∧ s'.vgaUpdateDisplay = some (0, 0) ∧
      calcScale 320 240 ⟨0, 0, 640, 480⟩ ⟨1, 1024, 768⟩ 0 0 = none :=
  ⟨_, _, rfl, by decide, rfl, by decide, by decide⟩

end VmPlayback.Vga
