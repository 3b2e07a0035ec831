import VmPlayback.Vbe

namespace VmPlayback.Vga

/-- What stops the device: a lookup past the end of an array, an access past the
end of the video memory, or a division by zero. -/
inductive Fault where
  | table
  | vram
  | divide
  deriving DecidableEq, Repr

structure VGAState extends VGACommonState where
  srIndex : UInt8
  grIndex : UInt8
  ar : UInt8 → UInt8
  crIndex : UInt8
  msr : UInt8
  fcr : UInt8
  st00 : UInt8
  st01 : UInt8
  dacState : UInt8
  dacSubIndex : UInt8
  dacReadIndex : UInt8
  dacWriteIndex : UInt8
  dacCache : UInt8 → UInt8
  palette : ℕ → UInt8

def vgaRamSize : UInt32 := 16 * 1024 * 1024

def VGAState.reset : VGAState where
  toVGACommonState := vgaCommonReset vgaRamSize
  srIndex := 0
  grIndex := 0
  ar _ := 0
  crIndex := 0
  msr := 0
  fcr := 0
  st00 := 0
  st01 := 0
  dacState := 0
  dacSubIndex := 0
  dacReadIndex := 0
  dacWriteIndex := 0
  dacCache _ := 0
  palette _ := 0

def srMask : List UInt8 := [0x03, 0x3d, 0x0f, 0x3f, 0x0e, 0x00, 0x00, 0xff]

def grMask : List UInt8 :=
  [0x0f, 0x0f, 0x0f, 0x1f, 0x03, 0x7b, 0x0f, 0x0f, 0xff, 0x00, 0x00, 0x00, 0x00, 0x00, 0x00, 0x00]

def lookup {α : Type} (table : List α) (i : ℕ) : Except Fault α :=
  match table[i]? with
  | some x => .ok x
  | none => .error .table

/-- The ports by what they do; the CRT controller and the status register have an
address each for colour and for monochrome. -/
inductive Port where
  | attr
  | attrData
  | misc
  | srIndex
  | srData
  | dacRead
  | dacWrite
  | dacData
  | feature
  | miscRead
  | grIndex
  | grData
  | crIndex
  | crData
  | status
  deriving DecidableEq, Repr

def Port.ofAddr (addr : UInt16) : Option Port :=
  if addr = 0x3c0 then some .attr
  else if addr = 0x3c1 then some .attrData
  else if addr = 0x3c2 then some .misc
  else if addr = 0x3c4 then some .srIndex
  else if addr = 0x3c5 then some .srData
  else if addr = 0x3c7 then some .dacRead
  else if addr = 0x3c8 then some .dacWrite
  else if addr = 0x3c9 then some .dacData
  else if addr = 0x3ca then some .feature
  else if addr = 0x3cc then some .miscRead
  else if addr = 0x3ce then some .grIndex
  else if addr = 0x3cf then some .grData
  else if addr = 0x3b4 ∨ addr = 0x3d4 then some .crIndex
  else if addr = 0x3b5 ∨ addr = 0x3d5 then some .crData
  else if addr = 0x3ba ∨ addr = 0x3da then some .status
  else none

namespace VGAState

variable (s : VGAState)

def vgaIoportInvalid (addr : UInt16) : Prop :=
  if s.msr &&& 0x01 ≠ 0 then 0x3b0 ≤ addr ∧ addr ≤ 0x3bf else 0x3d0 ≤ addr ∧ addr ≤ 0x3df

instance (addr : UInt16) : Decidable (s.vgaIoportInvalid addr) := by
  unfold vgaIoportInvalid
  infer_instance

/-- `palette[dac_read_index * 3 + dac_sub_index]`, and on to the next component. -/
def readDac : Except Fault (UInt8 × VGAState) :=
  let i := s.dacReadIndex.toNat * 3 + s.dacSubIndex.toNat
  if i < 768 then
    if s.dacSubIndex + 1 = 3 then
      .ok (s.palette i, { s with dacSubIndex := 0, dacReadIndex := s.dacReadIndex + 1 })
    else
      .ok (s.palette i, { s with dacSubIndex := s.dacSubIndex + 1 })
  else
    .error .table

/-- `vga_dumb_retrace`: "just toggle to fool polling" -/
def vgaDumbRetrace : UInt8 := s.st01 ^^^ (0x08 ||| 0x01)

def vgaIoportRead (addr : UInt16) : Except Fault (UInt8 × VGAState) :=
  if s.vgaIoportInvalid addr then
    .ok (0xff, s)
  else
    match Port.ofAddr addr with
    | some .attr => .ok (if s.arFlipFlop then 0 else s.arIndex, s)
    | some .attrData =>
      let index := s.arIndex &&& 0x1f
      .ok (if index < 21 then s.ar index else 0, s)
    | some .misc => .ok (s.st00, s)
    | some .srIndex => .ok (s.srIndex, s)
    | some .srData => .ok (s.sr s.srIndex, s)
    | some .dacRead => .ok (s.dacState, s)
    | some .dacWrite => .ok (s.dacWriteIndex, s)
    | some .dacData => s.readDac
    | some .feature => .ok (s.fcr, s)
    | some .miscRead => .ok (s.msr, s)
    | some .grIndex => .ok (s.grIndex, s)
    | some .grData => .ok (s.gr s.grIndex, s)
    | some .crIndex => .ok (s.crIndex, s)
    | some .crData => .ok (s.cr s.crIndex, s)
    | some .status =>
      .ok (s.vgaDumbRetrace, { s with st01 := s.vgaDumbRetrace, arFlipFlop := false })
    | none => .ok (0, s)

def arMask (index : UInt8) : UInt8 :=
  if index ≤ 0x0f then 0x3f
  else if index = 0x10 then ~~~0x10
  else if index = 0x11 then 0xff
  else if index = 0x12 then ~~~0xc0
  else ~~~0xf0

def writeAttr (val : UInt8) : VGAState :=
  let index := s.arIndex &&& 0x1f
  let s :=
    if s.arFlipFlop = false then { s with arIndex := val &&& 0x3f }
    else if index ≤ 0x14 then { s with ar := Function.update s.ar index (val &&& arMask index) }
    else s
  { s with arFlipFlop := !s.arFlipFlop }

/-- Port 0x3c9: three components make an entry. -/
def writeDac (val : UInt8) : Except Fault VGAState :=
  if s.dacSubIndex < 3 then
    let s := { s with dacCache := Function.update s.dacCache s.dacSubIndex val }
    if s.dacSubIndex + 1 = 3 then
      let at_ := s.dacWriteIndex.toNat * 3
      .ok { s with
        palette := fun i =>
          if at_ ≤ i ∧ i < at_ + 3 then s.dacCache (UInt8.ofNat (i - at_)) else s.palette i
        dacSubIndex := 0
        dacWriteIndex := s.dacWriteIndex + 1 }
    else
      .ok { s with dacSubIndex := s.dacSubIndex + 1 }
  else
    .error .table

/-- The data port of the CRT controller.  Registers 0 to 7 can be protected, except
for bit 4 of register 7. -/
def writeCr (val : UInt8) : VGAState :=
  if s.cr 0x11 &&& 0x80 ≠ 0 ∧ s.crIndex ≤ 7 then
    if s.crIndex = 7 then
      { s with cr := Function.update s.cr 7 ((s.cr 7 &&& ~~~0x10) ||| (val &&& 0x10)) }
    else s
  else
    { s with cr := Function.update s.cr s.crIndex val }

def vgaIoportWrite (addr : UInt16) (val : UInt8) : Except Fault VGAState :=
  if s.vgaIoportInvalid addr then
    .ok s
  else
    match Port.ofAddr addr with
    | some .attr => .ok (s.writeAttr val)
    | some .misc => .ok { s with msr := val &&& ~~~0x10 }
    | some .srIndex => .ok { s with srIndex := val &&& 7 }
    | some .srData => do
      let mask ← lookup srMask s.srIndex.toNat
      return { s with sr := Function.update s.sr s.srIndex (val &&& mask) }
    | some .dacRead => .ok { s with dacReadIndex := val, dacSubIndex := 0, dacState := 3 }
    | some .dacWrite => .ok { s with dacWriteIndex := val, dacSubIndex := 0, dacState := 0 }
    | some .dacData => s.writeDac val
    | some .grIndex => .ok { s with grIndex := val &&& 0x0f }
    | some .grData => do
      let mask ← lookup grMask s.grIndex.toNat
      return { s with gr := Function.update s.gr s.grIndex (val &&& mask) }
    | some .crIndex => .ok { s with crIndex := val }
    | some .crData => .ok (s.writeCr val)
    | some .status => .ok { s with fcr := val &&& 0x10 }
    | some .attrData | some .feature | some .miscRead | none => .ok s

/-- `vbe_regs` has ten registers, and the check lets an index of ten pass. -/
def vbeIoportReadData : Except Fault UInt16 :=
  if s.vbeIndex ≤ 10 then
    match VbeIndex.ofIndex s.vbeIndex with
    | some i =>
      .ok (if s.vbeRegs .enable &&& 0x02 ≠ 0 then
        match i with
        | .xres => 2560
        | .yres => 1600
        | .bpp => 32
        | i => s.vbeRegs i
      else s.vbeRegs i)
    | none => .error .table
  else
    .ok 0

def vbeWriteIndex (val : UInt16) : VGAState :=
  { s with toVGACommonState := s.toVGACommonState.vbeIoportWriteIndex val }

def vbeWriteData (val : UInt16) : Except Fault VGAState :=
  match s.toVGACommonState.vbeIoportWriteData val with
  | some s' => .ok { s with toVGACommonState := s' }
  | none => .error .divide

/-- The size of the `memset` that clears the screen, when a write to the enable
register makes one. -/
def clearSize (val : UInt16) : Option ℕ :=
  if VbeIndex.ofIndex s.vbeIndex = some .enable ∧ val &&& 1 ≠ 0 ∧ s.vbeRegs .enable &&& 1 = 0 ∧
      val &&& 0x80 = 0 then
    some ((s.vbeRegs .yres).toUInt32 * s.pixelBytes (s.vbeRegs .xres).toUInt32).toNat
  else none

end VGAState

end VmPlayback.Vga
