import VmPlayback.Lanes
import VmPlayback.Transducer
import VmPlayback.VgaPorts

namespace VmPlayback.Vga

open Transducer

/-- The device with its video memory; `dirty` is the VGA's flag of each page. -/
structure VGADevice where
  regs : VGAState
  vram : Mem
  latch : BitVec 32
  planeUpdated : BitVec 32
  dirty : ℕ → Bool

def pageSize : ℕ := 4096

def cbswap32 (x : BitVec 32) : BitVec 32 :=
  ((x &&& 0x000000ff) <<< 24) ||| ((x &&& 0x0000ff00) <<< 8) ||| ((x &&& 0x00ff0000) >>> 8) |||
    ((x &&& 0xff000000) >>> 24)

def pat (o : ByteOrder) (x : BitVec 32) : BitVec 32 :=
  match o with
  | .little => x
  | .big => cbswap32 x

def mask16 (o : ByteOrder) : List (BitVec 32) :=
  [pat o 0x00000000, pat o 0x000000ff, pat o 0x0000ff00, pat o 0x0000ffff,
    pat o 0x00ff0000, pat o 0x00ff00ff, pat o 0x00ffff00, pat o 0x00ffffff,
    pat o 0xff000000, pat o 0xff0000ff, pat o 0xff00ff00, pat o 0xff00ffff,
    pat o 0xffff0000, pat o 0xffff00ff, pat o 0xffffff00, pat o 0xffffffff]

def getPlane (o : ByteOrder) (data : BitVec 32) (p : ℕ) : BitVec 32 :=
  match o with
  | .little => (data >>> (p * 8)) &&& 0xff
  | .big => (data >>> (24 - p * 8)) &&& 0xff

def spread (val : BitVec 32) : BitVec 32 :=
  let val := val ||| val <<< 8
  val ||| val <<< 16

/-- `(val >> b) | (val << (8 - b))` -/
def rotate (val : BitVec 32) (b : ℕ) : BitVec 32 := (val >>> b) ||| (val <<< (8 - b))

namespace VGAState

variable (s : VGAState)

/-- "convert to VGA memory offset": none for an address outside the window the
memory map selects.  A subtraction below zero wraps to a large offset there. -/
def memoryOffset (addr : ℕ) : Option ℕ :=
  let mode := (s.gr 6 >>> 2) &&& 3
  let addr := addr % 0x20000
  if mode = 0 then some addr
  else if mode = 1 then
    if 0x10000 ≤ addr then none else some (addr + s.bankOffset.toNat)
  else if mode = 2 then
    if addr < 0x10000 ∨ 0x8000 ≤ addr - 0x10000 then none else some (addr - 0x10000)
  else
    if addr < 0x18000 ∨ 0x8000 ≤ addr - 0x18000 then none else some (addr - 0x18000)

inductive Access where
  | chain4
  | oddEven
  | latched
  deriving DecidableEq, Repr

def access : Access :=
  if s.sr 4 &&& 0x08 ≠ 0 then .chain4
  else if s.gr 5 &&& 0x10 ≠ 0 then .oddEven
  else .latched

/-- `(s->gr[4] & 2) | (addr & 1)` -/
def oddEvenPlane (addr : ℕ) : ℕ := ((s.gr 4 &&& 2) ||| UInt8.ofNat (addr % 2)).toNat

/-- `((addr & ~1) << 1) | plane`, whose operands have no bits in common -/
def oddEvenAddr (addr : ℕ) : ℕ := (addr - addr % 2) * 2 + s.oddEvenPlane addr

def planeEnabled (plane : ℕ) : Bool := (s.sr 2).toBitVec.getLsbD plane

/-- What a latched read answers, once the latch is loaded. -/
def latchedByte (o : ByteOrder) (latch : BitVec 32) : Except Fault UInt8 := do
  if s.gr 5 &&& 0x08 = 0 then
    -- read mode 0
    return ⟨(getPlane o latch (s.gr 4).toNat).setWidth 8⟩
  else
    -- read mode 1
    let compare ← lookup (mask16 o) (s.gr 2).toNat
    let care ← lookup (mask16 o) (s.gr 7).toNat
    let ret := (latch ^^^ compare) &&& care
    let ret := ret ||| ret >>> 16
    let ret := ret ||| ret >>> 8
    return ⟨(~~~ret &&& 0xff).setWidth 8⟩

/-- "apply logical operation", "apply bit mask" -/
def combine (latch val bitMask : BitVec 32) : BitVec 32 :=
  let func := s.gr 3 >>> 3
  let val :=
    if func = 1 then val &&& latch
    else if func = 2 then val ||| latch
    else if func = 3 then val ^^^ latch
    else val
  let bitMask := spread bitMask
  (val &&& bitMask) ||| (latch &&& ~~~bitMask)

/-- The word a latched write stores where `sr[2]` lets it. -/
def latchedWord (o : ByteOrder) (latch : BitVec 32) (val : UInt8) : Except Fault (BitVec 32) := do
  let val := val.toBitVec.setWidth 32
  let b := (s.gr 3 &&& 7).toNat
  let bitMask := (s.gr 8).toBitVec.setWidth 32
  if s.gr 5 &&& 3 = 1 then
    return latch
  else if s.gr 5 &&& 3 = 2 then
    let val ← lookup (mask16 o) (val &&& 0x0f).toNat
    return s.combine latch val bitMask
  else if s.gr 5 &&& 3 = 3 then
    let bitMask := bitMask &&& rotate val b
    let val ← lookup (mask16 o) (s.gr 0).toNat
    return s.combine latch val bitMask
  else
    let val := spread (rotate val b &&& 0xff)
    let setMask ← lookup (mask16 o) (s.gr 1).toNat
    let set ← lookup (mask16 o) (s.gr 0).toNat
    return s.combine latch ((val &&& ~~~setMask) ||| (set &&& setMask)) bitMask

end VGAState

namespace VGADevice

variable (o : ByteOrder) (d : VGADevice)

def vramByte (addr : ℕ) : Except Fault UInt8 :=
  if addr < d.regs.vramSize.toNat then .ok (d.vram addr) else .error .vram

def vramWord (addr : ℕ) : Except Fault (BitVec 32) :=
  if 4 * addr + 3 < d.regs.vramSize.toNat then .ok (d.vram.loadWord (k := 4) o (4 * addr))
  else .error .vram

def setDirty (addr : ℕ) : VGADevice :=
  { d with dirty := Function.update d.dirty (addr / pageSize) true }

def vgaMemReadb (addr : ℕ) : Except Fault (UInt8 × VGADevice) :=
  match d.regs.memoryOffset addr with
  | none => .ok (0xff, d)
  | some addr =>
    match d.regs.access with
    | .chain4 => do
      let b ← d.vramByte addr
      return (b, d)
    | .oddEven => do
      let b ← d.vramByte (d.regs.oddEvenAddr addr)
      return (b, d)
    | .latched => do
      let latch ← d.vramWord o addr
      let b ← d.regs.latchedByte o latch
      return (b, { d with latch })

def storePlane (addr plane : ℕ) (val : UInt8) : VGADevice :=
  { d with
    vram := d.vram.store addr [val]
    planeUpdated := d.planeUpdated ||| 1 <<< plane }.setDirty addr

def storeMasked (addr : ℕ) (old val writeMask : BitVec 32) : VGADevice :=
  { d with
    vram := d.vram.storeWord (k := 4) o (4 * addr) ((old &&& ~~~writeMask) ||| (val &&& writeMask))
    planeUpdated := d.planeUpdated ||| (d.regs.sr 2).toBitVec.setWidth 32 }.setDirty (4 * addr)

def writePlane (addr plane : ℕ) (val : UInt8) : Except Fault VGADevice :=
  if d.regs.planeEnabled plane then
    if addr < d.regs.vramSize.toNat then .ok (d.storePlane addr plane val) else .error .vram
  else .ok d

def vgaMemWriteb (addr : ℕ) (val : UInt8) : Except Fault VGADevice :=
  match d.regs.memoryOffset addr with
  | none => .ok d
  | some addr =>
    match d.regs.access with
    | .chain4 => d.writePlane addr (addr % 4) val
    | .oddEven => d.writePlane (d.regs.oddEvenAddr addr) (d.regs.oddEvenPlane addr) val
    | .latched => do
      let val ← d.regs.latchedWord o d.latch val
      let writeMask ← lookup (mask16 o) (d.regs.sr 2).toNat
      let old ← d.vramWord o addr
      return d.storeMasked o addr old val writeMask

def vgaMemReadw (addr : ℕ) : Except Fault (UInt16 × VGADevice) := do
  let (v0, d) ← d.vgaMemReadb o addr
  let (v1, d) ← d.vgaMemReadb o (addr + 1)
  return (v0.toUInt16 ||| v1.toUInt16 <<< 8, d)

def vgaMemReadl (addr : ℕ) : Except Fault (UInt32 × VGADevice) := do
  let (v0, d) ← d.vgaMemReadb o addr
  let (v1, d) ← d.vgaMemReadb o (addr + 1)
  let (v2, d) ← d.vgaMemReadb o (addr + 2)
  let (v3, d) ← d.vgaMemReadb o (addr + 3)
  return (v0.toUInt32 ||| v1.toUInt32 <<< 8 ||| v2.toUInt32 <<< 16 ||| v3.toUInt32 <<< 24, d)

def vgaMemWritew (addr : ℕ) (val : UInt16) : Except Fault VGADevice := do
  let d ← d.vgaMemWriteb o addr val.toUInt8
  d.vgaMemWriteb o (addr + 1) (val >>> 8).toUInt8

def vgaMemWritel (addr : ℕ) (val : UInt32) : Except Fault VGADevice := do
  let d ← d.vgaMemWriteb o addr val.toUInt8
  let d ← d.vgaMemWriteb o (addr + 1) (val >>> 8).toUInt8
  let d ← d.vgaMemWriteb o (addr + 2) (val >>> 16).toUInt8
  d.vgaMemWriteb o (addr + 3) (val >>> 24).toUInt8

def readBytes (d : VGADevice) (addr : ℕ) : ℕ → Except Fault (List UInt8 × VGADevice)
  | 0 => .ok ([], d)
  | n + 1 => do
    let (b, d) ← d.vgaMemReadb o addr
    let (bs, d) ← readBytes d (addr + 1) n
    return (b :: bs, d)

def writeBytes (d : VGADevice) (addr : ℕ) : List UInt8 → Except Fault VGADevice
  | [] => .ok d
  | b :: bs => do
    let d ← d.vgaMemWriteb o addr b
    writeBytes d (addr + 1) bs

theorem vgaMemReadw_eq (addr : ℕ) : d.vgaMemReadw o addr = (do
    let (bs, d) ← d.readBytes o addr 2
    return ((bs.getD 0 0).toUInt16 ||| (bs.getD 1 0).toUInt16 <<< 8, d)) := by
  simp only [vgaMemReadw, readBytes, pure_eq_ok]
  cases d.vgaMemReadb o addr with
  | error f => rfl
  | ok r =>
    simp only [ok_bind]
    cases r.2.vgaMemReadb o (addr + 1) with
    | error f => rfl
    | ok r' => rfl

theorem vgaMemReadl_eq (addr : ℕ) : d.vgaMemReadl o addr = (do
    let (bs, d) ← d.readBytes o addr 4
    return ((bs.getD 0 0).toUInt32 ||| (bs.getD 1 0).toUInt32 <<< 8 |||
      (bs.getD 2 0).toUInt32 <<< 16 ||| (bs.getD 3 0).toUInt32 <<< 24, d)) := by
  simp only [vgaMemReadl, readBytes, pure_eq_ok]
  cases d.vgaMemReadb o addr with
  | error f => rfl
  | ok r =>
    simp only [ok_bind]
    cases r.2.vgaMemReadb o (addr + 1) with
    | error f => rfl
    | ok r =>
      simp only [ok_bind]
      cases r.2.vgaMemReadb o (addr + 2) with
      | error f => rfl
      | ok r =>
        simp only [ok_bind]
        cases r.2.vgaMemReadb o (addr + 3) with
        | error f => rfl
        | ok r => rfl

theorem vgaMemWritew_eq (addr : ℕ) (val : UInt16) :
    d.vgaMemWritew o addr val = d.writeBytes o addr [val.toUInt8, (val >>> 8).toUInt8] := by
  simp only [vgaMemWritew, writeBytes]
  cases d.vgaMemWriteb o addr val.toUInt8 with
  | error f => rfl
  | ok d =>
    simp only [ok_bind]
    cases d.vgaMemWriteb o (addr + 1) (val >>> 8).toUInt8 with
    | error f => rfl
    | ok d => rfl

theorem vgaMemWritel_eq (addr : ℕ) (val : UInt32) :
    d.vgaMemWritel o addr val = d.writeBytes o addr [val.toUInt8, (val >>> 8).toUInt8,
      (val >>> 16).toUInt8, (val >>> 24).toUInt8] := by
  simp only [vgaMemWritel, writeBytes]
  cases d.vgaMemWriteb o addr val.toUInt8 with
  | error f => rfl
  | ok d =>
    simp only [ok_bind]
    cases d.vgaMemWriteb o (addr + 1) (val >>> 8).toUInt8 with
    | error f => rfl
    | ok d =>
      simp only [ok_bind]
      cases d.vgaMemWriteb o (addr + 2) (val >>> 16).toUInt8 with
      | error f => rfl
      | ok d =>
        simp only [ok_bind]
        cases d.vgaMemWriteb o (addr + 3) (val >>> 24).toUInt8 with
        | error f => rfl
        | ok d => rfl

/-- `vbe_ioport_write_data` with the screen it clears. -/
def vbeIoportWriteData (val : UInt16) : Except Fault VGADevice := do
  let regs ← d.regs.vbeWriteData val
  match d.regs.clearSize val with
  | none => return { d with regs }
  | some n =>
    if n ≤ d.regs.vramSize.toNat then
      return { d with regs, vram := d.vram.store 0 (List.replicate n 0) }
    else throw .vram

end VGADevice

end VmPlayback.Vga
