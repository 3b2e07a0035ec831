import VmPlayback.Bytes
import VmPlayback.Exec

namespace VmPlayback

namespace Scalar

def char : Scalar Int8 :=
  ⟨1, by decide, by decide, ⟨Int8.toBitVec, Int8.ofBitVec, fun _ => rfl, fun _ => rfl⟩⟩
def uchar : Scalar UInt8 :=
  ⟨1, by decide, by decide, ⟨UInt8.toBitVec, UInt8.ofBitVec, fun _ => rfl, fun _ => rfl⟩⟩
def short : Scalar Int16 :=
  ⟨2, by decide, by decide, ⟨Int16.toBitVec, Int16.ofBitVec, fun _ => rfl, fun _ => rfl⟩⟩
def ushort : Scalar UInt16 :=
  ⟨2, by decide, by decide, ⟨UInt16.toBitVec, UInt16.ofBitVec, fun _ => rfl, fun _ => rfl⟩⟩
def int : Scalar Int32 :=
  ⟨4, by decide, by decide, ⟨Int32.toBitVec, Int32.ofBitVec, fun _ => rfl, fun _ => rfl⟩⟩
def uint : Scalar UInt32 :=
  ⟨4, by decide, by decide, ⟨UInt32.toBitVec, UInt32.ofBitVec, fun _ => rfl, fun _ => rfl⟩⟩
def int64 : Scalar Int64 :=
  ⟨8, by decide, by decide, ⟨Int64.toBitVec, Int64.ofBitVec, fun _ => rfl, fun _ => rfl⟩⟩
def uint64 : Scalar UInt64 :=
  ⟨8, by decide, by decide, ⟨UInt64.toBitVec, UInt64.ofBitVec, fun _ => rfl, fun _ => rfl⟩⟩

end Scalar

/-- `content` is the buffer behind `getContentPtr()`; only its first `length`
bytes belong to the message, and nothing stops a program from looking further. -/
structure Message where
  header : Int32
  length : UInt32
  content : Mem

namespace Message

def getHeader (m : Message) : Int32 := m.header

/-- Returned as a signed `int`, whatever the length. -/
def getLength (m : Message) : Int32 := m.length.toInt32

def bytes (m : Message) : List UInt8 := m.content.load 0 m.length.toNat

@[simp] theorem bytes_length (m : Message) : m.bytes.length = m.length.toNat := by
  simp [bytes]

/-- What two ends of a connection can agree on: the header and the bytes. -/
def Same (m m' : Message) : Prop :=
  m.header = m'.header ∧ m.length = m'.length ∧ m.bytes = m'.bytes

end Message

structure ReaderException where
  what : String
  deriving DecidableEq, Repr

/-- `touched` is a ghost: the spans (offset, byte count) of the content
dereferenced so far, the latest first. -/
structure MessageReader where
  message : Message
  seekPos : UInt32
  touched : List (ℕ × ℕ)

abbrev ReaderM := EStateM ReaderException MessageReader

namespace MessageReader

def new (mess : Message) : MessageReader := ⟨mess, 0, []⟩

def getSize (r : MessageReader) : UInt32 := r.message.getLength.toUInt32

@[simp] theorem getSize_eq (r : MessageReader) : r.getSize = r.message.length := by
  simp [getSize, Message.getLength]

def tell (r : MessageReader) : UInt32 := r.seekPos

def seek (pos : UInt32) : ReaderM Unit := do
  if pos > (← get).getSize then
    throw ⟨"Seek out of range."⟩
  modify fun r => { r with seekPos := pos }

def assureSize (sizeToRead : UInt32) : ReaderM Unit := do
  let r ← get
  if r.seekPos + sizeToRead > r.getSize then
    throw ⟨"Not enough data to read."⟩

def deref (pos : UInt32) (n : ℕ) : ReaderM (List UInt8) := do
  let r ← get
  set { r with touched := (pos.toNat, n) :: r.touched }
  return r.message.content.load pos.toNat n

def advance (n : UInt32) : ReaderM Unit :=
  modify fun r => { r with seekPos := r.seekPos + n }

variable (o : ByteOrder)

/-- The scalar reads differ in their type only. -/
def readScalar {α : Type} (t : Scalar α) : ReaderM α := do
  assureSize (UInt32.ofNat t.size)
  let result ← deref (← get).seekPos t.size
  advance (UInt32.ofNat t.size)
  return t.decode o result

def readSByte : ReaderM Int8 := readScalar o .char
def readByte : ReaderM UInt8 := readScalar o .uchar
def readInt16 : ReaderM Int16 := readScalar o .short
def readUInt16 : ReaderM UInt16 := readScalar o .ushort
def readInt32 : ReaderM Int32 := readScalar o .int
def readUInt32 : ReaderM UInt32 := readScalar o .uint
def readInt64 : ReaderM Int64 := readScalar o .int64
def readUInt64 : ReaderM UInt64 := readScalar o .uint64

/-- The position moves before the string is built from the old one. -/
def readString : ReaderM (List UInt8) := do
  let size ← readUInt32 o
  assureSize size
  let orgSeekPos := (← get).seekPos
  advance size
  deref orgSeekPos size.toNat

/-- Returns what `memcpy` puts into the caller's block. -/
def readBytes (size : UInt32) : ReaderM (List UInt8) := do
  assureSize size
  let bytes ← deref (← get).seekPos size.toNat
  advance size
  return bytes

open Exec

@[simp] theorem assureSize_run (n : UInt32) (r : MessageReader) :
    assureSize n r = if r.message.length < r.seekPos + n then
      .error ⟨"Not enough data to read."⟩ r else .ok () r := by
  simp only [assureSize, run_bind, run_get, getSize_eq]
  split <;> rfl

def taken (r : MessageReader) (n : UInt32) : MessageReader :=
  { r with seekPos := r.seekPos + n, touched := (r.seekPos.toNat, n.toNat) :: r.touched }

theorem seek_run (pos : UInt32) (r : MessageReader) :
    seek pos r = if r.message.length < pos then .error ⟨"Seek out of range."⟩ r
      else .ok () { r with seekPos := pos } := by
  simp only [seek, run_bind, run_get, getSize_eq]
  split <;> rfl

theorem readBytes_run (n : UInt32) (r : MessageReader) :
    readBytes n r = if r.message.length < r.seekPos + n then
      .error ⟨"Not enough data to read."⟩ r
      else .ok (r.message.content.load r.seekPos.toNat n.toNat) (r.taken n) := by
  rw [readBytes]
  by_cases h : r.message.length < r.seekPos + n
  · simp only [run_bind, assureSize_run, if_pos h]
  · simp only [run_bind, assureSize_run, if_neg h]
    rfl

theorem scalar_size_toNat {α : Type} (t : Scalar α) : (UInt32.ofNat t.size).toNat = t.size := by
  have := t.size_le
  rw [UInt32.toNat_ofNat']
  omega

/-- A scalar read is a block read of its size, decoded. -/
theorem readScalar_eq {α : Type} (t : Scalar α) :
    readScalar o t = t.decode o <$> readBytes (UInt32.ofNat t.size) := by
  funext r
  simp only [run_map, readBytes_run, scalar_size_toNat]
  rw [readScalar]
  by_cases h : r.message.length < r.seekPos + UInt32.ofNat t.size
  · simp only [run_bind, assureSize_run, if_pos h]
  · simp only [run_bind, assureSize_run, if_neg h]
    simp only [taken, scalar_size_toNat]
    rfl

/-- A string read is two block reads, the second of the size the first found. -/
theorem readString_run (r : MessageReader) :
    readString o r = match readUInt32 o r with
      | .ok size r' => readBytes size r'
      | .error e r' => .error e r' := by
  rw [readString]
  simp only [run_bind]
  cases readUInt32 o r with
  | error e r' => rfl
  | ok size r' =>
    by_cases h : r'.message.length < r'.seekPos + size
    · simp only [assureSize_run, readBytes_run, if_pos h]
    · simp only [assureSize_run, readBytes_run, if_neg h]
      rfl

theorem lt_add_iff (r : MessageReader) (n : UInt32) :
    r.message.length < r.seekPos + n ↔
      r.message.length.toNat < (r.seekPos.toNat + n.toNat) % 2 ^ 32 := by
  rw [UInt32.lt_iff_toNat_lt, UInt32.toNat_add]

/-- The check of `assureSize` is exact as long as its sum does not wrap. -/
theorem check_exact {r : MessageReader} {n : UInt32} (hf : r.seekPos.toNat + n.toNat < 2 ^ 32) :
    r.message.length < r.seekPos + n ↔
      r.message.length.toNat < r.seekPos.toNat + n.toNat := by
  rw [lt_add_iff, Nat.mod_eq_of_lt hf]

theorem readBytes_ok {r : MessageReader} {n : UInt32}
    (h : r.seekPos.toNat + n.toNat ≤ r.message.length.toNat) :
    readBytes n r = .ok (r.message.content.load r.seekPos.toNat n.toNat) (r.taken n) := by
  have hl := r.message.length.toNat_lt
  rw [readBytes_run, if_neg]
  rw [check_exact (by omega)]
  omega

theorem readBytes_error {r : MessageReader} {n : UInt32}
    (hf : r.seekPos.toNat + n.toNat < 2 ^ 32)
    (h : r.message.length.toNat < r.seekPos.toNat + n.toNat) :
    readBytes n r = .error ⟨"Not enough data to read."⟩ r := by
  rw [readBytes_run, if_pos ((check_exact hf).mpr h)]

theorem readScalar_ok {α : Type} (t : Scalar α) {r : MessageReader}
    (h : r.seekPos.toNat + t.size ≤ r.message.length.toNat) :
    readScalar o t r = .ok (t.decode o (r.message.content.load r.seekPos.toNat t.size))
      (r.taken (UInt32.ofNat t.size)) := by
  rw [← scalar_size_toNat t] at h
  rw [readScalar_eq]
  simp only [run_map, readBytes_ok h, scalar_size_toNat]

theorem readScalar_error {α : Type} (t : Scalar α) {r : MessageReader}
    (hf : r.seekPos.toNat + t.size < 2 ^ 32)
    (h : r.message.length.toNat < r.seekPos.toNat + t.size) :
    readScalar o t r = .error ⟨"Not enough data to read."⟩ r := by
  rw [← scalar_size_toNat t] at hf h
  rw [readScalar_eq]
  simp only [run_map, readBytes_error hf h]

theorem taken_seekPos {r : MessageReader} {n : UInt32}
    (hf : r.seekPos.toNat + n.toNat < 2 ^ 32) :
    (r.taken n).seekPos.toNat = r.seekPos.toNat + n.toNat := by
  simp only [taken, UInt32.toNat_add, Nat.mod_eq_of_lt hf]

@[simp] theorem taken_message (r : MessageReader) (n : UInt32) :
    (r.taken n).message = r.message := rfl

end MessageReader

inductive ReaderOp where
  | seek (pos : UInt32)
  | readSByte
  | readByte
  | readInt16
  | readUInt16
  | readInt32
  | readUInt32
  | readInt64
  | readUInt64
  | readString
  | readBytes (size : UInt32)
  deriving DecidableEq, Repr

inductive ReadValue where
  | none
  | sbyte (v : Int8)
  | byte (v : UInt8)
  | int16 (v : Int16)
  | uint16 (v : UInt16)
  | int32 (v : Int32)
  | uint32 (v : UInt32)
  | int64 (v : Int64)
  | uint64 (v : UInt64)
  | string (v : List UInt8)
  | bytes (v : List UInt8)
  deriving DecidableEq

namespace ReaderOp

open MessageReader

def exec (o : ByteOrder) : ReaderOp → ReaderM ReadValue
  | seek pos => (fun _ => .none) <$> MessageReader.seek pos
  | readSByte => .sbyte <$> MessageReader.readSByte o
  | readByte => .byte <$> MessageReader.readByte o
  | readInt16 => .int16 <$> MessageReader.readInt16 o
  | readUInt16 => .uint16 <$> MessageReader.readUInt16 o
  | readInt32 => .int32 <$> MessageReader.readInt32 o
  | readUInt32 => .uint32 <$> MessageReader.readUInt32 o
  | readInt64 => .int64 <$> MessageReader.readInt64 o
  | readUInt64 => .uint64 <$> MessageReader.readUInt64 o
  | readString => .string <$> MessageReader.readString o
  | readBytes size => .bytes <$> MessageReader.readBytes size

end ReaderOp

end VmPlayback
