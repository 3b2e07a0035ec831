import VmPlayback.Message

namespace VmPlayback

/-- Buffers by address.  The bytes at an address not yet handed out are whatever
`new char[]` finds there. -/
structure Heap where
  mem : ℕ → Mem
  next : ℕ
  freed : List ℕ

namespace Heap

def store (h : Heap) (a off : ℕ) (bs : List UInt8) : Heap :=
  { h with mem := Function.update h.mem a ((h.mem a).store off bs) }

/-- `new char[n]`; the result is the old `next`. -/
def alloc (h : Heap) : Heap := { h with next := h.next + 1 }

def free (h : Heap) (a : ℕ) : Heap := { h with freed := a :: h.freed }

@[simp] theorem store_mem_self (h : Heap) (a off : ℕ) (bs : List UInt8) :
    (h.store a off bs).mem a = (h.mem a).store off bs := by
  simp [store]

@[simp] theorem alloc_mem (h : Heap) : h.alloc.mem = h.mem := rfl

@[simp] theorem free_mem (h : Heap) (a : ℕ) : (h.free a).mem = h.mem := rfl

end Heap

structure MessageRef where
  header : Int32
  length : UInt32
  content : ℕ

def MessageRef.view (m : MessageRef) (h : Heap) : Message := ⟨m.header, m.length, h.mem m.content⟩

structure MessageBuilder where
  heap : Heap
  content : ℕ
  initCap : UInt32
  capacity : UInt32
  size : UInt32
  header : Int32

namespace MessageBuilder

def DEFAULT_CAP : UInt32 := 10

def new (heap : Heap) (header : Int32) (initCap : UInt32) : MessageBuilder :=
  ⟨heap.alloc, heap.next, initCap, initCap, 0, header⟩

def newDefault (heap : Heap) : MessageBuilder := new heap 0 DEFAULT_CAP

def toMessage (b : MessageBuilder) : MessageRef × MessageBuilder :=
  (⟨b.header, b.size, b.content⟩,
    { b with capacity := b.initCap, heap := b.heap.alloc, content := b.heap.next, size := 0 })

/-- Twice the capacity when that is enough, else the size asked for; the shift
loses its top bit, and the second comparison is made on what is left. -/
def grownCapacity (capacity size : UInt32) : UInt32 :=
  if capacity <<< 1 < size then size else capacity <<< 1

def reserve (b : MessageBuilder) (size : UInt32) : MessageBuilder :=
  if b.capacity < size then
    -- only the used bytes are copied, then the old buffer goes
    { b with
      heap := ((b.heap.alloc).store b.heap.next 0
        ((b.heap.mem b.content).load 0 b.size.toNat)).free b.content
      content := b.heap.next
      capacity := grownCapacity b.capacity size }
  else b

def setHeader (b : MessageBuilder) (header : Int32) : MessageBuilder := { b with header := header }

/-- Bytes put at `content + size`, and the size moved past them. -/
def put (b : MessageBuilder) (bs : List UInt8) : MessageBuilder :=
  { b with
    heap := b.heap.store b.content b.size.toNat bs
    size := b.size + UInt32.ofNat bs.length }

variable (o : ByteOrder)

/-- The scalar overloads of `write` differ in their type only. -/
def writeScalar {α : Type} (t : Scalar α) (value : α) (b : MessageBuilder) : MessageBuilder :=
  (b.reserve (b.size + UInt32.ofNat t.size)).put (t.encode o value)

def writeChar := writeScalar o .char
def writeUChar := writeScalar o .uchar
def writeShort := writeScalar o .short
def writeUShort := writeScalar o .ushort
def writeInt := writeScalar o .int
def writeUInt := writeScalar o .uint
def writeInt64 := writeScalar o .int64
def writeUInt64 := writeScalar o .uint64
def writeFloat := writeScalar o .uint
def writeDouble := writeScalar o .uint64

/-- The length is a `size_t`; both the size asked of `reserve` and the prefix are
cut to 32 bits. -/
def writeString (value : List UInt8) (b : MessageBuilder) : MessageBuilder :=
  ((b.reserve (UInt32.ofNat (b.size.toNat + 4 + value.length))).put
    (Scalar.uint.encode o (UInt32.ofNat value.length))).put value

def writeBytes (bytes : Mem) (size : UInt32) (b : MessageBuilder) : MessageBuilder :=
  (b.reserve (b.size + size)).put (bytes.load 0 size.toNat)

end MessageBuilder

/-- One call of `write`, by overload.  Floating-point values are their bit
patterns, a raw block is a pointer and a size. -/
inductive Field where
  | char (v : Int8)
  | uchar (v : UInt8)
  | short (v : Int16)
  | ushort (v : UInt16)
  | int (v : Int32)
  | uint (v : UInt32)
  | int64 (v : Int64)
  | uint64 (v : UInt64)
  | float (bits : UInt32)
  | double (bits : UInt64)
  | string (v : List UInt8)
  | bytes (block : Mem) (size : UInt32)

namespace Field

variable (o : ByteOrder)

def write : Field → MessageBuilder → MessageBuilder
  | char v => MessageBuilder.writeChar o v
  | uchar v => MessageBuilder.writeUChar o v
  | short v => MessageBuilder.writeShort o v
  | ushort v => MessageBuilder.writeUShort o v
  | int v => MessageBuilder.writeInt o v
  | uint v => MessageBuilder.writeUInt o v
  | int64 v => MessageBuilder.writeInt64 o v
  | uint64 v => MessageBuilder.writeUInt64 o v
  | float bits => MessageBuilder.writeFloat o bits
  | double bits => MessageBuilder.writeDouble o bits
  | string v => MessageBuilder.writeString o v
  | bytes block size => MessageBuilder.writeBytes block size

def encode : Field → List UInt8
  | char v => Scalar.char.encode o v
  | uchar v => Scalar.uchar.encode o v
  | short v => Scalar.short.encode o v
  | ushort v => Scalar.ushort.encode o v
  | int v => Scalar.int.encode o v
  | uint v => Scalar.uint.encode o v
  | int64 v => Scalar.int64.encode o v
  | uint64 v => Scalar.uint64.encode o v
  | float bits => Scalar.uint.encode o bits
  | double bits => Scalar.uint64.encode o bits
  | string v => Scalar.uint.encode o (UInt32.ofNat v.length) ++ v
  | bytes block size => block.load 0 size.toNat

end Field

namespace MessageBuilder

variable (o : ByteOrder)

def used (b : MessageBuilder) : List UInt8 := (b.heap.mem b.content).load 0 b.size.toNat

@[simp] theorem used_length (b : MessageBuilder) : b.used.length = b.size.toNat := by
  simp [used]

@[simp] theorem new_used (heap : Heap) (header : Int32) (initCap : UInt32) :
    (new heap header initCap).used = [] := rfl

@[simp] theorem reserve_size (b : MessageBuilder) (n : UInt32) : (b.reserve n).size = b.size := by
  rw [reserve]
  split <;> rfl

@[simp] theorem reserve_header (b : MessageBuilder) (n : UInt32) :
    (b.reserve n).header = b.header := by
  rw [reserve]
  split <;> rfl

/-- Growing copies the used prefix and nothing else. -/
@[simp] theorem reserve_used (b : MessageBuilder) (n : UInt32) : (b.reserve n).used = b.used := by
  rw [reserve]
  split
  · have h := Mem.load_store_self (b.heap.mem b.heap.next) 0 b.used
    rw [used_length] at h
    simpa [used] using h
  · rfl

@[simp] theorem put_header (b : MessageBuilder) (bs : List UInt8) : (b.put bs).header = b.header :=
  rfl

theorem put_size {b : MessageBuilder} {bs : List UInt8} (h : b.size.toNat + bs.length < 2 ^ 32) :
    (b.put bs).size.toNat = b.size.toNat + bs.length := by
  rw [put, UInt32.toNat_add, UInt32.toNat_ofNat']
  omega

theorem put_used {b : MessageBuilder} {bs : List UInt8} (h : b.size.toNat + bs.length < 2 ^ 32) :
    (b.put bs).used = b.used ++ bs := by
  rw [used, put_size h]
  simp only [put, Heap.store_mem_self]
  exact Mem.load_store_append _ _ _

/-- The stores of one write, after the one `reserve` that all overloads begin with. -/
def puts (chunks : List (List UInt8)) (b : MessageBuilder) : MessageBuilder := chunks.foldl put b

@[simp] theorem puts_header (chunks : List (List UInt8)) (b : MessageBuilder) :
    (puts chunks b).header = b.header := by
  induction chunks generalizing b with
  | nil => rfl
  | cons bs chunks ih => exact ih (b.put bs)

theorem puts_used (chunks : List (List UInt8)) {b : MessageBuilder}
    (h : b.size.toNat + chunks.flatten.length < 2 ^ 32) :
    (puts chunks b).used = b.used ++ chunks.flatten := by
  induction chunks generalizing b with
  | nil => simp [puts]
  | cons bs chunks ih =>
    rw [List.flatten_cons, List.length_append] at h
    have hput : b.size.toNat + bs.length < 2 ^ 32 := by omega
    rw [List.flatten_cons, ← List.append_assoc, ← put_used hput]
    exact ih (b := b.put bs) (by rw [put_size hput]; omega)

/-- A string is stored in two parts, everything else in one. -/
def chunks : Field → List (List UInt8)
  | .string v => [Scalar.uint.encode o (UInt32.ofNat v.length), v]
  | f => [f.encode o]

theorem chunks_flatten (f : Field) : (chunks o f).flatten = f.encode o := by
  cases f <;> simp [chunks, Field.encode]

theorem size_add_eq (b : MessageBuilder) (n : UInt32) :
    b.size + n = UInt32.ofNat (b.size.toNat + n.toNat) := by
  rw [UInt32.ofNat_add, UInt32.ofNat_toNat, UInt32.ofNat_toNat]

/-- All overloads are one: room for the encoding, as far as 32 bits can say how
much that is, and then its stores. -/
theorem write_eq (f : Field) (b : MessageBuilder) :
    f.write o b =
      puts (chunks o f) (b.reserve (UInt32.ofNat (b.size.toNat + (f.encode o).length))) := by
  cases f with
  | string v =>
    simp only [Field.write, writeString, chunks, puts, List.foldl_cons, List.foldl_nil,
      Field.encode, List.length_append, Scalar.encode_length, Nat.add_assoc]
    rfl
  | bytes block size =>
    simp only [Field.write, writeBytes, chunks, puts, List.foldl_cons, List.foldl_nil,
      Field.encode, Mem.load_length, size_add_eq]
  | _ =>
    simp only [Field.write, writeChar, writeUChar, writeShort, writeUShort, writeInt, writeUInt,
      writeInt64, writeUInt64, writeFloat, writeDouble, writeScalar, chunks, puts,
      List.foldl_cons, List.foldl_nil, Field.encode, Scalar.encode_length, UInt32.ofNat_add,
      UInt32.ofNat_toNat]

/-- Every overload appends its encoding as long as the size does not wrap. -/
theorem write_used (f : Field) {b : MessageBuilder}
    (h : b.size.toNat + (f.encode o).length < 2 ^ 32) :
    (f.write o b).used = b.used ++ f.encode o := by
  rw [write_eq, puts_used _ (by rwa [reserve_size, chunks_flatten]), reserve_used, chunks_flatten]

theorem write_size (f : Field) {b : MessageBuilder}
    (h : b.size.toNat + (f.encode o).length < 2 ^ 32) :
    (f.write o b).size.toNat = b.size.toNat + (f.encode o).length := by
  rw [← used_length, write_used o f h, List.length_append, used_length]

theorem write_header (f : Field) (b : MessageBuilder) : (f.write o b).header = b.header := by
  rw [write_eq, puts_header, reserve_header]

def writeAll (fs : List Field) (b : MessageBuilder) : MessageBuilder :=
  fs.foldl (fun b f => f.write o b) b

theorem writeAll_used (fs : List Field) {b : MessageBuilder}
    (h : b.size.toNat + (fs.flatMap (Field.encode o)).length < 2 ^ 32) :
    (writeAll o fs b).used = b.used ++ fs.flatMap (Field.encode o) := by
  induction fs generalizing b with
  | nil => simp [writeAll]
  | cons f fs ih =>
    rw [List.flatMap_cons, List.length_append] at h
    have hf := write_used o f (b := b) (by omega)
    have hs := write_size o f (b := b) (by omega)
    rw [List.flatMap_cons, ← List.append_assoc, ← hf]
    exact ih (b := f.write o b) (by omega)

theorem writeAll_header (fs : List Field) (b : MessageBuilder) :
    (writeAll o fs b).header = b.header := by
  induction fs generalizing b with
  | nil => rfl
  | cons f fs ih => exact (ih _).trans (write_header o f b)

end MessageBuilder

end VmPlayback
