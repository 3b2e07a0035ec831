import VmPlayback.MessageBuilder

namespace VmPlayback

namespace Field

/-- The read that matches a write; there are none for floating-point numbers,
whose patterns are read as unsigned integers. -/
def matchingRead : Field → ReaderOp
  | char _ => .readSByte
  | uchar _ => .readByte
  | short _ => .readInt16
  | ushort _ => .readUInt16
  | int _ => .readInt32
  | uint _ => .readUInt32
  | int64 _ => .readInt64
  | uint64 _ => .readUInt64
  | float _ => .readUInt32
  | double _ => .readUInt64
  | string _ => .readString
  | bytes _ size => .readBytes size

def value : Field → ReadValue
  | char v => .sbyte v
  | uchar v => .byte v
  | short v => .int16 v
  | ushort v => .uint16 v
  | int v => .int32 v
  | uint v => .uint32 v
  | int64 v => .int64 v
  | uint64 v => .uint64 v
  | float bits => .uint32 bits
  | double bits => .uint64 bits
  | string v => .string v
  | bytes block size => .bytes (block.load 0 size.toNat)

end Field

namespace MessageReader

variable (o : ByteOrder)

/-- The next bytes at the reader's position are `bs`, and they are in the message. -/
def Ahead (r : MessageReader) (bs : List UInt8) : Prop :=
  r.seekPos.toNat + bs.length ≤ r.message.length.toNat ∧
    r.message.content.load r.seekPos.toNat bs.length = bs

def Consumes {α : Type} (x : ReaderM α) (bs : List UInt8) (v : α) (r : MessageReader) : Prop :=
  ∃ r', x r = .ok v r' ∧ r'.message = r.message ∧
    r'.seekPos.toNat = r.seekPos.toNat + bs.length

theorem Ahead.left {r : MessageReader} {bs cs : List UInt8} (h : r.Ahead (bs ++ cs)) :
    r.Ahead bs := by
  obtain ⟨hl, hb⟩ := h
  rw [List.length_append] at hl hb
  rw [Mem.load_add] at hb
  exact ⟨by omega, (List.append_inj hb (by simp)).1⟩

theorem Ahead.right {r r' : MessageReader} {bs cs : List UInt8} (h : r.Ahead (bs ++ cs))
    (hm : r'.message = r.message) (hp : r'.seekPos.toNat = r.seekPos.toNat + bs.length) :
    r'.Ahead cs := by
  obtain ⟨hl, hb⟩ := h
  rw [List.length_append] at hl hb
  rw [Mem.load_add] at hb
  rw [Ahead, hm, hp]
  exact ⟨by omega, (List.append_inj hb (by simp)).2⟩

theorem consumes_map {α β : Type} (f : α → β) {x : ReaderM α} {bs : List UInt8} {v : α}
    {r : MessageReader} (h : Consumes x bs v r) : Consumes (f <$> x) bs (f v) r := by
  obtain ⟨r', hx, hr⟩ := h
  exact ⟨r', by simp only [Exec.run_map, hx], hr⟩

theorem readBytes_consumes {n : UInt32} {bs : List UInt8} (hn : bs.length = n.toNat)
    {r : MessageReader} (h : r.Ahead bs) : Consumes (readBytes n) bs bs r := by
  obtain ⟨hl, hb⟩ := h
  have hlt := r.message.length.toNat_lt
  rw [hn] at hl hb
  refine ⟨r.taken n, ?_, rfl, ?_⟩
  · rw [readBytes_ok hl, hb]
  · rw [taken_seekPos (by omega), hn]

theorem readScalar_consumes {α : Type} (t : Scalar α) (v : α) {r : MessageReader}
    (h : r.Ahead (t.encode o v)) : Consumes (readScalar o t) (t.encode o v) v r := by
  have hb := readBytes_consumes (n := UInt32.ofNat t.size)
    (by rw [Scalar.encode_length, scalar_size_toNat]) h
  have hm := consumes_map (t.decode o) hb
  rwa [← readScalar_eq, Scalar.decode_encode] at hm

theorem readString_consumes (v : List UInt8) (hv : v.length < 2 ^ 32) {r : MessageReader}
    (h : r.Ahead (Scalar.uint.encode o (UInt32.ofNat v.length) ++ v)) :
    Consumes (readString o) (Scalar.uint.encode o (UInt32.ofNat v.length) ++ v) v r := by
  -- the length is read first, and the block of that length is what is ahead then
  obtain ⟨r₁, hsize, hm₁, hp₁⟩ := readScalar_consumes o .uint _ h.left
  have hn : v.length = (UInt32.ofNat v.length).toNat := by
    rw [UInt32.toNat_ofNat', Nat.mod_eq_of_lt hv]
  obtain ⟨r₂, hbytes, hm₂, hp₂⟩ := readBytes_consumes hn (h.right hm₁ hp₁)
  refine ⟨r₂, ?_, hm₂.trans hm₁, ?_⟩
  · rw [readString_run, readUInt32, hsize]
    exact hbytes
  · rw [hp₂, hp₁, List.length_append, Nat.add_assoc]

/-- The matching read gives a field back. -/
theorem matchingRead_consumes (f : Field) {r : MessageReader} (h : r.Ahead (f.encode o)) :
    Consumes (f.matchingRead.exec o) (f.encode o) f.value r := by
  cases f with
  | string v =>
    have hl := r.message.length.toNat_lt
    have hv : v.length < 2 ^ 32 := by
      have := h.1
      rw [Field.encode, List.length_append] at this
      omega
    exact consumes_map _ (readString_consumes o v hv h)
  | bytes block size => exact consumes_map _ (readBytes_consumes (Mem.load_length _ _ _) h)
  | _ => exact consumes_map _ (readScalar_consumes o _ _ h)

def readAll (fs : List Field) : ReaderM (List ReadValue) :=
  fs.mapM fun f => f.matchingRead.exec o

theorem readAll_consumes (fs : List Field) {r : MessageReader}
    (h : r.Ahead (fs.flatMap (Field.encode o))) :
    Consumes (readAll o fs) (fs.flatMap (Field.encode o)) (fs.map Field.value) r := by
  induction fs generalizing r with
  | nil => exact ⟨r, rfl, rfl, rfl⟩
  | cons f fs ih =>
    rw [List.flatMap_cons] at h ⊢
    obtain ⟨r₁, hf, hm₁, hp₁⟩ := matchingRead_consumes o f h.left
    obtain ⟨r₂, hfs, hm₂, hp₂⟩ := ih (h.right hm₁ hp₁)
    refine ⟨r₂, ?_, hm₂.trans hm₁, by rw [hp₂, hp₁, List.length_append, Nat.add_assoc]⟩
    rw [readAll] at hfs ⊢
    simp only [List.mapM_cons, Exec.run_bind, hf, hfs]
    rfl

end MessageReader

open MessageBuilder MessageReader

def builtMessage (o : ByteOrder) (heap : Heap) (header : Int32) (initCap : UInt32)
    (fs : List Field) : Message :=
  let (mess, b) := (writeAll o fs (MessageBuilder.new heap header initCap)).toMessage
  mess.view b.heap

theorem builtMessage_bytes (o : ByteOrder) (heap : Heap) (header : Int32) (initCap : UInt32)
    (fs : List Field) (h : (fs.flatMap (Field.encode o)).length < 2 ^ 32) :
    (builtMessage o heap header initCap fs).bytes = fs.flatMap (Field.encode o) := by
  have hz : (MessageBuilder.new heap header initCap).size.toNat = 0 := rfl
  have hu := writeAll_used o fs (b := MessageBuilder.new heap header initCap) (by omega)
  rwa [new_used, List.nil_append] at hu

/-- Whatever was written comes back, in order and to the last byte, whatever the
builder's initial capacity and however often it had to grow. -/
theorem write_read_round_trip (o : ByteOrder) (heap : Heap) (header : Int32) (initCap : UInt32)
    (fs : List Field) (h : (fs.flatMap (Field.encode o)).length < 2 ^ 32) :
    (builtMessage o heap header initCap fs).getHeader = header ∧
      ∃ r, readAll o fs (MessageReader.new (builtMessage o heap header initCap fs)) =
        .ok (fs.map Field.value) r ∧ r.tell = r.getSize := by
  have hb := builtMessage_bytes o heap header initCap fs h
  have hhead : (builtMessage o heap header initCap fs).getHeader = header :=
    writeAll_header o fs (MessageBuilder.new heap header initCap)
  generalize builtMessage o heap header initCap fs = mess at hb hhead ⊢
  have hl : (fs.flatMap (Field.encode o)).length = mess.length.toNat := by
    rw [← hb, Message.bytes_length]
  have hz : (MessageReader.new mess).seekPos.toNat = 0 := rfl
  have hahead : (MessageReader.new mess).Ahead (fs.flatMap (Field.encode o)) := by
    refine ⟨by rw [hz, Nat.zero_add, hl]; exact Nat.le_refl _, ?_⟩
    rw [hl]
    exact hb
  obtain ⟨r, hr, hm, hp⟩ := readAll_consumes o fs hahead
  refine ⟨hhead, r, hr, ?_⟩
  apply UInt32.toNat_inj.mp
  rw [getSize_eq, MessageReader.tell, hp, hm, hz, Nat.zero_add, hl]
  rfl

def testMsg : List Field :=
  [.char 99, .uchar 117, .short (-20), .ushort 30, .int (-100), .uint 100,
    .int64 (-305555556777770), .uint64 305555556777770,
    .string [104, 97, 108, 97, 104, 97, 108, 97],
    .bytes (fun i => [104, 111, 104, 111].getD i 0) 5]

theorem testMsg_round_trip :
    (builtMessage .little ⟨fun _ _ => 0xCD, 0, []⟩ 3 0 testMsg).getHeader = 3 ∧
      ∃ r, readAll .little testMsg
          (MessageReader.new (builtMessage .little ⟨fun _ _ => 0xCD, 0, []⟩ 3 0 testMsg)) =
        .ok (testMsg.map Field.value) r ∧ r.tell = r.getSize :=
  write_read_round_trip .little _ 3 0 testMsg (by decide)

end VmPlayback
