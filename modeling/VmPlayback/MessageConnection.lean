import VmPlayback.Message
import VmPlayback.Pipe

namespace VmPlayback

namespace Message

def msgStruct (o : ByteOrder) (m : Message) : List UInt8 :=
  Scalar.uint.encode o m.getHeader.toUInt32 ++ Scalar.uint.encode o m.getLength.toUInt32

def wire (o : ByteOrder) (m : Message) : List UInt8 := m.msgStruct o ++ m.bytes

@[simp] theorem msgStruct_length (o : ByteOrder) (m : Message) : (m.msgStruct o).length = 8 := by
  simp [msgStruct, Scalar.uint]

@[simp] theorem wire_length (o : ByteOrder) (m : Message) :
    (m.wire o).length = 8 + m.length.toNat := by
  simp [wire]

theorem Same.wire_eq {m m' : Message} (h : m.Same m') (o : ByteOrder) : m.wire o = m'.wire o := by
  obtain ⟨hh, hl, hb⟩ := h
  simp only [wire, msgStruct, getHeader, getLength, hh, hl, hb]

theorem getLength_toUInt32 (m : Message) : m.getLength.toUInt32 = m.length := by
  simp [getLength]

/-- The front of a stream determines the length of the message there. -/
theorem wire_length_inj (o : ByteOrder) {m m' : Message} {rest rest' : List UInt8}
    (h : m.wire o ++ rest = m'.wire o ++ rest') : m.length = m'.length := by
  simp only [wire, msgStruct, List.append_assoc] at h
  obtain ⟨-, h⟩ := List.append_inj h (by simp)
  obtain ⟨h, -⟩ := List.append_inj h (by simp)
  have hd := congrArg (Scalar.uint.decode o) h
  rwa [Scalar.decode_encode, Scalar.decode_encode, getLength_toUInt32, getLength_toUInt32] at hd

/-- Any eight bytes are the `msg_struct` of a header and a length. -/
theorem exists_msgStruct (o : ByteOrder) {bs : List UInt8} (h : bs.length = 8) :
    ∃ header length, ∀ content, (⟨header, length, content⟩ : Message).msgStruct o = bs := by
  refine ⟨(Scalar.uint.decode o (bs.take 4)).toInt32, Scalar.uint.decode o (bs.drop 4), ?_⟩
  intro content
  have h₁ : (bs.take 4).length = Scalar.uint.size := by simp [Scalar.uint, h]
  have h₂ : (bs.drop 4).length = Scalar.uint.size := by simp [Scalar.uint, h]
  simp only [msgStruct, getHeader, getLength, UInt32.toUInt32_toInt32]
  rw [Scalar.encode_decode o _ h₁, Scalar.encode_decode o _ h₂, List.take_append_drop]

/-- What is on a stream begins with a whole message or is the beginning of one. -/
theorem stream_cases (o : ByteOrder) (bytes : List UInt8) :
    (∃ m rest, bytes = wire o m ++ rest) ∨
      ∃ m, bytes <+: wire o m ∧ bytes.length < (wire o m).length := by
  let zeros : Mem := fun _ => 0
  by_cases h8 : bytes.length < 8
  · -- not even a header: any way of filling it up will do
    right
    have hpad : ((bytes ++ List.replicate 8 0).take 8).length = 8 := by simp
    obtain ⟨header, length, hs⟩ := exists_msgStruct o hpad
    refine ⟨⟨header, length, zeros⟩, ?_, by rw [wire_length]; omega⟩
    rw [wire, hs]
    apply List.IsPrefix.trans _ (List.prefix_append _ _)
    rw [List.prefix_take_iff]
    exact ⟨List.prefix_append _ _, by omega⟩
  · -- the header tells how much content to look for
    have htake : (bytes.take 8).length = 8 := by simp; omega
    obtain ⟨header, length, hs⟩ := exists_msgStruct o htake
    let content := zeros.store 0 (bytes.drop 8)
    have hload : content.load 0 (bytes.drop 8).length = bytes.drop 8 := Mem.load_store_self _ _ _
    have hwire :
        wire o ⟨header, length, content⟩ = bytes.take 8 ++ content.load 0 length.toNat := by
      rw [wire, hs]
      rfl
    by_cases hr : (bytes.drop 8).length < length.toNat
    · right
      refine ⟨⟨header, length, content⟩, ?_, ?_⟩
      · obtain ⟨k, hk⟩ := Nat.exists_eq_add_of_le (Nat.le_of_lt hr)
        rw [hwire, hk, Mem.load_add, hload, ← List.append_assoc, List.take_append_drop]
        exact List.prefix_append _ _
      · rw [wire_length]
        simp only [List.length_drop] at hr ⊢
        omega
    · left
      obtain ⟨k, hk⟩ := Nat.exists_eq_add_of_le (Nat.le_of_not_lt hr)
      refine ⟨⟨header, length, content⟩, content.load length.toNat k, ?_⟩
      rw [hk, Mem.load_add, Nat.zero_add] at hload
      rw [hwire, List.append_assoc, hload, List.take_append_drop]

end Message

namespace MessageConnection

variable (o : ByteOrder) {σ : Type} (net : Net σ) (cls : ConnectionClass)

def writeMessage (mess : Message) : ConnM σ Unit := do
  Conn.send net cls (mess.msgStruct o)
  if mess.getLength.toUInt32 > 0 then
    Conn.send net cls mess.bytes

/-- `alloc n` tells whether `new char[n]` succeeds; `fresh` is what is found in
memory not yet written.  An empty message keeps a buffer of one byte. -/
def readMessage (alloc : UInt32 → Bool) (fresh : Mem) : ConnM σ Message := do
  let msg ← Conn.receive net cls fresh 8
  let msgHeader := Scalar.uint.decode o (msg.load 0 4)
  let msgLength := Scalar.uint.decode o (msg.load 4 4)
  if !alloc (max msgLength 1) then
    throw .badAlloc
  if msgLength > 0 then
    let content ← Conn.receive net cls fresh msgLength
    return ⟨msgHeader.toInt32, msgLength, content⟩
  return ⟨msgHeader.toInt32, msgLength, fresh⟩

open Exec Conn

/-- A send either puts everything on the stream, or a prefix, closing. -/
theorem send_cases {s : ConnState Pipe} (ho : s.conn.isOpen = true) {content : List UInt8}
    (hc : content.length < 2 ^ 32) :
    (∃ s', send Pipe.net cls content s = .ok () s' ∧ s'.conn.isOpen = true ∧
      s'.net.accepted = s.net.accepted ++ content) ∨
    (∃ e s' p, send Pipe.net cls content s = .error e s' ∧ s'.conn.isOpen = false ∧
      p <+: content ∧ s'.net.accepted = s.net.accepted ++ p) := by
  have hfails : ∀ k, send Pipe.net cls content s = .error (.connection cls .sendFailed)
      (shut Pipe.net { s with net := s.net.accept (content.take k) }) →
      ∃ e s' p, send Pipe.net cls content s = .error e s' ∧ s'.conn.isOpen = false ∧
        p <+: content ∧ s'.net.accepted = s.net.accepted ++ p := by
    intro k hsend
    refine ⟨_, _, content.take k, hsend, shut_isOpen _ _, List.take_prefix _ _, ?_⟩
    simp only [shut, ho, ↓reduceIte]
    rfl
  cases hs : s.net.outcome s.net.sends with
  | full => exact Or.inl ⟨_, send_full ho hs, ho, rfl⟩
  | error k => exact Or.inr (hfails k (send_failed ho hs))
  | short k =>
    have hsend : send Pipe.net cls content s = _ := send_short ho hc hs
    by_cases hk : k < content.length
    · rw [if_pos hk] at hsend
      exact Or.inr (hfails k hsend)
    · -- a count that covers everything is no failure
      rw [if_neg hk, List.take_of_length_le (Nat.le_of_not_lt hk)] at hsend
      exact Or.inl ⟨_, hsend, ho, rfl⟩

theorem writeMessage_closed {s : ConnState σ} (h : s.conn.isOpen = false) (mess : Message) :
    writeMessage o net cls mess s = .error (.connection cls .closed) s := by
  simp only [writeMessage, run_bind, send_closed net cls h]

/-- A message goes out whole or leaves a prefix of its bytes and a closed connection,
wherever the failure falls: in the header, between the two sends or in the content. -/
theorem writeMessage_cases {s : ConnState Pipe} (ho : s.conn.isOpen = true) (mess : Message) :
    (∃ s', writeMessage o Pipe.net cls mess s = .ok () s' ∧ s'.conn.isOpen = true ∧
      s'.net.accepted = s.net.accepted ++ mess.wire o) ∨
    (∃ e s' p, writeMessage o Pipe.net cls mess s = .error e s' ∧ s'.conn.isOpen = false ∧
      p <+: mess.wire o ∧ s'.net.accepted = s.net.accepted ++ p) := by
  have hb : mess.bytes.length < 2 ^ 32 := by
    rw [Message.bytes_length]
    exact mess.length.toNat_lt
  simp only [writeMessage, run_bind, Message.getLength_toUInt32, run_ite]
  have hh : (mess.msgStruct o).length < 2 ^ 32 := by simp
  rcases send_cases cls ho hh with
    ⟨s₁, h₁, ho₁, ha₁⟩ | ⟨e, s₁, p, h₁, hc₁, hp, ha₁⟩
  · rw [h₁]
    by_cases hz : mess.length > 0
    · simp only [if_pos hz]
      rcases send_cases cls ho₁ hb with ⟨s₂, h₂, ho₂, ha₂⟩ | ⟨e, s₂, p, h₂, hc₂, hp, ha₂⟩
      · left
        exact ⟨s₂, h₂, ho₂, by rw [ha₂, ha₁, Message.wire, List.append_assoc]⟩
      · right
        refine ⟨e, s₂, mess.msgStruct o ++ p, h₂, hc₂, ?_, by rw [ha₂, ha₁, List.append_assoc]⟩
        exact (List.prefix_append_right_inj _).mpr hp
    · -- an empty message is its header, and there is no second send
      left
      have hnil : mess.bytes = [] := by
        apply List.eq_nil_of_length_eq_zero
        rw [Message.bytes_length]
        have := UInt32.not_lt.mp hz
        rw [UInt32.le_iff_toNat_le] at this
        simpa using this
      simp only [if_neg hz]
      exact ⟨s₁, rfl, ho₁, by rw [ha₁, Message.wire, hnil, List.append_nil]⟩
  · right
    rw [h₁]
    exact ⟨e, s₁, p, rfl, hc₁, hp.trans (List.prefix_append _ _), ha₁⟩

theorem readMessage_closed {s : ConnState σ} (h : s.conn.isOpen = false) (alloc : UInt32 → Bool)
    (fresh : Mem) : readMessage o net cls alloc fresh s = .error (.connection cls .closed) s := by
  simp only [readMessage, run_bind, receive_closed net cls h]

variable (fresh : Mem)

/-- Eight bytes that are a `msg_struct` decode to its two fields. -/
theorem decode_msgStruct {buf : Mem} {m : Message} (h : buf.load 0 8 = m.msgStruct o) :
    Scalar.uint.decode o (buf.load 0 4) = m.header.toUInt32 ∧
      Scalar.uint.decode o (buf.load 4 4) = m.length := by
  have hsplit : buf.load 0 4 ++ buf.load 4 4 =
      Scalar.uint.encode o m.getHeader.toUInt32 ++ Scalar.uint.encode o m.getLength.toUInt32 :=
    (buf.load_add 0 4 4).symm.trans h
  obtain ⟨hh, hl⟩ := List.append_inj hsplit (by simp [Scalar.uint])
  rw [hh, hl, Scalar.decode_encode, Scalar.decode_encode, Message.getLength_toUInt32]
  exact ⟨rfl, rfl⟩

/-- With at least the header in the stream, `readMessage` is the second receive of
the length the header gives. -/
theorem readMessage_header {s : ConnState Pipe} (ho : s.conn.isOpen = true) {m : Message}
    {rest : List UInt8} (hi : s.net.incoming = m.msgStruct o ++ rest) (alloc : UInt32 → Bool) :
    ∃ k, readMessage o Pipe.net cls alloc fresh s =
      (if !alloc (max m.length 1) then .error .badAlloc (delivered s 8 k)
      else if m.length > 0 then
        match receive Pipe.net cls fresh m.length (delivered s 8 k) with
        | .ok content s' => .ok ⟨m.header, m.length, content⟩ s'
        | .error e s' => .error e s'
      else .ok ⟨m.header, m.length, fresh⟩ (delivered s 8 k)) := by
  have h8 : (8 : UInt32).toNat ≤ s.net.incoming.length := by
    rw [hi, List.length_append, Message.msgStruct_length]
    exact Nat.le_add_right _ _
  obtain ⟨k, hrecv⟩ := receive_enough cls ho (by decide) (Or.inr (by decide)) h8 fresh
  have htake : s.net.incoming.take (8 : UInt32).toNat = m.msgStruct o := by
    rw [show (8 : UInt32).toNat = 8 from rfl, hi, ← Message.msgStruct_length o m, List.take_left]
  have hbuf := Mem.load_store_self fresh 0 (m.msgStruct o)
  rw [Message.msgStruct_length] at hbuf
  obtain ⟨hhead, hlen⟩ := decode_msgStruct o hbuf
  rw [htake, show (8 : UInt32).toNat = 8 from rfl] at hrecv
  refine ⟨k, ?_⟩
  simp only [readMessage, run_bind, hrecv, hhead, hlen, run_ite, run_throw, run_pure,
    Int32.toInt32_toUInt32]
  cases receive Pipe.net cls fresh m.length (delivered s 8 k) <;> rfl

/-- A whole message at the front of the stream is read back and taken off it. -/
theorem readMessage_whole {s : ConnState Pipe} (ho : s.conn.isOpen = true) {m : Message}
    (hm : cls = .bkndConnection ∨ m.length.toNat < 2 ^ 31) {rest : List UInt8}
    (hi : s.net.incoming = m.wire o ++ rest) (alloc : UInt32 → Bool)
    (ha : alloc (max m.length 1) = true) :
    ∃ m' k, readMessage o Pipe.net cls alloc fresh s = .ok m' (delivered s (m.wire o).length k) ∧
      m'.Same m := by
  rw [Message.wire, List.append_assoc] at hi
  obtain ⟨k, hread⟩ := readMessage_header o cls fresh ho hi alloc
  have h8 : (m.msgStruct o).length = 8 := Message.msgStruct_length o m
  have hrest : (delivered s 8 k).net.incoming = m.bytes ++ rest := by
    simp only [delivered, hi, ← h8, List.drop_left]
  rw [hread]
  simp only [ha, Bool.not_true, Bool.false_eq_true, ↓reduceIte]
  by_cases hz : m.length > 0
  · obtain ⟨k', hrecv⟩ := receive_enough cls (s := delivered s 8 k) ho
      (UInt32.lt_iff_toNat_lt.mp hz) hm (by rw [hrest]; simp) fresh
    have htake : (m.bytes ++ rest).take m.length.toNat = m.bytes := by
      rw [← Message.bytes_length, List.take_left]
    rw [hrest, htake] at hrecv
    refine ⟨⟨m.header, m.length, fresh.store 0 m.bytes⟩, k', ?_, rfl, rfl, ?_⟩
    · rw [if_pos hz, hrecv]
      simp only [delivered, List.drop_drop, Message.wire_length]
    · have hcontent := Mem.load_store_self fresh 0 m.bytes
      rwa [Message.bytes_length] at hcontent
  · have hz' : m.length.toNat = 0 := by
      have := UInt32.le_iff_toNat_le.mp (UInt32.not_lt.mp hz)
      simpa using this
    refine ⟨⟨m.header, m.length, fresh⟩, k, ?_, rfl, rfl, ?_⟩
    · rw [if_neg hz, Message.wire_length, hz']
    · simp only [Message.bytes, hz', Mem.load_zero]

/-- A stream that ends inside a message, or before it, makes the read throw, and
close unless memory ran out first. -/
theorem readMessage_partial {s : ConnState Pipe} (ho : s.conn.isOpen = true) {m : Message}
    (hm : cls = .bkndConnection ∨ m.length.toNat < 2 ^ 31) (hp : s.net.incoming <+: m.wire o)
    (hlt : s.net.incoming.length < (m.wire o).length) (alloc : UInt32 → Bool) :
    ∃ e s', readMessage o Pipe.net cls alloc fresh s = .error e s' ∧
      (alloc (max m.length 1) = true → s'.conn.isOpen = false) := by
  by_cases h8 : s.net.incoming.length < 8
  · have hshort : s.net.incoming.length < (8 : UInt32).toNat := h8
    obtain ⟨e, s', hrecv, hc⟩ := receive_short cls ho (Or.inr (by decide)) hshort fresh
    exact ⟨e, s', by simp only [readMessage, run_bind, hrecv], fun _ => hc⟩
  · -- the header is complete, so the content is not
    have hhead : m.msgStruct o <+: s.net.incoming :=
      List.prefix_of_prefix_length_le (List.prefix_append _ _) hp
        (by rw [Message.msgStruct_length]; omega)
    obtain ⟨rest, hi⟩ := hhead
    obtain ⟨k, hread⟩ := readMessage_header o cls fresh ho hi.symm alloc
    have hrest : (delivered s 8 k).net.incoming = rest := by
      simp only [delivered, ← hi, ← Message.msgStruct_length o m, List.drop_left]
    have hshort : rest.length < m.length.toNat := by
      have hl := congrArg List.length hi
      simp only [List.length_append, Message.msgStruct_length, Message.wire_length] at hl hlt
      omega
    have hz : m.length > 0 := UInt32.lt_iff_toNat_lt.mpr (Nat.zero_lt_of_lt hshort)
    cases ha : alloc (max m.length 1) with
    | false =>
      rw [hread]
      simp only [ha, Bool.not_false, ↓reduceIte]
      exact ⟨_, _, rfl, fun h => nomatch h⟩
    | true =>
      obtain ⟨e, s', hrecv, hc⟩ := receive_short cls (s := delivered s 8 k) ho hm
        (by rw [hrest]; exact hshort) fresh
      refine ⟨e, s', ?_, fun _ => hc⟩
      rw [hread]
      simp only [ha, Bool.not_true, Bool.false_eq_true, ↓reduceIte, if_pos hz, hrecv]

/-- `readMessage` on the backend's TCP class, whatever is on the stream: it returns
the message at the front, or throws because there is no whole one or no memory. -/
theorem readMessage_cases {s : ConnState Pipe} (ho : s.conn.isOpen = true)
    (alloc : UInt32 → Bool) :
    (∃ (m : Message) (rest : List UInt8) (k : ℕ), s.net.incoming = m.wire o ++ rest ∧
      alloc (max m.length 1) = true ∧
      readMessage o Pipe.net .bkndConnection alloc fresh s =
        .ok m (delivered s (m.wire o).length k)) ∨
    ((∀ (m : Message) (rest : List UInt8), s.net.incoming = m.wire o ++ rest →
      alloc (max m.length 1) = false) ∧
      ∃ e s', readMessage o Pipe.net .bkndConnection alloc fresh s = .error e s') := by
  rcases Message.stream_cases o s.net.incoming with ⟨m, rest, hi⟩ | ⟨m, hp, hlt⟩
  · cases ha : alloc (max m.length 1) with
    | true =>
      left
      obtain ⟨m', k, hread, hsame⟩ :=
        readMessage_whole o .bkndConnection fresh ho (Or.inl rfl) hi alloc ha
      rw [← hsame.wire_eq o] at hi hread
      exact ⟨m', rest, k, hi, by rw [hsame.2.1, ha], hread⟩
    | false =>
      right
      constructor
      · intro m' rest' hi'
        rw [← Message.wire_length_inj o (hi.symm.trans hi'), ha]
      · rw [Message.wire, List.append_assoc] at hi
        obtain ⟨k, hread⟩ := readMessage_header o .bkndConnection fresh ho hi alloc
        rw [hread]
        simp only [ha, Bool.not_false, ↓reduceIte]
        exact ⟨_, _, rfl⟩
  · right
    obtain ⟨e, s', hread, -⟩ := readMessage_partial o .bkndConnection fresh ho (Or.inl rfl) hp hlt
      alloc
    refine ⟨?_, e, s', hread⟩
    intro m' rest' hi'
    obtain ⟨tail, ht⟩ := hp
    rw [hi', List.append_assoc] at ht
    have hl := Message.wire_length_inj o (ht.trans (List.append_nil _).symm)
    rw [hi', List.length_append, Message.wire_length, Message.wire_length, hl] at hlt
    omega

end MessageConnection

end VmPlayback
