import VmPlayback.Message
import VmPlayback.Runs

namespace VmPlayback.MessageReader

def untouched (r : MessageReader) : MessageReader := { r with touched := [] }

@[simp] theorem untouched_message (r : MessageReader) : r.untouched.message = r.message := rfl
@[simp] theorem untouched_seekPos (r : MessageReader) : r.untouched.seekPos = r.seekPos := rfl

/-- A read of `n` bytes that keeps to the message: it returns exactly when the
bytes are there, and then looks at no others and moves past them. -/
def BoundedRead {α : Type} (x : ReaderM α) (n : ℕ) (r : MessageReader) : Prop :=
  match x r.untouched with
  | .ok _ r' => r.seekPos.toNat + n ≤ r.message.length.toNat ∧
      r'.seekPos.toNat = r.seekPos.toNat + n ∧
      ∀ s ∈ r'.touched, r.seekPos.toNat ≤ s.1 ∧ s.1 + s.2 ≤ r.seekPos.toNat + n
  | .error _ r' => r.message.length.toNat < r.seekPos.toNat + n ∧
      r'.seekPos.toNat ≤ r.message.length.toNat ∧
      ∀ s ∈ r'.touched, s.1 + s.2 ≤ r.message.length.toNat

def BoundedSeek (x : ReaderM Unit) (r : MessageReader) : Prop :=
  match x r.untouched with
  | .ok _ r' => r'.seekPos.toNat ≤ r.message.length.toNat ∧ r'.touched = []
  | .error _ r' => r'.seekPos.toNat ≤ r.message.length.toNat ∧ r'.touched = []

theorem boundedRead_map {α β : Type} (f : α → β) (x : ReaderM α) (n : ℕ) (r : MessageReader) :
    BoundedRead (f <$> x) n r ↔ BoundedRead x n r := by
  simp only [BoundedRead, Exec.run_map]
  cases x r.untouched <;> rfl

variable (o : ByteOrder)

def stringSize (r : MessageReader) : UInt32 :=
  Scalar.uint.decode o (r.message.content.load r.seekPos.toNat 4)

/-- The bytes an operation asks for: a string asks for its prefix and, once that
is in the message, for as many bytes as the prefix says. -/
def asks (r : MessageReader) : ReaderOp → ℕ
  | .seek _ => 0
  | .readSByte => 1
  | .readByte => 1
  | .readInt16 => 2
  | .readUInt16 => 2
  | .readInt32 => 4
  | .readUInt32 => 4
  | .readInt64 => 8
  | .readUInt64 => 8
  | .readString =>
    if r.seekPos.toNat + 4 ≤ r.message.length.toNat then 4 + (r.stringSize o).toNat else 4
  | .readBytes size => size.toNat

def BoundedStep (r : MessageReader) : ReaderOp → Prop
  | .seek pos => BoundedSeek (seek pos) r
  | op => BoundedRead (op.exec o) (r.asks o op) r

def step (r : MessageReader) (op : ReaderOp) : MessageReader :=
  match op.exec o r.untouched with
  | .ok _ r' => r'
  | .error _ r' => r'

def SumFits (r : MessageReader) (op : ReaderOp) : Prop :=
  r.seekPos.toNat + r.asks o op < 2 ^ 32

instance (r : MessageReader) (op : ReaderOp) : Decidable (SumFits o r op) :=
  inferInstanceAs (Decidable (_ < _))

/-- A wrapped sum lies below the position, so the check lets the read through. -/
theorem check_passes_of_wrap {r : MessageReader} {n : UInt32}
    (hr : r.seekPos.toNat ≤ r.message.length.toNat)
    (hw : 2 ^ 32 ≤ r.seekPos.toNat + n.toNat) :
    ¬ r.message.length < r.seekPos + n := by
  have hp := r.seekPos.toNat_lt
  have hn := n.toNat_lt
  rw [lt_add_iff]
  omega

/-- The check is exact below `2 ^ 32` and passes from there on. -/
theorem readBytes_bounded_iff {r : MessageReader} {n : UInt32}
    (hr : r.seekPos.toNat ≤ r.message.length.toNat) :
    BoundedRead (readBytes n) n.toNat r ↔ r.seekPos.toNat + n.toNat < 2 ^ 32 := by
  have hl := r.message.length.toNat_lt
  by_cases hf : r.seekPos.toNat + n.toNat < 2 ^ 32
  · -- the sum the code compares is the true one
    refine iff_of_true ?_ hf
    by_cases hc : r.message.length.toNat < r.seekPos.toNat + n.toNat
    · rw [BoundedRead, readBytes_error (r := r.untouched) hf hc]
      exact ⟨hc, hr, by simp [untouched]⟩
    · rw [BoundedRead, readBytes_ok (r := r.untouched) (Nat.le_of_not_lt hc)]
      exact ⟨Nat.le_of_not_lt hc, taken_seekPos (r := r.untouched) hf, by simp [taken, untouched]⟩
  · -- it has wrapped: the read goes through although it cannot fit
    refine iff_of_false ?_ hf
    rw [BoundedRead, readBytes_run, untouched_message, untouched_seekPos,
      if_neg (check_passes_of_wrap hr (Nat.le_of_not_lt hf))]
    exact fun h => by omega

theorem readScalar_bounded_iff {α : Type} (t : Scalar α) {r : MessageReader}
    (hr : r.seekPos.toNat ≤ r.message.length.toNat) :
    BoundedRead (readScalar o t) t.size r ↔ r.seekPos.toNat + t.size < 2 ^ 32 := by
  have h := readBytes_bounded_iff (n := UInt32.ofNat t.size) hr
  rw [scalar_size_toNat] at h
  rw [readScalar_eq, boundedRead_map, h]

/-- A string is its prefix and then a block of the size the prefix gives. -/
theorem readString_untouched {r : MessageReader}
    (h4 : r.seekPos.toNat + 4 ≤ r.message.length.toNat) :
    readString o r.untouched = readBytes (r.stringSize o) (r.untouched.taken 4) := by
  have hread : readUInt32 o r.untouched = .ok (r.stringSize o) (r.untouched.taken 4) :=
    readScalar_ok o .uint h4
  rw [readString_run, hread]

theorem readString_bounded_iff {r : MessageReader} (hm : r.message.length.toNat < 2 ^ 31)
    (hr : r.seekPos.toNat ≤ r.message.length.toNat) :
    BoundedRead (readString o) (r.asks o .readString) r ↔ SumFits o r .readString := by
  by_cases h4 : r.seekPos.toNat + 4 ≤ r.message.length.toNat
  · have hp : (r.untouched.taken 4).seekPos.toNat = r.seekPos.toNat + 4 :=
      taken_seekPos (r := r.untouched) (n := 4)
        (by simp only [untouched_seekPos, UInt32.reduceToNat]; omega)
    simp only [SumFits, asks, if_pos h4, BoundedRead, readString_untouched o h4]
    generalize r.stringSize o = size
    by_cases hf : r.seekPos.toNat + (4 + size.toNat) < 2 ^ 32
    · refine iff_of_true ?_ hf
      have hf' : (r.untouched.taken 4).seekPos.toNat + size.toNat < 2 ^ 32 := by omega
      by_cases hc : r.message.length.toNat < r.seekPos.toNat + (4 + size.toNat)
      · -- too long: the reader has moved past the prefix, which is inside the message
        rw [readBytes_error hf' (by rw [hp]; exact Nat.add_assoc .. ▸ hc)]
        exact ⟨hc, hp ▸ h4, by simpa [taken, untouched] using h4⟩
      · rw [readBytes_ok (by rw [hp, taken_message, untouched_message]; omega)]
        refine ⟨Nat.le_of_not_lt hc, by rw [taken_seekPos hf', hp]; omega, ?_⟩
        simp only [taken, untouched, List.mem_cons, List.not_mem_nil, or_false] at hp ⊢
        rintro s (rfl | rfl)
        · simp only [hp]; omega
        · simp only [UInt32.reduceToNat]; omega
    · refine iff_of_false ?_ hf
      have hp' : (r.untouched.taken 4).seekPos.toNat ≤ r.message.length.toNat := by omega
      rw [readBytes_run, if_neg (check_passes_of_wrap hp' (by rw [hp]; omega))]
      exact fun h => by have := h.1; have := r.message.length.toNat_lt; omega
  · -- not even the prefix is there
    have hf : r.seekPos.toNat + 4 < 2 ^ 32 := by omega
    have hread : readUInt32 o r.untouched = .error ⟨"Not enough data to read."⟩ r.untouched :=
      readScalar_error o .uint hf (Nat.lt_of_not_le h4)
    simp only [SumFits, asks, if_neg h4, BoundedRead, readString_run, hread]
    exact iff_of_true ⟨Nat.lt_of_not_le h4, hr, by simp [untouched]⟩ hf

theorem seek_bounded (pos : UInt32) {r : MessageReader}
    (hr : r.seekPos.toNat ≤ r.message.length.toNat) : BoundedSeek (seek pos) r := by
  rw [BoundedSeek, seek_run, untouched_message]
  by_cases h : r.message.length < pos
  · rw [if_pos h]
    exact ⟨hr, rfl⟩
  · rw [if_neg h]
    exact ⟨UInt32.le_iff_toNat_le.mp (UInt32.not_lt.mp h), rfl⟩

/-- Every operation keeps to the message exactly when its sum does not wrap. -/
theorem boundedStep_iff {r : MessageReader} (hm : r.message.length.toNat < 2 ^ 31)
    (hr : r.seekPos.toNat ≤ r.message.length.toNat) (op : ReaderOp) :
    BoundedStep o r op ↔ SumFits o r op := by
  cases op with
  | seek pos =>
    exact iff_of_true (seek_bounded pos hr) r.seekPos.toNat_lt
  | readString =>
    exact (boundedRead_map _ _ _ _).trans (readString_bounded_iff o hm hr)
  | readBytes size =>
    exact (boundedRead_map _ _ _ _).trans (readBytes_bounded_iff hr)
  | readSByte => exact (boundedRead_map _ _ _ _).trans (readScalar_bounded_iff o .char hr)
  | readByte => exact (boundedRead_map _ _ _ _).trans (readScalar_bounded_iff o .uchar hr)
  | readInt16 => exact (boundedRead_map _ _ _ _).trans (readScalar_bounded_iff o .short hr)
  | readUInt16 => exact (boundedRead_map _ _ _ _).trans (readScalar_bounded_iff o .ushort hr)
  | readInt32 => exact (boundedRead_map _ _ _ _).trans (readScalar_bounded_iff o .int hr)
  | readUInt32 => exact (boundedRead_map _ _ _ _).trans (readScalar_bounded_iff o .uint hr)
  | readInt64 => exact (boundedRead_map _ _ _ _).trans (readScalar_bounded_iff o .int64 hr)
  | readUInt64 => exact (boundedRead_map _ _ _ _).trans (readScalar_bounded_iff o .uint64 hr)

def KeepsMessage {α : Type} (x : ReaderM α) : Prop :=
  ∀ r, match x r with
    | .ok _ r' => r'.message = r.message
    | .error _ r' => r'.message = r.message

theorem keepsMessage_map {α β : Type} (f : α → β) {x : ReaderM α} (h : KeepsMessage x) :
    KeepsMessage (f <$> x) := by
  intro r
  have hr := h r
  simp only [Exec.run_map]
  cases hx : x r <;> simpa only [hx] using hr

theorem keepsMessage_readBytes (n : UInt32) : KeepsMessage (readBytes n) := by
  intro r
  rw [readBytes_run]
  by_cases h : r.message.length < r.seekPos + n
  · rw [if_pos h]
  · rw [if_neg h]
    rfl

theorem keepsMessage_readScalar {α : Type} (t : Scalar α) : KeepsMessage (readScalar o t) := by
  rw [readScalar_eq]
  exact keepsMessage_map _ (keepsMessage_readBytes _)

theorem keepsMessage_readString : KeepsMessage (readString o) := by
  intro r
  rw [readString_run]
  have hu := keepsMessage_readScalar o .uint r
  rw [← readUInt32] at hu
  cases hx : readUInt32 o r with
  | error e r' => simpa only [hx] using hu
  | ok size r' =>
    have hb := keepsMessage_readBytes size r'
    simp only [hx] at hu
    rw [hu] at hb
    exact hb

theorem keepsMessage_seek (pos : UInt32) : KeepsMessage (seek pos) := by
  intro r
  rw [seek_run]
  by_cases h : r.message.length < pos
  · rw [if_pos h]
  · rw [if_neg h]

theorem keepsMessage_exec (op : ReaderOp) : KeepsMessage (op.exec o) := by
  cases op with
  | seek pos => exact keepsMessage_map _ (keepsMessage_seek pos)
  | readString => exact keepsMessage_map _ (keepsMessage_readString o)
  | readBytes size => exact keepsMessage_map _ (keepsMessage_readBytes size)
  | _ => exact keepsMessage_map _ (keepsMessage_readScalar o _)

theorem step_message (r : MessageReader) (op : ReaderOp) :
    (r.step o op).message = r.message := by
  have h := keepsMessage_exec o op r.untouched
  rw [step]
  cases hx : op.exec o r.untouched <;> simpa only [hx, untouched_message] using h

/-- A bounded operation leaves the position inside the message. -/
theorem step_seekPos_le {r : MessageReader} {op : ReaderOp} (h : BoundedStep o r op) :
    (r.step o op).seekPos.toNat ≤ r.message.length.toNat := by
  cases op with
  | seek pos =>
    simp only [BoundedStep, BoundedSeek] at h
    simp only [step, ReaderOp.exec, Exec.run_map]
    cases hx : seek pos r.untouched <;> simp only [hx] at h ⊢ <;> exact h.1
  | _ =>
    simp only [BoundedStep, BoundedRead] at h
    rw [step]
    split at h
    next hx => rw [hx]; simp only; omega
    next hx => rw [hx]; exact h.2.1

/-- Over any message shorter than `2 ^ 31` and any run of operations, every
operation keeps to the message if and only if no sum of a position and a
requested size reaches `2 ^ 32`. -/
theorem reads_bounded_iff (m : Message) (hm : m.length.toNat < 2 ^ 31) (ops : List ReaderOp) :
    Along (step o) (BoundedStep o) (new m) ops ↔ Along (step o) (SumFits o) (new m) ops := by
  apply along_iff_of_invariant
    (J := fun r => r.message = m ∧ r.seekPos.toNat ≤ r.message.length.toNat)
  · rintro r op ⟨rfl, hr⟩
    exact boundedStep_iff o hm hr op
  · rintro r op ⟨rfl, hr⟩ hf
    have hb := (boundedStep_iff o hm hr op).mpr hf
    rw [step_message]
    exact ⟨rfl, step_seekPos_le o hb⟩
  · exact ⟨rfl, Nat.zero_le _⟩

def forgedString : Message := ⟨0, 8, fun i => if i = 0 then 0xFC else if i < 4 then 0xFF else 0⟩

theorem reads_bounded_mixed :
    Along (step .little) (BoundedStep .little) (new forgedString)
      [.readInt16, .seek 4, .readUInt32, .readByte, .seek 9, .readBytes 4294967287] :=
  (reads_bounded_iff .little forgedString (by decide) _).mpr (by decide)

/-- The forged string is handed out: the reader goes back to the start and the
string is built from four gigabytes at offset four. -/
theorem forged_string_escapes : forgedString.length.toNat < 2 ^ 31 ∧
    (∃ v r', readString .little (new forgedString) = .ok v r' ∧ r'.seekPos = 0 ∧
      (4, 2 ^ 32 - 4) ∈ r'.touched) ∧
    ¬ Along (step .little) (BoundedStep .little) (new forgedString) [.readString] := by
  have hsize : (new forgedString).stringSize .little = 4294967292 := by decide
  refine ⟨by decide, ?_, ?_⟩
  · have hrun : readString .little (new forgedString) =
        readBytes 4294967292 ((new forgedString).taken 4) :=
      hsize ▸ readString_untouched .little (r := new forgedString) (by decide)
    rw [hrun, readBytes_run, if_neg (by decide)]
    exact ⟨_, _, rfl, by decide, by decide⟩
  · rintro ⟨h, -⟩
    rw [boundedStep_iff .little (by decide) (by decide)] at h
    exact absurd h (by decide)

end VmPlayback.MessageReader
