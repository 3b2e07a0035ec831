import VmPlayback.Exec
import VmPlayback.ReaderBounds
import VmPlayback.RoundTrip

namespace VmPlayback

/-- The write that puts a value back; a seek returns none. -/
def ReadValue.field : ReadValue → Option Field
  | .none => Option.none
  | .sbyte v => some (.char v)
  | .byte v => some (.uchar v)
  | .int16 v => some (.short v)
  | .uint16 v => some (.ushort v)
  | .int32 v => some (.int v)
  | .uint32 v => some (.uint v)
  | .int64 v => some (.int64 v)
  | .uint64 v => some (.uint64 v)
  | .string v => some (.string v)
  | .bytes v => some (.bytes (.ofList v) (UInt32.ofNat v.length))

namespace MessageReader

open Exec

variable (o : ByteOrder)

def Passes (r : MessageReader) (bs : List UInt8) (r' : MessageReader) : Prop :=
  r.Ahead bs ∧ r'.message = r.message ∧ r'.seekPos.toNat = r.seekPos.toNat + bs.length

theorem Passes.refl {r : MessageReader} (h : r.seekPos.toNat ≤ r.message.length.toNat) :
    r.Passes [] r :=
  ⟨⟨h, rfl⟩, rfl, rfl⟩

theorem Passes.trans {r₁ r₂ r₃ : MessageReader} {bs cs : List UInt8} (h : r₁.Passes bs r₂)
    (h' : r₂.Passes cs r₃) : r₁.Passes (bs ++ cs) r₃ := by
  obtain ⟨⟨-, hb⟩, hm, hp⟩ := h
  obtain ⟨⟨hl', hb'⟩, hm', hp'⟩ := h'
  rw [hm, hp] at hl' hb'
  refine ⟨⟨?_, ?_⟩, hm'.trans hm, ?_⟩
  · rw [List.length_append]
    omega
  · rw [List.length_append, Mem.load_add, hb, hb']
  · rw [hp', hp, List.length_append, Nat.add_assoc]

/-- The reader never leaves the message on its way. -/
theorem Passes.le {r r' : MessageReader} {bs : List UInt8} (h : r.Passes bs r') :
    r'.seekPos.toNat ≤ r'.message.length.toNat := by
  obtain ⟨⟨hl, -⟩, hm, hp⟩ := h
  rwa [hp, hm]

theorem readBytes_passes {n : UInt32} {r r' : MessageReader} {bs : List UInt8}
    (hf : r.seekPos.toNat + n.toNat < 2 ^ 32) (h : readBytes n r = .ok bs r') :
    bs.length = n.toNat ∧ r.Passes bs r' := by
  rw [readBytes_run] at h
  split at h
  · cases h
  · next hle =>
    cases h
    rw [check_exact hf] at hle
    have hlen := Mem.load_length r.message.content r.seekPos.toNat n.toNat
    refine ⟨hlen, ⟨?_, by rw [hlen]⟩, rfl, ?_⟩
    · rw [hlen]
      exact Nat.le_of_not_lt hle
    · rw [hlen, taken_seekPos hf]

theorem readScalar_passes {α : Type} (t : Scalar α) {r r' : MessageReader} {v : α}
    (hf : r.seekPos.toNat + t.size < 2 ^ 32) (h : readScalar o t r = .ok v r') :
    r.Passes (t.encode o v) r' := by
  rw [readScalar_eq] at h
  obtain ⟨bs, hread, rfl⟩ := run_map_ok.mp h
  obtain ⟨hlen, hpass⟩ := readBytes_passes (by rwa [scalar_size_toNat]) hread
  rwa [Scalar.encode_decode o t (by rw [hlen, scalar_size_toNat])]

theorem readString_passes {r r' : MessageReader} {v : List UInt8}
    (hf : SumFits o r .readString) (h : readString o r = .ok v r') :
    r.Passes (Scalar.uint.encode o (UInt32.ofNat v.length) ++ v) r' := by
  rw [readString_run] at h
  -- the prefix was read, so the sum that fits counts the characters too
  have hf4 : r.seekPos.toNat + 4 < 2 ^ 32 := by
    rw [SumFits, asks] at hf
    split at hf <;> omega
  by_cases h4 : r.seekPos.toNat + 4 ≤ r.message.length.toNat
  · have hread : readUInt32 o r = .ok (r.stringSize o) (r.taken 4) := readScalar_ok o .uint h4
    have hprefix := readScalar_passes o .uint hf4 hread
    simp only [hread] at h
    rw [SumFits, asks, if_pos h4] at hf
    have hp : (r.taken 4).seekPos.toNat = r.seekPos.toNat + 4 := taken_seekPos hf4
    obtain ⟨hlen, hpass⟩ := readBytes_passes (by rw [hp]; omega) h
    rw [hlen, UInt32.ofNat_toNat]
    exact hprefix.trans hpass
  · have hread := readScalar_error o .uint hf4 (Nat.lt_of_not_le h4)
    rw [← readUInt32] at hread
    simp only [hread] at h
    cases h

/-- Every typed read takes the encoding of the value it returns. -/
theorem exec_passes {op : ReaderOp} (hop : ∀ pos, op ≠ .seek pos) {r r' : MessageReader}
    {v : ReadValue} (hf : SumFits o r op) (h : op.exec o r = .ok v r') :
    ∃ f, v.field = some f ∧ r.Passes (f.encode o) r' := by
  cases op with
  | seek pos => exact absurd rfl (hop pos)
  | readString =>
    obtain ⟨s, hs, rfl⟩ := run_map_ok.mp h
    exact ⟨.string s, rfl, readString_passes o hf hs⟩
  | readBytes size =>
    obtain ⟨bs, hbs, rfl⟩ := run_map_ok.mp h
    obtain ⟨hlen, hpass⟩ := readBytes_passes hf hbs
    refine ⟨_, rfl, ?_⟩
    rw [Field.encode, hlen, UInt32.ofNat_toNat, ← hlen, Mem.load_ofList]
    exact hpass
  | _ =>
    obtain ⟨x, hx, rfl⟩ := run_map_ok.mp h
    exact ⟨_, rfl, readScalar_passes o _ hf hx⟩

def SumsFit : MessageReader → List ReaderOp → Prop
  | _, [] => True
  | r, op :: ops => SumFits o r op ∧
      match op.exec o r with
      | .ok _ r' => SumsFit r' ops
      | .error _ _ => True

instance SumsFit.decidable : ∀ (r : MessageReader) (ops : List ReaderOp),
    Decidable (SumsFit o r ops)
  | _, [] => isTrue trivial
  | r, op :: ops =>
    have : Decidable (match op.exec o r with
        | .ok _ r' => SumsFit o r' ops
        | .error _ _ => True) :=
      match op.exec o r with
      | .ok _ r' => SumsFit.decidable r' ops
      | .error _ _ => isTrue trivial
    inferInstanceAs (Decidable (SumFits o r op ∧ _))

theorem reads_pass {ops : List ReaderOp} (hseek : ∀ pos, .seek pos ∉ ops) {r r' : MessageReader}
    {vs : List ReadValue} (hr : r.seekPos.toNat ≤ r.message.length.toNat)
    (hfits : SumsFit o r ops) (hrun : ops.mapM (ReaderOp.exec o) r = .ok vs r') :
    ∃ fs : List Field, vs.map ReadValue.field = fs.map some ∧
      r.Passes (fs.flatMap (Field.encode o)) r' := by
  induction ops generalizing r vs with
  | nil =>
    cases hrun
    exact ⟨[], rfl, Passes.refl hr⟩
  | cons op ops ih =>
    obtain ⟨hfit, hrest⟩ := hfits
    obtain ⟨v, r₁, ws, hop, hops, rfl⟩ := run_mapM_cons_ok.mp hrun
    rw [hop] at hrest
    have hne : ∀ pos, op ≠ .seek pos := by
      rintro pos rfl
      exact hseek pos List.mem_cons_self
    obtain ⟨f, hf, hpass⟩ := exec_passes o hne hfit hop
    obtain ⟨fs, hfs, hpass'⟩ := ih (fun pos h => hseek pos (List.mem_cons_of_mem _ h))
      hpass.le hrest hops
    exact ⟨f :: fs, by rw [List.map_cons, List.map_cons, hf, hfs], hpass.trans hpass'⟩

/-- Decoding is canonical.  Whatever the bytes of a message are, and in whatever
types they are read, the values written back in order give the bytes that were
read. -/
theorem values_written_back (m : Message) (ops : List ReaderOp) (hseek : ∀ pos, .seek pos ∉ ops)
    (hfits : SumsFit o (new m) ops) (vs : List ReadValue) (r : MessageReader)
    (hrun : ops.mapM (ReaderOp.exec o) (new m) = .ok vs r)
    (heap : Heap) (header : Int32) (initCap : UInt32) :
    ∃ fs : List Field, vs.map ReadValue.field = fs.map some ∧
      (builtMessage o heap header initCap fs).bytes = m.bytes.take r.tell.toNat := by
  obtain ⟨fs, hfs, ⟨hl, hb⟩, hm, hp⟩ := reads_pass o hseek (Nat.zero_le _) hfits hrun
  have hz : (new m).seekPos.toNat = 0 := rfl
  rw [hz, Nat.zero_add] at hl hp
  rw [hz] at hb
  have hle : r.tell.toNat ≤ m.length.toNat := hp ▸ hl
  refine ⟨fs, hfs, ?_⟩
  rw [builtMessage_bytes o heap header initCap fs (Nat.lt_of_le_of_lt hl m.length.toNat_lt), ← hb]
  have hcut := Mem.load_add m.content 0 r.tell.toNat (m.length.toNat - r.tell.toNat)
  rw [Nat.add_sub_cancel' hle] at hcut
  rw [Message.bytes, hcut, List.take_left' (Mem.load_length _ _ _), MessageReader.tell, hp]
  rfl

def unreadTail : Message := ⟨0, 10, .ofList [1, 0, 0, 0, 104, 30, 1, 7, 7, 7]⟩

theorem values_written_back_tail :
    ∃ fs : List Field, [ReadValue.string [104], .uint16 286].map ReadValue.field = fs.map some ∧
      (builtMessage .little ⟨fun _ _ => 0xCD, 0, []⟩ 3 0 fs).bytes = [1, 0, 0, 0, 104, 30, 1] :=
  values_written_back .little unreadTail [.readString, .readUInt16] (by simp) (by decide) _ _ rfl
    _ 3 0

/-- A string cut short: the length at the position is in the message, the
characters it announces are not.  The sums are the reader's own. -/
def CutString (r : MessageReader) : Prop :=
  r.seekPos + 4 ≤ r.message.length ∧
    r.message.length < r.seekPos + 4 + r.stringSize o

instance (r : MessageReader) : Decidable (r.CutString o) :=
  inferInstanceAs (Decidable (_ ∧ _))

theorem readBytes_throws {n : UInt32} {r r' : MessageReader} {e : ReaderException}
    (h : readBytes n r = .error e r') : r' = r := by
  rw [readBytes_run] at h
  split at h <;> cases h
  rfl

theorem readScalar_throws {α : Type} (t : Scalar α) {r r' : MessageReader} {e : ReaderException}
    (h : readScalar o t r = .error e r') : r' = r := by
  rw [readScalar_eq] at h
  exact readBytes_throws (run_map_error.mp h)

theorem seek_throws {pos : UInt32} {r r' : MessageReader} {e : ReaderException}
    (h : seek pos r = .error e r') : r' = r := by
  rw [seek_run] at h
  split at h <;> cases h
  rfl

theorem readUInt32_run (r : MessageReader) :
    readUInt32 o r = if r.message.length < r.seekPos + 4 then
      .error ⟨"Not enough data to read."⟩ r else .ok (r.stringSize o) (r.taken 4) := by
  have hsize : UInt32.ofNat Scalar.uint.size = 4 := rfl
  rw [readUInt32, readScalar_eq, hsize]
  simp only [run_map, readBytes_run]
  by_cases h : r.message.length < r.seekPos + 4
  · simp only [if_pos h]
  · simp only [if_neg h]
    rfl

/-- The prefix is taken before the characters are asked for. -/
theorem readString_of_length {r : MessageReader} (h : r.seekPos + 4 ≤ r.message.length) :
    readString o r = readBytes (r.stringSize o) (r.taken 4) := by
  rw [readString_run, readUInt32_run, if_neg (UInt32.not_lt.mpr h)]

theorem readString_keeps_iff (r : MessageReader) :
    (∀ e r', readString o r = .error e r' → r'.seekPos = r.seekPos) ↔ ¬ r.CutString o := by
  by_cases h4 : r.seekPos + 4 ≤ r.message.length
  · rw [readString_of_length o h4]
    by_cases hc : r.message.length < r.seekPos + 4 + r.stringSize o
    · -- it throws, four bytes on
      refine iff_of_false ?_ (not_not_intro ⟨h4, hc⟩)
      intro h
      have hthrow : readBytes (r.stringSize o) (r.taken 4) = .error _ (r.taken 4) :=
        (readBytes_run _ _).trans (if_pos hc)
      have hpos : r.seekPos + 4 = r.seekPos := h _ _ hthrow
      simp at hpos
    · refine iff_of_true ?_ (fun h => hc h.2)
      intro e r' h
      have hreturn : readBytes (r.stringSize o) (r.taken 4) = .ok _ _ :=
        (readBytes_run _ _).trans (if_neg hc)
      rw [hreturn] at h
      cases h
  · -- the prefix is not there either
    refine iff_of_true ?_ (fun h => h4 h.1)
    intro e r' h
    rw [readString_run, readUInt32_run, if_pos (UInt32.not_le.mp h4)] at h
    cases h
    rfl

/-- A throw leaves the position where it was, at any position of any message and
for every operation, unless it is a string cut short. -/
theorem throws_keep_position_iff (r : MessageReader) (op : ReaderOp) :
    (∀ e r', op.exec o r = .error e r' → r'.seekPos = r.seekPos) ↔
      (op = .readString → ¬ r.CutString o) := by
  cases op with
  | readString =>
    simp only [forall_true_left]
    rw [← readString_keeps_iff]
    constructor
    · intro h e r' hs
      exact h e r' (run_map_error.mpr hs)
    · intro h e r' hs
      exact h e r' (run_map_error.mp hs)
  | seek pos =>
    refine iff_of_true ?_ (by simp)
    intro e r' h
    rw [seek_throws (run_map_error.mp h)]
  | readBytes size =>
    refine iff_of_true ?_ (by simp)
    intro e r' h
    rw [readBytes_throws (run_map_error.mp h)]
  | _ =>
    refine iff_of_true ?_ (by simp)
    intro e r' h
    rw [readScalar_throws o _ (run_map_error.mp h)]

def lengthOnly : Message := ⟨0, 4, fun i => if i = 0 then 5 else 0⟩

theorem cut_string_moves : ∃ e r', ReaderOp.readString.exec .little (new lengthOnly) = .error e r' ∧
    (new lengthOnly).seekPos = 0 ∧ r'.seekPos = 4 := by
  have hsize : (new lengthOnly).stringSize .little = 5 := by decide
  refine ⟨⟨"Not enough data to read."⟩, (new lengthOnly).taken 4, ?_, rfl, by decide⟩
  apply run_map_error.mpr
  rw [readString_of_length .little (by decide), hsize, readBytes_run, if_pos (by decide)]

end MessageReader

end VmPlayback
