import VmPlayback.AppendOnly
import VmPlayback.Exec

namespace VmPlayback

structure BadAlloc where
  deriving DecidableEq

/-- A builder during one write.  `stored` is a ghost: the spans (offset, byte count)
stored to the buffer it has now, the latest first. -/
structure Writing where
  builder : MessageBuilder
  stored : List (ℕ × ℕ)

abbrev WriteM := EStateM BadAlloc Writing

namespace Writing

open MessageBuilder Exec

/-- `alloc n` tells whether `new char[n]` succeeds.  It comes before any change to
the object; the copy of the used bytes is a store to the new buffer. -/
def reserve (alloc : UInt32 → Bool) (size : UInt32) : WriteM Unit := do
  let w ← get
  if w.builder.capacity < size then
    if !alloc (grownCapacity w.builder.capacity size) then
      throw {}
    set (⟨w.builder.reserve size, [(0, w.builder.size.toNat)]⟩ : Writing)

def put (bs : List UInt8) : WriteM Unit :=
  modify fun w => ⟨w.builder.put bs, (w.builder.size.toNat, bs.length) :: w.stored⟩

variable (o : ByteOrder)

/-- What a write asks of `reserve`, cut to 32 bits. -/
def asked (f : Field) (b : MessageBuilder) : UInt32 :=
  UInt32.ofNat (b.size.toNat + (f.encode o).length)

def write (alloc : UInt32 → Bool) (f : Field) : WriteM Unit := do
  reserve alloc (asked o f (← get).builder)
  forM (chunks o f) put

def Granted (alloc : UInt32 → Bool) (f : Field) (b : MessageBuilder) : Prop :=
  b.capacity < asked o f b → alloc (grownCapacity b.capacity (asked o f b)) = true

/-- A write throws with nothing stored and the builder as it was, or there is room
for all its bytes, its stores lie inside the buffer and the size counts them. -/
def MakesRoom (alloc : UInt32 → Bool) (f : Field) (b : MessageBuilder) : Prop :=
  match write o alloc f ⟨b, []⟩ with
  | .error _ w => w = ⟨b, []⟩
  | .ok _ w =>
    b.size.toNat + (f.encode o).length ≤ w.builder.capacity.toNat ∧
      (∀ span ∈ w.stored, span.1 + span.2 ≤ w.builder.capacity.toNat) ∧
      w.builder.size.toNat = b.size.toNat + (f.encode o).length

theorem reserve_ok {alloc : UInt32 → Bool} {size : UInt32} {b : MessageBuilder}
    (h : b.capacity < size → alloc (grownCapacity b.capacity size) = true) :
    ∃ copied, reserve alloc size ⟨b, []⟩ = .ok () ⟨b.reserve size, copied⟩ ∧
      ∀ span ∈ copied, span = (0, b.size.toNat) := by
  by_cases hc : b.capacity < size
  · refine ⟨[(0, b.size.toNat)], ?_, by simp⟩
    simp [reserve, run_bind, run_get, hc, h hc, run_set]
  · refine ⟨[], ?_, by simp⟩
    simp [reserve, run_bind, run_get, hc, run_pure, MessageBuilder.reserve]

theorem reserve_denied {alloc : UInt32 → Bool} {size : UInt32} {b : MessageBuilder}
    (hc : b.capacity < size) (h : alloc (grownCapacity b.capacity size) = false) :
    reserve alloc size ⟨b, []⟩ = .error {} ⟨b, []⟩ := by
  simp [reserve, run_bind, run_get, hc, h, run_throw]

def spans : List (List UInt8) → MessageBuilder → List (ℕ × ℕ)
  | [], _ => []
  | bs :: chunks, b => spans chunks (b.put bs) ++ [(b.size.toNat, bs.length)]

theorem run_puts (chunks : List (List UInt8)) (w : Writing) :
    forM chunks put w = .ok () ⟨puts chunks w.builder, spans chunks w.builder ++ w.stored⟩ := by
  induction chunks generalizing w with
  | nil => rfl
  | cons bs chunks ih =>
    rw [List.forM_cons, run_bind, put, run_modify]
    simp only [ih, spans, List.append_assoc]
    rfl

/-- The stores end where the bytes do, as long as the size does not wrap between them. -/
theorem spans_le (chunks : List (List UInt8)) {b : MessageBuilder}
    (h : b.size.toNat + chunks.flatten.length < 2 ^ 32) :
    ∀ span ∈ spans chunks b, span.1 + span.2 ≤ b.size.toNat + chunks.flatten.length := by
  induction chunks generalizing b with
  | nil => simp [spans]
  | cons bs chunks ih =>
    rw [List.flatten_cons, List.length_append] at h ⊢
    have hput : (b.put bs).size.toNat = b.size.toNat + bs.length := put_size (by omega)
    intro span hmem
    rcases List.mem_append.mp hmem with hmem | hmem
    · have hle := ih (b := b.put bs) (by rw [hput]; omega) span hmem
      rw [hput] at hle
      omega
    · rw [List.mem_singleton.mp hmem]
      dsimp only
      omega

/-- With memory at hand a write is the one of the builder. -/
theorem write_ok (alloc : UInt32 → Bool) (f : Field) (b : MessageBuilder)
    (h : Granted o alloc f b) :
    ∃ copied, write o alloc f ⟨b, []⟩ =
        .ok () ⟨f.write o b, spans (chunks o f) (b.reserve (asked o f b)) ++ copied⟩ ∧
      ∀ span ∈ copied, span = (0, b.size.toNat) := by
  obtain ⟨copied, hreserve, hcopied⟩ := reserve_ok h
  refine ⟨copied, ?_, hcopied⟩
  simp only [write, run_bind, run_get, hreserve, run_puts, write_eq]
  rfl

theorem write_denied {alloc : UInt32 → Bool} {f : Field} {b : MessageBuilder}
    (h : ¬ Granted o alloc f b) : write o alloc f ⟨b, []⟩ = .error {} ⟨b, []⟩ := by
  simp only [Granted, Classical.not_imp, Bool.not_eq_true] at h
  simp only [write, run_bind, run_get, reserve_denied h.1 h.2]

theorem makesRoom_of_lt (f : Field) {b : MessageBuilder}
    (h : b.size.toNat + (f.encode o).length < 2 ^ 32) (alloc : UInt32 → Bool) :
    MakesRoom o alloc f b := by
  by_cases hg : Granted o alloc f b
  · obtain ⟨copied, hrun, hcopied⟩ := write_ok o alloc f b hg
    have hroom := le_write_capacity o f h
    simp only [MakesRoom, hrun]
    refine ⟨hroom, ?_, ?_⟩
    · intro span hmem
      rcases List.mem_append.mp hmem with hmem | hmem
      · have hle := spans_le (chunks o f) (b := b.reserve (asked o f b))
          (by rwa [reserve_size, chunks_flatten]) span hmem
        rw [reserve_size, chunks_flatten] at hle
        exact hle.trans hroom
      · rw [hcopied span hmem]
        dsimp only
        omega
    · exact write_size o f h
  · simp only [MakesRoom, write_denied o hg]

/-- No room for what cannot be counted, and an allocator that never fails leaves no
way out. -/
theorem not_makesRoom {f : Field} {b : MessageBuilder}
    (h : 2 ^ 32 ≤ b.size.toNat + (f.encode o).length) : ¬ ∀ alloc, MakesRoom o alloc f b := by
  intro hroom
  have hok := hroom fun _ => true
  obtain ⟨copied, hrun, -⟩ := write_ok o (fun _ => true) f b fun _ => rfl
  simp only [MakesRoom, hrun] at hok
  exact absurd (Nat.lt_of_le_of_lt hok.1 (UInt32.toNat_lt _)) (Nat.not_lt.mpr h)

/-- `reserve` repairs the wrap of its own doubling, but the wrap of its argument it
cannot see: a write has its room, whatever the allocator does, exactly when size and
bytes together are a 32-bit number. -/
theorem write_makesRoom_iff (f : Field) (b : MessageBuilder) :
    (∀ alloc, MakesRoom o alloc f b) ↔ b.size.toNat + (f.encode o).length < 2 ^ 32 := by
  constructor
  · intro hroom
    by_contra h
    exact not_makesRoom o (Nat.not_lt.mp h) hroom
  · exact fun h alloc => makesRoom_of_lt o f h alloc

theorem encode_bytes_length (block : Mem) (size : UInt32) :
    ((Field.bytes block size).encode o).length = size.toNat :=
  Mem.load_length block 0 size.toNat

/-- Eight bytes are in a builder of default capacity, and a raw block of 4294967292
bytes follows.  `reserve` is asked for 4 bytes and returns at once, the block goes to
a buffer of 10 bytes, and the size is 4 afterwards. -/
theorem write_stores_outside :
    let b := writeUInt64 .little 7 (newDefault ⟨fun _ _ => 0, 0, []⟩)
    let f := Field.bytes (fun _ => 0) 4294967292
    b.size = 8 ∧ b.capacity = 10 ∧ asked .little f b = 4 ∧
      (∃ w, write .little (fun _ => true) f ⟨b, []⟩ = .ok () w ∧ w.builder.capacity = 10 ∧
        w.builder.size = 4 ∧ (8, 4294967292) ∈ w.stored) ∧
      ¬ ∀ alloc, MakesRoom .little alloc f b := by
  intro b f
  have hsize : b.size = 8 := by decide
  have hcap : b.capacity = 10 := by decide
  have hlen : (f.encode .little).length = (4294967292 : UInt32).toNat :=
    encode_bytes_length .little _ _
  have hasked : asked .little f b = 4 := by
    rw [asked, hlen, hsize]
    decide
  have hreserve : b.reserve 4 = b := by
    rw [MessageBuilder.reserve, hcap]
    rfl
  -- the one store begins at the old size
  have hwrite : f.write .little b = b.put (f.encode .little) := by
    rw [write_eq, ← asked, hasked, hreserve]
    rfl
  have hsize' : (b.put (f.encode .little)).size = 4 := by
    rw [MessageBuilder.put, hlen, hsize]
    decide
  have hspans : spans (chunks .little f) b = [(8, 4294967292)] := by
    rw [show chunks .little f = [f.encode .little] from rfl, spans, spans, hlen, hsize]
    rfl
  obtain ⟨copied, hrun, -⟩ := write_ok .little (fun _ => true) f b fun _ => rfl
  rw [hasked, hreserve, hwrite, hspans] at hrun
  have hwraps : 2 ^ 32 ≤ b.size.toNat + (f.encode .little).length := by
    rw [hlen, hsize]
    decide
  exact ⟨hsize, hcap, hasked, ⟨_, hrun, hcap, hsize', List.mem_cons_self⟩,
    not_makesRoom .little hwraps⟩

end Writing

end VmPlayback
