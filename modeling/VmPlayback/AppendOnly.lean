import VmPlayback.MessageBuilder
import VmPlayback.Runs

namespace VmPlayback

inductive BuilderOp where
  | write (f : Field)
  | reserve (size : UInt32)
  | setHeader (header : Int32)
  | toMessage

def BuilderOp.visible : BuilderOp → Bool
  | reserve _ => false
  | _ => true

/-- A builder at work, and the messages it has made, in order. -/
structure Building where
  builder : MessageBuilder
  made : List MessageRef

namespace Building

variable (o : ByteOrder)

def new (heap : Heap) (header : Int32) (initCap : UInt32) : Building :=
  ⟨.new heap header initCap, []⟩

def step (s : Building) : BuilderOp → Building
  | .write f => { s with builder := f.write o s.builder }
  | .reserve size => { s with builder := s.builder.reserve size }
  | .setHeader header => { s with builder := s.builder.setHeader header }
  | .toMessage =>
    let (mess, builder) := s.builder.toMessage
    ⟨builder, s.made ++ [mess]⟩

def messages (s : Building) : List Message := s.made.map (·.view s.builder.heap)

end Building

structure Sealed where
  header : Int32
  bytes : List UInt8

/-- What a builder is for. -/
structure Draft where
  header : Int32
  written : List UInt8
  made : List Sealed

namespace Draft

variable (o : ByteOrder)

def new (header : Int32) : Draft := ⟨header, [], []⟩

def step (d : Draft) : BuilderOp → Draft
  | .write f => { d with written := d.written ++ f.encode o }
  | .reserve _ => d
  | .setHeader header => { d with header := header }
  | .toMessage => { d with written := [], made := d.made ++ [⟨d.header, d.written⟩] }

def Fits (d : Draft) (op : BuilderOp) : Prop := (d.step o op).written.length < 2 ^ 32

instance (d : Draft) (op : BuilderOp) : Decidable (d.Fits o op) :=
  inferInstanceAs (Decidable (_ < _))

theorem step_invisible (d : Draft) (op : BuilderOp) (h : op.visible = false) :
    d.step o op = d := by
  cases op with
  | reserve size => rfl
  | _ => cases h

/-- Calls of `reserve` do not show. -/
theorem run_visible (d : Draft) (ops : List BuilderOp) :
    (ops.filter BuilderOp.visible).foldl (step o) d = ops.foldl (step o) d :=
  foldl_filter_of_idle _ (step_invisible o) d ops

theorem fits_visible (header : Int32) (ops : List BuilderOp) :
    Along (step o) (Fits o) (new header) (ops.filter BuilderOp.visible) ↔
      Along (step o) (Fits o) (new header) ops := by
  apply along_filter_of_idle (J := fun d : Draft => d.written.length < 2 ^ 32)
  · exact step_invisible o
  · intro d op hop hd
    rwa [Fits, step_invisible o d op hop]
  · exact fun _ _ _ hf => hf
  · exact Nat.two_pow_pos 32

end Draft

def Message.Is (m : Message) (x : Sealed) : Prop :=
  m.header = x.header ∧ m.length.toNat = x.bytes.length ∧ m.bytes = x.bytes

theorem Message.Is.same {m m' : Message} {x : Sealed} (h : m.Is x) (h' : m'.Is x) :
    m.Same m' := by
  obtain ⟨hh, hl, hb⟩ := h
  obtain ⟨hh', hl', hb'⟩ := h'
  exact ⟨hh.trans hh'.symm, UInt32.toNat_inj.mp (hl.trans hl'.symm), hb.trans hb'.symm⟩

theorem forall₂_same {ms ms' : List Message} {xs : List Sealed}
    (h : List.Forall₂ Message.Is ms xs) (h' : List.Forall₂ Message.Is ms' xs) :
    List.Forall₂ Message.Same ms ms' := by
  induction h generalizing ms' with
  | nil =>
    cases h'
    exact .nil
  | cons hm _ ih =>
    cases h' with
    | cons hm' hms' => exact .cons (hm.same hm') (ih hms')

namespace MessageBuilder

variable (o : ByteOrder)

/-- A doubled capacity that has lost its top bit is smaller than before, so the
second comparison finds it too small. -/
theorem le_grownCapacity (capacity size : UInt32) : size ≤ grownCapacity capacity size := by
  rw [grownCapacity]
  split
  · exact UInt32.le_refl size
  · next h => exact UInt32.not_lt.mp h

theorem reserve_capacity (b : MessageBuilder) (n : UInt32) :
    n ≤ (b.reserve n).capacity ∧ b.capacity ≤ (b.reserve n).capacity := by
  rw [reserve]
  split
  · next h =>
    have hn := le_grownCapacity b.capacity n
    exact ⟨hn, UInt32.le_of_lt (UInt32.lt_of_lt_of_le h hn)⟩
  · next h => exact ⟨UInt32.not_lt.mp h, UInt32.le_refl _⟩

@[simp] theorem puts_capacity (chunks : List (List UInt8)) (b : MessageBuilder) :
    (puts chunks b).capacity = b.capacity := by
  induction chunks generalizing b with
  | nil => rfl
  | cons bs chunks ih => exact ih (b.put bs)

/-- Where size and bytes together are a 32-bit number, `reserve` is asked for that. -/
theorem le_write_capacity (f : Field) {b : MessageBuilder}
    (h : b.size.toNat + (f.encode o).length < 2 ^ 32) :
    b.size.toNat + (f.encode o).length ≤ (f.write o b).capacity.toNat := by
  have hroom := (reserve_capacity b (UInt32.ofNat (b.size.toNat + (f.encode o).length))).1
  rw [UInt32.le_iff_toNat_le, UInt32.toNat_ofNat', Nat.mod_eq_of_lt h] at hroom
  rwa [write_eq, puts_capacity]

/-- A write that does not wrap stays inside what it reserved. -/
theorem write_size_le (f : Field) {b : MessageBuilder}
    (h : b.size.toNat + (f.encode o).length < 2 ^ 32) :
    (f.write o b).size ≤ (f.write o b).capacity := by
  rw [UInt32.le_iff_toNat_le, write_size o f h]
  exact le_write_capacity o f h

/-- An allocated buffer other than the builder's own. -/
def Apart (b : MessageBuilder) (a : ℕ) : Prop :=
  a ≠ b.content ∧ a < b.heap.next ∧ a ∉ b.heap.freed

/-- Going on from `b` to `b'` neither writes to such a buffer nor deletes it. -/
def Leaves (b b' : MessageBuilder) : Prop :=
  ∀ a, b.Apart a → b'.Apart a ∧ b'.heap.mem a = b.heap.mem a

def Owns (b : MessageBuilder) : Prop :=
  b.content < b.heap.next ∧ b.content ∉ b.heap.freed ∧ ∀ a ∈ b.heap.freed, a < b.heap.next

theorem Leaves.refl (b : MessageBuilder) : Leaves b b := fun _ h => ⟨h, rfl⟩

theorem Leaves.trans {b₁ b₂ b₃ : MessageBuilder} (h : Leaves b₁ b₂) (h' : Leaves b₂ b₃) :
    Leaves b₁ b₃ := by
  intro a ha
  obtain ⟨ha₂, hm₂⟩ := h a ha
  obtain ⟨ha₃, hm₃⟩ := h' a ha₂
  exact ⟨ha₃, hm₃.trans hm₂⟩

theorem put_leaves (b : MessageBuilder) (bs : List UInt8) : Leaves b (b.put bs) := by
  intro a ha
  exact ⟨ha, by simp [put, Heap.store, Function.update_of_ne ha.1]⟩

theorem puts_leaves (chunks : List (List UInt8)) (b : MessageBuilder) :
    Leaves b (puts chunks b) := by
  induction chunks generalizing b with
  | nil => exact Leaves.refl b
  | cons bs chunks ih => exact (put_leaves b bs).trans (ih (b.put bs))

theorem reserve_leaves (b : MessageBuilder) (n : UInt32) : Leaves b (b.reserve n) := by
  rw [reserve]
  split
  · rintro a ⟨hne, hlt, hfreed⟩
    -- the new buffer is beyond all allocated ones, and only the old one is deleted
    have hnew : a ≠ b.heap.next := Nat.ne_of_lt hlt
    refine ⟨⟨hnew, Nat.lt_succ_of_lt hlt, ?_⟩, ?_⟩
    · simp [Heap.free, Heap.store, Heap.alloc, hne, hfreed]
    · simp [Heap.store, Function.update_of_ne hnew]
  · exact Leaves.refl b

theorem write_leaves (f : Field) (b : MessageBuilder) : Leaves b (f.write o b) := by
  rw [write_eq]
  exact (reserve_leaves b _).trans (puts_leaves _ _)

theorem toMessage_leaves (b : MessageBuilder) : Leaves b b.toMessage.2 := by
  rintro a ⟨-, hlt, hfreed⟩
  exact ⟨⟨Nat.ne_of_lt hlt, Nat.lt_succ_of_lt hlt, hfreed⟩, rfl⟩

/-- The buffer handed over is no longer the builder's. -/
theorem toMessage_apart {b : MessageBuilder} (h : b.Owns) :
    b.toMessage.2.Apart b.toMessage.1.content :=
  ⟨Nat.ne_of_lt h.1, Nat.lt_succ_of_lt h.1, h.2.1⟩

theorem new_owns {heap : Heap} (h : ∀ a ∈ heap.freed, a < heap.next) (header : Int32)
    (initCap : UInt32) : (new heap header initCap).Owns :=
  ⟨Nat.lt_succ_self _, fun hf => Nat.lt_irrefl _ (h _ hf), fun a ha => Nat.lt_succ_of_lt (h a ha)⟩

theorem toMessage_owns {b : MessageBuilder} (h : b.Owns) : b.toMessage.2.Owns :=
  ⟨Nat.lt_succ_self _, fun hf => Nat.lt_irrefl _ (h.2.2 _ hf),
    fun a ha => Nat.lt_succ_of_lt (h.2.2 a ha)⟩

theorem reserve_owns {b : MessageBuilder} (h : b.Owns) (n : UInt32) : (b.reserve n).Owns := by
  rw [reserve]
  split
  · obtain ⟨hlt, -, hall⟩ := h
    have hold : ∀ a ∈ b.content :: b.heap.freed, a < b.heap.next := by
      rintro a (_ | ⟨_, ha⟩)
      · exact hlt
      · exact hall a ha
    exact ⟨Nat.lt_succ_self _, fun hf => Nat.lt_irrefl _ (hold _ hf),
      fun a ha => Nat.lt_succ_of_lt (hold a ha)⟩
  · exact h

theorem puts_owns (chunks : List (List UInt8)) {b : MessageBuilder} (h : b.Owns) :
    (puts chunks b).Owns := by
  induction chunks generalizing b with
  | nil => exact h
  | cons bs chunks ih => exact ih (b := b.put bs) h

theorem write_owns (f : Field) {b : MessageBuilder} (h : b.Owns) : (f.write o b).Owns := by
  rw [write_eq]
  exact puts_owns _ (reserve_owns h _)

end MessageBuilder

namespace Building

open MessageBuilder

variable (o : ByteOrder)

/-- No call touches a buffer that is not the builder's. -/
theorem step_leaves (s : Building) (op : BuilderOp) : Leaves s.builder (s.step o op).builder := by
  cases op with
  | write f => exact write_leaves o f s.builder
  | reserve size => exact reserve_leaves s.builder size
  | setHeader header => exact Leaves.refl _
  | toMessage => exact toMessage_leaves s.builder

theorem run_leaves (s : Building) (ops : List BuilderOp) :
    Leaves s.builder (ops.foldl (step o) s).builder := by
  apply invariant_run (J := fun s' : Building => Leaves s.builder s'.builder)
  · intro s' op h
    exact h.trans (step_leaves o s' op)
  · exact Leaves.refl _

theorem step_made (s : Building) (op : BuilderOp) : s.made ⊆ (s.step o op).made := by
  cases op with
  | toMessage => exact List.subset_append_left _ _
  | _ => exact List.Subset.refl _

theorem run_made_subset (s : Building) (ops : List BuilderOp) :
    s.made ⊆ (ops.foldl (step o) s).made := by
  apply invariant_run (J := fun s' : Building => s.made ⊆ s'.made)
  · intro s' op h
    exact List.Subset.trans h (step_made o s' op)
  · exact List.Subset.refl _

/-- A builder and the abstract one it implements. -/
structure Refines (s : Building) (d : Draft) : Prop where
  header : s.builder.header = d.header
  used : s.builder.used = d.written
  made : List.Forall₂ Message.Is s.messages d.made
  size_le : s.builder.size ≤ s.builder.capacity
  owns : s.builder.Owns
  apart : ∀ m ∈ s.made, s.builder.Apart m.content

theorem new_refines {heap : Heap} (hheap : ∀ a ∈ heap.freed, a < heap.next) (header : Int32)
    (initCap : UInt32) : Refines (new heap header initCap) (Draft.new header) where
  header := rfl
  used := rfl
  made := .nil
  size_le := UInt32.zero_le
  owns := new_owns hheap header initCap
  apart := by simp [new]

/-- Messages read the same as long as their buffers are left alone. -/
theorem messages_of_leaves {s : Building} {b : MessageBuilder}
    (hapart : ∀ m ∈ s.made, s.builder.Apart m.content) (h : Leaves s.builder b) :
    s.made.map (·.view b.heap) = s.messages := by
  apply List.map_congr_left
  intro m hm
  rw [MessageRef.view, MessageRef.view, (h _ (hapart m hm)).2]

/-- A call that makes no message, given what it does to the bytes. -/
theorem Refines.keep {s : Building} {d : Draft} (h : Refines s d) {b : MessageBuilder}
    (hleaves : Leaves s.builder b) (howns : b.Owns) (hsize : b.size ≤ b.capacity) :
    Refines ⟨b, s.made⟩ ⟨b.header, b.used, d.made⟩ where
  header := rfl
  used := rfl
  made := by
    rw [messages, messages_of_leaves h.apart hleaves]
    exact h.made
  size_le := hsize
  owns := howns
  apart m hm := (hleaves _ (h.apart m hm)).1

theorem step_refines {s : Building} {d : Draft} (op : BuilderOp) (h : Refines s d)
    (hf : d.Fits o op) : Refines (s.step o op) (d.step o op) := by
  cases op with
  | write f =>
    have hfit : s.builder.size.toNat + (f.encode o).length < 2 ^ 32 := by
      rw [← used_length, h.used, ← List.length_append]
      exact hf
    have hkeep := h.keep (write_leaves o f s.builder) (write_owns o f h.owns)
      (write_size_le o f hfit)
    rwa [write_header, write_used o f hfit, h.header, h.used] at hkeep
  | reserve size =>
    have hle : (s.builder.reserve size).size ≤ (s.builder.reserve size).capacity := by
      rw [reserve_size]
      exact UInt32.le_trans h.size_le (reserve_capacity s.builder size).2
    have hkeep := h.keep (reserve_leaves s.builder size) (reserve_owns h.owns size) hle
    rwa [reserve_header, reserve_used, h.header, h.used] at hkeep
  | setHeader header =>
    have hkeep := h.keep (b := s.builder.setHeader header) (Leaves.refl _) h.owns h.size_le
    rw [show (s.builder.setHeader header).used = d.written from h.used] at hkeep
    exact hkeep
  | toMessage =>
    have hleaves := toMessage_leaves s.builder
    have hmessage : (s.builder.toMessage.1.view s.builder.toMessage.2.heap).Is
        ⟨d.header, d.written⟩ := by
      refine ⟨h.header, ?_, h.used⟩
      rw [← h.used, used_length]
      rfl
    refine ⟨h.header, rfl, ?_, UInt32.zero_le, toMessage_owns h.owns, ?_⟩
    · rw [messages, step, List.map_append, messages_of_leaves h.apart hleaves]
      exact List.rel_append h.made (.cons hmessage .nil)
    · intro m hm
      rcases List.mem_append.mp hm with hm | hm
      · exact (hleaves _ (h.apart m hm)).1
      · rw [List.mem_singleton.mp hm]
        exact toMessage_apart h.owns

theorem run_refines {s : Building} {d : Draft} (h : Refines s d) {ops : List BuilderOp}
    (hf : Along (Draft.step o) (Draft.Fits o) d ops) :
    Refines (ops.foldl (step o) s) (ops.foldl (Draft.step o) d) :=
  simulation_run (fun _ _ op h hf => step_refines o op h hf) h hf

/-- Everything the builder promises, over every sequence of calls that keeps the
bytes of a message countable.  At every moment the messages made so far are the
abstract ones, and they read the same at the end; neither the initial capacity nor
any call of `reserve` can be told from them. -/
theorem messages_of_builder (heap : Heap) (hheap : ∀ a ∈ heap.freed, a < heap.next)
    (header : Int32) (initCap : UInt32) (ops : List BuilderOp)
    (hfits : Along (Draft.step o) (Draft.Fits o) (Draft.new header) ops) :
    (∀ pre post, ops = pre ++ post →
      let s := pre.foldl (step o) (new heap header initCap)
      let last := ops.foldl (step o) (new heap header initCap)
      List.Forall₂ Message.Is s.messages (pre.foldl (Draft.step o) (Draft.new header)).made ∧
        s.builder.size ≤ s.builder.capacity ∧
        ∀ m ∈ s.made, m ∈ last.made ∧ m.view last.builder.heap = m.view s.builder.heap ∧
          m.content ∉ last.builder.heap.freed) ∧
    ∀ (heap' : Heap) (initCap' : UInt32) (ops' : List BuilderOp),
      (∀ a ∈ heap'.freed, a < heap'.next) →
      ops'.filter BuilderOp.visible = ops.filter BuilderOp.visible →
      List.Forall₂ Message.Same (ops.foldl (step o) (new heap header initCap)).messages
        (ops'.foldl (step o) (new heap' header initCap')).messages := by
  constructor
  · rintro pre post rfl
    rw [along_append] at hfits
    have hpre := run_refines o (new_refines hheap header initCap) hfits.1
    refine ⟨hpre.made, hpre.size_le, ?_⟩
    intro m hm
    -- what comes after `pre` leaves the buffer of the message alone
    obtain ⟨hapart, hmem⟩ := run_leaves o _ post _ (hpre.apart m hm)
    rw [List.foldl_append]
    refine ⟨run_made_subset o _ post hm, ?_, hapart.2.2⟩
    rw [MessageRef.view, MessageRef.view, hmem]
  · intro heap' initCap' ops' hheap' hops
    have hfits' : Along (Draft.step o) (Draft.Fits o) (Draft.new header) ops' := by
      rwa [← Draft.fits_visible, hops, Draft.fits_visible]
    have h := (run_refines o (new_refines hheap header initCap) hfits).made
    have h' := (run_refines o (new_refines hheap' header initCap') hfits').made
    rw [← Draft.run_visible, hops, Draft.run_visible] at h'
    exact forall₂_same h h'

/-- Two messages from a builder that starts without a buffer to speak of, the first
after a `reserve` of all that 32 bits can ask for. -/
theorem messages_of_builder_sample :
    List.Forall₂ Message.Is
      (([.write (.char 99), .reserve 4294967295, .toMessage, .setHeader 5, .write (.string [104]),
        .write (.ushort 30), .toMessage] : List BuilderOp).foldl (step .little)
          (new ⟨fun _ _ => 0xCD, 0, []⟩ 3 0)).messages
      [⟨3, [99]⟩, ⟨5, [1, 0, 0, 0, 104, 30, 0]⟩] :=
  ((messages_of_builder .little ⟨fun _ _ => 0xCD, 0, []⟩ (by simp) 3 0 _ (by decide)).1 _ []
    (List.append_nil _).symm).1

end Building

end VmPlayback
