import VmPlayback.MessageStream
import VmPlayback.RoundTrip
import VmPlayback.Runs

namespace VmPlayback.TypedChannel

open Exec Conn MessageConnection Framing

variable (o : ByteOrder)

/-- What a `MessageBuilder` is told: a header, the capacity to begin with, and fields. -/
structure Record where
  header : Int32
  initCap : UInt32
  fields : List Field
  small : (fields.flatMap (Field.encode o)).length < 2 ^ 31

variable {o}

def Record.message (heap : Heap) (rec : Record o) : Message :=
  builtMessage o heap rec.header rec.initCap rec.fields

def Record.values (rec : Record o) : Int32 × List ReadValue :=
  (rec.header, rec.fields.map Field.value)

variable (o) in
/-- `sent` has the records whose writing has begun with the messages made of them, `got` what
came out, `none` where a reader threw.  `refused` is how much had come out when the receiver
first had no memory for a message. -/
structure Channel where
  w : ConnState Pipe
  r : ConnState Pipe
  arrived : ℕ
  sent : List (Record o × Message)
  got : List (Option (Int32 × List ReadValue))
  refused : Option ℕ

inductive Event (o : ByteOrder) where
  | send (heap : Heap) (rec : Record o)
  | arrive (n : ℕ)
  | breakdown
  | receive (alloc : UInt32 → Bool) (fresh : Mem)

variable (wcls rcls : ConnectionClass)

def readRecord (rec : Record o) (m : Message) : Option (Int32 × List ReadValue) :=
  match MessageReader.readAll o rec.fields (MessageReader.new m) with
  | .ok values _ => some (m.getHeader, values)
  | .error _ _ => none

namespace Channel

variable (s : Channel o)

/-- On a closed connection a call throws and changes nothing. -/
def step : Event o → Channel o
  | .send heap rec =>
    if s.w.conn.isOpen then
      { s with
        w := final (writeMessage o Pipe.net wcls (rec.message heap) s.w)
        sent := s.sent ++ [(rec, rec.message heap)] }
    else s
  | .arrive n =>
    if s.r.net.broken = false then
      { s with
        r := Framing.arrive s.w s.arrived n s.r
        arrived := min (s.arrived + n) s.w.net.accepted.length }
    else s
  | .breakdown => { s with r := { s.r with net := { s.r.net with broken := true } } }
  | .receive alloc fresh =>
    if s.r.conn.isOpen ∧ (Readable o s.r s.w s.arrived ∨ Refused o alloc s.r.net.incoming) then
      match readMessage o Pipe.net rcls alloc fresh s.r with
      | .ok m r =>
        { s with r, got := s.got ++ [s.sent[s.got.length]?.bind fun p => readRecord p.1 m] }
      -- the connection stays open, with the header read and the content still to come
      | .error .badAlloc r => { s with r, refused := s.refused.or (some s.got.length) }
      | .error _ r => { s with r }
    else s

variable (o) in
def start (w r : (ℕ → SendOutcome) × (ℕ → ℕ)) : Channel o where
  w := ⟨⟨0, true⟩, [], w.1, 0, [], w.2, 0, false⟩
  r := ⟨⟨0, true⟩, [], r.1, 0, [], r.2, 0, false⟩
  arrived := 0
  sent := []
  got := []
  refused := none

end Channel

theorem readRecord_eq {rec : Record o} {m : Message} (hh : m.header = rec.header)
    (hb : m.bytes = rec.fields.flatMap (Field.encode o)) :
    readRecord rec m = some rec.values := by
  have hl : (rec.fields.flatMap (Field.encode o)).length = m.length.toNat := by
    rw [← hb, Message.bytes_length]
  have hz : (MessageReader.new m).seekPos.toNat = 0 := rfl
  have hahead : (MessageReader.new m).Ahead (rec.fields.flatMap (Field.encode o)) :=
    ⟨by rw [hz, Nat.zero_add, hl]; exact Nat.le_refl _, by rw [hl]; exact hb⟩
  obtain ⟨r, hread, -⟩ := MessageReader.readAll_consumes o rec.fields hahead
  rw [readRecord, hread]
  exact congrArg (fun h => some (h, rec.fields.map Field.value)) hh

/-- A message that is read as the record's own is. -/
theorem Record.readRecord_message {rec : Record o} {heap : Heap} {m : Message}
    (h : m.Same (rec.message heap)) : readRecord rec m = some rec.values := by
  have hlen := rec.small
  refine readRecord_eq ?_ ?_
  · rw [h.1]
    exact MessageBuilder.writeAll_header o rec.fields
      (MessageBuilder.new heap rec.header rec.initCap)
  · rw [h.2.2]
    exact builtMessage_bytes o heap rec.header rec.initCap rec.fields (by omega)

theorem Record.message_small (rec : Record o) (heap : Heap) :
    (rec.message heap).length.toNat < 2 ^ 31 := by
  have hlen := rec.small
  have hb := builtMessage_bytes o heap rec.header rec.initCap rec.fields (by omega)
  rw [← Message.bytes_length]
  exact (congrArg List.length hb).trans_lt rec.small

namespace Channel

variable {s : Channel o} {wcls rcls}

/-- How many of the records that came out are in step with those that went in. -/
def kept (s : Channel o) : ℕ := s.refused.getD s.got.length

structure Inv (s : Channel o) : Prop where
  stream : s.refused = none → Direction o (s.sent.map Prod.snd) s.sent.length
    (s.w.conn.isOpen = true) s.w s.arrived s.got.length (s.r.conn.isOpen = true) s.r
  made : ∀ p ∈ s.sent, ∃ heap, p.2 = p.1.message heap
  le_got : s.kept ≤ s.got.length
  le_sent : s.kept ≤ s.sent.length
  got_eq : s.got.take s.kept = (s.sent.take s.kept).map fun p => some p.1.values

theorem inv_start (w r : (ℕ → SendOutcome) × (ℕ → ℕ)) : (start o w r).Inv where
  stream _ := .start rfl rfl rfl rfl
  made := by simp [start]
  le_got := Nat.le_refl 0
  le_sent := Nat.le_refl 0
  got_eq := rfl

theorem Inv.small (h : s.Inv) : ∀ m ∈ s.sent.map Prod.snd, m.length.toNat < 2 ^ 31 := by
  intro m hm
  obtain ⟨p, hp, rfl⟩ := List.mem_map.mp hm
  obtain ⟨heap, hmade⟩ := h.made p hp
  rw [hmade]
  exact p.1.message_small heap

/-- One more record begun, whether its write returns or throws. -/
theorem stream_write (h : Direction o (s.sent.map Prod.snd) s.sent.length (s.w.conn.isOpen = true)
    s.w s.arrived s.got.length (s.r.conn.isOpen = true) s.r) (ho : s.w.conn.isOpen = true)
    (p : Record o × Message) :
    let w := final (writeMessage o Pipe.net wcls p.2 s.w)
    Direction o ((s.sent ++ [p]).map Prod.snd) (s.sent.length + 1) (w.conn.isOpen = true) w
      s.arrived s.got.length (s.r.conn.isOpen = true) s.r := by
  have hms : s.sent.map Prod.snd <+: (s.sent ++ [p]).map Prod.snd := by
    rw [List.map_append]
    exact List.prefix_append _ _
  have hm : ((s.sent ++ [p]).map Prod.snd)[s.sent.length]? = some p.2 := by simp
  cases hrun : writeMessage o Pipe.net wcls p.2 s.w with
  | ok u w =>
    have hdir := (h.extend hms).write_ok ho hm hrun trivial
    exact hdir.writer rfl rfl hdir.isOpen_iff
  | error e w =>
    have hdir := (h.extend hms).write_error ho hm hrun not_false
    rw [shut_closed (writeMessage_error_closes o wcls hrun)] at hdir
    exact hdir.writer rfl rfl hdir.isOpen_iff

theorem Inv.send (h : s.Inv) (heap : Heap) (rec : Record o) :
    (s.step wcls rcls (.send heap rec)).Inv := by
  dsimp only [step]
  split
  · next ho =>
    refine ⟨fun hnone => ?_, ?_, h.le_got, ?_, ?_⟩
    · rw [List.length_append]
      exact stream_write (h.stream hnone) ho (rec, rec.message heap)
    · intro p hp
      rcases List.mem_append.mp hp with hp | hp
      · exact h.made p hp
      · rw [List.mem_singleton.mp hp]
        exact ⟨heap, rfl⟩
    · rw [List.length_append]
      exact h.le_sent.trans (Nat.le_add_right _ _)
    · have hle : s.kept ≤ s.sent.length := h.le_sent
      show s.got.take s.kept = _
      rw [h.got_eq]
      exact congrArg (List.map _) (List.take_append_of_le_length hle).symm
  · exact h

/-- The message read in step is the next record's. -/
theorem Inv.read_ok (h : s.Inv) (hnone : s.refused = none) (ho : s.r.conn.isOpen = true)
    {alloc : UInt32 → Bool} {fresh : Mem} {m : Message} {r : ConnState Pipe}
    (hrun : readMessage o Pipe.net rcls alloc fresh s.r = .ok m r) :
    { s with r, got := s.got ++ [s.sent[s.got.length]?.bind fun p => readRecord p.1 m] }.Inv := by
  obtain ⟨⟨m', hm', hsame⟩, hdir, -⟩ := (h.stream hnone).read_ok ho ho h.small hrun
  rw [List.getElem?_map, Option.map_eq_some_iff] at hm'
  obtain ⟨p, hp, rfl⟩ := hm'
  obtain ⟨heap, hmade⟩ := h.made p (List.mem_of_getElem? hp)
  rw [hmade] at hsame
  have hvalues : (s.sent[s.got.length]?.bind fun p => readRecord p.1 m) = some p.1.values := by
    rw [hp]
    exact Record.readRecord_message hsame
  have hlen : (s.got ++ [some p.1.values]).length = s.got.length + 1 := by simp
  have hgot := h.got_eq
  rw [hvalues]
  simp only [kept, hnone, Option.getD_none, List.take_length] at hgot ⊢
  refine ⟨fun _ => ?_, h.made, ?_, ?_, ?_⟩
  · rw [hlen]
    exact hdir.reader fun _ => ⟨trivial, rfl⟩
  · simp [kept]
  · simp only [kept, Option.getD_none, hlen]
    exact (List.getElem?_eq_some_iff.mp hp).1
  · simp only [kept, Option.getD_none, List.take_length]
    rw [hlen, List.take_add_one, hp, List.map_append, ← hgot]
    rfl

/-- Out of step, only what had come out before counts. -/
theorem Inv.out_of_step (h : s.Inv) {k : ℕ} (hk : s.refused = some k) (r : ConnState Pipe)
    (value : Option (Int32 × List ReadValue)) : { s with r, got := s.got ++ [value] }.Inv := by
  have hle := h.le_got
  have hle' := h.le_sent
  have hgot := h.got_eq
  simp only [kept, hk, Option.getD_some] at hle hle' hgot
  refine ⟨fun hnone => ?_, h.made, ?_, ?_, ?_⟩ <;>
    simp only [kept, hk, Option.getD_some, List.length_append]
  · simp [hk] at hnone
  · omega
  · exact hle'
  · rw [List.take_append_of_le_length hle, hgot]

theorem Inv.refuse (h : s.Inv) (r : ConnState Pipe) :
    { s with r, refused := s.refused.or (some s.got.length) }.Inv := by
  have hkept : { s with r, refused := s.refused.or (some s.got.length) }.kept = s.kept := by
    cases hk : s.refused <;> simp [kept, hk]
  refine ⟨fun hnone => ?_, h.made, ?_, ?_, ?_⟩
  · simp at hnone
  · rw [hkept]
    exact h.le_got
  · rw [hkept]
    exact h.le_sent
  · rw [hkept]
    exact h.got_eq

theorem Inv.receive (h : s.Inv) (alloc : UInt32 → Bool) (fresh : Mem) :
    (s.step wcls rcls (.receive alloc fresh)).Inv := by
  dsimp only [step]
  split
  · next hr =>
    cases hrun : readMessage o Pipe.net rcls alloc fresh s.r with
    | ok m r =>
      by_cases hnone : s.refused = none
      · exact h.read_ok hnone hr.1 hrun
      · obtain ⟨k, hk⟩ := Option.ne_none_iff_exists'.mp hnone
        exact h.out_of_step hk r _
    | error e r =>
      cases e with
      | badAlloc => exact h.refuse r
      | connection cls error =>
        have hclosed := (readMessage_error_closes o rcls hrun).resolve_left nofun
        refine ⟨fun hnone => (h.stream hnone).reader fun ho => ?_, h.made, h.le_got, h.le_sent,
          h.got_eq⟩
        rw [hclosed] at ho
        cases ho
  · exact h

theorem Inv.step (h : s.Inv) (e : Event o) : (s.step wcls rcls e).Inv := by
  cases e with
  | send heap rec => exact h.send heap rec
  | arrive n =>
    dsimp only [Channel.step]
    split
    · exact ⟨fun hnone => (h.stream hnone).deliver n, h.made, h.le_got, h.le_sent, h.got_eq⟩
    · exact h
  | breakdown =>
    exact ⟨fun hnone => (h.stream hnone).reader fun ho => ⟨ho, rfl⟩, h.made, h.le_got, h.le_sent,
      h.got_eq⟩
  | receive alloc fresh => exact h.receive alloc fresh

end Channel

end VmPlayback.TypedChannel
