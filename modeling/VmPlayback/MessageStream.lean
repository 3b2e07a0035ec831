import VmPlayback.Framing

namespace VmPlayback

open Exec

namespace Conn

variable {σ : Type} {net : Net σ} {cls : ConnectionClass} {J : σ → Prop}

theorem shut_closed {s : ConnState σ} (h : s.conn.isOpen = false) : shut net s = s := by
  simp [shut, h]

theorem shut_keeps (hclose : ∀ fd s, J s → J (net.close fd s)) {s : ConnState σ} (h : J s.net) :
    J (shut net s).net := by
  rw [shut]
  split
  · exact hclose _ _ h
  · exact h

variable (net cls) in
theorem send_keeps (hsend : ∀ fd bs s, J s → J (net.send fd bs s).2)
    (hclose : ∀ fd s, J s → J (net.close fd s)) (content : List UInt8) :
    Keeps (fun s : ConnState σ => J s.net) (send net cls content) := by
  intro s hs
  cases ho : s.conn.isOpen with
  | false =>
    rw [send_closed net cls ho]
    exact hs
  | true =>
    have hcall := hsend s.conn.fd content s.net hs
    rw [send_open net cls ho]
    dsimp only
    split
    · exact shut_keeps hclose hcall
    · exact hcall

variable (net cls) in
theorem receive_keeps (hrecv : ∀ fd size waitall s, J s → J (net.recv fd size waitall s).2.2)
    (hclose : ∀ fd s, J s → J (net.close fd s)) (buffer : Mem) (size : UInt32) :
    Keeps (fun s : ConnState σ => J s.net) (receive net cls buffer size) := by
  intro s hs
  cases ho : s.conn.isOpen with
  | false =>
    rw [receive_closed net cls ho]
    exact hs
  | true =>
    by_cases hc : cls = .bkndConnection
    · subst hc
      have hcall := hrecv s.conn.fd size true s.net hs
      rw [receive_waitall net ho]
      dsimp only
      split
      · exact shut_keeps hclose hcall
      · exact hcall
    · have hloop := receiveLoop_invariant net (fun size s' h => hrecv s.conn.fd size false s' h)
        0 size buffer hs
      rw [receive_loop net cls ho buffer size hc]
      dsimp only
      split
      · exact shut_keeps hclose hloop
      · exact hloop

theorem receive_error_closes {buffer : Mem} {size : UInt32} {s s' : ConnState σ}
    {e : CommException} (h : receive net cls buffer size s = .error e s') :
    s'.conn.isOpen = false := by
  cases ho : s.conn.isOpen with
  | false =>
    rw [receive_closed net cls ho] at h
    cases h
    exact ho
  | true =>
    by_cases hc : cls = .bkndConnection
    · subst hc
      rw [receive_waitall net ho] at h
      dsimp only at h
      split at h <;> cases h
      exact shut_isOpen _ _
    · rw [receive_loop net cls ho buffer size hc] at h
      dsimp only at h
      split at h <;> cases h
      exact shut_isOpen _ _

end Conn

theorem Conn.shut_net (s : ConnState Pipe) : (Conn.shut Pipe.net s).net = s.net := by
  rw [Conn.shut]
  split <;> rfl

namespace MessageConnection

variable (o : ByteOrder) (cls : ConnectionClass)

/-- Writing leaves what has come in, and what the network does. -/
theorem writeMessage_keeps (m : Message) (s : ConnState Pipe) :
    let p := (final (writeMessage o Pipe.net cls m s)).net
    p.incoming = s.net.incoming ∧ p.outcome = s.net.outcome ∧ p.broken = s.net.broken := by
  have hsend := Conn.send_keeps Pipe.net cls
    (J := fun p => p.incoming = s.net.incoming ∧ p.outcome = s.net.outcome ∧
      p.broken = s.net.broken)
    (fun _ bs p h => by
      show (Pipe.send bs p).2.incoming = _ ∧ (Pipe.send bs p).2.outcome = _ ∧
        (Pipe.send bs p).2.broken = _
      unfold Pipe.send
      split <;> exact h)
    (fun _ _ h => h)
  exact Keeps.bind (hsend _) (fun _ => Keeps.ite (hsend _) (Keeps.pure _)) s ⟨rfl, rfl, rfl⟩

/-- Reading leaves what has gone out, and what the network does. -/
theorem readMessage_keeps (alloc : UInt32 → Bool) (fresh : Mem) (s : ConnState Pipe) :
    let p := (final (readMessage o Pipe.net cls alloc fresh s)).net
    p.accepted = s.net.accepted ∧ p.outcome = s.net.outcome ∧ p.broken = s.net.broken := by
  have hrecv := Conn.receive_keeps Pipe.net cls
    (J := fun p => p.accepted = s.net.accepted ∧ p.outcome = s.net.outcome ∧
      p.broken = s.net.broken)
    (fun _ size waitall p h => by
      show (Pipe.recv size waitall p).2.2.accepted = _ ∧
        (Pipe.recv size waitall p).2.2.outcome = _ ∧ (Pipe.recv size waitall p).2.2.broken = _
      unfold Pipe.recv
      split
      · exact h
      · split <;> exact h)
    (fun _ _ h => h)
  refine Keeps.bind (hrecv _ _) (fun msg => ?_) s ⟨rfl, rfl, rfl⟩
  refine Keeps.ite (Keeps.bind (Keeps.throw _) fun _ => ?_) ?_ <;>
    exact Keeps.ite (Keeps.bind (hrecv _ _) fun _ => Keeps.pure _) (Keeps.pure _)

/-- A read that throws closes the connection, unless it is for want of memory. -/
theorem readMessage_error_closes {alloc : UInt32 → Bool} {fresh : Mem} {s s' : ConnState Pipe}
    {e : CommException} (h : readMessage o Pipe.net cls alloc fresh s = .error e s') :
    e = .badAlloc ∨ s'.conn.isOpen = false := by
  simp only [readMessage, run_bind] at h
  cases hhead : Conn.receive Pipe.net cls fresh 8 s with
  | error e₁ s₁ =>
    rw [hhead] at h
    cases h
    exact .inr (Conn.receive_error_closes hhead)
  | ok msg s₁ =>
    rw [hhead] at h
    simp only [run_ite, run_bind, run_throw, run_pure] at h
    split at h
    · cases h
      exact .inl rfl
    · split at h
      · split at h
        · cases h
        · next hbody =>
          cases h
          exact .inr (Conn.receive_error_closes hbody)
      · cases h

/-- Where no send fails, no message does. -/
theorem writeMessage_full {s : ConnState Pipe} (ho : s.conn.isOpen = true)
    (hfull : ∀ k, s.net.outcome k = .full) (m : Message) :
    ∃ s', writeMessage o Pipe.net cls m s = .ok () s' := by
  simp only [writeMessage, run_bind, Conn.send_full ho (hfull _), run_ite]
  split
  · exact ⟨_, Conn.send_full ho (hfull _)⟩
  · exact ⟨_, rfl⟩

end MessageConnection

namespace Framing

open Conn MessageConnection

variable (o : ByteOrder) {ms : List Message} {j k d : ℕ} {w w' r r' : ConnState Pipe}

def Whole (bytes : List UInt8) : Prop :=
  8 ≤ bytes.length ∧ 8 + (Scalar.uint.decode o ((bytes.drop 4).take 4)).toNat ≤ bytes.length

instance (bytes : List UInt8) : Decidable (Whole o bytes) := inferInstanceAs (Decidable (_ ∧ _))

theorem decode_length {bytes : List UInt8} {m : Message} (h : m.msgStruct o <+: bytes) :
    Scalar.uint.decode o ((bytes.drop 4).take 4) = m.length := by
  obtain ⟨rest, rfl⟩ := h
  have hhead : (Scalar.uint.encode o m.getHeader.toUInt32).length = 4 := by simp [Scalar.uint]
  have hlen : (Scalar.uint.encode o m.getLength.toUInt32).length = 4 := by simp [Scalar.uint]
  rw [Message.msgStruct, List.append_assoc, List.drop_left' hhead, List.take_left' hlen,
    Scalar.decode_encode, Message.getLength_toUInt32]

theorem whole_iff (bytes : List UInt8) :
    Whole o bytes ↔ ∃ m rest, bytes = Message.wire o m ++ rest := by
  constructor
  · rintro ⟨h8, hlen⟩
    rcases Message.stream_cases o bytes with hwhole | ⟨m, hpre, hlt⟩
    · exact hwhole
    · -- the beginning of a message with all of its content
      have hhead : m.msgStruct o <+: bytes :=
        List.prefix_of_prefix_length_le (List.prefix_append _ _) hpre (by simpa using h8)
      rw [decode_length o hhead] at hlen
      rw [Message.wire_length] at hlt
      omega
  · rintro ⟨m, rest, rfl⟩
    have hhead : m.msgStruct o <+: m.wire o ++ rest :=
      (List.prefix_append _ _).trans (List.prefix_append _ _)
    rw [Whole, decode_length o hhead, List.length_append, Message.wire_length]
    omega

/-- There is no memory for the content that a `msg_struct` announces. -/
def Refused (alloc : UInt32 → Bool) (bytes : List UInt8) : Prop :=
  8 ≤ bytes.length ∧ alloc (max (Scalar.uint.decode o ((bytes.drop 4).take 4)) 1) = false

instance (alloc : UInt32 → Bool) (bytes : List UInt8) : Decidable (Refused o alloc bytes) :=
  inferInstanceAs (Decidable (_ ∧ _))

/-- A `readMessage` that does not wait: there is a message, or there will be no more. -/
def Readable (r w : ConnState Pipe) (d : ℕ) : Prop :=
  Whole o r.net.incoming ∨ r.net.broken = true ∨
    (w.conn.isOpen = false ∧ d = w.net.accepted.length)

instance (r w : ConnState Pipe) (d : ℕ) : Decidable (Readable o r w d) :=
  inferInstanceAs (Decidable (_ ∨ _ ∨ _))

/-- `k` of the messages are on the stream, and the beginning of one more if the end
was closed on the way. -/
structure Written (ms : List Message) (k : ℕ) (w : ConnState Pipe) : Prop where
  le : k ≤ ms.length
  stream : ∃ tail, w.net.accepted = (ms.take k).flatMap (Message.wire o) ++ tail ∧
    CutAt o ms k tail ∧ (w.conn.isOpen = true → tail = [])

/-- `j` of the messages have been read, and what is there to be read is the rest of the
first `d` bytes. -/
structure Taken (ms : List Message) (j : ℕ) (w : ConnState Pipe) (d : ℕ) (r : ConnState Pipe) :
    Prop where
  le : j ≤ ms.length
  arrived : d ≤ w.net.accepted.length
  stream : (ms.take j).flatMap (Message.wire o) ++ r.net.incoming = w.net.accepted.take d

variable {o}

theorem cutAt_nil (h : k ≤ ms.length) : CutAt o ms k [] := by
  rcases Nat.eq_or_lt_of_le h with h | h
  · exact .inl ⟨h, rfl⟩
  · exact .inr ⟨ms[k], List.getElem?_eq_getElem h, List.nil_prefix, by simp⟩

theorem flatMap_take_succ {m : Message} (hm : ms[k]? = some m) :
    (ms.take (k + 1)).flatMap (Message.wire o) =
      (ms.take k).flatMap (Message.wire o) ++ m.wire o := by
  rw [List.take_add_one, hm]
  simp

theorem written_zero (ho : w.net.accepted = []) : Written o ms 0 w :=
  ⟨Nat.zero_le _, [], by simp [ho], cutAt_nil (Nat.zero_le _), fun _ => rfl⟩

theorem taken_zero (hr : r.net.incoming = []) : Taken o ms 0 w 0 r :=
  ⟨Nat.zero_le _, Nat.zero_le _, by simp [hr]⟩

/-- What is on the stream is a beginning of the messages' encodings. -/
theorem Written.isPrefix (h : Written o ms k w) :
    w.net.accepted <+: ms.flatMap (Message.wire o) := by
  obtain ⟨tail, hacc, hcut, -⟩ := h.stream
  rw [hacc]
  rcases hcut with ⟨rfl, rfl⟩ | ⟨m, hm, hpre, -⟩
  · simp
  · have hsucc := wire_take_isPrefix o ms (List.getElem?_eq_some_iff.mp hm).1
    rw [List.take_length, flatMap_take_succ hm] at hsucc
    exact ((List.prefix_append_right_inj _).mpr hpre).trans hsucc

/-- A write that throws may have put all of the message on the stream. -/
theorem Written.write (h : Written o ms k w) (ho : w.conn.isOpen = true) {m : Message}
    (hm : ms[k]? = some m) (cls : ConnectionClass) :
    (∃ w', writeMessage o Pipe.net cls m w = .ok () w' ∧ w'.conn.isOpen = true ∧
      Written o ms (k + 1) w' ∧ w.net.accepted <+: w'.net.accepted) ∨
    (∃ e w' k', writeMessage o Pipe.net cls m w = .error e w' ∧ k ≤ k' ∧ k' ≤ k + 1 ∧
      Written o ms k' w' ∧ w.net.accepted <+: w'.net.accepted) := by
  have hlt := (List.getElem?_eq_some_iff.mp hm).1
  obtain ⟨tail, hacc, -, htail⟩ := h.stream
  rw [htail ho, List.append_nil] at hacc
  rcases writeMessage_cases o cls ho m with ⟨w', hw, ho', ha⟩ | ⟨e, w', p, hw, hc, hp, ha⟩
  · refine .inl ⟨w', hw, ho', ⟨hlt, [], ?_, cutAt_nil hlt, fun _ => rfl⟩, ?_⟩
    · rw [ha, hacc, flatMap_take_succ hm, List.append_nil]
    · rw [ha]
      exact List.prefix_append _ _
  · have hmore : w.net.accepted <+: w'.net.accepted := by
      rw [ha]
      exact List.prefix_append _ _
    rcases Nat.eq_or_lt_of_le hp.length_le with hfull | hcut
    · obtain rfl := hp.eq_of_length hfull
      refine .inr ⟨e, w', k + 1, hw, Nat.le_succ k, Nat.le_refl _,
        ⟨hlt, [], ?_, cutAt_nil hlt, fun _ => rfl⟩, hmore⟩
      rw [ha, hacc, flatMap_take_succ hm, List.append_nil]
    · refine .inr ⟨e, w', k, hw, Nat.le_refl k, Nat.le_succ k,
        ⟨h.le, p, by rw [ha, hacc], .inr ⟨m, hm, hp, hcut⟩, fun ho' => ?_⟩, hmore⟩
      rw [hc] at ho'
      cases ho'

/-- There may be more to write. -/
theorem Written.extend (h : Written o ms k w) {ms' : List Message} (hms : ms <+: ms') :
    Written o ms' k w := by
  obtain ⟨more, rfl⟩ := hms
  obtain ⟨tail, hacc, hcut, hopen⟩ := h.stream
  have hle : k ≤ (ms ++ more).length := h.le.trans (by simp)
  refine ⟨hle, tail, by rw [hacc, List.take_append_of_le_length h.le], ?_, hopen⟩
  rcases hcut with ⟨-, rfl⟩ | ⟨m, hm, hcut⟩
  · exact cutAt_nil hle
  · refine .inr ⟨m, ?_, hcut⟩
    rw [List.getElem?_append_left (List.getElem?_eq_some_iff.mp hm).1, hm]

/-- Nobody reads what was not written. -/
theorem Taken.le_written (h : Taken o ms j w d r) (hw : Written o ms k w) : j ≤ k := by
  obtain ⟨tail, hacc, hcut, -⟩ := hw.stream
  apply (hcut.whole_iff o h.le).mp
  rw [← hacc]
  exact (List.prefix_append _ _).trans (h.stream ▸ List.take_prefix _ _)

theorem Taken.more (h : Taken o ms j w d r) (hw : w.net.accepted <+: w'.net.accepted) :
    Taken o ms j w' d r := by
  obtain ⟨p, hp⟩ := hw
  refine ⟨h.le, ?_, ?_⟩
  · rw [← hp, List.length_append]
    exact h.arrived.trans (Nat.le_add_right _ _)
  · rw [← hp, List.take_append_of_le_length h.arrived]
    exact h.stream

theorem Taken.same (h : Taken o ms j w d r) (hr : r'.net.incoming = r.net.incoming) :
    Taken o ms j w d r' := ⟨h.le, h.arrived, by rw [hr]; exact h.stream⟩

/-- Behind the messages read comes the rest of the encodings. -/
theorem Taken.isPrefix (h : Taken o ms j w d r) (hw : Written o ms k w) :
    r.net.incoming <+: (ms.drop j).flatMap (Message.wire o) := by
  have hall : (ms.take j).flatMap (Message.wire o) ++ r.net.incoming <+:
      (ms.take j).flatMap (Message.wire o) ++ (ms.drop j).flatMap (Message.wire o) := by
    rw [h.stream, ← List.flatMap_append, List.take_append_drop]
    exact (List.take_prefix _ _).trans hw.isPrefix
  exact (List.prefix_append_right_inj _).mp hall

/-- A whole message at the front is the next one, and anything less is its beginning. -/
theorem Taken.front (h : Taken o ms j w d r) (hw : Written o ms k w) :
    (∃ m rest, ms[j]? = some m ∧ r.net.incoming = m.wire o ++ rest) ∨
    (¬ Whole o r.net.incoming ∧ (r.net.incoming = [] ∨ ∃ m ∈ ms, r.net.incoming <+: m.wire o ∧
      r.net.incoming.length < (m.wire o).length)) := by
  have hpre := h.isPrefix hw
  cases hdrop : ms.drop j with
  | nil =>
    rw [hdrop, List.flatMap_nil, List.prefix_nil] at hpre
    right
    rw [hpre]
    exact ⟨fun h => absurd h.1 (by simp), .inl rfl⟩
  | cons m rest =>
    have hm : ms[j]? = some m := by
      rw [← List.head?_drop, hdrop]
      rfl
    rw [hdrop, List.flatMap_cons] at hpre
    by_cases hlt : r.net.incoming.length < (m.wire o).length
    · right
      refine ⟨?_, .inr ⟨m, List.mem_of_getElem? hm, ?_, hlt⟩⟩
      · -- a message there would have the length of this one
        intro hwhole
        obtain ⟨m', rest', hin⟩ := (whole_iff o _).mp hwhole
        obtain ⟨more, hmore⟩ := hpre
        rw [hin, List.append_assoc] at hmore
        have hlen := Message.wire_length_inj o hmore
        rw [hin, List.length_append, Message.wire_length, Message.wire_length, hlen] at hlt
        omega
      · exact List.prefix_of_prefix_length_le hpre (List.prefix_append _ _) (Nat.le_of_lt hlt)
    · left
      obtain ⟨rest', hin⟩ := List.prefix_of_prefix_length_le (List.prefix_append _ _) hpre
        (Nat.le_of_not_lt hlt)
      exact ⟨m, rest', hm, hin.symm⟩

theorem Taken.next (h : Taken o ms j w d r) {m : Message} (hm : ms[j]? = some m) {rest : List UInt8}
    (hin : r.net.incoming = m.wire o ++ rest) {n : ℕ} :
    Taken o ms (j + 1) w d (delivered r (m.wire o).length n) := by
  refine ⟨(List.getElem?_eq_some_iff.mp hm).1, h.arrived, ?_⟩
  rw [← h.stream, flatMap_take_succ hm, hin, List.append_assoc]
  simp only [delivered, hin, List.drop_left]

/-- Nothing more to read while the writer is still there: all has been read. -/
theorem Taken.all (h : Taken o ms j w d r) (hw : Written o ms k w) (ho : w.conn.isOpen = true)
    (hd : d = w.net.accepted.length) (hwhole : ¬ Whole o r.net.incoming) : j = k := by
  obtain ⟨tail, hacc, -, htail⟩ := hw.stream
  rw [htail ho, List.append_nil] at hacc
  refine Nat.le_antisymm (h.le_written hw) (Nat.le_of_not_lt fun hlt => hwhole ?_)
  -- otherwise the next message is there
  obtain ⟨n, rfl⟩ := Nat.exists_eq_add_of_lt hlt
  have hlen : j < ms.length := Nat.lt_of_lt_of_le hlt hw.le
  have hstream := h.stream
  rw [hd, List.take_length, hacc, Nat.add_assoc, List.take_add, List.flatMap_append,
    List.append_cancel_left_eq, List.drop_eq_getElem_cons hlen, List.take_succ_cons,
    List.flatMap_cons] at hstream
  exact (whole_iff o _).mpr ⟨_, _, hstream⟩

/-- All has been read, so nothing is on its way. -/
theorem Taken.drained (h : Taken o ms j w d r) (hw : Written o ms j w)
    (ho : w.conn.isOpen = true) : d = w.net.accepted.length := by
  obtain ⟨tail, hacc, -, htail⟩ := hw.stream
  rw [htail ho, List.append_nil] at hacc
  have hlen := congrArg List.length h.stream
  rw [← hacc, List.length_append, List.length_take] at hlen
  have harrived := h.arrived
  omega

def arrive (w : ConnState Pipe) (d n : ℕ) (r : ConnState Pipe) : ConnState Pipe :=
  { r with net := { r.net with incoming := r.net.incoming ++ (w.net.accepted.drop d).take n } }

theorem Taken.arrive (h : Taken o ms j w d r) (n : ℕ) :
    Taken o ms j w (min (d + n) w.net.accepted.length) (arrive w d n r) := by
  refine ⟨h.le, Nat.min_le_right _ _, ?_⟩
  rw [← List.take_eq_take_min, List.take_add, ← h.stream, List.append_assoc]
  rfl

/-- One end has begun to write `n` of the messages, the other has read `j` of them.
`alive` and `alive'` say that the programs at the two ends are still running. -/
structure Direction (o : ByteOrder) (ms : List Message) (n : ℕ) (alive : Prop)
    (w : ConnState Pipe) (d j : ℕ) (alive' : Prop) (r : ConnState Pipe) : Prop where
  written : ∃ k ≤ n, Written o ms k w ∧ (alive → k = n)
  isOpen_iff : w.conn.isOpen = true ↔ alive
  begun : n ≤ ms.length
  le : j ≤ n
  arrived : d ≤ w.net.accepted.length
  taken : alive' → Taken o ms j w d r

namespace Direction

variable {n : ℕ} {alive alive' goesOn : Prop}

theorem start (hw : w.net.accepted = []) (hr : r.net.incoming = []) (ho : w.conn.isOpen = true)
    (ha : alive) : Direction o ms 0 alive w 0 0 alive' r where
  written := ⟨0, Nat.le_refl 0, written_zero hw, fun _ => rfl⟩
  isOpen_iff := iff_of_true ho ha
  begun := Nat.zero_le _
  le := Nat.le_refl 0
  arrived := Nat.zero_le _
  taken _ := taken_zero hr

theorem deliver (h : Direction o ms n alive w d j alive' r) (count : ℕ) :
    Direction o ms n alive w (min (d + count) w.net.accepted.length) j alive'
      (arrive w d count r) where
  written := h.written
  isOpen_iff := h.isOpen_iff
  begun := h.begun
  le := h.le
  arrived := Nat.min_le_right _ _
  taken ha := (h.taken ha).arrive count

theorem extend (h : Direction o ms n alive w d j alive' r) {ms' : List Message}
    (hms : ms <+: ms') : Direction o ms' n alive w d j alive' r where
  written := by
    obtain ⟨k, hk, hw, hn⟩ := h.written
    exact ⟨k, hk, hw.extend hms, hn⟩
  isOpen_iff := h.isOpen_iff
  begun := h.begun.trans hms.length_le
  le := h.le
  arrived := h.arrived
  taken ha := by
    obtain ⟨more, rfl⟩ := hms
    have ht := h.taken ha
    exact ⟨ht.le.trans (by simp), ht.arrived, by
      rw [List.take_append_of_le_length ht.le]; exact ht.stream⟩

/-- The reading end's own writing, and the end of its program, do not matter. -/
theorem reader (h : Direction o ms n alive w d j alive' r)
    (ha : goesOn → alive' ∧ r'.net.incoming = r.net.incoming) :
    Direction o ms n alive w d j goesOn r' where
  written := h.written
  isOpen_iff := h.isOpen_iff
  begun := h.begun
  le := h.le
  arrived := h.arrived
  taken h' := (h.taken (ha h').1).same (ha h').2

/-- Neither does the writing end's own reading. -/
theorem writer (h : Direction o ms n alive w d j alive' r)
    (hacc : w'.net.accepted = w.net.accepted) (ho : w'.conn.isOpen = w.conn.isOpen)
    (ha : goesOn ↔ alive) : Direction o ms n goesOn w' d j alive' r where
  written := by
    obtain ⟨k, hk, ⟨hle, tail, hstream, hcut, htail⟩, hn⟩ := h.written
    exact ⟨k, hk, ⟨hle, tail, hacc.trans hstream, hcut, fun h => htail (ho ▸ h)⟩,
      fun h => hn (ha.mp h)⟩
  isOpen_iff := by rw [ho, h.isOpen_iff, ha]
  begun := h.begun
  le := h.le
  arrived := hacc ▸ h.arrived
  taken ha := (h.taken ha).more (hacc ▸ List.prefix_rfl)

/-- The writing program ends, perhaps in a read that threw. -/
theorem shut (h : Direction o ms n alive w d j alive' r)
    (hacc : w'.net.accepted = w.net.accepted) (hends : ¬ goesOn) :
    Direction o ms n goesOn (shut Pipe.net w') d j alive' r := by
  have hacc' : (Conn.shut Pipe.net w').net.accepted = w.net.accepted := by rw [shut_net, hacc]
  obtain ⟨k, hk, ⟨hle, tail, hstream, hcut, -⟩, -⟩ := h.written
  refine ⟨⟨k, hk, ⟨hle, tail, hacc'.trans hstream, hcut, ?_⟩, fun h => absurd h hends⟩, ?_,
    h.begun, h.le, hacc' ▸ h.arrived, fun ha => (h.taken ha).more (hacc' ▸ List.prefix_rfl)⟩
  · simp [shut_isOpen]
  · simp [shut_isOpen, hends]

theorem write_ok (h : Direction o ms n alive w d j alive' r) (ha : alive) {m : Message}
    (hm : ms[n]? = some m) {cls : ConnectionClass}
    (hrun : writeMessage o Pipe.net cls m w = .ok () w') (hon : goesOn) :
    Direction o ms (n + 1) goesOn w' d j alive' r := by
  obtain ⟨k, -, hw, hk⟩ := h.written
  obtain rfl := hk ha
  rcases hw.write (h.isOpen_iff.mpr ha) hm cls with
    ⟨w'', hok, ho, hw', hmore⟩ | ⟨e, w'', k', herr, -⟩
  · rw [hrun] at hok
    cases hok
    exact ⟨⟨k + 1, Nat.le_refl _, hw', fun _ => rfl⟩, iff_of_true ho hon, hw'.le,
      h.le.trans (Nat.le_succ _), h.arrived.trans hmore.length_le,
      fun ha => (h.taken ha).more hmore⟩
  · rw [hrun] at herr
    cases herr

theorem write_error (h : Direction o ms n alive w d j alive' r) (ha : alive) {m : Message}
    (hm : ms[n]? = some m) {cls : ConnectionClass} {e : CommException}
    (hrun : writeMessage o Pipe.net cls m w = .error e w') (hends : ¬ goesOn) :
    Direction o ms (n + 1) goesOn (Conn.shut Pipe.net w') d j alive' r := by
  obtain ⟨k, -, hw, hk⟩ := h.written
  obtain rfl := hk ha
  rcases hw.write (h.isOpen_iff.mpr ha) hm cls with
    ⟨w'', hok, -⟩ | ⟨e, w'', k', herr, hle, hle', hw', hmore⟩
  · rw [hrun] at hok
    cases hok
  · rw [hrun] at herr
    cases herr
    have hclosed := writeMessage_error_closes o cls hrun
    have hnow : Direction o ms (k + 1) False w' d j alive' r :=
      ⟨⟨k', hle', hw', False.elim⟩, by simp [hclosed], (List.getElem?_eq_some_iff.mp hm).1,
        h.le.trans (Nat.le_succ _), h.arrived.trans hmore.length_le,
        fun ha => (h.taken ha).more hmore⟩
    exact hnow.shut rfl hends

/-- A message that `readMessage` returns is the next one. -/
theorem read_ok (h : Direction o ms n alive w d j alive' r) (ha : alive')
    (ho : r.conn.isOpen = true)
    (hms : ∀ m ∈ ms, m.length.toNat < 2 ^ 31) {cls : ConnectionClass} {alloc : UInt32 → Bool}
    {fresh : Mem} {m' : Message}
    (hrun : readMessage o Pipe.net cls alloc fresh r = .ok m' r') :
    (∃ m, ms[j]? = some m ∧ m'.Same m) ∧ Direction o ms n alive w d (j + 1) True r' ∧
      r'.conn = r.conn := by
  obtain ⟨k, hk, hw, -⟩ := h.written
  have ht := h.taken ha
  rcases ht.front hw with ⟨m, rest, hm, hin⟩ | ⟨-, hpart⟩
  · have hbound := hms m (List.mem_of_getElem? hm)
    cases ha : alloc (max m.length 1) with
    | true =>
      obtain ⟨m'', n', hread, hsame⟩ := readMessage_whole o cls fresh ho (.inr hbound) hin alloc ha
      rw [hrun] at hread
      cases hread
      have hnext : Taken o ms (j + 1) w d (delivered r (m.wire o).length n') := ht.next hm hin
      exact ⟨⟨m, hm, hsame⟩, ⟨h.written, h.isOpen_iff, h.begun, (hnext.le_written hw).trans hk,
        h.arrived, fun _ => hnext⟩, rfl⟩
    | false =>
      rw [Message.wire, List.append_assoc] at hin
      obtain ⟨n', hread⟩ := readMessage_header o cls fresh ho hin alloc
      rw [hrun] at hread
      simp [ha] at hread
  · -- a stream that ends inside a message, or in front of one
    have hthrow : ∃ e s', readMessage o Pipe.net cls alloc fresh r = .error e s' := by
      rcases hpart with hnil | ⟨m, hm, hpre, hlt⟩
      · obtain ⟨e, s', hread, -⟩ := readMessage_partial o cls fresh ho
          (m := ⟨0, 0, fun _ => 0⟩) (.inr (by decide)) (by simp [hnil]) (by simp [hnil]) alloc
        exact ⟨e, s', hread⟩
      · obtain ⟨e, s', hread, -⟩ := readMessage_partial o cls fresh ho (.inr (hms m hm)) hpre hlt
          alloc
        exact ⟨e, s', hread⟩
    obtain ⟨e, s', hread⟩ := hthrow
    rw [hrun] at hread
    cases hread

/-- A whole message is returned, if there is memory for it. -/
theorem reads (h : Direction o ms n alive w d j alive' r) (hreads : alive')
    (ho : r.conn.isOpen = true) (hms : ∀ m ∈ ms, m.length.toNat < 2 ^ 31)
    (hwhole : Whole o r.net.incoming) {alloc : UInt32 → Bool} (ha : ∀ size, alloc size = true)
    (cls : ConnectionClass) (fresh : Mem) :
    ∃ m' r', readMessage o Pipe.net cls alloc fresh r = .ok m' r' := by
  obtain ⟨k, -, hw, -⟩ := h.written
  rcases (h.taken hreads).front hw with ⟨m, rest, hm, hin⟩ | ⟨hpart, -⟩
  · obtain ⟨m', n', hread, -⟩ := readMessage_whole o cls fresh ho
      (.inr (hms m (List.mem_of_getElem? hm))) hin alloc (ha _)
    exact ⟨m', _, hread⟩
  · exact absurd hwhole hpart

end Direction

end Framing

end VmPlayback
