import VmPlayback.MessageConnection
import VmPlayback.Transitions

namespace VmPlayback.Playback

open Exec MessageConnection

variable (o : ByteOrder)

def contentInt (m : Message) (i : ℕ) : Int32 := Scalar.int.decode o (m.content.load (4 * i) 4)

/-- Left, width, top and height, in the order of the wire. -/
def rectOf (m : Message) : Rect :=
  ⟨contentInt o m 0, contentInt o m 2, contentInt o m 1, contentInt o m 3⟩

def IntsRead (m : Message) (i : ℕ) (r : MessageReader) : Prop :=
  r.message = m ∧ r.seekPos.toNat = 4 * i

theorem readInt32_ok {m : Message} {i : ℕ} {r : MessageReader} (hr : IntsRead m i r)
    (h : 4 * (i + 1) ≤ m.length.toNat) :
    ∃ r', MessageReader.readInt32 o r = .ok (contentInt o m i) r' ∧ IntsRead m (i + 1) r' := by
  obtain ⟨rfl, hpos⟩ := hr
  have hfit : r.seekPos.toNat + Scalar.int.size ≤ r.message.length.toNat := by
    rw [hpos]
    exact h
  have hlen := r.message.length.toNat_lt
  refine ⟨r.taken (UInt32.ofNat Scalar.int.size), ?_, rfl, ?_⟩
  · rw [MessageReader.readInt32, MessageReader.readScalar_ok o .int hfit, hpos]
    rfl
  · have h4 : (UInt32.ofNat Scalar.int.size).toNat = 4 := rfl
    rw [MessageReader.taken_seekPos (by rw [h4]; omega), h4]
    omega

theorem readInt32_error {m : Message} {i : ℕ} {r : MessageReader} (hr : IntsRead m i r)
    (hi : i < 4) (h : m.length.toNat < 4 * (i + 1)) :
    MessageReader.readInt32 o r = .error ⟨"Not enough data to read."⟩ r := by
  obtain ⟨rfl, hpos⟩ := hr
  have hsize : Scalar.int.size = 4 := rfl
  exact MessageReader.readScalar_error o .int (by rw [hsize]; omega) (by rw [hsize]; omega)

theorem readClientRect_ok {m : Message} (h : 16 ≤ m.length.toNat) :
    ∃ r, readClientRect o (MessageReader.new m) = .ok (rectOf o m) r := by
  obtain ⟨r₁, hr₁, h₁⟩ := readInt32_ok o (m := m) (i := 0) (r := .new m) ⟨rfl, rfl⟩ (by omega)
  obtain ⟨r₂, hr₂, h₂⟩ := readInt32_ok o h₁ (by omega)
  obtain ⟨r₃, hr₃, h₃⟩ := readInt32_ok o h₂ (by omega)
  obtain ⟨r₄, hr₄, -⟩ := readInt32_ok o h₃ (by omega)
  refine ⟨r₄, ?_⟩
  simp only [readClientRect, run_bind, hr₁, hr₂, hr₃, hr₄, run_pure]
  rfl

/-- Any of the four reads may be the one that throws. -/
theorem readClientRect_error {m : Message} (h : m.length.toNat < 16) :
    ∃ r, readClientRect o (MessageReader.new m) = .error ⟨"Not enough data to read."⟩ r := by
  have h₀ : IntsRead m 0 (.new m) := ⟨rfl, rfl⟩
  by_cases h4 : m.length.toNat < 4 * (0 + 1)
  · exact ⟨.new m, by simp only [readClientRect, run_bind, readInt32_error o h₀ (by decide) h4]⟩
  obtain ⟨r₁, hr₁, h₁⟩ := readInt32_ok o h₀ (Nat.le_of_not_lt h4)
  by_cases h8 : m.length.toNat < 4 * (1 + 1)
  · exact ⟨r₁, by simp only [readClientRect, run_bind, hr₁, readInt32_error o h₁ (by decide) h8]⟩
  obtain ⟨r₂, hr₂, h₂⟩ := readInt32_ok o h₁ (Nat.le_of_not_lt h8)
  by_cases h12 : m.length.toNat < 4 * (2 + 1)
  · exact ⟨r₂, by
      simp only [readClientRect, run_bind, hr₁, hr₂, readInt32_error o h₂ (by decide) h12]⟩
  obtain ⟨r₃, hr₃, h₃⟩ := readInt32_ok o h₂ (Nat.le_of_not_lt h12)
  exact ⟨r₃, by
    simp only [readClientRect, run_bind, hr₁, hr₂, hr₃, readInt32_error o h₃ (by decide) h]⟩

variable {s s' : State} {e : Event}

/-- What the thread makes of a message. -/
theorem step_changeMessage (hr : Alive Rest s) {m : Message}
    (he : (Event.changeMessage m).Enabled s) :
    step o s (.changeMessage m) =
      if m.header ≠ 7 then quiet s
      else if 16 ≤ m.length.toNat then
        { quiet s with va := { s.va with clientRect := rectOf o m } }
      else { quiet s with change := .accepting } := by
  rcases step_move o (hr he.1).1 he with hmove | hhalt
  · -- whether the four reads succeed depends on the length alone
    generalize step o s (.changeMessage m) = s' at hmove
    cases hmove with
    | changeIgnored h7 => rw [if_pos h7]
    | @changeApplied _ rect r h7 hread =>
      by_cases h16 : 16 ≤ m.length.toNat
      · obtain ⟨r', hok⟩ := readClientRect_ok o h16
        rw [hread] at hok
        cases hok
        rw [if_neg (not_not.mpr h7), if_pos h16]
        rfl
      · obtain ⟨r', herr⟩ := readClientRect_error o (Nat.lt_of_not_le h16)
        rw [hread] at herr
        cases herr
    | changeShort h7 hread =>
      by_cases h16 : 16 ≤ m.length.toNat
      · obtain ⟨r', hok⟩ := readClientRect_ok o h16
        rw [hread] at hok
        cases hok
      · rw [if_neg (not_not.mpr h7), if_neg h16]
        rfl
  · cases hhalt

/-- The other threads leave the rectangle and this thread alone. -/
theorem Move.change_frame (h : Move o s e s') (he : e.thread ≠ .change) :
    s'.va.clientRect = s.va.clientRect ∧ s'.change = s.change := by
  cases h with
  | changeStart | changeAccept | changeFailure | changeIgnored | changeApplied | changeShort =>
    exact absurd rfl he
  | _ => exact ⟨rfl, rfl⟩

/-- A connection accepted on the port: what its other end sends until it fails, and
the messages processed so far. -/
structure Session where
  stream : List UInt8
  processed : List Message

structure Port where
  sys : State
  conn : Option (ConnState Pipe)
  sessions : List Session

inductive PortEvent where
  | start
  | accept (pipe : Pipe)
  | acceptFailure (what : String)
  /-- One round of the inner loop. -/
  | read (alloc : UInt32 → Bool) (fresh : Mem)
  /-- A step of another thread. -/
  | other (e : Event)

def record (m : Message) : List Session → List Session
  | [] => []
  | session :: sessions => { session with processed := session.processed ++ [m] } :: sessions

def Port.init : Port := ⟨Playback.init, none, []⟩

/-- An exception ends the scope of `conn`, whose destructor closes the connection. -/
def portStep (p : Port) : PortEvent → Port
  | .start => { p with sys := step o p.sys .changeStart }
  | .accept pipe =>
    if Event.changeAccept.Enabled p.sys then
      ⟨step o p.sys .changeAccept, some ⟨⟨0, true⟩, pipe⟩, ⟨pipe.incoming, []⟩ :: p.sessions⟩
    else p
  | .acceptFailure what =>
    if p.conn.isNone then { p with sys := step o p.sys (.changeFailure what) } else p
  | .read alloc fresh =>
    match p.conn with
    | none => p
    | some c =>
      if p.sys.status = .running then
        match readMessage o Pipe.net .bkndConnection alloc fresh c with
        | .error e _ => { p with sys := step o p.sys (.changeFailure (e.what 0)), conn := none }
        | .ok m c' =>
          let sys := step o p.sys (.changeMessage m)
          ⟨sys, if sys.change = .reading then some c' else none, record m p.sessions⟩
      else p
  | .other e => if e.thread = .change then p else { p with sys := step o p.sys e }

/-- The updates among the messages of one connection: everything after a short one
is not read any more. -/
def accepted : List Message → List Message
  | [] => []
  | m :: ms =>
    if m.header ≠ 7 then accepted ms
    else if 16 ≤ m.length.toNat then m :: accepted ms
    else []

def foldRect (sessions : List Session) : Rect :=
  (sessions.reverse.flatMap fun session => accepted session.processed).foldl
    (fun _ m => rectOf o m) initialRect

def Short (m : Message) : Prop := m.header = 7 ∧ m.length.toNat < 16

theorem accepted_append {ms : List Message} (h : ∀ m ∈ ms, ¬ Short m) (ms' : List Message) :
    accepted (ms ++ ms') = accepted ms ++ accepted ms' := by
  induction ms with
  | nil => rfl
  | cons m ms ih =>
    have ih := ih fun m hm => h m (List.mem_cons_of_mem _ hm)
    have hm := h m List.mem_cons_self
    rw [List.cons_append, accepted, accepted, ih]
    by_cases h7 : m.header ≠ 7
    · rw [if_pos h7, if_pos h7]
    · have h16 : 16 ≤ m.length.toNat :=
        Nat.le_of_not_lt fun hlt => hm ⟨not_not.mp h7, hlt⟩
      rw [if_neg h7, if_neg h7, if_pos h16, if_pos h16, List.cons_append]

/-- The latest session goes on from what the earlier ones left. -/
theorem foldRect_cons (session : Session) (sessions : List Session) :
    foldRect o (session :: sessions) =
      (accepted session.processed).foldl (fun _ m => rectOf o m) (foldRect o sessions) := by
  simp only [foldRect, List.reverse_cons, List.flatMap_append, List.flatMap_cons,
    List.flatMap_nil, List.append_nil, List.foldl_append]

/-- One more message on a connection without short ones. -/
theorem foldRect_record {session : Session} (h : ∀ m ∈ session.processed, ¬ Short m)
    (sessions : List Session) (m : Message) :
    foldRect o (record m (session :: sessions)) =
      if m.header = 7 ∧ 16 ≤ m.length.toNat then rectOf o m
      else foldRect o (session :: sessions) := by
  rw [record, foldRect_cons, foldRect_cons, accepted_append h, List.foldl_append]
  by_cases h7 : m.header = 7
  · by_cases h16 : 16 ≤ m.length.toNat
    · rw [if_pos ⟨h7, h16⟩, accepted, if_neg (not_not.mpr h7), if_pos h16]
      rfl
    · rw [if_neg (fun h => h16 h.2), accepted, if_neg (not_not.mpr h7), if_neg h16]
      rfl
  · rw [if_neg (fun h => h7 h.1), accepted, if_pos h7]
    rfl

end VmPlayback.Playback
