import VmPlayback.ChangePort

namespace VmPlayback.Playback

open Exec MessageConnection

variable (o : ByteOrder)

/-- What is on the current connection: what has been processed of it and what is
still to be read. -/
def Reading (p : Port) (c : ConnState Pipe) : Prop :=
  p.sys.change = .reading ∧ c.conn.isOpen = true ∧ ∃ session sessions,
    p.sessions = session :: sessions ∧
    session.stream = session.processed.flatMap (Message.wire o) ++ c.net.incoming ∧
    ∀ m ∈ session.processed, ¬ Short m

structure PortLive (p : Port) : Prop where
  rect : p.sys.change ≠ .starting → p.sys.va.clientRect = foldRect o p.sessions
  fresh : p.sys.change = .starting → p.sessions = []
  idle : p.conn = none → p.sys.change ≠ .reading
  reading : ∀ c, p.conn = some c → Reading o p c

structure PortInv (p : Port) : Prop where
  rest : Alive Rest p.sys
  streams : ∀ session ∈ p.sessions,
    session.processed.flatMap (Message.wire o) <+: session.stream
  live : p.sys.status = .running → PortLive o p

theorem portInv_init : PortInv o .init where
  rest := rest_init
  streams := by simp [Port.init]
  live _ := ⟨fun h => absurd rfl h, fun _ => rfl, fun _ => by decide, by simp [Port.init]⟩

theorem portLive_reading {sys : State} {sessions : List Session} {c : ConnState Pipe}
    (hr : sys.va.clientRect = foldRect o sessions) (hc : Reading o ⟨sys, some c, sessions⟩ c) :
    PortLive o ⟨sys, some c, sessions⟩ := by
  refine ⟨fun _ => hr, ?_, by simp, ?_⟩
  · intro hs
    exact absurd (hs.symm.trans hc.1) (by decide)
  · rintro _ ⟨⟩
    exact hc

theorem portLive_idle {sys : State} {sessions : List Session}
    (hr : sys.va.clientRect = foldRect o sessions) (hc : sys.change = .accepting) :
    PortLive o ⟨sys, none, sessions⟩ := by
  refine ⟨fun _ => hr, ?_, ?_, by simp⟩
  · intro hs
    exact absurd (hs.symm.trans hc) (by decide)
  · intro _ hs
    exact absurd (hs.symm.trans hc) (by decide)

variable {p : Port} {c c' : ConnState Pipe} {alloc : UInt32 → Bool} {fresh : Mem}

/-- To the system a step of the port is one of its own steps, or none. -/
theorem portStep_sys (p : Port) (ev : PortEvent) :
    (portStep o p ev).sys = p.sys ∨ ∃ e, (portStep o p ev).sys = step o p.sys e := by
  cases ev with
  | start => exact Or.inr ⟨_, rfl⟩
  | accept pipe =>
    dsimp only [portStep]
    split
    · exact Or.inr ⟨_, rfl⟩
    · exact Or.inl rfl
  | acceptFailure what =>
    dsimp only [portStep]
    split
    · exact Or.inr ⟨_, rfl⟩
    · exact Or.inl rfl
  | read alloc fresh =>
    dsimp only [portStep]
    split
    · exact Or.inl rfl
    · split
      · split
        · exact Or.inr ⟨_, rfl⟩
        · exact Or.inr ⟨_, rfl⟩
      · exact Or.inl rfl
  | other e =>
    dsimp only [portStep]
    split
    · exact Or.inl rfl
    · exact Or.inr ⟨_, rfl⟩

theorem portStep_rest (hr : Alive Rest p.sys) (ev : PortEvent) :
    Alive Rest (portStep o p ev).sys := by
  rcases portStep_sys o p ev with h | ⟨e, h⟩
  · rw [h]
    exact hr
  · rw [h]
    exact rest_step o hr e

/-- A round that got a message, in full. -/
theorem portStep_read_ok (hi : PortInv o p) (hs : p.sys.status = .running) (hc : p.conn = some c)
    {m : Message}
    (hread : readMessage o Pipe.net .bkndConnection alloc fresh c = .ok m c') :
    portStep o p (.read alloc fresh) =
      if m.header ≠ 7 then ⟨quiet p.sys, some c', record m p.sessions⟩
      else if 16 ≤ m.length.toNat then
        ⟨{ quiet p.sys with va := { p.sys.va with clientRect := rectOf o m } }, some c',
          record m p.sessions⟩
      else ⟨{ quiet p.sys with change := .accepting }, none, record m p.sessions⟩ := by
  have hreading : p.sys.change = .reading := ((hi.live hs).reading c hc).1
  have hstep := step_changeMessage o hi.rest (m := m) ⟨hs, hreading⟩
  simp only [portStep, hc, hs, ↓reduceIte, hread, hstep]
  by_cases h7 : m.header ≠ 7
  · simp only [if_pos h7, quiet, hreading, ↓reduceIte]
  · by_cases h16 : 16 ≤ m.length.toNat
    · simp only [if_neg h7, if_pos h16, quiet, hreading, ↓reduceIte]
    · simp only [if_neg h7, if_neg h16, reduceCtorEq, ↓reduceIte]

/-- A round that got an exception. -/
theorem portStep_read_error (hi : PortInv o p) (hs : p.sys.status = .running)
    (hc : p.conn = some c) {e : CommException}
    (hread : readMessage o Pipe.net .bkndConnection alloc fresh c = .error e c') :
    portStep o p (.read alloc fresh) =
      ⟨{ quiet p.sys with change := .accepting }, none, p.sessions⟩ := by
  have hreading : p.sys.change = .reading := ((hi.live hs).reading c hc).1
  have hen : (Event.changeFailure (e.what 0)).Enabled p.sys := ⟨hs, Or.inr hreading⟩
  simp only [portStep, hc, hs, ↓reduceIte, hread, step, if_pos hen]
  rfl

theorem streams_record {session : Session} {sessions : List Session} {m : Message}
    {rest : List UInt8}
    (hstream : session.stream = session.processed.flatMap (Message.wire o) ++ (m.wire o ++ rest))
    (h : ∀ s ∈ session :: sessions, s.processed.flatMap (Message.wire o) <+: s.stream) :
    ∀ s ∈ record m (session :: sessions), s.processed.flatMap (Message.wire o) <+: s.stream := by
  intro s hs
  rcases List.mem_cons.mp hs with rfl | hs
  · refine ⟨rest, ?_⟩
    simp only [List.flatMap_append, List.flatMap_cons, List.flatMap_nil, List.append_nil,
      List.append_assoc, hstream]
  · exact h s (List.mem_cons_of_mem _ hs)

theorem portInv_read_ok (hi : PortInv o p) (hs : p.sys.status = .running) (hc : p.conn = some c)
    {m : Message} {rest : List UInt8} (hin : c.net.incoming = m.wire o ++ rest)
    (hopen : c'.conn.isOpen = true) (hrest : c'.net.incoming = rest)
    (hread : readMessage o Pipe.net .bkndConnection alloc fresh c = .ok m c') :
    PortInv o (portStep o p (.read alloc fresh)) := by
  obtain ⟨hreading, -, session, sessions, hsess, hstream, hshort⟩ := (hi.live hs).reading c hc
  have hrect := (hi.live hs).rect (by rw [hreading]; decide)
  rw [hin] at hstream
  have hstreams := hi.streams
  rw [hsess] at hstreams hrect
  have hfold := foldRect_record o hshort sessions m
  have hrec := streams_record o hstream hstreams
  -- the connection goes on when the message is not a short one
  have hgoes : ¬ Short m → ∀ sys : State, sys.change = .reading →
      Reading o ⟨sys, some c', record m (session :: sessions)⟩ c' := by
    intro hm sys hsys
    refine ⟨hsys, hopen, _, sessions, rfl, ?_, ?_⟩
    · simp only [List.flatMap_append, List.flatMap_cons, List.flatMap_nil, List.append_nil,
        List.append_assoc, hstream, hrest]
    · intro m' hm'
      rcases List.mem_append.mp hm' with h | h
      · exact hshort m' h
      · rw [List.mem_singleton.mp h]
        exact hm
  have hrest' : Alive Rest (portStep o p (.read alloc fresh)).sys := portStep_rest o hi.rest _
  rw [portStep_read_ok o hi hs hc hread, hsess] at hrest' ⊢
  by_cases h7 : m.header ≠ 7
  · rw [if_pos h7] at hrest' ⊢
    rw [if_neg (fun h => h7 h.1)] at hfold
    refine ⟨hrest', hrec, fun _ => portLive_reading o (hrect.trans hfold.symm) ?_⟩
    exact hgoes (fun h => h7 h.1) _ hreading
  · rw [if_neg h7] at hrest' ⊢
    by_cases h16 : 16 ≤ m.length.toNat
    · rw [if_pos h16] at hrest' ⊢
      rw [if_pos ⟨not_not.mp h7, h16⟩] at hfold
      refine ⟨hrest', hrec, fun _ => portLive_reading o hfold.symm ?_⟩
      exact hgoes (fun h => Nat.not_lt.mpr h16 h.2) _ hreading
    · rw [if_neg h16] at hrest' ⊢
      rw [if_neg (fun h => h16 h.2)] at hfold
      exact ⟨hrest', hrec, fun _ => portLive_idle o (hrect.trans hfold.symm) rfl⟩

theorem portInv_read (hi : PortInv o p) (alloc : UInt32 → Bool) (fresh : Mem) :
    PortInv o (portStep o p (.read alloc fresh)) := by
  by_cases hs : p.sys.status = .running
  · cases hc : p.conn with
    | none =>
      have hsame : portStep o p (.read alloc fresh) = p := by simp only [portStep, hc]
      rw [hsame]
      exact hi
    | some c =>
      have hopen := ((hi.live hs).reading c hc).2.1
      rcases readMessage_cases o fresh hopen alloc with
        ⟨m, rest, k, hin, -, hread⟩ | ⟨-, e, c', hread⟩
      · refine portInv_read_ok o hi hs hc hin ?_ ?_ hread
        · exact hopen
        · simp only [Conn.delivered, hin, List.drop_left]
      · have hrest := portStep_rest o hi.rest (.read alloc fresh)
        have hrect := (hi.live hs).rect (by rw [((hi.live hs).reading c hc).1]; decide)
        rw [portStep_read_error o hi hs hc hread] at hrest ⊢
        exact ⟨hrest, hi.streams, fun _ => portLive_idle o hrect rfl⟩
  · have hsame : portStep o p (.read alloc fresh) = p := by
      cases hc : p.conn with
      | none => simp only [portStep, hc]
      | some c => simp only [portStep, hc, hs, ↓reduceIte]
    rw [hsame]
    exact hi

/-- A change of the system that keeps the rectangle and the thread's place. -/
theorem PortInv.congr (hi : PortInv o p) {sys : State} (hr : Alive Rest sys)
    (h : sys.status = .running → p.sys.status = .running ∧
      sys.va.clientRect = p.sys.va.clientRect ∧ sys.change = p.sys.change) :
    PortInv o { p with sys := sys } := by
  refine ⟨hr, hi.streams, fun hs => ?_⟩
  obtain ⟨hs', hrect, hchange⟩ := h hs
  obtain ⟨h₁, h₂, h₃, h₄⟩ := hi.live hs'
  refine ⟨?_, ?_, ?_, ?_⟩
  · rwa [hrect, hchange]
  · rwa [hchange]
  · rwa [hchange]
  · intro c hc
    obtain ⟨hreading, hrest⟩ := h₄ c hc
    exact ⟨hchange.trans hreading, hrest⟩

theorem portInv_other (hi : PortInv o p) (e : Event) :
    PortInv o (portStep o p (.other e)) := by
  dsimp only [portStep]
  split
  · exact hi
  · next ht =>
    refine hi.congr o (rest_step o hi.rest e) fun hs => ?_
    by_cases he : e.Enabled p.sys
    · rcases step_move o (hi.rest he.1).1 he with hmove | hhalt
      · exact ⟨he.1, hmove.change_frame o ht⟩
      · exact absurd hs hhalt.not_running
    · rw [step_disabled o he] at hs ⊢
      exact ⟨hs, rfl, rfl⟩

theorem portInv_start (hi : PortInv o p) : PortInv o (portStep o p .start) := by
  by_cases he : Event.changeStart.Enabled p.sys
  · refine ⟨rest_step o hi.rest _, hi.streams, fun _ => ?_⟩
    have hconn : p.conn = none := by
      cases hc : p.conn with
      | none => rfl
      | some c =>
        have hreading := ((hi.live he.1).reading c hc).1
        exact absurd (he.2.symm.trans hreading) (by decide)
    have hstep : portStep o p .start = ⟨step o p.sys .changeStart, none, []⟩ := by
      simp only [portStep, hconn, (hi.live he.1).fresh he.2]
    rw [hstep]
    refine portLive_idle o ?_ ?_
    · rw [step, if_pos he]
      rfl
    · rw [step, if_pos he]
      rfl
  · refine hi.congr o (rest_step o hi.rest _) fun hs => ?_
    rw [step_disabled o he] at hs ⊢
    exact ⟨hs, rfl, rfl⟩

theorem portInv_accept (hi : PortInv o p) (pipe : Pipe) :
    PortInv o (portStep o p (.accept pipe)) := by
  dsimp only [portStep]
  split
  · next he =>
    refine ⟨rest_step o hi.rest _, ?_, fun _ => portLive_reading o ?_ ?_⟩
    · intro session hsess
      rcases List.mem_cons.mp hsess with rfl | hsess
      · exact List.nil_prefix
      · exact hi.streams session hsess
    · have hrect := (hi.live he.1).rect (by rw [he.2]; decide)
      -- a new session has no updates yet
      rw [foldRect_cons, step, if_pos he]
      exact hrect
    · refine ⟨?_, rfl, _, _, rfl, rfl, by simp⟩
      rw [step, if_pos he]
      rfl
  · exact hi

theorem portInv_acceptFailure (hi : PortInv o p) (what : String) :
    PortInv o (portStep o p (.acceptFailure what)) := by
  dsimp only [portStep]
  split
  · next hnone =>
    have hconn : p.conn = none := by simpa using hnone
    refine hi.congr o (rest_step o hi.rest _) fun hs => ?_
    by_cases he : (Event.changeFailure what).Enabled p.sys
    · -- without a connection the thread was accepting already
      have haccept : p.sys.change = .accepting :=
        he.2.resolve_right ((hi.live he.1).idle hconn)
      rw [step, if_pos he]
      exact ⟨he.1, rfl, haccept.symm⟩
    · rw [step_disabled o he] at hs ⊢
      exact ⟨hs, rfl, rfl⟩
  · exact hi

theorem portInv_step (hi : PortInv o p) (ev : PortEvent) : PortInv o (portStep o p ev) := by
  cases ev with
  | start => exact portInv_start o hi
  | accept pipe => exact portInv_accept o hi pipe
  | acceptFailure what => exact portInv_acceptFailure o hi what
  | read alloc fresh => exact portInv_read o hi alloc fresh
  | other e => exact portInv_other o hi e

/-- The invariant along the runs of the port beside the other threads. -/
theorem portInv_run (evs : List PortEvent) : PortInv o (evs.foldl (portStep o) .init) :=
  invariant_run (J := PortInv o) (fun _ ev hi => portInv_step o hi ev) (portInv_init o) evs

def RoundDone (alloc : UInt32 → Bool) (c : ConnState Pipe) (p p' : Port) : Prop :=
  (∃ (m : Message) (rest : List UInt8) (c' : ConnState Pipe),
    c.net.incoming = m.wire o ++ rest ∧ alloc (max m.length 1) = true ∧
    c'.conn = c.conn ∧ c'.net.incoming = rest ∧ p'.sessions = record m p.sessions ∧
    (m.header ≠ 7 → p'.sys.va.clientRect = p.sys.va.clientRect ∧ p'.conn = some c') ∧
    (m.header = 7 → 16 ≤ m.length.toNat →
      p'.sys.va.clientRect = rectOf o m ∧ p'.conn = some c') ∧
    (Short m → p'.sys.va.clientRect = p.sys.va.clientRect ∧ p'.conn = none)) ∨
  ((∀ (m : Message) (rest : List UInt8), c.net.incoming = m.wire o ++ rest →
      alloc (max m.length 1) = false) ∧
    p'.sys.va.clientRect = p.sys.va.clientRect ∧ p'.conn = none ∧ p'.sessions = p.sessions)

theorem roundDone_read (hi : PortInv o p) (hs : p.sys.status = .running) (hc : p.conn = some c)
    (alloc : UInt32 → Bool) (fresh : Mem) :
    RoundDone o alloc c p (portStep o p (.read alloc fresh)) := by
  have hopen := ((hi.live hs).reading c hc).2.1
  rcases readMessage_cases o fresh hopen alloc with
    ⟨m, rest, k, hin, halloc, hread⟩ | ⟨hnone, e, c', hread⟩
  · left
    have hstep := portStep_read_ok o hi hs hc hread
    refine ⟨m, rest, Conn.delivered c (m.wire o).length k, hin, halloc, rfl, ?_, ?_,
      fun h7 => ?_, fun h7 h16 => ?_, fun hm => ?_⟩
    · simp only [Conn.delivered, hin, List.drop_left]
    · rw [hstep]
      split_ifs <;> rfl
    · rw [hstep, if_pos h7]
      exact ⟨rfl, rfl⟩
    · rw [hstep, if_neg (not_not.mpr h7), if_pos h16]
      exact ⟨rfl, rfl⟩
    · rw [hstep, if_neg (not_not.mpr hm.1), if_neg (Nat.not_le.mpr hm.2)]
      exact ⟨rfl, rfl⟩
  · right
    rw [portStep_read_error o hi hs hc hread]
    exact ⟨hnone, rfl, rfl, rfl⟩

/-- While the process runs the rectangle is that of the last accepted update on any
connection, what was processed is what was sent, and each round does its part. -/
theorem client_rect_fold (evs : List PortEvent)
    (hs : (evs.foldl (portStep o) .init).sys.status = .running)
    (hstart : (evs.foldl (portStep o) .init).sys.change ≠ .starting) :
    (evs.foldl (portStep o) .init).sys.va.clientRect =
        foldRect o (evs.foldl (portStep o) .init).sessions ∧
      (∀ session ∈ (evs.foldl (portStep o) .init).sessions,
        session.processed.flatMap (Message.wire o) <+: session.stream) ∧
      ∀ c alloc fresh, (evs.foldl (portStep o) .init).conn = some c →
        RoundDone o alloc c (evs.foldl (portStep o) .init)
          (portStep o (evs.foldl (portStep o) .init) (.read alloc fresh)) := by
  have hi := portInv_run o evs
  refine ⟨(hi.live hs).rect hstart, hi.streams, fun c alloc fresh hc => ?_⟩
  exact roundDone_read o hi hs hc alloc fresh

def moved : Message :=
  ⟨7, 16, fun i => ([1, 3, 2, 4].flatMap (Scalar.int.encode .little)).getD i 0⟩

def movedThenCut : List PortEvent :=
  [.start,
    .accept ⟨[], fun _ => .full, 0, moved.wire .little ++ Message.wire .little ⟨7, 4, fun _ => 9⟩,
      fun _ => 1, 0, false⟩,
    .read (fun _ => true) (fun _ => 0), .read (fun _ => true) (fun _ => 0)]

theorem client_rect_fold_cut :
    (movedThenCut.foldl (portStep .little) .init).conn.isNone = true ∧
      foldRect .little (movedThenCut.foldl (portStep .little) .init).sessions = ⟨1, 2, 3, 4⟩ ∧
      (movedThenCut.foldl (portStep .little) .init).sys.va.clientRect = ⟨1, 2, 3, 4⟩ := by
  have hfold :
      foldRect .little (movedThenCut.foldl (portStep .little) .init).sessions = ⟨1, 2, 3, 4⟩ := by
    decide
  refine ⟨by decide, hfold, ?_⟩
  rw [(client_rect_fold .little movedThenCut (by decide) (by decide)).1, hfold]

end VmPlayback.Playback
