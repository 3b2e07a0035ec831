import VmPlayback.MessageConnection
import VmPlayback.DisplayOnce

namespace VmPlayback.Playback

open Exec MessageConnection

variable (o : ByteOrder)

structure Handled where
  message : Message
  picture : Bool

/-- A connection accepted on the port: what its other end sends until it fails, and what
has been handled so far. -/
structure DecodeSession where
  stream : List UInt8
  handled : List Handled

structure DecodePort where
  sys : State
  conn : Option (ConnState Pipe)
  sessions : List DecodeSession

inductive DecodePortEvent where
  | accept (pipe : Pipe)
  | acceptFailure (what : String)
  /-- One round of the inner loop. -/
  | read (alloc : UInt32 → Bool) (fresh : Mem) (lib : LibavOutcome)
  /-- A step of another thread. -/
  | other (e : Event)

def handle (h : Handled) : List DecodeSession → List DecodeSession
  | [] => []
  | session :: sessions => { session with handled := session.handled ++ [h] } :: sessions

def DecodePort.init : DecodePort := ⟨Playback.init, none, []⟩

/-- An exception ends the scope of `conn`, whose destructor closes the connection. -/
def decodePortStep (p : DecodePort) : DecodePortEvent → DecodePort
  | .accept pipe =>
    if Event.decodeAccept.Enabled p.sys then
      ⟨step o p.sys .decodeAccept, some ⟨⟨0, true⟩, pipe⟩, ⟨pipe.incoming, []⟩ :: p.sessions⟩
    else p
  | .acceptFailure what =>
    if p.conn.isNone then { p with sys := step o p.sys (.decodeFailure what) } else p
  | .read alloc fresh lib =>
    match p.conn with
    | none => p
    | some c =>
      if p.sys.status = .running then
        match readMessage o Pipe.net .bkndConnection alloc fresh c with
        | .error e _ => { p with sys := step o p.sys (.decodeFailure (e.what 0)), conn := none }
        | .ok m c' =>
          ⟨step o p.sys (.decodeMessage m lib), some c',
            handle ⟨m, decide (m.header = 4) && lib.picture⟩ p.sessions⟩
      else p
  | .other e => if e.thread = .decode then p else { p with sys := step o p.sys e }

def DecodeSession.taken (session : DecodeSession) : List UInt8 :=
  session.handled.flatMap fun h => h.message.wire o

def DecodeSession.codecs (session : DecodeSession) : ℕ :=
  session.handled.countP fun h => decide (h.message.header = 1)

def codecMessages (sessions : List DecodeSession) : ℕ := (sessions.map DecodeSession.codecs).sum

def DecodeSession.Pictured (session : DecodeSession) : Prop :=
  ∃ h ∈ session.handled, h.picture = true

theorem codecMessages_handle (session : DecodeSession) (sessions : List DecodeSession)
    (h : Handled) :
    codecMessages (handle h (session :: sessions)) =
      codecMessages (session :: sessions) + if h.message.header = 1 then 1 else 0 := by
  simp only [codecMessages, handle, List.map_cons, List.sum_cons, DecodeSession.codecs,
    List.countP_append, List.countP_cons, List.countP_nil, decide_eq_true_eq]
  omega

/-- Where the thread is: reading the latest connection behind what it has handled of it,
or accepting. -/
structure DecodeLive (p : DecodePort) : Prop where
  idle : p.conn = none → p.sys.decode = .accepting ∧ p.sys.va.playing = false
  reading : ∀ c, p.conn = some c → p.sys.decode = .reading ∧ c.conn.isOpen = true ∧
    ∃ session sessions, p.sessions = session :: sessions ∧
      session.stream = session.taken o ++ c.net.incoming ∧
      (p.sys.va.playing = true ↔ session.Pictured)
  contexts : p.sys.contexts = codecMessages p.sessions
  latest : ∀ c, p.sys.va.avctx = some c → c.id + 1 = p.sys.contexts
  none_yet : p.sys.va.avctx = none → p.sys.contexts = 0

structure DecodeInv (p : DecodePort) : Prop where
  rest : Alive Rest p.sys
  streams : ∀ session ∈ p.sessions, session.taken o <+: session.stream
  live : p.sys.status = .running → DecodeLive o p

theorem decodeInv_init : DecodeInv o .init where
  rest := rest_init
  streams := by simp [DecodePort.init]
  live _ := ⟨fun _ => ⟨rfl, rfl⟩, by simp [DecodePort.init], rfl, nofun, fun _ => rfl⟩

variable {o} {p : DecodePort} {c c' : ConnState Pipe}

theorem decodePortStep_sys (p : DecodePort) (ev : DecodePortEvent) :
    (decodePortStep o p ev).sys = p.sys ∨ ∃ e, (decodePortStep o p ev).sys = step o p.sys e := by
  cases ev with
  | accept pipe =>
    dsimp only [decodePortStep]
    split
    · exact .inr ⟨_, rfl⟩
    · exact .inl rfl
  | acceptFailure what =>
    dsimp only [decodePortStep]
    split
    · exact .inr ⟨_, rfl⟩
    · exact .inl rfl
  | read alloc fresh lib =>
    dsimp only [decodePortStep]
    split
    · exact .inl rfl
    · split
      · split
        · exact .inr ⟨_, rfl⟩
        · exact .inr ⟨_, rfl⟩
      · exact .inl rfl
  | other e =>
    dsimp only [decodePortStep]
    split
    · exact .inl rfl
    · exact .inr ⟨_, rfl⟩

theorem decodePortStep_rest (hr : Alive Rest p.sys) (ev : DecodePortEvent) :
    Alive Rest (decodePortStep o p ev).sys := by
  rcases decodePortStep_sys p ev with h | ⟨e, h⟩
  · rw [h]
    exact hr
  · rw [h]
    exact rest_step o hr e

theorem pictured_append (session : DecodeSession) (h : Handled) :
    DecodeSession.Pictured { session with handled := session.handled ++ [h] } ↔
      session.Pictured ∨ h.picture = true := by
  simp [DecodeSession.Pictured, or_and_right, exists_or]

/-- A message handled, in a process that survives it. -/
theorem DecodeLive.handled (hl : DecodeLive o p) (hr : Alive Rest p.sys)
    (hs : p.sys.status = .running) (hc : p.conn = some c) {m : Message} {lib : LibavOutcome}
    (hin : c.net.incoming = m.wire o ++ c'.net.incoming) (hopen : c'.conn.isOpen = true)
    (hrun : (step o p.sys (.decodeMessage m lib)).status = .running) :
    DecodeLive o ⟨step o p.sys (.decodeMessage m lib), some c',
      handle ⟨m, decide (m.header = 4) && lib.picture⟩ p.sessions⟩ := by
  obtain ⟨hreading, -, session, sessions, hsess, hstream, hplaying⟩ := hl.reading c hc
  have hstream' : session.stream =
      DecodeSession.taken o { session with handled := session.handled ++
        [⟨m, decide (m.header = 4) && lib.picture⟩] } ++ c'.net.incoming := by
    simp only [DecodeSession.taken, List.flatMap_append, List.flatMap_cons, List.flatMap_nil,
      List.append_nil, List.append_assoc, ← hin]
    exact hstream
  have hcount := codecMessages_handle session sessions
    ⟨m, decide (m.header = 4) && lib.picture⟩
  have hcontexts := hl.contexts
  rw [hsess] at hcontexts ⊢
  have he : (Event.decodeMessage m lib).Enabled p.sys := ⟨hs, hreading⟩
  rcases step_move o (hr hs).1 he with hmove | hhalt
  · generalize step o p.sys (.decodeMessage m lib) = s' at hmove
    refine ⟨by simp, ?_, ?_, ?_, ?_⟩
    · rintro _ ⟨⟩
      refine ⟨?_, hopen, _, sessions, rfl, hstream', ?_⟩
      · cases hmove with
        | otherHeader | codecOpened | packet => exact hreading
      · rw [pictured_append]
        cases hmove with
        | otherHeader h1 h4 => simp [h4, quiet, hplaying]
        | codecOpened h1 => simp [h1, withContext, hplaying]
        | packet h4 => simp [h4, decoded, hplaying]
    · rw [hcount]
      cases hmove with
      | otherHeader h1 => simp [h1, quiet, hcontexts]
      | codecOpened h1 => simp [h1, withContext, hcontexts]
      | packet h4 => simp [h4, decoded, hcontexts]
    · cases hmove with
      | otherHeader => exact hl.latest
      | codecOpened =>
        rintro _ ⟨⟩
        rfl
      | packet h4 hctx =>
        have hid := hl.latest _ hctx
        rintro _ ⟨⟩
        exact hid
    · cases hmove with
      | otherHeader => exact hl.none_yet
      | codecOpened => simp [withContext]
      | packet => simp [decoded]
  · exact absurd hrun hhalt.not_running

/-- A connection given up, or none to be had. -/
theorem DecodeLive.failed (hl : DecodeLive o p) (hs : p.sys.status = .running) (what : String) :
    DecodeLive o ⟨step o p.sys (.decodeFailure what), none, p.sessions⟩ := by
  have he : (Event.decodeFailure what).Enabled p.sys := by
    refine ⟨hs, ?_⟩
    cases hc : p.conn with
    | none => exact .inl (hl.idle hc).1
    | some c => exact .inr (hl.reading c hc).1
  rw [step, if_pos he]
  exact ⟨fun _ => ⟨rfl, rfl⟩, by simp, hl.contexts, hl.latest, hl.none_yet⟩

/-- The other threads leave the thread, the flag and the contexts alone. -/
theorem Move.decode_frame {s s' : State} {e : Event} (h : Move o s e s')
    (he : e.thread ≠ .decode) :
    s'.decode = s.decode ∧ s'.va.playing = s.va.playing ∧ s'.contexts = s.contexts ∧
      s'.va.avctx = s.va.avctx := by
  cases h with
  | decodeAccept | decodeFailure | otherHeader | codecOpened | packet => exact absurd rfl he
  | _ => exact ⟨rfl, rfl, rfl, rfl⟩

theorem DecodeLive.congr (hl : DecodeLive o p) {sys : State}
    (h : sys.decode = p.sys.decode ∧ sys.va.playing = p.sys.va.playing ∧
      sys.contexts = p.sys.contexts ∧ sys.va.avctx = p.sys.va.avctx) :
    DecodeLive o { p with sys := sys } := by
  obtain ⟨hdecode, hplaying, hcontexts, hctx⟩ := h
  refine ⟨?_, ?_, ?_, ?_, ?_⟩
  · rw [hdecode, hplaying]
    exact hl.idle
  · rw [hdecode, hplaying]
    exact hl.reading
  · rw [hcontexts]
    exact hl.contexts
  · rw [hctx, hcontexts]
    exact hl.latest
  · rw [hctx, hcontexts]
    exact hl.none_yet

theorem streams_handle {session : DecodeSession} {sessions : List DecodeSession} {h : Handled}
    (rest : List UInt8) (hstream : session.stream = session.taken o ++ (h.message.wire o ++ rest))
    (hs : ∀ s ∈ session :: sessions, s.taken o <+: s.stream) :
    ∀ s ∈ handle h (session :: sessions), s.taken o <+: s.stream := by
  intro s hmem
  rcases List.mem_cons.mp hmem with rfl | hmem
  · refine ⟨rest, ?_⟩
    simp only [DecodeSession.taken, List.flatMap_append, List.flatMap_cons, List.flatMap_nil,
      List.append_nil, List.append_assoc]
    exact hstream.symm
  · exact hs s (List.mem_cons_of_mem _ hmem)

theorem decodeInv_read (hi : DecodeInv o p) (alloc : UInt32 → Bool) (fresh : Mem)
    (lib : LibavOutcome) : DecodeInv o (decodePortStep o p (.read alloc fresh lib)) := by
  have hrest := decodePortStep_rest (o := o) hi.rest (.read alloc fresh lib)
  dsimp only [decodePortStep] at hrest ⊢
  cases hc : p.conn with
  | none => exact hi
  | some c =>
    rw [hc] at hrest
    dsimp only at hrest ⊢
    by_cases hs : p.sys.status = .running
    · rw [if_pos hs] at hrest ⊢
      obtain ⟨-, hopen, session, sessions, hsess, hstream, -⟩ := (hi.live hs).reading c hc
      rcases readMessage_cases o fresh hopen alloc with
        ⟨m, rest, k, hin, -, hread⟩ | ⟨-, e, c', hread⟩
      · rw [hread] at hrest ⊢
        have hleft : (Conn.delivered c (m.wire o).length k).net.incoming = rest := by
          simp only [Conn.delivered, hin, List.drop_left]
        refine ⟨hrest, ?_, fun hrun => (hi.live hs).handled hi.rest hs hc ?_ hopen hrun⟩
        · have hstreams := hi.streams
          rw [hsess] at hstreams ⊢
          exact streams_handle rest (by rw [hstream, hin]) hstreams
        · rw [hleft, hin]
      · rw [hread] at hrest ⊢
        exact ⟨hrest, hi.streams, fun _ => (hi.live hs).failed hs _⟩
    · rw [if_neg hs]
      exact hi

theorem decodeInv_step (hi : DecodeInv o p) (ev : DecodePortEvent) :
    DecodeInv o (decodePortStep o p ev) := by
  cases ev with
  | accept pipe =>
    dsimp only [decodePortStep]
    split
    · next he =>
      have hl := hi.live he.1
      have hidle : p.conn = none := by
        cases hc : p.conn with
        | none => rfl
        | some c => exact absurd (he.2.symm.trans (hl.reading c hc).1) (by decide)
      refine ⟨rest_step o hi.rest _, ?_, fun _ => ?_⟩
      · intro session hsess
        rcases List.mem_cons.mp hsess with rfl | hsess
        · exact List.nil_prefix
        · exact hi.streams session hsess
      · rw [step, if_pos he]
        refine ⟨by simp, ?_, ?_, hl.latest, hl.none_yet⟩
        · rintro _ ⟨⟩
          refine ⟨rfl, rfl, _, _, rfl, rfl, iff_of_false ?_ ?_⟩
          · have := (hl.idle hidle).2
            simp [exec, quiet, this]
          · simp [DecodeSession.Pictured]
        · exact hl.contexts.trans (by simp [codecMessages, DecodeSession.codecs])
    · exact hi
  | acceptFailure what =>
    dsimp only [decodePortStep]
    split
    · next hnone =>
      have hconn : p.conn = none := by simpa using hnone
      refine ⟨rest_step o hi.rest _, hi.streams, fun hrun => ?_⟩
      by_cases hs : p.sys.status = .running
      · have hfailed := (hi.live hs).failed hs what
        rwa [← hconn] at hfailed
      · rw [step_disabled o fun he => hs he.1] at hrun
        exact absurd hrun hs
    · exact hi
  | read alloc fresh lib => exact decodeInv_read hi alloc fresh lib
  | other e =>
    dsimp only [decodePortStep]
    split
    · exact hi
    · next ht =>
      refine ⟨rest_step o hi.rest e, hi.streams, fun hrun => ?_⟩
      by_cases he : e.Enabled p.sys
      · rcases step_move o (hi.rest he.1).1 he with hmove | hhalt
        · exact (hi.live he.1).congr (hmove.decode_frame ht)
        · exact absurd hrun hhalt.not_running
      · rw [step_disabled o he] at hrun ⊢
        exact (hi.live hrun).congr ⟨rfl, rfl, rfl, rfl⟩

/-- What the system holds is what was handled.  On every connection that is a beginning of
the stream; while the process runs, it plays if the connection being read has returned a
picture and at no other time, and its context is the one of the last codec message on any
connection. -/
theorem decode_port_fold (evs : List DecodePortEvent) :
    let p := evs.foldl (decodePortStep o) .init
    (∀ session ∈ p.sessions, session.taken o <+: session.stream) ∧
    (p.sys.status = .running →
      (p.sys.va.playing = true ↔ p.conn.isSome = true ∧
        ∃ session sessions, p.sessions = session :: sessions ∧ session.Pictured) ∧
      p.sys.contexts = codecMessages p.sessions ∧
      (p.sys.va.avctx = none ↔ codecMessages p.sessions = 0) ∧
      ∀ c, p.sys.va.avctx = some c → c.id + 1 = codecMessages p.sessions) := by
  intro p
  have hi : DecodeInv o p :=
    invariant_run (J := DecodeInv o) (fun _ ev h => decodeInv_step h ev) (decodeInv_init o) evs
  refine ⟨hi.streams, fun hrun => ?_⟩
  have hl := hi.live hrun
  refine ⟨?_, hl.contexts, ?_, ?_⟩
  · cases hc : p.conn with
    | none => simp [(hl.idle hc).2]
    | some c =>
      obtain ⟨-, -, session, sessions, hsess, -, hplaying⟩ := hl.reading c hc
      rw [hplaying]
      simp [hsess]
  · rw [← hl.contexts]
    constructor
    · exact hl.none_yet
    · intro h0
      cases hc : p.sys.va.avctx with
      | none => rfl
      | some c =>
        have := hl.latest c hc
        omega
  · rw [← hl.contexts]
    exact hl.latest

end VmPlayback.Playback
