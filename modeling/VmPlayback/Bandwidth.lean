import VmPlayback.MessageStream
import VmPlayback.Runs

namespace VmPlayback.Bandwidth

open Exec Conn MessageConnection Framing

def testCases : List Int32 :=
  [1, 2, 3, 4, 5, 6, 7, 8, 10, 12, 14, 16, 20, 24, 28, 32,
    40, 48, 56, 64, 80, 96, 112, 128, 160, 192, 224, 256,
    320, 384, 448, 512, 640, 768, 896, 1024,
    1280, 1536, 1792, 2048, 2560, 3072, 3584, 4096,
    5120, 6144, 7168, 8192, 10240, 12288, 14336, 16384,
    20480, 24576, 28672, 32768, 40960, 49152, 57344, 65536,
    81920, 98304, 114688, 131072, 163840, 196608, 229376, 262144,
    327680, 393216, 458752, 524288, 655360, 786432, 917504, 1048576]

/-- The lengths to test, in tens of bytes, and how often each is sent. -/
structure Plan where
  cases : List Int32
  repeats : ℕ
  cases_ne : cases ≠ []
  repeats_pos : 0 < repeats
  repeats_lt : repeats < 2 ^ 31
  small : ∀ c ∈ cases, (c * 10).toUInt32.toNat < 2 ^ 31

theorem small_of_all {cases : List Int32}
    (h : (cases.all fun c => decide ((c * 10).toUInt32.toNat < 2 ^ 31)) = true) :
    ∀ c ∈ cases, (c * 10).toUInt32.toNat < 2 ^ 31 :=
  fun c hc => of_decide_eq_true (List.all_eq_true.mp h c hc)

def testPlan : Plan :=
  ⟨testCases, 100, List.cons_ne_nil _ _, by decide, by decide, small_of_all (by decide)⟩

structure Line where
  test : Int32
  latency : Int32
  bandwidth : Int64
  deriving DecidableEq

def testMessage (c : Int32) : Message := ⟨0, (c * 10).toUInt32, fun _ => 0⟩

def Plan.avgLatency (P : Plan) (totalTime : Int64) : Int32 :=
  (totalTime / Int64.ofNat P.repeats).toInt32

/-- `MSG_HEADER_SIZE` is 8; the sum is unsigned. -/
def bandwidthOf (msgLen : UInt32) (avgLatency : Int32) : Int64 :=
  (msgLen + 8).toUInt64.toInt64 * 1000000 / avgLatency.toInt64

/-- `sending`: in the middle of `writeMessage`.  `failed`: an exception has left `main`.
`crashed`: the division trapped. -/
inductive TesterPc where
  | writing
  | sending
  | reading
  | done
  | failed
  | crashed
  deriving DecidableEq

structure Tester where
  cases : List Int32
  i : ℕ
  totalTime : Int64
  report : List Line
  pc : TesterPc

/-- The rest of a round, `time` being what `tickEnd` returns. -/
def Tester.next (P : Plan) (t : Tester) (time : Int32) : Tester :=
  let totalTime := t.totalTime + time.toInt64
  if t.i + 1 < P.repeats then { t with i := t.i + 1, totalTime, pc := .writing }
  else
    match t.cases with
    | [] => { t with pc := .done }
    | c :: rest =>
      let latency := P.avgLatency totalTime
      if latency = 0 then { t with pc := .crashed }
      else
        { cases := rest
          i := 0
          totalTime := 0
          report := t.report ++ [⟨c * 10, latency, bandwidthOf (c * 10).toUInt32 latency⟩]
          pc := if rest = [] then .done else .writing }

structure Host where
  cls : ConnectionClass
  sndbuf : ℕ
  rcvbuf : ℕ

/-- What a call finds: whether there is memory for a message of some size, and what is in
memory not yet written. -/
structure Call where
  alloc : UInt32 → Bool
  fresh : Mem

def ack : Message := ⟨0, 0, fun _ => 0⟩

/-- `starting` is before the `ack` is made, `sending` in the middle of `writeMessage`. -/
inductive EchoPc where
  | starting
  | reading
  | replying
  | sending
  | ended
  deriving DecidableEq

/-- `toFront` and `toBack` count the bytes that have arrived.  The rest are ghosts: the
writes begun and the answers read by the tester, the messages read and the answers
begun by the echo. -/
structure System where
  tester : Tester
  echo : EchoPc
  back : ConnState Pipe
  front : ConnState Pipe
  toFront : ℕ
  toBack : ℕ
  sent : ℕ
  acked : ℕ
  got : List Message
  replied : ℕ

inductive Event where
  | arriveFront (n : ℕ)
  | arriveBack (n : ℕ)
  | breakdown
  | tester (time : Int32) (c : Call)
  | echo (c : Call)

/-- A send returns once its socket's buffer holds all that has not arrived. -/
def Passed (h : Host) (w : ConnState Pipe) (d : ℕ) : Prop := w.net.accepted.length ≤ d + h.sndbuf

/-- A send that waits for a peer that is gone fails. -/
def Lost (w r : ConnState Pipe) : Prop := w.net.broken = true ∨ r.conn.isOpen = false

/-- Bytes get through to a reader that waits for them, and else as long as there is room. -/
def Takes (h : Host) (waits : Prop) (r : ConnState Pipe) (n : ℕ) : Prop :=
  r.conn.isOpen = true ∧ r.net.broken = false ∧ (waits ∨ r.net.incoming.length + n ≤ h.rcvbuf)

instance (h : Host) (w : ConnState Pipe) (d : ℕ) : Decidable (Passed h w d) :=
  inferInstanceAs (Decidable (_ ≤ _))

instance (w r : ConnState Pipe) : Decidable (Lost w r) := inferInstanceAs (Decidable (_ ∨ _))

instance (h : Host) (waits : Prop) [Decidable waits] (r : ConnState Pipe) (n : ℕ) :
    Decidable (Takes h waits r n) := inferInstanceAs (Decidable (_ ∧ _ ∧ _))

variable (o : ByteOrder) (P : Plan) (b f : Host)

namespace System

variable (s : System)

/-- The destructor of `MessageConnection` deletes the connection, which closes it; the
end of a process does the same. -/
def testerStops (pc : TesterPc) (back : ConnState Pipe) : System :=
  { s with back := shut Pipe.net back, tester := { s.tester with pc } }

def echoStops (front : ConnState Pipe) : System :=
  { s with front := shut Pipe.net front, echo := .ended }

def testerWrites (c : Call) (test : Int32) : System :=
  if s.tester.i = 0 ∧ c.alloc (testMessage test).length = false then
    s.testerStops .failed s.back
  -- the bytes are on the stream at once; the call returns when there is room for them
  else match writeMessage o Pipe.net b.cls (testMessage test) s.back with
  | .ok _ back =>
    { s with back, tester := { s.tester with pc := .sending }, sent := s.sent + 1 }
  | .error _ back => { s.testerStops .failed back with sent := s.sent + 1 }

def testerSent : System :=
  if Passed b s.back s.toFront then { s with tester := { s.tester with pc := .reading } }
  else s.testerStops .failed s.back

def testerReads (time : Int32) (c : Call) : System :=
  match readMessage o Pipe.net b.cls c.alloc c.fresh s.back with
  | .ok _ back =>
    let tester := s.tester.next P time
    { s with
      back := if tester.pc = .writing then back else shut Pipe.net back
      tester
      acked := s.acked + 1 }
  | .error _ back => s.testerStops .failed back

def echoStarts (c : Call) : System :=
  if c.alloc 1 then { s with echo := .reading } else s.echoStops s.front

def echoReads (c : Call) : System :=
  match readMessage o Pipe.net f.cls c.alloc c.fresh s.front with
  | .ok msg front => { s with front, echo := .replying, got := s.got ++ [msg] }
  | .error _ front => s.echoStops front

def echoReplies : System :=
  match writeMessage o Pipe.net f.cls ack s.front with
  | .ok _ front => { s with front, echo := .sending, replied := s.replied + 1 }
  | .error _ front => { s.echoStops front with replied := s.replied + 1 }

def echoSent : System :=
  if Passed f s.front s.toBack then { s with echo := .reading } else s.echoStops s.front

def Enabled : Event → Prop
  | .arriveFront n =>
    0 < n ∧ s.toFront < s.back.net.accepted.length ∧ Takes f (s.echo = .reading) s.front n
  | .arriveBack n =>
    0 < n ∧ s.toBack < s.front.net.accepted.length ∧ Takes b (s.tester.pc = .reading) s.back n
  | .breakdown => False
  | .tester _ c =>
    s.tester.pc = .writing ∨
    (s.tester.pc = .sending ∧ (Passed b s.back s.toFront ∨ Lost s.back s.front)) ∨
    (s.tester.pc = .reading ∧
      (Readable o s.back s.front s.toBack ∨ Refused o c.alloc s.back.net.incoming))
  | .echo c =>
    s.echo = .starting ∨ s.echo = .replying ∨
    (s.echo = .sending ∧ (Passed f s.front s.toBack ∨ Lost s.front s.back)) ∨
    (s.echo = .reading ∧
      (Readable o s.front s.back s.toFront ∨ Refused o c.alloc s.front.net.incoming))

instance : ∀ e, Decidable (s.Enabled o b f e)
  | .arriveFront _ | .arriveBack _ => inferInstanceAs (Decidable (_ ∧ _ ∧ _))
  | .breakdown => isFalse id
  | .tester _ _ => inferInstanceAs (Decidable (_ ∨ _ ∨ _))
  | .echo _ => inferInstanceAs (Decidable (_ ∨ _ ∨ _ ∨ _))

def made : Event → System
  | .arriveFront n =>
    { s with
      front := arrive s.back s.toFront n s.front
      toFront := min (s.toFront + n) s.back.net.accepted.length }
  | .arriveBack n =>
    { s with
      back := arrive s.front s.toBack n s.back
      toBack := min (s.toBack + n) s.front.net.accepted.length }
  | .breakdown =>
    { s with
      back := { s.back with net := { s.back.net with broken := true } }
      front := { s.front with net := { s.front.net with broken := true } } }
  | .tester time c =>
    match s.tester.pc, s.tester.cases with
    | .writing, test :: _ => s.testerWrites o b c test
    | .sending, _ => s.testerSent b
    | .reading, _ => s.testerReads o P b time c
    | _, _ => s
  | .echo c =>
    match s.echo with
    | .starting => s.echoStarts c
    | .reading => s.echoReads o f c
    | .replying => s.echoReplies o f
    | .sending => s.echoSent f
    | .ended => s

def step : Event → System
  | .breakdown => s.made o P b f .breakdown
  | e => if s.Enabled o b f e then s.made o P b f e else s

end System

def freshEnd (outcome : ℕ → SendOutcome) (fragment : ℕ → ℕ) : ConnState Pipe :=
  ⟨⟨0, true⟩, [], outcome, 0, [], fragment, 0, false⟩

def start (back front : (ℕ → SendOutcome) × (ℕ → ℕ)) : System where
  tester := ⟨P.cases, 0, 0, [], .writing⟩
  echo := .starting
  back := freshEnd back.1 back.2
  front := freshEnd front.1 front.2
  toFront := 0
  toBack := 0
  sent := 0
  acked := 0
  got := []
  replied := 0

def Plan.messages : List Message :=
  P.cases.flatMap fun c => List.replicate P.repeats (testMessage c)

def Plan.acks : List Message := List.replicate P.messages.length ack

def TesterPc.Alive (pc : TesterPc) : Prop := pc = .writing ∨ pc = .sending ∨ pc = .reading

instance : DecidablePred TesterPc.Alive := fun _ => inferInstanceAs (Decidable (_ ∨ _ ∨ _))

variable {o P b f}

theorem length_flatMap_replicate (cs : List Int32) (n : ℕ) :
    (cs.flatMap fun c => List.replicate n (testMessage c)).length = cs.length * n := by
  simp [List.length_flatMap]

theorem Plan.messages_small : ∀ m ∈ P.messages, m.length.toNat < 2 ^ 31 := by
  intro m hm
  obtain ⟨c, hc, hm⟩ := List.mem_flatMap.mp hm
  rw [List.eq_of_mem_replicate hm]
  exact P.small c hc

theorem Plan.acks_small : ∀ m ∈ P.acks, m.length.toNat < 2 ^ 31 := by
  intro m hm
  rw [List.eq_of_mem_replicate hm]
  decide

structure Tester.At (P : Plan) (acked : ℕ) (t : Tester) (finished : List Int32) : Prop where
  cases_eq : P.cases = finished ++ t.cases
  report_eq : t.report.map Line.test = finished.map (· * 10)
  inside : t.pc.Alive → t.cases ≠ [] ∧ t.i < P.repeats ∧ acked = finished.length * P.repeats + t.i
  through : t.pc = .done → t.cases = [] ∧ acked = finished.length * P.repeats

namespace Tester.At

variable {t : Tester} {acked : ℕ} {finished : List Int32}

theorem message (h : t.At P acked finished) (ha : t.pc.Alive) {c : Int32} {rest : List Int32}
    (hc : t.cases = c :: rest) : P.messages[acked]? = some (testMessage c) := by
  obtain ⟨-, hi, hacked⟩ := h.inside ha
  have hskip := length_flatMap_replicate finished P.repeats
  rw [Plan.messages, h.cases_eq, List.flatMap_append, hc, List.flatMap_cons,
    List.getElem?_append_right (by omega), List.getElem?_append_left (by simp; omega)]
  rw [List.getElem?_replicate, if_pos (by omega)]

theorem all (h : t.At P acked finished) (hd : t.pc = .done) :
    acked = P.messages.length ∧ t.report.map Line.test = P.cases.map (· * 10) := by
  obtain ⟨hnil, hacked⟩ := h.through hd
  have hcases := h.cases_eq
  rw [hnil, List.append_nil] at hcases
  rw [hacked, Plan.messages, length_flatMap_replicate, hcases]
  exact ⟨rfl, h.report_eq⟩

/-- A case goes on, ends, or is the one in which the division traps. -/
theorem next (h : t.At P acked finished) (hr : t.pc = .reading) (time : Int32) :
    (∃ finished', (t.next P time).At P (acked + 1) finished') ∧
      ((t.next P time).pc.Alive → (t.next P time).pc = .writing) := by
  obtain ⟨hne, hi, hacked⟩ := h.inside (.inr (.inr hr))
  obtain ⟨c, rest, hcases⟩ := List.exists_cons_of_ne_nil hne
  unfold Tester.next
  dsimp only
  split
  · next hlt =>
    refine ⟨⟨finished, h.cases_eq, h.report_eq, fun _ => ⟨hne, hlt, ?_⟩, nofun⟩, fun _ => rfl⟩
    rw [hacked]
    exact Nat.add_assoc _ _ _
  · next hlast =>
    rw [hcases]
    dsimp only
    split
    · have hends : ¬ TesterPc.crashed.Alive := by decide
      refine ⟨⟨finished, ?_, h.report_eq, fun ha => absurd ha hends, nofun⟩,
        fun ha => absurd ha hends⟩
      rw [h.cases_eq, hcases]
    · have hwhole : acked + 1 = (finished ++ [c]).length * P.repeats := by
        have hi' : t.i + 1 = P.repeats := by omega
        rw [List.length_append, List.length_singleton, Nat.add_mul, Nat.one_mul, hacked]
        omega
      have hcases' : P.cases = (finished ++ [c]) ++ rest := by
        rw [h.cases_eq, hcases, List.append_assoc]
        rfl
      have hreport : ∀ latency bandwidth,
          (t.report ++ [(⟨c * 10, latency, bandwidth⟩ : Line)]).map Line.test =
            (finished ++ [c]).map (· * 10) := by simp [h.report_eq]
      by_cases hrest : rest = []
      · have hends : ¬ TesterPc.done.Alive := by decide
        rw [if_pos hrest]
        exact ⟨⟨finished ++ [c], hcases', hreport _ _, fun ha => absurd ha hends,
          fun _ => ⟨hrest, hwhole⟩⟩, fun ha => absurd ha hends⟩
      · rw [if_neg hrest]
        exact ⟨⟨finished ++ [c], hcases', hreport _ _, fun _ => ⟨hrest, P.repeats_pos, hwhole⟩,
          nofun⟩, fun _ => rfl⟩

end Tester.At

def TesterPc.Counts (pc : TesterPc) (sent acked : ℕ) : Prop :=
  match pc with
  | .writing => sent = acked
  | .sending | .reading => sent = acked + 1
  | _ => acked ≤ sent ∧ sent ≤ acked + 1

def EchoPc.Counts (pc : EchoPc) (got replied : ℕ) : Prop :=
  match pc with
  | .starting | .reading | .sending => got = replied
  | .replying => got = replied + 1
  | .ended => replied ≤ got ∧ got ≤ replied + 1

theorem TesterPc.Counts.bounds {pc : TesterPc} {sent acked : ℕ} (h : pc.Counts sent acked) :
    acked ≤ sent ∧ sent ≤ acked + 1 := by
  cases pc <;> simp only [TesterPc.Counts] at h <;> omega

theorem EchoPc.Counts.bounds {pc : EchoPc} {got replied : ℕ} (h : pc.Counts got replied) :
    replied ≤ got ∧ got ≤ replied + 1 := by
  cases pc <;> simp only [EchoPc.Counts] at h <;> omega

structure System.Inv (o : ByteOrder) (P : Plan) (s : System) : Prop where
  there : Direction o P.messages s.sent s.tester.pc.Alive s.back s.toFront s.got.length
    (s.echo ≠ .ended) s.front
  back : Direction o P.acks s.replied (s.echo ≠ .ended) s.front s.toBack s.acked
    s.tester.pc.Alive s.back
  loops : ∃ finished, s.tester.At P s.acked finished
  tester : s.tester.pc.Counts s.sent s.acked
  echo : s.echo.Counts s.got.length s.replied
  same : List.Forall₂ Message.Same s.got (P.messages.take s.got.length)

namespace System

variable {s : System} {c : Call}

theorem inv_start (back front : (ℕ → SendOutcome) × (ℕ → ℕ)) : (start P back front).Inv o P where
  there := .start rfl rfl rfl (.inl rfl)
  back := .start rfl rfl rfl nofun
  loops := ⟨[], rfl, rfl, fun _ => ⟨P.cases_ne, P.repeats_pos, by simp [start]⟩, nofun⟩
  tester := rfl
  echo := rfl
  same := .nil

theorem Inv.sent_eq (h : s.Inv o P) (hpc : s.tester.pc = .sending ∨ s.tester.pc = .reading) :
    s.sent = s.acked + 1 := by
  have hcounts := h.tester
  rcases hpc with hpc | hpc <;> rwa [hpc] at hcounts

theorem Inv.got_eq (h : s.Inv o P)
    (he : s.echo = .starting ∨ s.echo = .reading ∨ s.echo = .sending) :
    s.got.length = s.replied := by
  have hcounts := h.echo
  rcases he with he | he | he <;> rwa [he] at hcounts

theorem not_alive_failed : ¬ TesterPc.failed.Alive := by decide

/-- The end of the tester, in a call that has thrown. -/
theorem Inv.testerStops (h : s.Inv o P) {back : ConnState Pipe}
    (hacc : back.net.accepted = s.back.net.accepted) : (s.testerStops .failed back).Inv o P := by
  obtain ⟨finished, hat⟩ := h.loops
  exact ⟨h.there.shut hacc not_alive_failed,
    h.back.reader fun ha => absurd ha not_alive_failed,
    ⟨finished, hat.cases_eq, hat.report_eq, fun ha => absurd ha not_alive_failed, nofun⟩,
    h.tester.bounds, h.echo, h.same⟩

theorem Inv.testerWrites (h : s.Inv o P) (hpc : s.tester.pc = .writing) {test : Int32}
    {rest : List Int32} (hc : s.tester.cases = test :: rest) :
    (s.testerWrites o b c test).Inv o P := by
  have ha : s.tester.pc.Alive := .inl hpc
  obtain ⟨finished, hat⟩ := h.loops
  have hcounts : s.sent = s.acked := by
    have := h.tester
    rwa [hpc] at this
  have hm : P.messages[s.sent]? = some (testMessage test) := hcounts ▸ hat.message ha hc
  unfold System.testerWrites
  split
  · exact h.testerStops rfl
  · have hkeep := writeMessage_keeps o b.cls (testMessage test) s.back
    cases hrun : writeMessage o Pipe.net b.cls (testMessage test) s.back with
    | ok u back =>
      rw [hrun] at hkeep
      exact ⟨h.there.write_ok ha hm hrun (.inr (.inl rfl)),
        h.back.reader fun _ => ⟨ha, hkeep.1⟩,
        ⟨finished, hat.cases_eq, hat.report_eq, fun _ => hat.inside ha, nofun⟩,
        congrArg (· + 1) hcounts, h.echo, h.same⟩
    | error e back =>
      exact ⟨h.there.write_error ha hm hrun not_alive_failed,
        h.back.reader fun ha => absurd ha not_alive_failed,
        ⟨finished, hat.cases_eq, hat.report_eq, fun ha => absurd ha not_alive_failed, nofun⟩,
        ⟨by simp [System.testerStops]; omega, by simp [System.testerStops]; omega⟩, h.echo,
        h.same⟩

theorem Inv.testerSent (h : s.Inv o P) (hpc : s.tester.pc = .sending) :
    (s.testerSent b).Inv o P := by
  have ha : s.tester.pc.Alive := .inr (.inl hpc)
  obtain ⟨finished, hat⟩ := h.loops
  unfold System.testerSent
  split
  · exact ⟨h.there.writer rfl rfl (iff_of_true (.inr (.inr rfl)) ha),
      h.back.reader fun _ => ⟨ha, rfl⟩,
      ⟨finished, hat.cases_eq, hat.report_eq, fun _ => hat.inside ha, nofun⟩,
      h.sent_eq (.inl hpc), h.echo, h.same⟩
  · exact h.testerStops rfl

theorem Inv.testerReads (h : s.Inv o P) (hpc : s.tester.pc = .reading) (time : Int32) :
    (s.testerReads o P b time c).Inv o P := by
  have ha : s.tester.pc.Alive := .inr (.inr hpc)
  obtain ⟨finished, hat⟩ := h.loops
  have hcounts := h.sent_eq (.inr hpc)
  have hopen := h.there.isOpen_iff.mpr ha
  have hkeep := readMessage_keeps o b.cls c.alloc c.fresh s.back
  unfold System.testerReads
  cases hrun : readMessage o Pipe.net b.cls c.alloc c.fresh s.back with
  | ok m back =>
    rw [hrun] at hkeep
    obtain ⟨-, hback, hconn⟩ := h.back.read_ok ha hopen P.acks_small hrun
    obtain ⟨⟨finished', hat'⟩, hwriting⟩ := hat.next hpc time
    dsimp only
    generalize s.tester.next P time = t at hat' hwriting
    by_cases hw : t.pc = .writing
    · simp only [hw, ↓reduceIte]
      refine ⟨h.there.writer hkeep.1 (by rw [hconn]) (iff_of_true (.inl hw) ha),
        hback.reader fun _ => ⟨trivial, rfl⟩, ⟨finished', hat'⟩, ?_, h.echo, h.same⟩
      rw [hw]
      exact hcounts
    · have hends : ¬ t.pc.Alive := fun ha => hw (hwriting ha)
      simp only [hw, ↓reduceIte]
      refine ⟨h.there.shut hkeep.1 hends, hback.reader fun ha => absurd ha hends,
        ⟨finished', hat'⟩, ?_, h.echo, h.same⟩
      have hle : s.acked + 1 ≤ s.sent ∧ s.sent ≤ s.acked + 1 + 1 := by omega
      cases hp : t.pc with
      | writing => exact absurd (.inl hp) hends
      | sending => exact absurd (.inr (.inl hp)) hends
      | reading => exact absurd (.inr (.inr hp)) hends
      | _ => exact hle
  | error e back =>
    rw [hrun] at hkeep
    exact h.testerStops hkeep.1

theorem Inv.echoStops (h : s.Inv o P) {front : ConnState Pipe}
    (hacc : front.net.accepted = s.front.net.accepted) : (s.echoStops front).Inv o P :=
  ⟨h.there.reader fun h => absurd rfl h, h.back.shut hacc fun h => h rfl, h.loops, h.tester,
    h.echo.bounds, h.same⟩

/-- The echo comes back to its `readMessage`. -/
theorem Inv.echoGoesOn (h : s.Inv o P) (he : s.echo = .starting ∨ s.echo = .sending) :
    { s with echo := .reading }.Inv o P := by
  have ha : s.echo ≠ .ended := by rcases he with he | he <;> simp [he]
  exact ⟨h.there.reader fun _ => ⟨ha, rfl⟩, h.back.writer rfl rfl (iff_of_true nofun ha), h.loops,
    h.tester, h.got_eq (he.imp_right .inr), h.same⟩

theorem Inv.echoStarts (h : s.Inv o P) (he : s.echo = .starting) : (s.echoStarts c).Inv o P := by
  unfold System.echoStarts
  split
  · exact h.echoGoesOn (.inl he)
  · exact h.echoStops rfl

theorem Inv.echoSent (h : s.Inv o P) (he : s.echo = .sending) : (s.echoSent f).Inv o P := by
  unfold System.echoSent
  split
  · exact h.echoGoesOn (.inr he)
  · exact h.echoStops rfl

theorem Inv.echoReads (h : s.Inv o P) (he : s.echo = .reading) : (s.echoReads o f c).Inv o P := by
  have ha : s.echo ≠ .ended := by simp [he]
  have hcounts := h.got_eq (.inr (.inl he))
  have hopen := h.back.isOpen_iff.mpr ha
  have hkeep := readMessage_keeps o f.cls c.alloc c.fresh s.front
  unfold System.echoReads
  cases hrun : readMessage o Pipe.net f.cls c.alloc c.fresh s.front with
  | ok m front =>
    rw [hrun] at hkeep
    obtain ⟨⟨m', hm', hsame⟩, hthere, hconn⟩ :=
      h.there.read_ok ha hopen P.messages_small hrun
    refine ⟨?_, h.back.writer hkeep.1 (by rw [hconn]) (iff_of_true nofun ha), h.loops, h.tester,
      ?_, ?_⟩
    · rw [List.length_append, List.length_singleton]
      exact hthere.reader fun _ => ⟨trivial, rfl⟩
    · simp [EchoPc.Counts, hcounts]
    · rw [List.length_append, List.length_singleton, List.take_add_one, hm']
      exact List.rel_append h.same (.cons hsame .nil)
  | error e front =>
    rw [hrun] at hkeep
    exact h.echoStops hkeep.1

theorem Inv.echoReplies (h : s.Inv o P) (he : s.echo = .replying) :
    (s.echoReplies o f).Inv o P := by
  have ha : s.echo ≠ .ended := by simp [he]
  have hcounts : s.got.length = s.replied + 1 := by
    have := h.echo
    rwa [he] at this
  have hm : P.acks[s.replied]? = some ack := by
    have hle := h.there.le
    have hbegun := h.there.begun
    rw [Plan.acks, List.getElem?_replicate, if_pos (by omega)]
  have hkeep := writeMessage_keeps o f.cls ack s.front
  unfold System.echoReplies
  cases hrun : writeMessage o Pipe.net f.cls ack s.front with
  | ok u front =>
    rw [hrun] at hkeep
    exact ⟨h.there.reader fun _ => ⟨ha, hkeep.1⟩, h.back.write_ok ha hm hrun nofun, h.loops,
      h.tester, hcounts, h.same⟩
  | error e front =>
    exact ⟨h.there.reader fun h => absurd rfl h, h.back.write_error ha hm hrun fun h => h rfl,
      h.loops, h.tester, ⟨by simp [System.echoStops]; omega, by simp [System.echoStops]; omega⟩,
      h.same⟩

theorem Inv.made (h : s.Inv o P) (e : Event) : (s.made o P b f e).Inv o P := by
  cases e with
  | arriveFront n =>
    exact ⟨h.there.deliver n, h.back.writer rfl rfl Iff.rfl, h.loops, h.tester, h.echo, h.same⟩
  | arriveBack n =>
    exact ⟨h.there.writer rfl rfl Iff.rfl, h.back.deliver n, h.loops, h.tester, h.echo, h.same⟩
  | breakdown =>
    refine ⟨Direction.reader (r := s.front) ?_ fun ha => ⟨ha, rfl⟩,
      Direction.reader (r := s.back) ?_ fun ha => ⟨ha, rfl⟩, h.loops, h.tester, h.echo, h.same⟩
    · exact h.there.writer rfl rfl Iff.rfl
    · exact h.back.writer rfl rfl Iff.rfl
  | tester time c =>
    dsimp only [System.made]
    split
    · next hpc hc => exact h.testerWrites hpc hc
    · next hpc => exact h.testerSent hpc
    · next hpc => exact h.testerReads hpc time
    · exact h
  | echo c =>
    dsimp only [System.made]
    split
    · next he => exact h.echoStarts he
    · next he => exact h.echoReads he
    · next he => exact h.echoReplies he
    · next he => exact h.echoSent he
    · exact h

theorem Inv.step (h : s.Inv o P) (e : Event) : (s.step o P b f e).Inv o P := by
  cases e <;> dsimp only [System.step]
  case breakdown => exact h.made .breakdown
  all_goals
    split
    · exact h.made _
    · exact h

variable (o P b f) in
def after (back front : (ℕ → SendOutcome) × (ℕ → ℕ)) (es : List Event) : System :=
  es.foldl (System.step o P b f) (start P back front)

theorem inv_after (back front : (ℕ → SendOutcome) × (ℕ → ℕ)) (es : List Event) :
    (after o P b f back front es).Inv o P :=
  invariant_run (J := Inv o P) (fun _ e h => h.step e) (inv_start back front) es

/-- The two programs stay in step: the echo reads the messages of the plan in their order,
each once, and there is never more than one of them on its way there and back. -/
theorem run_lockstep (back front : (ℕ → SendOutcome) × (ℕ → ℕ)) (es : List Event) :
    let s := after o P b f back front es
    List.Forall₂ Message.Same s.got (P.messages.take s.got.length) ∧
    s.acked ≤ s.replied ∧ s.replied ≤ s.got.length ∧ s.got.length ≤ s.sent ∧
    s.sent ≤ s.acked + 1 := by
  have h := inv_after (o := o) (P := P) (b := b) (f := f) back front es
  exact ⟨h.same, h.back.le, h.echo.bounds.1, h.there.le, h.tester.bounds.2⟩

/-- A reader that waits for ever has a writer, and all that was sent has arrived. -/
theorem not_readable {r w : ConnState Pipe} {d : ℕ} (h : ¬ Readable o r w d)
    (hall : r.net.broken = false → d = w.net.accepted.length) :
    ¬ Whole o r.net.incoming ∧ d = w.net.accepted.length ∧ w.conn.isOpen = true := by
  obtain ⟨hwhole, hbroken, hclosed⟩ : ¬ Whole o r.net.incoming ∧ ¬ r.net.broken = true ∧
      ¬ (w.conn.isOpen = false ∧ d = w.net.accepted.length) := by
    simpa only [Readable, not_or] using h
  have hd := hall (by simpa using hbroken)
  refine ⟨hwhole, hd, ?_⟩
  cases ho : w.conn.isOpen with
  | true => rfl
  | false => exact absurd ⟨ho, hd⟩ hclosed

theorem passed_of_drained {h : Host} {w : ConnState Pipe} {d : ℕ}
    (hd : d = w.net.accepted.length) : Passed h w d := by
  unfold Passed
  omega

section stuck

variable (hstuck : ∀ e, ¬ s.Enabled o b f e)

include hstuck

theorem tester_waits (ha : s.tester.pc.Alive) :
    (s.tester.pc = .sending ∧ ¬ Passed b s.back s.toFront ∧ s.front.conn.isOpen = true) ∨
    (s.tester.pc = .reading ∧ ¬ Readable o s.back s.front s.toBack) := by
  have hwaits := hstuck (.tester 0 ⟨fun _ => true, fun _ => 0⟩)
  simp only [Enabled, Lost, not_or, not_and, Bool.not_eq_false] at hwaits
  obtain ⟨hwriting, hsending, hreading⟩ := hwaits
  rcases ha with hpc | hpc | hpc
  · exact absurd hpc hwriting
  · exact .inl ⟨hpc, (hsending hpc).1, (hsending hpc).2.2⟩
  · exact .inr ⟨hpc, (hreading hpc).1⟩

theorem echo_waits (ha : s.echo ≠ .ended) :
    (s.echo = .sending ∧ ¬ Passed f s.front s.toBack ∧ s.back.conn.isOpen = true) ∨
    (s.echo = .reading ∧ ¬ Readable o s.front s.back s.toFront) := by
  have hwaits := hstuck (.echo ⟨fun _ => true, fun _ => 0⟩)
  simp only [Enabled, Lost, not_or, not_and, Bool.not_eq_false] at hwaits
  obtain ⟨hstarting, hreplying, hsending, hreading⟩ := hwaits
  cases hpc : s.echo with
  | starting => exact absurd hpc hstarting
  | replying => exact absurd hpc hreplying
  | sending => exact .inl ⟨rfl, (hsending hpc).1, (hsending hpc).2.2⟩
  | reading => exact .inr ⟨rfl, (hreading hpc).1⟩
  | ended => exact absurd hpc ha

/-- To a reader that waits, all gets through. -/
theorem Inv.toBack_eq (h : s.Inv o P) (hpc : s.tester.pc = .reading)
    (hup : s.back.net.broken = false) : s.toBack = s.front.net.accepted.length := by
  by_contra hne
  have hopen := h.there.isOpen_iff.mpr (.inr (.inr hpc))
  exact hstuck (.arriveBack 1)
    ⟨Nat.one_pos, Nat.lt_of_le_of_ne h.back.arrived hne, hopen, hup, .inl hpc⟩

theorem Inv.toFront_eq (h : s.Inv o P) (he : s.echo = .reading)
    (hup : s.front.net.broken = false) : s.toFront = s.back.net.accepted.length := by
  by_contra hne
  have hopen := h.back.isOpen_iff.mpr (by simp [he])
  exact hstuck (.arriveFront 1)
    ⟨Nat.one_pos, Nat.lt_of_le_of_ne h.there.arrived hne, hopen, hup, .inl he⟩

end stuck

/-- The two programs never both wait for room: either the echo has read all that was sent to
it, or the tester has read all answers. -/
theorem Inv.one_passed (h : s.Inv o P) (hpc : s.tester.pc = .sending) (he : s.echo = .sending) :
    Passed b s.back s.toFront ∨ Passed f s.front s.toBack := by
  have ha : s.tester.pc.Alive := .inr (.inl hpc)
  have ha' : s.echo ≠ .ended := by simp [he]
  obtain ⟨k, -, hw, hk⟩ := h.there.written
  obtain ⟨k', -, hw', hk'⟩ := h.back.written
  rw [hk ha] at hw
  rw [hk' ha'] at hw'
  -- the message being sent has been read, or the answer being sent is an old one
  by_cases hall : s.got.length = s.sent
  · have hread := h.there.taken ha'
    rw [hall] at hread
    exact .inl (passed_of_drained (hread.drained hw (h.there.isOpen_iff.mpr ha)))
  · have hread := h.back.taken ha
    have hanswers : s.acked = s.replied := by
      have hsent := h.sent_eq (.inl hpc)
      have hreplied := h.got_eq (.inr (.inr he))
      have hgot := h.there.le
      have hacked := h.back.le
      omega
    rw [hanswers] at hread
    exact .inr (passed_of_drained (hread.drained hw' (h.back.isOpen_iff.mpr ha')))

/-- Nor do they both wait for bytes. -/
theorem Inv.one_readable (h : s.Inv o P) (hpc : s.tester.pc = .reading) (he : s.echo = .reading)
    (hd : s.toBack = s.front.net.accepted.length) (hd' : s.toFront = s.back.net.accepted.length) :
    Whole o s.back.net.incoming ∨ Whole o s.front.net.incoming := by
  have ha : s.tester.pc.Alive := .inr (.inr hpc)
  have ha' : s.echo ≠ .ended := by simp [he]
  by_contra hnone
  obtain ⟨hback, hfront⟩ := not_or.mp hnone
  obtain ⟨k, -, hw, hk⟩ := h.there.written
  have hgot := (h.there.taken ha').all hw (h.there.isOpen_iff.mpr ha) hd' hfront
  obtain ⟨k', -, hw', hk'⟩ := h.back.written
  have hacked := (h.back.taken ha).all hw' (h.back.isOpen_iff.mpr ha') hd hback
  have hk := hk ha
  have hk' := hk' ha'
  have hsent := h.sent_eq (.inr hpc)
  have hreplied := h.got_eq (.inr (.inl he))
  omega

/-- When nothing more can happen, both programs have ended. -/
theorem Inv.ended (h : s.Inv o P) (hstuck : ∀ e, ¬ s.Enabled o b f e) :
    ¬ s.tester.pc.Alive ∧ s.echo = .ended := by
  have htester : ¬ s.tester.pc.Alive := by
    intro ha
    rcases tester_waits hstuck ha with ⟨hpc, hfull, ho⟩ | ⟨hpc, hr⟩
    · rcases echo_waits hstuck (h.back.isOpen_iff.mp ho) with ⟨he, hfull', -⟩ | ⟨he, hr'⟩
      · exact (h.one_passed hpc he).elim hfull hfull'
      · -- the echo takes what the tester sends
        obtain ⟨-, hd, -⟩ := not_readable hr' (h.toFront_eq hstuck he)
        exact hfull (passed_of_drained hd)
    · obtain ⟨hwhole, hd, ho⟩ := not_readable hr (h.toBack_eq hstuck hpc)
      rcases echo_waits hstuck (h.back.isOpen_iff.mp ho) with ⟨he, hfull', -⟩ | ⟨he, hr'⟩
      · exact hfull' (passed_of_drained hd)
      · obtain ⟨hwhole', hd', -⟩ := not_readable hr' (h.toFront_eq hstuck he)
        exact (h.one_readable hpc he hd hd').elim hwhole hwhole'
  refine ⟨htester, ?_⟩
  by_contra hne
  -- the end of the tester is an end of the stream, and an error for a send
  rcases echo_waits hstuck hne with ⟨-, -, ho⟩ | ⟨he, hr⟩
  · exact htester (h.there.isOpen_iff.mp ho)
  · obtain ⟨-, -, ho⟩ := not_readable hr (h.toFront_eq hstuck he)
    exact htester (h.there.isOpen_iff.mp ho)

theorem Enabled.alive {time : Int32} (h : s.Enabled o b f (.tester time c)) :
    s.tester.pc.Alive := h.imp id (Or.imp And.left And.left)

end System

/-- Events of a network that works, memory that does not run out and a clock that moves on. -/
def Event.Fine : Event → Prop
  | .arriveFront _ | .arriveBack _ => True
  | .breakdown => False
  | .tester time c => 0 < time ∧ ∀ size, c.alloc size = true
  | .echo c => ∀ size, c.alloc size = true

def Timed (totalTime : Int64) (i : ℕ) : Prop :=
  (i : ℤ) ≤ totalTime.toInt ∧ totalTime.toInt ≤ i * (2 ^ 31 - 1)

theorem timed_zero : Timed 0 0 := ⟨by decide, by decide⟩

theorem Timed.add {totalTime : Int64} {i : ℕ} (h : Timed totalTime i) (hi : i < 2 ^ 31)
    {time : Int32} (ht : 0 < time) : Timed (totalTime + time.toInt64) (i + 1) := by
  obtain ⟨hlow, hhigh⟩ := h
  have hpos : 0 < time.toInt := by simpa using Int32.lt_iff_toInt_lt.mp ht
  have hmax := time.toInt_lt
  have hsum : (totalTime + time.toInt64).toInt = totalTime.toInt + time.toInt := by
    rw [Int64.toInt_add, Int32.toInt_toInt64]
    apply Int.bmod_eq_of_le <;> omega
  rw [Timed, hsum]
  omega

theorem Timed.avgLatency_ne_zero {totalTime : Int64} (h : Timed totalTime P.repeats) :
    P.avgLatency totalTime ≠ 0 := by
  obtain ⟨hlow, hhigh⟩ := h
  have hpos : (0 : ℤ) < P.repeats := by exact_mod_cast P.repeats_pos
  have hlt := P.repeats_lt
  have hrep : (Int64.ofNat P.repeats).toInt = P.repeats := Int64.toInt_ofNat_of_lt (by omega)
  -- the quotient is between 1 and the longest time, so nothing is cut off
  have hone : 1 ≤ totalTime.toInt / P.repeats := Int.le_ediv_of_mul_le hpos (by omega)
  have hmost : totalTime.toInt / P.repeats ≤ 2 ^ 31 - 1 :=
    Int.ediv_le_of_le_mul hpos (by rw [mul_comm]; exact hhigh)
  have hwide : (totalTime.toInt / P.repeats).bmod (2 ^ 64) = totalTime.toInt / P.repeats := by
    apply Int.bmod_eq_of_le <;> omega
  have hnarrow : (totalTime.toInt / P.repeats).bmod (2 ^ 32) = totalTime.toInt / P.repeats := by
    apply Int.bmod_eq_of_le <;> omega
  intro hzero
  have hlatency := congrArg Int32.toInt hzero
  rw [Plan.avgLatency, Int64.toInt_toInt32, Int64.toInt_div, hrep,
    Int.tdiv_eq_ediv_of_nonneg (by omega), hwide, hnarrow, Int32.toInt_zero] at hlatency
  omega

namespace System

variable {s : System} {c : Call}

structure Fine (P : Plan) (s : System) : Prop where
  full : (∀ k, s.back.net.outcome k = .full) ∧ ∀ k, s.front.net.outcome k = .full
  up : s.back.net.broken = false ∧ s.front.net.broken = false
  tester : s.tester.pc.Alive ∨ s.tester.pc = .done
  timed : s.tester.pc.Alive → Timed s.tester.totalTime s.tester.i
  echo : s.echo = .ended → ¬ s.tester.pc.Alive

theorem Fine.testerWrites (hf : s.Fine P) (h : s.Inv o P) (hpc : s.tester.pc = .writing)
    (halloc : ∀ size, c.alloc size = true) (test : Int32) :
    (s.testerWrites o b c test).Fine P := by
  have ha : s.tester.pc.Alive := .inl hpc
  obtain ⟨back, hrun⟩ := writeMessage_full o b.cls (h.there.isOpen_iff.mpr ha) hf.full.1
    (testMessage test)
  have hkeep := writeMessage_keeps o b.cls (testMessage test) s.back
  unfold System.testerWrites
  rw [if_neg (by simp [halloc])]
  rw [hrun] at hkeep ⊢
  obtain ⟨-, hout, hbroken⟩ := hkeep
  exact ⟨⟨fun k => (congrFun hout k).trans (hf.full.1 k), hf.full.2⟩,
    ⟨hbroken.trans hf.up.1, hf.up.2⟩, .inl (.inr (.inl rfl)), fun _ => hf.timed ha,
    fun he => absurd ha (hf.echo he)⟩

/-- While the test goes on, both ends are there. -/
theorem Fine.not_lost (hf : s.Fine P) (h : s.Inv o P) (ha : s.tester.pc.Alive) :
    ¬ Lost s.back s.front ∧ ¬ Lost s.front s.back := by
  have hfront := h.back.isOpen_iff.mpr fun he => hf.echo he ha
  have hback := h.there.isOpen_iff.mpr ha
  simp [Lost, hf.up, hfront, hback]

/-- Then what can be read is a message. -/
theorem Fine.whole (hf : s.Fine P) (h : s.Inv o P) (ha : s.tester.pc.Alive) :
    (Readable o s.back s.front s.toBack → Whole o s.back.net.incoming) ∧
      (Readable o s.front s.back s.toFront → Whole o s.front.net.incoming) := by
  have hfront := h.back.isOpen_iff.mpr fun he => hf.echo he ha
  have hback := h.there.isOpen_iff.mpr ha
  simp [Readable, hf.up, hfront, hback]

theorem Fine.testerSent (hf : s.Fine P) (h : s.Inv o P) (hpc : s.tester.pc = .sending)
    (hr : Passed b s.back s.toFront ∨ Lost s.back s.front) : (s.testerSent b).Fine P := by
  have ha : s.tester.pc.Alive := .inr (.inl hpc)
  have hpassed := hr.resolve_right (hf.not_lost h ha).1
  unfold System.testerSent
  rw [if_pos hpassed]
  exact ⟨hf.full, hf.up, .inl (.inr (.inr rfl)), fun _ => hf.timed ha,
    fun he => absurd ha (hf.echo he)⟩

/-- The round is over, and the case with it if it was the last one. -/
theorem Fine.next (hf : s.Fine P) (h : s.Inv o P) (hpc : s.tester.pc = .reading) {time : Int32}
    (ht : 0 < time) :
    ((s.tester.next P time).pc.Alive ∨ (s.tester.next P time).pc = .done) ∧
      ((s.tester.next P time).pc.Alive →
        Timed (s.tester.next P time).totalTime (s.tester.next P time).i) := by
  have ha : s.tester.pc.Alive := .inr (.inr hpc)
  obtain ⟨finished, hat⟩ := h.loops
  obtain ⟨hne, hi, -⟩ := hat.inside ha
  obtain ⟨test, rest, hcases⟩ := List.exists_cons_of_ne_nil hne
  have hlt := P.repeats_lt
  have htimed := (hf.timed ha).add (by omega) ht
  unfold Tester.next
  dsimp only
  split
  · exact ⟨.inl (.inl rfl), fun _ => htimed⟩
  · have hlast : s.tester.i + 1 = P.repeats := by omega
    rw [hlast] at htimed
    rw [hcases]
    simp only [if_neg htimed.avgLatency_ne_zero]
    refine ⟨?_, fun _ => timed_zero⟩
    split
    · exact .inr rfl
    · exact .inl (.inl rfl)

theorem Fine.testerReads (hf : s.Fine P) (h : s.Inv o P) (hpc : s.tester.pc = .reading)
    (halloc : ∀ size, c.alloc size = true) (hr : Readable o s.back s.front s.toBack)
    {time : Int32} (ht : 0 < time) : (s.testerReads o P b time c).Fine P := by
  have ha : s.tester.pc.Alive := .inr (.inr hpc)
  have hwhole := (hf.whole h ha).1 hr
  obtain ⟨m, back, hrun⟩ := h.back.reads ha (h.there.isOpen_iff.mpr ha) P.acks_small hwhole halloc
    b.cls c.fresh
  have hkeep := readMessage_keeps o b.cls c.alloc c.fresh s.back
  obtain ⟨hnext, htimed⟩ := hf.next h hpc ht
  unfold System.testerReads
  rw [hrun] at hkeep ⊢
  obtain ⟨-, hout, hbroken⟩ := hkeep
  dsimp only
  generalize s.tester.next P time = t at hnext htimed
  have hnet : (if t.pc = .writing then back else shut Pipe.net back).net = back.net := by
    split
    · rfl
    · exact shut_net back
  refine ⟨⟨fun k => ?_, hf.full.2⟩, ⟨?_, hf.up.2⟩, hnext, htimed,
    fun he => absurd ha (hf.echo he)⟩
  · rw [hnet]
    exact (congrFun hout k).trans (hf.full.1 k)
  · rw [hnet]
    exact hbroken.trans hf.up.1

theorem Fine.echoStops (hf : s.Fine P) (hends : ¬ s.tester.pc.Alive) {front : ConnState Pipe}
    (hout : front.net.outcome = s.front.net.outcome)
    (hbroken : front.net.broken = s.front.net.broken) : (s.echoStops front).Fine P := by
  refine ⟨⟨hf.full.1, fun k => ?_⟩, ⟨hf.up.1, ?_⟩, hf.tester, hf.timed, fun _ => hends⟩
  · simp only [System.echoStops, shut_net]
    exact (congrFun hout k).trans (hf.full.2 k)
  · simp only [System.echoStops, shut_net]
    exact hbroken.trans hf.up.2

theorem Fine.echoReads (hf : s.Fine P) (h : s.Inv o P) (he : s.echo = .reading)
    (halloc : ∀ size, c.alloc size = true) (hr : Readable o s.front s.back s.toFront) :
    (s.echoReads o f c).Fine P := by
  have ha : s.echo ≠ .ended := by simp [he]
  have hkeep := readMessage_keeps o f.cls c.alloc c.fresh s.front
  unfold System.echoReads
  cases hrun : readMessage o Pipe.net f.cls c.alloc c.fresh s.front with
  | ok m front =>
    rw [hrun] at hkeep
    obtain ⟨-, hout, hbroken⟩ := hkeep
    exact ⟨⟨hf.full.1, fun k => (congrFun hout k).trans (hf.full.2 k)⟩,
      ⟨hf.up.1, hbroken.trans hf.up.2⟩, hf.tester, hf.timed, nofun⟩
  | error e front =>
    -- the read fails at the end of the stream only
    have hends : ¬ s.tester.pc.Alive := by
      intro halive
      obtain ⟨m, front', hok⟩ := h.there.reads ha (h.back.isOpen_iff.mpr ha) P.messages_small
        ((hf.whole h halive).2 hr) halloc f.cls c.fresh
      rw [hrun] at hok
      cases hok
    rw [hrun] at hkeep
    exact hf.echoStops hends hkeep.2.1 hkeep.2.2

theorem Fine.echoReplies (hf : s.Fine P) (h : s.Inv o P) (he : s.echo = .replying) :
    (s.echoReplies o f).Fine P := by
  have ha : s.echo ≠ .ended := by simp [he]
  obtain ⟨front, hrun⟩ := writeMessage_full o f.cls (h.back.isOpen_iff.mpr ha) hf.full.2 ack
  have hkeep := writeMessage_keeps o f.cls ack s.front
  unfold System.echoReplies
  rw [hrun] at hkeep ⊢
  obtain ⟨-, hout, hbroken⟩ := hkeep
  exact ⟨⟨hf.full.1, fun k => (congrFun hout k).trans (hf.full.2 k)⟩,
    ⟨hf.up.1, hbroken.trans hf.up.2⟩, hf.tester, hf.timed, nofun⟩

/-- The answer that is not sent is one that nobody waits for. -/
theorem Fine.echoSent (hf : s.Fine P) (h : s.Inv o P)
    (hr : Passed f s.front s.toBack ∨ Lost s.front s.back) : (s.echoSent f).Fine P := by
  unfold System.echoSent
  split
  · exact ⟨hf.full, hf.up, hf.tester, hf.timed, nofun⟩
  · next hfull =>
    have hlost := hr.resolve_left hfull
    exact hf.echoStops (fun ha => (hf.not_lost h ha).2 hlost) rfl rfl

theorem not_refused (halloc : ∀ size, c.alloc size = true) (bytes : List UInt8) :
    ¬ Refused o c.alloc bytes := by
  rintro ⟨-, hrefused⟩
  rw [halloc] at hrefused
  cases hrefused

theorem Fine.made (hs : s.Fine P) (h : s.Inv o P) {e : Event} (he : e.Fine)
    (hen : s.Enabled o b f e) : (s.made o P b f e).Fine P := by
  cases e with
  | arriveFront n | arriveBack n => exact ⟨hs.full, hs.up, hs.tester, hs.timed, hs.echo⟩
  | breakdown => exact absurd he id
  | tester time c =>
    obtain ⟨ht, halloc⟩ := he
    obtain ⟨finished, hat⟩ := h.loops
    obtain ⟨test, rest, hcases⟩ := List.exists_cons_of_ne_nil (hat.inside hen.alive).1
    dsimp only [System.made]
    rcases hen with hpc | ⟨hpc, hr⟩ | ⟨hpc, hr⟩ <;> rw [hpc, hcases]
    · exact hs.testerWrites h hpc halloc test
    · exact hs.testerSent h hpc hr
    · exact hs.testerReads h hpc halloc (hr.resolve_right (not_refused halloc _)) ht
  | echo c =>
    dsimp only [System.made]
    rcases hen with hpc | hpc | ⟨hpc, hr⟩ | ⟨hpc, hr⟩ <;> rw [hpc] <;> dsimp only
    · unfold System.echoStarts
      rw [if_pos (he 1)]
      exact ⟨hs.full, hs.up, hs.tester, hs.timed, nofun⟩
    · exact hs.echoReplies h hpc
    · exact hs.echoSent h hr
    · exact hs.echoReads h hpc he (hr.resolve_right (not_refused he _))

theorem Fine.step (hs : s.Fine P) (h : s.Inv o P) {e : Event} (he : e.Fine) :
    (s.step o P b f e).Fine P := by
  cases e <;> dsimp only [System.step]
  case breakdown => exact absurd he id
  all_goals
    split
    · next hen => exact hs.made h he hen
    · exact hs

def narrow : Host := ⟨.bkndConnection, 4, 4⟩

end System

end VmPlayback.Bandwidth
