import VmPlayback.Pipe

namespace VmPlayback

def SendOutcome.accepts (n : ℕ) : SendOutcome → ℕ
  | .full => n
  | .error k => min k n
  | .short k => min k n

def Pipe.Accepting (s : Pipe) : Prop :=
  ∀ i, s.outcome i = .full ∨ ∃ k, 0 < k ∧ s.outcome i = .short k

namespace Conn

/-- The block is on the stream, every byte once and in order, and the connection is
still open. -/
def SendsBlock (cls : ConnectionClass) (content : List UInt8) (s : ConnState Pipe) : Prop :=
  ∃ s', send Pipe.net cls content s = .ok () s' ∧
    s'.net.accepted = s.net.accepted ++ content ∧ s'.conn.isOpen = true

/-- On a transport that never fails but may accept less than it is offered, all four
classes send the block if and only if their first call gets rid of all of it. -/
theorem sends_block_iff (cls : ConnectionClass) (content : List UInt8) (s : ConnState Pipe)
    (ho : s.conn.isOpen = true) (hn : content.length < 2 ^ 31) (ha : s.net.Accepting) :
    SendsBlock cls content s ↔
      (s.net.outcome s.net.sends).accepts content.length = content.length := by
  rcases ha s.net.sends with hs | ⟨k, -, hs⟩
  · rw [hs]
    exact iff_of_true ⟨_, send_full ho hs, rfl, ho⟩ rfl
  · rw [SendsBlock, send_short ho (by omega) hs, hs, SendOutcome.accepts]
    by_cases hk : k < content.length
    · refine iff_of_false ?_ (by omega)
      rintro ⟨s', hsend, -⟩
      rw [if_pos hk] at hsend
      cases hsend
    · refine iff_of_true ⟨_, if_neg hk, ?_, ho⟩ (by omega)
      rw [Pipe.accept, List.take_of_length_le (Nat.le_of_not_lt hk)]

def oneByteFirst : ConnState Pipe :=
  ⟨⟨0, true⟩, ⟨[], fun i => if i = 0 then .short 1 else .full, 0, [], fun _ => 1, 0, false⟩⟩

theorem sends_block_later :
    SendsBlock .ftndUdpConnection [1, 2, 3]
      { oneByteFirst with net := { oneByteFirst.net with sends := 1 } } := by
  apply (sends_block_iff .ftndUdpConnection [1, 2, 3] _ rfl (by decide) ?_).mpr rfl
  intro i
  by_cases hi : i = 0
  · exact Or.inr ⟨1, Nat.one_pos, if_pos hi⟩
  · exact Or.inl (if_neg hi)

/-- Two bytes, one accepted: it is on the stream, the other is lost, and the
connection is gone. -/
theorem short_send_gives_up : ∃ s', oneByteFirst.conn.isOpen = true ∧
    oneByteFirst.net.outcome 0 = .short 1 ∧ oneByteFirst.net.outcome 1 = .full ∧
    send Pipe.net .bkndUdpConnection [1, 2] oneByteFirst =
      .error (.connection .bkndUdpConnection .sendFailed) s' ∧
    s'.net.accepted = [1] ∧ s'.conn.isOpen = false := by
  have hsend : send Pipe.net .bkndUdpConnection [1, 2] oneByteFirst = _ :=
    send_short rfl (by decide) (k := 1) rfl
  exact ⟨_, rfl, rfl, rfl, hsend.trans (if_pos (by decide)), rfl, rfl⟩

/-- The buffer holds the next bytes and only they are gone from the stream, or the
stream ends too early and the connection is closed. -/
def ReceivesBlock (cls : ConnectionClass) (buffer : Mem) (size : UInt32) (s : ConnState Pipe) :
    Prop :=
  if size.toNat ≤ s.net.incoming.length then
    ∃ k, receive Pipe.net cls buffer size s =
      .ok (buffer.store 0 (s.net.incoming.take size.toNat)) (delivered s size.toNat k)
  else
    ∃ e s', receive Pipe.net cls buffer size s = .error e s' ∧ s'.conn.isOpen = false

theorem receives_block {cls : ConnectionClass} {s : ConnState Pipe} (ho : s.conn.isOpen = true)
    {size : UInt32} (h0 : 0 < size.toNat) (hs : size.toNat < 2 ^ 31) (buffer : Mem) :
    ReceivesBlock cls buffer size s := by
  rw [ReceivesBlock]
  split
  · next hi => exact receive_enough cls ho h0 (Or.inr hs) hi buffer
  · next hi => exact receive_short cls ho (Or.inr hs) (Nat.lt_of_not_le hi) buffer

/-- An empty receive returns 0 like a stream that has ended. -/
theorem receive_zero_loop {cls : ConnectionClass} (hc : cls ≠ .bkndConnection)
    {s : ConnState Pipe} (ho : s.conn.isOpen = true) (buffer : Mem) :
    ∃ e s', receive Pipe.net cls buffer 0 s = .error e s' ∧ s'.conn.isOpen = false := by
  have hr : Pipe.net.recv s.conn.fd 0 false s.net = (0, [], s.net.consume 0) := rfl
  have hend : (receiveLoop Pipe.net s.conn.fd 0 0 buffer s.net).bytesRecv ≤ 0 := by
    have hneg : ¬ 0 < Int32.ofInt 0 := by decide
    rw [receiveLoop]
    simp only [hr, hneg, false_and, ↓reduceDIte]
    exact Int32.not_lt.mp hneg
  rw [receive_loop _ _ ho _ _ hc]
  simp only [if_pos hend]
  exact ⟨_, _, rfl, shut_isOpen _ _⟩

theorem receive_zero_waitall {s : ConnState Pipe} (ho : s.conn.isOpen = true) (buffer : Mem) :
    receive Pipe.net .bkndConnection buffer 0 s = .ok buffer (delivered s 0 (s.net.recvs + 1)) := by
  have hr : Pipe.net.recv s.conn.fd 0 true s.net = (0, [], s.net.consume 0) := rfl
  rw [receive_waitall _ ho, hr]
  simp only [Mem.store_nil]
  rfl

/-- The looping classes and the one that waits for all do the same with every
stream, every fragmentation of it and every request, if and only if the request is
not empty. -/
theorem receives_agree_iff (cls : ConnectionClass) (hc : cls ≠ .bkndConnection)
    (s : ConnState Pipe) (ho : s.conn.isOpen = true) (size : UInt32) (hs : size.toNat < 2 ^ 31)
    (buffer : Mem) :
    (ReceivesBlock .bkndConnection buffer size s ∧ ReceivesBlock cls buffer size s) ↔
      0 < size.toNat := by
  rcases Nat.eq_zero_or_pos size.toNat with h0 | h0
  · refine iff_of_false ?_ (by omega)
    obtain rfl : size = 0 := UInt32.toNat_inj.mp h0
    rintro ⟨-, h⟩
    obtain ⟨e, s', hthrow, -⟩ := receive_zero_loop hc ho buffer
    obtain ⟨k, hreturn⟩ := (if_pos (Nat.zero_le _)).mp h
    rw [hthrow] at hreturn
    cases hreturn
  · exact iff_of_true ⟨receives_block ho h0 hs buffer, receives_block ho h0 hs buffer⟩ h0

def trickle : ConnState Pipe :=
  ⟨⟨0, true⟩, ⟨[], fun _ => .full, 0, [1, 2, 3], fun _ => 1, 0, false⟩⟩

theorem receives_agree_trickle :
    ReceivesBlock .bkndConnection (fun _ => 0) 2 trickle ∧
      ReceivesBlock .ftndConnection (fun _ => 0) 2 trickle :=
  (receives_agree_iff .ftndConnection (by decide) trickle rfl 2 (by decide) _).mpr (by decide)

/-- Asked for nothing, the frontend's connection closes itself on a stream that has
more to give, where the backend's returns. -/
theorem empty_receive_differs :
    (∃ s', receive Pipe.net .bkndConnection (fun _ => 0) 0 trickle = .ok (fun _ => 0) s' ∧
      s'.conn.isOpen = true ∧ s'.net.incoming = [1, 2, 3]) ∧
    ∃ e s', receive Pipe.net .ftndConnection (fun _ => 0) 0 trickle = .error e s' ∧
      s'.conn.isOpen = false :=
  ⟨⟨_, receive_zero_waitall rfl _, rfl, rfl⟩, receive_zero_loop (by decide) rfl _⟩

end Conn

end VmPlayback
