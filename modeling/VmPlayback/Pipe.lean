import VmPlayback.Connection

namespace VmPlayback

/-- What becomes of one send: accepted in full, reported as an error after a
prefix was accepted, or reported as the length of the accepted prefix. -/
inductive SendOutcome where
  | full
  | error (accepted : ℕ)
  | short (count : ℕ)
  deriving DecidableEq, Repr

/-- One end of a connection.  The outcomes of the calls to come are chosen by
`outcome` and `fragment`, by call number; `broken` tells an error from the end of
the stream once `incoming` has run out. -/
structure Pipe where
  accepted : List UInt8
  outcome : ℕ → SendOutcome
  sends : ℕ
  incoming : List UInt8
  fragment : ℕ → ℕ
  recvs : ℕ
  broken : Bool

namespace Pipe

def accept (s : Pipe) (bs : List UInt8) : Pipe :=
  { s with accepted := s.accepted ++ bs, sends := s.sends + 1 }

def consume (s : Pipe) (n : ℕ) : Pipe :=
  { s with incoming := s.incoming.drop n, recvs := s.recvs + 1 }

def send (bs : List UInt8) (s : Pipe) : Int × Pipe :=
  match s.outcome s.sends with
  | .full => (bs.length, s.accept bs)
  | .error k => (-1, s.accept (bs.take k))
  | .short k => ((bs.take k).length, s.accept (bs.take k))

/-- With `MSG_WAITALL` all that was asked for or all that is left, otherwise the
next fragment: at least one byte, at most what was asked for and what is left. -/
def available (s : Pipe) (size : ℕ) (waitall : Bool) : ℕ :=
  let most := min size s.incoming.length
  if waitall then most else max 1 (min (s.fragment s.recvs) most)

def recv (size : UInt32) (waitall : Bool) (s : Pipe) : Int × List UInt8 × Pipe :=
  if size = 0 then (0, [], s.consume 0)
  else if s.incoming = [] then (if s.broken then -1 else 0, [], s.consume 0)
  else
    let n := s.available size.toNat waitall
    (n, s.incoming.take n, s.consume n)

def net : Net Pipe where
  send _ := send
  recv _ := recv
  close _ s := s
  lastError s := if s.broken then "Connection was broken." else "Success"

theorem available_bounds (s : Pipe) {size : ℕ} (waitall : Bool) (h0 : 0 < size)
    (hi : s.incoming ≠ []) :
    1 ≤ s.available size waitall ∧ s.available size waitall ≤ size ∧
      s.available size waitall ≤ s.incoming.length := by
  have hl : 0 < s.incoming.length := List.length_pos_iff.mpr hi
  unfold available
  cases waitall
  · simp only [Bool.false_eq_true, ↓reduceIte]
    omega
  · simp only [↓reduceIte]
    omega

theorem ne_zero_of_toNat_pos {size : UInt32} (h : 0 < size.toNat) : size ≠ 0 := by
  rintro rfl
  exact absurd h (by decide)

theorem recv_some (s : Pipe) {size : UInt32} {waitall : Bool} (h0 : 0 < size.toNat)
    (hi : s.incoming ≠ []) :
    recv size waitall s = (((s.available size.toNat waitall : ℕ) : Int),
      s.incoming.take (s.available size.toNat waitall),
      s.consume (s.available size.toNat waitall)) := by
  rw [recv, if_neg (ne_zero_of_toNat_pos h0), if_neg hi]

theorem recv_none (s : Pipe) {size : UInt32} {waitall : Bool} (h0 : 0 < size.toNat)
    (hi : s.incoming = []) :
    recv size waitall s = (if s.broken then -1 else 0, [], s.consume 0) := by
  rw [recv, if_neg (ne_zero_of_toNat_pos h0), if_pos hi]

end Pipe

namespace Conn

theorem ofInt_natCast_pos {n : ℕ} (h0 : 0 < n) (h : n < 2 ^ 31) : 0 < Int32.ofInt (n : Int) := by
  rw [Int32.lt_iff_toInt_lt, Int32.ofInt_eq_ofNat, Int32.toInt_ofNat_of_lt h, Int32.toInt_zero]
  exact_mod_cast h0

theorem ofInt_natCast_toNat {n : ℕ} (h : n < 2 ^ 31) : (Int32.ofInt (n : Int)).toInt.toNat = n := by
  rw [Int32.ofInt_eq_ofNat, Int32.toInt_ofNat_of_lt h]
  rfl

theorem ofInt_natCast_toUInt32 {n : ℕ} (h : n < 2 ^ 31) :
    (Int32.ofInt (n : Int)).toUInt32.toNat = n := by
  rw [Int32.ofInt_eq_ofNat, Int32.toUInt32_ofNat', UInt32.toNat_ofNat']
  omega

theorem sub_ofNat_toNat {size : UInt32} {n : ℕ} (h : n ≤ size.toNat) :
    (size - UInt32.ofNat n).toNat = size.toNat - n := by
  have hsize := size.toNat_lt
  have hn : (UInt32.ofNat n).toNat = n := by
    rw [UInt32.toNat_ofNat']
    omega
  have hle : UInt32.ofNat n ≤ size := by
    rw [UInt32.le_iff_toNat_le, hn]
    exact h
  rw [UInt32.toNat_sub_of_le _ _ hle, hn]

theorem receiveLoop_none (fd : Sock) (content : ℕ) {size : UInt32} (buffer : Mem) (s : Pipe)
    (h0 : 0 < size.toNat) (hi : s.incoming = []) :
    (receiveLoop Pipe.net fd content size buffer s).bytesRecv ≤ 0 := by
  have hr : Pipe.net.recv fd size false s = (if s.broken then -1 else 0, [], s.consume 0) :=
    s.recv_none h0 hi
  have hneg : ¬ 0 < Int32.ofInt (if s.broken then -1 else 0) := by cases s.broken <;> decide
  rw [receiveLoop]
  simp only [hr, hneg, false_and, ↓reduceDIte]
  exact Int32.not_lt.mp hneg

/-- One turn of the loop on a stream that still has bytes: the fragment it gets is
either the rest of what was asked for, or the loop goes on behind it. -/
theorem receiveLoop_some (fd : Sock) (content : ℕ) {size : UInt32} (buffer : Mem) (s : Pipe)
    (h0 : 0 < size.toNat) (hs : size.toNat < 2 ^ 31) (hi : s.incoming ≠ []) :
    ∃ n, 0 < n ∧ n ≤ size.toNat ∧ n ≤ s.incoming.length ∧
      receiveLoop Pipe.net fd content size buffer s =
        if n < size.toNat then
          receiveLoop Pipe.net fd (content + n) (size - UInt32.ofNat n)
            (buffer.store content (s.incoming.take n)) (s.consume n)
        else
          ⟨Int32.ofNat n, content, size, buffer.store content (s.incoming.take n),
            s.consume n⟩ := by
  obtain ⟨h1, h2, h3⟩ := s.available_bounds false h0 hi
  have hr : Pipe.net.recv fd size false s = (((s.available size.toNat false : ℕ) : Int), _, _) :=
    s.recv_some h0 hi
  generalize s.available size.toNat false = n at h1 h2 h3 hr
  have hn : n < 2 ^ 31 := by omega
  have hc : (0 < Int32.ofInt (n : Int) ∧ (Int32.ofInt (n : Int)).toUInt32 < size) ↔
      n < size.toNat := by
    rw [UInt32.lt_iff_toNat_lt, ofInt_natCast_toUInt32 hn]
    exact and_iff_right (ofInt_natCast_pos h1 hn)
  refine ⟨n, h1, h2, h3, ?_⟩
  rw [receiveLoop]
  simp only [hr, hc, ofInt_natCast_toNat hn]
  by_cases hlt : n < size.toNat
  · simp only [hlt, ↓reduceDIte, ↓reduceIte, Int32.ofInt_eq_ofNat, Int32.toUInt32_ofNat']
  · simp only [hlt, ↓reduceDIte, ↓reduceIte, Int32.ofInt_eq_ofNat]

/-- With enough bytes in the stream the loop fills the buffer with the next ones,
however they are cut into fragments. -/
theorem receiveLoop_enough (fd : Sock) (content : ℕ) {size : UInt32} (buffer : Mem) (s : Pipe)
    (h0 : 0 < size.toNat) (hs : size.toNat < 2 ^ 31) (hi : size.toNat ≤ s.incoming.length) :
    ∃ e, receiveLoop Pipe.net fd content size buffer s = e ∧ 0 < e.bytesRecv ∧
      e.buffer = buffer.store content (s.incoming.take size.toNat) ∧
      ∃ k, e.net = { s with incoming := s.incoming.drop size.toNat, recvs := k } := by
  -- strong induction on what is left; a turn leaves the prefix behind it complete
  induction hk : size.toNat using Nat.strong_induction_on
    generalizing size content buffer s with
  | _ k ih =>
    subst hk
    have hne : s.incoming ≠ [] := List.length_pos_iff.mp (by omega)
    obtain ⟨n, hn0, hn, hl, hrun⟩ := receiveLoop_some fd content buffer s h0 hs hne
    by_cases hlt : n < size.toNat
    · have hsub := sub_ofNat_toNat hn
      obtain ⟨e, he, hpos, hbuf, k, hnet⟩ := ih (size.toNat - n) (by omega) (content + n)
        (buffer.store content (s.incoming.take n)) (s.consume n) (by omega) (by omega)
        (by simp only [Pipe.consume, List.length_drop]; omega) hsub
      refine ⟨e, by rw [hrun, if_pos hlt, he], hpos, ?_, k, ?_⟩
      · have htake : s.incoming.take size.toNat =
            s.incoming.take n ++ (s.incoming.drop n).take (size.toNat - n) := by
          rw [← List.take_add, Nat.add_sub_cancel' hn]
        have hlen : (s.incoming.take n).length = n := by simp [hl]
        rw [hbuf, htake, Mem.store_append, hlen]
        rfl
      · rw [hnet]
        simp only [Pipe.consume, List.drop_drop, Nat.add_sub_cancel' hn]
    · obtain rfl : n = size.toNat := by omega
      refine ⟨_, by rw [hrun, if_neg hlt], ?_, rfl, _, rfl⟩
      have := ofInt_natCast_pos hn0 hs
      rwa [Int32.ofInt_eq_ofNat] at this

/-- Once the stream runs out in the middle, the last result is not positive. -/
theorem receiveLoop_short (fd : Sock) (content : ℕ) {size : UInt32} (buffer : Mem) (s : Pipe)
    (hs : size.toNat < 2 ^ 31) (hi : s.incoming.length < size.toNat) :
    (receiveLoop Pipe.net fd content size buffer s).bytesRecv ≤ 0 := by
  induction hk : size.toNat using Nat.strong_induction_on
    generalizing size content buffer s with
  | _ k ih =>
    subst hk
    by_cases hne : s.incoming = []
    · exact receiveLoop_none fd content buffer s (by omega) hne
    · obtain ⟨n, hn0, hn, hl, hrun⟩ := receiveLoop_some fd content buffer s (by omega) hs hne
      have hlt : n < size.toNat := by omega
      have hsub := sub_ofNat_toNat hn
      rw [hrun, if_pos hlt]
      exact ih (size.toNat - n) (by omega) (content + n) _ (s.consume n) (by omega)
        (by simp only [Pipe.consume, List.length_drop]; omega) hsub

def delivered (s : ConnState Pipe) (n recvs : ℕ) : ConnState Pipe :=
  { s with net := { s.net with incoming := s.net.incoming.drop n, recvs := recvs } }

theorem ofInt_natCast (n : ℕ) : UInt32.ofInt (n : Int) = UInt32.ofNat n := by
  apply UInt32.toNat_inj.mp
  rw [UInt32.ofInt, UInt32.toNat_ofNat', UInt32.toNat_ofNat']
  omega

section Send

variable {cls : ConnectionClass} {content : List UInt8} {s : ConnState Pipe} {k : ℕ}

/-- The count a send returns is compared with the block's size as it is. -/
theorem short_count_iff (hn : content.length < 2 ^ 32) (k : ℕ) :
    (((content.take k).length : Int) = -1 ∨
      UInt32.ofInt ((content.take k).length : Int) < UInt32.ofNat content.length) ↔
      k < content.length := by
  have hk : (content.take k).length = min k content.length := List.length_take
  rw [ofInt_natCast, UInt32.lt_iff_toNat_lt, UInt32.toNat_ofNat', UInt32.toNat_ofNat', hk]
  omega

theorem send_full (ho : s.conn.isOpen = true) (hs : s.net.outcome s.net.sends = .full) :
    send Pipe.net cls content s = .ok () { s with net := s.net.accept content } := by
  have hcall : Pipe.net.send s.conn.fd content s.net =
      ((content.length : Int), s.net.accept content) := by
    simp only [Pipe.net, Pipe.send, hs]
  have hall : ¬ ((content.length : Int) = -1 ∨
      UInt32.ofInt (content.length : Int) < UInt32.ofNat content.length) := by
    rw [ofInt_natCast, UInt32.lt_iff_toNat_lt]
    omega
  rw [send_open _ _ ho, hcall]
  exact if_neg hall

theorem send_failed (ho : s.conn.isOpen = true) (hs : s.net.outcome s.net.sends = .error k) :
    send Pipe.net cls content s = .error (.connection cls .sendFailed)
      (shut Pipe.net { s with net := s.net.accept (content.take k) }) := by
  have hcall : Pipe.net.send s.conn.fd content s.net = (-1, s.net.accept (content.take k)) := by
    simp only [Pipe.net, Pipe.send, hs]
  rw [send_open _ _ ho, hcall]
  exact if_pos (Or.inl rfl)

theorem send_short (ho : s.conn.isOpen = true) (hn : content.length < 2 ^ 32)
    (hs : s.net.outcome s.net.sends = .short k) :
    send Pipe.net cls content s =
      if k < content.length then
        .error (.connection cls .sendFailed)
          (shut Pipe.net { s with net := s.net.accept (content.take k) })
      else .ok () { s with net := s.net.accept (content.take k) } := by
  have hcall : Pipe.net.send s.conn.fd content s.net =
      (((content.take k).length : Int), s.net.accept (content.take k)) := by
    simp only [Pipe.net, Pipe.send, hs]
  rw [send_open _ _ ho, hcall]
  simp only [short_count_iff hn k]

end Send

/-- All four classes hand out exactly the next bytes when there are enough.  The
loops count in `int`. -/
theorem receive_enough (cls : ConnectionClass) {s : ConnState Pipe} (ho : s.conn.isOpen = true)
    {size : UInt32} (h0 : 0 < size.toNat) (hs : cls = .bkndConnection ∨ size.toNat < 2 ^ 31)
    (hi : size.toNat ≤ s.net.incoming.length) (buffer : Mem) :
    ∃ k, receive Pipe.net cls buffer size s =
      .ok (buffer.store 0 (s.net.incoming.take size.toNat)) (delivered s size.toNat k) := by
  by_cases hc : cls = .bkndConnection
  · subst hc
    have hne : s.net.incoming ≠ [] := List.length_pos_iff.mp (by omega)
    have hav : s.net.available size.toNat true = size.toNat := by
      simp only [Pipe.available, ↓reduceIte]
      omega
    have hr : Pipe.net.recv s.conn.fd size true s.net = _ := s.net.recv_some h0 hne
    rw [hav] at hr
    have hfull : ¬ ((size.toNat : Int) = -1 ∨ UInt32.ofInt size.toNat < size) := by
      rw [ofInt_natCast, UInt32.ofNat_toNat]
      simp
    refine ⟨s.net.recvs + 1, ?_⟩
    rw [receive_waitall _ ho, hr]
    exact if_neg hfull
  · obtain ⟨e, he, hpos, hbuf, k, hnet⟩ :=
      receiveLoop_enough s.conn.fd 0 buffer s.net h0 (hs.resolve_left hc) hi
    refine ⟨k, ?_⟩
    rw [receive_loop _ _ ho _ _ hc, he]
    simp only [if_neg (Int32.not_le.mpr hpos), hnet, hbuf]
    rfl

/-- All four close and throw when the stream ends early. -/
theorem receive_short (cls : ConnectionClass) {s : ConnState Pipe} (ho : s.conn.isOpen = true)
    {size : UInt32} (hs : cls = .bkndConnection ∨ size.toNat < 2 ^ 31)
    (hi : s.net.incoming.length < size.toNat) (buffer : Mem) :
    ∃ e s', receive Pipe.net cls buffer size s = .error e s' ∧ s'.conn.isOpen = false := by
  by_cases hc : cls = .bkndConnection
  · subst hc
    have hshort : ∃ r bytes n, Pipe.net.recv s.conn.fd size true s.net = (r, bytes, n) ∧
        (r = -1 ∨ UInt32.ofInt r < size) := by
      have h0 : 0 < size.toNat := by omega
      by_cases hne : s.net.incoming = []
      · refine ⟨_, _, _, s.net.recv_none h0 hne, ?_⟩
        cases s.net.broken
        · exact Or.inr (UInt32.lt_iff_toNat_lt.mpr h0)
        · exact Or.inl rfl
      · refine ⟨_, _, _, s.net.recv_some h0 hne, Or.inr ?_⟩
        obtain ⟨-, -, h3⟩ := s.net.available_bounds true h0 hne
        rw [ofInt_natCast, UInt32.lt_iff_toNat_lt, UInt32.toNat_ofNat']
        omega
    obtain ⟨r, bytes, n, hr, hc⟩ := hshort
    rw [receive_waitall _ ho, hr]
    simp only [if_pos hc]
    exact ⟨_, _, rfl, shut_isOpen _ _⟩
  · have h := receiveLoop_short s.conn.fd 0 buffer s.net (hs.resolve_left hc) hi
    rw [receive_loop _ _ ho _ _ hc]
    simp only [if_pos h]
    exact ⟨_, _, rfl, shut_isOpen _ _⟩

end Conn

end VmPlayback
