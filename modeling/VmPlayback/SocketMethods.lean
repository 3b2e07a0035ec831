import VmPlayback.Sockets

namespace VmPlayback

open Exec Handles

structure Kernel.Good (k : Kernel) : Prop where
  disciplined : Disciplined k.log
  fresh : ∀ fd, .acquire fd ∈ k.log → fd < k.next

namespace Kernel

variable {k k' : Kernel} {fd : Sock}

theorem Good.next_not_held (h : k.Good) : k.next ∉ held k.log := by
  intro hm
  exact Nat.lt_irrefl _ (h.fresh _ (acquire_mem_of_held hm))

theorem Good.acquire (h : k.Good) : k.acquire.Good := by
  refine ⟨⟨h.disciplined, fun hm => Nat.lt_irrefl _ (h.fresh _ hm)⟩, ?_⟩
  intro fd hm
  rcases List.mem_cons.mp hm with heq | hm
  · rw [Access.acquire.inj heq]
    exact Nat.lt_succ_self _
  · exact Nat.lt_succ_of_lt (h.fresh fd hm)

theorem Good.use (h : k.Good) (hm : fd ∈ held k.log) (call : SockCall) : (k.use call fd).Good :=
  ⟨⟨h.disciplined, hm⟩, fun fd hfd => h.fresh fd (by simpa [Kernel.use] using hfd)⟩

theorem Good.release (h : k.Good) (hm : fd ∈ held k.log) : (k.release fd).Good :=
  ⟨⟨h.disciplined, hm⟩, fun fd hfd => h.fresh fd (by simpa [Kernel.release] using hfd)⟩

/-- Calls on a socket that is held change nothing about what is held. -/
structure Steady (k k' : Kernel) : Prop where
  good : k'.Good
  next : k'.next = k.next
  held : held k'.log = held k.log

theorem Good.steady_answered (h : k.Good) (hm : fd ∈ Handles.held k.log) (call : SockCall) :
    Steady k (k.answered call fd) where
  good := ⟨(h.use hm call).disciplined, (h.use hm call).fresh⟩
  next := rfl
  held := rfl

theorem Steady.trans {k'' : Kernel} (h : Steady k k') (h' : Steady k' k'') : Steady k k'' :=
  ⟨h'.good, h'.next.trans h.next, h'.held.trans h.held⟩

def opened (k : Kernel) : List SockCall → Kernel
  | [] => k.acquire
  | call :: calls => (k.opened calls).use call k.next

theorem Good.opened_held (h : k.Good) (calls : List SockCall) : (k.opened calls).Good ∧
    (k.opened calls).next = k.next + 1 ∧
    Handles.held (k.opened calls).log = k.next :: Handles.held k.log := by
  induction calls with
  | nil => exact ⟨h.acquire, rfl, rfl⟩
  | cons call calls ih =>
    obtain ⟨hgood, hnext, hheld⟩ := ih
    refine ⟨hgood.use ?_ call, hnext, hheld⟩
    rw [hheld]
    exact List.mem_cons_self

end Kernel

namespace Conn

open Kernel

variable {s s' s'' : ConnState Kernel}

structure Sound (s : ConnState Kernel) : Prop where
  good : s.net.Good
  held : s.conn.isOpen = true → s.conn.fd ∈ held s.net.log

/-- A method gives up the object's own socket when it clears the flag, and no other. -/
structure Served (s s' : ConnState Kernel) : Prop where
  good : s'.net.Good
  fd : s'.conn.fd = s.conn.fd
  next : s'.net.next = s.net.next
  closed : s'.conn.isOpen = true → s.conn.isOpen = true
  held : ∀ fd, fd ∈ held s'.net.log ↔
    fd ∈ Handles.held s.net.log ∧
      (fd = s.conn.fd → s.conn.isOpen = true → s'.conn.isOpen = true)

theorem Sound.served_refl (h : Sound s) : Served s s where
  good := h.good
  fd := rfl
  next := rfl
  closed h := h
  held fd := by simp

theorem Served.sound (h : Served s s') (hs : Sound s) : Sound s' := by
  refine ⟨h.good, fun ho => ?_⟩
  rw [h.held, h.fd]
  exact ⟨hs.held (h.closed ho), fun _ _ => ho⟩

theorem Served.trans (h : Served s s') (h' : Served s' s'') : Served s s'' := by
  refine ⟨h'.good, h'.fd.trans h.fd, h'.next.trans h.next, fun ho => h.closed (h'.closed ho), ?_⟩
  intro fd
  rw [h'.held, h.held, h.fd, and_assoc]
  apply and_congr_right
  intro _
  constructor
  · rintro ⟨h₁, h₂⟩ hfd ho
    exact h₂ hfd (h₁ hfd ho)
  · intro h₁
    exact ⟨fun hfd ho => h'.closed (h₁ hfd ho), fun hfd ho => h₁ hfd (h.closed ho)⟩

theorem served_steady {k : Kernel} (h : Steady s.net k) : Served s { s with net := k } where
  good := h.good
  fd := rfl
  next := h.next
  closed h := h
  held fd := by simp [h.held]

theorem Sound.served_shut (h : Sound s) : Served s (shut Kernel.net s) := by
  unfold shut
  split
  · next ho =>
    refine ⟨h.good.release (h.held ho), rfl, rfl, by simp, fun fd => ?_⟩
    show fd ∈ Handles.held (.release s.conn.fd :: s.net.log) ↔ _
    rw [mem_held_release]
    simp [ho]
  · exact h.served_refl

theorem steady_receiveLoop {fd : Sock} (content : ℕ) (size : UInt32) (buffer : Mem) {k : Kernel}
    (h : k.Good) (hm : fd ∈ held k.log) :
    Steady k (receiveLoop Kernel.net fd content size buffer k).net := by
  apply receiveLoop_invariant Kernel.net (I := Steady k)
  · intro size k' hk
    exact hk.trans (hk.good.steady_answered (by rwa [hk.held]) .recv)
  · exact ⟨h, rfl, rfl⟩

/-- The calls of a method, and then perhaps the close that goes with its exception. -/
theorem Sound.served_calls (h : Sound s) {k : Kernel} (hk : Steady s.net k) :
    Served s { s with net := k } ∧ Served s (shut Kernel.net { s with net := k }) := by
  have hcalls : Served s { s with net := k } := served_steady hk
  exact ⟨hcalls, hcalls.trans (hcalls.sound h).served_shut⟩

variable (cls : ConnectionClass)

theorem Sound.served_send (h : Sound s) (content : List UInt8) :
    Served s (final (send Kernel.net cls content s)) := by
  cases ho : s.conn.isOpen with
  | false =>
    rw [send_closed Kernel.net cls ho]
    exact h.served_refl
  | true =>
    have hdone := h.served_calls (h.good.steady_answered (h.held ho) .send)
    rw [send_open Kernel.net cls ho]
    dsimp only
    split
    · exact hdone.2
    · exact hdone.1

theorem Sound.served_receive (h : Sound s) (buffer : Mem) (size : UInt32) :
    Served s (final (receive Kernel.net cls buffer size s)) := by
  cases ho : s.conn.isOpen with
  | false =>
    rw [receive_closed Kernel.net cls ho]
    exact h.served_refl
  | true =>
    -- one call with `MSG_WAITALL`, or the loop
    by_cases hc : cls = .bkndConnection
    · have hdone := h.served_calls (h.good.steady_answered (h.held ho) .recv)
      rw [hc, receive_waitall Kernel.net ho]
      dsimp only
      split
      · exact hdone.2
      · exact hdone.1
    · have hdone := h.served_calls (steady_receiveLoop 0 size buffer h.good (h.held ho))
      rw [receive_loop Kernel.net cls ho buffer size hc]
      dsimp only
      split
      · exact hdone.2
      · exact hdone.1

theorem Sound.served_close (h : Sound s) : Served s (final (close Kernel.net s)) := by
  rw [close_run]
  exact h.served_shut

end Conn

end VmPlayback
