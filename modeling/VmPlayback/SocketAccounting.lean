import VmPlayback.Runs
import VmPlayback.Strays

namespace VmPlayback.Endpoint

open Exec Handles

variable {s s' : Endpoint} {fd : Sock} {cls : ConnectionClass}

def abandonsListener (cls : ConnectionClass) (out : ListenOutcome) : Bool :=
  (!cls.isUdp || out.address) && out.socket && !(out.bind && out.listen)

def abandonsClient (cls : ConnectionClass) (s : Endpoint) (out : ConnectOutcome) : Bool :=
  (cls.isUdp || s.initialized || out.startup) && out.address && out.socket && !out.connect

/-- The operation creates a socket that it then fails to bind, listen on or connect. -/
def Abandons (cls : ConnectionClass) (s : Endpoint) : SockEvent → Prop
  | .listen _ out => cls.isBknd = true ∧ abandonsListener cls out = true
  | .acceptConnection out _ =>
    cls.isBknd = true ∧ s.listening = false ∧ abandonsListener cls out = true
  | .newConnection out => cls.isBknd = false ∧ abandonsClient cls s out = true
  | _ => False

instance (cls : ConnectionClass) (s : Endpoint) : ∀ e, Decidable (Abandons cls s e)
  | .listen _ _ | .acceptConnection _ _ | .newConnection _ => inferInstanceAs (Decidable (_ ∧ _))
  | .closeListener | .send _ _ _ | .receive _ _ _ _ _ | .close _ | .destroy _ =>
    inferInstanceAs (Decidable False)

theorem unlistened_of_off (h : s.listening = false) : s.unlistened = s := by
  unfold unlistened
  split
  · next hon _ => simp [hon] at h
  · rw [← h]

/-- Whatever listener there was is closed first. -/
theorem listen_unlistened (port : Int32) (out : ListenOutcome) (s : Endpoint) :
    Bknd.listen cls port out s = Bknd.listen cls port out s.unlistened := by
  cases hon : s.listening with
  | false => rw [unlistened_of_off hon]
  | true =>
    have hoff := unlistened_listening s
    unfold Bknd.listen
    split
    · simp only [Bknd.UdpConnection.listen, run_bind, run_get, run_ite, hon, hoff,
        closeListener_run, ↓reduceIte, Bool.false_eq_true]
    · simp only [Bknd.Connection.listen, run_bind, run_get, run_ite, hon, hoff, closeListener_run,
        ↓reduceIte, Bool.false_eq_true]

/-- What becomes of `listen`: no socket, an abandoned one, or a listener. -/
theorem listen_cases (hb : cls.isBknd = true) (port : Int32) (out : ListenOutcome)
    (s : Endpoint) :
    (abandonsListener cls out = false ∧ ∃ e sockFd,
      Bknd.listen cls port out s = .error e { s.unlistened with sockFd := sockFd }) ∨
    (abandonsListener cls out = true ∧ ∃ e calls,
      Bknd.listen cls port out s = .error e (s.unlistened.raised calls false)) ∨
    (abandonsListener cls out = false ∧ ∃ calls,
      Bknd.listen cls port out s = .ok () (s.unlistened.raised calls true)) := by
  rw [listen_unlistened]
  have hoff := unlistened_listening s
  generalize s.unlistened = s at hoff
  obtain ⟨k, listening, sockFd, initialized, objects⟩ := s
  cases hoff
  obtain ⟨address, created, bound, listens, lastError⟩ := out
  cases cls with
  | bkndConnection =>
    cases created with
    | false => exact Or.inl ⟨rfl, _, _, rfl⟩
    | true =>
      cases bound with
      | false => exact Or.inr (Or.inl ⟨rfl, _, [.bind], rfl⟩)
      | true =>
        cases listens with
        | false => exact Or.inr (Or.inl ⟨rfl, _, [.listen, .bind], rfl⟩)
        | true => exact Or.inr (Or.inr ⟨rfl, [.listen, .bind], rfl⟩)
  | bkndUdpConnection =>
    cases address with
    | false => exact Or.inl ⟨rfl, _, sockFd, rfl⟩
    | true =>
      cases created with
      | false => exact Or.inl ⟨rfl, _, _, rfl⟩
      | true =>
        cases bound with
        | false => exact Or.inr (Or.inl ⟨rfl, _, [.bind], rfl⟩)
        | true =>
          cases listens with
          | false => exact Or.inr (Or.inl ⟨rfl, _, [.listen, .bind], rfl⟩)
          | true => exact Or.inr (Or.inr ⟨rfl, [.listen, .bind], rfl⟩)
  | ftndConnection => cases hb
  | ftndUdpConnection => cases hb

theorem Safe.keeps_sockFd (h : Safe s) (hoff : s.listening = false) (sockFd : Option Sock) :
    Keeps s { s with sockFd := sockFd } := by
  refine h.keeps_same h.good h.named ?_ (fun _ => Iff.rfl) ?_
  · intro hon
    simp [hoff] at hon
  · intro fd
    simp [Owned, hoff]

theorem Safe.listen_keeps (h : Safe s) (hb : cls.isBknd = true) (port : Int32)
    {out : ListenOutcome} (ha : abandonsListener cls out = false) :
    Keeps s (final (Bknd.listen cls port out s)) := by
  have hun := h.keeps_unlistened
  have hoff := unlistened_listening s
  rcases listen_cases hb port out s with ⟨-, e, sockFd, hrun⟩ | ⟨ht, -⟩ | ⟨-, calls, hrun⟩
  · rw [hrun]
    exact hun.trans (hun.1.keeps_sockFd hoff sockFd)
  · simp [ht] at ha
  · rw [hrun]
    obtain ⟨hsafe, hstray⟩ := hun.1.raised hoff calls true
    exact hun.trans ⟨hsafe, fun fd => by simp [hstray]⟩

theorem Safe.listen_leaves (h : Safe s) (hb : cls.isBknd = true) (port : Int32)
    {out : ListenOutcome} (ha : abandonsListener cls out = true) :
    ∃ e s', Bknd.listen cls port out s = .error e s' ∧ Leaves s' := by
  rcases listen_cases hb port out s with ⟨hf, -⟩ | ⟨-, e, calls, hrun⟩ | ⟨hf, -⟩
  · simp [ha] at hf
  · obtain ⟨hsafe, hstray⟩ := h.keeps_unlistened.1.raised (unlistened_listening s) calls false
    exact ⟨e, _, hrun, hsafe, _, (hstray _).mpr (Or.inr ⟨rfl, rfl⟩)⟩
  · simp [ha] at hf

theorem accept_listening {out : ListenOutcome} {accepted : Bool} (hon : s.listening = true)
    (hfd : s.sockFd = some fd) :
    Bknd.acceptConnection cls out accepted s =
      if accepted then .ok () (joined { s with kernel := s.kernel.use .accept fd } [])
      else .error ⟨cls, "Accept failed."⟩ { s with kernel := s.kernel.use .accept fd } := by
  obtain ⟨k, listening, sockFd, initialized, objects⟩ := s
  cases hon
  cases hfd
  cases accepted <;> rfl

/-- Without a listener `acceptConnection` makes one first. -/
theorem accept_off_ok {out : ListenOutcome} {accepted : Bool} (hoff : s.listening = false)
    (hrun : Bknd.listen cls PORT out s = .ok () s') (hon : s'.listening = true) :
    Bknd.acceptConnection cls out accepted s = Bknd.acceptConnection cls out accepted s' := by
  simp only [Bknd.acceptConnection, run_bind, run_get, run_ite, hoff, hon, hrun, Bool.not_true,
    Bool.not_false, Bool.false_eq_true, ↓reduceIte]

theorem accept_off_error {out : ListenOutcome} {accepted : Bool} {e : SetupException}
    (hoff : s.listening = false) (hrun : Bknd.listen cls PORT out s = .error e s') :
    Bknd.acceptConnection cls out accepted s = .error e s' := by
  simp only [Bknd.acceptConnection, run_bind, run_get, hoff, hrun, Bool.not_false, ↓reduceIte]

theorem Safe.keeps_use (h : Safe s) (ho : s.Owned fd) (kind : SockCall) :
    Keeps s { s with kernel := s.kernel.use kind fd } :=
  h.keeps_same (h.good.use (h.owned fd ho) kind) h.named h.listener (fun _ => Iff.rfl)
    (fun _ => Iff.rfl)

theorem Safe.accept_keeps (h : Safe s) (hon : s.listening = true) (out : ListenOutcome)
    (accepted : Bool) : Keeps s (final (Bknd.acceptConnection cls out accepted s)) := by
  obtain ⟨fd, hfd, -⟩ := h.listener hon
  have huse := h.keeps_use (Or.inl ⟨hon, hfd⟩) .accept
  rw [accept_listening hon hfd]
  cases accepted with
  | false => exact huse
  | true => exact huse.trans (huse.1.keeps_joined [])

theorem Safe.accept_off_keeps (h : Safe s) (hb : cls.isBknd = true) (hoff : s.listening = false)
    {out : ListenOutcome} (ha : abandonsListener cls out = false) (accepted : Bool) :
    Keeps s (final (Bknd.acceptConnection cls out accepted s)) := by
  have hlisten := h.listen_keeps hb PORT ha
  rcases listen_cases hb PORT out s with ⟨-, e, sockFd, hrun⟩ | ⟨ht, -⟩ | ⟨-, calls, hrun⟩
  · -- the exception of `listen` goes through
    rw [accept_off_error hoff hrun]
    rwa [hrun] at hlisten
  · simp [ht] at ha
  · rw [accept_off_ok hoff hrun rfl]
    rw [hrun] at hlisten
    exact hlisten.trans (hlisten.1.accept_keeps rfl out accepted)

theorem newConnection_cases (hb : cls.isBknd = false) (out : ConnectOutcome) (s : Endpoint) :
    ∃ initialized,
      (abandonsClient cls s out = false ∧ ∃ e,
        Ftnd.newConnection cls out s = .error e { s with initialized := initialized }) ∨
      (abandonsClient cls s out = true ∧ ∃ e,
        Ftnd.newConnection cls out s =
          .error e (lost { s with initialized := initialized } [.connect])) ∨
      (abandonsClient cls s out = false ∧
        Ftnd.newConnection cls out s =
          .ok () (joined { s with initialized := initialized } [.connect])) := by
  obtain ⟨k, listening, sockFd, initialized, objects⟩ := s
  obtain ⟨startup, address, created, connected⟩ := out
  cases cls with
  | ftndConnection =>
    cases startup <;> cases initialized
    · exact ⟨false, Or.inl ⟨rfl, _, rfl⟩⟩
    all_goals
      refine ⟨true, ?_⟩
      cases address
      · exact Or.inl ⟨rfl, _, rfl⟩
      cases created
      · exact Or.inl ⟨rfl, _, rfl⟩
      cases connected
      · exact Or.inr (Or.inl ⟨rfl, _, rfl⟩)
      · exact Or.inr (Or.inr ⟨rfl, rfl⟩)
  | ftndUdpConnection =>
    refine ⟨true, ?_⟩
    cases initialized
    all_goals
      cases address
      · exact Or.inl ⟨rfl, _, rfl⟩
      cases created
      · exact Or.inl ⟨rfl, _, rfl⟩
      cases connected
      · exact Or.inr (Or.inl ⟨rfl, _, rfl⟩)
      · exact Or.inr (Or.inr ⟨rfl, rfl⟩)
  | bkndConnection => cases hb
  | bkndUdpConnection => cases hb

theorem Safe.keeps_initialized (h : Safe s) (initialized : Bool) :
    Keeps s { s with initialized := initialized } :=
  h.keeps_same h.good h.named h.listener (fun _ => Iff.rfl) (fun _ => Iff.rfl)

theorem Safe.newConnection_keeps (h : Safe s) (hb : cls.isBknd = false) {out : ConnectOutcome}
    (ha : abandonsClient cls s out = false) :
    Keeps s (final (Ftnd.newConnection cls out s)) := by
  obtain ⟨initialized, ⟨-, e, hrun⟩ | ⟨ht, -⟩ | ⟨-, hrun⟩⟩ := newConnection_cases hb out s
  · rw [hrun]
    exact h.keeps_initialized initialized
  · simp [ht] at ha
  · rw [hrun]
    have hinit := h.keeps_initialized initialized
    exact hinit.trans (hinit.1.keeps_joined _)

theorem Safe.newConnection_leaves (h : Safe s) (hb : cls.isBknd = false) {out : ConnectOutcome}
    (ha : abandonsClient cls s out = true) :
    Leaves (final (Ftnd.newConnection cls out s)) := by
  obtain ⟨initialized, ⟨hf, -⟩ | ⟨-, e, hrun⟩ | ⟨hf, -⟩⟩ := newConnection_cases hb out s
  · simp [ha] at hf
  · rw [hrun]
    obtain ⟨hsafe, hstray⟩ := (h.keeps_initialized initialized).1.lost [.connect]
    exact ⟨hsafe, _, (hstray _).mpr (Or.inr rfl)⟩
  · simp [ha] at hf

/-- An operation leaves the strays as they were, unless it abandons a socket of its own. -/
theorem Safe.step_keeps (h : Safe s) {e : SockEvent} (ha : ¬ Abandons cls s e) :
    Keeps s (step cls s e) := by
  cases e with
  | listen port out =>
    dsimp only [step]
    split
    · next hb => exact h.listen_keeps hb port (by simpa [Abandons, hb] using ha)
    · exact h.keeps_refl
  | closeListener =>
    dsimp only [step]
    split
    · rw [closeListener_run]
      exact h.keeps_unlistened
    · exact h.keeps_refl
  | acceptConnection out accepted =>
    dsimp only [step]
    split
    · next hb =>
      cases hon : s.listening with
      | true => exact h.accept_keeps hon out accepted
      | false => exact h.accept_off_keeps hb hon (by simpa [Abandons, hb, hon] using ha) accepted
    · exact h.keeps_refl
  | newConnection out =>
    dsimp only [step]
    split
    · exact h.keeps_refl
    · next hb =>
      have hb : cls.isBknd = false := by simpa using hb
      exact h.newConnection_keeps hb (by simpa [Abandons, hb] using ha)
  | send obj content result =>
    have hset := h.keeps_answering [(result, [])] ""
    exact hset.trans (hset.1.keeps_method obj _ fun c hc => hc.served_send cls content)
  | receive obj buffer size results lastError =>
    have hset := h.keeps_answering results lastError
    exact hset.trans (hset.1.keeps_method obj _ fun c hc => hc.served_receive cls buffer size)
  | close obj => exact h.keeps_method obj _ fun c hc => hc.served_close
  | destroy obj =>
    -- the destructor closes first, after which the object owns nothing
    have hclose := h.keeps_method obj _ fun c hc => hc.served_close
    exact hclose.trans (hclose.1.keeps_destroy obj fun c hc => method_close_closed obj hc)

theorem Safe.step_leaves (h : Safe s) {e : SockEvent} (ha : Abandons cls s e) :
    Leaves (step cls s e) := by
  cases e with
  | listen port out =>
    obtain ⟨hb, ha⟩ := ha
    obtain ⟨e, s', hrun, hleft⟩ := h.listen_leaves hb port ha
    simp only [step, if_pos hb, hrun]
    exact hleft
  | acceptConnection out accepted =>
    obtain ⟨hb, hoff, ha⟩ := ha
    obtain ⟨e, s', hrun, hleft⟩ := h.listen_leaves hb PORT ha
    simp only [step, if_pos hb, accept_off_error hoff hrun]
    exact hleft
  | newConnection out =>
    obtain ⟨hb, ha⟩ := ha
    simp only [step, hb, Bool.false_eq_true, ↓reduceIte]
    exact h.newConnection_leaves hb ha
  | closeListener => cases ha
  | send obj content result => cases ha
  | receive obj buffer size results lastError => cases ha
  | close obj => cases ha
  | destroy obj => cases ha

theorem Safe.step_safe (h : Safe s) (e : SockEvent) : Safe (step cls s e) := by
  by_cases ha : Abandons cls s e
  · exact (h.step_leaves ha).1
  · exact (h.step_keeps ha).1

theorem safe_init : Safe init where
  good := ⟨trivial, by simp [init]⟩
  named := by simp [Named, init]
  owned := by simp [Owned, init]
  listener := by simp [init]

theorem accounted_step (h : Safe s) (hs : s.Accounted) (e : SockEvent) :
    (step cls s e).Accounted ↔ ¬ Abandons cls s e := by
  constructor
  · intro hstep ha
    obtain ⟨hsafe, fd, hstray⟩ := h.step_leaves ha
    exact hsafe.accounted_iff.mp hstep fd hstray
  · intro ha
    obtain ⟨hsafe, hstray⟩ := h.step_keeps ha
    rw [hsafe.accounted_iff]
    intro fd hfd
    exact h.accounted_iff.mp hs fd ((hstray fd).mp hfd)

/-- The books balance after every operation exactly when no operation abandons a
socket; and whatever happens, no socket is closed twice or used after it was closed. -/
theorem sockets_accounted_iff (cls : ConnectionClass) (es : List SockEvent) :
    (Along (step cls) (fun s e => (step cls s e).Accounted) init es ↔
      Along (step cls) (fun s e => ¬ Abandons cls s e) init es) ∧
    (∀ fd pre, .release fd :: pre <:+ (es.foldl (step cls) init).kernel.log →
      .release fd ∉ pre) ∧
    (∀ kind fd pre, .use kind fd :: pre <:+ (es.foldl (step cls) init).kernel.log →
      .release fd ∉ pre) := by
  refine ⟨?_, ?_, ?_⟩
  · apply along_iff_of_invariant (J := fun s => Safe s ∧ s.Accounted)
    · intro s e hs
      exact accounted_step hs.1 hs.2 e
    · intro s e hs ha
      exact ⟨hs.1.step_safe e, (accounted_step hs.1 hs.2 e).mpr ha⟩
    · exact ⟨safe_init, by simp [Accounted, Owned, init, held]⟩
  all_goals
    have hsafe : Safe (es.foldl (step cls) init) :=
      invariant_run (J := Safe) (fun s e h => h.step_safe e) safe_init es
  · intro fd pre hpre
    exact hsafe.good.disciplined.released_once hpre
  · intro kind fd pre hpre
    exact hsafe.good.disciplined.no_use_after_release hpre

/-- A send that fails has closed the socket already; what follows closes nothing twice. -/
example :
    let es := [.acceptConnection ⟨true, true, true, true, ""⟩ true, .send 1 [1, 2] (-1),
      .close 1, .destroy 1, .closeListener]
    Along (step .bkndConnection) (fun s e => ¬ Abandons .bkndConnection s e) init es ∧
      (es.foldl (step .bkndConnection) init).kernel.log =
        [.release 0, .release 1, .use .send 1, .acquire 1, .use .accept 0, .use .listen 0,
          .use .bind 0, .acquire 0] := by
  decide

/-- A port that is in use: `bind` fails and the socket stays open with `listening`
clear.  A refused connection does the same to the frontend. -/
theorem setup_failure_leaks :
    held (step .bkndConnection init (.listen 8199 ⟨true, true, false, true, ""⟩)).kernel.log = [0] ∧
      (step .bkndConnection init (.listen 8199 ⟨true, true, false, true, ""⟩)).listening = false ∧
      ¬ Along (step .bkndConnection) (fun s e => (step .bkndConnection s e).Accounted) init
        [.listen 8199 ⟨true, true, false, true, ""⟩] ∧
      ¬ Along (step .ftndUdpConnection) (fun s e => (step .ftndUdpConnection s e).Accounted) init
        [.newConnection ⟨true, true, true, false⟩] := by
  refine ⟨by decide, by decide, ?_, ?_⟩
  · rintro ⟨h, -⟩
    rcases (h 0).mp (by decide) with ⟨hon, -⟩ | ⟨obj, c, hc, -⟩
    · cases hon
    · cases hc
  · rintro ⟨h, -⟩
    rcases (h 0).mp (by decide) with ⟨hon, -⟩ | ⟨obj, c, hc, -⟩
    · cases hon
    · cases hc

end VmPlayback.Endpoint
