import VmPlayback.SocketMethods

namespace VmPlayback

open Exec Handles

namespace Endpoint

variable {s s' : Endpoint} {fd : Sock}

/-- The listening socket while `listening` is set, and the sockets of the open objects. -/
def Owned (s : Endpoint) (fd : Sock) : Prop :=
  (s.listening = true ∧ s.sockFd = some fd) ∨
    ∃ obj c, s.objects obj = some c ∧ c.isOpen = true ∧ c.fd = fd

def Accounted (s : Endpoint) : Prop := ∀ fd, fd ∈ held s.kernel.log ↔ s.Owned fd

def Stray (s : Endpoint) (fd : Sock) : Prop := fd ∈ held s.kernel.log ∧ ¬ s.Owned fd

/-- Objects keep the socket they were made for. -/
def Named (s : Endpoint) : Prop :=
  ∀ obj c, s.objects obj = some c → c.fd = obj ∧ obj < s.kernel.next

structure Safe (s : Endpoint) : Prop where
  good : s.kernel.Good
  named : s.Named
  owned : ∀ fd, s.Owned fd → fd ∈ held s.kernel.log
  listener : s.listening = true → ∃ fd, s.sockFd = some fd ∧ s.objects fd = none

theorem Safe.accounted_iff (h : Safe s) : s.Accounted ↔ ∀ fd, ¬ s.Stray fd := by
  constructor
  · intro ha fd hs
    exact hs.2 ((ha fd).mp hs.1)
  · intro hn fd
    constructor
    · intro hm
      by_contra ho
      exact hn fd ⟨hm, ho⟩
    · exact h.owned fd

theorem Named.owned_iff (h : s.Named) : s.Owned fd ↔
    (s.listening = true ∧ s.sockFd = some fd) ∨ ∃ c, s.objects fd = some c ∧ c.isOpen = true := by
  apply or_congr_right
  constructor
  · rintro ⟨obj, c, hc, ho, rfl⟩
    exact ⟨c, by rw [(h obj c hc).1, hc], ho⟩
  · rintro ⟨c, hc, ho⟩
    exact ⟨fd, c, hc, ho, (h fd c hc).1⟩

theorem Named.owned_object (h : s.Named) (hl : s.listening = true → s.sockFd ≠ some fd) {c : Conn}
    (hc : s.objects fd = some c) : s.Owned fd ↔ c.isOpen = true := by
  rw [h.owned_iff]
  constructor
  · rintro (⟨hon, hfd⟩ | ⟨c', hc', ho⟩)
    · exact absurd hfd (hl hon)
    · rwa [Option.some.inj (hc.symm.trans hc')]
  · intro ho
    exact Or.inr ⟨c, hc, ho⟩

def Keeps (s s' : Endpoint) : Prop := Safe s' ∧ ∀ fd, s'.Stray fd ↔ s.Stray fd

def Leaves (s' : Endpoint) : Prop := Safe s' ∧ ∃ fd, s'.Stray fd

theorem Safe.keeps_refl (h : Safe s) : Keeps s s := ⟨h, fun _ => Iff.rfl⟩

theorem Safe.keeps_same (h : Safe s) (hgood : s'.kernel.Good) (hnamed : s'.Named)
    (hl : s'.listening = true → ∃ fd, s'.sockFd = some fd ∧ s'.objects fd = none)
    (hheld : ∀ fd, fd ∈ held s'.kernel.log ↔ fd ∈ held s.kernel.log)
    (howned : ∀ fd, s'.Owned fd ↔ s.Owned fd) : Keeps s s' := by
  refine ⟨⟨hgood, hnamed, fun fd ho => ?_, hl⟩, fun fd => ?_⟩
  · rw [hheld]
    exact h.owned fd ((howned fd).mp ho)
  · unfold Stray
    rw [hheld, howned]

theorem Keeps.trans {s'' : Endpoint} (h : Keeps s s') (h' : Keeps s' s'') : Keeps s s'' :=
  ⟨h'.1, fun fd => (h'.2 fd).trans (h.2 fd)⟩

theorem Safe.keeps_answering (h : Safe s) (answers : List (Int × List UInt8))
    (lastError : String) : Keeps s (s.answering answers lastError) :=
  h.keeps_same ⟨h.good.disciplined, h.good.fresh⟩ h.named h.listener (fun _ => Iff.rfl)
    (fun _ => Iff.rfl)

theorem Safe.sound (h : Safe s) {obj : Sock} {c : Conn} (hc : s.objects obj = some c) :
    Conn.Sound ⟨c, s.kernel⟩ :=
  ⟨h.good, fun ho => h.owned _ (Or.inr ⟨obj, c, hc, ho, rfl⟩)⟩

theorem Safe.named_store (h : Safe s) {c : Conn} {done : ConnState Kernel}
    (hc : s.objects c.fd = some c) (hs : Conn.Served ⟨c, s.kernel⟩ done) :
    (s.store c.fd done).Named := by
  intro obj c' hobj
  rw [show (s.store c.fd done).kernel.next = s.kernel.next from hs.next]
  by_cases hne : obj = c.fd
  · subst hne
    obtain rfl : done.conn = c' := by simpa [store] using hobj
    exact ⟨hs.fd, (h.named c.fd c hc).2⟩
  · exact h.named obj c' (by simpa [store, Function.update_of_ne hne] using hobj)

/-- The listener's socket belongs to no object. -/
theorem Safe.listener_ne (h : Safe s) {c : Conn} (hc : s.objects c.fd = some c)
    (hl : s.listening = true) : s.sockFd ≠ some c.fd := by
  intro hfd
  obtain ⟨fd, hfd', hnone⟩ := h.listener hl
  obtain rfl : c.fd = fd := Option.some.inj (hfd.symm.trans hfd')
  simp [hc] at hnone

theorem Safe.keeps_served (h : Safe s) {c : Conn} {done : ConnState Kernel}
    (hc : s.objects c.fd = some c) (hs : Conn.Served ⟨c, s.kernel⟩ done) :
    Keeps s (s.store c.fd done) := by
  have hnamed := h.named_store hc hs
  -- nothing changes about the other sockets
  have hheld : ∀ fd, fd ≠ c.fd →
      (fd ∈ held (s.store c.fd done).kernel.log ↔ fd ∈ held s.kernel.log) := by
    intro fd hne
    simp [store, hs.held, hne]
  have howned : ∀ fd, fd ≠ c.fd → ((s.store c.fd done).Owned fd ↔ s.Owned fd) := by
    intro fd hne
    rw [hnamed.owned_iff, h.named.owned_iff]
    simp only [store, Function.update_of_ne hne]
  -- and the object's own is owned as long as the flag is set
  have hnew : (s.store c.fd done).Owned c.fd ↔ done.conn.isOpen = true :=
    hnamed.owned_object (h.listener_ne hc) (by simp [store])
  have hold : s.Owned c.fd ↔ c.isOpen = true := h.named.owned_object (h.listener_ne hc) hc
  have hown : c.fd ∈ held done.net.log ↔
      c.fd ∈ held s.kernel.log ∧ (c.isOpen = true → done.conn.isOpen = true) := by
    simp [hs.held]
  refine ⟨⟨hs.good, hnamed, ?_, ?_⟩, ?_⟩
  · intro fd ho
    by_cases hne : fd = c.fd
    · subst hne
      have hopen := hnew.mp ho
      exact hown.mpr ⟨h.owned _ (hold.mpr (hs.closed hopen)), fun _ => hopen⟩
    · exact (hheld fd hne).mpr (h.owned fd ((howned fd hne).mp ho))
  · intro hl
    obtain ⟨fd, hfd, hnone⟩ := h.listener hl
    have hne : fd ≠ c.fd := by
      rintro rfl
      simp [hc] at hnone
    exact ⟨fd, hfd, by simp [store, Function.update_of_ne hne, hnone]⟩
  · intro fd
    by_cases hne : fd = c.fd
    · subst hne
      unfold Stray
      rw [hnew, hold]
      show c.fd ∈ held done.net.log ∧ _ ↔ _
      rw [hown]
      have := hs.closed
      dsimp only at this
      tauto
    · unfold Stray
      rw [hheld fd hne, howned fd hne]

theorem Safe.keeps_method (h : Safe s) {α : Type} (obj : Sock) (m : ConnM Kernel α)
    (hm : ∀ c, Conn.Sound ⟨c, s.kernel⟩ → Conn.Served ⟨c, s.kernel⟩ (final (m ⟨c, s.kernel⟩))) :
    Keeps s (s.method obj m) := by
  unfold method
  split
  · exact h.keeps_refl
  · next c hc =>
    obtain ⟨rfl, -⟩ := h.named obj c hc
    exact h.keeps_served hc (hm c (h.sound hc))

/-- The destructor: a closed object owns nothing, so it may go. -/
theorem Safe.keeps_destroy (h : Safe s) (obj : Sock)
    (hclosed : ∀ c, s.objects obj = some c → c.isOpen = false) :
    Keeps s { s with objects := Function.update s.objects obj none } := by
  have hobj : ∀ i c, Function.update s.objects obj none i = some c → s.objects i = some c := by
    intro i c hi
    by_cases hne : i = obj
    · simp [hne] at hi
    · rwa [Function.update_of_ne hne] at hi
  refine h.keeps_same h.good ?_ ?_ ?_ ?_
  · intro i c hi
    exact h.named i c (hobj i c hi)
  · intro hl
    obtain ⟨fd, hfd, hnone⟩ := h.listener hl
    refine ⟨fd, hfd, ?_⟩
    by_cases hne : fd = obj
    · simp [hne]
    · simp [Function.update_of_ne hne, hnone]
  · intro fd
    exact Iff.rfl
  · intro fd
    apply or_congr_right
    constructor
    · rintro ⟨i, c, hi, ho, hfd⟩
      exact ⟨i, c, hobj i c hi, ho, hfd⟩
    · rintro ⟨i, c, hi, ho, hfd⟩
      have hne : i ≠ obj := by
        rintro rfl
        simp [hclosed c hi] at ho
      exact ⟨i, c, by simp [Function.update_of_ne hne, hi], ho, hfd⟩

/-- After `close` the object is closed, if it is there. -/
theorem method_close_closed (obj : Sock) {c : Conn}
    (hc : (s.method obj (Conn.close Kernel.net)).objects obj = some c) : c.isOpen = false := by
  unfold method at hc
  split at hc
  · next hnone => simp [hnone] at hc
  · next c₀ _ =>
    obtain rfl : _ = c := by simpa [store, Conn.close_run] using hc
    exact Conn.shut_isOpen Kernel.net ⟨c₀, s.kernel⟩

def unlistened (s : Endpoint) : Endpoint :=
  match s.listening, s.sockFd with
  | true, some fd => { s with kernel := s.kernel.release fd, listening := false }
  | _, _ => { s with listening := false }

theorem closeListener_run (s : Endpoint) : Bknd.closeListener s = .ok () s.unlistened := by
  obtain ⟨k, listening, sockFd, initialized, objects⟩ := s
  cases listening <;> cases sockFd <;> rfl

theorem unlistened_listening (s : Endpoint) : s.unlistened.listening = false := by
  unfold unlistened
  split <;> rfl

theorem Safe.keeps_unlistened (h : Safe s) : Keeps s s.unlistened := by
  unfold unlistened
  split
  · next fd hl hfd =>
    -- closing takes the socket from both sides of the account
    obtain ⟨fd', hfd', hnone⟩ := h.listener hl
    obtain rfl : fd = fd' := Option.some.inj (hfd.symm.trans hfd')
    have hfdown : s.Owned fd := Or.inl ⟨hl, hfd⟩
    have hnamed : Named { s with kernel := s.kernel.release fd, listening := false } := h.named
    have howned : ∀ x, Owned { s with kernel := s.kernel.release fd, listening := false } x ↔
        s.Owned x ∧ x ≠ fd := by
      intro x
      constructor
      · rintro (⟨hoff, -⟩ | ⟨obj, c, hc, ho, hx⟩)
        · cases hoff
        · refine ⟨Or.inr ⟨obj, c, hc, ho, hx⟩, ?_⟩
          rintro rfl
          rw [← hx, (h.named obj c hc).1, hc] at hnone
          cases hnone
      · rintro ⟨⟨-, hx⟩ | hobj, hne⟩
        · exact absurd (Option.some.inj (hx.symm.trans hfd)) hne
        · exact Or.inr hobj
    refine ⟨⟨h.good.release (h.owned fd hfdown), hnamed, fun x ho => ?_, by simp⟩, fun x => ?_⟩
    · rw [howned] at ho
      exact mem_held_release.mpr ⟨h.owned x ho.1, ho.2⟩
    · -- the listener's socket was no stray, and is none now
      unfold Stray
      rw [howned]
      show x ∈ held (.release fd :: s.kernel.log) ∧ _ ↔ _
      rw [mem_held_release]
      by_cases hx : x = fd
      · subst hx
        simp [hfdown]
      · simp [hx]
  · next hl =>
    have hoff : s.listening = false := by
      cases hon : s.listening with
      | false => rfl
      | true =>
        obtain ⟨fd, hfd, -⟩ := h.listener hon
        exact absurd hfd (hl fd hon)
    have hsame : { s with listening := false } = s := by
      rw [← hoff]
    rw [hsame]
    exact h.keeps_refl

/-- A new listening socket, when all its calls succeeded, and otherwise a socket that
nothing refers to but `sock_fd`. -/
def raised (s : Endpoint) (calls : List SockCall) (ok : Bool) : Endpoint :=
  { s with kernel := s.kernel.opened calls, sockFd := some s.kernel.next, listening := ok }

def lost (s : Endpoint) (calls : List SockCall) : Endpoint :=
  { s with kernel := s.kernel.opened calls }

def joined (s : Endpoint) (calls : List SockCall) : Endpoint :=
  { s with
    kernel := s.kernel.opened calls
    objects := Function.update s.objects s.kernel.next (some ⟨s.kernel.next, true⟩) }

theorem Safe.next_no_object (h : Safe s) : s.objects s.kernel.next = none := by
  cases hc : s.objects s.kernel.next with
  | none => rfl
  | some c => exact absurd (h.named _ c hc).2 (Nat.lt_irrefl _)

theorem Safe.next_not_owned (h : Safe s) : ¬ s.Owned s.kernel.next := by
  intro ho
  exact h.good.next_not_held (h.owned _ ho)

/-- A new socket on top of what was held, owned or not. -/
theorem Safe.opened (h : Safe s) (s' : Endpoint) {calls : List SockCall}
    (hk : s'.kernel = s.kernel.opened calls) (hnamed : s'.Named)
    (hl : s'.listening = true → ∃ fd, s'.sockFd = some fd ∧ s'.objects fd = none)
    (howned : ∀ fd, fd ≠ s.kernel.next → (s'.Owned fd ↔ s.Owned fd)) :
    Safe s' ∧ ∀ fd, s'.Stray fd ↔ s.Stray fd ∨ (fd = s.kernel.next ∧ ¬ s'.Owned fd) := by
  obtain ⟨hgood, -, hheld⟩ := h.good.opened_held calls
  rw [← hk] at hgood hheld
  refine ⟨⟨hgood, hnamed, ?_, hl⟩, ?_⟩
  · intro fd ho
    rw [hheld, List.mem_cons]
    by_cases hne : fd = s.kernel.next
    · exact Or.inl hne
    · exact Or.inr (h.owned fd ((howned fd hne).mp ho))
  · intro fd
    unfold Stray
    rw [hheld, List.mem_cons]
    by_cases hne : fd = s.kernel.next
    · subst hne
      simp [h.good.next_not_held]
    · simp [hne, howned fd hne]

/-- The objects keep their names when a socket number is used up. -/
theorem Named.opened (h : s.Named) (hgood : s.kernel.Good) (calls : List SockCall) :
    ∀ obj c, s.objects obj = some c → c.fd = obj ∧ obj < (s.kernel.opened calls).next := by
  intro obj c hc
  obtain ⟨hfd, hlt⟩ := h obj c hc
  rw [(hgood.opened_held calls).2.1]
  exact ⟨hfd, Nat.lt_succ_of_lt hlt⟩

theorem Safe.raised (h : Safe s) (hoff : s.listening = false) (calls : List SockCall) (ok : Bool) :
    Safe (s.raised calls ok) ∧
      ∀ fd, (s.raised calls ok).Stray fd ↔ s.Stray fd ∨ (fd = s.kernel.next ∧ ok = false) := by
  have howned : ∀ fd, (s.raised calls ok).Owned fd ↔
      (ok = true ∧ s.kernel.next = fd) ∨ s.Owned fd := by
    intro fd
    simp only [Owned, Endpoint.raised, hoff, Option.some.injEq, Bool.false_eq_true, false_and,
      false_or]
  obtain ⟨hsafe, hstray⟩ := h.opened (s.raised calls ok) rfl (h.named.opened h.good calls)
    (fun _ => ⟨_, rfl, h.next_no_object⟩) (fun fd hne => by simp [howned, Ne.symm hne])
  refine ⟨hsafe, fun fd => ?_⟩
  rw [hstray, howned]
  by_cases hfd : fd = s.kernel.next
  · subst hfd
    simp [h.next_not_owned]
  · simp [hfd]

theorem Safe.lost (h : Safe s) (calls : List SockCall) :
    Safe (s.lost calls) ∧ ∀ fd, (s.lost calls).Stray fd ↔ s.Stray fd ∨ fd = s.kernel.next := by
  have howned : ∀ fd, (s.lost calls).Owned fd ↔ s.Owned fd := fun _ => Iff.rfl
  obtain ⟨hsafe, hstray⟩ := h.opened (s.lost calls) rfl (h.named.opened h.good calls)
    h.listener (fun fd _ => howned fd)
  refine ⟨hsafe, fun fd => ?_⟩
  rw [hstray, howned]
  by_cases hfd : fd = s.kernel.next
  · subst hfd
    simp [h.next_not_owned]
  · simp [hfd]

theorem Safe.keeps_joined (h : Safe s) (calls : List SockCall) : Keeps s (s.joined calls) := by
  have hnamed : (s.joined calls).Named := by
    intro obj c hc
    by_cases hne : obj = s.kernel.next
    · subst hne
      obtain rfl : _ = c := by simpa [joined] using hc
      refine ⟨rfl, ?_⟩
      show s.kernel.next < (s.kernel.opened calls).next
      rw [(h.good.opened_held calls).2.1]
      exact Nat.lt_succ_self _
    · have hc' : s.objects obj = some c := by simpa [joined, Function.update_of_ne hne] using hc
      exact h.named.opened h.good calls obj c hc'
  have hl : s.listening = true →
      ∃ fd, s.sockFd = some fd ∧ (s.joined calls).objects fd = none := by
    intro hon
    obtain ⟨fd, hfd, hnone⟩ := h.listener hon
    have hne : fd ≠ s.kernel.next := by
      rintro rfl
      exact h.next_not_owned (Or.inl ⟨hon, hfd⟩)
    exact ⟨fd, hfd, by simp [joined, Function.update_of_ne hne, hnone]⟩
  obtain ⟨hsafe, hstray⟩ := h.opened (s.joined calls) rfl hnamed hl (by
    intro fd hne
    rw [hnamed.owned_iff, h.named.owned_iff]
    simp only [joined, Function.update_of_ne hne])
  refine ⟨hsafe, fun fd => ?_⟩
  rw [hstray]
  have hmine : (s.joined calls).Owned s.kernel.next :=
    Or.inr ⟨_, _, Function.update_self .., rfl, rfl⟩
  constructor
  · rintro (hs | ⟨rfl, hn⟩)
    · exact hs
    · exact absurd hmine hn
  · exact Or.inl

end Endpoint

end VmPlayback
