import VmPlayback.MessageConnection

namespace VmPlayback.Framing

open Exec Conn MessageConnection

variable (o : ByteOrder) (cls : ConnectionClass) (fresh : Mem)

def afterWrites (ms : List Message) (w : ConnState Pipe) : ConnState Pipe :=
  ms.foldl (fun w m => final (writeMessage o Pipe.net cls m w)) w

def read : ConnM Pipe Message := readMessage o Pipe.net cls (fun _ => true) fresh

def afterReads (k : ℕ) (r : ConnState Pipe) : ConnState Pipe :=
  (fun r => final (read o cls fresh r))^[k] r

theorem afterWrites_append (pre : List Message) (m : Message) (mid : List Message)
    (w : ConnState Pipe) :
    afterWrites o cls (pre ++ m :: mid) w =
      afterWrites o cls mid (final (writeMessage o Pipe.net cls m (afterWrites o cls pre w))) := by
  rw [afterWrites, List.foldl_append]
  rfl

theorem afterWrites_closed {w : ConnState Pipe} (h : w.conn.isOpen = false) (ms : List Message) :
    afterWrites o cls ms w = w := by
  induction ms with
  | nil => rfl
  | cons m ms ih =>
    rw [afterWrites, List.foldl_cons, writeMessage_closed o _ cls h, final_error]
    exact ih

/-- What has been accepted is a prefix of the encodings, all of them while the
connection is open. -/
theorem afterWrites_accepted {w : ConnState Pipe} (ho : w.conn.isOpen = true)
    (ms : List Message) :
    ∃ p, p <+: ms.flatMap (Message.wire o) ∧
      (afterWrites o cls ms w).net.accepted = w.net.accepted ++ p := by
  induction ms generalizing w with
  | nil => exact ⟨[], List.prefix_rfl, (List.append_nil _).symm⟩
  | cons m ms ih =>
    rw [afterWrites, List.foldl_cons, List.flatMap_cons]
    rcases writeMessage_cases o cls ho m with ⟨w', hw, ho', ha⟩ | ⟨e, w', p, hw, hc, hp, ha⟩
    · obtain ⟨p, hp, hacc⟩ := ih ho'
      refine ⟨m.wire o ++ p, (List.prefix_append_right_inj _).mpr hp, ?_⟩
      rw [hw, final_ok, ← List.append_assoc, ← ha]
      exact hacc
    · refine ⟨p, hp.trans (List.prefix_append _ _), ?_⟩
      rw [hw, final_error, ← ha]
      exact congrArg (fun w => w.net.accepted) (afterWrites_closed o cls hc ms)

theorem writeMessage_error_closes {w : ConnState Pipe} {m : Message} {e : CommException}
    {w' : ConnState Pipe} (h : writeMessage o Pipe.net cls m w = .error e w') :
    w'.conn.isOpen = false := by
  by_cases ho : w.conn.isOpen = true
  · rcases writeMessage_cases o cls ho m with ⟨s, hs, -⟩ | ⟨e', s, p, hs, hc, -⟩
    · rw [hs] at h
      cases h
    · rw [hs] at h
      cases h
      exact hc
  · have hc : w.conn.isOpen = false := by simpa using ho
    rw [writeMessage_closed o _ cls hc] at h
    cases h
    exact hc

/-- The bytes behind `n` whole messages: nothing after the last one, or the beginning
of the next one and not all of it. -/
def CutAt (ms : List Message) (n : ℕ) (tail : List UInt8) : Prop :=
  (n = ms.length ∧ tail = []) ∨
    ∃ m, ms[n]? = some m ∧ tail <+: m.wire o ∧ tail.length < (m.wire o).length

/-- A prefix of a sequence of encodings is cut behind some whole messages. -/
theorem prefix_split (ms : List Message) {p : List UInt8} (hp : p <+: ms.flatMap (Message.wire o)) :
    ∃ n tail, n ≤ ms.length ∧ p = (ms.take n).flatMap (Message.wire o) ++ tail ∧
      CutAt o ms n tail := by
  induction ms generalizing p with
  | nil => exact ⟨0, [], Nat.le_refl _, by simpa using hp, Or.inl ⟨rfl, rfl⟩⟩
  | cons m ms ih =>
    rw [List.flatMap_cons] at hp
    -- the cut falls inside the first message or behind it
    by_cases hlt : p.length < (m.wire o).length
    · have hm : p <+: m.wire o :=
        List.prefix_of_prefix_length_le hp (List.prefix_append _ _) (Nat.le_of_lt hlt)
      exact ⟨0, p, Nat.zero_le _, rfl, Or.inr ⟨m, rfl, hm, hlt⟩⟩
    · obtain ⟨q, rfl⟩ : m.wire o <+: p :=
        List.prefix_of_prefix_length_le (List.prefix_append _ _) hp (Nat.le_of_not_lt hlt)
      obtain ⟨n, tail, hn, hq, hend⟩ := ih ((List.prefix_append_right_inj _).mp hp)
      refine ⟨n + 1, tail, Nat.succ_le_succ hn, ?_, ?_⟩
      · rw [List.take_succ_cons, List.flatMap_cons, List.append_assoc, ← hq]
      · rcases hend with ⟨hl, ht⟩ | hm
        · exact Or.inl ⟨congrArg Nat.succ hl, ht⟩
        · exact Or.inr hm

theorem wire_take_isPrefix (ms : List Message) {j k : ℕ} (h : j ≤ k) :
    (ms.take j).flatMap (Message.wire o) <+: (ms.take k).flatMap (Message.wire o) := by
  obtain ⟨d, rfl⟩ := Nat.exists_eq_add_of_le h
  rw [List.take_add, List.flatMap_append]
  exact List.prefix_append _ _

/-- The whole messages in front of the cut are all there are. -/
theorem CutAt.whole_iff {ms : List Message} {n : ℕ} {tail : List UInt8} (h : CutAt o ms n tail)
    {k : ℕ} (hk : k ≤ ms.length) :
    (ms.take k).flatMap (Message.wire o) <+: (ms.take n).flatMap (Message.wire o) ++ tail ↔
      k ≤ n := by
  constructor
  · intro hpre
    by_contra hnk
    rcases h with ⟨rfl, -⟩ | ⟨m, hm, -, hlt⟩
    · exact hnk hk
    · -- one more message would not fit
      have hlen := ((wire_take_isPrefix o ms (Nat.succ_le_of_lt (Nat.lt_of_not_le hnk))).trans
        hpre).length_le
      rw [List.take_add_one, hm] at hlen
      simp only [Option.toList_some, List.flatMap_append, List.flatMap_cons,
        List.flatMap_nil, List.append_nil, List.length_append] at hlen
      omega
  · intro hkn
    exact (wire_take_isPrefix o ms hkn).trans (List.prefix_append _ _)

theorem afterReads_succ (k : ℕ) (r : ConnState Pipe) :
    afterReads o cls fresh (k + 1) r = afterReads o cls fresh k (final (read o cls fresh r)) :=
  Function.iterate_succ_apply _ _ _

/-- Whole messages at the front of the stream come out one by one. -/
theorem reads_whole (pre : List Message) (hm : ∀ m ∈ pre, m.length.toNat < 2 ^ 31)
    {r : ConnState Pipe} (ho : r.conn.isOpen = true) {rest : List UInt8}
    (hi : r.net.incoming = pre.flatMap (Message.wire o) ++ rest) :
    (afterReads o cls fresh pre.length r).conn.isOpen = true ∧
    (afterReads o cls fresh pre.length r).net.incoming = rest ∧
    ∀ k < pre.length, ∃ m m' s', pre[k]? = some m ∧
      read o cls fresh (afterReads o cls fresh k r) = .ok m' s' ∧ m'.Same m := by
  induction pre generalizing r with
  | nil => exact ⟨ho, hi, by simp⟩
  | cons m pre ih =>
    rw [List.flatMap_cons, List.append_assoc] at hi
    obtain ⟨m', k', hread, hsame⟩ := readMessage_whole o cls fresh ho
      (Or.inr (hm m List.mem_cons_self)) hi (fun _ => true) rfl
    have hin : (delivered r (m.wire o).length k').net.incoming =
        pre.flatMap (Message.wire o) ++ rest := by
      simp only [delivered, hi, List.drop_left]
    obtain ⟨h₁, h₂, h₃⟩ := ih (fun m hm' => hm m (List.mem_cons_of_mem _ hm'))
      (r := delivered r (m.wire o).length k') ho hin
    have hstep : final (read o cls fresh r) = delivered r (m.wire o).length k' := by
      rw [read, hread, final_ok]
    refine ⟨?_, ?_, ?_⟩
    · rwa [List.length_cons, afterReads_succ, hstep]
    · rwa [List.length_cons, afterReads_succ, hstep]
    · intro k hk
      cases k with
      | zero => exact ⟨m, m', _, rfl, hread, hsame⟩
      | succ k =>
        rw [afterReads_succ, hstep]
        exact h₃ k (Nat.lt_of_succ_lt_succ hk)

/-- Once a read has closed its end, every later one throws and changes nothing. -/
theorem reads_closed {r : ConnState Pipe} (h : r.conn.isOpen = false) (k : ℕ) :
    afterReads o cls fresh k r = r := by
  induction k with
  | zero => rfl
  | succ k ih =>
    rw [afterReads_succ, read, readMessage_closed o _ cls h, final_error]
    exact ih

/-- The read at the cut throws and closes, and so do all after it. -/
theorem reads_behind_cut {r : ConnState Pipe} {ms : List Message} {n : ℕ}
    (hms : ∀ m ∈ ms, m.length.toNat < 2 ^ 31)
    (ho : (afterReads o cls fresh n r).conn.isOpen = true)
    (hcut : CutAt o ms n (afterReads o cls fresh n r).net.incoming) {k : ℕ} (hk : n ≤ k) :
    ∃ e s', read o cls fresh (afterReads o cls fresh k r) = .error e s' ∧
      s'.conn.isOpen = false := by
  have hthrow : ∃ e s', read o cls fresh (afterReads o cls fresh n r) = .error e s' ∧
      s'.conn.isOpen = false := by
    -- an empty rest is the beginning of any message
    obtain ⟨m, hm, hpre, hlt⟩ : ∃ m : Message, m.length.toNat < 2 ^ 31 ∧
        (afterReads o cls fresh n r).net.incoming <+: m.wire o ∧
        (afterReads o cls fresh n r).net.incoming.length < (m.wire o).length := by
      rcases hcut with ⟨-, hnil⟩ | ⟨m, hm, hpre, hlt⟩
      · rw [hnil]
        exact ⟨⟨0, 0, fun _ => 0⟩, by decide, List.nil_prefix, by simp⟩
      · exact ⟨m, hms m (List.mem_of_getElem? hm), hpre, hlt⟩
    obtain ⟨e, s', hread, hc⟩ := readMessage_partial o cls fresh ho (Or.inr hm) hpre hlt
      (fun _ => true)
    exact ⟨e, s', hread, hc rfl⟩
  obtain ⟨e, s', hread, hclosed⟩ := hthrow
  obtain ⟨d, rfl⟩ := Nat.exists_eq_add_of_le hk
  cases d with
  | zero => exact ⟨e, s', hread, hclosed⟩
  | succ d =>
    have hstate : afterReads o cls fresh (n + (d + 1)) r = s' := by
      rw [show n + (d + 1) = d + 1 + n from by omega, afterReads, Function.iterate_add_apply,
        ← afterReads, ← afterReads, afterReads_succ, hread, final_error]
      exact reads_closed o cls fresh hclosed d
    rw [hstate, read, readMessage_closed o _ cls hclosed]
    exact ⟨_, s', rfl, hclosed⟩

/-- Two ends of one connection, each of any class.  `n` messages are wholly in the
delivered bytes: the first `n` reads return them, the next one throws and leaves
its end closed, and so does every read after it.  On the writing end, nothing is
accepted any more once a write has thrown. -/
theorem framing_keeps_in_step (wcls rcls : ConnectionClass) (ms : List Message)
    (hms : ∀ m ∈ ms, m.length.toNat < 2 ^ 31) {w r : ConnState Pipe}
    (hw : w.conn.isOpen = true) (hnew : w.net.accepted = []) (hr : r.conn.isOpen = true)
    (hd : r.net.incoming <+: (afterWrites o wcls ms w).net.accepted) :
    (∃ n ≤ ms.length,
      (∀ k ≤ ms.length, (ms.take k).flatMap (Message.wire o) <+: r.net.incoming ↔ k ≤ n) ∧
      (∀ k < n, ∃ m m' s', ms[k]? = some m ∧
        read o rcls fresh (afterReads o rcls fresh k r) = .ok m' s' ∧ m'.Same m) ∧
      (∀ k ≥ n, ∃ e s', read o rcls fresh (afterReads o rcls fresh k r) = .error e s' ∧
        s'.conn.isOpen = false)) ∧
    (∀ pre m mid m' post, ms = pre ++ m :: (mid ++ m' :: post) →
      (∃ e s', writeMessage o Pipe.net wcls m (afterWrites o wcls pre w) = .error e s') →
      ∃ e, writeMessage o Pipe.net wcls m' (afterWrites o wcls (pre ++ m :: mid) w) =
        .error e (afterWrites o wcls (pre ++ m :: mid) w)) := by
  constructor
  · -- what was delivered is a prefix of the encodings, whatever failed on the way
    obtain ⟨p, hp, hacc⟩ := afterWrites_accepted o wcls hw ms
    rw [hnew, List.nil_append] at hacc
    rw [hacc] at hd
    obtain ⟨n, tail, hn, hsplit, hcut⟩ := prefix_split o ms (hd.trans hp)
    obtain ⟨hopen, hrest, hreads⟩ := reads_whole o rcls fresh (ms.take n)
      (fun m hm => hms m (List.mem_of_mem_take hm)) hr hsplit
    rw [List.length_take_of_le hn] at hopen hrest hreads
    refine ⟨n, hn, ?_, ?_, ?_⟩
    · intro k hk
      rw [hsplit]
      exact hcut.whole_iff o hk
    · intro k hk
      obtain ⟨m, m', s', hm, hread⟩ := hreads k hk
      exact ⟨m, m', s', by rwa [List.getElem?_take_of_lt hk] at hm, hread⟩
    · intro k hk
      exact reads_behind_cut o rcls fresh hms hopen (by rwa [hrest]) hk
  · rintro pre m mid m' post rfl ⟨e, s', herr⟩
    have hclosed := writeMessage_error_closes o wcls herr
    have hstate : afterWrites o wcls (pre ++ m :: mid) w = s' := by
      rw [afterWrites_append, herr, final_error]
      exact afterWrites_closed o wcls hclosed mid
    rw [hstate]
    exact ⟨_, writeMessage_closed o _ wcls hclosed m'⟩

/-- Three bytes and an empty message, delivered up to the middle of the second header. -/
theorem framing_cut_in_second_header :
    let r : ConnState Pipe := ⟨⟨1, true⟩, [], fun _ => .full, 0,
      [4, 0, 0, 0, 3, 0, 0, 0, 1, 2, 3, 7, 0], fun _ => 2, 0, false⟩
    (∃ m s', read .little .ftndUdpConnection (fun _ => 0xCD) r = .ok m s' ∧
      (m.header, m.length, m.bytes) = (4, 3, [1, 2, 3])) ∧
    ∃ e s', read .little .ftndUdpConnection (fun _ => 0xCD)
      (afterReads .little .ftndUdpConnection (fun _ => 0xCD) 1 r) = .error e s' ∧
      s'.conn.isOpen = false := by
  intro r
  obtain ⟨⟨n, hn, hpre, hok, hbad⟩, -⟩ := framing_keeps_in_step .little (fun _ => 0xCD)
    .bkndUdpConnection .ftndUdpConnection
    [⟨4, 3, fun i => UInt8.ofNat (i + 1)⟩, ⟨7, 0, fun _ => 0⟩] (by decide)
    (w := ⟨⟨0, true⟩, [], fun _ => .full, 0, [], fun _ => 0, 0, false⟩) (r := r)
    rfl rfl rfl (by decide)
  have h1 : 1 ≤ n := (hpre 1 (by decide)).mp (by decide)
  have h2 : ¬ 2 ≤ n := fun h => absurd ((hpre 2 (by decide)).mpr h) (by decide)
  obtain ⟨m, m', s', hm, hread, hh, hl, hb⟩ := hok 0 h1
  obtain rfl : ⟨4, 3, fun i => UInt8.ofNat (i + 1)⟩ = m := Option.some.inj hm
  exact ⟨⟨m', s', hread, by rw [hh, hl, hb]; rfl⟩, hbad 1 (by omega)⟩

end VmPlayback.Framing
