import VmPlayback.Transitions

namespace VmPlayback.Playback

variable (o : ByteOrder) {s s' : State} {e : Event}

def Effect.Within (length : ℕ) : Effect → Prop
  | .contentRead offset size => offset + size ≤ length
  | .decodeVideo _ data size => 0 ≤ size.toInt ∧ data + size.toInt ≤ length
  | _ => True

/-- Whatever handling the message looks at or passes on is inside the message. -/
def PayloadSafe (s : State) (e : Event) : Prop :=
  match e with
  | .decodeMessage m _ => ∀ effect ∈ (step o s e).effects, effect.Within m.length.toNat
  | _ => True

/-- The message is long enough for what its header announces. -/
def WellSized (m : Message) : Prop :=
  (m.header = 1 → 4 ≤ m.length.toNat) ∧
  (m.header = 4 → 4 ≤ m.length.toNat ∧ 0 ≤ (leadingInt o m).toInt ∧
    4 + (leadingInt o m).toInt ≤ m.length.toNat)

def HandlesWellSized (s : State) (e : Event) : Prop :=
  match e with
  | .decodeMessage m _ => e.Enabled s → WellSized o m
  | _ => True

theorem payloadSafe_step_iff (hr : Alive Rest s) (e : Event) :
    PayloadSafe o s e ↔ HandlesWellSized o s e := by
  cases e with
  | decodeMessage m lib =>
    unfold PayloadSafe HandlesWellSized WellSized
    by_cases he : (Event.decodeMessage m lib).Enabled s
    · have hturn := step_move o (hr he.1).1 he
      generalize step o s (.decodeMessage m lib) = s' at hturn
      rcases hturn with hmove | hhalt
      · cases hmove with
        | otherHeader h1 h4 => simp [quiet, h1, h4]
        | codecOpened h1 => simp [he, h1, Effect.Within]
        | packet h4 => simp [he, h4, decoded, Effect.Within]
      · cases hhalt with
        | codecThrown h1 _ _ _ _ _ heff => simp [he, h1, heff, Effect.Within]
        | codecStopped h1 _ _ _ heff => simp [he, h1, heff, Effect.Within]
        | packetNull h4 _ _ heff => simp [he, h4, heff, Effect.Within]
    · simp [step_disabled o he, quiet, he]
  | _ => exact Iff.rfl

/-- The decode port keeps to its messages exactly as long as they are well sized. -/
theorem payload_safe_iff (es : List Event) :
    Along (step o) (PayloadSafe o) init es ↔ Along (step o) (HandlesWellSized o) init es := by
  apply along_iff_of_invariant (J := Alive Rest)
  · intro s e hr
    exact payloadSafe_step_iff o hr e
  · intro s e hr _
    exact rest_step o hr e
  · exact rest_init

def willing : LibavOutcome := ⟨true, some (1280, 720), true, true, 0, false, 0, 0⟩

def intMessage (header value : Int32) : Message :=
  ⟨header, 4, fun i => (Scalar.int.encode .little value).getD i 0⟩

/-- An empty codec message is read all the same, and a packet that claims two
gigabytes goes to the decoder. -/
theorem unchecked_sizes :
    (step .little (step .little init .decodeAccept)
      (.decodeMessage ⟨1, 0, fun _ => 0⟩ willing)).effects = [.contentRead 0 4] ∧
    (∃ c, .decodeVideo (some c) 4 2147483647 ∈
      ([.decodeAccept, .decodeMessage (intMessage 1 8) willing,
        .decodeMessage (intMessage 4 2147483647) willing].foldl (step .little) init).effects) ∧
    ¬ Along (step .little) (PayloadSafe .little) init
      [.decodeAccept, .decodeMessage (intMessage 1 8) willing,
        .decodeMessage (intMessage 4 2147483647) willing] := by
  have hcall : .decodeVideo (some ⟨0, 0, 0, true, false⟩) 4 2147483647 ∈
      ([.decodeAccept, .decodeMessage (intMessage 1 8) willing,
        .decodeMessage (intMessage 4 2147483647) willing].foldl (step .little) init).effects := by
    decide
  refine ⟨by decide, ⟨_, hcall⟩, ?_⟩
  intro h
  exact absurd (h.2.2.1 _ hcall).2 (by decide)

def DecodesOpened (s : State) (e : Event) : Prop :=
  ∀ avctx data size, .decodeVideo avctx data size ∈ (step o s e).effects →
    ∃ c, avctx = some c ∧ c.opened = true

def Handles (header : Int32) (s : State) (e : Event) : Prop :=
  match e with
  | .decodeMessage m _ => m.header = header ∧ e.Enabled s
  | _ => False

theorem Handles.enabled {header : Int32} (h : Handles header s e) : e.Enabled s := by
  cases e with
  | decodeMessage m lib => exact h.2
  | _ => exact absurd h id

def ContextOpen (s : State) : Prop := ∃ c, s.va.avctx = some c ∧ c.opened = true

variable {o}

theorem Move.contextOpen (h : Move o s e s') (hc : ContextOpen s) : ContextOpen s' := by
  obtain ⟨c, hc, ho⟩ := hc
  cases h with
  | codecOpened => exact ⟨_, rfl, rfl⟩
  | packet _ hc' =>
    rw [hc] at hc'
    cases hc'
    exact ⟨_, rfl, ho⟩
  | _ => exact ⟨c, hc, ho⟩

/-- A codec message that does not end the process leaves an open context. -/
theorem Move.contextOpen_of_handles (h : Move o s e s') (he : Handles 1 s e) :
    ContextOpen s' := by
  cases h with
  | codecOpened => exact ⟨_, rfl, rfl⟩
  | otherHeader h1 => exact absurd he.1 h1
  | packet h4 => exact absurd (h4.symm.trans he.1) (by decide)
  | _ => exact absurd he id

/-- No other message makes one. -/
theorem Move.avctx_none (h : Move o s e s') (hn : s.va.avctx = none) (hen : e.Enabled s)
    (he : ¬ Handles 1 s e) : s'.va.avctx = none := by
  cases h with
  | codecOpened h1 => exact absurd ⟨h1, hen⟩ he
  | packet _ hc => rw [hn] at hc; cases hc
  | _ => exact hn

/-- The decoder is called by a packet message and with the context of that moment. -/
theorem decodeVideo_mem_iff (hr : Alive Rest s) {avctx : Option AVCodecContext} :
    (∃ data size, .decodeVideo avctx data size ∈ (step o s e).effects) ↔
      Handles 4 s e ∧ avctx = s.va.avctx := by
  by_cases he : e.Enabled s
  · have hturn := step_move o (hr he.1).1 he
    generalize step o s e = s' at hturn ⊢
    rcases hturn with hmove | hhalt
    · cases hmove with
      | packet h4 hc => simp [decoded, Handles, h4, he, hc]
      | codecOpened h1 => simp [Handles, h1]
      | otherHeader h1 h4 => simp [quiet, Handles, h4]
      | drawSkipped | drawCreated | dropped => simp [Handles, mem_freed]
      | displayed => simp [Handles]
      | _ => simp [Handles, quiet]
    · cases hhalt with
      | codecThrown h1 _ _ _ _ _ heff => simp [Handles, heff, h1]
      | codecStopped h1 _ _ _ heff => simp [Handles, heff, h1]
      | packetNull h4 hc _ heff => simp [Handles, heff, h4, he, hc]
      | drawTrapped _ _ _ _ heff => simp [Handles, heff]
  · have hno : ¬ Handles 4 s e := fun h => he h.enabled
    simp [step_disabled o he, quiet, hno]

variable (o)

theorem contextOpen_of_handles (hr : Alive Rest s) (h1 : Handles 1 s e) :
    Alive ContextOpen (step o s e) := by
  intro hs
  rcases step_move o (hr h1.enabled.1).1 h1.enabled with hmove | hhalt
  · exact hmove.contextOpen_of_handles h1
  · exact absurd hs hhalt.not_running

/-- The decoder is given an open context exactly as long as no packet message is
handled before a codec message has been. -/
theorem decodes_opened_iff (es : List Event) :
    Along (step o) (DecodesOpened o) init es ↔
      ∀ pre e post, es = pre ++ e :: post → Handles 4 (pre.foldl (step o) init) e →
        Happened (step o) (Handles 1) init pre := by
  rw [along_iff_split]
  constructor
  · intro h pre e post hes h4
    by_contra hno
    -- without a codec message the context stays the null pointer of `va_init`
    have hnull : Alive (fun s => s.va.avctx = none) (pre.foldl (step o) init) := by
      refine alive_run o (K := fun s => s.va.avctx = none) (fun _ hn => hn) ?_ rest_init
        (fun _ => rfl) ((not_happened_iff _ _).mp hno)
      intro s e s' hn hq he hmove
      exact hmove.avctx_none hn he hq
    obtain ⟨data, size, hmem⟩ := (decodeVideo_mem_iff (o := o) (rest_run o rest_init pre)).mpr
      ⟨h4, rfl⟩
    obtain ⟨c, hc, -⟩ := h pre e post hes _ data size hmem
    rw [hnull h4.enabled.1] at hc
    cases hc
  · intro h pre e post hes avctx data size hmem
    obtain ⟨h4, rfl⟩ := (decodeVideo_mem_iff (rest_run o rest_init pre)).mp ⟨data, size, hmem⟩
    have hopen : Alive ContextOpen (pre.foldl (step o) init) := by
      refine invariant_of_happened (I := Alive Rest) (J := Alive ContextOpen)
        (fun s e hr => rest_step o hr e) ?_ ?_ rest_init (h pre e post hes h4)
      · intro s e hr h1
        exact contextOpen_of_handles o hr h1
      · intro s e hr hc
        exact alive_step o hr hc id fun s' hk _ hmove => hmove.contextOpen hk
    exact hopen h4.enabled.1

/-- The first message may be a packet. -/
theorem packet_before_codec :
    (step .little (step .little init .decodeAccept)
      (.decodeMessage (intMessage 4 0) willing)).effects =
        [.contentRead 0 4, .decodeVideo none 4 0] ∧
    ¬ Along (step .little) (DecodesOpened .little) init
      [.decodeAccept, .decodeMessage (intMessage 4 0) willing] := by
  have hcall : (step .little (step .little init .decodeAccept)
      (.decodeMessage (intMessage 4 0) willing)).effects =
        [.contentRead 0 4, .decodeVideo none 4 0] := by decide
  refine ⟨hcall, ?_⟩
  intro h
  obtain ⟨c, hc, -⟩ := h.2.1 none 4 0 (by rw [hcall]; simp)
  cases hc

end VmPlayback.Playback
