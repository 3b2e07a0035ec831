import VmPlayback.DecodePort

namespace VmPlayback.Playback

variable (o : ByteOrder) {s s' : State} {e : Event}

def Pending (s : State) : Prop := s.va.playing = true ∧ s.va.needDraw = true

instance (s : State) : Decidable (Pending s) := inferInstanceAs (Decidable (_ ∧ _))

/-- A drawing call that gets past its checks finds the context that decoded the
frame, and can divide by its size. -/
def DrawCoherent (s : State) : Prop :=
  Pending s → ∃ c, s.va.avctx = some c ∧ s.va.frame = some c.id ∧ 0 < c.width ∧ 0 < c.height ∧
    (innerRect c.width c.height s.va.clientRect).isSome = true

/-- Every conversion the step makes takes the size of the frame's own context. -/
def ConvertsOwnFrame (s : State) (e : Event) : Prop :=
  ∀ overlay c frame width height, .convert overlay c frame width height ∈ (step o s e).effects →
    frame = some c.id ∧ 0 < c.width ∧ 0 < c.height

def CoherentStep (s : State) (e : Event) : Prop :=
  Alive DrawCoherent (step o s e) ∧ ConvertsOwnFrame o s e

/-- What libavcodec promises: a context that has returned a picture has a size. -/
def LibavSound (s : State) (e : Event) : Prop :=
  match e with
  | .decodeMessage m lib => e.Enabled s → m.header = 4 →
      s.va.avctx.any (fun c => c.pictured || lib.picture) = true → 0 < lib.width ∧ 0 < lib.height
  | _ => True

instance (s : State) : DecidablePred (LibavSound s)
  | .decodeMessage .. => inferInstanceAs (Decidable (_ → _))
  | .decodeAccept | .decodeFailure .. | .changeStart | .changeAccept | .changeMessage ..
  | .changeFailure .. | .draw .. | .drawFinish => isTrue trivial

def SwitchesIdle (s : State) (e : Event) : Prop :=
  match e with
  | .decodeMessage m lib => e.Enabled s → m.header = 1 →
      codecOpens (leadingInt o m) lib = true → ¬ Pending s
  | _ => True

instance (s : State) : DecidablePred (SwitchesIdle o s)
  | .decodeMessage .. => inferInstanceAs (Decidable (_ → _))
  | .decodeAccept | .decodeFailure .. | .changeStart | .changeAccept | .changeMessage ..
  | .changeFailure .. | .draw .. | .drawFinish => isTrue trivial

structure FrameInv (s : State) : Prop where
  owner : Pending s → ∃ c, s.va.avctx = some c ∧ s.va.frame = some c.id ∧ c.pictured = true
  sized : ∀ c, s.va.avctx = some c → c.pictured = true → 0 < c.width ∧ 0 < c.height
  fresh : ∀ c, s.va.avctx = some c → c.id < s.contexts

theorem FrameInv.drawCoherent (h : FrameInv s) : DrawCoherent s := by
  intro hp
  obtain ⟨c, hc, hf, hpic⟩ := h.owner hp
  obtain ⟨hw, hh⟩ := h.sized c hc hpic
  exact ⟨c, hc, hf, hw, hh, innerRect_isSome hw hh _⟩

theorem frameInv_init : FrameInv init where
  owner h := absurd h (by decide)
  sized _ h := nomatch h
  fresh _ h := nomatch h

theorem FrameInv.quiet (h : FrameInv s) : FrameInv (quiet s) := ⟨h.owner, h.sized, h.fresh⟩

/-- The packet case: a picture makes the frame the context's own. -/
theorem FrameInv.decoded (h : FrameInv s) {c : AVCodecContext} (hc : s.va.avctx = some c)
    (m : Message) {lib : LibavOutcome}
    (hl : (c.pictured || lib.picture) = true → 0 < lib.width ∧ 0 < lib.height) :
    FrameInv (decoded o s c m lib) := by
  refine ⟨?_, ?_, ?_⟩
  · rintro ⟨hp, hn⟩
    refine ⟨_, rfl, ?_⟩
    by_cases hpic : lib.picture = true
    · have hgot : lib.got = true := by
        unfold LibavOutcome.picture at hpic
        simpa using (Bool.and_eq_true_iff.mp hpic).2
      simp [Playback.decoded, hgot, hpic]
    · -- no picture: the frame was pending already
      simp only [Playback.decoded, hpic, Bool.or_false] at hp hn
      obtain ⟨c', hc', hf, hpict⟩ := h.owner ⟨hp, hn⟩
      rw [hc] at hc'
      cases hc'
      simp [Playback.decoded, hf, hpict]
  · intro c' hc' hpic
    cases hc'
    exact hl hpic
  · intro c' hc'
    cases hc'
    exact h.fresh c hc

variable {o}

theorem Move.frameInv (h : Move o s e s') (hi : FrameInv s) (he : e.Enabled s)
    (hl : LibavSound s e) (hq : SwitchesIdle o s e) : FrameInv s' := by
  cases h with
  | codecOpened h1 _ ho width height =>
    refine ⟨fun hp => absurd hp (hq he h1 ho), ?_, ?_⟩
    · intro c hc hpic
      cases hc
      cases hpic
    · intro c hc
      cases hc
      exact Nat.lt_succ_self _
  | packet h4 hc =>
    refine hi.decoded o hc _ fun hpic => hl he h4 ?_
    rw [hc]
    exact hpic
  | decodeFailure => exact ⟨fun hp => absurd hp.1 (by simp), hi.sized, hi.fresh⟩
  | drawCached | drawCreated => exact ⟨fun hp => absurd hp.2 (by simp), hi.sized, hi.fresh⟩
  | _ => exact ⟨hi.owner, hi.sized, hi.fresh⟩

/-- The converse: a switch under a pending frame leaves it to a stranger. -/
theorem Move.switchesIdle (h : Move o s e s') (hi : FrameInv s) (hd : DrawCoherent s') :
    SwitchesIdle o s e := by
  cases h with
  | codecOpened =>
    intro _ _ _ hp
    -- the frame would have to be the old context's and the new one's
    obtain ⟨c, hc, hf, -⟩ := hi.owner hp
    obtain ⟨c', hc', hf', -⟩ := hd hp
    cases hc'
    have hid : some c.id = some s.contexts := hf.symm.trans hf'
    exact absurd (Option.some.inj hid) (Nat.ne_of_lt (hi.fresh c hc))
  | otherHeader h1 => exact fun _ h => absurd h h1
  | packet h4 => exact fun _ h1 => absurd (h4.symm.trans h1) (by decide)
  | _ => exact trivial

theorem Halt.switchesIdle (h : Halt o s e s') : SwitchesIdle o s e := by
  cases h with
  | codecThrown _ _ ho => exact fun _ _ h => absurd (ho.symm.trans h) (by decide)
  | codecStopped _ _ ho => exact fun _ _ h => absurd (ho.symm.trans h) (by decide)
  | packetNull h4 => exact fun _ h1 => absurd (h4.symm.trans h1) (by decide)
  | drawTrapped => exact trivial

/-- A conversion is a drawing call's, of the pending frame, with the context there. -/
theorem convert_mem (hr : Alive Rest s) {overlay c frame width height}
    (h : .convert overlay c frame width height ∈ (step o s e).effects) :
    e.Enabled s ∧ Pending s ∧ s.va.avctx = some c ∧ frame = s.va.frame := by
  obtain ⟨he, hmove⟩ := move_of_effect o hr h (by simp) (by simp)
  generalize step o s e = s' at hmove h
  refine ⟨he, ?_⟩
  cases hmove with
  | drawCached hp hn hc =>
    simp only [List.mem_singleton, Effect.convert.injEq] at h
    exact ⟨⟨hp, hn⟩, by rw [hc, h.2.1], h.2.2.1⟩
  | drawCreated hp hn hc =>
    simp only [List.append_assoc, List.mem_append, mem_freed, reduceCtorEq, and_false,
      exists_false, List.mem_singleton, Effect.convert.injEq, false_or] at h
    exact ⟨⟨hp, hn⟩, by rw [hc, h.2.1], h.2.2.1⟩
  | drawSkipped | dropped => simp [mem_freed] at h
  | displayed => simp at h
  | packet => simp [decoded] at h
  | _ => simp [quiet] at h

variable (o)

theorem convertsOwnFrame (hr : Alive Rest s) (hi : Alive FrameInv s) (e : Event) :
    ConvertsOwnFrame o s e := by
  intro overlay c frame width height h
  obtain ⟨he, hp, hc, rfl⟩ := convert_mem hr h
  obtain ⟨c', hc', hf, hw, hh, -⟩ := (hi he.1).drawCoherent hp
  rw [hc] at hc'
  cases hc'
  exact ⟨hf, hw, hh⟩

theorem coherentStep_iff (hr : Alive Rest s) (hi : Alive FrameInv s) (hl : LibavSound s e) :
    CoherentStep o s e ↔ SwitchesIdle o s e := by
  unfold CoherentStep
  rw [and_iff_left (convertsOwnFrame o hr hi e)]
  by_cases he : e.Enabled s
  · rcases step_move o (hr he.1).1 he with hmove | hhalt
    · constructor
      · intro h
        exact hmove.switchesIdle (hi he.1) (h (hmove.status_eq.trans he.1))
      · intro hq _
        exact (hmove.frameInv (hi he.1) he hl hq).drawCoherent
    · exact iff_of_true (fun hs => absurd hs hhalt.not_running) hhalt.switchesIdle
  · rw [step_disabled o he]
    refine iff_of_true (fun hs => (hi hs).drawCoherent) ?_
    cases e with
    | decodeMessage m lib => exact fun h => absurd h he
    | _ => exact trivial

/-- Drawing stays coherent exactly as long as no codec is switched under a pending
frame. -/
theorem draw_coherent_iff (es : List Event) (hl : Along (step o) LibavSound init es) :
    Along (step o) (CoherentStep o) init es ↔ Along (step o) (SwitchesIdle o) init es := by
  refine along_iff_under (J := fun s => Alive Rest s ∧ Alive FrameInv s) ?_ ?_
    ⟨rest_init, fun _ => frameInv_init⟩ hl
  · rintro s e ⟨hr, hi⟩ hl
    exact coherentStep_iff o hr hi hl
  · rintro s e ⟨hr, hi⟩ hl hq
    refine ⟨rest_step o hr e, alive_step o hr hi FrameInv.quiet ?_⟩
    intro s' hi he hmove
    exact hmove.frameInv hi he hl hq

def pictured : LibavOutcome := { willing with got := true, width := 640, height := 480 }

/-- Between pictures the codec may change. -/
theorem draw_coherent_after_draw :
    Along (step .little) (CoherentStep .little) init
      [.decodeAccept, .decodeMessage (intMessage 1 8) willing,
        .decodeMessage (intMessage 4 0) pictured, .changeStart,
        .draw ⟨0, 800, 600⟩ 800 600 ⟨true, 1⟩, .drawFinish, .decodeMessage (intMessage 1 7) willing,
        .decodeMessage (intMessage 4 0) pictured, .draw ⟨0, 800, 600⟩ 800 600 ⟨true, 1⟩] :=
  (draw_coherent_iff .little _ (by decide)).mpr (by decide)

/-- A codec switched before the picture is drawn: the drawing call divides by the
width of the new context. -/
theorem switch_under_pending_frame :
    let es := [.decodeAccept, .decodeMessage (intMessage 1 8) willing,
      .decodeMessage (intMessage 4 0) pictured, .decodeMessage (intMessage 1 7) willing]
    let s := es.foldl (step .little) init
    Along (step .little) LibavSound init es ∧ Pending s ∧ s.va.frame = some 0 ∧
    s.va.avctx = some ⟨1, 0, 0, true, false⟩ ∧
    (step .little s (.draw ⟨0, 800, 600⟩ 800 600 ⟨true, 1⟩)).status = .crashed ∧
    ¬ Along (step .little) (CoherentStep .little) init es := by
  refine ⟨by decide, by decide, by decide, by decide, by decide, ?_⟩
  rintro ⟨-, -, -, ⟨h, -⟩, -⟩
  obtain ⟨c, hc, hf, -⟩ := h (by decide) (by decide)
  have hid : c.id = 1 := by
    have := Option.some.inj hc
    rw [← this]
    decide
  rw [hid] at hf
  exact absurd hf (by decide)

end VmPlayback.Playback
