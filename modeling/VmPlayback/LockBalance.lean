import VmPlayback.DecodePort

namespace VmPlayback.Playback

variable (o : ByteOrder) {s s' : State} {e : Event}

/-- Once a message or a draw has been handled, normally or through an exception,
its thread does not hold the mutex and the network threads are where they read. -/
def LockBalanced (s : State) (e : Event) : Prop :=
  e.Enabled s → (step o s e).status ≠ .exited → (step o s e).status ≠ .crashed →
    (step o s e).va.mutex ≠ some e.thread ∧ (step o s e).decode.InLoop ∧
      ((step o s e).change = .starting ∨ (step o s e).change.InLoop)

def CodecUsable (s : State) (e : Event) : Prop :=
  match e with
  | .decodeMessage m lib => e.Enabled s → m.header = 1 → codecThrows (leadingInt o m) lib = false
  | _ => True

variable {o}

theorem Move.codecUsable (h : Move o s e s') : CodecUsable o s e := by
  cases h with
  | otherHeader h1 => exact fun _ h => absurd h h1
  | codecOpened _ ht => exact fun _ _ => ht
  | packet h4 => exact fun _ h1 => absurd (h4.symm.trans h1) (by decide)
  | _ => exact trivial

variable (o)

theorem lockBalanced_step_iff (hr : Alive Rest s) (e : Event) :
    LockBalanced o s e ↔ CodecUsable o s e := by
  by_cases he : e.Enabled s
  · obtain ⟨hm, hloops⟩ := hr he.1
    rcases step_move o hm he with hmove | hhalt
    · refine iff_of_true ?_ hmove.codecUsable
      intro _ _ _
      obtain ⟨hm', hloops'⟩ := hmove.rest ⟨hm, hloops⟩
      rw [hm']
      exact ⟨by simp, hloops'⟩
    · unfold LockBalanced
      generalize step o s e = s' at hhalt
      cases hhalt with
      | codecThrown h1 ht _ hs hm' =>
        -- the only ending that is an exception, and it holds the mutex
        refine iff_of_false ?_ ?_
        · intro h
          exact (h he (by simp [hs]) (by simp [hs])).1 hm'
        · intro h
          rw [h he h1] at ht
          cases ht
      | codecStopped h1 ht _ hs =>
        refine iff_of_true ?_ fun _ _ => ht
        intro _ h₁ h₂
        exact absurd hs (not_or.mpr ⟨h₁, h₂⟩)
      | packetNull h4 _ hs =>
        refine iff_of_true (fun _ _ h => absurd hs h) ?_
        exact fun _ h1 => absurd (h4.symm.trans h1) (by decide)
      | drawTrapped _ _ _ hs => exact iff_of_true (fun _ _ h => absurd hs h) trivial
  · refine iff_of_true (fun h => absurd h he) ?_
    cases e with
    | decodeMessage m lib => exact fun h => absurd h he
    | _ => exact trivial

/-- The mutex comes back and the threads survive exactly as long as `codec_init`
does not throw. -/
theorem lock_balanced_iff (es : List Event) :
    Along (step o) (LockBalanced o) init es ↔ Along (step o) (CodecUsable o) init es := by
  apply along_iff_of_invariant (J := Alive Rest)
  · intro s e hr
    exact lockBalanced_step_iff o hr e
  · intro s e hr _
    exact rest_step o hr e
  · exact rest_init

/-- Codec id 3 is none of the three. -/
theorem unsupported_codec_keeps_lock :
    let s := [.decodeAccept, .decodeMessage (intMessage 1 3) willing].foldl (step .little) init
    s.va.mutex = some .decode ∧ s.decode = .unwound ∧ s.status = .terminated ∧
    ¬ Along (step .little) (LockBalanced .little) init
      [.decodeAccept, .decodeMessage (intMessage 1 3) willing] := by
  refine ⟨by decide, by decide, by decide, ?_⟩
  intro h
  exact (h.2.1 (by decide) (by decide) (by decide)).1 (by decide)

end VmPlayback.Playback
