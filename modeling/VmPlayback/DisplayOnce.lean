import VmPlayback.Coherence

namespace VmPlayback.Playback

variable (o : ByteOrder) {s s' : State} {e : Event}

def after (es : List Event) : State := es.foldl (step o) init

def Displays (s : State) (e : Event) : Prop :=
  ∃ overlay rect, .display overlay rect ∈ (step o s e).effects

def ReturnsPicture (s : State) (e : Event) : Prop :=
  match e with
  | .decodeMessage m lib =>
    e.Enabled s ∧ m.header = 4 ∧ s.va.avctx.isSome = true ∧ lib.picture = true
  | _ => False

def Showing (s : State) : Prop :=
  s.status = .running ∧ ∃ success v, s.draw = .display success v ∧ 0 < success

/-- The step is the locked section of a drawing call that goes on to display. -/
def Shows (s : State) (e : Event) : Prop :=
  match e with
  | .draw .. => e.Enabled s ∧ Showing (step o s e)
  | _ => False

def NoDraw (s : State) (e : Event) : Prop := e.Enabled s → e.thread ≠ .draw

variable {o}

theorem Move.displays (h : Move o s e s') (he : e.Enabled s) {overlay rect}
    (hd : .display overlay rect ∈ s'.effects) : e = .drawFinish ∧ Showing s := by
  cases h with
  | displayed hdraw =>
    split at hd
    · next hs => exact ⟨rfl, he.1, _, _, hdraw, hs⟩
    · cases hd
  | drawSkipped | drawCreated | dropped => simp [mem_freed] at hd
  | packet => simp [decoded] at hd
  | _ => simp [quiet] at hd

/-- Only the unlocked part of a call displays, and only what the locked one left. -/
theorem Displays.showing (hr : Alive Rest s) (h : Displays o s e) :
    e = .drawFinish ∧ Showing s := by
  obtain ⟨overlay, rect, hd⟩ := h
  obtain ⟨he, hmove⟩ := move_of_effect o hr hd (by simp) (by simp)
  exact hmove.displays he hd

theorem Displays.done (hr : Alive Rest s) (h : Displays o s e) : ¬ Showing (step o s e) := by
  obtain ⟨rfl, hs, success, v, hdraw, -⟩ := h.showing hr
  rintro ⟨-, success', v', hdraw', -⟩
  have hf : Event.drawFinish.Enabled s := ⟨hs, by simp [Event.Ready, hdraw]⟩
  rcases step_move o (hr hs).1 hf with hmove | hhalt
  · generalize step o s .drawFinish = s' at hmove hdraw'
    cases hmove <;> simp at hdraw'
  · cases hhalt

theorem Shows.enabled (h : Shows o s e) : e.Enabled s ∧ Showing (step o s e) := by
  cases e with
  | draw => exact h
  | _ => exact absurd h id

/-- Taking a frame uses it up. -/
theorem Shows.pending (hr : Alive Rest s) (h : Shows o s e) :
    Pending s ∧ (step o s e).va.needDraw = false := by
  obtain ⟨he, hrun, success, v, hdraw, -⟩ := h.enabled
  rcases step_move o (hr he.1).1 he with hmove | hhalt
  · generalize step o s e = s' at hmove hdraw
    cases hmove with
    | drawCached hp hn | drawCreated hp hn => exact ⟨⟨hp, hn⟩, rfl⟩
    | drawNothing | drawSkipped => exact absurd (he.2.symm.trans hdraw) (by simp)
    | drawStopped => simp at hdraw
    | _ => exact absurd h id
  · exact absurd hrun hhalt.not_running

theorem picture_eq_false {m : Message} {lib : LibavOutcome} {c : AVCodecContext}
    (hp : ¬ ReturnsPicture s (.decodeMessage m lib))
    (he : (Event.decodeMessage m lib).Enabled s) (h4 : m.header = 4) (hc : s.va.avctx = some c) :
    lib.picture = false := by
  by_contra hpic
  exact hp ⟨he, h4, by simp [hc], by simpa using hpic⟩

theorem Move.needDraw_false (h : Move o s e s') (he : e.Enabled s) (hp : ¬ ReturnsPicture s e)
    (hn : s.va.needDraw = false) : s'.va.needDraw = false := by
  cases h with
  | packet h4 hc => simp [decoded, hn, picture_eq_false hp he h4 hc]
  | drawCached | drawCreated => rfl
  | _ => exact hn

theorem Move.playing_false (h : Move o s e s') (he : e.Enabled s) (hp : ¬ ReturnsPicture s e)
    (hn : s.va.playing = false) : s'.va.playing = false := by
  cases h with
  | packet h4 hc => simp [decoded, hn, picture_eq_false hp he h4 hc]
  | decodeFailure => rfl
  | _ => exact hn

theorem Move.draw_eq (h : Move o s e s') (he : e.thread ≠ .draw) : s'.draw = s.draw := by
  cases h with
  | drawNothing | drawSkipped | drawCached | drawCreated | drawStopped | displayed | dropped =>
    exact absurd rfl he
  | _ => rfl

variable (o)

theorem after_append (es es' : List Event) :
    after o (es ++ es') = es'.foldl (step o) (after o es) :=
  List.foldl_append

theorem rest_after (es : List Event) : Alive Rest (after o es) := rest_run o rest_init es

/-- A frame ready to be displayed was left by a locked section, and the drawing
thread has done nothing since. -/
theorem showing_since (hr : Alive Rest s) (h0 : ¬ Showing s) {es : List Event}
    (h : Showing (es.foldl (step o) s)) : Since (step o) (Shows o) NoDraw s es := by
  refine since_of_step (I := Alive Rest) (fun s e hr => rest_step o hr e) ?_ hr h0 h
  intro s e hr hshow
  by_cases he : e.Enabled s
  · rcases step_move o (hr he.1).1 he with hmove | hhalt
    · by_cases ht : e.thread = .draw
      · left
        cases e with
        | draw => exact ⟨he, hshow⟩
        | drawFinish =>
          obtain ⟨-, success, v, hdraw, -⟩ := hshow
          generalize step o s .drawFinish = s' at hmove hdraw
          cases hmove <;> simp at hdraw
        | _ => cases ht
      · right
        obtain ⟨hrun, hdraw⟩ := hshow
        rw [hmove.draw_eq ht] at hdraw
        exact ⟨⟨he.1, hdraw⟩, fun _ => ht⟩
    · exact absurd hshow.1 hhalt.not_running
  · right
    rw [step_disabled o he] at hshow
    exact ⟨hshow, fun h => absurd h he⟩

/-- Between the locked sections of two calls that display, a picture is decoded. -/
theorem picture_between {d d' : Event} {es : List Event} (hr : Alive Rest s) (hd : Shows o s d)
    (hd' : Shows o (es.foldl (step o) (step o s d)) d') :
    Happened (step o) ReturnsPicture (step o s d) es := by
  -- without a picture the second call would find nothing to draw
  by_contra hno
  have hr₁ := rest_step o hr d
  have hn : Alive (fun s => s.va.needDraw = false) (es.foldl (step o) (step o s d)) := by
    refine alive_run o (K := fun s => s.va.needDraw = false) (fun _ h => h) ?_ hr₁
      (fun _ => (hd.pending hr).2) ((not_happened_iff _ _).mp hno)
    intro s e s' hn hp he hmove
    exact hmove.needDraw_false he hp hn
  have hp := (hd'.pending (rest_run o hr₁ es)).1.2
  rw [hn hd'.enabled.1.1] at hp
  cases hp

/-- Playback stays off from a failure to the next picture. -/
theorem playing_off {what : String} {es : List Event}
    (hr : Alive Rest s) (he : (Event.decodeFailure what).Enabled s)
    (hno : ¬ Happened (step o) ReturnsPicture (step o s (.decodeFailure what)) es) :
    Alive (fun s => s.va.playing = false) (es.foldl (step o) (step o s (.decodeFailure what))) := by
  refine alive_run o (K := fun s => s.va.playing = false) (fun _ h => h) ?_ (rest_step o hr _)
    (fun _ => ?_) ((not_happened_iff _ _).mp hno)
  · intro s e s' hn hp he hmove
    exact hmove.playing_false he hp hn
  · rw [step, if_pos he]
    rfl

/-- A call that finds playback off frees the overlay and displays nothing. -/
theorem stopped_call {screen : Surface} {width height : Int32} {sdl : SdlOutcome}
    {between : List Event} (hr : Alive Rest s) (hp : s.va.playing = false)
    (he : (Event.draw screen width height sdl).Enabled s)
    (hb : Along (step o) NoDraw (step o s (.draw screen width height sdl)) between)
    (hf : Event.drawFinish.Enabled
      (between.foldl (step o) (step o s (.draw screen width height sdl)))) :
    let s' := between.foldl (step o) (step o s (.draw screen width height sdl))
    ¬ Displays o s' .drawFinish ∧ (step o s' .drawFinish).overlay = none := by
  intro s'
  have hr₁ := rest_step o hr (.draw screen width height sdl)
  have hdrop : Alive (fun s => s.draw = .dropOverlay) s' := by
    refine alive_run o (K := fun s => s.draw = .dropOverlay) (fun _ h => h) ?_ hr₁ ?_ hb
    · intro s e s' hd hq he hmove
      rw [hmove.draw_eq (hq he)]
      exact hd
    · intro hrun
      rcases step_move o (hr he.1).1 he with hmove | hhalt
      · generalize step o s (.draw screen width height sdl) = s₁ at hmove
        cases hmove with
        | drawStopped => rfl
        | drawNothing hp' | drawSkipped hp' | drawCached hp' | drawCreated hp' =>
          rw [hp] at hp'
          cases hp'
      · exact absurd hrun hhalt.not_running
  have hr' : Alive Rest s' := rest_run o hr₁ between
  have hd := hdrop hf.1
  constructor
  · intro hdisp
    obtain ⟨-, -, success, v, hshow, -⟩ := hdisp.showing hr'
    rw [hd] at hshow
    cases hshow
  · rcases step_move o (hr' hf.1).1 hf with hmove | hhalt
    · generalize step o s' .drawFinish = s₂ at hmove
      cases hmove with
      | displayed hshow => rw [hd] at hshow; cases hshow
      | dropped => rfl
    · cases hhalt

/-- `d` is the locked section of the call whose display comes after `between`. -/
def SectionOf (s : State) (d : Event) (between : List Event) : Prop :=
  Shows o s d ∧ Along (step o) NoDraw (step o s d) between

/-- For any two displays, a picture was decoded between the locked sections of their
calls.  A call that begins after the decode connection failed, and before the next
picture, displays nothing and leaves no overlay. -/
theorem frames_displayed_once (es : List Event) :
    (∀ pre e mid e' post, es = pre ++ e :: (mid ++ e' :: post) →
      Displays o (after o pre) e → Displays o (after o (pre ++ e :: mid)) e' →
      ∃ pre₁ d pre₂ mid₁ d' mid₂, pre = pre₁ ++ d :: pre₂ ∧ mid = mid₁ ++ d' :: mid₂ ∧
        SectionOf o (after o pre₁) d pre₂ ∧ SectionOf o (after o (pre ++ e :: mid₁)) d' mid₂ ∧
        Happened (step o) ReturnsPicture (after o (pre₁ ++ [d])) (pre₂ ++ e :: mid₁)) ∧
    (∀ pre what mid screen width height sdl between post,
      let s := after o (pre ++ .decodeFailure what :: mid)
      let d := Event.draw screen width height sdl
      let s' := after o (pre ++ .decodeFailure what :: (mid ++ d :: between))
      es = pre ++ .decodeFailure what :: (mid ++ d :: (between ++ .drawFinish :: post)) →
      (Event.decodeFailure what).Enabled (after o pre) →
      ¬ Happened (step o) ReturnsPicture (after o (pre ++ [.decodeFailure what])) mid →
      d.Enabled s → Along (step o) NoDraw (step o s d) between → Event.drawFinish.Enabled s' →
      ¬ Displays o s' .drawFinish ∧ (step o s' .drawFinish).overlay = none) := by
  constructor
  · intro pre e mid e' post _ hd hd'
    have hr := rest_after o pre
    have hr₁ : Alive Rest (step o (after o pre) e) := rest_step o hr e
    have hmid : after o (pre ++ e :: mid) = mid.foldl (step o) (step o (after o pre) e) :=
      after_append o pre (e :: mid)
    -- each display has its own locked section: one before `e`, one between `e` and `e'`
    obtain ⟨pre₁, d, pre₂, rfl, hshow, hquiet⟩ : Since (step o) (Shows o) NoDraw init pre :=
      showing_since o rest_init (fun h => by simpa [init] using h.2) (hd.showing hr).2
    have hshow₂ := (hd'.showing (rest_after o _)).2
    rw [hmid] at hshow₂
    obtain ⟨mid₁, d', mid₂, rfl, hshow', hquiet'⟩ := showing_since o hr₁ (hd.done hr) hshow₂
    have hpre : after o (pre₁ ++ [d]) = step o (after o pre₁) d := after_append o pre₁ [d]
    have hmid₁ : after o (pre₁ ++ d :: pre₂ ++ e :: mid₁) =
        mid₁.foldl (step o) (step o (after o (pre₁ ++ d :: pre₂)) e) :=
      after_append o _ (e :: mid₁)
    rw [List.foldl_append] at hquiet'
    refine ⟨pre₁, d, pre₂, mid₁, d', mid₂, rfl, rfl, ⟨hshow, hpre ▸ hquiet⟩, ?_, ?_⟩
    · rw [hmid₁]
      exact ⟨hshow', hquiet'⟩
    · rw [hpre]
      refine picture_between o (rest_after o pre₁) hshow (?_ : Shows o _ d')
      rw [List.foldl_append, List.foldl_cons]
      have hfold : pre₂.foldl (step o) (step o (after o pre₁) d) = after o (pre₁ ++ d :: pre₂) :=
        (after_append o pre₁ (d :: pre₂)).symm
      rw [hfold]
      exact hshow'
  · intro pre what mid screen width height sdl between post s d s' _ hfail hno hen hb hf
    have hs : s = mid.foldl (step o) (step o (after o pre) (.decodeFailure what)) :=
      after_append o pre (.decodeFailure what :: mid)
    have hs' : s' = between.foldl (step o) (step o s d) := by
      have happ : pre ++ .decodeFailure what :: (mid ++ d :: between) =
          pre ++ .decodeFailure what :: mid ++ d :: between := by simp
      rw [show s' = after o (pre ++ .decodeFailure what :: mid ++ d :: between) from
        congrArg (after o) happ, after_append]
      rfl
    rw [after_append] at hno
    have hoff : Alive (fun s => s.va.playing = false) s := by
      rw [hs]
      exact playing_off o (rest_after o pre) hfail hno
    rw [hs'] at hf ⊢
    exact stopped_call o (rest_after o _) (hoff hen.1) hen hb hf

def started : List Event :=
  [.decodeAccept, .decodeMessage (intMessage 1 8) willing, .changeStart,
    .decodeMessage (intMessage 4 0) pictured]

def drawn : Event := .draw ⟨0, 800, 600⟩ 800 600 ⟨true, 1⟩

/-- Two frames displayed, then the connection fails and one more call is made. -/
theorem displayed_once_then_dropped :
    (∃ mid₁ d' mid₂, [.decodeMessage (intMessage 4 0) pictured, drawn] = mid₁ ++ d' :: mid₂ ∧
      SectionOf .little (after .little (started ++ [drawn] ++ .drawFinish :: mid₁)) d' mid₂) ∧
    (step .little (after .little (started ++ [drawn, .drawFinish,
      .decodeFailure "Receive failed.", drawn])) .drawFinish).overlay = none := by
  constructor
  · obtain ⟨pre₁, d, pre₂, mid₁, d', mid₂, -, hmid, -, hsection, -⟩ :=
      (frames_displayed_once .little _).1 (started ++ [drawn]) .drawFinish
        [.decodeMessage (intMessage 4 0) pictured, drawn] .drawFinish [] rfl
        ⟨some ⟨0, 1024, 768, 0⟩, ⟨0, 0, 1024, 768⟩, by decide⟩
        ⟨some ⟨0, 1024, 768, 0⟩, ⟨0, 0, 1024, 768⟩, by decide⟩
    exact ⟨mid₁, d', mid₂, hmid, hsection⟩
  · refine ((frames_displayed_once .little _).2 (started ++ [drawn, .drawFinish]) "Receive failed."
      [] ⟨0, 800, 600⟩ 800 600 ⟨true, 1⟩ [] [] rfl (by decide) ?_ (by decide) trivial
      (by decide)).2
    exact (not_happened_iff _ _).mpr trivial

/-- A picture may be decoded between the locked section and the display: the two
displays that follow have no decoding between them. -/
theorem displays_without_picture_between :
    Displays .little (after .little
      (started ++ [drawn, .decodeMessage (intMessage 4 0) pictured])) .drawFinish ∧
    Displays .little (after .little
      (started ++ [drawn, .decodeMessage (intMessage 4 0) pictured, .drawFinish, drawn]))
      .drawFinish ∧
    ¬ Happened (step .little) ReturnsPicture (after .little
      (started ++ [drawn, .decodeMessage (intMessage 4 0) pictured, .drawFinish])) [drawn] := by
  refine ⟨⟨some ⟨0, 1024, 768, 0⟩, ⟨0, 0, 1024, 768⟩, by decide⟩,
    ⟨some ⟨0, 1024, 768, 0⟩, ⟨0, 0, 1024, 768⟩, by decide⟩, ?_⟩
  rw [not_happened_iff]
  exact ⟨id, trivial⟩

end VmPlayback.Playback
