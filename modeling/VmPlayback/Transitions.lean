import VmPlayback.Playback
import VmPlayback.Runs

namespace VmPlayback.Playback

open Exec

def contextObtained (cid : CodecID) (lib : LibavOutcome) : Bool :=
  if cid = .h264 then lib.stream.isSome else lib.allocated

/-- The three ways to `throw cid`: the `switch`, the decoder, the opening. -/
def codecThrows (i : Int32) (lib : LibavOutcome) : Bool :=
  match codecOf i with
  | none => true
  | some cid => !lib.found || (contextObtained cid lib && !lib.opened)

def codecOpens (i : Int32) (lib : LibavOutcome) : Bool :=
  match codecOf i with
  | none => false
  | some cid => lib.found && contextObtained cid lib && lib.opened

def withContext (s : State) (width height : Int32) : State :=
  { s with
    va := { s.va with avctx := some ⟨s.contexts, width, height, true, false⟩ }
    contexts := s.contexts + 1 }

/-- A state reached from `s` by touching neither the mutex nor the effects. -/
def SameOutside (s s' : State) : Prop := s'.va.mutex = s.va.mutex ∧ s'.effects = s.effects

theorem obtainContext_cases (cid : CodecID) (lib : LibavOutcome) (s : State) :
    (contextObtained cid lib = true ∧ ∃ width height,
      obtainContext cid lib s = newContext width height s) ∨
    (contextObtained cid lib = false ∧
      (obtainContext cid lib s = .error .exit s ∨ obtainContext cid lib s = .ok () s)) := by
  unfold obtainContext contextObtained
  by_cases hc : cid = .h264
  · simp only [if_pos hc]
    cases lib.stream with
    | none => exact Or.inr ⟨rfl, Or.inl rfl⟩
    | some size => exact Or.inl ⟨rfl, size.1, size.2, rfl⟩
  · simp only [if_neg hc]
    cases lib.allocated with
    | false => exact Or.inr ⟨rfl, Or.inr rfl⟩
    | true => exact Or.inl ⟨rfl, 0, 0, rfl⟩

theorem codecInit_cases (i : Int32) (lib : LibavOutcome) (s : State) :
    (codecThrows i lib = true ∧ codecOpens i lib = false ∧
      ∃ s', codecInit i lib s = .error (.exception .codecID) s' ∧ SameOutside s s') ∨
    (codecThrows i lib = false ∧ codecOpens i lib = false ∧ ∃ e s', (e = .exit ∨ e = .crash) ∧
      codecInit i lib s = .error e s' ∧ SameOutside s s') ∨
    (codecThrows i lib = false ∧ codecOpens i lib = true ∧ ∃ width height,
      codecInit i lib s = .ok () (withContext s width height)) := by
  unfold codecInit codecThrows codecOpens
  cases codecOf i with
  | none => exact Or.inl ⟨rfl, rfl, s, rfl, rfl, rfl⟩
  | some cid =>
    cases lib.found with
    | false => exact Or.inl ⟨rfl, rfl, s, rfl, rfl, rfl⟩
    | true =>
      simp only [run_bind, run_modify, Bool.not_true, Bool.false_eq_true, ↓reduceIte,
        Bool.false_or]
      -- the old context is gone by now, so opening nothing crashes
      rcases obtainContext_cases cid lib { s with va := { s.va with avctx := none } } with
        ⟨ho, width, height, hrun⟩ | ⟨ho, hrun | hrun⟩
      · rw [hrun, ho]
        cases lib.opened with
        | false => exact Or.inl ⟨rfl, rfl, _, rfl, rfl, rfl⟩
        | true => exact Or.inr (Or.inr ⟨rfl, rfl, width, height, rfl⟩)
      · rw [hrun, ho]
        exact Or.inr (Or.inl ⟨rfl, rfl, .exit, _, Or.inl rfl, rfl, rfl, rfl⟩)
      · rw [hrun, ho]
        exact Or.inr (Or.inl ⟨rfl, rfl, .crash, _, Or.inr rfl, rfl, rfl, rfl⟩)

def freed (s : State) : List Effect :=
  match s.overlay with
  | none => []
  | some overlay => [.freeOverlay overlay]

theorem mem_freed {s : State} {effect : Effect} :
    effect ∈ freed s ↔ ∃ overlay, s.overlay = some overlay ∧ effect = .freeOverlay overlay := by
  unfold freed
  cases s.overlay <;> simp

theorem freeOverlay_run (s : State) :
    freeOverlay s = .ok () { s with overlay := none, effects := s.effects ++ freed s } := by
  obtain ⟨va, contexts, overlay, lastScreen, overlays, decode, change, draw, status, effects⟩ := s
  cases overlay with
  | none =>
    simp only [freeOverlay, freed, run_bind, run_get, run_pure, List.append_nil]
  | some overlay => rfl

def madeOverlay (s : State) (v : Rect) (screen : Surface) : Overlay :=
  ⟨s.overlays, v.w, v.h, screen.ptr⟩

section AdjustOverlay

variable {c : AVCodecContext} {v : Rect} {screen : Surface} {created : Bool} {s : State}

theorem adjustOverlay_fits (hf : overlayFits s.overlay s.lastScreen v screen = true) :
    adjustOverlay c v screen created s = .ok true s := by
  simp only [adjustOverlay, run_bind, run_get, hf, ↓reduceIte, run_pure]

/-- The target is too small, or SDL does not make the overlay. -/
theorem adjustOverlay_gives_up (hf : overlayFits s.overlay s.lastScreen v screen = false)
    (hg : (v.w < c.width / 20 ∨ v.h < c.height / 20) ∨ created = false) :
    adjustOverlay c v screen created s =
      .ok false { s with overlay := none, effects := s.effects ++ freed s } := by
  simp only [adjustOverlay, run_bind, run_get, hf, Bool.false_eq_true, ↓reduceIte,
    freeOverlay_run]
  by_cases hsmall : v.w < c.width / 20 ∨ v.h < c.height / 20
  · simp only [if_pos hsmall]
    rfl
  · obtain rfl := hg.resolve_left hsmall
    simp only [if_neg hsmall]
    rfl

theorem adjustOverlay_creates (hf : overlayFits s.overlay s.lastScreen v screen = false)
    (hbig : ¬ (v.w < c.width / 20 ∨ v.h < c.height / 20)) (hcreated : created = true) :
    adjustOverlay c v screen created s = .ok true { s with
      overlay := some (madeOverlay s v screen)
      lastScreen := some screen.ptr
      overlays := s.overlays + 1
      effects := s.effects ++ freed s ++ [.createOverlay (madeOverlay s v screen)] } := by
  simp only [adjustOverlay, run_bind, run_get, hf, Bool.false_eq_true, ↓reduceIte,
    freeOverlay_run, if_neg hbig, hcreated]
  rfl

end AdjustOverlay

theorem adjustOverlay_cases (c : AVCodecContext) (v : Rect) (screen : Surface) (created : Bool)
    (s : State) :
    (overlayFits s.overlay s.lastScreen v screen = true ∧
      adjustOverlay c v screen created s = .ok true s) ∨
    adjustOverlay c v screen created s =
      .ok false { s with overlay := none, effects := s.effects ++ freed s } ∨
    adjustOverlay c v screen created s = .ok true { s with
      overlay := some (madeOverlay s v screen)
      lastScreen := some screen.ptr
      overlays := s.overlays + 1
      effects := s.effects ++ freed s ++ [.createOverlay (madeOverlay s v screen)] } := by
  cases hf : overlayFits s.overlay s.lastScreen v screen with
  | true => exact Or.inl ⟨rfl, adjustOverlay_fits hf⟩
  | false =>
    right
    by_cases hg : (v.w < c.width / 20 ∨ v.h < c.height / 20) ∨ created = false
    · exact Or.inl (adjustOverlay_gives_up hf hg)
    · obtain ⟨hbig, hcreated⟩ := not_or.mp hg
      exact Or.inr (adjustOverlay_creates hf hbig (by simpa using hcreated))

section Locked

variable {s : State} (screen : Surface) (width height : Int32) (sdl : SdlOutcome)
  {c : AVCodecContext} {v : Rect}

theorem vaDoDrawingLocked_stopped (hm : s.va.mutex = none) (hp : s.va.playing = false) :
    vaDoDrawingLocked screen width height sdl s = .ok () { s with draw := .dropOverlay } := by
  obtain ⟨⟨mutex, avctx, frame, clientRect, needDraw, playing⟩, _⟩ := s
  cases hm
  cases hp
  rfl

theorem vaDoDrawingLocked_nothing (hm : s.va.mutex = none) (hp : s.va.playing = true)
    (hn : s.va.needDraw = false) : vaDoDrawingLocked screen width height sdl s = .ok () s := by
  obtain ⟨⟨mutex, avctx, frame, clientRect, needDraw, playing⟩, _⟩ := s
  cases hm
  cases hp
  cases hn
  rfl

/-- No context to ask for the size of the video, or a division that traps. -/
theorem vaDoDrawingLocked_trapped (hm : s.va.mutex = none) (hp : s.va.playing = true)
    (hn : s.va.needDraw = true)
    (hv : ∀ c, s.va.avctx = some c →
      calcScale c.width c.height s.va.clientRect screen width height = none) :
    vaDoDrawingLocked screen width height sdl s =
      .error .crash { s with va := { s.va with mutex := some .draw } } := by
  obtain ⟨⟨mutex, avctx, frame, clientRect, needDraw, playing⟩, _⟩ := s
  cases hm
  cases hp
  cases hn
  cases avctx with
  | none => rfl
  | some c =>
    simp only [vaDoDrawingLocked, run_bind, lockMutex, run_get, ↓reduceIte, run_set, hv c rfl]
    rfl

/-- A frame to draw, up to the adjusted overlay. -/
theorem vaDoDrawingLocked_draws (hm : s.va.mutex = none) (hp : s.va.playing = true)
    (hn : s.va.needDraw = true) (hc : s.va.avctx = some c)
    (hv : calcScale c.width c.height s.va.clientRect screen width height = some v) {found : Bool}
    {overlay : Option Overlay} {lastScreen : Option ℕ} {overlays : ℕ} {effects : List Effect}
    (hrun : adjustOverlay c v screen sdl.created
        { s with va := { s.va with mutex := some .draw } } =
      .ok found { s with
        va := { s.va with mutex := some .draw }
        overlay := overlay
        lastScreen := lastScreen
        overlays := overlays
        effects := effects }) :
    vaDoDrawingLocked screen width height sdl s = .ok ()
      (if found then { s with
        va := { s.va with needDraw := false }
        overlay := overlay
        lastScreen := lastScreen
        overlays := overlays
        draw := .display sdl.success v
        effects := effects ++ [.convert overlay c s.va.frame v.w v.h] }
      else { s with
        overlay := overlay
        lastScreen := lastScreen
        overlays := overlays
        effects := effects }) := by
  obtain ⟨⟨mutex, avctx, frame, clientRect, needDraw, playing⟩, _⟩ := s
  cases hm
  cases hp
  cases hn
  cases hc
  simp only [vaDoDrawingLocked, run_bind, lockMutex, run_get, ↓reduceIte, run_set, hv, hrun]
  cases found with
  | true => rfl
  | false => rfl

end Locked

section Unlocked

variable {s : State}

theorem vaDoDrawingUnlocked_idle (hd : s.draw = .idle) : vaDoDrawingUnlocked s = .ok () s := by
  simp only [vaDoDrawingUnlocked, run_bind, run_get, hd, run_pure]

theorem vaDoDrawingUnlocked_display {success : Int32} {v : Rect}
    (hd : s.draw = .display success v) :
    vaDoDrawingUnlocked s = .ok () { s with
      draw := .idle
      effects := s.effects ++
        if success > 0 then [.display s.overlay (Rect.toSDL v)] else [] } := by
  by_cases hs : success > 0
  · simp only [vaDoDrawingUnlocked, run_bind, run_get, hd, if_pos hs, perform, run_modify]
  · simp only [vaDoDrawingUnlocked, run_bind, run_get, hd, if_neg hs, run_modify, List.append_nil]

theorem vaDoDrawingUnlocked_drop (hd : s.draw = .dropOverlay) :
    vaDoDrawingUnlocked s =
      .ok () { s with overlay := none, draw := .idle, effects := s.effects ++ freed s } := by
  simp only [vaDoDrawingUnlocked, run_bind, run_get, hd, freeOverlay_run, run_modify]

end Unlocked

variable (o : ByteOrder)

def decoded (s : State) (c : AVCodecContext) (m : Message) (lib : LibavOutcome) : State :=
  { s with
    va := { s.va with
      avctx := some { c with
        width := lib.width, height := lib.height, pictured := c.pictured || lib.picture }
      frame := if lib.got then some c.id else s.va.frame
      playing := s.va.playing || lib.picture
      needDraw := s.va.needDraw || lib.picture }
    effects := [.contentRead 0 4, .decodeVideo (some c) 4 (leadingInt o m)] }

/-- The steps after which the process goes on. -/
inductive Move (s : State) : Event → State → Prop where
  | decodeAccept : Move s .decodeAccept { s with decode := .reading, effects := [] }
  | decodeFailure {what} : Move s (.decodeFailure what)
      { s with decode := .accepting, va := { s.va with playing := false }, effects := [] }
  | otherHeader {m lib} (h1 : m.header ≠ 1) (h4 : m.header ≠ 4) :
      Move s (.decodeMessage m lib) (quiet s)
  | codecOpened {m lib} (h1 : m.header = 1) (ht : codecThrows (leadingInt o m) lib = false)
      (ho : codecOpens (leadingInt o m) lib = true) (width height : Int32) :
      Move s (.decodeMessage m lib)
        { withContext s width height with effects := [.contentRead 0 4] }
  | packet {m lib c} (h4 : m.header = 4) (hc : s.va.avctx = some c) :
      Move s (.decodeMessage m lib) (decoded o s c m lib)
  | changeStart : Move s .changeStart
      { s with change := .accepting, va := { s.va with clientRect := initialRect }, effects := [] }
  | changeAccept : Move s .changeAccept { s with change := .reading, effects := [] }
  | changeFailure {what} : Move s (.changeFailure what)
      { s with change := .accepting, effects := [] }
  | changeIgnored {m} (h7 : m.header ≠ 7) : Move s (.changeMessage m) (quiet s)
  | changeApplied {m rect r} (h7 : m.header = 7)
      (hr : readClientRect o (MessageReader.new m) = .ok rect r) :
      Move s (.changeMessage m) { s with va := { s.va with clientRect := rect }, effects := [] }
  | changeShort {m e r} (h7 : m.header = 7)
      (hr : readClientRect o (MessageReader.new m) = .error e r) :
      Move s (.changeMessage m) { s with change := .accepting, effects := [] }
  | drawNothing {screen width height sdl} (hp : s.va.playing = true) (hn : s.va.needDraw = false) :
      Move s (.draw screen width height sdl) (quiet s)
  | drawSkipped {screen width height sdl c v} (hp : s.va.playing = true)
      (hn : s.va.needDraw = true) (hc : s.va.avctx = some c)
      (hv : calcScale c.width c.height s.va.clientRect screen width height = some v) :
      Move s (.draw screen width height sdl) { s with overlay := none, effects := freed s }
  | drawCached {screen width height sdl c v} (hp : s.va.playing = true)
      (hn : s.va.needDraw = true) (hc : s.va.avctx = some c)
      (hv : calcScale c.width c.height s.va.clientRect screen width height = some v)
      (hf : overlayFits s.overlay s.lastScreen v screen = true) :
      Move s (.draw screen width height sdl) { s with
        va := { s.va with needDraw := false }
        draw := .display sdl.success v
        effects := [.convert s.overlay c s.va.frame v.w v.h] }
  | drawCreated {screen width height sdl c v} (hp : s.va.playing = true)
      (hn : s.va.needDraw = true) (hc : s.va.avctx = some c)
      (hv : calcScale c.width c.height s.va.clientRect screen width height = some v) :
      Move s (.draw screen width height sdl) { s with
        va := { s.va with needDraw := false }
        overlay := some (madeOverlay s v screen)
        lastScreen := some screen.ptr
        overlays := s.overlays + 1
        draw := .display sdl.success v
        effects := freed s ++ [.createOverlay (madeOverlay s v screen)] ++
          [.convert (some (madeOverlay s v screen)) c s.va.frame v.w v.h] }
  | drawStopped {screen width height sdl} (hp : s.va.playing = false) :
      Move s (.draw screen width height sdl) { s with draw := .dropOverlay, effects := [] }
  | displayed {success v} (hd : s.draw = .display success v) :
      Move s .drawFinish { s with
        draw := .idle
        effects := if success > 0 then [.display s.overlay (Rect.toSDL v)] else [] }
  | dropped (hd : s.draw = .dropOverlay) :
      Move s .drawFinish { s with draw := .idle, overlay := none, effects := freed s }

/-- The steps that end the process. -/
inductive Halt (s : State) : Event → State → Prop where
  | codecThrown {m lib s'} (h1 : m.header = 1) (ht : codecThrows (leadingInt o m) lib = true)
      (ho : codecOpens (leadingInt o m) lib = false)
      (hs : s'.status = .terminated) (hm : s'.va.mutex = some .decode) (hd : s'.decode = .unwound)
      (he : s'.effects = [.contentRead 0 4]) : Halt s (.decodeMessage m lib) s'
  | codecStopped {m lib s'} (h1 : m.header = 1) (ht : codecThrows (leadingInt o m) lib = false)
      (ho : codecOpens (leadingInt o m) lib = false)
      (hs : s'.status = .exited ∨ s'.status = .crashed) (he : s'.effects = [.contentRead 0 4]) :
      Halt s (.decodeMessage m lib) s'
  | packetNull {m lib s'} (h4 : m.header = 4) (hc : s.va.avctx = none) (hs : s'.status = .crashed)
      (he : s'.effects = [.contentRead 0 4, .decodeVideo none 4 (leadingInt o m)]) :
      Halt s (.decodeMessage m lib) s'
  | drawTrapped {screen width height sdl s'} (hp : s.va.playing = true)
      (hn : s.va.needDraw = true)
      (hv : ∀ c, s.va.avctx = some c →
        calcScale c.width c.height s.va.clientRect screen width height = none)
      (hs : s'.status = .crashed) (he : s'.effects = []) :
      Halt s (.draw screen width height sdl) s'

def inside (s : State) : State :=
  { s with va := { s.va with mutex := some .decode }, effects := [.contentRead 0 4] }

theorem handleCodecMessage_run {s : State} (hm : s.va.mutex = none) (m : Message)
    (lib : LibavOutcome) :
    handleCodecMessage o m lib (quiet s) =
      (do codecInit (leadingInt o m) lib; unlockMutex : VaM Unit) (inside s) := by
  simp only [handleCodecMessage, run_bind, perform, run_modify, lockMutex, run_get, quiet, hm,
    ↓reduceIte, run_set, List.nil_append, inside]

theorem handlePacketMessage_run {s : State} (hm : s.va.mutex = none) (m : Message)
    (lib : LibavOutcome) :
    handlePacketMessage o m lib (quiet s) =
      match s.va.avctx with
      | none => .error .crash { inside s with
          effects := [.contentRead 0 4, .decodeVideo none 4 (leadingInt o m)] }
      | some c => .ok () (decoded o s c m lib) := by
  obtain ⟨⟨mutex, avctx, frame, clientRect, needDraw, playing⟩, contexts, overlay, lastScreen,
    overlays, decode, change, draw, status, effects⟩ := s
  obtain ⟨found, stream, allocated, opened, len, got, width, height⟩ := lib
  obtain rfl : mutex = none := hm
  cases avctx with
  | none => rfl
  | some c =>
    -- `got` counts only when the decoder reports no error
    by_cases hl : len < 0
    · simp only [handlePacketMessage, avcodecDecodeVideo, hl, decoded, LibavOutcome.picture,
        ↓reduceIte, decide_true, Bool.not_true, Bool.false_and, Bool.or_false]
      rfl
    · simp only [handlePacketMessage, avcodecDecodeVideo, hl, decoded, LibavOutcome.picture,
        ↓reduceIte, decide_false, Bool.not_false, Bool.true_and]
      cases got with
      | false =>
        simp only [Bool.or_false]
        rfl
      | true =>
        simp only [Bool.or_true]
        rfl

/-- A handled message of the decode port. -/
theorem decodeMessage_move {s : State} (hm : s.va.mutex = none) (m : Message)
    (lib : LibavOutcome) :
    let s' := conclude .decode (quiet s) (handleDecodeMessage o m lib)
    Move o s (.decodeMessage m lib) s' ∨ Halt o s (.decodeMessage m lib) s' := by
  unfold conclude handleDecodeMessage Message.getHeader
  dsimp only
  by_cases h1 : m.header = 1
  · rw [if_pos h1, handleCodecMessage_run o hm, run_bind]
    rcases codecInit_cases (leadingInt o m) lib (inside s) with
      ⟨ht, ho, s', hrun, hm', he'⟩ | ⟨ht, ho, e, s', he, hrun, -, he'⟩ |
      ⟨ht, ho, width, height, hrun⟩
    · rw [hrun]
      exact Or.inr (.codecThrown h1 ht ho rfl hm' rfl he')
    · rw [hrun]
      rcases he with rfl | rfl
      · exact Or.inr (.codecStopped h1 ht ho (Or.inl rfl) he')
      · exact Or.inr (.codecStopped h1 ht ho (Or.inr rfl) he')
    · left
      have hmove := Move.codecOpened (s := s) h1 ht ho width height
      rw [hrun]
      simpa only [withContext, inside, unlockMutex, run_modify, hm] using hmove
  · rw [if_neg h1]
    by_cases h4 : m.header = 4
    · rw [if_pos h4, handlePacketMessage_run o hm]
      cases hc : s.va.avctx with
      | none => exact Or.inr (.packetNull h4 hc rfl rfl)
      | some c => exact Or.inl (.packet h4 hc)
    · rw [if_neg h4]
      exact Or.inl (.otherHeader h1 h4)

theorem changeMessage_move {s : State} (hm : s.va.mutex = none) (m : Message) :
    Move o s (.changeMessage m) (conclude .change (quiet s) (handleChangeMessage o m)) := by
  unfold conclude handleChangeMessage
  by_cases h7 : m.header = 7
  · simp only [Message.getHeader, h7, ↓reduceIte]
    cases hr : readClientRect o (MessageReader.new m) with
    | error e r => exact .changeShort h7 hr
    | ok rect r =>
      have hmove := Move.changeApplied (s := s) h7 hr
      simpa only [run_bind, lockMutex, run_get, quiet, hm, ↓reduceIte, run_set, run_modify,
        unlockMutex] using hmove
  · simp only [Message.getHeader, h7, ↓reduceIte]
    exact .changeIgnored h7

/-- The locked section of a drawing call. -/
theorem draw_move {s : State} (hm : s.va.mutex = none) (screen : Surface) (width height : Int32)
    (sdl : SdlOutcome) :
    let s' := conclude .draw (quiet s) (vaDoDrawingLocked screen width height sdl)
    Move o s (.draw screen width height sdl) s' ∨ Halt o s (.draw screen width height sdl) s' := by
  intro s'
  have hq : (quiet s).va.mutex = none := hm
  -- the tests in the order in which the section makes them
  cases hp : s.va.playing with
  | false =>
    simp only [s', conclude, vaDoDrawingLocked_stopped screen width height sdl hq hp]
    exact Or.inl (.drawStopped hp)
  | true =>
    cases hn : s.va.needDraw with
    | false =>
      simp only [s', conclude, vaDoDrawingLocked_nothing screen width height sdl hq hp hn]
      exact Or.inl (.drawNothing hp hn)
    | true =>
      by_cases hplaced : ∃ c v, s.va.avctx = some c ∧
          calcScale c.width c.height s.va.clientRect screen width height = some v
      · obtain ⟨c, v, hc, hv⟩ := hplaced
        left
        rcases adjustOverlay_cases c v screen sdl.created
          { quiet s with va := { s.va with mutex := some .draw } } with ⟨hf, hrun⟩ | hrun | hrun
        · have hlocked := vaDoDrawingLocked_draws screen width height sdl hq hp hn hc hv hrun
          simp only [s', conclude, hlocked]
          exact .drawCached hp hn hc hv hf
        · have hlocked := vaDoDrawingLocked_draws screen width height sdl hq hp hn hc hv hrun
          simp only [s', conclude, hlocked]
          exact .drawSkipped hp hn hc hv
        · have hlocked := vaDoDrawingLocked_draws screen width height sdl hq hp hn hc hv hrun
          simp only [s', conclude, hlocked]
          exact .drawCreated hp hn hc hv
      · have htrap : ∀ c, s.va.avctx = some c →
            calcScale c.width c.height s.va.clientRect screen width height = none := by
          intro c hc
          by_contra hv
          obtain ⟨v, hv⟩ := Option.ne_none_iff_exists'.mp hv
          exact hplaced ⟨c, v, hc, hv⟩
        simp only [s', conclude, vaDoDrawingLocked_trapped screen width height sdl hq hp hn htrap]
        exact Or.inr (.drawTrapped hp hn htrap rfl rfl)

theorem drawFinish_move {s : State} (hd : s.draw ≠ .idle) :
    Move o s .drawFinish (conclude .draw (quiet s) vaDoDrawingUnlocked) := by
  cases h : s.draw with
  | idle => exact absurd h hd
  | display success v =>
    have hq : (quiet s).draw = .display success v := h
    simp only [conclude, vaDoDrawingUnlocked_display hq]
    exact .displayed h
  | dropOverlay =>
    have hq : (quiet s).draw = .dropOverlay := h
    simp only [conclude, vaDoDrawingUnlocked_drop hq]
    exact .dropped h

theorem step_disabled {s : State} {e : Event} (he : ¬ e.Enabled s) : step o s e = quiet s :=
  if_neg he

theorem step_move {s : State} {e : Event} (hm : s.va.mutex = none) (he : e.Enabled s) :
    Move o s e (step o s e) ∨ Halt o s e (step o s e) := by
  rw [step, if_pos he]
  cases e with
  | decodeAccept => exact Or.inl .decodeAccept
  | decodeMessage m lib => exact decodeMessage_move o hm m lib
  | decodeFailure what => exact Or.inl .decodeFailure
  | changeStart => exact Or.inl .changeStart
  | changeAccept => exact Or.inl .changeAccept
  | changeMessage m => exact Or.inl (changeMessage_move o hm m)
  | changeFailure what => exact Or.inl .changeFailure
  | draw screen width height sdl => exact draw_move o hm screen width height sdl
  | drawFinish => exact Or.inl (drawFinish_move o he.2)

variable {o} {s s' : State} {e : Event}

theorem Halt.not_running (h : Halt o s e s') : s'.status ≠ .running := by
  cases h with
  | codecThrown _ _ _ hs => simp [hs]
  | codecStopped _ _ _ hs => rcases hs with hs | hs <;> simp [hs]
  | packetNull _ _ hs => simp [hs]
  | drawTrapped _ _ _ hs => simp [hs]

/-- What a step that ends the process has done by then. -/
theorem Halt.effect_mem (h : Halt o s e s') {effect : Effect} (hm : effect ∈ s'.effects) :
    effect = .contentRead 0 4 ∨ ∃ size, effect = .decodeVideo none 4 size := by
  cases h with
  | codecThrown _ _ _ _ _ _ he | codecStopped _ _ _ _ he =>
    rw [he] at hm
    exact Or.inl (List.mem_singleton.mp hm)
  | packetNull _ _ _ he =>
    rw [he] at hm
    rcases List.mem_cons.mp hm with hm | hm
    · exact Or.inl hm
    · exact Or.inr ⟨_, List.mem_singleton.mp hm⟩
  | drawTrapped _ _ _ _ he =>
    rw [he] at hm
    cases hm

theorem Move.status_eq (h : Move o s e s') : s'.status = s.status := by
  cases h <;> rfl

/-- `K` holds unless the process has stopped. -/
def Alive (K : State → Prop) (s : State) : Prop := s.status = .running → K s

/-- Between two steps nobody holds the mutex, and the network threads are in their
loops, or on the way into it. -/
def Rest (s : State) : Prop :=
  s.va.mutex = none ∧ s.decode.InLoop ∧ (s.change = .starting ∨ s.change.InLoop)

variable (o)

/-- The rule for invariants: a step that ends the process has nothing to keep. -/
theorem alive_step {K : State → Prop} (hr : Alive Rest s) (hk : Alive K s)
    (hquiet : K s → K (quiet s)) (hmove : ∀ s', K s → e.Enabled s → Move o s e s' → K s') :
    Alive K (step o s e) := by
  by_cases he : e.Enabled s
  · intro hs
    rcases step_move o (hr he.1).1 he with h | h
    · exact hmove _ (hk he.1) he h
    · exact absurd hs h.not_running
  · rw [step_disabled o he]
    exact fun hs => hquiet (hk hs)

/-- What shows on the screen is done by steps that the process survives. -/
theorem move_of_effect (hr : Alive Rest s) {effect : Effect}
    (hm : effect ∈ (step o s e).effects) (hread : effect ≠ .contentRead 0 4)
    (hdecode : ∀ size, effect ≠ .decodeVideo none 4 size) :
    e.Enabled s ∧ Move o s e (step o s e) := by
  by_cases he : e.Enabled s
  · rcases step_move o (hr he.1).1 he with hmove | hhalt
    · exact ⟨he, hmove⟩
    · rcases hhalt.effect_mem hm with heq | ⟨size, heq⟩
      · exact absurd heq hread
      · exact absurd heq (hdecode size)
  · rw [step_disabled o he] at hm
    cases hm

theorem rest_init : Alive Rest init := fun _ => ⟨rfl, Or.inl rfl, Or.inl rfl⟩

theorem Move.rest {o : ByteOrder} (h : Move o s e s') (hr : Rest s) : Rest s' := by
  obtain ⟨hm, hd, hc⟩ := hr
  cases h with
  | decodeAccept => exact ⟨hm, Or.inr rfl, hc⟩
  | decodeFailure => exact ⟨hm, Or.inl rfl, hc⟩
  | changeStart | changeFailure | changeShort => exact ⟨hm, hd, Or.inr (Or.inl rfl)⟩
  | changeAccept => exact ⟨hm, hd, Or.inr (Or.inr rfl)⟩
  | _ => exact ⟨hm, hd, hc⟩

theorem rest_step (hr : Alive Rest s) (e : Event) : Alive Rest (step o s e) :=
  alive_step o hr hr id fun _ hk _ hmove => hmove.rest hk

theorem rest_run (hr : Alive Rest s) (es : List Event) : Alive Rest (es.foldl (step o) s) :=
  invariant_run (J := Alive Rest) (fun _ e h => rest_step o h e) hr es

/-- Along a run whose steps all meet `Q`, what they keep is kept. -/
theorem alive_run {K : State → Prop} {Q : State → Event → Prop}
    (hquiet : ∀ s, K s → K (quiet s))
    (hmove : ∀ s e s', K s → Q s e → e.Enabled s → Move o s e s' → K s')
    (hr : Alive Rest s) (hk : Alive K s) {es : List Event} (hq : Along (step o) Q s es) :
    Alive K (es.foldl (step o) s) := by
  have hstep : ∀ s e, Alive Rest s ∧ Alive K s → Q s e →
      Alive Rest (step o s e) ∧ Alive K (step o s e) := by
    intro s e hs hq
    refine ⟨rest_step o hs.1 e, alive_step o hs.1 hs.2 (hquiet s) ?_⟩
    intro s' hk he h
    exact hmove s e s' hk hq he h
  exact (invariant_run_of_along hstep ⟨hr, hk⟩ hq).2

end VmPlayback.Playback
