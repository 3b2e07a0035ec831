import VmPlayback.Coherence
import VmPlayback.VgaSurface

namespace VmPlayback

open Vga Playback

structure Emulator where
  screen : VgaScreen
  va : Playback.State

namespace Emulator

/-- The guest's accesses, the display timer and the drawing calls it makes are one
thread; the network threads go on meanwhile.  What SDL has for a drawing call comes with
the event that may make one. -/
inductive Event where
  | screen (op : ScreenOp) (real : VmPlayback.Surface) (sdl : SdlOutcome)
  | thread (e : Playback.Event)

variable (o : ByteOrder) (m : Emulator)

def Free : Prop := m.va.status = .running ∧ m.va.draw = .idle

instance : Decidable m.Free := inferInstanceAs (Decidable (_ ∧ _))

def isDraw : Playback.Event → Bool
  | .draw .. => true
  | _ => false

def step : Event → Emulator
  | .screen op real sdl =>
    if m.Free then
      match m.screen.step o op with
      | .ok (some (width, height), screen) =>
        ⟨screen, Playback.step o m.va (.draw real width height sdl)⟩
      | .ok (none, screen) => ⟨screen, quiet m.va⟩
      | .error _ =>
        -- behind the VBE registers there is another field of the device
        if op = .bus .vbeReadData then ⟨m.screen, quiet m.va⟩
        else { m with va := { m.va with status := .crashed } }
    else m
  | .thread e => if isDraw e then m else { m with va := Playback.step o m.va e }

def init (vram : Mem) (latch : BitVec 32) (dirty : ℕ → Bool) (pixels : Raster) : Emulator :=
  ⟨.reset vram latch dirty pixels, Playback.init⟩

/-- What ends the process: an access of the guest that faults, a refresh that runs into
something or calls the hook for a frame with nothing to divide by, and two kinds of
message on the decode port. -/
def Fatal : Event → Prop
  | .screen op _ _ => m.Free ∧
    match op with
    | .bus op => op ≠ .vbeReadData ∧ m.screen.dev.regs.Trips op
    | .lfb _ _ | .invalidate => False
    | .refresh => m.screen.Leaves o ∨ Pending m.va ∧ ∃ width height c,
        m.screen.dev.regs.vgaUpdateDisplay = some (width, height) ∧ m.va.va.avctx = some c ∧
          (width = 0 ∨ height = 0 ∨ innerRect c.width c.height m.va.va.clientRect = none)
  | .thread e =>
    match e with
    | .decodeMessage msg lib => e.Enabled m.va ∧
      (msg.header = 1 ∧ codecOpens (leadingInt o msg) lib = false ∨
        msg.header = 4 ∧ m.va.va.avctx = none)
    | _ => False

end Emulator

theorem cdiv_eq_none_iff {a b : Int32} (hb : 0 ≤ b) : cdiv a b = none ↔ b = 0 := by
  unfold cdiv
  split
  · next h =>
    refine iff_of_true rfl ?_
    rcases h with h | ⟨-, rfl⟩
    · exact h
    · exact absurd hb (by decide)
  · next h => exact iff_of_false nofun fun h0 => h (.inl h0)

theorem calcScale_eq_none_iff {videow videoh : Int32} {clientRect : Rect}
    {screen : VmPlayback.Surface} {reswidth resheight : Int32} (hw : 0 ≤ reswidth)
    (hh : 0 ≤ resheight) :
    calcScale videow videoh clientRect screen reswidth resheight = none ↔
      reswidth = 0 ∨ resheight = 0 ∨ innerRect videow videoh clientRect = none := by
  unfold calcScale
  cases innerRect videow videoh clientRect with
  | none => simp
  | some n =>
    by_cases hw0 : reswidth = 0
    · simp [hw0, cdiv]
    · have hdivw : ∀ a, ∃ q, cdiv a reswidth = some q := fun a =>
        Option.ne_none_iff_exists'.mp fun h => hw0 ((cdiv_eq_none_iff hw).mp h)
      obtain ⟨vl, hvl⟩ := hdivw (n.l * screen.w)
      obtain ⟨vw, hvw⟩ := hdivw (n.w * screen.w)
      by_cases hh0 : resheight = 0
      · simp [hh0, cdiv]
      · have hdivh : ∀ a, ∃ q, cdiv a resheight = some q := fun a =>
          Option.ne_none_iff_exists'.mp fun h => hh0 ((cdiv_eq_none_iff hh).mp h)
        obtain ⟨vt, hvt⟩ := hdivh (n.t * screen.h)
        obtain ⟨vh, hvh⟩ := hdivh (n.h * screen.h)
        simp [hw0, hh0, hvl, hvw, hvt, hvh]

namespace Vga.VGACommonState

theorem toInt32_nonneg (x : UInt16) : 0 ≤ x.toUInt32.toInt32 := by
  by_cases h : x = 0
  · subst h
    decide
  · exact Int32.le_of_lt ((toInt32_pos_iff x).mpr h)

/-- The hook passes the sizes in the VBE registers. -/
theorem vgaUpdateDisplay_nonneg {s : VGACommonState} {width height : Int32}
    (h : s.vgaUpdateDisplay = some (width, height)) : 0 ≤ width ∧ 0 ≤ height := by
  have hdraw : s.vgaDrawGraphic = some (width, height) := by
    unfold vgaUpdateDisplay at h
    split at h
    · exact h
    · cases h
  unfold vgaDrawGraphic vgaGetBpp vgaGetResolution at hdraw
  by_cases he : s.vbeRegs .enable &&& 1 ≠ 0
  · simp only [if_pos he] at hdraw
    split at hdraw
    · cases hdraw
      exact ⟨toInt32_nonneg _, toInt32_nonneg _⟩
    · cases hdraw
  · -- without VBE there is no depth the hook is for
    simp only [if_neg he] at hdraw
    rw [if_neg (by decide)] at hdraw
    cases hdraw

end Vga.VGACommonState

namespace Playback

variable {o : ByteOrder} {s s' : State} {e : Event}

/-- Frames come from a context, and it stays until the process ends or there is another. -/
def PlaysContext (s : State) : Prop := s.va.playing = true → ∃ c, s.va.avctx = some c

theorem Move.playsContext (h : Move o s e s') (hp : PlaysContext s) : PlaysContext s' := by
  cases h with
  | codecOpened => exact fun _ => ⟨_, rfl⟩
  | packet => exact fun _ => ⟨_, rfl⟩
  | decodeFailure => exact nofun
  | _ => exact hp

theorem playsContext_step (hr : Alive Rest s) (hp : Alive PlaysContext s) (e : Event) :
    Alive PlaysContext (step o s e) :=
  alive_step o hr hp id fun _ hk _ hmove => hmove.playsContext hk

/-- What a message on the decode port or a drawing call ends the process with. -/
theorem step_stops_iff (hr : Alive Rest s) (hp : Alive PlaysContext s) (e : Event) :
    (step o s e).status ≠ .running ↔ s.status ≠ .running ∨ (e.Enabled s ∧
      match e with
      | .decodeMessage m lib => m.header = 1 ∧ codecOpens (leadingInt o m) lib = false ∨
          m.header = 4 ∧ s.va.avctx = none
      | .draw screen width height _ => Pending s ∧ ∃ c, s.va.avctx = some c ∧
          calcScale c.width c.height s.va.clientRect screen width height = none
      | _ => False) := by
  by_cases he : e.Enabled s
  · have hrun := he.1
    rcases step_move o (hr hrun).1 he with hmove | hhalt
    · rw [hmove.status_eq]
      refine iff_of_false (not_not.mpr hrun) ?_
      rintro (hstop | ⟨-, hfatal⟩)
      · exact hstop hrun
      · generalize step o s e = s' at hmove
        cases hmove with
        | otherHeader h1 h4 => exact hfatal.elim (fun h => h1 h.1) fun h => h4 h.1
        | codecOpened h1 _ ho =>
          rcases hfatal with ⟨-, hno⟩ | ⟨h4, -⟩
          · rw [ho] at hno
            cases hno
          · rw [h1] at h4
            exact absurd h4 (by decide)
        | packet h4 hc =>
          rcases hfatal with ⟨h1, -⟩ | ⟨-, hnone⟩
          · rw [h4] at h1
            exact absurd h1 (by decide)
          · rw [hc] at hnone
            cases hnone
        | drawNothing _ hn =>
          rw [hfatal.1.2] at hn
          cases hn
        | drawStopped hstop =>
          rw [hfatal.1.1] at hstop
          cases hstop
        | drawSkipped _ _ hc hv | drawCached _ _ hc hv | drawCreated _ _ hc hv =>
          obtain ⟨-, c, hc', hnone⟩ := hfatal
          rw [hc] at hc'
          cases hc'
          rw [hv] at hnone
          cases hnone
        | _ => exact hfatal
    · refine iff_of_true hhalt.not_running (.inr ⟨he, ?_⟩)
      generalize step o s e = s' at hhalt
      cases hhalt with
      | codecThrown h1 _ ho => exact .inl ⟨h1, ho⟩
      | codecStopped h1 _ ho => exact .inl ⟨h1, ho⟩
      | packetNull h4 hc => exact .inr ⟨h4, hc⟩
      | drawTrapped hpl hn hv =>
        obtain ⟨c, hc⟩ := hp hrun hpl
        exact ⟨⟨hpl, hn⟩, c, hc, hv c hc⟩
  · rw [step_disabled o he]
    exact ⟨fun h => .inl h, fun h => h.elim id fun h => absurd h.1 he⟩

end Playback

namespace Vga.VgaScreen

variable {o : ByteOrder} {m : VgaScreen}

/-- The hook is called in a refresh only, with what the registers say. -/
theorem step_hook {op : ScreenOp} {hook : Option (Int32 × Int32)} {m' : VgaScreen}
    (hok : m.step o op = .ok (hook, m')) :
    hook = if op = .refresh then m.dev.regs.vgaUpdateDisplay else none := by
  cases op with
  | bus op =>
    simp only [VgaScreen.step] at hok
    cases hbus : m.dev.busStep o op with
    | error f =>
      rw [hbus] at hok
      cases hok
    | ok r =>
      rw [hbus] at hok
      cases hok
      rfl
  | lfb addr val =>
    simp only [VgaScreen.step] at hok
    split at hok <;> cases hok <;> rfl
  | invalidate =>
    cases hok
    rfl
  | refresh =>
    rw [if_pos rfl, VGACommonState.vgaUpdateDisplay]
    cases hmode : m.dev.regs.graphicMode with
    | graph =>
      obtain ⟨p, -, hhook, -⟩ := vgaUpdateDisplay_graph hmode hok
      exact hhook
    | text =>
      simp only [VgaScreen.step, vgaUpdateDisplay, hmode] at hok
      obtain ⟨p, -, hok⟩ := Transducer.bind_ok hok
      cases hok
      rfl
    | blank =>
      simp only [VgaScreen.step, vgaUpdateDisplay, hmode] at hok
      obtain ⟨p, -, hok⟩ := Transducer.bind_ok hok
      cases hok
      rfl

/-- What an operation on the device runs into. -/
theorem step_error_iff (h : m.Sound) (op : ScreenOp) :
    (∃ e, m.step o op = .error e) ↔
      match op with
      | .bus op => m.dev.regs.Trips op
      | .lfb _ _ | .invalidate => False
      | .refresh => m.Leaves o := by
  cases op with
  | bus op =>
    refine Iff.trans ?_ (VGADevice.busStep_error_iff (o := o) h.wellFormed op)
    simp only [VgaScreen.step]
    cases m.dev.busStep o op with
    | error f => exact iff_of_true ⟨_, rfl⟩ ⟨_, rfl⟩
    | ok r => exact iff_of_false (Transducer.ok_ne_error _) (Transducer.ok_ne_error _)
  | lfb addr val =>
    simp only [VgaScreen.step]
    split <;> exact iff_of_false (Transducer.ok_ne_error _) id
  | invalidate => exact iff_of_false (Transducer.ok_ne_error _) id
  | refresh => exact vgaUpdateDisplay_error_iff h.fits h.wellFormed

end Vga.VgaScreen

namespace Emulator

variable {o : ByteOrder} {m : Emulator}

structure Inv (m : Emulator) : Prop where
  sound : m.screen.Sound
  rest : Alive Rest m.va
  playsContext : Alive PlaysContext m.va

theorem Inv.quiet (h : m.Inv) {screen : VgaScreen} (hs : screen.Sound) :
    (⟨screen, Playback.quiet m.va⟩ : Emulator).Inv := ⟨hs, h.rest, h.playsContext⟩

theorem Inv.va (h : m.Inv) {screen : VgaScreen} (hs : screen.Sound) (e : Playback.Event) :
    (⟨screen, Playback.step o m.va e⟩ : Emulator).Inv :=
  ⟨hs, rest_step o h.rest e, playsContext_step h.rest h.playsContext e⟩

theorem Inv.step (h : m.Inv) (e : Event) : (m.step o e).Inv := by
  cases e with
  | screen op real sdl =>
    dsimp only [Emulator.step]
    split
    · rcases hop : m.screen.step o op with f | ⟨hook, screen⟩
      · dsimp only
        split
        · exact h.quiet h.sound
        · exact ⟨h.sound, nofun, nofun⟩
      · have hs := h.sound.step hop
        cases hook with
        | none => exact h.quiet hs
        | some size => exact h.va hs _
    · exact h
  | thread e =>
    dsimp only [Emulator.step]
    split
    · exact h
    · exact h.va h.sound e

theorem inv_init (vram : Mem) (latch : BitVec 32) (dirty : ℕ → Bool) (pixels : Raster) :
    (init vram latch dirty pixels).Inv :=
  ⟨VgaScreen.sound_reset vram latch dirty pixels, rest_init,
    fun _ hp => absurd hp Bool.false_ne_true⟩

theorem inv_run (h : m.Inv) (es : List Event) : (es.foldl (step o) m).Inv :=
  invariant_run (J := Inv) (fun _ e h => Inv.step h e) h es

/-- The hook with a frame that has no place. -/
theorem hook_stops_iff (h : m.Inv) (hfree : m.Free) {real : VmPlayback.Surface} {sdl : SdlOutcome}
    {width height : Int32} (hhook : m.screen.dev.regs.vgaUpdateDisplay = some (width, height)) :
    (Playback.step o m.va (.draw real width height sdl)).status ≠ .running ↔
      Pending m.va ∧ ∃ width height c,
        m.screen.dev.regs.vgaUpdateDisplay = some (width, height) ∧ m.va.va.avctx = some c ∧
          (width = 0 ∨ height = 0 ∨ innerRect c.width c.height m.va.va.clientRect = none) := by
  obtain ⟨hw, hh⟩ := VGACommonState.vgaUpdateDisplay_nonneg hhook
  have henabled : (Playback.Event.draw real width height sdl).Enabled m.va := hfree
  rw [Playback.step_stops_iff h.rest h.playsContext]
  simp only [hfree.1, ne_eq, not_true_eq_false, false_or, henabled, true_and]
  refine and_congr Iff.rfl ?_
  constructor
  · rintro ⟨c, hc, hnone⟩
    exact ⟨width, height, c, hhook, hc, (calcScale_eq_none_iff hw hh).mp hnone⟩
  · rintro ⟨width', height', c, hsize, hc, hzero⟩
    rw [hhook] at hsize
    cases hsize
    exact ⟨c, hc, (calcScale_eq_none_iff hw hh).mpr hzero⟩

/-- The device at work: what it runs into, or what the hook does. -/
theorem screen_stops_iff (h : m.Inv) (hfree : m.Free) (op : ScreenOp) (real : VmPlayback.Surface)
    (sdl : SdlOutcome) :
    (m.step o (.screen op real sdl)).va.status ≠ .running ↔ m.Fatal o (.screen op real sdl) := by
  have herror := VgaScreen.step_error_iff (o := o) h.sound op
  dsimp only [Emulator.step, Fatal]
  rw [if_pos hfree]
  simp only [hfree, ne_eq, true_and]
  rcases hop : m.screen.step o op with f | ⟨hook, screen⟩
  · have hfault := herror.mp ⟨f, hop⟩
    cases op with
    | bus op =>
      by_cases hread : op = .vbeReadData
      · simp [hread, Playback.quiet, hfree.1]
      · simp [hread, hfault]
    | lfb | invalidate => exact absurd hfault id
    | refresh => simp [hfault]
  · have hfine := mt herror.mpr (by rw [hop]; exact Transducer.ok_ne_error _)
    have hhook := VgaScreen.step_hook hop
    cases op with
    | bus op =>
      have hnone : hook = none := hhook
      subst hnone
      exact iff_of_false (not_not.mpr hfree.1) fun hf => hfine hf.2
    | lfb | invalidate =>
      have hnone : hook = none := hhook
      subst hnone
      exact iff_of_false (not_not.mpr hfree.1) id
    | refresh =>
      rw [if_pos rfl] at hhook
      simp only [hfine, false_or]
      cases hook with
      | none => simp [← hhook, Playback.quiet, hfree.1]
      | some size => exact hook_stops_iff h hfree hhook.symm

theorem thread_stops_iff (h : m.Inv) (e : Playback.Event) :
    (m.step o (.thread e)).va.status ≠ .running ↔
      m.va.status ≠ .running ∨ m.Fatal o (.thread e) := by
  dsimp only [Emulator.step, Fatal]
  split
  · next hd =>
    cases e with
    | draw => rw [or_false]
    | _ => cases hd
  · next hd =>
    rw [Playback.step_stops_iff h.rest h.playsContext]
    cases e with
    | draw => exact absurd rfl hd
    | decodeMessage => rfl
    | _ => simp only [and_false]

theorem step_stops_iff (h : m.Inv) (e : Event) :
    (m.step o e).va.status ≠ .running ↔ m.va.status ≠ .running ∨ m.Fatal o e := by
  cases e with
  | screen op real sdl =>
    by_cases hfree : m.Free
    · rw [screen_stops_iff h hfree]
      exact (or_iff_right (not_not.mpr hfree.1)).symm
    · dsimp only [Emulator.step, Fatal]
      rw [if_neg hfree]
      simp only [hfree, false_and, or_false]
  | thread e => exact thread_stops_iff h e

end Emulator

namespace Playback

variable {o : ByteOrder} {s s' : State} {e : Event}

theorem Move.va_eq (h : Move o s e s') (ht : e.thread = .change ∨ e = .drawFinish) :
    ∃ rect, s'.va = { s.va with clientRect := rect } := by
  cases h with
  | changeStart | changeApplied => exact ⟨_, rfl⟩
  | changeAccept | changeFailure | changeIgnored | changeShort | displayed | dropped =>
    exact ⟨s.va.clientRect, rfl⟩
  | _ =>
    rcases ht with ht | ht
    · cases ht
    · cases ht

theorem Move.screen_eq (h : Move o s e s') (ht : e.thread ≠ .draw) :
    s'.draw = s.draw ∧ s'.overlay = s.overlay := by
  cases h with
  | drawNothing | drawSkipped | drawCached | drawCreated | drawStopped | displayed | dropped =>
    exact absurd rfl ht
  | _ => exact ⟨rfl, rfl⟩

/-- A drawing call that has a frame, a place and an overlay for it. -/
theorem step_converts (hr : Rest s) {screen : Surface} {width height : Int32} {sdl : SdlOutcome}
    (he : (Event.draw screen width height sdl).Enabled s) (hp : Pending s) {c : AVCodecContext}
    (hc : s.va.avctx = some c) {v : Rect}
    (hv : calcScale c.width c.height s.va.clientRect screen width height = some v)
    (ho : overlayFits s.overlay s.lastScreen v screen = true ∨
      ¬ (v.w < c.width / 20 ∨ v.h < c.height / 20) ∧ sdl.created = true) :
    ∃ overlay : Overlay, overlay.w = v.w ∧ overlay.h = v.h ∧
      (step o s (.draw screen width height sdl)).overlay = some overlay ∧
      (step o s (.draw screen width height sdl)).draw = .display sdl.success v ∧
      (step o s (.draw screen width height sdl)).effects.getLast? =
        some (.convert (some overlay) c s.va.frame v.w v.h) := by
  have hq : (quiet s).va.mutex = none := hr.1
  have hstep : step o s (.draw screen width height sdl) =
      conclude .draw (quiet s) (vaDoDrawingLocked screen width height sdl) := if_pos he
  cases hf : overlayFits s.overlay s.lastScreen v screen with
  | true =>
    have hlocked := vaDoDrawingLocked_draws screen width height sdl hq hp.1 hp.2 hc hv
      (adjustOverlay_fits hf)
    cases hov : s.overlay with
    | none =>
      simp only [overlayFits, hov, Bool.false_eq_true] at hf
    | some overlay =>
      simp only [overlayFits, hov, Bool.and_eq_true, decide_eq_true_eq] at hf
      refine ⟨overlay, hf.1.1, hf.1.2, ?_⟩
      simp only [hstep, conclude, hlocked, ↓reduceIte]
      exact ⟨hov, trivial, by rw [show (quiet s).overlay = some overlay from hov]; rfl⟩
  | false =>
    obtain ⟨hbig, hcreated⟩ := ho.resolve_left (by simp [hf])
    have hlocked := vaDoDrawingLocked_draws screen width height sdl hq hp.1 hp.2 hc hv
      (adjustOverlay_creates hf hbig hcreated)
    refine ⟨madeOverlay s v screen, rfl, rfl, ?_⟩
    simp only [hstep, conclude, hlocked, ↓reduceIte]
    exact ⟨rfl, trivial, List.getLast?_concat⟩

theorem step_displays (hrun : s.status = .running) {success : Int32} {v : Rect}
    (hd : s.draw = .display success v) {overlay : Overlay} (ho : s.overlay = some overlay) :
    (step o s .drawFinish).effects =
      if success > 0 then [.display (some overlay) (Rect.toSDL v)] else [] := by
  have he : Event.drawFinish.Enabled s := ⟨hrun, by simp [Event.Ready, hd]⟩
  have hq : (quiet s).draw = .display success v := hd
  rw [step, if_pos he]
  simp only [exec, conclude, vaDoDrawingUnlocked_display hq]
  rw [show (quiet s).overlay = some overlay from ho]
  rfl

end Playback

namespace Emulator

/-- An event with which a frame that is to be drawn stays: nothing happens on the
decode port, and the display is not in a mode the hook draws in. -/
def Spares (m : Emulator) : Event → Prop
  | .screen op _ _ => op = .refresh → m.screen.dev.regs.vgaUpdateDisplay = none
  | .thread e => e.thread ≠ .decode

instance (m : Emulator) : DecidablePred m.Spares
  | .screen .. => inferInstanceAs (Decidable (_ → _))
  | .thread _ => inferInstanceAs (Decidable (¬ _))

def Waits (c : AVCodecContext) (m : Emulator) : Prop :=
  Pending m.va ∧ m.va.va.avctx = some c ∧ m.va.va.frame = some c.id

variable {o : ByteOrder} {m : Emulator} {c : AVCodecContext}

theorem Waits.of_va_eq (h : m.Waits c) {screen : VgaScreen} {s : Playback.State} {rect : Rect}
    (hs : s.va = { m.va.va with clientRect := rect }) : Waits c ⟨screen, s⟩ := by
  unfold Waits Pending at *
  simp only [hs]
  exact h

theorem Waits.step (hi : m.Inv) (h : m.Waits c) {e : Event} (he : m.Spares e) :
    (m.step o e).Waits c := by
  cases e with
  | screen op real sdl =>
    dsimp only [Emulator.step]
    split
    · rcases hop : m.screen.step o op with f | ⟨hook, screen⟩
      · dsimp only
        split <;> exact h
      · have hhook : hook = none := by
          rw [VgaScreen.step_hook hop]
          split
          · next hrefresh => exact he hrefresh
          · rfl
        subst hhook
        exact h
    · exact h
  | thread e =>
    dsimp only [Emulator.step]
    split
    · exact h
    · next hd =>
      by_cases hen : e.Enabled m.va
      · have ht : e.thread = .change ∨ e = .drawFinish := by
          cases e with
          | draw => exact absurd rfl hd
          | drawFinish => exact .inr rfl
          | decodeAccept | decodeMessage | decodeFailure => exact absurd rfl he
          | _ => exact .inl rfl
        rcases step_move o (hi.rest hen.1).1 hen with hmove | hhalt
        · obtain ⟨rect, hva⟩ := hmove.va_eq ht
          exact h.of_va_eq hva
        · generalize Playback.step o m.va e = s' at hhalt
          cases hhalt with
          | drawTrapped => exact absurd rfl hd
          | _ => exact absurd rfl he
      · rw [step_disabled o hen]
        exact h

/-- The call between its two halves: `va_do_drawing_locked` has given the mutex back. -/
def Displaying (success : Int32) (v : Rect) (overlay : Overlay) (s : Playback.State) : Prop :=
  s.draw = .display success v ∧ s.overlay = some overlay

theorem displaying_step {success : Int32} {v : Rect} {overlay : Overlay} (hi : m.Inv)
    (h : Alive (Displaying success v overlay) m.va) {e : Event} (he : e ≠ .thread .drawFinish) :
    Alive (Displaying success v overlay) (m.step o e).va := by
  cases e with
  | screen op real sdl =>
    -- the emulator's thread is in the call
    have hfree : ¬ m.Free := by
      rintro ⟨hrun, hidle⟩
      rw [(h hrun).1] at hidle
      cases hidle
    dsimp only [Emulator.step]
    rw [if_neg hfree]
    exact h
  | thread e =>
    dsimp only [Emulator.step]
    split
    · exact h
    · next hd =>
      have ht : e.thread ≠ .draw := by
        cases e with
        | draw => exact absurd rfl hd
        | drawFinish => exact absurd rfl he
        | _ => exact nofun
      refine alive_step o hi.rest h id fun s' hk _ hmove => ?_
      obtain ⟨hdraw, hoverlay⟩ := hmove.screen_eq ht
      exact ⟨hdraw.trans hk.1, hoverlay.trans hk.2⟩

/-- A packet that returns a picture leaves it to be drawn. -/
theorem waits_decoded (hi : m.Inv) {msg : Message} {lib : LibavOutcome}
    (he : (Event.decodeMessage msg lib).Enabled m.va) (hheader : msg.header = 4)
    (hc : m.va.va.avctx = some c) (hlib : lib.picture = true) :
    (m.step o (.thread (.decodeMessage msg lib))).Waits
      { c with width := lib.width, height := lib.height, pictured := true } := by
  have hgot : lib.got = true := (Bool.and_eq_true _ _ ▸ hlib).2
  have hstep : Playback.step o m.va (.decodeMessage msg lib) = decoded o m.va c msg lib := by
    rw [Playback.step, if_pos he]
    simp only [exec, handleDecodeMessage, conclude, Message.getHeader, hheader,
      handlePacketMessage_run o (hi.rest he.1).1, hc, show ¬ (4 : Int32) = 1 by decide,
      ↓reduceIte]
  have hwaits : Waits { c with width := lib.width, height := lib.height, pictured := true }
      ⟨m.screen, decoded o m.va c msg lib⟩ := by
    simp only [Waits, Pending, decoded, hlib, hgot, Bool.or_true, ↓reduceIte, and_self]
  rw [← hstep] at hwaits
  exact hwaits

/-- A picture that the decoder returns is shown by the next refresh in a mode the hook
is for, whatever the guest and the other port do in the meantime, unless the process
has ended by then.  The overlay that is displayed, to the outcome of the scaling, is the
one the picture went into. -/
theorem picture_shown {vram : Mem} {latch : BitVec 32} {dirty : ℕ → Bool} {pixels : Raster}
    {before between after : List Event} {msg : Message} {lib : LibavOutcome} {m₀ m₁ m₂ : Emulator}
    (hm₀ : before.foldl (step o) (init vram latch dirty pixels) = m₀)
    (hport : (Event.decodeMessage msg lib).Enabled m₀.va) (hheader : msg.header = 4)
    (hc : m₀.va.va.avctx = some c) (hlib : lib.picture = true)
    (hspares : Along (step o) Spares (m₀.step o (.thread (.decodeMessage msg lib))) between)
    (hm₁ : between.foldl (step o) (m₀.step o (.thread (.decodeMessage msg lib))) = m₁)
    (hfree : m₁.Free) {real : VmPlayback.Surface} {sdl : SdlOutcome} {width height : Int32}
    {screen : VgaScreen}
    (hdrawn : m₁.screen.vgaUpdateDisplay o = .ok (some (width, height), screen)) {v : Rect}
    (hv : calcScale lib.width lib.height m₁.va.va.clientRect real width height = some v)
    (hov : overlayFits m₁.va.overlay m₁.va.lastScreen v real = true ∨
      ¬ (v.w < lib.width / 20 ∨ v.h < lib.height / 20) ∧ sdl.created = true)
    (hafter : ∀ e ∈ after, e ≠ .thread .drawFinish)
    (hm₂ : after.foldl (step o) (m₁.step o (.screen .refresh real sdl)) = m₂)
    (hrun : m₂.va.status = .running) :
    ∃ overlay : Overlay, overlay.w = v.w ∧ overlay.h = v.h ∧
      (m₁.step o (.screen .refresh real sdl)).va.effects.getLast? =
        some (.convert (some overlay)
          { c with width := lib.width, height := lib.height, pictured := true }
          (some c.id) v.w v.h) ∧
      (m₂.step o (.thread .drawFinish)).va.effects =
        if sdl.success > 0 then [.display (some overlay) (Rect.toSDL v)] else [] := by
  set c' : AVCodecContext :=
    { c with width := lib.width, height := lib.height, pictured := true } with hc'
  have hi₀ : m₀.Inv := hm₀ ▸ inv_run (inv_init vram latch dirty pixels) before
  have hw₁ : m₁.Inv ∧ m₁.Waits c' := by
    rw [← hm₁]
    exact invariant_run_of_along (J := fun m => m.Inv ∧ m.Waits c')
      (fun _ e h he => ⟨h.1.step e, h.2.step h.1 he⟩)
      ⟨hi₀.step _, waits_decoded hi₀ hport hheader hc hlib⟩ hspares
  obtain ⟨hi₁, hpending, hctx, hframe⟩ := hw₁
  have hstep : m₁.step o (.screen .refresh real sdl) =
      ⟨screen, Playback.step o m₁.va (.draw real width height sdl)⟩ := by
    simp only [Emulator.step, if_pos hfree, VgaScreen.step, hdrawn]
  have hen : (Event.draw real width height sdl).Enabled m₁.va := hfree
  obtain ⟨overlay, how, hoh, hoverlay, hdraw, heffects⟩ :=
    step_converts (o := o) (hi₁.rest hfree.1) hen hpending hctx hv hov
  refine ⟨overlay, how, hoh, ?_, ?_⟩
  · rw [hstep, heffects, hframe]
  · have hd₂ : m₂.Inv ∧ Alive (Displaying sdl.success v overlay) m₂.va := by
      rw [← hm₂]
      refine invariant_run_of_along
        (J := fun m : Emulator => m.Inv ∧ Alive (Displaying sdl.success v overlay) m.va)
        (fun _ e h he => ⟨h.1.step e, displaying_step h.1 h.2 he⟩)
        ⟨hi₁.step _, ?_⟩ (along_of_forall_mem _ fun _ => hafter)
      rw [hstep]
      exact fun _ => ⟨hdraw, hoverlay⟩
    obtain ⟨hdraw₂, hoverlay₂⟩ := hd₂.2 hrun
    exact step_displays hrun hdraw₂ hoverlay₂

def access (op : BusOp) : Event := .screen (.bus op) ⟨0, 0, 0⟩ ⟨false, 0⟩

def watching : List Event :=
  [access (.vbeWriteIndex 1), access (.vbeWriteData 8), access (.vbeWriteIndex 2),
    access (.vbeWriteData 6), access (.vbeWriteIndex 3), access (.vbeWriteData 32),
    access (.vbeWriteIndex 4), access (.vbeWriteData 1), .thread .decodeAccept,
    .thread (.decodeMessage (intMessage 1 8) willing), .thread .changeStart]

/-- The display is blank when the picture comes, and shows graphics later. -/
theorem picture_shown_watching :
    let m₀ := watching.foldl (step .little) (init (fun _ => 0) 0 (fun _ => false) fun _ _ => 0)
    let m₁ := [.screen .refresh ⟨0, 8, 6⟩ ⟨true, 1⟩, .thread .changeAccept,
        access (.outb 0x3c0 0x20)].foldl (step .little)
      (m₀.step .little (.thread (.decodeMessage (intMessage 4 0) pictured)))
    let m₂ := [access (.outb 0x3c0 0), .thread (.decodeFailure "Receive failed.")].foldl
      (step .little) (m₁.step .little (.screen .refresh ⟨0, 8, 6⟩ ⟨true, 1⟩))
    ∃ overlay : Overlay, (m₂.step .little (.thread .drawFinish)).va.effects =
      [.display (some overlay) (Rect.toSDL ⟨0, 0, 1024, 768⟩)] := by
  intro m₀ m₁ m₂
  have hhook : ((m₁.screen.vgaUpdateDisplay .little).toOption.map Prod.fst) = some (some (8, 6)) :=
    by decide +kernel
  rcases hdrawn : m₁.screen.vgaUpdateDisplay .little with e | ⟨hook, screen⟩
  · rw [hdrawn] at hhook
    cases hhook
  · rw [hdrawn] at hhook
    obtain rfl : hook = some (8, 6) := Option.some_inj.mp hhook
    obtain ⟨overlay, -, -, -, h⟩ := @picture_shown .little ⟨0, 0, 0, true, false⟩ (fun _ => 0) 0
      (fun _ => false) (fun _ _ => 0) watching
      [.screen .refresh ⟨0, 8, 6⟩ ⟨true, 1⟩, .thread .changeAccept, access (.outb 0x3c0 0x20)]
      [access (.outb 0x3c0 0), .thread (.decodeFailure "Receive failed.")]
      (intMessage 4 0) pictured m₀ m₁ m₂ rfl (by decide +kernel) rfl (by decide +kernel) rfl
      (by decide +kernel) rfl (by decide +kernel) ⟨0, 8, 6⟩ ⟨true, 1⟩ 8 6 screen hdrawn
      ⟨0, 0, 1024, 768⟩ (by decide +kernel) (by decide +kernel) (by simp [access]) rfl
      (by decide +kernel)
    exact ⟨overlay, h⟩

end Emulator

end VmPlayback
