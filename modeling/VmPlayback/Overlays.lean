import VmPlayback.Handles
import VmPlayback.Transitions

namespace VmPlayback.Playback

open Exec VmPlayback.Handles

/-- A call of `va_do_drawing`: its arguments, the context `va_getContext` returns,
as it is once the call has the mutex, and what SDL and libswscale answer. -/
structure DrawCall where
  context : Option VAContext
  screen : Surface
  width : Int32
  height : Int32
  sdl : SdlOutcome
  deriving DecidableEq

def vaDoDrawing (c : DrawCall) : VaM Unit := do
  match c.context with
  | none => pure ()
  | some va =>
    modify fun s => { s with va := { va with mutex := none } }
    vaDoDrawingLocked c.screen c.width c.height c.sdl
    vaDoDrawingUnlocked

/-- There are no more calls once the process has crashed. -/
def call (s : State) (c : DrawCall) : State :=
  if s.status = .running then conclude .draw s (vaDoDrawing c) else s

inductive OverlayUse where
  | convert
  | display
  deriving DecidableEq, Repr

def Effect.access : Effect → Option (Access OverlayUse Overlay)
  | .createOverlay overlay => some (.acquire overlay)
  | .freeOverlay overlay => some (.release overlay)
  | .convert (some overlay) .. => some (.use .convert overlay)
  | .display (some overlay) _ => some (.use .display overlay)
  | _ => none

def history (es : List Effect) : List (Access OverlayUse Overlay) :=
  (es.filterMap Effect.access).reverse

def alive (es : List Effect) : List Overlay := held (history es)

theorem history_append (es fs : List Effect) : history (es ++ fs) = history fs ++ history es := by
  simp [history]

theorem history_suffix {pre es : List Effect} (h : pre <+: es) : history pre <:+ history es := by
  obtain ⟨post, rfl⟩ := h
  rw [history_append]
  exact List.suffix_append _ _

theorem mem_history {es : List Effect} {a : Access OverlayUse Overlay} :
    a ∈ history es ↔ ∃ e ∈ es, e.access = some a := by
  simp [history]

/-- The history up to one of the effects. -/
theorem history_split {es pre post : List Effect} {e : Effect} {a : Access OverlayUse Overlay}
    (h : es = pre ++ e :: post) (ha : e.access = some a) : a :: history pre <:+ history es := by
  have hpre : history (pre ++ [e]) = a :: history pre := by
    rw [history_append]
    simp [history, ha]
  rw [← hpre]
  apply history_suffix
  rw [h]
  exact ⟨post, by simp⟩

structure DrawCall.Finds (c : DrawCall) (va : VAContext) (avctx : AVCodecContext) : Prop where
  context_eq : c.context = some va
  playing : va.playing = true
  needDraw : va.needDraw = true
  avctx_eq : va.avctx = some avctx

structure DrawCall.Draws (c : DrawCall) (va : VAContext) (avctx : AVCodecContext) (v : Rect) :
    Prop extends c.Finds va avctx where
  placed :
    calcScale avctx.width avctx.height va.clientRect c.screen c.width c.height = some v

theorem DrawCall.Draws.unique {c : DrawCall} {va va' : VAContext} {avctx avctx' : AVCodecContext}
    {v v' : Rect} (h : c.Draws va avctx v) (h' : c.Draws va' avctx' v') :
    va = va' ∧ avctx = avctx' ∧ v = v' := by
  obtain rfl := Option.some.inj (h.context_eq.symm.trans h'.context_eq)
  obtain rfl := Option.some.inj (h.avctx_eq.symm.trans h'.avctx_eq)
  exact ⟨rfl, rfl, Option.some.inj (h.placed.symm.trans h'.placed)⟩

theorem DrawCall.Draws.plays {c : DrawCall} {va va' : VAContext} {avctx : AVCodecContext}
    {v : Rect} (h : c.Draws va avctx v) (hc : c.context = some va') : va'.playing = true := by
  obtain rfl := Option.some.inj (hc.symm.trans h.context_eq)
  exact h.playing

def TooSmall (avctx : AVCodecContext) (v : Rect) : Prop :=
  v.w < avctx.width / 20 ∨ v.h < avctx.height / 20

instance (avctx : AVCodecContext) (v : Rect) : Decidable (TooSmall avctx v) :=
  inferInstanceAs (Decidable (_ ∨ _))

def shown (c : DrawCall) (overlay : Option Overlay) (v : Rect) : List Effect :=
  if c.sdl.success > 0 then [.display overlay (Rect.toSDL v)] else []

def drawnInto (c : DrawCall) (overlay : Option Overlay) (avctx : AVCodecContext) (va : VAContext)
    (v : Rect) : List Effect :=
  .convert overlay avctx va.frame v.w v.h :: shown c overlay v

def entered (s : State) (va : VAContext) : State := { s with va := { va with mutex := none } }

/-- The exits of `va_do_drawing`, each with the state it leaves. -/
inductive Exit (s : State) (c : DrawCall) : State → Prop where
  /-- No context, no frame, a trap, or no process any more. -/
  | untouched {s'} (hno : s.status = .running → ∀ va avctx v, ¬ c.Draws va avctx v)
      (hoverlay : s'.overlay = s.overlay) (hscreen : s'.lastScreen = s.lastScreen)
      (hcount : s'.overlays = s.overlays) (hdraw : s'.draw = s.draw)
      (heffects : s'.effects = s.effects) : Exit s c s'
  | stopped {va} (hc : c.context = some va) (hp : va.playing = false) : Exit s c
      { entered s va with overlay := none, draw := .idle, effects := s.effects ++ freed s }
  | gaveUp {va avctx v} (hd : c.Draws va avctx v)
      (hf : overlayFits s.overlay s.lastScreen v c.screen = false)
      (hg : TooSmall avctx v ∨ c.sdl.created = false) : Exit s c
      { entered s va with overlay := none, effects := s.effects ++ freed s }
  | kept {va avctx v} (hd : c.Draws va avctx v)
      (hf : overlayFits s.overlay s.lastScreen v c.screen = true) : Exit s c { entered s va with
        va := { va with mutex := none, needDraw := false }
        draw := .idle
        effects := s.effects ++ drawnInto c s.overlay avctx va v }
  | created {va avctx v} (hd : c.Draws va avctx v)
      (hf : overlayFits s.overlay s.lastScreen v c.screen = false) (hbig : ¬ TooSmall avctx v)
      (hcreated : c.sdl.created = true) : Exit s c { entered s va with
        va := { va with mutex := none, needDraw := false }
        overlay := some (madeOverlay s v c.screen)
        lastScreen := some c.screen.ptr
        overlays := s.overlays + 1
        draw := .idle
        effects := s.effects ++ (freed s ++ .createOverlay (madeOverlay s v c.screen) ::
          drawnInto c (some (madeOverlay s v c.screen)) avctx va v) }

variable {s s' : State} {c : DrawCall}

theorem call_ok {va : VAContext} {s₁ s₂ : State} (hs : s.status = .running)
    (hc : c.context = some va)
    (hlocked : vaDoDrawingLocked c.screen c.width c.height c.sdl (entered s va) = .ok () s₁)
    (hunlocked : vaDoDrawingUnlocked s₁ = .ok () s₂) : call s c = s₂ := by
  rw [entered] at hlocked
  simp only [call, if_pos hs, conclude, vaDoDrawing, hc, run_bind, run_modify, hlocked, hunlocked]

theorem call_crash {va : VAContext} {s₁ : State} (hs : s.status = .running)
    (hc : c.context = some va)
    (hlocked : vaDoDrawingLocked c.screen c.width c.height c.sdl (entered s va) =
      .error .crash s₁) : call s c = { s₁ with status := .crashed } := by
  rw [entered] at hlocked
  simp only [call, if_pos hs, conclude, vaDoDrawing, hc, run_bind, run_modify, hlocked]

theorem exit_of_draws {va : VAContext} {avctx : AVCodecContext} {v : Rect}
    (hidle : s.draw = .idle) (hs : s.status = .running) (hd : c.Draws va avctx v) :
    Exit s c (call s c) := by
  obtain ⟨⟨hc, hp, hn, ha⟩, hv⟩ := id hd
  cases hf : overlayFits s.overlay s.lastScreen v c.screen with
  | true =>
    have hlocked := vaDoDrawingLocked_draws (s := entered s va) c.screen c.width c.height c.sdl rfl
      hp hn ha hv (adjustOverlay_fits hf)
    rw [call_ok hs hc hlocked (vaDoDrawingUnlocked_display rfl)]
    have hexit := Exit.kept hd hf
    rwa [drawnInto, List.append_cons] at hexit
  | false =>
    by_cases hg : TooSmall avctx v ∨ c.sdl.created = false
    · have hlocked := vaDoDrawingLocked_draws (s := entered s va) c.screen c.width c.height c.sdl
        rfl hp hn ha hv (adjustOverlay_gives_up hf hg)
      have hexit := Exit.gaveUp hd hf hg
      rwa [call_ok hs hc hlocked (vaDoDrawingUnlocked_idle hidle)]
    · obtain ⟨hbig, hcreated⟩ := not_or.mp hg
      have hcreated : c.sdl.created = true := by simpa using hcreated
      have hlocked := vaDoDrawingLocked_draws (s := entered s va) c.screen c.width c.height c.sdl
        rfl hp hn ha hv (adjustOverlay_creates hf hbig hcreated)
      rw [call_ok hs hc hlocked (vaDoDrawingUnlocked_display rfl)]
      have hexit := Exit.created hd hf hbig hcreated
      rwa [drawnInto, ← List.append_assoc, List.append_cons, List.append_cons] at hexit

theorem exit_of_not_draws {va : VAContext} (hidle : s.draw = .idle) (hs : s.status = .running)
    (hc : c.context = some va) (hd : ∀ avctx v, ¬ c.Draws va avctx v) : Exit s c (call s c) := by
  have hno : s.status = .running → ∀ va avctx v, ¬ c.Draws va avctx v := by
    intro _ va' avctx v hd'
    obtain rfl := Option.some.inj (hc.symm.trans hd'.context_eq)
    exact hd avctx v hd'
  cases hp : va.playing with
  | false =>
    have hlocked := vaDoDrawingLocked_stopped (s := entered s va) c.screen c.width c.height c.sdl
      rfl hp
    have hexit := Exit.stopped (s := s) hc hp
    rwa [call_ok hs hc hlocked (vaDoDrawingUnlocked_drop rfl)]
  | true =>
    cases hn : va.needDraw with
    | false =>
      rw [call_ok hs hc (vaDoDrawingLocked_nothing _ _ _ _ rfl hp hn)
        (vaDoDrawingUnlocked_idle hidle)]
      exact .untouched hno rfl rfl rfl rfl rfl
    | true =>
      rw [call_crash hs hc (vaDoDrawingLocked_trapped _ _ _ _ rfl hp hn fun avctx ha => ?_)]
      · exact .untouched hno rfl rfl rfl rfl rfl
      · by_contra hv
        obtain ⟨v, hv⟩ := Option.ne_none_iff_exists'.mp hv
        exact hd avctx v ⟨⟨hc, hp, hn, ha⟩, hv⟩

theorem call_exit (hidle : s.draw = .idle) : Exit s c (call s c) := by
  by_cases hs : s.status = .running
  · cases hc : c.context with
    | none =>
      have hcall : call s c = s := by
        simp only [call, if_pos hs, conclude, vaDoDrawing, hc, run_pure]
      rw [hcall]
      refine .untouched (fun _ va avctx v hd => ?_) rfl rfl rfl rfl rfl
      cases hc.symm.trans hd.context_eq
    | some va =>
      by_cases hd : ∃ avctx v, c.Draws va avctx v
      · obtain ⟨avctx, v, hd⟩ := hd
        exact exit_of_draws hidle hs hd
      · exact exit_of_not_draws hidle hs hc fun avctx v h => hd ⟨avctx, v, h⟩
  · rw [call, if_neg hs]
    exact .untouched (fun h => absurd h hs) rfl rfl rfl rfl rfl

/-- Between two calls the overlay is the only one there is, and `last_screen` is the
screen it was made for.  Without an overlay `last_screen` may be anything. -/
structure Cached (s : State) : Prop where
  slotted : Slotted (history s.effects) s.overlay
  numbered : ∀ overlay, .createOverlay overlay ∈ s.effects → overlay.id < s.overlays
  screen_eq : ∀ overlay, s.overlay = some overlay → s.lastScreen = some overlay.screen
  idle : s.draw = .idle

theorem acquire_mem_history {es : List Effect} {overlay : Overlay} :
    .acquire overlay ∈ history es ↔ .createOverlay overlay ∈ es := by
  rw [mem_history]
  constructor
  · rintro ⟨e, he, ha⟩
    unfold Effect.access at ha
    split at ha <;> simp_all
  · intro h
    exact ⟨_, h, rfl⟩

variable {es : List Effect}

theorem slotted_freed (h : Slotted (history es) s.overlay) :
    Slotted (history (es ++ freed s)) none := by
  rw [history_append, freed]
  cases ho : s.overlay with
  | none => simpa [history, ho] using h
  | some overlay =>
    rw [ho] at h
    exact h.release

theorem slotted_drawnInto {overlay : Overlay} (h : Slotted (history es) (some overlay))
    (avctx : AVCodecContext) (va : VAContext) (v : Rect) :
    Slotted (history (es ++ drawnInto c (some overlay) avctx va v)) (some overlay) := by
  rw [history_append, drawnInto, shown]
  split
  · exact (h.use .convert).use .display
  · exact h.use .convert

theorem not_created_of_freed {overlay : Overlay} : .createOverlay overlay ∉ freed s := by
  simp [mem_freed]

theorem not_created_of_drawnInto {overlay : Overlay} {target : Option Overlay}
    {avctx : AVCodecContext} {va : VAContext} {v : Rect} :
    .createOverlay overlay ∉ drawnInto c target avctx va v := by
  unfold drawnInto shown
  split
  · simp
  · simp

theorem overlayFits_iff {overlay : Option Overlay} {lastScreen : Option ℕ} {v : Rect}
    {screen : Surface} :
    overlayFits overlay lastScreen v screen = true ↔
      ∃ o, overlay = some o ∧ o.w = v.w ∧ o.h = v.h ∧ lastScreen = some screen.ptr := by
  cases overlay <;> simp [overlayFits, and_assoc]

theorem Exit.cached (h : Exit s c s') (hs : Cached s) : Cached s' := by
  obtain ⟨hslot, hnum, hscreen, hidle⟩ := hs
  have hold : ∀ overlay, .createOverlay overlay ∈ s.effects ++ freed s →
      overlay.id < s.overlays := by
    intro overlay hmem
    exact hnum overlay ((List.mem_append.mp hmem).resolve_right not_created_of_freed)
  cases h with
  | untouched _ ho hl hn hd he =>
    exact ⟨by rwa [he, ho], by rwa [he, hn], by rwa [ho, hl], hd.trans hidle⟩
  | stopped => exact ⟨slotted_freed hslot, hold, by simp, rfl⟩
  | gaveUp => exact ⟨slotted_freed hslot, hold, by simp, hidle⟩
  | kept hd hf =>
    obtain ⟨overlay, ho, -⟩ := overlayFits_iff.mp hf
    refine ⟨?_, ?_, hscreen, rfl⟩
    · change Slotted _ s.overlay
      rw [ho] at hslot ⊢
      exact slotted_drawnInto hslot _ _ _
    · intro overlay hmem
      exact hnum overlay ((List.mem_append.mp hmem).resolve_right not_created_of_drawnInto)
  | @created va avctx v hd hf hbig hcreated =>
    rw [← List.append_assoc, List.append_cons]
    refine ⟨?_, ?_, ?_, rfl⟩
    · refine slotted_drawnInto ?_ _ _ _
      rw [history_append]
      refine (slotted_freed hslot).acquire ?_
      rw [acquire_mem_history]
      intro hmem
      exact lt_irrefl _ (hold _ hmem)
    · intro overlay hmem
      have hmem := (List.mem_append.mp hmem).resolve_right not_created_of_drawnInto
      rcases List.mem_append.mp hmem with hmem | hmem
      · exact Nat.lt_succ_of_lt (hold overlay hmem)
      · obtain rfl : overlay = madeOverlay s v c.screen := by simpa using hmem
        exact Nat.lt_succ_self _
    · rintro overlay ⟨⟩
      rfl

theorem call_cached (hs : Cached s) (c : DrawCall) : Cached (call s c) :=
  (call_exit hs.idle).cached hs

def Effect.target : Effect → Option (Option Overlay)
  | .convert overlay .. => some overlay
  | .display overlay _ => some overlay
  | _ => none

def DrawCall.Made (c : DrawCall) (overlay : Overlay) : Prop :=
  ∃ va avctx v, c.Draws va avctx v ∧ overlay.w = v.w ∧ overlay.h = v.h ∧
    overlay.screen = c.screen.ptr

/-- Every conversion and display of the call goes to a living overlay of its own
size and screen. -/
def UsesOwnOverlay (s : State) (c : DrawCall) : Prop :=
  s.effects <+: (call s c).effects ∧
  ∀ pre e post target, (call s c).effects = s.effects ++ pre ++ e :: post →
    e.target = some target →
    ∃ overlay, target = some overlay ∧ overlay ∈ alive (s.effects ++ pre) ∧ c.Made overlay

def GivesUp (s : State) (c : DrawCall) : Prop :=
  s.status = .running ∧ ∃ va avctx v, c.Draws va avctx v ∧
    overlayFits s.overlay s.lastScreen v c.screen = false ∧
    (TooSmall avctx v ∨ c.sdl.created = false)

theorem target_access {e : Effect} {overlay : Overlay} (h : e.target = some (some overlay)) :
    ∃ kind, e.access = some (.use kind overlay) := by
  cases e with
  | convert target =>
    cases h
    exact ⟨.convert, rfl⟩
  | display target =>
    cases h
    exact ⟨.display, rfl⟩
  | _ => cases h

theorem target_of_freed {e : Effect} (h : e ∈ freed s) : e.target = none := by
  obtain ⟨overlay, -, rfl⟩ := mem_freed.mp h
  rfl

theorem target_of_drawnInto {e : Effect} {target : Option Overlay} {avctx : AVCodecContext}
    {va : VAContext} {v : Rect} (h : e ∈ drawnInto c target avctx va v) :
    e.target = some target := by
  unfold drawnInto shown at h
  split at h
  · rcases List.mem_cons.mp h with rfl | h
    · rfl
    · rw [List.mem_singleton.mp h]
      rfl
  · rw [List.mem_singleton.mp h]
    rfl

/-- What a call adds to the history, and for whom. -/
theorem Exit.added (h : Exit s c s') (hs : Cached s) :
    ∃ added, s'.effects = s.effects ++ added ∧ ∀ e ∈ added, ∀ target, e.target = some target →
      ∃ overlay, target = some overlay ∧ c.Made overlay := by
  cases h with
  | untouched _ _ _ _ _ he => exact ⟨[], by simp [he], by simp⟩
  | stopped | gaveUp =>
    refine ⟨freed s, rfl, fun e he target ht => ?_⟩
    simp [target_of_freed he] at ht
  | @kept va avctx v hd hf =>
    obtain ⟨overlay, ho, hw, hh, hl⟩ := overlayFits_iff.mp hf
    have hscreen := Option.some.inj ((hs.screen_eq overlay ho).symm.trans hl)
    refine ⟨_, rfl, fun e he target ht => ?_⟩
    rw [target_of_drawnInto he, ho] at ht
    exact ⟨overlay, (Option.some.inj ht).symm, va, avctx, v, hd, hw, hh, hscreen⟩
  | @created va avctx v hd hf hbig hcreated =>
    refine ⟨_, rfl, fun e he target ht => ?_⟩
    rcases List.mem_append.mp he with he | he
    · simp [target_of_freed he] at ht
    · rcases List.mem_cons.mp he with rfl | he
      · cases ht
      · rw [target_of_drawnInto he] at ht
        exact ⟨_, (Option.some.inj ht).symm, va, avctx, v, hd, rfl, rfl, rfl⟩

theorem usesOwnOverlay (hs : Cached s) (c : DrawCall) : UsesOwnOverlay s c := by
  obtain ⟨added, hadded, hown⟩ := (call_exit (c := c) hs.idle).added hs
  refine ⟨⟨added, hadded.symm⟩, ?_⟩
  intro pre e post target he ht
  have hsplit : added = pre ++ e :: post := by
    rw [hadded, List.append_assoc] at he
    exact List.append_cancel_left he
  obtain ⟨overlay, rfl, hmade⟩ := hown e (by simp [hsplit]) target ht
  refine ⟨overlay, rfl, ?_, hmade⟩
  -- the discipline of the history says the rest
  obtain ⟨kind, hkind⟩ := target_access ht
  exact ((call_cached hs c).slotted.disciplined.suffix (history_split he hkind)).2

theorem gives_up_keeps_frame (hs : Cached s) (hg : GivesUp s c) :
    (call s c).overlay = none ∧ (call s c).va.needDraw = true := by
  obtain ⟨hrun, va, avctx, v, hd, hf, hg⟩ := hg
  have hexit := call_exit (c := c) hs.idle
  generalize call s c = s' at hexit
  cases hexit with
  | untouched hno => exact absurd hd (hno hrun va avctx v)
  | stopped hc hp => simp [hd.plays hc] at hp
  | gaveUp hd' => exact ⟨rfl, hd'.needDraw⟩
  | kept hd' hf' =>
    obtain ⟨rfl, rfl, rfl⟩ := hd.unique hd'
    simp [hf] at hf'
  | created hd' hf' hbig hcreated =>
    obtain ⟨rfl, rfl, rfl⟩ := hd.unique hd'
    rcases hg with hg | hg
    · exact absurd hg hbig
    · simp [hcreated] at hg

theorem cached_init : Cached init where
  slotted := .nil
  numbered := by simp [init]
  screen_eq := by simp [init]
  idle := rfl

/-- Over every run of drawing calls, whatever they find in the context: there is never
more than one overlay, none is freed twice, each call uses a living one that was made
for it, and a call that gives up leaves no overlay and the frame undrawn. -/
theorem overlays_coherent (calls : List DrawCall) :
    (∀ pre, pre <+: (calls.foldl call init).effects → (alive pre).length ≤ 1) ∧
    (∀ pre overlay post,
      (calls.foldl call init).effects = pre ++ .freeOverlay overlay :: post →
      .freeOverlay overlay ∉ pre) ∧
    Along call (fun s c => UsesOwnOverlay s c ∧
      (GivesUp s c → (call s c).overlay = none ∧ (call s c).va.needDraw = true)) init calls := by
  have hrun : Cached (calls.foldl call init) :=
    invariant_run (J := Cached) (fun s c hs => call_cached hs c) cached_init calls
  refine ⟨?_, ?_, ?_⟩
  · intro pre hpre
    exact hrun.slotted.single _ (history_suffix hpre)
  · intro pre overlay post he hmem
    refine hrun.slotted.disciplined.released_once (history_split he rfl) ?_
    exact mem_history.mpr ⟨_, hmem, rfl⟩
  · exact along_of_invariant (J := Cached) (fun s c hs => call_cached hs c)
      (fun s c hs => ⟨usesOwnOverlay hs c, gives_up_keeps_frame hs⟩) cached_init calls

end VmPlayback.Playback
