import VmPlayback.CalcScale
import VmPlayback.Exec
import VmPlayback.Message

namespace VmPlayback.Playback

inductive Thread where
  | decode
  | change
  | draw
  deriving DecidableEq, Repr

inductive CodecID where
  | h264
  | mpeg4
  | mpeg2video
  deriving DecidableEq, Repr

/-- As much of an `AVCodecContext` as matters here: which of the contexts made so
far it is, the size of its pictures, and two ghosts, whether the last
`avcodec_open` on it succeeded and whether it has returned a picture. -/
structure AVCodecContext where
  id : ℕ
  width : Int32
  height : Int32
  opened : Bool
  pictured : Bool
  deriving DecidableEq, Repr

/-- `frame` is the context whose picture is in it, `mutex` the holder. -/
structure VAContext where
  mutex : Option Thread
  avctx : Option AVCodecContext
  frame : Option ℕ
  clientRect : Rect
  needDraw : Bool
  playing : Bool
  deriving DecidableEq, Repr

structure Overlay where
  id : ℕ
  w : Int32
  h : Int32
  screen : ℕ
  deriving DecidableEq, Repr

structure SDLRect where
  x : Int16
  y : Int16
  w : UInt16
  h : UInt16
  deriving DecidableEq

def Rect.toSDL (v : Rect) : SDLRect :=
  ⟨v.l.toInt16, v.t.toInt16, v.w.toUInt32.toUInt16, v.h.toUInt32.toUInt16⟩

inductive Effect where
  /-- The handler looks at `size` bytes of the content from `offset` on. -/
  | contentRead (offset size : ℕ)
  /-- `avcodec_decode_video2` on a packet of `size` bytes at `content + data`. -/
  | decodeVideo (avctx : Option AVCodecContext) (data : ℕ) (size : Int32)
  | createOverlay (overlay : Overlay)
  | freeOverlay (overlay : Overlay)
  /-- `sws_scale` from the frame, taken to have the context's size, to the overlay. -/
  | convert (overlay : Option Overlay) (avctx : AVCodecContext) (frame : Option ℕ)
      (width height : Int32)
  | display (overlay : Option Overlay) (rect : SDLRect)
  deriving DecidableEq

/-- Where a network thread is.  `unwound`: an exception has left its function. -/
inductive NetPc where
  | starting
  | accepting
  | reading
  | unwound
  deriving DecidableEq, Repr

def NetPc.InLoop (pc : NetPc) : Prop := pc = .accepting ∨ pc = .reading

/-- Where a drawing call is: it has work left to do after its locked section. -/
inductive DrawPc where
  | idle
  | display (success : Int32) (v : Rect)
  | dropOverlay
  deriving DecidableEq, Repr

inductive Status where
  | running
  /-- `exit` was called. -/
  | exited
  /-- The processor trapped or an invalid pointer was used. -/
  | crashed
  /-- `std::terminate` after an exception nobody catches. -/
  | terminated
  deriving DecidableEq, Repr

/-- `overlay` and `lastScreen` are the static `state` of `va.c`; `contexts` and
`overlays` count what has been made, `effects` are those of the last step. -/
structure State where
  va : VAContext
  contexts : ℕ
  overlay : Option Overlay
  lastScreen : Option ℕ
  overlays : ℕ
  decode : NetPc
  change : NetPc
  draw : DrawPc
  status : Status
  effects : List Effect
  deriving DecidableEq

def init : State where
  va := ⟨none, none, none, ⟨0, 0, 0, 0⟩, false, false⟩
  contexts := 0
  overlay := none
  lastScreen := none
  overlays := 0
  decode := .accepting
  change := .starting
  draw := .idle
  status := .running
  effects := []

/-- `throw cid` throws a `CodecID`, which no `catch(std::exception&)` matches. -/
inductive Thrown where
  | std (what : String)
  | codecID
  deriving DecidableEq, Repr

inductive Stop where
  | exception (e : Thrown)
  | exit
  | crash
  | blocked
  deriving DecidableEq, Repr

abbrev VaM := EStateM Stop State

def lockMutex (t : Thread) : VaM Unit := do
  let s ← get
  if s.va.mutex = none then
    set { s with va := { s.va with mutex := some t } }
  else
    throw .blocked

def unlockMutex : VaM Unit :=
  modify fun s => { s with va := { s.va with mutex := none } }

def perform (e : Effect) : VaM Unit :=
  modify fun s => { s with effects := s.effects ++ [e] }

/-- What libavcodec, and the file the H.264 context is taken from, answer while one
message is handled. -/
structure LibavOutcome where
  /-- `avcodec_find_decoder` -/
  found : Bool
  /-- The picture size in the file's video stream, or nothing when `h264init` exits. -/
  stream : Option (Int32 × Int32)
  /-- `avcodec_alloc_context` -/
  allocated : Bool
  /-- `avcodec_open` -/
  opened : Bool
  /-- `avcodec_decode_video2`: its result, `got`, and the size it leaves in the context. -/
  len : Int32
  got : Bool
  width : Int32
  height : Int32
  deriving DecidableEq, Repr

def LibavOutcome.picture (lib : LibavOutcome) : Bool := !decide (lib.len < 0) && lib.got

def codecOf (i : Int32) : Option CodecID :=
  if i = 5 then some .h264
  else if i = 8 then some .mpeg4
  else if i = 7 then some .mpeg2video
  else none

def newContext (width height : Int32) : VaM Unit :=
  modify fun s => { s with
    va := { s.va with avctx := some ⟨s.contexts, width, height, false, false⟩ }
    contexts := s.contexts + 1 }

def avcodecOpen (opened : Bool) : VaM Unit := do
  let s ← get
  match s.va.avctx with
  | none => throw .crash
  | some c =>
    set { s with va := { s.va with avctx := some { c with opened := opened } } }
    if !opened then
      throw (.exception .codecID)

/-- The stream's own context for H.264 (`h264init`), an allocated one otherwise. -/
def obtainContext (cid : CodecID) (lib : LibavOutcome) : VaM Unit := do
  if cid = .h264 then
    match lib.stream with
    | none => throw .exit
    | some (width, height) => newContext width height
  else if lib.allocated then
    newContext 0 0

def codecInit (i : Int32) (lib : LibavOutcome) : VaM Unit := do
  match codecOf i with
  | none => throw (.exception .codecID)
  | some cid =>
    if !lib.found then
      throw (.exception .codecID)
    modify fun s => { s with va := { s.va with avctx := none } }
    obtainContext cid lib
    avcodecOpen lib.opened

def avcodecDecodeVideo (size : Int32) (lib : LibavOutcome) : VaM Unit := do
  let s ← get
  perform (.decodeVideo s.va.avctx 4 size)
  match s.va.avctx with
  | none => throw .crash
  | some c =>
    modify fun s => { s with va := { s.va with
      avctx := some { c with
        width := lib.width, height := lib.height, pictured := c.pictured || lib.picture }
      frame := if lib.got then some c.id else s.va.frame } }

variable (o : ByteOrder)

/-- The `int` at the start of the content, whatever the length of the message. -/
def leadingInt (m : Message) : Int32 := Scalar.int.decode o (m.content.load 0 4)

def handleCodecMessage (m : Message) (lib : LibavOutcome) : VaM Unit := do
  perform (.contentRead 0 4)
  lockMutex .decode
  -- an exception from here on leaves the mutex locked
  codecInit (leadingInt o m) lib
  unlockMutex

def handlePacketMessage (m : Message) (lib : LibavOutcome) : VaM Unit := do
  perform (.contentRead 0 4)
  lockMutex .decode
  avcodecDecodeVideo (leadingInt o m) lib
  if lib.len < 0 then
    unlockMutex
  else
    if lib.got then
      modify fun s => { s with va := { s.va with playing := true, needDraw := true } }
    unlockMutex

def handleDecodeMessage (m : Message) (lib : LibavOutcome) : VaM Unit := do
  if m.getHeader = 1 then
    handleCodecMessage o m lib
  else if m.getHeader = 4 then
    handlePacketMessage o m lib

def initialRect : Rect := ⟨0, 0, 1024, 768⟩

/-- The wire has the width before the top. -/
def readClientRect : ReaderM Rect := do
  let left ← MessageReader.readInt32 o
  let width ← MessageReader.readInt32 o
  let top ← MessageReader.readInt32 o
  let height ← MessageReader.readInt32 o
  return ⟨left, top, width, height⟩

def handleChangeMessage (m : Message) : VaM Unit := do
  if m.getHeader = 7 then
    match readClientRect o (MessageReader.new m) with
    | .error e _ => throw (.exception (.std e.what))
    | .ok rect _ =>
      lockMutex .change
      modify fun s => { s with va := { s.va with clientRect := rect } }
      unlockMutex

structure SdlOutcome where
  created : Bool
  success : Int32
  deriving DecidableEq, Repr

def freeOverlay : VaM Unit := do
  match (← get).overlay with
  | none => pure ()
  | some overlay =>
    perform (.freeOverlay overlay)
    modify fun s => { s with overlay := none }

def createOverlay (w h : Int32) (screen : Surface) (created : Bool) : VaM Unit := do
  let s ← get
  if created then
    let overlay : Overlay := ⟨s.overlays, w, h, screen.ptr⟩
    perform (.createOverlay overlay)
    modify fun s => { s with overlay := some overlay, overlays := s.overlays + 1 }

def overlayFits (overlay : Option Overlay) (lastScreen : Option ℕ) (v : Rect)
    (screen : Surface) : Bool :=
  match overlay with
  | none => false
  | some overlay => overlay.w = v.w && overlay.h = v.h && lastScreen = some screen.ptr

/-- "Create and adjust overlay"; tells whether there is one to draw into. -/
def adjustOverlay (avctx : AVCodecContext) (v : Rect) (screen : Surface) (created : Bool) :
    VaM Bool := do
  let s ← get
  if overlayFits s.overlay s.lastScreen v screen then
    return true
  freeOverlay
  if v.w < avctx.width / 20 ∨ v.h < avctx.height / 20 then
    return false
  createOverlay v.w v.h screen created
  if (← get).overlay = none then
    return false
  modify fun s => { s with lastScreen := some screen.ptr }
  return true

def convert (avctx : AVCodecContext) (v : Rect) : VaM Unit := do
  let s ← get
  perform (.convert s.overlay avctx s.va.frame v.w v.h)

/-- `va_do_drawing_locked` up to the point where it gives the mutex back. -/
def vaDoDrawingLocked (screen : Surface) (width height : Int32) (sdl : SdlOutcome) :
    VaM Unit := do
  lockMutex .draw
  let s ← get
  if s.va.playing then
    if s.va.needDraw then
      match s.va.avctx with
      | none => throw .crash
      | some avctx =>
        match calcScale avctx.width avctx.height s.va.clientRect screen width height with
        | none => throw .crash
        | some v =>
          if ← adjustOverlay avctx v screen sdl.created then
            convert avctx v
            -- the frame counts as drawn even if the scaling failed
            modify fun s => { s with va := { s.va with needDraw := false } }
            unlockMutex
            modify fun s => { s with draw := .display sdl.success v }
          else
            unlockMutex
    else
      unlockMutex
  else
    unlockMutex
    modify fun s => { s with draw := .dropOverlay }

def vaDoDrawingUnlocked : VaM Unit := do
  let s ← get
  match s.draw with
  | .idle => pure ()
  | .display success v =>
    if success > 0 then
      perform (.display s.overlay (Rect.toSDL v))
    modify fun s => { s with draw := .idle }
  | .dropOverlay =>
    freeOverlay
    modify fun s => { s with draw := .idle }

/-- One step of one thread.  A message event is a `readMessage` that returned and
the handling of the message; a failure is an exception from `acceptConnection` or
`readMessage`. -/
inductive Event where
  | decodeAccept
  | decodeMessage (m : Message) (lib : LibavOutcome)
  | decodeFailure (what : String)
  | changeStart
  | changeAccept
  | changeMessage (m : Message)
  | changeFailure (what : String)
  | draw (screen : Surface) (width height : Int32) (sdl : SdlOutcome)
  | drawFinish

namespace Event

def thread : Event → Thread
  | decodeAccept | decodeMessage .. | decodeFailure .. => .decode
  | changeStart | changeAccept | changeMessage .. | changeFailure .. => .change
  | draw .. | drawFinish => .draw

def Ready (s : State) : Event → Prop
  | decodeAccept => s.decode = .accepting
  | decodeMessage .. => s.decode = .reading
  | decodeFailure .. => s.decode = .accepting ∨ s.decode = .reading
  | changeStart => s.change = .starting
  | changeAccept => s.change = .accepting
  | changeMessage .. => s.change = .reading
  | changeFailure .. => s.change = .accepting ∨ s.change = .reading
  | draw .. => s.draw = .idle
  | drawFinish => s.draw ≠ .idle

instance (s : State) : DecidablePred (Ready s)
  | decodeAccept | decodeMessage .. | changeStart | changeAccept | changeMessage .. | draw .. =>
    inferInstanceAs (Decidable (_ = _))
  | decodeFailure .. | changeFailure .. => inferInstanceAs (Decidable (_ ∨ _))
  | drawFinish => inferInstanceAs (Decidable (¬ _))

def Enabled (s : State) (e : Event) : Prop := s.status = .running ∧ e.Ready s

instance (s : State) (e : Event) : Decidable (e.Enabled s) :=
  inferInstanceAs (Decidable (_ ∧ _))

end Event

def caught (t : Thread) (s : State) : State :=
  match t with
  -- the flag is cleared without the mutex
  | .decode => { s with decode := .accepting, va := { s.va with playing := false } }
  | .change => { s with change := .accepting }
  | .draw => s

def unwind (t : Thread) (s : State) : State :=
  match t with
  | .decode => { s with decode := .unwound, status := .terminated }
  | .change => { s with change := .unwound, status := .terminated }
  | .draw => { s with status := .terminated }

/-- What becomes of the process when a thread has run a program. -/
def conclude (t : Thread) (s : State) (program : VaM Unit) : State :=
  match program s with
  | .ok _ s' => s'
  | .error (.exception (.std _)) s' => caught t s'
  | .error (.exception .codecID) s' => unwind t s'
  | .error .exit s' => { s' with status := .exited }
  | .error .crash s' => { s' with status := .crashed }
  | .error .blocked _ => s

def exec (s : State) : Event → State
  | .decodeAccept => { s with decode := .reading }
  | .decodeMessage m lib => conclude .decode s (handleDecodeMessage o m lib)
  | .decodeFailure what => conclude .decode s (throw (.exception (.std what)))
  | .changeStart => { s with change := .accepting, va := { s.va with clientRect := initialRect } }
  | .changeAccept => { s with change := .reading }
  | .changeMessage m => conclude .change s (handleChangeMessage o m)
  | .changeFailure what => conclude .change s (throw (.exception (.std what)))
  | .draw screen width height sdl =>
    conclude .draw s (vaDoDrawingLocked screen width height sdl)
  | .drawFinish => conclude .draw s vaDoDrawingUnlocked

def quiet (s : State) : State := { s with effects := [] }

/-- Events that no thread is ready for leave everything as it is. -/
def step (s : State) (e : Event) : State :=
  if e.Enabled s then exec o (quiet s) e else quiet s

end VmPlayback.Playback
