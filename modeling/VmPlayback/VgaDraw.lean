import VmPlayback.Redraw
import VmPlayback.Transducer
import VmPlayback.VgaLines

namespace VmPlayback.Vga

open Transducer

def Raster := ℕ → ℕ → UInt32

namespace Raster

variable (px : Raster)

def put (x y : ℕ) (line : List UInt32) : Raster := fun v u =>
  if v = y ∧ x ≤ u then line.getD (u - x) (px v u) else px v u

def row (y n : ℕ) : List UInt32 := (List.range n).map (px y)

theorem row_congr {px px' : Raster} {y n : ℕ} (h : ∀ x < n, px y x = px' y x) :
    px.row y n = px'.row y n :=
  List.map_congr_left fun x hx => h x (List.mem_range.mp hx)

theorem row_getD (y : ℕ) (line : List UInt32) :
    (List.range line.length).map (fun x => line.getD x (px y x)) = line := by
  apply List.ext_getElem
  · simp
  · intro x hx hx'
    simp [List.getElem?_eq_getElem hx']

end Raster

structure Box where
  x : ℕ
  y : ℕ
  w : ℕ
  h : ℕ

def Box.Holds (b : Box) (v u : ℕ) : Prop := b.y ≤ v ∧ v < b.y + b.h ∧ b.x ≤ u ∧ u < b.x + b.w

instance (b : Box) (v u : ℕ) : Decidable (b.Holds v u) := inferInstanceAs (Decidable (_ ∧ _))

def dpyUpdate (px : Raster) (b : Box) (screen : Raster) : Raster := fun v u =>
  if b.Holds v u then px v u else screen v u

def dpyUpdates (px : Raster) (n : ℕ) (rects : List (ℕ × ℕ)) (screen : Raster) : Raster :=
  rects.foldl (fun screen r => dpyUpdate px ⟨0, r.1, n, r.2⟩ screen) screen

def VGADevice.size (d : VGADevice) : ℕ := d.regs.vramSize.toNat

/-- The surface is a buffer of its own or, in the modes of 16 and 32 bits, the video
memory itself from `data` on, with `bytes` of it to a pixel. -/
inductive Surface where
  | own (width height : ℕ) (pixels : Raster)
  | shared (data bytes width linesize : ℕ)

/-- What `dpy_update` finds in it. -/
def Surface.pixels (vram : Mem) : Surface → Raster
  | .own _ _ px => px
  | .shared data bytes _ linesize => fun y x =>
    if bytes = 2 then pixel16 vram (data + y * linesize + 2 * x)
    else pixel24 vram (data + y * linesize + 4 * x)

/-- What stops the device in the middle of something: a fault of an access, or a refresh
that leaves the video memory with its page marks, or its surface. -/
inductive Halt where
  | fault (f : Fault)
  | memory
  | surface
  deriving DecidableEq, Repr

/-- "display refresh support", and the screen behind `dpy_update`. -/
structure Refresh where
  fontOffset0 : UInt32
  fontOffset1 : UInt32
  graphicMode : Option VGACommonState.GraphicMode
  shiftControl : UInt8
  doubleScan : UInt8
  lineOffset : UInt32
  lineCompare : UInt32
  startAddr : UInt32
  lastLineOffset : UInt32
  lastCw : ℕ
  lastCh : ℕ
  lastWidth : UInt32
  lastHeight : UInt32
  lastScrWidth : UInt32
  lastScrHeight : UInt32
  lastDepth : UInt16
  cursorStart : UInt8
  cursorEnd : UInt8
  cursorOffset : UInt32
  lastPalette : ℕ → UInt32
  lastChAttr : ℕ → UInt32
  invalidated : ℕ → Bool
  surface : Surface
  screen : Raster

/-- After `vga_common_reset`; the console has made a surface of 640 by 480. -/
def Refresh.reset (pixels : Raster) : Refresh where
  fontOffset0 := 0
  fontOffset1 := 0
  graphicMode := none
  shiftControl := 0
  doubleScan := 0
  lineOffset := 0
  lineCompare := 0
  startAddr := 0
  lastLineOffset := 0
  lastCw := 0
  lastCh := 0
  lastWidth := 0
  lastHeight := 0
  lastScrWidth := 0
  lastScrHeight := 0
  lastDepth := 0
  cursorStart := 0
  cursorEnd := 0
  cursorOffset := 0
  lastPalette _ := 0
  lastChAttr _ := 0
  invalidated _ := false
  surface := .own 640 480 pixels
  screen := pixels

namespace VGAState

variable (s : VGAState)

def vgaGetOffsets : UInt32 × UInt32 × UInt32 :=
  if s.vbeRegs .enable &&& 1 ≠ 0 then
    (s.vbeLineOffset, s.vbeStartAddr, 65535)
  else
    ((s.cr 0x13).toUInt32 <<< 3,
      (s.cr 0x0d).toUInt32 ||| (s.cr 0x0c).toUInt32 <<< 8,
      (s.cr 0x18).toUInt32 ||| (s.cr 0x07 &&& 0x10).toUInt32 <<< 4 |||
        (s.cr 0x09 &&& 0x40).toUInt32 <<< 3)

def shiftControl : UInt8 := (s.gr 0x05 >>> 5) &&& 3

def doubleScan : UInt8 := s.cr 0x09 >>> 7

def multiScan : ℕ :=
  if s.shiftControl ≠ 1 then ((s.cr 0x09 &&& 0x1f).toNat + 1) <<< s.doubleScan.toNat - 1
  else s.doubleScan.toNat

def width : UInt32 := s.vgaGetResolution.1.toUInt32

def height : UInt32 := s.vgaGetResolution.2.toUInt32

def dispWidth : UInt32 :=
  if (s.shiftControl = 0 ∨ s.shiftControl = 1) ∧ s.sr 0x01 &&& 8 ≠ 0 then s.width <<< 1 else s.width

def kind : DrawLine :=
  if s.shiftControl = 0 then if s.sr 0x01 &&& 8 ≠ 0 then .line4d2 else .line4
  else if s.shiftControl = 1 then if s.sr 0x01 &&& 8 ≠ 0 then .line2d2 else .line2
  else if s.vgaGetBpp = 8 then .line8
  else if s.vgaGetBpp = 15 then .line15
  else if s.vgaGetBpp = 16 then .line16
  else if s.vgaGetBpp = 24 then .line24
  else if s.vgaGetBpp = 32 then .line32
  else .line8d2

def c6To8 (v : UInt8) : UInt32 :=
  let v := (v &&& 0x3f).toUInt32
  (v <<< 2) ||| (v &&& 1) <<< 1 ||| (v &&& 1)

def entry (conv : UInt8 → UInt32) (v : ℕ) : UInt32 :=
  rgbToPixel32 (conv (s.palette (3 * v))) (conv (s.palette (3 * v + 1)))
    (conv (s.palette (3 * v + 2)))

def palette16 (i : ℕ) : UInt32 :=
  let v := s.ar (UInt8.ofNat i)
  let v :=
    if s.ar 0x10 &&& 0x80 ≠ 0 then ((s.ar 0x14 &&& 0xf) <<< 4) ||| (v &&& 0xf)
    else ((s.ar 0x14 &&& 0xc) <<< 4) ||| (v &&& 0x3f)
  s.entry c6To8 v.toNat

def palette256 (i : ℕ) : UInt32 := s.entry (if s.dac8bit then UInt8.toUInt32 else c6To8) i

end VGAState

namespace Refresh

variable (s : VGAState) (r : Refresh)

def updateBasicParams : Bool × Refresh :=
  let (lineOffset, startAddr, lineCompare) := s.vgaGetOffsets
  if lineOffset ≠ r.lineOffset ∨ startAddr ≠ r.startAddr ∨ lineCompare ≠ r.lineCompare then
    (true, { r with lineOffset, startAddr, lineCompare })
  else (false, r)

def updateShift : Bool × Refresh :=
  if s.shiftControl ≠ r.shiftControl ∨ s.doubleScan ≠ r.doubleScan then
    (true, { r with shiftControl := s.shiftControl, doubleScan := s.doubleScan })
  else (false, r)

/-- `qemu_create_displaysurface_from` or `qemu_console_resize`.  16 bits are shown from
the video memory only where the host has the target's byte order. -/
def newSurface (o : ByteOrder) : Surface :=
  if s.vgaGetBpp = 32 ∨ (s.vgaGetBpp = 16 ∧ o = .little) then
    .shared (r.startAddr * 4).toNat (s.vgaGetBpp.toNat / 8) s.dispWidth.toNat r.lineOffset.toNat
  else .own s.dispWidth.toNat s.height.toNat fun _ _ => 0

def updateSurface (o : ByteOrder) (full : Bool) : Bool × Refresh :=
  if r.lineOffset ≠ r.lastLineOffset ∨ s.dispWidth ≠ r.lastWidth ∨ s.height ≠ r.lastHeight ∨
      r.lastDepth ≠ s.vgaGetBpp then
    (true, { r with
      surface := r.newSurface s o
      lastScrWidth := s.dispWidth
      lastScrHeight := s.height
      lastWidth := s.dispWidth
      lastHeight := s.height
      lastLineOffset := r.lineOffset
      lastDepth := s.vgaGetBpp })
  else
    match r.surface with
    | .shared old bytes width linesize =>
      let data := (r.startAddr * 4).toNat
      (false, if full ∨ old ≠ data then { r with surface := .shared data bytes width linesize }
        else r)
    | .own .. => (false, r)

def setPalette (n : ℕ) (palette : ℕ → UInt32) : Bool × Refresh :=
  ((List.range n).any fun i => decide (palette i ≠ r.lastPalette i),
    { r with lastPalette := fun i => if i < n then palette i else r.lastPalette i })

def updatePalette16 : Bool × Refresh := r.setPalette 16 s.palette16

def updatePalette256 : Bool × Refresh := r.setPalette 256 s.palette256

def updatePalette : Bool × Refresh :=
  match s.kind with
  | .line2 | .line2d2 | .line4 | .line4d2 => r.updatePalette16 s
  | .line8 | .line8d2 => r.updatePalette256 s
  | .line15 | .line16 | .line24 | .line32 => (false, r)

/-- Everything before the lines: whether all of them are to be drawn. -/
def prepare (o : ByteOrder) (full : Bool) : Bool × Refresh :=
  let (c₁, r) := r.updateBasicParams s
  let (c₂, r) := r.updateShift s
  let (c₃, r) := r.updateSurface s o (full || c₁ || c₂)
  let (c₄, r) := r.updatePalette s
  (full || c₁ || c₂ || c₃ || c₄, r)

end Refresh

structure Frame where
  kind : DrawLine
  colours : Colours
  width : ℕ
  dispWidth : ℕ
  height : ℕ
  multiScan : ℕ
  cr17 : UInt8
  startAddr : UInt32
  lineOffset : UInt32
  lineCompare : UInt32

def Refresh.frame (s : VGAState) (r : Refresh) : Frame where
  kind := s.kind
  colours := ⟨r.lastPalette, s.ar 0x12 &&& 0xf⟩
  width := s.width.toNat
  dispWidth := s.dispWidth.toNat
  height := s.height.toNat
  multiScan := s.multiScan
  cr17 := s.cr 0x17
  startAddr := r.startAddr
  lineOffset := r.lineOffset
  lineCompare := r.lineCompare

/-- Where the loop is in the memory: `addr1`, `y1` and `multi_run`. -/
structure Scan where
  addr1 : UInt32
  y1 : ℕ
  multiRun : ℕ

namespace Frame

variable (f : Frame)

def bwidth : ℕ := (f.width * f.kind.bits + 7) / 8

/-- The address of a line; the CGA modes put bits of the line number into it. -/
def lineAddr (c : Scan) : UInt32 :=
  let addr := c.addr1
  let addr :=
    if f.cr17 &&& 1 = 0 then
      let shift := (14 : UInt32) + ((f.cr17 >>> 6) &&& 1).toUInt32
      (addr &&& ~~~((1 : UInt32) <<< shift)) ||| UInt32.ofNat (c.y1 % 2) <<< shift
    else addr
  if f.cr17 &&& 2 = 0 then
    (addr &&& ~~~(0x8000 : UInt32)) ||| UInt32.ofNat (c.y1 / 2 % 2 * 2) <<< 14
  else addr

/-- On to the next line: every line is shown `multi_scan` times more, and the line
compare starts again at the beginning of the memory. -/
def next (y : ℕ) (c : Scan) : Scan :=
  let c :=
    if c.multiRun = 0 then
      let mask := ((f.cr17 &&& 3) ^^^ 3).toNat
      { addr1 := if c.y1 &&& mask = mask then c.addr1 + f.lineOffset else c.addr1
        y1 := c.y1 + 1
        multiRun := f.multiScan }
    else { c with multiRun := c.multiRun - 1 }
  if y = f.lineCompare.toNat then { c with addr1 := 0 } else c

def scan (f : Frame) : ℕ → Scan
  | 0 => ⟨f.startAddr * 4, 0, f.multiScan⟩
  | y + 1 => f.next y (scan f y)

def addr (y : ℕ) : UInt32 := f.lineAddr (f.scan y)

def page0 (a : UInt32) : ℕ := a.toNat / pageSize

def page1 (a : UInt32) : ℕ := (a + UInt32.ofNat f.bwidth - 1).toNat / pageSize

/-- "if wide line, can use another page" -/
def Wide (a : UInt32) : Prop := f.page1 a < page0 a ∨ page0 a + 1 < f.page1 a

instance (a : UInt32) : Decidable (f.Wide a) := inferInstanceAs (Decidable (_ ∨ _))

def update (full : Bool) (dirty : ℕ → Bool) (invalidated : ℕ → Bool) (y : ℕ) (a : UInt32) : Bool :=
  full || dirty (page0 a) || dirty (f.page1 a) || (decide (f.Wide a) && dirty (page0 a + 1)) ||
    invalidated y

structure Loop where
  scan : Scan
  yStart : Option ℕ
  pageMin : Option ℕ
  pageMax : ℕ
  surface : Surface
  updates : List (ℕ × ℕ)

variable (o : ByteOrder) (full : Bool) (dirty invalidated : ℕ → Bool) (vram : Mem) (size : ℕ)

/-- The marks that are looked at are those of pages of the memory.  Marks behind them are
set, and `cpu_physical_memory_reset_dirty` aborts there. -/
def OnPages (a : UInt32) : Prop :=
  page0 a < size / pageSize ∧ f.page1 a < size / pageSize ∧
    (f.Wide a → page0 a + 1 < size / pageSize)

instance (a : UInt32) : Decidable (f.OnPages size a) := inferInstanceAs (Decidable (_ ∧ _ ∧ _))

def drawFault (y : ℕ) (a : UInt32) : Surface → Option Halt
  | .own w h _ =>
    if size < a.toNat + f.kind.bytes f.width then some .memory
    else if h ≤ y ∨ w < f.kind.columns f.width then some .surface
    else none
  | .shared data bytes w linesize =>
    -- not drawn, but `dpy_update` reads it
    if size < data + y * linesize + w * bytes then some .memory else none

def fault (y : ℕ) (a : UInt32) (surface : Surface) : Option Halt :=
  if ¬ f.OnPages size a then some .memory
  else if f.update full dirty invalidated y a then f.drawFault size y a surface
  else none

def drawInto (y : ℕ) (a : UInt32) : Surface → Surface
  | .own w h px => .own w h (px.put 0 y (drawLine o f.colours vram f.kind a.toNat f.width))
  | surface => surface

def line (l : Loop) (y : ℕ) : Loop :=
  let a := f.lineAddr l.scan
  let l :=
    if f.update full dirty invalidated y a then
      { l with
        yStart := some (l.yStart.getD y)
        pageMin := some (min (l.pageMin.getD (page0 a)) (page0 a))
        pageMax := max l.pageMax (f.page1 a)
        surface := f.drawInto o vram y a l.surface }
    else
      match l.yStart with
      | some y₀ => { l with yStart := none, updates := l.updates ++ [(y₀, y - y₀)] }
      | none => l
  { l with scan := f.next y l.scan }

def start (surface : Surface) : Loop :=
  { scan := f.scan 0, yStart := none, pageMin := none, pageMax := 0, surface, updates := [] }

def drawLines (surface : Surface) : Except Halt Loop :=
  checked (fun l y => f.fault full dirty invalidated size y (f.lineAddr l.scan) l.surface)
    (f.line o full dirty invalidated vram) (f.start surface) (List.range f.height)

/-- The calls of `dpy_update`, the last one after the loop. -/
def rectangles (l : Loop) : List (ℕ × ℕ) :=
  match l.yStart with
  | some y₀ => l.updates ++ [(y₀, f.height - y₀)]
  | none => l.updates

def flush (px : Raster) (l : Loop) (screen : Raster) : Raster :=
  dpyUpdates px f.dispWidth (f.rectangles l) screen

def resetDirty (l : Loop) (p : ℕ) : Bool :=
  match l.pageMin with
  | some pageMin => if pageMin ≤ p ∧ p ≤ l.pageMax then false else dirty p
  | none => dirty p

end Frame

section

variable (o : ByteOrder) (full : Bool) (d : VGADevice) (r : Refresh)

def Refresh.flushed (f : Frame) (l : Frame.Loop) (vram : Mem) : Refresh :=
  { r with
    surface := l.surface
    invalidated := fun y => if y < (f.height + 31) / 32 * 32 then false else r.invalidated y
    screen := f.flush (l.surface.pixels vram) l r.screen }

/-- The loop over the lines and what is after it, with the prepared display. -/
def drawFrame : Except Halt (VGADevice × Refresh) := do
  let f := r.frame d.regs
  let l ← f.drawLines o full d.dirty r.invalidated d.vram d.size r.surface
  return ({ d with dirty := Frame.resetDirty d.dirty l }, r.flushed f l d.vram)

/-- The registers that are compared say whether to draw everything; otherwise the lines
with a page that was written are drawn. -/
def vgaDrawGraphic : Except Halt (VGADevice × Refresh) :=
  drawFrame o (r.prepare d.regs o full).1 d (r.prepare d.regs o full).2

def blankRows (data linesize w n : ℕ) (vram : Mem) : Mem :=
  (List.range n).foldl (fun m i => m.store (data + i * linesize) (List.replicate w 0)) vram

/-- Where the surface is the video memory, that is what is blanked. -/
def vgaDrawBlank : Except Halt (VGADevice × Refresh) :=
  if !full || r.lastScrWidth = 0 || r.lastScrHeight = 0 then .ok (d, r)
  else
    let w := r.lastScrWidth.toNat
    let h := r.lastScrHeight.toNat
    match r.surface with
    | .own width height px =>
      if w ≤ width ∧ h ≤ height then
        let px : Raster := fun y x => if y < h ∧ x < w then 0 else px y x
        .ok (d, { r with
          surface := .own width height px
          screen := dpyUpdate px ⟨0, 0, w, h⟩ r.screen })
      else .error .surface
    | .shared data bytes _ linesize =>
      if data + (h - 1) * linesize + w * bytes ≤ d.size then
        let vram := blankRows data linesize (w * bytes) h d.vram
        .ok ({ d with vram }, { r with
          screen := dpyUpdate (r.surface.pixels vram) ⟨0, 0, w, h⟩ r.screen })
      else .error .memory

end

/-- Two surfaces that differ in the pixels of a buffer at most. -/
def Surface.Alike (surface surface' : Surface) : Prop :=
  surface' = surface ∨
    ∃ w h px px', surface = .own w h px ∧ surface' = .own w h px'

namespace Frame

variable (f : Frame) (o : ByteOrder) (full : Bool) (dirty invalidated : ℕ → Bool) (vram : Mem)

def drawn (y : ℕ) : Bool := f.update full dirty invalidated y (f.addr y)

/-- The loop after `n` lines, with none of them at fault. -/
def loop (surface : Surface) (n : ℕ) : Loop :=
  (List.range n).foldl (f.line o full dirty invalidated vram) (f.start surface)

variable {f o full dirty invalidated vram} {size : ℕ}

theorem loop_succ (surface : Surface) (n : ℕ) :
    f.loop o full dirty invalidated vram surface (n + 1) =
      f.line o full dirty invalidated vram (f.loop o full dirty invalidated vram surface n) n := by
  simp [loop, List.range_succ]

theorem line_scan (l : Loop) (y : ℕ) :
    (f.line o full dirty invalidated vram l y).scan = f.next y l.scan := by
  unfold line
  dsimp only
  split
  · rfl
  · cases l.yStart with
    | none => rfl
    | some y₀ => rfl

theorem loop_scan (surface : Surface) (n : ℕ) :
    (f.loop o full dirty invalidated vram surface n).scan = f.scan n := by
  induction n with
  | zero => rfl
  | succ n ih => rw [loop_succ, line_scan, ih, scan]

theorem line_of_drawn {l : Loop} {y : ℕ} (hscan : l.scan = f.scan y)
    (h : f.drawn full dirty invalidated y = true) :
    f.line o full dirty invalidated vram l y =
      { scan := f.next y l.scan
        yStart := some (l.yStart.getD y)
        pageMin := some (min (l.pageMin.getD (page0 (f.addr y))) (page0 (f.addr y)))
        pageMax := max l.pageMax (f.page1 (f.addr y))
        surface := f.drawInto o vram y (f.addr y) l.surface
        updates := l.updates } := by
  have ha : f.lineAddr l.scan = f.addr y := by rw [hscan, addr]
  have hu : f.update full dirty invalidated y (f.addr y) = true := h
  simp only [line, ha, hu, if_true]

theorem line_of_kept {l : Loop} {y : ℕ} (hscan : l.scan = f.scan y)
    (h : f.drawn full dirty invalidated y = false) :
    f.line o full dirty invalidated vram l y =
      { l with
        scan := f.next y l.scan
        yStart := none
        updates := l.updates ++ (l.yStart.map fun y₀ => (y₀, y - y₀)).toList } := by
  have ha : f.lineAddr l.scan = f.addr y := by rw [hscan, addr]
  have hu : f.update full dirty invalidated y (f.addr y) = false := h
  simp only [line, ha, hu, Bool.false_eq_true, if_false]
  cases hy : l.yStart with
  | none => simp [hy]
  | some y₀ => rfl

/-- A property of the loop's variables that drawing a line and passing one over keep. -/
theorem loop_induction {J : ℕ → Loop → Prop} {surface : Surface}
    (h0 : J 0 (f.start surface))
    (hdrawn : ∀ n l, J n l → f.drawn full dirty invalidated n = true →
      J (n + 1) { scan := f.next n l.scan
                  yStart := some (l.yStart.getD n)
                  pageMin := some (min (l.pageMin.getD (page0 (f.addr n))) (page0 (f.addr n)))
                  pageMax := max l.pageMax (f.page1 (f.addr n))
                  surface := f.drawInto o vram n (f.addr n) l.surface
                  updates := l.updates })
    (hkept : ∀ n l, J n l → f.drawn full dirty invalidated n = false →
      J (n + 1) { l with
                  scan := f.next n l.scan
                  yStart := none
                  updates := l.updates ++ (l.yStart.map fun y₀ => (y₀, n - y₀)).toList })
    (n : ℕ) : J n (f.loop o full dirty invalidated vram surface n) := by
  induction n with
  | zero => exact h0
  | succ n ih =>
    have hscan : (f.loop o full dirty invalidated vram surface n).scan = f.scan n :=
      loop_scan surface n
    rw [loop_succ]
    cases hd : f.drawn full dirty invalidated n with
    | true =>
      rw [line_of_drawn hscan hd]
      exact hdrawn n _ ih hd
    | false =>
      rw [line_of_kept hscan hd]
      exact hkept n _ ih hd

/-- The rows of a surface of its own: drawn, or as they were. -/
theorem loop_own (w h : ℕ) (px : Raster) (n : ℕ) :
    (f.loop o full dirty invalidated vram (.own w h px) n).surface = .own w h fun y x =>
      if y < n ∧ f.drawn full dirty invalidated y = true then
        (drawLine o f.colours vram f.kind (f.addr y).toNat f.width).getD x (px y x)
      else px y x := by
  refine loop_induction (J := fun n l => l.surface = .own w h fun y x =>
    if y < n ∧ f.drawn full dirty invalidated y = true then
      (drawLine o f.colours vram f.kind (f.addr y).toNat f.width).getD x (px y x)
    else px y x) ?_ ?_ ?_ n
  · simp [start]
  · intro n l ih hd
    simp only [ih, drawInto]
    congr 1
    funext y x
    by_cases hy : y = n
    · subst hy
      simp [Raster.put, hd]
    · have hlt : y < n + 1 ↔ y < n := by omega
      simp only [Raster.put, hy, false_and, if_false, hlt]
  · intro n l ih hd
    rw [ih]
    congr 1
    funext y x
    by_cases hy : y = n
    · subst hy
      simp [hd]
    · have hlt : y < n + 1 ↔ y < n := by omega
      simp only [hlt]

theorem loop_shared (data bytes width linesize n : ℕ) :
    (f.loop o full dirty invalidated vram (.shared data bytes width linesize) n).surface =
      .shared data bytes width linesize := by
  refine loop_induction (J := fun _ l => l.surface = .shared data bytes width linesize) rfl ?_ ?_ n
  · intro n l ih _
    simp only [ih, drawInto]
  · intro n l ih _
    exact ih

theorem loop_alike (surface : Surface) (n : ℕ) :
    surface.Alike (f.loop o full dirty invalidated vram surface n).surface := by
  cases surface with
  | own w h px => exact .inr ⟨w, h, px, _, rfl, loop_own w h px n⟩
  | shared data bytes width linesize => exact .inl (loop_shared data bytes width linesize n)

theorem drawFault_alike {surface surface' : Surface} (h : surface.Alike surface') (y : ℕ)
    (a : UInt32) : f.drawFault size y a surface' = f.drawFault size y a surface := by
  rcases h with rfl | ⟨w, h, px, px', rfl, rfl⟩
  · rfl
  · rfl

theorem fault_eq_none_iff {y : ℕ} {a : UInt32} {surface : Surface} :
    f.fault full dirty invalidated size y a surface = none ↔ f.OnPages size a ∧
      (f.update full dirty invalidated y a = true → f.drawFault size y a surface = none) := by
  unfold fault
  by_cases hpages : f.OnPages size a
  · by_cases hupdate : f.update full dirty invalidated y a = true
    · simp [hpages, hupdate]
    · simp [hpages, hupdate]
  · simp [hpages]

theorem fault_loop (surface : Surface) (y : ℕ) :
    let l := f.loop o full dirty invalidated vram surface y
    f.fault full dirty invalidated size y (f.lineAddr l.scan) l.surface =
      f.fault full dirty invalidated size y (f.addr y) surface := by
  intro l
  have hscan : l.scan = f.scan y := loop_scan surface y
  have halike : surface.Alike l.surface := loop_alike surface y
  rw [hscan, ← addr, fault, fault, drawFault_alike halike]

/-- The loop ends if no line of the frame is at fault. -/
theorem drawLines_eq_ok_iff {surface : Surface} {l : Loop} :
    f.drawLines o full dirty invalidated vram size surface = .ok l ↔
      (∀ y < f.height, f.fault full dirty invalidated size y (f.addr y) surface = none) ∧
        f.loop o full dirty invalidated vram surface f.height = l := by
  rw [drawLines, checked_eq_ok_iff, along_range]
  exact and_congr (forall₂_congr fun y _ => by rw [← fault_loop]; rfl) Iff.rfl

theorem drawLines_eq_error_iff {surface : Surface} :
    (∃ h, f.drawLines o full dirty invalidated vram size surface = .error h) ↔
      ∃ y < f.height, f.fault full dirty invalidated size y (f.addr y) surface ≠ none := by
  rw [drawLines, checked_eq_error_iff, along_range]
  push Not
  exact exists_congr fun y => and_congr Iff.rfl (by rw [← fault_loop]; rfl)

theorem loop_tiled (surface : Surface) (n : ℕ) :
    Redraw.Tiled (f.drawn full dirty invalidated) n
      (f.loop o full dirty invalidated vram surface n).yStart
      (f.loop o full dirty invalidated vram surface n).updates := by
  refine loop_induction
    (J := fun n l => Redraw.Tiled (f.drawn full dirty invalidated) n l.yStart l.updates) ?_ ?_ ?_ n
  · exact Redraw.tiled_zero
  · intro n l ih hd
    exact ih.mark hd
  · intro n l ih hd
    exact ih.skip hd

/-- The rectangles taken to the screen are the runs of lines drawn. -/
theorem rectangles_maximal (surface : Surface) :
    Redraw.Maximal (f.drawn full dirty invalidated) f.height
      (f.rectangles (f.loop o full dirty invalidated vram surface f.height)) := by
  have htiled : Redraw.Tiled (f.drawn full dirty invalidated) f.height
      (f.loop o full dirty invalidated vram surface f.height).yStart
      (f.loop o full dirty invalidated vram surface f.height).updates :=
    loop_tiled surface f.height
  have h := htiled.close
  unfold rectangles
  cases hy : (f.loop o full dirty invalidated vram surface f.height).yStart with
  | none => simpa [hy] using h
  | some y₀ => simpa [hy] using h

end Frame

end VmPlayback.Vga
