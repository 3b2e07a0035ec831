import VmPlayback.VgaDraw

namespace VmPlayback.Vga

open Transducer

def chAttrSize : ℕ := 160 * 100

def expand4to8 (i : UInt8) : UInt8 :=
  (List.range 4).foldl
    (fun (v : UInt8) j =>
      let b := (i >>> UInt8.ofNat j) &&& 1
      v ||| b <<< UInt8.ofNat (2 * j) ||| b <<< UInt8.ofNat (2 * j + 1)) 0

/-- One byte of a glyph.  A set bit takes the background to the foreground by `xorcol`. -/
def glyphLine (fontData : UInt8) (xorcol bgcol : UInt32) : List UInt32 :=
  ([7, 6, 5, 4, 3, 2, 1, 0] : List UInt32).map fun k =>
    (-((fontData.toUInt32 >>> k) &&& 1) &&& xorcol) ^^^ bgcol

/-- A row of a glyph, by the three functions of `vga_template.h` for the three widths. -/
def glyphRow (cw : ℕ) (dup9 : Bool) (fontData : UInt8) (fgcol bgcol : UInt32) : List UInt32 :=
  let xorcol := bgcol ^^^ fgcol
  if cw = 16 then
    glyphLine (expand4to8 (fontData >>> 4)) xorcol bgcol ++
      glyphLine (expand4to8 (fontData &&& 0x0f)) xorcol bgcol
  else
    let line := glyphLine fontData xorcol bgcol
    if cw = 9 then line ++ [if dup9 then line.getD 7 bgcol else bgcol] else line

def drawGlyph (cw : ℕ) (dup9 : Bool) (font : ℕ → UInt8) (h : ℕ) (fgcol bgcol : UInt32) (x y : ℕ)
    (px : Raster) : Raster :=
  (List.range h).foldl
    (fun px i => px.put x (y + i) (glyphRow cw dup9 (font i) fgcol bgcol)) px

structure TextResolution where
  width : ℕ
  height : ℕ
  cw : ℕ
  cheight : ℕ

namespace VGAState

variable (s : VGAState)

def vgaGetTextResolution : TextResolution :=
  let cheight := (s.cr 0x09 &&& 0x1f).toNat + 1
  let cw := if s.sr 0x01 &&& 0x08 ≠ 0 then 16 else if s.sr 0x01 &&& 0x01 = 0 then 9 else 8
  let height :=
    -- "ugly hack for CGA 160x100x16 - explain me the logic"
    if s.cr 0x06 = 100 then 100
    else
      let height := (s.cr 0x12).toNat ||| (s.cr 0x07 &&& 0x02).toNat <<< 7 |||
        (s.cr 0x07 &&& 0x40).toNat <<< 3
      (height + 1) / cheight
  { width := (s.cr 0x01).toNat + 1, height, cw, cheight }

/-- "font data address (in plane 2)" -/
def fontOffset0 : UInt32 :=
  let v := (s.sr 0x03).toUInt32
  (((v >>> 4) &&& 1 : UInt32) ||| ((v <<< 1) &&& 6 : UInt32)) * 8192 * 4 + 2

def fontOffset1 : UInt32 :=
  let v := (s.sr 0x03).toUInt32
  (((v >>> 5) &&& 1 : UInt32) ||| ((v >>> 1) &&& 6 : UInt32)) * 8192 * 4 + 2

def cursorLocation : UInt32 := (s.cr 0x0e).toUInt32 <<< 8 ||| (s.cr 0x0f).toUInt32

end VGAState

/-- "if the plane 2 was modified since the last display, it indicates the font may have
been modified" -/
def VGADevice.fontModified (d : VGADevice) : Bool := d.planeUpdated &&& 4 ≠ 0

def VGADevice.takeFont (d : VGADevice) : VGADevice :=
  { d with planeUpdated := if d.fontModified then 0 else d.planeUpdated }

namespace Refresh

variable (s : VGAState) (r : Refresh)

def updateFonts : Bool × Refresh :=
  (decide (s.fontOffset0 ≠ r.fontOffset0 ∨ s.fontOffset1 ≠ r.fontOffset1),
    { r with fontOffset0 := s.fontOffset0, fontOffset1 := s.fontOffset1 })

/-- The size in characters is compared with a size that a graphics mode has left in
pixels, and the two may agree. -/
def resizeText (t : TextResolution) : Bool × Refresh :=
  if UInt32.ofNat t.width ≠ r.lastWidth ∨ UInt32.ofNat t.height ≠ r.lastHeight ∨
      t.cw ≠ r.lastCw ∨ t.cheight ≠ r.lastCh ∨ r.lastDepth ≠ 0 then
    (true, { r with
      surface := .own (t.width * t.cw) (t.height * t.cheight) fun _ _ => 0
      lastScrWidth := UInt32.ofNat (t.width * t.cw)
      lastScrHeight := UInt32.ofNat (t.height * t.cheight)
      lastDepth := 0
      lastWidth := UInt32.ofNat t.width
      lastHeight := UInt32.ofNat t.height
      lastCh := t.cheight
      lastCw := t.cw })
  else (false, r)

def cursorMoved : Prop :=
  s.cursorLocation - r.startAddr ≠ r.cursorOffset ∨ s.cr 0x0a ≠ r.cursorStart ∨
    s.cr 0x0b ≠ r.cursorEnd

instance : Decidable (r.cursorMoved s) := inferInstanceAs (Decidable (_ ∨ _ ∨ _))

/-- "if the cursor position changed, we update the old and new chars" -/
def moveCursor : Refresh :=
  let cursorOffset := s.cursorLocation - r.startAddr
  { r with
    lastChAttr := fun i =>
      if r.cursorMoved s ∧ i < chAttrSize ∧
          (i = r.cursorOffset.toNat ∨ i = cursorOffset.toNat) then 0xffffffff
      else r.lastChAttr i
    cursorOffset := cursorOffset
    cursorStart := s.cr 0x0a
    cursorEnd := s.cr 0x0b }

/-- "exit if transient size is too big" -/
def tooBig : Prop := chAttrSize < s.vgaGetTextResolution.height * s.vgaGetTextResolution.width

instance : Decidable (tooBig s) := inferInstanceAs (Decidable (_ < _))

/-- What is set before the size is looked at. -/
def locateText : Bool × Refresh :=
  let (c₁, r) := r.updateFonts s
  let (c₂, r) := r.updateBasicParams s
  (c₁ || c₂, r)

/-- Everything between that and the characters: whether all of them are to be drawn. -/
def prepareText (full : Bool) : Bool × Refresh :=
  let (c₃, r) := r.resizeText s.vgaGetTextResolution
  let (c₄, r) := r.updatePalette16 s
  (full || c₃ || c₄, r.moveCursor s)

end Refresh

structure TextFrame where
  size : TextResolution
  font0 : ℕ
  font1 : ℕ
  palette : ℕ → UInt32
  ar10 : UInt8
  cr0a : UInt8
  cr0b : UInt8
  cursor : UInt32
  startAddr : UInt32
  lineOffset : UInt32
  lineCompare : UInt32

def Refresh.textFrame (s : VGAState) (r : Refresh) : TextFrame where
  size := s.vgaGetTextResolution
  font0 := r.fontOffset0.toNat
  font1 := r.fontOffset1.toNat
  palette := r.lastPalette
  ar10 := s.ar 0x10
  cr0a := s.cr 0x0a
  cr0b := s.cr 0x0b
  cursor := (r.startAddr + r.cursorOffset) * 4
  startAddr := r.startAddr
  lineOffset := r.lineOffset
  lineCompare := r.lineCompare

namespace TextFrame

variable (f : TextFrame) (o : ByteOrder) (full : Bool) (vram : Mem) (size w h : ℕ)

/-- The variables of the two loops.  The place in `last_ch_attr` counts the characters,
so that row and column are its quotient and remainder. -/
structure Loop where
  offset : UInt32
  span : Option (ℕ × ℕ)
  pixels : Raster
  chAttr : ℕ → UInt32
  screen : Raster

def cellAddr (l : Loop) (i : ℕ) : ℕ := l.offset.toNat + 4 * (i % f.size.width)

def chAttr (a : ℕ) : UInt32 :=
  match o with
  | .little => (vram a).toUInt32 ||| (vram (a + 1)).toUInt32 <<< 8
  | .big => (vram a).toUInt32 <<< 8 ||| (vram (a + 1)).toUInt32

def update (l : Loop) (i : ℕ) : Bool := full || decide (chAttr o vram (f.cellAddr l i) ≠ l.chAttr i)

def fontPtr (ch cattr : UInt8) : ℕ :=
  (if cattr &&& 8 = 0 then f.font0 else f.font1) + 32 * 4 * ch.toNat

def cursorRows : Option (ℕ × ℕ) :=
  let lineStart := (f.cr0a &&& 0x1f).toNat
  let lineLast := min (f.cr0b &&& 0x1f).toNat (f.size.cheight - 1)
  if f.cr0a &&& 0x20 = 0 ∧ lineStart ≤ lineLast ∧ lineStart < f.size.cheight then
    some (lineStart, lineLast - lineStart + 1)
  else none

def drawCell (a x y : ℕ) (px : Raster) : Raster :=
  let ch := vram a
  let cattr := vram (a + 1)
  let bgcol := f.palette (cattr >>> 4).toNat
  let fgcol := f.palette (cattr &&& 0x0f).toNat
  -- the ninth column of the line drawing characters repeats the eighth
  let dup9 := decide (0xb0 ≤ ch ∧ ch ≤ 0xdf ∧ f.ar10 &&& 0x04 ≠ 0)
  let font i := vram (f.fontPtr ch cattr + 4 * i)
  let px := drawGlyph f.size.cw dup9 font f.size.cheight fgcol bgcol x y px
  match f.cursorRows with
  | some (lineStart, n) =>
    if a = f.cursor.toNat then
      drawGlyph f.size.cw true (fun _ => 0xff) n fgcol bgcol x (y + lineStart) px
    else px
  | none => px

/-- All characters are read, and those drawn must have a glyph and a place in the surface. -/
def fault (i a : ℕ) (update : Bool) : Option Halt :=
  if size < a + 2 then some .memory
  else if update then
    if size ≤ f.fontPtr (vram a) (vram (a + 1)) + 4 * (f.size.cheight - 1) then some .memory
    else if w < (i % f.size.width + 1) * f.size.cw ∨
        h < (i / f.size.width + 1) * f.size.cheight then some .surface
    else none
  else none

def nextRow (cy : ℕ) (offset : UInt32) : UInt32 :=
  if cy * f.size.cheight < f.lineCompare.toNat ∧
      f.lineCompare.toNat ≤ (cy + 1) * f.size.cheight then 0
  else offset + f.lineOffset

def endRow (cy : ℕ) (l : Loop) : Loop :=
  { l with
    offset := f.nextRow cy l.offset
    span := none
    screen :=
      match l.span with
      | some (cxMin, cxMax) =>
        dpyUpdate l.pixels ⟨cxMin * f.size.cw, cy * f.size.cheight, (cxMax - cxMin + 1) * f.size.cw,
          f.size.cheight⟩ l.screen
      | none => l.screen }

def character (l : Loop) (i : ℕ) : Loop :=
  let cx := i % f.size.width
  let cy := i / f.size.width
  let a := f.cellAddr l i
  if f.update o full vram l i then
    { l with
      span := some (min ((l.span.map Prod.fst).getD cx) cx, max ((l.span.map Prod.snd).getD cx) cx)
      pixels := f.drawCell vram a (cx * f.size.cw) (cy * f.size.cheight) l.pixels
      chAttr := fun j => if j = i then chAttr o vram a else l.chAttr j }
  else l

def cell (l : Loop) (i : ℕ) : Loop :=
  let l := f.character o full vram l i
  if i % f.size.width + 1 = f.size.width then f.endRow (i / f.size.width) l else l

def start (px : Raster) (chAttr : ℕ → UInt32) (screen : Raster) : Loop :=
  ⟨f.startAddr * 4, none, px, chAttr, screen⟩

def drawCells (l : Loop) : Except Halt Loop :=
  checked (fun l i => f.fault vram size w h i (f.cellAddr l i) (f.update o full vram l i))
    (f.cell o full vram) l (List.range (f.size.width * f.size.height))

end TextFrame

section

variable (o : ByteOrder) (full : Bool) (d : VGADevice) (r : Refresh)

def drawPage : Except Halt (VGADevice × Refresh) :=
  match r.surface with
  | .own w h px => do
    let f := r.textFrame d.regs
    let l ← f.drawCells o full d.vram d.size w h (f.start px r.lastChAttr r.screen)
    return (d, { r with surface := .own w h l.pixels, lastChAttr := l.chAttr, screen := l.screen })
  -- a surface that is the video memory comes with a depth, and has just been replaced
  | .shared .. => .error .surface

def vgaDrawText : Except Halt (VGADevice × Refresh) :=
  let (c, r) := r.locateText d.regs
  if Refresh.tooBig d.regs then .ok (d.takeFont, r)
  else
    let q := r.prepareText d.regs (full || d.fontModified || c)
    drawPage o q.1 d.takeFont q.2

end

namespace TextFrame

variable (f : TextFrame) (o : ByteOrder) (full : Bool) (vram : Mem) (attrs : ℕ → UInt32)

def rowOffset (f : TextFrame) : ℕ → UInt32
  | 0 => f.startAddr * 4
  | cy + 1 => f.nextRow cy (rowOffset f cy)

def addr (i : ℕ) : ℕ := (f.rowOffset (i / f.size.width)).toNat + 4 * (i % f.size.width)

def drawn (i : ℕ) : Bool := full || decide (chAttr o vram (f.addr i) ≠ attrs i)

variable {f o full vram attrs} {size w h : ℕ}

/-- Before character `i`: the row's address, and nothing known of the characters to come. -/
structure At (f : TextFrame) (attrs : ℕ → UInt32) (i : ℕ) (l : Loop) : Prop where
  offset : l.offset = f.rowOffset (i / f.size.width)
  attrs : ∀ j, i ≤ j → l.chAttr j = attrs j

theorem character_offset (l : Loop) (i : ℕ) :
    (f.character o full vram l i).offset = l.offset := by
  unfold character
  split <;> rfl

theorem character_chAttr (l : Loop) {i j : ℕ} (h : i < j) :
    (f.character o full vram l i).chAttr j = l.chAttr j := by
  unfold character
  split
  · exact if_neg (by omega)
  · rfl

theorem At.cell {i : ℕ} {l : Loop} (hl : f.At attrs i l) (hwidth : 0 < f.size.width) :
    f.At attrs (i + 1) (f.cell o full vram l i) := by
  have hattrs : ∀ j, i + 1 ≤ j → (f.character o full vram l i).chAttr j = attrs j := fun j hj =>
    (character_chAttr l hj).trans (hl.attrs j (by omega))
  have hoffset : (f.character o full vram l i).offset = l.offset := character_offset l i
  have hmod := Nat.mod_lt i hwidth
  have hdiv := Nat.div_add_mod' i f.size.width
  rw [TextFrame.cell]
  split
  · next hlast =>
    have hnext : (i + 1) / f.size.width = i / f.size.width + 1 :=
      Nat.div_eq_of_lt_le (by rw [Nat.succ_mul]; omega) (by simp only [Nat.succ_mul]; omega)
    refine ⟨?_, hattrs⟩
    rw [hnext, rowOffset, ← hl.offset, ← hoffset]
    rfl
  · next hlast =>
    have hsame : (i + 1) / f.size.width = i / f.size.width :=
      Nat.div_eq_of_lt_le (by omega) (by rw [Nat.succ_mul]; omega)
    exact ⟨by rw [hoffset, hl.offset, hsame], hattrs⟩

theorem at_loop (hwidth : 0 < f.size.width) (px screen : Raster) (i : ℕ) :
    f.At attrs i ((List.range i).foldl (f.cell o full vram) (f.start px attrs screen)) := by
  induction i with
  | zero => exact ⟨by simp [start, rowOffset], fun _ _ => rfl⟩
  | succ i ih =>
    rw [List.range_succ, List.foldl_append]
    exact ih.cell hwidth

/-- The loops run into something if a character of the page does. -/
theorem drawCells_eq_error_iff (hwidth : 0 < f.size.width) (px screen : Raster) :
    (∃ e, f.drawCells o full vram size w h (f.start px attrs screen) = .error e) ↔
      ∃ i < f.size.width * f.size.height,
        f.fault vram size w h i (f.addr i) (f.drawn o full vram attrs i) ≠ none := by
  rw [drawCells, checked_eq_error_iff, along_range]
  push Not
  refine exists_congr fun i => and_congr Iff.rfl ?_
  have hi : f.At attrs i ((List.range i).foldl (f.cell o full vram) (f.start px attrs screen)) :=
    at_loop hwidth px screen i
  generalize (List.range i).foldl (f.cell o full vram) (f.start px attrs screen) = l at hi
  have haddr : f.cellAddr l i = f.addr i := by rw [cellAddr, hi.offset, addr]
  rw [update, haddr, hi.attrs i le_rfl, drawn]

end TextFrame

end VmPlayback.Vga
