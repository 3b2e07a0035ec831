import Mathlib
import VmPlayback.VgaBus

namespace VmPlayback.Vga

open Transducer

def bit (x : UInt8) (i : ℕ) : Bool := x.toBitVec.getLsbD i

def ofBits (f : Fin 8 → Bool) : UInt8 := ⟨BitVec.ofFnLE f⟩

theorem bit_ofBits (f : Fin 8 → Bool) (i : Fin 8) : bit (ofBits f) i = f i := by
  simp [bit, ofBits]

theorem byte_ext {x y : UInt8} (h : ∀ i : Fin 8, bit x i = bit y i) : x = y := by
  apply UInt8.toBitVec_inj.mp
  apply BitVec.eq_of_getLsbD_eq
  intro i hi
  exact h ⟨i, hi⟩

theorem ofBits_bit (x : UInt8) : ofBits (fun i => bit x i) = x :=
  byte_ext fun i => bit_ofBits _ i

/-- The bits of the eight pixels at an offset, by plane. -/
abbrev Cell := Fin 4 → Fin 8 → Bool

/-- The device with its memory taken apart. -/
structure PlanarVga where
  regs : VGAState
  cell : ℕ → Cell
  latch : Cell

namespace VGAState

variable (s : VGAState)

def sent (val : UInt8) (i : Fin 8) : Bool := bit val ((i + (s.gr 3 &&& 7).toNat) % 8)

def offered (val : UInt8) (p : Fin 4) (i : Fin 8) : Bool :=
  if s.gr 5 &&& 3 = 2 then bit val p
  else if s.gr 5 &&& 3 = 3 then bit (s.gr 0) p
  else if bit (s.gr 1) p then bit (s.gr 0) p else s.sent val i

def selected (val : UInt8) (i : Fin 8) : Bool :=
  if s.gr 5 &&& 3 = 3 then bit (s.gr 8) i && s.sent val i else bit (s.gr 8) i

def logic (x l : Bool) : Bool :=
  let func := s.gr 3 >>> 3
  if func = 1 then x && l else if func = 2 then x || l else if func = 3 then x ^^ l else x

/-- The pixels a latched write makes of the latched ones. -/
def written (val : UInt8) (latch : Cell) : Cell := fun p i =>
  if s.gr 5 &&& 3 = 1 then latch p i
  else if s.selected val i then s.logic (s.offered val p i) (latch p i)
  else latch p i

/-- The byte a latched read makes of the pixels: one plane, or the pixels that have
the colour looked for in all planes that matter. -/
def shown (c : Cell) : UInt8 :=
  if s.gr 5 &&& 0x08 = 0 then ofBits (c (Fin.ofNat 4 (s.gr 4).toNat))
  else ofBits fun i => decide (∀ p : Fin 4, bit (s.gr 7) p → c p i = bit (s.gr 2) p)

end VGAState

namespace PlanarVga

variable (t : PlanarVga)

def setPlane (a : ℕ) (p : Fin 4) (val : UInt8) : PlanarVga :=
  { t with cell := Function.update t.cell a (Function.update (t.cell a) p fun i => bit val i) }

def oddEvenPlane (a : ℕ) : Fin 4 := ⟨t.regs.oddEvenPlane a, VGAState.oddEvenPlane_lt a⟩

def read (addr : ℕ) : UInt8 × PlanarVga :=
  match t.regs.memoryOffset addr with
  | none => (0xff, t)
  | some a =>
    match t.regs.access with
    | .chain4 => (ofBits (t.cell (a / 4) (Fin.ofNat 4 a)), t)
    | .oddEven => (ofBits (t.cell (a / 2) (t.oddEvenPlane a)), t)
    | .latched => (t.regs.shown (t.cell a), { t with latch := t.cell a })

def write (addr : ℕ) (val : UInt8) : PlanarVga :=
  match t.regs.memoryOffset addr with
  | none => t
  | some a =>
    match t.regs.access with
    | .chain4 => if t.regs.planeEnabled (a % 4) then t.setPlane (a / 4) (Fin.ofNat 4 a) val else t
    | .oddEven =>
      if t.regs.planeEnabled (t.regs.oddEvenPlane a) then t.setPlane (a / 2) (t.oddEvenPlane a) val
      else t
    | .latched =>
      { t with
        cell := Function.update t.cell a fun p i =>
          if t.regs.planeEnabled p then t.regs.written val t.latch p i else t.cell a p i }

def reads (t : PlanarVga) (addr : ℕ) : ℕ → List UInt8 × PlanarVga
  | 0 => ([], t)
  | n + 1 => ((t.read addr).1 :: ((t.read addr).2.reads (addr + 1) n).1,
      ((t.read addr).2.reads (addr + 1) n).2)

def writes (t : PlanarVga) (addr : ℕ) : List UInt8 → PlanarVga
  | [] => t
  | b :: bs => (t.write addr b).writes (addr + 1) bs

/-- The ports work on the registers alone, but for the screen that is cleared. -/
def busStep (t : PlanarVga) : BusOp → UInt32 × PlanarVga
  | .inb port =>
    match t.regs.vgaIoportRead port with
    | .ok (val, regs) => (val.toUInt32, { t with regs })
    | .error _ => (0, t)
  | .outb port val =>
    match t.regs.vgaIoportWrite port val with
    | .ok regs => (0, { t with regs })
    | .error _ => (0, t)
  | .vbeReadIndex => (t.regs.vbeIndex.toUInt32, t)
  | .vbeReadData =>
    match t.regs.vbeIoportReadData with
    | .ok val => (val.toUInt32, t)
    | .error _ => (0, t)
  | .vbeWriteIndex val => (0, { t with regs := t.regs.vbeWriteIndex val })
  | .vbeWriteData val =>
    match t.regs.vbeWriteData val with
    | .ok regs =>
      let n := (t.regs.clearSize val).getD 0
      (0, { t with
        regs
        cell := fun a p i => if 4 * a + p < n then false else t.cell a p i })
    | .error _ => (0, t)
  | .readb addr => ((t.read addr).1.toUInt32, (t.read addr).2)
  | .readw addr =>
    let (bs, t) := t.reads addr 2
    (((bs.getD 0 0).toUInt16 ||| (bs.getD 1 0).toUInt16 <<< 8).toUInt32, t)
  | .readl addr =>
    let (bs, t) := t.reads addr 4
    ((bs.getD 0 0).toUInt32 ||| (bs.getD 1 0).toUInt32 <<< 8 |||
      (bs.getD 2 0).toUInt32 <<< 16 ||| (bs.getD 3 0).toUInt32 <<< 24, t)
  | .writeb addr val => (0, t.write addr val)
  | .writew addr val => (0, t.writes addr [val.toUInt8, (val >>> 8).toUInt8])
  | .writel addr val => (0, t.writes addr [val.toUInt8, (val >>> 8).toUInt8,
      (val >>> 16).toUInt8, (val >>> 24).toUInt8])

end PlanarVga

section words

variable (o : ByteOrder)

def wordBit (w : BitVec 32) : Cell := fun p i => w.getLsbD (8 * o.position p + i)

theorem bit_lane (w : BitVec 32) (p : Fin 4) (i : Fin 8) :
    bit (lane (k := 4) o w p) i = wordBit o w p i := by
  simp [bit, lane, wordBit]

theorem wordBit_and (a b : BitVec 32) (p : Fin 4) (i : Fin 8) :
    wordBit o (a &&& b) p i = (wordBit o a p i && wordBit o b p i) := BitVec.getLsbD_and

theorem wordBit_or (a b : BitVec 32) (p : Fin 4) (i : Fin 8) :
    wordBit o (a ||| b) p i = (wordBit o a p i || wordBit o b p i) := BitVec.getLsbD_or

theorem wordBit_xor (a b : BitVec 32) (p : Fin 4) (i : Fin 8) :
    wordBit o (a ^^^ b) p i = (wordBit o a p i ^^ wordBit o b p i) := BitVec.getLsbD_xor

theorem wordBit_not (a : BitVec 32) (p : Fin 4) (i : Fin 8) :
    wordBit o (~~~a) p i = !wordBit o a p i := by
  have hpos := o.position_lt p
  have hin : 8 * o.position p + i < 32 := by omega
  simp [wordBit, hin]

theorem mask16_bits (o : ByteOrder) : ∀ (m : Fin (mask16 o).length) (p : Fin 4) (i : Fin 8),
    wordBit o ((mask16 o).get m) p i = m.val.testBit p := by
  cases o with
  | little => decide
  | big => decide

/-- A mask has a plane's whole byte set or clear, as the bit of its number says. -/
theorem lookup_mask16 {m : ℕ} (hm : m < 16) :
    ∃ w, lookup (mask16 o) m = .ok w ∧ ∀ p i, wordBit o w p i = m.testBit p :=
  ⟨_, lookup_ok hm, mask16_bits o ⟨m, hm⟩⟩

/-- A byte is repeated in every plane. -/
theorem wordBit_spread {w : BitVec 32} (hw : ∀ j, 8 ≤ j → w.getLsbD j = false) (p : Fin 4)
    (i : Fin 8) : wordBit o (spread w) p i = w.getLsbD i := by
  have hpos := o.position_lt p
  have hi := i.isLt
  unfold wordBit spread
  generalize o.position p = q at hpos ⊢
  simp only [BitVec.getLsbD_or, BitVec.getLsbD_shiftLeft]
  -- of the four copies the one that lands in this plane is left
  interval_cases q
  all_goals grind

theorem getLsbD_rotate (val : UInt8) {b : ℕ} (hb : b < 8) (i : Fin 8) :
    (rotate (val.toBitVec.setWidth 32) b).getLsbD i = bit val ((i + b) % 8) := by
  have hi := i.isLt
  unfold rotate bit
  simp only [BitVec.getLsbD_or, BitVec.getLsbD_ushiftRight, BitVec.getLsbD_shiftLeft,
    BitVec.getLsbD_setWidth]
  by_cases h : i.val + b < 8
  · rw [Nat.mod_eq_of_lt h]
    grind
  · grind

theorem getLsbD_ff : ∀ i : Fin 8, (0xff : BitVec 32).getLsbD i = true := by decide

theorem getPlane_eq (latch : BitVec 32) (p : Fin 4) :
    (⟨(getPlane o latch p).setWidth 8⟩ : UInt8) = ofBits (wordBit o latch p) := by
  apply byte_ext
  intro i
  have hi := i.isLt
  have hp := p.isLt
  rw [bit_ofBits]
  cases o with
  | little =>
    simp only [bit, getPlane, wordBit, ByteOrder.position, BitVec.getLsbD_setWidth,
      BitVec.getLsbD_and, BitVec.getLsbD_ushiftRight, getLsbD_ff, hi, decide_true, Bool.true_and,
      Bool.and_true, Nat.mul_comm]
  | big =>
    have hpos : 24 - p.val * 8 = 8 * (4 - 1 - p.val) := by omega
    simp only [bit, getPlane, wordBit, ByteOrder.position, BitVec.getLsbD_setWidth,
      BitVec.getLsbD_and, BitVec.getLsbD_ushiftRight, getLsbD_ff, hi, decide_true, Bool.true_and,
      Bool.and_true, hpos]

end words

namespace VGAState

variable {s : VGAState} (o : ByteOrder)

theorem bit_eq_testBit (x : UInt8) (i : ℕ) : x.toNat.testBit i = bit x i := by
  simp [bit, BitVec.getLsbD]

/-- Which pixels a word of pixels to combine takes, and how. -/
theorem wordBit_combine (latch val : BitVec 32) {mask : BitVec 32}
    (hmask : ∀ j, 8 ≤ j → mask.getLsbD j = false) (p : Fin 4) (i : Fin 8) :
    wordBit o (s.combine latch val mask) p i =
      if mask.getLsbD i then s.logic (wordBit o val p i) (wordBit o latch p i)
      else wordBit o latch p i := by
  have hval : wordBit o (if s.gr 3 >>> 3 = 1 then val &&& latch
      else if s.gr 3 >>> 3 = 2 then val ||| latch
      else if s.gr 3 >>> 3 = 3 then val ^^^ latch else val) p i =
        s.logic (wordBit o val p i) (wordBit o latch p i) := by
    unfold logic
    dsimp only
    split_ifs
    · exact wordBit_and o _ _ p i
    · exact wordBit_or o _ _ p i
    · exact wordBit_xor o _ _ p i
    · rfl
  unfold combine
  dsimp only
  rw [wordBit_or, wordBit_and, wordBit_and, wordBit_not, wordBit_spread o hmask, hval]
  cases mask.getLsbD i
  · simp
  · simp

theorem setWidth_high (x : BitVec 8) (j : ℕ) (hj : 8 ≤ j) : (x.setWidth 32).getLsbD j = false := by
  simp [BitVec.getLsbD_of_ge x j hj]

theorem low_nibble_testBit (val : UInt8) (p : Fin 4) :
    (val.toBitVec.setWidth 32 &&& 0x0f).toNat.testBit p = bit val p := by
  have h15 : ∀ p : Fin 4, (0x0f : BitVec 32).toNat.testBit p = true := by decide
  have hval : (val.toBitVec.setWidth 32).toNat = val.toNat := by
    rw [BitVec.toNat_setWidth, UInt8.toNat_toBitVec]
    exact Nat.mod_eq_of_lt (val.toNat_lt.trans (by decide))
  rw [BitVec.toNat_and, Nat.testBit_and, h15, Bool.and_true, hval, bit_eq_testBit]

theorem rotation_lt (s : VGAState) : (s.gr 3 &&& 7).toNat < 8 := by
  rw [UInt8.toNat_and]
  exact Nat.lt_succ_of_le Nat.and_le_right

/-- A latched write computes the pixels of the specification. -/
theorem WellFormed.latchedWord_spec (h : s.WellFormed) (latch : BitVec 32) (val : UInt8) :
    ∃ w, s.latchedWord o latch val = .ok w ∧
      wordBit o w = s.written val (wordBit o latch) := by
  have hgr8 := setWidth_high (s.gr 8).toBitVec
  have hbit : ∀ (x : UInt8) (i : Fin 8), (x.toBitVec.setWidth 32).getLsbD i = bit x i := by
    intro x i
    have hi := i.isLt
    simp only [bit, BitVec.getLsbD_setWidth, Nat.lt_trans hi (by decide : 8 < 32), decide_true,
      Bool.true_and]
  unfold latchedWord
  dsimp only
  split_ifs with h1 h2 h3
  · -- the latch itself
    exact ⟨latch, rfl, by funext p i; simp [written, h1]⟩
  · -- a colour for all pixels
    obtain ⟨m, hm, hplane⟩ := lookup_mask16 o (low_nibble_lt val)
    refine ⟨_, by rw [hm]; rfl, ?_⟩
    funext p i
    rw [wordBit_combine o latch m hgr8, hbit, hplane, low_nibble_testBit]
    simp [written, selected, h2, offered]
  · -- the rotated byte is a mask, and the colour is in a register
    obtain ⟨m, hm, hplane⟩ := lookup_mask16 o (h.gr_lt (i := 0) rfl)
    refine ⟨_, by rw [hm]; rfl, ?_⟩
    funext p i
    have hmask : ∀ j, 8 ≤ j → ((s.gr 8).toBitVec.setWidth 32 &&&
        rotate (val.toBitVec.setWidth 32) (s.gr 3 &&& 7).toNat).getLsbD j = false := by
      intro j hj
      rw [BitVec.getLsbD_and, hgr8 j hj, Bool.false_and]
    rw [wordBit_combine o latch m hmask, BitVec.getLsbD_and, hbit,
      getLsbD_rotate val s.rotation_lt, hplane, bit_eq_testBit]
    simp [written, selected, h3, offered, sent]
  · -- the rotated byte, or a register in the planes that say so
    obtain ⟨m1, hm1, hplane1⟩ := lookup_mask16 o (h.gr_lt (i := 1) rfl)
    obtain ⟨m0, hm0, hplane0⟩ := lookup_mask16 o (h.gr_lt (i := 0) rfl)
    refine ⟨_, by rw [hm1, hm0]; rfl, ?_⟩
    funext p i
    have hlow : ∀ j, 8 ≤ j → (rotate (val.toBitVec.setWidth 32) (s.gr 3 &&& 7).toNat &&&
        0xff).getLsbD j = false := by
      intro j hj
      rw [BitVec.getLsbD_and]
      exact (congrArg _ (setWidth_high 0xff j hj)).trans (Bool.and_false _)
    rw [wordBit_combine o latch _ hgr8, hbit, wordBit_or, wordBit_and, wordBit_and, wordBit_not,
      wordBit_spread o hlow, BitVec.getLsbD_and, getLsbD_ff, getLsbD_rotate val s.rotation_lt,
      hplane1, hplane0, bit_eq_testBit, bit_eq_testBit]
    have hmix : ∀ x y z : Bool, (x && !y || z && y) = if y then z else x := by decide
    simp [written, selected, h1, h2, h3, offered, sent, hmix]

/-- The bytes of the four planes are or-ed together by two shifts. -/
theorem or_planes (w : BitVec 32) (i : Fin 8) :
    (w ||| w >>> 16 ||| (w ||| w >>> 16) >>> 8).getLsbD i = true ↔
      ∃ p : Fin 4, wordBit o w p i = true := by
  have hbits : (w ||| w >>> 16 ||| (w ||| w >>> 16) >>> 8).getLsbD i = true ↔
      ∃ q < 4, w.getLsbD (8 * q + i) = true := by
    simp only [BitVec.getLsbD_or, BitVec.getLsbD_ushiftRight, Bool.or_eq_true,
      Nat.exists_lt_succ_left, Nat.not_lt_zero, false_and, exists_false, or_false]
    rw [show 8 * 0 + i.val = i by omega, show 8 * (0 + 1) + i.val = 8 + i by omega,
      show 8 * (0 + 1 + 1) + i.val = 16 + i by omega,
      show 8 * (0 + 1 + 1 + 1) + i.val = 16 + (8 + i) by omega]
    tauto
  rw [hbits]
  constructor
  · rintro ⟨q, hq, hw⟩
    obtain ⟨p, hp⟩ := o.exists_position hq
    exact ⟨p, by rw [wordBit, hp]; exact hw⟩
  · rintro ⟨p, hw⟩
    exact ⟨o.position p, o.position_lt p, hw⟩

theorem WellFormed.latchedByte_spec (h : s.WellFormed) (latch : BitVec 32) :
    s.latchedByte o latch = .ok (s.shown (wordBit o latch)) := by
  unfold latchedByte shown
  split_ifs with hmode
  · have hlt : (s.gr 4).toNat < 4 :=
      Nat.lt_succ_of_le (UInt8.le_iff_toNat_le.mp (h.gr_le 4))
    have hp : (s.gr 4).toNat = (Fin.ofNat 4 (s.gr 4).toNat).val := (Nat.mod_eq_of_lt hlt).symm
    rw [pure_eq_ok, ← getPlane_eq, ← hp]
  · obtain ⟨m2, hm2, hplane2⟩ := lookup_mask16 o (h.gr_lt (i := 2) rfl)
    obtain ⟨m7, hm7, hplane7⟩ := lookup_mask16 o (h.gr_lt (i := 7) rfl)
    rw [hm2, hm7]
    simp only [ok_bind, pure_eq_ok, Except.ok.injEq]
    apply byte_ext
    intro i
    have hi := i.isLt
    rw [bit_ofBits, Bool.eq_iff_iff, decide_eq_true_iff]
    generalize hret : (latch ^^^ m2) &&& m7 = ret
    have hnot :
        bit ⟨(~~~(ret ||| ret >>> 16 ||| (ret ||| ret >>> 16) >>> 8) &&& 0xff).setWidth 8⟩ i =
        !(ret ||| ret >>> 16 ||| (ret ||| ret >>> 16) >>> 8).getLsbD i := by
      simp only [bit, BitVec.getLsbD_setWidth, BitVec.getLsbD_and, BitVec.getLsbD_not, getLsbD_ff,
        hi, Nat.lt_trans hi (by decide : 8 < 32), decide_true, Bool.true_and, Bool.and_true]
    -- a pixel is shown unless some plane that matters differs
    rw [hnot, Bool.not_eq_true', ← Bool.not_eq_true, or_planes o, not_exists]
    refine forall_congr' fun p => ?_
    rw [← hret, wordBit_and, wordBit_xor, hplane2, hplane7, bit_eq_testBit, bit_eq_testBit]
    cases bit (s.gr 7) p <;> cases bit (s.gr 2) p <;> cases wordBit o latch p i <;> decide

theorem oddEvenAddr_eq (a : ℕ) : s.oddEvenAddr a = 4 * (a / 2) + s.oddEvenPlane a := by
  unfold oddEvenAddr
  omega

end VGAState

namespace VGADevice

open VGAState

variable (o : ByteOrder) (d : VGADevice)

def planar : PlanarVga where
  regs := d.regs
  cell a p i := bit (d.vram (4 * a + p)) i
  latch := wordBit o d.latch

variable {d}

theorem wordBit_loadWord (a : ℕ) :
    wordBit o (d.vram.loadWord (k := 4) o (4 * a)) = (d.planar o).cell a := by
  funext p i
  rw [← bit_lane, Mem.lane_loadWord]
  rfl

theorem vgaMemReadb_planar (h : d.regs.WellFormed) {addr : ℕ} {v : UInt8} {d' : VGADevice}
    (hok : d.vgaMemReadb o addr = .ok (v, d')) :
    (d.planar o).read addr = (v, d'.planar o) := by
  have hregs : (d.planar o).regs = d.regs := rfl
  unfold vgaMemReadb at hok
  unfold PlanarVga.read
  rw [hregs]
  cases ha : d.regs.memoryOffset addr with
  | none =>
    rw [ha] at hok
    cases hok
    rfl
  | some a =>
    simp only [ha] at hok
    cases hacc : d.regs.access with
    | chain4 =>
      simp only [hacc, vramByte] at hok
      split at hok
      · cases hok
        have hcell :
            (d.planar o).cell (a / 4) (Fin.ofNat 4 a) = fun i : Fin 8 => bit (d.vram a) i := by
          simp only [planar, Fin.ofNat, Nat.div_add_mod]
        simp only [hcell, ofBits_bit]
      · cases hok
    | oddEven =>
      simp only [hacc, vramByte] at hok
      split at hok
      · cases hok
        have hcell : (d.planar o).cell (a / 2) ((d.planar o).oddEvenPlane a) =
            fun i : Fin 8 => bit (d.vram (d.regs.oddEvenAddr a)) i := by
          simp only [planar, PlanarVga.oddEvenPlane, oddEvenAddr_eq]
        simp only [hcell, ofBits_bit]
      · cases hok
    | latched =>
      simp only [hacc, vramWord] at hok
      split at hok
      · simp only [ok_bind, h.latchedByte_spec, pure_eq_ok] at hok
        cases hok
        simp only [wordBit_loadWord, planar]
      · cases hok

/-- A byte of one plane. -/
theorem storePlane_planar {addr a : ℕ} {p : Fin 4} (haddr : addr = 4 * a + p) (plane : ℕ)
    (val : UInt8) : (d.storePlane addr plane val).planar o = (d.planar o).setPlane a p val := by
  have hcell : ∀ (b : ℕ) (q : Fin 4), (d.vram.store addr [val]) (4 * b + q) =
      if b = a ∧ q = p then val else d.vram (4 * b + q) := by
    intro b q
    have hp := p.isLt
    have hq := q.isLt
    have hiff : 4 * b + q.val = addr ↔ b = a ∧ q = p := by
      rw [haddr, Fin.ext_iff]
      omega
    simp only [Mem.store_singleton, hiff]
  unfold planar storePlane setDirty PlanarVga.setPlane
  congr 1
  funext b q i
  dsimp only
  rw [hcell]
  by_cases hb : b = a
  · subst hb
    by_cases hq : q = p
    · subst hq
      simp
    · simp [hq]
  · simp [hb]

theorem storeMasked_planar {a : ℕ} {val mask : BitVec 32} {c : Cell}
    (hval : wordBit o val = c) (hmask : ∀ p i, wordBit o mask p i = d.regs.planeEnabled p) :
    (d.storeMasked o a (d.vram.loadWord (k := 4) o (4 * a)) val mask).planar o =
      { d.planar o with
        cell := Function.update (d.planar o).cell a fun p i =>
          if d.regs.planeEnabled p then c p i else (d.planar o).cell a p i } := by
  unfold planar storeMasked setDirty
  congr 1
  funext b p i
  dsimp only
  by_cases hb : b = a
  · subst hb
    rw [Mem.storeWord_apply, bit_lane, wordBit_or, wordBit_and, wordBit_and, wordBit_not, hmask,
      hval, Function.update_self, wordBit_loadWord]
    cases d.regs.planeEnabled p
    · simp [planar]
    · simp
  · rw [Mem.storeWord_of_ne, Function.update_of_ne hb]
    intro q
    have hp := p.isLt
    have hq := q.isLt
    omega

theorem vgaMemWriteb_planar (h : d.regs.WellFormed) {addr : ℕ} {val : UInt8} {d' : VGADevice}
    (hok : d.vgaMemWriteb o addr val = .ok d') : (d.planar o).write addr val = d'.planar o := by
  have hregs : (d.planar o).regs = d.regs := rfl
  unfold vgaMemWriteb at hok
  unfold PlanarVga.write
  rw [hregs]
  cases ha : d.regs.memoryOffset addr with
  | none =>
    rw [ha] at hok
    cases hok
    rfl
  | some a =>
    simp only [ha] at hok
    cases hacc : d.regs.access with
    | chain4 =>
      simp only [hacc, writePlane] at hok
      by_cases hp : d.regs.planeEnabled (a % 4) = true
      · rw [if_pos hp] at hok
        split at hok
        · cases hok
          simp only [if_pos hp]
          exact (storePlane_planar o (Nat.div_add_mod a 4).symm _ val).symm
        · cases hok
      · rw [if_neg hp] at hok
        cases hok
        simp only [if_neg hp]
    | oddEven =>
      simp only [hacc, writePlane] at hok
      by_cases hp : d.regs.planeEnabled (d.regs.oddEvenPlane a) = true
      · rw [if_pos hp] at hok
        split at hok
        · cases hok
          simp only [if_pos hp]
          exact (storePlane_planar o (oddEvenAddr_eq a) _ val).symm
        · cases hok
      · rw [if_neg hp] at hok
        cases hok
        simp only [if_neg hp]
    | latched =>
      obtain ⟨w, hw, hspec⟩ := h.latchedWord_spec o d.latch val
      obtain ⟨mask, hmask, hplane⟩ := lookup_mask16 o h.sr_lt
      simp only [hacc, hw, hmask, vramWord, ok_bind] at hok
      split at hok
      · simp only [ok_bind, pure_eq_ok] at hok
        cases hok
        rw [storeMasked_planar o hspec fun p i => (hplane p i).trans (bit_eq_testBit _ _)]
        rfl
      · cases hok

theorem readBytes_planar (h : d.regs.WellFormed) {addr n : ℕ} {bs : List UInt8} {d' : VGADevice}
    (hok : d.readBytes o addr n = .ok (bs, d')) :
    (d.planar o).reads addr n = (bs, d'.planar o) := by
  induction n generalizing d addr bs with
  | zero =>
    cases hok
    rfl
  | succ n ih =>
    rw [readBytes] at hok
    obtain ⟨⟨v, d₁⟩, hread, hok⟩ := bind_ok hok
    obtain ⟨⟨bs', d₂⟩, hrest, hok⟩ := bind_ok hok
    cases hok
    rw [PlanarVga.reads, vgaMemReadb_planar o h hread,
      ih (vgaMemReadb_regs h hread ▸ h) hrest]

theorem writeBytes_planar (h : d.regs.WellFormed) {addr : ℕ} {bs : List UInt8} {d' : VGADevice}
    (hok : d.writeBytes o addr bs = .ok d') : (d.planar o).writes addr bs = d'.planar o := by
  induction bs generalizing d addr with
  | nil =>
    cases hok
    rfl
  | cons b bs ih =>
    rw [writeBytes] at hok
    obtain ⟨d₁, hwrite, hok⟩ := bind_ok hok
    rw [PlanarVga.writes, vgaMemWriteb_planar o h hwrite]
    exact ih (vgaMemWriteb_regs h hwrite ▸ h) hok

theorem vbeIoportWriteData_planar {val : UInt16} {d' : VGADevice}
    (hok : d.vbeIoportWriteData val = .ok d') :
    (d.planar o).busStep (.vbeWriteData val) = (0, d'.planar o) := by
  obtain ⟨regs, hregs, hok⟩ := bind_ok hok
  have hcells : d'.planar o = { d.planar o with
      regs := regs
      cell := fun a p i =>
        if 4 * a + p < (d.regs.clearSize val).getD 0 then false else (d.planar o).cell a p i } := by
    cases hc : d.regs.clearSize val with
    | none =>
      rw [hc] at hok
      cases hok
      simp [planar]
    | some n =>
      simp only [hc] at hok
      split at hok
      · cases hok
        simp only [planar, Option.getD_some, Mem.store_replicate]
        congr 1
        funext a p i
        split
        · exact BitVec.getLsbD_zero
        · rfl
      · cases hok
  rw [hcells]
  have hplanar : (d.planar o).regs = d.regs := rfl
  simp only [PlanarVga.busStep, hplanar, hregs]

/-- Every access of the device is the access of the planar machine. -/
theorem busStep_planar (h : d.regs.WellFormed) {op : BusOp} {v : UInt32} {d' : VGADevice}
    (hok : d.busStep o op = .ok (v, d')) : (d.planar o).busStep op = (v, d'.planar o) := by
  have hregs : (d.planar o).regs = d.regs := rfl
  cases op with
  | inb port =>
    obtain ⟨⟨v', s'⟩, hread, hok⟩ := bind_ok hok
    cases hok
    simp only [PlanarVga.busStep, hread, planar]
  | outb port val =>
    obtain ⟨s', hwrite, hok⟩ := bind_ok hok
    cases hok
    simp only [PlanarVga.busStep, hwrite, planar]
  | vbeReadIndex =>
    cases hok
    rfl
  | vbeWriteIndex val =>
    cases hok
    rfl
  | vbeReadData =>
    obtain ⟨v', hread, hok⟩ := bind_ok hok
    cases hok
    simp only [PlanarVga.busStep, hregs, hread]
  | vbeWriteData val =>
    obtain ⟨d₁, hwrite, hok⟩ := bind_ok hok
    cases hok
    exact vbeIoportWriteData_planar o hwrite
  | readb addr =>
    obtain ⟨⟨v', d₁⟩, hread, hok⟩ := bind_ok hok
    cases hok
    simp only [PlanarVga.busStep, vgaMemReadb_planar o h hread]
  | readw addr =>
    rw [busStep, vgaMemReadw_eq] at hok
    obtain ⟨⟨v', d₁⟩, hword, hok⟩ := bind_ok hok
    obtain ⟨⟨bs, d₂⟩, hread, hword⟩ := bind_ok hword
    cases hword
    cases hok
    simp only [PlanarVga.busStep, readBytes_planar o h hread]
  | readl addr =>
    rw [busStep, vgaMemReadl_eq] at hok
    obtain ⟨⟨bs, d₁⟩, hread, hok⟩ := bind_ok hok
    cases hok
    simp only [PlanarVga.busStep, readBytes_planar o h hread]
  | writeb addr val =>
    obtain ⟨d₁, hwrite, hok⟩ := bind_ok hok
    cases hok
    simp only [PlanarVga.busStep, vgaMemWriteb_planar o h hwrite]
  | writew addr val =>
    rw [busStep, vgaMemWritew_eq] at hok
    obtain ⟨d₁, hwrite, hok⟩ := bind_ok hok
    cases hok
    simp only [PlanarVga.busStep, writeBytes_planar o h hwrite]
  | writel addr val =>
    rw [busStep, vgaMemWritel_eq] at hok
    obtain ⟨d₁, hwrite, hok⟩ := bind_ok hok
    cases hok
    simp only [PlanarVga.busStep, writeBytes_planar o h hwrite]

/-- Over every run of the guest that does not fault, on a host of either byte order:
the device gives the answers of the planar machine, and its memory and latch stay the
planes of it. -/
theorem run_planar (o : ByteOrder) (vram : Mem) (latch : BitVec 32) (dirty : ℕ → Bool)
    {ops : List BusOp} {vs : List UInt32} {d : VGADevice}
    (hrun : run (busStep o) (reset vram latch dirty) ops = .ok (vs, d)) :
    answers PlanarVga.busStep ((reset vram latch dirty).planar o) ops = (vs, d.planar o) := by
  have hsim := run_simulation PlanarVga.busStep
    (R := fun (d : VGADevice) t => d.regs.WellFormed ∧ t = d.planar o)
    (fun d t op v d' hR hok => by
      obtain ⟨hwf, rfl⟩ := hR
      have hstep := busStep_planar o hwf hok
      exact ⟨by rw [hstep], busStep_wellFormed hwf hok, by rw [hstep]⟩)
    ⟨reset_wellFormed, rfl⟩ hrun
  exact Prod.ext hsim.1 hsim.2.2

/-- All planes enabled and all pixels selected, a byte is written to every plane and
one of them is read back. -/
theorem run_planar_readback :
    ∃ d, run (busStep .big) (reset (fun _ => 0) 0 fun _ => false)
        [.outb 0x3c4 2, .outb 0x3c5 0x0f, .outb 0x3ce 8, .outb 0x3cf 0xff, .writeb 0xa0000 0x5a,
          .outb 0x3ce 4, .outb 0x3cf 2, .readb 0xa0000] = .ok ([0, 0, 0, 0, 0, 0, 0, 0x5a], d) ∧
      answers PlanarVga.busStep ((reset (fun _ => 0) 0 fun _ => false).planar .big)
        [.outb 0x3c4 2, .outb 0x3c5 0x0f, .outb 0x3ce 8, .outb 0x3cf 0xff, .writeb 0xa0000 0x5a,
          .outb 0x3ce 4, .outb 0x3cf 2, .readb 0xa0000] =
            ([0, 0, 0, 0, 0, 0, 0, 0x5a], d.planar .big) :=
  ⟨_, rfl, run_planar .big _ _ _ rfl⟩

theorem vram_eq_of_planar_eq {o o' : ByteOrder} {d d' : VGADevice}
    (h : d.planar o = d'.planar o') : d.vram = d'.vram := by
  funext n
  have hcell := congrArg (fun t : PlanarVga => t.cell (n / 4) (Fin.ofNat 4 n)) h
  apply byte_ext
  intro i
  simpa only [planar, Fin.ofNat, Nat.div_add_mod] using congrFun hcell i

theorem busStep_byteOrder {o o' : ByteOrder} {d d' : VGADevice} (h : d.regs.WellFormed)
    (heq : d.planar o = d'.planar o') (op : BusOp) :
    (∃ f f', d.busStep o op = .error f ∧ d'.busStep o' op = .error f') ∨
      ∃ v d₁ d₁', d.busStep o op = .ok (v, d₁) ∧ d'.busStep o' op = .ok (v, d₁') ∧
        d₁.regs.WellFormed ∧ d₁.planar o = d₁'.planar o' := by
  have hregs : d'.regs = d.regs := (congrArg PlanarVga.regs heq).symm
  have h' : d'.regs.WellFormed := hregs ▸ h
  have hiff := busStep_error_iff (o := o) h op
  have hiff' := busStep_error_iff (o := o') h' op
  rw [hregs, ← hiff] at hiff'
  cases hstep : d.busStep o op with
  | error f =>
    obtain ⟨f', hf'⟩ := hiff'.mpr ⟨f, hstep⟩
    exact .inl ⟨f, f', rfl, hf'⟩
  | ok r =>
    obtain ⟨v, d₁⟩ := r
    cases hstep' : d'.busStep o' op with
    | error f' =>
      obtain ⟨f, hf⟩ := hiff'.mp ⟨f', hstep'⟩
      rw [hstep] at hf
      cases hf
    | ok r' =>
      obtain ⟨v', d₁'⟩ := r'
      have hp := busStep_planar o h hstep
      have hp' := busStep_planar o' h' hstep'
      rw [← heq, hp] at hp'
      obtain ⟨rfl, hplanar⟩ := Prod.mk.inj hp'
      exact .inr ⟨v, d₁, d₁', rfl, rfl, busStep_wellFormed h hstep, hplanar⟩

/-- The masks and the selection of planes are right for either byte order of the host:
from latches with the same planes, a run faults on both hosts or on neither, and if it
does not then all answers and the whole video memory are the same. -/
theorem run_byteOrder (o o' : ByteOrder) (vram : Mem) {latch latch' : BitVec 32}
    (hlatch : wordBit o latch = wordBit o' latch') (dirty : ℕ → Bool) (ops : List BusOp) :
    (∃ f f', run (busStep o) (reset vram latch dirty) ops = .error f ∧
        run (busStep o') (reset vram latch' dirty) ops = .error f') ∨
      ∃ vs d d', run (busStep o) (reset vram latch dirty) ops = .ok (vs, d) ∧
        run (busStep o') (reset vram latch' dirty) ops = .ok (vs, d') ∧ d.vram = d'.vram := by
  have hstart : (reset vram latch dirty).planar o = (reset vram latch' dirty).planar o' := by
    simp only [planar, reset, hlatch]
  have hruns := run_bisimulation (busStep o')
    (R := fun d d' : VGADevice => d.regs.WellFormed ∧ d.planar o = d'.planar o')
    (fun d d' op hR => busStep_byteOrder hR.1 hR.2 op) ⟨reset_wellFormed, hstart⟩ ops
  rcases hruns with hfault | ⟨vs, d, d', hd, hd', -, heq⟩
  · exact .inl hfault
  · exact .inr ⟨vs, d, d', hd, hd', vram_eq_of_planar_eq heq⟩

/-- Write mode 1 stores the latch, which is not the same word on the two hosts. -/
def latchCopy : List BusOp :=
  [.outb 0x3c4 2, .outb 0x3c5 0x0f, .outb 0x3ce 5, .outb 0x3cf 1, .writeb 0xa0000 0, .readb 0xa0000]

theorem run_byteOrder_latchCopy :
    ∃ d d', run (busStep .little) (reset (fun _ => 0) 0x0000005a fun _ => false) latchCopy =
        .ok ([0, 0, 0, 0, 0, 0x5a], d) ∧
      run (busStep .big) (reset (fun _ => 0) 0x5a000000 fun _ => false) latchCopy =
        .ok ([0, 0, 0, 0, 0, 0x5a], d') ∧ d.vram = d'.vram := by
  have hlatch : wordBit .little 0x0000005a = wordBit .big 0x5a000000 := by
    funext p i
    revert p i
    decide
  have hlittle : ∃ d, run (busStep .little) (reset (fun _ => 0) 0x0000005a fun _ => false)
      latchCopy = .ok ([0, 0, 0, 0, 0, 0x5a], d) := ⟨_, rfl⟩
  obtain ⟨d, hd⟩ := hlittle
  rcases run_byteOrder .little .big (fun _ => 0) hlatch (fun _ => false) latchCopy with
    ⟨f, f', hf, -⟩ | ⟨vs, d₁, d', hd₁, hd', hvram⟩
  · rw [hd] at hf
    cases hf
  · rw [hd] at hd₁
    cases hd₁
    exact ⟨d, d', hd, hd', hvram⟩

end VGADevice

end VmPlayback.Vga
