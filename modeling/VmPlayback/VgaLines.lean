import VmPlayback.VgaPlanes

namespace VmPlayback.Vga

/-- `expand4[i]`: bit `j` of `i` moves to bit `4 * j`. -/
def expand4 (i : UInt8) : BitVec 32 :=
  (List.range 8).foldl
    (fun (v : BitVec 32) j => v ||| ((i.toBitVec.setWidth 32 >>> j) &&& 1#32) <<< (j * 4)) 0

def expand2 (i : UInt8) : BitVec 16 :=
  (List.range 4).foldl
    (fun (v : BitVec 16) j => v ||| ((i.toBitVec.setWidth 16 >>> (2 * j)) &&& 3#16) <<< (j * 4)) 0

def rgbToPixel32 (r g b : UInt32) : UInt32 := (r <<< 16) ||| (g <<< 8) ||| b

inductive DrawLine where
  | line2
  | line2d2
  | line4
  | line4d2
  | line8d2
  | line8
  | line15
  | line16
  | line24
  | line32
  deriving DecidableEq, Repr

/-- What a line is drawn with: `last_palette` and `ar[0x12] & 0xf`. -/
structure Colours where
  palette : ℕ → UInt32
  planes : UInt8

section lines

variable (o : ByteOrder) (c : Colours) (m : Mem)

def groupData (a : ℕ) : BitVec 32 :=
  m.loadWord (k := 4) o a &&& (mask16 o).getD c.planes.toNat 0

def plane (data : BitVec 32) (p : ℕ) : UInt8 := ⟨(getPlane o data p).setWidth 8⟩

def group4 (a : ℕ) : List UInt32 :=
  let data := groupData o c m a
  let v := expand4 (plane o data 0) ||| expand4 (plane o data 1) <<< 1 |||
    expand4 (plane o data 2) <<< 2 ||| expand4 (plane o data 3) <<< 3
  [28, 24, 20, 16, 12, 8, 4, 0].map fun k => c.palette ((v >>> k) &&& 0xf).toNat

def group2 (a : ℕ) : List UInt32 :=
  let data := groupData o c m a
  let v0 := expand2 (plane o data 0) ||| expand2 (plane o data 2) <<< 2
  let v1 := expand2 (plane o data 1) ||| expand2 (plane o data 3) <<< 2
  ([12, 8, 4, 0].map fun k => c.palette ((v0 >>> k) &&& 0xf).toNat) ++
    [12, 8, 4, 0].map fun k => c.palette ((v1 >>> k) &&& 0xf).toNat

def twice (pixels : List UInt32) : List UInt32 := pixels.flatMap fun p => [p, p]

def lduw (a : ℕ) : UInt32 := (m a).toUInt32 ||| (m (a + 1)).toUInt32 <<< 8

def pixel15 (a : ℕ) : UInt32 :=
  let v := lduw m a
  rgbToPixel32 ((v >>> 7) &&& 0xf8) ((v >>> 2) &&& 0xf8) ((v <<< 3) &&& 0xf8)

def pixel16 (a : ℕ) : UInt32 :=
  let v := lduw m a
  rgbToPixel32 ((v >>> 8) &&& 0xf8) ((v >>> 3) &&& 0xfc) ((v <<< 3) &&& 0xf8)

/-- Blue, green and red in memory order; a fourth byte is not looked at. -/
def pixel24 (a : ℕ) : UInt32 :=
  rgbToPixel32 (m (a + 2)).toUInt32 (m (a + 1)).toUInt32 (m a).toUInt32

/-- How often `do { } while (--w != 0)` goes round from `w`. -/
def rounds (w : ℕ) : ℕ := if w = 0 then 2 ^ 32 else w

/-- The line of `width` pixels at an offset of the memory. -/
def drawLine (v : DrawLine) (a width : ℕ) : List UInt32 :=
  match v with
  | .line2 => (List.range (width / 8)).flatMap fun x => group2 o c m (a + 4 * x)
  | .line2d2 => (List.range (width / 8)).flatMap fun x => twice (group2 o c m (a + 4 * x))
  | .line4 => (List.range (width / 8)).flatMap fun x => group4 o c m (a + 4 * x)
  | .line4d2 => (List.range (width / 8)).flatMap fun x => twice (group4 o c m (a + 4 * x))
  | .line8d2 => (List.range (width / 8)).flatMap fun x =>
      twice ((List.range 4).map fun i => c.palette (m (a + 4 * x + i)).toNat)
  | .line8 => (List.range (width / 8)).flatMap fun x =>
      (List.range 8).map fun i => c.palette (m (a + 8 * x + i)).toNat
  -- these four test at the end of the loop only
  | .line15 => (List.range (rounds width)).map fun x => pixel15 m (a + 2 * x)
  | .line16 => (List.range (rounds width)).map fun x => pixel16 m (a + 2 * x)
  | .line24 => (List.range (rounds width)).map fun x => pixel24 m (a + 3 * x)
  | .line32 => (List.range (rounds width)).map fun x => pixel24 m (a + 4 * x)

def DrawLine.bits : DrawLine → ℕ
  | .line2 | .line2d2 | .line4 | .line4d2 | .line8d2 => 4
  | .line8 => 8
  | .line15 | .line16 => 16
  | .line24 => 24
  | .line32 => 32

/-- The bytes of the memory a line is drawn from. -/
def DrawLine.bytes (v : DrawLine) (width : ℕ) : ℕ :=
  match v with
  | .line2 | .line2d2 | .line4 | .line4d2 | .line8d2 => 4 * (width / 8)
  | .line8 => 8 * (width / 8)
  | .line15 | .line16 => 2 * rounds width
  | .line24 => 3 * rounds width
  | .line32 => 4 * rounds width

def DrawLine.columns (v : DrawLine) (width : ℕ) : ℕ :=
  match v with
  | .line2 | .line4 | .line8d2 | .line8 => 8 * (width / 8)
  | .line2d2 | .line4d2 => 16 * (width / 8)
  | .line15 | .line16 | .line24 | .line32 => rounds width

end lines

variable {o : ByteOrder} {c : Colours} {m m' : Mem}

theorem rounds_of_pos {w : ℕ} (h : 0 < w) : rounds w = w := if_neg h.ne'

theorem length_drawLine (v : DrawLine) (a width : ℕ) :
    (drawLine o c m v a width).length = v.columns width := by
  cases v with
  | line2 | line2d2 | line4 | line4d2 | line8d2 | line8 =>
    simp [drawLine, DrawLine.columns, group2, group4, twice, List.length_flatMap, Nat.mul_comm,
      Function.comp_def]
  | line15 | line16 | line24 | line32 => simp [drawLine, DrawLine.columns]

theorem rounds_of_lt {k w : ℕ} (hk : 0 < k) (h : k * rounds w < 2 ^ 32) : rounds w = w := by
  refine rounds_of_pos (Nat.pos_of_ne_zero ?_)
  rintro rfl
  exact absurd (Nat.le_mul_of_pos_left (2 ^ 32) hk) (Nat.not_le.mpr h)

/-- Only a line without a width takes more than it is said to. -/
theorem DrawLine.bytes_le (v : DrawLine) {width : ℕ} (h : v.bytes width < 2 ^ 32) :
    v.bytes width ≤ (width * v.bits + 7) / 8 := by
  cases v with
  | line2 | line2d2 | line4 | line4d2 | line8d2 | line8 =>
    simp only [DrawLine.bytes, DrawLine.bits]
    omega
  | line15 | line16 | line24 | line32 =>
    simp only [DrawLine.bytes, DrawLine.bits] at h ⊢
    rw [rounds_of_lt (by decide) h]
    omega

theorem DrawLine.columns_le (v : DrawLine) {width : ℕ} (h : v.bytes width < 2 ^ 32) :
    v.columns width ≤ if v = .line2d2 ∨ v = .line4d2 then 2 * width else width := by
  cases v with
  | line2 | line2d2 | line4 | line4d2 | line8d2 | line8 =>
    simp only [DrawLine.columns, reduceCtorEq, or_self, or_false, or_true, if_true, if_false]
    omega
  | line15 | line16 | line24 | line32 =>
    simp only [DrawLine.bytes, DrawLine.columns] at h ⊢
    exact (rounds_of_lt (by decide) h).le

/-- The kinds of line whose loop tests at the end only. -/
def DrawLine.deep : DrawLine → Bool
  | .line15 | .line16 | .line24 | .line32 => true
  | _ => false

theorem DrawLine.bytes_lt_iff (v : DrawLine) {width : ℕ} (hw : width < 2 ^ 16) :
    v.bytes width < 2 ^ 32 ↔ ¬ (width = 0 ∧ v.deep = true) := by
  rcases Nat.eq_zero_or_pos width with rfl | hpos
  · cases v <;> decide
  · refine iff_of_true ?_ fun h => absurd h.1 hpos.ne'
    cases v <;> simp only [DrawLine.bytes, rounds_of_pos hpos] <;> omega

theorem groupData_congr {a : ℕ} (h : ∀ i < 4, m (a + i) = m' (a + i)) :
    groupData o c m a = groupData o c m' a := by
  have hload : m.load a 4 = m'.load a 4 :=
    Mem.load_congr fun i hlow hhigh => by
      have := h (i - a) (by omega)
      rwa [Nat.add_sub_cancel' hlow] at this
  simp only [groupData, Mem.loadWord, hload]

/-- A line depends on the bytes it is drawn from and no others. -/
theorem drawLine_congr (v : DrawLine) {a width : ℕ}
    (h : ∀ i < v.bytes width, m (a + i) = m' (a + i)) :
    drawLine o c m v a width = drawLine o c m' v a width := by
  have hgroup : v.bytes width = 4 * (width / 8) → ∀ x < width / 8, groupData o c m (a + 4 * x) =
      groupData o c m' (a + 4 * x) := by
    intro hbytes x hx
    refine groupData_congr fun i hi => ?_
    rw [hbytes] at h
    rw [Nat.add_assoc]
    exact h _ (by omega)
  cases v with
  | line2 | line2d2 =>
    simp only [drawLine, List.flatMap]
    congr 1
    refine List.map_congr_left fun x hx => ?_
    simp only [group2, hgroup rfl x (List.mem_range.mp hx)]
  | line4 | line4d2 =>
    simp only [drawLine, List.flatMap]
    congr 1
    refine List.map_congr_left fun x hx => ?_
    simp only [group4, hgroup rfl x (List.mem_range.mp hx)]
  | line8d2 =>
    simp only [drawLine, List.flatMap]
    congr 1
    refine List.map_congr_left fun x hx => ?_
    have hx := List.mem_range.mp hx
    congr 1
    refine List.map_congr_left fun i hi => ?_
    have hi := List.mem_range.mp hi
    rw [Nat.add_assoc, h _ (by simp only [DrawLine.bytes]; omega)]
  | line8 =>
    simp only [drawLine, List.flatMap]
    congr 1
    refine List.map_congr_left fun x hx => ?_
    have hx := List.mem_range.mp hx
    refine List.map_congr_left fun i hi => ?_
    have hi := List.mem_range.mp hi
    rw [Nat.add_assoc, h _ (by simp only [DrawLine.bytes]; omega)]
  | line15 | line16 =>
    refine List.map_congr_left fun x hx => ?_
    have hx := List.mem_range.mp hx
    simp only [DrawLine.bytes] at h
    simp only [pixel15, pixel16, lduw, Nat.add_assoc]
    rw [h _ (by omega), h _ (by omega)]
  | line24 =>
    refine List.map_congr_left fun x hx => ?_
    have hx := List.mem_range.mp hx
    simp only [DrawLine.bytes] at h
    simp only [pixel24, Nat.add_assoc]
    rw [h _ (by omega), h _ (by omega), h _ (by omega)]
  | line32 =>
    refine List.map_congr_left fun x hx => ?_
    have hx := List.mem_range.mp hx
    simp only [DrawLine.bytes] at h
    simp only [pixel24, Nat.add_assoc]
    rw [h _ (by omega), h _ (by omega), h _ (by omega)]

def colour (shown : UInt8) (c : Cell) (i : Fin 8) : ℕ :=
  (BitVec.ofFnLE fun p : Fin 4 => c p i && bit shown p).toNat

theorem getLsbD_expand4 (x : UInt8) (t : ℕ) :
    (expand4 x).getLsbD t = (decide (t % 4 = 0) && bit x (t / 4)) := by
  -- the loop of the table, one bit more at a time
  have hloop : ∀ n ≤ 8, ((List.range n).foldl (fun (v : BitVec 32) j =>
      v ||| ((x.toBitVec.setWidth 32 >>> j) &&& 1#32) <<< (j * 4)) 0).getLsbD t =
        (decide (t % 4 = 0 ∧ t < 4 * n) && bit x (t / 4)) := by
    intro n hn
    induction n with
    | zero => simp
    | succ n ih =>
      rw [List.range_succ, List.foldl_append, List.foldl_cons, List.foldl_nil, BitVec.getLsbD_or,
        ih (by omega), BitVec.getLsbD_shiftLeft, BitVec.getLsbD_and, BitVec.getLsbD_ushiftRight,
        BitVec.getLsbD_one, BitVec.getLsbD_setWidth]
      unfold bit
      grind
  rw [expand4, hloop 8 le_rfl]
  by_cases ht : t < 32
  · simp [ht]
  · have : bit x (t / 4) = false := BitVec.getLsbD_of_ge _ _ (by omega)
    simp [this]

theorem nibble_eq (w : BitVec 32) (j : ℕ) :
    ((w >>> (4 * j)) &&& 0xf).toNat =
      (BitVec.ofFnLE fun p : Fin 4 => w.getLsbD (4 * j + p)).toNat := by
  apply Nat.eq_of_testBit_eq
  intro t
  have h15 : BitVec.getLsbD (15 : BitVec 32) t = decide (t < 4) := by
    have hones : (15 : BitVec 32) = (BitVec.allOnes 4).setWidth 32 := rfl
    rw [hones, BitVec.getLsbD_setWidth, BitVec.getLsbD_allOnes]
    by_cases ht : t < 4
    · simp [ht]
      omega
    · simp [ht]
  rw [BitVec.testBit_toNat, BitVec.testBit_toNat, BitVec.getLsbD_and, BitVec.getLsbD_ushiftRight,
    BitVec.getLsbD_ofFnLE, h15]
  by_cases ht : t < 4
  · simp [ht]
  · simp [ht]

theorem getLsbD_expand4_shift (x : UInt8) (q p : Fin 4) (j : Fin 8) :
    (expand4 x <<< q.val).getLsbD (4 * j + p) = (decide (p = q) && bit x j) := by
  have hj := j.isLt
  have hp := p.isLt
  have hq := q.isLt
  rw [BitVec.getLsbD_shiftLeft, getLsbD_expand4]
  by_cases hpq : p = q
  · subst hpq
    have hin : 4 * j.val + p.val < 32 := by omega
    simp [hin]
  · have hne : p.val ≠ q.val := fun h => hpq (Fin.ext h)
    have hmod : ¬ (4 * j.val + p.val < q.val) → ¬ (4 * j.val + p.val - q.val) % 4 = 0 := by omega
    by_cases hlt : 4 * j.val + p.val < q.val
    · simp [hlt, hpq]
    · simp [hmod hlt, hpq]

/-- Four expanded bytes side by side: bit `p` of nibble `j` is bit `j` of byte `p`. -/
theorem getLsbD_interleave (x : Fin 4 → UInt8) (j : Fin 8) (p : Fin 4) :
    (expand4 (x 0) ||| expand4 (x 1) <<< 1 ||| expand4 (x 2) <<< 2 |||
      expand4 (x 3) <<< 3).getLsbD (4 * j + p) = bit (x p) j := by
  have h0 : (expand4 (x 0)).getLsbD (4 * j + p) = (decide (p = 0) && bit (x 0) j) := by
    rw [← getLsbD_expand4_shift (x 0) 0 p j, Fin.val_zero, BitVec.shiftLeft_zero]
  have h1 : (expand4 (x 1) <<< 1).getLsbD (4 * j + p) = (decide (p = 1) && bit (x 1) j) :=
    getLsbD_expand4_shift (x 1) 1 p j
  have h2 : (expand4 (x 2) <<< 2).getLsbD (4 * j + p) = (decide (p = 2) && bit (x 2) j) :=
    getLsbD_expand4_shift (x 2) 2 p j
  have h3 : (expand4 (x 3) <<< 3).getLsbD (4 * j + p) = (decide (p = 3) && bit (x 3) j) :=
    getLsbD_expand4_shift (x 3) 3 p j
  rw [BitVec.getLsbD_or, BitVec.getLsbD_or, BitVec.getLsbD_or, h0, h1, h2, h3]
  fin_cases p
  all_goals simp

theorem plane_eq (data : BitVec 32) (p : Fin 4) (i : Fin 8) :
    bit (plane o data p) i = wordBit o data p i := by
  rw [plane, getPlane_eq, bit_ofBits]

theorem wordBit_groupData (hc : c.planes < 16) (a : ℕ) (p : Fin 4) (i : Fin 8) :
    wordBit o (groupData o c m a) p i = (bit (m (a + p)) i && bit c.planes p) := by
  have hlt : c.planes.toNat < (mask16 o).length := UInt8.lt_iff_toNat_lt.mp hc
  rw [groupData, wordBit_and, ← bit_lane, Mem.lane_loadWord, List.getD_eq_getElem _ _ hlt]
  congr 1
  exact (mask16_bits o ⟨_, hlt⟩ p i).trans (VGAState.bit_eq_testBit _ _)

/-- The pixels of a group of the 16-colour modes, the leftmost in the highest bits. -/
theorem group4_eq (hc : c.planes < 16) (a : ℕ) :
    group4 o c m a = (List.finRange 8).map fun k =>
      c.palette (colour c.planes (fun p i => bit (m (a + p)) i) k.rev) := by
  have hpixel : ∀ j : Fin 8, ((expand4 (plane o (groupData o c m a) 0) |||
      expand4 (plane o (groupData o c m a) 1) <<< 1 |||
      expand4 (plane o (groupData o c m a) 2) <<< 2 |||
      expand4 (plane o (groupData o c m a) 3) <<< 3) >>> (4 * j.val) &&& 0xf).toNat =
        colour c.planes (fun p i => bit (m (a + p)) i) j := by
    intro j
    rw [nibble_eq, colour]
    congr 2
    funext p
    rw [← wordBit_groupData hc, ← plane_eq]
    exact getLsbD_interleave (fun p => plane o (groupData o c m a) p) j p
  have hshift : [28, 24, 20, 16, 12, 8, 4, 0] = (List.finRange 8).map fun k => 4 * k.rev.val := by
    decide
  unfold group4
  dsimp only
  rw [hshift, List.map_map]
  refine List.map_congr_left fun k _ => ?_
  exact congrArg c.palette (hpixel k.rev)

/-- A line of the 16-colour modes, group by group. -/
theorem line4_eq (hc : c.planes < 16) (b width : ℕ) :
    drawLine o c m .line4 (4 * b) width = (List.range (width / 8)).flatMap fun x =>
      (List.finRange 8).map fun k =>
        c.palette (colour c.planes (fun p i => bit (m (4 * (b + x) + p)) i) k.rev) := by
  simp only [drawLine, group4_eq hc, Nat.mul_add]

theorem line4d2_eq (a width : ℕ) :
    drawLine o c m .line4d2 a width = twice (drawLine o c m .line4 a width) := by
  simp only [drawLine, twice, List.flatMap_assoc]

end VmPlayback.Vga
