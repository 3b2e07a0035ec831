import Mathlib.Tactic
import Mathlib.Data.List.GetD

namespace VmPlayback

def leBytes : ℕ → ℕ → List UInt8
  | 0, _ => []
  | k + 1, v => UInt8.ofNat v :: leBytes k (v / 256)

def leNat : List UInt8 → ℕ
  | [] => 0
  | b :: bs => b.toNat + 256 * leNat bs

@[simp] theorem leBytes_length (k v : ℕ) : (leBytes k v).length = k := by
  induction k generalizing v with
  | zero => rfl
  | succ k ih => simp [leBytes, ih]

theorem leNat_leBytes (k v : ℕ) : leNat (leBytes k v) = v % 256 ^ k := by
  induction k generalizing v with
  | zero => simp [leBytes, leNat, Nat.mod_one]
  | succ k ih =>
    have hv : v % 256 ^ (k + 1) = v % 256 + 256 * (v / 256 % 256 ^ k) := by
      rw [pow_succ', Nat.mod_mul]
    simp only [leBytes, leNat, ih, hv, UInt8.toNat_ofNat']

theorem leNat_lt (bs : List UInt8) : leNat bs < 256 ^ bs.length := by
  induction bs with
  | nil => simp [leNat]
  | cons b bs ih =>
    have hb : b.toNat < 256 := b.toNat_lt
    rw [List.length_cons, pow_succ', leNat]
    omega

theorem leBytes_leNat (bs : List UInt8) : leBytes bs.length (leNat bs) = bs := by
  induction bs with
  | nil => rfl
  | cons b bs ih =>
    have hb : b.toNat < 256 := b.toNat_lt
    have hq : (b.toNat + 256 * leNat bs) / 256 = leNat bs := by omega
    have hr : UInt8.ofNat (b.toNat + 256 * leNat bs) = b := by
      apply UInt8.toNat_inj.mp
      rw [UInt8.toNat_ofNat']
      omega
    simp only [List.length_cons, leBytes, leNat, hq, hr, ih]

inductive ByteOrder where
  | little
  | big
  deriving DecidableEq, Repr

namespace ByteOrder

/-- Its own inverse: the same rearrangement lays bytes out and picks them up. -/
def arrange : ByteOrder → List UInt8 → List UInt8
  | little, bs => bs
  | big, bs => bs.reverse

@[simp] theorem arrange_length (o : ByteOrder) (bs : List UInt8) :
    (o.arrange bs).length = bs.length := by
  cases o <;> simp [arrange]

@[simp] theorem arrange_arrange (o : ByteOrder) (bs : List UInt8) :
    o.arrange (o.arrange bs) = bs := by
  cases o <;> simp [arrange]

def encode (o : ByteOrder) (k : ℕ) (v : BitVec (8 * k)) : List UInt8 :=
  o.arrange (leBytes k v.toNat)

def decode (o : ByteOrder) (k : ℕ) (bs : List UInt8) : BitVec (8 * k) :=
  BitVec.ofNat (8 * k) (leNat (o.arrange bs))

@[simp] theorem encode_length (o : ByteOrder) (k : ℕ) (v : BitVec (8 * k)) :
    (o.encode k v).length = k := by
  simp [encode]

theorem two_pow_bits (k : ℕ) : 2 ^ (8 * k) = 256 ^ k := by
  rw [pow_mul]
  norm_num

@[simp] theorem decode_encode (o : ByteOrder) (k : ℕ) (v : BitVec (8 * k)) :
    o.decode k (o.encode k v) = v := by
  have hv : v.toNat % 256 ^ k = v.toNat := Nat.mod_eq_of_lt (two_pow_bits k ▸ v.isLt)
  rw [decode, encode, arrange_arrange, leNat_leBytes, hv, BitVec.ofNat_toNat]
  simp

/-- Every byte string of the right length is the layout of some word. -/
theorem encode_decode (o : ByteOrder) {k : ℕ} {bs : List UInt8} (h : bs.length = k) :
    o.encode k (o.decode k bs) = bs := by
  have hb : leNat (o.arrange bs) < 2 ^ (8 * k) := by
    rw [two_pow_bits, ← h, ← arrange_length o bs]
    exact leNat_lt _
  have hl : k = (o.arrange bs).length := by rw [arrange_length, h]
  rw [encode, decode, BitVec.toNat_ofNat, Nat.mod_eq_of_lt hb]
  conv_lhs => rw [hl, leBytes_leNat, arrange_arrange]

end ByteOrder

/-- A scalar type of at most eight bytes, as the bit pattern its values occupy. -/
structure Scalar (α : Type) where
  size : ℕ
  size_pos : 0 < size
  size_le : size ≤ 8
  bits : α ≃ BitVec (8 * size)

namespace Scalar

variable {α : Type} (o : ByteOrder) (t : Scalar α)

def encode (v : α) : List UInt8 := o.encode t.size (t.bits v)

def decode (bs : List UInt8) : α := t.bits.symm (o.decode t.size bs)

@[simp] theorem encode_length (v : α) : (t.encode o v).length = t.size := by
  simp [encode]

@[simp] theorem decode_encode (v : α) : t.decode o (t.encode o v) = v := by
  simp [decode, encode]

theorem encode_decode {bs : List UInt8} (h : bs.length = t.size) :
    t.encode o (t.decode o bs) = bs := by
  rw [encode, decode, Equiv.apply_symm_apply, ByteOrder.encode_decode o h]

end Scalar

/-- The bytes at and after a pointer, by offset. -/
def Mem := ℕ → UInt8

namespace Mem

def load (m : Mem) (off n : ℕ) : List UInt8 := (List.range n).map fun i => m (off + i)

def store (m : Mem) (off : ℕ) (bs : List UInt8) : Mem := fun i =>
  if off ≤ i then bs.getD (i - off) (m i) else m i

@[simp] theorem load_length (m : Mem) (off n : ℕ) : (m.load off n).length = n := by
  simp [load]

@[simp] theorem load_zero (m : Mem) (off : ℕ) : m.load off 0 = [] := rfl

@[simp] theorem getElem_load (m : Mem) (off n i : ℕ) (h : i < (m.load off n).length) :
    (m.load off n)[i] = m (off + i) := by
  simp [load]

theorem load_add (m : Mem) (off a b : ℕ) :
    m.load off (a + b) = m.load off a ++ m.load (off + a) b := by
  simp only [load, List.range_add, List.map_append, List.map_map]
  congr 1
  apply List.map_congr_left
  intro i _
  simp only [Function.comp, Nat.add_assoc]

theorem load_congr {m m' : Mem} {off n : ℕ} (h : ∀ i, off ≤ i → i < off + n → m i = m' i) :
    m.load off n = m'.load off n := by
  apply List.map_congr_left
  intro i hi
  exact h _ (Nat.le_add_right _ _) (by have := List.mem_range.mp hi; omega)

theorem store_of_lt (m : Mem) (bs : List UInt8) {off i : ℕ} (h : i < off) :
    m.store off bs i = m i := by
  rw [store, if_neg (by omega)]

/-- A store leaves every byte below it alone. -/
theorem load_store_below (m : Mem) (bs : List UInt8) {off at_ n : ℕ} (h : off + n ≤ at_) :
    (m.store at_ bs).load off n = m.load off n :=
  load_congr fun _ _ hi => store_of_lt m bs (by omega)

theorem load_store_self (m : Mem) (off : ℕ) (bs : List UInt8) :
    (m.store off bs).load off bs.length = bs := by
  apply List.ext_getElem (load_length _ _ _)
  intro i hi hi'
  rw [getElem_load, store, if_pos (Nat.le_add_right _ _), Nat.add_sub_cancel_left,
    List.getD_eq_getElem _ _ hi']

@[simp] theorem store_nil (m : Mem) (off : ℕ) : m.store off [] = m := by
  funext i
  simp [store]

/-- Two stores one after the other are one. -/
theorem store_append (m : Mem) (off : ℕ) (bs cs : List UInt8) :
    m.store off (bs ++ cs) = (m.store off bs).store (off + bs.length) cs := by
  funext i
  unfold store
  by_cases h : off + bs.length ≤ i
  · have hoff : off ≤ i := by omega
    rw [if_pos h, if_pos hoff, List.getD_append_right _ _ _ _ (by omega), if_pos hoff,
      List.getD_eq_default bs _ (by omega), Nat.sub_sub]
  · rw [if_neg h]
    by_cases hoff : off ≤ i
    · rw [if_pos hoff, if_pos hoff, List.getD_append _ _ _ _ (by omega)]
    · rw [if_neg hoff, if_neg hoff]

def ofList (bs : List UInt8) : Mem := fun i => bs.getD i 0

theorem load_ofList (bs : List UInt8) : (ofList bs).load 0 bs.length = bs := by
  apply List.ext_getElem (load_length _ _ _)
  intro i hi hi'
  rw [getElem_load, ofList, Nat.zero_add, List.getD_eq_getElem _ _ hi']

/-- Storing right after a used prefix appends to it. -/
theorem load_store_append (m : Mem) (off : ℕ) (bs : List UInt8) :
    (m.store off bs).load 0 (off + bs.length) = m.load 0 off ++ bs := by
  rw [load_add, load_store_below m bs (by omega), Nat.zero_add, load_store_self]

end Mem

end VmPlayback
