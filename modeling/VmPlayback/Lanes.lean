import Mathlib.Tactic
import VmPlayback.Bytes

namespace VmPlayback

variable {k : ℕ}

/-- Which byte of a word, counted from the least significant, stands at offset `p`. -/
def ByteOrder.position (o : ByteOrder) (p : Fin k) : ℕ :=
  match o with
  | little => p
  | big => k - 1 - p

theorem ByteOrder.position_lt (o : ByteOrder) (p : Fin k) : o.position p < k := by
  have hp := p.isLt
  cases o with
  | little => exact hp
  | big => rw [position]; omega

/-- Every byte stands somewhere. -/
theorem ByteOrder.exists_position (o : ByteOrder) {i : ℕ} (h : i < k) :
    ∃ p : Fin k, o.position p = i := by
  cases o with
  | little => exact ⟨⟨i, h⟩, rfl⟩
  | big =>
    refine ⟨⟨k - 1 - i, by omega⟩, ?_⟩
    simp only [position]
    omega

def lane (o : ByteOrder) (w : BitVec (8 * k)) (p : Fin k) : UInt8 :=
  ⟨w.extractLsb' (8 * o.position p) 8⟩

variable (o : ByteOrder) (p : Fin k)

theorem getElem_leBytes (n v i : ℕ) (h : i < (leBytes n v).length) :
    (leBytes n v)[i] = UInt8.ofNat (v / 256 ^ i) := by
  induction n generalizing v i with
  | zero => simp [leBytes] at h
  | succ n ih =>
    cases i with
    | zero => simp [leBytes]
    | succ i =>
      simp only [leBytes, List.getElem_cons_succ]
      rw [ih, Nat.div_div_eq_div_mul, pow_succ']

theorem ofNat_div_eq_extract (w : BitVec (8 * k)) (i : ℕ) :
    UInt8.ofNat (w.toNat / 256 ^ i) = ⟨w.extractLsb' (8 * i) 8⟩ := by
  apply UInt8.toNat_inj.mp
  rw [UInt8.toNat_ofNat', ← ByteOrder.two_pow_bits, UInt8.toNat_ofBitVec, BitVec.extractLsb'_toNat,
    Nat.shiftRight_eq_div_pow]

/-- The bytes a word is laid out as are its lanes, in order. -/
theorem getElem_encode (w : BitVec (8 * k)) (h : p.val < (o.encode k w).length) :
    (o.encode k w)[p.val] = lane o w p := by
  cases o with
  | little => exact (getElem_leBytes _ _ _ _).trans (ofNat_div_eq_extract w p)
  | big =>
    simp only [ByteOrder.encode, ByteOrder.arrange, List.getElem_reverse, getElem_leBytes,
      leBytes_length]
    exact ofNat_div_eq_extract w _

namespace Mem

theorem store_singleton (m : Mem) (off : ℕ) (b : UInt8) (i : ℕ) :
    m.store off [b] i = if i = off then b else m i := by
  unfold store
  rcases Nat.lt_trichotomy i off with h | rfl | h
  · rw [if_neg (by omega), if_neg (by omega)]
  · simp
  · rw [if_pos h.le, if_neg (by omega)]
    exact List.getD_eq_default _ _ (by simp only [List.length_singleton]; omega)

theorem store_replicate (m : Mem) (n : ℕ) (b : UInt8) (i : ℕ) :
    m.store 0 (List.replicate n b) i = if i < n then b else m i := by
  rw [store, if_pos (Nat.zero_le i), Nat.sub_zero]
  by_cases h : i < n
  · rw [if_pos h, List.getD_eq_getElem _ _ (by simpa using h), List.getElem_replicate]
  · rw [if_neg h, List.getD_eq_default _ _ (by simpa using h)]

def loadWord (m : Mem) (off : ℕ) : BitVec (8 * k) := o.decode k (m.load off k)

def storeWord (m : Mem) (off : ℕ) (w : BitVec (8 * k)) : Mem := m.store off (o.encode k w)

theorem lane_loadWord (m : Mem) (off : ℕ) : lane o (m.loadWord o off) p = m (off + p) := by
  have hlen : (m.load off k).length = k := load_length m off k
  rw [← getElem_encode o p _ (by simp)]
  simp only [loadWord, ByteOrder.encode_decode o hlen, getElem_load]

theorem storeWord_apply (m : Mem) (off : ℕ) (w : BitVec (8 * k)) :
    m.storeWord o off w (off + p) = lane o w p := by
  rw [storeWord, store, if_pos (Nat.le_add_right _ _), Nat.add_sub_cancel_left,
    List.getD_eq_getElem _ _ (by simp), getElem_encode]

theorem storeWord_of_ne (m : Mem) {off i : ℕ} (w : BitVec (8 * k))
    (h : ∀ p : Fin k, i ≠ off + p) : m.storeWord o off w i = m i := by
  rw [storeWord, store]
  split
  · next hle =>
    apply List.getD_eq_default
    rw [ByteOrder.encode_length]
    by_contra hlt
    exact h ⟨i - off, by omega⟩ (by simp only; omega)
  · rfl

end Mem

end VmPlayback
