import VmPlayback.Handles

namespace VmPlayback.Sharing

/-- Buffers are numbered as they are allocated.  `own i` is the buffer in the hands
of `i`, `freed` are the deleted ones. -/
structure Owned {ι : Type} (own : ι → Option ℕ) (next : ℕ) (freed : List ℕ) : Prop where
  unique : ∀ i j a, own i = some a → own j = some a → i = j
  live : ∀ i a, own i = some a → a < next ∧ a ∉ freed
  freed_lt : ∀ a ∈ freed, a < next
  freed_nodup : freed.Nodup

namespace Owned

variable {ι : Type} {own : ι → Option ℕ} {next : ℕ} {freed : List ℕ} {i j : ι} {a : ℕ}

theorem none_owned : Owned (fun _ : ι => none) 0 [] where
  unique _ _ _ h := by cases h
  live _ _ h := by cases h
  freed_lt _ h := by cases h
  freed_nodup := List.nodup_nil

/-- A buffer that no one takes. -/
theorem leak (h : Owned own next freed) : Owned own (next + 1) freed where
  unique := h.unique
  live i a hi := ⟨Nat.lt_succ_of_lt (h.live i a hi).1, (h.live i a hi).2⟩
  freed_lt a ha := Nat.lt_succ_of_lt (h.freed_lt a ha)
  freed_nodup := h.freed_nodup

variable [DecidableEq ι]

/-- What `i` had is neither deleted nor in other hands, and may be forgotten. -/
theorem forget (h : Owned own next freed) (i : ι) :
    Owned (Function.update own i none) next freed where
  unique j k a hj hk := by
    rw [Function.update_apply] at hj hk
    split_ifs at hj hk
    exact h.unique j k a hj hk
  live j a hj := by
    rw [Function.update_apply] at hj
    split_ifs at hj
    exact h.live j a hj
  freed_lt := h.freed_lt
  freed_nodup := h.freed_nodup

/-- A buffer that is no one's comes into the hands of `i`. -/
theorem take (h : Owned own next freed) (i : ι) (hnone : ∀ j, j ≠ i → own j ≠ some a)
    (ha : a < next ∧ a ∉ freed) : Owned (Function.update own i (some a)) next freed where
  unique j k x hj hk := by
    rw [Function.update_apply] at hj hk
    split_ifs at hj hk with hji hki hki
    · rw [hji, hki]
    · exact absurd (hj ▸ hk) (hnone k hki)
    · exact absurd (hk ▸ hj) (hnone j hji)
    · exact h.unique j k x hj hk
  live j x hj := by
    rw [Function.update_apply] at hj
    split_ifs at hj
    · cases hj
      exact ha
    · exact h.live j x hj
  freed_lt := h.freed_lt
  freed_nodup := h.freed_nodup

theorem acquire (h : Owned own next freed) (i : ι) :
    Owned (Function.update own i (some next)) (next + 1) freed := by
  refine h.leak.take i ?_ ⟨Nat.lt_succ_self next, fun hf => Nat.lt_irrefl _ (h.freed_lt _ hf)⟩
  intro j _ hj
  exact Nat.lt_irrefl _ (h.live j next hj).1

theorem release (h : Owned own next freed) (hi : own i = some a) :
    Owned (Function.update own i none) next (a :: freed) where
  unique := (h.forget i).unique
  live j x hj := by
    refine ⟨((h.forget i).live j x hj).1, ?_⟩
    rw [Function.update_apply] at hj
    split_ifs at hj with hji
    rintro (_ | ⟨_, hx⟩)
    · exact hji (h.unique j i a hj hi)
    · exact (h.live j x hj).2 hx
  freed_lt x hx := by
    rcases List.mem_cons.mp hx with rfl | hx
    · exact (h.live i x hi).1
    · exact h.freed_lt x hx
  freed_nodup := List.nodup_cons.mpr ⟨(h.live i a hi).2, h.freed_nodup⟩

/-- A new buffer for `i`, and the old one deleted. -/
theorem renew (h : Owned own next freed) (hi : own i = some a) :
    Owned (Function.update own i (some next)) (next + 1) (a :: freed) := by
  have hnew := (h.release hi).acquire i
  rwa [Function.update_idem] at hnew

end Owned

open Handles

variable {κ β : Type} [DecidableEq β]

def referrers (refs : List (Option β)) (b : β) : ℕ := refs.count (some b)

section Referrers

variable {refs : List (Option β)} {i : ℕ} {b : β}

theorem referrers_le (refs : List (Option β)) (b : β) :
    referrers refs b ≤ refs.countP Option.isSome :=
  List.countP_mono_left fun x _ hx => by simp [beq_iff_eq.mp hx]

theorem referrers_pos_iff : 0 < referrers refs b ↔ some b ∈ refs := List.count_pos_iff

theorem referrers_push (refs : List (Option β)) (b : β) :
    referrers (refs ++ [some b]) = Function.update (referrers refs) b (referrers refs b + 1) := by
  funext x
  by_cases hx : x = b
  · simp [hx, referrers]
  · simp [referrers, Function.update_of_ne hx, Ne.symm hx]

theorem referrers_set {r : Option β} (hi : refs[i]? = some r) (r' : Option β) (x : β) :
    referrers (refs.set i r') x =
      referrers refs x - (if r = some x then 1 else 0) + if r' = some x then 1 else 0 := by
  obtain ⟨hlt, rfl⟩ := List.getElem?_eq_some_iff.mp hi
  simp only [referrers, List.count_set hlt, beq_iff_eq]

theorem referrers_clear (hi : refs[i]? = some (some b)) :
    referrers (refs.set i none) = Function.update (referrers refs) b (referrers refs b - 1) := by
  funext x
  rw [referrers_set hi]
  by_cases hx : x = b
  · simp [hx]
  · simp [Function.update_of_ne hx, Ne.symm hx]

theorem referrers_fill (hi : refs[i]? = some none) (b : β) :
    referrers (refs.set i (some b)) =
      Function.update (referrers refs) b (referrers refs b + 1) := by
  funext x
  rw [referrers_set hi]
  by_cases hx : x = b
  · simp [hx]
  · simp [Function.update_of_ne hx, Ne.symm hx]

end Referrers

/-- The history of the targets, the counts they keep and the references there are:
what is referred to is held, and its count is right. -/
structure Exact (refs count : β → ℕ) (h : List (Access κ β)) : Prop where
  disciplined : Disciplined h
  held_iff : ∀ b, b ∈ held h ↔ 0 < refs b
  count_eq : ∀ b, 0 < refs b → count b = refs b

namespace Exact

variable {refs count : β → ℕ} {h : List (Access κ β)} {b : β}

theorem none_referred : Exact (fun _ => 0) count ([] : List (Access κ β)) where
  disciplined := trivial
  held_iff b := by simp [held]
  count_eq _ hb := absurd hb (Nat.lt_irrefl 0)

theorem mem_held (he : Exact refs count h) (hb : 0 < refs b) : b ∈ held h :=
  (he.held_iff b).mpr hb

theorem count_update (he : Exact refs count h) {n m : ℕ} (hnm : 0 < n → m = n) (x : β)
    (hx : 0 < Function.update refs b n x) :
    Function.update count b m x = Function.update refs b n x := by
  rw [Function.update_apply] at hx ⊢
  rw [Function.update_apply]
  split_ifs at hx ⊢ with hxb
  · exact hnm hx
  · exact he.count_eq x hx

/-- A new target, with the reference that comes with it. -/
theorem acquire (he : Exact refs count h) (hnew : .acquire b ∉ h) :
    Exact (Function.update refs b 1) (Function.update count b 1) (.acquire b :: h) where
  disciplined := ⟨he.disciplined, hnew⟩
  held_iff x := by
    rw [mem_held_acquire, he.held_iff, Function.update_apply]
    split_ifs with hx <;> simp [hx]
  count_eq := he.count_update fun _ => rfl

theorem use (he : Exact refs count h) (kind : κ) (hb : 0 < refs b) :
    Exact refs count (.use kind b :: h) where
  disciplined := ⟨he.disciplined, he.mem_held hb⟩
  held_iff := he.held_iff
  count_eq := he.count_eq

/-- References to `b` come and go, but some remain. -/
theorem recount (he : Exact refs count h) (kind : κ) (hb : 0 < refs b) {n : ℕ} (hn : 0 < n) :
    Exact (Function.update refs b n) (Function.update count b n) (.use kind b :: h) where
  disciplined := (he.use kind hb).disciplined
  held_iff x := by
    rw [(he.use kind hb).held_iff, Function.update_apply]
    split_ifs with hx
    · rw [hx]
      exact iff_of_true hb hn
    · exact Iff.rfl
  count_eq := he.count_update fun _ => rfl

/-- The last reference goes, and the target with it. -/
theorem release (he : Exact refs count h) (kind : κ) (hb : 0 < refs b) (n : ℕ) :
    Exact (Function.update refs b 0) (Function.update count b n)
      (.release b :: .use kind b :: h) where
  disciplined := ⟨(he.use kind hb).disciplined, he.mem_held hb⟩
  held_iff x := by
    rw [mem_held_release, (he.use kind hb).held_iff, Function.update_apply]
    split_ifs with hx <;> simp [hx]
  count_eq := he.count_update fun h => absurd h (Nat.lt_irrefl 0)

end Exact

end VmPlayback.Sharing
