import Mathlib.Tactic

namespace VmPlayback.Handles

/-- An access to a handle of type `α`; `κ` tells the kinds of use apart. -/
inductive Access (κ α : Type) where
  | acquire (a : α)
  | use (kind : κ) (a : α)
  | release (a : α)
  deriving DecidableEq

variable {κ α : Type} [DecidableEq α]

def held : List (Access κ α) → List α
  | [] => []
  | .acquire a :: h => a :: held h
  | .use _ _ :: h => held h
  | .release a :: h => (held h).filter (· ≠ a)

def Disciplined : List (Access κ α) → Prop
  | [] => True
  | .acquire a :: h => Disciplined h ∧ .acquire a ∉ h
  | .use _ a :: h => Disciplined h ∧ a ∈ held h
  | .release a :: h => Disciplined h ∧ a ∈ held h

variable {h pre : List (Access κ α)} {a b : α}

@[simp] theorem mem_held_acquire : b ∈ held (.acquire a :: h) ↔ b = a ∨ b ∈ held h :=
  List.mem_cons

@[simp] theorem held_use {kind : κ} : held (.use kind a :: h) = held h := rfl

@[simp] theorem mem_held_release : b ∈ held (.release a :: h) ↔ b ∈ held h ∧ b ≠ a := by
  simp [held]

theorem acquire_mem_of_held (ha : a ∈ held h) : .acquire a ∈ h := by
  induction h with
  | nil => cases ha
  | cons x h ih =>
    cases x with
    | acquire b =>
      rcases mem_held_acquire.mp ha with rfl | ha
      · exact List.mem_cons_self
      · exact List.mem_cons_of_mem _ (ih ha)
    | use kind b => exact List.mem_cons_of_mem _ (ih ha)
    | release b => exact List.mem_cons_of_mem _ (ih (mem_held_release.mp ha).1)

theorem Disciplined.tail {x : Access κ α} (hd : Disciplined (x :: h)) : Disciplined h := by
  cases x with
  | acquire a => exact hd.1
  | use kind a => exact hd.1
  | release a => exact hd.1

theorem Disciplined.suffix (hd : Disciplined h) (hs : pre <:+ h) : Disciplined pre := by
  obtain ⟨post, rfl⟩ := hs
  induction post with
  | nil => exact hd
  | cons x post ih => exact ih hd.tail

theorem Disciplined.acquire_mem_of_released (hd : Disciplined h) (hr : .release a ∈ h) :
    .acquire a ∈ h := by
  induction h with
  | nil => cases hr
  | cons x h ih =>
    rcases List.mem_cons.mp hr with rfl | hr
    · exact List.mem_cons_of_mem _ (acquire_mem_of_held hd.2)
    · exact List.mem_cons_of_mem _ (ih hd.tail hr)

/-- Once released, never held again. -/
theorem Disciplined.not_held_of_released (hd : Disciplined h) (hr : .release a ∈ h) :
    a ∉ held h := by
  induction h with
  | nil => cases hr
  | cons x h ih =>
    cases x with
    | acquire b =>
      have hrel : .release a ∈ h := by simpa using hr
      intro ha
      rcases mem_held_acquire.mp ha with rfl | ha
      · -- a released handle has been acquired before, so it is not new
        exact hd.2 (hd.1.acquire_mem_of_released hrel)
      · exact ih hd.1 hrel ha
    | use kind b =>
      have hrel : .release a ∈ h := by simpa using hr
      exact ih hd.1 hrel
    | release b =>
      intro ha
      obtain ⟨ha, hne⟩ := mem_held_release.mp ha
      rcases List.mem_cons.mp hr with hab | hr
      · exact hne (Access.release.inj hab)
      · exact ih hd.1 hr ha

theorem Disciplined.released_once (hd : Disciplined h) (hs : .release a :: pre <:+ h) :
    .release a ∉ pre := by
  have hpre := hd.suffix hs
  intro hr
  exact hpre.1.not_held_of_released hr hpre.2

theorem Disciplined.no_use_after_release (hd : Disciplined h) {kind : κ}
    (hs : .use kind a :: pre <:+ h) : .release a ∉ pre := by
  have hpre := hd.suffix hs
  intro hr
  exact hpre.1.not_held_of_released hr hpre.2

theorem held_or_released (ha : .acquire a ∈ h) : a ∈ held h ∨ .release a ∈ h := by
  induction h with
  | nil => cases ha
  | cons x h ih =>
    rcases List.mem_cons.mp ha with rfl | ha
    · exact Or.inl (mem_held_acquire.mpr (Or.inl rfl))
    · rcases ih ha with hheld | hr
      · cases x with
        | acquire b => exact Or.inl (mem_held_acquire.mpr (Or.inr hheld))
        | use kind b => exact Or.inl hheld
        | release b =>
          by_cases hab : a = b
          · exact Or.inr (hab ▸ List.mem_cons_self)
          · exact Or.inl (mem_held_release.mpr ⟨hheld, hab⟩)
      · exact Or.inr (List.mem_cons_of_mem _ hr)

theorem Disciplined.release_mem_iff (hd : Disciplined h) (ha : .acquire a ∈ h) :
    .release a ∈ h ↔ a ∉ held h :=
  ⟨hd.not_held_of_released, fun hn => (held_or_released ha).resolve_left hn⟩

theorem Disciplined.count_release_le [DecidableEq κ] (hd : Disciplined h) (a : α) :
    h.count (.release a) ≤ 1 := by
  induction h with
  | nil => exact Nat.zero_le 1
  | cons x h ih =>
    by_cases hx : x = .release a
    · subst hx
      have hnot : .release a ∉ h := fun hr => hd.1.not_held_of_released hr hd.2
      rw [List.count_cons_self, List.count_eq_zero_of_not_mem hnot]
    · rw [List.count_cons_of_ne hx]
      exact ih hd.tail

/-- All handles go through one place, and `slot` is what it holds: no two of them
have ever been out at the same time. -/
structure Slotted (h : List (Access κ α)) (slot : Option α) : Prop where
  disciplined : Disciplined h
  held_eq : held h = slot.toList
  single : ∀ pre, pre <:+ h → (held pre).length ≤ 1

namespace Slotted

variable {slot slot' : Option α}

theorem nil : Slotted ([] : List (Access κ α)) none where
  disciplined := trivial
  held_eq := rfl
  single pre hpre := by simp [List.suffix_nil.mp hpre, held]

theorem cons {x : Access κ α} (hs : Slotted h slot) (hd : Disciplined (x :: h))
    (he : held (x :: h) = slot'.toList) : Slotted (x :: h) slot' where
  disciplined := hd
  held_eq := he
  single pre hpre := by
    rcases List.suffix_cons_iff.mp hpre with rfl | hpre
    · rw [he]
      exact Option.length_toList_le
    · exact hs.single pre hpre

theorem acquire (hs : Slotted h none) (hnew : .acquire a ∉ h) :
    Slotted (.acquire a :: h) (some a) :=
  hs.cons ⟨hs.disciplined, hnew⟩ (by simp [held, hs.held_eq])

theorem mem_held (hs : Slotted h (some a)) : a ∈ held h := by simp [hs.held_eq]

theorem use (hs : Slotted h (some a)) (kind : κ) : Slotted (.use kind a :: h) (some a) :=
  hs.cons ⟨hs.disciplined, hs.mem_held⟩ hs.held_eq

theorem release (hs : Slotted h (some a)) : Slotted (.release a :: h) none :=
  hs.cons ⟨hs.disciplined, hs.mem_held⟩ (by simp [held, hs.held_eq])

end Slotted

end VmPlayback.Handles
