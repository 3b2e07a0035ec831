import Mathlib

namespace VmPlayback.Redraw

variable {M ι π γ : Type*} (draw : M → ι → γ) (rows : Set ι) (pages : ι → Set π)

/-- A row none of whose pages is marked shows what the memory holds. -/
def Fresh (dirty : Set π) (m : M) (shown : ι → γ) : Prop :=
  ∀ i ∈ rows, Disjoint (pages i) dirty → shown i = draw m i

variable {draw rows pages} {dirty dirty' : Set π} {m m' : M} {shown shown' : ι → γ}

/-- Marks may be added, as long as every page that was written gets one. -/
theorem Fresh.write (h : Fresh draw rows pages dirty m shown) (hmono : dirty ⊆ dirty')
    (hdep : ∀ i ∈ rows, Disjoint (pages i) dirty' → draw m' i = draw m i) :
    Fresh draw rows pages dirty' m' shown := by
  intro i hi hclean
  rw [h i hi (hclean.mono_right hmono), hdep i hi hclean]

/-- Where everything is as the memory has it, no mark is needed. -/
theorem fresh_of_forall (h : ∀ i ∈ rows, shown i = draw m i) (dirty : Set π) :
    Fresh draw rows pages dirty m shown := fun i hi _ => h i hi

def Spans (runs : List (ℕ × ℕ)) (z : ℕ) : Prop := ∃ r ∈ runs, r.1 ≤ z ∧ z < r.1 + r.2

@[simp] theorem spans_nil (z : ℕ) : ¬ Spans [] z := by simp [Spans]

@[simp] theorem spans_singleton (r : ℕ × ℕ) (z : ℕ) :
    Spans [r] z ↔ r.1 ≤ z ∧ z < r.1 + r.2 := by simp [Spans]

@[simp] theorem spans_append (runs runs' : List (ℕ × ℕ)) (z : ℕ) :
    Spans (runs ++ runs') z ↔ Spans runs z ∨ Spans runs' z := by
  simp only [Spans, List.mem_append, or_and_right, exists_or]

/-- The runs of marked rows below `n`, each as long as it gets. -/
structure Maximal (flag : ℕ → Bool) (n : ℕ) (runs : List (ℕ × ℕ)) : Prop where
  spans : ∀ z, Spans runs z ↔ z < n ∧ flag z = true
  nonempty : ∀ r ∈ runs, 0 < r.2
  apart : runs.Pairwise fun r r' => r.1 + r.2 < r'.1

structure Tiled (flag : ℕ → Bool) (n : ℕ) (start : Option ℕ) (runs : List (ℕ × ℕ)) : Prop where
  maximal : Maximal flag (start.getD n) runs
  open_lt : ∀ y, start = some y → y < n
  open_marked : ∀ y, start = some y → ∀ z, y ≤ z → z < n → flag z = true
  done_lt : ∀ r ∈ runs, r.1 + r.2 < start.getD n

variable {flag : ℕ → Bool} {n : ℕ} {start : Option ℕ} {runs : List (ℕ × ℕ)}

theorem tiled_zero : Tiled flag 0 none [] where
  maximal := ⟨by simp, by simp, .nil⟩
  open_lt := by simp
  open_marked := by simp
  done_lt := by simp

theorem Tiled.mark (h : Tiled flag n start runs) (hn : flag n = true) :
    Tiled flag (n + 1) (some (start.getD n)) runs where
  maximal := h.maximal
  open_lt := by
    rintro y ⟨⟩
    cases start with
    | none => exact Nat.lt_succ_self n
    | some y => exact Nat.lt_succ_of_lt (h.open_lt y rfl)
  open_marked := by
    rintro y ⟨⟩ z hle hlt
    rcases Nat.lt_succ_iff_lt_or_eq.mp hlt with hz | rfl
    · cases start with
      | none => exact absurd hz (Nat.not_lt.mpr hle)
      | some y => exact h.open_marked y rfl z hle hz
    · exact hn
  done_lt := h.done_lt

/-- The open run is closed at row `n`, whatever that row is. -/
theorem Tiled.close (h : Tiled flag n start runs) :
    Maximal flag n (runs ++ (start.map fun y => (y, n - y)).toList) := by
  cases start with
  | none => simpa using h.maximal
  | some y =>
    have hy : y < n := h.open_lt y rfl
    have hmarked := h.open_marked y rfl
    refine ⟨fun z => ?_, ?_, ?_⟩
    · have hz := h.maximal.spans z
      simp only [Option.getD_some] at hz
      simp only [Option.map_some, Option.toList_some, spans_append, spans_singleton, hz]
      constructor
      · rintro (⟨hlt, hf⟩ | ⟨hle, hlt⟩)
        · exact ⟨hlt.trans hy, hf⟩
        · exact ⟨by omega, hmarked z hle (by omega)⟩
      · rintro ⟨hlt, hf⟩
        rcases Nat.lt_or_ge z y with hzy | hyz
        · exact .inl ⟨hzy, hf⟩
        · exact .inr ⟨hyz, by omega⟩
    · intro r hr
      rcases List.mem_append.mp hr with hr | hr
      · exact h.maximal.nonempty r hr
      · simp only [Option.map_some, Option.toList_some, List.mem_singleton] at hr
        subst hr
        exact Nat.sub_pos_of_lt hy
    · rw [List.pairwise_append]
      refine ⟨h.maximal.apart, by simp, fun r hr r' hr' => ?_⟩
      simp only [Option.map_some, Option.toList_some, List.mem_singleton] at hr'
      subst hr'
      exact h.done_lt r hr

theorem Tiled.skip (h : Tiled flag n start runs) (hn : flag n = false) :
    Tiled flag (n + 1) none (runs ++ (start.map fun y => (y, n - y)).toList) where
  maximal := by
    obtain ⟨hspans, hpos, hapart⟩ := h.close
    refine ⟨fun z => ?_, hpos, hapart⟩
    rw [hspans, Option.getD_none]
    constructor
    · rintro ⟨hlt, hf⟩
      exact ⟨by omega, hf⟩
    · rintro ⟨hlt, hf⟩
      refine ⟨?_, hf⟩
      rcases Nat.lt_succ_iff_lt_or_eq.mp hlt with hz | rfl
      · exact hz
      · rw [hn] at hf
        cases hf
  open_lt := by simp
  open_marked := by simp
  done_lt := by
    intro r hr
    -- the last row of a run is marked, so the run ends at row `n` at the latest
    have hpos := h.close.nonempty r hr
    have hlast := (h.close.spans (r.1 + r.2 - 1)).mp ⟨r, hr, by omega, by omega⟩
    simp only [Option.getD_none]
    omega

end VmPlayback.Redraw
