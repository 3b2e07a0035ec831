import Mathlib.Tactic

namespace VmPlayback.Exec

universe u
variable {ε σ α β : Type u}

theorem run_bind (x : EStateM ε σ α) (f : α → EStateM ε σ β) (s : σ) :
    (x >>= f) s = match x s with
      | .ok a s' => f a s'
      | .error e s' => .error e s' := rfl

theorem run_pure (a : α) (s : σ) : (pure a : EStateM ε σ α) s = .ok a s := rfl

theorem run_get (s : σ) : (get : EStateM ε σ σ) s = .ok s s := rfl

theorem run_set {ε σ : Type} (s s' : σ) : (set s' : EStateM ε σ Unit) s = .ok () s' := rfl

theorem run_modify {ε σ : Type} (f : σ → σ) (s : σ) :
    (modify f : EStateM ε σ Unit) s = .ok () (f s) := rfl

theorem run_throw (e : ε) (s : σ) : (throw e : EStateM ε σ α) s = .error e s := rfl

theorem run_ite (c : Prop) [Decidable c] (x y : EStateM ε σ α) (s : σ) :
    (if c then x else y) s = if c then x s else y s := by
  split <;> rfl

theorem run_map (f : α → β) (x : EStateM ε σ α) (s : σ) :
    (f <$> x) s = match x s with
      | .ok a s' => .ok (f a) s'
      | .error e s' => .error e s' := rfl

theorem run_map_ok {f : α → β} {x : EStateM ε σ α} {s s' : σ} {b : β} :
    (f <$> x) s = .ok b s' ↔ ∃ a, x s = .ok a s' ∧ f a = b := by
  rw [run_map]
  cases x s <;> simp [and_comm]

theorem run_map_error {f : α → β} {x : EStateM ε σ α} {s s' : σ} {e : ε} :
    (f <$> x) s = .error e s' ↔ x s = .error e s' := by
  rw [run_map]
  cases x s <;> simp

theorem run_mapM_cons_ok {f : α → EStateM ε σ β} {a : α} {as : List α} {s s' : σ} {bs : List β} :
    (a :: as).mapM f s = .ok bs s' ↔
      ∃ b s₁ cs, f a s = .ok b s₁ ∧ as.mapM f s₁ = .ok cs s' ∧ b :: cs = bs := by
  simp only [List.mapM_cons, run_bind, run_pure]
  cases f a s with
  | error e s₁ => simp
  | ok b s₁ =>
    cases h : as.mapM f s₁ with
    | error e s₂ => simp [h]
    | ok cs s₂ => simp [h, and_comm]

def final : EStateM.Result ε σ α → σ
  | .ok _ s => s
  | .error _ s => s

@[simp] theorem final_ok (a : α) (s : σ) : final (.ok a s : EStateM.Result ε σ α) = s := rfl

@[simp] theorem final_error (e : ε) (s : σ) : final (.error e s : EStateM.Result ε σ α) = s := rfl

/-- `I` is kept, whether the program returns or throws. -/
def Keeps (I : σ → Prop) (x : EStateM ε σ α) : Prop := ∀ s, I s → I (final (x s))

theorem Keeps.bind {I : σ → Prop} {x : EStateM ε σ α} {f : α → EStateM ε σ β}
    (hx : Keeps I x) (hf : ∀ a, Keeps I (f a)) : Keeps I (x >>= f) := by
  intro s hs
  have h := hx s hs
  rw [run_bind]
  cases hrun : x s with
  | ok a s' =>
    rw [hrun] at h
    exact hf a s' h
  | error e s' =>
    rw [hrun] at h
    exact h

theorem Keeps.pure {I : σ → Prop} (a : α) : Keeps I (pure a : EStateM ε σ α) := fun _ hs => hs

theorem Keeps.throw {I : σ → Prop} (e : ε) : Keeps I (throw e : EStateM ε σ α) := fun _ hs => hs

theorem Keeps.ite {I : σ → Prop} {c : Prop} [Decidable c] {x y : EStateM ε σ α}
    (hx : Keeps I x) (hy : Keeps I y) : Keeps I (if c then x else y) := by
  split
  · exact hx
  · exact hy

end VmPlayback.Exec
