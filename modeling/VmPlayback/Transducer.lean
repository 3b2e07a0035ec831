import Mathlib.Tactic
import VmPlayback.Runs

namespace VmPlayback.Transducer

variable {S T E O F : Type*}

section

universe u v
variable {ε : Type u} {α β : Type v}

@[simp] theorem ok_bind (a : α) (f : α → Except ε β) : (Except.ok a >>= f) = f a := rfl

@[simp] theorem error_bind (e : ε) (f : α → Except ε β) :
    ((Except.error e : Except ε α) >>= f) = .error e := rfl

@[simp] theorem pure_eq_ok (a : α) : (pure a : Except ε α) = .ok a := rfl

theorem ok_ne_error (a : α) : ¬ ∃ e : ε, (Except.ok a : Except ε α) = .error e := by
  rintro ⟨e, he⟩
  cases he

theorem bind_pure_error_iff {x : Except ε α} {f : α → β} :
    (∃ e, (x >>= fun a => pure (f a)) = .error e) ↔ ∃ e, x = .error e := by
  cases x with
  | error e => exact iff_of_true ⟨e, rfl⟩ ⟨e, rfl⟩
  | ok a => exact iff_of_false (ok_ne_error _) (ok_ne_error _)

theorem bind_ok {x : Except ε α} {f : α → Except ε β} {b : β} (h : (x >>= f) = .ok b) :
    ∃ a, x = .ok a ∧ f a = .ok b := by
  cases x with
  | error e => cases h
  | ok a => exact ⟨a, rfl, h⟩

end

/-- The answers of a run and the state after it; the first fault ends it. -/
def run (step : S → E → Except F (O × S)) (s : S) : List E → Except F (List O × S)
  | [] => .ok ([], s)
  | e :: es =>
    match step s e with
    | .error f => .error f
    | .ok (o, s') =>
      match run step s' es with
      | .error f => .error f
      | .ok (os, s'') => .ok (o :: os, s'')

variable {step : S → E → Except F (O × S)} {s s' : S} {e : E} {es es' : List E}

theorem run_cons_ok {os : List O} :
    run step s (e :: es) = .ok (os, s') ↔
      ∃ o s₁ os', step s e = .ok (o, s₁) ∧ run step s₁ es = .ok (os', s') ∧ os = o :: os' := by
  rw [run]
  cases hstep : step s e with
  | error f => simp
  | ok r =>
    obtain ⟨o, s₁⟩ := r
    simp only [Except.ok.injEq, Prod.mk.injEq]
    cases hrun : run step s₁ es with
    | error f =>
      simp only [reduceCtorEq, false_iff]
      rintro ⟨o', s₂, os', ⟨rfl, rfl⟩, h, -⟩
      rw [hrun] at h
      cases h
    | ok r' =>
      obtain ⟨os', s₂⟩ := r'
      simp only [Except.ok.injEq, Prod.mk.injEq]
      constructor
      · rintro ⟨rfl, rfl⟩
        exact ⟨o, s₁, os', ⟨rfl, rfl⟩, hrun, rfl⟩
      · rintro ⟨o', s₃, os'', ⟨rfl, rfl⟩, h, rfl⟩
        rw [hrun] at h
        cases h
        exact ⟨rfl, rfl⟩

/-- What every answered request keeps holds after every run. -/
theorem run_invariant {J : S → Prop}
    (hstep : ∀ s e o s', J s → step s e = .ok (o, s') → J s') {os : List O} (h : J s)
    (hrun : run step s es = .ok (os, s')) : J s' := by
  induction es generalizing s os with
  | nil =>
    cases hrun
    exact h
  | cons e es ih =>
    obtain ⟨o, s₁, os', hone, hrest, -⟩ := run_cons_ok.mp hrun
    exact ih (hstep s e o s₁ h hone) hrest

theorem run_append_ok {os : List O} :
    run step s (es ++ es') = .ok (os, s') ↔
      ∃ os₁ s₁ os₂, run step s es = .ok (os₁, s₁) ∧ run step s₁ es' = .ok (os₂, s') ∧
        os = os₁ ++ os₂ := by
  induction es generalizing s os with
  | nil =>
    constructor
    · intro h
      exact ⟨[], s, os, rfl, h, rfl⟩
    · rintro ⟨os₁, s₁, os₂, hnil, h, rfl⟩
      cases hnil
      exact h
  | cons e es ih =>
    rw [List.cons_append, run_cons_ok]
    constructor
    · rintro ⟨o, s₂, os', hone, hrest, rfl⟩
      obtain ⟨os₁, s₁, os₂, hes, hes', rfl⟩ := ih.mp hrest
      exact ⟨o :: os₁, s₁, os₂, run_cons_ok.mpr ⟨o, s₂, os₁, hone, hes, rfl⟩, hes', rfl⟩
    · rintro ⟨os₁, s₁, os₂, hes, hes', rfl⟩
      obtain ⟨o, s₂, os', hone, hrest, rfl⟩ := run_cons_ok.mp hes
      exact ⟨o, s₂, os' ++ os₂, hone, ih.mpr ⟨os', s₁, os₂, hrest, hes', rfl⟩, rfl⟩

/-- Every request of the run meets `P` in the state it is put to. -/
def Throughout (step : S → E → Except F (O × S)) (P : S → E → Prop) (s : S) : List E → Prop
  | [] => True
  | e :: es => P s e ∧
    match step s e with
    | .ok (_, s') => Throughout step P s' es
    | .error _ => True

instance Throughout.decidable (step : S → E → Except F (O × S)) (P : S → E → Prop)
    [∀ s e, Decidable (P s e)] :
    ∀ (s : S) (es : List E), Decidable (Throughout step P s es)
  | _, [] => isTrue trivial
  | s, e :: es =>
    have : Decidable (match step s e with
        | .ok (_, s') => Throughout step P s' es
        | .error _ => True) :=
      match step s e with
      | .ok (_, s') => Throughout.decidable step P s' es
      | .error _ => isTrue trivial
    inferInstanceAs (Decidable (_ ∧ _))

theorem Throughout.tail {P : S → E → Prop} (h : Throughout step P s (e :: es)) {o : O}
    (hone : step s e = .ok (o, s')) : Throughout step P s' es := by
  have hrest := h.2
  rwa [hone] at hrest

/-- Only the requests that meet `P` need to keep the invariant when all of them do. -/
theorem Throughout.invariant {P : S → E → Prop} {J : S → Prop}
    (hstep : ∀ s e o s', J s → P s e → step s e = .ok (o, s') → J s') (h : J s)
    (hp : Throughout step P s es) {os : List O} (hrun : run step s es = .ok (os, s')) : J s' := by
  induction es generalizing s os with
  | nil =>
    cases hrun
    exact h
  | cons e es ih =>
    obtain ⟨o, s₁, os', hone, hrest, -⟩ := run_cons_ok.mp hrun
    exact ih (hstep s e o s₁ h hp.1 hone) (Throughout.tail hp hone) hrest

/-- The last request of a run meets `P` too. -/
theorem Throughout.append {P : S → E → Prop} (hp : Throughout step P s (es ++ es')) {os : List O}
    (hrun : run step s es = .ok (os, s')) :
    Throughout step P s es ∧ Throughout step P s' es' := by
  induction es generalizing s os with
  | nil =>
    cases hrun
    exact ⟨trivial, hp⟩
  | cons e es ih =>
    obtain ⟨o, s₁, os', hone, hrest, -⟩ := run_cons_ok.mp hrun
    obtain ⟨hes, hes'⟩ := ih (Throughout.tail hp hone) hrest
    refine ⟨⟨hp.1, ?_⟩, hes'⟩
    rw [hone]
    exact hes

/-- A run faults at one request, after the requests before it were answered. -/
theorem run_error_iff :
    (∃ f, run step s es = .error f) ↔
      ∃ pre e post os s' f, es = pre ++ e :: post ∧ run step s pre = .ok (os, s') ∧
        step s' e = .error f := by
  induction es generalizing s with
  | nil => simp [run]
  | cons e es ih =>
    constructor
    · rintro ⟨f, hf⟩
      cases hstep : step s e with
      | error f' => exact ⟨[], e, es, [], s, f', rfl, rfl, hstep⟩
      | ok r =>
        obtain ⟨o, s₁⟩ := r
        have hrest : ∃ f, run step s₁ es = .error f := by
          rw [run, hstep] at hf
          cases hes : run step s₁ es with
          | error f' => exact ⟨f', rfl⟩
          | ok r' => simp [hes] at hf
        obtain ⟨pre, e', post, os, s', f', rfl, hpre, hfault⟩ := ih.mp hrest
        refine ⟨e :: pre, e', post, o :: os, s', f', rfl, ?_, hfault⟩
        exact run_cons_ok.mpr ⟨o, s₁, os, hstep, hpre, rfl⟩
    · rintro ⟨pre, e', post, os, s', f, hes, hpre, hfault⟩
      cases pre with
      | nil =>
        cases hpre
        obtain ⟨rfl, rfl⟩ := List.cons.inj hes
        exact ⟨f, by rw [run, hfault]⟩
      | cons x pre =>
        obtain ⟨rfl, rfl⟩ := List.cons.inj hes
        obtain ⟨o, s₁, os', hone, hrest, -⟩ := run_cons_ok.mp hpre
        obtain ⟨f', hf'⟩ := ih.mpr ⟨pre, e', post, os', s', f, rfl, hrest, hfault⟩
        exact ⟨f', by rw [run, hone]; simp only [hf']⟩

/-- Two machines that fault together, and answer alike until then. -/
theorem run_bisimulation (step' : T → E → Except F (O × T)) {R : S → T → Prop}
    (hstep : ∀ s t e, R s t → (∃ f f', step s e = .error f ∧ step' t e = .error f') ∨
      ∃ o s' t', step s e = .ok (o, s') ∧ step' t e = .ok (o, t') ∧ R s' t') {t : T} (h : R s t)
    (es : List E) :
    (∃ f f', run step s es = .error f ∧ run step' t es = .error f') ∨
      ∃ os s' t', run step s es = .ok (os, s') ∧ run step' t es = .ok (os, t') ∧ R s' t' := by
  induction es generalizing s t with
  | nil => exact .inr ⟨[], s, t, rfl, rfl, h⟩
  | cons e es ih =>
    rcases hstep s t e h with ⟨f, f', hf, hf'⟩ | ⟨o, s₁, t₁, hs, ht, hR⟩
    · exact .inl ⟨f, f', by rw [run, hf], by rw [run, hf']⟩
    · rcases ih hR with ⟨f, f', hf, hf'⟩ | ⟨os, s', t', hs', ht', hR'⟩
      · exact .inl ⟨f, f', by rw [run, hs]; simp only [hf], by rw [run, ht]; simp only [hf']⟩
      · exact .inr ⟨o :: os, s', t', by rw [run, hs]; simp only [hs'],
          by rw [run, ht]; simp only [ht'], hR'⟩

def answers (astep : T → E → O × T) (t : T) : List E → List O × T
  | [] => ([], t)
  | e :: es => ((astep t e).1 :: (answers astep (astep t e).2 es).1,
      (answers astep (astep t e).2 es).2)

/-- A second machine that gives the same answers as long as the first one answers,
and stays related to it. -/
theorem run_simulation (astep : T → E → O × T) {R : S → T → Prop}
    (hstep : ∀ s t e o s', R s t → step s e = .ok (o, s') →
      (astep t e).1 = o ∧ R s' (astep t e).2) {t : T} {os : List O} (h : R s t)
    (hrun : run step s es = .ok (os, s')) :
    (answers astep t es).1 = os ∧ R s' (answers astep t es).2 := by
  induction es generalizing s t os with
  | nil =>
    cases hrun
    exact ⟨rfl, h⟩
  | cons e es ih =>
    obtain ⟨o, s₁, os', hone, hrest, rfl⟩ := run_cons_ok.mp hrun
    obtain ⟨ho, hR⟩ := hstep s t e o s₁ h hone
    obtain ⟨hos, hR'⟩ := ih hR hrest
    exact ⟨by rw [answers, ho, hos], hR'⟩

/-- A loop that would run into a fault in some rounds, and makes the others. -/
def checked (fault : S → E → Option F) (body : S → E → S) (s : S) : List E → Except F S
  | [] => .ok s
  | e :: es =>
    match fault s e with
    | some f => .error f
    | none => checked fault body (body s e) es

variable {fault : S → E → Option F} {body : S → E → S}

theorem checked_eq_ok_iff :
    checked fault body s es = .ok s' ↔
      Along body (fun s e => fault s e = none) s es ∧ es.foldl body s = s' := by
  induction es generalizing s with
  | nil => simp [checked, Along]
  | cons e es ih =>
    rw [checked, Along, List.foldl_cons]
    cases hf : fault s e with
    | some f => simp
    | none => simp [ih]

theorem checked_eq_error_iff :
    (∃ f, checked fault body s es = .error f) ↔
      ¬ Along body (fun s e => fault s e = none) s es := by
  cases hc : checked fault body s es with
  | error f =>
    refine iff_of_true ⟨f, rfl⟩ fun hall => ?_
    have hok := checked_eq_ok_iff.mpr ⟨hall, rfl⟩
    rw [hc] at hok
    cases hok
  | ok s' =>
    refine iff_of_false ?_ (not_not.mpr (checked_eq_ok_iff.mp hc).1)
    rintro ⟨f, hf⟩
    cases hf

end VmPlayback.Transducer
