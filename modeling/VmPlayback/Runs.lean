import Mathlib.Tactic

namespace VmPlayback

variable {S E : Type*} (step : S → E → S)

def Along (P : S → E → Prop) : S → List E → Prop
  | _, [] => True
  | s, e :: es => P s e ∧ Along P (step s e) es

instance Along.decidable (P : S → E → Prop) [∀ s e, Decidable (P s e)] :
    ∀ (s : S) (es : List E), Decidable (Along step P s es)
  | _, [] => isTrue trivial
  | s, e :: es =>
    have := Along.decidable P (step s e) es
    inferInstanceAs (Decidable (P s e ∧ Along step P (step s e) es))

variable {step}
variable {P Q : S → E → Prop} {J : S → Prop}

/-- The same property, with each step cut out of the run. -/
theorem along_iff_split (s : S) (es : List E) :
    Along step P s es ↔ ∀ pre e post, es = pre ++ e :: post → P (pre.foldl step s) e := by
  induction es generalizing s with
  | nil => simp [Along]
  | cons e es ih =>
    rw [Along, ih]
    constructor
    · rintro ⟨h, ht⟩ pre e' post he
      cases pre with
      | nil =>
        obtain ⟨rfl, -⟩ := List.cons.inj he
        exact h
      | cons x pre =>
        obtain ⟨rfl, hes⟩ := List.cons.inj he
        exact ht pre e' post hes
    · intro h
      exact ⟨h [] e es rfl, fun pre e' post he => h (e :: pre) e' post (by rw [he]; rfl)⟩

theorem along_append (s : S) (es es' : List E) :
    Along step P s (es ++ es') ↔ Along step P s es ∧ Along step P (es.foldl step s) es' := by
  induction es generalizing s with
  | nil => simp [Along]
  | cons e es ih => simp only [List.cons_append, Along, List.foldl_cons, ih, and_assoc]

/-- A loop over the numbers below `n`, round by round. -/
theorem along_range {step : S → ℕ → S} {P : S → ℕ → Prop} (s : S) (n : ℕ) :
    Along step P s (List.range n) ↔ ∀ i < n, P ((List.range i).foldl step s) i := by
  induction n with
  | zero => simp [Along]
  | succ n ih =>
    rw [List.range_succ, along_append, ih, Along, Along, and_true, Nat.forall_lt_succ_right]

theorem invariant_run (hstep : ∀ s e, J s → J (step s e)) {s : S} (h : J s) (es : List E) :
    J (es.foldl step s) := by
  induction es generalizing s with
  | nil => exact h
  | cons e es ih => exact ih (hstep s e h)

theorem along_of_invariant (hstep : ∀ s e, J s → J (step s e)) (hp : ∀ s e, J s → P s e) {s : S}
    (h : J s) (es : List E) : Along step P s es := by
  rw [along_iff_split]
  intro pre e post _
  exact hp _ e (invariant_run hstep h pre)

/-- Only the steps that meet `Q` need to keep the invariant when the whole run meets `Q`. -/
theorem invariant_run_of_along (hstep : ∀ s e, J s → Q s e → J (step s e)) {s : S} (h : J s)
    {es : List E} (hq : Along step Q s es) : J (es.foldl step s) := by
  induction es generalizing s with
  | nil => exact h
  | cons e es ih => exact ih (hstep s e h hq.1) hq.2

/-- Two step properties that agree on the invariant's states agree along runs, as
long as one of them is what keeps the invariant.  `L` is what may be assumed of
the steps. -/
theorem along_iff_under {L : S → E → Prop} (hiff : ∀ s e, J s → L s e → (P s e ↔ Q s e))
    (hstep : ∀ s e, J s → L s e → Q s e → J (step s e)) {s : S} (h : J s) {es : List E}
    (hl : Along step L s es) : Along step P s es ↔ Along step Q s es := by
  -- the invariant travels with the run, so it is kept general in the start
  induction es generalizing s with
  | nil => exact Iff.rfl
  | cons e es ih =>
    have he := hiff s e h hl.1
    constructor
    · rintro ⟨hp, ht⟩
      have hq := he.mp hp
      exact ⟨hq, (ih (hstep s e h hl.1 hq) hl.2).mp ht⟩
    · rintro ⟨hq, ht⟩
      exact ⟨he.mpr hq, (ih (hstep s e h hl.1 hq) hl.2).mpr ht⟩

theorem along_of_forall_mem (s : S) {es : List E} (h : ∀ s, ∀ e ∈ es, P s e) :
    Along step P s es := by
  rw [along_iff_split]
  rintro pre e post rfl
  exact h _ e (by simp)

theorem along_of_forall (h : ∀ s e, P s e) (s : S) (es : List E) : Along step P s es :=
  along_of_forall_mem s fun s e _ => h s e

theorem along_iff_of_invariant (hiff : ∀ s e, J s → (P s e ↔ Q s e))
    (hstep : ∀ s e, J s → Q s e → J (step s e)) {s : S} (h : J s) (es : List E) :
    Along step P s es ↔ Along step Q s es :=
  along_iff_under (fun s e hj _ => hiff s e hj) (fun s e hj _ => hstep s e hj) h
    (along_of_forall (P := fun _ _ => True) (fun _ _ => trivial) s es)

/-- In every state of the run, the first and the last included. -/
theorem forall_prefix_iff (s : S) (es : List E) :
    (∀ pre, pre <+: es → J (pre.foldl step s)) ↔
      J s ∧ Along step (fun s e => J (step s e)) s es := by
  induction es generalizing s with
  | nil => simp [Along]
  | cons e es ih =>
    rw [Along, ← ih]
    constructor
    · intro h
      refine ⟨h [] (List.nil_prefix), fun pre hpre => h (e :: pre) ?_⟩
      exact List.cons_prefix_cons.mpr ⟨rfl, hpre⟩
    · rintro ⟨h, ht⟩ pre hpre
      cases pre with
      | nil => exact h
      | cons x pre =>
        obtain ⟨rfl, htail⟩ := List.cons_prefix_cons.mp hpre
        exact ht pre htail

/-- Two systems fed the same events.  `L` is what the steps of the second are
known to meet. -/
theorem simulation_run {A : Type*} {astep : A → E → A} {L : A → E → Prop} {R : S → A → Prop}
    (hstep : ∀ s a e, R s a → L a e → R (step s e) (astep a e)) {s : S} {a : A} (h : R s a)
    {es : List E} (hl : Along astep L a es) : R (es.foldl step s) (es.foldl astep a) := by
  induction es generalizing s a with
  | nil => exact h
  | cons e es ih => exact ih (hstep s a e h hl.1) hl.2

/-- Events that change nothing can be left out. -/
theorem foldl_filter_of_idle (p : E → Bool) (h : ∀ s e, p e = false → step s e = s) (s : S)
    (es : List E) : (es.filter p).foldl step s = es.foldl step s := by
  induction es generalizing s with
  | nil => rfl
  | cons e es ih =>
    cases hp : p e with
    | true => rw [List.filter_cons_of_pos hp, List.foldl_cons, List.foldl_cons, ih]
    | false =>
      rw [List.filter_cons_of_neg (by simp [hp]), List.foldl_cons, h s e hp, ih]

theorem along_filter_of_idle (p : E → Bool) (hidle : ∀ s e, p e = false → step s e = s)
    (hp : ∀ s e, p e = false → J s → P s e) (hstep : ∀ s e, J s → P s e → J (step s e)) {s : S}
    (h : J s) (es : List E) : Along step P s (es.filter p) ↔ Along step P s es := by
  induction es generalizing s with
  | nil => exact Iff.rfl
  | cons e es ih =>
    cases he : p e with
    | true =>
      rw [List.filter_cons_of_pos he]
      exact and_congr_right fun hpe => ih (hstep s e h hpe)
    | false =>
      rw [List.filter_cons_of_neg (by simp [he]), Along, hidle s e he, ih h]
      exact (and_iff_right (hp s e he h)).symm

variable (step Q) in
def Happened (s : S) (es : List E) : Prop :=
  ∃ pre e post, es = pre ++ e :: post ∧ Q (pre.foldl step s) e

theorem not_happened_iff (s : S) (es : List E) :
    ¬ Happened step Q s es ↔ Along step (fun s e => ¬ Q s e) s es := by
  rw [along_iff_split]
  constructor
  · intro h pre e post he hq
    exact h ⟨pre, e, post, he, hq⟩
  · rintro h ⟨pre, e, post, he, hq⟩
    exact h pre e post he hq

/-- What a `Q` step establishes and every step keeps holds from then on. -/
theorem invariant_of_happened {I : S → Prop} (hI : ∀ s e, I s → I (step s e))
    (hq : ∀ s e, I s → Q s e → J (step s e)) (hJ : ∀ s e, I s → J s → J (step s e))
    {s : S} (h : I s) {es : List E} (hes : Happened step Q s es) : J (es.foldl step s) := by
  obtain ⟨pre, e, post, rfl, he⟩ := hes
  rw [List.foldl_append, List.foldl_cons]
  have hpre := invariant_run hI h pre
  have hboth : ∀ s e, I s ∧ J s → I (step s e) ∧ J (step s e) :=
    fun s e hs => ⟨hI s e hs.1, hJ s e hs.1 hs.2⟩
  exact (invariant_run hboth ⟨hI _ e hpre, hq _ e hpre he⟩ post).2

variable {R : S → E → Prop}

variable (step Q R) in
/-- Some step met `Q`, and all steps after it met `R`. -/
def Since (s : S) (es : List E) : Prop :=
  ∃ pre e post, es = pre ++ e :: post ∧ Q (pre.foldl step s) e ∧
    Along step R ((pre ++ [e]).foldl step s) post

/-- A property that only `Q` steps establish and only `R` steps keep. -/
theorem since_of_step {I K : S → Prop} (hI : ∀ s e, I s → I (step s e))
    (hK : ∀ s e, I s → K (step s e) → Q s e ∨ (K s ∧ R s e)) {s : S} (h : I s) (h0 : ¬ K s)
    {es : List E} (hes : K (es.foldl step s)) : Since step Q R s es := by
  -- from the end of the run: its last step is the one, or keeps what an earlier one did
  induction es using List.reverseRecOn with
  | nil => exact absurd hes h0
  | append_singleton es e ih =>
    rw [List.foldl_append] at hes
    rcases hK _ e (invariant_run hI h es) hes with hq | ⟨hk, hr⟩
    · exact ⟨es, e, [], rfl, hq, trivial⟩
    · obtain ⟨pre, e', post, rfl, hq, hpost⟩ := ih hk
      refine ⟨pre, e', post ++ [e], by simp, hq, ?_⟩
      rw [along_append, ← List.foldl_append]
      exact ⟨hpost, by simpa using hr, trivial⟩

end VmPlayback
