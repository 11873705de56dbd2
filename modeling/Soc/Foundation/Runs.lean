import Mathlib.Data.List.Basic

/-!
Labelled steps and their runs.

A run is a list of labels that leads from one state to another. What every step
preserves holds along a run; a property that a step keeps exactly when a
condition on the step holds is had by every state of a run exactly when every
step of it meets the condition.
-/
namespace Runs
variable {σ ε : Type}

inductive Run (step : σ → ε → σ → Prop) : σ → List ε → σ → Prop where
  | nil (s : σ) : Run step s [] s
  | cons {s s₁ s₂ : σ} {e : ε} {es : List ε} (head : step s e s₁) (tail : Run step s₁ es s₂) :
      Run step s (e :: es) s₂

section Invariants
variable {step : σ → ε → σ → Prop}

theorem Run.append {s s₁ s₂ : σ} {es es' : List ε} (h : Run step s es s₁)
    (h' : Run step s₁ es' s₂) : Run step s (es ++ es') s₂ := by
  induction h with
  | nil => exact h'
  | cons head _ ih => exact .cons head (ih h')

theorem Run.snoc {s s₁ s₂ : σ} {es : List ε} {e : ε} (h : Run step s es s₁)
    (last : step s₁ e s₂) : Run step s (es ++ [e]) s₂ := h.append (.cons last (.nil s₂))

theorem Run.invariant {P : σ → Prop} (hstep : ∀ s e s', P s → step s e s' → P s') {s s' : σ}
    {es : List ε} (h : Run step s es s') (hs : P s) : P s' := by
  induction h with
  | nil => exact hs
  | cons head _ ih => exact ih (hstep _ _ _ hs head)

/-- What is folded over the labels of a run stays related to its state. -/
theorem Run.fold {τ : Type} {R : τ → σ → Prop} {next : τ → ε → τ}
    (hstep : ∀ t s e s', R t s → step s e s' → R (next t e) s') {s s' : σ} {es : List ε}
    (h : Run step s es s') {t : τ} (ht : R t s) : R (es.foldl next t) s' := by
  induction h generalizing t with
  | nil => exact ht
  | cons head _ ih => exact ih (hstep _ _ _ _ ht head)

/-- `P` holds in every state of a run after its first. -/
def Throughout (step : σ → ε → σ → Prop) (P : σ → Prop) (s : σ) (es : List ε) : Prop :=
  ∀ es₁ es₂ s₁, es = es₁ ++ es₂ → Run step s es₁ s₁ → P s₁

/-- `C` holds of every step of a run, together with the state before it. -/
def EveryStep (step : σ → ε → σ → Prop) (C : σ → ε → Prop) (s : σ) (es : List ε) : Prop :=
  ∀ es₁ e es₂ s₁, es = es₁ ++ e :: es₂ → Run step s es₁ s₁ → C s₁ e

@[simp] theorem throughout_nil {P : σ → Prop} {s : σ} : Throughout step P s [] ↔ P s := by
  constructor
  · intro h
    exact h [] [] s rfl (.nil s)
  · intro h es₁ es₂ s₁ heq hrun
    obtain ⟨rfl, rfl⟩ := List.append_eq_nil_iff.mp heq.symm
    cases hrun
    exact h

@[simp] theorem throughout_cons {P : σ → Prop} {s : σ} {e : ε} {es : List ε} :
    Throughout step P s (e :: es) ↔ P s ∧ ∀ s₁, step s e s₁ → Throughout step P s₁ es := by
  constructor
  · intro h
    refine ⟨h [] (e :: es) s rfl (.nil s), ?_⟩
    rintro s₁ head es₁ es₂ s₂ rfl tail
    exact h (e :: es₁) es₂ s₂ rfl (.cons head tail)
  · intro ⟨hs, htail⟩ es₁ es₂ s₂ heq hrun
    cases hrun with
    | nil => exact hs
    | cons head tail =>
        obtain ⟨rfl, rfl⟩ := List.cons.inj heq
        exact htail _ head _ es₂ s₂ rfl tail

@[simp] theorem everyStep_nil {C : σ → ε → Prop} {s : σ} : EveryStep step C s [] := by
  intro es₁ e es₂ s₁ heq
  simp at heq

@[simp] theorem everyStep_cons {C : σ → ε → Prop} {s : σ} {e : ε} {es : List ε} :
    EveryStep step C s (e :: es) ↔ C s e ∧ ∀ s₁, step s e s₁ → EveryStep step C s₁ es := by
  constructor
  · intro h
    refine ⟨h [] e es s rfl (.nil s), ?_⟩
    rintro s₁ head es₁ e' es₂ s₂ rfl tail
    exact h (e :: es₁) e' es₂ s₂ rfl (.cons head tail)
  · intro ⟨hs, htail⟩ es₁ e' es₂ s₂ heq hrun
    cases hrun with
    | nil =>
        obtain ⟨rfl, -⟩ := List.cons.inj heq
        exact hs
    | cons head tail =>
        obtain ⟨rfl, rfl⟩ := List.cons.inj heq
        exact htail _ head _ e' es₂ s₂ rfl tail

/-- A step keeps `P` exactly under `C`; so does a run. `I` is what holds anyway. -/
theorem throughout_iff_everyStep {I P : σ → Prop} {C : σ → ε → Prop}
    (deterministic : ∀ s e s₁ s₂, step s e s₁ → step s e s₂ → s₁ = s₂)
    (hI : ∀ s e s', I s → step s e s' → I s')
    (hstep : ∀ s e s', I s → P s → step s e s' → (P s' ↔ C s e)) {s s' : σ} {es : List ε}
    (hrun : Run step s es s') (hIs : I s) (hPs : P s) :
    Throughout step P s es ↔ EveryStep step C s es := by
  induction hrun with
  | nil s => simpa using hPs
  | @cons s s₁ s₂ e es head tail ih =>
      have hiff := hstep s e s₁ hIs hPs head
      have honly : ∀ t, step s e t → t = s₁ := fun t ht => deterministic _ _ _ _ ht head
      rw [throughout_cons, everyStep_cons]
      constructor
      · rintro ⟨-, htail⟩
        have hPs₁ : P s₁ := htail s₁ head [] es s₁ rfl (.nil s₁)
        refine ⟨hiff.mp hPs₁, ?_⟩
        rintro t ht
        rw [honly t ht]
        exact (ih (hI s e s₁ hIs head) hPs₁).mp (htail s₁ head)
      · rintro ⟨hC, htail⟩
        refine ⟨hPs, ?_⟩
        intro t ht
        rw [honly t ht]
        exact (ih (hI s e s₁ hIs head) (hiff.mpr hC)).mpr (htail s₁ head)

/-- What steps under `C` preserve holds throughout a run of such steps. -/
theorem EveryStep.throughout {I P : σ → Prop} {C : σ → ε → Prop}
    (hstep : ∀ s e s', I s → C s e → step s e s' → I s') (hP : ∀ s, I s → P s) {s : σ}
    {es : List ε} (h : EveryStep step C s es) (hs : I s) : Throughout step P s es := by
  induction es generalizing s with
  | nil => exact throughout_nil.mpr (hP s hs)
  | cons e es ih =>
      obtain ⟨hC, hrest⟩ := everyStep_cons.mp h
      refine throughout_cons.mpr ⟨hP s hs, ?_⟩
      intro s₁ head
      exact ih (hrest s₁ head) (hstep s e s₁ hs hC head)

/-- Steps under `C` keep `J`, any other step breaks `P`: a run has `P` throughout exactly
when all its steps meet `C`. -/
theorem throughout_iff_of_kept {J P : σ → Prop} {C : σ → ε → Prop}
    (deterministic : ∀ s e s₁ s₂, step s e s₁ → step s e s₂ → s₁ = s₂)
    (holds : ∀ s, J s → P s) (kept : ∀ s e s', J s → C s e → step s e s' → J s')
    (broken : ∀ s e s', J s → ¬ C s e → step s e s' → ¬ P s') {s s' : σ} {es : List ε}
    (hrun : Run step s es s') (hs : J s) : Throughout step P s es ↔ EveryStep step C s es := by
  induction hrun with
  | nil s => simpa using holds s hs
  | @cons s s₁ s₂ e es head tail ih =>
      have honly : ∀ t, step s e t → t = s₁ := fun t ht => deterministic _ _ _ _ ht head
      rw [throughout_cons, everyStep_cons]
      by_cases hC : C s e
      · have htail := ih (kept s e s₁ hs hC head)
        constructor
        · rintro ⟨-, h⟩
          refine ⟨hC, ?_⟩
          intro t ht
          rw [honly t ht]
          exact htail.mp (h s₁ head)
        · rintro ⟨-, h⟩
          refine ⟨holds s hs, ?_⟩
          intro t ht
          rw [honly t ht]
          exact htail.mpr (h s₁ head)
      · constructor
        · rintro ⟨-, h⟩
          exact absurd (h s₁ head [] es s₁ rfl (.nil s₁)) (broken s e s₁ hs hC head)
        · rintro ⟨h, -⟩
          exact absurd h hC

/-- The same of a property of the steps. -/
theorem everyStep_iff_of_kept {J : σ → Prop} {P : σ → ε → σ → Prop} {C : ε → Prop}
    (deterministic : ∀ s e s₁ s₂, step s e s₁ → step s e s₂ → s₁ = s₂)
    (kept : ∀ s e s', J s → C e → step s e s' → P s e s' ∧ J s')
    (broken : ∀ s e s', J s → ¬ C e → step s e s' → ¬ P s e s') {s s' : σ} {es : List ε}
    (hrun : Run step s es s') (hs : J s) :
    EveryStep step (fun s e => ∀ s', step s e s' → P s e s') s es ↔ ∀ e ∈ es, C e := by
  induction hrun with
  | nil s => simp
  | @cons s s₁ s₂ e es head tail ih =>
      have honly : ∀ t, step s e t → t = s₁ := fun t ht => deterministic _ _ _ _ ht head
      rw [everyStep_cons, List.forall_mem_cons]
      by_cases hC : C e
      · obtain ⟨hP, hs₁⟩ := kept s e s₁ hs hC head
        constructor
        · intro ⟨_, h⟩
          exact ⟨hC, (ih hs₁).mp (h s₁ head)⟩
        · intro ⟨_, h⟩
          refine ⟨fun t ht => honly t ht ▸ hP, ?_⟩
          intro t ht
          exact honly t ht ▸ (ih hs₁).mpr h
      · constructor
        · intro ⟨h, _⟩
          exact absurd (h s₁ head) (broken s e s₁ hs hC head)
        · intro ⟨h, _⟩
          exact absurd h hC

/-- A run of at most `n` steps, each of them under `C`, leads to `P`. -/
def Within (step : σ → ε → σ → Prop) (C : σ → ε → Prop) (P : σ → Prop) (n : Nat) (s : σ) : Prop :=
  ∃ es s', es.length ≤ n ∧ Run step s es s' ∧ EveryStep step C s es ∧ P s'

theorem Within.here {C : σ → ε → Prop} {P : σ → Prop} {s : σ} (h : P s) : Within step C P 0 s :=
  ⟨[], s, Nat.le_refl _, .nil s, everyStep_nil, h⟩

theorem Within.mono {C : σ → ε → Prop} {P : σ → Prop} {s : σ} {m n : Nat}
    (h : Within step C P m s) (hle : m ≤ n) : Within step C P n s := by
  obtain ⟨es, s', hlen, h⟩ := h
  exact ⟨es, s', Nat.le_trans hlen hle, h⟩

theorem Within.cons {C : σ → ε → Prop} {P : σ → Prop} {s s₁ : σ} {e : ε} {n : Nat}
    (h : Within step C P n s₁) (deterministic : ∀ t, step s e t → t = s₁) (head : step s e s₁)
    (hC : C s e) : Within step C P (n + 1) s := by
  obtain ⟨es, s', hlen, hrun, hall, hP⟩ := h
  refine ⟨e :: es, s', Nat.succ_le_succ hlen, .cons head hrun, everyStep_cons.mpr ⟨hC, ?_⟩, hP⟩
  intro t ht
  rw [deterministic t ht]
  exact hall

end Invariants

end Runs
