import Soc.Foundation.Runs

/-!
Two runs, seen by one observer.

An observer is concerned by some labels and has a view of the state. Labels of no
concern leave the view alone, and labels of concern change it in a way that
depends on the view: then runs with the same labels of concern end in the same
view, however many others are interleaved. What the observer is shown on the way
is collected along a run.
-/
namespace Runs
variable {σ ε ν α β : Type}

/-- What the steps of a run show, in order. The step that cannot be taken still
shows something. -/
def collect (next : σ → ε → Option σ) (obs : σ → ε → List α) : σ → List ε → List α
  | _, [] => []
  | s, e :: es => obs s e ++ (next s e).elim [] fun s' => collect next obs s' es

theorem Run.split {step : σ → ε → σ → Prop} {s s₂ : σ} {es es' : List ε}
    (h : Run step s (es ++ es') s₂) : ∃ s₁, Run step s es s₁ ∧ Run step s₁ es' s₂ := by
  induction es generalizing s with
  | nil => exact ⟨s, .nil s, h⟩
  | cons e es ih =>
      cases h with
      | cons head tail =>
          obtain ⟨s₁, hleft, hright⟩ := ih tail
          exact ⟨s₁, .cons head hleft, hright⟩

/-- A step and its function. -/
def Follows (step : σ → ε → σ → Prop) (next : σ → ε → Option σ) : Prop :=
  ∀ s e s', step s e s' → next s e = some s'

section Collect
variable {step : σ → ε → σ → Prop} {next : σ → ε → Option σ}

theorem collect_cons (follows : Follows step next) (obs : σ → ε → List α) {s s' : σ} {e : ε}
    (head : step s e s') (es : List ε) :
    collect next obs s (e :: es) = obs s e ++ collect next obs s' es := by
  rw [collect, follows s e s' head, Option.elim_some]

theorem collect_append (follows : Follows step next) (obs : σ → ε → List α) {s s₁ : σ}
    {es : List ε} (h : Run step s es s₁) (es' : List ε) :
    collect next obs s (es ++ es') = collect next obs s es ++ collect next obs s₁ es' := by
  induction h with
  | nil => rfl
  | cons head _ ih =>
      rw [List.cons_append, collect_cons follows obs head, collect_cons follows obs head, ih,
        List.append_assoc]

/-- Steps that show nothing can be left out. -/
theorem collect_quiet (follows : Follows step next) (obs : σ → ε → List α) {s s₁ : σ}
    {es : List ε} (h : Run step s es s₁) (quiet : ∀ s, ∀ e ∈ es, obs s e = []) :
    collect next obs s es = [] := by
  induction h with
  | nil => rfl
  | @cons s _ _ e es head _ ih =>
      rw [collect_cons follows obs head, quiet s e List.mem_cons_self, List.nil_append]
      exact ih fun t x hx => quiet t x (List.mem_cons_of_mem _ hx)

/-- The first step that shows something, after others that do not. -/
theorem collect_skip (follows : Follows step next) (obs : σ → ε → List α) {s s₁ s₂ : σ}
    {pre : List ε} {e : ε} (h : Run step s pre s₁) (quiet : ∀ s, ∀ x ∈ pre, obs s x = [])
    (head : step s₁ e s₂) (post : List ε) :
    collect next obs s (pre ++ e :: post) = obs s₁ e ++ collect next obs s₂ post := by
  rw [collect_append follows obs h, collect_quiet follows obs h quiet, List.nil_append,
    collect_cons follows obs head]

end Collect

theorem append_eq_append {xs xs' ys ys' : List α} (h : xs.length = xs'.length) :
    xs ++ ys = xs' ++ ys' ↔ xs = xs' ∧ ys = ys' := by
  constructor
  · intro heq
    exact List.append_inj heq h
  · rintro ⟨rfl, rfl⟩
    rfl

/-- Steps as an observer sees them. `I` is what holds of every state anyway. -/
structure Unwinding (step : σ → ε → σ → Prop) (I : σ → Prop) (concerns : ε → Bool)
    (view : σ → ν) : Prop where
  keeps : ∀ s e s', I s → step s e s' → I s'
  ignores : ∀ s e s', concerns e = false → step s e s' → view s' = view s
  respects : ∀ s t e s' t', concerns e = true → view s = view t → step s e s' → step t e t' →
    view s' = view t'

namespace Unwinding
variable {step : σ → ε → σ → Prop} {next : σ → ε → Option σ} {I : σ → Prop}
  {concerns : ε → Bool} {view : σ → ν}

theorem run_keeps (h : Unwinding step I concerns view) {s s₁ : σ} {es : List ε}
    (hrun : Run step s es s₁) (hs : I s) : I s₁ := hrun.invariant h.keeps hs

theorem run_ignores (h : Unwinding step I concerns view) {s s₁ : σ} {es : List ε}
    (hrun : Run step s es s₁) (hes : ∀ e ∈ es, concerns e = false) : view s₁ = view s := by
  induction hrun with
  | nil => rfl
  | @cons s s' _ e es head _ ih =>
      rw [ih fun x hx => hes x (List.mem_cons_of_mem _ hx)]
      exact h.ignores s e s' (hes e List.mem_cons_self) head

/-- Two observations along two runs agree or differ together, when they do so at
every step of concern. -/
theorem collect_iff (h : Unwinding step I concerns view) (follows : Follows step next)
    {a : σ → ε → List α} {b : σ → ε → List β}
    (quiet : ∀ s e, concerns e = false → a s e = [] ∧ b s e = [])
    (agree : ∀ s t e s' t', I s → I t → concerns e = true → view s = view t → step s e s' →
      step t e t' → (a s e).length = (a t e).length ∧ (b s e).length = (b t e).length ∧
        (a s e = a t e ↔ b s e = b t e))
    {s t s₁ t₁ : σ} {es₁ es₂ : List ε} (h₁ : Run step s es₁ s₁) (h₂ : Run step t es₂ t₁)
    (hs : I s) (ht : I t) (hview : view s = view t)
    (same : es₁.filter concerns = es₂.filter concerns) :
    view s₁ = view t₁ ∧ (collect next a s es₁ = collect next a t es₂ ↔
      collect next b s es₁ = collect next b t es₂) := by
  generalize hes : es₁.filter concerns = es at same
  induction es generalizing s t es₁ es₂ with
  | nil =>
      have hnone₁ : ∀ e ∈ es₁, concerns e = false := fun e he =>
        Bool.not_eq_true _ ▸ List.filter_eq_nil_iff.mp hes e he
      have hnone₂ : ∀ e ∈ es₂, concerns e = false := fun e he =>
        Bool.not_eq_true _ ▸ List.filter_eq_nil_iff.mp same.symm e he
      rw [h.run_ignores h₁ hnone₁, h.run_ignores h₂ hnone₂,
        collect_quiet follows a h₁ fun s e he => (quiet s e (hnone₁ e he)).1,
        collect_quiet follows a h₂ fun s e he => (quiet s e (hnone₂ e he)).1,
        collect_quiet follows b h₁ fun s e he => (quiet s e (hnone₁ e he)).2,
        collect_quiet follows b h₂ fun s e he => (quiet s e (hnone₂ e he)).2]
      exact ⟨hview, iff_of_true rfl rfl⟩
  | cons e es ih =>
      -- both runs skip to the first label of concern, which is the same
      obtain ⟨pre₁, post₁, rfl, hpre₁, hconcern, hpost₁⟩ := List.filter_eq_cons_iff.mp hes
      obtain ⟨pre₂, post₂, rfl, hpre₂, -, hpost₂⟩ := List.filter_eq_cons_iff.mp same.symm
      have hnone₁ : ∀ e ∈ pre₁, concerns e = false := fun x hx =>
        Bool.not_eq_true _ ▸ hpre₁ x hx
      have hnone₂ : ∀ e ∈ pre₂, concerns e = false := fun x hx =>
        Bool.not_eq_true _ ▸ hpre₂ x hx
      obtain ⟨s', hskip₁, hrest₁⟩ := h₁.split
      obtain ⟨t', hskip₂, hrest₂⟩ := h₂.split
      have hview' : view s' = view t' := by
        rw [h.run_ignores hskip₁ hnone₁, h.run_ignores hskip₂ hnone₂, hview]
      have hs' := h.run_keeps hskip₁ hs
      have ht' := h.run_keeps hskip₂ ht
      cases hrest₁ with
      | @cons _ s'' _ _ _ head₁ tail₁ =>
          cases hrest₂ with
          | @cons _ t'' _ _ _ head₂ tail₂ =>
              obtain ⟨hlenA, hlenB, hstep⟩ :=
                agree s' t' e s'' t'' hs' ht' hconcern hview' head₁ head₂
              obtain ⟨hend, htail⟩ := ih tail₁ tail₂ (h.keeps s' e s'' hs' head₁)
                (h.keeps t' e t'' ht' head₂)
                (h.respects s' t' e s'' t'' hconcern hview' head₁ head₂) hpost₁ hpost₂.symm
              refine ⟨hend, ?_⟩
              rw [collect_skip follows a hskip₁ (fun s x hx => (quiet s x (hnone₁ x hx)).1) head₁,
                collect_skip follows a hskip₂ (fun s x hx => (quiet s x (hnone₂ x hx)).1) head₂,
                collect_skip follows b hskip₁ (fun s x hx => (quiet s x (hnone₁ x hx)).2) head₁,
                collect_skip follows b hskip₂ (fun s x hx => (quiet s x (hnone₂ x hx)).2) head₂,
                append_eq_append hlenA, append_eq_append hlenB, hstep, htail]

end Unwinding

end Runs
