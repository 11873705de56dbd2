import Mathlib.Data.List.Basic

/-!
Computations that note what they access.

A computation has a result or ends in an error; either way it comes with the list of its accesses.
Without the list it is an ordinary computation with errors. A property of all accesses is shown
step by step, like a postcondition.
-/

structure Noted (α ε β : Type) where
  log : List α
  result : Except ε β

namespace Noted
variable {α ε β γ : Type}

/-- One computation after another, unless the first ends in an error. -/
protected def bind (x : Noted α ε β) (f : β → Noted α ε γ) : Noted α ε γ :=
  match x.result with
  | .error e => ⟨x.log, .error e⟩
  | .ok b => ⟨x.log ++ (f b).log, (f b).result⟩

instance : Monad (Noted α ε) where
  pure b := ⟨[], .ok b⟩
  bind := Noted.bind

/-- One access, and what it gives. -/
def note (a : α) (result : Except ε β) : Noted α ε β := ⟨[a], result⟩

/-- A computation without accesses. -/
def lift (result : Except ε β) : Noted α ε β := ⟨[], result⟩

/-- A property of all accesses. -/
def All (P : α → Prop) (x : Noted α ε β) : Prop := ∀ a ∈ x.log, P a

@[simp] theorem result_pure (b : β) : (pure b : Noted α ε β).result = .ok b := rfl

@[simp] theorem result_note (a : α) (r : Except ε β) : (note a r).result = r := rfl

@[simp] theorem result_lift (r : Except ε β) : (lift r : Noted α ε β).result = r := rfl

/-- Without their lists, computations follow one another as usual. -/
@[simp] theorem result_bind (x : Noted α ε β) (f : β → Noted α ε γ) :
    (x >>= f).result = x.result >>= fun b => (f b).result := by
  change (x.bind f).result = _
  rw [Noted.bind]
  cases x.result with
  | error e => rfl
  | ok b => rfl

theorem result_bind_ok {x : Noted α ε β} {b : β} (h : x.result = .ok b) (f : β → Noted α ε γ) :
    (x >>= f).result = (f b).result := by
  rw [result_bind, h]
  rfl

theorem log_bind_ok {x : Noted α ε β} {b : β} (h : x.result = .ok b) (f : β → Noted α ε γ) :
    (x >>= f).log = x.log ++ (f b).log := by
  change (x.bind f).log = _
  rw [Noted.bind, h]

theorem log_bind_error {x : Noted α ε β} {e : ε} (h : x.result = .error e)
    (f : β → Noted α ε γ) : (x >>= f).log = x.log := by
  change (x.bind f).log = _
  rw [Noted.bind, h]

/-- What follows matters only for the result there is. -/
theorem bind_congr_ok {x : Noted α ε β} {b : β} (h : x.result = .ok b) {f g : β → Noted α ε γ}
    (hfg : f b = g b) : x >>= f = x >>= g := by
  change x.bind f = x.bind g
  rw [Noted.bind, Noted.bind, h]
  dsimp only
  rw [hfg]

variable {P : α → Prop}

@[simp] theorem all_pure (b : β) : (pure b : Noted α ε β).All P := nofun

@[simp] theorem all_lift (r : Except ε β) : (lift r : Noted α ε β).All P := nofun

@[simp] theorem all_note {a : α} {r : Except ε β} : (note a r).All P ↔ P a :=
  List.forall_mem_singleton

theorem all_bind {x : Noted α ε β} {f : β → Noted α ε γ} :
    (x >>= f).All P ↔ x.All P ∧ ∀ b, x.result = .ok b → (f b).All P := by
  cases h : x.result with
  | error e => simp [All, log_bind_error h]
  | ok b => simp [All, log_bind_ok h, or_imp, forall_and]

theorem All.bind {x : Noted α ε β} {f : β → Noted α ε γ} (h : x.All P)
    (hf : ∀ b, x.result = .ok b → (f b).All P) : (x >>= f).All P := all_bind.mpr ⟨h, hf⟩

theorem all_bind_ok {x : Noted α ε β} {f : β → Noted α ε γ} {b : β} (h : x.result = .ok b) :
    (x >>= f).All P ↔ x.All P ∧ (f b).All P := by
  simp [All, log_bind_ok h, or_imp, forall_and]

theorem all_lift_bind {r : Except ε β} {f : β → Noted α ε γ} {b : β} (h : r = .ok b) :
    (lift r >>= f).All P ↔ (f b).All P := by
  rw [all_bind_ok h, and_iff_right (all_lift r)]

theorem all_note_bind {a : α} {r : Except ε β} {f : β → Noted α ε γ} {b : β} (h : r = .ok b) :
    (note a r >>= f).All P ↔ P a ∧ (f b).All P := by
  rw [all_bind_ok h, all_note]

theorem all_forM {δ : Type} {ds : List δ} {f : δ → Noted α ε PUnit}
    (h : ∀ d ∈ ds, (f d).All P) : (ds.forM f).All P := by
  induction ds with
  | nil => exact all_pure _
  | cons d ds ih =>
      rw [List.forM_eq_forM, List.forM_cons]
      exact (h d List.mem_cons_self).bind fun _ _ => ih fun d hd => h d (List.mem_cons_of_mem _ hd)

end Noted
