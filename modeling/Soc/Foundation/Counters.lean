import Mathlib.Data.Nat.Notation
import Soc.Foundation.Loops

/-!
Loops that count with a counter that wraps.

Below its modulus the counter takes every value up to the bound once. From the modulus on the
bound is never met, and the loop has no end.
-/
namespace Loops
variable {σ α : Type} {turn : σ → Option (α × σ)}

/-- Where the first `n` turns lead. -/
def after (turn : σ → Option (α × σ)) : Nat → σ → σ
  | 0, s => s
  | n + 1, s => (turn s).elim s fun p => after turn n p.2

theorem after_succ {s : σ} {p : α × σ} (h : turn s = some p) (n : Nat) :
    after turn (n + 1) s = after turn n p.2 := by
  rw [after, h, Option.elim_some]

/-- A loop that always takes another turn has no end. -/
theorem not_ends {inv : σ → Prop} (hturn : ∀ s, inv s → ∃ p, turn s = some p ∧ inv p.2)
    (n : Nat) {s : σ} (h : inv s) : ¬Ends turn n s := by
  induction n generalizing s with
  | zero =>
      obtain ⟨p, hsome, -⟩ := hturn s h
      intro hnone
      rw [Ends, hsome] at hnone
      contradiction
  | succ n ih =>
      obtain ⟨p, hsome, hinv⟩ := hturn s h
      intro hends
      obtain ⟨q, hsome', hrest⟩ := hends
      rw [hsome] at hsome'
      obtain rfl := Option.some.inj hsome'
      exact ih hinv hrest

/-- `for (; i < bound; i++)` with a counter modulo `m`; a turn puts out the counter. -/
def counted (m bound i : Nat) : Option (Nat × Nat) :=
  if i < bound then some (i, (i + 1) % m) else none

variable {m bound : Nat}

theorem counted_turn {i : Nat} (h : bound < m) (hi : i < bound) :
    counted m bound i = some (i, i + 1) := by
  rw [counted, if_pos hi, Nat.mod_eq_of_lt (by omega)]

/-- The whole loop from `i` on. -/
theorem counted_run (h : bound < m) (n : Nat) {i : Nat} (hn : i + n = bound) :
    Ends (counted m bound) n i ∧ outputs (counted m bound) n i = List.range' i n ∧
      after (counted m bound) n i = bound := by
  induction n generalizing i with
  | zero =>
      refine ⟨?_, rfl, hn⟩
      rw [Ends, counted, if_neg (by omega)]
  | succ n ih =>
      have hturn : counted m bound i = some (i, i + 1) := counted_turn h (by omega)
      obtain ⟨hends, houts, hafter⟩ := ih (show i + 1 + n = bound by omega)
      refine ⟨⟨_, hturn, hends⟩, ?_, ?_⟩
      · rw [outputs_succ hturn, houts, List.range'_succ]
      · rw [after_succ hturn, hafter]

theorem counted_endless (hm : 0 < m) (h : m ≤ bound) (n : Nat) {i : Nat} (hi : i < m) :
    ¬Ends (counted m bound) n i := by
  have hturn : ∀ j, j < m → ∃ p, counted m bound j = some p ∧ p.2 < m := fun j hj =>
    ⟨(j, (j + 1) % m), if_pos (Nat.lt_of_lt_of_le hj h), Nat.mod_lt _ hm⟩
  exact not_ends hturn n hi

/-- The loop ends when its counter can hold the bound. -/
theorem counted_ends_iff (hm : 0 < m) : (∃ n, Ends (counted m bound) n 0) ↔ bound < m := by
  constructor
  · intro ⟨n, hends⟩
    by_contra hlarge
    exact counted_endless hm (Nat.le_of_not_lt hlarge) n hm hends
  · intro h
    exact ⟨bound, (counted_run h bound (Nat.zero_add bound)).1⟩

end Loops
