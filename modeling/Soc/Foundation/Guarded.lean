import Mathlib.Data.Nat.Notation

/-!
A computation whose stores are tested, against the one that only fills its store up.

Where the store never shrinks, a run that ends within the room has been within it all the
time, and the tests change nothing.
-/
namespace Guarded
variable {ε α β : Type} {n room : Nat} {size : α → Nat} {size' : β → Nat}

/-- From a store of `n` on, the tested computation does what the plain one does, if that ends
within the room. -/
def Guards (n : Nat) (size : α → Nat) (room : Nat) (plain tested : Except ε α) : Prop :=
  ∀ a, plain = .ok a → n ≤ size a ∧ (size a ≤ room → tested = .ok a)

theorem Guards.ok {a : α} (h : n ≤ size a) :
    Guards n size room (.ok a : Except ε α) (.ok a) := by
  intro b hb
  cases hb
  exact ⟨h, fun _ => rfl⟩

theorem Guards.error {e : ε} {tested : Except ε α} :
    Guards n size room (.error e) tested := nofun

theorem Guards.bind {plain tested : Except ε α} {next next' : α → Except ε β}
    (h : Guards n size room plain tested)
    (hnext : ∀ a, plain = .ok a → Guards (size a) size' room (next a) (next' a)) :
    Guards n size' room (plain >>= next) (tested >>= next') := by
  intro b hb
  cases hplain : plain with
  | error e => rw [hplain] at hb; cases hb
  | ok a =>
      rw [hplain] at hb
      obtain ⟨hfirst, htested⟩ := h a hplain
      obtain ⟨hsecond, hlast⟩ := hnext a hplain b hb
      refine ⟨Nat.le_trans hfirst hsecond, fun hroom => ?_⟩
      rw [htested (Nat.le_trans hsecond hroom)]
      exact hlast hroom

/-- A step that stores nothing. -/
theorem Guards.quiet (plain : Except ε α) (next next' : α → Except ε β)
    (h : ∀ a, plain = .ok a → Guards n size' room (next a) (next' a)) :
    Guards n size' room (plain >>= next) (plain >>= next') := by
  cases plain with
  | error e => exact .error
  | ok a => exact h a rfl

theorem Guards.ite {p : Prop} [Decidable p] {plain tested plain' tested' : Except ε α}
    (h : p → Guards n size room plain tested) (h' : ¬p → Guards n size room plain' tested') :
    Guards n size room (if p then plain else plain') (if p then tested else tested') := by
  split
  · exact h ‹_›
  · exact h' ‹_›

end Guarded
