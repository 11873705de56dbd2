import Mathlib.Algebra.Group.Nat.Defs
import Mathlib.Algebra.Ring.Int.Defs

/-!
What a C or C++ function can do besides returning: the outcomes shared by every
model of this development, and the checked integer operations of the source.

Unsigned arithmetic wraps and is modelled by the fixed-width types. Signed
overflow and division by zero are undefined behaviour and end a run here.
-/
namespace Soc

/-- The ways in which a run ends, or leaves the behaviour the program defines. -/
inductive Fault where
  /-- `throw domain_error` -/
  | domainError
  | divisionByZero
  | signedOverflow
  /-- an access outside the object a pointer was allocated for -/
  | outOfBounds
  /-- a loop of the source has not ended within the model's bound -/
  | unfinished
  /-- `err` -/
  | exited
  deriving DecidableEq, Repr

/-- A signed result kept in `bits` bits. -/
def signed (bits : Nat) (x : Int) : Except Fault Int :=
  if -2 ^ (bits - 1) ≤ x ∧ x < 2 ^ (bits - 1) then .ok x else .error .signedOverflow

/-- A conversion to a signed type of `bits` bits keeps the low bits. -/
def narrow (bits : Nat) (x : Int) : Int := x.bmod (2 ^ bits)

/-- Division of C: the quotient is truncated toward zero. -/
def quotient (a b : Int) : Except Fault Int :=
  if b = 0 then .error .divisionByZero else .ok (a.tdiv b)

/-- Reading an array through a pointer and an index. -/
def index {α : Type} (xs : List α) (i : Int) : Except Fault α :=
  if i < 0 then .error .outOfBounds
  else match xs[i.toNat]? with
    | some x => .ok x
    | none => .error .outOfBounds

theorem signed_ok {bits : Nat} {x : Int} (lo : -2 ^ (bits - 1) ≤ x) (hi : x < 2 ^ (bits - 1)) :
    signed bits x = .ok x := if_pos ⟨lo, hi⟩

theorem narrow_eq {bits : Nat} {x : Int} (lo : -(2 ^ bits) ≤ x * 2) (hi : x * 2 < 2 ^ bits) :
    narrow bits x = x := by
  rw [narrow, Int.bmod_eq_of_le_mul_two]
  · simpa using lo
  · simpa using hi

theorem quotient_ok {a b : Int} (h : b ≠ 0) : quotient a b = .ok (a.tdiv b) := if_neg h

theorem index_ok {α : Type} {xs : List α} {i : Int} (lo : 0 ≤ i) (hi : i.toNat < xs.length) :
    index xs i = .ok xs[i.toNat] := by
  simp [index, Int.not_lt.mpr lo, hi]

@[simp] theorem ok_bind {α β : Type} (a : α) (f : α → Except Fault β) :
    (Except.ok a >>= f) = f a := rfl

@[simp] theorem error_bind {α β : Type} (e : Fault) (f : α → Except Fault β) :
    (Except.error e >>= f) = Except.error e := rfl

theorem toOption_some {α : Type} {x : Except Fault α} {a : α} :
    x.toOption = some a ↔ x = .ok a := by
  cases x <;> simp [Except.toOption]

theorem bind_ok {α β : Type} {x : Except Fault α} {f : α → Except Fault β} {b : β}
    (h : (x >>= f) = .ok b) : ∃ a, x = .ok a ∧ f a = .ok b := by
  cases x with
  | error e => contradiction
  | ok a => exact ⟨a, rfl, h⟩

theorem ok_ne {α : Type} {a : α} {e : Fault} : Except.ok a ≠ Except.error e := by
  intro heq
  contradiction

theorem bind_ne {α β : Type} {x : Except Fault α} {f : α → Except Fault β} {e : Fault}
    (hx : x ≠ .error e) (hf : ∀ a, f a ≠ .error e) : (x >>= f) ≠ .error e := by
  cases x with
  | error e' => exact fun heq => hx (congrArg Except.error (Except.error.inj heq))
  | ok a => exact hf a

end Soc
