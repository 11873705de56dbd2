import Mathlib.Data.List.Basic

/-!
Synchronous circuits.

The registers of a circuit are known at each clock after reset; an edge replaces all of
them at once, from their values and the inputs before it. What a circuit emits is a
stream with at most one value a clock.
-/
namespace Clocked
variable {σ ι α : Type}

/-- The registers at each clock after reset. -/
def registers (clock : σ → ι → σ) (reset : σ) (input : Nat → ι) : Nat → σ
  | 0 => reset
  | t + 1 => clock (registers clock reset input t) (input t)

/-- The values of a stream before clock `n`, in order. -/
def emitted (stream : Nat → Option α) (n : Nat) : List α := (List.range n).filterMap stream

section Registers
variable {clock : σ → ι → σ} {reset : σ} {input : Nat → ι}

@[simp] theorem registers_zero : registers clock reset input 0 = reset := rfl

theorem registers_succ (t : Nat) :
    registers clock reset input (t + 1) = clock (registers clock reset input t) (input t) := rfl

theorem registers_add (n t : Nat) :
    registers clock reset input (n + t) =
      registers clock (registers clock reset input n) (fun u => input (n + u)) t := by
  induction t with
  | zero => rfl
  | succ t ih => rw [← Nat.add_assoc, registers_succ, registers_succ, ih]

/-- The registers of a part, driven by what the whole gives it. -/
theorem registers_part {τ κ : Type} {part : σ → τ} {clock' : τ → κ → τ} {input' : Nat → κ}
    (hclock : ∀ t s, s = registers clock reset input t →
      part (clock s (input t)) = clock' (part s) (input' t)) (t : Nat) :
    part (registers clock reset input t) = registers clock' (part reset) input' t := by
  induction t with
  | zero => rfl
  | succ t ih => rw [registers_succ, registers_succ, hclock t _ rfl, ih]

end Registers

section Streams
variable {stream stream' : Nat → Option α}

@[simp] theorem emitted_zero : emitted stream 0 = [] := rfl

theorem emitted_succ (n : Nat) :
    emitted stream (n + 1) = emitted stream n ++ (stream n).toList := by
  rw [emitted, List.range_succ, List.filterMap_append, ← emitted]
  cases h : stream n <;> simp [h]

theorem emitted_silent {n : Nat} (h : ∀ t < n, stream t = none) : emitted stream n = [] := by
  rw [emitted, List.filterMap_eq_nil_iff]
  intro t ht
  exact h t (List.mem_range.mp ht)

theorem emitted_add (n m : Nat) :
    emitted stream (n + m) = emitted stream n ++ emitted (fun t => stream (n + t)) m := by
  induction m with
  | zero => simp
  | succ m ih => rw [← Nat.add_assoc, emitted_succ, emitted_succ, ih, List.append_assoc]

/-- A stream that repeats another one some clocks later. -/
theorem emitted_delayed {delay : Nat} (hbefore : ∀ t < delay, stream' t = none)
    (hlater : ∀ t, stream' (t + delay) = stream t) (n : Nat) :
    emitted stream' (n + delay) = emitted stream n := by
  induction n with
  | zero => rw [Nat.zero_add, emitted_silent hbefore, emitted_zero]
  | succ n ih => rw [Nat.succ_add, emitted_succ, emitted_succ, ih, hlater]

end Streams
end Clocked
