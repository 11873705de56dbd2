import Soc.Coding.ArithmeticEncoder
import Soc.Coding.Rescaling

/-!
The loops of `update` end for registers of any kind.

A turn moves the registers up by one bit. After as many turns as the registers have bits, none of
the bits they started with is left, and what came in from below ends either loop: so the bound of
the model cuts nothing off, also where the frequencies are not those of a symbol.
-/
namespace Soc
namespace ArithmeticCoderBase

theorem double_testBit (x : UInt64) {j : Nat} (h : j < 63) :
    (x <<< 1).toNat.testBit (j + 1) = x.toNat.testBit j := by
  have hone : (1 : UInt64).toNat % 64 = 1 := rfl
  rw [UInt64.toNat_shiftLeft, hone, Nat.testBit_mod_two_pow, Nat.testBit_shiftLeft]
  simp
  omega

theorem double_testBit_zero (x : UInt64) : (x <<< 1).toNat.testBit 0 = false := by
  have hone : (1 : UInt64).toNat % 64 = 1 := rfl
  rw [UInt64.toNat_shiftLeft, hone, Nat.testBit_mod_two_pow, Nat.testBit_shiftLeft]
  simp

/-- The bits that came in below in the first loop, when it may still take `n` turns. -/
def Filled (n : Nat) (c : ArithmeticCoderBase) : Prop :=
  ∀ j, j + n < c.size.bits → c.low.toNat.testBit j = false ∧ c.high.toNat.testBit j = true

/-- The bits that came in below in the second loop. -/
def Cleared (n : Nat) (c : ArithmeticCoderBase) : Prop :=
  ∀ j, j + n + 1 < c.size.bits → c.low.toNat.testBit j = false

theorem Filled.last {c : ArithmeticCoderBase} (h : Filled 0 c) : ¬ c.SameTop := by
  have hpos := c.size.pos
  obtain ⟨hlow, hhigh⟩ := h (c.size.bits - 1) (by omega)
  rw [SameTop, ← UInt64.toNat_inj, UInt64.toNat_and, UInt64.toNat_xor,
    StateSize.halfRange_toNat, StateSize.half, Nat.and_two_pow, Nat.testBit_xor, hlow, hhigh]
  simp

theorem Filled.turn {c : ArithmeticCoderBase} {n : Nat} (h : Filled (n + 1) c) :
    Filled n c.shifted := by
  intro j hj
  have hle := c.size.le
  have hmask : c.size.stateMask.toNat.testBit j = true := by
    rw [StateSize.stateMask_toNat, StateSize.two_half, Nat.testBit_two_pow_sub_one]
    simp only [shifted] at hj
    simpa using Nat.lt_of_le_of_lt (Nat.le_add_right j n) hj
  rw [shifted, UInt64.toNat_and, Nat.testBit_and, UInt64.toNat_or, Nat.testBit_or,
    UInt64.toNat_and, Nat.testBit_and, hmask, Bool.and_true, Bool.and_true]
  cases j with
  | zero => exact ⟨double_testBit_zero c.low, by simp⟩
  | succ j =>
      obtain ⟨hlow, hhigh⟩ := h j (by simp only [shifted] at hj; omega)
      simp only [shifted] at hj
      rw [double_testBit _ (by omega), double_testBit _ (by omega), hlow, hhigh]
      exact ⟨rfl, rfl⟩

theorem Cleared.last {c : ArithmeticCoderBase} (h : Cleared 0 c) : ¬ c.Straddles := by
  have hpos := c.size.pos
  rw [Straddles, not_not, ← UInt64.toNat_inj, UInt64.toNat_and, UInt64.toNat_and,
    StateSize.quarterRange_toNat, StateSize.half]
  by_cases hone : c.size.bits = 1
  · rw [hone]
    simp
  · have hquarter : 2 ^ (c.size.bits - 1) / 2 = 2 ^ (c.size.bits - 2) := by
      rw [show c.size.bits - 1 = c.size.bits - 2 + 1 by omega, pow_succ,
        Nat.mul_div_cancel _ (by decide)]
    rw [hquarter, Nat.and_two_pow, Nat.testBit_and, h (c.size.bits - 2) (by omega)]
    simp

theorem Cleared.turn {c : ArithmeticCoderBase} {n : Nat} (h : Cleared (n + 1) c) :
    Cleared n c.widened := by
  intro j hj
  have hle := c.size.le
  simp only [widened] at hj
  have htop : c.size.halfRange.toNat.testBit j = false := by
    rw [StateSize.halfRange_toNat, StateSize.half, Nat.testBit_two_pow]
    simp
    omega
  rw [widened, UInt64.toNat_xor, Nat.testBit_xor, htop, Bool.xor_false]
  cases j with
  | zero => exact double_testBit_zero c.low
  | succ j =>
      rw [double_testBit _ (by omega)]
      exact h j (by omega)

/-- An update whose methods end does so itself. -/
theorem update_finishes {σ : Type} {m : Methods σ}
    (hshift : ∀ c s, m.shift c s ≠ .error .unfinished)
    (hunderflow : ∀ c s, m.underflow c s ≠ .error .unfinished) (c : ArithmeticCoderBase) (s : σ)
    (t : Triple) : update m c s t ≠ .error .unfinished := by
  have hfilled : Filled (c.narrowed t).size.bits (c.narrowed t) := fun j hj => by omega
  have hfirst := Whiles.loop_finishes Filled (fun _ h => h.last) (fun _ _ h _ => h.turn) hshift s
    hfilled
  rw [← shiftLoop_eq] at hfirst
  have hsecond : ∀ (c : ArithmeticCoderBase) (s : σ),
      underflowLoop m c.size.bits c s ≠ .error .unfinished := by
    intro c s
    have hcleared : Cleared c.size.bits c := fun j hj => by omega
    rw [underflowLoop_eq]
    exact Whiles.loop_finishes Cleared (fun _ h => h.last) (fun _ _ h _ => h.turn) hunderflow s
      hcleared
  rw [update]
  split
  · intro heq
    cases heq
  · exact bind_ne hfirst fun r => hsecond r.1 r.2

end ArithmeticCoderBase

namespace ArithmeticEncoder
open ArithmeticCoderBase

theorem write_bit_finishes (charIsSigned : Bool) (out : BitOutputStream) (b : Int) :
    out.write charIsSigned b ≠ .error .unfinished := by
  rw [BitOutputStream.write]
  split
  · intro heq
    cases heq
  · dsimp only
    split
    · exact ok_ne
    · exact ok_ne

theorem writePending_finishes (charIsSigned : Bool) (bit : Int) (n : Nat) (out : BitOutputStream) :
    writePending charIsSigned bit n out ≠ .error .unfinished := by
  induction n generalizing out with
  | zero => exact ok_ne
  | succ n ih => exact bind_ne (write_bit_finishes charIsSigned out _) fun out => ih out

/-- The encoder takes frequencies of any kind, in any order, and comes to an end. -/
theorem write_finishes (charIsSigned : Bool) (s : ArithmeticCoderBase × ArithmeticEncoder)
    (t : Triple) : write charIsSigned s t ≠ .error .unfinished := by
  have hunderflow : ∀ c e, (methods charIsSigned).underflow c e ≠ .error .unfinished := by
    intro c e
    change underflow c e ≠ _
    rw [underflow]
    exact ok_ne
  refine update_finishes ?_ hunderflow s.1 s.2 t
  intro c e
  refine bind_ne (write_bit_finishes charIsSigned e.output _) fun out => ?_
  exact bind_ne (writePending_finishes charIsSigned _ e.numUnderflow out) fun _ => ok_ne

end ArithmeticEncoder
end Soc
