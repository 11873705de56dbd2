import Mathlib.Algebra.CharP.Two
import Mathlib.Algebra.Polynomial.Div
import Mathlib.Algebra.Polynomial.Monic
import Mathlib.Algebra.Polynomial.OfFn
import Mathlib.Tactic.LinearCombination
import Soc.Foundation.ShiftRegister

/-!
The shift register as division of polynomials over the field of two elements.

Bit `i` of a register is the coefficient of `X ^ i`, and the first bit of a string is its leading
coefficient. A run of the register leaves the remainder of what was in it, followed by the string
and one zero for each bit of the register.
-/
namespace ShiftRegister
open Polynomial
variable {w : Nat}

noncomputable def poly (r : BitVec w) : (ZMod 2)[X] := ofFn w fun i => if r.getLsbD i then 1 else 0

noncomputable def message : List Bool → (ZMod 2)[X]
  | [] => 0
  | b :: bs => (if b then X ^ bs.length else 0) + message bs

/-- The polynomial a register divides by: `g` holds its coefficients below the leading one. -/
noncomputable def modulus (g : BitVec w) : (ZMod 2)[X] := X ^ w + poly g

theorem coeff_poly (r : BitVec w) (k : Nat) :
    (poly r).coeff k = if r.getLsbD k then 1 else 0 := by
  by_cases h : k < w
  · exact ofFn_coeff_eq_val_of_lt _ h
  · have hout : r.getLsbD k = false := BitVec.getLsbD_of_ge r k (Nat.le_of_not_lt h)
    rw [hout]
    exact ofFn_coeff_eq_zero_of_ge _ (Nat.le_of_not_lt h)

theorem poly_xor (r s : BitVec w) : poly (r ^^^ s) = poly r + poly s := by
  ext k
  simp only [coeff_add, coeff_poly, BitVec.getLsbD_xor, bit_xor]

@[simp] theorem poly_clear : poly 0#w = 0 := by
  ext k
  simp [coeff_poly]

theorem poly_shift (r : BitVec w) :
    poly (r <<< 1) + (if r.msb then X ^ w else 0) = X * poly r := by
  ext k
  have htop : (if r.msb then (X ^ w : (ZMod 2)[X]) else 0).coeff k =
      if k = w ∧ r.msb then 1 else 0 := by
    split <;> simp_all [coeff_X_pow]
  rw [coeff_add, coeff_poly, htop, BitVec.getLsbD_shiftLeft]
  cases k with
  | zero =>
      have hmsb : ¬(0 = w ∧ r.msb = true) := by
        intro ⟨hw, hset⟩
        subst hw
        simp [BitVec.eq_nil r] at hset
      simp [hmsb]
  | succ k =>
      rw [coeff_X_mul, coeff_poly]
      by_cases hin : k + 1 < w
      · simp [hin, show ¬(k + 1 = w ∧ r.msb = true) by omega]
      · by_cases hlast : k + 1 = w
        · have hmsb : r.msb = r.getLsbD k := by
            rw [BitVec.msb_eq_getLsbD_last, show w - 1 = k by omega]
          simp [hlast, hmsb]
        · have hout : r.getLsbD k = false := BitVec.getLsbD_of_ge r k (by omega)
          simp [hin, hlast, hout]

theorem degree_poly_lt (r : BitVec w) : (poly r).degree < w := ofFn_degree_lt _

theorem modulus_monic (g : BitVec w) : (modulus g).Monic := monic_X_pow_add (degree_poly_lt g)

theorem degree_modulus (g : BitVec w) : (modulus g).degree = w := by
  have hlt : (poly g).degree < (X ^ w : (ZMod 2)[X]).degree := by
    rw [degree_X_pow]
    exact degree_poly_lt g
  rw [modulus, degree_add_eq_left_of_degree_lt hlt, degree_X_pow]

/-- A bit moves the register up by one; where a one leaves it, the modulus is taken off. -/
theorem poly_step (g r : BitVec w) (b : Bool) :
    poly (step g r b) + (if r.msb ^^ b then modulus g else 0) =
      X * poly r + if b then X ^ w else 0 := by
  have hfeed : poly (if r.msb ^^ b then g else 0#w) = if r.msb ^^ b then poly g else 0 := by
    split <;> simp
  have htwice : ∀ p : (ZMod 2)[X], p + p = 0 := CharTwo.add_self_eq_zero
  rw [step, poly_xor, hfeed, ← poly_shift, modulus]
  cases r.msb <;> cases b
  · simp
  · simp [add_assoc, add_comm (poly g), htwice]
  · simp [add_assoc, add_comm (poly g), htwice]
  · simp [add_assoc, htwice]

/-- The register holds what is in it and has come since, up to multiples of the modulus. -/
theorem modulus_dvd_run (g r : BitVec w) (bs : List Bool) :
    modulus g ∣ X ^ bs.length * poly r + X ^ w * message bs - poly (run g r bs) := by
  induction bs generalizing r with
  | nil => simp [message]
  | cons b bs ih =>
      obtain ⟨q, hq⟩ := ih (step g r b)
      have hstep := poly_step g r b
      have hfirst : (X ^ w : (ZMod 2)[X]) * (if b then X ^ bs.length else 0) =
          X ^ bs.length * (if b then X ^ w else 0) := by
        split <;> ring
      have hfeed : (modulus g) * (if r.msb ^^ b then X ^ bs.length else 0) =
          X ^ bs.length * (if r.msb ^^ b then modulus g else 0) := by
        split <;> ring
      refine ⟨q + (if r.msb ^^ b then X ^ bs.length else 0), ?_⟩
      rw [run_cons, message, List.length_cons, mul_add, mul_add, ← hq, hfirst, hfeed]
      linear_combination -X ^ bs.length * hstep

/-- A run divides: the register is left with the remainder. -/
theorem poly_run (g r : BitVec w) (bs : List Bool) :
    poly (run g r bs) = (X ^ bs.length * poly r + X ^ w * message bs) %ₘ modulus g := by
  obtain ⟨q, hq⟩ := modulus_dvd_run g r bs
  refine ((div_modByMonic_unique q _ (modulus_monic g) ⟨?_, ?_⟩).2).symm
  · rw [← hq]
    ring
  · rw [degree_modulus]
    exact degree_poly_lt _

end ShiftRegister
