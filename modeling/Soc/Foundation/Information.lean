import Mathlib.Analysis.Complex.ExponentialBounds
import Mathlib.Analysis.SpecialFunctions.Log.Base

/-!
The information of a row of events.

An event of probability `p` takes `-log p` bits, base two, and a row of them the sum. A number of
bits is no more than that when as many halvings are still above the product of the probabilities.
Probabilities that are slightly too small cost slightly more.
-/
namespace Information

/-- The bits that tell a row of events of these probabilities. -/
noncomputable def information (ps : List ℚ) : ℝ := (ps.map fun p : ℚ => -Real.logb 2 p).sum

@[simp] theorem information_nil : information [] = 0 := rfl

@[simp] theorem information_cons (p : ℚ) (ps : List ℚ) :
    information (p :: ps) = -Real.logb 2 p + information ps := rfl

theorem information_eq {ps : List ℚ} (hpos : ∀ p ∈ ps, 0 < p) :
    information ps = -Real.logb 2 (ps.prod : ℚ) := by
  induction ps with
  | nil => simp
  | cons p ps ih =>
      have hp : (p : ℝ) ≠ 0 := by exact_mod_cast (hpos p List.mem_cons_self).ne'
      have hps : ∀ q ∈ ps, 0 < q := fun q hq => hpos q (List.mem_cons_of_mem _ hq)
      have hprod : ((ps.prod : ℚ) : ℝ) ≠ 0 := by exact_mod_cast (List.prod_pos hps).ne'
      rw [information_cons, ih hps, List.prod_cons, Rat.cast_mul, Real.logb_mul hp hprod, neg_add]

theorem le_information {ps : List ℚ} (hpos : ∀ p ∈ ps, 0 < p) {n : Nat}
    (h : 2 ^ n * ps.prod ≤ 1) : (n : ℝ) ≤ information ps := by
  have hprod : (0 : ℝ) < (ps.prod : ℚ) := by exact_mod_cast List.prod_pos hpos
  have hcast : (2 : ℝ) ^ n * (ps.prod : ℚ) ≤ 1 := by exact_mod_cast h
  have hlog : Real.logb 2 (2 ^ n * (ps.prod : ℚ)) ≤ Real.logb 2 1 :=
    Real.logb_le_logb_of_le one_lt_two (by positivity) hcast
  rw [Real.logb_mul (by positivity) hprod.ne', Real.logb_pow, Real.logb_one,
    Real.logb_self_eq_one one_lt_two, mul_one] at hlog
  rw [information_eq hpos]
  linarith

/-- What one event costs when its probability is short of a part in `k + 1`. -/
theorem logb_short {p q : ℚ} {k : Nat} (hk : 0 < k) (hq : 0 < q) (h : q * k ≤ p * (k + 1)) :
    -Real.logb 2 p ≤ -Real.logb 2 q + 3 / (2 * k) := by
  have hk' : (0 : ℝ) < k := by exact_mod_cast hk
  have hq' : (0 : ℝ) < q := by exact_mod_cast hq
  have hle : (q : ℝ) * k ≤ p * (k + 1) := by exact_mod_cast h
  have hp' : (0 : ℝ) < p := by
    have hpos : (0 : ℝ) < p * (k + 1) := (mul_pos hq' hk').trans_le hle
    exact pos_of_mul_pos_left hpos (by positivity)
  -- the logarithm of the quotient, and the logarithm of two from below
  have hratio : (q : ℝ) / p ≤ (k + 1) / k := by
    rw [div_le_div_iff₀ hp' hk']
    linarith
  have hlog : Real.log (q / p) ≤ 1 / k := by
    calc Real.log (q / p) ≤ q / p - 1 := Real.log_le_sub_one_of_pos (by positivity)
      _ ≤ (k + 1) / k - 1 := by linarith
      _ = 1 / k := by field_simp; ring
  have htwo : (2 : ℝ) / 3 ≤ Real.log 2 := by linarith [Real.log_two_gt_d9]
  have hlogb : Real.logb 2 (q / p) ≤ 3 / (2 * k) := by
    rw [Real.logb, div_le_iff₀ (by linarith)]
    calc Real.log (q / p) ≤ 1 / k := hlog
      _ = 3 / (2 * k) * (2 / 3) := by field_simp
      _ ≤ 3 / (2 * k) * Real.log 2 := by gcongr
  rw [Real.logb_div hq'.ne' hp'.ne'] at hlogb
  linarith

theorem information_short {α : Type} {f g : α → ℚ} {k : Nat} (hk : 0 < k) (xs : List α)
    (hpos : ∀ x ∈ xs, 0 < g x) (h : ∀ x ∈ xs, g x * k ≤ f x * (k + 1)) :
    information (xs.map f) ≤ information (xs.map g) + xs.length * (3 / (2 * k)) := by
  induction xs with
  | nil => simp
  | cons x xs ih =>
      have hx := logb_short hk (hpos x List.mem_cons_self) (h x List.mem_cons_self)
      have hxs := ih (fun y hy => hpos y (List.mem_cons_of_mem _ hy))
        fun y hy => h y (List.mem_cons_of_mem _ hy)
      rw [List.map_cons, List.map_cons, information_cons, information_cons, List.length_cons]
      push_cast
      linarith

end Information
