import Mathlib.Data.Nat.Bitwise
import Mathlib.Data.Rat.Defs
import Mathlib.Data.Rat.Floor
import Mathlib.Algebra.Order.Field.Rat
import Mathlib.Tactic.Ring
import Mathlib.Tactic.Linarith
import Mathlib.Tactic.FieldSimp
import Mathlib.Tactic.Positivity

/-!
Bit strings read as binary fractions, and the dyadic segments that hold them.

A finite string is continued by zeros, so every string has a value at every
depth. An interval keeps integer ends at a depth; halving its unit by reading
one more bit does not change which strings it holds. Nothing here depends on
how an interval is chosen.
-/
namespace BitString

/-- The number a string denotes, most significant bit first. -/
def toNat (bs : List Bool) : Nat :=
  bs.foldl (fun n b => 2 * n + b.toNat) 0

/-- The bit at a position; a string reads as zero past its end. -/
def bitAt (bs : List Bool) (i : Nat) : Bool := bs.getD i false

/-- The number denoted by the first `n` bits of the continued string. -/
def leading (bs : List Bool) : Nat → Nat
  | 0 => 0
  | n + 1 => 2 * leading bs n + (bitAt bs n).toNat

theorem foldl_toNat (bs : List Bool) (n : Nat) :
    bs.foldl (fun n b => 2 * n + b.toNat) n = n * 2 ^ bs.length + toNat bs := by
  induction bs generalizing n with
  | nil => simp [toNat]
  | cons b bs ih =>
      have hn := ih (2 * n + b.toNat)
      have h0 := ih b.toNat
      simp only [toNat, List.foldl_cons, List.length_cons, Nat.mul_zero, Nat.zero_add] at hn h0 ⊢
      rw [hn, h0, pow_succ]
      ring

@[simp] theorem toNat_nil : toNat [] = 0 := rfl

theorem toNat_append (as bs : List Bool) :
    toNat (as ++ bs) = toNat as * 2 ^ bs.length + toNat bs := by
  rw [toNat, List.foldl_append, foldl_toNat]
  rfl

theorem toNat_concat (bs : List Bool) (b : Bool) :
    toNat (bs ++ [b]) = 2 * toNat bs + b.toNat := by
  rw [toNat_append]
  simp [toNat]
  ring

theorem toNat_lt (bs : List Bool) : toNat bs < 2 ^ bs.length := by
  induction bs using List.reverseRecOn with
  | nil => simp
  | append_singleton bs b ih =>
      have hb : b.toNat ≤ 1 := Bool.toNat_le b
      rw [toNat_concat, List.length_append, List.length_singleton, pow_succ]
      omega

/-- A run of `n` equal bits: all zeros, or the largest number of that length. -/
theorem toNat_replicate (n : Nat) (b : Bool) :
    toNat (List.replicate n b) = b.toNat * (2 ^ n - 1) := by
  induction n with
  | zero => simp
  | succ n ih =>
      have hpos : 0 < 2 ^ n := by positivity
      rw [List.replicate_succ', toNat_concat, ih]
      cases b
      · simp
      · simp only [Bool.toNat_true, Nat.one_mul, pow_succ]
        omega

theorem bitAt_append_left (as bs : List Bool) (i : Nat) (h : i < as.length) :
    bitAt (as ++ bs) i = bitAt as i := by
  simp [bitAt, List.getElem?_append_left h]

/-- Zeros written after the end of a string are already there. -/
theorem bitAt_append_zeros (bs : List Bool) (n i : Nat) :
    bitAt (bs ++ List.replicate n false) i = bitAt bs i := by
  by_cases h : i < bs.length
  · exact bitAt_append_left bs _ i h
  · have hi : bs.length ≤ i := Nat.le_of_not_lt h
    simp only [bitAt, List.getD_eq_getElem?_getD, List.getElem?_append_right hi,
      List.getElem?_eq_none hi, List.getElem?_replicate]
    split <;> rfl

theorem leading_append_zeros (bs : List Bool) (n k : Nat) :
    leading (bs ++ List.replicate n false) k = leading bs k := by
  induction k with
  | zero => rfl
  | succ k ih => rw [leading, leading, ih, bitAt_append_zeros]

theorem leading_append_left (as bs : List Bool) (n : Nat) (h : n ≤ as.length) :
    leading (as ++ bs) n = leading as n := by
  induction n with
  | zero => rfl
  | succ n ih => rw [leading, leading, ih (by omega), bitAt_append_left as bs n h]

theorem leading_length (bs : List Bool) : leading bs bs.length = toNat bs := by
  induction bs using List.reverseRecOn with
  | nil => rfl
  | append_singleton bs b ih =>
      have hb : bitAt (bs ++ [b]) bs.length = b := by simp [bitAt]
      rw [List.length_append, List.length_singleton, leading, hb,
        leading_append_left bs [b] bs.length (Nat.le_refl _), ih, toNat_concat]

/-- Past its end a string only gains zeros. -/
theorem leading_length_add (bs : List Bool) (k : Nat) :
    leading bs (bs.length + k) = toNat bs * 2 ^ k := by
  induction k with
  | zero => simpa using leading_length bs
  | succ k ih =>
      have hb : bitAt bs (bs.length + k) = false := by simp [bitAt]
      rw [Nat.add_succ, leading, ih, hb, pow_succ]
      simp
      ring

/-- The leading bits are the integer part of the scaled string. -/
theorem leading_eq_div (bs : List Bool) (n : Nat) :
    leading bs n = toNat bs * 2 ^ n / 2 ^ bs.length := by
  by_cases h : n ≤ bs.length
  · obtain ⟨k, hk⟩ := Nat.exists_eq_add_of_le h
    have hsplit : bs.take n ++ bs.drop n = bs := List.take_append_drop n bs
    have hlen : (bs.take n).length = n := by simp [h]
    have hdrop : (bs.drop n).length = k := by simp [hk]
    have hlead : leading bs n = toNat (bs.take n) := by
      have hl := leading_append_left (bs.take n) (bs.drop n) n (by omega)
      have hl' := leading_length (bs.take n)
      rw [hsplit] at hl
      rw [hlen] at hl'
      rw [hl, hl']
    have hval : toNat bs = toNat (bs.take n) * 2 ^ k + toNat (bs.drop n) := by
      conv_lhs => rw [← hsplit, toNat_append, hdrop]
    have hlt : toNat (bs.drop n) < 2 ^ k := hdrop ▸ toNat_lt (bs.drop n)
    have hpos : 0 < 2 ^ n := by positivity
    rw [hlead, hval, hk, pow_add, Nat.mul_comm (2 ^ n) (2 ^ k),
      Nat.mul_div_mul_right _ _ hpos, Nat.mul_comm, Nat.mul_add_div (by positivity),
      Nat.div_eq_of_lt hlt, Nat.add_zero]
  · obtain ⟨k, hk⟩ := Nat.exists_eq_add_of_le (Nat.le_of_not_le h)
    rw [hk, leading_length_add, pow_add, Nat.mul_comm (2 ^ bs.length), ← Nat.mul_assoc,
      Nat.mul_div_cancel _ (by positivity)]

/-! The bits of bytes. -/

/-- The eight bits of a byte, most significant first. -/
def byteBits (b : UInt8) : List Bool :=
  (List.range 8).map fun i => b.toNat.testBit (7 - i)

def bytesBits (bs : List UInt8) : List Bool := bs.flatMap byteBits

/-- The low `n` bits of a number, most significant first. -/
def lowBits (n v : Nat) : List Bool :=
  (List.range n).map fun i => v.testBit (n - 1 - i)

theorem lowBits_length (n v : Nat) : (lowBits n v).length = n := by simp [lowBits]

theorem bytesBits_length (bs : List UInt8) : (bytesBits bs).length = 8 * bs.length := by
  simp [bytesBits, byteBits, List.length_flatMap, Nat.mul_comm]

theorem lowBits_succ (n v : Nat) (b : Bool) :
    lowBits (n + 1) (2 * v + b.toNat) = lowBits n v ++ [b] := by
  rw [lowBits, List.range_succ, List.map_append]
  congr 1
  · apply List.map_congr_left
    intro i hi
    have hi' : i < n := List.mem_range.mp hi
    have hsub : n + 1 - 1 - i = (n - 1 - i) + 1 := by omega
    have hdiv : (2 * v + b.toNat) / 2 = v := by have := Bool.toNat_le b; omega
    rw [hsub, Nat.testBit_succ, hdiv]
  · cases b <;> simp [Nat.testBit_zero]

theorem byteBits_eq (b : UInt8) : byteBits b = lowBits 8 b.toNat := rfl

@[simp] theorem bytesBits_append (as bs : List UInt8) :
    bytesBits (as ++ bs) = bytesBits as ++ bytesBits bs := List.flatMap_append

theorem lowBits_add (m n v : Nat) : lowBits (m + n) v = lowBits m (v / 2 ^ n) ++ lowBits n v := by
  rw [lowBits, List.range_add, List.map_append, List.map_map]
  congr 1
  · apply List.map_congr_left
    intro i hi
    have hi' : i < m := List.mem_range.mp hi
    rw [Nat.testBit_div_two_pow]
    congr 1
    omega
  · apply List.map_congr_left
    intro i hi
    rw [Function.comp_apply]
    congr 1
    omega

theorem lowBits_mod (n v : Nat) : lowBits n (v % 2 ^ n) = lowBits n v := by
  apply List.map_congr_left
  intro i hi
  have hi' : i < n := List.mem_range.mp hi
  rw [Nat.testBit_mod_two_pow, decide_eq_true (by omega), Bool.true_and]

theorem byteBits_ofNat (v : Nat) : byteBits (UInt8.ofNat v) = lowBits 8 v := by
  rw [byteBits_eq, UInt8.toNat_ofNat', lowBits_mod 8 v]

theorem lowBits_getElem? {n v i : Nat} {b : Bool} (h : (lowBits n v)[i]? = some b) :
    i < n ∧ b = v.testBit (n - 1 - i) := by
  rw [lowBits, List.getElem?_map] at h
  obtain ⟨j, hj, rfl⟩ := Option.map_eq_some_iff.mp h
  obtain ⟨hlt, hget⟩ := List.getElem?_eq_some_iff.mp hj
  rw [List.length_range] at hlt
  rw [List.getElem_range] at hget
  exact ⟨hlt, by rw [hget]⟩

/-- Flipping bytes flips their bits. -/
theorem bytesBits_xor {as bs : List UInt8} (h : as.length = bs.length) :
    bytesBits (List.zipWith (· ^^^ ·) as bs) =
      List.zipWith xor (bytesBits as) (bytesBits bs) := by
  induction as generalizing bs with
  | nil =>
      obtain rfl := List.eq_nil_of_length_eq_zero h.symm
      rfl
  | cons a as ih =>
      cases bs with
      | nil => simp at h
      | cons b bs =>
          have hbyte : byteBits (a ^^^ b) = List.zipWith xor (byteBits a) (byteBits b) := by
            simp only [byteBits, List.zipWith_map, List.zipWith_self, UInt8.toNat_xor,
              Nat.testBit_xor]
          have hlen : (byteBits a).length = (byteBits b).length := by simp [byteBits]
          simp only [bytesBits, List.zipWith_cons_cons, List.flatMap_cons, hbyte]
          rw [List.zipWith_append hlen]
          exact congrArg _ (ih (by simpa using h))

/-- The binary fraction a string denotes: a point of the unit interval. -/
def fraction (bs : List Bool) : ℚ := toNat bs / 2 ^ bs.length

/-- The fractions from `lo` to `hi` (both included) in units of `2⁻ᵈᵉᵖᵗʰ`. -/
structure Segment where
  lo : Nat
  hi : Nat
  depth : Nat

namespace Segment

/-- A string lies in an interval when its leading bits do. -/
def Contains (I : Segment) (bs : List Bool) : Prop :=
  I.lo ≤ leading bs I.depth ∧ leading bs I.depth ≤ I.hi

/-- The same interval in half the unit. -/
def double (I : Segment) : Segment := ⟨2 * I.lo, 2 * I.hi + 1, I.depth + 1⟩

theorem contains_double (I : Segment) (bs : List Bool) :
    I.double.Contains bs ↔ I.Contains bs := by
  have hb : (bitAt bs I.depth).toNat ≤ 1 := Bool.toNat_le _
  simp only [Contains, double, leading]
  omega

theorem contains_mono {I J : Segment} (hdepth : I.depth = J.depth)
    (hlo : J.lo ≤ I.lo) (hhi : I.hi ≤ J.hi) {bs : List Bool} (h : I.Contains bs) :
    J.Contains bs := by
  simp only [Contains, ← hdepth] at h ⊢
  omega

theorem contains_append_zeros (I : Segment) (bs : List Bool) (n : Nat) :
    I.Contains (bs ++ List.replicate n false) ↔ I.Contains bs := by
  simp only [Contains, leading_append_zeros]

/-- The ends of an interval as fractions; the upper end is excluded. -/
def lower (I : Segment) : ℚ := I.lo / 2 ^ I.depth
def upper (I : Segment) : ℚ := (I.hi + 1) / 2 ^ I.depth

theorem lower_double (I : Segment) : I.double.lower = I.lower := by
  simp only [lower, double, pow_succ]
  push_cast
  rw [mul_comm (2 : ℚ), mul_div_mul_right _ _ two_ne_zero]

theorem upper_double (I : Segment) : I.double.upper = I.upper := by
  simp only [upper, double, pow_succ]
  push_cast
  rw [show (2 * (I.hi : ℚ) + 1 + 1) = (I.hi + 1) * 2 by ring,
    mul_div_mul_right _ _ two_ne_zero]

/-- Membership by leading bits is membership of the fraction. -/
theorem contains_iff_fraction (I : Segment) (bs : List Bool) :
    I.Contains bs ↔ I.lower ≤ fraction bs ∧ fraction bs < I.upper := by
  have hd : (0 : ℚ) < 2 ^ I.depth := by positivity
  have hl : (0 : ℚ) < 2 ^ bs.length := by positivity
  have hpos : 0 < 2 ^ bs.length := by positivity
  have hlow : I.lower ≤ fraction bs ↔ I.lo * 2 ^ bs.length ≤ toNat bs * 2 ^ I.depth := by
    rw [lower, fraction, div_le_div_iff₀ hd hl]
    exact_mod_cast Iff.rfl
  have hupp : fraction bs < I.upper ↔ toNat bs * 2 ^ I.depth < (I.hi + 1) * 2 ^ bs.length := by
    rw [upper, fraction, div_lt_div_iff₀ hl hd]
    exact_mod_cast Iff.rfl
  have hdiv : toNat bs * 2 ^ I.depth / 2 ^ bs.length ≤ I.hi ↔
      toNat bs * 2 ^ I.depth < (I.hi + 1) * 2 ^ bs.length := by
    rw [← Nat.lt_succ_iff, Nat.div_lt_iff_lt_mul hpos]
  rw [Contains, leading_eq_div, hlow, hupp, Nat.le_div_iff_mul_le hpos, hdiv]

end Segment
end BitString
