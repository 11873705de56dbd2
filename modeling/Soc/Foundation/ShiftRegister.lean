import Mathlib.Algebra.BigOperators.Fin
import Mathlib.Algebra.Field.ZMod

/-!
Shift registers with linear feedback, and the error patterns they detect.

A register of `w` bits divides a bit string by a polynomial of degree `w` over
the field of two elements: `g` holds its coefficients below the leading one.
A string is a code word when it leaves the register clear. The register is
linear, so an error goes undetected exactly when the pattern of flipped bits
leaves a clear register clear.
-/
namespace ShiftRegister
variable {w : Nat}

/-- One bit through the register. -/
def step (g r : BitVec w) (b : Bool) : BitVec w := (r <<< 1) ^^^ (if r.msb ^^ b then g else 0#w)

def run (g r : BitVec w) (bs : List Bool) : BitVec w := bs.foldl (step g) r

@[simp] theorem run_nil (g r : BitVec w) : run g r [] = r := rfl

@[simp] theorem run_cons (g r : BitVec w) (b : Bool) (bs : List Bool) :
    run g r (b :: bs) = run g (step g r b) bs := rfl

theorem run_append (g r : BitVec w) (as bs : List Bool) :
    run g r (as ++ bs) = run g (run g r as) bs := List.foldl_append

/-! Linearity. -/

theorem step_xor (g r s : BitVec w) (a b : Bool) :
    step g (r ^^^ s) (a ^^ b) = step g r a ^^^ step g s b := by
  have htop : ((r.msb ^^ s.msb) ^^ (a ^^ b)) = ((r.msb ^^ a) ^^ (s.msb ^^ b)) := by
    simp only [Bool.xor_assoc, Bool.xor_left_comm]
  rw [step, step, step, BitVec.msb_xor, BitVec.shiftLeft_xor_distrib, htop]
  cases r.msb ^^ a <;> cases s.msb ^^ b
  · simp
  · simp [BitVec.xor_assoc]
  · simp only [Bool.bne_false, if_true, Bool.false_eq_true, if_false, BitVec.xor_zero]
    ac_rfl
  · simp only [bne_self_eq_false, Bool.false_eq_true, if_false, if_true, BitVec.xor_zero]
    rw [BitVec.xor_assoc (r <<< 1), ← BitVec.xor_assoc g, BitVec.xor_comm g,
      BitVec.xor_assoc (s <<< 1), BitVec.xor_self, BitVec.xor_zero]

/-- The flipped bits act on a clear register. -/
theorem run_xor (g r s : BitVec w) {as bs : List Bool} (h : as.length = bs.length) :
    run g (r ^^^ s) (List.zipWith xor as bs) = run g r as ^^^ run g s bs := by
  induction as generalizing r s bs with
  | nil =>
      obtain rfl := List.eq_nil_of_length_eq_zero h.symm
      rfl
  | cons a as ih =>
      cases bs with
      | nil => simp at h
      | cons b bs =>
          rw [List.zipWith_cons_cons, run_cons, step_xor, ih _ _ (by simpa using h), run_cons,
            run_cons]

@[simp] theorem step_clear (g : BitVec w) : step g 0#w false = 0#w := by simp [step]

theorem run_clear (g : BitVec w) {bs : List Bool} (h : true ∉ bs) : run g 0#w bs = 0#w := by
  induction bs with
  | nil => rfl
  | cons b bs ih =>
      rw [List.mem_cons, not_or] at h
      obtain rfl : b = false := by simpa using h.1
      rw [run_cons, step_clear, ih h.2]

/-! A string that repeats the register shifts it out. -/

theorem run_top (g r : BitVec w) (bs : List Bool)
    (h : ∀ (i : Nat) (b : Bool), bs[i]? = some b → b = r.getMsbD i) :
    run g r bs = r <<< bs.length := by
  induction bs generalizing r with
  | nil => simp
  | cons b bs ih =>
      have hhead : b = r.msb := h 0 b rfl
      have hstep : step g r b = r <<< 1 := by simp [step, hhead]
      have htail : ∀ (i : Nat) (c : Bool), bs[i]? = some c → c = (r <<< 1).getMsbD i := by
        intro i c hc
        rw [h (i + 1) c (by simpa using hc), BitVec.getMsbD_shiftLeft]
      rw [run_cons, hstep, ih _ htail, List.length_cons, ← BitVec.shiftLeft_add, Nat.add_comm]

theorem run_self (g r : BitVec w) {bs : List Bool} (hlen : bs.length = w)
    (h : ∀ (i : Nat) (b : Bool), bs[i]? = some b → b = r.getMsbD i) : run g r bs = 0#w := by
  rw [run_top g r bs h, hlen, BitVec.shiftLeft_eq_zero (Nat.le_refl w)]

/-! Bursts. The constant term of the polynomial is one, so a register that is
clear below some place was fed without feedback. -/

section Bursts
variable {g : BitVec w} (odd : g.getLsbD 0 = true)
include odd

theorem step_low {r : BitVec w} {b : Bool} {k : Nat} (hk : k < w)
    (h : ∀ i, i ≤ k → (step g r b).getLsbD i = false) :
    b = r.msb ∧ ∀ i, i < k → r.getLsbD i = false := by
  have hpos : 0 < w := by omega
  have hfirst := h 0 (Nat.zero_le k)
  have hb : b = r.msb := by
    by_contra hne
    have hfeed : (r.msb ^^ b) = true := by
      cases b <;> cases hmsb : r.msb <;> simp_all
    rw [step, hfeed, if_pos rfl, BitVec.getLsbD_xor, odd] at hfirst
    simp at hfirst
  refine ⟨hb, ?_⟩
  intro i hi
  have hnext := h (i + 1) (by omega)
  have hlt : i + 1 < w := by omega
  simpa [step, hb, hlt, ← BitVec.getLsbD_eq_getElem] using hnext

theorem run_low (bs : List Bool) (k : Nat) (hlen : bs.length + k ≤ w)
    (h : ∀ i, i < w - k → (run g 0#w bs).getLsbD i = false) : true ∉ bs := by
  induction bs using List.reverseRecOn generalizing k with
  | nil => simp
  | append_singleton bs b ih =>
      rw [List.length_append, List.length_singleton] at hlen
      have hrun : run g 0#w (bs ++ [b]) = step g (run g 0#w bs) b := run_append g _ bs [b]
      rw [hrun] at h
      obtain ⟨hb, hlow⟩ := step_low odd (k := w - k - 1) (by omega)
        (fun i hi => h i (by omega))
      have hnone : true ∉ bs := ih (k + 1) (by omega) (fun i hi => hlow i (by omega))
      rw [run_clear g hnone] at hb
      simp [hnone, hb]

/-- Up to `w` bits that are not all clear leave a mark. -/
theorem run_short {bs : List Bool} (hlen : bs.length ≤ w) (h : true ∈ bs) :
    run g 0#w bs ≠ 0#w := by
  intro hzero
  refine run_low odd bs 0 (by omega) ?_ h
  intro i _
  rw [hzero, BitVec.getLsbD_zero]

theorem step_mark (hpos : 0 < w) {r : BitVec w} (h : r ≠ 0#w) : step g r false ≠ 0#w := by
  intro hzero
  obtain ⟨hmsb, hlow⟩ := step_low odd (b := false) (k := w - 1) (by omega)
    (fun i _ => by rw [hzero, BitVec.getLsbD_zero])
  apply h
  apply BitVec.eq_of_getLsbD_eq
  intro i hi
  rw [BitVec.getLsbD_zero]
  by_cases hlast : i < w - 1
  · exact hlow i hlast
  · obtain rfl : i = w - 1 := by omega
    rw [← BitVec.msb_eq_getLsbD_last, ← hmsb]

/-- Clear bits do not remove a mark. -/
theorem run_mark (hpos : 0 < w) {r : BitVec w} (h : r ≠ 0#w) {bs : List Bool} (hbs : true ∉ bs) :
    run g r bs ≠ 0#w := by
  induction bs generalizing r with
  | nil => exact h
  | cons b bs ih =>
      rw [List.mem_cons, not_or] at hbs
      obtain rfl : b = false := by simpa using hbs.1
      exact ih (step_mark odd hpos h) hbs.2

/-- Flipped bits within `w` consecutive places are detected. -/
theorem burst_detected (hpos : 0 < w) {e : List Bool} (hsome : true ∈ e) (a : Nat)
    (hburst : ∀ i : Nat, e[i]? = some true → a ≤ i ∧ i < a + w) : run g 0#w e ≠ 0#w := by
  have hhead : true ∉ e.take a := by
    intro hmem
    obtain ⟨i, hi⟩ := List.mem_iff_getElem?.mp hmem
    have hlt : i < a := by
      have := (List.getElem?_eq_some_iff.mp hi).1
      rw [List.length_take] at this
      omega
    rw [List.getElem?_take_of_lt hlt] at hi
    have := (hburst i hi).1
    omega
  have htail : true ∉ (e.drop a).drop w := by
    intro hmem
    obtain ⟨i, hi⟩ := List.mem_iff_getElem?.mp hmem
    rw [List.getElem?_drop, List.getElem?_drop] at hi
    have := (hburst _ hi).2
    omega
  have hsplit : e = e.take a ++ ((e.drop a).take w ++ (e.drop a).drop w) := by
    rw [List.take_append_drop, List.take_append_drop]
  have hmid : true ∈ (e.drop a).take w := by
    rw [hsplit, List.mem_append, List.mem_append] at hsome
    exact (hsome.resolve_left hhead).resolve_right htail
  rw [hsplit, run_append, run_clear g hhead, run_append]
  refine run_mark odd hpos (run_short odd ?_ hmid) htail
  rw [List.length_take]
  exact Nat.min_le_left _ _

end Bursts

/-! Odd numbers of flipped bits: the polynomial has an even number of terms. -/

/-- The sum of the bits of a register. -/
def parity (r : BitVec w) : ZMod 2 := ∑ i : Fin w, if r.getLsbD i then 1 else 0

theorem bit_xor (a b : Bool) : (if a ^^ b then (1 : ZMod 2) else 0) =
    (if a then 1 else 0) + (if b then 1 else 0) := by
  cases a <;> cases b <;> decide

theorem parity_xor (r s : BitVec w) : parity (r ^^^ s) = parity r + parity s := by
  simp only [parity, BitVec.getLsbD_xor, bit_xor, Finset.sum_add_distrib]

@[simp] theorem parity_clear : parity 0#w = 0 := by simp [parity]

theorem parity_shift (r : BitVec w) :
    parity (r <<< 1) + (if r.msb then 1 else 0) = parity r := by
  cases w with
  | zero => simp [parity, BitVec.msb_eq_getLsbD_last]
  | succ n =>
      have hlow : ∀ i : Fin n, (r <<< 1).getLsbD (i.succ : Fin (n + 1)) =
          r.getLsbD (i.castSucc : Fin (n + 1)) := by
        intro i
        have hi := i.isLt
        simp [hi]
      rw [parity, Fin.sum_univ_succ, parity, Fin.sum_univ_castSucc]
      simp only [hlow, BitVec.msb_eq_getLsbD_last]
      simp

theorem parity_step {g : BitVec w} (hg : parity g = 1) (r : BitVec w) (b : Bool) :
    parity (step g r b) = parity r + if b then 1 else 0 := by
  have hfeed : parity (if r.msb ^^ b then g else 0#w) =
      (if r.msb then 1 else 0) + if b then 1 else 0 := by
    rw [← bit_xor]
    split
    · exact hg
    · exact parity_clear
  rw [step, parity_xor, hfeed, ← add_assoc, parity_shift]

theorem parity_run {g : BitVec w} (hg : parity g = 1) (r : BitVec w) (bs : List Bool) :
    parity (run g r bs) = parity r + (bs.count true : ZMod 2) := by
  induction bs generalizing r with
  | nil => simp
  | cons b bs ih =>
      rw [run_cons, ih, parity_step hg, List.count_cons, Nat.cast_add]
      cases b <;> simp [add_comm, add_assoc]

theorem odd_detected {g : BitVec w} (hg : parity g = 1) {e : List Bool}
    (hodd : Odd (e.count true)) : run g 0#w e ≠ 0#w := by
  intro hzero
  have hparity := parity_run hg 0#w e
  rw [hzero, parity_clear, zero_add, eq_comm, ZMod.natCast_eq_zero_iff_even] at hparity
  exact Nat.not_even_iff_odd.mpr hodd hparity

/-! Two flipped bits: the register fed with clear bits does not return too soon. -/

theorem count_split {e : List Bool} {n : Nat} (h : e.count true = n + 1) :
    ∃ p q, e = p ++ true :: q ∧ true ∉ p ∧ q.count true = n := by
  have hmem : true ∈ e := List.count_pos_iff.mp (by omega)
  obtain ⟨p, q, rfl, hp⟩ := List.eq_append_cons_of_mem hmem
  refine ⟨p, q, rfl, hp, ?_⟩
  rw [List.count_append, List.count_cons_self, List.count_eq_zero_of_not_mem hp] at h
  omega

/-- The register after `n` clear bits. -/
def idle (g r : BitVec w) (n : Nat) : BitVec w := run g r (List.replicate n false)

theorem idle_succ (g r : BitVec w) (n : Nat) : idle g r (n + 1) = step g (idle g r n) false := by
  rw [idle, List.replicate_succ', run_append]
  rfl

theorem run_idle (g r : BitVec w) {bs : List Bool} (h : true ∉ bs) :
    run g r bs = idle g r bs.length := by
  have hbs : bs = List.replicate bs.length false := by
    rw [List.eq_replicate_iff]
    refine ⟨rfl, ?_⟩
    intro b hb
    cases b with
    | false => rfl
    | true => exact absurd hb h
  rw [idle, ← hbs]

theorem pair_detected {g : BitVec w} (odd : g.getLsbD 0 = true) (hpos : 0 < w) {e : List Bool}
    (htwo : e.count true = 2) (hperiod : ∀ d, 0 < d → d < e.length → idle g g d ≠ g) :
    run g 0#w e ≠ 0#w := by
  obtain ⟨p, rest, rfl, hp, hrest⟩ := count_split htwo
  obtain ⟨q, t, rfl, hq, ht⟩ := count_split hrest
  have hfirst : step g 0#w true = g := by simp [step]
  have hsecond : step g (idle g g q.length) true = idle g g (q.length + 1) ^^^ g := by
    have hxor := step_xor g (idle g g q.length) 0#w false true
    rwa [BitVec.xor_zero, Bool.false_xor, hfirst, ← idle_succ] at hxor
  rw [run_append, run_clear g hp, run_cons, hfirst, run_append, run_idle g g hq, run_cons,
    hsecond]
  refine run_mark odd hpos ?_ (List.count_eq_zero.mp ht)
  intro hzero
  refine hperiod (q.length + 1) (by omega) ?_ (BitVec.xor_eq_zero_iff.mp hzero)
  simp only [List.length_append, List.length_cons]
  omega

/-! How long a register takes to return is a matter of computing. -/

/-- The step of a clear bit on values. -/
def shiftValue (width g r : Nat) : Nat :=
  if 2 * r < 2 ^ width then 2 * r else (2 * r - 2 ^ width) ^^^ g

/-- Within `n` clear bits from `r` the register does not hold `g`; the match
has every value computed before the next. -/
def avoids (width g : Nat) : Nat → Nat → Bool
  | 0, _ => true
  | n + 1, r =>
    match shiftValue width g r with
    | 0 => false
    | s + 1 => s + 1 != g && avoids width g n (s + 1)

theorem step_toNat (g r : BitVec w) (hpos : 0 < w) :
    (step g r false).toNat = shiftValue w g.toNat r.toNat := by
  have hr := r.isLt
  have hmsb : r.msb = decide (2 ^ w ≤ 2 * r.toNat) := by
    rw [BitVec.msb_eq_decide]
    obtain ⟨n, rfl⟩ : ∃ n, w = n + 1 := ⟨w - 1, by omega⟩
    rw [Nat.add_sub_cancel, Nat.pow_succ']
    congr 1
    apply propext
    omega
  have hshift : (r <<< 1).toNat = 2 * r.toNat % 2 ^ w := by
    rw [BitVec.toNat_shiftLeft, Nat.shiftLeft_eq, Nat.pow_one, Nat.mul_comm]
  rw [step, shiftValue, BitVec.toNat_xor, hshift, hmsb, Bool.xor_false]
  by_cases hlt : 2 * r.toNat < 2 ^ w
  · simp [hlt, Nat.not_le.mpr hlt, Nat.mod_eq_of_lt hlt]
  · have hmod : 2 * r.toNat % 2 ^ w = 2 * r.toNat - 2 ^ w := by
      rw [Nat.mod_eq_sub_mod (by omega), Nat.mod_eq_of_lt (by omega)]
    simp [hlt, Nat.not_lt.mp hlt, hmod]

theorem idle_of_avoids {g : BitVec w} (hpos : 0 < w) (n : Nat) (r : BitVec w)
    (h : avoids w g.toNat n r.toNat = true) : ∀ d, 0 < d → d ≤ n → idle g r d ≠ g := by
  induction n generalizing r with
  | zero => intros; omega
  | succ n ih =>
      rw [avoids, ← step_toNat g r hpos] at h
      split at h
      case h_1 => contradiction
      case h_2 s hs =>
          rw [Bool.and_eq_true, bne_iff_ne, ← Nat.succ_eq_add_one, ← hs] at h
          intro d hd hle
          cases d with
          | zero => omega
          | succ d =>
              have hfirst : idle g r (d + 1) = idle g (step g r false) d := by
                rw [idle, List.replicate_succ, run_cons]
                rfl
              rw [hfirst]
              cases d with
              | zero => exact fun heq => h.1 (congrArg BitVec.toNat heq)
              | succ d => exact ih _ h.2 (d + 1) (by omega) (by omega)

end ShiftRegister
