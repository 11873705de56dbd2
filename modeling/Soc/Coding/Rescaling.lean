import Soc.Coding.ArithmeticCoder
import Mathlib.Tactic.IntervalCases
import Soc.Foundation.Whiles

/-!
What one turn of either loop of `update` does to the registers as numbers, and
the rules that carry a relation between two coders over the same registers
through a whole `update`.

Both turns are one operation: an offset is taken from the registers, half of
the range when they share a set top bit, a quarter when they straddle the half
closely, and the rest is doubled. The range doubles exactly, which bounds the
number of turns.
-/
namespace Soc

theorem testBit_top {k x : Nat} (h : x < 2 * 2 ^ k) : x.testBit k = decide (2 ^ k ≤ x) := by
  have hpos : 0 < 2 ^ k := by positivity
  rw [Nat.testBit_eq_decide_div_mod_eq]
  by_cases hx : 2 ^ k ≤ x
  · have hdiv : x / 2 ^ k = 1 := Nat.div_eq_of_lt_le (by omega) (by omega)
    simp [hdiv, hx]
  · have hdiv : x / 2 ^ k = 0 := Nat.div_eq_of_lt (by omega)
    simp [hdiv, hx]

/-- The bit below the top one, on either side of the half. -/
theorem testBit_second {k x : Nat} (h : x < 4 * 2 ^ k) :
    x.testBit k = decide (2 ^ k ≤ x ∧ x < 2 * 2 ^ k ∨ 3 * 2 ^ k ≤ x) := by
  have hpos : 0 < 2 ^ k := by positivity
  have hdiv := Nat.div_add_mod x (2 ^ k)
  have hmod := Nat.mod_lt x hpos
  have hlt : x / 2 ^ k < 4 := Nat.div_lt_of_lt_mul (by omega)
  rw [Nat.testBit_eq_decide_div_mod_eq]
  apply decide_eq_decide.mpr
  generalize x / 2 ^ k = q at *
  interval_cases q <;> omega

theorem xor_two_pow {k x : Nat} (lo : 2 ^ k ≤ x) (hi : x < 2 * 2 ^ k) :
    x ^^^ 2 ^ k = x - 2 ^ k := by
  have hlt : x - 2 ^ k < 2 ^ k := by omega
  have hx : x = 2 ^ k ||| (x - 2 ^ k) := by
    have h := Nat.two_pow_add_eq_or_of_lt hlt 1
    rw [Nat.mul_one] at h
    omega
  apply Nat.eq_of_testBit_eq
  intro i
  have hbit : x.testBit i = ((2 ^ k).testBit i || (x - 2 ^ k).testBit i) := by
    conv_lhs => rw [hx, Nat.testBit_or]
  rw [Nat.testBit_xor, hbit, Nat.testBit_two_pow]
  by_cases hik : k = i
  · subst hik
    simp [Nat.testBit_lt_two_pow hlt]
  · simp [hik]

theorem even_or_one (x : Nat) : 2 * x ||| 1 = 2 * x + 1 := by
  simpa using (Nat.two_pow_add_eq_or_of_lt (i := 1) (b := 1) (by decide) x).symm

namespace ArithmeticCoderBase

theorem sameTop_iff {c : ArithmeticCoderBase} (ord : c.Ordered) :
    c.SameTop ↔ (c.size.half ≤ c.low.toNat ↔ c.size.half ≤ c.high.toNat) := by
  have hlow := testBit_top (k := c.size.bits - 1) (x := c.low.toNat)
    (Nat.lt_of_le_of_lt ord.le ord.lt)
  have hhigh := testBit_top (k := c.size.bits - 1) (x := c.high.toNat) ord.lt
  have hpos := c.size.half_pos
  rw [SameTop, ← UInt64.toNat_inj, UInt64.toNat_and, UInt64.toNat_xor,
    StateSize.halfRange_toNat, StateSize.half, Nat.and_two_pow, Nat.testBit_xor, hlow, hhigh]
  by_cases h1 : 2 ^ (c.size.bits - 1) ≤ c.low.toNat <;>
    by_cases h2 : 2 ^ (c.size.bits - 1) ≤ c.high.toNat <;> simp [h1, h2]

/-- The straddling registers are those within a quarter of the half. -/
theorem straddles_iff {c : ArithmeticCoderBase} (low : c.low.toNat < c.size.half)
    (high : c.size.half ≤ c.high.toNat) (lt : c.high.toNat < 2 * c.size.half) :
    c.Straddles ↔ 2 ≤ c.size.bits ∧ c.size.half / 2 ≤ c.low.toNat ∧
      c.high.toNat < c.size.half + c.size.half / 2 := by
  have hpos := c.size.pos
  have hle := c.size.half_le
  rw [Straddles, Ne, ← UInt64.toNat_inj, UInt64.toNat_and, UInt64.toNat_and,
    StateSize.quarterRange_toNat]
  by_cases hone : c.size.bits = 1
  · have hhalf : c.size.half = 1 := by simp [StateSize.half, hone]
    simp [hhalf, hone]
  · obtain ⟨k, hk⟩ := Nat.exists_eq_add_of_le (show 2 ≤ c.size.bits by omega)
    have hhalf : c.size.half = 2 * 2 ^ k := by
      rw [StateSize.half, hk, show 2 + k - 1 = k + 1 by omega, pow_succ, Nat.mul_comm]
    have hquarter : c.size.half / 2 = 2 ^ k := by omega
    have hlow := testBit_top (k := k) (x := c.low.toNat) (by omega)
    have hhigh := testBit_second (k := k) (x := c.high.toNat) (by omega)
    have hnot : (~~~c.high).toNat.testBit k = !c.high.toNat.testBit k := by
      have hk64 : k < 64 := by have := c.size.le; omega
      rw [← UInt64.toNat_toBitVec, UInt64.toBitVec_not, ← BitVec.getLsbD, BitVec.getLsbD_not]
      simp [hk64, BitVec.getLsbD]
    rw [hquarter, Nat.and_two_pow, Nat.testBit_and, hnot, hlow, hhigh]
    have hp : 0 < 2 ^ k := by positivity
    by_cases h1 : 2 ^ k ≤ c.low.toNat <;>
      by_cases h2 : c.high.toNat < c.size.half + 2 ^ k <;>
      simp [h1, h2] <;> omega

theorem double_toNat {x : UInt64} {n : StateSize} (h : x.toNat < 2 * n.half) :
    (x <<< 1).toNat = 2 * x.toNat := by
  have hle := n.half_le
  rw [UInt64.toNat_shiftLeft, Nat.shiftLeft_eq]
  simp
  omega

theorem masked_toNat (n : StateSize) (x : UInt64) :
    (x &&& n.stateMask).toNat = x.toNat % (2 * n.half) := by
  rw [UInt64.toNat_and, StateSize.stateMask_toNat, StateSize.two_half,
    Nat.and_two_pow_sub_one_eq_mod]

/-- The offset of a turn of the first loop: half of the range, if the top bit is set. -/
def topOffset (c : ArithmeticCoderBase) : Nat :=
  if c.size.half ≤ c.low.toNat then c.size.half else 0

theorem shifted_rescaled {c : ArithmeticCoderBase} (ord : c.Ordered) (top : c.SameTop) :
    Rescaled c c.shifted c.topOffset := by
  have htop := (sameTop_iff ord).mp top
  have hle := ord.le
  have hlt := ord.lt
  have hlow : c.shifted.low.toNat = 2 * c.low.toNat % (2 * c.size.half) := by
    rw [shifted, masked_toNat, double_toNat (n := c.size) (by omega)]
  have hhigh : c.shifted.high.toNat = 2 * (c.high.toNat % c.size.half) + 1 := by
    rw [shifted, UInt64.toNat_or, masked_toNat, double_toNat hlt, Nat.mul_mod_mul_left]
    exact even_or_one _
  rw [Nat.mul_mod_mul_left] at hlow
  unfold topOffset
  split
  case isTrue h =>
      have h' := htop.mp h
      have hl : c.low.toNat % c.size.half = c.low.toNat - c.size.half := by
        rw [Nat.mod_eq_sub_mod h, Nat.mod_eq_of_lt (by omega)]
      have hh : c.high.toNat % c.size.half = c.high.toNat - c.size.half := by
        rw [Nat.mod_eq_sub_mod h', Nat.mod_eq_of_lt (by omega)]
      exact ⟨rfl, h, by rw [hlow, hl], by rw [hhigh, hh]⟩
  case isFalse h =>
      have h' : ¬ c.size.half ≤ c.high.toNat := fun hc => h (htop.mpr hc)
      exact ⟨rfl, Nat.zero_le _, by rw [hlow, Nat.mod_eq_of_lt (by omega), Nat.sub_zero],
        by rw [hhigh, Nat.mod_eq_of_lt (by omega), Nat.sub_zero]⟩

theorem widened_rescaled {c : ArithmeticCoderBase} (low : c.low.toNat < c.size.half)
    (high : c.size.half ≤ c.high.toNat) (lt : c.high.toNat < 2 * c.size.half)
    (near : c.Straddles) : Rescaled c c.widened (c.size.half / 2) := by
  obtain ⟨htwo, hlow, hhigh⟩ := (straddles_iff low high lt).mp near
  have hle := c.size.half_le
  obtain ⟨k, hk⟩ := Nat.exists_eq_add_of_le htwo
  have hhalf : c.size.half = 2 ^ (k + 1) := by
    rw [StateSize.half, hk, show 2 + k - 1 = k + 1 by omega]
  have heven : 2 * (c.size.half / 2) = c.size.half := by rw [hhalf, pow_succ]; omega
  refine ⟨rfl, hlow, ?_, ?_⟩
  · have hd := double_toNat (x := c.low) (n := c.size) (by omega)
    have hx : 2 * c.low.toNat ^^^ 2 ^ (k + 1) = 2 * c.low.toNat - 2 ^ (k + 1) :=
      xor_two_pow (by omega) (by omega)
    rw [widened, UInt64.toNat_xor, hd, StateSize.halfRange_toNat, hhalf, hx]
    omega
  · have hx : (c.high ^^^ c.size.halfRange).toNat = c.high.toNat - c.size.half := by
      rw [UInt64.toNat_xor, StateSize.halfRange_toNat, hhalf]
      exact xor_two_pow (by omega) (by omega)
    have hd := double_toNat (x := c.high ^^^ c.size.halfRange) (n := c.size) (by omega)
    have hor := Nat.two_pow_add_eq_or_of_lt (i := k + 1)
      (b := 2 * (c.high.toNat - c.size.half)) (by omega) 1
    rw [Nat.mul_one, ← hhalf, Nat.or_comm] at hor
    have hsum : c.size.half + 2 * (c.high.toNat - c.size.half) =
        2 * (c.high.toNat - c.size.half / 2) := by omega
    rw [widened, UInt64.toNat_or, UInt64.toNat_or, hd, hx, StateSize.halfRange_toNat, ← hor, hsum]
    exact even_or_one _

/-! Narrowing. -/

theorem range_toNat {c : ArithmeticCoderBase} (ord : c.Ordered) :
    c.range.toNat = c.high.toNat - c.low.toNat + 1 := by
  have hle := ord.le
  have hlt := ord.lt
  have hhalf := c.size.half_le
  rw [range, UInt64.toNat_add, UInt64.toNat_sub]
  simp
  omega

end ArithmeticCoderBase

/-- The arguments `write` is meant for, at a state size. -/
structure Triple.Valid (t : Triple) (n : StateSize) : Prop where
  low_lt : t.symLow.toNat < t.symHigh.toNat
  high_le : t.symHigh.toNat ≤ t.total.toNat
  total_le : t.total.toNat ≤ n.maximumTotal.toNat

namespace ArithmeticCoderBase

/-- One end of the narrowed range: the integer part of `sym * range / total`. -/
def cut (sym total : UInt32) (range : Nat) : Nat := sym.toNat * range / total.toNat

theorem cut_toNat {c : ArithmeticCoderBase} (ord : c.Ordered) {sym total : UInt32}
    (hsym : sym.toNat ≤ total.toNat) (htotal : total.toNat ≤ c.size.maximumTotal.toNat) :
    (sym.toUInt64 * c.range / total.toUInt64).toNat =
      cut sym total (c.high.toNat - c.low.toNat + 1) := by
  have hlt := ord.lt
  have hrange : c.high.toNat - c.low.toNat + 1 ≤ 2 * c.size.half := by omega
  have hprod : sym.toNat * (c.high.toNat - c.low.toNat + 1) < 2 ^ 64 :=
    Nat.lt_of_le_of_lt (Nat.mul_le_mul (hsym.trans htotal) hrange) c.size.maximumTotal_mul_lt
  rw [UInt64.toNat_div, UInt64.toNat_mul, UInt32.toNat_toUInt64, UInt32.toNat_toUInt64,
    range_toNat ord, Nat.mod_eq_of_lt hprod, cut]

/-- A valid slice leaves at least one value of the range between its cuts. -/
theorem cut_lt {t : Triple} {n : StateSize} (valid : t.Valid n) (range : Nat)
    (wide : n.half / 2 + 2 ≤ range) : cut t.symLow t.total range < cut t.symHigh t.total range := by
  have hlow := valid.low_lt
  have hhigh := valid.high_le
  have htotal : t.total.toNat ≤ range := by
    have h1 := valid.total_le
    rw [StateSize.maximumTotal_toNat] at h1
    omega
  have hpos : 0 < t.total.toNat := by omega
  calc cut t.symLow t.total range
      < (t.symLow.toNat * range + t.total.toNat) / t.total.toNat := by
        rw [Nat.add_div_right _ hpos]
        exact Nat.lt_succ_self _
    _ ≤ cut t.symHigh t.total range := by
        apply Nat.div_le_div_right
        calc t.symLow.toNat * range + t.total.toNat
            ≤ t.symLow.toNat * range + range := Nat.add_le_add_left htotal _
          _ = (t.symLow.toNat + 1) * range := by ring
          _ ≤ t.symHigh.toNat * range := Nat.mul_le_mul_right _ hlow

theorem cut_le {t : Triple} {n : StateSize} (valid : t.Valid n) (range : Nat) :
    cut t.symHigh t.total range ≤ range := by
  have hlow := valid.low_lt
  have hhigh := valid.high_le
  apply Nat.div_le_of_le_mul
  exact Nat.mul_le_mul_right _ hhigh

/-- The narrowed registers as numbers. -/
structure Narrowed (c c' : ArithmeticCoderBase) (t : Triple) : Prop where
  size : c'.size = c.size
  low : c'.low.toNat = c.low.toNat + cut t.symLow t.total (c.high.toNat - c.low.toNat + 1)
  high : c'.high.toNat + 1 =
    c.low.toNat + cut t.symHigh t.total (c.high.toNat - c.low.toNat + 1)
  le : c'.low.toNat ≤ c'.high.toNat
  high_le : c'.high.toNat ≤ c.high.toNat

theorem narrowed_spec {c : ArithmeticCoderBase} (normal : c.Normal) {t : Triple}
    (valid : t.Valid c.size) : Narrowed c (c.narrowed t) t := by
  have ord := normal.ordered
  have hle := ord.le
  have hlt := ord.lt
  have hhalf := c.size.half_le
  have hwide := normal.wide
  have hlow := cut_toNat ord (valid.low_lt.le.trans valid.high_le) valid.total_le
  have hhigh := cut_toNat ord valid.high_le valid.total_le
  have hcut := cut_lt valid (c.high.toNat - c.low.toNat + 1) (by omega)
  have hcut_le := cut_le valid (c.high.toNat - c.low.toNat + 1)
  have hl : (c.narrowed t).low.toNat =
      c.low.toNat + cut t.symLow t.total (c.high.toNat - c.low.toNat + 1) := by
    rw [narrowed, UInt64.toNat_add, hlow]
    omega
  have hh : (c.narrowed t).high.toNat + 1 =
      c.low.toNat + cut t.symHigh t.total (c.high.toNat - c.low.toNat + 1) := by
    rw [narrowed, UInt64.toNat_sub, UInt64.toNat_add, hhigh]
    simp
    omega
  exact ⟨rfl, hl, hh, by omega, by omega⟩

/-! Rules for the loops. -/

variable {σ τ : Type}

theorem shiftLoop_eq (m : Methods σ) (fuel : Nat) (c : ArithmeticCoderBase) (s : σ) :
    shiftLoop m fuel c s = Whiles.loop SameTop shifted m.shift .unfinished fuel c s := by
  induction fuel generalizing c s with
  | zero => rw [shiftLoop, Whiles.loop]
  | succ fuel ih =>
      rw [shiftLoop, Whiles.loop]
      simp only [ih]

theorem underflowLoop_eq (m : Methods σ) (fuel : Nat) (c : ArithmeticCoderBase) (s : σ) :
    underflowLoop m fuel c s = Whiles.loop Straddles widened m.underflow .unfinished fuel c s := by
  induction fuel generalizing c s with
  | zero => rw [underflowLoop, Whiles.loop]
  | succ fuel ih =>
      rw [underflowLoop, Whiles.loop]
      simp only [ih]

/-- `n` more doublings exceed the range the registers can have. -/
def Enough (n : Nat) (c : ArithmeticCoderBase) : Prop :=
  2 * c.size.half ≤ (c.high.toNat - c.low.toNat + 1) * 2 ^ n

theorem Enough.turn {n : Nat} {c c' : ArithmeticCoderBase} {off : Nat} (h : Enough (n + 1) c)
    (hr : Rescaled c c' off) (le : c.low.toNat ≤ c.high.toNat) : Enough n c' := by
  rw [Enough, hr.range le, hr.size]
  calc 2 * c.size.half
      ≤ (c.high.toNat - c.low.toNat + 1) * 2 ^ (n + 1) := h
    _ = 2 * (c.high.toNat - c.low.toNat + 1) * 2 ^ n := by rw [pow_succ]; ring

theorem Ordered.shifted {c : ArithmeticCoderBase} (ord : c.Ordered) (htop : c.SameTop) :
    c.shifted.Ordered := by
  have hr := shifted_rescaled ord htop
  have hrange := hr.range ord.le
  have hlt := ord.lt
  have htop' := (sameTop_iff ord).mp htop
  refine ⟨by omega, ?_⟩
  rw [hr.high, hr.size]
  unfold topOffset
  split <;> omega

/-- Registers in the first loop, entered with `c`, when it may still take `n` turns. -/
structure Shifting (c : ArithmeticCoderBase) (n : Nat) (c' : ArithmeticCoderBase) : Prop where
  ordered : c'.Ordered
  enough : Enough n c'
  size : c'.size = c.size
  grown : c.high.toNat - c.low.toNat ≤ c'.high.toNat - c'.low.toNat

theorem Shifting.last {c c' : ArithmeticCoderBase} (h : Shifting c 0 c') : ¬ c'.SameTop := by
  have hle := h.ordered.le
  have hlt := h.ordered.lt
  have hpos := c'.size.half_pos
  have henough := h.enough
  rw [sameTop_iff h.ordered]
  unfold Enough at henough
  omega

theorem Shifting.turn {c c' : ArithmeticCoderBase} {n : Nat} (h : Shifting c (n + 1) c')
    (htop : c'.SameTop) : Shifting c n c'.shifted := by
  have hr := shifted_rescaled h.ordered htop
  have hrange := hr.range h.ordered.le
  have hgrown := h.grown
  exact ⟨h.ordered.shifted htop, h.enough.turn hr h.ordered.le, hr.size.trans h.size, by omega⟩

/-- Two coders over the same registers stay related through the first loop when
one turn keeps them related. The turns are bounded because the range doubles. -/
theorem shiftLoop_rule (m₁ : Methods σ) (m₂ : Methods τ)
    (R : ArithmeticCoderBase → σ → τ → Prop)
    (turn : ∀ c s t, c.Ordered → c.SameTop → R c s t →
      ∃ s' t', m₁.shift c s = .ok s' ∧ m₂.shift c t = .ok t' ∧ R c.shifted s' t')
    (fuel : Nat) (c : ArithmeticCoderBase) (s : σ) (t : τ) (ord : c.Ordered)
    (enough : 2 * c.size.half ≤ (c.high.toNat - c.low.toNat + 1) * 2 ^ fuel) (h : R c s t) :
    ∃ c' s' t', shiftLoop m₁ fuel c s = .ok (c', s') ∧ shiftLoop m₂ fuel c t = .ok (c', t') ∧
      R c' s' t' ∧ c'.Ordered ∧ ¬ c'.SameTop ∧ c'.size = c.size ∧
      c.high.toNat - c.low.toNat ≤ c'.high.toNat - c'.low.toNat := by
  have hturn : ∀ n c' s t, Shifting c (n + 1) c' ∧ R c' s t → c'.SameTop → ∃ s' t',
      m₁.shift c' s = .ok s' ∧ m₂.shift c' t = .ok t' ∧
        Shifting c n c'.shifted ∧ R c'.shifted s' t' := by
    intro n c' s t ⟨hc, h⟩ htop
    obtain ⟨s', t', hs, ht, h'⟩ := turn c' s t hc.ordered htop h
    exact ⟨s', t', hs, ht, hc.turn htop, h'⟩
  obtain ⟨n, c', s', t', hrun₁, hrun₂, hend, hc, h'⟩ :=
    Whiles.loop_rule (fun n c' s t => Shifting c n c' ∧ R c' s t) (fun _ _ _ h => h.1.last) hturn
      ⟨⟨ord, enough, rfl, Nat.le_refl _⟩, h⟩
  rw [← shiftLoop_eq] at hrun₁ hrun₂
  exact ⟨c', s', t', hrun₁, hrun₂, h', hc.ordered, hend, hc.size, hc.grown⟩

/-- The registers on entry of the second loop, and after each of its turns. -/
structure Parted (c : ArithmeticCoderBase) : Prop where
  low : c.low.toNat < c.size.half
  high : c.size.half ≤ c.high.toNat
  lt : c.high.toNat < 2 * c.size.half

theorem Ordered.parted {c : ArithmeticCoderBase} (ord : c.Ordered) (h : ¬ c.SameTop) :
    c.Parted := by
  have hle := ord.le
  rw [sameTop_iff ord] at h
  exact ⟨by omega, by omega, ord.lt⟩

theorem Parted.widened {c : ArithmeticCoderBase} (p : c.Parted) (near : c.Straddles) :
    c.widened.Parted := by
  have hr := widened_rescaled p.low p.high p.lt near
  have hnear := (straddles_iff p.low p.high p.lt).mp near
  have hlow := p.low
  have hhigh := p.high
  refine ⟨?_, ?_, ?_⟩
  · rw [hr.low, hr.size]
    omega
  · rw [hr.high, hr.size]
    omega
  · rw [hr.high, hr.size]
    omega

theorem Parted.normal {c : ArithmeticCoderBase} (p : c.Parted) (h : ¬ c.Straddles) :
    c.Normal := by
  have hlow := p.low
  have hhigh := p.high
  have hlt := p.lt
  rw [straddles_iff p.low p.high p.lt] at h
  have hpos := c.size.pos
  have hone : c.size.bits = 1 → c.size.half = 1 := fun h => by simp [StateSize.half, h]
  refine ⟨hlow, hhigh, hlt, ?_⟩
  by_cases hb : c.size.bits = 1
  · have := hone hb
    omega
  · omega

/-- Registers in the second loop, entered with `c`, when it may still take `n` turns. -/
structure Widening (c : ArithmeticCoderBase) (n : Nat) (c' : ArithmeticCoderBase) : Prop where
  parted : c'.Parted
  enough : Enough n c'
  size : c'.size = c.size

theorem Widening.last {c c' : ArithmeticCoderBase} (h : Widening c 0 c') : ¬ c'.Straddles := by
  have hlow := h.parted.low
  have hlt := h.parted.lt
  have hpos := c'.size.half_pos
  have henough := h.enough
  rw [straddles_iff h.parted.low h.parted.high hlt]
  unfold Enough at henough
  omega

theorem Widening.turn {c c' : ArithmeticCoderBase} {n : Nat} (h : Widening c (n + 1) c')
    (near : c'.Straddles) : Widening c n c'.widened := by
  have hr := widened_rescaled h.parted.low h.parted.high h.parted.lt near
  exact ⟨h.parted.widened near, h.enough.turn hr (h.parted.low.le.trans h.parted.high),
    hr.size.trans h.size⟩

theorem underflowLoop_rule (m₁ : Methods σ) (m₂ : Methods τ)
    (R : ArithmeticCoderBase → σ → τ → Prop)
    (turn : ∀ c s t, c.Parted → c.Straddles → R c s t →
      ∃ s' t', m₁.underflow c s = .ok s' ∧ m₂.underflow c t = .ok t' ∧ R c.widened s' t')
    (fuel : Nat) (c : ArithmeticCoderBase) (s : σ) (t : τ) (p : c.Parted)
    (enough : 2 * c.size.half ≤ (c.high.toNat - c.low.toNat + 1) * 2 ^ fuel) (h : R c s t) :
    ∃ c' s' t', underflowLoop m₁ fuel c s = .ok (c', s') ∧
      underflowLoop m₂ fuel c t = .ok (c', t') ∧ R c' s' t' ∧ c'.Normal ∧ c'.size = c.size := by
  have hturn : ∀ n c' s t, Widening c (n + 1) c' ∧ R c' s t → c'.Straddles → ∃ s' t',
      m₁.underflow c' s = .ok s' ∧ m₂.underflow c' t = .ok t' ∧
        Widening c n c'.widened ∧ R c'.widened s' t' := by
    intro n c' s t ⟨hc, h⟩ near
    obtain ⟨s', t', hs, ht, h'⟩ := turn c' s t hc.parted near h
    exact ⟨s', t', hs, ht, hc.turn near, h'⟩
  obtain ⟨n, c', s', t', hrun₁, hrun₂, hend, hc, h'⟩ :=
    Whiles.loop_rule (fun n c' s t => Widening c n c' ∧ R c' s t) (fun _ _ _ h => h.1.last) hturn
      ⟨⟨p, enough, rfl⟩, h⟩
  rw [← underflowLoop_eq] at hrun₁ hrun₂
  exact ⟨c', s', t', hrun₁, hrun₂, h', hc.parted.normal hend, hc.size⟩

/-- The rule for a whole update: relate the coders after narrowing and keep
them related through a turn of either loop. -/
theorem update_rule (m₁ : Methods σ) (m₂ : Methods τ)
    (R : ArithmeticCoderBase → σ → τ → Prop)
    (shift : ∀ c s t, c.Ordered → c.SameTop → R c s t →
      ∃ s' t', m₁.shift c s = .ok s' ∧ m₂.shift c t = .ok t' ∧ R c.shifted s' t')
    (underflow : ∀ c s t, c.Parted → c.Straddles → R c s t →
      ∃ s' t', m₁.underflow c s = .ok s' ∧ m₂.underflow c t = .ok t' ∧ R c.widened s' t')
    {c : ArithmeticCoderBase} {s : σ} {t : τ} {x : Triple} (normal : c.Normal)
    (valid : x.Valid c.size) (h : R (c.narrowed x) s t) :
    ∃ c' s' t', update m₁ c s x = .ok (c', s') ∧ update m₂ c t x = .ok (c', t') ∧
      R c' s' t' ∧ c'.Normal ∧ c'.size = c.size := by
  have hn := narrowed_spec normal valid
  have hlt := normal.lt
  have hhigh := hn.high_le
  have ord : (c.narrowed x).Ordered := ⟨hn.le, by rw [hn.size]; omega⟩
  have htotal : x.total ≠ 0 := by
    intro h0
    have h1 := valid.low_lt
    have h2 := valid.high_le
    simp only [h0, UInt32.toNat_zero] at h2
    omega
  have hpow : 2 ^ c.size.bits = 2 * c.size.half := (StateSize.two_half _).symm
  have enough : 2 * (c.narrowed x).size.half ≤
      ((c.narrowed x).high.toNat - (c.narrowed x).low.toNat + 1) * 2 ^ c.size.bits := by
    rw [hn.size, hpow]
    exact Nat.le_mul_of_pos_left _ (Nat.succ_pos _)
  obtain ⟨c₁, s₁, t₁, hs₁, ht₁, h₁, ord₁, htop, hsize₁, hgrow⟩ :=
    shiftLoop_rule m₁ m₂ R shift c.size.bits (c.narrowed x) s t ord enough h
  have hsize : c₁.size = c.size := hsize₁.trans hn.size
  have enough₁ : 2 * c₁.size.half ≤ (c₁.high.toNat - c₁.low.toNat + 1) * 2 ^ c₁.size.bits := by
    rw [StateSize.two_half]
    exact Nat.le_mul_of_pos_left _ (Nat.succ_pos _)
  obtain ⟨c₂, s₂, t₂, hs₂, ht₂, h₂, hnormal, hsize₂⟩ :=
    underflowLoop_rule m₁ m₂ R underflow c₁.size.bits c₁ s₁ t₁ (ord₁.parted htop) enough₁ h₁
  refine ⟨c₂, s₂, t₂, ?_, ?_, h₂, hnormal, hsize₂.trans hsize⟩
  · rw [update, if_neg htotal, hs₁]
    exact hs₂
  · rw [update, if_neg htotal, ht₁]
    exact ht₂

end ArithmeticCoderBase
end Soc
