import Soc.Coding.ArithmeticEncoder

/-!
The standard decoder for streams of `ArithmeticEncoder`. The repository has no
decoder; this one is built on the same `update` with a code register of
`numBits` bits that reads zeros past the end of its input.

A decoder is synchronised with an encoder when its register holds what the
stream says beyond the encoder's written and pending bits. As long as the
stream lies in the encoder's interval, a turn of either loop keeps that.
-/
namespace Soc
open BitString ArithmeticCoderBase

structure ArithmeticDecoder where
  code : UInt64
  input : List Bool
  deriving DecidableEq

namespace ArithmeticDecoder

def nextBit (d : ArithmeticDecoder) : UInt64 := if d.input.headD false then 1 else 0

/-- The constructor's loop: `code = code << 1 | readCodeBit()`. -/
def fill : Nat → ArithmeticDecoder → ArithmeticDecoder
  | 0, d => d
  | n + 1, d => fill n ⟨(d.code <<< 1) ||| d.nextBit, d.input.tail⟩

def new (size : StateSize) (input : List Bool) : ArithmeticDecoder := fill size.bits ⟨0, input⟩

def shift (c : ArithmeticCoderBase) (d : ArithmeticDecoder) : Except Fault ArithmeticDecoder :=
  .ok ⟨((d.code <<< 1) &&& c.size.stateMask) ||| d.nextBit, d.input.tail⟩

def underflow (c : ArithmeticCoderBase) (d : ArithmeticDecoder) : Except Fault ArithmeticDecoder :=
  .ok ⟨(d.code &&& c.size.halfRange) ||| ((d.code <<< 1) &&& (c.size.stateMask >>> 1)) |||
    d.nextBit, d.input.tail⟩

def methods : Methods ArithmeticDecoder := ⟨shift, underflow⟩

/-- The position of the code within the range, scaled to the symbol's total. -/
def value (c : ArithmeticCoderBase) (d : ArithmeticDecoder) (total : UInt32) : UInt64 :=
  ((d.code - c.low + 1) * total.toUInt64 - 1) / c.range

/-- The register and the rest of the input against the encoder's state. -/
structure Synced (bs : List Bool) (c : ArithmeticCoderBase) (e : ArithmeticEncoder)
    (d : ArithmeticDecoder) : Prop where
  code : e.base c.size + d.code.toNat = leading bs (e.depth c.size)
  input : d.input = bs.drop (e.depth c.size)

theorem nextBit_toNat {bs : List Bool} {d : ArithmeticDecoder} {n : Nat}
    (h : d.input = bs.drop n) : d.nextBit.toNat = (bitAt bs n).toNat := by
  have hhead : d.input.headD false = bitAt bs n := by
    rw [h, bitAt, List.headD_eq_head?_getD, List.head?_drop, List.getD_eq_getElem?_getD]
  rw [nextBit, hhead]
  cases bitAt bs n <;> rfl

theorem tail_drop {bs xs : List Bool} {n : Nat} (h : xs = bs.drop n) :
    xs.tail = bs.drop (n + 1) := by
  rw [h, List.tail_drop]

theorem even_or_bit (x : Nat) (b : Bool) : 2 * x ||| b.toNat = 2 * x + b.toNat := by
  cases b
  · simp
  · exact even_or_one x

theorem leading_lt (bs : List Bool) (n : Nat) : leading bs n < 2 ^ n := by
  induction n with
  | zero => simp [leading]
  | succ n ih =>
      have hb := Bool.toNat_le (bitAt bs n)
      rw [leading, pow_succ]
      omega

theorem fill_spec (bs : List Bool) (size : StateSize) (n k : Nat) (d : ArithmeticDecoder)
    (hn : k + n ≤ size.bits) (hcode : d.code.toNat = leading bs k) (hinput : d.input = bs.drop k) :
    (fill n d).code.toNat = leading bs (k + n) ∧ (fill n d).input = bs.drop (k + n) := by
  induction n generalizing k d with
  | zero => exact ⟨hcode, hinput⟩
  | succ n ih =>
      have hlt := leading_lt bs k
      have hk : 2 ^ k ≤ 2 ^ 62 := Nat.pow_le_pow_right (by decide) (by have := size.le; omega)
      have hstep : ((d.code <<< 1) ||| d.nextBit).toNat = leading bs (k + 1) := by
        have hdouble : (d.code <<< 1).toNat = 2 * d.code.toNat := by
          rw [UInt64.toNat_shiftLeft, Nat.shiftLeft_eq]
          simp
          omega
        rw [UInt64.toNat_or, hdouble, nextBit_toNat hinput, even_or_bit, hcode, leading]
      have h := ih (k + 1) ⟨(d.code <<< 1) ||| d.nextBit, d.input.tail⟩ (by omega) hstep
        (tail_drop hinput)
      rw [fill, ← Nat.add_assoc, Nat.add_right_comm]
      exact h

theorem synced_new {c : ArithmeticCoderBase} (bs : List Bool) :
    Synced bs c (ArithmeticEncoder.new BitOutputStream.new) (new c.size bs) := by
  have h := fill_spec bs c.size c.size.bits 0 ⟨0, bs⟩ (by omega) rfl rfl
  have hbase : (ArithmeticEncoder.new BitOutputStream.new).base c.size = 0 := by
    simp [ArithmeticEncoder.base, ArithmeticEncoder.new, BitOutputStream.new_bits]
  have hdepth : (ArithmeticEncoder.new BitOutputStream.new).depth c.size = c.size.bits := by
    simp [ArithmeticEncoder.depth, ArithmeticEncoder.new, BitOutputStream.new_bits]
  rw [Nat.zero_add] at h
  exact ⟨by rw [hbase, hdepth, Nat.zero_add]; exact h.1, by rw [hdepth]; exact h.2⟩

/-- Inside the encoder's interval the code lies between the registers. -/
theorem Synced.between {bs : List Bool} {c : ArithmeticCoderBase} {e : ArithmeticEncoder}
    {d : ArithmeticDecoder} (h : Synced bs c e d) (hin : (e.interval c).Contains bs) :
    c.low.toNat ≤ d.code.toNat ∧ d.code.toNat ≤ c.high.toNat := by
  have hcode := h.code
  simp only [ArithmeticEncoder.interval, Segment.Contains, ← hcode] at hin
  omega

theorem Synced.rescale {bs : List Bool} {c c' : ArithmeticCoderBase} {e e' : ArithmeticEncoder}
    {d d' : ArithmeticDecoder} {off : Nat} (h : Synced bs c e d) (hsize : c'.size = c.size)
    (hdepth : e'.depth c.size = e.depth c.size + 1)
    (hbase : e'.base c.size = 2 * (e.base c.size + off)) (hoff : off ≤ d.code.toNat)
    (hcode : d'.code.toNat = 2 * (d.code.toNat - off) + (bitAt bs (e.depth c.size)).toNat)
    (hinput : d'.input = d.input.tail) : Synced bs c' e' d' := by
  have hd := h.code
  refine ⟨?_, ?_⟩
  · rw [hsize, hdepth, hbase, hcode, leading]
    omega
  · rw [hsize, hdepth, hinput]
    exact tail_drop h.input

theorem shift_code {c : ArithmeticCoderBase} (ord : c.Ordered) (top : c.SameTop)
    {d : ArithmeticDecoder} (lo : c.low.toNat ≤ d.code.toNat) (hi : d.code.toNat ≤ c.high.toNat)
    (b : Bool) (hb : d.nextBit.toNat = b.toNat) :
    c.topOffset ≤ d.code.toNat ∧
      (((d.code <<< 1) &&& c.size.stateMask) ||| d.nextBit).toNat =
        2 * (d.code.toNat - c.topOffset) + b.toNat := by
  have htop := (sameTop_iff ord).mp top
  have hlt := ord.lt
  have hcode : ((d.code <<< 1) &&& c.size.stateMask).toNat =
      2 * (d.code.toNat % c.size.half) := by
    rw [masked_toNat, double_toNat (n := c.size) (by omega), Nat.mul_mod_mul_left]
  rw [UInt64.toNat_or, hcode, hb, even_or_bit]
  unfold topOffset
  split
  case isTrue h =>
      have hmod : d.code.toNat % c.size.half = d.code.toNat - c.size.half := by
        rw [Nat.mod_eq_sub_mod (by omega), Nat.mod_eq_of_lt (by omega)]
      exact ⟨by omega, by rw [hmod]⟩
  case isFalse h =>
      have hlow : d.code.toNat < c.size.half := by
        have : ¬ c.size.half ≤ c.high.toNat := fun hc => h (htop.mpr hc)
        omega
      exact ⟨Nat.zero_le _, by rw [Nat.mod_eq_of_lt hlow, Nat.sub_zero]⟩

theorem underflow_code {c : ArithmeticCoderBase} (p : c.Parted) (near : c.Straddles)
    {d : ArithmeticDecoder} (lo : c.low.toNat ≤ d.code.toNat) (hi : d.code.toNat ≤ c.high.toNat)
    (b : Bool) (hb : d.nextBit.toNat = b.toNat) :
    ((d.code &&& c.size.halfRange) ||| ((d.code <<< 1) &&& (c.size.stateMask >>> 1)) |||
      d.nextBit).toNat = 2 * (d.code.toNat - c.size.half / 2) + b.toNat := by
  obtain ⟨htwo, hlow, hhigh⟩ := (straddles_iff p.low p.high p.lt).mp near
  have hlt := p.lt
  obtain ⟨k, hk⟩ := Nat.exists_eq_add_of_le htwo
  have hexp : c.size.bits - 1 = k + 1 := by omega
  have hhalf : c.size.half = 2 ^ (k + 1) := by rw [StateSize.half, hexp]
  have heven : c.size.half = 2 * (c.size.half / 2) := by rw [hhalf, pow_succ]; omega
  have hmask : (c.size.stateMask >>> 1).toNat = 2 ^ (k + 1) - 1 := by
    rw [UInt64.toNat_shiftRight, StateSize.stateMask_toNat, Nat.shiftRight_eq_div_pow, hhalf]
    simp
    omega
  have hrest : ((d.code <<< 1) &&& (c.size.stateMask >>> 1)).toNat =
      2 * d.code.toNat % c.size.half := by
    rw [UInt64.toNat_and, double_toNat (n := c.size) (by omega), hmask,
      Nat.and_two_pow_sub_one_eq_mod, hhalf]
  have htop : (d.code &&& c.size.halfRange).toNat =
      if c.size.half ≤ d.code.toNat then c.size.half else 0 := by
    rw [UInt64.toNat_and, StateSize.halfRange_toNat, hhalf, Nat.and_two_pow,
      testBit_top (by omega)]
    by_cases h : 2 ^ (k + 1) ≤ d.code.toNat <;> simp [h]
  rw [UInt64.toNat_or, UInt64.toNat_or, htop, hrest, hb, ← even_or_bit]
  congr 1
  split
  case isTrue h =>
      have hmod : 2 * d.code.toNat % c.size.half = 2 * d.code.toNat - 2 * c.size.half := by
        rw [Nat.mod_eq_sub_mod (by omega), Nat.mod_eq_sub_mod (by omega),
          Nat.mod_eq_of_lt (by omega)]
        omega
      have hor := Nat.two_pow_add_eq_or_of_lt (i := k + 1)
        (b := 2 * d.code.toNat - 2 * c.size.half) (by omega) 1
      rw [Nat.mul_one, ← hhalf] at hor
      rw [hmod, ← hor]
      omega
  case isFalse h =>
      have hmod : 2 * d.code.toNat % c.size.half = 2 * d.code.toNat - c.size.half := by
        rw [Nat.mod_eq_sub_mod (by omega), Nat.mod_eq_of_lt (by omega)]
      rw [hmod, Nat.zero_or]
      omega

/-- The scaled value singles out the slice whose cuts enclose the code. -/
theorem value_between {c : ArithmeticCoderBase} (normal : c.Normal) {t : Triple}
    (valid : t.Valid c.size) {d : ArithmeticDecoder}
    (lo : (c.narrowed t).low.toNat ≤ d.code.toNat)
    (hi : d.code.toNat ≤ (c.narrowed t).high.toNat) :
    t.symLow.toNat ≤ (value c d t.total).toNat ∧ (value c d t.total).toNat < t.symHigh.toNat := by
  have hn := narrowed_spec normal valid
  have hlow := hn.low
  have hhigh := hn.high
  have hhigh_le := hn.high_le
  have hlt := normal.lt
  have hsym := valid.low_lt
  have hsym' := valid.high_le
  have ord := normal.ordered
  have hhalf := c.size.half_le
  generalize hr : c.high.toNat - c.low.toNat + 1 = r at hlow hhigh
  have hrpos : 0 < r := by omega
  have htpos : 0 < t.total.toNat := by omega
  -- the offset of the code, counted from one
  obtain ⟨m, hm⟩ : ∃ m, d.code.toNat + 1 = c.low.toNat + m :=
    ⟨d.code.toNat + 1 - c.low.toNat, by omega⟩
  have hm_lo : cut t.symLow t.total r < m := by omega
  have hm_hi : m ≤ cut t.symHigh t.total r := by omega
  have hoffset : (d.code - c.low + 1).toNat = m := by
    rw [UInt64.toNat_add, UInt64.toNat_sub]
    simp
    omega
  have hr_le : r ≤ 2 * c.size.half := by omega
  have hm_r : m ≤ r := hm_hi.trans (cut_le valid r)
  have hprod : m * t.total.toNat < 2 ^ 64 := by
    have h1 := Nat.mul_le_mul (hm_r.trans hr_le) valid.total_le
    rw [Nat.mul_comm (2 * c.size.half)] at h1
    exact Nat.lt_of_le_of_lt h1 c.size.maximumTotal_mul_lt
  have hone : 1 ≤ m * t.total.toNat := Nat.mul_pos (by omega) htpos
  have hvalue : (value c d t.total).toNat = (m * t.total.toNat - 1) / r := by
    have hmul : ((d.code - c.low + 1) * t.total.toUInt64).toNat = m * t.total.toNat := by
      rw [UInt64.toNat_mul, hoffset, UInt32.toNat_toUInt64, Nat.mod_eq_of_lt hprod]
    have hsub : ((d.code - c.low + 1) * t.total.toUInt64 - 1).toNat = m * t.total.toNat - 1 := by
      rw [UInt64.toNat_sub, hmul]
      simp
      omega
    rw [value, UInt64.toNat_div, hsub, range_toNat ord, hr]
  rw [hvalue, Nat.le_div_iff_mul_le hrpos, Nat.div_lt_iff_lt_mul hrpos]
  have hcut_lo : t.symLow.toNat * r < m * t.total.toNat := by
    rw [← Nat.div_lt_iff_lt_mul htpos]
    exact hm_lo
  have hcut_hi : m * t.total.toNat ≤ t.symHigh.toNat * r := by
    rw [← Nat.le_div_iff_mul_le htpos]
    exact hm_hi
  omega

end ArithmeticDecoder
end Soc
