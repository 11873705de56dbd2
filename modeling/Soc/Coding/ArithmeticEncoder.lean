import Soc.Coding.BitOutputStream
import Soc.Coding.Rescaling

/-!
`ArithmeticEncoder` of `arithmetic_coding.cpp` and the exact interval it keeps.

The bits written so far, the pending ones and the two registers together name
one dyadic interval. A turn of either loop only halves the unit in which its
ends are counted; narrowing is the only step that shrinks it.
-/
namespace Soc
open BitString ArithmeticCoderBase

/-- The encoder's own fields. The counter is an `unsigned long` of the source:
it grows by at most `numBits` a call. -/
structure ArithmeticEncoder where
  output : BitOutputStream
  numUnderflow : Nat
  deriving DecidableEq

namespace ArithmeticEncoder

def new (output : BitOutputStream) : ArithmeticEncoder := ⟨output, 0⟩

/-- `for (; numUnderflow > 0; numUnderflow--) output.write(bit ^ 1)` -/
def writePending (charIsSigned : Bool) (bit : Int) :
    Nat → BitOutputStream → Except Fault BitOutputStream
  | 0, output => .ok output
  | n + 1, output => do writePending charIsSigned bit n (← output.write charIsSigned (1 - bit))

/-- The register is cast to an `int`: what lies above 32 bits is lost. -/
def shift (charIsSigned : Bool) (c : ArithmeticCoderBase) (e : ArithmeticEncoder) :
    Except Fault ArithmeticEncoder := do
  let bit := narrow 32 (c.low >>> UInt64.ofNat (c.size.bits - 1)).toNat
  let output ← e.output.write charIsSigned bit
  .ok ⟨← writePending charIsSigned bit e.numUnderflow output, 0⟩

def underflow (_ : ArithmeticCoderBase) (e : ArithmeticEncoder) : Except Fault ArithmeticEncoder :=
  .ok { e with numUnderflow := e.numUnderflow + 1 }

def methods (charIsSigned : Bool) : Methods ArithmeticEncoder :=
  ⟨shift charIsSigned, underflow⟩

def write (charIsSigned : Bool) (s : ArithmeticCoderBase × ArithmeticEncoder) (t : Triple) :
    Except Fault (ArithmeticCoderBase × ArithmeticEncoder) :=
  update (methods charIsSigned) s.1 s.2 t

/-- Only one bit is written: pending ones are dropped. -/
def finish (charIsSigned : Bool) (e : ArithmeticEncoder) : Except Fault ArithmeticEncoder := do
  .ok { e with output := ← e.output.write charIsSigned 1 }

/-- A whole use of the encoder: construct, write every symbol, close both. -/
def encode (charIsSigned : Bool) (numBits : Int) (ts : List Triple) :
    Except Fault (List UInt8) := do
  let c ← ArithmeticCoderBase.new numBits
  let s ← ts.foldlM (write charIsSigned) (c, new BitOutputStream.new)
  let e ← s.2.finish charIsSigned
  let output ← e.output.finish charIsSigned
  .ok output.data

/-- What the written and pending bits contribute below the registers. -/
def base (size : StateSize) (e : ArithmeticEncoder) : Nat :=
  toNat e.output.bits * 2 ^ (e.numUnderflow + size.bits) + (2 ^ e.numUnderflow - 1) * size.half

def depth (size : StateSize) (e : ArithmeticEncoder) : Nat :=
  e.output.bits.length + e.numUnderflow + size.bits

/-- The interval of strings the encoder can still produce. -/
def interval (c : ArithmeticCoderBase) (e : ArithmeticEncoder) : Segment :=
  ⟨e.base c.size + c.low.toNat, e.base c.size + c.high.toNat, e.depth c.size⟩

theorem writePending_bits (charIsSigned b : Bool) (n : Nat) {output : BitOutputStream}
    (wf : output.WellFormed) :
    ∃ output', writePending charIsSigned b.toNat n output = .ok output' ∧ output'.WellFormed ∧
      output'.bits = output.bits ++ List.replicate n (!b) := by
  induction n generalizing output with
  | zero => exact ⟨output, rfl, wf, by simp⟩
  | succ n ih =>
      have hflip : (1 - (b.toNat : Int)) = ((!b).toNat : Int) := by cases b <;> rfl
      obtain ⟨out₁, hw, wf₁, hbits₁⟩ := BitOutputStream.write_bits wf charIsSigned (!b)
      obtain ⟨out₂, hws, wf₂, hbits₂⟩ := ih wf₁
      refine ⟨out₂, ?_, wf₂, ?_⟩
      · rw [writePending, hflip, hw]
        exact hws
      · rw [hbits₂, hbits₁, List.append_assoc]
        rfl

/-- The bit shifted out is the shared top bit, and the cast keeps it. -/
theorem top_bit {c : ArithmeticCoderBase} (ord : c.Ordered) :
    narrow 32 (c.low >>> UInt64.ofNat (c.size.bits - 1)).toNat =
      (decide (c.size.half ≤ c.low.toNat)).toNat := by
  have hle := ord.le
  have hlt := ord.lt
  have hbits := c.size.le
  have hpos := c.size.half_pos
  have hcount : (UInt64.ofNat (c.size.bits - 1)).toNat = c.size.bits - 1 := by
    rw [UInt64.toNat_ofNat', Nat.mod_eq_of_lt (by omega)]
  rw [UInt64.toNat_shiftRight, hcount, Nat.mod_eq_of_lt (by omega : c.size.bits - 1 < 64),
    Nat.shiftRight_eq_div_pow, ← StateSize.half]
  by_cases h : c.size.half ≤ c.low.toNat
  · have hdiv : c.low.toNat / c.size.half = 1 := Nat.div_eq_of_lt_le (by omega) (by omega)
    rw [hdiv, decide_eq_true h]
    exact narrow_eq (by decide) (by decide)
  · have hdiv : c.low.toNat / c.size.half = 0 := Nat.div_eq_of_lt (by omega)
    rw [hdiv, decide_eq_false h]
    exact narrow_eq (by decide) (by decide)

/-- The written bits after a shift: the top bit, then the pending complements. -/
theorem shift_bits (charIsSigned : Bool) {c : ArithmeticCoderBase} (ord : c.Ordered)
    {e : ArithmeticEncoder} (wf : e.output.WellFormed) :
    ∃ e', shift charIsSigned c e = .ok e' ∧ e'.output.WellFormed ∧ e'.numUnderflow = 0 ∧
      e'.output.bits = e.output.bits ++ (decide (c.size.half ≤ c.low.toNat) ::
        List.replicate e.numUnderflow (!decide (c.size.half ≤ c.low.toNat))) := by
  have htop := top_bit ord
  generalize decide (c.size.half ≤ c.low.toNat) = b at htop ⊢
  obtain ⟨out₁, hw, wf₁, hbits₁⟩ := BitOutputStream.write_bits wf charIsSigned b
  obtain ⟨out₂, hws, wf₂, hbits₂⟩ := writePending_bits charIsSigned b e.numUnderflow wf₁
  refine ⟨⟨out₂, 0⟩, ?_, wf₂, rfl, ?_⟩
  · simp only [shift, htop, hw, hws, ok_bind]
  · simp only [hbits₂, hbits₁, List.append_assoc, List.singleton_append]

/-- The value of a top bit followed by `n` complements. -/
theorem toNat_cons_pending (b : Bool) (n : Nat) :
    toNat (b :: List.replicate n (!b)) = 2 ^ n - 1 + b.toNat := by
  have hpos : 0 < 2 ^ n := by positivity
  have h := toNat_append [b] (List.replicate n (!b))
  rw [List.singleton_append, toNat_replicate, List.length_replicate] at h
  rw [h]
  cases b <;> simp [BitString.toNat]
  omega

theorem base_shift {c : ArithmeticCoderBase} {e e' : ArithmeticEncoder}
    (hzero : e'.numUnderflow = 0)
    (hbits : e'.output.bits = e.output.bits ++ (decide (c.size.half ≤ c.low.toNat) ::
        List.replicate e.numUnderflow (!decide (c.size.half ≤ c.low.toNat)))) :
    e'.base c.size = 2 * (e.base c.size + c.topOffset) := by
  have htwo := c.size.two_half
  have hpos : 0 < 2 ^ e.numUnderflow := by positivity
  have hoff : c.topOffset = (decide (c.size.half ≤ c.low.toNat)).toNat * c.size.half := by
    unfold topOffset
    split <;> simp [*]
  rw [hoff, base, base, hzero, hbits, toNat_append, toNat_cons_pending]
  generalize (decide (c.size.half ≤ c.low.toNat)).toNat = b
  simp only [List.length_cons, List.length_replicate, pow_zero, Nat.sub_self, Nat.zero_mul,
    Nat.add_zero, Nat.zero_add, pow_succ, pow_add, ← htwo]
  ring

theorem base_underflow {size : StateSize} (h : 2 ≤ size.bits) (e : ArithmeticEncoder) :
    base size { e with numUnderflow := e.numUnderflow + 1 } =
      2 * (e.base size + size.half / 2) := by
  obtain ⟨k, hk⟩ := Nat.exists_eq_add_of_le h
  have hhalf : size.half = 2 * 2 ^ k := by
    rw [StateSize.half, hk, show 2 + k - 1 = k + 1 by omega, pow_succ, Nat.mul_comm]
  have hquarter : size.half / 2 = 2 ^ k := by omega
  obtain ⟨m, hm⟩ : ∃ m, 2 ^ e.numUnderflow = m + 1 :=
    ⟨2 ^ e.numUnderflow - 1, by have : 0 < 2 ^ e.numUnderflow := by positivity
                                omega⟩
  have hsub : 2 ^ e.numUnderflow * 2 - 1 = 2 * m + 1 := by omega
  simp only [base, pow_add, pow_one, hquarter, hsub]
  rw [hhalf, hm, Nat.add_sub_cancel]
  ring

/-- A turn of the first loop keeps the interval and halves its unit. -/
theorem interval_shift (charIsSigned : Bool) {c : ArithmeticCoderBase} (ord : c.Ordered)
    (top : c.SameTop) {e : ArithmeticEncoder} (wf : e.output.WellFormed) :
    ∃ e', shift charIsSigned c e = .ok e' ∧ e'.output.WellFormed ∧
      e'.base c.size = 2 * (e.base c.size + c.topOffset) ∧
      interval c.shifted e' = (interval c e).double := by
  obtain ⟨e', hrun, wf', hzero, hbits⟩ := shift_bits charIsSigned ord wf
  have hr := shifted_rescaled ord top
  have hbase := base_shift hzero hbits
  have hoff := hr.off_le
  have hle := ord.le
  refine ⟨e', hrun, wf', hbase, ?_⟩
  rw [interval, interval, Segment.double, hr.size, hr.low, hr.high, hbase, depth, depth, hzero,
    hbits]
  simp only [List.length_append, List.length_cons, List.length_replicate, Segment.mk.injEq]
  omega

theorem interval_underflow {c : ArithmeticCoderBase} (p : c.Parted) (near : c.Straddles)
    (e : ArithmeticEncoder) :
    interval c.widened { e with numUnderflow := e.numUnderflow + 1 } = (interval c e).double := by
  have hr := widened_rescaled p.low p.high p.lt near
  have hbits := ((straddles_iff p.low p.high p.lt).mp near).1
  have hbase := base_underflow hbits e
  have hoff := hr.off_le
  have hlow := p.low
  have hhigh := p.high
  rw [interval, interval, Segment.double, hr.size, hr.low, hr.high, hbase, depth, depth]
  simp only [Segment.mk.injEq]
  omega

/-- Before the first symbol every string is possible. -/
theorem interval_new {c : ArithmeticCoderBase} (low : c.low = 0)
    (high : c.high = c.size.stateMask) :
    interval c (new BitOutputStream.new) = ⟨0, 2 ^ c.size.bits - 1, c.size.bits⟩ := by
  have hl : c.low.toNat = 0 := by rw [low]; rfl
  have hh : c.high.toNat = 2 ^ c.size.bits - 1 := by
    rw [high, StateSize.stateMask_toNat, StateSize.two_half]
  simp [interval, base, depth, new, BitOutputStream.new_bits, hl, hh]

/-- The bit that closes the stream, with the zeros after it, is a point of the
interval, however many bits are pending. -/
theorem finish_contained {c : ArithmeticCoderBase} (normal : c.Normal) (e : ArithmeticEncoder) :
    (interval c e).Contains (e.output.bits ++ [true]) := by
  have hlow := normal.low
  have hhigh := normal.high
  have hpos : 0 < 2 ^ e.numUnderflow := by positivity
  have htwo := c.size.two_half
  have hbits := c.size.pos
  have hlead : leading (e.output.bits ++ [true]) (e.depth c.size) =
      e.base c.size + c.size.half := by
    have hdepth : e.depth c.size =
        (e.output.bits ++ [true]).length + (e.numUnderflow + (c.size.bits - 1)) := by
      rw [depth, List.length_append, List.length_singleton]
      omega
    have hpow : 2 ^ c.size.bits = 2 * 2 ^ (c.size.bits - 1) := by
      rw [← pow_succ', Nat.sub_add_cancel hbits]
    obtain ⟨m, hm⟩ : ∃ m, 2 ^ e.numUnderflow = m + 1 := ⟨2 ^ e.numUnderflow - 1, by omega⟩
    rw [hdepth, leading_length_add, toNat_concat, base, StateSize.half, pow_add, pow_add, hpow, hm,
      Nat.add_sub_cancel]
    simp only [Bool.toNat_true]
    ring
  rw [Segment.Contains, interval, hlead]
  exact ⟨by simp only; omega, by simp only; omega⟩

end ArithmeticEncoder
end Soc
