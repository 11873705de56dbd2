import Soc.Basic
import Mathlib.Data.Nat.Bitwise
import Mathlib.Tactic.Ring
import Mathlib.Tactic.Linarith

/-!
`ArithmeticCoderBase` of `arithmetic_coding.cpp`: two registers of `numBits`
bits, narrowed for every symbol and then rescaled bit by bit.

What a coder does while its registers are rescaled is left to its two virtual
methods, so one `update` serves every coder built on the class. The rules at
the end reduce a statement about `update` to one turn of either loop.
-/
namespace Soc

/-- A state size the constructor accepts. -/
structure StateSize where
  bits : Nat
  pos : 1 ≤ bits
  le : bits ≤ 63
  deriving DecidableEq

namespace StateSize

def fullRange (n : StateSize) : UInt64 := 1 <<< UInt64.ofNat n.bits
def halfRange (n : StateSize) : UInt64 := n.fullRange >>> 1
def quarterRange (n : StateSize) : UInt64 := n.halfRange >>> 1
def minimumRange (n : StateSize) : UInt64 := n.quarterRange + 2
/-- `min(max / fullRange, minimumRange)` -/
def maximumTotal (n : StateSize) : UInt64 :=
  if n.minimumRange < 0xFFFFFFFFFFFFFFFF / n.fullRange then n.minimumRange
  else 0xFFFFFFFFFFFFFFFF / n.fullRange
def stateMask (n : StateSize) : UInt64 := n.fullRange - 1

/-- Half of the register range as a number: `2 ^ (numBits - 1)`. -/
def half (n : StateSize) : Nat := 2 ^ (n.bits - 1)

theorem two_half (n : StateSize) : 2 * n.half = 2 ^ n.bits := by
  rw [half, ← pow_succ', Nat.sub_add_cancel n.pos]

theorem half_pos (n : StateSize) : 0 < n.half := by unfold half; positivity

theorem half_le (n : StateSize) : n.half ≤ 2 ^ 62 :=
  Nat.pow_le_pow_right (by decide) (by have := n.le; omega)

theorem fullRange_toNat (n : StateSize) : n.fullRange.toNat = 2 * n.half := by
  have hle := n.le
  have hbits : (UInt64.ofNat n.bits).toNat = n.bits := by
    rw [UInt64.toNat_ofNat', Nat.mod_eq_of_lt (by omega)]
  have hlt : 2 ^ n.bits < 2 ^ 64 := Nat.pow_lt_pow_right (by decide) (by omega)
  rw [fullRange, UInt64.toNat_shiftLeft, hbits, Nat.mod_eq_of_lt (by omega : n.bits < 64),
    Nat.shiftLeft_eq, two_half]
  simpa using Nat.mod_eq_of_lt hlt

@[simp] theorem halfRange_toNat (n : StateSize) : n.halfRange.toNat = n.half := by
  rw [halfRange, UInt64.toNat_shiftRight, fullRange_toNat, Nat.shiftRight_eq_div_pow]
  simp

@[simp] theorem quarterRange_toNat (n : StateSize) : n.quarterRange.toNat = n.half / 2 := by
  rw [quarterRange, UInt64.toNat_shiftRight, halfRange_toNat, Nat.shiftRight_eq_div_pow]
  simp

@[simp] theorem stateMask_toNat (n : StateSize) : n.stateMask.toNat = 2 * n.half - 1 := by
  have hpos := n.half_pos
  have hle := n.half_le
  rw [stateMask, UInt64.toNat_sub, fullRange_toNat]
  simp
  omega

theorem minimumRange_toNat (n : StateSize) : n.minimumRange.toNat = n.half / 2 + 2 := by
  have hle := n.half_le
  rw [minimumRange, UInt64.toNat_add, quarterRange_toNat]
  simp
  omega

theorem maximumTotal_toNat (n : StateSize) :
    n.maximumTotal.toNat = min ((2 ^ 64 - 1) / (2 * n.half)) (n.half / 2 + 2) := by
  have hmin := n.minimumRange_toNat
  have hdiv : (0xFFFFFFFFFFFFFFFF / n.fullRange).toNat = (2 ^ 64 - 1) / (2 * n.half) := by
    rw [UInt64.toNat_div, fullRange_toNat]
    rfl
  rw [maximumTotal]
  split
  case isTrue h =>
      rw [UInt64.lt_iff_toNat_lt] at h
      omega
  case isFalse h =>
      rw [UInt64.lt_iff_toNat_lt] at h
      omega

/-- Totals are bounded so that a product with a full range fits 64 bits. -/
theorem maximumTotal_mul_lt (n : StateSize) :
    n.maximumTotal.toNat * (2 * n.half) < 2 ^ 64 := by
  have hle : n.maximumTotal.toNat ≤ (2 ^ 64 - 1) / (2 * n.half) := by
    rw [maximumTotal_toNat]
    exact Nat.min_le_left _ _
  have hmul := Nat.mul_le_mul_right (2 * n.half) hle
  have hdiv := Nat.div_mul_le_self (2 ^ 64 - 1) (2 * n.half)
  omega

end StateSize

/-- The registers; the constants of the class are functions of the state size. -/
structure ArithmeticCoderBase where
  size : StateSize
  low : UInt64
  high : UInt64
  deriving DecidableEq

/-- The frequencies of one symbol: its slice of the cumulative table. -/
structure Triple where
  total : UInt32
  symLow : UInt32
  symHigh : UInt32
  deriving DecidableEq

/-- The virtual methods a coder supplies, acting on its own fields. -/
structure Methods (σ : Type) where
  shift : ArithmeticCoderBase → σ → Except Fault σ
  underflow : ArithmeticCoderBase → σ → Except Fault σ

namespace ArithmeticCoderBase

/-- The constructor throws unless `1 <= numBits && numBits <= 63`. -/
def new (numBits : Int) : Except Fault ArithmeticCoderBase :=
  if h : 1 ≤ numBits ∧ numBits ≤ 63 then
    let size : StateSize := ⟨numBits.toNat, by omega, by omega⟩
    .ok ⟨size, 0, size.stateMask⟩
  else .error .domainError

def range (c : ArithmeticCoderBase) : UInt64 := c.high - c.low + 1

/-- The registers after the narrowing of `update`. -/
def narrowed (c : ArithmeticCoderBase) (t : Triple) : ArithmeticCoderBase :=
  { c with
    low := c.low + t.symLow.toUInt64 * c.range / t.total.toUInt64
    high := c.low + t.symHigh.toUInt64 * c.range / t.total.toUInt64 - 1 }

/-- The registers after one turn of the first loop. -/
def shifted (c : ArithmeticCoderBase) : ArithmeticCoderBase :=
  { c with
    low := (c.low <<< 1) &&& c.size.stateMask
    high := ((c.high <<< 1) &&& c.size.stateMask) ||| 1 }

/-- The registers after one turn of the second loop. -/
def widened (c : ArithmeticCoderBase) : ArithmeticCoderBase :=
  { c with
    low := (c.low <<< 1) ^^^ c.size.halfRange
    high := ((c.high ^^^ c.size.halfRange) <<< 1) ||| c.size.halfRange ||| 1 }

/-- The condition of the first loop: the registers share their top bit. -/
def SameTop (c : ArithmeticCoderBase) : Prop :=
  (c.low ^^^ c.high) &&& c.size.halfRange = 0

/-- The condition of the second loop: 01 tops `low` and 10 tops `high`. -/
def Straddles (c : ArithmeticCoderBase) : Prop :=
  c.low &&& ~~~c.high &&& c.size.quarterRange ≠ 0

instance (c : ArithmeticCoderBase) : Decidable c.SameTop := inferInstanceAs (Decidable (_ = _))
instance (c : ArithmeticCoderBase) : Decidable c.Straddles := inferInstanceAs (Decidable (_ ≠ _))

variable {σ τ : Type}

/-- `while (((low ^ high) & halfRange) == 0)` -/
def shiftLoop (m : Methods σ) : Nat → ArithmeticCoderBase → σ →
    Except Fault (ArithmeticCoderBase × σ)
  | fuel, c, s =>
    if c.SameTop then
      match fuel with
      | 0 => .error .unfinished
      | fuel + 1 => do shiftLoop m fuel c.shifted (← m.shift c s)
    else .ok (c, s)

/-- `while ((low & ~high & quarterRange) != 0)` -/
def underflowLoop (m : Methods σ) : Nat → ArithmeticCoderBase → σ →
    Except Fault (ArithmeticCoderBase × σ)
  | fuel, c, s =>
    if c.Straddles then
      match fuel with
      | 0 => .error .unfinished
      | fuel + 1 => do underflowLoop m fuel c.widened (← m.underflow c s)
    else .ok (c, s)

def update (m : Methods σ) (c : ArithmeticCoderBase) (s : σ) (t : Triple) :
    Except Fault (ArithmeticCoderBase × σ) :=
  if t.total = 0 then .error .divisionByZero
  else do
    let (c, s) ← shiftLoop m c.size.bits (c.narrowed t) s
    underflowLoop m c.size.bits c s

/-! The registers as numbers. -/

/-- The registers are ordered and fit the state size. -/
structure Ordered (c : ArithmeticCoderBase) : Prop where
  le : c.low.toNat ≤ c.high.toNat
  lt : c.high.toNat < 2 * c.size.half

/-- What `update` restores: the registers lie on either side of one half and
are at least a quarter apart. -/
structure Normal (c : ArithmeticCoderBase) : Prop where
  low : c.low.toNat < c.size.half
  high : c.size.half ≤ c.high.toNat
  lt : c.high.toNat < 2 * c.size.half
  wide : c.size.half / 2 + 1 ≤ c.high.toNat - c.low.toNat

theorem Normal.ordered {c : ArithmeticCoderBase} (h : c.Normal) : c.Ordered :=
  ⟨by have := h.low; have := h.high; omega, h.lt⟩

/-- Both registers moved down by `off`, then doubled, a one entering at the top. -/
structure Rescaled (c c' : ArithmeticCoderBase) (off : Nat) : Prop where
  size : c'.size = c.size
  off_le : off ≤ c.low.toNat
  low : c'.low.toNat = 2 * (c.low.toNat - off)
  high : c'.high.toNat = 2 * (c.high.toNat - off) + 1

theorem Rescaled.range {c c' : ArithmeticCoderBase} {off : Nat} (h : Rescaled c c' off)
    (ord : c.low.toNat ≤ c.high.toNat) :
    c'.high.toNat - c'.low.toNat + 1 = 2 * (c.high.toNat - c.low.toNat + 1) := by
  have h1 := h.off_le
  have h2 := h.low
  have h3 := h.high
  omega

theorem new_registers {numBits : Int} {c : ArithmeticCoderBase} (h : new numBits = .ok c) :
    c.low = 0 ∧ c.high = c.size.stateMask := by
  rw [new] at h
  split at h
  case isTrue =>
      obtain rfl := Except.ok.inj h
      exact ⟨rfl, rfl⟩
  case isFalse => contradiction

theorem initial_normal {c : ArithmeticCoderBase} (low : c.low = 0)
    (high : c.high = c.size.stateMask) : c.Normal := by
  have hpos := c.size.half_pos
  have hl : c.low.toNat = 0 := by rw [low]; rfl
  have hh : c.high.toNat = 2 * c.size.half - 1 := by rw [high, StateSize.stateMask_toNat]
  have hodd : c.size.half = 1 ∨ 2 ≤ c.size.half := by omega
  refine ⟨by omega, by omega, by omega, ?_⟩
  rw [hl, hh]
  omega

end ArithmeticCoderBase
end Soc
