import Soc.Basic
import Soc.Foundation.BitString

/-!
`BitOutputStream` of `arithmetic_coding.cpp`: bits are gathered in an `int` and
stored a byte at a time at `data_addr[size++]`.

Whether `char` is signed decides a detour through a negative `int` that the
cast to `uint8_t` undoes; the flag stays a parameter.
-/
namespace Soc
open BitString

/-- The fields of the class; `data` is what was stored from `data_addr` on, so
that `size` is its length. -/
structure BitOutputStream where
  currentByte : BitVec 32
  numBitsFilled : Nat
  data : List UInt8
  deriving DecidableEq

namespace BitOutputStream

/-- The constructor: no bit gathered, nothing stored. -/
def new : BitOutputStream := ⟨0, 0, []⟩

def size (out : BitOutputStream) : Nat := out.data.length

/-- A platform whose `char` is signed first makes the full byte negative. -/
def charValue (charIsSigned : Bool) (v : BitVec 32) : BitVec 32 :=
  if charIsSigned then v - (v.sshiftRight 7) <<< 8 else v

def write (charIsSigned : Bool) (out : BitOutputStream) (b : Int) :
    Except Fault BitOutputStream :=
  if b ≠ 0 ∧ b ≠ 1 then .error .domainError
  else
    let currentByte := (out.currentByte <<< 1) ||| BitVec.ofInt 32 b
    let numBitsFilled := out.numBitsFilled + 1
    if numBitsFilled = 8 then
      .ok ⟨0, 0, out.data ++ [⟨(charValue charIsSigned currentByte).setWidth 8⟩]⟩
    else .ok ⟨currentByte, numBitsFilled, out.data⟩

/-- `while (numBitsFilled != 0) write(0)`, with a bound on the turns. -/
def finishLoop (charIsSigned : Bool) : Nat → BitOutputStream → Except Fault BitOutputStream
  | fuel, out =>
    if out.numBitsFilled = 0 then .ok out
    else match fuel with
      | 0 => .error .unfinished
      | fuel + 1 => do finishLoop charIsSigned fuel (← write charIsSigned out 0)

def finish (charIsSigned : Bool) (out : BitOutputStream) : Except Fault BitOutputStream :=
  finishLoop charIsSigned 8 out

/-- Every bit written so far: the stored bytes, then the gathered bits. -/
def bits (out : BitOutputStream) : List Bool :=
  bytesBits out.data ++ lowBits out.numBitsFilled out.currentByte.toNat

/-- Between writes fewer than eight bits are gathered and nothing else is set. -/
structure WellFormed (out : BitOutputStream) : Prop where
  filled : out.numBitsFilled < 8
  current : out.currentByte.toNat < 2 ^ out.numBitsFilled

theorem new_wellFormed : new.WellFormed := ⟨by decide, by decide⟩

theorem new_bits : new.bits = [] := rfl

theorem bits_length (out : BitOutputStream) :
    out.bits.length = 8 * out.size + out.numBitsFilled := by
  rw [bits, List.length_append, bytesBits_length, lowBits_length, size]

theorem gather_toNat (v : BitVec 32) (b : Bool) (h : v.toNat < 2 ^ 31) :
    ((v <<< 1) ||| BitVec.ofInt 32 b.toNat).toNat = 2 * v.toNat + b.toNat := by
  have hb : (BitVec.ofInt 32 b.toNat).toNat = b.toNat := by cases b <;> rfl
  have hlt : b.toNat < 2 ^ 1 := by cases b <;> decide
  have hv : (v <<< 1).toNat = 2 ^ 1 * v.toNat := by
    rw [BitVec.toNat_shiftLeft, Nat.shiftLeft_eq, Nat.mod_eq_of_lt (by omega), Nat.mul_comm]
  rw [BitVec.toNat_or, hb, hv, ← Nat.two_pow_add_eq_or_of_lt hlt]

/-- The detour through a signed `char` is undone by the cast to a byte. -/
theorem charValue_byte (charIsSigned : Bool) (v : BitVec 32) :
    (UInt8.ofBitVec ((charValue charIsSigned v).setWidth 8)).toNat = v.toNat % 256 := by
  rw [UInt8.toNat_ofBitVec, BitVec.toNat_setWidth]
  cases charIsSigned with
  | false => rfl
  | true =>
      simp only [charValue, if_true, BitVec.toNat_sub, BitVec.toNat_shiftLeft, Nat.shiftLeft_eq]
      omega

/-- One write appends one bit, whatever the platform's `char`. -/
theorem write_bits {out : BitOutputStream} (wf : out.WellFormed) (charIsSigned b : Bool) :
    ∃ out', write charIsSigned out b.toNat = .ok out' ∧ out'.WellFormed ∧
      out'.bits = out.bits ++ [b] := by
  have hfilled := wf.filled
  have hcurrent := wf.current
  have hb := Bool.toNat_le b
  have hv : out.currentByte.toNat < 2 ^ 7 :=
    Nat.lt_of_lt_of_le hcurrent (Nat.pow_le_pow_right (by decide) (by omega))
  have hgather := gather_toNat out.currentByte b (by omega)
  have hguard : ¬((b.toNat : Int) ≠ 0 ∧ (b.toNat : Int) ≠ 1) := by cases b <;> decide
  have hlow := lowBits_succ out.numBitsFilled out.currentByte.toNat b
  by_cases hfull : out.numBitsFilled + 1 = 8
  · refine ⟨_, by rw [write, if_neg hguard, if_pos hfull], ⟨?_, ?_⟩, ?_⟩
    · simp
    · simp
    · have hmod : (2 * out.currentByte.toNat + b.toNat) % 256 =
          2 * out.currentByte.toNat + b.toNat := Nat.mod_eq_of_lt (by omega)
      have hseven : out.numBitsFilled = 7 := by omega
      rw [hseven] at hlow
      simp only [bits, bytesBits, List.flatMap_append, List.flatMap_cons, List.flatMap_nil,
        List.append_nil, byteBits_eq, charValue_byte, hgather, hmod, hseven, hlow,
        List.append_assoc]
      simp [lowBits]
  · refine ⟨_, by rw [write, if_neg hguard, if_neg hfull], ⟨?_, ?_⟩, ?_⟩
    · simp only
      omega
    · simp only [hgather, pow_succ]
      omega
    · simp only [bits, hgather, hlow, List.append_assoc]

/-- The position within the byte advances by one, modulo eight. -/
theorem write_filled {out out' : BitOutputStream} {b : Bool} (wf' : out'.WellFormed)
    (h : out'.bits = out.bits ++ [b]) : out'.numBitsFilled = (out.numBitsFilled + 1) % 8 := by
  have hlen := congrArg List.length h
  have hlt := wf'.filled
  rw [List.length_append, bits_length, bits_length, List.length_singleton] at hlen
  omega

theorem finishLoop_bits (charIsSigned : Bool) (fuel : Nat) {out : BitOutputStream}
    (wf : out.WellFormed) (h : out.numBitsFilled = 0 ∨ 8 ≤ out.numBitsFilled + fuel) :
    ∃ out', finishLoop charIsSigned fuel out = .ok out' ∧ out'.WellFormed ∧
      out'.numBitsFilled = 0 ∧
      out'.bits = out.bits ++ List.replicate ((8 - out.numBitsFilled) % 8) false := by
  induction fuel generalizing out with
  | zero =>
      have h0 : out.numBitsFilled = 0 := by have := wf.filled; omega
      exact ⟨out, by rw [finishLoop, if_pos h0], wf, h0, by simp [h0]⟩
  | succ fuel ih =>
      by_cases h0 : out.numBitsFilled = 0
      · exact ⟨out, by rw [finishLoop, if_pos h0], wf, h0, by simp [h0]⟩
      · have hfilled := wf.filled
        obtain ⟨out₁, hw, wf₁, hbits₁⟩ := write_bits wf charIsSigned false
        have hstep := write_filled wf₁ hbits₁
        obtain ⟨out₂, hrun, wf₂, hzero, hbits₂⟩ := ih wf₁ (by omega)
        refine ⟨out₂, ?_, wf₂, hzero, ?_⟩
        · rw [finishLoop, if_neg h0]
          exact (congrArg (· >>= finishLoop charIsSigned fuel) hw).trans hrun
        · have hcount : (8 - out.numBitsFilled) % 8 = (8 - out₁.numBitsFilled) % 8 + 1 := by omega
          rw [hbits₂, hbits₁, hcount, List.replicate_succ, List.append_assoc]
          rfl

/-- Closing the stream completes the last byte with zeros and stores it. -/
theorem finish_bits (charIsSigned : Bool) {out : BitOutputStream} (wf : out.WellFormed) :
    ∃ out', finish charIsSigned out = .ok out' ∧
      bytesBits out'.data =
        out.bits ++ List.replicate ((8 - out.numBitsFilled) % 8) false := by
  obtain ⟨out', hrun, wf', hzero, hbits⟩ := finishLoop_bits charIsSigned 8 wf (by omega)
  refine ⟨out', hrun, ?_⟩
  rw [← hbits, bits, hzero]
  simp [lowBits]

end BitOutputStream
end Soc
