import Mathlib.Tactic.IntervalCases
import Soc.Foundation.PolynomialDivision
import Soc.Protocol.Detection

/-!
What `crc16` computes.

The table-driven loop is the bit-serial division of `Crc`, and that is division of polynomials:
by `x^16 + x^12 + x^5 + 1`, with the register preset to all ones. The exchange of the two bytes
makes the stored check sum continue the bit string, which is then divided without remainder.
-/
namespace Soc
open BitString Layout Polynomial ShiftRegister

theorem modulus_generator : modulus generator = X ^ 16 + X ^ 12 + X ^ 5 + 1 := by
  ext k
  rw [modulus, coeff_add, coeff_poly]
  by_cases h : k < 16
  · interval_cases k <;> simp [generator, coeff_X_pow, coeff_one]
  · have hout : generator.getLsbD k = false := BitVec.getLsbD_of_ge generator k (by omega)
    simp [hout, coeff_X_pow, coeff_one, show k ≠ 12 by omega, show k ≠ 5 by omega,
      show k ≠ 0 by omega]

/-- The register holds the remainder of the preset, the buffer and sixteen zeros. -/
theorem remainder_poly (buffer : List UInt8) :
    poly (remainder buffer).toBitVec =
      (X ^ (8 * buffer.length) * poly 0xffff#16 + X ^ 16 * message (bytesBits buffer)) %ₘ
        (X ^ 16 + X ^ 12 + X ^ 5 + 1) := by
  rw [remainder_toBitVec, poly_run, bytesBits_length, modulus_generator]

theorem crcRegister_clear {w : List UInt8} (h : Codeword w) : crcRegister w = 0 := by
  apply UInt16.toBitVec_inj.mp
  rw [crcRegister_eq, remainder_toBitVec]
  exact h

/-- Bytes that end in the remainder of the others, high byte first. -/
structure Sealed (w : List UInt8) : Prop where
  checkSum : ∃ body, w = body ++ beBytes 2 (remainder body).toNat
  clear : crcRegister w = 0

theorem sealed_of_checkSum {w body : List UInt8}
    (hw : w = body ++ leBytes 2 (crc16 body).toNat) : Sealed w := by
  refine ⟨⟨body, ?_⟩, crcRegister_clear (codeword_of_checkSum hw rfl)⟩
  rw [hw, crc16_image]

theorem writeFrame_sealed (f : Frame) : Sealed (writeFrame f) := by
  rw [writeFrame_eq, Frame.store_eq]
  exact sealed_of_checkSum rfl

theorem writeDataFrame_sealed (f : DataFrame) : Sealed (writeDataFrame f) := by
  rw [writeDataFrame_eq, DataFrame.store_eq]
  exact sealed_of_checkSum rfl

/-- The check sum is the remainder with its bytes exchanged, and what is sent with it is divided
without remainder. -/
theorem crc16_ccitt :
    (∀ buffer : List UInt8,
      (crc16 buffer).toNat = swapBytes 2 (remainder buffer).toNat ∧
      poly (remainder buffer).toBitVec =
        (X ^ (8 * buffer.length) * poly 0xffff#16 + X ^ 16 * message (bytesBits buffer)) %ₘ
          (X ^ 16 + X ^ 12 + X ^ 5 + 1) ∧
      Sealed (buffer ++ leBytes 2 (crc16 buffer).toNat)) ∧
    (∀ f : Frame, Sealed (writeFrame f)) ∧ ∀ f : DataFrame, Sealed (writeDataFrame f) :=
  ⟨fun buffer => ⟨crc16_toNat buffer, remainder_poly buffer, sealed_of_checkSum rfl⟩,
    writeFrame_sealed, writeDataFrame_sealed⟩

end Soc
