import Soc.Foundation.BitString
import Soc.Foundation.Layout
import Soc.Foundation.ShiftRegister

/-!
`crc16` of `crc.c`: the table-driven check sum of every frame.

One table step divides eight bits at once. The division of single bits is
linear in the register, so the table only has to be right on the bytes that
leave the register.
-/
namespace Soc
open BitString

/-- `lt` -/
def crcTable : List UInt16 :=
  [0x0000, 0x1021, 0x2042, 0x3063, 0x4084, 0x50a5, 0x60c6, 0x70e7, 0x8108, 0x9129,
   0xa14a, 0xb16b, 0xc18c, 0xd1ad, 0xe1ce, 0xf1ef, 0x1231, 0x0210, 0x3273, 0x2252,
   0x52b5, 0x4294, 0x72f7, 0x62d6, 0x9339, 0x8318, 0xb37b, 0xa35a, 0xd3bd, 0xc39c,
   0xf3ff, 0xe3de, 0x2462, 0x3443, 0x0420, 0x1401, 0x64e6, 0x74c7, 0x44a4, 0x5485,
   0xa56a, 0xb54b, 0x8528, 0x9509, 0xe5ee, 0xf5cf, 0xc5ac, 0xd58d, 0x3653, 0x2672,
   0x1611, 0x0630, 0x76d7, 0x66f6, 0x5695, 0x46b4, 0xb75b, 0xa77a, 0x9719, 0x8738,
   0xf7df, 0xe7fe, 0xd79d, 0xc7bc, 0x48c4, 0x58e5, 0x6886, 0x78a7, 0x0840, 0x1861,
   0x2802, 0x3823, 0xc9cc, 0xd9ed, 0xe98e, 0xf9af, 0x8948, 0x9969, 0xa90a, 0xb92b,
   0x5af5, 0x4ad4, 0x7ab7, 0x6a96, 0x1a71, 0x0a50, 0x3a33, 0x2a12, 0xdbfd, 0xcbdc,
   0xfbbf, 0xeb9e, 0x9b79, 0x8b58, 0xbb3b, 0xab1a, 0x6ca6, 0x7c87, 0x4ce4, 0x5cc5,
   0x2c22, 0x3c03, 0x0c60, 0x1c41, 0xedae, 0xfd8f, 0xcdec, 0xddcd, 0xad2a, 0xbd0b,
   0x8d68, 0x9d49, 0x7e97, 0x6eb6, 0x5ed5, 0x4ef4, 0x3e13, 0x2e32, 0x1e51, 0x0e70,
   0xff9f, 0xefbe, 0xdfdd, 0xcffc, 0xbf1b, 0xaf3a, 0x9f59, 0x8f78, 0x9188, 0x81a9,
   0xb1ca, 0xa1eb, 0xd10c, 0xc12d, 0xf14e, 0xe16f, 0x1080, 0x00a1, 0x30c2, 0x20e3,
   0x5004, 0x4025, 0x7046, 0x6067, 0x83b9, 0x9398, 0xa3fb, 0xb3da, 0xc33d, 0xd31c,
   0xe37f, 0xf35e, 0x02b1, 0x1290, 0x22f3, 0x32d2, 0x4235, 0x5214, 0x6277, 0x7256,
   0xb5ea, 0xa5cb, 0x95a8, 0x8589, 0xf56e, 0xe54f, 0xd52c, 0xc50d, 0x34e2, 0x24c3,
   0x14a0, 0x0481, 0x7466, 0x6447, 0x5424, 0x4405, 0xa7db, 0xb7fa, 0x8799, 0x97b8,
   0xe75f, 0xf77e, 0xc71d, 0xd73c, 0x26d3, 0x36f2, 0x0691, 0x16b0, 0x6657, 0x7676,
   0x4615, 0x5634, 0xd94c, 0xc96d, 0xf90e, 0xe92f, 0x99c8, 0x89e9, 0xb98a, 0xa9ab,
   0x5844, 0x4865, 0x7806, 0x6827, 0x18c0, 0x08e1, 0x3882, 0x28a3, 0xcb7d, 0xdb5c,
   0xeb3f, 0xfb1e, 0x8bf9, 0x9bd8, 0xabbb, 0xbb9a, 0x4a75, 0x5a54, 0x6a37, 0x7a16,
   0x0af1, 0x1ad0, 0x2ab3, 0x3a92, 0xfd2e, 0xed0f, 0xdd6c, 0xcd4d, 0xbdaa, 0xad8b,
   0x9de8, 0x8dc9, 0x7c26, 0x6c07, 0x5c64, 0x4c45, 0x3ca2, 0x2c83, 0x1ce0, 0x0cc1,
   0xef1f, 0xff3e, 0xcf5d, 0xdf7c, 0xaf9b, 0xbfba, 0x8fd9, 0x9ff8, 0x6e17, 0x7e36,
   0x4e55, 0x5e74, 0x2e93, 0x3eb2, 0x0ed1, 0x1ef0]

/-- `r = (r << 8) ^ lt[((uint8_t)(r >> 8) ^ *buffer) & 0xff]` -/
def crcStep (r : UInt16) (b : UInt8) : UInt16 :=
  (r <<< 8) ^^^ crcTable.getD ((r >>> 8).toUInt8 ^^^ b).toNat 0

def crcRegister (buffer : List UInt8) : UInt16 := buffer.foldl crcStep 0xffff

/-- The register with its bytes exchanged. -/
def crc16 (buffer : List UInt8) : UInt16 :=
  let r := crcRegister buffer
  (r >>> 8) ||| ((r &&& 0xff) <<< 8)

/-! Division by the generator polynomial. -/

/-- What the feedback adds to the register. -/
def feedback (b : Bool) : UInt16 := if b then 0x1021 else 0

/-- One bit through the shift register of `x^16 + x^12 + x^5 + 1`. -/
def divideBit (r : UInt16) (b : Bool) : UInt16 := (r <<< 1) ^^^ feedback (r.toBitVec.msb ^^ b)

/-- The remainder register, preset to all ones, most significant bits first. -/
def remainder (buffer : List UInt8) : UInt16 := (bytesBits buffer).foldl divideBit 0xffff

/-- The coefficients of the polynomial below the leading one. -/
def generator : BitVec 16 := 0x1021#16

theorem divideBit_toBitVec (r : UInt16) (b : Bool) :
    (divideBit r b).toBitVec = ShiftRegister.step generator r.toBitVec b := by
  rw [divideBit, ShiftRegister.step, UInt16.toBitVec_xor]
  cases r.toBitVec.msb ^^ b <;> rfl

theorem divideBits_toBitVec (r : UInt16) (bs : List Bool) :
    (bs.foldl divideBit r).toBitVec = ShiftRegister.run generator r.toBitVec bs := by
  induction bs generalizing r with
  | nil => rfl
  | cons b bs ih => rw [List.foldl_cons, ih, divideBit_toBitVec, ShiftRegister.run_cons]

theorem divideBit_xor (r s : UInt16) (a b : Bool) :
    divideBit (r ^^^ s) (a ^^ b) = divideBit r a ^^^ divideBit s b := by
  apply UInt16.toBitVec_inj.mp
  simp only [divideBit_toBitVec, UInt16.toBitVec_xor, ShiftRegister.step_xor]

def divideByte (r : UInt16) (b : UInt8) : UInt16 := (byteBits b).foldl divideBit r

theorem divideByte_xor (r s : UInt16) (a b : UInt8) :
    divideByte (r ^^^ s) (a ^^^ b) = divideByte r a ^^^ divideByte s b := by
  simp only [divideByte, byteBits, UInt8.toNat_xor, Nat.testBit_xor, List.range_succ,
    List.range_zero, List.nil_append, List.map_append, List.map_cons, List.map_nil,
    List.foldl_append, List.foldl_cons, List.foldl_nil, divideBit_xor]

/-- The register as its two bytes. -/
theorem register_split (r : UInt16) :
    r = r.toUInt8.toUInt16 ^^^ ((r >>> 8).toUInt8.toUInt16 <<< 8) := by
  apply UInt16.toBitVec_inj.mp
  simp only [UInt16.toBitVec_xor, UInt16.toBitVec_shiftLeft, UInt8.toBitVec_toUInt16,
    UInt16.toBitVec_toUInt8, UInt16.toBitVec_shiftRight]
  ext i hi
  by_cases h : i < 8
  · simp [h, BitVec.getLsbD_eq_getElem hi]
  · have hback : 8 + (i - 8) = i := by omega
    have hlow : i - 8 < 8 := by omega
    simp [h, hlow, hback, BitVec.getLsbD_eq_getElem hi]

theorem shift_split (r : UInt16) : r <<< 8 = r.toUInt8.toUInt16 <<< 8 := by
  apply UInt16.toBitVec_inj.mp
  simp only [UInt16.toBitVec_shiftLeft, UInt8.toBitVec_toUInt16, UInt16.toBitVec_toUInt8]
  ext i hi
  by_cases h : i < 8
  · simp [h]
  · have hlow : i - 8 < 8 := by omega
    have hlow' : i - 8 < 16 := by omega
    simp [h, hlow, BitVec.getLsbD_eq_getElem hlow']

/-- The low byte of the register leaves no feedback behind in eight bits. -/
theorem divideByte_low : ∀ k : Fin 256,
    divideByte (UInt8.ofNat k).toUInt16 0 = (UInt8.ofNat k).toUInt16 <<< 8 := by decide +kernel

/-- The table holds what an input byte leaves in a clear register. -/
theorem crcTable_eq : crcTable = (List.range 256).map fun k => divideByte 0 (UInt8.ofNat k) := by
  decide +kernel

theorem divideByte_top : ∀ k : Fin 256,
    divideByte ((UInt8.ofNat k).toUInt16 <<< 8) 0 = divideByte 0 (UInt8.ofNat k) := by
  decide +kernel

/-- An input byte acts like the same byte at the top of the register, and that
is what the table holds. -/
theorem divideByte_high (k : Fin 256) :
    divideByte ((UInt8.ofNat k).toUInt16 <<< 8) 0 = crcTable.getD k 0 ∧
      divideByte 0 (UInt8.ofNat k) = crcTable.getD k 0 := by
  have htable : divideByte 0 (UInt8.ofNat k) = crcTable.getD k 0 := by
    rw [crcTable_eq, List.getD_eq_getElem?_getD, List.getElem?_map, List.getElem?_range k.isLt]
    rfl
  exact ⟨(divideByte_top k).trans htable, htable⟩

theorem crcStep_eq (r : UInt16) (b : UInt8) : crcStep r b = divideByte r b := by
  have hlow := divideByte_low ⟨r.toUInt8.toNat, r.toUInt8.toNat_lt⟩
  have hhigh := (divideByte_high ⟨(r >>> 8).toUInt8.toNat, (r >>> 8).toUInt8.toNat_lt⟩).1
  have hin := (divideByte_high ⟨b.toNat, b.toNat_lt⟩).2
  have hboth := (divideByte_high
    ⟨((r >>> 8).toUInt8 ^^^ b).toNat, ((r >>> 8).toUInt8 ^^^ b).toNat_lt⟩).2
  simp only [UInt8.ofNat_toNat] at hlow hhigh hin hboth
  calc crcStep r b
      = divideByte r.toUInt8.toUInt16 0 ^^^ divideByte 0 ((r >>> 8).toUInt8 ^^^ b) := by
        rw [crcStep, shift_split, ← hlow, ← hboth]
    _ = divideByte r.toUInt8.toUInt16 0 ^^^
          (divideByte ((r >>> 8).toUInt8.toUInt16 <<< 8) 0 ^^^ divideByte 0 b) := by
        have h := divideByte_xor 0 0 (r >>> 8).toUInt8 b
        rw [UInt16.xor_zero] at h
        rw [h, hhigh, hin, ← hin, (divideByte_high
          ⟨(r >>> 8).toUInt8.toNat, (r >>> 8).toUInt8.toNat_lt⟩).2.symm]
        simp only [UInt8.ofNat_toNat]
    _ = divideByte r b := by
        rw [← divideByte_xor, ← divideByte_xor, UInt16.xor_zero, UInt8.zero_xor, UInt8.zero_xor,
          ← register_split]

theorem crcRegister_eq (buffer : List UInt8) : crcRegister buffer = remainder buffer := by
  rw [crcRegister, remainder, bytesBits, List.foldl_flatMap]
  congr 1
  funext r b
  exact crcStep_eq r b

theorem crc16_toNat (buffer : List UInt8) :
    (crc16 buffer).toNat = Layout.swapBytes 2 (remainder buffer).toNat := by
  have hlt := (remainder buffer).toNat_lt
  rw [crc16, crcRegister_eq]
  generalize remainder buffer = r at *
  have hhigh : (r >>> 8).toNat = r.toNat / 256 := by
    rw [UInt16.toNat_shiftRight, Nat.shiftRight_eq_div_pow]
    rfl
  have hlow : ((r &&& 0xff) <<< 8).toNat = (r.toNat % 256) <<< 8 := by
    have hmask : (r &&& 0xff).toNat = r.toNat % 256 := by
      rw [UInt16.toNat_and]
      exact Nat.and_two_pow_sub_one_eq_mod r.toNat 8
    have height : UInt16.toNat 8 % 16 = 8 := rfl
    rw [UInt16.toNat_shiftLeft, hmask, height, Nat.shiftLeft_eq]
    exact Nat.mod_eq_of_lt (by omega)
  have hswap : Layout.swapBytes 2 r.toNat = (r.toNat % 256) <<< 8 + r.toNat / 256 := by
    simp only [Layout.swapBytes, Layout.leBytes, List.reverse_cons, List.reverse_nil,
      List.nil_append, List.cons_append, Layout.leValue, UInt8.toNat_ofNat', Nat.shiftLeft_eq]
    omega
  simp only [UInt16.toNat_or, hhigh, hlow, hswap]
  rw [Nat.or_comm, Nat.shiftLeft_add_eq_or_of_lt (by omega)]

/-- In memory the check sum is the remainder, high byte first. -/
theorem crc16_image (buffer : List UInt8) :
    Layout.leBytes 2 (crc16 buffer).toNat = Layout.beBytes 2 (remainder buffer).toNat := by
  rw [crc16_toNat, Layout.leBytes_swapBytes]

end Soc
