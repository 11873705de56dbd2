import Soc.Protocol.Codec

/-!
What the check sum detects.

A frame passes the check sum test when its bytes, the sum included, leave the
remainder register clear; the sum is stored high byte first, so it continues the
bit string of the frame. Damage is then a matter of the flipped bits alone.
-/
namespace Soc
open BitString ShiftRegister Windows

/-! The polynomial `x^16 + x^12 + x^5 + 1`. -/

theorem generator_odd : generator.getLsbD 0 = true := rfl

theorem generator_parity : parity generator = 1 := by decide

/-- The longest frame has 4272 bits. -/
theorem generator_period : ∀ d, 0 < d → d ≤ 4271 → idle generator generator d ≠ generator :=
  idle_of_avoids (by decide) 4271 generator (by decide +kernel)

/-- Bits flipped within sixteen places in a row, or an odd number of them, or two. -/
def Detectable (flips : List Bool) : Prop :=
  (true ∈ flips ∧ ∃ a, ∀ i : Nat, flips[i]? = some true → a ≤ i ∧ i < a + 16) ∨
    Odd (flips.count true) ∨ flips.count true = 2

theorem detectable_marks {flips : List Bool} (hlen : flips.length ≤ 4272)
    (h : Detectable flips) : run generator 0#16 flips ≠ 0#16 := by
  rcases h with ⟨hsome, a, hburst⟩ | hodd | htwo
  · exact burst_detected generator_odd (by decide) hsome a hburst
  · exact odd_detected generator_parity hodd
  · refine pair_detected generator_odd (by decide) htwo ?_
    intro d hpos hlt
    exact generator_period d hpos (by omega)

/-! Code words. -/

/-- The bytes leave the register clear. -/
def Codeword (w : List UInt8) : Prop := run generator 0xffff#16 (bytesBits w) = 0#16

theorem remainder_toBitVec (buffer : List UInt8) :
    (remainder buffer).toBitVec = run generator 0xffff#16 (bytesBits buffer) :=
  divideBits_toBitVec 0xffff (bytesBits buffer)

theorem bytesBits_beBytes (v : Nat) : bytesBits (Layout.beBytes 2 v) = lowBits 16 v := by
  have hbytes : Layout.beBytes 2 v = [UInt8.ofNat (v / 256), UInt8.ofNat v] := rfl
  have hsplit : lowBits 16 v = lowBits 8 (v / 256) ++ lowBits 8 v := lowBits_add 8 8 v
  rw [hbytes, hsplit, ← byteBits_ofNat, ← byteBits_ofNat]
  simp [bytesBits]

/-- A message and its remainder, high byte first, make a code word. -/
theorem codeword_append (body : List UInt8) :
    Codeword (body ++ Layout.beBytes 2 (remainder body).toNat) := by
  rw [Codeword, bytesBits_append, run_append, ← remainder_toBitVec, bytesBits_beBytes]
  refine run_self generator _ (lowBits_length 16 _) ?_
  intro i b h
  obtain ⟨hi, rfl⟩ := lowBits_getElem? h
  rw [BitVec.getMsbD_eq_getLsbD]
  simp only [hi, decide_true, Bool.true_and]
  rfl

/-- A control frame that passes its test is a code word, and so is a data frame. -/
theorem codeword_of_checkSum {w body : List UInt8} {sum : UInt16}
    (hw : w = body ++ Layout.leBytes 2 sum.toNat) (hsum : crc16 body = sum) : Codeword w := by
  rw [hw, ← hsum, crc16_image]
  exact codeword_append body

theorem Frame.codeword {w : List UInt8} (hsize : w.length = frameSize)
    (hsum : crc16 (w.take (frameSize - 2)) = (Frame.layout.load w).checkSum) : Codeword w := by
  have hstore := Frame.layout.store_load w hsize
  have hbody : w.take (frameSize - 2) = (Frame.layout.load w).body := by
    rw [← Frame.take_store, hstore]
  rw [hbody] at hsum
  exact codeword_of_checkSum (hstore.symm.trans (Frame.store_eq _)) hsum

theorem DataFrame.codeword {w : List UInt8} (hsize : w.length = dataFrameSize)
    (hsum : crc16 (w.take (dataFrameSize - 2)) = (DataFrame.layout.load w).checkSum) :
    Codeword w := by
  have hstore := DataFrame.layout.store_load w hsize
  have hbody : w.take (dataFrameSize - 2) = (DataFrame.layout.load w).body := by
    rw [← DataFrame.take_store, hstore]
  rw [hbody] at hsum
  exact codeword_of_checkSum (hstore.symm.trans (DataFrame.store_eq _)) hsum

theorem writeFrame_codeword (f : Frame) : Codeword (writeFrame f) := by
  rw [writeFrame_eq, Frame.store_eq]
  exact codeword_of_checkSum rfl rfl

theorem writeDataFrame_codeword (f : DataFrame) : Codeword (writeDataFrame f) := by
  rw [writeDataFrame_eq, DataFrame.store_eq]
  exact codeword_of_checkSum rfl rfl

/-! Damage. -/

/-- The bytes with the bits of `e` flipped. -/
def damage (w e : List UInt8) : List UInt8 := List.zipWith (· ^^^ ·) w e

theorem damage_length {w e : List UInt8} (h : e.length = w.length) :
    (damage w e).length = w.length := by
  rw [damage, List.length_zipWith, h, Nat.min_self]

theorem damage_not_codeword {w e : List UInt8} (hw : Codeword w) (hlen : e.length = w.length)
    (hsize : w.length ≤ 534) (h : Detectable (bytesBits e)) : ¬ Codeword (damage w e) := by
  have hbits : (bytesBits w).length = (bytesBits e).length := by
    rw [bytesBits_length, bytesBits_length, hlen]
  have hmark := detectable_marks (by rw [bytesBits_length]; omega) h
  have hrun := run_xor generator 0xffff#16 0#16 hbits
  rw [BitVec.xor_zero, ← bytesBits_xor hlen.symm, hw, BitVec.zero_xor] at hrun
  intro hcode
  exact hmark (hrun.symm.trans hcode)

theorem receiveFrame_damaged (f g : Frame) {e : List UInt8} (hlen : e.length = frameSize)
    (h : Detectable (bytesBits e)) :
    receiveFrame true (some (damage (writeFrame f) e)) g = .ok (-3, g) := by
  have hsame : e.length = (writeFrame f).length := by rw [hlen, writeFrame_length]
  have hsize : (damage (writeFrame f) e).length = frameSize := by
    rw [damage_length hsame, writeFrame_length]
  have hnot := damage_not_codeword (writeFrame_codeword f) hsame
    (by rw [writeFrame_length]; decide) h
  have hsum := fun heq => hnot (Frame.codeword hsize heq)
  have hlong : ¬ (damage (writeFrame f) e).length < frameSize := by omega
  simp only [receiveFrame, if_true, if_neg hlong]
  rw [if_pos hsum]

theorem damaged_rejected (f : DataFrame) {e : List UInt8} (hlen : e.length = dataFrameSize)
    (h : Detectable (bytesBits e)) : accepts (damage (writeDataFrame f) e) = false := by
  have hsame : e.length = (writeDataFrame f).length := by rw [hlen, writeDataFrame_length]
  have hsize : (damage (writeDataFrame f) e).length = dataFrameSize := by
    rw [damage_length hsame, writeDataFrame_length]
  have hnot := damage_not_codeword (writeDataFrame_codeword f) hsame
    (by rw [writeDataFrame_length]) h
  rw [accepts, decide_eq_false_iff_not]
  exact fun hacc => hnot (DataFrame.codeword hsize hacc.2)

/-- Detectable damage is detected: a control frame is refused with `-3`, a data
frame leaves its slot as it was and is one of those the result counts. -/
theorem errors_detected :
    (∀ (f g : Frame) (e : List UInt8), e.length = 12 → Detectable (bytesBits e) →
      receiveFrame true (some (damage (writeFrame f) e)) g = .ok (-3, g)) ∧
    (∀ (f s : DataFrame) (e : List UInt8) (reads : List (List UInt8)), e.length = 534 →
      Detectable (bytesBits e) → s.Empty → Steady 0 reads →
      reads.flatten = damage (writeDataFrame f) e →
      receiveDataFrames true reads [s] 1 = .ok (1, [s])) ∧
    ∀ (f s : DataFrame) (e : List UInt8) (slots slots' : List DataFrame) (nFrame sum : UInt16)
      (reads : List (List UInt8)) (i : Nat), e.length = 534 → Detectable (bytesBits e) →
      s.Empty → slots[i]? = some s →
      (receivedWindows nFrame reads)[i]? = some (damage (writeDataFrame f) e) →
      receiveDataFrames true reads slots nFrame = .ok (sum, slots') →
      slots'[i]? = some s ∧
        sum.toNat = ((slots.zip (receivedWindows nFrame reads)).eraseIdx i).countP missed + 1 := by
  refine ⟨fun f g e hlen h => receiveFrame_damaged f g hlen h, ?_, ?_⟩
  · intro f s e reads hlen h hempty steady hreads
    have hsize : (damage (writeDataFrame f) e).length = dataFrameSize := by
      rw [damage_length (by rw [hlen, writeDataFrame_length]), writeDataFrame_length]
    rw [receive_single hempty hsize steady hreads, if_neg]
    rw [damaged_rejected f hlen h]
    decide
  · intro f s e slots slots' nFrame sum reads i hlen h hempty hs hw hrun
    have hrejected := damaged_rejected f hlen h
    obtain ⟨hle, -, hslot, -⟩ := receiveDataFrames_slots hrun
    have hfill := hslot i s _ hs hw
    rw [fill, if_neg (by simp [hrejected])] at hfill
    refine ⟨hfill, ?_⟩
    rw [receiveDataFrames_ok hle] at hrun
    obtain ⟨rfl, -⟩ := Prod.mk.inj (Except.ok.inj hrun)
    have hpair : (slots.zip (receivedWindows nFrame reads))[i]? =
        some (s, damage (writeDataFrame f) e) := List.getElem?_zip_eq_some.mpr ⟨hs, hw⟩
    have hmissed : missed (s, damage (writeDataFrame f) e) = true := by
      simp [missed, hempty, hrejected]
    rw [countMissed_toNat, countMissed, countP_eraseIdx hpair, hmissed]
    rfl

/-- The first bit of a frame of either kind is flipped. -/
theorem errors_detected_bit :
    receiveFrame true (some (damage (writeFrame { frameType := frameTypeQuery })
      (128 :: List.replicate 11 0))) {} = .ok (-3, {}) ∧
    receiveDataFrames true
      [damage (writeDataFrame { zeroFrame with header := tpHeader, dataLen := 1 })
        (128 :: List.replicate 533 0)] [zeroFrame] 1 = .ok (1, [zeroFrame]) := by
  have hzeros (n : Nat) : (bytesBits (List.replicate n 0)).count true = 0 := by
    rw [List.count_eq_zero]
    intro hmem
    obtain ⟨b, hb, hbit⟩ := List.mem_flatMap.mp hmem
    rw [List.eq_of_mem_replicate hb] at hbit
    exact absurd hbit (by decide)
  have hflip (n : Nat) : Detectable (bytesBits (128 :: List.replicate n 0)) := by
    have honce : (bytesBits (128 :: List.replicate n 0)).count true = 1 := by
      change (byteBits 128 ++ bytesBits (List.replicate n 0)).count true = 1
      rw [List.count_append, hzeros]
      decide
    exact .inr (.inl (honce ▸ odd_one))
  obtain ⟨hframe, hdata, -⟩ := errors_detected
  refine ⟨hframe _ {} _ rfl (hflip 11), ?_⟩
  have hsize : (128 :: List.replicate 533 (0 : UInt8)).length = 534 := by
    rw [List.length_cons, List.length_replicate]
  have hdamaged := damage_length (hsize.trans
    (writeDataFrame_length { zeroFrame with header := tpHeader, dataLen := 1 }).symm)
  rw [writeDataFrame_length] at hdamaged
  exact hdata _ zeroFrame _ _ hsize (hflip 533) rfl (steady_single hdamaged) (List.append_nil _)

end Soc
