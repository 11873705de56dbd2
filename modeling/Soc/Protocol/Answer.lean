import Soc.Protocol.Transfer

/-!
An answer to a RECV request: a block of memory on the line and back.

What packing, counting, byte order and check sum make of the block is the table
of the protocol document, row by row; receiving it into empty slots fills every
slot and unpacks to the block.
-/
namespace Soc
open Windows Layout

/-- Bytes 1 to 532 of frame `i` in table 5-2, for a file `b`. -/
def tableRow (b : List UInt8) (nFile : UInt32) (flag : UInt8) (count i : Nat) : List UInt8 :=
  let n := (b.length + 511) / 512
  let piece := (b.drop (i * 512)).take 512
  [0x3A, 0x62, 0x04, 0x3F] ++ beBytes 3 ((count + i) % 2 ^ 24) ++ [flag] ++
    beBytes 4 nFile.toNat ++ beBytes 2 (if n = 1 then 0 else i + 1) ++ beBytes 4 b.length ++
    beBytes 2 (if i + 1 < n then 512 else b.length - 512 * (n - 1)) ++
    (piece ++ List.replicate (512 - piece.length) 0)

/-- A whole frame of the table: the check sum is the remainder of the row. -/
def tableFrame (b : List UInt8) (nFile : UInt32) (flag : UInt8) (count i : Nat) : List UInt8 :=
  let row := tableRow b nFile flag count i
  row ++ beBytes 2 (remainder row).toNat

/-! Sending. -/

/-- A frame as it leaves with a value of the counter. -/
def DataFrame.counted (count : BitVec 24) (f : DataFrame) : DataFrame :=
  { f with nTotalFrame := count }

theorem sendDataFrames_ready (i : Nat) (count : BitVec 24) (frames : List DataFrame) :
    (sendDataFrames (fun _ => true) i count frames).2.2 =
      frames.mapIdx fun j f => writeDataFrame (f.counted (count + BitVec.ofNat 24 j)) := by
  induction frames generalizing i count with
  | nil => rfl
  | cons f fs ih =>
      have hzero : count + BitVec.ofNat 24 0 = count := by simp
      have hsucc (j : Nat) : count + 1 + BitVec.ofNat 24 j = count + BitVec.ofNat 24 (j + 1) := by
        have hone : BitVec.toNat (1 : BitVec 24) = 1 := rfl
        apply BitVec.eq_of_toNat_eq
        simp only [BitVec.toNat_add, BitVec.toNat_ofNat, hone]
        omega
      simp only [sendDataFrames, sendDataFrame, if_true, ih, List.mapIdx_cons, hzero, hsucc,
        List.singleton_append]
      rfl

/-! Receiving into empty slots. -/

theorem fill_written (slots frames : List DataFrame) (hlen : slots.length = frames.length)
    (hempty : ∀ s ∈ slots, s.Empty) (hheader : ∀ f ∈ frames, f.header = tpHeader) :
    List.zipWith fill slots (frames.map writeDataFrame) = frames.map DataFrame.signed ∧
      (slots.zip (frames.map writeDataFrame)).countP missed = 0 := by
  induction frames generalizing slots with
  | nil => simp
  | cons f fs ih =>
      cases slots with
      | nil => simp at hlen
      | cons s ss =>
          obtain ⟨hfill, hcount⟩ := ih ss (by simpa using hlen)
            (fun x hx => hempty x (List.mem_cons_of_mem _ hx))
            (fun x hx => hheader x (List.mem_cons_of_mem _ hx))
          have hacc := (accepts_writeDataFrame f).mpr (hheader f List.mem_cons_self)
          have hs := hempty s List.mem_cons_self
          refine ⟨?_, ?_⟩
          · rw [List.map_cons, List.zipWith_cons_cons, hfill, fill, if_pos ⟨hs, hacc⟩,
              parse_writeDataFrame, List.map_cons]
          · rw [List.map_cons, List.zip_cons_cons, List.countP_cons, hcount]
            simp [missed, hacc]

theorem receive_written {slots frames : List DataFrame} (nFrame : UInt16)
    (hframes : frames.length = nFrame.toNat) (hslots : slots.length = nFrame.toNat)
    (hempty : ∀ s ∈ slots, s.Empty) (hheader : ∀ f ∈ frames, f.header = tpHeader)
    {reads : List (List UInt8)} (steady : Steady 0 reads)
    (hreads : reads.flatten = (frames.map writeDataFrame).flatten) :
    receiveDataFrames true reads slots nFrame = .ok (0, frames.map DataFrame.signed) := by
  have hwindows := receivedWindows_blocks _ _ steady hreads
    (by
      intro b hb
      obtain ⟨f, -, rfl⟩ := List.mem_map.mp hb
      exact writeDataFrame_length f)
    (by rw [List.length_map, hframes])
  rw [List.length_map, hframes, Nat.sub_self, List.replicate_zero, List.append_nil] at hwindows
  obtain ⟨hfill, hcount⟩ := fill_written slots frames (hslots.trans hframes.symm) hempty hheader
  rw [receiveDataFrames_ok (Nat.le_of_eq hslots.symm), countMissed, hwindows, hfill, hcount,
    ← hslots, List.drop_length, List.append_nil]
  rfl

/-! The frames of an answer. -/

section Answer
variable {b : List UInt8} (lo : 1 ≤ b.length) (hi : b.length ≤ 65535 * 512)

theorem countFrames_eq (len : Nat) : countFrames len = (len + 511) / 512 := by
  have hmax := frameDataLenMax_eq
  unfold countFrames
  split
  · omega
  · rw [hmax]
    omega

include lo hi

theorem answer_alloc {block : List DataFrame} (hblock : block.length = (b.length + 511) / 512)
    (rest : List UInt8) (nFile : UInt32) (flag : UInt8) :
    allocDataFrames (some block) (UInt16.ofNat ((b.length + 511) / 512)) nFile
        (.memory (b ++ rest) b.length) flag (UInt32.ofNat b.length) =
      .ok (some (List.zipWith DataFrame.packed
        (initDataFrames block (UInt16.ofNat ((b.length + 511) / 512)) nFile flag
          (UInt32.ofNat b.length)) (pieces b))) := by
  have hn : (UInt16.ofNat ((b.length + 511) / 512)).toNat = (b.length + 511) / 512 := by
    rw [UInt16.toNat_ofNat']
    exact Nat.mod_eq_of_lt (by omega)
  have htake : block.take (UInt16.ofNat ((b.length + 511) / 512)).toNat = block := by
    rw [hn, ← hblock, List.take_length]
  have hpack := dataToDataFrames_ok (b ++ rest) (initDataFrames block
    (UInt16.ofNat ((b.length + 511) / 512)) nFile flag (UInt32.ofNat b.length)) lo (by simp)
    (hi.trans (Nat.mul_le_mul_right _ (Nat.le_succ 65535)))
    (by rw [initDataFrames, List.length_mapIdx, hblock, countFrames_eq])
  rw [List.take_left] at hpack
  simp only [allocDataFrames, htake, hpack, ok_bind]
  rfl

/-- A frame of the answer, counted, has the fields of its row. -/
theorem answer_line {f : DataFrame} {count : BitVec 24} {i : Nat}
    (hidx : i < (b.length + 511) / 512) (nFile : UInt32) (flag : UInt8) :
    writeDataFrame (({ f with
      header := tpHeader
      flag := flag
      nFile := nFile
      nFrame := idToNFrame (UInt16.ofNat i) (UInt16.ofNat ((b.length + 511) / 512))
      totalDataLen := UInt32.ofNat b.length } : DataFrame).packed
        ((b.drop (i * 512)).take 512) |>.counted (count + BitVec.ofNat 24 i)) =
      tableFrame b nFile flag count.toNat i := by
  have hcounter : (count + BitVec.ofNat 24 i).toNat = (count.toNat + i) % 2 ^ 24 := by
    simp only [BitVec.toNat_add, BitVec.toNat_ofNat]
    omega
  have hnumber : (idToNFrame (UInt16.ofNat i) (UInt16.ofNat ((b.length + 511) / 512))).toNat =
      if (b.length + 511) / 512 = 1 then 0 else i + 1 := by
    have hone : UInt16.ofNat ((b.length + 511) / 512) = 1 ↔ (b.length + 511) / 512 = 1 := by
      rw [← UInt16.toNat_inj, UInt16.toNat_ofNat', Nat.mod_eq_of_lt (by omega)]
      rfl
    simp only [idToNFrame, hone]
    split
    · rw [UInt16.toNat_ofNat']
      omega
    · rw [UInt16.toNat_add, UInt16.toNat_ofNat']
      have : UInt16.toNat 1 = 1 := rfl
      omega
  have htotal : (UInt32.ofNat b.length).toNat = b.length := by
    rw [UInt32.toNat_ofNat']
    exact Nat.mod_eq_of_lt (by omega)
  have hlen : ((b.drop (i * 512)).take 512).length =
      if i + 1 < (b.length + 511) / 512 then 512
      else b.length - 512 * ((b.length + 511) / 512 - 1) := by
    rw [List.length_take, List.length_drop]
    split <;> omega
  have hdataLen : (UInt16.ofNat ((b.drop (i * 512)).take 512).length).toNat =
      if i + 1 < (b.length + 511) / 512 then 512
      else b.length - 512 * ((b.length + 511) / 512 - 1) := by
    rw [hlen, UInt16.toNat_ofNat']
    split <;> exact Nat.mod_eq_of_lt (by omega)
  have hdata : (zeroPadded ((b.drop (i * 512)).take 512)).toList =
      (b.drop (i * 512)).take 512 ++
        List.replicate (512 - ((b.drop (i * 512)).take 512).length) 0 :=
    Layout.bytes_load_toList (by
      rw [List.length_take, frameDataLenMax_eq]
      exact Nat.min_le_left _ _)
  have hrow : DataFrame.line (({ f with
      header := tpHeader
      flag := flag
      nFile := nFile
      nFrame := idToNFrame (UInt16.ofNat i) (UInt16.ofNat ((b.length + 511) / 512))
      totalDataLen := UInt32.ofNat b.length } : DataFrame).packed
        ((b.drop (i * 512)).take 512) |>.counted (count + BitVec.ofNat 24 i)) =
      tableRow b nFile flag count.toNat i := by
    simp only [DataFrame.line, DataFrame.counted, DataFrame.packed, hcounter, hnumber, htotal,
      hdataLen, hdata, tableRow]
    rfl
  rw [writeDataFrame_line, hrow, tableFrame]

theorem answer_sent {block : List DataFrame} (hblock : block.length = (b.length + 511) / 512)
    (nFile : UInt32) (flag : UInt8) (count : BitVec 24) :
    (sendDataFrames (fun _ => true) 0 count (List.zipWith DataFrame.packed
      (initDataFrames block (UInt16.ofNat ((b.length + 511) / 512)) nFile flag
        (UInt32.ofNat b.length)) (pieces b))).2.2 =
      (List.range ((b.length + 511) / 512)).map (tableFrame b nFile flag count.toNat) := by
  have hpieces : (pieces b).length = (b.length + 511) / 512 := by
    rw [pieces_length, countFrames_eq]
  rw [sendDataFrames_ready]
  apply List.ext_getElem
  · rw [List.length_mapIdx, List.length_zipWith, initDataFrames, List.length_mapIdx, hblock,
      hpieces, Nat.min_self, List.length_map, List.length_range]
  · intro i hi₁ hi₂
    have hidx : i < (b.length + 511) / 512 := by simpa using hi₂
    have hcount : i < (pieces b).length := by omega
    have halloc : i < block.length := by omega
    have hpiece : (pieces b)[i] = (b.drop (i * 512)).take 512 := by
      have h := windows_getElem? frameDataLenMax (countFrames b.length) b i
        (by rwa [countFrames_eq])
      obtain ⟨_, heq⟩ := List.getElem?_eq_some_iff.mp h
      exact heq
    rw [List.getElem_mapIdx, List.getElem_zipWith, hpiece, List.getElem_map, List.getElem_range,
      ← answer_line lo hi (f := block[i]) hidx]
    simp only [initDataFrames, List.getElem_mapIdx]

end Answer

/-- The answer to a RECV request is the table of the document, and receiving it
gives the bit stream back. -/
theorem answer_conforms {b : List UInt8} (lo : 1 ≤ b.length) (hi : b.length ≤ 65535 * 512)
    {block : List DataFrame} (hblock : block.length = (b.length + 511) / 512)
    (rest : List UInt8) (nFile : UInt32) (flag : UInt8) (count : BitVec 24) :
    let n := (b.length + 511) / 512
    ∃ frames, allocDataFrames (some block) (UInt16.ofNat n) nFile (.memory (b ++ rest) b.length)
        flag (UInt32.ofNat b.length) = .ok (some frames) ∧
      let wires := (sendDataFrames (fun _ => true) 0 count frames).2.2
      wires = (List.range n).map (tableFrame b nFile flag count.toNat) ∧
      (∀ wire ∈ wires, wire.length = 534) ∧ 512 * (n - 1) < b.length ∧ b.length ≤ 512 * n ∧
      ∀ (slots : List DataFrame) (reads : List (List UInt8)), slots.length = n →
        (∀ s ∈ slots, s.Empty) → Steady 0 reads → reads.flatten = wires.flatten →
        ∃ slots', receiveDataFrames true reads slots (UInt16.ofNat n) = .ok (0, slots') ∧
          dataFrameToDataLen slots' n = b.length ∧ dataFramesToData slots' n = .ok b := by
  intro n
  have hn : n = (b.length + 511) / 512 := rfl
  have hcount : (UInt16.ofNat n).toNat = n := by
    rw [UInt16.toNat_ofNat']
    exact Nat.mod_eq_of_lt (by omega)
  have hinit : (initDataFrames block (UInt16.ofNat n) nFile flag (UInt32.ofNat b.length)).length =
      (pieces b).length := by
    rw [initDataFrames, List.length_mapIdx, hblock, pieces_length, countFrames_eq]
  refine ⟨_, answer_alloc lo hi hblock rest nFile flag, ?_⟩
  have htable := answer_sent lo hi hblock nFile flag count
  generalize hframes : List.zipWith DataFrame.packed
    (initDataFrames block (UInt16.ofNat n) nFile flag (UInt32.ofNat b.length)) (pieces b) =
    frames at htable
  intro wires
  have hlen : frames.length = n := by
    rw [← hframes, List.length_zipWith, hinit, Nat.min_self, pieces_length, countFrames_eq]
  have hsent : wires = (frames.mapIdx fun j f => f.counted (count + BitVec.ofNat 24 j)).map
      writeDataFrame := by
    rw [map_mapIdx]
    exact sendDataFrames_ready 0 count frames
  refine ⟨htable, ?_, by omega, by omega, ?_⟩
  · intro wire hwire
    rw [hsent] at hwire
    obtain ⟨f, -, rfl⟩ := List.mem_map.mp hwire
    exact writeDataFrame_length f
  · intro slots reads hslots hempty steady hreads
    have hheader : ∀ f ∈ frames.mapIdx fun j f => f.counted (count + BitVec.ofNat 24 j),
        f.header = tpHeader := by
      intro f hf
      obtain ⟨i, hi, rfl⟩ := List.mem_mapIdx.mp hf
      subst hframes
      simp only [DataFrame.counted, List.getElem_zipWith, DataFrame.packed, initDataFrames,
        List.getElem_mapIdx]
    have hrecv := receive_written (UInt16.ofNat n)
      (by rw [List.length_mapIdx, hlen, hcount]) (by rw [hslots, hcount]) hempty hheader steady
      (by rw [hreads, hsent])
    have hcontents : ((frames.mapIdx fun j f => f.counted (count + BitVec.ofNat 24 j)).map
        DataFrame.signed).map DataFrame.contents = frames.map DataFrame.contents := by
      rw [List.map_map]
      exact mapIdx_map_of_const
        (f := fun j (f : DataFrame) => f.counted (count + BitVec.ofNat 24 j))
        (g := DataFrame.contents ∘ DataFrame.signed) (h := DataFrame.contents)
        (fun _ _ => rfl) frames
    have hdata : dataFramesToData frames n = .ok b := by
      have h := dataFramesToData_packed _ (pieces b) hinit (pieces_le b)
      rw [hframes, pieces_flatten lo, pieces_length, countFrames_eq] at h
      exact h
    refine ⟨_, hrecv, ?_, ?_⟩
    · rw [dataFrameToDataLen_contents hcontents, dataFramesToData_length _ _ hdata]
    · rw [dataFramesToData_contents hcontents, hdata]

/-- Two frames, the second of one byte, sent from the last value of the counter on. -/
theorem answer_conforms_wrap :
    ∃ frames, allocDataFrames (some (List.replicate 2 ⟨tpHeader, 0, 0, 0, 0, 0, 0,
        List.Vector.replicate frameDataLenMax 9, 0⟩)) 2 3
        (.memory (List.replicate 513 1 ++ [5]) 513) flagData 513 = .ok (some frames) ∧
      (sendDataFrames (fun _ => true) 0 0xFFFFFF frames).2.2 =
        [tableFrame (List.replicate 513 1) 3 flagData 0xFFFFFF 0,
          tableFrame (List.replicate 513 1) 3 flagData 0xFFFFFF 1] := by
  have hblock : (List.replicate 2 (⟨tpHeader, 0, 0, 0, 0, 0, 0,
      List.Vector.replicate frameDataLenMax 9, 0⟩ : DataFrame)).length =
      ((List.replicate 513 (1 : UInt8)).length + 511) / 512 := by
    rw [List.length_replicate, List.length_replicate]
  obtain ⟨frames, halloc, hwires, -⟩ := answer_conforms (b := List.replicate 513 1)
    (by rw [List.length_replicate]; decide) (by rw [List.length_replicate]; decide)
    hblock [5] 3 flagData 0xFFFFFF
  rw [List.length_replicate] at halloc hwires
  exact ⟨frames, halloc, hwires⟩

end Soc
