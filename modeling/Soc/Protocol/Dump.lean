import Soc.Protocol.Loss
import Soc.Protocol.Slave

/-!
A dump of the master, and the slave that encodes it.

`--dump` writes the frames of a picture to a file as they travel. `--binary` reads such a file
back into frames as it is, so that their length fields have the byte order of the line, while
what unpacks them takes the order of the host. Only a length that reads the same either way
survives.
-/
namespace Soc
open Windows

/-- The loop of `--dump`: the file it leaves. -/
def dumpFile (outputDataFrames : List DataFrame) (nFrame : UInt16) : List UInt8 :=
  (outputDataFrames.take nFrame.toNat).flatMap writeDataFrame

/-- `get_data_frames` on a file that can be opened, with `binary` true: `n_file`, `n_frame` and
the frames. The block is as large as the file. Behind the frames that are read it stays as `malloc`
left it; when there are none, `n_file` is read there. -/
def getDataFramesBinary (heap : Option (Nat → UInt8)) (content : List UInt8) :
    Except Fault (UInt32 × UInt16 × List DataFrame) :=
  let nFrame := UInt16.ofNat (content.length / dataFrameSize)
  match heap with
  | none => .error .exited
  | some heap =>
    let block := content.mapIdx fun i b => if i < nFrame.toNat * dataFrameSize then b else heap i
    -- `n_file` takes the bytes 8 to 11
    if block.length < 12 then .error .outOfBounds
    else .ok (htobe32 (DataFrame.layout.load (block.take dataFrameSize)).nFile, nFrame,
      (windows dataFrameSize nFrame.toNat block).map DataFrame.layout.load)

/-- The dump of some frames is encoded as they are themselves. -/
def DumpAgrees (frames : List DataFrame) : Prop :=
  let nFrame := UInt16.ofNat frames.length
  ∃ nFile loaded,
    (∀ heap, getDataFramesBinary (some heap) (dumpFile frames nFrame) =
      .ok (nFile, nFrame, loaded)) ∧
    dataFrameToDataLen loaded nFrame.toNat = dataFrameToDataLen frames nFrame.toNat ∧
    dataFramesToData loaded nFrame.toNat = dataFramesToData frames nFrame.toNat ∧
    ∀ (o : Options) (malloc : Bool) (bitStream : Data8),
      processDataFrames o malloc loaded nFrame bitStream =
        processDataFrames o malloc frames nFrame bitStream

/-- What a frame is after it was dumped and loaded. -/
def DataFrame.loaded (f : DataFrame) : DataFrame := f.signed.swapped

theorem DataFrame.loaded_contents (f : DataFrame) :
    f.loaded.contents = (htobe16 f.dataLen, f.data) := rfl

section Load
variable {frames : List DataFrame}

theorem dumpFile_length (frames : List DataFrame) :
    (frames.flatMap writeDataFrame).length = frames.length * dataFrameSize := by
  induction frames with
  | nil => rfl
  | cons f frames ih =>
      rw [List.flatMap_cons, List.length_append, writeDataFrame_length, ih, List.length_cons,
        Nat.succ_mul, Nat.add_comm]

theorem count_of_length (h : frames.length < 65536) :
    (UInt16.ofNat frames.length).toNat = frames.length := by
  rw [UInt16.toNat_ofNat', Nat.mod_eq_of_lt h]

theorem dumpFile_eq (h : frames.length < 65536) :
    dumpFile frames (UInt16.ofNat frames.length) = frames.flatMap writeDataFrame := by
  rw [dumpFile, count_of_length h, List.take_length]

theorem windows_dumpFile (frames : List DataFrame) :
    windows dataFrameSize frames.length (frames.flatMap writeDataFrame) =
      frames.map writeDataFrame := by
  have hsize : ∀ b ∈ frames.map writeDataFrame, b.length = dataFrameSize := by
    intro b hb
    obtain ⟨f, -, rfl⟩ := List.mem_map.mp hb
    exact writeDataFrame_length f
  have hwindows := windows_append hsize 0 []
  rw [List.length_map, List.append_nil, windows, List.append_nil] at hwindows
  rw [List.flatMap_def]
  exact hwindows

theorem block_read {content : List UInt8} {got : Nat} (heap : Nat → UInt8)
    (h : content.length ≤ got) :
    (content.mapIdx fun i b => if i < got then b else heap i) = content := by
  refine List.ext_getElem List.length_mapIdx fun i _ hi => ?_
  rw [List.getElem_mapIdx, if_pos (Nat.lt_of_lt_of_le hi h)]

/-- Loading a dump gives the frames as they were on the line, whatever was in the block. -/
theorem getDataFramesBinary_dumpFile (h : frames.length < 65536) (heap : Nat → UInt8) :
    getDataFramesBinary (some heap) (dumpFile frames (UInt16.ofNat frames.length)) =
      match frames.map DataFrame.loaded with
      | [] => .error .outOfBounds
      | f :: _ => .ok (htobe32 f.nFile, UInt16.ofNat frames.length,
          frames.map DataFrame.loaded) := by
  have hcount : frames.length * dataFrameSize / dataFrameSize = frames.length :=
    Nat.mul_div_cancel _ (by decide)
  have hlength := dumpFile_length frames
  have hload : frames.map (DataFrame.layout.load ∘ writeDataFrame) =
      frames.map DataFrame.loaded := List.map_congr_left fun f _ => load_writeDataFrame f
  rw [getDataFramesBinary, dumpFile_eq h, hlength, hcount, count_of_length h,
    block_read heap (Nat.le_of_eq hlength), hlength, windows_dumpFile, List.map_map, hload]
  cases frames with
  | nil => rfl
  | cons f frames =>
      have hsize : ¬ (f :: frames).length * dataFrameSize < 12 := by
        rw [List.length_cons, dataFrameSize]
        omega
      rw [if_neg hsize, List.flatMap_cons, List.take_left' (writeDataFrame_length f),
        load_writeDataFrame]
      rfl

theorem loaded_of_agrees (h : frames.length < 65536) (hagrees : DumpAgrees frames) :
    dataFramesToData (frames.map DataFrame.loaded) frames.length =
      dataFramesToData frames frames.length := by
  obtain ⟨nFile, loaded, hget, -, hdata, -⟩ := hagrees
  have hget := hget fun _ => 0
  rw [getDataFramesBinary_dumpFile h] at hget
  rw [count_of_length h] at hdata
  split at hget
  · contradiction
  · cases hget
    exact hdata

end Load

/-! Lengths that read the same either way. -/

theorem swapBytes_two {v : Nat} (h : v < 65536) :
    Layout.swapBytes 2 v = v % 256 * 256 + v / 256 := by
  have hbytes : Layout.leBytes 2 v = [UInt8.ofNat v, UInt8.ofNat (v / 256)] := rfl
  rw [Layout.swapBytes, hbytes]
  simp [Layout.leValue]
  omega

theorem htobe16_eq_self {len : UInt16} (h : len.toNat ∈ Set.Icc 1 512) :
    min (htobe16 len).toNat 512 = len.toNat ↔ len = 257 := by
  have hvalue : (257 : UInt16).toNat = 257 := rfl
  obtain ⟨hlo, hhi⟩ := h
  rw [htobe16_toNat, swapBytes_two len.toNat_lt, ← UInt16.toNat_inj, hvalue]
  omega

/-- The same frame with one byte all over. -/
def DataFrame.filled (f : DataFrame) (byte : UInt8) : DataFrame :=
  { f with data := List.Vector.replicate frameDataLenMax byte }

theorem filled_carried (f : DataFrame) (byte : UInt8) :
    (f.filled byte).carried = List.replicate (min f.dataLen.toNat 512) byte := by
  have hdata : (f.filled byte).data.toList = List.replicate 512 byte := rfl
  rw [DataFrame.carried, hdata, List.take_replicate]
  rfl

theorem loaded_filled_carried (f : DataFrame) (byte : UInt8) :
    (f.filled byte).loaded.carried =
      List.replicate (min (htobe16 f.dataLen).toNat 512) byte := by
  have hdata : (f.filled byte).loaded.data.toList = List.replicate 512 byte := rfl
  rw [DataFrame.carried, hdata, List.take_replicate]
  rfl

/-- Zeros in one frame, and none in the others. -/
def marked (as : List DataFrame) (f : DataFrame) (bs : List DataFrame) : List DataFrame :=
  as.map (DataFrame.filled · 1) ++ f.filled 0 :: bs.map (DataFrame.filled · 1)

theorem marked_lens (as : List DataFrame) (f : DataFrame) (bs : List DataFrame) :
    (marked as f bs).map DataFrame.dataLen = (as ++ f :: bs).map DataFrame.dataLen := by
  simp [marked, DataFrame.filled, Function.comp_def]

theorem count_others {carried : DataFrame → List UInt8}
    (hone : ∀ f : DataFrame, ∃ n, carried (f.filled 1) = List.replicate n 1) (as : List DataFrame) :
    ((as.map (DataFrame.filled · 1)).flatMap carried).count 0 = 0 := by
  rw [List.count_eq_zero]
  intro hmem
  obtain ⟨g, hg, hmem⟩ := List.mem_flatMap.mp hmem
  obtain ⟨f, -, rfl⟩ := List.mem_map.mp hg
  obtain ⟨n, heq⟩ := hone f
  rw [heq] at hmem
  exact absurd (List.eq_of_mem_replicate hmem) (by decide)

theorem count_marked {carried : DataFrame → List UInt8}
    (hone : ∀ f : DataFrame, ∃ n, carried (f.filled 1) = List.replicate n 1) (as : List DataFrame)
    (f : DataFrame) (bs : List DataFrame) :
    ((marked as f bs).flatMap carried).count 0 = (carried (f.filled 0)).count 0 := by
  rw [marked, List.flatMap_append, List.flatMap_cons, List.count_append, List.count_append,
    count_others hone, count_others hone, Nat.zero_add, Nat.add_zero]

/-- The payloads of the marked frames tell the two lengths of the one frame apart. -/
theorem DumpAgrees.len {as : List DataFrame} {f : DataFrame} {bs : List DataFrame}
    (hcount : (as ++ f :: bs).length < 65536)
    (hlens : ∀ g ∈ as ++ f :: bs, g.dataLen.toNat ∈ Set.Icc 1 512)
    (h : DumpAgrees (marked as f bs)) : f.dataLen = 257 := by
  have hlength : (marked as f bs).length = (as ++ f :: bs).length := by
    simpa using congrArg List.length (marked_lens as f bs)
  rw [← hlength] at hcount
  have hsent : ∀ g ∈ marked as f bs, g.dataLen.toNat ≤ frameDataLenMax := by
    intro g hg
    have hlen := List.mem_map_of_mem (f := DataFrame.dataLen) hg
    rw [marked_lens] at hlen
    obtain ⟨g', hg', heq⟩ := List.mem_map.mp hlen
    rw [← heq]
    exact (hlens g' hg').2
  have hdata := loaded_of_agrees hcount h
  obtain ⟨bytes, hbytes⟩ := dataFramesToData_ok _ (Nat.le_refl _) hsent
  have hloaded := dataFramesToData_carried _ _ (hdata.trans hbytes)
  rw [← List.length_map DataFrame.loaded, List.take_length, List.flatMap_map] at hloaded
  have hfirst := dataFramesToData_carried _ _ hbytes
  rw [List.take_length] at hfirst
  have hzeros := congrArg (List.count 0) (hloaded.symm.trans hfirst)
  rw [count_marked (fun g => ⟨_, loaded_filled_carried g 1⟩),
    count_marked (fun g => ⟨_, filled_carried g 1⟩), loaded_filled_carried, filled_carried,
    List.count_replicate_self, List.count_replicate_self] at hzeros
  have hlen := hlens f (List.mem_append_right _ List.mem_cons_self)
  rw [← htobe16_eq_self hlen, hzeros]
  exact Nat.min_eq_left hlen.2

theorem dumpAgrees_of_len {frames : List DataFrame} (hcount : frames.length < 65536)
    (hne : frames ≠ []) (hall : ∀ f ∈ frames, f.dataLen = 257) : DumpAgrees frames := by
  have hcontents : (frames.map DataFrame.loaded).map DataFrame.contents =
      frames.map DataFrame.contents := by
    rw [List.map_map]
    apply List.map_congr_left
    intro f hf
    have hsame : htobe16 257 = 257 := by decide
    rw [Function.comp_apply, DataFrame.loaded_contents, DataFrame.contents, hall f hf, hsame]
  have hdata := dataFramesToData_contents hcontents (UInt16.ofNat frames.length).toNat
  cases frames with
  | nil => exact absurd rfl hne
  | cons f frames =>
      refine ⟨_, _, getDataFramesBinary_dumpFile hcount, ?_, hdata, ?_⟩
      · exact dataFrameToDataLen_contents hcontents _
      · intro o malloc bitStream
        rw [processDataFrames, processDataFrames, hdata]

/-- The dumps of all pictures with some lengths are encoded as the pictures exactly when there is
a frame, and every length reads the same in both byte orders. -/
theorem dump_agrees_iff {frames : List DataFrame} (hcount : frames.length < 65536)
    (hlens : ∀ f ∈ frames, f.dataLen.toNat ∈ Set.Icc 1 512) :
    (∀ frames' : List DataFrame,
        frames'.map DataFrame.dataLen = frames.map DataFrame.dataLen → DumpAgrees frames') ↔
      frames ≠ [] ∧ ∀ f ∈ frames, f.dataLen = 257 := by
  constructor
  · intro h
    constructor
    · rintro rfl
      obtain ⟨nFile, loaded, hget, -⟩ := h [] rfl
      have hget := hget fun _ => 0
      contradiction
    · intro f hf
      obtain ⟨as, bs, rfl⟩ := List.append_of_mem hf
      exact DumpAgrees.len hcount hlens (h _ (marked_lens as f bs))
  · intro ⟨hne, hall⟩ frames' heq
    have hlength : frames'.length = frames.length := by simpa using congrArg List.length heq
    refine dumpAgrees_of_len (hlength ▸ hcount) ?_ ?_
    · rw [← List.length_pos_iff, hlength]
      exact List.length_pos_of_ne_nil hne
    · intro f' hf'
      have hmem := List.mem_map_of_mem (f := DataFrame.dataLen) hf'
      rw [heq] at hmem
      obtain ⟨f, hf, hlen⟩ := List.mem_map.mp hmem
      rw [← hlen, hall f hf]

/-- A frame of 257 bytes. -/
def evenFrame : DataFrame := { fullFrame 0 7 with dataLen := 257 }

theorem evenFrame_len (f : DataFrame) (hf : f ∈ [evenFrame]) : f.dataLen = 257 := by
  obtain rfl := List.mem_singleton.mp hf
  rfl

theorem dump_agrees_even : DumpAgrees [evenFrame] := by
  have hcount : [evenFrame].length < 65536 := by decide
  have hlens : ∀ f ∈ [evenFrame], f.dataLen.toNat ∈ Set.Icc 1 512 := by
    intro f hf
    rw [evenFrame_len f hf]
    exact ⟨by decide, by decide⟩
  exact (dump_agrees_iff hcount hlens).mpr ⟨List.cons_ne_nil _ _, evenFrame_len⟩ _ rfl

/-- A full frame is loaded as one of two bytes. -/
theorem dump_shortened : ¬ DumpAgrees [fullFrame 0 0] := by
  intro h
  have hcount : ([] ++ fullFrame 0 0 :: []).length < 65536 := by decide
  have hlens : ∀ f ∈ [] ++ fullFrame 0 0 :: [], f.dataLen.toNat ∈ Set.Icc 1 512 := by
    intro f hf
    obtain rfl := List.mem_singleton.mp hf
    exact ⟨by decide, by decide⟩
  exact absurd (DumpAgrees.len hcount hlens h) (by decide)

end Soc
