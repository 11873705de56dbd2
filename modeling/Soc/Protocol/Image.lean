import Soc.Protocol.Answer
import Soc.Protocol.Dump
import Soc.Protocol.FilePacking
import Soc.Protocol.Retransmission
import Soc.Protocol.Unpacking

/-!
The image of a file, and what slots hold of it.

The frames of a file carry its image: the bytes of the file, but for what the closing `memset`
of `fd_to_data_frames` clears in frame 0. Slots that receive frames of one image, over any number
of calls in which every window brings its own frame or fails the test, hold nothing else; once
none is empty, they carry the image. So it is with the frames of an answer and what is saved.
-/
namespace Soc
open Windows

/-- What the frames of a file carry: behind the length of the last piece, frame 0 is cleared. -/
def fileImage (content : List UInt8) : List UInt8 :=
  let size := content.length - frameDataLenMax * (countFrames content.length - 1)
  content.take size ++ List.replicate (min frameDataLenMax content.length - size) 0 ++
    content.drop frameDataLenMax

section Image
variable {content : List UInt8} (lo : 1 ≤ content.length)
include lo

theorem pieces_pos : ∀ piece ∈ pieces content, 0 < piece.length := by
  obtain ⟨hn, hlo, -⟩ := countFrames_pos lo
  intro piece hpiece
  obtain ⟨i, hi, rfl⟩ := List.mem_iff_getElem.mp hpiece
  have hlt : i < countFrames content.length := by simpa using hi
  have hget := windows_getElem? frameDataLenMax (countFrames content.length) content i hlt
  obtain ⟨_, heq⟩ := List.getElem?_eq_some_iff.mp hget
  have hmul : i * frameDataLenMax ≤ (countFrames content.length - 1) * frameDataLenMax :=
    Nat.mul_le_mul_right _ (by omega)
  have hmax := frameDataLenMax_eq
  simp only [pieces, heq, List.length_take, List.length_drop]
  omega

/-- The last piece takes what the full ones leave. -/
theorem last_piece : ((pieces content).map List.length).getLastD 0 =
    content.length - frameDataLenMax * (countFrames content.length - 1) := by
  obtain ⟨hn, hlo, hhi⟩ := countFrames_pos lo
  have hget := windows_getElem? frameDataLenMax (countFrames content.length) content
    (countFrames content.length - 1) (by omega)
  have hmul : (countFrames content.length - 1) * frameDataLenMax + frameDataLenMax =
      countFrames content.length * frameDataLenMax := by
    rw [← Nat.succ_mul]
    congr 1
    omega
  rw [List.getLastD_eq_getLast?, List.getLast?_map, List.getLast?_eq_getElem?, pieces_length,
    pieces, hget, Option.map_some, Option.getD_some, List.length_take, List.length_drop,
    Nat.mul_comm frameDataLenMax]
  omega

end Image

theorem readInto_carried (f : DataFrame) {piece : List UInt8}
    (h : piece.length ≤ frameDataLenMax) : (f.readInto piece).carried = piece := by
  have hmax := frameDataLenMax_eq
  have hlen : (UInt16.ofNat piece.length).toNat = piece.length := by
    rw [UInt16.toNat_ofNat']
    exact Nat.mod_eq_of_lt (by omega)
  have hdata : (overwrite f.data 0 piece).toList.take piece.length = piece := by
    rw [overwrite_toList _ (by omega), List.take_zero, List.nil_append, List.take_left]
  rw [DataFrame.carried, DataFrame.readInto, hlen, hdata]

/-- The `memset` on a frame that was read. -/
theorem clearedFrom_carried (f : DataFrame) {piece : List UInt8} {size : Nat}
    (h : piece.length ≤ frameDataLenMax) (hsize : size ≤ piece.length) :
    (clearedFrom (f.readInto piece) size).carried =
      piece.take size ++ List.replicate (piece.length - size) 0 := by
  have hmax := frameDataLenMax_eq
  have hlen : (UInt16.ofNat piece.length).toNat = piece.length := by
    rw [UInt16.toNat_ofNat']
    exact Nat.mod_eq_of_lt (by omega)
  have hread : (overwrite f.data 0 piece).toList =
      piece ++ f.data.toList.drop piece.length := by
    rw [overwrite_toList _ (by omega), List.take_zero, List.nil_append, Nat.zero_add]
  have hclear : (overwrite (overwrite f.data 0 piece) size
      (List.replicate (frameDataLenMax - size) 0)).toList =
      piece.take size ++ List.replicate (frameDataLenMax - size) 0 := by
    have hend : size + (List.replicate (frameDataLenMax - size) (0 : UInt8)).length =
        frameDataLenMax := by
      rw [List.length_replicate]
      omega
    rw [overwrite_toList _ (Nat.le_of_eq hend), hend, hread, List.take_append_of_le_length hsize,
      List.drop_of_length_le (by simp; omega), List.append_nil]
  change List.take (UInt16.ofNat piece.length).toNat (overwrite (overwrite f.data 0 piece) size
    (List.replicate (frameDataLenMax - size) 0)).toList = _
  have htake : (piece.take size).length = size := by rw [List.length_take, Nat.min_eq_left hsize]
  rw [hlen, hclear, List.take_append, htake, List.take_take, Nat.min_eq_right hsize,
    List.take_replicate, Nat.min_eq_left (by omega)]

theorem zipWith_readInto_carried (fs : List DataFrame) (ps : List (List UInt8))
    (hlen : fs.length = ps.length) (h : ∀ piece ∈ ps, piece.length ≤ frameDataLenMax) :
    (List.zipWith DataFrame.readInto fs ps).flatMap DataFrame.carried = ps.flatten := by
  induction ps generalizing fs with
  | nil => simp
  | cons piece ps ih =>
      cases fs with
      | nil => simp at hlen
      | cons f fs =>
          rw [List.zipWith_cons_cons, List.flatMap_cons, List.flatten_cons,
            readInto_carried f (h piece List.mem_cons_self),
            ih fs (by simpa using hlen) (fun x hx => h x (List.mem_cons_of_mem _ hx))]

theorem mem_readInto {fs : List DataFrame} {ps : List (List UInt8)} {g : DataFrame}
    (h : g ∈ List.zipWith DataFrame.readInto fs ps) :
    ∃ f piece, f ∈ fs ∧ piece ∈ ps ∧ g = f.readInto piece := by
  obtain ⟨i, hi, rfl⟩ := List.mem_iff_getElem.mp h
  rw [List.getElem_zipWith]
  exact ⟨_, _, List.getElem_mem _, List.getElem_mem _, rfl⟩

/-- Frames that can be sent, with what they carry. -/
structure Imaged (nFrame : UInt16) (image : List UInt8) (sent : List DataFrame) : Prop where
  sendable : Sendable nFrame sent
  dataLen : ∀ f ∈ sent, f.dataLen.toNat ≤ frameDataLenMax
  carried : sent.flatMap DataFrame.carried = image

theorem Imaged.of_contents {nFrame : UInt16} {image : List UInt8} {sent frames : List DataFrame}
    (h : Imaged nFrame image sent) (hheader : ∀ f ∈ frames, f.header = tpHeader)
    (hsame : frames.map DataFrame.contents = sent.map DataFrame.contents) :
    Imaged nFrame image frames := by
  have hlen : ∀ f ∈ frames, ∃ g ∈ sent, f.dataLen = g.dataLen := by
    intro f hf
    have hmem := List.mem_map_of_mem (f := DataFrame.contents) hf
    rw [hsame] at hmem
    obtain ⟨g, hg, heq⟩ := List.mem_map.mp hmem
    exact ⟨g, hg, (congrArg Prod.fst heq).symm⟩
  have hcarried : frames.map DataFrame.carried = sent.map DataFrame.carried := by
    have hmap := congrArg (List.map fun p : UInt16 × List.Vector UInt8 frameDataLenMax =>
      p.2.toList.take p.1.toNat) hsame
    rwa [List.map_map, List.map_map] at hmap
  refine ⟨⟨?_, hheader, ?_⟩, ?_, ?_⟩
  · rw [← h.sendable.length]
    simpa using congrArg List.length hsame
  · intro f hf
    obtain ⟨g, hg, heq⟩ := hlen f hf
    rw [DataFrame.Empty, heq]
    exact h.sendable.nonempty g hg
  · intro f hf
    obtain ⟨g, hg, heq⟩ := hlen f hf
    rw [heq]
    exact h.dataLen g hg
  · rw [← h.carried, List.flatMap_def, List.flatMap_def, hcarried]

theorem piece_nonempty {f : DataFrame} {piece : List UInt8} (hpos : 0 < piece.length)
    (hle : piece.length ≤ frameDataLenMax) (hlen : f.dataLen = UInt16.ofNat piece.length) :
    ¬ f.Empty ∧ f.dataLen.toNat ≤ frameDataLenMax := by
  have hmax := frameDataLenMax_eq
  have htoNat : (UInt16.ofNat piece.length).toNat = piece.length := by
    rw [UInt16.toNat_ofNat']
    exact Nat.mod_eq_of_lt (by omega)
  rw [DataFrame.Empty, ← UInt16.toNat_inj, hlen, htoNat]
  exact ⟨Nat.ne_of_gt hpos, hle⟩

section Master
variable {content : List UInt8} (lo : 1 ≤ content.length)
  (hi : content.length ≤ 65535 * frameDataLenMax)
include lo hi

/-- The frames `get_data_frames` makes of a file. -/
theorem getDataFrames_imaged {block : List DataFrame}
    (hblock : block.length = countFrames content.length) (nFile : UInt32) :
    ∃ frames, getDataFrames (some block) content nFile =
        .ok (UInt16.ofNat (countFrames content.length), some frames) ∧
      Imaged (UInt16.ofNat (countFrames content.length)) (fileImage content) frames ∧
      ∀ f ∈ frames, f.nFile = nFile := by
  have hcount := count_toNat lo hi
  have hfirst := countFrames_pos lo
  generalize hinit : initDataFrames block (UInt16.ofNat (countFrames content.length)) nFile
    flag1Yuv420 (UInt32.ofNat content.length) = dataFrames
  have hlen : dataFrames.length = countFrames content.length := by
    rw [← hinit, initDataFrames, List.length_mapIdx, hblock]
  have hheader : ∀ f ∈ dataFrames, f.header = tpHeader ∧ f.nFile = nFile := by
    intro f hf
    rw [← hinit] at hf
    obtain ⟨i, hi, rfl⟩ := List.mem_mapIdx.mp hf
    exact ⟨rfl, rfl⟩
  cases dataFrames with
  | nil => simp at hlen; omega
  | cons f fs =>
      rw [List.length_cons] at hlen
      obtain ⟨size, hfd, hsize⟩ := fdToDataFrames_cons content f fs
      have hpieces : pieces content = content.take frameDataLenMax ::
          windows frameDataLenMax fs.length (content.drop frameDataLenMax) := by
        rw [pieces, ← hlen, windows]
      have hpos := pieces_pos lo
      have hle := pieces_le content
      rw [hpieces] at hpos hle
      rw [hlen, ← pieces, last_piece lo] at hsize
      have hmax := frameDataLenMax_eq
      have hshort : size ≤ (content.take frameDataLenMax).length := by
        rw [List.length_take, hsize]
        obtain ⟨hn, hlo, hhi⟩ := hfirst
        rw [Nat.mul_comm]
        rw [hmax] at hhi ⊢
        omega
      have hread : ∀ g ∈ clearedFrom (f.readInto (content.take frameDataLenMax)) size ::
          List.zipWith DataFrame.readInto fs
            (windows frameDataLenMax fs.length (content.drop frameDataLenMax)),
          g.header = tpHeader ∧ g.nFile = nFile := by
        intro g hg
        rcases List.mem_cons.mp hg with rfl | hg
        · exact hheader f List.mem_cons_self
        · obtain ⟨f', piece, hf', -, rfl⟩ := mem_readInto hg
          exact hheader f' (List.mem_cons_of_mem _ hf')
      have hfields : ∀ g ∈ clearedFrom (f.readInto (content.take frameDataLenMax)) size ::
          List.zipWith DataFrame.readInto fs
            (windows frameDataLenMax fs.length (content.drop frameDataLenMax)),
          ¬ g.Empty ∧ g.dataLen.toNat ≤ frameDataLenMax := by
        intro g hg
        rcases List.mem_cons.mp hg with rfl | hg
        · exact piece_nonempty (hpos _ List.mem_cons_self) (hle _ List.mem_cons_self) rfl
        · obtain ⟨f', piece, -, hpiece, rfl⟩ := mem_readInto hg
          have hmem := List.mem_cons_of_mem (content.take frameDataLenMax) hpiece
          exact piece_nonempty (hpos _ hmem) (hle _ hmem) rfl
      rw [← hinit] at hfd
      refine ⟨_, getDataFrames_eq lo hi hblock nFile hfd, ⟨⟨?_, fun g hg => (hread g hg).1, ?_⟩,
        ?_, ?_⟩, fun g hg => (hread g hg).2⟩
      · rw [hcount, List.length_cons, List.length_zipWith, windows_length, Nat.min_self, hlen]
      · intro g hg
        exact (hfields g hg).1
      · intro g hg
        exact (hfields g hg).2
      · have hrest : (windows frameDataLenMax fs.length (content.drop frameDataLenMax)).flatten =
            content.drop frameDataLenMax := by
          apply flatten_windows
          have hhi := hfirst.2.2
          rw [List.length_drop]
          rw [hmax] at hhi ⊢
          omega
        have htake : (content.take frameDataLenMax).take size = content.take size := by
          rw [List.take_take, Nat.min_eq_left]
          rw [List.length_take] at hshort
          omega
        rw [List.flatMap_cons, clearedFrom_carried f (hle _ List.mem_cons_self) hshort,
          zipWith_readInto_carried fs _ (by rw [windows_length])
            (fun x hx => hle x (List.mem_cons_of_mem _ hx)), hrest, htake, List.length_take,
          hsize, fileImage]

end Master

theorem fileImage_length {content : List UInt8} (lo : 1 ≤ content.length) :
    (fileImage content).length = content.length := by
  obtain ⟨hn, hlo, hhi⟩ := countFrames_pos lo
  have hmax := frameDataLenMax_eq
  rw [Nat.mul_comm] at hlo
  simp only [fileImage, List.length_append, List.length_take, List.length_replicate,
    List.length_drop]
  rw [hmax] at hlo hhi ⊢
  omega

/-- Nothing is cleared in one frame, nor behind a full last piece. -/
theorem fileImage_eq {content : List UInt8} (lo : 1 ≤ content.length)
    (h : content.length ≤ frameDataLenMax ∨ frameDataLenMax ∣ content.length) :
    fileImage content = content := by
  obtain ⟨hn, hlo, hhi⟩ := countFrames_pos lo
  have hmax := frameDataLenMax_eq
  rcases h with hone | ⟨m, hm⟩
  · have hcount : countFrames content.length = 1 := by
      rw [countFrames, if_neg (by omega), Nat.div_eq_of_lt (by omega)]
    rw [fileImage, hcount, Nat.sub_self, Nat.mul_zero, Nat.sub_zero, List.take_length,
      Nat.sub_eq_zero_of_le (Nat.min_le_right _ _), List.drop_of_length_le hone]
    simp
  · have hsize : content.length - frameDataLenMax * (countFrames content.length - 1) =
        frameDataLenMax := by
      rw [hmax] at hm hlo hhi ⊢
      omega
    rw [fileImage, hsize, Nat.sub_eq_zero_of_le (Nat.min_le_left _ _), List.replicate_zero,
      List.append_nil, List.take_append_drop]

/-! What slots hold between two receptions. -/

/-- Every slot is empty or holds its own frame, as it was sent once. -/
def Holds (nFrame : UInt16) (sent slots : List DataFrame) : Prop :=
  ∃ calls : List Call, (∀ c ∈ calls, c.Of sent nFrame) ∧ Collected nFrame calls slots

/-- Every window is the frame of its place as it was written, or fails the test. -/
structure Arrives (nFrame : UInt16) (wires reads : List (List UInt8)) : Prop where
  fits : reads.flatten.length ≤ dataFrameSize * nFrame.toNat
  windows : ∀ (i : Nat) (wire w : List UInt8), wires[i]? = some wire →
    (receivedWindows nFrame reads)[i]? = some w → w = wire ∨ accepts w = false

/-! What a master puts on the line. -/

/-- The frames on the line when no send times out. -/
def sentWires (count : BitVec 24) (frames : List DataFrame) : List (List UInt8) :=
  (sendDataFrames (fun _ => true) 0 count frames).2.2

/-- `send_data_frame_directly` for each of some frames. -/
def directWires (frames : List DataFrame) : List (List UInt8) := frames.map DataFrame.layout.store

/-- A master sends the frames, or one with `--binary` those of their dump. -/
inductive Offered (nFrame : UInt16) (sent : List DataFrame) : List (List UInt8) → Prop where
  | counted (count : BitVec 24) : Offered nFrame sent (sentWires count sent)
  | replayed {heap : Nat → UInt8} {nFile : UInt32} {n : UInt16} {loaded : List DataFrame}
      (h : getDataFramesBinary (some heap) (dumpFile sent nFrame) = .ok (nFile, n, loaded)) :
      Offered nFrame sent (directWires loaded)

theorem sentWires_written (count : BitVec 24) (frames : List DataFrame) :
    ∃ frames' : List DataFrame, sentWires count frames = frames'.map writeDataFrame ∧
      frames'.map DataFrame.uncounted = frames.map DataFrame.uncounted := by
  refine ⟨frames.mapIdx fun j f => f.counted (count + BitVec.ofNat 24 j), ?_, ?_⟩
  · rw [map_mapIdx]
    exact sendDataFrames_ready 0 count frames
  · exact mapIdx_map_of_const
      (f := fun j (f : DataFrame) => f.counted (count + BitVec.ofNat 24 j))
      (g := DataFrame.uncounted) (h := DataFrame.uncounted) (fun _ _ => rfl) frames

/-- What was loaded goes out as it was dumped. -/
theorem directWires_loaded (frames : List DataFrame) :
    directWires (frames.map DataFrame.loaded) = frames.map writeDataFrame := by
  rw [directWires, List.map_map]
  exact List.map_congr_left fun f _ => (writeDataFrame_eq f).symm

/-- The dump of a file keeps the number of the file and of its frames. -/
theorem getDataFramesBinary_sendable {nFrame : UInt16} {sent : List DataFrame}
    (hsent : Sendable nFrame sent) (hpos : 0 < nFrame.toNat) {nFile : UInt32}
    (hfile : ∀ f ∈ sent, f.nFile = nFile) (heap : Nat → UInt8) :
    getDataFramesBinary (some heap) (dumpFile sent nFrame) =
      .ok (nFile, nFrame, sent.map DataFrame.loaded) := by
  have hlength := hsent.length
  have hlt : sent.length < 65536 := hlength ▸ nFrame.toNat_lt
  have hcount : UInt16.ofNat sent.length = nFrame := by rw [hlength, UInt16.ofNat_toNat]
  have hload := getDataFramesBinary_dumpFile hlt heap
  rw [hcount] at hload
  cases sent with
  | nil =>
      rw [List.length_nil] at hlength
      omega
  | cons f rest =>
      have hnumber : htobe32 f.loaded.nFile = nFile := by
        rw [← hfile f List.mem_cons_self]
        exact htobe32_htobe32 f.nFile
      rw [hload, ← hnumber]
      rfl

theorem Offered.written {nFrame : UInt16} {sent : List DataFrame} {wires : List (List UInt8)}
    (h : Offered nFrame sent wires) (hsent : Sendable nFrame sent) :
    ∃ frames : List DataFrame, wires = frames.map writeDataFrame ∧
      frames.map DataFrame.uncounted = sent.map DataFrame.uncounted := by
  cases h with
  | counted count => exact sentWires_written count sent
  | @replayed heap nFile n loaded h =>
      have hlength := hsent.length
      have hlt : sent.length < 65536 := hlength ▸ nFrame.toNat_lt
      have hcount : UInt16.ofNat sent.length = nFrame := by rw [hlength, UInt16.ofNat_toNat]
      have hload := getDataFramesBinary_dumpFile hlt heap
      rw [hcount, h] at hload
      split at hload
      · contradiction
      · cases hload
        exact ⟨sent, directWires_loaded sent, rfl⟩

section Holds
variable {nFrame : UInt16} {image : List UInt8} {sent slots : List DataFrame}

theorem holds_zero (hlen : slots.length = nFrame.toNat) (hempty : ∀ s ∈ slots, s.Empty) :
    Holds nFrame sent slots :=
  ⟨[], by simp, hlen, fun _ s hs hfull => absurd (hempty s (List.mem_of_getElem? hs)) hfull⟩

theorem Arrives.call {frames : List DataFrame} {reads : List (List UInt8)}
    (h : Arrives nFrame (frames.map writeDataFrame) reads)
    (hsame : frames.map DataFrame.uncounted = sent.map DataFrame.uncounted) :
    Call.Of sent nFrame ⟨frames, reads⟩ := by
  refine ⟨hsame, h.fits, fun i f w hf hw => h.windows i _ w ?_ hw⟩
  rw [List.getElem?_map, hf, Option.map_some]

theorem Holds.receive (hsent : Sendable nFrame sent) (h : Holds nFrame sent slots) {call : Call}
    (hcall : call.Of sent nFrame) :
    ∃ sum after, receiveDataFrames true call.reads slots nFrame = .ok (sum, after) ∧
      Holds nFrame sent after ∧ (sum = 0 → ∀ s ∈ after, ¬ s.Empty) := by
  obtain ⟨calls, hcalls, hcollected⟩ := h
  obtain ⟨sum, after, hrun, -, hsum, hafter⟩ := receive_collected hsent hcall hcollected
  refine ⟨sum, after, hrun, ⟨calls ++ [call], ?_, hafter⟩, ?_⟩
  · intro c hc
    rcases List.mem_append.mp hc with hc | hc
    · exact hcalls c hc
    · exact List.mem_singleton.mp hc ▸ hcall
  · rintro rfl s hs
    simpa using List.countP_eq_zero.mp hsum.symm s hs

/-- Slots without an empty one hold what the sent frames carry. -/
theorem Holds.imaged (hsent : Imaged nFrame image sent) (h : Holds nFrame sent slots)
    (hfull : ∀ s ∈ slots, ¬ s.Empty) : Imaged nFrame image slots := by
  obtain ⟨calls, hcalls, hlen, hslots⟩ := h
  have hheld : ∀ (i : Nat) (s : DataFrame), slots[i]? = some s →
      ∃ g, sent[i]? = some g ∧ s.header = g.header ∧ s.contents = g.contents := by
    intro i s hs
    obtain ⟨c, hc, f, hf, rfl⟩ := hslots i s hs (hfull s (List.mem_of_getElem? hs))
    obtain ⟨g, hg, heq⟩ := (hcalls c hc).frame hf
    have hheader : f.uncounted.header = g.uncounted.header := congrArg _ heq
    have hcontents : f.uncounted.contents = g.uncounted.contents := congrArg _ heq
    exact ⟨g, hg, hheader, hcontents⟩
  refine hsent.of_contents ?_ ?_
  · intro s hs
    obtain ⟨i, hi⟩ := List.mem_iff_getElem?.mp hs
    obtain ⟨g, hg, heq, -⟩ := hheld i s hi
    exact heq.trans (hsent.sendable.header g (List.mem_of_getElem? hg))
  · apply List.ext_getElem?
    intro i
    rw [List.getElem?_map, List.getElem?_map]
    by_cases hi : i < nFrame.toNat
    · have hs : slots[i]? = some slots[i] := List.getElem?_eq_getElem (hlen ▸ hi)
      obtain ⟨g, hg, -, heq⟩ := hheld i _ hs
      rw [hs, hg, Option.map_some, Option.map_some, heq]
    · rw [List.getElem?_eq_none (by omega),
        List.getElem?_eq_none (by rw [hsent.sendable.length]; omega)]

/-- All frames in one read. -/
theorem written_windows {frames : List DataFrame} (hlen : frames.length = nFrame.toNat) :
    receivedWindows nFrame [(frames.map writeDataFrame).flatten] = frames.map writeDataFrame := by
  have hsize : ∀ wire ∈ frames.map writeDataFrame, wire.length = dataFrameSize := by
    intro wire hwire
    obtain ⟨f, -, rfl⟩ := List.mem_map.mp hwire
    exact writeDataFrame_length f
  have hcount : (frames.map writeDataFrame).length = nFrame.toNat := by rw [List.length_map, hlen]
  have hwindows := receivedWindows_blocks nFrame (frames.map writeDataFrame) (by simp [Steady])
    List.flatten_singleton hsize (Nat.le_of_eq hcount)
  rwa [hcount, Nat.sub_self, List.replicate_zero, List.append_nil] at hwindows

theorem arrives_written {frames : List DataFrame} (hlen : frames.length = nFrame.toNat) :
    Arrives nFrame (frames.map writeDataFrame) [(frames.map writeDataFrame).flatten] := by
  refine ⟨?_, ?_⟩
  · rw [List.flatten_singleton, ← List.flatMap_def, dumpFile_length, hlen, Nat.mul_comm]
  · intro i wire w hwire hw
    rw [written_windows hlen, hwire] at hw
    exact .inl (Option.some.inj hw).symm

/-- Frames that all arrive fill what was empty. -/
theorem Holds.complete {slots frames : List DataFrame} (hsent : Imaged nFrame image sent)
    (h : Holds nFrame sent slots)
    (hsame : frames.map DataFrame.uncounted = sent.map DataFrame.uncounted) :
    ∃ after, receiveDataFrames true [(frames.map writeDataFrame).flatten] slots nFrame =
        .ok (0, after) ∧ Holds nFrame sent after ∧ Imaged nFrame image after := by
  have hlen : frames.length = nFrame.toNat := by
    rw [← hsent.sendable.length]
    simpa using congrArg List.length hsame
  obtain ⟨sum, after, hrun, hafter, hfull⟩ :=
    h.receive hsent.sendable ((arrives_written hlen).call hsame)
  have hzero : countMissed slots nFrame [(frames.map writeDataFrame).flatten] = 0 := by
    rw [countMissed_zero]
    intro i s w _ hw _
    rw [written_windows hlen] at hw
    obtain ⟨f, hf, rfl⟩ := List.mem_map.mp (List.mem_of_getElem? hw)
    obtain ⟨g, hg, heq⟩ : ∃ g ∈ sent, f.uncounted = g.uncounted := by
      have hmem := List.mem_map_of_mem (f := DataFrame.uncounted) hf
      rw [hsame] at hmem
      obtain ⟨g, hg, heq⟩ := List.mem_map.mp hmem
      exact ⟨g, hg, heq.symm⟩
    exact (accepts_writeDataFrame f).mpr
      ((uncounted_fields heq).1.trans (hsent.sendable.header g hg))
  have hslots : slots.length = nFrame.toNat := by
    obtain ⟨_, -, hlen, -⟩ := h
    exact hlen
  have hrun' := hrun
  rw [receiveDataFrames_ok (Nat.le_of_eq hslots.symm), hzero] at hrun'
  obtain ⟨rfl, -⟩ := Prod.mk.inj (Except.ok.inj hrun')
  exact ⟨after, hrun, hafter, hafter.imaged hsent (hfull rfl)⟩

end Holds

theorem zipWith_take {α β γ : Type} (f : α → β → γ) {xs : List α} {ys : List β} {n : Nat}
    (h : (xs.take n).length = ys.length) :
    List.zipWith f (xs.take n) ys = List.zipWith f xs ys := by
  have hsplit : List.zipWith f (xs.take n ++ xs.drop n) (ys ++ []) = _ := List.zipWith_append h
  rw [List.take_append_drop, List.append_nil, List.zipWith_nil_right, List.append_nil] at hsplit
  exact hsplit.symm

/-- Slots behind the frames of a reception are left alone. -/
theorem receiveDataFrames_take {ready : Bool} {reads : List (List UInt8)}
    {slots after : List DataFrame} {nFrame sum : UInt16} (hle : nFrame.toNat ≤ slots.length)
    (hrun : receiveDataFrames ready reads slots nFrame = .ok (sum, after)) :
    after.length = slots.length ∧ receiveDataFrames ready reads (slots.take nFrame.toNat) nFrame =
      .ok (sum, after.take nFrame.toNat) := by
  cases ready with
  | false =>
      obtain ⟨rfl, rfl⟩ := Prod.mk.inj (Except.ok.inj hrun)
      exact ⟨rfl, rfl⟩
  | true =>
      have hlength := (receiveDataFrames_slots hrun).2.1
      have hfirst : (slots.take nFrame.toNat).length = nFrame.toNat := by
        rw [List.length_take, Nat.min_eq_left hle]
      have hwindows := receivedWindows_length nFrame reads
      have hfill := zipWith_take fill (hfirst.trans hwindows.symm)
      have hmissed : countMissed (slots.take nFrame.toNat) nFrame reads =
          countMissed slots nFrame reads :=
        congrArg _ (zipWith_take Prod.mk (hfirst.trans hwindows.symm))
      have hfilled : (List.zipWith fill slots (receivedWindows nFrame reads)).length =
          nFrame.toNat := by
        rw [List.length_zipWith, hwindows, Nat.min_eq_right hle]
      rw [receiveDataFrames_ok hle] at hrun
      obtain ⟨rfl, rfl⟩ := Prod.mk.inj (Except.ok.inj hrun)
      refine ⟨hlength, ?_⟩
      rw [receiveDataFrames_ok hfirst.ge, hmissed, hfill, List.drop_of_length_le hfirst.le,
        List.append_nil, List.take_left' hfilled]

/-! What the master saves. -/

theorem dumpLoop_written {write : Nat → Int} {i n : Nat} {slots : List DataFrame}
    {size size' : Int} {written : List (List UInt8)}
    (h : dumpLoop write i slots n size = .ok (size', written)) :
    written = (slots.take n).map DataFrame.carried := by
  induction n generalizing i slots size size' written with
  | zero =>
      rw [dumpLoop] at h
      obtain ⟨-, rfl⟩ := Prod.mk.inj (Except.ok.inj h)
      rfl
  | succ n ih =>
      cases slots with
      | nil => contradiction
      | cons s ss =>
          obtain ⟨bytes, hbytes, h⟩ := bind_ok h
          obtain ⟨⟨size'', rest⟩, hrest, h⟩ := bind_ok h
          obtain ⟨-, rfl⟩ := Prod.mk.inj (Except.ok.inj h)
          rw [List.take_succ_cons, List.map_cons, payload_carried hbytes, ih hrest]

theorem dumpLoop_take (write : Nat → Int) (i n : Nat) (slots : List DataFrame) (size : Int) :
    dumpLoop write i (slots.take n) n size = dumpLoop write i slots n size := by
  induction n generalizing i slots size with
  | zero => rfl
  | succ n ih =>
      cases slots with
      | nil => rfl
      | cons s ss => simp only [List.take_succ_cons, dumpLoop, ih]

theorem dumpDataFrames_take (answers : DumpAnswers) (slots : List DataFrame) (nFrame : UInt16) :
    dumpDataFrames answers (slots.take nFrame.toNat) nFrame =
      dumpDataFrames answers slots nFrame := by
  simp only [dumpDataFrames, dumpLoop_take]

theorem dumpDataFrames_written {answers : DumpAnswers} {slots : List DataFrame} {nFrame : UInt16}
    {size : Int} {written : List (List UInt8)}
    (h : dumpDataFrames answers slots nFrame = .ok (size, written)) (hsize : size ≠ -1) :
    written = (slots.take nFrame.toNat).map DataFrame.carried := by
  unfold dumpDataFrames at h
  split at h
  · obtain ⟨rfl, -⟩ := Prod.mk.inj (Except.ok.inj h)
    contradiction
  · split at h
    · obtain ⟨rfl, -⟩ := Prod.mk.inj (Except.ok.inj h)
      contradiction
    · obtain ⟨⟨total, bytes⟩, hloop, h⟩ := bind_ok h
      obtain rfl := dumpLoop_written hloop
      dsimp only at h
      split at h
      · obtain ⟨-, rfl⟩ := Prod.mk.inj (Except.ok.inj h)
        rfl
      · obtain ⟨-, rfl⟩ := Prod.mk.inj (Except.ok.inj h)
        rfl

theorem dumpLoop_size {write : Nat → Int} (hwrite : ∀ i, 0 ≤ write i) {i n : Nat}
    {slots : List DataFrame} {size size' : Int} {written : List (List UInt8)}
    (h : dumpLoop write i slots n size = .ok (size', written)) : size ≤ size' := by
  induction n generalizing i slots size written with
  | zero =>
      rw [dumpLoop] at h
      obtain ⟨rfl, -⟩ := Prod.mk.inj (Except.ok.inj h)
      exact Int.le_refl _
  | succ n ih =>
      cases slots with
      | nil => contradiction
      | cons s ss =>
          obtain ⟨bytes, -, h⟩ := bind_ok h
          obtain ⟨⟨size'', rest⟩, hrest, h⟩ := bind_ok h
          obtain ⟨rfl, -⟩ := Prod.mk.inj (Except.ok.inj h)
          have hle := ih hrest
          have hpos := hwrite i
          omega

/-- The file system takes what it is handed. -/
def takenAnswers : DumpAnswers := ⟨0, 3, fun _ => frameDataLenMax, 0⟩

theorem dumpDataFrames_imaged {slots : List DataFrame} (h : Imaged nFrame image slots) :
    ∃ size written, dumpDataFrames takenAnswers slots nFrame = .ok (size, written) ∧
      size ≠ -1 ∧ written.flatten = image := by
  obtain ⟨⟨size, written⟩, hloop⟩ := dumpLoop_ok takenAnswers.write 0 0
    (Nat.le_of_eq h.sendable.length.symm) h.dataLen
  have hsize : (0 : Int) ≤ size := dumpLoop_size (fun _ => Int.natCast_nonneg 512) hloop
  have hdump : dumpDataFrames takenAnswers slots nFrame = .ok (size, written) := by
    have hmkdirP : takenAnswers.mkdirP ≠ -1 := by decide
    have hopened : takenAnswers.opened ≠ -1 := by decide
    have hclosed : takenAnswers.closed ≠ -1 := by decide
    rw [dumpDataFrames, if_neg hmkdirP, if_neg hopened, hloop, ok_bind]
    simp only [if_neg hclosed]
  refine ⟨size, written, hdump, by omega, ?_⟩
  rw [dumpDataFrames_written hdump (by omega),
    List.take_of_length_le (Nat.le_of_eq h.sendable.length), ← List.flatMap_def, h.carried]

/-! The frames of an answer. -/

/-- The answer for a bit stream, but for what the sending adds. -/
def answerFrames (b : List UInt8) (nFile : UInt32) : List DataFrame :=
  List.zipWith DataFrame.packed
    (initDataFrames (List.replicate (countFrames b.length) zeroFrame)
      (UInt16.ofNat (countFrames b.length)) nFile flagData (UInt32.ofNat b.length)) (pieces b)

section Answer
variable {b : List UInt8} (lo : 1 ≤ b.length) (hi : b.length ≤ 65535 * frameDataLenMax)

/-- What the heap held does not show in an answer. -/
theorem answer_uncounted {block : List DataFrame} (hblock : block.length = countFrames b.length)
    (nFile : UInt32) :
    (List.zipWith DataFrame.packed
        (initDataFrames block (UInt16.ofNat (countFrames b.length)) nFile flagData
          (UInt32.ofNat b.length)) (pieces b)).map DataFrame.uncounted =
      (answerFrames b nFile).map DataFrame.uncounted := by
  apply List.ext_getElem
  · simp [answerFrames, initDataFrames, hblock]
  · intro i hi₁ hi₂
    simp only [answerFrames, List.getElem_map, List.getElem_zipWith, initDataFrames,
      List.getElem_mapIdx]
    rfl

include lo hi

theorem answerFrames_imaged (nFile : UInt32) :
    Imaged (UInt16.ofNat (countFrames b.length)) b (answerFrames b nFile) := by
  have hcount := count_toNat lo hi
  have hlen : (initDataFrames (List.replicate (countFrames b.length) zeroFrame)
      (UInt16.ofNat (countFrames b.length)) nFile flagData (UInt32.ofNat b.length)).length =
      (pieces b).length := by
    rw [initDataFrames, List.length_mapIdx, List.length_replicate, pieces_length]
  have hfields : ∀ f ∈ answerFrames b nFile,
      f.header = tpHeader ∧ ¬ f.Empty ∧ f.dataLen.toNat ≤ frameDataLenMax := by
    intro f hf
    obtain ⟨i, hi, rfl⟩ := List.mem_iff_getElem.mp hf
    simp only [answerFrames, List.getElem_zipWith]
    refine ⟨?_, piece_nonempty (pieces_pos lo _ (List.getElem_mem _))
      (pieces_le b _ (List.getElem_mem _)) rfl⟩
    simp only [DataFrame.packed, initDataFrames, List.getElem_mapIdx]
  refine ⟨⟨?_, fun f hf => (hfields f hf).1, fun f hf => (hfields f hf).2.1⟩,
    fun f hf => (hfields f hf).2.2, ?_⟩
  · rw [answerFrames, List.length_zipWith, hlen, Nat.min_self, pieces_length, hcount]
  · have hdata := dataFramesToData_packed _ (pieces b) hlen (pieces_le b)
    rw [pieces_flatten lo] at hdata
    have hcarried := dataFramesToData_carried _ _ hdata
    rw [List.take_of_length_le (by rw [List.length_zipWith, hlen, Nat.min_self])] at hcarried
    exact hcarried.symm

/-- The turn of a RECV request for a bit stream, if there is memory for the answer. -/
theorem Slave.recv_answer {s : Slave} {k : Fin picturesNumberMax} {f : Frame} {line : Line}
    (hk : fileIndex f.nFile = some k) (hbytes : (s.pictures k).bitStream.bytes = b)
    {heap : Nat → DataFrame} (hheap : line.heap = some heap) :
    ∃ frames, frames.map DataFrame.uncounted = (answerFrames b f.nFile).map DataFrame.uncounted ∧
      s.recv f line = .ok
        ({ s with
            outputFrame := s.recvReply f (s.pictures k).bitStream
            nTotalFrame := (sendDataFrames line.sendReady 0 s.nTotalFrame frames).1 },
          { reply := replyIf line.replyReady (s.recvReply f (s.pictures k).bitStream)
            data := (sendDataFrames line.sendReady 0 s.nTotalFrame frames).2.2 }) := by
  have hcount := count_toNat lo hi
  have hlen : (s.pictures k).bitStream.len = b.length := by
    rw [← Data8.bytes_length, hbytes]
  have hblock : ((List.range (UInt16.ofNat (countFrames b.length)).toNat).map heap).length =
      (b.length + 511) / 512 := by
    rw [List.length_map, List.length_range, hcount, countFrames_eq]
  have haddr : (s.pictures k).bitStream.addr.getD [] =
      b ++ ((s.pictures k).bitStream.addr.getD []).drop b.length := by
    rw [← hlen, ← hbytes, Data8.bytes, List.take_append_drop]
  have halloc := answer_alloc lo hi hblock
    (((s.pictures k).bitStream.addr.getD []).drop b.length) f.nFile flagData
  rw [← haddr, ← countFrames_eq] at halloc
  refine ⟨_, answer_uncounted (by rw [hblock, countFrames_eq]) f.nFile, ?_⟩
  have hpos : ¬ b.length = 0 := by omega
  have hreply : (s.recvReply f (s.pictures k).bitStream).nFrame =
      UInt16.ofNat (countFrames b.length) := by rw [recvReply, hlen]
  have hfile : (s.recvReply f (s.pictures k).bitStream).nFile = f.nFile := rfl
  simp only [recv, hk, hlen, if_neg hpos, hheap, Option.map_some, hreply, hfile, halloc, ok_bind]

end Answer

end Soc
