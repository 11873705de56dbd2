import Soc.Protocol.Packing

/-!
Packing a file and packing the same bytes in memory.

Both loops cut the bytes into the same pieces. The memory loop clears the rest
of every frame it does not fill; the file loop means to, but clears the rest of
frame 0 whenever the short piece is in another frame. The two agree when there
is only one frame or no short piece.
-/
namespace Soc
open Windows

/-- Whatever memory `malloc` returns, the frames read from a file carry what the
frames packed from its bytes carry, and unpack to the file. -/
def PathsAgree (content : List UInt8) : Prop :=
  ∀ (block block' : List DataFrame) (nFile : UInt32),
    block.length = countFrames content.length → block'.length = countFrames content.length →
    ∃ n frames frames', getDataFrames (some block) content nFile = .ok (n, some frames) ∧
      allocDataFrames (some block') n nFile (.memory content content.length) flag1Yuv420
        (UInt32.ofNat content.length) = .ok (some frames') ∧
      n.toNat = countFrames content.length ∧ frames.length = n.toNat ∧
      frames.map DataFrame.contents = frames'.map DataFrame.contents ∧
      dataFramesToData frames n.toNat = .ok content

section Pieces
variable {content : List UInt8} (lo : 1 ≤ content.length)
  (hi : content.length ≤ 65535 * frameDataLenMax)
include lo

/-- Without a short piece every piece is full. -/
theorem pieces_full (h : frameDataLenMax ∣ content.length) :
    ∀ piece ∈ pieces content, piece.length = frameDataLenMax := by
  obtain ⟨hn, hlo, hhi⟩ := countFrames_pos lo
  obtain ⟨k, hk⟩ := h
  have hcount : countFrames content.length = k := by
    have hmax := frameDataLenMax_eq
    rw [hmax] at hlo hhi hk
    omega
  apply length_of_mem_windows
  rw [hcount, hk, Nat.mul_comm]

include hi

theorem count_toNat :
    (UInt16.ofNat (countFrames content.length)).toNat = countFrames content.length := by
  obtain ⟨hn, hlo, -⟩ := countFrames_pos lo
  have hmax := frameDataLenMax_eq
  rw [hmax] at hlo hi
  rw [UInt16.toNat_ofNat']
  exact Nat.mod_eq_of_lt (by omega)

theorem alloc_memory {block : List DataFrame} (hblock : block.length = countFrames content.length)
    (nFile : UInt32) :
    allocDataFrames (some block) (UInt16.ofNat (countFrames content.length)) nFile
        (.memory content content.length) flag1Yuv420 (UInt32.ofNat content.length) =
      .ok (some (List.zipWith DataFrame.packed
        (initDataFrames block (UInt16.ofNat (countFrames content.length)) nFile flag1Yuv420
          (UInt32.ofNat content.length)) (pieces content))) := by
  have htake : block.take (UInt16.ofNat (countFrames content.length)).toNat = block := by
    rw [count_toNat lo hi, ← hblock, List.take_length]
  have hpack := dataToDataFrames_ok content (initDataFrames block
    (UInt16.ofNat (countFrames content.length)) nFile flag1Yuv420 (UInt32.ofNat content.length))
    lo (Nat.le_refl _) (hi.trans (Nat.mul_le_mul_right _ (Nat.le_succ 65535)))
    (by rw [initDataFrames, List.length_mapIdx, hblock])
  rw [List.take_length] at hpack
  simp only [allocDataFrames, htake, hpack, ok_bind]
  rfl

theorem getDataFrames_eq {block : List DataFrame}
    (hblock : block.length = countFrames content.length) (nFile : UInt32) {frames : List DataFrame}
    (hfd : fdToDataFrames content (initDataFrames block (UInt16.ofNat (countFrames content.length))
      nFile flag1Yuv420 (UInt32.ofNat content.length)) = .ok frames) :
    getDataFrames (some block) content nFile =
      .ok (UInt16.ofNat (countFrames content.length), some frames) := by
  have htake : block.take (UInt16.ofNat (countFrames content.length)).toNat = block := by
    rw [count_toNat lo hi, ← hblock, List.take_length]
  simp only [getDataFrames, allocDataFrames, htake, hfd, ok_bind]

end Pieces

/-- The closing `memset` of the file path. -/
def clearedFrom (f : DataFrame) (size : Nat) : DataFrame :=
  { f with data := overwrite f.data size (List.replicate (frameDataLenMax - size) 0) }

theorem fdToDataFrames_cons (content : List UInt8) (f : DataFrame) (fs : List DataFrame) :
    ∃ size, fdToDataFrames content (f :: fs) =
      .ok (clearedFrom (f.readInto (content.take frameDataLenMax)) size ::
        List.zipWith DataFrame.readInto fs
          (windows frameDataLenMax fs.length (content.drop frameDataLenMax))) ∧
      size = ((windows frameDataLenMax (fs.length + 1) content).map List.length).getLastD 0 := by
  refine ⟨_, ?_, rfl⟩
  simp only [fdToDataFrames, readFrames_eq, List.length_cons, windows, List.zipWith_cons_cons]
  rfl

theorem zipWith_readInto_full (dataFrames : List DataFrame) (ps : List (List UInt8))
    (h : ∀ piece ∈ ps, piece.length = frameDataLenMax) :
    List.zipWith DataFrame.readInto dataFrames ps =
      List.zipWith DataFrame.packed dataFrames ps := by
  induction ps generalizing dataFrames with
  | nil => simp
  | cons piece ps ih =>
      cases dataFrames with
      | nil => rfl
      | cons f fs =>
          rw [List.zipWith_cons_cons, List.zipWith_cons_cons,
            ih fs (fun x hx => h x (List.mem_cons_of_mem _ hx)), DataFrame.readInto,
            overwrite_full (h piece List.mem_cons_self), DataFrame.packed]

theorem clearedFrom_full (f : DataFrame) : clearedFrom f frameDataLenMax = f := by
  have hdata : overwrite f.data frameDataLenMax [] = f.data := by
    apply Subtype.ext
    change (overwrite f.data frameDataLenMax []).toList = f.data.toList
    rw [overwrite_toList _ (by simp)]
    simp [List.take_of_length_le, List.drop_of_length_le]
  rw [clearedFrom, Nat.sub_self, List.replicate_zero, hdata]

theorem getLastD_full {ps : List (List UInt8)} (hne : ps ≠ [])
    (h : ∀ piece ∈ ps, piece.length = frameDataLenMax) :
    (ps.map List.length).getLastD 0 = frameDataLenMax := by
  rw [List.getLastD_eq_getLast?, List.getLast?_eq_getLast_of_ne_nil (by simpa using hne),
    Option.getD_some, List.getLast_map]
  exact h _ (List.getLast_mem _)

theorem zeroPadded_short {piece : List UInt8} (h : piece.length < frameDataLenMax) :
    (zeroPadded piece).toList.getLast? = some 0 := by
  obtain ⟨r, hr⟩ : ∃ r, frameDataLenMax - piece.length = r + 1 :=
    ⟨frameDataLenMax - piece.length - 1, by omega⟩
  rw [zeroPadded, Layout.bytes_load_toList (Nat.le_of_lt h), hr, List.replicate_succ',
    ← List.append_assoc, List.getLast?_append, List.getLast?_singleton]
  rfl

section Agreement
variable {content : List UInt8} (lo : 1 ≤ content.length)
include lo

theorem fd_eq_memory
    (hcond : content.length ≤ frameDataLenMax ∨ frameDataLenMax ∣ content.length)
    (dataFrames : List DataFrame) (hlen : dataFrames.length = countFrames content.length) :
    fdToDataFrames content dataFrames =
      .ok (List.zipWith DataFrame.packed dataFrames (pieces content)) := by
  obtain ⟨hn, -, -⟩ := countFrames_pos lo
  cases dataFrames with
  | nil => simp at hlen; omega
  | cons f fs =>
      obtain ⟨size, hrun, hsize⟩ := fdToDataFrames_cons content f fs
      rw [List.length_cons] at hlen
      have hpieces : windows frameDataLenMax (fs.length + 1) content = pieces content := by
        rw [hlen, pieces]
      rw [hpieces] at hsize
      rw [← hpieces, hrun]
      rcases hcond with hone | hdvd
      · -- one piece: the inner and the outer `i` are the same
        have hcount : countFrames content.length = 1 := by
          have hmax := frameDataLenMax_eq
          rw [countFrames, if_neg (by omega), Nat.div_eq_of_lt (by omega)]
        obtain rfl : fs = [] := List.length_eq_zero_iff.mp (by omega)
        have htake : content.take frameDataLenMax = content := List.take_of_length_le hone
        rw [pieces, hcount] at hsize
        simp only [windows, htake, List.map_cons, List.map_nil, List.getLastD_cons,
          List.getLastD_nil] at hsize
        simp only [List.length_nil, windows, htake, List.zipWith_cons_cons, List.zipWith_nil_left,
          clearedFrom, DataFrame.readInto, DataFrame.packed, hsize, overwrite_padded _ hone]
      · have hfull := pieces_full lo hdvd
        have hne : pieces content ≠ [] := by
          intro h
          have := congrArg List.length h
          simp only [pieces, windows_length, List.length_nil] at this
          omega
        rw [getLastD_full hne hfull] at hsize
        have hhead : (content.take frameDataLenMax).length = frameDataLenMax := by
          rw [List.length_take]
          have := Nat.le_of_dvd lo hdvd
          omega
        rw [hsize, clearedFrom_full, windows, List.zipWith_cons_cons, DataFrame.readInto,
          overwrite_full hhead, zipWith_readInto_full fs _ (fun piece hp => ?_), DataFrame.packed]
        apply hfull
        rw [← hpieces, windows]
        exact List.mem_cons_of_mem _ hp

/-- A short piece in a later frame keeps what `malloc` left behind it. -/
theorem short_piece_kept (hlong : frameDataLenMax < content.length)
    (hdvd : ¬ frameDataLenMax ∣ content.length) (dirt : UInt8) (dataFrames : List DataFrame)
    (hlen : dataFrames.length = countFrames content.length)
    (hdirt : ∀ f ∈ dataFrames, f.data = List.Vector.replicate frameDataLenMax dirt) :
    ∃ frames f piece, fdToDataFrames content dataFrames = .ok frames ∧
      frames[countFrames content.length - 1]? = some f ∧ f.data.toList.getLast? = some dirt ∧
      (pieces content)[countFrames content.length - 1]? = some piece ∧
      piece.length < frameDataLenMax := by
  have hmax := frameDataLenMax_eq
  obtain ⟨hn, hlo, hhi⟩ := countFrames_pos lo
  cases dataFrames with
  | nil => simp at hlen; omega
  | cons f fs =>
      obtain ⟨size, hrun, -⟩ := fdToDataFrames_cons content f fs
      obtain ⟨k, hk⟩ : ∃ k, countFrames content.length = k + 2 := by
        refine ⟨countFrames content.length - 2, ?_⟩
        have hmax := frameDataLenMax_eq
        rw [hmax] at hhi hlong
        omega
      have hfs : fs.length = k + 1 := by simpa [hk] using hlen
      obtain ⟨last, hlast⟩ : ∃ last, fs[k]? = some last :=
        ⟨_, List.getElem?_eq_getElem (by omega)⟩
      have hpiece := windows_getElem? frameDataLenMax fs.length (content.drop frameDataLenMax) k
        (by omega)
      have hidx : countFrames content.length - 1 = k + 1 := by omega
      have hmul : (k + 1) * frameDataLenMax = frameDataLenMax + k * frameDataLenMax := by
        rw [Nat.succ_mul, Nat.add_comm]
      have hpiece' := windows_getElem? frameDataLenMax (countFrames content.length) content (k + 1)
        (by omega)
      rw [List.drop_drop, ← hmul] at hpiece
      generalize hp : (content.drop ((k + 1) * frameDataLenMax)).take frameDataLenMax = piece
        at hpiece hpiece'
      have hshort : piece.length < frameDataLenMax := by
        have hplen := congrArg List.length hp
        simp only [List.length_take, List.length_drop] at hplen
        rw [hk] at hhi
        have hne : content.length ≠ (k + 2) * frameDataLenMax := fun h =>
          hdvd (h ▸ Dvd.intro_left (k + 2) rfl)
        have hmul' : (k + 2) * frameDataLenMax = (k + 1) * frameDataLenMax + frameDataLenMax :=
          Nat.succ_mul _ _
        omega
      refine ⟨_, last.readInto piece, piece, hrun, ?_, ?_, ?_, hshort⟩
      · rw [hidx, List.getElem?_cons_succ, List.getElem?_zipWith, hlast, hpiece]
      · have hdata := hdirt last (List.mem_cons_of_mem _ (List.mem_of_getElem? hlast))
        obtain ⟨r, hr⟩ : ∃ r, frameDataLenMax - piece.length = r + 1 :=
          ⟨frameDataLenMax - piece.length - 1, by omega⟩
        have hdrop : (List.Vector.replicate frameDataLenMax dirt).toList.drop (0 + piece.length) =
            List.replicate (r + 1) dirt := by
          change (List.replicate frameDataLenMax dirt).drop (0 + piece.length) = _
          rw [List.drop_replicate, Nat.zero_add, hr]
        rw [DataFrame.readInto, hdata, overwrite_toList _ (by omega), hdrop, List.replicate_succ',
          ← List.append_assoc, List.getLast?_append, List.getLast?_singleton]
        rfl
      · rw [hidx, pieces, hpiece']

end Agreement

/-- A frame as `malloc` may return it. -/
def dirtyFrame (dirt : UInt8) : DataFrame :=
  ⟨tpHeader, 0, 0, 0, 0, 0, 0, List.Vector.replicate frameDataLenMax dirt, 0⟩

/-- The file path and the memory path agree, and the file path loses nothing,
exactly when the file fits one frame or ends with a full one. -/
theorem getDataFrames_agrees_iff {content : List UInt8} (lo : 1 ≤ content.length)
    (hi : content.length ≤ 65535 * frameDataLenMax) :
    PathsAgree content ↔
      content.length ≤ frameDataLenMax ∨ frameDataLenMax ∣ content.length := by
  obtain ⟨hn, -, -⟩ := countFrames_pos lo
  have hcount := count_toNat lo hi
  constructor
  · intro agree
    by_contra hcond
    rw [not_or, Nat.not_le] at hcond
    obtain ⟨hlong, hdvd⟩ := hcond
    have hlen : (List.replicate (countFrames content.length) (dirtyFrame 1)).length =
        countFrames content.length := List.length_replicate
    obtain ⟨n, frames, frames', hfile, hmem, -, -, hsame, -⟩ := agree _ _ 0 hlen hlen
    obtain ⟨frames₁, f, piece, hfd, hf, hdirty, hpiece, hshort⟩ := short_piece_kept lo hlong hdvd 1
      (initDataFrames (List.replicate (countFrames content.length) (dirtyFrame 1))
        (UInt16.ofNat (countFrames content.length)) 0 flag1Yuv420 (UInt32.ofNat content.length))
      (by rw [initDataFrames, List.length_mapIdx, hlen]) (by
        intro g hg
        obtain ⟨i, hi, rfl⟩ := List.mem_mapIdx.mp hg
        simp only [List.getElem_replicate]
        rfl)
    rw [getDataFrames_eq lo hi hlen 0 hfd] at hfile
    obtain ⟨rfl, rfl⟩ := Prod.mk.inj (Except.ok.inj hfile) |>.imp id (fun h => Option.some.inj h)
    rw [alloc_memory lo hi hlen 0] at hmem
    obtain rfl := Option.some.inj (Except.ok.inj hmem)
    rw [packed_contents _ _ (by
      rw [initDataFrames, List.length_mapIdx, hlen, pieces, windows_length])] at hsame
    have hat := congrArg (fun l => l[countFrames content.length - 1]?) hsame
    simp only [List.getElem?_map, hf, hpiece, Option.map_some, Option.some.injEq,
      DataFrame.contents, Prod.mk.injEq] at hat
    rw [hat.2, zeroPadded_short hshort] at hdirty
    contradiction
  · intro hcond block block' nFile hblock hblock'
    have hfd := fd_eq_memory lo hcond (initDataFrames block
      (UInt16.ofNat (countFrames content.length)) nFile flag1Yuv420 (UInt32.ofNat content.length))
      (by rw [initDataFrames, List.length_mapIdx, hblock])
    refine ⟨_, _, _, getDataFrames_eq lo hi hblock nFile hfd, alloc_memory lo hi hblock' nFile,
      hcount, ?_, ?_, ?_⟩
    · rw [hcount, List.length_zipWith, initDataFrames, List.length_mapIdx, hblock, pieces,
        windows_length, Nat.min_self]
    · rw [packed_contents, packed_contents]
      all_goals rw [initDataFrames, List.length_mapIdx, pieces, windows_length]
      all_goals assumption
    · have hdata := dataFramesToData_packed (initDataFrames block
        (UInt16.ofNat (countFrames content.length)) nFile flag1Yuv420
        (UInt32.ofNat content.length)) (pieces content)
        (by rw [initDataFrames, List.length_mapIdx, hblock, pieces, windows_length])
        (pieces_le content)
      rw [pieces_flatten lo] at hdata
      rw [hcount, ← hdata, pieces, windows_length]

theorem getDataFrames_agrees_two_frames : PathsAgree (List.replicate 1024 7) :=
  (getDataFrames_agrees_iff (by rw [List.length_replicate]; decide)
    (by rw [List.length_replicate]; decide)).mpr
    (.inr (by rw [List.length_replicate]; decide))

/-- A file of 513 ones: all of frame 0 behind its first byte is cleared. -/
theorem getDataFrames_clears_frame_zero : ¬ PathsAgree (List.replicate 513 1) := by
  have hlost : (do
      let (n, frames) ← getDataFrames (some [dirtyFrame 0, dirtyFrame 0]) (List.replicate 513 1) 0
      dataFramesToData (frames.getD []) n.toNat) =
        .ok (1 :: List.replicate 511 0 ++ [1]) := by decide +kernel
  intro agree
  obtain ⟨n, frames, _, hrun, -, -, -, -, hdata⟩ :=
    agree [dirtyFrame 0, dirtyFrame 0] [dirtyFrame 0, dirtyFrame 0] 0
      (by rw [List.length_replicate]; rfl) (by rw [List.length_replicate]; rfl)
  rw [hrun, ok_bind] at hlost
  have hsame := hdata.symm.trans hlost
  exact absurd hsame (by decide +kernel)

end Soc
