import Soc.Foundation.Windows
import Soc.Protocol.Frame

/-!
Packing a file or a block of memory into data frames, and unpacking them.

`malloc` returns memory with unknown contents, so the frames a function starts
from are a parameter; so is whether the allocation succeeds. The two packing
loops of the source are kept apart: the one over memory clears the rest of its
last frame, the one over a file clears the rest of the frame a second variable
named `i` points at.
-/
namespace Soc
open Windows

def idToNFrame (id len : UInt16) : UInt16 := if len = 1 then id else id + 1

def nFrameToId (nFrame len : UInt16) : UInt16 := if len = 1 then nFrame else nFrame - 1

/-- `len == 0 ? 0 : (len - 1) / TP_FRAME_DATA_LEN_MAX + 1` -/
def countFrames (len : Nat) : Nat := if len = 0 then 0 else (len - 1) / frameDataLenMax + 1

def initDataFrames (dataFrames : List DataFrame) (nFrame : UInt16) (nFile : UInt32) (flag : UInt8)
    (totalDataLen : UInt32) : List DataFrame :=
  dataFrames.mapIdx fun i f =>
    { f with
      header := tpHeader
      flag
      nFile
      nFrame := idToNFrame (UInt16.ofNat i) nFrame
      totalDataLen }

/-- The loop of `data_to_data_frames` from the frame at `p` on, `turns` full
frames before the last one, which takes `len` bytes and zeros. -/
def packFrames : Nat → List UInt8 → Nat → List DataFrame → Except Fault (List DataFrame)
  | _, _, _, [] => .error .outOfBounds
  | 0, p, len, f :: fs =>
    let dataLen := UInt16.ofNat len
    if frameDataLenMax < dataLen.toNat ∨ p.length < dataLen.toNat then .error .outOfBounds
    else
      let data := overwrite f.data 0 (p.take dataLen.toNat)
      let zeros := List.replicate (frameDataLenMax - dataLen.toNat) 0
      .ok ({ f with dataLen, data := overwrite data dataLen.toNat zeros } :: fs)
  | turns + 1, p, len, f :: fs =>
    if p.length < frameDataLenMax then .error .outOfBounds
    else do
      let rest ← packFrames turns (p.drop frameDataLenMax) (len - frameDataLenMax) fs
      .ok ({ f with
        data := overwrite f.data 0 (p.take frameDataLenMax)
        dataLen := UInt16.ofNat frameDataLenMax } :: rest)

/-- An empty block makes `n_frame - 1` the largest `size_t`; past 65536 frames
the 16-bit counter never reaches the bound. Either way `p` runs past its block. -/
def dataToDataFrames (addr : List UInt8) (len : Nat) (dataFrames : List DataFrame) :
    Except Fault (List DataFrame) :=
  if len = 0 ∨ 65536 < countFrames len then .error .outOfBounds
  else packFrames (countFrames len - 1) addr len dataFrames

/-- The loop of `fd_to_data_frames`: every `read` returns a full block until the
end of the file. The last result is returned along with the frames. -/
def readFrames : List UInt8 → Nat → List DataFrame → List DataFrame × Nat
  | _, size, [] => ([], size)
  | file, _, f :: fs =>
    let chunk := file.take frameDataLenMax
    let (rest, size) := readFrames (file.drop frameDataLenMax) chunk.length fs
    ({ f with data := overwrite f.data 0 chunk, dataLen := UInt16.ofNat chunk.length } :: rest,
      size)

/-- The closing `memset` uses the outer `i`, which is still zero: the loop counts
with its own. -/
def fdToDataFrames (file : List UInt8) (dataFrames : List DataFrame) :
    Except Fault (List DataFrame) :=
  match readFrames file 0 dataFrames with
  | ([], _) => .error .outOfBounds
  | (f :: fs, size) =>
    let zeros := List.replicate (frameDataLenMax - size) 0
    .ok ({ f with data := overwrite f.data size zeros } :: fs)

/-- `addr` and `len`, or the file behind the descriptor passed as `len`. -/
inductive Source where
  | memory (addr : List UInt8) (len : Nat)
  | file (content : List UInt8)

/-- `block` is what `malloc(n_frame * sizeof(data_frame_t))` returned. -/
def allocDataFrames (block : Option (List DataFrame)) (nFrame : UInt16) (nFile : UInt32)
    (source : Source) (flag : UInt8) (totalDataLen : UInt32) :
    Except Fault (Option (List DataFrame)) :=
  match block with
  | none => .ok none
  | some block => do
    let dataFrames := initDataFrames (block.take nFrame.toNat) nFrame nFile flag totalDataLen
    match source with
    | .memory addr len => .ok (some (← dataToDataFrames addr len dataFrames))
    | .file content => .ok (some (← fdToDataFrames content dataFrames))

/-- `get_data_frames` on a file that can be opened, with `binary` false. -/
def getDataFrames (block : Option (List DataFrame)) (content : List UInt8) (nFile : UInt32) :
    Except Fault (UInt16 × Option (List DataFrame)) := do
  let nFrame := UInt16.ofNat (countFrames content.length)
  let dataFrames ← allocDataFrames block nFrame nFile (.file content) flag1Yuv420
    (UInt32.ofNat content.length)
  .ok (nFrame, dataFrames)

def dataFrameToDataLen (dataFrames : List DataFrame) (nFrame : Nat) : Nat :=
  ((dataFrames.take nFrame).map fun f => f.dataLen.toNat).sum

/-- `memcpy(p, data_frames[i].data, data_frames[i].data_len)` -/
def DataFrame.payload (f : DataFrame) : Except Fault (List UInt8) :=
  if frameDataLenMax < f.dataLen.toNat then .error .outOfBounds
  else .ok (f.data.toList.take f.dataLen.toNat)

def dataFramesToData : List DataFrame → Nat → Except Fault (List UInt8)
  | _, 0 => .ok []
  | [], _ + 1 => .error .outOfBounds
  | f :: fs, n + 1 => do
    let bytes ← f.payload
    let rest ← dataFramesToData fs n
    .ok (bytes ++ rest)

theorem countFrames_pos {len : Nat} (h : 0 < len) :
    0 < countFrames len ∧ (countFrames len - 1) * frameDataLenMax < len ∧
      len ≤ countFrames len * frameDataLenMax := by
  simp only [countFrames, if_neg (show len ≠ 0 by omega), frameDataLenMax]
  omega

/-! What the loops leave in the frames. -/

def zeroPadded (piece : List UInt8) : List.Vector UInt8 frameDataLenMax :=
  (Layout.bytes frameDataLenMax).load piece

/-- A frame that carries a piece of data. -/
def DataFrame.packed (f : DataFrame) (piece : List UInt8) : DataFrame :=
  { f with data := zeroPadded piece, dataLen := UInt16.ofNat piece.length }

theorem overwrite_full {old : List.Vector UInt8 frameDataLenMax} {piece : List UInt8}
    (h : piece.length = frameDataLenMax) : overwrite old 0 piece = zeroPadded piece := by
  apply Subtype.ext
  change (overwrite old 0 piece).toList = (zeroPadded piece).toList
  rw [overwrite_toList _ (by omega), zeroPadded, Layout.bytes_load_toList (by omega), h]
  simp [List.drop_of_length_le]

theorem overwrite_padded (old : List.Vector UInt8 frameDataLenMax) {piece : List UInt8}
    (h : piece.length ≤ frameDataLenMax) :
    overwrite (overwrite old 0 piece) piece.length
      (List.replicate (frameDataLenMax - piece.length) 0) = zeroPadded piece := by
  apply Subtype.ext
  change (overwrite _ _ _).toList = (zeroPadded piece).toList
  rw [overwrite_overwrite _ (by rw [List.length_replicate]; omega), zeroPadded,
    Layout.bytes_load_toList h]

theorem packFrames_ok (turns : Nat) (p : List UInt8) (len : Nat) (dataFrames : List DataFrame)
    (hlo : turns * frameDataLenMax < len) (hhi : len ≤ (turns + 1) * frameDataLenMax)
    (hp : len ≤ p.length) (hframes : dataFrames.length = turns + 1) :
    packFrames turns p len dataFrames =
      .ok (List.zipWith DataFrame.packed dataFrames
        (windows frameDataLenMax (turns + 1) (p.take len))) := by
  have hmax := frameDataLenMax_eq
  induction turns generalizing p len dataFrames with
  | zero =>
      obtain ⟨f, rfl⟩ := List.length_eq_one_iff.mp hframes
      rw [Nat.zero_add, Nat.one_mul] at hhi
      have hlen : (UInt16.ofNat len).toNat = len := by
        rw [UInt16.toNat_ofNat']
        exact Nat.mod_eq_of_lt (by omega)
      have hpiece : (p.take len).length = len := by rw [List.length_take]; omega
      have hpiece_le : (p.take len).length ≤ frameDataLenMax := by omega
      have hpad := overwrite_padded f.data hpiece_le
      rw [hpiece] at hpad
      have htake : (p.take len).take frameDataLenMax = p.take len :=
        List.take_of_length_le (by omega)
      simp only [packFrames, hlen, hpad, windows, htake, hpiece,
        if_neg (show ¬(frameDataLenMax < len ∨ p.length < len) by omega),
        List.zipWith_cons_cons, List.zipWith_nil_left, DataFrame.packed]
  | succ turns ih =>
      cases dataFrames with
      | nil => simp at hframes
      | cons f fs =>
          rw [Nat.succ_mul] at hlo hhi
          have hrest := ih (p.drop frameDataLenMax) (len - frameDataLenMax) fs (by omega) (by omega)
            (by rw [List.length_drop]; omega) (by simpa using hframes)
          have htake : (p.take len).take frameDataLenMax = p.take frameDataLenMax := by
            rw [List.take_take, Nat.min_eq_left (by omega)]
          have hdrop : (p.drop frameDataLenMax).take (len - frameDataLenMax) =
              (p.take len).drop frameDataLenMax := by rw [List.drop_take]
          have hpiece : (p.take frameDataLenMax).length = frameDataLenMax := by
            rw [List.length_take]
            omega
          have hwin : windows frameDataLenMax (turns + 1 + 1) (p.take len) =
              p.take frameDataLenMax ::
                windows frameDataLenMax (turns + 1) ((p.take len).drop frameDataLenMax) := by
            rw [windows, htake]
          rw [packFrames, if_neg (by omega), hrest, ok_bind, overwrite_full hpiece, hdrop, hwin,
            List.zipWith_cons_cons, DataFrame.packed, hpiece]

theorem packFrames_length (turns : Nat) (p : List UInt8) (len : Nat)
    (dataFrames : List DataFrame) {frames : List DataFrame}
    (h : packFrames turns p len dataFrames = .ok frames) : frames.length = dataFrames.length := by
  induction turns generalizing p len dataFrames frames with
  | zero =>
      cases dataFrames with
      | nil => contradiction
      | cons f fs =>
          simp only [packFrames] at h
          split at h
          case isTrue => contradiction
          case isFalse =>
              obtain rfl := Except.ok.inj h
              rfl
  | succ turns ih =>
      cases dataFrames with
      | nil => contradiction
      | cons f fs =>
          simp only [packFrames] at h
          split at h
          case isTrue => contradiction
          case isFalse =>
              obtain ⟨rest, hrest, h⟩ := bind_ok h
              obtain rfl := Except.ok.inj h
              rw [List.length_cons, List.length_cons, ih _ _ fs hrest]

/-- The memory path packs the pieces of the block in order. -/
theorem dataToDataFrames_ok (addr : List UInt8) {len : Nat} (dataFrames : List DataFrame)
    (hpos : 0 < len) (haddr : len ≤ addr.length) (hmax : len ≤ 65536 * frameDataLenMax)
    (hframes : dataFrames.length = countFrames len) :
    dataToDataFrames addr len dataFrames =
      .ok (List.zipWith DataFrame.packed dataFrames
        (windows frameDataLenMax (countFrames len) (addr.take len))) := by
  obtain ⟨hn, hlo, hhi⟩ := countFrames_pos hpos
  have hsucc : countFrames len - 1 + 1 = countFrames len := by omega
  have hpack := packFrames_ok (countFrames len - 1) addr len dataFrames hlo (by rwa [hsucc]) haddr
    (by rwa [hsucc])
  have hcount : countFrames len ≤ 65536 := by
    by_contra hbig
    have hmul := Nat.mul_le_mul_right frameDataLenMax (show 65536 ≤ countFrames len - 1 by omega)
    omega
  rw [hsucc] at hpack
  rw [dataToDataFrames, if_neg (by omega), hpack]

/-- Past 65535 frames the block of frames is too small for the loop, or the loop
does not end. -/
theorem dataToDataFrames_long (addr : List UInt8) {len : Nat} {dataFrames : List DataFrame}
    (hlen : 65535 * frameDataLenMax < len)
    (hframes : dataFrames.length = countFrames len % 65536) :
    dataToDataFrames addr len dataFrames = .error .outOfBounds := by
  have hmax := frameDataLenMax_eq
  obtain ⟨hn, hlo, hhi⟩ := countFrames_pos (show 0 < len by omega)
  rw [hmax] at hhi hlen
  by_cases hwrap : len = 0 ∨ 65536 < countFrames len
  · rw [dataToDataFrames, if_pos hwrap]
  · have hcount : countFrames len = 65536 := by omega
    rw [hcount] at hframes
    obtain rfl := List.length_eq_zero_iff.mp hframes
    rw [dataToDataFrames, if_neg hwrap, packFrames]

theorem allocDataFrames_length {block : Option (List DataFrame)} {nFrame : UInt16}
    {nFile : UInt32} {addr : List UInt8} {len : Nat} {flag : UInt8} {totalDataLen : UInt32}
    {frames : List DataFrame}
    (h : allocDataFrames block nFrame nFile (.memory addr len) flag totalDataLen =
      .ok (some frames)) :
    ∃ fs, block = some fs ∧ frames.length = (fs.take nFrame.toNat).length := by
  cases block with
  | none => exact absurd (Except.ok.inj h) (by simp)
  | some fs =>
      obtain ⟨packed, hpacked, h⟩ := bind_ok h
      obtain rfl := Option.some.inj (Except.ok.inj h)
      refine ⟨fs, rfl, ?_⟩
      rw [dataToDataFrames] at hpacked
      split at hpacked
      case isTrue => contradiction
      case isFalse =>
          rw [packFrames_length _ _ _ _ hpacked, initDataFrames, List.length_mapIdx]

theorem allocDataFrames_none {block : Option (List DataFrame)} {nFrame : UInt16}
    {nFile : UInt32} {addr : List UInt8} {len : Nat} {flag : UInt8} {totalDataLen : UInt32}
    (h : allocDataFrames block nFrame nFile (.memory addr len) flag totalDataLen = .ok none) :
    block = none := by
  cases block with
  | none => rfl
  | some fs =>
      obtain ⟨packed, -, h⟩ := bind_ok h
      exact absurd (Except.ok.inj h) (by simp)

/-- A frame as one turn of the file loop leaves it: the rest is as allocated. -/
def DataFrame.readInto (f : DataFrame) (piece : List UInt8) : DataFrame :=
  { f with data := overwrite f.data 0 piece, dataLen := UInt16.ofNat piece.length }

theorem readFrames_eq (file : List UInt8) (size : Nat) (dataFrames : List DataFrame) :
    readFrames file size dataFrames =
      (List.zipWith DataFrame.readInto dataFrames
        (windows frameDataLenMax dataFrames.length file),
        ((windows frameDataLenMax dataFrames.length file).map List.length).getLastD size) := by
  induction dataFrames generalizing file size with
  | nil => rfl
  | cons f fs ih =>
      simp only [readFrames, ih, List.length_cons, windows, List.zipWith_cons_cons, List.map_cons,
        List.getLastD_cons, DataFrame.readInto]

theorem packed_payload (f : DataFrame) {piece : List UInt8} (h : piece.length ≤ frameDataLenMax) :
    (f.packed piece).payload = .ok piece := by
  have hmax := frameDataLenMax_eq
  have hlen : (UInt16.ofNat piece.length).toNat = piece.length := by
    rw [UInt16.toNat_ofNat']
    exact Nat.mod_eq_of_lt (by omega)
  have hdata : (zeroPadded piece).toList.take piece.length = piece := by
    rw [zeroPadded, Layout.bytes_load_toList h, List.take_left]
  simp only [DataFrame.payload, DataFrame.packed, hlen, if_neg (Nat.not_lt.mpr h), hdata]

theorem dataFramesToData_packed (dataFrames : List DataFrame) (pieces : List (List UInt8))
    (hlen : dataFrames.length = pieces.length)
    (hpieces : ∀ piece ∈ pieces, piece.length ≤ frameDataLenMax) :
    dataFramesToData (List.zipWith DataFrame.packed dataFrames pieces) pieces.length =
      .ok pieces.flatten := by
  induction pieces generalizing dataFrames with
  | nil => cases dataFrames <;> rfl
  | cons piece pieces ih =>
      cases dataFrames with
      | nil => simp at hlen
      | cons f fs =>
          have hrest := ih fs (by simpa using hlen)
            (fun x hx => hpieces x (List.mem_cons_of_mem _ hx))
          rw [List.zipWith_cons_cons, List.length_cons, dataFramesToData,
            packed_payload f (hpieces piece List.mem_cons_self), ok_bind, hrest, ok_bind,
            List.flatten_cons]

/-! The pieces of a block. -/

/-- The bytes cut into what one frame carries. -/
def pieces (content : List UInt8) : List (List UInt8) :=
  windows frameDataLenMax (countFrames content.length) content

@[simp] theorem pieces_length (content : List UInt8) :
    (pieces content).length = countFrames content.length := windows_length _ _ _

theorem pieces_flatten {content : List UInt8} (lo : 1 ≤ content.length) :
    (pieces content).flatten = content :=
  flatten_windows (countFrames_pos lo).2.2

theorem pieces_le (content : List UInt8) :
    ∀ piece ∈ pieces content, piece.length ≤ frameDataLenMax := by
  intro piece hpiece
  obtain ⟨i, hlt, rfl⟩ := List.mem_iff_getElem.mp hpiece
  have hget := windows_getElem? frameDataLenMax (countFrames content.length) content i
    (by simpa [pieces] using hlt)
  obtain ⟨_, heq⟩ := List.getElem?_eq_some_iff.mp hget
  simp only [pieces, heq, List.length_take]
  omega

/-- What packing is for: the length field and the whole data field. -/
def DataFrame.contents (f : DataFrame) : UInt16 × List.Vector UInt8 frameDataLenMax :=
  (f.dataLen, f.data)

theorem packed_contents (dataFrames : List DataFrame) (ps : List (List UInt8))
    (h : dataFrames.length = ps.length) :
    (List.zipWith DataFrame.packed dataFrames ps).map DataFrame.contents =
      ps.map fun piece => (UInt16.ofNat piece.length, zeroPadded piece) := by
  induction ps generalizing dataFrames with
  | nil => simp
  | cons piece ps ih =>
      cases dataFrames with
      | nil => simp at h
      | cons f fs =>
          rw [List.zipWith_cons_cons, List.map_cons, ih fs (by simpa using h), List.map_cons]
          rfl

@[simp] theorem dataFramesToData_zero (fs : List DataFrame) : dataFramesToData fs 0 = .ok [] := by
  cases fs <;> rfl

/-- Frames past the count are not looked at. -/
theorem dataFramesToData_append (fs gs : List DataFrame) {n : Nat} (h : n ≤ fs.length) :
    dataFramesToData (fs ++ gs) n = dataFramesToData fs n := by
  induction n generalizing fs with
  | zero => rw [dataFramesToData_zero, dataFramesToData_zero]
  | succ n ih =>
      cases fs with
      | nil => simp at h
      | cons f fs => simp only [List.cons_append, dataFramesToData, ih fs (by simpa using h)]

theorem dataFramesToData_contents {fs gs : List DataFrame}
    (h : fs.map DataFrame.contents = gs.map DataFrame.contents) (n : Nat) :
    dataFramesToData fs n = dataFramesToData gs n := by
  induction n generalizing fs gs with
  | zero => rw [dataFramesToData_zero, dataFramesToData_zero]
  | succ n ih =>
      cases fs with
      | nil =>
          cases gs with
          | nil => rfl
          | cons g gs => simp at h
      | cons f fs =>
          cases gs with
          | nil => simp at h
          | cons g gs =>
              rw [List.map_cons, List.map_cons, List.cons.injEq] at h
              obtain ⟨hhead, htail⟩ := h
              rw [DataFrame.contents, DataFrame.contents, Prod.mk.injEq] at hhead
              simp only [dataFramesToData, ih htail, DataFrame.payload, hhead.1, hhead.2]

theorem dataFrameToDataLen_contents {fs gs : List DataFrame}
    (h : fs.map DataFrame.contents = gs.map DataFrame.contents) (n : Nat) :
    dataFrameToDataLen fs n = dataFrameToDataLen gs n := by
  have hlens (l : List DataFrame) : (l.take n).map (fun f => f.dataLen.toNat) =
      ((l.map DataFrame.contents).take n).map fun p => p.1.toNat := by
    rw [← List.map_take, List.map_map]
    rfl
  rw [dataFrameToDataLen, dataFrameToDataLen, hlens, hlens, h]

/-- Frames whose length fields stay within their data unpack. -/
theorem dataFramesToData_ok (fs : List DataFrame) {n : Nat} (hn : n ≤ fs.length)
    (h : ∀ f ∈ fs, f.dataLen.toNat ≤ frameDataLenMax) :
    ∃ bytes, dataFramesToData fs n = .ok bytes := by
  induction n generalizing fs with
  | zero => exact ⟨[], dataFramesToData_zero fs⟩
  | succ n ih =>
      cases fs with
      | nil => simp at hn
      | cons f fs =>
          obtain ⟨rest, hrest⟩ := ih fs (by simpa using hn)
            (fun x hx => h x (List.mem_cons_of_mem _ hx))
          have hhead : f.payload = .ok (f.data.toList.take f.dataLen.toNat) :=
            if_neg (Nat.not_lt.mpr (h f List.mem_cons_self))
          exact ⟨_, by rw [dataFramesToData, hhead, ok_bind, hrest, ok_bind]⟩

def DataFrame.carried (f : DataFrame) : List UInt8 := f.data.toList.take f.dataLen.toNat

theorem payload_carried {f : DataFrame} {bytes : List UInt8} (h : f.payload = .ok bytes) :
    bytes = f.carried := by
  rw [DataFrame.payload] at h
  split at h
  case isTrue => contradiction
  case isFalse => exact (Except.ok.inj h).symm

/-- What is unpacked is what the first frame carries, then the rest. -/
theorem dataFramesToData_succ {fs : List DataFrame} {n : Nat} {bytes : List UInt8}
    (h : dataFramesToData fs (n + 1) = .ok bytes) :
    ∃ f gs rest, fs = f :: gs ∧ f.payload = .ok f.carried ∧
      dataFramesToData gs n = .ok rest ∧ bytes = f.carried ++ rest := by
  cases fs with
  | nil => contradiction
  | cons f gs =>
      obtain ⟨head, hhead, h⟩ := bind_ok h
      obtain ⟨rest, hrest, h⟩ := bind_ok h
      obtain rfl := Except.ok.inj h
      obtain rfl := payload_carried hhead
      exact ⟨f, gs, rest, rfl, hhead, hrest, rfl⟩

theorem dataFramesToData_carried (fs : List DataFrame) (n : Nat) {bytes : List UInt8}
    (h : dataFramesToData fs n = .ok bytes) : bytes = (fs.take n).flatMap DataFrame.carried := by
  induction n generalizing fs bytes with
  | zero =>
      rw [dataFramesToData_zero] at h
      exact (Except.ok.inj h).symm
  | succ n ih =>
      obtain ⟨f, gs, rest, rfl, -, hrest, rfl⟩ := dataFramesToData_succ h
      rw [List.take_succ_cons, List.flatMap_cons, ← ih gs hrest]

theorem dataFramesToData_length (fs : List DataFrame) (n : Nat) {bytes : List UInt8}
    (h : dataFramesToData fs n = .ok bytes) : dataFrameToDataLen fs n = bytes.length := by
  induction n generalizing fs bytes with
  | zero =>
      rw [dataFramesToData_zero] at h
      obtain rfl := Except.ok.inj h
      simp [dataFrameToDataLen]
  | succ n ih =>
      obtain ⟨f, gs, rest, rfl, hhead, hrest, rfl⟩ := dataFramesToData_succ h
      have htail := ih gs hrest
      have hlen : f.carried.length = f.dataLen.toNat := by
        rw [DataFrame.payload] at hhead
        split at hhead
        case isTrue => contradiction
        case isFalse hle =>
            rw [DataFrame.carried, List.length_take, f.data.toList_length]
            omega
      rw [dataFrameToDataLen] at htail ⊢
      rw [List.take_succ_cons, List.map_cons, List.sum_cons, htail, List.length_append, hlen]

/-- No frame carries more than its data field. -/
theorem dataFramesToData_le (fs : List DataFrame) (n : Nat) {bytes : List UInt8}
    (h : dataFramesToData fs n = .ok bytes) : bytes.length ≤ n * 512 := by
  induction n generalizing fs bytes with
  | zero =>
      rw [dataFramesToData_zero] at h
      obtain rfl := Except.ok.inj h
      exact Nat.zero_le _
  | succ n ih =>
      obtain ⟨f, gs, rest, rfl, -, hrest, rfl⟩ := dataFramesToData_succ h
      have hlen : f.carried.length ≤ 512 := by
        rw [DataFrame.carried, List.length_take, f.data.toList_length]
        exact Nat.min_le_right _ _
      have htail := ih gs hrest
      rw [List.length_append]
      omega

end Soc
