import Soc.Protocol.Packing

/-!
Sending and receiving data frames.

The receiver reads until it has the bytes of all announced frames or ten reads
in a row failed, cuts what it has into windows and fills the empty slots whose
window passes the test. Which slot a window goes to depends on its position
alone.
-/
namespace Soc
open Windows

/-- `COUNT` -/
abbrev readCount : Nat := 10

/-- `send_data_frame`: the line is ready or the call returns -1 and the frame is
not sent. -/
def sendDataFrame (ready : Bool) (nTotalFrame : BitVec 24) (frame : DataFrame) :
    BitVec 24 × DataFrame × List (List UInt8) :=
  if ready then
    let frame := { frame with nTotalFrame }
    (nTotalFrame + 1, frame, [writeDataFrame frame])
  else (nTotalFrame, frame, [])

/-- The sending loops of both programs; they ignore what `send_data_frame`
returns. `ready i` is the outcome for frame `i`. -/
def sendDataFrames (ready : Nat → Bool) : Nat → BitVec 24 → List DataFrame →
    BitVec 24 × List DataFrame × List (List UInt8)
  | _, count, [] => (count, [], [])
  | i, count, f :: fs =>
    let (count, f, sent) := sendDataFrame (ready i) count f
    let (count, fs, rest) := sendDataFrames ready (i + 1) count fs
    (count, f :: fs, sent ++ rest)

/-- Only a frame that finds the line ready counts. -/
theorem sendDataFrames_none {ready : Nat → Bool} {i : Nat} (count : BitVec 24)
    {frames : List DataFrame} (h : ∀ j, j < frames.length → ready (i + j) = false) :
    sendDataFrames ready i count frames = (count, frames, []) := by
  induction frames generalizing i with
  | nil => rfl
  | cons f fs ih =>
      have hhead : ready i = false := h 0 (Nat.succ_pos _)
      have htail := ih (i := i + 1) (by
        intro j hj
        have hnext := h (j + 1) (Nat.succ_lt_succ hj)
        rwa [← Nat.add_assoc, Nat.add_right_comm] at hnext)
      simp only [sendDataFrames, sendDataFrame, hhead, Bool.false_eq_true, if_false, htail,
        List.nil_append]

theorem sendDataFrames_some {ready : Nat → Bool} {i j : Nat} (count : BitVec 24)
    {frames : List DataFrame} (hj : j < frames.length) (h : ready (i + j) = true) :
    (sendDataFrames ready i count frames).2.2 ≠ [] := by
  induction frames generalizing i j count with
  | nil => contradiction
  | cons f fs ih =>
      intro hnone
      simp only [sendDataFrames] at hnone
      obtain ⟨hhead, hrest⟩ := List.append_eq_nil_iff.mp hnone
      cases j with
      | zero =>
          have hready : ready i = true := h
          rw [sendDataFrame, if_pos hready] at hhead
          exact absurd hhead (List.cons_ne_nil _ _)
      | succ j =>
          have hnext : ready (i + 1 + j) = true := by
            rwa [Nat.add_assoc, Nat.add_comm 1 j]
          exact ih _ (Nat.lt_of_succ_lt_succ hj) hnext hrest

/-- The read loop. A result of zero or less is the empty list; when the results
end, every further read fails. No read returns more than it was asked for. -/
def readLoop (len : Nat) : List (List UInt8) → List UInt8 → Nat → List UInt8
  | [], got, _ => got
  | r :: rs, got, count =>
    let r := r.take (len - got.length)
    let count := if r.isEmpty then count + 1 else 0
    if (got ++ r).length < len ∧ count < readCount then readLoop len rs (got ++ r) count
    else got ++ r

/-- `temp` after the loop; `calloc` cleared what was not read. -/
def readBuffer (len : Nat) (reads : List (List UInt8)) : List UInt8 :=
  let got := readLoop len reads [] 0
  got ++ List.replicate (len - got.length) 0

/-- The loop over the slots, with the count of the windows it gave up on. -/
def fillSlots : List DataFrame → List (List UInt8) → Except Fault (Nat × List DataFrame)
  | slots, [] => .ok (0, slots)
  | [], _ :: _ => .error .outOfBounds
  | s :: ss, w :: ws => do
    let (sum, ss) ← fillSlots ss ws
    if 0 < s.dataLen then .ok (sum, s :: ss)
    else if accepts w then .ok (sum, parseDataFrame w :: ss)
    else .ok (sum + 1, s :: ss)

/-- `receive_data_frames`: the `-1` of a timeout is an `n_frame_t` too. -/
def receiveDataFrames (ready : Bool) (reads : List (List UInt8)) (slots : List DataFrame)
    (nFrame : UInt16) : Except Fault (UInt16 × List DataFrame) :=
  if ready then do
    let temp := readBuffer (dataFrameSize * nFrame.toNat) reads
    let (sum, slots) ← fillSlots slots (windows dataFrameSize nFrame.toNat temp)
    .ok (UInt16.ofNat sum, slots)
  else .ok (UInt16.ofInt (-1), slots)

/-! What one window does to its slot. -/

/-- A slot counts as empty while its length field is zero. -/
def DataFrame.Empty (f : DataFrame) : Prop := f.dataLen = 0

instance (f : DataFrame) : Decidable f.Empty := inferInstanceAs (Decidable (_ = _))

theorem dataLen_pos_iff {f : DataFrame} : 0 < f.dataLen ↔ ¬ f.Empty := by
  rw [DataFrame.Empty, UInt16.lt_iff_toNat_lt, ← UInt16.toNat_inj]
  exact Nat.pos_iff_ne_zero

def fill (s : DataFrame) (w : List UInt8) : DataFrame :=
  if s.Empty ∧ accepts w = true then parseDataFrame w else s

def missed (p : DataFrame × List UInt8) : Bool := p.1.Empty ∧ accepts p.2 = false

theorem fillSlots_ok (slots : List DataFrame) (ws : List (List UInt8))
    (h : ws.length ≤ slots.length) :
    fillSlots slots ws =
      .ok ((slots.zip ws).countP missed, List.zipWith fill slots ws ++ slots.drop ws.length) := by
  induction ws generalizing slots with
  | nil => simp [fillSlots]
  | cons w ws ih =>
      cases slots with
      | nil => simp at h
      | cons s ss =>
          have hrest := ih ss (by simpa using h)
          simp only [fillSlots, hrest, ok_bind, dataLen_pos_iff, List.zip_cons_cons,
            List.zipWith_cons_cons, List.length_cons, List.drop_succ_cons, List.countP_cons]
          by_cases hempty : s.Empty
          · cases hacc : accepts w <;> simp [hempty, hacc, fill, missed]
          · simp [hempty, fill, missed]

theorem fillSlots_short (slots : List DataFrame) (ws : List (List UInt8))
    (h : slots.length < ws.length) : fillSlots slots ws = .error .outOfBounds := by
  induction ws generalizing slots with
  | nil => simp at h
  | cons w ws ih =>
      cases slots with
      | nil => rfl
      | cons s ss =>
          have hrest := ih ss (by simpa using h)
          simp only [fillSlots, hrest, error_bind]

/-- The windows a call looks at. -/
def receivedWindows (nFrame : UInt16) (reads : List (List UInt8)) : List (List UInt8) :=
  windows dataFrameSize nFrame.toNat (readBuffer (dataFrameSize * nFrame.toNat) reads)

@[simp] theorem receivedWindows_length (nFrame : UInt16) (reads : List (List UInt8)) :
    (receivedWindows nFrame reads).length = nFrame.toNat := windows_length _ _ _

theorem receivedWindows_size (nFrame : UInt16) (reads : List (List UInt8)) :
    ∀ w ∈ receivedWindows nFrame reads, w.length = dataFrameSize := by
  apply length_of_mem_windows
  rw [readBuffer, List.length_append, List.length_replicate, Nat.mul_comm]
  omega

/-- How many of the first `nFrame` slots a call leaves empty. -/
def countMissed (slots : List DataFrame) (nFrame : UInt16) (reads : List (List UInt8)) : Nat :=
  (slots.zip (receivedWindows nFrame reads)).countP missed

theorem countMissed_le (slots : List DataFrame) (nFrame : UInt16) (reads : List (List UInt8)) :
    countMissed slots nFrame reads ≤ nFrame.toNat := by
  have h := List.countP_le_length (p := missed) (l := slots.zip (receivedWindows nFrame reads))
  rw [List.length_zip, receivedWindows_length] at h
  exact h.trans (Nat.min_le_right _ _)

theorem countMissed_toNat (slots : List DataFrame) (nFrame : UInt16) (reads : List (List UInt8)) :
    (UInt16.ofNat (countMissed slots nFrame reads)).toNat = countMissed slots nFrame reads := by
  have hle := countMissed_le slots nFrame reads
  have hlt := nFrame.toNat_lt
  rw [UInt16.toNat_ofNat', Nat.mod_eq_of_lt (by omega)]

theorem receiveDataFrames_ok {slots : List DataFrame} {nFrame : UInt16}
    (h : nFrame.toNat ≤ slots.length) (reads : List (List UInt8)) :
    receiveDataFrames true reads slots nFrame =
      .ok (UInt16.ofNat (countMissed slots nFrame reads),
        List.zipWith fill slots (receivedWindows nFrame reads) ++ slots.drop nFrame.toNat) := by
  have hfill := fillSlots_ok slots (receivedWindows nFrame reads)
    (by rwa [receivedWindows_length])
  rw [receivedWindows_length] at hfill
  rw [receivedWindows] at hfill
  simp only [receiveDataFrames, if_true, hfill, ok_bind, countMissed, receivedWindows]

theorem receiveDataFrames_short {slots : List DataFrame} {nFrame : UInt16}
    (h : slots.length < nFrame.toNat) (reads : List (List UInt8)) :
    receiveDataFrames true reads slots nFrame = .error .outOfBounds := by
  have hfill := fillSlots_short slots (receivedWindows nFrame reads)
    (by rwa [receivedWindows_length])
  rw [receivedWindows] at hfill
  simp only [receiveDataFrames, if_true, hfill, error_bind]

/-- A call that returns, slot by slot. -/
theorem receiveDataFrames_slots {slots slots' : List DataFrame} {nFrame sum : UInt16}
    {reads : List (List UInt8)}
    (hrun : receiveDataFrames true reads slots nFrame = .ok (sum, slots')) :
    nFrame.toNat ≤ slots.length ∧ slots'.length = slots.length ∧
      (∀ (i : Nat) (s : DataFrame) (w : List UInt8), slots[i]? = some s →
        (receivedWindows nFrame reads)[i]? = some w → slots'[i]? = some (fill s w)) ∧
      ∀ i : Nat, nFrame.toNat ≤ i → slots'[i]? = slots[i]? := by
  by_cases hle : nFrame.toNat ≤ slots.length
  · rw [receiveDataFrames_ok hle] at hrun
    obtain ⟨-, rfl⟩ := Prod.mk.inj (Except.ok.inj hrun)
    have hlen : (List.zipWith fill slots (receivedWindows nFrame reads)).length = nFrame.toNat := by
      rw [List.length_zipWith, receivedWindows_length, Nat.min_eq_right hle]
    refine ⟨hle, ?_, ?_, ?_⟩
    · rw [List.length_append, hlen, List.length_drop]
      omega
    · intro i s w hs hw
      have hi : i < nFrame.toNat := by
        have := (List.getElem?_eq_some_iff.mp hw).1
        rwa [receivedWindows_length] at this
      rw [List.getElem?_append_left (by omega), List.getElem?_zipWith, hs, hw]
    · intro i hi
      rw [List.getElem?_append_right (by omega), hlen, List.getElem?_drop]
      congr 1
      omega
  · rw [receiveDataFrames_short (by omega)] at hrun
    contradiction

/-- A reception with slots enough comes back with as many, and takes its frames
from them. -/
theorem receiveDataFrames_inside {slots : List DataFrame} {nFrame : UInt16}
    (h : nFrame.toNat ≤ slots.length) (ready : Bool) (reads : List (List UInt8)) :
    ∃ sum slots', receiveDataFrames ready reads slots nFrame = .ok (sum, slots') ∧
      slots'.length = slots.length ∧ (slots'.take nFrame.toNat).length = nFrame.toNat := by
  cases ready with
  | false => exact ⟨_, slots, rfl, rfl, by rw [List.length_take, Nat.min_eq_left h]⟩
  | true =>
      have hrun := receiveDataFrames_ok h reads
      obtain ⟨-, hlen, -, -⟩ := receiveDataFrames_slots hrun
      exact ⟨_, _, hrun, hlen, by rw [List.length_take, hlen, Nat.min_eq_left h]⟩

/-! What the reads deliver. -/

/-- Never ten results in a row without a byte while bytes are still to come. -/
def Steady : Nat → List (List UInt8) → Prop
  | _, [] => True
  | count, r :: rs =>
    if r.isEmpty then rs.flatten = [] ∨ count + 1 < readCount ∧ Steady (count + 1) rs
    else Steady 0 rs

theorem window_isEmpty {w : List UInt8} (h : w.length = dataFrameSize) : w.isEmpty = false := by
  rw [List.isEmpty_eq_false_iff, ← List.length_pos_iff, h]
  exact Nat.succ_pos 533

theorem steady_single {w : List UInt8} (h : w.length = dataFrameSize) : Steady 0 [w] := by
  simp [Steady, window_isEmpty h]

theorem readLoop_nothing (len : Nat) (rs : List (List UInt8)) (got : List UInt8) (count : Nat)
    (h : rs.flatten = []) : readLoop len rs got count = got := by
  induction rs generalizing count with
  | nil => rfl
  | cons r rs ih =>
      rw [List.flatten_cons, List.append_eq_nil_iff] at h
      simp only [readLoop, h.1, List.take_nil, List.append_nil, List.isEmpty_nil, if_true,
        ih _ h.2, ite_self]

/-- The chunks are concatenated in order. -/
theorem readLoop_steady (len : Nat) (rs : List (List UInt8)) (got : List UInt8) (count : Nat)
    (steady : Steady count rs) (hlen : got.length + rs.flatten.length ≤ len) :
    readLoop len rs got count = got ++ rs.flatten := by
  induction rs generalizing got count with
  | nil => simp [readLoop]
  | cons r rs ih =>
      rw [List.flatten_cons, List.length_append] at hlen
      have htake : r.take (len - got.length) = r := List.take_of_length_le (by omega)
      rw [readLoop, htake]
      by_cases hr : r.isEmpty = true
      · obtain rfl : r = [] := List.isEmpty_iff.mp hr
        rw [Steady, if_pos hr] at steady
        rw [List.flatten_cons, List.nil_append, List.append_nil]
        rcases steady with hend | ⟨hcount, steady⟩
        · rw [hend, List.append_nil, readLoop_nothing _ _ _ _ hend, ite_self]
        · simp only [List.isEmpty_nil, if_true, hcount, and_true]
          by_cases hfull : got.length < len
          · rw [if_pos hfull, ih _ _ steady (by omega)]
          · have hnone : rs.flatten = [] := List.length_eq_zero_iff.mp (by omega)
            rw [if_neg hfull, hnone, List.append_nil]
      · rw [Steady, if_neg hr] at steady
        have hzero : (0 : Nat) < readCount := by decide
        simp only [if_neg hr, hzero, and_true]
        rw [List.flatten_cons, ← List.append_assoc]
        by_cases hfull : (got ++ r).length < len
        · rw [if_pos hfull, ih _ _ steady (by rw [List.length_append]; omega)]
        · rw [List.length_append] at hfull
          have hnone : rs.flatten = [] := List.length_eq_zero_iff.mp (by omega)
          rw [if_neg (by rwa [List.length_append]), hnone, List.append_nil]

def zeroWindow : List UInt8 := List.replicate dataFrameSize 0

theorem zeroWindow_rejected : accepts zeroWindow = false := by decide +kernel

/-- Whole windows come out as they went in; where nothing came there are zeros. -/
theorem receivedWindows_blocks (nFrame : UInt16) (blocks : List (List UInt8))
    {reads : List (List UInt8)} (steady : Steady 0 reads) (hreads : reads.flatten = blocks.flatten)
    (hsize : ∀ b ∈ blocks, b.length = dataFrameSize) (hcount : blocks.length ≤ nFrame.toNat) :
    receivedWindows nFrame reads =
      blocks ++ List.replicate (nFrame.toNat - blocks.length) zeroWindow := by
  have hflat : blocks.flatten.length = blocks.length * dataFrameSize := by
    rw [List.length_flatten, List.map_congr_left hsize, List.map_const', List.sum_replicate_nat]
  have hle : blocks.length * dataFrameSize ≤ dataFrameSize * nFrame.toNat := by
    rw [Nat.mul_comm]
    exact Nat.mul_le_mul_left _ hcount
  have hgot : readLoop (dataFrameSize * nFrame.toNat) reads [] 0 = blocks.flatten := by
    rw [readLoop_steady _ _ _ _ steady, hreads, List.nil_append]
    rw [hreads, hflat, List.length_nil, Nat.zero_add]
    exact hle
  have hzeros : dataFrameSize * nFrame.toNat - blocks.flatten.length =
      (nFrame.toNat - blocks.length) * dataFrameSize := by
    rw [hflat, Nat.sub_mul, Nat.mul_comm]
  have hsplit : nFrame.toNat = blocks.length + (nFrame.toNat - blocks.length) := by omega
  have happend := windows_append hsize (nFrame.toNat - blocks.length)
    (List.replicate ((nFrame.toNat - blocks.length) * dataFrameSize) 0)
  rw [← hsplit, windows_replicate] at happend
  simp only [receivedWindows, readBuffer, hgot, hzeros]
  exact happend

theorem receivedWindows_single {w : List UInt8} {reads : List (List UInt8)}
    (hsize : w.length = dataFrameSize) (steady : Steady 0 reads) (hreads : reads.flatten = w) :
    receivedWindows 1 reads = [w] := by
  have hblocks := receivedWindows_blocks 1 [w] steady (by simpa using hreads)
    (by simpa using hsize) (Nat.le_refl 1)
  simpa using hblocks

end Soc
