import Soc.Foundation.Counters
import Soc.Protocol.Outcome

/-!
The number of frames, as it is announced, allocated and filled.

All three come from the length of the data, but the number in the reply and in the allocation
has sixteen bits, the bound of the filling loop is a `size_t`, and its counter has sixteen bits
again.
-/
namespace Soc
open Loops

/-- `n_frame - 1` in `data_to_data_frames`. Below zero a `size_t` wraps. -/
def fillBound (len : Nat) : Nat := if countFrames len = 0 then 2 ^ 64 - 1 else countFrames len - 1

/-- `for (; i < n_frame - 1; i++)`. A turn fills the frame at `i`. -/
def fillTurn (len : Nat) : Nat → Option (Nat × Nat) := counted (2 ^ 16) (fillBound len)

/-- The frames filled in `n` turns and, with what is left, after them. -/
def filled (len n : Nat) : List Nat := outputs (fillTurn len) n 0 ++ [after (fillTurn len) n 0]

theorem fillBound_eq {len : Nat} (lo : 1 ≤ len) : fillBound len + 1 = countFrames len := by
  have hpos := (countFrames_pos lo).1
  rw [fillBound, if_neg (Nat.ne_of_gt hpos)]
  omega

/-- What `dataToDataFrames` tests before it packs is whether its loop ends. -/
theorem fillTurn_ends_iff (len : Nat) :
    (∃ n, Ends (fillTurn len) n 0) ↔ ¬(len = 0 ∨ 65536 < countFrames len) := by
  rw [fillTurn, counted_ends_iff (by omega)]
  by_cases hzero : len = 0
  · subst hzero
    simp [fillBound, countFrames]
  · have hbound := fillBound_eq (Nat.pos_of_ne_zero hzero)
    omega

theorem filled_eq {len : Nat} (lo : 1 ≤ len) (hi : len ≤ 65536 * frameDataLenMax) :
    Ends (fillTurn len) (fillBound len) 0 ∧
      filled len (fillBound len) = List.range (countFrames len) := by
  have hmax := frameDataLenMax_eq
  obtain ⟨-, hlast, -⟩ := countFrames_pos lo
  have hcount := fillBound_eq lo
  rw [hmax] at hlast hi
  obtain ⟨hends, houts, hafter⟩ :=
    counted_run (show fillBound len < 2 ^ 16 by omega) (fillBound len) (Nat.zero_add _)
  refine ⟨hends, ?_⟩
  rw [filled, fillTurn, houts, hafter, ← hcount, List.range_succ, List.range_eq_range']

/-- The frames of an answer: as many are filled as were announced and allocated, and they hold
the whole bit stream. -/
structure Slave.Frames (s : Slave) (f : Frame) (bitStream : Data8) : Prop where
  ends : ∃ n, Ends (fillTurn bitStream.len) n 0 ∧
    (filled bitStream.len n).length = (s.recvReply f bitStream).nFrame.toNat ∧
      ∀ i ∈ filled bitStream.len n, i < (s.recvReply f bitStream).nFrame.toNat
  inside : ∀ h, ∃ frames, s.framed f (some h) bitStream = .ok (some frames) ∧
    frames.length = (s.recvReply f bitStream).nFrame.toNat
  covers : bitStream.len ≤ (s.recvReply f bitStream).nFrame.toNat * 512

theorem countFrames_covers (len : Nat) : len ≤ countFrames len * 512 := by
  rw [countFrames_eq]
  omega

/-- Sixteen bits announce no more than 65535 frames. -/
theorem announced_le (n : UInt16) : n.toNat * 512 ≤ 65535 * 512 :=
  Nat.mul_le_mul_right 512 (Nat.le_of_lt_succ n.toNat_lt)

theorem Slave.frames_iff (s : Slave) (f : Frame) {bitStream : Data8} (lo : 1 ≤ bitStream.len) :
    s.Frames f bitStream ↔ bitStream.len ≤ 65535 * 512 := by
  have hmax := frameDataLenMax_eq
  constructor
  · intro h
    exact h.covers.trans (announced_le _)
  · intro hi
    obtain ⟨hends, hfilled⟩ := filled_eq lo (by omega)
    have hcount := s.framed_count f hi
    refine ⟨⟨_, hends, ?_, ?_⟩, fun h => ?_, ?_⟩
    · rw [hfilled, List.length_range, hcount]
    · intro i hmem
      rw [hfilled, List.mem_range] at hmem
      rwa [hcount]
    · rw [hcount]
      exact s.framed_some f h lo hi
    · rw [hcount]
      exact countFrames_covers bitStream.len

/-- `*n_frame` in `get_data_frames`. -/
def fileFrames (size : Nat) : UInt16 := UInt16.ofNat (countFrames size)

theorem getDataFrames_count {block : Option (List DataFrame)} {content : List UInt8}
    {nFile : UInt32} {n : UInt16} {frames : Option (List DataFrame)}
    (h : getDataFrames block content nFile = .ok (n, frames)) :
    n = fileFrames content.length := by
  obtain ⟨frames', -, h⟩ := bind_ok h
  exact (Prod.mk.inj (Except.ok.inj h)).1.symm

theorem fileFrames_cover_iff (size : Nat) :
    size ≤ (fileFrames size).toNat * 512 ↔ size ≤ 65535 * 512 := by
  have hcount := countFrames_eq size
  constructor
  · intro h
    exact h.trans (announced_le _)
  · intro h
    rw [fileFrames, UInt16.toNat_ofNat', Nat.mod_eq_of_lt (by omega)]
    exact countFrames_covers size

/-- Neither count truncates up to 65535 frames, and both do from there on. -/
theorem framing_complete_iff (s : Slave) (f : Frame) {bitStream : Data8}
    (lo : 1 ≤ bitStream.len) :
    (s.Frames f bitStream ↔ bitStream.len ≤ 65535 * 512) ∧
      ∀ size, size ≤ (fileFrames size).toNat * 512 ↔ size ≤ 65535 * 512 :=
  ⟨s.frames_iff f lo, fileFrames_cover_iff⟩

theorem framing_complete_byte :
    (Slave.init.Frames {} ⟨some [7], 1, by decide⟩ ↔ 1 ≤ 65535 * 512) ∧
      ∀ size, size ≤ (fileFrames size).toNat * 512 ↔ size ≤ 65535 * 512 :=
  framing_complete_iff Slave.init {} (by decide)

/-- One byte more than 65535 full frames. -/
def overlong : Data8 :=
  ⟨some (List.replicate (65535 * 512 + 1) 0), 65535 * 512 + 1, by
    rw [Option.getD_some, List.length_replicate]⟩

theorem countFrames_overlong : countFrames (65535 * 512 + 1) = 65536 := by
  rw [countFrames_eq]

/-- No frame is announced or allocated, and the loop ends with the frame at 65535 filled. -/
theorem framing_truncates :
    (Slave.init.recvReply {} overlong).nFrame = 0 ∧ Ends (fillTurn overlong.len) 65535 0 ∧
      65535 ∈ filled overlong.len 65535 ∧ ¬Slave.init.Frames {} overlong ∧
      ¬65535 * 512 + 1 ≤ (fileFrames (65535 * 512 + 1)).toNat * 512 := by
  have hmax := frameDataLenMax_eq
  have hlen : overlong.len = 65535 * 512 + 1 := rfl
  have hnone : (Slave.init.recvReply {} overlong).nFrame = 0 := by
    rw [Slave.recvReply, hlen, countFrames_overlong]
    rfl
  have hcount := fillBound_eq (show 1 ≤ overlong.len by omega)
  rw [hlen, countFrames_overlong] at hcount
  obtain ⟨hends, hfilled⟩ := filled_eq (show 1 ≤ overlong.len by omega) (by omega)
  rw [hlen, show fillBound (65535 * 512 + 1) = 65535 by omega] at hends hfilled
  refine ⟨hnone, hends, ?_, ?_, ?_⟩
  · rw [hlen, hfilled, countFrames_overlong, List.mem_range]
    omega
  · rw [Slave.frames_iff _ _ (by omega), hlen]
    omega
  · rw [fileFrames_cover_iff]
    omega

end Soc
