import Soc.Driver.Bursts

/-!
Which requests the kernel can carry out to their end.

No field of a transaction is tested. A burst of no bytes never brings the loop
nearer to its end; the numbers of beats and of bytes are two fields that need not
go together; and the last few sizes below 2 ^ 32 are rounded up to zero.
-/
namespace Soc
open Loops

/-- The burst of this turn has a beat, and its bytes are 16 a beat. -/
def BurstLoop.Counted (j : BurstLoop) : Prop :=
  1 ≤ j.locals.last.burstSize.toNat ∧
    16 * j.locals.last.burstSize.toNat = j.locals.last.burstData.toNat

/-- The loop ends, and every burst it programs is counted. -/
def BurstLoop.Sound (j : BurstLoop) : Prop :=
  (∃ n, Ends BurstLoop.turn n j) ∧ EveryTurn BurstLoop.turn BurstLoop.Counted j

/-- What no code tests, of the low 32 bits of the three fields: nothing is to be
transferred, or a burst has bytes, 16 a beat if it is used at all, and else what is
transferred can be rounded up. -/
def Request.WellSized (request : Request) (trans : Transaction) : Prop :=
  let size := (request.dataSize trans).toUInt32.toNat
  let burstSize := trans.burstSize.toUInt32.toNat
  let burstData := trans.burstData.toUInt32.toNat
  size = 0 ∨ 0 < burstData ∧
    if burstData ≤ size then 16 * burstSize = burstData else size ≤ 2 ^ 32 - 16

namespace BurstLoop
variable {j : BurstLoop}

theorem counted_full (h : j.locals.burstData ≠ 0)
    (hle : j.locals.burstData ≤ j.locals.dataRemaining) :
    j.Counted ↔ 16 * j.locals.burstSize.toNat = j.locals.burstData.toNat := by
  have hlast : j.locals.last = j.locals := if_neg (UInt32.not_lt.mpr hle)
  have hpos := burstData_pos h
  rw [Counted, hlast]
  omega

theorem counted_tail (h : j.locals.dataRemaining ≠ 0)
    (hlt : j.locals.dataRemaining < j.locals.burstData) :
    j.Counted ↔ j.locals.dataRemaining.toNat ≤ 2 ^ 32 - 16 := by
  have hsize : j.locals.last.burstSize = alignUp16 j.locals.dataRemaining >>> 4 := by
    rw [Locals.last, if_pos hlt]
  have hdata : j.locals.last.burstData = alignUp16 j.locals.dataRemaining := by
    rw [Locals.last, if_pos hlt]
  have hbound := j.locals.dataRemaining.toNat_lt
  have hpos := mt toNat_eq_zero.mp h
  rw [Counted, hsize, hdata, alignUp16_beats, alignUp16_toNat]
  omega

/-- Whether all bursts are counted shows at the first turn. -/
theorem everyTurn_counted (h : j.locals.burstData ≠ 0) :
    EveryTurn turn Counted j ↔ j.locals.dataRemaining.toNat = 0 ∨
      if j.locals.burstData.toNat ≤ j.locals.dataRemaining.toNat then
        16 * j.locals.burstSize.toNat = j.locals.burstData.toNat
      else j.locals.dataRemaining.toNat ≤ 2 ^ 32 - 16 := by
  induction j, h using full_rule with
  | tail j hdata hlt =>
      rw [if_neg (Nat.not_le.mpr (UInt32.lt_iff_toNat_lt.mp hlt))]
      by_cases hdone : j.locals.dataRemaining = 0
      · exact iff_of_true (everyTurn_none (turn_done hdone)) (.inl (toNat_eq_zero.mpr hdone))
      · obtain ⟨j', hturn, hend⟩ := turn_tail hdone hlt
        rw [everyTurn_some hturn, and_iff_left (everyTurn_none hend), counted_tail hdone hlt,
          or_iff_right (mt toNat_eq_zero.mp hdone)]
  | step j hdata hmore hle ih =>
      have hpos := burstData_pos hdata
      have hbound := j.locals.dataRemaining.toNat_lt
      have hle' := UInt32.le_iff_toNat_le.mp hle
      rw [everyTurn_some (turn_full hmore hle), counted_full hdata hle, ih,
        afterFull_remaining hle, if_pos hle', or_iff_right (mt toNat_eq_zero.mp hmore)]
      -- what is left after a full burst is too little to be rounded up past the end
      constructor
      · exact And.left
      · intro hcounted
        refine ⟨hcounted, ?_⟩
        have hsize : j.afterFull.locals.burstSize = j.locals.burstSize := rfl
        have hsame : j.afterFull.locals.burstData = j.locals.burstData := rfl
        rw [hsize, hsame]
        split
        · exact .inr hcounted
        · right
          omega

end BurstLoop

/-- A request is carried out soundly exactly when its low 32 bits are well sized. -/
theorem bursts_sound_iff (addrList : List Allocation) (trans : Transaction) (request : Request) :
    (axitangxiIoctl addrList trans request).1.Sound ↔ request.WellSized trans := by
  simp only [axitangxiIoctl_loop, BurstLoop.Sound, BurstLoop.ends_iff, exists_and_left,
    exists_eq, and_true]
  have hsize : (request.loop addrList trans).locals.dataRemaining =
      (request.dataSize trans).toUInt32 := rfl
  have hdata : (request.loop addrList trans).locals.burstData = trans.burstData.toUInt32 := rfl
  have hburst : (request.loop addrList trans).locals.burstSize = trans.burstSize.toUInt32 := rfl
  rw [Request.WellSized, ← hsize, ← hdata, ← hburst]
  generalize request.loop addrList trans = j
  by_cases hzero : j.locals.burstData = 0
  · rw [or_iff_left (not_not_intro hzero), toNat_eq_zero, toNat_eq_zero.mpr hzero]
    constructor
    · intro ⟨hdone, _⟩
      exact .inl hdone
    · rintro (hdone | ⟨hpos, _⟩)
      · exact ⟨hdone, everyTurn_none (BurstLoop.turn_done hdone)⟩
      · exact absurd hpos (Nat.lt_irrefl 0)
  · rw [and_iff_right (.inr hzero), BurstLoop.everyTurn_counted hzero,
      and_iff_right (BurstLoop.burstData_pos hzero)]

/-- A transaction whose bursts have no bytes. -/
def stuckTrans : Transaction := { initTrans 0 0 16 with burstData := 0 }

theorem bursts_endless : ¬ (axitangxiIoctl [] stuckTrans .psddrToPlddr).1.Sound := by
  intro ⟨⟨n, hends⟩, _⟩
  obtain ⟨hdone | hdata, _⟩ := BurstLoop.ends_iff.mp hends
  · exact absurd hdone (by decide)
  · exact absurd rfl hdata

end Soc
