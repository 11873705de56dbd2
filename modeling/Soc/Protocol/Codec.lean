import Soc.Protocol.Transfer

/-!
Writing and receiving as inverses of each other.

What was written is received as it was, and what is received would be written
as it came; a check sum that a sender was given is lost, for it is computed anew.
-/
namespace Soc
open Windows

/-! A frame that passed its test carries the check sum it would be written with. -/

theorem Frame.load_signed {w : List UInt8} (hsize : w.length = frameSize)
    (hsum : crc16 (w.take (frameSize - 2)) = (Frame.layout.load w).checkSum) :
    (Frame.layout.load w).swapped.signed = (Frame.layout.load w).swapped := by
  have hbody : (Frame.layout.load w).body = w.take (frameSize - 2) := by
    rw [← Frame.take_store, Frame.layout.store_load w hsize]
  rw [Frame.signed, Frame.swapped_swapped, hbody, hsum]
  rfl

theorem DataFrame.load_signed {w : List UInt8} (hsize : w.length = dataFrameSize)
    (hsum : crc16 (w.take (dataFrameSize - 2)) = (DataFrame.layout.load w).checkSum) :
    (DataFrame.layout.load w).swapped.signed = (DataFrame.layout.load w).swapped := by
  have hbody : (DataFrame.layout.load w).body = w.take (dataFrameSize - 2) := by
    rw [← DataFrame.take_store, DataFrame.layout.store_load w hsize]
  rw [DataFrame.signed, DataFrame.swapped_swapped, hbody, hsum]
  rfl

theorem writeFrame_received {w : List UInt8} {f g : Frame} {n : Int} (hsize : w.length = frameSize)
    (h : receiveFrame true (some w) g = .ok (n, f)) (hn : 0 < n) : writeFrame f = w := by
  have hlong : ¬ w.length < frameSize := by omega
  simp only [receiveFrame, if_true, if_neg hlong] at h
  by_cases hsum : crc16 (w.take (frameSize - 2)) = (Frame.layout.load w).checkSum
  · rw [if_neg (not_not.mpr hsum)] at h
    obtain ⟨-, rfl⟩ := Prod.mk.inj (Except.ok.inj h)
    rw [writeFrame_eq, Frame.load_signed hsize hsum, Frame.swapped_swapped,
      Frame.layout.store_load w hsize]
  · rw [if_pos hsum] at h
    obtain ⟨rfl, -⟩ := Prod.mk.inj (Except.ok.inj h)
    contradiction

theorem writeDataFrame_parse {w : List UInt8} (hsize : w.length = dataFrameSize)
    (h : accepts w = true) : writeDataFrame (parseDataFrame w) = w := by
  simp only [accepts, decide_eq_true_eq] at h
  rw [writeDataFrame_eq, parseDataFrame, DataFrame.load_signed hsize h.2,
    DataFrame.swapped_swapped, DataFrame.layout.store_load w hsize]

/-! One window on its own. -/

theorem receive_single {s : DataFrame} {w : List UInt8} {reads : List (List UInt8)}
    (hempty : s.Empty) (hsize : w.length = dataFrameSize) (steady : Steady 0 reads)
    (hreads : reads.flatten = w) : receiveDataFrames true reads [s] 1 =
      if accepts w then .ok (0, [parseDataFrame w]) else .ok (1, [s]) := by
  have hcount : (1 : UInt16).toNat ≤ [s].length := Nat.le_refl 1
  rw [receiveDataFrames_ok hcount, countMissed, receivedWindows_single hsize steady hreads]
  cases hacc : accepts w <;> simp [fill, missed, hempty, hacc]

/-- The codecs are inverse to each other: control frames, one data frame on its
own, and any window of a larger reception. -/
theorem codecs_inverse :
    (∀ f g : Frame, receiveFrame true (some (writeFrame f)) g =
      .ok (12, { f with checkSum := crc16 ((writeFrame f).take 10) })) ∧
    (∀ (w : List UInt8) (f g : Frame) (n : Int), w.length = 12 →
      receiveFrame true (some w) g = .ok (n, f) → 0 < n → writeFrame f = w) ∧
    (∀ (f s : DataFrame) (reads : List (List UInt8)), f.header = tpHeader → s.Empty →
      Steady 0 reads → reads.flatten = writeDataFrame f →
      receiveDataFrames true reads [s] 1 =
        .ok (0, [{ f with checkSum := crc16 ((writeDataFrame f).take 532) }])) ∧
    (∀ (w : List UInt8) (s s' : DataFrame) (reads : List (List UInt8)), w.length = 534 →
      s.Empty → Steady 0 reads → reads.flatten = w →
      receiveDataFrames true reads [s] 1 = .ok (0, [s']) → writeDataFrame s' = w) ∧
    ∀ (slots slots' : List DataFrame) (nFrame sum : UInt16) (reads : List (List UInt8)) (i : Nat)
      (s : DataFrame) (w : List UInt8),
      receiveDataFrames true reads slots nFrame = .ok (sum, slots') →
      slots[i]? = some s → s.Empty → (receivedWindows nFrame reads)[i]? = some w →
      (∀ f : DataFrame, f.header = tpHeader → w = writeDataFrame f →
        slots'[i]? = some { f with checkSum := crc16 (w.take 532) }) ∧
      (accepts w = true → ∃ s', slots'[i]? = some s' ∧ writeDataFrame s' = w) := by
  have hframe (f : Frame) : (writeFrame f).take 10 = f.swapped.body := by
    rw [writeFrame_eq]
    exact Frame.take_store _
  have hdata (f : DataFrame) : (writeDataFrame f).take 532 = f.swapped.body := by
    rw [writeDataFrame_eq]
    exact DataFrame.take_store _
  refine ⟨?_, ?_, ?_, ?_, ?_⟩
  · intro f g
    rw [receiveFrame_writeFrame, hframe]
    rfl
  · intro w f g n hsize h hn
    exact writeFrame_received hsize h hn
  · intro f s reads hheader hempty steady hreads
    rw [receive_single hempty (writeDataFrame_length f) steady hreads,
      if_pos ((accepts_writeDataFrame f).mpr hheader), parse_writeDataFrame, hdata]
    rfl
  · intro w s s' reads hsize hempty steady hreads h
    rw [receive_single hempty hsize steady hreads] at h
    cases hacc : accepts w with
    | true =>
        rw [hacc, if_pos rfl] at h
        obtain ⟨-, hslots⟩ := Prod.mk.inj (Except.ok.inj h)
        obtain ⟨rfl, -⟩ := List.cons.inj hslots
        exact writeDataFrame_parse hsize hacc
    | false =>
        rw [hacc, if_neg (by decide)] at h
        exact absurd (Prod.mk.inj (Except.ok.inj h)).1 (by decide)
  · intro slots slots' nFrame sum reads i s w h hs hempty hw
    obtain ⟨-, -, hslot, -⟩ := receiveDataFrames_slots h
    have hfill := hslot i s w hs hw
    have hsize := receivedWindows_size nFrame reads w (List.mem_of_getElem? hw)
    constructor
    · rintro f hheader rfl
      rw [fill, if_pos ⟨hempty, (accepts_writeDataFrame f).mpr hheader⟩,
        parse_writeDataFrame] at hfill
      rw [hfill, hdata]
      rfl
    · intro hacc
      rw [fill, if_pos ⟨hempty, hacc⟩] at hfill
      exact ⟨_, hfill, writeDataFrame_parse hsize hacc⟩

end Soc
