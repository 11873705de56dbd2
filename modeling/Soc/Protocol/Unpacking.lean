import Soc.Protocol.Outcome

/-!
Unpacking the frames of a reception.

Three loops copy as many bytes out of a slot as its length field says: that of a dry run,
`data_frames_to_data` and, at the master, `dump_data_frames`. The field comes from the line, and
the test of a reception does not look at it.
-/
namespace Soc
open Windows Runs

/-- What the file system answers to `dump_data_frames`. -/
structure DumpAnswers where
  mkdirP : Int
  opened : Int
  write : Nat → Int
  closed : Int

/-- The loop of `dump_data_frames` from slot `i` on: the size it adds up and what it hands to
`write`. -/
def dumpLoop (write : Nat → Int) : Nat → List DataFrame → Nat → Int →
    Except Fault (Int × List (List UInt8))
  | _, _, 0, size => .ok (size, [])
  | _, [], _ + 1, _ => .error .outOfBounds
  | i, f :: fs, n + 1, size => do
    let bytes ← f.payload
    let (size, rest) ← dumpLoop write (i + 1) fs n (size + write i)
    .ok (size, bytes :: rest)

/-- `dump_data_frames` -/
def dumpDataFrames (answers : DumpAnswers) (inputDataFrames : List DataFrame) (nFrame : UInt16) :
    Except Fault (Int × List (List UInt8)) :=
  if answers.mkdirP = -1 then .ok (-1, [])
  else if answers.opened = -1 then .ok (-1, [])
  else do
    let (size, written) ← dumpLoop answers.write 0 inputDataFrames nFrame.toNat 0
    if answers.closed = -1 then .ok (-1, written) else .ok (size, written)

/-- No copy reads behind the data field of a slot, and the totals are those of full frames at
most. -/
structure Unpackable (slots : List DataFrame) : Prop where
  lens : ∀ s ∈ slots, s.dataLen.toNat ≤ frameDataLenMax
  copied : ∀ n ≤ slots.length, ∃ payload, dataFramesToData slots n = .ok payload
  dryRun : ∀ (nFrame : UInt16) (bitStream : Data8), nFrame.toNat ≤ slots.length →
    ∃ copied, processDataFrames dryRun true slots nFrame bitStream = .ok copied
  dumped : ∀ (answers : DumpAnswers) (nFrame : UInt16), nFrame.toNat ≤ slots.length →
    ∃ result, dumpDataFrames answers slots nFrame = .ok result
  total : ∀ n, dataFrameToDataLen slots n ≤ 512 * n

theorem dumpLoop_ok (write : Nat → Int) (i : Nat) {slots : List DataFrame} {n : Nat} (size : Int)
    (hn : n ≤ slots.length) (h : ∀ s ∈ slots, s.dataLen.toNat ≤ frameDataLenMax) :
    ∃ result, dumpLoop write i slots n size = .ok result := by
  induction n generalizing i slots size with
  | zero => exact ⟨_, by rw [dumpLoop]⟩
  | succ n ih =>
      cases slots with
      | nil => contradiction
      | cons s ss =>
          have hhead : s.payload = .ok (s.data.toList.take s.dataLen.toNat) :=
            if_neg (Nat.not_lt.mpr (h s List.mem_cons_self))
          obtain ⟨result, hrest⟩ := ih (i + 1) (size + write i) (Nat.le_of_succ_le_succ hn)
            (fun x hx => h x (List.mem_cons_of_mem _ hx))
          exact ⟨_, by rw [dumpLoop, hhead, ok_bind, hrest, ok_bind]⟩

theorem dataFrameToDataLen_le {slots : List DataFrame}
    (h : ∀ s ∈ slots, s.dataLen.toNat ≤ frameDataLenMax) (n : Nat) :
    dataFrameToDataLen slots n ≤ 512 * n := by
  have hlens : ∀ l ∈ (slots.take n).map fun s => s.dataLen.toNat, l ≤ 512 := by
    intro l hl
    obtain ⟨s, hs, rfl⟩ := List.mem_map.mp hl
    exact h s (List.mem_of_mem_take hs)
  have hsum := List.sum_le_card_nsmul _ 512 hlens
  rw [List.length_map, List.length_take, smul_eq_mul, Nat.mul_comm] at hsum
  exact hsum.trans (Nat.mul_le_mul_left 512 (Nat.min_le_left n _))

theorem ite_ok {α : Type} {p : Prop} [Decidable p] {x y : Except Fault α} (hx : ∃ a, x = .ok a)
    (hy : ∃ a, y = .ok a) : ∃ a, (if p then x else y) = .ok a := by
  split
  · exact hx
  · exact hy

/-- All of it comes down to the length fields. -/
theorem unpackable_iff {slots : List DataFrame} :
    Unpackable slots ↔ ∀ s ∈ slots, s.dataLen.toNat ≤ frameDataLenMax := by
  constructor
  · intro h
    exact h.lens
  · intro h
    refine ⟨h, ?_, ?_, ?_, ?_⟩
    · intro n hn
      exact dataFramesToData_ok slots hn h
    · intro nFrame bitStream hn
      obtain ⟨payload, hpayload⟩ := dataFramesToData_ok slots hn h
      exact ⟨_, by rw [processDataFrames, hpayload, ok_bind]; rfl⟩
    · intro answers nFrame hn
      obtain ⟨⟨size, written⟩, hloop⟩ := dumpLoop_ok answers.write 0 0 hn h
      rw [dumpDataFrames, hloop, ok_bind]
      exact ite_ok ⟨_, rfl⟩ (ite_ok ⟨_, rfl⟩ (ite_ok ⟨_, rfl⟩ ⟨_, rfl⟩))
    · exact dataFrameToDataLen_le h

/-- The length field of a window: bytes 18 and 19, the high byte first. -/
def lengthField (window : List UInt8) : Nat :=
  256 * (window.getD 18 0).toNat + (window.getD 19 0).toNat

/-- Two bytes read in the order of the host and swapped. -/
theorem htobe16_load (a b : UInt8) :
    (htobe16 (Layout.uint16.load [a, b])).toNat = 256 * a.toNat + b.toNat := by
  have hlt : Layout.leValue [a, b] < 256 ^ 2 := Layout.leValue_lt [a, b]
  have hload : (Layout.uint16.load [a, b]).toNat = Layout.leValue [a, b] := by
    change (BitVec.ofNat 16 (Layout.leValue [a, b])).toNat = _
    rw [BitVec.toNat_ofNat]
    exact Nat.mod_eq_of_lt hlt
  have hbytes : Layout.leBytes 2 (Layout.leValue [a, b]) = [a, b] :=
    Layout.leBytes_leValue_of_length rfl
  rw [htobe16_toNat, hload, Layout.swapBytes, hbytes]
  simp only [List.reverse_cons, List.reverse_nil, List.nil_append, List.cons_append,
    Layout.leValue]
  omega

theorem parseDataFrame_dataLen {window : List UInt8} (h : window.length = dataFrameSize) :
    (parseDataFrame window).dataLen.toNat = lengthField window := by
  have h18 : 18 < window.length := h ▸ (show 18 < 534 by decide)
  have h19 : 18 + 1 < window.length := h ▸ (show 19 < 534 by decide)
  have hfield : (window.drop 18).take 2 = [window.getD 18 0, window.getD 19 0] := by
    rw [List.drop_eq_getElem_cons h18, List.drop_eq_getElem_cons h19, List.take_succ_cons,
      List.take_succ_cons, List.take_zero, List.getD_eq_getElem _ _ h18,
      List.getD_eq_getElem _ _ h19]
  have hdrop : window.drop 18 =
      ((((((window.drop 4).drop 3).drop 1).drop 4).drop 2).drop 4) := by
    simp only [List.drop_drop]
  have hload : (DataFrame.layout.load window).dataLen =
      Layout.uint16.load ((window.drop 18).take 2) := by
    rw [hdrop]
    rfl
  change (htobe16 (DataFrame.layout.load window).dataLen).toNat = _
  rw [hload, hfield, htobe16_load, lengthField]

/-- A call of `receive_data_frames`: the frames it is told of, whether the wait ends in time, and
what the reads return. -/
structure Reception where
  nFrame : UInt16
  ready : Bool
  reads : List (List UInt8)

def Received (slots : List DataFrame) (r : Reception) (slots' : List DataFrame) : Prop :=
  ∃ sum, receiveDataFrames r.ready r.reads slots r.nFrame = .ok (sum, slots')

/-- No window that passes the test for an empty slot says that more is in use than the data
field. -/
def LengthsFit (slots : List DataFrame) (r : Reception) : Prop :=
  r.ready = true → ∀ (i : Nat) (s : DataFrame) (w : List UInt8), slots[i]? = some s →
    (receivedWindows r.nFrame r.reads)[i]? = some w → s.Empty → accepts w = true →
      lengthField w ≤ frameDataLenMax

theorem received_deterministic (slots : List DataFrame) (r : Reception)
    (slots₁ slots₂ : List DataFrame) (h₁ : Received slots r slots₁) (h₂ : Received slots r slots₂) :
    slots₁ = slots₂ := by
  obtain ⟨_, h₁⟩ := h₁
  obtain ⟨_, h₂⟩ := h₂
  exact (Prod.mk.inj (Except.ok.inj (h₁.symm.trans h₂))).2

/-- A reception keeps the slots unpackable exactly when the lengths fit. -/
theorem Received.unpackable_iff {slots slots' : List DataFrame} {r : Reception}
    (h : Received slots r slots') (hslots : Unpackable slots) :
    Unpackable slots' ↔ LengthsFit slots r := by
  obtain ⟨sum, h⟩ := h
  rw [Soc.unpackable_iff] at hslots ⊢
  cases hready : r.ready with
  | false =>
      rw [hready] at h
      obtain ⟨-, rfl⟩ := Prod.mk.inj (Except.ok.inj h)
      have hfit : LengthsFit slots r := by
        intro htrue
        rw [hready] at htrue
        contradiction
      exact iff_of_true hslots hfit
  | true =>
      rw [hready] at h
      obtain ⟨-, hlen, hfill, hrest⟩ := receiveDataFrames_slots h
      have hsize := receivedWindows_size r.nFrame r.reads
      constructor
      · intro hlens _ i s w hs hw hempty hacc
        have hfilled := hfill i s w hs hw
        rw [fill, if_pos ⟨hempty, hacc⟩] at hfilled
        rw [← parseDataFrame_dataLen (hsize w (List.mem_of_getElem? hw))]
        exact hlens _ (List.mem_of_getElem? hfilled)
      · intro hfit s' hs'
        obtain ⟨i, hs'⟩ := List.getElem?_of_mem hs'
        have hi := (List.getElem?_eq_some_iff.mp hs').1
        obtain ⟨s, hs⟩ : ∃ s, slots[i]? = some s := ⟨_, List.getElem?_eq_getElem (hlen ▸ hi)⟩
        by_cases hwithin : i < r.nFrame.toNat
        · obtain ⟨w, hw⟩ : ∃ w, (receivedWindows r.nFrame r.reads)[i]? = some w :=
            ⟨_, List.getElem?_eq_getElem (by rwa [receivedWindows_length])⟩
          obtain rfl := Option.some.inj (hs'.symm.trans (hfill i s w hs hw))
          rw [fill]
          split
          · next hfilled =>
            rw [parseDataFrame_dataLen (hsize w (List.mem_of_getElem? hw))]
            exact hfit hready i s w hs hw hfilled.1 hfilled.2
          · exact hslots s (List.mem_of_getElem? hs)
        · rw [hrest i (Nat.not_lt.mp hwithin)] at hs'
          exact hslots s' (List.mem_of_getElem? hs')

/-- From the allocation of a block on, its slots can be unpacked after every reception exactly when
every accepted window has a length of at most 512. -/
theorem accepted_unpackable_iff {count : Nat} {rs : List Reception} {slots : List DataFrame}
    (hrun : Run Received (List.replicate count zeroFrame) rs slots) :
    Throughout Received Unpackable (List.replicate count zeroFrame) rs ↔
      EveryStep Received LengthsFit (List.replicate count zeroFrame) rs := by
  have hinit : Unpackable (List.replicate count zeroFrame) := by
    rw [unpackable_iff]
    intro s hs
    rw [List.eq_of_mem_replicate hs]
    exact Nat.zero_le _
  exact throughout_iff_everyStep (I := fun _ => True) received_deterministic
    (fun _ _ _ _ _ => trivial) (fun _ _ _ _ hslots hstep => hstep.unpackable_iff hslots) hrun
    trivial hinit

/-- The reception of one frame that arrives. -/
def receptionOf (f : DataFrame) : Reception :=
  { nFrame := 1, ready := true, reads := [writeDataFrame f] }

theorem receptionOf_window (f : DataFrame) :
    receivedWindows (receptionOf f).nFrame (receptionOf f).reads = [writeDataFrame f] :=
  receivedWindows_single (writeDataFrame_length f) (steady_single (writeDataFrame_length f))
    (List.append_nil _)

theorem receptionOf_received {f : DataFrame} (h : f.header = tpHeader) :
    Received [zeroFrame] (receptionOf f) [f.signed] := by
  have hone : (receptionOf f).nFrame.toNat ≤ [zeroFrame].length := Nat.le_refl 1
  have hfill : fill zeroFrame (writeDataFrame f) = f.signed := by
    rw [fill, if_pos ⟨rfl, (accepts_writeDataFrame f).mpr h⟩, parse_writeDataFrame]
  have hrun := receiveDataFrames_ok hone (receptionOf f).reads
  rw [receptionOf_window, List.zipWith_cons_cons, hfill] at hrun
  exact ⟨_, hrun⟩

theorem accepted_unpackable_full :
    Throughout Received Unpackable [zeroFrame] [receptionOf (fullFrame 0 7)] := by
  have hrun : Run Received (List.replicate 1 zeroFrame) [receptionOf (fullFrame 0 7)]
      [(fullFrame 0 7).signed] := .cons (receptionOf_received rfl) (.nil _)
  refine (accepted_unpackable_iff hrun).mpr ?_
  refine everyStep_cons.mpr ⟨?_, fun _ _ => everyStep_nil⟩
  intro _ i s w _ hw _ _
  rw [receptionOf_window] at hw
  have hw := List.mem_singleton.mp (List.mem_of_getElem? hw)
  rw [hw, ← parseDataFrame_dataLen (writeDataFrame_length _), parse_writeDataFrame]
  exact Nat.le_refl 512

/-- A frame whose length field says one byte more than there is. -/
def overlongFrame : DataFrame := { fullFrame 0 7 with dataLen := 513 }

/-- It is accepted, and each of the copies reads behind its data field. -/
theorem accepted_overlong :
    Run Received [zeroFrame] [receptionOf overlongFrame] [overlongFrame.signed] ∧
      dataFramesToData [overlongFrame.signed] 1 = .error .outOfBounds ∧
      dumpDataFrames ⟨0, 3, fun _ => 513, 0⟩ [overlongFrame.signed] 1 = .error .outOfBounds ∧
      512 * 1 < dataFrameToDataLen [overlongFrame.signed] 1 ∧
      ¬ Throughout Received Unpackable [zeroFrame] [receptionOf overlongFrame] := by
  have hrun : Run Received [zeroFrame] [receptionOf overlongFrame] [overlongFrame.signed] :=
    .cons (receptionOf_received rfl) (.nil _)
  have hlen : overlongFrame.signed.dataLen = 513 := rfl
  have hpayload : overlongFrame.signed.payload = .error .outOfBounds := by
    rw [DataFrame.payload, hlen]
    rfl
  refine ⟨hrun, ?_, ?_, ?_, ?_⟩
  · rw [dataFramesToData, hpayload, error_bind]
  · have hloop : dumpLoop (fun _ => 513) 0 [overlongFrame.signed] (UInt16.toNat 1) 0 =
        .error .outOfBounds := by
      change (overlongFrame.signed.payload >>= _) = _
      rw [hpayload, error_bind]
    rw [dumpDataFrames, if_neg (by decide), if_neg (by decide), hloop, error_bind]
  · change 512 < 513 + 0
    decide
  · intro h
    have hlens := (h _ [] _ (List.append_nil _).symm hrun).lens _ (List.mem_singleton_self _)
    rw [hlen] at hlens
    contradiction

end Soc
