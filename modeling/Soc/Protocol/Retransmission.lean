import Soc.Protocol.Loss

/-!
Receiving the same frames again and again into one array of slots.

Every call receives what it can: a slot whose window arrived whole is filled and
kept, and the result counts the slots that are still empty. The sender numbers
frames anew each time it sends them, so a slot holds its frame as it was sent in
the call that filled it.
-/
namespace Soc
open Windows

/-! The read loop. -/

/-- `count` after some reads. -/
def failureCount : Nat → List (List UInt8) → Nat
  | count, [] => count
  | count, r :: rs => failureCount (if r.isEmpty then count + 1 else 0) rs

theorem readLoop_prefix (len : Nat) (reads : List (List UInt8)) (got : List UInt8) (count : Nat)
    (hfits : got.length + reads.flatten.length ≤ len) :
    ∃ k ≤ reads.length, readLoop len reads got count = got ++ (reads.take k).flatten ∧
      (k = reads.length ∨ (got ++ (reads.take k).flatten).length = len ∨
        readCount ≤ failureCount count (reads.take k)) := by
  induction reads generalizing got count with
  | nil => exact ⟨0, Nat.le_refl 0, by simp [readLoop], .inl rfl⟩
  | cons r rs ih =>
      rw [List.flatten_cons, List.length_append] at hfits
      have htake : r.take (len - got.length) = r := List.take_of_length_le (by omega)
      have hnext := ih (got ++ r) (if r.isEmpty then count + 1 else 0)
        (by rw [List.length_append]; omega)
      have hcount : ∀ k, failureCount count ((r :: rs).take (k + 1)) =
          failureCount (if r.isEmpty then count + 1 else 0) (rs.take k) := fun _ => rfl
      rw [readLoop, htake]
      generalize (if r.isEmpty then count + 1 else 0) = next at hnext hcount ⊢
      by_cases hgo : (got ++ r).length < len ∧ next < readCount
      · obtain ⟨k, hk, heq, hstop⟩ := hnext
        refine ⟨k + 1, by simpa using hk, ?_, ?_⟩
        · rw [if_pos hgo, heq, List.take_succ_cons, List.flatten_cons, List.append_assoc]
        · rw [hcount, List.take_succ_cons, List.flatten_cons, ← List.append_assoc,
            List.length_cons, Nat.add_right_cancel_iff]
          exact hstop
      · have hflat : ((r :: rs).take 1).flatten = r := by simp
        refine ⟨1, by simp, by rw [if_neg hgo, hflat], .inr ?_⟩
        rw [hcount, hflat, List.take_zero, failureCount]
        rw [List.length_append] at hgo ⊢
        omega

/-! One call. -/

/-- What one call is offered: the frames as they are sent this time, and what
the reads return. -/
structure Call where
  frames : List DataFrame
  reads : List (List UInt8)

/-- The frames are the sent ones, no read returns more than it was asked for,
and every window is its frame or fails the test. -/
structure Call.Of (sent : List DataFrame) (nFrame : UInt16) (c : Call) : Prop where
  same : c.frames.map DataFrame.uncounted = sent.map DataFrame.uncounted
  fits : c.reads.flatten.length ≤ dataFrameSize * nFrame.toNat
  windows : ∀ (i : Nat) (f : DataFrame) (w : List UInt8), c.frames[i]? = some f →
    (receivedWindows nFrame c.reads)[i]? = some w → w = writeDataFrame f ∨ accepts w = false

/-- Calls on the same slots. -/
def receiveCalls (nFrame : UInt16) : List DataFrame → List Call → Except Fault (List DataFrame)
  | slots, [] => .ok slots
  | slots, c :: cs => do
    let (_, slots) ← receiveDataFrames true c.reads slots nFrame
    receiveCalls nFrame slots cs

/-- The frames of one file: with header and data. -/
structure Sendable (nFrame : UInt16) (sent : List DataFrame) : Prop where
  length : sent.length = nFrame.toNat
  header : ∀ f ∈ sent, f.header = tpHeader
  nonempty : ∀ f ∈ sent, ¬ f.Empty

/-- Every slot is empty or holds its frame as one of the calls sent it. -/
def Collected (nFrame : UInt16) (calls : List Call) (slots : List DataFrame) : Prop :=
  slots.length = nFrame.toNat ∧ ∀ (i : Nat) (s : DataFrame), slots[i]? = some s → ¬ s.Empty →
    ∃ c ∈ calls, ∃ f, c.frames[i]? = some f ∧ s = f.signed

section Calls
variable {nFrame : UInt16} {sent : List DataFrame}

theorem Call.Of.frame {c : Call} (h : c.Of sent nFrame) {i : Nat} {f : DataFrame}
    (hf : c.frames[i]? = some f) : ∃ g, sent[i]? = some g ∧ f.uncounted = g.uncounted :=
  uncounted_frame h.same hf

theorem Call.Of.length {c : Call} (h : c.Of sent nFrame) : c.frames.length = sent.length := by
  simpa using congrArg List.length h.same

theorem Call.Of.sendable {c : Call} (h : c.Of sent nFrame) (hsent : Sendable nFrame sent) {i : Nat}
    {f : DataFrame} (hf : c.frames[i]? = some f) : f.header = tpHeader ∧ ¬ f.Empty := by
  obtain ⟨g, hg, heq⟩ := h.frame hf
  obtain ⟨hheader, hdata⟩ := uncounted_fields heq
  have hmem := List.mem_of_getElem? hg
  refine ⟨hheader.trans (hsent.header g hmem), ?_⟩
  rw [DataFrame.Empty, hdata]
  exact hsent.nonempty g hmem

theorem Call.Of.fill {c : Call} (h : c.Of sent nFrame) (hsent : Sendable nFrame sent) {i : Nat}
    {s f : DataFrame} {w : List UInt8} (hf : c.frames[i]? = some f)
    (hw : (receivedWindows nFrame c.reads)[i]? = some w) :
    (¬ (fill s w).Empty ↔ ¬ s.Empty ∨ w = writeDataFrame f) ∧ (¬ s.Empty → fill s w = s) ∧
      (s.Empty → ¬ (fill s w).Empty → fill s w = f.signed) ∧
      (missed (s, w) = true ↔ (fill s w).Empty) := by
  obtain ⟨hheader, hdata⟩ := h.sendable hsent hf
  have hsigned : ¬ f.signed.Empty := hdata
  have hwritten : accepts (writeDataFrame f) = true := (accepts_writeDataFrame f).mpr hheader
  rcases h.windows i f w hf hw with rfl | hbad
  · by_cases hempty : s.Empty <;>
      simp [Soc.fill, missed, hempty, hwritten, parse_writeDataFrame, hsigned]
  · have hne : w ≠ writeDataFrame f := by
      rintro rfl
      rw [hwritten] at hbad
      contradiction
    by_cases hempty : s.Empty <;> simp [Soc.fill, missed, hempty, hbad, hne]

/-- One call on slots that hold what earlier calls collected. -/
theorem receive_collected (hsent : Sendable nFrame sent) {calls : List Call} {call : Call}
    (hcall : call.Of sent nFrame) {before : List DataFrame}
    (h : Collected nFrame calls before) :
    ∃ sum after, receiveDataFrames true call.reads before nFrame = .ok (sum, after) ∧
      after = List.zipWith fill before (receivedWindows nFrame call.reads) ∧
      sum.toNat = after.countP (fun s => decide s.Empty) ∧
      Collected nFrame (calls ++ [call]) after := by
  have hlen : (receivedWindows nFrame call.reads).length = before.length := by
    rw [receivedWindows_length, h.1]
  have hrun := receiveDataFrames_ok (Nat.le_of_eq h.1.symm) call.reads
  rw [List.drop_of_length_le (Nat.le_of_eq h.1), List.append_nil] at hrun
  have hframes : call.frames.length = before.length := by
    rw [hcall.length, hsent.length, h.1]
  refine ⟨_, _, hrun, rfl, ?_, ?_, ?_⟩
  · rw [countMissed_toNat, countMissed, ← List.map_uncurry_zip_eq_zipWith, List.countP_map]
    apply List.countP_congr
    rintro ⟨s, w⟩ hpair
    obtain ⟨i, hi⟩ := List.mem_iff_getElem?.mp hpair
    obtain ⟨hs, hw⟩ := List.getElem?_zip_eq_some.mp hi
    have hlt := (List.getElem?_eq_some_iff.mp hs).1
    have hf : call.frames[i]? = some call.frames[i] := List.getElem?_eq_getElem (by omega)
    rw [Function.comp_apply, Function.uncurry_apply_pair, decide_eq_true_eq]
    exact (hcall.fill hsent hf hw).2.2.2
  · rw [List.length_zipWith, hlen, Nat.min_self, h.1]
  · intro i a ha hfull
    rw [List.getElem?_zipWith] at ha
    cases hs : before[i]? with
    | none => simp [hs] at ha
    | some s =>
        cases hw : (receivedWindows nFrame call.reads)[i]? with
        | none => simp [hs, hw] at ha
        | some w =>
            obtain rfl : fill s w = a := by simpa [hs, hw] using ha
            have hlt := (List.getElem?_eq_some_iff.mp hs).1
            have hf : call.frames[i]? = some call.frames[i] :=
              List.getElem?_eq_getElem (by omega)
            obtain ⟨-, hkept, hnew, -⟩ := hcall.fill hsent (s := s) hf hw
            by_cases hempty : s.Empty
            · exact ⟨call, by simp, _, hf, hnew hempty hfull⟩
            · obtain ⟨c, hc, f, hcf, heq⟩ := h.2 i s hs hempty
              exact ⟨c, List.mem_append_left _ hc, f, hcf, (hkept hempty).trans heq⟩

theorem receiveCalls_collected (hsent : Sendable nFrame sent) (calls : List Call)
    (hcalls : ∀ c ∈ calls, c.Of sent nFrame) {earlier : List Call} {slots : List DataFrame}
    (h : Collected nFrame earlier slots) :
    ∃ after, receiveCalls nFrame slots calls = .ok after ∧
      Collected nFrame (earlier ++ calls) after := by
  induction calls generalizing earlier slots with
  | nil => exact ⟨slots, rfl, by rwa [List.append_nil]⟩
  | cons c cs ih =>
      obtain ⟨sum, next, hrun, -, -, hnext⟩ :=
        receive_collected hsent (hcalls c List.mem_cons_self) h
      obtain ⟨after, hrest, hafter⟩ := ih (fun x hx => hcalls x (List.mem_cons_of_mem _ hx)) hnext
      refine ⟨after, ?_, by rwa [List.append_assoc] at hafter⟩
      rw [receiveCalls, hrun]
      exact hrest

/-- After any calls one more call ends with what its reads returned, in order,
fills the slots whose window is their frame and no others, leaves full slots
alone and counts the empty ones; with none left the slots hold the sent frames. -/
theorem retransmission_accumulates (hsent : Sendable nFrame sent) {slots : List DataFrame}
    (hslots : slots.length = nFrame.toNat) (hempty : ∀ s ∈ slots, s.Empty) (calls : List Call)
    (hcalls : ∀ c ∈ calls, c.Of sent nFrame) (call : Call) (hcall : call.Of sent nFrame) :
    ∃ before sum after, receiveCalls nFrame slots calls = .ok before ∧
      receiveDataFrames true call.reads before nFrame = .ok (sum, after) ∧
      (∃ k ≤ call.reads.length,
        readLoop (dataFrameSize * nFrame.toNat) call.reads [] 0 = (call.reads.take k).flatten ∧
        (k = call.reads.length ∨
          (call.reads.take k).flatten.length = dataFrameSize * nFrame.toNat ∨
          readCount ≤ failureCount 0 (call.reads.take k))) ∧
      (∀ (i : Nat) (s f : DataFrame) (w : List UInt8), before[i]? = some s →
        call.frames[i]? = some f → (receivedWindows nFrame call.reads)[i]? = some w →
        ∃ s', after[i]? = some s' ∧ (¬ s'.Empty ↔ ¬ s.Empty ∨ w = writeDataFrame f) ∧
          (¬ s.Empty → s' = s)) ∧
      sum.toNat = after.countP (fun s => decide s.Empty) ∧
      (sum = 0 → after.map DataFrame.uncounted = sent.map DataFrame.uncounted ∧
        ∀ (i : Nat) (s : DataFrame), after[i]? = some s →
          ∃ c ∈ calls ++ [call], ∃ f, c.frames[i]? = some f ∧ s = f.signed) := by
  have hstart : Collected nFrame [] slots :=
    ⟨hslots, fun i s hs hfull => absurd (hempty s (List.mem_of_getElem? hs)) hfull⟩
  obtain ⟨before, hbefore, hcollected⟩ := receiveCalls_collected hsent calls hcalls hstart
  rw [List.nil_append] at hcollected
  obtain ⟨sum, after, hrun, rfl, hsum, hafter⟩ := receive_collected hsent hcall hcollected
  have hall : ∀ c ∈ calls ++ [call], c.Of sent nFrame := by
    intro c hc
    rcases List.mem_append.mp hc with hc | hc
    · exact hcalls c hc
    · exact List.mem_singleton.mp hc ▸ hcall
  refine ⟨before, sum, _, hbefore, hrun, ?_, ?_, hsum, ?_⟩
  · simpa using readLoop_prefix _ call.reads [] 0 (by simpa using hcall.fits)
  · intro i s f w hs hf hw
    obtain ⟨hfill, hkept, -, -⟩ := hcall.fill hsent (s := s) hf hw
    exact ⟨fill s w, by rw [List.getElem?_zipWith, hs, hw], hfill, hkept⟩
  · intro hzero
    rw [hzero, eq_comm] at hsum
    have hheld : ∀ (i : Nat) (s : DataFrame),
        (List.zipWith fill before (receivedWindows nFrame call.reads))[i]? = some s →
        ∃ c ∈ calls ++ [call], ∃ f, c.frames[i]? = some f ∧ s = f.signed := by
      intro i s hs
      have hfull := List.countP_eq_zero.mp hsum s (List.mem_of_getElem? hs)
      exact hafter.2 i s hs (by simpa using hfull)
    refine ⟨?_, hheld⟩
    apply List.ext_getElem?
    intro i
    rw [List.getElem?_map, List.getElem?_map]
    by_cases hi : i < nFrame.toNat
    · obtain ⟨s, hs⟩ : ∃ s,
          (List.zipWith fill before (receivedWindows nFrame call.reads))[i]? = some s :=
        ⟨_, List.getElem?_eq_getElem (by rw [hafter.1]; exact hi)⟩
      obtain ⟨c, hc, f, hf, rfl⟩ := hheld i s hs
      obtain ⟨g, hg, heq⟩ := (hall c hc).frame hf
      rw [hs, hg, Option.map_some, Option.map_some, ← heq]
      rfl
    · rw [List.getElem?_eq_none (by rw [hafter.1]; omega),
        List.getElem?_eq_none (by rw [hsent.length]; omega)]

end Calls

/-! Two frames: the first call ends after the first of them, the second call
brings both, and their counters have gone on. -/

def firstCall : Call :=
  ⟨[fullFrame 1 7, fullFrame 2 8], [writeDataFrame (fullFrame 1 7)]⟩

def secondCall : Call :=
  ⟨[{ fullFrame 1 7 with nTotalFrame := 2 }, { fullFrame 2 8 with nTotalFrame := 3 }],
    [writeDataFrame { fullFrame 1 7 with nTotalFrame := 2 }, [],
      writeDataFrame { fullFrame 2 8 with nTotalFrame := 3 }]⟩

theorem firstCall_of : firstCall.Of [fullFrame 1 7, fullFrame 2 8] 2 := by
  have hwindows := receivedWindows_blocks 2 [writeDataFrame (fullFrame 1 7)]
    (steady_written (fullFrame 1 7) (fullFrame 2 8)).1 rfl (by simp) (by decide)
  refine ⟨rfl, ?_, ?_⟩
  · simp [firstCall]
  · intro i f w hf hw
    rw [firstCall, hwindows] at hw
    cases i with
    | zero =>
        obtain rfl := Option.some.inj hf
        exact .inl (Option.some.inj hw).symm
    | succ i =>
        have hmem : w ∈ [zeroWindow] := List.mem_of_getElem? hw
        rw [List.mem_singleton.mp hmem]
        exact .inr zeroWindow_rejected

theorem secondCall_of : secondCall.Of [fullFrame 1 7, fullFrame 2 8] 2 := by
  have hreads (f g : DataFrame) : [writeDataFrame f, [], writeDataFrame g].flatten =
      ([f, g].map writeDataFrame).flatten := rfl
  have hfits (f g : DataFrame) :
      [writeDataFrame f, [], writeDataFrame g].flatten.length ≤ dataFrameSize * 2 := by
    simp [Nat.mul_two]
  have hwindows := receivedWindows_blocks 2 (secondCall.frames.map writeDataFrame)
    (steady_written { fullFrame 1 7 with nTotalFrame := 2 }
      { fullFrame 2 8 with nTotalFrame := 3 }).2 (hreads _ _)
    (by simp [secondCall]) (Nat.le_refl 2)
  rw [List.length_map] at hwindows
  refine ⟨rfl, ?_, ?_⟩
  · exact hfits _ _
  · intro i f w hf hw
    rw [secondCall] at hw
    rw [hwindows, List.getElem?_append_left, List.getElem?_map, hf] at hw
    · exact .inl (Option.some.inj hw).symm
    · have := (List.getElem?_eq_some_iff.mp hf).1
      rwa [List.length_map]

theorem retransmission_accumulates_second :
    ∃ before sum after, receiveCalls 2 [zeroFrame, zeroFrame] [firstCall] = .ok before ∧
      receiveDataFrames true secondCall.reads before 2 = .ok (sum, after) ∧
      sum.toNat = after.countP (fun s => decide s.Empty) := by
  have hsendable : Sendable 2 [fullFrame 1 7, fullFrame 2 8] :=
    ⟨rfl, fullFrames_sent.header, fullFrames_sent.nonempty⟩
  obtain ⟨before, sum, after, hbefore, hrun, -, -, hsum, -⟩ :=
    retransmission_accumulates hsendable rfl
      (show ∀ s ∈ [zeroFrame, zeroFrame], s.Empty by simp [DataFrame.Empty, zeroFrame]) [firstCall]
      (by simpa using firstCall_of) secondCall secondCall_of
  exact ⟨before, sum, after, hbefore, hrun, hsum⟩

end Soc
