import Soc.Protocol.Answer

/-!
Losing whole data frames on the way.

The receiver takes the k-th window of what arrives for the k-th slot. A frame
that is lost moves every later frame one window down, where it still passes the
test: the packet number that would tell is copied but never read.
-/
namespace Soc
open Windows

theorem nFrameToId_idToNFrame (id len : UInt16) : nFrameToId (idToNFrame id len) len = id := by
  unfold nFrameToId idToNFrame
  split
  · rfl
  · exact UInt16.add_sub_cancel id 1

/-- The frames of one request for a file, as both senders prepare them. -/
structure SentFor (nFile : UInt32) (nFrame : UInt16) (frames : List DataFrame) : Prop where
  length : frames.length = nFrame.toNat
  header : ∀ f ∈ frames, f.header = tpHeader
  file : ∀ f ∈ frames, f.nFile = nFile
  number : ∀ (i : Nat) (f : DataFrame), frames[i]? = some f →
    f.nFrame = idToNFrame (UInt16.ofNat i) nFrame
  nonempty : ∀ f ∈ frames, ¬ f.Empty
  dataLen : ∀ f ∈ frames, f.dataLen.toNat ≤ frameDataLenMax

/-- A frame without what changes each time it is sent. -/
def DataFrame.uncounted (f : DataFrame) : DataFrame := { f with nTotalFrame := 0, checkSum := 0 }

theorem uncounted_frame {frames sent : List DataFrame}
    (same : frames.map DataFrame.uncounted = sent.map DataFrame.uncounted) {i : Nat}
    {f : DataFrame} (hf : frames[i]? = some f) :
    ∃ g, sent[i]? = some g ∧ f.uncounted = g.uncounted := by
  have hmap := congrArg (·[i]?) same
  simp only [List.getElem?_map, hf, Option.map_some] at hmap
  obtain ⟨g, hg, heq⟩ := Option.map_eq_some_iff.mp hmap.symm
  exact ⟨g, hg, heq.symm⟩

theorem uncounted_fields {f g : DataFrame} (h : f.uncounted = g.uncounted) :
    f.header = g.header ∧ f.dataLen = g.dataLen := by
  have hheader := congrArg DataFrame.header h
  have hdata := congrArg DataFrame.dataLen h
  exact ⟨hheader, hdata⟩

/-- Frames that are sent again are frames of the same request. -/
theorem SentFor.again {nFile : UInt32} {nFrame : UInt16} {frames sent : List DataFrame}
    (h : SentFor nFile nFrame sent)
    (same : frames.map DataFrame.uncounted = sent.map DataFrame.uncounted) :
    SentFor nFile nFrame frames := by
  have hmem : ∀ f ∈ frames, ∃ g ∈ sent, f.uncounted = g.uncounted := by
    intro f hf
    obtain ⟨i, hi⟩ := List.mem_iff_getElem?.mp hf
    obtain ⟨g, hg, heq⟩ := uncounted_frame same hi
    exact ⟨g, List.mem_of_getElem? hg, heq⟩
  refine ⟨?_, ?_, ?_, ?_, ?_, ?_⟩
  · simpa [h.length] using congrArg List.length same
  · intro f hf
    obtain ⟨g, hg, heq⟩ := hmem f hf
    exact (uncounted_fields heq).1.trans (h.header g hg)
  · intro f hf
    obtain ⟨g, hg, heq⟩ := hmem f hf
    exact (congrArg DataFrame.nFile heq).trans (h.file g hg)
  · intro i f hf
    obtain ⟨g, hg, heq⟩ := uncounted_frame same hf
    exact (congrArg DataFrame.nFrame heq).trans (h.number i g hg)
  · intro f hf
    obtain ⟨g, hg, heq⟩ := hmem f hf
    rw [DataFrame.Empty, (uncounted_fields heq).2]
    exact h.nonempty g hg
  · intro f hf
    obtain ⟨g, hg, heq⟩ := hmem f hf
    rw [(uncounted_fields heq).2]
    exact h.dataLen g hg

/-- What the line does to one frame. -/
inductive Fate where
  | lost
  | intact
  | damaged (bytes : List UInt8)
  deriving DecidableEq

/-- Damage keeps the length and is detected. -/
def Fate.Detected : Fate → Prop
  | .damaged bytes => bytes.length = dataFrameSize ∧ accepts bytes = false
  | _ => True

def deliver : List DataFrame → List Fate → List (List UInt8)
  | f :: fs, .intact :: fates => writeDataFrame f :: deliver fs fates
  | _ :: fs, .damaged bytes :: fates => bytes :: deliver fs fates
  | _ :: fs, .lost :: fates => deliver fs fates
  | _, _ => []

/-- The window a frame arrives in: the frames before it that are not lost. -/
def arrival (fates : List Fate) (i : Nat) : Nat := (fates.take i).countP (· ≠ .lost)

/-- No frame is lost ahead of an intact one whose window meets an empty slot. -/
def InPlace (slots : List DataFrame) (fates : List Fate) : Prop :=
  ∀ (i : Nat) (s : DataFrame), fates[i]? = some .intact → slots[arrival fates i]? = some s →
    s.Empty → Fate.lost ∉ fates.take i

theorem arrival_eq_iff {fates : List Fate} {i : Nat} (h : i ≤ fates.length) :
    arrival fates i = i ↔ Fate.lost ∉ fates.take i := by
  have hlen : (fates.take i).length = i := List.length_take_of_le h
  rw [arrival]
  constructor
  · intro heq hmem
    rw [← hlen] at heq
    simp only [List.length_take, Nat.min_eq_left h] at heq
    have hall := List.countP_eq_length.mp (heq.trans (by rw [hlen]))
    simpa using hall _ hmem
  · intro hnot
    have hall : (fates.take i).countP (· ≠ .lost) = (fates.take i).length := by
      apply List.countP_eq_length.mpr
      intro fate hfate
      simp only [decide_eq_true_eq]
      rintro rfl
      exact hnot hfate
    rw [hall, hlen]

theorem deliver_length_le (frames : List DataFrame) (fates : List Fate) :
    (deliver frames fates).length ≤ frames.length := by
  induction frames generalizing fates with
  | nil => simp [deliver]
  | cons f fs ih =>
      cases fates with
      | nil => simp [deliver]
      | cons fate fates =>
          have htail := ih fates
          cases fate <;> simp only [deliver, List.length_cons] <;> omega

theorem deliver_size {frames : List DataFrame} {fates : List Fate}
    (detected : ∀ fate ∈ fates, fate.Detected) :
    ∀ w ∈ deliver frames fates, w.length = dataFrameSize := by
  induction frames generalizing fates with
  | nil => simp [deliver]
  | cons f fs ih =>
      cases fates with
      | nil => simp [deliver]
      | cons fate fates =>
          have htail := ih (fun x hx => detected x (List.mem_cons_of_mem _ hx))
          have hhead := detected fate List.mem_cons_self
          intro w hw
          cases fate with
          | lost => exact htail w hw
          | intact =>
              rcases List.mem_cons.mp hw with rfl | hw
              · exact writeDataFrame_length f
              · exact htail w hw
          | damaged bytes =>
              rcases List.mem_cons.mp hw with rfl | hw
              · exact hhead.1
              · exact htail w hw

theorem arrival_succ (fate : Fate) (fates : List Fate) (i : Nat) :
    arrival (fate :: fates) (i + 1) = arrival fates i + if fate = .lost then 0 else 1 := by
  rw [arrival, List.take_succ_cons, List.countP_cons, arrival]
  by_cases h : fate = .lost <;> simp [h]

/-- An intact frame is found in its window. -/
theorem deliver_arrival {frames : List DataFrame} {fates : List Fate} {i : Nat} {f : DataFrame}
    (hf : frames[i]? = some f) (hfate : fates[i]? = some .intact) :
    (deliver frames fates)[arrival fates i]? = some (writeDataFrame f) := by
  induction frames generalizing fates i with
  | nil => simp at hf
  | cons g fs ih =>
      cases fates with
      | nil => simp at hfate
      | cons fate fates =>
          cases i with
          | zero =>
              obtain rfl : fate = .intact := by simpa using hfate
              obtain rfl : g = f := by simpa using hf
              simp [deliver, arrival]
          | succ i =>
              have hrest : fs[i]? = some f := by simpa using hf
              have hintact : fates[i]? = some .intact := by simpa using hfate
              have htail := ih hrest hintact
              rw [arrival_succ]
              cases fate <;> simpa [deliver] using htail

/-- What passes the test is an intact frame in its window. -/
theorem deliver_accepted {frames : List DataFrame} {fates : List Fate}
    (detected : ∀ fate ∈ fates, fate.Detected) {j : Nat} {w : List UInt8}
    (hw : (deliver frames fates)[j]? = some w) (hacc : accepts w = true) :
    ∃ i f, frames[i]? = some f ∧ fates[i]? = some .intact ∧ arrival fates i = j ∧
      w = writeDataFrame f := by
  induction frames generalizing fates j with
  | nil => simp [deliver] at hw
  | cons g fs ih =>
      cases fates with
      | nil => simp [deliver] at hw
      | cons fate fates =>
          have hrest := fun x hx => detected x (List.mem_cons_of_mem fate hx)
          have hhead := detected fate List.mem_cons_self
          have hnext : ∀ {j : Nat}, (deliver fs fates)[j]? = some w → ∃ i f,
              (g :: fs)[i]? = some f ∧ (fate :: fates)[i]? = some .intact ∧
                arrival (fate :: fates) i = j + (if fate = .lost then 0 else 1) ∧
                w = writeDataFrame f := by
            intro j hj
            obtain ⟨i, f, hf, hfate, harr, heq⟩ := ih hrest hj
            exact ⟨i + 1, f, by simpa using hf, by simpa using hfate, by
              rw [arrival_succ, harr], heq⟩
          cases fate with
          | lost => exact hnext hw
          | intact =>
              cases j with
              | zero => exact ⟨0, g, rfl, rfl, rfl, by simpa [deliver] using hw.symm⟩
              | succ j => exact hnext (by simpa [deliver] using hw)
          | damaged bytes =>
              cases j with
              | zero =>
                  obtain rfl : bytes = w := by simpa [deliver] using hw
                  rw [hhead.2] at hacc
                  contradiction
              | succ j => exact hnext (by simpa [deliver] using hw)

/-! One call. -/

/-- One call's worth of the line: the frames as they are sent this time, their fates, and the reads
that deliver what is left. -/
structure Round where
  frames : List DataFrame
  fates : List Fate
  reads : List (List UInt8)

structure Round.Of (r : Round) (sent : List DataFrame) : Prop where
  same : r.frames.map DataFrame.uncounted = sent.map DataFrame.uncounted
  length : r.fates.length = sent.length
  detected : ∀ fate ∈ r.fates, fate.Detected
  steady : Steady 0 r.reads
  delivered : r.reads.flatten = (deliver r.frames r.fates).flatten

/-- Every slot a call filled holds the frame sent for it. -/
def FilledRight (frames : List DataFrame) (nFile : UInt32) (nFrame : UInt16)
    (slots slots' : List DataFrame) : Prop :=
  ∀ (i : Nat) (s s' : DataFrame), slots[i]? = some s → slots'[i]? = some s' → s.Empty →
    ¬ s'.Empty → s'.nFrame = idToNFrame (UInt16.ofNat i) nFrame ∧ s'.nFile = nFile ∧
      ∃ f, frames[i]? = some f ∧ s' = f.signed

section Call
variable {nFile : UInt32} {nFrame : UInt16} {frames slots : List DataFrame} {r : Round}
  (sent : SentFor nFile nFrame frames) (hround : r.Of frames)
include sent hround

theorem round_windows : receivedWindows nFrame r.reads = deliver r.frames r.fates ++
    List.replicate (nFrame.toNat - (deliver r.frames r.fates).length) zeroWindow :=
  receivedWindows_blocks _ _ hround.steady hround.delivered (deliver_size hround.detected)
    ((sent.again hround.same).length ▸ deliver_length_le r.frames r.fates)

theorem round_arrival {i : Nat} {f : DataFrame} (hf : r.frames[i]? = some f)
    (hfate : r.fates[i]? = some .intact) :
    (receivedWindows nFrame r.reads)[arrival r.fates i]? = some (writeDataFrame f) := by
  have harr := deliver_arrival hf hfate
  have hlt := (List.getElem?_eq_some_iff.mp harr).1
  rw [round_windows sent hround, List.getElem?_append_left hlt, harr]

theorem round_accepted {j : Nat} {w : List UInt8}
    (hw : (receivedWindows nFrame r.reads)[j]? = some w) (hacc : accepts w = true) :
    ∃ i f, r.frames[i]? = some f ∧ r.fates[i]? = some .intact ∧ arrival r.fates i = j ∧
      w = writeDataFrame f := by
  rw [round_windows sent hround] at hw
  by_cases hj : j < (deliver r.frames r.fates).length
  · rw [List.getElem?_append_left hj] at hw
    exact deliver_accepted hround.detected hw hacc
  · -- nothing was read here, and zeros do not pass
    rw [List.getElem?_append_right (by omega)] at hw
    obtain rfl := List.eq_of_mem_replicate (List.mem_of_getElem? hw)
    rw [zeroWindow_rejected] at hacc
    contradiction

/-- A call fills its slots right exactly when the frames it takes are in place. -/
theorem filledRight_iff {sum : UInt16} {slots' : List DataFrame}
    (hrun : receiveDataFrames true r.reads slots nFrame = .ok (sum, slots')) :
    FilledRight r.frames nFile nFrame slots slots' ↔ InPlace slots r.fates := by
  obtain ⟨hle, hlen, hslot, hrest⟩ := receiveDataFrames_slots hrun
  have again := sent.again hround.same
  constructor
  · intro right i s hfate hs hempty
    have hi : i < r.frames.length := by
      have := (List.getElem?_eq_some_iff.mp hfate).1
      rwa [hround.length, sent.length, ← again.length] at this
    have hf : r.frames[i]? = some r.frames[i] := List.getElem?_eq_getElem hi
    have hw := round_arrival sent hround hf hfate
    have hs' := hslot _ s _ hs hw
    have hacc := (accepts_writeDataFrame r.frames[i]).mpr (again.header _ (List.getElem_mem hi))
    rw [fill, if_pos ⟨hempty, hacc⟩, parse_writeDataFrame] at hs'
    have hnonempty := again.nonempty _ (List.getElem_mem hi)
    obtain ⟨hnumber, -, -⟩ := right _ s _ hs hs' hempty hnonempty
    have hsame : idToNFrame (UInt16.ofNat i) nFrame =
        idToNFrame (UInt16.ofNat (arrival r.fates i)) nFrame :=
      (again.number i _ hf).symm.trans hnumber
    have hid := congrArg (nFrameToId · nFrame) hsame
    simp only [nFrameToId_idToNFrame] at hid
    have hj : arrival r.fates i < nFrame.toNat := by
      have := (List.getElem?_eq_some_iff.mp hw).1
      rwa [receivedWindows_length] at this
    have hn := nFrame.toNat_lt
    have hi' := again.length
    have heq : i = arrival r.fates i := by
      have := congrArg UInt16.toNat hid
      rwa [UInt16.toNat_ofNat', UInt16.toNat_ofNat', Nat.mod_eq_of_lt (by omega),
        Nat.mod_eq_of_lt (by omega)] at this
    exact (arrival_eq_iff (by rw [hround.length, sent.length]; omega)).mp heq.symm
  · intro inPlace j s s' hs hs' hempty hfilled
    by_cases hj : j < nFrame.toNat
    · obtain ⟨w, hw⟩ : ∃ w, (receivedWindows nFrame r.reads)[j]? = some w :=
        ⟨_, List.getElem?_eq_getElem (by rwa [receivedWindows_length])⟩
      obtain rfl : fill s w = s' := Option.some.inj ((hslot j s w hs hw).symm.trans hs')
      by_cases hacc : accepts w = true
      · obtain ⟨i, f, hf, hfate, harr, rfl⟩ := round_accepted sent hround hw hacc
        have hi := (List.getElem?_eq_some_iff.mp hfate).1
        have hlost := inPlace i s hfate (harr ▸ hs) hempty
        obtain rfl : i = j := ((arrival_eq_iff (Nat.le_of_lt hi)).mpr hlost).symm.trans harr
        rw [fill, if_pos ⟨hempty, hacc⟩, parse_writeDataFrame]
        exact ⟨again.number i f hf, again.file f (List.mem_of_getElem? hf), f, hf, rfl⟩
      · rw [fill, if_neg (by simp [hacc])] at hfilled
        contradiction
    · rw [hrest j (by omega), hs] at hs'
      obtain rfl := Option.some.inj hs'
      contradiction

end Call

/-! Any number of calls on the same slots. -/

def receiveRounds (nFrame : UInt16) : List DataFrame → List Round → Except Fault (List DataFrame)
  | slots, [] => .ok slots
  | slots, r :: rs => do
    let (_, slots) ← receiveDataFrames true r.reads slots nFrame
    receiveRounds nFrame slots rs

def RoundsRight (nFile : UInt32) (nFrame : UInt16) : List DataFrame → List Round → Prop
  | _, [] => True
  | slots, r :: rs => ∃ sum slots',
      receiveDataFrames true r.reads slots nFrame = .ok (sum, slots') ∧
      FilledRight r.frames nFile nFrame slots slots' ∧ RoundsRight nFile nFrame slots' rs

/-- Every round is in place, given the slots the rounds before it left. -/
def RoundsInPlace (nFrame : UInt16) : List DataFrame → List Round → Prop
  | _, [] => True
  | slots, r :: rs => InPlace slots r.fates ∧ ∀ sum slots',
      receiveDataFrames true r.reads slots nFrame = .ok (sum, slots') →
        RoundsInPlace nFrame slots' rs

/-- What the slots hold so far is what was sent for them, in one round or another. -/
def HoldsSent (frames slots : List DataFrame) : Prop :=
  ∀ (i : Nat) (s : DataFrame), slots[i]? = some s → ¬ s.Empty →
    ∃ f, frames[i]? = some f ∧ s.uncounted = f.uncounted

theorem receiveRounds_holds {nFile : UInt32} {nFrame : UInt16} {frames : List DataFrame}
    (rounds : List Round) (hrounds : ∀ r ∈ rounds, r.Of frames)
    {slots final : List DataFrame} (hslots : slots.length = nFrame.toNat)
    (holds : HoldsSent frames slots) (hright : RoundsRight nFile nFrame slots rounds)
    (hrun : receiveRounds nFrame slots rounds = .ok final) :
    HoldsSent frames final ∧ final.length = nFrame.toNat := by
  induction rounds generalizing slots with
  | nil =>
      obtain rfl := Except.ok.inj hrun
      exact ⟨holds, hslots⟩
  | cons r rs ih =>
      obtain ⟨sum, slots', hstep, hfilled, hright⟩ := hright
      obtain ⟨-, hlen, hslot, -⟩ := receiveDataFrames_slots hstep
      rw [receiveRounds, hstep, ok_bind] at hrun
      have htail : ∀ x ∈ rs, x.Of frames := fun x hx => hrounds x (List.mem_cons_of_mem _ hx)
      refine ih htail (hlen.trans hslots) ?_ hright hrun
      intro i s' hs' hfull
      obtain ⟨s, hs⟩ : ∃ s, slots[i]? = some s := by
        have := (List.getElem?_eq_some_iff.mp hs').1
        exact ⟨_, List.getElem?_eq_getElem (by omega)⟩
      by_cases hempty : s.Empty
      · obtain ⟨-, -, f, hf, rfl⟩ := hfilled i s s' hs hs' hempty hfull
        obtain ⟨g, hg, heq⟩ := uncounted_frame (hrounds r List.mem_cons_self).same hf
        exact ⟨g, hg, heq⟩
      · obtain ⟨w, hw⟩ : ∃ w, (receivedWindows nFrame r.reads)[i]? = some w := by
          have := (List.getElem?_eq_some_iff.mp hs).1
          exact ⟨_, List.getElem?_eq_getElem (by rw [receivedWindows_length]; omega)⟩
        have hkept := hslot i s w hs hw
        rw [fill, if_neg (by simp [hempty]), hs'] at hkept
        obtain rfl := Option.some.inj hkept
        exact holds i s' hs hempty

section Rounds
variable {nFile : UInt32} {nFrame : UInt16} {frames : List DataFrame}
  (sent : SentFor nFile nFrame frames)
include sent

theorem roundsRight_iff (rounds : List Round) (hrounds : ∀ r ∈ rounds, r.Of frames)
    {slots : List DataFrame} (hslots : slots.length = nFrame.toNat) :
    RoundsRight nFile nFrame slots rounds ↔ RoundsInPlace nFrame slots rounds := by
  induction rounds generalizing slots with
  | nil => exact Iff.rfl
  | cons r rs ih =>
      have hround := hrounds r List.mem_cons_self
      have hrest := fun x hx => hrounds x (List.mem_cons_of_mem _ hx)
      have hrun := receiveDataFrames_ok (Nat.le_of_eq hslots.symm) r.reads
      obtain ⟨-, hlen, -, -⟩ := receiveDataFrames_slots hrun
      have hiff := filledRight_iff sent hround hrun
      have htail := ih hrest (hlen.trans hslots)
      constructor
      · rintro ⟨sum, slots', hrun', hfilled, hright⟩
        obtain ⟨rfl, rfl⟩ := Prod.mk.inj (Except.ok.inj (hrun.symm.trans hrun'))
        refine ⟨hiff.mp hfilled, ?_⟩
        intro sum'' slots'' hrun''
        obtain ⟨rfl, rfl⟩ := Prod.mk.inj (Except.ok.inj (hrun.symm.trans hrun''))
        exact htail.mp hright
      · rintro ⟨hplace, hall⟩
        exact ⟨_, _, hrun, hiff.mpr hplace, htail.mpr (hall _ _ hrun)⟩

/-- Full slots that hold what was sent unpack to what was sent. -/
theorem holdsSent_data {final : List DataFrame} (hlen : final.length = nFrame.toNat)
    (holds : HoldsSent frames final) (hfull : ∀ s ∈ final, ¬ s.Empty) (n : Nat) :
    dataFramesToData final n = dataFramesToData frames n := by
  apply dataFramesToData_contents
  apply List.ext_getElem
  · rw [List.length_map, hlen, List.length_map, sent.length]
  · intro i hi _
    rw [List.length_map] at hi
    obtain ⟨f, hf, heq⟩ := holds i _ (List.getElem?_eq_getElem hi) (hfull _ (List.getElem_mem hi))
    obtain ⟨_, rfl⟩ := List.getElem?_eq_some_iff.mp hf
    have hcontents := congrArg DataFrame.contents heq
    rw [List.getElem_map, List.getElem_map]
    exact hcontents

end Rounds

/-- Over any number of rounds, the frames land in their own slots exactly when
none is lost ahead of an intact frame that meets an empty slot; then full slots
unpack to the sender's bytes. -/
theorem receiveDataFrames_in_place_iff {nFile : UInt32} {nFrame : UInt16}
    {frames : List DataFrame} (sent : SentFor nFile nFrame frames) (rounds : List Round)
    (hrounds : ∀ r ∈ rounds, r.Of frames) {slots : List DataFrame}
    (hslots : slots.length = nFrame.toNat) (hempty : ∀ s ∈ slots, s.Empty) :
    (RoundsRight nFile nFrame slots rounds ↔ RoundsInPlace nFrame slots rounds) ∧
      (RoundsInPlace nFrame slots rounds → ∀ final,
        receiveRounds nFrame slots rounds = .ok final → (∀ s ∈ final, ¬ s.Empty) →
        ∃ bytes, dataFramesToData frames nFrame.toNat = .ok bytes ∧
          dataFramesToData final nFrame.toNat = .ok bytes) := by
  have hiff := roundsRight_iff sent rounds hrounds hslots
  refine ⟨hiff, ?_⟩
  intro hplace final hrun hfull
  have hstart : HoldsSent frames slots := fun i s hs hne =>
    absurd (hempty s (List.mem_of_getElem? hs)) hne
  obtain ⟨holds, hlen⟩ :=
    receiveRounds_holds rounds hrounds hslots hstart (hiff.mpr hplace) hrun
  obtain ⟨bytes, hbytes⟩ := dataFramesToData_ok frames (Nat.le_of_eq sent.length.symm) sent.dataLen
  exact ⟨bytes, hbytes, (holdsSent_data sent hlen holds hfull nFrame.toNat).trans hbytes⟩

def fullFrame (nFrame : UInt16) (byte : UInt8) : DataFrame :=
  ⟨tpHeader, 0, flag1Yuv420, 0, nFrame, 1024, 512, List.Vector.replicate frameDataLenMax byte, 0⟩

theorem fullFrames_sent : SentFor 0 2 [fullFrame 1 7, fullFrame 2 8] := by
  refine ⟨rfl, ?_, ?_, ?_, ?_, ?_⟩
  · simp [fullFrame]
  · simp [fullFrame]
  · intro i f hf
    match i with
    | 0 => exact Option.some.inj hf ▸ rfl
    | 1 => exact Option.some.inj hf ▸ rfl
    | i + 2 => simp at hf
  · simp [fullFrame, DataFrame.Empty]
  · intro f hf
    simp only [List.mem_cons, List.not_mem_nil, or_false] at hf
    rcases hf with rfl | rfl <;> exact Nat.le_refl 512

def lostRound : Round :=
  ⟨[fullFrame 1 7, fullFrame 2 8], [.intact, .lost], [writeDataFrame (fullFrame 1 7)]⟩

/-- The counters have gone on. -/
def wholeRound : Round :=
  let frames := [{ fullFrame 1 7 with nTotalFrame := 2 }, { fullFrame 2 8 with nTotalFrame := 3 }]
  ⟨frames, [.intact, .intact],
    [writeDataFrame { fullFrame 1 7 with nTotalFrame := 2 }, [],
      writeDataFrame { fullFrame 2 8 with nTotalFrame := 3 }]⟩

theorem steady_written (f g : DataFrame) :
    Steady 0 [writeDataFrame f] ∧ Steady 0 [writeDataFrame f, [], writeDataFrame g] := by
  have hne (f : DataFrame) : (writeDataFrame f).isEmpty = false :=
    window_isEmpty (writeDataFrame_length f)
  refine ⟨steady_single (writeDataFrame_length f), ?_⟩
  simp [Steady, hne, readCount]

/-- The second frame is lost in the first round and comes in the second. -/
theorem receiveDataFrames_in_place_two_rounds :
    RoundsRight 0 2 [zeroFrame, zeroFrame] [lostRound, wholeRound] := by
  refine (receiveDataFrames_in_place_iff fullFrames_sent [lostRound, wholeRound] ?_ rfl ?_).1.mpr ?_
  · intro r hr
    simp only [List.mem_cons, List.not_mem_nil, or_false] at hr
    rcases hr with rfl | rfl
    · have hsteady := (steady_written (fullFrame 1 7) (fullFrame 2 8)).1
      exact ⟨rfl, rfl, by simp [lostRound, Fate.Detected], hsteady, rfl⟩
    · exact ⟨rfl, rfl, by simp [wholeRound, Fate.Detected], (steady_written _ _).2, rfl⟩
  · simp [DataFrame.Empty, zeroFrame]
  · refine ⟨?_, fun _ _ _ => ⟨?_, fun _ _ _ => trivial⟩⟩
    · intro i s hfate _ _
      cases i with
      | zero => simp
      | succ i => cases i <;> simp [lostRound] at hfate
    · intro i s _ _ _ hlost
      have := List.mem_of_mem_take hlost
      simp [wholeRound] at this

/-- The first of two frames is lost: the second is received as the first. -/
theorem receiveDataFrames_shifts :
    let frames := [fullFrame 1 7, fullFrame 2 8]
    let round : Round := ⟨frames, [.lost, .intact], [writeDataFrame (fullFrame 2 8)]⟩
    SentFor 0 2 frames ∧ round.Of frames ∧
      ¬ RoundsRight 0 2 [zeroFrame, zeroFrame] [round] := by
  intro frames round
  have hround : round.Of frames :=
    ⟨rfl, rfl, by simp [round, Fate.Detected], (steady_written _ (fullFrame 2 8)).1, rfl⟩
  refine ⟨fullFrames_sent, hround, ?_⟩
  rintro ⟨sum, slots', hrun, hright, -⟩
  have hplace := (filledRight_iff fullFrames_sent hround hrun).mp hright 1 zeroFrame rfl rfl rfl
  exact hplace List.mem_cons_self

end Soc
