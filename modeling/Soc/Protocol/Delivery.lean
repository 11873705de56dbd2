import Soc.Protocol.Blocks
import Soc.Protocol.Failure
import Soc.Protocol.Image
import Soc.Protocol.Sizes

/-!
A picture from the file the master reads to the file the master saves, past a slave with any
encoder.

The slave takes any requests, among them the master's for this picture. As long as every window
brings its own frame or fails the test, nothing but the encoding of the image of the file can be
saved, in whatever order requests, losses and other files come; and from every state there is a way
on to it. The master has one slot for each frame of the picture, so that the result may not take
more of them.
-/
namespace Soc
open Runs

/-! The master next to the slave. -/

/-- The slave, and the master as far as it collects one picture: `input_data_frames` from the
query that says processed on, and what was handed to `write` for the file it saved. -/
structure Delivery where
  slave : Slave
  inputDataFrames : Option (List DataFrame) := none
  saved : Option (List UInt8) := none

def Delivery.init : Delivery := { slave := Slave.init }

/-- What happens next: a turn of the slave, which also stands for all of the send phase; a query of
the receive phase, and whether `calloc` succeeds if it ends the wait; or a request to receive,
with the end of the wait for data, the reads and the file system at the master. -/
inductive Delivery.Move where
  | turn (e : Event)
  | query (line : Line) (calloc : Bool)
  | recv (line : Line) (ready : Bool) (reads : List (List UInt8)) (answers : DumpAnswers)

/-- The loop that waits for `TP_STATUS_PROCESSED`, and the allocation behind it. -/
def Delivery.query (o : Options) (nFile : UInt32) (c : Delivery) (line : Line) (calloc : Bool) :
    Except Fault Delivery := do
  let (slave, out) ← c.slave.turn o (.ofFrame (queryRequest nFile) line)
  match out.reply with
  | none => .ok { c with slave }
  | some inputFrame =>
    if inputFrame.status ≠ statusProcessed then .ok { c with slave }
    else if calloc then
      let slots := List.replicate inputFrame.nFrame.toNat zeroFrame
      .ok { c with slave, inputDataFrames := some slots }
    else .error .exited

/-- One turn of the loop that receives, and the saving behind it. -/
def Delivery.recv (o : Options) (nFile : UInt32) (c : Delivery) (inputDataFrames : List DataFrame)
    (line : Line) (ready : Bool) (reads : List (List UInt8)) (answers : DumpAnswers) :
    Except Fault Delivery := do
  let (slave, out) ← c.slave.turn o (.ofFrame (recvRequest nFile) line)
  match out.reply with
  | none => .ok { c with slave }
  | some inputFrame =>
    let (sum, slots) ← receiveDataFrames ready reads inputDataFrames inputFrame.nFrame
    if 0 < sum then .ok { c with slave, inputDataFrames := some slots }
    else
      let (size, written) ← dumpDataFrames answers slots inputFrame.nFrame
      .ok { slave, saved := if size = -1 then c.saved else some written.flatten }

/-- The master queries while it has no slots, and receives while it has. -/
def Delivery.move (o : Options) (nFile : UInt32) (c : Delivery) :
    Move → Option (Except Fault Delivery)
  | .turn e => some ((c.slave.turn o e).map fun (slave, _) => { c with slave })
  | .query line calloc =>
    match c.inputDataFrames with
    | none => some (c.query o nFile line calloc)
    | some _ => none
  | .recv line ready reads answers =>
    match c.inputDataFrames with
    | none => none
    | some slots => some (c.recv o nFile slots line ready reads answers)

def Delivery.Step (o : Options) (nFile : UInt32) (c : Delivery) (m : Move) (c' : Delivery) : Prop :=
  c.move o nFile m = some (.ok c')

/-- The line neither loses a frame nor lets a damaged one pass, and a master sends a picture that
is not processed yet, from the file or from a dump; all other requests are arbitrary. -/
def Delivery.Faithful (o : Options) (k : Fin picturesNumberMax) (nFrame : UInt16)
    (sent : List DataFrame) (c : Delivery) : Move → Prop
  | .turn e => ∀ n, e.accepted = some (k, n) →
      (c.slave.pictures k).status ≠ statusProcessed ∧ n = nFrame ∧
        (e.line.dataReady = true →
          ∃ wires, Offered nFrame sent wires ∧ Arrives nFrame wires e.line.reads)
  | .query _ _ => True
  | .recv line ready reads _ => (∀ i, line.sendReady i = true) ∧ ∀ slave out,
      c.slave.turn o (.ofFrame (recvRequest (UInt32.ofNat k)) line) = .ok (slave, out) →
        ready = true → ∀ r, out.reply = some r → Arrives r.nFrame out.data reads

/-- There is a result, and it does not have more frames than the picture. -/
structure Fitting (nFrame : UInt16) (result : List UInt8) : Prop where
  pos : 1 ≤ result.length
  frames : countFrames result.length ≤ nFrame.toNat

/-- The number of frames in the answer to a request to receive. -/
def resultFrames (result : List UInt8) : UInt16 := UInt16.ofNat (countFrames result.length)

section Fitting
variable {nFrame : UInt16} {result : List UInt8} (h : Fitting nFrame result)
include h

theorem Fitting.le : result.length ≤ 65535 * frameDataLenMax := by
  have hcovered := (countFrames_pos h.pos).2.2
  have hle : countFrames result.length ≤ 65535 := h.frames.trans (Nat.le_of_lt_succ nFrame.toNat_lt)
  exact hcovered.trans (Nat.mul_le_mul_right _ hle)

theorem Fitting.resultFrames_le : (resultFrames result).toNat ≤ nFrame.toNat := by
  rw [resultFrames, count_toNat h.pos h.le]
  exact h.frames

theorem Fitting.answer (nFile : UInt32) :
    Imaged (resultFrames result) result (answerFrames result nFile) :=
  answerFrames_imaged h.pos h.le nFile

end Fitting

/-- Before a picture is processed its slots hold what was sent; then its bit stream is one of the
results, and its length the number of frames. -/
def Picture.Carries (nFrame : UInt16) (results : Set (List UInt8)) (sent : List DataFrame)
    (p : Picture) : Prop :=
  if 0 < p.bitStream.len then p.bitStream.bytes ∈ results ∧ p.info.len = nFrame
  else p.bitStream.addr = none ∧ ∀ slots, p.info.addr = some slots → Holds nFrame sent slots

/-- The slots of the master: as many as the picture has frames, the first of them for the result. -/
structure Collects (k : Fin picturesNumberMax) (nFrame : UInt16) (result : List UInt8)
    (slots : List DataFrame) : Prop where
  length : slots.length = nFrame.toNat
  holds : Holds (resultFrames result) (answerFrames result (UInt32.ofNat k))
    (slots.take (resultFrames result).toNat)

structure Delivery.Kept (k : Fin picturesNumberMax) (nFrame : UInt16)
    (results : Set (List UInt8)) (sent : List DataFrame) (c : Delivery) : Prop where
  carries : (c.slave.pictures k).Carries nFrame results sent
  collecting : ∀ slots, c.inputDataFrames = some slots →
    0 < (c.slave.pictures k).bitStream.len ∧
      Collects k nFrame (c.slave.pictures k).bitStream.bytes slots
  saved : ∀ bytes, c.saved = some bytes → bytes ∈ results

section Kept
variable {o : Options} {k : Fin picturesNumberMax} {nFrame : UInt16} {image result : List UInt8}
  {results : Set (List UInt8)} {sent : List DataFrame} {c c' : Delivery}

theorem Picture.Carries.slots {p : Picture} (h : p.Carries nFrame results sent)
    (hstatus : p.status ≠ statusProcessed) : Holds nFrame sent (p.slots nFrame) := by
  have hlen : ¬ 0 < p.bitStream.len := fun hlen => hstatus (status_processed.mpr hlen)
  rw [Carries, if_neg hlen] at h
  rw [Picture.slots, kept, if_neg hlen]
  cases haddr : p.info.addr with
  | some slots => exact h.2 slots haddr
  | none =>
      refine holds_zero List.length_replicate ?_
      intro s hs
      rw [List.eq_of_mem_replicate hs]
      rfl

/-- A reception after which nothing is missing has a payload, which goes to the bit stream. -/
theorem Picture.receive_complete_payload {p p' : Picture} {line : Line} {slots : List DataFrame}
    (hrun : receiveDataFrames line.dataReady line.reads (p.slots nFrame) nFrame = .ok (0, slots))
    (hrecv : p.receive o line nFrame = .ok p') :
    ∃ payload, p.payload line nFrame = some payload ∧
      payload = (slots.take nFrame.toNat).flatMap DataFrame.carried ∧
      o.store line.malloc (o.encoding payload) p.bitStream = .ok p'.bitStream := by
  obtain ⟨_, hslots, hrecv⟩ := bind_ok hrecv
  obtain rfl := prepare_ok hslots
  rw [hrun, ok_bind] at hrecv
  simp only [if_true] at hrecv
  obtain ⟨bitStream, hprocess, hrecv⟩ := bind_ok hrecv
  obtain rfl := Except.ok.inj hrecv
  obtain ⟨payload, hpayload, hstore⟩ := bind_ok hprocess
  refine ⟨payload, ?_, dataFramesToData_carried _ _ hpayload, hstore⟩
  simp only [Picture.payload, toOption_some.mpr hslots, toOption_some.mpr hrun,
    toOption_some.mpr hpayload, Option.bind_eq_bind, Option.bind_some, if_true]

/-- One reception of the picture: when it is complete, the payload is the image. -/
theorem Picture.receive_carries {p p' : Picture} {line : Line} (hsent : Imaged nFrame image sent)
    (henc : p.payload line nFrame = some image →
      o.encoding image ∈ results ∧ 1 ≤ (o.encoding image).length)
    (h : p.Carries nFrame results sent) (hstatus : p.status ≠ statusProcessed)
    (harrives : line.dataReady = true →
      ∃ wires, Offered nFrame sent wires ∧ Arrives nFrame wires line.reads)
    (hrecv : p.receive o line nFrame = .ok p') : p'.Carries nFrame results sent := by
  have hslots := h.slots hstatus
  have hlen : ¬ 0 < p.bitStream.len := fun hlen => hstatus (status_processed.mpr hlen)
  obtain ⟨sum, slots', hrun, hinfo, hprocess⟩ := receive_ok hrecv
  have hopen (hsame : p'.bitStream = p.bitStream) (hslots' : Holds nFrame sent slots') :
      p'.Carries nFrame results sent := by
    have haddr := h
    rw [Carries, if_neg hlen] at haddr
    rw [Carries, hsame, if_neg hlen, hinfo]
    refine ⟨haddr.1, ?_⟩
    rintro _ ⟨⟩
    exact hslots'
  cases hready : line.dataReady with
  | false =>
      rw [hready] at hrun
      obtain ⟨rfl, rfl⟩ := Prod.mk.inj (Except.ok.inj hrun)
      rw [if_neg (by decide)] at hprocess
      exact hopen hprocess hslots
  | true =>
      obtain ⟨wires, hoffered, harrives⟩ := harrives hready
      obtain ⟨frames, rfl, hsame⟩ := hoffered.written hsent.sendable
      obtain ⟨sum', after, hrun', hafter, hfull⟩ :=
        hslots.receive hsent.sendable (harrives.call hsame)
      rw [hready] at hrun
      obtain ⟨rfl, rfl⟩ := Prod.mk.inj (Except.ok.inj (hrun.symm.trans hrun'))
      split at hprocess
      case isFalse => exact hopen hprocess hafter
      case isTrue hsum =>
          have himaged := hafter.imaged hsent (hfull hsum)
          rw [hsum, ← hready] at hrun'
          obtain ⟨payload, hpayload, himage, hstore⟩ := receive_complete_payload hrun' hrecv
          rw [List.take_of_length_le (Nat.le_of_eq himaged.sendable.length), himaged.carried]
            at himage
          obtain ⟨hmem, hlen⟩ := henc (himage ▸ hpayload)
          have hbytes := store_bytes hstore
          rw [himage] at hbytes
          have hpos : 0 < p'.bitStream.len := by
            rw [← Data8.bytes_length, hbytes]
            exact hlen
          rw [Carries, if_pos hpos, hinfo, hsum, hbytes]
          exact ⟨hmem, UInt16.sub_zero nFrame⟩

/-- The master looks on. -/
theorem Delivery.Kept.turn (hsent : Imaged nFrame image sent) (h : c.Kept k nFrame results sent)
    {e : Event} {slave : Slave} (hturn : c.slave.Turn o e slave)
    (hfaithful : c.Faithful o k nFrame sent (.turn e))
    (henc : c.slave.payload e = some (k, image) →
      o.encoding image ∈ results ∧ 1 ≤ (o.encoding image).length) :
    { c with slave }.Kept k nFrame results sent := by
  rcases Slave.turn_picture hturn k with ⟨n, hacc, hrecv⟩ | ⟨-, hsame⟩
  · obtain ⟨hstatus, rfl, harrives⟩ := hfaithful n hacc
    have henc (hpayload : (c.slave.pictures k).payload e.line n = some image) := henc (by
      simp only [Slave.payload, hacc, hpayload, Option.bind_eq_bind, Option.bind_some,
        Option.pure_def])
    refine ⟨Picture.receive_carries hsent henc h.carries hstatus harrives hrecv, ?_, h.saved⟩
    intro slots hslots
    exact absurd (Picture.status_processed.mpr (h.collecting slots hslots).1) hstatus
  · exact ⟨hsame.symm ▸ h.carries, fun slots hslots => hsame.symm ▸ h.collecting slots hslots,
      h.saved⟩

theorem Delivery.Kept.of_pictures (h : c.Kept k nFrame results sent) {slave : Slave}
    (hsame : slave.pictures = c.slave.pictures) : { c with slave }.Kept k nFrame results sent :=
  ⟨hsame ▸ h.carries, fun slots hslots => hsame ▸ h.collecting slots hslots, h.saved⟩

theorem Slave.turn_query (o : Options) (s : Slave) (nFile : UInt32) (line : Line) :
    s.turn o (.ofFrame (queryRequest nFile) line) =
      .ok (s.query (queryRequest nFile).signed line) := by
  rw [turn_of_request o s (Event.ofFrame_request (f := queryRequest nFile) rfl line),
    handle_query o s _ rfl]
  rfl

theorem Slave.turn_recv (o : Options) (s : Slave) (nFile : UInt32) (line : Line) :
    s.turn o (.ofFrame (recvRequest nFile) line) = s.recv (recvRequest nFile).signed line := by
  rw [turn_of_request o s (Event.ofFrame_request (f := recvRequest nFile) rfl line),
    handle_recv o s _ rfl]
  rfl

/-- A query that ends the wait allocates as many slots as the picture has frames. -/
theorem Delivery.Kept.query (hfit : ∀ result ∈ results, Fitting nFrame result)
    (h : c.Kept k nFrame results sent) {line : Line} {calloc : Bool}
    (hquery : c.query o (UInt32.ofNat k) line calloc = .ok c') : c'.Kept k nFrame results sent := by
  have hk := fileIndex_ofNat k
  have hslave := h.of_pictures
    (Slave.query_pictures c.slave (queryRequest (UInt32.ofNat k)).signed line)
  rw [Delivery.query, Slave.turn_query, ok_bind] at hquery
  dsimp only at hquery
  split at hquery
  case h_1 => exact Except.ok.inj hquery ▸ hslave
  case h_2 inputFrame hreply =>
      obtain ⟨-, rfl⟩ := replyIf_some.mp hreply
      have hfile : (queryRequest (UInt32.ofNat k)).signed.nFile = UInt32.ofNat k := rfl
      simp only [Slave.queryReply, Slave.getStatus, hfile, hk] at hquery
      split at hquery
      case isTrue => exact Except.ok.inj hquery ▸ hslave
      case isFalse hstatus =>
          split at hquery
          case isFalse => contradiction
          case isTrue =>
              obtain rfl := Except.ok.inj hquery
              have hpos := Picture.status_processed.mp (not_not.mp hstatus)
              have hcarries := h.carries
              rw [Picture.Carries, if_pos hpos] at hcarries
              refine ⟨h.carries, ?_, h.saved⟩
              rintro _ ⟨⟩
              refine ⟨hpos, ?_, holds_zero ?_ ?_⟩
              · rw [List.length_replicate, hcarries.2]
              · rw [hcarries.2, List.length_take, List.length_replicate]
                exact Nat.min_eq_left (hfit _ hcarries.1).resultFrames_le
              · intro s hs
                rw [List.eq_of_mem_replicate (List.mem_of_mem_take hs)]
                rfl

/-- What comes of a request to receive that is answered: the reply counts the frames, and they are
on the line. -/
theorem Slave.turn_recv_answer {s s' : Slave} {line : Line} {out : Output} {r : Frame}
    (hfit : Fitting nFrame result) (hbytes : (s.pictures k).bitStream.bytes = result)
    (hsend : ∀ i, line.sendReady i = true)
    (hturn : s.turn o (.ofFrame (recvRequest (UInt32.ofNat k)) line) = .ok (s', out))
    (hreply : out.reply = some r) :
    r.nFrame = resultFrames result ∧ ∃ frames : List DataFrame,
      out.data = frames.map writeDataFrame ∧ frames.map DataFrame.uncounted =
        (answerFrames result (UInt32.ofNat k)).map DataFrame.uncounted := by
  have hk : fileIndex (recvRequest (UInt32.ofNat k)).signed.nFile = some k := fileIndex_ofNat k
  have hready : line.sendReady = fun _ => true := funext hsend
  have hlen : (s.pictures k).bitStream.len = result.length := by
    rw [← Data8.bytes_length, hbytes]
  rw [turn_recv] at hturn
  cases hheap : line.heap with
  | none =>
      have hpos : ¬ result.length = 0 := by
        have hpos := hfit.pos
        omega
      simp only [recv, hk, hlen, if_neg hpos, hheap, Option.map_none, allocDataFrames, ok_bind]
        at hturn
      obtain ⟨-, rfl⟩ := Prod.mk.inj (Except.ok.inj hturn)
      contradiction
  | some heap =>
      obtain ⟨frames, hsame, hrecv⟩ := recv_answer hfit.pos hfit.le hk hbytes hheap
      obtain ⟨-, rfl⟩ := Prod.mk.inj (Except.ok.inj (hturn.symm.trans hrecv))
      obtain ⟨-, rfl⟩ := replyIf_some.mp hreply
      obtain ⟨frames', hwires, hsame'⟩ := sentWires_written s.nTotalFrame frames
      refine ⟨?_, frames', ?_, hsame'.trans hsame⟩
      · rw [recvReply, hlen, resultFrames]
      · rw [← hwires, sentWires, hready]

/-- A request to receive adds to the slots; when all frames are there, the result is saved. -/
theorem Delivery.Kept.recv (hfit : ∀ result ∈ results, Fitting nFrame result)
    (h : c.Kept k nFrame results sent) {slots : List DataFrame}
    (hslots : c.inputDataFrames = some slots) {line : Line} {ready : Bool}
    {reads : List (List UInt8)} {answers : DumpAnswers}
    (hfaithful : c.Faithful o k nFrame sent (.recv line ready reads answers))
    (hrecv : c.recv o (UInt32.ofNat k) slots line ready reads answers = .ok c') :
    c'.Kept k nFrame results sent := by
  obtain ⟨hsend, harrives⟩ := hfaithful
  obtain ⟨hpos, hcollects⟩ := h.collecting slots hslots
  have hcarries := h.carries
  rw [Picture.Carries, if_pos hpos] at hcarries
  obtain ⟨result, hresult⟩ : ∃ result, (c.slave.pictures k).bitStream.bytes = result := ⟨_, rfl⟩
  rw [hresult] at hcarries hcollects
  have hfit := hfit result hcarries.1
  have hanswer := hfit.answer (UInt32.ofNat k)
  have hle : (resultFrames result).toNat ≤ slots.length := hcollects.length ▸ hfit.resultFrames_le
  obtain ⟨⟨slave, out⟩, hturn, hrecv⟩ := bind_ok hrecv
  have hpictures : slave.pictures = c.slave.pictures := by
    have hturn' := hturn
    rw [Slave.turn_recv] at hturn'
    exact Slave.recv_pictures hturn'
  have hslave : { c with slave }.Kept k nFrame results sent := h.of_pictures hpictures
  dsimp only at hrecv
  split at hrecv
  case h_1 => exact Except.ok.inj hrecv ▸ hslave
  case h_2 inputFrame hreply =>
      obtain ⟨hcount, frames, hdata, hsame⟩ :=
        Slave.turn_recv_answer hfit hresult hsend hturn hreply
      rw [hcount] at hrecv
      obtain ⟨⟨sum, after⟩, hrun, hrecv⟩ := bind_ok hrecv
      obtain ⟨hlength, hfirst⟩ := receiveDataFrames_take hle hrun
      have hafter : Collects k nFrame result after ∧
          (sum = 0 → ∀ s ∈ after.take (resultFrames result).toNat, ¬ s.Empty) := by
        cases ready with
        | false =>
            obtain ⟨rfl, rfl⟩ := Prod.mk.inj (Except.ok.inj hrun)
            exact ⟨hcollects, fun hzero => absurd hzero (by decide)⟩
        | true =>
            have hwires := harrives slave out hturn rfl inputFrame hreply
            rw [hdata, hcount] at hwires
            obtain ⟨sum', after', hrun', hafter, hfull⟩ :=
              hcollects.holds.receive hanswer.sendable (hwires.call hsame)
            obtain ⟨rfl, rfl⟩ := Prod.mk.inj (Except.ok.inj (hfirst.symm.trans hrun'))
            exact ⟨⟨hlength.trans hcollects.length, hafter⟩, hfull⟩
      dsimp only at hrecv
      split at hrecv
      case isTrue =>
          obtain rfl := Except.ok.inj hrecv
          refine ⟨hslave.carries, ?_, h.saved⟩
          rintro _ ⟨⟩
          exact ⟨hpictures ▸ hpos, hpictures.symm ▸ hresult.symm ▸ hafter.1⟩
      case isFalse hsum =>
          obtain ⟨⟨size, written⟩, hdump, hrecv⟩ := bind_ok hrecv
          obtain rfl := Except.ok.inj hrecv
          refine ⟨hslave.carries, fun _ hnone => ?_, ?_⟩
          · contradiction
          · intro bytes hbytes
            dsimp only at hbytes
            split at hbytes
            case isTrue => exact h.saved bytes hbytes
            case isFalse hsize =>
                have hzero : sum = 0 := by
                  rw [UInt16.lt_iff_toNat_lt] at hsum
                  exact UInt16.toNat_inj.mp (Nat.eq_zero_of_not_pos hsum)
                have himaged := hafter.1.holds.imaged hanswer (hafter.2 hzero)
                have hwritten := dumpDataFrames_written hdump hsize
                rw [← Option.some.inj hbytes, hwritten, ← List.flatMap_def, himaged.carried]
                exact hcarries.1

end Kept

theorem Delivery.init_kept (k : Fin picturesNumberMax) (nFrame : UInt16)
    (results : Set (List UInt8)) (sent : List DataFrame) :
    Delivery.init.Kept k nFrame results sent := by
  refine ⟨⟨rfl, ?_⟩, fun _ hslots => ?_, fun _ hsaved => ?_⟩
  · intro slots hslots
    contradiction
  · contradiction
  · contradiction

/-- Every move of the two keeps what they have of the picture. -/
theorem Delivery.Kept.step {o : Options} {k : Fin picturesNumberMax} {nFrame : UInt16}
    {image : List UInt8} {results : Set (List UInt8)} {sent : List DataFrame}
    (hsent : Imaged nFrame image sent) (henc : o.encoding image ∈ results)
    (hfit : ∀ result ∈ results, Fitting nFrame result) {c c' : Delivery} {m : Move}
    (h : c.Kept k nFrame results sent) (hfaithful : c.Faithful o k nFrame sent m)
    (hstep : c.Step o (UInt32.ofNat k) m c') : c'.Kept k nFrame results sent := by
  cases m with
  | turn e =>
      obtain hmove := Option.some.inj hstep
      cases hturn : c.slave.turn o e with
      | error fault =>
          rw [hturn] at hmove
          contradiction
      | ok r =>
          obtain ⟨slave, out⟩ := r
          rw [hturn] at hmove
          obtain rfl := Except.ok.inj hmove
          exact h.turn hsent ⟨out, hturn⟩ hfaithful fun _ => ⟨henc, (hfit _ henc).pos⟩
  | query line calloc =>
      cases hslots : c.inputDataFrames with
      | none =>
          simp only [Step, move, hslots] at hstep
          exact h.query hfit (Option.some.inj hstep)
      | some slots =>
          simp only [Step, move, hslots] at hstep
          contradiction
  | recv line ready reads answers =>
      cases hslots : c.inputDataFrames with
      | none =>
          simp only [Step, move, hslots] at hstep
          contradiction
      | some slots =>
          simp only [Step, move, hslots] at hstep
          exact h.recv hfit hslots hfaithful (Option.some.inj hstep)

theorem Delivery.kept_throughout {o : Options} {k : Fin picturesNumberMax} {nFrame : UInt16}
    {image : List UInt8} {sent : List DataFrame} (hsent : Imaged nFrame image sent)
    (hfit : Fitting nFrame (o.encoding image)) {ms : List Move}
    (h : EveryStep (Step o (UInt32.ofNat k)) (Faithful o k nFrame sent) init ms) :
    Throughout (Step o (UInt32.ofNat k)) (Kept k nFrame {o.encoding image} sent) init ms := by
  have henc : o.encoding image ∈ ({o.encoding image} : Set (List UInt8)) := rfl
  have hfit : ∀ result ∈ ({o.encoding image} : Set (List UInt8)), Fitting nFrame result := by
    rintro _ rfl
    exact hfit
  exact h.throughout (fun _ _ _ hkept hm hstep => hkept.step hsent henc hfit hm hstep)
    (fun _ hkept => hkept) (init_kept k nFrame _ sent)

/-- What an encoder makes of a file. -/
def Options.result (o : Options) (content : List UInt8) : List UInt8 :=
  o.encoding (fileImage content)

/-- A dry run saves the image itself. -/
theorem fitting_dryRun {content : List UInt8} (lo : 1 ≤ content.length)
    (hi : content.length ≤ 65535 * frameDataLenMax) :
    Fitting (UInt16.ofNat (countFrames content.length)) (dryRun.result content) := by
  have hlen : (dryRun.result content).length = content.length := fileImage_length lo
  rw [← hlen] at lo
  rw [← hlen] at hi ⊢
  exact ⟨lo, (count_toNat lo hi).ge⟩

/-- Whatever requests come in whatever order and whatever frames are lost or damaged, what the
master saves is the encoding of the image of the file that was read, or dumped. -/
theorem Delivery.saves_image (o : Options) {content : List UInt8} (lo : 1 ≤ content.length)
    (hi : content.length ≤ 65535 * frameDataLenMax) (k : Fin picturesNumberMax)
    (hfit : Fitting (UInt16.ofNat (countFrames content.length)) (o.result content))
    {block : List DataFrame} (hblock : block.length = countFrames content.length) :
    ∃ frames, getDataFrames (some block) content (UInt32.ofNat k) =
        .ok (UInt16.ofNat (countFrames content.length), some frames) ∧
      (∀ ms, EveryStep (Delivery.Step o (UInt32.ofNat k))
          (Delivery.Faithful o k (UInt16.ofNat (countFrames content.length)) frames)
          Delivery.init ms →
        Throughout (Delivery.Step o (UInt32.ofNat k))
          (fun c => ∀ bytes, c.saved = some bytes → bytes = o.result content)
          Delivery.init ms) ∧
      (content.length ≤ frameDataLenMax ∨ frameDataLenMax ∣ content.length →
        fileImage content = content) := by
  obtain ⟨frames, hget, hsent, -⟩ := getDataFrames_imaged lo hi hblock (UInt32.ofNat k)
  refine ⟨frames, hget, ?_, fileImage_eq lo⟩
  intro ms hfaithful ms₁ ms₂ c heq hrun
  exact (Delivery.kept_throughout hsent hfit hfaithful ms₁ ms₂ c heq hrun).saved

/-- An encoder with two bytes for every picture, and a file of one byte. -/
theorem Delivery.saves_image_one : ∃ frames, getDataFrames (some [zeroFrame]) [7] 3 =
      .ok (1, some frames) ∧
    ∀ ms, EveryStep (Delivery.Step ⟨false, fun _ => [1, 2]⟩ 3)
        (Delivery.Faithful ⟨false, fun _ => [1, 2]⟩ ⟨3, by decide⟩ 1 frames) Delivery.init ms →
      Throughout (Delivery.Step ⟨false, fun _ => [1, 2]⟩ 3)
        (fun c => ∀ bytes, c.saved = some bytes → bytes = [1, 2]) Delivery.init ms := by
  obtain ⟨frames, hget, hsaves, -⟩ := Delivery.saves_image ⟨false, fun _ => [1, 2]⟩
    (by decide : 1 ≤ [(7 : UInt8)].length) (by decide) ⟨3, by decide⟩ ⟨by decide, by decide⟩
    (rfl : [zeroFrame].length = _)
  exact ⟨frames, hget, hsaves⟩

/-! The way on from any state. -/

section Completion
variable {o : Options} {k : Fin picturesNumberMax} {nFrame : UInt16} {image result : List UInt8}
  {results : Set (List UInt8)} {sent : List DataFrame} {c : Delivery}

/-- The line of a SEND request on which nothing goes wrong. -/
def wholeLine (reads : List (List UInt8)) : Line := { reads }

theorem store_fresh (o : Options) (enc : List UInt8) {d : Data8} (haddr : d.addr = none) :
    o.store true enc d = .ok ⟨some enc, enc.length, Nat.le_refl _⟩ := by
  simp only [Options.store, haddr, Options.allocate, if_true, ite_self]

/-- A SEND request on which nothing goes wrong leaves nothing missing. -/
theorem Picture.Carries.payload_whole {p : Picture} (hsent : Imaged nFrame image sent)
    (h : p.Carries nFrame results sent) (hstatus : p.status ≠ statusProcessed)
    {wires : List (List UInt8)} (hoffered : Offered nFrame sent wires) :
    p.payload (wholeLine [wires.flatten]) nFrame = some image := by
  obtain ⟨frames, rfl, hsame⟩ := hoffered.written hsent.sendable
  obtain ⟨after, hrun, -, hafter⟩ := (h.slots hstatus).complete hsent hsame
  obtain ⟨payload, hpayload⟩ :=
    dataFramesToData_ok after (Nat.le_of_eq hafter.sendable.length.symm) hafter.dataLen
  have himage := dataFramesToData_carried after _ hpayload
  rw [List.take_of_length_le (Nat.le_of_eq hafter.sendable.length), hafter.carried] at himage
  have hprepare := @prepare_calloc p (wholeLine [(frames.map writeDataFrame).flatten]) rfl nFrame
  have hready (reads : List (List UInt8)) : (wholeLine reads).dataReady = true := rfl
  have hreads (reads : List (List UInt8)) : (wholeLine reads).reads = reads := rfl
  simp only [Picture.payload, toOption_some.mpr hprepare, hready, hreads, toOption_some.mpr hrun,
    toOption_some.mpr hpayload, himage, Option.bind_eq_bind, Option.bind_some, if_true]

theorem Picture.receive_complete {p : Picture} (hsent : Imaged nFrame image sent)
    (henc : o.encoding image = result) (h : p.Carries nFrame results sent)
    (hstatus : p.status ≠ statusProcessed) {wires : List (List UInt8)}
    (hoffered : Offered nFrame sent wires) :
    ∃ p', p.receive o (wholeLine [wires.flatten]) nFrame = .ok p' ∧
      p'.bitStream.bytes = result := by
  obtain ⟨info, hreceive⟩ := receive_payload o (h.payload_whole hsent hstatus hoffered)
  have hlen : ¬ 0 < p.bitStream.len := fun hlen => hstatus (status_processed.mpr hlen)
  rw [Carries, if_neg hlen] at h
  have hmalloc : (wholeLine [wires.flatten]).malloc = true := rfl
  rw [hmalloc, store_fresh o _ h.1, ok_bind] at hreceive
  refine ⟨_, hreceive, ?_⟩
  rw [Data8.bytes, Option.getD_some, List.take_length]
  exact henc

theorem Slave.turn_recv_whole {s : Slave} (hfit : Fitting nFrame result)
    (hbytes : (s.pictures k).bitStream.bytes = result) :
    ∃ s' r, ∃ frames : List DataFrame, s.turn o (.ofFrame (recvRequest (UInt32.ofNat k)) {}) =
        .ok (s', ⟨some r, frames.map writeDataFrame⟩) ∧
      r.nFrame = resultFrames result ∧ frames.map DataFrame.uncounted =
        (answerFrames result (UInt32.ofNat k)).map DataFrame.uncounted := by
  have hk : fileIndex (recvRequest (UInt32.ofNat k)).signed.nFile = some k := fileIndex_ofNat k
  obtain ⟨frames, hsame, hrecv⟩ := @recv_answer _ hfit.pos hfit.le s k _ {} hk hbytes _ rfl
  obtain ⟨frames', hwires, hsame'⟩ := sentWires_written s.nTotalFrame frames
  rw [sentWires] at hwires
  refine ⟨_, _, frames', (turn_recv o s (UInt32.ofNat k) {}).trans (hwires ▸ hrecv), ?_,
    hsame'.trans hsame⟩
  rw [recvReply, ← Data8.bytes_length, hbytes, resultFrames]

/-- With slots at hand, a request to receive on which nothing goes wrong saves the result. -/
theorem Delivery.Kept.collect (hfit : ∀ result ∈ results, Fitting nFrame result)
    (h : c.Kept k nFrame results sent) {slots : List DataFrame}
    (hslots : c.inputDataFrames = some slots) :
    ∃ reads c', c.Step o (UInt32.ofNat k) (.recv {} true reads takenAnswers) c' ∧
      c.Faithful o k nFrame sent (.recv {} true reads takenAnswers) ∧
      ∃ result ∈ results, c'.saved = some result := by
  obtain ⟨hpos, hcollects⟩ := h.collecting slots hslots
  have hcarries := h.carries
  rw [Picture.Carries, if_pos hpos] at hcarries
  obtain ⟨result, hresult⟩ : ∃ result, (c.slave.pictures k).bitStream.bytes = result := ⟨_, rfl⟩
  rw [hresult] at hcarries hcollects
  have hfit := hfit result hcarries.1
  have hanswer := hfit.answer (UInt32.ofNat k)
  have hle : (resultFrames result).toNat ≤ slots.length := hcollects.length ▸ hfit.resultFrames_le
  obtain ⟨slave, r, frames, hturn, hcount, hsame⟩ :=
    Slave.turn_recv_whole (o := o) hfit hresult
  obtain ⟨after, hfirst, -, hafter⟩ := hcollects.holds.complete hanswer hsame
  -- the slots behind the result take no part
  obtain ⟨sum, slots', hrun, -⟩ :=
    receiveDataFrames_inside hle true [(frames.map writeDataFrame).flatten]
  obtain ⟨rfl, rfl⟩ := Prod.mk.inj (Except.ok.inj
    ((receiveDataFrames_take hle hrun).2.symm.trans hfirst))
  obtain ⟨size, written, hdump, hsize, hwritten⟩ := dumpDataFrames_imaged hafter
  rw [dumpDataFrames_take] at hdump
  have hframes : frames.length = (resultFrames result).toNat := by
    rw [← hanswer.sendable.length]
    simpa using congrArg List.length hsame
  have hsum : ¬ (0 : UInt16) < 0 := by decide
  refine ⟨[(frames.map writeDataFrame).flatten], { slave, saved := some result }, ?_,
    ⟨fun _ => rfl, ?_⟩, result, hcarries.1, rfl⟩
  · simp only [Step, move, hslots, Delivery.recv, hturn, ok_bind, hcount, hrun, if_neg hsum, hdump,
      if_neg hsize, hwritten]
  · intro slave' out hout _ r' hr'
    obtain ⟨-, rfl⟩ := Prod.mk.inj (Except.ok.inj (hturn.symm.trans hout))
    obtain rfl := Option.some.inj hr'
    exact hcount ▸ arrives_written hframes

/-- There are faithful moves, no more than so many, that save the result. -/
def Delivery.Completes (o : Options) (k : Fin picturesNumberMax) (nFrame : UInt16)
    (result : List UInt8) (sent : List DataFrame) (bound : Nat) (c : Delivery) : Prop :=
  Within (Delivery.Step o (UInt32.ofNat k)) (Delivery.Faithful o k nFrame sent)
    (fun c' => c'.saved = some result) bound c

theorem Delivery.step_deterministic {nFile : UInt32} {m : Delivery.Move} {c₁ c₂ : Delivery}
    (h₁ : c.Step o nFile m c₁) (h₂ : c.Step o nFile m c₂) : c₂ = c₁ :=
  Except.ok.inj (Option.some.inj (h₂.symm.trans h₁))

/-- The query that ends the wait. -/
theorem Delivery.query_processed (o : Options) (k : Fin picturesNumberMax)
    (hpos : 0 < (c.slave.pictures k).bitStream.len) :
    ∃ slave slots, c.query o (UInt32.ofNat k) {} true =
      .ok { c with slave, inputDataFrames := some slots } := by
  have hfile : (queryRequest (UInt32.ofNat k)).signed.nFile = UInt32.ofNat k := rfl
  have hstatus : c.slave.getStatus (UInt32.ofNat k) = statusProcessed := by
    simpa only [Slave.getStatus, fileIndex_ofNat] using Picture.status_processed.mpr hpos
  let inputFrame := c.slave.queryReply (queryRequest (UInt32.ofNat k)).signed
  refine ⟨(c.slave.query (queryRequest (UInt32.ofNat k)).signed {}).1,
    List.replicate inputFrame.nFrame.toNat zeroFrame, ?_⟩
  rw [Delivery.query, Slave.turn_query, ok_bind]
  simp only [Slave.query, replyIf, if_true, Slave.queryReply, hfile, hstatus, ne_eq, not_true,
    if_false]
  rfl

/-- A SEND request on which nothing goes wrong. -/
def wholeSend (k : Fin picturesNumberMax) (nFrame : UInt16) (sent : List DataFrame) : Event :=
  .ofFrame (sendRequest (UInt32.ofNat k) nFrame) (wholeLine [(sentWires 0 sent).flatten])

theorem wholeSend_accepted (k : Fin picturesNumberMax) (nFrame : UInt16) (sent : List DataFrame) :
    (wholeSend k nFrame sent).accepted = some (k, nFrame) :=
  Event.ofFrame_accepted nFrame _ (fileIndex_ofNat k) rfl

theorem Delivery.faithful_whole (hsent : Imaged nFrame image sent)
    (hstatus : (c.slave.pictures k).status ≠ statusProcessed) :
    c.Faithful o k nFrame sent (.turn (wholeSend k nFrame sent)) := by
  obtain ⟨frames, hwires, hsame⟩ := sentWires_written 0 sent
  have hlen : frames.length = nFrame.toNat := by
    rw [← hsent.sendable.length]
    simpa using congrArg List.length hsame
  intro n hacc
  obtain ⟨-, rfl⟩ := Prod.mk.inj (Option.some.inj ((wholeSend_accepted _ _ _).symm.trans hacc))
  refine ⟨hstatus, rfl, fun _ => ⟨sentWires 0 sent, .counted 0, ?_⟩⟩
  change Arrives _ _ [(sentWires 0 sent).flatten]
  rw [hwires]
  exact arrives_written hlen

theorem Delivery.Kept.way_on (hsent : Imaged nFrame image sent) (henc : o.encoding image = result)
    (hfit : Fitting nFrame result) (h : c.Kept k nFrame {result} sent) :
    c.Completes o k nFrame result sent 3 := by
  have hfits : ∀ bytes ∈ ({result} : Set (List UInt8)), Fitting nFrame bytes := by
    rintro _ rfl
    exact hfit
  have collecting {c : Delivery} (h : c.Kept k nFrame {result} sent) {slots : List DataFrame}
      (hslots : c.inputDataFrames = some slots) : c.Completes o k nFrame result sent 1 := by
    obtain ⟨reads, c', hstep, hfaithful, bytes, hbytes, hsaved⟩ := h.collect (o := o) hfits hslots
    rw [Set.mem_singleton_iff.mp hbytes] at hsaved
    have hdone : c'.Completes o k nFrame result sent 0 := .here hsaved
    exact hdone.cons (fun _ => step_deterministic hstep) hstep hfaithful
  have processed {c : Delivery} (h : c.Kept k nFrame {result} sent)
      (hpos : 0 < (c.slave.pictures k).bitStream.len) : c.Completes o k nFrame result sent 2 := by
    cases hslots : c.inputDataFrames with
    | some slots => exact (collecting h hslots).mono (by decide)
    | none =>
        obtain ⟨slave, slots, hquery⟩ := c.query_processed o k hpos
        have hstep : c.Step o (UInt32.ofNat k) (.query {} true)
            { c with slave, inputDataFrames := some slots } := by
          simp only [Step, move, hslots, hquery]
        exact (collecting (h.query hfits hquery) rfl).cons (fun _ => step_deterministic hstep)
          hstep trivial
  by_cases hpos : 0 < (c.slave.pictures k).bitStream.len
  · exact (processed h hpos).mono (by decide)
  · -- one more SEND request on which nothing goes wrong
    have hstatus : (c.slave.pictures k).status ≠ statusProcessed := fun hstatus =>
      hpos (Picture.status_processed.mp hstatus)
    obtain ⟨p, hreceive, hbytes⟩ :=
      Picture.receive_complete hsent henc h.carries hstatus (.counted 0)
    obtain ⟨slave, ⟨out, hturn⟩, hpictures⟩ :=
      Slave.turn_sendRequest (fileIndex_ofNat k) rfl hreceive
    have hfaithful := c.faithful_whole (o := o) hsent hstatus
    have hstep : c.Step o (UInt32.ofNat k) (.turn (wholeSend k nFrame sent)) { c with slave } := by
      simp only [Step, move, wholeSend, hturn]
      rfl
    have hkept : { c with slave }.Kept k nFrame {result} sent :=
      h.step hsent henc hfits hfaithful hstep
    have hpos' : 0 < (slave.pictures k).bitStream.len := by
      rw [hpictures, Function.update_self, ← Data8.bytes_length, hbytes]
      exact hfit.pos
    exact (processed hkept hpos').cons (fun _ => step_deterministic hstep) hstep hfaithful

end Completion

/-- From every state that can be reached three moves are enough to have the result saved. -/
theorem Delivery.completes (o : Options) {content : List UInt8} (lo : 1 ≤ content.length)
    (hi : content.length ≤ 65535 * frameDataLenMax) (k : Fin picturesNumberMax)
    (hfit : Fitting (UInt16.ofNat (countFrames content.length)) (o.result content))
    {block : List DataFrame} (hblock : block.length = countFrames content.length) :
    ∃ frames, getDataFrames (some block) content (UInt32.ofNat k) =
        .ok (UInt16.ofNat (countFrames content.length), some frames) ∧
      ∀ ms c, Run (Delivery.Step o (UInt32.ofNat k)) Delivery.init ms c →
        EveryStep (Delivery.Step o (UInt32.ofNat k))
          (Delivery.Faithful o k (UInt16.ofNat (countFrames content.length)) frames)
          Delivery.init ms →
        c.Completes o k (UInt16.ofNat (countFrames content.length)) (o.result content) frames
          3 := by
  obtain ⟨frames, hget, hsent, -⟩ := getDataFrames_imaged lo hi hblock (UInt32.ofNat k)
  refine ⟨frames, hget, ?_⟩
  intro ms c hrun hfaithful
  have hkept := Delivery.kept_throughout hsent hfit hfaithful
  have hlast := hkept ms [] c (List.append_nil ms).symm hrun
  exact hlast.way_on hsent rfl hfit

/-- A run that saves the two bytes made of a file of one. -/
theorem Delivery.completes_one : ∃ ms c, ms.length ≤ 3 ∧
    Run (Delivery.Step ⟨false, fun _ => [1, 2]⟩ 3) Delivery.init ms c ∧ c.saved = some [1, 2] := by
  obtain ⟨frames, -, hcompletes⟩ := Delivery.completes ⟨false, fun _ => [1, 2]⟩
    (by decide : 1 ≤ [(7 : UInt8)].length) (by decide) ⟨3, by decide⟩ ⟨by decide, by decide⟩
    (rfl : [zeroFrame].length = _)
  obtain ⟨ms, c, hlen, hrun, -, hsaved⟩ := hcompletes [] Delivery.init (.nil _) everyStep_nil
  exact ⟨ms, c, hlen, hrun, hsaved⟩

/-- The dump of a file stands for the file: it keeps the number and the frames, and the master that
replays it puts its bytes on the line; they complete the picture, whatever it has been sent. -/
theorem Delivery.replays_dump (o : Options) {content : List UInt8} (lo : 1 ≤ content.length)
    (hi : content.length ≤ 65535 * frameDataLenMax) (k : Fin picturesNumberMax)
    (hfit : Fitting (UInt16.ofNat (countFrames content.length)) (o.result content))
    {block : List DataFrame} (hblock : block.length = countFrames content.length) :
    let n := UInt16.ofNat (countFrames content.length)
    ∃ frames loaded, getDataFrames (some block) content (UInt32.ofNat k) = .ok (n, some frames) ∧
      (∀ heap, getDataFramesBinary (some heap) (dumpFile frames n) =
        .ok (UInt32.ofNat k, n, loaded)) ∧
      (directWires loaded).flatten = dumpFile frames n ∧
      ∀ ms c, Run (Delivery.Step o (UInt32.ofNat k)) Delivery.init ms c →
        EveryStep (Delivery.Step o (UInt32.ofNat k)) (Delivery.Faithful o k n frames)
          Delivery.init ms →
        (c.slave.pictures k).status ≠ statusProcessed →
        ∃ slave, c.slave.Turn o (.ofFrame (sendRequest (UInt32.ofNat k) n)
            (wholeLine [(directWires loaded).flatten])) slave ∧
          (slave.pictures k).bitStream.bytes = o.result content ∧
          ∀ j ≠ k, slave.pictures j = c.slave.pictures j := by
  intro n
  obtain ⟨frames, hget, hsent, hfile⟩ := getDataFrames_imaged lo hi hblock (UInt32.ofNat k)
  have hpos : 0 < n.toNat := by
    rw [count_toNat lo hi]
    exact (countFrames_pos lo).1
  have hload := getDataFramesBinary_sendable hsent.sendable hpos hfile
  refine ⟨frames, _, hget, hload, ?_, ?_⟩
  · have htake : frames.take n.toNat = frames := List.take_of_length_le hsent.sendable.length.le
    rw [directWires_loaded, dumpFile, htake, List.flatMap_def]
  · intro ms c hrun hfaithful hstatus
    have hkept := Delivery.kept_throughout hsent hfit hfaithful
    have hlast := hkept ms [] c (List.append_nil ms).symm hrun
    obtain ⟨p, hreceive, hbytes⟩ :=
      Picture.receive_complete hsent rfl hlast.carries hstatus (.replayed (hload fun _ => 0))
    obtain ⟨slave, hturn, hpictures⟩ := Slave.turn_sendRequest (fileIndex_ofNat k) rfl hreceive
    refine ⟨slave, hturn, ?_, fun j hj => ?_⟩
    · rw [hpictures, Function.update_self, hbytes]
      rfl
    · rw [hpictures, Function.update_of_ne hj]

/-- The dump of a file of one byte completes it from the start. -/
theorem Delivery.replays_dump_one : ∃ frames loaded,
    getDataFrames (some [zeroFrame]) [7] 3 = .ok (1, some frames) ∧
    (∀ heap, getDataFramesBinary (some heap) (dumpFile frames 1) = .ok (3, 1, loaded)) ∧
    ∃ slave, Slave.init.Turn dryRun (.ofFrame (sendRequest 3 1)
        (wholeLine [(directWires loaded).flatten])) slave ∧
      (slave.pictures ⟨3, by decide⟩).bitStream.bytes = [7] := by
  have lo : 1 ≤ [(7 : UInt8)].length := by decide
  have hi : [(7 : UInt8)].length ≤ 65535 * frameDataLenMax := by decide
  obtain ⟨frames, loaded, hget, hload, -, hturn⟩ := Delivery.replays_dump dryRun lo hi
    ⟨3, by decide⟩ (fitting_dryRun lo hi) (rfl : [zeroFrame].length = _)
  have hstatus : (Delivery.init.slave.pictures ⟨3, by decide⟩).status ≠ statusProcessed := by decide
  obtain ⟨slave, hturn, hbytes, -⟩ := hturn [] Delivery.init (.nil _) everyStep_nil hstatus
  exact ⟨frames, loaded, hget, hload, slave, hturn,
    hbytes.trans (fileImage_eq lo (.inl (by decide)))⟩

end Soc
