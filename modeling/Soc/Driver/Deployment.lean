import Soc.Driver.Streams
import Soc.Protocol.Delivery

/-!
The whole of it: the master, the line, the slave and the device.

A turn of the slave with the device is a turn of the slave with some encoder, and the board changes
in it if and only if a picture is complete. So a picture passes the device as it passes any
encoder, and what the master saves of it is the stream of the coefficients that the network computes
from the planes of the file.
-/
namespace Soc
open Runs

/-! A turn of the slave with the device. -/

/-- The slave with the device, in a turn in which the coder ends with these bytes. -/
def coder (enc : List UInt8) : Options := ⟨false, fun _ => enc⟩

namespace Board
variable (b : Board) (platform : Platform) (reg : AccReg) (answers : PictureAnswers)

/-- The end of `process_data_frames`: what is coded is copied to the block of the bit stream. -/
def process (malloc : Bool) (dataFrames : List DataFrame) (nFrame : UInt16) (bitStream : Data8) :
    Except Fault (Data8 × Board) := do
  let (encRes, b) ← b.processDataFrames platform dataFrames nFrame.toNat reg answers
  let bitStream ← (coder []).store malloc (encRes.data.take encRes.length) bitStream
  .ok (bitStream, b)

/-- `TP_FRAME_TYPE_SEND` from `get_status` on. -/
def receive (line : Line) (nFrame : UInt16) (p : Picture) : Except Fault (Picture × Board) := do
  let slots ← p.prepare line nFrame
  let (sum, slots) ← receiveDataFrames line.dataReady line.reads slots nFrame
  let info := { addr := some slots, len := nFrame - sum, totalLen := nFrame }
  if sum = 0 then
    let (bitStream, b) ← b.process platform reg answers line.malloc slots nFrame p.bitStream
    .ok (⟨bitStream, info⟩, b)
  else .ok (⟨p.bitStream, info⟩, b)

def send (s : Slave) (inputFrame : Frame) (line : Line) : Except Fault (Slave × Output × Board) :=
  match fileIndex inputFrame.nFile with
  | none => .ok (s, {}, b)
  | some k =>
    let outputFrame := s.sendReply inputFrame
    if line.replyReady then do
      let (picture, b) ← b.receive platform reg answers line inputFrame.nFrame (s.pictures k)
      .ok ({ s with pictures := Function.update s.pictures k picture, outputFrame },
        { reply := some outputFrame }, b)
    else .ok ({ s with outputFrame }, {}, b)

/-- The `switch` on the frame type. Only a SEND request gets to the device. -/
def handle (s : Slave) (inputFrame : Frame) (line : Line) :
    Except Fault (Slave × Output × Board) :=
  if inputFrame.frameType = frameTypeQuery then
    let (s, out) := s.query inputFrame line
    .ok (s, out, b)
  else if inputFrame.frameType = frameTypeSend then
    b.send platform reg answers s inputFrame line
  else if inputFrame.frameType = frameTypeRecv then do
    let (s, out) ← s.recv inputFrame line
    .ok (s, out, b)
  else .ok (s, {}, b)

/-- One turn of the main loop, with the registers of `main`. -/
def turn (s : Slave) (e : Event) : Except Fault (Slave × Output × Board) := do
  let (n, inputFrame) ← receiveFrame e.ready e.read {}
  if n ≤ 0 ∨ inputFrame.address ≠ addressMaster then .ok (s, {}, b)
  else b.handle platform reg answers s inputFrame e.line

/-- What a turn makes of the board, and what the coder ends with: nothing happens to the board
without a payload. -/
def Processed (b' : Board) (enc : List UInt8) : Option (List UInt8) → Prop
  | none => b' = b
  | some payload => ∃ (frames : List DataFrame) (nFrame : UInt16) (r : CodingResult),
      dataFramesToData frames nFrame.toNat = .ok payload ∧
      b.processDataFrames platform frames nFrame.toNat reg answers = .ok (r, b') ∧
      enc = r.data.take r.length

variable {b platform reg answers} {b' : Board} {s s' : Slave} {e : Event} {line : Line}
  {nFrame : UInt16}

theorem receive_refines {p p' : Picture}
    (h : b.receive platform reg answers line nFrame p = .ok (p', b')) :
    ∃ enc, p.receive (coder enc) line nFrame = .ok p' ∧
      b.Processed platform reg answers b' enc (p.payload line nFrame) := by
  obtain ⟨slots, hslots, h⟩ := bind_ok h
  obtain ⟨⟨sum, slots'⟩, hrun, h⟩ := bind_ok h
  by_cases hsum : sum = 0
  · simp only [if_pos hsum] at h
    obtain ⟨⟨bitStream, b₁⟩, hprocess, h⟩ := bind_ok h
    obtain ⟨rfl, rfl⟩ := Prod.mk.inj (Except.ok.inj h)
    obtain ⟨⟨r, b₂⟩, hcode, hprocess⟩ := bind_ok hprocess
    obtain ⟨stored, hstore, hprocess⟩ := bind_ok hprocess
    obtain ⟨rfl, rfl⟩ := Prod.mk.inj (Except.ok.inj hprocess)
    have hcode' := hcode
    obtain ⟨payload, hpayload, -⟩ := bind_ok hcode'
    refine ⟨r.data.take r.length, ?_, ?_⟩
    · simp only [Picture.receive, hslots, ok_bind, hrun, if_pos hsum, Soc.processDataFrames,
        hpayload]
      change ((coder []).store _ (r.data.take r.length) _ >>= _) = _
      rw [hstore]
      rfl
    · have hsome : p.payload line nFrame = some payload := by
        simp only [Picture.payload, toOption_some.mpr hslots, toOption_some.mpr hrun,
          toOption_some.mpr hpayload, if_pos hsum, Option.bind_eq_bind, Option.bind_some]
      rw [hsome]
      exact ⟨slots', nFrame, r, hpayload, hcode, rfl⟩
  · simp only [if_neg hsum] at h
    obtain ⟨rfl, rfl⟩ := Prod.mk.inj (Except.ok.inj h)
    have hnone : p.payload line nFrame = none := by
      simp only [Picture.payload, toOption_some.mpr hslots, toOption_some.mpr hrun, if_neg hsum,
        Option.bind_eq_bind, Option.bind_some]
    refine ⟨[], ?_, hnone ▸ rfl⟩
    simp only [Picture.receive, hslots, ok_bind, hrun, if_neg hsum]

/-- No request but an accepted one to send gets to the device. -/
theorem turn_unaccepted (b : Board) (platform : Platform) (reg : AccReg)
    (answers : PictureAnswers) (o : Options) (s : Slave) (h : e.accepted = none) :
    b.turn platform reg answers s e = s.turn o e >>= fun (s, out) => .ok (s, out, b) := by
  unfold Event.accepted Event.request at h
  unfold turn Slave.turn
  cases hrecv : receiveFrame e.ready e.read {} with
  | error fault => rfl
  | ok r =>
      obtain ⟨n, f⟩ := r
      simp only [hrecv] at h
      simp only [ok_bind]
      by_cases hskip : n ≤ 0 ∨ f.address ≠ addressMaster
      · simp only [if_pos hskip, ok_bind]
      · simp only [if_neg hskip] at h ⊢
        unfold handle Slave.handle
        by_cases hquery : f.frameType = frameTypeQuery
        · simp only [if_pos hquery, ok_bind]
        · by_cases hsend : f.frameType = frameTypeSend
          · simp only [if_neg hquery, if_pos hsend]
            unfold send Slave.send
            cases hk : fileIndex f.nFile with
            | none => rfl
            | some k =>
                have hready : ¬ e.line.replyReady = true := by
                  intro hready
                  simp only [hsend, hready, and_self, if_true, hk] at h
                  contradiction
                simp only [if_neg hready, ok_bind]
          · by_cases hrecv : f.frameType = frameTypeRecv
            · simp only [if_neg hquery, if_neg hsend, if_pos hrecv]
            · simp only [if_neg hquery, if_neg hsend, if_neg hrecv, ok_bind]

/-- Accepting a SEND request comes down to the reception, with the device as without it. -/
theorem turn_accepted (b : Board) (platform : Platform) (reg : AccReg) (answers : PictureAnswers)
    (s : Slave) {k : Fin picturesNumberMax} (h : e.accepted = some (k, nFrame)) :
    ∃ outputFrame, (∀ o, s.turn o e = (s.pictures k).receive o e.line nFrame >>= fun picture =>
        .ok ({ s with pictures := Function.update s.pictures k picture, outputFrame },
          { reply := some outputFrame })) ∧
      b.turn platform reg answers s e =
        b.receive platform reg answers e.line nFrame (s.pictures k) >>= fun (picture, b) =>
          .ok ({ s with pictures := Function.update s.pictures k picture, outputFrame },
            { reply := some outputFrame }, b) := by
  obtain ⟨f, hrequest, hsend, hready, hk, rfl⟩ := Event.accepted_request h
  refine ⟨s.sendReply f, fun o => ?_, ?_⟩
  · rw [Slave.turn_of_request o s hrequest, Slave.handle_send o s e.line hsend]
    simp only [Slave.send, hk, hready, if_true]
  · have hquery := Frame.send_not_query hsend
    unfold Event.request at hrequest
    cases hrecv : receiveFrame e.ready e.read {} with
    | error fault =>
        rw [hrecv] at hrequest
        contradiction
    | ok r =>
        obtain ⟨n, g⟩ := r
        simp only [hrecv] at hrequest
        by_cases hskip : n ≤ 0 ∨ g.address ≠ addressMaster
        · rw [if_pos hskip] at hrequest
          contradiction
        · rw [if_neg hskip] at hrequest
          obtain rfl := Option.some.inj hrequest
          simp only [turn, hrecv, ok_bind, if_neg hskip, handle, if_neg hquery, if_pos hsend, send,
            hk, hready, if_true]

/-- A turn with the device is a turn with an encoder, and the board is that of the payload. -/
theorem turn_refines {out : Output}
    (h : b.turn platform reg answers s e = .ok (s', out, b')) :
    ∃ enc, s.turn (coder enc) e = .ok (s', out) ∧
      b.Processed platform reg answers b' enc ((s.payload e).map Prod.snd) := by
  cases hacc : e.accepted with
  | none =>
      rw [turn_unaccepted b platform reg answers (coder []) s hacc] at h
      obtain ⟨⟨s₁, out₁⟩, hturn, h⟩ := bind_ok h
      obtain ⟨rfl, hrest⟩ := Prod.mk.inj (Except.ok.inj h)
      obtain ⟨rfl, rfl⟩ := Prod.mk.inj hrest
      have hnone : s.payload e = none := by
        simp only [Slave.payload, hacc, Option.bind_eq_bind, Option.bind_none]
      exact ⟨[], hturn, hnone ▸ rfl⟩
  | some a =>
      obtain ⟨k, nFrame⟩ := a
      obtain ⟨outputFrame, hplain, hturn⟩ := turn_accepted b platform reg answers s hacc
      rw [hturn] at h
      obtain ⟨⟨picture, b₁⟩, hreceive, h⟩ := bind_ok h
      obtain ⟨rfl, hrest⟩ := Prod.mk.inj (Except.ok.inj h)
      obtain ⟨rfl, rfl⟩ := Prod.mk.inj hrest
      obtain ⟨enc, hrefined, hprocessed⟩ := receive_refines hreceive
      refine ⟨enc, by rw [hplain, hrefined, ok_bind], ?_⟩
      have hpayload : (s.payload e).map Prod.snd = (s.pictures k).payload e.line nFrame := by
        simp only [Slave.payload, hacc, Option.bind_eq_bind, Option.bind_some, Option.pure_def]
        cases (s.pictures k).payload e.line nFrame with
        | none => rfl
        | some payload => rfl
      exact hpayload ▸ hprocessed

end Board

/-! What the device makes of a payload. -/

/-- What a payload asks of the kernel. -/
structure Board.Serves (b : Board) (network : Network) (weights : List UInt8) (reg : AccReg)
    (answers : PictureAnswers) (payload : List UInt8) : Prop where
  sampled : 6 ≤ payload.length
  granted : answers.Granted network weights payload b.addrList
  keeps : answers.y.Keeps reg ∧ answers.u.Keeps reg

theorem codeChannels_pos {charIsSigned : Bool} {T : Tables} {heap : Nat → Nat → Gmm}
    {channels : List (List Int16 × List Int16)} {r : CodingResult}
    (h : codeChannels charIsSigned T heap channels = .ok r) : 1 ≤ r.length := by
  obtain ⟨subbands, -, h⟩ := bind_ok h
  obtain ⟨c, -, h⟩ := bind_ok h
  obtain ⟨⟨header, s⟩, -, h⟩ := bind_ok h
  obtain ⟨e, -, h⟩ := bind_ok h
  obtain ⟨bout, -, h⟩ := bind_ok h
  split at h
  case isTrue => cases h
  case isFalse =>
      obtain rfl := Except.ok.inj h
      exact Nat.le_add_left 1 _

section Processed
variable {platform : Platform} {network : Network} {reg : AccReg} {weights : List UInt8}
  {answers : PictureAnswers} {b b' : Board} {enc payload : List UInt8}

/-- With the weights in the PL the device is the network and the coder, and the weights stay. -/
theorem Board.Processed.spec (hdma : platform.dma.Copies) (hacc : platform.acc.Computes network)
    (hbelow : reg.Below) (hweights : reg.readWeights b.pl = weights)
    (hserves : b.Serves network weights reg answers payload)
    (h : b.Processed platform reg answers b' enc (some payload)) :
    (∃ r, network.encode platform.charIsSigned platform.tables answers.heap weights payload =
      .ok r ∧ enc = r.data.take r.length) ∧ reg.readWeights b'.pl = weights := by
  obtain ⟨frames, nFrame, r, hunpacked, hrun, henc⟩ := h
  have hframes : nFrame.toNat ≤ 65535 := Nat.le_of_lt_succ nFrame.toNat_lt
  obtain ⟨b₁, heq, hleft⟩ := Board.processDataFrames_spec hdma hacc hunpacked hframes
    hserves.sampled hbelow (hweights.symm ▸ hserves.granted) hserves.keeps
  obtain ⟨r', hencode, hsame⟩ := bind_ok (heq.symm.trans hrun)
  obtain ⟨rfl, rfl⟩ := Prod.mk.inj (Except.ok.inj hsame)
  refine ⟨⟨r', hweights ▸ hencode, henc⟩, ?_⟩
  rw [AccReg.readWeights, Copies.read_congr hleft.weights]
  exact hweights

/-- The streams of a picture: each is decoded to what the network computes, and has no more frames
than the picture. -/
def Network.streams (network : Network) (T : Tables) (weights image : List UInt8)
    (nFrame : UInt16) : Set (List UInt8) :=
  {bytes | Fitting nFrame bytes ∧ ∃ heap r, r.data = bytes ∧
    Decodes T heap (network.channels weights image) r}

/-- What the coder needs for a picture: positive deviations, and a result that takes no more frames
than the picture. -/
structure Network.Codes (network : Network) (platform : Platform) (weights payload : List UInt8)
    (heap : Nat → Nat → Gmm) (nFrame : UInt16) : Prop where
  positive : PositiveAll heap (network.channels weights payload)
  frames : ∀ r, network.encode platform.charIsSigned platform.tables heap weights payload = .ok r →
    countFrames r.length ≤ nFrame.toNat

theorem Network.Codes.stream {nFrame : UInt16} {heap : Nat → Nat → Gmm} {r : CodingResult}
    (h : network.Codes platform weights payload heap nFrame) (usable : platform.tables.Usable)
    (hrun : network.encode platform.charIsSigned platform.tables heap weights payload = .ok r) :
    r.data.take r.length ∈ network.streams platform.tables weights payload nFrame := by
  have hdecodes := coded_decodes usable h.positive hrun
  have hpos := codeChannels_pos hrun
  have hframes := h.frames r hrun
  rw [← hdecodes.length] at hpos hframes ⊢
  rw [List.take_length]
  exact ⟨⟨hpos, hframes⟩, heap, r, rfl, hdecodes⟩

end Processed

/-! The three of them. -/

/-- The master, the slave and the board. -/
structure Deployment extends Delivery where
  board : Board

/-- What happens next, as without the device, and the answers for a picture that is complete. -/
inductive Deployment.Move where
  | turn (e : Event) (answers : PictureAnswers)
  | query (line : Line) (calloc : Bool)
  | recv (line : Line) (ready : Bool) (reads : List (List UInt8)) (answers : DumpAnswers)

/-- A query and a request to receive do not get to the device. -/
def Deployment.move (platform : Platform) (reg : AccReg) (nFile : UInt32) (c : Deployment) :
    Move → Option (Except Fault Deployment)
  | .turn e answers => some do
    let (slave, _, board) ← c.board.turn platform reg answers c.slave e
    .ok { c with slave, board }
  | .query line calloc =>
    (c.toDelivery.move (coder []) nFile (.query line calloc)).map fun r =>
      r.map fun toDelivery => { c with toDelivery }
  | .recv line ready reads answers =>
    (c.toDelivery.move (coder []) nFile (.recv line ready reads answers)).map fun r =>
      r.map fun toDelivery => { c with toDelivery }

def Deployment.Step (platform : Platform) (reg : AccReg) (nFile : UInt32) (c : Deployment)
    (m : Move) (c' : Deployment) : Prop := c.move platform reg nFile m = some (.ok c')

/-- As without the device; and the kernel serves every picture that is complete, and the coder the
one of file `k`. -/
def Deployment.Faithful (network : Network) (platform : Platform) (reg : AccReg)
    (weights : List UInt8) (k : Fin picturesNumberMax) (nFrame : UInt16) (sent : List DataFrame)
    (c : Deployment) : Move → Prop
  | .turn e answers => c.toDelivery.Faithful (coder []) k nFrame sent (.turn e) ∧
      ∀ j payload, c.slave.payload e = some (j, payload) →
        c.board.Serves network weights reg answers payload ∧
          (j = k → network.Codes platform weights payload answers.heap nFrame)
  | .query _ _ => True
  | .recv line ready reads answers =>
    c.toDelivery.Faithful (coder []) k nFrame sent (.recv line ready reads answers)

structure Deployment.Kept (network : Network) (platform : Platform) (reg : AccReg)
    (weights : List UInt8) (k : Fin picturesNumberMax) (nFrame : UInt16) (image : List UInt8)
    (sent : List DataFrame) (c : Deployment) : Prop where
  delivery : c.toDelivery.Kept k nFrame (network.streams platform.tables weights image nFrame) sent
  weights : reg.readWeights c.board.pl = weights

def Deployment.init (board : Board) : Deployment := { Delivery.init with board }

theorem Network.streams_fitting {network : Network} {T : Tables} {weights image : List UInt8}
    {nFrame : UInt16} : ∀ result ∈ network.streams T weights image nFrame, Fitting nFrame result :=
  fun _ h => h.1

section Kept
variable {network : Network} {platform : Platform} {reg : AccReg} {weights : List UInt8}
  {k : Fin picturesNumberMax} {nFrame : UInt16} {image : List UInt8} {sent : List DataFrame}
  {c c' : Deployment}

/-- The two requests leave the board alone. -/
theorem Deployment.Kept.request (h : c.Kept network platform reg weights k nFrame image sent)
    {m : Delivery.Move} (hkept : ∀ d, c.toDelivery.Step (coder []) (UInt32.ofNat k) m d →
      d.Kept k nFrame (network.streams platform.tables weights image nFrame) sent)
    (hstep : (c.toDelivery.move (coder []) (UInt32.ofNat k) m).map (fun r =>
      r.map fun toDelivery => { c with toDelivery }) = some (.ok c')) :
    c'.Kept network platform reg weights k nFrame image sent := by
  obtain ⟨r, hmove, hr⟩ := Option.map_eq_some_iff.mp hstep
  cases r with
  | error fault => contradiction
  | ok d =>
      obtain rfl := Except.ok.inj hr
      exact ⟨hkept d hmove, h.weights⟩

variable (hdma : platform.dma.Copies) (hacc : platform.acc.Computes network)
  (usable : platform.tables.Usable) (hbelow : reg.Below) (hsent : Imaged nFrame image sent)
include hdma hacc usable hbelow hsent

theorem Deployment.Kept.turn {e : Event} {answers : PictureAnswers}
    (h : c.Kept network platform reg weights k nFrame image sent)
    (hfaithful : c.Faithful network platform reg weights k nFrame sent (.turn e answers))
    {slave : Slave} {out : Output} {board : Board}
    (hturn : c.board.turn platform reg answers c.slave e = .ok (slave, out, board)) :
    { c with slave, board }.Kept network platform reg weights k nFrame image sent := by
  obtain ⟨enc, hplain, hprocessed⟩ := Board.turn_refines hturn
  obtain ⟨hdelivery, hserves⟩ := hfaithful
  have hkept : { c.toDelivery with slave }.Kept k nFrame
      (network.streams platform.tables weights image nFrame) sent := by
    refine h.delivery.turn hsent ⟨out, hplain⟩ hdelivery fun hpayload => ?_
    obtain ⟨hserves, hcodes⟩ := hserves k image hpayload
    rw [hpayload] at hprocessed
    obtain ⟨⟨r, hencode, henc⟩, -⟩ := hprocessed.spec hdma hacc hbelow h.weights hserves
    have hstream := (hcodes rfl).stream usable hencode
    rw [← henc] at hstream
    exact ⟨hstream, hstream.1.pos⟩
  refine ⟨hkept, ?_⟩
  cases hpayload : c.slave.payload e with
  | none =>
      rw [hpayload] at hprocessed
      exact hprocessed ▸ h.weights
  | some a =>
      obtain ⟨j, payload⟩ := a
      rw [hpayload] at hprocessed
      exact (hprocessed.spec hdma hacc hbelow h.weights (hserves j payload hpayload).1).2

theorem Deployment.Kept.step {m : Move}
    (h : c.Kept network platform reg weights k nFrame image sent)
    (hfaithful : c.Faithful network platform reg weights k nFrame sent m)
    (hstep : c.Step platform reg (UInt32.ofNat k) m c') :
    c'.Kept network platform reg weights k nFrame image sent := by
  cases m with
  | turn e answers =>
      obtain ⟨⟨slave, out, board⟩, hturn, hrest⟩ := bind_ok (Option.some.inj hstep)
      obtain rfl := Except.ok.inj hrest
      exact h.turn hdma hacc usable hbelow hsent hfaithful hturn
  | query line calloc =>
      refine h.request (fun d hd => ?_) hstep
      cases hslots : c.inputDataFrames with
      | none =>
          simp only [Delivery.Step, Delivery.move, hslots] at hd
          exact h.delivery.query Network.streams_fitting (Option.some.inj hd)
      | some slots =>
          simp only [Delivery.Step, Delivery.move, hslots] at hd
          contradiction
  | recv line ready reads answers =>
      refine h.request (fun d hd => ?_) hstep
      cases hslots : c.inputDataFrames with
      | none =>
          simp only [Delivery.Step, Delivery.move, hslots] at hd
          contradiction
      | some slots =>
          simp only [Delivery.Step, Delivery.move, hslots] at hd
          exact h.delivery.recv Network.streams_fitting hslots hfaithful (Option.some.inj hd)

theorem Deployment.kept_throughout {board : Board} (hweights : reg.readWeights board.pl = weights)
    {ms : List Move} (h : EveryStep (Step platform reg (UInt32.ofNat k))
      (Faithful network platform reg weights k nFrame sent) (init board) ms) :
    Throughout (Step platform reg (UInt32.ofNat k))
      (Kept network platform reg weights k nFrame image sent) (init board) ms :=
  h.throughout (fun _ _ _ hkept hm hstep => hkept.step hdma hacc usable hbelow hsent hm hstep)
    (fun _ hkept => hkept) ⟨Delivery.init_kept k nFrame _ sent, hweights⟩

end Kept

theorem Board.receive_payload {b : Board} {platform : Platform} {reg : AccReg}
    {answers : PictureAnswers} {line : Line} {nFrame : UInt16} {p : Picture} {payload : List UInt8}
    {r : CodingResult} {bitStream : Data8} (h : p.payload line nFrame = some payload)
    (hrun : ∀ frames, dataFramesToData frames nFrame.toNat = .ok payload →
      ∃ b', b.processDataFrames platform frames nFrame.toNat reg answers = .ok (r, b'))
    (hstore : (coder []).store line.malloc (r.data.take r.length) p.bitStream = .ok bitStream) :
    ∃ info b', b.receive platform reg answers line nFrame p = .ok (⟨bitStream, info⟩, b') := by
  obtain ⟨slots, hslots, h⟩ := Option.bind_eq_some_iff.mp h
  obtain ⟨⟨sum, slots'⟩, hrecv, h⟩ := Option.bind_eq_some_iff.mp h
  by_cases hsum : sum = 0
  · simp only [if_pos hsum] at h
    rw [toOption_some] at hslots hrecv h
    obtain ⟨b', hprocess⟩ := hrun slots' h
    refine ⟨⟨some slots', nFrame - sum, nFrame⟩, b', ?_⟩
    simp only [receive, hslots, ok_bind, hrecv, if_pos hsum, process, hprocess, hstore]
  · simp only [if_neg hsum] at h
    contradiction

/-- The device codes a picture for which there is everything. -/
theorem Board.Serves.codes {b : Board} {network : Network} {platform : Platform} {reg : AccReg}
    {weights payload : List UInt8} {answers : PictureAnswers} {nFrame : UInt16}
    (hdma : platform.dma.Copies) (hacc : platform.acc.Computes network)
    (usable : platform.tables.Usable) (hbelow : reg.Below)
    (hweights : reg.readWeights b.pl = weights)
    (hserves : b.Serves network weights reg answers payload)
    (hcodes : network.Codes platform weights payload answers.heap nFrame)
    (hfit : FitAll (network.channels weights payload)) :
    ∃ r, r.data.take r.length ∈ network.streams platform.tables weights payload nFrame ∧
      ∀ frames, dataFramesToData frames nFrame.toNat = .ok payload →
        ∃ b', b.processDataFrames platform frames nFrame.toNat reg answers = .ok (r, b') := by
  obtain ⟨r, hencode, -⟩ :=
    codeChannels_decodes platform.charIsSigned usable hcodes.positive hfit
  have hencode : network.encode platform.charIsSigned platform.tables answers.heap weights payload =
      .ok r := hencode
  refine ⟨r, hcodes.stream usable hencode, fun frames hunpacked => ?_⟩
  have hframes : nFrame.toNat ≤ 65535 := Nat.le_of_lt_succ nFrame.toNat_lt
  obtain ⟨b', heq, -⟩ := processDataFrames_spec hdma hacc hunpacked hframes hserves.sampled hbelow
    (hweights.symm ▸ hserves.granted) hserves.keeps
  rw [hweights, hencode, ok_bind] at heq
  exact ⟨b', heq⟩

/-- There are faithful moves, no more than so many, that save a stream of the picture. -/
def Deployment.Completes (network : Network) (platform : Platform) (reg : AccReg)
    (weights : List UInt8) (k : Fin picturesNumberMax) (nFrame : UInt16) (image : List UInt8)
    (sent : List DataFrame) (bound : Nat) (c : Deployment) : Prop :=
  Within (Deployment.Step platform reg (UInt32.ofNat k))
    (Deployment.Faithful network platform reg weights k nFrame sent)
    (fun c' => ∃ bytes, c'.saved = some bytes ∧ ∃ heap r, r.data = bytes ∧
      Decodes platform.tables heap (network.channels weights image) r) bound c

theorem Deployment.step_deterministic {platform : Platform} {reg : AccReg} {nFile : UInt32}
    {m : Move} {c c₁ c₂ : Deployment} (h₁ : c.Step platform reg nFile m c₁)
    (h₂ : c.Step platform reg nFile m c₂) : c₂ = c₁ :=
  Except.ok.inj (Option.some.inj (h₂.symm.trans h₁))

section Completion
variable {network : Network} {platform : Platform} {reg : AccReg} {weights : List UInt8}
  {k : Fin picturesNumberMax} {nFrame : UInt16} {image : List UInt8} {sent : List DataFrame}
  {c : Deployment}

theorem Deployment.Kept.collected (h : c.Kept network platform reg weights k nFrame image sent)
    {slots : List DataFrame} (hslots : c.inputDataFrames = some slots) :
    c.Completes network platform reg weights k nFrame image sent 1 := by
  obtain ⟨reads, d, hstep, hfaithful, bytes, hbytes, hsaved⟩ :=
    h.delivery.collect (o := coder []) Network.streams_fitting hslots
  have hstep' : c.Step platform reg (UInt32.ofNat k) (.recv {} true reads takenAnswers)
      { c with toDelivery := d } := by
    rw [Step, move, hstep]
    rfl
  have hdone : { c with toDelivery := d }.Completes network platform reg weights k nFrame image
      sent 0 := .here ⟨bytes, hsaved, hbytes.2⟩
  exact hdone.cons (fun _ => step_deterministic hstep') hstep' hfaithful

theorem Deployment.Kept.processed (h : c.Kept network platform reg weights k nFrame image sent)
    (hpos : 0 < (c.slave.pictures k).bitStream.len) :
    c.Completes network platform reg weights k nFrame image sent 2 := by
  cases hslots : c.inputDataFrames with
  | some slots => exact (h.collected hslots).mono (by decide)
  | none =>
      obtain ⟨slave, slots, hquery⟩ := c.toDelivery.query_processed (coder []) k hpos
      have hstep : c.Step platform reg (UInt32.ofNat k) (.query {} true)
          { c with slave, inputDataFrames := some slots } := by
        simp only [Step, move, Delivery.move, hslots, hquery]
        rfl
      have hkept : { c with slave, inputDataFrames := some slots }.Kept network platform reg weights
          k nFrame image sent :=
        ⟨h.delivery.query Network.streams_fitting hquery, h.weights⟩
      exact (hkept.collected rfl).cons (fun _ => step_deterministic hstep) hstep trivial

variable (hdma : platform.dma.Copies) (hacc : platform.acc.Computes network)
  (usable : platform.tables.Usable) (hbelow : reg.Below) (hsent : Imaged nFrame image sent)
include hdma hacc usable hbelow hsent

theorem Deployment.Kept.way_on (h : c.Kept network platform reg weights k nFrame image sent)
    {answers : PictureAnswers} (hserves : c.board.Serves network weights reg answers image)
    (hcodes : network.Codes platform weights image answers.heap nFrame)
    (hfit : FitAll (network.channels weights image)) :
    c.Completes network platform reg weights k nFrame image sent 3 := by
  by_cases hpos : 0 < (c.slave.pictures k).bitStream.len
  · exact (h.processed hpos).mono (by decide)
  · -- one more SEND request on which nothing goes wrong
    have hstatus : (c.slave.pictures k).status ≠ statusProcessed := fun hstatus =>
      hpos (Picture.status_processed.mp hstatus)
    have hacc' := wholeSend_accepted k nFrame sent
    have hpayload := h.delivery.carries.payload_whole hsent hstatus (.counted 0)
    obtain ⟨r, hstream, hrun⟩ :=
      hserves.codes hdma hacc usable hbelow h.weights hcodes hfit
    have hcarries := h.delivery.carries
    rw [Picture.Carries, if_neg hpos] at hcarries
    have hstore := store_fresh (coder []) (r.data.take r.length) hcarries.1
    obtain ⟨info, board, hreceive⟩ := Board.receive_payload hpayload hrun hstore
    obtain ⟨outputFrame, -, hturn⟩ :=
      c.board.turn_accepted platform reg answers c.slave hacc'
    have hline : (wholeSend k nFrame sent).line = wholeLine [(sentWires 0 sent).flatten] := rfl
    rw [hline, hreceive, ok_bind] at hturn
    obtain ⟨slave, out, hturn, hprocessed⟩ : ∃ slave out,
        c.board.turn platform reg answers c.slave (wholeSend k nFrame sent) =
          .ok (slave, out, board) ∧ 0 < (slave.pictures k).bitStream.len := by
      refine ⟨_, _, hturn, ?_⟩
      simp only [Function.update_self]
      exact hstream.1.pos
    have hfaithful : c.Faithful network platform reg weights k nFrame sent
        (.turn (wholeSend k nFrame sent) answers) := by
      refine ⟨c.toDelivery.faithful_whole hsent hstatus, fun j payload hsome => ?_⟩
      simp only [Slave.payload, hacc', hline, hpayload, Option.bind_eq_bind, Option.bind_some,
        Option.pure_def, Option.some.injEq, Prod.mk.injEq] at hsome
      obtain ⟨rfl, rfl⟩ := hsome
      exact ⟨hserves, fun _ => hcodes⟩
    have hkept := h.turn hdma hacc usable hbelow hsent hfaithful hturn
    have hstep : c.Step platform reg (UInt32.ofNat k) (.turn (wholeSend k nFrame sent) answers)
        { c with slave, board } := by
      rw [Step, move, hturn]
      rfl
    exact (hkept.processed hprocessed).cons (fun _ => step_deterministic hstep) hstep hfaithful

end Completion

end Soc
