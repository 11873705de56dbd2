import Mathlib.Logic.Function.Basic
import Soc.Foundation.Runs
import Soc.Protocol.Transfer

/-!
The slave: the tables of `main.c` and one turn of its main loop.

A turn takes what the line does during it: the bytes of the request, whether a
reply can be written, what the reads of a reception return. The values of the
timeout option show in these outcomes only. The network, its hardware and the
entropy coder are one function from the payload to the bit stream.
-/
namespace Soc
open Windows Runs

/-- `PICTURES_NUMBER_MAX` -/
abbrev picturesNumberMax : Nat := 8

/-- `data8_t`. The length never exceeds the block. -/
structure Data8 where
  addr : Option (List UInt8) := none
  len : Nat := 0
  fits : len ≤ (addr.getD []).length := by decide

/-- `data_frame_info_t`; the block is the list of its slots. -/
structure DataFrameInfo where
  addr : Option (List DataFrame) := none
  len : UInt16 := 0
  totalLen : UInt16 := 0

/-- The entries of `bit_streams` and `data_frame_infos` for one file. -/
structure Picture where
  bitStream : Data8 := {}
  info : DataFrameInfo := {}

structure Slave where
  pictures : Fin picturesNumberMax → Picture
  outputFrame : Frame
  nTotalFrame : BitVec 24

def Slave.init : Slave := ⟨fun _ => {}, { address := addressSlave }, 0⟩

/-- What of `opt_t` a turn depends on, and the encoder. -/
structure Options where
  dryRun : Bool
  encode : List UInt8 → List UInt8

def dryRun : Options := ⟨true, id⟩

/-- What the line and the allocator do while a request is handled. `malloc` is
about the block of a result; `heap` gives the contents of the block for the data
frames of an answer, if there is one. -/
structure Line where
  replyReady : Bool := true
  calloc : Bool := true
  malloc : Bool := true
  dataReady : Bool := true
  reads : List (List UInt8) := []
  heap : Option (Nat → DataFrame) := some fun _ => zeroFrame
  sendReady : Nat → Bool := fun _ => true

/-- What a turn writes: a reply and then data frames. -/
structure Output where
  reply : Option Frame := none
  data : List (List UInt8) := []

def fileIndex (nFile : UInt32) : Option (Fin picturesNumberMax) :=
  if h : nFile.toNat < picturesNumberMax then some ⟨nFile.toNat, h⟩ else none

/-- `get_status` past its range check. -/
def Picture.status (p : Picture) : UInt16 :=
  if 0 < p.bitStream.len then statusProcessed
  else if p.info.len = p.info.totalLen ∧ p.info.totalLen ≠ 0 then statusProcessing
  else statusUnreceived

def Slave.getStatus (s : Slave) (nFile : UInt32) : UInt16 :=
  match fileIndex nFile with
  | none => statusUnreceived
  | some k => (s.pictures k).status

/-- The bit stream of a payload; a dry run copies. -/
def Options.encoding (o : Options) (payload : List UInt8) : List UInt8 :=
  if o.dryRun then payload else o.encode payload

/-- A new block, filled. Only a dry run goes on without one. -/
def Options.allocate (o : Options) (malloc : Bool) (enc : List UInt8) : Except Fault Data8 :=
  if malloc then .ok ⟨some enc, enc.length, Nat.le_refl _⟩
  else if ¬ o.dryRun then .error .exited
  else if enc = [] then .ok {}
  else .error .outOfBounds

/-- A dry run allocates every time, an encoding is copied to the block that is
there. -/
def Options.store (o : Options) (malloc : Bool) (enc : List UInt8) (bitStream : Data8) :
    Except Fault Data8 :=
  match if o.dryRun then none else bitStream.addr with
  | none => o.allocate malloc enc
  | some old =>
    if enc.length ≤ old.length then
      .ok ⟨some (enc ++ old.drop enc.length), enc.length, by simp⟩
    else .error .outOfBounds

/-- `process_data_frames_dry_run` -/
def processDataFrames (o : Options) (malloc : Bool) (dataFrames : List DataFrame)
    (nFrame : UInt16) (bitStream : Data8) : Except Fault Data8 := do
  let payload ← dataFramesToData dataFrames nFrame.toNat
  o.store malloc (o.encoding payload) bitStream

/-- The slots a SEND request receives into: those of a processed file are freed,
others are kept with whatever they hold. -/
def Picture.prepare (line : Line) (nFrame : UInt16) (p : Picture) :
    Except Fault (List DataFrame) :=
  match if p.status = statusProcessed then none else p.info.addr with
  | some slots => .ok slots
  | none =>
    if line.calloc then .ok (List.replicate nFrame.toNat zeroFrame) else .error .exited

/-- `TP_FRAME_TYPE_SEND` from `get_status` on. -/
def Picture.receive (o : Options) (line : Line) (nFrame : UInt16) (p : Picture) :
    Except Fault Picture := do
  let slots ← p.prepare line nFrame
  let (sum, slots) ← receiveDataFrames line.dataReady line.reads slots nFrame
  let info := { addr := some slots, len := nFrame - sum, totalLen := nFrame }
  if sum = 0 then
    let bitStream ← processDataFrames o line.malloc slots nFrame p.bitStream
    .ok ⟨bitStream, info⟩
  else .ok ⟨p.bitStream, info⟩

def Slave.queryReply (s : Slave) (inputFrame : Frame) : Frame :=
  { s.outputFrame with
    frameType := inputFrame.frameType
    nFile := inputFrame.nFile
    status := s.getStatus inputFrame.nFile
    nFrame :=
      match fileIndex inputFrame.nFile with
      | none => 0
      | some k => (s.pictures k).info.len }

def Slave.sendReply (s : Slave) (inputFrame : Frame) : Frame :=
  { s.outputFrame with
    frameType := inputFrame.frameType
    nFile := inputFrame.nFile
    nFrame := inputFrame.nFrame }

/-- The reply to a RECV request for a file with a bit stream. -/
def Slave.recvReply (s : Slave) (inputFrame : Frame) (bitStream : Data8) : Frame :=
  { s.outputFrame with
    frameType := inputFrame.frameType
    nFile := inputFrame.nFile
    nFrame := UInt16.ofNat (countFrames bitStream.len) }

def replyIf (ready : Bool) (frame : Frame) : Option Frame := if ready then some frame else none

theorem replyIf_some {ready : Bool} {f r : Frame} :
    replyIf ready f = some r ↔ ready = true ∧ f = r := by
  cases ready <;> simp [replyIf]

def Slave.query (s : Slave) (inputFrame : Frame) (line : Line) : Slave × Output :=
  let outputFrame := s.queryReply inputFrame
  ({ s with outputFrame }, { reply := replyIf line.replyReady outputFrame })

def Slave.send (o : Options) (s : Slave) (inputFrame : Frame) (line : Line) :
    Except Fault (Slave × Output) :=
  match fileIndex inputFrame.nFile with
  | none => .ok (s, {})
  | some k =>
    let outputFrame := s.sendReply inputFrame
    if line.replyReady then do
      let picture ← (s.pictures k).receive o line inputFrame.nFrame
      .ok ({ s with pictures := Function.update s.pictures k picture, outputFrame },
        { reply := some outputFrame })
    else .ok ({ s with outputFrame }, {})

/-- The data frames follow even a reply that was not written: the `-1` of
`send_frame` is a true value here. -/
def Slave.recv (s : Slave) (inputFrame : Frame) (line : Line) : Except Fault (Slave × Output) :=
  match fileIndex inputFrame.nFile with
  | none => .ok (s, {})
  | some k =>
    let bitStream := (s.pictures k).bitStream
    if bitStream.len = 0 then .ok (s, {})
    else do
      let outputFrame := s.recvReply inputFrame bitStream
      let block := line.heap.map fun h => (List.range outputFrame.nFrame.toNat).map h
      -- a file with a bit stream has a block
      let source := .memory (bitStream.addr.getD []) bitStream.len
      match ← allocDataFrames block outputFrame.nFrame outputFrame.nFile source flagData
          (UInt32.ofNat bitStream.len) with
      | none => .ok ({ s with outputFrame }, {})
      | some outputDataFrames =>
        let (nTotalFrame, _, data) :=
          sendDataFrames line.sendReady 0 s.nTotalFrame outputDataFrames
        .ok ({ s with outputFrame, nTotalFrame },
          { reply := replyIf line.replyReady outputFrame, data })

/-- The `switch` on the frame type. -/
def Slave.handle (o : Options) (s : Slave) (inputFrame : Frame) (line : Line) :
    Except Fault (Slave × Output) :=
  if inputFrame.frameType = frameTypeQuery then .ok (s.query inputFrame line)
  else if inputFrame.frameType = frameTypeSend then s.send o inputFrame line
  else if inputFrame.frameType = frameTypeRecv then s.recv inputFrame line
  else .ok (s, {})

/-- One wait for a request, as `receiveFrame` sees it, and the line after it. -/
structure Event where
  ready : Bool := true
  read : Option (List UInt8)
  line : Line := {}

/-- One turn of the main loop. -/
def Slave.turn (o : Options) (s : Slave) (e : Event) : Except Fault (Slave × Output) := do
  let (n, inputFrame) ← receiveFrame e.ready e.read {}
  if n ≤ 0 ∨ inputFrame.address ≠ addressMaster then .ok (s, {})
  else s.handle o inputFrame e.line

/-- A turn that returns. -/
def Slave.Turn (o : Options) (s : Slave) (e : Event) (s' : Slave) : Prop :=
  ∃ out, s.turn o e = .ok (s', out)

/-! What a turn can change. -/

/-- The request a turn handles. -/
def Event.request (e : Event) : Option Frame :=
  match receiveFrame e.ready e.read {} with
  | .error _ => none
  | .ok (n, inputFrame) =>
    if n ≤ 0 ∨ inputFrame.address ≠ addressMaster then none else some inputFrame

/-- The SEND request a turn accepts: its file and its number of frames. -/
def Event.accepted (e : Event) : Option (Fin picturesNumberMax × UInt16) :=
  match e.request with
  | none => none
  | some f =>
    if f.frameType = frameTypeSend ∧ e.line.replyReady then
      (fileIndex f.nFile).map fun k => (k, f.nFrame)
    else none

theorem fileIndex_some {nFile : UInt32} {k : Fin picturesNumberMax} :
    fileIndex nFile = some k ↔ nFile.toNat = k := by
  unfold fileIndex
  split
  case isTrue h => simp [Fin.ext_iff]
  case isFalse h =>
      constructor
      · intro hnone
        contradiction
      · intro heq
        exact absurd (heq ▸ k.isLt) h

theorem Slave.turn_of_request (o : Options) (s : Slave) {e : Event} {f : Frame}
    (h : e.request = some f) : s.turn o e = s.handle o f e.line := by
  unfold Event.request at h
  cases hrecv : receiveFrame e.ready e.read {} with
  | error fault =>
      rw [hrecv] at h
      contradiction
  | ok r =>
      obtain ⟨n, g⟩ := r
      simp only [hrecv] at h
      by_cases hskip : n ≤ 0 ∨ g.address ≠ addressMaster
      · rw [if_pos hskip] at h
        contradiction
      · rw [if_neg hskip] at h
        obtain rfl := Option.some.inj h
        simp only [turn, hrecv, ok_bind, if_neg hskip]

theorem Slave.turn_no_request {o : Options} {s s' : Slave} {e : Event} {out : Output}
    (h : e.request = none) (hturn : s.turn o e = .ok (s', out)) : s' = s ∧ out = {} := by
  obtain ⟨⟨n, f⟩, hrecv, hturn⟩ := bind_ok hturn
  simp only [Event.request, hrecv] at h
  by_cases hskip : n ≤ 0 ∨ f.address ≠ addressMaster
  · simp only [if_pos hskip] at hturn
    obtain ⟨rfl, rfl⟩ := Prod.mk.inj (Except.ok.inj hturn)
    exact ⟨rfl, rfl⟩
  · rw [if_neg hskip] at h
    contradiction

/-! The branches of the `switch`. -/

theorem Frame.send_not_query {f : Frame} (h : f.frameType = frameTypeSend) :
    f.frameType ≠ frameTypeQuery := by
  rw [h]
  decide

theorem Frame.recv_not_query {f : Frame} (h : f.frameType = frameTypeRecv) :
    f.frameType ≠ frameTypeQuery := by
  rw [h]
  decide

theorem Frame.recv_not_send {f : Frame} (h : f.frameType = frameTypeRecv) :
    f.frameType ≠ frameTypeSend := by
  rw [h]
  decide

theorem Slave.handle_query (o : Options) (s : Slave) {f : Frame} (line : Line)
    (h : f.frameType = frameTypeQuery) : s.handle o f line = .ok (s.query f line) := by
  rw [handle, if_pos h]

theorem Slave.handle_send (o : Options) (s : Slave) {f : Frame} (line : Line)
    (h : f.frameType = frameTypeSend) : s.handle o f line = s.send o f line := by
  rw [handle, if_neg (Frame.send_not_query h), if_pos h]

theorem Slave.handle_recv (o : Options) (s : Slave) {f : Frame} (line : Line)
    (h : f.frameType = frameTypeRecv) : s.handle o f line = s.recv f line := by
  rw [handle, if_neg (Frame.recv_not_query h), if_neg (Frame.recv_not_send h), if_pos h]

/-- A wait that ends with a whole frame. -/
def Event.ofFrame (f : Frame) (line : Line) : Event := { read := some (writeFrame f), line }

theorem Event.ofFrame_request {f : Frame} (h : f.address = addressMaster) (line : Line) :
    (ofFrame f line).request = some f.signed := by
  have hsize : ¬((frameSize : Int) ≤ 0 ∨ f.signed.address ≠ addressMaster) := by
    rintro (hle | hne)
    · contradiction
    · exact hne h
  simp only [request, ofFrame, receiveFrame_writeFrame, if_neg hsize]

/-- The halves of a SEND request, its reply and its reception, make one turn. -/
theorem Slave.turn_send (o : Options) (s : Slave) {f : Frame} (haddress : f.address = addressMaster)
    (htype : f.frameType = frameTypeSend) (line : Line) :
    s.turn o (.ofFrame f line) = s.send o f line := by
  have hrequest := Event.ofFrame_request haddress line
  have hsend : f.signed.frameType = frameTypeSend := htype
  rw [turn_of_request o s hrequest, handle_send o s _ hsend]
  rfl

def sendRequest (nFile : UInt32) (nFrame : UInt16) : Frame :=
  { address := addressMaster, frameType := frameTypeSend, nFile, nFrame }

@[simp] theorem Slave.query_pictures (s : Slave) (f : Frame) (line : Line) :
    (s.query f line).1.pictures = s.pictures := rfl

theorem Slave.recv_pictures {s s' : Slave} {f : Frame} {line : Line} {out : Output}
    (h : s.recv f line = .ok (s', out)) : s'.pictures = s.pictures := by
  unfold recv at h
  cases hk : fileIndex f.nFile with
  | none =>
      rw [hk] at h
      obtain ⟨rfl, -⟩ := Prod.mk.inj (Except.ok.inj h)
      rfl
  | some k =>
      simp only [hk] at h
      by_cases hlen : (s.pictures k).bitStream.len = 0
      · rw [if_pos hlen] at h
        obtain ⟨rfl, -⟩ := Prod.mk.inj (Except.ok.inj h)
        rfl
      · rw [if_neg hlen] at h
        obtain ⟨frames, -, h⟩ := bind_ok h
        cases frames with
        | none =>
            obtain ⟨rfl, -⟩ := Prod.mk.inj (Except.ok.inj h)
            rfl
        | some frames =>
            obtain ⟨rfl, -⟩ := Prod.mk.inj (Except.ok.inj h)
            rfl

theorem Slave.send_pictures {o : Options} {s s' : Slave} {f : Frame} {line : Line} {out : Output}
    (h : s.send o f line = .ok (s', out)) :
    match fileIndex f.nFile with
    | none => s'.pictures = s.pictures
    | some k =>
      if line.replyReady then
        ∃ p, (s.pictures k).receive o line f.nFrame = .ok p ∧
          s'.pictures = Function.update s.pictures k p
      else s'.pictures = s.pictures := by
  unfold send at h
  cases hk : fileIndex f.nFile with
  | none =>
      rw [hk] at h
      obtain ⟨rfl, -⟩ := Prod.mk.inj (Except.ok.inj h)
      rfl
  | some k =>
      simp only [hk] at h ⊢
      by_cases hready : line.replyReady = true
      · rw [if_pos hready] at h ⊢
        obtain ⟨p, hp, h⟩ := bind_ok h
        obtain ⟨rfl, -⟩ := Prod.mk.inj (Except.ok.inj h)
        exact ⟨p, hp, rfl⟩
      · rw [if_neg hready] at h ⊢
        obtain ⟨rfl, -⟩ := Prod.mk.inj (Except.ok.inj h)
        rfl

/-- A turn changes the tables by accepting a SEND request, and only in the entry
of its file. -/
theorem Slave.turn_pictures {o : Options} {s s' : Slave} {e : Event} (h : s.Turn o e s') :
    match e.accepted with
    | none => s'.pictures = s.pictures
    | some (k, nFrame) => ∃ p, (s.pictures k).receive o e.line nFrame = .ok p ∧
        s'.pictures = Function.update s.pictures k p := by
  obtain ⟨out, h⟩ := h
  unfold Event.accepted
  cases hrequest : e.request with
  | none =>
      obtain ⟨rfl, -⟩ := turn_no_request hrequest h
      rfl
  | some f =>
      rw [turn_of_request o s hrequest] at h
      simp only
      by_cases hsend : f.frameType = frameTypeSend
      · rw [handle_send o s e.line hsend] at h
        have hpictures := send_pictures h
        cases hk : fileIndex f.nFile with
        | none => simpa [hk] using hpictures
        | some k =>
            by_cases hready : e.line.replyReady = true
            · simpa [hk, hready, hsend] using hpictures
            · simpa [hk, hready, hsend] using hpictures
      · simp only [hsend, false_and, if_false]
        by_cases hquery : f.frameType = frameTypeQuery
        · rw [handle_query o s e.line hquery] at h
          obtain ⟨rfl, -⟩ := Prod.mk.inj (Except.ok.inj h)
          rfl
        · by_cases hrecv : f.frameType = frameTypeRecv
          · rw [handle_recv o s e.line hrecv] at h
            exact recv_pictures h
          · rw [handle, if_neg hquery, if_neg hsend, if_neg hrecv] at h
            obtain ⟨rfl, -⟩ := Prod.mk.inj (Except.ok.inj h)
            rfl

theorem Slave.turn_unaccepted {o : Options} {s s' : Slave} {e : Event} (h : s.Turn o e s')
    (hnone : e.accepted = none) : s'.pictures = s.pictures := by
  have hpictures := turn_pictures h
  rwa [hnone] at hpictures

/-- One file of a turn. -/
theorem Slave.turn_picture {o : Options} {s s' : Slave} {e : Event} (h : s.Turn o e s')
    (k : Fin picturesNumberMax) :
    (∃ nFrame, e.accepted = some (k, nFrame) ∧
      (s.pictures k).receive o e.line nFrame = .ok (s'.pictures k)) ∨
    ((∀ nFrame, e.accepted ≠ some (k, nFrame)) ∧ s'.pictures k = s.pictures k) := by
  cases hacc : e.accepted with
  | none => exact .inr ⟨nofun, congrFun (turn_unaccepted h hacc) k⟩
  | some a =>
      obtain ⟨k', nFrame⟩ := a
      have hall := turn_pictures h
      rw [hacc] at hall
      obtain ⟨p, hp, heq⟩ := hall
      by_cases hk : k' = k
      · subst hk
        refine .inl ⟨nFrame, rfl, ?_⟩
        rw [heq, Function.update_self, hp]
      · refine .inr ⟨?_, ?_⟩
        · intro n hn
          exact hk (Prod.mk.inj (Option.some.inj hn)).1
        · rw [heq, Function.update_of_ne (Ne.symm hk)]

theorem Slave.turn_deterministic {o : Options} (s : Slave) (e : Event) (s₁ s₂ : Slave)
    (h₁ : s.Turn o e s₁) (h₂ : s.Turn o e s₂) : s₁ = s₂ := by
  obtain ⟨_, h₁⟩ := h₁
  obtain ⟨_, h₂⟩ := h₂
  exact (Prod.mk.inj (Except.ok.inj (h₁.symm.trans h₂))).1

theorem sendRequest_signed (nFile : UInt32) (nFrame : UInt16) :
    (sendRequest nFile nFrame).signed.frameType = frameTypeSend ∧
      (sendRequest nFile nFrame).signed.nFile = nFile ∧
      (sendRequest nFile nFrame).signed.nFrame = nFrame := ⟨rfl, rfl, rfl⟩

/-- A SEND request whose reply is written is accepted. -/
theorem Event.ofFrame_accepted {nFile : UInt32} {k : Fin picturesNumberMax} (nFrame : UInt16)
    (line : Line) (hk : fileIndex nFile = some k) (hready : line.replyReady = true) :
    (ofFrame (sendRequest nFile nFrame) line).accepted = some (k, nFrame) := by
  have hrequest := ofFrame_request (f := sendRequest nFile nFrame) rfl line
  have hline : (ofFrame (sendRequest nFile nFrame) line).line = line := rfl
  simp only [accepted, hrequest, hline, sendRequest_signed, hready, and_self, if_true, hk,
    Option.map_some]

theorem Event.accepted_request {e : Event} {k : Fin picturesNumberMax} {nFrame : UInt16}
    (h : e.accepted = some (k, nFrame)) : ∃ f, e.request = some f ∧
      f.frameType = frameTypeSend ∧ e.line.replyReady = true ∧ fileIndex f.nFile = some k ∧
      f.nFrame = nFrame := by
  unfold accepted at h
  cases hrequest : e.request with
  | none =>
      rw [hrequest] at h
      contradiction
  | some f =>
      simp only [hrequest] at h
      by_cases hsend : f.frameType = frameTypeSend ∧ e.line.replyReady
      · rw [if_pos hsend] at h
        obtain ⟨k', hk, heq⟩ := Option.map_eq_some_iff.mp h
        obtain ⟨rfl, rfl⟩ := Prod.mk.inj heq
        exact ⟨f, rfl, hsend.1, hsend.2, hk, rfl⟩
      · rw [if_neg hsend] at h
        contradiction

/-- Accepting a SEND request comes down to the reception. -/
theorem Slave.turn_accepted (o : Options) (s : Slave) {e : Event} {k : Fin picturesNumberMax}
    {nFrame : UInt16} (h : e.accepted = some (k, nFrame)) :
    ∃ outputFrame, s.turn o e = (s.pictures k).receive o e.line nFrame >>= fun picture =>
      .ok ({ s with pictures := Function.update s.pictures k picture, outputFrame },
        { reply := some outputFrame }) := by
  obtain ⟨f, hrequest, hsend, hready, hk, rfl⟩ := Event.accepted_request h
  refine ⟨s.sendReply f, ?_⟩
  rw [turn_of_request o s hrequest, handle_send o s e.line hsend]
  simp only [send, hk, hready, if_true]

theorem Slave.turn_sendRequest {o : Options} {s : Slave} {nFile : UInt32} {nFrame : UInt16}
    {k : Fin picturesNumberMax} {line : Line} {p : Picture} (hk : fileIndex nFile = some k)
    (hready : line.replyReady = true) (h : (s.pictures k).receive o line nFrame = .ok p) :
    ∃ s', s.Turn o (.ofFrame (sendRequest nFile nFrame) line) s' ∧
      s'.pictures = Function.update s.pictures k p := by
  obtain ⟨outputFrame, hturn⟩ := turn_accepted o s (Event.ofFrame_accepted nFrame line hk hready)
  have hline : (Event.ofFrame (sendRequest nFile nFrame) line).line = line := rfl
  rw [hline, h, ok_bind] at hturn
  exact ⟨_, ⟨_, hturn⟩, rfl⟩

/-! The reception of one file. -/

theorem Picture.status_processed {p : Picture} :
    p.status = statusProcessed ↔ 0 < p.bitStream.len := by
  unfold status
  split
  case isTrue h => simp [h]
  case isFalse h =>
      have h₁ : statusProcessing ≠ statusProcessed := by decide
      have h₂ : statusUnreceived ≠ statusProcessed := by decide
      split <;> simp [h, h₁, h₂]

/-- The block of a file that is not processed, if it has one. -/
def Picture.kept (p : Picture) : Option (List DataFrame) :=
  if 0 < p.bitStream.len then none else p.info.addr

/-- The slots `prepare` leaves. -/
def Picture.slots (p : Picture) (nFrame : UInt16) : List DataFrame :=
  p.kept.getD (List.replicate nFrame.toNat zeroFrame)

theorem Picture.prepare_ok {p : Picture} {line : Line} {nFrame : UInt16} {slots : List DataFrame}
    (h : p.prepare line nFrame = .ok slots) : slots = p.slots nFrame := by
  simp only [prepare, status_processed] at h
  unfold Picture.slots kept
  split at h
  case h_1 old hold =>
      rw [hold]
      exact (Except.ok.inj h).symm
  case h_2 hnone =>
      rw [hnone]
      split at h
      case isTrue => exact (Except.ok.inj h).symm
      case isFalse => contradiction

theorem Picture.prepare_kept {p : Picture} (h : p.kept.isSome) (line : Line) (nFrame : UInt16) :
    p.prepare line nFrame = .ok (p.slots nFrame) := by
  obtain ⟨slots, hslots⟩ := Option.isSome_iff_exists.mp h
  rw [kept] at hslots
  simp only [prepare, status_processed, Picture.slots, kept, hslots, Option.getD_some]

theorem Picture.prepare_calloc (p : Picture) {line : Line} (h : line.calloc = true)
    (nFrame : UInt16) : p.prepare line nFrame = .ok (p.slots nFrame) := by
  cases hkept : p.kept with
  | some slots => exact prepare_kept (Option.isSome_iff_exists.mpr ⟨slots, hkept⟩) line nFrame
  | none =>
      rw [kept] at hkept
      simp only [prepare, status_processed, Picture.slots, kept, hkept, h, if_true,
        Option.getD_none]

theorem Picture.receive_ok {o : Options} {line : Line} {nFrame : UInt16} {p p' : Picture}
    (h : p.receive o line nFrame = .ok p') :
    ∃ sum slots', receiveDataFrames line.dataReady line.reads (p.slots nFrame) nFrame =
        .ok (sum, slots') ∧
      p'.info = { addr := some slots', len := nFrame - sum, totalLen := nFrame } ∧
      if sum = 0 then
        processDataFrames o line.malloc slots' nFrame p.bitStream = .ok p'.bitStream
      else p'.bitStream = p.bitStream := by
  obtain ⟨slots, hslots, h⟩ := bind_ok h
  obtain rfl := prepare_ok hslots
  obtain ⟨⟨sum, slots'⟩, hrecv, h⟩ := bind_ok h
  refine ⟨sum, slots', hrecv, ?_⟩
  by_cases hsum : sum = 0
  · simp only [if_pos hsum] at h ⊢
    obtain ⟨bitStream, hstream, h⟩ := bind_ok h
    obtain rfl := Except.ok.inj h
    exact ⟨rfl, hstream⟩
  · simp only [if_neg hsum] at h ⊢
    obtain rfl := Except.ok.inj h
    exact ⟨rfl, rfl⟩

/-- Nothing is missing after a SEND request: the wait ends in time, and the
window of every empty slot passes the test. -/
def Picture.Completes (p : Picture) (line : Line) (nFrame : UInt16) : Prop :=
  line.dataReady = true ∧ ∀ (i : Nat) (s : DataFrame) (w : List UInt8),
    (p.slots nFrame)[i]? = some s → (receivedWindows nFrame line.reads)[i]? = some w →
      s.Empty → accepts w = true

/-- The first `nFrame` slots after a reception. -/
def Picture.filled (p : Picture) (line : Line) (nFrame : UInt16) : List DataFrame :=
  List.zipWith fill (p.slots nFrame) (receivedWindows nFrame line.reads)

theorem countMissed_zero {slots : List DataFrame} {nFrame : UInt16} {reads : List (List UInt8)} :
    countMissed slots nFrame reads = 0 ↔ ∀ (i : Nat) (s : DataFrame) (w : List UInt8),
      slots[i]? = some s → (receivedWindows nFrame reads)[i]? = some w → s.Empty →
        accepts w = true := by
  rw [countMissed, countP_zip_eq_zero]
  simp only [missed, decide_eq_false_iff_not, not_and, Bool.not_eq_false]

def Data8.bytes (d : Data8) : List UInt8 := (d.addr.getD []).take d.len

theorem Data8.bytes_length (d : Data8) : d.bytes.length = d.len := by
  rw [bytes, List.length_take, Nat.min_eq_left d.fits]

theorem allocate_bytes {o : Options} {malloc : Bool} {enc : List UInt8} {bitStream : Data8}
    (h : o.allocate malloc enc = .ok bitStream) : bitStream.bytes = enc := by
  unfold Options.allocate at h
  split at h
  case isTrue =>
      obtain rfl := Except.ok.inj h
      simp [Data8.bytes]
  case isFalse =>
      split at h
      case isTrue => contradiction
      case isFalse =>
          split at h
          case isTrue hnone =>
              obtain rfl := Except.ok.inj h
              rw [hnone]
              rfl
          case isFalse => contradiction

theorem store_bytes {o : Options} {malloc : Bool} {enc : List UInt8} {bitStream bitStream' : Data8}
    (h : o.store malloc enc bitStream = .ok bitStream') : bitStream'.bytes = enc := by
  unfold Options.store at h
  split at h
  · exact allocate_bytes h
  · split at h
    · obtain rfl := Except.ok.inj h
      simp [Data8.bytes]
    · contradiction

theorem processDataFrames_bytes {o : Options} {malloc : Bool} {dataFrames : List DataFrame}
    {nFrame : UInt16} {bitStream bitStream' : Data8}
    (h : processDataFrames o malloc dataFrames nFrame bitStream = .ok bitStream') :
    bitStream'.bytes =
      o.encoding ((dataFrames.take nFrame.toNat).flatMap DataFrame.carried) := by
  obtain ⟨payload, hpayload, h⟩ := bind_ok h
  rw [← dataFramesToData_carried _ _ hpayload]
  exact store_bytes h

/-- A reception that returns either completes, and the file is processed, or
leaves the bit stream as it was. The block keeps its size. -/
theorem Picture.receive_cases {o : Options} {line : Line} {nFrame : UInt16} {p p' : Picture}
    (h : p.receive o line nFrame = .ok p') :
    (∃ slots', p'.info.addr = some slots' ∧ slots'.length = (p.slots nFrame).length) ∧
      (p.Completes line nFrame ∧ p'.info.len = nFrame ∧
          p'.bitStream.bytes = o.encoding ((p.filled line nFrame).flatMap DataFrame.carried) ∨
        ¬ p.Completes line nFrame ∧ p'.bitStream = p.bitStream ∧ p'.info.len =
          if line.dataReady then
            nFrame - UInt16.ofNat (countMissed (p.slots nFrame) nFrame line.reads)
          else nFrame + 1) := by
  obtain ⟨sum, slots', hrecv, hinfo, hprocess⟩ := receive_ok h
  rw [hinfo]
  cases hready : line.dataReady with
  | false =>
      rw [hready] at hrecv
      obtain ⟨rfl, rfl⟩ := Prod.mk.inj (Except.ok.inj hrecv)
      have hnone : UInt16.ofInt (-1) ≠ 0 := by decide
      rw [if_neg hnone] at hprocess
      refine ⟨⟨_, rfl, rfl⟩, .inr ⟨?_, hprocess, ?_⟩⟩
      · intro hcomplete
        have hyes := hcomplete.1
        rw [hready] at hyes
        contradiction
      · have hneg : UInt16.ofInt (-1) = -1 := by decide
        rw [if_neg (by decide), hneg]
        exact UInt16.sub_neg
  | true =>
      rw [hready] at hrecv
      obtain ⟨hle, hlen, -, -⟩ := receiveDataFrames_slots hrecv
      rw [receiveDataFrames_ok hle] at hrecv
      obtain ⟨rfl, rfl⟩ := Prod.mk.inj (Except.ok.inj hrecv)
      have hzero : UInt16.ofNat (countMissed (p.slots nFrame) nFrame line.reads) = 0 ↔
          p.Completes line nFrame := by
        rw [← UInt16.toNat_inj, countMissed_toNat, Completes, hready, ← countMissed_zero]
        simp
      refine ⟨⟨_, rfl, hlen⟩, ?_⟩
      by_cases hsum : UInt16.ofNat (countMissed (p.slots nFrame) nFrame line.reads) = 0
      · rw [if_pos hsum] at hprocess
        refine .inl ⟨hzero.mp hsum, ?_, ?_⟩
        · rw [hsum]
          exact UInt16.sub_zero nFrame
        · have hwidth : (p.filled line nFrame).length = nFrame.toNat := by
            rw [filled, List.length_zipWith, receivedWindows_length, Nat.min_eq_right hle]
          rw [processDataFrames_bytes hprocess, ← filled, List.take_left' hwidth]
      · rw [if_neg hsum] at hprocess
        exact .inr ⟨fun hcomplete => hsum (hzero.mpr hcomplete), hprocess, by rw [if_pos rfl]⟩

/-- A reception whose slots suffice returns, if the length fields are in range
and no older bit stream is in the way. -/
theorem Picture.receive_returns (o : Options) (p : Picture) (line : Line) (nFrame : UInt16)
    (hcalloc : line.calloc = true) (hmalloc : line.malloc = true)
    (hready : line.dataReady = true) (hle : nFrame.toNat ≤ (p.slots nFrame).length)
    (hlens : ∀ f ∈ p.filled line nFrame, f.dataLen.toNat ≤ frameDataLenMax)
    (hfree : o.dryRun = true ∨ p.bitStream.addr = none) :
    ∃ p', p.receive o line nFrame = .ok p' := by
  have hwidth : (p.filled line nFrame).length = nFrame.toNat := by
    rw [filled, List.length_zipWith, receivedWindows_length, Nat.min_eq_right hle]
  obtain ⟨payload, hpayload⟩ := dataFramesToData_ok _ (Nat.le_of_eq hwidth.symm) hlens
  have hdata := dataFramesToData_append (p.filled line nFrame)
    ((p.slots nFrame).drop nFrame.toNat) (Nat.le_of_eq hwidth.symm)
  have haddr : (if o.dryRun then none else p.bitStream.addr) = none := by
    rcases hfree with hdry | hnone
    · rw [if_pos hdry]
    · rw [hnone, ite_self]
  rw [hpayload, filled] at hdata
  simp only [receive, prepare_calloc p hcalloc, ok_bind, hready, receiveDataFrames_ok hle,
    processDataFrames, hdata, Options.store, haddr, Options.allocate, hmalloc, if_true]
  split
  · exact ⟨_, rfl⟩
  · exact ⟨_, rfl⟩

end Soc
