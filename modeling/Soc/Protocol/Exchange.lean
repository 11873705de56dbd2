import Soc.Protocol.Slave

/-!
The send phase of the master, the slave, and the two links between them.

A link is a queue of bytes that come out in order, any time later and in any
portions. The master repeats its request when its wait ends without the reply it
waits for; after the reply to a SEND request it writes the data frames of the
file. Bytes on the way to the slave are marked with what the master wrote them
for; nothing depends on the marks.
-/
namespace Soc
open Runs

/-- What `get_data_frames` gives for a file that is not empty. -/
structure Job where
  nFile : UInt32
  nFrame : UInt16
  frames : List DataFrame
  length : frames.length = nFrame.toNat
  nonempty : 0 < nFrame.toNat

/-- The requests of the send phase. -/
inductive Command where
  | query
  | send
  deriving DecidableEq

def Command.frameType : Command → UInt8
  | .query => frameTypeQuery
  | .send => frameTypeSend

/-- `output_frame` -/
def Job.request (job : Job) (command : Command) : Frame :=
  { address := addressMaster
    frameType := command.frameType
    nFile := job.nFile
    nFrame := job.nFrame }

/-- Where `send_and_receive_frame` is: before its first `send_frame`, waiting for
the reply, or about to send again. -/
inductive Attempt where
  | first
  | waiting
  | again
  deriving DecidableEq

inductive Phase where
  | exchange (command : Command) (attempt : Attempt)
  | data (i : Nat) (rest : List DataFrame)

/-- The master at the first of the files it still has to send. Exchanges are
numbered. -/
structure Master where
  binary : Bool
  jobs : List Job
  phase : Phase := .exchange .query .first
  nTotalFrame : BitVec 24 := 0
  exchange : Nat := 0

/-- What a byte was written for: a request or data frame `i` of an exchange. -/
inductive Purpose where
  | request
  | data (i : Nat)
  deriving DecidableEq

structure Origin where
  exchange : Nat
  purpose : Purpose
  offset : Nat
  deriving DecidableEq

/-- A byte on the way to the slave. -/
structure Marked where
  byte : UInt8
  origin : Origin

def mark (exchange : Nat) (purpose : Purpose) (bytes : List UInt8) : List Marked :=
  bytes.mapIdx fun i byte => ⟨byte, exchange, purpose, i⟩

/-- `send_data_frame_directly` or `send_data_frame`: what is written, and the
counter after it. -/
def dataImage (binary : Bool) (nTotalFrame : BitVec 24) (f : DataFrame) :
    List UInt8 × BitVec 24 :=
  if binary then (DataFrame.layout.store f, nTotalFrame)
  else (writeDataFrame { f with nTotalFrame }, nTotalFrame + 1)

/-- After a data frame: the next one, or a query. -/
def Master.wrote (m : Master) (nTotalFrame : BitVec 24) (i : Nat) (rest : List DataFrame) :
    Master :=
  match rest with
  | [] => { m with phase := .exchange .query .first, nTotalFrame, exchange := m.exchange + 1 }
  | _ :: _ => { m with phase := .data (i + 1) rest, nTotalFrame }

/-- After a reply: data frames after SEND; after QUERY the file is sent, again
if need be, while it is unreceived, else the next file is asked for. -/
def Master.replied (m : Master) (job : Job) (rest : List Job) (command : Command)
    (inputFrame : Frame) : Master :=
  match command with
  | .send => { m with phase := .data 0 job.frames }
  | .query =>
    if inputFrame.status = statusUnreceived then
      { m with phase := .exchange .send .first, exchange := m.exchange + 1 }
    else { m with jobs := rest, phase := .exchange .query .first, exchange := m.exchange + 1 }

/-- The test of `send_and_receive_frame` on what it received. -/
def Job.expects (job : Job) (command : Command) (n : Int) (inputFrame : Frame) : Bool :=
  0 < n ∧ inputFrame.address = addressSlave ∧ inputFrame.frameType = command.frameType ∧
    inputFrame.nFile = job.nFile

/-- Where the slave is: waiting for a request, or in `receive_data_frames` for a
SEND request of an exchange, with the results of its reads so far. -/
inductive Mode where
  | listening
  | receiving (inputFrame : Frame) (exchange : Nat) (reads : List (List UInt8))

structure System where
  master : Master
  slave : Slave
  mode : Mode := .listening
  toSlave : List Marked := []
  toMaster : List UInt8 := []

inductive Label where
  /-- the master writes its request -/
  | request
  /-- its wait for a reply ends -/
  | timeout
  /-- it reads a reply, or a part of one -/
  | reply (size : Nat)
  /-- it writes a data frame -/
  | data
  /-- the slave reads a request, or a part of one, and answers it -/
  | listen (size : Nat)
  /-- a read of a reception returns bytes -/
  | receive (size : Nat)
  /-- a read of a reception returns none -/
  | fail
  /-- the read loop ends and the frames are handled -/
  | finish
  /-- the wait for data ends -/
  | expire

/-- The bytes a reception asks for. -/
def announced (inputFrame : Frame) : Nat := dataFrameSize * inputFrame.nFrame.toNat

/-- How many of the last reads returned nothing. -/
def failures (reads : List (List UInt8)) : Nat := (reads.reverse.takeWhile List.isEmpty).length

/-- The condition on which the read loop goes on. -/
def Reading (inputFrame : Frame) (reads : List (List UInt8)) : Prop :=
  reads.flatten.length < announced inputFrame ∧ failures reads < readCount

instance (inputFrame : Frame) (reads : List (List UInt8)) : Decidable (Reading inputFrame reads) :=
  inferInstanceAs (Decidable (_ ∧ _))

def System.request (t : System) : Option System :=
  match t.master.jobs, t.master.phase with
  | job :: _, .exchange command attempt =>
    if attempt = .waiting then none
    else some { t with
      master := { t.master with phase := .exchange command .waiting }
      toSlave := t.toSlave ++ mark t.master.exchange .request (writeFrame (job.request command)) }
  | _, _ => none

def System.timeout (t : System) : Option System :=
  match t.master.phase with
  | .exchange command .waiting =>
    some { t with master := { t.master with phase := .exchange command .again } }
  | _ => none

def System.reply (t : System) (size : Nat) : Option System :=
  match t.master.jobs, t.master.phase with
  | job :: rest, .exchange command .waiting =>
    if 0 < size ∧ size ≤ frameSize ∧ size ≤ t.toMaster.length then
      match receiveFrame true (some (t.toMaster.take size)) {} with
      | .error _ => none
      | .ok (n, inputFrame) =>
        let master :=
          if job.expects command n inputFrame then t.master.replied job rest command inputFrame
          else { t.master with phase := .exchange command .again }
        some { t with master, toMaster := t.toMaster.drop size }
    else none
  | _, _ => none

def System.data (t : System) : Option System :=
  match t.master.phase with
  | .data i (f :: rest) =>
    let (bytes, nTotalFrame) := dataImage t.master.binary t.master.nTotalFrame f
    some { t with
      master := t.master.wrote nTotalFrame i rest
      toSlave := t.toSlave ++ mark t.master.exchange (.data i) bytes }
  | _ => none

/-- The bytes of what a turn writes. -/
def Output.bytes (out : Output) : List UInt8 :=
  (match out.reply with
    | none => []
    | some reply => writeFrame reply) ++ out.data.flatten

/-- A SEND request for a file of the table is answered at once; its reception
takes its own steps. Other requests take one. -/
def System.listen (o : Options) (t : System) (size : Nat) : Option System :=
  match t.mode with
  | .receiving _ _ _ => none
  | .listening =>
    if 0 < size ∧ size ≤ frameSize ∧ size ≤ t.toSlave.length then
      let chunk := t.toSlave.take size
      let toSlave := t.toSlave.drop size
      match Event.request { read := some (chunk.map Marked.byte) } with
      | none => some { t with toSlave }
      | some inputFrame =>
        if inputFrame.frameType = frameTypeSend ∧ (fileIndex inputFrame.nFile).isSome then
          let exchange := (chunk.head?.map fun b => b.origin.exchange).getD 0
          some { t with
            mode := .receiving inputFrame exchange []
            toSlave
            toMaster := t.toMaster ++ writeFrame (t.slave.sendReply inputFrame) }
        else
          match t.slave.handle o inputFrame {} with
          | .error _ => none
          | .ok (slave, out) => some { t with slave, toSlave, toMaster := t.toMaster ++ out.bytes }
    else none

def System.receive (t : System) (size : Nat) : Option System :=
  match t.mode with
  | .listening => none
  | .receiving inputFrame exchange reads =>
    if Reading inputFrame reads ∧ 0 < size ∧ size ≤ t.toSlave.length ∧
        reads.flatten.length + size ≤ announced inputFrame then
      some { t with
        mode := .receiving inputFrame exchange
          (reads ++ [(t.toSlave.take size).map Marked.byte])
        toSlave := t.toSlave.drop size }
    else none

def System.fail (t : System) : Option System :=
  match t.mode with
  | .listening => none
  | .receiving inputFrame exchange reads =>
    if Reading inputFrame reads then
      some { t with mode := .receiving inputFrame exchange (reads ++ [[]]) }
    else none

def System.finish (o : Options) (t : System) : Option System :=
  match t.mode with
  | .listening => none
  | .receiving inputFrame _ reads =>
    if Reading inputFrame reads then none
    else
      match t.slave.send o inputFrame { reads } with
      | .error _ => none
      | .ok (slave, _) => some { t with slave, mode := .listening }

def System.expire (o : Options) (t : System) : Option System :=
  match t.mode with
  | .receiving inputFrame _ [] =>
    match t.slave.send o inputFrame { dataReady := false } with
    | .error _ => none
    | .ok (slave, _) => some { t with slave, mode := .listening }
  | _ => none

def System.step (o : Options) (t : System) : Label → Option System
  | .request => t.request
  | .timeout => t.timeout
  | .reply size => t.reply size
  | .data => t.data
  | .listen size => t.listen o size
  | .receive size => t.receive size
  | .fail => t.fail
  | .finish => t.finish o
  | .expire => t.expire o

def System.Step (o : Options) (t : System) (label : Label) (t' : System) : Prop :=
  t.step o label = some t'

def System.init (binary : Bool) (jobs : List Job) (slave : Slave) : System :=
  { master := { binary, jobs }, slave }

/-! What each step needs and does. -/

section Steps
variable {o : Options} {t t' : System} {size : Nat}

theorem System.request_some (h : t.request = some t') : ∃ job rest command attempt,
    t.master.jobs = job :: rest ∧ t.master.phase = .exchange command attempt ∧
      attempt ≠ .waiting ∧ t' = { t with
        master := { t.master with phase := .exchange command .waiting }
        toSlave := t.toSlave ++
          mark t.master.exchange .request (writeFrame (job.request command)) } := by
  unfold request at h
  split at h
  case h_1 job rest command attempt hjobs hphase =>
      split at h
      case isTrue => contradiction
      case isFalse hattempt =>
          exact ⟨job, rest, command, attempt, hjobs, hphase, hattempt, (Option.some.inj h).symm⟩
  case h_2 => contradiction

theorem System.timeout_some (h : t.timeout = some t') : ∃ command,
    t.master.phase = .exchange command .waiting ∧
      t' = { t with master := { t.master with phase := .exchange command .again } } := by
  unfold timeout at h
  split at h
  case h_1 command hphase => exact ⟨command, hphase, (Option.some.inj h).symm⟩
  case h_2 => contradiction

theorem System.reply_some (h : t.reply size = some t') : ∃ job rest command n inputFrame,
    t.master.jobs = job :: rest ∧ t.master.phase = .exchange command .waiting ∧
      size ≤ t.toMaster.length ∧
      receiveFrame true (some (t.toMaster.take size)) {} = .ok (n, inputFrame) ∧
      t' = { t with
        master :=
          if job.expects command n inputFrame then t.master.replied job rest command inputFrame
          else { t.master with phase := .exchange command .again }
        toMaster := t.toMaster.drop size } := by
  unfold reply at h
  split at h
  case h_1 job rest command hjobs hphase =>
      split at h
      case isTrue hsize =>
          split at h
          case h_1 => contradiction
          case h_2 n inputFrame hrecv =>
              exact ⟨job, rest, command, n, inputFrame, hjobs, hphase, hsize.2.2, hrecv,
                (Option.some.inj h).symm⟩
      case isFalse => contradiction
  case h_2 => contradiction

theorem System.data_some (h : t.data = some t') : ∃ i f rest, t.master.phase = .data i (f :: rest) ∧
    t' = { t with
      master := t.master.wrote (dataImage t.master.binary t.master.nTotalFrame f).2 i rest
      toSlave := t.toSlave ++ mark t.master.exchange (.data i)
        (dataImage t.master.binary t.master.nTotalFrame f).1 } := by
  unfold data at h
  split at h
  case h_1 i f rest hphase => exact ⟨i, f, rest, hphase, (Option.some.inj h).symm⟩
  case h_2 => contradiction

/-- A SEND request for a file of the table. -/
def Frame.Opens (f : Frame) : Prop := f.frameType = frameTypeSend ∧ (fileIndex f.nFile).isSome

theorem System.listen_some (h : t.listen o size = some t') : t.mode = .listening ∧
    size ≤ t.toSlave.length ∧
    ((Event.request { read := some ((t.toSlave.take size).map Marked.byte) } = none ∧
        t' = { t with toSlave := t.toSlave.drop size }) ∨
      ∃ f, Event.request { read := some ((t.toSlave.take size).map Marked.byte) } = some f ∧
        (f.Opens ∧ t' = { t with
            mode := .receiving f
              (((t.toSlave.take size).head?.map fun b => b.origin.exchange).getD 0) []
            toSlave := t.toSlave.drop size
            toMaster := t.toMaster ++ writeFrame (t.slave.sendReply f) } ∨
          ¬ f.Opens ∧ ∃ slave out, t.slave.handle o f {} = .ok (slave, out) ∧ t' = { t with
            slave
            toSlave := t.toSlave.drop size
            toMaster := t.toMaster ++ out.bytes })) := by
  unfold listen at h
  split at h
  case h_1 => contradiction
  case h_2 hmode =>
      split at h
      case isTrue hsize =>
          refine ⟨hmode, hsize.2.2, ?_⟩
          simp only at h
          split at h
          case h_1 hnone => exact .inl ⟨hnone, (Option.some.inj h).symm⟩
          case h_2 f hrequest =>
              refine .inr ⟨f, hrequest, ?_⟩
              split at h
              case isTrue hopens => exact .inl ⟨hopens, (Option.some.inj h).symm⟩
              case isFalse hother =>
                  split at h
                  case h_1 => contradiction
                  case h_2 slave out hhandle =>
                      exact .inr ⟨hother, slave, out, hhandle, (Option.some.inj h).symm⟩
      case isFalse => contradiction

theorem System.receive_some (h : t.receive size = some t') : ∃ f x reads,
    t.mode = .receiving f x reads ∧ 0 < size ∧ size ≤ t.toSlave.length ∧
      reads.flatten.length + size ≤ announced f ∧ t' = { t with
        mode := .receiving f x (reads ++ [(t.toSlave.take size).map Marked.byte])
        toSlave := t.toSlave.drop size } := by
  unfold receive at h
  split at h
  case h_1 => contradiction
  case h_2 f x reads hmode =>
      split at h
      case isTrue hsize =>
          exact ⟨f, x, reads, hmode, hsize.2.1, hsize.2.2.1, hsize.2.2.2, (Option.some.inj h).symm⟩
      case isFalse => contradiction

theorem System.fail_some (h : t.fail = some t') : ∃ f x reads, t.mode = .receiving f x reads ∧
    t' = { t with mode := .receiving f x (reads ++ [[]]) } := by
  unfold fail at h
  split at h
  case h_1 => contradiction
  case h_2 f x reads hmode =>
      split at h
      case isTrue => exact ⟨f, x, reads, hmode, (Option.some.inj h).symm⟩
      case isFalse => contradiction

theorem System.finish_some (h : t.finish o = some t') : ∃ f x reads slave out,
    t.mode = .receiving f x reads ∧ t.slave.send o f { reads } = .ok (slave, out) ∧
      t' = { t with slave, mode := .listening } := by
  unfold finish at h
  split at h
  case h_1 => contradiction
  case h_2 f x reads hmode =>
      split at h
      case isTrue => contradiction
      case isFalse =>
          split at h
          case h_1 => contradiction
          case h_2 slave out hsend =>
              exact ⟨f, x, reads, slave, out, hmode, hsend, (Option.some.inj h).symm⟩

theorem System.expire_some (h : t.expire o = some t') : ∃ f x slave out,
    t.mode = .receiving f x [] ∧ t.slave.send o f { dataReady := false } = .ok (slave, out) ∧
      t' = { t with slave, mode := .listening } := by
  unfold expire at h
  split at h
  case h_1 f x hmode =>
      split at h
      case h_1 => contradiction
      case h_2 slave out hsend =>
          exact ⟨f, x, slave, out, hmode, hsend, (Option.some.inj h).symm⟩
  case h_2 => contradiction

end Steps

/-! The slave of the system is the slave on its own. -/

theorem Event.request_address {e : Event} {f : Frame} (h : e.request = some f) :
    f.address = addressMaster := by
  unfold request at h
  split at h
  case h_1 => contradiction
  case h_2 =>
      split at h
      case isTrue => contradiction
      case isFalse hskip =>
          obtain rfl := Option.some.inj h
          exact Classical.not_not.mp fun hne => hskip (.inr hne)

/-- A reception belongs to a SEND request of the master. -/
def System.Receives (t : System) : Prop :=
  ∀ f x reads, t.mode = .receiving f x reads →
    f.address = addressMaster ∧ f.frameType = frameTypeSend

theorem System.step_slave {o : Options} {t t' : System} {label : Label} (h : t.Receives)
    (hstep : t.Step o label t') :
    t'.Receives ∧ (t'.slave = t.slave ∨ ∃ e, t.slave.Turn o e t'.slave) := by
  have hlistening (slave : Slave) (u : System) (hu : u = { t with slave, mode := .listening }) :
      u.Receives := by
    rw [hu]
    intro f x reads hmode
    contradiction
  cases label with
  | request =>
      obtain ⟨_, _, _, _, -, -, -, rfl⟩ := request_some hstep
      exact ⟨h, .inl rfl⟩
  | timeout =>
      obtain ⟨_, -, rfl⟩ := timeout_some hstep
      exact ⟨h, .inl rfl⟩
  | reply size =>
      obtain ⟨_, _, _, _, _, -, -, -, -, rfl⟩ := reply_some hstep
      exact ⟨h, .inl rfl⟩
  | data =>
      obtain ⟨_, _, _, -, rfl⟩ := data_some hstep
      exact ⟨h, .inl rfl⟩
  | listen size =>
      obtain ⟨hmode, -, ⟨-, rfl⟩ | ⟨f, hrequest, ⟨hopens, rfl⟩ | ⟨-, slave, out, hhandle, rfl⟩⟩⟩ :=
        listen_some hstep
      · exact ⟨h, .inl rfl⟩
      · refine ⟨?_, .inl rfl⟩
        intro g x reads hg
        obtain ⟨rfl, -, -⟩ := Mode.receiving.inj hg
        exact ⟨Event.request_address hrequest, hopens.1⟩
      · exact ⟨h, .inr ⟨_, out, (Slave.turn_of_request o t.slave hrequest).trans hhandle⟩⟩
  | receive size =>
      obtain ⟨f, x, reads, hmode, -, -, -, rfl⟩ := receive_some hstep
      refine ⟨?_, .inl rfl⟩
      intro g y reads' hg
      obtain ⟨rfl, -, -⟩ := Mode.receiving.inj hg
      exact h f x reads hmode
  | fail =>
      obtain ⟨f, x, reads, hmode, rfl⟩ := fail_some hstep
      refine ⟨?_, .inl rfl⟩
      intro g y reads' hg
      obtain ⟨rfl, -, -⟩ := Mode.receiving.inj hg
      exact h f x reads hmode
  | finish =>
      obtain ⟨f, x, reads, slave, out, hmode, hsend, rfl⟩ := finish_some hstep
      obtain ⟨haddress, htype⟩ := h f x reads hmode
      refine ⟨hlistening slave _ rfl, .inr ⟨.ofFrame f { reads }, out, ?_⟩⟩
      rw [Slave.turn_send o t.slave haddress htype, hsend]
  | expire =>
      obtain ⟨f, x, slave, out, hmode, hsend, rfl⟩ := expire_some hstep
      obtain ⟨haddress, htype⟩ := h f x [] hmode
      refine ⟨hlistening slave _ rfl, .inr ⟨.ofFrame f { dataReady := false }, out, ?_⟩⟩
      rw [Slave.turn_send o t.slave haddress htype, hsend]

/-- Whatever the links do, the slave of the system goes through a run of its own. -/
theorem System.run_slave {o : Options} {t t' : System} {labels : List Label} (h : t.Receives)
    (hrun : Run (System.Step o) t labels t') : ∃ es, Run (Slave.Turn o) t.slave es t'.slave := by
  induction hrun with
  | nil t => exact ⟨[], .nil _⟩
  | cons head _ ih =>
      obtain ⟨hnext, hslave⟩ := step_slave h head
      obtain ⟨es, hes⟩ := ih hnext
      rcases hslave with heq | ⟨e, hturn⟩
      · exact ⟨es, heq ▸ hes⟩
      · exact ⟨e :: es, .cons hturn hes⟩

end Soc
