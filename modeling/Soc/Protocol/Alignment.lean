import Soc.Protocol.Exchange
import Soc.Protocol.Loss

/-!
Where a reception starts reading.

The bytes on the way to the slave, and those the master is bound to write next,
are whole requests, each SEND request for a file of the table with the data frames
of its exchange behind it. That stays so while no such request is sent twice,
requests are read whole and every reception reads what was announced.
-/
namespace Soc
open Windows Runs

/-- The next byte a reception reads is the first of the data frames of its
request. -/
def System.Aligned (t : System) : Prop :=
  ∀ f x reads b bs, t.mode = .receiving f x reads → reads.flatten = [] →
    0 < f.nFrame.toNat → t.toSlave = b :: bs → b.origin = ⟨x, .data 0, 0⟩

/-- Every file still to be sent is one of the slave's table. -/
def Master.Tabled (m : Master) : Prop := ∀ job ∈ m.jobs, (fileIndex job.nFile).isSome

/-- The next request is a SEND request, for a file of the table, that was written
before. -/
def Master.resends (m : Master) : Bool :=
  match m.jobs, m.phase with
  | job :: _, .exchange .send .again => (fileIndex job.nFile).isSome
  | _, _ => false

/-- A reception has all the bytes it asks for. -/
def Mode.complete : Mode → Bool
  | .listening => true
  | .receiving f _ reads => reads.flatten.length = announced f

/-- No SEND request for a file of the table is written a second time, requests
are read whole, and a reception ends with all its bytes. As long as a file outside
the table is to come, replies are read whole too. -/
def System.Careful (t : System) : Label → Prop
  | .request => t.master.resends = false
  | .reply size => t.master.Tabled ∨ size = frameSize
  | .listen size => size = frameSize
  | .finish => t.mode.complete = true
  | .expire => False
  | _ => True

/-! The bytes ahead. -/

/-- Data frames as they are going to be written. -/
def markFrames (binary : Bool) (exchange : Nat) : Nat → BitVec 24 → List DataFrame → List Marked
  | _, _, [] => []
  | i, count, f :: fs =>
    mark exchange (.data i) (dataImage binary count f).1 ++
      markFrames binary exchange (i + 1) (dataImage binary count f).2 fs

/-- What the master is bound to write next: once a SEND request for a file of the
table is out, its data frames. -/
def Master.owed (m : Master) : List Marked :=
  match m.phase with
  | .exchange .query _ => []
  | .exchange .send .first => []
  | .exchange .send _ =>
    match m.jobs with
    | [] => []
    | job :: _ =>
      if (fileIndex job.nFile).isSome then
        markFrames m.binary m.exchange 0 m.nTotalFrame job.frames
      else []
  | .data i rest => markFrames m.binary m.exchange i m.nTotalFrame rest

/-- Whole requests; data frames stand behind the SEND requests that are accepted. -/
inductive Stream : List Marked → Prop where
  | nil : Stream []
  | other {x : Nat} {f : Frame} {tail : List Marked} (address : f.address = addressMaster)
      (frameType : f.frameType = frameTypeQuery ∨ f.frameType = frameTypeSend)
      (other : ¬ f.Opens) (rest : Stream tail) :
      Stream (mark x .request (writeFrame f) ++ tail)
  | opens {x : Nat} {f : Frame} {data tail : List Marked} (address : f.address = addressMaster)
      (opens : f.Opens) (size : data.length = announced f)
      (first : ∀ b ∈ data.head?, b.origin = ⟨x, .data 0, 0⟩) (rest : Stream tail) :
      Stream (mark x .request (writeFrame f) ++ (data ++ tail))

/-- What lies ahead of the slave. -/
def Mode.Ahead (bytes : List Marked) : Mode → Prop
  | .listening => Stream bytes
  | .receiving f x reads => ∃ data tail, bytes = data ++ tail ∧
      data.length + reads.flatten.length = announced f ∧
      (reads.flatten = [] → ∀ b ∈ data.head?, b.origin = ⟨x, .data 0, 0⟩) ∧ Stream tail

/-- Whole replies; none is to a SEND request outside the table. -/
inductive Replies : List UInt8 → Prop where
  | nil : Replies []
  | cons {f : Frame} {tail : List UInt8}
      (opens : f.frameType = frameTypeSend → (fileIndex f.nFile).isSome) (rest : Replies tail) :
      Replies (writeFrame f ++ tail)

structure System.Inv (t : System) : Prop where
  ahead : t.mode.Ahead (t.toSlave ++ t.master.owed)
  replies : t.master.Tabled ∨ Replies t.toMaster

@[simp] theorem mark_length (x : Nat) (purpose : Purpose) (bytes : List UInt8) :
    (mark x purpose bytes).length = bytes.length := List.length_mapIdx

theorem mark_bytes (x : Nat) (purpose : Purpose) (bytes : List UInt8) :
    (mark x purpose bytes).map Marked.byte = bytes := by
  have hbyte := mapIdx_map_of_const (f := fun i byte => Marked.mk byte ⟨x, purpose, i⟩)
    (g := Marked.byte) (h := id) (fun _ _ => rfl) bytes
  rwa [List.map_id] at hbyte

theorem mark_head (x : Nat) (purpose : Purpose) {bytes : List UInt8} (tail : List Marked)
    (h : 0 < bytes.length) :
    (mark x purpose bytes ++ tail).head?.map Marked.origin = some ⟨x, purpose, 0⟩ := by
  cases bytes with
  | nil => contradiction
  | cons b bs =>
      rw [mark, List.mapIdx_cons]
      rfl

@[simp] theorem dataImage_length (binary : Bool) (count : BitVec 24) (f : DataFrame) :
    (dataImage binary count f).1.length = dataFrameSize := by
  unfold dataImage
  split
  · exact DataFrame.layout.store_length f
  · exact writeDataFrame_length _

theorem markFrames_length (binary : Bool) (x i : Nat) (count : BitVec 24) (fs : List DataFrame) :
    (markFrames binary x i count fs).length = dataFrameSize * fs.length := by
  induction fs generalizing i count with
  | nil => rfl
  | cons f fs ih =>
      rw [markFrames, List.length_append, mark_length, dataImage_length, ih, List.length_cons,
        Nat.mul_succ, Nat.add_comm]

theorem Stream.append {xs ys : List Marked} (h : Stream xs) (h' : Stream ys) :
    Stream (xs ++ ys) := by
  induction h with
  | nil => exact h'
  | other address frameType other _ ih =>
      rw [List.append_assoc]
      exact .other address frameType other ih
  | opens address opens size first _ ih =>
      rw [List.append_assoc, List.append_assoc]
      exact .opens address opens size first ih

theorem Mode.Ahead.append {mode : Mode} {xs ys : List Marked} (h : mode.Ahead xs)
    (h' : Stream ys) : mode.Ahead (xs ++ ys) := by
  cases mode with
  | listening => exact Stream.append h h'
  | receiving f x reads =>
      obtain ⟨data, tail, rfl, hsize, hfirst, htail⟩ := h
      exact ⟨data, tail ++ ys, List.append_assoc _ _ _, hsize, hfirst, htail.append h'⟩

theorem Replies.snoc {bytes : List UInt8} {f : Frame} (h : Replies bytes)
    (opens : f.frameType = frameTypeSend → (fileIndex f.nFile).isSome) :
    Replies (bytes ++ writeFrame f) := by
  induction h with
  | nil =>
      rw [List.nil_append, ← List.append_nil (writeFrame f)]
      exact .cons opens .nil
  | cons opens' _ ih =>
      rw [List.append_assoc]
      exact .cons opens' ih

/-- A prefix that was written whole is taken whole. -/
theorem append_split {α : Type} {xs ys as bs : List α} (h : xs ++ ys = as ++ bs)
    (hle : as.length ≤ xs.length) :
    xs.take as.length = as ∧ xs.drop as.length ++ ys = bs := by
  have htake := congrArg (List.take as.length) h
  have hdrop := congrArg (List.drop as.length) h
  rw [List.take_append_of_le_length hle, List.take_left] at htake
  rw [List.drop_append_of_le_length hle, List.drop_left] at hdrop
  exact ⟨htake, hdrop⟩

/-! One step. -/

/-- The request an exchange writes and what it is then bound to write make a stream. -/
theorem request_stream (m : Master) {job : Job} {rest : List Job} (hjobs : m.jobs = job :: rest)
    (command : Command) : Stream (mark m.exchange .request (writeFrame (job.request command)) ++
      ({ m with phase := .exchange command .waiting } : Master).owed) := by
  have haddress : (job.request command).address = addressMaster := rfl
  have hlone (h : ¬ (job.request command).Opens)
      (htype : (job.request command).frameType = frameTypeQuery ∨
        (job.request command).frameType = frameTypeSend) :
      Stream (mark m.exchange .request (writeFrame (job.request command)) ++ []) :=
    .other haddress htype h .nil
  cases command with
  | query =>
      refine hlone ?_ (.inl rfl)
      intro hopens
      exact absurd (show frameTypeQuery = frameTypeSend from hopens.1) (by decide)
  | send =>
      simp only [Master.owed, hjobs]
      by_cases hfile : (fileIndex job.nFile).isSome = true
      · rw [if_pos hfile]
        have hsize := markFrames_length m.binary m.exchange 0 m.nTotalFrame job.frames
        rw [job.length] at hsize
        rw [← List.append_nil (markFrames m.binary m.exchange 0 m.nTotalFrame job.frames)]
        refine .opens haddress ⟨rfl, hfile⟩ hsize ?_ .nil
        · intro b hb
          cases hframes : job.frames with
          | nil =>
              have hnone := job.length
              rw [hframes] at hnone
              exact absurd job.nonempty (by rw [← hnone]; exact Nat.lt_irrefl 0)
          | cons g gs =>
              rw [hframes, markFrames] at hb
              have hpos : 0 < (dataImage m.binary m.nTotalFrame g).1.length := by
                rw [dataImage_length]
                decide
              have hhead := mark_head m.exchange (.data 0)
                (markFrames m.binary m.exchange (0 + 1) (dataImage m.binary m.nTotalFrame g).2 gs)
                hpos
              rw [Option.mem_def.mp hb] at hhead
              exact Option.some.inj hhead
      · rw [if_neg hfile]
        exact hlone (fun hopens => hfile hopens.2) (.inr rfl)

/-- A data frame is written as it was owed. -/
theorem owed_data {m : Master} {i : Nat} {f : DataFrame} {rest : List DataFrame}
    (h : m.phase = .data i (f :: rest)) :
    m.owed = mark m.exchange (.data i) (dataImage m.binary m.nTotalFrame f).1 ++
      (m.wrote (dataImage m.binary m.nTotalFrame f).2 i rest).owed := by
  have howed : m.owed = markFrames m.binary m.exchange i m.nTotalFrame (f :: rest) := by
    simp only [Master.owed, h]
  rw [howed, markFrames]
  cases rest with
  | nil => rfl
  | cons g gs => rfl

/-- A reply does not change what the master owes. -/
theorem owed_replied {m : Master} {job : Job} {rest : List Job} {command : Command} {n : Int}
    {f : Frame} (hjobs : m.jobs = job :: rest) (hphase : m.phase = .exchange command .waiting)
    (htable : command = .send → job.expects command n f = true → (fileIndex job.nFile).isSome) :
    (if job.expects command n f then m.replied job rest command f
      else { m with phase := .exchange command .again }).owed = m.owed := by
  split
  case isTrue hexpects =>
      cases command with
      | query =>
          have hnone : m.owed = [] := by simp only [Master.owed, hphase]
          rw [hnone, Master.replied]
          split <;> rfl
      | send =>
          have hsome := htable rfl hexpects
          simp only [Master.replied, Master.owed, hphase, hjobs, if_pos hsome]
  case isFalse =>
      cases command with
      | query => simp only [Master.owed, hphase]
      | send => simp only [Master.owed, hphase]

/-- Handling a request that opens no reception writes whole replies. -/
theorem handle_replies {o : Options} {s s' : Slave} {f : Frame} {out : Output}
    (htype : f.frameType = frameTypeQuery ∨ f.frameType = frameTypeSend) (hother : ¬ f.Opens)
    (h : s.handle o f {} = .ok (s', out)) {bytes : List UInt8} (hreplies : Replies bytes) :
    Replies (bytes ++ out.bytes) := by
  rcases htype with hquery | hsend
  · rw [Slave.handle_query o s {} hquery] at h
    obtain ⟨-, heq⟩ := Prod.mk.inj (Except.ok.inj h)
    obtain rfl : { reply := some (s.queryReply f) } = out := heq
    rw [show ({ reply := some (s.queryReply f) } : Output).bytes = writeFrame (s.queryReply f) from
      List.append_nil _]
    refine hreplies.snoc ?_
    intro hsend
    exact absurd (hquery.symm.trans hsend) (by decide)
  · have hnone : fileIndex f.nFile = none := by
      rw [← Option.not_isSome_iff_eq_none]
      exact fun hsome => hother ⟨hsend, hsome⟩
    rw [Slave.handle_send o s {} hsend] at h
    simp only [Slave.send, hnone] at h
    obtain ⟨-, rfl⟩ := Prod.mk.inj (Except.ok.inj h)
    have hbytes : ({} : Output).bytes = [] := rfl
    rwa [hbytes, List.append_nil]

/-- A request at the head of the link is read as it was written. -/
theorem chunk_request {x : Nat} {f : Frame} {toSlave owed tail : List Marked}
    (haddress : f.address = addressMaster) (hsize : frameSize ≤ toSlave.length)
    (h : toSlave ++ owed = mark x .request (writeFrame f) ++ tail) :
    Event.request { read := some ((toSlave.take frameSize).map Marked.byte) } = some f.signed ∧
      ((toSlave.take frameSize).head?.map fun b => b.origin.exchange) = some x ∧
      toSlave.drop frameSize ++ owed = tail := by
  have hlength : (mark x .request (writeFrame f)).length = frameSize := by
    rw [mark_length, writeFrame_length]
  have hsplit := append_split h (by rwa [hlength])
  rw [hlength] at hsplit
  refine ⟨?_, ?_, hsplit.2⟩
  · rw [hsplit.1, mark_bytes]
    exact Event.ofFrame_request haddress {}
  · have hpos : 0 < (writeFrame f).length := by
      rw [writeFrame_length]
      decide
    have hhead := mark_head x .request [] hpos
    rw [List.append_nil] at hhead
    rw [hsplit.1]
    obtain ⟨b, hb, horigin⟩ := Option.map_eq_some_iff.mp hhead
    rw [hb, Option.map_some, horigin]

theorem System.listen_inv {o : Options} {t t' : System} (h : t.Inv)
    (hstep : t.listen o frameSize = some t') : t'.Inv := by
  obtain ⟨hmode, hsize, hcases⟩ := listen_some hstep
  have hstream : Stream (t.toSlave ++ t.master.owed) := by
    have hahead := h.ahead
    rwa [hmode] at hahead
  generalize hbytes : t.toSlave ++ t.master.owed = bytes at hstream
  cases hstream with
  | nil =>
      have hnil := (List.append_eq_nil_iff.mp hbytes).1
      rw [hnil] at hsize
      exact absurd hsize (by decide)
  | @other x f tail address frameType other rest =>
      obtain ⟨hrequest, -, hrest⟩ := chunk_request address hsize hbytes
      rcases hcases with ⟨hnone, -⟩ | ⟨g, hg, hcases⟩
      · rw [hrequest] at hnone
        contradiction
      · obtain rfl := Option.some.inj (hrequest.symm.trans hg)
        rcases hcases with ⟨hopens, -⟩ | ⟨-, slave, out, hhandle, rfl⟩
        · exact absurd hopens other
        · refine ⟨?_, h.replies.imp id (handle_replies frameType other hhandle)⟩
          simp only [hmode, hrest]
          exact rest
  | @opens x f data tail address opens size first rest =>
      obtain ⟨hrequest, hexchange, hrest⟩ := chunk_request address hsize hbytes
      rcases hcases with ⟨hnone, -⟩ | ⟨g, hg, hcases⟩
      · rw [hrequest] at hnone
        contradiction
      · obtain rfl := Option.some.inj (hrequest.symm.trans hg)
        rcases hcases with ⟨-, rfl⟩ | ⟨hother, -⟩
        · refine ⟨?_, h.replies.imp id fun hreplies => hreplies.snoc fun _ => opens.2⟩
          simp only [hexchange, hrest, Option.getD_some]
          exact ⟨data, tail, rfl, size, fun _ => first, rest⟩
        · exact absurd opens hother

/-- A careful master owes nothing when it writes a request. -/
theorem owed_request {m : Master} {job : Job} {rest : List Job} {command : Command}
    {attempt : Attempt} (hcareful : m.resends = false) (hjobs : m.jobs = job :: rest)
    (hphase : m.phase = .exchange command attempt) (hattempt : attempt ≠ .waiting) :
    m.owed = [] := by
  cases command with
  | query => simp only [Master.owed, hphase]
  | send =>
      cases attempt with
      | first => simp only [Master.owed, hphase]
      | waiting => contradiction
      | again =>
          have hfile : (fileIndex job.nFile).isSome = false := by
            simpa only [Master.resends, hjobs, hphase] using hcareful
          simp only [Master.owed, hphase, hjobs, hfile, Bool.false_eq_true, if_false]

theorem tabled_replied {m : Master} {job : Job} {rest : List Job} {command : Command} {n : Int}
    {f : Frame} (hjobs : m.jobs = job :: rest) (h : m.Tabled) :
    (if job.expects command n f then m.replied job rest command f
      else { m with phase := .exchange command .again }).Tabled := by
  have hrest : ∀ j ∈ rest, (fileIndex j.nFile).isSome := by
    intro j hj
    exact h j (by rw [hjobs]; exact List.mem_cons_of_mem _ hj)
  split
  case isTrue =>
      cases command with
      | send => exact h
      | query =>
          unfold Master.replied
          simp only
          split
          · exact h
          · exact hrest
  case isFalse => exact h

theorem System.reply_inv {t t' : System} {size : Nat} (h : t.Inv)
    (hcareful : t.Careful (.reply size)) (hstep : t.reply size = some t') : t'.Inv := by
  obtain ⟨job, rest, command, n, inputFrame, hjobs, hphase, hsize, hrecv, rfl⟩ := reply_some hstep
  by_cases htabled : t.master.Tabled
  · have hjob : (fileIndex job.nFile).isSome := by
      exact htabled job (by rw [hjobs]; exact List.mem_cons_self)
    refine ⟨?_, .inl (tabled_replied hjobs htabled)⟩
    simp only
    rw [owed_replied hjobs hphase fun _ _ => hjob]
    exact h.ahead
  · obtain rfl := hcareful.resolve_left htabled
    have hreplies := h.replies.resolve_left htabled
    generalize hbytes : t.toMaster = bytes at hreplies hrecv hsize
    cases hreplies with
    | nil => exact absurd hsize (by decide)
    | @cons f tail opens rest =>
        rw [List.take_left' (writeFrame_length f), receiveFrame_writeFrame] at hrecv
        obtain ⟨rfl, rfl⟩ := Prod.mk.inj (Except.ok.inj hrecv)
        have htable : command = .send → job.expects command frameSize f.signed = true →
            (fileIndex job.nFile).isSome := by
          rintro rfl hexpects
          simp only [Job.expects, decide_eq_true_eq] at hexpects
          obtain ⟨-, -, htype, hfile⟩ := hexpects
          rw [← hfile]
          exact opens htype
        refine ⟨?_, .inr ?_⟩
        · simp only
          rw [owed_replied hjobs hphase htable]
          exact h.ahead
        · simp only
          rwa [List.drop_left' (writeFrame_length f)]

theorem System.receive_inv {t t' : System} {size : Nat} (h : t.Inv)
    (hstep : t.receive size = some t') : t'.Inv := by
  obtain ⟨f, x, reads, hmode, hpos, hsize, hle, rfl⟩ := receive_some hstep
  refine ⟨?_, h.replies⟩
  have hahead := h.ahead
  rw [hmode] at hahead
  obtain ⟨data, tail, hbytes, hlength, -, hrest⟩ := hahead
  have hchunk : ((t.toSlave.take size).map Marked.byte).length = size := by
    rw [List.length_map, List.length_take, Nat.min_eq_left hsize]
  have hdata : size ≤ data.length := by omega
  refine ⟨data.drop size, tail, ?_, ?_, ?_, hrest⟩
  · have hdrop := congrArg (List.drop size) hbytes
    rwa [List.drop_append_of_le_length hsize, List.drop_append_of_le_length hdata] at hdrop
  · rw [List.flatten_append, List.length_append, List.flatten_singleton, hchunk, List.length_drop]
    omega
  · intro hnone
    rw [List.flatten_append, List.append_eq_nil_iff, List.flatten_singleton] at hnone
    rw [hnone.2, List.length_nil] at hchunk
    omega

theorem System.step_inv {o : Options} {t t' : System} {label : Label} (h : t.Inv)
    (hcareful : t.Careful label) (hstep : t.Step o label t') : t'.Inv := by
  cases label with
  | request =>
      obtain ⟨job, rest, command, attempt, hjobs, hphase, hattempt, rfl⟩ := request_some hstep
      refine ⟨?_, h.replies⟩
      have hahead := h.ahead
      rw [owed_request hcareful hjobs hphase hattempt, List.append_nil] at hahead
      simp only
      rw [List.append_assoc]
      exact hahead.append (request_stream t.master hjobs command)
  | timeout =>
      obtain ⟨command, hphase, rfl⟩ := timeout_some hstep
      refine ⟨?_, h.replies⟩
      have hahead := h.ahead
      cases command with
      | query => simpa only [Master.owed, hphase] using hahead
      | send => simpa only [Master.owed, hphase] using hahead
  | reply size => exact reply_inv h hcareful hstep
  | data =>
      obtain ⟨i, f, rest, hphase, rfl⟩ := data_some hstep
      have hjobs (count : BitVec 24) : (t.master.wrote count i rest).jobs = t.master.jobs := by
        cases rest <;> rfl
      refine ⟨?_, h.replies.imp (fun htabled job hjob => htabled job (hjobs _ ▸ hjob)) id⟩
      have hahead := h.ahead
      rw [owed_data hphase, ← List.append_assoc] at hahead
      exact hahead
  | listen size =>
      obtain rfl : size = frameSize := hcareful
      exact listen_inv h hstep
  | receive size => exact receive_inv h hstep
  | fail =>
      obtain ⟨f, x, reads, hmode, rfl⟩ := fail_some hstep
      refine ⟨?_, h.replies⟩
      have hahead := h.ahead
      rw [hmode] at hahead
      simpa only [Mode.Ahead, List.flatten_append, List.flatten_cons, List.flatten_nil,
        List.append_nil] using hahead
  | finish =>
      obtain ⟨f, x, reads, slave, out, hmode, -, rfl⟩ := finish_some hstep
      refine ⟨?_, h.replies⟩
      have hahead := h.ahead
      rw [hmode] at hahead
      obtain ⟨data, tail, hbytes, hlength, -, hrest⟩ := hahead
      have hread : reads.flatten.length = announced f := by
        simpa only [Careful, hmode, Mode.complete, decide_eq_true_eq] using hcareful
      obtain rfl : data = [] := List.length_eq_zero_iff.mp (by omega)
      simp only
      rw [hbytes]
      exact hrest
  | expire => exact hcareful.elim

theorem System.aligned_of_inv {t : System} (h : t.Inv) : t.Aligned := by
  intro f x reads b bs hmode hnone hpos hlink
  have hahead := h.ahead
  rw [hmode] at hahead
  obtain ⟨data, tail, hbytes, hlength, hfirst, -⟩ := hahead
  have hsize : 0 < data.length := by
    rw [hnone, List.length_nil, Nat.add_zero] at hlength
    rw [hlength]
    exact Nat.mul_pos (by decide) hpos
  cases data with
  | nil => exact absurd hsize (Nat.lt_irrefl 0)
  | cons d ds =>
      rw [hlink] at hbytes
      obtain ⟨rfl, -⟩ := List.cons.inj hbytes
      exact hfirst hnone b rfl

theorem System.init_inv (binary : Bool) (jobs : List Job) (slave : Slave) :
    (System.init binary jobs slave).Inv := ⟨.nil, .inr .nil⟩

/-- In every interleaving whose steps are careful, every reception starts at the
first data frame of its request. -/
theorem aligned_throughout (o : Options) (binary : Bool) (jobs : List Job) (slave : Slave)
    {labels : List Label}
    (hcareful : EveryStep (System.Step o) System.Careful (.init binary jobs slave) labels) :
    Throughout (System.Step o) System.Aligned (.init binary jobs slave) labels :=
  EveryStep.throughout (I := System.Inv) (fun _ _ _ => System.step_inv)
    (fun _ => System.aligned_of_inv) hcareful (System.init_inv binary jobs slave)

/-- A run as a computation. -/
def System.follow (o : Options) : System → List Label → Option System
  | t, [] => some t
  | t, label :: labels => (t.step o label).bind fun t' => t'.follow o labels

theorem System.run_of_follow {o : Options} {t t' : System} {labels : List Label}
    (h : t.follow o labels = some t') : Run (System.Step o) t labels t' := by
  induction labels generalizing t with
  | nil =>
      obtain rfl := Option.some.inj h
      exact .nil t
  | cons label labels ih =>
      obtain ⟨u, hstep, hrest⟩ := Option.bind_eq_some_iff.mp h
      exact .cons hstep (ih hrest)

instance (m : Master) : Decidable m.Tabled :=
  inferInstanceAs (Decidable (∀ job ∈ m.jobs, (fileIndex job.nFile).isSome))

instance (t : System) : DecidablePred t.Careful
  | .request => inferInstanceAs (Decidable (_ = _))
  | .reply _ => inferInstanceAs (Decidable (_ ∨ _))
  | .listen _ => inferInstanceAs (Decidable (_ = _))
  | .finish => inferInstanceAs (Decidable (_ = _))
  | .expire => inferInstanceAs (Decidable False)
  | .timeout => inferInstanceAs (Decidable True)
  | .data => inferInstanceAs (Decidable True)
  | .receive _ => inferInstanceAs (Decidable True)
  | .fail => inferInstanceAs (Decidable True)

/-- Every step of a computed run is careful. -/
def System.checkCareful (o : Options) : System → List Label → Bool
  | _, [] => true
  | t, label :: labels => t.Careful label ∧ (t.step o label).all fun t' => t'.checkCareful o labels

theorem System.careful_of_check {o : Options} {t : System} {labels : List Label}
    (h : t.checkCareful o labels = true) : EveryStep (System.Step o) System.Careful t labels := by
  induction labels generalizing t with
  | nil => exact everyStep_nil
  | cons label labels ih =>
      simp only [checkCareful, decide_eq_true_eq] at h
      rw [everyStep_cons]
      refine ⟨h.1, ?_⟩
      intro u hstep
      have hrest := h.2
      rw [show t.step o label = some u from hstep] at hrest
      exact ih hrest

/-- One file of one frame. -/
def oneJob : Job := ⟨0, 1, [fullFrame 0 7], rfl, by decide⟩

/-- Nothing is late: the frame lies ahead of the reception. -/
theorem aligned_throughout_once :
    let labels := [.request, .listen 12, .reply 12, .request, .listen 12, .reply 12, .data]
    ((System.init true [oneJob] Slave.init).follow dryRun labels).isSome ∧
      Throughout (System.Step dryRun) System.Aligned (.init true [oneJob] Slave.init) labels := by
  intro labels
  have hcareful : EveryStep (System.Step dryRun) System.Careful (.init true [oneJob] Slave.init)
      labels := System.careful_of_check (by decide +kernel)
  exact ⟨by decide +kernel, aligned_throughout dryRun true [oneJob] Slave.init hcareful⟩

/-- A reception is about to start with a byte of a request. -/
def System.astray (t : System) : Bool :=
  match t.mode, t.toSlave with
  | .receiving f _ [], b :: _ => 0 < f.nFrame.toNat ∧ b.origin.purpose = .request
  | _, _ => false

theorem System.not_aligned_of_astray {t : System} (h : t.astray = true) : ¬ t.Aligned := by
  intro haligned
  unfold astray at h
  split at h
  case h_1 f x b bs hmode hlink =>
      simp only [decide_eq_true_eq] at h
      have horigin := haligned f x [] b bs hmode rfl h.1 hlink
      rw [horigin] at h
      have hpurpose : Purpose.data 0 = Purpose.request := h.2
      contradiction
  case h_2 => contradiction

/-- The wait for the reply to the SEND request ends before the slave reads it,
and the request is written again: the slave reads the copy as data. -/
theorem aligned_lost_by_resend :
    ∃ t, Run (System.Step dryRun) (.init false [oneJob] Slave.init)
        [.request, .listen 12, .reply 12, .request, .timeout, .request, .listen 12] t ∧
      t.astray = true ∧ ¬ t.Aligned := by
  have hfollow : ((System.init false [oneJob] Slave.init).follow dryRun
      [.request, .listen 12, .reply 12, .request, .timeout, .request, .listen 12]).any
        System.astray = true := by decide +kernel
  generalize hlast : (System.init false [oneJob] Slave.init).follow dryRun _ = last at hfollow
  cases last with
  | none => contradiction
  | some t => exact ⟨t, System.run_of_follow hlast, hfollow, System.not_aligned_of_astray hfollow⟩

end Soc
