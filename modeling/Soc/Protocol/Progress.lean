import Soc.Protocol.Failure
import Soc.Protocol.Interference
import Soc.Protocol.Sizes

/-!
Whether the requests of the master are answered.

The master repeats a request until its reply arrives, with no way out. The slave
leaves two kinds of requests without a reply for good: SEND requests beyond its
table, and RECV requests for a result of more frames than 16 bits count, which it
does not survive. A RECV request is also left without a reply while there is no
memory for the frames.
-/
namespace Soc
open Runs

/-- The reply written for a request, before anything that comes after it. -/
def Slave.answer (s : Slave) (f : Frame) (line : Line) : Except Fault (Option Frame) :=
  if f.frameType = frameTypeQuery then .ok (replyIf line.replyReady (s.queryReply f))
  else if f.frameType = frameTypeSend then
    match fileIndex f.nFile with
    | none => .ok none
    | some _ => .ok (replyIf line.replyReady (s.sendReply f))
  else if f.frameType = frameTypeRecv then
    match fileIndex f.nFile with
    | none => .ok none
    | some k =>
      if (s.pictures k).bitStream.len = 0 then .ok none
      else do
        match ← s.framed f line.heap (s.pictures k).bitStream with
        | none => .ok none
        | some _ => .ok (replyIf line.replyReady (s.recvReply f (s.pictures k).bitStream))
  else .ok none

/-- The reply a turn writes, whether or not it returns. -/
def Slave.replied (s : Slave) (e : Event) : Option Frame :=
  match e.request with
  | none => none
  | some f => (s.answer f e.line).toOption.join

/-- The test of `send_and_receive_frame` on what it received. -/
def Frame.expects (outputFrame : Frame) (n : Int) (inputFrame : Frame) : Bool :=
  0 < n ∧ inputFrame.address = addressSlave ∧ inputFrame.frameType = outputFrame.frameType ∧
    inputFrame.nFile = outputFrame.nFile

/-- A perfect link delivers the reply, and where there is none the wait ends. -/
def delivered (reply : Option Frame) : Except Fault (Int × Frame) :=
  receiveFrame reply.isSome (reply.map writeFrame) {}

/-- `send_and_receive_frame` on a perfect link, for as many attempts as there are
lines. The slave may have ended in one of them. -/
def sendAndReceiveFrame (o : Options) (outputFrame : Frame) :
    Option Slave → List Line → Option Frame
  | _, [] => none
  | slave, line :: lines =>
    let e := Event.ofFrame outputFrame line
    match delivered (slave.bind fun s => s.replied e) with
    | .error _ => none
    | .ok (n, inputFrame) =>
      if outputFrame.expects n inputFrame then some inputFrame
      else sendAndReceiveFrame o outputFrame (slave.bind fun s => s.next o e) lines

/-- What the master can ask a slave in state `s`: the status of a file of any index
and to receive it, at any time; and its result after it was reported processed, in
the phase without SEND requests that comes then. -/
inductive Slave.Asked (o : Options) (s : Slave) (f : Frame) : Prop where
  | query {es : List Event} (run : Run (Slave.Turn o) Slave.init es s)
      (type : f.frameType = frameTypeQuery)
  | send {es : List Event} (run : Run (Slave.Turn o) Slave.init es s)
      (type : f.frameType = frameTypeSend)
  | recv {es es' : List Event} {t t' : Slave} {e : Event} {q r : Frame} {out : Output}
      (before : Run (Slave.Turn o) Slave.init es t) (request : e.request = some q)
      (queried : q.frameType = frameTypeQuery) (file : q.nFile = f.nFile)
      (turn : t.turn o e = .ok (t', out)) (reply : out.reply = some r)
      (reported : r.status = statusProcessed) (after : Run (Slave.Turn o) t' es' s)
      (phase : ∀ e ∈ es', ∀ g, e.request = some g → g.frameType ≠ frameTypeSend)
      (type : f.frameType = frameTypeRecv)

/-- A SEND request is about one of the eight files; for a RECV request there is
memory, and its result has as many frames as 16 bits count. -/
def Slave.Admits (s : Slave) (f : Frame) (line : Line) : Prop :=
  (f.frameType = frameTypeSend → f.nFile.toNat < picturesNumberMax) ∧
    (f.frameType = frameTypeRecv → line.heap.isSome ∧ ∀ k, fileIndex f.nFile = some k →
      (s.pictures k).bitStream.len ≤ 65535 * 512)

/-! The reply of a turn. -/

theorem Slave.handle_answer {o : Options} {s s' : Slave} {f : Frame} {line : Line} {out : Output}
    (h : s.handle o f line = .ok (s', out)) : s.answer f line = .ok out.reply := by
  unfold answer
  cases handle_outcome h with
  | ignored quiet =>
      obtain ⟨hquery, hsend, hrecv⟩ := quiet
      rw [if_neg hquery]
      by_cases type : f.frameType = frameTypeSend
      · simp only [if_pos type, hsend type]
      · rw [if_neg type]
        by_cases type' : f.frameType = frameTypeRecv
        · rw [if_pos type']
          cases hk : fileIndex f.nFile with
          | none => rfl
          | some k => simp only [if_pos (hrecv type' k hk)]
        · rw [if_neg type']
  | queried type => rw [if_pos type]
  | unsent type file failed =>
      simp only [if_neg (Frame.send_not_query type), if_pos type, file, failed]
      rfl
  | received type file ready =>
      simp only [if_neg (Frame.send_not_query type), if_pos type, file, ready]
      rfl
  | exhausted type file encoded heap =>
      simp only [if_neg (Frame.recv_not_query type), if_neg (Frame.recv_not_send type), if_pos type,
        file, if_neg (Nat.ne_of_gt encoded), heap]
      rfl
  | answered type file encoded framing =>
      simp only [if_neg (Frame.recv_not_query type), if_neg (Frame.recv_not_send type), if_pos type,
        file, if_neg (Nat.ne_of_gt encoded), framing, ok_bind]

theorem Slave.turn_replied {o : Options} {s s' : Slave} {e : Event} {out : Output}
    (h : s.turn o e = .ok (s', out)) : s.replied e = out.reply := by
  unfold replied
  cases hrequest : e.request with
  | none =>
      obtain ⟨-, rfl⟩ := turn_no_request hrequest h
      rfl
  | some f =>
      rw [turn_of_request o s hrequest] at h
      simp only [handle_answer h]
      rfl

/-! A request the master can issue. -/

/-- What the slave's state has to do with a request it is asked. -/
structure Slave.Ready (s : Slave) (f : Frame) : Prop where
  own : s.Own
  type : f.frameType = frameTypeQuery ∨ f.frameType = frameTypeSend ∨ f.frameType = frameTypeRecv
  encoded : f.frameType = frameTypeRecv →
    ∃ k, fileIndex f.nFile = some k ∧ 0 < (s.pictures k).bitStream.len

theorem Slave.run_own {o : Options} {s : Slave} {es : List Event}
    (h : Run (Slave.Turn o) Slave.init es s) : s.Own :=
  h.invariant (P := Slave.Own) (fun _ _ _ => turn_own) init_own

theorem Slave.run_pictures {o : Options} {s s' : Slave} {es : List Event}
    (h : Run (Slave.Turn o) s es s')
    (phase : ∀ e ∈ es, ∀ g, e.request = some g → g.frameType ≠ frameTypeSend) :
    s'.pictures = s.pictures := by
  induction h with
  | nil => rfl
  | @cons s s₁ s₂ e es head _ ih =>
      rw [ih fun x hx => phase x (List.mem_cons_of_mem e hx)]
      cases hacc : e.accepted with
      | none => exact turn_unaccepted head hacc
      | some a =>
          obtain ⟨g, hrequest, hsend, -⟩ := Event.accepted_request hacc
          exact absurd hsend (phase e List.mem_cons_self g hrequest)

theorem Slave.Asked.ready {o : Options} {s : Slave} {f : Frame} (h : s.Asked o f) : s.Ready f := by
  cases h with
  | query run type =>
      exact ⟨run_own run, .inl type, fun hrecv => absurd type (Frame.recv_not_query hrecv)⟩
  | send run type =>
      exact ⟨run_own run, .inr (.inl type), fun hrecv => absurd type (Frame.recv_not_send hrecv)⟩
  | @recv es es' t t' e q r out before request queried file turn reply reported after phase type =>
      refine ⟨?_, .inr (.inr type), ?_⟩
      · have hown : t'.Own := turn_own (run_own before) ⟨out, turn⟩
        exact after.invariant (P := Slave.Own) (fun _ _ _ => turn_own) hown
      · intro _
        rw [turn_of_request o t request, handle_query o t e.line queried] at turn
        obtain ⟨rfl, rfl⟩ := Prod.mk.inj (Except.ok.inj turn)
        obtain ⟨-, rfl⟩ := replyIf_some.mp reply
        have hstatus : t.getStatus f.nFile = statusProcessed := file ▸ reported
        rw [run_pictures after phase]
        unfold getStatus at hstatus
        cases hk : fileIndex f.nFile with
        | none =>
            rw [hk] at hstatus
            have hnot : statusUnreceived ≠ statusProcessed := by decide
            exact absurd hstatus hnot
        | some k =>
            rw [hk] at hstatus
            exact ⟨k, rfl, Picture.status_processed.mp hstatus⟩

/-- An admitted request is answered, with a frame that is expected. -/
theorem Slave.answer_admitted {s : Slave} {f : Frame} {line : Line} (h : s.Ready f)
    (hready : line.replyReady = true) (hadmits : s.Admits f line) :
    ∃ r : Frame, s.answer f line = .ok (some r) ∧ r.address = addressSlave ∧
      r.frameType = f.frameType ∧ r.nFile = f.nFile := by
  obtain ⟨⟨haddress, -⟩, htype, hencoded⟩ := h
  unfold answer
  rw [hready]
  rcases htype with type | type | type
  · exact ⟨_, if_pos type, haddress, rfl, rfl⟩
  · have hk : fileIndex f.nFile = some ⟨f.nFile.toNat, hadmits.1 type⟩ := fileIndex_some.mpr rfl
    simp only [if_neg (Frame.send_not_query type), if_pos type, hk]
    exact ⟨_, rfl, haddress, rfl, rfl⟩
  · obtain ⟨k, hk, lo⟩ := hencoded type
    obtain ⟨hheap, hlong⟩ := hadmits.2 type
    obtain ⟨heap, hheap⟩ := Option.isSome_iff_exists.mp hheap
    obtain ⟨frames, hframes, -⟩ := s.framed_some f heap lo (hlong k hk)
    simp only [if_neg (Frame.recv_not_query type), if_neg (Frame.recv_not_send type), if_pos type,
      hk, if_neg (Nat.ne_of_gt lo), hheap, hframes, ok_bind]
    exact ⟨_, rfl, haddress, rfl, rfl⟩

theorem Slave.replied_admitted {s : Slave} {f : Frame} {line : Line} (h : s.Ready f)
    (haddress : f.address = addressMaster) (hready : line.replyReady = true)
    (hadmits : s.Admits f line) :
    ∃ r : Frame, s.replied (.ofFrame f line) = some r ∧ r.address = addressSlave ∧
      r.frameType = f.frameType ∧ r.nFile = f.nFile := by
  have hsigned : s.Ready f.signed := ⟨h.own, h.type, h.encoded⟩
  obtain ⟨r, hanswer, hfields⟩ := answer_admitted hsigned hready hadmits
  refine ⟨r, ?_, hfields⟩
  have hline : (Event.ofFrame f line).line = line := rfl
  simp only [replied, Event.ofFrame_request haddress, hline, hanswer]
  rfl

/-- A request that is not admitted is not answered. It changes no table, or ends
the slave, and then no line would have admitted it. -/
theorem Slave.refused {o : Options} {s : Slave} {f : Frame} {line : Line} (h : s.Ready f)
    (haddress : f.address = addressMaster) (hrefused : ¬ s.Admits f line) :
    s.replied (.ofFrame f line) = none ∧
      ((∃ s', s.next o (.ofFrame f line) = some s' ∧ s'.pictures = s.pictures ∧ s'.Ready f) ∨
        s.next o (.ofFrame f line) = none ∧ ∀ line', ¬ s.Admits f line') := by
  have hrequest := Event.ofFrame_request haddress line
  have hline : (Event.ofFrame f line).line = line := rfl
  obtain ⟨hown, htype, hencoded⟩ := h
  rcases htype with type | type | type
  · exact absurd ⟨fun hsend => absurd type (Frame.send_not_query hsend),
      fun hrecv => absurd type (Frame.recv_not_query hrecv)⟩ hrefused
  · have hk : fileIndex f.nFile = none := by
      cases hk : fileIndex f.nFile with
      | none => rfl
      | some k =>
          refine absurd ⟨fun _ => ?_, fun hrecv => absurd type (Frame.recv_not_send hrecv)⟩ hrefused
          rw [fileIndex_some.mp hk]
          exact k.isLt
    have hturn : s.turn o (.ofFrame f line) = .ok (s, {}) := by
      rw [turn_send o s haddress type line, send, hk]
    refine ⟨turn_replied hturn, .inl ⟨s, turn_iff_next.mp ⟨{}, hturn⟩, rfl, hown, .inr (.inl type),
      hencoded⟩⟩
  · obtain ⟨k, hk, lo⟩ := hencoded type
    have hhandle : s.turn o (.ofFrame f line) = s.recv f.signed line :=
      (turn_of_request o s hrequest).trans (handle_recv o s line type)
    have hfile : fileIndex f.signed.nFile = some k := hk
    cases hheap : line.heap with
    | none =>
        have hturn : s.turn o (.ofFrame f line) =
            .ok ({ s with outputFrame := s.recvReply f.signed (s.pictures k).bitStream }, {}) := by
          rw [hhandle]
          simp only [recv, hfile, if_neg (Nat.ne_of_gt lo), hheap]
          rfl
        refine ⟨turn_replied hturn, .inl ⟨_, turn_iff_next.mp ⟨{}, hturn⟩, rfl, hown,
          .inr (.inr type), hencoded⟩⟩
    | some heap =>
        have hlong : 65535 * 512 < (s.pictures k).bitStream.len := by
          by_contra hle
          refine hrefused ⟨fun hsend => absurd hsend (Frame.recv_not_send type), fun _ => ⟨?_, ?_⟩⟩
          · rw [hheap]
            rfl
          · intro j hj
            obtain rfl := Option.some.inj (hk.symm.trans hj)
            exact Nat.not_lt.mp hle
        have hframed := s.framed_long f.signed heap hlong
        rw [← hheap] at hframed
        have hturn : s.turn o (.ofFrame f line) = .error .outOfBounds := by
          rw [hhandle, recv_eq hfile lo, hframed, error_bind]
        have hanswer : s.answer f.signed line = .error .outOfBounds := by
          unfold answer
          simp only [if_neg (Frame.recv_not_query (f := f.signed) type),
            if_neg (Frame.recv_not_send (f := f.signed) type), if_pos (show f.signed.frameType = _
              from type), hfile, if_neg (Nat.ne_of_gt lo), hframed, error_bind]
        refine ⟨?_, .inr ⟨?_, ?_⟩⟩
        · simp only [replied, hrequest, hline, hanswer]
          rfl
        · rw [next, hturn]
        · intro line' hadmits
          exact absurd ((hadmits.2 type).2 k hk) (Nat.not_le.mpr hlong)

theorem Slave.admits_congr {s s' : Slave} (h : s'.pictures = s.pictures) (f : Frame)
    (line : Line) : s'.Admits f line ↔ s.Admits f line := by
  rw [Admits, Admits, h]

/-! The loop of the master. -/

theorem delivered_none : delivered none = .ok (-1, {}) := rfl

theorem delivered_some (r : Frame) : delivered (some r) = .ok (frameSize, r.signed) :=
  receiveFrame_writeFrame r {}

theorem Frame.expects_signed {f r : Frame} : f.expects frameSize r.signed = true ↔
    r.address = addressSlave ∧ r.frameType = f.frameType ∧ r.nFile = f.nFile := by
  simp [expects, signed]

theorem sendAndReceiveFrame_dead (o : Options) (f : Frame) (lines : List Line) :
    sendAndReceiveFrame o f none lines = none := by
  induction lines with
  | nil => rfl
  | cons line lines ih =>
      have hnot : f.expects (-1) {} = false := rfl
      simp only [sendAndReceiveFrame, Option.bind_none, delivered_none, hnot, Bool.false_eq_true,
        if_false, ih]

/-- The loop ends with the first line that admits its request. -/
theorem sendAndReceiveFrame_iff (o : Options) {s : Slave} {f : Frame} (h : s.Ready f)
    (haddress : f.address = addressMaster) {lines : List Line}
    (hready : ∀ line ∈ lines, line.replyReady = true) :
    (sendAndReceiveFrame o f (some s) lines).isSome ↔ ∃ line ∈ lines, s.Admits f line := by
  induction lines generalizing s with
  | nil => simp [sendAndReceiveFrame]
  | cons line lines ih =>
      have hrest := fun l hl => hready l (List.mem_cons_of_mem line hl)
      simp only [sendAndReceiveFrame, Option.bind_some, List.mem_cons, exists_eq_or_imp]
      by_cases hadmits : s.Admits f line
      · obtain ⟨r, hreplied, hexpected⟩ :=
          Slave.replied_admitted h haddress (hready line List.mem_cons_self) hadmits
        rw [hreplied, delivered_some]
        simp only [Frame.expects_signed.mpr hexpected, if_true, Option.isSome_some, hadmits,
          true_or]
      · obtain ⟨hnone, hnext⟩ := Slave.refused (o := o) h haddress hadmits
        have hnot : f.expects (-1) {} = false := rfl
        rw [hnone, delivered_none]
        simp only [hnot, Bool.false_eq_true, if_false, hadmits, false_or]
        rcases hnext with ⟨s', hs', hpictures, hs'ready⟩ | ⟨hdead, hnever⟩
        · simp only [hs', ih hs'ready hrest, Slave.admits_congr hpictures]
        · rw [hdead, sendAndReceiveFrame_dead]
          simp [hnever]

/-- A request the master can issue gets its one reply exactly when it is admitted,
and `send_and_receive_frame` returns exactly when one of its attempts is. -/
theorem requests_answered_iff {o : Options} {s : Slave} {f : Frame} (h : s.Asked o f)
    (haddress : f.address = addressMaster) :
    (∀ line : Line, line.replyReady = true →
      ((∃ r, s.replied (.ofFrame f line) = some r ∧
          (∀ s' out, s.turn o (.ofFrame f line) = .ok (s', out) → out.reply = some r) ∧
          r.address = addressSlave ∧ r.frameType = f.frameType ∧ r.nFile = f.nFile) ↔
        s.Admits f line)) ∧
    ∀ lines : List Line, (∀ line ∈ lines, line.replyReady = true) →
      ((sendAndReceiveFrame o f (some s) lines).isSome ↔ ∃ line ∈ lines, s.Admits f line) := by
  refine ⟨?_, fun lines hready => sendAndReceiveFrame_iff o h.ready haddress hready⟩
  intro line hready
  constructor
  · rintro ⟨r, hreplied, -⟩
    by_contra hrefused
    rw [(Slave.refused (o := o) h.ready haddress hrefused).1] at hreplied
    contradiction
  · intro hadmits
    obtain ⟨r, hreplied, hfields⟩ := Slave.replied_admitted h.ready haddress hready hadmits
    refine ⟨r, hreplied, ?_, hfields⟩
    intro s' out hturn
    rw [← Slave.turn_replied hturn, hreplied]

/-- The result of a file that was reported processed. -/
theorem requests_answered_result : ∃ s, Slave.Asked dryRun s (recvRequest 0) ∧
    (sendAndReceiveFrame dryRun (recvRequest 0) (some s) [{}]).isSome := by
  obtain ⟨s, hrun, hlen⟩ := oneLine_reached
  have hrequest := Event.ofFrame_request (f := queryRequest 0) rfl {}
  have hpos : 0 < (s.pictures 0).bitStream.len := by
    rw [hlen]
    decide
  have hstatus : s.getStatus 0 = statusProcessed := Picture.status_processed.mpr hpos
  have hturn := (Slave.turn_of_request dryRun s hrequest).trans
    (Slave.handle_query dryRun s {} rfl)
  have hasked : Slave.Asked dryRun (s.query (queryRequest 0).signed {}).1 (recvRequest 0) :=
    .recv hrun hrequest rfl rfl hturn rfl hstatus (.nil _) (fun _ he => absurd he List.not_mem_nil)
      rfl
  refine ⟨_, hasked, ((requests_answered_iff hasked rfl).2 [{}] ?_).mpr ⟨{}, by simp, ?_⟩⟩
  · intro line hline
    rw [List.mem_singleton.mp hline]
  · refine ⟨fun hsend => absurd hsend (by decide), fun _ => ⟨rfl, ?_⟩⟩
    intro k hk
    obtain rfl : (0 : Fin picturesNumberMax) = k := Option.some.inj hk
    rw [Slave.query_pictures, hlen]
    decide

/-- The ninth file of a command line is asked for without end. -/
theorem send_never_answered : Slave.Asked dryRun Slave.init (sendRequest 8 1) ∧
    ∀ lines : List Line, (∀ line ∈ lines, line.replyReady = true) →
      sendAndReceiveFrame dryRun (sendRequest 8 1) (some Slave.init) lines = none := by
  have hasked : Slave.Asked dryRun Slave.init (sendRequest 8 1) := .send (.nil _) rfl
  refine ⟨hasked, ?_⟩
  intro lines hready
  rw [← Option.not_isSome_iff_eq_none, sendAndReceiveFrame_iff dryRun hasked.ready rfl hready]
  rintro ⟨line, -, hadmits⟩
  exact absurd (hadmits.1 rfl) (by decide)

end Soc
