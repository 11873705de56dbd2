import Soc.Foundation.Unwinding
import Soc.Protocol.Freshness

/-!
What a request to the slave comes to, case by case.

A turn that returns has one of six outcomes. The results about replies are case
analyses over these six.
-/
namespace Soc
open Windows Runs

/-- No branch takes the request: its type is unknown, there is no such file, or
the file has no bit stream to send. -/
def Slave.Ignores (s : Slave) (f : Frame) : Prop :=
  f.frameType ≠ frameTypeQuery ∧ (f.frameType = frameTypeSend → fileIndex f.nFile = none) ∧
    (f.frameType = frameTypeRecv → ∀ k, fileIndex f.nFile = some k →
      (s.pictures k).bitStream.len = 0)

/-- The frames a RECV request allocates, framed. -/
def Slave.framed (s : Slave) (f : Frame) (heap : Option (Nat → DataFrame)) (bitStream : Data8) :
    Except Fault (Option (List DataFrame)) :=
  let n := (s.recvReply f bitStream).nFrame
  allocDataFrames (heap.map fun h => (List.range n.toNat).map h) n f.nFile
    (.memory (bitStream.addr.getD []) bitStream.len) flagData (UInt32.ofNat bitStream.len)

inductive Slave.Outcome (o : Options) (s : Slave) (f : Frame) (line : Line) :
    Slave → Output → Prop where
  | ignored (quiet : s.Ignores f) : Outcome o s f line s {}
  | queried (type : f.frameType = frameTypeQuery) :
      Outcome o s f line { s with outputFrame := s.queryReply f }
        { reply := replyIf line.replyReady (s.queryReply f) }
  | unsent {k : Fin picturesNumberMax} (type : f.frameType = frameTypeSend)
      (file : fileIndex f.nFile = some k) (failed : line.replyReady = false) :
      Outcome o s f line { s with outputFrame := s.sendReply f } {}
  | received {k : Fin picturesNumberMax} {p : Picture} (type : f.frameType = frameTypeSend)
      (file : fileIndex f.nFile = some k) (ready : line.replyReady = true)
      (reception : (s.pictures k).receive o line f.nFrame = .ok p) :
      Outcome o s f line
        { s with pictures := Function.update s.pictures k p, outputFrame := s.sendReply f }
        { reply := some (s.sendReply f) }
  | exhausted {k : Fin picturesNumberMax} (type : f.frameType = frameTypeRecv)
      (file : fileIndex f.nFile = some k) (encoded : 0 < (s.pictures k).bitStream.len)
      (heap : line.heap = none) :
      Outcome o s f line { s with outputFrame := s.recvReply f (s.pictures k).bitStream } {}
  | answered {k : Fin picturesNumberMax} {frames : List DataFrame}
      (type : f.frameType = frameTypeRecv) (file : fileIndex f.nFile = some k)
      (encoded : 0 < (s.pictures k).bitStream.len)
      (framing : s.framed f line.heap (s.pictures k).bitStream = .ok (some frames)) :
      Outcome o s f line
        { s with
          outputFrame := s.recvReply f (s.pictures k).bitStream
          nTotalFrame := (sendDataFrames line.sendReady 0 s.nTotalFrame frames).1 }
        { reply := replyIf line.replyReady (s.recvReply f (s.pictures k).bitStream)
          data := (sendDataFrames line.sendReady 0 s.nTotalFrame frames).2.2 }

theorem Slave.send_outcome {o : Options} {s s' : Slave} {f : Frame} {line : Line} {out : Output}
    (type : f.frameType = frameTypeSend) (h : s.send o f line = .ok (s', out)) :
    s.Outcome o f line s' out := by
  have hrecv : f.frameType ≠ frameTypeRecv := fun hother => Frame.recv_not_send hother type
  unfold send at h
  cases hk : fileIndex f.nFile with
  | none =>
      simp only [hk] at h
      obtain ⟨rfl, rfl⟩ := Prod.mk.inj (Except.ok.inj h)
      exact .ignored ⟨Frame.send_not_query type, fun _ => hk, fun hother => absurd hother hrecv⟩
  | some k =>
      simp only [hk] at h
      cases hready : line.replyReady with
      | false =>
          simp only [hready, Bool.false_eq_true, if_false] at h
          obtain ⟨rfl, rfl⟩ := Prod.mk.inj (Except.ok.inj h)
          exact .unsent type hk hready
      | true =>
          simp only [hready, if_true] at h
          obtain ⟨p, hp, h⟩ := bind_ok h
          obtain ⟨rfl, rfl⟩ := Prod.mk.inj (Except.ok.inj h)
          exact .received type hk hready hp

theorem Slave.recv_outcome {o : Options} {s s' : Slave} {f : Frame} {line : Line} {out : Output}
    (type : f.frameType = frameTypeRecv) (h : s.recv f line = .ok (s', out)) :
    s.Outcome o f line s' out := by
  have hquery := Frame.recv_not_query type
  have hsend := Frame.recv_not_send type
  unfold recv at h
  cases hk : fileIndex f.nFile with
  | none =>
      simp only [hk] at h
      obtain ⟨rfl, rfl⟩ := Prod.mk.inj (Except.ok.inj h)
      refine .ignored ⟨hquery, fun hother => absurd hother hsend, ?_⟩
      intro _ k hsome
      rw [hk] at hsome
      contradiction
  | some k =>
      simp only [hk] at h
      by_cases hlen : (s.pictures k).bitStream.len = 0
      · rw [if_pos hlen] at h
        obtain ⟨rfl, rfl⟩ := Prod.mk.inj (Except.ok.inj h)
        refine .ignored ⟨hquery, fun hother => absurd hother hsend, ?_⟩
        intro _ j hsome
        rw [hk] at hsome
        obtain rfl := Option.some.inj hsome
        exact hlen
      · have hpos := Nat.pos_of_ne_zero hlen
        rw [if_neg hlen] at h
        obtain ⟨frames, hframes, h⟩ := bind_ok h
        cases frames with
        | none =>
            obtain ⟨rfl, rfl⟩ := Prod.mk.inj (Except.ok.inj h)
            exact .exhausted type hk hpos (Option.map_eq_none_iff.mp (allocDataFrames_none hframes))
        | some frames =>
            obtain ⟨rfl, rfl⟩ := Prod.mk.inj (Except.ok.inj h)
            exact .answered type hk hpos hframes

theorem Slave.handle_outcome {o : Options} {s s' : Slave} {f : Frame} {line : Line} {out : Output}
    (h : s.handle o f line = .ok (s', out)) : s.Outcome o f line s' out := by
  by_cases hquery : f.frameType = frameTypeQuery
  · rw [handle_query o s line hquery] at h
    obtain ⟨rfl, rfl⟩ := Prod.mk.inj (Except.ok.inj h)
    exact .queried hquery
  · by_cases hsend : f.frameType = frameTypeSend
    · rw [handle_send o s line hsend] at h
      exact send_outcome hsend h
    · by_cases hrecv : f.frameType = frameTypeRecv
      · rw [handle_recv o s line hrecv] at h
        exact recv_outcome hrecv h
      · rw [handle, if_neg hquery, if_neg hsend, if_neg hrecv] at h
        obtain ⟨rfl, rfl⟩ := Prod.mk.inj (Except.ok.inj h)
        exact .ignored ⟨hquery, fun type => absurd type hsend, fun type => absurd type hrecv⟩

/-- The state a turn leaves, if it returns. -/
def Slave.next (o : Options) (s : Slave) (e : Event) : Option Slave :=
  match s.turn o e with
  | .ok (s', _) => some s'
  | .error _ => none

theorem Slave.turn_iff_next {o : Options} {s s' : Slave} {e : Event} :
    s.Turn o e s' ↔ s.next o e = some s' := by
  unfold Turn next
  split
  case h_1 t out h =>
      rw [h]
      constructor
      · rintro ⟨_, heq⟩
        exact congrArg some (Prod.mk.inj (Except.ok.inj heq)).1
      · intro heq
        exact ⟨out, by rw [Option.some.inj heq]⟩
  case h_2 fault h =>
      rw [h]
      constructor
      · rintro ⟨_, heq⟩
        contradiction
      · intro heq
        contradiction

theorem Slave.turn_follows (o : Options) : Follows (Slave.Turn o) (Slave.next o) :=
  fun _ _ _ => turn_iff_next.mp

theorem Slave.turn_outcome {o : Options} {s s' : Slave} {e : Event} {f : Frame} {out : Output}
    (hrequest : e.request = some f) (h : s.turn o e = .ok (s', out)) :
    s.Outcome o f e.line s' out := by
  rw [turn_of_request o s hrequest] at h
  exact handle_outcome h

/-! Framing an answer. -/

theorem Slave.framed_count (s : Slave) (f : Frame) {bitStream : Data8}
    (hi : bitStream.len ≤ 65535 * 512) :
    (s.recvReply f bitStream).nFrame.toNat = countFrames bitStream.len := by
  have hcount := countFrames_eq bitStream.len
  rw [recvReply, UInt16.toNat_ofNat', Nat.mod_eq_of_lt (by omega)]

/-- The frames of an answer before their data is copied. -/
def Slave.blankFrames (s : Slave) (f : Frame) (h : Nat → DataFrame) (bitStream : Data8) :
    List DataFrame :=
  let n := (s.recvReply f bitStream).nFrame
  initDataFrames (((List.range n.toNat).map h).take n.toNat) n f.nFile flagData
    (UInt32.ofNat bitStream.len)

theorem Slave.blankFrames_length (s : Slave) (f : Frame) (h : Nat → DataFrame)
    (bitStream : Data8) :
    (s.blankFrames f h bitStream).length = (s.recvReply f bitStream).nFrame.toNat := by
  rw [blankFrames, initDataFrames, List.length_mapIdx, List.length_take, List.length_map,
    List.length_range, Nat.min_self]

theorem Slave.framed_eq (s : Slave) (f : Frame) (h : Nat → DataFrame) (bitStream : Data8) :
    s.framed f (some h) bitStream =
      dataToDataFrames (bitStream.addr.getD []) bitStream.len (s.blankFrames f h bitStream) >>=
        fun frames => .ok (some frames) := rfl

theorem Slave.framed_some (s : Slave) (f : Frame) (h : Nat → DataFrame) {bitStream : Data8}
    (lo : 0 < bitStream.len) (hi : bitStream.len ≤ 65535 * 512) :
    ∃ frames, s.framed f (some h) bitStream = .ok (some frames) ∧
      frames.length = countFrames bitStream.len := by
  have hlen : (s.blankFrames f h bitStream).length = countFrames bitStream.len := by
    rw [blankFrames_length, framed_count s f hi]
  have hdata := dataToDataFrames_ok (bitStream.addr.getD []) _ lo bitStream.fits
    (hi.trans (Nat.mul_le_mul_right _ (Nat.le_succ 65535))) hlen
  refine ⟨_, (framed_eq s f h bitStream).trans (by rw [hdata, ok_bind]), ?_⟩
  rw [List.length_zipWith, hlen, windows_length, Nat.min_self]

theorem Slave.framed_long (s : Slave) (f : Frame) (h : Nat → DataFrame) {bitStream : Data8}
    (hlen : 65535 * 512 < bitStream.len) :
    s.framed f (some h) bitStream = .error .outOfBounds := by
  have hframes : (s.blankFrames f h bitStream).length = countFrames bitStream.len % 65536 := by
    rw [blankFrames_length, recvReply, UInt16.toNat_ofNat']
  rw [framed_eq, dataToDataFrames_long _ hlen hframes, error_bind]

theorem Slave.recv_eq {s : Slave} {f : Frame} {line : Line} {k : Fin picturesNumberMax}
    (hk : fileIndex f.nFile = some k) (lo : 0 < (s.pictures k).bitStream.len) :
    s.recv f line = s.framed f line.heap (s.pictures k).bitStream >>= fun
      | none => .ok ({ s with outputFrame := s.recvReply f (s.pictures k).bitStream }, {})
      | some frames => .ok
        ({ s with
            outputFrame := s.recvReply f (s.pictures k).bitStream
            nTotalFrame := (sendDataFrames line.sendReady 0 s.nTotalFrame frames).1 },
          { reply := replyIf line.replyReady (s.recvReply f (s.pictures k).bitStream)
            data := (sendDataFrames line.sendReady 0 s.nTotalFrame frames).2.2 }) := by
  simp only [recv, hk, if_neg (Nat.ne_of_gt lo)]
  rfl

theorem Slave.recv_framed {s : Slave} {f : Frame} {line : Line} {k : Fin picturesNumberMax}
    {frames : List DataFrame} (hk : fileIndex f.nFile = some k)
    (lo : 0 < (s.pictures k).bitStream.len)
    (h : s.framed f line.heap (s.pictures k).bitStream = .ok (some frames)) :
    s.recv f line = .ok
      ({ s with
          outputFrame := s.recvReply f (s.pictures k).bitStream
          nTotalFrame := (sendDataFrames line.sendReady 0 s.nTotalFrame frames).1 },
        { reply := replyIf line.replyReady (s.recvReply f (s.pictures k).bitStream)
          data := (sendDataFrames line.sendReady 0 s.nTotalFrame frames).2.2 }) := by
  rw [recv_eq hk lo, h, ok_bind]

/-! A reception of one frame, which arrives. -/

/-- The line of a SEND request for one full frame that arrives. -/
def oneLine (byte : UInt8) : Line := { reads := [writeDataFrame (fullFrame 0 byte)] }

theorem oneLine_received (byte : UInt8) :
    receiveDataFrames true (oneLine byte).reads [zeroFrame] 1 =
      .ok (0, [(fullFrame 0 byte).signed]) := by
  have hsteady : Steady 0 (oneLine byte).reads := steady_single (writeDataFrame_length _)
  have hlen : [fullFrame 0 byte].length = UInt16.toNat 1 := rfl
  refine receive_written 1 hlen rfl ?_ ?_ hsteady rfl
  · intro s hs
    rw [List.mem_singleton.mp hs]
    rfl
  · intro f hf
    rw [List.mem_singleton.mp hf]
    rfl

theorem Picture.receive_oneLine (o : Options) {p : Picture} (byte : UInt8)
    (hslots : p.slots 1 = [zeroFrame]) :
    p.receive o (oneLine byte) 1 =
      processDataFrames o true [(fullFrame 0 byte).signed] 1 p.bitStream >>= fun bitStream =>
        .ok ⟨bitStream, ⟨some [(fullFrame 0 byte).signed], 1, 1⟩⟩ := by
  have hready : (oneLine byte).dataReady = true := rfl
  have hcalloc : (oneLine byte).calloc = true := rfl
  simp only [receive, prepare_calloc p hcalloc, hslots, ok_bind, hready, oneLine_received, if_true,
    UInt16.sub_zero]
  rfl

theorem dataFramesToData_full (byte : UInt8) :
    dataFramesToData [(fullFrame 0 byte).signed] 1 = .ok (List.replicate 512 byte) := by
  obtain ⟨payload, hpayload⟩ := dataFramesToData_ok [(fullFrame 0 byte).signed] (Nat.le_refl 1)
    (by
      intro f hf
      rw [List.mem_singleton.mp hf]
      exact Nat.le_refl 512)
  have hcarried := dataFramesToData_carried _ _ hpayload
  rw [hpayload, hcarried]
  exact congrArg Except.ok ((List.append_nil _).trans (fullFrame_carried 0 byte))

/-- The first frame of a file, or any in a dry run, gets a block of its own. -/
theorem Slave.turn_oneLine {o : Options} {s : Slave} {k : Fin picturesNumberMax} (byte : UInt8)
    (hslots : (s.pictures k).slots 1 = [zeroFrame])
    (hfree : o.dryRun = true ∨ (s.pictures k).bitStream.addr = none) :
    let enc := o.encoding (List.replicate 512 byte)
    ∃ s', s.Turn o (.ofFrame (sendRequest (UInt32.ofNat k) 1) (oneLine byte)) s' ∧
      s'.pictures = Function.update s.pictures k
        ⟨⟨some enc, enc.length, Nat.le_refl _⟩, ⟨some [(fullFrame 0 byte).signed], 1, 1⟩⟩ := by
  intro enc
  have haddr : (if o.dryRun then none else (s.pictures k).bitStream.addr) = none := by
    rcases hfree with hdry | hnone
    · rw [if_pos hdry]
    · rw [hnone, ite_self]
  have hprocess : processDataFrames o true [(fullFrame 0 byte).signed] 1
      (s.pictures k).bitStream = .ok ⟨some enc, enc.length, Nat.le_refl _⟩ := by
    have hdata : dataFramesToData [(fullFrame 0 byte).signed] (UInt16.toNat 1) =
        .ok (List.replicate 512 byte) := dataFramesToData_full byte
    simp only [processDataFrames, hdata, ok_bind, Options.store, haddr, Options.allocate, if_true]
    rfl
  have hrecv := Picture.receive_oneLine o byte hslots
  rw [hprocess, ok_bind] at hrecv
  exact turn_sendRequest (fileIndex_ofNat k) rfl hrecv

end Soc
