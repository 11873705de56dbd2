import Soc.Protocol.Outcome

/-!
Replies that cannot be written.

`send_frame` returns -1 when the line is not ready in time. The QUERY and SEND
branches test its result for being positive, the RECV branch for being nonzero,
so there the data frames are still sent, each with a wait of its own.
-/
namespace Soc
open Runs

/-- A failed reply ends the request, and leaves no trace of it. -/
def Slave.Aborts (o : Options) (s : Slave) (e : Event) : Prop :=
  e.line.replyReady = false → ∀ s' out, s.turn o e = .ok (s', out) →
    out.reply = none ∧ out.data = [] ∧ s'.pictures = s.pictures ∧ s'.nTotalFrame = s.nTotalFrame

/-- The request is a RECV request for a file with a bit stream that can be
framed, the reply fails, and the line is ready again for a data frame. -/
def Slave.Proceeds (s : Slave) (e : Event) : Prop :=
  e.line.replyReady = false ∧ ∃ f k, e.request = some f ∧ f.frameType = frameTypeRecv ∧
    fileIndex f.nFile = some k ∧ 0 < (s.pictures k).bitStream.len ∧
    (s.pictures k).bitStream.len ≤ 65535 * 512 ∧ e.line.heap.isSome ∧
    ∃ i, i < countFrames (s.pictures k).bitStream.len ∧ e.line.sendReady i = true

theorem Slave.proceeds_data {o : Options} {s : Slave} {e : Event} (h : s.Proceeds e) :
    ∃ s' out, s.turn o e = .ok (s', out) ∧ out.data ≠ [] := by
  obtain ⟨-, f, k, hrequest, htype, hk, lo, hi, hheap, i, hi', hready⟩ := h
  obtain ⟨heap, hheap⟩ := Option.isSome_iff_exists.mp hheap
  obtain ⟨frames, hframes, hcount⟩ := s.framed_some f heap lo hi
  rw [← hheap] at hframes
  rw [← hcount] at hi'
  have hhandle := (handle_recv o s e.line htype).trans (recv_framed hk lo hframes)
  refine ⟨_, _, (turn_of_request o s hrequest).trans hhandle, ?_⟩
  exact sendDataFrames_some s.nTotalFrame hi' (by rwa [Nat.zero_add])

theorem Slave.aborts_of_not_proceeds {o : Options} {s : Slave} {e : Event}
    (h : ¬ s.Proceeds e) : s.Aborts o e := by
  intro hfailed s' out hturn
  cases hrequest : e.request with
  | none =>
      obtain ⟨rfl, rfl⟩ := turn_no_request hrequest hturn
      exact ⟨rfl, rfl, rfl, rfl⟩
  | some f =>
      cases turn_outcome hrequest hturn with
      | ignored quiet => exact ⟨rfl, rfl, rfl, rfl⟩
      | queried type =>
          rw [hfailed]
          exact ⟨rfl, rfl, rfl, rfl⟩
      | unsent type file failed => exact ⟨rfl, rfl, rfl, rfl⟩
      | received type file ready reception =>
          rw [hfailed] at ready
          contradiction
      | exhausted type file encoded heap => exact ⟨rfl, rfl, rfl, rfl⟩
      | @answered k frames type file encoded framing =>
          cases hheap : e.line.heap with
          | none =>
              rw [hheap] at framing
              exact absurd (Except.ok.inj framing) (by simp)
          | some heap =>
              rw [hheap] at framing
              have hi : (s.pictures k).bitStream.len ≤ 65535 * 512 := by
                by_contra hlong
                rw [s.framed_long f heap (Nat.lt_of_not_le hlong)] at framing
                contradiction
              obtain ⟨frames', hframes, hcount⟩ := s.framed_some f heap encoded hi
              obtain rfl := Option.some.inj (Except.ok.inj (framing.symm.trans hframes))
              have hnone : ∀ i, i < frames.length → e.line.sendReady (0 + i) = false := by
                intro i hlt
                rw [Nat.zero_add, ← Bool.not_eq_true]
                intro hready
                exact h ⟨hfailed, f, k, hrequest, type, file, encoded, hi, by rw [hheap]; rfl, i,
                  by rwa [← hcount], hready⟩
              rw [sendDataFrames_none s.nTotalFrame hnone, hfailed]
              exact ⟨rfl, rfl, rfl, rfl⟩

/-- In every state, a failed reply ends a request exactly when the request does not
proceed to its data frames. -/
theorem failed_replies_abort_iff (o : Options) (s : Slave) (e : Event) :
    s.Aborts o e ↔ ¬ s.Proceeds e := by
  constructor
  · intro habort hproceeds
    obtain ⟨s', out, hturn, hdata⟩ := Slave.proceeds_data (o := o) hproceeds
    exact hdata (habort hproceeds.1 s' out hturn).2.1
  · exact Slave.aborts_of_not_proceeds

def recvRequest (nFile : UInt32) : Frame :=
  { address := addressMaster, frameType := frameTypeRecv, nFile }

theorem oneLine_reached : ∃ s, Run (Slave.Turn dryRun) Slave.init
    [.ofFrame (sendRequest 0 1) (oneLine 7)] s ∧ (s.pictures 0).bitStream.len = 512 := by
  obtain ⟨s, hturn, hpictures⟩ :=
    Slave.turn_oneLine (o := dryRun) (s := Slave.init) (k := 0) 7 rfl (.inl rfl)
  refine ⟨s, .cons hturn (.nil s), ?_⟩
  rw [hpictures, Function.update_self]
  exact List.length_replicate

/-- The line stays blocked. -/
theorem failed_replies_abort_blocked : ∃ s, Run (Slave.Turn dryRun) Slave.init
    [.ofFrame (sendRequest 0 1) (oneLine 7)] s ∧ s.Aborts dryRun
      (.ofFrame (recvRequest 0) { replyReady := false, sendReady := fun _ => false }) := by
  obtain ⟨s, hrun, -⟩ := oneLine_reached
  refine ⟨s, hrun, (failed_replies_abort_iff dryRun s _).mpr ?_⟩
  rintro ⟨-, _, _, _, _, _, _, _, _, _, _, hready⟩
  exact Bool.false_ne_true hready

/-- The line is ready again for the data frame: it is sent, and counted. -/
theorem failed_reply_sends_data : ∃ s, Run (Slave.Turn dryRun) Slave.init
    [.ofFrame (sendRequest 0 1) (oneLine 7)] s ∧
      ¬ s.Aborts dryRun (.ofFrame (recvRequest 0) { replyReady := false }) := by
  obtain ⟨s, hrun, hlen⟩ := oneLine_reached
  refine ⟨s, hrun, ?_⟩
  intro habort
  have hrequest := Event.ofFrame_request (f := recvRequest 0) rfl { replyReady := false }
  have hproceeds : s.Proceeds (.ofFrame (recvRequest 0) { replyReady := false }) := by
    refine ⟨rfl, _, 0, hrequest, rfl, rfl, ?_, ?_, rfl, 0, ?_, rfl⟩
    · rw [hlen]
      decide
    · rw [hlen]
      decide
    · rw [hlen]
      decide
  obtain ⟨s', out, hturn, hdata⟩ := Slave.proceeds_data (o := dryRun) hproceeds
  exact hdata (habort rfl s' out hturn).2.1

end Soc
