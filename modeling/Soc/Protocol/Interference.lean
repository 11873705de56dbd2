import Soc.Protocol.Outcome

/-!
What the slave tells about one file, and what the other files have to do with it.

A reply is made of the request and of the entry of its file, but for one field:
the replies to SEND and RECV requests carry the status that the last QUERY
request found, for whichever file that was. The replies about a file are the same
in two runs exactly when these statuses are.
-/
namespace Soc
open Runs

def Event.names (k : Fin picturesNumberMax) (e : Event) : Bool :=
  (e.request.bind fun f => fileIndex f.nFile) == some k

/-- The bytes of the reply to a request about file `k`. -/
def Slave.replyTo (o : Options) (k : Fin picturesNumberMax) (s : Slave) (e : Event) :
    List (List UInt8) :=
  match s.turn o e with
  | .ok (_, out) => if e.names k then (out.reply.map writeFrame).toList else []
  | .error _ => []

def Slave.replies (o : Options) (k : Fin picturesNumberMax) (s : Slave) (es : List Event) :
    List (List UInt8) := collect (Slave.next o) (Slave.replyTo o k) s es

/-- The reply has no status of its own. -/
def Picture.Keeps (p : Picture) (f : Frame) (line : Line) : Prop :=
  line.replyReady = true ∧ (f.frameType = frameTypeSend ∨
    f.frameType = frameTypeRecv ∧ 0 < p.bitStream.len ∧ line.heap.isSome)

instance (p : Picture) (f : Frame) (line : Line) : Decidable (p.Keeps f line) :=
  inferInstanceAs (Decidable (_ ∧ (_ ∨ _ ∧ _ ∧ _)))

def Slave.keeps (s : Slave) (k : Fin picturesNumberMax) (e : Event) : Bool :=
  match e.request with
  | none => false
  | some f => fileIndex f.nFile == some k && decide ((s.pictures k).Keeps f e.line)

/-- The status that the last QUERY request found, given the one before. -/
def Slave.found (s : Slave) (before : UInt16) (e : Event) : UInt16 :=
  match e.request with
  | none => before
  | some f => if f.frameType = frameTypeQuery then s.getStatus f.nFile else before

/-- The status the last QUERY request found, at each reply about file `k` that has
no status of its own. -/
def Slave.leftovers (o : Options) (k : Fin picturesNumberMax) :
    UInt16 → Slave → List Event → List UInt16
  | _, _, [] => []
  | before, s, e :: es =>
    (if s.keeps k e then [before] else []) ++
      (s.next o e).elim [] fun s' => leftovers o k (s.found before e) s' es

theorem Event.names_iff {k : Fin picturesNumberMax} {e : Event} :
    e.names k = true ↔ ∃ f, e.request = some f ∧ fileIndex f.nFile = some k := by
  rw [names, beq_iff_eq, Option.bind_eq_some_iff]

/-! The frame of all replies. -/

/-- The fields no branch sets. -/
def Slave.Own (s : Slave) : Prop :=
  s.outputFrame.address = addressSlave ∧ s.outputFrame.checkSum = 0

theorem Slave.init_own : init.Own := ⟨rfl, rfl⟩

theorem Slave.turn_own {o : Options} {s s' : Slave} {e : Event} (h : s.Own)
    (hturn : s.Turn o e s') : s'.Own := by
  obtain ⟨out, hturn⟩ := hturn
  cases hrequest : e.request with
  | none =>
      obtain ⟨rfl, -⟩ := turn_no_request hrequest hturn
      exact h
  | some f =>
      cases turn_outcome hrequest hturn with
      | ignored => exact h
      | queried => exact h
      | unsent => exact h
      | received => exact h
      | exhausted => exact h
      | answered => exact h

theorem Slave.turn_status {o : Options} {s s' : Slave} {e : Event} (hturn : s.Turn o e s') :
    s'.outputFrame.status = s.found s.outputFrame.status e := by
  obtain ⟨out, hturn⟩ := hturn
  unfold found
  cases hrequest : e.request with
  | none =>
      obtain ⟨rfl, -⟩ := turn_no_request hrequest hturn
      rfl
  | some f =>
      cases turn_outcome hrequest hturn with
      | ignored quiet => exact (if_neg quiet.1).symm
      | queried type => exact (if_pos type).symm
      | unsent type => exact (if_neg (Frame.send_not_query type)).symm
      | received type => exact (if_neg (Frame.send_not_query type)).symm
      | exhausted type => exact (if_neg (Frame.recv_not_query type)).symm
      | answered type => exact (if_neg (Frame.recv_not_query type)).symm

/-- What is replied about a file, from its entry and the status left over. -/
def Picture.reply (p : Picture) (status : UInt16) (f : Frame) (line : Line) : Option Frame :=
  if f.frameType = frameTypeQuery then
    replyIf line.replyReady
      ⟨addressSlave, f.frameType, f.nFile, p.info.len, p.status, 0⟩
  else if p.Keeps f line then
    some ⟨addressSlave, f.frameType, f.nFile, if f.frameType = frameTypeSend then f.nFrame
      else UInt16.ofNat (countFrames p.bitStream.len), status, 0⟩
  else none

theorem Slave.turn_reply {o : Options} {s s' : Slave} {e : Event} {f : Frame} {out : Output}
    {k : Fin picturesNumberMax} (h : s.Own) (hrequest : e.request = some f)
    (hk : fileIndex f.nFile = some k) (hturn : s.turn o e = .ok (s', out)) :
    out.reply = (s.pictures k).reply s.outputFrame.status f e.line := by
  obtain ⟨haddress, hsum⟩ := h
  unfold Picture.reply
  cases turn_outcome hrequest hturn with
  | ignored quiet =>
      obtain ⟨hquery, hsend, hrecv⟩ := quiet
      rw [if_neg hquery, if_neg]
      rintro ⟨-, type | ⟨type, hlen, -⟩⟩
      · rw [hsend type] at hk
        contradiction
      · exact absurd (hrecv type k hk) (Nat.ne_of_gt hlen)
  | queried type =>
      rw [if_pos type]
      simp only [queryReply, getStatus, hk, haddress, hsum]
  | unsent type file failed =>
      rw [if_neg (Frame.send_not_query type), if_neg]
      rintro ⟨ready, -⟩
      rw [failed] at ready
      contradiction
  | received type file ready =>
      rw [if_neg (Frame.send_not_query type), if_pos ⟨ready, .inl type⟩, if_pos type]
      simp only [sendReply, haddress, hsum]
  | exhausted type file encoded heap =>
      rw [if_neg (Frame.recv_not_query type), if_neg]
      rintro ⟨-, hother | ⟨-, -, hsome⟩⟩
      · exact Frame.recv_not_send type hother
      · rw [heap] at hsome
        contradiction
  | @answered j frames type file encoded framing =>
      obtain rfl := Option.some.inj (hk.symm.trans file)
      have hheap : e.line.heap.isSome := by
        cases hheap : e.line.heap with
        | none =>
            rw [hheap] at framing
            exact absurd (Except.ok.inj framing) (by simp)
        | some heap => rfl
      have hsend := Frame.recv_not_send type
      rw [if_neg (Frame.recv_not_query type)]
      cases hready : e.line.replyReady with
      | false =>
          rw [if_neg fun hkeeps => Bool.false_ne_true (hready.symm.trans hkeeps.1)]
          rfl
      | true =>
          rw [if_pos ⟨hready, .inr ⟨type, encoded, hheap⟩⟩, if_neg hsend]
          simp only [replyIf, if_true, recvReply, haddress, hsum]

theorem writeFrame_status {f g : Frame} (h : writeFrame f = writeFrame g) :
    f.status = g.status := by
  have hf := receiveFrame_writeFrame f {}
  rw [h, receiveFrame_writeFrame] at hf
  exact (congrArg Frame.status (Prod.mk.inj (Except.ok.inj hf)).2).symm

theorem Picture.reply_other {p : Picture} {f : Frame} {line : Line} (h : ¬ p.Keeps f line)
    (status status' : UInt16) : p.reply status f line = p.reply status' f line := by
  rw [reply, reply, if_neg h, if_neg h]

theorem Picture.reply_keeps {p : Picture} {f : Frame} {line : Line} (h : p.Keeps f line)
    (status status' : UInt16) :
    ((p.reply status f line).map writeFrame).toList =
        ((p.reply status' f line).map writeFrame).toList ↔ status = status' := by
  have hquery : f.frameType ≠ frameTypeQuery := by
    rcases h.2 with type | ⟨type, -⟩
    · exact Frame.send_not_query type
    · exact Frame.recv_not_query type
  constructor
  · intro heq
    rw [reply, reply, if_neg hquery, if_neg hquery, if_pos h, if_pos h] at heq
    exact writeFrame_status (List.cons.inj heq).1
  · rintro rfl
    rfl

/-! One file, seen by an observer of its entry. -/

theorem Slave.replyTo_eq {o : Options} {s s' : Slave} {e : Event} {f : Frame}
    {k : Fin picturesNumberMax} (h : s.Own) (hrequest : e.request = some f)
    (hk : fileIndex f.nFile = some k) (hturn : s.Turn o e s') :
    s.replyTo o k e =
      (((s.pictures k).reply s.outputFrame.status f e.line).map writeFrame).toList := by
  obtain ⟨out, hturn⟩ := hturn
  have hnames : e.names k = true := Event.names_iff.mpr ⟨f, hrequest, hk⟩
  simp only [replyTo, hturn, hnames, if_true, turn_reply h hrequest hk hturn]

theorem Slave.replyTo_other {o : Options} {k : Fin picturesNumberMax} (s : Slave) {e : Event}
    (h : e.names k = false) : s.replyTo o k e = [] := by
  unfold replyTo
  split
  · rw [h]
    rfl
  · rfl

def Slave.leftover (k : Fin picturesNumberMax) (s : Slave) (e : Event) : List UInt16 :=
  if s.keeps k e then [s.outputFrame.status] else []

theorem Slave.keeps_eq {s : Slave} {e : Event} {f : Frame} {k : Fin picturesNumberMax}
    (hrequest : e.request = some f) (hk : fileIndex f.nFile = some k) :
    s.keeps k e = decide ((s.pictures k).Keeps f e.line) := by
  simp only [keeps, hrequest, hk, beq_self_eq_true, Bool.true_and]

theorem Slave.keeps_other {s : Slave} {e : Event} {k : Fin picturesNumberMax}
    (h : e.names k = false) : s.keeps k e = false := by
  unfold keeps
  cases hrequest : e.request with
  | none => rfl
  | some f =>
      simp only [Event.names, hrequest, Option.bind_some] at h
      simp only [h, Bool.false_and]

theorem Slave.turn_unwinding (o : Options) (k : Fin picturesNumberMax) :
    Unwinding (Slave.Turn o) Slave.Own (Event.names k) fun s => s.pictures k where
  keeps _ _ _ := turn_own
  ignores s e s' hother hturn := by
    rcases turn_picture hturn k with ⟨nFrame, hacc, -⟩ | ⟨-, hsame⟩
    · have hnames : e.names k = true := by
        obtain ⟨f, hrequest, -, -, hk, -⟩ := Event.accepted_request hacc
        exact Event.names_iff.mpr ⟨f, hrequest, hk⟩
      exact absurd (hother.symm.trans hnames) Bool.false_ne_true
    · exact hsame
  respects s t e s' t' _ hview hs ht := by
    rcases turn_picture hs k with ⟨n, hn, hrecv⟩ | ⟨hnone, hsame⟩
    · rcases turn_picture ht k with ⟨m, hm, hrecv'⟩ | ⟨hnone', -⟩
      · obtain ⟨-, rfl⟩ := Prod.mk.inj (Option.some.inj (hn.symm.trans hm))
        rw [hview] at hrecv
        exact Except.ok.inj (hrecv.symm.trans hrecv')
      · exact absurd hn (hnone' n)
    · rcases turn_picture ht k with ⟨m, hm, -⟩ | ⟨-, hsame'⟩
      · exact absurd hm (hnone m)
      · rw [hsame, hsame', hview]

theorem Slave.leftovers_eq (o : Options) (k : Fin picturesNumberMax) {s s₁ : Slave}
    {es : List Event} (hrun : Run (Slave.Turn o) s es s₁) :
    s.leftovers o k s.outputFrame.status es =
      collect (Slave.next o) (Slave.leftover k) s es := by
  induction hrun with
  | nil => rfl
  | @cons s s' s₁ e es head _ ih =>
      rw [leftovers, turn_follows o s e s' head, Option.elim_some, ← turn_status head, ih,
        collect_cons (turn_follows o) (Slave.leftover k) head]
      rfl

/-- A step shows the same reply exactly when the same status is left over. -/
theorem Slave.turn_agree {o : Options} {k : Fin picturesNumberMax} {s t s' t' : Slave} {e : Event}
    (hs : s.Own) (ht : t.Own) (hnames : e.names k = true) (hview : s.pictures k = t.pictures k)
    (hturn : s.Turn o e s') (hturn' : t.Turn o e t') :
    (s.replyTo o k e).length = (t.replyTo o k e).length ∧
      (s.leftover k e).length = (t.leftover k e).length ∧
      (s.replyTo o k e = t.replyTo o k e ↔ s.leftover k e = t.leftover k e) := by
  obtain ⟨f, hrequest, hk⟩ := Event.names_iff.mp hnames
  rw [replyTo_eq hs hrequest hk hturn, replyTo_eq ht hrequest hk hturn', hview, leftover, leftover,
    keeps_eq hrequest hk, keeps_eq hrequest hk, hview]
  by_cases hkeeps : (t.pictures k).Keeps f e.line
  · rw [decide_eq_true hkeeps, if_pos rfl, if_pos rfl, Picture.reply_keeps hkeeps]
    refine ⟨?_, rfl, by simp⟩
    simp only [Option.length_toList, Option.isSome_map, Picture.reply]
    split <;> simp [replyIf]
  · rw [decide_eq_false hkeeps, if_neg Bool.false_ne_true,
      Picture.reply_other hkeeps s.outputFrame.status t.outputFrame.status]
    exact ⟨rfl, rfl, iff_of_true rfl rfl⟩

/-- In two runs with the same requests about file `k`, each with the same line, the
replies to them are the same exactly when the same statuses were left over. The
entry of the file is the same, and only requests about it change it. -/
theorem replies_separate_iff (o : Options) (k : Fin picturesNumberMax) {es₁ es₂ : List Event}
    {s₁ s₂ : Slave} (h₁ : Run (Slave.Turn o) Slave.init es₁ s₁)
    (h₂ : Run (Slave.Turn o) Slave.init es₂ s₂)
    (same : es₁.filter (Event.names k) = es₂.filter (Event.names k)) :
    (Slave.init.replies o k es₁ = Slave.init.replies o k es₂ ↔
        Slave.init.leftovers o k 0 es₁ = Slave.init.leftovers o k 0 es₂) ∧
      s₁.pictures k = s₂.pictures k ∧
      ∀ s e s', e.names k = false → Slave.Turn o s e s' → s'.pictures k = s.pictures k := by
  have hunwinding := Slave.turn_unwinding o k
  have hquiet : ∀ s e, Event.names k e = false →
      Slave.replyTo o k s e = [] ∧ Slave.leftover k s e = [] := by
    intro s e hother
    refine ⟨s.replyTo_other hother, ?_⟩
    rw [Slave.leftover, Slave.keeps_other hother, if_neg Bool.false_ne_true]
  obtain ⟨hend, hreplies⟩ := hunwinding.collect_iff (Slave.turn_follows o) hquiet
    (fun _ _ _ _ _ => Slave.turn_agree) h₁ h₂ Slave.init_own Slave.init_own rfl same
  have hstatus : Slave.init.outputFrame.status = 0 := rfl
  rw [← Slave.leftovers_eq o k h₁, ← Slave.leftovers_eq o k h₂, hstatus] at hreplies
  exact ⟨hreplies, hend, hunwinding.ignores⟩

theorem Slave.turn_queryRequest (o : Options) (s : Slave) (nFile : UInt32) :
    s.Turn o (.ofFrame (queryRequest nFile) {})
      { s with outputFrame := s.queryReply (queryRequest nFile).signed } :=
  ⟨_, (turn_of_request o s (Event.ofFrame_request rfl {})).trans (handle_query o s {} rfl)⟩

/-- The first request for file 0, in a slave that may have replied before. -/
theorem oneLine_reply {s : Slave} (h : s.Own) (hpictures : s.pictures = Slave.init.pictures) :
    ∃ s', s.Turn dryRun (.ofFrame (sendRequest 0 1) (oneLine 7)) s' ∧
      s.replyTo dryRun 0 (.ofFrame (sendRequest 0 1) (oneLine 7)) =
        [writeFrame ⟨addressSlave, frameTypeSend, 0, 1, s.outputFrame.status, 0⟩] ∧
      ∀ before, s.leftovers dryRun 0 before [.ofFrame (sendRequest 0 1) (oneLine 7)] =
        [before] := by
  have hpicture : s.pictures 0 = {} := by rw [hpictures]; rfl
  obtain ⟨s', hturn, -⟩ := Slave.turn_oneLine (o := dryRun) (s := s) (k := 0) 7
    (by rw [hpicture]; rfl) (.inl rfl)
  have hrequest : (Event.ofFrame (sendRequest 0 1) (oneLine 7)).request =
      some (sendRequest 0 1).signed := Event.ofFrame_request rfl (oneLine 7)
  have hk : fileIndex (sendRequest 0 1).signed.nFile = some 0 := rfl
  refine ⟨s', hturn, ?_, ?_⟩
  · rw [Slave.replyTo_eq h hrequest hk hturn, hpicture]
    rfl
  · intro before
    have hnext : s.next dryRun (.ofFrame (sendRequest 0 1) (oneLine 7)) = some s' :=
      Slave.turn_follows dryRun s _ s' hturn
    rw [Slave.leftovers, hnext, Option.elim_some, Slave.leftovers,
      Slave.keeps_eq hrequest hk, decide_eq_true ⟨rfl, .inl rfl⟩, if_pos rfl, List.append_nil]

theorem queryRequest_names {nFile : UInt32} {k : Fin picturesNumberMax}
    (h : fileIndex nFile ≠ some k) : (Event.ofFrame (queryRequest nFile) {}).names k = false := by
  rw [← Bool.not_eq_true, Event.names_iff]
  rintro ⟨f, hrequest, hk⟩
  obtain rfl := Option.some.inj
    ((Event.ofFrame_request (f := queryRequest nFile) rfl {}).symm.trans hrequest)
  exact h hk

/-- Two runs that differ in a QUERY request for another file. -/
theorem replies_separate_queried :
    Slave.init.replies dryRun 0 [.ofFrame (queryRequest 1) {},
        .ofFrame (sendRequest 0 1) (oneLine 7)] =
      Slave.init.replies dryRun 0 [.ofFrame (queryRequest 2) {},
        .ofFrame (sendRequest 0 1) (oneLine 7)] := by
  have hfirst (nFile : UInt32) := Slave.turn_queryRequest dryRun Slave.init nFile
  obtain ⟨s₁, hturn₁, -, hleft₁⟩ := oneLine_reply (Slave.turn_own Slave.init_own (hfirst 1)) rfl
  obtain ⟨s₂, hturn₂, -, hleft₂⟩ := oneLine_reply (Slave.turn_own Slave.init_own (hfirst 2)) rfl
  have hother₁ : (Event.ofFrame (queryRequest 1) {}).names 0 = false :=
    queryRequest_names (by decide)
  have hother₂ : (Event.ofFrame (queryRequest 2) {}).names 0 = false :=
    queryRequest_names (by decide)
  refine (replies_separate_iff dryRun 0 (.cons (hfirst 1) (.cons hturn₁ (.nil s₁)))
    (.cons (hfirst 2) (.cons hturn₂ (.nil s₂))) ?_).1.mpr ?_
  · simp only [List.filter_cons, hother₁, hother₂, Bool.false_eq_true, if_false]
  · have hfound (nFile : UInt32) (hnone : Slave.init.getStatus nFile = statusUnreceived) :
        Slave.init.found 0 (.ofFrame (queryRequest nFile) {}) = statusUnreceived := by
      rw [Slave.found, Event.ofFrame_request rfl]
      exact hnone
    rw [Slave.leftovers, Slave.leftovers, Slave.turn_follows dryRun _ _ _ (hfirst 1),
      Slave.turn_follows dryRun _ _ _ (hfirst 2), Option.elim_some, Option.elim_some,
      Slave.keeps_other hother₁, Slave.keeps_other hother₂, hleft₁, hleft₂, hfound 1 rfl,
      hfound 2 rfl]

/-- A QUERY request for file 1 shows in the reply about file 0. -/
theorem replies_leak_status : ∃ s₁ s₂,
    Run (Slave.Turn dryRun) Slave.init [.ofFrame (queryRequest 1) {},
      .ofFrame (sendRequest 0 1) (oneLine 7)] s₁ ∧
    Run (Slave.Turn dryRun) Slave.init [.ofFrame (sendRequest 0 1) (oneLine 7)] s₂ ∧
    [Event.ofFrame (queryRequest 1) {}, .ofFrame (sendRequest 0 1) (oneLine 7)].filter
        (Event.names 0) = [Event.ofFrame (sendRequest 0 1) (oneLine 7)].filter (Event.names 0) ∧
    Slave.init.replies dryRun 0 [.ofFrame (queryRequest 1) {},
        .ofFrame (sendRequest 0 1) (oneLine 7)] ≠
      Slave.init.replies dryRun 0 [.ofFrame (sendRequest 0 1) (oneLine 7)] := by
  have hfirst := Slave.turn_queryRequest dryRun Slave.init 1
  obtain ⟨s₁, hturn₁, hreply₁, -⟩ := oneLine_reply (Slave.turn_own Slave.init_own hfirst) rfl
  obtain ⟨s₂, hturn₂, hreply₂, -⟩ := oneLine_reply Slave.init_own rfl
  have hother : (Event.ofFrame (queryRequest 1) {}).names 0 = false :=
    queryRequest_names (by decide)
  refine ⟨s₁, s₂, .cons hfirst (.cons hturn₁ (.nil s₁)), .cons hturn₂ (.nil s₂), ?_, ?_⟩
  · rw [List.filter_cons_of_neg (by rw [hother]; exact Bool.false_ne_true)]
  · have hfollows := Slave.turn_follows dryRun
    intro heq
    rw [Slave.replies, Slave.replies, collect_cons hfollows _ hfirst,
      collect_cons hfollows _ hturn₁, collect_cons hfollows _ hturn₂,
      Slave.replyTo_other _ hother, hreply₁, hreply₂] at heq
    have hstatus := writeFrame_status (List.cons.inj heq).1
    exact absurd hstatus (by decide)

end Soc
