import Soc.Protocol.Answer
import Soc.Protocol.Freshness

/-!
The size of a result, as the two replies about it state it.

A QUERY reply counts the frames received, a RECV reply those of the bit stream.
The master allocates its slots by the first and receives by the second.
-/
namespace Soc
open Windows Runs

/-- Both replies about a processed file state the number of frames its bit
stream takes. -/
def Slave.Agrees (s : Slave) : Prop :=
  ∀ k (q r : Frame), fileIndex q.nFile = some k → fileIndex r.nFile = some k →
    (s.pictures k).status = statusProcessed →
      let bitStream := (s.pictures k).bitStream
      (s.queryReply q).nFrame = (s.recvReply r bitStream).nFrame ∧
        (s.recvReply r bitStream).nFrame.toNat = (bitStream.len + 511) / 512

/-- A SEND request after which they do: one that completes must encode to
nothing or to as many frames as it has; one that does not must, on a processed
file, bring as many frames as the result there takes. -/
def Picture.Matches (o : Options) (p : Picture) (line : Line) (nFrame : UInt16) : Prop :=
  let result := o.encoding ((p.filled line nFrame).flatMap DataFrame.carried)
  (p.Completes line nFrame → result = [] ∨ (result.length + 511) / 512 = nFrame.toNat) ∧
    (¬ p.Completes line nFrame → p.status = statusProcessed →
      (p.bitStream.len + 511) / 512 =
        if line.dataReady then (receivedWindows nFrame line.reads).countP accepts
        else (nFrame + 1).toNat)

def Slave.Matches (o : Options) (s : Slave) (e : Event) : Prop :=
  ∀ k nFrame, e.accepted = some (k, nFrame) → (s.pictures k).Matches o e.line nFrame

/-- The length of a file is what its bit stream takes. -/
def Picture.Sized (p : Picture) : Prop :=
  0 < p.bitStream.len → p.info.len.toNat = (p.bitStream.len + 511) / 512

theorem Slave.agrees_iff (s : Slave) : s.Agrees ↔ ∀ k, (s.pictures k).Sized := by
  constructor
  · intro h k hlen
    have hk := fileIndex_ofNat k
    obtain ⟨hsame, hcount⟩ := h k (queryRequest (UInt32.ofNat k)) (queryRequest (UInt32.ofNat k))
      hk hk (Picture.status_processed.mpr hlen)
    have hquery :
        (s.queryReply (queryRequest (UInt32.ofNat k))).nFrame = (s.pictures k).info.len := by
      have hfile : (queryRequest (UInt32.ofNat k)).nFile = UInt32.ofNat k := rfl
      simp only [queryReply, hfile, hk]
    rw [← hquery, hsame, hcount]
  · intro h k q r hq hr hprocessed
    have hlen := h k (Picture.status_processed.mp hprocessed)
    have hrecv : (s.recvReply r (s.pictures k).bitStream).nFrame = (s.pictures k).info.len := by
      rw [recvReply, countFrames_eq, ← hlen, UInt16.ofNat_toNat]
    refine ⟨?_, ?_⟩
    · rw [hrecv]
      simp only [queryReply, hq]
    · rw [hrecv, hlen]

/-- All slots of a processed file are empty, so what is missed is what fails. -/
theorem countMissed_cleared (nFrame : UInt16) (reads : List (List UInt8)) :
    countMissed (List.replicate nFrame.toNat zeroFrame) nFrame reads +
      (receivedWindows nFrame reads).countP accepts = nFrame.toNat := by
  have hzip (ws : List (List UInt8)) :
      ((List.replicate ws.length zeroFrame).zip ws).countP missed + ws.countP accepts =
        ws.length := by
    induction ws with
    | nil => rfl
    | cons w ws ih =>
        have hempty : zeroFrame.Empty := rfl
        rw [List.length_cons, List.replicate_succ, List.zip_cons_cons, List.countP_cons,
          List.countP_cons]
        cases hacc : accepts w with
        | true => simp [missed, hacc]; omega
        | false => simp [missed, hacc, hempty]; omega
  have hall := hzip (receivedWindows nFrame reads)
  rwa [receivedWindows_length] at hall

theorem Picture.slots_processed {p : Picture} (h : p.status = statusProcessed) (nFrame : UInt16) :
    p.slots nFrame = List.replicate nFrame.toNat zeroFrame := by
  rw [slots, kept, if_pos (status_processed.mp h), Option.getD_none]

/-- What is subtracted on a processed file leaves the windows that passed. -/
theorem Picture.received_processed {p : Picture} (h : p.status = statusProcessed) (line : Line)
    (nFrame : UInt16) :
    (if line.dataReady then
        nFrame - UInt16.ofNat (countMissed (p.slots nFrame) nFrame line.reads)
      else nFrame + 1).toNat =
      if line.dataReady then (receivedWindows nFrame line.reads).countP accepts
      else (nFrame + 1).toNat := by
  cases line.dataReady with
  | false => rfl
  | true =>
      have hcount := countMissed_cleared nFrame line.reads
      have hlt := nFrame.toNat_lt
      rw [if_pos rfl, if_pos rfl, UInt16.toNat_sub, countMissed_toNat, slots_processed h]
      omega

theorem Picture.receive_sized {o : Options} {line : Line} {nFrame : UInt16} {p p' : Picture}
    (h : p.receive o line nFrame = .ok p') : p'.Sized ↔ p.Matches o line nFrame := by
  unfold Sized Matches
  rcases (receive_cases h).2 with ⟨hcomplete, hlen, hbytes⟩ | ⟨hmissing, hstream, hlen⟩
  · have hresult : p'.bitStream.len =
        (o.encoding ((p.filled line nFrame).flatMap DataFrame.carried)).length := by
      rw [← hbytes, Data8.bytes_length]
    rw [hresult, hlen, List.length_pos_iff]
    simp only [hcomplete, not_true, false_imp_iff, and_true, true_imp_iff, or_iff_not_imp_left]
    rw [eq_comm]
  · rw [hstream, hlen]
    simp only [hmissing, not_false_iff, false_imp_iff, true_and, true_imp_iff, ← status_processed]
    constructor
    · intro heq hprocessed
      rw [← heq hprocessed, received_processed hprocessed]
    · intro heq hprocessed
      rw [received_processed hprocessed, heq hprocessed]

theorem Slave.turn_agrees {o : Options} {s s' : Slave} {e : Event} (h : s.Agrees)
    (hturn : s.Turn o e s') : s'.Agrees ↔ s.Matches o e := by
  rw [agrees_iff] at h ⊢
  constructor
  · intro h' k nFrame hacc
    rcases turn_picture hturn k with ⟨n, hn, hrecv⟩ | ⟨hother, -⟩
    · obtain ⟨-, rfl⟩ := Prod.mk.inj (Option.some.inj (hn.symm.trans hacc))
      exact (Picture.receive_sized hrecv).mp (h' k)
    · exact absurd hacc (hother nFrame)
  · intro hmatches k
    rcases turn_picture hturn k with ⟨n, hacc, hrecv⟩ | ⟨-, hsame⟩
    · exact (Picture.receive_sized hrecv).mpr (hmatches k n hacc)
    · rw [hsame]
      exact h k

theorem Slave.init_agrees : init.Agrees := by
  rw [agrees_iff]
  intro k hlen
  exact absurd hlen (Nat.lt_irrefl 0)

/-! The receive phase of the master. -/

/-- A turn without an accepted SEND request, as all are while the master receives. -/
def Slave.Idle (o : Options) (s : Slave) (e : Event) (s' : Slave) : Prop :=
  s.Turn o e s' ∧ e.accepted = none

theorem Slave.idle_pictures {o : Options} {s s' : Slave} {es : List Event}
    (hrun : Run (Slave.Idle o) s es s') : s'.pictures = s.pictures := by
  refine Run.invariant (P := fun t => t.pictures = s.pictures) ?_ hrun rfl
  intro t e t' ht ⟨hturn, hacc⟩
  exact (turn_unaccepted hturn hacc).trans ht

/-- A turn from `s` handles a request of one type for the file, and the line
takes what it sends. -/
def Slave.Answers (o : Options) (s : Slave) (frameType : UInt8) (k : Fin picturesNumberMax)
    (out : Output) (s' : Slave) : Prop :=
  ∃ e f, e.request = some f ∧ f.frameType = frameType ∧ fileIndex f.nFile = some k ∧
    (e.line.sendReady = fun _ => true) ∧ s.turn o e = .ok (s', out)

theorem Slave.answers_query {o : Options} {s s' : Slave} {k : Fin picturesNumberMax}
    {out : Output} {q : Frame} (h : s.Answers o frameTypeQuery k out s')
    (hreply : out.reply = some q) : s'.pictures = s.pictures ∧ ∃ f : Frame,
      fileIndex f.nFile = some k ∧ q = s.queryReply f := by
  obtain ⟨e, f, hrequest, htype, hk, -, hturn⟩ := h
  rw [turn_of_request o s hrequest, handle_query o s e.line htype] at hturn
  obtain ⟨rfl, rfl⟩ := Prod.mk.inj (Except.ok.inj hturn)
  obtain ⟨-, rfl⟩ := replyIf_some.mp hreply
  exact ⟨rfl, f, hk, rfl⟩

/-- As many frames are sent as the reply states. -/
theorem Slave.answers_recv {o : Options} {s s' : Slave} {k : Fin picturesNumberMax}
    {out : Output} {r : Frame} (h : s.Answers o frameTypeRecv k out s')
    (hreply : out.reply = some r) : 0 < (s.pictures k).bitStream.len ∧
      (∃ f : Frame, fileIndex f.nFile = some k ∧ r = s.recvReply f (s.pictures k).bitStream) ∧
      out.data.length = r.nFrame.toNat := by
  obtain ⟨e, f, hrequest, htype, hk, hsend, hturn⟩ := h
  rw [turn_of_request o s hrequest, handle_recv o s e.line htype] at hturn
  by_cases hlen : (s.pictures k).bitStream.len = 0
  · rw [recv_nothing hk hlen] at hturn
    obtain ⟨-, rfl⟩ := Prod.mk.inj (Except.ok.inj hturn)
    contradiction
  · simp only [recv, hk, if_neg hlen] at hturn
    obtain ⟨frames, halloc, hturn⟩ := bind_ok hturn
    cases frames with
    | none =>
        obtain ⟨-, rfl⟩ := Prod.mk.inj (Except.ok.inj hturn)
        contradiction
    | some frames =>
        obtain ⟨-, rfl⟩ := Prod.mk.inj (Except.ok.inj hturn)
        obtain ⟨-, rfl⟩ := replyIf_some.mp hreply
        refine ⟨Nat.pos_of_ne_zero hlen, ⟨f, hk, rfl⟩, ?_⟩
        obtain ⟨block, hblock, hframes⟩ := allocDataFrames_length halloc
        obtain ⟨heap, -, rfl⟩ := Option.map_eq_some_iff.mp hblock
        rw [hsend, sendDataFrames_ready, List.length_mapIdx, hframes, List.length_take,
          List.length_map, List.length_range, Nat.min_self]

/-- The slots of the master suffice: between the QUERY reply that makes it
allocate them and the RECV reply nothing is sent to the slave. -/
theorem Slave.master_slots {o : Options} {s s₁ s₂ s₃ : Slave} (h : s.Agrees)
    {k : Fin picturesNumberMax} {out out₂ : Output} {q r : Frame} {es : List Event}
    (hquery : s.Answers o frameTypeQuery k out s₁) (hq : out.reply = some q)
    (hrun : Run (Slave.Idle o) s₁ es s₂)
    (hrecv : s₂.Answers o frameTypeRecv k out₂ s₃) (hr : out₂.reply = some r) :
    q.nFrame = r.nFrame ∧ out₂.data.length = r.nFrame.toNat ∧
      ∀ ready reads (slots : List DataFrame), slots.length = q.nFrame.toNat →
        ∃ sum slots', receiveDataFrames ready reads slots r.nFrame = .ok (sum, slots') ∧
          slots'.length = q.nFrame.toNat := by
  obtain ⟨hsame, f, hf, rfl⟩ := answers_query hquery hq
  obtain ⟨hlen, ⟨g, hg, rfl⟩, hdata⟩ := answers_recv hrecv hr
  have hpictures : s₂.pictures = s.pictures := (idle_pictures hrun).trans hsame
  rw [hpictures] at hlen hdata ⊢
  have hreply : s₂.recvReply g (s.pictures k).bitStream =
      { s₂.outputFrame with
        frameType := g.frameType
        nFile := g.nFile
        nFrame := (s.recvReply g (s.pictures k).bitStream).nFrame } := rfl
  have hagree := (h k f g hf hg (Picture.status_processed.mpr hlen)).1
  have hframes : (s.queryReply f).nFrame = (s₂.recvReply g (s.pictures k).bitStream).nFrame := by
    rw [hreply, hagree]
  refine ⟨hframes, hdata, ?_⟩
  intro ready reads slots hslots
  obtain ⟨sum, slots', hreceive, hlength, -⟩ :=
    receiveDataFrames_inside (Nat.le_of_eq (hslots.trans (congrArg _ hframes)).symm) ready reads
  exact ⟨sum, slots', hreceive, hlength.trans hslots⟩

/-- The two replies agree in every state of a run exactly when every SEND
request of the run matches its result. Then the master's slots suffice. -/
theorem agrees_throughout_iff (o : Options) {es : List Event} {s : Slave}
    (hrun : Run (Slave.Turn o) Slave.init es s) :
    (Throughout (Slave.Turn o) Slave.Agrees Slave.init es ↔
        EveryStep (Slave.Turn o) (Slave.Matches o) Slave.init es) ∧
      (EveryStep (Slave.Turn o) (Slave.Matches o) Slave.init es →
        ∀ (k : Fin picturesNumberMax) (s₁ s₂ s₃ : Slave) (out out₂ : Output) (q r : Frame)
          (es' : List Event), s.Answers o frameTypeQuery k out s₁ → out.reply = some q →
          Run (Slave.Idle o) s₁ es' s₂ → s₂.Answers o frameTypeRecv k out₂ s₃ →
          out₂.reply = some r → q.nFrame = r.nFrame ∧ out₂.data.length = r.nFrame.toNat ∧
            ∀ ready reads (slots : List DataFrame), slots.length = q.nFrame.toNat →
              ∃ sum slots', receiveDataFrames ready reads slots r.nFrame = .ok (sum, slots') ∧
                slots'.length = q.nFrame.toNat) := by
  have hiff := throughout_iff_everyStep (I := fun _ => True) Slave.turn_deterministic
    (fun _ _ _ _ _ => trivial) (fun _ _ _ _ => Slave.turn_agrees) hrun trivial Slave.init_agrees
  refine ⟨hiff, ?_⟩
  intro hmatches k s₁ s₂ s₃ out out₂ q r es' hquery hq hidle hrecv hr
  have hagrees := hiff.mpr hmatches es [] s (List.append_nil es).symm hrun
  exact Slave.master_slots hagrees hquery hq hidle hrecv hr

/-- One full frame, copied. -/
theorem agrees_throughout_copy :
    Throughout (Slave.Turn dryRun) Slave.Agrees Slave.init
      [(oneFrame 7 (writeDataFrame (fullFrame 0 7))).event] := by
  have hsize := writeDataFrame_length (fullFrame 0 7)
  obtain ⟨t, hturn, -, -⟩ := oneFrame_turn (t := Latest.init) 7 hsize (.inl rfl) rfl
  refine (agrees_throughout_iff dryRun (.cons hturn.1 (.nil t.slave))).1.mpr ?_
  rw [everyStep_cons]
  refine ⟨?_, fun _ _ => everyStep_nil⟩
  intro k nFrame hacc
  rw [oneFrame_accepted] at hacc
  obtain ⟨rfl, rfl⟩ := Prod.mk.inj (Option.some.inj hacc)
  refine ⟨?_, ?_⟩
  · intro hcomplete
    refine .inr ?_
    rw [Picture.filled_carried (oneFrame_sent hsize (.inl rfl)) hcomplete]
    have hcarried : (merged ((Slave.init.pictures 0).slots 1)
        (oneFrame 7 (writeDataFrame (fullFrame 0 7))).frames).flatMap DataFrame.carried =
        List.replicate 512 7 := by
      rw [← fullFrame_carried 0 7]
      exact List.append_nil _
    rw [hcarried, Options.encoding, dryRun, if_pos rfl, List.length_replicate]
    rfl
  · intro _ hprocessed
    exact absurd (Picture.status_processed.mp hprocessed) (Nat.lt_irrefl 0)

/-- An encoder that halves two full frames. -/
def halving : Options := ⟨false, fun payload => payload.take 512⟩

def twoFrames : Event :=
  .ofFrame (sendRequest 0 2)
    { reads := [writeDataFrame (fullFrame 1 7), writeDataFrame (fullFrame 2 8)] }

/-- Two frames are received and one is the result: the replies state both. -/
theorem replies_disagree :
    ∃ s, Run (Slave.Turn halving) Slave.init [twoFrames] s ∧
      (s.pictures 0).status = statusProcessed ∧ (s.queryReply (queryRequest 0)).nFrame = 2 ∧
      (s.recvReply (queryRequest 0) (s.pictures 0).bitStream).nFrame = 1 ∧ ¬ s.Agrees := by
  have hsteady : Steady 0 twoFrames.line.reads := by
    have hne (f : DataFrame) : (writeDataFrame f).isEmpty = false :=
      window_isEmpty (writeDataFrame_length f)
    simp [twoFrames, Event.ofFrame, Steady, hne]
  have hwindows : receivedWindows 2 twoFrames.line.reads =
      [fullFrame 1 7, fullFrame 2 8].map writeDataFrame :=
    receivedWindows_blocks 2 ([fullFrame 1 7, fullFrame 2 8].map writeDataFrame) hsteady rfl
      (by simp) (Nat.le_refl 2)
  have hslots : (Slave.init.pictures 0).slots 2 = [zeroFrame, zeroFrame] := rfl
  obtain ⟨hfill, hcount⟩ := fill_written [zeroFrame, zeroFrame] [fullFrame 1 7, fullFrame 2 8] rfl
    (by simp [DataFrame.Empty, zeroFrame]) (by simp [fullFrame])
  have hfilled : (Slave.init.pictures 0).filled twoFrames.line 2 =
      [(fullFrame 1 7).signed, (fullFrame 2 8).signed] := by
    rw [Picture.filled, hslots, hwindows, hfill]
    rfl
  have hcomplete : (Slave.init.pictures 0).Completes twoFrames.line 2 := by
    refine ⟨rfl, countMissed_zero.mp ?_⟩
    rw [countMissed, hslots, hwindows, hcount]
  obtain ⟨p, hp⟩ := Picture.receive_returns halving (Slave.init.pictures 0)
    twoFrames.line 2 rfl rfl rfl (by rw [hslots]; exact Nat.le_refl 2)
    (by
      intro f hf
      rw [hfilled] at hf
      rcases List.mem_pair.mp hf with rfl | rfl
      · exact Nat.le_refl 512
      · exact Nat.le_refl 512)
    (.inr rfl)
  obtain ⟨s, hturn, hpictures⟩ :=
    Slave.turn_sendRequest (k := 0) (show fileIndex 0 = some 0 from rfl) rfl hp
  have hpicture : s.pictures 0 = p := by rw [hpictures, Function.update_self]
  have hsigned (nFrame : UInt16) (byte : UInt8) :
      (fullFrame nFrame byte).signed.carried = List.replicate 512 byte :=
    fullFrame_carried nFrame byte
  have hone : p.info.len = 2 ∧ p.bitStream.len = 512 := by
    rcases (Picture.receive_cases hp).2 with ⟨-, hlen, hbytes⟩ | ⟨hmissing, -⟩
    · refine ⟨hlen, ?_⟩
      have hhalf (payload : List UInt8) : halving.encoding payload = payload.take 512 := rfl
      rw [← Data8.bytes_length, hbytes, hfilled, List.flatMap_cons, List.flatMap_singleton,
        hsigned, hsigned, hhalf, List.length_take, List.length_append, List.length_replicate,
        List.length_replicate]
      rfl
    · exact absurd hcomplete hmissing
  have hprocessed : (s.pictures 0).status = statusProcessed := by
    rw [hpicture, Picture.status_processed, hone.2]
    exact Nat.succ_pos 511
  have hquery : (s.queryReply (queryRequest 0)).nFrame = 2 := by
    have hfile : fileIndex (queryRequest 0).nFile = some 0 := rfl
    simp only [Slave.queryReply, hfile, hpicture, hone.1]
  have hrecv : (s.recvReply (queryRequest 0) (s.pictures 0).bitStream).nFrame = 1 := by
    rw [Slave.recvReply, hpicture, hone.2]
    rfl
  refine ⟨s, .cons hturn (.nil s), hprocessed, hquery, hrecv, ?_⟩
  intro hagrees
  have hsame := (hagrees 0 (queryRequest 0) (queryRequest 0) rfl rfl hprocessed).1
  rw [hquery, hrecv] at hsame
  exact absurd hsame (by decide)

end Soc
