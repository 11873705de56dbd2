import Soc.Protocol.Loss
import Soc.Protocol.Slave

/-!
Which SEND request the bit stream of a file belongs to.

A file is served, by status or by data, while its bit stream is not empty. What
is served is the encoding of the last frames sent as long as every request either
completes with slots that amount to its frames, or leaves a file that is not
processed.
-/
namespace Soc
open Runs

/-- A turn from `s` answers a QUERY request for the file with
`TP_STATUS_PROCESSED`, or a RECV request with a reply or data. -/
def Slave.Serves (o : Options) (s : Slave) (k : Fin picturesNumberMax) : Prop :=
  ∃ e f s' out, e.request = some f ∧ fileIndex f.nFile = some k ∧ s.turn o e = .ok (s', out) ∧
    (f.frameType = frameTypeQuery ∧ (∃ r, out.reply = some r ∧ r.status = statusProcessed) ∨
      f.frameType = frameTypeRecv ∧ (out.reply.isSome ∨ out.data ≠ []))

def queryRequest (nFile : UInt32) : Frame :=
  { address := addressMaster, frameType := frameTypeQuery, nFile }

theorem Slave.recv_nothing {s : Slave} {f : Frame} {line : Line} {k : Fin picturesNumberMax}
    (hk : fileIndex f.nFile = some k) (hlen : (s.pictures k).bitStream.len = 0) :
    s.recv f line = .ok (s, {}) := by
  simp only [recv, hk, if_pos hlen]

theorem fileIndex_ofNat (k : Fin picturesNumberMax) : fileIndex (UInt32.ofNat k) = some k := by
  have hk : k.val < 8 := k.isLt
  rw [fileIndex_some, UInt32.toNat_ofNat', Nat.mod_eq_of_lt (by omega)]

theorem Slave.serves_iff (o : Options) (s : Slave) (k : Fin picturesNumberMax) :
    s.Serves o k ↔ 0 < (s.pictures k).bitStream.len := by
  constructor
  · rintro ⟨e, f, s', out, hrequest, hk, hturn, h⟩
    rw [turn_of_request o s hrequest] at hturn
    rcases h with ⟨htype, r, hr, hstatus⟩ | ⟨htype, hout⟩
    · rw [handle_query o s e.line htype] at hturn
      obtain ⟨-, rfl⟩ := Prod.mk.inj (Except.ok.inj hturn)
      obtain ⟨-, rfl⟩ := replyIf_some.mp hr
      have hpicture : (s.pictures k).status = statusProcessed := by
        simpa only [queryReply, getStatus, hk] using hstatus
      exact Picture.status_processed.mp hpicture
    · rw [handle_recv o s e.line htype] at hturn
      apply Nat.pos_of_ne_zero
      intro hlen
      rw [recv_nothing hk hlen] at hturn
      obtain ⟨-, rfl⟩ := Prod.mk.inj (Except.ok.inj hturn)
      simp at hout
  · intro hlen
    have hrequest := Event.ofFrame_request (f := queryRequest (UInt32.ofNat k)) rfl {}
    have hk := fileIndex_ofNat k
    refine ⟨_, _, _, _, hrequest, hk, turn_of_request o s hrequest, .inl ⟨rfl, _, rfl, ?_⟩⟩
    have hpicture := Picture.status_processed.mpr hlen
    change s.getStatus (UInt32.ofNat k) = statusProcessed
    simpa only [getStatus, hk] using hpicture

/-- A turn, with the frames that are sent after its request. -/
structure Sending where
  event : Event
  frames : List DataFrame

/-- Every window brings the frame sent for it, or fails the test. -/
structure Sending.Sent (e : Sending) (k : Fin picturesNumberMax) (nFrame : UInt16) : Prop where
  sent : SentFor (UInt32.ofNat k) nFrame e.frames
  arrives : ∀ (i : Nat) (f : DataFrame) (w : List UInt8), e.frames[i]? = some f →
    (receivedWindows nFrame e.event.line.reads)[i]? = some w → w = writeDataFrame f ∨
      accepts w = false

/-- A slave together with the frames last sent for each file. -/
structure Latest where
  slave : Slave
  last : Fin picturesNumberMax → Option (List DataFrame)

def Latest.init : Latest := ⟨Slave.init, fun _ => none⟩

def Latest.next (t : Latest) (e : Sending) : Fin picturesNumberMax → Option (List DataFrame) :=
  match e.event.accepted with
  | none => t.last
  | some (k, _) => Function.update t.last k (some e.frames)

def Latest.Turn (o : Options) (t : Latest) (e : Sending) (t' : Latest) : Prop :=
  t.slave.Turn o e.event t'.slave ∧
    (∀ k nFrame, e.event.accepted = some (k, nFrame) → e.Sent k nFrame) ∧ t'.last = t.next e

/-- What is served is the encoding of the frames last sent. -/
def Latest.Fresh (o : Options) (t : Latest) : Prop :=
  ∀ k, t.slave.Serves o k → ∃ frames, t.last k = some frames ∧
    (t.slave.pictures k).bitStream.bytes = o.encoding (frames.flatMap DataFrame.carried)

/-- The frames in the slots that held one, the new frames in the others. -/
def merged (slots frames : List DataFrame) : List DataFrame :=
  List.zipWith (fun s f => if s.Empty then f else s) slots frames

/-- A SEND request that completes amounts to its own frames, whatever its slots
held; one that does not leaves no result, or the one it would have had. -/
def Latest.Renews (o : Options) (t : Latest) (e : Sending) : Prop :=
  ∀ k nFrame, e.event.accepted = some (k, nFrame) →
    let p := t.slave.pictures k
    let result := o.encoding (e.frames.flatMap DataFrame.carried)
    let kept := o.encoding ((merged (p.slots nFrame) e.frames).flatMap DataFrame.carried)
    (p.Completes e.event.line nFrame → kept = [] ∨ kept = result) ∧
      (¬ p.Completes e.event.line nFrame → p.status = statusProcessed → p.bitStream.bytes = result)

/-- A reception that completes leaves the merged frames. -/
theorem Picture.filled_carried {p : Picture} {e : Sending} {k : Fin picturesNumberMax}
    {nFrame : UInt16} (hsent : e.Sent k nFrame) (h : p.Completes e.event.line nFrame) :
    (p.filled e.event.line nFrame).flatMap DataFrame.carried =
      (merged (p.slots nFrame) e.frames).flatMap DataFrame.carried := by
  have hsame : (p.filled e.event.line nFrame).map DataFrame.carried =
      (merged (p.slots nFrame) e.frames).map DataFrame.carried := by
    apply List.ext_getElem?
    intro i
    simp only [filled, merged, List.getElem?_map, List.getElem?_zipWith]
    cases hs : (p.slots nFrame)[i]? with
    | none => rfl
    | some s =>
        by_cases hi : i < nFrame.toNat
        · obtain ⟨w, hw⟩ : ∃ w, (receivedWindows nFrame e.event.line.reads)[i]? = some w :=
            ⟨_, List.getElem?_eq_getElem (by rwa [receivedWindows_length])⟩
          obtain ⟨f, hf⟩ : ∃ f, e.frames[i]? = some f :=
            ⟨_, List.getElem?_eq_getElem (by rwa [hsent.sent.length])⟩
          simp only [hw, hf, Option.map_some, fill]
          by_cases hempty : s.Empty
          · have hacc := h.2 i s w hs hw hempty
            rcases hsent.arrives i f w hf hw with rfl | hrejected
            · simp only [hempty, hacc, and_self, if_true, parse_writeDataFrame]
              rfl
            · rw [hacc] at hrejected
              contradiction
          · simp only [hempty, false_and, if_false]
        · have hw : (receivedWindows nFrame e.event.line.reads)[i]? = none :=
            List.getElem?_eq_none (by rw [receivedWindows_length]; omega)
          have hf : e.frames[i]? = none :=
            List.getElem?_eq_none (by rw [hsent.sent.length]; omega)
          simp only [hw, hf]
  rw [List.flatMap_def, hsame, ← List.flatMap_def]

/-- The file of an accepted request is fresh after it under the condition. -/
theorem Picture.receive_renews {o : Options} {e : Sending} {k : Fin picturesNumberMax}
    {nFrame : UInt16} {p p' : Picture} (hsent : e.Sent k nFrame)
    (h : p.receive o e.event.line nFrame = .ok p') :
    (0 < p'.bitStream.len →
        p'.bitStream.bytes = o.encoding (e.frames.flatMap DataFrame.carried)) ↔
      (p.Completes e.event.line nFrame →
          o.encoding ((merged (p.slots nFrame) e.frames).flatMap DataFrame.carried) = [] ∨
            o.encoding ((merged (p.slots nFrame) e.frames).flatMap DataFrame.carried) =
              o.encoding (e.frames.flatMap DataFrame.carried)) ∧
        (¬ p.Completes e.event.line nFrame → p.status = statusProcessed →
          p.bitStream.bytes = o.encoding (e.frames.flatMap DataFrame.carried)) := by
  rcases (receive_cases h).2 with ⟨hcomplete, -, hbytes⟩ | ⟨hmissing, hstream, -⟩
  · rw [filled_carried hsent hcomplete] at hbytes
    have hlen : 0 < p'.bitStream.len ↔ p'.bitStream.bytes ≠ [] := by
      rw [← Data8.bytes_length, List.length_pos_iff]
    rw [hlen, hbytes]
    simp only [hcomplete, not_true, false_imp_iff, and_true, true_imp_iff]
    exact (or_iff_not_imp_left).symm
  · rw [hstream, status_processed]
    simp only [hmissing, not_false_iff, false_imp_iff, true_and, true_imp_iff]

theorem Latest.turn_deterministic {o : Options} (t : Latest) (e : Sending) (t₁ t₂ : Latest)
    (h₁ : t.Turn o e t₁) (h₂ : t.Turn o e t₂) : t₁ = t₂ := by
  obtain ⟨hslave₁, -, hlast₁⟩ := h₁
  obtain ⟨hslave₂, -, hlast₂⟩ := h₂
  cases t₁
  cases t₂
  simp only [Latest.mk.injEq]
  exact ⟨Slave.turn_deterministic _ _ _ _ hslave₁ hslave₂, hlast₁.trans hlast₂.symm⟩

theorem Latest.turn_fresh {o : Options} {t t' : Latest} {e : Sending} (h : t.Fresh o)
    (hturn : t.Turn o e t') : t'.Fresh o ↔ t.Renews o e := by
  obtain ⟨hslave, hsent, hlast⟩ := hturn
  simp only [Fresh, Slave.serves_iff] at h ⊢
  constructor
  · intro h' k nFrame hacc
    rcases Slave.turn_picture hslave k with ⟨n, hn, hrecv⟩ | ⟨hother, -⟩
    · obtain ⟨-, rfl⟩ := Prod.mk.inj (Option.some.inj (hn.symm.trans hacc))
      refine (Picture.receive_renews (hsent k n hacc) hrecv).mp ?_
      intro hlen
      obtain ⟨frames, hframes, hbytes⟩ := h' k hlen
      rw [hlast, next, hacc] at hframes
      simp only [Function.update_self, Option.some.injEq] at hframes
      rw [hbytes, hframes]
    · exact absurd hacc (hother nFrame)
  · intro hrenews k hlen
    rw [hlast, next]
    rcases Slave.turn_picture hslave k with ⟨n, hacc, hrecv⟩ | ⟨hother, hsame⟩
    · rw [hacc]
      refine ⟨e.frames, Function.update_self _ _ _, ?_⟩
      exact (Picture.receive_renews (hsent k n hacc) hrecv).mpr (hrenews k n hacc) hlen
    · rw [hsame] at hlen ⊢
      obtain ⟨frames, hframes, hbytes⟩ := h k hlen
      refine ⟨frames, ?_, hbytes⟩
      cases hacc : e.event.accepted with
      | none => exact hframes
      | some a =>
          obtain ⟨k', n⟩ := a
          have hne : k ≠ k' := by
            rintro rfl
            exact hother n hacc
          simp only [Function.update_of_ne hne]
          exact hframes

/-- In every state of a run the slave serves the encoding of the frames last
sent, exactly when every request of the run renews its file. -/
theorem fresh_throughout_iff (o : Options) {es : List Sending} {t : Latest}
    (hrun : Run (Latest.Turn o) Latest.init es t) :
    Throughout (Latest.Turn o) (Latest.Fresh o) Latest.init es ↔
      EveryStep (Latest.Turn o) (Latest.Renews o) Latest.init es := by
  have hinit : Latest.init.Fresh o := by
    intro k hserves
    rw [Slave.serves_iff] at hserves
    exact absurd hserves (Nat.lt_irrefl 0)
  exact throughout_iff_everyStep (I := fun _ => True) Latest.turn_deterministic
    (fun _ _ _ _ _ => trivial) (fun _ _ _ _ => Latest.turn_fresh) hrun trivial hinit

theorem fullFrame_carried (nFrame : UInt16) (byte : UInt8) :
    (fullFrame nFrame byte).carried = List.replicate 512 byte := by
  have hdata : (fullFrame nFrame byte).data.toList = List.replicate 512 byte := rfl
  have hlen : (fullFrame nFrame byte).dataLen.toNat = 512 := rfl
  rw [DataFrame.carried, hdata, hlen, List.take_of_length_le (Nat.le_of_eq List.length_replicate)]

/-- A request for one full frame, which the line delivers as `bytes`. -/
def oneFrame (byte : UInt8) (bytes : List UInt8) : Sending :=
  ⟨.ofFrame (sendRequest 0 1) { reads := [bytes] }, [fullFrame 0 byte]⟩

theorem oneFrame_accepted (byte : UInt8) (bytes : List UInt8) :
    (oneFrame byte bytes).event.accepted = some (0, 1) :=
  Event.ofFrame_accepted (k := 0) 1 _ (show fileIndex 0 = some 0 from rfl) rfl

theorem oneFrame_window {byte : UInt8} {bytes : List UInt8} (h : bytes.length = dataFrameSize) :
    receivedWindows 1 (oneFrame byte bytes).event.line.reads = [bytes] :=
  receivedWindows_single h (steady_single h) (List.append_nil bytes)

theorem oneFrame_sent {byte : UInt8} {bytes : List UInt8} (h : bytes.length = dataFrameSize)
    (harrives : bytes = writeDataFrame (fullFrame 0 byte) ∨ accepts bytes = false) :
    (oneFrame byte bytes).Sent 0 1 := by
  have honly : ∀ f ∈ (oneFrame byte bytes).frames, f = fullFrame 0 byte := by
    intro f hf
    exact List.mem_singleton.mp hf
  refine ⟨⟨rfl, ?_, ?_, ?_, ?_, ?_⟩, ?_⟩
  · intro f hf
    rw [honly f hf]
    rfl
  · intro f hf
    rw [honly f hf]
    rfl
  · intro i f hf
    match i with
    | 0 =>
        obtain rfl := Option.some.inj hf
        rfl
    | i + 1 => simp [oneFrame] at hf
  · intro f hf hempty
    rw [honly f hf] at hempty
    exact absurd (show (512 : UInt16) = 0 from hempty) (by decide)
  · intro f hf
    rw [honly f hf]
    exact Nat.le_refl 512
  · intro i f w hf hw
    rw [oneFrame_window h] at hw
    match i with
    | 0 =>
        obtain rfl := Option.some.inj hf
        obtain rfl := Option.some.inj hw
        exact harrives
    | i + 1 => simp at hw

theorem oneFrame_turn {t : Latest} (byte : UInt8) {bytes : List UInt8}
    (h : bytes.length = dataFrameSize)
    (harrives : bytes = writeDataFrame (fullFrame 0 byte) ∨ accepts bytes = false)
    (hslots : (t.slave.pictures 0).slots 1 = [zeroFrame]) :
    ∃ t', t.Turn dryRun (oneFrame byte bytes) t' ∧ t'.last 0 = some [fullFrame 0 byte] ∧
      (t.slave.pictures 0).receive dryRun (oneFrame byte bytes).event.line 1 =
        .ok (t'.slave.pictures 0) := by
  have hacc := oneFrame_accepted byte bytes
  have hfilled : (t.slave.pictures 0).filled (oneFrame byte bytes).event.line 1 =
      [fill zeroFrame bytes] := by
    rw [Picture.filled, hslots, oneFrame_window h]
    rfl
  have hlens : (fill zeroFrame bytes).dataLen.toNat ≤ frameDataLenMax := by
    unfold fill
    split
    case isTrue hfill =>
        rcases harrives with rfl | hrejected
        · rw [parse_writeDataFrame]
          exact Nat.le_refl 512
        · rw [hfill.2] at hrejected
          contradiction
    case isFalse => exact Nat.zero_le _
  obtain ⟨p, hp⟩ := Picture.receive_returns dryRun (t.slave.pictures 0)
    (oneFrame byte bytes).event.line 1 rfl rfl rfl
    (by rw [hslots]; exact Nat.le_refl 1)
    (by
      intro f hf
      rw [hfilled, List.mem_singleton] at hf
      rwa [hf])
    (.inl rfl)
  obtain ⟨s, hturn, hpictures⟩ :=
    Slave.turn_sendRequest (k := 0) (show fileIndex 0 = some 0 from rfl) rfl hp
  refine ⟨⟨s, t.next (oneFrame byte bytes)⟩, ⟨hturn, ?_, rfl⟩, ?_, ?_⟩
  · intro k nFrame hk
    rw [hacc] at hk
    obtain ⟨rfl, rfl⟩ := Prod.mk.inj (Option.some.inj hk)
    exact oneFrame_sent h harrives
  · simp only [Latest.next, hacc, Function.update_self]
    rfl
  · simp only [hpictures, Function.update_self, hp]

/-- A first request whose frame arrives. -/
theorem oneFrame_first :
    ∃ t, Run (Latest.Turn dryRun) Latest.init [oneFrame 7 (writeDataFrame (fullFrame 0 7))] t ∧
      (t.slave.pictures 0).bitStream.bytes = (fullFrame 0 7).carried := by
  have hsize := writeDataFrame_length (fullFrame 0 7)
  obtain ⟨t, hturn, -, hrecv⟩ := oneFrame_turn (t := Latest.init) 7 hsize (.inl rfl) rfl
  refine ⟨t, .cons hturn (.nil t), ?_⟩
  have hacc := (accepts_writeDataFrame (fullFrame 0 7)).mpr rfl
  have hcomplete : (Latest.init.slave.pictures 0).Completes
      (oneFrame 7 (writeDataFrame (fullFrame 0 7))).event.line 1 := by
    refine ⟨rfl, ?_⟩
    intro i s w _ hw _
    rw [oneFrame_window hsize] at hw
    rw [List.mem_singleton.mp (List.mem_of_getElem? hw), hacc]
  rcases (Picture.receive_cases hrecv).2 with ⟨-, -, hbytes⟩ | ⟨hmissing, -⟩
  · rw [hbytes, Picture.filled_carried (oneFrame_sent hsize (.inl rfl)) hcomplete]
    exact List.append_nil _
  · exact absurd hcomplete hmissing

/-- It is served. -/
theorem fresh_throughout_first :
    Throughout (Latest.Turn dryRun) (Latest.Fresh dryRun) Latest.init
      [oneFrame 7 (writeDataFrame (fullFrame 0 7))] := by
  obtain ⟨t, hrun, -⟩ := oneFrame_first
  refine (fresh_throughout_iff dryRun hrun).mpr ?_
  rw [everyStep_cons]
  refine ⟨?_, fun _ _ => everyStep_nil⟩
  intro k nFrame hacc
  rw [oneFrame_accepted] at hacc
  obtain ⟨rfl, rfl⟩ := Prod.mk.inj (Option.some.inj hacc)
  refine ⟨fun _ => .inr rfl, ?_⟩
  intro _ hprocessed
  exact absurd (Picture.status_processed.mp hprocessed) (Nat.lt_irrefl 0)

/-- A second request for the file whose frame arrives damaged: the first result
is still served. -/
theorem fresh_lost_by_resend :
    ∃ t, Run (Latest.Turn dryRun) Latest.init
        [oneFrame 7 (writeDataFrame (fullFrame 0 7)), oneFrame 8 zeroWindow] t ∧
      t.slave.Serves dryRun 0 ∧ t.last 0 = some [fullFrame 0 8] ∧
      (t.slave.pictures 0).bitStream.bytes = List.replicate 512 7 ∧ ¬ t.Fresh dryRun := by
  obtain ⟨t, hrun, hbytes⟩ := oneFrame_first
  have hlen : (t.slave.pictures 0).bitStream.len = 512 := by
    rw [← Data8.bytes_length, hbytes, fullFrame_carried, List.length_replicate]
  have hslots : (t.slave.pictures 0).slots 1 = [zeroFrame] := by
    rw [Picture.slots, Picture.kept, if_pos (by rw [hlen]; decide)]
    rfl
  have hsize : zeroWindow.length = dataFrameSize := List.length_replicate
  obtain ⟨t', hturn, hlast, hrecv⟩ :=
    oneFrame_turn 8 hsize (.inr zeroWindow_rejected) hslots
  have hmissing : ¬ (t.slave.pictures 0).Completes (oneFrame 8 zeroWindow).event.line 1 := by
    intro hcomplete
    have hacc := hcomplete.2 0 zeroFrame zeroWindow (by rw [hslots]; rfl)
      (by rw [oneFrame_window hsize]; rfl) rfl
    rw [zeroWindow_rejected] at hacc
    exact Bool.false_ne_true hacc
  have hstream : (t'.slave.pictures 0).bitStream = (t.slave.pictures 0).bitStream := by
    rcases (Picture.receive_cases hrecv).2 with ⟨hcomplete, -⟩ | ⟨-, hsame, -⟩
    · exact absurd hcomplete hmissing
    · exact hsame
  have hserves : t'.slave.Serves dryRun 0 := by
    rw [Slave.serves_iff, hstream, hlen]
    exact Nat.succ_pos 511
  have hseven : (t'.slave.pictures 0).bitStream.bytes = List.replicate 512 7 := by
    rw [hstream, hbytes, fullFrame_carried]
  refine ⟨t', hrun.snoc hturn, hserves, hlast, hseven, ?_⟩
  intro hfresh
  obtain ⟨frames, hframes, heq⟩ := hfresh 0 hserves
  obtain rfl := Option.some.inj (hlast.symm.trans hframes)
  have height : dryRun.encoding ([fullFrame 0 8].flatMap DataFrame.carried) =
      List.replicate 512 8 := by
    rw [List.flatMap_singleton, fullFrame_carried]
    rfl
  rw [hseven, height, List.replicate_inj] at heq
  rcases heq.2 with hzero | hbyte
  · exact absurd hzero (by decide)
  · exact absurd hbyte (by decide)

end Soc
