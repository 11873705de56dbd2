import Soc.Protocol.Outcome

/-!
What the slave counts as received.

Each slot is as `calloc` left it or holds a frame that passed the test. The
length of a file is exact when it is the number of the latter. A reception keeps
it exact unless its wait timed out, for the error code is subtracted like a
count, or a slot that holds a frame without data is offered a bad window, for
such a slot is counted as empty.
-/
namespace Soc
open Windows Runs

/-- A slot whose image passes the test of header and check sum. -/
def DataFrame.Held (f : DataFrame) : Prop := accepts (DataFrame.layout.store f.swapped) = true

instance (f : DataFrame) : Decidable f.Held := inferInstanceAs (Decidable (_ = _))

/-- How many of the first `total_len` slots hold a frame. -/
def Picture.heldCount (p : Picture) : Nat :=
  ((p.info.addr.getD []).take p.info.totalLen.toNat).countP (fun s => decide s.Held)

def Picture.Exact (p : Picture) : Prop := p.info.len.toNat = p.heldCount

/-- Slots are cleared or hold a frame. -/
def Picture.Clean (p : Picture) : Prop := ∀ s ∈ p.info.addr.getD [], s = zeroFrame ∨ s.Held

/-- When a SEND request of `nFrame` frames leaves the count exact: the wait ends
in time and no slot that holds a frame without data meets a bad window. A wait
that times out does no harm to 65535 announced frames of which none is held. -/
def Picture.Countable (p : Picture) (line : Line) (nFrame : UInt16) : Prop :=
  if line.dataReady then
    ∀ (i : Nat) (s : DataFrame) (w : List UInt8), (p.slots nFrame)[i]? = some s →
      (receivedWindows nFrame line.reads)[i]? = some w → s.Empty → s.Held → accepts w = true
  else nFrame = 65535 ∧ ∀ s ∈ (p.slots nFrame).take nFrame.toNat, ¬ s.Held

/-! Slots. -/

theorem zeroFrame_not_held : ¬ zeroFrame.Held := by decide +kernel

theorem parse_held {w : List UInt8} (hsize : w.length = dataFrameSize) (h : accepts w = true) :
    (parseDataFrame w).Held := by
  rw [DataFrame.Held, parseDataFrame, DataFrame.swapped_swapped,
    DataFrame.layout.store_load w hsize, h]

theorem held_of_not_empty {s : DataFrame} (hclean : s = zeroFrame ∨ s.Held) (h : ¬ s.Empty) :
    s.Held := by
  rcases hclean with rfl | hheld
  · exact absurd rfl h
  · exact hheld

theorem fill_clean {s : DataFrame} {w : List UInt8} (hsize : w.length = dataFrameSize)
    (hclean : s = zeroFrame ∨ s.Held) : fill s w = zeroFrame ∨ (fill s w).Held := by
  unfold fill
  split
  case isTrue h => exact .inr (parse_held hsize h.2)
  case isFalse => exact hclean

/-- A slot holds a frame after its turn if it was not missed, and if it was but
held one before. -/
theorem fill_held {s : DataFrame} {w : List UInt8} (hsize : w.length = dataFrameSize)
    (hclean : s = zeroFrame ∨ s.Held) :
    (fill s w).Held ↔ missed (s, w) = false ∨ missed (s, w) = true ∧ s.Held := by
  unfold fill missed
  by_cases hempty : s.Empty
  · cases hacc : accepts w with
    | true => simpa [hempty] using parse_held hsize hacc
    | false => simp [hempty]
  · simpa [hempty] using held_of_not_empty hclean hempty

/-! The count. -/

theorem heldCount_zipWith (slots : List DataFrame) (ws : List (List UInt8))
    (hlen : ws.length ≤ slots.length) (hsize : ∀ w ∈ ws, w.length = dataFrameSize)
    (hclean : ∀ s ∈ slots, s = zeroFrame ∨ s.Held) :
    (List.zipWith fill slots ws).countP (fun s => decide s.Held) + (slots.zip ws).countP missed =
      ws.length + (slots.zip ws).countP (fun q => missed q && decide q.1.Held) := by
  induction ws generalizing slots with
  | nil => simp
  | cons w ws ih =>
      cases slots with
      | nil => simp at hlen
      | cons s ss =>
          have hrest := ih ss (by simpa using hlen)
            (fun x hx => hsize x (List.mem_cons_of_mem _ hx))
            (fun x hx => hclean x (List.mem_cons_of_mem _ hx))
          have hfill := fill_held (hsize w List.mem_cons_self) (hclean s List.mem_cons_self)
          simp only [List.zipWith_cons_cons, List.zip_cons_cons, List.countP_cons, List.length_cons,
            decide_eq_true_eq, Bool.and_eq_true, hfill]
          cases hmissed : missed (s, w) with
          | false => simp; omega
          | true => by_cases hheld : s.Held <;> simp [hheld] <;> omega

theorem missed_held_zero (slots : List DataFrame) (ws : List (List UInt8)) :
    (slots.zip ws).countP (fun q => missed q && decide q.1.Held) = 0 ↔
      ∀ (i : Nat) (s : DataFrame) (w : List UInt8), slots[i]? = some s → ws[i]? = some w →
        s.Empty → s.Held → accepts w = true := by
  rw [countP_zip_eq_zero]
  constructor
  · intro h i s w hs hw hempty hheld
    simpa [missed, hempty, hheld] using h i s w hs hw
  · intro h i s w hs hw
    by_cases hempty : s.Empty
    · by_cases hheld : s.Held
      · simp [missed, h i s w hs hw hempty hheld]
      · simp [hheld]
    · simp [missed, hempty]

theorem Picture.slots_clean {p : Picture} (h : p.Clean) (nFrame : UInt16) :
    ∀ s ∈ p.slots nFrame, s = zeroFrame ∨ s.Held := by
  intro s hs
  unfold slots kept at hs
  split at hs
  case isTrue => exact .inl (List.eq_of_mem_replicate hs)
  case isFalse =>
      cases haddr : p.info.addr with
      | none =>
          rw [haddr] at hs
          exact .inl (List.eq_of_mem_replicate hs)
      | some old =>
          rw [haddr] at hs
          exact h s (by rw [haddr]; exact hs)

section Reception
variable {o : Options} {line : Line} {nFrame : UInt16} {p p' : Picture}

theorem Picture.receive_clean (hclean : p.Clean) (h : p.receive o line nFrame = .ok p') :
    p'.Clean := by
  obtain ⟨sum, slots', hrecv, hinfo, -⟩ := receive_ok h
  have hslots := slots_clean hclean nFrame
  unfold Clean
  rw [hinfo]
  cases hready : line.dataReady with
  | false =>
      rw [hready] at hrecv
      obtain ⟨-, rfl⟩ := Prod.mk.inj (Except.ok.inj hrecv)
      exact hslots
  | true =>
      rw [hready] at hrecv
      obtain ⟨hle, -, -, -⟩ := receiveDataFrames_slots hrecv
      rw [receiveDataFrames_ok hle] at hrecv
      obtain ⟨-, rfl⟩ := Prod.mk.inj (Except.ok.inj hrecv)
      intro s hs
      rcases List.mem_append.mp hs with hs | hs
      · obtain ⟨i, hi⟩ := List.mem_iff_getElem?.mp hs
        obtain ⟨s₀, w, hs₀, hw, rfl⟩ := List.getElem?_zipWith_eq_some.mp hi
        exact fill_clean (receivedWindows_size _ _ w (List.mem_of_getElem? hw))
          (hslots s₀ (List.mem_of_getElem? hs₀))
      · exact hslots s (List.mem_of_mem_drop hs)

/-- A reception that returns leaves an exact count exactly when it can be counted. -/
theorem Picture.receive_exact (hclean : p.Clean) (h : p.receive o line nFrame = .ok p') :
    p'.Exact ↔ p.Countable line nFrame := by
  obtain ⟨sum, slots', hrecv, hinfo, -⟩ := receive_ok h
  have hslots := slots_clean hclean nFrame
  simp only [Exact, heldCount, Countable, hinfo, Option.getD_some]
  cases hready : line.dataReady with
  | false =>
      rw [hready] at hrecv
      obtain ⟨rfl, rfl⟩ := Prod.mk.inj (Except.ok.inj hrecv)
      have hcount : ((p.slots nFrame).take nFrame.toNat).countP (fun s => decide s.Held) ≤
          nFrame.toNat :=
        List.countP_le_length.trans (List.length_take_le _ _)
      have hlen : (nFrame - UInt16.ofInt (-1)).toNat = (nFrame.toNat + 1) % 65536 := by
        rw [UInt16.toNat_sub]
        have : (UInt16.ofInt (-1)).toNat = 65535 := rfl
        omega
      have hlt := nFrame.toNat_lt
      have hmax : nFrame = 65535 ↔ nFrame.toNat = 65535 := UInt16.toNat_inj.symm
      have hzero : ((p.slots nFrame).take nFrame.toNat).countP (fun s => decide s.Held) = 0 ↔
          ∀ s ∈ (p.slots nFrame).take nFrame.toNat, ¬ s.Held := by simp [List.countP_eq_zero]
      rw [if_neg (by simp), hlen, hmax, ← hzero]
      omega
  | true =>
      rw [hready] at hrecv
      obtain ⟨hle, -, -, -⟩ := receiveDataFrames_slots hrecv
      rw [receiveDataFrames_ok hle] at hrecv
      obtain ⟨rfl, rfl⟩ := Prod.mk.inj (Except.ok.inj hrecv)
      have hwidth := receivedWindows_length nFrame line.reads
      have htake : (List.zipWith fill (p.slots nFrame) (receivedWindows nFrame line.reads) ++
          (p.slots nFrame).drop nFrame.toNat).take nFrame.toNat =
          List.zipWith fill (p.slots nFrame) (receivedWindows nFrame line.reads) := by
        apply List.take_left'
        rw [List.length_zipWith, hwidth, Nat.min_eq_right hle]
      have hcount := heldCount_zipWith (p.slots nFrame) (receivedWindows nFrame line.reads)
        (by rwa [hwidth]) (receivedWindows_size _ _) hslots
      have hmissed := countMissed_le (p.slots nFrame) nFrame line.reads
      have hlt := nFrame.toNat_lt
      have hsum : (UInt16.ofNat (countMissed (p.slots nFrame) nFrame line.reads)).toNat =
          countMissed (p.slots nFrame) nFrame line.reads := by
        rw [UInt16.toNat_ofNat', Nat.mod_eq_of_lt (by omega)]
      have hlen : (nFrame - UInt16.ofNat (countMissed (p.slots nFrame) nFrame line.reads)).toNat =
          nFrame.toNat - countMissed (p.slots nFrame) nFrame line.reads := by
        rw [UInt16.toNat_sub, hsum]
        omega
      rw [if_pos rfl, htake, hlen, ← missed_held_zero]
      rw [hwidth] at hcount
      unfold countMissed at hmissed ⊢
      omega

end Reception

/-! Runs. -/

def Slave.Clean (s : Slave) : Prop := ∀ k, (s.pictures k).Clean

/-- What the count of a file is for. -/
structure Slave.Reports (s : Slave) (k : Fin picturesNumberMax) : Prop where
  exact : (s.pictures k).Exact
  bounded : (s.pictures k).info.len ≤ (s.pictures k).info.totalLen
  reported : ∀ f : Frame, fileIndex f.nFile = some k →
    (s.queryReply f).nFrame.toNat = (s.pictures k).heldCount
  complete : (s.pictures k).info.len = (s.pictures k).info.totalLen ↔
    ∀ i : Nat, i < (s.pictures k).info.totalLen.toNat →
      ∃ slot, ((s.pictures k).info.addr.getD [])[i]? = some slot ∧ slot.Held

/-- Every SEND request that is accepted leaves its count exact. -/
def Slave.Countable (s : Slave) (e : Event) : Prop :=
  ∀ k nFrame, e.accepted = some (k, nFrame) → (s.pictures k).Countable e.line nFrame

theorem countP_take_eq_iff {α : Type} (q : α → Bool) (xs : List α) (n : Nat) :
    (xs.take n).countP q = n ↔ ∀ i : Nat, i < n → ∃ x, xs[i]? = some x ∧ q x = true := by
  constructor
  · intro h i hi
    have hle := List.countP_le_length (p := q) (l := xs.take n)
    rw [List.length_take] at hle
    have hlt : i < xs.length := by omega
    have hall := List.countP_eq_length.mp (h.trans (show n = (xs.take n).length by
      rw [List.length_take]; omega))
    exact ⟨xs[i], List.getElem?_eq_getElem hlt,
      hall _ (List.mem_of_getElem? (i := i) (by rw [List.getElem?_take_of_lt hi,
        List.getElem?_eq_getElem hlt]))⟩
  · intro h
    have hlen : n ≤ xs.length := by
      cases n with
      | zero => exact Nat.zero_le _
      | succ n =>
          obtain ⟨x, hx, -⟩ := h n (Nat.lt_succ_self n)
          exact (List.getElem?_eq_some_iff.mp hx).1
    have hall : ∀ x ∈ xs.take n, q x = true := by
      intro x hx
      obtain ⟨i, hi⟩ := List.mem_iff_getElem?.mp hx
      have hlt := (List.getElem?_eq_some_iff.mp hi).1
      rw [List.length_take] at hlt
      obtain ⟨y, hy, hq⟩ := h i (by omega)
      rw [List.getElem?_take_of_lt (by omega), hy] at hi
      exact Option.some.inj hi ▸ hq
    rw [List.countP_eq_length.mpr hall, List.length_take, Nat.min_eq_left hlen]

theorem Slave.reports_iff (s : Slave) (k : Fin picturesNumberMax) :
    s.Reports k ↔ (s.pictures k).Exact := by
  constructor
  · intro h
    exact h.exact
  · intro h
    refine ⟨h, ?_, ?_, ?_⟩
    · rw [UInt16.le_iff_toNat_le, h]
      exact List.countP_le_length.trans (List.length_take_le _ _)
    · intro f hf
      simp only [queryReply, hf]
      exact h
    · rw [← UInt16.toNat_inj, h, Picture.heldCount, countP_take_eq_iff]
      simp

theorem Slave.turn_clean {o : Options} {s s' : Slave} {e : Event} (h : s.Clean)
    (hturn : s.Turn o e s') : s'.Clean := by
  intro k
  rcases turn_picture hturn k with ⟨nFrame, -, hrecv⟩ | ⟨-, heq⟩
  · exact Picture.receive_clean (h k) hrecv
  · rw [heq]
    exact h k

theorem Slave.turn_reports {o : Options} {s s' : Slave} {e : Event} (hclean : s.Clean)
    (h : ∀ k, s.Reports k) (hturn : s.Turn o e s') : (∀ k, s'.Reports k) ↔ s.Countable e := by
  constructor
  · intro h' k nFrame hacc
    rcases turn_picture hturn k with ⟨n, hn, hrecv⟩ | ⟨hnone, -⟩
    · obtain ⟨-, rfl⟩ := Prod.mk.inj (Option.some.inj (hn.symm.trans hacc))
      exact (Picture.receive_exact (hclean k) hrecv).mp (h' k).exact
    · exact absurd hacc (hnone nFrame)
  · intro hcount k
    rw [reports_iff]
    rcases turn_picture hturn k with ⟨n, hn, hrecv⟩ | ⟨-, heq⟩
    · exact (Picture.receive_exact (hclean k) hrecv).mpr (hcount k n hn)
    · rw [heq]
      exact (h k).exact

theorem Slave.init_clean : init.Clean := by
  intro k s hs
  contradiction

theorem Slave.init_reports (k : Fin picturesNumberMax) : init.Reports k :=
  (reports_iff _ _).mpr rfl

/-- The bookkeeping of every file is exact after every turn of a run, as long as,
and only as long as, every reception can be counted. -/
theorem reports_throughout_iff (o : Options) {es : List Event} {s : Slave}
    (hrun : Run (Slave.Turn o) Slave.init es s) :
    Throughout (Slave.Turn o) (fun s => ∀ k, s.Reports k) Slave.init es ↔
      EveryStep (Slave.Turn o) Slave.Countable Slave.init es :=
  throughout_iff_everyStep Slave.turn_deterministic (fun _ _ _ => Slave.turn_clean)
    (fun _ _ _ => Slave.turn_reports) hrun Slave.init_clean Slave.init_reports

/-- One frame is announced, and it arrives. -/
theorem reports_throughout_one : ∃ s,
    Run (Slave.Turn dryRun) Slave.init [.ofFrame (sendRequest 0 1) (oneLine 7)] s ∧
      (s.pictures 0).info.len = 1 ∧
      Throughout (Slave.Turn dryRun) (fun s => ∀ k, s.Reports k) Slave.init
        [.ofFrame (sendRequest 0 1) (oneLine 7)] := by
  obtain ⟨s, hturn, hpictures⟩ :=
    Slave.turn_oneLine (o := dryRun) (s := Slave.init) (k := 0) 7 rfl (.inl rfl)
  have hrun : Run (Slave.Turn dryRun) Slave.init [.ofFrame (sendRequest 0 1) (oneLine 7)] s :=
    .cons hturn (.nil s)
  refine ⟨s, hrun, ?_, (reports_throughout_iff dryRun hrun).mpr ?_⟩
  · rw [hpictures, Function.update_self]
  · rw [everyStep_cons]
    refine ⟨?_, fun _ _ => everyStep_nil⟩
    intro k nFrame hacc i slot w hslot _ _ hheld
    rw [Event.ofFrame_accepted (k := 0) 1 (oneLine 7) rfl rfl] at hacc
    obtain ⟨rfl, rfl⟩ := Prod.mk.inj (Option.some.inj hacc)
    obtain rfl := List.eq_of_mem_replicate (List.mem_of_getElem? hslot)
    exact absurd hheld zeroFrame_not_held

/-- The wait for one announced frame times out, and two are counted. -/
theorem reports_after_timeout :
    ∃ s, Run (Slave.Turn dryRun) Slave.init
        [.ofFrame (sendRequest 0 1) { dataReady := false }] s ∧
      (s.pictures 0).info.len = 2 ∧ (s.pictures 0).info.totalLen = 1 ∧ ¬ s.Reports 0 := by
  have hrecv : (Slave.init.pictures 0).receive dryRun { dataReady := false } 1 =
      .ok ⟨{}, { addr := some [zeroFrame], len := 2, totalLen := 1 }⟩ := rfl
  have hindex : fileIndex 0 = some 0 := rfl
  obtain ⟨s, hturn, hpictures⟩ := Slave.turn_sendRequest hindex rfl hrecv
  have hzero : s.pictures 0 = ⟨{}, { addr := some [zeroFrame], len := 2, totalLen := 1 }⟩ := by
    rw [hpictures, Function.update_self]
  refine ⟨s, .cons hturn (.nil s), by rw [hzero], by rw [hzero], ?_⟩
  intro h
  have hle := h.bounded
  rw [hzero] at hle
  contradiction

end Soc
