import Soc.Protocol.Slave

/-!
How many slots a reception has.

The block of a file is allocated for the number of frames of the SEND request
that opens it, and stays until the file is processed. Later requests may announce
more frames than the block has slots for.
-/
namespace Soc
open Runs

/-- A slave together with the number of frames each block was opened for. -/
structure Opened where
  slave : Slave
  opened : Fin picturesNumberMax → Option UInt16

def Opened.init : Opened := ⟨Slave.init, fun _ => none⟩

/-- A SEND request for a file that is processed, or has no block, opens a block. -/
def Opened.Opens (t : Opened) (k : Fin picturesNumberMax) : Prop :=
  (t.slave.pictures k).status = statusProcessed ∨ t.opened k = none

instance (t : Opened) (k : Fin picturesNumberMax) : Decidable (t.Opens k) :=
  inferInstanceAs (Decidable (_ ∨ _))

def Opened.next (t : Opened) (e : Event) : Fin picturesNumberMax → Option UInt16 :=
  match e.accepted with
  | none => t.opened
  | some (k, nFrame) =>
    if t.Opens k then Function.update t.opened k (some nFrame) else t.opened

def Opened.Turn (o : Options) (t : Opened) (e : Event) (t' : Opened) : Prop :=
  t.slave.Turn o e t'.slave ∧ t'.opened = t.next e

/-- The slots the reception of `nFrame` frames is called with. -/
def Opened.slots (t : Opened) (k : Fin picturesNumberMax) (nFrame : UInt16) : List DataFrame :=
  (t.slave.pictures k).slots nFrame

/-- A request that opens a block, or stays within the one that is there. -/
def Opened.Within (t : Opened) (k : Fin picturesNumberMax) (nFrame : UInt16) : Prop :=
  t.Opens k ∨ ∃ m, t.opened k = some m ∧ nFrame ≤ m

/-- Every block has the slots it was opened for. -/
def Opened.Sized (t : Opened) : Prop :=
  ∀ k, (t.slave.pictures k).info.addr.map List.length = (t.opened k).map UInt16.toNat

theorem Opened.slots_length {t : Opened} (h : t.Sized) (k : Fin picturesNumberMax)
    (nFrame : UInt16) : (t.slots k nFrame).length =
      if t.Opens k then nFrame.toNat else ((t.opened k).getD 0).toNat := by
  have hk := h k
  unfold slots Picture.slots Picture.kept Opens
  simp only [Picture.status_processed]
  by_cases hlen : 0 < (t.slave.pictures k).bitStream.len
  · simp [hlen]
  · cases haddr : (t.slave.pictures k).info.addr with
    | none =>
        rw [haddr, Option.map_none] at hk
        simp [hlen, Option.map_eq_none_iff.mp hk.symm]
    | some slots =>
        rw [haddr, Option.map_some] at hk
        obtain ⟨m, hm, hslots⟩ := Option.map_eq_some_iff.mp hk.symm
        simp [hlen, hm, hslots]

/-- A turn keeps the sizes known. -/
theorem Opened.turn_sized {o : Options} {t t' : Opened} {e : Event} (h : t.Sized)
    (hturn : t.Turn o e t') : t'.Sized := by
  obtain ⟨hslave, hopened⟩ := hturn
  intro k
  rw [hopened, next]
  rcases Slave.turn_picture hslave k with ⟨nFrame, hacc, hrecv⟩ | ⟨hother, hsame⟩
  · obtain ⟨⟨slots', haddr, hlen⟩, -⟩ := Picture.receive_cases hrecv
    have hslots := slots_length h k nFrame
    rw [slots, ← hlen] at hslots
    rw [hacc, haddr, Option.map_some, hslots]
    by_cases hopens : t.Opens k
    · simp only [if_pos hopens, Function.update_self, Option.map_some]
    · simp only [if_neg hopens]
      cases hm : t.opened k with
      | none => exact absurd (.inr hm) hopens
      | some m => rfl
  · rw [hsame]
    cases hacc : e.accepted with
    | none => exact h k
    | some a =>
        obtain ⟨k', nFrame⟩ := a
        have hne : k ≠ k' := by
          rintro rfl
          exact hother nFrame hacc
        simp only
        split
        · rw [Function.update_of_ne hne]
          exact h k
        · exact h k

theorem Opened.sized_of_run {o : Options} {es : List Event} {t : Opened}
    (hrun : Run (Opened.Turn o) Opened.init es t) : t.Sized := by
  have hinit : Opened.init.Sized := fun _ => rfl
  exact Run.invariant (P := Sized) (fun _ _ _ => turn_sized) hrun hinit

/-- The slots suffice exactly when the request stays within its block. -/
theorem Opened.within_iff {t : Opened} (h : t.Sized) (k : Fin picturesNumberMax)
    (nFrame : UInt16) : nFrame.toNat ≤ (t.slots k nFrame).length ↔ t.Within k nFrame := by
  rw [slots_length h, Within]
  by_cases hopens : t.Opens k
  · simp [hopens]
  · rw [if_neg hopens]
    cases hm : t.opened k with
    | none => exact absurd (.inr hm) hopens
    | some m => simp [hopens, UInt16.le_iff_toNat_le]

/-- Past its block a reception that reads at all leaves it. -/
theorem Opened.turn_outside {o : Options} {t : Opened} {e : Event}
    {k : Fin picturesNumberMax} {nFrame : UInt16} (hacc : e.accepted = some (k, nFrame))
    (hready : e.line.dataReady = true) (hshort : (t.slots k nFrame).length < nFrame.toNat) :
    t.slave.turn o e = .error .outOfBounds := by
  obtain ⟨outputFrame, hturn⟩ := Slave.turn_accepted o t.slave hacc
  have hkept : (t.slave.pictures k).kept.isSome := by
    rw [slots, Picture.slots] at hshort
    cases hkept : (t.slave.pictures k).kept with
    | none => simp [hkept] at hshort
    | some slots => rfl
  have hfault := receiveDataFrames_short hshort e.line.reads
  rw [slots] at hfault
  rw [hturn, Picture.receive, Picture.prepare_kept hkept, ok_bind, hready, hfault, error_bind,
    error_bind]

/-- In every state a run reaches, the slots of a file suffice for the next SEND
request exactly when that request opens a block or announces no more frames than
the request that opened it. Then no slot outside the block is touched; otherwise
reading the frames touches one. -/
theorem slots_suffice_iff (o : Options) {es : List Event} {t : Opened}
    (hrun : Run (Opened.Turn o) Opened.init es t) {e : Event} {k : Fin picturesNumberMax}
    {nFrame : UInt16} (hacc : e.accepted = some (k, nFrame)) :
    (nFrame.toNat ≤ (t.slots k nFrame).length ↔ t.Within k nFrame) ∧
      (t.Within k nFrame → ∃ sum slots',
        receiveDataFrames e.line.dataReady e.line.reads (t.slots k nFrame) nFrame =
            .ok (sum, slots') ∧
          slots'.length = (t.slots k nFrame).length ∧
          (slots'.take nFrame.toNat).length = nFrame.toNat) ∧
      (¬ t.Within k nFrame → e.line.dataReady = true →
        t.slave.turn o e = .error .outOfBounds) := by
  have hsized := Opened.sized_of_run hrun
  have hiff := Opened.within_iff hsized k nFrame
  refine ⟨hiff, ?_, ?_⟩
  · intro hwithin
    exact receiveDataFrames_inside (hiff.mpr hwithin) e.line.dataReady e.line.reads
  · intro hoff hready
    exact Opened.turn_outside hacc hready (Nat.not_le.mp (fun hle => hoff (hiff.mp hle)))

/-- One frame is announced and none comes. -/
theorem slots_reached :
    ∃ t, Run (Opened.Turn dryRun) Opened.init [.ofFrame (sendRequest 0 1) {}] t ∧
      t.opened 0 = some 1 ∧ t.slots 0 2 = [zeroFrame] := by
  have hrecv : (Slave.init.pictures 0).receive dryRun {} 1 =
      .ok ⟨{}, { addr := some [zeroFrame], len := 0, totalLen := 1 }⟩ := rfl
  have hzero : fileIndex 0 = some 0 := rfl
  obtain ⟨s, hturn, hpictures⟩ := Slave.turn_sendRequest (k := 0) hzero rfl hrecv
  have hopens : Opened.init.Opens 0 := .inr rfl
  have hacc := Event.ofFrame_accepted 1 {} hzero rfl
  have hstep : Opened.init.Turn dryRun (.ofFrame (sendRequest 0 1) {})
      ⟨s, Opened.init.next (.ofFrame (sendRequest 0 1) {})⟩ := ⟨hturn, rfl⟩
  refine ⟨_, .cons hstep (.nil _), ?_, ?_⟩
  · simp only [Opened.next, hacc, if_pos hopens, Function.update_self]
  · simp only [Opened.slots, hpictures, Function.update_self]
    rfl

/-- The request is repeated. -/
theorem slots_suffice_repeated :
    ∃ t, Run (Opened.Turn dryRun) Opened.init [.ofFrame (sendRequest 0 1) {}] t ∧
      1 ≤ (t.slots 0 1).length := by
  obtain ⟨t, hrun, hopened, -⟩ := slots_reached
  have hacc := Event.ofFrame_accepted (k := 0) 1 {} (show fileIndex 0 = some 0 from rfl) rfl
  exact ⟨t, hrun, (slots_suffice_iff dryRun hrun hacc).1.mpr (.inr ⟨1, hopened, by decide⟩)⟩

/-- Two frames are announced then, to a block of one slot. -/
theorem slots_overflow :
    ∃ t, Run (Opened.Turn dryRun) Opened.init [.ofFrame (sendRequest 0 1) {}] t ∧
      (Event.ofFrame (sendRequest 0 2) {}).accepted = some (0, 2) ∧ (t.slots 0 2).length = 1 ∧
      t.slave.turn dryRun (.ofFrame (sendRequest 0 2) {}) = .error .outOfBounds := by
  obtain ⟨t, hrun, -, hslots⟩ := slots_reached
  have hacc := Event.ofFrame_accepted (k := 0) 2 {} (show fileIndex 0 = some 0 from rfl) rfl
  have hlen : (t.slots 0 2).length = 1 := by rw [hslots, List.length_singleton]
  refine ⟨t, hrun, hacc, hlen, ?_⟩
  exact Opened.turn_outside hacc rfl (by rw [hlen]; decide)

end Soc
