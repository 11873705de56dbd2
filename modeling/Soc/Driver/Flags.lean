import Soc.Driver.Batches
import Soc.Driver.Completion

/-!
The flags by which the bare-metal driver tells the interrupt of a last burst.

A batch sets its flag in the block for a last burst that is shorter than the others,
and before that burst is programmed. Without such a burst the flag is not set at all;
with one it is up when an interrupt of an earlier burst may still come.
-/
namespace Soc
open Loops

/-- `ps_conf_done`, `pl_conf_done`, `ps_transfer_done` and `pl_transfer_done` -/
structure Flags where
  psConfDone : Bool
  plConfDone : Bool
  psTransferDone : Bool
  plTransferDone : Bool
  deriving DecidableEq

/-- What `init_axi` leaves. -/
def Flags.init : Flags :=
  { psConfDone := false, plConfDone := false, psTransferDone := false, plTransferDone := false }

/-- `interrupt_handler` -/
def interruptHandler (s : Flags) : Interrupt → Flags
  | .s2mmPsDone => if s.plConfDone then { s with plTransferDone := true } else s
  | .reqDataDone => if s.psConfDone then { s with psTransferDone := true } else s
  | _ => s

/-- The three batches. -/
inductive Batch where
  /-- `batch_mm2s_ps_data_tangxi` -/
  | mm2sPsDataTangxi
  /-- `batch_mm2s_ps_data_s2mm_pl` -/
  | mm2sPsDataS2mmPl
  /-- `batch_s2mm_ps_data_mm2s_pl` -/
  | s2mmPsDataMm2sPl
  deriving DecidableEq

inductive BatchAction (γ : Type) where
  /-- The flag is set. -/
  | confDone
  | program (b : γ)

/-- What happens while a batch runs: its own actions, and interrupts. -/
inductive BatchStep (γ : Type) where
  | act (a : BatchAction γ)
  | interrupt (irq : Interrupt)

/-- The flag is set before the burst is programmed. -/
def BatchTurn.actions {γ : Type} (t : BatchTurn γ) : List (BatchAction γ) :=
  if t.confDone then [.confDone, .program t.burst] else [.program t.burst]

def BatchStep.action {γ : Type} : BatchStep γ → Option (BatchAction γ)
  | act a => some a
  | interrupt _ => none

namespace Batch

def Registers : Batch → Type
  | mm2sPsDataTangxi => ChipBurst
  | mm2sPsDataS2mmPl => Burst
  | s2mmPsDataMm2sPl => Burst

def loop (axiArgs : AxiTangxiArgs) : (batch : Batch) → BatchLoop batch.Registers
  | mm2sPsDataTangxi => batchMm2sPsDataTangxi axiArgs
  | mm2sPsDataS2mmPl => batchMm2sPsDataS2mmPl axiArgs
  | s2mmPsDataMm2sPl => batchS2mmPsDataMm2sPl axiArgs

def dataSize (axiArgs : AxiTangxiArgs) : Batch → Int32
  | mm2sPsDataTangxi => axiArgs.txDataSize
  | mm2sPsDataS2mmPl => axiArgs.txDataSize
  | s2mmPsDataMm2sPl => axiArgs.rxDataSize

def setConfDone (s : Flags) : Batch → Flags
  | mm2sPsDataTangxi => { s with psConfDone := true }
  | mm2sPsDataS2mmPl => { s with plConfDone := true }
  | s2mmPsDataMm2sPl => { s with plConfDone := true }

def confDone (s : Flags) : Batch → Bool
  | mm2sPsDataTangxi => s.psConfDone
  | mm2sPsDataS2mmPl => s.plConfDone
  | s2mmPsDataMm2sPl => s.plConfDone

def transferDone (s : Flags) : Batch → Bool
  | mm2sPsDataTangxi => s.psTransferDone
  | mm2sPsDataS2mmPl => s.plTransferDone
  | s2mmPsDataMm2sPl => s.plTransferDone

/-- The interrupt of a burst of the batch. -/
def irq : Batch → Interrupt
  | mm2sPsDataTangxi => .reqDataDone
  | mm2sPsDataS2mmPl => .s2mmPlDone
  | s2mmPsDataMm2sPl => .s2mmPsDone

variable (batch : Batch)

def step {γ : Type} (s : Flags) : BatchStep γ → Flags
  | .act .confDone => batch.setConfDone s
  | .act (.program _) => s
  | .interrupt irq => interruptHandler s irq

def run {γ : Type} (s : Flags) (steps : List (BatchStep γ)) : Flags := steps.foldl batch.step s

/-- The batch returns after these actions. -/
def Acts (axiArgs : AxiTangxiArgs) (actions : List (BatchAction batch.Registers)) : Prop :=
  ∃ n, Ends BatchLoop.turn n (batch.loop axiArgs) ∧
    actions = (outputs BatchLoop.turn n (batch.loop axiArgs)).flatMap BatchTurn.actions

variable {batch} (actions : List (BatchAction batch.Registers))

/-- The flag is up when the batch returns. -/
def Returned : Prop := batch.confDone (batch.run .init (actions.map .act)) = true

/-- No burst is programmed after the flag is set. -/
def Ordered : Prop :=
  ∀ before after, actions = before ++ .confDone :: after → ∀ b, .program b ∉ after

/-- Whatever interrupts come meanwhile, that of the last burst ends the transfer. -/
def Signalled : Prop :=
  ∀ steps, steps.filterMap BatchStep.action = actions →
    batch.transferDone (interruptHandler (batch.run .init steps) batch.irq) = true

/-- Whatever interrupts come before the last burst is programmed, none ends the transfer. -/
def Unsignalled : Prop :=
  ∀ before b after, (before ++ .act (.program b) :: after).filterMap BatchStep.action = actions →
    (∀ b', .act (.program b') ∉ after) → batch.transferDone (batch.run .init before) = false

variable (batch)

/-- The flag marks the last burst. -/
def Marks (axiArgs : AxiTangxiArgs) : Prop :=
  ∃ actions, batch.Acts axiArgs actions ∧ Returned actions ∧ Ordered actions ∧
    Signalled actions ∧ Unsignalled actions

end Batch

namespace BatchLoop
variable {γ : Type}

/-- A batch is a number of full bursts and, where they leave something, a last one with the
flag set before it. -/
theorem turns_spec {j : BatchLoop γ} (h : j.locals.burstData ≠ 0) :
    ∃ n, ∃ bursts : List γ, Ends turn n j ∧
      (j.locals.burstData.toNat ∣ j.locals.dataRemaining.toNat ∧
          (outputs turn n j).flatMap BatchTurn.actions = bursts.map .program ∨
        ¬ j.locals.burstData.toNat ∣ j.locals.dataRemaining.toNat ∧
          ∃ b, (outputs turn n j).flatMap BatchTurn.actions =
            bursts.map .program ++ [.confDone, .program b]) := by
  generalize hr : j.locals.dataRemaining.toNat = r
  induction r using Nat.strong_induction_on generalizing j with
  | _ r ih =>
      have hpos := Nat.pos_of_ne_zero (mt toNat_eq_zero.mp h)
      by_cases hdone : j.locals.dataRemaining = 0
      · refine ⟨0, [], turn_done hdone, .inl ⟨?_, rfl⟩⟩
        rw [← hr, hdone]
        exact Nat.dvd_zero _
      · have hr0 := mt toNat_eq_zero.mp hdone
        have hturn := turn_more hdone
        by_cases hlt : j.locals.dataRemaining < j.locals.burstData
        · have hlt' := UInt32.lt_iff_toNat_lt.mp hlt
          have hnext : j.next.turn = none := turn_done (next_done (UInt32.le_of_lt hlt))
          have hnot : ¬ j.locals.burstData.toNat ∣ r :=
            Nat.not_dvd_of_pos_of_lt (by omega) (by omega)
          refine ⟨1, [], ⟨_, hturn, hnext⟩, .inr ⟨hnot, ?_⟩⟩
          rw [outputs_succ hturn, List.flatMap_cons, BatchTurn.actions, if_pos (decide_eq_true hlt)]
          exact ⟨_, rfl⟩
        · have hle := UInt32.not_lt.mp hlt
          have hle' := UInt32.le_iff_toNat_le.mp hle
          have hrest : j.next.locals.dataRemaining.toNat = r - j.locals.burstData.toNat := by
            rw [next_full hle, ← hr]
            exact UInt32.toNat_sub_of_le _ _ hle
          have hdata : j.next.locals.burstData = j.locals.burstData := by rw [next_full hle]
          obtain ⟨n, bursts, hends, hactions⟩ := ih _ (by omega) (hdata ▸ h) hrest
          rw [hdata, Nat.dvd_sub_iff_left (by omega) (Nat.dvd_refl _)] at hactions
          let l := j.locals.last
          refine ⟨n + 1, j.program l.psNext l.plNext l.burstSize :: bursts, ⟨_, hturn, hends⟩, ?_⟩
          rw [outputs_succ hturn, List.flatMap_cons, BatchTurn.actions,
            if_neg (mt of_decide_eq_true hlt), List.map_cons]
          refine hactions.imp (And.imp_right fun hwhole => ?_) (And.imp_right fun ⟨b, hpart⟩ => ?_)
          · rw [hwhole]
            rfl
          · rw [hpart]
            exact ⟨b, rfl⟩

end BatchLoop

namespace Batch
variable {batch : Batch} {γ : Type}

theorem confDone_setConfDone (s : Flags) : batch.confDone (batch.setConfDone s) = true := by
  cases batch <;> rfl

theorem confDone_interruptHandler (s : Flags) (irq : Interrupt) :
    batch.confDone (interruptHandler s irq) = batch.confDone s := by
  cases irq <;> cases batch <;> simp only [interruptHandler, confDone] <;> split <;> rfl

/-- Only its own action sets the flag of a batch, and nothing takes it down. -/
theorem confDone_run (steps : List (BatchStep γ)) (s : Flags) :
    batch.confDone (batch.run s steps) = true ↔
      batch.confDone s = true ∨ .act .confDone ∈ steps := by
  induction steps generalizing s with
  | nil => simp [run]
  | cons x steps ih =>
      rw [run, List.foldl_cons, ← run, ih]
      match x with
      | .act .confDone => simp [step, confDone_setConfDone]
      | .act (.program b) => simp [step]
      | .interrupt irq => simp [step, confDone_interruptHandler]

/-- Without the flag no interrupt does anything. -/
theorem run_quiet {steps : List (BatchStep γ)} (h : .act .confDone ∉ steps) :
    batch.run .init steps = .init := by
  induction steps with
  | nil => rfl
  | cons x steps ih =>
      have hrest := ih (List.not_mem_of_not_mem_cons h)
      match x with
      | .act .confDone => exact absurd List.mem_cons_self h
      | .act (.program b) => exact hrest
      | .interrupt irq => cases irq <;> exact hrest

theorem mem_actions {steps : List (BatchStep γ)} {a : BatchAction γ} :
    a ∈ steps.filterMap BatchStep.action ↔ .act a ∈ steps := by
  rw [List.mem_filterMap]
  constructor
  · intro ⟨x, hx, ha⟩
    match x with
    | .act a' =>
        obtain rfl := Option.some.inj ha
        exact hx
    | .interrupt irq => contradiction
  · intro h
    exact ⟨_, h, rfl⟩

theorem filterMap_act (actions : List (BatchAction γ)) :
    (actions.map BatchStep.act).filterMap BatchStep.action = actions := by
  rw [List.filterMap_map]
  exact List.filterMap_some

theorem transferDone_acts (actions : List (BatchAction γ)) (s : Flags) :
    batch.transferDone (batch.run s (actions.map .act)) = batch.transferDone s := by
  induction actions generalizing s with
  | nil => rfl
  | cons a actions ih =>
      rw [List.map_cons, run, List.foldl_cons, ← run, ih]
      cases a with
      | confDone => cases batch <;> rfl
      | program b => rfl

theorem mem_map_act {actions : List (BatchAction γ)} {a : BatchAction γ} :
    .act a ∈ actions.map BatchStep.act ↔ a ∈ actions := by
  rw [← mem_actions, filterMap_act]

variable {actions : List (BatchAction batch.Registers)}

theorem returned_iff : Returned actions ↔ .confDone ∈ actions := by
  have hinit : batch.confDone .init = false := by cases batch <;> rfl
  rw [Returned, confDone_run, mem_map_act, hinit, or_iff_right Bool.false_ne_true]

/-- The interrupt of the batch ends a transfer that is marked, if it is handled at all. -/
theorem irq_transferDone {s : Flags} (h : batch.confDone s = true)
    (hhandled : batch ≠ .mm2sPsDataS2mmPl) :
    batch.transferDone (interruptHandler s batch.irq) = true := by
  cases batch with
  | mm2sPsDataTangxi => exact congrArg Flags.psTransferDone (if_pos h)
  | mm2sPsDataS2mmPl => contradiction
  | s2mmPsDataMm2sPl => exact congrArg Flags.plTransferDone (if_pos h)

theorem signalled_iff :
    Signalled actions ↔ .confDone ∈ actions ∧ batch ≠ .mm2sPsDataS2mmPl := by
  constructor
  · intro h
    have hlast := h _ (filterMap_act actions)
    constructor
    · refine by_contra fun hnot => ?_
      rw [run_quiet (mt mem_map_act.mp hnot)] at hlast
      cases batch <;> contradiction
    · rintro rfl
      -- `S2MM_PL_DONE` is only printed
      have hsame : mm2sPsDataS2mmPl.transferDone (run _ .init (actions.map .act)) = false :=
        transferDone_acts actions .init
      exact Bool.false_ne_true (hsame.symm.trans hlast)
  · intro ⟨hmem, hhandled⟩ steps hsteps
    refine irq_transferDone (confDone_run steps _ |>.mpr (.inr ?_)) hhandled
    rwa [← mem_actions, hsteps]

theorem unsignalled_of_not_mem (h : .confDone ∉ actions) : Unsignalled actions := by
  intro before b after hactions _
  have hquiet : .act .confDone ∉ before := by
    intro hmem
    refine h (hactions ▸ mem_actions.mpr ?_)
    exact List.mem_append_left _ hmem
  rw [run_quiet hquiet]
  cases batch <;> rfl

/-- An interrupt that is handled under the flag of a batch. -/
def handled : Batch → Interrupt
  | mm2sPsDataTangxi => .reqDataDone
  | mm2sPsDataS2mmPl => .s2mmPsDone
  | s2mmPsDataMm2sPl => .s2mmPsDone

theorem handled_transferDone {s : Flags} (h : batch.confDone s = true) :
    batch.transferDone (interruptHandler s batch.handled) = true := by
  cases batch with
  | mm2sPsDataTangxi => exact congrArg Flags.psTransferDone (if_pos h)
  | mm2sPsDataS2mmPl => exact congrArg Flags.plTransferDone (if_pos h)
  | s2mmPsDataMm2sPl => exact congrArg Flags.plTransferDone (if_pos h)

/-- Between the flag and the last burst there is room for an interrupt. -/
theorem not_unsignalled (bursts : List batch.Registers) (b : batch.Registers) :
    ¬ Unsignalled (bursts.map .program ++ [.confDone, .program b]) := by
  intro h
  let flagged := (bursts.map BatchAction.program ++ [BatchAction.confDone]).map BatchStep.act
  have hflag : batch.confDone (batch.run .init flagged) = true := by
    refine (confDone_run _ _).mpr (.inr (mem_map_act.mpr ?_))
    exact List.mem_append_right _ List.mem_cons_self
  have hearly := h (flagged ++ [.interrupt batch.handled]) b [] ?_ (fun _ => List.not_mem_nil)
  · rw [run, List.foldl_append, ← run] at hearly
    exact Bool.false_ne_true (hearly.symm.trans (handled_transferDone hflag))
  · rw [List.filterMap_append, List.filterMap_append, filterMap_act, List.append_assoc,
      List.append_assoc]
    rfl

theorem ordered_of_not_mem (h : .confDone ∉ actions) : Ordered actions := by
  intro before after hactions
  refine absurd ?_ h
  rw [hactions]
  exact List.mem_append_right _ List.mem_cons_self

theorem not_ordered (bursts : List batch.Registers) (b : batch.Registers) :
    ¬ Ordered (bursts.map .program ++ [.confDone, .program b]) := by
  intro h
  exact h _ [.program b] rfl b List.mem_cons_self

/-- What a batch with and without a short burst at its end comes to. -/
theorem parts_of_shape {whole : Prop} {bursts : List batch.Registers}
    (hshape : whole ∧ actions = bursts.map .program ∨
      ¬ whole ∧ ∃ b, actions = bursts.map .program ++ [.confDone, .program b]) :
    (Returned actions ↔ ¬ whole) ∧ (Ordered actions ↔ whole) ∧
      (Signalled actions ↔ ¬ whole ∧ batch ≠ .mm2sPsDataS2mmPl) ∧
      (Unsignalled actions ↔ whole) := by
  rw [returned_iff, signalled_iff]
  rcases hshape with ⟨hwhole, rfl⟩ | ⟨hpart, b, rfl⟩
  · have hnot : BatchAction.confDone ∉ bursts.map BatchAction.program := by simp
    have hflag := not_not_intro hwhole
    exact ⟨iff_of_false hnot hflag, iff_of_true (ordered_of_not_mem hnot) hwhole,
      iff_of_false (fun h => hnot h.1) (fun h => hflag h.1),
      iff_of_true (unsignalled_of_not_mem hnot) hwhole⟩
  · have hmem : .confDone ∈ bursts.map BatchAction.program ++ [.confDone, .program b] :=
      List.mem_append_right _ List.mem_cons_self
    exact ⟨iff_of_true hmem hpart, iff_of_false (not_ordered bursts b) hpart,
      and_congr_left' (iff_of_true hmem hpart), iff_of_false (not_unsignalled bursts b) hpart⟩

theorem Acts.unique {axiArgs : AxiTangxiArgs} {actions' : List (BatchAction batch.Registers)}
    (h : batch.Acts axiArgs actions) (h' : batch.Acts axiArgs actions') : actions = actions' := by
  obtain ⟨n, hends, rfl⟩ := h
  obtain ⟨n', hends', rfl⟩ := h'
  rw [hends.unique hends']

variable (batch) {axiArgs : AxiTangxiArgs}

theorem loop_size : (batch.loop axiArgs).locals.dataRemaining =
    (batch.dataSize axiArgs).toUInt32 := by
  cases batch <;> rfl

theorem loop_burstData :
    (batch.loop axiArgs).locals.burstData = axiArgs.burstData.toUInt32 := by
  cases batch <;> rfl

/-- The size is a multiple of a burst. -/
def Whole (axiArgs : AxiTangxiArgs) : Prop :=
  axiArgs.burstData.toInt ∣ (batch.dataSize axiArgs).toInt

theorem acts_parts (hsize : 0 < (batch.dataSize axiArgs).toInt)
    (hdata : 0 < axiArgs.burstData.toInt) :
    ∃ actions, batch.Acts axiArgs actions ∧ (Returned actions ↔ ¬ batch.Whole axiArgs) ∧
      (Ordered actions ↔ batch.Whole axiArgs) ∧
      (Signalled actions ↔ ¬ batch.Whole axiArgs ∧ batch ≠ .mm2sPsDataS2mmPl) ∧
      (Unsignalled actions ↔ batch.Whole axiArgs) := by
  have hwhole : (batch.loop axiArgs).locals.burstData.toNat ∣
      (batch.loop axiArgs).locals.dataRemaining.toNat ↔ batch.Whole axiArgs := by
    rw [Whole, loop_size, loop_burstData, toNat_of_nonneg (by omega),
      toNat_of_nonneg (by omega), ← Int.natCast_dvd_natCast, Int.toNat_of_nonneg (by omega),
      Int.toNat_of_nonneg (by omega)]
  have hpos : (batch.loop axiArgs).locals.burstData ≠ 0 := by
    rw [Ne, ← toNat_eq_zero, loop_burstData, toNat_of_nonneg (by omega)]
    omega
  obtain ⟨n, bursts, hends, hshape⟩ := BatchLoop.turns_spec hpos
  rw [hwhole] at hshape
  exact ⟨_, ⟨n, hends, rfl⟩, parts_of_shape hshape⟩

theorem not_marks (hsize : 0 < (batch.dataSize axiArgs).toInt)
    (hdata : 0 < axiArgs.burstData.toInt) : ¬ batch.Marks axiArgs := by
  intro ⟨actions, hacts, hreturned, hordered, _⟩
  obtain ⟨actions', hacts', hreturns, horders, _⟩ := batch.acts_parts hsize hdata
  obtain rfl := hacts.unique hacts'
  exact hreturns.mp hreturned (horders.mp hordered)

end Batch

/-- No batch marks its last burst. It returns, with the flag up if the size is no multiple of
a burst; and the flag is not up too soon if it is one. -/
theorem flags_never_mark (batch : Batch) {axiArgs : AxiTangxiArgs}
    (hsize : 0 < (batch.dataSize axiArgs).toInt) (hdata : 0 < axiArgs.burstData.toInt) :
    ¬ batch.Marks axiArgs ∧
      ∃ actions, batch.Acts axiArgs actions ∧
        (Batch.Returned actions ↔ ¬ batch.Whole axiArgs) ∧
        (Batch.Ordered actions ↔ batch.Whole axiArgs) ∧
        (Batch.Signalled actions ↔ ¬ batch.Whole axiArgs ∧ batch ≠ .mm2sPsDataS2mmPl) ∧
        (Batch.Unsignalled actions ↔ batch.Whole axiArgs) :=
  ⟨batch.not_marks hsize hdata, batch.acts_parts hsize hdata⟩

theorem flags_never_mark_picture :
    ¬ Batch.mm2sPsDataS2mmPl.Marks (pictureArgs 0x100001) :=
  (flags_never_mark .mm2sPsDataS2mmPl (by decide) (by decide)).1

/-- A picture is a whole burst, and its flag stays down. -/
theorem flags_missed : ¬ Batch.mm2sPsDataS2mmPl.Marks (pictureArgs 0x100000) :=
  Batch.not_marks _ (by decide) (by decide)

end Soc
