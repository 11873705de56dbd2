import Soc.Foundation.Clocked
import Soc.Hardware.Line

/-!
The transmitter `uart_tx`.

All registers change at one clock edge, from their values before it. Where the line is in
the frame that is sent, and in which state the registers then are, is the invariant; the
pin follows the line one clock later.
-/
namespace Soc
open Clocked

inductive TxState where
  | idle
  | start
  | sendByte
  | stop
  deriving DecidableEq

structure TxInput where
  txData : BitVec bits
  txDataValid : Bool

structure UartTx where
  state : TxState
  cycleCnt : BitVec 16
  bitCnt : BitVec 3
  txDataLatch : BitVec bits
  txDataReady : Bool
  txReg : Bool

variable {time : BitTime}

namespace UartTx

/-- `rst_n` is low. -/
def reset : UartTx :=
  { state := .idle, cycleCnt := 0, bitCnt := 0, txDataLatch := 0, txDataReady := false,
    txReg := true }

def nextState (time : BitTime) (tx : UartTx) (i : TxInput) : TxState :=
  match tx.state with
  | .idle => if i.txDataValid then .start else .idle
  | .start => if tx.cycleCnt.toNat = time.cycles - 1 then .sendByte else .start
  | .sendByte =>
    if tx.cycleCnt.toNat = time.cycles - 1 ∧ tx.bitCnt.toNat = bits - 1 then .stop else .sendByte
  | .stop => if tx.cycleCnt.toNat = time.cycles - 1 then .idle else .stop

def clock (time : BitTime) (tx : UartTx) (i : TxInput) : UartTx :=
  let next := tx.nextState time i
  { state := next
    cycleCnt :=
      if next ≠ tx.state ∨ tx.state = .sendByte ∧ tx.cycleCnt.toNat = time.cycles - 1 then 0
      else tx.cycleCnt + 1
    bitCnt :=
      if tx.state ≠ .sendByte then 0
      else if tx.cycleCnt.toNat = time.cycles - 1 then tx.bitCnt + 1 else tx.bitCnt
    txDataLatch := if tx.state = .idle ∧ i.txDataValid then i.txData else tx.txDataLatch
    txDataReady :=
      if tx.state = .idle ∧ i.txDataValid then false
      else if tx.state = .stop ∧ tx.cycleCnt.toNat = time.cycles - 1 ∨
          tx.state = .idle ∧ i.txDataValid = false then true
      else tx.txDataReady
    txReg :=
      match tx.state with
      | .start => false
      | .sendByte => tx.txDataLatch.getLsbD tx.bitCnt.toNat
      | _ => true }

def txPin (tx : UartTx) : Bool := tx.txReg

/-- The byte handed over in a clock. -/
def handedOver (tx : UartTx) (i : TxInput) : Option (BitVec bits) :=
  if i.txDataValid ∧ tx.txDataReady then some i.txData else none

end UartTx

/-- The state of the transmitter in bit `bit` of a frame. -/
def txState (bit : Nat) : TxState :=
  if bit = 0 then .start else if bit ≤ bits then .sendByte else .stop

/-- The registers while the line they send is in `phase`. -/
def UartTx.At (tx : UartTx) : LinePhase time → Prop
  | .idle => tx.state = .idle ∧ tx.txDataReady = true
  | .sending byte bit cycle =>
    tx.state = txState bit ∧ tx.txDataLatch = byte ∧ tx.cycleCnt.toNat = cycle ∧
      (tx.state = .sendByte → tx.bitCnt.toNat + 1 = bit) ∧ tx.txDataReady = false

namespace UartTx
variable {tx : UartTx} {phase : LinePhase time} {i : TxInput}

theorem At.handedOver (h : tx.At phase) :
    tx.handedOver i = (match phase with
      | .idle => if i.txDataValid then some i.txData else none
      | .sending _ _ _ => none) := by
  cases phase with
  | idle => simp [UartTx.handedOver, h.2]
  | sending byte bit cycle => simp [UartTx.handedOver, h.2.2.2.2]

theorem At.ready (h : tx.At phase) : tx.txDataReady = true ↔ phase = .idle := by
  cases phase with
  | idle => simp [h.2]
  | sending byte bit cycle => simp [h.2.2.2.2]

/-- The first clock after reset, with nothing to send. -/
theorem reset_clock (h : i.txDataValid = false) :
    (reset.clock time i).At (.idle : LinePhase time) := by
  simp [At, UartTx.clock, nextState, reset, h]

theorem At.level (h : tx.At phase) : (tx.clock time i).txReg = phase.level := by
  cases phase with
  | idle => simp [UartTx.clock, h.1]
  | sending byte bit cycle =>
      obtain ⟨hstate, hlatch, -, hbit, -⟩ := h
      rw [txState] at hstate
      simp only [UartTx.clock, LinePhase.level, frameBit]
      split at hstate
      · rename_i hstart
        rw [hstate, if_pos hstart]
      · rename_i hstart
        rw [if_neg hstart]
        split at hstate
        · rename_i hdata
          rw [hstate, hlatch, if_pos hdata, ← hbit hstate, Nat.add_sub_cancel]
        · rename_i hdata
          rw [hstate, if_neg hdata]

theorem txState_ne_idle (bit : Nat) : txState bit ≠ .idle := by
  rw [txState]
  split <;> try split
  all_goals nofun

theorem txState_sendByte {bit : Nat} : txState bit = .sendByte ↔ 0 < bit ∧ bit ≤ bits := by
  rw [txState]
  split
  · simp_all
  · split <;> simp_all [Nat.pos_iff_ne_zero]

theorem txState_stop {bit : Nat} : txState bit = .stop ↔ bits < bit := by
  rw [txState]
  split
  · simp_all
  · split <;> simp_all

/-- The state changes only at the end of a bit. -/
theorem nextState_within (hidle : tx.state ≠ .idle)
    (hcycle : tx.cycleCnt.toNat ≠ time.cycles - 1) : tx.nextState time i = tx.state := by
  rw [nextState]
  split <;> simp_all

/-- The end of bit `bit` of a frame. -/
theorem nextState_last {bit : Nat} (hstate : tx.state = txState bit) (hbits : bit + 1 < bits + 2)
    (hcycle : tx.cycleCnt.toNat = time.cycles - 1)
    (hbit : tx.state = .sendByte → tx.bitCnt.toNat + 1 = bit) :
    tx.nextState time i = txState (bit + 1) := by
  have hbitCnt := tx.bitCnt.isLt
  rw [nextState]
  by_cases hzero : bit = 0
  · simp [hstate, hcycle, hzero, txState]
  · have hsend := hstate.trans (txState_sendByte.mpr (by omega))
    have := hbit hsend
    rw [hsend]
    by_cases hstop : bit = bits
    · have hcnt : tx.bitCnt.toNat = bits - 1 := by omega
      simp [hcycle, hcnt, hstop, txState]
    · have hcnt : tx.bitCnt.toNat ≠ 7 := by
        rw [bits] at hstop
        omega
      have hnext : bit + 1 ≤ bits := by omega
      simp [hcnt, hnext, txState]

theorem At.clock (h : tx.At phase) :
    (tx.clock time i).At (phase.advance (tx.handedOver i)) := by
  rw [h.handedOver]
  cases phase with
  | idle =>
      cases hvalid : i.txDataValid <;>
        simp [UartTx.clock, nextState, h.1, hvalid, At, txState, LinePhase.advance, LinePhase.begin,
          LinePhase.start]
  | sending byte bit cycle =>
      obtain ⟨hstate, hlatch, hcnt, hbit, hready⟩ := h
      have hidle : tx.state ≠ .idle := hstate ▸ txState_ne_idle bit
      simp only [LinePhase.advance]
      split
      · rename_i hcycle
        have hlast : tx.cycleCnt.toNat ≠ time.cycles - 1 := by omega
        have hnext := nextState_within (i := i) hidle hlast
        refine ⟨hnext.trans hstate, ?_, ?_, ?_, ?_⟩
        · simpa [UartTx.clock, hidle] using hlatch
        · simpa [UartTx.clock, hnext, hlast] using cycleCnt_succ hcnt hcycle
        · simpa [UartTx.clock, hnext, hlast] using fun h => by simpa [h] using hbit h
        · simpa [UartTx.clock, hidle, hlast] using hready
      · have hlast : tx.cycleCnt.toNat = time.cycles - 1 := by omega
        split
        · rename_i hbits
          have hnext := nextState_last (i := i) hstate hbits hlast hbit
          refine ⟨hnext, ?_, ?_, ?_, ?_⟩
          · simpa [UartTx.clock, hidle] using hlatch
          · have hne : txState (bit + 1) ≠ txState bit ∨ txState bit = .sendByte := by
              by_cases hzero : (bit : Nat) = 0
              · exact .inl (by simp [hzero, txState, bits])
              · exact .inr (txState_sendByte.mpr (by omega))
            simp [UartTx.clock, hnext, hstate, hlast, hne]
          · intro hsend
            replace hsend := txState_sendByte.mp (hnext.symm.trans hsend)
            by_cases hzero : (bit : Nat) = 0
            · simp [UartTx.clock, hstate, hzero, txState]
            · have hsent := hstate.trans (txState_sendByte.mpr (by omega))
              simpa [UartTx.clock, hsent, hlast] using bitCnt_succ (hbit hsent) hsend.2
          · have hstop : tx.state ≠ .stop := fun h =>
              absurd (txState_stop.mp (hstate.symm.trans h)) (by omega)
            simpa [UartTx.clock, hidle, hstop] using hready
        · have hstop : tx.state = .stop := hstate.trans (txState_stop.mpr (by omega))
          simp [LinePhase.begin, At, UartTx.clock, nextState, hstop, hlast]

section Run
variable {input : Nat → TxInput}

def talking (time : BitTime) (input : Nat → TxInput) : Nat → UartTx :=
  registers (UartTx.clock time) reset input

/-- The phases a transmitter goes through, a frame for each byte handed over. -/
def phases (time : BitTime) (input : Nat → TxInput) : Nat → LinePhase time
  | 0 => .idle
  | t + 1 => (phases time input t).advance ((talking time input t).handedOver (input t))

theorem phases_one : phases time input 1 = .idle := by
  simp [phases, talking, UartTx.handedOver, reset, LinePhase.advance, LinePhase.begin]

theorem talking_at (h : (input 0).txDataValid = false) (t : Nat) :
    (talking time input (t + 1)).At (phases time input (t + 1)) := by
  induction t with
  | zero =>
      rw [phases_one]
      exact reset_clock h
  | succ t ih => exact ih.clock

/-- The line at the pin, one clock behind the registers. -/
def pinLine (time : BitTime) (input : Nat → TxInput) : Nat → LinePhase time
  | 0 => .idle
  | t + 1 => phases time input t

theorem txPin_eq (h : (input 0).txDataValid = false) (t : Nat) :
    (talking time input t).txPin = (pinLine time input t).level := by
  match t with
  | 0 => rfl
  | 1 => rfl
  | t + 2 => exact (talking_at h t).level

theorem pinLine_flows : Flows (pinLine time input) := by
  intro t
  cases t with
  | zero => exact ⟨none, rfl⟩
  | succ t => exact ⟨_, rfl⟩

/-- A byte that is handed over starts a frame, and no other frame is started. -/
theorem phases_mark (h : (input 0).txDataValid = false) (t : Nat) :
    (phases time input (t + 1)).mark 0 0 = (talking time input t).handedOver (input t) := by
  cases t with
  | zero =>
      rw [phases_one]
      simp [talking, UartTx.handedOver, reset]
  | succ t =>
      have hat : (talking time input (t + 1)).At (phases time input (t + 1)) := talking_at h t
      rw [phases]
      cases hphase : phases time input (t + 1) with
      | idle => exact LinePhase.mark_begin _
      | sending byte bit cycle =>
          rw [hphase] at hat
          rw [hat.handedOver]
          exact LinePhase.mark_advance_none _

/-- A transmitter that stays busy comes to the end of its frame. -/
theorem remaining_busy {t k : Nat}
    (hbusy : ∀ j < k, (talking time input (t + 1 + j)).txDataReady = false) :
    (phases time input (t + 1 + k)).remaining ≤ (bits + 2) * time.cycles - k := by
  induction k with
  | zero => exact LinePhase.remaining_le _
  | succ k ih =>
      have hrest := ih fun j hj => hbusy j (Nat.lt_succ_of_lt hj)
      have hnone : (talking time input (t + 1 + k)).handedOver (input (t + 1 + k)) = none := by
        simp [UartTx.handedOver, hbusy k (Nat.lt_succ_self k)]
      rw [← Nat.add_assoc, phases, hnone, LinePhase.remaining_advance]
      omega

/-- The transmitter is ready again after at most one frame. -/
theorem ready_again (h : (input 0).txDataValid = false) (t : Nat) :
    ∃ k ≤ (bits + 2) * time.cycles, (talking time input (t + 1 + k)).txDataReady = true := by
  by_contra hnever
  have hbusy : ∀ k ≤ (bits + 2) * time.cycles,
      (talking time input (t + 1 + k)).txDataReady = false := fun k hk =>
    Bool.eq_false_iff.mpr fun hready => hnever ⟨k, hk, hready⟩
  have hrest := remaining_busy fun j hj => hbusy j (Nat.le_of_lt hj)
  have hidle := LinePhase.remaining_eq_zero.mp (Nat.le_zero.mp (Nat.sub_self _ ▸ hrest))
  have hat : (talking time input (t + (bits + 2) * time.cycles + 1)).At
      (phases time input (t + (bits + 2) * time.cycles + 1)) := talking_at h _
  rw [Nat.add_right_comm, hidle] at hat
  exact absurd hat.2 (Bool.eq_false_iff.mp (hbusy _ (Nat.le_refl _)))

end Run
end UartTx
end Soc
