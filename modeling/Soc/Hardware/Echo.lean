import Soc.Hardware.UartTx
import Soc.Hardware.UartRx
import Soc.Foundation.Backlog

/-!
The module `uart`, which sends back what it receives.

A byte waits in `tx_data` until the transmitter is idle. A frame takes ten bit times to
arrive and as long to be sent, and one clock more, in which the transmitter is idle.
-/
namespace Soc
open Clocked Backlog

structure Uart where
  rx : UartRx
  tx : UartTx
  txData : BitVec bits
  txDataValid : Bool

namespace Uart

/-- `rst_n` is low. -/
def reset : Uart := { rx := .reset, tx := .reset, txData := 0, txDataValid := false }

/-- What the transmitter is given. -/
def txInput (u : Uart) : TxInput := { txData := u.txData, txDataValid := u.txDataValid }

def clock (time : BitTime) (u : Uart) (uartRx : Bool) : Uart :=
  { rx := u.rx.clock time { rxDataReady := true, rxPin := uartRx }
    tx := u.tx.clock time u.txInput
    txData := if u.rx.rxDataValid then u.rx.rxData else u.txData
    txDataValid :=
      if u.rx.rxDataValid then true
      else if u.txDataValid ∧ u.tx.txDataReady then false
      else u.txDataValid }

/-- The module at each clock after reset. -/
def run (time : BitTime) (uartRx : Nat → Bool) : Nat → Uart := registers (clock time) reset uartRx

/-- The byte the transmitter accepts in clock `t`. -/
def accepted (time : BitTime) (uartRx : Nat → Bool) (t : Nat) : Option (BitVec bits) :=
  let u := run time uartRx t
  u.tx.handedOver u.txInput

end Uart

/-- A frame on the line, with the idle clocks before it. -/
structure Arrival where
  idle : Nat
  byte : BitVec bits

/-- The level of a line on which frames of ten bit times arrive. -/
def arriving (time : BitTime) : List Arrival → Nat → Bool
  | [], _ => true
  | f :: rest, t =>
    if t < f.idle then true
    else if t - f.idle < (bits + 2) * time.cycles then
      frameBit f.byte ((t - f.idle) / time.cycles)
    else arriving time rest (t - f.idle - (bits + 2) * time.cycles)

variable {time : BitTime}

/-- The phases of that line. -/
def arrivingPhase (time : BitTime) : List Arrival → Nat → LinePhase time
  | [], _ => .idle
  | f :: rest, t =>
    if t < f.idle then .idle
    else if h : t - f.idle < (bits + 2) * time.cycles then .atPosition f.byte (t - f.idle) h
    else arrivingPhase time rest (t - f.idle - (bits + 2) * time.cycles)

theorem arrivingPhase_level (frames : List Arrival) (t : Nat) :
    (arrivingPhase time frames t).level = arriving time frames t := by
  induction frames generalizing t with
  | nil => rfl
  | cons f rest ih =>
      rw [arrivingPhase, arriving]
      split
      · rfl
      · split
        · rfl
        · exact ih _

/-- The line may begin a frame in its first clock. -/
theorem arrivingPhase_zero (time : BitTime) (frames : List Arrival) :
    ∃ next, arrivingPhase time frames 0 = .begin next := by
  have hpos := time.frame_pos
  cases frames with
  | nil => exact ⟨none, rfl⟩
  | cons f rest =>
      rw [arrivingPhase]
      split
      · exact ⟨none, rfl⟩
      · rename_i hidle
        have hzero : 0 - f.idle = 0 := Nat.zero_sub _
        refine ⟨some f.byte, ?_⟩
        simp only [hzero]
        rw [dif_pos (by omega)]
        exact LinePhase.atPosition_zero ..

theorem arrivingPhase_flows (frames : List Arrival) : Flows (arrivingPhase time frames) := by
  have hpos := time.frame_pos
  induction frames with
  | nil => exact fun t => ⟨none, rfl⟩
  | cons f rest ih =>
      intro t
      simp only [arrivingPhase]
      by_cases hbefore : t + 1 < f.idle
      · exact ⟨none, by rw [if_pos hbefore, if_pos (by omega)]; rfl⟩
      rw [if_neg hbefore]
      by_cases hidle : t < f.idle
      · have hfirst : t + 1 - f.idle = 0 := by omega
        refine ⟨some f.byte, ?_⟩
        simp only [hfirst, if_pos hidle]
        rw [dif_pos (by omega)]
        exact LinePhase.atPosition_zero ..
      · have hnext : t + 1 - f.idle = t - f.idle + 1 := by omega
        simp only [hnext, if_neg hidle]
        by_cases hin : t - f.idle + 1 < (bits + 2) * time.cycles
        · refine ⟨none, ?_⟩
          rw [dif_pos hin, dif_pos (by omega), LinePhase.advance_atPosition hin]
        · rw [dif_neg hin]
          by_cases hlast : t - f.idle < (bits + 2) * time.cycles
          · obtain ⟨next, hzero⟩ := arrivingPhase_zero time rest
            refine ⟨next, ?_⟩
            rw [dif_pos hlast, LinePhase.advance_atPosition_last hlast (by omega), ← hzero]
            congr 1
            omega
          · obtain ⟨next, hlater⟩ := ih (t - f.idle - (bits + 2) * time.cycles)
            refine ⟨next, ?_⟩
            rw [dif_neg hlast, ← hlater]
            congr 1
            omega

/-- The bytes that arrive, each with the clocks since the byte before it, all of them `delay`
clocks late. -/
def arrivals (time : BitTime) (delay : Nat) : List Arrival → List (Nat × BitVec bits)
  | [] => []
  | f :: rest =>
    (f.idle + delay, f.byte) :: rest.map fun g => ((bits + 2) * time.cycles - 1 + g.idle, g.byte)

theorem arrivals_bytes (delay : Nat) (frames : List Arrival) :
    (arrivals time delay frames).map Prod.snd = frames.map Arrival.byte := by
  cases frames with
  | nil => rfl
  | cons f rest => simp [arrivals]

theorem spread_arrivals (delay : Nat) (frames : List Arrival) (t : Nat) :
    spread (arrivals time delay frames) (t + delay) = spread (arrivals time 0 frames) t := by
  cases frames with
  | nil => rfl
  | cons f rest => exact spread_delayed delay t

theorem spread_arrivals_before {delay : Nat} (frames : List Arrival) {t : Nat} (h : t < delay) :
    spread (arrivals time delay frames) t = none := by
  cases frames with
  | nil => rfl
  | cons f rest => exact spread_quiet (by omega)

theorem spread_rest (rest : List Arrival) (t : Nat) :
    spread (rest.map fun g => ((bits + 2) * time.cycles - 1 + g.idle, g.byte))
        (t + ((bits + 2) * time.cycles - 1)) =
      spread (arrivals time 0 rest) t := by
  cases rest with
  | nil => rfl
  | cons f rest =>
      rw [List.map_cons, Nat.add_comm _ f.idle]
      exact spread_delayed _ t

theorem arrivingPhase_mark (frames : List Arrival) (t : Nat) :
    (arrivingPhase time frames t).mark 0 0 = spread (arrivals time 0 frames) t := by
  have hpos := time.frame_pos
  induction frames generalizing t with
  | nil => rfl
  | cons f rest ih =>
      rw [arrivingPhase, arrivals, spread, Nat.add_zero f.idle]
      split
      · rfl
      · rename_i hidle
        split
        · rename_i hin
          by_cases hfirst : t = f.idle
          · rw [if_pos hfirst]
            simp only [hfirst, Nat.sub_self]
            rw [LinePhase.atPosition_zero]
            rfl
          · -- the next frame begins after this one
            rw [if_neg hfirst, LinePhase.mark_atPosition hin (by omega)]
            cases rest with
            | nil => rfl
            | cons g rest => exact (spread_quiet (by omega)).symm
        · rename_i hin
          rw [if_neg (by omega), ih, ← spread_rest]
          congr 1
          omega

/-! The module is a server behind a buffer of one place: the register is the place, and the
transmitter is busy for the clocks of a frame. -/

namespace Uart
variable {uartRx : Nat → Bool} {line : Nat → LinePhase time}

theorem run_rx (hpin : ∀ t, uartRx t = (line t).level) (t : Nat) :
    (run time uartRx t).rx = UartRx.listening line t :=
  registers_part (fun t s _ => by rw [clock, hpin]) t

/-- What the transmitter is given at each clock. -/
def given (time : BitTime) (uartRx : Nat → Bool) (t : Nat) : TxInput := (run time uartRx t).txInput

theorem run_tx (t : Nat) : (run time uartRx t).tx = UartTx.talking time (given time uartRx) t :=
  registers_part (fun t s hs => by rw [clock, hs]; rfl) t

theorem given_zero : (given time uartRx 0).txDataValid = false := rfl

/-- The byte that waits, and the clocks until the transmitter is idle. -/
def server (time : BitTime) (uartRx : Nat → Bool) (t : Nat) : Server (BitVec bits) :=
  { held := if (run time uartRx t).txDataValid then some (run time uartRx t).txData else none
    busy := (UartTx.phases time (given time uartRx) t).remaining }

theorem ready_iff {t : Nat} (h : (run time uartRx t).txDataValid = true) :
    (run time uartRx t).tx.txDataReady = true ↔ (server time uartRx t).busy = 0 := by
  cases t with
  | zero => cases h
  | succ t =>
      have hat : (UartTx.talking time (given time uartRx) (t + 1)).At
          (UartTx.phases time (given time uartRx) (t + 1)) := UartTx.talking_at given_zero t
      rw [run_tx, hat.ready]
      exact LinePhase.remaining_eq_zero.symm

theorem server_taken (t : Nat) : (server time uartRx t).taken = accepted time uartRx t := by
  cases hvalid : (run time uartRx t).txDataValid with
  | false => simp [Server.taken, server, accepted, UartTx.handedOver, txInput, hvalid]
  | true =>
      have hready := ready_iff hvalid
      simp only [Server.taken, accepted, UartTx.handedOver, txInput, hvalid, hready, true_and]
      simp [server, hvalid]

theorem server_busy (t : Nat) :
    (server time uartRx (t + 1)).busy =
      if (server time uartRx t).taken.isSome then (bits + 2) * time.cycles
      else (server time uartRx t).busy - 1 := by
  have hphase : UartTx.phases time (given time uartRx) (t + 1) =
      (UartTx.phases time (given time uartRx) t).advance (server time uartRx t).taken := by
    rw [server_taken, accepted, run_tx]
    rfl
  rw [server, hphase]
  cases htaken : (server time uartRx t).taken with
  | none => exact LinePhase.remaining_advance _
  | some byte =>
      have hbusy : (server time uartRx t).busy = 0 := by
        by_contra hbusy
        simp [Server.taken, hbusy] at htaken
      rw [LinePhase.remaining_eq_zero.mp hbusy]
      exact LinePhase.remaining_start byte

theorem server_held (t : Nat) :
    (server time uartRx (t + 1)).held =
      (run time uartRx t).rx.received.or
        (if (server time uartRx t).busy = 0 then none else (server time uartRx t).held) := by
  have hstep : run time uartRx (t + 1) = (run time uartRx t).clock time (uartRx t) := rfl
  simp only [server, hstep, clock, UartRx.received]
  cases hrx : (run time uartRx t).rx.rxDataValid with
  | true => simp
  | false =>
      cases hvalid : (run time uartRx t).txDataValid with
      | false => simp
      | true =>
          have hready := ready_iff hvalid
          simp only [server] at hready
          simp only [hready]
          split <;> simp_all

theorem server_succ (t : Nat) :
    server time uartRx (t + 1) =
      (server time uartRx t).serve ((bits + 2) * time.cycles)
        (run time uartRx t).rx.received := by
  rw [Server.serve, ← server_held, ← server_busy]

theorem server_eq (t : Nat) :
    server time uartRx t =
      serving ((bits + 2) * time.cycles) .empty (fun t => (run time uartRx t).rx.received) t := by
  induction t with
  | zero => rfl
  | succ t ih => rw [server_succ, serving_succ, ih]

/-- The bytes the receiver hands to the module, each for one clock. -/
theorem received_eq {frames : List Arrival} (h : ∀ f ∈ frames.head?, 4 ≤ f.idle) (t : Nat) :
    (run time (arriving time frames) t).rx.received =
      spread (arrivals time (UartRx.delay time) frames) t := by
  have hidle : arrivingPhase time frames 0 = .idle := by
    cases frames with
    | nil => rfl
    | cons f rest => rw [arrivingPhase, if_pos (Nat.lt_of_lt_of_le (by decide) (h f rfl))]
  have hflows : Flows (arrivingPhase time frames) := arrivingPhase_flows frames
  rw [run_rx fun t => (arrivingPhase_level frames t).symm]
  by_cases ht : t < UartRx.delay time
  · rw [UartRx.listening_silent hflows hidle ht, spread_arrivals_before frames ht]
  · obtain ⟨t, rfl⟩ := Nat.exists_eq_add_of_le' (Nat.not_lt.mp ht)
    rw [UartRx.listening_received hflows hidle, spread_arrivals, arrivingPhase_mark]

theorem accepted_eq {frames : List Arrival} (h : ∀ f ∈ frames.head?, 4 ≤ f.idle) :
    accepted time (arriving time frames) = fun t =>
      (serving ((bits + 2) * time.cycles) .empty
        (spread (arrivals time (UartRx.delay time) frames)) t).taken := by
  funext t
  rw [← server_taken, server_eq, funext (received_eq h)]

end Uart

theorem lossless_arrivals (time : BitTime) (delay : Nat) (frames : List Arrival) :
    Lossless ((bits + 2) * time.cycles) .empty (spread (arrivals time delay frames)) ↔
      ∀ stretch, stretch <:+: frames.tail.map Arrival.idle →
        stretch.length ≤ (bits + 2) * time.cycles + stretch.sum := by
  cases frames with
  | nil =>
      refine iff_of_true (fun t hover => absurd hover.1 nofun) fun stretch hstretch => ?_
      simp [List.infix_nil.mp hstretch]
  | cons f rest =>
      have h := lossless_iff time.frame_pos (f.idle + delay) f.byte
        (rest.map fun g => (g.idle, g.byte))
      simp only [List.map_map, Function.comp_def] at h
      exact h

theorem accepted_iff_lossless (time : BitTime) {frames : List Arrival}
    (hidle : ∀ f ∈ frames.head?, 4 ≤ f.idle) :
    (∃ n, ∀ m ≥ n, emitted (Uart.accepted time (arriving time frames)) m =
        frames.map Arrival.byte) ↔
      Lossless ((bits + 2) * time.cycles) .empty
        (spread (arrivals time (UartRx.delay time) frames)) := by
  rw [← delivered_iff, arrivals_bytes, Uart.accepted_eq hidle]

/-- The bytes that arrive are accepted by the transmitter, once each and in order, exactly
when no stretch of frames after the first one has more frames than the clocks of a frame and
the idle clocks before its frames have room for. -/
theorem echo_faithful_iff (time : BitTime) (frames : List Arrival)
    (hidle : ∀ f ∈ frames.head?, 4 ≤ f.idle) :
    (∃ n, ∀ m ≥ n, emitted (Uart.accepted time (arriving time frames)) m =
        frames.map Arrival.byte) ↔
      ∀ stretch, stretch <:+: frames.tail.map Arrival.idle →
        stretch.length ≤ (bits + 2) * time.cycles + stretch.sum := by
  rw [accepted_iff_lossless time hidle, lossless_arrivals]

theorem echo_faithful_word :
    ∃ n, ∀ m ≥ n, emitted (Uart.accepted .shortest (arriving .shortest
      [{ idle := 4, byte := 0x53 }, { idle := 0, byte := 0x6f }, { idle := 0, byte := 0x43 }])) m =
        [0x53, 0x6f, 0x43] := by
  refine (echo_faithful_iff .shortest _ ?_).mpr fun stretch hstretch => ?_
  · simp
  · exact Nat.le_trans hstretch.length_le (Nat.le_add_right_of_le (by decide))

/-- Frames without idle clocks between them: a byte is replaced before it is accepted. -/
theorem echo_loses_byte :
    ¬∃ n, ∀ m ≥ n, emitted (Uart.accepted .shortest (arriving .shortest
      ({ idle := 4, byte := 0x53 } :: List.replicate 41 { idle := 0, byte := 0x6f }))) m =
        0x53 :: List.replicate 41 0x6f := by
  intro h
  have hlossless := (accepted_iff_lossless .shortest (by simp)).mp h
  have hroom := (lossless_arrivals .shortest _ _).mp hlossless _ (List.infix_refl _)
  exact absurd hroom (by decide)

end Soc
