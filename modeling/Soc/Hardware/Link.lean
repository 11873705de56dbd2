import Soc.Hardware.UartTx
import Soc.Hardware.UartRx

/-!
`uart_tx` and `uart_rx` on one line, `rx_data_ready` held high.

The byte that is handed over in a clock is received a fixed number of clocks later, and
nothing else is received.
-/
namespace Soc
open Clocked

structure Link where
  tx : UartTx
  rx : UartRx

namespace Link

def reset : Link := { tx := .reset, rx := .reset }

def clock (time : BitTime) (link : Link) (i : TxInput) : Link :=
  { tx := link.tx.clock time i
    rx := link.rx.clock time { rxDataReady := true, rxPin := link.tx.txPin } }

variable (time : BitTime) (input : Nat → TxInput)

/-- The link at each clock after reset. -/
def run : Nat → Link := registers (clock time) reset input

/-- The byte handed over to the transmitter in clock `t`. -/
def handedOver (t : Nat) : Option (BitVec bits) := (run time input t).tx.handedOver (input t)

/-- The byte the receiver has in clock `t`. -/
def received (t : Nat) : Option (BitVec bits) := (run time input t).rx.received

/-- From the clock in which a byte is handed over to the one in which it is received. -/
def latency : Nat := UartRx.delay time + 2

variable {time input}

theorem run_tx (t : Nat) : (run time input t).tx = UartTx.talking time input t :=
  registers_part (fun _ _ _ => rfl) t

theorem run_rx (h : (input 0).txDataValid = false) (t : Nat) :
    (run time input t).rx = UartRx.listening (UartTx.pinLine time input) t := by
  refine registers_part (fun t s hs => ?_) t
  have hpin : s.tx.txPin = (UartTx.pinLine time input t).level := by
    rw [hs, ← UartTx.txPin_eq h, ← run_tx]
    rfl
  rw [clock, hpin]

theorem handedOver_eq (h : (input 0).txDataValid = false) (t : Nat) :
    handedOver time input t = (UartTx.pinLine time input (t + 2)).mark 0 0 := by
  rw [handedOver, run_tx]
  exact (UartTx.phases_mark h t).symm

theorem received_later (h : (input 0).txDataValid = false) (t : Nat) :
    received time input (t + latency time) = handedOver time input t := by
  rw [received, run_rx h, handedOver_eq h, latency, Nat.add_comm _ 2, ← Nat.add_assoc]
  exact UartRx.listening_received UartTx.pinLine_flows rfl (t + 2)

theorem received_before (h : (input 0).txDataValid = false) {t : Nat} (ht : t < latency time) :
    received time input t = none := by
  have hflows : Flows (UartTx.pinLine time input) := UartTx.pinLine_flows
  rw [received, run_rx h]
  by_cases hdelay : t < UartRx.delay time
  · exact UartRx.listening_silent hflows rfl hdelay
  · obtain ⟨u, rfl⟩ := Nat.exists_eq_add_of_le' (Nat.not_lt.mp hdelay)
    rw [UartRx.listening_received hflows rfl]
    have hu : u < 2 := by
      rw [latency] at ht
      omega
    -- the line is idle in the first clocks
    match u, hu with
    | 0, _ => rfl
    | 1, _ => rfl

end Link

/-- What is handed over to the transmitter is received, byte for byte, each for one clock, in
the same order, and nothing else; and the transmitter never keeps a byte waiting for longer
than a frame. -/
theorem link_faithful (time : BitTime) (input : Nat → TxInput)
    (hfirst : (input 0).txDataValid = false) :
    (∀ t, Link.received time input (t + Link.latency time) = Link.handedOver time input t) ∧
      (∀ t < Link.latency time, Link.received time input t = none) ∧
      (∀ n, emitted (Link.received time input) (n + Link.latency time) =
        emitted (Link.handedOver time input) n) ∧
      ∀ t, 0 < t → ∃ k ≤ (bits + 2) * time.cycles,
        (Link.run time input (t + k)).tx.txDataReady = true := by
  refine ⟨Link.received_later hfirst, fun t => Link.received_before hfirst,
    emitted_delayed (fun t => Link.received_before hfirst) (Link.received_later hfirst), ?_⟩
  intro t ht
  obtain ⟨t, rfl⟩ := Nat.exists_eq_add_of_lt ht
  have hagain : ∃ k ≤ (bits + 2) * time.cycles,
      (UartTx.talking time input (t + 1 + k)).txDataReady = true := UartTx.ready_again hfirst t
  obtain ⟨k, hk, hready⟩ := hagain
  refine ⟨k, hk, ?_⟩
  rw [Link.run_tx, Nat.zero_add]
  exact hready

theorem link_faithful_held :
    Link.received .shortest (fun t => { txData := 0x35, txDataValid := t != 0 })
      (1 + Link.latency .shortest) = some 0x35 :=
  ((link_faithful .shortest (fun t => { txData := 0x35, txDataValid := t != 0 }) rfl).1 1).trans
    (by decide)

end Soc
