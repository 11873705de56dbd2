import Soc.Foundation.Clocked
import Soc.Hardware.Line

/-!
The receiver `uart_rx`.

The edge of a start bit is seen two clocks after it, so that in every state the line is two
clocks further than the receiver; the sample of a data bit is that of the pin itself. The
invariant relates the registers to the phases of the line one and two clocks ago.
-/
namespace Soc
open Clocked

inductive RxState where
  | idle
  | start
  | recByte
  | stop
  | data
  deriving DecidableEq

structure RxInput where
  rxDataReady : Bool
  rxPin : Bool

structure UartRx where
  state : RxState
  cycleCnt : BitVec 16
  bitCnt : BitVec 3
  rxD0 : Bool
  rxD1 : Bool
  rxData : BitVec bits
  rxDataValid : Bool

variable {time : BitTime}

/-- An assignment to one bit of a register. -/
def setBit (data : BitVec bits) (n : BitVec 3) (b : Bool) : BitVec bits :=
  data &&& ~~~BitVec.twoPow bits n.toNat ||| (BitVec.ofBool b).setWidth bits <<< n.toNat

theorem getLsbD_setBit (data : BitVec bits) (n : BitVec 3) (b : Bool) (j : Nat) :
    (setBit data n b).getLsbD j = if j = n.toNat then b else data.getLsbD j := by
  have hn := n.isLt
  rw [setBit, BitVec.getLsbD_or, BitVec.getLsbD_and, BitVec.getLsbD_not, BitVec.getLsbD_twoPow,
    BitVec.getLsbD_shiftLeft, BitVec.getLsbD_setWidth, BitVec.getLsbD_ofBool]
  by_cases hj : j = n.toNat
  · have hlt : n.toNat < bits := hn
    simp [hj, hlt]
  · by_cases hlt : j < bits
    · have : n.toNat ≠ j := Ne.symm hj
      have hsub : n.toNat ≤ j → j - n.toNat ≠ 0 := by omega
      by_cases hle : n.toNat ≤ j
      · simp [hj, hlt, this, hsub hle]
      · simp [hj, hlt, this, Nat.not_le.mp hle]
    · simp [hj, hlt, BitVec.getLsbD_of_ge _ _ (Nat.not_lt.mp hlt)]

namespace UartRx

/-- `rst_n` is low. -/
def reset : UartRx :=
  { state := .idle, cycleCnt := 0, bitCnt := 0, rxD0 := false, rxD1 := false, rxData := 0,
    rxDataValid := false }

def rxNegedge (rx : UartRx) : Bool := rx.rxD1 && !rx.rxD0

def nextState (time : BitTime) (rx : UartRx) (i : RxInput) : RxState :=
  match rx.state with
  | .idle => if rx.rxNegedge then .start else .idle
  | .start => if rx.cycleCnt.toNat = time.cycles - 1 then .recByte else .start
  | .recByte =>
    if rx.cycleCnt.toNat = time.cycles - 1 ∧ rx.bitCnt.toNat = bits - 1 then .stop else .recByte
  | .stop => if rx.cycleCnt.toNat = time.cycles / 2 - 1 then .data else .stop
  | .data => if i.rxDataReady then .idle else .data

def clock (time : BitTime) (rx : UartRx) (i : RxInput) : UartRx :=
  let next := rx.nextState time i
  { state := next
    cycleCnt :=
      if next ≠ rx.state ∨ rx.state = .recByte ∧ rx.cycleCnt.toNat = time.cycles - 1 then 0
      else rx.cycleCnt + 1
    bitCnt :=
      if rx.state ≠ .recByte then 0
      else if rx.cycleCnt.toNat = time.cycles - 1 then rx.bitCnt + 1 else rx.bitCnt
    rxD0 := i.rxPin
    rxD1 := rx.rxD0
    rxData :=
      if rx.state = .recByte ∧ rx.cycleCnt.toNat = time.cycles / 2 - 1 then
        setBit rx.rxData rx.bitCnt i.rxPin
      else rx.rxData
    rxDataValid :=
      if rx.state = .data ∧ i.rxDataReady then false
      else if rx.state = .stop ∧ next ≠ rx.state then true
      else rx.rxDataValid }

/-- The byte that is there in a clock. -/
def received (rx : UartRx) : Option (BitVec bits) :=
  if rx.rxDataValid then some rx.rxData else none

end UartRx

/-- The state of the receiver when the line is in `phase`, two clocks later. -/
def rxState : LinePhase time → RxState
  | .idle => .idle
  | .sending _ bit cycle =>
    if (bit : Nat) = 0 then .start
    else if bit ≤ bits then .recByte
    else if cycle < time.cycles / 2 then .stop
    else if cycle = time.cycles / 2 then .data else .idle

/-- The number of data bits that have been sampled. -/
def sampled (time : BitTime) (bit cycle : Nat) : Nat :=
  if bit = 0 then 0
  else if bit ≤ bits then bit - 1 + if time.cycles / 2 ≤ cycle then 1 else 0
  else bits

/-- The counters and the data in a frame. -/
structure UartRx.Follows (time : BitTime) (rx : UartRx) (byte : BitVec bits) (bit cycle : Nat) :
    Prop where
  cycleCnt : bit ≤ bits ∨ cycle < time.cycles / 2 → rx.cycleCnt.toNat = cycle
  bitCnt : 0 < bit → bit ≤ bits → rx.bitCnt.toNat + 1 = bit
  data : ∀ j < sampled time bit cycle, rx.rxData.getLsbD j = byte.getLsbD j

/-- The registers when the line was in `ahead` a clock ago and in `behind` two clocks ago. -/
structure UartRx.At (rx : UartRx) (behind ahead : LinePhase time) : Prop where
  d1 : rx.rxD1 = behind.level
  d0 : rx.rxD0 = ahead.level
  state : rx.state = rxState behind
  valid : rx.rxDataValid = true ↔ rx.state = .data
  frame : ∀ byte bit cycle, behind = .sending byte bit cycle → rx.Follows time byte bit cycle

namespace UartRx
variable {rx : UartRx} {behind ahead : LinePhase time} {next : Option (BitVec bits)} {pin : Bool}

theorem nextState_idle (h : rx.At behind ahead) (hidle : rxState behind = .idle) :
    rx.nextState time { rxDataReady := true, rxPin := pin } =
      if behind.level && !ahead.level then .start else .idle := by
  simp only [UartRx.nextState, h.state, hidle, rxNegedge, h.d0, h.d1]

theorem rxState_begin (next : Option (BitVec bits)) :
    rxState (LinePhase.begin next : LinePhase time) =
      if !(LinePhase.begin next : LinePhase time).level then .start else .idle := by
  cases next <;> rfl

theorem At.nextState (h : rx.At behind ahead) (hahead : ahead = behind.advance next) (pin : Bool) :
    rx.nextState time { rxDataReady := true, rxPin := pin } = rxState ahead := by
  have heven := time.even
  have hlower := time.lower
  have hstate := h.state
  cases behind with
  | idle =>
      rw [nextState_idle h rfl, hahead, LinePhase.level_idle, Bool.true_and]
      exact (rxState_begin next).symm
  | sending byte bit cycle =>
      have hf := h.frame _ _ _ rfl
      have hcnt := hf.cycleCnt
      have hbit := hf.bitCnt
      rw [rxState] at hstate
      simp only [bits] at hstate hcnt hbit
      rw [hahead]
      cases hs : rx.state with
      | idle =>
          -- the second half of the stop bit, the next frame may begin
          have hlevel : (LinePhase.sending byte bit cycle).level = true := by
            grind [LinePhase.level, frameBit]
          rw [nextState_idle h (by rw [← h.state, hs]), hahead, hlevel, Bool.true_and,
            LinePhase.advance]
          split
          · grind [rxState, LinePhase.level, frameBit]
          · split
            · grind
            · exact (rxState_begin next).symm
      | start | recByte | stop | data =>
          simp only [UartRx.nextState, hs, LinePhase.advance]
          grind [rxState]

/-- The first clock of a frame. -/
theorem follows_start {i : RxInput} (hidle : rx.state = .idle)
    (hnext : rx.nextState time i = .start) (byte : BitVec bits) :
    (rx.clock time i).Follows time byte 0 0 where
  cycleCnt _ := by simp [UartRx.clock, hidle, hnext]
  bitCnt h := absurd h (Nat.lt_irrefl 0)
  data j hj := by simp [sampled] at hj

variable {byte : BitVec bits} {bit : Fin (bits + 2)} {cycle : Fin time.cycles}

/-- A clock within a bit. A data bit is sampled in its middle. -/
theorem follows_within (h : rx.At (.sending byte bit cycle) ahead)
    (hcycle : cycle + 1 < time.cycles)
    (hnext : rx.nextState time { rxDataReady := true, rxPin := pin } =
      rxState (.sending byte bit ⟨cycle + 1, hcycle⟩))
    (hpin : cycle + 2 < time.cycles → pin = frameBit byte bit) :
    (rx.clock time { rxDataReady := true, rxPin := pin }).Follows time byte bit (cycle + 1) := by
  have heven := time.even
  have hlower := time.lower
  have hf := h.frame _ _ _ rfl
  have hstate := h.state
  refine ⟨?_, ?_, ?_⟩
  · intro hphase
    have hcnt := hf.cycleCnt (by omega)
    have hsucc := cycleCnt_succ hcnt hcycle
    simp only [UartRx.clock, hnext, hstate]
    grind [rxState]
  · intro hfirst hlast
    have hrec : rx.state = .recByte := by grind [rxState]
    have hcnt := hf.cycleCnt (.inl hlast)
    have : ¬rx.cycleCnt.toNat = time.cycles - 1 := by omega
    simp only [UartRx.clock, hrec, this]
    simpa using hf.bitCnt hfirst hlast
  · intro j hj
    have hdata := hf.data j
    simp only [UartRx.clock]
    split
    · rename_i hsample
      have hrec : 0 < (bit : Nat) ∧ bit ≤ bits := by grind [rxState]
      have hcnt := hf.cycleCnt (.inl hrec.2)
      have hbitCnt := hf.bitCnt hrec.1 hrec.2
      rw [getLsbD_setBit, hpin (by omega)]
      grind [sampled, frameBit]
    · have hcnt := hf.cycleCnt
      grind [rxState, sampled]

/-- A clock from one bit to the next. -/
theorem follows_next (h : rx.At (.sending byte bit cycle) ahead)
    (hcycle : ¬cycle + 1 < time.cycles) (hbit : bit + 1 < bits + 2) 
    (hnext : rx.nextState time { rxDataReady := true, rxPin := pin } =
      rxState (.sending byte ⟨bit + 1, hbit⟩ ⟨0, Nat.zero_lt_of_lt cycle.isLt⟩)) :
    (rx.clock time { rxDataReady := true, rxPin := pin }).Follows time byte (bit + 1) 0 := by
  have heven := time.even
  have hlower := time.lower
  have hf := h.frame _ _ _ rfl
  have hstate := h.state
  have hcnt := hf.cycleCnt (.inl (by omega))
  refine ⟨?_, ?_, ?_⟩
  · intro _
    simp only [UartRx.clock, hnext, hstate]
    grind [rxState]
  · intro _ hlast
    by_cases hstart : (bit : Nat) = 0
    · simp [UartRx.clock, hstate, rxState, hstart]
    · have hrec : rx.state = .recByte := by grind [rxState]
      have hlastCnt : rx.cycleCnt.toNat = time.cycles - 1 := by omega
      have hbitCnt := bitCnt_succ (hf.bitCnt (by omega) (by omega)) hlast
      simpa [UartRx.clock, hrec, hlastCnt] using hbitCnt
  · intro j hj
    have hdata := hf.data j
    simp only [UartRx.clock]
    grind [rxState, sampled]

theorem follows_begin (h : rx.At behind ahead) (hidle : rxState behind = .idle)
    (hahead : ahead = LinePhase.begin next)
    (hnext : rx.nextState time { rxDataReady := true, rxPin := pin } = rxState ahead)
    (hsending : ahead = .sending byte bit cycle) :
    (rx.clock time { rxDataReady := true, rxPin := pin }).Follows time byte bit cycle := by
  cases next with
  | none => cases hahead.symm.trans hsending
  | some byte =>
      rw [hahead] at hnext
      cases hahead.symm.trans hsending
      exact follows_start (h.state.trans hidle) hnext byte

theorem At.clock (h : rx.At behind ahead) (hahead : ahead = behind.advance next)
    {next' : Option (BitVec bits)} {ahead' : LinePhase time}
    (hahead' : ahead' = ahead.advance next') (hpin : pin = ahead'.level) :
    (rx.clock time { rxDataReady := true, rxPin := pin }).At ahead ahead' := by
  have hnext := h.nextState hahead pin
  refine ⟨h.d0, hpin, hnext, ?_, ?_⟩
  · have hvalid := h.valid
    simp only [UartRx.clock, UartRx.nextState]
    cases hs : rx.state <;> simp [hs] at hvalid ⊢ <;> grind
  · intro byte bit cycle hsending
    cases behind with
    | idle => exact follows_begin h rfl hahead hnext hsending
    | sending byte bit cycle =>
        rw [LinePhase.advance] at hahead
        split at hahead
        · rename_i hcycle
          cases hahead.symm.trans hsending
          refine follows_within h hcycle (hahead ▸ hnext) fun hsample => ?_
          rw [hpin, hahead', hsending]
          simp only [LinePhase.advance]
          rw [dif_pos hsample, LinePhase.level]
        · split at hahead
          · rename_i hcycle hbit
            cases hahead.symm.trans hsending
            exact follows_next h hcycle hbit (hahead ▸ hnext)
          · refine follows_begin h ?_ hahead hnext hsending
            have := time.even
            have := time.lower
            grind [rxState]

/-- A byte is there for one clock, in the middle of its stop bit. -/
theorem At.received (h : rx.At behind ahead) :
    rx.received = behind.mark (bits + 1) (time.cycles / 2) := by
  have hvalid := h.valid
  rw [h.state] at hvalid
  cases behind with
  | idle =>
      have : rx.rxDataValid = false := by simpa [rxState] using hvalid
      simp [UartRx.received, this]
  | sending byte bit cycle =>
      have hdata : rxState (.sending byte bit cycle) = .data ↔
          (bit : Nat) = bits + 1 ∧ (cycle : Nat) = time.cycles / 2 := by
        grind [rxState]
      simp only [UartRx.received, LinePhase.mark, hvalid, hdata]
      split
      · rename_i hmark
        refine congrArg some (BitVec.eq_of_getLsbD_eq fun j hj => ?_)
        exact (h.frame _ _ _ rfl).data j (by simpa [sampled, hmark.1, bits] using hj)
      · rfl

/-- The first two clocks after reset, on a line that begins idle. -/
theorem reset_clock_clock {line : Nat → LinePhase time} (hidle : line 0 = .idle) :
    ((reset.clock time { rxDataReady := true, rxPin := (line 0).level }).clock time
      { rxDataReady := true, rxPin := (line 1).level }).At (line 0) (line 1) := by
  refine ⟨rfl, rfl, ?_, ?_, ?_⟩
  · simp [UartRx.clock, UartRx.nextState, reset, rxNegedge, hidle, rxState]
  · simp [UartRx.clock, UartRx.nextState, reset, rxNegedge]
  · rw [hidle]
    nofun

section Run
variable {line : Nat → LinePhase time}

/-- The receiver on a line that carries frames. -/
def listening (line : Nat → LinePhase time) : Nat → UartRx :=
  registers (UartRx.clock time) reset fun t => { rxDataReady := true, rxPin := (line t).level }

theorem listening_at (hflows : Flows line) (hidle : line 0 = .idle) (t : Nat) :
    (listening line (t + 2)).At (line t) (line (t + 1)) := by
  induction t with
  | zero => exact reset_clock_clock hidle
  | succ t ih =>
      obtain ⟨next, hnext⟩ := hflows t
      obtain ⟨next', hnext'⟩ := hflows (t + 1)
      exact ih.clock hnext hnext' rfl

/-- The clocks from the first one of a frame to the one in which its byte is there. -/
def delay (time : BitTime) : Nat := (bits + 1) * time.cycles + time.cycles / 2 + 2

theorem listening_received (hflows : Flows line) (hidle : line 0 = .idle) (t : Nat) :
    (listening line (t + delay time)).received = (line t).mark 0 0 := by
  have hlower := time.lower
  rw [delay, ← Nat.add_assoc, (listening_at hflows hidle _).received]
  exact hflows.mark (by simp) (by omega) t

theorem listening_silent (hflows : Flows line) (hidle : line 0 = .idle) {t : Nat}
    (ht : t < delay time) : (listening line t).received = none := by
  have hlower := time.lower
  match t, ht with
  | 0, _ => rfl
  | 1, _ =>
      simp [listening, registers, UartRx.received, UartRx.clock, UartRx.nextState, reset,
        rxNegedge]
  | t + 2, ht =>
      rw [(listening_at hflows hidle t).received]
      exact hflows.not_mark hidle (by simp) (by omega) (Nat.lt_of_add_lt_add_right ht)

end Run
end UartRx
end Soc
