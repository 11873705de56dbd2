import Soc.Basic
import Mathlib.Data.List.Basic

/-!
The serial line, in frames of a start bit, eight data bits and a stop bit.

A phase says where in a frame the line is. A frame runs through its ten bits, each for the
clocks of one bit time, and only then, or on an idle line, does another one begin.
-/
namespace Soc

/-- `CYCLES`, the clocks of one bit. -/
structure BitTime where
  cycles : Nat
  even : cycles % 2 = 0
  lower : 4 ≤ cycles
  /-- `cycle_cnt` has 16 bits -/
  upper : cycles ≤ 65536

/-- `BITS` -/
abbrev bits : Nat := 8

/-- The level of the line in bit `bit` of a frame. -/
def frameBit (byte : BitVec bits) (bit : Nat) : Bool :=
  if bit = 0 then false else if bit ≤ bits then byte.getLsbD (bit - 1) else true

variable {time : BitTime}

def BitTime.shortest : BitTime :=
  { cycles := 4, even := rfl, lower := by decide, upper := by decide }

theorem BitTime.pos (time : BitTime) : 0 < time.cycles := Nat.lt_of_lt_of_le (by decide) time.lower

theorem BitTime.frame_pos (time : BitTime) : 0 < (bits + 2) * time.cycles :=
  Nat.mul_pos (by decide) time.pos

/-! The counters of the clocks of a bit and of the bits of a byte. -/

theorem cycleCnt_succ {cnt : BitVec 16} {cycle : Nat} (hcnt : cnt.toNat = cycle)
    (h : cycle + 1 < time.cycles) : (cnt + 1).toNat = cycle + 1 := by
  have := time.upper
  rw [BitVec.toNat_add, hcnt]
  simp
  omega

theorem bitCnt_succ {cnt : BitVec 3} {bit : Nat} (hcnt : cnt.toNat + 1 = bit) (h : bit < bits) :
    (cnt + 1).toNat = bit := by
  rw [bits] at h
  rw [BitVec.toNat_add]
  simp
  omega

inductive LinePhase (time : BitTime) where
  | idle
  | sending (byte : BitVec bits) (bit : Fin (bits + 2)) (cycle : Fin time.cycles)

namespace LinePhase

def start (byte : BitVec bits) : LinePhase time :=
  sending byte 0 ⟨0, time.pos⟩

/-- A line that is in no frame is high. -/
def level : LinePhase time → Bool
  | idle => true
  | sending byte bit _ => frameBit byte bit

def begin : Option (BitVec bits) → LinePhase time
  | none => idle
  | some byte => start byte

/-- One clock, `next` being the byte of a frame that may begin with it. -/
def advance (next : Option (BitVec bits)) : LinePhase time → LinePhase time
  | idle => begin next
  | sending byte bit cycle =>
    if h : cycle + 1 < time.cycles then sending byte bit ⟨cycle + 1, h⟩
    else if h : bit + 1 < bits + 2 then
      sending byte ⟨bit + 1, h⟩ ⟨0, time.pos⟩
    else begin next

/-- The byte of a line that is `c` clocks into bit `b`. -/
def mark (b c : Nat) : LinePhase time → Option (BitVec bits)
  | idle => none
  | sending byte bit cycle => if bit = b ∧ cycle = c then some byte else none

@[simp] theorem level_idle : (idle : LinePhase time).level = true := rfl

@[simp] theorem mark_idle (b c : Nat) : (idle : LinePhase time).mark b c = none := rfl

theorem mark_begin (next : Option (BitVec bits)) :
    (begin next : LinePhase time).mark 0 0 = next := by
  cases next <;> rfl

/-- In a frame no other one begins. -/
theorem mark_advance_none (phase : LinePhase time) : (phase.advance none).mark 0 0 = none := by
  cases phase with
  | idle => rfl
  | sending byte bit cycle =>
      simp only [advance]
      split
      · simp [mark]
      · split
        · simp [mark]
        · rfl

/-! A frame that is begun is sent to its end. Counted in clocks from the first one of the
frame, an edge takes a line from one position to the next. -/

def passing (position : Nat) : LinePhase time → Option (BitVec bits)
  | idle => none
  | sending byte bit cycle =>
    if bit * time.cycles + cycle = position then some byte else none

theorem position_parts {b c : Nat} (hc : c < time.cycles) :
    (b * time.cycles + c) / time.cycles = b ∧ (b * time.cycles + c) % time.cycles = c :=
  (Nat.div_mod_unique (Nat.zero_lt_of_lt hc)).mpr ⟨by rw [Nat.mul_comm, Nat.add_comm], hc⟩

theorem position_lt {b c : Nat} (hb : b < bits + 2) (hc : c < time.cycles) :
    b * time.cycles + c < (bits + 2) * time.cycles := by
  have := Nat.mul_le_mul_right time.cycles (Nat.succ_le_of_lt hb)
  rw [Nat.succ_mul] at this
  omega

theorem mark_eq_passing {b c : Nat} (hc : c < time.cycles) (phase : LinePhase time) :
    phase.mark b c = phase.passing (b * time.cycles + c) := by
  cases phase with
  | idle => rfl
  | sending byte bit cycle =>
      have hpair : bit * time.cycles + cycle = b * time.cycles + c ↔
          (bit : Nat) = b ∧ (cycle : Nat) = c := by
        constructor
        · intro h
          have hleft := position_parts (b := bit) cycle.isLt
          rw [h, (position_parts hc).1, (position_parts hc).2] at hleft
          exact ⟨hleft.1.symm, hleft.2.symm⟩
        · intro ⟨hbit, hcycle⟩
          rw [hbit, hcycle]
      simp only [mark, passing, hpair]

theorem passing_begin (position : Nat) (next : Option (BitVec bits)) :
    (begin next : LinePhase time).passing (position + 1) = none := by
  cases next with
  | none => rfl
  | some byte => simp [begin, start, passing]

theorem passing_advance {position : Nat} (h : position + 1 < (bits + 2) * time.cycles)
    (next : Option (BitVec bits)) (phase : LinePhase time) :
    (phase.advance next).passing (position + 1) = phase.passing position := by
  cases phase with
  | idle => exact passing_begin position next
  | sending byte bit cycle =>
      have hcycle := cycle.isLt
      simp only [advance]
      split
      · simp only [passing, ← Nat.add_assoc, Nat.add_right_cancel_iff]
      · have hnext : (bit + 1) * time.cycles = bit * time.cycles + cycle + 1 := by
          rw [Nat.succ_mul]
          omega
        split
        · simp only [passing, hnext, Nat.add_zero, Nat.add_right_cancel_iff]
        · have hlast : (bit : Nat) + 1 = bits + 2 := by omega
          rw [hlast] at hnext
          rw [passing_begin, passing, if_neg (by omega)]

/-- The clocks left of the frame. -/
def remaining : LinePhase time → Nat
  | idle => 0
  | sending _ bit cycle => (bits + 2) * time.cycles - (bit * time.cycles + cycle)

theorem remaining_start (byte : BitVec bits) :
    (start byte : LinePhase time).remaining = (bits + 2) * time.cycles := by
  simp [start, remaining]

theorem remaining_le (phase : LinePhase time) : phase.remaining ≤ (bits + 2) * time.cycles := by
  cases phase with
  | idle => exact Nat.zero_le _
  | sending byte bit cycle => exact Nat.sub_le ..

theorem remaining_eq_zero {phase : LinePhase time} : phase.remaining = 0 ↔ phase = idle := by
  cases phase with
  | idle => simp [remaining]
  | sending byte bit cycle =>
      have := position_lt bit.isLt cycle.isLt
      simp only [remaining, reduceCtorEq, iff_false]
      omega

theorem remaining_advance (phase : LinePhase time) :
    (phase.advance none).remaining = phase.remaining - 1 := by
  cases phase with
  | idle => rfl
  | sending byte bit cycle =>
      have hcycle := cycle.isLt
      simp only [advance]
      split
      · simp only [remaining]
        omega
      · have hnext : (bit + 1) * time.cycles = bit * time.cycles + cycle + 1 := by
          rw [Nat.succ_mul]
          omega
        split
        · simp only [remaining]
          omega
        · have hlast : (bit : Nat) + 1 = bits + 2 := by omega
          rw [hlast] at hnext
          simp only [begin, remaining]
          omega

/-- A frame, by the clocks since its beginning. -/
def atPosition (byte : BitVec bits) (position : Nat)
    (h : position < (bits + 2) * time.cycles) : LinePhase time :=
  sending byte ⟨position / time.cycles, Nat.div_lt_of_lt_mul (Nat.mul_comm .. ▸ h)⟩
    ⟨position % time.cycles, Nat.mod_lt _ time.pos⟩

theorem atPosition_zero (byte : BitVec bits) (h : 0 < (bits + 2) * time.cycles) :
    atPosition byte 0 h = start byte := by
  simp [atPosition, start]

theorem mark_atPosition {byte : BitVec bits} {position : Nat}
    (h : position < (bits + 2) * time.cycles) (hpos : 0 < position) :
    (atPosition byte position h).mark 0 0 = none := by
  refine if_neg fun ⟨hdiv, hmod⟩ => ?_
  have hparts := Nat.div_add_mod position time.cycles
  simp only at hdiv hmod
  rw [hdiv, hmod] at hparts
  omega

/-- The parts of a position after one clock. -/
theorem position_succ (time : BitTime) (position : Nat) :
    if position % time.cycles + 1 < time.cycles then
      (position + 1) / time.cycles = position / time.cycles ∧
        (position + 1) % time.cycles = position % time.cycles + 1
    else
      (position + 1) / time.cycles = position / time.cycles + 1 ∧
        (position + 1) % time.cycles = 0 := by
  have hpos := time.pos
  have hmod := Nat.mod_lt position hpos
  have hparts := Nat.div_add_mod position time.cycles
  split
  · exact (Nat.div_mod_unique hpos).mpr ⟨by omega, by omega⟩
  · refine (Nat.div_mod_unique hpos).mpr ⟨?_, hpos⟩
    rw [Nat.mul_succ]
    omega

theorem advance_atPosition {byte : BitVec bits} {position : Nat}
    (h : position + 1 < (bits + 2) * time.cycles) (next : Option (BitVec bits)) :
    (atPosition byte position (Nat.lt_of_succ_lt h)).advance next =
      atPosition byte (position + 1) h := by
  have hsucc := position_succ time position
  simp only [atPosition, advance]
  split
  · rename_i hcycle
    simp only [hcycle, if_true] at hsucc
    simp only [hsucc]
  · rename_i hcycle
    simp only [hcycle, if_false] at hsucc
    have hbit := Nat.div_lt_of_lt_mul (Nat.mul_comm .. ▸ h)
    rw [hsucc.1] at hbit
    rw [dif_pos hbit]
    simp only [hsucc]

theorem advance_atPosition_last {byte : BitVec bits} {position : Nat}
    (h : position < (bits + 2) * time.cycles) (hlast : position + 1 = (bits + 2) * time.cycles)
    (next : Option (BitVec bits)) : (atPosition byte position h).advance next = begin next := by
  have hpos := time.pos
  have hparts : position / time.cycles = bits + 1 ∧
      position % time.cycles = time.cycles - 1 := by
    refine (Nat.div_mod_unique hpos).mpr ⟨?_, by omega⟩
    rw [Nat.succ_mul] at hlast
    rw [Nat.mul_comm]
    omega
  simp only [atPosition, advance, hparts]
  rw [dif_neg (by omega), dif_neg (by omega)]

end LinePhase

/-- A line on which frames begin only where another one ends or the line is idle. -/
def Flows (line : Nat → LinePhase time) : Prop :=
  ∀ t, ∃ next, line (t + 1) = (line t).advance next

namespace Flows
variable {line : Nat → LinePhase time} {b c : Nat}

theorem passing (h : Flows line) {position : Nat} (hp : position < (bits + 2) * time.cycles)
    (t : Nat) : (line (t + position)).passing position = (line t).passing 0 := by
  induction position with
  | zero => rfl
  | succ position ih =>
      obtain ⟨next, hnext⟩ := h (t + position)
      rw [← Nat.add_assoc, hnext, LinePhase.passing_advance hp, ih (Nat.lt_of_succ_lt hp)]

theorem not_passing (h : Flows line) (hidle : line 0 = .idle) {t position : Nat}
    (hp : position < (bits + 2) * time.cycles) (ht : t < position) :
    (line t).passing position = none := by
  induction t generalizing position with
  | zero => rw [hidle]; rfl
  | succ t ih =>
      obtain ⟨next, hnext⟩ := h t
      obtain ⟨position, rfl⟩ := Nat.exists_eq_add_of_lt (Nat.zero_lt_of_lt ht)
      rw [hnext, Nat.zero_add, LinePhase.passing_advance (by omega)]
      exact ih (by omega) (by omega)

/-- A frame that is begun is sent to its end. -/
theorem mark (h : Flows line) (hb : b < bits + 2) (hc : c < time.cycles) (t : Nat) :
    (line (t + (b * time.cycles + c))).mark b c = (line t).mark 0 0 := by
  rw [LinePhase.mark_eq_passing hc, h.passing (LinePhase.position_lt hb hc),
    LinePhase.mark_eq_passing (Nat.zero_lt_of_lt hc)]
  simp

theorem not_mark (h : Flows line) (hidle : line 0 = .idle) (hb : b < bits + 2)
    (hc : c < time.cycles) {t : Nat} (ht : t < b * time.cycles + c) :
    (line t).mark b c = none := by
  rw [LinePhase.mark_eq_passing hc, h.not_passing hidle (LinePhase.position_lt hb hc) ht]

end Flows
end Soc
