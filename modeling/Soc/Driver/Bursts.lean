import Soc.Driver.Device
import Soc.Foundation.Copies
import Soc.Foundation.Loops

/-!
The burst loops of a transfer.

Both loops program one burst a turn: the burst of the transaction while that many
bytes are left, and then what is left, rounded up to 16 bytes. All of their
variables have 32 bits and wrap. In closed form a loop programs the full bursts one
behind the other and one tail, if the bytes are no multiple of a burst.
-/
namespace Soc
open Loops

/-- `BURST_SIZE` -/
abbrev burstSizeDefault : UInt32 := 65536

/-- `ADDR_ALIGN_BASE_16` -/
abbrev addrAlignBase16 : UInt32 := 0x10

/-- `ADDR_ALIGN_BASE_16_MASK` -/
abbrev addrAlignBase16Mask : UInt32 := addrAlignBase16 - 1

/-- `struct axitangxi_transaction` -/
structure Transaction where
  txDataSize : UInt64
  rxDataSize : UInt64
  burstSize : UInt64
  burstCount : UInt64
  burstData : UInt64
  txDataPsPtr : UInt64
  rxDataPsPtr : UInt64
  txDataPlPtr : UInt32
  rxDataPlPtr : UInt32

/-- `struct axitangxi_transfer`. Of the four addresses each direction sets two. -/
structure Transfer where
  txDataSize : UInt64
  rxDataSize : UInt64
  burstSize : UInt64
  burstCount : UInt64
  burstData : UInt64
  txDataPsPtr : UInt32 := 0
  rxDataPsPtr : UInt32 := 0
  txDataPlPtr : UInt32 := 0
  rxDataPlPtr : UInt32 := 0

/-- The registers of a burst: the side that reads memory and the side that writes it. -/
structure Burst where
  mm2sAddr : UInt32
  mm2sSize : UInt32
  s2mmAddr : UInt32
  s2mmSize : UInt32
  deriving DecidableEq

/-- `mm2s_ps_data_s2mm_pl`: the PS side is read and the PL side is written. -/
def mm2sPsDataS2mmPl (txDataPsAddr rxDataPlAddr burstSize : UInt32) : Burst :=
  { mm2sAddr := txDataPsAddr
    mm2sSize := burstSize - 1
    s2mmAddr := rxDataPlAddr
    s2mmSize := burstSize - 1 }

/-- `s2mm_ps_data_mm2s_pl`: the PL side is read and the PS side is written. -/
def s2mmPsDataMm2sPl (rxDataPsAddr txDataPlAddr burstSize : UInt32) : Burst :=
  { mm2sAddr := txDataPlAddr
    mm2sSize := burstSize - 1
    s2mmAddr := rxDataPsAddr
    s2mmSize := burstSize - 1 }

structure Locals where
  dataRemaining : UInt32
  burstSize : UInt32
  burstData : UInt32
  psNext : UInt32
  plNext : UInt32

def alignUp16 (n : UInt32) : UInt32 :=
  if n &&& addrAlignBase16Mask ≠ 0 then n + (addrAlignBase16 - (n &&& addrAlignBase16Mask)) else n

/-- The block for the last burst. -/
def Locals.last (l : Locals) : Locals :=
  if l.dataRemaining < l.burstData then
    let dataRemaining := alignUp16 l.dataRemaining
    { l with dataRemaining, burstSize := dataRemaining >>> 4, burstData := dataRemaining }
  else l

/-- A loop and the registers it writes. -/
structure BurstLoop where
  program : UInt32 → UInt32 → UInt32 → Burst
  locals : Locals

/-- A turn of the loop. The wait at its end only logs a timeout, and the loop goes on
either way. -/
def BurstLoop.turn (j : BurstLoop) : Option (Burst × BurstLoop) :=
  if j.locals.dataRemaining = 0 then none
  else
    let l := j.locals.last
    some (j.program l.psNext l.plNext l.burstSize,
      { j with locals := { l with
          dataRemaining := l.dataRemaining - l.burstData
          psNext := l.psNext + l.burstData
          plNext := l.plNext + l.burstData } })

/-- `axitangxi_psddr_plddr` -/
def axitangxiPsddrPlddr (t : Transfer) : BurstLoop :=
  { program := mm2sPsDataS2mmPl
    locals :=
      { dataRemaining := t.txDataSize.toUInt32
        burstSize := t.burstSize.toUInt32
        burstData := t.burstData.toUInt32
        psNext := t.txDataPsPtr
        plNext := t.rxDataPlPtr } }

/-- `axitangxi_plddr_psddr` -/
def axitangxiPlddrPsddr (t : Transfer) : BurstLoop :=
  { program := s2mmPsDataMm2sPl
    locals :=
      { dataRemaining := t.rxDataSize.toUInt32
        burstSize := t.burstSize.toUInt32
        burstData := t.burstData.toUInt32
        psNext := t.rxDataPsPtr
        plNext := t.txDataPlPtr } }

/-- `psddr_to_plddr`: the loop it runs and what it returns. -/
def psddrToPlddr (addrList : List Allocation) (trans : Transaction) : BurstLoop × Int :=
  (axitangxiPsddrPlddr
    { txDataSize := trans.txDataSize
      rxDataSize := trans.rxDataSize
      burstSize := trans.burstSize
      burstCount := trans.burstCount
      burstData := trans.burstData
      rxDataPlPtr := trans.rxDataPlPtr
      txDataPsPtr := axitangxiUservirtToPhys addrList trans.txDataPsPtr }, 0)

/-- `plddr_to_psddr` -/
def plddrToPsddr (addrList : List Allocation) (trans : Transaction) : BurstLoop × Int :=
  (axitangxiPlddrPsddr
    { txDataSize := trans.txDataSize
      rxDataSize := trans.rxDataSize
      burstSize := trans.burstSize
      burstCount := trans.burstCount
      burstData := trans.burstData
      txDataPlPtr := trans.txDataPlPtr
      rxDataPsPtr := axitangxiUservirtToPhys addrList trans.rxDataPsPtr }, 0)

/-- The two transfer requests of `axitangxi_ioctl`. -/
inductive Request where
  /-- `PSDDR_TO_PLDDR` -/
  | psddrToPlddr
  /-- `PLDDR_TO_PSDDR` -/
  | plddrToPsddr
  deriving DecidableEq

/-- `axitangxi_ioctl` on a transaction it could copy. -/
def axitangxiIoctl (addrList : List Allocation) (trans : Transaction) : Request → BurstLoop × Int
  | .psddrToPlddr => Soc.psddrToPlddr addrList trans
  | .plddrToPsddr => Soc.plddrToPsddr addrList trans

/-- `init_trans` -/
def initTrans (psAddr : UInt64) (plAddr size : UInt32) : Transaction :=
  let burstData : UInt64 := 16 * burstSizeDefault.toUInt64
  { txDataSize := size.toUInt64
    rxDataSize := size.toUInt64
    burstSize := burstSizeDefault.toUInt64
    burstData
    burstCount := (size - 1).toUInt64 / burstData + 1
    txDataPsPtr := psAddr
    rxDataPsPtr := psAddr
    rxDataPlPtr := plAddr
    txDataPlPtr := plAddr }

/-! The loop in closed form. -/

theorem toNat_eq_zero {n : UInt32} : n.toNat = 0 ↔ n = 0 := by
  rw [← UInt32.toNat_inj]
  rfl

theorem alignUp16_toNat (n : UInt32) : (alignUp16 n).toNat = (n.toNat + 15) / 16 * 16 % 2 ^ 32 := by
  have hmask : (n &&& addrAlignBase16Mask).toNat = n.toNat % 16 := by
    rw [UInt32.toNat_and]
    exact Nat.and_two_pow_sub_one_eq_mod n.toNat 4
  have hn := n.toNat_lt
  rw [alignUp16]
  split
  · next hrest =>
    have hne : n.toNat % 16 ≠ 0 := by
      intro heq
      exact hrest (UInt32.toNat_inj.mp (hmask.trans heq))
    rw [UInt32.toNat_add, UInt32.toNat_sub, hmask]
    have h16 : addrAlignBase16.toNat = 16 := rfl
    omega
  · next hrest =>
    have heq : n.toNat % 16 = 0 := by
      rw [← hmask, Decidable.not_not.mp hrest]
      rfl
    omega

/-- The physical bytes of an allocation. -/
def Allocation.bytes (alloc : Allocation) : Set Nat :=
  Set.Ico alloc.dmaAddr.toNat (alloc.dmaAddr.toNat + alloc.size.toNat)

/-! Both requests alike. -/

/-- Where a burst reads, and how many bytes: 16 a beat, and one beat more than the
register says. -/
def Burst.reads (b : Burst) : Nat × Nat := (b.mm2sAddr.toNat, 16 * (b.mm2sSize.toNat + 1))

/-- Where a burst writes, and how many bytes. -/
def Burst.writes (b : Burst) : Nat × Nat := (b.s2mmAddr.toNat, 16 * (b.s2mmSize.toNat + 1))

namespace Request

def psSide : Request → Burst → Nat × Nat
  | .psddrToPlddr, b => b.reads
  | .plddrToPsddr, b => b.writes

/-- The PS bytes a burst covers. -/
def psBytes (request : Request) (b : Burst) : Set Nat :=
  Set.Ico (request.psSide b).1 ((request.psSide b).1 + (request.psSide b).2)

def plSide : Request → Burst → Nat × Nat
  | .psddrToPlddr, b => b.writes
  | .plddrToPsddr, b => b.reads

def psPtr : Request → Transaction → UInt64
  | .psddrToPlddr, t => t.txDataPsPtr
  | .plddrToPsddr, t => t.rxDataPsPtr

def plPtr : Request → Transaction → UInt32
  | .psddrToPlddr, t => t.rxDataPlPtr
  | .plddrToPsddr, t => t.txDataPlPtr

/-- How many bytes a request is for. -/
def dataSize : Request → Transaction → UInt64
  | .psddrToPlddr, t => t.txDataSize
  | .plddrToPsddr, t => t.rxDataSize

def program : Request → UInt32 → UInt32 → UInt32 → Burst
  | .psddrToPlddr => mm2sPsDataS2mmPl
  | .plddrToPsddr => s2mmPsDataMm2sPl

end Request

/-- The loop of a request, which starts with the low 32 bits of its sizes. -/
def Request.loop (request : Request) (addrList : List Allocation) (trans : Transaction) :
    BurstLoop :=
  { program := request.program
    locals :=
      { dataRemaining := (request.dataSize trans).toUInt32
        burstSize := trans.burstSize.toUInt32
        burstData := trans.burstData.toUInt32
        psNext := axitangxiUservirtToPhys addrList (request.psPtr trans)
        plNext := request.plPtr trans } }

theorem axitangxiIoctl_loop (addrList : List Allocation) (trans : Transaction)
    (request : Request) :
    (axitangxiIoctl addrList trans request).1 = request.loop addrList trans := by
  cases request <;> rfl

/-- No transaction is refused. -/
theorem axitangxiIoctl_rc (addrList : List Allocation) (trans : Transaction) (request : Request) :
    (axitangxiIoctl addrList trans request).2 = 0 := by
  cases request <;> rfl

theorem Request.psSide_program (request : Request) (psAddr plAddr burstSize : UInt32) :
    request.psSide (request.program psAddr plAddr burstSize) =
      (psAddr.toNat, 16 * ((burstSize - 1).toNat + 1)) := by
  cases request <;> rfl

theorem Request.plSide_program (request : Request) (psAddr plAddr burstSize : UInt32) :
    request.plSide (request.program psAddr plAddr burstSize) =
      (plAddr.toNat, 16 * ((burstSize - 1).toNat + 1)) := by
  cases request <;> rfl

theorem alignUp16_beats (n : UInt32) :
    (alignUp16 n >>> 4).toNat = (n.toNat + 15) / 16 % 2 ^ 28 := by
  have hfour : (4 : UInt32).toNat % 32 = 4 := rfl
  rw [UInt32.toNat_shiftRight, alignUp16_toNat, hfour, Nat.shiftRight_eq_div_pow]
  omega

namespace BurstLoop
variable (j : BurstLoop)

/-- The burst at some distance from the start of both buffers. -/
def burstAt (offset : Nat) (burstSize : UInt32) : Burst :=
  j.program (j.locals.psNext + UInt32.ofNat offset) (j.locals.plNext + UInt32.ofNat offset)
    burstSize

/-- How many bursts of the transaction are programmed before the tail. -/
def full : Nat := j.locals.dataRemaining.toNat / j.locals.burstData.toNat

/-- How many bytes are left for the tail. -/
def rest : Nat := j.locals.dataRemaining.toNat % j.locals.burstData.toNat

def plan : List Burst :=
  (List.range j.full).map (fun k => j.burstAt (k * j.locals.burstData.toNat) j.locals.burstSize) ++
    if j.rest = 0 then []
    else [j.burstAt (j.full * j.locals.burstData.toNat) (alignUp16 (UInt32.ofNat j.rest) >>> 4)]

variable {j}

def afterFull (j : BurstLoop) : BurstLoop :=
  { j with locals := { j.locals with
      dataRemaining := j.locals.dataRemaining - j.locals.burstData
      psNext := j.locals.psNext + j.locals.burstData
      plNext := j.locals.plNext + j.locals.burstData } }

theorem turn_done (h : j.locals.dataRemaining = 0) : j.turn = none := if_pos h

theorem burstAt_zero (burstSize : UInt32) :
    j.burstAt 0 burstSize = j.program j.locals.psNext j.locals.plNext burstSize := by
  have hzero : UInt32.ofNat 0 = 0 := rfl
  rw [burstAt, hzero, UInt32.add_zero, UInt32.add_zero]

theorem burstAt_afterFull (offset : Nat) (burstSize : UInt32) :
    j.afterFull.burstAt offset burstSize =
      j.burstAt (j.locals.burstData.toNat + offset) burstSize := by
  simp only [burstAt, afterFull, UInt32.ofNat_add, UInt32.ofNat_toNat, UInt32.add_assoc]

theorem turn_full (h : j.locals.dataRemaining ≠ 0)
    (hle : j.locals.burstData ≤ j.locals.dataRemaining) :
    j.turn = some (j.burstAt 0 j.locals.burstSize, j.afterFull) := by
  have hlast : j.locals.last = j.locals := if_neg (UInt32.not_lt.mpr hle)
  rw [turn, if_neg h, hlast, burstAt_zero]
  rfl

theorem turn_tail (h : j.locals.dataRemaining ≠ 0)
    (hlt : j.locals.dataRemaining < j.locals.burstData) :
    ∃ j', j.turn = some (j.burstAt 0 (alignUp16 j.locals.dataRemaining >>> 4), j') ∧
      j'.turn = none := by
  have hlast : j.locals.last = { j.locals with
      dataRemaining := alignUp16 j.locals.dataRemaining
      burstSize := alignUp16 j.locals.dataRemaining >>> 4
      burstData := alignUp16 j.locals.dataRemaining } := if_pos hlt
  rw [turn, if_neg h, hlast, burstAt_zero]
  exact ⟨_, rfl, turn_done (UInt32.sub_self _)⟩

/-- A burst of no bytes leaves the loop where it is. -/
theorem turn_stuck (h : j.locals.dataRemaining ≠ 0) (hzero : j.locals.burstData = 0) :
    j.turn = some (j.burstAt 0 j.locals.burstSize, j) := by
  have hafter : j.afterFull = j := by
    obtain ⟨program, locals⟩ := j
    obtain ⟨dataRemaining, burstSize, burstData, psNext, plNext⟩ := locals
    obtain rfl : burstData = 0 := hzero
    simp only [afterFull, UInt32.sub_zero, UInt32.add_zero]
  rw [turn_full h (by rw [hzero]; exact UInt32.zero_le), hafter]

theorem burstData_pos (h : j.locals.burstData ≠ 0) : 0 < j.locals.burstData.toNat :=
  Nat.pos_of_ne_zero (mt toNat_eq_zero.mp h)

theorem afterFull_remaining (hle : j.locals.burstData ≤ j.locals.dataRemaining) :
    j.afterFull.locals.dataRemaining.toNat =
      j.locals.dataRemaining.toNat - j.locals.burstData.toNat := UInt32.toNat_sub_of_le _ _ hle

theorem full_afterFull (h : j.locals.burstData ≠ 0)
    (hle : j.locals.burstData ≤ j.locals.dataRemaining) : j.full = j.afterFull.full + 1 := by
  rw [full, full, afterFull_remaining hle]
  exact Nat.div_eq_sub_div (burstData_pos h) hle

theorem rest_afterFull (hle : j.locals.burstData ≤ j.locals.dataRemaining) :
    j.rest = j.afterFull.rest := by
  rw [rest, rest, afterFull_remaining hle]
  exact Nat.mod_eq_sub_mod hle

theorem plan_full (h : j.locals.burstData ≠ 0)
    (hle : j.locals.burstData ≤ j.locals.dataRemaining) :
    j.plan = j.burstAt 0 j.locals.burstSize :: j.afterFull.plan := by
  have hdata : j.afterFull.locals.burstData = j.locals.burstData := rfl
  have hoffset : ∀ k, (k + 1) * j.locals.burstData.toNat =
      j.locals.burstData.toNat + k * j.locals.burstData.toNat := fun k => by
    rw [Nat.succ_mul, Nat.add_comm]
  rw [plan, plan, full_afterFull h hle, rest_afterFull hle, hdata, List.range_succ_eq_map,
    List.map_cons, List.map_map, Nat.zero_mul, List.cons_append]
  simp only [Function.comp_def, Nat.succ_eq_add_one, hoffset, burstAt_afterFull]
  rfl

theorem plan_tail (hlt : j.locals.dataRemaining < j.locals.burstData) :
    j.plan = if j.locals.dataRemaining = 0 then []
      else [j.burstAt 0 (alignUp16 j.locals.dataRemaining >>> 4)] := by
  have hfull : j.full = 0 := Nat.div_eq_of_lt hlt
  have hrest : j.rest = j.locals.dataRemaining.toNat := Nat.mod_eq_of_lt hlt
  rw [plan, hfull, hrest, UInt32.ofNat_toNat, Nat.zero_mul, List.range_zero, List.map_nil,
    List.nil_append]
  simp only [toNat_eq_zero]

/-- A loop whose bursts have bytes: the tail, and one full burst before the rest. -/
theorem full_rule {motive : (j : BurstLoop) → j.locals.burstData ≠ 0 → Prop}
    (tail : ∀ j h, j.locals.dataRemaining < j.locals.burstData → motive j h)
    (step : ∀ j h, j.locals.dataRemaining ≠ 0 → j.locals.burstData ≤ j.locals.dataRemaining →
      motive j.afterFull h → motive j h) (j : BurstLoop) (h : j.locals.burstData ≠ 0) :
    motive j h := by
  generalize hq : j.full = q
  induction q generalizing j with
  | zero => exact tail j h ((Nat.div_eq_zero_iff_lt (burstData_pos h)).mp hq)
  | succ q ih =>
      have hle : j.locals.burstData ≤ j.locals.dataRemaining := by
        rw [← UInt32.not_lt]
        intro hlt
        have hnone : j.full = 0 := Nat.div_eq_of_lt hlt
        omega
      have hmore : j.locals.dataRemaining ≠ 0 := by
        intro hzero
        have hle0 : j.locals.burstData ≤ 0 := hzero ▸ hle
        exact h (UInt32.le_zero_iff.mp hle0)
      have hnext : j.afterFull.full = q := by
        rw [full_afterFull h hle] at hq
        exact Nat.succ.inj hq
      exact step j h hmore hle (ih j.afterFull h hnext)

/-- A loop whose bursts have bytes ends, and programs its plan. -/
theorem plan_spec (h : j.locals.burstData ≠ 0) :
    Ends turn j.plan.length j ∧ outputs turn j.plan.length j = j.plan := by
  induction j, h using full_rule with
  | tail j _ hlt =>
      rw [plan_tail hlt]
      split
      · next hdone => exact ⟨turn_done hdone, rfl⟩
      · next hmore =>
        obtain ⟨j', hturn, hdone⟩ := turn_tail hmore hlt
        refine ⟨⟨_, hturn, hdone⟩, ?_⟩
        rw [List.length_singleton, outputs_succ hturn]
        rfl
  | step j h hmore hle ih =>
      have hturn := turn_full hmore hle
      rw [plan_full h hle, List.length_cons]
      refine ⟨⟨_, hturn, ih.1⟩, ?_⟩
      rw [outputs_succ hturn, ih.2]

theorem mem_plan {b : Burst} : b ∈ j.plan ↔
    (∃ k < j.full, b = j.burstAt (k * j.locals.burstData.toNat) j.locals.burstSize) ∨
      (j.rest ≠ 0 ∧ b = j.burstAt (j.full * j.locals.burstData.toNat)
        (alignUp16 (UInt32.ofNat j.rest) >>> 4)) := by
  rw [plan, List.mem_append]
  apply or_congr
  · simp only [List.mem_map, List.mem_range, eq_comm]
  · split
    · next hnone => simp [hnone]
    · next hmore => rw [List.mem_singleton, and_iff_right hmore]

/-- What a loop programs, when it ends and when it does not. -/
theorem puts_iff {b : Burst} : Puts turn j b ↔
    j.locals.dataRemaining ≠ 0 ∧
      if j.locals.burstData = 0 then b = j.burstAt 0 j.locals.burstSize else b ∈ j.plan := by
  by_cases hdone : j.locals.dataRemaining = 0
  · constructor
    · rintro ⟨n, hb⟩
      rw [outputs_none (turn_done hdone)] at hb
      contradiction
    · rintro ⟨hmore, -⟩
      contradiction
  · rw [and_iff_right hdone]
    split
    · next hzero => exact puts_fixed (turn_stuck hdone hzero)
    · next hdata =>
      obtain ⟨hends, houtputs⟩ := plan_spec hdata
      rw [hends.puts_iff, houtputs]

/-- How often a loop turns, if it is left. -/
def bursts (j : BurstLoop) : Nat :=
  (j.locals.dataRemaining.toNat + j.locals.burstData.toNat - 1) / j.locals.burstData.toNat

theorem ends_bursts (h : j.locals.burstData ≠ 0) : Ends turn j.bursts j := by
  induction j, h using full_rule with
  | tail j hdata hlt =>
      have hpos := burstData_pos hdata
      have hlt' := UInt32.lt_iff_toNat_lt.mp hlt
      by_cases hdone : j.locals.dataRemaining = 0
      · have hnone : j.bursts = 0 := by
          rw [bursts, toNat_eq_zero.mpr hdone, Nat.zero_add]
          exact Nat.div_eq_of_lt (by omega)
        rw [hnone]
        exact turn_done hdone
      · have hmore := mt toNat_eq_zero.mp hdone
        have hone : j.bursts = 1 := Nat.div_eq_of_lt_le (by omega) (by omega)
        obtain ⟨j', hturn, hend⟩ := turn_tail hdone hlt
        rw [hone]
        exact ⟨_, hturn, hend⟩
  | step j hdata hmore hle ih =>
      have hpos := burstData_pos hdata
      have hle' := UInt32.le_iff_toNat_le.mp hle
      have hsucc : j.bursts = j.afterFull.bursts + 1 := by
        have hsame : j.afterFull.locals.burstData = j.locals.burstData := rfl
        rw [bursts, bursts, hsame, afterFull_remaining hle, ← Nat.add_div_right _ hpos]
        congr 1
        omega
      rw [hsucc]
      exact ⟨_, turn_full hmore hle, ih⟩

theorem ends_iff {n : Nat} : Ends turn n j ↔
    (j.locals.dataRemaining = 0 ∨ j.locals.burstData ≠ 0) ∧ n = j.bursts := by
  by_cases hdata : j.locals.burstData = 0
  · by_cases hdone : j.locals.dataRemaining = 0
    · have hends : Ends turn 0 j := turn_done hdone
      have hnone : j.bursts = 0 := by
        rw [bursts, toNat_eq_zero.mpr hdata, Nat.div_zero]
      rw [and_iff_right (.inl hdone), hnone]
      constructor
      · exact fun h => h.unique hends
      · rintro rfl
        exact hends
    · constructor
      · intro hends
        exact absurd hends (not_ends_fixed (turn_stuck hdone hdata) n)
      · intro ⟨hleft, _⟩
        exact (hleft.elim hdone (absurd hdata)).elim
  · rw [and_iff_right (.inr hdata)]
    constructor
    · exact fun h => h.unique (ends_bursts hdata)
    · rintro rfl
      exact ends_bursts hdata

end BurstLoop

end Soc
