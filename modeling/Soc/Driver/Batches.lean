import Soc.Driver.RoundTrip

/-!
The batches of the bare-metal driver, beside the loops of the kernel.

A batch programs one burst after the other as the kernel does, without waiting. It
counts up the address on the side of the PS only, so that every burst has the same
address on the side of the PL, or on the chip.
-/
namespace Soc
open Loops Copies

/-- `AxiTangxi_args` -/
structure AxiTangxiArgs where
  txDataSize : Int32
  rxDataSize : Int32
  burstSize : Int32
  burstCount : Int32
  burstData : Int32
  txDataPsPtr : UInt64
  rxDataPsPtr : UInt64
  txDataPlPtr : UInt64
  rxDataPlPtr : UInt64

/-- `ADDR_ALIGNED_4096` -/
def addrAligned4096 (addr : UInt64) : UInt64 := (addr + 0x0FFF) &&& ~~~0x0FFF

/-- `init_axi`: what it leaves in the arguments. -/
def initAxi (axiArgs : AxiTangxiArgs) : AxiTangxiArgs :=
  let burstSize := burstSizeDefault.toInt32
  { axiArgs with
    burstSize
    burstCount := (axiArgs.txDataSize - 1) / (burstSize * 16) + 1
    burstData := burstSize * 16
    rxDataPsPtr := addrAligned4096
      (axiArgs.txDataPsPtr + axiArgs.txDataSize.toInt64.toUInt64 + 0x1000000)
    txDataPlPtr := axiArgs.rxDataPlPtr }

/-- The registers of a burst to the chip. -/
structure ChipBurst where
  mm2sAddr : UInt32
  mm2sSize : UInt32
  nocDataPkgAddr : UInt32
  nocDataPkgCtl : UInt32
  deriving DecidableEq

/-- `mm2s_ps_data_tangxi` -/
def mm2sPsDataTangxi (txDataPsAddr rxDataPlAddr burstSize chipPosition : UInt32) (node : UInt8) :
    ChipBurst :=
  { mm2sAddr := txDataPsAddr
    mm2sSize := burstSize - 1
    nocDataPkgAddr := chipPosition <<< 28 ||| node.toUInt32 <<< 20 ||| rxDataPlAddr
    nocDataPkgCtl := (burstSize - 1) <<< 10 ||| 0b0000000010 }

/-- A batch and the registers it writes. -/
structure BatchLoop (γ : Type) where
  program : UInt32 → UInt32 → UInt32 → γ
  locals : Locals

/-- A turn of a batch: whether it sets its flag, and the burst it programs then. -/
structure BatchTurn (γ : Type) where
  confDone : Bool
  burst : γ
  deriving DecidableEq

namespace BatchLoop
variable {γ : Type}

/-- The batch after a turn. The address on the side of the PL stays as it is. -/
def next (j : BatchLoop γ) : BatchLoop γ :=
  let l := j.locals.last
  { j with locals := { l with
      dataRemaining := l.dataRemaining - l.burstData
      psNext := l.psNext + l.burstData } }

def turn (j : BatchLoop γ) : Option (BatchTurn γ × BatchLoop γ) :=
  if j.locals.dataRemaining = 0 then none
  else
    let l := j.locals.last
    some ({ confDone := j.locals.dataRemaining < j.locals.burstData
            burst := j.program l.psNext l.plNext l.burstSize }, j.next)

end BatchLoop

/-- `batch_mm2s_ps_data_tangxi` -/
def batchMm2sPsDataTangxi (axiArgs : AxiTangxiArgs) : BatchLoop ChipBurst :=
  { program := fun psAddr plAddr burstSize => mm2sPsDataTangxi psAddr plAddr burstSize 0 3
    locals :=
      { dataRemaining := axiArgs.txDataSize.toUInt32
        burstSize := axiArgs.burstSize.toUInt32
        burstData := axiArgs.burstData.toUInt32
        psNext := axiArgs.txDataPsPtr.toUInt32
        plNext := axiArgs.rxDataPlPtr.toUInt32 } }

/-- `batch_mm2s_ps_data_s2mm_pl` -/
def batchMm2sPsDataS2mmPl (axiArgs : AxiTangxiArgs) : BatchLoop Burst :=
  { program := mm2sPsDataS2mmPl
    locals :=
      { dataRemaining := axiArgs.txDataSize.toUInt32
        burstSize := axiArgs.burstSize.toUInt32
        burstData := axiArgs.burstData.toUInt32
        psNext := axiArgs.txDataPsPtr.toUInt32
        plNext := axiArgs.rxDataPlPtr.toUInt32 } }

/-- `batch_s2mm_ps_data_mm2s_pl` -/
def batchS2mmPsDataMm2sPl (axiArgs : AxiTangxiArgs) : BatchLoop Burst :=
  { program := s2mmPsDataMm2sPl
    locals :=
      { dataRemaining := axiArgs.rxDataSize.toUInt32
        burstSize := axiArgs.burstSize.toUInt32
        burstData := axiArgs.burstData.toUInt32
        psNext := axiArgs.rxDataPsPtr.toUInt32
        plNext := axiArgs.txDataPlPtr.toUInt32 } }

namespace AxiTangxiArgs

/-- The transfer that the kernel is to carry out with the same arguments. -/
def transfer (axiArgs : AxiTangxiArgs) : Transfer :=
  { txDataSize := axiArgs.txDataSize.toUInt32.toUInt64
    rxDataSize := axiArgs.rxDataSize.toUInt32.toUInt64
    burstSize := axiArgs.burstSize.toUInt32.toUInt64
    burstCount := axiArgs.burstCount.toUInt32.toUInt64
    burstData := axiArgs.burstData.toUInt32.toUInt64
    txDataPsPtr := axiArgs.txDataPsPtr.toUInt32
    rxDataPsPtr := axiArgs.rxDataPsPtr.toUInt32
    txDataPlPtr := axiArgs.txDataPlPtr.toUInt32
    rxDataPlPtr := axiArgs.rxDataPlPtr.toUInt32 }

def batch (axiArgs : AxiTangxiArgs) : Request → BatchLoop Burst
  | .psddrToPlddr => batchMm2sPsDataS2mmPl axiArgs
  | .plddrToPsddr => batchS2mmPsDataMm2sPl axiArgs

def kernel (axiArgs : AxiTangxiArgs) : Request → BurstLoop
  | .psddrToPlddr => axitangxiPsddrPlddr axiArgs.transfer
  | .plddrToPsddr => axitangxiPlddrPsddr axiArgs.transfer

def dataSize (axiArgs : AxiTangxiArgs) : Request → Int32
  | .psddrToPlddr => axiArgs.txDataSize
  | .plddrToPsddr => axiArgs.rxDataSize

/-- Where a transfer reads. -/
def source (axiArgs : AxiTangxiArgs) : Request → UInt64
  | .psddrToPlddr => axiArgs.txDataPsPtr
  | .plddrToPsddr => axiArgs.txDataPlPtr

/-- Where a transfer writes. -/
def destination (axiArgs : AxiTangxiArgs) : Request → UInt64
  | .psddrToPlddr => axiArgs.rxDataPlPtr
  | .plddrToPsddr => axiArgs.rxDataPsPtr

/-- The batch programs the bursts of the kernel, and after them the destination holds the
whole source. -/
def Agrees (axiArgs : AxiTangxiArgs) (request : Request) : Prop :=
  ∃ n m, Ends BatchLoop.turn n (axiArgs.batch request) ∧
    Ends BurstLoop.turn m (axiArgs.kernel request) ∧
    let bursts := (outputs BatchLoop.turn n (axiArgs.batch request)).map BatchTurn.burst
    bursts = outputs BurstLoop.turn m (axiArgs.kernel request) ∧
    ∀ dma : Dma, dma.Copies → ∀ source target : Memory UInt8,
      ∀ i < (axiArgs.dataSize request).toInt.toNat,
        dma.run bursts source target ((axiArgs.destination request).toUInt32.toNat + i) =
          source ((axiArgs.source request).toUInt32.toNat + i)

end AxiTangxiArgs

namespace BatchLoop
variable {γ : Type} {j : BatchLoop γ}

theorem turn_done (h : j.locals.dataRemaining = 0) : j.turn = none := if_pos h

theorem turn_more (h : j.locals.dataRemaining ≠ 0) :
    j.turn = some ({ confDone := j.locals.dataRemaining < j.locals.burstData
                     burst := j.program j.locals.last.psNext j.locals.last.plNext
                       j.locals.last.burstSize }, j.next) := if_neg h

/-- Nothing is left after a burst for all that was left. -/
theorem next_done (hle : j.locals.dataRemaining ≤ j.locals.burstData) :
    j.next.locals.dataRemaining = 0 := by
  change j.locals.last.dataRemaining - j.locals.last.burstData = 0
  rw [Locals.last]
  split
  · exact UInt32.sub_self _
  · next hnot =>
    rw [UInt32.le_antisymm hle (UInt32.not_lt.mp hnot)]
    exact UInt32.sub_self _

theorem next_full (hle : j.locals.burstData ≤ j.locals.dataRemaining) :
    j.next = { j with locals := { j.locals with
      dataRemaining := j.locals.dataRemaining - j.locals.burstData
      psNext := j.locals.psNext + j.locals.burstData } } := by
  have hlast : j.locals.last = j.locals := if_neg (UInt32.not_lt.mpr hle)
  rw [next, hlast]

end BatchLoop

theorem Locals.last_next (l : Locals) : l.last.psNext = l.psNext ∧ l.last.plNext = l.plNext := by
  rw [last]
  split <;> exact ⟨rfl, rfl⟩

namespace BurstLoop
variable {j : BurstLoop}

/-- The batch with the registers and variables of a loop. -/
def batch (j : BurstLoop) : BatchLoop Burst := { program := j.program, locals := j.locals }

theorem turn_more (h : j.locals.dataRemaining ≠ 0) :
    ∃ j', j.turn = some (j.burstAt 0 j.locals.last.burstSize, j') := by
  obtain ⟨hps, hpl⟩ := j.locals.last_next
  rw [turn, if_neg h, burstAt_zero, ← hps, ← hpl]
  exact ⟨_, rfl⟩

theorem turn_single (h : j.locals.dataRemaining ≠ 0)
    (hle : j.locals.dataRemaining ≤ j.locals.burstData) :
    ∃ j', j.turn = some (j.burstAt 0 j.locals.last.burstSize, j') ∧ j'.turn = none := by
  by_cases hlt : j.locals.dataRemaining < j.locals.burstData
  · have hsize : j.locals.last.burstSize = alignUp16 j.locals.dataRemaining >>> 4 := by
      rw [Locals.last, if_pos hlt]
    rw [hsize]
    exact turn_tail h hlt
  · have heq := UInt32.le_antisymm hle (UInt32.not_lt.mp hlt)
    have hlast : j.locals.last = j.locals := if_neg hlt
    have hdone : j.afterFull.locals.dataRemaining = 0 := by
      change j.locals.dataRemaining - j.locals.burstData = 0
      rw [heq, UInt32.sub_self]
    rw [hlast]
    exact ⟨_, turn_full h (UInt32.not_lt.mp hlt), turn_done hdone⟩

theorem batch_turn (h : j.locals.dataRemaining ≠ 0) :
    j.batch.turn = some ({ confDone := j.locals.dataRemaining < j.locals.burstData
                           burst := j.burstAt 0 j.locals.last.burstSize }, j.batch.next) := by
  obtain ⟨hps, hpl⟩ := j.locals.last_next
  rw [BatchLoop.turn_more h, burstAt_zero, ← hps, ← hpl]
  rfl

/-- Where a single burst is enough, both program the same. -/
theorem agree_single (h : j.locals.dataRemaining ≠ 0)
    (hle : j.locals.dataRemaining ≤ j.locals.burstData) :
    Ends BatchLoop.turn 1 j.batch ∧ Ends turn 1 j ∧
      (outputs BatchLoop.turn 1 j.batch).map BatchTurn.burst =
        [j.burstAt 0 j.locals.last.burstSize] ∧
      outputs turn 1 j = [j.burstAt 0 j.locals.last.burstSize] := by
  have hnext : j.batch.next.turn = none := BatchLoop.turn_done (BatchLoop.next_done hle)
  obtain ⟨j', hturn, hdone⟩ := turn_single h hle
  refine ⟨⟨_, batch_turn h, hnext⟩, ⟨_, hturn, hdone⟩, ?_, ?_⟩
  · rw [outputs_succ (batch_turn h)]
    rfl
  · rw [outputs_succ hturn]
    rfl

/-- The second burst of a batch is at the address of the first on the side of the PL. -/
theorem differ_second {request : Request} (hprogram : j.program = request.program)
    (hdata : j.locals.burstData ≠ 0) (hlt : j.locals.burstData < j.locals.dataRemaining)
    {n m : Nat} (hn : Ends BatchLoop.turn n j.batch) (hm : Ends turn m j) :
    (outputs BatchLoop.turn n j.batch).map BatchTurn.burst ≠ outputs turn m j := by
  have hle := UInt32.le_of_lt hlt
  have hlt' := UInt32.lt_iff_toNat_lt.mp hlt
  have hmore : j.locals.dataRemaining ≠ 0 := by
    rw [Ne, ← toNat_eq_zero]
    omega
  have hrest : j.locals.dataRemaining - j.locals.burstData ≠ 0 := by
    rw [Ne, ← toNat_eq_zero, UInt32.toNat_sub_of_le _ _ hle]
    omega
  have hnext := BatchLoop.next_full (j := j.batch) hle
  have hmore' : j.batch.next.locals.dataRemaining ≠ 0 := by
    rw [hnext]
    exact hrest
  obtain ⟨_, hn, houtputs⟩ := hn.cons (batch_turn hmore)
  obtain ⟨_, _, houtputs'⟩ := hn.cons (BatchLoop.turn_more hmore')
  obtain ⟨_, hm, hbursts⟩ := hm.cons (turn_full hmore hle)
  obtain ⟨j', hturn⟩ := turn_more (j := j.afterFull) hrest
  obtain ⟨_, _, hbursts'⟩ := hm.cons hturn
  rw [houtputs, houtputs', hbursts, hbursts', List.map_cons, List.map_cons]
  intro heq
  have hsecond := (List.cons.inj (List.cons.inj heq).2).1
  have hside := congrArg (fun b => (request.plSide b).1) hsecond
  have hbatch : j.batch.next.program = request.program := hprogram
  have hloop : j.afterFull.program = request.program := hprogram
  have hsame : j.batch.next.locals.plNext = j.locals.plNext := by rw [hnext]; rfl
  have hnextPl : j.afterFull.locals.plNext = j.locals.plNext + j.locals.burstData := rfl
  simp only [hbatch, burstAt_zero, hloop, request.plSide_program,
    (Locals.last_next _).2, hsame, hnextPl, UInt32.toNat_add] at hside
  have hpos := burstData_pos hdata
  have hpl := j.locals.plNext.toNat_lt
  have hbound := j.locals.burstData.toNat_lt
  omega

end BurstLoop

/-- A burst copies what it covers. -/
theorem Dma.Copies.run_single {dma : Dma} (hdma : dma.Copies) {b : Burst}
    (hsame : b.mm2sSize = b.s2mmSize) (source target : Memory UInt8) {i : Nat}
    (hi : i < b.reads.2) :
    dma.run [b] source target (b.writes.1 + i) = source (b.reads.1 + i) := by
  change dma b source target (b.writes.1 + i) = source (b.reads.1 + i)
  rw [hdma b source target hsame, copy_inside source target hi]

/-- A single burst has a beat for all of its bytes. -/
theorem BurstLoop.last_beats {j : BurstLoop} (h : j.locals.dataRemaining ≠ 0)
    (hle : j.locals.dataRemaining ≤ j.locals.burstData)
    (hbytes : j.locals.burstData.toNat = 16 * j.locals.burstSize.toNat)
    (hbound : j.locals.burstData.toNat < 2 ^ 31) :
    j.locals.dataRemaining.toNat ≤ 16 * ((j.locals.last.burstSize - 1).toNat + 1) := by
  have hpos := mt toNat_eq_zero.mp h
  have hle' := UInt32.le_iff_toNat_le.mp hle
  have hbeats : j.locals.dataRemaining.toNat ≤ 16 * j.locals.last.burstSize.toNat := by
    rw [Locals.last]
    split
    · change _ ≤ 16 * (alignUp16 j.locals.dataRemaining >>> 4).toNat
      rw [alignUp16_beats]
      omega
    · omega
  have hone : (1 : UInt32) ≤ j.locals.last.burstSize := by
    rw [UInt32.le_iff_toNat_le]
    change 1 ≤ _
    omega
  rw [UInt32.toNat_sub_of_le _ _ hone]
  change _ ≤ 16 * (j.locals.last.burstSize.toNat - 1 + 1)
  omega

theorem toNat_of_nonneg {x : Int32} (h : 0 ≤ x.toInt) : x.toUInt32.toNat = x.toInt.toNat :=
  Int32.toNat_toUInt32_of_le (Int32.le_iff_toInt_le.mpr h)

namespace AxiTangxiArgs
variable {axiArgs : AxiTangxiArgs} {request : Request}

theorem batch_eq : axiArgs.batch request = (axiArgs.kernel request).batch := by
  cases request <;> simp [batch, kernel, BurstLoop.batch, transfer, batchMm2sPsDataS2mmPl,
    axitangxiPsddrPlddr, batchS2mmPsDataMm2sPl, axitangxiPlddrPsddr]

theorem kernel_program : (axiArgs.kernel request).program = request.program := by
  cases request <;> rfl

theorem kernel_size :
    (axiArgs.kernel request).locals.dataRemaining = (axiArgs.dataSize request).toUInt32 := by
  cases request <;> exact UInt32.toUInt32_toUInt64 _

end AxiTangxiArgs

/-- With bursts of 16 bytes a beat, a batch agrees with the kernel exactly when one burst is
enough. -/
theorem batch_agrees_iff (request : Request) {axiArgs : AxiTangxiArgs}
    (hsize : 1 ≤ (axiArgs.dataSize request).toInt) (hdata : 0 < axiArgs.burstData.toInt)
    (hbytes : axiArgs.burstData.toInt = 16 * axiArgs.burstSize.toInt) :
    axiArgs.Agrees request ↔ (axiArgs.dataSize request).toInt ≤ axiArgs.burstData.toInt := by
  have hremaining : (axiArgs.kernel request).locals.dataRemaining.toNat =
      (axiArgs.dataSize request).toInt.toNat := by
    rw [AxiTangxiArgs.kernel_size, toNat_of_nonneg (by omega)]
  have hburstData : (axiArgs.kernel request).locals.burstData.toNat =
      axiArgs.burstData.toInt.toNat := by
    rw [← toNat_of_nonneg (by omega)]
    cases request <;> exact congrArg UInt32.toNat (UInt32.toUInt32_toUInt64 _)
  have hburstSize : (axiArgs.kernel request).locals.burstSize.toNat =
      axiArgs.burstSize.toInt.toNat := by
    rw [← toNat_of_nonneg (by omega)]
    cases request <;> exact congrArg UInt32.toNat (UInt32.toUInt32_toUInt64 _)
  have hmore : (axiArgs.kernel request).locals.dataRemaining ≠ 0 := by
    rw [Ne, ← toNat_eq_zero]
    omega
  have hpos : (axiArgs.kernel request).locals.burstData ≠ 0 := by
    rw [Ne, ← toNat_eq_zero]
    omega
  rw [AxiTangxiArgs.Agrees, AxiTangxiArgs.batch_eq]
  constructor
  · intro ⟨n, m, hn, hm, hbursts, _⟩
    refine Int.not_lt.mp fun hlt => ?_
    refine BurstLoop.differ_second AxiTangxiArgs.kernel_program hpos ?_ hn hm hbursts
    rw [UInt32.lt_iff_toNat_lt]
    omega
  · intro hle
    have hle' : (axiArgs.kernel request).locals.dataRemaining ≤
        (axiArgs.kernel request).locals.burstData := by
      rw [UInt32.le_iff_toNat_le]
      omega
    obtain ⟨hn, hm, hbatch, hkernel⟩ := BurstLoop.agree_single hmore hle'
    refine ⟨1, 1, hn, hm, hbatch.trans hkernel.symm, ?_⟩
    intro dma hdma source target i hi
    have hbound := axiArgs.burstData.toInt_lt
    have hbeats := BurstLoop.last_beats hmore hle' (by omega) (by omega)
    have hi : i < 16 * (((axiArgs.kernel request).locals.last.burstSize - 1).toNat + 1) := by
      omega
    rw [hbatch, BurstLoop.burstAt_zero]
    cases request with
    | psddrToPlddr => exact hdma.run_single rfl source target hi
    | plddrToPsddr => exact hdma.run_single rfl source target hi

/-- A transfer from where the pictures are, and to where they go. -/
def pictureArgs (size : Int32) : AxiTangxiArgs :=
  initAxi
    { txDataSize := size
      rxDataSize := size
      burstSize := 0
      burstCount := 0
      burstData := 0
      txDataPsPtr := 0x10000000
      rxDataPsPtr := 0x30000000
      txDataPlPtr := 0x10000000
      rxDataPlPtr := 0x10000000 }

theorem batch_agrees_picture :
    (pictureArgs 0x100000).Agrees .psddrToPlddr :=
  (batch_agrees_iff .psddrToPlddr (by decide) (by decide) (by decide)).mpr (by decide)

/-- The second of two full bursts. -/
theorem batch_differs : ¬ (pictureArgs 0x200000).Agrees .psddrToPlddr := by
  intro ⟨n, m, hn, hm, hbursts, _⟩
  rw [AxiTangxiArgs.batch_eq] at hn hbursts
  exact BurstLoop.differ_second AxiTangxiArgs.kernel_program (by decide) (by decide) hn hm hbursts

end Soc
