import Soc.Driver.RoundTrip

/-!
What becomes of a timeout.

Every burst is followed by a wait for its completion, and what is left of the time
is zero after a timeout. The loops log that and go on, and `NETWORK_ACC_GET` drops
what `acc_complete` returns, so that no caller sees a timeout.
-/
namespace Soc
open Loops

/-- A turn with its wait. `timeRemain` is what `wait_for_completion_timeout` returns each
time; to return `-ETIME` is commented out after it. -/
def BurstLoop.waitTurn (timeRemain : Nat → Nat) :
    BurstLoop × Nat → Option ((Burst × Nat) × BurstLoop × Nat) :=
  numbered BurstLoop.turn fun count b => (b, timeRemain count)

/-- `ETIME` -/
def etime : Int := 62

/-- `EFAULT` -/
def efault : Int := 14

/-- `MAP_FAILED` -/
def mapFailed : UInt64 := 0xFFFFFFFFFFFFFFFF

/-- A transfer request of `axitangxi_ioctl`, whose argument may be unreadable: the loop it
runs, if any, and what it returns. -/
def ioctlTransfer (addrList : List Allocation) (arg : Option Transaction) (request : Request) :
    Option BurstLoop × Int :=
  match arg with
  | none => (none, -efault)
  | some t =>
      let (loop, rc) := axitangxiIoctl addrList t request
      (some loop, rc)

/-- `ioctl` as a program sees it. -/
def ioctl (rc : Int) : Int := if rc < 0 then -1 else rc

/-- `pl_io`. `mapped` is what `ps_mmap` returns, `copied` whether the driver can read the
transaction. -/
def plIo (addrList : List Allocation) (psAddr mapped : UInt64) (plAddr size : UInt32)
    (copied : Bool) (request : Request) : Option BurstLoop × Int :=
  let psAddr := if psAddr = 0 then mapped else psAddr
  if psAddr = mapFailed then (none, -1)
  else
    let trans := initTrans psAddr plAddr size
    let (loop, rc) := ioctlTransfer addrList (if copied then some trans else none) request
    if ioctl rc = -1 then (loop, -1) else (loop, size.toNat)

/-- `acc_complete` -/
def accComplete (timeRemain : Nat) : Int := if timeRemain = 0 then -etime else 0

/-- The registers of `struct network_acc_reg` that the accelerator fills. -/
structure NetworkAccReg where
  transAddr : UInt32
  transSize : UInt32
  entropyAddr : UInt32
  entropySize : UInt32

/-- `NETWORK_ACC_GET`: what it returns and what it gives to the program. -/
def networkAccGet (timeRemain : Nat) (regs : NetworkAccReg) (copied : Bool) :
    Int × Option NetworkAccReg :=
  let _ := accComplete timeRemain
  if copied then (0, some regs) else (-efault, none)

/-- The calls that wait, each with what it is given. -/
inductive BlockingCall where
  /-- `psddr_to_plddr` and `plddr_to_psddr` -/
  | transfer (addrList : List Allocation) (trans : Transaction) (request : Request)
  /-- `axitangxi_ioctl` -/
  | ioctl (addrList : List Allocation) (arg : Option Transaction) (request : Request)
  /-- `pl_write` and `pl_read` -/
  | plIo (addrList : List Allocation) (psAddr mapped : UInt64) (plAddr size : UInt32)
      (copied : Bool) (request : Request)
  | networkAccGet (regs : NetworkAccReg) (copied : Bool)

/-- The waits of a loop that is left, by what each of them returned. -/
def Waited (timeRemain : Nat → Nat) : Option BurstLoop → List Nat → Prop
  | none, waits => waits = []
  | some j, waits => ∃ n, Ends (BurstLoop.waitTurn timeRemain) n (j, 0) ∧
      waits = (outputs (BurstLoop.waitTurn timeRemain) n (j, 0)).map Prod.snd

namespace BlockingCall

/-- The call returns `rc` after these waits. -/
def Returns (timeRemain : Nat → Nat) (rc : Int) (waits : List Nat) : BlockingCall → Prop
  | transfer addrList t request =>
      let r := axitangxiIoctl addrList t request
      Waited timeRemain (some r.1) waits ∧ rc = r.2
  | ioctl addrList arg request =>
      let r := ioctlTransfer addrList arg request
      Waited timeRemain r.1 waits ∧ rc = r.2
  | plIo addrList psAddr mapped plAddr size copied request =>
      let r := Soc.plIo addrList psAddr mapped plAddr size copied request
      Waited timeRemain r.1 waits ∧ rc = r.2
  | networkAccGet regs copied =>
      waits = [timeRemain 0] ∧ rc = (Soc.networkAccGet (timeRemain 0) regs copied).1

/-- The call succeeds only if no wait of it timed out. -/
def Reported (call : BlockingCall) (timeRemain : Nat → Nat) : Prop :=
  ∀ rc waits, call.Returns timeRemain rc waits → 0 ≤ rc → ∀ w ∈ waits, w ≠ 0

end BlockingCall

/-- How many bursts a transaction takes: the size over the bytes of a burst, rounded up, of
their low 32 bits. It is zero if a burst has no bytes, when no call returns that has
anything to transfer. -/
def Request.bursts (request : Request) (trans : Transaction) : Nat :=
  let size := (request.dataSize trans).toUInt32.toNat
  let burstData := trans.burstData.toUInt32.toNat
  (size + burstData - 1) / burstData

/-- How many waits decide whether the call may succeed. -/
def BlockingCall.waits : BlockingCall → Nat
  | transfer _ t request => request.bursts t
  | ioctl _ arg request => arg.elim 0 request.bursts
  | plIo _ psAddr mapped _ size copied _ =>
      if copied ∧ psAddr ≠ mapFailed ∧ (psAddr = 0 → mapped ≠ mapFailed) then
        (size.toNat + 2 ^ 20 - 1) / 2 ^ 20
      else 0
  | networkAccGet _ copied => if copied then 1 else 0

namespace BurstLoop
variable {j : BurstLoop}

/-- How often a loop that is left has waited. -/
theorem waited_iff {timeRemain : Nat → Nat} {waits : List Nat} :
    Waited timeRemain (some j) waits ↔ (j.locals.dataRemaining = 0 ∨ j.locals.burstData ≠ 0) ∧
      waits = (List.range j.bursts).map timeRemain := by
  have hwaits : ∀ n, Ends turn n j → (outputs (waitTurn timeRemain) n (j, 0)).map Prod.snd =
      (List.range n).map timeRemain := by
    intro n hends
    have hlength := hends.outputs_length
    rw [waitTurn, outputs_numbered]
    apply List.ext_getElem
    · rw [List.length_map, List.length_mapIdx, hlength, List.length_map, List.length_range]
    · intro i _ _
      simp
  constructor
  · intro ⟨n, hends, heq⟩
    have hends : Ends turn n j := ends_numbered.mp hends
    obtain ⟨hleft, hn⟩ := ends_iff.mp hends
    rw [hwaits n hends, hn] at heq
    exact ⟨hleft, heq⟩
  · intro ⟨hleft, heq⟩
    have hends : Ends turn j.bursts j := ends_iff.mpr ⟨hleft, rfl⟩
    exact ⟨j.bursts, ends_numbered.mpr hends, by rw [heq, hwaits _ hends]⟩

theorem waited_reported {timeRemain : Nat → Nat} :
    (∀ waits, Waited timeRemain (some j) waits → ∀ w ∈ waits, w ≠ 0) ↔
      ∀ k < j.bursts, timeRemain k ≠ 0 := by
  constructor
  · intro h k hk
    by_cases hdata : j.locals.burstData = 0
    · rw [bursts, toNat_eq_zero.mpr hdata, Nat.div_zero] at hk
      contradiction
    · refine h _ (waited_iff.mpr ⟨.inr hdata, rfl⟩) _ ?_
      exact List.mem_map_of_mem (List.mem_range.mpr hk)
  · intro h waits hwaits w hw
    rw [(waited_iff.mp hwaits).2] at hw
    obtain ⟨k, hk, rfl⟩ := List.mem_map.mp hw
    exact h k (List.mem_range.mp hk)

end BurstLoop

theorem Request.bursts_initTrans (psAddr : UInt64) (plAddr size : UInt32) (request : Request) :
    request.bursts (initTrans psAddr plAddr size) = (size.toNat + 2 ^ 20 - 1) / 2 ^ 20 := by
  have hdata : (initTrans psAddr plAddr size).burstData.toUInt32.toNat = 2 ^ 20 := rfl
  have hsize : (request.dataSize (initTrans psAddr plAddr size)).toUInt32 = size := by
    cases request <;> exact UInt32.toUInt32_toUInt64 size
  rw [bursts, hdata, hsize]

theorem Request.loop_bursts (addrList : List Allocation) (t : Transaction) (request : Request) :
    (request.loop addrList t).bursts = request.bursts t := by
  cases request <;> rfl

theorem ioctlTransfer_some (addrList : List Allocation) (t : Transaction) (request : Request) :
    ioctlTransfer addrList (some t) request = (some (request.loop addrList t), 0) := by
  rw [← axitangxiIoctl_loop, ← axitangxiIoctl_rc addrList t request]
  rfl

namespace BlockingCall
variable {timeRemain : Nat → Nat} {r : Option BurstLoop × Int}

/-- A transfer that is started returns a success whatever its waits return. -/
theorem started_reported {j : BurstLoop} {rc : Int} (hr : r = (some j, rc)) (hrc : 0 ≤ rc) :
    (∀ rc' waits, Waited timeRemain r.1 waits ∧ rc' = r.2 → 0 ≤ rc' → ∀ w ∈ waits, w ≠ 0) ↔
      ∀ k < j.bursts, timeRemain k ≠ 0 := by
  rw [hr, ← BurstLoop.waited_reported]
  constructor
  · intro h waits hwaits
    exact h rc waits ⟨hwaits, rfl⟩ hrc
  · intro h rc' waits ⟨hwaits, _⟩ _
    exact h waits hwaits

theorem refused_reported {rc : Int} (hr : r = (none, rc)) :
    (∀ rc' waits, Waited timeRemain r.1 waits ∧ rc' = r.2 → 0 ≤ rc' → ∀ w ∈ waits, w ≠ 0) ↔
      ∀ k < 0, timeRemain k ≠ 0 := by
  refine iff_of_true ?_ fun k hk => absurd hk (Nat.not_lt_zero k)
  intro rc' waits ⟨hwaits, _⟩ _ w hw
  rw [hr] at hwaits
  obtain rfl : waits = [] := hwaits
  contradiction

/-- A transfer that can be started makes `pl_io` return the size. -/
theorem plIo_eq (addrList : List Allocation) (psAddr mapped : UInt64) (plAddr size : UInt32)
    (copied : Bool) (request : Request) :
    Soc.plIo addrList psAddr mapped plAddr size copied request =
      if copied ∧ psAddr ≠ mapFailed ∧ (psAddr = 0 → mapped ≠ mapFailed) then
        (some (request.loop addrList
          (initTrans (if psAddr = 0 then mapped else psAddr) plAddr size)), (size.toNat : Int))
      else (none, -1) := by
  have hfailed : (if psAddr = 0 then mapped else psAddr) = mapFailed ↔
      ¬ (psAddr ≠ mapFailed ∧ (psAddr = 0 → mapped ≠ mapFailed)) := by
    have hzero : mapFailed ≠ 0 := by decide
    split <;> grind
  rw [Soc.plIo]
  generalize (if psAddr = 0 then mapped else psAddr) = addr at hfailed ⊢
  by_cases hmapped : psAddr ≠ mapFailed ∧ (psAddr = 0 → mapped ≠ mapFailed)
  · rw [if_neg (hfailed.not.mpr (not_not_intro hmapped))]
    cases copied with
    | false => exact (if_neg (fun h => Bool.false_ne_true h.1)).symm
    | true =>
        have hstarted : true = true ∧ psAddr ≠ mapFailed ∧ (psAddr = 0 → mapped ≠ mapFailed) :=
          ⟨rfl, hmapped⟩
        rw [if_pos hstarted]
        simp only [if_true, ioctlTransfer_some]
        rfl
  · rw [if_pos (hfailed.mpr hmapped), if_neg (fun h => hmapped h.2)]

end BlockingCall

/-- Whether a call succeeds says that none of its waits timed out exactly when none does. -/
theorem timeouts_reported_iff (call : BlockingCall) (timeRemain : Nat → Nat) :
    call.Reported timeRemain ↔ ∀ k < call.waits, timeRemain k ≠ 0 := by
  cases call with
  | transfer addrList t request =>
      simp only [BlockingCall.Reported, BlockingCall.Returns, BlockingCall.waits,
        axitangxiIoctl_loop, axitangxiIoctl_rc, ← request.loop_bursts addrList t]
      exact BlockingCall.started_reported (r := (some (request.loop addrList t), 0)) rfl
        (Int.le_refl 0)
  | ioctl addrList arg request =>
      cases arg with
      | none => exact BlockingCall.refused_reported rfl
      | some t =>
          rw [BlockingCall.waits, Option.elim_some, ← request.loop_bursts addrList t]
          exact BlockingCall.started_reported (ioctlTransfer_some addrList t request)
            (Int.le_refl 0)
  | plIo addrList psAddr mapped plAddr size copied request =>
      have heq := BlockingCall.plIo_eq addrList psAddr mapped plAddr size copied request
      rw [BlockingCall.waits]
      split at heq
      · next hstarted =>
        have hbursts := Request.bursts_initTrans (if psAddr = 0 then mapped else psAddr) plAddr
          size request
        rw [if_pos hstarted, ← hbursts, ← Request.loop_bursts addrList]
        exact BlockingCall.started_reported heq (Int.natCast_nonneg _)
      · next hrefused =>
        rw [if_neg hrefused]
        exact BlockingCall.refused_reported heq
  | networkAccGet regs copied =>
      cases copied with
      | false =>
          refine iff_of_true ?_ fun k hk => absurd hk (Nat.not_lt_zero k)
          intro rc waits ⟨_, hrc⟩ hsuccess
          obtain rfl : rc = -efault := hrc
          contradiction
      | true =>
          constructor
          · intro h k hk
            obtain rfl := Nat.lt_one_iff.mp hk
            exact h 0 _ ⟨rfl, rfl⟩ (Int.le_refl 0) _ List.mem_cons_self
          · intro h rc waits ⟨hwaits, _⟩ _ w hw
            rw [hwaits] at hw
            obtain rfl := List.mem_singleton.mp hw
            exact h 0 Nat.one_pos

/-- 16 bytes at a mapped address are written to the PL, and the completion of their burst is
late. -/
theorem timeout_swallowed :
    ¬ (BlockingCall.plIo [page 1] (page 1).userAddr 0 0 16 true .psddrToPlddr).Reported
      fun _ => 0 := by
  intro h
  have hwaited : Waited (fun _ => 0)
      (plIo [page 1] (page 1).userAddr 0 0 16 true .psddrToPlddr).1 [0] :=
    BurstLoop.waited_iff.mpr ⟨.inr (by decide), rfl⟩
  exact h 16 [0] ⟨hwaited, rfl⟩ (by decide) 0 List.mem_cons_self rfl

end Soc
