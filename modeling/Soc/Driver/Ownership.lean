import Soc.Driver.Device
import Soc.Foundation.Lifetime

/-!
Who owns the device structure.

`probe` allocates it and leaves two pointers to it, a static one and the driver data of
the platform device; `open` copies the static one into every file. `remove` frees the
structure, and so does `release`, through the pointer of the file that is closed.
-/
namespace Soc
open Runs Lifetime

/-- The functions of the driver that the kernel calls. -/
inductive Caller where
  | probe
  | openFile
  | mmap
  | ioctl
  | vmaClose
  | releaseFile
  | remove
  deriving DecidableEq

/-- What the kernel answers to the calls of `axitangxi_probe`. For a pointer, its
`PTR_ERR`. -/
structure ProbeAnswers where
  kmalloc : Option Nat
  dmaSetCoherentMask : Int
  ofFindNodeByPath : Bool
  classCreate : Int
  deviceCreate : Int

abbrev einval : Int := -22
abbrev enosys : Int := -38

inductive Stage where
  | unprobed
  | failed
  | bound
  | removed
  deriving DecidableEq

/-- The pointers to the structure, and every access to it. -/
structure Driver where
  stage : Stage
  /-- the static pointer -/
  axitangxiDev : Option Nat
  drvdata : Option Nat
  /-- `cdev_add` was called -/
  cdev : Bool
  /-- the `private_data` of the open files -/
  files : List (Option Nat)
  mappings : Nat
  log : List (Caller × Access (Option Nat))

def Driver.init : Driver :=
  { stage := .unprobed
    axitangxiDev := none
    drvdata := none
    cdev := false
    files := []
    mappings := 0
    log := [] }

def Driver.record (s : Driver) (caller : Caller) (es : List (Access (Option Nat))) : Driver :=
  { s with log := s.log ++ es.map fun e => (caller, e) }

/-- `kfree`, which ignores NULL -/
def kfree (p : Option Nat) : List (Access (Option Nat)) := if p = none then [] else [.free p]

/-- `axitangxi_chrdev_init`: what it returns, and whether the character device is added.
What `of_property_read_u32_array` and `request_irq` return is compared as unsigned, and
a failure behind `cdev_add` does not take the device back. -/
def axitangxiChrdevInit (answers : ProbeAnswers) : Int × Bool :=
  if ¬ answers.ofFindNodeByPath then (einval, false)
  else if answers.classCreate < 0 then (answers.classCreate, true)
  else if answers.deviceCreate < 0 then (answers.deviceCreate, true)
  else (0, true)

/-- `axitangxi_probe` -/
def axitangxiProbe (s : Driver) (answers : ProbeAnswers) : Int × Driver :=
  match answers.kmalloc with
  | none => (enomem, { s with stage := .failed })
  | some addr =>
    let dev := some addr
    if answers.dmaSetCoherentMask < 0 then
      (enosys, { s with stage := .failed }.record .probe [.alloc dev, .touch dev, .free dev])
    else
      let (rc, cdev) := axitangxiChrdevInit answers
      let s := { s with axitangxiDev := dev, cdev }
      if rc < 0 then
        (enosys, { s with stage := .failed }.record .probe [.alloc dev, .touch dev, .free dev])
      else (0, { s with stage := .bound, drvdata := dev }.record .probe [.alloc dev, .touch dev])

/-- `axitangxi_open` hands the structure out. -/
def axitangxiOpen (s : Driver) : Driver :=
  { s with files := s.files ++ [s.axitangxiDev] }.record .openFile [.touch s.axitangxiDev]

/-- `axitangxi_release` frees what it finds in the file. -/
def axitangxiRelease (s : Driver) (file : Nat) (privateData : Option Nat) : Driver :=
  { s with files := s.files.eraseIdx file }.record .releaseFile (kfree privateData)

/-- The commands of `axitangxi_ioctl`; what it does not know is `other`. -/
inductive IoctlCmd where
  | psddrPlddrLoopback
  | psddrTangxiLoopback
  | networkAccConfig
  | networkAccStart
  | networkAccGet
  | psddrToPlddr
  | plddrToPsddr
  | other
  deriving DecidableEq

/-- The commands that look an address up in the list of the device. -/
def IoctlCmd.looksUp : IoctlCmd → Bool
  | psddrPlddrLoopback | psddrToPlddr | plddrToPsddr => true
  | _ => false

inductive DriverCall where
  | probe (answers : ProbeAnswers)
  | openFile
  | mmap (file : Nat) (vma : VmArea) (answers : Answers)
  /-- `copied`: the argument could be copied from user space -/
  | ioctl (file : Nat) (cmd : IoctlCmd) (copied : Bool)
  | munmap
  | releaseFile (file : Nat)
  | remove

namespace Driver

/-- `axitangxi_mmap` does not get to the device without memory for its own structure. -/
def mmapAccesses (privateData : Option Nat) (answers : Answers) : List (Access (Option Nat)) :=
  if answers.kmalloc = none then [] else [.touch privateData]

/-- A call of the driver, where the kernel makes it: files are opened once the character
device is there, a file that is used or released is open, and `remove` follows a `probe`
that returned 0 and is the last call. -/
def call (s : Driver) : DriverCall → Option Driver
  | .probe answers => if s.stage = .unprobed then some (axitangxiProbe s answers).2 else none
  | .openFile => if s.cdev ∧ s.stage ≠ .removed then some (axitangxiOpen s) else none
  | .mmap file vma answers =>
    match s.files[file]? with
    | some privateData =>
      if s.stage = .removed then none
      else
        let mapped := if (axitangxiMmap [] vma answers).1 < 0 then 0 else 1
        some ({ s with mappings := s.mappings + mapped }.record .mmap
          (mmapAccesses privateData answers))
    | none => none
  | .ioctl file cmd copied =>
    match s.files[file]? with
    | some privateData =>
      if s.stage = .removed then none
      else some (s.record .ioctl (if cmd.looksUp ∧ copied then [.touch privateData] else []))
    | none => none
  | .munmap =>
    if 0 < s.mappings ∧ s.stage ≠ .removed then
      some ({ s with mappings := s.mappings - 1 }.record .vmaClose [.touch s.axitangxiDev])
    else none
  | .releaseFile file =>
    match s.files[file]? with
    | some privateData =>
      if s.stage = .removed then none else some (axitangxiRelease s file privateData)
    | none => none
  | .remove =>
    if s.stage = .bound then
      some ({ s with stage := .removed }.record .remove [.touch s.drvdata, .free s.drvdata])
    else none

def Called (s : Driver) (c : DriverCall) (s' : Driver) : Prop := s.call c = some s'

/-- The accesses, whoever made them. -/
def accesses (s : Driver) : List (Access (Option Nat)) := s.log.map Prod.snd

def freed (s : Driver) : List (Caller × Access (Option Nat)) := s.log.filter fun e => e.2.frees

/-- Nothing is used that is freed, and what `probe` leaves behind is freed once, by
`remove`. -/
structure Outlives (s : Driver) : Prop where
  clean : Clean ∅ s.accesses
  freed : ∀ dev, s.drvdata = some dev →
    s.freed = if s.stage = .removed then [(.remove, .free (some dev))] else []

/-- No file is released, and none is opened after a `probe` that failed. -/
def Keeps (s : Driver) : DriverCall → Prop
  | .releaseFile _ => False
  | .openFile => s.stage = .bound
  | _ => True

@[simp] theorem record_accesses (s : Driver) (caller : Caller) (es : List (Access (Option Nat))) :
    (s.record caller es).accesses = s.accesses ++ es := by
  simp [accesses, record]

@[simp] theorem record_freed (s : Driver) (caller : Caller) (es : List (Access (Option Nat))) :
    (s.record caller es).freed =
      s.freed ++ (es.filter Access.frees).map fun e => (caller, e) := by
  simp [freed, record, List.filter_map, Function.comp_def]

/-- The stages of a run that keeps the structure. -/
inductive Kept : Driver → Prop where
  | unprobed : Kept init
  | failed {s : Driver} (stage : s.stage = .failed) (clean : Clean ∅ s.accesses)
      (drvdata : s.drvdata = none) (gone : s.axitangxiDev ∉ live ∅ s.accesses)
      (files : s.files = []) (mappings : s.mappings = 0) : Kept s
  | bound {s : Driver} {dev : Nat} (stage : s.stage = .bound) (clean : Clean ∅ s.accesses)
      (freed : s.freed = []) (drvdata : s.drvdata = some dev)
      (static : s.axitangxiDev = some dev) (held : some dev ∈ live ∅ s.accesses)
      (files : ∀ p ∈ s.files, p = some dev) : Kept s
  | removed {s : Driver} {dev : Nat} (stage : s.stage = .removed) (clean : Clean ∅ s.accesses)
      (drvdata : s.drvdata = some dev)
      (freed : s.freed = [(.remove, .free (some dev))]) : Kept s

theorem Kept.outlives {s : Driver} (h : s.Kept) : s.Outlives := by
  cases h with
  | unprobed => exact ⟨trivial, nofun⟩
  | failed stage clean drvdata =>
      refine ⟨clean, ?_⟩
      intro dev hdev
      rw [drvdata] at hdev
      contradiction
  | bound stage clean freed =>
      refine ⟨clean, ?_⟩
      intro _ _
      rw [freed, stage]
      rfl
  | removed stage clean drvdata freed =>
      refine ⟨clean, ?_⟩
      intro _ hdev
      rw [freed, stage, ← drvdata, hdev]
      rfl

/-! What the calls do to a structure that is kept. -/

theorem Kept.probe (answers : ProbeAnswers) : (axitangxiProbe init answers).2.Kept := by
  cases hkmalloc : answers.kmalloc with
  | none =>
      rw [axitangxiProbe, hkmalloc]
      exact .failed rfl trivial rfl (Finset.notMem_empty _) rfl rfl
  | some addr =>
      have hclean : Clean ∅ [.alloc (some addr), .touch (some addr)] :=
        ⟨Finset.notMem_empty _, Finset.mem_insert_self _ _, trivial⟩
      have hheld : some addr ∈ live ∅ [.alloc (some addr), .touch (some addr)] :=
        Finset.mem_insert_self _ _
      have hundone : Clean ∅ [.alloc (some addr), .touch (some addr), .free (some addr)] :=
        ⟨hclean.1, hclean.2.1, hheld, trivial⟩
      have hgone (p : Option Nat) (h : p = none ∨ p = some addr) :
          p ∉ live ∅ [.alloc (some addr), .touch (some addr), .free (some addr)] := by
        cases h with
        | inl h => simp [h, Access.apply]
        | inr h => simp [h, Access.apply]
      simp only [axitangxiProbe, hkmalloc]
      split
      · exact .failed rfl hundone rfl (hgone none (.inl rfl)) rfl rfl
      · split
        · exact .failed rfl hundone rfl (hgone (some addr) (.inr rfl)) rfl rfl
        · exact .bound rfl hclean rfl rfl rfl hheld nofun

/-- A call that only uses the structure, while it is there. -/
theorem Kept.used {s s' : Driver} {dev : Nat} (stage : s.stage = .bound)
    (clean : Clean ∅ s.accesses) (freed : s.freed = []) (drvdata : s.drvdata = some dev)
    (static : s.axitangxiDev = some dev) (held : some dev ∈ live ∅ s.accesses)
    (files : ∀ p ∈ s'.files, p = some dev) (caller : Caller) {es : List (Access (Option Nat))}
    (hes : es = [] ∨ es = [.touch (some dev)])
    (hlog : s'.log = s.log ++ es.map fun e => (caller, e))
    (hstage : s'.stage = s.stage) (hdrvdata : s'.drvdata = s.drvdata)
    (hstatic : s'.axitangxiDev = s.axitangxiDev) : s'.Kept := by
  have haccesses : s'.accesses = s.accesses ++ es := by
    rw [accesses, hlog]
    simp [accesses]
  have hfreed : s'.freed = s.freed := by
    rw [Driver.freed, hlog]
    cases hes with
    | inl h => simp [Driver.freed, h]
    | inr h => simp [Driver.freed, h, Access.frees]
  have hclean : Clean (live ∅ s.accesses) es ∧ live (live ∅ s.accesses) es = live ∅ s.accesses := by
    cases hes with
    | inl h => exact h ▸ ⟨trivial, rfl⟩
    | inr h => exact h ▸ ⟨⟨held, trivial⟩, rfl⟩
  refine .bound (hstage.trans stage) ?_ (hfreed.trans freed) (hdrvdata.trans drvdata)
    (hstatic.trans static) ?_ files
  · rw [haccesses, clean_append]
    exact ⟨clean, hclean.1⟩
  · rw [haccesses, live_append, hclean.2]
    exact held

/-- Without an open file or a mapping only `probe` and `open` are left. -/
theorem called_closed {s s' : Driver} {c : DriverCall} (files : s.files = [])
    (mappings : s.mappings = 0) (stage : s.stage ≠ .bound) (hcall : s.Called c s') :
    (∃ answers, c = .probe answers ∧ s.stage = .unprobed) ∨ c = .openFile := by
  cases c with
  | probe answers =>
      simp only [Called, call] at hcall
      split at hcall
      · next h => exact .inl ⟨answers, rfl, h⟩
      · contradiction
  | openFile => exact .inr rfl
  | mmap file _ _ | ioctl file _ _ | releaseFile file => simp [Called, call, files] at hcall
  | munmap => simp [Called, call, mappings] at hcall
  | remove => simp [Called, call, stage] at hcall

theorem called_removed {s s' : Driver} {c : DriverCall} (stage : s.stage = .removed) :
    ¬ s.Called c s' := by
  intro hcall
  cases c with
  | probe _ | openFile | munmap | remove => simp [Called, call, stage] at hcall
  | mmap file _ _ | ioctl file _ _ | releaseFile file =>
      simp only [Called, call] at hcall
      split at hcall
      · simp [stage] at hcall
      · contradiction

theorem Kept.call_bound {s s' : Driver} {c : DriverCall} {dev : Nat} (stage : s.stage = .bound)
    (clean : Clean ∅ s.accesses) (freed : s.freed = []) (drvdata : s.drvdata = some dev)
    (static : s.axitangxiDev = some dev) (held : some dev ∈ live ∅ s.accesses)
    (files : ∀ p ∈ s.files, p = some dev) (hc : s.Keeps c) (hcall : s.Called c s') : s'.Kept := by
  have hused := @Kept.used s s' dev stage clean freed drvdata static held
  cases c with
  | probe answers => simp [Called, call, stage] at hcall
  | openFile =>
      simp only [Called, call] at hcall
      split at hcall
      · obtain rfl := Option.some.inj hcall
        refine hused ?_ .openFile (.inr (by rw [static])) rfl rfl rfl rfl
        intro p hp
        cases List.mem_append.mp hp with
        | inl hp => exact files p hp
        | inr hp => exact (List.mem_singleton.mp hp).trans static
      · contradiction
  | mmap file vma answers =>
      simp only [Called, call] at hcall
      split at hcall
      · next privateData hfile =>
        rw [if_neg (by simp [stage])] at hcall
        obtain rfl := Option.some.inj hcall
        refine hused files .mmap ?_ rfl rfl rfl rfl
        rw [files privateData (List.mem_of_getElem? hfile), mmapAccesses]
        split
        · exact .inl rfl
        · exact .inr rfl
      · contradiction
  | ioctl file cmd copied =>
      simp only [Called, call] at hcall
      split at hcall
      · next privateData hfile =>
        rw [if_neg (by simp [stage])] at hcall
        obtain rfl := Option.some.inj hcall
        refine hused files .ioctl ?_ rfl rfl rfl rfl
        rw [files privateData (List.mem_of_getElem? hfile)]
        split
        · exact .inr rfl
        · exact .inl rfl
      · contradiction
  | munmap =>
      simp only [Called, call] at hcall
      split at hcall
      · obtain rfl := Option.some.inj hcall
        exact hused files .vmaClose (.inr (by rw [static])) rfl rfl rfl rfl
      · contradiction
  | releaseFile file => exact hc.elim
  | remove =>
      simp only [Called, call, if_pos stage] at hcall
      obtain rfl := Option.some.inj hcall
      refine .removed rfl ?_ drvdata ?_
      · rw [record_accesses, clean_append, drvdata]
        exact ⟨clean, held, held, trivial⟩
      · rw [record_freed, drvdata]
        exact congrArg (· ++ [(Caller.remove, Access.free (some dev))]) freed

theorem Kept.called {s s' : Driver} {c : DriverCall} (h : s.Kept) (hc : s.Keeps c)
    (hcall : s.Called c s') : s'.Kept := by
  cases h with
  | unprobed =>
      cases called_closed rfl rfl (by decide) hcall with
      | inl h =>
          obtain ⟨answers, rfl, -⟩ := h
          obtain rfl := Option.some.inj hcall
          exact Kept.probe answers
      | inr h =>
          subst h
          contradiction
  | failed stage clean drvdata gone files mappings =>
      cases called_closed files mappings (by simp [stage]) hcall with
      | inl h =>
          obtain ⟨answers, rfl, h⟩ := h
          rw [stage] at h
          contradiction
      | inr h =>
          subst h
          rw [Keeps, stage] at hc
          contradiction
  | bound stage clean freed drvdata static held files =>
      exact Kept.call_bound stage clean freed drvdata static held files hc hcall
  | removed stage => exact absurd hcall (called_removed stage)

/-- A file that is released takes the structure along. -/
theorem Kept.lost {s s' : Driver} {c : DriverCall} (h : s.Kept) (hc : ¬ s.Keeps c)
    (hcall : s.Called c s') : ¬ s'.Outlives := by
  intro houtlives
  cases h with
  | unprobed =>
      cases called_closed rfl rfl (by decide) hcall with
      | inl h =>
          obtain ⟨answers, rfl, -⟩ := h
          exact hc trivial
      | inr h =>
          subst h
          contradiction
  | failed stage clean drvdata gone files mappings =>
      cases called_closed files mappings (by simp [stage]) hcall with
      | inl h =>
          obtain ⟨answers, rfl, -⟩ := h
          exact hc trivial
      | inr h =>
          subst h
          simp only [Called, call] at hcall
          split at hcall
          · obtain rfl := Option.some.inj hcall
            have hclean := houtlives.clean
            rw [axitangxiOpen, record_accesses, clean_append] at hclean
            exact gone hclean.2.1
          · contradiction
  | bound stage clean freed drvdata static held files =>
      cases c with
      | probe _ | mmap _ _ _ | ioctl _ _ _ | munmap | remove => exact hc trivial
      | openFile => exact hc stage
      | releaseFile file =>
          simp only [Called, call] at hcall
          split at hcall
          · next privateData hfile =>
            rw [if_neg (by simp [stage])] at hcall
            obtain rfl := Option.some.inj hcall
            have hfreed := houtlives.freed _ drvdata
            rw [axitangxiRelease, record_freed, files privateData (List.mem_of_getElem? hfile)]
              at hfreed
            rw [if_neg (by simp [record, stage])] at hfreed
            simp [kfree, Access.frees] at hfreed
          · contradiction
  | removed stage => exact absurd hcall (called_removed stage)

end Driver

theorem device_outlives_iff {cs : List DriverCall} {s : Driver}
    (hrun : Run Driver.Called Driver.init cs s) :
    Throughout Driver.Called Driver.Outlives Driver.init cs ↔
      EveryStep Driver.Called Driver.Keeps Driver.init cs :=
  throughout_iff_of_kept (J := Driver.Kept)
    (fun _ _ _ _ h₁ h₂ => Option.some.inj (h₁.symm.trans h₂))
    (fun _ h => h.outlives)
    (fun _ _ _ h hc hcall => h.called hc hcall)
    (fun _ _ _ h hc hcall => h.lost hc hcall) hrun .unprobed

def probed : DriverCall :=
  .probe { kmalloc := some 0, dmaSetCoherentMask := 0, ofFindNodeByPath := true,
           classCreate := 0, deviceCreate := 0 }

/-- A file that is open to the end. -/
theorem device_outlives_unreleased :
    Throughout Driver.Called Driver.Outlives Driver.init
      [probed, .openFile, .ioctl 0 .psddrToPlddr true, .remove] := by
  have hrun : ∃ s, Run Driver.Called Driver.init
      [probed, .openFile, .ioctl 0 .psddrToPlddr true, .remove] s :=
    ⟨_, .cons rfl (.cons rfl (.cons rfl (.cons rfl (.nil _))))⟩
  refine (device_outlives_iff hrun.choose_spec).mpr ?_
  refine everyStep_cons.mpr ⟨trivial, ?_⟩
  intro s₁ h₁
  cases h₁
  refine everyStep_cons.mpr ⟨rfl, ?_⟩
  intro s₂ _
  refine everyStep_cons.mpr ⟨trivial, ?_⟩
  intro s₃ _
  exact everyStep_cons.mpr ⟨trivial, fun _ _ => everyStep_nil⟩

/-- Two files are open; the one that stays uses what the other has freed, and `remove`
frees it again. -/
theorem device_used_after_release : ∃ s, Run Driver.Called Driver.init
    [probed, .openFile, .openFile, .releaseFile 0, .ioctl 0 .psddrToPlddr true, .remove] s ∧
      s.freed = [(.releaseFile, .free (some 0)), (.remove, .free (some 0))] ∧ ¬ s.Outlives := by
  refine ⟨_, .cons rfl (.cons rfl (.cons rfl (.cons rfl (.cons rfl (.cons rfl (.nil _)))))), rfl,
    ?_⟩
  intro houtlives
  exact absurd houtlives.clean (by decide)

end Soc
