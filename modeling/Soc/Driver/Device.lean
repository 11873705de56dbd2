import Soc.Basic
import Soc.Foundation.Runs
import Mathlib.Data.List.Nodup

/-!
The mappings of the device.

`mmap` allocates a buffer the DMA engine can reach, maps it into the caller's
address space and puts it at the head of the list of allocations; `munmap` frees
it and takes it off the list. A transfer looks its buffer up by the address the
mapping starts at. Along every run of the two calls the list holds the live
mappings of the kernel, and nothing else.
-/
namespace Soc
open Runs

/-- `struct axitangxi_allocation`; `node` is the address of the structure. -/
structure Allocation where
  node : Nat
  size : UInt64
  userAddr : UInt64
  dmaAddr : UInt64
  physAddr : UInt32
  physAddr_eq : physAddr = dmaAddr.toUInt32
  deriving DecidableEq

/-- The range an `mmap` is asked for. -/
structure VmArea where
  vmStart : UInt64
  vmEnd : UInt64
  deriving DecidableEq

/-- What the kernel answers to the calls of `axitangxi_mmap`. -/
structure Answers where
  /-- the structure, unless there is no memory -/
  kmalloc : Option Nat
  /-- the bus address of the buffer, unless there is no memory -/
  dmaAllocCoherent : Option UInt64
  dmaMmapCoherent : Int

/-- `-ENOMEM` -/
abbrev enomem : Int := -12

/-- `axitangxi_mmap`. Failures leave the list alone. -/
def axitangxiMmap (addrList : List Allocation) (vma : VmArea) (answers : Answers) :
    Int × List Allocation :=
  match answers.kmalloc with
  | none => (enomem, addrList)
  | some node =>
    match answers.dmaAllocCoherent with
    | none => (enomem, addrList)
    | some dmaAddr =>
      if answers.dmaMmapCoherent < 0 then (answers.dmaMmapCoherent, addrList)
      else
        let alloc : Allocation :=
          { node
            size := vma.vmEnd - vma.vmStart
            userAddr := vma.vmStart
            dmaAddr
            physAddr := dmaAddr.toUInt32
            physAddr_eq := rfl }
        (0, alloc :: addrList)

/-- The allocation that a successful `mmap` lists. -/
def VmArea.allocation (vma : VmArea) (node : Nat) (dmaAddr : UInt64) : Allocation :=
  { node
    size := vma.vmEnd - vma.vmStart
    userAddr := vma.vmStart
    dmaAddr
    physAddr := dmaAddr.toUInt32
    physAddr_eq := rfl }

/-- `axitangxi_vma_close`: `list_del` of the allocation the mapping points at. -/
def axitangxiVmaClose (addrList : List Allocation) (vmPrivateData : Nat) : List Allocation :=
  addrList.eraseP fun alloc => alloc.node == vmPrivateData

/-- `axitangxi_uservirt_to_phys`: the first allocation with the address, else 0. -/
def axitangxiUservirtToPhys (addrList : List Allocation) (userAddr : UInt64) : UInt32 :=
  match addrList.find? fun alloc => alloc.userAddr == userAddr with
  | some alloc => alloc.physAddr
  | none => 0

/-! The kernel's side, and the two together. -/

/-- A live mapping of the device, with `vm_private_data`. -/
structure Mapping extends VmArea where
  vmPrivateData : Nat
  deriving DecidableEq

/-- The live mappings, the newest first, and the allocations of the driver. -/
structure Device where
  mappings : List Mapping
  addrList : List Allocation

def Device.init : Device := { mappings := [], addrList := [] }

inductive DeviceCall where
  | mmap (vma : VmArea) (answers : Answers)
  | munmap (mapping : Mapping)

/-- A call on the device. `kmalloc` does not give out what is still in use, and
only a live mapping is unmapped. -/
def Device.call (s : Device) : DeviceCall → Option Device
  | .mmap vma answers =>
    match answers.kmalloc with
    | none => some s
    | some node =>
      if node ∈ s.mappings.map Mapping.vmPrivateData then none
      else
        let (rc, addrList) := axitangxiMmap s.addrList vma answers
        if rc < 0 then some { s with addrList }
        else some { mappings := { vma with vmPrivateData := node } :: s.mappings, addrList }
  | .munmap mapping =>
    if mapping ∈ s.mappings then
      some { mappings := s.mappings.erase mapping
             addrList := axitangxiVmaClose s.addrList mapping.vmPrivateData }
    else none

def Device.Called (s : Device) (c : DeviceCall) (s' : Device) : Prop := s.call c = some s'

def Allocation.mapping (alloc : Allocation) : Mapping :=
  { vmStart := alloc.userAddr, vmEnd := alloc.userAddr + alloc.size, vmPrivateData := alloc.node }

/-- What a call does: nothing, a new allocation with its mapping, or one less. -/
theorem Device.call_cases {s s' : Device} {c : DeviceCall} (h : s.Called c s') :
    s' = s ∨
    (∃ alloc : Allocation, alloc.node ∉ s.mappings.map Mapping.vmPrivateData ∧
      s' = { mappings := alloc.mapping :: s.mappings, addrList := alloc :: s.addrList }) ∨
    ∃ mapping ∈ s.mappings,
      s' = { mappings := s.mappings.erase mapping
             addrList := axitangxiVmaClose s.addrList mapping.vmPrivateData } := by
  cases c with
  | mmap vma answers =>
      obtain ⟨kmalloc, dmaAlloc, dmaMmap⟩ := answers
      cases kmalloc with
      | none => exact .inl (Option.some.inj h).symm
      | some node =>
          simp only [Device.Called, Device.call] at h
          split at h
          · contradiction
          · next hfresh =>
            cases dmaAlloc with
            | none => exact .inl (Option.some.inj h).symm
            | some dmaAddr =>
                simp only [axitangxiMmap] at h
                split at h
                · exact .inl (Option.some.inj h).symm
                · refine .inr (.inl ⟨⟨node, vma.vmEnd - vma.vmStart, vma.vmStart, dmaAddr,
                    dmaAddr.toUInt32, rfl⟩, hfresh, ?_⟩)
                  rw [Allocation.mapping, UInt64.add_comm, UInt64.sub_add_cancel]
                  exact (Option.some.inj h).symm
  | munmap mapping =>
      simp only [Device.Called, Device.call] at h
      split at h
      · next hlive => exact .inr (.inr ⟨mapping, hlive, (Option.some.inj h).symm⟩)
      · contradiction

/-- The list is that of the live mappings, in order, and each has a structure of its
own. -/
structure Device.Listed (s : Device) : Prop where
  mappings_eq : s.mappings = s.addrList.map Allocation.mapping
  nodup : (s.addrList.map Allocation.node).Nodup

theorem Device.Listed.nodes {s : Device} (h : s.Listed) :
    s.mappings.map Mapping.vmPrivateData = s.addrList.map Allocation.node := by
  rw [h.mappings_eq, List.map_map]
  rfl

/-- The mapping that goes and the allocation that goes are at the same place, in any view of the
list that tells the allocations apart. -/
theorem axitangxiVmaClose_split {β : Type} [DecidableEq β] {view : Allocation → β}
    (hview : ∀ alloc other, view alloc = view other → alloc.node = other.node)
    {addrList : List Allocation} (hnodup : (addrList.map Allocation.node).Nodup) {mapping : β}
    (hlive : mapping ∈ addrList.map view) : ∃ before alloc behind,
      addrList = before ++ alloc :: behind ∧ mapping = view alloc ∧
        (∀ other ∈ before, other.node ≠ alloc.node) ∧
        (addrList.map view).erase mapping = (before ++ behind).map view ∧
        axitangxiVmaClose addrList alloc.node = before ++ behind := by
  obtain ⟨alloc, hmem, rfl⟩ := List.mem_map.mp hlive
  obtain ⟨before, behind, rfl⟩ := List.append_of_mem hmem
  have hother : ∀ other ∈ before, other.node ≠ alloc.node := by
    intro other hmem heq
    rw [List.map_append, List.map_cons] at hnodup
    have hdisjoint := (List.nodup_append.mp hnodup).2.2
    exact hdisjoint _ (List.mem_map_of_mem hmem) _ List.mem_cons_self heq
  refine ⟨before, alloc, behind, rfl, rfl, hother, ?_, ?_⟩
  · have hbefore : view alloc ∉ before.map view := by
      intro hmem
      obtain ⟨other, hmem, heq⟩ := List.mem_map.mp hmem
      exact hother other hmem (hview other alloc heq)
    rw [List.map_append, List.map_cons, List.erase_append_right _ hbefore, List.erase_cons_head,
      List.map_append]
  · rw [axitangxiVmaClose, List.eraseP_append_right, List.eraseP_cons_of_pos (by simp)]
    intro other hmem
    simpa using hother other hmem

theorem axitangxiVmaClose_mapping {addrList : List Allocation} {mapping : Mapping}
    (hnodup : (addrList.map Allocation.node).Nodup)
    (hlive : mapping ∈ addrList.map Allocation.mapping) :
    (addrList.map Allocation.mapping).erase mapping =
      (axitangxiVmaClose addrList mapping.vmPrivateData).map Allocation.mapping := by
  obtain ⟨before, alloc, behind, -, rfl, -, herase, hclose⟩ :=
    axitangxiVmaClose_split (fun _ _ h => congrArg Mapping.vmPrivateData h) hnodup hlive
  have hnode : alloc.mapping.vmPrivateData = alloc.node := rfl
  rw [herase, hnode, hclose]

theorem Device.Listed.call {s s' : Device} {c : DeviceCall} (h : s.Listed) (hcall : s.Called c s') :
    s'.Listed := by
  rcases Device.call_cases hcall with rfl | ⟨alloc, hfresh, rfl⟩ | ⟨mapping, hlive, rfl⟩
  · exact h
  · refine ⟨?_, ?_⟩
    · rw [h.mappings_eq, List.map_cons]
    · rw [h.nodes] at hfresh
      exact List.nodup_cons.mpr ⟨hfresh, h.nodup⟩
  · rw [h.mappings_eq] at hlive
    refine ⟨?_, ?_⟩
    · rw [← axitangxiVmaClose_mapping h.nodup hlive, h.mappings_eq]
    · exact h.nodup.sublist (List.eraseP_sublist.map _)

/-- Along every run of calls the list of the driver is that of the kernel. -/
theorem Device.listed_of_run {s : Device} {cs : List DeviceCall}
    (hrun : Run Device.Called Device.init cs s) : s.Listed :=
  hrun.invariant (fun _ _ _ h hcall => h.call hcall) ⟨rfl, List.nodup_nil⟩

def page (n : UInt64) : Allocation :=
  { node := n.toNat
    size := 4096
    userAddr := 65536 + 4096 * n
    dmaAddr := 4096 * n
    physAddr := (4096 * n).toUInt32
    physAddr_eq := rfl }

def mmapPage (n : UInt64) : DeviceCall :=
  .mmap { vmStart := 65536 + 4096 * n, vmEnd := 65536 + 4096 * n + 4096 }
    { kmalloc := some n.toNat, dmaAllocCoherent := some (4096 * n), dmaMmapCoherent := 0 }

end Soc
