import Soc.Driver.Device
import Soc.Foundation.Lifetime
import Mathlib.Data.Multiset.AddSub

/-!
What `mmap` acquires and `munmap` gives back.

A mapping takes two blocks, a structure from `kmalloc` and a buffer from
`dma_alloc_coherent`. The labels at the end of `mmap` fall through in the order in which
the blocks were taken, so what a failure leaves depends on where it comes.
-/
namespace Soc
open Runs Lifetime

inductive Block where
  /-- a `struct axitangxi_allocation` -/
  | allocation (node : Nat)
  /-- a buffer, by its bus address -/
  | coherent (dmaAddr : UInt64)
  deriving DecidableEq

/-- The accesses of `axitangxi_mmap`. `free_vma_data` frees the structure and falls
through to `free_dma_region`, which reads the buffer's address from it; where there is no
buffer that is NULL, which `dma_free_coherent` ignores. -/
def axitangxiMmapAccesses (addrList : List Allocation) (answers : Answers) :
    List (Access Block) :=
  match answers.kmalloc with
  | none => []
  | some node =>
    match answers.dmaAllocCoherent with
    | none =>
      [.alloc (.allocation node), .touch (.allocation node), .free (.allocation node),
        .touch (.allocation node)]
    | some dmaAddr =>
      [.alloc (.allocation node), .touch (.allocation node), .alloc (.coherent dmaAddr),
        .touch (.allocation node)] ++
      if answers.dmaMmapCoherent < 0 then
        [.touch (.allocation node), .free (.coherent dmaAddr)]
      else
        -- `list_add` writes to the head of the list and to the structure that was first
        [.touch (.allocation node)] ++
          (addrList.head?.map fun alloc => Access.touch (.allocation alloc.node)).toList

/-- The structures `list_del` links to each other. -/
def neighbours (nodes : List Nat) (node : Nat) : List Nat :=
  let i := nodes.idxOf node
  (if i = 0 then none else nodes[i - 1]?).toList ++ nodes[i + 1]?.toList

/-- The accesses of `axitangxi_vma_close`. -/
def axitangxiVmaCloseAccesses (addrList : List Allocation) (vmPrivateData : Nat) :
    List (Access Block) :=
  .touch (.allocation vmPrivateData) ::
    match addrList.find? fun alloc => alloc.node == vmPrivateData with
    | none => []
    | some alloc =>
      [.free (.coherent alloc.dmaAddr)] ++
      ((neighbours (addrList.map Allocation.node) alloc.node).map fun node =>
        Access.touch (.allocation node)) ++
      [.touch (.allocation alloc.node), .free (.allocation alloc.node)]

/-! The kernel's side, and the two together. -/

/-- A live mapping, with the bus address of its buffer. -/
structure BufferMapping extends Mapping where
  dmaAddr : UInt64
  deriving DecidableEq

/-- The live mappings, the newest first, the allocations of the driver, and the blocks the
kernel has given out. -/
structure Mapper where
  mappings : List BufferMapping
  addrList : List Allocation
  blocks : Finset Block

inductive MapperCall where
  | mmap (vma : VmArea) (answers : Answers)
  | munmap (mapping : BufferMapping)

namespace Mapper

def init : Mapper := { mappings := [], addrList := [], blocks := ∅ }

def accesses (s : Mapper) : MapperCall → List (Access Block)
  | .mmap _ answers => axitangxiMmapAccesses s.addrList answers
  | .munmap mapping => axitangxiVmaCloseAccesses s.addrList mapping.vmPrivateData

/-- A block that is given out is not in use. -/
def Fresh (s : Mapper) (answers : Answers) : Prop :=
  (∀ node ∈ answers.kmalloc, .allocation node ∉ s.blocks) ∧
    ∀ dmaAddr ∈ answers.dmaAllocCoherent, .coherent dmaAddr ∉ s.blocks

-- The instances are named: an address has more values than can be tried.
instance (s : Mapper) (answers : Answers) : Decidable (s.Fresh answers) :=
  @instDecidableAnd _ _ (Option.decidableForallMem _) (Option.decidableForallMem _)

/-- The mapping of a call that returned 0. -/
def mapped (vma : VmArea) (answers : Answers) : List BufferMapping :=
  match answers.kmalloc, answers.dmaAllocCoherent with
  | some node, some dmaAddr => [{ vma with vmPrivateData := node, dmaAddr }]
  | _, _ => []

/-- Only a live mapping is unmapped. -/
def call (s : Mapper) : MapperCall → Option Mapper
  | .mmap vma answers =>
    if s.Fresh answers then
      let (rc, addrList) := axitangxiMmap s.addrList vma answers
      let blocks := live s.blocks (axitangxiMmapAccesses s.addrList answers)
      if rc < 0 then some { s with addrList, blocks }
      else some { mappings := mapped vma answers ++ s.mappings, addrList, blocks }
    else none
  | .munmap mapping =>
    if mapping ∈ s.mappings then
      some { mappings := s.mappings.erase mapping
             addrList := axitangxiVmaClose s.addrList mapping.vmPrivateData
             blocks := live s.blocks
               (axitangxiVmaCloseAccesses s.addrList mapping.vmPrivateData) }
    else none

def Called (s : Mapper) (c : MapperCall) (s' : Mapper) : Prop := s.call c = some s'

end Mapper

/-- One of the three acquisitions fails. -/
def Answers.Fails (answers : Answers) : Prop :=
  answers.kmalloc = none ∨ answers.dmaAllocCoherent = none ∨ answers.dmaMmapCoherent < 0

namespace Mapper

/-- One entry for each live mapping: user address, physical address, size. -/
def Listed (s : Mapper) : Prop :=
  List.Perm (s.addrList.map fun alloc => (alloc.userAddr, alloc.physAddr.toNat, alloc.size))
    (s.mappings.map fun m => (m.vmStart, m.dmaAddr.toNat, m.vmEnd - m.vmStart))

/-- What is claimed of a step: only live blocks are used and freed, a failing `mmap` returns
a negative code and changes nothing, the entries are those of the live mappings, and
without mappings no block is left. -/
structure Tracks (s : Mapper) (c : MapperCall) (s' : Mapper) : Prop where
  clean : Clean s.blocks (s.accesses c)
  failed : ∀ vma answers, c = .mmap vma answers → answers.Fails →
    (axitangxiMmap s.addrList vma answers).1 < 0 ∧ s'.addrList = s.addrList ∧
      s'.mappings = s.mappings ∧ s'.blocks = s.blocks
  listed : s'.Listed
  released : s'.mappings = [] → s'.blocks = ∅

end Mapper

/-- A call that fails does so before it has acquired anything, and the buffer of one that
does not fail lies below 2^32. -/
def MapperCall.Keeps : MapperCall → Prop
  | .mmap _ answers => answers.kmalloc = none ∨ ∃ dmaAddr,
      answers.dmaAllocCoherent = some dmaAddr ∧ 0 ≤ answers.dmaMmapCoherent ∧
        dmaAddr.toNat < 2 ^ 32
  | .munmap _ => True

def Allocation.bufferMapping (alloc : Allocation) : BufferMapping :=
  { alloc.mapping with dmaAddr := alloc.dmaAddr }

namespace Mapper

/-- The blocks in use are those of the entries, and the entries are those of the
mappings, in order. -/
structure Exact (s : Mapper) : Prop where
  mappings_eq : s.mappings = s.addrList.map Allocation.bufferMapping
  nodes : (s.addrList.map Allocation.node).Nodup
  buffers : (s.addrList.map Allocation.dmaAddr).Nodup
  low : ∀ alloc ∈ s.addrList, alloc.dmaAddr.toNat < 2 ^ 32
  blocks : ∀ b, b ∈ s.blocks ↔
    ∃ alloc ∈ s.addrList, b = .allocation alloc.node ∨ b = .coherent alloc.dmaAddr

theorem Exact.allocation {s : Mapper} (h : s.Exact) {node : Nat} :
    .allocation node ∈ s.blocks ↔ node ∈ s.addrList.map Allocation.node := by
  rw [h.blocks, List.mem_map]
  constructor
  · intro ⟨alloc, hmem, heq⟩
    cases heq with
    | inl heq => exact ⟨alloc, hmem, (Block.allocation.inj heq).symm⟩
    | inr heq => contradiction
  · intro ⟨alloc, hmem, heq⟩
    exact ⟨alloc, hmem, .inl (congrArg _ heq.symm)⟩

theorem Exact.coherent {s : Mapper} (h : s.Exact) {dmaAddr : UInt64} :
    .coherent dmaAddr ∈ s.blocks ↔ dmaAddr ∈ s.addrList.map Allocation.dmaAddr := by
  rw [h.blocks, List.mem_map]
  constructor
  · intro ⟨alloc, hmem, heq⟩
    cases heq with
    | inl heq => contradiction
    | inr heq => exact ⟨alloc, hmem, (Block.coherent.inj heq).symm⟩
  · intro ⟨alloc, hmem, heq⟩
    exact ⟨alloc, hmem, .inr (congrArg _ heq.symm)⟩

theorem Exact.listed {s : Mapper} (h : s.Exact) : s.Listed := by
  rw [Listed, h.mappings_eq, List.map_map]
  apply List.Perm.of_eq
  apply List.map_congr_left
  intro alloc hmem
  have hlow := h.low alloc hmem
  have hphys : alloc.physAddr.toNat = alloc.dmaAddr.toNat := by
    rw [alloc.physAddr_eq, UInt64.toNat_toUInt32]
    exact Nat.mod_eq_of_lt hlow
  have hsize : alloc.userAddr + alloc.size - alloc.userAddr = alloc.size := by
    rw [UInt64.add_comm, UInt64.add_sub_cancel]
  simp [Allocation.bufferMapping, Allocation.mapping, hphys, hsize]

theorem Exact.released {s : Mapper} (h : s.Exact) (hnone : s.mappings = []) : s.blocks = ∅ := by
  rw [h.mappings_eq, List.map_eq_nil_iff] at hnone
  apply Finset.eq_empty_of_forall_notMem
  intro b hb
  rw [h.blocks, hnone] at hb
  simp at hb

theorem Exact.init : init.Exact :=
  ⟨rfl, List.nodup_nil, List.nodup_nil, nofun, fun b => by simp [Mapper.init]⟩

/-! `mmap`. -/

/-- What the kernel answers to an `mmap` that succeeds. -/
theorem mmap_clean {s : Mapper} (h : s.Exact) {answers : Answers} {node : Nat} {dmaAddr : UInt64}
    (hfresh : s.Fresh answers) (hnode : answers.kmalloc = some node)
    (hdma : answers.dmaAllocCoherent = some dmaAddr) (hmmap : 0 ≤ answers.dmaMmapCoherent) :
    Clean s.blocks (axitangxiMmapAccesses s.addrList answers) ∧
      live s.blocks (axitangxiMmapAccesses s.addrList answers) =
        insert (.coherent dmaAddr) (insert (.allocation node) s.blocks) := by
  have hnew := hfresh.1 node hnode
  have hbuf := hfresh.2 dmaAddr hdma
  have hfirst : ∀ alloc ∈ s.addrList.head?, .allocation alloc.node ∈ s.blocks := by
    intro alloc halloc
    exact h.allocation.mpr (List.mem_map_of_mem (List.mem_of_mem_head? halloc))
  rw [axitangxiMmapAccesses, hnode, hdma]
  simp only [if_neg (Int.not_lt.mpr hmmap)]
  cases hhead : s.addrList.head? with
  | none => simp [Access.Allowed, Access.apply, hnew, hbuf]
  | some first =>
      have hlive := hfirst first hhead
      simp [Access.Allowed, Access.apply, hnew, hbuf, hlive]

theorem allocation_bufferMapping (vma : VmArea) (node : Nat) (dmaAddr : UInt64) :
    (vma.allocation node dmaAddr).bufferMapping =
      { vma with vmPrivateData := node, dmaAddr } := by
  have hend : vma.vmStart + (vma.vmEnd - vma.vmStart) = vma.vmEnd := by
    rw [UInt64.add_comm, UInt64.sub_add_cancel]
  simp [VmArea.allocation, Allocation.bufferMapping, Allocation.mapping, hend]

theorem call_mmap {s s' : Mapper} {vma : VmArea} {answers : Answers} {node : Nat}
    {dmaAddr : UInt64} (hnode : answers.kmalloc = some node)
    (hdma : answers.dmaAllocCoherent = some dmaAddr) (hmmap : 0 ≤ answers.dmaMmapCoherent)
    (hcall : s.Called (.mmap vma answers) s') :
    s.Fresh answers ∧
      s' = { mappings := (vma.allocation node dmaAddr).bufferMapping :: s.mappings
             addrList := vma.allocation node dmaAddr :: s.addrList
             blocks := live s.blocks (axitangxiMmapAccesses s.addrList answers) } := by
  simp only [Called, call] at hcall
  split at hcall
  · next hfresh =>
    simp only [axitangxiMmap, hnode, hdma, if_neg (Int.not_lt.mpr hmmap)] at hcall
    refine ⟨hfresh, ?_⟩
    rw [allocation_bufferMapping]
    simpa [mapped, hnode, hdma, VmArea.allocation] using (Option.some.inj hcall).symm
  · contradiction

theorem Exact.mmap {s s' : Mapper} {vma : VmArea} {answers : Answers} {node : Nat}
    {dmaAddr : UInt64} (h : s.Exact) (hnode : answers.kmalloc = some node)
    (hdma : answers.dmaAllocCoherent = some dmaAddr) (hmmap : 0 ≤ answers.dmaMmapCoherent)
    (hlow : dmaAddr.toNat < 2 ^ 32) (hcall : s.Called (.mmap vma answers) s') : s'.Exact := by
  obtain ⟨hfresh, rfl⟩ := call_mmap hnode hdma hmmap hcall
  have hlive := (mmap_clean h hfresh hnode hdma hmmap).2
  have hnew := mt h.allocation.mpr (hfresh.1 node hnode)
  have hbuf := mt h.coherent.mpr (hfresh.2 dmaAddr hdma)
  refine ⟨?_, List.nodup_cons.mpr ⟨hnew, h.nodes⟩, List.nodup_cons.mpr ⟨hbuf, h.buffers⟩, ?_, ?_⟩
  · rw [h.mappings_eq, List.map_cons]
  · intro alloc hmem
    cases List.mem_cons.mp hmem with
    | inl heq => exact heq ▸ hlow
    | inr hmem => exact h.low alloc hmem
  · intro b
    simp only [hlive, Finset.mem_insert, List.mem_cons, exists_eq_or_imp]
    rw [h.blocks, VmArea.allocation]
    constructor
    · intro hb
      cases hb with
      | inl hb => exact .inl (.inr hb)
      | inr hb => exact hb.imp .inl id
    · intro hb
      cases hb with
      | inl hb => exact hb.elim (fun hb => .inr (.inl hb)) .inl
      | inr hb => exact .inr (.inr hb)

theorem mmap_without_memory {s s' : Mapper} {vma : VmArea} {answers : Answers}
    (hnone : answers.kmalloc = none) (hcall : s.Called (.mmap vma answers) s') : s' = s := by
  simp only [Called, call] at hcall
  split at hcall
  · simp only [axitangxiMmap, axitangxiMmapAccesses, hnone] at hcall
    exact (Option.some.inj hcall).symm
  · contradiction

/-! `munmap`. -/

/-- The entry of a mapping, with the entries before and behind it. -/
theorem Exact.split {s : Mapper} (h : s.Exact) {mapping : BufferMapping}
    (hlive : mapping ∈ s.mappings) : ∃ before alloc behind,
      s.addrList = before ++ alloc :: behind ∧ mapping = alloc.bufferMapping ∧
        (∀ other ∈ before, other.node ≠ alloc.node) ∧
        s.mappings.erase mapping = (before ++ behind).map Allocation.bufferMapping ∧
        axitangxiVmaClose s.addrList alloc.node = before ++ behind := by
  rw [h.mappings_eq] at hlive ⊢
  exact axitangxiVmaClose_split (fun _ _ heq => congrArg (fun m => m.vmPrivateData) heq) h.nodes
    hlive

theorem mem_neighbours {nodes : List Nat} {node other : Nat} (h : other ∈ neighbours nodes node) :
    other ∈ nodes := by
  rw [neighbours, List.mem_append] at h
  cases h with
  | inl h =>
      split at h
      · simp at h
      · exact List.mem_of_getElem? (Option.mem_toList.mp h)
  | inr h => exact List.mem_of_getElem? (Option.mem_toList.mp h)

theorem munmap_clean {s : Mapper} (h : s.Exact) {alloc : Allocation}
    {before behind : List Allocation} (hsplit : s.addrList = before ++ alloc :: behind)
    (hother : ∀ other ∈ before, other.node ≠ alloc.node) :
    Clean s.blocks (axitangxiVmaCloseAccesses s.addrList alloc.node) ∧
      live s.blocks (axitangxiVmaCloseAccesses s.addrList alloc.node) =
        (s.blocks.erase (.coherent alloc.dmaAddr)).erase (.allocation alloc.node) := by
  have hmem : alloc ∈ s.addrList := by simp [hsplit]
  have hnode : .allocation alloc.node ∈ s.blocks := h.allocation.mpr (List.mem_map_of_mem hmem)
  have hbuf : .coherent alloc.dmaAddr ∈ s.blocks := h.coherent.mpr (List.mem_map_of_mem hmem)
  have hfind : (s.addrList.find? fun other => other.node == alloc.node) = some alloc := by
    rw [hsplit, List.find?_append, List.find?_eq_none.mpr (by simpa using hother)]
    simp
  have hnear : ∀ b ∈ (neighbours (s.addrList.map Allocation.node) alloc.node).map
      Block.allocation, b ∈ s.blocks.erase (.coherent alloc.dmaAddr) := by
    intro b hb
    obtain ⟨other, hother, rfl⟩ := List.mem_map.mp hb
    exact Finset.mem_erase.mpr ⟨nofun, h.allocation.mpr (mem_neighbours hother)⟩
  have htouches := clean_touches hnear
  rw [List.map_map] at htouches
  have hstill : .allocation alloc.node ∈ s.blocks.erase (.coherent alloc.dmaAddr) :=
    Finset.mem_erase.mpr ⟨nofun, hnode⟩
  have haccesses : axitangxiVmaCloseAccesses s.addrList alloc.node =
      .touch (.allocation alloc.node) :: .free (.coherent alloc.dmaAddr) ::
        ((neighbours (s.addrList.map Allocation.node) alloc.node).map fun node =>
          Access.touch (.allocation node)) ++
        [.touch (.allocation alloc.node), .free (.allocation alloc.node)] := by
    rw [axitangxiVmaCloseAccesses, hfind]
    rfl
  rw [haccesses]
  refine ⟨?_, ?_⟩
  · rw [List.cons_append, List.cons_append, clean_cons, clean_cons, clean_append]
    refine ⟨hnode, hbuf, htouches.1, ?_⟩
    exact htouches.2.symm ▸ ⟨hstill, hstill, trivial⟩
  · rw [List.cons_append, List.cons_append, live_cons, live_cons, live_append]
    exact congrArg (fun blocks => Finset.erase blocks (.allocation alloc.node)) htouches.2

/-- Without the entry and its two blocks. -/
theorem Exact.remove {s : Mapper} (h : s.Exact) {alloc : Allocation}
    {before behind : List Allocation} (hsplit : s.addrList = before ++ alloc :: behind) :
    Exact { mappings := (before ++ behind).map Allocation.bufferMapping
            addrList := before ++ behind
            blocks := (s.blocks.erase (.coherent alloc.dmaAddr)).erase
              (.allocation alloc.node) } := by
  have hnodes := h.nodes
  have hbuffers := h.buffers
  rw [hsplit, List.map_append, List.map_cons, List.nodup_middle, List.nodup_cons,
    ← List.map_append] at hnodes hbuffers
  have hsub : ∀ other ∈ before ++ behind, other ∈ s.addrList := by
    intro other hmem
    rw [hsplit]
    simp only [List.mem_append, List.mem_cons] at hmem ⊢
    exact hmem.imp id .inr
  have hrest : ∀ other ∈ s.addrList, other = alloc ∨ other ∈ before ++ behind := by
    intro other hmem
    rw [hsplit] at hmem
    simp only [List.mem_append, List.mem_cons] at hmem ⊢
    exact hmem.elim (fun h => .inr (.inl h)) (fun h => h.imp id .inr)
  refine ⟨rfl, hnodes.2, hbuffers.2, fun other hmem => h.low other (hsub other hmem), ?_⟩
  intro b
  rw [Finset.mem_erase, Finset.mem_erase, h.blocks]
  constructor
  · intro ⟨hnode, hbuf, other, hmem, hb⟩
    cases hrest other hmem with
    | inl heq => exact absurd hb (heq ▸ not_or.mpr ⟨hnode, hbuf⟩)
    | inr hmem => exact ⟨other, hmem, hb⟩
  · intro ⟨other, hmem, hb⟩
    have hneNode : other.node ≠ alloc.node := by
      intro heq
      exact hnodes.1 (heq ▸ List.mem_map_of_mem hmem)
    have hneBuf : other.dmaAddr ≠ alloc.dmaAddr := by
      intro heq
      exact hbuffers.1 (heq ▸ List.mem_map_of_mem hmem)
    refine ⟨?_, ?_, other, hsub other hmem, hb⟩
    · intro heq
      rw [heq] at hb
      simp [Ne.symm hneNode] at hb
    · intro heq
      rw [heq] at hb
      simp [Ne.symm hneBuf] at hb

theorem Exact.munmap {s s' : Mapper} (h : s.Exact) {mapping : BufferMapping}
    (hcall : s.Called (.munmap mapping) s') :
    Clean s.blocks (s.accesses (.munmap mapping)) ∧ s'.Exact := by
  simp only [Called, call] at hcall
  split at hcall
  · next hlive =>
    obtain ⟨before, alloc, behind, hsplit, rfl, hother, herase, hclose⟩ := h.split hlive
    obtain ⟨hclean, hblocks⟩ := munmap_clean h hsplit hother
    have hs' : s' = { mappings := (before ++ behind).map Allocation.bufferMapping
                      addrList := before ++ behind
                      blocks := (s.blocks.erase (.coherent alloc.dmaAddr)).erase
                        (.allocation alloc.node) } := by
      rw [← Option.some.inj hcall, herase, ← hclose, ← hblocks]
      rfl
    exact ⟨hclean, hs' ▸ h.remove hsplit⟩
  · contradiction

/-! A step, kept and broken. -/

theorem Exact.tracks {s s' : Mapper} {c : MapperCall} (h : s.Exact) (hc : c.Keeps)
    (hcall : s.Called c s') : s.Tracks c s' ∧ s'.Exact := by
  cases c with
  | munmap mapping =>
      obtain ⟨hclean, hexact⟩ := h.munmap hcall
      exact ⟨⟨hclean, nofun, hexact.listed, hexact.released⟩, hexact⟩
  | mmap vma answers =>
      cases hnode : answers.kmalloc with
      | none =>
          obtain rfl := mmap_without_memory hnode hcall
          refine ⟨⟨?_, ?_, h.listed, h.released⟩, h⟩
          · simp [accesses, axitangxiMmapAccesses, hnode]
          · intro _ _ heq _
            obtain ⟨rfl, rfl⟩ := MapperCall.mmap.inj heq
            exact ⟨by simp [axitangxiMmap, hnode], rfl, rfl, rfl⟩
      | some node =>
          obtain ⟨dmaAddr, hdma, hmmap, hlow⟩ := hc.resolve_left (by simp [hnode])
          have hexact := h.mmap hnode hdma hmmap hlow hcall
          have hfresh := (call_mmap hnode hdma hmmap hcall).1
          refine ⟨⟨(mmap_clean h hfresh hnode hdma hmmap).1, ?_, hexact.listed,
            hexact.released⟩, hexact⟩
          intro _ _ heq hfails
          obtain ⟨rfl, rfl⟩ := MapperCall.mmap.inj heq
          simp [Answers.Fails, hnode, hdma, Int.not_lt.mpr hmmap] at hfails

theorem Exact.untracked {s s' : Mapper} {c : MapperCall} (h : s.Exact) (hc : ¬ c.Keeps)
    (hcall : s.Called c s') : ¬ s.Tracks c s' := by
  intro htracks
  cases c with
  | munmap mapping => exact hc trivial
  | mmap vma answers =>
      rw [MapperCall.Keeps, not_or] at hc
      obtain ⟨node, hnode⟩ := Option.ne_none_iff_exists'.mp hc.1
      cases hdma : answers.dmaAllocCoherent with
      | none =>
          -- the structure is read after it was freed
          have hclean := htracks.clean
          simp [accesses, axitangxiMmapAccesses, hnode, hdma, Access.Allowed, Access.apply]
            at hclean
      | some dmaAddr =>
          by_cases hmmap : answers.dmaMmapCoherent < 0
          · -- the structure is not freed
            have hfresh : s.Fresh answers := by
              by_contra hfresh
              simp [Called, call, hfresh] at hcall
            have hblocks := (htracks.failed vma answers rfl (.inr (.inr hmmap))).2.2.2
            have hs' : s'.blocks =
                live s.blocks (axitangxiMmapAccesses s.addrList answers) := by
              simp only [Called, call, if_pos hfresh] at hcall
              split at hcall
              · rw [← Option.some.inj hcall]
              · rw [← Option.some.inj hcall]
            have hmem : .allocation node ∈ s'.blocks := by
              simp [hs', axitangxiMmapAccesses, hnode, hdma, hmmap, Access.apply]
            exact hfresh.1 node hnode (hblocks ▸ hmem)
          · -- the entry has the low half of the address
            have hhigh : ¬ dmaAddr.toNat < 2 ^ 32 := by
              intro hlow
              exact hc.2 ⟨dmaAddr, hdma, Int.not_lt.mp hmmap, hlow⟩
            obtain ⟨-, rfl⟩ := call_mmap hnode hdma (Int.not_lt.mp hmmap) hcall
            have hperm := Multiset.coe_eq_coe.mpr htracks.listed
            have hold := Multiset.coe_eq_coe.mpr h.listed
            rw [List.map_cons, List.map_cons, ← Multiset.cons_coe, ← Multiset.cons_coe, hold,
              Multiset.cons_inj_left] at hperm
            have hphys := congrArg (fun t => t.2.1) hperm
            have hlt := (vma.allocation node dmaAddr).physAddr.toNat_lt
            simp only [VmArea.allocation, Allocation.bufferMapping, Allocation.mapping] at hphys hlt
            omega

end Mapper

/-- In every run every call tracks the mappings exactly when no `mmap` fails behind its
first acquisition and every buffer lies below 2^32. -/
theorem mappings_tracked_iff {cs : List MapperCall} {s : Mapper}
    (hrun : Run Mapper.Called Mapper.init cs s) :
    EveryStep Mapper.Called (fun s c => ∀ s', s.Called c s' → s.Tracks c s') Mapper.init cs ↔
      ∀ c ∈ cs, c.Keeps :=
  everyStep_iff_of_kept (J := Mapper.Exact) (P := Mapper.Tracks) (C := MapperCall.Keeps)
    (fun _ _ _ _ h₁ h₂ => Option.some.inj (h₁.symm.trans h₂))
    (fun _ _ _ h hc hcall => h.tracks hc hcall)
    (fun _ _ _ h hc hcall => h.untracked hc hcall) hrun .init

/-- An `mmap` of a page. -/
def mapOnePage (dmaAllocCoherent : Option UInt64) (dmaMmapCoherent : Int) : MapperCall :=
  .mmap { vmStart := 69632, vmEnd := 73728 }
    { kmalloc := some 1, dmaAllocCoherent, dmaMmapCoherent }

/-- A page that is mapped and unmapped. -/
theorem mappings_tracked_page : EveryStep Mapper.Called
    (fun s c => ∀ s', s.Called c s' → s.Tracks c s') Mapper.init
    [mapOnePage (some 4096) 0, .munmap (page 1).bufferMapping] := by
  have hrun : ∃ s, Run Mapper.Called Mapper.init
      [mapOnePage (some 4096) 0, .munmap (page 1).bufferMapping] s :=
    ⟨_, .cons rfl (.cons rfl (.nil _))⟩
  refine (mappings_tracked_iff hrun.choose_spec).mpr ?_
  intro c hc
  cases List.mem_cons.mp hc with
  | inl heq => exact heq ▸ .inr ⟨4096, rfl, by decide, by decide⟩
  | inr hc => exact List.mem_singleton.mp hc ▸ trivial

/-- Without a buffer the structure is read after it was freed; where only the mapping fails,
the structure stays. -/
theorem mappings_lost_on_failure :
    (∃ s, Mapper.init.Called (mapOnePage none 0) s ∧
      ¬ Mapper.init.Tracks (mapOnePage none 0) s) ∧
    ∃ s, Mapper.init.Called (mapOnePage (some 4096) (-11)) s ∧ s.mappings = [] ∧
      s.blocks = {.allocation 1} ∧ ¬ Mapper.init.Tracks (mapOnePage (some 4096) (-11)) s := by
  refine ⟨⟨_, rfl, ?_⟩, ⟨_, rfl, rfl, by decide, ?_⟩⟩
  · intro htracks
    exact absurd htracks.clean (by decide)
  · intro htracks
    exact absurd (htracks.released rfl) (by decide)

end Soc
