import Soc.Driver.Network
import Mathlib.Data.List.Pairwise

/-!
The mappings of the device keep apart what the program has in them.

The kernel gives out buffers that share no byte with one that is mapped, at an address that is
not in use. A store, a transfer and an `munmap` then change the mapping they are for and no
other.
-/
namespace Soc
open Loops Copies

/-- Two mappings at once. -/
structure Allocation.Apart (alloc other : Allocation) : Prop where
  node : alloc.node ≠ other.node
  userAddr : alloc.userAddr ≠ other.userAddr
  bytes : alloc.bytes ⊆ other.bytesᶜ

/-- A mapping the DMA engine can reach, at an address a program can use. -/
structure Allocation.Usable (alloc : Allocation) : Prop where
  nonnull : alloc.userAddr ≠ 0
  mapped : alloc.userAddr ≠ mapFailed
  below : alloc.dmaAddr.toNat + alloc.size.toNat ≤ 2 ^ 32

/-- The mappings there are. -/
structure Live (addrList : List Allocation) : Prop where
  apart : addrList.Pairwise Allocation.Apart
  usable : ∀ alloc ∈ addrList, alloc.Usable

namespace MapAnswer

/-- The allocation of a call that succeeds. -/
def allocation (map : MapAnswer) : Allocation :=
  map.vma.allocation (map.answers.kmalloc.getD 0) (map.answers.dmaAllocCoherent.getD 0)

/-- The call succeeds, and maps whole pages. -/
structure Granted (map : MapAnswer) (size : Nat) : Prop where
  kmalloc : map.answers.kmalloc.isSome
  coherent : map.answers.dmaAllocCoherent.isSome
  mmap : 0 ≤ map.answers.dmaMmapCoherent
  size_eq : map.allocation.size.toNat = pageAlign size

end MapAnswer

instance Allocation.apartSymm : Std.Symm Allocation.Apart where
  symm _ _ h := ⟨h.node.symm, h.userAddr.symm, Set.subset_compl_comm.mp h.bytes⟩

namespace Live
variable {addrList : List Allocation} {alloc other : Allocation}

theorem nodup (h : Live addrList) : addrList.Nodup :=
  h.apart.imp fun hapart heq => hapart.node (congrArg Allocation.node heq)

theorem nodes (h : Live addrList) : (addrList.map Allocation.node).Nodup :=
  List.pairwise_map.mpr (h.apart.imp Allocation.Apart.node)

theorem mem_apart (h : Live addrList) (halloc : alloc ∈ addrList) (hother : other ∈ addrList)
    (hne : alloc ≠ other) : alloc.Apart other :=
  h.apart.forall halloc hother hne

theorem sublist {addrList' : List Allocation} (h : Live addrList)
    (hsub : addrList'.Sublist addrList) : Live addrList' :=
  ⟨h.apart.sublist hsub, fun alloc hmem => h.usable alloc (hsub.subset hmem)⟩

/-- A mapping is found by its address. -/
theorem find_eq (h : Live addrList) (halloc : alloc ∈ addrList) :
    (addrList.find? fun a => a.userAddr == alloc.userAddr) = some alloc := by
  rw [List.find?_eq_some_iff_append]
  obtain ⟨before, behind, rfl⟩ := List.append_of_mem halloc
  refine ⟨beq_self_eq_true _, before, behind, rfl, ?_⟩
  intro other hother
  have hapart := (List.pairwise_append.mp h.apart).2.2 other hother alloc List.mem_cons_self
  simpa using hapart.userAddr

theorem isBuffer (h : Live addrList) (halloc : alloc ∈ addrList) {size : UInt32}
    (hsize : alloc.size.toNat = pageAlign size.toNat) :
    IsBuffer addrList alloc.userAddr size alloc :=
  ⟨h.find_eq halloc, hsize, (h.usable alloc halloc).below⟩

end Live

namespace Board
variable {b : Board} {alloc other : Allocation} {dma : Dma}

theorem find_eq (h : Live b.addrList) (halloc : alloc ∈ b.addrList) :
    b.find alloc.userAddr = some alloc := h.find_eq halloc

theorem psMmap_granted {size : Nat} {map : MapAnswer} (hsize : size ≠ 0)
    (hmap : map.Granted size) :
    b.psMmap size map =
      (map.allocation.userAddr, { b with addrList := map.allocation :: b.addrList }) := by
  obtain ⟨vma, kmalloc, dmaAlloc, dmaMmap⟩ := map
  obtain ⟨node, rfl⟩ := Option.isSome_iff_exists.mp hmap.kmalloc
  obtain ⟨dmaAddr, rfl⟩ := Option.isSome_iff_exists.mp hmap.coherent
  have hnonneg : ¬ dmaMmap < 0 := Int.not_lt.mpr hmap.mmap
  simp only [psMmap, if_neg hsize, axitangxiMmap, if_neg hnonneg]
  rfl

/-- The mapping that is taken back is the only one that goes. -/
theorem munmap_eq (h : Live b.addrList) (halloc : alloc ∈ b.addrList) {size : Nat}
    (hsize : size ≠ 0) :
    b.munmap alloc.userAddr size = (0, { b with addrList := b.addrList.erase alloc }) := by
  have hmem : alloc ∈ b.addrList.map id := by rwa [List.map_id]
  obtain ⟨before, found, behind, hlist, heq, -, herase, hclose⟩ :=
    axitangxiVmaClose_split (fun _ _ heq => congrArg Allocation.node heq) h.nodes hmem
  have herase : b.addrList.erase alloc = before ++ behind := by simpa using herase
  obtain rfl : alloc = found := heq
  rw [munmap, if_neg hsize, find_eq h halloc]
  simp only [hclose, herase]

theorem poke_eq (h : Live b.addrList) (halloc : alloc ∈ b.addrList) {offset : Nat}
    {bytes : List UInt8} (hfits : offset + bytes.length ≤ alloc.size.toNat) :
    b.poke alloc.userAddr offset bytes =
      .ok { b with ps := write b.ps (alloc.dmaAddr.toNat + offset) bytes } := by
  rw [poke, find_eq h halloc]
  exact if_pos hfits

theorem peek_eq (h : Live b.addrList) (halloc : alloc ∈ b.addrList) {n : Nat}
    (hfits : n ≤ alloc.size.toNat) :
    b.peek alloc.userAddr n = .ok (read b.ps alloc.dmaAddr.toNat n) := by
  rw [peek, find_eq h halloc]
  exact if_pos hfits

/-! The transfers, in a mapping that holds them. -/

/-- A transfer between a mapping and the PL copies the size, rounded up to 16 bytes. -/
theorem plIo_mapped (h : Live b.addrList) (halloc : alloc ∈ b.addrList) {plAddr size : UInt32}
    (hsize : 1 ≤ size) (hmapped : alloc.size.toNat = pageAlign size.toNat)
    (hpl : plAddr.toNat + align16 size.toNat ≤ 2 ^ 32) (request : Request) :
    ∃ j : BurstLoop, Soc.plIo b.addrList alloc.userAddr alloc.userAddr plAddr size true request =
        (some j, (size.toNat : Int)) ∧
      j.Tiled request j.bursts alloc.dmaAddr.toNat plAddr.toNat (align16 size.toNat) := by
  have husable := h.usable alloc halloc
  have hstarts : true = true ∧ alloc.userAddr ≠ mapFailed ∧
      (alloc.userAddr = 0 → alloc.userAddr ≠ mapFailed) :=
    ⟨rfl, husable.mapped, fun _ => husable.mapped⟩
  have htiled := ioctl_tiled hsize (h.isBuffer halloc hmapped) hpl request
  rw [axitangxiIoctl_loop] at htiled
  have hcount := (BurstLoop.ends_iff.mp htiled.ends).2
  refine ⟨_, ?_, hcount ▸ htiled⟩
  rw [BlockingCall.plIo_eq, if_pos hstarts, if_neg husable.nonnull]

/-- `pl_write` of a mapping -/
theorem plIo_write (hdma : dma.Copies) (h : Live b.addrList) (halloc : alloc ∈ b.addrList)
    {plAddr size : UInt32} (hsize : 1 ≤ size) (hmapped : alloc.size.toNat = pageAlign size.toNat)
    (hpl : plAddr.toNat + align16 size.toNat ≤ 2 ^ 32) (map : MapAnswer) :
    b.plIo dma alloc.userAddr map plAddr size true .psddrToPlddr =
      (((size.toNat : Int), alloc.userAddr),
        { b with
          pl := copy b.ps b.pl alloc.dmaAddr.toNat plAddr.toNat (align16 size.toNat) }) := by
  obtain ⟨j, heq, htiled⟩ := plIo_mapped h halloc hsize hmapped hpl .psddrToPlddr
  rw [plIo, if_neg (h.usable alloc halloc).nonnull]
  simp only [heq, transfer, htiled.run_written hdma]

/-- `pl_read` into a new mapping -/
theorem plIo_read (hdma : dma.Copies) {map : MapAnswer} {plAddr size : UInt32} (hsize : 1 ≤ size)
    (hmap : map.Granted size.toNat) (h : Live (map.allocation :: b.addrList))
    (hpl : plAddr.toNat + align16 size.toNat ≤ 2 ^ 32) :
    b.plIo dma 0 map plAddr size true .plddrToPsddr =
      (((size.toNat : Int), map.allocation.userAddr),
        { b with
          addrList := map.allocation :: b.addrList
          ps := copy b.pl b.ps plAddr.toNat map.allocation.dmaAddr.toNat
            (align16 size.toNat) }) := by
  have hpos : size.toNat ≠ 0 := Nat.ne_of_gt hsize
  let b' : Board := { b with addrList := map.allocation :: b.addrList }
  have hlive : Live b'.addrList := h
  obtain ⟨j, heq, htiled⟩ :=
    plIo_mapped hlive List.mem_cons_self hsize hmap.size_eq hpl .plddrToPsddr
  rw [plIo, if_pos rfl, psMmap_granted hpos hmap]
  simp only [heq, transfer, htiled.run_read hdma, b']

end Board

/-- The bytes of a channel with 16 bits each. -/
def widened (bytes : List UInt8) : List UInt8 := bytes.flatMap fun x => [x, 0]

@[simp] theorem widened_length (bytes : List UInt8) :
    (widened bytes).length = 2 * bytes.length := by
  rw [widened, List.length_flatMap]
  simp [Nat.mul_comm]

theorem storeInt16_byte (x : UInt8) : storeInt16 x.toUInt16.toInt16 = [x, 0] := by
  have hlt := x.toNat_lt
  have hword : x.toUInt16.toInt16.toUInt16.toNat = x.toNat := x.toNat_toUInt16
  rw [storeInt16, Layout.uint16_store, hword, Layout.leBytes, Layout.leBytes, Layout.leBytes,
    UInt8.ofNat_toNat, Nat.div_eq_of_lt hlt]
  rfl

namespace Board
variable {b : Board} {alloc other : Allocation}

/-- The loop over the bytes of a channel is one store. -/
theorem widen_eq (h : Live b.addrList) (halloc : alloc ∈ b.addrList) (i : Nat)
    {bytes : List UInt8} (hfits : 2 * (i + bytes.length) ≤ alloc.size.toNat) :
    b.widen alloc.userAddr i bytes =
      .ok { b with ps := write b.ps (alloc.dmaAddr.toNat + 2 * i) (widened bytes) } := by
  induction bytes generalizing b i with
  | nil =>
      rw [widened, List.flatMap_nil, write_nil]
      rfl
  | cons x bytes ih =>
      have hlength : 2 * (i + 1 + bytes.length) ≤ alloc.size.toNat := by
        rw [List.length_cons] at hfits
        omega
      have hpoke : 2 * i + [x, 0].length ≤ alloc.size.toNat := by
        simp only [List.length_cons, List.length_nil]
        omega
      let b' : Board := { b with ps := write b.ps (alloc.dmaAddr.toNat + 2 * i) [x, 0] }
      have hrest := ih (b := b') h halloc (i + 1) hlength
      have hnext : alloc.dmaAddr.toNat + 2 * (i + 1) =
          alloc.dmaAddr.toNat + 2 * i + [x, 0].length := rfl
      rw [widen, storeInt16_byte, poke_eq h halloc hpoke, ok_bind, hrest, hnext, write_write]
      rfl

theorem mapYuv_eq {maps : List (Nat × MapAnswer)}
    (h : ∀ m ∈ maps, m.1 ≠ 0 ∧ m.2.Granted (2 * m.1)) :
    b.mapYuv maps = (maps.map fun m => ⟨m.2.allocation.userAddr, m.1⟩,
      { b with addrList := (maps.map fun m => m.2.allocation).reverse ++ b.addrList }) := by
  induction maps generalizing b with
  | nil => rfl
  | cons m maps ih =>
      obtain ⟨len, map⟩ := m
      obtain ⟨hpos, hgranted⟩ := h _ List.mem_cons_self
      have hrest := ih (b := { b with addrList := map.allocation :: b.addrList })
        (fun m hm => h m (List.mem_cons_of_mem _ hm))
      rw [mapYuv, psMmap_granted (Nat.mul_ne_zero (by decide) hpos) hgranted]
      simp only [hrest, List.map_cons, List.reverse_cons, List.append_assoc, List.singleton_append]

/-- A store into a mapping does not reach the others. -/
theorem write_apart (h : other.Apart alloc) {bytes : List UInt8}
    (hfits : bytes.length ≤ alloc.size.toNat) (m : Memory UInt8) :
    Set.EqOn (write m alloc.dmaAddr.toNat bytes) m other.bytes := by
  refine (write_outside m alloc.dmaAddr.toNat bytes).mono ?_
  refine h.bytes.trans (Set.compl_subset_compl.mpr ?_)
  exact Set.Ico_subset_Ico_right (Nat.add_le_add_left hfits _)

/-- Every channel is stored in its own mapping. -/
theorem fillYuv_spec {channels : List (List UInt8 × Allocation)} (h : Live b.addrList)
    (hmem : ∀ channel ∈ channels, channel.2 ∈ b.addrList ∧
      2 * channel.1.length ≤ channel.2.size.toNat)
    (hnodup : (channels.map Prod.snd).Nodup) {p behind : List UInt8}
    (hp : p = (channels.map Prod.fst).flatten ++ behind) :
    ∃ ps, b.fillYuv (channels.map fun channel => ⟨channel.2.userAddr, channel.1.length⟩) p =
        .ok { b with ps } ∧
      (∀ channel ∈ channels,
        read ps channel.2.dmaAddr.toNat (2 * channel.1.length) = widened channel.1) ∧
      ∀ other ∈ b.addrList, other ∉ channels.map Prod.snd → Set.EqOn ps b.ps other.bytes := by
  induction channels generalizing b p with
  | nil => exact ⟨b.ps, rfl, by simp, fun _ _ _ _ _ => rfl⟩
  | cons channel rest ih =>
      obtain ⟨bytes, alloc⟩ := channel
      obtain ⟨hnotin, hnodup⟩ := List.nodup_cons.mp hnodup
      obtain ⟨halloc, hfits⟩ := hmem _ List.mem_cons_self
      rw [List.map_cons, List.flatten_cons, List.append_assoc] at hp
      have htake : p.take bytes.length = bytes := by rw [hp, List.take_left]
      have hdrop : p.drop bytes.length = (rest.map Prod.fst).flatten ++ behind := by
        rw [hp, List.drop_left]
      have hfits' : 2 * (0 + bytes.length) ≤ alloc.size.toNat := by rwa [Nat.zero_add]
      have hwiden := widen_eq h halloc 0 hfits'
      rw [Nat.mul_zero, Nat.add_zero] at hwiden
      let b' : Board := { b with ps := write b.ps alloc.dmaAddr.toNat (widened bytes) }
      obtain ⟨ps, hfill, hcontents, hkept⟩ := ih (b := b') h
        (fun channel hchannel => hmem channel (List.mem_cons_of_mem _ hchannel)) hnodup hdrop
      refine ⟨ps, ?_, ?_, ?_⟩
      · rw [List.map_cons, fillYuv, htake, hwiden, ok_bind, hfill]
      · intro channel hchannel
        cases hchannel with
        | head =>
            have hwritten := read_write b.ps alloc.dmaAddr.toNat (widened bytes)
            rw [widened_length] at hwritten
            refine (read_congr ((hkept alloc halloc hnotin).mono ?_)).trans hwritten
            exact Set.Ico_subset_Ico_right (Nat.add_le_add_left hfits _)
        | tail _ hchannel => exact hcontents channel hchannel
      · intro other hother hnot
        have hne : other ≠ alloc := List.ne_of_not_mem_cons hnot
        have hnot := List.not_mem_of_not_mem_cons hnot
        refine (hkept other hother hnot).trans ?_
        exact write_apart (h.mem_apart hother halloc hne) (widened_length bytes ▸ hfits) b.ps

end Board

end Soc
