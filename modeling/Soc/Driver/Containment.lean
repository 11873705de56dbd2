import Soc.Driver.Bursts
import Mathlib.Order.Interval.Set.LinearOrder

/-!
Where the DMA of a transaction goes.

The driver takes the sizes and the pointer of a transaction as they are: it programs
bursts behind the end of a mapping, and at address 0 when it finds no mapping. It never
refuses a transaction. So the DMA stays inside the mapping that was passed exactly when
there is one, it is large enough, and the last burst of either length ends inside it.
-/
namespace Soc
open Runs Loops

/-- The allocation of the live mapping that starts at an address, the only one that
does. -/
def Device.At (s : Device) (ptr : UInt64) (alloc : Allocation) : Prop :=
  alloc ∈ s.addrList ∧ s.mappings.filter (fun m => m.vmStart == ptr) = [alloc.mapping]

/-- A live mapping starts at the pointer and is not smaller than the transaction. -/
def Device.Covers (s : Device) (request : Request) (trans : Transaction) : Prop :=
  ∃ m ∈ s.mappings, m.vmStart = request.psPtr trans ∧
    request.dataSize trans ≤ m.vmEnd - m.vmStart

/-- Every PS byte of every burst is in the allocation whose address was passed, and a
transaction without such a mapping is refused without a burst. -/
structure Device.Contained (s : Device) (request : Request) (trans : Transaction) : Prop where
  inside : ∀ b, Puts BurstLoop.turn (axitangxiIoctl s.addrList trans request).1 b →
    ∀ x ∈ request.psBytes b, ∃ alloc, s.At (request.psPtr trans) alloc ∧ x ∈ alloc.bytes
  refused : ¬ s.Covers request trans → (axitangxiIoctl s.addrList trans request).2 < 0 ∧
    ∀ b, ¬ Puts BurstLoop.turn (axitangxiIoctl s.addrList trans request).1 b

/-- The bytes of a burst of so many beats; no beats wrap to 2^32. -/
def burstBytes (beats : Nat) : Nat := if beats = 0 then 2 ^ 36 else 16 * beats

/-- The last burst of the length of the transaction, and the tail: offsets and bytes. A
transaction whose bursts are of no bytes never gets beyond the first. -/
def Request.lastBursts (request : Request) (trans : Transaction) : List (Nat × Nat) :=
  let size := (request.dataSize trans).toUInt32.toNat
  let data := trans.burstData.toUInt32.toNat
  let bytes := burstBytes trans.burstSize.toUInt32.toNat
  if size = 0 then []
  else if data = 0 then [(0, bytes)]
  else
    (if size / data = 0 then [] else [((size / data - 1) * data, bytes)]) ++
      if size % data = 0 then []
      else [(size / data * data, burstBytes ((size % data + 15) / 16 % 2 ^ 28))]

/-- The mapping that was passed holds the transaction and its last bursts. -/
structure Device.Fits (s : Device) (request : Request) (trans : Transaction) : Prop where
  covers : s.Covers request trans
  reach : ∀ p ∈ request.lastBursts trans, ∃ alloc, s.At (request.psPtr trans) alloc ∧
    alloc.dmaAddr.toNat + p.1 < 2 ^ 32 ∧ p.1 + p.2 ≤ alloc.size.toNat

/-! The lookup. -/

theorem Device.Listed.phys {s : Device} (h : s.Listed) {ptr : UInt64} {alloc : Allocation}
    (hat : s.At ptr alloc) : axitangxiUservirtToPhys s.addrList ptr = alloc.physAddr := by
  obtain ⟨hmem, honly⟩ := hat
  have hfilter : (s.addrList.filter fun a => a.userAddr == ptr).map Allocation.mapping =
      [alloc.mapping] := by
    rw [h.mappings_eq, List.filter_map] at honly
    exact honly
  obtain ⟨found, hfound, hmapping⟩ := List.map_eq_singleton_iff.mp hfilter
  have hfoundMem : found ∈ s.addrList := by
    have hin : found ∈ s.addrList.filter fun a => a.userAddr == ptr := by
      rw [hfound]
      exact List.mem_singleton_self found
    exact (List.mem_filter.mp hin).1
  have hnode : found.node = alloc.node := congrArg Mapping.vmPrivateData hmapping
  obtain rfl : found = alloc := List.inj_on_of_nodup_map h.nodup hfoundMem hmem hnode
  rw [axitangxiUservirtToPhys, ← List.head?_filter, hfound]
  rfl

def bytesAt (physAddr : UInt32) (p : Nat × Nat) : Set Nat :=
  Set.Ico (physAddr + UInt32.ofNat p.1).toNat ((physAddr + UInt32.ofNat p.1).toNat + p.2)

theorem Device.Listed.at_unique {s : Device} (h : s.Listed) {ptr : UInt64}
    {alloc alloc' : Allocation} (hat : s.At ptr alloc) (hat' : s.At ptr alloc') :
    alloc = alloc' := by
  have hmapping : alloc.mapping = alloc'.mapping :=
    List.singleton_inj.mp (hat.2.symm.trans hat'.2)
  exact List.inj_on_of_nodup_map h.nodup hat.1 hat'.1 (congrArg Mapping.vmPrivateData hmapping)

/-- A burst at some offset of an allocation, all addresses modulo 2^32. -/
theorem inside_iff {alloc : Allocation} {offset bytes : Nat} (hoffset : offset < 2 ^ 32)
    (hbytes : 0 < bytes) :
    bytesAt alloc.physAddr (offset, bytes) ⊆ alloc.bytes ↔
      alloc.dmaAddr.toNat + offset < 2 ^ 32 ∧ offset + bytes ≤ alloc.size.toNat := by
  have hphys : alloc.physAddr.toNat = alloc.dmaAddr.toNat % 2 ^ 32 := by
    rw [alloc.physAddr_eq, UInt64.toNat_toUInt32]
  rw [bytesAt, Allocation.bytes, Set.Ico_subset_Ico_iff (by omega), UInt32.toNat_add,
    UInt32.toNat_ofNat', hphys]
  omega

theorem burstBytes_eq (burstSize : UInt32) :
    16 * ((burstSize - 1).toNat + 1) = burstBytes burstSize.toNat := by
  have hone : (1 : UInt32).toNat = 1 := rfl
  have hlt := burstSize.toNat_lt
  rw [UInt32.toNat_sub, hone, burstBytes]
  split <;> omega

theorem burstBytes_pos (beats : Nat) : 0 < burstBytes beats := by
  rw [burstBytes]
  split <;> omega

/-- The bursts of a transaction: offsets and bytes. -/
inductive Request.Bursts (request : Request) (trans : Transaction) : Nat × Nat → Prop where
  | stuck (hsize : (request.dataSize trans).toUInt32 ≠ 0) (hdata : trans.burstData.toUInt32 = 0) :
      Bursts request trans (0, burstBytes trans.burstSize.toUInt32.toNat)
  | full (hdata : trans.burstData.toUInt32 ≠ 0) {k : Nat}
      (hk : k < (request.dataSize trans).toUInt32.toNat / trans.burstData.toUInt32.toNat) :
      Bursts request trans
        (k * trans.burstData.toUInt32.toNat, burstBytes trans.burstSize.toUInt32.toNat)
  | tail (hdata : trans.burstData.toUInt32 ≠ 0)
      (hrest : (request.dataSize trans).toUInt32.toNat % trans.burstData.toUInt32.toNat ≠ 0) :
      Bursts request trans
        ((request.dataSize trans).toUInt32.toNat / trans.burstData.toUInt32.toNat *
            trans.burstData.toUInt32.toNat,
          burstBytes (((request.dataSize trans).toUInt32.toNat %
            trans.burstData.toUInt32.toNat + 15) / 16 % 2 ^ 28))

namespace Request
variable {request : Request} {trans : Transaction} {addrList : List Allocation}

theorem psBytes_burstAt {j : BurstLoop} (hprogram : j.program = request.program) (offset : Nat)
    (burstSize : UInt32) : request.psBytes (j.burstAt offset burstSize) =
      bytesAt j.locals.psNext (offset, burstBytes burstSize.toNat) := by
  rw [psBytes, BurstLoop.burstAt, hprogram, psSide_program, burstBytes_eq, bytesAt]

theorem tail_beats {size : UInt32} (data : UInt32) :
    (alignUp16 (UInt32.ofNat (size.toNat % data.toNat)) >>> 4).toNat =
      (size.toNat % data.toNat + 15) / 16 % 2 ^ 28 := by
  have hle := Nat.mod_le size.toNat data.toNat
  have hlt := size.toNat_lt
  rw [alignUp16_beats, UInt32.toNat_ofNat',
    Nat.mod_eq_of_lt (Nat.lt_of_le_of_lt hle hlt)]

theorem Bursts.size_ne {p : Nat × Nat} (hp : request.Bursts trans p) :
    (request.dataSize trans).toUInt32 ≠ 0 := by
  intro hzero
  cases hp with
  | stuck hsize => exact hsize hzero
  | full _ hk =>
      rw [hzero] at hk
      exact absurd hk (by simp)
  | tail _ hrest =>
      rw [hzero] at hrest
      exact absurd (Nat.zero_mod _) hrest

theorem bursts_of_puts {b : Burst}
    (hb : Puts BurstLoop.turn (axitangxiIoctl addrList trans request).1 b) :
    ∃ p, request.Bursts trans p ∧
      request.psBytes b = bytesAt (axitangxiUservirtToPhys addrList (request.psPtr trans)) p := by
  rw [axitangxiIoctl_loop] at hb
  obtain ⟨hmore, hb⟩ := BurstLoop.puts_iff.mp hb
  split at hb
  · next hdata =>
    rw [hb]
    exact ⟨_, .stuck hmore hdata, psBytes_burstAt rfl _ _⟩
  · next hdata =>
    rcases BurstLoop.mem_plan.mp hb with ⟨k, hk, rfl⟩ | ⟨hrest, rfl⟩
    · exact ⟨_, .full hdata hk, psBytes_burstAt rfl _ _⟩
    · refine ⟨_, .tail hdata hrest, ?_⟩
      rw [psBytes_burstAt rfl]
      exact congrArg (fun n => bytesAt _ (_, burstBytes n)) (tail_beats trans.burstData.toUInt32)

theorem puts_of_bursts (addrList : List Allocation) {p : Nat × Nat} (hp : request.Bursts trans p) :
    ∃ b, Puts BurstLoop.turn (axitangxiIoctl addrList trans request).1 b ∧
      request.psBytes b = bytesAt (axitangxiUservirtToPhys addrList (request.psPtr trans)) p := by
  have hmore := hp.size_ne
  rw [axitangxiIoctl_loop]
  cases hp with
  | stuck hsize hdata =>
      refine ⟨(request.loop addrList trans).burstAt 0 trans.burstSize.toUInt32,
        BurstLoop.puts_iff.mpr ⟨hmore, ?_⟩, psBytes_burstAt rfl _ _⟩
      rw [if_pos (by exact hdata)]
      rfl
  | @full hdata k hk =>
      refine ⟨(request.loop addrList trans).burstAt (k * trans.burstData.toUInt32.toNat)
        trans.burstSize.toUInt32, BurstLoop.puts_iff.mpr ⟨hmore, ?_⟩, psBytes_burstAt rfl _ _⟩
      rw [if_neg (by exact hdata)]
      exact BurstLoop.mem_plan.mpr (.inl ⟨k, hk, rfl⟩)
  | tail hdata hrest =>
      refine ⟨(request.loop addrList trans).burstAt
          ((request.loop addrList trans).full * trans.burstData.toUInt32.toNat)
          (alignUp16 (UInt32.ofNat (request.loop addrList trans).rest) >>> 4),
        BurstLoop.puts_iff.mpr ⟨hmore, ?_⟩, (psBytes_burstAt rfl _ _).trans ?_⟩
      · rw [if_neg (by exact hdata)]
        exact BurstLoop.mem_plan.mpr (.inr ⟨hrest, rfl⟩)
      · exact congrArg (fun n => bytesAt _ (_, burstBytes n)) (tail_beats trans.burstData.toUInt32)

theorem Bursts.offset_lt {p : Nat × Nat} (hp : request.Bursts trans p) : p.1 < 2 ^ 32 := by
  have hlt := (request.dataSize trans).toUInt32.toNat_lt
  have hle := Nat.div_mul_le_self (request.dataSize trans).toUInt32.toNat
    trans.burstData.toUInt32.toNat
  cases hp with
  | stuck => exact Nat.two_pow_pos 32
  | full _ hk =>
      have hmul := Nat.mul_le_mul_right trans.burstData.toUInt32.toNat hk.le
      exact Nat.lt_of_le_of_lt (hmul.trans hle) hlt
  | tail => exact Nat.lt_of_le_of_lt hle hlt

theorem Bursts.bytes_pos {p : Nat × Nat} (hp : request.Bursts trans p) : 0 < p.2 := by
  cases hp <;> exact burstBytes_pos _

/-- The last bursts are bursts, and no burst reaches beyond them. -/
theorem Bursts.of_last {p : Nat × Nat} (hp : p ∈ request.lastBursts trans) :
    request.Bursts trans p := by
  simp only [lastBursts] at hp
  split at hp
  · contradiction
  · next hsize =>
    split at hp
    · next hdata =>
      obtain rfl := List.mem_singleton.mp hp
      exact .stuck (mt toNat_eq_zero.mpr hsize) (toNat_eq_zero.mp hdata)
    · next hdata =>
      have hdata' := mt toNat_eq_zero.mpr hdata
      rcases List.mem_append.mp hp with hp | hp
      · split at hp
        · contradiction
        · next hfull =>
          obtain rfl := List.mem_singleton.mp hp
          exact .full hdata' (Nat.sub_one_lt hfull)
      · split at hp
        · contradiction
        · next hrest =>
          obtain rfl := List.mem_singleton.mp hp
          exact .tail hdata' hrest

theorem Bursts.le_last {p : Nat × Nat} (hp : request.Bursts trans p) :
    ∃ p' ∈ request.lastBursts trans, p.1 ≤ p'.1 ∧ p.1 + p.2 ≤ p'.1 + p'.2 := by
  simp only [lastBursts]
  rw [if_neg (mt toNat_eq_zero.mp hp.size_ne)]
  cases hp with
  | stuck _ hdata =>
      rw [if_pos (toNat_eq_zero.mpr hdata)]
      exact ⟨_, List.mem_singleton_self _, Nat.le_refl _, Nat.le_refl _⟩
  | @full hdata k hk =>
      have hle : k * trans.burstData.toUInt32.toNat ≤ ((request.dataSize trans).toUInt32.toNat /
          trans.burstData.toUInt32.toNat - 1) * trans.burstData.toUInt32.toNat :=
        Nat.mul_le_mul_right _ (Nat.le_sub_one_of_lt hk)
      rw [if_neg (mt toNat_eq_zero.mp hdata), if_neg (Nat.ne_zero_of_lt hk)]
      exact ⟨_, List.mem_append_left _ (List.mem_singleton_self _), hle,
        Nat.add_le_add_right hle _⟩
  | tail hdata hrest =>
      rw [if_neg (mt toNat_eq_zero.mp hdata), if_neg hrest]
      exact ⟨_, List.mem_append_right _ (List.mem_singleton_self _), Nat.le_refl _, Nat.le_refl _⟩

end Request

/-- After every run of `mmap` and `munmap`, the DMA of a transaction stays inside the
mapping that was passed exactly when its last bursts do. -/
theorem dma_contained_iff {cs : List DeviceCall} {s : Device}
    (hrun : Run Device.Called Device.init cs s) (request : Request) (trans : Transaction) :
    s.Contained request trans ↔ s.Fits request trans := by
  have hlisted := Device.listed_of_run hrun
  constructor
  · intro h
    refine ⟨?_, ?_⟩
    · by_contra hcovers
      have hrc := (h.refused hcovers).1
      rw [axitangxiIoctl_rc] at hrc
      exact absurd hrc (Int.lt_irrefl 0)
    · intro p hp
      have hbursts := Request.Bursts.of_last hp
      obtain ⟨b, hb, hbytes⟩ := Request.puts_of_bursts s.addrList hbursts
      have hstart : (axitangxiUservirtToPhys s.addrList (request.psPtr trans) +
          UInt32.ofNat p.1).toNat ∈ request.psBytes b := by
        rw [hbytes]
        exact ⟨Nat.le_refl _, Nat.lt_add_of_pos_right hbursts.bytes_pos⟩
      obtain ⟨alloc, hat, -⟩ := h.inside b hb _ hstart
      refine ⟨alloc, hat, (inside_iff hbursts.offset_lt hbursts.bytes_pos).mp ?_⟩
      intro x hx
      rw [← hlisted.phys hat, ← hbytes] at hx
      obtain ⟨alloc', hat', hin⟩ := h.inside b hb x hx
      rwa [hlisted.at_unique hat hat']
  · intro h
    refine ⟨?_, ?_⟩
    · intro b hb x hx
      obtain ⟨p, hp, hbytes⟩ := Request.bursts_of_puts hb
      obtain ⟨p', hp', hlo, hhi⟩ := hp.le_last
      obtain ⟨alloc, hat, hbelow, hend⟩ := h.reach p' hp'
      refine ⟨alloc, hat, ?_⟩
      rw [hbytes, hlisted.phys hat] at hx
      exact (inside_iff hp.offset_lt hp.bytes_pos).mpr ⟨by omega, by omega⟩ hx
    · intro hcovers
      exact absurd h.covers hcovers

/-- A page and a transaction that fills it. -/
theorem dma_contained_page :
    Device.Contained { mappings := [(page 0).mapping], addrList := [page 0] } .psddrToPlddr
      (initTrans (page 0).userAddr 0 4096) := by
  have hrun : Run Device.Called Device.init [mmapPage 0]
      { mappings := [(page 0).mapping], addrList := [page 0] } := .cons rfl (.nil _)
  refine (dma_contained_iff hrun .psddrToPlddr (initTrans (page 0).userAddr 0 4096)).mpr ⟨?_, ?_⟩
  · exact ⟨(page 0).mapping, List.mem_singleton_self _, rfl, by decide⟩
  · intro p hp
    have hlast : Request.psddrToPlddr.lastBursts (initTrans (page 0).userAddr 0 4096) =
        [(0, 4096)] := by decide
    rw [hlast] at hp
    obtain rfl := List.mem_singleton.mp hp
    exact ⟨page 0, ⟨List.mem_singleton_self _, rfl⟩, by decide, by decide⟩

/-- With no mapping at all, the burst of a transaction goes to the bottom of the memory. -/
theorem dma_unmapped :
    (∃ b, Puts BurstLoop.turn
        (axitangxiIoctl Device.init.addrList (initTrans 65536 0 16) .plddrToPsddr).1 b ∧
      0 ∈ Request.plddrToPsddr.psBytes b) ∧
    ¬ Device.init.Contained .plddrToPsddr (initTrans 65536 0 16) := by
  have hputs : Puts BurstLoop.turn
      (axitangxiIoctl Device.init.addrList (initTrans 65536 0 16) .plddrToPsddr).1
      (s2mmPsDataMm2sPl 0 0 1) := ⟨1, List.mem_singleton_self _⟩
  have hzero : 0 ∈ Request.plddrToPsddr.psBytes (s2mmPsDataMm2sPl 0 0 1) :=
    ⟨Nat.le_refl 0, by decide⟩
  refine ⟨⟨_, hputs, hzero⟩, ?_⟩
  intro h
  obtain ⟨alloc, hat, -⟩ := h.inside _ hputs 0 hzero
  exact absurd hat.1 List.not_mem_nil

end Soc
