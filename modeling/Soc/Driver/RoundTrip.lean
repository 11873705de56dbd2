import Soc.Driver.Bursts
import Mathlib.Order.Interval.Set.Basic

/-!
Writing to the memory of the PL and reading it back.

With the parameters of `init_trans` a transfer is a number of bursts of 1 MiB and at
most one shorter burst, whose last bytes may lie behind the data but not behind the
16 bytes they are in. The DMA engine copies the bursts, so the two loops are two
copies of the rounded size.
-/
namespace Soc
open Loops Copies

/-- The DMA engine: what a burst makes of the memory it writes, with the memory it
reads. -/
abbrev Dma := Burst → Memory UInt8 → Memory UInt8 → Memory UInt8

/-- A burst copies 16 bytes for each of the `size register + 1` beats. -/
def Dma.Copies (dma : Dma) : Prop :=
  ∀ (b : Burst) (source target : Memory UInt8), b.mm2sSize = b.s2mmSize →
    dma b source target = copy source target b.reads.1 b.writes.1 b.reads.2

/-- The memory after a list of bursts. -/
def Dma.run (dma : Dma) (bursts : List Burst) (source target : Memory UInt8) : Memory UInt8 :=
  bursts.foldl (fun m b => dma b source m) target

/-- The bytes of a mapping: whole pages. -/
def pageAlign (n : Nat) : Nat := (n + 4095) / 4096 * 4096

def align16 (n : Nat) : Nat := (n + 15) / 16 * 16

/-- The buffer of a transfer: a mapping of `size` bytes, contiguous and below 2^32. -/
structure IsBuffer (addrList : List Allocation) (psAddr : UInt64) (size : UInt32)
    (alloc : Allocation) : Prop where
  found : addrList.find? (fun a => a.userAddr == psAddr) = some alloc
  size_eq : alloc.size.toNat = pageAlign size.toNat
  below : alloc.dmaAddr.toNat + alloc.size.toNat ≤ 2 ^ 32

def tilesOf (size : Nat) : List (Nat × Nat) :=
  ((List.range (size / 2 ^ 20)).map fun k => (k * 2 ^ 20, 2 ^ 20)) ++
    if size % 2 ^ 20 = 0 then [] else [(size / 2 ^ 20 * 2 ^ 20, align16 (size % 2 ^ 20))]

theorem tiles_tilesOf (size : Nat) : Tiles 0 (tilesOf size) (align16 size) := by
  have hsplit := Nat.div_add_mod size (2 ^ 20)
  rw [tilesOf]
  split
  · next hnone =>
    have htotal : align16 size = size / 2 ^ 20 * 2 ^ 20 := by
      rw [align16]
      omega
    rw [List.append_nil, htotal]
    exact .range _ _
  · have htotal : align16 size = size / 2 ^ 20 * 2 ^ 20 + align16 (size % 2 ^ 20) := by
      rw [align16, align16]
      omega
    rw [htotal]
    exact (Tiles.range _ _).append (.single _ _)

/-- A transfer of `size` bytes with the bursts of `init_trans`. -/
structure BurstLoop.Initial (j : BurstLoop) (request : Request) (size : UInt32) : Prop where
  program : j.program = request.program
  dataRemaining : j.locals.dataRemaining = size
  burstSize : j.locals.burstSize = burstSizeDefault
  burstData : j.locals.burstData = 16 * burstSizeDefault

namespace BurstLoop
variable {j : BurstLoop} {request : Request} {size : UInt32}

theorem toNat_add_ofNat {a : UInt32} {n : Nat} (h : a.toNat + n < 2 ^ 32) :
    (a + UInt32.ofNat n).toNat = a.toNat + n := by
  rw [UInt32.toNat_add, UInt32.toNat_ofNat']
  omega

/-- Both sides of a burst that does not wrap. -/
theorem sides_burstAt (hprogram : j.program = request.program) (offset : Nat) (burstSize : UInt32)
    (hpos : 0 < burstSize.toNat) (hps : j.locals.psNext.toNat + offset < 2 ^ 32)
    (hpl : j.locals.plNext.toNat + offset < 2 ^ 32) :
    (request.psSide (j.burstAt offset burstSize), request.plSide (j.burstAt offset burstSize)) =
      ((j.locals.psNext.toNat + offset, 16 * burstSize.toNat),
        (j.locals.plNext.toNat + offset, 16 * burstSize.toNat)) := by
  have hbeats : (burstSize - 1).toNat + 1 = burstSize.toNat := by
    rw [UInt32.toNat_sub_of_le _ _ (by exact hpos)]
    exact Nat.sub_add_cancel hpos
  rw [burstAt, hprogram, request.psSide_program, request.plSide_program, hbeats,
    toNat_add_ofNat hps, toNat_add_ofNat hpl]

/-- The bursts are the tiles, at both addresses. -/
theorem plan_sides (h : j.Initial request size)
    (hps : j.locals.psNext.toNat + align16 size.toNat ≤ 2 ^ 32)
    (hpl : j.locals.plNext.toNat + align16 size.toNat ≤ 2 ^ 32) :
    j.plan.map (fun b => (request.psSide b, request.plSide b)) =
      (tilesOf size.toNat).map fun t =>
        ((j.locals.psNext.toNat + t.1, t.2), (j.locals.plNext.toNat + t.1, t.2)) := by
  have hdata : j.locals.burstData.toNat = 2 ^ 20 := by
    rw [h.burstData]
    rfl
  have hbursts : j.locals.burstSize.toNat = 65536 := by
    rw [h.burstSize]
    rfl
  have hfull : j.full = size.toNat / 2 ^ 20 := by rw [full, h.dataRemaining, hdata]
  have hrest : j.rest = size.toNat % 2 ^ 20 := by rw [rest, h.dataRemaining, hdata]
  have hle : size.toNat ≤ align16 size.toNat := by
    rw [align16]
    omega
  rw [plan, tilesOf, hfull, hrest, hdata, List.map_append, List.map_append, List.map_map,
    List.map_map]
  congr 1
  · apply List.map_congr_left
    intro k hk
    have hk' : k * 2 ^ 20 + 2 ^ 20 ≤ size.toNat := by
      have hlt := List.mem_range.mp hk
      omega
    have hsides := sides_burstAt h.program (k * 2 ^ 20) j.locals.burstSize (by omega) (by omega)
      (by omega)
    rw [hbursts] at hsides
    exact hsides
  · split
    · rfl
    · next hmore =>
      have hrest' : (UInt32.ofNat (size.toNat % 2 ^ 20)).toNat = size.toNat % 2 ^ 20 := by
        rw [UInt32.toNat_ofNat']
        omega
      have htail : (alignUp16 (UInt32.ofNat (size.toNat % 2 ^ 20)) >>> 4).toNat =
          (size.toNat % 2 ^ 20 + 15) / 16 := by
        rw [alignUp16_beats, hrest']
        omega
      have hsides := sides_burstAt h.program (size.toNat / 2 ^ 20 * 2 ^ 20)
        (alignUp16 (UInt32.ofNat (size.toNat % 2 ^ 20)) >>> 4) (by omega) (by omega) (by omega)
      have hbytes : 16 * ((size.toNat % 2 ^ 20 + 15) / 16) = align16 (size.toNat % 2 ^ 20) :=
        Nat.mul_comm _ _
      rw [htail, hbytes] at hsides
      exact congrArg (fun x => [x]) hsides

end BurstLoop

/-- A loop ends after `count` bursts of 1 to 65536 beats, which tile `total` bytes in
order, each at the same offset on both sides. -/
structure BurstLoop.Tiled (j : BurstLoop) (request : Request) (count ps pl total : Nat) : Prop where
  ends : Ends turn count j
  length : (outputs turn count j).length = count
  tiles : ∃ tiles, Tiles 0 tiles total ∧
    (outputs turn count j).map (fun b => (request.psSide b, request.plSide b)) =
      tiles.map fun t => ((ps + t.1, t.2), (pl + t.1, t.2))
  beats : ∀ b ∈ outputs turn count j, b.mm2sSize = b.s2mmSize ∧
    b.mm2sSize.toNat + 1 ∈ Set.Icc 1 65536

theorem tilesOf_length {size : Nat} (h : 1 ≤ size) :
    (tilesOf size).length = (size - 1) / 2 ^ 20 + 1 := by
  rw [tilesOf, List.length_append, List.length_map, List.length_range]
  split
  · rw [List.length_nil]
    omega
  · rw [List.length_singleton]
    omega

theorem tilesOf_le {size : Nat} : ∀ t ∈ tilesOf size, t.2 ≤ 2 ^ 20 := by
  intro t ht
  rcases List.mem_append.mp ht with ht | ht
  · obtain ⟨k, -, rfl⟩ := List.mem_map.mp ht
    exact Nat.le_refl _
  · split at ht
    · contradiction
    · obtain rfl := List.mem_singleton.mp ht
      simp only [align16]
      omega

/-- The registers of a burst with as many bytes on both sides. -/
theorem Request.beats_of_sides (request : Request) {b : Burst} {n : Nat}
    (hps : (request.psSide b).2 = n) (hpl : (request.plSide b).2 = n) (hn : n ≤ 2 ^ 20) :
    b.mm2sSize = b.s2mmSize ∧ b.mm2sSize.toNat + 1 ∈ Set.Icc 1 65536 := by
  have hbytes : 16 * (b.mm2sSize.toNat + 1) = n ∧ 16 * (b.s2mmSize.toNat + 1) = n := by
    cases request with
    | psddrToPlddr => exact ⟨hps, hpl⟩
    | plddrToPsddr => exact ⟨hpl, hps⟩
  exact ⟨UInt32.toNat_inj.mp (by omega), by omega, by omega⟩

namespace BurstLoop
variable {j : BurstLoop} {request : Request} {size : UInt32}

theorem Initial.tiled (h : j.Initial request size) (hsize : 1 ≤ size)
    (hps : j.locals.psNext.toNat + align16 size.toNat ≤ 2 ^ 32)
    (hpl : j.locals.plNext.toNat + align16 size.toNat ≤ 2 ^ 32) :
    j.Tiled request ((size.toNat - 1) / 2 ^ 20 + 1) j.locals.psNext.toNat j.locals.plNext.toNat
      (align16 size.toNat) := by
  have hdata : j.locals.burstData ≠ 0 := by
    rw [h.burstData]
    decide
  have hsides := plan_sides h hps hpl
  have hlength : j.plan.length = (size.toNat - 1) / 2 ^ 20 + 1 := by
    have hmap := congrArg List.length hsides
    rwa [List.length_map, List.length_map, tilesOf_length (by exact hsize)] at hmap
  obtain ⟨hends, houtputs⟩ := plan_spec hdata
  rw [hlength] at hends houtputs
  refine ⟨hends, hends.outputs_length, ⟨_, tiles_tilesOf _, ?_⟩, ?_⟩
  · rw [houtputs, hsides]
  · intro b hb
    rw [houtputs] at hb
    have hmem := List.mem_map_of_mem (f := fun b => (request.psSide b, request.plSide b)) hb
    rw [hsides] at hmem
    obtain ⟨t, ht, heq⟩ := List.mem_map.mp hmem
    have hle := tilesOf_le t ht
    exact request.beats_of_sides (congrArg (fun x => x.1.2) heq).symm
      (congrArg (fun x => x.2.2) heq).symm hle

end BurstLoop

/-- The memory after tiled bursts is one copy. -/
theorem Dma.Copies.run {dma : Dma} (hdma : dma.Copies) {bursts : List Burst}
    {tiles : List (Nat × Nat)} {src dst total : Nat} (htiles : Tiles 0 tiles total)
    (hbursts : bursts.map (fun b => (b.reads, b.writes)) =
      tiles.map fun t => ((src + t.1, t.2), (dst + t.1, t.2)))
    (source target : Memory UInt8) :
    dma.run bursts source target = copy source target src dst total := by
  have hcopies : ∀ m, ∀ b ∈ bursts,
      dma b source m = copy source m b.reads.1 b.writes.1 b.reads.2 := by
    intro m b hb
    have hmem := List.mem_map_of_mem (f := fun b => (b.reads, b.writes)) hb
    rw [hbursts] at hmem
    obtain ⟨t, -, heq⟩ := List.mem_map.mp hmem
    have hread : t.2 = 16 * (b.mm2sSize.toNat + 1) := congrArg (fun x => x.1.2) heq
    have hwrite : t.2 = 16 * (b.s2mmSize.toNat + 1) := congrArg (fun x => x.2.2) heq
    exact hdma b source m (UInt32.toNat_inj.mp (by omega))
  have hfold : (bursts.map fun b => (b.reads, b.writes)).foldl
      (fun m x => copy source m x.1.1 x.2.1 x.1.2) target =
      bursts.foldl (fun m b => copy source m b.reads.1 b.writes.1 b.reads.2) target :=
    List.foldl_map
  rw [Dma.run, List.foldl_ext _ _ _ hcopies, ← hfold, hbursts, List.foldl_map,
    htiles.foldl_copy source src dst target, Nat.add_zero, Nat.add_zero, Nat.sub_zero]

theorem IsBuffer.phys {addrList : List Allocation} {psAddr : UInt64} {size : UInt32}
    {alloc : Allocation} (h : IsBuffer addrList psAddr size alloc) (hsize : 1 ≤ size) :
    (axitangxiUservirtToPhys addrList psAddr).toNat = alloc.dmaAddr.toNat := by
  have hpos : 1 ≤ size.toNat := hsize
  have hbelow := h.below
  rw [h.size_eq, pageAlign] at hbelow
  rw [axitangxiUservirtToPhys, h.found]
  change alloc.physAddr.toNat = _
  rw [alloc.physAddr_eq, UInt64.toNat_toUInt32]
  omega

theorem align16_le_pageAlign (n : Nat) : align16 n ≤ pageAlign n := by
  rw [align16, pageAlign]
  omega

theorem initTrans_initial (addrList : List Allocation) (psAddr : UInt64) (plAddr size : UInt32)
    (request : Request) :
    (axitangxiIoctl addrList (initTrans psAddr plAddr size) request).1.Initial request size := by
  have hdata : (request.dataSize (initTrans psAddr plAddr size)).toUInt32 = size := by
    cases request <;> exact UInt32.toUInt32_toUInt64 size
  rw [axitangxiIoctl_loop]
  exact ⟨rfl, hdata, rfl, rfl⟩

theorem initTrans_burstCount (psAddr : UInt64) (plAddr : UInt32) {size : UInt32} (h : 1 ≤ size) :
    (initTrans psAddr plAddr size).burstCount.toNat = (size.toNat - 1) / 2 ^ 20 + 1 := by
  have hsub : (size - 1).toNat = size.toNat - 1 := UInt32.toNat_sub_of_le _ _ h
  have hdata : (16 * burstSizeDefault.toUInt64).toNat = 2 ^ 20 := rfl
  have hlt := size.toNat_lt
  change ((size - 1).toUInt64 / (16 * burstSizeDefault.toUInt64) + 1).toNat = _
  rw [UInt64.toNat_add, UInt64.toNat_div, UInt32.toNat_toUInt64, hsub, hdata]
  change ((size.toNat - 1) / 2 ^ 20 + 1) % 2 ^ 64 = _
  omega

/-- A transfer with the parameters of `init_trans` is tiled, and stays in its mapping. -/
theorem ioctl_tiled {addrList : List Allocation} {psAddr : UInt64} {plAddr size : UInt32}
    {alloc : Allocation} (hsize : 1 ≤ size) (hbuffer : IsBuffer addrList psAddr size alloc)
    (hpl : plAddr.toNat + align16 size.toNat ≤ 2 ^ 32) (request : Request) :
    (axitangxiIoctl addrList (initTrans psAddr plAddr size) request).1.Tiled request
      (initTrans psAddr plAddr size).burstCount.toNat alloc.dmaAddr.toNat plAddr.toNat
      (align16 size.toNat) := by
  have hle := align16_le_pageAlign size.toNat
  have hbelow := hbuffer.below
  rw [hbuffer.size_eq] at hbelow
  have hps :
      (axitangxiIoctl addrList (initTrans psAddr plAddr size) request).1.locals.psNext.toNat =
        alloc.dmaAddr.toNat := by
    rw [axitangxiIoctl_loop, ← hbuffer.phys hsize]
    cases request <;> rfl
  have hplNext : (axitangxiIoctl addrList (initTrans psAddr plAddr size) request).1.locals.plNext =
      plAddr := by
    rw [axitangxiIoctl_loop]
    cases request <;> rfl
  have htiled := (initTrans_initial addrList psAddr plAddr size request).tiled hsize
    (by omega) (by rw [hplNext]; exact hpl)
  rwa [hps, hplNext, ← initTrans_burstCount psAddr plAddr hsize] at htiled

/-- Tiled bursts cover no PS byte outside a mapping that holds them. -/
theorem BurstLoop.Tiled.psBytes {j : BurstLoop} {request : Request} {count pl total : Nat}
    {alloc : Allocation} (h : j.Tiled request count alloc.dmaAddr.toNat pl total)
    (htotal : total ≤ alloc.size.toNat) :
    ∀ b ∈ outputs turn count j, request.psBytes b ⊆ alloc.bytes := by
  intro b hb
  obtain ⟨tiles, htiles, hsides⟩ := h.tiles
  have hmem := List.mem_map_of_mem (f := fun b => (request.psSide b, request.plSide b)) hb
  rw [hsides] at hmem
  obtain ⟨t, ht, heq⟩ := List.mem_map.mp hmem
  have hside : request.psSide b = (alloc.dmaAddr.toNat + t.1, t.2) := (congrArg Prod.fst heq).symm
  have ⟨_, hhi⟩ := htiles.mem_le t ht
  rw [Request.psBytes, hside]
  exact Set.Ico_subset_Ico (by omega) (by omega)

/-- The memory of the PL after writing, and of the PS after reading. -/
theorem BurstLoop.Tiled.run_written {dma : Dma} (hdma : dma.Copies) {j : BurstLoop}
    {count ps pl total : Nat} (h : j.Tiled .psddrToPlddr count ps pl total)
    (source target : Memory UInt8) :
    dma.run (outputs turn count j) source target = copy source target ps pl total := by
  obtain ⟨tiles, htiles, hsides⟩ := h.tiles
  exact hdma.run htiles hsides source target

theorem BurstLoop.Tiled.run_read {dma : Dma} (hdma : dma.Copies) {j : BurstLoop}
    {count ps pl total : Nat} (h : j.Tiled .plddrToPsddr count ps pl total)
    (source target : Memory UInt8) :
    dma.run (outputs turn count j) source target = copy source target pl ps total := by
  obtain ⟨tiles, htiles, hsides⟩ := h.tiles
  have hswap := congrArg (List.map Prod.swap) hsides
  rw [List.map_map, List.map_map] at hswap
  exact hdma.run htiles hswap source target

/-- Whatever is written to the PL with `init_trans` is read back from there, by the
bursts that are counted and without touching anything else. `ps'` is the memory of the
PS by the time of the reading. -/
theorem pl_round_trip {dma : Dma} (hdma : dma.Copies) {size : UInt32} (hsize : 1 ≤ size)
    {before after : List Allocation} {sourceAddr destinationAddr : UInt64}
    {source destination : Allocation} (hsource : IsBuffer before sourceAddr size source)
    (hdestination : IsBuffer after destinationAddr size destination) {plAddr : UInt32}
    (hpl : plAddr.toNat + align16 size.toNat ≤ 2 ^ 32) (ps ps' pl : Memory UInt8) :
    let trans := initTrans sourceAddr plAddr size
    let trans' := initTrans destinationAddr plAddr size
    let write := (psddrToPlddr before trans).1
    let read := (plddrToPsddr after trans').1
    let written := outputs BurstLoop.turn trans.burstCount.toNat write
    let readBack := outputs BurstLoop.turn trans'.burstCount.toNat read
    let pl' := dma.run written ps pl
    let ps'' := dma.run readBack pl' ps'
    write.Tiled .psddrToPlddr trans.burstCount.toNat source.dmaAddr.toNat plAddr.toNat
        (align16 size.toNat) ∧
      read.Tiled .plddrToPsddr trans'.burstCount.toNat destination.dmaAddr.toNat plAddr.toNat
        (align16 size.toNat) ∧
      (∀ b ∈ written, Request.psddrToPlddr.psBytes b ⊆ source.bytes) ∧
      (∀ b ∈ readBack, Request.plddrToPsddr.psBytes b ⊆ destination.bytes) ∧
      Set.EqOn pl' pl (Set.Ico plAddr.toNat (plAddr.toNat + align16 size.toNat))ᶜ ∧
      Set.EqOn ps'' ps' destination.bytesᶜ ∧
      ∀ i < size.toNat, ps'' (destination.dmaAddr.toNat + i) = ps (source.dmaAddr.toNat + i) := by
  intro trans trans' write read written readBack pl' ps''
  have hwrite : write.Tiled .psddrToPlddr _ _ _ _ := ioctl_tiled hsize hsource hpl .psddrToPlddr
  have hread : read.Tiled .plddrToPsddr _ _ _ _ := ioctl_tiled hsize hdestination hpl .plddrToPsddr
  have hpage := align16_le_pageAlign size.toNat
  have hsourceFits : align16 size.toNat ≤ source.size.toNat := hsource.size_eq ▸ hpage
  have hdestinationFits : align16 size.toNat ≤ destination.size.toNat :=
    hdestination.size_eq ▸ hpage
  have hpl' : pl' = copy ps pl source.dmaAddr.toNat plAddr.toNat (align16 size.toNat) :=
    hwrite.run_written hdma ps pl
  have hps'' : ps'' = copy pl' ps' plAddr.toNat destination.dmaAddr.toNat (align16 size.toNat) :=
    hread.run_read hdma pl' ps'
  refine ⟨hwrite, hread, hwrite.psBytes hsourceFits, hread.psBytes hdestinationFits, ?_, ?_, ?_⟩
  · rw [hpl']
    exact copy_outside _ _ _ _ _
  · rw [hps'']
    refine (copy_outside _ _ _ _ _).mono (Set.compl_subset_compl.mpr ?_)
    exact Set.Ico_subset_Ico_right (by omega)
  · intro i hi
    have hi' : i < align16 size.toNat := by
      rw [align16]
      omega
    rw [hps'', copy_inside _ _ hi', hpl', copy_inside _ _ hi']

def copyingDma : Dma := fun b source target =>
  copy source target b.reads.1 b.writes.1 b.reads.2

/-- 17 bytes written from one page, and read back to the next. -/
theorem pl_round_trip_pages :
    copyingDma.run
      (outputs BurstLoop.turn (initTrans (page 1).userAddr 0 17).burstCount.toNat
        (plddrToPsddr [page 1, page 0] (initTrans (page 1).userAddr 0 17)).1)
      (copyingDma.run
        (outputs BurstLoop.turn (initTrans (page 0).userAddr 0 17).burstCount.toNat
          (psddrToPlddr [page 1, page 0] (initTrans (page 0).userAddr 0 17)).1)
        (fun a => UInt8.ofNat a) fun _ => 0)
      (fun _ => 0) ((page 1).dmaAddr.toNat + 16) = UInt8.ofNat ((page 0).dmaAddr.toNat + 16) :=
  (pl_round_trip (fun _ _ _ _ => rfl) (by decide) ⟨rfl, by decide, by decide⟩
    ⟨rfl, by decide, by decide⟩ (by decide) (fun a => UInt8.ofNat a) (fun _ => 0)
    fun _ => 0).2.2.2.2.2.2 16 (by decide)

end Soc
