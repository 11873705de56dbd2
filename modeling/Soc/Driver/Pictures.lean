import Soc.Driver.Channels

/-!
A run of the program with the device: the weights once, and then picture after picture.

The weights are moved to the PL when the program starts, and every picture starts with the
registers of that time, so that no picture depends on the ones before it. What is never given
back are the mappings of the results.
-/
namespace Soc
open Copies

/-- What the file system and the kernel answer to `ps_read_file`. -/
structure FileAnswers where
  opened : Bool
  /-- the size that `fstat` finds -/
  fstat : Option Nat
  map : MapAnswer
  /-- what `read` delivers, unless it fails -/
  read : Option (List UInt8)
  closed : Bool
  writeCopied : Bool

namespace Board

/-- `ps_read_file`: what it returns, and where the file is mapped. -/
def psReadFile (b : Board) (file : FileAnswers) : (Int × UInt64) × Board :=
  if ¬ file.opened then ((-1, 0), b)
  else
    match file.fstat with
    | none => ((-1, 0), b)
    | some size =>
      let (addr, b) := b.psMmap size file.map
      if addr = mapFailed then ((-1, addr), b)
      else
        let (n, b) :=
          match file.read with
          | none => (-1, b)
          | some bytes =>
            match b.poke addr 0 bytes with
            | .ok b => ((bytes.length : Int), b)
            | .error _ => (-1, b)
        if ¬ file.closed then ((-1, addr), b) else ((n, addr), b)

/-- `pl_config`, with the `*p_size` it sets. The size has 32 bits, and all of them set are an
error. -/
def plConfig (b : Board) (dma : Dma) (file : FileAnswers) (plAddr : UInt32) :
    (Int × UInt32) × Board :=
  let ((ssize, psAddr), b) := b.psReadFile file
  let size := UInt32.ofInt ssize
  if size = 0xFFFFFFFF then ((-2, size), b)
  else
    let ((rc, psAddr), b) := b.plIo dma psAddr file.map plAddr size file.writeCopied .psddrToPlddr
    let (unmapped, b) := b.munmap psAddr size.toNat
    if unmapped = -1 then ((-3, size), b) else ((rc, size), b)

/-- `pl_init`. Only one of the errors of `pl_config` ends the program; the registers that are
not set keep what is on the stack of `main`. -/
def plInit (b : Board) (dma : Dma) (reg : AccReg) (file : FileAnswers) :
    Except Fault (AccReg × Board) :=
  let ((rc, size), b) := b.plConfig dma file weightAddrDefault
  if rc = -1 then .error .exited
  else .ok ({ reg with weightAddr := weightAddrDefault, weightSize := size }, b)

end Board

/-- A picture that is complete: the frames, what they carry, and the answers for it. -/
structure PictureInput where
  frames : List DataFrame
  nFrame : Nat
  payload : List UInt8
  answers : PictureAnswers
  unpacked : dataFramesToData frames nFrame = .ok payload
  frames_le : nFrame ≤ 65535
  sampled : 6 ≤ payload.length

namespace Board

/-- The pictures of a run, each with the registers of `main`. -/
def encodePictures (b : Board) (platform : Platform) (reg : AccReg) :
    List PictureInput → Except Fault (List CodingResult × Board)
  | [] => .ok ([], b)
  | p :: rest => do
    let (encRes, b) ← b.processDataFrames platform p.frames p.nFrame reg p.answers
    let (results, b) ← b.encodePictures platform reg rest
    .ok (encRes :: results, b)

/-- `main` with the device, from `pl_init` on. -/
def run (b : Board) (platform : Platform) (reg : AccReg) (weight : FileAnswers)
    (pictures : List PictureInput) : Except Fault (List CodingResult × Board) := do
  let (reg, b) ← b.plInit platform.dma reg weight
  b.encodePictures platform reg pictures

end Board

/-- What the network makes of the pictures. -/
def Network.encodeAll (network : Network) (platform : Platform) (weights : List UInt8) :
    List PictureInput → Except Fault (List CodingResult)
  | [] => .ok []
  | p :: rest => do
    let encRes ← network.encode platform.charIsSigned platform.tables p.answers.heap weights
      p.payload
    let results ← network.encodeAll platform weights rest
    .ok (encRes :: results)

/-- What is granted to picture after picture, and given back by the stack. -/
def GrantedPictures (network : Network) (weights : List UInt8) (reg : AccReg) :
    List Allocation → List PictureInput → Prop
  | _, [] => True
  | addrList, p :: rest =>
    p.answers.Granted network weights p.payload addrList ∧
      (p.answers.y.Keeps reg ∧ p.answers.u.Keeps reg) ∧
      GrantedPictures network weights reg (p.answers.resultMappings ++ addrList) rest

/-- The file is there, is not larger than the memory below the pictures, and its mapping is
apart from the others. -/
structure FileAnswers.Delivers (file : FileAnswers) (bytes : List UInt8)
    (addrList : List Allocation) : Prop where
  opened : file.opened
  fstat : file.fstat = some bytes.length
  read : file.read = some bytes
  closed : file.closed
  writeCopied : file.writeCopied
  pos : 1 ≤ bytes.length
  max : bytes.length ≤ pictureBaseAddr.toNat - weightAddrDefault.toNat
  map : file.map.Granted bytes.length
  live : Live (file.map.allocation :: addrList)

/-- The registers of `main` after `pl_init`. -/
def AccReg.initialised (reg : AccReg) (size : Nat) : AccReg :=
  { reg with weightAddr := weightAddrDefault, weightSize := UInt32.ofNat size }

namespace Board
variable {dma : Dma} {b : Board} {reg : AccReg} {file : FileAnswers} {weights : List UInt8}

theorem psReadFile_eq (h : file.Delivers weights b.addrList) :
    b.psReadFile file = (((weights.length : Int), file.map.allocation.userAddr),
      { b with
        addrList := file.map.allocation :: b.addrList
        ps := write b.ps file.map.allocation.dmaAddr.toNat weights }) := by
  let mapped : Board := { b with addrList := file.map.allocation :: b.addrList }
  have husable := h.live.usable _ List.mem_cons_self
  have hfits : 0 + weights.length ≤ file.map.allocation.size.toNat := by
    rw [Nat.zero_add, h.map.size_eq]
    exact (le_align16 _).trans (align16_le_pageAlign _)
  have hpoke := poke_eq (b := mapped) h.live List.mem_cons_self hfits
  rw [psReadFile, if_neg (not_not_intro h.opened), h.fstat]
  simp only [psMmap_granted (Nat.ne_of_gt h.pos) h.map, if_neg husable.mapped, h.read, hpoke,
    if_neg (not_not_intro h.closed), Nat.add_zero, mapped]

/-- The weights are in the memory of the PL, and nothing of the file stays mapped. -/
theorem plInit_spec (reg : AccReg) (hdma : dma.Copies) (h : file.Delivers weights b.addrList) :
    ∃ b', b.plInit dma reg file = .ok (reg.initialised weights.length, b') ∧
      b'.addrList = b.addrList ∧
      (reg.initialised weights.length).readWeights b'.pl = weights := by
  have hbase : pictureBaseAddr.toNat - weightAddrDefault.toNat = 268435456 := rfl
  have hmax := hbase ▸ h.max
  have hpos := h.pos
  have hword : (UInt32.ofNat weights.length).toNat = weights.length := by
    rw [UInt32.toNat_ofNat']
    omega
  have hsize : UInt32.ofInt (weights.length : Int) = UInt32.ofNat weights.length := by
    apply UInt32.toNat_inj.mp
    rw [UInt32.ofInt, UInt32.toNat_ofNat', UInt32.toNat_ofNat']
    omega
  have hne : UInt32.ofNat weights.length ≠ 0xFFFFFFFF := by
    intro heq
    have hnat := congrArg UInt32.toNat heq
    rw [hword] at hnat
    have hall : (0xFFFFFFFF : UInt32).toNat = 4294967295 := rfl
    omega
  let alloc := file.map.allocation
  let mapped : Board :=
    { b with addrList := alloc :: b.addrList, ps := write b.ps alloc.dmaAddr.toNat weights }
  have hpl : weightAddrDefault.toNat + align16 (UInt32.ofNat weights.length).toNat ≤ 2 ^ 32 := by
    have hbase' : weightAddrDefault.toNat = 268435456 := rfl
    rw [hword, hbase', align16]
    omega
  have hone : 1 ≤ UInt32.ofNat weights.length := by
    rw [UInt32.le_iff_toNat_le, hword]
    exact hpos
  have hlive : Live mapped.addrList := h.live
  have hio := plIo_write (b := mapped) hdma hlive List.mem_cons_self hone
    (hword.symm ▸ h.map.size_eq) hpl file.map
  rw [hword] at hio
  let written : Board :=
    { mapped with
      pl := copy mapped.ps mapped.pl alloc.dmaAddr.toNat weightAddrDefault.toNat
        (align16 weights.length) }
  have hunmap := munmap_eq (b := written) hlive List.mem_cons_self (Nat.ne_of_gt hpos)
  have hno : ¬ (weights.length : Int) = -1 := by omega
  have hno' : ¬ (0 : Int) = -1 := by decide
  refine ⟨{ written with addrList := b.addrList }, ?_, rfl, ?_⟩
  · dsimp only [written, mapped, alloc] at hio hunmap ⊢
    rw [plInit, plConfig, psReadFile_eq h, h.writeCopied]
    simp only [hsize, if_neg hne, hio, hword, hunmap, if_neg hno', if_neg hno,
      List.erase_cons_head]
    rfl
  · rw [AccReg.readWeights]
    change read written.pl weightAddrDefault.toNat (UInt32.ofNat weights.length).toNat = weights
    rw [hword, read_copy _ _ (le_align16 _)]
    exact read_write b.ps alloc.dmaAddr.toNat weights

/-- What some pictures leave: six mappings each, on top of those there were, and the weights. -/
structure LeftAll (b b' : Board) (reg : AccReg) (pictures : List PictureInput) : Prop where
  live : Live b.addrList → Live b'.addrList
  addrList : ∃ left, b'.addrList = left ++ b.addrList ∧ left.length = 6 * pictures.length
  weights : Set.EqOn b'.pl b.pl reg.weights

theorem LeftAll.nil (b : Board) (reg : AccReg) : b.LeftAll b reg [] :=
  ⟨id, ⟨[], rfl, rfl⟩, fun _ _ => rfl⟩

theorem Left.cons {b₁ b' : Board} {p : PictureInput} {rest : List PictureInput}
    (h : b.Left b₁ reg p.answers) (hrest : b₁.LeftAll b' reg rest) :
    b.LeftAll b' reg (p :: rest) := by
  obtain ⟨left, haddrList, hlength⟩ := hrest.addrList
  refine ⟨fun _ => hrest.live h.live, ⟨left ++ p.answers.resultMappings, ?_, ?_⟩,
    hrest.weights.trans h.weights⟩
  · rw [haddrList, h.addrList, List.append_assoc]
  · rw [List.length_append, hlength, List.length_cons]
    exact (Nat.mul_succ 6 rest.length).symm

/-- Picture after picture: each starts with the registers of `main`, and finds the weights. -/
theorem encodePictures_spec {platform : Platform} {network : Network}
    (hdma : platform.dma.Copies) (hacc : platform.acc.Computes network)
    {pictures : List PictureInput} (hbelow : reg.Below) (hweights : reg.readWeights b.pl = weights)
    (hgranted : GrantedPictures network weights reg b.addrList pictures) :
    ∃ b', b.encodePictures platform reg pictures =
        (network.encodeAll platform weights pictures >>= fun results => .ok (results, b')) ∧
      b.LeftAll b' reg pictures := by
  induction pictures generalizing b with
  | nil => exact ⟨b, rfl, .nil b reg⟩
  | cons p rest ih =>
      obtain ⟨hfirst, hkeeps, hrest⟩ := hgranted
      obtain ⟨b₁, heq, hleft⟩ := processDataFrames_spec hdma hacc p.unpacked p.frames_le p.sampled
        hbelow (hweights.symm ▸ hfirst) hkeeps
      have hweights₁ : reg.readWeights b₁.pl = weights :=
        (read_congr hleft.weights).trans hweights
      obtain ⟨b', heq', hleft'⟩ := ih hweights₁ (hleft.addrList ▸ hrest)
      refine ⟨b', ?_, hleft.cons hleft'⟩
      rw [encodePictures, heq, hweights, Network.encodeAll]
      cases network.encode platform.charIsSigned platform.tables p.answers.heap weights
        p.payload with
      | error fault => rfl
      | ok encRes =>
          simp only [ok_bind, heq']
          cases network.encodeAll platform weights rest with
          | error fault => rfl
          | ok results => rfl

end Board

/-- The weights lie below the pictures. -/
theorem FileAnswers.Delivers.below {weight : FileAnswers} {weights : List UInt8}
    {addrList : List Allocation} (h : weight.Delivers weights addrList) (reg : AccReg) :
    (reg.initialised weights.length).Below := by
  have hword : (UInt32.ofNat weights.length).toNat ≤ weights.length := by
    rw [UInt32.toNat_ofNat']
    exact Nat.mod_le _ _
  have hmax := h.max
  have hle : weightAddrDefault.toNat ≤ pictureBaseAddr.toNat := by decide
  change weightAddrDefault.toNat + (UInt32.ofNat weights.length).toNat ≤ _
  omega

/-- The start and the pictures. -/
theorem Board.run_spec {platform : Platform} {network : Network} (hdma : platform.dma.Copies)
    (hacc : platform.acc.Computes network) {b : Board} {reg : AccReg} {weight : FileAnswers}
    {weights : List UInt8} (hweight : weight.Delivers weights b.addrList)
    {pictures : List PictureInput}
    (hgranted : GrantedPictures network weights (reg.initialised weights.length) b.addrList
      pictures) :
    ∃ (b₁ b' : Board), b.run platform reg weight pictures =
        (network.encodeAll platform weights pictures >>= fun results => .ok (results, b')) ∧
      b₁.addrList = b.addrList ∧ (reg.initialised weights.length).readWeights b₁.pl = weights ∧
      b₁.LeftAll b' (reg.initialised weights.length) pictures := by
  obtain ⟨b₁, hinit, haddrList, hread⟩ := Board.plInit_spec reg hdma hweight
  obtain ⟨b', heq, hleft⟩ :=
    Board.encodePictures_spec hdma hacc (hweight.below reg) hread (haddrList.symm ▸ hgranted)
  refine ⟨b₁, b', ?_, haddrList, hread, hleft⟩
  rw [Board.run, hinit, ok_bind]
  exact heq

/-- Whatever the mappings, the memories and the registers hold, the program with the device is
the network and the coder, with the weights of the file for every channel of every picture. Each
picture leaves six mappings of the device. -/
theorem run_encodes {platform : Platform} {network : Network} (hdma : platform.dma.Copies)
    (hacc : platform.acc.Computes network) {b : Board} {reg : AccReg} {weight : FileAnswers}
    {weights : List UInt8} (hweight : weight.Delivers weights b.addrList)
    {pictures : List PictureInput}
    (hgranted : GrantedPictures network weights (reg.initialised weights.length) b.addrList
      pictures) :
    ∃ b', b.run platform reg weight pictures =
        (network.encodeAll platform weights pictures >>= fun results => .ok (results, b')) ∧
      Live b'.addrList ∧
      (∃ left, b'.addrList = left ++ b.addrList ∧ left.length = 6 * pictures.length) ∧
      (reg.initialised weights.length).readWeights b'.pl = weights := by
  obtain ⟨b₁, b', heq, haddrList, hread, hleft⟩ := Board.run_spec hdma hacc hweight hgranted
  have hlive : Live b₁.addrList :=
    haddrList ▸ hweight.live.sublist (List.sublist_cons_self _ _)
  exact ⟨b', heq, hleft.live hlive, haddrList ▸ hleft.addrList,
    (read_congr hleft.weights).trans hread⟩

/-! A picture of six bytes. -/

/-- A network with the same results for every picture. -/
def constantNetwork (out : List UInt8 × List UInt8) (h : out.1 ≠ [] ∧ out.2 ≠ []) : Network :=
  { run := fun _ _ => out
    trans_ne := fun _ _ => h.1
    entropy_ne := fun _ _ => h.2 }

/-- It leaves them behind the pictures. -/
def constantAccelerator (out : List UInt8 × List UInt8) : Accelerator := fun _ pl =>
  ({ transAddr := 0x30000000
     transSize := UInt32.ofNat out.1.length
     entropyAddr := 0x40000000
     entropySize := UInt32.ofNat out.2.length },
    write (write pl 0x30000000 out.1) 0x40000000 out.2)

theorem constantAccelerator_computes {out : List UInt8 × List UInt8} (h : out.1 ≠ [] ∧ out.2 ≠ [])
    (hmax : out.1.length ≤ 2 ^ 28 ∧ out.2.length ≤ 2 ^ 28) :
    (constantAccelerator out).Computes (constantNetwork out h) := by
  intro engine pl hconfigured
  obtain ⟨hmax₁, hmax₂⟩ := hmax
  have hbelow : engine.weightAddr.toNat + engine.weightSize.toNat ≤ 536870912 :=
    hconfigured.weights
  have hsize : ∀ n ≤ 2 ^ 28, (UInt32.ofNat n).toNat = n := by
    intro n hn
    rw [UInt32.toNat_ofNat']
    omega
  have hentropy : Set.EqOn (constantAccelerator out engine pl).2 (write pl 0x30000000 out.1)
      (Set.Ico 0x40000000 (0x40000000 + out.2.length))ᶜ := write_outside _ _ _
  have htrans : Set.EqOn (write pl 0x30000000 out.1) pl
      (Set.Ico 0x30000000 (0x30000000 + out.1.length))ᶜ := write_outside _ _ _
  have hinside : ∀ base ≤ 0x40000000, ∀ n ≤ 2 ^ 28,
      base + align16 (UInt32.ofNat n).toNat ≤ 2 ^ 32 := by
    intro base hbase n hn
    rw [hsize n hn, align16]
    omega
  refine ⟨?_, ?_, hinside 0x30000000 (by decide) _ hmax₁,
    hinside 0x40000000 (by decide) _ hmax₂, ?_⟩
  · have hread : read (constantAccelerator out engine pl).2 0x30000000 out.1.length =
        read (write pl 0x30000000 out.1) 0x30000000 out.1.length := by
      refine read_apart hentropy ?_
      intro a ha ha'
      have hlt := ha.2
      have hle := ha'.1
      omega
    have hwritten := hread.trans (read_write _ _ _)
    rwa [← hsize _ hmax₁] at hwritten
  · have hwritten := read_write (write pl 0x30000000 out.1) 0x40000000 out.2
    rwa [← hsize _ hmax₂] at hwritten
  · intro a ha
    have hlt := ha.2
    have hnot : ∀ base n : Nat, 536870912 ≤ base → a ∈ (Set.Ico base (base + n))ᶜ := by
      intro base n hbase hmem
      have hle := hmem.1
      omega
    exact (hentropy (hnot _ _ (by decide))).trans (htrans (hnot _ _ (by decide)))

/-! Blocks of memory, numbered. -/

section Blocks
variable (size : UInt64 → Nat)

/-- Block `n` has the whole pages that `size n` takes. -/
def block (n : UInt64) : Allocation :=
  { node := n.toNat
    size := UInt64.ofNat (pageAlign (size n))
    userAddr := 65536 + 268435456 * n
    dmaAddr := 268435456 * n
    physAddr := (268435456 * n).toUInt32
    physAddr_eq := rfl }

def blockMap (n : UInt64) : MapAnswer :=
  { vma :=
      { vmStart := 65536 + 268435456 * n
        vmEnd := 65536 + 268435456 * n + UInt64.ofNat (pageAlign (size n)) }
    answers :=
      { kmalloc := some n.toNat, dmaAllocCoherent := some (268435456 * n), dmaMmapCoherent := 0 } }

theorem blockMap_allocation (n : UInt64) : (blockMap size n).allocation = block size n := by
  have hsize : ∀ start size : UInt64, start + size - start = size := fun start size => by
    rw [UInt64.add_comm, UInt64.add_sub_cancel]
  simp only [MapAnswer.allocation, VmArea.allocation, blockMap, block, hsize, Option.getD_some]

theorem block_injective : Function.Injective (block size) := fun _ _ h =>
  UInt64.toNat_inj.mp (congrArg Allocation.node h)

variable {size} {n : UInt64}

theorem block_toNat (h : n.toNat < 16) (hsize : size n ≤ 2 ^ 28) :
    (block size n).userAddr.toNat = 65536 + 268435456 * n.toNat ∧
      (block size n).dmaAddr.toNat = 268435456 * n.toNat ∧
      (block size n).size.toNat = pageAlign (size n) ∧ pageAlign (size n) ≤ 268435456 := by
  have hunit : (268435456 : UInt64).toNat = 268435456 := rfl
  have hfirst : (65536 : UInt64).toNat = 65536 := rfl
  have hmul : (268435456 * n).toNat = 268435456 * n.toNat := by
    rw [UInt64.toNat_mul, hunit]
    omega
  have hpages : pageAlign (size n) ≤ 268435456 := by
    rw [pageAlign]
    omega
  refine ⟨?_, hmul, ?_, hpages⟩
  · change (65536 + 268435456 * n).toNat = _
    rw [UInt64.toNat_add, hmul, hfirst]
    omega
  · change (UInt64.ofNat (pageAlign (size n))).toNat = _
    rw [UInt64.toNat_ofNat']
    omega

/-- Blocks with different numbers are apart. -/
theorem live_blocks {ns : List UInt64} (hnodup : ns.Nodup)
    (hsmall : ∀ n ∈ ns, n.toNat < 16 ∧ size n ≤ 2 ^ 28) : Live (ns.map (block size)) := by
  constructor
  · refine List.pairwise_map.mpr (hnodup.imp_of_mem ?_)
    intro n m hn hm hne
    have hne' : n.toNat ≠ m.toNat := mt UInt64.toNat_inj.mp hne
    obtain ⟨huser, hdma, hsize, hpages⟩ := block_toNat (hsmall n hn).1 (hsmall n hn).2
    obtain ⟨huser', hdma', hsize', hpages'⟩ := block_toNat (hsmall m hm).1 (hsmall m hm).2
    refine ⟨hne', ?_, ?_⟩
    · intro heq
      have hnat := congrArg UInt64.toNat heq
      omega
    · intro a ha ha'
      have ⟨hlo, hhi⟩ := ha
      have ⟨hlo', hhi'⟩ := ha'
      omega
  · intro alloc halloc
    obtain ⟨n, hn, rfl⟩ := List.mem_map.mp halloc
    obtain ⟨hlt, hmax⟩ := hsmall n hn
    obtain ⟨huser, hdma, hsize, hpages⟩ := block_toNat hlt hmax
    refine ⟨?_, ?_, by omega⟩
    · intro heq
      rw [heq] at huser
      have hzero : (0 : UInt64).toNat = 0 := rfl
      omega
    · intro heq
      rw [heq] at huser
      have hall : mapFailed.toNat = 18446744073709551615 := rfl
      omega

theorem blockMap_granted (hlt : n.toNat < 16) (hmax : size n ≤ 2 ^ 28) {s : Nat}
    (hs : pageAlign (size n) = pageAlign s) : (blockMap size n).Granted s := by
  obtain ⟨-, -, hsize, -⟩ := block_toNat hlt hmax
  refine ⟨rfl, rfl, Int.le_refl 0, ?_⟩
  rw [blockMap_allocation, hsize, hs]

def blockAnswers (size : UInt64 → Nat) (yuv trans entropy : UInt64) : ChannelAnswers :=
  { yuv := blockMap size yuv
    trans := blockMap size trans
    entropy := blockMap size entropy
    writeCopied := true
    configCopied := true
    getCopied := true
    transCopied := true
    entropyCopied := true
    timeRemain := 1
    iargs := ⟨⟨0, 0, 0, 0⟩, 0, weightAddrDefault, 4, 0, 0, 0, 0⟩ }

/-- What a channel asks of the kernel, in blocks. -/
theorem blockAnswers_granted (out : List UInt8 × List UInt8) (yuv trans entropy : UInt64)
    (ns rest : List UInt64) (herase : ns.erase yuv = rest)
    (hnodup : (entropy :: trans :: rest).Nodup)
    (hsmall : ∀ n ∈ entropy :: trans :: rest, n.toNat < 16 ∧ size n ≤ 2 ^ 28)
    (htrans : size trans = out.1.length) (hentropy : size entropy = out.2.length) :
    (blockAnswers size yuv trans entropy).Granted (ns.map (block size)) out ∧
      (blockAnswers size yuv trans entropy).after (ns.map (block size)) =
        (entropy :: trans :: rest).map (block size) := by
  have hafter : (blockAnswers size yuv trans entropy).after (ns.map (block size)) =
      (entropy :: trans :: rest).map (block size) := by
    simp only [ChannelAnswers.after, blockAnswers, blockMap_allocation, List.map_cons,
      ← List.map_erase (block_injective size), herase]
  have hfirst := hsmall entropy List.mem_cons_self
  have hsecond := hsmall trans (List.mem_cons_of_mem _ List.mem_cons_self)
  refine ⟨⟨rfl, rfl, rfl, rfl, rfl, ?_, ?_, ?_⟩, hafter⟩
  · exact blockMap_granted hsecond.1 hsecond.2 (congrArg _ htrans)
  · exact blockMap_granted hfirst.1 hfirst.2 (congrArg _ hentropy)
  · rw [hafter]
    exact live_blocks hnodup hsmall

end Blocks

def sixBytes (size : UInt64 → Nat) (heap : Nat → Nat → Gmm) : PictureInput :=
  { frames := [{ zeroFrame with dataLen := 6 }]
    nFrame := 1
    payload := List.replicate 6 0
    answers :=
      { y := blockAnswers size 1 4 5
        u := blockAnswers size 2 6 7
        v := blockAnswers size 3 8 9
        heap }
    unpacked := by rfl
    frames_le := by decide
    sampled := by decide }

def constantPlatform (out : List UInt8 × List UInt8) (tables : Tables) : Platform :=
  { acc := constantAccelerator out, dma := copyingDma, charIsSigned := true, tables }

/-- A file of four bytes, in the first block. -/
def fourBytes (size : UInt64 → Nat) : FileAnswers :=
  { opened := true
    fstat := some 4
    map := blockMap size 1
    read := some [1, 2, 3, 4]
    closed := true
    writeCopied := true }

def emptyBoard : Board :=
  { addrList := []
    engine := ⟨⟨0, 0, 0, 0⟩, 0, 0, 0, 0, 0, 0, 0⟩
    ps := fun _ => 0
    pl := fun _ => 0 }

/-- The first three blocks hold the channels, then the results follow. -/
def resultBlocks (out : List UInt8 × List UInt8) (n : UInt64) : Nat :=
  if n < 4 then 1 else if n % 2 = 0 then out.1.length else out.2.length

/-- A channel has one page. -/
theorem resultBlocks_page (out : List UInt8 × List UInt8) {n : UInt64} (hn : n < 4) {s : Nat}
    (hpos : 1 ≤ s) (hle : s ≤ 4096) : pageAlign (resultBlocks out n) = pageAlign s := by
  rw [resultBlocks, if_pos hn, pageAlign, pageAlign]
  omega

section Constant
variable {out : List UInt8 × List UInt8} (h : out.1 ≠ [] ∧ out.2 ≠ [])
  (hmax : out.1.length ≤ 2 ^ 28 ∧ out.2.length ≤ 2 ^ 28) {heap : Nat → Nat → Gmm}
include hmax

theorem resultBlocks_le (n : UInt64) : resultBlocks out n ≤ 2 ^ 28 := by
  rw [resultBlocks]
  split
  · decide
  · split
    · exact hmax.1
    · exact hmax.2

theorem resultBlocks_small (ns : List UInt64)
    (hns : (ns.all fun n => decide (n.toNat < 16)) = true) :
    ∀ n ∈ ns, n.toNat < 16 ∧ resultBlocks out n ≤ 2 ^ 28 := fun n hn =>
  ⟨of_decide_eq_true (List.all_eq_true.mp hns n hn), resultBlocks_le hmax n⟩

theorem fourBytes_delivers : (fourBytes (resultBlocks out)).Delivers [1, 2, 3, 4] [] := by
  refine ⟨rfl, rfl, rfl, rfl, rfl, by decide, by decide, ?_, ?_⟩
  · exact blockMap_granted (by decide) (resultBlocks_le hmax 1)
      (resultBlocks_page out (by decide) (by decide) (by decide))
  · rw [fourBytes, blockMap_allocation]
    exact live_blocks (List.nodup_singleton 1) (resultBlocks_small hmax [1] (by decide))

theorem sixBytes_granted :
    (sixBytes (resultBlocks out) heap).answers.Granted (constantNetwork out h) [1, 2, 3, 4]
      (sixBytes (resultBlocks out) heap).payload [] := by
  have hmappings : (sixBytes (resultBlocks out) heap).answers.yuvMappings ++ [] =
      [3, 2, 1].map (block (resultBlocks out)) := by
    simp only [PictureAnswers.yuvMappings, sixBytes, blockAnswers, blockMap_allocation]
    rfl
  have hsmall := resultBlocks_small hmax
  have hy := blockAnswers_granted out 1 4 5 [3, 2, 1] [3, 2] (by decide) (by decide)
    (hsmall _ (by decide)) rfl rfl
  have hu := blockAnswers_granted out 2 6 7 [5, 4, 3, 2] [5, 4, 3] (by decide) (by decide)
    (hsmall _ (by decide)) rfl rfl
  have hv := blockAnswers_granted out 3 8 9 [7, 6, 5, 4, 3] [7, 6, 5, 4] (by decide) (by decide)
    (hsmall _ (by decide)) rfl rfl
  refine ⟨?_, ?_, ?_⟩
  · intro channel hchannel
    have hchannels : (sixBytes (resultBlocks out) heap).answers.channels
        (sixBytes (resultBlocks out) heap).payload =
        [([0, 0, 0, 0], blockAnswers (resultBlocks out) 1 4 5),
          ([0], blockAnswers (resultBlocks out) 2 6 7),
          ([0], blockAnswers (resultBlocks out) 3 8 9)] := by
      have hyuv : yuvChannels (List.replicate 6 0) = [[0, 0, 0, 0], [0], [0]] := by decide
      simp only [PictureAnswers.channels, sixBytes, hyuv]
      rfl
    rw [hchannels] at hchannel
    simp only [List.mem_cons, List.not_mem_nil, or_false] at hchannel
    rcases hchannel with rfl | rfl | rfl
    all_goals
      exact blockMap_granted (by decide) (resultBlocks_le hmax _)
        (resultBlocks_page out (by decide) (by simp) (by simp))
  · rw [hmappings]
    exact live_blocks (by decide) (hsmall _ (by decide))
  · rw [hmappings]
    refine ⟨hy.1, ?_, ?_, trivial⟩
    · exact hy.2 ▸ hu.1
    · exact hy.2 ▸ hu.2 ▸ hv.1

end Constant

/-- The run of a picture of six bytes. -/
theorem run_encodes_sixBytes :
    let out : List UInt8 × List UInt8 := ([1, 0], List.replicate 18 0)
    let picture := sixBytes (resultBlocks out) fun _ _ => ⟨0, 0, 0, 0, 0, 0, 1, 1, 1⟩
    let platform := constantPlatform out ⟨[], []⟩
    let network := constantNetwork out ⟨by decide, by decide⟩
    ∃ b', emptyBoard.run platform emptyBoard.engine (fourBytes (resultBlocks out)) [picture] =
        (network.encodeAll platform [1, 2, 3, 4] [picture] >>= fun results => .ok (results, b')) ∧
      Live b'.addrList ∧ (∃ left, b'.addrList = left ++ [] ∧ left.length = 6 * 1) ∧
      (emptyBoard.engine.initialised 4).readWeights b'.pl = [1, 2, 3, 4] := by
  intro out picture platform network
  have hmax : out.1.length ≤ 2 ^ 28 ∧ out.2.length ≤ 2 ^ 28 := by decide
  exact run_encodes (b := emptyBoard) (fun _ _ _ _ => rfl)
    (constantAccelerator_computes ⟨by decide, by decide⟩ hmax) (fourBytes_delivers hmax)
    ⟨sixBytes_granted _ hmax, ⟨⟨rfl, rfl⟩, rfl, rfl⟩, trivial⟩

end Soc
