import Soc.Coding.Entropy
import Soc.Driver.Timeouts
import Soc.Foundation.Contents
import Soc.Protocol.Packing

/-!
A picture through the accelerator.

`process_data_frames` widens the three channels of a picture to 16 bits in mappings of the
device. Each is moved to the memory of the PL, the accelerator is configured and started, and
its results are moved to new mappings, where the entropy coder finds them.
-/
namespace Soc
open Loops Copies

/-- `struct network_acc_reg`; the registers of the accelerator go by the same names. -/
structure AccReg extends NetworkAccReg where
  control : UInt32
  weightAddr : UInt32
  weightSize : UInt32
  quantifyAddr : UInt32
  quantifySize : UInt32
  pictureAddr : UInt32
  pictureSize : UInt32

/-- `WEIGHT_ADDR` -/
abbrev weightAddrDefault : UInt32 := 0x10000000

/-- `PICTURE_BASE_ADDR` -/
abbrev pictureBaseAddr : UInt32 := 0x20000000

/-- What the accelerator makes of its registers and of the memory of the PL, by the time its
results are asked for. -/
abbrev Accelerator := AccReg → Memory UInt8 → NetworkAccReg × Memory UInt8

/-- The allocations of the driver, the registers of the accelerator, and the two memories. -/
structure Board where
  addrList : List Allocation
  engine : AccReg
  ps : Memory UInt8
  pl : Memory UInt8

/-- The range the kernel chooses for an `mmap`, and its answers to the driver. -/
structure MapAnswer where
  vma : VmArea
  answers : Answers

namespace Board

/-- `ps_mmap`. The kernel does not map a size of zero. -/
def psMmap (b : Board) (size : Nat) (map : MapAnswer) : UInt64 × Board :=
  if size = 0 then (mapFailed, b)
  else
    let (rc, addrList) := axitangxiMmap b.addrList map.vma map.answers
    (if rc < 0 then mapFailed else map.vma.vmStart, { b with addrList })

/-- The allocation a program reaches through an address. -/
def find (b : Board) (addr : UInt64) : Option Allocation :=
  b.addrList.find? fun alloc => alloc.userAddr == addr

/-- `munmap` of a whole mapping -/
def munmap (b : Board) (addr : UInt64) (size : Nat) : Int × Board :=
  if size = 0 then (-1, b)
  else
    match b.find addr with
    | none => (0, b)
    | some alloc => (0, { b with addrList := axitangxiVmaClose b.addrList alloc.node })

/-- A store of the program into a mapping. -/
def poke (b : Board) (addr : UInt64) (offset : Nat) (bytes : List UInt8) : Except Fault Board :=
  match b.find addr with
  | none => .error .outOfBounds
  | some alloc =>
    if offset + bytes.length ≤ alloc.size.toNat then
      .ok { b with ps := write b.ps (alloc.dmaAddr.toNat + offset) bytes }
    else .error .outOfBounds

/-- The first bytes of a mapping, as the program reads them. -/
def peek (b : Board) (addr : UInt64) (n : Nat) : Except Fault (List UInt8) :=
  match b.find addr with
  | none => .error .outOfBounds
  | some alloc =>
    if n ≤ alloc.size.toNat then .ok (read b.ps alloc.dmaAddr.toNat n) else .error .outOfBounds

/-- The bursts of a transfer, if there is one. -/
def transfer (b : Board) (dma : Dma) (request : Request) : Option BurstLoop → Board
  | none => b
  | some j =>
    let bursts := outputs BurstLoop.turn j.bursts j
    match request with
    | .psddrToPlddr => { b with pl := dma.run bursts b.ps b.pl }
    | .plddrToPsddr => { b with ps := dma.run bursts b.pl b.ps }

/-- `pl_io`: what it returns, and where `*ps_addr` points then. -/
def plIo (b : Board) (dma : Dma) (psAddr : UInt64) (map : MapAnswer) (plAddr size : UInt32)
    (copied : Bool) (request : Request) : (Int × UInt64) × Board :=
  let (psAddr, b) := if psAddr = 0 then b.psMmap size.toNat map else (psAddr, b)
  let (loop, rc) := Soc.plIo b.addrList psAddr psAddr plAddr size copied request
  ((rc, psAddr), b.transfer dma request loop)

/-- `acc_config` -/
def accConfig (b : Board) (args : AccReg) : Board :=
  { b with engine := { b.engine with
      weightAddr := args.weightAddr
      weightSize := args.weightSize
      quantifyAddr := args.quantifyAddr
      quantifySize := args.quantifySize
      pictureAddr := args.pictureAddr
      pictureSize := args.pictureSize } }

/-- `acc_start`, and what the accelerator does. -/
def accStart (b : Board) (acc : Accelerator) : Board :=
  let engine := { b.engine with control := 1 }
  let (results, pl) := acc engine b.pl
  { b with engine := { engine with toNetworkAccReg := results }, pl }

/-- `pl_run` -/
def plRun (b : Board) (acc : Accelerator) (reg : AccReg) (copied : Bool) : Except Fault Board :=
  if copied then .ok ((b.accConfig reg).accStart acc) else .error .exited

end Board

/-- What the kernel answers while a channel is encoded: the mappings, whether the argument of
each `ioctl` can be copied, and what is left of the time for the accelerator. The structure
that `NETWORK_ACC_GET` fills in part is on the stack; `iargs` is what it holds before. -/
structure ChannelAnswers where
  yuv : MapAnswer
  trans : MapAnswer
  entropy : MapAnswer
  writeCopied : Bool
  configCopied : Bool
  getCopied : Bool
  transCopied : Bool
  entropyCopied : Bool
  timeRemain : Nat
  iargs : AccReg

/-- `data_t` -/
structure Data where
  addr : UInt64
  len : Nat

namespace Board

/-- `pl_get`. All of the structure on the stack is copied to the program. -/
def plGet (b : Board) (dma : Dma) (transAddr entropyAddr : UInt64) (answers : ChannelAnswers) :
    Except Fault ((AccReg × UInt64 × UInt64) × Board) :=
  match (networkAccGet answers.timeRemain b.engine.toNetworkAccReg answers.getCopied).2 with
  | none => .error .exited
  | some results =>
    let reg := { answers.iargs with toNetworkAccReg := results }
    let ((rc, transAddr), b) := b.plIo dma transAddr answers.trans reg.transAddr reg.transSize
      answers.transCopied .plddrToPsddr
    if rc = -1 then .error .exited
    else
      let ((rc, entropyAddr), b) := b.plIo dma entropyAddr answers.entropy reg.entropyAddr
        reg.entropySize answers.entropyCopied .plddrToPsddr
      if rc = -1 then .error .exited else .ok ((reg, transAddr, entropyAddr), b)

/-- The mappings of the channels. -/
def mapYuv (b : Board) : List (Nat × MapAnswer) → List Data × Board
  | [] => ([], b)
  | (len, map) :: rest =>
    let (addr, b) := b.psMmap (2 * len) map
    let (yuv, b) := b.mapYuv rest
    (⟨addr, len⟩ :: yuv, b)

/-- `*p_yuv++ = *p++` for the bytes of a channel, from the value `i` on. -/
def widen (b : Board) (addr : UInt64) : Nat → List UInt8 → Except Fault Board
  | _, [] => .ok b
  | i, x :: xs => do
    let b ← b.poke addr (2 * i) (storeInt16 x.toUInt16.toInt16)
    b.widen addr (i + 1) xs

/-- The channels lie one behind the other in the picture. -/
def fillYuv (b : Board) : List Data → List UInt8 → Except Fault Board
  | [], _ => .ok b
  | yuv :: rest, p => do
    let b ← b.widen yuv.addr 0 (p.take yuv.len)
    b.fillYuv rest (p.drop yuv.len)

/-- The body of the loop that encodes the channels: `trans[k]` and `entropy[k]`. -/
def encodeChannel (b : Board) (acc : Accelerator) (dma : Dma) (reg : AccReg) (yuv : Data)
    (answers : ChannelAnswers) : Except Fault ((Data × Data) × AccReg × Board) :=
  let reg := { reg with pictureAddr := pictureBaseAddr }
  let ((rc, addr), b) := b.plIo dma yuv.addr answers.yuv reg.pictureAddr
    (UInt32.ofNat (2 * yuv.len)) answers.writeCopied .psddrToPlddr
  if rc = -1 then .error .exited
  else
    let (rc, b) := b.munmap addr (2 * yuv.len)
    if rc = -1 then .error .exited
    else do
      let reg := { reg with pictureSize := UInt32.ofNat (2 * yuv.len) }
      let b ← b.plRun acc reg answers.configCopied
      let ((reg, transAddr, entropyAddr), b) ← b.plGet dma 0 0 answers
      .ok ((⟨transAddr, (reg.transSize / 2).toNat⟩, ⟨entropyAddr, (reg.entropySize / 2).toNat⟩),
        reg, b)

/-- The registers a channel leaves are those the next one starts with. -/
def encodeChannels (b : Board) (acc : Accelerator) (dma : Dma) (reg : AccReg) :
    List (Data × ChannelAnswers) → Except Fault (List (Data × Data) × Board)
  | [] => .ok ([], b)
  | (yuv, answers) :: rest => do
    let (channel, reg, b) ← b.encodeChannel acc dma reg yuv answers
    let (channels, b) ← b.encodeChannels acc dma reg rest
    .ok (channel :: channels, b)

end Board

/-- The `int16_t` values of some bytes. -/
def int16s : List UInt8 → List Int16
  | low :: high :: bytes => loadInt16 [low, high] :: int16s bytes
  | _ => []

namespace Board

def array (b : Board) (d : Data) : Except Fault (List Int16) := do
  .ok (int16s (← b.peek d.addr (2 * d.len)))

def arrays (b : Board) : List (Data × Data) → Except Fault (List (List Int16 × List Int16))
  | [] => .ok []
  | channel :: rest => do
    let trans ← b.array channel.1
    let entropy ← b.array channel.2
    let rest ← b.arrays rest
    .ok ((trans, entropy) :: rest)

end Board

/-! The entropy coding of the results. -/

/-- The array `lens` of `process_data_frames`. -/
def subbandLens : List UInt64 :=
  [32400, 32400, 32400, 32400, 129600, 129600, 129600, 518400, 518400, 518400, 2073600, 2073600,
    2073600, 8160, 8160, 8160, 8160, 32640, 32640, 32640, 130560, 130560, 130560, 522240, 522240,
    522240, 8160, 8160, 8160, 8160, 32640, 32640, 32640, 130560, 130560, 130560, 522240, 522240,
    522240]

/-- The pointers to the subbands of a channel; `ptr` is the sum of the lengths before. -/
def slices (gmm : List Gmm) (trans : List Int16) : Nat → List UInt64 → List (List Gmm × List Int16)
  | _, [] => []
  | ptr, len :: lens =>
    (gmm.drop ptr, trans.drop ptr) :: slices gmm trans (ptr + len.toNat) lens

/-- The block for the mixture parameters of a channel, where `heap` shows through. -/
def settle (heap : Nat → Gmm) (gmm : List (Option Gmm)) : List Gmm :=
  gmm.mapIdx fun i g => g.getD (heap i)

/-- A channel of the loop over `gmms` and `data`. Too few coefficients are only logged. -/
def sliceChannel (heap : Nat → Gmm) (trans entropy : List Int16) (lens : List UInt64) :
    Except Fault (List (List Gmm × List Int16)) :=
  let gmmLen := entropy.length / 9
  -- `assert` ends the program
  if gmmLen ≠ trans.length then .error .exited
  else do
    let gmm ← entropyToGmm entropy (List.replicate gmmLen none) gmmLen
    .ok (slices (settle heap gmm) trans 0 lens)

/-- The loop, from channel `k` on. -/
def sliceChannels (heap : Nat → Nat → Gmm) : Nat → List (List Int16 × List Int16) →
    Except Fault (List (List Gmm × List Int16))
  | _, [] => .ok []
  | k, channel :: rest => do
    let lens := (subbandLens.drop (13 * k)).take 13
    let subbands ← sliceChannel (heap k) channel.1 channel.2 lens
    let rest ← sliceChannels heap (k + 1) rest
    .ok (subbands ++ rest)

/-- The coding of the subbands, from the coefficients and the entropy parameters on. -/
def codeChannels (charIsSigned : Bool) (T : Tables) (heap : Nat → Nat → Gmm)
    (channels : List (List Int16 × List Int16)) : Except Fault CodingResult := do
  let subbands ← sliceChannels heap 0 channels
  codings charIsSigned T (fun i => (subbands.getD i ([], [])).1)
    (fun i => (subbands.getD i ([], [])).2) (fun i => subbandLens.getD i 0) 10000

/-- The hardware and the tables of the coder. -/
structure Platform where
  acc : Accelerator
  dma : Dma
  charIsSigned : Bool
  tables : Tables

/-- What is answered for the three channels, and what `malloc` leaves in their blocks. -/
structure PictureAnswers where
  y : ChannelAnswers
  u : ChannelAnswers
  v : ChannelAnswers
  heap : Nat → Nat → Gmm

/-- `process_data_frames` -/
def Board.processDataFrames (b : Board) (platform : Platform) (inputDataFrames : List DataFrame)
    (nFrame : Nat) (reg : AccReg) (answers : PictureAnswers) :
    Except Fault (CodingResult × Board) := do
  let yuvLen := dataFrameToDataLen inputDataFrames nFrame
  let addr ← dataFramesToData inputDataFrames nFrame
  let uLen := yuvLen / (4 + 1 + 1)
  let (yuv, b) :=
    b.mapYuv [(uLen * 4, answers.y.yuv), (uLen, answers.u.yuv), (uLen, answers.v.yuv)]
  let b ← b.fillYuv yuv addr
  let (channels, b) ← b.encodeChannels platform.acc platform.dma reg
    (yuv.zip [answers.y, answers.u, answers.v])
  let arrays ← b.arrays channels
  let encRes ← codeChannels platform.charIsSigned platform.tables answers.heap arrays
  .ok (encRes, b)

end Soc
