import Soc.Basic
import Soc.Protocol.Crc

/-!
The frames of `transmission_protocol.h` and their bytes on the line.

A frame travels as the image of its packed structure after the multi-byte
fields were converted to big-endian order; the check sum is stored as `crc16`
returns it. Receiving undoes the conversion.
-/
namespace Soc
open Layout

/-! `TP_ADDRESS_*`, `TP_FRAME_TYPE_*`, `TP_STATUS_*` and `TP_FLAG_*`. -/

def addressMaster : UInt8 := 0
def addressSlave : UInt8 := 1
def frameTypeQuery : UInt8 := 1
def frameTypeSend : UInt8 := 3
def frameTypeRecv : UInt8 := 7
def statusUnreceived : UInt16 := 0xAAAA
def statusProcessing : UInt16 := 0xAA55
def statusProcessed : UInt16 := 0x5555
def flag1Yuv420 : UInt8 := 0x8E
def flagData : UInt8 := 0xAA

/-- `TP_FRAME_DATA_LEN_MAX` -/
def frameDataLenMax : Nat := 512

theorem frameDataLenMax_eq : frameDataLenMax = 512 := rfl

/-- `frame_t` -/
structure Frame where
  address : UInt8 := 0
  frameType : UInt8 := 0
  nFile : UInt32 := 0
  nFrame : UInt16 := 0
  status : UInt16 := 0
  checkSum : UInt16 := 0
  deriving DecidableEq

/-- `data_frame_t`; the frame counter is a 24-bit field. -/
structure DataFrame where
  header : List.Vector UInt8 4
  nTotalFrame : BitVec 24
  flag : UInt8
  nFile : UInt32
  nFrame : UInt16
  totalDataLen : UInt32
  dataLen : UInt16
  data : List.Vector UInt8 frameDataLenMax
  checkSum : UInt16
  deriving DecidableEq

/-- A slot as `calloc` returns it. -/
def zeroFrame : DataFrame :=
  ⟨List.Vector.replicate 4 0, 0, 0, 0, 0, 0, 0, List.Vector.replicate frameDataLenMax 0, 0⟩

abbrev frameSize : Nat := 12
abbrev dataFrameSize : Nat := 534

def Frame.layout : Layout Frame frameSize :=
  (uint8.pair (uint8.pair (uint32.pair (uint16.pair (uint16.pair uint16))))).map
    { toFun := fun (a, t, f, n, s, c) => ⟨a, t, f, n, s, c⟩
      invFun := fun f => (f.address, f.frameType, f.nFile, f.nFrame, f.status, f.checkSum)
      left_inv := fun _ => rfl
      right_inv := fun _ => rfl }

def DataFrame.layout : Layout DataFrame dataFrameSize :=
  ((bytes 4).pair (uint24.pair (uint8.pair (uint32.pair (uint16.pair (uint32.pair (uint16.pair
    ((bytes frameDataLenMax).pair uint16)))))))).map
    { toFun := fun (h, t, g, f, n, l, d, b, c) => ⟨h, t, g, f, n, l, d, b, c⟩
      invFun := fun f => (f.header, f.nTotalFrame, f.flag, f.nFile, f.nFrame, f.totalDataLen,
        f.dataLen, f.data, f.checkSum)
      left_inv := fun _ => rfl
      right_inv := fun _ => rfl }

/-- `tp_header` -/
def tpHeader : List.Vector UInt8 4 := ⟨[0x3A, 0x62, 0x04, 0x3F], rfl⟩

/-! `htobe16` and its kind on a little-endian host; each is its own inverse. -/

def htobe16 (x : UInt16) : UInt16 := UInt16.ofNat (swapBytes 2 x.toNat)
def htobe32 (x : UInt32) : UInt32 := UInt32.ofNat (swapBytes 4 x.toNat)

/-- `htobe32(x) >> 8` on the 24-bit counter. -/
def htobe24 (x : BitVec 24) : BitVec 24 :=
  BitVec.ofNat 24 (htobe32 (UInt32.ofNat x.toNat) >>> 8).toNat

/-- The conversions of `write_frame`, and those of `receive_frame`. -/
def Frame.swapped (f : Frame) : Frame :=
  { f with nFile := htobe32 f.nFile, nFrame := htobe16 f.nFrame, status := htobe16 f.status }

/-- The conversions of `write_data_frame`, and those of `receive_data_frames`. -/
def DataFrame.swapped (f : DataFrame) : DataFrame :=
  { f with
    nTotalFrame := htobe24 f.nTotalFrame
    nFile := htobe32 f.nFile
    nFrame := htobe16 f.nFrame
    totalDataLen := htobe32 f.totalDataLen
    dataLen := htobe16 f.dataLen }

/-- The bytes `write_frame` hands to `write`. -/
def writeFrame (frame : Frame) : List UInt8 :=
  let temp := frame.swapped
  Frame.layout.store
    { temp with checkSum := crc16 ((Frame.layout.store temp).take (frameSize - 2)) }

/-- The bytes `write_data_frame` hands to `write`. -/
def writeDataFrame (frame : DataFrame) : List UInt8 :=
  let temp := frame.swapped
  DataFrame.layout.store
    { temp with checkSum := crc16 ((DataFrame.layout.store temp).take (dataFrameSize - 2)) }

/-- `receive_frame`: the outcomes of `epoll_wait` and `read` are given, `none`
being an error of `read`. Its `-1` then is the size of the string for the log,
whose allocation fails. -/
def receiveFrame (ready : Bool) (read : Option (List UInt8)) (frame : Frame) :
    Except Fault (Int × Frame) :=
  if ready then
    match read with
    | none => .error .outOfBounds
    | some bytes =>
      let temp := Frame.layout.load bytes
      if bytes.length < frameSize then .ok (-2, frame)
      else if crc16 (bytes.take (frameSize - 2)) ≠ temp.checkSum then .ok (-3, frame)
      else .ok (bytes.length, temp.swapped)
  else .ok (-1, frame)

/-- The test of `receive_data_frames` on one window of its buffer. -/
def accepts (window : List UInt8) : Bool :=
  (DataFrame.layout.load window).header = tpHeader ∧
    crc16 (window.take (dataFrameSize - 2)) = (DataFrame.layout.load window).checkSum

/-- What it copies out of an accepted window. -/
def parseDataFrame (window : List UInt8) : DataFrame := (DataFrame.layout.load window).swapped

/-! Byte order of the fields. -/

theorem htobe16_toNat (x : UInt16) : (htobe16 x).toNat = swapBytes 2 x.toNat := by
  rw [htobe16, UInt16.toNat_ofNat']
  exact Nat.mod_eq_of_lt (swapBytes_lt 2 _)

theorem htobe32_toNat (x : UInt32) : (htobe32 x).toNat = swapBytes 4 x.toNat := by
  rw [htobe32, UInt32.toNat_ofNat']
  exact Nat.mod_eq_of_lt (swapBytes_lt 4 _)

/-- The detour of the counter through 32 bits swaps its own three bytes. -/
theorem htobe24_toNat (x : BitVec 24) : (htobe24 x).toNat = swapBytes 3 x.toNat := by
  have hx : x.toNat < 256 ^ 3 := x.isLt
  have hlt : swapBytes 3 x.toNat < 2 ^ 24 := swapBytes_lt 3 _
  have hwide : (UInt32.ofNat x.toNat).toNat = x.toNat := by
    rw [UInt32.toNat_ofNat', Nat.mod_eq_of_lt (by omega)]
  have height : UInt32.toNat 8 % 32 = 8 := rfl
  rw [htobe24, BitVec.toNat_ofNat, UInt32.toNat_shiftRight, htobe32_toNat, hwide, height,
    swapBytes_succ_shift hx, Nat.mod_eq_of_lt hlt]

@[simp] theorem htobe16_htobe16 (x : UInt16) : htobe16 (htobe16 x) = x := by
  apply UInt16.toNat_inj.mp
  rw [htobe16_toNat, htobe16_toNat, swapBytes_swapBytes x.toNat_lt]

@[simp] theorem htobe32_htobe32 (x : UInt32) : htobe32 (htobe32 x) = x := by
  apply UInt32.toNat_inj.mp
  rw [htobe32_toNat, htobe32_toNat, swapBytes_swapBytes x.toNat_lt]

@[simp] theorem htobe24_htobe24 (x : BitVec 24) : htobe24 (htobe24 x) = x := by
  apply BitVec.eq_of_toNat_eq
  rw [htobe24_toNat, htobe24_toNat, swapBytes_swapBytes x.isLt]

@[simp] theorem Frame.swapped_swapped (f : Frame) : f.swapped.swapped = f := by
  simp [Frame.swapped]

@[simp] theorem DataFrame.swapped_swapped (f : DataFrame) : f.swapped.swapped = f := by
  simp [DataFrame.swapped]

/-! Images: the check sum is the last field, so it does not reach the bytes it
is computed from. -/

def Frame.body (f : Frame) : List UInt8 :=
  [f.address] ++ [f.frameType] ++ leBytes 4 f.nFile.toNat ++ leBytes 2 f.nFrame.toNat ++
    leBytes 2 f.status.toNat

def DataFrame.body (f : DataFrame) : List UInt8 :=
  f.header.toList ++ leBytes 3 f.nTotalFrame.toNat ++ [f.flag] ++ leBytes 4 f.nFile.toNat ++
    leBytes 2 f.nFrame.toNat ++ leBytes 4 f.totalDataLen.toNat ++ leBytes 2 f.dataLen.toNat ++
    f.data.toList

theorem Frame.body_length (f : Frame) : f.body.length = frameSize - 2 := by
  simp [Frame.body, frameSize]

theorem DataFrame.body_length (f : DataFrame) : f.body.length = dataFrameSize - 2 := by
  have hdata : f.data.toList.length = 512 := f.data.toList_length
  simp [DataFrame.body, dataFrameSize, hdata]

theorem Frame.store_eq (f : Frame) : layout.store f = f.body ++ leBytes 2 f.checkSum.toNat := by
  simp [layout, Layout.map, Frame.body]

theorem DataFrame.store_eq (f : DataFrame) :
    layout.store f = f.body ++ leBytes 2 f.checkSum.toNat := by
  simp [layout, Layout.map, DataFrame.body]

theorem Frame.take_store (f : Frame) : (layout.store f).take (frameSize - 2) = f.body := by
  rw [store_eq, List.take_left' f.body_length]

theorem DataFrame.take_store (f : DataFrame) :
    (layout.store f).take (dataFrameSize - 2) = f.body := by
  rw [store_eq, List.take_left' f.body_length]

/-- A frame with the check sum of its bytes on the line. -/
def Frame.signed (f : Frame) : Frame := { f with checkSum := crc16 f.swapped.body }
def DataFrame.signed (f : DataFrame) : DataFrame := { f with checkSum := crc16 f.swapped.body }

theorem writeFrame_eq (f : Frame) : writeFrame f = Frame.layout.store f.signed.swapped := by
  rw [writeFrame, Frame.take_store]
  rfl

theorem writeDataFrame_eq (f : DataFrame) :
    writeDataFrame f = DataFrame.layout.store f.signed.swapped := by
  rw [writeDataFrame, DataFrame.take_store]
  rfl

@[simp] theorem writeFrame_length (f : Frame) : (writeFrame f).length = frameSize := by
  rw [writeFrame_eq, Layout.store_length]

@[simp] theorem writeDataFrame_length (f : DataFrame) :
    (writeDataFrame f).length = dataFrameSize := by
  rw [writeDataFrame_eq, Layout.store_length]

/-- The fields of a data frame as they travel, high byte first. -/
def DataFrame.line (f : DataFrame) : List UInt8 :=
  f.header.toList ++ beBytes 3 f.nTotalFrame.toNat ++ [f.flag] ++ beBytes 4 f.nFile.toNat ++
    beBytes 2 f.nFrame.toNat ++ beBytes 4 f.totalDataLen.toNat ++ beBytes 2 f.dataLen.toNat ++
    f.data.toList

theorem DataFrame.swapped_body (f : DataFrame) : f.swapped.body = f.line := by
  simp only [swapped, body, line, htobe16_toNat, htobe32_toNat, htobe24_toNat, leBytes_swapBytes]

theorem writeDataFrame_line (f : DataFrame) :
    writeDataFrame f = f.line ++ beBytes 2 (remainder f.line).toNat := by
  rw [writeDataFrame_eq, DataFrame.store_eq, ← crc16_image, ← DataFrame.swapped_body]
  rfl

/-! Receiving what was written. -/

theorem receiveFrame_writeFrame (f g : Frame) :
    receiveFrame true (some (writeFrame f)) g = .ok (frameSize, f.signed) := by
  have htake : (writeFrame f).take (frameSize - 2) = f.swapped.body := by
    rw [writeFrame_eq, Frame.take_store]
    rfl
  have hload : Frame.layout.load (writeFrame f) = f.signed.swapped := by
    rw [writeFrame_eq, Layout.load_store]
  have hsum : f.signed.swapped.checkSum = crc16 f.swapped.body := rfl
  simp [receiveFrame, htake, hload, hsum]

theorem load_writeDataFrame (f : DataFrame) :
    DataFrame.layout.load (writeDataFrame f) = f.signed.swapped := by
  rw [writeDataFrame_eq, Layout.load_store]

theorem parse_writeDataFrame (f : DataFrame) : parseDataFrame (writeDataFrame f) = f.signed := by
  rw [parseDataFrame, load_writeDataFrame, DataFrame.swapped_swapped]

theorem accepts_writeDataFrame (f : DataFrame) :
    accepts (writeDataFrame f) = true ↔ f.header = tpHeader := by
  have htake : (writeDataFrame f).take (dataFrameSize - 2) = f.swapped.body := by
    rw [writeDataFrame_eq, DataFrame.take_store]
    rfl
  have hsum : f.signed.swapped.checkSum = crc16 f.swapped.body := rfl
  have hheader : f.signed.swapped.header = f.header := rfl
  simp [accepts, htake, load_writeDataFrame, hsum, hheader]

end Soc
