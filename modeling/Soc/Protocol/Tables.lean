import Soc.Foundation.Noted
import Soc.Protocol.Files

/-!
The accesses to `bit_streams` and `data_frame_infos` in `main.c`.

Here the tables are read and written at the indices the source uses, in its order, whether they
are in range or not. The turns of the serial mode without these notes are those of the slave.
Entries that one statement uses more than once are noted once.
-/
namespace Soc
open Runs

inductive Table where
  | bitStreams
  | dataFrameInfos
  deriving DecidableEq

structure Entry where
  table : Table
  index : Nat
  deriving DecidableEq

def Entry.InRange (a : Entry) : Prop := a.index < picturesNumberMax

/-- Computations that note the entries they use. -/
abbrev Uses : Type → Type := Noted Entry Fault

def Slave.picture (s : Slave) (nFile : UInt32) : Except Fault Picture :=
  match fileIndex nFile with
  | none => .error .outOfBounds
  | some k => .ok (s.pictures k)

/-- Stores what becomes of an entry. -/
def Slave.store (s : Slave) (nFile : UInt32) (p : Picture → Picture) : Except Fault Slave :=
  match fileIndex nFile with
  | none => .error .outOfBounds
  | some k => .ok { s with pictures := Function.update s.pictures k (p (s.pictures k)) }

/-- `bit_streams[n_file]` -/
def Slave.bitStreams (s : Slave) (nFile : UInt32) : Uses Data8 :=
  .note ⟨.bitStreams, nFile.toNat⟩ (Picture.bitStream <$> s.picture nFile)

/-- `data_frame_infos[n_file]` -/
def Slave.dataFrameInfos (s : Slave) (nFile : UInt32) : Uses DataFrameInfo :=
  .note ⟨.dataFrameInfos, nFile.toNat⟩ (Picture.info <$> s.picture nFile)

def Slave.setBitStream (s : Slave) (nFile : UInt32) (bitStream : Data8) : Uses Slave :=
  .note ⟨.bitStreams, nFile.toNat⟩ (s.store nFile ({ · with bitStream }))

def Slave.setInfo (s : Slave) (nFile : UInt32) (info : DataFrameInfo) : Uses Slave :=
  .note ⟨.dataFrameInfos, nFile.toNat⟩ (s.store nFile ({ · with info }))

/-- `get_status` -/
def Slave.statusUses (s : Slave) (nFile : UInt32) : Uses UInt16 :=
  if picturesNumberMax ≤ nFile.toNat then pure statusUnreceived
  else do
    let bitStream ← s.bitStreams nFile
    if 0 < bitStream.len then pure statusProcessed
    else do
      let info ← s.dataFrameInfos nFile
      if info.len = info.totalLen ∧ info.totalLen ≠ 0 then pure statusProcessing
      else pure statusUnreceived

/-- The frames of a file the reply to a QUERY request tells. -/
def Slave.lenUses (s : Slave) (nFile : UInt32) : Uses UInt16 :=
  if nFile.toNat < picturesNumberMax then do
    let info ← s.dataFrameInfos nFile
    pure info.len
  else pure 0

/-- `TP_FRAME_TYPE_QUERY` -/
def Slave.queryUses (s : Slave) (inputFrame : Frame) (line : Line) : Uses (Slave × Output) := do
  let status ← s.statusUses inputFrame.nFile
  let nFrame ← s.lenUses inputFrame.nFile
  let outputFrame := { s.outputFrame with
    frameType := inputFrame.frameType
    nFile := inputFrame.nFile
    status
    nFrame }
  pure ({ s with outputFrame }, { reply := replyIf line.replyReady outputFrame })

/-- The slots of a file that was processed are given up. -/
def Slave.overrideUses (s : Slave) (nFile : UInt32) : Uses Slave := do
  let status ← s.statusUses nFile
  if status = statusProcessed then do
    let info ← s.dataFrameInfos nFile
    s.setInfo nFile { info with addr := none }
  else pure s

/-- The slots of a SEND request, and the tables with them. -/
def Slave.prepareUses (s : Slave) (inputFrame : Frame) (line : Line) :
    Uses (List DataFrame × Slave) := do
  let s ← s.overrideUses inputFrame.nFile
  let info ← s.dataFrameInfos inputFrame.nFile
  let slots ← .lift <|
    match info.addr with
    | some slots => .ok slots
    | none =>
      if line.calloc then .ok (List.replicate inputFrame.nFrame.toNat zeroFrame)
      else .error .exited
  let s ← s.setInfo inputFrame.nFile
    { info with addr := some slots, totalLen := inputFrame.nFrame }
  pure (slots, s)

/-- `TP_FRAME_TYPE_SEND` -/
def Slave.sendUses (o : Options) (s : Slave) (inputFrame : Frame) (line : Line) :
    Uses (Slave × Output) :=
  let nFile := inputFrame.nFile
  if picturesNumberMax ≤ nFile.toNat then pure (s, {})
  else
    let outputFrame := s.sendReply inputFrame
    if line.replyReady then do
      let (slots, s) ← ({ s with outputFrame } : Slave).prepareUses inputFrame line
      let (sum, slots) ← .lift (receiveDataFrames line.dataReady line.reads slots inputFrame.nFrame)
      let info ← s.dataFrameInfos nFile
      let s ← s.setInfo nFile { info with addr := some slots, len := info.totalLen - sum }
      if sum = 0 then do
        let bitStream ← s.bitStreams nFile
        let bitStream ← .lift
          (processDataFrames o line.malloc slots inputFrame.nFrame bitStream)
        let s ← s.setBitStream nFile bitStream
        pure (s, { reply := some outputFrame })
      else pure (s, { reply := some outputFrame })
    else pure ({ s with outputFrame }, {})

/-- `TP_FRAME_TYPE_RECV` -/
def Slave.recvUses (s : Slave) (inputFrame : Frame) (line : Line) : Uses (Slave × Output) :=
  if picturesNumberMax ≤ inputFrame.nFile.toNat then pure (s, {})
  else do
    let bitStream ← s.bitStreams inputFrame.nFile
    if bitStream.len = 0 then pure (s, {})
    else do
      let bitStream ← s.bitStreams inputFrame.nFile
      let outputFrame := s.recvReply inputFrame bitStream
      let block := line.heap.map fun h => (List.range outputFrame.nFrame.toNat).map h
      let source := .memory (bitStream.addr.getD []) bitStream.len
      let dataFrames ← .lift (allocDataFrames block outputFrame.nFrame outputFrame.nFile source
        flagData (UInt32.ofNat bitStream.len))
      match dataFrames with
      | none => pure ({ s with outputFrame }, {})
      | some outputDataFrames =>
        let (nTotalFrame, _, data) :=
          sendDataFrames line.sendReady 0 s.nTotalFrame outputDataFrames
        pure ({ s with outputFrame, nTotalFrame },
          { reply := replyIf line.replyReady outputFrame, data })

/-- One turn of the main loop. -/
def Slave.turnUses (o : Options) (s : Slave) (e : Event) : Uses (Slave × Output) := do
  let (n, inputFrame) ← .lift (receiveFrame e.ready e.read {})
  if n ≤ 0 ∨ inputFrame.address ≠ addressMaster then pure (s, {})
  else if inputFrame.frameType = frameTypeQuery then s.queryUses inputFrame e.line
  else if inputFrame.frameType = frameTypeSend then s.sendUses o inputFrame e.line
  else if inputFrame.frameType = frameTypeRecv then s.recvUses inputFrame e.line
  else pure (s, {})

/-- File `k` of the command line. The name of the file it is saved to is left out; `sprintf` writes
one byte more than its block has. -/
def Slave.fileUses (o : Options) (binary : Bool) (s : Slave) (k : Nat) (f : InputFile)
    (malloc : Bool) : Uses Slave := do
  let (ret, nFile, nFrame, dataFrames) ← .lift (f.getDataFrames binary (UInt32.ofNat k))
  if ret = 1 then pure s
  else if ret = 3 then .lift (.error .exited)
  else do
    let bitStream ← s.bitStreams nFile
    let bitStream ← .lift (processDataFrames o malloc dataFrames nFrame bitStream)
    let s ← s.setBitStream nFile bitStream
    -- `dump_mem`
    let _ ← s.bitStreams nFile
    pure s

/-- The loop at the end that frees the blocks. -/
def Slave.freeUses (s : Slave) : Uses Unit :=
  (List.range picturesNumberMax).forM fun i => do
    let _ ← s.bitStreams (UInt32.ofNat i)
    let _ ← s.dataFrameInfos (UInt32.ofNat i)
    pure ()

/-! Every use in range gives what the tables hold. -/

section Results
variable {s : Slave} {nFile : UInt32} {k : Fin picturesNumberMax}

theorem fileIndex_none : fileIndex nFile = none ↔ picturesNumberMax ≤ nFile.toNat := by
  rw [fileIndex, dite_eq_right_iff, ← Nat.not_lt]
  simp

theorem not_le_of_fileIndex (hk : fileIndex nFile = some k) :
    ¬ picturesNumberMax ≤ nFile.toNat := by
  rw [← fileIndex_none, hk]
  exact Option.some_ne_none k

theorem Slave.bitStreams_result (hk : fileIndex nFile = some k) :
    (s.bitStreams nFile).result = .ok (s.pictures k).bitStream := by
  simp only [bitStreams, Noted.result_note, picture, hk]
  rfl

theorem Slave.dataFrameInfos_result (hk : fileIndex nFile = some k) :
    (s.dataFrameInfos nFile).result = .ok (s.pictures k).info := by
  simp only [dataFrameInfos, Noted.result_note, picture, hk]
  rfl

theorem Slave.setBitStream_result (hk : fileIndex nFile = some k) (bitStream : Data8) :
    (s.setBitStream nFile bitStream).result = .ok { s with
      pictures := Function.update s.pictures k { s.pictures k with bitStream } } := by
  simp only [setBitStream, Noted.result_note, store, hk]

theorem Slave.setInfo_result (hk : fileIndex nFile = some k) (info : DataFrameInfo) :
    (s.setInfo nFile info).result = .ok { s with
      pictures := Function.update s.pictures k { s.pictures k with info } } := by
  simp only [setInfo, Noted.result_note, store, hk]

theorem Slave.statusUses_result (s : Slave) (nFile : UInt32) :
    (s.statusUses nFile).result = .ok (s.getStatus nFile) := by
  rw [statusUses, getStatus]
  cases hk : fileIndex nFile with
  | none => rw [if_pos (fileIndex_none.mp hk), Noted.result_pure]
  | some k =>
      rw [if_neg (not_le_of_fileIndex hk), Noted.result_bind_ok (bitStreams_result hk)]
      simp only [Picture.status]
      split
      · rfl
      · rw [Noted.result_bind_ok (dataFrameInfos_result hk)]
        split
        · rfl
        · rfl

theorem Slave.queryUses_result (s : Slave) (f : Frame) (line : Line) :
    (s.queryUses f line).result = .ok (s.query f line) := by
  have hlen : (s.lenUses f.nFile).result = .ok (s.queryReply f).nFrame := by
    rw [lenUses, queryReply]
    cases hk : fileIndex f.nFile with
    | none =>
        rw [if_neg (Nat.not_lt.mpr (fileIndex_none.mp hk))]
        rfl
    | some k =>
        rw [if_pos (Nat.not_le.mp (not_le_of_fileIndex hk)), Noted.result_bind,
          dataFrameInfos_result hk]
        rfl
  rw [queryUses, Noted.result_bind_ok (statusUses_result _ _), Noted.result_bind_ok hlen]
  rfl

theorem Slave.recvUses_result (s : Slave) (f : Frame) (line : Line) :
    (s.recvUses f line).result = s.recv f line := by
  rw [recvUses, recv]
  cases hk : fileIndex f.nFile with
  | none =>
      rw [if_pos (fileIndex_none.mp hk)]
      rfl
  | some k =>
      rw [if_neg (not_le_of_fileIndex hk), Noted.result_bind_ok (bitStreams_result hk)]
      dsimp only
      split
      · rfl
      · rw [Noted.result_bind_ok (bitStreams_result hk), Noted.result_bind,
          Noted.result_lift]
        congr 1
        funext dataFrames
        cases dataFrames with
        | none => rfl
        | some dataFrames => rfl

/-- The slots that are left after those of a processed file are given up. -/
def Picture.left (p : Picture) : Option (List DataFrame) :=
  if p.status = statusProcessed then none else p.info.addr

theorem Slave.overrideUses_result (hk : fileIndex nFile = some k) :
    (s.overrideUses nFile).result = .ok { s with
      pictures := Function.update s.pictures k { s.pictures k with
        info := { (s.pictures k).info with addr := (s.pictures k).left } } } := by
  have hstatus : s.getStatus nFile = (s.pictures k).status := by rw [getStatus, hk]
  rw [overrideUses, Noted.result_bind_ok (statusUses_result _ _), hstatus, Picture.left]
  split
  · rw [Noted.result_bind_ok (dataFrameInfos_result hk), setInfo_result hk]
  · rw [Function.update_eq_self]
    rfl

theorem Slave.prepareUses_result {f : Frame} (hk : fileIndex f.nFile = some k) (line : Line) :
    (s.prepareUses f line).result =
      (s.pictures k).prepare line f.nFrame >>= fun slots => .ok (slots, { s with
        pictures := Function.update s.pictures k { s.pictures k with
          info := { (s.pictures k).info with addr := some slots, totalLen := f.nFrame } } }) := by
  rw [prepareUses, Noted.result_bind_ok (overrideUses_result hk),
    Noted.result_bind_ok (dataFrameInfos_result hk), Noted.result_bind, Noted.result_lift]
  simp only [Function.update_self]
  congr 1
  funext slots
  rw [Noted.result_bind, setInfo_result hk]
  simp only [Function.update_self, Function.update_idem]
  rfl

theorem Slave.sendUses_result (o : Options) (s : Slave) (f : Frame) (line : Line) :
    (s.sendUses o f line).result = s.send o f line := by
  rw [sendUses, send]
  cases hk : fileIndex f.nFile with
  | none =>
      rw [if_pos (fileIndex_none.mp hk)]
      rfl
  | some k =>
      rw [if_neg (not_le_of_fileIndex hk)]
      dsimp only
      split
      · rw [Noted.result_bind, prepareUses_result hk, Picture.receive, bind_assoc, bind_assoc]
        congr 1
        funext slots
        rw [ok_bind, bind_assoc, Noted.result_bind, Noted.result_lift]
        congr 1
        funext received
        obtain ⟨sum, slots⟩ := received
        dsimp only
        rw [Noted.result_bind_ok (dataFrameInfos_result hk),
          Noted.result_bind_ok (setInfo_result hk _)]
        split
        · rw [Noted.result_bind_ok (bitStreams_result hk), Noted.result_bind,
            Noted.result_lift, bind_assoc]
          simp only [Function.update_self, Function.update_idem]
          congr 1
          funext bitStream
          rw [Noted.result_bind_ok (setBitStream_result hk _)]
          simp only [Function.update_self, Function.update_idem]
          rfl
        · simp only [Function.update_self, Function.update_idem]
          rfl
      · rfl

/-- Without the notes a turn is a turn of the slave. -/
theorem Slave.turnUses_result (o : Options) (s : Slave) (e : Event) :
    (s.turnUses o e).result = s.turn o e := by
  rw [turnUses, turn, Noted.result_bind, Noted.result_lift]
  congr 1
  funext received
  obtain ⟨n, f⟩ := received
  dsimp only
  split
  · rfl
  · rw [handle]
    split
    · exact queryUses_result s f e.line
    · split
      · exact sendUses_result o s f e.line
      · split
        · exact recvUses_result s f e.line
        · rfl

end Results

/-! The guards of the serial mode. -/

section Guards
variable {s : Slave} {nFile : UInt32}

@[simp] theorem Slave.bitStreams_all :
    (s.bitStreams nFile).All Entry.InRange ↔ nFile.toNat < picturesNumberMax := Noted.all_note

@[simp] theorem Slave.dataFrameInfos_all :
    (s.dataFrameInfos nFile).All Entry.InRange ↔ nFile.toNat < picturesNumberMax :=
  Noted.all_note

@[simp] theorem Slave.setBitStream_all {bitStream : Data8} :
    (s.setBitStream nFile bitStream).All Entry.InRange ↔ nFile.toNat < picturesNumberMax :=
  Noted.all_note

@[simp] theorem Slave.setInfo_all {info : DataFrameInfo} :
    (s.setInfo nFile info).All Entry.InRange ↔ nFile.toNat < picturesNumberMax :=
  Noted.all_note

theorem Slave.statusUses_all (s : Slave) (nFile : UInt32) :
    (s.statusUses nFile).All Entry.InRange := by
  rw [statusUses]
  split
  · exact Noted.all_pure _
  case isFalse hguard =>
      have hrange := Nat.not_le.mp hguard
      refine (bitStreams_all.mpr hrange).bind fun bitStream _ => ?_
      split
      · exact Noted.all_pure _
      · refine (dataFrameInfos_all.mpr hrange).bind fun info _ => ?_
        split
        · exact Noted.all_pure _
        · exact Noted.all_pure _

theorem Slave.queryUses_all (s : Slave) (f : Frame) (line : Line) :
    (s.queryUses f line).All Entry.InRange := by
  have hlen : (s.lenUses f.nFile).All Entry.InRange := by
    rw [lenUses]
    split
    case isTrue hrange => exact (dataFrameInfos_all.mpr hrange).bind fun _ _ => Noted.all_pure _
    case isFalse => exact Noted.all_pure _
  exact (statusUses_all s f.nFile).bind fun _ _ => hlen.bind fun _ _ => Noted.all_pure _

theorem Slave.overrideUses_all (hrange : nFile.toNat < picturesNumberMax) :
    (s.overrideUses nFile).All Entry.InRange := by
  refine (statusUses_all s nFile).bind fun status _ => ?_
  split
  · exact (dataFrameInfos_all.mpr hrange).bind fun _ _ => setInfo_all.mpr hrange
  · exact Noted.all_pure _

theorem Slave.prepareUses_all {f : Frame} (hrange : f.nFile.toNat < picturesNumberMax)
    (line : Line) : (s.prepareUses f line).All Entry.InRange := by
  refine (overrideUses_all hrange).bind fun _ _ => ?_
  refine (dataFrameInfos_all.mpr hrange).bind fun _ _ => ?_
  refine (Noted.all_lift _).bind fun _ _ => ?_
  exact (setInfo_all.mpr hrange).bind fun _ _ => Noted.all_pure _

theorem Slave.sendUses_all (o : Options) (s : Slave) (f : Frame) (line : Line) :
    (s.sendUses o f line).All Entry.InRange := by
  rw [sendUses]
  split
  · exact Noted.all_pure _
  case isFalse hguard =>
      have hrange := Nat.not_le.mp hguard
      dsimp only
      split
      · refine (prepareUses_all hrange line).bind fun prepared _ => ?_
        refine (Noted.all_lift _).bind fun received _ => ?_
        refine (dataFrameInfos_all.mpr hrange).bind fun info _ => ?_
        refine (setInfo_all.mpr hrange).bind fun s _ => ?_
        split
        · refine (bitStreams_all.mpr hrange).bind fun bitStream _ => ?_
          refine (Noted.all_lift _).bind fun bitStream _ => ?_
          exact (setBitStream_all.mpr hrange).bind fun _ _ => Noted.all_pure _
        · exact Noted.all_pure _
      · exact Noted.all_pure _

theorem Slave.recvUses_all (s : Slave) (f : Frame) (line : Line) :
    (s.recvUses f line).All Entry.InRange := by
  rw [recvUses]
  split
  · exact Noted.all_pure _
  case isFalse hguard =>
      have hrange := Nat.not_le.mp hguard
      refine (bitStreams_all.mpr hrange).bind fun bitStream _ => ?_
      split
      · exact Noted.all_pure _
      · refine (bitStreams_all.mpr hrange).bind fun bitStream _ => ?_
        refine (Noted.all_lift _).bind fun dataFrames _ => ?_
        cases dataFrames with
        | none => exact Noted.all_pure _
        | some dataFrames => exact Noted.all_pure _

/-- No request makes the slave leave its tables. -/
theorem Slave.turnUses_all (o : Options) (s : Slave) (e : Event) :
    (s.turnUses o e).All Entry.InRange := by
  refine (Noted.all_lift _).bind fun received _ => ?_
  obtain ⟨n, f⟩ := received
  dsimp only
  split
  · exact Noted.all_pure _
  · split
    · exact queryUses_all s f e.line
    · split
      · exact sendUses_all o s f e.line
      · split
        · exact recvUses_all s f e.line
        · exact Noted.all_pure _

theorem Slave.freeUses_all (s : Slave) : s.freeUses.All Entry.InRange := by
  apply Noted.all_forM
  intro i hi
  have hrange : (UInt32.ofNat i).toNat < picturesNumberMax :=
    Nat.lt_of_le_of_lt (Nat.mod_le _ _) (List.mem_range.mp hi)
  refine (bitStreams_all.mpr hrange).bind fun _ _ => ?_
  exact (dataFrameInfos_all.mpr hrange).bind fun _ _ => Noted.all_pure _

end Guards

/-! The files of the command line have no guard. -/

/-- If the file is encoded, its number, which is `k` or what the first bytes of the block of a dump
say, has an entry. -/
def InputFile.InTables (f : InputFile) (binary : Bool) (k : Nat) : Prop :=
  ∀ ret nFile dataFrames, f.getDataFrames binary (UInt32.ofNat k) = .ok (ret, nFile, dataFrames) →
    ret ≠ 1 → ret ≠ 3 → nFile.toNat < picturesNumberMax

theorem InputFile.number_plain {f : InputFile} {n nFile : UInt32} {ret : Nat}
    {dataFrames : UInt16 × List DataFrame}
    (h : f.getDataFrames false n = .ok (ret, nFile, dataFrames)) : nFile = n := by
  rw [getDataFrames] at h
  split at h
  · cases h
    rfl
  · rw [if_neg Bool.false_ne_true] at h
    obtain ⟨⟨nFrame, frames⟩, -, h⟩ := bind_ok h
    cases frames with
    | none =>
        cases h
        rfl
    | some frames =>
        cases h
        rfl

/-- The number of a dump with a frame is the one in its first frame. -/
theorem InputFile.number_binary {f : InputFile} {n nFile : UInt32} {ret : Nat} {nFrame : UInt16}
    {dataFrames : List DataFrame}
    (h : f.getDataFrames true n = .ok (ret, nFile, nFrame, dataFrames)) (hret : ret ≠ 1)
    (hne : dataFrames ≠ []) : dataFrames.head?.map (htobe32 ·.nFile) = some nFile := by
  rw [getDataFrames] at h
  split at h
  · cases h
    exact absurd rfl hret
  · obtain ⟨⟨nFile', nFrame', frames⟩, hget, h⟩ := bind_ok h
    cases h
    cases hheap : f.heap with
    | none =>
        rw [hheap] at hget
        cases hget
    | some heap =>
        rw [hheap, getDataFramesBinary] at hget
        split at hget
        case isTrue => cases hget
        case isFalse =>
            obtain ⟨rfl, hrest⟩ := Prod.mk.inj (Except.ok.inj hget)
            obtain ⟨-, rfl⟩ := Prod.mk.inj hrest
            generalize (UInt16.ofNat (f.content.length / dataFrameSize)).toNat = count at hne ⊢
            cases count with
            | zero => exact absurd rfl hne
            | succ count => rfl

theorem Slave.fileUses_all_iff {o : Options} {binary : Bool} {s : Slave} {k : Nat} {f : InputFile}
    {malloc : Bool} :
    (s.fileUses o binary k f malloc).All Entry.InRange ↔ f.InTables binary k := by
  rw [fileUses, Noted.all_bind, InputFile.InTables, Noted.result_lift]
  constructor
  · intro ⟨_, h⟩ ret nFile dataFrames hget hone hthree
    have huses := h _ hget
    dsimp only at huses
    rw [if_neg hone, if_neg hthree, Noted.all_bind] at huses
    exact bitStreams_all.mp huses.1
  · intro h
    refine ⟨Noted.all_lift _, ?_⟩
    intro ⟨ret, nFile, nFrame, dataFrames⟩ hget
    dsimp only
    split
    · exact Noted.all_pure _
    · split
      · exact Noted.all_lift _
      case isFalse hone hthree =>
          have hrange := h ret nFile _ hget hone hthree
          refine (bitStreams_all.mpr hrange).bind fun _ _ => ?_
          refine (Noted.all_lift _).bind fun _ _ => ?_
          refine (setBitStream_all.mpr hrange).bind fun _ _ => ?_
          exact (bitStreams_all.mpr hrange).bind fun _ _ => Noted.all_pure _

/-! Whole runs of `main`. -/

/-- What `main` is at: file `k` of the command line, the first of those left, the serial line, or
its end. -/
inductive Activity where
  | files (k : Nat) (left : List InputFile)
  | serial
  | ended

/-- The slave with all uses of its tables so far. -/
structure Session where
  activity : Activity
  slave : Slave := .init
  log : List Entry := []

/-- With files on the command line, the serial line is not used. -/
def Session.init (files : List InputFile) : Session :=
  { activity := if files = [] then .serial else .files 0 files }

/-- A file is encoded, a request is handled, or the blocks are freed when no file is left. -/
inductive Act where
  | file (malloc : Bool)
  | event (e : Event)
  | free

/-- What follows a computation on the tables. -/
def Session.after {α : Type} (t : Session) (x : Uses α) (slave : α → Slave)
    (activity : Activity) : Session :=
  match x.result with
  | .error _ => { t with activity := .ended, log := t.log ++ x.log }
  | .ok a => { activity, slave := slave a, log := t.log ++ x.log }

def Session.next (o : Options) (binary : Bool) (t : Session) : Act → Option Session
  | .file malloc =>
    match t.activity with
    | .files k (f :: left) =>
      some (t.after (t.slave.fileUses o binary k f malloc) id (.files (k + 1) left))
    | _ => none
  | .event e =>
    match t.activity with
    | .serial => some (t.after (t.slave.turnUses o e) Prod.fst .serial)
    | _ => none
  | .free =>
    match t.activity with
    | .files _ [] => some (t.after t.slave.freeUses (fun _ => t.slave) .ended)
    | _ => none

def Session.Step (o : Options) (binary : Bool) (t : Session) (act : Act) (t' : Session) : Prop :=
  t.next o binary act = some t'

/-- All uses so far are in range. -/
def Session.InRange (t : Session) : Prop := ∀ a ∈ t.log, a.InRange

/-- The file that is encoded next has a number with an entry. -/
def Session.Fits (binary : Bool) (t : Session) : Act → Prop
  | .file _ =>
    match t.activity with
    | .files k (f :: _) => f.InTables binary k
    | _ => True
  | .event _ | .free => True

section Sessions
variable {o : Options} {binary : Bool} {t t' : Session} {act : Act}

theorem Session.after_log {α : Type} (t : Session) (x : Uses α) (slave : α → Slave)
    (activity : Activity) : (t.after x slave activity).log = t.log ++ x.log := by
  rw [after]
  split <;> rfl

theorem Session.after_inRange {α : Type} (h : t.InRange) (x : Uses α) (slave : α → Slave)
    (activity : Activity) : (t.after x slave activity).InRange ↔ x.All Entry.InRange := by
  rw [InRange, after_log]
  constructor
  · intro hall a ha
    exact hall a (List.mem_append_right _ ha)
  · intro hall a ha
    rcases List.mem_append.mp ha with ha | ha
    · exact h a ha
    · exact hall a ha

theorem Session.step_inRange (h : t.InRange) (hstep : t.Step o binary act t') :
    t'.InRange ↔ t.Fits binary act := by
  cases act with
  | file malloc =>
      rw [Step, next] at hstep
      split at hstep
      case h_1 k f left hactivity =>
          cases hstep
          rw [after_inRange h, Fits, hactivity]
          exact Slave.fileUses_all_iff
      case h_2 => contradiction
  | event e =>
      rw [Step, next] at hstep
      split at hstep
      · cases hstep
        rw [after_inRange h]
        exact iff_of_true (Slave.turnUses_all o t.slave e) trivial
      · contradiction
  | free =>
      rw [Step, next] at hstep
      split at hstep
      · cases hstep
        rw [after_inRange h]
        exact iff_of_true (Slave.freeUses_all t.slave) trivial
      · contradiction

theorem Session.step_serial (h : ∀ k left, t.activity ≠ .files k left)
    (hstep : t.Step o binary act t') : ∀ k left, t'.activity ≠ .files k left := by
  cases act with
  | file malloc =>
      rw [Step, next] at hstep
      split at hstep
      case h_1 hactivity => exact absurd hactivity (h _ _)
      case h_2 => contradiction
  | event e =>
      rw [Step, next] at hstep
      split at hstep
      · cases hstep
        intro k left
        rw [after]
        split
        · exact Activity.noConfusion
        · exact Activity.noConfusion
      · contradiction
  | free =>
      rw [Step, next] at hstep
      split at hstep
      case h_1 hactivity => exact absurd hactivity (h _ _)
      case h_2 => contradiction

theorem Session.init_inRange (files : List InputFile) : (init files).InRange := nofun

end Sessions

/-- All uses of the tables in a run are in range exactly when every file that is encoded has a
number with an entry. -/
theorem tables_in_range_iff {o : Options} {binary : Bool} {files : List InputFile}
    {acts : List Act} {t : Session} (hrun : Run (Session.Step o binary) (.init files) acts t) :
    Throughout (Session.Step o binary) Session.InRange (.init files) acts ↔
      EveryStep (Session.Step o binary) (Session.Fits binary) (.init files) acts := by
  refine throughout_iff_everyStep (I := fun _ => True) ?_ ?_ ?_ hrun trivial
    (Session.init_inRange files)
  · intro t act t₁ t₂ h₁ h₂
    exact Option.some.inj (h₁.symm.trans h₂)
  · intro _ _ _ _ _
    trivial
  · intro t act t' _ h hstep
    exact Session.step_inRange h hstep

/-- No run on the serial line leaves the tables. -/
theorem serial_in_range {o : Options} {binary : Bool} {acts : List Act} {t : Session}
    (hrun : Run (Session.Step o binary) (.init []) acts t) : t.InRange := by
  have hinv : (∀ k left, t.activity ≠ .files k left) ∧ t.InRange := by
    refine hrun.invariant (P := fun t => (∀ k left, t.activity ≠ .files k left) ∧ t.InRange) ?_
      ⟨nofun, Session.init_inRange []⟩
    intro t act t' ⟨hserial, h⟩ hstep
    refine ⟨Session.step_serial hserial hstep, (Session.step_inRange h hstep).mpr ?_⟩
    cases act with
    | file malloc =>
        rw [Session.Fits]
        split
        case h_1 hactivity => exact absurd hactivity (hserial _ _)
        case h_2 => trivial
    | event e => trivial
    | free => trivial
  exact hinv.2

def oneByte : InputFile := { opens := true, content := [7], block := some [zeroFrame] }

theorem Session.step_file (o : Options) (binary : Bool) (f : InputFile) (malloc : Bool) :
    (init [f]).Step o binary (.file malloc)
      ((init [f]).after (Slave.init.fileUses o binary 0 f malloc) id (.files 1 [])) := rfl

theorem tables_in_range_oneByte : ∃ t,
    Run (Session.Step dryRun false) (.init [oneByte]) [.file true] t ∧
      Throughout (Session.Step dryRun false) Session.InRange (.init [oneByte]) [.file true] := by
  have hfits : (Session.init [oneByte]).Fits false (.file true) := by
    intro ret nFile dataFrames hget _ _
    rw [InputFile.number_plain hget]
    decide
  have hrun : Run (Session.Step dryRun false) (.init [oneByte]) [.file true] _ :=
    .cons (Session.step_file dryRun false oneByte true) (.nil _)
  refine ⟨_, hrun, (tables_in_range_iff hrun).mpr ?_⟩
  exact everyStep_cons.mpr ⟨hfits, fun _ _ => everyStep_nil⟩

def frameOfEight : DataFrame := { fullFrame 0 7 with nFile := 8 }

/-- A dump whose first frame has the number 8. -/
def dumpOfEight : InputFile :=
  { opens := true, content := dumpFile [frameOfEight] 1, heap := some fun _ => 0 }

theorem dumpOfEight_number : dumpOfEight.getDataFrames true 0 =
    .ok (0, 8, 1, [frameOfEight.loaded]) := by
  have hcount : [frameOfEight].length < 65536 := by decide
  have hload : getDataFramesBinary (some fun _ => 0) (dumpFile [frameOfEight] 1) =
      .ok (htobe32 frameOfEight.loaded.nFile, 1, [frameOfEight.loaded]) :=
    getDataFramesBinary_dumpFile hcount _
  have hnumber : htobe32 frameOfEight.loaded.nFile = 8 := by
    change htobe32 (htobe32 8) = 8
    decide
  have hopens : dumpOfEight.opens = true := rfl
  have hread : getDataFramesBinary dumpOfEight.heap dumpOfEight.content =
      .ok (8, 1, [frameOfEight.loaded]) := hnumber ▸ hload
  rw [InputFile.getDataFrames, if_neg (not_not_intro hopens), if_pos rfl, hread]
  rfl

/-- The entry behind the last one is used. -/
theorem tables_left : ∃ t, Run (Session.Step dryRun true) (.init [dumpOfEight]) [.file true] t ∧
    ¬ t.InRange := by
  have hstep := Session.step_file dryRun true dumpOfEight true
  refine ⟨_, .cons hstep (.nil _), ?_⟩
  rw [Session.step_inRange (Session.init_inRange _) hstep]
  intro hfits
  exact absurd (hfits 0 8 _ dumpOfEight_number (by decide) (by decide)) (by decide)

end Soc
