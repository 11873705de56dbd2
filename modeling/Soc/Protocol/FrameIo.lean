import Soc.Protocol.Frame
import Soc.Foundation.Strings

/-!
The system calls behind a frame, and the log.

What `read` and `write` return is a signed count, which is compared with unsigned
sizes and is the size of the string for the log. The models here are the functions
with that string in its block and with what they print; without it they are those of
the frames.
-/
namespace Soc.FrameIo
open Strings Layout

inductive LogLevel where
  | info
  | debug
  deriving DecidableEq

/-- A call of `syslog`: the message and the string that is printed in it. -/
structure LogLine where
  level : LogLevel
  message : String
  str : List UInt8
  deriving DecidableEq

/-! `bin_to_str` -/

/-- A digit of `%x`. -/
def hexDigit (n : UInt8) : UInt8 := if n < 10 then 0x30 + n else 0x57 + n

/-- `"%02x "` -/
def hexText (b : UInt8) : List UInt8 := [hexDigit (b / 16), hexDigit (b % 16), 0x20]

/-- The loop of `bin_to_str` from `bin[i]` on; each string ends where the next one
begins. -/
def binToStrLoop (bin : Cells) : Nat → Nat → Cells → Except Misuse Cells
  | 0, _, str => .ok str
  | n + 1, i, str => do
      let b ← fetch bin i
      binToStrLoop bin n (i + 1) (← put str (3 * i) (hexText b ++ [0]))

/-- `bin_to_str` with its `size_t`. A string that is too large for `malloc` is written
through the null pointer. -/
def binToStr (bin : Cells) (size : UInt64) : Except Misuse Cells :=
  match malloc (size * 3 + 1) with
  | none => .error .null
  | some str => binToStrLoop bin size.toNat 0 str

/-! `receive_frame`, `write_frame` and `write_data_frame` -/

/-- A `ssize_t` where a `size_t` is wanted. -/
def toSize (n : Int) : UInt64 := UInt64.ofInt n

/-- `receive_frame` after `read` returned `n`, with what is in the buffer then. -/
def receiveRead (temp : Cells) (n : Int) (frame : Frame) :
    Except Misuse (Int × Frame × LogLine) := do
  let str ← binToStr temp (toSize n)
  if (toSize n).toNat < frameSize then
    return (-2, frame, { level := .info, message := "receive not enough: ", str := ← text str })
  let image ← fetchAll temp frameSize
  if crc16 (image.take (frameSize - 2)) ≠ (Frame.layout.load image).checkSum then
    return (-3, frame, { level := .info, message := "receive incorrect CRC: ", str := ← text str })
  return (n, (Frame.layout.load image).swapped,
    { level := .info, message := "receive correctly: ", str := ← text str })

/-- `receive_frame`. `num` is what `epoll_wait` returns, and `delivered` what `read` puts
into the buffer, `none` being its `-1`. -/
def receiveFrame (num : Int) (delivered : Option (List UInt8)) (timeout : Int) (frame : Frame) :
    Except Misuse (Int × Frame × LogLine) :=
  if num < 1 then
    .ok (-1, frame, { level := .info, message := s!"timeout overrun {timeout} ms", str := [] })
  else
    match delivered with
    | none => receiveRead (List.replicate frameSize none) (-1) frame
    | some bytes =>
        receiveRead (bytes.map some ++ List.replicate (frameSize - bytes.length) none)
          bytes.length frame

/-- What `write_frame` and `write_data_frame` have in common. `count` is what `write`
returns, `none` being its `-1`; `err` ends the program without a value. -/
def writeImage (level : LogLevel) (image : List UInt8) (count : Option Nat) :
    Except Misuse (Option (Int × LogLine)) := do
  let n : Int := count.elim (-1) fun n => n
  if (toSize n).toNat < image.length then return none
  let str ← binToStr (image.map some) (toSize n)
  return some (n, { level, message := "send: ", str := ← text str })

/-- `write_frame` -/
def writeFrame (frame : Frame) (count : Option Nat) : Except Misuse (Option (Int × LogLine)) :=
  writeImage .info (Soc.writeFrame frame) count

/-- `write_data_frame` -/
def writeDataFrame (frame : DataFrame) (count : Option Nat) :
    Except Misuse (Option (Int × LogLine)) :=
  writeImage .debug (Soc.writeDataFrame frame) count

/-! What the string holds. -/

theorem hexDigit_ne {n : UInt8} (h : n.toNat < 16) : hexDigit n ≠ 0 := by
  intro hzero
  have hnat := congrArg UInt8.toNat hzero
  have hzero' : UInt8.toNat 0 = 0 := rfl
  have hdigit : UInt8.toNat 0x30 = 0x30 := rfl
  have hletter : UInt8.toNat 0x57 = 0x57 := rfl
  rw [hexDigit, hzero'] at hnat
  split at hnat
  · rw [UInt8.toNat_add, hdigit] at hnat
    omega
  · rw [UInt8.toNat_add, hletter] at hnat
    omega

theorem hexText_ne (b : UInt8) : 0 ∉ hexText b := by
  have hb := b.toNat_lt
  have hhigh : (b / 16).toNat < 16 := by
    rw [UInt8.toNat_div]
    change b.toNat / 16 < 16
    omega
  have hlow : (b % 16).toNat < 16 := by
    rw [UInt8.toNat_mod]
    exact Nat.mod_lt _ (Nat.succ_pos 15)
  simp [hexText, (hexDigit_ne hhigh).symm, (hexDigit_ne hlow).symm]

theorem hexText_length (b : UInt8) : (hexText b).length = 3 := rfl

/-- A turn of the loop writes the text of a byte over the last zero byte, and a zero byte. -/
theorem binToStrLoop_turn {bytes : List UInt8} {rest tail : Cells} {i : Nat}
    (hi : i < bytes.length) {t : List UInt8} (ht : t.length = 3 * i) (htail : 4 ≤ tail.length)
    (n : Nat) :
    binToStrLoop (bytes.map some ++ rest) (n + 1) i (t.map some ++ tail) =
      binToStrLoop (bytes.map some ++ rest) n (i + 1)
        ((t ++ hexText bytes[i]).map some ++ some 0 :: tail.drop 4) := by
  have hput : put (t.map some ++ tail) t.length (hexText bytes[i] ++ [0]) =
      .ok ((t ++ (hexText bytes[i] ++ [0])).map some ++ tail.drop 4) := put_behind htail
  have hzero : (t ++ (hexText bytes[i] ++ [0])).map some ++ tail.drop 4 =
      (t ++ hexText bytes[i]).map some ++ some 0 :: tail.drop 4 := by
    rw [← List.append_assoc, List.map_append, List.append_assoc]
    rfl
  rw [ht] at hput
  rw [binToStrLoop, fetch_written hi]
  change (put _ (3 * i) _ >>= binToStrLoop _ n (i + 1)) = _
  rw [hput, ← hzero]
  rfl

/-- The loop writes the text of the rest of the bytes. -/
theorem binToStrLoop_written {bytes : List UInt8} {rest : Cells} {n i : Nat}
    (h : i + n = bytes.length) {t : List UInt8} (ht : t.length = 3 * i) {tail : Cells}
    (htail : tail.length = 3 * n + 1) :
    binToStrLoop (bytes.map some ++ rest) n i (t.map some ++ tail) =
      .ok ((t ++ (bytes.drop i).flatMap hexText).map some ++
        if n = 0 then tail else [some 0]) := by
  induction n generalizing i t tail with
  | zero =>
      rw [Nat.add_zero] at h
      rw [h, List.drop_length, List.flatMap_nil, List.append_nil]
      rfl
  | succ n ih =>
      have hi : i < bytes.length := by omega
      have hnext : (t ++ hexText bytes[i]).length = 3 * (i + 1) := by
        rw [List.length_append, ht, hexText_length, Nat.mul_succ]
      have htail' : (some 0 :: tail.drop 4).length = 3 * n + 1 := by
        rw [List.length_cons, List.length_drop]
        omega
      rw [binToStrLoop_turn hi ht (by omega), ih (by omega) hnext htail',
        List.drop_eq_getElem_cons hi, List.flatMap_cons, List.append_assoc,
        if_neg (Nat.succ_ne_zero n)]
      congr 2
      split
      · next hlast => 
        rw [List.drop_of_length_le (by omega)]
      · rfl

theorem toSize_natCast {n : Nat} (h : n < 2 ^ 64) : (toSize n).toNat = n := by
  have hmod : (n : Int) % 2 ^ 64 = n := Int.emod_eq_of_lt (Int.natCast_nonneg n) (by omega)
  rw [toSize, UInt64.ofInt, hmod, Int.toNat_natCast]
  exact UInt64.toNat_ofNat_of_lt' h

/-- The string of what is there has the text of it. -/
theorem binToStr_text {bytes : List UInt8} (h : bytes ≠ []) (hlt : bytes.length < 2 ^ 32)
    (rest : Cells) :
    ∃ str, binToStr (bytes.map some ++ rest) (toSize bytes.length) = .ok str ∧
      text str = .ok (bytes.flatMap hexText) := by
  have hsize : (toSize bytes.length).toNat = bytes.length := toSize_natCast (by omega)
  have halloc : (toSize bytes.length * 3 + 1).toNat = 3 * bytes.length + 1 := by
    rw [UInt64.toNat_add, UInt64.toNat_mul, hsize]
    change (bytes.length * 3 % 2 ^ 64 + 1) % 2 ^ 64 = _
    omega
  have hmalloc : malloc (toSize bytes.length * 3 + 1) =
      some (List.replicate (3 * bytes.length + 1) none) := by
    rw [malloc, halloc, if_pos (by omega)]
  have hloop : binToStrLoop (bytes.map some ++ rest) bytes.length 0
      (([] : List UInt8).map some ++ List.replicate (3 * bytes.length + 1) none) = _ :=
    binToStrLoop_written (Nat.zero_add _) rfl List.length_replicate
  rw [if_neg (mt List.length_eq_zero_iff.mp h)] at hloop
  refine ⟨_, ?_, text_written ?_ []⟩
  · rw [binToStr, hmalloc, hsize]
    exact hloop
  · intro hmem
    obtain ⟨b, -, hb⟩ := List.mem_flatMap.mp hmem
    exact hexText_ne b hb

/-- The error of a system call is the largest size. -/
theorem binToStr_error (bin : Cells) : binToStr bin (toSize (-1)) = .error .null := rfl

/-! The outcomes of `receive_frame`. -/

section Receive
variable {num : Int} {timeout : Int} {frame : Frame} {bytes : List UInt8}

theorem receive_timeout (h : num < 1) (delivered : Option (List UInt8)) :
    ∃ log, receiveFrame num delivered timeout frame = .ok (-1, frame, log) ∧ log.str = [] :=
  ⟨_, if_pos h, rfl⟩

theorem receive_error (h : ¬ num < 1) :
    receiveFrame num none timeout frame = .error .null := by
  rw [receiveFrame, if_neg h]
  rfl

/-- Without a byte there is no zero byte either. -/
theorem receive_empty (h : ¬ num < 1) :
    receiveFrame num (some []) timeout frame = .error .unwritten := by
  rw [receiveFrame, if_neg h]
  rfl

theorem receive_some (timeout : Int) (frame : Frame) (h : ¬ num < 1) (hbytes : bytes ≠ [])
    (hlength : bytes.length ≤ frameSize) :
    ∃ n f log, receiveFrame num (some bytes) timeout frame = .ok (n, f, log) ∧
      log.str = bytes.flatMap hexText ∧
      (n, f) = if bytes.length < frameSize then ((-2 : Int), frame)
        else if crc16 (bytes.take (frameSize - 2)) ≠ (Frame.layout.load bytes).checkSum then
          (-3, frame)
        else (bytes.length, (Frame.layout.load bytes).swapped) := by
  have hframe : frameSize = 12 := rfl
  obtain ⟨str, hstr, htext⟩ := binToStr_text hbytes (by omega)
    (List.replicate (frameSize - bytes.length) none)
  have hsize : (toSize bytes.length).toNat = bytes.length := toSize_natCast (by omega)
  rw [receiveFrame, if_neg h]
  simp only [receiveRead, hstr, hsize, htext, bind, Except.bind, pure, Except.pure]
  by_cases hshort : bytes.length < frameSize
  · simp only [if_pos hshort]
    exact ⟨_, _, _, rfl, rfl, rfl⟩
  · have himage : fetchAll (bytes.map some ++ List.replicate (frameSize - bytes.length) none)
        frameSize = .ok bytes := by
      rw [fetchAll_written (Nat.not_lt.mp hshort), List.take_of_length_le hlength]
    simp only [if_neg hshort, himage]
    split
    · exact ⟨_, _, _, rfl, rfl, rfl⟩
    · exact ⟨_, _, _, rfl, rfl, rfl⟩

end Receive

/-- A positive value is returned exactly for a frame that is there and right; any other value
is negative and leaves the caller's frame alone. What is printed is what was delivered. -/
def Classifies (num : Int) (delivered : Option (List UInt8)) (timeout : Int) (frame : Frame) :
    Prop :=
  ∃ n f log, receiveFrame num delivered timeout frame = .ok (n, f, log) ∧
    (0 < n ↔ 1 ≤ num ∧ ∃ bytes, delivered = some bytes ∧ bytes.length = frameSize ∧
      crc16 (bytes.take (frameSize - 2)) = (Frame.layout.load bytes).checkSum) ∧
    (n ≤ 0 → n < 0 ∧ f = frame) ∧
    log.str = if num < 1 then [] else (delivered.getD []).flatMap hexText

/-- A frame is sent normally only as a whole. `count` is at most what `write` is given. -/
def WritesWhole : Prop :=
  (∀ frame count, (∀ k ∈ count, k ≤ frameSize) →
    ∀ n log, writeFrame frame count = .ok (some (n, log)) → count = some frameSize) ∧
  (∀ frame count, (∀ k ∈ count, k ≤ dataFrameSize) →
    ∀ n log, writeDataFrame frame count = .ok (some (n, log)) → count = some dataFrameSize)

theorem writeImage_whole {level : LogLevel} {image : List UInt8} {count : Option Nat}
    (hcount : ∀ k ∈ count, k ≤ image.length) (hlength : image.length < 2 ^ 32) {n : Int}
    {log : LogLine} (h : writeImage level image count = .ok (some (n, log))) :
    count = some image.length := by
  cases count with
  | none =>
      -- `-1` is no smaller than the frame, and there is no string of that size
      have hlarge : ¬ (toSize (-1)).toNat < image.length := by
        change ¬ 2 ^ 64 - 1 < image.length
        omega
      have hrun : writeImage level image none = .error .null := by
        simp only [writeImage, Option.elim_none, binToStr_error]
        exact if_neg hlarge
      rw [hrun] at h
      contradiction
  | some k =>
      have hle := hcount k rfl
      have hsize : (toSize k).toNat = k := toSize_natCast (by omega)
      by_cases hshort : k < image.length
      · have hrun : writeImage level image (some k) = .ok none := by
          simp only [writeImage, Option.elim_some, hsize, if_pos hshort]
          rfl
        rw [hrun] at h
        cases h
      · rw [Nat.le_antisymm hle (Nat.not_lt.mp hshort)]

theorem writesWhole : WritesWhole := by
  constructor
  · intro frame count hcount n log h
    rw [← writeFrame_length frame] at hcount ⊢
    exact writeImage_whole hcount (by rw [writeFrame_length]; decide) h
  · intro frame count hcount n log h
    rw [← writeDataFrame_length frame] at hcount ⊢
    exact writeImage_whole hcount (by rw [writeDataFrame_length]; decide) h

section Classify
variable {num timeout : Int} {frame : Frame}

theorem classifies_timeout (h : num < 1) (delivered : Option (List UInt8)) :
    Classifies num delivered timeout frame := by
  obtain ⟨log, hrun, hstr⟩ := receive_timeout h delivered
  refine ⟨_, _, log, hrun, ?_, fun _ => ⟨by decide, rfl⟩, ?_⟩
  · exact iff_of_false (by decide) fun hnum => absurd h (Int.not_lt.mpr hnum.1)
  · rw [hstr, if_pos h]

theorem classifies_some (h : ¬ num < 1) {bytes : List UInt8} (hbytes : bytes ≠ [])
    (hlength : bytes.length ≤ frameSize) : Classifies num (some bytes) timeout frame := by
  have hframe : frameSize = 12 := rfl
  obtain ⟨n, f, log, hrun, hstr, hvalue⟩ := receive_some timeout frame h hbytes hlength
  have hprinted : log.str = if num < 1 then [] else ((some bytes).getD []).flatMap hexText := by
    rw [hstr, if_neg h]
    rfl
  have hnum : 1 ≤ num := Int.not_lt.mp h
  split at hvalue
  · next hshort =>
    obtain ⟨rfl, rfl⟩ := Prod.mk.inj hvalue
    refine ⟨_, _, log, hrun, iff_of_false (by decide) ?_, fun _ => ⟨by decide, rfl⟩, hprinted⟩
    rintro ⟨_, _, heq, hwhole, _⟩
    obtain rfl := Option.some.inj heq
    omega
  · next hwhole =>
    split at hvalue
    · next hsum =>
      obtain ⟨rfl, rfl⟩ := Prod.mk.inj hvalue
      refine ⟨_, _, log, hrun, iff_of_false (by decide) ?_, fun _ => ⟨by decide, rfl⟩, hprinted⟩
      rintro ⟨_, _, heq, _, hsum'⟩
      obtain rfl := Option.some.inj heq
      exact hsum hsum'
    · next hsum =>
      obtain ⟨rfl, rfl⟩ := Prod.mk.inj hvalue
      refine ⟨_, _, log, hrun, iff_of_true (by omega) ?_, fun hn => absurd hn (by omega), hprinted⟩
      exact ⟨hnum, bytes, rfl, by omega, Decidable.not_not.mp hsum⟩

end Classify

/-- Frames are read and written as they should be exactly when `read` has a byte, or is not
called. -/
theorem frame_io_iff {num : Int} {delivered : Option (List UInt8)} (timeout : Int)
    (frame : Frame) (hread : ∀ bytes ∈ delivered, bytes.length ≤ frameSize) :
    Classifies num delivered timeout frame ∧ WritesWhole ↔
      num < 1 ∨ ∃ bytes, delivered = some bytes ∧ bytes ≠ [] := by
  rw [and_iff_left writesWhole]
  by_cases h : num < 1
  · exact iff_of_true (classifies_timeout h delivered) (.inl h)
  · rw [or_iff_right h]
    constructor
    · intro ⟨n, f, log, hrun, _⟩
      match delivered with
      | none =>
          rw [receive_error h] at hrun
          contradiction
      | some [] =>
          rw [receive_empty h] at hrun
          contradiction
      | some (b :: bytes) => exact ⟨_, rfl, List.cons_ne_nil b bytes⟩
    · rintro ⟨bytes, rfl, hbytes⟩
      exact classifies_some h hbytes (hread bytes rfl)

/-- A whole frame with its check sum. -/
theorem frame_io_whole :
    Classifies 1 (some (Soc.writeFrame { address := addressSlave })) 1000 {} ∧ WritesWhole := by
  have hlength := writeFrame_length { address := addressSlave }
  refine (frame_io_iff 1000 {} ?_).mpr (.inr ⟨_, rfl, ?_⟩)
  · intro bytes hbytes
    obtain rfl := Option.some.inj hbytes
    exact hlength.le
  · refine List.ne_nil_of_length_pos ?_
    rw [hlength]
    decide

/-- `read` fails, and the program writes through the null pointer. -/
theorem receive_read_failed : ¬ (Classifies 1 none 1000 {} ∧ WritesWhole) := by
  intro ⟨⟨n, f, log, hrun, _⟩, _⟩
  rw [receive_error (by decide)] at hrun
  contradiction

/-! The frames themselves. -/

/-- A call that returns returns what it does without its log. -/
theorem receiveFrame_refines {num : Int} {delivered : Option (List UInt8)} {timeout : Int}
    {frame f : Frame} {n : Int} {log : LogLine}
    (hread : ∀ bytes ∈ delivered, bytes.length ≤ frameSize)
    (h : receiveFrame num delivered timeout frame = .ok (n, f, log)) :
    Soc.receiveFrame (1 ≤ num) delivered frame = .ok (n, f) := by
  by_cases hnum : num < 1
  · have hready : decide (1 ≤ num) = false := decide_eq_false (Int.not_le.mpr hnum)
    obtain ⟨_, hrun, _⟩ := receive_timeout hnum delivered
    rw [hrun] at h
    cases h
    rw [hready]
    rfl
  · have hready : decide (1 ≤ num) = true := decide_eq_true (Int.not_lt.mp hnum)
    rw [hready]
    match delivered, h, hread with
    | none, h, _ =>
        rw [receive_error hnum] at h
        contradiction
    | some [], h, _ =>
        rw [receive_empty hnum] at h
        contradiction
    | some (b :: bytes), h, hread =>
        obtain ⟨n', f', _, hrun, _, hvalue⟩ :=
          receive_some timeout frame hnum (List.cons_ne_nil b bytes) (hread _ rfl)
        rw [hrun] at h
        cases h
        rw [Soc.receiveFrame, if_pos rfl, hvalue, apply_ite Except.ok, apply_ite Except.ok]

end Soc.FrameIo
