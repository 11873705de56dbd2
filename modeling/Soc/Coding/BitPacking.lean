import Mathlib.Algebra.Order.Floor.Div
import Mathlib.Order.Bounds.Defs
import Soc.Coding.BitOutputStream
import Soc.Foundation.Noted

/-!
The stores of `BitOutputStream`.

Here the class has all of its fields, and a byte goes to the address `data_addr + size`. A run
comes with the calls of `write`, each on the object as it finds it, and with the stores, so that
what was stored, where and how often is read off the run. Without them it is the stream whose
bytes are a list.
-/
namespace Soc
open BitString

/-- The fields of the class. Addresses and the `size_t` are plain numbers: the block behind
`data_addr` ends before either wraps around. -/
structure BitOutputStream.Fields where
  currentByte : BitVec 32
  numBitsFilled : Nat
  dataAddr : Nat
  size : Nat
  deriving DecidableEq

namespace BitOutputStream.Fields

/-- A call of `write`, or the store of a byte. -/
inductive Act where
  | call (out : Fields) (b : Int)
  | store (addr : Nat) (byte : UInt8)
  deriving DecidableEq

abbrev Acts : Type → Type := Noted Act Fault

def new (dataAddr : Nat) : Fields := ⟨0, 0, dataAddr, 0⟩

def write (charIsSigned : Bool) (out : Fields) (b : Int) : Acts Fields := do
  .note (.call out b) (.ok ())
  if b ≠ 0 ∧ b ≠ 1 then .lift (.error .domainError)
  else
    let out := { out with
      currentByte := (out.currentByte <<< 1) ||| BitVec.ofInt 32 b
      numBitsFilled := out.numBitsFilled + 1 }
    if out.numBitsFilled = 8 then do
      let byte := ⟨(charValue charIsSigned out.currentByte).setWidth 8⟩
      .note (.store (out.dataAddr + out.size) byte) (.ok ())
      pure { out with size := out.size + 1, currentByte := 0, numBitsFilled := 0 }
    else pure out

/-- `while (numBitsFilled != 0) write(0)`, with a bound on the turns. -/
def finishLoop (charIsSigned : Bool) : Nat → Fields → Acts Fields
  | fuel, out =>
    if out.numBitsFilled = 0 then pure out
    else match fuel with
      | 0 => .lift (.error .unfinished)
      | fuel + 1 => do finishLoop charIsSigned fuel (← write charIsSigned out 0)

def finish (charIsSigned : Bool) (out : Fields) : Acts Fields :=
  finishLoop charIsSigned 8 out

/-- One call of `write` for each bit. -/
def writeBits (charIsSigned : Bool) : List Bool → Fields → Acts Fields
  | [], out => pure out
  | b :: bits, out => do writeBits charIsSigned bits (← write charIsSigned out b.toNat)

/-- All bits of a sequence, then `finish`. -/
def pack (charIsSigned : Bool) (dataAddr : Nat) (bits : List Bool) : Acts Fields := do
  finish charIsSigned (← writeBits charIsSigned bits (new dataAddr))

/-- The stores among the acts, with their addresses. -/
def stores (acts : List Act) : List (Nat × UInt8) :=
  acts.filterMap fun
    | .call _ _ => none
    | .store addr byte => some (addr, byte)

/-- How often `write` was called. -/
def calls (acts : List Act) : Nat :=
  acts.countP fun
    | .call _ _ => true
    | .store _ _ => false

/-- Bytes with consecutive addresses. -/
def consecutive (addr : Nat) (bytes : List UInt8) : List (Nat × UInt8) :=
  bytes.mapIdx fun i byte => (addr + i, byte)

/-- The `int` is one that a byte can hold. -/
def InByte (out : Fields) : Prop := 0 ≤ out.currentByte.toInt ∧ out.currentByte.toInt ≤ 255

/-- An object that `write` is called on is in the range of one byte. -/
def Act.InByte : Act → Prop
  | .call out _ => out.InByte
  | .store _ _ => True

/-! Without its acts the object is the stream. -/

/-- The stream of an object that has stored some bytes. -/
def stream (out : Fields) (data : List UInt8) : BitOutputStream :=
  ⟨out.currentByte, out.numBitsFilled, data⟩

theorem stream_filled (out : Fields) (data : List UInt8) :
    (out.stream data).numBitsFilled = out.numBitsFilled := rfl

/-- The bytes of the stores. -/
def stored (acts : List Act) : List UInt8 := (stores acts).map Prod.snd

theorem stores_append (acts acts' : List Act) :
    stores (acts ++ acts') = stores acts ++ stores acts' := List.filterMap_append

theorem stored_append (acts acts' : List Act) :
    stored (acts ++ acts') = stored acts ++ stored acts' := by
  rw [stored, stores_append, List.map_append]
  rfl

theorem calls_append (acts acts' : List Act) :
    calls (acts ++ acts') = calls acts + calls acts' := List.countP_append

section Stores
variable (acts : List Act) (out : Fields) (b : Int) (addr : Nat) (byte : UInt8)

theorem stores_call : stores (acts ++ [.call out b]) = stores acts := by
  rw [stores_append]
  exact List.append_nil _

theorem stored_call : stored (acts ++ [.call out b]) = stored acts :=
  congrArg (List.map Prod.snd) (stores_call acts out b)

theorem stores_store :
    stores (acts ++ [.call out b, .store addr byte]) = stores acts ++ [(addr, byte)] := by
  rw [stores_append]
  rfl

theorem stored_store :
    stored (acts ++ [.call out b, .store addr byte]) = stored acts ++ [byte] := by
  rw [stored_append]
  rfl

end Stores

/-- The bits gathered by one more call. -/
def gathered (out : Fields) (b : Int) : BitVec 32 :=
  (out.currentByte <<< 1) ||| BitVec.ofInt 32 b

section Write
variable {out : Fields} {b : Int}

theorem write_other (charIsSigned : Bool) (h : b ≠ 0 ∧ b ≠ 1) :
    write charIsSigned out b = ⟨[.call out b], .error .domainError⟩ := by
  rw [write, if_pos h]
  rfl

theorem write_full (charIsSigned : Bool) (h : ¬ (b ≠ 0 ∧ b ≠ 1))
    (hfull : out.numBitsFilled + 1 = 8) :
    write charIsSigned out b =
      ⟨[.call out b, .store (out.dataAddr + out.size)
          ⟨(charValue charIsSigned (out.gathered b)).setWidth 8⟩],
        .ok ⟨0, 0, out.dataAddr, out.size + 1⟩⟩ := by
  rw [write, if_neg h]
  dsimp only
  rw [if_pos hfull]
  rfl

theorem write_room (charIsSigned : Bool) (h : ¬ (b ≠ 0 ∧ b ≠ 1))
    (hroom : out.numBitsFilled + 1 ≠ 8) :
    write charIsSigned out b =
      ⟨[.call out b],
        .ok ⟨out.gathered b, out.numBitsFilled + 1, out.dataAddr, out.size⟩⟩ := by
  rw [write, if_neg h]
  dsimp only
  rw [if_neg hroom]
  rfl

theorem write_next (charIsSigned : Bool) (out : Fields) (h : ¬ (b ≠ 0 ∧ b ≠ 1)) :
    ∃ out', (write charIsSigned out b).result = .ok out' ∧
      out'.numBitsFilled = if out.numBitsFilled + 1 = 8 then 0 else out.numBitsFilled + 1 := by
  by_cases hfull : out.numBitsFilled + 1 = 8
  · rw [write_full charIsSigned h hfull, if_pos hfull]
    exact ⟨_, rfl, rfl⟩
  · rw [write_room charIsSigned h hfull, if_neg hfull]
    exact ⟨_, rfl, rfl⟩

end Write

/-- The platform's `char` does not matter: what is stored is the low byte. -/
theorem write_char (charIsSigned : Bool) (out : Fields) (b : Int) :
    write charIsSigned out b = write false out b := by
  have hbyte : ∀ v : BitVec 32, UInt8.ofBitVec ((charValue charIsSigned v).setWidth 8) =
      UInt8.ofBitVec ((charValue false v).setWidth 8) := by
    intro v
    rw [← UInt8.toNat_inj, charValue_byte, charValue_byte]
  by_cases h : b ≠ 0 ∧ b ≠ 1
  · rw [write_other charIsSigned h, write_other false h]
  · by_cases hfull : out.numBitsFilled + 1 = 8
    · rw [write_full charIsSigned h hfull, write_full false h hfull, hbyte]
    · rw [write_room charIsSigned h hfull, write_room false h hfull]

/-- A run is one of the stream, with what it stored behind the bytes from before. -/
def Refines (data : List UInt8) (x : Acts Fields) (y : Except Fault BitOutputStream) : Prop :=
  x.result.map (stream · (data ++ stored x.log)) = y

theorem Refines.pure (out : Fields) (data : List UInt8) :
    Refines data (pure out) (.ok (out.stream data)) := by
  change Except.ok (out.stream (data ++ [])) = _
  rw [List.append_nil]

theorem Refines.bind {data : List UInt8} {x : Acts Fields} {y : Except Fault BitOutputStream}
    {f : Fields → Acts Fields} {g : BitOutputStream → Except Fault BitOutputStream}
    (h : Refines data x y) (hf : ∀ out, Refines (data ++ stored x.log) (f out)
      (g (out.stream (data ++ stored x.log)))) : Refines data (x >>= f) (y >>= g) := by
  rw [Refines, Noted.result_bind, ← h]
  cases hx : x.result with
  | error e => rfl
  | ok out =>
      rw [Noted.log_bind_ok hx, stored_append, ← List.append_assoc]
      exact hf out

theorem write_refines (charIsSigned : Bool) (out : Fields) (b : Int) (data : List UInt8) :
    Refines data (write charIsSigned out b)
      (BitOutputStream.write charIsSigned (out.stream data) b) := by
  by_cases h : b ≠ 0 ∧ b ≠ 1
  · rw [write_other charIsSigned h, BitOutputStream.write, if_pos h]
    rfl
  · rw [BitOutputStream.write, if_neg h]
    dsimp only
    rw [stream_filled]
    by_cases hfull : out.numBitsFilled + 1 = 8
    · rw [write_full charIsSigned h hfull, if_pos hfull]
      rfl
    · rw [write_room charIsSigned h hfull, if_neg hfull, Refines]
      simp [Except.map, stored, stores, stream, gathered]

theorem finishLoop_refines (charIsSigned : Bool) (fuel : Nat) (out : Fields) (data : List UInt8) :
    Refines data (finishLoop charIsSigned fuel out)
      (BitOutputStream.finishLoop charIsSigned fuel (out.stream data)) := by
  induction fuel generalizing out data with
  | zero =>
      rw [finishLoop, BitOutputStream.finishLoop, stream_filled]
      split
      · exact .pure out data
      · rfl
  | succ fuel ih =>
      rw [finishLoop, BitOutputStream.finishLoop, stream_filled]
      split
      · exact .pure out data
      · exact (write_refines charIsSigned out 0 data).bind fun out' => ih out' _

theorem writeBits_refines (charIsSigned : Bool) (bits : List Bool) (out : Fields)
    (data : List UInt8) : Refines data (writeBits charIsSigned bits out)
      (bits.foldlM (fun s b => s.write charIsSigned b.toNat) (out.stream data)) := by
  induction bits generalizing out data with
  | nil => exact .pure out data
  | cons b bits ih =>
      rw [writeBits, List.foldlM_cons]
      exact (write_refines charIsSigned out b.toNat data).bind fun out' => ih out' _

/-- Writing bits and finishing, with the acts or without them. -/
theorem pack_refines (charIsSigned : Bool) (dataAddr : Nat) (bits : List Bool) :
    Refines [] (pack charIsSigned dataAddr bits)
      (bits.foldlM (fun s b => s.write charIsSigned b.toNat) BitOutputStream.new >>=
        BitOutputStream.finish charIsSigned) :=
  (writeBits_refines charIsSigned bits (new dataAddr) []).bind fun out =>
    finishLoop_refines charIsSigned 8 out _

/-! What a run has done. -/

/-- The acts and the object after some bits. -/
structure Packed (dataAddr : Nat) (bits : List Bool) (acts : List Act) (out : Fields) : Prop where
  wellFormed : (out.stream (stored acts)).WellFormed
  bits : (out.stream (stored acts)).bits = bits
  addr : out.dataAddr = dataAddr
  size : out.size = (stored acts).length
  stores : stores acts = consecutive dataAddr (stored acts)
  inByte : ∀ act ∈ acts, act.InByte

theorem new_packed (dataAddr : Nat) : Packed dataAddr [] [] (new dataAddr) :=
  ⟨new_wellFormed, new_bits, rfl, rfl, rfl, nofun⟩

section Packed
variable {dataAddr : Nat} {bits : List Bool} {acts : List Act} {out : Fields}

theorem Packed.filled (h : Packed dataAddr bits acts out) :
    8 * out.size + out.numBitsFilled = bits.length := by
  rw [h.size, ← h.bits, bits_length]
  rfl

/-- Only seven bits of the byte are in use between two calls. -/
theorem Packed.object_inByte (h : Packed dataAddr bits acts out) : out.InByte := by
  have hfilled : out.numBitsFilled < 8 := h.wellFormed.filled
  have hcurrent : out.currentByte.toNat < 2 ^ out.numBitsFilled := h.wellFormed.current
  have hlt : out.currentByte.toNat < 2 ^ 7 :=
    Nat.lt_of_lt_of_le hcurrent (Nat.pow_le_pow_right (by decide) (by omega))
  rw [InByte, BitVec.toInt_eq_toNat_of_lt (by omega)]
  omega

theorem consecutive_append (addr : Nat) (bytes : List UInt8) (byte : UInt8) :
    consecutive addr (bytes ++ [byte]) =
      consecutive addr bytes ++ [(addr + bytes.length, byte)] := by
  rw [consecutive, List.mapIdx_append]
  simp [consecutive]

/-- One more bit. -/
theorem Packed.write (h : Packed dataAddr bits acts out) (charIsSigned b : Bool) :
    ∃ out', (Fields.write charIsSigned out b.toNat).result = .ok out' ∧
      Packed dataAddr (bits ++ [b]) (acts ++ (Fields.write charIsSigned out b.toNat).log) out' ∧
      calls (Fields.write charIsSigned out b.toNat).log = 1 := by
  obtain ⟨s, hrun, wf, hbits⟩ := write_bits h.wellFormed charIsSigned b
  have hguard : ¬ ((b.toNat : Int) ≠ 0 ∧ (b.toNat : Int) ≠ 1) := by cases b <;> decide
  have hrefines := write_refines charIsSigned out b.toNat (stored acts)
  rw [hrun, Refines, ← stored_append] at hrefines
  rw [h.bits] at hbits
  by_cases hfull : out.numBitsFilled + 1 = 8
  · rw [write_full charIsSigned hguard hfull] at hrefines ⊢
    obtain rfl := Except.ok.inj hrefines
    refine ⟨_, rfl, ⟨wf, hbits, h.addr, ?_, ?_, ?_⟩, rfl⟩
    · rw [stored_store, List.length_append, ← h.size]
      rfl
    · rw [stored_store, stores_store, h.stores, h.addr, h.size, consecutive_append]
    · exact List.forall_mem_append.mpr ⟨h.inByte, List.forall_mem_cons.mpr
        ⟨h.object_inByte, List.forall_mem_singleton.mpr trivial⟩⟩
  · rw [write_room charIsSigned hguard hfull] at hrefines ⊢
    obtain rfl := Except.ok.inj hrefines
    refine ⟨_, rfl, ⟨wf, hbits, h.addr, ?_, ?_, ?_⟩, rfl⟩
    · rw [stored_call]
      exact h.size
    · rw [stored_call, stores_call]
      exact h.stores
    · exact List.forall_mem_append.mpr
        ⟨h.inByte, List.forall_mem_singleton.mpr h.object_inByte⟩

/-- Any number of bits, each by a call of its own. -/
theorem Packed.writeBits (h : Packed dataAddr bits acts out) (charIsSigned : Bool)
    (more : List Bool) : ∃ out', (Fields.writeBits charIsSigned more out).result = .ok out' ∧
      Packed dataAddr (bits ++ more) (acts ++ (Fields.writeBits charIsSigned more out).log) out' ∧
      calls (Fields.writeBits charIsSigned more out).log = more.length := by
  induction more generalizing bits acts out with
  | nil =>
      refine ⟨out, rfl, ?_, rfl⟩
      have hlog : (Fields.writeBits charIsSigned [] out).log = [] := rfl
      rw [hlog, List.append_nil, List.append_nil]
      exact h
  | cons b more ih =>
      obtain ⟨out₁, hrun₁, h₁, hcalls₁⟩ := h.write charIsSigned b
      obtain ⟨out₂, hrun₂, h₂, hcalls₂⟩ := ih h₁
      rw [Fields.writeBits, Noted.result_bind_ok hrun₁, Noted.log_bind_ok hrun₁]
      refine ⟨out₂, hrun₂, ?_, ?_⟩
      · rw [List.append_assoc, List.append_assoc] at h₂
        exact h₂
      · rw [calls_append, hcalls₁, hcalls₂, List.length_cons, Nat.add_comm]

/-- How many bits the byte at hand still takes. -/
def missing (out : Fields) : Nat := (8 - out.numBitsFilled) % 8

/-- `finish` is as many calls of `write` as the byte at hand has bits missing. -/
theorem finishLoop_eq (charIsSigned : Bool) {fuel : Nat} (hfilled : out.numBitsFilled < 8)
    (hfuel : out.missing ≤ fuel) : finishLoop charIsSigned fuel out =
      Fields.writeBits charIsSigned (List.replicate out.missing false) out := by
  induction fuel generalizing out with
  | zero =>
      have hzero : out.numBitsFilled = 0 := by
        unfold missing at hfuel
        omega
      have hnone : out.missing = 0 := Nat.le_zero.mp hfuel
      rw [finishLoop, if_pos hzero, hnone]
      rfl
  | succ fuel ih =>
      rw [finishLoop]
      by_cases hzero : out.numBitsFilled = 0
      · have hnone : out.missing = 0 := by rw [missing, hzero]
        rw [if_pos hzero, hnone]
        rfl
      · have hsome : out.missing = (7 - out.numBitsFilled) + 1 := by
          unfold missing
          omega
        obtain ⟨out', hrun, hnext⟩ := write_next charIsSigned out (b := 0) (by decide)
        have hrest : out'.missing = 7 - out.numBitsFilled := by
          rw [missing, hnext]
          split <;> omega
        rw [if_neg hzero, hsome, List.replicate_succ, Fields.writeBits, ← hrest]
        refine Noted.bind_congr_ok hrun (ih ?_ ?_)
        · rw [hnext]
          split <;> omega
        · omega

end Packed

/-! The platforms agree. -/

theorem writeBits_char (charIsSigned : Bool) (bits : List Bool) (out : Fields) :
    writeBits charIsSigned bits out = writeBits false bits out := by
  induction bits generalizing out with
  | nil => rfl
  | cons b bits ih =>
      rw [writeBits, writeBits, write_char]
      congr 1
      funext out'
      exact ih out'

theorem finishLoop_char (charIsSigned : Bool) (fuel : Nat) (out : Fields) :
    finishLoop charIsSigned fuel out = finishLoop false fuel out := by
  induction fuel generalizing out with
  | zero => rfl
  | succ fuel ih =>
      rw [finishLoop, finishLoop, write_char]
      congr 2
      funext out'
      exact ih out'

theorem pack_char (charIsSigned : Bool) (dataAddr : Nat) (bits : List Bool) :
    pack charIsSigned dataAddr bits = pack false dataAddr bits := by
  rw [pack, pack, writeBits_char]
  congr 1
  funext out
  exact finishLoop_char charIsSigned 8 out

/-- The calls of `write` for some bits, then `finish`: the bytes go to consecutive addresses, one
store for each, and the size counts them. -/
structure Packs (charIsSigned : Bool) (dataAddr : Nat) (bits : List Bool) (bytes : List UInt8)
    (written finished : Fields) : Prop where
  writes : (writeBits charIsSigned bits (new dataAddr)).result = .ok written
  finishes : (finish charIsSigned written).result = .ok finished
  stores : stores (pack charIsSigned dataAddr bits).log = consecutive dataAddr bytes
  size : finished.size = bits.length ⌈/⌉ 8
  inByte : (pack charIsSigned dataAddr bits).All Act.InByte ∧ finished.InByte
  calls : calls (finish charIsSigned written).log ≤ 7

theorem Packs.char {dataAddr : Nat} {bits : List Bool} {bytes : List UInt8}
    {written finished : Fields} (h : Packs false dataAddr bits bytes written finished)
    (charIsSigned : Bool) : Packs charIsSigned dataAddr bits bytes written finished := by
  have hfinish : finish charIsSigned written = finish false written :=
    finishLoop_char charIsSigned 8 written
  have hpack := pack_char charIsSigned dataAddr bits
  refine ⟨?_, hfinish ▸ h.finishes, hpack ▸ h.stores, h.size, hpack ▸ h.inByte,
    hfinish ▸ h.calls⟩
  rw [writeBits_char]
  exact h.writes

/-- Whatever the platform's `char` is, the bytes hold the bits and then the fewest zeros that fill
the last byte. -/
theorem packs_exactly (dataAddr : Nat) (bits : List Bool) :
    ∃ bytes padding written finished, IsLeast {n | 8 ∣ bits.length + n} padding ∧
      bytesBits bytes = bits ++ List.replicate padding false ∧
      ∀ charIsSigned, Packs charIsSigned dataAddr bits bytes written finished := by
  obtain ⟨written, hwrites, hwritten, -⟩ := (new_packed dataAddr).writeBits false bits
  rw [List.nil_append, List.nil_append] at hwritten
  have hfilled : written.numBitsFilled < 8 := hwritten.wellFormed.filled
  have hlength := hwritten.filled
  have hmissing : written.missing = (8 - written.numBitsFilled) % 8 := rfl
  have hfinish : finish false written =
      writeBits false (List.replicate written.missing false) written :=
    finishLoop_eq false hfilled (by omega)
  obtain ⟨finished, hfinishes, hfinished, hcalls⟩ :=
    hwritten.writeBits false (List.replicate written.missing false)
  rw [← hfinish] at hfinishes hfinished hcalls
  have hpack : (pack false dataAddr bits).log =
      (writeBits false bits (new dataAddr)).log ++ (finish false written).log :=
    Noted.log_bind_ok hwrites _
  rw [← hpack] at hfinished
  have hlt : finished.numBitsFilled < 8 := hfinished.wellFormed.filled
  have hall := hfinished.filled
  rw [List.length_append, List.length_replicate] at hall
  have hzero : finished.numBitsFilled = 0 := by omega
  refine ⟨stored (pack false dataAddr bits).log, written.missing, written, finished, ?_, ?_, ?_⟩
  · refine ⟨?_, fun n hn => ?_⟩
    · change 8 ∣ bits.length + written.missing
      omega
    · have hdvd : 8 ∣ bits.length + n := hn
      omega
  · rw [← hfinished.bits, BitOutputStream.bits, stream_filled, hzero]
    exact (List.append_nil _).symm
  · refine fun charIsSigned => Packs.char ⟨hwrites, hfinishes, hfinished.stores, ?_, ?_, ?_⟩ _
    · rw [Nat.ceilDiv_eq_add_pred_div]
      omega
    · exact ⟨hfinished.inByte, hfinished.object_inByte⟩
    · rw [hcalls, List.length_replicate]
      omega

end BitOutputStream.Fields
end Soc
