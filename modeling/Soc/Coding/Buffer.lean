import Soc.Coding.Lossless
import Soc.Foundation.Guarded

/-!
Every store of `codings` lies in its block.

The functions that store are written once more with a test before each store: that of a
header word, and that of a byte at `data_addr[size]`, which is at `156 + size` in the block.
A run of `codings` that ends passes all of these tests.
-/
namespace Soc
open ArithmeticCoderBase Guarded

/-- A store that ends at `last` bytes from the beginning of a block of `block` bytes. -/
def store (block last : Nat) : Except Fault Unit :=
  if block < last then .error .outOfBounds else .ok ()

/-- The bytes of the block in use, header and stream. -/
def BitOutputStream.extent (out : BitOutputStream) : Nat := subCnt * 4 + out.size

namespace BitOutputStream
variable (block : Nat) (charIsSigned : Bool)

def writeTested (out : BitOutputStream) (b : Int) : Except Fault BitOutputStream := do
  let out' ← write charIsSigned out b
  if out.size < out'.size then store block out'.extent
  .ok out'

def finishLoopTested : Nat → BitOutputStream → Except Fault BitOutputStream
  | fuel, out =>
    if out.numBitsFilled = 0 then .ok out
    else match fuel with
      | 0 => .error .unfinished
      | fuel + 1 => do finishLoopTested fuel (← writeTested block charIsSigned out 0)

def finishTested (out : BitOutputStream) : Except Fault BitOutputStream :=
  finishLoopTested block charIsSigned 8 out

end BitOutputStream

namespace ArithmeticEncoder
variable (block : Nat) (charIsSigned : Bool)

def writePendingTested (bit : Int) : Nat → BitOutputStream → Except Fault BitOutputStream
  | 0, output => .ok output
  | n + 1, output => do
    writePendingTested bit n (← output.writeTested block charIsSigned (1 - bit))

def shiftTested (c : ArithmeticCoderBase) (e : ArithmeticEncoder) :
    Except Fault ArithmeticEncoder := do
  let bit := narrow 32 (c.low >>> UInt64.ofNat (c.size.bits - 1)).toNat
  let output ← e.output.writeTested block charIsSigned bit
  .ok ⟨← writePendingTested block charIsSigned bit e.numUnderflow output, 0⟩

def methodsTested : Methods ArithmeticEncoder := ⟨shiftTested block charIsSigned, underflow⟩

def finishTested (e : ArithmeticEncoder) : Except Fault ArithmeticEncoder := do
  .ok { e with output := ← e.output.writeTested block charIsSigned 1 }

end ArithmeticEncoder

section Codings
variable (block : Nat) (charIsSigned : Bool)

def codeSymbolTested (t : EncTable) (g : Gmm) (x : Int16) (s : Coder) :
    Except Fault (EncTable × Coder) := do
  let t ← t.update g.probs g.means g.stds
  let t ← t.getBound x.toInt
  .ok (t, ← update (ArithmeticEncoder.methodsTested block charIsSigned) s.1 s.2 t.triple)

def codeSymbolsTested : EncTable → List Gmm → List Int16 → Coder → Except Fault Coder
  | _, _, [], s => .ok s
  | _, [], _ :: _, _ => .error .outOfBounds
  | t, g :: gmm, x :: xs, s => do
    let (t, s) ← codeSymbolTested block charIsSigned t g x s
    codeSymbolsTested t gmm xs s

/-- The words of subband `i` are at `i * 4` and `i * 4 + 2`. -/
def codeSubbandTested (T : Tables) (gmmScale : Int) (i : Nat) (b : Subband) (s : Coder) :
    Except Fault (List UInt8 × Coder) := do
  let xs ← elements b.datum b.count
  let xmax := maxElement xs
  let xmin := minElement xs
  store block (i * 4 + 2)
  store block (i * 4 + 4)
  let header := storeInt16 xmin ++ storeInt16 xmax
  if xmin ≥ xmax then .ok (header, s)
  else
    .ok (header, ← codeSymbolsTested block charIsSigned (freqsTable T gmmScale xmin xmax) b.gmm
      xs s)

def codeSubbandsTested (T : Tables) (gmmScale : Int) : Nat → List Subband → Coder →
    Except Fault (List UInt8 × Coder)
  | _, [], s => .ok ([], s)
  | i, b :: bs, s => do
    let (header, s) ← codeSubbandTested block charIsSigned T gmmScale i b s
    let (headers, s) ← codeSubbandsTested T gmmScale (i + 1) bs s
    .ok (header ++ headers, s)

end Codings

/-- `codings` with a test before every store. -/
def codingsTested (charIsSigned : Bool) (T : Tables) (gmms : Fin subCnt → List Gmm)
    (data : Fin subCnt → List Int16) (lens : Fin subCnt → UInt64) (gmmScale : Int) :
    Except Fault CodingResult := do
  let block := blockSize (accumulate (List.ofFn lens))
  let c ← ArithmeticCoderBase.new 32
  let (header, s) ← codeSubbandsTested block charIsSigned T gmmScale 0 (subbands gmms data lens)
    (c, ArithmeticEncoder.new BitOutputStream.new)
  let e ← s.2.finishTested block charIsSigned
  let bout ← e.output.finishTested block charIsSigned
  .ok ⟨header ++ bout.data, bout.size + subCnt * 4⟩

/-! The tests change nothing where the run ends within the block. -/

section Guards
variable {block : Nat} (charIsSigned : Bool)

theorem store_ok {last : Nat} (h : last ≤ block) : store block last = .ok () :=
  if_neg (Nat.not_lt.mpr h)

theorem BitOutputStream.write_guards (out : BitOutputStream) (b : Int) :
    Guards out.extent extent block (out.write charIsSigned b)
      (out.writeTested block charIsSigned b) := by
  intro out' hrun
  have hgrow : out.size ≤ out'.size := by
    simp only [write] at hrun
    split at hrun
    · contradiction
    · split at hrun <;> cases hrun <;> simp [size]
  refine ⟨Nat.add_le_add_left hgrow _, fun hroom => ?_⟩
  rw [writeTested, hrun, ok_bind]
  split
  · rw [store_ok hroom, ok_bind]
  · rfl

theorem BitOutputStream.finishLoop_guards (fuel : Nat) (out : BitOutputStream) :
    Guards out.extent extent block (finishLoop charIsSigned fuel out)
      (finishLoopTested block charIsSigned fuel out) := by
  induction fuel generalizing out with
  | zero =>
      rw [finishLoop, finishLoopTested]
      exact .ite (fun _ => .ok (Nat.le_refl _)) fun _ => .error
  | succ fuel ih =>
      rw [finishLoop, finishLoopTested]
      exact .ite (fun _ => .ok (Nat.le_refl _)) fun _ =>
        (out.write_guards charIsSigned 0).bind fun out' _ => ih out'

namespace ArithmeticEncoder

theorem writePending_guards (bit : Int) (n : Nat) (output : BitOutputStream) :
    Guards output.extent BitOutputStream.extent block (writePending charIsSigned bit n output)
      (writePendingTested block charIsSigned bit n output) := by
  induction n generalizing output with
  | zero => exact .ok (Nat.le_refl _)
  | succ n ih => exact (output.write_guards charIsSigned _).bind fun output' _ => ih output'

def extent (e : ArithmeticEncoder) : Nat := e.output.extent

theorem shift_guards (e : ArithmeticEncoder) (c : ArithmeticCoderBase) :
    Guards e.extent extent block (shift charIsSigned c e) (shiftTested block charIsSigned c e) :=
  (e.output.write_guards charIsSigned _).bind fun output _ =>
    (writePending_guards charIsSigned _ _ output).bind fun _ _ => .ok (Nat.le_refl _)

theorem underflow_guards (c : ArithmeticCoderBase) (e : ArithmeticEncoder) :
    Guards e.extent extent block (underflow c e) (underflow c e) := by
  intro e' h
  cases h
  exact ⟨Nat.le_refl _, fun _ => rfl⟩

theorem finish_guards (e : ArithmeticEncoder) :
    Guards e.extent extent block (e.finish charIsSigned) (e.finishTested block charIsSigned) :=
  (e.output.write_guards charIsSigned 1).bind fun _ _ => .ok (Nat.le_refl _)

end ArithmeticEncoder

theorem update_guards {σ : Type} {m m' : Methods σ} {size : σ → Nat}
    (shift : ∀ c s, Guards (size s) size block (m.shift c s) (m'.shift c s))
    (underflow : ∀ c s, Guards (size s) size block (m.underflow c s) (m'.underflow c s))
    (c : ArithmeticCoderBase) (s : σ) (t : Triple) :
    Guards (size s) (fun r => size r.2) block (update m c s t) (update m' c s t) := by
  simp only [update, shiftLoop_eq, underflowLoop_eq]
  exact .ite (fun _ => .error) fun _ =>
    (Whiles.loop_guards shift s).bind fun r _ => Whiles.loop_guards underflow r.2

def Coder.extent (s : Coder) : Nat := s.2.extent

theorem write_guards (s : Coder) (t : Triple) :
    Guards s.extent Coder.extent block (ArithmeticEncoder.write charIsSigned s t)
      (update (ArithmeticEncoder.methodsTested block charIsSigned) s.1 s.2 t) :=
  update_guards (fun c e => e.shift_guards charIsSigned c) ArithmeticEncoder.underflow_guards s.1
    s.2 t

theorem codeSymbol_guards (t : EncTable) (g : Gmm) (x : Int16) (s : Coder) :
    Guards s.extent (fun r => r.2.extent) block (codeSymbol charIsSigned t g x s)
      (codeSymbolTested block charIsSigned t g x s) :=
  .quiet _ _ _ fun _ _ => .quiet _ _ _ fun t _ =>
    (write_guards charIsSigned s t.triple).bind fun _ _ => .ok (Nat.le_refl _)

theorem codeSymbols_guards (t : EncTable) (gmm : List Gmm) (xs : List Int16) (s : Coder) :
    Guards s.extent Coder.extent block (codeSymbols charIsSigned t gmm xs s)
      (codeSymbolsTested block charIsSigned t gmm xs s) := by
  induction xs generalizing t gmm s with
  | nil => cases gmm <;> exact .ok (Nat.le_refl _)
  | cons x xs ih =>
      cases gmm with
      | nil => exact .error
      | cons g gmm =>
          exact (codeSymbol_guards charIsSigned t g x s).bind fun r _ => ih r.1 gmm r.2

theorem codeSubband_guards (T : Tables) (gmmScale : Int) {i : Nat} (hi : i < subCnt)
    (b : Subband) (s : Coder) :
    Guards s.extent (fun r => r.2.extent) block (codeSubband charIsSigned T gmmScale b s)
      (codeSubbandTested block charIsSigned T gmmScale i b s) := by
  refine .quiet _ _ _ fun xs _ r hrun => ?_
  have htail : Guards s.extent (fun r => r.2.extent) block
      (if minElement xs ≥ maxElement xs then
        .ok (storeInt16 (minElement xs) ++ storeInt16 (maxElement xs), s)
      else do
        .ok (storeInt16 (minElement xs) ++ storeInt16 (maxElement xs),
          ← codeSymbols charIsSigned (freqsTable T gmmScale (minElement xs) (maxElement xs)) b.gmm
            xs s))
      (if minElement xs ≥ maxElement xs then
        .ok (storeInt16 (minElement xs) ++ storeInt16 (maxElement xs), s)
      else do
        .ok (storeInt16 (minElement xs) ++ storeInt16 (maxElement xs),
          ← codeSymbolsTested block charIsSigned
            (freqsTable T gmmScale (minElement xs) (maxElement xs)) b.gmm xs s)) :=
    .ite (fun _ => .ok (Nat.le_refl _)) fun _ =>
      (codeSymbols_guards charIsSigned _ b.gmm xs s).bind fun _ _ => .ok (Nat.le_refl _)
  obtain ⟨hgrow, htested⟩ := htail r hrun
  refine ⟨hgrow, fun hroom => ?_⟩
  have hextent : subCnt * 4 ≤ s.extent := Nat.le_add_right _ _
  have hwords : i * 4 + 4 ≤ block :=
    calc i * 4 + 4 ≤ subCnt * 4 := by omega
      _ ≤ s.extent := hextent
      _ ≤ r.2.extent := hgrow
      _ ≤ block := hroom
  simp only [store_ok hwords, store_ok (show i * 4 + 2 ≤ block by omega), ok_bind]
  exact htested hroom

theorem codeSubbands_guards (T : Tables) (gmmScale : Int) (bs : List Subband) (i : Nat)
    (hi : i + bs.length ≤ subCnt) (s : Coder) :
    Guards s.extent (fun r => r.2.extent) block (codeSubbands charIsSigned T gmmScale bs s)
      (codeSubbandsTested block charIsSigned T gmmScale i bs s) := by
  induction bs generalizing i s with
  | nil => exact .ok (Nat.le_refl _)
  | cons b bs ih =>
      rw [List.length_cons] at hi
      exact (codeSubband_guards charIsSigned T gmmScale (by omega) b s).bind fun r _ =>
        (ih (i + 1) (by omega) r.2).bind fun _ _ => .ok (Nat.le_refl _)

end Guards

theorem codingsTested_ok (charIsSigned : Bool) {T : Tables} {gmms : Fin subCnt → List Gmm}
    {data : Fin subCnt → List Int16} {lens : Fin subCnt → UInt64} {gmmScale : Int}
    {r : CodingResult} (hrun : codings charIsSigned T gmms data lens gmmScale = .ok r) :
    codingsTested charIsSigned T gmms data lens gmmScale = .ok r ∧
      subCnt * 4 ≤ r.length ∧ r.length ≤ blockSize (accumulate (List.ofFn lens)) := by
  obtain ⟨c, hnew, hrun⟩ := bind_ok hrun
  obtain ⟨⟨header, s⟩, hsubbands, hrun⟩ := bind_ok hrun
  obtain ⟨e, hfinish, hrun⟩ := bind_ok hrun
  obtain ⟨bout, hout, hrun⟩ := bind_ok hrun
  split at hrun
  · cases hrun
  case isFalse hfits =>
    cases hrun
    have hroom : bout.extent ≤ blockSize (accumulate (List.ofFn lens)) := Nat.not_lt.mp hfits
    obtain ⟨hgrow₁, htested₁⟩ := BitOutputStream.finishLoop_guards charIsSigned 8 e.output bout hout
    obtain ⟨hgrow₂, htested₂⟩ := s.2.finish_guards charIsSigned e hfinish
    have hcount : (subbands gmms data lens).length = subCnt := List.length_ofFn
    obtain ⟨-, htested₃⟩ := codeSubbands_guards charIsSigned T gmmScale (subbands gmms data lens) 0
      (by omega) (c, ArithmeticEncoder.new BitOutputStream.new) (header, s) hsubbands
    have hroom₁ : e.extent ≤ blockSize (accumulate (List.ofFn lens)) := hgrow₁.trans hroom
    refine ⟨?_, Nat.le_add_left _ _, Nat.add_comm _ _ ▸ hroom⟩
    rw [codingsTested, hnew, ok_bind, htested₃ (hgrow₂.trans hroom₁), ok_bind]
    simp only
    rw [htested₂ hroom₁, ok_bind, BitOutputStream.finishTested, htested₁ hroom, ok_bind]

/-- The stream and the header lie in the block: `codings` ends, with no store past it. -/
theorem codings_within_block (charIsSigned : Bool) {T : Tables} (usable : T.Usable)
    {gmms : Fin subCnt → List Gmm} {lens : Fin subCnt → UInt64} (setup : CodingSetup gmms lens)
    {data : Fin subCnt → List Int16} (hdata : ∀ i, (data i).length = (lens i).toNat) :
    blockSize (accumulate (List.ofFn lens)) = 8 * ∑ i, (lens i).toNat ∧
    ∃ r, codings charIsSigned T gmms data lens 10000 = .ok r ∧
      codingsTested charIsSigned T gmms data lens 10000 = .ok r ∧
      r.data.length = r.length ∧ 156 ≤ r.length ∧ r.length ≤ 8 * ∑ i, (lens i).toNat := by
  have hblock : blockSize (accumulate (List.ofFn lens)) = 8 * ∑ i, (lens i).toNat := by
    have hsum := setup.sum
    rw [setup.accumulate_eq, blockSize]
    omega
  obtain ⟨r, hrun, hlength, -⟩ := codings_decodings setup charIsSigned usable hdata
  obtain ⟨htested, hleast, hmost⟩ := codingsTested_ok charIsSigned hrun
  exact ⟨hblock, r, hrun, htested, hlength, hleast, hblock ▸ hmost⟩

/-- Three symbols in every subband leave room in a block of 936 bytes. -/
theorem codings_within_block_ramp :
    blockSize (accumulate (List.ofFn fun _ : Fin subCnt => (3 : UInt64))) =
        8 * ∑ _ : Fin subCnt, (3 : UInt64).toNat ∧
    ∃ r, codings true (rampTables 12001 100001)
        (fun _ => [⟨5, -3, 0, 0, 100, 7, 900, 1, 20⟩, ⟨0, 0, 0, 4, 4, 4, 1, 1, 1⟩,
          ⟨-9, 9, 9, 1, 2, 3, 30, 20, 10⟩])
        (fun i => [Int16.ofNat i, -4, 9]) (fun _ => 3) 10000 = .ok r ∧
      codingsTested true (rampTables 12001 100001)
        (fun _ => [⟨5, -3, 0, 0, 100, 7, 900, 1, 20⟩, ⟨0, 0, 0, 4, 4, 4, 1, 1, 1⟩,
          ⟨-9, 9, 9, 1, 2, 3, 30, 20, 10⟩])
        (fun i => [Int16.ofNat i, -4, 9]) (fun _ => 3) 10000 = .ok r ∧
      r.data.length = r.length ∧ 156 ≤ r.length ∧
      r.length ≤ 8 * ∑ _ : Fin subCnt, (3 : UInt64).toNat :=
  codings_within_block true (rampTables_usable (Nat.le_refl _) (Nat.le_refl _) (Nat.le_refl _))
    rampSetup (fun _ => rfl)

end Soc
