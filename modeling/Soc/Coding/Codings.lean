import Soc.Coding.AdaptiveModel
import Soc.Coding.EncTable
import Soc.Foundation.Layout

/-!
`codings` of `coding.cpp`: thirty-nine subbands through one entropy coder.

Every subband stores its extrema in the header; one with more than a single
value is coded against the mixture table between them. The decoder here is the
inverse the repository leaves to the ground station: it rebuilds each table from
the header and the mixture parameters and looks the scaled value up in it.
-/
namespace Soc
open BitString ArithmeticCoderBase

/-- `SUB_CNT` -/
abbrev subCnt : Nat := 39

/-- `gmm_t` -/
structure Gmm where
  prob1 : Int16
  prob2 : Int16
  prob3 : Int16
  mean1 : Int16
  mean2 : Int16
  mean3 : Int16
  std1 : Int16
  std2 : Int16
  std3 : Int16
  deriving DecidableEq

namespace Gmm

def probs (g : Gmm) : Fin 3 → Int := ![g.prob1.toInt, g.prob2.toInt, g.prob3.toInt]
def means (g : Gmm) : Fin 3 → Int := ![g.mean1.toInt, g.mean2.toInt, g.mean3.toInt]
def stds (g : Gmm) : Fin 3 → Int := ![g.std1.toInt, g.std2.toInt, g.std3.toInt]

end Gmm

structure CodingResult where
  data : List UInt8
  length : Nat
  deriving DecidableEq

abbrev Coder := ArithmeticCoderBase × ArithmeticEncoder

/-- One subband of the input: `gmms[i]`, `data[i]`, `lens[i]`. -/
structure Subband where
  gmm : List Gmm
  datum : List Int16
  len : UInt64

/-- `int len = lens[i]` -/
def Subband.count (b : Subband) : Int := narrow 32 b.len.toNat

/-- `accumulate(lens, lens + SUB_CNT, 0)`: the sum is kept in an `int`. -/
def accumulate (lens : List UInt64) : Int :=
  lens.foldl (fun acc l => narrow 32 (acc + l.toNat)) 0

/-- The elements between `datum` and `datum + len`. -/
def elements (datum : List Int16) (len : Int) : Except Fault (List Int16) :=
  if 0 < len ∧ len ≤ datum.length then .ok (datum.take len.toNat) else .error .outOfBounds

def maxElement : List Int16 → Int16
  | [] => 0
  | x :: xs => xs.foldl (fun m y => if m < y then y else m) x

def minElement : List Int16 → Int16
  | [] => 0
  | x :: xs => xs.foldl (fun m y => if y < m then y else m) x

/-- An `int16_t` stored through a `reinterpret_cast`. -/
def storeInt16 (x : Int16) : List UInt8 := Layout.uint16.store x.toUInt16
def loadInt16 (bytes : List UInt8) : Int16 := (Layout.uint16.load bytes).toInt16

/-- The table `codings` builds for a subband. -/
def freqsTable (T : Tables) (gmmScale : Int) (xmin xmax : Int16) : EncTable :=
  { EncTable.new T 1000000 xmin.toInt xmax.toInt with scalePred := gmmScale }

def EncTable.triple (t : EncTable) : Triple := ⟨t.totalFreqs, t.symLow, t.symHigh⟩

/-- The body of the inner loop of `codings`. -/
def codeSymbol (charIsSigned : Bool) (t : EncTable) (g : Gmm) (x : Int16) (s : Coder) :
    Except Fault (EncTable × Coder) := do
  let t ← t.update g.probs g.means g.stds
  let t ← t.getBound x.toInt
  .ok (t, ← ArithmeticEncoder.write charIsSigned s t.triple)

/-- The inner loop: `gmm` is stepped along with the data. -/
def codeSymbols (charIsSigned : Bool) : EncTable → List Gmm → List Int16 → Coder →
    Except Fault Coder
  | _, _, [], s => .ok s
  | _, [], _ :: _, _ => .error .outOfBounds
  | t, g :: gmm, x :: xs, s => do
    let (t, s) ← codeSymbol charIsSigned t g x s
    codeSymbols charIsSigned t gmm xs s

/-- One turn of the outer loop: the header words, then the symbols. -/
def codeSubband (charIsSigned : Bool) (T : Tables) (gmmScale : Int) (b : Subband) (s : Coder) :
    Except Fault (List UInt8 × Coder) := do
  let xs ← elements b.datum b.count
  let xmax := maxElement xs
  let xmin := minElement xs
  let header := storeInt16 xmin ++ storeInt16 xmax
  if xmin ≥ xmax then .ok (header, s)
  else .ok (header, ← codeSymbols charIsSigned (freqsTable T gmmScale xmin xmax) b.gmm xs s)

def codeSubbands (charIsSigned : Bool) (T : Tables) (gmmScale : Int) : List Subband → Coder →
    Except Fault (List UInt8 × Coder)
  | [], s => .ok ([], s)
  | b :: bs, s => do
    let (header, s) ← codeSubband charIsSigned T gmmScale b s
    let (headers, s) ← codeSubbands charIsSigned T gmmScale bs s
    .ok (header ++ headers, s)

def subbands (gmms : Fin subCnt → List Gmm) (data : Fin subCnt → List Int16)
    (lens : Fin subCnt → UInt64) : List Subband :=
  List.ofFn fun i => ⟨gmms i, data i, lens i⟩

/-- `malloc((sum_len * 8) * sizeof(uint8_t))`, the product taken in a `size_t`. -/
def blockSize (sumLen : Int) : Nat := (sumLen * 8 % 2 ^ 64).toNat

/-- The bytes end up in a block of `sum_len * 8`; a store past it faults. The
block only fills up, so testing it at the end tests every store. -/
def codings (charIsSigned : Bool) (T : Tables) (gmms : Fin subCnt → List Gmm)
    (data : Fin subCnt → List Int16) (lens : Fin subCnt → UInt64) (gmmScale : Int) :
    Except Fault CodingResult := do
  let sumLen := accumulate (List.ofFn lens)
  let c ← ArithmeticCoderBase.new 32
  let (header, s) ← codeSubbands charIsSigned T gmmScale (subbands gmms data lens)
    (c, ArithmeticEncoder.new BitOutputStream.new)
  let e ← s.2.finish charIsSigned
  let bout ← e.output.finish charIsSigned
  if blockSize sumLen < subCnt * 4 + bout.size then .error .outOfBounds
  else .ok ⟨header ++ bout.data, bout.size + subCnt * 4⟩

/-! The decoder. -/

abbrev Uncoder := ArithmeticCoderBase × ArithmeticDecoder

/-- The first symbol from `x` on whose slice ends above the scaled value. -/
def findSymbol (t : EncTable) (v : Nat) : Nat → Int → Except Fault Int
  | 0, _ => .error .unfinished
  | n + 1, x => do
    if v < (← t.getBound x).symHigh.toNat then .ok x else findSymbol t v n (x + 1)

def readSymbol (t : EncTable) (g : Gmm) (s : Uncoder) :
    Except Fault ((Int16 × EncTable) × Uncoder) := do
  let t ← t.update g.probs g.means g.stds
  let total := (← t.getBound t.lowBound).totalFreqs
  let x ← findSymbol t (s.2.value s.1 total).toNat (t.highBound - t.lowBound + 1).toNat t.lowBound
  let t ← t.getBound x
  .ok ((Int16.ofInt x, t), ← update ArithmeticDecoder.methods s.1 s.2 t.triple)

def readSymbols : EncTable → List Gmm → Nat → Uncoder → Except Fault (List Int16 × Uncoder)
  | _, _, 0, s => .ok ([], s)
  | _, [], _ + 1, _ => .error .outOfBounds
  | t, g :: gmm, n + 1, s => do
    let ((x, t), s) ← readSymbol t g s
    let (xs, s) ← readSymbols t gmm n s
    .ok (x :: xs, s)

def readSubband (T : Tables) (gmmScale : Int) (gmm : List Gmm) (len : Nat) (header : List UInt8)
    (s : Uncoder) : Except Fault (List Int16 × Uncoder) :=
  let xmin := loadInt16 (header.take 2)
  let xmax := loadInt16 (header.drop 2)
  if xmin ≥ xmax then .ok (List.replicate len xmin, s)
  else readSymbols (freqsTable T gmmScale xmin xmax) gmm len s

def readSubbands (T : Tables) (gmmScale : Int) : List (List Gmm × Nat) → List UInt8 → Uncoder →
    Except Fault (List (List Int16) × Uncoder)
  | [], _, s => .ok ([], s)
  | (gmm, len) :: rest, bytes, s => do
    let (xs, s) ← readSubband T gmmScale gmm len (bytes.take 4) s
    let (xss, s) ← readSubbands T gmmScale rest (bytes.drop 4) s
    .ok (xs :: xss, s)

def decodings (T : Tables) (gmms : Fin subCnt → List Gmm) (lens : Fin subCnt → UInt64)
    (gmmScale : Int) (bytes : List UInt8) : Except Fault (List (List Int16)) := do
  let c ← ArithmeticCoderBase.new 32
  let d := ArithmeticDecoder.new c.size (bytesBits (bytes.drop (subCnt * 4)))
  let (xss, _) ← readSubbands T gmmScale (List.ofFn fun i => (gmms i, (lens i).toNat)) bytes (c, d)
  .ok xss

end Soc
