import Soc.Basic
import Mathlib.Data.Int.Basic
import Mathlib.Algebra.Order.BigOperators.Group.Finset
import Mathlib.Algebra.BigOperators.Fin
import Mathlib.Data.Fin.VecNotation
import Mathlib.Data.List.GetD
import Mathlib.Tactic.FinCases
import Mathlib.Tactic.Linarith
import Mathlib.Tactic.Ring

/-!
`EncTable` of `arithmetic_coding.cpp`: the cumulative frequencies of a mixture
of three Gaussians, read from two tables of the installation.

The slices of neighbouring symbols are cut from one monotone function of the
edge between them, so they touch; one is added for every symbol, so none is
empty. The rest is the arithmetic that keeps this true in machine integers.
-/
namespace Soc

/-- The contents of `exp.bin` and `cdf.bin`. -/
structure Tables where
  expTable : List UInt16
  cdfTable : List UInt32
  deriving DecidableEq

structure EncTable where
  tables : Tables
  expScale : Int := 1000
  expXBound : Int := -12
  cdfScale : Int := 10000
  cdfXBound : Int := -5
  scalePred : Int := 10000
  lowBound : Int
  highBound : Int
  freqsResolution : Int
  symLow : UInt32 := 0
  symHigh : UInt32 := 0
  totalFreqs : UInt32 := 0
  lBound : UInt64 := 0
  rBound : UInt64 := 0
  probs : Fin 3 → Int := fun _ => 0
  means : Fin 3 → Int := fun _ => 0
  stds : Fin 3 → Int := fun _ => 0
  probSum : UInt32 := 0

def clamp (x l r : Int) : Int := if x < l then l else if x > r then r else x

/-- One turn of the loop of `softmax`: the table entry for a logit. -/
def softmaxEntry (probs : Fin 3 → Int) (mx : Int) (scalePred : UInt16) (expTable : List UInt16)
    (scale base : Int) (i : Fin 3) : Except Fault Int := do
  let idx ← signed 32 (probs i - mx)
  let idx ← signed 64 (idx * scale)
  let idx ← quotient idx scalePred.toNat
  let idx ← signed 64 (idx + base)
  let entry ← index expTable (max idx 0)
  .ok entry.toNat

/-- The replaced `probs` and the returned sum. -/
def softmax (probs : Fin 3 → Int) (scalePred : UInt16) (expTable : List UInt16)
    (scale xBound : Int) : Except Fault ((Fin 3 → Int) × Int) := do
  let mx := max (probs 0) (max (probs 1) (probs 2))
  let base ← signed 32 (-xBound * scale)
  let p0 ← softmaxEntry probs mx scalePred expTable scale base 0
  let p1 ← softmaxEntry probs mx scalePred expTable scale base 1
  let p2 ← softmaxEntry probs mx scalePred expTable scale base 2
  let sum ← signed 32 (p0 + p1)
  let sum ← signed 32 (sum + p2)
  .ok (![p0, p1, p2], sum)

namespace EncTable

def new (tables : Tables) (freqsResolution : UInt32) (lowBound highBound : Int) : EncTable :=
  { tables, lowBound, highBound, freqsResolution := freqsResolution.toNat }

def update (t : EncTable) (probs means stds : Fin 3 → Int) : Except Fault EncTable := do
  let (probs, sum) ←
    softmax probs (UInt16.ofInt t.scalePred) t.tables.expTable t.expScale t.expXBound
  .ok { t with probs, means, stds, probSum := UInt32.ofInt sum }

/-- The table index for the edge left or right of `x`, the expression that
`get_bound` writes out four times. -/
def cdfIndex (t : EncTable) (x : Int) (right : Bool) (i : Fin 3) : Except Fault Int := do
  let base ← signed 32 (-t.cdfXBound * t.cdfScale)
  let center ← signed 32 (x * t.scalePred)
  let center ← signed 32 (center - t.means i)
  let half ← quotient t.scalePred 2
  let edge ← signed 32 (if right then center + half else center - half)
  let scaled ← signed 64 (edge * t.cdfScale)
  let idx ← quotient scaled (t.stds i)
  .ok (clamp idx (-base) base + base)

/-- `uint64_t(1) * freqs_resolution * cdf_table[idx] / prob_sum * probs[i]` -/
def weight (t : EncTable) (x : Int) (right : Bool) (i : Fin 3) : Except Fault UInt64 := do
  let entry ← index t.tables.cdfTable (← t.cdfIndex x right i)
  if t.probSum = 0 then .error .divisionByZero
  else .ok (UInt64.ofInt t.freqsResolution * entry.toUInt64 / t.probSum.toUInt64 *
    UInt64.ofInt (t.probs i))

/-- A sum over the mixture, divided by `UINT32_MAX`. -/
def mixture (t : EncTable) (x : Int) (right : Bool) : Except Fault UInt64 := do
  let w0 ← t.weight x right 0
  let w1 ← t.weight x right 1
  let w2 ← t.weight x right 2
  .ok ((w0 + w1 + w2) / 0xFFFFFFFF)

def getBound (t : EncTable) (x : Int) : Except Fault EncTable := do
  let lBound ← t.mixture t.lowBound false
  let rBound ← t.mixture t.highBound true
  let low ← t.mixture x false
  let high ← t.mixture x true
  let before ← signed 32 (x - t.lowBound)
  let upto ← signed 32 (before + 1)
  let span ← signed 32 (t.highBound - t.lowBound)
  let count ← signed 32 (span + 1)
  .ok { t with
    lBound, rBound
    symLow := (low - lBound + UInt64.ofInt before).toUInt32
    symHigh := (high - lBound + UInt64.ofInt upto).toUInt32
    totalFreqs := (rBound - lBound + UInt64.ofInt count).toUInt32 }

end EncTable

/-- What the coder relies on in the two tables. -/
structure Tables.Usable (T : Tables) : Prop where
  exp_length : 12001 ≤ T.expTable.length
  exp_pos : ∀ e, T.expTable[12000]? = some e → 0 < e.toNat
  cdf_length : 100001 ≤ T.cdfTable.length
  cdf_mono : T.cdfTable.Pairwise (· ≤ ·)

/-- What keeps their use defined. -/
structure Tables.Sized (T : Tables) : Prop where
  exp_length : 12001 ≤ T.expTable.length
  exp_pos : ∀ e, T.expTable[12000]? = some e → 0 < e.toNat
  cdf_length : 100001 ≤ T.cdfTable.length

theorem Tables.Usable.sized {T : Tables} (h : T.Usable) : T.Sized :=
  ⟨h.exp_length, h.exp_pos, h.cdf_length⟩

/-- Tables of a given length: an exponential table of ones, a straight ramp. -/
def rampTables (m n : Nat) : Tables :=
  ⟨List.replicate m 1, (List.range n).map fun k => UInt32.ofNat (k * 42949)⟩

theorem rampTables_usable {m n : Nat} (hm : 12001 ≤ m) (hn : 100001 ≤ n) (hn' : n ≤ 100001) :
    (rampTables m n).Usable := by
  refine ⟨by simpa [rampTables] using hm, ?_, by simpa [rampTables] using hn, ?_⟩
  · intro e he
    obtain rfl : e = 1 := List.eq_of_mem_replicate (List.mem_of_getElem? he)
    decide
  · refine List.pairwise_map.mpr (List.pairwise_lt_range.imp_of_mem ?_)
    intro a b ha hb hab
    have hb' := List.mem_range.mp hb
    rw [UInt32.le_iff_toNat_le, UInt32.toNat_ofNat', UInt32.toNat_ofNat',
      Nat.mod_eq_of_lt (by omega), Nat.mod_eq_of_lt (by omega)]
    omega

def InInt16 (x : Int) : Prop := -32768 ≤ x ∧ x ≤ 32767

instance (x : Int) : Decidable (InInt16 x) := inferInstanceAs (Decidable (_ ∧ _))

namespace EncTable

/-- A table as `codings` uses it, after `update`. -/
structure Prepared (t : EncTable) : Prop where
  usable : t.tables.Usable
  cdfScale : t.cdfScale = 10000
  cdfXBound : t.cdfXBound = -5
  scalePred : t.scalePred = 10000
  freqsResolution : t.freqsResolution = 1000000
  means : ∀ i, InInt16 (t.means i)
  stds : ∀ i, 1 ≤ t.stds i
  probs : ∀ i, 0 ≤ t.probs i ∧ t.probs i ≤ 65535
  probSum : (t.probSum.toNat : Int) = ∑ i, t.probs i
  probSum_pos : 0 < t.probSum.toNat

/-- The same without the deviations. -/
structure Weighed (t : EncTable) : Prop where
  sized : t.tables.Sized
  cdfScale : t.cdfScale = 10000
  cdfXBound : t.cdfXBound = -5
  scalePred : t.scalePred = 10000
  freqsResolution : t.freqsResolution = 1000000
  means : ∀ i, InInt16 (t.means i)
  probs : ∀ i, 0 ≤ t.probs i ∧ t.probs i ≤ 65535
  probSum : (t.probSum.toNat : Int) = ∑ i, t.probs i
  probSum_pos : 0 < t.probSum.toNat

theorem Prepared.weighed {t : EncTable} (p : t.Prepared) : t.Weighed :=
  { p with sized := p.usable.sized }

theorem Prepared.stds_ne {t : EncTable} (p : t.Prepared) (i : Fin 3) : t.stds i ≠ 0 := by
  have h := p.stds i
  omega

/-- Twice ten thousand edges to a symbol: the edge left or right of `x`. -/
def edge (x : Int) (right : Bool) : Int := if right then x * 10000 + 5000 else x * 10000 - 5000

theorem edge_succ (x : Int) : edge (x + 1) false = edge x true := by
  simp only [edge, Bool.false_eq_true, if_false, if_true]
  omega

def cdfPos (t : EncTable) (e : Int) (i : Fin 3) : Int :=
  clamp (((e - t.means i) * 10000).tdiv (t.stds i)) (-50000) 50000 + 50000

theorem clamp_mono {a b l r : Int} (h : a ≤ b) : clamp a l r ≤ clamp b l r ∨ r < l := by
  unfold clamp
  split <;> split <;> (try split) <;> (try split) <;> omega

theorem cdfPos_mono {t : EncTable} (p : t.Prepared) {e e' : Int} (h : e ≤ e') (i : Fin 3) :
    t.cdfPos e i ≤ t.cdfPos e' i := by
  have hstd := p.stds i
  have hdiv : ((e - t.means i) * 10000).tdiv (t.stds i) ≤
      ((e' - t.means i) * 10000).tdiv (t.stds i) := Int.tdiv_le_tdiv (by omega) (by omega)
  have hclamp := clamp_mono (l := -50000) (r := 50000) hdiv
  unfold cdfPos
  omega

theorem cdfPos_range (t : EncTable) (e : Int) (i : Fin 3) :
    0 ≤ t.cdfPos e i ∧ t.cdfPos e i ≤ 100000 := by
  unfold cdfPos clamp
  split
  · omega
  · split <;> omega

theorem cdfIndex_ok {t : EncTable} (p : t.Weighed) {x : Int} (hx : InInt16 x) (right : Bool)
    {i : Fin 3} (hstd : t.stds i ≠ 0) :
    t.cdfIndex x right i = .ok (t.cdfPos (edge x right) i) := by
  obtain ⟨lo, hi⟩ := hx
  obtain ⟨mlo, mhi⟩ := p.means i
  have hedge : (if right then x * 10000 - t.means i + 5000 else x * 10000 - t.means i - 5000) =
      edge x right - t.means i := by
    unfold edge
    split <;> omega
  have hrange : -400000000 ≤ edge x right ∧ edge x right ≤ 400000000 := by
    unfold edge
    split <;> omega
  have hhalf : Int.tdiv 10000 2 = 5000 := by decide
  rw [cdfIndex, p.cdfScale, p.cdfXBound, p.scalePred,
    signed_ok (by omega) (by omega), ok_bind, signed_ok (by omega) (by omega), ok_bind,
    signed_ok (by omega) (by omega), ok_bind, quotient_ok (by decide), ok_bind, hhalf, hedge,
    signed_ok (by omega) (by omega), ok_bind, signed_ok (by omega) (by omega), ok_bind,
    quotient_ok hstd, ok_bind]
  rfl

/-- The entry of the cumulative table under an edge, as a number. -/
def cdfEntry (t : EncTable) (e : Int) (i : Fin 3) : Nat :=
  (t.tables.cdfTable.getD (t.cdfPos e i).toNat 0).toNat

theorem cdfEntry_mono {t : EncTable} (p : t.Prepared) {e e' : Int} (h : e ≤ e') (i : Fin 3) :
    t.cdfEntry e i ≤ t.cdfEntry e' i := by
  have hpos := cdfPos_mono p h i
  obtain ⟨lo, hi⟩ := cdfPos_range t e i
  obtain ⟨lo', hi'⟩ := cdfPos_range t e' i
  have hlen := p.usable.cdf_length
  rw [cdfEntry, cdfEntry, List.getD_eq_getElem _ _ (by omega), List.getD_eq_getElem _ _ (by omega)]
  rcases Nat.lt_or_eq_of_le (show (t.cdfPos e i).toNat ≤ (t.cdfPos e' i).toNat by omega) with
    hlt | heq
  · exact UInt32.le_iff_toNat_le.mp
      (List.pairwise_iff_getElem.mp p.usable.cdf_mono _ _ (by omega) (by omega) hlt)
  · simp only [heq, Nat.le_refl]

theorem cdfEntry_le (t : EncTable) (e : Int) (i : Fin 3) : t.cdfEntry e i ≤ 4294967295 := by
  have h := (t.tables.cdfTable.getD (t.cdfPos e i).toNat 0).toNat_lt
  unfold cdfEntry
  omega

/-- One term of the mixture as a number. -/
def mass (t : EncTable) (e : Int) (i : Fin 3) : Nat :=
  1000000 * t.cdfEntry e i / t.probSum.toNat * (t.probs i).toNat

/-- The cumulative frequency at an edge. -/
def cumulative (t : EncTable) (e : Int) : Nat := (∑ i, t.mass e i) / 4294967295

theorem sum_probs {t : EncTable} (p : t.Weighed) : ∑ i, (t.probs i).toNat = t.probSum.toNat := by
  have hsum := p.probSum
  have h0 := p.probs 0
  have h1 := p.probs 1
  have h2 := p.probs 2
  rw [Fin.sum_univ_three] at hsum ⊢
  omega

theorem mass_le (t : EncTable) (e : Int) (i : Fin 3) :
    t.mass e i * t.probSum.toNat ≤ 1000000 * 4294967295 * (t.probs i).toNat := by
  have hdiv := Nat.div_mul_le_self (1000000 * t.cdfEntry e i) t.probSum.toNat
  have hentry := t.cdfEntry_le e i
  calc t.mass e i * t.probSum.toNat
      = 1000000 * t.cdfEntry e i / t.probSum.toNat * t.probSum.toNat * (t.probs i).toNat := by
        unfold mass
        ring
    _ ≤ 1000000 * 4294967295 * (t.probs i).toNat := by
        apply Nat.mul_le_mul_right
        omega

theorem sum_mass_le {t : EncTable} (p : t.Weighed) (e : Int) :
    ∑ i, t.mass e i ≤ 1000000 * 4294967295 := by
  have hpos := p.probSum_pos
  apply Nat.le_of_mul_le_mul_right _ hpos
  calc (∑ i, t.mass e i) * t.probSum.toNat
      = ∑ i, t.mass e i * t.probSum.toNat := Finset.sum_mul _ _ _
    _ ≤ ∑ i, 1000000 * 4294967295 * (t.probs i).toNat :=
        Finset.sum_le_sum fun i _ => t.mass_le e i
    _ = 1000000 * 4294967295 * t.probSum.toNat := by rw [← Finset.mul_sum, sum_probs p]

theorem cumulative_le {t : EncTable} (p : t.Weighed) (e : Int) : t.cumulative e ≤ 1000000 := by
  have h := sum_mass_le p e
  unfold cumulative
  omega

theorem cumulative_mono {t : EncTable} (p : t.Prepared) {e e' : Int} (h : e ≤ e') :
    t.cumulative e ≤ t.cumulative e' := by
  apply Nat.div_le_div_right
  apply Finset.sum_le_sum
  intro i _
  apply Nat.mul_le_mul_right
  apply Nat.div_le_div_right
  exact Nat.mul_le_mul_left _ (cdfEntry_mono p h i)

theorem mass_lt {t : EncTable} (p : t.Weighed) (e : Int) (i : Fin 3) : t.mass e i < 2 ^ 64 := by
  have hsum := sum_mass_le p e
  have hterm := Finset.single_le_sum (f := t.mass e) (fun _ _ => Nat.zero_le _) (Finset.mem_univ i)
  omega

theorem toNat_ofInt {x : Int} (lo : 0 ≤ x) (hi : x < 2 ^ 64) :
    (UInt64.ofInt x).toNat = x.toNat := by
  rw [UInt64.ofInt, UInt64.toNat_ofNat', Int.emod_eq_of_lt lo hi]
  omega

theorem weight_ok {t : EncTable} (p : t.Weighed) {x : Int} (hx : InInt16 x) (right : Bool)
    {i : Fin 3} (hstd : t.stds i ≠ 0) :
    ∃ w, t.weight x right i = .ok w ∧ w.toNat = t.mass (edge x right) i := by
  obtain ⟨lo, hi⟩ := cdfPos_range t (edge x right) i
  obtain ⟨plo, phi⟩ := p.probs i
  have hlen := p.sized.cdf_length
  have hpos := p.probSum_pos
  have hzero : t.probSum ≠ 0 := fun h => by simp [h] at hpos
  have hlt : (t.cdfPos (edge x right) i).toNat < t.tables.cdfTable.length := by omega
  have hrun : t.weight x right i = .ok (UInt64.ofInt t.freqsResolution *
      t.tables.cdfTable[(t.cdfPos (edge x right) i).toNat].toUInt64 / t.probSum.toUInt64 *
      UInt64.ofInt (t.probs i)) := by
    rw [weight, cdfIndex_ok p hx right hstd, ok_bind, index_ok lo hlt, ok_bind, if_neg hzero]
  refine ⟨_, hrun, ?_⟩
  have hentry : t.tables.cdfTable[(t.cdfPos (edge x right) i).toNat].toNat =
      t.cdfEntry (edge x right) i := by
    rw [cdfEntry, List.getD_eq_getElem _ _ hlt]
  have hle := t.cdfEntry_le (edge x right) i
  have hres : (UInt64.ofInt t.freqsResolution).toNat = 1000000 := by
    rw [p.freqsResolution]
    rfl
  rw [UInt64.toNat_mul, UInt64.toNat_div, UInt64.toNat_mul, UInt32.toNat_toUInt64,
    UInt32.toNat_toUInt64, hentry, hres, toNat_ofInt plo (by omega),
    Nat.mod_eq_of_lt (by omega : 1000000 * t.cdfEntry (edge x right) i < 2 ^ 64)]
  exact Nat.mod_eq_of_lt (mass_lt p (edge x right) i)

theorem mixture_ok {t : EncTable} (p : t.Weighed) (hstds : ∀ i, t.stds i ≠ 0) {x : Int}
    (hx : InInt16 x) (right : Bool) :
    ∃ w, t.mixture x right = .ok w ∧ w.toNat = t.cumulative (edge x right) := by
  obtain ⟨w0, hw0, h0⟩ := weight_ok p hx right (hstds 0)
  obtain ⟨w1, hw1, h1⟩ := weight_ok p hx right (hstds 1)
  obtain ⟨w2, hw2, h2⟩ := weight_ok p hx right (hstds 2)
  have hsum := sum_mass_le p (edge x right)
  refine ⟨(w0 + w1 + w2) / 0xFFFFFFFF, by rw [mixture, hw0, hw1, hw2]; rfl, ?_⟩
  rw [Fin.sum_univ_three] at hsum
  have htwo : t.mass (edge x right) 0 + t.mass (edge x right) 1 < 2 ^ 64 := by omega
  rw [cumulative, Fin.sum_univ_three, UInt64.toNat_div, UInt64.toNat_add, UInt64.toNat_add,
    h0, h1, h2, Nat.mod_eq_of_lt htwo, Nat.mod_eq_of_lt (by omega)]
  rfl

/-- The lower end of the slice of `x`, as a number; its upper end is the lower
end of `x + 1`. -/
def lowerEnd (t : EncTable) (x : Int) : Nat :=
  t.cumulative (edge x false) - t.cumulative (edge t.lowBound false) + (x - t.lowBound).toNat

theorem edge_mono {x y : Int} (h : x ≤ y) (right : Bool) : edge x right ≤ edge y right := by
  unfold edge
  split <;> omega

theorem lowerEnd_lt_succ {t : EncTable} (p : t.Prepared) {x : Int} (h : t.lowBound ≤ x) :
    t.lowerEnd x < t.lowerEnd (x + 1) := by
  have hmono := cumulative_mono p (edge_mono (show x ≤ x + 1 by omega) false)
  have hbase := cumulative_mono p (edge_mono h false)
  unfold lowerEnd
  omega

theorem lowerEnd_mono {t : EncTable} (p : t.Prepared) {x y : Int} (h : t.lowBound ≤ x)
    (hxy : x ≤ y) : t.lowerEnd x ≤ t.lowerEnd y := by
  have hmono := cumulative_mono p (edge_mono hxy false)
  have hbase := cumulative_mono p (edge_mono h false)
  unfold lowerEnd
  omega

theorem lowerEnd_le {t : EncTable} (p : t.Prepared) (x : Int) :
    t.lowerEnd x ≤ 1000000 + (x - t.lowBound).toNat := by
  have h := cumulative_le p.weighed (edge x false)
  unfold lowerEnd
  omega

/-- What `get_bound` computes, whatever the order of the slices: no operation overflows. -/
theorem getBound_run {t : EncTable} (p : t.Weighed) (hstds : ∀ i, t.stds i ≠ 0)
    (hlow : InInt16 t.lowBound) (hhigh : InInt16 t.highBound) {x : Int} (hx : InInt16 x) :
    ∃ lBound rBound low high : UInt64,
      lBound.toNat = t.cumulative (edge t.lowBound false) ∧
      rBound.toNat = t.cumulative (edge t.highBound true) ∧
      low.toNat = t.cumulative (edge x false) ∧ high.toNat = t.cumulative (edge x true) ∧
      t.getBound x = .ok { t with
        lBound, rBound
        symLow := (low - lBound + UInt64.ofInt (x - t.lowBound)).toUInt32
        symHigh := (high - lBound + UInt64.ofInt (x - t.lowBound + 1)).toUInt32
        totalFreqs :=
          (rBound - lBound + UInt64.ofInt (t.highBound - t.lowBound + 1)).toUInt32 } := by
  obtain ⟨lBound, hl, hlv⟩ := mixture_ok p hstds hlow false
  obtain ⟨rBound, hr, hrv⟩ := mixture_ok p hstds hhigh true
  obtain ⟨low, hlo, hlov⟩ := mixture_ok p hstds hx false
  obtain ⟨high, hhi, hhiv⟩ := mixture_ok p hstds hx true
  obtain ⟨l1, l2⟩ := hlow
  obtain ⟨h1, h2⟩ := hhigh
  obtain ⟨x1, x2⟩ := hx
  refine ⟨lBound, rBound, low, high, hlv, hrv, hlov, hhiv, ?_⟩
  rw [getBound, hl, ok_bind, hr, ok_bind, hlo, ok_bind, hhi, ok_bind,
    signed_ok (by omega) (by omega), ok_bind, signed_ok (by omega) (by omega), ok_bind,
    signed_ok (by omega) (by omega), ok_bind, signed_ok (by omega) (by omega), ok_bind]

/-- The slices `get_bound` computes are ends of one increasing sequence. -/
theorem getBound_ok {t : EncTable} (p : t.Prepared) (hlow : InInt16 t.lowBound)
    (hhigh : InInt16 t.highBound) {x : Int} (lo : t.lowBound ≤ x) (hi : x ≤ t.highBound) :
    ∃ t', t.getBound x = .ok t' ∧ t'.symLow.toNat = t.lowerEnd x ∧
      t'.symHigh.toNat = t.lowerEnd (x + 1) ∧
      t'.totalFreqs.toNat = t.lowerEnd (t.highBound + 1) := by
  have hx : InInt16 x := ⟨hlow.1.trans lo, hi.trans hhigh.2⟩
  obtain ⟨lBound, rBound, low, high, hlv, hrv, hlov, hhiv, hrun⟩ :=
    getBound_run p.weighed p.stds_ne hlow hhigh hx
  obtain ⟨l1, l2⟩ := hlow
  obtain ⟨h1, h2⟩ := hhigh
  rw [← edge_succ] at hrv hhiv
  have hvalue (v : UInt64) (y : Int) (hv : v.toNat = t.cumulative (edge y false))
      (hy : t.lowBound ≤ y) (hy' : y - t.lowBound ≤ 65536) :
      (v - lBound + UInt64.ofInt (y - t.lowBound)).toUInt32.toNat = t.lowerEnd y := by
    have hbase := cumulative_mono p (edge_mono hy false)
    have hle := cumulative_le p.weighed (edge y false)
    rw [UInt64.toNat_toUInt32, UInt64.toNat_add, UInt64.toNat_sub, hv, hlv,
      toNat_ofInt (by omega) (by omega), lowerEnd]
    omega
  refine ⟨_, hrun, hvalue low x hlov lo (by omega), ?_, ?_⟩
  · have hsucc : x - t.lowBound + 1 = x + 1 - t.lowBound := by omega
    simp only [hsucc]
    exact hvalue high (x + 1) hhiv (by omega) (by omega)
  · have hsucc : t.highBound - t.lowBound + 1 = t.highBound + 1 - t.lowBound := by omega
    simp only [hsucc]
    exact hvalue rBound (t.highBound + 1) hrv (by omega) (by omega)

/-- How far below the largest logit a logit falls in the table. -/
theorem logit_range {d : Int} (lo : -65535 ≤ d) (hi : d ≤ 0) :
    -10000 ≤ (d * 1000).tdiv 10000 ∧ (d * 1000).tdiv 10000 ≤ 0 := by
  constructor
  · have h := Int.tdiv_le_tdiv (a := -100000000) (b := d * 1000) (c := 10000) (by omega) (by omega)
    have hten : Int.tdiv (-100000000) 10000 = -10000 := by decide
    omega
  · have h := Int.tdiv_le_tdiv (a := d * 1000) (b := 0) (c := 10000) (by omega) (by omega)
    simpa using h

theorem softmaxEntry_ok {T : Tables} (sized : T.Sized) {probs : Fin 3 → Int} {mx : Int}
    (hprobs : ∀ i, InInt16 (probs i)) (hmx : ∀ i, probs i ≤ mx) (hmx' : InInt16 mx) (i : Fin 3) :
    ∃ e, softmaxEntry probs mx 10000 T.expTable 1000 12000 i = .ok e ∧ 0 ≤ e ∧ e ≤ 65535 ∧
      (probs i = mx → 0 < e) := by
  obtain ⟨lo, hi⟩ := hprobs i
  obtain ⟨mlo, mhi⟩ := hmx'
  have hle := hmx i
  have hlen := sized.exp_length
  have hscale : ((10000 : UInt16).toNat : Int) = 10000 := rfl
  obtain ⟨hup, hdown⟩ := logit_range (show -65535 ≤ probs i - mx by omega) (by omega)
  generalize hq : ((probs i - mx) * 1000).tdiv 10000 = q at hdown hup
  have hidx : (max (q + 12000) 0).toNat < T.expTable.length := by omega
  have hrun : softmaxEntry probs mx 10000 T.expTable 1000 12000 i =
      .ok (T.expTable[(max (q + 12000) 0).toNat].toNat : Int) := by
    rw [softmaxEntry, signed_ok (by omega) (by omega), ok_bind, signed_ok (by omega) (by omega),
      ok_bind, hscale, quotient_ok (by decide), ok_bind, hq, signed_ok (by omega) (by omega),
      ok_bind, index_ok (by omega) hidx, ok_bind]
  have hlt := T.expTable[(max (q + 12000) 0).toNat].toNat_lt
  refine ⟨_, hrun, by omega, by omega, ?_⟩
  intro htop
  have hq0 : q = 0 := by
    rw [← hq, htop]
    simp
  have hpos := sized.exp_pos (T.expTable[(max (q + 12000) 0).toNat]) (by
    have h12 : (max (q + 12000) 0).toNat = 12000 := by omega
    rw [← List.getElem?_eq_getElem hidx, h12])
  omega

theorem le_max_probs (probs : Fin 3 → Int) (i : Fin 3) :
    probs i ≤ max (probs 0) (max (probs 1) (probs 2)) := by
  fin_cases i <;> simp

theorem max_probs_inInt16 {probs : Fin 3 → Int} (hprobs : ∀ i, InInt16 (probs i)) :
    InInt16 (max (probs 0) (max (probs 1) (probs 2))) := by
  have h0 := hprobs 0
  have h1 := hprobs 1
  have h2 := hprobs 2
  unfold InInt16 at *
  omega

/-- The shares of the components, of which one at least is positive. -/
theorem softmax_ok {T : Tables} (sized : T.Sized) {probs : Fin 3 → Int}
    (hprobs : ∀ i, InInt16 (probs i)) :
    ∃ q, softmax probs 10000 T.expTable 1000 (-12) = .ok (q, ∑ i, q i) ∧
      (∀ i, 0 ≤ q i ∧ q i ≤ 65535) ∧ 0 < ∑ i, q i := by
  have hmax := le_max_probs probs
  have hmax' := max_probs_inInt16 hprobs
  have hattained : probs 0 = max (probs 0) (max (probs 1) (probs 2)) ∨
      probs 1 = max (probs 0) (max (probs 1) (probs 2)) ∨
      probs 2 = max (probs 0) (max (probs 1) (probs 2)) := by omega
  obtain ⟨e0, hr0, lo0, hi0, pos0⟩ := softmaxEntry_ok sized hprobs hmax hmax' 0
  obtain ⟨e1, hr1, lo1, hi1, pos1⟩ := softmaxEntry_ok sized hprobs hmax hmax' 1
  obtain ⟨e2, hr2, lo2, hi2, pos2⟩ := softmaxEntry_ok sized hprobs hmax hmax' 2
  have hpos : 0 < e0 + e1 + e2 := by
    obtain h0 | h1 | h2 := hattained
    · have := pos0 h0
      omega
    · have := pos1 h1
      omega
    · have := pos2 h2
      omega
  have hsum : ∑ i, (![e0, e1, e2] : Fin 3 → Int) i = e0 + e1 + e2 := Fin.sum_univ_three _
  refine ⟨![e0, e1, e2], ?_, ?_, by rwa [hsum]⟩
  · rw [softmax, signed_ok (by decide) (by decide), ok_bind,
      show (- -12 : Int) * 1000 = 12000 by decide, hr0, ok_bind, hr1, ok_bind, hr2, ok_bind,
      signed_ok (by omega) (by omega), ok_bind, signed_ok (by omega) (by omega), ok_bind, hsum]
  · intro i
    fin_cases i
    · exact ⟨lo0, hi0⟩
    · exact ⟨lo1, hi1⟩
    · exact ⟨lo2, hi2⟩

/-- The constants `codings` leaves in a table between symbols. -/
structure Configured (t : EncTable) (T : Tables) (lowBound highBound : Int) : Prop where
  tables : t.tables = T
  expScale : t.expScale = 1000
  expXBound : t.expXBound = -12
  cdfScale : t.cdfScale = 10000
  cdfXBound : t.cdfXBound = -5
  scalePred : t.scalePred = 10000
  freqsResolution : t.freqsResolution = 1000000
  lowBound : t.lowBound = lowBound
  highBound : t.highBound = highBound

/-- What `update` leaves, whatever the deviations. -/
theorem update_weighed {t : EncTable} {T : Tables} {l h : Int} (c : t.Configured T l h)
    (sized : T.Sized) {probs means : Fin 3 → Int} (hprobs : ∀ i, InInt16 (probs i))
    (hmeans : ∀ i, InInt16 (means i)) (stds : Fin 3 → Int) :
    ∃ t', t.update probs means stds = .ok t' ∧ t'.Weighed ∧ t'.Configured T l h ∧
      t'.stds = stds := by
  obtain ⟨q, hsoft, hrange, hpos⟩ := softmax_ok sized hprobs
  have hscale : UInt16.ofInt 10000 = 10000 := rfl
  have hsum : ((UInt32.ofInt (∑ i, q i)).toNat : Int) = ∑ i, q i := by
    have h0 := hrange 0
    have h1 := hrange 1
    have h2 := hrange 2
    rw [Fin.sum_univ_three, UInt32.ofInt, UInt32.toNat_ofNat', Int.emod_eq_of_lt (by omega)
      (by omega)]
    omega
  refine ⟨{ t with
    probs := q
    means := means
    stds := stds
    probSum := UInt32.ofInt (∑ i, q i) }, ?_, ?_, ?_, rfl⟩
  · rw [update, c.tables, c.expScale, c.expXBound, c.scalePred, hscale, hsoft, ok_bind]
  · exact { sized := c.tables ▸ sized
            cdfScale := c.cdfScale
            cdfXBound := c.cdfXBound
            scalePred := c.scalePred
            freqsResolution := c.freqsResolution
            means := hmeans
            probs := hrange
            probSum := hsum
            probSum_pos := Int.natCast_pos.mp (hsum.symm ▸ hpos) }
  · exact ⟨c.tables, c.expScale, c.expXBound, c.cdfScale, c.cdfXBound, c.scalePred,
      c.freqsResolution, c.lowBound, c.highBound⟩

theorem update_ok {t : EncTable} {T : Tables} {l h : Int} (c : t.Configured T l h)
    (usable : T.Usable) {probs means stds : Fin 3 → Int} (hprobs : ∀ i, InInt16 (probs i))
    (hmeans : ∀ i, InInt16 (means i)) (hstds : ∀ i, 1 ≤ stds i) :
    ∃ t', t.update probs means stds = .ok t' ∧ t'.Prepared ∧ t'.Configured T l h := by
  obtain ⟨t', hrun, w, c', rfl⟩ := update_weighed c usable.sized hprobs hmeans stds
  exact ⟨t', hrun, { w with usable := c'.tables ▸ usable, stds := hstds }, c'⟩

theorem getBound_configured {t t' : EncTable} {T : Tables} {l h x : Int}
    (c : t.Configured T l h) (hrun : t.getBound x = .ok t') : t'.Configured T l h := by
  have hfields : ∃ a b d e f, t' = { t with
      lBound := a
      rBound := b
      symLow := d
      symHigh := e
      totalFreqs := f } := by
    unfold getBound at hrun
    repeat' (obtain ⟨_, _, hrun⟩ := bind_ok hrun)
    exact ⟨_, _, _, _, _, (Except.ok.inj hrun).symm⟩
  obtain ⟨a, b, d, e, f, rfl⟩ := hfields
  exact ⟨c.tables, c.expScale, c.expXBound, c.cdfScale, c.cdfXBound, c.scalePred,
    c.freqsResolution, c.lowBound, c.highBound⟩

end EncTable
end Soc
