import Soc.Coding.Lossless
import Soc.Foundation.Noted

/-!
The divisors and the table indices of `codings`.

The functions of the encoder are written out once more and note every divisor and every index,
before it is used. Without the notes they are the functions they were.
-/
namespace Soc
open ArithmeticCoderBase

-- the three parts of a mixture are written as numerals
local instance instNeZeroThree : NeZero 3 := ⟨by decide⟩

/-- A divisor, or an index into one of the two tables. -/
inductive Check where
  | divisor (d : Int)
  | expIndex (i : Int)
  | cdfIndex (i : Int)

def Check.Sound : Check → Prop
  | .divisor d => d ≠ 0
  | .expIndex i => 0 ≤ i ∧ i ≤ 12000
  | .cdfIndex i => 0 ≤ i ∧ i ≤ 100000

/-- Computations that note their divisors and indices. -/
abbrev Checks : Type → Type := Noted Check Fault

def divide (a b : Int) : Checks Int := .note (.divisor b) (quotient a b)

def softmaxEntryChecks (probs : Fin 3 → Int) (mx : Int) (scalePred : UInt16)
    (expTable : List UInt16) (scale base : Int) (i : Fin 3) : Checks Int := do
  let idx ← .lift (signed 32 (probs i - mx))
  let idx ← .lift (signed 64 (idx * scale))
  let idx ← divide idx scalePred.toNat
  let idx ← .lift (signed 64 (idx + base))
  let entry ← .note (.expIndex (max idx 0)) (index expTable (max idx 0))
  pure entry.toNat

def softmaxChecks (probs : Fin 3 → Int) (scalePred : UInt16) (expTable : List UInt16)
    (scale xBound : Int) : Checks ((Fin 3 → Int) × Int) := do
  let mx := max (probs 0) (max (probs 1) (probs 2))
  let base ← .lift (signed 32 (-xBound * scale))
  let p0 ← softmaxEntryChecks probs mx scalePred expTable scale base 0
  let p1 ← softmaxEntryChecks probs mx scalePred expTable scale base 1
  let p2 ← softmaxEntryChecks probs mx scalePred expTable scale base 2
  let sum ← .lift (signed 32 (p0 + p1))
  let sum ← .lift (signed 32 (sum + p2))
  pure (![p0, p1, p2], sum)

namespace EncTable

def updateChecks (t : EncTable) (probs means stds : Fin 3 → Int) : Checks EncTable := do
  let (probs, sum) ←
    softmaxChecks probs (UInt16.ofInt t.scalePred) t.tables.expTable t.expScale t.expXBound
  pure { t with probs, means, stds, probSum := UInt32.ofInt sum }

def cdfIndexChecks (t : EncTable) (x : Int) (right : Bool) (i : Fin 3) : Checks Int := do
  let base ← .lift (signed 32 (-t.cdfXBound * t.cdfScale))
  let center ← .lift (signed 32 (x * t.scalePred))
  let center ← .lift (signed 32 (center - t.means i))
  let half ← divide t.scalePred 2
  let edge ← .lift (signed 32 (if right then center + half else center - half))
  let scaled ← .lift (signed 64 (edge * t.cdfScale))
  let idx ← divide scaled (t.stds i)
  pure (clamp idx (-base) base + base)

def weightChecks (t : EncTable) (x : Int) (right : Bool) (i : Fin 3) : Checks UInt64 := do
  let idx ← t.cdfIndexChecks x right i
  let entry ← .note (.cdfIndex idx) (index t.tables.cdfTable idx)
  .note (.divisor t.probSum.toNat) <|
    if t.probSum = 0 then .error .divisionByZero
    else .ok (UInt64.ofInt t.freqsResolution * entry.toUInt64 / t.probSum.toUInt64 *
      UInt64.ofInt (t.probs i))

def mixtureChecks (t : EncTable) (x : Int) (right : Bool) : Checks UInt64 := do
  let w0 ← t.weightChecks x right 0
  let w1 ← t.weightChecks x right 1
  let w2 ← t.weightChecks x right 2
  .note (.divisor 0xFFFFFFFF) (.ok ((w0 + w1 + w2) / 0xFFFFFFFF))

def getBoundChecks (t : EncTable) (x : Int) : Checks EncTable := do
  let lBound ← t.mixtureChecks t.lowBound false
  let rBound ← t.mixtureChecks t.highBound true
  let low ← t.mixtureChecks x false
  let high ← t.mixtureChecks x true
  let before ← .lift (signed 32 (x - t.lowBound))
  let upto ← .lift (signed 32 (before + 1))
  let span ← .lift (signed 32 (t.highBound - t.lowBound))
  let count ← .lift (signed 32 (span + 1))
  pure { t with
    lBound, rBound
    symLow := (low - lBound + UInt64.ofInt before).toUInt32
    symHigh := (high - lBound + UInt64.ofInt upto).toUInt32
    totalFreqs := (rBound - lBound + UInt64.ofInt count).toUInt32 }

end EncTable

/-- The divisor of `update` is the total. -/
def writeChecks (charIsSigned : Bool) (s : Coder) (t : Triple) : Checks Coder :=
  .note (.divisor t.total.toNat) (ArithmeticEncoder.write charIsSigned s t)

def codeSymbolChecks (charIsSigned : Bool) (t : EncTable) (g : Gmm) (x : Int16) (s : Coder) :
    Checks (EncTable × Coder) := do
  let t ← t.updateChecks g.probs g.means g.stds
  let t ← t.getBoundChecks x.toInt
  let s ← writeChecks charIsSigned s t.triple
  pure (t, s)

def codeSymbolsChecks (charIsSigned : Bool) : EncTable → List Gmm → List Int16 → Coder →
    Checks Coder
  | _, _, [], s => pure s
  | _, [], _ :: _, _ => .lift (.error .outOfBounds)
  | t, g :: gmm, x :: xs, s => do
    let (t, s) ← codeSymbolChecks charIsSigned t g x s
    codeSymbolsChecks charIsSigned t gmm xs s

def codeSubbandChecks (charIsSigned : Bool) (T : Tables) (gmmScale : Int) (b : Subband)
    (s : Coder) : Checks (List UInt8 × Coder) := do
  let xs ← .lift (elements b.datum b.count)
  let xmax := maxElement xs
  let xmin := minElement xs
  let header := storeInt16 xmin ++ storeInt16 xmax
  if xmin ≥ xmax then pure (header, s)
  else do
    let s ← codeSymbolsChecks charIsSigned (freqsTable T gmmScale xmin xmax) b.gmm xs s
    pure (header, s)

def codeSubbandsChecks (charIsSigned : Bool) (T : Tables) (gmmScale : Int) :
    List Subband → Coder → Checks (List UInt8 × Coder)
  | [], s => pure ([], s)
  | b :: bs, s => do
    let (header, s) ← codeSubbandChecks charIsSigned T gmmScale b s
    let (headers, s) ← codeSubbandsChecks charIsSigned T gmmScale bs s
    pure (header ++ headers, s)

def codingsChecks (charIsSigned : Bool) (T : Tables) (gmms : Fin subCnt → List Gmm)
    (data : Fin subCnt → List Int16) (lens : Fin subCnt → UInt64) (gmmScale : Int) :
    Checks CodingResult := do
  let sumLen := accumulate (List.ofFn lens)
  let c ← .lift (ArithmeticCoderBase.new 32)
  let (header, s) ← codeSubbandsChecks charIsSigned T gmmScale (subbands gmms data lens)
    (c, ArithmeticEncoder.new BitOutputStream.new)
  let e ← .lift (s.2.finish charIsSigned)
  let bout ← .lift (e.output.finish charIsSigned)
  .lift <|
    if blockSize sumLen < subCnt * 4 + bout.size then .error .outOfBounds
    else .ok ⟨header ++ bout.data, bout.size + subCnt * 4⟩

/-! Without the notes. -/

theorem divide_result (a b : Int) : (divide a b).result = quotient a b := rfl

theorem softmaxEntryChecks_result (probs : Fin 3 → Int) (mx : Int) (scalePred : UInt16)
    (expTable : List UInt16) (scale base : Int) (i : Fin 3) :
    (softmaxEntryChecks probs mx scalePred expTable scale base i).result =
      softmaxEntry probs mx scalePred expTable scale base i := by
  simp only [softmaxEntryChecks, softmaxEntry, Noted.result_bind, Noted.result_lift,
    Noted.result_note, Noted.result_pure, divide_result]

theorem softmaxChecks_result (probs : Fin 3 → Int) (scalePred : UInt16) (expTable : List UInt16)
    (scale xBound : Int) : (softmaxChecks probs scalePred expTable scale xBound).result =
      softmax probs scalePred expTable scale xBound := by
  simp only [softmaxChecks, softmax, Noted.result_bind, Noted.result_lift, Noted.result_pure,
    softmaxEntryChecks_result]

namespace EncTable

theorem updateChecks_result (t : EncTable) (probs means stds : Fin 3 → Int) :
    (t.updateChecks probs means stds).result = t.update probs means stds := by
  rw [updateChecks, update, Noted.result_bind, softmaxChecks_result]
  rfl

theorem cdfIndexChecks_result (t : EncTable) (x : Int) (right : Bool) (i : Fin 3) :
    (t.cdfIndexChecks x right i).result = t.cdfIndex x right i := by
  simp only [cdfIndexChecks, cdfIndex, Noted.result_bind, Noted.result_lift, Noted.result_pure,
    divide_result]

theorem weightChecks_result (t : EncTable) (x : Int) (right : Bool) (i : Fin 3) :
    (t.weightChecks x right i).result = t.weight x right i := by
  simp only [weightChecks, weight, Noted.result_bind, Noted.result_note, cdfIndexChecks_result]

theorem mixtureChecks_result (t : EncTable) (x : Int) (right : Bool) :
    (t.mixtureChecks x right).result = t.mixture x right := by
  simp only [mixtureChecks, mixture, Noted.result_bind, Noted.result_note, weightChecks_result]

theorem getBoundChecks_result (t : EncTable) (x : Int) :
    (t.getBoundChecks x).result = t.getBound x := by
  simp only [getBoundChecks, getBound, Noted.result_bind, Noted.result_lift, Noted.result_pure,
    mixtureChecks_result]

end EncTable

section Results
variable (charIsSigned : Bool)

theorem codeSymbolChecks_result (t : EncTable) (g : Gmm) (x : Int16) (s : Coder) :
    (codeSymbolChecks charIsSigned t g x s).result = codeSymbol charIsSigned t g x s := by
  simp only [codeSymbolChecks, codeSymbol, writeChecks, Noted.result_bind, Noted.result_note,
    Noted.result_pure, EncTable.updateChecks_result, EncTable.getBoundChecks_result]

theorem codeSymbolsChecks_result (t : EncTable) (gmm : List Gmm) (xs : List Int16) (s : Coder) :
    (codeSymbolsChecks charIsSigned t gmm xs s).result = codeSymbols charIsSigned t gmm xs s := by
  induction xs generalizing t gmm s with
  | nil => cases gmm <;> rfl
  | cons x xs ih =>
      cases gmm with
      | nil => rfl
      | cons g gmm =>
          rw [codeSymbolsChecks, codeSymbols, Noted.result_bind, codeSymbolChecks_result]
          simp only [ih]

theorem codeSubbandChecks_result (T : Tables) (gmmScale : Int) (b : Subband) (s : Coder) :
    (codeSubbandChecks charIsSigned T gmmScale b s).result =
      codeSubband charIsSigned T gmmScale b s := by
  rw [codeSubbandChecks, codeSubband, Noted.result_bind, Noted.result_lift]
  congr 1
  funext xs
  dsimp only
  split
  · rfl
  · rw [Noted.result_bind, codeSymbolsChecks_result]
    rfl

theorem codeSubbandsChecks_result (T : Tables) (gmmScale : Int) (bs : List Subband) (s : Coder) :
    (codeSubbandsChecks charIsSigned T gmmScale bs s).result =
      codeSubbands charIsSigned T gmmScale bs s := by
  induction bs generalizing s with
  | nil => rfl
  | cons b bs ih =>
      simp only [codeSubbandsChecks, codeSubbands, Noted.result_bind, Noted.result_pure,
        codeSubbandChecks_result, ih]

theorem codingsChecks_result (T : Tables) (gmms : Fin subCnt → List Gmm)
    (data : Fin subCnt → List Int16) (lens : Fin subCnt → UInt64) (gmmScale : Int) :
    (codingsChecks charIsSigned T gmms data lens gmmScale).result =
      codings charIsSigned T gmms data lens gmmScale := by
  simp only [codingsChecks, codings, Noted.result_bind, Noted.result_lift,
    codeSubbandsChecks_result]

end Results

/-! Which notes are sound. -/

theorem divide_bind {α : Type} {a b : Int} {f : Int → Checks α} (hb : b ≠ 0) :
    (divide a b >>= f).All Check.Sound ↔ (f (a.tdiv b)).All Check.Sound := by
  rw [divide, Noted.all_note_bind (quotient_ok hb)]
  exact and_iff_right hb

theorem softmaxEntryChecks_all {T : Tables} (sized : T.Sized) {probs : Fin 3 → Int} {mx : Int}
    (hprobs : ∀ i, InInt16 (probs i)) (hmx : ∀ i, probs i ≤ mx) (hmx' : InInt16 mx) (i : Fin 3) :
    (softmaxEntryChecks probs mx 10000 T.expTable 1000 12000 i).All Check.Sound := by
  obtain ⟨lo, hi⟩ := hprobs i
  obtain ⟨mlo, mhi⟩ := hmx'
  have hle := hmx i
  have hlen := sized.exp_length
  have hscale : ((10000 : UInt16).toNat : Int) = 10000 := rfl
  obtain ⟨hup, hdown⟩ := EncTable.logit_range (show -65535 ≤ probs i - mx by omega) (by omega)
  rw [softmaxEntryChecks, Noted.all_lift_bind (signed_ok (by omega) (by omega)),
    Noted.all_lift_bind (signed_ok (by omega) (by omega)), hscale, divide_bind (by decide),
    Noted.all_lift_bind (signed_ok (by omega) (by omega))]
  refine Noted.all_bind.mpr ⟨Noted.all_note.mpr ⟨by omega, by omega⟩, fun _ _ => Noted.all_pure _⟩

/-- The divisor of `softmax` is a constant, and its indices never leave the table. -/
theorem softmaxChecks_all {T : Tables} (sized : T.Sized) {probs : Fin 3 → Int}
    (hprobs : ∀ i, InInt16 (probs i)) :
    (softmaxChecks probs 10000 T.expTable 1000 (-12)).All Check.Sound := by
  have hentry := softmaxEntryChecks_all sized hprobs (EncTable.le_max_probs probs)
    (EncTable.max_probs_inInt16 hprobs)
  rw [softmaxChecks, Noted.all_lift_bind (signed_ok (by decide) (by decide))]
  refine (hentry 0).bind fun _ _ => (hentry 1).bind fun _ _ => (hentry 2).bind fun _ _ => ?_
  exact (Noted.all_lift _).bind fun _ _ => (Noted.all_lift _).bind fun _ _ => Noted.all_pure _

namespace EncTable
variable {t : EncTable} {T : Tables} {l h : Int}

theorem updateChecks_all (c : t.Configured T l h) (sized : T.Sized) {probs : Fin 3 → Int}
    (hprobs : ∀ i, InInt16 (probs i)) (means stds : Fin 3 → Int) :
    (t.updateChecks probs means stds).All Check.Sound := by
  rw [updateChecks, c.tables, c.expScale, c.expXBound, c.scalePred]
  exact (softmaxChecks_all sized hprobs).bind fun _ _ => Noted.all_pure _

theorem cdfIndexChecks_all (p : t.Weighed) {x : Int} (hx : InInt16 x) (right : Bool)
    (i : Fin 3) : (t.cdfIndexChecks x right i).All Check.Sound ↔ t.stds i ≠ 0 := by
  obtain ⟨lo, hi⟩ := hx
  obtain ⟨mlo, mhi⟩ := p.means i
  have hhalf : Int.tdiv 10000 2 = 5000 := by decide
  have hedge : -400000000 ≤ (if right then x * 10000 - t.means i + 5000
      else x * 10000 - t.means i - 5000) ∧ (if right then x * 10000 - t.means i + 5000
      else x * 10000 - t.means i - 5000) ≤ 400000000 := by
    split <;> omega
  rw [cdfIndexChecks, p.cdfScale, p.cdfXBound, p.scalePred,
    Noted.all_lift_bind (signed_ok (by omega) (by omega)),
    Noted.all_lift_bind (signed_ok (by omega) (by omega)),
    Noted.all_lift_bind (signed_ok (by omega) (by omega)), divide_bind (by decide), hhalf,
    Noted.all_lift_bind (signed_ok (by omega) (by omega)),
    Noted.all_lift_bind (signed_ok (by omega) (by omega)), divide, Noted.all_bind, Noted.all_note]
  exact and_iff_left fun _ _ => Noted.all_pure _

theorem weightChecks_all (p : t.Weighed) {x : Int} (hx : InInt16 x) (right : Bool)
    (i : Fin 3) : (t.weightChecks x right i).All Check.Sound ↔ t.stds i ≠ 0 := by
  rw [weightChecks, Noted.all_bind, cdfIndexChecks_all p hx]
  refine and_iff_left_of_imp ?_
  intro hstd idx hidx
  rw [cdfIndexChecks_result, cdfIndex_ok p hx right hstd] at hidx
  cases hidx
  have hpos := p.probSum_pos
  refine Noted.all_bind.mpr ⟨Noted.all_note.mpr (cdfPos_range t _ i), fun _ _ => ?_⟩
  refine Noted.all_note.mpr ?_
  change (t.probSum.toNat : Int) ≠ 0
  omega

theorem mixtureChecks_all (p : t.Weighed) {x : Int} (hx : InInt16 x) (right : Bool) :
    (t.mixtureChecks x right).All Check.Sound ↔ ∀ i, t.stds i ≠ 0 := by
  constructor
  · intro hall
    rw [mixtureChecks, Noted.all_bind, weightChecks_all p hx] at hall
    obtain ⟨h0, hall⟩ := hall
    obtain ⟨w0, hw0, -⟩ := weight_ok p hx right h0
    have hall := hall w0 ((t.weightChecks_result x right 0).trans hw0)
    rw [Noted.all_bind, weightChecks_all p hx] at hall
    obtain ⟨h1, hall⟩ := hall
    obtain ⟨w1, hw1, -⟩ := weight_ok p hx right h1
    have hall := hall w1 ((t.weightChecks_result x right 1).trans hw1)
    rw [Noted.all_bind, weightChecks_all p hx] at hall
    intro i
    fin_cases i
    · exact h0
    · exact h1
    · exact hall.1
  · intro hstds
    have hweight := fun i => (weightChecks_all p hx right i).mpr (hstds i)
    refine (hweight 0).bind fun _ _ => (hweight 1).bind fun _ _ => (hweight 2).bind fun _ _ => ?_
    refine Noted.all_note.mpr ?_
    change (4294967295 : Int) ≠ 0
    decide

theorem getBoundChecks_all (p : t.Weighed) (hlow : InInt16 t.lowBound)
    (hhigh : InInt16 t.highBound) {x : Int} (hx : InInt16 x) :
    (t.getBoundChecks x).All Check.Sound ↔ ∀ i, t.stds i ≠ 0 := by
  constructor
  · intro hall
    rw [getBoundChecks, Noted.all_bind] at hall
    exact (mixtureChecks_all p hlow false).mp hall.1
  · intro hstds
    have hmixture {y : Int} (hy : InInt16 y) (right : Bool) :=
      (mixtureChecks_all p hy right).mpr hstds
    refine (hmixture hlow false).bind fun _ _ => (hmixture hhigh true).bind fun _ _ => ?_
    refine (hmixture hx false).bind fun _ _ => (hmixture hx true).bind fun _ _ => ?_
    refine (Noted.all_lift _).bind fun _ _ => (Noted.all_lift _).bind fun _ _ => ?_
    exact (Noted.all_lift _).bind fun _ _ => (Noted.all_lift _).bind fun _ _ => Noted.all_pure _

/-- The mixture falls over the range of the table by as much as its symbols add. -/
def Cancels (t : EncTable) : Prop :=
  (t.cumulative (edge t.highBound true) : Int) + (t.highBound - t.lowBound + 1) =
    t.cumulative (edge t.lowBound false)

theorem total_eq_zero {l r : UInt64} {n : Int} (hl : l.toNat ≤ 1000000) (hr : r.toNat ≤ 1000000)
    (lo : 1 ≤ n) (hi : n ≤ 65536) :
    (r - l + UInt64.ofInt n).toUInt32 = 0 ↔ (r.toNat : Int) + n = l.toNat := by
  have hzero : (0 : UInt32).toNat = 0 := rfl
  rw [← UInt32.toNat_inj, UInt64.toNat_toUInt32, UInt64.toNat_add, UInt64.toNat_sub,
    toNat_ofInt (by omega) (by omega), hzero]
  omega

theorem getBound_total (p : t.Weighed) (hstds : ∀ i, t.stds i ≠ 0) (hlow : InInt16 t.lowBound)
    (hhigh : InInt16 t.highBound) (hle : t.lowBound ≤ t.highBound) {x : Int} (hx : InInt16 x) :
    ∃ t', t.getBound x = .ok t' ∧ (t'.totalFreqs = 0 ↔ t.Cancels) := by
  obtain ⟨lBound, rBound, low, high, hlv, hrv, -, -, hrun⟩ := getBound_run p hstds hlow hhigh hx
  refine ⟨_, hrun, ?_⟩
  obtain ⟨l1, l2⟩ := hlow
  obtain ⟨h1, h2⟩ := hhigh
  rw [Cancels, ← hlv, ← hrv]
  refine total_eq_zero ?_ ?_ (by omega) (by omega)
  · rw [hlv]
    exact cumulative_le p _
  · rw [hrv]
    exact cumulative_le p _

/-- What `update` leaves depends on the table it is called on only by its constants. -/
theorem update_cancels {t₀ t₀' t' : EncTable} (c : t.Configured T l h)
    (c₀ : t₀.Configured T l h) {probs means stds : Fin 3 → Int}
    (hrun : t.update probs means stds = .ok t') (hrun₀ : t₀.update probs means stds = .ok t₀') :
    t'.Cancels ↔ t₀'.Cancels := by
  rw [update, c.tables, c.expScale, c.expXBound, c.scalePred] at hrun
  rw [update, c₀.tables, c₀.expScale, c₀.expXBound, c₀.scalePred] at hrun₀
  obtain ⟨p, hsoft, hrun⟩ := bind_ok hrun
  rw [hsoft, ok_bind] at hrun₀
  cases hrun
  cases hrun₀
  unfold Cancels cumulative mass cdfEntry cdfPos
  simp only [c.lowBound, c.highBound, c₀.lowBound, c₀.highBound]

end EncTable

/-- A mixture that a symbol of a subband can be coded against. -/
structure Gmm.Codable (T : Tables) (xmin xmax : Int16) (g : Gmm) : Prop where
  stds : ∀ i, g.stds i ≠ 0
  total : ∀ t, (freqsTable T 10000 xmin xmax).update g.probs g.means g.stds = .ok t → ¬ t.Cancels

/-- Positive deviations and a table of cumulative values are enough. -/
theorem Gmm.codable_of_pos {T : Tables} (usable : T.Usable) {xmin xmax : Int16}
    (hle : xmin < xmax) {g : Gmm} (hstds : ∀ i, 1 ≤ g.stds i) : g.Codable T xmin xmax := by
  have hbounds : xmin.toInt < xmax.toInt := Int16.lt_iff_toInt_lt.mp hle
  refine ⟨fun i => ?_, fun t hrun hcancels => ?_⟩
  · have h := hstds i
    omega
  · obtain ⟨t', hrun', p, c⟩ := EncTable.update_ok (freqsTable_configured T xmin xmax) usable
      g.inInt16.1 g.inInt16.2 hstds
    rw [hrun] at hrun'
    cases hrun'
    have hedge : EncTable.edge t.lowBound false ≤ EncTable.edge t.highBound true := by
      rw [c.lowBound, c.highBound]
      simp only [EncTable.edge, Bool.false_eq_true, if_false, if_true]
      omega
    have hmono := EncTable.cumulative_mono p hedge
    rw [EncTable.Cancels, c.lowBound, c.highBound] at hcancels
    rw [c.lowBound, c.highBound] at hmono
    omega

theorem writeChecks_all (charIsSigned : Bool) (s : Coder) (t : Triple) :
    (writeChecks charIsSigned s t).All Check.Sound ↔ t.total ≠ 0 := by
  rw [writeChecks, Noted.all_note, Check.Sound, Ne, Int.natCast_eq_zero, Ne, ← UInt32.toNat_inj]
  rfl

section Symbols
variable (charIsSigned : Bool) {T : Tables} (sized : T.Sized) {xmin xmax : Int16}
  (hle : xmin < xmax)
include sized hle

/-- The body of the inner loop is sound exactly on the mixtures that can be coded against. -/
theorem codeSymbolChecks_all {t : EncTable} (c : t.Configured T xmin.toInt xmax.toInt) (g : Gmm)
    (x : Int16) (s : Coder) :
    (codeSymbolChecks charIsSigned t g x s).All Check.Sound ↔ g.Codable T xmin xmax := by
  have hbounds : xmin.toInt ≤ xmax.toInt := Int.le_of_lt (Int16.lt_iff_toInt_lt.mp hle)
  obtain ⟨t₁, hup, w, c₁, hstds⟩ :=
    EncTable.update_weighed c sized g.inInt16.1 g.inInt16.2 g.stds
  obtain ⟨t₀, hup₀, -⟩ := EncTable.update_weighed (freqsTable_configured T xmin xmax) sized
    g.inInt16.1 g.inInt16.2 g.stds
  have hcancels := EncTable.update_cancels c (freqsTable_configured T xmin xmax) hup hup₀
  have hlow : InInt16 t₁.lowBound := c₁.lowBound ▸ inInt16 xmin
  have hhigh : InInt16 t₁.highBound := c₁.highBound ▸ inInt16 xmax
  have hrange : t₁.lowBound ≤ t₁.highBound := by rwa [c₁.lowBound, c₁.highBound]
  rw [codeSymbolChecks, Noted.all_bind_ok ((t.updateChecks_result _ _ _).trans hup),
    and_iff_right (EncTable.updateChecks_all c sized g.inInt16.1 _ _), Noted.all_bind,
    EncTable.getBoundChecks_all w hlow hhigh (inInt16 x)]
  constructor
  · intro ⟨hne, hwrite⟩
    refine ⟨hstds ▸ hne, ?_⟩
    intro t' hrun
    obtain ⟨t₂, hbound, htotal⟩ := EncTable.getBound_total w hne hlow hhigh hrange (inInt16 x)
    have hall := hwrite t₂ ((t₁.getBoundChecks_result _).trans hbound)
    rw [Noted.all_bind, writeChecks_all] at hall
    rw [hup₀] at hrun
    cases hrun
    rw [← hcancels, ← htotal]
    exact hall.1
  · intro h
    have hne : ∀ i, t₁.stds i ≠ 0 := hstds ▸ h.stds
    refine ⟨hne, ?_⟩
    intro t₂ hresult
    obtain ⟨t₂', hbound, htotal⟩ := EncTable.getBound_total w hne hlow hhigh hrange (inInt16 x)
    rw [EncTable.getBoundChecks_result, hbound] at hresult
    cases hresult
    have hnot := h.total t₀ hup₀
    rw [← hcancels, ← htotal] at hnot
    exact ((writeChecks_all charIsSigned s _).mpr hnot).bind fun _ _ => Noted.all_pure _

end Symbols

/-! Whole codings. -/

/-- Every symbol the inner loop comes to has a mixture with a property. -/
def EverySymbol (charIsSigned : Bool) (C : Gmm → Prop) : EncTable → List Gmm → List Int16 →
    Coder → Prop
  | _, _, [], _ => True
  | _, [], _ :: _, _ => True
  | t, g :: gmm, x :: xs, s =>
    C g ∧ ∀ t' s', codeSymbol charIsSigned t g x s = .ok (t', s') →
      EverySymbol charIsSigned C t' gmm xs s'

/-- Every symbol the loops of `codings` come to has a mixture with a property. -/
def EverySubband (charIsSigned : Bool) (T : Tables) (C : Int16 → Int16 → Gmm → Prop) :
    List Subband → Coder → Prop
  | [], _ => True
  | b :: bs, s =>
    (∀ xs, elements b.datum b.count = .ok xs → minElement xs < maxElement xs →
      EverySymbol charIsSigned (C (minElement xs) (maxElement xs))
        (freqsTable T 10000 (minElement xs) (maxElement xs)) b.gmm xs s) ∧
    ∀ header s', codeSubband charIsSigned T 10000 b s = .ok (header, s') →
      EverySubband charIsSigned T C bs s'

theorem EverySymbol.of_forall (charIsSigned : Bool) {C : Gmm → Prop} {gmm : List Gmm}
    (h : ∀ g ∈ gmm, C g) (t : EncTable) (xs : List Int16) (s : Coder) :
    EverySymbol charIsSigned C t gmm xs s := by
  induction xs generalizing gmm t s with
  | nil => cases gmm <;> exact trivial
  | cons x xs ih =>
      cases gmm with
      | nil => exact trivial
      | cons g gmm =>
          refine ⟨h g List.mem_cons_self, fun t' s' _ => ?_⟩
          exact ih (fun g hg => h g (List.mem_cons_of_mem _ hg)) t' s'

/-- A property of all mixtures is one of the mixtures that are come to. -/
theorem EverySubband.of_forall (charIsSigned : Bool) {T : Tables}
    {C : Int16 → Int16 → Gmm → Prop} {bs : List Subband}
    (h : ∀ b ∈ bs, ∀ g ∈ b.gmm, ∀ xmin xmax : Int16, xmin < xmax → C xmin xmax g) (s : Coder) :
    EverySubband charIsSigned T C bs s := by
  induction bs generalizing s with
  | nil => exact trivial
  | cons b bs ih =>
      constructor
      · intro xs _ hlt
        have hb := h b List.mem_cons_self
        exact EverySymbol.of_forall charIsSigned (fun g hg => hb g hg _ _ hlt) _ xs s
      · intro header s' _
        exact ih (fun b hb => h b (List.mem_cons_of_mem _ hb)) s'

section Codings
variable (charIsSigned : Bool) {T : Tables} (sized : T.Sized)
include sized

theorem codeSymbol_configured {t t' : EncTable} {l h : Int} (c : t.Configured T l h) {g : Gmm}
    {x : Int16} {s s' : Coder} (hrun : codeSymbol charIsSigned t g x s = .ok (t', s')) :
    t'.Configured T l h := by
  obtain ⟨t₁, hup, -, c₁, -⟩ := EncTable.update_weighed c sized g.inInt16.1 g.inInt16.2 g.stds
  rw [codeSymbol, hup, ok_bind] at hrun
  obtain ⟨t₂, hbound, hrun⟩ := bind_ok hrun
  obtain ⟨s₂, -, hrun⟩ := bind_ok hrun
  cases hrun
  exact EncTable.getBound_configured c₁ hbound

theorem codeSymbolsChecks_all {xmin xmax : Int16} (hle : xmin < xmax) {t : EncTable}
    (c : t.Configured T xmin.toInt xmax.toInt) (gmm : List Gmm) (xs : List Int16) (s : Coder) :
    (codeSymbolsChecks charIsSigned t gmm xs s).All Check.Sound ↔
      EverySymbol charIsSigned (Gmm.Codable T xmin xmax) t gmm xs s := by
  induction xs generalizing t gmm s with
  | nil => cases gmm <;> exact iff_of_true (Noted.all_pure _) trivial
  | cons x xs ih =>
      cases gmm with
      | nil => exact iff_of_true (Noted.all_lift _) trivial
      | cons g gmm =>
          rw [codeSymbolsChecks, EverySymbol, Noted.all_bind,
            codeSymbolChecks_all charIsSigned sized hle c, codeSymbolChecks_result]
          refine and_congr_right fun _ => ?_
          constructor
          · intro h t' s' hrun
            exact (ih (codeSymbol_configured charIsSigned sized c hrun) gmm s').mp (h _ hrun)
          · intro h ⟨t', s'⟩ hrun
            exact (ih (codeSymbol_configured charIsSigned sized c hrun) gmm s').mpr (h t' s' hrun)

theorem codeSubbandChecks_all (b : Subband) (s : Coder) :
    (codeSubbandChecks charIsSigned T 10000 b s).All Check.Sound ↔
      ∀ xs, elements b.datum b.count = .ok xs → minElement xs < maxElement xs →
        EverySymbol charIsSigned (Gmm.Codable T (minElement xs) (maxElement xs))
          (freqsTable T 10000 (minElement xs) (maxElement xs)) b.gmm xs s := by
  rw [codeSubbandChecks, Noted.all_bind, and_iff_right (Noted.all_lift _), Noted.result_lift]
  refine forall_congr' fun xs => imp_congr_right fun _ => ?_
  by_cases hle : minElement xs < maxElement xs
  · rw [if_neg (Int16.not_le.mpr hle), Noted.all_bind,
      codeSymbolsChecks_all charIsSigned sized hle (freqsTable_configured T _ _)]
    constructor
    · intro h _
      exact h.1
    · intro h
      exact ⟨h hle, fun _ _ => Noted.all_pure _⟩
  · rw [if_pos (Int16.not_lt.mp hle)]
    exact iff_of_true (Noted.all_pure _) fun h => absurd h hle

theorem codeSubbandsChecks_all (bs : List Subband) (s : Coder) :
    (codeSubbandsChecks charIsSigned T 10000 bs s).All Check.Sound ↔
      EverySubband charIsSigned T (Gmm.Codable T) bs s := by
  induction bs generalizing s with
  | nil => exact iff_of_true (Noted.all_pure _) trivial
  | cons b bs ih =>
      rw [codeSubbandsChecks, EverySubband, Noted.all_bind,
        codeSubbandChecks_all charIsSigned sized, codeSubbandChecks_result]
      refine and_congr_right fun _ => ?_
      constructor
      · intro h header s' hrun
        have hall := h _ hrun
        rw [Noted.all_bind] at hall
        exact (ih s').mp hall.1
      · intro h ⟨header, s'⟩ hrun
        exact ((ih s').mpr (h header s' hrun)).bind fun _ _ => Noted.all_pure _

/-- `codings` divides by no zero and stays in its tables exactly when every symbol it comes to
has deviations other than zero and a total other than zero. -/
theorem codings_sound_iff (gmms : Fin subCnt → List Gmm) (data : Fin subCnt → List Int16)
    (lens : Fin subCnt → UInt64) :
    (codingsChecks charIsSigned T gmms data lens 10000).All Check.Sound ↔
      ∀ c, ArithmeticCoderBase.new 32 = .ok c →
        EverySubband charIsSigned T (Gmm.Codable T) (subbands gmms data lens)
          (c, ArithmeticEncoder.new BitOutputStream.new) := by
  rw [codingsChecks, Noted.all_bind, and_iff_right (Noted.all_lift _), Noted.result_lift]
  refine forall_congr' fun c => imp_congr_right fun _ => ?_
  rw [Noted.all_bind, codeSubbandsChecks_all charIsSigned sized]
  refine and_iff_left fun _ _ => ?_
  refine (Noted.all_lift _).bind fun _ _ => (Noted.all_lift _).bind fun _ _ => ?_
  exact Noted.all_lift _

end Codings

/-- Three symbols in every subband, each with its own mixture. -/
theorem codings_sound_ramp :
    (codingsChecks true (rampTables 12001 100001)
      (fun _ => [⟨5, -3, 0, 0, 100, 7, 900, 1, 20⟩, ⟨0, 0, 0, 4, 4, 4, 1, 1, 1⟩,
        ⟨-9, 9, 9, 1, 2, 3, 30, 20, 10⟩])
      (fun i => [Int16.ofNat i, -4, 9]) (fun _ => 3) 10000).All Check.Sound := by
  have usable := rampTables_usable (Nat.le_refl 12001) (Nat.le_refl 100001) (Nat.le_refl 100001)
  refine (codings_sound_iff true usable.sized _ _ _).mpr fun c _ => ?_
  refine EverySubband.of_forall true (fun b hb g hg xmin xmax hlt => ?_) _
  obtain ⟨i, rfl⟩ := List.mem_ofFn.mp hb
  have hstds : ∀ g ∈ ([⟨5, -3, 0, 0, 100, 7, 900, 1, 20⟩, ⟨0, 0, 0, 4, 4, 4, 1, 1, 1⟩,
      ⟨-9, 9, 9, 1, 2, 3, 30, 20, 10⟩] : List Gmm), ∀ i, 1 ≤ g.stds i := by
    decide
  exact Gmm.codable_of_pos usable hlt (hstds g hg)

/-- A mixture whose deviations the accelerator left at zero. -/
theorem codings_zeroDeviation : ¬ (codingsChecks true (rampTables 12001 100001)
    (fun _ => [⟨5, -3, 0, 0, 100, 7, 0, 0, 0⟩, ⟨5, -3, 0, 0, 100, 7, 0, 0, 0⟩])
    (fun _ => [0, 1]) (fun _ => 2) 10000).All Check.Sound := by
  intro h
  have sized :=
    (rampTables_usable (Nat.le_refl 12001) (Nat.le_refl 100001) (Nat.le_refl 100001)).sized
  have hnew : ArithmeticCoderBase.new 32 = .ok ⟨⟨32, by decide, by decide⟩, 0,
    StateSize.stateMask ⟨32, by decide, by decide⟩⟩ := rfl
  rw [codingsChecks, Noted.all_lift_bind hnew, Noted.all_bind,
    codeSubbandsChecks_all true sized, subbands, List.ofFn_succ, EverySubband] at h
  have hxs : elements [0, 1] (narrow 32 (2 : UInt64).toNat) = .ok [0, 1] := by decide
  have hsymbol := h.1.1 [0, 1] hxs (by decide)
  rw [EverySymbol] at hsymbol
  exact hsymbol.1.stds 0 rfl

end Soc
