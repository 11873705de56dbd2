import Soc.Coding.Lossless
import Soc.Foundation.Information

/-!
How long the streams of `ArithmeticEncoder` are.

With every symbol the interval narrows to the symbol's share of it, but for what the cuts round
off: at most one, in a range that is never short of a quarter. The bits written and pending are
the halvings that keep the registers as wide as they were. So a stream is as long as its symbols
have information in the tables they are coded with, and a small part more for every symbol.
-/
namespace Soc
open BitString ArithmeticCoderBase ArithmeticEncoder Information

/-- The part of the total that the slice of a symbol takes. -/
def Triple.share (t : Triple) : ℚ := ((t.symHigh.toNat : ℚ) - t.symLow.toNat) / t.total.toNat

/-- What the cuts can take from a share, or add to it. -/
def StateSize.rounding (n : StateSize) : ℚ := 1 / n.minimumRange.toNat

/-- The bits that are written or pending. -/
def Coder.told (s : Coder) : Nat := s.2.output.bits.length + s.2.numUnderflow

def Coder.width (s : Coder) : ℚ := (segment s).upper - (segment s).lower

theorem div_bounds (x : Nat) {n : Nat} (hn : 0 < n) :
    (x : ℚ) / n - 1 ≤ (x / n : Nat) ∧ ((x / n : Nat) : ℚ) ≤ x / n := by
  refine ⟨?_, Nat.cast_div_le⟩
  have hn' : (0 : ℚ) < n := by exact_mod_cast hn
  have hlt : x < (x / n + 1) * n := by
    rw [Nat.mul_comm]
    exact Nat.lt_mul_div_succ x hn
  rw [sub_le_iff_le_add, div_le_iff₀ hn']
  exact_mod_cast hlt.le

section Narrowing
variable {size : StateSize} {t : Triple}

theorem Triple.Valid.total_pos (valid : t.Valid size) : 0 < t.total.toNat := by
  have hlow := valid.low_lt
  have hhigh := valid.high_le
  omega

/-- No slice is empty. -/
theorem Triple.Valid.le_share (valid : t.Valid size) {n : Nat} (hn : t.total.toNat ≤ n) :
    1 / (n : ℚ) ≤ t.share := by
  have htotal : (0 : ℚ) < t.total.toNat := by exact_mod_cast valid.total_pos
  have hslice : (1 : ℚ) ≤ (t.symHigh.toNat : ℚ) - t.symLow.toNat := by
    have hlow : t.symLow.toNat + 1 ≤ t.symHigh.toNat := valid.low_lt
    have hlow' : (t.symLow.toNat : ℚ) + 1 ≤ t.symHigh.toNat := by exact_mod_cast hlow
    linarith
  calc 1 / (n : ℚ) ≤ 1 / t.total.toNat := one_div_le_one_div_of_le htotal (by exact_mod_cast hn)
    _ ≤ t.share := div_le_div_of_nonneg_right hslice htotal.le

theorem Triple.Valid.share_pos (valid : t.Valid size) : 0 < t.share := by
  have hpos : 0 < t.total.toNat := valid.total_pos
  exact (by positivity : (0 : ℚ) < 1 / t.total.toNat).trans_le (valid.le_share (Nat.le_refl _))

theorem Triple.Valid.rounding_le (valid : t.Valid size) : size.rounding ≤ t.share := by
  refine valid.le_share ?_
  have hle := valid.total_le
  rw [StateSize.maximumTotal_toNat] at hle
  rw [StateSize.minimumRange_toNat]
  omega

/-- Between its cuts a slice has its share of the range, but for one. -/
theorem Triple.Valid.cuts (valid : t.Valid size) {range : Nat}
    (wide : size.minimumRange.toNat ≤ range) :
    (range : ℚ) * (t.share - size.rounding) ≤
        (cut t.symHigh t.total range : ℚ) - cut t.symLow t.total range ∧
      (cut t.symHigh t.total range : ℚ) - cut t.symLow t.total range ≤
        range * (t.share + size.rounding) := by
  have hlow := div_bounds (t.symLow.toNat * range) valid.total_pos
  have hhigh := div_bounds (t.symHigh.toNat * range) valid.total_pos
  have hmin : (0 : ℚ) < size.minimumRange.toNat := by
    rw [StateSize.minimumRange_toNat]
    positivity
  have hone : (1 : ℚ) ≤ range * size.rounding := by
    rw [StateSize.rounding, mul_one_div, one_le_div hmin]
    exact_mod_cast wide
  have hshare : (range : ℚ) * t.share =
      (t.symHigh.toNat * range : Nat) / t.total.toNat -
        (t.symLow.toNat * range : Nat) / t.total.toNat := by
    rw [Triple.share]
    push_cast
    ring
  rw [mul_sub, mul_add, hshare, cut, cut]
  exact ⟨by linarith [hlow.2, hhigh.1], by linarith [hlow.1, hhigh.2]⟩

end Narrowing

section Run
variable {size : StateSize} (charIsSigned : Bool) {s s' : Coder}

/-- What is named by the bits that are told, the registers aside. -/
theorem told_width (ready : Ready size s) :
    2 ^ s.told * s.width ≤ 1 ∧ 1 < 4 * 2 ^ s.told * s.width := by
  have hlow := ready.normal.low
  have hlt := ready.normal.lt
  have hwide := ready.normal.wide
  have htwo := s.1.size.two_half
  have hdepth : s.depth = s.told + s.1.size.bits := rfl
  have hwidth : 2 ^ s.told * s.width =
      ((s.1.high.toNat - s.1.low.toNat + 1 : Nat) : ℚ) / 2 ^ s.1.size.bits := by
    rw [Coder.width, segment_width s ready.normal.ordered.le, hdepth, pow_add]
    field_simp
  have hpow : (0 : ℚ) < 2 ^ s.1.size.bits := by positivity
  rw [mul_assoc, hwidth, mul_div_assoc', div_le_one hpow, one_lt_div hpow]
  constructor
  · have hle : s.1.high.toNat - s.1.low.toNat + 1 ≤ 2 ^ s.1.size.bits := by omega
    exact_mod_cast hle
  · have hless : 2 ^ s.1.size.bits < 4 * (s.1.high.toNat - s.1.low.toNat + 1) := by omega
    exact_mod_cast hless

theorem Coder.width_pos (ready : Ready size s) : 0 < s.width := by
  have hpos : (0 : ℚ) < 4 * 2 ^ s.told * s.width := zero_lt_one.trans (told_width ready).2
  exact pos_of_mul_pos_right hpos (by positivity)

theorem write_width (ready : Ready size s) {t : Triple} (valid : t.Valid size)
    (hrun : write charIsSigned s t = .ok s') :
    s.width * (t.share - size.rounding) ≤ s'.width ∧
      s'.width ≤ s.width * (t.share + size.rounding) := by
  obtain ⟨s₁, hrun₁, -, hlower, hupper⟩ := write_spec charIsSigned ready valid
  obtain rfl : s' = s₁ := by simpa using hrun.symm.trans hrun₁
  have hwide : size.minimumRange.toNat ≤ s.1.range.toNat := by
    have hwide := ready.normal.wide
    rw [range_toNat ready.normal.ordered, StateSize.minimumRange_toNat, ← ready.size]
    omega
  have hrange : (0 : ℚ) < s.1.range.toNat := by
    have hpos : 0 < s.1.range.toNat := by
      rw [StateSize.minimumRange_toNat] at hwide
      omega
    exact_mod_cast hpos
  obtain ⟨hleast, hmost⟩ := valid.cuts hwide
  have hends := subinterval_ends ready valid
  have hwidth : s'.width = s.width * (((cut t.symHigh t.total s.1.range.toNat : ℚ) -
      cut t.symLow t.total s.1.range.toNat) / s.1.range.toNat) := by
    rw [Coder.width, hlower, hupper]
    change (ends (narrowedSegment s t)).2 - (ends (narrowedSegment s t)).1 = _
    rw [← hends, Coder.width]
    simp only [subinterval, ends]
    ring
  have hpos := Coder.width_pos ready
  rw [hwidth]
  refine ⟨mul_le_mul_of_nonneg_left ?_ hpos.le, mul_le_mul_of_nonneg_left ?_ hpos.le⟩
  · rw [le_div_iff₀ hrange, mul_comm]
    exact hleast
  · rw [div_le_iff₀ hrange, mul_comm]
    exact hmost

/-- The width after a row of symbols is the product of their shares, each rounded. -/
theorem run_width (ts : List Triple) (valid : ∀ t ∈ ts, t.Valid size) (ready : Ready size s) :
    ∃ s' : Coder, ts.foldlM (write charIsSigned) s = .ok s' ∧ Ready size s' ∧
      s.width * (ts.map fun t => t.share - size.rounding).prod ≤ s'.width ∧
      s'.width ≤ s.width * (ts.map fun t => t.share + size.rounding).prod := by
  induction ts generalizing s with
  | nil => exact ⟨s, rfl, ready, by simp, by simp⟩
  | cons t ts ih =>
      have ht := valid t List.mem_cons_self
      have hts : ∀ x ∈ ts, x.Valid size := fun x h => valid x (List.mem_cons_of_mem _ h)
      obtain ⟨s₁, hw, ready₁, -⟩ := write_spec charIsSigned ready ht
      obtain ⟨hleast, hmost⟩ := write_width charIsSigned ready ht hw
      obtain ⟨s', hrun, ready', hleast', hmost'⟩ := ih hts ready₁
      have hless : 0 ≤ (ts.map fun t => t.share - size.rounding).prod := by
        refine List.prod_nonneg fun x hx => ?_
        obtain ⟨y, hy, rfl⟩ := List.mem_map.mp hx
        exact sub_nonneg.mpr (hts y hy).rounding_le
      have hmore : 0 ≤ (ts.map fun t => t.share + size.rounding).prod := by
        refine List.prod_nonneg fun x hx => ?_
        obtain ⟨y, hy, rfl⟩ := List.mem_map.mp hx
        have hround : 0 ≤ size.rounding := by
          rw [StateSize.rounding]
          positivity
        exact add_nonneg (hround.trans (hts y hy).rounding_le) hround
      refine ⟨s', ?_, ready', ?_, ?_⟩
      · rw [List.foldlM_cons, hw]
        exact hrun
      · rw [List.map_cons, List.prod_cons, ← mul_assoc]
        exact (mul_le_mul_of_nonneg_right hleast hless).trans hleast'
      · rw [List.map_cons, List.prod_cons, ← mul_assoc]
        exact hmost'.trans (mul_le_mul_of_nonneg_right hmost hmore)

end Run

/-- The bits the encoder has told are the halvings that its shares amount to, between two products
that allow for the rounding; the stream has one byte more, at the most. -/
theorem ArithmeticEncoder.encode_told (charIsSigned : Bool) {numBits : Int}
    {c : ArithmeticCoderBase} (hnew : ArithmeticCoderBase.new numBits = .ok c) (ts : List Triple)
    (valid : ∀ t ∈ ts, t.Valid c.size) :
    ∃ s : Coder, ∃ data, ts.foldlM (write charIsSigned) (c, new BitOutputStream.new) = .ok s ∧
      encode charIsSigned numBits ts = .ok data ∧ 8 * data.length ≤ s.told + 8 ∧
      2 ^ s.told * (ts.map fun t => t.share - c.size.rounding).prod ≤ 1 ∧
      1 < 4 * 2 ^ s.told * (ts.map fun t => t.share + c.size.rounding).prod := by
  obtain ⟨low, high⟩ := new_registers hnew
  have ready : Ready c.size (c, new BitOutputStream.new) :=
    ⟨rfl, initial_normal low high, BitOutputStream.new_wellFormed⟩
  have hends := ends_new hnew
  have hwidth : Coder.width (c, new BitOutputStream.new) = 1 := by
    change (ends (segment (c, new BitOutputStream.new))).2 -
      (ends (segment (c, new BitOutputStream.new))).1 = 1
    rw [hends, sub_zero]
  obtain ⟨s, hrun, ready', hleast, hmost⟩ := run_width charIsSigned ts valid ready
  obtain ⟨e, output, hfinish, hout, -, hlength⟩ := finish_spec charIsSigned ready'
  obtain ⟨hone, hquarter⟩ := told_width ready'
  rw [hwidth, one_mul] at hleast hmost
  refine ⟨s, output.data, hrun, ?_, ?_, ?_, ?_⟩
  · simp only [encode, hnew, ok_bind, hrun, hfinish, hout]
  · rw [BitOutputStream.size] at hlength
    simp only [Coder.told]
    omega
  · exact (mul_le_mul_of_nonneg_left hleast (by positivity)).trans hone
  · exact hquarter.trans_le (mul_le_mul_of_nonneg_left hmost (by positivity))

/-- Two symbols, with a half and with a quarter, take three bits. -/
theorem ArithmeticEncoder.encode_told_halves : ∃ s : Coder, ∃ data,
    [⟨2, 0, 1⟩, ⟨4, 1, 2⟩].foldlM (write true)
      (⟨size32, 0, 0xFFFFFFFF⟩, new BitOutputStream.new) = .ok s ∧
    encode true 32 [⟨2, 0, 1⟩, ⟨4, 1, 2⟩] = .ok data ∧ 8 * data.length ≤ s.told + 8 := by
  have hnew : ArithmeticCoderBase.new 32 = .ok ⟨size32, 0, 0xFFFFFFFF⟩ := rfl
  obtain ⟨s, data, hrun, hencode, hlength, -⟩ :=
    ArithmeticEncoder.encode_told true hnew [⟨2, 0, 1⟩, ⟨4, 1, 2⟩] (by
      intro t ht
      rcases List.mem_pair.mp ht with rfl | rfl
      · exact ⟨by decide, by decide, by decide⟩
      · exact ⟨by decide, by decide, by decide⟩)
  exact ⟨s, data, hrun, hencode, hlength⟩

/-! The streams of `codings`. -/

/-- What `codings` hands to the encoder for a symbol. -/
def symbolTriple (t : EncTable) (g : Gmm) (x : Int16) : Except Fault (EncTable × Triple) := do
  let t ← t.update g.probs g.means g.stds
  let t ← t.getBound x.toInt
  .ok (t, t.triple)

def symbolTriples : EncTable → List Gmm → List Int16 → Except Fault (List Triple)
  | _, _, [] => .ok []
  | _, [], _ :: _ => .error .outOfBounds
  | t, g :: gmm, x :: xs => do
    let (t, triple) ← symbolTriple t g x
    let triples ← symbolTriples t gmm xs
    .ok (triple :: triples)

def subbandTriples (T : Tables) (gmmScale : Int) (b : Subband) : Except Fault (List Triple) := do
  let xs ← elements b.datum b.count
  let xmax := maxElement xs
  let xmin := minElement xs
  if xmin ≥ xmax then .ok [] else symbolTriples (freqsTable T gmmScale xmin xmax) b.gmm xs

def subbandsTriples (T : Tables) (gmmScale : Int) : List Subband → Except Fault (List Triple)
  | [] => .ok []
  | b :: bs => do
    let triples ← subbandTriples T gmmScale b
    let rest ← subbandsTriples T gmmScale bs
    .ok (triples ++ rest)

section Coded
variable (charIsSigned : Bool) {T : Tables} {gmmScale : Int}

theorem codeSymbols_triples (xs : List Int16) {t : EncTable} {gmm : List Gmm} {ts : List Triple}
    (h : symbolTriples t gmm xs = .ok ts) (s : Coder) :
    codeSymbols charIsSigned t gmm xs s = ts.foldlM (write charIsSigned) s := by
  induction xs generalizing t gmm ts s with
  | nil =>
      have hnil : symbolTriples t gmm [] = .ok [] := by cases gmm <;> rfl
      obtain rfl := Except.ok.inj (hnil.symm.trans h)
      cases gmm <;> rfl
  | cons x xs ih =>
      cases gmm with
      | nil => contradiction
      | cons g gmm =>
          obtain ⟨⟨t', triple⟩, hone, h⟩ := bind_ok h
          obtain ⟨triples, hrest, h⟩ := bind_ok h
          obtain rfl := Except.ok.inj h
          obtain ⟨t₁, hupdate, hone⟩ := bind_ok hone
          obtain ⟨t₂, hbound, hone⟩ := bind_ok hone
          obtain ⟨rfl, rfl⟩ := Prod.mk.inj (Except.ok.inj hone)
          rw [codeSymbols, codeSymbol, hupdate, ok_bind, hbound, ok_bind, List.foldlM_cons]
          cases hw : write charIsSigned s t₂.triple with
          | error fault => rfl
          | ok s₁ => exact ih hrest s₁

theorem codeSubbands_triples {bs : List Subband} (usable : ∀ b ∈ bs, b.Usable) {ts : List Triple}
    (h : subbandsTriples T gmmScale bs = .ok ts) (s : Coder) :
    codeSubbands charIsSigned T gmmScale bs s = (do
      let s ← ts.foldlM (write charIsSigned) s
      .ok ((bs.map Subband.header).flatten, s)) := by
  induction bs generalizing ts s with
  | nil =>
      obtain rfl := Except.ok.inj h
      rfl
  | cons b bs ih =>
      obtain ⟨first, hfirst, h⟩ := bind_ok h
      obtain ⟨rest, hrest, h⟩ := bind_ok h
      obtain rfl := Except.ok.inj h
      have hb := (usable b List.mem_cons_self).elements
      have hband : codeSubband charIsSigned T gmmScale b s = (do
          let s ← first.foldlM (write charIsSigned) s
          .ok (b.header, s)) := by
        rw [subbandTriples, hb, ok_bind] at hfirst
        rw [codeSubband, hb, ok_bind]
        dsimp only at hfirst ⊢
        split
        case isTrue hflat =>
            rw [if_pos hflat] at hfirst
            obtain rfl := Except.ok.inj hfirst
            rfl
        case isFalse hflat =>
            rw [if_neg hflat] at hfirst
            rw [codeSymbols_triples charIsSigned _ hfirst]
            rfl
      rw [codeSubbands, hband, List.foldlM_append]
      cases hrun : first.foldlM (write charIsSigned) s with
      | error fault => rfl
      | ok s₁ =>
          have hbs := ih (fun x hx => usable x (List.mem_cons_of_mem _ hx)) hrest s₁
          simp only [ok_bind, hbs]
          cases rest.foldlM (write charIsSigned) s₁ <;> rfl

end Coded

/-- What the mixture tables give to a symbol: a slice of a total that is small for 32 bits. -/
def Triple.Tabled (t : Triple) : Prop := t.Valid size32 ∧ t.total.toNat ≤ 1065536

theorem Triple.Tabled.short {t : Triple} (h : t.Tabled) :
    0 < t.share - size32.rounding ∧ t.share * 1006 ≤ (t.share - size32.rounding) * (1006 + 1) := by
  have hshare : (1 : ℚ) / (1065536 : Nat) ≤ t.share := h.1.le_share h.2
  have hrounding : size32.rounding = 1 / 1073741826 := by
    have hmin : size32.minimumRange.toNat = 1073741826 := by decide
    rw [StateSize.rounding, hmin]
    norm_num
  rw [hrounding]
  norm_num at hshare
  exact ⟨by linarith, by linarith⟩

section Tabled
variable {T : Tables} (usableT : T.Usable)
include usableT

theorem symbolTriples_ok {l h : Int} (hl : InInt16 l) (hh : InInt16 h) (xs : List Int16)
    (hxs : ∀ x ∈ xs, l ≤ x.toInt ∧ x.toInt ≤ h) (gmm : List Gmm)
    (hgmm : ∀ g ∈ gmm, ∀ i, 1 ≤ g.stds i) (hlen : xs.length ≤ gmm.length) {t : EncTable}
    (c : t.Configured T l h) :
    ∃ ts, symbolTriples t gmm xs = .ok ts ∧ ts.length = xs.length ∧ ∀ t ∈ ts, t.Tabled := by
  induction xs generalizing t gmm with
  | nil => exact ⟨[], by cases gmm <;> rfl, rfl, by simp⟩
  | cons x xs ih =>
      cases gmm with
      | nil => simp at hlen
      | cons g gmm =>
          obtain ⟨lo, hi⟩ := hxs x List.mem_cons_self
          obtain ⟨t₁, hupdate, prepared, c₁⟩ := EncTable.update_ok c usableT g.inInt16.1
            g.inInt16.2 (hgmm g List.mem_cons_self)
          obtain ⟨t₂, hbound, valid, total, -⟩ := EncTable.getBound_triple prepared
            (c₁.lowBound ▸ hl) (c₁.highBound ▸ hh) (c₁.lowBound ▸ lo) (c₁.highBound ▸ hi)
          obtain ⟨ts, hrest, hlength, htabled⟩ := ih (fun y hy => hxs y (List.mem_cons_of_mem _ hy))
            gmm (fun y hy => hgmm y (List.mem_cons_of_mem _ hy)) (by simpa using hlen)
            (EncTable.getBound_configured c₁ hbound)
          refine ⟨t₂.triple :: ts, ?_, congrArg (· + 1) hlength, ?_⟩
          · simp only [symbolTriples, symbolTriple, hupdate, hbound, hrest, ok_bind]
          · exact List.forall_mem_cons.mpr ⟨⟨valid, total⟩, htabled⟩

theorem subbandTriples_ok {b : Subband} (usable : b.Usable) :
    ∃ ts, subbandTriples T 10000 b = .ok ts ∧ ts.length ≤ b.len.toNat ∧ ∀ t ∈ ts, t.Tabled := by
  rw [subbandTriples, usable.elements, ok_bind]
  by_cases hflat : minElement b.datum ≥ maxElement b.datum
  · exact ⟨[], if_pos hflat, Nat.zero_le _, by simp⟩
  · obtain ⟨ts, hrun, hlength, htabled⟩ := symbolTriples_ok usableT (inInt16 _) (inInt16 _) b.datum
      (extrema_bound b.datum) b.gmm usable.stds (usable.datum ▸ usable.gmm)
      (freqsTable_configured T (minElement b.datum) (maxElement b.datum))
    exact ⟨ts, (if_neg hflat).trans hrun, (hlength.trans usable.datum).le, htabled⟩

theorem subbandsTriples_ok {bs : List Subband} (usable : ∀ b ∈ bs, b.Usable) :
    ∃ ts, subbandsTriples T 10000 bs = .ok ts ∧
      ts.length ≤ (bs.map fun b => b.len.toNat).sum ∧ ∀ t ∈ ts, t.Tabled := by
  induction bs with
  | nil => exact ⟨[], rfl, Nat.zero_le _, by simp⟩
  | cons b bs ih =>
      obtain ⟨first, hfirst, hlength, htabled⟩ :=
        subbandTriples_ok usableT (usable b List.mem_cons_self)
      obtain ⟨rest, hrest, hlength', htabled'⟩ :=
        ih fun x hx => usable x (List.mem_cons_of_mem _ hx)
      refine ⟨first ++ rest, by rw [subbandsTriples, hfirst, ok_bind, hrest, ok_bind], ?_, ?_⟩
      · rw [List.length_append, List.map_cons, List.sum_cons]
        exact Nat.add_le_add hlength hlength'
      · exact List.forall_mem_append.mpr ⟨htabled, htabled'⟩

end Tabled

/-- The result of `codings` has a header of four bytes for each subband, and a stream no longer
than the information of the coefficients in their tables: but for a byte at the end, and three of
two thousand and twelve parts of a bit for every coefficient. -/
theorem codings_information (charIsSigned : Bool) {T : Tables} (usableT : T.Usable)
    {gmms : Fin subCnt → List Gmm} {lens : Fin subCnt → UInt64} (setup : CodingSetup gmms lens)
    {data : Fin subCnt → List Int16} (hdata : ∀ i, (data i).length = (lens i).toNat) :
    ∃ r ts, codings charIsSigned T gmms data lens 10000 = .ok r ∧
      subbandsTriples T 10000 (subbands gmms data lens) = .ok ts ∧
      ts.length ≤ ∑ i, (lens i).toNat ∧
      8 * (r.length : ℝ) ≤
        8 * (4 * subCnt + 1) + information (ts.map Triple.share) + ts.length * (3 / 2012) := by
  have usable := setup.usable hdata
  obtain ⟨r, hcodings, -⟩ := codings_decodings setup charIsSigned usableT hdata
  obtain ⟨ts, htriples, hlength, htabled⟩ := subbandsTriples_ok usableT usable
  have hlens : ((subbands gmms data lens).map fun b => b.len.toNat).sum =
      ∑ i, (lens i).toNat := by
    rw [subbands, List.map_ofFn, List.sum_ofFn]
    rfl
  obtain ⟨c, hnew, hrun⟩ := bind_ok hcodings
  have hsize : c.size = size32 := by
    obtain rfl := Except.ok.inj hnew
    rfl
  obtain ⟨s, bytes, hfold, hencode, htold, hleast, -⟩ :=
    encode_told charIsSigned hnew ts fun t ht => hsize ▸ (htabled t ht).1
  rw [hsize] at hleast
  -- the stream of the subbands is the stream of their triples
  rw [encode, hnew, ok_bind, hfold, ok_bind] at hencode
  obtain ⟨e, hfinish, hencode⟩ := bind_ok hencode
  obtain ⟨output, hout, hencode⟩ := bind_ok hencode
  obtain rfl := Except.ok.inj hencode
  rw [codeSubbands_triples charIsSigned usable htriples, hfold, ok_bind, ok_bind] at hrun
  dsimp only at hrun
  rw [hfinish, ok_bind, hout, ok_bind] at hrun
  split at hrun
  case isTrue => cases hrun
  case isFalse =>
      obtain rfl := Except.ok.inj hrun
      refine ⟨_, ts, hcodings, htriples, ?_, ?_⟩
      · exact hlength.trans hlens.le
      · have hbits : (s.told : ℝ) ≤ information (ts.map fun t => t.share - size32.rounding) := by
          refine le_information (fun p hp => ?_) hleast
          obtain ⟨t, ht, rfl⟩ := List.mem_map.mp hp
          exact (htabled t ht).short.1
        have hshort := information_short (f := fun t => t.share - size32.rounding)
          (g := Triple.share) (k := 1006) (by decide) ts
          (fun t ht => (htabled t ht).1.share_pos) fun t ht => by
            exact_mod_cast (htabled t ht).short.2
        have hbytes : (8 * output.size : ℝ) ≤ s.told + 8 := by exact_mod_cast htold
        push_cast at hshort ⊢
        linarith

/-- Three symbols in every subband. -/
theorem codings_information_ramp :
    let T := rampTables 12001 100001
    let gmms : Fin subCnt → List Gmm := fun _ =>
      [⟨5, -3, 0, 0, 100, 7, 900, 1, 20⟩, ⟨0, 0, 0, 4, 4, 4, 1, 1, 1⟩,
        ⟨-9, 9, 9, 1, 2, 3, 30, 20, 10⟩]
    let data : Fin subCnt → List Int16 := fun i => [Int16.ofNat i, -4, 9]
    ∃ r ts, codings true T gmms data (fun _ => 3) 10000 = .ok r ∧
      subbandsTriples T 10000 (subbands gmms data fun _ => 3) = .ok ts ∧
      8 * (r.length : ℝ) ≤
        8 * (4 * subCnt + 1) + information (ts.map Triple.share) + ts.length * (3 / 2012) := by
  intro T gmms data
  have hdata : ∀ i : Fin subCnt, (data i).length = (3 : UInt64).toNat := fun _ => rfl
  obtain ⟨r, ts, hrun, htriples, -, hsize⟩ := codings_information true
    (rampTables_usable (Nat.le_refl _) (Nat.le_refl _) (Nat.le_refl _)) rampSetup hdata
  exact ⟨r, ts, hrun, htriples, hsize⟩

end Soc
