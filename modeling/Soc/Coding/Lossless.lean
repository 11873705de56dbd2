import Soc.Coding.Codings

/-!
The entropy coder is lossless.

Coding a piece of the input and decoding it again is one relation between two
states of the encoder: whatever is written afterwards, a decoder in step with
the first state returns the piece and is in step with the second. The relation
is established for a symbol, then for the loops over symbols and subbands; with
it runs the number of bits a symbol can cost, which keeps the stream inside its
block.
-/
namespace Soc
open BitString ArithmeticCoderBase ArithmeticEncoder ArithmeticDecoder

def size32 : StateSize := ⟨32, by decide, by decide⟩

/-- Bits named by the state: written, pending, and in the registers. -/
def Coder.depth (s : Coder) : Nat := s.2.depth s.1.size

/-- `decode` returns `a` where the encoder went from `s` to `s'`. -/
structure Undone {α : Type} (s s' : Coder) (n : Nat) (decode : Uncoder → Except Fault (α × Uncoder))
    (a : α) : Prop where
  ready : Ready size32 s'
  back : ∀ bs, (segment s').Contains bs → (segment s).Contains bs
  depth : s'.depth ≤ s.depth + n
  decodes : ∀ bs d, (segment s').Contains bs → Synced bs s.1 s.2 d →
    ∃ d', decode (s.1, d) = .ok (a, (s'.1, d')) ∧ Synced bs s'.1 s'.2 d'

namespace Undone
variable {α β γ : Type} {s s₁ s₂ : Coder} {m n : Nat}

theorem refl (ready : Ready size32 s) (a : α) : Undone s s 0 (fun u => .ok (a, u)) a :=
  ⟨ready, fun _ h => h, Nat.le_refl _, fun _ d _ sync => ⟨d, rfl, sync⟩⟩

theorem trans {decode₁ : Uncoder → Except Fault (α × Uncoder)} {a : α} {b : β}
    (h₁ : Undone s s₁ m decode₁ a) (decode₂ : α → Uncoder → Except Fault (β × Uncoder))
    (h₂ : Undone s₁ s₂ n (decode₂ a) b) (f : α → β → γ) :
    Undone s s₂ (m + n) (fun u => do
      let (a, u) ← decode₁ u
      let (b, u) ← decode₂ a u
      .ok (f a b, u)) (f a b) := by
  refine ⟨h₂.ready, fun bs h => h₁.back bs (h₂.back bs h), ?_, ?_⟩
  · have hd₁ := h₁.depth
    have hd₂ := h₂.depth
    omega
  · intro bs d hin sync
    obtain ⟨d₁, hrun₁, sync₁⟩ := h₁.decodes bs d (h₂.back bs hin) sync
    obtain ⟨d₂, hrun₂, sync₂⟩ := h₂.decodes bs d₁ hin sync₁
    refine ⟨d₂, ?_, sync₂⟩
    simp only [hrun₁, hrun₂, ok_bind]

end Undone

/-! What one symbol costs. -/

/-- A slice of at least one in a total the table can have keeps a thousandth of
a millionth of the range. -/
theorem cut_wide {t : Triple} (valid : t.Valid size32) (total : t.total.toNat ≤ 1065536)
    {range : Nat} (wide : 2 ^ 30 ≤ range) :
    cut t.symLow t.total range + 1007 ≤ cut t.symHigh t.total range := by
  have hlow := valid.low_lt
  have hhigh := valid.high_le
  have hpos : 0 < t.total.toNat := by omega
  have hstep : 1007 * t.total.toNat ≤ range := by omega
  calc cut t.symLow t.total range + 1007
      = (t.symLow.toNat * range + 1007 * t.total.toNat) / t.total.toNat := by
        rw [Nat.add_mul_div_right _ _ hpos, cut]
    _ ≤ cut t.symHigh t.total range := by
        apply Nat.div_le_div_right
        calc t.symLow.toNat * range + 1007 * t.total.toNat
            ≤ t.symLow.toNat * range + range := Nat.add_le_add_left hstep _
          _ = (t.symLow.toNat + 1) * range := by ring
          _ ≤ t.symHigh.toNat * range := Nat.mul_le_mul_right _ hlow

theorem segment_width (s : Coder) (le : s.1.low.toNat ≤ s.1.high.toNat) :
    (segment s).upper - (segment s).lower =
      ((s.1.high.toNat - s.1.low.toNat + 1 : Nat) : ℚ) / 2 ^ s.depth := by
  simp only [ArithmeticEncoder.segment, interval, Segment.upper, Segment.lower, Coder.depth]
  push_cast [le]
  ring

theorem write_depth (charIsSigned : Bool) {s s' : Coder} (ready : Ready size32 s) {t : Triple}
    (valid : t.Valid size32) (total : t.total.toNat ≤ 1065536)
    (hw : write charIsSigned s t = .ok s') : s'.depth ≤ s.depth + 22 := by
  obtain ⟨s₁, hw₁, ready', hlower, hupper⟩ := write_spec charIsSigned ready valid
  obtain rfl : s' = s₁ := by simpa using hw.symm.trans hw₁
  have hn := narrowed_spec ready.normal (ready.size ▸ valid)
  have hwide := ready.normal.wide
  have hlt := ready'.normal.lt
  have hhalf : s.1.size.half = 2 ^ 31 := by rw [ready.size]; rfl
  have hhalf' : s'.1.size.half = 2 ^ 31 := by rw [ready'.size]; rfl
  have hcut := cut_wide valid total (show 2 ^ 30 ≤ s.1.high.toNat - s.1.low.toNat + 1 by omega)
  have hlow := hn.low
  have hhigh := hn.high
  have hwidth := segment_width s' ready'.normal.ordered.le
  have hwidth' := segment_width (s.1.narrowed t, s.2) hn.le
  have hdepth : Coder.depth (s.1.narrowed t, s.2) = s.depth := by simp only [Coder.depth, hn.size]
  have hequal : ((s'.1.high.toNat - s'.1.low.toNat + 1 : Nat) : ℚ) / 2 ^ s'.depth =
      (((s.1.narrowed t).high.toNat - (s.1.narrowed t).low.toNat + 1 : Nat) : ℚ) / 2 ^ s.depth := by
    rw [← hwidth, hlower, hupper, ← hdepth, ← hwidth']
    rfl
  rw [div_eq_div_iff (by positivity) (by positivity)] at hequal
  have hequal' : (s'.1.high.toNat - s'.1.low.toNat + 1) * 2 ^ s.depth =
      ((s.1.narrowed t).high.toNat - (s.1.narrowed t).low.toNat + 1) * 2 ^ s'.depth := by
    exact_mod_cast hequal
  by_contra hdeep
  have hmore : 2 ^ (s.depth + 23) ≤ 2 ^ s'.depth := Nat.pow_le_pow_right (by omega) (by omega)
  have hsmall : 1007 * 2 ^ (s.depth + 23) ≤ 2 ^ 32 * 2 ^ s.depth := by
    calc 1007 * 2 ^ (s.depth + 23)
        ≤ ((s.1.narrowed t).high.toNat - (s.1.narrowed t).low.toNat + 1) * 2 ^ s'.depth :=
          Nat.mul_le_mul (by omega) hmore
      _ = (s'.1.high.toNat - s'.1.low.toNat + 1) * 2 ^ s.depth := hequal'.symm
      _ ≤ 2 ^ 32 * 2 ^ s.depth := Nat.mul_le_mul_right _ (by omega)
  rw [Nat.pow_add] at hsmall
  have hpos : 0 < 2 ^ s.depth := Nat.two_pow_pos _
  omega

/-! One symbol. -/

theorem inInt16 (x : Int16) : InInt16 x.toInt := by
  have lo := x.le_toInt
  have hi := x.toInt_lt
  exact ⟨by omega, by omega⟩

theorem Gmm.inInt16 (g : Gmm) :
    (∀ i, InInt16 (g.probs i)) ∧ ∀ i, InInt16 (g.means i) := by
  refine ⟨fun i => ?_, fun i => ?_⟩
  all_goals fin_cases i <;> exact Soc.inInt16 _

namespace EncTable
variable {t : EncTable}

theorem getBound_triple (p : t.Prepared) (hlow : InInt16 t.lowBound) (hhigh : InInt16 t.highBound)
    {x : Int} (lo : t.lowBound ≤ x) (hi : x ≤ t.highBound) :
    ∃ t', t.getBound x = .ok t' ∧ t'.triple.Valid size32 ∧ t'.triple.total.toNat ≤ 1065536 ∧
      t'.symLow.toNat = t.lowerEnd x ∧ t'.symHigh.toNat = t.lowerEnd (x + 1) ∧
      t'.totalFreqs.toNat = t.lowerEnd (t.highBound + 1) := by
  obtain ⟨t', hrun, hl, hh, htot⟩ := getBound_ok p hlow hhigh lo hi
  have hslice := lowerEnd_lt_succ p lo
  have hlast := lowerEnd_mono p (x := x + 1) (y := t.highBound + 1) (by omega) (by omega)
  have hmost := lowerEnd_le p (t.highBound + 1)
  have hsmall : t'.totalFreqs.toNat ≤ 1065536 := by
    have h1 := hlow.1
    have h2 := hhigh.2
    omega
  have hmax : size32.maximumTotal.toNat = 2 ^ 30 + 2 := by decide
  refine ⟨t', hrun, ⟨?_, ?_, ?_⟩, hsmall, hl, hh, htot⟩
  · simp only [triple, hl, hh, hslice]
  · simp only [triple, hh, htot, hlast]
  · simp only [triple, hmax]
    omega

/-- The search stops at the symbol whose slice holds the value. -/
theorem findSymbol_spec (p : t.Prepared) (hlow : InInt16 t.lowBound) (hhigh : InInt16 t.highBound)
    {x : Int} (hi : x ≤ t.highBound) {v : Nat} (hv : t.lowerEnd x ≤ v)
    (hv' : v < t.lowerEnd (x + 1)) (n : Nat) (y : Int) (lo : t.lowBound ≤ y) (hy : y ≤ x)
    (hn : x - y < n) : findSymbol t v n y = .ok x := by
  induction n generalizing y with
  | zero => omega
  | succ n ih =>
      obtain ⟨t', hrun, -, -, -, hh, -⟩ := getBound_triple p hlow hhigh lo (hy.trans hi)
      rw [findSymbol, hrun, ok_bind, hh]
      by_cases hyx : y = x
      · rw [hyx, if_pos hv']
      · have hbelow : ¬ v < t.lowerEnd (y + 1) := by
          have := lowerEnd_mono p (x := y + 1) (y := x) (by omega) (by omega)
          omega
        rw [if_neg hbelow]
        exact ih (y + 1) (by omega) (by omega) (by omega)

end EncTable

section Symbol
variable (charIsSigned : Bool) {T : Tables} {l h : Int}

theorem symbol_undone {t : EncTable} (c : t.Configured T l h) (usable : T.Usable)
    (hl : InInt16 l) (hh : InInt16 h) {g : Gmm} (hstd : ∀ i, 1 ≤ g.stds i) {x : Int16}
    (lo : l ≤ x.toInt) (hi : x.toInt ≤ h) {s : Coder} (ready : Ready size32 s) :
    ∃ t' s', codeSymbol charIsSigned t g x s = .ok (t', s') ∧ t'.Configured T l h ∧
      Undone s s' 22 (readSymbol t g) (x, t') := by
  obtain ⟨t₁, hup, prepared, c₁⟩ :=
    EncTable.update_ok c usable g.inInt16.1 g.inInt16.2 hstd
  have hl₁ : InInt16 t₁.lowBound := c₁.lowBound ▸ hl
  have hh₁ : InInt16 t₁.highBound := c₁.highBound ▸ hh
  have lo₁ : t₁.lowBound ≤ x.toInt := c₁.lowBound ▸ lo
  have hi₁ : x.toInt ≤ t₁.highBound := c₁.highBound ▸ hi
  obtain ⟨t₂, hgb, valid, total, hsl, hsh, htot⟩ :=
    EncTable.getBound_triple prepared hl₁ hh₁ lo₁ hi₁
  obtain ⟨t₀, hgb₀, -, -, -, -, htot₀⟩ :=
    EncTable.getBound_triple prepared hl₁ hh₁ (Int.le_refl _) (lo₁.trans hi₁)
  obtain ⟨s', hw, ready', -, -⟩ := write_spec charIsSigned ready valid
  refine ⟨t₂, s', ?_, EncTable.getBound_configured c₁ hgb, ready', ?_, ?_, ?_⟩
  · simp only [codeSymbol, hup, hgb, hw, ok_bind]
  · intro bs hin
    exact narrowedSegment_contains ready valid (write_contains charIsSigned ready valid hw hin)
  · exact write_depth charIsSigned ready valid total hw
  · intro bs d hin sync
    obtain ⟨d', hstep, sync'⟩ := update_synced charIsSigned ready valid hw hin sync
    obtain ⟨hv, hv'⟩ := value_spec charIsSigned ready valid hw hin sync
    have htotal : t₀.totalFreqs = t₂.triple.total :=
      UInt32.toNat_inj.mp (htot₀.trans htot.symm)
    have hfind := EncTable.findSymbol_spec prepared hl₁ hh₁ hi₁ (hsl ▸ hv) (hsh ▸ hv')
      (t₁.highBound - t₁.lowBound + 1).toNat t₁.lowBound (Int.le_refl _) lo₁ (by omega)
    refine ⟨d', ?_, sync'⟩
    simp only [readSymbol, hup, hgb₀, htotal, hfind, hgb, hstep, ok_bind, Int16.ofInt_toInt]

theorem symbols_undone {t : EncTable} (c : t.Configured T l h) (usable : T.Usable)
    (hl : InInt16 l) (hh : InInt16 h) (xs : List Int16)
    (hxs : ∀ x ∈ xs, l ≤ x.toInt ∧ x.toInt ≤ h) (gmm : List Gmm)
    (hgmm : ∀ g ∈ gmm, ∀ i, 1 ≤ g.stds i) (hlen : xs.length ≤ gmm.length) {s : Coder}
    (ready : Ready size32 s) :
    ∃ s', codeSymbols charIsSigned t gmm xs s = .ok s' ∧
      Undone s s' (22 * xs.length) (readSymbols t gmm xs.length) xs := by
  induction xs generalizing t gmm s with
  | nil =>
      have hread : readSymbols t gmm 0 = fun u => .ok ([], u) := by
        funext u
        cases gmm <;> rfl
      refine ⟨s, by cases gmm <;> rfl, ?_⟩
      rw [List.length_nil, hread]
      exact Undone.refl ready []
  | cons x xs ih =>
      cases gmm with
      | nil => simp at hlen
      | cons g gmm =>
          obtain ⟨lo, hi⟩ := hxs x List.mem_cons_self
          obtain ⟨t', s₁, hrun₁, c', undone₁⟩ :=
            symbol_undone charIsSigned c usable hl hh (hgmm g List.mem_cons_self) lo hi ready
          obtain ⟨s₂, hrun₂, undone₂⟩ := ih c' (fun y hy => hxs y (List.mem_cons_of_mem _ hy))
            gmm (fun y hy => hgmm y (List.mem_cons_of_mem _ hy))
            (by simpa using hlen) undone₁.ready
          refine ⟨s₂, ?_, ?_⟩
          · rw [codeSymbols, hrun₁, ok_bind]
            exact hrun₂
          · have both := undone₁.trans (fun p => readSymbols p.2 gmm xs.length)
              undone₂ (fun p ys => p.1 :: ys)
            have hcost : 22 * (x :: xs).length = 22 + 22 * xs.length := by
              rw [List.length_cons]
              omega
            rw [hcost]
            exact both

end Symbol

/-! One subband. -/

/-- A fold that picks from two values the one with the larger `v`. -/
theorem foldl_pick_bounds {v : Int16 → Int} {pick : Int16 → Int16 → Int16}
    (hpick : ∀ m y, v m ≤ v (pick m y) ∧ v y ≤ v (pick m y)) (xs : List Int16) (m : Int16) :
    v m ≤ v (xs.foldl pick m) ∧ ∀ x ∈ xs, v x ≤ v (xs.foldl pick m) := by
  induction xs generalizing m with
  | nil => exact ⟨Int.le_refl _, by simp⟩
  | cons y ys ih =>
      obtain ⟨hstart, hall⟩ := ih (pick m y)
      refine ⟨(hpick m y).1.trans hstart, ?_⟩
      intro x hx
      cases List.mem_cons.mp hx with
      | inl heq => exact heq ▸ (hpick m y).2.trans hstart
      | inr hx => exact hall x hx

theorem foldl_max_bounds (xs : List Int16) (m : Int16) :
    m.toInt ≤ (xs.foldl (fun m y => if m < y then y else m) m).toInt ∧
      ∀ x ∈ xs, x.toInt ≤ (xs.foldl (fun m y => if m < y then y else m) m).toInt := by
  apply foldl_pick_bounds
  intro m y
  split
  case isTrue h => exact ⟨(Int16.lt_iff_toInt_lt.mp h).le, Int.le_refl _⟩
  case isFalse h => exact ⟨Int.le_refl _, Int.not_lt.mp (mt Int16.lt_iff_toInt_lt.mpr h)⟩

theorem foldl_min_bounds (xs : List Int16) (m : Int16) :
    (xs.foldl (fun m y => if y < m then y else m) m).toInt ≤ m.toInt ∧
      ∀ x ∈ xs, (xs.foldl (fun m y => if y < m then y else m) m).toInt ≤ x.toInt := by
  have hpick : ∀ m y : Int16, -m.toInt ≤ -(if y < m then y else m).toInt ∧
      -y.toInt ≤ -(if y < m then y else m).toInt := by
    intro m y
    split
    case isTrue h => exact ⟨Int.neg_le_neg (Int16.lt_iff_toInt_lt.mp h).le, Int.le_refl _⟩
    case isFalse h =>
        exact ⟨Int.le_refl _, Int.neg_le_neg (Int.not_lt.mp (mt Int16.lt_iff_toInt_lt.mpr h))⟩
  obtain ⟨hstart, hall⟩ := foldl_pick_bounds (v := fun x => -x.toInt) hpick xs m
  exact ⟨Int.neg_le_neg_iff.mp hstart, fun x hx => Int.neg_le_neg_iff.mp (hall x hx)⟩

theorem extrema_bound (xs : List Int16) :
    ∀ x ∈ xs, (minElement xs).toInt ≤ x.toInt ∧ x.toInt ≤ (maxElement xs).toInt := by
  cases xs with
  | nil => simp
  | cons y ys =>
      intro x hx
      obtain ⟨hmin, hmins⟩ := foldl_min_bounds ys y
      obtain ⟨hmax, hmaxs⟩ := foldl_max_bounds ys y
      cases List.mem_cons.mp hx with
      | inl heq =>
          rw [heq]
          exact ⟨hmin, hmax⟩
      | inr hx => exact ⟨hmins x hx, hmaxs x hx⟩

@[simp] theorem storeInt16_length (x : Int16) : (storeInt16 x).length = 2 :=
  Layout.uint16.store_length _

@[simp] theorem loadInt16_store (x : Int16) : loadInt16 (storeInt16 x) = x := by
  rw [loadInt16, storeInt16, Layout.load_store, Int16.toInt16_toUInt16]

/-- A subband `codings` is meant for: some data, and parameters for all of it. -/
structure Subband.Usable (b : Subband) : Prop where
  pos : 1 ≤ b.len.toNat
  lt : b.len.toNat < 2 ^ 31
  datum : b.datum.length = b.len.toNat
  gmm : b.len.toNat ≤ b.gmm.length
  stds : ∀ g ∈ b.gmm, ∀ i, 1 ≤ g.stds i

theorem Subband.Usable.elements {b : Subband} (usable : b.Usable) :
    Soc.elements b.datum b.count = .ok b.datum := by
  have hcount : b.count = b.len.toNat := narrow_eq (by omega) (by have := usable.lt; omega)
  have hpos := usable.pos
  have hlen := usable.datum
  rw [Soc.elements, hcount, if_pos ⟨by omega, by omega⟩, Int.toNat_natCast, ← hlen,
    List.take_length]

theorem freqsTable_configured (T : Tables) (xmin xmax : Int16) :
    (freqsTable T 10000 xmin xmax).Configured T xmin.toInt xmax.toInt :=
  ⟨rfl, rfl, rfl, rfl, rfl, rfl, rfl, rfl, rfl⟩

def Subband.header (b : Subband) : List UInt8 :=
  storeInt16 (minElement b.datum) ++ storeInt16 (maxElement b.datum)

theorem Subband.header_length (b : Subband) : b.header.length = 4 := by simp [Subband.header]

theorem readSubband_header (T : Tables) (gmm : List Gmm) (len : Nat) (b : Subband) (u : Uncoder) :
    readSubband T 10000 gmm len b.header u =
      if minElement b.datum ≥ maxElement b.datum then
        .ok (List.replicate len (minElement b.datum), u)
      else
        readSymbols (freqsTable T 10000 (minElement b.datum) (maxElement b.datum)) gmm len u := by
  have htake : b.header.take 2 = storeInt16 (minElement b.datum) :=
    List.take_left' (storeInt16_length _)
  have hdrop : b.header.drop 2 = storeInt16 (maxElement b.datum) :=
    List.drop_left' (storeInt16_length _)
  simp only [readSubband, htake, hdrop, loadInt16_store]

section Stream
variable (charIsSigned : Bool) {T : Tables} (usableT : T.Usable)
include usableT

theorem subband_undone {b : Subband} (usable : b.Usable) {s : Coder} (ready : Ready size32 s) :
    ∃ s', codeSubband charIsSigned T 10000 b s = .ok (b.header, s') ∧
      Undone s s' (22 * b.len.toNat) (readSubband T 10000 b.gmm b.len.toNat b.header) b.datum := by
  have hbound := extrema_bound b.datum
  by_cases hflat : minElement b.datum ≥ maxElement b.datum
  · -- A constant subband leaves the coder alone.
    refine ⟨s, ?_, ready, fun _ h => h, by omega, fun bs d _ sync => ⟨d, ?_, sync⟩⟩
    · rw [codeSubband, usable.elements, ok_bind]
      exact if_pos hflat
    · have hconst : b.datum = List.replicate b.datum.length (minElement b.datum) := by
        apply List.eq_replicate_of_mem
        intro x hx
        obtain ⟨lo, hi⟩ := hbound x hx
        have hle := Int16.le_iff_toInt_le.mp hflat
        exact Int16.toInt_inj.mp (by omega)
      rw [readSubband_header, if_pos hflat, ← usable.datum, ← hconst]
  · obtain ⟨s', hrun, undone⟩ := symbols_undone charIsSigned
      (freqsTable_configured T (minElement b.datum) (maxElement b.datum)) usableT (inInt16 _)
      (inInt16 _) b.datum hbound b.gmm usable.stds (usable.datum ▸ usable.gmm) ready
    refine ⟨s', ?_, ?_⟩
    · rw [codeSubband, usable.elements, ok_bind]
      simp only [if_neg hflat, hrun, ok_bind]
      rfl
    · have hread : readSubband T 10000 b.gmm b.len.toNat b.header =
          readSymbols (freqsTable T 10000 (minElement b.datum) (maxElement b.datum)) b.gmm
            b.datum.length := by
        funext u
        rw [readSubband_header, if_neg hflat, usable.datum]
      rw [hread, ← usable.datum]
      exact undone

theorem subbands_undone (bs : List Subband) (usable : ∀ b ∈ bs, b.Usable) {s : Coder}
    (ready : Ready size32 s) :
    ∃ headers s', codeSubbands charIsSigned T 10000 bs s = .ok (headers, s') ∧
      headers.length = 4 * bs.length ∧
      ∀ rest, Undone s s' (22 * (bs.map fun b => b.len.toNat).sum)
        (readSubbands T 10000 (bs.map fun b => (b.gmm, b.len.toNat)) (headers ++ rest))
        (bs.map Subband.datum) := by
  induction bs generalizing s with
  | nil => exact ⟨[], s, rfl, rfl, fun _ => Undone.refl ready []⟩
  | cons b bs ih =>
      obtain ⟨s₁, hrun₁, undone₁⟩ := subband_undone charIsSigned usableT
        (usable b List.mem_cons_self) ready
      obtain ⟨headers, s₂, hrun₂, hlen₂, undone₂⟩ :=
        ih (fun x hx => usable x (List.mem_cons_of_mem _ hx)) undone₁.ready
      refine ⟨b.header ++ headers, s₂, ?_, ?_, fun rest => ?_⟩
      · simp only [codeSubbands, hrun₁, hrun₂, ok_bind]
      · rw [List.length_append, b.header_length, hlen₂, List.length_cons]
        omega
      · have both := undone₁.trans (fun _ =>
          readSubbands T 10000 (bs.map fun b => (b.gmm, b.len.toNat)) (headers ++ rest))
          (undone₂ rest) List.cons
        have hcost : 22 * ((b :: bs).map fun b => b.len.toNat).sum =
            22 * b.len.toNat + 22 * (bs.map fun b => b.len.toNat).sum := by
          rw [List.map_cons, List.sum_cons]
          omega
        have htake : (b.header ++ headers ++ rest).take 4 = b.header := by
          rw [List.append_assoc, List.take_left' b.header_length]
        have hdrop : (b.header ++ headers ++ rest).drop 4 = headers ++ rest := by
          rw [List.append_assoc, List.drop_left' b.header_length]
        rw [hcost, List.map_cons, List.map_cons]
        simp only [readSubbands, htake, hdrop]
        exact both

end Stream

/-! The whole stream. -/

theorem foldl_accumulate (lens : List UInt64) (acc : Nat)
    (h : acc + (lens.map UInt64.toNat).sum < 2 ^ 31) :
    lens.foldl (fun acc l => narrow 32 (acc + l.toNat)) (acc : Int) =
      ((acc + (lens.map UInt64.toNat).sum : Nat) : Int) := by
  induction lens generalizing acc with
  | nil => simp
  | cons l lens ih =>
      rw [List.map_cons, List.sum_cons] at h ⊢
      have hstep : narrow 32 ((acc : Int) + l.toNat) = ((acc + l.toNat : Nat) : Int) := by
        rw [narrow_eq (by omega) (by omega)]
        push_cast
        rfl
      rw [List.foldl_cons, hstep, ih _ (by omega), Nat.add_assoc]

theorem length_le_sum (lens : List UInt64) (h : ∀ l ∈ lens, 1 ≤ l.toNat) :
    lens.length ≤ (lens.map UInt64.toNat).sum := by
  induction lens with
  | nil => simp
  | cons l lens ih =>
      have hl := h l List.mem_cons_self
      have hrest := ih (fun x hx => h x (List.mem_cons_of_mem _ hx))
      rw [List.length_cons, List.map_cons, List.sum_cons]
      omega

/-- The arguments of one call, without the data. -/
structure CodingSetup (gmms : Fin subCnt → List Gmm) (lens : Fin subCnt → UInt64) : Prop where
  pos : ∀ i, 1 ≤ (lens i).toNat
  sum : ∑ i, (lens i).toNat < 2 ^ 31
  gmm : ∀ i, (lens i).toNat ≤ (gmms i).length
  stds : ∀ i, ∀ g ∈ gmms i, 1 ≤ g.std1.toInt ∧ 1 ≤ g.std2.toInt ∧ 1 ≤ g.std3.toInt

theorem lens_sum (lens : Fin subCnt → UInt64) :
    ((List.ofFn lens).map UInt64.toNat).sum = ∑ i, (lens i).toNat := by
  rw [List.map_ofFn, List.sum_ofFn]
  rfl

section Whole
variable {gmms : Fin subCnt → List Gmm} {lens : Fin subCnt → UInt64}
  (setup : CodingSetup gmms lens) {data : Fin subCnt → List Int16}
include setup

theorem CodingSetup.accumulate_eq :
    accumulate (List.ofFn lens) = ((∑ i, (lens i).toNat : Nat) : Int) := by
  have hsum := setup.sum
  have htotal := lens_sum lens
  have h := foldl_accumulate (List.ofFn lens) 0 (by omega)
  rw [Nat.zero_add, htotal] at h
  exact h

theorem CodingSetup.subCnt_le : subCnt ≤ ∑ i, (lens i).toNat := by
  have hleast := length_le_sum (List.ofFn lens) (by
    intro l hl
    obtain ⟨i, rfl⟩ := (List.mem_ofFn' _ l).mp hl
    exact setup.pos i)
  rwa [List.length_ofFn, lens_sum] at hleast

theorem CodingSetup.usable (hdata : ∀ i, (data i).length = (lens i).toNat) :
    ∀ b ∈ subbands gmms data lens, b.Usable := by
  intro b hb
  obtain ⟨i, rfl⟩ := (List.mem_ofFn' _ b).mp hb
  have hone : (lens i).toNat ≤ ∑ j, (lens j).toNat :=
    Finset.single_le_sum (f := fun j => (lens j).toNat) (fun _ _ => Nat.zero_le _)
      (Finset.mem_univ i)
  refine ⟨setup.pos i, hone.trans_lt setup.sum, hdata i, setup.gmm i, ?_⟩
  intro g hg j
  obtain ⟨h1, h2, h3⟩ := setup.stds i g hg
  fin_cases j
  · exact h1
  · exact h2
  · exact h3

/-- Header and stream fit the block of eight bytes a symbol. -/
theorem CodingSetup.fits {c : ArithmeticCoderBase} (hsize : c.size = size32) {s : Coder}
    (ready : Ready size32 s)
    (hdepth : s.depth ≤
      Coder.depth (c, ArithmeticEncoder.new BitOutputStream.new) + 22 * ∑ i, (lens i).toNat)
    {size : Nat} (hfinish : 8 * size ≤ s.2.output.bits.length + 8) :
    ¬ blockSize (accumulate (List.ofFn lens)) < subCnt * 4 + size := by
  have hsum := setup.sum
  have hleast := setup.subCnt_le
  have hstart : Coder.depth (c, ArithmeticEncoder.new BitOutputStream.new) = 32 := by
    simp only [Coder.depth, hsize]
    rfl
  have hbits : s.2.output.bits.length + 32 ≤ s.depth := by
    have hs : s.1.size.bits = 32 := by rw [ready.size]; rfl
    simp only [Coder.depth, ArithmeticEncoder.depth, hs]
    omega
  have hcnt : subCnt = 39 := rfl
  rw [setup.accumulate_eq, blockSize]
  omega

theorem codings_decodings (charIsSigned : Bool) {T : Tables} (usableT : T.Usable)
    (hdata : ∀ i, (data i).length = (lens i).toNat) :
    ∃ r, codings charIsSigned T gmms data lens 10000 = .ok r ∧ r.data.length = r.length ∧
      decodings T gmms lens 10000 r.data = .ok (List.ofFn data) := by
  obtain ⟨c, hnew⟩ : ∃ c, ArithmeticCoderBase.new 32 = .ok c := ⟨_, dif_pos (by decide)⟩
  have hsize : c.size = size32 := by
    obtain rfl := Except.ok.inj hnew
    rfl
  obtain ⟨low, high⟩ := new_registers hnew
  have ready : Ready size32 (c, ArithmeticEncoder.new BitOutputStream.new) :=
    ⟨hsize, initial_normal low high, BitOutputStream.new_wellFormed⟩
  obtain ⟨headers, s', hrun, hlen, undone⟩ :=
    subbands_undone charIsSigned usableT _ (setup.usable hdata) ready
  obtain ⟨e, output, hfin, hout, hin, houtlen⟩ := finish_spec charIsSigned (undone []).ready
  have hcount : (subbands gmms data lens).length = subCnt := List.length_ofFn
  have hlens : ((subbands gmms data lens).map fun b => b.len.toNat).sum =
      ∑ i, (lens i).toNat := by
    rw [subbands, List.map_ofFn, List.sum_ofFn]
    rfl
  have hshape : (subbands gmms data lens).map (fun b => (b.gmm, b.len.toNat)) =
      List.ofFn fun i => (gmms i, (lens i).toNat) := by
    rw [subbands, List.map_ofFn]
    rfl
  have hvalue : (subbands gmms data lens).map Subband.datum = List.ofFn data := by
    rw [subbands, List.map_ofFn]
    rfl
  have hfit := setup.fits hsize (undone []).ready (hlens ▸ (undone []).depth) houtlen
  obtain ⟨d', hread, -⟩ := (undone output.data).decodes _ _ hin (synced_new _)
  rw [hcount] at hlen
  have hdrop : (headers ++ output.data).drop (subCnt * 4) = output.data :=
    List.drop_left' (by omega)
  refine ⟨⟨headers ++ output.data, output.size + subCnt * 4⟩, ?_, ?_, ?_⟩
  · rw [codings, hnew, ok_bind, hrun, ok_bind]
    simp only
    rw [hfin, ok_bind, hout, ok_bind, if_neg hfit]
  · rw [List.length_append, hlen, Nat.mul_comm, Nat.add_comm]
    rfl
  · rw [hshape, hvalue] at hread
    simp only [decodings, hnew, ok_bind, hdrop, hread]

end Whole

/-- The bytes of `codings`, with the parameters and lengths, determine the data. -/
theorem codings_lossless (charIsSigned : Bool) {T : Tables} (usable : T.Usable)
    {gmms : Fin subCnt → List Gmm} {lens : Fin subCnt → UInt64} (setup : CodingSetup gmms lens) :
    (∀ data : Fin subCnt → List Int16, (∀ i, (data i).length = (lens i).toNat) →
      ∃ r, codings charIsSigned T gmms data lens 10000 = .ok r ∧ r.data.length = r.length ∧
        decodings T gmms lens 10000 r.data = .ok (List.ofFn data)) ∧
    ∀ data data' : Fin subCnt → List Int16, (∀ i, (data i).length = (lens i).toNat) →
      (∀ i, (data' i).length = (lens i).toNat) →
      codings charIsSigned T gmms data lens 10000 = codings charIsSigned T gmms data' lens 10000 →
      data = data' := by
  refine ⟨fun data hdata => codings_decodings setup charIsSigned usable hdata, ?_⟩
  intro data data' hdata hdata' hsame
  obtain ⟨r, hrun, -, hdec⟩ := codings_decodings setup charIsSigned usable hdata
  obtain ⟨r', hrun', -, hdec'⟩ := codings_decodings setup charIsSigned usable hdata'
  obtain rfl : r = r' := Except.ok.inj (hrun.symm.trans (hsame.trans hrun'))
  exact List.ofFn_injective (Except.ok.inj (hdec.symm.trans hdec'))

theorem rampSetup : CodingSetup
    (fun _ => [⟨5, -3, 0, 0, 100, 7, 900, 1, 20⟩, ⟨0, 0, 0, 4, 4, 4, 1, 1, 1⟩,
      ⟨-9, 9, 9, 1, 2, 3, 30, 20, 10⟩]) (fun _ => 3) :=
  ⟨by decide, by decide, by decide, by decide⟩

/-- Three symbols in every subband, each with its own mixture. -/
theorem codings_lossless_ramp :
    ∃ r, codings true (rampTables 12001 100001)
        (fun _ => [⟨5, -3, 0, 0, 100, 7, 900, 1, 20⟩, ⟨0, 0, 0, 4, 4, 4, 1, 1, 1⟩,
          ⟨-9, 9, 9, 1, 2, 3, 30, 20, 10⟩])
        (fun i => [Int16.ofNat i, -4, 9]) (fun _ => 3) 10000 = .ok r ∧
      r.data.length = r.length ∧
      decodings (rampTables 12001 100001)
        (fun _ => [⟨5, -3, 0, 0, 100, 7, 900, 1, 20⟩, ⟨0, 0, 0, 4, 4, 4, 1, 1, 1⟩,
          ⟨-9, 9, 9, 1, 2, 3, 30, 20, 10⟩]) (fun _ => 3) 10000 r.data =
        .ok (List.ofFn fun i : Fin subCnt => [Int16.ofNat i, -4, 9]) :=
  (codings_lossless true (rampTables_usable (Nat.le_refl _) (Nat.le_refl _) (Nat.le_refl _))
    rampSetup).1 _ (fun _ => rfl)

end Soc
