import Soc.Coding.EncTable

/-!
The slices of a frequency table are a partition, and no operation behind them wraps.

The unsigned operations of `update` and `get_bound` are computed once more over unbounded
integers, with a result only where every one of them stays in its type.
-/
namespace Soc

/-- An unsigned result kept in `bits` bits. -/
def unsigned (bits : Nat) (x : Int) : Option Nat :=
  if 0 ≤ x ∧ x < 2 ^ bits then some x.toNat else none

theorem unsigned_eq {bits : Nat} {x : Int} {n : Nat} (h : x = n) (hn : n < 2 ^ bits) :
    unsigned bits x = some n := by
  have hint : x < 2 ^ bits := by
    rw [h]
    exact_mod_cast hn
  rw [unsigned, if_pos ⟨by omega, hint⟩, h, Int.toNat_natCast]

theorem some_bind {α β : Type} (a : α) (f : α → Option β) : (some a >>= f) = f a := rfl

theorem signed_toOption {bits : Nat} {x : Int} (lo : -2 ^ (bits - 1) ≤ x)
    (hi : x < 2 ^ (bits - 1)) : (signed bits x).toOption = some x :=
  toOption_some.mpr (signed_ok lo hi)

/-- The slices lie side by side, none is empty, and together they make up `total`. -/
structure Partition (lowBound highBound : Int) (symLow symHigh : Int → Nat) (total : Nat) :
    Prop where
  first : symLow lowBound = 0
  nonempty : ∀ x, lowBound ≤ x → x ≤ highBound → symLow x < symHigh x
  contiguous : ∀ x, lowBound ≤ x → x < highBound → symHigh x = symLow (x + 1)
  last : symHigh highBound = total

namespace EncTable

/-- What `update` leaves, where the sum fits into `prob_sum`. -/
def exactUpdate (t : EncTable) (probs means stds : Fin 3 → Int) : Option EncTable := do
  let scalePred ← unsigned 16 t.scalePred
  let (probs, sum) ←
    (softmax probs (UInt16.ofNat scalePred) t.tables.expTable t.expScale t.expXBound).toOption
  let sum ← unsigned 32 sum
  some { t with probs, means, stds, probSum := UInt32.ofNat sum }

def exactQuotient (a b : Nat) : Option Nat := if b = 0 then none else some (a / b)

def exactWeight (t : EncTable) (x : Int) (right : Bool) (i : Fin 3) : Option Nat := do
  let idx ← (t.cdfIndex x right i).toOption
  let entry ← (index t.tables.cdfTable idx).toOption
  let resolution ← unsigned 64 t.freqsResolution
  let product ← unsigned 64 (1 * resolution)
  let product ← unsigned 64 (product * entry.toNat)
  let share ← exactQuotient product t.probSum.toNat
  let prob ← unsigned 64 (t.probs i)
  unsigned 64 (share * prob)

def exactMixture (t : EncTable) (x : Int) (right : Bool) : Option Nat := do
  let sum ← (List.finRange 3).foldlM
    (fun (sum : Nat) i => do unsigned 64 (sum + (← t.exactWeight x right i))) 0
  some (sum / 0xFFFFFFFF)

/-- The end of a slice at the cumulative frequency `value`, `points` symbols up. -/
def exactEnd (value lBound : Nat) (points : Int) : Option Nat := do
  let difference ← unsigned 64 (value - lBound)
  let sum ← unsigned 64 (difference + (← unsigned 64 points))
  unsigned 32 sum

/-- `sym_low`, `sym_high` and `total_freqs` of `x`. -/
def exactBound (t : EncTable) (x : Int) : Option (Nat × Nat × Nat) := do
  let lBound ← t.exactMixture t.lowBound false
  let rBound ← t.exactMixture t.highBound true
  let low ← t.exactMixture x false
  let high ← t.exactMixture x true
  let before ← (signed 32 (x - t.lowBound)).toOption
  let upto ← (signed 32 (before + 1)).toOption
  let span ← (signed 32 (t.highBound - t.lowBound)).toOption
  let count ← (signed 32 (span + 1)).toOption
  some (← exactEnd low lBound before, ← exactEnd high lBound upto, ← exactEnd rBound lBound count)

theorem exactWeight_eq {t : EncTable} (p : t.Prepared) {x : Int} (hx : InInt16 x) (right : Bool)
    (i : Fin 3) : t.exactWeight x right i = some (t.mass (edge x right) i) := by
  obtain ⟨lo, hi⟩ := cdfPos_range t (edge x right) i
  obtain ⟨plo, phi⟩ := p.probs i
  have hlen := p.usable.cdf_length
  have hpos := p.probSum_pos
  have hlt : (t.cdfPos (edge x right) i).toNat < t.tables.cdfTable.length := by omega
  have hentry : t.tables.cdfTable[(t.cdfPos (edge x right) i).toNat].toNat =
      t.cdfEntry (edge x right) i := by
    rw [cdfEntry, List.getD_eq_getElem _ _ hlt]
  have hle := t.cdfEntry_le (edge x right) i
  have hprob : unsigned 64 (t.probs i) = some (t.probs i).toNat :=
    if_pos ⟨plo, by omega⟩
  have hmass := mass_lt p.weighed (edge x right) i
  have hresolution : unsigned 64 1000000 = some 1000000 := by decide
  have hone : unsigned 64 (1 * ((1000000 : Nat) : Int)) = some 1000000 := by decide
  have hproduct : unsigned 64 (((1000000 : Nat) : Int) * t.cdfEntry (edge x right) i) =
      some (1000000 * t.cdfEntry (edge x right) i) := unsigned_eq (by push_cast; rfl) (by omega)
  rw [exactWeight, toOption_some.mpr (cdfIndex_ok p.weighed hx right (p.stds_ne i)), some_bind,
    toOption_some.mpr (index_ok lo hlt), some_bind, p.freqsResolution, hresolution, some_bind,
    hone, some_bind, hentry, hproduct, some_bind, exactQuotient, if_neg (Nat.ne_of_gt hpos),
    some_bind, hprob, some_bind]
  exact unsigned_eq (by rw [mass]; push_cast; rfl) hmass

theorem exactMixture_eq {t : EncTable} (p : t.Prepared) {x : Int} (hx : InInt16 x)
    (right : Bool) : t.exactMixture x right = some (t.cumulative (edge x right)) := by
  have hsum := sum_mass_le p.weighed (edge x right)
  rw [Fin.sum_univ_three] at hsum
  have h0 : unsigned 64 (((0 : Nat) : Int) + t.mass (edge x right) 0) =
      some (t.mass (edge x right) 0) := unsigned_eq (Int.zero_add _) (by omega)
  have h1 : unsigned 64 ((t.mass (edge x right) 0 : Int) + t.mass (edge x right) 1) =
      some (t.mass (edge x right) 0 + t.mass (edge x right) 1) :=
    unsigned_eq (by push_cast; rfl) (by omega)
  have h2 : unsigned 64 (((t.mass (edge x right) 0 + t.mass (edge x right) 1 : Nat) : Int) +
      t.mass (edge x right) 2) = some (t.mass (edge x right) 0 + t.mass (edge x right) 1 +
        t.mass (edge x right) 2) := unsigned_eq (by push_cast; rfl) (by omega)
  have hall : List.finRange 3 = [0, 1, 2] := by decide
  rw [exactMixture, hall, List.foldlM_cons, exactWeight_eq p hx, some_bind, h0, some_bind,
    List.foldlM_cons, exactWeight_eq p hx, some_bind, h1, some_bind, List.foldlM_cons,
    exactWeight_eq p hx, some_bind, h2, some_bind, List.foldlM_nil, cumulative,
    Fin.sum_univ_three]
  rfl

theorem exactEnd_eq {t : EncTable} (p : t.Prepared) {x : Int} (h : t.lowBound ≤ x)
    (hx : x - t.lowBound ≤ 65536) :
    exactEnd (t.cumulative (edge x false)) (t.cumulative (edge t.lowBound false))
      (x - t.lowBound) = some (t.lowerEnd x) := by
  have hbase := cumulative_mono p (edge_mono h false)
  have hle := cumulative_le p.weighed (edge x false)
  have hdifference : unsigned 64 ((t.cumulative (edge x false) : Int) -
      t.cumulative (edge t.lowBound false)) = some (t.cumulative (edge x false) -
        t.cumulative (edge t.lowBound false)) := unsigned_eq (by omega) (by omega)
  have hpoints : unsigned 64 (x - t.lowBound) = some (x - t.lowBound).toNat :=
    unsigned_eq (by omega) (by omega)
  have hsum : unsigned 64 (((t.cumulative (edge x false) - t.cumulative (edge t.lowBound false) :
      Nat) : Int) + (x - t.lowBound).toNat) = some (t.lowerEnd x) :=
    unsigned_eq (by rw [lowerEnd]; push_cast; rfl) (by rw [lowerEnd]; omega)
  rw [exactEnd, hdifference, some_bind, hpoints, some_bind, hsum, some_bind]
  exact unsigned_eq rfl (by rw [lowerEnd]; omega)

theorem exactBound_eq {t : EncTable} (p : t.Prepared) (hlow : InInt16 t.lowBound)
    (hhigh : InInt16 t.highBound) {x : Int} (lo : t.lowBound ≤ x) (hi : x ≤ t.highBound) :
    t.exactBound x = some (t.lowerEnd x, t.lowerEnd (x + 1), t.lowerEnd (t.highBound + 1)) := by
  have ⟨l1, l2⟩ := hlow
  have ⟨h1, h2⟩ := hhigh
  have hx : InInt16 x := ⟨by omega, by omega⟩
  have hbefore := exactEnd_eq p lo (by omega)
  have hupto := exactEnd_eq p (show t.lowBound ≤ x + 1 by omega) (by omega)
  have hcount := exactEnd_eq p (show t.lowBound ≤ t.highBound + 1 by omega) (by omega)
  rw [edge_succ, show x + 1 - t.lowBound = x - t.lowBound + 1 by omega] at hupto
  rw [edge_succ, show t.highBound + 1 - t.lowBound = t.highBound - t.lowBound + 1 by omega]
    at hcount
  rw [exactBound, exactMixture_eq p hlow, some_bind, exactMixture_eq p hhigh, some_bind,
    exactMixture_eq p hx, some_bind, exactMixture_eq p hx, some_bind,
    signed_toOption (by omega) (by omega), some_bind,
    signed_toOption (by omega) (by omega), some_bind,
    signed_toOption (by omega) (by omega), some_bind,
    signed_toOption (by omega) (by omega), some_bind, hbefore, some_bind, hupto, some_bind,
    hcount, some_bind]

theorem exactUpdate_eq {t : EncTable} {T : Tables} {l h : Int} (c : t.Configured T l h)
    (usable : T.Usable) {probs : Fin 3 → Int} (hprobs : ∀ i, InInt16 (probs i))
    (means stds : Fin 3 → Int) :
    t.exactUpdate probs means stds = (t.update probs means stds).toOption := by
  obtain ⟨q, hsoft, hrange, hpos⟩ := softmax_ok usable.sized hprobs
  have hscale : unsigned 16 10000 = some 10000 := by decide
  have h0 := hrange 0
  have h1 := hrange 1
  have h2 := hrange 2
  have hsum : unsigned 32 (∑ i, q i) = some (∑ i, q i).toNat := by
    rw [Fin.sum_univ_three] at hpos ⊢
    exact unsigned_eq (by omega) (by omega)
  have hofNat : UInt32.ofNat (∑ i, q i).toNat = UInt32.ofInt (∑ i, q i) := by
    rw [Fin.sum_univ_three] at hpos ⊢
    rw [UInt32.ofInt, Int.emod_eq_of_lt (by omega) (by omega)]
  have hupdate : t.update probs means stds =
      .ok { t with probs := q, means, stds, probSum := UInt32.ofInt (∑ i, q i) } := by
    rw [update, c.tables, c.expScale, c.expXBound, c.scalePred]
    exact congrArg (· >>= _) hsoft
  rw [hupdate, exactUpdate, c.scalePred, hscale, some_bind, c.tables, c.expScale, c.expXBound,
    toOption_some.mpr (show softmax probs (UInt16.ofNat 10000) _ _ _ = _ from hsoft), some_bind]
  simp only
  rw [hsum, some_bind, hofNat]
  rfl

end EncTable

/-- The slices of a table that was updated are a partition of at most `1000000 + 65536`, and
every operation behind them is exact. -/
theorem frequencies_partition {T : Tables} (usable : T.Usable) {t : EncTable}
    {lowBound highBound : Int} (c : t.Configured T lowBound highBound)
    (hlow : InInt16 lowBound) (hhigh : InInt16 highBound) {probs means stds : Fin 3 → Int}
    (hprobs : ∀ i, InInt16 (probs i)) (hmeans : ∀ i, InInt16 (means i))
    (hstds : ∀ i, 1 ≤ stds i) :
    ∃ t', t.update probs means stds = .ok t' ∧ t.exactUpdate probs means stds = some t' ∧
      ∃ symLow symHigh total,
        (∀ x, lowBound ≤ x → x ≤ highBound → ∃ r, t'.getBound x = .ok r ∧
          r.symLow.toNat = symLow x ∧ r.symHigh.toNat = symHigh x ∧ r.totalFreqs.toNat = total ∧
          t'.exactBound x = some (symLow x, symHigh x, total)) ∧
        Partition lowBound highBound symLow symHigh total ∧ total ≤ 1000000 + 65536 := by
  obtain ⟨t', hupdate, p, c'⟩ := EncTable.update_ok c usable hprobs hmeans hstds
  have hlowBound := c'.lowBound
  have hhighBound := c'.highBound
  subst hlowBound hhighBound
  have hexact := EncTable.exactUpdate_eq c usable hprobs means stds
  refine ⟨t', hupdate, hexact.trans (toOption_some.mpr hupdate), t'.lowerEnd,
    fun x => t'.lowerEnd (x + 1), t'.lowerEnd (t'.highBound + 1), ?_, ?_, ?_⟩
  · intro x lo hi
    obtain ⟨r, hr, hsymLow, hsymHigh, htotal⟩ := EncTable.getBound_ok p hlow hhigh lo hi
    exact ⟨r, hr, hsymLow, hsymHigh, htotal, EncTable.exactBound_eq p hlow hhigh lo hi⟩
  · exact { first := by simp [EncTable.lowerEnd]
            nonempty := fun x lo _ => EncTable.lowerEnd_lt_succ p lo
            contiguous := fun x _ _ => rfl
            last := rfl }
  · have hle := EncTable.lowerEnd_le p (t'.highBound + 1)
    have hleast := hlow.1
    have hmost := hhigh.2
    omega

theorem frequencies_partition_ramp :
    ∃ t' symLow symHigh total,
      (EncTable.new (rampTables 12001 100001) 1000000 (-4) 9).update ![5, -3, 0] ![0, 0, 900]
        ![1, 20, 32767] = .ok t' ∧
      Partition (-4) 9 symLow symHigh total ∧ total ≤ 1000000 + 65536 := by
  have c : (EncTable.new (rampTables 12001 100001) 1000000 (-4) 9).Configured
      (rampTables 12001 100001) (-4) 9 := ⟨rfl, rfl, rfl, rfl, rfl, rfl, rfl, rfl, rfl⟩
  have hprobs : ∀ i, InInt16 ((![5, -3, 0] : Fin 3 → Int) i) := by decide
  have hmeans : ∀ i, InInt16 ((![0, 0, 900] : Fin 3 → Int) i) := by decide
  have hstds : ∀ i, 1 ≤ (![1, 20, 32767] : Fin 3 → Int) i := by decide
  obtain ⟨t', hupdate, -, symLow, symHigh, total, -, hpartition, htotal⟩ :=
    frequencies_partition (rampTables_usable (Nat.le_refl _) (Nat.le_refl _) (Nat.le_refl _)) c
      (by decide) (by decide) hprobs hmeans hstds
  exact ⟨t', symLow, symHigh, total, hupdate, hpartition, htotal⟩

end Soc
