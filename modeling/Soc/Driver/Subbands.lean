import Soc.Coding.Lossless
import Soc.Driver.Network
import Mathlib.Data.List.SplitLengths

/-!
Which coefficients are coded.

The channels are cut by a table of lengths that is written for one size of picture. What a
channel has behind the last of its subbands is not coded; a channel that has less is read past
its end.
-/
namespace Soc

/-! A subband is no longer than its length says. -/

/-- The subband without what lies behind its length. -/
def Subband.cut (b : Subband) : Subband := { b with datum := b.datum.take b.len.toNat }

theorem Subband.count_eq {b : Subband} (h : b.len.toNat < 2 ^ 31) : b.count = b.len.toNat := by
  rw [count, narrow_eq (by omega) (by omega)]

theorem elements_cut {b : Subband} (h : b.len.toNat < 2 ^ 31) :
    elements b.cut.datum b.cut.count = elements b.datum b.count := by
  have hcount : b.cut.count = b.count := rfl
  have hfits : (0 < (b.len.toNat : Int) ∧ (b.len.toNat : Int) ≤ (b.cut.datum.length : Int)) ↔
      0 < (b.len.toNat : Int) ∧ (b.len.toNat : Int) ≤ (b.datum.length : Int) := by
    rw [Subband.cut, List.length_take]
    omega
  rw [elements, elements, hcount, Subband.count_eq h, if_congr hfits rfl rfl, Int.toNat_natCast,
    Subband.cut, List.take_take, Nat.min_self]

theorem codeSubbands_cut (charIsSigned : Bool) (T : Tables) (gmmScale : Int) {bs : List Subband}
    (h : ∀ b ∈ bs, b.len.toNat < 2 ^ 31) (s : Coder) :
    codeSubbands charIsSigned T gmmScale (bs.map Subband.cut) s =
      codeSubbands charIsSigned T gmmScale bs s := by
  induction bs generalizing s with
  | nil => rfl
  | cons b bs ih =>
      have hfirst : codeSubband charIsSigned T gmmScale b.cut s =
          codeSubband charIsSigned T gmmScale b s := by
        rw [codeSubband, codeSubband, elements_cut (h b List.mem_cons_self)]
        rfl
      rw [List.map_cons, codeSubbands, codeSubbands, hfirst]
      simp only [ih fun b hb => h b (List.mem_cons_of_mem _ hb)]

/-- Coding does not look behind the lengths. -/
theorem codings_cut (charIsSigned : Bool) (T : Tables) (gmms : Fin subCnt → List Gmm)
    (data : Fin subCnt → List Int16) {lens : Fin subCnt → UInt64}
    (h : ∀ i, (lens i).toNat < 2 ^ 31) (gmmScale : Int) :
    codings charIsSigned T gmms (fun i => (data i).take (lens i).toNat) lens gmmScale =
      codings charIsSigned T gmms data lens gmmScale := by
  have hcut : subbands gmms (fun i => (data i).take (lens i).toNat) lens =
      (subbands gmms data lens).map Subband.cut := by
    rw [subbands, subbands, List.map_ofFn]
    rfl
  have hsmall : ∀ b ∈ subbands gmms data lens, b.len.toNat < 2 ^ 31 := by
    intro b hb
    obtain ⟨i, rfl⟩ := (List.mem_ofFn' _ b).mp hb
    exact h i
  rw [codings, codings, hcut]
  simp only [codeSubbands_cut charIsSigned T gmmScale hsmall]

/-- A coding that succeeds has found every subband. -/
theorem codeSubbands_fits {charIsSigned : Bool} {T : Tables} {gmmScale : Int} {bs : List Subband}
    (h : ∀ b ∈ bs, b.len.toNat < 2 ^ 31) {s : Coder} {r : List UInt8 × Coder}
    (hrun : codeSubbands charIsSigned T gmmScale bs s = .ok r) :
    ∀ b ∈ bs, b.len.toNat ≤ b.datum.length := by
  induction bs generalizing s r with
  | nil => simp
  | cons b bs ih =>
      obtain ⟨⟨header, s₁⟩, hfirst, hrun⟩ := bind_ok hrun
      obtain ⟨⟨headers, s₂⟩, hrest, -⟩ := bind_ok hrun
      obtain ⟨xs, helements, -⟩ := bind_ok hfirst
      have hfits : b.len.toNat ≤ b.datum.length := by
        rw [elements, Subband.count_eq (h b List.mem_cons_self)] at helements
        split at helements
        · next hle => exact Int.ofNat_le.mp hle.2
        · cases helements
      intro b' hb'
      cases hb' with
      | head => exact hfits
      | tail _ hb' => exact ih (fun b hb => h b (List.mem_cons_of_mem _ hb)) hrest b' hb'

/-! The slices of a channel. -/

theorem slices_length (gmm : List Gmm) (trans : List Int16) (ptr : Nat) (lens : List UInt64) :
    (slices gmm trans ptr lens).length = lens.length := by
  induction lens generalizing ptr with
  | nil => rfl
  | cons len lens ih => rw [slices, List.length_cons, ih, List.length_cons]

/-- Cut to their lengths the slices are the coefficients in order. -/
theorem slices_cut (gmm : List Gmm) (trans : List Int16) (ptr : Nat) (lens : List UInt64) :
    List.zipWith (fun s len => s.2.take len.toNat) (slices gmm trans ptr lens) lens =
      (lens.map UInt64.toNat).splitLengths (trans.drop ptr) := by
  induction lens generalizing ptr with
  | nil => rfl
  | cons len lens ih =>
      rw [slices, List.zipWith_cons_cons, ih, List.map_cons, List.splitLengths_cons, List.drop_drop]

theorem mem_slices {gmm : List Gmm} {trans : List Int16} {ptr : Nat} {lens : List UInt64}
    {s : List Gmm × List Int16} (hs : s ∈ slices gmm trans ptr lens) :
    ∃ n, s = (gmm.drop n, trans.drop n) := by
  induction lens generalizing ptr with
  | nil => contradiction
  | cons len lens ih =>
      cases hs with
      | head => exact ⟨ptr, rfl⟩
      | tail _ hs => exact ih hs

/-- Every slice holds its subband exactly when the channel holds all of them. -/
theorem slices_fit_iff {gmm : List Gmm} {trans : List Int16} {lens : List UInt64}
    (hpos : ∀ len ∈ lens, 1 ≤ len.toNat) (hne : lens ≠ []) (ptr : Nat) :
    (∀ p ∈ (slices gmm trans ptr lens).zip lens, p.2.toNat ≤ p.1.2.length) ↔
      ptr + (lens.map UInt64.toNat).sum ≤ trans.length := by
  induction lens generalizing ptr with
  | nil => exact absurd rfl hne
  | cons len lens ih =>
      have hlen := hpos len List.mem_cons_self
      have hfirst : len.toNat ≤ (trans.drop ptr).length ↔ ptr + len.toNat ≤ trans.length := by
        rw [List.length_drop]
        omega
      rw [slices, List.zip_cons_cons, List.forall_mem_cons, hfirst, List.map_cons, List.sum_cons]
      by_cases hlast : lens = []
      · rw [hlast]
        simp
      · rw [ih (fun l hl => hpos l (List.mem_cons_of_mem _ hl)) hlast]
        omega

/-- The lengths of the subbands of channel `k`. -/
def channelLens (k : Nat) : List UInt64 := (subbandLens.drop (13 * k)).take 13

/-- The deviations that the coder finds for a channel, in what is read and in what `malloc` has
left, are positive. -/
def Positive (heap : Nat → Gmm) (entropy : List Int16) : Prop :=
  ∀ gmm, entropyToGmm entropy (List.replicate (entropy.length / 9) none) (entropy.length / 9) =
      .ok gmm →
    ∀ g ∈ settle heap gmm, 1 ≤ g.std1.toInt ∧ 1 ≤ g.std2.toInt ∧ 1 ≤ g.std3.toInt

/-- A channel has a set of parameters for every coefficient, and the coefficients of its
subbands. -/
structure Fits (lens : List UInt64) (channel : List Int16 × List Int16) : Prop where
  entropy : channel.2.length / 9 = channel.1.length
  trans : (lens.map UInt64.toNat).sum ≤ channel.1.length

/-- What the conversion sets is taken from the output of the network. -/
theorem entropyToGmm_ok {entropy : List Int16} {n : Nat} (h : 9 * n ≤ entropy.length) :
    ∃ gmm, entropyToGmm entropy (List.replicate n none) n = .ok gmm ∧ gmm.length = n ∧
      ∀ g, some g ∈ gmm → ∀ x ∈ g.params, x ∈ entropy := by
  have hlast : ∀ (i : Nat) (gmm : List (Option Gmm)), (n ≤ i + 0 ∧ gmm.length = n ∧
      ∀ g, some g ∈ gmm → ∀ x ∈ g.params, x ∈ entropy) → ¬ i < n :=
    fun _ _ h => Nat.not_lt.mpr h.1
  have hturn : ∀ fuel i (gmm : List (Option Gmm)), (n ≤ i + (fuel + 1) ∧ gmm.length = n ∧
      ∀ g, some g ∈ gmm → ∀ x ∈ g.params, x ∈ entropy) → i < n →
      ∃ gmm', entropyToGmmTurn entropy i gmm = .ok gmm' ∧ n ≤ i + 9 + fuel ∧ gmm'.length = n ∧
        ∀ g, some g ∈ gmm' → ∀ x ∈ g.params, x ∈ entropy := by
    intro fuel i gmm ⟨hfuel, hlength, hfrom⟩ hi
    have hinside : i + 9 ≤ entropy.length := by omega
    have hentry : i < gmm.length := by omega
    obtain ⟨g, hread, hrun⟩ := entropyToGmmTurn_ok hinside hentry
    refine ⟨_, hrun, by omega, by rw [List.length_set, hlength], fun g' hg' x hx => ?_⟩
    cases List.mem_or_eq_of_mem_set hg' with
    | inl hold => exact hfrom g' hold x hx
    | inr hnew =>
        rw [Option.some.inj hnew, hread] at hx
        exact List.mem_of_mem_drop (List.mem_of_mem_take hx)
  have hfresh : ∀ g, some g ∈ List.replicate n (none : Option Gmm) →
      ∀ x ∈ g.params, x ∈ entropy := fun g hg =>
    absurd (List.eq_of_mem_replicate hg) (Option.some_ne_none g)
  obtain ⟨_, i, gmm, hrun, -, -, hlength, hfrom⟩ :=
    Whiles.loop_invariant
      (fun fuel i (gmm : List (Option Gmm)) => n ≤ i + fuel ∧ gmm.length = n ∧
        ∀ g, some g ∈ gmm → ∀ x ∈ g.params, x ∈ entropy) hlast hturn
      ⟨Nat.le_add_left n 0, List.length_replicate, hfresh⟩
  exact ⟨gmm, by rw [entropyToGmm, hrun, ok_bind], hlength, hfrom⟩

theorem mem_settle {heap : Nat → Gmm} {gmm : List (Option Gmm)} {g : Gmm}
    (hg : g ∈ settle heap gmm) : some g ∈ gmm ∨ ∃ i, g = heap i := by
  obtain ⟨i, hi, rfl⟩ := List.mem_mapIdx.mp hg
  cases hentry : gmm[i] with
  | none => exact .inr ⟨i, rfl⟩
  | some g => exact .inl (hentry ▸ List.getElem_mem hi)

/-- Positive values, in the output and in the block, make positive deviations. -/
theorem positive_of {heap : Nat → Gmm} {entropy : List Int16}
    (hheap : ∀ i, 1 ≤ (heap i).std1.toInt ∧ 1 ≤ (heap i).std2.toInt ∧ 1 ≤ (heap i).std3.toInt)
    (hentropy : ∀ x ∈ entropy, 1 ≤ x.toInt) : Positive heap entropy := by
  intro gmm hrun g hg
  have hnine : 9 * (entropy.length / 9) ≤ entropy.length := Nat.mul_div_le _ _
  obtain ⟨gmm', hrun', -, hfrom⟩ := entropyToGmm_ok hnine
  obtain rfl := Except.ok.inj (hrun.symm.trans hrun')
  cases mem_settle hg with
  | inl hset =>
      have hparams := hfrom g hset
      exact ⟨hentropy _ (hparams _ (by simp [Gmm.params])),
        hentropy _ (hparams _ (by simp [Gmm.params])),
        hentropy _ (hparams _ (by simp [Gmm.params]))⟩
  | inr hleft =>
      obtain ⟨i, rfl⟩ := hleft
      exact hheap i

/-- A channel is cut if the assertion holds. -/
theorem sliceChannel_ok {heap : Nat → Gmm} {channel : List Int16 × List Int16}
    (lens : List UInt64) (h : channel.2.length / 9 = channel.1.length)
    (hpositive : Positive heap channel.2) :
    ∃ gmm, sliceChannel heap channel.1 channel.2 lens = .ok (slices gmm channel.1 0 lens) ∧
      gmm.length = channel.1.length ∧
      ∀ g ∈ gmm, 1 ≤ g.std1.toInt ∧ 1 ≤ g.std2.toInt ∧ 1 ≤ g.std3.toInt := by
  have hnine : 9 * (channel.2.length / 9) ≤ channel.2.length := Nat.mul_div_le _ _
  obtain ⟨gmm, hrun, hlength, -⟩ := entropyToGmm_ok hnine
  refine ⟨settle heap gmm, ?_, ?_, hpositive gmm hrun⟩
  · rw [sliceChannel]
    simp only [if_neg (not_not_intro h), hrun, ok_bind]
  · rw [settle, List.length_mapIdx, hlength, h]

theorem sliceChannel_entropy {heap : Nat → Gmm} {trans entropy : List Int16} {lens : List UInt64}
    {subbands : List (List Gmm × List Int16)}
    (h : sliceChannel heap trans entropy lens = .ok subbands) :
    entropy.length / 9 = trans.length := by
  rw [sliceChannel] at h
  by_contra hne
  simp only [if_pos hne] at h
  cases h

/-! The subbands of three channels. -/

section Table
variable {α β : Type} {xs : List α} {ys : List β} {n : Nat}

theorem ofFn_getD (f : α → β → List Int16) (hxs : xs.length = n) (hys : ys.length = n) (d : α)
    (e : β) :
    List.ofFn (fun i : Fin n => f (xs.getD i d) (ys.getD i e)) = List.zipWith f xs ys := by
  apply List.ext_getElem
  · rw [List.length_ofFn, List.length_zipWith, hxs, hys, Nat.min_self]
  · intro i hi _
    rw [List.length_ofFn] at hi
    rw [List.getElem_ofFn, List.getElem_zipWith, List.getD_eq_getElem _ _ (by omega),
      List.getD_eq_getElem _ _ (by omega)]

theorem getD_mem_zip (hxs : xs.length = n) (hys : ys.length = n) (d : α) (e : β) (i : Fin n) :
    (xs.getD i d, ys.getD i e) ∈ xs.zip ys := by
  have hi := i.isLt
  rw [List.getD_eq_getElem _ _ (by omega), List.getD_eq_getElem _ _ (by omega), ← List.getElem_zip]
  · exact List.getElem_mem _
  · rw [List.length_zip, hxs, hys]
    omega

theorem zip_mem_getD (hxs : xs.length = n) (hys : ys.length = n) (d : α) (e : β) {p : α × β}
    (hp : p ∈ xs.zip ys) : ∃ i : Fin n, p = (xs.getD i d, ys.getD i e) := by
  obtain ⟨i, hi, rfl⟩ := List.getElem_of_mem hp
  rw [List.length_zip, hxs, hys, Nat.min_self] at hi
  refine ⟨⟨i, hi⟩, ?_⟩
  rw [List.getElem_zip, List.getD_eq_getElem _ _ (by omega), List.getD_eq_getElem _ _ (by omega)]

end Table

theorem channelLens_spec :
    subbandLens = channelLens 0 ++ (channelLens 1 ++ (channelLens 2 ++ [])) ∧
      (∀ k < 3, (channelLens k).length = 13) ∧ (subbandLens.map UInt64.toNat).sum < 2 ^ 31 := by
  decide

theorem subbandLens_pos : ∀ len ∈ subbandLens, 1 ≤ len.toNat := by
  have hall : (subbandLens.all fun len => decide (1 ≤ len.toNat)) = true := by decide
  exact fun len hlen => of_decide_eq_true (List.all_eq_true.mp hall len hlen)

theorem subbandLens_lt (i : Fin subCnt) : (subbandLens.getD i 0).toNat < 2 ^ 31 := by
  revert i
  decide

theorem lens_table : (List.ofFn fun i : Fin subCnt => subbandLens.getD i 0) = subbandLens := by
  rfl

/-- The coefficients of the subbands of a channel. -/
def subbandsOf (k : Nat) (trans : List Int16) : List (List Int16) :=
  ((channelLens k).map UInt64.toNat).splitLengths trans

section Channels
variable (y u v : List Int16 × List Int16) (gy gu gv : List Gmm)

/-- The subbands of the three channels. -/
def sliced : List (List Gmm × List Int16) :=
  slices gy y.1 0 (channelLens 0) ++
    (slices gu u.1 0 (channelLens 1) ++ (slices gv v.1 0 (channelLens 2) ++ []))

theorem sliced_length : (sliced y u v gy gu gv).length = subCnt := by
  have hlens := channelLens_spec.2.1
  simp only [sliced, List.length_append, slices_length, hlens 0 (by decide), hlens 1 (by decide),
    hlens 2 (by decide), List.length_nil]

theorem sliced_cut :
    List.zipWith (fun s len => s.2.take len.toNat) (sliced y u v gy gu gv) subbandLens =
      subbandsOf 0 y.1 ++ (subbandsOf 1 u.1 ++ (subbandsOf 2 v.1 ++ [])) := by
  rw [channelLens_spec.1, sliced, List.zipWith_append (slices_length _ _ _ _),
    List.zipWith_append (slices_length _ _ _ _), List.zipWith_append (slices_length _ _ _ _),
    slices_cut, slices_cut, slices_cut]
  rfl

theorem sliced_fit_iff :
    (∀ p ∈ (sliced y u v gy gu gv).zip subbandLens, p.2.toNat ≤ p.1.2.length) ↔
      ((channelLens 0).map UInt64.toNat).sum ≤ y.1.length ∧
        ((channelLens 1).map UInt64.toNat).sum ≤ u.1.length ∧
        ((channelLens 2).map UInt64.toNat).sum ≤ v.1.length := by
  obtain ⟨hsplit, hlens, -⟩ := channelLens_spec
  have hmem : ∀ k, ∀ len ∈ channelLens k, 1 ≤ len.toNat := fun k len hlen =>
    subbandLens_pos len (List.mem_of_mem_drop (List.mem_of_mem_take hlen))
  have hne : ∀ k < 3, channelLens k ≠ [] := by
    intro k hk hnil
    have hlength := hlens k hk
    rw [hnil] at hlength
    cases hlength
  have hiff : ∀ k < 3, ∀ (gmm : List Gmm) (trans : List Int16),
      (∀ p ∈ (slices gmm trans 0 (channelLens k)).zip (channelLens k), p.2.toNat ≤ p.1.2.length) ↔
        ((channelLens k).map UInt64.toNat).sum ≤ trans.length := by
    intro k hk gmm trans
    rw [slices_fit_iff (hmem k) (hne k hk) 0, Nat.zero_add]
  rw [hsplit, sliced, List.zip_append (slices_length _ _ _ _),
    List.zip_append (slices_length _ _ _ _), List.zip_append (slices_length _ _ _ _)]
  simp only [List.forall_mem_append, hiff 0 (by decide), hiff 1 (by decide), hiff 2 (by decide)]
  simp

end Channels

/-- Where the assertions hold the three channels are cut. -/
theorem sliceChannels_eq {heap : Nat → Nat → Gmm} {y u v : List Int16 × List Int16}
    (hy : y.2.length / 9 = y.1.length) (hu : u.2.length / 9 = u.1.length)
    (hv : v.2.length / 9 = v.1.length) (hpositive : Positive (heap 0) y.2 ∧ Positive (heap 1) u.2 ∧
      Positive (heap 2) v.2) :
    ∃ gy gu gv, sliceChannels heap 0 [y, u, v] = .ok (sliced y u v gy gu gv) ∧
      gy.length = y.1.length ∧ gu.length = u.1.length ∧ gv.length = v.1.length ∧
      ∀ g ∈ gy ++ gu ++ gv, 1 ≤ g.std1.toInt ∧ 1 ≤ g.std2.toInt ∧ 1 ≤ g.std3.toInt := by
  obtain ⟨gy, hslicey, hgy, hposy⟩ := sliceChannel_ok (channelLens 0) hy hpositive.1
  obtain ⟨gu, hsliceu, hgu, hposu⟩ := sliceChannel_ok (channelLens 1) hu hpositive.2.1
  obtain ⟨gv, hslicev, hgv, hposv⟩ := sliceChannel_ok (channelLens 2) hv hpositive.2.2
  rw [channelLens] at hslicey hsliceu hslicev
  refine ⟨gy, gu, gv, ?_, hgy, hgu, hgv, ?_⟩
  · simp only [sliceChannels, Nat.zero_add, Nat.reduceAdd, hslicey, hsliceu, hslicev, ok_bind]
    rfl
  · simp only [List.forall_mem_append]
    exact ⟨⟨hposy, hposu⟩, hposv⟩

theorem sliceChannels_entropy {heap : Nat → Nat → Gmm} {y u v : List Int16 × List Int16}
    {subbands : List (List Gmm × List Int16)}
    (h : sliceChannels heap 0 [y, u, v] = .ok subbands) :
    y.2.length / 9 = y.1.length ∧ u.2.length / 9 = u.1.length ∧ v.2.length / 9 = v.1.length := by
  obtain ⟨_, hy, h⟩ := bind_ok h
  obtain ⟨_, h, -⟩ := bind_ok h
  obtain ⟨_, hu, h⟩ := bind_ok h
  obtain ⟨_, h, -⟩ := bind_ok h
  obtain ⟨_, hv, -⟩ := bind_ok h
  exact ⟨sliceChannel_entropy hy, sliceChannel_entropy hu, sliceChannel_entropy hv⟩

/-- The arguments that `codings` gets for channels that fit. -/
theorem sliced_setup {y u v : List Int16 × List Int16} {gy gu gv : List Gmm}
    (hgy : gy.length = y.1.length) (hgu : gu.length = u.1.length) (hgv : gv.length = v.1.length)
    (hstds : ∀ g ∈ gy ++ gu ++ gv, 1 ≤ g.std1.toInt ∧ 1 ≤ g.std2.toInt ∧ 1 ≤ g.std3.toInt)
    (hfit : ∀ p ∈ (sliced y u v gy gu gv).zip subbandLens, p.2.toNat ≤ p.1.2.length) :
    CodingSetup (fun i => ((sliced y u v gy gu gv).getD i ([], [])).1)
      fun i => subbandLens.getD i 0 := by
  obtain ⟨-, -, hsum⟩ := channelLens_spec
  have hslice : ∀ s ∈ sliced y u v gy gu gv, s.1.length = s.2.length ∧
      ∀ g ∈ s.1, g ∈ gy ++ gu ++ gv := by
    intro s hs
    simp only [sliced, List.mem_append, List.not_mem_nil, or_false] at hs
    rcases hs with hs | hs | hs
    all_goals
      obtain ⟨n, rfl⟩ := mem_slices hs
      refine ⟨by simp [hgy, hgu, hgv], fun g hg => ?_⟩
      have hmem := List.mem_of_mem_drop hg
      simp [hmem]
  have hpair := getD_mem_zip (sliced_length y u v gy gu gv)
    (show subbandLens.length = subCnt by rfl) ([], []) 0
  have hone := fun i => hslice _ (List.of_mem_zip (hpair i)).1
  refine ⟨fun i => subbandLens_pos _ (List.of_mem_zip (hpair i)).2, ?_, fun i => ?_,
    fun i g hg => ?_⟩
  · rw [← lens_sum, lens_table]
    exact hsum
  · rw [(hone i).1]
    exact hfit _ (hpair i)
  · exact hstds g ((hone i).2 g hg)

/-! The coding of a picture. -/

/-- The three channels have what their subbands need. -/
def FitAll (channels : List (List Int16 × List Int16)) : Prop :=
  List.Forall₂ Fits [channelLens 0, channelLens 1, channelLens 2] channels

def PositiveAll (heap : Nat → Nat → Gmm) (channels : List (List Int16 × List Int16)) : Prop :=
  List.Forall₂ (fun heap channel => Positive heap channel.2) [heap 0, heap 1, heap 2] channels

/-- The coefficients that the table of lengths names. -/
def tabled (channels : List (List Int16 × List Int16)) : List (List Int16) :=
  (channels.mapIdx fun k channel => subbandsOf k channel.1).flatten

/-- A decoder with the mixture parameters gets the named coefficients back. -/
structure Decodes (T : Tables) (heap : Nat → Nat → Gmm) (channels : List (List Int16 × List Int16))
    (r : CodingResult) : Prop where
  length : r.data.length = r.length
  decodes : ∃ subbands, sliceChannels heap 0 channels = .ok subbands ∧
    decodings T (fun i => (subbands.getD i ([], [])).1) (fun i => subbandLens.getD i 0) 10000
      r.data = .ok (tabled channels)

section Picture
variable {charIsSigned : Bool} {T : Tables} {heap : Nat → Nat → Gmm}
  {channels : List (List Int16 × List Int16)}

theorem PositiveAll.cases (h : PositiveAll heap channels) : ∃ y u v, channels = [y, u, v] ∧
    Positive (heap 0) y.2 ∧ Positive (heap 1) u.2 ∧ Positive (heap 2) v.2 := by
  cases h with
  | cons hy h =>
      cases h with
      | cons hu h =>
          cases h with
          | cons hv h =>
              cases h
              exact ⟨_, _, _, rfl, hy, hu, hv⟩

theorem fitAll_iff {y u v : List Int16 × List Int16} : FitAll [y, u, v] ↔
    Fits (channelLens 0) y ∧ Fits (channelLens 1) u ∧ Fits (channelLens 2) v := by
  simp only [FitAll, List.forall₂_cons, List.forall₂_nil_left_iff, and_true]

/-- What is coded has passed the assertions and lies within the channels. -/
theorem codeChannels_fits (hpositive : PositiveAll heap channels) {r : CodingResult}
    (hrun : codeChannels charIsSigned T heap channels = .ok r) : FitAll channels := by
  obtain ⟨y, u, v, rfl, hchannels⟩ := hpositive.cases
  have hlens : subbandLens.length = subCnt := rfl
  obtain ⟨subbands, hslice, hcode⟩ := bind_ok hrun
  obtain ⟨hy, hu, hv⟩ := sliceChannels_entropy hslice
  obtain ⟨gy, gu, gv, hslice', -⟩ := sliceChannels_eq hy hu hv hchannels
  obtain rfl := Except.ok.inj (hslice.symm.trans hslice')
  obtain ⟨c, -, hcode⟩ := bind_ok hcode
  obtain ⟨⟨header, s⟩, hsubbands, -⟩ := bind_ok hcode
  have hall := codeSubbands_fits (by
    intro b hb
    obtain ⟨i, rfl⟩ := (List.mem_ofFn' _ b).mp hb
    exact subbandLens_lt i) hsubbands
  obtain ⟨hfity, hfitu, hfitv⟩ := (sliced_fit_iff y u v gy gu gv).mp fun p hp => by
    obtain ⟨i, rfl⟩ := zip_mem_getD (sliced_length y u v gy gu gv) hlens ([], []) 0 hp
    exact hall _ ((List.mem_ofFn' _ _).mpr ⟨i, rfl⟩)
  exact fitAll_iff.mpr ⟨⟨hy, hfity⟩, ⟨hu, hfitu⟩, ⟨hv, hfitv⟩⟩

/-- What fits is coded, and decoded up to the lengths. -/
theorem codeChannels_decodes (charIsSigned : Bool) (usable : T.Usable)
    (hpositive : PositiveAll heap channels) (hfit : FitAll channels) :
    ∃ r, codeChannels charIsSigned T heap channels = .ok r ∧ Decodes T heap channels r := by
  obtain ⟨y, u, v, rfl, hchannels⟩ := hpositive.cases
  obtain ⟨hy, hu, hv⟩ := fitAll_iff.mp hfit
  have hlens : subbandLens.length = subCnt := rfl
  obtain ⟨gy, gu, gv, hslice, hgy, hgu, hgv, hstds⟩ :=
    sliceChannels_eq hy.entropy hu.entropy hv.entropy hchannels
  have hfit := (sliced_fit_iff y u v gy gu gv).mpr ⟨hy.trans, hu.trans, hv.trans⟩
  have setup := sliced_setup hgy hgu hgv hstds hfit
  have hcount := sliced_length y u v gy gu gv
  let data : Fin subCnt → List Int16 := fun i =>
    ((sliced y u v gy gu gv).getD i ([], [])).2.take (subbandLens.getD i 0).toNat
  have hdata : ∀ i, (data i).length = (subbandLens.getD i 0).toNat := by
    intro i
    rw [List.length_take]
    exact Nat.min_eq_left (hfit _ (getD_mem_zip hcount hlens _ _ i))
  obtain ⟨r, hrun, hlength, hdecode⟩ := codings_decodings setup charIsSigned usable hdata
  have hcut := ofFn_getD (fun (s : List Gmm × List Int16) (len : UInt64) => s.2.take len.toNat)
    hcount hlens ([], []) 0
  rw [codings_cut _ _ _ _ subbandLens_lt] at hrun
  rw [hcut, sliced_cut] at hdecode
  refine ⟨r, ?_, hlength, _, hslice, hdecode⟩
  rw [codeChannels, hslice, ok_bind]
  exact hrun

theorem coded_decodes (usable : T.Usable) (hpositive : PositiveAll heap channels)
    {r : CodingResult} (hrun : codeChannels charIsSigned T heap channels = .ok r) :
    Decodes T heap channels r := by
  obtain ⟨r', hrun', hdecodes⟩ :=
    codeChannels_decodes charIsSigned usable hpositive (codeChannels_fits hpositive hrun)
  obtain rfl := Except.ok.inj (hrun.symm.trans hrun')
  exact hdecodes

/-- A picture is coded if and only if every channel has its parameters and its coefficients; the
coefficients that the table of lengths names come back, those behind them do not. -/
theorem codeChannels_iff (charIsSigned : Bool) (usable : T.Usable)
    (hpositive : PositiveAll heap channels) :
    ((∃ r, codeChannels charIsSigned T heap channels = .ok r) ↔ FitAll channels) ∧
    ∀ r, codeChannels charIsSigned T heap channels = .ok r → Decodes T heap channels r := by
  refine ⟨⟨fun ⟨r, hrun⟩ => codeChannels_fits hpositive hrun, fun hfit => ?_⟩,
    fun r hrun => coded_decodes usable hpositive hrun⟩
  obtain ⟨r, hrun, -⟩ := codeChannels_decodes charIsSigned usable hpositive hfit
  exact ⟨r, hrun⟩

end Picture

/-- Exactly the coefficients of the table, all zero. -/
theorem codeChannels_iff_zero :
    let y := (List.replicate 8294400 (0 : Int16), List.replicate 74649600 (1 : Int16))
    let u := (List.replicate 2088960 (0 : Int16), List.replicate 18800640 (1 : Int16))
    let heap : Nat → Nat → Gmm := fun _ _ => ⟨1, 1, 1, 0, 0, 0, 1, 2, 3⟩
    ∃ r, codeChannels true (rampTables 12001 100001) heap [y, u, u] = .ok r ∧
      Decodes (rampTables 12001 100001) heap [y, u, u] r := by
  intro y u heap
  have hpositive : ∀ n, Positive (heap 0) (List.replicate n 1) := fun n =>
    positive_of (fun _ => by decide) fun x hx => by
      rw [List.eq_of_mem_replicate hx]
      decide
  have hchannels : PositiveAll heap [y, u, u] :=
    .cons (hpositive _) (.cons (hpositive _) (.cons (hpositive _) .nil))
  have h := codeChannels_iff true (T := rampTables 12001 100001)
    (rampTables_usable (Nat.le_refl _) (Nat.le_refl _) (Nat.le_refl _)) hchannels
  have hfits : FitAll [y, u, u] := by
    refine fitAll_iff.mpr ⟨⟨?_, ?_⟩, ⟨?_, ?_⟩, ⟨?_, ?_⟩⟩
    all_goals simp only [y, u, List.length_replicate]
    all_goals decide
  obtain ⟨r, hrun⟩ := h.1.mpr hfits
  exact ⟨r, hrun, h.2 r hrun⟩

end Soc
