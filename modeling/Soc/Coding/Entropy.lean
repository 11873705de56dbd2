import Soc.Coding.Codings
import Soc.Foundation.Whiles

/-!
`entropy_to_gmm` of `transmission_protocol.c`: the mixture parameters of every coefficient from
the output of the network.

One loop variable indexes both arrays and moves by nine. The parameters of entry `j` are
therefore read from `j` on, not from `9 * j`, and only every ninth entry gets any.
-/
namespace Soc

namespace Gmm

/-- The order in which the network puts out the parameters. -/
def params (g : Gmm) : List Int16 :=
  [g.mean1, g.mean2, g.mean3, g.std1, g.std2, g.std3, g.prob1, g.prob2, g.prob3]

/-- The nine values from `entropy[i]` on. -/
def ReadFrom (g : Gmm) (entropy : List Int16) (i : Nat) : Prop :=
  g.params = (entropy.drop i).take 9

end Gmm

/-- The body of the loop. An entry of `gmm` is `none` where `malloc` has left it. -/
def entropyToGmmTurn (entropy : List Int16) (i : Nat) (gmm : List (Option Gmm)) :
    Except Fault (List (Option Gmm)) := do
  let mean1 ← index entropy ↑i
  let mean2 ← index entropy ↑(i + 1)
  let mean3 ← index entropy ↑(i + 2)
  let std1 ← index entropy ↑(i + 3)
  let std2 ← index entropy ↑(i + 4)
  let std3 ← index entropy ↑(i + 5)
  let prob1 ← index entropy ↑(i + 6)
  let prob2 ← index entropy ↑(i + 7)
  let prob3 ← index entropy ↑(i + 8)
  if gmm.length ≤ i then .error .outOfBounds
  else
    .ok (gmm.set i (some { mean1, mean2, mean3, std1, std2, std3, prob1, prob2, prob3 }))

/-- `for (size_t i = 0; i < len; i += 9)` -/
def entropyToGmm (entropy : List Int16) (gmm : List (Option Gmm)) (len : Nat) :
    Except Fault (List (Option Gmm)) := do
  let (_, gmm) ← Whiles.loop (· < len) (· + 9) (entropyToGmmTurn entropy) .unfinished len 0 gmm
  .ok gmm

theorem index_drop {α : Type} {xs : List α} {i k : Nat} {x : α} (h : (xs.drop i)[k]? = some x) :
    index xs ↑(i + k) = .ok x := by
  rw [List.getElem?_drop] at h
  rw [index, if_neg (Int.not_lt.mpr (Int.natCast_nonneg _)), Int.toNat_natCast, h]

theorem take_nine {α : Type} {xs : List α} (h : 9 ≤ xs.length) :
    ∃ a b c d e f g h i rest, xs = a :: b :: c :: d :: e :: f :: g :: h :: i :: rest := by
  match xs, h with
  | a :: b :: c :: d :: e :: f :: g :: h :: i :: rest, _ =>
      exact ⟨a, b, c, d, e, f, g, h, i, rest, rfl⟩

theorem entropyToGmmTurn_ok {entropy : List Int16} {i : Nat} {gmm : List (Option Gmm)}
    (hread : i + 9 ≤ entropy.length) (hi : i < gmm.length) :
    ∃ g : Gmm, g.ReadFrom entropy i ∧
      entropyToGmmTurn entropy i gmm = .ok (gmm.set i (some g)) := by
  have hdrop : 9 ≤ (entropy.drop i).length := by rw [List.length_drop]; omega
  obtain ⟨m1, m2, m3, s1, s2, s3, p1, p2, p3, rest, hvalues⟩ := take_nine hdrop
  refine ⟨⟨p1, p2, p3, m1, m2, m3, s1, s2, s3⟩, ?_, ?_⟩
  · rw [Gmm.ReadFrom, hvalues]
    rfl
  · have hindex : ∀ k x, (entropy.drop i)[k]? = some x → index entropy ↑(i + k) = .ok x :=
      fun _ _ => index_drop
    rw [hvalues] at hindex
    have hfirst : index entropy ↑i = .ok m1 := hindex 0 m1 rfl
    rw [entropyToGmmTurn, hfirst, hindex 1 m2 rfl, hindex 2 m3 rfl, hindex 3 s1 rfl,
      hindex 4 s2 rfl, hindex 5 s3 rfl, hindex 6 p1 rfl, hindex 7 p2 rfl, hindex 8 p3 rfl]
    simp only [ok_bind, if_neg (Nat.not_le.mpr hi)]

/-- The loop has come to `i`: the multiples of nine below are set. -/
structure Visited (entropy : List Int16) (n i : Nat) (gmm : List (Option Gmm)) : Prop where
  aligned : 9 ∣ i
  length : gmm.length = n
  here : ∀ j < n, j < i → 9 ∣ j → ∃ g : Gmm, gmm[j]? = some (some g) ∧ g.ReadFrom entropy j
  unset : ∀ j < n, (i ≤ j ∨ ¬9 ∣ j) → gmm[j]? = some none

theorem Visited.start (entropy : List Int16) (n : Nat) :
    Visited entropy n 0 (List.replicate n none) := by
  refine ⟨⟨0, rfl⟩, List.length_replicate, fun _ _ h => absurd h (Nat.not_lt_zero _), ?_⟩
  intro j hj _
  rw [List.getElem?_replicate, if_pos hj]

theorem Visited.turn {entropy : List Int16} {n i : Nat} {gmm : List (Option Gmm)}
    (v : Visited entropy n i gmm) (hi : i < n) {g : Gmm} (hg : g.ReadFrom entropy i) :
    Visited entropy n (i + 9) (gmm.set i (some g)) := by
  have haligned := v.aligned
  refine ⟨by omega, by rw [List.length_set, v.length], ?_, ?_⟩
  · intro j hj hji hdvd
    by_cases hij : i = j
    · rw [← hij]
      exact ⟨g, List.getElem?_set_self (v.length ▸ hi), hg⟩
    · rw [List.getElem?_set_ne hij]
      exact v.here j hj (by omega) hdvd
  · intro j hj hfree
    rw [List.getElem?_set_ne (by omega)]
    exact v.unset j hj (by omega)

/-- What a call does: the entries at the multiples of nine are set. -/
theorem entropyToGmm_spec {entropy : List Int16} {n : Nat} (hlen : entropy.length = 9 * n) :
    ∃ i gmm, entropyToGmm entropy (List.replicate n none) n = .ok gmm ∧ n ≤ i ∧
      Visited entropy n i gmm := by
  have hlast : ∀ i gmm, n ≤ i + 0 ∧ Visited entropy n i gmm → ¬i < n :=
    fun _ _ h => Nat.not_lt.mpr h.1
  have hturn : ∀ fuel i gmm, n ≤ i + (fuel + 1) ∧ Visited entropy n i gmm → i < n →
      ∃ gmm', entropyToGmmTurn entropy i gmm = .ok gmm' ∧
        n ≤ i + 9 + fuel ∧ Visited entropy n (i + 9) gmm' := by
    intro fuel i gmm ⟨hfuel, v⟩ hi
    have hread : i + 9 ≤ entropy.length := by omega
    obtain ⟨g, hg, hrun⟩ := entropyToGmmTurn_ok hread (v.length ▸ hi)
    exact ⟨_, hrun, by omega, v.turn hi hg⟩
  obtain ⟨_, i, gmm, hrun, hend, -, v⟩ :=
    Whiles.loop_invariant (fun fuel i gmm => n ≤ i + fuel ∧ Visited entropy n i gmm) hlast hturn
      ⟨Nat.le_add_left n 0, Visited.start entropy n⟩
  refine ⟨i, gmm, ?_, Nat.not_lt.mp hend, v⟩
  rw [entropyToGmm, hrun, ok_bind]

/-- Every entry holds the parameters of its own coefficient. -/
def Converts (entropy : List Int16) (n : Nat) : Prop :=
  ∃ gmm, entropyToGmm entropy (List.replicate n none) n = .ok gmm ∧ gmm.length = n ∧
    ∀ j < n, ∃ g : Gmm, gmm[j]? = some (some g) ∧ g.ReadFrom entropy (9 * j)

/-- Only a single coefficient is converted in full. -/
theorem entropyToGmm_converts_iff {entropy : List Int16} {n : Nat} (hn : 1 ≤ n)
    (hlen : entropy.length = 9 * n) : Converts entropy n ↔ n = 1 := by
  obtain ⟨i, gmm, hrun, hi, v⟩ := entropyToGmm_spec hlen
  constructor
  · intro ⟨gmm', hrun', _, hall⟩
    obtain rfl : gmm = gmm' := Except.ok.inj (hrun.symm.trans hrun')
    by_contra hne
    obtain ⟨g, hset, -⟩ := hall 1 (by omega)
    have hunset := v.unset 1 (by omega) (.inr (by omega))
    rw [hset] at hunset
    cases hunset
  · intro hone
    refine ⟨gmm, hrun, v.length, ?_⟩
    intro j hj
    obtain rfl : j = 0 := by omega
    exact v.here 0 hj (by omega) ⟨0, rfl⟩

theorem entropyToGmm_converts_one :
    Converts [7, -4, 0, 900, 1, 20, 5, -3, 2] 1 ↔ (1 : Nat) = 1 :=
  entropyToGmm_converts_iff (by decide) (by decide)

/-- The second of two coefficients gets nothing. -/
theorem entropyToGmm_skips :
    entropyToGmm [1, 2, 3, 4, 5, 6, 7, 8, 9, 10, 11, 12, 13, 14, 15, 16, 17, 18]
        (List.replicate 2 none) 2 = .ok [some ⟨7, 8, 9, 1, 2, 3, 4, 5, 6⟩, none] ∧
    ¬ Converts [1, 2, 3, 4, 5, 6, 7, 8, 9, 10, 11, 12, 13, 14, 15, 16, 17, 18] 2 := by
  have hrun : entropyToGmm [1, 2, 3, 4, 5, 6, 7, 8, 9, 10, 11, 12, 13, 14, 15, 16, 17, 18]
      (List.replicate 2 none) 2 = .ok [some ⟨7, 8, 9, 1, 2, 3, 4, 5, 6⟩, none] := by rfl
  refine ⟨hrun, ?_⟩
  intro ⟨gmm, hrun', _, hall⟩
  obtain rfl := Except.ok.inj (hrun.symm.trans hrun')
  obtain ⟨g, hset, -⟩ := hall 1 (by decide)
  cases hset

end Soc
