import Soc.Foundation.Guarded

/-!
Loops whose test does not look at what their body works on.

In `while (p(k)) { s = body(k, s); k = next(k); }` the control runs by itself: two loops with
one control take the same turns, whatever their bodies do.
-/
namespace Whiles
variable {ε κ σ τ : Type} {p : κ → Prop} [DecidablePred p] {next : κ → κ} {stuck : ε}
  {body : κ → σ → Except ε σ} {body' : κ → τ → Except ε τ} {fuel : Nat} {k k' : κ}

/-- The control and the state where the loop is left, or `stuck` after `fuel` turns. -/
def loop (p : κ → Prop) [DecidablePred p] (next : κ → κ) (body : κ → σ → Except ε σ)
    (stuck : ε) : Nat → κ → σ → Except ε (κ × σ)
  | 0, k, s => if p k then .error stuck else .ok (k, s)
  | fuel + 1, k, s =>
    if p k then do loop p next body stuck fuel (next k) (← body k s) else .ok (k, s)

theorem loop_left {s : σ} (h : ¬p k) : loop p next body stuck fuel k s = .ok (k, s) := by
  cases fuel <;> exact if_neg h

theorem loop_turn {s s' : σ} (h : p k) (hbody : body k s = .ok s') :
    loop p next body stuck (fuel + 1) k s = loop p next body stuck fuel (next k) s' := by
  rw [loop, if_pos h, hbody]
  rfl

/-- Two loops with one control stay related when a turn keeps them related. The invariant
counts the turns that are left. -/
theorem loop_rule (inv : Nat → κ → σ → τ → Prop) (hlast : ∀ k s t, inv 0 k s t → ¬p k)
    (hturn : ∀ n k s t, inv (n + 1) k s t → p k → ∃ s' t',
      body k s = .ok s' ∧ body' k t = .ok t' ∧ inv n (next k) s' t')
    {s : σ} {t : τ} (h : inv fuel k s t) :
    ∃ n k' s' t', loop p next body stuck fuel k s = .ok (k', s') ∧
      loop p next body' stuck fuel k t = .ok (k', t') ∧ ¬p k' ∧ inv n k' s' t' := by
  induction fuel generalizing k s t with
  | zero =>
      have hend := hlast k s t h
      exact ⟨0, k, s, t, loop_left hend, loop_left hend, hend, h⟩
  | succ fuel ih =>
      by_cases hk : p k
      · obtain ⟨s', t', hs, ht, h'⟩ := hturn fuel k s t h hk
        rw [loop_turn hk hs, loop_turn hk ht]
        exact ih h'
      · exact ⟨fuel + 1, k, s, t, loop_left hk, loop_left hk, hk, h⟩

/-- A loop whose turns succeed and keep an invariant ends with it. -/
theorem loop_invariant (inv : Nat → κ → σ → Prop) (hlast : ∀ k s, inv 0 k s → ¬p k)
    (hturn : ∀ n k s, inv (n + 1) k s → p k → ∃ s', body k s = .ok s' ∧ inv n (next k) s')
    {s : σ} (h : inv fuel k s) :
    ∃ n k' s', loop p next body stuck fuel k s = .ok (k', s') ∧ ¬p k' ∧ inv n k' s' := by
  have hboth : ∀ n k s (t : Unit), inv (n + 1) k s → p k → ∃ s' t',
      body k s = .ok s' ∧ (.ok t : Except ε Unit) = .ok t' ∧ inv n (next k) s' := by
    intro n k s t h hk
    obtain ⟨s', hs, h'⟩ := hturn n k s h hk
    exact ⟨s', t, hs, rfl, h'⟩
  obtain ⟨n, k', s', _, hrun, -, hend, h'⟩ :=
    loop_rule (t := ()) (fun n k s _ => inv n k s) (fun k s _ => hlast k s) hboth h
  exact ⟨n, k', s', hrun, hend, h'⟩

/-- A loop whose condition cannot hold for too long is not stuck, whatever its body does. -/
theorem loop_finishes (inv : Nat → κ → Prop) (hlast : ∀ k, inv 0 k → ¬p k)
    (hturn : ∀ n k, inv (n + 1) k → p k → inv n (next k)) (hbody : ∀ k s, body k s ≠ .error stuck)
    (s : σ) (h : inv fuel k) : loop p next body stuck fuel k s ≠ .error stuck := by
  induction fuel generalizing k s with
  | zero =>
      rw [loop_left (hlast k h)]
      exact nofun
  | succ fuel ih =>
      by_cases hk : p k
      · rw [loop, if_pos hk]
        cases hrun : body k s with
        | error e =>
            intro heq
            cases heq
            exact hbody k s hrun
        | ok s' => exact ih s' (hturn fuel k h hk)
      · rw [loop_left hk]
        exact nofun

/-- A body that cannot fail ends where another one does. -/
theorem loop_control (hbody : ∀ k t, ∃ t', body' k t = .ok t') {s s' : σ}
    (h : loop p next body stuck fuel k s = .ok (k', s')) (t : τ) :
    ∃ t', loop p next body' stuck fuel k t = .ok (k', t') := by
  induction fuel generalizing k s t with
  | zero =>
      by_cases hk : p k
      · rw [loop, if_pos hk] at h
        contradiction
      · rw [loop_left hk] at h
        cases h
        exact ⟨t, loop_left hk⟩
  | succ fuel ih =>
      by_cases hk : p k
      · obtain ⟨t', ht⟩ := hbody k t
        rw [loop_turn hk ht]
        cases hs : body k s with
        | error e =>
            rw [loop, if_pos hk, hs] at h
            contradiction
        | ok s₁ =>
            rw [loop_turn hk hs] at h
            exact ih h t'
      · rw [loop_left hk] at h
        cases h
        exact ⟨t, loop_left hk⟩

open Guarded

/-- Tests in the body are tests in the loop. -/
theorem loop_guards {tested : κ → σ → Except ε σ} {size : σ → Nat} {room : Nat}
    (hbody : ∀ k s, Guards (size s) size room (body k s) (tested k s)) (s : σ) :
    Guards (size s) (fun r => size r.2) room (loop p next body stuck fuel k s)
      (loop p next tested stuck fuel k s) := by
  induction fuel generalizing k s with
  | zero => exact .ite (fun _ => .error) fun _ => .ok (Nat.le_refl _)
  | succ fuel ih =>
      exact .ite (fun _ => (hbody k s).bind fun s' _ => ih s') fun _ => .ok (Nat.le_refl _)

end Whiles
