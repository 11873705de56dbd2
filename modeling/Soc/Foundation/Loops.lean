import Mathlib.Data.List.Basic

/-!
Loops that put something out at every turn.

A loop need not end. What it puts out in its first turns is a list, and what it
puts out at all is what some number of turns does. A loop that comes back to
where it started puts out one thing for ever.
-/
namespace Loops
variable {σ α : Type} {turn : σ → Option (α × σ)}

/-- What the first `n` turns put out. `turn` is `none` where the loop is left. -/
def outputs (turn : σ → Option (α × σ)) : Nat → σ → List α
  | 0, _ => []
  | n + 1, s => (turn s).elim [] fun p => p.1 :: outputs turn n p.2

/-- The loop is left after `n` turns. -/
def Ends (turn : σ → Option (α × σ)) : Nat → σ → Prop
  | 0, s => turn s = none
  | n + 1, s => ∃ p, turn s = some p ∧ Ends turn n p.2

def Puts (turn : σ → Option (α × σ)) (s : σ) (a : α) : Prop := ∃ n, a ∈ outputs turn n s

theorem outputs_succ {s : σ} {p : α × σ} (h : turn s = some p) (n : Nat) :
    outputs turn (n + 1) s = p.1 :: outputs turn n p.2 := by
  rw [outputs, h, Option.elim_some]

theorem outputs_none {s : σ} (h : turn s = none) (n : Nat) : outputs turn n s = [] := by
  cases n with
  | zero => rfl
  | succ n => rw [outputs, h, Option.elim_none]

theorem Ends.outputs_length {n : Nat} {s : σ} (h : Ends turn n s) :
    (outputs turn n s).length = n := by
  induction n generalizing s with
  | zero => rfl
  | succ n ih =>
      obtain ⟨p, hturn, hrest⟩ := h
      rw [outputs_succ hturn, List.length_cons, ih hrest]

/-- The first turn of a loop that is left, and the rest of it. -/
theorem Ends.cons {n : Nat} {s : σ} {p : α × σ} (h : Ends turn n s) (hturn : turn s = some p) :
    ∃ k, Ends turn k p.2 ∧ outputs turn n s = p.1 :: outputs turn k p.2 := by
  cases n with
  | zero =>
      rw [Ends, hturn] at h
      contradiction
  | succ k =>
      obtain ⟨q, hturn', hrest⟩ := h
      obtain rfl := Option.some.inj (hturn.symm.trans hturn')
      exact ⟨k, hrest, outputs_succ hturn k⟩

/-- Turns after the last put out nothing. -/
theorem Ends.mem_outputs {n : Nat} {s : σ} (h : Ends turn n s) {m : Nat} {a : α}
    (ha : a ∈ outputs turn m s) : a ∈ outputs turn n s := by
  induction n generalizing s m with
  | zero => rwa [outputs_none h] at ha
  | succ n ih =>
      obtain ⟨p, hturn, hrest⟩ := h
      cases m with
      | zero => simp [outputs] at ha
      | succ m =>
          rw [outputs_succ hturn] at ha ⊢
          rcases List.mem_cons.mp ha with rfl | ha
          · exact List.mem_cons_self
          · exact List.mem_cons_of_mem _ (ih hrest ha)

theorem Ends.puts_iff {n : Nat} {s : σ} (h : Ends turn n s) {a : α} :
    Puts turn s a ↔ a ∈ outputs turn n s := by
  constructor
  · rintro ⟨m, ha⟩
    exact h.mem_outputs ha
  · intro ha
    exact ⟨n, ha⟩

/-- A turn that leads back to its own start is the only one there is. -/
theorem puts_fixed {s : σ} {a : α} (h : turn s = some (a, s)) {b : α} :
    Puts turn s b ↔ b = a := by
  constructor
  · rintro ⟨n, hb⟩
    induction n with
    | zero => simp [outputs] at hb
    | succ n ih =>
        rw [outputs_succ h] at hb
        exact (List.mem_cons.mp hb).elim id ih
  · rintro rfl
    refine ⟨1, ?_⟩
    rw [outputs_succ h]
    exact List.mem_cons_self

/-- The loop takes a turn from `t`. -/
inductive Visits (turn : σ → Option (α × σ)) : σ → σ → Prop where
  | here {s : σ} {p : α × σ} (h : turn s = some p) : Visits turn s s
  | later {s t : σ} {p : α × σ} (h : turn s = some p) (rest : Visits turn p.2 t) :
      Visits turn s t

def EveryTurn (turn : σ → Option (α × σ)) (P : σ → Prop) (s : σ) : Prop :=
  ∀ t, Visits turn s t → P t

theorem everyTurn_none {s : σ} {P : σ → Prop} (h : turn s = none) : EveryTurn turn P s := by
  intro t ht
  cases ht with
  | here hturn | later hturn _ => rw [h] at hturn; contradiction

theorem everyTurn_some {s : σ} {p : α × σ} {P : σ → Prop} (h : turn s = some p) :
    EveryTurn turn P s ↔ P s ∧ EveryTurn turn P p.2 := by
  constructor
  · intro hevery
    exact ⟨hevery s (.here h), fun t ht => hevery t (.later h ht)⟩
  · intro ⟨hs, hrest⟩ t ht
    cases ht with
    | here _ => exact hs
    | later hturn ht =>
        obtain rfl := Option.some.inj (h.symm.trans hturn)
        exact hrest t ht

/-- A loop that comes back to where it started does not end. -/
theorem not_ends_fixed {s : σ} {a : α} (h : turn s = some (a, s)) (n : Nat) :
    ¬ Ends turn n s := by
  induction n with
  | zero =>
      intro hdone
      rw [Ends, h] at hdone
      contradiction
  | succ n ih =>
      intro ⟨p, hturn, hrest⟩
      obtain rfl := Option.some.inj (h.symm.trans hturn)
      exact ih hrest

theorem Ends.unique {n m : Nat} {s : σ} (h : Ends turn n s) (h' : Ends turn m s) : n = m := by
  induction n generalizing s m with
  | zero =>
      cases m with
      | zero => rfl
      | succ m =>
          obtain ⟨p, hturn, _⟩ := h'
          rw [h] at hturn
          contradiction
  | succ n ih =>
      obtain ⟨p, hturn, hrest⟩ := h
      cases m with
      | zero =>
          rw [h'] at hturn
          contradiction
      | succ m =>
          obtain ⟨q, hturn', hrest'⟩ := h'
          obtain rfl := Option.some.inj (hturn.symm.trans hturn')
          rw [ih hrest hrest']

variable {β : Type}

/-- The loop with a count of its turns, which adds something to what each of them puts out. -/
def numbered (turn : σ → Option (α × σ)) (g : Nat → α → β) (s : σ × Nat) :
    Option (β × σ × Nat) :=
  (turn s.1).map fun p => (g s.2 p.1, p.2, s.2 + 1)

theorem numbered_none {s : σ} {g : Nat → α → β} {c : Nat} :
    numbered turn g (s, c) = none ↔ turn s = none := Option.map_eq_none_iff

theorem numbered_some {s : σ} {p : α × σ} {g : Nat → α → β} {c : Nat} (h : turn s = some p) :
    numbered turn g (s, c) = some (g c p.1, p.2, c + 1) := by
  rw [numbered, h, Option.map_some]

theorem ends_numbered {g : Nat → α → β} {n : Nat} {s : σ} {c : Nat} :
    Ends (numbered turn g) n (s, c) ↔ Ends turn n s := by
  induction n generalizing s c with
  | zero => exact numbered_none
  | succ n ih =>
      cases hturn : turn s with
      | none => simp [Ends, numbered_none.mpr hturn, hturn]
      | some p => simp [Ends, numbered_some hturn, hturn, ih]

theorem outputs_numbered {g : Nat → α → β} {n : Nat} {s : σ} {c : Nat} :
    outputs (numbered turn g) n (s, c) = (outputs turn n s).mapIdx fun i a => g (c + i) a := by
  induction n generalizing s c with
  | zero => rfl
  | succ n ih =>
      cases hturn : turn s with
      | none => rw [outputs_none hturn, outputs_none (numbered_none.mpr hturn), List.mapIdx_nil]
      | some p =>
          rw [outputs_succ hturn, outputs_succ (numbered_some hturn), ih, List.mapIdx_cons]
          simp only [Nat.add_zero, Nat.add_assoc, Nat.add_comm 1]

end Loops
