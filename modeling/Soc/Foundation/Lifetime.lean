import Mathlib.Data.Finset.Basic

/-!
Blocks of memory that are allocated, used and freed.

A function is seen through the accesses it makes, in order. They are clean when
no block is allocated that is live, and none is used or freed that is not.
-/
namespace Lifetime
variable {α : Type} [DecidableEq α]

inductive Access (α : Type) where
  | alloc (a : α)
  | touch (a : α)
  | free (a : α)
  deriving DecidableEq

namespace Access

def apply (blocks : Finset α) : Access α → Finset α
  | alloc a => insert a blocks
  | touch _ => blocks
  | free a => blocks.erase a

def Allowed (blocks : Finset α) : Access α → Prop
  | alloc a => a ∉ blocks
  | touch a | free a => a ∈ blocks

def frees : Access α → Bool
  | free _ => true
  | _ => false

instance (blocks : Finset α) (e : Access α) : Decidable (e.Allowed blocks) :=
  match e with
  | alloc a => inferInstanceAs (Decidable (a ∉ blocks))
  | touch a | free a => inferInstanceAs (Decidable (a ∈ blocks))

end Access

/-- The blocks that are live after some accesses. -/
def live (blocks : Finset α) (es : List (Access α)) : Finset α := es.foldl Access.apply blocks

def Clean : Finset α → List (Access α) → Prop
  | _, [] => True
  | blocks, e :: es => e.Allowed blocks ∧ Clean (e.apply blocks) es

instance decidableClean (blocks : Finset α) : (es : List (Access α)) → Decidable (Clean blocks es)
  | [] => isTrue trivial
  | e :: es =>
    have := decidableClean (e.apply blocks) es
    inferInstanceAs (Decidable (_ ∧ _))

variable {blocks : Finset α}

@[simp] theorem live_nil : live blocks [] = blocks := rfl

@[simp] theorem live_cons (e : Access α) (es : List (Access α)) :
    live blocks (e :: es) = live (e.apply blocks) es := rfl

@[simp] theorem live_append (es es' : List (Access α)) :
    live blocks (es ++ es') = live (live blocks es) es' := List.foldl_append

@[simp] theorem clean_nil : Clean blocks [] := trivial

@[simp] theorem clean_cons {e : Access α} {es : List (Access α)} :
    Clean blocks (e :: es) ↔ e.Allowed blocks ∧ Clean (e.apply blocks) es := Iff.rfl

@[simp] theorem clean_append {es es' : List (Access α)} :
    Clean blocks (es ++ es') ↔ Clean blocks es ∧ Clean (live blocks es) es' := by
  induction es generalizing blocks with
  | nil => simp
  | cons e es ih => rw [List.cons_append, clean_cons, ih, clean_cons, live_cons, and_assoc]

/-- Using blocks that are live changes nothing. -/
theorem clean_touches {as : List α} (h : ∀ a ∈ as, a ∈ blocks) :
    Clean blocks (as.map Access.touch) ∧ live blocks (as.map Access.touch) = blocks := by
  induction as with
  | nil => exact ⟨trivial, rfl⟩
  | cons a as ih =>
      obtain ⟨hclean, hlive⟩ := ih fun b hb => h b (List.mem_cons_of_mem _ hb)
      exact ⟨⟨h a List.mem_cons_self, hclean⟩, hlive⟩

end Lifetime
