import Mathlib.Data.Set.Function
import Mathlib.Order.Interval.Set.Defs

/-!
Memories, copies between two of them, and copies made piece by piece.

Pieces that lie one behind the other from the first to the last are tiles. Copied
in order, each to the same offset it has in the source, they are one copy of the
whole.
-/
namespace Copies
variable {β : Type}

abbrev Memory (β : Type) := Nat → β

/-- `n` cells from `src` on are written to the target from `dst` on. -/
def copy (source target : Memory β) (src dst n : Nat) : Memory β := fun a =>
  if dst ≤ a ∧ a < dst + n then source (src + (a - dst)) else target a

theorem copy_inside (source target : Memory β) {src dst n i : Nat} (h : i < n) :
    copy source target src dst n (dst + i) = source (src + i) := by
  rw [copy, if_pos ⟨Nat.le_add_right dst i, by omega⟩, Nat.add_sub_cancel_left]

theorem copy_outside (source target : Memory β) (src dst n : Nat) :
    Set.EqOn (copy source target src dst n) target (Set.Ico dst (dst + n))ᶜ :=
  fun _ ha => if_neg ha

@[simp] theorem copy_zero (source target : Memory β) (src dst : Nat) :
    copy source target src dst 0 = target := by
  funext a
  exact if_neg (by omega)

/-- A copy and one behind it, on both sides. -/
theorem copy_copy (source target : Memory β) (src dst n m : Nat) :
    copy source (copy source target src dst n) (src + n) (dst + n) m =
      copy source target src dst (n + m) := by
  funext a
  by_cases hfirst : dst ≤ a ∧ a < dst + n
  · have hnot : ¬ (dst + n ≤ a ∧ a < dst + n + m) := by omega
    have hboth : dst ≤ a ∧ a < dst + (n + m) := by omega
    rw [copy, if_neg hnot, copy, if_pos hfirst, copy, if_pos hboth]
  · by_cases hsecond : dst + n ≤ a ∧ a < dst + n + m
    · have hboth : dst ≤ a ∧ a < dst + (n + m) := by omega
      have hoffset : src + n + (a - (dst + n)) = src + (a - dst) := by omega
      rw [copy, if_pos hsecond, copy, if_pos hboth, hoffset]
    · have hneither : ¬ (dst ≤ a ∧ a < dst + (n + m)) := by omega
      rw [copy, if_neg hsecond, copy, if_neg hfirst, copy, if_neg hneither]

/-- Offsets and lengths, each piece starting where the one before it ends. -/
inductive Tiles : Nat → List (Nat × Nat) → Nat → Prop where
  | nil (a : Nat) : Tiles a [] a
  | cons {a n b : Nat} {tiles : List (Nat × Nat)} (rest : Tiles (a + n) tiles b) :
      Tiles a ((a, n) :: tiles) b

namespace Tiles
variable {a b c : Nat} {tiles tiles' : List (Nat × Nat)}

theorem append (h : Tiles a tiles b) (h' : Tiles b tiles' c) : Tiles a (tiles ++ tiles') c := by
  induction h with
  | nil => exact h'
  | cons _ ih => exact .cons (ih h')

theorem single (a n : Nat) : Tiles a [(a, n)] (a + n) := .cons (.nil _)

theorem range (size count : Nat) :
    Tiles 0 ((List.range count).map fun k => (k * size, size)) (count * size) := by
  induction count with
  | zero =>
      rw [Nat.zero_mul]
      exact .nil 0
  | succ count ih =>
      rw [List.range_succ, List.map_append, Nat.succ_mul]
      exact ih.append (single _ _)

theorem le (h : Tiles a tiles b) : a ≤ b := by
  induction h with
  | nil => exact Nat.le_refl _
  | cons _ ih => omega

theorem mem_le (h : Tiles a tiles b) : ∀ t ∈ tiles, a ≤ t.1 ∧ t.1 + t.2 ≤ b := by
  induction h with
  | nil => simp
  | cons rest ih =>
      have hrest := rest.le
      intro t ht
      rcases List.mem_cons.mp ht with rfl | ht
      · exact ⟨Nat.le_refl _, hrest⟩
      · have ⟨hlo, hhi⟩ := ih t ht
        exact ⟨by omega, hhi⟩

/-- Tiles copied one after the other are one copy. -/
theorem foldl_copy (source : Memory β) (src dst : Nat) (h : Tiles a tiles b) (target : Memory β) :
    tiles.foldl (fun m t => copy source m (src + t.1) (dst + t.1) t.2) target =
      copy source target (src + a) (dst + a) (b - a) := by
  induction h generalizing target with
  | nil a => simp
  | @cons a n b tiles rest ih =>
      have hle := rest.le
      have hsplit : b - a = n + (b - (a + n)) := by omega
      rw [List.foldl_cons, ih, ← Nat.add_assoc, ← Nat.add_assoc, copy_copy, hsplit]

end Tiles

end Copies
