import Soc.Foundation.Copies
import Mathlib.Data.List.Lemmas

/-!
What a memory holds from an address on, as a list of its cells.

Cells that are written are read back, by the same memory and by one they are copied to;
what lies apart from a write or from a copy is read as before.
-/
namespace Copies
variable {β : Type} {m m' : Memory β}

/-- The `n` cells from `a` on. -/
def read (m : Memory β) (a n : Nat) : List β := (List.range' a n).map m

/-- The memory with some cells written from `a` on. -/
def write (m : Memory β) (a : Nat) (cells : List β) : Memory β := fun b =>
  if a ≤ b then cells[b - a]?.getD (m b) else m b

@[simp] theorem read_length (m : Memory β) (a n : Nat) : (read m a n).length = n := by
  rw [read, List.length_map, List.length_range']

@[simp] theorem read_zero (m : Memory β) (a : Nat) : read m a 0 = [] := rfl

theorem read_getElem {a n i : Nat} (h : i < (read m a n).length) :
    (read m a n)[i] = m (a + i) := by
  simp only [read, List.getElem_map, List.getElem_range', Nat.one_mul]

theorem read_congr {a n : Nat} (h : Set.EqOn m m' (Set.Ico a (a + n))) :
    read m a n = read m' a n := by
  apply List.map_congr_left
  intro b hb
  have hmem := List.mem_range'_1.mp hb
  exact h hmem

theorem read_add (m : Memory β) (a n k : Nat) :
    read m a (n + k) = read m a n ++ read m (a + n) k := by
  rw [read, read, read, ← List.map_append, List.range'_append_1]

theorem read_take (m : Memory β) (a : Nat) {n k : Nat} (h : k ≤ n) :
    (read m a n).take k = read m a k := by
  obtain ⟨d, rfl⟩ := Nat.exists_eq_add_of_le h
  rw [read_add, List.take_left' (read_length m a k)]

/-- Cells read in a memory that has them apart from its changes. -/
theorem read_apart {a n b k : Nat} (h : Set.EqOn m m' (Set.Ico b (b + k))ᶜ)
    (hapart : Set.Ico a (a + n) ⊆ (Set.Ico b (b + k))ᶜ) :
    read m a n = read m' a n :=
  read_congr (h.mono hapart)

@[simp] theorem write_nil (m : Memory β) (a : Nat) : write m a [] = m := by
  funext b
  rw [write, List.getElem?_nil, Option.getD_none, ite_self]

theorem write_outside (m : Memory β) (a : Nat) (cells : List β) :
    Set.EqOn (write m a cells) m (Set.Ico a (a + cells.length))ᶜ := by
  intro b hb
  rw [write]
  split
  · next hle =>
    have hnot : ¬ b < a + cells.length := fun hlt => hb ⟨hle, hlt⟩
    rw [List.getElem?_eq_none (by omega), Option.getD_none]
  · rfl

theorem read_write (m : Memory β) (a : Nat) (cells : List β) :
    read (write m a cells) a cells.length = cells := by
  apply List.ext_getElem (read_length _ _ _)
  intro i hread hi
  rw [read_getElem, write, if_pos (Nat.le_add_right a i), Nat.add_sub_cancel_left,
    List.getElem?_eq_getElem hi, Option.getD_some]

/-- A write and one right behind it. -/
theorem write_write (m : Memory β) (a : Nat) (cells cells' : List β) :
    write (write m a cells) (a + cells.length) cells' = write m a (cells ++ cells') := by
  funext b
  by_cases hbehind : a + cells.length ≤ b
  · have hle : a ≤ b := by omega
    have hout : write m a cells b = m b := write_outside m a cells (fun h => by
      have hlt := h.2
      omega)
    rw [write, if_pos hbehind, hout, write, if_pos hle,
      List.getElem?_append_right (by omega), Nat.sub_add_eq]
  · rw [write, if_neg hbehind, write, write]
    split
    · rw [List.getElem?_append_left (by omega)]
    · rfl

/-- What is copied is read at the other end. -/
theorem read_copy (source target : Memory β) {src dst n k : Nat} (h : k ≤ n) :
    read (copy source target src dst n) dst k = read source src k := by
  apply List.ext_getElem
  · rw [read_length, read_length]
  · intro i hi _
    have hlt : i < n := by
      rw [read_length] at hi
      omega
    rw [read_getElem, read_getElem, copy_inside source target hlt]

end Copies
