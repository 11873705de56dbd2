import Mathlib.Data.Vector.Basic
import Mathlib.Data.List.Basic

/-!
Lists cut into windows of one size, and stores into arrays of one size.

Cutting undoes concatenation: blocks of the window size come back as they were,
whatever follows them, and the windows of any list that fits concatenate to it.
-/
namespace Windows
variable {α : Type}

/-- The first `n` windows of a list. -/
def windows (size : Nat) : Nat → List α → List (List α)
  | 0, _ => []
  | n + 1, xs => xs.take size :: windows size n (xs.drop size)

@[simp] theorem windows_length (size n : Nat) (xs : List α) : (windows size n xs).length = n := by
  induction n generalizing xs with
  | zero => rfl
  | succ n ih => simp only [windows, List.length_cons, ih]

theorem windows_getElem? (size n : Nat) (xs : List α) (i : Nat) (h : i < n) :
    (windows size n xs)[i]? = some ((xs.drop (i * size)).take size) := by
  induction n generalizing xs i with
  | zero => omega
  | succ n ih =>
      cases i with
      | zero => simp [windows]
      | succ i =>
          have hmul : (i + 1) * size = size + i * size := by rw [Nat.succ_mul, Nat.add_comm]
          rw [windows, List.getElem?_cons_succ, ih _ _ (by omega), List.drop_drop, hmul]

theorem flatten_windows {size n : Nat} {xs : List α} (h : xs.length ≤ n * size) :
    (windows size n xs).flatten = xs := by
  induction n generalizing xs with
  | zero =>
      rw [Nat.zero_mul, Nat.le_zero, List.length_eq_zero_iff] at h
      simp [windows, h]
  | succ n ih =>
      rw [Nat.succ_mul] at h
      rw [windows, List.flatten_cons, ih (by rw [List.length_drop]; omega),
        List.take_append_drop]

theorem windows_append {size : Nat} {blocks : List (List α)} (h : ∀ b ∈ blocks, b.length = size)
    (n : Nat) (rest : List α) :
    windows size (blocks.length + n) (blocks.flatten ++ rest) = blocks ++ windows size n rest := by
  induction blocks with
  | nil => simp
  | cons b blocks ih =>
      have hb := h b List.mem_cons_self
      have hlen : (b :: blocks).length + n = (blocks.length + n) + 1 := by
        rw [List.length_cons]
        omega
      rw [hlen, windows, List.flatten_cons, List.append_assoc, List.take_left' hb,
        List.drop_left' hb, ih (fun x hx => h x (List.mem_cons_of_mem _ hx)), List.cons_append]

theorem windows_replicate (size n : Nat) (a : α) :
    windows size n (List.replicate (n * size) a) = List.replicate n (List.replicate size a) := by
  induction n with
  | zero => rfl
  | succ n ih =>
      rw [windows, Nat.succ_mul, List.take_replicate, List.drop_replicate,
        Nat.min_eq_left (by omega), Nat.add_sub_cancel, ih, List.replicate_succ]

theorem length_of_mem_windows {size n : Nat} {xs : List α} (h : n * size ≤ xs.length) :
    ∀ w ∈ windows size n xs, w.length = size := by
  induction n generalizing xs with
  | zero => simp [windows]
  | succ n ih =>
      rw [Nat.succ_mul] at h
      intro w hw
      rcases List.mem_cons.mp hw with rfl | hw
      · rw [List.length_take]
        omega
      · exact ih (by rw [List.length_drop]; omega) w hw

theorem countP_zip_eq_zero {β : Type} {q : α × β → Bool} {xs : List α} {ys : List β} :
    (xs.zip ys).countP q = 0 ↔ ∀ (i : Nat) (x : α) (y : β), xs[i]? = some x → ys[i]? = some y →
      q (x, y) = false := by
  rw [List.countP_eq_zero]
  constructor
  · intro h i x y hx hy
    have hmem : (x, y) ∈ xs.zip ys := List.mem_of_getElem? (List.getElem?_zip_eq_some.mpr ⟨hx, hy⟩)
    exact Bool.eq_false_iff.mpr (h _ hmem)
  · intro h p hp
    obtain ⟨i, hi⟩ := List.mem_iff_getElem?.mp hp
    obtain ⟨hx, hy⟩ := List.getElem?_zip_eq_some.mp hi
    exact Bool.eq_false_iff.mp (h i p.1 p.2 hx hy)

theorem countP_eraseIdx {q : α → Bool} {xs : List α} {i : Nat} {x : α} (h : xs[i]? = some x) :
    xs.countP q = (xs.eraseIdx i).countP q + if q x then 1 else 0 := by
  induction xs generalizing i with
  | nil => simp at h
  | cons y ys ih =>
      cases i with
      | zero =>
          obtain rfl : y = x := by simpa using h
          rw [List.eraseIdx_cons_zero, List.countP_cons]
      | succ i =>
          rw [List.eraseIdx_cons_succ, List.countP_cons, List.countP_cons,
            ih (by simpa using h)]
          omega

theorem map_mapIdx {β γ : Type} (f : Nat → α → β) (g : β → γ) (xs : List α) :
    (xs.mapIdx f).map g = xs.mapIdx fun i a => g (f i a) := by
  apply List.ext_getElem?
  intro i
  simp only [List.getElem?_map, List.getElem?_mapIdx, Option.map_map]
  rfl

theorem mapIdx_map_of_const {β γ : Type} {f : Nat → α → β} {g : β → γ} {h : α → γ}
    (hconst : ∀ i a, g (f i a) = h a) (xs : List α) : (xs.mapIdx f).map g = xs.map h := by
  rw [map_mapIdx]
  apply List.ext_getElem?
  intro i
  simp only [List.getElem?_map, List.getElem?_mapIdx, hconst]

/-! Stores into an array. -/

/-- `bs` stored from `offset` on; what would pass the end is cut off. -/
def overwrite {n : Nat} (old : List.Vector α n) (offset : Nat) (bs : List α) : List.Vector α n :=
  ⟨old.toList.take offset ++ bs.take (n - offset) ++ old.toList.drop (offset + bs.length), by
    simp only [List.length_append, List.length_take, List.length_drop, List.Vector.toList_length]
    omega⟩

theorem overwrite_toList {n : Nat} (old : List.Vector α n) {offset : Nat} {bs : List α}
    (h : offset + bs.length ≤ n) : (overwrite old offset bs).toList =
      old.toList.take offset ++ bs ++ old.toList.drop (offset + bs.length) := by
  have htake : bs.take (n - offset) = bs := List.take_of_length_le (by omega)
  change old.toList.take offset ++ bs.take (n - offset) ++ _ = _
  rw [htake]

/-- A store at the start and one behind it. -/
theorem overwrite_overwrite {n : Nat} (old : List.Vector α n) {as bs : List α}
    (h : as.length + bs.length = n) :
    (overwrite (overwrite old 0 as) as.length bs).toList = as ++ bs := by
  rw [overwrite_toList _ (by omega), overwrite_toList _ (by omega)]
  simp only [List.take_zero, List.nil_append, Nat.zero_add, List.take_left, h]
  rw [List.drop_of_length_le, List.append_nil]
  simp only [List.length_append, List.length_drop, List.Vector.toList_length]
  omega

end Windows
