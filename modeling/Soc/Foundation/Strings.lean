import Mathlib.Algebra.Group.Nat.Defs
import Mathlib.Data.List.Basic

/-!
Blocks of memory and the strings in them.

A block is allocated with no contents. Reading what nothing was written to is an
error, as is any access outside the block or through a null pointer. A string is
what a block holds up to its first zero byte.
-/
namespace Strings

inductive Misuse where
  | null
  | outside
  | unwritten
  deriving DecidableEq

/-- The bytes of a block, `none` where nothing was written. -/
abbrev Cells := List (Option UInt8)

/-- A block of the size if there can be an object as large; else the null pointer. -/
def malloc (size : UInt64) : Option Cells :=
  if size.toNat < 2 ^ 63 then some (List.replicate size.toNat none) else none

/-- The byte at an offset. -/
def fetch (block : Cells) (offset : Nat) : Except Misuse UInt8 :=
  match block[offset]? with
  | none => .error .outside
  | some none => .error .unwritten
  | some (some b) => .ok b

/-- The first bytes. -/
def fetchAll : Cells → Nat → Except Misuse (List UInt8)
  | _, 0 => .ok []
  | [], _ + 1 => .error .outside
  | none :: _, _ + 1 => .error .unwritten
  | some b :: block, n + 1 => (b :: ·) <$> fetchAll block n

/-- Bytes put into a block from an offset on. -/
def put (block : Cells) (offset : Nat) (bytes : List UInt8) : Except Misuse Cells :=
  if offset + bytes.length ≤ block.length then
    .ok (block.take offset ++ bytes.map some ++ block.drop (offset + bytes.length))
  else .error .outside

/-- The string at the start of a block. -/
def text : Cells → Except Misuse (List UInt8)
  | [] => .error .outside
  | none :: _ => .error .unwritten
  | some b :: block => if b = 0 then .ok [] else (b :: ·) <$> text block

theorem text_written {bytes : List UInt8} (h : 0 ∉ bytes) (block : Cells) :
    text (bytes.map some ++ some 0 :: block) = .ok bytes := by
  induction bytes with
  | nil => rfl
  | cons b bytes ih =>
      have hb : b ≠ 0 := fun heq => h (heq ▸ List.mem_cons_self)
      rw [List.map_cons, List.cons_append, text, if_neg hb, ih (List.not_mem_of_not_mem_cons h)]
      rfl

/-- What was written is there, whatever lies behind it. -/
theorem fetch_written {bytes : List UInt8} {offset : Nat} (h : offset < bytes.length)
    (block : Cells) : fetch (bytes.map some ++ block) offset = .ok bytes[offset] := by
  have hlt : offset < (bytes.map some).length := by rwa [List.length_map]
  rw [fetch, List.getElem?_append_left hlt, List.getElem?_map, List.getElem?_eq_getElem h]
  rfl

@[simp] theorem fetchAll_zero (block : Cells) : fetchAll block 0 = .ok [] := by
  cases block <;> rfl

theorem fetchAll_written {bytes : List UInt8} {n : Nat} (h : n ≤ bytes.length) (block : Cells) :
    fetchAll (bytes.map some ++ block) n = .ok (bytes.take n) := by
  induction bytes generalizing n with
  | nil =>
      obtain rfl := Nat.le_zero.mp h
      exact fetchAll_zero _
  | cons b bytes ih =>
      cases n with
      | zero => exact fetchAll_zero _
      | succ n =>
          rw [List.map_cons, List.cons_append, fetchAll, ih (Nat.le_of_succ_le_succ h)]
          rfl

theorem put_behind {bytes bytes' : List UInt8} {block : Cells}
    (h : bytes'.length ≤ block.length) :
    put (bytes.map some ++ block) bytes.length bytes' =
      .ok ((bytes ++ bytes').map some ++ block.drop bytes'.length) := by
  have hlength : (bytes.map some).length = bytes.length := List.length_map _
  have hfits : bytes.length + bytes'.length ≤ (bytes.map some ++ block).length := by
    rw [List.length_append, hlength]
    omega
  rw [put, if_pos hfits, List.take_left' hlength, List.map_append, ← List.drop_drop,
    List.drop_left' hlength]

end Strings
