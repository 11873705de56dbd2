import Mathlib.Data.Nat.Basic
import Mathlib.Data.Vector.Basic
import Mathlib.Logic.Equiv.Defs
import Mathlib.Tactic.Ring

/-!
Values in the memory of a little-endian machine.

A packed layout is a bijection between the values of a type and the byte strings
of one length; layouts are closed under concatenation, so the image of a packed
structure needs no proof of its own. Reversing the bytes of an integer is the
change of byte order.
-/
namespace Layout

/-- The low `n` bytes of a number, least significant first. -/
def leBytes : Nat → Nat → List UInt8
  | 0, _ => []
  | n + 1, v => UInt8.ofNat v :: leBytes n (v / 256)

def leValue : List UInt8 → Nat
  | [] => 0
  | b :: bs => b.toNat + 256 * leValue bs

@[simp] theorem leBytes_length (n v : Nat) : (leBytes n v).length = n := by
  induction n generalizing v with
  | zero => rfl
  | succ n ih => simp only [leBytes, List.length_cons, ih]

theorem leValue_lt (bs : List UInt8) : leValue bs < 256 ^ bs.length := by
  induction bs with
  | nil => simp [leValue]
  | cons b bs ih =>
      have hb := b.toNat_lt
      simp only [leValue, List.length_cons, Nat.pow_succ]
      omega

theorem leValue_leBytes {n v : Nat} (h : v < 256 ^ n) : leValue (leBytes n v) = v := by
  induction n generalizing v with
  | zero =>
      simp only [Nat.pow_zero, Nat.lt_one_iff] at h
      simp [leBytes, leValue, h]
  | succ n ih =>
      rw [Nat.pow_succ] at h
      rw [leBytes, leValue, ih (Nat.div_lt_of_lt_mul (by omega)), UInt8.toNat_ofNat']
      omega

theorem leBytes_leValue (bs : List UInt8) : leBytes bs.length (leValue bs) = bs := by
  induction bs with
  | nil => rfl
  | cons b bs ih =>
      have hb := b.toNat_lt
      have hdiv : (b.toNat + 256 * leValue bs) / 256 = leValue bs := by omega
      have hmod : UInt8.ofNat (b.toNat + 256 * leValue bs) = b := by
        apply UInt8.toNat_inj.mp
        rw [UInt8.toNat_ofNat']
        omega
      simp only [leBytes, leValue, List.length_cons, hdiv, hmod, ih]

theorem leBytes_leValue_of_length {n : Nat} {bs : List UInt8} (h : bs.length = n) :
    leBytes n (leValue bs) = bs := h ▸ leBytes_leValue bs

theorem leBytes_succ_last (n v : Nat) :
    leBytes (n + 1) v = leBytes n v ++ [UInt8.ofNat (v / 256 ^ n)] := by
  induction n generalizing v with
  | zero => simp [leBytes]
  | succ n ih =>
      rw [leBytes, ih, leBytes, Nat.div_div_eq_div_mul, ← Nat.pow_succ']
      rfl

/-! Byte order. -/

/-- The low `n` bytes of a number, most significant first. -/
def beBytes (n v : Nat) : List UInt8 := (leBytes n v).reverse

@[simp] theorem beBytes_length (n v : Nat) : (beBytes n v).length = n := by simp [beBytes]

/-- The number with the bytes of its `n`-byte image reversed. -/
def swapBytes (n v : Nat) : Nat := leValue (leBytes n v).reverse

theorem swapBytes_lt (n v : Nat) : swapBytes n v < 256 ^ n := by
  simpa [swapBytes] using leValue_lt (leBytes n v).reverse

theorem leBytes_swapBytes (n v : Nat) : leBytes n (swapBytes n v) = beBytes n v :=
  leBytes_leValue_of_length (by simp)

theorem swapBytes_swapBytes {n v : Nat} (h : v < 256 ^ n) : swapBytes n (swapBytes n v) = v := by
  rw [swapBytes, leBytes_swapBytes, beBytes, List.reverse_reverse, leValue_leBytes h]

/-- A value that leaves the top byte free is swapped in the wider integer and
shifted back. -/
theorem swapBytes_succ_shift {n v : Nat} (h : v < 256 ^ n) :
    swapBytes (n + 1) v >>> 8 = swapBytes n v := by
  have hzero : UInt8.ofNat (v / 256 ^ n) = 0 := by simp [Nat.div_eq_of_lt h]
  rw [swapBytes, leBytes_succ_last, List.reverse_append, hzero, Nat.shiftRight_eq_div_pow]
  simp only [List.reverse_cons, List.reverse_nil, List.nil_append, List.cons_append, leValue,
    swapBytes]
  simp

end Layout

/-- A bijection between a type and the byte strings of one length. -/
structure Layout (α : Type) (n : Nat) where
  store : α → List UInt8
  load : List UInt8 → α
  store_length : ∀ a, (store a).length = n
  load_store : ∀ a, load (store a) = a
  store_load : ∀ bs, bs.length = n → store (load bs) = bs

namespace Layout
variable {α β : Type} {m n : Nat}

attribute [simp] store_length load_store

def word (n : Nat) : Layout (BitVec (8 * n)) n where
  store v := leBytes n v.toNat
  load bs := BitVec.ofNat _ (leValue bs)
  store_length v := leBytes_length n v.toNat
  load_store v := by
    have h : v.toNat < 256 ^ n := by
      have := v.isLt
      rwa [Nat.pow_mul] at this
    rw [leValue_leBytes h, BitVec.ofNat_toNat, BitVec.setWidth_eq]
  store_load bs h := by
    have hlt : leValue bs < 2 ^ (8 * n) := by
      rw [Nat.pow_mul, ← h]
      exact leValue_lt bs
    rw [BitVec.toNat_ofNat, Nat.mod_eq_of_lt hlt, leBytes_leValue_of_length h]

/-- A layout seen through a bijection of the value type. -/
def map (l : Layout α n) (e : α ≃ β) : Layout β n where
  store b := l.store (e.symm b)
  load bs := e (l.load bs)
  store_length b := l.store_length _
  load_store b := by simp
  store_load bs h := by simp [l.store_load bs h]

/-- One value after the other. -/
def pair (l : Layout α m) (r : Layout β n) : Layout (α × β) (m + n) where
  store p := l.store p.1 ++ r.store p.2
  load bs := (l.load (bs.take m), r.load (bs.drop m))
  store_length p := by simp
  load_store p := by
    have hm := l.store_length p.1
    simp [List.take_left' hm, List.drop_left' hm]
  store_load bs h := by
    rw [l.store_load _ (by simp [h]), r.store_load _ (by simp [h]), List.take_append_drop]

def bytes (n : Nat) : Layout (List.Vector UInt8 n) n where
  store v := v.toList
  load bs := ⟨(bs ++ List.replicate n 0).take n, by simp⟩
  store_length v := v.toList_length
  load_store v := by
    apply Subtype.ext
    simp [List.take_left' v.toList_length]
    rfl
  store_load bs h := by simp [List.Vector.toList, List.take_left' h]

def uint8 : Layout UInt8 1 :=
  (word 1).map ⟨UInt8.ofBitVec, UInt8.toBitVec, fun _ => rfl, fun _ => rfl⟩
def uint16 : Layout UInt16 2 :=
  (word 2).map ⟨UInt16.ofBitVec, UInt16.toBitVec, fun _ => rfl, fun _ => rfl⟩
def uint24 : Layout (BitVec 24) 3 := word 3
def uint32 : Layout UInt32 4 :=
  (word 4).map ⟨UInt32.ofBitVec, UInt32.toBitVec, fun _ => rfl, fun _ => rfl⟩

@[simp] theorem uint8_store (x : UInt8) : uint8.store x = [x] := by
  simp [uint8, map, word, leBytes]

@[simp] theorem uint16_store (x : UInt16) : uint16.store x = leBytes 2 x.toNat := rfl
@[simp] theorem uint24_store (x : BitVec 24) : uint24.store x = leBytes 3 x.toNat := rfl
@[simp] theorem uint32_store (x : UInt32) : uint32.store x = leBytes 4 x.toNat := rfl
@[simp] theorem bytes_store (v : List.Vector UInt8 n) : (bytes n).store v = v.toList := rfl

theorem bytes_load_toList {bs : List UInt8} (h : bs.length ≤ n) :
    ((bytes n).load bs).toList = bs ++ List.replicate (n - bs.length) 0 := by
  change (bs ++ List.replicate n 0).take n = _
  rw [List.take_append, List.take_of_length_le h, List.take_replicate, Nat.min_eq_left (by omega)]

@[simp] theorem pair_store (l : Layout α m) (r : Layout β n) (p : α × β) :
    (l.pair r).store p = l.store p.1 ++ r.store p.2 := rfl

end Layout
