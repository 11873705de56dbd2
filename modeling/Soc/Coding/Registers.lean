import Soc.Coding.AdaptiveModel
import Mathlib.Data.List.Chain

/-!
The registers of `ArithmeticCoderBase` keep their range.

The turns of the two loops of an `update` are written down by a coder whose virtual methods
do nothing else. Every turn doubles the range, so there are never more of them than bits.
-/
namespace Soc
namespace ArithmeticCoderBase

/-- The size of the range of the registers. -/
def width (c : ArithmeticCoderBase) : Nat := c.high.toNat - c.low.toNat + 1

def Doubles (c c' : ArithmeticCoderBase) : Prop := c'.width = 2 * c.width

/-- A coder that writes down the registers at the beginning of every turn. -/
def recording : Methods (List ArithmeticCoderBase) :=
  ⟨fun c turns => .ok (turns ++ [c]), fun c turns => .ok (turns ++ [c])⟩

/-- The registers after a sequence of updates. -/
def updates (c : ArithmeticCoderBase) (ts : List Triple) : Except Fault ArithmeticCoderBase :=
  ts.foldlM (fun c t => do
    let (c', _) ← update registersOnly c () t
    .ok c') c

/-- What holds between updates. -/
structure InRange (c : ArithmeticCoderBase) : Prop where
  low : c.low < c.size.halfRange
  high : c.size.halfRange ≤ c.high
  mask : c.high ≤ c.size.stateMask
  range : c.size.minimumRange.toNat ≤ c.high.toNat - c.low.toNat + 1

/-- No bit is lost in the shifts of a turn. -/
structure NoCarry (c : ArithmeticCoderBase) : Prop where
  low : 2 * c.low.toNat < 2 ^ 64
  high : 2 * c.high.toNat < 2 ^ 64
  half : 2 * (c.high ^^^ c.size.halfRange).toNat < 2 ^ 64

/-- What is claimed of an update of `c` that ends in `c'` after some turns. -/
structure Sound (c : ArithmeticCoderBase) (t : Triple) (turns : List ArithmeticCoderBase)
    (c' : ArithmeticCoderBase) : Prop where
  products : t.symLow.toNat * c.range.toNat < 2 ^ 64 ∧ t.symHigh.toNat * c.range.toNat < 2 ^ 64
  narrowed : (c.narrowed t).low ≤ (c.narrowed t).high
  first : (turns ++ [c']).head? = some (c.narrowed t)
  doubles : (turns ++ [c']).IsChain Doubles
  shifts : ∀ r ∈ turns, r.NoCarry
  length : turns.length ≤ c.size.bits

variable {c c' c₀ : ArithmeticCoderBase} {t : Triple} {turns : List ArithmeticCoderBase}

theorem Normal.inRange (h : c.Normal) : c.InRange := by
  have hlow := h.low
  have hhigh := h.high
  have hlt := h.lt
  have hwide := h.wide
  refine ⟨?_, ?_, ?_, ?_⟩
  · rwa [UInt64.lt_iff_toNat_lt, StateSize.halfRange_toNat]
  · rwa [UInt64.le_iff_toNat_le, StateSize.halfRange_toNat]
  · rw [UInt64.le_iff_toNat_le, StateSize.stateMask_toNat]
    omega
  · rw [StateSize.minimumRange_toNat]
    omega

theorem Ordered.noCarry (h : c.Ordered) : c.NoCarry := by
  have hle := h.le
  have hlt := h.lt
  have hhalf := c.size.half_le
  have hxor : (c.high ^^^ c.size.halfRange).toNat < 2 ^ 63 := by
    rw [UInt64.toNat_xor, StateSize.halfRange_toNat]
    exact Nat.xor_lt_two_pow (by omega) (by omega)
  exact ⟨by omega, by omega, by omega⟩

/-- The turns so far, from the registers after narrowing to those at hand. -/
structure Track (c₀ c : ArithmeticCoderBase) (turns : List ArithmeticCoderBase) : Prop where
  first : (turns ++ [c]).head? = some c₀
  doubles : (turns ++ [c]).IsChain Doubles
  shifts : ∀ r ∈ turns, r.NoCarry
  width : c.width = 2 ^ turns.length * c₀.width

theorem Track.refl (c : ArithmeticCoderBase) : Track c c [] :=
  ⟨rfl, .singleton c, by simp, by simp⟩

theorem Track.turn (h : Track c₀ c turns) (hdoubles : Doubles c c') (hshift : c.NoCarry) :
    Track c₀ c' (turns ++ [c]) := by
  refine ⟨?_, ?_, ?_, ?_⟩
  · rw [List.head?_append_of_ne_nil _ (by simp)]
    exact h.first
  · refine h.doubles.append (.singleton c') ?_
    simpa using hdoubles
  · intro r hr
    cases List.mem_append.mp hr with
    | inl hr => exact h.shifts r hr
    | inr hr => exact List.mem_singleton.mp hr ▸ hshift
  · rw [hdoubles, h.width, List.length_append, List.length_singleton, pow_succ]
    ring

theorem Track.sound (h : Track (c.narrowed t) c' turns) (normal : c.Normal)
    (valid : t.Valid c.size) (hsize : c'.size = c.size) (normal' : c'.Normal) :
    Sound c t turns c' := by
  have hrange : c.range.toNat ≤ 2 * c.size.half := by
    rw [range_toNat normal.ordered]
    have := normal.lt
    omega
  have hproduct : ∀ sym : UInt32, sym.toNat ≤ t.total.toNat →
      sym.toNat * c.range.toNat < 2 ^ 64 := fun sym hsym =>
    Nat.lt_of_le_of_lt (Nat.mul_le_mul (hsym.trans valid.total_le) hrange)
      c.size.maximumTotal_mul_lt
  have hlength : 2 ^ turns.length ≤ 2 ^ c.size.bits := by
    have hlt := normal'.lt
    rw [hsize] at hlt
    calc 2 ^ turns.length
        ≤ 2 ^ turns.length * (c.narrowed t).width := Nat.le_mul_of_pos_right _ (Nat.succ_pos _)
      _ = c'.width := h.width.symm
      _ ≤ 2 * c.size.half := by
          rw [ArithmeticCoderBase.width]
          omega
      _ = 2 ^ c.size.bits := c.size.two_half
  exact { products := ⟨hproduct _ (valid.low_lt.le.trans valid.high_le), hproduct _ valid.high_le⟩
          narrowed := UInt64.le_iff_toNat_le.mpr (narrowed_spec normal valid).le
          first := h.first
          doubles := h.doubles
          shifts := h.shifts
          length := (Nat.pow_le_pow_iff_right (by decide)).mp hlength }

theorem shifted_doubles (ord : c.Ordered) (top : c.SameTop) : Doubles c c.shifted :=
  (shifted_rescaled ord top).range ord.le

theorem widened_doubles (p : c.Parted) (near : c.Straddles) : Doubles c c.widened :=
  (widened_rescaled p.low p.high p.lt near).range (p.low.le.trans p.high)

theorem Parted.ordered (p : c.Parted) : c.Ordered := ⟨p.low.le.trans p.high, p.lt⟩

theorem update_traced (normal : c.Normal) (valid : t.Valid c.size) :
    ∃ turns c', update recording c [] t = .ok (c', turns) ∧
      update registersOnly c () t = .ok (c', ()) ∧ Sound c t turns c' ∧ c'.Normal ∧
      c'.size = c.size := by
  obtain ⟨c', turns, _, hrun, hrun', h, normal', hsize⟩ := update_rule recording registersOnly
    (fun c' turns _ => Track (c.narrowed t) c' turns)
    (fun c' turns _ ord top h =>
      ⟨turns ++ [c'], (), rfl, rfl, h.turn (shifted_doubles ord top) ord.noCarry⟩)
    (fun c' turns _ p near h =>
      ⟨turns ++ [c'], (), rfl, rfl, h.turn (widened_doubles p near) p.ordered.noCarry⟩)
    normal valid (s := []) (t := ()) (.refl _)
  exact ⟨turns, c', hrun, hrun', h.sound normal valid hsize normal', normal', hsize⟩

/-! The virtual methods have no say in the registers. -/

variable {σ : Type} {m : Methods σ}

theorem shiftLoop_traced {fuel : Nat} {s s' : σ} (h : shiftLoop m fuel c s = .ok (c', s'))
    (turns : List ArithmeticCoderBase) :
    ∃ turns', shiftLoop recording fuel c turns = .ok (c', turns') := by
  rw [shiftLoop_eq] at h
  simp only [shiftLoop_eq]
  exact Whiles.loop_control (fun c turns => ⟨turns ++ [c], rfl⟩) h turns

theorem underflowLoop_traced {fuel : Nat} {s s' : σ}
    (h : underflowLoop m fuel c s = .ok (c', s')) (turns : List ArithmeticCoderBase) :
    ∃ turns', underflowLoop recording fuel c turns = .ok (c', turns') := by
  rw [underflowLoop_eq] at h
  simp only [underflowLoop_eq]
  exact Whiles.loop_control (fun c turns => ⟨turns ++ [c], rfl⟩) h turns

theorem update_same {s s' : σ} {c₁ : ArithmeticCoderBase}
    (h : update m c s t = .ok (c₁, s')) (htrace : update recording c [] t = .ok (c', turns)) :
    c₁ = c' := by
  rw [update] at h htrace
  split at h
  · contradiction
  · rename_i htotal
    rw [if_neg htotal] at htrace
    obtain ⟨⟨c₂, s₂⟩, hshift, hunderflow⟩ := bind_ok h
    obtain ⟨turns₂, hshift'⟩ := shiftLoop_traced hshift []
    obtain ⟨turns₁, hunderflow'⟩ := underflowLoop_traced hunderflow turns₂
    rw [hshift', ok_bind] at htrace
    exact (Prod.mk.inj (Except.ok.inj (hunderflow'.symm.trans htrace))).1

/-! Sequences of updates. -/

theorem updates_concat {ts : List Triple} (hts : updates c ts = .ok c₀)
    (h : update registersOnly c₀ () t = .ok (c', ())) : updates c (ts ++ [t]) = .ok c' := by
  rw [updates, List.foldlM_append]
  rw [updates] at hts
  rw [hts, ok_bind, List.foldlM_cons, h]
  rfl

theorem updates_normal {ts : List Triple} (normal : c.Normal) (valid : ∀ t ∈ ts, t.Valid c.size) :
    ∃ c', updates c ts = .ok c' ∧ c'.Normal ∧ c'.size = c.size := by
  induction ts using List.reverseRecOn with
  | nil => exact ⟨c, rfl, normal, rfl⟩
  | append_singleton ts t ih =>
      obtain ⟨c₁, hrun, normal₁, hsize₁⟩ := ih fun t ht => valid t (List.mem_append_left _ ht)
      have ht := valid t (List.mem_append_right _ List.mem_cons_self)
      obtain ⟨turns, c', -, hrun', -, normal', hsize'⟩ := update_traced normal₁ (hsize₁ ▸ ht)
      exact ⟨c', updates_concat hrun hrun', normal', hsize'.trans hsize₁⟩

end ArithmeticCoderBase

open ArithmeticCoderBase

/-- From the state the constructor leaves, and after any sequence of updates, the registers are
in range, and the next update ends after at most `numBits` turns in which no operation wraps
and each of which doubles the range. -/
theorem registers_keep_range {numBits : Int} (lo : 1 ≤ numBits) (hi : numBits ≤ 63) :
    ∃ c, ArithmeticCoderBase.new numBits = .ok c ∧ c.size.bits = numBits.toNat ∧
      ∀ ts : List Triple, (∀ t ∈ ts, t.Valid c.size) →
        ∃ c₁, updates c ts = .ok c₁ ∧ c₁.size = c.size ∧ c₁.InRange ∧
          ∀ t : Triple, t.Valid c.size →
            ∃ turns c₂, update recording c₁ [] t = .ok (c₂, turns) ∧ Sound c₁ t turns c₂ ∧
              updates c (ts ++ [t]) = .ok c₂ ∧
              ∀ (σ : Type) (m : Methods σ) (s : σ) (r : ArithmeticCoderBase × σ),
                update m c₁ s t = .ok r → r.1 = c₂ := by
  have hnew : ArithmeticCoderBase.new numBits = .ok _ := dif_pos ⟨lo, hi⟩
  refine ⟨_, hnew, rfl, fun ts valid => ?_⟩
  obtain ⟨hlow, hhigh⟩ := new_registers hnew
  obtain ⟨c₁, hrun, normal₁, hsize⟩ := updates_normal (initial_normal hlow hhigh) valid
  refine ⟨c₁, hrun, hsize, normal₁.inRange, fun t ht => ?_⟩
  obtain ⟨turns, c₂, htrace, hrun₂, hsound, -, -⟩ := update_traced normal₁ (hsize ▸ ht)
  exact ⟨turns, c₂, htrace, hsound, updates_concat hrun hrun₂,
    fun σ m s r hr => update_same hr htrace⟩

theorem registers_keep_range_byte :
    ∃ c c₁, ArithmeticCoderBase.new 8 = .ok c ∧ updates c [⟨3, 0, 1⟩, ⟨66, 65, 66⟩] = .ok c₁ ∧
      c₁.InRange := by
  obtain ⟨c, hnew, hbits, h⟩ := registers_keep_range (show 1 ≤ 8 by decide) (by decide)
  have htotal : c.size.maximumTotal.toNat = 66 := by
    rw [StateSize.maximumTotal_toNat, StateSize.half, hbits]
    decide
  have valid : ∀ t ∈ ([⟨3, 0, 1⟩, ⟨66, 65, 66⟩] : List Triple), t.Valid c.size := by
    refine List.forall_mem_cons.mpr ⟨?_, List.forall_mem_singleton.mpr ?_⟩
    · exact ⟨by decide, by decide, by rw [htotal]; decide⟩
    · exact ⟨by decide, by decide, by rw [htotal]; decide⟩
  obtain ⟨c₁, hrun, -, hrange, -⟩ := h _ valid
  exact ⟨c, c₁, hnew, hrun, hrange⟩

end Soc
