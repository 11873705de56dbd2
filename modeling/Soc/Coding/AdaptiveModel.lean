import Soc.Coding.UniqueDecoding
import Mathlib.Tactic.NormNum

/-!
Decoding whole streams of `ArithmeticEncoder`, three ways.

A decoder that is told the slices reads a value inside each of them. A decoder
that only knows an adaptive model, whose slices depend on the symbols before,
finds the symbols themselves. Independently of any decoder, the stream as a
binary fraction lies in every interval of the nest the slices describe.
-/
namespace Soc
open BitString ArithmeticCoderBase

/-- The scaled value a decoder obtains at each step of a known slice sequence. -/
def scaledValues : ArithmeticCoderBase → ArithmeticDecoder → List Triple →
    Except Fault (List UInt64)
  | _, _, [] => .ok []
  | c, d, t :: ts => do
    let (c', d') ← update ArithmeticDecoder.methods c d t
    let vs ← scaledValues c' d' ts
    .ok (d.value c t.total :: vs)

/-- A coder that only moves its registers. -/
def registersOnly : Methods Unit := ⟨fun _ _ => .ok (), fun _ _ => .ok ()⟩

/-- The part of an interval that a slice takes, cut at an integer resolution. -/
def subinterval (I : ℚ × ℚ) (range : Nat) (t : Triple) : ℚ × ℚ :=
  (I.1 + (I.2 - I.1) * cut t.symLow t.total range / range,
    I.1 + (I.2 - I.1) * cut t.symHigh t.total range / range)

/-- The nest: each interval is cut at the resolution of the register range. -/
def nestedIntervals : ArithmeticCoderBase → ℚ × ℚ → List Triple →
    Except Fault (List (ℚ × ℚ))
  | _, I, [] => .ok [I]
  | c, I, t :: ts => do
    let (c', _) ← update registersOnly c () t
    let rest ← nestedIntervals c' (subinterval I c.range.toNat t) ts
    .ok (I :: rest)

/-- A model gives every symbol a slice that may depend on the symbols before it. -/
structure AdaptiveModel (S : Type) where
  total : List S → UInt32
  symLow : List S → S → UInt32
  symHigh : List S → S → UInt32

namespace AdaptiveModel
variable {S : Type}

def triple (m : AdaptiveModel S) (past : List S) (s : S) : Triple :=
  ⟨m.total past, m.symLow past s, m.symHigh past s⟩

def triples (m : AdaptiveModel S) : List S → List S → List Triple
  | _, [] => []
  | past, s :: ss => m.triple past s :: m.triples (past ++ [s]) ss

/-- The scaled value lies in the symbol's slice. -/
def Covers (m : AdaptiveModel S) (past : List S) (s : S) (v : Nat) : Prop :=
  (m.symLow past s).toNat ≤ v ∧ v < (m.symHigh past s).toNat

def Disjoint (m : AdaptiveModel S) : Prop :=
  ∀ past s s' v, m.Covers past s v → m.Covers past s' v → s = s'

/-- A search finds a symbol whose slice holds the value, if there is one. -/
def Finds (m : AdaptiveModel S) (find : List S → Nat → Option S) : Prop :=
  ∀ past s v, m.Covers past s v → ∃ s', find past v = some s' ∧ m.Covers past s' v

/-- The decoder: find the symbol, then take the step of its slice. -/
def decodeSymbols (m : AdaptiveModel S) (find : List S → Nat → Option S) :
    Nat → ArithmeticCoderBase → ArithmeticDecoder → List S → Except Fault (List S)
  | 0, _, _, _ => .ok []
  | n + 1, c, d, past =>
    match find past (d.value c (m.total past)).toNat with
    | none => .error .domainError
    | some s => do
      let (c', d') ← update ArithmeticDecoder.methods c d (m.triple past s)
      let rest ← decodeSymbols m find n c' d' (past ++ [s])
      .ok (s :: rest)

end AdaptiveModel

section Run
open ArithmeticEncoder ArithmeticDecoder

variable {size : StateSize} (charIsSigned : Bool)

/-- Splitting a run at its first symbol, with the stream inside every segment. -/
theorem run_cons {t : Triple} {ts : List Triple} (valid : ∀ x ∈ t :: ts, x.Valid size)
    {s s' : ArithmeticCoderBase × ArithmeticEncoder} (ready : Ready size s)
    (hrun : (t :: ts).foldlM (write charIsSigned) s = .ok s') {bs : List Bool}
    (hin : (segment s').Contains bs) :
    ∃ s₁, write charIsSigned s t = .ok s₁ ∧ ts.foldlM (write charIsSigned) s₁ = .ok s' ∧
      Ready size s₁ ∧ (segment s₁).Contains bs ∧ t.Valid size ∧ ∀ x ∈ ts, x.Valid size := by
  have ht := valid t List.mem_cons_self
  have hts : ∀ x ∈ ts, x.Valid size := fun x h => valid x (List.mem_cons_of_mem _ h)
  obtain ⟨s₁, hw, ready₁, _⟩ := write_spec charIsSigned ready ht
  obtain ⟨s₂, hrun₂, _, hback⟩ := run_spec charIsSigned ts hts ready₁
  have hrest : ts.foldlM (write charIsSigned) s₁ = .ok s' := by
    rw [List.foldlM_cons, hw] at hrun
    exact hrun
  obtain rfl : s₂ = s' := by simpa using hrun₂.symm.trans hrest
  exact ⟨s₁, hw, hrest, ready₁, hback bs hin, ht, hts⟩

theorem scaledValues_spec (ts : List Triple) (valid : ∀ t ∈ ts, t.Valid size)
    {s s' : ArithmeticCoderBase × ArithmeticEncoder} (ready : Ready size s)
    (hrun : ts.foldlM (write charIsSigned) s = .ok s') {bs : List Bool}
    (hin : (segment s').Contains bs) {d : ArithmeticDecoder} (synced : Synced bs s.1 s.2 d) :
    ∃ vs, scaledValues s.1 d ts = .ok vs ∧
      List.Forall₂ (fun t v => t.symLow.toNat ≤ v.toNat ∧ v.toNat < t.symHigh.toNat) ts vs := by
  induction ts generalizing s d with
  | nil => exact ⟨[], rfl, .nil⟩
  | cons t ts ih =>
      obtain ⟨s₁, hw, hrest, ready₁, hin₁, ht, hts⟩ := run_cons charIsSigned valid ready hrun hin
      obtain ⟨d₁, hstep, synced₁⟩ := update_synced charIsSigned ready ht hw hin₁ synced
      have hv := value_spec charIsSigned ready ht hw hin₁ synced
      obtain ⟨vs, hvs, hall⟩ := ih hts ready₁ hrest synced₁
      refine ⟨d.value s.1 t.total :: vs, ?_, .cons hv hall⟩
      rw [scaledValues, hstep, ok_bind]
      simp only [hvs, ok_bind]

theorem decodeSymbols_spec {S : Type} (m : AdaptiveModel S) (find : List S → Nat → Option S)
    (disjoint : m.Disjoint) (finds : m.Finds find) (ss past : List S)
    (valid : ∀ t ∈ m.triples past ss, t.Valid size)
    {s s' : ArithmeticCoderBase × ArithmeticEncoder} (ready : Ready size s)
    (hrun : (m.triples past ss).foldlM (write charIsSigned) s = .ok s') {bs : List Bool}
    (hin : (segment s').Contains bs) {d : ArithmeticDecoder} (synced : Synced bs s.1 s.2 d) :
    m.decodeSymbols find ss.length s.1 d past = .ok ss := by
  induction ss generalizing s d past with
  | nil => rfl
  | cons x ss ih =>
      obtain ⟨s₁, hw, hrest, ready₁, hin₁, ht, hts⟩ := run_cons charIsSigned valid ready hrun hin
      obtain ⟨d₁, hstep, synced₁⟩ := update_synced charIsSigned ready ht hw hin₁ synced
      have hv : m.Covers past x (d.value s.1 (m.total past)).toNat :=
        value_spec charIsSigned ready ht hw hin₁ synced
      obtain ⟨y, hfind, hy⟩ := finds past x _ hv
      obtain rfl : x = y := disjoint past x y _ hv hy
      have htail := ih (past ++ [x]) hts ready₁ hrest synced₁
      simp only [List.length_cons, AdaptiveModel.decodeSymbols, hfind, hstep, ok_bind, htail]

def ends (I : Segment) : ℚ × ℚ := (I.lower, I.upper)

theorem ends_new {c : ArithmeticCoderBase} {numBits : Int}
    (hnew : ArithmeticCoderBase.new numBits = .ok c) :
    ends (segment (c, ArithmeticEncoder.new BitOutputStream.new)) = (0, 1) := by
  obtain ⟨low, high⟩ := new_registers hnew
  have hpow : 1 ≤ 2 ^ c.size.bits := Nat.one_le_two_pow
  have hd : (2 : ℚ) ^ c.size.bits ≠ 0 := by positivity
  rw [ArithmeticEncoder.segment, interval_new low high, ends, Segment.lower, Segment.upper]
  push_cast [hpow]
  simp [hd]

theorem subinterval_ends {s : ArithmeticCoderBase × ArithmeticEncoder} (ready : Ready size s)
    {t : Triple} (valid : t.Valid size) :
    subinterval (ends (segment s)) s.1.range.toNat t = ends (narrowedSegment s t) := by
  have hn := narrowed_spec ready.normal (ready.size ▸ valid)
  have hle := ready.normal.ordered.le
  have hrange := range_toNat ready.normal.ordered
  have hlow := hn.low
  have hhigh := hn.high
  rw [← hrange] at hlow hhigh
  generalize s.1.range.toNat = r at *
  have hr : (r : ℚ) ≠ 0 := by
    have hpos : r ≠ 0 := by omega
    exact_mod_cast hpos
  have hsum : (s.1.high.toNat : ℚ) + 1 - s.1.low.toNat = r := by
    have hnat : s.1.high.toNat + 1 = r + s.1.low.toNat := by omega
    have hrat : (s.1.high.toNat : ℚ) + 1 = r + s.1.low.toNat := by exact_mod_cast hnat
    linarith
  have hlow' : ((s.1.narrowed t).low.toNat : ℚ) = s.1.low.toNat + cut t.symLow t.total r := by
    exact_mod_cast hlow
  have hhigh' : ((s.1.narrowed t).high.toNat : ℚ) + 1 =
      s.1.low.toNat + cut t.symHigh t.total r := by
    exact_mod_cast hhigh
  have hd : (2 : ℚ) ^ s.2.depth s.1.size ≠ 0 := by positivity
  have hwidth : (segment s).upper - (segment s).lower = r / 2 ^ s.2.depth s.1.size := by
    rw [← hsum]
    simp only [ArithmeticEncoder.segment, interval, Segment.upper, Segment.lower]
    push_cast
    ring
  have hlower : (segment s).lower =
      (s.2.base s.1.size + s.1.low.toNat) / 2 ^ s.2.depth s.1.size := by
    simp only [ArithmeticEncoder.segment, interval, Segment.lower]
    push_cast
    rfl
  have hcut (x : Nat) : (segment s).lower + (r : ℚ) / 2 ^ s.2.depth s.1.size * x / r =
      (s.2.base s.1.size + (s.1.low.toNat + x)) / 2 ^ s.2.depth s.1.size := by
    rw [hlower]
    field_simp
    ring
  simp only [subinterval, ends, hwidth, hcut, ← hlow', ← hhigh']
  simp only [narrowedSegment, interval, Segment.lower, Segment.upper, hn.size]
  push_cast
  rw [add_assoc]

theorem registersOnly_update {s s' : ArithmeticCoderBase × ArithmeticEncoder}
    (ready : Ready size s) {t : Triple} (valid : t.Valid size)
    (hrun : write charIsSigned s t = .ok s') :
    update registersOnly s.1 () t = .ok (s'.1, ()) := by
  have hsize := ready.size
  subst hsize
  obtain ⟨c', e', _, hrun₁, hrun₂, _⟩ :=
    update_rule (ArithmeticEncoder.methods charIsSigned) registersOnly
      (fun _ e _ => e.output.WellFormed)
      (fun c e _ ord _ wf => by
        obtain ⟨e₁, hw, wf₁, _⟩ := shift_bits charIsSigned ord wf
        exact ⟨e₁, (), hw, rfl, wf₁⟩)
      (fun c e _ _ _ wf => ⟨_, (), rfl, rfl, wf⟩)
      ready.normal valid (s := s.2) (t := ()) ready.wf
  have h := hrun.symm.trans hrun₁
  simp only [Except.ok.injEq] at h
  rw [hrun₂, h]

theorem nestedIntervals_spec (ts : List Triple) (valid : ∀ t ∈ ts, t.Valid size)
    {s s' : ArithmeticCoderBase × ArithmeticEncoder} (ready : Ready size s)
    (hrun : ts.foldlM (write charIsSigned) s = .ok s') {bs : List Bool}
    (hin : (segment s').Contains bs) :
    ∃ Is, nestedIntervals s.1 (ends (segment s)) ts = .ok Is ∧ Is.length = ts.length + 1 ∧
      ∀ I ∈ Is, I.1 ≤ fraction bs ∧ fraction bs < I.2 := by
  induction ts generalizing s with
  | nil =>
      obtain rfl : s = s' := Except.ok.inj hrun
      have h := (Segment.contains_iff_fraction _ _).mp hin
      exact ⟨[_], rfl, rfl, by simpa [ends] using h⟩
  | cons t ts ih =>
      obtain ⟨s₁, hw, hrest, ready₁, hin₁, ht, hts⟩ := run_cons charIsSigned valid ready hrun hin
      obtain ⟨s₂, hw₂, _, hlower, hupper⟩ := write_spec charIsSigned ready ht
      obtain rfl : s₂ = s₁ := by simpa using hw₂.symm.trans hw
      have hends : ends (narrowedSegment s t) = ends (segment s₂) := by
        rw [ends, ends, hlower, hupper]
      have hhere := (Segment.contains_iff_fraction _ _).mp
        (narrowedSegment_contains ready ht (write_contains charIsSigned ready ht hw hin₁))
      obtain ⟨Is, hIs, hlen, hall⟩ := ih hts ready₁ hrest
      refine ⟨ends (segment s) :: Is, ?_, by simp [hlen], ?_⟩
      · rw [nestedIntervals, registersOnly_update charIsSigned ready ht hw, ok_bind]
        simp only [subinterval_ends ready ht, hends, hIs, ok_bind]
      · intro I hI
        rcases List.mem_cons.mp hI with rfl | hI
        · exact hhere
        · exact hall I hI

theorem encode_spec {c : ArithmeticCoderBase} {numBits : Int}
    (hnew : ArithmeticCoderBase.new numBits = .ok c) (ts : List Triple)
    (valid : ∀ t ∈ ts, t.Valid c.size) :
    ∃ s' bytes, encode charIsSigned numBits ts = .ok bytes ∧
      Ready c.size (c, ArithmeticEncoder.new BitOutputStream.new) ∧
      ts.foldlM (write charIsSigned) (c, ArithmeticEncoder.new BitOutputStream.new) = .ok s' ∧
      (segment s').Contains (bytesBits bytes) := by
  obtain ⟨low, high⟩ := new_registers hnew
  have ready : Ready c.size (c, ArithmeticEncoder.new BitOutputStream.new) :=
    ⟨rfl, initial_normal low high, BitOutputStream.new_wellFormed⟩
  obtain ⟨s', hrun, ready', _⟩ := run_spec charIsSigned ts valid ready
  obtain ⟨e, output, hfin, hout, hin, -⟩ := finish_spec charIsSigned ready'
  refine ⟨s', output.data, ?_, ready, hrun, hin⟩
  simp only [encode, hnew, ok_bind, hrun, hfin, hout]

end Run

/-- Every stream the encoder writes is decodable, for every state size the
constructor accepts: a decoder that is told the slices reads a value inside each
of them, one that knows a model with disjoint slices finds the symbols, and the
stream as a binary fraction lies in every interval of the nest. -/
theorem arithmeticEncoder_uniquely_decodable (charIsSigned : Bool) (numBits : Int)
    (hbits : 1 ≤ numBits ∧ numBits ≤ 63) :
    ∃ c, ArithmeticCoderBase.new numBits = .ok c ∧
      ∀ ts : List Triple, (∀ t ∈ ts, t.Valid c.size) →
        ∃ bytes, ArithmeticEncoder.encode charIsSigned numBits ts = .ok bytes ∧
          (∃ vs, scaledValues c (.new c.size (bytesBits bytes)) ts = .ok vs ∧
            List.Forall₂ (fun t v => t.symLow.toNat ≤ v.toNat ∧ v.toNat < t.symHigh.toNat)
              ts vs) ∧
          (∀ (S : Type) (m : AdaptiveModel S) (find : List S → Nat → Option S) (ss : List S),
            m.Disjoint → m.Finds find → m.triples [] ss = ts →
            m.decodeSymbols find ss.length c
              (.new c.size (bytesBits bytes)) [] = .ok ss) ∧
          ∃ Is, nestedIntervals c (0, 1) ts = .ok Is ∧ Is.length = ts.length + 1 ∧
            ∀ I ∈ Is, I.1 ≤ fraction (bytesBits bytes) ∧
              fraction (bytesBits bytes) < I.2 := by
  obtain ⟨c, hnew⟩ : ∃ c, ArithmeticCoderBase.new numBits = .ok c := ⟨_, dif_pos hbits⟩
  refine ⟨c, hnew, fun ts valid => ?_⟩
  obtain ⟨s', bytes, hbytes, ready, hrun, hin⟩ := encode_spec charIsSigned hnew ts valid
  have synced := ArithmeticDecoder.synced_new (c := c) (bytesBits bytes)
  refine ⟨bytes, hbytes, scaledValues_spec charIsSigned ts valid ready hrun hin synced, ?_, ?_⟩
  · intro S m find ss disjoint finds hts
    subst hts
    exact decodeSymbols_spec charIsSigned m find disjoint finds ss [] valid ready hrun hin synced
  · have h := nestedIntervals_spec charIsSigned ts valid ready hrun hin
    rwa [ends_new hnew] at h

/-- The middle half of a range of eight, twice: two bits are pending when the
stream is closed, and the single closing bit stands for them. -/
theorem arithmeticEncoder_uniquely_decodable_pending :
    ArithmeticEncoder.encode false 3 [⟨4, 1, 3⟩, ⟨4, 1, 3⟩] = .ok [0x80] ∧
      ∃ c vs, ArithmeticCoderBase.new 3 = .ok c ∧
        scaledValues c (.new c.size (bytesBits [0x80])) [⟨4, 1, 3⟩, ⟨4, 1, 3⟩] =
          .ok vs ∧
        List.Forall₂ (fun (t : Triple) v => t.symLow.toNat ≤ v.toNat ∧ v.toNat < t.symHigh.toNat)
          [⟨4, 1, 3⟩, ⟨4, 1, 3⟩] vs := by
  have hbytes : ArithmeticEncoder.encode false 3 [⟨4, 1, 3⟩, ⟨4, 1, 3⟩] = .ok [0x80] := by
    decide +kernel
  refine ⟨hbytes, ?_⟩
  obtain ⟨c, hnew, hall⟩ := arithmeticEncoder_uniquely_decodable false 3 (by decide)
  obtain rfl : ⟨⟨3, by decide, by decide⟩, 0, 7⟩ = c := Except.ok.inj hnew
  obtain ⟨bytes, hrun, ⟨vs, hvs, hin⟩, _⟩ := hall [⟨4, 1, 3⟩, ⟨4, 1, 3⟩] (by
    intro t ht
    simp only [List.mem_cons, List.not_mem_nil, or_false, or_self] at ht
    subst ht
    exact ⟨by decide, by decide, by decide⟩)
  obtain rfl : [0x80] = bytes := Except.ok.inj (hbytes.symm.trans hrun)
  exact ⟨_, vs, hnew, hvs, hin⟩

end Soc
