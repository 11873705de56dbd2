import Soc.Coding.ArithmeticDecoder

/-!
Every stream of `ArithmeticEncoder` is uniquely decodable.

The closing bit lies in the last interval, the intervals are nested, so the
stream lies in the interval of every step; there a synchronised decoder reads a
scaled value inside the slice that was written.
-/
namespace Soc
open BitString ArithmeticCoderBase

/-- One turn of either loop leaves the ends of the interval in place. -/
structure Held (size : StateSize) (lower upper : ℚ) (c : ArithmeticCoderBase)
    (e : ArithmeticEncoder) : Prop where
  size : c.size = size
  wf : e.output.WellFormed
  lower : (e.interval c).lower = lower
  upper : (e.interval c).upper = upper

namespace ArithmeticEncoder

theorem held_shift (charIsSigned : Bool) {size : StateSize} {l u : ℚ} {c : ArithmeticCoderBase}
    {e : ArithmeticEncoder} (ord : c.Ordered) (top : c.SameTop) (h : Held size l u c e) :
    ∃ e', shift charIsSigned c e = .ok e' ∧ Held size l u c.shifted e' := by
  obtain ⟨e', hrun, wf', _, hint⟩ := interval_shift charIsSigned ord top h.wf
  refine ⟨e', hrun, h.size, wf', ?_, ?_⟩
  · rw [hint, Segment.lower_double, h.lower]
  · rw [hint, Segment.upper_double, h.upper]

theorem held_underflow {size : StateSize} {l u : ℚ} {c : ArithmeticCoderBase}
    {e : ArithmeticEncoder} (p : c.Parted) (near : c.Straddles) (h : Held size l u c e) :
    ∃ e', underflow c e = .ok e' ∧ Held size l u c.widened e' := by
  have hint := interval_underflow p near e
  refine ⟨_, rfl, h.size, h.wf, ?_, ?_⟩
  · rw [hint, Segment.lower_double, h.lower]
  · rw [hint, Segment.upper_double, h.upper]

/-- The state between two writes. -/
structure Ready (size : StateSize) (s : ArithmeticCoderBase × ArithmeticEncoder) : Prop where
  size : s.1.size = size
  normal : s.1.Normal
  wf : s.2.output.WellFormed

def segment (s : ArithmeticCoderBase × ArithmeticEncoder) : Segment := s.2.interval s.1

/-- The segment that narrowing selects, before any rescaling. -/
def narrowedSegment (s : ArithmeticCoderBase × ArithmeticEncoder) (t : Triple) : Segment :=
  s.2.interval (s.1.narrowed t)

/-- One write: the new segment has the ends of the narrowed one. -/
theorem write_spec (charIsSigned : Bool) {size : StateSize}
    {s : ArithmeticCoderBase × ArithmeticEncoder} (ready : Ready size s) {t : Triple}
    (valid : t.Valid size) :
    ∃ s', write charIsSigned s t = .ok s' ∧ Ready size s' ∧
      (segment s').lower = (narrowedSegment s t).lower ∧
      (segment s').upper = (narrowedSegment s t).upper := by
  have hsize := ready.size
  subst hsize
  obtain ⟨c', e', _, hrun, _, held, normal, hsize⟩ :=
    update_rule (methods charIsSigned) (methods charIsSigned)
      (fun c e e' => e = e' ∧ Held s.1.size (narrowedSegment s t).lower
        (narrowedSegment s t).upper c e)
      (fun c e e' ord top h => by
        obtain ⟨rfl, h⟩ := h
        obtain ⟨e₁, hrun, h₁⟩ := held_shift charIsSigned ord top h
        exact ⟨e₁, e₁, hrun, hrun, rfl, h₁⟩)
      (fun c e e' p near h => by
        obtain ⟨rfl, h⟩ := h
        obtain ⟨e₁, hrun, h₁⟩ := held_underflow p near h
        exact ⟨e₁, e₁, hrun, hrun, rfl, h₁⟩)
      ready.normal valid (s := s.2) (t := s.2) ⟨rfl, rfl, ready.wf, rfl, rfl⟩
  exact ⟨(c', e'), hrun, ⟨hsize, normal, held.2.wf⟩, held.2.lower, held.2.upper⟩

theorem narrowedSegment_contains {size : StateSize}
    {s : ArithmeticCoderBase × ArithmeticEncoder} (ready : Ready size s) {t : Triple}
    (valid : t.Valid size) {bs : List Bool} (h : (narrowedSegment s t).Contains bs) :
    (segment s).Contains bs := by
  have hn := narrowed_spec ready.normal (ready.size ▸ valid)
  have hlow := hn.low
  have hhigh := hn.high_le
  apply Segment.contains_mono _ _ _ h
  · simp [narrowedSegment, ArithmeticEncoder.segment, interval, hn.size]
  · simp only [narrowedSegment, ArithmeticEncoder.segment, interval, hn.size]
    omega
  · simp only [narrowedSegment, ArithmeticEncoder.segment, interval, hn.size]
    omega

/-- Writing a symbol can only shrink the set of possible streams. -/
theorem write_contains (charIsSigned : Bool) {size : StateSize}
    {s s' : ArithmeticCoderBase × ArithmeticEncoder} (ready : Ready size s) {t : Triple}
    (valid : t.Valid size) (hrun : write charIsSigned s t = .ok s') {bs : List Bool}
    (h : (segment s').Contains bs) : (narrowedSegment s t).Contains bs := by
  obtain ⟨s₁, hrun₁, _, hlower, hupper⟩ := write_spec charIsSigned ready valid
  obtain rfl : s₁ = s' := by simpa [hrun] using hrun₁.symm
  rw [Segment.contains_iff_fraction] at h ⊢
  rwa [← hlower, ← hupper]

theorem run_spec (charIsSigned : Bool) {size : StateSize} (ts : List Triple)
    (valid : ∀ t ∈ ts, t.Valid size) {s : ArithmeticCoderBase × ArithmeticEncoder}
    (ready : Ready size s) :
    ∃ s', ts.foldlM (write charIsSigned) s = .ok s' ∧ Ready size s' ∧
      ∀ bs, (segment s').Contains bs → (segment s).Contains bs := by
  induction ts generalizing s with
  | nil => exact ⟨s, rfl, ready, fun _ h => h⟩
  | cons t ts ih =>
      have ht := valid t List.mem_cons_self
      obtain ⟨s₁, hw, ready₁, _⟩ := write_spec charIsSigned ready ht
      obtain ⟨s', hrun, ready', hin⟩ := ih (fun t h => valid t (List.mem_cons_of_mem _ h)) ready₁
      refine ⟨s', ?_, ready', fun bs h => ?_⟩
      · rw [List.foldlM_cons, hw]
        exact hrun
      · exact narrowedSegment_contains ready ht
          (write_contains charIsSigned ready ht hw (hin bs h))

/-- Closing the encoder and its stream produces a point of the last segment. -/
theorem finish_spec (charIsSigned : Bool) {size : StateSize}
    {s : ArithmeticCoderBase × ArithmeticEncoder} (ready : Ready size s) :
    ∃ e output, s.2.finish charIsSigned = .ok e ∧ e.output.finish charIsSigned = .ok output ∧
      (segment s).Contains (bytesBits output.data) ∧
      8 * output.size ≤ s.2.output.bits.length + 8 := by
  obtain ⟨out₁, hw, wf₁, hbits₁⟩ := BitOutputStream.write_bits ready.wf charIsSigned true
  obtain ⟨output, hfin, hbits⟩ := BitOutputStream.finish_bits charIsSigned wf₁
  refine ⟨{ s.2 with output := out₁ }, output, ?_, hfin, ?_, ?_⟩
  · exact congrArg (· >>= fun o => Except.ok { s.2 with output := o }) hw
  · rw [hbits, hbits₁, Segment.contains_append_zeros]
    exact finish_contained ready.normal s.2
  · have hlen := congrArg List.length hbits
    rw [bytesBits_length, hbits₁, List.length_append, List.length_append,
      List.length_singleton, List.length_replicate] at hlen
    rw [BitOutputStream.size]
    omega

end ArithmeticEncoder

namespace ArithmeticDecoder
open ArithmeticEncoder

/-- The decoder takes the same step and stays synchronised. -/
theorem update_synced {size : StateSize} (charIsSigned : Bool)
    {s s' : ArithmeticCoderBase × ArithmeticEncoder} (ready : Ready size s) {t : Triple}
    (valid : t.Valid size) (hrun : write charIsSigned s t = .ok s') {bs : List Bool}
    (hin : (segment s').Contains bs) {d : ArithmeticDecoder} (synced : Synced bs s.1 s.2 d) :
    ∃ d', update methods s.1 d t = .ok (s'.1, d') ∧ Synced bs s'.1 s'.2 d' := by
  have hsize := ready.size
  subst hsize
  have hnarrow := write_contains charIsSigned ready valid hrun hin
  have hsync : Synced bs (s.1.narrowed t) s.2 d := ⟨synced.code, synced.input⟩
  obtain ⟨c', e', d', hrun₁, hrun₂, h', _⟩ :=
    update_rule (ArithmeticEncoder.methods charIsSigned) methods
      (fun c e d => e.output.WellFormed ∧ (e.interval c).Contains bs ∧ Synced bs c e d)
      (fun c e d ord top h => by
        obtain ⟨wf, hin, sync⟩ := h
        obtain ⟨e₁, hw, wf₁, hbase, hint⟩ := interval_shift charIsSigned ord top wf
        have hin₁ : (e₁.interval c.shifted).Contains bs := by
          rwa [hint, Segment.contains_double]
        have hdepth : e₁.depth c.size = e.depth c.size + 1 := congrArg Segment.depth hint
        obtain ⟨lo, hi⟩ := sync.between hin
        obtain ⟨hoff, hcode⟩ := shift_code ord top lo hi _ (nextBit_toNat sync.input)
        exact ⟨e₁, _, hw, rfl, wf₁, hin₁, sync.rescale rfl hdepth hbase hoff hcode rfl⟩)
      (fun c e d p near h => by
        obtain ⟨wf, hin, sync⟩ := h
        have hint := interval_underflow p near e
        have hin₁ : (ArithmeticEncoder.interval c.widened
            { e with numUnderflow := e.numUnderflow + 1 }).Contains bs := by
          rwa [hint, Segment.contains_double]
        have hdepth := congrArg Segment.depth hint
        obtain ⟨htwo, hlow, _⟩ := (straddles_iff p.low p.high p.lt).mp near
        obtain ⟨lo, hi⟩ := sync.between hin
        have hcode := underflow_code p near lo hi _ (nextBit_toNat sync.input)
        exact ⟨_, _, rfl, rfl, wf, hin₁,
          sync.rescale rfl hdepth (base_underflow htwo e) (by omega) hcode rfl⟩)
      ready.normal valid ⟨ready.wf, hnarrow, hsync⟩
  obtain rfl : s' = (c', e') := by
    have := hrun.symm.trans hrun₁
    simpa using this
  exact ⟨d', hrun₂, h'.2.2⟩

/-- What a synchronised decoder reads before taking the step. -/
theorem value_spec {size : StateSize} (charIsSigned : Bool)
    {s s' : ArithmeticCoderBase × ArithmeticEncoder} (ready : Ready size s) {t : Triple}
    (valid : t.Valid size) (hrun : write charIsSigned s t = .ok s') {bs : List Bool}
    (hin : (segment s').Contains bs) {d : ArithmeticDecoder} (synced : Synced bs s.1 s.2 d) :
    t.symLow.toNat ≤ (value s.1 d t.total).toNat ∧
      (value s.1 d t.total).toNat < t.symHigh.toNat := by
  have hnarrow := write_contains charIsSigned ready valid hrun hin
  have hsync : Synced bs (s.1.narrowed t) s.2 d := ⟨synced.code, synced.input⟩
  obtain ⟨lo, hi⟩ := hsync.between hnarrow
  exact value_between ready.normal (ready.size ▸ valid) lo hi

end ArithmeticDecoder
end Soc
