import Soc.Protocol.Outcome

/-!
The blocks of the results.

A dry run allocates a block for every result. Otherwise the first encoding of a
file allocates one of its own length, and every later encoding is copied to that
block. So in the end a file's encodings fit if and only if none of them is longer
than the first, whatever the encoder makes of a payload each time. Framing a result
counts its frames in 16 bits, and runs past the block when there are more than 65536.
-/
namespace Soc
open Windows Runs

/-- The payload of a SEND request after which nothing is missing. -/
def Picture.payload (p : Picture) (line : Line) (nFrame : UInt16) : Option (List UInt8) := do
  let slots ← (p.prepare line nFrame).toOption
  let (sum, slots) ← (receiveDataFrames line.dataReady line.reads slots nFrame).toOption
  if sum = 0 then (dataFramesToData slots nFrame.toNat).toOption else none

/-- The file a turn has a payload to process for, and the payload. -/
def Slave.payload (s : Slave) (e : Event) : Option (Fin picturesNumberMax × List UInt8) := do
  let (k, nFrame) ← e.accepted
  let payload ← (s.pictures k).payload e.line nFrame
  pure (k, payload)

/-- Framing a result into frames enough does not leave its block. -/
def Data8.Framable (d : Data8) : Prop :=
  0 < d.len → ∀ dataFrames : List DataFrame, dataFrames.length = countFrames d.len →
    ∃ frames, dataToDataFrames (d.addr.getD []) d.len dataFrames = .ok frames

/-- The copy of a result stays inside a block of at least its length, and so does
framing it. -/
def Slave.Inside (o : Options) (s : Slave) (e : Event) : Prop :=
  ∀ k payload, s.payload e = some (k, payload) →
    o.store e.line.malloc (o.encoding payload) (s.pictures k).bitStream ≠ .error .outOfBounds ∧
    ∀ d, o.store e.line.malloc (o.encoding payload) (s.pictures k).bitStream = .ok d →
      d.len = (o.encoding payload).length ∧ d.len ≤ (d.addr.getD []).length ∧ d.Framable

def Picture.block (p : Picture) : Option Nat := p.bitStream.addr.map List.length

/-- The length of an encoding that gets to its block. -/
def Slave.encoded (o : Options) (k : Fin picturesNumberMax) (s : Slave) (e : Event) : List Nat :=
  match s.payload e with
  | none => []
  | some (j, payload) =>
    if j = k ∧ (e.line.malloc = true ∨ (s.pictures k).block.isSome) then
      [(o.encoding payload).length]
    else []

/-- An event, and the encoder its turn has. -/
structure CodedEvent where
  event : Event
  encode : List UInt8 → List UInt8

def CodedEvent.options (t : CodedEvent) (dry : Bool) : Options := ⟨dry, t.encode⟩

def Slave.CodedTurn (dry : Bool) (s : Slave) (t : CodedEvent) (s' : Slave) : Prop :=
  s.Turn (t.options dry) t.event s'

/-- The lengths of the encodings of a file along a run, in order. -/
def Slave.lengths (dry : Bool) (k : Fin picturesNumberMax) (s : Slave) (ts : List CodedEvent) :
    List Nat :=
  collect (fun s t => s.next (t.options dry) t.event)
    (fun s t => s.encoded (t.options dry) k t.event) s ts

/-! A turn with a payload. -/

theorem Picture.receive_payload (o : Options) {p : Picture} {line : Line} {nFrame : UInt16}
    {payload : List UInt8} (h : p.payload line nFrame = some payload) :
    ∃ info, p.receive o line nFrame = o.store line.malloc (o.encoding payload) p.bitStream >>=
      fun bitStream => .ok ⟨bitStream, info⟩ := by
  obtain ⟨slots, hslots, h⟩ := Option.bind_eq_some_iff.mp h
  obtain ⟨⟨sum, slots'⟩, hrecv, h⟩ := Option.bind_eq_some_iff.mp h
  by_cases hsum : sum = 0
  · simp only [if_pos hsum] at h
    rw [toOption_some] at hslots hrecv h
    refine ⟨⟨some slots', nFrame - sum, nFrame⟩, ?_⟩
    simp only [receive, hslots, ok_bind, hrecv, if_pos hsum, processDataFrames, h]
  · simp only [if_neg hsum] at h
    contradiction

theorem Slave.payload_accepted {s : Slave} {e : Event} {k : Fin picturesNumberMax}
    {payload : List UInt8} (h : s.payload e = some (k, payload)) :
    ∃ nFrame, e.accepted = some (k, nFrame) ∧
      (s.pictures k).payload e.line nFrame = some payload := by
  obtain ⟨⟨j, nFrame⟩, hacc, h⟩ := Option.bind_eq_some_iff.mp h
  obtain ⟨bytes, hbytes, h⟩ := Option.bind_eq_some_iff.mp h
  obtain ⟨rfl, rfl⟩ := Prod.mk.inj (Option.some.inj h)
  exact ⟨nFrame, hacc, hbytes⟩

theorem Slave.turn_no_payload {o : Options} {s s' : Slave} {e : Event} (h : s.payload e = none)
    (hturn : s.Turn o e s') (k : Fin picturesNumberMax) :
    (s'.pictures k).bitStream = (s.pictures k).bitStream := by
  rcases turn_picture hturn k with ⟨nFrame, hacc, hrecv⟩ | ⟨-, hsame⟩
  · obtain ⟨slots, hslots, hrecv⟩ := bind_ok hrecv
    obtain ⟨⟨sum, slots'⟩, hrun, hrecv⟩ := bind_ok hrecv
    by_cases hsum : sum = 0
    · simp only [if_pos hsum] at hrecv
      obtain ⟨bitStream, hprocess, -⟩ := bind_ok hrecv
      obtain ⟨payload, hpayload, -⟩ := bind_ok hprocess
      have hsome : s.payload e = some (k, payload) := by
        simp only [Slave.payload, Picture.payload, hacc, toOption_some.mpr hslots,
          toOption_some.mpr hrun, toOption_some.mpr hpayload, if_pos hsum, Option.bind_eq_bind,
          Option.bind_some, Option.pure_def]
      rw [h] at hsome
      contradiction
    · simp only [if_neg hsum] at hrecv
      rw [← Except.ok.inj hrecv]
  · rw [hsame]

theorem Slave.turn_payload {o : Options} {s s' : Slave} {e : Event} {k : Fin picturesNumberMax}
    {payload : List UInt8} (h : s.payload e = some (k, payload)) (hturn : s.Turn o e s') :
    o.store e.line.malloc (o.encoding payload) (s.pictures k).bitStream =
        .ok (s'.pictures k).bitStream ∧
      ∀ j, j ≠ k → s'.pictures j = s.pictures j := by
  obtain ⟨nFrame, hacc, hpayload⟩ := payload_accepted h
  refine ⟨?_, ?_⟩
  · rcases turn_picture hturn k with ⟨m, hm, hrecv⟩ | ⟨hnone, -⟩
    · obtain ⟨-, rfl⟩ := Prod.mk.inj (Option.some.inj (hacc.symm.trans hm))
      obtain ⟨info, heq⟩ := Picture.receive_payload o hpayload
      rw [heq] at hrecv
      obtain ⟨bitStream, hstore, hrecv⟩ := bind_ok hrecv
      rw [hstore, ← Except.ok.inj hrecv]
    · exact absurd hacc (hnone nFrame)
  · intro j hj
    rcases turn_picture hturn j with ⟨m, hm, -⟩ | ⟨-, hsame⟩
    · exact absurd (Prod.mk.inj (Option.some.inj (hm.symm.trans hacc))).1 hj
    · exact hsame

/-! The blocks and what is copied to them. -/

theorem Data8.framable_iff (d : Data8) : d.Framable ↔ d.len ≤ 65536 * 512 := by
  have hmax := frameDataLenMax_eq
  constructor
  · intro h
    by_contra hlong
    obtain ⟨-, -, hhi⟩ := countFrames_pos (show 0 < d.len by omega)
    rw [hmax] at hhi
    obtain ⟨frames, hframes⟩ := h (by omega) (List.replicate (countFrames d.len) zeroFrame)
      List.length_replicate
    rw [dataToDataFrames, if_pos (.inr (by omega))] at hframes
    cases hframes
  · intro hle lo dataFrames hframes
    exact ⟨_, dataToDataFrames_ok (d.addr.getD []) dataFrames lo d.fits hle hframes⟩

/-- Without a dry run an encoding has to fit the block that is there. -/
theorem store_inside {o : Options} (hdry : o.dryRun = false) (malloc : Bool) (enc : List UInt8)
    (d : Data8) :
    (o.store malloc enc d ≠ .error .outOfBounds ∧ ∀ d', o.store malloc enc d = .ok d' →
        d'.len = enc.length ∧ d'.len ≤ (d'.addr.getD []).length ∧ d'.Framable) ↔
      (malloc = true ∨ (d.addr.map List.length).isSome → enc.length ≤ 65536 * 512 ∧
        ∀ b ∈ d.addr.map List.length, enc.length ≤ b) := by
  cases haddr : d.addr with
  | none =>
      cases malloc with
      | false =>
          have hstore : o.store false enc d = .error .exited := by
            simp [Options.store, haddr, Options.allocate, hdry]
          simp [hstore]
      | true =>
          have hstore : o.store true enc d = .ok ⟨some enc, enc.length, Nat.le_refl _⟩ := by
            simp [Options.store, haddr, Options.allocate]
          simp [hstore, Data8.framable_iff]
  | some old =>
      by_cases hle : enc.length ≤ old.length
      · have hstore : o.store malloc enc d =
            .ok ⟨some (enc ++ old.drop enc.length), enc.length, by simp⟩ := by
          simp [Options.store, haddr, hdry, hle]
        simp [hstore, Data8.framable_iff, hle]
      · have hstore : o.store malloc enc d = .error .outOfBounds := by
          simp [Options.store, haddr, hdry, hle]
        simp [hstore, hle]

/-- A dry run has to get a block, unless there is nothing to copy. -/
theorem store_inside_dry {o : Options} (hdry : o.dryRun = true) (malloc : Bool)
    {enc : List UInt8} (hle : enc.length ≤ 65536 * 512) (d : Data8) :
    (o.store malloc enc d ≠ .error .outOfBounds ∧ ∀ d', o.store malloc enc d = .ok d' →
        d'.len = enc.length ∧ d'.len ≤ (d'.addr.getD []).length ∧ d'.Framable) ↔
      (malloc = true ∨ enc = []) := by
  cases malloc with
  | true =>
      have hstore : o.store true enc d = .ok ⟨some enc, enc.length, Nat.le_refl _⟩ := by
        simp [Options.store, hdry, Options.allocate]
      simp [hstore, Data8.framable_iff, hle]
  | false =>
      by_cases hnone : enc = []
      · subst hnone
        have hstore : o.store false [] d = .ok {} := by
          simp [Options.store, hdry, Options.allocate]
        simp [hstore, Data8.framable_iff]
      · have hstore : o.store false enc d = .error .outOfBounds := by
          simp [Options.store, hdry, Options.allocate, hnone]
        simp [hstore, hnone]

theorem Slave.payload_le {s : Slave} {e : Event} {k : Fin picturesNumberMax}
    {payload : List UInt8} (h : s.payload e = some (k, payload)) :
    payload.length ≤ 65536 * 512 := by
  obtain ⟨nFrame, -, h⟩ := payload_accepted h
  obtain ⟨slots, -, h⟩ := Option.bind_eq_some_iff.mp h
  obtain ⟨⟨sum, slots'⟩, -, h⟩ := Option.bind_eq_some_iff.mp h
  by_cases hsum : sum = 0
  · simp only [if_pos hsum] at h
    have hle := dataFramesToData_le _ _ (toOption_some.mp h)
    exact hle.trans (Nat.mul_le_mul_right 512 (Nat.le_of_lt nFrame.toNat_lt))
  · simp only [if_neg hsum] at h
    exact absurd h.symm (Option.some_ne_none payload)

theorem Slave.inside_iff_dry {o : Options} (hdry : o.dryRun = true) (s : Slave) (e : Event) :
    s.Inside o e ↔ ∀ k payload, s.payload e = some (k, payload) →
      e.line.malloc = true ∨ payload = [] := by
  refine forall_congr' fun k => forall_congr' fun payload => ?_
  have hsame : o.encoding payload = payload := if_pos hdry
  rw [hsame]
  exact forall_congr' fun hpayload =>
    store_inside_dry hdry e.line.malloc (payload_le hpayload) (s.pictures k).bitStream

theorem Slave.inside_iff {o : Options} (hdry : o.dryRun = false) (s : Slave) (e : Event) :
    s.Inside o e ↔ ∀ k, ∀ n ∈ s.encoded o k e, n ≤ 65536 * 512 ∧
      ∀ b ∈ (s.pictures k).block, n ≤ b := by
  refine forall_congr' fun k => ?_
  have hblock : (s.pictures k).block = (s.pictures k).bitStream.addr.map List.length := rfl
  have hiff (payload : List UInt8) := store_inside hdry e.line.malloc (o.encoding payload)
    (s.pictures k).bitStream
  rw [← hblock] at hiff
  unfold encoded
  cases hpayload : s.payload e with
  | none => simp
  | some a =>
      obtain ⟨j, payload⟩ := a
      by_cases hj : j = k
      · subst hj
        simp only [Option.some.injEq, Prod.mk.injEq, true_and, forall_eq', hiff]
        by_cases hreach : e.line.malloc = true ∨ (s.pictures j).block.isSome
        · rw [if_pos hreach]
          simp only [List.mem_singleton, forall_eq]
          exact ⟨fun h => h hreach, fun h _ => h⟩
        · rw [if_neg hreach]
          exact ⟨fun _ _ hn => absurd hn List.not_mem_nil, fun _ h => absurd h hreach⟩
      · simp [hj]

/-! Along a run. -/

theorem Slave.turn_block {o : Options} (hdry : o.dryRun = false) {s s' : Slave} {e : Event}
    (hturn : s.Turn o e s') (k : Fin picturesNumberMax) :
    (s'.pictures k).block = (s.pictures k).block.or (s.encoded o k e).head? := by
  unfold encoded
  cases hpayload : s.payload e with
  | none =>
      rw [Picture.block, turn_no_payload hpayload hturn k]
      exact (Option.or_none).symm
  | some a =>
      obtain ⟨j, payload⟩ := a
      obtain ⟨hstore, hothers⟩ := turn_payload hpayload hturn
      by_cases hj : j = k
      · subst hj
        simp only [true_and]
        simp only [Options.store, hdry, Bool.false_eq_true, if_false] at hstore
        cases haddr : (s.pictures j).bitStream.addr with
        | none =>
            simp only [haddr, Options.allocate, hdry] at hstore
            cases hmalloc : e.line.malloc with
            | false => simp [hmalloc] at hstore
            | true =>
                simp only [hmalloc, if_true, Except.ok.injEq] at hstore
                simp [Picture.block, haddr, ← hstore]
        | some old =>
            simp only [haddr] at hstore
            split at hstore
            case isTrue hle =>
                rw [Except.ok.injEq] at hstore
                simp [Picture.block, haddr, ← hstore, hle]
            case isFalse => contradiction
      · simp [hj, Picture.block, hothers k (Ne.symm hj)]

/-- A bound on the one length of a turn does not depend on later ones. -/
theorem Slave.encoded_bound {o : Options} {s : Slave} {e : Event} {k : Fin picturesNumberMax}
    {n : Nat} (hn : n ∈ s.encoded o k e) (rest : List Nat) :
    (∀ b ∈ (s.pictures k).block, n ≤ b) ↔
      ∀ first ∈ (s.pictures k).block.or (s.encoded o k e ++ rest).head?, n ≤ first := by
  have hone : s.encoded o k e = [n] := by
    unfold encoded at hn ⊢
    split
    · simp_all
    · split <;> simp_all
  cases (s.pictures k).block with
  | none => simp [hone]
  | some b => simp

theorem Slave.lengths_cons (dry : Bool) (k : Fin picturesNumberMax) (s : Slave) (t : CodedEvent)
    (ts : List CodedEvent) : s.lengths dry k (t :: ts) =
      s.encoded (t.options dry) k t.event ++
        (s.next (t.options dry) t.event).elim [] fun s' => s'.lengths dry k ts := rfl

theorem Slave.inside_throughout (s : Slave) (ts : List CodedEvent) :
    EveryStep (Slave.CodedTurn false) (fun s t => s.Inside (t.options false) t.event) s ts ↔
      ∀ k, ∀ n ∈ s.lengths false k ts, n ≤ 65536 * 512 ∧
        ∀ first ∈ (s.pictures k).block.or (s.lengths false k ts).head?, n ≤ first := by
  induction ts generalizing s with
  | nil =>
      refine iff_of_true everyStep_nil ?_
      intro k n hn
      exact absurd hn List.not_mem_nil
  | cons t ts ih =>
      have hdry : (t.options false).dryRun = false := rfl
      rw [everyStep_cons, inside_iff hdry]
      simp only [lengths_cons, List.mem_append]
      cases hnext : s.next (t.options false) t.event with
      | none =>
          have hno : ∀ s₁, ¬ s.CodedTurn false t s₁ := by
            intro s₁ hturn
            rw [CodedTurn, turn_iff_next, hnext] at hturn
            contradiction
          simp only [Option.elim_none]
          rw [and_iff_left fun s₁ hturn => absurd hturn (hno s₁)]
          refine forall_congr' fun k => forall_congr' fun n => ?_
          constructor
          · rintro h (hn | hn)
            · exact ⟨(h hn).1, (encoded_bound hn []).mp (h hn).2⟩
            · exact absurd hn List.not_mem_nil
          · intro h hn
            exact ⟨(h (.inl hn)).1, (encoded_bound hn []).mpr (h (.inl hn)).2⟩
      | some s₁ =>
          have hturn : s.CodedTurn false t s₁ := turn_iff_next.mpr hnext
          have honly : (∀ s', s.CodedTurn false t s' → EveryStep (Slave.CodedTurn false)
                (fun s t => s.Inside (t.options false) t.event) s' ts) ↔
              EveryStep (Slave.CodedTurn false)
                (fun s t => s.Inside (t.options false) t.event) s₁ ts := by
            constructor
            · intro h
              exact h s₁ hturn
            · intro h s' hs'
              rwa [turn_deterministic s t.event s' s₁ hs' hturn]
          have hfirst (k : Fin picturesNumberMax) : (s₁.pictures k).block.or
              (s₁.lengths false k ts).head? = (s.pictures k).block.or
                (s.encoded (t.options false) k t.event ++ s₁.lengths false k ts).head? := by
            rw [turn_block hdry hturn k, Option.or_assoc, List.head?_append]
          simp only [Option.elim_some]
          rw [honly, ih s₁, ← forall_and]
          refine forall_congr' fun k => ?_
          rw [hfirst k, ← forall_and]
          refine forall_congr' fun n => ?_
          constructor
          · rintro ⟨hnow, hlater⟩ (hn | hn)
            · exact ⟨(hnow hn).1, (encoded_bound hn _).mp (hnow hn).2⟩
            · exact hlater hn
          · intro h
            exact ⟨fun hn => ⟨(h (.inl hn)).1, (encoded_bound hn _).mpr (h (.inl hn)).2⟩,
              fun hn => h (.inr hn)⟩

/-- Results stay inside their blocks. A dry run needs each of its allocations to
succeed; otherwise no encoding of a file may be longer than its first, or than
65536 frames. The encoder may change from turn to turn. -/
theorem blocks_suffice_iff (dry : Bool) (ts : List CodedEvent) :
    EveryStep (Slave.CodedTurn dry) (fun s t => s.Inside (t.options dry) t.event) Slave.init ts ↔
      if dry then
        EveryStep (Slave.CodedTurn dry) (fun s t => ∀ k payload,
          s.payload t.event = some (k, payload) →
            t.event.line.malloc = true ∨ payload = []) Slave.init ts
      else ∀ k, ∀ n ∈ Slave.init.lengths dry k ts, n ≤ 65536 * 512 ∧
        ∀ first ∈ (Slave.init.lengths dry k ts).head?, n ≤ first := by
  cases dry with
  | true =>
      rw [if_pos rfl]
      have hdry (t : CodedEvent) : (t.options true).dryRun = true := rfl
      unfold EveryStep
      simp only [Slave.inside_iff_dry (hdry _)]
  | false =>
      rw [if_neg Bool.false_ne_true, Slave.inside_throughout]
      rfl

theorem Picture.payload_oneLine {p : Picture} (byte : UInt8) (hslots : p.slots 1 = [zeroFrame]) :
    p.payload (oneLine byte) 1 = some (List.replicate 512 byte) := by
  have hcalloc : (oneLine byte).calloc = true := rfl
  have hprepare := prepare_calloc p hcalloc 1
  have hready : (oneLine byte).dataReady = true := rfl
  rw [hslots] at hprepare
  simp only [payload, hprepare, hready, oneLine_received, Except.toOption, Option.bind_eq_bind,
    Option.bind_some, if_true]
  exact congrArg Except.toOption (dataFramesToData_full byte)

/-- A full frame of sevens, whose encoding takes this many bytes. -/
def sevens (n : Nat) : CodedEvent :=
  ⟨.ofFrame (sendRequest 0 1) (oneLine 7), fun _ => List.replicate n 0⟩

/-- A second encoding of the same bytes, eight bytes long, for a block of seven. -/
theorem blocks_overflow : ∃ s, Run (Slave.CodedTurn false) Slave.init [sevens 7] s ∧
    ¬ s.Inside ((sevens 8).options false) (sevens 8).event := by
  obtain ⟨s, hturn, hpictures⟩ :=
    Slave.turn_oneLine (o := (sevens 7).options false) (s := Slave.init) (k := 0) 7 rfl (.inr rfl)
  have hstream : (s.pictures 0).bitStream.addr = some (List.replicate 7 0) ∧
      (s.pictures 0).bitStream.len = 7 := by
    rw [hpictures, Function.update_self]
    exact ⟨rfl, rfl⟩
  have hslots : (s.pictures 0).slots 1 = [zeroFrame] := by
    rw [Picture.slots, Picture.kept, if_pos (by rw [hstream.2]; decide)]
    rfl
  have hpayload : s.payload (sevens 8).event = some (0, List.replicate 512 7) := by
    have hacc := Event.ofFrame_accepted (k := 0) 1 (oneLine 7) (show fileIndex 0 = some 0 from rfl)
      rfl
    have hline : (Event.ofFrame (sendRequest 0 1) (oneLine 7)).line = oneLine 7 := rfl
    simp only [sevens, Slave.payload, hacc, hline, Option.bind_eq_bind, Option.bind_some,
      Picture.payload_oneLine 7 hslots, Option.pure_def]
  have henc : ((sevens 8).options false).encoding (List.replicate 512 7) = List.replicate 8 0 := rfl
  refine ⟨s, .cons hturn (.nil s), ?_⟩
  intro h
  refine (h 0 _ hpayload).1 ?_
  simp only [Options.store, hstream.1, henc]
  rfl

end Soc
