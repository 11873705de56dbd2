import Mathlib.Algebra.GroupWithZero.Nat
import Soc.Foundation.Clocked

/-!
A server behind a buffer of one place.

The server is busy for a period with each item it takes. An item that arrives while the
place is taken and the server is busy replaces the one that waits. The work ahead, the
clocks until the last item is done, tells when that happens; over a stream of items it
happens only when some stretch of them comes faster than the server can follow.
-/
namespace Backlog
open Clocked
variable {α : Type}

structure Server (α : Type) where
  held : Option α
  busy : Nat

namespace Server

def empty : Server α := { held := none, busy := 0 }

/-- The item the server takes. -/
def taken (s : Server α) : Option α := if s.busy = 0 then s.held else none

/-- One clock, with what arrives in it. -/
def serve (period : Nat) (s : Server α) (arrival : Option α) : Server α :=
  { held := arrival.or (if s.busy = 0 then none else s.held)
    busy := if s.taken.isSome then period else s.busy - 1 }

/-- The arrival replaces an item that waits. -/
def Overrun (s : Server α) (arrival : Option α) : Prop :=
  arrival.isSome ∧ s.held.isSome ∧ s.busy ≠ 0

/-- The clocks until everything is done. -/
def work (period : Nat) (s : Server α) : Nat :=
  s.busy + if s.held.isSome then period + 1 else 0

variable {period : Nat} {s : Server α} {a : α} {arrival : Option α}

theorem serve_busy (h : s.busy ≤ period) : (s.serve period arrival).busy ≤ period := by
  simp only [serve]
  split <;> omega

theorem work_quiet : (s.serve period none).work period = s.work period - 1 := by
  cases hheld : s.held <;> by_cases hbusy : s.busy = 0 <;>
    simp [work, serve, taken, hheld, hbusy]
  omega

theorem work_arrival (h : ¬s.Overrun (some a)) :
    (s.serve period (some a)).work period = s.work period - 1 + (period + 1) := by
  cases hheld : s.held <;> by_cases hbusy : s.busy = 0 <;>
    simp_all [work, serve, taken, Overrun]

theorem overrun_iff (h : s.busy ≤ period) : s.Overrun (some a) ↔ period + 1 < s.work period := by
  cases hheld : s.held with
  | none =>
      have hwork : s.work period = s.busy := by simp [work, hheld]
      have hfree : ¬s.Overrun (some a) := fun hover => by simpa [hheld] using hover.2.1
      rw [hwork]
      exact iff_of_false hfree (by omega)
  | some b =>
      have hwork : s.work period = s.busy + (period + 1) := by simp [work, hheld]
      have hover : s.Overrun (some a) ↔ s.busy ≠ 0 := by simp [Overrun, hheld]
      rw [hwork, hover]
      omega

theorem held_eq_none (h : s.work period = 0) : s.held = none := by
  cases hheld : s.held with
  | none => rfl
  | some a => simp [work, hheld] at h

/-- Without an overrun every item is taken or still there. -/
theorem serve_kept (h : ¬s.Overrun arrival) :
    s.taken.toList ++ (s.serve period arrival).held.toList =
      s.held.toList ++ arrival.toList := by
  cases hheld : s.held <;> cases harrival : arrival <;> by_cases hbusy : s.busy = 0 <;>
    simp_all [serve, taken, Overrun]

theorem serve_length_le (period : Nat) (s : Server α) (arrival : Option α) :
    s.taken.toList.length + (s.serve period arrival).held.toList.length ≤
      s.held.toList.length + arrival.toList.length := by
  cases hheld : s.held <;> cases harrival : arrival <;> by_cases hbusy : s.busy = 0 <;>
    simp [serve, taken, hheld, hbusy]

theorem serve_lost (period : Nat) (h : s.Overrun arrival) :
    s.taken.toList.length + (s.serve period arrival).held.toList.length <
      s.held.toList.length + arrival.toList.length := by
  cases hheld : s.held <;> cases harrival : arrival <;> by_cases hbusy : s.busy = 0 <;>
    simp_all [serve, taken, Overrun]

end Server

/-! Runs. -/

section Runs
variable {period : Nat} {start : Server α} {arrivals : Nat → Option α}

/-- The server at each clock. -/
def serving (period : Nat) (start : Server α) (arrivals : Nat → Option α) : Nat → Server α :=
  registers (Server.serve period) start arrivals

def Lossless (period : Nat) (start : Server α) (arrivals : Nat → Option α) : Prop :=
  ∀ t, ¬(serving period start arrivals t).Overrun (arrivals t)

theorem serving_succ (t : Nat) : serving period start arrivals (t + 1) =
    (serving period start arrivals t).serve period (arrivals t) := rfl

theorem emitted_lossless (h : Lossless period start arrivals) (n : Nat) :
    emitted (fun t => (serving period start arrivals t).taken) n ++
        (serving period start arrivals n).held.toList =
      start.held.toList ++ emitted arrivals n := by
  induction n with
  | zero => simp [serving]
  | succ n ih =>
      rw [emitted_succ, emitted_succ, serving_succ, List.append_assoc, Server.serve_kept (h n),
        ← List.append_assoc, ih, List.append_assoc]

theorem emitted_length_le (period : Nat) (start : Server α) (arrivals : Nat → Option α) (n : Nat) :
    (emitted (fun t => (serving period start arrivals t).taken) n).length +
        (serving period start arrivals n).held.toList.length ≤
      start.held.toList.length + (emitted arrivals n).length := by
  induction n with
  | zero => simp [serving]
  | succ n ih =>
      have hstep := (serving period start arrivals n).serve_length_le period (arrivals n)
      rw [emitted_succ, emitted_succ, serving_succ, List.length_append, List.length_append]
      omega

/-- After an overrun fewer items are taken than have arrived. -/
theorem emitted_lost {t n : Nat} (h : (serving period start arrivals t).Overrun (arrivals t))
    (ht : t < n) :
    (emitted (fun t => (serving period start arrivals t).taken) n).length <
      start.held.toList.length + (emitted arrivals n).length := by
  suffices (emitted (fun t => (serving period start arrivals t).taken) n).length +
      (serving period start arrivals n).held.toList.length <
        start.held.toList.length + (emitted arrivals n).length by omega
  induction ht with
  | refl =>
      have hbefore := emitted_length_le period start arrivals t
      have hstep := Server.serve_lost period h
      rw [emitted_succ, emitted_succ, serving_succ, List.length_append, List.length_append]
      omega
  | step _ ih =>
      rename_i n _
      have hstep := (serving period start arrivals n).serve_length_le period (arrivals n)
      rw [emitted_succ, emitted_succ, serving_succ, List.length_append, List.length_append]
      omega

theorem serving_busy (h : start.busy ≤ period) (t : Nat) :
    (serving period start arrivals t).busy ≤ period := by
  induction t with
  | zero => exact h
  | succ t ih => exact Server.serve_busy ih

theorem serving_quiet {n : Nat} (h : ∀ t < n, arrivals t = none) :
    (serving period start arrivals n).work period = start.work period - n := by
  induction n with
  | zero => rfl
  | succ n ih =>
      rw [serving_succ, h n (Nat.lt_succ_self n), Server.work_quiet,
        ih fun t ht => h t (Nat.lt_succ_of_lt ht), Nat.sub_sub]

end Runs

/-! Streams of items, each with the quiet clocks before it. -/

def spread : List (Nat × α) → Nat → Option α
  | [], _ => none
  | (gap, a) :: items, t =>
    if t < gap then none else if t = gap then some a else spread items (t - (gap + 1))

section Streams
variable {gap t : Nat} {a : α} {items : List (Nat × α)}

theorem spread_quiet (h : t < gap) : spread ((gap, a) :: items) t = none := if_pos h

theorem spread_gap : spread ((gap, a) :: items) gap = some a := by simp [spread]

theorem spread_later (t : Nat) : spread ((gap, a) :: items) (gap + 1 + t) = spread items t := by
  rw [spread, if_neg (by omega), if_neg (by omega), Nat.add_sub_cancel_left]

theorem spread_delayed (delay t : Nat) :
    spread ((gap + delay, a) :: items) (t + delay) = spread ((gap, a) :: items) t := by
  simp only [spread, Nat.add_lt_add_iff_right, Nat.add_right_cancel_iff]
  rw [Nat.add_right_comm, Nat.add_sub_add_right]

/-- The clocks until all items have come. -/
def span : List (Nat × α) → Nat
  | [] => 0
  | (gap, _) :: items => gap + 1 + span items

theorem spread_span (items : List (Nat × α)) (t : Nat) : spread items (span items + t) = none := by
  induction items with
  | nil => rfl
  | cons item items ih => rw [span, Nat.add_assoc, spread_later, ih]

/-- The items come in order, each once. -/
theorem emitted_spread (items : List (Nat × α)) (m : Nat) :
    emitted (spread items) (span items + m) = items.map Prod.snd := by
  induction items with
  | nil => exact emitted_silent fun _ _ => rfl
  | cons item items ih =>
      obtain ⟨gap, a⟩ := item
      rw [span, Nat.add_assoc, emitted_add, emitted_succ, emitted_silent fun t => spread_quiet,
        spread_gap]
      simp only [spread_later]
      rw [ih]
      rfl

end Streams

/-- No item comes while the work ahead exceeds a period. -/
def Follows (period : Nat) : Nat → List Nat → Prop
  | _, [] => True
  | work, gap :: gaps =>
    work - gap ≤ period + 1 ∧ Follows period (work - (gap + 1) + (period + 1)) gaps

section Spread
variable {period gap : Nat} {start : Server α} {a : α} {items : List (Nat × α)}

theorem serving_gap :
    (serving period start (spread ((gap, a) :: items)) gap).work period =
      start.work period - gap :=
  serving_quiet fun _ => spread_quiet

theorem serving_later (t : Nat) :
    serving period start (spread ((gap, a) :: items)) (gap + 1 + t) =
      serving period (serving period start (spread ((gap, a) :: items)) (gap + 1)) (spread items)
        t := by
  simp only [serving, registers_add _ t, spread_later]

/-- A stream is followed when its first item is and, from then on, the others are. -/
theorem lossless_cons (h : start.busy ≤ period) :
    Lossless period start (spread ((gap, a) :: items)) ↔
      start.work period - gap ≤ period + 1 ∧
        Lossless period (serving period start (spread ((gap, a) :: items)) (gap + 1))
          (spread items) := by
  have hfirst : (serving period start (spread ((gap, a) :: items)) gap).Overrun (some a) ↔
      period + 1 < start.work period - gap := by
    rw [Server.overrun_iff (serving_busy h gap), serving_gap]
  constructor
  · intro hlossless
    refine ⟨Nat.not_lt.mp fun hover => hlossless gap ?_, fun t hover => ?_⟩
    · rw [spread_gap]
      exact hfirst.mpr hover
    · refine hlossless (gap + 1 + t) ?_
      rw [serving_later, spread_later]
      exact hover
  · intro ⟨hnow, hlater⟩ t hover
    by_cases hquiet : t < gap
    · rw [spread_quiet hquiet] at hover
      exact absurd hover.1 nofun
    · by_cases hgap : t = gap
      · rw [hgap, spread_gap] at hover
        exact absurd (hfirst.mp hover) (Nat.not_lt.mpr hnow)
      · obtain ⟨t, rfl⟩ := Nat.exists_eq_add_of_le (show gap + 1 ≤ t by omega)
        rw [serving_later, spread_later] at hover
        exact hlater t hover

theorem work_next (h : start.busy ≤ period) (hnow : start.work period - gap ≤ period + 1) :
    (serving period start (spread ((gap, a) :: items)) (gap + 1)).work period =
      start.work period - (gap + 1) + (period + 1) := by
  have hover : ¬(serving period start (spread ((gap, a) :: items)) gap).Overrun (some a) := by
    rw [Server.overrun_iff (serving_busy h gap), serving_gap]
    exact Nat.not_lt.mpr hnow
  rw [serving_succ, spread_gap, Server.work_arrival hover, serving_gap, Nat.sub_sub]

end Spread

theorem lossless_spread {period : Nat} {start : Server α} (h : start.busy ≤ period)
    (items : List (Nat × α)) :
    Lossless period start (spread items) ↔
      Follows period (start.work period) (items.map Prod.fst) := by
  induction items generalizing start with
  | nil =>
      simp only [List.map_nil, Follows, iff_true]
      intro t hover
      exact absurd hover.1 nofun
  | cons item items ih =>
      obtain ⟨gap, a⟩ := item
      rw [lossless_cons h, List.map_cons, Follows]
      refine and_congr_right fun hnow => ?_
      rw [ih (serving_busy h _), work_next h hnow]

/-! The lag is the work ahead right after an item has come, less than for the item alone. An
item takes one clock more than a period, so each item adds one and idle clocks before it
take away. -/

def LagsBelow (bound : Nat) : Nat → List Nat → Prop
  | _, [] => True
  | lag, idle :: idles => lag + 1 - idle ≤ bound ∧ LagsBelow bound (lag + 1 - idle) idles

theorem follows_iff_lagsBelow {period : Nat} (h : 0 < period) (lag : Nat) (idles : List Nat) :
    Follows period (lag + (period + 1)) (idles.map fun idle => period - 1 + idle) ↔
      LagsBelow period lag idles := by
  induction idles generalizing lag with
  | nil => exact Iff.rfl
  | cons idle idles ih =>
      have hnow : lag + (period + 1) - (period - 1 + idle) ≤ period + 1 ↔
          lag + 1 - idle ≤ period := by omega
      have hnext : lag + (period + 1) - (period - 1 + idle + 1) + (period + 1) =
          lag + 1 - idle + (period + 1) := by omega
      rw [List.map_cons, Follows, LagsBelow, hnow, hnext, ih]

/-- Every stretch leaves the lag within its bound. -/
theorem lagsBelow_iff {bound lag : Nat} (h : lag ≤ bound) (idles : List Nat) :
    LagsBelow bound lag idles ↔
      (∀ stretch, stretch <+: idles → lag + stretch.length ≤ bound + stretch.sum) ∧
        ∀ stretch, stretch <:+: idles → stretch.length ≤ bound + stretch.sum := by
  induction idles generalizing lag with
  | nil => simp [LagsBelow, h]
  | cons idle idles ih =>
      rw [LagsBelow]
      constructor
      · intro ⟨hnow, hlater⟩
        obtain ⟨hhead, hinfix⟩ := (ih hnow).mp hlater
        refine ⟨fun stretch hstretch => ?_, fun stretch hstretch => ?_⟩
        · cases List.prefix_cons_iff.mp hstretch with
          | inl hnil => simpa [hnil] using h
          | inr hcons =>
              obtain ⟨rest, rfl, hrest⟩ := hcons
              have := hhead rest hrest
              simp only [List.length_cons, List.sum_cons]
              omega
        · cases List.infix_cons_iff.mp hstretch with
          | inl hstretch =>
              cases List.prefix_cons_iff.mp hstretch with
              | inl hnil => simp [hnil]
              | inr hcons =>
                  obtain ⟨rest, rfl, hrest⟩ := hcons
                  have := hhead rest hrest
                  simp only [List.length_cons, List.sum_cons]
                  omega
          | inr hstretch => exact hinfix stretch hstretch
      · intro ⟨hhead, hinfix⟩
        have hnow : lag + 1 - idle ≤ bound := by
          have := hhead [idle] ⟨idles, rfl⟩
          simp only [List.length_singleton, List.sum_singleton] at this
          omega
        refine ⟨hnow, (ih hnow).mpr ⟨fun stretch hstretch => ?_, fun stretch hstretch => ?_⟩⟩
        · have hfirst := hhead (idle :: stretch) (List.prefix_cons_inj idle |>.mpr hstretch)
          have hrest := hinfix stretch (hstretch.isInfix.trans (List.suffix_cons ..).isInfix)
          simp only [List.length_cons, List.sum_cons] at hfirst
          omega
        · exact hinfix stretch (hstretch.trans (List.suffix_cons ..).isInfix)

/-- A stream of items, each after some idle clocks more than the server is busy with one, is
followed exactly when no stretch of it has more items than a period and its idle clocks
have room for. -/
theorem lossless_iff {period : Nat} (h : 0 < period) (gap : Nat) (a : α)
    (items : List (Nat × α)) :
    Lossless period .empty
        (spread ((gap, a) :: items.map fun item => (period - 1 + item.1, item.2))) ↔
      ∀ stretch, stretch <:+: items.map Prod.fst → stretch.length ≤ period + stretch.sum := by
  have hgaps : (items.map fun item => (period - 1 + item.1, item.2)).map Prod.fst =
      (items.map Prod.fst).map fun idle => period - 1 + idle := by
    simp [Function.comp_def]
  have hnow : (Server.empty : Server α).work period - gap ≤ period + 1 := by
    simp [Server.work, Server.empty]
  have hnext : (Server.empty : Server α).work period - (gap + 1) + (period + 1) =
      0 + (period + 1) := by
    simp [Server.work, Server.empty]
  rw [lossless_spread (Nat.zero_le _), List.map_cons, Follows, hnext, hgaps,
    follows_iff_lagsBelow h, lagsBelow_iff (Nat.zero_le _), and_iff_right hnow]
  constructor
  · intro ⟨_, hinfix⟩
    exact hinfix
  · intro hinfix
    refine ⟨fun stretch hstretch => ?_, hinfix⟩
    rw [Nat.zero_add]
    exact hinfix stretch hstretch.isInfix

/-- Every item is taken, once and in order, exactly when none is replaced. -/
theorem delivered_iff {period : Nat} (items : List (Nat × α)) :
    (∃ n, ∀ m ≥ n, emitted (fun t => (serving period .empty (spread items) t).taken) m =
        items.map Prod.snd) ↔
      Lossless period .empty (spread items) := by
  constructor
  · intro ⟨n, hn⟩ t hover
    have hall := hn (span items + (n + (t + 1))) (by omega)
    have hlost := emitted_lost hover (show t < span items + (n + (t + 1)) by omega)
    rw [hall, emitted_spread] at hlost
    exact absurd hlost (by simp [Server.empty])
  · intro hlossless
    let s := serving period .empty (spread items) (span items)
    refine ⟨span items + s.work period, fun m hm => ?_⟩
    obtain ⟨m, rfl⟩ := Nat.exists_eq_add_of_le (Nat.le_of_add_right_le hm)
    have hdone : (serving period .empty (spread items) (span items + m)).work period = 0 := by
      rw [serving, registers_add]
      exact (serving_quiet fun t _ => spread_span items t).trans
        (Nat.sub_eq_zero_of_le (Nat.le_of_add_le_add_left hm))
    have hkept := emitted_lossless hlossless (span items + m)
    rw [emitted_spread, Server.held_eq_none hdone] at hkept
    simpa [Server.empty] using hkept

end Backlog
