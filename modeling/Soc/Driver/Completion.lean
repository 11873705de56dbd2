import Soc.Foundation.Runs
import Mathlib.Logic.Function.Basic

/-!
Who waits for which interrupt.

A call that waits puts a completion on its own stack and the address of it into one
shared pointer; the interrupt handler completes whatever the pointer holds. Nothing
takes the address out again, and nothing is there before the first call. The
accelerator is started by one call and waited for by a later one, so that its interrupt
can come before the later call has put its completion there, or after it has given up.
-/
namespace Soc
open Runs

/-- The functions that wait: `acc_complete`, and the two burst loops. -/
inductive CallKind where
  | get
  | transfer
  deriving DecidableEq

inductive CallPhase where
  /-- called, and no completion is installed -/
  | running
  /-- `init_completion` is done and the address is in the shared pointer -/
  | installed
  /-- in `wait_for_completion_timeout`, on the completion of some call -/
  | waiting (target : Nat)
  /-- the wait has returned: because of the completion, or of the timeout -/
  | woken (completed : Bool)
  | returned (completed : Bool)
  deriving DecidableEq

/-- A call, with the `done` of the completion on its stack. -/
structure WaitingCall where
  kind : CallKind
  phase : CallPhase
  done : Nat

/-- What `get_irq` can read. An interrupt of the accelerator is for the START before the
call of this number. -/
inductive Interrupt where
  | mm2sPsDone
  | s2mmPsDone
  | mm2sPlDone
  | s2mmPlDone
  | reqDataDone
  | readResultDone
  | ddrRwDone
  | networkAccDone (start : Nat)
  deriving DecidableEq

/-- The calls by number, how many there are, and `axitangxi_irq_data.comp`. The
accelerator has STARTs whose interrupt is still to come, and some whose interrupt came. -/
structure IrqState where
  comp : Option Nat
  calls : Nat → WaitingCall
  count : Nat
  armed : List Nat
  raised : List Nat

def IrqState.init : IrqState :=
  { comp := none
    calls := fun _ => { kind := .transfer, phase := .returned true, done := 0 }
    count := 0
    armed := []
    raised := [] }

inductive IrqEvent where
  /-- `NETWORK_ACC_START` -/
  | start
  | interrupt (irq : Interrupt)
  /-- `NETWORK_ACC_GET`, or a transfer -/
  | call (kind : CallKind)
  | install (i : Nat)
  | wait (i : Nat)
  | wake (i : Nat)
  | timeout (i : Nat)
  | leave (i : Nat)
  deriving DecidableEq

namespace IrqState

def set (s : IrqState) (i : Nat) (c : WaitingCall) : IrqState :=
  { s with calls := Function.update s.calls i c }

def setPhase (s : IrqState) (i : Nat) (phase : CallPhase) : IrqState :=
  s.set i { s.calls i with phase }

def setDone (s : IrqState) (i : Nat) (done : Nat) : IrqState :=
  s.set i { s.calls i with done }

def raise (s : IrqState) (m : Nat) : IrqState :=
  { s with armed := s.armed.erase m, raised := m :: s.raised }

/-- `complete`. There is nothing to count at NULL. -/
def complete (s : IrqState) : IrqState :=
  match s.comp with
  | none => s
  | some i => s.setDone i ((s.calls i).done + 1)

end IrqState

def Interrupt.completes : Interrupt → Bool
  | .s2mmPsDone | .s2mmPlDone | .networkAccDone _ => true
  | _ => false

/-- The interrupts that end a burst. -/
def Interrupt.ofBurst (irq : Interrupt) : Prop := irq = .s2mmPsDone ∨ irq = .s2mmPlDone

/-- `irq_handler` -/
def irqHandler (s : IrqState) (irq : Interrupt) : IrqState :=
  if irq.completes then s.complete else s

/-- A call installs its completion once, or once a burst. -/
def WaitingCall.MayInstall (c : WaitingCall) : Prop :=
  c.phase = .running ∨ c.kind = .transfer ∧ ∃ completed, c.phase = .woken completed

/-- A call returns after its wait; a transfer of no bytes returns at once. -/
def WaitingCall.MayReturn (c : WaitingCall) (completed : Bool) : Prop :=
  c.phase = .woken completed ∨ c.kind = .transfer ∧ c.phase = .running

/-- The steps of the driver and of the hardware. Every wait reads the shared pointer
again. -/
inductive IrqStep : IrqState → IrqEvent → IrqState → Prop where
  | start (s : IrqState) : IrqStep s .start { s with armed := s.count :: s.armed }
  | interrupt {s : IrqState} {irq : Interrupt} (hirq : ∀ m, irq ≠ .networkAccDone m) :
      IrqStep s (.interrupt irq) (irqHandler s irq)
  | networkAccDone {s : IrqState} {m : Nat} (harmed : m ∈ s.armed) :
      IrqStep s (.interrupt (.networkAccDone m))
        (irqHandler (s.raise m) (.networkAccDone m))
  | call (s : IrqState) (kind : CallKind) :
      IrqStep s (.call kind)
        ({ s with count := s.count + 1 }.set s.count { kind, phase := .running, done := 0 })
  | install {s : IrqState} {i : Nat} (hmay : (s.calls i).MayInstall) :
      IrqStep s (.install i)
        ({ s with comp := some i }.set i { s.calls i with phase := .installed, done := 0 })
  | wait {s : IrqState} {i target : Nat} (hphase : (s.calls i).phase = .installed)
      (hcomp : s.comp = some target) : IrqStep s (.wait i) (s.setPhase i (.waiting target))
  | wake {s : IrqState} {i target : Nat} (hphase : (s.calls i).phase = .waiting target)
      (hdone : 0 < (s.calls target).done) :
      IrqStep s (.wake i)
        ((s.setDone target ((s.calls target).done - 1)).setPhase i (.woken true))
  | timeout {s : IrqState} {i target : Nat} (hphase : (s.calls i).phase = .waiting target)
      (hdone : (s.calls target).done = 0) : IrqStep s (.timeout i) (s.setPhase i (.woken false))
  | leave {s : IrqState} {i : Nat} {completed : Bool} (hmay : (s.calls i).MayReturn completed) :
      IrqStep s (.leave i) (s.setPhase i (.returned completed))

namespace IrqState
variable {s s' : IrqState} {e : IrqEvent} {i m : Nat}

/-- The call has not returned, so that its completion is still there. -/
def InCall (s : IrqState) (i : Nat) : Prop := ∀ completed, (s.calls i).phase ≠ .returned completed

/-- The first GET after a START. -/
def Follows (s : IrqState) (m i : Nat) : Prop :=
  m ≤ i ∧ i < s.count ∧ (s.calls i).kind = .get ∧
    ∀ j, m ≤ j → j < i → (s.calls j).kind ≠ .get

/-- What is completed is the completion of a call that has not returned. -/
def Live (s : IrqState) : IrqEvent → Prop
  | .interrupt irq => irq.completes = true → ∃ i, s.comp = some i ∧ s.InCall i
  | _ => True

/-- The GET after a START whose interrupt came has not given up, and a wait of it is
about to return because of the completion. -/
def Observed (s : IrqState) : Prop :=
  ∀ m ∈ s.raised, ∀ i, s.Follows m i →
    (s.calls i).phase ≠ .woken false ∧ (s.calls i).phase ≠ .returned false ∧
      ∀ target, (s.calls i).phase = .waiting target → 0 < (s.calls target).done

/-- The interrupt of the accelerator comes while the call whose completion is installed is the next
GET and has not been woken. A call waits before another one has put its own completion in the
pointer. -/
def Timely (s : IrqState) : IrqEvent → Prop
  | .interrupt (.networkAccDone m) => ∃ i, s.comp = some i ∧ s.Follows m i ∧
      ((s.calls i).phase = .installed ∨ ∃ target, (s.calls i).phase = .waiting target)
  | .wait i => s.comp = some i
  | _ => True

theorem Timely.live (h : s.Timely (.interrupt (.networkAccDone m))) :
    s.Live (.interrupt (.networkAccDone m)) := by
  intro _
  obtain ⟨i, hcomp, -, hphase⟩ := h
  refine ⟨i, hcomp, ?_⟩
  intro completed hreturned
  rw [hreturned] at hphase
  rcases hphase with hphase | ⟨target, hphase⟩ <;> contradiction

/-! What the steps do to one call. -/

@[simp] theorem set_calls_self (c : WaitingCall) : (s.set i c).calls i = c :=
  Function.update_self ..

theorem set_calls_ne {j : Nat} (h : j ≠ i) (c : WaitingCall) :
    (s.set i c).calls j = s.calls j := Function.update_of_ne h ..

theorem setPhase_calls_self (phase : CallPhase) :
    (s.setPhase i phase).calls i = { s.calls i with phase } := set_calls_self _

theorem setPhase_calls_ne {j : Nat} (h : j ≠ i) (phase : CallPhase) :
    (s.setPhase i phase).calls j = s.calls j := set_calls_ne h _

theorem setDone_calls_self (done : Nat) :
    (s.setDone i done).calls i = { s.calls i with done } := set_calls_self _

theorem setDone_calls_ne {j : Nat} (h : j ≠ i) (done : Nat) :
    (s.setDone i done).calls j = s.calls j := set_calls_ne h _

/-- The handler only counts, for the call in the pointer. -/
theorem irqHandler_calls (s : IrqState) (irq : Interrupt) (j : Nat) :
    ∃ n, (irqHandler s irq).calls j = { s.calls j with done := (s.calls j).done + n } ∧
      (irq.completes = true → s.comp = some j → n = 1) := by
  rw [irqHandler, complete]
  split
  · split
    · next hcomp => exact ⟨0, rfl, fun _ heq => absurd (hcomp.symm.trans heq) nofun⟩
    · next i hcomp =>
      by_cases h : j = i
      · rw [h]
        exact ⟨1, setDone_calls_self _, fun _ _ => rfl⟩
      · refine ⟨0, setDone_calls_ne h _, ?_⟩
        intro _ heq
        exact absurd (Option.some.inj (heq.symm.trans hcomp)) h
  · next hnone => exact ⟨0, rfl, fun hcompletes => absurd hcompletes hnone⟩

theorem irqHandler_fields (s : IrqState) (irq : Interrupt) :
    (irqHandler s irq).count = s.count ∧ (irqHandler s irq).raised = s.raised := by
  rw [irqHandler, complete]
  split
  · split <;> exact ⟨rfl, rfl⟩
  · exact ⟨rfl, rfl⟩

theorem irqHandler_comp (s : IrqState) (irq : Interrupt) : (irqHandler s irq).comp = s.comp := by
  rw [irqHandler, complete]
  split
  · split <;> rfl
  · rfl

theorem irqHandler_inCall (s : IrqState) (irq : Interrupt) (j : Nat) :
    (irqHandler s irq).InCall j ↔ s.InCall j := by
  obtain ⟨n, hcalls, -⟩ := irqHandler_calls s irq j
  rw [InCall, hcalls]
  rfl

theorem set_inCall {c : WaitingCall} (hc : ∀ completed, c.phase ≠ .returned completed) (j : Nat) :
    (s.set i c).InCall j ↔ j = i ∨ s.InCall j := by
  by_cases h : j = i
  · rw [InCall, h, set_calls_self]
    exact iff_of_true hc (.inl rfl)
  · rw [InCall, set_calls_ne h]
    exact (or_iff_right h).symm

theorem setDone_inCall (done j : Nat) : (s.setDone i done).InCall j ↔ s.InCall j := by
  by_cases h : j = i
  · rw [InCall, h, setDone_calls_self]
    rfl
  · rw [InCall, setDone_calls_ne h]
    rfl

/-- A call that goes on is no more and no less in its function. -/
theorem setPhase_inCall {phase : CallPhase} (hphase : ∀ completed, phase ≠ .returned completed)
    (h : s.InCall i) (j : Nat) : (s.setPhase i phase).InCall j ↔ s.InCall j := by
  rw [setPhase, set_inCall hphase]
  refine or_iff_right_of_imp ?_
  rintro rfl
  exact h

theorem set_kind {c : WaitingCall} (hc : c.kind = (s.calls i).kind) (j : Nat) :
    ((s.set i c).calls j).kind = (s.calls j).kind := by
  by_cases h : j = i
  · rw [h, set_calls_self, hc]
  · rw [set_calls_ne h]

theorem setPhase_kind (phase : CallPhase) (j : Nat) :
    ((s.setPhase i phase).calls j).kind = (s.calls j).kind := set_kind (by rfl) j

theorem setDone_kind (done j : Nat) :
    ((s.setDone i done).calls j).kind = (s.calls j).kind := set_kind (by rfl) j

theorem step_count_le (h : IrqStep s e s') : s.count ≤ s'.count := by
  cases h with
  | interrupt => exact Nat.le_of_eq (irqHandler_fields _ _).1.symm
  | @networkAccDone m => exact Nat.le_of_eq (irqHandler_fields (s.raise m) _).1.symm
  | call => exact Nat.le_succ _
  | start | install | wait | wake | timeout | leave => exact Nat.le_refl _

theorem step_kind (h : IrqStep s e s') {j : Nat} (hj : j < s.count) :
    (s'.calls j).kind = (s.calls j).kind := by
  cases h with
  | start => rfl
  | interrupt =>
      obtain ⟨n, hcalls, -⟩ := irqHandler_calls _ _ j
      rw [hcalls]
  | @networkAccDone m =>
      obtain ⟨n, hcalls, -⟩ := irqHandler_calls (s.raise m) (.networkAccDone m) j
      rw [hcalls]
      rfl
  | call => rw [set_calls_ne (Nat.ne_of_lt hj)]
  | @install i => exact set_kind (s := { s with comp := some i }) (by rfl) j
  | wait | timeout | leave => exact setPhase_kind _ j
  | @wake i target => rw [setPhase_kind, setDone_kind]

theorem Follows.step (h : s.Follows m i) (hstep : IrqStep s e s') : s'.Follows m i := by
  obtain ⟨hle, hlt, hget, hfirst⟩ := h
  refine ⟨hle, Nat.lt_of_lt_of_le hlt (step_count_le hstep), ?_, ?_⟩
  · rw [step_kind hstep hlt, hget]
  · intro j hj hji
    rw [step_kind hstep (Nat.lt_trans hji hlt)]
    exact hfirst j hj hji

theorem Follows.unique {j : Nat} (h : s.Follows m i) (h' : s.Follows m j) : i = j := by
  rcases Nat.lt_trichotomy i j with hlt | heq | hlt
  · exact absurd h.2.2.1 (h'.2.2.2 i h.1 hlt)
  · exact heq
  · exact absurd h'.2.2.1 (h.2.2.2 j h'.1 hlt)

/-! What holds in a run of timely steps. -/

end IrqState

/-- The completion of the call has been signalled, and its wait has not ended for another
reason. -/
def WaitingCall.Signalled (c : WaitingCall) : Prop :=
  c.phase = .woken true ∨ c.phase = .returned true ∨
    0 < c.done ∧ (c.phase = .installed ∨ ∃ target, c.phase = .waiting target)

namespace WaitingCall.Signalled
variable {c : WaitingCall}

theorem not_running (h : c.Signalled) : c.phase ≠ .running := by
  intro hphase
  rw [Signalled, hphase] at h
  rcases h with h | h | ⟨-, h | ⟨target, h⟩⟩ <;> contradiction

theorem not_mayInstall (h : c.Signalled) (hget : c.kind = .get) : ¬ c.MayInstall := by
  rintro (hrunning | ⟨htransfer, -⟩)
  · exact h.not_running hrunning
  · exact absurd (hget.symm.trans htransfer) nofun

theorem done_pos (h : c.Signalled)
    (hphase : c.phase = .installed ∨ ∃ target, c.phase = .waiting target) : 0 < c.done := by
  rcases h with hended | hended | ⟨hdone, -⟩
  · rcases hphase with hphase | ⟨target, hphase⟩ <;> exact absurd (hended.symm.trans hphase) nofun
  · rcases hphase with hphase | ⟨target, hphase⟩ <;> exact absurd (hended.symm.trans hphase) nofun
  · exact hdone

theorem mayReturn (h : c.Signalled) (hget : c.kind = .get) {completed : Bool}
    (hmay : c.MayReturn completed) : completed = true := by
  rcases hmay with hwoken | ⟨htransfer, -⟩
  · rw [Signalled, hwoken] at h
    rcases h with h | h | ⟨-, h | ⟨target, h⟩⟩
    · exact CallPhase.woken.inj h
    · contradiction
    · contradiction
    · contradiction
  · exact absurd (hget.symm.trans htransfer) nofun

end WaitingCall.Signalled

namespace IrqState
variable {s s' : IrqState} {e : IrqEvent} {i m : Nat}

/-- Every call waits on its own completion. -/
def Own (s : IrqState) : Prop := ∀ i target, (s.calls i).phase = .waiting target → target = i

/-- The GET after every START whose interrupt came has been signalled. -/
structure Good (s : IrqState) : Prop where
  own : s.Own
  signalled : ∀ m ∈ s.raised, ∃ i, s.Follows m i ∧ (s.calls i).Signalled

theorem Own.set {c : WaitingCall} (h : s.Own)
    (hc : ∀ target, c.phase = .waiting target → target = i) : (s.set i c).Own := by
  intro j target hphase
  by_cases hji : j = i
  · subst hji
    rw [set_calls_self] at hphase
    exact hc target hphase
  · rw [set_calls_ne hji] at hphase
    exact h j target hphase

theorem Own.setDone (h : s.Own) (i done : Nat) : (s.setDone i done).Own :=
  h.set (fun target heq => h i target heq)

theorem Own.irqHandler (h : s.Own) (irq : Interrupt) : (irqHandler s irq).Own := by
  intro j target hphase
  obtain ⟨n, hcalls, -⟩ := irqHandler_calls s irq j
  rw [hcalls] at hphase
  exact h j target hphase

theorem Own.step (h : s.Own) (htimely : s.Timely e) (hstep : IrqStep s e s') : s'.Own := by
  cases hstep with
  | start => exact h
  | interrupt => exact h.irqHandler _
  | @networkAccDone m => exact Own.irqHandler (s := s.raise m) h _
  | call => exact Own.set h nofun
  | install => exact Own.set h nofun
  | @wait i target hphase hcomp =>
      refine h.set ?_
      intro target' heq
      have hown : s.comp = some i := htimely
      have htarget : target = i := Option.some.inj (hcomp.symm.trans hown)
      rw [← CallPhase.waiting.inj heq, htarget]
  | @wake i target hphase => exact Own.set (h.setDone target _) nofun
  | timeout => exact h.set nofun
  | leave => exact h.set nofun

theorem signalled_irqHandler (h : (s.calls i).Signalled) (irq : Interrupt) :
    ((irqHandler s irq).calls i).Signalled := by
  obtain ⟨n, hcalls, -⟩ := irqHandler_calls s irq i
  rw [hcalls]
  rcases h with hwoken | hreturned | ⟨hdone, hphase⟩
  · exact .inl hwoken
  · exact .inr (.inl hreturned)
  · exact .inr (.inr ⟨Nat.add_pos_left hdone n, hphase⟩)

theorem signalled_set {j : Nat} {c : WaitingCall} (h : (s.calls i).Signalled)
    (hc : j = i → c.Signalled) : ((s.set j c).calls i).Signalled := by
  by_cases hij : i = j
  · rw [hij, set_calls_self]
    exact hc hij.symm
  · rw [set_calls_ne hij]
    exact h

/-- A GET that has been signalled is woken by the completion. -/
theorem signalled_step (h : (s.calls i).Signalled) (hget : (s.calls i).kind = .get)
    (hlt : i < s.count) (hown : s.Own) (hstep : IrqStep s e s') : (s'.calls i).Signalled := by
  cases hstep with
  | start => exact h
  | interrupt => exact signalled_irqHandler h _
  | @networkAccDone m => exact signalled_irqHandler (s := s.raise m) h _
  | call kind =>
      exact signalled_set (s := { s with count := s.count + 1 }) h
        fun heq => absurd heq (Nat.ne_of_gt hlt)
  | @install j hmay =>
      refine signalled_set (s := { s with comp := some j }) h ?_
      rintro rfl
      exact absurd hmay (h.not_mayInstall hget)
  | @wait j target hphase hcomp =>
      refine signalled_set h ?_
      rintro rfl
      exact .inr (.inr ⟨h.done_pos (.inl hphase), .inr ⟨target, rfl⟩⟩)
  | @wake j target hphase hdone =>
      -- the wait is on its own completion, so no other call is counted down
      obtain rfl := hown j target hphase
      by_cases hij : i = target
      · rw [hij, setPhase_calls_self]
        exact .inl rfl
      · rw [setPhase_calls_ne hij, setDone_calls_ne hij]
        exact h
  | @timeout j target hphase hdone =>
      obtain rfl := hown j target hphase
      refine signalled_set h ?_
      rintro rfl
      exact absurd hdone (Nat.ne_of_gt (h.done_pos (.inr ⟨target, hphase⟩)))
  | @leave j completed hmay =>
      refine signalled_set h ?_
      rintro rfl
      rw [h.mayReturn hget hmay]
      exact .inr (.inl rfl)

theorem step_raised (hstep : IrqStep s e s') :
    s'.raised = s.raised ∨ ∃ m, e = .interrupt (.networkAccDone m) ∧ s'.raised = m :: s.raised := by
  cases hstep with
  | interrupt => exact .inl (irqHandler_fields s _).2
  | @networkAccDone m => exact .inr ⟨m, rfl, (irqHandler_fields (s.raise m) _).2⟩
  | start | call | install | wait | wake | timeout | leave => exact .inl rfl

/-- The interrupt of the accelerator signals the GET it comes for. -/
theorem signalled_networkAccDone (htimely : s.Timely (.interrupt (.networkAccDone m)))
    (hstep : IrqStep s (.interrupt (.networkAccDone m)) s') :
    ∃ i, s.Follows m i ∧ (s'.calls i).Signalled := by
  obtain ⟨i, hcomp, hfollows, hphase⟩ := htimely
  refine ⟨i, hfollows, ?_⟩
  cases hstep with
  | interrupt hirq => exact absurd rfl (hirq m)
  | networkAccDone =>
      obtain ⟨n, hcalls, hone⟩ := irqHandler_calls (s.raise m) (.networkAccDone m) i
      rw [hcalls, hone rfl hcomp]
      exact .inr (.inr ⟨Nat.succ_pos _, hphase⟩)

theorem Good.step (h : s.Good) (htimely : s.Timely e) (hstep : IrqStep s e s') : s'.Good := by
  refine ⟨h.own.step htimely hstep, ?_⟩
  have hkept : ∀ m ∈ s.raised, ∃ i, s'.Follows m i ∧ (s'.calls i).Signalled := by
    intro m hm
    obtain ⟨i, hfollows, hsignalled⟩ := h.signalled m hm
    exact ⟨i, hfollows.step hstep,
      signalled_step hsignalled hfollows.2.2.1 hfollows.2.1 h.own hstep⟩
  intro m hm
  rcases step_raised hstep with hraised | ⟨m', rfl, hraised⟩
  · exact hkept m (hraised ▸ hm)
  · rw [hraised] at hm
    rcases List.mem_cons.mp hm with rfl | hm
    · obtain ⟨i, hfollows, hsignalled⟩ := signalled_networkAccDone htimely hstep
      exact ⟨i, hfollows.step hstep, hsignalled⟩
    · exact hkept m hm

theorem Good.observed (h : s.Good) : s.Observed := by
  intro m hm i hfollows
  obtain ⟨j, hfollows', hsignalled⟩ := h.signalled m hm
  obtain rfl := hfollows.unique hfollows'
  refine ⟨?_, ?_, ?_⟩
  · intro hphase
    exact absurd (hsignalled.mayReturn hfollows.2.2.1 (.inl hphase)) Bool.false_ne_true
  · intro hphase
    rw [WaitingCall.Signalled, hphase] at hsignalled
    rcases hsignalled with h | h | ⟨-, h | ⟨target, h⟩⟩
    · contradiction
    · exact absurd (CallPhase.returned.inj h) Bool.false_ne_true
    · contradiction
    · contradiction
  · intro target hphase
    rw [h.own i target hphase]
    exact hsignalled.done_pos (.inr ⟨target, hphase⟩)

end IrqState

/-! The order of the events tells whose completion is there. -/

/-- The call that was the last to install, until it leaves. -/
def holder (current : Option Nat) : IrqEvent → Option Nat
  | .install i => some i
  | .leave i => if current = some i then none else current
  | _ => current

/-- The end of a burst is signalled behind an install, and the call that was the last to install has
not left since. -/
def InTime (current : Option Nat) (es : List IrqEvent) : Prop :=
  ∀ es₁ irq es₂, es = es₁ ++ .interrupt irq :: es₂ → irq.ofBurst →
    (es₁.foldl holder current).isSome

theorem inTime_nil (current : Option Nat) : InTime current [] :=
  fun _ _ _ heq => absurd (List.append_eq_nil_iff.mp heq.symm).2 nofun

theorem inTime_cons {current : Option Nat} {e : IrqEvent} {es : List IrqEvent}
    (h : InTime (holder current e) es)
    (he : ∀ irq, e = .interrupt irq → irq.ofBurst → current.isSome) : InTime current (e :: es) := by
  intro es₁ irq es₂ heq hirq
  cases es₁ with
  | nil => exact he irq (List.cons.inj heq).1 hirq
  | cons e' es₁ =>
      obtain ⟨rfl, htail⟩ := List.cons.inj heq
      exact h es₁ irq es₂ htail hirq

/-- The pointer holds what was installed last; only calls that were made are not over. -/
structure IrqState.Holds (current : Option Nat) (s : IrqState) : Prop where
  held : ∀ i, current = some i ↔ s.comp = some i ∧ s.InCall i
  comp : ∀ i, s.comp = some i → i < s.count
  fresh : ∀ i, s.InCall i → i < s.count

namespace IrqState.Holds
variable {s s' : IrqState} {current : Option Nat} {e : IrqEvent}

/-- A step after which the same calls are over leaves the pointer to the same call. -/
theorem keep (h : s.Holds current) (hcomp : s'.comp = s.comp)
    (hcalls : ∀ i, s'.InCall i ↔ s.InCall i) (hcount : s'.count = s.count) : s'.Holds current := by
  refine ⟨fun i => ?_, fun i hi => ?_, fun i hi => ?_⟩
  · rw [hcomp, hcalls]
    exact h.held i
  · rw [hcount]
    exact h.comp i (hcomp ▸ hi)
  · rw [hcount]
    exact h.fresh i ((hcalls i).mp hi)

theorem installs (h : s.Holds current) {i : Nat} (hmay : (s.calls i).MayInstall) : i < s.count := by
  refine h.fresh i fun completed hreturned => ?_
  rcases hmay with hphase | ⟨-, woken, hphase⟩
  · exact absurd (hphase.symm.trans hreturned) nofun
  · exact absurd (hphase.symm.trans hreturned) nofun

theorem step (h : s.Holds current) (hstep : IrqStep s e s') : s'.Holds (holder current e) := by
  have inCall {i : Nat} {phase : CallPhase} (hphase : (s.calls i).phase = phase)
      (hgoing : ∀ completed, phase ≠ .returned completed) : s.InCall i :=
    fun completed hreturned => hgoing completed (hphase.symm.trans hreturned)
  cases hstep with
  | start => exact h.keep rfl (fun _ => Iff.rfl) rfl
  | interrupt =>
      exact h.keep (irqHandler_comp s _) (irqHandler_inCall s _) (irqHandler_fields s _).1
  | @networkAccDone m =>
      exact h.keep (irqHandler_comp (s.raise m) _) (irqHandler_inCall (s.raise m) _)
        (irqHandler_fields (s.raise m) _).1
  | call kind =>
      have hcalls := set_inCall (s := { s with count := s.count + 1 }) (i := s.count)
        (c := { kind, phase := .running, done := 0 }) nofun
      refine ⟨fun i => ?_, fun i hi => Nat.lt_succ_of_lt (h.comp i hi), fun i hi => ?_⟩
      · rw [hcalls, show holder current (.call kind) = current from rfl, h.held]
        refine and_congr_right fun hcomp => (or_iff_right ?_).symm
        exact Nat.ne_of_lt (h.comp i hcomp)
      · rcases (hcalls i).mp hi with rfl | hi
        · exact Nat.lt_succ_self _
        · exact Nat.lt_succ_of_lt (h.fresh i hi)
  | @install i hmay =>
      have hcalls := set_inCall (s := { s with comp := some i }) (i := i)
        (c := { s.calls i with phase := .installed, done := 0 }) nofun
      refine ⟨fun j => ?_, fun j hj => Option.some.inj hj ▸ h.installs hmay, fun j hj => ?_⟩
      · rw [hcalls]
        exact (and_iff_left_of_imp fun heq => .inl (Option.some.inj heq).symm).symm
      · rcases (hcalls j).mp hj with rfl | hj
        · exact h.installs hmay
        · exact h.fresh j hj
  | @wait i target hphase =>
      exact h.keep rfl (setPhase_inCall nofun (inCall hphase nofun)) rfl
  | @wake i target hphase =>
      have hdone := setDone_inCall (s := s) (i := target) ((s.calls target).done - 1)
      have hgoing := (hdone i).mpr (inCall hphase nofun)
      have hwoken (j : Nat) :
          ((s.setDone target ((s.calls target).done - 1)).setPhase i (.woken true)).InCall j ↔
            (s.setDone target ((s.calls target).done - 1)).InCall j := by
        refine setPhase_inCall (fun completed => ?_) hgoing j
        exact nofun
      exact h.keep rfl (fun j => (hwoken j).trans (hdone j)) rfl
  | @timeout i target hphase =>
      exact h.keep rfl (setPhase_inCall nofun (inCall hphase nofun)) rfl
  | @leave i completed hmay =>
      have hleft : ∀ j, (s.setPhase i (.returned completed)).InCall j ↔ j ≠ i ∧ s.InCall j := by
        intro j
        by_cases hj : j = i
        · rw [hj, InCall, setPhase_calls_self]
          exact iff_of_false (fun hgoing => hgoing completed rfl) fun hne => hne.1 rfl
        · rw [InCall, setPhase_calls_ne hj]
          exact (and_iff_right hj).symm
      refine ⟨fun j => ?_, h.comp, fun j hj => h.fresh j ((hleft j).mp hj).2⟩
      have hcomp : (s.setPhase i (.returned completed)).comp = s.comp := rfl
      rw [hleft, hcomp, and_left_comm, ← h.held, holder]
      split
      case isTrue heq =>
          rw [heq]
          refine iff_of_false nofun fun hj => ?_
          exact hj.1 (Option.some.inj hj.2).symm
      case isFalse hne =>
          refine (and_iff_right_of_imp ?_).symm
          rintro hcurrent rfl
          exact hne hcurrent

end IrqState.Holds

theorem IrqState.init_holds : init.Holds none := by
  have hover : ∀ i, ¬ init.InCall i := fun i hgoing => hgoing true rfl
  exact ⟨fun i => iff_of_false nofun fun h => hover i h.2, nofun, fun i h => absurd h (hover i)⟩

/-- The end of a burst completes what is still there exactly when a call is there that installed
last and has not left since. -/
theorem holder_live {es : List IrqEvent} {s : IrqState} (hrun : Run IrqStep IrqState.init es s)
    {irq : Interrupt} (hirq : irq.ofBurst) :
    s.Live (.interrupt irq) ↔ (es.foldl holder none).isSome := by
  have hholds : s.Holds (es.foldl holder none) :=
    hrun.fold (R := fun current s => s.Holds current) (fun _ _ _ _ h hstep => h.step hstep)
      IrqState.init_holds
  have hcompletes : irq.completes = true := by
    rcases hirq with rfl | rfl <;> rfl
  rw [IrqState.Live, Option.isSome_iff_exists]
  constructor
  · intro hlive
    obtain ⟨i, hi⟩ := hlive hcompletes
    exact ⟨i, (hholds.held i).mpr hi⟩
  · intro ⟨i, hi⟩ _
    exact ⟨i, (hholds.held i).mp hi⟩

/-- In every run of timely steps whose bursts end in time, each interrupt completes what is still
there and each interrupt of the accelerator is observed. -/
theorem completions_observed {es : List IrqEvent}
    (h : EveryStep IrqStep IrqState.Timely IrqState.init es) (hintime : InTime none es) :
    EveryStep IrqStep IrqState.Live IrqState.init es ∧
      Throughout IrqStep IrqState.Observed IrqState.init es := by
  refine ⟨?_, ?_⟩
  · intro es₁ e es₂ s₁ heq hrun
    cases e with
    | interrupt irq =>
        cases irq with
        | networkAccDone m => exact IrqState.Timely.live (h es₁ _ es₂ s₁ heq hrun)
        | s2mmPsDone => exact (holder_live hrun (.inl rfl)).mpr (hintime es₁ _ es₂ heq (.inl rfl))
        | s2mmPlDone => exact (holder_live hrun (.inr rfl)).mpr (hintime es₁ _ es₂ heq (.inr rfl))
        | mm2sPsDone | mm2sPlDone | reqDataDone | readResultDone | ddrRwDone => exact nofun
    | start | call _ | install _ | wait _ | wake _ | timeout _ | leave _ => trivial
  · have hinit : IrqState.init.Good := ⟨fun _ _ => nofun, fun _ => nofun⟩
    exact EveryStep.throughout (fun s e s' hgood htimely hstep => hgood.step htimely hstep)
      (fun s hgood => hgood.observed) h hinit

/-- A burst is transferred, the accelerator is started, and a GET waits for it. -/
def startGet : List IrqEvent :=
  [.call .transfer, .install 0, .wait 0, .interrupt .s2mmPsDone, .wake 0, .leave 0,
    .start, .call .get, .install 1, .wait 1, .interrupt (.networkAccDone 1), .wake 1, .leave 1]

theorem startGet_timely : EveryStep IrqStep IrqState.Timely IrqState.init startGet := by
  refine everyStep_cons.mpr ⟨trivial, ?_⟩
  rintro _ ⟨⟩
  refine everyStep_cons.mpr ⟨trivial, ?_⟩
  rintro _ ⟨⟩
  refine everyStep_cons.mpr ⟨rfl, ?_⟩
  rintro _ ⟨⟩
  refine everyStep_cons.mpr ⟨trivial, ?_⟩
  rintro _ ⟨⟩
  refine everyStep_cons.mpr ⟨trivial, ?_⟩
  rintro _ ⟨⟩
  refine everyStep_cons.mpr ⟨trivial, ?_⟩
  rintro _ ⟨⟩
  refine everyStep_cons.mpr ⟨trivial, ?_⟩
  rintro _ ⟨⟩
  refine everyStep_cons.mpr ⟨trivial, ?_⟩
  rintro _ ⟨⟩
  refine everyStep_cons.mpr ⟨trivial, ?_⟩
  rintro _ ⟨⟩
  refine everyStep_cons.mpr ⟨rfl, ?_⟩
  rintro _ ⟨⟩
  refine everyStep_cons.mpr ⟨⟨1, rfl, ⟨Nat.le_refl 1, Nat.lt_succ_self 1, rfl,
    fun j hj hlt => absurd hlt (Nat.not_lt_of_le hj)⟩, .inr ⟨_, rfl⟩⟩, ?_⟩
  rintro _ -
  refine everyStep_cons.mpr ⟨trivial, ?_⟩
  rintro _ -
  exact everyStep_cons.mpr ⟨trivial, fun _ _ => everyStep_nil⟩

theorem startGet_inTime : InTime none startGet := by
  have hnone {e : IrqEvent} {es : List IrqEvent} {current : Option Nat}
      (he : ∀ irq, e = .interrupt irq → ¬ irq.ofBurst) (h : InTime (holder current e) es) :
      InTime current (e :: es) :=
    inTime_cons h fun irq heq hirq => absurd hirq (he irq heq)
  refine hnone nofun (hnone nofun (hnone nofun ?_))
  refine inTime_cons ?_ fun _ _ _ => rfl
  refine hnone nofun (hnone nofun (hnone nofun (hnone nofun (hnone nofun (hnone nofun ?_)))))
  refine hnone ?_ (hnone nofun (hnone nofun (inTime_nil _)))
  rintro _ ⟨⟩ (hirq | hirq) <;> contradiction

theorem completions_observed_get :
    EveryStep IrqStep IrqState.Live IrqState.init startGet ∧
      Throughout IrqStep IrqState.Observed IrqState.init startGet :=
  completions_observed startGet_timely startGet_inTime

/-- The interrupt comes before the GET: it completes what is at NULL, and the GET gives
up. -/
theorem completion_lost :
    (∃ s, Run IrqStep IrqState.init [.start] s ∧ ¬ s.Live (.interrupt (.networkAccDone 0))) ∧
    ∃ s, Run IrqStep IrqState.init [.start, .interrupt (.networkAccDone 0), .call .get,
        .install 0, .wait 0, .timeout 0, .leave 0] s ∧ ¬ s.Observed := by
  refine ⟨⟨_, .cons (.start _) (.nil _), ?_⟩, ⟨_, .cons (.start _) (.cons (.networkAccDone
    (List.mem_singleton_self _)) (.cons (.call _ _) (.cons (.install (.inl rfl)) (.cons
    (.wait rfl rfl) (.cons (.timeout rfl rfl) (.cons (.leave (.inl rfl)) (.nil _))))))), ?_⟩⟩
  · intro hlive
    obtain ⟨i, hcomp, -⟩ := hlive rfl
    contradiction
  · intro hobserved
    have hreturned := (hobserved 0 (List.mem_singleton_self _) 0
      ⟨Nat.le_refl 0, Nat.one_pos, rfl, fun j _ hj => absurd hj (Nat.not_lt_zero j)⟩).2.1
    exact hreturned rfl

end Soc
