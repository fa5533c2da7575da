import Mathlib.Algebra.BigOperators.Group.List.Basic
import Mathlib.Algebra.GroupWithZero.Nat
import Mathlib.Tactic.SplitIfs
import Stm32NetworkStack.GuardedRuns

set_option autoImplicit false

/-!
# Notifications of a task

A task takes its notifications with `ulTaskNotifyTake`, one step for each critical
section, and interrupts give it more at any time. Other tasks suspend and resume
the scheduler.
-/
namespace Stm32NetworkStack.TaskNotifications
open GuardedRuns

inductive NotifyState
  | notWaiting
  | waiting
  | received
  deriving DecidableEq

inductive TicksToWait
  | zero
  | finite
  | maxDelay
  deriving DecidableEq

structure Take where
  xClearCountOnExit : Bool
  xTicksToWait : TicksToWait
  deriving DecidableEq

/-- Where the task is in a call of `ulTaskGenericNotifyTake`. -/
inductive Pc
  | idle
  | suspendAll (r : Take)
  | check (r : Take)
  | place (r : Take)
  | resumeAll (r : Take)
  | finish (r : Take)
  deriving DecidableEq

inductive Suspender
  | self
  | other
  deriving DecidableEq

/-- `pending` is whether the task is in xPendingReadyList, `blocked` whether it is in no ready list. -/
structure State where
  ulNotifiedValue : ℕ
  ucNotifyState : NotifyState
  pending : Bool
  blocked : Bool
  uxSchedulerSuspended : Option Suspender
  pc : Pc
  given : ℕ
  returned : List (Take × ℕ)
  deriving DecidableEq

def uint32Values : ℕ := 0x100000000

def init : State := ⟨0, .notWaiting, false, false, none, .idle, 0, []⟩

/-- `none` is the assertion that the task is on no event list, failed. -/
def vTaskGenericNotifyGiveFromISR (s : State) : Option State :=
  let u := { s with
    ucNotifyState := .received
    ulNotifiedValue := (s.ulNotifiedValue + 1) % uint32Values
    given := s.given + 1 }
  if s.ucNotifyState = .waiting then
    if s.pending = true then none
    else if s.uxSchedulerSuspended = none then some { u with blocked := false }
    else some { u with pending := true }
  else some u

def xTaskResumeAll (s : State) : State :=
  { s with uxSchedulerSuspended := none, blocked := s.blocked && !s.pending, pending := false }

/-- The next step of the task inside of `ulTaskGenericNotifyTake`. -/
def stepTake (s : State) : Option State :=
  match s.pc with
  | .idle => none
  | .suspendAll r => some { s with uxSchedulerSuspended := some .self, pc := .check r }
  | .check r =>
    if s.ulNotifiedValue = 0 then
      some { s with
        ucNotifyState := .waiting
        pc := if r.xTicksToWait = .zero then .resumeAll r else .place r }
    else some { s with pc := .resumeAll r }
  | .place r => some { s with blocked := true, pc := .resumeAll r }
  | .resumeAll r => some { xTaskResumeAll s with pc := .finish r }
  | .finish r =>
    some { s with
      ulNotifiedValue :=
        if s.ulNotifiedValue = 0 ∨ r.xClearCountOnExit = true then 0 else s.ulNotifiedValue - 1
      ucNotifyState := .notWaiting
      pc := .idle
      returned := s.returned ++ [(r, s.ulNotifiedValue)] }

inductive Act
  | call (r : Take)
  | run
  | give
  | timeOut
  | suspendOther
  | resumeOther
  deriving DecidableEq

def State.mayRun (s : State) : Bool :=
  s.uxSchedulerSuspended == some .self || s.uxSchedulerSuspended == none && !s.blocked

def act (s : State) : Act → Option State
  | .call r => if s.pc = .idle ∧ s.mayRun = true then some { s with pc := .suspendAll r } else none
  | .run => if s.mayRun = true then stepTake s else none
  | .give => vTaskGenericNotifyGiveFromISR s
  | .timeOut =>
    match s.pc with
    | .finish r =>
      if s.uxSchedulerSuspended = none ∧ s.blocked = true ∧ r.xTicksToWait ≠ .maxDelay then
        some { s with blocked := false }
      else none
    | _ => none
  | .suspendOther =>
    if s.uxSchedulerSuspended = none then some { s with uxSchedulerSuspended := some .other } else none
  | .resumeOther =>
    if s.uxSchedulerSuspended = some .other then some (xTaskResumeAll s) else none

/-- What a call takes away of the notified value. -/
def taken (x : Take × ℕ) : ℕ := if x.2 = 0 ∨ x.1.xClearCountOnExit = true then x.2 else 1

def Pc.before : Pc → Bool
  | .idle | .suspendAll _ | .check _ => true
  | _ => false

def Pc.placing : Pc → Bool
  | .place _ => true
  | _ => false

def Pc.inside : Pc → Bool
  | .check _ | .place _ | .resumeAll _ => true
  | _ => false

structure Kept (s : State) : Prop where
  count : s.given % uint32Values = ((s.returned.map taken).sum + s.ulNotifiedValue) % uint32Values
  small : s.ulNotifiedValue < uint32Values
  before : s.pc.before = true → s.ucNotifyState ≠ .waiting ∧ s.pending = false ∧ s.blocked = false
  waiting : s.ucNotifyState = .waiting → s.ulNotifiedValue = 0 ∧ s.pending = false
  blocked : s.blocked = true ∨ s.pc.placing = true → s.ucNotifyState = .waiting ∨ s.pending = true
  pending : s.pending = true → s.uxSchedulerSuspended ≠ none
  inside : s.pc.inside = true ↔ s.uxSchedulerSuspended = some .self

variable {s u : State}

theorem give_kept (h : Kept s) : ∃ u, vTaskGenericNotifyGiveFromISR s = some u ∧ Kept u := by
  have hpos : 0 < uint32Values := by decide
  have hcount : (s.given + 1) % uint32Values =
      ((s.returned.map taken).sum + (s.ulNotifiedValue + 1) % uint32Values) % uint32Values := by
    rw [Nat.add_mod_mod, ← Nat.add_assoc, Nat.add_mod, h.count, ← Nat.add_mod]
  have hsmall : (s.ulNotifiedValue + 1) % uint32Values < uint32Values := Nat.mod_lt _ hpos
  unfold vTaskGenericNotifyGiveFromISR
  by_cases hwait : s.ucNotifyState = .waiting
  · have hout := (h.waiting hwait).2
    have hlater : s.pc.before ≠ true := fun hb => (h.before hb).1 hwait
    rw [if_pos hwait, if_neg (by rw [hout]; nofun)]
    by_cases hsusp : s.uxSchedulerSuspended = none
    · rw [if_pos hsusp]
      refine ⟨_, rfl, hcount, hsmall, fun hb => absurd hb hlater, nofun, ?_, h.pending, h.inside⟩
      rintro (hb | hp)
      · cases hb
      · -- while the task is placed on a list it suspends the scheduler itself
        have hinside : s.pc.inside = true := by
          revert hp
          cases s.pc <;> simp [Pc.placing, Pc.inside]
        rw [h.inside.mp hinside] at hsusp
        cases hsusp
    · rw [if_neg hsusp]
      exact ⟨_, rfl, hcount, hsmall, fun hb => absurd hb hlater, nofun, fun _ => Or.inr rfl, fun _ => hsusp,
        h.inside⟩
  · rw [if_neg hwait]
    refine ⟨_, rfl, hcount, hsmall, fun hb => ⟨nofun, (h.before hb).2⟩, nofun, ?_, h.pending, h.inside⟩
    intro hb
    exact Or.inr ((h.blocked hb).resolve_left hwait)

/-- The scheduler goes on, wherever the task is not inside of its call. -/
theorem resume_kept (h : Kept s) {p : Pc} (outside : p.inside = false) (unplaced : p.placing = false)
    (before : p.before = true → s.pc.before = true) : Kept { xTaskResumeAll s with pc := p } := by
  refine ⟨h.count, h.small, ?_, ?_, ?_, nofun, ?_⟩
  · intro hb
    obtain ⟨hstate, -, hblocked⟩ := h.before (before hb)
    exact ⟨hstate, rfl, by simp [xTaskResumeAll, hblocked]⟩
  · intro hw
    exact ⟨(h.waiting hw).1, rfl⟩
  · rintro (hb | hp)
    · simp only [xTaskResumeAll, Bool.and_eq_true, Bool.not_eq_true'] at hb
      left
      rcases h.blocked (Or.inl hb.1) with hw | hp
      · exact hw
      · rw [hb.2] at hp
        cases hp
    · simp [unplaced] at hp
  · simp [outside, xTaskResumeAll]

theorem stepTake_kept (h : Kept s) (runs : s.mayRun = true) (step : stepTake s = some u) : Kept u := by
  unfold stepTake at step
  have hruns : s.pc.inside = false → s.uxSchedulerSuspended = none ∧ s.blocked = false := by
    intro hi
    have hnot : s.uxSchedulerSuspended ≠ some .self := by
      intro hs
      rw [h.inside.mpr hs] at hi
      cases hi
    simpa [State.mayRun, hnot] using runs
  cases hpc : s.pc with
  | idle => simp [hpc] at step
  | suspendAll r =>
    simp only [hpc, Option.some.injEq] at step
    rw [← step]
    have hbefore := h.before (by rw [hpc]; rfl)
    exact ⟨h.count, h.small, fun _ => hbefore, h.waiting, fun hb => by simp [hbefore.2.2, Pc.placing] at hb,
      nofun, by simp [Pc.inside]⟩
  | check r =>
    have hs := h.inside.mp (by rw [hpc]; rfl)
    obtain ⟨hstate, hpending, hblocked⟩ := h.before (by rw [hpc]; rfl)
    simp only [hpc] at step
    split_ifs at step with hzero hnone
    all_goals rw [← Option.some.inj step]
    · exact ⟨h.count, h.small, nofun, fun _ => ⟨hzero, hpending⟩, fun _ => Or.inl rfl, h.pending,
        by simp [Pc.inside, hs]⟩
    · exact ⟨h.count, h.small, nofun, fun _ => ⟨hzero, hpending⟩, fun _ => Or.inl rfl, h.pending,
        by simp [Pc.inside, hs]⟩
    · exact ⟨h.count, h.small, nofun, h.waiting, fun hb => by simp [hblocked, Pc.placing] at hb, h.pending,
        by simp [Pc.inside, hs]⟩
  | place r =>
    have hs := h.inside.mp (by rw [hpc]; rfl)
    simp only [hpc, Option.some.injEq] at step
    rw [← step]
    exact ⟨h.count, h.small, nofun, h.waiting, fun _ => h.blocked (Or.inr (by rw [hpc]; rfl)), h.pending,
      by simp [Pc.inside, hs]⟩
  | resumeAll r =>
    simp only [hpc, Option.some.injEq] at step
    rw [← step]
    exact resume_kept h rfl rfl nofun
  | finish r =>
    obtain ⟨hfree, hawake⟩ := hruns (by rw [hpc]; rfl)
    have hpending : s.pending = false := by
      by_contra hp
      exact h.pending (by simpa using hp) hfree
    simp only [hpc, Option.some.injEq] at step
    rw [← step]
    refine ⟨?_, ?_, fun _ => ⟨nofun, hpending, hawake⟩, nofun, fun hb => ?_, h.pending, ?_⟩
    · simp only [List.map_append, List.sum_append, List.map_singleton, List.sum_singleton]
      rw [h.count, Nat.add_assoc]
      congr 2
      unfold taken
      simp only
      split_ifs with hall
      · omega
      · have hne : s.ulNotifiedValue ≠ 0 := fun hz => hall (Or.inl hz)
        omega
    · have hsmall := h.small
      simp only
      split_ifs <;> omega
    · simp [hawake, Pc.placing] at hb
    · simp [Pc.inside, hfree]

theorem act_kept (h : Kept s) {a : Act} (step : act s a = some u) : Kept u := by
  cases a with
  | call r =>
    simp only [act] at step
    split_ifs at step with hidle
    rw [← Option.some.inj step]
    have hbefore := h.before (by rw [hidle.1]; rfl)
    refine ⟨h.count, h.small, fun _ => hbefore, h.waiting, fun hb => ?_, h.pending, ?_⟩
    · simp [hbefore.2.2, Pc.placing] at hb
    · have hout := h.inside
      rw [hidle.1] at hout
      exact hout
  | run =>
    simp only [act] at step
    split_ifs at step with hruns
    exact stepTake_kept h hruns step
  | give =>
    obtain ⟨v, hv, hkept⟩ := give_kept h
    rw [show act s .give = some v from hv] at step
    exact Option.some.inj step ▸ hkept
  | timeOut =>
    cases hpc : s.pc <;> simp only [act, hpc, reduceCtorEq] at step
    split_ifs at step
    rw [← Option.some.inj step]
    have hinside := h.inside
    rw [hpc] at hinside
    refine ⟨h.count, h.small, fun hb => ?_, h.waiting, fun hb => ?_, h.pending, hinside⟩
    · simp [Pc.before] at hb
    · simp [Pc.placing] at hb
  | suspendOther =>
    simp only [act] at step
    split_ifs at step with hs
    rw [← Option.some.inj step]
    refine ⟨h.count, h.small, h.before, h.waiting, h.blocked, nofun, ?_⟩
    have hinside := h.inside
    rw [hs] at hinside
    simpa using hinside
  | resumeOther =>
    simp only [act] at step
    split_ifs at step with hs
    rw [← Option.some.inj step]
    have hinside := h.inside
    rw [hs] at hinside
    have hout : s.pc.inside = false := by simpa using hinside
    have hplace : s.pc.placing = false := by
      revert hout
      cases s.pc <;> simp [Pc.placing, Pc.inside]
    exact resume_kept h hout hplace id

/-- Between any two steps of a call, in any order of interrupts, time-outs and suspensions:
every notification is returned by a call or still counted, the task does not sleep on
one, and the interrupt never finds it on an event list. -/
theorem no_notification_lost {tr : List (State × Act)} (run : Run (fun s a u => act s a = some u) init tr s) :
    s.given % uint32Values = ((s.returned.map taken).sum + s.ulNotifiedValue) % uint32Values ∧
      (s.uxSchedulerSuspended = none → s.ulNotifiedValue ≠ 0 → s.blocked = false) ∧
        (vTaskGenericNotifyGiveFromISR s).isSome = true := by
  have hkept := run.invariant (C := fun _ _ => True) (I := Kept) (fun _ _ => trivial)
    ⟨rfl, by decide, fun _ => ⟨nofun, rfl, rfl⟩, nofun, by simp [init, Pc.placing], nofun, by simp [init, Pc.inside]⟩
    fun _ _ _ hi _ step => act_kept hi step
  refine ⟨hkept.count, ?_, ?_⟩
  · intro hfree hvalue
    by_contra hb
    rcases hkept.blocked (Or.inl (by simpa using hb)) with hw | hp
    · exact hvalue (hkept.waiting hw).1
    · exact hkept.pending hp hfree
  · obtain ⟨u, hu, -⟩ := give_kept hkept
    rw [hu]
    rfl

/-- An interrupt comes while the task puts itself on the delayed list. -/
theorem no_notification_lost_placing : ∃ s tr, Run (fun s a u => act s a = some u) init tr s ∧
    s.blocked = false ∧ s.ulNotifiedValue = 1 ∧
    s.given % uint32Values = ((s.returned.map taken).sum + s.ulNotifiedValue) % uint32Values ∧
      (s.uxSchedulerSuspended = none → s.ulNotifiedValue ≠ 0 → s.blocked = false) ∧
        (vTaskGenericNotifyGiveFromISR s).isSome = true := by
  have hrun : (fireAll act [.call ⟨true, .finite⟩, .run, .run, .give, .run, .run] init).map
      (fun s => (s.blocked, s.ulNotifiedValue)) = some (false, 1) := by
    decide
  obtain ⟨s, hs, hfinal⟩ := Option.map_eq_some_iff.mp hrun
  obtain ⟨hblocked, hvalue⟩ := Prod.mk.inj hfinal
  have run := fireAll_run (fun _ _ _ h => h) hs
  exact ⟨s, _, run, hblocked, hvalue, no_notification_lost run⟩

end Stm32NetworkStack.TaskNotifications
