import Stm32NetworkStack.GuardedRuns
import Stm32NetworkStack.LostWakeups

set_option autoImplicit false

/-!
# The order of items and of waiting tasks

Through all the waiting, a queue stays first in first out for its callers, and
those who wait for it are woken in the order of their priorities.
-/
namespace Stm32NetworkStack.QueueOrder
open BoundedQueues GuardedRuns SortedLists BlockingQueues QueueLocks LostWakeups

section
variable {cap : ℕ} {T α : Type} [DecidableEq T] {s u : State cap T α}

/-- The items that calls of one side have moved. -/
def moved (d : Side) (log : List (Event T α)) : List α := log.filterMap fun e =>
  match e with
  | .done _ side a => if side = d then some a else none
  | .failed _ _ => none

/-- What an action does to the queue and to what callers see. -/
inductive Moves (s u : State cap T α) : Prop
  | same (queue : u.queue = s.queue) (log : u.log = s.log)
  | done (caller : Option T) (c : Call α) (a : α) (copy : attempt s.queue c = some (u.queue, a))
      (log : u.log = s.log ++ [.done caller c.side a])
  | failed (t : T) (r : Request α) (queue : u.queue = s.queue) (log : u.log = s.log ++ [.failed t r])
      (called : (s.pc t).request = some r) (timed : s.xTicksToWait t = .zero ∨ (s.pc t).expired = true)

theorem unlockHalf_moves (d : Side) (t : T) (p : Pc α) : Moves s ((unlockHalf s d).goto t p) := by
  obtain ⟨-, -, -, hq, hlog⟩ := wakeCounted_same s d ((s.lock d).getD 0)
  exact .same hq hlog

theorem loopHead_moves {t : T} {r : Request α} (hpc : s.pc t = .loop r) : Moves s (loopHead s t r) := by
  unfold loopHead
  cases ha : attempt s.queue r.call with
  | some x =>
    obtain ⟨q, a⟩ := x
    obtain ⟨-, -, -, hq, hlog⟩ := wake_same
      { s.goto t .idle with queue := q, log := s.log ++ [.done (some t) r.call.side a] } r.call.side.other
    exact .done (some t) r.call a (by rw [hq]; exact ha) hlog
  | none =>
    dsimp only
    split_ifs with hzero
    · exact .failed t r rfl rfl (congrArg Pc.request hpc) (Or.inl hzero)
    · exact .same rfl rfl

theorem stepTask_moves {xItemValue : T → ℕ} {t : T} {expired : Bool}
    (step : stepTask xItemValue s t expired = some u) : Moves s u := by
  unfold stepTask at step
  cases hpc : s.pc t <;> simp only [hpc, Option.some.injEq, reduceCtorEq] at step <;> rw [← step]
  case loop r => exact loopHead_moves hpc
  case suspendAll => exact .same rfl rfl
  case lock => exact .same rfl rfl
  case checkTimeOut =>
    split_ifs
    · exact .same rfl rfl
    · exact .same rfl rfl
  case checkQueue => exact .same rfl rfl
  case place => exact .same rfl rfl
  case unlockTx => exact unlockHalf_moves _ _ _
  case unlockRx => exact unlockHalf_moves _ _ _
  case resumeAll r next =>
    cases next with
    | sleep => exact .same rfl rfl
    | retry => exact .same rfl rfl
    | expired =>
      unfold afterResume
      cases r.call with
      | send a => exact .failed t r rfl rfl (congrArg Pc.request hpc) (Or.inr (congrArg Pc.expired hpc))
      | receive => exact .same rfl rfl
  case recheck r =>
    split_ifs
    · exact .failed t r rfl rfl (congrArg Pc.request hpc) (Or.inr (congrArg Pc.expired hpc))
    · exact .same rfl rfl

theorem act_moves [Fintype T] {xItemValue : T → ℕ} {a : Act T α} (step : act xItemValue s a = some u) :
    Moves s u := by
  cases act_cases step with
  | run t expired may step => exact stepTask_moves step
  | interrupt c step =>
    rcases fromISR_cases step with rfl | ⟨q, a, ha, ⟨-, rfl⟩ | ⟨n, m, -, -, rfl⟩⟩
    · exact .same rfl rfl
    · obtain ⟨-, -, -, hq, hlog⟩ := wake_same
        { s with queue := q, log := s.log ++ [.done none c.side a] } c.side.other
      exact .done none c a (by rw [hq]; exact ha) hlog
    · exact .done none c a ha rfl
  | call t r hpc may ticks next => exact next ▸ .same rfl rfl
  | timeOut t free next | suspend t hpc free awake next | resume t hpc suspended next =>
    exact next ▸ .same rfl rfl

/-- A call that may wait for ever still has all its time, and never runs out of it. -/
def Patient (s : State cap T α) : Prop :=
  ∀ t r, (s.pc t).request = some r → r.ticks = .maxDelay → s.xTicksToWait t = .maxDelay ∧ (s.pc t).expired = false

theorem goto_patient (h : Patient s) {t : T} {p : Pc α}
    (own : ∀ r, p.request = some r → r.ticks = .maxDelay → s.xTicksToWait t = .maxDelay ∧ p.expired = false) :
    Patient (s.goto t p) := by
  intro v r hr hmax
  by_cases hv : v = t
  · subst hv
    simp only [State.goto, Function.update_self] at hr ⊢
    exact own r hr hmax
  · simp only [State.goto, Function.update_of_ne hv] at hr ⊢
    exact h v r hr hmax

theorem leave_patient (h : Patient s) (t : T) : Patient (s.goto t .idle) := goto_patient h nofun

/-- A task goes on in its call. -/
theorem goOn_patient (h : Patient s) {t : T} {p : Pc α} (request : p.request = (s.pc t).request)
    (expired : p.expired = false ∨ p.expired = (s.pc t).expired) : Patient (s.goto t p) := by
  apply goto_patient h
  intro r hr hmax
  obtain ⟨hticks, htimely⟩ := h t r (request ▸ hr) hmax
  exact ⟨hticks, expired.elim id fun hp => hp.trans htimely⟩

/-- A task that comes to `p` has `ticks` left to wait. -/
theorem setTicks_patient (h : Patient s) {t : T} {ticks : TicksToWait} {p : Pc α}
    (own : ∀ r, p.request = some r → r.ticks = .maxDelay → ticks = .maxDelay ∧ p.expired = false) :
    Patient ((s.setTicks t ticks).goto t p) := by
  intro v r hr hmax
  by_cases hv : v = t
  · subst hv
    simp only [State.goto, State.setTicks, Function.update_self] at hr ⊢
    exact own r hr hmax
  · simp only [State.goto, State.setTicks, Function.update_of_ne hv] at hr ⊢
    exact h v r hr hmax

omit [DecidableEq T] in
theorem patient_same (h : Patient s) (pc : u.pc = s.pc) (ticks : u.xTicksToWait = s.xTicksToWait) : Patient u := by
  unfold Patient
  rw [pc, ticks]
  exact h

omit [DecidableEq T] in
theorem data_patient (h : Patient s) (q : Queue cap α) (log : List (Event T α)) :
    Patient { s with queue := q, log := log } := h

theorem wake_ticks (s : State cap T α) (d : Side) : (xTaskRemoveFromEventList s d).xTicksToWait = s.xTicksToWait := by
  unfold xTaskRemoveFromEventList
  cases s.waiting d with
  | nil => rfl
  | cons t rest =>
    dsimp only
    split_ifs <;> rfl

theorem wakeCounted_ticks (s : State cap T α) (d : Side) (n : ℕ) :
    (wakeCounted d n s).xTicksToWait = s.xTicksToWait := by
  induction n generalizing s with
  | zero => rfl
  | succ n ih =>
    unfold wakeCounted
    split_ifs
    · rfl
    · exact (ih _).trans (wake_ticks s d)

theorem wake_patient (h : Patient s) (d : Side) : Patient (xTaskRemoveFromEventList s d) :=
  patient_same h (wake_same s d).1 (wake_ticks s d)

theorem unlockHalf_goOn (h : Patient s) {t : T} (d : Side) {p : Pc α} (request : p.request = (s.pc t).request)
    (expired : p.expired = (s.pc t).expired) : Patient ((unlockHalf s d).goto t p) := by
  have hpc : (unlockHalf s d).pc = s.pc := (wakeCounted_same s d _).1
  have hpatient : Patient (unlockHalf s d) := patient_same h hpc (wakeCounted_ticks s d _)
  rw [← hpc] at request expired
  exact goOn_patient hpatient request (Or.inr expired)

theorem stepTask_patient (h : Patient s) {xItemValue : T → ℕ} {t : T} {expired : Bool}
    (step : stepTask xItemValue s t expired = some u) : Patient u := by
  unfold stepTask at step
  cases hpc : s.pc t <;> simp only [hpc, Option.some.injEq, reduceCtorEq] at step <;> rw [← step]
  case loop r =>
    have hidle := leave_patient h t
    unfold loopHead
    cases attempt s.queue r.call with
    | some x => exact wake_patient (data_patient hidle x.1 _) _
    | none =>
      dsimp only
      split_ifs
      · exact hidle
      · exact goOn_patient h (congrArg Pc.request hpc).symm (Or.inl rfl)
  case suspendAll r =>
    exact goOn_patient (s := { s with uxSchedulerSuspended := some t }) h (congrArg Pc.request hpc).symm (Or.inl rfl)
  case lock r => exact goOn_patient (s := prvLockQueue s) h (congrArg Pc.request hpc).symm (Or.inl rfl)
  case checkTimeOut r =>
    split_ifs with hc
    · apply setTicks_patient h
      intro r' hr hmax
      -- it would still have all its time
      exact absurd (h t r' (by rw [hpc]; exact hr) hmax).1 hc.2
    · exact goOn_patient h (congrArg Pc.request hpc).symm (Or.inl rfl)
  case checkQueue r =>
    split_ifs
    · exact goOn_patient h (congrArg Pc.request hpc).symm (Or.inl rfl)
    · exact goOn_patient h (congrArg Pc.request hpc).symm (Or.inl rfl)
  case place r =>
    exact goOn_patient (s := vTaskPlaceOnEventList xItemValue s r.call.side t) h (congrArg Pc.request hpc).symm
      (Or.inl rfl)
  case unlockTx r next => exact unlockHalf_goOn h .receive (by rw [hpc]; rfl) (by rw [hpc]; rfl)
  case unlockRx r next => exact unlockHalf_goOn h .send (by rw [hpc]; rfl) (by rw [hpc]; rfl)
  case resumeAll r next =>
    have hgoto : ∀ {p : Pc α}, p.request = (s.pc t).request → p.expired = false ∨ p.expired = (s.pc t).expired →
        Patient ((xTaskResumeAll s).goto t p) := goOn_patient (s := xTaskResumeAll s) h
    cases next with
    | sleep => exact hgoto (congrArg Pc.request hpc).symm (Or.inl rfl)
    | retry => exact hgoto (congrArg Pc.request hpc).symm (Or.inl rfl)
    | expired =>
      unfold afterResume
      cases r.call with
      | send a => exact leave_patient (s := xTaskResumeAll s) h t
      | receive => exact hgoto (congrArg Pc.request hpc).symm (Or.inr (congrArg Pc.expired hpc).symm)
  case recheck r =>
    split_ifs
    · exact leave_patient h t
    · exact goOn_patient h (congrArg Pc.request hpc).symm (Or.inl rfl)

theorem act_patient [Fintype T] (h : Patient s) {xItemValue : T → ℕ} {a : Act T α}
    (step : act xItemValue s a = some u) : Patient u := by
  cases act_cases step with
  | call t r hpc may ticks next =>
    subst next
    apply setTicks_patient h
    intro r' hr hmax
    obtain rfl := Option.some.inj hr
    exact ⟨hmax, rfl⟩
  | run t expired may step => exact stepTask_patient h step
  | interrupt c step =>
    rcases fromISR_cases step with rfl | ⟨q, a, -, ⟨-, rfl⟩ | ⟨n, m, -, -, rfl⟩⟩
    · exact h
    · exact wake_patient (data_patient h q _) _
    · exact h
  | timeOut t free next | suspend t hpc free awake next | resume t hpc suspended next =>
    exact next ▸ h

theorem wake_sublist (s : State cap T α) (d e : Side) :
    ((xTaskRemoveFromEventList s d).waiting e).Sublist (s.waiting e) := by
  unfold xTaskRemoveFromEventList
  cases hw : s.waiting d with
  | nil => exact List.Sublist.refl _
  | cons t rest =>
    have hsub : (Function.update s.waiting d rest e).Sublist (s.waiting e) := by
      by_cases hed : e = d
      · subst hed
        rw [Function.update_self, hw]
        exact List.sublist_cons_self t rest
      · rw [Function.update_of_ne hed]
    dsimp only
    split_ifs <;> exact hsub

theorem wakeCounted_sublist (s : State cap T α) (d e : Side) (n : ℕ) :
    ((wakeCounted d n s).waiting e).Sublist (s.waiting e) := by
  induction n generalizing s with
  | zero => exact List.Sublist.refl _
  | succ n ih =>
    unfold wakeCounted
    split_ifs
    · exact List.Sublist.refl _
    · exact (ih _).trans (wake_sublist s d e)

theorem stepTask_sorted {xItemValue : T → ℕ} {t : T} {expired : Bool}
    (h : ∀ d, Ascending xItemValue (s.waiting d)) (step : stepTask xItemValue s t expired = some u) (d : Side) :
    Ascending xItemValue (u.waiting d) := by
  unfold stepTask at step
  cases hpc : s.pc t <;> simp only [hpc, Option.some.injEq, reduceCtorEq] at step <;> rw [← step]
  case loop r =>
    unfold loopHead
    cases attempt s.queue r.call with
    | some x => exact (h d).sublist (wake_sublist _ _ _)
    | none =>
      dsimp only
      split_ifs <;> exact h d
  case suspendAll => exact h d
  case lock => exact h d
  case checkTimeOut =>
    split_ifs <;> exact h d
  case checkQueue => exact h d
  case place r =>
    simp only [State.goto, vTaskPlaceOnEventList]
    by_cases hd : d = r.call.side
    · subst hd
      rw [Function.update_self]
      exact insertSorted_ascending (h _) t
    · rw [Function.update_of_ne hd]
      exact h d
  case unlockTx => exact (h d).sublist (wakeCounted_sublist _ _ _ _)
  case unlockRx => exact (h d).sublist (wakeCounted_sublist _ _ _ _)
  case resumeAll r next =>
    unfold afterResume
    cases next with
    | sleep => exact h d
    | retry => exact h d
    | expired => cases r.call <;> exact h d
  case recheck =>
    split_ifs <;> exact h d

/-- Tasks only leave an event list, or are inserted into it. -/
theorem act_sorted [Fintype T] {xItemValue : T → ℕ} {a : Act T α} (h : ∀ d, Ascending xItemValue (s.waiting d))
    (step : act xItemValue s a = some u) (d : Side) : Ascending xItemValue (u.waiting d) := by
  cases act_cases step with
  | run t expired may step => exact stepTask_sorted h step d
  | interrupt c step =>
    rcases fromISR_cases step with rfl | ⟨q, a, -, ⟨-, rfl⟩ | ⟨n, m, -, -, rfl⟩⟩
    · exact h d
    · exact (h d).sublist (wake_sublist _ _ _)
    · exact h d
  | timeOut t free next => exact next ▸ (h d).sublist List.erase_sublist
  | call t r hpc may ticks next => exact next ▸ h d
  | suspend t hpc free awake next | resume t hpc suspended next => exact next ▸ h d

structure InOrder (xItemValue : T → ℕ) (s : State cap T α) : Prop where
  items : moved .send s.log = moved .receive s.log ++ s.queue.items
  failed : ∀ t r, .failed t r ∈ s.log → r.ticks ≠ .maxDelay
  patient : Patient s
  sorted : ∀ d, Ascending xItemValue (s.waiting d)

omit [DecidableEq T] in
theorem moved_snoc (d : Side) (log : List (Event T α)) (e : Event T α) :
    moved d (log ++ [e]) = moved d log ++ moved d [e] :=
  List.filterMap_append

theorem act_inOrder [Fintype T] {xItemValue : T → ℕ} {a : Act T α} (h : InOrder xItemValue s)
    (step : act xItemValue s a = some u) : InOrder xItemValue u := by
  have hpatient := act_patient h.patient step
  have hsorted := act_sorted h.sorted step
  cases act_moves step with
  | same queue log =>
    refine ⟨?_, ?_, hpatient, hsorted⟩
    · rw [queue, log]
      exact h.items
    · rw [log]
      exact h.failed
  | done caller c b copy log =>
    refine ⟨?_, ?_, hpatient, hsorted⟩
    · rw [log, moved_snoc, moved_snoc, h.items]
      cases c with
      | send b' =>
        obtain ⟨p, hp, heq⟩ := Option.map_eq_some_iff.mp copy
        obtain ⟨rfl, rfl⟩ := Prod.mk.inj heq
        rw [send_some hp]
        simp [moved, Call.side]
      | receive =>
        obtain ⟨⟨b', p⟩, hx, heq⟩ := Option.map_eq_some_iff.mp copy
        obtain ⟨rfl, rfl⟩ := Prod.mk.inj heq
        rw [receive_some hx]
        simp [moved, Call.side]
    · intro t r hr
      rw [log, List.mem_append, List.mem_singleton] at hr
      rcases hr with hr | hr
      · exact h.failed t r hr
      · cases hr
  | failed t r queue log called timed =>
    refine ⟨?_, ?_, hpatient, hsorted⟩
    · rw [queue, log, moved_snoc, moved_snoc, h.items]
      simp [moved]
    · intro t' r' hr
      rw [log, List.mem_append, List.mem_singleton] at hr
      rcases hr with hr | hr
      · exact h.failed t' r' hr
      · obtain ⟨rfl, rfl⟩ := Event.failed.inj hr
        intro hmax
        obtain ⟨hticks, htimely⟩ := h.patient t' r' called hmax
        rcases timed with hzero | hexpired
        · rw [hzero] at hticks
          cases hticks
        · rw [hexpired] at htimely
          cases htimely

/-- Whoever takes them and in whatever order: items come out as they went in, none twice and none
left out; a call that may wait for ever never fails; who waits stands in the order of urgency. -/
theorem calls_in_order [Fintype T] (xItemValue : T → ℕ) {tr : List (State cap T α × Act T α)}
    (run : Run (fun s a u => act xItemValue s a = some u) init tr s) :
    moved .send s.log = moved .receive s.log ++ s.queue.items ∧
      (∀ t r, .failed t r ∈ s.log → r.ticks ≠ .maxDelay) ∧
        ∀ d, Ascending xItemValue (s.waiting d) := by
  have hinv := run.invariant (C := fun _ _ => True) (I := InOrder xItemValue) (fun _ _ => trivial)
    ⟨rfl, nofun, nofun, fun _ => List.Pairwise.nil⟩ fun _ _ _ hi _ step => act_inOrder hi step
  exact ⟨hinv.items, hinv.failed, hinv.sorted⟩

end

/-- The tasks that are woken take the items in the order in which they were sent. -/
theorem calls_in_order_suspended :
    ∃ (s : State 8 (Option Bool) ℕ) (tr : List (State 8 (Option Bool) ℕ × Act (Option Bool) ℕ)),
      Run (fun s a u => act (fun _ => 0) s a = some u) init tr s ∧ moved .receive s.log = [7, 8] ∧
        moved .send s.log = moved .receive s.log ++ s.queue.items ∧
        (∀ t r, .failed t r ∈ s.log → r.ticks ≠ .maxDelay) ∧ ∀ d, Ascending (fun _ => 0) (s.waiting d) := by
  have hrun : (fireAll (act fun _ => 0) (lockedSend ++ suspendedSend ++ [.run (some false) false])
      (init : State 8 (Option Bool) ℕ)).map (fun s => moved .receive s.log) = some [7, 8] := by
    decide +kernel
  obtain ⟨s, hs, hmoved⟩ := Option.map_eq_some_iff.mp hrun
  have run := fireAll_run (fun _ _ _ h => h) hs
  exact ⟨s, _, run, hmoved, calls_in_order (fun _ => 0) run⟩

end Stm32NetworkStack.QueueOrder
