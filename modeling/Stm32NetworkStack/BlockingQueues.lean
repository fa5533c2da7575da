import Mathlib.Data.Fintype.Card
import Mathlib.Logic.Function.Basic
import Stm32NetworkStack.BoundedQueues
import Stm32NetworkStack.FiniteCounts
import Stm32NetworkStack.SortedLists

set_option autoImplicit false

/-!
# Waiting on a FreeRTOS queue

The loops of `xQueueGenericSend` and `xQueueReceive`, one step for each critical
section, with the interrupt versions of both calls in between. While a task gets
ready to wait it locks the queue: interrupts then only count what they put in or
take out, and the task wakes the waiters when it unlocks the queue again.
-/
namespace Stm32NetworkStack.BlockingQueues
open BoundedQueues FiniteCounts SortedLists

inductive Side
  | send
  | receive
  deriving DecidableEq

def Side.other : Side → Side
  | .send => .receive
  | .receive => .send

inductive TicksToWait
  | zero
  | finite
  | maxDelay
  deriving DecidableEq

inductive Call (α : Type)
  | send (item : α)
  | receive
  deriving DecidableEq

def Call.side {α : Type} : Call α → Side
  | .send _ => .send
  | .receive => .receive

/-- A call as it was made; the code counts `ticks` down in `xTicksToWait`. -/
structure Request (α : Type) where
  call : Call α
  ticks : TicksToWait
  deriving DecidableEq

inductive Ending
  | sleep
  | retry
  | expired
  deriving DecidableEq

/-- Where a task is in a call; `loop` is the head of the `for( ; ; )`. -/
inductive Pc (α : Type)
  | idle
  | loop (r : Request α)
  | suspendAll (r : Request α)
  | lock (r : Request α)
  | checkTimeOut (r : Request α)
  | checkQueue (r : Request α)
  | place (r : Request α)
  | unlockTx (r : Request α) (next : Ending)
  | unlockRx (r : Request α) (next : Ending)
  | resumeAll (r : Request α) (next : Ending)
  | recheck (r : Request α)
  deriving DecidableEq

/-- What callers see; an interrupt is `none`. -/
inductive Event (T α : Type)
  | done (caller : Option T) (side : Side) (item : α)
  | failed (caller : T) (r : Request α)
  deriving DecidableEq

/-- `waiting .receive` is xTasksWaitingToReceive, and `lock .receive` is cTxLock, which counts what
was put in for those who wait there; `none` is queueUNLOCKED. A task is blocked if it is
not in a ready list. -/
structure State (cap : ℕ) (T α : Type) where
  queue : Queue cap α
  lock : Side → Option ℕ
  waiting : Side → List T
  xPendingReadyList : List T
  uxSchedulerSuspended : Option T
  blocked : T → Bool
  pc : T → Pc α
  xTicksToWait : T → TicksToWait
  log : List (Event T α)

section
variable {cap : ℕ} {T α : Type} [DecidableEq T]

def init : State cap T α :=
  ⟨.empty, fun _ => none, fun _ => [], [], none, fun _ => false, fun _ => .idle, fun _ => .zero, []⟩

/-- How many calls of a side would get through. -/
def State.avail (s : State cap T α) : Side → ℕ
  | .receive => s.queue.items.length
  | .send => cap - s.queue.items.length

def State.goto (s : State cap T α) (t : T) (p : Pc α) : State cap T α :=
  { s with pc := Function.update s.pc t p }

def State.setTicks (s : State cap T α) (t : T) (ticks : TicksToWait) : State cap T α :=
  { s with xTicksToWait := Function.update s.xTicksToWait t ticks }

/-- The copy into or out of the queue, with the item that is copied. -/
def attempt (q : Queue cap α) : Call α → Option (Queue cap α × α)
  | .send a => (q.send a).map fun p => (p, a)
  | .receive => q.receive.map fun x => (x.2, x.1)

/-- The callers check that the list is not empty. -/
def xTaskRemoveFromEventList (s : State cap T α) (d : Side) : State cap T α :=
  match s.waiting d with
  | [] => s
  | t :: rest =>
    let s := { s with waiting := Function.update s.waiting d rest }
    if s.uxSchedulerSuspended = none then { s with blocked := Function.update s.blocked t false }
    else { s with xPendingReadyList := s.xPendingReadyList ++ [t] }

/-- The value of an event list item is configMAX_PRIORITIES less the priority of its task. -/
def vTaskPlaceOnEventList (xItemValue : T → ℕ) (s : State cap T α) (d : Side) (t : T) : State cap T α :=
  { s with
    waiting := Function.update s.waiting d (insertSorted xItemValue t (s.waiting d))
    blocked := Function.update s.blocked t true }

def prvLockQueue (s : State cap T α) : State cap T α :=
  { s with lock := fun d => some ((s.lock d).getD 0) }

def wakeCounted (d : Side) : ℕ → State cap T α → State cap T α
  | 0, s => s
  | n + 1, s => if s.waiting d = [] then s else wakeCounted d n (xTaskRemoveFromEventList s d)

/-- One half of `prvUnlockQueue`: a critical section for each of the two locks. -/
def unlockHalf (s : State cap T α) (d : Side) : State cap T α :=
  let u := wakeCounted d ((s.lock d).getD 0) s
  { u with lock := Function.update u.lock d none }

def xTaskResumeAll (s : State cap T α) : State cap T α :=
  { s with
    uxSchedulerSuspended := none
    blocked := fun t => if t ∈ s.xPendingReadyList then false else s.blocked t
    xPendingReadyList := [] }

/-- `none` is the failed assertion that the count fits an `int8_t`. -/
def prvIncrementQueueLock (uxNumberOfTasks n : ℕ) : Option ℕ :=
  if n < uxNumberOfTasks then if n = 127 then none else some (n + 1) else some n

/-- The first critical section of the loop. -/
def loopHead (s : State cap T α) (t : T) (r : Request α) : State cap T α :=
  match attempt s.queue r.call with
  | some (q, a) =>
    xTaskRemoveFromEventList
      { s.goto t .idle with queue := q, log := s.log ++ [.done (some t) r.call.side a] } r.call.side.other
  | none =>
    if s.xTicksToWait t = .zero then { s.goto t .idle with log := s.log ++ [.failed t r] }
    else s.goto t (.suspendAll r)

/-- What follows `xTaskResumeAll`: a send that has expired returns, a receive looks again. -/
def afterResume (s : State cap T α) (t : T) (r : Request α) : Ending → State cap T α
  | .expired =>
    match r.call with
    | .send _ => { s.goto t .idle with log := s.log ++ [.failed t r] }
    | .receive => s.goto t (.recheck r)
  | _ => s.goto t (.loop r)

def stepTask (xItemValue : T → ℕ) (s : State cap T α) (t : T) (expired : Bool) : Option (State cap T α) :=
  match s.pc t with
  | .idle => none
  | .loop r => some (loopHead s t r)
  | .suspendAll r => some ({ s with uxSchedulerSuspended := some t }.goto t (.lock r))
  | .lock r => some ((prvLockQueue s).goto t (.checkTimeOut r))
  | .checkTimeOut r =>
    -- xTaskCheckForTimeOut leaves nothing to wait for
    some (if expired = true ∧ s.xTicksToWait t ≠ .maxDelay then (s.setTicks t .zero).goto t (.unlockTx r .expired)
      else s.goto t (.checkQueue r))
  | .checkQueue r => some (s.goto t (if s.avail r.call.side = 0 then .place r else .unlockTx r .retry))
  | .place r => some ((vTaskPlaceOnEventList xItemValue s r.call.side t).goto t (.unlockTx r .sleep))
  | .unlockTx r next => some ((unlockHalf s .receive).goto t (.unlockRx r next))
  | .unlockRx r next => some ((unlockHalf s .send).goto t (.resumeAll r next))
  | .resumeAll r next => some (afterResume (xTaskResumeAll s) t r next)
  | .recheck r =>
    some (if s.avail r.call.side = 0 then { s.goto t .idle with log := s.log ++ [.failed t r] }
      else s.goto t (.loop r))

/-- `xQueueGenericSendFromISR` and `xQueueReceiveFromISR`. -/
def fromISR [Fintype T] (s : State cap T α) (c : Call α) : Option (State cap T α) :=
  match attempt s.queue c with
  | none => some s
  | some (q, a) =>
    let s := { s with queue := q, log := s.log ++ [.done none c.side a] }
    match s.lock c.side.other with
    | none => some (xTaskRemoveFromEventList s c.side.other)
    | some n => (prvIncrementQueueLock (Fintype.card T) n).map fun n =>
      { s with lock := Function.update s.lock c.side.other (some n) }

inductive Act (T α : Type)
  | call (t : T) (r : Request α)
  | run (t : T) (expired : Bool)
  | interrupt (c : Call α)
  | timeOut (t : T)
  | suspend (t : T)
  | resume (t : T)
  deriving DecidableEq

def State.mayRun (s : State cap T α) (t : T) : Bool :=
  s.uxSchedulerSuspended == some t || s.uxSchedulerSuspended == none && !s.blocked t

/-- Any task that may run does so next. Outside of the calls, tasks also suspend the
scheduler for other reasons; then they may call, but not wait. -/
def act [Fintype T] (xItemValue : T → ℕ) (s : State cap T α) : Act T α → Option (State cap T α)
  | .call t r =>
    match s.pc t with
    | .idle =>
      if s.mayRun t = true ∧ (s.uxSchedulerSuspended ≠ none → r.ticks = .zero) then
        some ((s.setTicks t r.ticks).goto t (.loop r))
      else none
    | _ => none
  | .run t expired => if s.mayRun t = true then stepTask xItemValue s t expired else none
  | .interrupt c => fromISR s c
  | .timeOut t =>
    match s.pc t with
    | .loop _ =>
      if s.uxSchedulerSuspended = none ∧ s.blocked t = true ∧ s.xTicksToWait t ≠ .maxDelay then
        some { s with
          waiting := fun d => (s.waiting d).erase t
          blocked := Function.update s.blocked t false }
      else none
    | _ => none
  | .suspend t =>
    match s.pc t with
    | .idle =>
      if s.uxSchedulerSuspended = none ∧ s.blocked t = false then
        some { s with uxSchedulerSuspended := some t }
      else none
    | _ => none
  | .resume t =>
    match s.pc t with
    | .idle => if s.uxSchedulerSuspended = some t then some (xTaskResumeAll s) else none
    | _ => none

/-- What an action needs, and what it does. -/
inductive Acts [Fintype T] (xItemValue : T → ℕ) (s u : State cap T α) : Prop
  | call (t : T) (r : Request α) (pc : s.pc t = .idle) (may : s.mayRun t = true)
      (ticks : s.uxSchedulerSuspended ≠ none → r.ticks = .zero)
      (next : u = (s.setTicks t r.ticks).goto t (.loop r))
  | run (t : T) (expired : Bool) (may : s.mayRun t = true) (step : stepTask xItemValue s t expired = some u)
  | interrupt (c : Call α) (step : fromISR s c = some u)
  | timeOut (t : T) (free : s.uxSchedulerSuspended = none)
      (next : u = { s with
        waiting := fun d => (s.waiting d).erase t
        blocked := Function.update s.blocked t false })
  | suspend (t : T) (pc : s.pc t = .idle) (free : s.uxSchedulerSuspended = none) (awake : s.blocked t = false)
      (next : u = { s with uxSchedulerSuspended := some t })
  | resume (t : T) (pc : s.pc t = .idle) (suspended : s.uxSchedulerSuspended = some t)
      (next : u = xTaskResumeAll s)

theorem act_cases [Fintype T] {xItemValue : T → ℕ} {s u : State cap T α} {a : Act T α}
    (step : act xItemValue s a = some u) : Acts xItemValue s u := by
  cases a with
  | call t r =>
    cases hpc : s.pc t <;> simp only [act, hpc, reduceCtorEq] at step
    split_ifs at step with h
    exact .call t r hpc h.1 h.2 (Option.some.inj step).symm
  | run t expired =>
    simp only [act] at step
    split_ifs at step with h
    exact .run t expired h step
  | interrupt c => exact .interrupt c step
  | timeOut t =>
    cases hpc : s.pc t <;> simp only [act, hpc, reduceCtorEq] at step
    split_ifs at step with h
    exact .timeOut t h.1 (Option.some.inj step).symm
  | suspend t =>
    cases hpc : s.pc t <;> simp only [act, hpc, reduceCtorEq] at step
    split_ifs at step with h
    exact .suspend t hpc h.1 h.2 (Option.some.inj step).symm
  | resume t =>
    cases hpc : s.pc t <;> simp only [act, hpc, reduceCtorEq] at step
    split_ifs at step with h
    exact .resume t hpc h (Option.some.inj step).symm

/-- An interrupt finds nothing to do, or it wakes a task, or it counts what it did. -/
theorem fromISR_cases [Fintype T] {s u : State cap T α} {c : Call α} (step : fromISR s c = some u) :
    u = s ∨ ∃ q a, attempt s.queue c = some (q, a) ∧
      (s.lock c.side.other = none ∧
          u = xTaskRemoveFromEventList { s with queue := q, log := s.log ++ [.done none c.side a] } c.side.other ∨
        ∃ n m, s.lock c.side.other = some n ∧ prvIncrementQueueLock (Fintype.card T) n = some m ∧
          u = { s with
            queue := q
            log := s.log ++ [.done none c.side a]
            lock := Function.update s.lock c.side.other (some m) }) := by
  unfold fromISR at step
  cases ha : attempt s.queue c with
  | none =>
    simp only [ha, Option.some.injEq] at step
    exact Or.inl step.symm
  | some x =>
    obtain ⟨q, a⟩ := x
    simp only [ha] at step
    refine Or.inr ⟨q, a, rfl, ?_⟩
    cases hl : s.lock c.side.other with
    | none =>
      simp only [hl, Option.some.injEq] at step
      exact Or.inl ⟨rfl, step.symm⟩
    | some n =>
      simp only [hl] at step
      obtain ⟨m, hm, rfl⟩ := Option.map_eq_some_iff.mp step
      exact Or.inr ⟨n, m, rfl, hm, rfl⟩

end

/-- Whether the task looks into the queue before it can wait again. -/
def Ending.looks : Ending → Bool
  | .expired => false
  | _ => true

def Pc.looks {α : Type} : Pc α → Option Side
  | .loop r => some r.call.side
  | .unlockTx r next | .unlockRx r next | .resumeAll r next => if next.looks then some r.call.side else none
  | _ => none

/-- Where a task may be blocked, or have put itself on an event list. -/
def Pc.sleeps {α : Type} : Pc α → Bool
  | .loop _ => true
  | .unlockTx _ next | .unlockRx _ next | .resumeAll _ next => next = .sleep
  | _ => false

/-- With the scheduler suspended. -/
def Pc.inside {α : Type} : Pc α → Bool
  | .lock _ | .checkTimeOut _ | .checkQueue _ | .place _ | .unlockTx _ _ | .unlockRx _ _ | .resumeAll _ _ => true
  | _ => false

/-- With the lock `lock d` set. -/
def Pc.holds {α : Type} (d : Side) : Pc α → Bool
  | .checkTimeOut _ | .checkQueue _ | .place _ | .unlockTx _ _ => true
  | .unlockRx _ _ => d = .send
  | _ => false

def Pc.request {α : Type} : Pc α → Option (Request α)
  | .idle => none
  | .loop r | .suspendAll r | .lock r | .checkTimeOut r | .checkQueue r | .place r | .unlockTx r _
  | .unlockRx r _ | .resumeAll r _ | .recheck r => some r

def Pc.expired {α : Type} : Pc α → Bool
  | .unlockTx _ next | .unlockRx _ next | .resumeAll _ next => next = .expired
  | .recheck _ => true
  | _ => false

def Pc.atLoop {α : Type} (d : Side) : Pc α → Bool
  | .loop r => r.call.side = d
  | _ => false

/-- A call that does not wait, as a task may make it that suspends the scheduler. -/
def State.Polls {cap : ℕ} {T α : Type} (s : State cap T α) (t : T) : Prop :=
  s.blocked t = false ∧ s.xTicksToWait t = .zero ∧ ∃ r, s.pc t = .loop r

/-- The tasks that are not waiting and will look into the queue for side `d` next. -/
def State.looking {cap : ℕ} {T α : Type} [DecidableEq T] [Fintype T] (s : State cap T α) (d : Side) : ℕ :=
  count fun t => (s.pc t).looks = some d ∧ t ∉ s.waiting d

end Stm32NetworkStack.BlockingQueues
