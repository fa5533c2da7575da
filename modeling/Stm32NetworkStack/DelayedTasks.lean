import Mathlib.Data.List.Basic
import Stm32NetworkStack.OperationRuns
import Stm32NetworkStack.SortedLists

set_option autoImplicit false

/-!
# Tasks that wait for a tick

The tick count of the kernel wraps. Tasks whose wake time lies behind the wrap
wait in a list of their own, and the two lists are exchanged when the count wraps.
While the scheduler is suspended ticks are only counted. All this amounts to a
clock that never wraps, on which every task wakes at its own time.
-/
namespace Stm32NetworkStack.DelayedTasks
open OperationRuns SortedLists

/-- An item of a delayed list: a task, and the value of its state list item. -/
abbrev Item (T : Type) := T × ℕ

structure Kernel (T : Type) where
  xTickCount : ℕ
  xNumOfOverflows : ℕ
  xNextTaskUnblockTime : ℕ
  pxDelayedTaskList : List (Item T)
  pxOverflowDelayedTaskList : List (Item T)
  xSuspendedTaskList : List T
  xPendingReadyList : List T
  uxSchedulerSuspended : ℕ
  xPendedTicks : ℕ

section
variable {T : Type} (tickValues : ℕ)

/-- BaseType_t and UBaseType_t have 32 bits. -/
def baseTypeValues : ℕ := 0x100000000

/-- portMAX_DELAY is the greatest of the `tickValues` values of a TickType_t. -/
def portMaxDelay : ℕ := tickValues - 1

def prvResetNextTaskUnblockTime (s : Kernel T) : Kernel T :=
  { s with xNextTaskUnblockTime := (s.pxDelayedTaskList.head?.map Prod.snd).getD (portMaxDelay tickValues) }

/-- `none` is the assertion that the delayed list is empty, failed. -/
def taskSwitchDelayedLists (s : Kernel T) : Option (Kernel T) :=
  if s.pxDelayedTaskList = [] then
    some (prvResetNextTaskUnblockTime tickValues
      { s with
        pxDelayedTaskList := s.pxOverflowDelayedTaskList
        pxOverflowDelayedTaskList := s.pxDelayedTaskList
        xNumOfOverflows := (s.xNumOfOverflows + 1) % baseTypeValues })
  else none

/-- The tasks at the head of the delayed list that are due, what is left of the list, and the
next time to look at it. -/
def unblockDue (xConstTickCount : ℕ) : List (Item T) → List T × List (Item T) × ℕ
  | [] => ([], [], portMaxDelay tickValues)
  | (t, v) :: rest =>
    if xConstTickCount < v then ([], (t, v) :: rest, v)
    else
      let x := unblockDue xConstTickCount rest
      (t :: x.1, x.2)

/-- The delayed list is looked at only when its head can be due. -/
def unblockTasks (s : Kernel T) : List T × Kernel T :=
  if s.xNextTaskUnblockTime ≤ s.xTickCount then
    let x := unblockDue tickValues s.xTickCount s.pxDelayedTaskList
    (x.1, { s with pxDelayedTaskList := x.2.1, xNextTaskUnblockTime := x.2.2 })
  else ([], s)

/-- The answer is the list of the tasks that become ready. -/
def xTaskIncrementTick (s : Kernel T) : Option (List T × Kernel T) :=
  if s.uxSchedulerSuspended = 0 then
    let xConstTickCount := (s.xTickCount + 1) % tickValues
    let s := { s with xTickCount := xConstTickCount }
    (if xConstTickCount = 0 then taskSwitchDelayedLists tickValues s else some s).map
      (unblockTasks tickValues)
  else some ([], { s with xPendedTicks := (s.xPendedTicks + 1) % tickValues })

def prvAddCurrentTaskToDelayedList (s : Kernel T) (t : T) (xTicksToWait : ℕ) (xCanBlockIndefinitely : Bool) :
    Kernel T :=
  if xTicksToWait = portMaxDelay tickValues ∧ xCanBlockIndefinitely = true then
    { s with xSuspendedTaskList := s.xSuspendedTaskList ++ [t] }
  else
    let xTimeToWake := (s.xTickCount + xTicksToWait) % tickValues
    if xTimeToWake < s.xTickCount then
      { s with
        pxOverflowDelayedTaskList := insertSorted Prod.snd (t, xTimeToWake) s.pxOverflowDelayedTaskList }
    else
      { s with
        pxDelayedTaskList := insertSorted Prod.snd (t, xTimeToWake) s.pxDelayedTaskList
        xNextTaskUnblockTime :=
          if xTimeToWake < s.xNextTaskUnblockTime then xTimeToWake else s.xNextTaskUnblockTime }

section
variable [DecidableEq T]

def removeStateItem (s : Kernel T) (t : T) : Kernel T :=
  { s with
    pxDelayedTaskList := s.pxDelayedTaskList.filter fun x => x.1 ≠ t
    pxOverflowDelayedTaskList := s.pxOverflowDelayedTaskList.filter fun x => x.1 ≠ t
    xSuspendedTaskList := s.xSuspendedTaskList.filter fun x => x ≠ t }

/-- An event for a task, as in `xTaskRemoveFromEventList`. -/
def unblockTask (s : Kernel T) (t : T) : List T × Kernel T :=
  if s.uxSchedulerSuspended = 0 then ([t], removeStateItem s t)
  else ([], { s with xPendingReadyList := s.xPendingReadyList ++ [t] })

end

def unwindTicks : ℕ → Kernel T → Option (List T × Kernel T)
  | 0, s => some ([], s)
  | n + 1, s => (xTaskIncrementTick tickValues s).bind fun x =>
    (unwindTicks n x.2).map fun y => (x.1 ++ y.1, y.2)

def releasePending [DecidableEq T] (s : Kernel T) : Kernel T :=
  let u := { s.xPendingReadyList.foldl removeStateItem s with xPendingReadyList := [] }
  if s.xPendingReadyList = [] then u else prvResetNextTaskUnblockTime tickValues u

def xTaskResumeAll [DecidableEq T] (s : Kernel T) : Option (List T × Kernel T) :=
  if s.uxSchedulerSuspended = 0 then none
  else
    let s := { s with uxSchedulerSuspended := s.uxSchedulerSuspended - 1 }
    if s.uxSchedulerSuspended = 0 then
      let u := releasePending tickValues s
      (unwindTicks tickValues u.xPendedTicks u).map fun x =>
        (s.xPendingReadyList ++ x.1, { x.2 with xPendedTicks := 0 })
    else some ([], s)

inductive KernelOp (T : Type)
  | tick
  | delay (t : T) (xTicksToWait : ℕ) (xCanBlockIndefinitely : Bool)
  | unblock (t : T)
  | suspendAll
  | resumeAll
  deriving DecidableEq

/-- Every call answers with the tasks that it makes ready, in this order. -/
def callKernel [DecidableEq T] : KernelOp T → Kernel T → Option (List T × Kernel T)
  | .tick, s => xTaskIncrementTick tickValues s
  | .delay t n indefinitely, s => some ([], prvAddCurrentTaskToDelayedList tickValues s t n indefinitely)
  | .unblock t, s => some (unblockTask s t)
  | .suspendAll, s =>
    some ([], { s with uxSchedulerSuspended := (s.uxSchedulerSuspended + 1) % baseTypeValues })
  | .resumeAll, s => xTaskResumeAll tickValues s

/-- A clock that does not wrap, and those who sleep, in the order in which they fell asleep,
each with the time it is to wake at. -/
structure Clock (T : Type) where
  now : ℕ
  sleepers : List (T × Option ℕ)
  unblocked : List T
  depth : ℕ
  pended : ℕ

/-- As `vTaskStartScheduler` leaves it, with the tick count at configINITIAL_TICK_COUNT. -/
def Kernel.start (xTickCount : ℕ) : Kernel T := ⟨xTickCount, 0, portMaxDelay tickValues, [], [], [], [], 0, 0⟩

def Clock.start (now : ℕ) : Clock T := ⟨now, [], [], 0, 0⟩

def Clock.due (c : Clock T) (d : ℕ) : List T := (c.sleepers.filter fun x => x.2 = some d).map Prod.fst

def Clock.without (c : Clock T) (d : ℕ) : Clock T :=
  { c with sleepers := c.sleepers.filter fun x => x.2 ≠ some d }

def Clock.tick (c : Clock T) : List T × Clock T :=
  (c.due (c.now + 1), { c with now := c.now + 1 }.without (c.now + 1))

def Clock.sleep (c : Clock T) (t : T) (wake : Option ℕ) : Clock T :=
  { c with sleepers := c.sleepers ++ [(t, wake)] }

def Clock.remove [DecidableEq T] (c : Clock T) (t : T) : Clock T :=
  { c with sleepers := c.sleepers.filter fun x => x.1 ≠ t }

def Clock.release [DecidableEq T] (c : Clock T) : Clock T :=
  { c.unblocked.foldl Clock.remove c with unblocked := [] }

def Clock.ticks : ℕ → Clock T → List T × Clock T
  | 0, c => ([], c)
  | n + 1, c => (c.tick.1 ++ (c.tick.2.ticks n).1, (c.tick.2.ticks n).2)

def Clock.resumeAll [DecidableEq T] (c : Clock T) : Option (List T × Clock T) :=
  if c.depth = 0 then none
  else
    let c := { c with depth := c.depth - 1 }
    if c.depth = 0 then
      let x := c.release.ticks c.release.pended
      some (c.unblocked ++ x.1, { x.2 with pended := 0 })
    else some ([], c)

def clockSpec [DecidableEq T] : KernelOp T → Clock T → Option (List T × Clock T)
  | .tick, c => some (if c.depth = 0 then c.tick else ([], { c with pended := c.pended + 1 }))
  | .delay t n indefinitely, c =>
    some ([], c.sleep t (if n = portMaxDelay tickValues ∧ indefinitely = true then none else some (c.now + n)))
  | .unblock t, c =>
    some (if c.depth = 0 then ([t], c.remove t) else ([], { c with unblocked := c.unblocked ++ [t] }))
  | .suspendAll, c => some ([], { c with depth := c.depth + 1 })
  | .resumeAll, c => c.resumeAll

/-- The lists of the kernel hold the sleepers: for each wake time, in their order. -/
structure Lists (c : Clock T) (s : Kernel T) : Prop where
  tick : s.xTickCount = c.now % tickValues
  overflows : s.xNumOfOverflows = c.now / tickValues % baseTypeValues
  forever : s.xSuspendedTaskList = (c.sleepers.filter fun x => x.2 = none).map Prod.fst
  current : ∀ v, v < tickValues → ofValue Prod.snd v s.pxDelayedTaskList =
    (c.due (c.now / tickValues * tickValues + v)).map fun t => (t, v)
  next : ∀ v, v < tickValues → ofValue Prod.snd v s.pxOverflowDelayedTaskList =
    (c.due ((c.now / tickValues + 1) * tickValues + v)).map fun t => (t, v)
  sorted : Ascending Prod.snd s.pxDelayedTaskList ∧ Ascending Prod.snd s.pxOverflowDelayedTaskList
  values : ∀ x ∈ s.pxDelayedTaskList ++ s.pxOverflowDelayedTaskList, x.2 < tickValues
  unblockTime : ∀ x ∈ s.pxDelayedTaskList, s.xNextTaskUnblockTime ≤ x.2
  horizon : ∀ x ∈ c.sleepers, ∀ d, x.2 = some d → d < (c.now / tickValues + 2) * tickValues

structure Tracks (c : Clock T) (s : Kernel T) : Prop where
  lists : Lists tickValues c s
  ahead : ∀ x ∈ s.pxDelayedTaskList, s.xTickCount < x.2
  depth : s.uxSchedulerSuspended = c.depth
  pended : s.xPendedTicks = c.pended
  unblocked : s.xPendingReadyList = c.unblocked

variable {tickValues} {c : Clock T} {s : Kernel T}

theorem Lists.counts (h : Lists tickValues c s) (unblocked pending : List T) (depth depth' pended pended' : ℕ) :
    Lists tickValues { c with unblocked := unblocked, depth := depth, pended := pended }
      { s with xPendingReadyList := pending, uxSchedulerSuspended := depth', xPendedTicks := pended' } :=
  ⟨h.tick, h.overflows, h.forever, h.current, h.next, h.sorted, h.values, h.unblockTime, h.horizon⟩

theorem unblockDue_eq (k : ℕ) (l : List (Item T)) : unblockDue tickValues k l =
    ((l.takeWhile fun x => x.2 ≤ k).map Prod.fst, l.dropWhile fun x => x.2 ≤ k,
      ((l.dropWhile fun x => x.2 ≤ k).head?.map Prod.snd).getD (portMaxDelay tickValues)) := by
  induction l with
  | nil => rfl
  | cons x rest ih =>
    obtain ⟨t, v⟩ := x
    unfold unblockDue
    by_cases hv : k < v
    · have hle : ¬ decide (v ≤ k) = true := by simpa using hv
      rw [if_pos hv, List.takeWhile_cons, List.dropWhile_cons, if_neg hle, if_neg hle]
      rfl
    · have hle : decide (v ≤ k) = true := by simpa using hv
      rw [if_neg hv, List.takeWhile_cons, List.dropWhile_cons, if_pos hle, if_pos hle, ih]
      rfl

theorem head_least {l : List (Item T)} (h : Ascending Prod.snd l) (m : ℕ) :
    ∀ x ∈ l, (l.head?.map Prod.snd).getD m ≤ x.2 := by
  cases l with
  | nil => nofun
  | cons y rest =>
    intro x hx
    rcases List.mem_cons.mp hx with rfl | hx
    · exact Nat.le_refl _
    · exact (List.pairwise_cons.mp h).1 x hx

theorem due_without (c : Clock T) (k d : ℕ) : (c.without k).due d = if d = k then [] else c.due d := by
  unfold Clock.due Clock.without
  rw [List.filter_filter]
  split_ifs with hd
  · rw [List.filter_eq_nil_iff.mpr, List.map_nil]
    intro x _
    simp [hd]
  · congr 1
    apply List.filter_congr
    intro x _
    by_cases hx : x.2 = some d
    · simp [hx, hd]
    · simp [hx]

theorem due_sleep (c : Clock T) (t : T) (wake : Option ℕ) (d : ℕ) :
    (c.sleep t wake).due d = c.due d ++ if wake = some d then [t] else [] := by
  unfold Clock.due Clock.sleep
  rw [List.filter_append, List.map_append]
  congr 1
  by_cases hd : wake = some d
  · simp [hd]
  · simp [hd]

theorem due_remove [DecidableEq T] (c : Clock T) (t : T) (d : ℕ) :
    (c.remove t).due d = (c.due d).filter fun u => u ≠ t := by
  unfold Clock.due Clock.remove
  rw [List.filter_filter, List.filter_map, List.filter_filter]
  congr 1
  apply List.filter_congr
  intro x _
  exact Bool.and_comm _ _

theorem ofValue_filter {β : Type} {value : β → ℕ} {l : List β} (p : β → Bool) (k : ℕ) :
    ofValue value k (l.filter p) = (ofValue value k l).filter p := by
  unfold ofValue
  rw [List.filter_filter, List.filter_filter]
  exact List.filter_congr fun x _ => Bool.and_comm _ _

theorem now_split (c : Clock T) : c.now / tickValues * tickValues + c.now % tickValues = c.now := by
  rw [Nat.mul_comm]
  exact Nat.div_add_mod _ _

/-- Whether the list is looked at or not, what has the value of the tick count leaves it. -/
theorem unblockTasks_eq (tickValues : ℕ) (sorted : Ascending Prod.snd s.pxDelayedTaskList)
    (low : ∀ x ∈ s.pxDelayedTaskList, s.xTickCount ≤ x.2)
    (unblockTime : ∀ x ∈ s.pxDelayedTaskList, s.xNextTaskUnblockTime ≤ x.2) :
    ∃ n, unblockTasks tickValues s = ((ofValue Prod.snd s.xTickCount s.pxDelayedTaskList).map Prod.fst,
        { s with
          pxDelayedTaskList := s.pxDelayedTaskList.filter fun x => x.2 ≠ s.xTickCount
          xNextTaskUnblockTime := n }) ∧
      ∀ x ∈ s.pxDelayedTaskList.filter fun x => x.2 ≠ s.xTickCount, n ≤ x.2 := by
  unfold unblockTasks
  split_ifs with hnext
  · obtain ⟨htake, hdrop⟩ := takeWhile_least sorted low
    rw [unblockDue_eq, htake, hdrop]
    exact ⟨_, rfl, head_least (ascending_filter sorted _) _⟩
  · -- nothing in the list is due
    have hlater : ∀ x ∈ s.pxDelayedTaskList, x.2 ≠ s.xTickCount := by
      intro x hx
      have := unblockTime x hx
      omega
    have hall : (s.pxDelayedTaskList.filter fun x => x.2 ≠ s.xTickCount) = s.pxDelayedTaskList := by
      apply List.filter_eq_self.mpr
      intro x hx
      simpa using hlater x hx
    rw [ofValue_none hlater, hall]
    exact ⟨s.xNextTaskUnblockTime, rfl, unblockTime⟩

/-- The tick count has gone on, and nothing that was due before is left in the list:
what becomes ready is what is due now. -/
theorem unblockTasks_due (h : Lists tickValues c s) (hM : 0 < tickValues)
    (low : ∀ x ∈ s.pxDelayedTaskList, s.xTickCount ≤ x.2) :
    ∃ u, unblockTasks tickValues s = (c.due c.now, u) ∧ Lists tickValues (c.without c.now) u ∧
      (∀ x ∈ u.pxDelayedTaskList, u.xTickCount < x.2) ∧ u.uxSchedulerSuspended = s.uxSchedulerSuspended ∧
      u.xPendedTicks = s.xPendedTicks ∧ u.xPendingReadyList = s.xPendingReadyList := by
  obtain ⟨n, heq, hn⟩ := unblockTasks_eq tickValues h.sorted.1 low h.unblockTime
  have hk : s.xTickCount < tickValues := h.tick ▸ Nat.mod_lt _ hM
  have hdue : (ofValue Prod.snd s.xTickCount s.pxDelayedTaskList).map Prod.fst = c.due c.now := by
    rw [h.current _ hk, h.tick, now_split, List.map_map]
    exact List.map_id _
  rw [hdue] at heq
  have hsplit : c.now / tickValues * tickValues + c.now % tickValues = c.now := now_split c
  have htick := h.tick
  refine ⟨_, heq, ⟨h.tick, h.overflows, ?_, ?_, ?_, ⟨ascending_filter h.sorted.1 _, h.sorted.2⟩, ?_, hn, ?_⟩,
    ?_, rfl, rfl, rfl⟩
  · rw [h.forever]
    unfold Clock.without
    rw [List.filter_filter]
    congr 1
    apply List.filter_congr
    intro x _
    by_cases hx : x.2 = none
    · simp [hx]
    · simp [hx]
  · intro v hv
    change ofValue Prod.snd v (s.pxDelayedTaskList.filter fun x => x.2 ≠ s.xTickCount) =
      ((c.without c.now).due (c.now / tickValues * tickValues + v)).map fun t => (t, v)
    rw [ofValue_filter, h.current v hv, due_without, List.filter_map]
    by_cases hvk : v = s.xTickCount
    · rw [if_pos (by omega), List.filter_eq_nil_iff.mpr]
      intro t _
      simp [hvk]
    · rw [if_neg (by omega), List.filter_eq_self.mpr]
      intro t _
      simp [hvk]
  · intro v hv
    have hnext : (c.now / tickValues + 1) * tickValues = c.now / tickValues * tickValues + tickValues :=
      Nat.succ_mul _ _
    change ofValue Prod.snd v s.pxOverflowDelayedTaskList =
      ((c.without c.now).due ((c.now / tickValues + 1) * tickValues + v)).map fun t => (t, v)
    rw [h.next v hv, due_without, if_neg (by omega)]
  · intro x hx
    apply h.values
    rcases List.mem_append.mp hx with hx | hx
    · exact List.mem_append_left _ (List.mem_filter.mp hx).1
    · exact List.mem_append_right _ hx
  · intro x hx
    exact h.horizon x (List.mem_filter.mp hx).1
  · intro x hx
    obtain ⟨hx, hne⟩ := List.mem_filter.mp hx
    have hle := low x hx
    have hne : x.2 ≠ s.xTickCount := by simpa using hne
    change s.xTickCount < x.2
    omega

theorem advance_lists (h : Lists tickValues c s) (hwrap : (c.now + 1) % tickValues ≠ 0) :
    Lists tickValues { c with now := c.now + 1 } { s with xTickCount := (s.xTickCount + 1) % tickValues } := by
  have hdiv : (c.now + 1) / tickValues = c.now / tickValues :=
    Nat.succ_div_of_not_dvd fun hdvd => hwrap (Nat.mod_eq_zero_of_dvd hdvd)
  refine ⟨?_, ?_, h.forever, ?_, ?_, h.sorted, h.values, h.unblockTime, ?_⟩
  · rw [h.tick, Nat.mod_add_mod]
  · rw [hdiv]
    exact h.overflows
  · rw [hdiv]
    exact h.current
  · rw [hdiv]
    exact h.next
  · rw [hdiv]
    exact h.horizon

/-- It wraps: the overflow list becomes the delayed list. -/
theorem switch_lists (h : Lists tickValues c s) (hM : 0 < tickValues)
    (ahead : ∀ x ∈ s.pxDelayedTaskList, s.xTickCount < x.2) (hwrap : (c.now + 1) % tickValues = 0) :
    ∃ u, taskSwitchDelayedLists tickValues { s with xTickCount := 0 } = some u ∧
      Lists tickValues { c with now := c.now + 1 } u ∧ u.xTickCount = 0 ∧
      u.uxSchedulerSuspended = s.uxSchedulerSuspended ∧ u.xPendedTicks = s.xPendedTicks ∧
      u.xPendingReadyList = s.xPendingReadyList := by
  have hdiv : (c.now + 1) / tickValues = c.now / tickValues + 1 :=
    Nat.succ_div_of_dvd (Nat.dvd_of_mod_eq_zero hwrap)
  have hlast : s.xTickCount + 1 = tickValues := by
    have hlt : s.xTickCount < tickValues := h.tick ▸ Nat.mod_lt _ hM
    rw [← Nat.mod_add_mod, ← h.tick] at hwrap
    by_contra hne
    rw [Nat.mod_eq_of_lt (by omega)] at hwrap
    omega
  have hempty : s.pxDelayedTaskList = [] := by
    apply List.eq_nil_iff_forall_not_mem.mpr
    intro x hx
    have hlow := ahead x hx
    have hhigh := h.values x (List.mem_append_left _ hx)
    omega
  refine ⟨_, if_pos hempty, ⟨?_, ?_, h.forever, ?_, ?_, ⟨h.sorted.2, hempty ▸ List.Pairwise.nil⟩, ?_, ?_, ?_⟩,
    rfl, rfl, rfl, rfl⟩
  · exact hwrap.symm
  · have hcount : (s.xNumOfOverflows + 1) % baseTypeValues = (c.now / tickValues + 1) % baseTypeValues := by
      rw [h.overflows, Nat.mod_add_mod]
    rw [hdiv]
    exact hcount
  · rw [hdiv]
    exact h.next
  · -- nobody sleeps for longer than one period
    intro v hv
    have hnone : c.due ((c.now / tickValues + 1 + 1) * tickValues + v) = [] := by
      unfold Clock.due
      rw [List.filter_eq_nil_iff.mpr, List.map_nil]
      intro x hx
      simp only [decide_eq_true_eq]
      intro hd
      have hfar : _ < (c.now / tickValues + 1 + 1) * tickValues := h.horizon x hx _ hd
      omega
    rw [hdiv]
    change ofValue Prod.snd v s.pxDelayedTaskList =
      (c.due ((c.now / tickValues + 1 + 1) * tickValues + v)).map fun t => (t, v)
    rw [hempty, hnone]
    rfl
  · intro x hx
    apply h.values
    rcases List.mem_append.mp hx with hx | hx
    · exact List.mem_append_right _ hx
    · exact List.mem_append_left _ hx
  · exact head_least h.sorted.2 _
  · intro x hx d hd
    have hfar := h.horizon x hx d hd
    rw [hdiv]
    exact Nat.lt_of_lt_of_le hfar (Nat.mul_le_mul_right _ (by omega))

/-- A tick wakes those who are due, and nobody else. -/
theorem tick_tracks (h : Tracks tickValues c s) (hM : 0 < tickValues) (run : s.uxSchedulerSuspended = 0) :
    ∃ u, xTaskIncrementTick tickValues s = some (c.tick.1, u) ∧ Tracks tickValues c.tick.2 u := by
  obtain ⟨v, hv, hlists, hlow, hdepth, hpended, hunblocked⟩ : ∃ v,
      (if (s.xTickCount + 1) % tickValues = 0 then
        taskSwitchDelayedLists tickValues { s with xTickCount := (s.xTickCount + 1) % tickValues }
        else some { s with xTickCount := (s.xTickCount + 1) % tickValues }) = some v ∧
      Lists tickValues { c with now := c.now + 1 } v ∧ (∀ x ∈ v.pxDelayedTaskList, v.xTickCount ≤ x.2) ∧
      v.uxSchedulerSuspended = s.uxSchedulerSuspended ∧ v.xPendedTicks = s.xPendedTicks ∧
      v.xPendingReadyList = s.xPendingReadyList := by
    have hcount : (s.xTickCount + 1) % tickValues = (c.now + 1) % tickValues := by
      rw [h.lists.tick, Nat.mod_add_mod]
    by_cases hwrap : (s.xTickCount + 1) % tickValues = 0
    · obtain ⟨v, hv, hl, hzero, hrest⟩ := switch_lists h.lists hM h.ahead (hcount ▸ hwrap)
      rw [if_pos hwrap, hwrap]
      exact ⟨v, hv, hl, fun x _ => hzero ▸ Nat.zero_le _, hrest⟩
    · rw [if_neg hwrap]
      refine ⟨_, rfl, advance_lists h.lists (hcount ▸ hwrap), ?_, rfl, rfl, rfl⟩
      intro x hx
      exact Nat.le_trans (Nat.mod_le _ _) (h.ahead x hx)
  obtain ⟨u, hu, hlists', hahead, hdepth', hpended', hunblocked'⟩ := unblockTasks_due hlists hM hlow
  refine ⟨u, ?_, hlists', hahead, ?_, ?_, ?_⟩
  · unfold xTaskIncrementTick
    rw [if_pos run]
    simp only
    rw [hv, Option.map_some, hu]
    rfl
  · rw [hdepth', hdepth]
    exact h.depth
  · rw [hpended', hpended]
    exact h.pended
  · rw [hunblocked', hunblocked]
    exact h.unblocked

theorem ticks_track (n : ℕ) (h : Tracks tickValues c s) (hM : 0 < tickValues) (run : s.uxSchedulerSuspended = 0) :
    ∃ u, unwindTicks tickValues n s = some ((c.ticks n).1, u) ∧ Tracks tickValues (c.ticks n).2 u := by
  induction n generalizing c s with
  | zero => exact ⟨s, rfl, h⟩
  | succ n ih =>
    obtain ⟨v, hv, htracks⟩ := tick_tracks h hM run
    have hdepth : v.uxSchedulerSuspended = 0 := htracks.depth.trans (h.depth.symm.trans run)
    obtain ⟨u, hu, hlast⟩ := ih htracks hdepth
    refine ⟨u, ?_, hlast⟩
    unfold unwindTicks
    rw [hv, Option.bind_some, hu]
    rfl

/-- An insertion for wake time `d` into the list of a period that starts at `e`. -/
theorem insert_due {l : List (Item T)} {e d k : ℕ} (sorted : Ascending Prod.snd l) (hd : d = e + k) {v : ℕ}
    (h : ofValue Prod.snd v l = (c.due (e + v)).map fun t => (t, v)) (t : T) :
    ofValue Prod.snd v (insertSorted Prod.snd (t, k) l) =
      ((c.sleep t (some d)).due (e + v)).map fun t => (t, v) := by
  rw [ofValue_insertSorted sorted, due_sleep, List.map_append, h]
  congr 1
  by_cases hk : k = v
  · rw [if_pos hk, if_pos (by rw [hd, hk]), hk]
    rfl
  · rw [if_neg hk, if_neg fun heq => hk (by have := Option.some.inj heq; omega)]
    rfl

theorem due_elsewhere {e d v : ℕ} {l : List (Item T)} (hd : d ≠ e + v)
    (h : ofValue Prod.snd v l = (c.due (e + v)).map fun t => (t, v)) (t : T) :
    ofValue Prod.snd v l = ((c.sleep t (some d)).due (e + v)).map fun t => (t, v) := by
  rw [due_sleep, if_neg fun heq => hd (Option.some.inj heq), List.append_nil]
  exact h

/-- Whoever goes to sleep comes behind all who are to wake at the same time. -/
theorem sleep_lists (h : Lists tickValues c s) (t : T) {n : ℕ} (hpos : 0 < n) (hn : n < tickValues) :
    Lists tickValues (c.sleep t (some (c.now + n)))
      (if (s.xTickCount + n) % tickValues < s.xTickCount then
        { s with pxOverflowDelayedTaskList :=
            insertSorted Prod.snd (t, (s.xTickCount + n) % tickValues) s.pxOverflowDelayedTaskList }
      else
        { s with
          pxDelayedTaskList := insertSorted Prod.snd (t, (s.xTickCount + n) % tickValues) s.pxDelayedTaskList
          xNextTaskUnblockTime := if (s.xTickCount + n) % tickValues < s.xNextTaskUnblockTime then
            (s.xTickCount + n) % tickValues else s.xNextTaskUnblockTime }) := by
  have hsplit : c.now / tickValues * tickValues + c.now % tickValues = c.now := now_split c
  have hcount : c.now % tickValues < tickValues := Nat.mod_lt _ (by omega)
  have htick := h.tick
  have hnext : (c.now / tickValues + 1) * tickValues = c.now / tickValues * tickValues + tickValues :=
    Nat.succ_mul _ _
  have hforever : ((c.sleep t (some (c.now + n))).sleepers.filter fun x => x.2 = none).map Prod.fst =
      (c.sleepers.filter fun x => x.2 = none).map Prod.fst := by
    unfold Clock.sleep
    simp
  have hhorizon : ∀ x ∈ (c.sleep t (some (c.now + n))).sleepers, ∀ d, x.2 = some d →
      d < (c.now / tickValues + 2) * tickValues := by
    intro x hx d hd
    rcases List.mem_append.mp hx with hx | hx
    · exact h.horizon x hx d hd
    · obtain rfl := List.mem_singleton.mp hx
      have htwo : (c.now / tickValues + 2) * tickValues = (c.now / tickValues + 1) * tickValues + tickValues :=
        Nat.succ_mul _ _
      have hd := Option.some.inj hd
      omega
  have hvalue : (s.xTickCount + n) % tickValues < tickValues := Nat.mod_lt _ (by omega)
  by_cases hover : s.xTickCount + n < tickValues
  · -- the wake time is in the current period
    have hmod : (s.xTickCount + n) % tickValues = s.xTickCount + n := Nat.mod_eq_of_lt hover
    rw [if_neg (by omega), hmod]
    refine ⟨h.tick, h.overflows, h.forever.trans hforever.symm,
      fun v hv => insert_due h.sorted.1 (by omega) (h.current v hv) t,
      fun v hv => due_elsewhere (by omega) (h.next v hv) t,
      ⟨insertSorted_ascending h.sorted.1 _, h.sorted.2⟩, ?_, ?_, hhorizon⟩
    · intro x hx
      rcases List.mem_append.mp hx with hx | hx
      · rcases mem_insertSorted.mp hx with rfl | hx
        · exact hover
        · exact h.values x (List.mem_append_left _ hx)
      · exact h.values x (List.mem_append_right _ hx)
    · intro x hx
      rcases mem_insertSorted.mp hx with rfl | hx
      · simp only
        split_ifs <;> omega
      · have hle := h.unblockTime x hx
        simp only
        split_ifs <;> omega
  · have hmod : (s.xTickCount + n) % tickValues = s.xTickCount + n - tickValues := by
      rw [Nat.mod_eq_sub_mod (by omega), Nat.mod_eq_of_lt (by omega)]
    rw [if_pos (by omega), hmod]
    refine ⟨h.tick, h.overflows, h.forever.trans hforever.symm,
      fun v hv => due_elsewhere (by omega) (h.current v hv) t,
      fun v hv => insert_due h.sorted.2 (by omega) (h.next v hv) t,
      ⟨h.sorted.1, insertSorted_ascending h.sorted.2 _⟩, ?_, h.unblockTime, hhorizon⟩
    intro x hx
    rcases List.mem_append.mp hx with hx | hx
    · exact h.values x (List.mem_append_left _ hx)
    · rcases mem_insertSorted.mp hx with rfl | hx
      · simp only
        omega
      · exact h.values x (List.mem_append_right _ hx)

/-- Whoever sleeps for ever is in no list that a tick looks at. -/
theorem sleep_forever (h : Lists tickValues c s) (t : T) :
    Lists tickValues (c.sleep t none) { s with xSuspendedTaskList := s.xSuspendedTaskList ++ [t] } := by
  have hdue : ∀ d, (c.sleep t none).due d = c.due d := by
    intro d
    rw [due_sleep, if_neg nofun, List.append_nil]
  refine ⟨h.tick, h.overflows, ?_, ?_, ?_, h.sorted, h.values, h.unblockTime, ?_⟩
  · unfold Clock.sleep
    simp [h.forever]
  · intro v hv
    rw [hdue]
    exact h.current v hv
  · intro v hv
    rw [hdue]
    exact h.next v hv
  · intro x hx d hd
    rcases List.mem_append.mp hx with hx | hx
    · exact h.horizon x hx d hd
    · obtain rfl := List.mem_singleton.mp hx
      cases hd

theorem delay_tracks (h : Tracks tickValues c s) (t : T) {n : ℕ} (hpos : 0 < n) (hn : n < tickValues)
    (indefinitely : Bool) :
    Tracks tickValues
      (c.sleep t (if n = portMaxDelay tickValues ∧ indefinitely = true then none else some (c.now + n)))
      (prvAddCurrentTaskToDelayedList tickValues s t n indefinitely) := by
  unfold prvAddCurrentTaskToDelayedList
  by_cases hever : n = portMaxDelay tickValues ∧ indefinitely = true
  · rw [if_pos hever, if_pos hever]
    exact ⟨sleep_forever h.lists t, h.ahead, h.depth, h.pended, h.unblocked⟩
  · have hlists := sleep_lists h.lists t hpos hn
    have hcount : s.xTickCount < tickValues := h.lists.tick ▸ Nat.mod_lt _ (by omega)
    rw [if_neg hever, if_neg hever]
    by_cases hover : (s.xTickCount + n) % tickValues < s.xTickCount
    · rw [if_pos hover] at hlists
      simp only [if_pos hover]
      exact ⟨hlists, h.ahead, h.depth, h.pended, h.unblocked⟩
    · rw [if_neg hover] at hlists
      simp only [if_neg hover]
      refine ⟨hlists, ?_, h.depth, h.pended, h.unblocked⟩
      intro x hx
      rcases mem_insertSorted.mp hx with rfl | hx
      · -- a wake time of a whole period ahead would have wrapped
        have hfar : s.xTickCount + n < tickValues := by
          by_contra hge
          rw [Nat.mod_eq_sub_mod (by omega), Nat.mod_eq_of_lt (by omega)] at hover
          omega
        change s.xTickCount < (s.xTickCount + n) % tickValues
        rw [Nat.mod_eq_of_lt hfar]
        omega
      · exact h.ahead x hx

theorem remove_tracks [DecidableEq T] (h : Tracks tickValues c s) (t : T) :
    Tracks tickValues (c.remove t) (removeStateItem s t) := by
  obtain ⟨hlists, hahead, hdepth, hpended, hunblocked⟩ := h
  have hvalue : ∀ (v d : ℕ) (l : List (Item T)), ofValue Prod.snd v l = (c.due d).map (fun u => (u, v)) →
      ofValue Prod.snd v (l.filter fun x => x.1 ≠ t) = ((c.remove t).due d).map fun u => (u, v) := by
    intro v d l hl
    rw [ofValue_filter, hl, due_remove, List.filter_map]
    rfl
  refine ⟨⟨hlists.tick, hlists.overflows, ?_, fun v hv => hvalue v _ _ (hlists.current v hv),
    fun v hv => hvalue v _ _ (hlists.next v hv),
    ⟨ascending_filter hlists.sorted.1 _, ascending_filter hlists.sorted.2 _⟩, ?_, ?_, ?_⟩, ?_, hdepth, hpended,
    hunblocked⟩
  · unfold removeStateItem Clock.remove
    simp only
    rw [hlists.forever, List.filter_map, List.filter_filter, List.filter_filter]
    congr 1
    apply List.filter_congr
    intro x _
    exact Bool.and_comm _ _
  · intro x hx
    apply hlists.values
    rcases List.mem_append.mp hx with hx | hx
    · exact List.mem_append_left _ (List.mem_filter.mp hx).1
    · exact List.mem_append_right _ (List.mem_filter.mp hx).1
  · exact fun x hx => hlists.unblockTime x (List.mem_filter.mp hx).1
  · exact fun x hx => hlists.horizon x (List.mem_filter.mp hx).1
  · exact fun x hx => hahead x (List.mem_filter.mp hx).1

theorem remove_all [DecidableEq T] (l : List T) (h : Tracks tickValues c s) :
    Tracks tickValues (l.foldl Clock.remove c) (l.foldl removeStateItem s) := by
  induction l generalizing c s with
  | nil => exact h
  | cons t rest ih => exact ih (remove_tracks h t)

theorem reset_tracks (h : Tracks tickValues c s) : Tracks tickValues c (prvResetNextTaskUnblockTime tickValues s) := by
  obtain ⟨hlists, hahead, hdepth, hpended, hunblocked⟩ := h
  exact ⟨⟨hlists.tick, hlists.overflows, hlists.forever, hlists.current, hlists.next, hlists.sorted,
    hlists.values, head_least hlists.sorted.1 _, hlists.horizon⟩, hahead, hdepth, hpended, hunblocked⟩

theorem release_tracks [DecidableEq T] (h : Tracks tickValues c s) :
    Tracks tickValues c.release (releasePending tickValues s) := by
  obtain ⟨hlists, hahead, hdepth, hpended, -⟩ := remove_all s.xPendingReadyList h
  have hout : Tracks tickValues c.release
      { s.xPendingReadyList.foldl removeStateItem s with xPendingReadyList := [] } := by
    unfold Clock.release
    rw [← h.unblocked]
    exact ⟨hlists.counts _ _ _ _ _ _, hahead, hdepth, hpended, rfl⟩
  unfold releasePending
  split_ifs
  · exact hout
  · exact reset_tracks hout

theorem remove_depth [DecidableEq T] (l : List T) (c : Clock T) : (l.foldl Clock.remove c).depth = c.depth := by
  induction l generalizing c with
  | nil => rfl
  | cons t rest ih => exact ih (c.remove t)

theorem resume_agrees [DecidableEq T] (h : Tracks tickValues c s) (hM : 0 < tickValues) :
    Agree (Tracks tickValues) c.resumeAll (xTaskResumeAll tickValues s) := by
  have hdepth := h.depth
  unfold Clock.resumeAll xTaskResumeAll
  by_cases hzero : c.depth = 0
  · rw [if_pos hzero, if_pos (hdepth.trans hzero)]
    trivial
  · have hzero' : s.uxSchedulerSuspended ≠ 0 := fun hs => hzero (hdepth.symm.trans hs)
    rw [if_neg hzero, if_neg hzero']
    have hout : Tracks tickValues { c with depth := c.depth - 1 }
        { s with uxSchedulerSuspended := s.uxSchedulerSuspended - 1 } :=
      ⟨h.lists.counts _ _ _ _ _ _, h.ahead, congrArg (· - 1) hdepth, h.pended, h.unblocked⟩
    simp only
    by_cases hone : c.depth - 1 = 0
    · have hone' : s.uxSchedulerSuspended - 1 = 0 := by omega
      rw [if_pos hone, if_pos hone']
      -- the tasks that were held back, then the ticks that were
      have hrelease := release_tracks hout
      have hrun := hrelease.depth.trans ((remove_depth c.unblocked { c with depth := c.depth - 1 }).trans hone)
      obtain ⟨u, hu, hlast⟩ := ticks_track _ hrelease hM hrun
      rw [hrelease.pended, hu, Option.map_some, h.unblocked]
      exact agree_some ⟨hlast.lists.counts _ _ _ _ _ _, hlast.ahead, hlast.depth, rfl, hlast.unblocked⟩
    · have hone' : s.uxSchedulerSuspended - 1 ≠ 0 := by omega
      rw [if_neg hone, if_neg hone']
      exact agree_some hout

/-- No task is told to wait for no time, times fit a TickType_t, and so do the ticks
that are held back; suspensions are not nested too deep to be counted. -/
def Timed (tickValues : ℕ) : KernelOp T → Clock T → Prop
  | .delay _ n _, _ => 0 < n ∧ n < tickValues
  | .tick, c => c.depth = 0 ∨ c.pended + 1 < tickValues
  | .suspendAll, c => c.depth + 1 < baseTypeValues
  | _, _ => True

theorem call_agrees [DecidableEq T] (op : KernelOp T) (hop : Timed tickValues op c) (h : Tracks tickValues c s)
    (hM : 0 < tickValues) :
    Agree (Tracks tickValues) (clockSpec tickValues op c) (callKernel tickValues op s) := by
  have hdepth := h.depth
  cases op with
  | tick =>
    simp only [clockSpec, callKernel]
    by_cases hzero : c.depth = 0
    · obtain ⟨u, hu, htracks⟩ := tick_tracks h hM (hdepth.trans hzero)
      rw [if_pos hzero, hu]
      exact agree_some htracks
    · have hpended : (s.xPendedTicks + 1) % tickValues = c.pended + 1 := by
        rw [h.pended, Nat.mod_eq_of_lt (hop.resolve_left hzero)]
      unfold xTaskIncrementTick
      rw [if_neg hzero, if_neg (by omega)]
      exact agree_some ⟨h.lists.counts _ _ _ _ _ _, h.ahead, h.depth, hpended, h.unblocked⟩
  | delay t n indefinitely => exact agree_some (delay_tracks h t hop.1 hop.2 indefinitely)
  | unblock t =>
    simp only [clockSpec, callKernel, unblockTask]
    by_cases hzero : c.depth = 0
    · rw [if_pos hzero, if_pos (hdepth.trans hzero)]
      exact agree_some (remove_tracks h t)
    · rw [if_neg hzero, if_neg (by omega)]
      exact agree_some ⟨h.lists.counts _ _ _ _ _ _, h.ahead, h.depth, h.pended,
        congrArg (· ++ [t]) h.unblocked⟩
  | suspendAll =>
    have hnested : (s.uxSchedulerSuspended + 1) % baseTypeValues = c.depth + 1 := by
      rw [h.depth, Nat.mod_eq_of_lt hop]
    exact agree_some ⟨h.lists.counts _ _ _ _ _ _, h.ahead, hnested, h.pended, h.unblocked⟩
  | resumeAll => exact resume_agrees h hM

/-- Through any number of wraps of the tick count, and with ticks that are held back and
made up for: the tasks wake as on a clock that never wraps, at the time they asked
for and in the order in which they asked. -/
theorem tasks_wake_on_time [DecidableEq T] {xTickCount : ℕ} (first : xTickCount < tickValues)
    {ops : List (KernelOp T)} (hops : AllRun (clockSpec tickValues) (Timed tickValues) ops (.start xTickCount)) :
    Agree (Tracks tickValues) (runAll (clockSpec tickValues) ops (.start xTickCount))
      (runAll (callKernel tickValues) ops (.start tickValues xTickCount)) := by
  have hM : 0 < tickValues := by omega
  apply runAll_agree (fun op _ _ hop hS => call_agrees op hop hS hM) hops
  have hperiod : 0 = xTickCount / tickValues % baseTypeValues := by rw [Nat.div_eq_of_lt first, Nat.zero_mod]
  refine ⟨⟨(Nat.mod_eq_of_lt first).symm, hperiod, rfl, fun _ _ => rfl, fun _ _ => rfl,
    ⟨List.Pairwise.nil, List.Pairwise.nil⟩, nofun, nofun, nofun⟩, nofun, rfl, rfl, rfl⟩

/-- Two tasks sleep over the wrap, the second of them while the scheduler is suspended. -/
def overWrap : List (KernelOp Bool) :=
  [.delay true 3 false, .tick, .suspendAll, .delay false 2 true, .tick, .tick, .resumeAll]

theorem tasks_wake_on_time_wrap : ∃ (c : Clock Bool) (u : Kernel Bool),
    runAll (callKernel 0x100000000) overWrap (.start 0x100000000 0xFFFFFFFF) =
        some ([[], [], [], [], [], [], [true, false]], u) ∧
      Tracks 0x100000000 c u := by
  have hspec : (runAll (clockSpec 0x100000000) overWrap (.start 0xFFFFFFFF)).map Prod.fst =
      some [[], [], [], [], [], [], [true, false]] := by
    decide +kernel
  obtain ⟨⟨answers, c⟩, hc, rfl⟩ := Option.map_eq_some_iff.mp hspec
  obtain ⟨u, hu, htracks⟩ := agree_answers (tasks_wake_on_time (by decide) (by
    simp [overWrap, AllRun, Timed, clockSpec, Clock.start, Clock.sleep, Clock.tick, Clock.without, baseTypeValues])) hc
  exact ⟨c, u, hu, htracks⟩

end

end Stm32NetworkStack.DelayedTasks
