import Mathlib.Data.List.Nodup
import Stm32NetworkStack.BlockingQueues

set_option autoImplicit false

/-!
# Event lists and locks of a queue

In every state that the calls on a queue can reach: a task on an event list is
blocked and about to look at the queue when it is woken, only the task that has
suspended the scheduler is inside of the part that needs this (or it is in a call
that does not wait), and a lock is set only while that task holds it.
-/
namespace Stm32NetworkStack.QueueLocks
open BoundedQueues SortedLists BlockingQueues

section
variable {cap : ℕ} {T α : Type} [DecidableEq T]

/-- What the lists, the locks and the places of the tasks have to do with each other. -/
structure Shape (s : State cap T α) : Prop where
  nodup : ∀ d, (s.waiting d).Nodup
  looks : ∀ d, ∀ t ∈ s.waiting d, (s.pc t).looks = some d
  blocked : ∀ d, ∀ t ∈ s.waiting d, s.blocked t = true
  waits : ∀ t, s.blocked t = true → (∃ d, t ∈ s.waiting d) ∨ t ∈ s.xPendingReadyList
  sleeps : ∀ t, s.blocked t = true → (s.pc t).sleeps = true
  held : ∀ t ∈ s.xPendingReadyList, s.blocked t = true ∧ ∀ d, t ∉ s.waiting d
  pending : s.xPendingReadyList ≠ [] → s.uxSchedulerSuspended ≠ none
  inside : ∀ t, (s.pc t).inside = true → s.uxSchedulerSuspended = some t
  suspended : ∀ t, s.uxSchedulerSuspended = some t → (s.pc t).inside = true ∨ s.pc t = .idle ∨ s.Polls t
  locks : ∀ d, s.lock d ≠ none → ∃ t, s.uxSchedulerSuspended = some t ∧ (s.pc t).holds d = true

variable {s : State cap T α} {t : T} {d : Side}

/-- A task goes on to `p`. -/
theorem goto_shape (h : Shape s) {p : Pc α} (looks : ∀ d, t ∈ s.waiting d → p.looks = some d)
    (sleeps : s.blocked t = true → p.sleeps = true) (inside : p.inside = true → s.uxSchedulerSuspended = some t)
    (suspended : s.uxSchedulerSuspended = some t → p.inside = true ∨ p = .idle ∨ (s.goto t p).Polls t)
    (locks : ∀ d, s.lock d ≠ none → s.uxSchedulerSuspended = some t → p.holds d = true) :
    Shape (s.goto t p) := by
  refine ⟨h.nodup, ?_, h.blocked, h.waits, ?_, h.held, h.pending, ?_, ?_, ?_⟩
  · intro d u hu
    by_cases hut : u = t
    · subst hut
      simpa [State.goto] using looks d hu
    · simpa [State.goto, hut] using h.looks d u hu
  · intro u hu
    by_cases hut : u = t
    · subst hut
      simpa [State.goto] using sleeps hu
    · simpa [State.goto, hut] using h.sleeps u hu
  · intro u hu
    by_cases hut : u = t
    · subst hut
      exact inside (by simpa [State.goto] using hu)
    · exact h.inside u (by simpa [State.goto, hut] using hu)
  · intro u hu
    by_cases hut : u = t
    · subst hut
      simpa [State.goto] using suspended hu
    · simpa [State.goto, State.Polls, hut] using h.suspended u hu
  · intro d hd
    obtain ⟨u, hu, hholds⟩ := h.locks d hd
    refine ⟨u, hu, ?_⟩
    by_cases hut : u = t
    · subst hut
      simpa [State.goto] using locks d hd hu
    · simpa [State.goto, hut] using hholds

theorem setTicks_shape (h : Shape s) {ticks : TicksToWait} (polls : s.Polls t → ticks = .zero) :
    Shape (s.setTicks t ticks) := by
  refine ⟨h.nodup, h.looks, h.blocked, h.waits, h.sleeps, h.held, h.pending, h.inside, ?_, h.locks⟩
  intro u hu
  refine (h.suspended u hu).imp_right fun hout => hout.imp_right fun hpolls => ⟨hpolls.1, ?_, hpolls.2.2⟩
  by_cases hut : u = t
  · subst hut
    simpa [State.setTicks] using polls hpolls
  · simpa [State.setTicks, hut] using hpolls.2.1

theorem wake_shape (h : Shape s) (d : Side) : Shape (xTaskRemoveFromEventList s d) := by
  unfold xTaskRemoveFromEventList
  cases hw : s.waiting d with
  | nil => exact h
  | cons t rest =>
    have hnodup := h.nodup d
    rw [hw, List.nodup_cons] at hnodup
    have hsub : ∀ e, ∀ u ∈ Function.update s.waiting d rest e, u ∈ s.waiting e ∧ u ≠ t := by
      intro e u hu
      by_cases hed : e = d
      · subst hed
        rw [Function.update_self] at hu
        rw [hw]
        exact ⟨List.mem_cons_of_mem t hu, fun heq => hnodup.1 (heq ▸ hu)⟩
      · rw [Function.update_of_ne hed] at hu
        refine ⟨hu, fun heq => hed ?_⟩
        -- a task looks at one side only
        have ht := h.looks d t (hw ▸ List.mem_cons_self)
        rw [← heq, h.looks e u hu] at ht
        exact Option.some.inj ht
    have hlists : ∀ e, (Function.update s.waiting d rest e).Nodup := by
      intro e
      by_cases hed : e = d
      · subst hed
        rw [Function.update_self]
        exact hnodup.2
      · rw [Function.update_of_ne hed]
        exact h.nodup e
    have hstay : ∀ u, u ≠ t → (∃ e, u ∈ s.waiting e) → ∃ e, u ∈ Function.update s.waiting d rest e := by
      rintro u hut ⟨e, he⟩
      refine ⟨e, ?_⟩
      by_cases hed : e = d
      · subst hed
        rw [hw] at he
        rw [Function.update_self]
        exact (List.mem_cons.mp he).resolve_left hut
      · rwa [Function.update_of_ne hed]
    dsimp only
    split_ifs with hs
    · have hempty : s.xPendingReadyList = [] := by
        by_contra hne
        exact h.pending hne hs
      refine ⟨hlists, fun e u hu => h.looks e u (hsub e u hu).1, ?_, ?_, ?_, ?_, h.pending, h.inside,
        fun u hu => absurd (hs.symm.trans hu) nofun, h.locks⟩
      · intro e u hu
        simp only [Function.update_of_ne (hsub e u hu).2]
        exact h.blocked e u (hsub e u hu).1
      · intro u hu
        by_cases hut : u = t
        · simp [hut] at hu
        · simp only [Function.update_of_ne hut] at hu
          exact (h.waits u hu).imp_left (hstay u hut)
      · intro u hu
        by_cases hut : u = t
        · simp [hut] at hu
        · simp only [Function.update_of_ne hut] at hu
          exact h.sleeps u hu
      · intro u hu
        rw [hempty] at hu
        exact absurd hu List.not_mem_nil
    · refine ⟨hlists, fun e u hu => h.looks e u (hsub e u hu).1, fun e u hu => h.blocked e u (hsub e u hu).1,
        ?_, h.sleeps, ?_, fun _ => hs, h.inside, h.suspended, h.locks⟩
      · intro u hu
        by_cases hut : u = t
        · exact Or.inr (by simp [hut])
        · exact (h.waits u hu).imp (hstay u hut) fun hp => List.mem_append_left _ hp
      · intro u hu
        rcases List.mem_append.mp hu with hu | hu
        · exact ⟨(h.held u hu).1, fun e he => (h.held u hu).2 e (hsub e u he).1⟩
        · obtain rfl := List.mem_singleton.mp hu
          exact ⟨h.blocked d u (hw ▸ List.mem_cons_self), fun e he => (hsub e u he).2 rfl⟩

theorem wakeCounted_shape (h : Shape s) (d : Side) (n : ℕ) : Shape (wakeCounted d n s) := by
  induction n generalizing s with
  | zero => exact h
  | succ n ih =>
    unfold wakeCounted
    split_ifs
    · exact h
    · exact ih (wake_shape h d)

theorem wake_same (s : State cap T α) (d : Side) :
    (xTaskRemoveFromEventList s d).pc = s.pc ∧ (xTaskRemoveFromEventList s d).lock = s.lock ∧
      (xTaskRemoveFromEventList s d).uxSchedulerSuspended = s.uxSchedulerSuspended ∧
      (xTaskRemoveFromEventList s d).queue = s.queue ∧ (xTaskRemoveFromEventList s d).log = s.log := by
  unfold xTaskRemoveFromEventList
  cases s.waiting d with
  | nil => simp
  | cons t rest =>
    dsimp only
    split_ifs <;> simp

theorem wakeCounted_same (s : State cap T α) (d : Side) (n : ℕ) :
    (wakeCounted d n s).pc = s.pc ∧ (wakeCounted d n s).lock = s.lock ∧
      (wakeCounted d n s).uxSchedulerSuspended = s.uxSchedulerSuspended ∧
      (wakeCounted d n s).queue = s.queue ∧ (wakeCounted d n s).log = s.log := by
  induction n generalizing s with
  | zero => simp [wakeCounted]
  | succ n ih =>
    unfold wakeCounted
    split_ifs
    · simp
    · obtain ⟨hpc, hlock, hsusp, hq, hlog⟩ := ih (xTaskRemoveFromEventList s d)
      obtain ⟨hpc', hlock', hsusp', hq', hlog'⟩ := wake_same s d
      exact ⟨hpc.trans hpc', hlock.trans hlock', hsusp.trans hsusp', hq.trans hq', hlog.trans hlog'⟩

theorem unlockHalf_shape (h : Shape s) (d : Side) : Shape (unlockHalf s d) := by
  have hw := wakeCounted_shape h d ((s.lock d).getD 0)
  refine ⟨hw.nodup, hw.looks, hw.blocked, hw.waits, hw.sleeps, hw.held, hw.pending, hw.inside, hw.suspended, ?_⟩
  intro e he
  by_cases hed : e = d
  · subst hed
    simp [unlockHalf] at he
  · simp only [unlockHalf, Function.update_of_ne hed] at he
    exact hw.locks e he

theorem place_shape (h : Shape s) (xItemValue : T → ℕ) {r : Request α} (hpc : s.pc t = .place r)
    (hsusp : s.uxSchedulerSuspended = some t) :
    Shape ((vTaskPlaceOnEventList xItemValue s r.call.side t).goto t (.unlockTx r .sleep)) := by
  have hfree : s.blocked t = false := by
    cases hb : s.blocked t with
    | false => rfl
    | true =>
      have hsleeps := h.sleeps t hb
      rw [hpc] at hsleeps
      cases hsleeps
  have hout : ∀ d, t ∉ s.waiting d := by
    intro d hd
    rw [h.blocked d t hd] at hfree
    cases hfree
  have hmem : ∀ e u, u ∈ Function.update s.waiting r.call.side
      (insertSorted xItemValue t (s.waiting r.call.side)) e ↔ u ∈ s.waiting e ∨ (u = t ∧ e = r.call.side) := by
    intro e u
    by_cases he : e = r.call.side
    · subst he
      rw [Function.update_self, (insertSorted_perm t _).mem_iff, List.mem_cons]
      simp [or_comm]
    · rw [Function.update_of_ne he]
      simp [he]
  have hpending : ∀ u ∈ s.xPendingReadyList, u ≠ t := by
    intro u hu heq
    rw [heq] at hu
    rw [(h.held t hu).1] at hfree
    cases hfree
  refine ⟨?_, ?_, ?_, ?_, ?_, ?_, h.pending, ?_, ?_, ?_⟩
  · intro e
    simp only [State.goto, vTaskPlaceOnEventList]
    by_cases he : e = r.call.side
    · subst he
      rw [Function.update_self, (insertSorted_perm t _).nodup_iff]
      exact List.nodup_cons.mpr ⟨hout _, h.nodup _⟩
    · rw [Function.update_of_ne he]
      exact h.nodup e
  · intro e u hu
    rcases (hmem e u).mp hu with hu | ⟨rfl, rfl⟩
    · have hut : u ≠ t := fun heq => hout e (heq ▸ hu)
      simpa [State.goto, vTaskPlaceOnEventList, hut] using h.looks e u hu
    · simp [State.goto, Pc.looks, Ending.looks]
  · intro e u hu
    by_cases hut : u = t
    · simp [State.goto, vTaskPlaceOnEventList, hut]
    · rcases (hmem e u).mp hu with hu | ⟨hu, -⟩
      · simpa [State.goto, vTaskPlaceOnEventList, hut] using h.blocked e u hu
      · exact absurd hu hut
  · intro u hu
    by_cases hut : u = t
    · exact Or.inl ⟨r.call.side, (hmem _ u).mpr (Or.inr ⟨hut, rfl⟩)⟩
    · simp only [State.goto, vTaskPlaceOnEventList, Function.update_of_ne hut] at hu
      exact (h.waits u hu).imp_left fun ⟨d, hd⟩ => ⟨d, (hmem d u).mpr (Or.inl hd)⟩
  · intro u hu
    by_cases hut : u = t
    · simp [State.goto, hut, Pc.sleeps]
    · simp only [State.goto, vTaskPlaceOnEventList, Function.update_of_ne hut] at hu ⊢
      exact h.sleeps u hu
  · intro u hu
    have hut := hpending u hu
    refine ⟨?_, fun d hd => ?_⟩
    · simpa [State.goto, vTaskPlaceOnEventList, hut] using (h.held u hu).1
    · rcases (hmem d u).mp hd with hd | ⟨hd, -⟩
      · exact (h.held u hu).2 d hd
      · exact hut hd
  · intro u hu
    by_cases hut : u = t
    · rw [hut]
      exact hsusp
    · exact h.inside u (by simpa [State.goto, vTaskPlaceOnEventList, hut] using hu)
  · intro u hu
    by_cases hut : u = t
    · simp [State.goto, hut, Pc.inside]
    · simpa [State.goto, State.Polls, vTaskPlaceOnEventList, hut] using h.suspended u hu
  · intro d hd
    obtain ⟨u, hu, hholds⟩ := h.locks d hd
    refine ⟨u, hu, ?_⟩
    by_cases hut : u = t
    · simp [State.goto, hut, Pc.holds]
    · simpa [State.goto, vTaskPlaceOnEventList, hut] using hholds

/-- The scheduler goes on, and its owner goes on to `p`. -/
theorem resumeAll_shape (h : Shape s) (hsusp : s.uxSchedulerSuspended = some t)
    (unlocked : ∀ d, (s.pc t).holds d = false) {p : Pc α} (looks : ∀ d, t ∈ s.waiting d → p.looks = some d)
    (sleeps : s.blocked t = true → p.sleeps = true) (outside : p.inside = false) :
    Shape ((xTaskResumeAll s).goto t p) := by
  have hblocked : ∀ u, (xTaskResumeAll s).blocked u = true → u ∉ s.xPendingReadyList ∧ s.blocked u = true := by
    intro u hu
    simpa [xTaskResumeAll] using hu
  have howner : ∀ u, u ≠ t → s.uxSchedulerSuspended ≠ some u := by
    intro u hut hu
    rw [hsusp] at hu
    exact hut (Option.some.inj hu).symm
  refine ⟨h.nodup, ?_, ?_, ?_, ?_, nofun, fun hp => absurd rfl hp, ?_, nofun, ?_⟩
  · intro d u hu
    by_cases hut : u = t
    · subst hut
      simpa [State.goto] using looks d hu
    · simpa [State.goto, xTaskResumeAll, hut] using h.looks d u hu
  · intro d u hu
    have hout : u ∉ s.xPendingReadyList := fun hp => (h.held u hp).2 d hu
    simpa [State.goto, xTaskResumeAll, hout] using h.blocked d u hu
  · intro u hu
    obtain ⟨hout, hu⟩ := hblocked u hu
    exact Or.inl ((h.waits u hu).resolve_right hout)
  · intro u hu
    obtain ⟨-, hb⟩ := hblocked u hu
    by_cases hut : u = t
    · subst hut
      simpa [State.goto] using sleeps hb
    · simpa [State.goto, xTaskResumeAll, hut] using h.sleeps u hb
  · intro u hu
    by_cases hut : u = t
    · subst hut
      simp [State.goto, outside] at hu
    · simp only [State.goto, xTaskResumeAll, Function.update_of_ne hut] at hu
      exact absurd (h.inside u hu) (howner u hut)
  · intro d hd
    obtain ⟨u, hu, hholds⟩ := h.locks d hd
    rw [hsusp] at hu
    obtain rfl := Option.some.inj hu
    rw [unlocked d] at hholds
    cases hholds

theorem timeOut_shape (h : Shape s) (hsusp : s.uxSchedulerSuspended = none) :
    Shape { s with
      waiting := fun d => (s.waiting d).erase t
      blocked := Function.update s.blocked t false } := by
  have hempty : s.xPendingReadyList = [] := by
    by_contra hne
    exact h.pending hne hsusp
  have hsub : ∀ d, ∀ u ∈ (s.waiting d).erase t, u ∈ s.waiting d ∧ u ≠ t := by
    intro d u hu
    rwa [(h.nodup d).mem_erase_iff, and_comm] at hu
  refine ⟨fun d => (h.nodup d).erase t, fun d u hu => h.looks d u (hsub d u hu).1, ?_, ?_, ?_, ?_, h.pending,
    h.inside, fun u hu => absurd (hsusp.symm.trans hu) nofun, h.locks⟩
  · intro d u hu
    simpa [(hsub d u hu).2] using h.blocked d u (hsub d u hu).1
  · intro u hu
    by_cases hut : u = t
    · simp [hut] at hu
    · simp only [Function.update_of_ne hut] at hu
      exact (h.waits u hu).imp_left fun ⟨d, hd⟩ => ⟨d, (List.mem_erase_of_ne hut).mpr hd⟩
  · intro u hu
    by_cases hut : u = t
    · simp [hut] at hu
    · simp only [Function.update_of_ne hut] at hu
      exact h.sleeps u hu
  · intro u hu
    rw [hempty] at hu
    exact absurd hu List.not_mem_nil

omit [DecidableEq T] in
theorem data_shape (h : Shape s) (q : Queue cap α) (log : List (Event T α)) :
    Shape { s with queue := q, log := log } :=
  ⟨h.nodup, h.looks, h.blocked, h.waits, h.sleeps, h.held, h.pending, h.inside, h.suspended, h.locks⟩

theorem holds_inside {p : Pc α} (h : p.holds d = true) : p.inside = true := by
  cases p <;> first | rfl | cases h

omit [DecidableEq T] in
theorem not_waiting (h : Shape s) (free : s.blocked t = false) (d : Side) : t ∉ s.waiting d := by
  intro hd
  rw [h.blocked d t hd] at free
  cases free

omit [DecidableEq T] in
/-- While a task outside of the part with the scheduler suspended runs, nobody is inside. -/
theorem nobody_inside (h : Shape s) (outside : (s.pc t).inside = false)
    (runs : s.uxSchedulerSuspended = none ∨ s.uxSchedulerSuspended = some t) (u : T) : (s.pc u).inside ≠ true := by
  intro hu
  have hs := h.inside u hu
  rcases runs with hfree | howner
  · rw [hfree] at hs
    cases hs
  · rw [howner] at hs
    rw [Option.some.inj hs, hu] at outside
    cases outside

/-- It runs if nobody suspends the scheduler, or if it does that itself and does not wait. -/
theorem runs_outside (h : Shape s) (runs : s.mayRun t = true) (outside : (s.pc t).inside = false) :
    s.blocked t = false ∧ (s.uxSchedulerSuspended = none ∨ s.uxSchedulerSuspended = some t) := by
  by_cases hs : s.uxSchedulerSuspended = some t
  · refine ⟨?_, Or.inr hs⟩
    rcases h.suspended t hs with hi | hi | hi
    · rw [outside] at hi
      cases hi
    · cases hb : s.blocked t with
      | false => rfl
      | true =>
        have hsleeps := h.sleeps t hb
        rw [hi] at hsleeps
        cases hsleeps
    · exact hi.1
  · have hfree : s.uxSchedulerSuspended = none ∧ s.blocked t = false := by simpa [State.mayRun, hs] using runs
    exact ⟨hfree.2, Or.inl hfree.1⟩

/-- In a call that waits it runs only if nobody suspends the scheduler. -/
theorem waits_outside (h : Shape s) (runs : s.mayRun t = true) (outside : (s.pc t).inside = false)
    (called : s.pc t ≠ .idle) (waits : ¬ s.Polls t) : s.uxSchedulerSuspended = none := by
  refine (runs_outside h runs outside).2.resolve_right fun hs => ?_
  rcases h.suspended t hs with hi | hi | hi
  · rw [outside] at hi
    cases hi
  · exact called hi
  · exact waits hi

theorem goto_outside (h : Shape s) (awake : s.blocked t = false) (left : (s.pc t).inside = false) {p : Pc α}
    (outside : p.inside = false) (suspended : s.uxSchedulerSuspended = some t → p = .idle ∨ (s.goto t p).Polls t) :
    Shape (s.goto t p) := by
  apply goto_shape h
  · intro d hd
    exact absurd hd (not_waiting h awake d)
  · intro hb
    rw [awake] at hb
    cases hb
  · intro hi
    rw [outside] at hi
    cases hi
  · exact fun hs => Or.inr (suspended hs)
  · intro d hd hs
    -- the locks are not set outside
    obtain ⟨u, hu, hholds⟩ := h.locks d hd
    rw [hs] at hu
    obtain rfl := Option.some.inj hu
    rw [holds_inside hholds] at left
    cases left

/-- A step of the task that suspends the scheduler, not blocked yet. -/
theorem goto_inside (h : Shape s) (hs : s.uxSchedulerSuspended = some t) (awake : (s.pc t).sleeps = false)
    {p : Pc α} (inside : p.inside = true) (locks : ∀ d, s.lock d ≠ none → p.holds d = true) :
    Shape (s.goto t p) := by
  have hfree : s.blocked t = false := by
    cases hb : s.blocked t with
    | false => rfl
    | true =>
      rw [h.sleeps t hb] at awake
      cases awake
  apply goto_shape h
  · intro d hd
    exact absurd hd (not_waiting h hfree d)
  · intro hb
    rw [hfree] at hb
    cases hb
  · exact fun _ => hs
  · exact fun _ => Or.inl inside
  · exact fun d hd _ => locks d hd

omit [DecidableEq T] in
/-- The task that suspends the scheduler holds the locks that are set. -/
theorem lock_holds (h : Shape s) (hs : s.uxSchedulerSuspended = some t) {d : Side} (set : s.lock d ≠ none) :
    (s.pc t).holds d = true := by
  obtain ⟨u, hu, hholds⟩ := h.locks d set
  rw [hs] at hu
  obtain rfl := Option.some.inj hu
  exact hholds

theorem suspend_shape (h : Shape s) (free : s.uxSchedulerSuspended = none ∧ s.blocked t = false) {p : Pc α}
    (hp : p.inside = true ∨ p = .idle) : Shape ({ s with uxSchedulerSuspended := some t }.goto t p) := by
  have hout := not_waiting h free.2
  have hnone : ∀ u, s.uxSchedulerSuspended ≠ some u := by
    intro u hu
    rw [free.1] at hu
    cases hu
  refine ⟨h.nodup, ?_, h.blocked, h.waits, ?_, h.held, nofun, ?_, ?_, ?_⟩
  · intro d u hu
    have hut : u ≠ t := fun heq => hout d (heq ▸ hu)
    simpa [State.goto, hut] using h.looks d u hu
  · intro u hu
    have hut : u ≠ t := by
      rintro rfl
      simp [State.goto, free.2] at hu
    simpa [State.goto, hut] using h.sleeps u hu
  · intro u hu
    by_cases hut : u = t
    · rw [hut]
      rfl
    · simp only [State.goto, Function.update_of_ne hut] at hu
      exact absurd (h.inside u hu) (hnone u)
  · intro u hu
    obtain rfl := Option.some.inj hu
    simpa [State.goto] using hp.imp_right Or.inl
  · intro d hd
    obtain ⟨u, hu, -⟩ := h.locks d hd
    exact absurd hu (hnone u)

omit [DecidableEq T] in
theorem lock_shape (h : Shape s) (hs : s.uxSchedulerSuspended = some t) (holds : ∀ d, (s.pc t).holds d = true) :
    Shape (prvLockQueue s) :=
  ⟨h.nodup, h.looks, h.blocked, h.waits, h.sleeps, h.held, h.pending, h.inside, h.suspended,
    fun d _ => ⟨t, hs, holds d⟩⟩

/-- Half of the queue is unlocked, and the task that does it goes on to `p`. -/
theorem unlock_shape (h : Shape s) (hs : s.uxSchedulerSuspended = some t) (d : Side) {p : Pc α}
    (looks : p.looks = (s.pc t).looks) (sleeps : p.sleeps = (s.pc t).sleeps) (inside : p.inside = true)
    (holds : ∀ e, e ≠ d → (s.pc t).holds e = true → p.holds e = true) :
    Shape ((unlockHalf s d).goto t p) := by
  have hu := unlockHalf_shape h d
  obtain ⟨hpc, hlock, hsusp, -, -⟩ := wakeCounted_same s d ((s.lock d).getD 0)
  apply goto_shape hu
  · intro e he
    have hl := hu.looks e t he
    rw [looks, ← hl]
    exact congrArg (fun f => (f t).looks) hpc.symm
  · intro hb
    have hl := hu.sleeps t hb
    rw [sleeps, ← hl]
    exact congrArg (fun f => (f t).sleeps) hpc.symm
  · exact fun _ => hsusp.trans hs
  · exact fun _ => Or.inl inside
  · intro e he _
    have hed : e ≠ d := by
      rintro rfl
      simp [unlockHalf] at he
    simp only [unlockHalf, Function.update_of_ne hed, hlock] at he
    exact holds e hed (lock_holds h hs he)

theorem afterResume_shape (h : Shape s) {r : Request α} {next : Ending} (hpc : s.pc t = .resumeAll r next) :
    Shape (afterResume (xTaskResumeAll s) t r next) := by
  have hs := h.inside t (by rw [hpc]; rfl)
  have hholds : ∀ d, (s.pc t).holds d = false := fun d => by rw [hpc]; rfl
  -- before it looks again the task may be on the list of its side
  have hloop : next.looks = true → Shape ((xTaskResumeAll s).goto t (.loop r)) := by
    intro hl
    apply resumeAll_shape h hs hholds
    · intro d hd
      have hlooks := h.looks d t hd
      simpa [hpc, Pc.looks, hl] using hlooks
    · exact fun _ => rfl
    · rfl
  cases next with
  | sleep => exact hloop rfl
  | retry => exact hloop rfl
  | expired =>
    have hout : ∀ d, t ∉ s.waiting d := by
      intro d hd
      have hlooks := h.looks d t hd
      simp [hpc, Pc.looks, Ending.looks] at hlooks
    have hawake : s.blocked t ≠ true := by
      intro hb
      have hsleeps := h.sleeps t hb
      simp [hpc, Pc.sleeps] at hsleeps
    have hgoto : ∀ p : Pc α, p.inside = false → Shape ((xTaskResumeAll s).goto t p) := fun p hp =>
      resumeAll_shape h hs hholds (fun d hd => absurd hd (hout d)) (fun hb => absurd hb hawake) hp
    unfold afterResume
    cases r.call with
    | send a => exact data_shape (hgoto .idle rfl) _ _
    | receive => exact hgoto _ rfl

theorem loopHead_shape (h : Shape s) (runs : s.mayRun t = true) {r : Request α} (hpc : s.pc t = .loop r) :
    Shape (loopHead s t r) := by
  have hout : (s.pc t).inside = false := by rw [hpc]; rfl
  have hawake := (runs_outside h runs hout).1
  have hidle : Shape (s.goto t .idle) := goto_outside h hawake hout rfl fun _ => Or.inl rfl
  unfold loopHead
  cases attempt s.queue r.call with
  | some x => exact wake_shape (data_shape hidle x.1 _) _
  | none =>
    dsimp only
    split_ifs with hzero
    · exact data_shape hidle _ _
    · have hfree := waits_outside h runs hout (by simp [hpc]) fun hpolls => hzero hpolls.2.1
      exact goto_outside h hawake hout rfl fun hs => absurd (hfree.symm.trans hs) nofun

theorem stepTask_shape (h : Shape s) {xItemValue : T → ℕ} {expired : Bool} {u : State cap T α}
    (runs : s.mayRun t = true) (step : stepTask xItemValue s t expired = some u) : Shape u := by
  unfold stepTask at step
  cases hpc : s.pc t with
  | idle => simp [hpc] at step
  | loop r =>
    simp only [hpc, Option.some.injEq] at step
    rw [← step]
    exact loopHead_shape h runs hpc
  | suspendAll r =>
    simp only [hpc, Option.some.injEq] at step
    rw [← step]
    have hout : (s.pc t).inside = false := by rw [hpc]; rfl
    have hfree := waits_outside h runs hout (by simp [hpc]) (by simp [State.Polls, hpc])
    exact suspend_shape h ⟨hfree, (runs_outside h runs hout).1⟩ (Or.inl rfl)
  | lock r =>
    simp only [hpc, Option.some.injEq] at step
    rw [← step]
    have hs := h.inside t (by rw [hpc]; rfl)
    have hgoto : Shape (s.goto t (.checkTimeOut r)) :=
      goto_inside h hs (by rw [hpc]; rfl) rfl fun d _ => rfl
    exact lock_shape hgoto hs fun d => by simp [State.goto, Pc.holds]
  | checkTimeOut r =>
    simp only [hpc, Option.some.injEq] at step
    rw [← step]
    have hs := h.inside t (by rw [hpc]; rfl)
    split_ifs
    · exact goto_inside (setTicks_shape h fun _ => rfl) hs (by rw [State.setTicks, hpc]; rfl) rfl fun d _ => rfl
    · exact goto_inside h hs (by rw [hpc]; rfl) rfl fun d _ => rfl
  | checkQueue r =>
    simp only [hpc, Option.some.injEq] at step
    rw [← step]
    have hs := h.inside t (by rw [hpc]; rfl)
    split_ifs
    · exact goto_inside h hs (by rw [hpc]; rfl) rfl fun d _ => rfl
    · exact goto_inside h hs (by rw [hpc]; rfl) rfl fun d _ => rfl
  | place r =>
    simp only [hpc, Option.some.injEq] at step
    rw [← step]
    exact place_shape h xItemValue hpc (h.inside t (by rw [hpc]; rfl))
  | unlockTx r next =>
    simp only [hpc, Option.some.injEq] at step
    rw [← step]
    apply unlock_shape h (h.inside t (by rw [hpc]; rfl)) .receive (by rw [hpc]; rfl) (by rw [hpc]; rfl) rfl
    intro e he _
    cases e with
    | send => rfl
    | receive => exact absurd rfl he
  | unlockRx r next =>
    simp only [hpc, Option.some.injEq] at step
    rw [← step]
    apply unlock_shape h (h.inside t (by rw [hpc]; rfl)) .send (by rw [hpc]; rfl) (by rw [hpc]; rfl) rfl
    intro e he hholds
    simp [hpc, Pc.holds, he] at hholds
  | resumeAll r next =>
    simp only [hpc, Option.some.injEq] at step
    rw [← step]
    exact afterResume_shape h hpc
  | recheck r =>
    simp only [hpc, Option.some.injEq] at step
    have hout : (s.pc t).inside = false := by rw [hpc]; rfl
    have hfree := waits_outside h runs hout (by simp [hpc]) (by simp [State.Polls, hpc])
    have hgoto : ∀ p : Pc α, p.inside = false → Shape (s.goto t p) := fun p hp =>
      goto_outside h (runs_outside h runs hout).1 hout hp fun hs => absurd (hfree.symm.trans hs) nofun
    rw [← step]
    split_ifs
    · exact data_shape (hgoto .idle rfl) _ _
    · exact hgoto _ rfl

theorem fromISR_shape [Fintype T] (h : Shape s) {c : Call α} {u : State cap T α} (step : fromISR s c = some u) :
    Shape u := by
  rcases fromISR_cases step with rfl | ⟨q, a, -, ⟨-, rfl⟩ | ⟨n, m, hl, -, rfl⟩⟩
  · exact h
  · exact wake_shape (data_shape h q _) _
  · refine ⟨h.nodup, h.looks, h.blocked, h.waits, h.sleeps, h.held, h.pending, h.inside, h.suspended, ?_⟩
    intro d hd
    by_cases hdc : d = c.side.other
    · exact h.locks d (by rw [hdc, hl]; simp)
    · simp only [Function.update_of_ne hdc] at hd
      exact h.locks d hd

theorem goto_self {p : Pc α} (hpc : s.pc t = p) : s.goto t p = s := by
  unfold State.goto
  rw [← hpc, Function.update_eq_self]

theorem act_shape [Fintype T] (h : Shape s) {xItemValue : T → ℕ} {a : Act T α} {u : State cap T α}
    (step : act xItemValue s a = some u) : Shape u := by
  cases act_cases step with
  | call t r hpc may ticks next =>
    subst next
    have hout : (s.pc t).inside = false := by rw [hpc]; rfl
    have hawake := (runs_outside h may hout).1
    apply goto_outside (setTicks_shape h fun hpolls => by simp [State.Polls, hpc] at hpolls) hawake hout rfl
    intro hs
    have hzero := ticks (by rw [show s.uxSchedulerSuspended = some t from hs]; nofun)
    exact Or.inr ⟨hawake, by simp [State.goto, State.setTicks, hzero], r, by simp [State.goto]⟩
  | run t expired may step => exact stepTask_shape h may step
  | interrupt c step => exact fromISR_shape h step
  | timeOut t free next =>
    subst next
    exact timeOut_shape h free
  | suspend t hpc free awake next =>
    subst next
    rw [← goto_self (s := { s with uxSchedulerSuspended := some t }) hpc]
    exact suspend_shape h ⟨free, awake⟩ (Or.inr rfl)
  | resume t hpc suspended next =>
    subst next
    have hout : ∀ d, t ∉ s.waiting d := by
      intro d hd
      have hlooks := h.looks d t hd
      rw [hpc] at hlooks
      cases hlooks
    rw [← goto_self (s := xTaskResumeAll s) hpc]
    apply resumeAll_shape h suspended
    · exact fun d => by rw [hpc]; rfl
    · exact fun d hd => absurd hd (hout d)
    · intro hb
      have hsleeps := h.sleeps t hb
      rw [hpc] at hsleeps
      cases hsleeps
    · rfl

end

end Stm32NetworkStack.QueueLocks
