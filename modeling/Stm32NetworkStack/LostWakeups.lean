import Mathlib.Data.Fintype.List
import Mathlib.Data.Fintype.Option
import Stm32NetworkStack.GuardedRuns
import Stm32NetworkStack.QueueLocks

set_option autoImplicit false

/-!
# No wake-up is lost

Tasks wait for an item, or for room, only while the tasks that are awake and
about to look take all that there is. While the queue is locked, the count of
the lock stands for tasks that will be woken.
-/
namespace Stm32NetworkStack.LostWakeups
open BoundedQueues GuardedRuns FiniteCounts BlockingQueues QueueLocks

section
variable {cap : ℕ} {T α : Type} [DecidableEq T] [Fintype T]

/-- With `k` more to be woken, what there is to get does not exceed those who look for it,
unless all who wait are woken. -/
def Covered (k : ℕ) (s : State cap T α) (d : Side) : Prop :=
  s.avail d ≤ s.looking d + k ∨ (s.waiting d).length ≤ k

variable {s u : State cap T α} {t : T} {d e : Side} {k : ℕ}

theorem goto_looking {p : Pc α} (hout : t ∉ s.waiting d) :
    (s.goto t p).looking d + (if (s.pc t).looks = some d then 1 else 0) =
      s.looking d + (if p.looks = some d then 1 else 0) := by
  have hstep := count_step (P := fun v => ((s.goto t p).pc v).looks = some d ∧ v ∉ s.waiting d)
    (Q := fun v => (s.pc v).looks = some d ∧ v ∉ s.waiting d) t fun v hv => by simp [State.goto, hv]
  simp only [State.goto, Function.update_self, hout, not_false_eq_true, and_true] at hstep
  exact hstep

theorem goto_looking_same {p : Pc α} (same : p.looks = (s.pc t).looks) (d : Side) :
    (s.goto t p).looking d = s.looking d := by
  apply count_congr
  intro v
  by_cases hv : v = t
  · simp [State.goto, hv, same]
  · simp [State.goto, hv]

theorem goto_covered (hc : Covered k s d) {p : Pc α} (hout : t ∉ s.waiting d)
    (leaves : (s.pc t).looks = some d → p.looks ≠ some d → s.avail d = 0) : Covered k (s.goto t p) d := by
  rcases hc with hc | hc
  · left
    have hlook := goto_looking (p := p) hout
    change s.avail d ≤ (s.goto t p).looking d + k
    by_cases hp : p.looks = some d
    · rw [if_pos hp] at hlook
      split_ifs at hlook <;> omega
    · by_cases hs : (s.pc t).looks = some d
      · rw [leaves hs hp]
        exact Nat.zero_le _
      · rw [if_neg hp, if_neg hs] at hlook
        omega
  · exact Or.inr hc

theorem goto_covered_same (hc : Covered k s d) {p : Pc α} (same : p.looks = (s.pc t).looks) :
    Covered k (s.goto t p) d := by
  unfold Covered
  rw [goto_looking_same same]
  exact hc

/-- To wake a task that waits covers one more. -/
theorem wake_covered (h : Shape s) (hc : Covered (k + 1) s d) : Covered k (xTaskRemoveFromEventList s d) d := by
  obtain ⟨hpc, -, -, hq, -⟩ := wake_same s d
  have havail : (xTaskRemoveFromEventList s d).avail d = s.avail d := by
    unfold State.avail
    rw [hq]
  cases hw : s.waiting d with
  | nil =>
    right
    simp [xTaskRemoveFromEventList, hw]
  | cons t rest =>
    have hwaiting : (xTaskRemoveFromEventList s d).waiting d = rest := by
      simp only [xTaskRemoveFromEventList, hw]
      split_ifs <;> simp
    have hnodup := h.nodup d
    rw [hw, List.nodup_cons] at hnodup
    have hlooks := h.looks d t (hw ▸ List.mem_cons_self)
    have hstep := count_step
      (P := fun v => ((xTaskRemoveFromEventList s d).pc v).looks = some d ∧
        v ∉ (xTaskRemoveFromEventList s d).waiting d)
      (Q := fun v => (s.pc v).looks = some d ∧ v ∉ s.waiting d) t fun v hv => by
        rw [hpc, hwaiting, hw]
        simp [hv]
    rw [hpc, hwaiting, hw, if_neg (by simp), if_pos ⟨hlooks, hnodup.1⟩] at hstep
    have hlook : (xTaskRemoveFromEventList s d).looking d = s.looking d + 1 := by
      unfold State.looking
      rw [hpc, hwaiting, hw]
      exact hstep
    unfold Covered at hc ⊢
    rw [havail, hlook, hwaiting]
    rw [hw, List.length_cons] at hc
    omega

theorem wake_other (hc : Covered k s e) (hed : e ≠ d) : Covered k (xTaskRemoveFromEventList s d) e := by
  obtain ⟨hpc, -, -, hq, -⟩ := wake_same s d
  have hwaiting : (xTaskRemoveFromEventList s d).waiting e = s.waiting e := by
    unfold xTaskRemoveFromEventList
    cases s.waiting d with
    | nil => rfl
    | cons t rest =>
      dsimp only
      split_ifs <;> simp [hed]
  unfold Covered State.avail State.looking at hc ⊢
  rwa [hpc, hq, hwaiting]

theorem wakeCounted_covered (h : Shape s) {n : ℕ} (hc : Covered n s d) : Covered 0 (wakeCounted d n s) d := by
  induction n generalizing s with
  | zero => exact hc
  | succ n ih =>
    unfold wakeCounted
    split_ifs with hw
    · right
      rw [hw]
      exact Nat.le_refl 0
    · exact ih (wake_shape h d) (wake_covered h hc)

theorem wakeCounted_other (n : ℕ) (hc : Covered k s e) (hed : e ≠ d) : Covered k (wakeCounted d n s) e := by
  induction n generalizing s with
  | zero => exact hc
  | succ n ih =>
    unfold wakeCounted
    split_ifs
    · exact hc
    · exact ih (wake_other hc hed)

omit [DecidableEq T] [Fintype T] in
theorem attempt_avail {c : Call α} {q : Queue cap α} {a : α} (ha : attempt s.queue c = some (q, a)) :
    ({ s with queue := q } : State cap T α).avail c.side + 1 = s.avail c.side ∧
      ({ s with queue := q } : State cap T α).avail c.side.other = s.avail c.side.other + 1 := by
  cases c with
  | send b =>
    obtain ⟨p, hp, heq⟩ := Option.map_eq_some_iff.mp ha
    obtain ⟨rfl, rfl⟩ := Prod.mk.inj heq
    have hitems := congrArg List.length (send_some hp)
    have hbound := p.bounded
    rw [List.length_append, List.length_singleton] at hitems
    constructor
    · change cap - p.items.length + 1 = cap - s.queue.items.length
      omega
    · exact hitems
  | receive =>
    obtain ⟨⟨b, p⟩, hp, heq⟩ := Option.map_eq_some_iff.mp ha
    obtain ⟨rfl, rfl⟩ := Prod.mk.inj heq
    have hitems := congrArg List.length (receive_some hp)
    have hbound := s.queue.bounded
    rw [List.length_cons] at hitems
    constructor
    · exact hitems.symm
    · change cap - p.items.length = cap - s.queue.items.length + 1
      omega

omit [DecidableEq T] [Fintype T] in
theorem attempt_none {c : Call α} (ha : attempt s.queue c = none) : s.avail c.side = 0 := by
  cases c with
  | send b =>
    have hfull := send_none.mp (Option.map_eq_none_iff.mp ha)
    simp only [State.avail, Call.side]
    omega
  | receive =>
    have hempty := receive_none.mp (Option.map_eq_none_iff.mp ha)
    simp only [State.avail, Call.side, hempty, List.length_nil]

/-- The bounds that hold in every reachable state. -/
structure Served (s : State cap T α) : Prop where
  covered : ∀ d, Covered ((s.lock d).getD 0) s d
  locked : ∀ t d, (s.pc t).holds d = true → s.lock d ≠ none
  place : ∀ t r, s.pc t = .place r → s.avail r.call.side ≤ (s.lock r.call.side).getD 0 ∨
    Fintype.card T ≤ (s.lock r.call.side).getD 0

theorem served_of_nobody (nobody : ∀ v, (u.pc v).inside ≠ true) (hc : ∀ d, Covered ((u.lock d).getD 0) u d) :
    Served u := by
  refine ⟨hc, fun v d hv => absurd (holds_inside hv) (nobody v), fun v r hv => absurd ?_ (nobody v)⟩
  rw [hv]
  rfl

/-- Nobody is inside while the scheduler runs. -/
theorem served_of_free (h : Shape u) (free : u.uxSchedulerSuspended = none)
    (hc : ∀ d, Covered ((u.lock d).getD 0) u d) : Served u := by
  apply served_of_nobody _ hc
  intro v hv
  rw [h.inside v hv] at free
  cases free

/-- Only the task that suspends the scheduler is inside. -/
theorem served_of_owner (h : Shape u) (hs : u.uxSchedulerSuspended = some t)
    (hc : ∀ d, Covered ((u.lock d).getD 0) u d) (locked : ∀ d, (u.pc t).holds d = true → u.lock d ≠ none)
    (place : ∀ r, u.pc t = .place r → u.avail r.call.side ≤ (u.lock r.call.side).getD 0 ∨
      Fintype.card T ≤ (u.lock r.call.side).getD 0) : Served u := by
  have howner : ∀ v, (u.pc v).inside = true → v = t := by
    intro v hv
    have hv' := h.inside v hv
    rw [hs] at hv'
    exact (Option.some.inj hv').symm
  refine ⟨hc, fun v d hv => ?_, fun v r hv => ?_⟩
  · obtain rfl := howner v (holds_inside hv)
    exact locked d hv
  · obtain rfl := howner v (by rw [hv]; rfl)
    exact place r hv

theorem other_ne (d : Side) : d.other ≠ d := by
  cases d <;> nofun

theorem eq_other (h : e ≠ d) : e = d.other := by
  cases d <;> cases e <;> first | rfl | exact absurd rfl h

/-- A call that got through leaves one more to those of the other side. -/
theorem taken_other {c : Call α} {q : Queue cap α} {a : α} (ha : attempt s.queue c = some (q, a))
    (hc : Covered k s c.side.other) (log : List (Event T α)) :
    Covered (k + 1) { s with queue := q, log := log } c.side.other := by
  rcases hc with hc | hc
  · left
    have hother := (attempt_avail ha).2
    change ({ s with queue := q } : State cap T α).avail c.side.other ≤ s.looking c.side.other + (k + 1)
    omega
  · exact Or.inr (Nat.le_succ_of_le hc)

/-- It leaves one less to those of its own side. -/
theorem taken_own {c : Call α} {q : Queue cap α} {a : α} (ha : attempt s.queue c = some (q, a))
    (hc : s.avail c.side ≤ s.looking c.side + k + 1 ∨ (s.waiting c.side).length ≤ k) (log : List (Event T α)) :
    Covered k { s with queue := q, log := log } c.side := by
  rcases hc with hc | hc
  · left
    have hown := (attempt_avail ha).1
    change ({ s with queue := q } : State cap T α).avail c.side ≤ s.looking c.side + k
    omega
  · exact Or.inr hc

theorem loopHead_served (h : Shape s) (hv : Served s) (runs : s.mayRun t = true) {r : Request α}
    (hpc : s.pc t = .loop r) : Served (loopHead s t r) := by
  have hleft : (s.pc t).inside = false := by rw [hpc]; rfl
  obtain ⟨hawake, howner⟩ := runs_outside h runs hleft
  have hidle : Shape (s.goto t .idle) := goto_outside h hawake hleft rfl fun _ => Or.inl rfl
  have hout := fun d => not_waiting h hawake d
  have hshape := loopHead_shape h runs hpc
  have hlooks : (s.pc t).looks = some r.call.side := by rw [hpc]; rfl
  unfold loopHead at hshape ⊢
  cases ha : attempt s.queue r.call with
  | some x =>
    obtain ⟨q, a⟩ := x
    simp only [ha] at hshape ⊢
    obtain ⟨hwoken, hlock, hsusp, -, -⟩ := wake_same
      { s.goto t .idle with queue := q, log := s.log ++ [.done (some t) r.call.side a] } r.call.side.other
    apply served_of_nobody (nobody_inside (t := t) hshape (by rw [hwoken]; simp [State.goto, Pc.inside])
      (by rwa [hsusp]))
    intro d
    rw [hlock]
    by_cases hd : d = r.call.side
    · apply wake_other _ (hd ▸ (other_ne r.call.side).symm)
      subst hd
      apply taken_own (s := s.goto t .idle) ha
      have hlook := goto_looking (p := Pc.idle) (hout r.call.side)
      have hgone : (Pc.idle : Pc α).looks ≠ some r.call.side := (Option.some_ne_none _).symm
      rw [if_pos hlooks, if_neg hgone] at hlook
      rcases hv.covered r.call.side with hc | hc
      · left
        change s.avail r.call.side ≤ (s.goto t .idle).looking r.call.side + (s.lock r.call.side).getD 0 + 1
        omega
      · exact Or.inr hc
    · obtain rfl := eq_other hd
      apply wake_covered (data_shape hidle q _)
      apply taken_other (s := s.goto t .idle) ha
      apply goto_covered (hv.covered _) (hout _)
      intro hside
      rw [hlooks] at hside
      exact absurd (Option.some.inj hside).symm hd
  | none =>
    simp only [ha] at hshape ⊢
    have hleave : ∀ (p : Pc α) (d : Side), Covered ((s.lock d).getD 0) (s.goto t p) d := by
      intro p d
      apply goto_covered (hv.covered d) (hout d)
      intro hside _
      rw [hlooks] at hside
      exact Option.some.inj hside ▸ attempt_none ha
    split_ifs with hzero
    · rw [if_pos hzero] at hshape
      exact served_of_nobody (nobody_inside (t := t) hshape (by simp [State.goto, Pc.inside]) howner) (hleave .idle)
    · rw [if_neg hzero] at hshape
      exact served_of_nobody (nobody_inside (t := t) hshape (by simp [State.goto, Pc.inside]) howner) (hleave _)

theorem increment_some {N n m : ℕ} (h : prvIncrementQueueLock N n = some m) : m = n + 1 ∨ m = n ∧ N ≤ n := by
  unfold prvIncrementQueueLock at h
  split_ifs at h with hlt hmax
  · exact Or.inl (Option.some.inj h).symm
  · exact Or.inr ⟨(Option.some.inj h).symm, Nat.le_of_not_lt hlt⟩

theorem fromISR_served (h : Shape s) (hv : Served s) {c : Call α} (step : fromISR s c = some u) : Served u := by
  rcases fromISR_cases step with rfl | ⟨q, a, ha, hcases⟩
  · exact hv
  have hown : Covered ((s.lock c.side).getD 0)
      { s with queue := q, log := s.log ++ [.done none c.side a] } c.side := by
    apply taken_own ha
    exact (hv.covered c.side).imp_left fun hc => by omega
  have hother := fun k hk => taken_other (k := k) ha hk (s.log ++ [.done none c.side a])
  have hown' := (other_ne c.side).symm
  rcases hcases with ⟨hl, rfl⟩ | ⟨n, m, hl, hm, rfl⟩
  · have hdata := data_shape h q (s.log ++ [.done none c.side a])
    obtain ⟨hpc, hlock, -, -, -⟩ := wake_same
      { s with queue := q, log := s.log ++ [.done none c.side a] } c.side.other
    refine ⟨fun d => ?_, fun v d hv' => ?_, fun v r hv' => ?_⟩
    · rw [hlock]
      by_cases hd : d = c.side
      · subst hd
        exact wake_other hown hown'
      · obtain rfl := eq_other hd
        exact wake_covered hdata (hother _ (hv.covered _))
    · rw [hpc] at hv'
      rw [hlock]
      exact hv.locked v d hv'
    · rw [hpc] at hv'
      exact absurd hl (hv.locked v _ (by rw [hv']; rfl))
  · have hm := increment_some hm
    refine ⟨fun d => ?_, fun v d hv' => ?_, fun v r hv' => ?_⟩
    · by_cases hd : d = c.side
      · subst hd
        simp only [Function.update_of_ne hown']
        exact hown
      · obtain rfl := eq_other hd
        simp only [Function.update_self, Option.getD_some]
        have hc := hv.covered c.side.other
        rw [hl] at hc
        rcases hm with rfl | ⟨rfl, hcap⟩
        · exact hother n hc
        · exact Or.inr (Nat.le_trans (h.nodup _).length_le_card hcap)
    · by_cases hd : d = c.side
      · subst hd
        simp only [Function.update_of_ne hown']
        exact hv.locked v _ hv'
      · obtain rfl := eq_other hd
        simp
    · obtain ⟨hless, hmore⟩ := attempt_avail ha
      have hplace := hv.place v r hv'
      by_cases hd : r.call.side = c.side
      · simp only [hd, Function.update_of_ne hown'] at hplace ⊢
        apply hplace.imp_left
        intro hle
        exact Nat.le_trans (Nat.le_of_lt (Nat.lt_of_succ_le (Nat.le_of_eq hless))) hle
      · rw [eq_other hd] at hplace ⊢
        rw [hl] at hplace
        simp only [Function.update_self, Option.getD_some] at hplace ⊢
        change ({ s with queue := q } : State cap T α).avail c.side.other ≤ m ∨ _
        omega

/-- A task comes to look, or goes on without. -/
theorem goto_covered_more (hc : Covered k s d) {p : Pc α} (hout : t ∉ s.waiting d)
    (none : (s.pc t).looks = none) : Covered k (s.goto t p) d := by
  apply goto_covered hc hout
  intro hlooks
  rw [none] at hlooks
  cases hlooks

theorem place_served (h : Shape s) (hv : Served s) (xItemValue : T → ℕ) {r : Request α} (hpc : s.pc t = .place r) :
    Served ((vTaskPlaceOnEventList xItemValue s r.call.side t).goto t (.unlockTx r .sleep)) := by
  have hs := h.inside t (by rw [hpc]; rfl)
  have hshape := place_shape h xItemValue hpc hs
  apply served_of_owner hshape hs
  · intro d
    by_cases hd : d = r.call.side
    · subst hd
      rcases hv.place t r hpc with hc | hc
      · exact Or.inl (Nat.le_trans hc (Nat.le_add_left _ _))
      · exact Or.inr (Nat.le_trans (hshape.nodup _).length_le_card hc)
    · have hwaiting : ((vTaskPlaceOnEventList xItemValue s r.call.side t).goto t (.unlockTx r .sleep)).waiting d =
          s.waiting d := by
        simp [State.goto, vTaskPlaceOnEventList, hd]
      have hlook : ((vTaskPlaceOnEventList xItemValue s r.call.side t).goto t (.unlockTx r .sleep)).looking d =
          s.looking d := by
        apply count_congr
        intro v
        rw [hwaiting]
        by_cases hvt : v = t
        · subst hvt
          simp [State.goto, hpc, Pc.looks, Ending.looks, Ne.symm hd]
        · simp [State.goto, vTaskPlaceOnEventList, hvt]
      have hc := hv.covered d
      unfold Covered at hc ⊢
      rw [hlook, hwaiting]
      exact hc
  · intro d _
    exact hv.locked t d (by rw [hpc]; rfl)
  · intro r' hr'
    simp [State.goto] at hr'

/-- After half of the unlocking all that was counted there is woken. -/
theorem unlock_served (h : Shape s) (hv : Served s) (hs : s.uxSchedulerSuspended = some t) (d : Side) {p : Pc α}
    (looks : p.looks = (s.pc t).looks) (shape : Shape ((unlockHalf s d).goto t p))
    (holds : ∀ e, p.holds e = true → e ≠ d ∧ (s.pc t).holds e = true) (unplaced : ∀ r, p ≠ .place r) :
    Served ((unlockHalf s d).goto t p) := by
  obtain ⟨hpc, hlock, hsusp, -, -⟩ := wakeCounted_same s d ((s.lock d).getD 0)
  have hpc' : (unlockHalf s d).pc = s.pc := hpc
  apply served_of_owner shape (hsusp.trans hs)
  · intro e
    apply goto_covered_same _ (looks.trans (congrArg (fun f => (f t).looks) hpc').symm)
    by_cases hed : e = d
    · subst hed
      have hc := wakeCounted_covered h (hv.covered e)
      simp only [State.goto, unlockHalf, Function.update_self, Option.getD_none]
      exact hc
    · have hc := wakeCounted_other ((s.lock d).getD 0) (hv.covered e) hed
      simp only [State.goto, unlockHalf, Function.update_of_ne hed, hlock]
      exact hc
  · intro e he
    simp only [State.goto, Function.update_self] at he
    obtain ⟨hed, hheld⟩ := holds e he
    simp only [State.goto, unlockHalf, Function.update_of_ne hed, hlock]
    exact hv.locked t e hheld
  · intro r hr
    simp only [State.goto, Function.update_self] at hr
    exact absurd hr (unplaced r)

theorem afterResume_served (h : Shape s) (hv : Served s) {r : Request α} {next : Ending}
    (hpc : s.pc t = .resumeAll r next) : Served (afterResume (xTaskResumeAll s) t r next) := by
  have hshape := afterResume_shape h hpc
  -- nothing that is counted changes when the scheduler goes on
  have hc : ∀ d, Covered (((xTaskResumeAll s).lock d).getD 0) (xTaskResumeAll s) d := hv.covered
  cases next with
  | sleep => exact served_of_free hshape rfl fun d => goto_covered_same (hc d) (congrArg Pc.looks hpc).symm
  | retry => exact served_of_free hshape rfl fun d => goto_covered_same (hc d) (congrArg Pc.looks hpc).symm
  | expired =>
    unfold afterResume at hshape ⊢
    cases hr : r.call with
    | send a =>
      simp only [hr] at hshape ⊢
      exact served_of_free hshape rfl fun d =>
        goto_covered_same (p := Pc.idle) (hc d) (congrArg Pc.looks hpc).symm
    | receive =>
      simp only [hr] at hshape ⊢
      exact served_of_free hshape rfl fun d => goto_covered_same (hc d) (congrArg Pc.looks hpc).symm

theorem stepTask_served (h : Shape s) (hv : Served s) {xItemValue : T → ℕ} {expired : Bool}
    (runs : s.mayRun t = true) (step : stepTask xItemValue s t expired = some u) : Served u := by
  have hshape := stepTask_shape h runs step
  have hout : (s.pc t).sleeps = false → ∀ d, t ∉ s.waiting d := by
    intro hsleeps d hd
    rw [h.sleeps t (h.blocked d t hd)] at hsleeps
    cases hsleeps
  unfold stepTask at step
  cases hpc : s.pc t with
  | idle => simp [hpc] at step
  | loop r =>
    simp only [hpc, Option.some.injEq] at step
    rw [← step]
    exact loopHead_served h hv runs hpc
  | suspendAll r =>
    simp only [hpc, Option.some.injEq] at step
    rw [← step] at hshape ⊢
    apply served_of_owner hshape rfl
    · exact fun d => goto_covered_same (s := { s with uxSchedulerSuspended := some t }) (hv.covered d)
        (congrArg Pc.looks hpc).symm
    · intro d hd
      simp [State.goto, Pc.holds] at hd
    · intro r' hr'
      simp [State.goto] at hr'
  | lock r =>
    simp only [hpc, Option.some.injEq] at step
    rw [← step] at hshape ⊢
    apply served_of_owner hshape (h.inside t (by rw [hpc]; rfl))
    · exact fun d => goto_covered_same (s := prvLockQueue s) (hv.covered d) (congrArg Pc.looks hpc).symm
    · exact fun d _ => Option.some_ne_none _
    · intro r' hr'
      simp [State.goto] at hr'
  | checkTimeOut r =>
    simp only [hpc, Option.some.injEq] at step
    have hlocked := fun d => hv.locked t d (by rw [hpc]; rfl)
    have hs := h.inside t (by rw [hpc]; rfl)
    rw [← step] at hshape ⊢
    split_ifs at hshape ⊢
    · apply served_of_owner hshape hs
      · exact fun d => goto_covered_same (s := s.setTicks t .zero) (hv.covered d) (congrArg Pc.looks hpc).symm
      · exact fun d _ => hlocked d
      · intro r' hr'
        simp [State.goto] at hr'
    · apply served_of_owner hshape hs
      · exact fun d => goto_covered_same (hv.covered d) (congrArg Pc.looks hpc).symm
      · exact fun d _ => hlocked d
      · intro r' hr'
        simp [State.goto] at hr'
  | checkQueue r =>
    simp only [hpc, Option.some.injEq] at step
    have hlocked := fun d => hv.locked t d (by rw [hpc]; rfl)
    rw [← step] at hshape ⊢
    apply served_of_owner hshape (h.inside t (by rw [hpc]; rfl))
    · exact fun d => goto_covered_more (hv.covered d) (hout (by rw [hpc]; rfl) d) (by rw [hpc]; rfl)
    · exact fun d _ => hlocked d
    · intro r' hr'
      split_ifs at hr' with havail
      · simp only [State.goto, Function.update_self, Pc.place.injEq] at hr'
        rw [← hr']
        left
        change s.avail r.call.side ≤ _
        omega
      · simp [State.goto] at hr'
  | place r =>
    simp only [hpc, Option.some.injEq] at step
    rw [← step]
    exact place_served h hv xItemValue hpc
  | unlockTx r next =>
    simp only [hpc, Option.some.injEq] at step
    rw [← step] at hshape ⊢
    apply unlock_served h hv (h.inside t (by rw [hpc]; rfl)) .receive (by rw [hpc]; rfl) hshape
    · intro e he
      rw [hpc]
      cases e with
      | send => exact ⟨fun hd => (by cases hd), rfl⟩
      | receive => cases he
    · intro r' hr'
      cases hr'
  | unlockRx r next =>
    simp only [hpc, Option.some.injEq] at step
    rw [← step] at hshape ⊢
    apply unlock_served h hv (h.inside t (by rw [hpc]; rfl)) .send (by rw [hpc]; rfl) hshape
    · intro e he
      cases he
    · intro r' hr'
      cases hr'
  | resumeAll r next =>
    simp only [hpc, Option.some.injEq] at step
    rw [← step]
    exact afterResume_served h hv hpc
  | recheck r =>
    simp only [hpc, Option.some.injEq] at step
    have hleft : (s.pc t).inside = false := by rw [hpc]; rfl
    have hfree := waits_outside h runs hleft (by simp [hpc]) (by simp [State.Polls, hpc])
    have hmore := fun (p : Pc α) d => goto_covered_more (p := p) (hv.covered d)
      (not_waiting h (runs_outside h runs hleft).1 d) (by rw [hpc]; rfl)
    rw [← step] at hshape ⊢
    split_ifs at hshape ⊢
    · exact served_of_free hshape hfree (hmore .idle)
    · exact served_of_free hshape hfree (hmore _)

theorem timeOut_covered (h : Shape s) (hc : Covered k s d) (t : T) :
    Covered k { s with
      waiting := fun d => (s.waiting d).erase t
      blocked := Function.update s.blocked t false } d := by
  have hstep := count_step (P := fun v => (s.pc v).looks = some d ∧ v ∉ (s.waiting d).erase t)
    (Q := fun v => (s.pc v).looks = some d ∧ v ∉ s.waiting d) t fun v hv => by
      rw [List.mem_erase_of_ne hv]
  have hself : t ∉ (s.waiting d).erase t := fun ht => ((h.nodup d).mem_erase_iff.mp ht).1 rfl
  have hle : s.looking d ≤ count fun v => (s.pc v).looks = some d ∧ v ∉ (s.waiting d).erase t := by
    unfold State.looking
    by_cases hq : (s.pc t).looks = some d ∧ t ∉ s.waiting d
    · rw [if_pos hq, if_pos ⟨hq.1, hself⟩] at hstep
      omega
    · rw [if_neg hq] at hstep
      omega
  rcases hc with hc | hc
  · exact Or.inl (Nat.le_trans hc (Nat.add_le_add_right hle k))
  · exact Or.inr (Nat.le_trans (List.length_erase_le) hc)

theorem act_served (h : Shape s) (hv : Served s) {xItemValue : T → ℕ} {a : Act T α}
    (step : act xItemValue s a = some u) : Served u := by
  have hshape := act_shape h step
  cases act_cases step with
  | call t r hpc may ticks next =>
    subst next
    obtain ⟨hawake, howner⟩ := runs_outside h may (by rw [hpc]; rfl)
    apply served_of_nobody (nobody_inside (t := t) hshape (by simp [State.goto, Pc.inside]) howner)
    exact fun d => goto_covered_more (s := s.setTicks t r.ticks) (hv.covered d) (not_waiting h hawake d)
      (congrArg Pc.looks hpc)
  | run t expired may step => exact stepTask_served h hv may step
  | interrupt c step => exact fromISR_served h hv step
  | timeOut t free next =>
    subst next
    exact served_of_free hshape free fun d => timeOut_covered h (hv.covered d) t
  | suspend t hpc free awake next =>
    subst next
    apply served_of_owner hshape rfl hv.covered
    · intro d hd
      simp [hpc, Pc.holds] at hd
    · intro r hr
      simp [hpc] at hr
  | resume t hpc suspended next =>
    subst next
    exact served_of_free hshape rfl hv.covered

theorem init_served : Shape (init : State cap T α) ∧ Served (init : State cap T α) := by
  have hshape : Shape (init : State cap T α) :=
    ⟨fun _ => List.nodup_nil, nofun, nofun, nofun, nofun, nofun, fun hp => absurd rfl hp, nofun, nofun,
      fun _ hl => absurd rfl hl⟩
  exact ⟨hshape, served_of_free hshape rfl fun _ => Or.inr (Nat.le_refl 0)⟩

/-- Whatever tasks and interrupts do, in whatever order: where tasks wait for an item, or
for room, there is no more of it than awake tasks that are about to take it. -/
theorem no_lost_wakeup (xItemValue : T → ℕ) {tr : List (State cap T α × Act T α)}
    (run : Run (fun s a u => act xItemValue s a = some u) init tr s) (free : s.uxSchedulerSuspended = none)
    (waits : s.waiting d ≠ []) :
    s.avail d ≤ count fun t => (s.pc t).atLoop d = true ∧ s.blocked t = false := by
  obtain ⟨hshape, hserved⟩ := run.invariant (C := fun _ _ => True) (I := fun s => Shape s ∧ Served s)
    (fun _ _ => trivial) init_served fun _ _ _ hi _ step =>
      ⟨act_shape hi.1 step, act_served hi.1 hi.2 step⟩
  have hlock : s.lock d = none := by
    by_contra hl
    obtain ⟨t, ht, -⟩ := hshape.locks d hl
    rw [free] at ht
    cases ht
  have hpending : s.xPendingReadyList = [] := by
    by_contra hp
    exact hshape.pending hp free
  have hcovered := hserved.covered d
  rw [hlock] at hcovered
  rcases hcovered with hc | hc
  · apply Nat.le_trans hc
    apply Nat.le_of_eq
    apply count_congr
    intro t
    have hinside : (s.pc t).inside ≠ true := by
      intro hi
      rw [hshape.inside t hi] at free
      cases free
    have hlooks : (s.pc t).looks = some d ↔ (s.pc t).atLoop d = true := by
      cases hpc : s.pc t <;> simp [hpc, Pc.inside, Pc.looks, Pc.atLoop] at hinside ⊢
    rw [hlooks]
    apply and_congr_right
    intro hat
    constructor
    · intro hout
      by_contra hb
      rcases hshape.waits t (by simpa using hb) with ⟨e, he⟩ | hp
      · have hside := hshape.looks e t he
        rw [hlooks.mpr hat] at hside
        exact hout (Option.some.inj hside ▸ he)
      · rw [hpending] at hp
        exact absurd hp List.not_mem_nil
    · exact fun hb => not_waiting hshape hb d
  · exact absurd (List.length_eq_zero_iff.mp (Nat.le_zero.mp hc)) waits

end

def startWait (t : Option Bool) (steps : ℕ) : List (Act (Option Bool) ℕ) :=
  .call t ⟨.receive, .maxDelay⟩ :: List.replicate steps (.run t false)

/-- Three tasks wait for an item; one comes in while the last of them has the queue locked. -/
def lockedSend : List (Act (Option Bool) ℕ) :=
  startWait (some true) 9 ++ startWait (some false) 9 ++ startWait none 6 ++
    .interrupt (.send 7) :: List.replicate 3 (.run none false)

/-- The task that has been woken takes the item, and sends another one while it
suspends the scheduler: the next task that waits becomes pending ready. -/
def suspendedSend : List (Act (Option Bool) ℕ) :=
  [.run (some true) false, .suspend (some true), .call (some true) ⟨.send 8, .zero⟩, .run (some true) false,
    .resume (some true)]

theorem no_lost_wakeup_suspended :
    ∃ (s : State 8 (Option Bool) ℕ) (tr : List (State 8 (Option Bool) ℕ × Act (Option Bool) ℕ)),
      Run (fun s a u => act (fun _ => 0) s a = some u) init tr s ∧ s.uxSchedulerSuspended = none ∧
        s.waiting .receive = [none] ∧ s.avail .receive = 1 ∧
        s.avail .receive ≤ count fun t => (s.pc t).atLoop .receive = true ∧ s.blocked t = false := by
  have hrun : (fireAll (act fun _ => 0) (lockedSend ++ suspendedSend) (init : State 8 (Option Bool) ℕ)).map
      (fun s => (s.uxSchedulerSuspended, s.waiting .receive, s.avail .receive)) = some (none, [none], 1) := by
    decide +kernel
  obtain ⟨s, hs, hfinal⟩ := Option.map_eq_some_iff.mp hrun
  simp only [Prod.mk.injEq] at hfinal
  obtain ⟨hfree, hwaiting, havail⟩ := hfinal
  have run := fireAll_run (fun _ _ _ h => h) hs
  exact ⟨s, _, run, hfree, hwaiting, havail, no_lost_wakeup (fun _ => 0) run hfree (by simp [hwaiting])⟩

end Stm32NetworkStack.LostWakeups
