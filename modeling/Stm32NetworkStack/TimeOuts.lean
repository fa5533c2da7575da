import Stm32NetworkStack.DelayedTasks

set_option autoImplicit false

/-!
# Time-outs

A call that waits checks its time-out again and again, and each time keeps only
what is left of it. The checks expire as one deadline on a clock that does not wrap.
-/
namespace Stm32NetworkStack.TimeOuts
open DelayedTasks

structure TimeOut where
  xOverflowCount : ℕ
  xTimeOnEntering : ℕ
  deriving DecidableEq

section
variable {T : Type} (tickValues : ℕ)

def vTaskInternalSetTimeOutState (s : Kernel T) : TimeOut := ⟨s.xNumOfOverflows, s.xTickCount⟩

/-- Whether the time is over, and what `pxTimeOut` and `pxTicksToWait` point to afterwards. -/
def xTaskCheckForTimeOut (s : Kernel T) (pxTimeOut : TimeOut) (pxTicksToWait : ℕ) : Bool × TimeOut × ℕ :=
  let xElapsedTime := (s.xTickCount + tickValues - pxTimeOut.xTimeOnEntering) % tickValues
  if pxTicksToWait = portMaxDelay tickValues then (false, pxTimeOut, pxTicksToWait)
  else if s.xNumOfOverflows ≠ pxTimeOut.xOverflowCount ∧ pxTimeOut.xTimeOnEntering ≤ s.xTickCount then
    (true, pxTimeOut, 0)
  else if xElapsedTime < pxTicksToWait then
    (false, vTaskInternalSetTimeOutState s, pxTicksToWait - xElapsedTime)
  else (true, pxTimeOut, 0)

/-- The answers of the checks of one call, in the states in which they are made. -/
def checks : List (Kernel T) → TimeOut → ℕ → List Bool
  | [], _, _ => []
  | s :: rest, pxTimeOut, pxTicksToWait =>
    let x := xTaskCheckForTimeOut tickValues s pxTimeOut pxTicksToWait
    x.1 :: if x.1 = true then [] else checks rest x.2.1 x.2.2

def expiries (deadline : ℕ) : List ℕ → List Bool
  | [] => []
  | t :: rest => if deadline ≤ t then [true] else false :: expiries deadline rest

/-- Each time comes after the one before, by less than one period of the tick count. -/
def Close : ℕ → List ℕ → Prop
  | _, [] => True
  | t, u :: rest => t ≤ u ∧ u < t + tickValues ∧ Close u rest

variable {tickValues} {c d : Clock T} {s u : Kernel T}

theorem period_cases (h : Lists tickValues c s) (h' : Lists tickValues d u) (hM : 0 < tickValues)
    (after : c.now ≤ d.now) (close : d.now < c.now + tickValues) :
    u.xNumOfOverflows = s.xNumOfOverflows ∧ u.xTickCount = s.xTickCount + (d.now - c.now) ∨
      u.xTickCount + tickValues = s.xTickCount + (d.now - c.now) := by
  have hc : c.now / tickValues * tickValues + c.now % tickValues = c.now := now_split c
  have hd : d.now / tickValues * tickValues + d.now % tickValues = d.now := now_split d
  have hcount : c.now % tickValues < tickValues := Nat.mod_lt _ hM
  rw [h.tick, h'.tick, h.overflows, h'.overflows]
  have hlow : c.now / tickValues ≤ d.now / tickValues := Nat.div_le_div_right after
  have hhigh : d.now / tickValues < c.now / tickValues + 2 := by
    apply Nat.div_lt_of_lt_mul
    have htwo : tickValues * (c.now / tickValues + 2) =
        c.now / tickValues * tickValues + tickValues + tickValues := by
      rw [Nat.mul_comm, Nat.add_mul, Nat.two_mul, Nat.add_assoc]
    omega
  rcases Nat.lt_or_ge (c.now / tickValues) (d.now / tickValues) with hlt | hge
  · have heq : d.now / tickValues = c.now / tickValues + 1 := by omega
    rw [heq, Nat.succ_mul] at hd
    exact Or.inr (by omega)
  · have heq : d.now / tickValues = c.now / tickValues := by omega
    rw [heq] at hd
    exact Or.inl ⟨by rw [heq], by omega⟩

theorem check_exact (h : Lists tickValues c s) (h' : Lists tickValues d u) (after : c.now ≤ d.now)
    (close : d.now < c.now + tickValues) {n : ℕ} (hn : n < portMaxDelay tickValues) :
    xTaskCheckForTimeOut tickValues u (vTaskInternalSetTimeOutState s) n =
      if c.now + n ≤ d.now then (true, vTaskInternalSetTimeOutState s, 0)
      else (false, vTaskInternalSetTimeOutState u, c.now + n - d.now) := by
  have hM : 0 < tickValues := by
    unfold portMaxDelay at hn
    omega
  have htick : s.xTickCount < tickValues := h.tick ▸ Nat.mod_lt _ hM
  have htick' : u.xTickCount < tickValues := h'.tick ▸ Nat.mod_lt _ hM
  have helapsed : (u.xTickCount + tickValues - s.xTickCount) % tickValues = d.now - c.now := by
    rcases period_cases h h' hM after close with ⟨-, ht⟩ | ht
    · rw [show u.xTickCount + tickValues - s.xTickCount = d.now - c.now + tickValues by omega,
        Nat.add_mod_right, Nat.mod_eq_of_lt (by omega)]
    · rw [show u.xTickCount + tickValues - s.xTickCount = d.now - c.now by omega, Nat.mod_eq_of_lt (by omega)]
  have hwrap : ¬ (u.xNumOfOverflows ≠ s.xNumOfOverflows ∧ s.xTickCount ≤ u.xTickCount) := by
    rcases period_cases h h' hM after close with ⟨ho, -⟩ | ht
    · exact fun hne => hne.1 ho
    · omega
  unfold xTaskCheckForTimeOut vTaskInternalSetTimeOutState
  simp only
  rw [if_neg (by omega), if_neg hwrap, helapsed]
  by_cases hlate : c.now + n ≤ d.now
  · rw [if_pos hlate, if_neg (by omega)]
  · rw [if_neg hlate, if_pos (by omega)]
    congr 2
    omega

theorem checks_expire {n : ℕ} (hn : n < portMaxDelay tickValues) (h : Lists tickValues c s)
    {states : List (Clock T × Kernel T)} (tracks : ∀ x ∈ states, Lists tickValues x.1 x.2)
    (close : Close tickValues c.now (states.map fun x => x.1.now)) :
    checks tickValues (states.map Prod.snd) (vTaskInternalSetTimeOutState s) n =
      expiries (c.now + n) (states.map fun x => x.1.now) := by
  induction states generalizing c s n with
  | nil => rfl
  | cons x rest ih =>
    obtain ⟨hafter, hclose, hrest⟩ : c.now ≤ x.1.now ∧ x.1.now < c.now + tickValues ∧
      Close tickValues x.1.now (rest.map fun y : Clock T × Kernel T => y.1.now) := close
    have hx := tracks x List.mem_cons_self
    have hcheck := check_exact h hx hafter hclose hn
    simp only [List.map_cons, checks, expiries, hcheck]
    by_cases hlate : c.now + n ≤ x.1.now
    · simp [if_pos hlate]
    · simp only [if_neg hlate, Bool.false_eq_true, if_false]
      congr 1
      have hdeadline : x.1.now + (c.now + n - x.1.now) = c.now + n := by omega
      have hlater := ih (n := c.now + n - x.1.now) (by omega) hx
        (fun y hy => tracks y (List.mem_cons_of_mem x hy)) hrest
      rw [hdeadline] at hlater
      exact hlater

theorem checks_forever (states : List (Kernel T)) (pxTimeOut : TimeOut) :
    checks tickValues states pxTimeOut (portMaxDelay tickValues) = states.map fun _ => false := by
  induction states with
  | nil => rfl
  | cons s rest ih =>
    have hcheck : xTaskCheckForTimeOut tickValues s pxTimeOut (portMaxDelay tickValues) =
        (false, pxTimeOut, portMaxDelay tickValues) := if_pos rfl
    simp only [checks, hcheck, Bool.false_eq_true, if_false, List.map_cons, ih]

/-- However often a call is woken for nothing and checks again: its checks expire from the time on
that lies `n` ticks after it was made, and not before; with portMAX_DELAY they never do. -/
theorem timeouts_exact (h : Lists tickValues c s) {states : List (Clock T × Kernel T)}
    (tracks : ∀ x ∈ states, Lists tickValues x.1 x.2)
    (close : Close tickValues c.now (states.map fun x => x.1.now)) :
    (∀ n < portMaxDelay tickValues,
      checks tickValues (states.map Prod.snd) (vTaskInternalSetTimeOutState s) n =
        expiries (c.now + n) (states.map fun x => x.1.now)) ∧
      checks tickValues (states.map Prod.snd) (vTaskInternalSetTimeOutState s) (portMaxDelay tickValues) =
        states.map fun _ => false := by
  refine ⟨fun n hn => checks_expire hn h tracks close, ?_⟩
  rw [checks_forever, List.map_map]
  rfl

def bareKernel (xTickCount xNumOfOverflows : ℕ) : Kernel Bool :=
  ⟨xTickCount, xNumOfOverflows, 0, [], [], [], [], 0, 0⟩

/-- A call before the wrap, woken for nothing before and behind it. -/
theorem timeouts_exact_wrap :
    checks 0x100000000 [bareKernel 0xFFFFFFFF 0, bareKernel 1 1, bareKernel 2 1] ⟨0, 0xFFFFFFFD⟩ 5 =
        [false, false, true] ∧
      checks 0x100000000 [bareKernel 0xFFFFFFFF 0, bareKernel 1 1, bareKernel 2 1] ⟨0, 0xFFFFFFFD⟩ 0xFFFFFFFF =
        [false, false, false] := by
  have track : ∀ now tick overflows : ℕ, tick = now % 0x100000000 →
      overflows = now / 0x100000000 % baseTypeValues →
        Lists 0x100000000 (Clock.start now) (bareKernel tick overflows) :=
    fun _ _ _ htick hover => ⟨htick, hover, rfl, fun _ _ => rfl, fun _ _ => rfl,
      ⟨List.Pairwise.nil, List.Pairwise.nil⟩, nofun, nofun, nofun⟩
  have hstates : ∀ x ∈ [(Clock.start 0xFFFFFFFF, bareKernel 0xFFFFFFFF 0),
      (Clock.start 0x100000001, bareKernel 1 1), (Clock.start 0x100000002, bareKernel 2 1)],
      Lists 0x100000000 x.1 x.2 := by
    simpa using ⟨track 0xFFFFFFFF 0xFFFFFFFF 0 (by decide) (by decide),
      track 0x100000001 1 1 (by decide) (by decide), track 0x100000002 2 1 (by decide) (by decide)⟩
  have hexact := timeouts_exact (track 0xFFFFFFFD 0xFFFFFFFD 0 (by decide) (by decide)) hstates
    (by simp [Close, Clock.start])
  exact ⟨hexact.1 5 (by decide), hexact.2⟩

end

end Stm32NetworkStack.TimeOuts
