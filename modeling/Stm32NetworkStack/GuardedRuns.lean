import Mathlib.Data.Nat.Notation
import Mathlib.Logic.Basic
import Mathlib.Tactic.SplitIfs

set_option autoImplicit false

/-!
# Runs under a condition

A run is a sequence of labelled steps with the states they were taken in. What
a step preserves, under a condition on the step, holds after every run whose
steps all meet the condition. Tasks that share a processor cooperatively give it
up only when they are blocked; such runs are runs.
-/
namespace Stm32NetworkStack.GuardedRuns

section
variable {σ α : Type} {Step : σ → α → σ → Prop} {s u v : σ}

inductive Run (Step : σ → α → σ → Prop) (s : σ) : List (σ × α) → σ → Prop
  | nil : Run Step s [] s
  | snoc {t : List (σ × α)} {u v : σ} {a : α} (init : Run Step s t u) (last : Step u a v) :
      Run Step s (t ++ [(u, a)]) v

theorem Run.trans {t t' : List (σ × α)} (h : Run Step s t u) (h' : Run Step u t' v) :
    Run Step s (t ++ t') v := by
  induction h' with
  | nil => rwa [List.append_nil]
  | snoc init last ih =>
    rw [← List.append_assoc]
    exact ih.snoc last

/-- What every step preserves under the condition `C` holds at the end. -/
theorem Run.invariant {C : σ → α → Prop} {I : σ → Prop} {t : List (σ × α)} (h : Run Step s t u)
    (hC : ∀ e ∈ t, C e.1 e.2) (h0 : I s) (step : ∀ s a u, I s → C s a → Step s a u → I u) : I u := by
  induction h with
  | nil => exact h0
  | snoc init last ih =>
    have hi := ih fun e he => hC e (List.mem_append_left _ he)
    exact step _ _ _ hi (hC _ (List.mem_append_right _ (List.mem_singleton.mpr rfl))) last

/-- A failure that lasts happens exactly when a step misses the condition. -/
theorem Run.ok_iff {A C : σ → α → Prop} {I F : σ → Prop} {t : List (σ × α)} (h : Run Step s t u)
    (hA : ∀ e ∈ t, A e.1 e.2) (h0 : I s)
    (good : ∀ s a u, A s a → I s → C s a → Step s a u → I u)
    (bad : ∀ s a u, A s a → I s → ¬ C s a → Step s a u → F u)
    (stay : ∀ s a u, A s a → F s → Step s a u → F u) (apart : ∀ s, I s → ¬ F s) :
    ((∀ e ∈ t, C e.1 e.2) ↔ ¬ F u) ∧ ((∀ e ∈ t, C e.1 e.2) → I u) := by
  have holds : (∀ e ∈ t, C e.1 e.2) ∧ I u ∨ (¬ ∀ e ∈ t, C e.1 e.2) ∧ F u := by
    induction h with
    | nil => exact Or.inl ⟨fun e he => absurd he List.not_mem_nil, h0⟩
    | @snoc t u v a init last ih =>
      have hinit := fun e he => hA e (List.mem_append_left _ he)
      have hlast := hA _ (List.mem_append_right _ (List.mem_singleton.mpr rfl))
      rcases ih hinit with ⟨hc, hi⟩ | ⟨hc, hf⟩
      · by_cases hca : C u a
        · refine Or.inl ⟨fun e he => ?_, good _ _ _ hlast hi hca last⟩
          rcases List.mem_append.mp he with he | he
          · exact hc e he
          · rw [List.mem_singleton.mp he]
            exact hca
        · refine Or.inr ⟨fun hall => hca ?_, bad _ _ _ hlast hi hca last⟩
          exact hall _ (List.mem_append_right _ (List.mem_singleton.mpr rfl))
      · refine Or.inr ⟨fun hall => hc fun e he => ?_, stay _ _ _ hlast hf last⟩
        exact hall e (List.mem_append_left _ he)
  rcases holds with ⟨hc, hi⟩ | ⟨hc, hf⟩
  · exact ⟨⟨fun _ => apart u hi, fun _ => hc⟩, fun _ => hi⟩
  · exact ⟨⟨fun h => absurd h hc, fun h => absurd hf h⟩, fun h => absurd h hc⟩

/-- Runs a list of actions of an executable system. -/
def fireAll (fire : σ → α → Option σ) : List α → σ → Option σ
  | [], s => some s
  | a :: rest, s => (fire s a).bind (fireAll fire rest)

def fireTrace (fire : σ → α → Option σ) : List α → σ → List (σ × α)
  | [], _ => []
  | a :: rest, s => (s, a) :: ((fire s a).map (fireTrace fire rest)).getD []

theorem fireAll_run {fire : σ → α → Option σ} (sound : ∀ s a u, fire s a = some u → Step s a u)
    {acts : List α} (h : fireAll fire acts s = some u) : Run Step s (fireTrace fire acts s) u := by
  induction acts generalizing s with
  | nil =>
    obtain rfl := Option.some.inj h
    exact .nil
  | cons a rest ih =>
    obtain ⟨v, hv, hrest⟩ := Option.bind_eq_some_iff.mp h
    have hfirst : Run Step s [(s, a)] v := Run.snoc .nil (sound s a v hv)
    simp only [fireTrace, hv, Option.map_some, Option.getD_some]
    exact hfirst.trans (ih hrest)

end

section
variable {σ α τ : Type} {Step : σ → α → σ → Prop} {owner : α → Option τ} {blocked : τ → σ → Prop}

/-- The state together with the task that runs. A step of another task is taken
only if the running task is blocked. -/
inductive Coop (Step : σ → α → σ → Prop) (owner : α → Option τ) (blocked : τ → σ → Prop) :
    σ × τ → α → σ × τ → Prop
  | stay {s u : σ} {k : τ} {a : α} (step : Step s a u) (same : owner a = none ∨ owner a = some k) :
      Coop Step owner blocked (s, k) a (u, k)
  | switch {s u : σ} {k k' : τ} {a : α} (step : Step s a u) (other : owner a = some k')
      (waits : blocked k s) : Coop Step owner blocked (s, k) a (u, k')

theorem Coop.step {x y : σ × τ} {a : α} (h : Coop Step owner blocked x a y) : Step x.1 a y.1 := by
  cases h with
  | stay step same => exact step
  | switch step other waits => exact step

theorem coop_run {x y : σ × τ} {t : List ((σ × τ) × α)} (h : Run (Coop Step owner blocked) x t y) :
    Run Step x.1 (t.map fun e => (e.1.1, e.2)) y.1 := by
  induction h with
  | nil => exact .nil
  | snoc init last ih =>
    rw [List.map_append]
    exact ih.snoc last.step

def coopFire [DecidableEq τ] (fire : σ → α → Option σ) (owner : α → Option τ) (waits : τ → σ → Bool) :
    σ × τ → α → Option (σ × τ)
  | (s, k), a =>
    match owner a with
    | none => (fire s a).map fun u => (u, k)
    | some k' => if k' = k ∨ waits k s = true then (fire s a).map fun u => (u, k') else none

theorem coopFire_sound [DecidableEq τ] {fire : σ → α → Option σ} {waits : τ → σ → Bool}
    (sound : ∀ s a u, fire s a = some u → Step s a u) (x : σ × τ) (a : α) (y : σ × τ)
    (h : coopFire fire owner waits x a = some y) :
    Coop Step owner (fun k s => waits k s = true) x a y := by
  obtain ⟨s, k⟩ := x
  unfold coopFire at h
  cases ho : owner a with
  | none =>
    simp only [ho] at h
    obtain ⟨u, hu, rfl⟩ := Option.map_eq_some_iff.mp h
    exact .stay (sound s a u hu) (Or.inl ho)
  | some k' =>
    simp only [ho] at h
    split_ifs at h with hk
    obtain ⟨u, hu, rfl⟩ := Option.map_eq_some_iff.mp h
    by_cases hsame : k' = k
    · subst hsame
      exact .stay (sound s a u hu) (Or.inr ho)
    · exact .switch (sound s a u hu) ho (hk.resolve_left hsame)

end

end Stm32NetworkStack.GuardedRuns
