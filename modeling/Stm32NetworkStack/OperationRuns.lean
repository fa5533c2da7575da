import Mathlib.Data.Nat.Notation
import Mathlib.Logic.Basic

set_option autoImplicit false

/-!
# Runs of operations

Operations are executed one after another on a state. An operation may fail an
assertion; nothing runs after that. Two implementations whose single operations
answer alike in related states answer alike in every run.
-/
namespace Stm32NetworkStack.OperationRuns

section
variable {ι ρ σ τ : Type}

/-- The answers to a list of operations, and the last state. -/
def runAll (step : ι → σ → Option (ρ × σ)) : List ι → σ → Option (List ρ × σ)
  | [], s => some ([], s)
  | i :: rest, s =>
    (step i s).bind fun x => (runAll step rest x.2).map fun y => (x.1 :: y.1, y.2)

/-- Every operation meets `C` in the state that the run has come to. -/
def AllRun (step : ι → σ → Option (ρ × σ)) (C : ι → σ → Prop) : List ι → σ → Prop
  | [], _ => True
  | i :: rest, s => C i s ∧ ∀ x, step i s = some x → AllRun step C rest x.2

theorem allRun_of_forall {step : ι → σ → Option (ρ × σ)} {C : ι → Prop} {ops : List ι} (hops : ∀ i ∈ ops, C i)
    (s : σ) : AllRun step (fun i _ => C i) ops s := by
  induction ops generalizing s with
  | nil => trivial
  | cons i rest ih =>
    exact ⟨hops i List.mem_cons_self, fun x _ => ih (fun j hj => hops j (List.mem_cons_of_mem i hj)) x.2⟩

/-- Both fail, or both answer the same and leave related states. -/
def Agree (S : τ → σ → Prop) {α : Type} : Option (α × τ) → Option (α × σ) → Prop
  | some x, some y => x.1 = y.1 ∧ S x.2 y.2
  | none, none => True
  | _, _ => False

variable {S : τ → σ → Prop} {spec : ι → τ → Option (ρ × τ)} {impl : ι → σ → Option (ρ × σ)}

theorem agree_some {α : Type} {a : α} {x : τ} {s : σ} (h : S x s) : Agree S (some (a, x)) (some (a, s)) :=
  ⟨rfl, h⟩

theorem agree_answers {α : Type} {x : Option (α × τ)} {y : Option (α × σ)} {a : α} {u : τ} (h : Agree S x y)
    (hx : x = some (a, u)) : ∃ s, y = some (a, s) ∧ S u s := by
  subst hx
  cases y with
  | none => exact h.elim
  | some b =>
    obtain ⟨rfl, hS⟩ := h
    exact ⟨b.2, rfl, hS⟩

/-- If single operations that meet `C` agree, then so do whole runs of them. -/
theorem runAll_agree {C : ι → τ → Prop} (step : ∀ i x s, C i x → S x s → Agree S (spec i x) (impl i s))
    {ops : List ι} {x : τ} {s : σ} (hops : AllRun spec C ops x) (h : S x s) :
    Agree S (runAll spec ops x) (runAll impl ops s) := by
  induction ops generalizing x s with
  | nil => exact ⟨rfl, h⟩
  | cons i rest ih =>
    have hi := step i x s hops.1 h
    unfold runAll
    cases hx : spec i x with
    | none =>
      cases hs : impl i s with
      | none => trivial
      | some b => rw [hx, hs] at hi; exact hi.elim
    | some a =>
      cases hs : impl i s with
      | none => rw [hx, hs] at hi; exact hi.elim
      | some b =>
        rw [hx, hs] at hi
        obtain ⟨hab, hS⟩ := hi
        have hr := ih (hops.2 a hx) hS
        simp only [Option.bind_some]
        cases hx' : runAll spec rest a.2 with
        | none =>
          cases hs' : runAll impl rest b.2 with
          | none => trivial
          | some d => rw [hx', hs'] at hr; exact hr.elim
        | some c =>
          cases hs' : runAll impl rest b.2 with
          | none => rw [hx', hs'] at hr; exact hr.elim
          | some d =>
            rw [hx', hs'] at hr
            exact ⟨congrArg₂ List.cons hab hr.1, hr.2⟩

end

end Stm32NetworkStack.OperationRuns
