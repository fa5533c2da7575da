import Mathlib.Algebra.BigOperators.Group.Finset.Piecewise
import Mathlib.Data.Fintype.Basic

set_option autoImplicit false

/-!
# Counting the members of a finite type

How many members of a finite type meet a condition, and how this number changes
when one member does.
-/
namespace Stm32NetworkStack.FiniteCounts

section
variable {T : Type} [Fintype T]

def count (P : T → Prop) [DecidablePred P] : ℕ := (Finset.univ.filter P).card

/-- Two conditions that differ at one place only. -/
theorem count_step [DecidableEq T] {P Q : T → Prop} [DecidablePred P] [DecidablePred Q] (t : T)
    (same : ∀ u, u ≠ t → (P u ↔ Q u)) :
    count P + (if Q t then 1 else 0) = count Q + (if P t then 1 else 0) := by
  have hrest : ∑ u ∈ Finset.univ.erase t, (if P u then 1 else 0) =
      ∑ u ∈ Finset.univ.erase t, (if Q u then 1 else 0) := by
    apply Finset.sum_congr rfl
    intro u hu
    exact if_congr (same u (Finset.ne_of_mem_erase hu)) rfl rfl
  unfold count
  rw [Finset.card_filter, Finset.card_filter, ← Finset.add_sum_erase _ _ (Finset.mem_univ t), hrest,
    ← Finset.add_sum_erase _ (fun u => if Q u then 1 else 0) (Finset.mem_univ t)]
  omega

theorem count_congr {P Q : T → Prop} [DecidablePred P] [DecidablePred Q] (same : ∀ u, P u ↔ Q u) :
    count P = count Q := by
  unfold count
  congr 1
  exact Finset.filter_congr fun u _ => same u

end

end Stm32NetworkStack.FiniteCounts
