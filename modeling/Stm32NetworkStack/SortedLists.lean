import Mathlib.Data.List.Basic
import Mathlib.Data.Nat.Notation
import Mathlib.Tactic.SplitIfs

set_option autoImplicit false

/-!
# Lists in the order of a value

An insertion puts a new member behind all that have at most its value, so that
members of equal value stay in the order in which they came. Among members of one
value, the list is a first in first out queue.
-/
namespace Stm32NetworkStack.SortedLists

section
variable {β : Type} (value : β → ℕ)

def insertSorted (x : β) : List β → List β
  | [] => [x]
  | y :: rest => if value x < value y then x :: y :: rest else y :: insertSorted x rest

def Ascending (l : List β) : Prop := l.Pairwise fun x y => value x ≤ value y

/-- The members of value `k`. -/
def ofValue (k : ℕ) (l : List β) : List β := l.filter fun x => value x = k

variable {value} {l : List β} {x : β} {k : ℕ}

theorem insertSorted_perm (x : β) (l : List β) : (insertSorted value x l).Perm (x :: l) := by
  induction l with
  | nil => exact List.Perm.refl _
  | cons y rest ih =>
    unfold insertSorted
    split_ifs
    · exact List.Perm.refl _
    · exact (ih.cons y).trans (List.Perm.swap x y rest)

theorem mem_insertSorted {y : β} : y ∈ insertSorted value x l ↔ y = x ∨ y ∈ l := by
  rw [(insertSorted_perm x l).mem_iff, List.mem_cons]

theorem insertSorted_ascending (h : Ascending value l) (x : β) : Ascending value (insertSorted value x l) := by
  induction l with
  | nil => exact List.pairwise_singleton _ x
  | cons y rest ih =>
    obtain ⟨hy, hrest⟩ := List.pairwise_cons.mp h
    unfold insertSorted
    split_ifs with hlt
    · apply List.pairwise_cons.mpr ⟨_, h⟩
      intro z hz
      rcases List.mem_cons.mp hz with rfl | hz
      · exact Nat.le_of_lt hlt
      · exact Nat.le_trans (Nat.le_of_lt hlt) (hy z hz)
    · apply List.pairwise_cons.mpr ⟨_, ih hrest⟩
      intro z hz
      rcases mem_insertSorted.mp hz with rfl | hz
      · exact Nat.le_of_not_lt hlt
      · exact hy z hz

theorem ofValue_none (h : ∀ y ∈ l, value y ≠ k) : ofValue value k l = [] := by
  apply List.filter_eq_nil_iff.mpr
  intro y hy
  simpa using h y hy

/-- A new member comes behind all others of its value. -/
theorem ofValue_insertSorted (h : Ascending value l) (x : β) (k : ℕ) :
    ofValue value k (insertSorted value x l) = ofValue value k l ++ if value x = k then [x] else [] := by
  induction l with
  | nil =>
    simp only [insertSorted, ofValue, List.filter_cons, List.filter_nil, decide_eq_true_eq, List.nil_append]
  | cons y rest ih =>
    obtain ⟨hy, hrest⟩ := List.pairwise_cons.mp h
    unfold insertSorted
    split_ifs with hlt hk hk
    · -- all that follow are of a greater value
      have hnone : ofValue value k (y :: rest) = [] := by
        apply ofValue_none
        intro z hz
        rcases List.mem_cons.mp hz with rfl | hz
        · omega
        · have := hy z hz
          omega
      have hfirst : ofValue value k (x :: y :: rest) = x :: ofValue value k (y :: rest) :=
        List.filter_cons_of_pos (by simpa using hk)
      rw [hfirst, hnone]
      rfl
    · rw [List.append_nil]
      exact List.filter_cons_of_neg (by simpa using hk)
    · have hih := ih hrest
      rw [if_pos hk] at hih
      unfold ofValue at hih ⊢
      rw [List.filter_cons, List.filter_cons, hih]
      split_ifs <;> rfl
    · have hih := ih hrest
      rw [if_neg hk] at hih
      unfold ofValue at hih ⊢
      rw [List.filter_cons, List.filter_cons, hih]
      split_ifs <;> rfl

/-- If no member is below `k`, those of value `k` come first. -/
theorem takeWhile_least (h : Ascending value l) (low : ∀ y ∈ l, k ≤ value y) :
    l.takeWhile (fun y => value y ≤ k) = ofValue value k l ∧
      l.dropWhile (fun y => value y ≤ k) = l.filter fun y => value y ≠ k := by
  induction l with
  | nil => exact ⟨rfl, rfl⟩
  | cons y rest ih =>
    obtain ⟨hy, hrest⟩ := List.pairwise_cons.mp h
    have hlow := low y List.mem_cons_self
    by_cases hk : value y = k
    · obtain ⟨htake, hdrop⟩ := ih hrest fun z hz => low z (List.mem_cons_of_mem y hz)
      have hle : decide (value y ≤ k) = true := by simpa using Nat.le_of_eq hk
      constructor
      · rw [List.takeWhile_cons, if_pos hle, htake]
        exact (List.filter_cons_of_pos (by simpa using hk)).symm
      · rw [List.dropWhile_cons, if_pos hle, hdrop]
        exact (List.filter_cons_of_neg (by simpa using hk)).symm
    · have hgt : ¬ decide (value y ≤ k) = true := by
        simp only [decide_eq_true_eq]
        omega
      have hne : ∀ z ∈ y :: rest, value z ≠ k := by
        intro z hz
        rcases List.mem_cons.mp hz with rfl | hz
        · exact hk
        · have := hy z hz
          omega
      constructor
      · rw [List.takeWhile_cons, if_neg hgt, ofValue_none hne]
      · rw [List.dropWhile_cons, if_neg hgt]
        apply (List.filter_eq_self.mpr _).symm
        intro z hz
        simpa using hne z hz

theorem ascending_filter (h : Ascending value l) (p : β → Bool) : Ascending value (l.filter p) :=
  h.sublist List.filter_sublist

end

end Stm32NetworkStack.SortedLists
