import Mathlib.Algebra.GroupWithZero.Nat
import Mathlib.Data.Nat.Notation
import Mathlib.Logic.Function.Basic

set_option autoImplicit false

/-!
# Records in a ring of memory cells

A ring is a range of cells through which positions run without bound. A log is
a list of records stored one after another; records may have a padded width.
Appending a record leaves the log alone as long as it does not catch up with
the first record.
-/
namespace Stm32NetworkStack.RingLog

structure Ring where
  start : ℕ
  size : ℕ
  pos : 0 < size

section
variable (r : Ring)

def Ring.cell (x : ℕ) : ℕ := r.start + x % r.size

/-- The cell after `p`, which wraps behind the last one. -/
def Ring.next (p : ℕ) : ℕ := if p = r.start + (r.size - 1) then r.start else p + 1

theorem cell_bounds (x : ℕ) : r.start ≤ r.cell x ∧ r.cell x < r.start + r.size := by
  have h := Nat.mod_lt x r.pos
  unfold Ring.cell
  omega

theorem cell_ahead (x : ℕ) {d : ℕ} (hd : d < r.size) :
    r.cell (x + d) = r.cell x + d ∨ r.cell (x + d) + r.size = r.cell x + d := by
  have hx := Nat.mod_lt x r.pos
  unfold Ring.cell
  rw [← Nat.mod_add_mod]
  by_cases h : x % r.size + d < r.size
  · left
    rw [Nat.mod_eq_of_lt h]
    omega
  · right
    rw [Nat.mod_eq_sub_mod (by omega), Nat.mod_eq_of_lt (by omega)]
    omega

theorem next_cell (x : ℕ) : r.next (r.cell x) = r.cell (x + 1) := by
  have hx := cell_bounds r x
  unfold Ring.next
  by_cases hone : r.size = 1
  · have hx' := cell_bounds r (x + 1)
    rw [if_pos (by omega)]
    omega
  · have hpos := r.pos
    have hs := cell_bounds r (x + 1)
    rcases cell_ahead r x (d := 1) (by omega) with h | h
    · rw [if_neg (by omega), h]
    · rw [if_pos (by omega)]
      omega

/-- Two positions less than a turn apart share no cell. -/
theorem cell_inj {x y : ℕ} (h : r.cell x = r.cell y) (hxy : x ≤ y) (hy : y < x + r.size) :
    x = y := by
  obtain ⟨d, rfl⟩ := Nat.exists_eq_add_of_le hxy
  rcases cell_ahead r x (d := d) (by omega) with h' | h' <;> omega

theorem cell_distance {x y : ℕ} (hxy : x ≤ y) (hy : y < x + r.size) :
    (r.cell y + r.size - r.cell x) % r.size = y - x := by
  obtain ⟨d, rfl⟩ := Nat.exists_eq_add_of_le hxy
  have hx := cell_bounds r x
  rcases cell_ahead r x (d := d) (by omega) with h | h
  · have hs : r.cell (x + d) + r.size - r.cell x = d + r.size := by omega
    rw [hs, Nat.add_mod_right, Nat.mod_eq_of_lt (by omega)]
    omega
  · have hs : r.cell (x + d) + r.size - r.cell x = d := by omega
    rw [hs, Nat.mod_eq_of_lt (by omega)]
    omega

/-- `n` cells on from `p`. -/
def Ring.forward (p n : ℕ) : ℕ := r.start + (p - r.start + n) % r.size

theorem forward_cell (x n : ℕ) : r.forward (r.cell x) n = r.cell (x + n) := by
  have hs : r.cell x - r.start = x % r.size := by
    unfold Ring.cell
    omega
  unfold Ring.forward
  rw [hs, Nat.mod_add_mod]
  rfl

end

section
variable {β φ : Type} (r : Ring)

def Ring.write : ℕ → List β → (ℕ → β) → ℕ → β
  | _, [], mem => mem
  | p, b :: bs, mem => Ring.write (r.next p) bs (Function.update mem p b)

def Ring.Holds (mem : ℕ → β) (x : ℕ) (bs : List β) : Prop :=
  ∀ i b, bs[i]? = some b → mem (r.cell (x + i)) = b

/-- Records from `x` up to `y`. -/
def Ring.Stored (enc : ℕ → φ → List β) (width : φ → ℕ) (mem : ℕ → β) : ℕ → List φ → ℕ → Prop
  | x, [], y => x = y
  | x, f :: fs, y => r.Holds mem x (enc x f) ∧ Ring.Stored enc width mem (x + width f) fs y

variable {r}

theorem write_off {bs : List β} {mem : ℕ → β} {x a : ℕ} (h : ∀ i < bs.length, a ≠ r.cell (x + i)) :
    r.write (r.cell x) bs mem a = mem a := by
  induction bs generalizing x mem with
  | nil => rfl
  | cons b bs ih =>
    have htail : ∀ i < bs.length, a ≠ r.cell (x + 1 + i) := by
      intro i hi
      rw [show x + 1 + i = x + (i + 1) by omega]
      exact h (i + 1) (Nat.succ_lt_succ hi)
    have hhead : a ≠ r.cell x := h 0 (Nat.succ_pos _)
    simp only [Ring.write, next_cell]
    rw [ih htail, Function.update_of_ne hhead]

theorem write_holds {bs : List β} {mem : ℕ → β} {x : ℕ} (h : bs.length ≤ r.size) :
    r.Holds (r.write (r.cell x) bs mem) x bs := by
  induction bs generalizing x mem with
  | nil => exact fun i b hb => by simp at hb
  | cons b bs ih =>
    intro i b' hb
    rw [List.length_cons] at h
    simp only [Ring.write, next_cell]
    cases i with
    | zero =>
      obtain rfl := Option.some.inj hb
      rw [write_off, Nat.add_zero, Function.update_self]
      intro j hj heq
      have hx := cell_inj r heq (by omega) (by omega)
      omega
    | succ i =>
      have hi : r.write (r.cell (x + 1)) bs (Function.update mem (r.cell x) b)
          (r.cell (x + 1 + i)) = b' := ih (by omega) i b' hb
      rwa [show x + 1 + i = x + (i + 1) by omega] at hi

theorem Holds.agree {mem mem' : ℕ → β} {x : ℕ} {bs : List β} (h : r.Holds mem x bs)
    (ha : ∀ i < bs.length, mem' (r.cell (x + i)) = mem (r.cell (x + i))) : r.Holds mem' x bs := by
  intro i b hb
  obtain ⟨hi, -⟩ := List.getElem?_eq_some_iff.mp hb
  exact (ha i hi).trans (h i b hb)

variable {enc : ℕ → φ → List β} {width : φ → ℕ} {mem mem' : ℕ → β} {x y : ℕ} {fs : List φ}

theorem Stored.le (h : r.Stored enc width mem x fs y) : x ≤ y := by
  induction fs generalizing x with
  | nil => exact Nat.le_of_eq h
  | cons f fs ih =>
    have hf := ih h.2
    omega

theorem Stored.width_sum (h : r.Stored enc width mem x fs y) : y = x + (fs.map width).sum := by
  induction fs generalizing x with
  | nil =>
    obtain rfl : x = y := h
    rfl
  | cons f fs ih =>
    have hrest := ih h.2
    rw [List.map_cons, List.sum_cons]
    omega

theorem Stored.agree (hw : ∀ x f, (enc x f).length ≤ width f) (h : r.Stored enc width mem x fs y)
    (ha : ∀ z, x ≤ z → z < y → mem' (r.cell z) = mem (r.cell z)) :
    r.Stored enc width mem' x fs y := by
  induction fs generalizing x with
  | nil => exact h
  | cons f fs ih =>
    have hlen := hw x f
    have hle := Stored.le h.2
    refine ⟨Holds.agree h.1 fun i hi => ha _ (by omega) (by omega), ih h.2 fun z hz => ha z (by omega)⟩

theorem Stored.snoc {f : φ} (h : r.Stored enc width mem x fs y) (hf : r.Holds mem y (enc y f)) :
    r.Stored enc width mem x (fs ++ [f]) (y + width f) := by
  induction fs generalizing x with
  | nil =>
    obtain rfl : x = y := h
    exact ⟨hf, rfl⟩
  | cons g fs ih => exact ⟨h.1, ih h.2⟩

/-- A record is appended within one turn of the first one. -/
theorem Stored.push {f : φ} (hw : ∀ x f, (enc x f).length ≤ width f)
    (h : r.Stored enc width mem x fs y) (room : y + width f ≤ x + r.size) :
    r.Stored enc width (r.write (r.cell y) (enc y f) mem) x (fs ++ [f]) (y + width f) := by
  have hle := Stored.le h
  have hlen := hw y f
  refine Stored.snoc (Stored.agree hw h fun z hz hzy => ?_) (write_holds (by omega))
  refine write_off fun i hi heq => ?_
  have hz := cell_inj r heq (by omega) (by omega)
  omega

end

end Stm32NetworkStack.RingLog
