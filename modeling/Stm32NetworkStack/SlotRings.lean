import Mathlib.Data.List.Basic
import Mathlib.Data.Nat.Notation
import Mathlib.Logic.Basic
import Mathlib.Tactic.SplitIfs

set_option autoImplicit false

/-!
# Items in a ring of slots

A ring of slots of equal width takes up one range of a memory. Positions run
without bound and wrap behind the last slot. The items between two positions
are taken out at one end and put in at either end.
-/
namespace Stm32NetworkStack.SlotRings

/-- `n` cells from `p` on. -/
def load {β : Type} (mem : ℕ → β) (p n : ℕ) : List β := (List.range n).map fun i => mem (p + i)

/-- The memory after `n` cells were copied to `p` from the start of `src`. -/
def copyTo {β : Type} (mem : ℕ → β) (p : ℕ) (src : ℕ → β) (n : ℕ) : ℕ → β := fun a =>
  if p ≤ a ∧ a < p + n then src (a - p) else mem a

section
variable {β : Type} {mem : ℕ → β} {p q n : ℕ} {src : ℕ → β}

theorem load_copied : load (copyTo mem p src n) p n = load src 0 n := by
  apply List.map_congr_left
  intro i hi
  have hlt : i < n := List.mem_range.mp hi
  unfold copyTo
  rw [if_pos (by omega), Nat.add_sub_cancel_left, Nat.zero_add]

theorem load_apart (h : q + n ≤ p ∨ p + n ≤ q) : load (copyTo mem p src n) q n = load mem q n := by
  apply List.map_congr_left
  intro i hi
  have hlt : i < n := List.mem_range.mp hi
  unfold copyTo
  rw [if_neg (by omega)]

theorem copyTo_outside {a : ℕ} (h : a < p ∨ p + n ≤ a) : copyTo mem p src n a = mem a := by
  unfold copyTo
  rw [if_neg (by omega)]

end

structure SlotRing where
  base : ℕ
  width : ℕ
  slots : ℕ
  pos : 0 < slots

section
variable (r : SlotRing)

def SlotRing.addr (x : ℕ) : ℕ := r.base + x % r.slots * r.width

/-- The cell behind the last slot. -/
def SlotRing.tail : ℕ := r.base + r.slots * r.width

theorem addr_bounds (x : ℕ) : r.base ≤ r.addr x ∧ r.addr x + r.width ≤ r.tail := by
  have hlt := Nat.mod_lt x r.pos
  have hmul : (x % r.slots + 1) * r.width ≤ r.slots * r.width := Nat.mul_le_mul_right _ hlt
  rw [Nat.succ_mul] at hmul
  unfold SlotRing.addr SlotRing.tail
  omega

theorem addr_turn (x : ℕ) : r.addr (x + r.slots) = r.addr x := by
  unfold SlotRing.addr
  rw [Nat.add_mod_right]

/-- One slot on: behind the last one the first one follows. -/
theorem addr_next (x : ℕ) (wide : 0 < r.width) :
    (if r.tail ≤ r.addr x + r.width then r.base else r.addr x + r.width) = r.addr (x + 1) := by
  have hlt := Nat.mod_lt x r.pos
  unfold SlotRing.addr SlotRing.tail
  by_cases hlast : x % r.slots + 1 = r.slots
  · have hwrap : (x + 1) % r.slots = 0 := by
      rw [← Nat.mod_add_mod, hlast, Nat.mod_self]
    have heq : (x % r.slots + 1) * r.width = r.slots * r.width := by rw [hlast]
    rw [Nat.succ_mul] at heq
    rw [if_pos (by omega), hwrap, Nat.zero_mul, Nat.add_zero]
  · have hstep : (x + 1) % r.slots = x % r.slots + 1 := by
      rw [← Nat.mod_add_mod, Nat.mod_eq_of_lt (by omega)]
    have hmul : (x % r.slots + 2) * r.width ≤ r.slots * r.width := Nat.mul_le_mul_right _ (by omega)
    have hsplit : (x % r.slots + 2) * r.width = x % r.slots * r.width + 2 * r.width := Nat.add_mul _ _ _
    rw [if_neg (by omega), hstep, Nat.succ_mul]
    omega

/-- One slot back: before the first one comes the last one. -/
theorem addr_back (x : ℕ) (wide : 0 < r.width) :
    (if r.addr (x + 1) < r.base + r.width then r.tail - r.width else r.addr (x + 1) - r.width) = r.addr x := by
  have hnext := addr_next r x wide
  have hx := addr_bounds r x
  rw [← hnext]
  split_ifs with hwrap
  · omega
  · omega
  · omega
  · omega

/-- Different positions less than a turn apart have slots apart. -/
theorem addr_apart {x y : ℕ} (hxy : x < y) (hy : y < x + r.slots) :
    r.addr x + r.width ≤ r.addr y ∨ r.addr y + r.width ≤ r.addr x := by
  have hne : x % r.slots ≠ y % r.slots := by
    intro h
    have hzero : (y - x) % r.slots = 0 := Nat.sub_mod_eq_zero_of_mod_eq h.symm
    rw [Nat.mod_eq_of_lt (by omega)] at hzero
    omega
  unfold SlotRing.addr
  rcases Nat.lt_or_gt_of_ne hne with h | h
  · have hmul : (x % r.slots + 1) * r.width ≤ y % r.slots * r.width := Nat.mul_le_mul_right _ h
    rw [Nat.succ_mul] at hmul
    omega
  · have hmul : (y % r.slots + 1) * r.width ≤ x % r.slots * r.width := Nat.mul_le_mul_right _ h
    rw [Nat.succ_mul] at hmul
    omega

end

section
variable {β : Type} {r : SlotRing} {mem : ℕ → β} {x n : ℕ} {src : ℕ → β}

/-- The `n` items from position `x` on. -/
def SlotRing.items (r : SlotRing) (mem : ℕ → β) (x n : ℕ) : List (List β) :=
  (List.range n).map fun i => load mem (r.addr (x + i)) r.width

theorem items_turn : r.items mem (x + r.slots) n = r.items mem x n := by
  unfold SlotRing.items
  congr 1
  funext i
  rw [show x + r.slots + i = x + i + r.slots by omega, addr_turn]

theorem items_cons : r.items mem x (n + 1) = load mem (r.addr x) r.width :: r.items mem (x + 1) n := by
  unfold SlotRing.items
  rw [List.range_succ_eq_map, List.map_cons, List.map_map, Nat.add_zero]
  congr 2
  funext i
  simp only [Function.comp_apply]
  rw [show x + (i + 1) = x + 1 + i by omega]

theorem items_snoc : r.items mem x (n + 1) = r.items mem x n ++ [load mem (r.addr (x + n)) r.width] := by
  unfold SlotRing.items
  rw [List.range_succ, List.map_append, List.map_singleton]

/-- A copy to a slot outside of the items leaves them alone. -/
theorem items_copied {y : ℕ} (hy : ∀ i < n, r.addr y + r.width ≤ r.addr (x + i) ∨
    r.addr (x + i) + r.width ≤ r.addr y) :
    r.items (copyTo mem (r.addr y) src r.width) x n = r.items mem x n := by
  apply List.map_congr_left
  intro i hi
  exact load_apart (hy i (List.mem_range.mp hi)).symm

theorem items_push (h : n < r.slots) :
    r.items (copyTo mem (r.addr (x + n)) src r.width) x (n + 1) =
      r.items mem x n ++ [load src 0 r.width] := by
  rw [items_snoc, load_copied, items_copied]
  intro i hi
  exact (addr_apart r (Nat.add_lt_add_left hi x) (by omega)).symm

theorem items_pushFront (h : n < r.slots) :
    r.items (copyTo mem (r.addr x) src r.width) x (n + 1) = load src 0 r.width :: r.items mem (x + 1) n := by
  rw [items_cons, load_copied, items_copied]
  intro i hi
  exact addr_apart r (by omega) (by omega)

end

end Stm32NetworkStack.SlotRings
