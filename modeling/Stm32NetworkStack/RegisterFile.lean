import Mathlib.Logic.Function.Basic
import Mathlib.Tactic.SplitIfs

set_option autoImplicit false

/-!
# Banked register files

A register is found by a bank and an index. Some indices are shared: there the
register is the same one in all banks.
-/
namespace Stm32NetworkStack.RegisterFile

structure Registers (β ι V : Type) where
  banked : β → ι → V
  shared : ι → V

section
variable {β ι V : Type} [DecidableEq β] [DecidableEq ι] (isShared : ι → Bool)

/-- The index `i` in the bank `b` and the index `j` in the bank `c` are one register. -/
def SameRegister (b : β) (i : ι) (c : β) (j : ι) : Prop := i = j ∧ (isShared i = true ∨ b = c)

def Registers.read (r : Registers β ι V) (b : β) (i : ι) : V :=
  if isShared i = true then r.shared i else r.banked b i

def Registers.write (r : Registers β ι V) (b : β) (i : ι) (v : V) : Registers β ι V :=
  if isShared i = true then { r with shared := Function.update r.shared i v }
  else { r with banked := Function.update r.banked b (Function.update (r.banked b) i v) }

variable {isShared} (r : Registers β ι V) {b c : β} {i j : ι} (v : V)

omit [DecidableEq β] [DecidableEq ι] in
theorem read_same (h : SameRegister isShared b i c j) : r.read isShared b i = r.read isShared c j := by
  obtain ⟨rfl, h⟩ := h
  rcases h with h | rfl
  · unfold Registers.read
    rw [if_pos h, if_pos h]
  · rfl

theorem read_write_same (h : SameRegister isShared b i c j) :
    (r.write isShared b i v).read isShared c j = v := by
  rw [← read_same _ h]
  unfold Registers.read Registers.write
  by_cases hi : isShared i = true
  · simp only [if_pos hi, Function.update_self]
  · simp only [if_neg hi, Function.update_self]

theorem read_write_other (h : ¬ SameRegister isShared b i c j) :
    (r.write isShared b i v).read isShared c j = r.read isShared c j := by
  unfold SameRegister at h
  unfold Registers.read Registers.write
  by_cases hj : isShared j = true
  · simp only [if_pos hj]
    split_ifs with hi
    · have hne : j ≠ i := fun e => h ⟨e.symm, Or.inl hi⟩
      exact Function.update_of_ne hne _ _
    · rfl
  · simp only [if_neg hj]
    split_ifs with hi
    · rfl
    · by_cases hb : c = b
      · subst hb
        have hne : j ≠ i := fun e => h ⟨e.symm, Or.inr rfl⟩
        simp only [Function.update_self, Function.update_of_ne hne]
      · simp only [Function.update_of_ne hb]

theorem shared_write (hi : isShared i = true) : (r.write isShared b i v).shared i = v := by
  unfold Registers.write
  rw [if_pos hi]
  exact Function.update_self i v r.shared

theorem shared_write_other (h : i ≠ j) : (r.write isShared b i v).shared j = r.shared j := by
  unfold Registers.write
  split_ifs
  · exact Function.update_of_ne h.symm _ _
  · rfl

theorem write_shared (hi : isShared i = true) (b c : β) : r.write isShared b i v = r.write isShared c i v := by
  unfold Registers.write
  rw [if_pos hi, if_pos hi]

omit [DecidableEq β] [DecidableEq ι] in
theorem read_shared (hi : isShared i = true) (b : β) : r.read isShared b i = r.shared i := by
  unfold Registers.read
  rw [if_pos hi]

end

end Stm32NetworkStack.RegisterFile
