import Mathlib.Data.Nat.Digits.Defs
import Mathlib.Data.Nat.ModEq
import Stm32NetworkStack.InternetChecksum

set_option autoImplicit false

/-!
# Numbers up to carries around the end

Two numbers are one ones' complement number when they are congruent modulo the
all-ones word and are zero together. Bringing carries back in does not change a
number in this sense, and two words that are one number are equal.
-/
namespace Stm32NetworkStack.OnesCongruence

open InternetChecksum

def OnesEq (top x y : ℕ) : Prop := x ≡ y [MOD top] ∧ (x = 0 ↔ y = 0)

section
variable {top x y z v w : ℕ}

theorem OnesEq.refl (x : ℕ) : OnesEq top x x := ⟨rfl, Iff.rfl⟩

theorem OnesEq.symm (h : OnesEq top x y) : OnesEq top y x := ⟨h.1.symm, h.2.symm⟩

theorem OnesEq.trans (h : OnesEq top x y) (h' : OnesEq top y z) : OnesEq top x z :=
  ⟨h.1.trans h'.1, h.2.trans h'.2⟩

theorem OnesEq.add (h : OnesEq top x y) (h' : OnesEq top v w) : OnesEq top (x + v) (y + w) := by
  refine ⟨h.1.add h'.1, ?_⟩
  rw [Nat.add_eq_zero_iff, Nat.add_eq_zero_iff, h.2, h'.2]

theorem OnesEq.mul (h : OnesEq top x y) (c : ℕ) : OnesEq top (c * x) (c * y) := by
  refine ⟨h.1.mul_left c, ?_⟩
  rw [Nat.mul_eq_zero, Nat.mul_eq_zero, h.2]

/-- Words that are one number are equal. -/
theorem OnesEq.eq (h : OnesEq top x y) (hx : x ≤ top) (hy : y ≤ top) : x = y := by
  obtain ⟨hmod, hzero⟩ := h
  rcases Nat.lt_or_eq_of_le hx with hx | rfl
  · rcases Nat.lt_or_eq_of_le hy with hy | rfl
    · rwa [Nat.ModEq, Nat.mod_eq_of_lt hx, Nat.mod_eq_of_lt hy] at hmod
    · rw [Nat.ModEq, Nat.mod_eq_of_lt hx, Nat.mod_self] at hmod
      omega
  · rcases Nat.lt_or_eq_of_le hy with hy | rfl
    · rw [Nat.ModEq, Nat.mod_self, Nat.mod_eq_of_lt hy] at hmod
      omega
    · rfl

/-- A carry counts as a one. -/
theorem onesEq_carry (x y : ℕ) : OnesEq top (x + (top + 1) * y) (x + y) := by
  constructor
  · have h : x + (top + 1) * y = x + y + top * y := by
      rw [Nat.add_mul, Nat.one_mul]
      omega
    rw [h]
    exact Nat.add_mul_mod_self_left _ _ _
  · rw [Nat.add_eq_zero_iff, Nat.add_eq_zero_iff, Nat.mul_eq_zero]
    omega

theorem onesEq_fold (u : ℕ) : OnesEq top (u / (top + 1) + u % (top + 1)) u := by
  have h : OnesEq top (u % (top + 1) + u / (top + 1)) (u % (top + 1) + (top + 1) * (u / (top + 1))) :=
    (onesEq_carry _ _).symm
  rw [Nat.mod_add_div, Nat.add_comm] at h
  exact h

theorem onesEq_onesAdd (a b : ℕ) : OnesEq top (onesAdd top a b) (a + b) :=
  ⟨onesAdd_mod a b, by rw [onesAdd_eq_zero, Nat.add_eq_zero_iff]⟩

theorem onesEq_onesSum {words : List ℕ} (hw : ∀ x ∈ words, x ≤ top) :
    onesSum top words ≤ top ∧ OnesEq top (onesSum top words) words.sum := by
  obtain ⟨hle, hmod, hzero⟩ := foldl_onesAdd words hw (Nat.zero_le top)
  rw [Nat.zero_add] at hmod hzero
  exact ⟨hle, hmod, hzero⟩

theorem OnesEq.multiple_iff (h : OnesEq top x y) : top ∣ x ∧ 0 < x ↔ top ∣ y ∧ 0 < y := by
  rw [h.1.dvd_iff (dvd_refl top), Nat.pos_iff_ne_zero, Nat.pos_iff_ne_zero, Ne, h.2]

/-- A word and its complement make all ones. -/
theorem OnesEq.complement (h : OnesEq top x y) (hx : x ≤ top) (ht : 0 < top) :
    top ∣ y + (top - x) ∧ 0 < y + (top - x) := by
  have hsum : OnesEq top (x + (top - x)) (y + (top - x)) := h.add (.refl _)
  rw [Nat.add_sub_cancel' hx] at hsum
  exact hsum.multiple_iff.mp ⟨dvd_refl top, ht⟩

theorem OnesEq.complement_eq_zero (h : OnesEq top x y) (hx : x ≤ top) (ht : 0 < top) :
    top - x = 0 ↔ top ∣ y ∧ 0 < y := by
  rw [← h.multiple_iff]
  constructor
  · intro hzero
    have heq : x = top := by omega
    rw [heq]
    exact ⟨dvd_refl top, ht⟩
  · rintro ⟨hdvd, hpos⟩
    have := Nat.le_of_dvd hpos hdvd
    omega

end

/-- The number whose bytes these are, the least significant byte first. -/
def value (bytes : List (BitVec 8)) : ℕ := Nat.ofDigits 256 (bytes.map BitVec.toNat)

@[simp] theorem value_nil : value [] = 0 := rfl

@[simp] theorem value_cons (b : BitVec 8) (bytes : List (BitVec 8)) :
    value (b :: bytes) = b.toNat + 256 * value bytes := Nat.ofDigits_cons

theorem value_append (a b : List (BitVec 8)) : value (a ++ b) = value a + 256 ^ a.length * value b := by
  unfold value
  rw [List.map_append, Nat.ofDigits_append, List.length_map]

/-- Two bytes further on, a byte counts the same. -/
theorem onesEq_two_bytes (x y : ℕ) : OnesEq 0xFFFF (x + 256 * (256 * y)) (x + y) := by
  rw [← Nat.mul_assoc]
  exact onesEq_carry x y

theorem onesEq_bytes (n x : ℕ) : OnesEq 0xFFFF (256 ^ n * (256 ^ n * x)) x := by
  induction n generalizing x with
  | zero => simpa using OnesEq.refl x
  | succ n ih =>
    have h : 256 ^ (n + 1) * (256 ^ (n + 1) * x) = 0 + 256 * (256 * (256 ^ n * (256 ^ n * x))) := by
      rw [Nat.pow_succ]
      ring
    rw [h]
    have htwo := onesEq_two_bytes 0 (256 ^ n * (256 ^ n * x))
    rw [Nat.zero_add (256 ^ n * _)] at htwo
    exact htwo.trans (ih x)

theorem onesEq_even {n : ℕ} (h : n % 2 = 0) (x : ℕ) : OnesEq 0xFFFF (256 ^ n * x) x := by
  have hn : n = n / 2 + n / 2 := by omega
  rw [hn, Nat.pow_add, Nat.mul_assoc]
  exact onesEq_bytes (n / 2) x

theorem onesEq_odd {n : ℕ} (h : n % 2 = 1) (x : ℕ) : OnesEq 0xFFFF (256 ^ n * x) (256 * x) := by
  have hn : n = n - 1 + 1 := by omega
  rw [hn, Nat.pow_succ, Nat.mul_assoc]
  exact onesEq_even (by omega) (256 * x)

/-- A part of a message with the bytes before it counts the same one way and the other. -/
theorem onesEq_append (a b : List (BitVec 8)) (x : ℕ) :
    OnesEq 0xFFFF (256 ^ b.length * (256 ^ a.length * (x + value a) + value b))
      (256 ^ (a ++ b).length * (x + value (a ++ b))) := by
  have h : OnesEq 0xFFFF (256 ^ a.length * (x + value a) + value b)
      (256 ^ a.length * (x + value a) + 256 ^ a.length * (256 ^ a.length * value b)) :=
    OnesEq.add (.refl _) (onesEq_bytes a.length (value b)).symm
  have hval : 256 ^ b.length * (256 ^ a.length * (x + value a) + 256 ^ a.length * (256 ^ a.length * value b)) =
      256 ^ (a ++ b).length * (x + value (a ++ b)) := by
    rw [value_append, List.length_append, Nat.pow_add]
    ring
  rw [← hval]
  exact h.mul _

/-- Summed in network order, each byte counts as if it stood one further on. -/
theorem networkWords_sum (bytes : List (BitVec 8)) :
    OnesEq 0xFFFF (networkWords bytes).sum (256 * value bytes) := by
  fun_induction networkWords bytes with
  | case1 => exact .refl _
  | case2 hi =>
    rw [List.sum_singleton, value_cons, value_nil, Nat.mul_zero, Nat.add_zero]
    exact .refl _
  | case3 hi lo bytes ih =>
    have h : 256 * value (hi :: lo :: bytes) =
        256 * hi.toNat + 256 * (256 * (lo.toNat + 256 * value bytes)) := by
      rw [value_cons, value_cons, Nat.mul_add 256 hi.toNat]
    rw [h, List.sum_cons, Nat.add_assoc]
    exact (OnesEq.add (.refl _) (OnesEq.add (.refl _) ih)).trans (onesEq_two_bytes _ _).symm

theorem checksumValid_value (bytes : List (BitVec 8)) :
    ChecksumValid bytes ↔ 0xFFFF ∣ value bytes ∧ 0 < value bytes := by
  rw [checksumValid_iff, (networkWords_sum bytes).multiple_iff]
  have hone : OnesEq 0xFFFF (256 * (256 * value bytes)) (value bytes) := by
    simpa using onesEq_two_bytes 0 (value bytes)
  rw [← hone.multiple_iff]
  constructor
  · exact fun h => ⟨h.1.mul_left 256, by omega⟩
  · intro h
    exact ⟨(Nat.Coprime.dvd_mul_left (by decide)).mp h.1, by omega⟩

/-- A word as it stands in memory, low byte first. -/
def storeWord (x : ℕ) : List (BitVec 8) := [BitVec.ofNat 8 x, BitVec.ofNat 8 (x / 256)]

theorem value_storeWord {x : ℕ} (h : x ≤ 0xFFFF) : value (storeWord x) = x := by
  unfold storeWord
  rw [value_cons, value_cons, value_nil, BitVec.toNat_ofNat, BitVec.toNat_ofNat]
  omega

/-- What an aligned word adds to a message. -/
theorem value_aligned {front : List (BitVec 8)} (hf : front.length % 2 = 0) {x : ℕ} (hx : x ≤ 0xFFFF)
    (back : List (BitVec 8)) :
    OnesEq 0xFFFF (value (front ++ (storeWord x ++ back))) (value (front ++ back) + x) := by
  have hback : OnesEq 0xFFFF (value (storeWord x ++ back)) (x + value back) := by
    rw [value_append, value_storeWord hx]
    exact OnesEq.add (.refl x) (onesEq_even (n := 2) rfl _)
  have hval : value (front ++ back) + x = value front + 256 ^ front.length * value back + x := by
    rw [value_append]
  rw [value_append, hval, Nat.add_assoc, Nat.add_comm _ x]
  exact OnesEq.add (.refl _) ((onesEq_even hf _).trans
    (hback.trans (OnesEq.add (.refl x) (onesEq_even hf _).symm)))

/-- The complement of the sum of a message whose checksum is zero makes the message valid. -/
theorem checksumValid_filled {front back : List (BitVec 8)} (hf : front.length % 2 = 0) {x : ℕ} (hx : x ≤ 0xFFFF)
    (h : OnesEq 0xFFFF x (value (front ++ (storeWord 0 ++ back)))) :
    ChecksumValid (front ++ (storeWord (0xFFFF - x) ++ back)) := by
  have hzero := h.trans (value_aligned hf (Nat.zero_le _) back)
  have hsum := hzero.complement hx (by decide)
  rw [Nat.add_zero] at hsum
  rw [checksumValid_value, (value_aligned hf (Nat.sub_le _ _) back).multiple_iff]
  exact hsum

end Stm32NetworkStack.OnesCongruence
