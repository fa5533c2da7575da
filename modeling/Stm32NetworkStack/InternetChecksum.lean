import Mathlib.Algebra.BigOperators.Group.List.Basic
import Mathlib.Algebra.GroupWithZero.Nat

set_option autoImplicit false

/-!
# Ones' complement sums

Addition of words with the carry out of the top brought back in at the bottom,
for any all-ones word `top`. A sum is `top` exactly when the plain sum of the
words is a positive multiple of `top`, so the order of the words does not
matter and a change of one word can be judged by what it adds.
-/
namespace Stm32NetworkStack.InternetChecksum

def onesAdd (top a b : ℕ) : ℕ := if a + b ≤ top then a + b else a + b - top

def onesSum (top : ℕ) (words : List ℕ) : ℕ := words.foldl (onesAdd top) 0

section
variable {top : ℕ}

theorem onesAdd_le {a b : ℕ} (ha : a ≤ top) (hb : b ≤ top) : onesAdd top a b ≤ top := by
  unfold onesAdd
  split <;> omega

theorem onesAdd_mod (a b : ℕ) : onesAdd top a b % top = (a + b) % top := by
  unfold onesAdd
  split
  · rfl
  · exact (Nat.mod_eq_sub_mod (by omega)).symm

theorem onesAdd_eq_zero (a b : ℕ) : onesAdd top a b = 0 ↔ a = 0 ∧ b = 0 := by
  unfold onesAdd
  split <;> omega

/-- What the accumulator is after some words: bounded, congruent to the plain
sum, and zero only while all words were. -/
theorem foldl_onesAdd (words : List ℕ) (hw : ∀ x ∈ words, x ≤ top) {acc : ℕ} (ha : acc ≤ top) :
    words.foldl (onesAdd top) acc ≤ top ∧
      words.foldl (onesAdd top) acc % top = (acc + words.sum) % top ∧
      (words.foldl (onesAdd top) acc = 0 ↔ acc + words.sum = 0) := by
  induction words generalizing acc with
  | nil => simp [ha]
  | cons x words ih =>
    have hx : x ≤ top := hw x List.mem_cons_self
    obtain ⟨hle, hmod, hzero⟩ := ih (fun y hy => hw y (List.mem_cons_of_mem x hy)) (onesAdd_le ha hx)
    have hz : onesAdd top acc x = 0 ↔ acc = 0 ∧ x = 0 := onesAdd_eq_zero acc x
    rw [List.foldl_cons, List.sum_cons]
    refine ⟨hle, ?_, ?_⟩
    · rw [hmod, Nat.add_mod, onesAdd_mod, ← Nat.add_mod, Nat.add_assoc]
    · rw [hzero]
      omega

theorem onesSum_eq_top {words : List ℕ} (hw : ∀ x ∈ words, x ≤ top) (ht : 0 < top) :
    onesSum top words = top ↔ top ∣ words.sum ∧ 0 < words.sum := by
  obtain ⟨hle, hmod, hzero⟩ := foldl_onesAdd words hw (Nat.zero_le top)
  rw [Nat.zero_add] at hmod hzero
  change words.foldl (onesAdd top) 0 = top ↔ _
  constructor
  · intro h
    rw [h, Nat.mod_self] at hmod
    exact ⟨Nat.dvd_of_mod_eq_zero hmod.symm, by omega⟩
  · rintro ⟨hd, hpos⟩
    rw [Nat.mod_eq_zero_of_dvd hd] at hmod
    rcases Nat.lt_or_eq_of_le hle with hlt | heq
    · rw [Nat.mod_eq_of_lt hlt] at hmod
      omega
    · exact heq

theorem onesSum_perm {words words' : List ℕ} (hw : ∀ x ∈ words, x ≤ top) (ht : 0 < top)
    (h : words.Perm words') : onesSum top words = top ↔ onesSum top words' = top := by
  rw [onesSum_eq_top hw ht, onesSum_eq_top (fun x hx => hw x (h.mem_iff.mpr hx)) ht, h.sum_eq]

end

/-- The 16-bit words of a message in network order, an odd last byte padded with zero. -/
def networkWords : List (BitVec 8) → List ℕ
  | [] => []
  | [hi] => [256 * hi.toNat]
  | hi :: lo :: bytes => (256 * hi.toNat + lo.toNat) :: networkWords bytes

theorem networkWords_le (bytes : List (BitVec 8)) : ∀ x ∈ networkWords bytes, x ≤ 0xFFFF := by
  fun_induction networkWords bytes with
  | case1 => simp
  | case2 hi =>
    have := hi.isLt
    simp only [List.mem_singleton, forall_eq]
    omega
  | case3 hi lo bytes ih =>
    have := hi.isLt
    have := lo.isLt
    simp only [List.mem_cons, forall_eq_or_imp]
    exact ⟨by omega, ih⟩

theorem networkWords_append {front : List (BitVec 8)} (h : front.length % 2 = 0)
    (bytes : List (BitVec 8)) :
    networkWords (front ++ bytes) = networkWords front ++ networkWords bytes := by
  fun_induction networkWords front with
  | case1 => rfl
  | case2 hi => simp at h
  | case3 hi lo front ih =>
    simp only [List.cons_append, networkWords, List.cons.injEq, true_and]
    exact ih (by simp only [List.length_cons] at h; omega)

/-- The ones' complement sum of the message, its checksum field included, is all ones. -/
def ChecksumValid (bytes : List (BitVec 8)) : Prop := onesSum 0xFFFF (networkWords bytes) = 0xFFFF

instance (bytes : List (BitVec 8)) : Decidable (ChecksumValid bytes) :=
  inferInstanceAs (Decidable (_ = _))

theorem checksumValid_iff (bytes : List (BitVec 8)) :
    ChecksumValid bytes ↔ 0xFFFF ∣ (networkWords bytes).sum ∧ 0 < (networkWords bytes).sum :=
  onesSum_eq_top (networkWords_le bytes) (by decide)

/-- Two aligned parts of a message may change places. -/
theorem checksumValid_swap {front a b : List (BitVec 8)} (hf : front.length % 2 = 0)
    (ha : a.length % 2 = 0) (hb : b.length % 2 = 0) :
    ChecksumValid (front ++ (a ++ b)) ↔ ChecksumValid (front ++ (b ++ a)) := by
  refine onesSum_perm (networkWords_le _) (by decide) ?_
  rw [networkWords_append hf, networkWords_append hf, networkWords_append ha,
    networkWords_append hb]
  exact List.perm_append_comm.append_left _

end Stm32NetworkStack.InternetChecksum
