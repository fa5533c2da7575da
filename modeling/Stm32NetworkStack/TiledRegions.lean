import Mathlib.Data.List.Chain
import Mathlib.Tactic.SplitIfs
import Mathlib.Tactic.Tauto
import Mathlib.Algebra.BigOperators.Group.List.Basic
import Mathlib.Algebra.GroupWithZero.Nat

set_option autoImplicit false

/-!
# Regions tiled by blocks

A region of memory is cut into blocks without gaps. Each block starts with a
link and a size; the blocks that are not in use are linked in the order of
their addresses, from a pointer outside of the region to its end. What is read
to follow the links is little, so a change elsewhere leaves them alone.
-/
namespace Stm32NetworkStack.TiledRegions

structure Block where
  size : ℕ
  used : Bool
deriving DecidableEq

/-- The address behind some blocks. -/
def ends (a : ℕ) : List Block → ℕ
  | [] => a
  | b :: bs => ends (a + b.size) bs

def starts (a : ℕ) : List Block → List ℕ
  | [] => []
  | b :: bs => a :: starts (a + b.size) bs

/-- The last unused block, or the pointer `x` in front of the region. -/
def lastFree (x a : ℕ) : List Block → ℕ
  | [] => x
  | b :: bs => lastFree (if b.used then x else a) (a + b.size) bs

/-- The header of a block, `x` being the last unused one before it. -/
def Header (mark : ℕ) (next size : ℕ → ℕ) (x a : ℕ) (b : Block) : Prop :=
  if b.used then next a = 0 ∧ size a = b.size + mark else next x = a ∧ size a = b.size

/-- Headers of blocks one after the other, up to the link of the last unused one. -/
def Linked (mark : ℕ) (next size : ℕ → ℕ) (x a : ℕ) : List Block → Prop
  | [] => True
  | b :: bs => Header mark next size x a b ∧ Linked mark next size (if b.used then x else a) (a + b.size) bs

/-- The blocks of a region from `a` to `e`, with the last link pointing at its end. -/
def Tiled (mark : ℕ) (next size : ℕ → ℕ) (x a : ℕ) (bs : List Block) (e : ℕ) : Prop :=
  Linked mark next size x a bs ∧ ends a bs = e ∧ next (lastFree x a bs) = e

variable {mark : ℕ} {next size next' size' : ℕ → ℕ} {x y a e : ℕ} {b : Block} {bs cs : List Block}

def Positive (bs : List Block) : Prop := ∀ b ∈ bs, 0 < b.size

theorem ends_append (a : ℕ) (bs cs : List Block) : ends a (bs ++ cs) = ends (ends a bs) cs := by
  induction bs generalizing a with
  | nil => rfl
  | cons b bs ih => exact ih (a + b.size)

theorem lastFree_append (x a : ℕ) (bs cs : List Block) :
    lastFree x a (bs ++ cs) = lastFree (lastFree x a bs) (ends a bs) cs := by
  induction bs generalizing x a with
  | nil => rfl
  | cons b bs ih => exact ih _ (a + b.size)

theorem linked_append : Linked mark next size x a (bs ++ cs) ↔
    Linked mark next size x a bs ∧ Linked mark next size (lastFree x a bs) (ends a bs) cs := by
  induction bs generalizing x a with
  | nil => exact (iff_of_eq (true_and _)).symm
  | cons b bs ih =>
    change _ ∧ Linked mark next size _ _ (bs ++ cs) ↔ (_ ∧ _) ∧ _
    rw [ih, and_assoc]
    exact Iff.rfl

theorem tiled_append : Tiled mark next size x a (bs ++ cs) e ↔
    Linked mark next size x a bs ∧ Tiled mark next size (lastFree x a bs) (ends a bs) cs e := by
  unfold Tiled
  rw [linked_append, ends_append, lastFree_append, and_assoc]

theorem le_ends (a : ℕ) (bs : List Block) : a ≤ ends a bs := by
  induction bs generalizing a with
  | nil => exact Nat.le_refl a
  | cons b bs ih => exact Nat.le_trans (Nat.le_add_right a b.size) (ih (a + b.size))

/-- The blocks are where the region is, one behind the other. -/
theorem mem_starts (h : Positive bs) {c : ℕ} (hc : c ∈ starts a bs) : a ≤ c ∧ c < ends a bs := by
  induction bs generalizing a with
  | nil => cases hc
  | cons b bs ih =>
    have hb := h b List.mem_cons_self
    have hle := le_ends (a + b.size) bs
    change a ≤ c ∧ c < ends (a + b.size) bs
    rcases List.mem_cons.mp hc with rfl | hc
    · omega
    · have := ih (fun d hd => h d (List.mem_cons_of_mem b hd)) hc
      omega

theorem lastFree_mem (x a : ℕ) (bs : List Block) : lastFree x a bs = x ∨ lastFree x a bs ∈ starts a bs := by
  induction bs generalizing x a with
  | nil => exact Or.inl rfl
  | cons b bs ih =>
    change lastFree _ (a + b.size) bs = x ∨ lastFree _ (a + b.size) bs ∈ a :: starts (a + b.size) bs
    rcases ih (if b.used then x else a) (a + b.size) with h | h
    · rw [h]
      split_ifs
      · exact Or.inl rfl
      · exact Or.inr List.mem_cons_self
    · exact Or.inr (List.mem_cons_of_mem a h)

/-- Other links and sizes are not read; the pointer in front may be another one. -/
theorem Tiled.congr (h : Tiled mark next size x a bs e) (hx : next' y = next x)
    (hs : ∀ c ∈ starts a bs, next' c = next c ∧ size' c = size c) : Tiled mark next' size' y a bs e := by
  induction bs generalizing x y a with
  | nil => exact ⟨trivial, h.2.1, hx.trans h.2.2⟩
  | cons b bs ih =>
    obtain ⟨⟨hb, hl⟩, hends, hlast⟩ := h
    obtain ⟨hnext, hsize⟩ := hs a List.mem_cons_self
    have htail := fun c hc => hs c (List.mem_cons_of_mem a hc)
    have hrest : Tiled mark next' size' (if b.used then y else a) (a + b.size) bs e := by
      apply ih ⟨hl, hends, hlast⟩ _ htail
      split_ifs
      · exact hx
      · exact hnext
    refine ⟨⟨?_, hrest.1⟩, hrest.2⟩
    unfold Header at hb ⊢
    split_ifs at hb ⊢
    · exact ⟨hnext.trans hb.1, hsize.trans hb.2⟩
    · exact ⟨hx.trans hb.1, hsize.trans hb.2⟩

/-- The link of the last unused block is not read. -/
theorem Linked.congr (h : Linked mark next size x a bs) (hp : Positive bs) (hx : x ∉ starts a bs)
    (hn : ∀ c ∈ x :: starts a bs, c ≠ lastFree x a bs → next' c = next c)
    (hs : ∀ c ∈ starts a bs, size' c = size c) : Linked mark next' size' x a bs := by
  induction bs generalizing x a with
  | nil => trivial
  | cons b bs ih =>
    obtain ⟨n, used⟩ := b
    obtain ⟨hb, hl⟩ := h
    have hpos : 0 < n := hp ⟨n, used⟩ List.mem_cons_self
    have hp' : Positive bs := fun d hd => hp d (List.mem_cons_of_mem _ hd)
    have hafter : a ∉ starts (a + n) bs := by
      intro ha
      have := (mem_starts hp' ha).1
      omega
    have hxa : x ≠ a := fun heq => hx (heq ▸ List.mem_cons_self)
    have hx' : x ∉ starts (a + n) bs := fun h => hx (List.mem_cons_of_mem a h)
    have hsize := hs a List.mem_cons_self
    have htail : ∀ c ∈ starts (a + n) bs, size' c = size c := fun c hc => hs c (List.mem_cons_of_mem a hc)
    cases used with
    | true =>
      have ha : a ≠ lastFree x (a + n) bs := by
        intro heq
        rcases lastFree_mem x (a + n) bs with h | h
        · exact hxa (h.symm.trans heq.symm)
        · exact hafter (by rwa [← heq] at h)
      have hrest : Linked mark next' size' x (a + n) bs := by
        apply ih hl hp' hx' _ htail
        intro c hc
        apply hn c
        rcases List.mem_cons.mp hc with rfl | hc
        · exact List.mem_cons_self
        · exact List.mem_cons_of_mem x (List.mem_cons_of_mem a hc)
      have hlink := hn a (List.mem_cons_of_mem x List.mem_cons_self) ha
      exact ⟨⟨hlink.trans hb.1, hsize.trans hb.2⟩, hrest⟩
    | false =>
      have hne : x ≠ lastFree a (a + n) bs := by
        intro heq
        rcases lastFree_mem a (a + n) bs with h | h
        · exact hxa (heq.trans h)
        · exact hx' (by rwa [← heq] at h)
      have hrest : Linked mark next' size' a (a + n) bs :=
        ih hl hp' hafter (fun c hc => hn c (List.mem_cons_of_mem x hc)) htail
      exact ⟨⟨(hn x List.mem_cons_self hne).trans hb.1, hsize.trans hb.2⟩, hrest⟩

/-- A link goes on to a later block or to the end. -/
theorem Tiled.le_next (h : Tiled mark next size x a bs e) : a ≤ next x ∧ next x ≤ e := by
  induction bs generalizing x a with
  | nil =>
    obtain ⟨-, hends, hlast⟩ := h
    have hends : a = e := hends
    have hlast : next x = e := hlast
    omega
  | cons b bs ih =>
    obtain ⟨n, used⟩ := b
    have hle := le_ends (a + n) bs
    have hends : ends (a + n) bs = e := h.2.1
    cases used with
    | true =>
      have := ih (x := x) (a := a + n) ⟨h.1.2, h.2⟩
      omega
    | false =>
      have hlink : next x = a := h.1.1.1
      omega

/-- No two blocks one behind the other are unused. -/
def Coalesced (bs : List Block) : Prop := bs.IsChain fun b c => b.used = true ∨ c.used = true

theorem coalesced_used {n : ℕ} : Coalesced (bs ++ ⟨n, true⟩ :: cs) ↔ Coalesced bs ∧ Coalesced cs := by
  unfold Coalesced
  rw [List.isChain_append, List.isChain_cons]
  simp

theorem coalesced_free {n : ℕ} : Coalesced (bs ++ ⟨n, false⟩ :: cs) ↔
    (Coalesced bs ∧ ∀ b ∈ bs.getLast?, b.used = true) ∧ Coalesced cs ∧ ∀ b ∈ cs.head?, b.used = true := by
  unfold Coalesced
  rw [List.isChain_append, List.isChain_cons]
  simp only [List.head?_cons, Option.mem_some_iff, forall_eq', Bool.false_eq_true, false_or, or_false]
  tauto

/-- The blocks in use, with their sizes. -/
def inUse (a : ℕ) : List Block → List (ℕ × ℕ)
  | [] => []
  | b :: bs => if b.used then (a, b.size) :: inUse (a + b.size) bs else inUse (a + b.size) bs

theorem inUse_append (a : ℕ) (bs cs : List Block) : inUse a (bs ++ cs) = inUse a bs ++ inUse (ends a bs) cs := by
  induction bs generalizing a with
  | nil => rfl
  | cons b bs ih =>
    obtain ⟨n, used⟩ := b
    cases used with
    | true => exact congrArg ((a, n) :: ·) (ih (a + n))
    | false => exact ih (a + n)

theorem inUse_used (a n : ℕ) (bs cs : List Block) :
    inUse a (bs ++ ⟨n, true⟩ :: cs) = inUse a bs ++ (ends a bs, n) :: inUse (ends a bs + n) cs :=
  inUse_append a bs (⟨n, true⟩ :: cs)

theorem inUse_unused (a n : ℕ) (bs cs : List Block) :
    inUse a (bs ++ ⟨n, false⟩ :: cs) = inUse a bs ++ inUse (ends a bs + n) cs :=
  inUse_append a bs (⟨n, false⟩ :: cs)

theorem inUse_bounds {p : ℕ × ℕ} (hp : p ∈ inUse a bs) : a ≤ p.1 ∧ p.1 + p.2 ≤ ends a bs := by
  induction bs generalizing a with
  | nil => cases hp
  | cons b bs ih =>
    have hle := le_ends (a + b.size) bs
    unfold inUse at hp
    change a ≤ p.1 ∧ p.1 + p.2 ≤ ends (a + b.size) bs
    split_ifs at hp
    · rcases List.mem_cons.mp hp with rfl | hp
      · exact ⟨Nat.le_refl a, hle⟩
      · have := ih hp
        omega
    · have := ih hp
      omega

/-- Blocks in use do not overlap. -/
theorem inUse_apart (a : ℕ) (bs : List Block) : (inUse a bs).Pairwise fun p q => p.1 + p.2 ≤ q.1 := by
  induction bs generalizing a with
  | nil => exact .nil
  | cons b bs ih =>
    unfold inUse
    split_ifs
    · refine List.pairwise_cons.mpr ⟨fun q hq => ?_, ih _⟩
      exact (inUse_bounds hq).1
    · exact ih _

/-- Where the blocks in use leave a gap, one unused block spans it. -/
theorem gap_fits (hc : Coalesced bs) (hp : Positive bs) {l n : ℕ} (hl : a ≤ l) (hn : 0 < n)
    (hend : l + n ≤ ends a bs) (hgap : ∀ p ∈ inUse a bs, l + n ≤ p.1 ∨ p.1 + p.2 ≤ l) :
    ∃ b ∈ bs, b.used = false ∧ n ≤ b.size := by
  induction bs generalizing a with
  | nil =>
    have hend : l + n ≤ a := hend
    omega
  | cons b bs ih =>
    obtain ⟨k, used⟩ := b
    have htail : Coalesced bs := hc.tail
    have hp' : Positive bs := fun d hd => hp d (List.mem_cons_of_mem _ hd)
    have hend : l + n ≤ ends (a + k) bs := hend
    have hrest : ∀ p ∈ inUse (a + k) bs, l + n ≤ p.1 ∨ p.1 + p.2 ≤ l := by
      intro p hp
      apply hgap
      unfold inUse
      split_ifs
      · exact List.mem_cons_of_mem _ hp
      · exact hp
    by_cases hlater : a + k ≤ l
    · obtain ⟨b, hb, hfree⟩ := ih htail hp' hlater hend hrest
      exact ⟨b, List.mem_cons_of_mem _ hb, hfree⟩
    cases used with
    | true =>
      -- the gap would begin inside of a block in use
      have := hgap (a, k) List.mem_cons_self
      simp only at this
      omega
    | false =>
      refine ⟨⟨k, false⟩, List.mem_cons_self, rfl, ?_⟩
      change n ≤ k
      cases bs with
      | nil =>
        have hend : l + n ≤ a + k := hend
        omega
      | cons d ds =>
        have hused : d.used = true := by
          have := (List.isChain_cons_cons.mp hc).1
          simpa using this
        have := hrest (a + k, d.size) (by simp [inUse, hused])
        have hpos := hp' d List.mem_cons_self
        simp only at this
        omega

/-- An unused block is apart from all blocks in use. -/
theorem unused_apart {n : ℕ} {p : ℕ × ℕ} (hp : p ∈ inUse a (bs ++ ⟨n, false⟩ :: cs)) :
    ends a bs + n ≤ p.1 ∨ p.1 + p.2 ≤ ends a bs := by
  rw [inUse_unused] at hp
  rcases List.mem_append.mp hp with hp | hp
  · exact Or.inr (inUse_bounds hp).2
  · exact Or.inl (inUse_bounds hp).1

/-- Either no unused block is large enough, or there is a first one. -/
theorem first_fit (n : ℕ) (bs : List Block) : (∀ b ∈ bs, b.used = false → b.size < n) ∨
    ∃ pre k post, bs = pre ++ ⟨k, false⟩ :: post ∧ n ≤ k ∧ ∀ b ∈ pre, b.used = false → b.size < n := by
  induction bs with
  | nil => exact Or.inl fun b hb => absurd hb List.not_mem_nil
  | cons b bs ih =>
    by_cases hfit : b.used = false ∧ n ≤ b.size
    · exact Or.inr ⟨[], b.size, bs, by rw [← hfit.1]; rfl, hfit.2, fun d hd => absurd hd List.not_mem_nil⟩
    · have hsmall : b.used = false → b.size < n := fun hb => Nat.lt_of_not_le fun hle => hfit ⟨hb, hle⟩
      have hcons : ∀ {l : List Block}, (∀ d ∈ l, d.used = false → d.size < n) →
          ∀ d ∈ b :: l, d.used = false → d.size < n := by
        intro l hl d hd
        rcases List.mem_cons.mp hd with rfl | hd
        · exact hsmall
        · exact hl d hd
      rcases ih with hall | ⟨pre, k, post, rfl, hk, hpre⟩
      · exact Or.inl (hcons hall)
      · exact Or.inr ⟨b :: pre, k, post, rfl, hk, hcons hpre⟩

theorem starts_apart {c : ℕ} (hp : Positive bs) (hc : c ∈ starts a bs) {p : ℕ × ℕ} (hu : p ∈ inUse a bs) :
    c ≤ p.1 ∨ p.1 + p.2 ≤ c := by
  induction bs generalizing a with
  | nil => cases hc
  | cons b bs ih =>
    obtain ⟨n, used⟩ := b
    have hp' : Positive bs := fun d hd => hp d (List.mem_cons_of_mem _ hd)
    rcases List.mem_cons.mp hc with rfl | hc
    · exact Or.inl (inUse_bounds hu).1
    · have hlater := (mem_starts hp' hc).1
      cases used with
      | true =>
        rcases List.mem_cons.mp hu with rfl | hu
        · exact Or.inr hlater
        · exact ih hp' hc hu
      | false => exact ih hp' hc hu

/-- The last unused block is apart from the blocks in use. -/
theorem lastFree_apart (hp : Positive bs) (x : ℕ) {p : ℕ × ℕ} (hu : p ∈ inUse a bs) :
    lastFree x a bs = x ∨ lastFree x a bs < p.1 ∨ p.1 + p.2 ≤ lastFree x a bs := by
  induction bs generalizing x a with
  | nil => cases hu
  | cons b bs ih =>
    obtain ⟨n, used⟩ := b
    have hn : 0 < n := hp ⟨n, used⟩ List.mem_cons_self
    have hp' : Positive bs := fun d hd => hp d (List.mem_cons_of_mem _ hd)
    cases used with
    | true =>
      change lastFree x (a + n) bs = x ∨ _
      rcases List.mem_cons.mp hu with rfl | hu
      · rcases lastFree_mem x (a + n) bs with h | h
        · exact Or.inl h
        · exact Or.inr (Or.inr (mem_starts hp' h).1)
      · exact ih hp' x hu
    | false =>
      change p ∈ inUse (a + n) bs at hu
      have hbounds := inUse_bounds hu
      change lastFree a (a + n) bs = x ∨ lastFree a (a + n) bs < p.1 ∨ p.1 + p.2 ≤ lastFree a (a + n) bs
      rcases ih hp' a hu with h | h
      · rw [h]
        exact Or.inr (Or.inl (by omega))
      · exact Or.inr h

/-- The last unused block ends before what follows. -/
theorem Linked.lastFree_le (h : Linked mark next size x a bs) :
    lastFree x a bs = x ∨ lastFree x a bs + size (lastFree x a bs) ≤ ends a bs := by
  induction bs generalizing x a with
  | nil => exact Or.inl rfl
  | cons b bs ih =>
    obtain ⟨n, used⟩ := b
    cases used with
    | true => exact ih (x := x) (a := a + n) h.2
    | false =>
      have hsize : size a = n := h.1.2
      have hle := le_ends (a + n) bs
      change lastFree a (a + n) bs = x ∨
        lastFree a (a + n) bs + size (lastFree a (a + n) bs) ≤ ends (a + n) bs
      rcases ih (x := a) (a := a + n) h.2 with heq | hends
      · rw [heq, hsize]
        exact Or.inr hle
      · exact Or.inr hends

theorem length_le_ends (hp : Positive bs) (a : ℕ) : a + bs.length ≤ ends a bs := by
  induction bs generalizing a with
  | nil => exact Nat.le_refl a
  | cons b bs ih =>
    have hb := hp b List.mem_cons_self
    have := ih (fun d hd => hp d (List.mem_cons_of_mem b hd)) (a + b.size)
    change a + (bs.length + 1) ≤ ends (a + b.size) bs
    omega

/-- Sizes that are multiples of a number keep addresses so. -/
theorem starts_aligned {k : ℕ} (hk : ∀ b ∈ bs, b.size % k = 0) (ha : a % k = 0) :
    ends a bs % k = 0 ∧ ∀ c ∈ starts a bs, c % k = 0 := by
  induction bs generalizing a with
  | nil => exact ⟨ha, fun c hc => absurd hc List.not_mem_nil⟩
  | cons b bs ih =>
    have hb := hk b List.mem_cons_self
    have hsum : (a + b.size) % k = 0 := by rw [Nat.add_mod, ha, hb, Nat.add_zero, Nat.zero_mod]
    obtain ⟨hends, hstarts⟩ := ih (fun d hd => hk d (List.mem_cons_of_mem b hd)) hsum
    refine ⟨hends, fun c hc => ?_⟩
    rcases List.mem_cons.mp hc with rfl | hc
    · exact ha
    · exact hstarts c hc

def freeBytes : List Block → ℕ
  | [] => 0
  | b :: bs => (if b.used then 0 else b.size) + freeBytes bs

theorem freeBytes_append (bs cs : List Block) : freeBytes (bs ++ cs) = freeBytes bs + freeBytes cs := by
  induction bs with
  | nil => exact (Nat.zero_add _).symm
  | cons b bs ih =>
    change _ + freeBytes (bs ++ cs) = _ + freeBytes bs + _
    rw [ih, Nat.add_assoc]

theorem freeBytes_used (n : ℕ) (bs cs : List Block) :
    freeBytes (bs ++ ⟨n, true⟩ :: cs) = freeBytes bs + freeBytes cs := by
  have happend : freeBytes (bs ++ ⟨n, true⟩ :: cs) = freeBytes bs + (0 + freeBytes cs) := freeBytes_append _ _
  rw [happend, Nat.zero_add]

theorem freeBytes_unused (n : ℕ) (bs cs : List Block) :
    freeBytes (bs ++ ⟨n, false⟩ :: cs) = freeBytes bs + (n + freeBytes cs) :=
  freeBytes_append bs (⟨n, false⟩ :: cs)

/-- What is not free is in use. -/
theorem freeBytes_inUse (a : ℕ) (bs : List Block) :
    a + freeBytes bs + ((inUse a bs).map Prod.snd).sum = ends a bs := by
  induction bs generalizing a with
  | nil => rfl
  | cons b bs ih =>
    obtain ⟨n, used⟩ := b
    have hrest := ih (a + n)
    cases used with
    | true =>
      change a + (0 + freeBytes bs) + ((n :: (inUse (a + n) bs).map Prod.snd).sum) = ends (a + n) bs
      rw [List.sum_cons]
      omega
    | false =>
      change a + (n + freeBytes bs) + ((inUse (a + n) bs).map Prod.snd).sum = ends (a + n) bs
      omega

theorem le_freeBytes (hb : b ∈ bs) (hfree : b.used = false) : b.size ≤ freeBytes bs := by
  obtain ⟨pre, post, rfl⟩ := List.append_of_mem hb
  rw [freeBytes_append]
  change _ ≤ _ + ((if b.used then 0 else b.size) + freeBytes post)
  rw [hfree, if_neg Bool.false_ne_true]
  omega

/-- A block in use, in its place. -/
theorem inUse_split {p : ℕ × ℕ} (hp : p ∈ inUse a bs) :
    ∃ pre post, bs = pre ++ ⟨p.2, true⟩ :: post ∧ ends a pre = p.1 := by
  induction bs generalizing a with
  | nil => cases hp
  | cons b bs ih =>
    obtain ⟨n, used⟩ := b
    have hrest : p ∈ inUse (a + n) bs → ∃ pre post, (⟨n, used⟩ :: bs : List Block) = pre ++ ⟨p.2, true⟩ :: post ∧
        ends a pre = p.1 := by
      intro hp
      obtain ⟨pre, post, rfl, hends⟩ := ih hp
      exact ⟨⟨n, used⟩ :: pre, post, rfl, hends⟩
    cases used with
    | true =>
      rcases List.mem_cons.mp hp with rfl | hp
      · exact ⟨[], bs, rfl, rfl⟩
      · exact hrest hp
    | false => exact hrest hp

/-- The header of a block in use says its size. -/
theorem Tiled.inUse_size (h : Tiled mark next size x a bs e) {p : ℕ × ℕ} (hp : p ∈ inUse a bs) :
    size p.1 = p.2 + mark := by
  obtain ⟨pre, post, rfl, hends⟩ := inUse_split hp
  have hheader := (tiled_append.mp h).2.1.1
  rw [hends] at hheader
  exact hheader.2

end Stm32NetworkStack.TiledRegions
