import Mathlib.Order.Bounds.Basic
import Mathlib.Order.Defs.LinearOrder
import Stm32NetworkStack.HeapRuns

set_option autoImplicit false

/-!
# What callers may rely on

The first request sets the heap up. From then on the blocks are those of the
callers, and each operation they are allowed serves them: it comes to an end
with no failed assertion, and touches nothing else that is held.
-/
namespace Stm32NetworkStack.HeapSafety

open Heap4 HeapBlocks HeapRuns TiledRegions GuardedRuns

def Valid (c : Config) (s : Client) : Prop := Fresh s ∨ ∃ bs, Ready c s bs

/-- The heap as a request finds it when it looks for a block. -/
def started (c : Config) (s : Client) : Client :=
  if s.heap.pxEnd = 0 then { s with heap := prvHeapInit c s.heap } else s

/-- An operation goes well for all who hold memory. The low-water mark counts from the set up. -/
structure Served (c : Config) (s : Client) (op : HeapOp) (u : Client) : Prop where
  valid : Valid c u
  untouched : ∀ p ∈ s.owned, p ∈ u.owned → ∀ w, p.1 - 8 ≤ w → w < p.1 - 8 + heldSize s p.1 →
    (∀ value, op ≠ .write w value) → u.heap.mem w = s.heap.mem w
  started : s.heap.pxEnd ≠ 0 → u.heap.pxEnd ≠ 0
  least : u.heap.pxEnd ≠ 0 → u.heap.xMinimumEverFreeBytesRemaining =
    if s.heap.pxEnd = 0 then u.heap.xFreeBytesRemaining
    else min s.heap.xMinimumEverFreeBytesRemaining u.heap.xFreeBytesRemaining

variable {c : Config} {s u : Client} {bs : List Block}

theorem uxEndAddress_ne (c : Config) : uxEndAddress c ≠ 0 := by
  have hb := heap_bounds c
  have hpos := c.positive
  omega

theorem ready_started (h : Ready c s bs) : s.heap.pxEnd ≠ 0 := by
  rw [h.pxEnd]
  exact uxEndAddress_ne c

theorem started_cases (h : Valid c s) :
    s.heap.pxEnd = 0 ∧ s.owned = [] ∧ started c s = ⟨prvHeapInit c s.heap, s.owned⟩ ∨
      s.heap.pxEnd ≠ 0 ∧ started c s = s := by
  rcases h with ⟨hend, howned⟩ | ⟨bs, h⟩
  · exact Or.inl ⟨hend, howned, if_pos hend⟩
  · have hend := ready_started h
    exact Or.inr ⟨hend, if_neg hend⟩

theorem started_owned : (started c s).owned = s.owned := by
  unfold started
  split_ifs <;> rfl

theorem started_ready (h : Valid c s) : ∃ bs, Ready c (started c s) bs := by
  rcases started_cases h with ⟨-, howned, heq⟩ | ⟨hend, heq⟩
  · rw [heq, howned]
    exact ⟨_, prvHeapInit_ready c s.heap⟩
  · rw [heq]
    exact h.resolve_left fun hfresh => hend hfresh.1

theorem pvPortMalloc_started (n : ℕ) : pvPortMalloc c s.heap n = pvPortMalloc c (started c s).heap n := by
  unfold pvPortMalloc started
  by_cases hend : s.heap.pxEnd = 0
  · have hinit : (prvHeapInit c s.heap).pxEnd ≠ 0 := uxEndAddress_ne c
    simp only [if_pos hend, if_neg hinit]
  · simp only [if_neg hend]

theorem ready_free_le (h : Ready c s bs) :
    s.heap.xFreeBytesRemaining ≤ uxEndAddress c - uxStartAddress c := by
  have hsum := freeBytes_inUse (uxStartAddress c) bs
  rw [h.layout.tiled.2.1] at hsum
  have hfree := h.free
  omega

/-- What is kept of the blocks is kept of what callers hold. -/
theorem keeps_held {mem : Memory} {except : ℕ} (hk : Keeps c bs except s.heap.mem mem) (h : Ready c s bs)
    {p : ℕ × ℕ} (hp : p ∈ s.owned) (hne : p.1 - 8 ≠ except) {w : ℕ} (hw : p.1 - 8 ≤ w)
    (hw' : w < p.1 - 8 + heldSize s p.1) : mem w = s.heap.mem w :=
  hk _ (h.held hp).2.1 hne w hw hw'

theorem held_ne_zero (h : Ready c s bs) {p : ℕ × ℕ} (hp : p ∈ s.owned) : p.1 - 8 ≠ 0 := by
  have hinside := (h.sound.inside p hp).2.1
  have hb := heap_bounds c
  have hpos := c.positive
  omega

theorem served_self (h : Valid c s) (op : HeapOp) : Served c s op s := by
  refine ⟨h, fun p _ _ w _ _ _ => rfl, id, ?_⟩
  intro hend
  rw [if_neg hend]
  obtain ⟨bs, h⟩ := h.resolve_left fun hfresh => hend hfresh.1
  exact (Nat.min_eq_left h.least).symm

theorem malloc_served (h : Valid c s) (n : BitVec 32) :
    ∃ u, heapStep c s (.malloc n) = some u ∧ Served c s (.malloc n) u := by
  obtain ⟨bs, hready⟩ := started_ready h
  obtain ⟨pv, heap, heq, hcases⟩ := malloc_ready hready n.toNat n.isLt
  rw [← pvPortMalloc_started] at heq
  have hstep : heapStep c s (.malloc n) =
      some ⟨heap, if pv = 0 then s.owned else (pv, n.toNat) :: s.owned⟩ := by
    simp only [heapStep, heq, Option.map_some]
  rw [started_owned] at hcases
  refine ⟨_, hstep, ?_⟩
  rcases hcases with ⟨rfl, rfl, -⟩ | ⟨hpv, -, hmin, bs', hready', hkeeps⟩
  · rw [if_pos rfl]
    rcases started_cases h with ⟨hend, howned, hst⟩ | ⟨-, hst⟩
    · rw [hst] at hready ⊢
      refine ⟨Or.inr ⟨bs, hready⟩, ?_, fun hne => absurd hend hne, ?_⟩
      · intro p hp
        rw [howned] at hp
        cases hp
      · intro _
        rw [if_pos hend]
        rfl
    · rw [hst]
      exact served_self h _
  · rw [if_neg hpv]
    have hnew := ready_started hready'
    rcases started_cases h with ⟨hend, howned, hst⟩ | ⟨hend, hst⟩
    · refine ⟨Or.inr ⟨bs', hready'⟩, ?_, fun _ => hnew, ?_⟩
      · intro p hp
        rw [howned] at hp
        cases hp
      · intro _
        -- the mark starts from the whole heap
        have hwhole : (prvHeapInit c s.heap).xMinimumEverFreeBytesRemaining = uxEndAddress c - uxStartAddress c :=
          (prvHeapInit_ready c s.heap).free
        rw [hst] at hmin
        rw [if_pos hend, hmin]
        exact Nat.min_eq_right ((ready_free_le hready').trans_eq hwhole.symm)
    · rw [hst] at hready hmin hkeeps
      refine ⟨Or.inr ⟨bs', hready'⟩, ?_, fun _ => hnew, ?_⟩
      · intro p hp _ w hw hw' _
        exact keeps_held hkeeps hready hp (held_ne_zero hready hp) hw hw'
      · intro _
        rw [if_neg hend]
        exact hmin

theorem free_served (h : Valid c s) {pv : ℕ} (hpv : pv = 0 ∨ pv ∈ s.owned.map Prod.fst) :
    ∃ u, heapStep c s (.free pv) = some u ∧ Served c s (.free pv) u := by
  by_cases hzero : pv = 0
  · have howned : s.owned.filter (fun p => p.1 ≠ pv) = s.owned := by
      apply List.filter_eq_self.mpr
      intro p hp
      rcases h with ⟨-, hnone⟩ | ⟨bs, h⟩
      · rw [hnone] at hp
        cases hp
      · have := held_ne_zero h hp
        exact decide_eq_true (by omega)
    have hstep : heapStep c s (.free pv) = some s := by
      unfold heapStep vPortFree
      simp only
      rw [if_pos hzero, Option.map_some, howned]
    exact ⟨s, hstep, served_self h _⟩
  · obtain ⟨p, hp, rfl⟩ := List.mem_map.mp (hpv.resolve_left hzero)
    rcases h with ⟨-, howned⟩ | ⟨bs, h⟩
    · rw [howned] at hp
      cases hp
    · obtain ⟨heap, hfree, hmin, bs', hready, hkeeps⟩ := free_ready h hp
      have hstep : heapStep c s (.free p.1) = some ⟨heap, s.owned.filter fun q => q.1 ≠ p.1⟩ := by
        unfold heapStep
        simp only
        rw [hfree, Option.map_some]
      refine ⟨_, hstep, Or.inr ⟨bs', hready⟩, ?_, fun _ => ready_started hready, ?_⟩
      · intro q hq hq' w hw hw' _
        have hne : q.1 ≠ p.1 := of_decide_eq_true (List.mem_filter.mp hq').2
        have hle := (h.held hp).1
        have hle' := (h.held hq).1
        exact keeps_held hkeeps h hq (by omega) hw hw'
      · intro _
        rw [if_neg (ready_started h)]
        exact hmin

theorem write_served (h : Valid c s) {address value : ℕ} (ha : Allowed s (.write address value)) :
    ∃ u, heapStep c s (.write address value) = some u ∧ Served c s (.write address value) u := by
  obtain ⟨p, hp, hle, hlt⟩ := ha
  rcases h with ⟨-, howned⟩ | ⟨bs, h⟩
  · rw [howned] at hp
    cases hp
  · have hready := write_ready h hp hle hlt value
    refine ⟨_, rfl, Or.inr ⟨bs, hready⟩, ?_, id, ?_⟩
    · intro q _ _ w _ _ hne
      apply Function.update_of_ne
      rintro rfl
      exact hne value rfl
    · intro _
      rw [if_neg (ready_started h)]
      exact (Nat.min_eq_left h.least).symm

/-- Every step that is allowed. -/
theorem step_served (h : Valid c s) {op : HeapOp} (ha : Allowed s op) :
    ∃ u, heapStep c s op = some u ∧ Served c s op u := by
  cases op with
  | malloc n => exact malloc_served h n
  | free pv => exact free_served h ha
  | write address value => exact write_served h ha

/-- Room of a size in the heap, apart from all that is held. -/
def Gap (c : Config) (s : Client) (size : ℕ) : Prop :=
  ∃ l, uxStartAddress c ≤ l ∧ l + size ≤ uxEndAddress c ∧
    ∀ p ∈ s.owned, l + size ≤ p.1 - 8 ∨ p.1 - 8 + heldSize s p.1 ≤ l

/-- As free neighbours are merged, a free block spans any gap. -/
theorem gap_iff (h : Ready c s bs) {size : ℕ} (hsize : 0 < size) :
    Gap c s size ↔ ∃ b ∈ bs, b.used = false ∧ size ≤ b.size := by
  have hend := h.layout.tiled.2.1
  constructor
  · rintro ⟨l, hl, hle, hapart⟩
    apply gap_fits h.coalesced h.layout.positive hl hsize (hle.trans_eq hend.symm)
    intro q hq
    obtain ⟨n, hn⟩ := h.blocks q hq
    have hfree := hapart _ hn
    rw [h.heldSize_eq hq, Nat.add_sub_cancel] at hfree
    exact hfree
  · rintro ⟨b, hb, hfree, hle⟩
    obtain ⟨n, used⟩ := b
    obtain rfl : used = false := hfree
    obtain ⟨pre, post, rfl⟩ := List.append_of_mem hb
    have hstart := le_ends (uxStartAddress c) pre
    have hrest := le_ends (ends (uxStartAddress c) pre + n) post
    rw [ends_append] at hend
    change ends (ends (uxStartAddress c) pre + n) post = _ at hend
    change size ≤ n at hle
    refine ⟨ends (uxStartAddress c) pre, hstart, by omega, ?_⟩
    intro p hp
    have hapart := unused_apart (h.held hp).2.1
    simp only at hapart
    omega

theorem gap_started (h : Valid c s) (size : ℕ) : Gap c s size ↔ Gap c (started c s) size := by
  rcases started_cases h with ⟨-, howned, hst⟩ | ⟨-, hst⟩
  · rw [hst]
    unfold Gap
    simp only [howned, List.not_mem_nil, false_implies, implies_true]
  · rw [hst]

/-- The states a run has come through, and the one it is in. -/
def visited (tr : List (Client × HeapOp)) (u : Client) : List Client := tr.map Prod.fst ++ [u]

/-- The sizes of the free space since the heap was set up. -/
def freeSizes (vs : List Client) : Set ℕ :=
  {f | ∃ v ∈ vs, v.heap.pxEnd ≠ 0 ∧ f = v.heap.xFreeBytesRemaining}

section
variable {tr : List (Client × HeapOp)}

instance (s : Client) (op : HeapOp) : Decidable (Allowed s op) :=
  match op with
  | .malloc _ => isTrue trivial
  | .free pv => inferInstanceAs (Decidable (pv = 0 ∨ pv ∈ s.owned.map Prod.fst))
  | .write address _ => inferInstanceAs (Decidable (∃ p ∈ s.owned, p.1 ≤ address ∧ address < p.1 + p.2))

theorem run_valid (h : Run (fun s op u => heapStep c s op = some u) s tr u) (h0 : Fresh s)
    (hallowed : ∀ e ∈ tr, Allowed e.1 e.2) : Valid c u := by
  apply h.invariant hallowed (Or.inl h0)
  intro s op u hvalid ha hstep
  obtain ⟨v, hv, hserved⟩ := step_served hvalid ha
  rw [hstep] at hv
  exact Option.some.inj hv ▸ hserved.valid

/-- A heap of 184 bytes behind the alignment, and requests that leave it in pieces. -/
def smallHeap : Config :=
  ⟨0x20000004, 200, 0x20000400, by decide, by decide, by decide, by decide, by decide⟩

def unstarted : Client := ⟨⟨fun _ => 0, 0, 0, 0, 0, 0⟩, []⟩

def requests : List HeapOp :=
  [.malloc 10, .malloc 20, .free 0x20000010, .write 0x20000028 7, .malloc 30]

def inPieces : Client := (fireAll (heapStep smallHeap) requests unstarted).getD unstarted

theorem inPieces_run : Run (fun s op u => heapStep smallHeap s op = some u) unstarted
    (fireTrace (heapStep smallHeap) requests unstarted) inPieces := by
  have hsome : (fireAll (heapStep smallHeap) requests unstarted).isSome = true := by decide +kernel
  obtain ⟨u, hu⟩ := Option.isSome_iff_exists.mp hsome
  have heq : inPieces = u := by
    unfold inPieces
    rw [hu, Option.getD_some]
  rw [heq]
  exact fireAll_run (fun s op v hstep => hstep) hu

theorem requests_allowed : ∀ e ∈ fireTrace (heapStep smallHeap) requests unstarted, Allowed e.1 e.2 := by
  decide +kernel

/-- In any run, what is held is apart and as large as was asked for, no bytes are lost, and
the next step comes to an end and touches nothing that is held by others. -/
theorem heap_serves_callers (h : Run (fun s op u => heapStep c s op = some u) s tr u) (h0 : Fresh s)
    (hallowed : ∀ e ∈ tr, Allowed e.1 e.2) :
    Sound c u ∧ ∀ op, Allowed u op → ∃ v, heapStep c u op = some v ∧
      ∀ p ∈ u.owned, p ∈ v.owned → ∀ w, p.1 - 8 ≤ w → w < p.1 - 8 + heldSize u p.1 →
        (∀ value, op ≠ .write w value) → v.heap.mem w = u.heap.mem w := by
  have hvalid := run_valid h h0 hallowed
  constructor
  · rcases hvalid with ⟨hend, howned⟩ | ⟨bs, hready⟩
    · refine ⟨?_, ?_, fun hne => absurd hend hne⟩
      · intro p hp
        rw [howned] at hp
        cases hp
      · rw [howned]
        exact List.Pairwise.nil
    · exact hready.sound
  · intro op ha
    obtain ⟨v, hstep, hserved⟩ := step_served hvalid ha
    exact ⟨v, hstep, hserved.untouched⟩

theorem heap_serves_callers_pieces : Sound smallHeap inPieces :=
  (heap_serves_callers inPieces_run ⟨rfl, rfl⟩ requests_allowed).1

/-- A request fails only if there is no room for it between what is held. -/
theorem malloc_fails_iff_no_gap (h : Run (fun s op u => heapStep c s op = some u) s tr u) (h0 : Fresh s)
    (hallowed : ∀ e ∈ tr, Allowed e.1 e.2) (n : BitVec 32) :
    ∃ pv heap, pvPortMalloc c u.heap n.toNat = some (pv, heap) ∧
      (pv = 0 ↔ ¬ (0 < n.toNat ∧ Gap c u ((n.toNat + 15) / 8 * 8))) := by
  have hvalid := run_valid h h0 hallowed
  obtain ⟨bs, hready⟩ := started_ready hvalid
  obtain ⟨pv, heap, heq, hcases⟩ := malloc_ready hready n.toNat n.isLt
  rw [← pvPortMalloc_started] at heq
  have hgap : 0 < n.toNat → (Gap c u ((n.toNat + 15) / 8 * 8) ↔
      ∃ b ∈ bs, b.used = false ∧ (n.toNat + 15) / 8 * 8 ≤ b.size) :=
    fun hpos => (gap_started hvalid _).trans (gap_iff hready (by omega))
  refine ⟨pv, heap, heq, ?_⟩
  rw [and_congr_right_iff.mpr hgap]
  rcases hcases with ⟨hpv, -, hno⟩ | ⟨hpv, hyes, -⟩
  · exact iff_of_true hpv hno
  · exact iff_of_false hpv (not_not.mpr hyes)

/-- There are as many free bytes as are needed, but in two pieces. -/
theorem malloc_fails_iff_no_gap_pieces :
    inPieces.heap.xFreeBytesRemaining = 112 ∧ ¬ Gap smallHeap inPieces 112 := by
  obtain ⟨pv, heap, heq, hiff⟩ := malloc_fails_iff_no_gap inPieces_run ⟨rfl, rfl⟩ requests_allowed 100
  have hnull : (pvPortMalloc smallHeap inPieces.heap 100).map Prod.fst = some 0 := by decide +kernel
  have hpv : pv = 0 := by
    change pvPortMalloc smallHeap inPieces.heap 100 = _ at heq
    rw [heq] at hnull
    exact Option.some.inj hnull
  exact ⟨by decide +kernel, fun hgap => hiff.mp hpv ⟨by decide, hgap⟩⟩

theorem visited_snoc (op : HeapOp) (v : Client) : visited (tr ++ [(u, op)]) v = visited tr u ++ [v] := by
  unfold visited
  rw [List.map_append]
  rfl

theorem freeSizes_snoc {vs : List Client} {v : Client} (hend : v.heap.pxEnd ≠ 0) :
    freeSizes (vs ++ [v]) = insert v.heap.xFreeBytesRemaining (freeSizes vs) := by
  ext f
  simp only [freeSizes, Set.mem_ofPred_eq, Set.mem_insert_iff, List.mem_append, List.mem_singleton]
  constructor
  · rintro ⟨w, hw | rfl, hne, hf⟩
    · exact Or.inr ⟨w, hw, hne, hf⟩
    · exact Or.inl hf
  · rintro (hf | ⟨w, hw, hne, hf⟩)
    · exact ⟨v, Or.inr rfl, hend, hf⟩
    · exact ⟨w, Or.inl hw, hne, hf⟩

/-- Before the set up there is nothing to count; after it the mark follows each step. -/
theorem mark_run (h : Run (fun s op u => heapStep c s op = some u) s tr u) (h0 : Fresh s)
    (hallowed : ∀ e ∈ tr, Allowed e.1 e.2) :
    (u.heap.pxEnd = 0 → ∀ v ∈ visited tr u, v.heap.pxEnd = 0) ∧
      (u.heap.pxEnd ≠ 0 → IsLeast (freeSizes (visited tr u)) u.heap.xMinimumEverFreeBytesRemaining) := by
  induction h with
  | nil => exact ⟨fun hend v hv => List.mem_singleton.mp hv ▸ hend, fun hend => absurd h0.1 hend⟩
  | @snoc t u v op init last ih =>
    have hinit : ∀ e ∈ t, Allowed e.1 e.2 := fun e he => hallowed e (List.mem_append_left _ he)
    have hlast : Allowed u op := hallowed (u, op) (List.mem_append_right _ (List.mem_singleton.mpr rfl))
    obtain ⟨hbefore, hleast⟩ := ih hinit
    obtain ⟨w, hw, hserved⟩ := step_served (run_valid init h0 hinit) hlast
    obtain rfl := Option.some.inj (hw.symm.trans last)
    rw [visited_snoc]
    constructor
    · intro hend x hx
      rcases List.mem_append.mp hx with hx | hx
      · exact hbefore (not_not.mp fun hne => hserved.started hne hend) x hx
      · exact List.mem_singleton.mp hx ▸ hend
    · intro hend
      rw [hserved.least hend, freeSizes_snoc hend]
      split_ifs with hu
      · have hnone : freeSizes (visited t u) = ∅ := by
          apply Set.eq_empty_of_forall_notMem
          rintro f ⟨x, hx, hne, -⟩
          exact hne (hbefore hu x hx)
        rw [hnone, insert_empty_eq]
        exact isLeast_singleton
      · rw [Nat.min_comm]
        exact (hleast hu).insert _

/-- The low-water mark is the least free space there has been. -/
theorem minimum_ever_free (h : Run (fun s op u => heapStep c s op = some u) s tr u) (h0 : Fresh s)
    (hallowed : ∀ e ∈ tr, Allowed e.1 e.2) (hend : u.heap.pxEnd ≠ 0) :
    IsLeast (freeSizes (visited tr u)) u.heap.xMinimumEverFreeBytesRemaining :=
  (mark_run h h0 hallowed).2 hend

theorem minimum_ever_free_pieces :
    IsLeast (freeSizes (visited (fireTrace (heapStep smallHeap) requests unstarted) inPieces)) 112 := by
  have hmark : inPieces.heap.xMinimumEverFreeBytesRemaining = 112 := by decide +kernel
  have hleast := minimum_ever_free inPieces_run ⟨rfl, rfl⟩ requests_allowed (by decide +kernel)
  rw [hmark] at hleast
  exact hleast

end

end Stm32NetworkStack.HeapSafety
