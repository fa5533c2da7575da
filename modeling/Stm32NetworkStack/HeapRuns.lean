import Mathlib.Data.List.Nodup
import Stm32NetworkStack.GuardedRuns
import Stm32NetworkStack.HeapBlocks

set_option autoImplicit false

/-!
# Runs of the heap

Callers ask for memory, write to what they were given and give it back. Whatever
they do, no assertion of the allocator fails, what they hold does not overlap
and is not touched by others, and a request fails only if there is no gap
between what is held that is large enough.
-/
namespace Stm32NetworkStack.HeapRuns

open Heap4 HeapBlocks TiledRegions GuardedRuns

inductive HeapOp
  | malloc (xWantedSize : BitVec 32)
  | free (pv : ℕ)
  | write (address value : ℕ)

/-- The heap, and the pointers that callers hold with the sizes they asked for. -/
structure Client where
  heap : Heap
  owned : List (ℕ × ℕ)

def heapStep (c : Config) (s : Client) : HeapOp → Option Client
  | .malloc xWantedSize => (pvPortMalloc c s.heap xWantedSize.toNat).map fun x =>
    ⟨x.2, if x.1 = 0 then s.owned else (x.1, xWantedSize.toNat) :: s.owned⟩
  | .free pv => (vPortFree c s.heap pv).map fun heap => ⟨heap, s.owned.filter fun p => p.1 ≠ pv⟩
  | .write address value => some { s with heap := { s.heap with mem := Function.update s.heap.mem address value } }

/-- Callers give back what they hold, and write only there. -/
def Allowed (s : Client) : HeapOp → Prop
  | .malloc _ => True
  | .free pv => pv = 0 ∨ pv ∈ s.owned.map Prod.fst
  | .write address _ => ∃ p ∈ s.owned, p.1 ≤ address ∧ address < p.1 + p.2

/-- Before the first request. -/
def Fresh (s : Client) : Prop := s.heap.pxEnd = 0 ∧ s.owned = []

/-- The blocks of the heap are those that callers hold. -/
structure Ready (c : Config) (s : Client) (bs : List Block) : Prop where
  layout : Layout c s.heap.mem bs
  pxEnd : s.heap.pxEnd = uxEndAddress c
  coalesced : Coalesced bs
  free : s.heap.xFreeBytesRemaining = freeBytes bs
  least : s.heap.xMinimumEverFreeBytesRemaining ≤ s.heap.xFreeBytesRemaining
  owned : ∀ p ∈ s.owned, 8 ≤ p.1 ∧ ∃ k, (p.1 - 8, k) ∈ inUse (uxStartAddress c) bs ∧ p.2 + 8 ≤ k
  blocks : ∀ q ∈ inUse (uxStartAddress c) bs, ∃ n, (q.1 + 8, n) ∈ s.owned
  nodup : (s.owned.map Prod.fst).Nodup

variable {c : Config} {s : Client} {bs pre mid post : List Block} {mem mem' : Memory} {n w : ℕ}

theorem blockSizeFor_eq (h : n < 0x100000000) :
    blockSizeFor n = 0 ∧ (n = 0 ∨ 0x100000000 ≤ (n + 15) / 8 * 8) ∨
      0 < n ∧ blockSizeFor n = (n + 15) / 8 * 8 ∧ (n + 15) / 8 * 8 < 0x100000000 := by
  have hover : ∀ a b, heapAddWillOverflow a b = decide (a > 0xFFFFFFFF - b) := fun a b => rfl
  unfold blockSizeFor xHeapStructSize portByteAlignment
  simp only
  rw [and_mask, hover, hover]
  split_ifs with hpos hfirst hmask hsecond
  · rw [decide_eq_false_iff_not] at hfirst hsecond
    omega
  · rw [decide_eq_false_iff_not] at hfirst hsecond
    omega
  · rw [decide_eq_false_iff_not] at hfirst
    omega
  · rw [decide_eq_false_iff_not] at hfirst
    omega
  · omega

/-- What is held by others stays as it is. -/
theorem frame_inUse (h : Layout c mem (pre ++ (mid ++ post))) (hf : Frame c mem mem' pre mid) {q : ℕ × ℕ}
    (hq : q ∈ inUse (uxStartAddress c) pre ∨ q ∈ inUse (ends (uxStartAddress c) (pre ++ mid)) post)
    (hw : q.1 ≤ w) (hw' : w < q.1 + q.2) : mem' w = mem w := by
  have hp : Positive pre := fun b hb => h.positive b (List.mem_append_left _ hb)
  have hb := heap_bounds c
  have hapart := c.apart
  have hlast := lastFree_cases (c := c) hp fun b hb => (h.sizes b (List.mem_append_left _ hb)).1
  have hend := h.tiled.2.1
  rw [← List.append_assoc, ends_append] at hend
  have hle := le_ends (ends (uxStartAddress c) (pre ++ mid)) post
  have hmid := le_ends (ends (uxStartAddress c) pre) mid
  rw [← ends_append] at hmid
  rcases hq with hq | hq
  · have hbounds := inUse_bounds hq
    have := lastFree_apart hp c.xStart hq
    exact hf w (by omega) (by omega)
  · have hbounds := inUse_bounds hq
    have hge := le_ends (uxStartAddress c) pre
    exact hf w (by omega) (by omega)

theorem prvHeapInit_ready (c : Config) (s : Heap) :
    Ready c ⟨prvHeapInit c s, []⟩ [⟨uxEndAddress c - uxStartAddress c, false⟩] := by
  have hb := heap_bounds c
  have hapart := c.apart
  have hmem : (prvHeapInit c s).mem = setNext (setSize (setNext (setSize (setSize (setNext s.mem c.xStart
      (uxStartAddress c)) c.xStart 0) (uxEndAddress c) 0) (uxEndAddress c) 0) (uxStartAddress c)
      (uxEndAddress c - uxStartAddress c)) (uxStartAddress c) (uxEndAddress c) := rfl
  have hfirst : pxNextFreeBlock (prvHeapInit c s).mem (uxStartAddress c) = uxEndAddress c :=
    Function.update_self _ _ _
  have hsize : xBlockSize (prvHeapInit c s).mem (uxStartAddress c) = uxEndAddress c - uxStartAddress c := by
    rw [hmem]
    unfold setNext setSize xBlockSize
    rw [Function.update_of_ne (by omega), Function.update_self]
  have hstart : pxNextFreeBlock (prvHeapInit c s).mem c.xStart = uxStartAddress c := by
    rw [hmem]
    unfold setNext setSize pxNextFreeBlock
    rw [Function.update_of_ne (by omega), Function.update_of_ne (by omega), Function.update_of_ne (by omega),
      Function.update_of_ne (by omega), Function.update_of_ne (by omega), Function.update_self]
  have hstartsize : xBlockSize (prvHeapInit c s).mem c.xStart = 0 := by
    rw [hmem]
    unfold setNext setSize xBlockSize
    rw [Function.update_of_ne (by omega), Function.update_of_ne (by omega), Function.update_of_ne (by omega),
      Function.update_of_ne (by omega), Function.update_self]
  have hend : pxNextFreeBlock (prvHeapInit c s).mem (uxEndAddress c) = 0 := by
    rw [hmem]
    unfold setNext setSize pxNextFreeBlock
    rw [Function.update_of_ne (by omega), Function.update_of_ne (by omega), Function.update_self]
  have hendsize : xBlockSize (prvHeapInit c s).mem (uxEndAddress c) = 0 := by
    rw [hmem]
    unfold setNext setSize xBlockSize
    rw [Function.update_of_ne (by omega), Function.update_of_ne (by omega), Function.update_of_ne (by omega),
      Function.update_self]
  have hlayout : Layout c (prvHeapInit c s).mem [⟨uxEndAddress c - uxStartAddress c, false⟩] := by
    refine ⟨⟨⟨⟨hstart, hsize⟩, trivial⟩, ?_, hfirst⟩, ?_, hstartsize, hend, hendsize⟩
    · change uxStartAddress c + (uxEndAddress c - uxStartAddress c) = uxEndAddress c
      omega
    · intro b hb
      rw [List.mem_singleton.mp hb]
      change (uxEndAddress c - uxStartAddress c) % 8 = 0 ∧ 16 ≤ uxEndAddress c - uxStartAddress c
      omega
  exact ⟨hlayout, rfl, List.isChain_singleton _, hsize, Nat.le_refl _, fun p hp => absurd hp List.not_mem_nil,
    fun q hq => absurd hq List.not_mem_nil, List.nodup_nil⟩

/-- Nothing that is held changes, but for one block. -/
def Keeps (c : Config) (bs : List Block) (except : ℕ) (mem mem' : Memory) : Prop :=
  ∀ q ∈ inUse (uxStartAddress c) bs, q.1 ≠ except → ∀ w, q.1 ≤ w → w < q.1 + q.2 → mem' w = mem w

/-- A pointer is held once, and held blocks have different addresses. -/
theorem Ready.fresh_pointer (h : Ready c s bs) {a : ℕ} (ha : ∀ q ∈ inUse (uxStartAddress c) bs, q.1 ≠ a) :
    a + 8 ∉ s.owned.map Prod.fst := by
  intro hmem
  obtain ⟨p, hp, heq⟩ := List.mem_map.mp hmem
  obtain ⟨hle, k, hq, -⟩ := h.owned p hp
  exact ha _ hq (by simp only; omega)

theorem inUse_sizes (h : Layout c mem bs) {q : ℕ × ℕ} (hq : q ∈ inUse (uxStartAddress c) bs) :
    q.1 % 8 = 0 ∧ q.2 % 8 = 0 ∧ 16 ≤ q.2 ∧ uxStartAddress c ≤ q.1 ∧ q.1 + q.2 ≤ uxEndAddress c := by
  have hbounds := inUse_bounds hq
  rw [h.tiled.2.1] at hbounds
  obtain ⟨pre, post, rfl, hends⟩ := inUse_split hq
  have hsize := h.sizes ⟨q.2, true⟩ (List.mem_append_right _ List.mem_cons_self)
  exact ⟨hends ▸ h.blockAt.aligned, hsize.1, hsize.2, hbounds⟩

theorem Ready.free_lt (h : Ready c s bs) : s.heap.xFreeBytesRemaining < 0x80000000 := by
  have hsum := freeBytes_inUse (uxStartAddress c) bs
  rw [h.layout.tiled.2.1] at hsum
  have hfree := h.free
  have hb := heap_bounds c
  have hlt := c.size_lt
  omega

section
variable {m : ℕ} {rest : List Block}

theorem cut_inUse (hcut : Cut n m post rest) (a : ℕ) : inUse (a + m) rest = inUse (a + n) post := by
  rcases hcut with ⟨rfl, rfl⟩ | ⟨k, rfl, rfl⟩
  · rfl
  · rw [← Nat.add_assoc]
    rfl

theorem cut_bytes (hcut : Cut n m post rest) : freeBytes rest + m = n + freeBytes post := by
  rcases hcut with ⟨rfl, rfl⟩ | ⟨k, rfl, hk⟩
  · exact Nat.add_comm _ _
  · change k + freeBytes post + m = _
    omega

theorem cut_coalesced (hcut : Cut n m post rest) (hc : Coalesced (pre ++ (⟨n, false⟩ :: post))) :
    Coalesced (pre ++ (⟨m, true⟩ :: rest)) := by
  obtain ⟨⟨hpre, -⟩, hpost, hhead⟩ := coalesced_free.mp hc
  apply coalesced_used.mpr
  rcases hcut with ⟨rfl, -⟩ | ⟨k, rfl, -⟩
  · exact ⟨hpre, hpost⟩
  · exact ⟨hpre, List.isChain_cons.mpr ⟨fun b hb => Or.inr (hhead b hb), hpost⟩⟩

/-- A block is taken out of a free one. -/
theorem take_ready {s' : Client} (h : Ready c s (pre ++ (⟨n, false⟩ :: post)))
    (hlayout : Layout c s'.heap.mem (pre ++ (⟨m, true⟩ :: rest))) (hcut : Cut n m post rest)
    (hend : s'.heap.pxEnd = s.heap.pxEnd)
    (hfree : s'.heap.xFreeBytesRemaining = sizeSub s.heap.xFreeBytesRemaining m)
    (hleast : s'.heap.xMinimumEverFreeBytesRemaining ≤ s'.heap.xFreeBytesRemaining)
    (howned : s'.owned = (ends (uxStartAddress c) pre + 8, w) :: s.owned) (hw : w + 8 ≤ m) :
    Ready c s' (pre ++ (⟨m, true⟩ :: rest)) := by
  have hbytes := cut_bytes hcut
  have hmem : ∀ q, q ∈ inUse (uxStartAddress c) (pre ++ (⟨m, true⟩ :: rest)) ↔
      q = (ends (uxStartAddress c) pre, m) ∨ q ∈ inUse (uxStartAddress c) (pre ++ (⟨n, false⟩ :: post)) := by
    intro q
    rw [inUse_used, inUse_unused, cut_inUse hcut]
    simp only [List.mem_append, List.mem_cons]
    tauto
  have hpointer := h.fresh_pointer (a := ends (uxStartAddress c) pre) fun q hq => by
    have hsizes := inUse_sizes h.layout hq
    have hn := (h.layout.sizes ⟨n, false⟩ (List.mem_append_right _ List.mem_cons_self)).2
    have hapart := unused_apart hq
    simp only at hn
    omega
  refine ⟨hlayout, hend.trans h.pxEnd, cut_coalesced hcut h.coalesced, ?_, hleast, ?_, ?_, ?_⟩
  · have hf := h.free
    have hlt := h.free_lt
    rw [freeBytes_unused] at hf
    rw [hfree, freeBytes_used, sizeSub_eq (by omega) (by omega)]
    omega
  · intro p hp
    rw [howned] at hp
    rcases List.mem_cons.mp hp with rfl | hp
    · exact ⟨Nat.le_add_left _ _, m, (hmem _).mpr (Or.inl rfl), hw⟩
    · obtain ⟨hle, k, hk, hfit⟩ := h.owned p hp
      exact ⟨hle, k, (hmem _).mpr (Or.inr hk), hfit⟩
  · intro q hq
    rw [howned]
    rcases (hmem q).mp hq with rfl | hq
    · exact ⟨w, List.mem_cons_self⟩
    · obtain ⟨k, hk⟩ := h.blocks q hq
      exact ⟨k, List.mem_cons_of_mem _ hk⟩
  · rw [howned]
    exact List.nodup_cons.mpr ⟨hpointer, h.nodup⟩

end

/-- A request that is granted is granted from a free block; one that is not finds none. -/
theorem malloc_ready (h : Ready c s bs) (n : ℕ) (hn : n < 0x100000000) :
    ∃ pv heap, pvPortMalloc c s.heap n = some (pv, heap) ∧
      (pv = 0 ∧ heap = s.heap ∧ ¬ (0 < n ∧ ∃ b ∈ bs, b.used = false ∧ (n + 15) / 8 * 8 ≤ b.size) ∨
        pv ≠ 0 ∧ (0 < n ∧ ∃ b ∈ bs, b.used = false ∧ (n + 15) / 8 * 8 ≤ b.size) ∧
          heap.xMinimumEverFreeBytesRemaining =
            min s.heap.xMinimumEverFreeBytesRemaining heap.xFreeBytesRemaining ∧
          ∃ bs', Ready c ⟨heap, (pv, n) :: s.owned⟩ bs' ∧ Keeps c bs 0 s.heap.mem heap.mem) := by
  have hb := heap_bounds c
  have hlt := c.size_lt
  have hfits := c.fits
  have hinit : ¬ s.heap.pxEnd = 0 := by
    rw [h.pxEnd]
    omega
  have hsmall : ∀ b ∈ bs, b.used = false → b.size < 0x80000000 := by
    intro b hb hfree
    have := le_freeBytes hb hfree
    have := h.free
    have := h.free_lt
    omega
  unfold pvPortMalloc
  simp only
  rw [if_neg hinit]
  rcases blockSizeFor_eq hn with ⟨hzero, hcases⟩ | ⟨hpos, hsize, hsizelt⟩
  · refine ⟨0, s.heap, ?_, Or.inl ⟨rfl, rfl, ?_⟩⟩
    · rw [hzero]
      rfl
    · rintro ⟨hpos, b, hb, hfree, hle⟩
      have := hsmall b hb hfree
      omega
  rw [hsize]
  obtain ⟨need, hneed⟩ : ∃ need, need = (n + 15) / 8 * 8 := ⟨_, rfl⟩
  have hneed8 : need % 8 = 0 := by omega
  rw [← hneed] at hsizelt ⊢
  have hvalid : heapBlockSizeIsValid need = true ↔ need < 0x80000000 := sizeIsValid_iff hsizelt
  rcases first_fit need bs with hnone | ⟨pre, k, post, rfl, hk, hpre⟩
  · have hno : ¬ (0 < n ∧ ∃ b ∈ bs, b.used = false ∧ need ≤ b.size) := by
      rintro ⟨-, b, hb, hfree, hle⟩
      have := hnone b hb hfree
      omega
    refine ⟨0, s.heap, ?_, Or.inl ⟨rfl, rfl, hno⟩⟩
    split_ifs
    · rw [findBlock_end h.layout hnone, Option.bind_some, if_neg (not_not.mpr h.pxEnd.symm)]
    · rfl
    · rfl
  · have hmem : (⟨k, false⟩ : Block) ∈ pre ++ (⟨k, false⟩ :: post) := List.mem_append_right _ List.mem_cons_self
    have hklt : k < 0x80000000 := hsmall ⟨k, false⟩ hmem rfl
    have hkle : k ≤ freeBytes (pre ++ (⟨k, false⟩ :: post)) := le_freeBytes hmem rfl
    have hfree := h.free
    have hat := h.layout.blockAt
    have hleast := hat.least
    have hupper := hat.upper
    have hends := h.layout.tiled.2.1
    rw [ends_append] at hends
    have hle : ends (uxStartAddress c) pre + k ≤ uxEndAddress c := hends ▸ le_ends _ post
    obtain ⟨mem', m, rest, htake, hlayout, hframe, hm, hrest⟩ :=
      takeBlock_eq (s := s.heap) h.layout hk hneed8 (by omega)
    rw [hvalid.mpr (by omega), if_pos rfl, if_pos ⟨by omega, by omega⟩, findBlock_fit h.layout hk hpre,
      Option.bind_some, if_pos (by rw [h.pxEnd]; simp only; omega)]
    have hmin : ∀ f l : ℕ, (if f < l then f else l) = min l f := by
      intro f l
      split_ifs <;> omega
    refine ⟨_, _, htake, Or.inr ⟨by omega, ⟨hpos, ⟨k, false⟩, hmem, rfl, hk⟩, hmin _ _, _,
      take_ready h hlayout hrest rfl rfl ?_ rfl (by omega), ?_⟩⟩
    · exact (hmin _ _).symm ▸ Nat.min_le_right _ _
    · intro q hq _ w hw hw'
      have hmid : ends (uxStartAddress c) (pre ++ [⟨k, false⟩]) = ends (uxStartAddress c) pre + k := ends_append _ _ _
      rw [inUse_unused, List.mem_append, ← hmid] at hq
      have hcut : Layout c s.heap.mem (pre ++ ([⟨k, false⟩] ++ post)) := h.layout
      exact frame_inUse hcut hframe hq hw hw'

section
variable {pre' post' taken dropped : List Block} {k k' : ℕ}

/-- What is merged is not in use. -/
theorem merged_inUse (hm : Merged pre post pre' taken dropped post' k k') (a b : ℕ) :
    inUse a pre' = inUse a pre ∧ inUse (b + k') post' = inUse b post := by
  rw [hm.before, hm.after, inUse_append, inUse_append]
  constructor
  · rcases hm.taken with ⟨rfl, -, -⟩ | rfl
    · exact (List.append_nil _).symm
    · exact (List.append_nil _).symm
  · rcases hm.dropped with ⟨rfl, rfl, -⟩ | rfl
    · rfl
    · rfl

theorem merged_bytes (hm : Merged pre post pre' taken dropped post' k k') :
    freeBytes (pre' ++ (⟨k + n + k', false⟩ :: post')) = freeBytes (pre ++ (⟨n, true⟩ :: post)) + n := by
  have hpre : freeBytes pre = freeBytes pre' + k := by
    rw [hm.before, freeBytes_append]
    rcases hm.taken with ⟨rfl, rfl, -⟩ | rfl <;> rfl
  have hpost : freeBytes post = k' + freeBytes post' := by
    rw [hm.after, freeBytes_append]
    rcases hm.dropped with ⟨rfl, rfl, -⟩ | rfl <;> rfl
  rw [freeBytes_unused, freeBytes_used]
  omega

/-- The block that is given back is the only one that goes out of use. -/
theorem merged_mem (hm : Merged pre post pre' taken dropped post' k k')
    (h : Layout c mem (pre ++ (⟨n, true⟩ :: post))) (q : ℕ × ℕ) :
    q ∈ inUse (uxStartAddress c) (pre' ++ (⟨k + n + k', false⟩ :: post')) ↔
      q ∈ inUse (uxStartAddress c) (pre ++ (⟨n, true⟩ :: post)) ∧ q.1 ≠ ends (uxStartAddress c) pre := by
  have hsizes : q ∈ inUse (uxStartAddress c) (pre ++ (⟨n, true⟩ :: post)) → 16 ≤ q.2 :=
    fun hq => (inUse_sizes h hq).2.2.1
  have hleast := h.blockAt.least
  have hends := hm.ends (uxStartAddress c)
  obtain ⟨hin, hin'⟩ := merged_inUse hm (uxStartAddress c) (ends (uxStartAddress c) pre + n)
  have hplace : ends (uxStartAddress c) pre' + (k + n + k') = ends (uxStartAddress c) pre + n + k' := by omega
  rw [inUse_used] at hsizes ⊢
  rw [inUse_unused, hin, hplace, hin']
  simp only [List.mem_append, List.mem_cons] at hsizes ⊢
  constructor
  · rintro (hq | hq)
    · have hbounds := (inUse_bounds hq).2
      have hsize := hsizes (Or.inl hq)
      exact ⟨Or.inl hq, by omega⟩
    · have hbounds := (inUse_bounds hq).1
      exact ⟨Or.inr (Or.inr hq), by omega⟩
  · rintro ⟨hq | rfl | hq, hne⟩
    · exact Or.inl hq
    · exact absurd rfl hne
    · exact Or.inr hq

/-- After the merge no free block is next to another. -/
theorem merged_coalesced (hm : Merged pre post pre' taken dropped post' k k') (hpre : Coalesced pre)
    (hpost : Coalesced post) (m : ℕ) : Coalesced (pre' ++ (⟨m, false⟩ :: post')) := by
  apply coalesced_free.mpr
  constructor
  · rcases hm.taken with ⟨htaken, -, hlast⟩ | htaken
    · rw [hm.before, htaken, List.append_nil] at hpre hlast
      exact ⟨hpre, hlast⟩
    · rw [hm.before, htaken] at hpre
      exact (coalesced_free.mp hpre).1
  · rcases hm.dropped with ⟨hdropped, -, hhead⟩ | hdropped
    · rw [hm.after, hdropped, List.nil_append] at hpost hhead
      exact ⟨hpost, hhead⟩
    · rw [hm.after, hdropped] at hpost
      obtain ⟨hhead, hcs⟩ := List.isChain_cons.mp hpost
      exact ⟨hcs, fun b hb => (hhead b hb).resolve_left Bool.false_ne_true⟩

end

/-- A block that is given back is merged with its free neighbours. -/
theorem free_ready (h : Ready c s bs) {p : ℕ × ℕ} (hp : p ∈ s.owned) :
    ∃ heap, vPortFree c s.heap p.1 = some heap ∧
      heap.xMinimumEverFreeBytesRemaining =
        min s.heap.xMinimumEverFreeBytesRemaining heap.xFreeBytesRemaining ∧
      ∃ bs', Ready c ⟨heap, s.owned.filter fun q => q.1 ≠ p.1⟩ bs' ∧
        Keeps c bs (p.1 - 8) s.heap.mem heap.mem := by
  obtain ⟨hle, n, hn, -⟩ := h.owned p hp
  obtain ⟨pre, post, rfl, hat⟩ := inUse_split hn
  simp only at hat h
  obtain ⟨pre', taken, k, dropped, post', k', mem', hfree, hm, hlayout, hframe⟩ := vPortFree_eq h.layout h.pxEnd
  rw [hat, Nat.sub_add_cancel hle] at hfree
  obtain ⟨hpre, hpost⟩ := coalesced_used.mp h.coalesced
  have hmem := merged_mem hm h.layout
  rw [hat] at hmem
  have hbytes := merged_bytes (n := n) hm
  have hsum := freeBytes_inUse (uxStartAddress c) (pre' ++ (⟨k + n + k', false⟩ :: post'))
  rw [hlayout.tiled.2.1] at hsum
  have hbounds := heap_bounds c
  have hfits := c.fits
  have hf := h.free
  have hadd : sizeAdd s.heap.xFreeBytesRemaining n = s.heap.xFreeBytesRemaining + n := Nat.mod_eq_of_lt (by omega)
  have hleast := h.least
  refine ⟨_, hfree, ?_, _, ⟨hlayout, h.pxEnd, merged_coalesced hm hpre hpost _, ?_, ?_, ?_, ?_, ?_⟩, ?_⟩
  · change s.heap.xMinimumEverFreeBytesRemaining =
      min s.heap.xMinimumEverFreeBytesRemaining (sizeAdd s.heap.xFreeBytesRemaining n)
    omega
  · change sizeAdd s.heap.xFreeBytesRemaining n = _
    omega
  · change s.heap.xMinimumEverFreeBytesRemaining ≤ sizeAdd s.heap.xFreeBytesRemaining n
    omega
  · intro q hq
    obtain ⟨hq, hne⟩ := List.mem_filter.mp hq
    rw [decide_eq_true_eq] at hne
    obtain ⟨hqle, m, hm, hfit⟩ := h.owned q hq
    exact ⟨hqle, m, (hmem _).mpr ⟨hm, by simp only; omega⟩, hfit⟩
  · intro q hq
    obtain ⟨hq, hne⟩ := (hmem q).mp hq
    obtain ⟨m, hm⟩ := h.blocks q hq
    exact ⟨m, List.mem_filter.mpr ⟨hm, decide_eq_true (by simp only; omega)⟩⟩
  · exact (List.filter_sublist.map Prod.fst).nodup h.nodup
  · intro q hq hne w hw hw'
    rw [inUse_used, hat] at hq
    obtain ⟨hin, hin'⟩ := merged_inUse hm (uxStartAddress c) (p.1 - 8 + n)
    have hlayout' := h.layout
    rw [hm.blocks] at hlayout'
    apply frame_inUse hlayout' hframe _ hw hw'
    rw [hin, ends_append, hm.ends_mid, hat, hin']
    rcases List.mem_append.mp hq with hq | hq
    · exact Or.inl hq
    · rcases List.mem_cons.mp hq with rfl | hq
      · exact absurd rfl hne
      · exact Or.inr hq

/-- Writing to what is held is of no concern to the heap. -/
theorem write_ready (h : Ready c s bs) {p : ℕ × ℕ} (hp : p ∈ s.owned) {address : ℕ} (hle : p.1 ≤ address)
    (hlt : address < p.1 + p.2) (value : ℕ) :
    Ready c { s with heap := { s.heap with mem := Function.update s.heap.mem address value } } bs := by
  obtain ⟨h8, k, hk, hfit⟩ := h.owned p hp
  have hsizes := inUse_sizes h.layout hk
  simp only at hsizes
  have hb := heap_bounds c
  have hapart := c.apart
  have hother : ∀ q, q ≠ address → Function.update s.heap.mem address value q = s.heap.mem q :=
    fun q hq => Function.update_of_ne hq _ _
  refine ⟨⟨?_, h.layout.sizes, ?_, ?_, ?_⟩, h.pxEnd, h.coalesced, h.free, h.least, h.owned, h.blocks, h.nodup⟩
  · apply h.layout.tiled.congr
    · exact hother _ (by omega)
    · intro q hq
      have := starts_apart h.layout.positive hq hk
      simp only at this
      exact ⟨hother _ (by omega), hother _ (by omega)⟩
  · exact (hother (c.xStart + 4) (by omega)).trans h.layout.startSize
  · exact (hother (uxEndAddress c) (by omega)).trans h.layout.endNext
  · exact (hother (uxEndAddress c + 4) (by omega)).trans h.layout.endSize

/-- The size of the block behind a pointer, from its header. -/
def heldSize (s : Client) (pv : ℕ) : ℕ :=
  xBlockSize s.heap.mem (pv - xHeapStructSize) &&& (heapSizeMax - heapBlockAllocatedBitmask)

theorem Ready.heldSize_eq (h : Ready c s bs) {q : ℕ × ℕ} (hq : q ∈ inUse (uxStartAddress c) bs) :
    heldSize s (q.1 + 8) = q.2 := by
  have hsizes := inUse_sizes h.layout hq
  have hb := heap_bounds c
  have hlt := c.size_lt
  unfold heldSize xHeapStructSize
  rw [Nat.add_sub_cancel, h.layout.tiled.inUse_size hq]
  exact and_not_bitmask (by omega)

/-- What callers hold is in the heap, as large as they asked for, and apart; the rest is free. -/
structure Sound (c : Config) (s : Client) : Prop where
  inside : ∀ p ∈ s.owned, p.1 % 8 = 0 ∧ uxStartAddress c + 8 ≤ p.1 ∧ p.2 + 8 ≤ heldSize s p.1 ∧
    p.1 - 8 + heldSize s p.1 ≤ uxEndAddress c
  apart : s.owned.Pairwise fun p q =>
    p.1 - 8 + heldSize s p.1 ≤ q.1 - 8 ∨ q.1 - 8 + heldSize s q.1 ≤ p.1 - 8
  free : s.heap.pxEnd ≠ 0 → s.heap.xFreeBytesRemaining + (s.owned.map fun p => heldSize s p.1).sum =
    uxEndAddress c - uxStartAddress c

theorem Ready.held (h : Ready c s bs) {p : ℕ × ℕ} (hp : p ∈ s.owned) :
    8 ≤ p.1 ∧ (p.1 - 8, heldSize s p.1) ∈ inUse (uxStartAddress c) bs ∧
      p.2 + 8 ≤ heldSize s p.1 := by
  obtain ⟨hle, k, hk, hfit⟩ := h.owned p hp
  have heq := h.heldSize_eq hk
  rw [Nat.sub_add_cancel hle] at heq
  rw [heq]
  exact ⟨hle, hk, hfit⟩

theorem Ready.sound (h : Ready c s bs) : Sound c s := by
  have hpairwise : (s.owned.map fun p => (p.1 - 8, heldSize s p.1)).Nodup := by
    apply List.Nodup.of_map fun q => q.1 + 8
    rw [List.map_map]
    have hmap : s.owned.map ((fun q : ℕ × ℕ => q.1 + 8) ∘ fun p => (p.1 - 8, heldSize s p.1)) =
        s.owned.map Prod.fst := by
      apply List.map_congr_left
      intro p hp
      exact Nat.sub_add_cancel (h.held hp).1
    rw [hmap]
    exact h.nodup
  have hnodup : (inUse (uxStartAddress c) bs).Nodup := by
    apply (inUse_apart (uxStartAddress c) bs).imp_of_mem
    rintro q r hq _ hle rfl
    have := (inUse_sizes h.layout hq).2.2.1
    omega
  have hperm : (s.owned.map fun p => (p.1 - 8, heldSize s p.1)).Perm (inUse (uxStartAddress c) bs) := by
    apply (List.perm_ext_iff_of_nodup hpairwise hnodup).mpr
    intro q
    rw [List.mem_map]
    constructor
    · rintro ⟨p, hp, rfl⟩
      exact (h.held hp).2.1
    · intro hq
      obtain ⟨n, hn⟩ := h.blocks q hq
      exact ⟨_, hn, Prod.ext (Nat.add_sub_cancel _ _) (h.heldSize_eq hq)⟩
  refine ⟨?_, ?_, ?_⟩
  · intro p hp
    obtain ⟨hle, hq, hfit⟩ := h.held hp
    have hsizes := inUse_sizes h.layout hq
    simp only at hsizes
    omega
  · have hapart := (inUse_apart (uxStartAddress c) bs).imp (S := fun p q : ℕ × ℕ => p.1 + p.2 ≤ q.1 ∨ q.1 + q.2 ≤ p.1)
      fun hle => Or.inl hle
    have hsymm := hperm.symm.pairwise hapart fun hle => hle.symm
    exact List.pairwise_map.mp hsymm
  · intro _
    have hsum := freeBytes_inUse (uxStartAddress c) bs
    rw [h.layout.tiled.2.1, ← (hperm.map Prod.snd).sum_eq, List.map_map] at hsum
    have hf := h.free
    change s.heap.xFreeBytesRemaining + (s.owned.map (Prod.snd ∘ fun p => (p.1 - 8, heldSize s p.1))).sum = _
    omega

end Stm32NetworkStack.HeapRuns
