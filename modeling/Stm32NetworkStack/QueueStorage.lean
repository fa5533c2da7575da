import Stm32NetworkStack.BoundedQueues
import Stm32NetworkStack.Enc28Registers
import Stm32NetworkStack.OperationRuns
import Stm32NetworkStack.SlotRings

set_option autoImplicit false

/-!
# The storage of a FreeRTOS queue

What `queue.c` does to the pointers of a queue and to its storage area, for
calls that do not wait. Counts and pointers are words of 32 bits, `none` is NULL,
a `void *` argument is the memory it points to. The event lists are not looked
at here.
-/
namespace Stm32NetworkStack.QueueStorage
open Enc28Registers BoundedQueues OperationRuns SlotRings

structure QueueDefinition where
  pcHead : ℕ
  pcWriteTo : ℕ
  pcTail : ℕ
  pcReadFrom : ℕ
  uxMessagesWaiting : ℕ
  uxLength : ℕ
  uxItemSize : ℕ
  deriving DecidableEq

/-- A queue, and the memory that it lies in. -/
structure Storage where
  pxQueue : QueueDefinition
  mem : ℕ → Byte

def sizeMax : ℕ := 0xFFFFFFFF

def word (n : ℕ) : ℕ := n % (sizeMax + 1)

def wordSub (m n : ℕ) : ℕ := word (m + (sizeMax + 1) - n)

inductive CopyPosition
  | sendToBack
  | sendToFront
  | overwrite
  deriving DecidableEq

/-- `none` is a `configASSERT` that failed. The overflow check is the code's. -/
def xQueueGenericReset (s : Storage) : Option Storage :=
  let q := s.pxQueue
  if 1 ≤ q.uxLength ∧ q.uxItemSize ≤ sizeMax / q.uxLength then
    some ⟨{ q with
      pcTail := word (q.pcHead + q.uxLength * q.uxItemSize)
      uxMessagesWaiting := 0
      pcWriteTo := q.pcHead
      pcReadFrom := word (q.pcHead + (q.uxLength - 1) * q.uxItemSize) }, s.mem⟩
  else none

/-- A queue without items to copy takes its own address for its storage. -/
def prvInitialiseNewQueue (uxQueueLength uxItemSize : ℕ) (pucQueueStorage : Option ℕ) (pxNewQueue : ℕ)
    (mem : ℕ → Byte) : Option Storage :=
  let pcHead := if uxItemSize = 0 then pxNewQueue else pucQueueStorage.getD 0
  xQueueGenericReset ⟨⟨pcHead, 0, 0, 0, 0, uxQueueLength, uxItemSize⟩, mem⟩

def xQueueGenericCreateStatic (uxQueueLength uxItemSize : ℕ) (pucQueueStorage pxStaticQueue : Option ℕ)
    (mem : ℕ → Byte) : Option Storage :=
  match pxStaticQueue with
  | none => none
  | some pxNewQueue =>
    if 0 < uxQueueLength ∧ ¬(pucQueueStorage.isSome = true ∧ uxItemSize = 0) ∧
        ¬(pucQueueStorage.isNone = true ∧ uxItemSize ≠ 0) then
      prvInitialiseNewQueue uxQueueLength uxItemSize pucQueueStorage pxNewQueue mem
    else none

def prvCopyDataToQueue (s : Storage) (pvItemToQueue : ℕ → Byte) (xPosition : CopyPosition) : Storage :=
  let q := s.pxQueue
  if q.uxItemSize = 0 then ⟨{ q with uxMessagesWaiting := word (q.uxMessagesWaiting + 1) }, s.mem⟩
  else if xPosition = .sendToBack then
    let pcWriteTo := word (q.pcWriteTo + q.uxItemSize)
    ⟨{ q with
      pcWriteTo := if q.pcTail ≤ pcWriteTo then q.pcHead else pcWriteTo
      uxMessagesWaiting := word (q.uxMessagesWaiting + 1) },
      copyTo s.mem q.pcWriteTo pvItemToQueue q.uxItemSize⟩
  else
    let pcReadFrom := wordSub q.pcReadFrom q.uxItemSize
    let uxMessagesWaiting :=
      if xPosition = .overwrite ∧ 0 < q.uxMessagesWaiting then q.uxMessagesWaiting - 1
      else q.uxMessagesWaiting
    ⟨{ q with
      pcReadFrom := if pcReadFrom < q.pcHead then wordSub q.pcTail q.uxItemSize else pcReadFrom
      uxMessagesWaiting := word (uxMessagesWaiting + 1) },
      copyTo s.mem q.pcReadFrom pvItemToQueue q.uxItemSize⟩

/-- The queue with its read pointer moved on, and what was copied to `pvBuffer`. -/
def prvCopyDataFromQueue (s : Storage) : QueueDefinition × List Byte :=
  let q := s.pxQueue
  if q.uxItemSize = 0 then (q, [])
  else
    let pcReadFrom := word (q.pcReadFrom + q.uxItemSize)
    let pcReadFrom := if q.pcTail ≤ pcReadFrom then q.pcHead else pcReadFrom
    ({ q with pcReadFrom := pcReadFrom }, load s.mem pcReadFrom q.uxItemSize)

/-- With `xTicksToWait` 0; the status is pdPASS or errQUEUE_FULL. -/
def xQueueGenericSend (s : Storage) (pvItemToQueue : ℕ → Byte) (xCopyPosition : CopyPosition) :
    Option (Bool × Storage) :=
  if xCopyPosition = .overwrite ∧ s.pxQueue.uxLength ≠ 1 then none
  else if s.pxQueue.uxMessagesWaiting < s.pxQueue.uxLength ∨ xCopyPosition = .overwrite then
    some (true, prvCopyDataToQueue s pvItemToQueue xCopyPosition)
  else some (false, s)

/-- With `xTicksToWait` 0; `none` is errQUEUE_EMPTY. -/
def xQueueReceive (s : Storage) : Option (List Byte) × Storage :=
  if 0 < s.pxQueue.uxMessagesWaiting then
    let (q, item) := prvCopyDataFromQueue s
    (some item, ⟨{ q with uxMessagesWaiting := s.pxQueue.uxMessagesWaiting - 1 }, s.mem⟩)
  else (none, s)

def xQueuePeek (s : Storage) : Option (List Byte) × Storage :=
  if 0 < s.pxQueue.uxMessagesWaiting then
    let (q, item) := prvCopyDataFromQueue s
    (some item, ⟨{ q with pcReadFrom := s.pxQueue.pcReadFrom }, s.mem⟩)
  else (none, s)

def uxQueueMessagesWaiting (s : Storage) : ℕ := s.pxQueue.uxMessagesWaiting

def uxQueueSpacesAvailable (s : Storage) : ℕ := wordSub s.pxQueue.uxLength s.pxQueue.uxMessagesWaiting

inductive QueueOp (α : Type)
  | send (a : α) (xCopyPosition : CopyPosition)
  | receive
  | peek
  | messagesWaiting
  | spacesAvailable
  | reset
  deriving DecidableEq

inductive Reply
  | status (pass : Bool)
  | item (data : Option (List Byte))
  | number (n : ℕ)
  deriving DecidableEq

section
variable {α : Type} (encode : α → ℕ → Byte)

/-- A call on the queue; the items are values that `encode` lays out in memory. -/
def callQueue : QueueOp α → Storage → Option (Reply × Storage)
  | .send a pos, s => (xQueueGenericSend s (encode a) pos).map fun x => (.status x.1, x.2)
  | .receive, s => some (.item (xQueueReceive s).1, (xQueueReceive s).2)
  | .peek, s => some (.item (xQueuePeek s).1, (xQueuePeek s).2)
  | .messagesWaiting, s => some (.number (uxQueueMessagesWaiting s), s)
  | .spacesAvailable, s => some (.number (uxQueueSpacesAvailable s), s)
  | .reset, s => (xQueueGenericReset s).map fun x => (.status true, x)

/-- The same calls on a bounded queue of values. -/
def queueSpec {cap : ℕ} (width : ℕ) : QueueOp α → Queue cap α → Option (Reply × Queue cap α)
  | .send a .sendToBack, q => some (.status (q.send a).isSome, q.offer a)
  | .send a .sendToFront, q => some (.status (q.sendFront a).isSome, (q.sendFront a).getD q)
  | .send a .overwrite, _ => if h : cap = 1 then some (.status true, ⟨[a], Nat.le_of_eq h.symm⟩) else none
  | .receive, q =>
    some (.item (q.receive.map fun x => load (encode x.1) 0 width), (q.receive.map Prod.snd).getD q)
  | .peek, q => some (.item (q.items.head?.map fun a => load (encode a) 0 width), q)
  | .messagesWaiting, q => some (.number q.items.length, q)
  | .spacesAvailable, q => some (.number (cap - q.items.length), q)
  | .reset, _ => some (.status true, .empty)

/-- The items of `q` lie in the slots behind the read pointer, in order; outside of
the storage area the memory is `mem₀`. -/
structure Holds (r : SlotRing) (mem₀ : ℕ → Byte) (q : Queue r.slots α) (s : Storage) : Prop where
  pcHead : s.pxQueue.pcHead = r.base
  pcTail : s.pxQueue.pcTail = r.tail
  uxLength : s.pxQueue.uxLength = r.slots
  uxItemSize : s.pxQueue.uxItemSize = r.width
  uxMessagesWaiting : s.pxQueue.uxMessagesWaiting = q.items.length
  slots : ∃ x, s.pxQueue.pcReadFrom = r.addr x ∧ s.pxQueue.pcWriteTo = r.addr (x + 1 + q.items.length) ∧
    r.items s.mem (x + 1) q.items.length = q.items.map fun a => load (encode a) 0 r.width
  outside : ∀ a, a < r.base ∨ r.tail ≤ a → s.mem a = mem₀ a

/-- Where the linker puts a storage area: not at either end of the address space.
A semaphore has no storage area, but its count is a word too. -/
structure Placed (r : SlotRing) : Prop where
  low : r.width ≤ r.base
  high : r.tail ≤ sizeMax
  count : r.slots ≤ sizeMax

variable {encode} {r : SlotRing} {mem₀ : ℕ → Byte} {q : Queue r.slots α} {s : Storage}

theorem word_small {p : ℕ} (h : p ≤ sizeMax) : word p = p := Nat.mod_eq_of_lt (Nat.lt_succ_of_le h)

theorem count_up (placed : Placed r) {n : ℕ} (room : n < r.slots) : word (n + 1) = n + 1 :=
  word_small (Nat.le_trans room placed.count)

/-- The code's step to the next slot. -/
theorem ptr_next (placed : Placed r) (wide : r.width ≠ 0) (x : ℕ) :
    (if r.tail ≤ word (r.addr x + r.width) then r.base else word (r.addr x + r.width)) = r.addr (x + 1) := by
  have hx := addr_bounds r x
  rw [word_small (Nat.le_trans hx.2 placed.high)]
  exact addr_next r x (Nat.pos_of_ne_zero wide)

theorem wordSub_small {p n : ℕ} (hn : n ≤ p) (hp : p ≤ sizeMax) : wordSub p n = p - n := by
  unfold wordSub word
  rw [show p + (sizeMax + 1) - n = p - n + (sizeMax + 1) by omega, Nat.add_mod_right]
  exact Nat.mod_eq_of_lt (by omega)

/-- The code's step to the slot before. -/
theorem ptr_back (placed : Placed r) (wide : r.width ≠ 0) (x : ℕ) :
    (if wordSub (r.addr (x + 1)) r.width < r.base then wordSub r.tail r.width
      else wordSub (r.addr (x + 1)) r.width) = r.addr x := by
  have hx := addr_bounds r (x + 1)
  have hlow := placed.low
  have hhigh := placed.high
  rw [wordSub_small (by omega) (by omega), wordSub_small (by omega) hhigh, ← addr_back r x (Nat.pos_of_ne_zero wide)]
  split_ifs <;> omega

theorem reset_holds (placed : Placed r) (head : s.pxQueue.pcHead = r.base) (len : s.pxQueue.uxLength = r.slots)
    (size : s.pxQueue.uxItemSize = r.width) (outside : ∀ a, a < r.base ∨ r.tail ≤ a → s.mem a = mem₀ a) :
    ∃ u, xQueueGenericReset s = some u ∧ Holds encode r mem₀ .empty u := by
  have hhigh := placed.high
  have hpos := r.pos
  have hlast := addr_bounds r (r.slots - 1)
  have hread : r.base + (r.slots - 1) * r.width = r.addr (r.slots - 1) := by
    unfold SlotRing.addr
    rw [Nat.mod_eq_of_lt (by omega)]
  have hsize : r.width ≤ sizeMax / r.slots := by
    rw [Nat.le_div_iff_mul_le r.pos, Nat.mul_comm]
    exact Nat.le_trans (Nat.le_add_left _ _) hhigh
  have hfirst : r.base = r.addr (r.slots - 1 + 1 + 0) := by
    unfold SlotRing.addr
    rw [Nat.add_zero, Nat.sub_add_cancel r.pos, Nat.mod_self, Nat.zero_mul, Nat.add_zero]
  refine ⟨_, if_pos ⟨len.symm ▸ r.pos, by rw [len, size]; exact hsize⟩, head, ?_, len, size, rfl,
    ⟨r.slots - 1, ?_, head.trans hfirst, rfl⟩, outside⟩
  · rw [head, len, size]
    exact word_small hhigh
  · rw [head, len, size, hread]
    exact word_small (by omega)

/-- A copy to a slot does not touch what is outside of the storage area. -/
theorem outside_copied (outside : ∀ a, a < r.base ∨ r.tail ≤ a → s.mem a = mem₀ a) (x : ℕ) (src : ℕ → Byte) :
    ∀ a, a < r.base ∨ r.tail ≤ a → copyTo s.mem (r.addr x) src r.width a = mem₀ a := by
  intro a ha
  have hx := addr_bounds r x
  rw [copyTo_outside (by omega)]
  exact outside a ha

theorem load_nothing {β : Type} (mem : ℕ → β) (p : ℕ) : load mem p 0 = [] := rfl

theorem addr_narrow (narrow : r.width = 0) (x y : ℕ) : r.addr x = r.addr y := by
  unfold SlotRing.addr
  rw [narrow, Nat.mul_zero, Nat.mul_zero]

theorem send_back_holds (placed : Placed r) (h : Holds encode r mem₀ q s) (a : α)
    (room : q.items.length < r.slots) :
    Holds encode r mem₀ (q.offer a) (prvCopyDataToQueue s (encode a) .sendToBack) := by
  obtain ⟨hhead, htail, hlen, hsize, hwaiting, ⟨x, hread, hwrite, hitems⟩, houtside⟩ := h
  obtain ⟨hoffer, -⟩ := offer_room room a
  unfold prvCopyDataToQueue
  by_cases narrow : r.width = 0
  · rw [if_pos (hsize.trans narrow)]
    refine ⟨hhead, htail, hlen, hsize, ?_, ⟨x, hread, ?_, ?_⟩, houtside⟩
    · rw [hoffer, List.length_append, List.length_singleton, hwaiting]
      exact count_up placed room
    · rw [hwrite]
      exact addr_narrow narrow _ _
    · rw [hoffer, List.length_append, List.length_singleton, items_snoc, hitems, List.map_append,
        List.map_singleton, narrow, load_nothing, load_nothing]
  · rw [if_neg (by rwa [hsize]), if_pos rfl]
    refine ⟨hhead, htail, hlen, hsize, ?_, ⟨x, hread, ?_, ?_⟩, ?_⟩
    · rw [hoffer, List.length_append, List.length_singleton, hwaiting]
      exact count_up placed room
    · rw [hoffer, List.length_append, List.length_singleton]
      simp only [hwrite, hsize, htail, hhead]
      exact ptr_next placed narrow _
    · rw [hoffer, List.length_append, List.length_singleton]
      simp only [hwrite, hsize]
      rw [items_push room, hitems, List.map_append, List.map_singleton]
    · simp only [hwrite, hsize]
      exact outside_copied houtside _ _

/-- A copy to the front: the item goes into the slot of the read pointer, which steps back. -/
theorem copy_front (placed : Placed r) (h : Holds encode r mem₀ q s) (wide : r.width ≠ 0) {y : ℕ}
    (hread : s.pxQueue.pcReadFrom = r.addr (y + 1)) {pos : CopyPosition} (front : pos ≠ .sendToBack)
    (src : ℕ → Byte) : prvCopyDataToQueue s src pos =
      ⟨{ s.pxQueue with
        pcReadFrom := r.addr y
        uxMessagesWaiting := word ((if pos = .overwrite ∧ 0 < s.pxQueue.uxMessagesWaiting then
          s.pxQueue.uxMessagesWaiting - 1 else s.pxQueue.uxMessagesWaiting) + 1) },
        copyTo s.mem (r.addr (y + 1)) src r.width⟩ := by
  have hback := ptr_back placed wide y
  unfold prvCopyDataToQueue
  rw [if_neg (h.uxItemSize.symm ▸ wide), if_neg front]
  simp only [hread, h.uxItemSize, h.pcTail, h.pcHead, hback]

theorem send_front_holds (placed : Placed r) (h : Holds encode r mem₀ q s) {p : Queue r.slots α} {a : α}
    (sent : q.sendFront a = some p) :
    Holds encode r mem₀ p (prvCopyDataToQueue s (encode a) .sendToFront) := by
  obtain ⟨x, hread, hwrite, hitems⟩ := h.slots
  unfold Queue.sendFront at sent
  split_ifs at sent with room
  obtain rfl := Option.some.inj sent
  have hcount : word (s.pxQueue.uxMessagesWaiting + 1) = q.items.length + 1 := by
    rw [h.uxMessagesWaiting, count_up placed room]
  by_cases narrow : r.width = 0
  · unfold prvCopyDataToQueue
    rw [if_pos (h.uxItemSize.trans narrow)]
    refine ⟨h.pcHead, h.pcTail, h.uxLength, h.uxItemSize, hcount, ⟨x, hread, ?_, ?_⟩, h.outside⟩
    · rw [hwrite]
      exact addr_narrow narrow _ _
    · rw [List.length_cons, items_cons, List.map_cons, ← hitems, narrow, load_nothing, load_nothing]
      unfold SlotRing.items
      rw [narrow]
      rfl
  · -- the slot behind the new read pointer is the one it was at
    obtain ⟨y, hy⟩ : ∃ y, x + r.slots = y + 1 := ⟨x + r.slots - 1, by have := r.pos; omega⟩
    have hread' : s.pxQueue.pcReadFrom = r.addr (y + 1) := by rw [hread, ← hy, addr_turn]
    rw [copy_front placed h narrow hread' (by decide) (encode a), if_neg (by simp)]
    refine ⟨h.pcHead, h.pcTail, h.uxLength, h.uxItemSize, hcount, ⟨y, rfl, ?_, ?_⟩, outside_copied h.outside _ _⟩
    · rw [hwrite, List.length_cons, ← addr_turn]
      congr 1
      omega
    · rw [List.length_cons, items_pushFront room, List.map_cons, ← hitems, ← hy,
        show x + r.slots + 1 = x + 1 + r.slots by omega, items_turn]

/-- The only slot is filled again, whether it held an item or not. -/
theorem overwrite_holds (placed : Placed r) (h : Holds encode r mem₀ q s) (wide : r.width ≠ 0)
    (one : r.slots = 1) (a : α) {p : Queue r.slots α} (hp : p.items = [a]) :
    Holds encode r mem₀ p (prvCopyDataToQueue s (encode a) .overwrite) := by
  obtain ⟨x, hread, hwrite, -⟩ := h.slots
  have hsame : ∀ y z, r.addr y = r.addr z := by
    intro y z
    unfold SlotRing.addr
    rw [one, Nat.mod_one, Nat.mod_one]
  have hbound := q.bounded
  rw [copy_front placed h wide (hread.trans (hsame x (x + 1))) (by decide) (encode a)]
  refine ⟨h.pcHead, h.pcTail, h.uxLength, h.uxItemSize, ?_, ⟨x, rfl, hwrite.trans (hsame _ _), ?_⟩,
    outside_copied h.outside _ _⟩
  · rw [hp, List.length_singleton, h.uxMessagesWaiting]
    simp only [true_and]
    split_ifs with hfull
    · rw [Nat.sub_add_cancel hfull, word_small (Nat.le_trans hbound placed.count)]
      omega
    · rw [Nat.eq_zero_of_not_pos hfull]
      rfl
  · rw [hp, List.length_singleton]
    exact items_pushFront (n := 0) r.pos

/-- What a copy from the queue does to the read pointer, and what it copies. -/
theorem copy_from (placed : Placed r) (h : Holds encode r mem₀ q s) {a : α} {rest : List α}
    (hq : q.items = a :: rest) : ∃ x y, s.pxQueue.pcReadFrom = r.addr x ∧
      prvCopyDataFromQueue s = ({ s.pxQueue with pcReadFrom := r.addr y }, load (encode a) 0 r.width) ∧
      s.pxQueue.pcWriteTo = r.addr (y + 1 + rest.length) ∧
      r.items s.mem (y + 1) rest.length = rest.map fun a => load (encode a) 0 r.width := by
  obtain ⟨hhead, htail, hlen, hsize, hwaiting, ⟨x, hread, hwrite, hitems⟩, houtside⟩ := h
  rw [hq, List.length_cons, items_cons, List.map_cons] at hitems
  obtain ⟨hfirst, hrest⟩ := List.cons.inj hitems
  have hnext : r.addr (x + 1 + (rest.length + 1)) = r.addr (x + 1 + 1 + rest.length) :=
    congrArg r.addr (by omega)
  rw [hq, List.length_cons, hnext] at hwrite
  refine ⟨x, x + 1, hread, ?_, hwrite, hrest⟩
  unfold prvCopyDataFromQueue
  by_cases narrow : r.width = 0
  · rw [if_pos (hsize.trans narrow), narrow, load_nothing, ← addr_narrow narrow x (x + 1), ← hread]
  · rw [if_neg (by rwa [hsize])]
    simp only [hread, hsize, htail, hhead, ptr_next placed narrow x, hfirst]

theorem receive_agrees (placed : Placed r) (h : Holds encode r mem₀ q s) :
    Agree (Holds encode r mem₀) (queueSpec encode r.width .receive q) (callQueue encode .receive s) := by
  have hwaiting := h.uxMessagesWaiting
  cases hq : q.receive with
  | none =>
    have hempty : q.items.length = 0 := by rw [receive_none.mp hq, List.length_nil]
    have hs : xQueueReceive s = (none, s) := if_neg (by omega)
    simp only [queueSpec, callQueue, hq, hs, Option.map_none, Option.getD_none]
    exact agree_some h
  | some x =>
    obtain ⟨a, p⟩ := x
    have hitems := receive_some hq
    have hlen : q.items.length = p.items.length + 1 := by rw [hitems, List.length_cons]
    obtain ⟨-, y, -, hcopy, hwrite, hrest⟩ := copy_from placed h hitems
    have hs : xQueueReceive s = (some (load (encode a) 0 r.width),
        ⟨{ s.pxQueue with pcReadFrom := r.addr y, uxMessagesWaiting := p.items.length }, s.mem⟩) := by
      unfold xQueueReceive
      rw [if_pos (by omega), hcopy, hwaiting, hlen, Nat.add_sub_cancel]
    simp only [queueSpec, callQueue, hq, hs, Option.map_some, Option.getD_some]
    exact agree_some ⟨h.pcHead, h.pcTail, h.uxLength, h.uxItemSize, rfl, ⟨y, rfl, hwrite, hrest⟩, h.outside⟩

theorem peek_agrees (placed : Placed r) (h : Holds encode r mem₀ q s) :
    Agree (Holds encode r mem₀) (queueSpec encode r.width .peek q) (callQueue encode .peek s) := by
  have hwaiting := h.uxMessagesWaiting
  cases hq : q.items with
  | nil =>
    rw [hq, List.length_nil] at hwaiting
    have hs : xQueuePeek s = (none, s) := if_neg (by omega)
    simp only [queueSpec, callQueue, hq, hs, List.head?_nil, Option.map_none]
    exact agree_some h
  | cons a rest =>
    rw [hq, List.length_cons] at hwaiting
    obtain ⟨-, y, -, hcopy, -, -⟩ := copy_from placed h hq
    have hs : xQueuePeek s = (some (load (encode a) 0 r.width), s) := by
      unfold xQueuePeek
      rw [if_pos (by omega), hcopy]
    simp only [queueSpec, callQueue, hq, hs, List.head?_cons, Option.map_some]
    exact agree_some h

theorem send_agrees (placed : Placed r) (h : Holds encode r mem₀ q s) (a : α) (pos : CopyPosition)
    (wide : pos = .overwrite → r.width ≠ 0) :
    Agree (Holds encode r mem₀) (queueSpec encode r.width (.send a pos) q)
      (callQueue encode (.send a pos) s) := by
  have hwaiting := h.uxMessagesWaiting
  have hlen := h.uxLength
  have hbound := q.bounded
  cases pos with
  | sendToBack =>
    by_cases room : q.items.length < r.slots
    · have hs : xQueueGenericSend s (encode a) .sendToBack =
          some (true, prvCopyDataToQueue s (encode a) .sendToBack) := by
        unfold xQueueGenericSend
        rw [if_neg (by simp), if_pos (by omega)]
      have hq : (q.send a).isSome = true := by simp [Queue.send, room]
      simp only [queueSpec, callQueue, hs, hq, Option.map_some]
      exact agree_some (send_back_holds placed h a room)
    · have hs : xQueueGenericSend s (encode a) .sendToBack = some (false, s) := by
        unfold xQueueGenericSend
        rw [if_neg (by simp), if_neg (by simp; omega)]
      have hq : q.send a = none := send_none.mpr (by omega)
      simp only [queueSpec, callQueue, Queue.offer, hs, hq, Option.map_some, Option.getD_none]
      exact agree_some h
  | sendToFront =>
    by_cases room : q.items.length < r.slots
    · have hs : xQueueGenericSend s (encode a) .sendToFront =
          some (true, prvCopyDataToQueue s (encode a) .sendToFront) := by
        unfold xQueueGenericSend
        rw [if_neg (by simp), if_pos (by omega)]
      have hq : q.sendFront a = some ⟨a :: q.items, room⟩ := dif_pos room
      simp only [queueSpec, callQueue, hs, hq, Option.map_some, Option.getD_some]
      exact agree_some (send_front_holds placed h hq)
    · have hs : xQueueGenericSend s (encode a) .sendToFront = some (false, s) := by
        unfold xQueueGenericSend
        rw [if_neg (by simp), if_neg (by simp; omega)]
      have hq : q.sendFront a = none := dif_neg room
      simp only [queueSpec, callQueue, hs, hq, Option.map_some, Option.getD_none]
      exact agree_some h
  | overwrite =>
    by_cases one : r.slots = 1
    · have hs : xQueueGenericSend s (encode a) .overwrite =
          some (true, prvCopyDataToQueue s (encode a) .overwrite) := by
        unfold xQueueGenericSend
        rw [if_neg (by simp; omega), if_pos (Or.inr rfl)]
      simp only [queueSpec, callQueue, hs, Option.map_some]
      rw [dif_pos one]
      exact agree_some (overwrite_holds placed h (wide rfl) one a rfl)
    · have hs : xQueueGenericSend s (encode a) .overwrite = none := by
        unfold xQueueGenericSend
        rw [if_pos ⟨rfl, by omega⟩]
      simp only [queueSpec, callQueue, hs, Option.map_none]
      rw [dif_neg one]
      trivial

/-- A semaphore is not overwritten: its count would run past its length. -/
def Overwritable (width : ℕ) : QueueOp α → Prop
  | .send _ pos => pos = .overwrite → width ≠ 0
  | _ => True

theorem call_agrees (placed : Placed r) (op : QueueOp α) (hop : Overwritable r.width op)
    (h : Holds encode r mem₀ q s) :
    Agree (Holds encode r mem₀) (queueSpec encode r.width op q) (callQueue encode op s) := by
  cases op with
  | send a pos => exact send_agrees placed h a pos hop
  | receive => exact receive_agrees placed h
  | peek => exact peek_agrees placed h
  | messagesWaiting =>
    simp only [queueSpec, callQueue, uxQueueMessagesWaiting, h.uxMessagesWaiting]
    exact agree_some h
  | spacesAvailable =>
    simp only [queueSpec, callQueue, uxQueueSpacesAvailable, h.uxMessagesWaiting, h.uxLength,
      wordSub_small q.bounded placed.count]
    exact agree_some h
  | reset =>
    obtain ⟨u, hu, hholds⟩ : ∃ u, xQueueGenericReset s = some u ∧ Holds encode r mem₀ .empty u :=
      reset_holds placed h.pcHead h.uxLength h.uxItemSize h.outside
    simp only [queueSpec, callQueue, hu, Option.map_some]
    exact agree_some hholds

/-- From its creation on, a queue answers every list of calls as a bounded queue of values
does, its storage area holds the items of that queue in order behind the read pointer, and
it writes nothing else. -/
theorem queue_refines (encode : α → ℕ → Byte) {r : SlotRing} (placed : Placed r) {pxStaticQueue : ℕ}
    (semaphore : r.width = 0 → pxStaticQueue = r.base) (mem : ℕ → Byte) {ops : List (QueueOp α)}
    (hops : ∀ op ∈ ops, Overwritable r.width op) :
    ∃ s, xQueueGenericCreateStatic r.slots r.width (if r.width = 0 then none else some r.base)
        (some pxStaticQueue) mem = some s ∧
      Agree (Holds encode r mem) (runAll (queueSpec encode r.width) ops .empty)
        (runAll (callQueue encode) ops s) := by
  have hpos := r.pos
  have create : ∃ s, xQueueGenericCreateStatic r.slots r.width (if r.width = 0 then none else some r.base)
      (some pxStaticQueue) mem = some s ∧ Holds encode r mem .empty s := by
    unfold xQueueGenericCreateStatic prvInitialiseNewQueue
    by_cases narrow : r.width = 0
    · simp only [if_pos narrow]
      rw [if_pos (by simp [hpos, narrow])]
      exact reset_holds placed (semaphore narrow) rfl rfl fun _ _ => rfl
    · simp only [if_neg narrow]
      rw [if_pos (by simp [hpos, narrow])]
      exact reset_holds placed rfl rfl rfl fun _ _ => rfl
  obtain ⟨s, hs, hholds⟩ := create
  exact ⟨s, hs, runAll_agree (fun op _ _ hop hS => call_agrees placed op hop hS) (allRun_of_forall hops _) hholds⟩

/-- The least significant byte of an address comes first. -/
def pointerByte (address i : ℕ) : Byte := BitVec.ofNat 8 (address >>> (8 * i))

/-- A queue of two pointers, and one with a single slot. -/
def twoSlots : SlotRing := ⟨0x20000400, 4, 2, by decide⟩

def oneSlot : SlotRing := ⟨0x20000420, 4, 1, by decide⟩

/-- The third item is refused, the fourth one goes into the place of the first. -/
def wrapped : List (QueueOp ℕ) :=
  [.send 0x20000800 .sendToBack, .send 0x20000900 .sendToBack, .send 0x20000A00 .sendToBack, .receive,
    .send 0x20000B00 .sendToBack, .spacesAvailable, .receive, .receive, .receive]

def overwritten : List (QueueOp ℕ) :=
  [.send 0x20000800 .overwrite, .send 0x20000900 .overwrite, .messagesWaiting, .receive]

theorem queue_refines_wrapped :
    (∃ s u, xQueueGenericCreateStatic 2 4 (some 0x20000400) (some 0x20000440) (fun _ => 0) = some s ∧
      runAll (callQueue pointerByte) wrapped s = some ([.status true, .status true, .status false,
        .item (some [0x00, 0x08, 0x00, 0x20]), .status true, .number 0, .item (some [0x00, 0x09, 0x00, 0x20]),
        .item (some [0x00, 0x0B, 0x00, 0x20]), .item none], u)) ∧
    ∃ s u, xQueueGenericCreateStatic 1 4 (some 0x20000420) (some 0x20000440) (fun _ => 0) = some s ∧
      runAll (callQueue pointerByte) overwritten s = some ([.status true, .status true, .number 1,
        .item (some [0x00, 0x09, 0x00, 0x20])], u) := by
  constructor
  · obtain ⟨s, hs, h⟩ := queue_refines pointerByte (r := twoSlots) ⟨by decide, by decide, by decide⟩
      (show twoSlots.width = 0 → 0x20000440 = twoSlots.base by decide) (fun _ => 0)
      (show ∀ op ∈ wrapped, Overwritable twoSlots.width op by simp [wrapped, Overwritable])
    obtain ⟨u, hu, -⟩ := agree_answers h rfl
    exact ⟨s, u, hs, hu⟩
  · obtain ⟨s, hs, h⟩ := queue_refines pointerByte (r := oneSlot) ⟨by decide, by decide, by decide⟩
      (show oneSlot.width = 0 → 0x20000440 = oneSlot.base by decide) (fun _ => 0)
      (show ∀ op ∈ overwritten, Overwritable oneSlot.width op by simp [overwritten, Overwritable, oneSlot])
    obtain ⟨u, hu, -⟩ := agree_answers h rfl
    exact ⟨s, u, hs, hu⟩

end

end Stm32NetworkStack.QueueStorage
