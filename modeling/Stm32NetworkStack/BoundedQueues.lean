import Mathlib.Data.Nat.Notation
import Mathlib.Logic.Basic
import Mathlib.Tactic.SplitIfs

set_option autoImplicit false

/-!
# Bounded queues

A queue hands its items out in the order in which they came. A queue that is
full refuses to take another one.
-/
namespace Stm32NetworkStack.BoundedQueues

@[ext] structure Queue (cap : ℕ) (α : Type) where
  items : List α
  bounded : items.length ≤ cap
  deriving DecidableEq

section
variable {cap : ℕ} {α : Type} {q p : Queue cap α} {a : α}

def Queue.empty : Queue cap α := ⟨[], Nat.zero_le cap⟩

def Queue.send (q : Queue cap α) (a : α) : Option (Queue cap α) :=
  if h : q.items.length < cap then
    some ⟨q.items ++ [a], by simpa using Nat.succ_le_of_lt h⟩
  else none

def Queue.receive : Queue cap α → Option (α × Queue cap α)
  | ⟨[], _⟩ => none
  | ⟨a :: rest, h⟩ => some (a, ⟨rest, Nat.le_of_succ_le h⟩)

/-- A send to the front, to be received next. -/
def Queue.sendFront (q : Queue cap α) (a : α) : Option (Queue cap α) :=
  if h : q.items.length < cap then some ⟨a :: q.items, h⟩ else none

/-- The queue after a send whose result is ignored. -/
def Queue.offer (q : Queue cap α) (a : α) : Queue cap α := (q.send a).getD q

/-- What such a send loses. -/
def Queue.refused (q : Queue cap α) (a : α) : List α := if (q.send a).isSome then [] else [a]

theorem send_some (h : q.send a = some p) : p.items = q.items ++ [a] := by
  unfold Queue.send at h
  split_ifs at h with hlt
  obtain rfl := Option.some.inj h
  rfl

theorem send_none : q.send a = none ↔ q.items.length = cap := by
  have hb := q.bounded
  unfold Queue.send
  split_ifs with h
  · refine ⟨fun hn => ?_, fun he => ?_⟩
    · cases hn
    · omega
  · refine ⟨fun _ => ?_, fun _ => rfl⟩
    omega

theorem receive_some (h : q.receive = some (a, p)) : q.items = a :: p.items := by
  obtain ⟨items, hb⟩ := q
  cases items with
  | nil => cases h
  | cons b rest =>
    obtain ⟨rfl, rfl⟩ := Prod.mk.inj (Option.some.inj h)
    rfl

theorem receive_none : q.receive = none ↔ q.items = [] := by
  obtain ⟨items, hb⟩ := q
  cases items with
  | nil => exact ⟨fun _ => rfl, fun _ => rfl⟩
  | cons b rest =>
    refine ⟨fun h => ?_, fun h => ?_⟩
    · cases h
    · cases h

theorem offer_room (h : q.items.length < cap) (a : α) :
    (q.offer a).items = q.items ++ [a] ∧ q.refused a = [] := by
  cases hs : q.send a with
  | none =>
    rw [send_none] at hs
    omega
  | some p =>
    unfold Queue.offer Queue.refused
    rw [hs]
    exact ⟨send_some hs, rfl⟩

end

end Stm32NetworkStack.BoundedQueues
