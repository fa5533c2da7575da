import Mathlib.Algebra.GroupWithZero.Nat
import Stm32NetworkStack.GuardedRuns
import Stm32NetworkStack.PacketPipeline

set_option autoImplicit false

/-!
# What the link output sends

lwIP hands `enc28_netif_output` a chain of pbufs. The function copies the first
segment only, does not look at the result of the send, and says ERR_OK in any case.
-/
namespace Stm32NetworkStack.LinkOutput
open Enc28Registers Enc28Driver BoundedQueues PacketPipeline GuardedRuns

inductive ErrT
  | ok | mem | buf | timeout | rte | inprogress | val | wouldblock | use | alreadyRunning | isconn | conn
  | netif | abrt | rst | clsd | arg
  deriving DecidableEq

/-- A pbuf with its `next` chain, which fits a packet buffer. -/
structure PbufChain where
  head : Pbuf
  next : List Pbuf
  fits : ((head :: next).map fun p => p.payload.length).sum ≤ maxEthPacketSize

def PbufChain.bytes (p : PbufChain) : List Byte := (p.head :: p.next).flatMap Pbuf.payload

def PbufChain.totLen (p : PbufChain) : ℕ := ((p.head :: p.next).map fun p => p.payload.length).sum

structure Link (N : ℕ) where
  free : Queue N (Fin N)
  transmit : Queue N (Fin N)
  ethPackets : Fin N → EthPacketBuff

section
variable {N : ℕ}

def enc28NetifOutput (l : Link N) (p : PbufChain) : ErrT × Link N :=
  match l.free.receive with
  | some (ipResp, q) =>
    (.ok, {
      free := q
      transmit := l.transmit.offer ipResp
      ethPackets := Function.update l.ethPackets ipResp
        ((l.ethPackets ipResp).fill p.head.payload p.head.len) })
  | none => (.ok, l)

/-- The transmit queue ends with a buffer that holds the whole frame, and the
result is ERR_OK; or nothing has changed and the result is an error. -/
def SendsOrReports (l : Link N) (p : PbufChain) (r : ErrT × Link N) : Prop :=
  (r.1 = .ok ∧ ∃ b, r.2.transmit.items = l.transmit.items ++ [b] ∧
    (r.2.ethPackets b).usedBytes.toNat = p.totLen ∧
    (r.2.ethPackets b).buf.take (r.2.ethPackets b).usedBytes.toNat = p.bytes) ∨
  (r.1 ≠ .ok ∧ r.2 = l)

theorem output_ok (l : Link N) (p : PbufChain) : (enc28NetifOutput l p).1 = .ok := by
  unfold enc28NetifOutput
  cases l.free.receive <;> rfl

theorem output_copies (l : Link N) (p : PbufChain) {b : Fin N} {q : Queue N (Fin N)}
    (got : l.free.receive = some (b, q)) :
    ((enc28NetifOutput l p).2.ethPackets b).packet = (p.head.payload, p.head.len) := by
  have hlen : p.head.len.toNat ≤ p.head.payload.length := Nat.le_of_eq p.head.len_toNat
  simp only [enc28NetifOutput, got, Function.update_self, fill_packet _ hlen, Pbuf.len_toNat, List.take_length]

theorem single_segment {p : PbufChain} : p.totLen = p.head.payload.length ↔ ∀ q ∈ p.next, q.payload = [] := by
  have hsum : p.totLen = p.head.payload.length + (p.next.map fun q => q.payload.length).sum := by
    simp only [PbufChain.totLen, List.map_cons, List.sum_cons]
  have hzero : (p.next.map fun q => q.payload.length).sum = 0 ↔ ∀ q ∈ p.next, q.payload = [] := by
    rw [List.sum_eq_zero_iff_forall_eq_nat, List.forall_mem_map]
    exact forall₂_congr fun q _ => List.length_eq_zero_iff
  rw [hsum, ← hzero]
  omega

theorem bytes_single {p : PbufChain} (h : ∀ q ∈ p.next, q.payload = []) : p.bytes = p.head.payload := by
  have hrest : p.next.flatMap Pbuf.payload = [] := List.flatMap_eq_nil_iff.mpr h
  simp only [PbufChain.bytes, List.flatMap_cons, hrest, List.append_nil]

/-- The link output does what it should exactly when a buffer is free, the
transmit queue has room, and the first segment is the whole frame. -/
theorem output_sends_iff (l : Link N) (p : PbufChain) :
    SendsOrReports l p (enc28NetifOutput l p) ↔
      l.free.items ≠ [] ∧ l.transmit.items.length < N ∧ ∀ q ∈ p.next, q.payload = [] := by
  have hok := output_ok l p
  constructor
  · rintro (⟨-, b, hitems, hused, -⟩ | ⟨herr, -⟩)
    · cases hfree : l.free.receive with
      | none =>
        have hsame : (enc28NetifOutput l p).2 = l := by simp only [enc28NetifOutput, hfree]
        rw [hsame] at hitems
        exact absurd (List.self_eq_append_right.mp hitems) (List.cons_ne_nil _ _)
      | some x =>
        obtain ⟨c, q⟩ := x
        have htransmit : (enc28NetifOutput l p).2.transmit = l.transmit.offer c := by
          simp only [enc28NetifOutput, hfree]
        have hroom : l.transmit.items.length < N := by
          have hbound := (enc28NetifOutput l p).2.transmit.bounded
          rw [hitems, List.length_append] at hbound
          exact hbound
        have hbc : b = c := by
          rw [htransmit, (offer_room hroom c).1] at hitems
          exact (List.cons.inj (List.append_cancel_left hitems)).1.symm
        subst hbc
        have hlen := congrArg Prod.snd (output_copies l p hfree)
        refine ⟨?_, hroom, ?_⟩
        · rw [receive_some hfree]
          exact List.cons_ne_nil _ _
        · rw [← single_segment, ← hused, ← p.head.len_toNat]
          exact congrArg BitVec.toNat hlen
    · exact absurd hok herr
  · rintro ⟨hfree, hroom, hnext⟩
    obtain ⟨⟨b, q⟩, got⟩ := Option.ne_none_iff_exists'.mp fun h => hfree (receive_none.mp h)
    have htransmit : (enc28NetifOutput l p).2.transmit = l.transmit.offer b := by
      simp only [enc28NetifOutput, got]
    obtain ⟨hbytes, hused⟩ := Prod.mk.inj (output_copies l p got)
    refine .inl ⟨hok, b, ?_, ?_, ?_⟩
    · rw [htransmit, (offer_room hroom b).1]
    · rw [hused, p.head.len_toNat, single_segment.mpr hnext]
    · rw [hbytes, bytes_single hnext]

def linkOf {W : Type} (s : State N W) : Link N := ⟨s.free, s.transmit, s.ethPackets⟩

theorem live_of {W : Type} {s u : State N W} (live : s.halted = false) (packet : u.packetPc = s.packetPc)
    (ip : u.ipPc ≠ .halted) : u.halted = false := by
  unfold State.halted at live ⊢
  rw [packet]
  cases hp : s.packetPc <;> cases hi : u.ipPc <;> simp_all only <;> contradiction

/-- The steps of the link output in the pipeline, when no other step comes between. -/
theorem output_steps {W : Type} {D : Device W} {useLwip : Bool} {s : State N W} {c : StackCall}
    (live : s.halted = false) (pc : s.ipPc = .stack c) (p : PbufChain) :
    ∃ as u, Run (Step D useLwip) s as u ∧ u.ipPc = .stack c ∧
      linkOf u = (enc28NetifOutput (linkOf s) p).2 := by
  cases hfree : s.free.receive with
  | none =>
    have drops : Step D useLwip s (.output p.head) s := .ip live (.outputDrops pc hfree)
    refine ⟨_, s, Run.nil.snoc drops, pc, ?_⟩
    simp only [linkOf, enc28NetifOutput, hfree]
  | some x =>
    obtain ⟨b, q⟩ := x
    let s₁ : State N W := { s with free := q, ipPc := .fillResp c b p.head }
    let s₂ : State N W := { s₁.setPacket b ((s₁.ethPackets b).fill p.head.payload p.head.len) with
      ipPc := .sendResp c b
      outputs := s₁.outputs ++ [(p.head.payload, p.head.len)] }
    let s₃ : State N W := { s₂ with
      transmit := s₂.transmit.offer b
      lost := s₂.lost ++ s₂.transmit.refused b
      ipPc := .stack c }
    have live₁ : s₁.halted = false := live_of live rfl fun h => by cases h
    have live₂ : s₂.halted = false := live_of live rfl fun h => by cases h
    have takes : Step D useLwip s (.output p.head) s₁ := .ip live (.output pc hfree)
    have fills : Step D useLwip s₁ .fillResp s₂ := .ip live₁ (.fillResp rfl)
    have sends : Step D useLwip s₂ .sendResp s₃ := .ip live₂ (.sendResp rfl)
    refine ⟨_, s₃, ((Run.nil.snoc takes).snoc fills).snoc sends, rfl, ?_⟩
    simp only [linkOf, enc28NetifOutput, hfree]
    rfl

def twoSegments : PbufChain := ⟨⟨[1], by decide⟩, [⟨[2], by decide⟩], by decide⟩

def oneFree : Link 1 := ⟨⟨[⟨0, Nat.one_pos⟩], by decide⟩, .empty, fun _ => ⟨List.replicate maxEthPacketSize 0, 0⟩⟩

/-- Only the first segment is sent, and the result is ERR_OK. -/
theorem output_cuts_frame : ¬ ∀ (N : ℕ) (l : Link N) (p : PbufChain),
    SendsOrReports l p (enc28NetifOutput l p) := by
  intro h
  rcases h 1 oneFree twoSegments with ⟨-, b, -, hused, -⟩ | ⟨herr, -⟩
  · have hb : b = 0 := Subsingleton.elim b 0
    subst hb
    exact absurd hused (by decide)
  · exact herr rfl

end

end Stm32NetworkStack.LinkOutput
