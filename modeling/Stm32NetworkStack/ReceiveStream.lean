import Stm32NetworkStack.ReceiveLogic

set_option autoImplicit false

/-!
# What the receive buffer holds

`Receiving` ties the pointers of the controller to the log of frames in the
ring: the frames counted off by the driver, the ones still in the ring from the
position `x` on, and the room that ERXRDPT leaves to the hardware. The hardware
keeps it on its own, and so does everything the driver sends outside of the
receive registers.
-/
namespace Stm32NetworkStack.ReceiveStream
open Enc28Registers Enc28Driver SpiBus BankDiscipline RingLog ReceiveLogic Relation

/-- The receive ring lies in the buffer memory, behind the area that the largest
transmission and its status vector take up. -/
structure Layout (cfg : Conf) : Prop where
  order : cfg.rxAddressStart < cfg.rxAddressEnd
  top : cfg.rxAddressEnd < 0x2000
  transmit : cfg.txAddressStart + 1608 < cfg.rxAddressStart

def rxRing (cfg : Conf) : Ring :=
  ⟨cfg.rxAddressStart, cfg.rxAddressEnd - cfg.rxAddressStart + 1, Nat.succ_pos _⟩

def encode (cfg : Conf) (x : ℕ) (f : Frame) : List Byte := f.bytes ((rxRing cfg).cell (x + f.width))

abbrev StoredFrames (cfg : Conf) (mem : ℕ → Byte) (x : ℕ) (fs : List Frame) (y : ℕ) : Prop :=
  (rxRing cfg).Stored (encode cfg) Frame.width mem x fs y

/-- `done` are the frames the driver has finished with, `pending` the ones in
the ring. `extra` of the frames that are done are still counted in EPKTCNT. -/
structure Receiving (cfg : Conf) (arrives : Frame → Prop) (done : List Frame) (x extra : ℕ)
    (c : RxChip) : Prop where
  erxst : c.erxst = cfg.rxAddressStart
  erxnd : c.erxnd = cfg.rxAddressEnd
  transmit : c.econ1.getLsbD econ1Txrts = true → c.etxnd ≤ cfg.txAddressStart + 1601
  arrived : ∀ f ∈ c.stored, arrives f
  log : ∃ pending free last, c.stored = done ++ pending ∧ c.epktcnt = pending.length + extra ∧
    StoredFrames cfg c.mem x pending last ∧ free ≤ x ∧ last < free + (rxRing cfg).size ∧
    c.erxwrpt = (rxRing cfg).cell last ∧
    c.erxrdpt = (rxRing cfg).cell (free + ((rxRing cfg).size - 1))

theorem encode_length (cfg : Conf) (x : ℕ) (f : Frame) : (encode cfg x f).length ≤ f.width := by
  simp [encode, Frame.bytes, Frame.width, Frame.len]
  omega

section
variable {cfg : Conf} {arrives : Frame → Prop} {done : List Frame} {x extra : ℕ} {c d : RxChip}

theorem cell_range (layout : Layout cfg) (y : ℕ) :
    cfg.rxAddressStart ≤ (rxRing cfg).cell y ∧ (rxRing cfg).cell y ≤ cfg.rxAddressEnd := by
  have h := cell_bounds (rxRing cfg) y
  have ho := layout.order
  simp only [rxRing] at h ⊢
  omega

theorem Receiving.ring_eq (h : Receiving cfg arrives done x extra c) : c.ring = rxRing cfg := by
  unfold RxChip.ring rxRing
  simp only [h.erxst, h.erxnd]

theorem receiving_store (h : Receiving cfg arrives done x extra c) {f : Frame} (ok : arrives f)
    (room : f.width ≤ (c.erxrdpt + c.ring.size - c.erxwrpt) % c.ring.size) :
    Receiving cfg arrives done x extra (c.store f) := by
  have hring := h.ring_eq
  obtain ⟨hst, hnd, ht, harr, pending, free, last, hs, hcnt, hlog, hfree, hlast, hwr, hrd⟩ := h
  have hle := Stored.le hlog
  have hpos := (rxRing cfg).pos
  rw [hring, hrd, hwr, cell_distance _ (by omega) (by omega)] at room
  have hnext : c.ring.forward c.erxwrpt f.width = (rxRing cfg).cell (last + f.width) := by
    rw [hring, hwr, forward_cell]
  refine ⟨hst, hnd, ht, ?_, pending ++ [f], free, last + f.width, ?_, ?_, ?_, hfree, by omega, hnext, hrd⟩
  · intro g hg
    rcases List.mem_append.mp hg with hg | hg
    · exact harr g hg
    · rw [List.mem_singleton.mp hg]
      exact ok
  · simp only [RxChip.store, hs, List.append_assoc]
  · simp only [RxChip.store, hcnt, List.length_append, List.length_singleton]
    omega
  · simp only [RxChip.store, hnext]
    rw [hring, hwr]
    exact Stored.push (encode_length cfg) hlog (by omega)

theorem Receiving.setErdpt (h : Receiving cfg arrives done x extra c) (p : ℕ) :
    Receiving cfg arrives done x extra { c with erdpt := p } :=
  ⟨h.erxst, h.erxnd, h.transmit, h.arrived, h.log⟩

theorem Receiving.setErxrdptl (h : Receiving cfg arrives done x extra c) (v : Byte) :
    Receiving cfg arrives done x extra { c with erxrdptl := v } :=
  ⟨h.erxst, h.erxnd, h.transmit, h.arrived, h.log⟩

theorem stored_below (layout : Layout cfg) {mem mem' : ℕ → Byte} {fs : List Frame} {y : ℕ}
    (h : StoredFrames cfg mem x fs y) (hm : ∀ a, cfg.rxAddressStart ≤ a → mem' a = mem a) :
    StoredFrames cfg mem' x fs y :=
  Stored.agree (encode_length cfg) h fun z _ _ => hm _ (cell_range layout z).1

theorem receiving_transmitted (layout : Layout cfg) (h : Receiving cfg arrives done x extra c)
    (txrts : c.econ1.getLsbD econ1Txrts = true) (vec : ℕ → Byte) :
    Receiving cfg arrives done x extra (c.transmitted vec) := by
  have hend := h.transmit txrts
  have hbelow := layout.transmit
  obtain ⟨hst, hnd, ht, harr, pending, free, last, hs, hcnt, hlog, hrest⟩ := h
  refine ⟨hst, hnd, fun hon => ?_, harr, pending, free, last, hs, hcnt, ?_, hrest⟩
  · simp [RxChip.transmitted, bit, econ1Txrts] at hon
  · refine stored_below layout hlog fun a ha => ?_
    simp only [RxChip.transmitted]
    rw [if_neg (by omega)]

theorem receiving_closed (layout : Layout cfg) :
    EnvClosed (rxCore arrives) (Receiving cfg arrives done x extra) := by
  intro c d h hd
  cases hd with
  | receive f rxen ok room => exact receiving_store h ok room
  | transmit vec txrts => exact receiving_transmitted layout h txrts vec
  | other regs => exact ⟨h.erxst, h.erxnd, h.transmit, h.arrived, h.log⟩

/-- What the hardware leaves to the driver. -/
structure Kept (c d : RxChip) : Prop where
  erdpt : d.erdpt = c.erdpt
  ewrpt : d.ewrpt = c.ewrpt
  etxst : d.etxst = c.etxst
  etxnd : d.etxnd = c.etxnd
  erxst : d.erxst = c.erxst
  erxnd : d.erxnd = c.erxnd
  erxrdptl : d.erxrdptl = c.erxrdptl
  seen : d.seen = c.seen
  stored : c.stored <+: d.stored
  quiet : c.econ1.getLsbD econ1Txrts = false → d.econ1.getLsbD econ1Txrts = false

theorem kept_step (h : RxStep arrives c d) : Kept c d := by
  cases h with
  | receive f rxen ok room =>
    exact ⟨rfl, rfl, rfl, rfl, rfl, rfl, rfl, rfl, List.prefix_append _ _, fun h => h⟩
  | transmit vec txrts =>
    refine ⟨rfl, rfl, rfl, rfl, rfl, rfl, rfl, rfl, List.prefix_rfl, fun h => ?_⟩
    rw [txrts] at h
    cases h
  | other regs => exact ⟨rfl, rfl, rfl, rfl, rfl, rfl, rfl, rfl, List.prefix_rfl, fun h => h⟩

theorem and_closed {P Q : RxChip → Prop} (hP : EnvClosed (rxCore arrives) P)
    (hQ : ∀ c d, Kept c d → Q c → Q d) : EnvClosed (rxCore arrives) (fun c => P c ∧ Q c) :=
  fun c d h hd => ⟨hP c d h.1 hd, hQ c d (kept_step hd) h.2⟩

theorem eir_pktif (c : RxChip) : c.eir.getLsbD eirPktif = decide (0 < c.epktcnt) := by
  by_cases h : 0 < c.epktcnt <;> simp [RxChip.eir, bit, eirPktif, eirRxerif, h]

theorem eir_rxerif (c : RxChip) : c.eir.getLsbD eirRxerif = false := by
  by_cases h : 0 < c.epktcnt <;> simp [RxChip.eir, bit, eirPktif, eirRxerif, h]

/-- PKTIF says that a frame is pending; the first one is the one seen. -/
theorem next_of_pending (h : Receiving cfg arrives done x 0 c) (hp : 0 < c.epktcnt) :
    ∃ f, c.next = some f ∧ done ++ [f] <+: c.stored := by
  obtain ⟨pending, free, last, hs, hcnt, -⟩ := h.log
  cases pending with
  | nil =>
    simp at hcnt
    omega
  | cons f rest =>
    refine ⟨f, ?_, rest, by simp [hs]⟩
    have hlen : c.stored.length - c.epktcnt = done.length := by
      rw [hs, hcnt]
      simp
    unfold RxChip.next
    rw [hlen, hs]
    simp

theorem none_pending (h : Receiving cfg arrives done x 0 c) (hp : c.epktcnt = 0)
    {before : List Frame} (hb : before <+: c.stored) : c.next = none ∧ before <+: done := by
  obtain ⟨pending, free, last, hs, hcnt, -⟩ := h.log
  obtain rfl : pending = [] := by
    cases pending with
    | nil => rfl
    | cons f rest =>
      simp at hcnt
      omega
  rw [List.append_nil] at hs
  exact ⟨by simp [RxChip.next, hp], hs ▸ hb⟩

/-- The first pending frame is in the ring at `x`, and the others behind it. -/
theorem pending_frame (h : Receiving cfg arrives done x extra c) {f : Frame}
    (hf : done ++ [f] <+: c.stored) :
    (rxRing cfg).Holds c.mem x (encode cfg x f) ∧
      Receiving cfg arrives (done ++ [f]) (x + f.width) (extra + 1) c := by
  obtain ⟨hst, hnd, ht, harr, pending, free, last, hs, hcnt, hlog, hfree, hrest⟩ := h
  rw [hs, List.prefix_append_right_inj] at hf
  obtain ⟨rest, rfl⟩ := hf
  refine ⟨hlog.1, hst, hnd, ht, harr, rest, free, last, by simp [hs], ?_, hlog.2, by omega, hrest⟩
  simp only [List.cons_append, List.nil_append, List.length_cons] at hcnt
  omega

theorem read_next (layout : Layout cfg) (h : Receiving cfg arrives done x extra c) {y : ℕ}
    (hy : c.erdpt = (rxRing cfg).cell y) :
    (if c.erdpt = c.erxnd then c.erxst else (c.erdpt + 1) % 0x2000) = (rxRing cfg).cell (y + 1) := by
  have hrange := cell_range layout y
  have ho := layout.order
  have ht := layout.top
  have hlast : (rxRing cfg).start + ((rxRing cfg).size - 1) = cfg.rxAddressEnd := by
    simp only [rxRing]
    omega
  have hstart : (rxRing cfg).start = cfg.rxAddressStart := rfl
  rw [← next_cell, hy, h.erxst, h.erxnd]
  unfold Ring.next
  rw [hlast, hstart]
  by_cases hend : (rxRing cfg).cell y = cfg.rxAddressEnd
  · rw [if_pos hend, if_pos hend]
  · rw [if_neg hend, if_neg hend, Nat.mod_eq_of_lt (by omega)]

theorem drained_ring (layout : Layout cfg) (h : Receiving cfg arrives done x extra c) {y : ℕ}
    (hy : c.erdpt = (rxRing cfg).cell y) (n : ℕ) :
    (rxCore arrives).drained n c = { c with erdpt := (rxRing cfg).cell (y + n) } := by
  induction n with
  | zero =>
    rw [Nat.add_zero, ← hy]
    rfl
  | succ n ih =>
    have hn : Receiving cfg arrives done x extra { c with erdpt := (rxRing cfg).cell (y + n) } :=
      ⟨h.erxst, h.erxnd, h.transmit, h.arrived, h.log⟩
    rw [drained_succ, ih]
    exact congrArg (fun p => { c with erdpt := p }) (read_next layout hn rfl)

theorem bufByte_ring (layout : Layout cfg) (h : Receiving cfg arrives done x extra c) {y : ℕ}
    (hy : c.erdpt = (rxRing cfg).cell y) (n : ℕ) :
    (rxCore arrives).bufByte c n = c.mem ((rxRing cfg).cell (y + n)) := by
  unfold ChipCore.bufByte
  rw [drained_ring layout h hy]
  rfl

end

end Stm32NetworkStack.ReceiveStream
