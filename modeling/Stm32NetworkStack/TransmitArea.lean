import Stm32NetworkStack.ReceivePackets

set_option autoImplicit false

/-!
# The transmit functions and the receive buffer

`enc28_write_packet` fills the transmit area below the ring, and
`enc28_check_outgoing_packet_status` borrows ERDPT and puts it back. Both leave
the log of received frames as it was.
-/
namespace Stm32NetworkStack.TransmitArea
open InteractivePrograms Enc28Registers Enc28Driver SpiBus BankDiscipline DriverBanks RingLog
open ReceiveLogic ReceiveStream ReceivePackets Relation

def ewrptReg : PointerReg where
  lo := .ewrptl
  hi := .ewrpth
  get := RxChip.ewrpt
  set := fun c p => { c with ewrpt := p }
  bank := ⟨rfl, rfl⟩
  get_set := fun _ _ => rfl
  set_set := fun _ _ _ => rfl
  write_lo := fun _ _ => rfl
  write_hi := fun _ _ => rfl
  kept := fun _ _ hk => hk.ewrpt

def etxstReg : PointerReg where
  lo := .etxstl
  hi := .etxsth
  get := RxChip.etxst
  set := fun c p => { c with etxst := p }
  bank := ⟨rfl, rfl⟩
  get_set := fun _ _ => rfl
  set_set := fun _ _ _ => rfl
  write_lo := fun _ _ => rfl
  write_hi := fun _ _ => rfl
  kept := fun _ _ hk => hk.etxst

def etxndReg : PointerReg where
  lo := .etxndl
  hi := .etxndh
  get := RxChip.etxnd
  set := fun c p => { c with etxnd := p }
  bank := ⟨rfl, rfl⟩
  get_set := fun _ _ => rfl
  set_set := fun _ _ _ => rfl
  write_lo := fun _ _ => rfl
  write_hi := fun _ _ => rfl
  kept := fun _ _ hk => hk.etxnd

section
variable {cfg : Conf} {arrives : Frame → Prop} {done : List Frame} {x : ℕ} {ctx : Option SpiContext}
  {agree : Bool}

/-- The log between two calls: ERDPT is at the next header. -/
abbrev AtRest (cfg : Conf) (arrives : Frame → Prop) (done : List Frame) (x : ℕ) (c : RxChip) : Prop :=
  Receiving cfg arrives done x 0 c ∧ c.erdpt = (rxRing cfg).cell x

abbrev Quiet (cfg : Conf) (arrives : Frame → Prop) (done : List Frame) (x : ℕ) (c : RxChip) : Prop :=
  AtRest cfg arrives done x c ∧ c.econ1.getLsbD econ1Txrts = false

theorem atRest_closed (layout : Layout cfg) :
    EnvClosed (rxCore arrives) (AtRest cfg arrives done x) :=
  and_closed (receiving_closed layout) fun _ _ hk h => hk.erdpt.trans h

theorem quiet_closed (layout : Layout cfg) :
    EnvClosed (rxCore arrives) (Quiet cfg arrives done x) :=
  and_closed (atRest_closed layout) fun _ _ hk h => hk.quiet h

theorem quiet_writeBuf (layout : Layout cfg) {c : RxChip} (h : Quiet cfg arrives done x c)
    (hp : c.ewrpt < cfg.rxAddressStart) (b : Byte) : Quiet cfg arrives done x (c.writeBuf b) := by
  obtain ⟨⟨⟨hst, hnd, ht, harr, pending, free, last, hs, hcnt, hlog, hrest⟩, he⟩, hq⟩ := h
  refine ⟨⟨⟨hst, hnd, ht, harr, pending, free, last, hs, hcnt, ?_, hrest⟩, he⟩, hq⟩
  refine stored_below layout hlog fun a ha => ?_
  have hne : a ≠ c.ewrpt := by omega
  exact Function.update_of_ne hne _ _

theorem quiet_written (layout : Layout cfg) (buff : List Byte) {c : RxChip}
    (h : Quiet cfg arrives done x c) (hp : c.ewrpt + buff.length ≤ cfg.rxAddressStart) :
    Quiet cfg arrives done x (buff.foldl RxChip.writeBuf c) := by
  have ho := layout.order
  have ht := layout.top
  induction buff generalizing c with
  | nil => exact h
  | cons b buff ih =>
    rw [List.length_cons] at hp
    refine ih (quiet_writeBuf layout h (by omega) b) ?_
    change (c.ewrpt + 1) % 0x2000 + buff.length ≤ cfg.rxAddressStart
    rw [Nat.mod_eq_of_lt (by omega)]
    omega

theorem quiet_setEtxnd {c : RxChip} (h : Quiet cfg arrives done x c) (p : ℕ) :
    Quiet cfg arrives done x { c with etxnd := p } := by
  obtain ⟨⟨⟨hst, hnd, _, harr, hlog⟩, he⟩, hq⟩ := h
  refine ⟨⟨⟨hst, hnd, fun hon => ?_, harr, hlog⟩, he⟩, hq⟩
  exact absurd (hon.symm.trans hq) (by decide)

theorem quiet_setEcon1 {c : RxChip} (h : Quiet cfg arrives done x c) {v : Byte}
    (hv : v.getLsbD econ1Txrts = false) : Quiet cfg arrives done x { c with econ1 := v } := by
  obtain ⟨⟨⟨hst, hnd, _, harr, hlog⟩, he⟩, _⟩ := h
  refine ⟨⟨⟨hst, hnd, fun hon => ?_, harr, hlog⟩, he⟩, hv⟩
  exact absurd (hon.symm.trans hv) (by decide)

theorem sets_sure (hc : canWrite ctx = true) {P P' : RxChip → Prop} {reg : CtlReg}
    (hid : reg.id ≠ 0x1A) (hr : 0x1B ≤ reg.addr.toNat) (mask : Byte)
    (hm : reg.addr = 0x1F → mask &&& econ1Bsel = 0) (closed : EnvClosed (rxCore arrives) P')
    (h : ∀ c, P c → c.bsel = 0 → P' (c.setBits reg.addr mask)) :
    Spec (rxCore arrives) (InBank (rxCore arrives) P 0) (enc28DoSetBitsCtlReg ctx reg mask)
      (InBank (rxCore arrives) P' 0) (fun _ => False) :=
  Spec.sureBits hc (setBits_rule (rx_laws arrives) hid (fun h => absurd h (by omega)) mask hm closed h)

theorem clears_sure (hc : canWrite ctx = true) {P P' : RxChip → Prop} {reg : CtlReg}
    (hid : reg.id ≠ 0x1A) (hr : 0x1B ≤ reg.addr.toNat) (mask : Byte)
    (hm : reg.addr = 0x1F → mask &&& econ1Bsel = 0) (closed : EnvClosed (rxCore arrives) P')
    (h : ∀ c, P c → c.bsel = 0 → P' (c.clearBits reg.addr mask)) :
    Spec (rxCore arrives) (InBank (rxCore arrives) P 0) (enc28DoClearBitsCtlReg ctx reg mask)
      (InBank (rxCore arrives) P' 0) (fun _ => False) :=
  Spec.sureBits hc (clearBits_rule (rx_laws arrives) hid (fun h => absurd h (by omega)) mask hm closed h)

theorem quiet_regs {c : RxChip} (h : Quiet cfg arrives done x c) (regs : Byte × Byte → Byte) :
    Quiet cfg arrives done x { c with regs := regs } :=
  ⟨⟨⟨h.1.1.erxst, h.1.1.erxnd, h.1.1.transmit, h.1.1.arrived, h.1.1.log⟩, h.1.2⟩, h.2⟩

theorem quiet_setEtxst {c : RxChip} (h : Quiet cfg arrives done x c) (p : ℕ) :
    Quiet cfg arrives done x { c with etxst := p } :=
  ⟨⟨⟨h.1.1.erxst, h.1.1.erxnd, h.1.1.transmit, h.1.1.arrived, h.1.1.log⟩, h.1.2⟩, h.2⟩

theorem quiet_setEwrpt {c : RxChip} (h : Quiet cfg arrives done x c) (p : ℕ) :
    Quiet cfg arrives done x { c with ewrpt := p } :=
  ⟨⟨⟨h.1.1.erxst, h.1.1.erxnd, h.1.1.transmit, h.1.1.arrived, h.1.1.log⟩, h.1.2⟩, h.2⟩

/-- The transmission area ends below the ring when TXRTS is set. -/
theorem atRest_started {c : RxChip} (h : AtRest cfg arrives done x c)
    (hend : c.etxnd ≤ cfg.txAddressStart + 1601) (v : Byte) :
    AtRest cfg arrives done x { c with econ1 := v } :=
  ⟨⟨h.1.erxst, h.1.erxnd, fun _ => hend, h.1.arrived, h.1.log⟩, h.2⟩

theorem transmitPacket_rests (layout : Layout cfg) (hc : canWrite ctx = true)
    (packetBuf : List Byte) (bufSize : Word) (hsize : bufSize.toNat ≤ 1600) :
    Spec (rxCore arrives) (Idle (rxCore arrives) (Quiet cfg arrives done x) agree)
      (transmitPacket cfg ctx packetBuf bufSize)
      (InBank (rxCore arrives) (AtRest cfg arrives done x) 0) (fun _ => False) := by
  have hend := layout.transmit
  have ho := layout.order
  have ht := layout.top
  have hquiet : EnvClosed (rxCore arrives) (Quiet cfg arrives done x) := quiet_closed layout
  let Addressed : RxChip → Prop := fun c => Quiet cfg arrives done x c ∧ c.ewrpt = cfg.txAddressStart
  let Ended : RxChip → Prop := fun c => Quiet cfg arrives done x c ∧ c.etxnd ≤ cfg.txAddressStart + 1601
  have hAddressed : EnvClosed (rxCore arrives) Addressed := and_closed hquiet fun _ _ hk h => hk.ewrpt.trans h
  have hEnded : EnvClosed (rxCore arrives) Ended :=
    and_closed hquiet fun _ _ hk h => Nat.le_trans (Nat.le_of_eq hk.etxnd) h
  have hlen : (packetBuf.take bufSize.toNat).length ≤ 1600 := by
    rw [List.length_take]
    omega
  have hq : (BitVec.ofNat 16 (cfg.txAddressStart + bufSize.toNat + 1)).toNat =
      cfg.txAddressStart + bufSize.toNat + 1 := by
    rw [BitVec.toNat_ofNat, Nat.mod_eq_of_lt (by omega)]
  have hkeep : ∀ c v, Ended c → v.getLsbD econ1Txrts = false → Ended { c with econ1 := v } :=
    fun c v h hv => ⟨quiet_setEcon1 h.1 hv, h.2⟩
  unfold transmitPacket
  simp only [bind_eq, hq]
  refine Spec.exit (select_sure hc (by decide) hquiet fun c d h hd => quiet_setEcon1
    (env_keeps hquiet h hd) ((econ1WithBank_txrts _ 0 (by decide)).trans h.2)) ?_
  refine movePointer etxstReg hc (by omega) hquiet (fun c p h => quiet_setEtxst h p) hquiet
    (fun c h => quiet_setEtxst h _) ?_
  refine movePointer ewrptReg hc (by omega) hquiet (fun c p h => quiet_setEwrpt h p) hAddressed
    (fun c h => ⟨quiet_setEwrpt h _, rfl⟩) ?_
  refine writeBurst_rule (rx_laws arrives) hquiet (fun c h => quiet_written layout _ h.1 ?_) ?_
  · rw [h.2, List.length_cons]
    omega
  refine movePointer etxndReg hc (by omega) hquiet (fun c p h => quiet_setEtxnd h p) hEnded
    (fun c h => ⟨quiet_setEtxnd h _, ?_⟩) ?_
  · change cfg.txAddressStart + bufSize.toNat + 1 ≤ cfg.txAddressStart + 1601
    omega
  refine Spec.exit (clears_sure hc (by decide) (by decide) _ (by decide) hEnded fun c h hb => ?_) ?_
  · change Ended (c.writeReg 0x1C _)
    rw [writeReg_bank0 hb (by decide)]
    exact ⟨quiet_regs h.1 _, h.2⟩
  refine Spec.exit (sets_sure hc (by decide) (by decide) _ (by decide) hEnded fun c h _ => ?_) ?_
  · refine hkeep c _ h ?_
    change (c.econ1 ||| bit econ1TxRst).getLsbD econ1Txrts = false
    rw [BitVec.getLsbD_or, h.1.2]
    rfl
  refine Spec.exit (clears_sure hc (by decide) (by decide) _ (by decide) hEnded fun c h _ => ?_) ?_
  · refine hkeep c _ h ?_
    change (c.econ1 &&& ~~~bit econ1TxRst).getLsbD econ1Txrts = false
    rw [BitVec.getLsbD_and, h.1.2]
    rfl
  exact sets_sure hc (by decide) (by decide) _ (by decide) (atRest_closed layout)
    fun c h _ => atRest_started h.1.1 h.2 _

theorem writePacket_rests (layout : Layout cfg) (hc : canWrite ctx = true)
    (packetBuf : Option (List Byte)) (bufSize : Word) (hsize : bufSize.toNat ≤ 1600) :
    Spec (rxCore arrives) (Idle (rxCore arrives) (AtRest cfg arrives done x) agree)
      (enc28WritePacket cfg ctx packetBuf bufSize)
      (Idle (rxCore arrives) (AtRest cfg arrives done x) agree)
      (Idle (rxCore arrives) (AtRest cfg arrives done x) agree) := by
  have refuse : ∀ status, status ≠ CommandStatus.ok →
      Spec (rxCore arrives) (Idle (rxCore arrives) (AtRest cfg arrives done x) agree) (.ret status)
        (Idle (rxCore arrives) (AtRest cfg arrives done x) agree)
        (Idle (rxCore arrives) (AtRest cfg arrives done x) agree) :=
    fun status hs => Spec.err hs fun _ h => h
  match ctx, packetBuf with
  | none, _ => exact refuse _ (by decide)
  | some _, none => exact refuse _ (by decide)
  | some _, some packet =>
    let Looked : Byte → RxChip → Prop := fun v c => AtRest cfg arrives done x c ∧
      (v.getLsbD econ1Txrts = false → c.econ1.getLsbD econ1Txrts = false)
    have hLooked : ∀ v, EnvClosed (rxCore arrives) (Looked v) := fun v =>
      and_closed (atRest_closed layout) fun _ _ hk h hv => hk.quiet (h hv)
    unfold enc28WritePacket
    simp only [bind_eq, pure_eq]
    split_ifs
    · exact refuse _ (by decide)
    · refine Triple.bind (readShared_rule (V := Looked) (rx_laws arrives) (canRead_of_canWrite hc)
        .econ1 rfl (by decide) 0 hLooked fun c h => ⟨h, fun hv => hv⟩) fun r w hw => ?_
      obtain ⟨hok, hp, ⟨hrest, hquiet⟩, hbank⟩ := hw
      rw [hok, if_pos rfl]
      by_cases hbusy : r.2.getLsbD econ1Txrts = true
      · rw [if_pos hbusy]
        exact refuse _ (by decide) w ⟨hp, hrest, hbank⟩
      · rw [if_neg hbusy]
        have hq : w.chip.econ1.getLsbD econ1Txrts = false := hquiet (Bool.eq_false_iff.mpr hbusy)
        exact (transmitPacket_rests layout hc packet bufSize hsize).conseq (fun _ h => h)
          (fun _ h => h.idle) (fun _ h => h.elim) w ⟨hp, ⟨hrest, hq⟩, hbank⟩

theorem drained_erdpt (n : ℕ) (c : RxChip) :
    ∃ p, (rxCore arrives).drained n c = { c with erdpt := p } := by
  induction n with
  | zero => exact ⟨c.erdpt, rfl⟩
  | succ n ih =>
    obtain ⟨p, hp⟩ := ih
    rw [drained_succ, hp]
    exact ⟨_, rfl⟩

theorem atRest_afterRead {c : RxChip} (h : AtRest cfg arrives done x c) (a : Byte) :
    AtRest cfg arrives done x (c.afterRead a) := by
  unfold RxChip.afterRead
  split_ifs
  · exact ⟨⟨h.1.erxst, h.1.erxnd, h.1.transmit, h.1.arrived, h.1.log⟩, h.2⟩
  · exact h

theorem readOk {P A E : World RxChip → Prop} {B : CommandStatus × Byte → World RxChip → Prop}
    {p : Driver (CommandStatus × Byte)} {k : CommandStatus × Byte → Driver CommandStatus}
    (hp : Bank (rxCore arrives) P p (fun r w => r.1 = .ok ∧ B r w) E)
    (hk : ∀ r, Spec (rxCore arrives) (B r) (k r) A E) :
    Spec (rxCore arrives) P (p.bind fun r => if r.1 = .ok then k r else .ret r.1) A E := by
  refine Triple.bind hp fun r w hw => ?_
  rw [hw.1, if_pos rfl]
  exact hk r w hw.2

theorem read_any (layout : Layout cfg) (hc : canWrite ctx = true) (reg : CtlReg)
    (hr : reg.bank = some 0) {X : World RxChip → Prop} :
    Bank (rxCore arrives) (InBank (rxCore arrives) (AtRest cfg arrives done x) 0)
      (enc28DoReadCtlReg ctx reg (some 0))
      (fun r w => r.1 = .ok ∧ InBank (rxCore arrives) (AtRest cfg arrives done x) 0 w) X :=
  read_rule (rx_laws arrives) (V := fun _ => AtRest cfg arrives done x) (canRead_of_canWrite hc) reg hr 0
    (fun _ => atRest_closed layout) fun _ h _ => atRest_afterRead h _

/-- ERDPT is read before it is moved to the status vector and written back after. -/
theorem readTransmitStatusVector_rests (layout : Layout cfg) (hc : canWrite ctx = true) :
    Spec (rxCore arrives) (Idle (rxCore arrives) (AtRest cfg arrives done x) agree)
      (readTransmitStatusVector ctx) (InBank (rxCore arrives) (AtRest cfg arrives done x) 0)
      (fun _ => False) := by
  have hcell := cell_lt layout x
  have hlog : EnvClosed (rxCore arrives) (Receiving cfg arrives done x 0) := receiving_closed layout
  unfold readTransmitStatusVector
  simp only [bind_eq, pure_eq]
  refine Spec.exit (select_receiving layout hc (fun _ _ hk h => hk.erdpt.trans h) fun _ _ h => h) ?_
  refine readOk (read_sure hc .erdptl rfl _ (atRest_closed layout) fun c h => congrArg lowByte h.2)
    fun lo w hw => ?_
  obtain ⟨hlo, hw⟩ := hw
  refine readOk (read_sure hc .erdpth rfl _ (atRest_closed layout) fun c h => congrArg highAddr h.2)
    (fun hi w hw => ?_) w hw
  obtain ⟨hhi, hw⟩ := hw
  refine readOk (read_any layout hc .etxndl rfl) (fun endLo => readOk (read_any layout hc .etxndh rfl)
    fun endHi => ?_) w hw
  rw [hlo, hhi]
  -- ERDPT may be anywhere in between
  have hmove : ∀ reg : CtlReg, reg = .erdptl ∨ reg = .erdpth → ∀ v,
      Spec (rxCore arrives) (InBank (rxCore arrives) (Receiving cfg arrives done x 0) 0)
        (enc28DoWriteCtlReg ctx reg v) (InBank (rxCore arrives) (Receiving cfg arrives done x 0) 0)
        (fun _ => False) := by
    intro reg hreg v
    rcases hreg with rfl | rfl
    · exact write_sure hc rfl v hlog fun c h => h.setErdpt _
    · exact write_sure hc rfl v hlog fun c h => h.setErdpt _
  have hback : Spec (rxCore arrives) (InBank (rxCore arrives) (Receiving cfg arrives done x 0) 0)
      (exitIfErr (enc28DoWriteCtlReg ctx .erdptl (lowByte ((rxRing cfg).cell x)))
        (enc28DoWriteCtlReg ctx .erdpth (highAddr ((rxRing cfg).cell x))))
      (InBank (rxCore arrives) (AtRest cfg arrives done x) 0) (fun _ => False) :=
    Spec.exit (pointer_lo erdptReg hc _ hlog fun c p h => h.setErdpt p)
      (pointer_hi erdptReg hc hcell (atRest_closed layout) fun c h => ⟨h.setErdpt _, rfl⟩)
  refine Spec.conseq (P := InBank (rxCore arrives) (Receiving cfg arrives done x 0) 0) ?_
    (fun w hw => ⟨hw.1, hw.2.1.1, hw.2.2⟩) (fun _ h => h) fun _ h => h
  refine Spec.exit (hmove _ (Or.inl rfl) _) <| Spec.exit (hmove _ (Or.inr rfl) _) <|
    statusBurst_rule (rx_laws arrives) (fun _ => hlog) (fun c hdr h _ => ?_) fun _ => hback
  obtain ⟨p, hp⟩ := drained_erdpt 6 c
  rw [hp]
  exact h.setErdpt p

theorem checkOutgoingPacketStatus_rests (layout : Layout cfg) (hc : canWrite ctx = true) :
    Spec (rxCore arrives) (Idle (rxCore arrives) (AtRest cfg arrives done x) agree)
      (enc28CheckOutgoingPacketStatus ctx)
      (Idle (rxCore arrives) (AtRest cfg arrives done x) agree)
      (Idle (rxCore arrives) (AtRest cfg arrives done x) agree) := by
  have look : ∀ (reg : CtlReg) (old : Byte), reg.id = reg.addr → 0x1B ≤ reg.addr.toNat →
      Bank (rxCore arrives) (Idle (rxCore arrives) (AtRest cfg arrives done x) agree)
        (enc28DoReadCtlReg ctx reg (some old))
        (fun r w => r.1 = .ok ∧ Idle (rxCore arrives) (AtRest cfg arrives done x) agree w)
        (Idle (rxCore arrives) (AtRest cfg arrives done x) agree) := fun reg old hid hr =>
    readShared_rule (rx_laws arrives) (V := fun _ => AtRest cfg arrives done x)
      (canRead_of_canWrite hc) reg hid hr old (fun _ => atRest_closed layout)
      fun _ h => atRest_afterRead h _
  have hvector : Spec (rxCore arrives) (Idle (rxCore arrives) (AtRest cfg arrives done x) agree)
      (readTransmitStatusVector ctx) (Idle (rxCore arrives) (AtRest cfg arrives done x) agree)
      (Idle (rxCore arrives) (AtRest cfg arrives done x) agree) :=
    (readTransmitStatusVector_rests layout hc).conseq (fun _ h => h) (fun _ h => h.idle)
      fun _ h => h.elim
  unfold enc28CheckOutgoingPacketStatus
  simp only [bind_eq, pure_eq]
  refine readOk (look .eir 0 rfl (by decide)) fun eir => ?_
  split_ifs
  · refine readOk (look .estat eir.2 rfl (by decide)) fun estat => ?_
    refine Spec.exit hvector ?_
    split_ifs
    · exact Spec.err (by decide) fun _ h => h
    · exact Spec.ok fun _ h => h
  · exact Spec.err (by decide) fun _ h => h

end

end Stm32NetworkStack.TransmitArea
