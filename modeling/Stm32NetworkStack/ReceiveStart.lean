import Stm32NetworkStack.TransmitArea

set_option autoImplicit false

/-!
# From reset to reception

`enc28_do_init` sets up the ring while reception is off, and
`enc28_begin_packet_transfer` switches it on with an empty log.
-/
namespace Stm32NetworkStack.ReceiveStart
open InteractivePrograms Enc28Registers Enc28Driver SpiBus BankDiscipline DriverBanks RingLog
open ReceiveLogic ReceiveStream ReceivePackets TransmitArea Relation

/-- Reception and transmission are off, and no frame has been stored. -/
structure Off (c : RxChip) : Prop where
  rxen : c.econ1.getLsbD econ1Rxen = false
  txrts : c.econ1.getLsbD econ1Txrts = false
  epktcnt : c.epktcnt = 0
  stored : c.stored = []

/-- The ring is set up. -/
structure Prepared (cfg : Conf) (c : RxChip) : Prop where
  off : Off c
  erxst : c.erxst = cfg.rxAddressStart
  erxwrpt : c.erxwrpt = cfg.rxAddressStart
  erxnd : c.erxnd = cfg.rxAddressEnd
  erxrdpt : c.erxrdpt = cfg.rxAddressEnd

def erxstReg : PointerReg where
  lo := .erxstl
  hi := .erxsth
  get := RxChip.erxst
  set := RxChip.setErxst
  bank := ⟨rfl, rfl⟩
  get_set := fun _ _ => rfl
  set_set := fun _ _ _ => rfl
  write_lo := fun _ _ => rfl
  write_hi := fun _ _ => rfl
  kept := fun _ _ hk => hk.erxst

def erxndReg : PointerReg where
  lo := .erxndl
  hi := .erxndh
  get := RxChip.erxnd
  set := fun c p => { c with erxnd := p }
  bank := ⟨rfl, rfl⟩
  get_set := fun _ _ => rfl
  set_set := fun _ _ _ => rfl
  write_lo := fun _ _ => rfl
  write_hi := fun _ _ => rfl
  kept := fun _ _ hk => hk.erxnd

theorem econ1WithBank_rxen (v b : Byte) (h : b.toNat < 4) :
    (econ1WithBank v b).getLsbD econ1Rxen = v.getLsbD econ1Rxen := by
  rcases bank_cases b h with rfl | rfl | rfl | rfl <;> (revert v; decide)

section
variable {cfg : Conf} {arrives : Frame → Prop} {ctx : Option SpiContext} {agree : Bool}

/-- While both are off the hardware does nothing to the log. -/
theorem off_step {c d : RxChip} (h : Off c) (hd : RxStep arrives c d) :
    ∃ regs, d = { c with regs := regs } := by
  cases hd with
  | receive f rxen ok room =>
    rw [h.rxen] at rxen
    cases rxen
  | transmit vec txrts =>
    rw [h.txrts] at txrts
    cases txrts
  | other regs => exact ⟨regs, rfl⟩

theorem off_closed {P : RxChip → Prop} (hoff : ∀ c, P c → Off c)
    (hP : ∀ c regs, P c → P { c with regs := regs }) : EnvClosed (rxCore arrives) P := by
  intro c d h hd
  obtain ⟨regs, rfl⟩ := off_step (hoff c h) hd
  exact hP c regs h

theorem Off.econ1 {c : RxChip} (h : Off c) {v : Byte}
    (hv : v.getLsbD econ1Rxen = c.econ1.getLsbD econ1Rxen ∧
      v.getLsbD econ1Txrts = c.econ1.getLsbD econ1Txrts) : Off { c with econ1 := v } :=
  ⟨hv.1.trans h.rxen, hv.2.trans h.txrts, h.epktcnt, h.stored⟩

theorem off_switch {c d : RxChip} (h : Off c) {b : Byte} (hb : b.toNat < 4)
    (hd : ReflTransGen (RxStep arrives) c d) : Off { d with econ1 := econ1WithBank c.econ1 b } := by
  have hkept : Off d ∧ d.econ1 = c.econ1 := by
    induction hd with
    | refl => exact ⟨h, rfl⟩
    | tail _ hs ih =>
      obtain ⟨regs, rfl⟩ := off_step ih.1 hs
      exact ⟨⟨ih.1.rxen, ih.1.txrts, ih.1.epktcnt, ih.1.stored⟩, ih.2⟩
  have hbits := And.intro (econ1WithBank_rxen c.econ1 b hb) (econ1WithBank_txrts c.econ1 b hb)
  rw [← hkept.2] at hbits ⊢
  exact hkept.1.econ1 hbits

theorem Prepared.keep {c d : RxChip} (h : Prepared cfg c) (hoff : Off d)
    (hd : d.erxst = c.erxst ∧ d.erxwrpt = c.erxwrpt ∧ d.erxnd = c.erxnd ∧ d.erxrdpt = c.erxrdpt) :
    Prepared cfg d :=
  ⟨hoff, hd.1.trans h.erxst, hd.2.1.trans h.erxwrpt, hd.2.2.1.trans h.erxnd, hd.2.2.2.trans h.erxrdpt⟩

theorem Prepared.others {c : RxChip} (h : Prepared cfg c) (erdpt ewrpt : ℕ) (mem : ℕ → Byte)
    (regs : Byte × Byte → Byte) (seen : Option Frame) :
    Prepared cfg { c with erdpt := erdpt, ewrpt := ewrpt, mem := mem, regs := regs, seen := seen } :=
  h.keep ⟨h.off.rxen, h.off.txrts, h.off.epktcnt, h.off.stored⟩ ⟨rfl, rfl, rfl, rfl⟩

theorem prepared_switch {c d : RxChip} (h : Prepared cfg c) {b : Byte} (hb : b.toNat < 4)
    (hd : ReflTransGen (RxStep arrives) c d) :
    Prepared cfg { d with econ1 := econ1WithBank c.econ1 b } := by
  have hclosed : EnvClosed (rxCore arrives) (Prepared cfg) :=
    off_closed (fun _ h => h.off) fun c regs h => h.others c.erdpt c.ewrpt c.mem regs c.seen
  exact (env_keeps hclosed h hd).keep (off_switch h.off hb hd) ⟨rfl, rfl, rfl, rfl⟩

theorem writeReg_upper {c : RxChip} {a : Byte} (ha : a ≠ 0x1F) (hb : c.bsel ≠ 0) (v : Byte) :
    c.writeReg a v = { c with regs := Function.update c.regs (c.bsel, a) v } := by
  unfold RxChip.writeReg
  rw [if_neg ha, if_neg hb]

theorem prepared_benign : Benign (rxCore arrives) (Prepared cfg) false where
  env := off_closed (fun _ h => h.off) fun c regs h => h.others c.erdpt c.ewrpt c.mem regs c.seen
  afterRead := fun c a h => by
    change Prepared cfg (c.afterRead a)
    unfold RxChip.afterRead
    split_ifs
    · exact h.others c.erdpt c.ewrpt c.mem c.regs c.next
    · exact h
  write := fun c a v ha hb h => by
    have hbank : c.bsel ≠ 0 := hb.resolve_left (by decide)
    change Prepared cfg (c.writeReg a v)
    rw [writeReg_upper ha hbank]
    exact h.others c.erdpt c.ewrpt c.mem _ c.seen
  switch := fun c d b hb h hd => prepared_switch h hb hd
  set := fun c a m _ hb h => by
    obtain ⟨hbank, ha⟩ := hb.resolve_left (by decide)
    have hdec : ¬ (a = 0x1E ∧ m.getLsbD econ2Pktdec = true) := by
      rintro ⟨rfl, -⟩
      exact absurd ha (by decide)
    have h1F : a ≠ 0x1F := by
      rintro rfl
      exact absurd ha (by decide)
    change Prepared cfg (c.setBits a m)
    unfold RxChip.setBits
    rw [if_neg hdec, writeReg_upper h1F hbank]
    exact h.others c.erdpt c.ewrpt c.mem _ c.seen
  clear := fun c a m hb h => by
    obtain ⟨hbank, ha⟩ := hb.resolve_left (by decide)
    have h1F : a ≠ 0x1F := by
      rintro rfl
      exact absurd ha (by decide)
    change Prepared cfg (c.clearBits a m)
    unfold RxChip.clearBits
    rw [writeReg_upper h1F hbank]
    exact h.others c.erdpt c.ewrpt c.mem _ c.seen
  readBuf := fun c h => h.others _ c.ewrpt c.mem c.regs c.seen
  writeBuf := fun c b h => h.others c.erdpt _ _ c.regs c.seen

theorem bufferRegisterInit_prepares (layout : Layout cfg) (hc : canWrite ctx = true) :
    Spec (rxCore arrives) (Idle (rxCore arrives) Off agree)
      (privEnc28DoBufferRegisterInit cfg ctx) (Idle (rxCore arrives) (Prepared cfg) agree)
      (fun _ => False) := by
  have ho := layout.order
  have ht := layout.top
  let Started : RxChip → Prop := fun c => Off c ∧ c.erxst = cfg.rxAddressStart ∧
    c.erxwrpt = cfg.rxAddressStart
  let Ranged : RxChip → Prop := fun c => Started c ∧ c.erxnd = cfg.rxAddressEnd
  have hoff : EnvClosed (rxCore arrives) Off :=
    off_closed (fun _ h => h) fun _ _ h => ⟨h.rxen, h.txrts, h.epktcnt, h.stored⟩
  have hStarted : EnvClosed (rxCore arrives) Started :=
    off_closed (fun _ h => h.1) fun _ _ h => ⟨⟨h.1.rxen, h.1.txrts, h.1.epktcnt, h.1.stored⟩, h.2⟩
  have hRanged : EnvClosed (rxCore arrives) Ranged :=
    off_closed (fun _ h => h.1.1) fun _ _ h =>
      ⟨⟨⟨h.1.1.rxen, h.1.1.txrts, h.1.1.epktcnt, h.1.1.stored⟩, h.1.2⟩, h.2⟩
  have hwrite : Spec (rxCore arrives) (InBank (rxCore arrives) Off 0)
      (exitIfErr (enc28DoWriteCtlReg ctx .erxstl (lowByte cfg.rxAddressStart)) <|
        exitIfErr (enc28DoWriteCtlReg ctx .erxsth (highAddr cfg.rxAddressStart)) <|
        exitIfErr (enc28DoWriteCtlReg ctx .erxndl (lowByte cfg.rxAddressEnd)) <|
        exitIfErr (enc28DoWriteCtlReg ctx .erxndh (highAddr cfg.rxAddressEnd)) <|
        exitIfErr (enc28DoWriteCtlReg ctx .erxrdptl (lowByte cfg.rxAddressEnd)) <|
        enc28DoWriteCtlReg ctx .erxrdpth (highAddr cfg.rxAddressEnd))
      (InBank (rxCore arrives) (Prepared cfg) 0) (fun _ => False) := by
    refine movePointer erxstReg hc (by omega) hoff
      (fun c p h => ⟨h.rxen, h.txrts, h.epktcnt, h.stored⟩) hStarted
      (fun c h => ⟨⟨h.rxen, h.txrts, h.epktcnt, h.stored⟩, rfl, rfl⟩) ?_
    refine movePointer erxndReg hc ht hStarted
      (fun c p h => ⟨⟨h.1.rxen, h.1.txrts, h.1.epktcnt, h.1.stored⟩, h.2⟩) hRanged
      (fun c h => ⟨⟨⟨h.1.rxen, h.1.txrts, h.1.epktcnt, h.1.stored⟩, h.2⟩, rfl⟩) ?_
    refine Spec.exit (erxrdpt_lo hc _ hRanged fun c v h =>
      ⟨⟨⟨h.1.1.rxen, h.1.1.txrts, h.1.1.epktcnt, h.1.1.stored⟩, h.1.2⟩, h.2⟩) ?_
    refine erxrdpt_hi hc ht prepared_benign.env fun c h => ?_
    exact ⟨⟨h.1.1.rxen, h.1.1.txrts, h.1.1.epktcnt, h.1.1.stored⟩, h.1.2.1, h.1.2.2, h.2, rfl⟩
  refine Triple.bind (select_sure hc (by decide) hoff fun c d h hd => off_switch h (by decide) hd)
    fun status => ?_
  by_cases hs : status = .ok
  · subst hs
    exact Spec.toIdle hwrite
  · rw [okOr_err _ _ hs]
    exact fun _ h => h.elim

theorem init_prepares (layout : Layout cfg) (hc : canWrite ctx = true) (rounds : ℕ)
    (macAdd : MacAddress) :
    Spec (rxCore arrives) (Idle (rxCore arrives) Off agree) (enc28DoInit cfg rounds macAdd ctx)
      (Idle (rxCore arrives) (Prepared cfg) agree) (Idle (rxCore arrives) (Prepared cfg) agree) :=
  ((bufferRegisterInit_prepares layout hc).conseq (fun _ h => h) (fun _ h => h) fun _ h => h.elim).exit <|
    (receiveFilterInit_spec (rx_laws arrives) prepared_benign.carries (mayChange_upper false) cfg).exit <|
    (doPollEstatClk_spec (rx_laws arrives) prepared_benign.carries rounds).exit <|
    (macInit_spec (rx_laws arrives) prepared_benign.carries (mayChange_upper false) cfg rounds macAdd).exit <|
    Spec.ok fun _ h => h

theorem prepared_receiving (layout : Layout cfg) {c : RxChip} (h : Prepared cfg c)
    (he : c.erdpt = cfg.rxAddressStart) :
    AtRest cfg arrives [] 0 { c with econ1 := c.econ1 ||| bit econ1Rxen } := by
  have ho := layout.order
  have hstart : (rxRing cfg).cell 0 = cfg.rxAddressStart := by
    simp only [rxRing, Ring.cell, Nat.zero_mod, Nat.add_zero]
  have hend : (rxRing cfg).cell (0 + ((rxRing cfg).size - 1)) = cfg.rxAddressEnd := by
    simp only [rxRing, Ring.cell]
    rw [Nat.mod_eq_of_lt (by omega)]
    omega
  refine ⟨⟨h.erxst, h.erxnd, fun hon => ?_, fun f hf => ?_, [], 0, 0, h.off.stored, h.off.epktcnt, rfl,
    Nat.le_refl 0, ?_, h.erxwrpt.trans hstart.symm, h.erxrdpt.trans hend.symm⟩, he.trans hstart.symm⟩
  · have hoff : (c.econ1 ||| bit econ1Rxen).getLsbD econ1Txrts = false := by
      rw [BitVec.getLsbD_or, h.off.txrts]
      rfl
    exact absurd (hon.symm.trans hoff) (by decide)
  · have hnone : f ∈ ([] : List Frame) := h.off.stored ▸ hf
    exact absurd hnone List.not_mem_nil
  · have hpos := (rxRing cfg).pos
    omega

/-- ERDPT goes to the start of the ring, and reception is switched on; the other
registers written are not those of the ring. -/
theorem beginPacketTransfer_rule (layout : Layout cfg) (hc : canWrite ctx = true) {P A : RxChip → Prop}
    (closed : EnvClosed (rxCore arrives) P)
    (switch : ∀ c d, P c → ReflTransGen (RxStep arrives) c d →
      P { d with econ1 := econ1WithBank c.econ1 0 })
    (point : ∀ c p, P c → P { c with erdpt := p }) (regs : ∀ c r, P c → P { c with regs := r })
    (closed' : EnvClosed (rxCore arrives) A)
    (receive : ∀ c, P c → c.erdpt = cfg.rxAddressStart → A { c with econ1 := c.econ1 ||| bit econ1Rxen }) :
    Spec (rxCore arrives) (Idle (rxCore arrives) P agree) (enc28BeginPacketTransfer cfg ctx)
      (InBank (rxCore arrives) A 0) (fun _ => False) := by
  have ho := layout.order
  have ht := layout.top
  let Pointed : RxChip → Prop := fun c => P c ∧ c.erdpt = cfg.rxAddressStart
  have hPointed : EnvClosed (rxCore arrives) Pointed := and_closed closed fun _ _ hk h => hk.erdpt.trans h
  have hshared : ∀ (c : RxChip) (a v : Byte), Pointed c → c.bsel = 0 → 0x1B ≤ a.toNat → a ≠ 0x1F →
      Pointed (c.writeReg a v) := by
    intro c a v h hb ha h1F
    rw [writeReg_shared hb ha h1F]
    exact ⟨regs c _ h.1, h.2⟩
  refine Spec.exit (select_sure hc (by decide) closed switch) ?_
  refine movePointer erdptReg hc (by omega) closed point hPointed (fun c h => ⟨point c _ h, rfl⟩) ?_
  refine Spec.exit (sets_sure hc (by decide) (by decide) _ (by decide) hPointed
    fun c h hb => hshared c 0x1B _ h hb (by decide) (by decide)) ?_
  refine Spec.exit (clears_sure hc (by decide) (by decide) _ (by decide) hPointed
    fun c h hb => hshared c 0x1C _ h hb (by decide) (by decide)) ?_
  refine Spec.exit (sets_sure hc (by decide) (by decide) _ (by decide) hPointed
    fun c h hb => hshared c 0x1E _ h hb (by decide) (by decide)) ?_
  exact sets_sure hc (by decide) (by decide) _ (by decide) closed' fun c h _ => receive c h.1 h.2

theorem beginPacketTransfer_receives (layout : Layout cfg) (hc : canWrite ctx = true) :
    Spec (rxCore arrives) (Idle (rxCore arrives) (Prepared cfg) agree)
      (enc28BeginPacketTransfer cfg ctx) (InBank (rxCore arrives) (AtRest cfg arrives [] 0) 0)
      (fun _ => False) :=
  beginPacketTransfer_rule layout hc prepared_benign.env
    (fun _ _ h hd => prepared_switch h (by decide) hd)
    (fun c p h => h.others p c.ewrpt c.mem c.regs c.seen)
    (fun c regs h => h.others c.erdpt c.ewrpt c.mem regs c.seen) (atRest_closed layout)
    fun _ h he => prepared_receiving layout h he

/-- The chip and the driver after a reset, `enc28_do_init` and
`enc28_begin_packet_transfer` that returned ENC28_OK. -/
def Started (cfg : Conf) (arrives : Frame → Prop) (ctx : Option SpiContext) (w : World RxChip) : Prop :=
  ∃ (c : RxChip) (bank : Byte) (rounds : ℕ) (macAdd : MacAddress) (u : World RxChip)
    (t t' : List (Call × World RxChip)),
    Exec (busMachine (rxCore arrives)) (enc28DoInit cfg rounds macAdd ctx) ⟨c.reset, .high, bank⟩ t
      (some .ok) u ∧
    Exec (busMachine (rxCore arrives)) (enc28BeginPacketTransfer cfg ctx) u t' (some .ok) w

theorem started_rests (layout : Layout cfg) (hc : canWrite ctx = true) {w : World RxChip}
    (h : Started cfg arrives ctx w) :
    Idle (rxCore arrives) (AtRest cfg arrives [] 0) false w := by
  obtain ⟨c, bank, rounds, macAdd, u, t, t', hinit, hbegin⟩ := h
  have hbits : (0 : Byte).getLsbD econ1Rxen = false ∧ (0 : Byte).getLsbD econ1Txrts = false := by
    decide
  have hreset : Idle (rxCore arrives) Off false ⟨c.reset, .high, bank⟩ :=
    Idle.unbanked rfl ⟨hbits.1, hbits.2, rfl, rfl⟩
  have hprepared : Idle (rxCore arrives) (Prepared cfg) false u :=
    ((init_prepares layout hc rounds macAdd).sound hreset hinit).2
  exact InBank.idle ((beginPacketTransfer_receives layout hc).sound hprepared hbegin).2

end

end Stm32NetworkStack.ReceiveStart
