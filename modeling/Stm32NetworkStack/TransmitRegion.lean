import Stm32NetworkStack.TransmitSafety

set_option autoImplicit false

/-!
# The region that a transmission takes up

Where `enc28_write_packet` puts a packet: the control byte at ETXST, the packet
behind it, and ETXND one byte behind the packet. The hardware stores the seven
bytes of the status vector behind ETXND.
-/
namespace Stm32NetworkStack.TransmitRegion
open InteractivePrograms Enc28Registers Enc28Driver DriverCommands SpiBus BankDiscipline DriverBanks
open RingLog ReceiveLogic ReceiveStream ReceivePackets TransmitArea ReceiveSessions TransmitSafety Relation

section
variable {κ : Type} {C : ChipCore κ}

/-- A program that may not transmit writes no byte to the buffer memory. -/
theorem sends_writes_nothing {α : Type} {K : Commands} {p : Driver α} {w v : World κ}
    {t : List (Call × World κ)} {o : Option α} (hp : Sends K p) (ht : K.transmits = false)
    (idle : w.phase = .high) (run : Exec (busMachine C) p w t o v) :
    ∀ x ∈ t, ∀ u ∈ clockedIn C x, u.phase ≠ .wbm := by
  have hnot : ∀ x ∈ t, ∀ cmd, commandSent x = some cmd → cmd >>> spiArgBits ≠ opWbm :=
    fun x hx cmd hc => permits_not_wbm ht (hp.permitted run x hx) hc
  have hopen := exec_opened run (S := fun cmd => cmd >>> spiArgBits ≠ opWbm) (by rw [idle]; trivial) hnot
  intro x hx u hu hphase
  have hu' := clockedIn_opened (hopen x hx) (hnot x hx) u hu
  rw [hphase] at hu'
  obtain ⟨cmd, hne, heq⟩ := hu'
  exact hne heq

end

section
variable {arrives : Frame → Prop}

/-- A byte changes the buffer memory at EWRPT only, and only in a write burst. -/
theorem clockByte_mem (b : Byte) {v : World RxChip} {a : ℕ} (h : v.phase = .wbm → a ≠ v.chip.ewrpt) :
    (clockByte (rxCore arrives) b v).2.chip.mem a = v.chip.mem a := by
  have hwrite : ∀ (c : RxChip) (r x : Byte), (c.writeReg r x).mem = c.mem := by
    intro c r x
    unfold RxChip.writeReg RxChip.writeBank0
    split_ifs
    · rfl
    · split <;> rfl
    · rfl
  have hset : ∀ (c : RxChip) (r x : Byte), (c.setBits r x).mem = c.mem := by
    intro c r x
    unfold RxChip.setBits
    split_ifs
    · rfl
    · exact hwrite c _ _
  have hread : ∀ (c : RxChip) (r : Byte), (c.afterRead r).mem = c.mem := by
    intro c r
    unfold RxChip.afterRead
    split_ifs <;> rfl
  have hdecode : ∀ op addr, (decode (rxCore arrives) v op addr).chip.mem = v.chip.mem := by
    intro op addr
    unfold decode
    split_ifs <;> rfl
  unfold clockByte
  split
  case h_3 => exact congrFun (hdecode _ _) a
  case h_5 => exact congrFun (hread _ _) a
  case h_6 => exact congrFun (hwrite _ _ _) a
  case h_7 => exact congrFun (hset _ _ _) a
  case h_8 => exact congrFun (hwrite _ _ _) a
  case h_10 hp => exact Function.update_of_ne (h hp) _ _
  all_goals rfl

theorem burst_addr (arrives : Frame → Prop) (tx : ℕ → Byte) (i : ℕ) {w : World RxChip} (hw : w.phase = .wbm)
    (hi : w.chip.ewrpt + i < 0x2000) : (clock (rxCore arrives) tx i w).phase = .wbm ∧
      (clock (rxCore arrives) tx i w).chip.ewrpt = w.chip.ewrpt + i := by
  induction i with
  | zero => exact ⟨hw, rfl⟩
  | succ i ih =>
    obtain ⟨hphase, hptr⟩ := ih (by omega)
    have hstep : (clock (rxCore arrives) tx (i + 1) w) =
        { clock (rxCore arrives) tx i w with
          chip := (clock (rxCore arrives) tx i w).chip.writeBuf (tx i) } := by
      simp only [clock, clockByte, hphase]
      rfl
    rw [hstep]
    refine ⟨hphase, ?_⟩
    change ((clock (rxCore arrives) tx i w).chip.ewrpt + 1) % 0x2000 = _
    rw [hptr]
    omega

end

theorem exit_assoc (p q k : Driver CommandStatus) :
    exitIfErr (exitIfErr p q) k = exitIfErr p (exitIfErr q k) := by
  change (p.bind fun status => _).bind _ = p.bind _
  induction p with
  | ret status =>
    simp only [ret_bind]
    split_ifs with hs
    · rfl
    · change (Prog.ret status).bind _ = _
      rw [ret_bind, if_neg hs]
  | spin => rfl
  | call e k ih => exact congrArg (Prog.call e) (funext ih)

section
variable (cfg : Conf) (ctx : Option SpiContext)

/-- `transmitPacket` up to its write burst. -/
def aimBurst : Driver CommandStatus :=
  exitIfErr (enc28SelectRegisterBank ctx 0) <|
  exitIfErr (enc28DoWriteCtlReg ctx .etxstl (lowByte cfg.txAddressStart)) <|
  exitIfErr (enc28DoWriteCtlReg ctx .etxsth (highAddr cfg.txAddressStart)) <|
  exitIfErr (enc28DoWriteCtlReg ctx .ewrptl (lowByte cfg.txAddressStart)) <|
  enc28DoWriteCtlReg ctx .ewrpth (highAddr cfg.txAddressStart)

/-- `transmitPacket` behind its write burst. -/
def startTransmission (bufSize : Word) : Driver CommandStatus :=
  let endAddress : Word := BitVec.ofNat 16 (cfg.txAddressStart + bufSize.toNat + 1)
  exitIfErr (enc28DoWriteCtlReg ctx .etxndl (lowByte endAddress.toNat)) <|
  exitIfErr (enc28DoWriteCtlReg ctx .etxndh (highAddr endAddress.toNat)) <|
  exitIfErr (enc28DoClearBitsCtlReg ctx .eir (bit eirTxif)) <|
  exitIfErr (enc28DoSetBitsCtlReg ctx .econ1 (bit econ1TxRst)) <|
  exitIfErr (enc28DoClearBitsCtlReg ctx .econ1 (bit econ1TxRst)) <|
  enc28DoSetBitsCtlReg ctx .econ1 (bit econ1Txrts)

theorem transmitPacket_eq (packetBuf : List Byte) (bufSize : Word) :
    transmitPacket cfg ctx packetBuf bufSize = exitIfErr (aimBurst cfg ctx) (do
      nssPinOp 0
      spiOutOp none [0x7A, 0]
      spiOutOp none (packetBuf.take bufSize.toNat)
      nssPinOp 1
      startTransmission cfg ctx bufSize) := by
  unfold aimBurst
  rw [exit_assoc, exit_assoc, exit_assoc, exit_assoc]
  rfl

end

section
variable {cfg : Conf} {arrives : Frame → Prop} {ctx : Option SpiContext} {agree : Bool} {bufSize : Word}

theorem lowByte_wrap (q : ℕ) : lowByte (q % 0x2000) = lowByte q := by
  apply BitVec.eq_of_toNat_eq
  rw [lowByte_toNat, lowByte_toNat]
  omega

theorem highAddr_wrap (q : ℕ) : highAddr (q % 0x2000) = highAddr q := by
  apply BitVec.eq_of_toNat_eq
  rw [highAddr_toNat, highAddr_toNat]
  omega

theorem kept_closed {α : Type} {f : RxChip → α} (hf : ∀ c d, Kept c d → f d = f c) (a : α) :
    EnvClosed (rxCore arrives) (fun c => f c = a) :=
  fun c d h hd => (hf c d (kept_step hd)).trans h

/-- The pointers that a transmission from `etxst` to `etxnd` uses. -/
structure Pointed (etxst etxnd : ℕ) (c : RxChip) : Prop where
  first : c.etxst = etxst
  last : c.etxnd = etxnd

theorem aimBurst_spec (hc : canWrite ctx = true) :
    Spec (rxCore arrives) (Idle (rxCore arrives) (fun _ => True) agree) (aimBurst cfg ctx)
      (InBank (rxCore arrives) (fun c => c.etxst = cfg.txAddressStart % 0x2000 ∧
        c.ewrpt = cfg.txAddressStart % 0x2000) 0) (fun _ => False) := by
  have hq : cfg.txAddressStart % 0x2000 < 0x2000 := Nat.mod_lt _ (by decide)
  have hany : EnvClosed (rxCore arrives) (fun _ => True) := fun _ _ _ _ => trivial
  have hfirst : EnvClosed (rxCore arrives) (fun c => c.etxst = cfg.txAddressStart % 0x2000) :=
    kept_closed (fun _ _ hk => hk.etxst) _
  have hboth : EnvClosed (rxCore arrives) (fun c => c.etxst = cfg.txAddressStart % 0x2000 ∧
      c.ewrpt = cfg.txAddressStart % 0x2000) :=
    and_closed hfirst fun _ _ hk h => hk.ewrpt.trans h
  unfold aimBurst
  rw [← lowByte_wrap, ← highAddr_wrap]
  refine Spec.exit (select_sure hc (by decide) hany fun _ _ _ _ => trivial) ?_
  refine movePointer etxstReg hc hq hany (fun _ _ _ => trivial) hfirst (fun _ _ => rfl) ?_
  exact (pointer_lo ewrptReg hc _ hfirst fun _ _ h => h).exit
    (pointer_hi ewrptReg hc hq hboth fun _ h => ⟨h, rfl⟩)

theorem startTransmission_spec (hc : canWrite ctx = true) {etxst : ℕ} :
    Spec (rxCore arrives) (InBank (rxCore arrives) (fun c => c.etxst = etxst) 0)
      (startTransmission cfg ctx bufSize)
      (InBank (rxCore arrives) (Pointed etxst ((cfg.txAddressStart + bufSize.toNat + 1) % 0x2000)) 0)
      (fun _ => False) := by
  have hq : (BitVec.ofNat 16 (cfg.txAddressStart + bufSize.toNat + 1)).toNat % 0x2000 =
      (cfg.txAddressStart + bufSize.toNat + 1) % 0x2000 := by
    rw [BitVec.toNat_ofNat]
    omega
  have hfirst : EnvClosed (rxCore arrives) (fun c => c.etxst = etxst) :=
    kept_closed (fun _ _ hk => hk.etxst) _
  have hpointed : EnvClosed (rxCore arrives)
      (Pointed etxst ((cfg.txAddressStart + bufSize.toNat + 1) % 0x2000)) := fun _ _ h hd =>
    ⟨(kept_step hd).etxst.trans h.first, (kept_step hd).etxnd.trans h.last⟩
  unfold startTransmission
  dsimp only
  rw [← lowByte_wrap, ← highAddr_wrap, hq]
  refine movePointer etxndReg hc (Nat.mod_lt _ (by decide)) hfirst (fun _ _ h => h) hpointed
    (fun _ h => ⟨h, rfl⟩) ?_
  refine Spec.exit (clears_sure hc (by decide) (by decide) _ (by decide) hpointed fun c h hb => ?_) ?_
  · change Pointed _ _ (c.writeReg 0x1C _)
    rw [writeReg_bank0 hb (by decide)]
    exact ⟨h.first, h.last⟩
  refine Spec.exit (sets_sure hc (by decide) (by decide) _ (by decide) hpointed
    fun c h _ => ⟨h.first, h.last⟩) ?_
  refine Spec.exit (clears_sure hc (by decide) (by decide) _ (by decide) hpointed
    fun c h _ => ⟨h.first, h.last⟩) ?_
  exact sets_sure hc (by decide) (by decide) _ (by decide) hpointed fun c h _ => ⟨h.first, h.last⟩

variable {packetBuf : Option (List Byte)} {w u : World RxChip} {t : List (Call × World RxChip)}

/-- The commands before and after the burst. -/
def aroundBurst : Commands := { transmitCommands with transmits := false }

/-- A packet that is accepted is transmitted after a look at ECON1. -/
theorem accepted_run (idle : w.phase = .high)
    (run : Exec (busMachine (rxCore arrives)) (enc28WritePacket cfg ctx packetBuf bufSize) w t (some .ok) u) :
    ∃ packet v t₁ t₂, canWrite ctx = true ∧ v.phase = .high ∧ t = t₁ ++ t₂ ∧
      (∀ x ∈ t₁, ∀ y ∈ clockedIn (rxCore arrives) x, y.phase ≠ .wbm) ∧
      Exec (busMachine (rxCore arrives)) (transmitPacket cfg ctx packet bufSize) v t₂ (some .ok) u := by
  match ctx, packetBuf with
  | none, _ => cases run
  | some c, none => cases run
  | some c, some packet =>
    unfold enc28WritePacket at run
    simp only [bind_eq, pure_eq] at run
    split_ifs at run
    · cases run
    · obtain ⟨r, v, t₁, t₂, hread, hrest, ht⟩ := Exec.of_bind run
      have hsend : Sends aroundBurst (enc28DoReadCtlReg (some c) .econ1 (some 0)) :=
        sends_readCtlReg (by decide) _
      have hquiet := sends_writes_nothing hsend rfl idle hread
      split_ifs at hrest with hok
      · cases hrest
      · have hlook : Triple (busMachine (rxCore arrives)) (bankGuard (rxCore arrives)).holds
            (Idle (rxCore arrives) (fun _ => True) false) (enc28DoReadCtlReg (some c) .econ1 (some 0))
            (fun _ => Idle (rxCore arrives) (fun _ => True) false) (fun _ => True) :=
          read_shared (rx_laws arrives) true_benign.carries .econ1 rfl (by decide) 0
        have hv : v.phase = .high :=
          (hlook.sound (Idle.unbanked idle trivial) hread).2.1
        refine ⟨packet, v, t₁, t₂, ?_, hv, ht, hquiet, hrest⟩
        cases hc : canWrite (some c) with
        | true => rfl
        | false =>
          rcases of_exit hrest with ⟨_, _, _, hsel, -, -⟩ | ⟨hne, -⟩
          · exact absurd rfl (select_refused (rx_laws arrives) (rx_txrts arrives) hc hsel).1
          · exact absurd rfl hne
      · exact absurd rfl (hrest.returns (Q := fun status => status ≠ CommandStatus.ok) hok)

theorem written_etxst (buff : List Byte) (c : RxChip) :
    (buff.foldl RxChip.writeBuf c).etxst = c.etxst := by
  induction buff generalizing c with
  | nil => rfl
  | cons b buff ih => exact ih (c.writeBuf b)

theorem aimBurst_ok (hc : canWrite ctx = true) : (aimBurst cfg ctx).Returns (· = .ok) :=
  exit_ok (select_ok hc (by decide)) <| exit_ok (writeCtlReg_ok hc (by decide) _) <|
  exit_ok (writeCtlReg_ok hc (by decide) _) <| exit_ok (writeCtlReg_ok hc (by decide) _)
    (writeCtlReg_ok hc (by decide) _)

theorem sends_aimBurst (cfg : Conf) : Sends aroundBurst (aimBurst cfg ctx) :=
  sends_exit (sends_select (by decide) (by decide) _) <| sends_exit (sends_writeCtlReg (by decide) _) <|
  sends_exit (sends_writeCtlReg (by decide) _) <| sends_exit (sends_writeCtlReg (by decide) _)
    (sends_writeCtlReg (by decide) _)

theorem sends_startTransmission (cfg : Conf) (bufSize : Word) :
    Sends aroundBurst (startTransmission cfg ctx bufSize) :=
  sends_exit (sends_writeCtlReg (by decide) _) <| sends_exit (sends_writeCtlReg (by decide) _) <|
  sends_exit (sends_clearBits (by decide) _) <| sends_exit (sends_setBits (by decide) _) <|
  sends_exit (sends_clearBits (by decide) _) (sends_setBits (by decide) _)

/-- The only bytes written are those of the burst, with EWRPT at its start. -/
theorem transmit_parts (hc : canWrite ctx = true) {packet : List Byte} (idle : w.phase = .high)
    (run : Exec (busMachine (rxCore arrives)) (transmitPacket cfg ctx packet bufSize) w t (some .ok) u) :
    ∃ v d t₁ t₂, InBank (rxCore arrives) (fun c => c.etxst = cfg.txAddressStart % 0x2000 ∧
        c.ewrpt = cfg.txAddressStart % 0x2000) 0 v ∧
      Pointed (cfg.txAddressStart % 0x2000) ((cfg.txAddressStart + bufSize.toNat + 1) % 0x2000) u.chip ∧
      (∀ x ∈ t₁ ++ t₂, ∀ y ∈ clockedIn (rxCore arrives) x, y.phase ≠ .wbm) ∧
      t = t₁ ++ (.nssPinOp 0, v) :: (.spiOutOp none [0x7A, 0], { v with phase := .opcode }) ::
        (.spiOutOp none (packet.take bufSize.toNat), { v with chip := v.chip.writeBuf 0, phase := .wbm }) ::
        (.nssPinOp 1, d) :: t₂ := by
  have hr : canRead ctx = true := canRead_of_canWrite hc
  rw [transmitPacket_eq] at run
  obtain ⟨v, t₁, t', haim, hrest, rfl⟩ := of_exit_ok (aimBurst_ok hc) run
  have hquiet₁ := sends_writes_nothing (sends_aimBurst cfg) rfl idle haim
  have hv := Spec.lands_ok (aimBurst_spec hc) (Idle.unbanked idle trivial) haim
  simp only [bind_eq, nssPinOp, spiOutOp, call_bind, ret_bind] at hrest
  obtain ⟨_, v₁, _, hlow, hrest, rfl⟩ := hrest.of_call
  obtain rfl : v₁ = { v with phase := .opcode } := hlow
  obtain ⟨_, v₂, _, hopen, hrest, rfl⟩ := hrest.of_call
  obtain rfl : v₂ = { v with chip := v.chip.writeBuf 0, phase := .wbm } := hopen
  obtain ⟨_, d, _, hburst, hrest, rfl⟩ := hrest.of_call
  have hd : d = {
      v with
      chip := (0 :: packet.take bufSize.toNat).foldl RxChip.writeBuf v.chip
      phase := .wbm } :=
    hburst.trans (clock_written (rxCore arrives) _ { v with chip := v.chip.writeBuf 0 })
  subst hd
  obtain ⟨_, v₃, t₂, hhigh, hrest, rfl⟩ := hrest.of_call
  obtain ⟨c, henv, rfl⟩ : ∃ c, ReflTransGen (rxCore arrives).env
    ((0 :: packet.take bufSize.toNat).foldl RxChip.writeBuf v.chip) c ∧
    v₃ = { v with chip := c, phase := .high } := hhigh
  have hmoved : InBank (rxCore arrives) (fun c => c.etxst = cfg.txAddressStart % 0x2000) 0
      { v with chip := c, phase := .high } :=
    InBank.step (rx_laws arrives) hv (kept_closed (fun _ _ hk => hk.etxst) _)
      ((written_etxst _ _).trans hv.2.1.1) (written_bsel (rx_laws arrives) (0 :: _) v.chip) henv
  have hu := Spec.lands_ok (startTransmission_spec hc) hmoved hrest
  refine ⟨v, _, t₁, t₂, hv, hu.2.1, fun x hx => ?_, rfl⟩
  rcases List.mem_append.mp hx with hx | hx
  · exact hquiet₁ x hx
  · exact sends_writes_nothing (sends_startTransmission cfg bufSize) rfl rfl hrest x hx

theorem accepted_pointed (idle : w.phase = .high)
    (run : Exec (busMachine (rxCore arrives)) (enc28WritePacket cfg ctx packetBuf bufSize) w t (some .ok) u) :
    Pointed (cfg.txAddressStart % 0x2000) ((cfg.txAddressStart + bufSize.toNat + 1) % 0x2000) u.chip := by
  obtain ⟨packet, v, t₁, t₂, hc, hv, -, -, hsend⟩ := accepted_run idle run
  obtain ⟨_, _, _, _, -, hu, -, -⟩ := transmit_parts hc hv hsend
  exact hu

theorem accepted_writes (htx : cfg.txAddressStart + bufSize.toNat < 0x2000) (idle : w.phase = .high)
    (run : Exec (busMachine (rxCore arrives)) (enc28WritePacket cfg ctx packetBuf bufSize) w t (some .ok) u) :
    ∀ x ∈ t, ∀ y ∈ clockedIn (rxCore arrives) x, y.phase = .wbm →
      cfg.txAddressStart ≤ y.chip.ewrpt ∧ y.chip.ewrpt ≤ cfg.txAddressStart + bufSize.toNat := by
  obtain ⟨packet, v₀, t₀, t', hc, hv₀, rfl, hquiet₀, hsend⟩ := accepted_run idle run
  obtain ⟨v, d, t₁, t₂, hv, -, hquiet, rfl⟩ := transmit_parts hc hv₀ hsend
  have hptr : v.chip.ewrpt = cfg.txAddressStart := hv.2.1.2.trans (Nat.mod_eq_of_lt (by omega))
  have hlen : (packet.take bufSize.toNat).length ≤ bufSize.toNat := List.length_take_le _ _
  intro x hx y hy hphase
  simp only [List.mem_append, List.mem_cons] at hx
  rcases hx with hx | hx | rfl | rfl | rfl | rfl | hx
  · exact absurd hphase (hquiet₀ x hx y hy)
  · exact absurd hphase (hquiet x (List.mem_append_left _ hx) y hy)
  · exact absurd hy List.not_mem_nil
  · obtain ⟨i, hi, rfl⟩ := List.mem_map.mp hy
    -- the opcode itself is not data, the control byte goes to the start
    obtain rfl | rfl : i = 0 ∨ i = 1 := by
      have hlt : i < 2 := List.mem_range.mp hi
      omega
    · cases hphase
    · change cfg.txAddressStart ≤ v.chip.ewrpt ∧ v.chip.ewrpt ≤ _
      omega
  · obtain ⟨i, hi, rfl⟩ := List.mem_map.mp hy
    have hlt : i < (packet.take bufSize.toNat).length := List.mem_range.mp hi
    have hstart : (v.chip.writeBuf 0).ewrpt = cfg.txAddressStart + 1 := by
      change (v.chip.ewrpt + 1) % 0x2000 = _
      omega
    obtain ⟨-, hat⟩ := burst_addr arrives (bytesOf (packet.take bufSize.toNat)) i
      (w := { v with chip := v.chip.writeBuf 0, phase := .wbm }) rfl (by rw [hstart]; omega)
    rw [hat, hstart]
    omega
  · exact absurd hy List.not_mem_nil
  · exact absurd hphase (hquiet x (List.mem_append_right _ hx) y hy)

end

/-- From ETXST to ETXND the memory holds the control byte 0 and the packet. -/
structure SendsPacket (packet : List Byte) (bufSize : Word) (c : RxChip) : Prop where
  control : c.mem c.etxst = 0
  last : c.etxnd = c.etxst + bufSize.toNat
  bytes : ∀ i < bufSize.toNat, c.mem (c.etxst + 1 + i) = bytesOf packet i

/-- What the burst writes, and the status vector behind it, stays between the
start of the transmission and the receive ring. -/
structure BelowRing (cfg : Conf) (arrives : Frame → Prop) (bufSize : Word)
    (t : List (Call × World RxChip)) (c : RxChip) : Prop where
  written : ∀ x ∈ t, ∀ y ∈ clockedIn (rxCore arrives) x, y.phase = .wbm →
    cfg.txAddressStart ≤ y.chip.ewrpt ∧ y.chip.ewrpt < cfg.rxAddressStart
  last : c.etxnd = cfg.txAddressStart + bufSize.toNat + 1
  vector : ∀ i, 1 ≤ i → i ≤ 7 → cfg.txAddressStart ≤ c.etxnd + i ∧ c.etxnd + i < cfg.rxAddressStart
  keeps : ∀ x ∈ t, ∀ y ∈ clockedIn (rxCore arrives) x, ∀ b a, cfg.rxAddressStart ≤ a →
    (clockByte (rxCore arrives) b y).2.chip.mem a = y.chip.mem a
  keepsVector : ∀ vec a, cfg.rxAddressStart ≤ a → (c.transmitted vec).mem a = c.mem a

/-- A run on an idle chip, with TXRTS clear. -/
theorem accepted_exists (packet : List Byte) (bufSize : Word)
    (h : ((enc28WritePacket {} (some fullContext) (some packet) bufSize).run
      (busDevice (rxCore fun _ => True) id) ⟨readyChip, .high, 0⟩).1 = some .ok) :
    ∃ t u, Exec (busMachine (rxCore fun _ => True))
      (enc28WritePacket {} (some fullContext) (some packet) bufSize) ⟨readyChip, .high, 0⟩ t (some .ok) u := by
  obtain ⟨t, run⟩ := run_exec (busDevice_step (rxCore fun _ => True) (f := id) fun _ => ReflTransGen.refl)
    (enc28WritePacket {} (some fullContext) (some packet) bufSize) ⟨readyChip, .high, 0⟩
  exact ⟨t, _, h ▸ run⟩

section
variable {cfg : Conf} {arrives : Frame → Prop} {ctx : Option SpiContext} {bufSize : Word}
  {w u : World RxChip} {t : List (Call × World RxChip)}

/-- ETXND is always one byte behind the packet. -/
theorem never_exactly_packet {packet : List Byte} (idle : w.phase = .high)
    (run : Exec (busMachine (rxCore arrives)) (enc28WritePacket cfg ctx (some packet) bufSize) w t
      (some .ok) u) : ¬ SendsPacket packet bufSize u.chip := by
  intro h
  obtain ⟨hfirst, hlast⟩ := accepted_pointed idle run
  have hend := h.last
  rw [hfirst, hlast] at hend
  omega

theorem never_exactly_packet_zeros : ∃ t u, Exec (busMachine (rxCore fun _ => True))
    (enc28WritePacket {} (some fullContext) (some (List.replicate 14 0)) 14) ⟨readyChip, .high, 0⟩ t
      (some .ok) u ∧ ¬ SendsPacket (List.replicate 14 0) 14 u.chip := by
  obtain ⟨t, u, run⟩ := accepted_exists (List.replicate 14 0) 14 (by decide +kernel)
  exact ⟨t, u, run, never_exactly_packet rfl run⟩

/-- Of the shortest packet, 15 bytes are sent. -/
theorem packet_region_fails : ¬ ∀ (cfg : Conf) (ctx : Option SpiContext) (packet : List Byte)
    (bufSize : Word) (w u : World RxChip) (t : List (Call × World RxChip)),
    14 ≤ bufSize.toNat → bufSize.toNat ≤ 1514 → bufSize.toNat ≤ packet.length → w.phase = .high →
    w.chip.econ1.getLsbD econ1Txrts = false →
    Exec (busMachine (rxCore fun _ => True)) (enc28WritePacket cfg ctx (some packet) bufSize) w t
      (some .ok) u → SendsPacket packet bufSize u.chip := by
  intro h
  obtain ⟨t, u, run⟩ := accepted_exists (List.replicate 14 0) 14 (by decide +kernel)
  obtain ⟨hfirst, hlast⟩ := accepted_pointed rfl run
  have hend := (h {} _ _ _ _ u t (by decide) (by decide) (by decide) rfl rfl run).last
  rw [hfirst, hlast] at hend
  exact absurd hend (by decide)

theorem stays_below_ring_iff (layout : Layout cfg) {packetBuf : Option (List Byte)} (idle : w.phase = .high)
    (run : Exec (busMachine (rxCore arrives)) (enc28WritePacket cfg ctx packetBuf bufSize) w t
      (some .ok) u) :
    BelowRing cfg arrives bufSize t u.chip ↔
      cfg.txAddressStart + bufSize.toNat + 8 < cfg.rxAddressStart := by
  have ho := layout.order
  have ht := layout.top
  obtain ⟨-, hend⟩ := accepted_pointed idle run
  constructor
  · intro h
    have hlast := h.last
    have hseven := (h.vector 7 (by omega) (by omega)).2
    omega
  · intro hroom
    have hlast : u.chip.etxnd = cfg.txAddressStart + bufSize.toNat + 1 := by omega
    have hwrites := accepted_writes (by omega) idle run
    refine ⟨fun x hx y hy hp => ?_, hlast, fun i hi hi' => ?_, fun x hx y hy b a ha => ?_, fun vec a ha => ?_⟩
    · have hy' := hwrites x hx y hy hp
      omega
    · omega
    · refine clockByte_mem b fun hp => ?_
      have hy' := hwrites x hx y hy hp
      omega
    · change (if _ then vec a else u.chip.mem a) = _
      rw [if_neg (by omega)]

theorem stays_below_ring_iff_zeros : ∃ t u, Exec (busMachine (rxCore fun _ => True))
    (enc28WritePacket {} (some fullContext) (some (List.replicate 14 0)) 14) ⟨readyChip, .high, 0⟩ t
      (some .ok) u ∧ BelowRing {} (fun _ => True) 14 t u.chip := by
  obtain ⟨t, u, run⟩ := accepted_exists (List.replicate 14 0) 14 (by decide +kernel)
  exact ⟨t, u, run, (stays_below_ring_iff ⟨by decide, by decide, by decide⟩ rfl run).2 (by decide)⟩

/-- With 1963 bytes the last byte of the status vector is in the ring. -/
theorem below_ring_fails : ¬ ∀ (cfg : Conf) (ctx : Option SpiContext) (packet : List Byte)
    (bufSize : Word) (w u : World RxChip) (t : List (Call × World RxChip)),
    Layout cfg → bufSize.toNat ≤ packet.length → w.phase = .high →
    Exec (busMachine (rxCore fun _ => True)) (enc28WritePacket cfg ctx (some packet) bufSize) w t
      (some .ok) u → BelowRing cfg (fun _ => True) bufSize t u.chip := by
  intro h
  obtain ⟨t, u, run⟩ := accepted_exists (List.replicate 1963 0) 1963 (by decide +kernel)
  have hlen : (1963 : Word).toNat ≤ (List.replicate 1963 (0 : Byte)).length := by
    rw [List.length_replicate]
    decide
  have hbelow := h {} _ _ _ _ u t ⟨by decide, by decide, by decide⟩ hlen rfl run
  have hseven := (hbelow.vector 7 (by decide) (by decide)).2
  rw [hbelow.last] at hseven
  exact absurd hseven (by decide)

end

end Stm32NetworkStack.TransmitRegion
