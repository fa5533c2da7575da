import Stm32NetworkStack.DriverBanks

set_option autoImplicit false

/-!
# The commands of each driver function

Which registers a function can read, write and change bit by bit, and whether it
can move the buffer memory, follows from its program alone, whatever the chip
replies. So does that a function whose callbacks are there returns ENC28_OK.
-/
namespace Stm32NetworkStack.DriverCommands
open InteractivePrograms Enc28Registers Enc28Driver SpiBus BankDiscipline

/-- The register and buffer commands a function may send. -/
structure Commands where
  reads : List CtlReg
  writes : List CtlReg
  bits : List CtlReg
  transmits : Bool
  resets : Bool

/-- The bytes of a call are one of these commands; packet data may be anything. -/
def Commands.permits (K : Commands) : Call → Prop
  | .spiOutOp (some reg) buff => ∃ op data, buff = commandByte op reg.id :: data ∧
      (op = opRcr ∧ reg ∈ K.reads ∨ op = opWcr ∧ reg ∈ K.writes ∨
        (op = opBfs ∨ op = opBfc) ∧ reg ∈ K.bits)
  | .spiOutOp none buff => buff = [0x3A] ∨ K.resets = true ∧ buff = [0xFF] ∨ K.transmits = true
  | .spiInOutOp tx _ => ∃ rest, tx = 0x3A :: rest
  | _ => True

/-- What `K` sends, `L` may send too. -/
structure Commands.Within (K L : Commands) : Prop where
  reads : ∀ reg ∈ K.reads, reg ∈ L.reads
  writes : ∀ reg ∈ K.writes, reg ∈ L.writes
  bits : ∀ reg ∈ K.bits, reg ∈ L.bits
  transmits : K.transmits = true → L.transmits = true
  resets : K.resets = true → L.resets = true

theorem permits_within {K L : Commands} (h : K.Within L) (e : Call) (he : K.permits e) :
    L.permits e := by
  cases e with
  | spiOutOp reg buff =>
    cases reg with
    | some reg =>
      obtain ⟨op, data, hb, hop⟩ := he
      refine ⟨op, data, hb, ?_⟩
      rcases hop with ⟨ho, hr⟩ | ⟨ho, hr⟩ | ⟨ho, hr⟩
      · exact Or.inl ⟨ho, h.reads reg hr⟩
      · exact Or.inr (Or.inl ⟨ho, h.writes reg hr⟩)
      · exact Or.inr (Or.inr ⟨ho, h.bits reg hr⟩)
    | none =>
      rcases he with hb | ⟨hk, hb⟩ | hk
      · exact Or.inl hb
      · exact Or.inr (Or.inl ⟨h.resets hk, hb⟩)
      · exact Or.inr (Or.inr (h.transmits hk))
  | spiInOutOp tx len => exact he
  | nssPinOp | spiInOp | waitNano | loadBank | storeBank => exact trivial

/-- The call sends a register read command. -/
def isReadCommand : Call → Bool
  | .spiOutOp (some _) (cmd :: _) => cmd >>> spiArgBits == opRcr
  | _ => false

theorem isReadCommand_other {op : Byte} (hop : op.toNat < 8) (hne : op ≠ opRcr) (reg : CtlReg)
    (data : List Byte) : isReadCommand (.spiOutOp (some reg) (commandByte op reg.id :: data)) = false := by
  change (commandByte op reg.id >>> spiArgBits == opRcr) = false
  rw [commandByte_opcode op reg.id hop]
  exact beq_false_of_ne hne

/-- The program makes permitted calls, and sends a read command in a complete
`enc28_do_read_ctl_reg` only. -/
inductive Sends {α : Type} (K : Commands) : Driver α → Prop
  | ret (a : α) : Sends K (.ret a)
  | spin : Sends K .spin
  | call {e : Call} {k : e.Reply → Driver α} (permitted : K.permits e) (other : isReadCommand e = false)
      (tail : ∀ r, Sends K (k r)) : Sends K (.call e k)
  | read {ctx : Option SpiContext} {reg : CtlReg} {old : Byte} {k : CommandStatus × Byte → Driver α}
      (permitted : reg ∈ K.reads) (tail : ∀ r, Sends K (k r)) :
      Sends K ((enc28DoReadCtlReg ctx reg (some old)).bind k)

theorem Sends.within {α : Type} {K L : Commands} {p : Driver α} (hp : Sends K p) (h : K.Within L) :
    Sends L p := by
  induction hp with
  | ret a => exact .ret a
  | spin => exact .spin
  | call permitted other _ ih => exact .call (permits_within h _ permitted) other ih
  | read permitted _ ih => exact .read (h.reads _ permitted) ih

section
variable {K : Commands} {ctx : Option SpiContext} {reg : CtlReg} {α β : Type}

theorem sends_ret (a : α) : Sends K (.ret a) := .ret a

theorem sends_seq {p : Driver α} {f : α → Driver β} (hp : Sends K p) (hf : ∀ a, Sends K (f a)) :
    Sends K (p.bind f) := by
  induction hp with
  | ret a => exact hf a
  | spin => exact .spin
  | call permitted other _ ih => exact .call permitted other ih
  | read permitted _ ih =>
    rw [bind_assoc]
    exact .read permitted ih

theorem sends_exit {p k : Driver CommandStatus} (hp : Sends K p) (hk : Sends K k) :
    Sends K (exitIfErr p k) := by
  refine sends_seq hp fun status => ?_
  split_ifs
  · exact hk
  · exact sends_ret _

theorem sends_onOk {status : CommandStatus} {p q : Driver α} (hp : Sends K p) (hq : Sends K q) :
    Sends K (if status = .ok then p else q) := by
  split_ifs
  · exact hp
  · exact hq

theorem sends_readCtlReg (h : reg ∈ K.reads) (regValue : Option Byte) :
    Sends K (enc28DoReadCtlReg ctx reg regValue) := by
  cases regValue with
  | none =>
    rw [readCtlReg_null]
    exact sends_ret _
  | some old =>
    rw [← bind_ret (enc28DoReadCtlReg ctx reg (some old))]
    exact .read h sends_ret

theorem readCtlReg_issues (h : reg ∈ K.reads) (old : Byte) :
    (enc28DoReadCtlReg ctx reg (some old)).Issues K.permits := by
  by_cases hf : canRead ctx = false ∨ reg.id = 0x1A
  · obtain ⟨status, -, he⟩ := readCtlReg_fails old hf
    rw [he]
    exact trivial
  · simp only [not_or, Bool.not_eq_false] at hf
    rw [readCtlReg_eq old hf.1 hf.2]
    refine ⟨trivial, fun bank => ⟨trivial, fun _ => ⟨⟨_, [], rfl, Or.inl ⟨rfl, h⟩⟩, fun _ => ?_⟩⟩⟩
    change (if privEnc28IsMacOrMiiReg bank reg.id = true then _ else _ : Driver _).Issues K.permits
    split_ifs
    · exact ⟨trivial, fun _ => ⟨trivial, fun _ => trivial⟩⟩
    · exact ⟨trivial, fun _ => ⟨trivial, fun _ => trivial⟩⟩

theorem sends_nss (level : Byte) {k : Unit → Driver α} (hk : ∀ r, Sends K (k r)) :
    Sends K ((nssPinOp level).bind k) := .call trivial rfl hk

theorem sends_wait (ns : ℕ) {k : Unit → Driver α} (hk : ∀ r, Sends K (k r)) :
    Sends K ((waitNano ns).bind k) := .call trivial rfl hk

theorem sends_writeCtlReg (h : reg ∈ K.writes) (regValue : Byte) :
    Sends K (enc28DoWriteCtlReg ctx reg regValue) := by
  by_cases hf : canWrite ctx = false ∨ reg.id = 0x1A
  · obtain ⟨status, -, he⟩ := writeCtlReg_fails regValue hf
    rw [he]
    exact sends_ret _
  · simp only [not_or, Bool.not_eq_false] at hf
    rw [writeCtlReg_eq regValue hf.1 hf.2, writeTransaction, word_high, word_low]
    refine sends_nss 0 fun _ => sends_wait 50 fun _ => .call ⟨_, _, rfl, Or.inr (Or.inl ⟨rfl, h⟩)⟩
      (isReadCommand_other (by decide) (by decide) reg _) fun _ => ?_
    exact sends_wait 210 fun _ => sends_nss 1 fun _ => sends_ret _

theorem sends_bitsCtlReg {op : Byte} (hop : op = opBfs ∨ op = opBfc) (h : reg ∈ K.bits) (mask : Byte) :
    Sends K (doBitsCtlReg (prepareCtlReg op) ctx reg mask) := by
  have hother : isReadCommand (.spiOutOp (some reg) [commandByte op reg.id, mask]) = false := by
    rcases hop with rfl | rfl
    · exact isReadCommand_other (by decide) (by decide) reg _
    · exact isReadCommand_other (by decide) (by decide) reg _
  by_cases hf : canRead ctx = false ∨ reg.id = 0x1A
  · obtain ⟨status, -, he⟩ := bitsCtlReg_fails op mask hf
    rw [he]
    exact sends_ret _
  · simp only [not_or, Bool.not_eq_false] at hf
    rw [bitsCtlReg_eq op mask hf.1 hf.2, bitsTransaction, word_high, word_low]
    exact sends_nss 0 fun _ => .call ⟨_, _, rfl, Or.inr (Or.inr ⟨hop, h⟩)⟩ hother fun _ =>
      sends_nss 1 fun _ => sends_ret _

theorem sends_setBits (h : reg ∈ K.bits) (mask : Byte) :
    Sends K (enc28DoSetBitsCtlReg ctx reg mask) :=
  sends_bitsCtlReg (Or.inl rfl) h mask

theorem sends_clearBits (h : reg ∈ K.bits) (mask : Byte) :
    Sends K (enc28DoClearBitsCtlReg ctx reg mask) :=
  sends_bitsCtlReg (Or.inr rfl) h mask

theorem sends_select (hr : .econ1 ∈ K.reads) (hw : .econ1 ∈ K.writes) (bankId : Byte) :
    Sends K (enc28SelectRegisterBank ctx bankId) := by
  unfold enc28SelectRegisterBank
  simp only [bind_eq, pure_eq]
  split_ifs
  · exact sends_ret _
  · refine sends_seq (sends_readCtlReg hr _) fun r => sends_onOk ?_ (sends_ret _)
    refine sends_seq (sends_writeCtlReg hw _) fun status => sends_onOk ?_ (sends_ret _)
    exact .call trivial rfl fun _ => sends_ret _

end

def phyCommands : Commands where
  reads := [.econ1, .mistat, .mirdl, .mirdh]
  writes := [.econ1, .miregadr, .micmd]
  bits := []
  transmits := false
  resets := false

def initCommands : Commands where
  reads := [.econ1, .estat, .mistat, .mirdl, .mirdh]
  writes := [.econ1, .erxstl, .erxsth, .erxndl, .erxndh, .erxrdptl, .erxrdpth, .erxfcon, .miregadr,
    .micmd, .mamxfll, .mamxflh, .mabbipg, .maipgl, .maipgh, .macAdd1, .macAdd2, .macAdd3, .macAdd4,
    .macAdd5, .macAdd6]
  bits := [.macon1, .macon3, .macon4]
  transmits := false
  resets := false

/-- The commands of `enc28_do_init` before it polls the clock. -/
def setupCommands : Commands := { initCommands with reads := [.econ1], bits := [] }

def readHwRevCommands : Commands := { phyCommands with reads := .erevid :: phyCommands.reads }

def readMacCommands : Commands where
  reads := [.econ1, .macAdd1, .macAdd2, .macAdd3, .macAdd4, .macAdd5, .macAdd6]
  writes := [.econ1]
  bits := []
  transmits := false
  resets := false

def receiveCommands : Commands where
  reads := [.eir, .econ1, .erdptl, .erdpth]
  writes := [.econ1, .erdptl, .erdpth, .erxrdptl, .erxrdpth]
  bits := [.eir, .econ2]
  transmits := false
  resets := false

/-- The commands of `enc28_read_packet` behind its look at EIR. -/
def pendingCommands : Commands := { receiveCommands with reads := [.econ1, .erdptl, .erdpth] }

/-- The commands of `enc28_check_outgoing_packet_status` behind its look at EIR. -/
def vectorCommands : Commands where
  reads := [.estat, .econ1, .erdptl, .erdpth, .etxndl, .etxndh]
  writes := [.econ1, .erdptl, .erdpth]
  bits := []
  transmits := false
  resets := false

def transmitCommands : Commands where
  reads := [.econ1]
  writes := [.econ1, .etxstl, .etxsth, .ewrptl, .ewrpth, .etxndl, .etxndh]
  bits := [.eir, .econ1]
  transmits := true
  resets := false

/-- The commands of each public function. -/
def commandsOf : DriverOp → Commands
  | .softReset => ⟨[], [], [], false, true⟩
  | .init _ => initCommands
  | .readHwRev _ => readHwRevCommands
  | .readMac _ => readMacCommands
  | .readPhyRegister _ _ => phyCommands
  | .readCtlReg regId _ => ⟨[.raw regId], [], [], false, false⟩
  | .writeCtlReg regId _ => ⟨[], [.raw regId], [], false, false⟩
  | .setBitsCtlReg regId _ | .clearBitsCtlReg regId _ => ⟨[], [], [.raw regId], false, false⟩
  | .selectRegisterBank _ => ⟨[.econ1], [.econ1], [], false, false⟩
  | .beginPacketTransfer =>
    ⟨[.econ1], [.econ1, .erdptl, .erdpth], [.eie, .eir, .econ2, .econ1], false, false⟩
  | .readPacket _ _ _ => receiveCommands
  | .writePacket _ _ => transmitCommands
  | .checkOutgoingPacketStatus =>
    ⟨[.eir, .estat, .econ1, .erdptl, .erdpth, .etxndl, .etxndh], [.econ1, .erdptl, .erdpth], [],
      false, false⟩
  | .endPacketTransfer => ⟨[.econ1], [.econ1], [.econ1], false, false⟩

section
variable {K : Commands} {ctx : Option SpiContext}

theorem sends_pollMistat (h : .mistat ∈ K.reads) (rounds : ℕ) : Sends K (pollMistat ctx rounds) := by
  induction rounds with
  | zero => exact .spin
  | succ rounds ih =>
    simp only [pollMistat, bind_eq, pure_eq]
    refine sends_seq (sends_readCtlReg h _) fun r => sends_onOk ?_ (sends_ret _)
    split_ifs
    · exact sends_wait 1 fun _ => ih
    · exact sends_ret _

theorem sends_phyRead (rounds : ℕ) (regId : Byte) (regValue : Word) :
    Sends phyCommands (enc28DoReadPhyRegister rounds ctx regId regValue) := by
  have command : Sends phyCommands (phyReadCommand rounds ctx regId) := by
    refine sends_exit (sends_select (by decide) (by decide) _) <|
      sends_exit (sends_writeCtlReg (by decide) _) <| sends_exit (sends_writeCtlReg (by decide) _)
        (sends_wait _ fun _ => ?_)
    exact sends_exit (sends_select (by decide) (by decide) _) <|
      sends_exit (sends_pollMistat (by decide) rounds) <|
      sends_exit (sends_select (by decide) (by decide) _) (sends_writeCtlReg (by decide) _)
  unfold enc28DoReadPhyRegister
  split_ifs
  · exact sends_ret _
  · cases ctx with
    | none => exact sends_ret _
    | some c =>
      simp only [bind_eq, pure_eq]
      split_ifs
      · exact sends_ret _
      · refine sends_seq command fun status => sends_onOk ?_ (sends_ret _)
        refine sends_seq (sends_readCtlReg (by decide) _) fun lo => sends_onOk ?_ (sends_ret _)
        exact sends_seq (sends_readCtlReg (by decide) _) fun hi => sends_onOk (sends_ret _) (sends_ret _)

theorem sends_pollEstatClk (h : .estat ∈ K.reads) (rounds : ℕ) (status : CommandStatus)
    (regValue : Byte) : Sends K (pollEstatClk ctx rounds status regValue) := by
  induction rounds generalizing status regValue with
  | zero => exact .spin
  | succ rounds ih =>
    unfold pollEstatClk
    split_ifs
    · exact sends_ret _
    · exact sends_seq (sends_readCtlReg h _) fun r => ih r.1 r.2
    · exact sends_ret _

theorem sends_doPollEstatClk (h : .estat ∈ K.reads) (rounds : ℕ) :
    Sends K (privEnc28DoPollEstatClk rounds ctx) :=
  sends_seq (sends_readCtlReg h _) fun r => sends_pollEstatClk h rounds r.1 r.2

theorem sends_bufferRegisterInit (cfg : Conf) :
    Sends setupCommands (privEnc28DoBufferRegisterInit cfg ctx) :=
  sends_seq (sends_select (by decide) (by decide) _) fun _ =>
    sends_exit (sends_writeCtlReg (by decide) _) <| sends_exit (sends_writeCtlReg (by decide) _) <|
    sends_exit (sends_writeCtlReg (by decide) _) <| sends_exit (sends_writeCtlReg (by decide) _) <|
    sends_exit (sends_writeCtlReg (by decide) _) (sends_writeCtlReg (by decide) _)

theorem sends_receiveFilterInit (cfg : Conf) : Sends setupCommands (privEnc28DoReceiveFilterInit cfg ctx) :=
  sends_exit (sends_select (by decide) (by decide) _) (sends_writeCtlReg (by decide) _)

theorem sends_macInitDuplex (cfg : Conf) (macAdd : MacAddress) (isFullDuplex : Bool) :
    Sends initCommands (macInitDuplex cfg macAdd ctx isFullDuplex) := by
  have address : Sends initCommands (writeMacAddress macAdd ctx) :=
    sends_exit (sends_select (by decide) (by decide) _) <| sends_exit (sends_writeCtlReg (by decide) _) <|
    sends_exit (sends_writeCtlReg (by decide) _) <| sends_exit (sends_writeCtlReg (by decide) _) <|
    sends_exit (sends_writeCtlReg (by decide) _) <| sends_exit (sends_writeCtlReg (by decide) _) <|
    sends_exit (sends_writeCtlReg (by decide) _) (sends_select (by decide) (by decide) _)
  have gap : Sends initCommands (if isFullDuplex then .ret .ok
      else enc28DoWriteCtlReg ctx .maipgh (BitVec.ofNat 8 cfg.maipghBits)) := by
    split_ifs
    · exact sends_ret _
    · exact sends_writeCtlReg (by decide) _
  exact sends_exit (sends_setBits (by decide) _) <| sends_exit (sends_setBits (by decide) _) <|
    sends_exit (sends_writeCtlReg (by decide) _) <| sends_exit (sends_writeCtlReg (by decide) _) <|
    sends_exit (sends_writeCtlReg (by decide) _) <| sends_exit (sends_writeCtlReg (by decide) _) <|
    sends_exit gap address

theorem sends_init (cfg : Conf) (rounds : ℕ) (macAdd : MacAddress) :
    Sends initCommands (enc28DoInit cfg rounds macAdd ctx) := by
  have mac : Sends initCommands (privEnc28DoMacInit cfg rounds macAdd ctx) := by
    refine sends_exit (sends_select (by decide) (by decide) _) <|
      sends_exit (sends_setBits (by decide) _) ?_
    refine sends_seq ((sends_phyRead rounds _ _).within ?_) fun r =>
      sends_onOk (sends_macInitDuplex cfg macAdd _) (sends_ret _)
    exact ⟨by decide, by decide, by decide, by decide, by decide⟩
  have setup : setupCommands.Within initCommands := ⟨by decide, by decide, by decide, by decide, by decide⟩
  exact sends_exit ((sends_bufferRegisterInit cfg).within setup) <|
    sends_exit ((sends_receiveFilterInit cfg).within setup) <|
    sends_exit (sends_doPollEstatClk (by decide) rounds) <| sends_exit mac (sends_ret _)

end

section
variable {ctx : Option SpiContext}

theorem sends_readHwRev (rounds : ℕ) (hwRev : Option HwRev) :
    Sends readHwRevCommands (enc28DoReadHwRev rounds ctx hwRev) := by
  have hphy : phyCommands.Within readHwRevCommands :=
    ⟨by decide, by decide, by decide, by decide, by decide⟩
  cases hwRev with
  | none => exact sends_ret _
  | some rev =>
    refine sends_seq ((sends_phyRead rounds _ _).within hphy) fun r => sends_onOk ?_ (sends_ret _)
    refine sends_seq ((sends_phyRead rounds _ _).within hphy) fun r => sends_onOk ?_ (sends_ret _)
    refine sends_seq (sends_select (by decide) (by decide) _) fun status => sends_onOk ?_ (sends_ret _)
    exact sends_seq (sends_readCtlReg (by decide) _) fun r => sends_ret _

theorem sends_readMac (mac : MacAddress) :
    Sends readMacCommands (enc28DoReadMac ctx mac) := by
  have bytes : ∀ (l : List (CtlReg × Fin 6)) (mac : MacAddress),
      (∀ x ∈ l, x.1 ∈ readMacCommands.reads) → Sends readMacCommands (readMacBytes ctx l mac) := by
    intro l
    induction l with
    | nil => exact fun mac _ => sends_ret _
    | cons x rest ih =>
      intro mac h
      refine sends_seq (sends_readCtlReg (h x List.mem_cons_self) _) fun r => sends_onOk ?_ (sends_ret _)
      exact ih _ fun y hy => h y (List.mem_cons_of_mem _ hy)
  exact sends_seq (sends_select List.mem_cons_self List.mem_cons_self _) fun status =>
    sends_onOk (bytes _ mac (by decide)) (sends_ret _)

theorem sends_readPacketPending (cfg : Conf) (packetBuf : List Byte) (bufSize : Word)
    (optStatusVec : Option ReceiveStatusVector) (val : Byte) :
    Sends pendingCommands (readPacketPending cfg ctx packetBuf bufSize optStatusVec val) := by
  have release : ∀ lo hi, Sends pendingCommands (releasePacket cfg ctx lo hi) := fun lo hi =>
    sends_exit (sends_writeCtlReg (by decide) _) <| sends_exit (sends_writeCtlReg (by decide) _) <|
    sends_exit (sends_writeCtlReg (by decide) _) <| sends_exit (sends_writeCtlReg (by decide) _)
      (sends_setBits (by decide) _)
  have body : ∀ hdr, Sends pendingCommands
      (readPacketBody cfg ctx packetBuf bufSize optStatusVec hdr) := by
    intro hdr
    unfold readPacketBody
    simp only [bind_eq, pure_eq]
    split_ifs
    · exact sends_ret _
    · exact sends_ret _
    · refine sends_nss 0 fun _ => .call (Or.inl rfl) rfl fun _ => .call trivial rfl fun packet =>
        sends_nss 1 fun _ => ?_
      change Sends pendingCommands ((releasePacket cfg ctx (hdr 1) (hdr 2)).bind _)
      exact sends_seq (release _ _) fun _ => sends_ret _
  unfold readPacketPending
  simp only [bind_eq, pure_eq]
  refine sends_seq (sends_select (by decide) (by decide) _) fun status => sends_onOk ?_ (sends_ret _)
  refine sends_seq (sends_readCtlReg (by decide) _) fun lo => ?_
  refine sends_seq (sends_readCtlReg (by decide) _) fun hi => ?_
  split_ifs
  · exact sends_ret _
  · exact sends_nss 0 fun _ => .call ⟨_, rfl⟩ rfl fun hdr => sends_nss 1 fun _ => body hdr

theorem sends_rxErrorRecovery (cfg : Conf) : Sends pendingCommands (rxErrorRecovery cfg ctx) :=
  sends_exit (sends_select (by decide) (by decide) _) <| sends_exit (sends_writeCtlReg (by decide) _) <|
  sends_exit (sends_writeCtlReg (by decide) _) <| sends_exit (sends_clearBits (by decide) _) (sends_ret _)

theorem sends_readPacket (cfg : Conf) (packetBuf : List Byte) (bufSize : Word)
    (optStatusVec : Option ReceiveStatusVector) :
    Sends receiveCommands
      (enc28ReadPacket cfg ctx packetBuf bufSize optStatusVec) := by
  have within : pendingCommands.Within receiveCommands :=
    ⟨by decide, by decide, by decide, by decide, by decide⟩
  unfold enc28ReadPacket
  simp only [bind_eq, pure_eq]
  refine sends_seq (sends_readCtlReg (by decide) _) fun r => sends_onOk ?_ (sends_ret _)
  split_ifs
  · exact (sends_readPacketPending cfg packetBuf bufSize optStatusVec r.2).within within
  · exact sends_seq ((sends_rxErrorRecovery cfg).within within) fun _ => sends_ret _
  · exact sends_ret _

theorem sends_transmitPacket (cfg : Conf) (packetBuf : List Byte) (bufSize : Word) :
    Sends transmitCommands (transmitPacket cfg ctx packetBuf bufSize) := by
  refine sends_exit (sends_select (by decide) (by decide) _) <|
    sends_exit (sends_writeCtlReg (by decide) _) <| sends_exit (sends_writeCtlReg (by decide) _) <|
    sends_exit (sends_writeCtlReg (by decide) _) <| sends_exit (sends_writeCtlReg (by decide) _)
      (sends_nss 0 fun _ => .call (Or.inr (Or.inr rfl)) rfl fun _ => .call (Or.inr (Or.inr rfl)) rfl
        fun _ => sends_nss 1 fun _ => ?_)
  exact sends_exit (sends_writeCtlReg (by decide) _) <| sends_exit (sends_writeCtlReg (by decide) _) <|
    sends_exit (sends_clearBits (by decide) _) <| sends_exit (sends_setBits (by decide) _) <|
    sends_exit (sends_clearBits (by decide) _) (sends_setBits (by decide) _)

theorem sends_writePacket (cfg : Conf) (packetBuf : Option (List Byte)) (bufSize : Word) :
    Sends transmitCommands (enc28WritePacket cfg ctx packetBuf bufSize) := by
  match ctx, packetBuf with
  | none, _ => exact sends_ret _
  | some _, none => exact sends_ret _
  | some c, some packet =>
    unfold enc28WritePacket
    simp only [bind_eq, pure_eq]
    split_ifs
    · exact sends_ret _
    · refine sends_seq (sends_readCtlReg (by decide) _) fun r => sends_onOk ?_ (sends_ret _)
      split_ifs
      · exact sends_ret _
      · exact sends_transmitPacket cfg packet bufSize

theorem sends_readTransmitStatusVector : Sends vectorCommands (readTransmitStatusVector ctx) := by
  refine sends_exit (sends_select (by decide) (by decide) _) ?_
  refine sends_seq (sends_readCtlReg (by decide) _) fun lo => sends_onOk ?_ (sends_ret _)
  refine sends_seq (sends_readCtlReg (by decide) _) fun hi => sends_onOk ?_ (sends_ret _)
  refine sends_seq (sends_readCtlReg (by decide) _) fun endLo => sends_onOk ?_ (sends_ret _)
  refine sends_seq (sends_readCtlReg (by decide) _) fun endHi => sends_onOk ?_ (sends_ret _)
  refine sends_exit (sends_writeCtlReg (by decide) _) <| sends_exit (sends_writeCtlReg (by decide) _)
    (sends_nss 0 fun _ => .call ⟨_, rfl⟩ rfl fun _ => sends_nss 1 fun _ => ?_)
  exact sends_exit (sends_writeCtlReg (by decide) _) (sends_writeCtlReg (by decide) _)

theorem sends_checkOutgoingPacketStatus :
    Sends (commandsOf .checkOutgoingPacketStatus) (enc28CheckOutgoingPacketStatus ctx) := by
  have within : vectorCommands.Within (commandsOf .checkOutgoingPacketStatus) :=
    ⟨by decide, by decide, by decide, by decide, by decide⟩
  unfold enc28CheckOutgoingPacketStatus
  simp only [bind_eq, pure_eq]
  refine sends_seq (sends_readCtlReg (by decide) _) fun eir => sends_onOk ?_ (sends_ret _)
  split_ifs
  · refine sends_seq (sends_readCtlReg (by decide) _) fun estat => sends_onOk ?_ (sends_ret _)
    refine sends_exit (sends_readTransmitStatusVector.within within) ?_
    split_ifs
    · exact sends_ret _
    · exact sends_ret _
  · exact sends_ret _

theorem sends_beginPacketTransfer (cfg : Conf) :
    Sends (commandsOf .beginPacketTransfer) (enc28BeginPacketTransfer cfg ctx) :=
  sends_exit (sends_select (by decide) (by decide) _) <|
    sends_exit (sends_writeCtlReg (by decide) _) <| sends_exit (sends_writeCtlReg (by decide) _) <|
    sends_exit (sends_setBits (by decide) _) <| sends_exit (sends_clearBits (by decide) _) <|
    sends_exit (sends_setBits (by decide) _) (sends_setBits (by decide) _)

theorem sends_softReset : Sends (commandsOf .softReset) (enc28DoSoftReset ctx) := by
  cases ctx with
  | none => exact sends_ret _
  | some c =>
    unfold enc28DoSoftReset
    simp only [bind_eq, pure_eq]
    split_ifs
    · exact sends_ret _
    · exact sends_nss 0 fun _ => .call (Or.inr (Or.inl ⟨rfl, rfl⟩)) rfl fun _ =>
        sends_nss 1 fun _ => sends_ret _

end

theorem call_sends (cfg : Conf) (c : DriverCall) : Sends (commandsOf c.op) (c.prog cfg) := by
  obtain ⟨ctx, rounds, op⟩ := c
  cases op with
  | softReset => exact sends_seq sends_softReset fun _ => sends_ret _
  | init macAdd => exact sends_seq (sends_init cfg rounds macAdd) fun _ => sends_ret _
  | readHwRev hwRev => exact sends_seq (sends_readHwRev rounds hwRev) fun _ => sends_ret _
  | readMac mac => exact sends_seq (sends_readMac mac) fun _ => sends_ret _
  | readPhyRegister regId regValue => exact sends_seq (sends_phyRead rounds regId regValue) fun _ => sends_ret _
  | readCtlReg regId regValue =>
    exact sends_seq (sends_readCtlReg List.mem_cons_self regValue) fun _ => sends_ret _
  | writeCtlReg regId regValue =>
    exact sends_seq (sends_writeCtlReg List.mem_cons_self regValue) fun _ => sends_ret _
  | setBitsCtlReg regId mask =>
    exact sends_seq (sends_setBits List.mem_cons_self mask) fun _ => sends_ret _
  | clearBitsCtlReg regId mask =>
    exact sends_seq (sends_clearBits List.mem_cons_self mask) fun _ => sends_ret _
  | selectRegisterBank bankId =>
    exact sends_seq (sends_select List.mem_cons_self List.mem_cons_self bankId) fun _ => sends_ret _
  | beginPacketTransfer =>
    exact sends_seq (sends_beginPacketTransfer cfg) fun _ => sends_ret _
  | readPacket packetBuf bufSize optStatusVec =>
    exact sends_seq (sends_readPacket cfg packetBuf bufSize optStatusVec) fun _ => sends_ret _
  | writePacket packetBuf bufSize =>
    exact sends_seq (sends_writePacket cfg packetBuf bufSize) fun _ => sends_ret _
  | checkOutgoingPacketStatus =>
    exact sends_seq sends_checkOutgoingPacketStatus fun _ => sends_ret _
  | endPacketTransfer =>
    have hend : Sends (commandsOf .endPacketTransfer) (enc28EndPacketTransfer ctx) :=
      sends_exit (sends_select (by decide) (by decide) _) (sends_clearBits (by decide) _)
    exact sends_seq hend fun _ => sends_ret _

/-- Each call of a run is permitted. -/
theorem Sends.permitted {α σ : Type} {K : Commands} {p : Driver α} {M : Machine Call Call.Reply σ}
    {s v : σ} {t : List (Call × σ)} {o : Option α} (hp : Sends K p) (run : Exec M p s t o v) :
    ∀ x ∈ t, K.permits x.1 := by
  refine run.issues (A := K.permits) ?_
  clear run
  induction hp with
  | ret a => exact trivial
  | spin => exact trivial
  | call permitted _ _ ih => exact ⟨permitted, ih⟩
  | read permitted _ ih => exact issues_seq (readCtlReg_issues permitted _) ih

section
variable {κ : Type} {C : ChipCore κ}

/-- The command byte that a call sends, if the chip waits for one. -/
def commandSent : Call × World κ → Option Byte
  | (.spiOutOp _ buff, w) | (.spiInOutOp buff _, w) => if w.phase = .opcode then buff.head? else none
  | _ => none

/-- A register command is one of those permitted, sent to the bank of its register. -/
theorem command_of_permits {K : Commands} {x : Call × World κ} (hk : K.permits x.1)
    (hg : (bankGuard C).holds x.1 x.2) {cmd : Byte} (hc : commandSent x = some cmd)
    (hop : cmd >>> spiArgBits ∈ [opRcr, opWcr, opBfs, opBfc]) :
    ∃ reg : CtlReg, cmd &&& spiArgMask = reg.addr ∧
      (reg.addr.toNat < 0x1B → reg.bank = some (C.bsel x.2.chip)) ∧
      (cmd >>> spiArgBits = opRcr → reg ∈ K.reads) ∧ (cmd >>> spiArgBits = opWcr → reg ∈ K.writes) ∧
      (cmd >>> spiArgBits = opBfs ∨ cmd >>> spiArgBits = opBfc → reg ∈ K.bits) := by
  obtain ⟨e, w⟩ := x
  have named : ∀ reg buff, (bankGuard C).out reg buff w → (if w.phase = .opcode then buff.head? else none) =
      some cmd → ∃ r, reg = some r ∧ buff.head? = some cmd ∧ cmd &&& spiArgMask = r.addr ∧
        (r.addr.toNat < 0x1B → r.bank = some (C.bsel w.chip)) := by
    intro reg buff hout hsent
    split_ifs at hsent with hp
    obtain ⟨rest, rfl⟩ : ∃ rest, buff = cmd :: rest := List.head?_eq_some_iff.mp hsent
    obtain ⟨r, hr, ha, hb⟩ := hout hp cmd rest rfl hop
    exact ⟨r, hr, hsent, ha, fun h => hb (ha ▸ h)⟩
  cases e with
  | spiOutOp reg buff =>
    obtain ⟨r, rfl, hhead, ha, hb⟩ := named reg buff hg hc
    obtain ⟨op, data, rfl, hcases⟩ := hk
    obtain rfl := Option.some.inj hhead
    have hlt : op.toNat < 8 := by
      rcases hcases with ⟨rfl, -⟩ | ⟨rfl, -⟩ | ⟨rfl | rfl, -⟩ <;> decide
    have hopcode : commandByte op r.id >>> spiArgBits = op := commandByte_opcode op r.id hlt
    refine ⟨r, ha, hb, ?_⟩
    rw [hopcode]
    rcases hcases with ⟨rfl, hr⟩ | ⟨rfl, hr⟩ | ⟨hbits, hr⟩
    · exact ⟨fun _ => hr, fun h => absurd h (by decide), fun h => absurd h (by decide)⟩
    · exact ⟨fun h => absurd h (by decide), fun _ => hr, fun h => absurd h (by decide)⟩
    · rcases hbits with rfl | rfl
      · exact ⟨fun h => absurd h (by decide), fun h => absurd h (by decide), fun _ => hr⟩
      · exact ⟨fun h => absurd h (by decide), fun h => absurd h (by decide), fun _ => hr⟩
  | spiInOutOp tx len =>
    obtain ⟨r, hr, -⟩ := named none tx hg hc
    cases hr
  | nssPinOp | spiInOp | waitNano | loadBank | storeBank => cases hc

end

section
variable {κ : Type} {C : ChipCore κ} {S : Byte → Prop}

/-- The transaction was opened by a command in `S`; an idle clock line sends 0. -/
def OpenedBy (S : Byte → Prop) : SpiPhase → Prop
  | .rcr addr _ =>
    ∃ cmd, (S cmd ∨ cmd = 0) ∧ cmd >>> spiArgBits = opRcr ∧ cmd &&& spiArgMask = addr
  | .wbm => ∃ cmd, S cmd ∧ cmd >>> spiArgBits = opWbm
  | _ => True

theorem decode_opened {w : World κ} {cmd : Byte} (hs : S cmd ∨ cmd = 0) (hw : w.phase = .opcode) :
    OpenedBy S (clockByte C cmd w).2.phase ∧ (clockByte C cmd w).2.phase ≠ .opcode := by
  simp only [clockByte, hw, decode]
  split_ifs with h0 h1 h2 h3 <;> refine ⟨?_, SpiPhase.noConfusion⟩
  · exact ⟨cmd, hs, h0, rfl⟩
  · exact trivial
  · exact trivial
  · refine ⟨cmd, hs.resolve_right fun hz => ?_, h3⟩
    rw [hz] at h3
    exact absurd h3 (by decide)
  all_goals exact trivial

theorem data_opened {w : World κ} (b : Byte) (hw : OpenedBy S w.phase) (hne : w.phase ≠ .opcode) :
    OpenedBy S (clockByte C b w).2.phase ∧ (clockByte C b w).2.phase ≠ .opcode := by
  unfold clockByte
  split
  case h_3 hp => exact absurd hp hne
  case h_4 addr hp =>
    rw [hp] at hw
    exact ⟨hw, SpiPhase.noConfusion⟩
  all_goals
    first
    | exact ⟨hw, hne⟩
    | exact ⟨trivial, SpiPhase.noConfusion⟩

theorem clock_opened {w : World κ} (tx : ℕ → Byte) (n : ℕ) (hw : OpenedBy S w.phase)
    (hs : w.phase = .opcode → 0 < n → S (tx 0) ∨ tx 0 = 0) : OpenedBy S (clock C tx n w).phase := by
  have rest : ∀ n (tx : ℕ → Byte) (w : World κ), OpenedBy S w.phase → w.phase ≠ .opcode →
      OpenedBy S (clock C tx n w).phase := by
    intro n
    induction n with
    | zero => exact fun tx w hw _ => hw
    | succ n ih =>
      intro tx w hw hne
      rw [clock_front]
      obtain ⟨hw', hne'⟩ := data_opened (C := C) (tx 0) hw hne
      exact ih _ _ hw' hne'
  cases n with
  | zero => exact hw
  | succ n =>
    rw [clock_front]
    by_cases hp : w.phase = .opcode
    · obtain ⟨hw', hne'⟩ := decode_opened (C := C) (hs hp (Nat.succ_pos n)) hp
      exact rest n _ _ hw' hne'
    · obtain ⟨hw', hne'⟩ := data_opened (C := C) (tx 0) hw hp
      exact rest n _ _ hw' hne'

theorem step_opened {e : Call} {w u : World κ} {r : e.Reply} (hw : OpenedBy S w.phase)
    (hs : ∀ cmd, commandSent (e, w) = some cmd → S cmd) (step : busMachine C e w r u) :
    OpenedBy S u.phase := by
  have first : ∀ buff : List Byte, (∀ cmd, (if w.phase = .opcode then buff.head? else none) = some cmd →
      S cmd) → w.phase = .opcode → S (bytesOf buff 0) ∨ bytesOf buff 0 = 0 := by
    intro buff hb hp
    cases buff with
    | nil => exact Or.inr rfl
    | cons cmd rest => exact Or.inl (hb cmd (by rw [if_pos hp]; rfl))
  cases e with
  | nssPinOp level =>
    unfold busMachine at step
    dsimp only at step
    split_ifs at step
    · subst step
      exact trivial
    · obtain ⟨c, -, rfl⟩ := step
      exact trivial
  | spiOutOp reg buff =>
    obtain rfl : u = clock C (bytesOf buff) buff.length w := step
    exact clock_opened _ _ hw fun hp _ => first buff hs hp
  | spiInOp len =>
    obtain ⟨-, rfl⟩ : _ ∧ u = clock C (fun _ => 0) len w := step
    exact clock_opened _ _ hw fun _ _ => Or.inr rfl
  | spiInOutOp tx len =>
    obtain ⟨-, rfl⟩ : _ ∧ u = clock C (bytesOf tx) len w := step
    exact clock_opened _ _ hw fun hp _ => first tx hs hp
  | waitNano ns =>
    obtain rfl : u = w := step
    exact hw
  | loadBank =>
    obtain ⟨-, rfl⟩ : _ ∧ u = w := step
    exact hw
  | storeBank bank =>
    obtain rfl : u = { w with currBank := bank } := step
    exact hw

/-- Each transaction of an execution was opened by one of the commands it sent. -/
theorem exec_opened {α : Type} {p : Driver α} {w v : World κ} {t : List (Call × World κ)} {o : Option α}
    (run : Exec (busMachine C) p w t o v) (hw : OpenedBy S w.phase)
    (hs : ∀ x ∈ t, ∀ cmd, commandSent x = some cmd → S cmd) : ∀ x ∈ t, OpenedBy S x.2.phase := by
  induction run with
  | ret a s => exact fun x hx => absurd hx List.not_mem_nil
  | spin s => exact fun x hx => absurd hx List.not_mem_nil
  | call step tail ih =>
    intro x hx
    have hu := step_opened hw (hs _ List.mem_cons_self) step
    rcases List.mem_cons.mp hx with rfl | hx
    · exact hw
    · exact ih hu (fun y hy => hs y (List.mem_cons_of_mem _ hy)) x hx

end

section
variable {κ : Type} (C : ChipCore κ)

/-- The states in which the bytes of a call are clocked. -/
def clockedIn : Call × World κ → List (World κ)
  | (.spiOutOp _ buff, w) => (List.range buff.length).map fun i => clock C (bytesOf buff) i w
  | (.spiInOp len, w) => (List.range len).map fun i => clock C (fun _ => 0) i w
  | (.spiInOutOp tx len, w) => (List.range len).map fun i => clock C (bytesOf tx) i w
  | _ => []

variable {C}

theorem clockedIn_opened {S : Byte → Prop} {x : Call × World κ} (hw : OpenedBy S x.2.phase)
    (hs : ∀ cmd, commandSent x = some cmd → S cmd) : ∀ v ∈ clockedIn C x, OpenedBy S v.phase := by
  have first : ∀ buff : List Byte,
      (∀ cmd, (if x.2.phase = .opcode then buff.head? else none) = some cmd → S cmd) →
      x.2.phase = .opcode → S (bytesOf buff 0) ∨ bytesOf buff 0 = 0 := by
    intro buff hb hp
    cases buff with
    | nil => exact Or.inr rfl
    | cons cmd rest => exact Or.inl (hb cmd (by rw [if_pos hp]; rfl))
  obtain ⟨e, w⟩ := x
  intro v hv
  cases e with
  | spiOutOp reg buff =>
    obtain ⟨i, -, rfl⟩ := List.mem_map.mp hv
    exact clock_opened _ i hw fun hp _ => first buff hs hp
  | spiInOp len =>
    obtain ⟨i, -, rfl⟩ := List.mem_map.mp hv
    exact clock_opened _ i hw fun _ _ => Or.inr rfl
  | spiInOutOp tx len =>
    obtain ⟨i, -, rfl⟩ := List.mem_map.mp hv
    exact clock_opened _ i hw fun hp _ => first tx hs hp
  | nssPinOp | waitNano | loadBank | storeBank => exact absurd hv List.not_mem_nil

end

section
variable {ctx : Option SpiContext} {reg : CtlReg}

theorem readCtlReg_ok (hc : canRead ctx = true) (hr : reg.id ≠ 0x1A) (old : Byte) :
    (enc28DoReadCtlReg ctx reg (some old)).Returns (·.1 = .ok) := by
  rw [readCtlReg_eq old hc hr]
  simp only [readTransaction, bind_eq, pure_eq]
  refine returns_rest _ fun bank => returns_rest _ fun _ => returns_rest _ fun _ => ?_
  split_ifs
  · exact returns_rest _ fun _ => returns_rest _ fun _ => rfl
  · exact returns_rest _ fun _ => returns_rest _ fun _ => rfl

theorem writeCtlReg_ok (hc : canWrite ctx = true) (hr : reg.id ≠ 0x1A) (value : Byte) :
    (enc28DoWriteCtlReg ctx reg value).Returns (· = .ok) := by
  rw [writeCtlReg_eq value hc hr]
  exact returns_rest _ fun _ => returns_rest _ fun _ => returns_rest _ fun _ => returns_rest _ fun _ =>
    returns_rest _ fun _ => rfl

theorem bitsCtlReg_ok (op mask : Byte) (hc : canRead ctx = true) (hr : reg.id ≠ 0x1A) :
    (doBitsCtlReg (prepareCtlReg op) ctx reg mask).Returns (· = .ok) := by
  rw [bitsCtlReg_eq op mask hc hr]
  exact returns_rest _ fun _ => returns_rest _ fun _ => returns_rest _ fun _ => rfl

theorem exit_ok {p k : Driver CommandStatus} (hp : p.Returns (· = .ok)) (hk : k.Returns (· = .ok)) :
    (exitIfErr p k).Returns (· = .ok) :=
  returns_bind hp fun status hs => by
    rw [if_pos hs]
    exact hk

theorem select_ok (hc : canWrite ctx = true) {b : Byte} (hb : b.toNat < 4) :
    (enc28SelectRegisterBank ctx b).Returns (· = .ok) := by
  unfold enc28SelectRegisterBank
  rw [if_neg (by omega)]
  simp only [bind_eq, pure_eq]
  refine returns_bind (readCtlReg_ok (canRead_of_canWrite hc) (by decide) 0) fun r hr => ?_
  rw [if_pos hr]
  refine returns_bind (writeCtlReg_ok hc (by decide) _) fun status hs => ?_
  rw [if_pos hs]
  exact returns_rest _ fun _ => rfl

theorem transmitPacket_ok (hc : canWrite ctx = true) (cfg : Conf) (packetBuf : List Byte) (bufSize : Word) :
    (transmitPacket cfg ctx packetBuf bufSize).Returns (· = .ok) := by
  have hr : canRead ctx = true := canRead_of_canWrite hc
  refine exit_ok (select_ok hc (by decide)) <| exit_ok (writeCtlReg_ok hc (by decide) _) <|
    exit_ok (writeCtlReg_ok hc (by decide) _) <| exit_ok (writeCtlReg_ok hc (by decide) _) <|
    exit_ok (writeCtlReg_ok hc (by decide) _) <| returns_rest _ fun _ => returns_rest _ fun _ =>
    returns_rest _ fun _ => returns_rest _ fun _ => ?_
  exact exit_ok (writeCtlReg_ok hc (by decide) _) <| exit_ok (writeCtlReg_ok hc (by decide) _) <|
    exit_ok (bitsCtlReg_ok _ _ hr (by decide)) <| exit_ok (bitsCtlReg_ok _ _ hr (by decide)) <|
    exit_ok (bitsCtlReg_ok _ _ hr (by decide)) <| bitsCtlReg_ok _ _ hr (by decide)

theorem bufferRegisterInit_ok (hc : canWrite ctx = true) (cfg : Conf) :
    (privEnc28DoBufferRegisterInit cfg ctx).Returns (· = .ok) :=
  returns_rest _ fun _ => exit_ok (writeCtlReg_ok hc (by decide) _) <|
    exit_ok (writeCtlReg_ok hc (by decide) _) <| exit_ok (writeCtlReg_ok hc (by decide) _) <|
    exit_ok (writeCtlReg_ok hc (by decide) _) <| exit_ok (writeCtlReg_ok hc (by decide) _)
      (writeCtlReg_ok hc (by decide) _)

/-- Without the callbacks the first write ends it, whatever the bank switch did. -/
theorem bufferRegisterInit_refused (hc : canWrite ctx = false) (cfg : Conf) :
    (privEnc28DoBufferRegisterInit cfg ctx).Returns (· ≠ .ok) := by
  refine returns_rest _ fun _ => ?_
  obtain ⟨status, hs, he⟩ : ∃ status, status ≠ .ok ∧
      enc28DoWriteCtlReg ctx .erxstl (lowByte cfg.rxAddressStart) = .ret status :=
    writeCtlReg_fails _ (Or.inl hc)
  rw [he]
  simp only [exitIfErr, bind_eq, ret_bind, if_neg hs]
  exact hs

theorem init_refused (hc : canWrite ctx = false) (cfg : Conf) (rounds : ℕ) (macAdd : MacAddress) :
    (enc28DoInit cfg rounds macAdd ctx).Returns (· ≠ .ok) :=
  returns_bind (bufferRegisterInit_refused hc cfg) fun status hs => by
    rw [if_neg hs]
    exact hs

theorem receiveFilterInit_ok (hc : canWrite ctx = true) (cfg : Conf) :
    (privEnc28DoReceiveFilterInit cfg ctx).Returns (· = .ok) :=
  exit_ok (select_ok hc (by decide)) (writeCtlReg_ok hc (by decide) _)

/-- The poll of ESTAT hides the error that ends it. -/
theorem doPollEstatClk_ok (rounds : ℕ) : (privEnc28DoPollEstatClk rounds ctx).Returns (· = .ok) := by
  refine returns_rest _ fun r => ?_
  obtain ⟨status, regValue⟩ := r
  change (pollEstatClk ctx rounds status regValue).Returns _
  induction rounds generalizing status regValue with
  | zero => exact trivial
  | succ rounds ih =>
    unfold pollEstatClk
    split_ifs
    · rfl
    · exact returns_rest _ fun r => ih r.1 r.2
    · rfl

/-- What follows an `EXIT_IF_ERR` runs, unless there was an error. -/
theorem of_exit {σ : Type} {M : Machine Call Call.Reply σ} {p k : Driver CommandStatus} {s v : σ}
    {t : List (Call × σ)} {status : CommandStatus}
    (run : Exec M (exitIfErr p k) s t (some status) v) :
    (∃ u t₁ t₂, Exec M p s t₁ (some .ok) u ∧ Exec M k u t₂ (some status) v ∧ t = t₁ ++ t₂) ∨
      status ≠ .ok ∧ Exec M p s t (some status) v := by
  obtain ⟨a, u, t₁, t₂, hp, hk, rfl⟩ := run.of_bind
  by_cases ha : a = .ok
  · subst ha
    exact Or.inl ⟨u, t₁, t₂, hp, hk, rfl⟩
  · rw [if_neg ha] at hk
    cases hk
    exact Or.inr ⟨ha, by simpa using hp⟩

/-- A first part that returns no error is cut off, or the second part runs. -/
theorem exit_split {σ : Type} {M : Machine Call Call.Reply σ} {p k : Driver CommandStatus} {s v : σ}
    {t : List (Call × σ)} {o : Option CommandStatus} (hp : p.Returns (· = .ok))
    (run : Exec M (exitIfErr p k) s t o v) :
    (o = none ∧ Exec M p s t none v) ∨
      ∃ u t₁ t₂, Exec M p s t₁ (some .ok) u ∧ Exec M k u t₂ o v ∧ t = t₁ ++ t₂ := by
  rcases run.split with hcut | ⟨a, u, t₁, t₂, h₁, h₂, ht⟩
  · exact Or.inl hcut
  · obtain rfl : a = .ok := h₁.returns hp
    exact Or.inr ⟨u, t₁, t₂, h₁, h₂, ht⟩

theorem of_exit_ok {σ : Type} {M : Machine Call Call.Reply σ} {p k : Driver CommandStatus} {s v : σ}
    {t : List (Call × σ)} {status : CommandStatus} (hp : p.Returns (· = .ok))
    (run : Exec M (exitIfErr p k) s t (some status) v) :
    ∃ u t₁ t₂, Exec M p s t₁ (some .ok) u ∧ Exec M k u t₂ (some status) v ∧ t = t₁ ++ t₂ := by
  rcases exit_split hp run with ⟨ho, -⟩ | h
  · cases ho
  · exact h

end

end Stm32NetworkStack.DriverCommands
