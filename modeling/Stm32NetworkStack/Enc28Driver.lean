import Mathlib.Data.Int.Notation
import Mathlib.Logic.Function.Basic
import Stm32NetworkStack.InteractivePrograms
import Stm32NetworkStack.Enc28Registers

set_option autoImplicit false

/-!
# The ENC28J60 driver

`enc28j60.c` as programs over the five callbacks of `ENC28_SPI_Context` and the
static variable `priv_enc28_curr_bank`. A pointer argument is `none` for NULL
and otherwise holds what it points to; its content after the call is part of
the result. The two polling loops take the number of rounds they may run.
-/
namespace Stm32NetworkStack.Enc28Driver
open InteractivePrograms Enc28Registers

structure SpiContext where
  nssPinOp : Bool
  spiOutOp : Bool
  spiInOp : Bool
  spiInOutOp : Bool
  waitNano : Bool
  deriving DecidableEq, Repr

def fullContext : SpiContext := ⟨true, true, true, true, true⟩

/-- The callbacks, and the two accesses to `priv_enc28_curr_bank`. A register
command carries the macro the code names; no device looks at it. -/
inductive Call
  | nssPinOp (level : Byte)
  | spiOutOp (reg : Option CtlReg) (buff : List Byte)
  | spiInOp (len : ℕ)
  | spiInOutOp (tx : List Byte) (len : ℕ)
  | waitNano (ns : ℕ)
  | loadBank
  | storeBank (bank : Byte)
  deriving DecidableEq, Repr

@[reducible] def Call.Reply : Call → Type
  | .spiInOp len => Fin len → Byte
  | .spiInOutOp _ len => Fin len → Byte
  | .loadBank => Byte
  | _ => Unit

abbrev Driver (α : Type) := Prog Call Call.Reply α

def nssPinOp (level : Byte) : Driver Unit := .call (.nssPinOp level) .ret
def spiOutOp (reg : Option CtlReg) (buff : List Byte) : Driver Unit := .call (.spiOutOp reg buff) .ret
def spiInOp (len : ℕ) : Driver (Fin len → Byte) := .call (.spiInOp len) .ret
def spiInOutOp (tx : List Byte) (len : ℕ) : Driver (Fin len → Byte) := .call (.spiInOutOp tx len) .ret
def waitNano (ns : ℕ) : Driver Unit := .call (.waitNano ns) .ret
def loadBank : Driver Byte := .call .loadBank .ret
def storeBank (bank : Byte) : Driver Unit := .call (.storeBank bank) .ret

/-- `EXIT_IF_ERR` after a call that is followed by `k`. -/
def exitIfErr (p k : Driver CommandStatus) : Driver CommandStatus := do
  let status ← p
  if status = .ok then k else return status

def privEnc28IsPhyReg (regId : Byte) : Bool :=
  regId ≤ 0x03 || (0x10 ≤ regId && regId ≤ 0x14)

def privEnc28IsMacOrMiiReg (currBank regId : Byte) : Bool :=
  if currBank = 2 then
    regId == CtlReg.macon1.id || regId == CtlReg.macon3.id || regId == CtlReg.macon4.id ||
    regId == CtlReg.mabbipg.id || regId == CtlReg.maipgl.id || regId == CtlReg.maipgh.id ||
    regId == CtlReg.maclcon1.id || regId == CtlReg.maclcon2.id || regId == CtlReg.mamxflh.id ||
    regId == CtlReg.mamxfll.id || regId == CtlReg.micmd.id || regId == CtlReg.miregadr.id ||
    regId == CtlReg.miwrl.id || regId == CtlReg.miwrh.id || regId == CtlReg.mirdl.id ||
    regId == CtlReg.mirdh.id
  else if currBank = 3 then
    regId == CtlReg.mistat.id || regId == CtlReg.macAdd1.id || regId == CtlReg.macAdd2.id ||
    regId == CtlReg.macAdd3.id || regId == CtlReg.macAdd4.id || regId == CtlReg.macAdd5.id ||
    regId == CtlReg.macAdd6.id
  else false

/-- The driver's table of MAC and MII registers is the chip's. -/
theorem isMacOrMiiReg_eq (bank regId : Byte) :
    privEnc28IsMacOrMiiReg bank regId = (macMiiAddrs bank).contains regId := by
  have tables : ∀ id : Byte, privEnc28IsMacOrMiiReg 2 id = (macMiiAddrs 2).contains id ∧
      privEnc28IsMacOrMiiReg 3 id = (macMiiAddrs 3).contains id := by decide
  by_cases h2 : bank = 2
  · rw [h2]
    exact (tables regId).1
  · by_cases h3 : bank = 3
    · rw [h3]
      exact (tables regId).2
    · rw [privEnc28IsMacOrMiiReg, macMiiAddrs, if_neg h2, if_neg h3, if_neg h2, if_neg h3]
      rfl

/-- `(op << ENC28_SPI_ARG_BITS) | (reg_id & ENC28_SPI_ARG_MASK)`. -/
def commandByte (op regId : Byte) : Byte := (op <<< spiArgBits) ||| (regId &&& spiArgMask)

theorem commandByte_toNat (op regId : Byte) :
    (commandByte op regId).toNat = 32 * (op.toNat % 8) + regId.toNat % 32 := by
  have hop : (op <<< spiArgBits).toNat = (op.toNat % 8) <<< 5 := by
    rw [BitVec.toNat_shiftLeft, Nat.shiftLeft_eq, Nat.shiftLeft_eq, spiArgBits]
    omega
  rw [commandByte, BitVec.toNat_or, hop, spiArgMask_toNat,
    ← Nat.shiftLeft_add_eq_or_of_lt (by omega), Nat.shiftLeft_eq]
  omega

theorem commandByte_opcode (op regId : Byte) (h : op.toNat < 8) :
    commandByte op regId >>> spiArgBits = op := by
  apply BitVec.eq_of_toNat_eq
  rw [BitVec.toNat_ushiftRight, commandByte_toNat, Nat.shiftRight_eq_div_pow, spiArgBits]
  omega

theorem commandByte_addr (op regId : Byte) :
    commandByte op regId &&& spiArgMask = regId &&& spiArgMask := by
  apply BitVec.eq_of_toNat_eq
  rw [spiArgMask_toNat, spiArgMask_toNat, commandByte_toNat]
  omega

def enc28PrepareReadCtlReg (out : Option Byte) (regId : Byte) : CommandStatus × Option Byte :=
  if regId = 0x1A then (.invalidRegister, out)
  else match out with
    | none => (.invalidParam, none)
    | some _ => (.ok, some (commandByte opRcr regId))

/-- The three encoders of a two-byte register command. -/
def prepareCtlReg (op : Byte) (out : Option Word) (regId data : Byte) :
    CommandStatus × Option Word :=
  if regId = 0x1A then (.invalidRegister, out)
  else match out with
    | none => (.invalidParam, none)
    | some _ => (.ok, some (word (commandByte op regId) data))

theorem prepareReadCtlReg_ok (old : Byte) {regId : Byte} (h : regId ≠ 0x1A) :
    enc28PrepareReadCtlReg (some old) regId = (.ok, some (commandByte opRcr regId)) := if_neg h

theorem prepareCtlReg_ok (op : Byte) (old : Word) {regId : Byte} (h : regId ≠ 0x1A) (data : Byte) :
    prepareCtlReg op (some old) regId data = (.ok, some (word (commandByte op regId) data)) :=
  if_neg h

def enc28PrepareWriteCtlReg := prepareCtlReg opWcr
def enc28PrepareSetBitsCtlReg := prepareCtlReg opBfs
def enc28PrepareClearBitsCtlReg := prepareCtlReg opBfc

def readTransaction (reg : CtlReg) (cmdBuff : Byte) : Driver (CommandStatus × Byte) := do
  let currBank ← loadBank
  nssPinOp 0
  spiOutOp (some reg) [cmdBuff]
  if privEnc28IsMacOrMiiReg currBank reg.id then
    let buff ← spiInOp 2
    nssPinOp 1
    return (.ok, buff 1)
  else
    let buff ← spiInOp 1
    nssPinOp 1
    return (.ok, buff 0)

/-- The second component is what `reg_value` points to afterwards. -/
def enc28DoReadCtlReg (ctx : Option SpiContext) (reg : CtlReg) (regValue : Option Byte) :
    Driver (CommandStatus × Byte) :=
  match ctx, regValue with
  | none, _ => return (.invalidParam, regValue.getD 0)
  | some c, _ =>
    if !c.nssPinOp || !c.spiInOp || !c.spiOutOp then return (.invalidParam, regValue.getD 0)
    else match regValue with
      | none => return (.invalidParam, 0)
      | some old =>
        match enc28PrepareReadCtlReg (some 0) reg.id with
        | (.ok, some cmdBuff) => readTransaction reg cmdBuff
        | (status, _) => return (status, old)

def writeTransaction (reg : CtlReg) (cmdBuff : Word) : Driver CommandStatus := do
  nssPinOp 0
  waitNano 50
  spiOutOp (some reg) [(cmdBuff >>> 8).setWidth 8, (cmdBuff &&& 0xFF).setWidth 8]
  waitNano 210
  nssPinOp 1
  return .ok

def enc28DoWriteCtlReg (ctx : Option SpiContext) (reg : CtlReg) (regValue : Byte) :
    Driver CommandStatus :=
  match ctx with
  | none => return .invalidParam
  | some c =>
    if !c.nssPinOp || !c.spiInOp || !c.spiOutOp || !c.waitNano then return .invalidParam
    else match enc28PrepareWriteCtlReg (some 0) reg.id regValue with
      | (.ok, some cmdBuff) => writeTransaction reg cmdBuff
      | (status, _) => return status

def bitsTransaction (reg : CtlReg) (cmdBuff : Word) : Driver CommandStatus := do
  nssPinOp 0
  spiOutOp (some reg) [(cmdBuff >>> 8).setWidth 8, (cmdBuff &&& 0xFF).setWidth 8]
  nssPinOp 1
  return .ok

/-- The set and clear functions differ in their encoder only. -/
def doBitsCtlReg (prepare : Option Word → Byte → Byte → CommandStatus × Option Word)
    (ctx : Option SpiContext) (reg : CtlReg) (mask : Byte) : Driver CommandStatus :=
  match ctx with
  | none => return .invalidParam
  | some c =>
    if !c.nssPinOp || !c.spiInOp || !c.spiOutOp then return .invalidParam
    else match prepare (some 0) reg.id mask with
      | (.ok, some cmdBuff) => bitsTransaction reg cmdBuff
      | (status, _) => return status

def enc28DoSetBitsCtlReg := doBitsCtlReg enc28PrepareSetBitsCtlReg
def enc28DoClearBitsCtlReg := doBitsCtlReg enc28PrepareClearBitsCtlReg

/-- The callbacks that a read, a set and a clear check for. -/
def canRead : Option SpiContext → Bool
  | none => false
  | some c => c.nssPinOp && c.spiInOp && c.spiOutOp

def canWrite : Option SpiContext → Bool
  | none => false
  | some c => c.nssPinOp && c.spiInOp && c.spiOutOp && c.waitNano

theorem canRead_of_canWrite {ctx : Option SpiContext} (h : canWrite ctx = true) :
    canRead ctx = true := by
  cases ctx with
  | none => exact h
  | some c =>
    simp only [canWrite, canRead, Bool.and_eq_true] at h ⊢
    exact h.1

theorem canRead_some (c : SpiContext) :
    (!c.nssPinOp || !c.spiInOp || !c.spiOutOp) = !canRead (some c) := by
  simp only [canRead, Bool.not_and]

theorem canWrite_some (c : SpiContext) :
    (!c.nssPinOp || !c.spiInOp || !c.spiOutOp || !c.waitNano) = !canWrite (some c) := by
  simp only [canWrite, Bool.not_and]

section
variable {ctx : Option SpiContext} {reg : CtlReg}

theorem readCtlReg_eq (old : Byte) (hc : canRead ctx = true) (hr : reg.id ≠ 0x1A) :
    enc28DoReadCtlReg ctx reg (some old) = readTransaction reg (commandByte opRcr reg.id) := by
  cases ctx with
  | none => cases hc
  | some c => simp [enc28DoReadCtlReg, prepareReadCtlReg_ok _ hr, canRead_some, hc]

theorem readCtlReg_fails (old : Byte) (h : canRead ctx = false ∨ reg.id = 0x1A) :
    ∃ status, status ≠ .ok ∧ enc28DoReadCtlReg ctx reg (some old) = .ret (status, old) := by
  cases ctx with
  | none => exact ⟨.invalidParam, by decide, rfl⟩
  | some c =>
    cases hc : canRead (some c) with
    | false => exact ⟨.invalidParam, by decide, by simp [enc28DoReadCtlReg, canRead_some, hc]⟩
    | true =>
      have hr : reg.id = 0x1A := by simpa [hc] using h
      exact ⟨.invalidRegister, by decide,
        by simp [enc28DoReadCtlReg, enc28PrepareReadCtlReg, canRead_some, hc, hr]⟩

theorem readCtlReg_null : enc28DoReadCtlReg ctx reg none = .ret (.invalidParam, 0) := by
  cases ctx with
  | none => rfl
  | some c =>
    simp only [enc28DoReadCtlReg]
    exact ite_self _

theorem writeCtlReg_eq (value : Byte) (hc : canWrite ctx = true) (hr : reg.id ≠ 0x1A) :
    enc28DoWriteCtlReg ctx reg value =
      writeTransaction reg (word (commandByte opWcr reg.id) value) := by
  cases ctx with
  | none => cases hc
  | some c =>
    simp [enc28DoWriteCtlReg, enc28PrepareWriteCtlReg, prepareCtlReg_ok _ _ hr, canWrite_some, hc]

theorem writeCtlReg_fails (value : Byte) (h : canWrite ctx = false ∨ reg.id = 0x1A) :
    ∃ status, status ≠ .ok ∧ enc28DoWriteCtlReg ctx reg value = .ret status := by
  cases ctx with
  | none => exact ⟨.invalidParam, by decide, rfl⟩
  | some c =>
    cases hc : canWrite (some c) with
    | false => exact ⟨.invalidParam, by decide, by simp [enc28DoWriteCtlReg, canWrite_some, hc]⟩
    | true =>
      have hr : reg.id = 0x1A := by simpa [hc] using h
      exact ⟨.invalidRegister, by decide, by
        simp [enc28DoWriteCtlReg, enc28PrepareWriteCtlReg, prepareCtlReg, canWrite_some, hc, hr]⟩

theorem bitsCtlReg_eq (op mask : Byte) (hc : canRead ctx = true) (hr : reg.id ≠ 0x1A) :
    doBitsCtlReg (prepareCtlReg op) ctx reg mask =
      bitsTransaction reg (word (commandByte op reg.id) mask) := by
  cases ctx with
  | none => cases hc
  | some c => simp [doBitsCtlReg, prepareCtlReg_ok _ _ hr, canRead_some, hc]

theorem bitsCtlReg_fails (op mask : Byte) (h : canRead ctx = false ∨ reg.id = 0x1A) :
    ∃ status, status ≠ .ok ∧ doBitsCtlReg (prepareCtlReg op) ctx reg mask = .ret status := by
  cases ctx with
  | none => exact ⟨.invalidParam, by decide, rfl⟩
  | some c =>
    cases hc : canRead (some c) with
    | false => exact ⟨.invalidParam, by decide, by simp [doBitsCtlReg, canRead_some, hc]⟩
    | true =>
      have hr : reg.id = 0x1A := by simpa [hc] using h
      exact ⟨.invalidRegister, by decide,
        by simp [doBitsCtlReg, prepareCtlReg, canRead_some, hc, hr]⟩

end

/-- The byte that `enc28_select_register_bank` writes back to ECON1. -/
def econ1WithBank (econ1Reg bankId : Byte) : Byte :=
  (econ1Reg &&& ~~~econ1Bsel) ||| econ1BankSel bankId

def enc28SelectRegisterBank (ctx : Option SpiContext) (bankId : Byte) : Driver CommandStatus :=
  if 4 ≤ bankId.toNat then return .invalidParam
  else do
    let (status, econ1Reg) ← enc28DoReadCtlReg ctx .econ1 (some 0)
    if status = .ok then
      let status ← enc28DoWriteCtlReg ctx .econ1 (econ1WithBank econ1Reg bankId)
      if status = .ok then
        storeBank bankId
        return .ok
      else return status
    else return status

def enc28DoSoftReset (ctx : Option SpiContext) : Driver CommandStatus :=
  match ctx with
  | none => return .invalidParam
  | some c =>
    if !c.nssPinOp || !c.spiInOp || !c.spiOutOp then return .invalidParam
    else do
      nssPinOp 0
      spiOutOp none [0xFF]
      nssPinOp 1
      return .ok

def pollMistat (ctx : Option SpiContext) : ℕ → Driver CommandStatus
  | 0 => .spin
  | rounds + 1 => do
    let (status, mistatValue) ← enc28DoReadCtlReg ctx .mistat (some 0xff)
    if status = .ok then
      if mistatValue.getLsbD mistatBusy then
        waitNano 1
        pollMistat ctx rounds
      else return .ok
    else return status

/-- `enc28_do_read_phy_register` up to the point where MIRD is valid. -/
def phyReadCommand (rounds : ℕ) (ctx : Option SpiContext) (regId : Byte) : Driver CommandStatus :=
  exitIfErr (enc28SelectRegisterBank ctx 2) <|
  exitIfErr (enc28DoWriteCtlReg ctx .miregadr regId) <|
  exitIfErr (enc28DoWriteCtlReg ctx .micmd (bit micmdMiird)) <| do
    waitNano (11 * 1000)
    exitIfErr (enc28SelectRegisterBank ctx 3) <|
      exitIfErr (pollMistat ctx rounds) <|
      exitIfErr (enc28SelectRegisterBank ctx 2) <|
      enc28DoWriteCtlReg ctx .micmd 0

def enc28DoReadPhyRegister (rounds : ℕ) (ctx : Option SpiContext) (regId : Byte)
    (regValue : Word) : Driver (CommandStatus × Word) :=
  if !privEnc28IsPhyReg regId then return (.invalidParam, regValue)
  else match ctx with
    | none => return (.invalidParam, regValue)
    | some c =>
      if !c.nssPinOp || !c.spiInOp || !c.spiOutOp || !c.waitNano then
        return (.invalidParam, regValue)
      else do
        let status ← phyReadCommand rounds ctx regId
        if status = .ok then
          let (status, regValLo) ← enc28DoReadCtlReg ctx .mirdl (some 0xff)
          if status = .ok then
            let (status, regValHi) ← enc28DoReadCtlReg ctx .mirdh (some 0xff)
            if status = .ok then return (.ok, word regValHi regValLo)
            else return (status, regValue)
          else return (status, regValue)
        else return (status, regValue)

structure MacAddress where
  addr : Fin 6 → Byte

structure HwRev where
  phid1 : Word
  phid2 : Word
  ethrev : Byte

def privEnc28DoBufferRegisterInit (cfg : Conf) (ctx : Option SpiContext) :
    Driver CommandStatus := do
  -- the status of the bank switch is overwritten before it is looked at
  let _ ← enc28SelectRegisterBank ctx 0
  exitIfErr (enc28DoWriteCtlReg ctx .erxstl (lowByte cfg.rxAddressStart)) <|
    exitIfErr (enc28DoWriteCtlReg ctx .erxsth (highAddr cfg.rxAddressStart)) <|
    exitIfErr (enc28DoWriteCtlReg ctx .erxndl (lowByte cfg.rxAddressEnd)) <|
    exitIfErr (enc28DoWriteCtlReg ctx .erxndh (highAddr cfg.rxAddressEnd)) <|
    exitIfErr (enc28DoWriteCtlReg ctx .erxrdptl (lowByte cfg.rxAddressEnd)) <|
    enc28DoWriteCtlReg ctx .erxrdpth (highAddr cfg.rxAddressEnd)

def privEnc28DoReceiveFilterInit (cfg : Conf) (ctx : Option SpiContext) : Driver CommandStatus :=
  exitIfErr (enc28SelectRegisterBank ctx 1) <|
  enc28DoWriteCtlReg ctx .erxfcon (BitVec.ofNat 8 cfg.packetFilterMask)

/-- The loop of `priv_enc28_do_poll_estat_clk`; an error ends it too. -/
def pollEstatClk (ctx : Option SpiContext) : ℕ → CommandStatus → Byte → Driver CommandStatus
  | 0, _, _ => .spin
  | rounds + 1, status, regValue =>
    if status = .ok then
      if regValue.getLsbD estatClkrdy then return .ok
      else do
        let (status, regValue) ← enc28DoReadCtlReg ctx .estat (some regValue)
        pollEstatClk ctx rounds status regValue
    else return .ok

def privEnc28DoPollEstatClk (rounds : ℕ) (ctx : Option SpiContext) : Driver CommandStatus := do
  let (status, regValue) ← enc28DoReadCtlReg ctx .estat (some 0)
  pollEstatClk ctx rounds status regValue

def macon1Mask : Byte := bit macon1Rxen ||| bit macon1Rxpaus ||| bit macon1Txpaus

def macon3Mask (cfg : Conf) (isFullDuplex : Bool) : Byte :=
  let mask := BitVec.ofNat 8 cfg.macon3FramePadMask ||| bit macon3Txcrcen ||| bit macon3Frmlnen
  if isFullDuplex then mask ||| bit macon3Fulldpx else mask

def writeMacAddress (macAdd : MacAddress) (ctx : Option SpiContext) : Driver CommandStatus :=
  exitIfErr (enc28SelectRegisterBank ctx 3) <|
  exitIfErr (enc28DoWriteCtlReg ctx .macAdd1 (macAdd.addr 0)) <|
  exitIfErr (enc28DoWriteCtlReg ctx .macAdd2 (macAdd.addr 1)) <|
  exitIfErr (enc28DoWriteCtlReg ctx .macAdd3 (macAdd.addr 2)) <|
  exitIfErr (enc28DoWriteCtlReg ctx .macAdd4 (macAdd.addr 3)) <|
  exitIfErr (enc28DoWriteCtlReg ctx .macAdd5 (macAdd.addr 4)) <|
  exitIfErr (enc28DoWriteCtlReg ctx .macAdd6 (macAdd.addr 5)) <|
  enc28SelectRegisterBank ctx 0

def macInitDuplex (cfg : Conf) (macAdd : MacAddress) (ctx : Option SpiContext)
    (isFullDuplex : Bool) : Driver CommandStatus :=
  exitIfErr (enc28DoSetBitsCtlReg ctx .macon3 (macon3Mask cfg isFullDuplex)) <|
  exitIfErr (enc28DoSetBitsCtlReg ctx .macon4 (bit macon4Defer)) <|
  exitIfErr (enc28DoWriteCtlReg ctx .mamxfll (BitVec.ofNat 8 (cfg.maxFrameLen &&& 0xFF))) <|
  exitIfErr (enc28DoWriteCtlReg ctx .mamxflh (BitVec.ofNat 8 ((cfg.maxFrameLen >>> 8) &&& 0xFF))) <|
  exitIfErr (enc28DoWriteCtlReg ctx .mabbipg (BitVec.ofNat 8 cfg.mabbipgBits)) <|
  exitIfErr (enc28DoWriteCtlReg ctx .maipgl (BitVec.ofNat 8
    (if isFullDuplex then cfg.maipglBitsFulldup else cfg.maipglBitsHalfdup))) <|
  exitIfErr (if isFullDuplex then return .ok
    else enc28DoWriteCtlReg ctx .maipgh (BitVec.ofNat 8 cfg.maipghBits)) <|
  writeMacAddress macAdd ctx

def privEnc28DoMacInit (cfg : Conf) (rounds : ℕ) (macAdd : MacAddress)
    (ctx : Option SpiContext) : Driver CommandStatus :=
  exitIfErr (enc28SelectRegisterBank ctx 2) <|
  exitIfErr (enc28DoSetBitsCtlReg ctx .macon1 macon1Mask) <| do
    let (status, phcon1Value) ← enc28DoReadPhyRegister rounds ctx phyrPhcon1 0
    if status = .ok then macInitDuplex cfg macAdd ctx (phcon1Value.getLsbD phcon1Pdpxmd)
    else return status

def privEnc28DoPhyInit (_ctx : Option SpiContext) : Driver CommandStatus := return .ok

def enc28DoInit (cfg : Conf) (rounds : ℕ) (macAdd : MacAddress) (ctx : Option SpiContext) :
    Driver CommandStatus :=
  exitIfErr (privEnc28DoBufferRegisterInit cfg ctx) <|
  exitIfErr (privEnc28DoReceiveFilterInit cfg ctx) <|
  exitIfErr (privEnc28DoPollEstatClk rounds ctx) <|
  exitIfErr (privEnc28DoMacInit cfg rounds macAdd ctx) <|
  privEnc28DoPhyInit ctx

def enc28DoReadHwRev (rounds : ℕ) (ctx : Option SpiContext) (hwRev : Option HwRev) :
    Driver (CommandStatus × Option HwRev) :=
  match hwRev with
  | none => return (.invalidParam, none)
  | some rev => do
    let (status, phid1) ← enc28DoReadPhyRegister rounds ctx phyrPhid1 rev.phid1
    let rev := { rev with phid1 := phid1 }
    if status = .ok then
      let (status, phid2) ← enc28DoReadPhyRegister rounds ctx phyrPhid2 rev.phid2
      let rev := { rev with phid2 := phid2 }
      if status = .ok then
        let status ← enc28SelectRegisterBank ctx 3
        if status = .ok then
          let (status, ethrev) ← enc28DoReadCtlReg ctx .erevid (some rev.ethrev)
          return (status, some { rev with ethrev := ethrev })
        else return (status, some rev)
      else return (status, some rev)
    else return (status, some rev)

def readMacBytes (ctx : Option SpiContext) :
    List (CtlReg × Fin 6) → MacAddress → Driver (CommandStatus × MacAddress)
  | [], mac => return (.ok, mac)
  | (reg, i) :: rest, mac => do
    let (status, value) ← enc28DoReadCtlReg ctx reg (some (mac.addr i))
    let mac := ⟨Function.update mac.addr i value⟩
    if status = .ok then readMacBytes ctx rest mac else return (status, mac)

def enc28DoReadMac (ctx : Option SpiContext) (mac : MacAddress) :
    Driver (CommandStatus × MacAddress) := do
  let status ← enc28SelectRegisterBank ctx 3
  if status = .ok then
    readMacBytes ctx [(.macAdd1, 0), (.macAdd2, 1), (.macAdd3, 2), (.macAdd4, 3), (.macAdd5, 4),
      (.macAdd6, 5)] mac
  else return (status, mac)

def enc28BeginPacketTransfer (cfg : Conf) (ctx : Option SpiContext) : Driver CommandStatus :=
  exitIfErr (enc28SelectRegisterBank ctx 0) <|
  exitIfErr (enc28DoWriteCtlReg ctx .erdptl (lowByte cfg.rxAddressStart)) <|
  exitIfErr (enc28DoWriteCtlReg ctx .erdpth (highAddr cfg.rxAddressStart)) <|
  exitIfErr (enc28DoSetBitsCtlReg ctx .eie
    (bit eieIntie ||| bit eiePktie ||| bit eieRxerie ||| bit eieTxerie)) <|
  exitIfErr (enc28DoClearBitsCtlReg ctx .eir (bit eirRxerif)) <|
  exitIfErr (enc28DoSetBitsCtlReg ctx .econ2 (bit econ2Autoinc)) <|
  enc28DoSetBitsCtlReg ctx .econ1 (bit econ1Rxen)

structure ReceiveStatusVector where
  packetLenLo : Byte
  packetLenHi : Byte
  statusBitsLo : Byte
  statusBitsHi : Byte
  deriving DecidableEq, Repr

/-- The last bit field of `ENC28_Receive_Status_Vec_Bits_16_23`. -/
def ReceiveStatusVector.receivedOk (v : ReceiveStatusVector) : Bool := v.statusBitsLo.getLsbD 7

/-- `(packet_len_hi << 8) | packet_len_lo`. -/
def ReceiveStatusVector.packetLen (v : ReceiveStatusVector) : Word :=
  word v.packetLenHi v.packetLenLo

/-- What `enc28_read_packet` returns, and what its two buffers hold afterwards. -/
structure ReadResult where
  status : CommandStatus
  packetBuf : List Byte
  optStatusVec : Option ReceiveStatusVector

/-- The value written to ERXRDPT for the next-packet pointer `pp`, according to
the errata. `PP - 1` is computed in `int`. -/
def erxrdptFor (cfg : Conf) (pp : Word) : Word :=
  if (pp.toNat : ℤ) - 1 > cfg.rxAddressEnd ∨ (pp.toNat : ℤ) - 1 < cfg.rxAddressStart then
    BitVec.ofNat 16 cfg.rxAddressEnd
  else pp - 1

def releasePacket (cfg : Conf) (ctx : Option SpiContext) (nextLo nextHi : Byte) :
    Driver CommandStatus :=
  let pp := erxrdptFor cfg (word (nextHi &&& 0x1F) nextLo)
  exitIfErr (enc28DoWriteCtlReg ctx .erdptl nextLo) <|
  exitIfErr (enc28DoWriteCtlReg ctx .erdpth nextHi) <|
  exitIfErr (enc28DoWriteCtlReg ctx .erxrdptl (lowByte pp.toNat)) <|
  exitIfErr (enc28DoWriteCtlReg ctx .erxrdpth (highAddr pp.toNat)) <|
  enc28DoSetBitsCtlReg ctx .econ2 (bit econ2Pktdec)

def readPacketBody (cfg : Conf) (ctx : Option SpiContext) (packetBuf : List Byte) (bufSize : Word)
    (optStatusVec : Option ReceiveStatusVector) (hdr : Fin 7 → Byte) : Driver ReadResult := do
  let statusVec : ReceiveStatusVector := ⟨hdr 3, hdr 4, hdr 5, hdr 6⟩
  let optStatusVec := optStatusVec.map fun _ => statusVec
  if !statusVec.receivedOk then return ⟨.packetRcvErr, packetBuf, optStatusVec⟩
  else
    let packetLen := statusVec.packetLen
    if bufSize < packetLen then return ⟨.bufferTooSmall, packetBuf, optStatusVec⟩
    else
      nssPinOp 0
      spiOutOp none [0x3A]
      let packet ← spiInOp packetLen.toNat
      nssPinOp 1
      let status ← releasePacket cfg ctx (hdr 1) (hdr 2)
      return ⟨status, List.ofFn packet ++ packetBuf.drop packetLen.toNat, optStatusVec⟩

def readPacketPending (cfg : Conf) (ctx : Option SpiContext) (packetBuf : List Byte)
    (bufSize : Word) (optStatusVec : Option ReceiveStatusVector) (val : Byte) :
    Driver ReadResult := do
  let status ← enc28SelectRegisterBank ctx 0
  if status = .ok then
    let (_, val) ← enc28DoReadCtlReg ctx .erdptl (some val)
    let readPtrLo := val
    let (_, val) ← enc28DoReadCtlReg ctx .erdpth (some val)
    let readPtr := word (val &&& 0x1F) readPtrLo
    if readPtr.toNat < cfg.rxAddressStart ∨ readPtr.toNat > cfg.rxAddressEnd then
      return ⟨.readPtrOutOfRange, packetBuf, optStatusVec⟩
    else
      nssPinOp 0
      let hdr ← spiInOutOp [0x3A, 0, 0, 0, 0, 0, 0] 7
      nssPinOp 1
      readPacketBody cfg ctx packetBuf bufSize optStatusVec hdr
  else return ⟨status, packetBuf, optStatusVec⟩

def rxErrorRecovery (cfg : Conf) (ctx : Option SpiContext) : Driver CommandStatus :=
  exitIfErr (enc28SelectRegisterBank ctx 0) <|
  exitIfErr (enc28DoWriteCtlReg ctx .erxrdptl (lowByte cfg.rxAddressEnd)) <|
  exitIfErr (enc28DoWriteCtlReg ctx .erxrdpth (highAddr cfg.rxAddressEnd)) <|
  exitIfErr (enc28DoClearBitsCtlReg ctx .eir (bit eirRxerif)) <|
  return .packetRcvErr

def enc28ReadPacket (cfg : Conf) (ctx : Option SpiContext) (packetBuf : List Byte) (bufSize : Word)
    (optStatusVec : Option ReceiveStatusVector) : Driver ReadResult := do
  let (status, val) ← enc28DoReadCtlReg ctx .eir (some 0)
  if status = .ok then
    if val.getLsbD eirPktif then readPacketPending cfg ctx packetBuf bufSize optStatusVec val
    else if val.getLsbD eirRxerif then
      let status ← rxErrorRecovery cfg ctx
      return ⟨status, packetBuf, optStatusVec⟩
    else return ⟨.noData, packetBuf, optStatusVec⟩
  else return ⟨status, packetBuf, optStatusVec⟩

def transmitPacket (cfg : Conf) (ctx : Option SpiContext) (packetBuf : List Byte)
    (bufSize : Word) : Driver CommandStatus :=
  exitIfErr (enc28SelectRegisterBank ctx 0) <|
  exitIfErr (enc28DoWriteCtlReg ctx .etxstl (lowByte cfg.txAddressStart)) <|
  exitIfErr (enc28DoWriteCtlReg ctx .etxsth (highAddr cfg.txAddressStart)) <|
  exitIfErr (enc28DoWriteCtlReg ctx .ewrptl (lowByte cfg.txAddressStart)) <|
  exitIfErr (enc28DoWriteCtlReg ctx .ewrpth (highAddr cfg.txAddressStart)) <| do
    nssPinOp 0
    spiOutOp none [0x7A, 0]
    spiOutOp none (packetBuf.take bufSize.toNat)
    nssPinOp 1
    let endAddress : Word := BitVec.ofNat 16 (cfg.txAddressStart + bufSize.toNat + 1)
    exitIfErr (enc28DoWriteCtlReg ctx .etxndl (lowByte endAddress.toNat)) <|
      exitIfErr (enc28DoWriteCtlReg ctx .etxndh (highAddr endAddress.toNat)) <|
      exitIfErr (enc28DoClearBitsCtlReg ctx .eir (bit eirTxif)) <|
      exitIfErr (enc28DoSetBitsCtlReg ctx .econ1 (bit econ1TxRst)) <|
      exitIfErr (enc28DoClearBitsCtlReg ctx .econ1 (bit econ1TxRst)) <|
      enc28DoSetBitsCtlReg ctx .econ1 (bit econ1Txrts)

def enc28WritePacket (cfg : Conf) (ctx : Option SpiContext) (packetBuf : Option (List Byte))
    (bufSize : Word) : Driver CommandStatus :=
  match ctx, packetBuf with
  | some _, some packet =>
    if bufSize.toNat < 14 then return .invalidParam
    else do
      let (status, regVal) ← enc28DoReadCtlReg ctx .econ1 (some 0)
      if status = .ok then
        if regVal.getLsbD econ1Txrts then return .packetTxInProgress
        else transmitPacket cfg ctx packet bufSize
      else return status
  | _, _ => return .invalidParam

/-- The address the status vector is read from. The mask is applied after the
shift, so the high byte of ETXND is dropped. -/
def ctlVecAddr (endAddrHi endAddrLo : Byte) : Word :=
  (endAddrLo.setWidth 16 ||| ((endAddrHi.setWidth 16 <<< 8) &&& 0x1F)) + 1

/-- The part of `enc28_check_outgoing_packet_status` that moves ERDPT and puts it back. -/
def readTransmitStatusVector (ctx : Option SpiContext) : Driver CommandStatus :=
  exitIfErr (enc28SelectRegisterBank ctx 0) <| do
    let (status, rdptLo) ← enc28DoReadCtlReg ctx .erdptl (some 0)
    if status = .ok then
      let (status, rdptHi) ← enc28DoReadCtlReg ctx .erdpth (some 0)
      if status = .ok then
        let (status, endAddrLo) ← enc28DoReadCtlReg ctx .etxndl (some 0)
        if status = .ok then
          let (status, endAddrHi) ← enc28DoReadCtlReg ctx .etxndh (some 0)
          if status = .ok then
            let addr := ctlVecAddr endAddrHi endAddrLo
            exitIfErr (enc28DoWriteCtlReg ctx .erdptl (lowByte addr.toNat)) <|
              exitIfErr (enc28DoWriteCtlReg ctx .erdpth (highAddr addr.toNat)) <| do
                nssPinOp 0
                let _ ← spiInOutOp [0x3A, 0, 0, 0, 0, 0, 0, 0] 7
                nssPinOp 1
                exitIfErr (enc28DoWriteCtlReg ctx .erdptl rdptLo) <|
                  enc28DoWriteCtlReg ctx .erdpth rdptHi
          else return status
        else return status
      else return status
    else return status

def enc28CheckOutgoingPacketStatus (ctx : Option SpiContext) : Driver CommandStatus := do
  let (status, regVal) ← enc28DoReadCtlReg ctx .eir (some 0)
  if status = .ok then
    if regVal.getLsbD eirTxif then
      let (status, regVal) ← enc28DoReadCtlReg ctx .estat (some regVal)
      if status = .ok then
        exitIfErr (readTransmitStatusVector ctx) <|
          if regVal.getLsbD estatTxabrt then return .packetTxAborted else return .ok
      else return status
    else return .noData
  else return status

def enc28EndPacketTransfer (ctx : Option SpiContext) : Driver CommandStatus :=
  exitIfErr (enc28SelectRegisterBank ctx 0) <|
  enc28DoClearBitsCtlReg ctx .econ1 (bit econ1Rxen)

inductive DriverOp
  | softReset
  | init (macAdd : MacAddress)
  | readHwRev (hwRev : Option HwRev)
  | readMac (mac : MacAddress)
  | readPhyRegister (regId : Byte) (regValue : Word)
  | readCtlReg (regId : Byte) (regValue : Option Byte)
  | writeCtlReg (regId regValue : Byte)
  | setBitsCtlReg (regId mask : Byte)
  | clearBitsCtlReg (regId mask : Byte)
  | selectRegisterBank (bankId : Byte)
  | beginPacketTransfer
  | readPacket (packetBuf : List Byte) (bufSize : Word) (optStatusVec : Option ReceiveStatusVector)
  | writePacket (packetBuf : Option (List Byte)) (bufSize : Word)
  | checkOutgoingPacketStatus
  | endPacketTransfer

/-- A public call: the context passed, the rounds its polling loops run at
most, and the function. -/
structure DriverCall where
  ctx : Option SpiContext
  rounds : ℕ
  op : DriverOp

/-- What the pointer arguments of a public call point to afterwards. -/
inductive DriverOutput
  | nothing
  | regValue (value : Byte)
  | phyValue (value : Word)
  | hwRev (rev : Option HwRev)
  | mac (mac : MacAddress)
  | packet (packetBuf : List Byte) (optStatusVec : Option ReceiveStatusVector)

def DriverCall.prog (cfg : Conf) (c : DriverCall) : Driver (CommandStatus × DriverOutput) :=
  match c.op with
  | .softReset => return (← enc28DoSoftReset c.ctx, .nothing)
  | .init macAdd => return (← enc28DoInit cfg c.rounds macAdd c.ctx, .nothing)
  | .readHwRev hwRev => do
    let (status, rev) ← enc28DoReadHwRev c.rounds c.ctx hwRev
    return (status, .hwRev rev)
  | .readMac mac => do
    let (status, mac) ← enc28DoReadMac c.ctx mac
    return (status, .mac mac)
  | .readPhyRegister regId regValue => do
    let (status, value) ← enc28DoReadPhyRegister c.rounds c.ctx regId regValue
    return (status, .phyValue value)
  | .readCtlReg regId regValue => do
    let (status, value) ← enc28DoReadCtlReg c.ctx (.raw regId) regValue
    return (status, .regValue value)
  | .writeCtlReg regId regValue =>
    return (← enc28DoWriteCtlReg c.ctx (.raw regId) regValue, .nothing)
  | .setBitsCtlReg regId mask =>
    return (← enc28DoSetBitsCtlReg c.ctx (.raw regId) mask, .nothing)
  | .clearBitsCtlReg regId mask =>
    return (← enc28DoClearBitsCtlReg c.ctx (.raw regId) mask, .nothing)
  | .selectRegisterBank bankId => return (← enc28SelectRegisterBank c.ctx bankId, .nothing)
  | .beginPacketTransfer => return (← enc28BeginPacketTransfer cfg c.ctx, .nothing)
  | .readPacket packetBuf bufSize optStatusVec => do
    let r ← enc28ReadPacket cfg c.ctx packetBuf bufSize optStatusVec
    return (r.status, .packet r.packetBuf r.optStatusVec)
  | .writePacket packetBuf bufSize =>
    return (← enc28WritePacket cfg c.ctx packetBuf bufSize, .nothing)
  | .checkOutgoingPacketStatus => return (← enc28CheckOutgoingPacketStatus c.ctx, .nothing)
  | .endPacketTransfer => return (← enc28EndPacketTransfer c.ctx, .nothing)

end Stm32NetworkStack.Enc28Driver
