import Mathlib.Data.Nat.Notation
import Mathlib.Logic.Basic

set_option autoImplicit false

/-!
# Registers, status codes and configuration of the ENC28J60 driver

The constants of `enc28j60.h` that the driver uses, under the header's names
without the `ENC28_` prefix.
-/
namespace Stm32NetworkStack.Enc28Registers

abbrev Byte := BitVec 8
abbrev Word := BitVec 16

inductive CommandStatus
  | ok
  | invalidRegister
  | invalidParam
  | noData
  | readPtrOutOfRange
  | bufferTooSmall
  | packetRcvErr
  | packetTxInProgress
  | packetTxAborted
  deriving DecidableEq, Repr

def spiArgBits : ℕ := 5
def spiArgMask : Byte := 0x1F

def opRcr : Byte := 0x0
def opRbm : Byte := 0x1
def opWcr : Byte := 0x2
def opWbm : Byte := 0x3
def opBfs : Byte := 0x4
def opBfc : Byte := 0x5
def opSrc : Byte := 0x7

/-- The `ENC28_CR_*` macros. Two macros may have one value; `raw` is a register
id that the caller passes as a number. -/
inductive CtlReg
  | eie | eir | estat | econ2 | econ1
  | erdptl | erdpth | ewrptl | ewrpth | etxstl | etxsth | etxndl | etxndh
  | erxstl | erxsth | erxndl | erxndh | erxrdptl | erxrdpth
  | erxfcon
  | macon1 | macon3 | macon4 | mabbipg | maipgl | maipgh | maclcon1 | maclcon2
  | mamxfll | mamxflh | micmd | miregadr | miwrl | miwrh | mirdl | mirdh
  | macAdd1 | macAdd2 | macAdd3 | macAdd4 | macAdd5 | macAdd6 | mistat | erevid
  | raw (id : Byte)
  deriving DecidableEq, Repr

def CtlReg.id : CtlReg → Byte
  | .eie => 0x1B
  | .eir => 0x1C
  | .estat => 0x1D
  | .econ2 => 0x1E
  | .econ1 => 0x1F
  | .erdptl => 0x00
  | .erdpth => 0x01
  | .ewrptl => 0x02
  | .ewrpth => 0x03
  | .etxstl => 0x04
  | .etxsth => 0x05
  | .etxndl => 0x06
  | .etxndh => 0x07
  | .erxstl => 0x08
  | .erxsth => 0x09
  | .erxndl => 0x0A
  | .erxndh => 0x0B
  | .erxrdptl => 0x0C
  | .erxrdpth => 0x0D
  | .erxfcon => 0x18
  | .macon1 => 0x0
  | .macon3 => 0x2
  | .macon4 => 0x3
  | .mabbipg => 0x4
  | .maipgl => 0x6
  | .maipgh => 0x7
  | .maclcon1 => 0x8
  | .maclcon2 => 0x9
  | .mamxfll => 0x0A
  | .mamxflh => 0x0B
  | .micmd => 0x12
  | .miregadr => 0x14
  | .miwrl => 0x16
  | .miwrh => 0x17
  | .mirdl => 0x18
  | .mirdh => 0x19
  | .macAdd1 => 0x04
  | .macAdd2 => 0x05
  | .macAdd3 => 0x02
  | .macAdd4 => 0x03
  | .macAdd5 => 0x00
  | .macAdd6 => 0x01
  | .mistat => 0x0A
  | .erevid => 0x12
  | .raw id => id

/-- The five bits of a register id that go out on the wire. -/
def CtlReg.addr (reg : CtlReg) : Byte := reg.id &&& spiArgMask

/-- The bank of the register a macro names; `none` for the registers that all
banks share and for an id given as a number. -/
def CtlReg.bank : CtlReg → Option Byte
  | .eie | .eir | .estat | .econ2 | .econ1 | .raw _ => none
  | .erdptl | .erdpth | .ewrptl | .ewrpth | .etxstl | .etxsth | .etxndl | .etxndh
  | .erxstl | .erxsth | .erxndl | .erxndh | .erxrdptl | .erxrdpth => some 0
  | .erxfcon => some 1
  | .macon1 | .macon3 | .macon4 | .mabbipg | .maipgl | .maipgh | .maclcon1 | .maclcon2
  | .mamxfll | .mamxflh | .micmd | .miregadr | .miwrl | .miwrh | .mirdl | .mirdh => some 2
  | .macAdd1 | .macAdd2 | .macAdd3 | .macAdd4 | .macAdd5 | .macAdd6 | .mistat
  | .erevid => some 3

/-- Where the MAC and MII registers are. The chip sends a dummy byte before
their values, and before no others. -/
def macMiiAddrs (bank : Byte) : List Byte :=
  if bank = 2 then
    [0x00, 0x02, 0x03, 0x04, 0x06, 0x07, 0x08, 0x09, 0x0A, 0x0B, 0x12, 0x14, 0x16, 0x17, 0x18, 0x19]
  else if bank = 3 then [0x00, 0x01, 0x02, 0x03, 0x04, 0x05, 0x0A]
  else []

def eieRxerie : ℕ := 0
def eieTxerie : ℕ := 1
def eiePktie : ℕ := 6
def eieIntie : ℕ := 7
def eirRxerif : ℕ := 0
def eirTxif : ℕ := 3
def eirPktif : ℕ := 6
def econ2Pktdec : ℕ := 6
def econ2Autoinc : ℕ := 7
def econ1Bsel : Byte := 0x3
def econ1Rxen : ℕ := 2
def econ1Txrts : ℕ := 3
def econ1TxRst : ℕ := 7
def macon1Rxen : ℕ := 0
def macon1Rxpaus : ℕ := 2
def macon1Txpaus : ℕ := 3
def macon3Txcrcen : ℕ := 4
def macon3Fulldpx : ℕ := 0
def macon3Frmlnen : ℕ := 1
def macon4Defer : ℕ := 4
def micmdMiird : ℕ := 0
def mistatBusy : ℕ := 0
def estatClkrdy : ℕ := 0
def estatTxabrt : ℕ := 1
def phyrPhcon1 : Byte := 0x0
def phcon1Pdpxmd : ℕ := 8
def phyrPhid1 : Byte := 0x2
def phyrPhid2 : Byte := 0x3

/-- `ENC28_ECON1_BANK_SEL`. -/
def econ1BankSel (n : Byte) : Byte := n

def bit (n : ℕ) : Byte := 1#8 <<< n

/-- The customization constants, with the header's defaults. -/
structure Conf where
  rxAddressStart : ℕ := 0x7D0
  rxAddressEnd : ℕ := 0x1eff
  txAddressStart : ℕ := 0x1D
  packetFilterMask : ℕ := (1 <<< 7) ||| (1 <<< 1) ||| (1 <<< 0)
  macon3FramePadMask : ℕ := 0xE0
  maxFrameLen : ℕ := 1536
  mabbipgBits : ℕ := 0x12
  maipglBitsFulldup : ℕ := 0x15
  maipglBitsHalfdup : ℕ := 0x12
  maipghBits : ℕ := 0x0C

def lowByte (x : ℕ) : Byte := BitVec.ofNat 8 (x &&& 0xFF)

def highAddr (x : ℕ) : Byte := BitVec.ofNat 8 ((x >>> 8) &&& 0x1F)

def word (hi lo : Byte) : Word := (hi.setWidth 16 <<< 8) ||| lo.setWidth 16

theorem spiArgMask_toNat (regId : Byte) : (regId &&& spiArgMask).toNat = regId.toNat % 32 := by
  rw [BitVec.toNat_and, show spiArgMask.toNat = 2 ^ 5 - 1 from rfl, Nat.and_two_pow_sub_one_eq_mod]

theorem lowByte_toNat (x : ℕ) : (lowByte x).toNat = x % 256 := by
  have h : x &&& 0xFF = x % 256 := Nat.and_two_pow_sub_one_eq_mod x 8
  simp [lowByte, h]

theorem highAddr_toNat (x : ℕ) : (highAddr x).toNat = x / 256 % 32 := by
  have h : x >>> 8 &&& 0x1F = x / 256 % 32 := by
    rw [Nat.shiftRight_eq_div_pow]
    exact Nat.and_two_pow_sub_one_eq_mod _ 5
  simp only [highAddr, h, BitVec.toNat_ofNat]
  omega

theorem word_toNat (hi lo : Byte) : (word hi lo).toNat = 256 * hi.toNat + lo.toNat := by
  have hh := hi.isLt
  have hl := lo.isLt
  have h := Nat.shiftLeft_add_eq_or_of_lt (a := hi.toNat) (i := 8) (by omega : lo.toNat < 2 ^ 8)
  simp only [word, BitVec.toNat_or, BitVec.toNat_shiftLeft, BitVec.toNat_setWidth]
  rw [Nat.mod_eq_of_lt (by omega : hi.toNat < 2 ^ 16), Nat.mod_eq_of_lt (by omega : lo.toNat < 2 ^ 16),
    Nat.mod_eq_of_lt (by rw [Nat.shiftLeft_eq]; omega), ← h, Nat.shiftLeft_eq]
  omega

theorem word_high (hi lo : Byte) : (word hi lo >>> 8).setWidth 8 = hi := by
  apply BitVec.eq_of_toNat_eq
  have hh := hi.isLt
  have hl := lo.isLt
  simp only [BitVec.toNat_setWidth, BitVec.toNat_ushiftRight, word_toNat, Nat.shiftRight_eq_div_pow]
  omega

theorem word_low (hi lo : Byte) : (word hi lo &&& 0xFF).setWidth 8 = lo := by
  apply BitVec.eq_of_toNat_eq
  have hl := lo.isLt
  rw [BitVec.toNat_setWidth, BitVec.toNat_and, show (0xFF : Word).toNat = 2 ^ 8 - 1 from rfl,
    Nat.and_two_pow_sub_one_eq_mod, word_toNat]
  omega

end Stm32NetworkStack.Enc28Registers
