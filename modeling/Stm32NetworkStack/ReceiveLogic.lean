import Stm32NetworkStack.BankDiscipline
import Stm32NetworkStack.RingLog

set_option autoImplicit false

/-!
# The receive logic

The controller's side of the receive buffer. Frames are stored behind a header
in the ring from ERXST to ERXND and counted in EPKTCNT; reads of the buffer
memory move ERDPT along the same ring. `stored` is the history of the frames the
hardware has stored, and `seen` the frame that was next in the ring when EIR was
last read.
-/
namespace Stm32NetworkStack.ReceiveLogic
open Enc28Registers Enc28Driver SpiBus BankDiscipline RingLog Relation

/-- A frame with the two status bytes the hardware keeps for it. -/
structure Frame where
  statusLo : Byte
  statusHi : Byte
  data : List Byte
  short : data.length < 0x10000

def Frame.len (f : Frame) : ℕ := f.data.length

def Frame.vector (f : Frame) : ReceiveStatusVector :=
  ⟨lowByte f.len, BitVec.ofNat 8 (f.len / 256), f.statusLo, f.statusHi⟩

/-- The bytes of a stored frame; `next` is the address of the frame behind it. -/
def Frame.bytes (f : Frame) (next : ℕ) : List Byte :=
  [lowByte next, highAddr next, f.vector.packetLenLo, f.vector.packetLenHi,
    f.statusLo, f.statusHi] ++ f.data

/-- The room the frame takes up; a frame starts at an even address. -/
def Frame.width (f : Frame) : ℕ := 6 + f.len + f.len % 2

structure RxChip where
  econ1 : Byte
  erdpt : ℕ
  ewrpt : ℕ
  etxst : ℕ
  etxnd : ℕ
  erxst : ℕ
  erxnd : ℕ
  /-- ERXRDPTL, which takes effect with ERXRDPTH. -/
  erxrdptl : Byte
  erxrdpt : ℕ
  erxwrpt : ℕ
  epktcnt : ℕ
  mem : ℕ → Byte
  regs : Byte × Byte → Byte
  dummy : Byte
  stored : List Frame
  seen : Option Frame

section
variable (c : RxChip)

def RxChip.bsel : Byte := c.econ1 &&& econ1Bsel

def RxChip.ring : Ring := ⟨c.erxst, c.erxnd - c.erxst + 1, Nat.succ_pos _⟩

/-- PKTIF is computed, RXERIF stays clear, the other flags may be anything. -/
def RxChip.eir : Byte :=
  (c.regs (c.bsel, 0x1C) &&& ~~~(bit eirPktif ||| bit eirRxerif)) |||
    if 0 < c.epktcnt then bit eirPktif else 0

/-- The frame behind the last one that the driver has counted off. -/
def RxChip.next : Option Frame := c.stored[c.stored.length - c.epktcnt]?

def RxChip.readBank0 (addr : Byte) : Byte :=
  match addr.toNat with
  | 0x00 => lowByte c.erdpt
  | 0x01 => highAddr c.erdpt
  | 0x02 => lowByte c.ewrpt
  | 0x03 => highAddr c.ewrpt
  | 0x04 => lowByte c.etxst
  | 0x05 => highAddr c.etxst
  | 0x06 => lowByte c.etxnd
  | 0x07 => highAddr c.etxnd
  | 0x08 => lowByte c.erxst
  | 0x09 => highAddr c.erxst
  | 0x0A => lowByte c.erxnd
  | 0x0B => highAddr c.erxnd
  | 0x0C => lowByte c.erxrdpt
  | 0x0D => highAddr c.erxrdpt
  | _ => c.regs (0, addr)

def RxChip.readReg (addr : Byte) : Byte :=
  if addr = 0x1F then c.econ1
  else if addr = 0x1C then c.eir
  else if c.bsel = 0 then c.readBank0 addr
  else c.regs (c.bsel, addr)

def RxChip.afterRead (addr : Byte) : RxChip :=
  if addr = 0x1C then { c with seen := c.next } else c

end

def setLow (p : ℕ) (v : Byte) : ℕ := p / 256 * 256 + v.toNat

def setHigh (p : ℕ) (v : Byte) : ℕ := v.toNat % 32 * 256 + p % 256

section
variable (c : RxChip)

/-- A write to ERXST also moves the hardware write pointer. -/
def RxChip.setErxst (p : ℕ) : RxChip := { c with erxst := p, erxwrpt := p }

def RxChip.writeBank0 (addr v : Byte) : RxChip :=
  match addr.toNat with
  | 0x00 => { c with erdpt := setLow c.erdpt v }
  | 0x01 => { c with erdpt := setHigh c.erdpt v }
  | 0x02 => { c with ewrpt := setLow c.ewrpt v }
  | 0x03 => { c with ewrpt := setHigh c.ewrpt v }
  | 0x04 => { c with etxst := setLow c.etxst v }
  | 0x05 => { c with etxst := setHigh c.etxst v }
  | 0x06 => { c with etxnd := setLow c.etxnd v }
  | 0x07 => { c with etxnd := setHigh c.etxnd v }
  | 0x08 => c.setErxst (setLow c.erxst v)
  | 0x09 => c.setErxst (setHigh c.erxst v)
  | 0x0A => { c with erxnd := setLow c.erxnd v }
  | 0x0B => { c with erxnd := setHigh c.erxnd v }
  | 0x0C => { c with erxrdptl := v }
  | 0x0D => { c with erxrdpt := setHigh c.erxrdptl.toNat v }
  | _ => { c with regs := Function.update c.regs (0, addr) v }

def RxChip.writeReg (addr v : Byte) : RxChip :=
  if addr = 0x1F then { c with econ1 := v }
  else if c.bsel = 0 then c.writeBank0 addr v
  else { c with regs := Function.update c.regs (c.bsel, addr) v }

/-- ECON2.PKTDEC decrements EPKTCNT. -/
def RxChip.setBits (addr mask : Byte) : RxChip :=
  if addr = 0x1E ∧ mask.getLsbD econ2Pktdec = true then { c with epktcnt := c.epktcnt - 1 }
  else c.writeReg addr (c.readReg addr ||| mask)

def RxChip.clearBits (addr mask : Byte) : RxChip := c.writeReg addr (c.readReg addr &&& ~~~mask)

/-- ERDPT wraps at the end of the ring, and at the end of the memory. -/
def RxChip.readBuf : Byte × RxChip :=
  (c.mem c.erdpt,
    { c with erdpt := if c.erdpt = c.erxnd then c.erxst else (c.erdpt + 1) % 0x2000 })

def RxChip.writeBuf (b : Byte) : RxChip :=
  { c with mem := Function.update c.mem c.ewrpt b, ewrpt := (c.ewrpt + 1) % 0x2000 }

/-- The state after a system reset; the history starts anew. -/
def RxChip.reset : RxChip :=
  { c with
    econ1 := 0, erdpt := 0x5FA, ewrpt := 0, etxst := 0, etxnd := 0, erxst := 0x5FA, erxnd := 0x1FFF
    erxrdptl := 0xFA, erxrdpt := 0x5FA, erxwrpt := 0, epktcnt := 0, stored := [], seen := none }

def RxChip.store (f : Frame) : RxChip :=
  { c with
    mem := c.ring.write c.erxwrpt (f.bytes (c.ring.forward c.erxwrpt f.width)) c.mem
    erxwrpt := c.ring.forward c.erxwrpt f.width
    epktcnt := c.epktcnt + 1
    stored := c.stored ++ [f] }

/-- A transmission ends: its status vector is written behind ETXND. -/
def RxChip.transmitted (vec : ℕ → Byte) : RxChip :=
  { c with
    econ1 := c.econ1 &&& ~~~bit econ1Txrts
    mem := fun a => if c.etxnd < a ∧ a ≤ c.etxnd + 7 then vec a else c.mem a }

end

/-- What the chip does on its own. A frame is stored only if it ends before
ERXRDPT; `arrives` says which frames come from the network. -/
inductive RxStep (arrives : Frame → Prop) : RxChip → RxChip → Prop
  | receive (c : RxChip) (f : Frame) (rxen : c.econ1.getLsbD econ1Rxen = true) (ok : arrives f)
      (room : f.width ≤ (c.erxrdpt + c.ring.size - c.erxwrpt) % c.ring.size) :
      RxStep arrives c (c.store f)
  | transmit (c : RxChip) (vec : ℕ → Byte) (txrts : c.econ1.getLsbD econ1Txrts = true) :
      RxStep arrives c (c.transmitted vec)
  | other (c : RxChip) (regs : Byte × Byte → Byte) : RxStep arrives c { c with regs := regs }

def rxCore (arrives : Frame → Prop) : ChipCore RxChip where
  econ1 := RxChip.econ1
  readReg := RxChip.readReg
  afterRead := RxChip.afterRead
  writeReg := RxChip.writeReg
  setBits := RxChip.setBits
  clearBits := RxChip.clearBits
  readBuf := RxChip.readBuf
  writeBuf := RxChip.writeBuf
  dummy := RxChip.dummy
  reset := RxChip.reset
  env := RxStep arrives

theorem writeReg_econ1 (c : RxChip) {a : Byte} (h : a ≠ 0x1F) (v : Byte) :
    (c.writeReg a v).econ1 = c.econ1 := by
  unfold RxChip.writeReg
  rw [if_neg h]
  split_ifs
  · unfold RxChip.writeBank0
    split <;> rfl
  · rfl

theorem readReg_econ1 (c : RxChip) : c.readReg 0x1F = c.econ1 := rfl

theorem rx_laws (arrives : Frame → Prop) : BankLaws (rxCore arrives) where
  read := readReg_econ1
  afterRead := fun c a => by
    simp only [rxCore, RxChip.afterRead]
    split_ifs <;> rfl
  writeEcon1 := fun c v => rfl
  write := fun c a v h => congrArg (· &&& econ1Bsel) (writeReg_econ1 c h v)
  set := fun c a m h => by
    simp only [ChipCore.bsel, rxCore, RxChip.setBits]
    split_ifs
    · rfl
    · refine set_bsel (fun ha => writeReg_econ1 c ha _) (fun ha => ?_) h
      subst ha
      rfl
  clear := fun c a m h => by
    refine clear_bsel (fun ha => writeReg_econ1 c ha _) (fun ha => ?_) h
    subst ha
    rfl
  readBuf := fun c => rfl
  writeBuf := fun c b => rfl
  reset := fun c => BitVec.zero_and
  env := fun c d h => by
    cases h with
    | receive f rxen ok room => rfl
    | transmit vec txrts => exact bsel_andNot _ _ rfl
    | other regs => rfl

end Stm32NetworkStack.ReceiveLogic
