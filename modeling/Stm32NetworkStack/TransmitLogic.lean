import Stm32NetworkStack.BankDiscipline

set_option autoImplicit false

/-!
# ECON1 and the transmit logic

A chip whose ECON1 is a register and whose other registers and buffer memory
return anything. It clears TXRTS by itself at any moment between two SPI
transactions. Three counters record what the claims speak about: the
transmissions it started, the writes to ECON1 that changed a bit other than
BSEL, and the completions that fell between a read of ECON1 and the next write
to it.
-/
namespace Stm32NetworkStack.TransmitLogic
open Enc28Registers Enc28Driver SpiBus BankDiscipline Relation

structure TxChip where
  econ1 : Byte
  regs : Byte × Byte → Byte
  buffer : ℕ → Byte
  dummy : Byte
  txStarts : ℕ
  overwrites : ℕ
  races : ℕ
  /-- A transmission ended since ECON1 was last read. -/
  ended : Bool

def TxChip.txrts (c : TxChip) : Bool := c.econ1.getLsbD econ1Txrts

/-- ECON1 becomes `v`; a rising TXRTS starts a transmission. -/
def TxChip.setEcon1 (c : TxChip) (v : Byte) : TxChip :=
  { c with
    econ1 := v
    txStarts := c.txStarts + (v.getLsbD econ1Txrts && !c.txrts).toNat }

/-- Do `v` and ECON1 differ outside of BSEL? -/
def TxChip.differs (c : TxChip) (v : Byte) : Bool :=
  v &&& ~~~econ1Bsel != c.econ1 &&& ~~~econ1Bsel

def TxChip.writeEcon1 (c : TxChip) (v : Byte) : TxChip :=
  { c.setEcon1 v with
    overwrites := c.overwrites + (c.differs v).toNat
    races := c.races + c.ended.toNat }

def TxChip.update (c : TxChip) (addr v : Byte) : TxChip :=
  { c with regs := Function.update c.regs (c.econ1 &&& econ1Bsel, addr) v }

/-- What the chip does on its own: TXRTS may fall, and everything that is not
ECON1 may change. -/
def TxChip.env (c d : TxChip) : Prop :=
  d.txStarts = c.txStarts ∧ d.overwrites = c.overwrites ∧ d.races = c.races ∧
    (d.econ1 = c.econ1 ∧ d.ended = c.ended ∨
      c.txrts = true ∧ d.econ1 = c.econ1 &&& ~~~bit econ1Txrts ∧ d.ended = true)

def txCore : ChipCore TxChip where
  econ1 := TxChip.econ1
  readReg := fun c a => if a = 0x1F then c.econ1 else c.regs (c.econ1 &&& econ1Bsel, a)
  afterRead := fun c a => if a = 0x1F then { c with ended := false } else c
  writeReg := fun c a v => if a = 0x1F then c.writeEcon1 v else c.update a v
  setBits := fun c a m =>
    if a = 0x1F then c.setEcon1 (c.econ1 ||| m)
    else c.update a (c.regs (c.econ1 &&& econ1Bsel, a) ||| m)
  clearBits := fun c a m =>
    if a = 0x1F then c.setEcon1 (c.econ1 &&& ~~~m)
    else c.update a (c.regs (c.econ1 &&& econ1Bsel, a) &&& ~~~m)
  readBuf := fun c => (c.buffer 0, { c with buffer := fun n => c.buffer (n + 1) })
  writeBuf := fun c _ => c
  dummy := TxChip.dummy
  reset := fun c => { c with econ1 := 0 }
  env := TxChip.env

def TxChip.complete (c : TxChip) : TxChip :=
  if c.txrts then { c with econ1 := c.econ1 &&& ~~~bit econ1Txrts, ended := true } else c

theorem complete_env (c : TxChip) : ReflTransGen txCore.env c c.complete := by
  unfold TxChip.complete
  split_ifs with h
  · exact ReflTransGen.single ⟨rfl, rfl, rfl, Or.inr ⟨h, rfl, rfl⟩⟩
  · exact ReflTransGen.refl

theorem tx_laws : BankLaws txCore where
  read := fun c => rfl
  afterRead := fun c a => by
    simp only [txCore]
    split_ifs <;> rfl
  writeEcon1 := fun c v => rfl
  write := fun c a v h => by
    simp only [ChipCore.bsel, txCore, if_neg h]
    rfl
  set := fun c a m h => by
    simp only [ChipCore.bsel, txCore]
    split_ifs with ha
    · exact bsel_or _ _ (h ha)
    · rfl
  clear := fun c a m h => by
    simp only [ChipCore.bsel, txCore]
    split_ifs with ha
    · exact bsel_andNot _ _ (h ha)
    · rfl
  readBuf := fun c => rfl
  writeBuf := fun c b => rfl
  reset := fun c => BitVec.zero_and
  env := fun c d h => by
    rcases h.2.2.2 with ⟨he, _⟩ | ⟨_, he, _⟩
    · exact congrArg (· &&& econ1Bsel) he
    · exact (congrArg (· &&& econ1Bsel) he).trans (bsel_andNot _ _ rfl)

end Stm32NetworkStack.TransmitLogic
