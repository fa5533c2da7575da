import Stm32NetworkStack.RegisterRefinement

set_option autoImplicit false

/-!
# Reading the PHY

The MII interface of the chip: a write of MICMD.MIIRD starts to read the PHY
register that MIREGADR names, MISTAT.BUSY stays set for some polls, and then
MIRD holds the value. `enc28_do_read_phy_register` returns the register it is
asked for, and looks at MIRD only behind a poll that saw BUSY clear.
-/
namespace Stm32NetworkStack.MiiReads
open InteractivePrograms Enc28Registers Enc28Driver SpiBus BankDiscipline DriverBanks RegisterFile
open RegisterRefinement Relation

/-- The PHY registers of the chip. -/
def phyRegisters : List Byte := [0x00, 0x01, 0x02, 0x03, 0x10, 0x11, 0x12, 0x13, 0x14]

theorem isPhyReg_iff (regId : Byte) : privEnc28IsPhyReg regId = true ↔ regId ∈ phyRegisters := by
  revert regId
  decide

/-- `delay` polls see BUSY set after a read command, and `busy` more will. -/
structure MiiChip where
  regs : Registers Byte Byte Byte
  phy : Byte → Word
  delay : ℕ
  busy : ℕ
  /-- The PHY register that was named when the read began. -/
  reading : Byte
  /-- BUSY has been seen clear since the last read command. -/
  polled : Bool
  /-- MIRD has been read when it had not. -/
  unready : Bool

section
variable (c : MiiChip)

def MiiChip.econ1 : Byte := c.regs.shared 0x1F

def MiiChip.bsel : Byte := c.econ1 &&& econ1Bsel

def MiiChip.get (bank addr : Byte) : Byte := c.regs.read isShared bank addr

def MiiChip.put (bank addr v : Byte) : MiiChip :=
  { c with regs := c.regs.write isShared bank addr v }

/-- MIRD takes the value when the read is over. -/
def MiiChip.settle : MiiChip :=
  match c.busy with
  | 0 => (c.put 2 CtlReg.mirdl.addr ((c.phy c.reading).setWidth 8)).put 2 CtlReg.mirdh.addr
      ((c.phy c.reading >>> 8).setWidth 8)
  | _ + 1 => c

def MiiChip.startRead : MiiChip :=
  MiiChip.settle
    { c with busy := c.delay, reading := c.get 2 CtlReg.miregadr.addr, polled := false }

/-- What a read of MISTAT does to the chip. -/
def MiiChip.poll : MiiChip :=
  match c.busy with
  | 0 => { c with polled := true }
  | busy + 1 => MiiChip.settle { c with busy := busy }

/-- BUSY is no storage. -/
def MiiChip.mistat : Byte :=
  (c.get 3 CtlReg.mistat.addr &&& ~~~bit mistatBusy) ||| if 0 < c.busy then bit mistatBusy else 0

def MiiChip.readReg (addr : Byte) : Byte :=
  if c.bsel = 3 ∧ addr = CtlReg.mistat.addr then c.mistat else c.get c.bsel addr

def MiiChip.afterRead (addr : Byte) : MiiChip :=
  if c.bsel = 3 ∧ addr = CtlReg.mistat.addr then c.poll
  else if c.bsel = 2 ∧ (addr = CtlReg.mirdl.addr ∨ addr = CtlReg.mirdh.addr) then
    { c with unready := c.unready || !c.polled }
  else c

def MiiChip.writeReg (addr v : Byte) : MiiChip :=
  if c.bsel = 2 ∧ addr = CtlReg.micmd.addr ∧ v.getLsbD micmdMiird = true then
    (c.put c.bsel addr v).startRead
  else c.put c.bsel addr v

/-- The bit field commands have no effect on MAC and MII registers. -/
def MiiChip.changeBits (addr v : Byte) : MiiChip :=
  if (macMiiAddrs c.bsel).contains addr then c else c.put c.bsel addr v

end

/-- The chip does nothing on its own. `dummy` is any byte it sends when it has
nothing to say. -/
def miiCore (dummy : MiiChip → Byte) : ChipCore MiiChip where
  econ1 := MiiChip.econ1
  readReg := MiiChip.readReg
  afterRead := MiiChip.afterRead
  writeReg := MiiChip.writeReg
  setBits := fun c addr mask => c.changeBits addr (c.get c.bsel addr ||| mask)
  clearBits := fun c addr mask => c.changeBits addr (c.get c.bsel addr &&& ~~~mask)
  readBuf := fun c => (dummy c, c)
  writeBuf := fun c _ => c
  dummy := dummy
  reset := fun c => c.put 0 0x1F 0
  env := fun _ _ => False

section
variable (c : MiiChip) {bank addr : Byte} (v : Byte)

theorem put_econ1 (h : addr ≠ 0x1F) : (c.put bank addr v).econ1 = c.econ1 :=
  shared_write_other c.regs v h

theorem put_bank : (c.put bank 0x1F v).econ1 = v := by
  change (c.regs.write isShared bank 0x1F v).shared 0x1F = v
  rw [shared_write c.regs v (by decide)]

theorem get_put : (c.put bank addr v).get bank addr = v :=
  read_write_same c.regs v ⟨rfl, Or.inr rfl⟩

theorem get_put_other {b a : Byte} (h : addr ≠ a) : (c.put bank addr v).get b a = c.get b a :=
  read_write_other c.regs v fun hs => h hs.1

theorem settle_econ1 : c.settle.econ1 = c.econ1 := by
  unfold MiiChip.settle
  split
  · rw [put_econ1 _ _ (by decide), put_econ1 _ _ (by decide)]
  · rfl

theorem poll_econ1 : c.poll.econ1 = c.econ1 := by
  unfold MiiChip.poll
  split
  · rfl
  · exact settle_econ1 _

theorem afterRead_econ1 (a : Byte) : (c.afterRead a).econ1 = c.econ1 := by
  unfold MiiChip.afterRead
  split_ifs
  · exact poll_econ1 c
  · rfl
  · rfl

theorem writeReg_econ1 (h : addr ≠ 0x1F) : (c.writeReg addr v).econ1 = c.econ1 := by
  unfold MiiChip.writeReg
  split_ifs
  · exact (settle_econ1 _).trans (put_econ1 c v h)
  · exact put_econ1 c v h

theorem writeReg_bank : c.writeReg 0x1F v = c.put c.bsel 0x1F v :=
  if_neg fun h => absurd h.2.1 (by decide)

theorem get_econ1 (b : Byte) : c.get b 0x1F = c.econ1 := read_shared c.regs (by decide) b

theorem changeBits_econ1 (h : addr ≠ 0x1F) : (c.changeBits addr v).econ1 = c.econ1 := by
  unfold MiiChip.changeBits
  split_ifs
  · rfl
  · exact put_econ1 c v h

theorem changeBits_bank : (c.changeBits 0x1F v).econ1 = v := by
  unfold MiiChip.changeBits
  rw [econ1_not_mac]
  exact put_bank c v

end

theorem mii_laws (dummy : MiiChip → Byte) : BankLaws (miiCore dummy) where
  read := fun c => by
    have hother : ¬ (c.bsel = 3 ∧ (0x1F : Byte) = CtlReg.mistat.addr) := fun h => absurd h.2 (by decide)
    exact (if_neg hother).trans (get_econ1 c _)
  afterRead := afterRead_econ1
  writeEcon1 := fun c v => by
    change (c.writeReg 0x1F v).econ1 &&& econ1Bsel = _
    rw [writeReg_bank, put_bank]
  write := fun c a v h => congrArg (· &&& econ1Bsel) (writeReg_econ1 c v h)
  set := fun c a m h => by
    refine set_bsel (changeBits_econ1 c _) (fun ha => ?_) h
    subst ha
    exact (changeBits_bank c _).trans (congrArg (· ||| m) (get_econ1 c _))
  clear := fun c a m h => by
    refine clear_bsel (changeBits_econ1 c _) (fun ha => ?_) h
    subst ha
    exact (changeBits_bank c _).trans (congrArg (· &&& ~~~m) (get_econ1 c _))
  readBuf := fun c => rfl
  writeBuf := fun c b => rfl
  reset := fun c => by
    change (c.put 0 0x1F 0).econ1 &&& econ1Bsel = 0
    rw [put_bank]
    exact BitVec.zero_and
  env := fun _ _ h => h.elim

/-- The registers a PHY read may change, ECON1 apart. -/
def miiRegisters : List Byte :=
  [CtlReg.miregadr.addr, CtlReg.micmd.addr, CtlReg.mirdl.addr, CtlReg.mirdh.addr]

/-- `d` is `c` but for ECON1.BSEL and those registers. -/
structure OnlyMii (c d : MiiChip) : Prop where
  phy : d.phy = c.phy
  econ1 : d.econ1 &&& ~~~econ1Bsel = c.econ1 &&& ~~~econ1Bsel
  regs : ∀ bank addr, addr ≠ 0x1F → ¬ (bank = 2 ∧ addr ∈ miiRegisters) →
    d.get bank addr = c.get bank addr

/-- What holds all the way: nothing else has changed, and MIRD was not read too early. -/
structure Reading (c₀ c : MiiChip) : Prop where
  only : OnlyMii c₀ c
  delay : c.delay = c₀.delay
  ready : c.unready = false

/-- The read has begun, and `n` polls will see BUSY. -/
structure Waiting (c₀ : MiiChip) (regId : Byte) (n : ℕ) (c : MiiChip) : Prop where
  base : Reading c₀ c
  reading : c.reading = regId
  busy : c.busy = n
  value : n = 0 → word (c.get 2 CtlReg.mirdh.addr) (c.get 2 CtlReg.mirdl.addr) = c₀.phy regId

/-- BUSY was seen clear. -/
structure Read (c₀ : MiiChip) (regId : Byte) (c : MiiChip) : Prop where
  base : Reading c₀ c
  polled : c.polled = true
  value : word (c.get 2 CtlReg.mirdh.addr) (c.get 2 CtlReg.mirdl.addr) = c₀.phy regId

theorem word_parts (v : Word) : word ((v >>> 8).setWidth 8) (v.setWidth 8) = v := by
  apply BitVec.eq_of_toNat_eq
  have hv := v.isLt
  rw [word_toNat]
  simp only [BitVec.toNat_setWidth, BitVec.toNat_ushiftRight, Nat.shiftRight_eq_div_pow]
  omega

section
variable {c₀ c : MiiChip} {regId : Byte}

theorem mii_banked {addr : Byte} (h : addr ∈ miiRegisters) : addr ≠ 0x1F ∧ isShared addr = false := by
  revert addr
  decide

theorem OnlyMii.put (h : OnlyMii c₀ c) {addr : Byte} (ha : addr ∈ miiRegisters) (v : Byte) :
    OnlyMii c₀ (c.put 2 addr v) where
  phy := h.phy
  econ1 := by
    rw [put_econ1 c v (mii_banked ha).1]
    exact h.econ1
  regs := fun b a hb hm => by
    have hother : ¬ SameRegister isShared 2 addr b a := by
      rintro ⟨rfl, hs | rfl⟩
      · exact absurd (hs.symm.trans (mii_banked ha).2) (by decide)
      · exact hm ⟨rfl, ha⟩
    exact (read_write_other c.regs v hother).trans (h.regs b a hb hm)

theorem OnlyMii.select (h : OnlyMii c₀ c) {b : Byte} (hb : b.toNat < 4) (bank : Byte) :
    OnlyMii c₀ (c.put bank 0x1F (econ1WithBank c.econ1 b)) where
  phy := h.phy
  econ1 := by
    rw [put_bank, econ1WithBank_rest _ _ hb]
    exact h.econ1
  regs := fun b' a ha hm => (get_put_other c _ ha.symm).trans (h.regs b' a ha hm)

theorem Reading.put (h : Reading c₀ c) {addr : Byte} (ha : addr ∈ miiRegisters) (v : Byte) :
    Reading c₀ (c.put 2 addr v) :=
  ⟨h.only.put ha v, h.delay, h.ready⟩

theorem Reading.select (h : Reading c₀ c) {b : Byte} (hb : b.toNat < 4) (bank : Byte) :
    Reading c₀ (c.put bank 0x1F (econ1WithBank c.econ1 b)) :=
  ⟨h.only.select hb bank, h.delay, h.ready⟩

theorem get_select (c : MiiChip) {b addr : Byte} (bank v : Byte) (h : addr ≠ 0x1F) :
    (c.put bank 0x1F v).get b addr = c.get b addr :=
  get_put_other c v h.symm

/-- The end of the countdown puts the value into MIRD. -/
theorem settle_waiting (h : Reading c₀ c) (hr : c.reading = regId) :
    Waiting c₀ regId c.busy c.settle := by
  have hphy := h.only.phy
  obtain hb | ⟨n, hb⟩ : c.busy = 0 ∨ ∃ n, c.busy = n + 1 := by
    cases c.busy with
    | zero => exact Or.inl rfl
    | succ n => exact Or.inr ⟨n, rfl⟩
  · have hs : c.settle = (c.put 2 CtlReg.mirdl.addr ((c.phy c.reading).setWidth 8)).put 2
        CtlReg.mirdh.addr ((c.phy c.reading >>> 8).setWidth 8) := by
      unfold MiiChip.settle
      rw [hb]
    rw [hs]
    refine ⟨(h.put (by decide) _).put (by decide) _, hr, rfl, fun _ => ?_⟩
    rw [get_put, get_put_other _ _ (by decide), get_put, word_parts, hphy, hr]
  · have hs : c.settle = c := by
      unfold MiiChip.settle
      rw [hb]
    rw [hs]
    exact ⟨h, hr, rfl, fun hz => absurd (hb.symm.trans hz) (Nat.succ_ne_zero n)⟩

theorem startRead_waiting (h : Reading c₀ c) (ha : c.get 2 CtlReg.miregadr.addr = regId) :
    Waiting c₀ regId c₀.delay c.startRead := by
  have hd := h.delay
  rw [← hd]
  exact settle_waiting
    (c := { c with busy := c.delay, reading := c.get 2 CtlReg.miregadr.addr, polled := false })
    ⟨⟨h.only.phy, h.only.econ1, h.only.regs⟩, h.delay, h.ready⟩ ha

theorem Waiting.select {n : ℕ} (h : Waiting c₀ regId n c) {b : Byte} (hb : b.toNat < 4) (bank : Byte) :
    Waiting c₀ regId n (c.put bank 0x1F (econ1WithBank c.econ1 b)) := by
  refine ⟨h.base.select hb bank, h.reading, h.busy, fun hn => ?_⟩
  rw [get_select c _ _ (by decide), get_select c _ _ (by decide)]
  exact h.value hn

theorem Read.select (h : Read c₀ regId c) {b : Byte} (hb : b.toNat < 4) (bank : Byte) :
    Read c₀ regId (c.put bank 0x1F (econ1WithBank c.econ1 b)) := by
  refine ⟨h.base.select hb bank, h.polled, ?_⟩
  rw [get_select c _ _ (by decide), get_select c _ _ (by decide)]
  exact h.value

/-- A poll sees BUSY and counts down, or sees it clear. -/
theorem poll_waiting {n : ℕ} (h : Waiting c₀ regId n c) :
    (c.mistat.getLsbD mistatBusy = true ∧ ∃ m, n = m + 1 ∧ Waiting c₀ regId m c.poll) ∨
    (c.mistat.getLsbD mistatBusy = false ∧ Read c₀ regId c.poll) := by
  have hset : ∀ v : Byte, ((v &&& ~~~bit mistatBusy) ||| bit mistatBusy).getLsbD mistatBusy = true ∧
      ((v &&& ~~~bit mistatBusy) ||| 0).getLsbD mistatBusy = false := by decide
  have hb := h.busy
  cases n with
  | zero =>
    have hp : c.poll = { c with polled := true } := by
      unfold MiiChip.poll
      rw [hb]
    refine Or.inr ⟨?_, ?_⟩
    · unfold MiiChip.mistat
      rw [hb, if_neg (by omega)]
      exact (hset _).2
    · rw [hp]
      exact ⟨⟨⟨h.base.only.phy, h.base.only.econ1, h.base.only.regs⟩, h.base.delay, h.base.ready⟩,
        rfl, h.value rfl⟩
  | succ m =>
    have hp : c.poll = MiiChip.settle { c with busy := m } := by
      unfold MiiChip.poll
      rw [hb]
    refine Or.inl ⟨?_, m, rfl, ?_⟩
    · unfold MiiChip.mistat
      rw [hb, if_pos (by omega)]
      exact (hset _).1
    · rw [hp]
      exact settle_waiting (c := { c with busy := m })
        ⟨⟨h.base.only.phy, h.base.only.econ1, h.base.only.regs⟩, h.base.delay, h.base.ready⟩ h.reading

end

section
variable {dummy : MiiChip → Byte} {ctx : Option SpiContext} {agree : Bool} {c₀ : MiiChip} {regId : Byte}

theorem still (P : MiiChip → Prop) : EnvClosed (miiCore dummy) P := fun _ _ _ h => h.elim

theorem no_steps {c d : MiiChip} (h : ReflTransGen (miiCore dummy).env c d) : d = c := by
  induction h with
  | refl => rfl
  | tail _ hs => exact hs.elim

theorem afterRead_bank (c : MiiChip) : c.afterRead 0x1F = c := by
  have hmistat : ¬ (c.bsel = 3 ∧ (0x1F : Byte) = CtlReg.mistat.addr) := fun h => absurd h.2 (by decide)
  have hmird : ¬ (c.bsel = 2 ∧ ((0x1F : Byte) = CtlReg.mirdl.addr ∨ (0x1F : Byte) = CtlReg.mirdh.addr)) :=
    fun h => absurd h.2 (by decide)
  unfold MiiChip.afterRead
  rw [if_neg hmistat, if_neg hmird]

theorem select_mii {P : MiiChip → Prop} (hc : canWrite ctx = true) {b : Byte} (hb : b.toNat < 4)
    (h : ∀ c bank, P c → P (c.put bank 0x1F (econ1WithBank c.econ1 b))) :
    Spec (miiCore dummy) (Idle (miiCore dummy) P agree) (enc28SelectRegisterBank ctx b)
      (InBank (miiCore dummy) P b) (fun _ => False) := by
  refine Spec.sure hc (select_rule (mii_laws dummy) hb (still P) (fun c hp => ?_) (still P) fun c d hp hd => ?_)
  · change P (c.afterRead 0x1F)
    rwa [afterRead_bank]
  · obtain rfl : d = c := (no_steps hd).trans (afterRead_bank c)
    change P (d.writeReg 0x1F (econ1WithBank d.econ1 b))
    rw [writeReg_bank]
    exact h d _ hp

theorem write_mii {P P' : MiiChip → Prop} (hc : canWrite ctx = true) {reg : CtlReg}
    (hr : reg.bank = some 2) (value : Byte) (h : ∀ c, P c → c.bsel = 2 → P' (c.writeReg reg.addr value)) :
    Spec (miiCore dummy) (InBank (miiCore dummy) P 2) (enc28DoWriteCtlReg ctx reg value)
      (InBank (miiCore dummy) P' 2) (fun _ => False) :=
  Spec.sure hc (write_rule (mii_laws dummy) hr value (still P') h)

theorem polls_end (hc : canWrite ctx = true) {n rounds : ℕ} (hn : n < rounds) :
    Spec (miiCore dummy) (InBank (miiCore dummy) (Waiting c₀ regId n) 3) (pollMistat ctx rounds)
      (InBank (miiCore dummy) (Read c₀ regId) 3) (fun _ => False) := by
  induction rounds generalizing n with
  | zero => omega
  | succ rounds ih =>
    let V : Byte → MiiChip → Prop := fun v c =>
      (v.getLsbD mistatBusy = true ∧ ∃ m, n = m + 1 ∧ Waiting c₀ regId m c) ∨
      (v.getLsbD mistatBusy = false ∧ Read c₀ regId c)
    have hread := read_rule (mii_laws dummy) (V := V) (X := fun _ => False) (canRead_of_canWrite hc)
      .mistat rfl 0xff (fun v => still _) fun c (hp : Waiting c₀ regId n c) hb => by
        have hv : (miiCore dummy).readReg c CtlReg.mistat.addr = c.mistat := if_pos ⟨hb, rfl⟩
        have ha : (miiCore dummy).afterRead c CtlReg.mistat.addr = c.poll := if_pos ⟨hb, rfl⟩
        rw [hv, ha]
        exact poll_waiting hp
    unfold pollMistat
    refine Triple.bind hread fun r w hw => ?_
    obtain ⟨status, v⟩ := r
    obtain ⟨hs, hphase, hv, hbank⟩ := hw
    obtain rfl : status = .ok := hs
    rcases hv with ⟨hbusy, m, rfl, hm⟩ | ⟨hclear, hdone⟩
    · simp only [if_true, hbusy]
      exact (wp_wait 1 _).2 (ih (by omega) w ⟨hphase, hm, hbank⟩)
    · simp only [if_true, hclear, Bool.false_eq_true, if_false]
      exact ⟨hphase, hdone, hbank⟩

/-- The driver has taken back the read command. -/
def Finished (c₀ : MiiChip) (regId : Byte) (c : MiiChip) : Prop :=
  Read c₀ regId c ∧ c.get 2 CtlReg.micmd.addr = 0

theorem phyReadCommand_reads (hc : canWrite ctx = true) {rounds : ℕ} (hn : c₀.delay < rounds) :
    Spec (miiCore dummy) (Idle (miiCore dummy) (Reading c₀) agree) (phyReadCommand rounds ctx regId)
      (InBank (miiCore dummy) (Finished c₀ regId) 2) (fun _ => False) := by
  have addressed : Spec (miiCore dummy) (InBank (miiCore dummy) (Reading c₀) 2)
      (enc28DoWriteCtlReg ctx .miregadr regId)
      (InBank (miiCore dummy) (fun c => Reading c₀ c ∧ c.get 2 CtlReg.miregadr.addr = regId) 2)
      (fun _ => False) := by
    refine write_mii hc rfl regId fun c hp hb => ?_
    have hput : c.writeReg CtlReg.miregadr.addr regId = c.put 2 CtlReg.miregadr.addr regId := by
      rw [← hb]
      exact if_neg fun h => absurd h.2.1 (by decide)
    rw [hput]
    exact ⟨hp.put (by decide) regId, get_put c regId⟩
  have started : Spec (miiCore dummy)
      (InBank (miiCore dummy) (fun c => Reading c₀ c ∧ c.get 2 CtlReg.miregadr.addr = regId) 2)
      (enc28DoWriteCtlReg ctx .micmd (bit micmdMiird))
      (InBank (miiCore dummy) (Waiting c₀ regId c₀.delay) 2) (fun _ => False) := by
    refine write_mii hc rfl _ fun c hp hb => ?_
    have hstart : c.writeReg CtlReg.micmd.addr (bit micmdMiird) =
        (c.put 2 CtlReg.micmd.addr (bit micmdMiird)).startRead := by
      rw [← hb]
      exact if_pos ⟨hb, rfl, by decide⟩
    rw [hstart]
    exact startRead_waiting (hp.1.put (by decide) _) ((get_put_other c _ (by decide)).trans hp.2)
  have stopped : Spec (miiCore dummy) (InBank (miiCore dummy) (Read c₀ regId) 2)
      (enc28DoWriteCtlReg ctx .micmd 0) (InBank (miiCore dummy) (Finished c₀ regId) 2)
      (fun _ => False) := by
    refine write_mii hc rfl 0 fun c hp hb => ?_
    have hput : c.writeReg CtlReg.micmd.addr 0 = c.put 2 CtlReg.micmd.addr 0 := by
      rw [← hb]
      exact if_neg fun h => absurd h.2.2 (by decide)
    rw [hput]
    refine ⟨⟨hp.base.put (by decide) 0, hp.polled, ?_⟩, get_put c 0⟩
    rw [get_put_other c 0 (by decide), get_put_other c 0 (by decide)]
    exact hp.value
  refine (select_mii hc (by decide) fun c bank hp => hp.select (by decide) bank).exit <|
    addressed.exit <| started.exit fun w hw => (wp_wait _ _).2 ?_
  revert w
  refine Spec.fromBank false ?_
  refine (select_mii hc (by decide) fun c bank hp => hp.select (by decide) bank).exit <|
    (polls_end hc hn).exit <| Spec.fromBank false ?_
  exact (select_mii hc (by decide) fun c bank hp => hp.select (by decide) bank).exit stopped

/-- A read of MIRD changes nothing when a poll has seen BUSY clear. -/
theorem afterRead_mird {c : MiiChip} (h : Finished c₀ regId c) (addr : Byte)
    (hm : addr ≠ CtlReg.mistat.addr) : c.afterRead addr = c := by
  have hu := h.1.base.ready
  have hp := h.1.polled
  have hsame : (c.unready || !c.polled) = c.unready := by
    rw [hu, hp]
    rfl
  unfold MiiChip.afterRead
  rw [if_neg fun h => hm h.2, hsame]
  exact ite_self c

theorem read_mird (hc : canWrite ctx = true) {P : MiiChip → Prop} (hP : ∀ c, P c → Finished c₀ regId c)
    {r : CtlReg} (hr : r.bank = some 2) (hm : r.addr ≠ CtlReg.mistat.addr) (old : Byte)
    {X : World MiiChip → Prop} :
    Bank (miiCore dummy) (InBank (miiCore dummy) P 2) (enc28DoReadCtlReg ctx r (some old))
      (fun x w => x.1 = .ok ∧ InBank (miiCore dummy) (fun c => P c ∧ c.get 2 r.addr = x.2) 2 w) X := by
  refine read_rule (mii_laws dummy) (V := fun v c => P c ∧ c.get 2 r.addr = v) (canRead_of_canWrite hc)
    r hr old (fun v => still _) fun c hp hb => ?_
  have hv : (miiCore dummy).readReg c r.addr = c.get 2 r.addr := by
    rw [← hb]
    exact if_neg fun h => hm h.2
  have ha : (miiCore dummy).afterRead c r.addr = c := afterRead_mird (hP c hp) r.addr hm
  rw [hv, ha]
  exact ⟨hp, rfl⟩

theorem readPhyRegister_reads (hc : canWrite ctx = true) (hid : privEnc28IsPhyReg regId = true) {rounds : ℕ}
    (hn : c₀.delay < rounds) (regValue : Word) :
    Bank (miiCore dummy) (Idle (miiCore dummy) (Reading c₀) agree)
      (enc28DoReadPhyRegister rounds ctx regId regValue)
      (fun r w => r = (.ok, c₀.phy regId) ∧ InBank (miiCore dummy) (Finished c₀ regId) 2 w)
      (fun _ => False) := by
  cases ctx with
  | none => cases hc
  | some s =>
    have hguard : (!s.nssPinOp || !s.spiInOp || !s.spiOutOp || !s.waitNano) = false := by
      rw [canWrite_some, hc]
      rfl
    unfold enc28DoReadPhyRegister
    simp only [hid, hguard, Bool.not_true, Bool.false_eq_true, if_false, bind_eq, pure_eq]
    refine Triple.bind (phyReadCommand_reads hc hn) fun status => onOk ?_ fun _ w hw => hw.elim
    refine Triple.bind (read_mird hc (fun _ h => h) (r := .mirdl) rfl (by decide) 0xff) fun lo w hw => ?_
    obtain ⟨hlo, hw⟩ := hw
    simp only [hlo, if_true]
    revert w
    refine Triple.bind (read_mird hc (fun _ h => h.1) (r := .mirdh) rfl (by decide) 0xff) fun hi w hw => ?_
    obtain ⟨hhi, hphase, ⟨⟨hdone, hlow⟩, hhigh⟩, hbank⟩ := hw
    simp only [hhi, if_true]
    refine ⟨?_, hphase, hdone, hbank⟩
    rw [← hdone.1.value, hlow, hhigh]

/-- With any other id there is no call at all. -/
theorem readPhyRegister_refuses (hid : privEnc28IsPhyReg regId = false) (rounds : ℕ) (regValue : Word) :
    enc28DoReadPhyRegister rounds ctx regId regValue = .ret (.invalidParam, regValue) := by
  unfold enc28DoReadPhyRegister
  rw [hid]
  rfl

end

/-- A PHY read returns the register it names, whatever bank driver and chip
start in and however long BUSY stays set; another id sends nothing. -/
theorem phy_reads_return (dummy : MiiChip → Byte) (ctx : Option SpiContext) (regId : Byte) (regValue : Word)
    (rounds : ℕ) (w : World MiiChip) :
    (regId ∈ phyRegisters → canWrite ctx = true → w.phase = .high → w.chip.delay < rounds →
      w.chip.unready = false →
      (∃ t o u, Exec (busMachine (miiCore dummy))
        (enc28DoReadPhyRegister rounds ctx regId regValue) w t o u) ∧
      ∀ t o u, Exec (busMachine (miiCore dummy))
          (enc28DoReadPhyRegister rounds ctx regId regValue) w t o u →
        o = some (.ok, w.chip.phy regId) ∧ u.phase = .high ∧ u.currBank = 2 ∧ u.chip.bsel = 2 ∧
        u.chip.get 2 CtlReg.micmd.addr = 0 ∧ u.chip.unready = false ∧ OnlyMii w.chip u.chip) ∧
    (regId ∉ phyRegisters → ∀ (M : Machine Call Call.Reply (World MiiChip)) t o u,
      Exec M (enc28DoReadPhyRegister rounds ctx regId regValue) w t o u →
        t = [] ∧ o = some (.invalidParam, regValue) ∧ u = w) := by
  constructor
  · intro hid callbacks idle polls ready
    refine ⟨(bus_total (miiCore dummy)).exec _ w, fun t o u run => ?_⟩
    have hstart : Idle (miiCore dummy) (Reading w.chip) false w :=
      Idle.unbanked idle ⟨⟨rfl, rfl, fun _ _ _ _ => rfl⟩, rfl, ready⟩
    have hend := (Triple.sound (readPhyRegister_reads callbacks ((isPhyReg_iff regId).mpr hid) polls regValue)
      hstart run).2
    cases o with
    | none => exact hend.elim
    | some r =>
      obtain ⟨rfl, hphase, hdone, hcurr, hbsel⟩ := hend
      exact ⟨rfl, hphase, hcurr, hbsel, hdone.2, hdone.1.base.ready, hdone.1.base.only⟩
  · intro hid M t o u run
    have hfalse : privEnc28IsPhyReg regId = false := by
      rw [Bool.eq_false_iff]
      exact fun h => hid ((isPhyReg_iff regId).mp h)
    rw [readPhyRegister_refuses hfalse] at run
    cases run
    exact ⟨rfl, rfl, rfl⟩

/-- Each register is read through three busy polls, from a driver that has the bank wrong;
there is no PHY register 0x04. -/
theorem phy_reads_return_each :
    let chip : MiiChip :=
      ⟨⟨fun _ _ => 0, fun _ => 1⟩, fun regId => 0x3460 + regId.setWidth 16, 3, 0, 0, false, false⟩
    (∀ regId ∈ phyRegisters, ∃ t u, Exec (busMachine (miiCore fun _ => 0xEE))
      (enc28DoReadPhyRegister 4 (some fullContext) regId 0) ⟨chip, .high, 3⟩ t
        (some (.ok, 0x3460 + regId.setWidth 16)) u ∧ OnlyMii chip u.chip) ∧
    ∀ t o u, Exec (busMachine (miiCore fun _ => 0xEE)) (enc28DoReadPhyRegister 4 (some fullContext) 0x04 0)
      ⟨chip, .high, 3⟩ t o u → t = [] := by
  intro chip
  constructor
  · intro regId hid
    obtain ⟨⟨t, o, u, run⟩, hall⟩ := (phy_reads_return (fun _ => 0xEE) (some fullContext) regId 0 4
      ⟨chip, .high, 3⟩).1 hid rfl rfl (by decide) rfl
    obtain ⟨rfl, -, -, -, -, -, honly⟩ := hall t o u run
    exact ⟨t, u, run, honly⟩
  · intro t o u run
    exact ((phy_reads_return (fun _ => 0xEE) (some fullContext) 0x04 0 4 ⟨chip, .high, 3⟩).2
      (by decide) _ t o u run).1

end Stm32NetworkStack.MiiReads
