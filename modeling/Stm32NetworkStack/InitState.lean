import Mathlib.Data.Fin.Tuple.Basic
import Stm32NetworkStack.RegisterRefinement

set_option autoImplicit false

/-!
# What the initialization leaves behind

The registers that `enc28_do_init` sets up belong to the host: the chip does not
change them. Every other register may change at any time, among them ESTAT,
MISTAT and MIRD, so the clock and the PHY take as long as they like and the PHY
answers what it likes.
-/
namespace Stm32NetworkStack.InitState
open InteractivePrograms Enc28Registers Enc28Driver DriverCommands SpiBus BankDiscipline DriverBanks
open RegisterFile RegisterRefinement Relation

def macRegisters : List CtlReg := [.macAdd1, .macAdd2, .macAdd3, .macAdd4, .macAdd5, .macAdd6]

/-- The registers that only the host changes. -/
def hostRegisters : List CtlReg :=
  [.erxstl, .erxsth, .erxndl, .erxndh, .erxrdptl, .erxrdpth, .erxfcon, .mamxfll, .mamxflh] ++ macRegisters

structure InitChip where
  regs : Registers Byte Byte Byte
  /-- ERXRDPTL as it was written; it takes effect with ERXRDPTH. -/
  erxrdptl : Byte
  /-- What the buffer memory will answer. -/
  memory : ℕ → Byte
  dummy : Byte
  /-- ESTAT has been read with CLKRDY set. -/
  clkSeen : Bool
  /-- A MAC or MII register has been accessed before that. -/
  early : Bool

section
variable (c : InitChip)

def InitChip.econ1 : Byte := c.regs.shared 0x1F

def InitChip.bsel : Byte := c.econ1 &&& econ1Bsel

def InitChip.get (bank addr : Byte) : Byte := c.regs.read isShared bank addr

def InitChip.put (bank addr v : Byte) : InitChip :=
  { c with regs := c.regs.write isShared bank addr v }

def InitChip.value (reg : CtlReg) : Byte := c.get (reg.bank.getD 0) reg.addr

/-- The value of a pair of registers. -/
def InitChip.pair (hi lo : CtlReg) : ℕ := (word (c.value hi) (c.value lo)).toNat

def InitChip.access (addr : Byte) : InitChip :=
  { c with early := c.early || ((macMiiAddrs c.bsel).contains addr && !c.clkSeen) }

def InitChip.afterRead (addr : Byte) : InitChip :=
  { c.access addr with
    clkSeen := c.clkSeen || (addr == CtlReg.estat.addr && (c.get c.bsel addr).getLsbD estatClkrdy) }

def InitChip.writeReg (addr v : Byte) : InitChip :=
  if c.bsel = 0 ∧ addr = CtlReg.erxrdptl.addr then { c with erxrdptl := v }
  else if c.bsel = 0 ∧ addr = CtlReg.erxrdpth.addr then
    (c.put 0 CtlReg.erxrdptl.addr c.erxrdptl).put 0 addr v
  else (c.access addr).put c.bsel addr v

/-- The bit field commands have no effect on MAC and MII registers. -/
def InitChip.changeBits (addr v : Byte) : InitChip :=
  if (macMiiAddrs c.bsel).contains addr then c.access addr else c.writeReg addr v

end

def InitStep (c d : InitChip) : Prop :=
  d.bsel = c.bsel ∧ (∀ reg ∈ hostRegisters, d.value reg = c.value reg) ∧
    d.erxrdptl = c.erxrdptl ∧ d.clkSeen = c.clkSeen ∧ d.early = c.early

def initCore : ChipCore InitChip where
  econ1 := InitChip.econ1
  readReg := fun c addr => c.get c.bsel addr
  afterRead := InitChip.afterRead
  writeReg := InitChip.writeReg
  setBits := fun c addr mask => c.changeBits addr (c.get c.bsel addr ||| mask)
  clearBits := fun c addr mask => c.changeBits addr (c.get c.bsel addr &&& ~~~mask)
  readBuf := fun c => (c.memory 0, { c with memory := fun n => c.memory (n + 1) })
  writeBuf := fun c _ => c
  dummy := InitChip.dummy
  reset := fun c => { c with regs := ⟨fun _ _ => 0, fun _ => 0⟩, clkSeen := false }
  env := InitStep

section
variable (c : InitChip) {bank addr : Byte} (v : Byte)

theorem put_econ1 (h : addr ≠ 0x1F) : (c.put bank addr v).econ1 = c.econ1 :=
  shared_write_other c.regs v h

theorem put_bank : (c.put bank 0x1F v).econ1 = v := by
  change (c.regs.write isShared bank 0x1F v).shared 0x1F = v
  rw [shared_write c.regs v (by decide)]

theorem get_econ1 (b : Byte) : c.get b 0x1F = c.econ1 := read_shared c.regs (by decide) b

theorem writeReg_bank : c.writeReg 0x1F v = (c.access 0x1F).put c.bsel 0x1F v := by
  have hl : ¬ (c.bsel = 0 ∧ (0x1F : Byte) = CtlReg.erxrdptl.addr) := fun h => absurd h.2 (by decide)
  have hh : ¬ (c.bsel = 0 ∧ (0x1F : Byte) = CtlReg.erxrdpth.addr) := fun h => absurd h.2 (by decide)
  unfold InitChip.writeReg
  rw [if_neg hl, if_neg hh]

theorem writeReg_econ1 (h : addr ≠ 0x1F) : (c.writeReg addr v).econ1 = c.econ1 := by
  unfold InitChip.writeReg
  split_ifs
  · rfl
  · rw [put_econ1 _ v h, put_econ1 _ _ (by decide)]
  · exact put_econ1 _ v h

theorem changeBits_econ1 (h : addr ≠ 0x1F) : (c.changeBits addr v).econ1 = c.econ1 := by
  unfold InitChip.changeBits
  split_ifs
  · rfl
  · exact writeReg_econ1 c v h

theorem changeBits_bank : (c.changeBits 0x1F v).econ1 = v := by
  unfold InitChip.changeBits
  rw [econ1_not_mac, if_neg Bool.false_ne_true, writeReg_bank]
  exact put_bank _ v

end

theorem init_laws : BankLaws initCore where
  read := fun c => get_econ1 c c.bsel
  afterRead := fun _ _ => rfl
  writeEcon1 := fun c v => by
    change (c.writeReg 0x1F v).econ1 &&& econ1Bsel = _
    rw [writeReg_bank, put_bank]
  write := fun c a v h => congrArg (· &&& econ1Bsel) (writeReg_econ1 c v h)
  set := fun c a m h => by
    refine set_bsel (changeBits_econ1 c _) (fun ha => ?_) h
    subst ha
    exact (changeBits_bank c _).trans (congrArg (· ||| m) (get_econ1 c _))
  clear := fun c a m h => by
    refine clear_bsel (changeBits_econ1 c _) (fun ha => ?_) h
    subst ha
    exact (changeBits_bank c _).trans (congrArg (· &&& ~~~m) (get_econ1 c _))
  readBuf := fun c => rfl
  writeBuf := fun c b => rfl
  reset := fun _ => BitVec.zero_and
  env := fun _ _ h => h.1

def macByte (macAdd : MacAddress) (i : ℕ) : Byte := (List.ofFn macAdd.addr).getD i 0

/-- The value each register of the host is given. -/
def configured (cfg : Conf) (macAdd : MacAddress) : CtlReg → Byte
  | .erxstl => lowByte cfg.rxAddressStart
  | .erxsth => highAddr cfg.rxAddressStart
  | .erxndl | .erxrdptl => lowByte cfg.rxAddressEnd
  | .erxndh | .erxrdpth => highAddr cfg.rxAddressEnd
  | .erxfcon => BitVec.ofNat 8 cfg.packetFilterMask
  | .mamxfll => BitVec.ofNat 8 (cfg.maxFrameLen &&& 0xFF)
  | .mamxflh => BitVec.ofNat 8 ((cfg.maxFrameLen >>> 8) &&& 0xFF)
  | .macAdd1 => macByte macAdd 0
  | .macAdd2 => macByte macAdd 1
  | .macAdd3 => macByte macAdd 2
  | .macAdd4 => macByte macAdd 3
  | .macAdd5 => macByte macAdd 4
  | .macAdd6 => macByte macAdd 5
  | _ => 0

/-- The registers in `R` hold their values, and no MAC or MII register was accessed
too early; `clock` says whether CLKRDY is known to have been seen. -/
structure Holds (f : CtlReg → Byte) (clock : Bool) (R : List CtlReg) (c : InitChip) : Prop where
  values : ∀ r ∈ R, c.value r = f r
  quiet : c.early = false
  clkSeen : clock = true → c.clkSeen = true

/-- A change of the register at `a` in bank `b` leaves those in `R` alone. -/
def Spares (R : List CtlReg) (b a : Byte) : Prop :=
  ∀ r ∈ R, r.bank = some b → r.addr ≠ a ∧ ¬ (a = CtlReg.erxrdpth.addr ∧ r.addr = CtlReg.erxrdptl.addr)

section
variable {f : CtlReg → Byte} {clock : Bool} {R : List CtlReg} {c : InitChip}

theorem value_banked {reg : CtlReg} {b : Byte} (h : reg.bank = some b) : c.value reg = c.get b reg.addr := by
  unfold InitChip.value
  rw [h]
  rfl

theorem not_shared {reg : CtlReg} {b : Byte} (h : reg.bank = some b) : isShared reg.addr = false := by
  have hlt := (bank_addr h).2.2
  unfold isShared
  rw [decide_eq_false_iff_not]
  omega

theorem value_put {reg : CtlReg} {b : Byte} (h : reg.bank = some b) (v : Byte) :
    (c.put b reg.addr v).value reg = v := by
  rw [value_banked h]
  exact read_write_same c.regs v ⟨rfl, Or.inr rfl⟩

theorem value_put_other {reg : CtlReg} {b a : Byte} (hb : reg.bank.isSome = true)
    (h : reg.bank = some b → reg.addr ≠ a) (v : Byte) : (c.put b a v).value reg = c.value reg := by
  obtain ⟨b', hb'⟩ := Option.isSome_iff_exists.mp hb
  rw [value_banked hb', value_banked hb']
  refine read_write_other c.regs v ?_
  rintro ⟨rfl, hs | rfl⟩
  · exact absurd (hs.symm.trans (not_shared hb')) (by decide)
  · exact h hb' rfl

theorem holds_closed (hR : ∀ r ∈ R, r ∈ hostRegisters) : EnvClosed initCore (Holds f clock R) := by
  intro c d h hd
  obtain ⟨-, hvalues, -, hclk, hearly⟩ : InitStep c d := hd
  refine ⟨fun r hr => (hvalues r (hR r hr)).trans (h.values r hr), hearly.trans h.quiet, fun hc => ?_⟩
  rw [hclk]
  exact h.clkSeen hc

/-- An access is not early when the clock is ready, or when the register is no MAC or MII register. -/
theorem Holds.access (h : Holds f clock R c) {a : Byte}
    (ha : clock = true ∨ (macMiiAddrs c.bsel).contains a = false) : Holds f clock R (c.access a) := by
  refine ⟨h.values, ?_, h.clkSeen⟩
  change (c.early || ((macMiiAddrs c.bsel).contains a && !c.clkSeen)) = false
  rw [h.quiet]
  rcases ha with ha | ha
  · rw [h.clkSeen ha, Bool.not_true, Bool.and_false]
    rfl
  · rw [ha]
    rfl

theorem Holds.afterRead (h : Holds f clock R c) {a : Byte}
    (ha : clock = true ∨ (macMiiAddrs c.bsel).contains a = false) : Holds f clock R (c.afterRead a) := by
  have hacc := h.access ha
  refine ⟨hacc.values, hacc.quiet, fun hc => ?_⟩
  change (c.clkSeen || _) = true
  rw [h.clkSeen hc, Bool.true_or]

theorem Holds.put (h : Holds f clock R c) (hR : ∀ r ∈ R, r ∈ hostRegisters) {b a : Byte}
    (ha : ∀ r ∈ R, r.bank = some b → r.addr ≠ a) (v : Byte) : Holds f clock R (c.put b a v) := by
  refine ⟨fun r hr => ?_, h.quiet, h.clkSeen⟩
  have hall : ∀ reg ∈ hostRegisters, reg.bank.isSome = true := by decide
  rw [value_put_other (hall r (hR r hr)) (ha r hr) v]
  exact h.values r hr

theorem Holds.write (h : Holds f clock R c) (hR : ∀ r ∈ R, r ∈ hostRegisters) {a : Byte}
    (hm : Spares R c.bsel a) (ha : clock = true ∨ (macMiiAddrs c.bsel).contains a = false) (v : Byte) :
    Holds f clock R (c.writeReg a v) := by
  unfold InitChip.writeReg
  split_ifs with hlow hhigh
  · exact ⟨h.values, h.quiet, h.clkSeen⟩
  · obtain ⟨hb, rfl⟩ := hhigh
    rw [hb] at hm
    exact (h.put hR (fun r hr hrb he => (hm r hr hrb).2 ⟨rfl, he⟩) _).put hR (fun r hr hrb => (hm r hr hrb).1) v
  · exact (h.access ha).put hR (fun r hr hrb => (hm r hr hrb).1) v

instance (R : List CtlReg) (b a : Byte) : Decidable (Spares R b a) :=
  inferInstanceAs (Decidable (∀ r ∈ R, _ → _))

theorem spares_econ1 (R : List CtlReg) (b : Byte) : Spares R b 0x1F := by
  intro r _ hb
  exact ⟨bank_ne_econ1 hb, fun h => absurd h.1 (by decide)⟩

theorem Holds.changeBits (h : Holds f true R c) (hR : ∀ r ∈ R, r ∈ hostRegisters) {a : Byte}
    (hm : Spares R c.bsel a) (v : Byte) : Holds f true R (c.changeBits a v) := by
  unfold InitChip.changeBits
  split_ifs
  · exact h.access (Or.inl rfl)
  · exact h.write hR hm (Or.inl rfl) v

theorem Holds.switch (hR : ∀ r ∈ R, r ∈ hostRegisters) {d : InitChip} (h : Holds f clock R c)
    (hd : ReflTransGen InitStep (c.afterRead 0x1F) d) (v : Byte) : Holds f clock R (d.writeReg 0x1F v) := by
  have hread : Holds f clock R (c.afterRead 0x1F) := h.afterRead (Or.inr (econ1_not_mac _))
  have hkept : Holds f clock R d := env_keeps (holds_closed hR) hread hd
  exact hkept.write hR (spares_econ1 R _) (Or.inr (econ1_not_mac _)) v

/-- Once the clock is ready, the values survive all changes of other registers. -/
theorem holds_carries (hR : ∀ r ∈ R, r ∈ hostRegisters) : Carries initCore (Holds f true R) (Spares R) where
  env := holds_closed hR
  afterRead := fun _ _ h => h.afterRead (Or.inl rfl)
  write := fun _ _ v _ hm h => h.write hR hm (Or.inl rfl) v
  switch := fun _ _ _ _ h hd => h.switch hR hd _
  set := fun _ _ _ _ hm h => h.changeBits hR hm _
  clear := fun _ _ _ hm h => h.changeBits hR hm _
  readBuf := fun _ h => ⟨h.values, h.quiet, h.clkSeen⟩
  writeBuf := fun _ _ h => h

theorem writeReg_value {reg : CtlReg} (hr : reg.bank = some c.bsel)
    (hl : ¬ (c.bsel = 0 ∧ reg.addr = CtlReg.erxrdptl.addr)) (v : Byte) :
    (c.writeReg reg.addr v).value reg = v := by
  unfold InitChip.writeReg
  rw [if_neg hl]
  split_ifs with hh
  · rw [hh.1] at hr
    exact value_put hr v
  · exact value_put hr v

end

section
variable {f : CtlReg → Byte} {clock : Bool} {R : List CtlReg} {ctx : Option SpiContext} {agree : Bool}

/-- Only what holds after ENC28_OK is of interest. -/
theorem Spec.lax {κ : Type} {C : ChipCore κ} {P A E : World κ → Prop} {p : Driver CommandStatus}
    (h : Spec C P p A E) : Spec C P p A fun _ => True :=
  h.conseq (fun _ h => h) (fun _ h => h) fun _ _ => trivial

theorem select_holds (hR : ∀ r ∈ R, r ∈ hostRegisters) {b : Byte} (hb : b.toNat < 4) :
    Spec initCore (Idle initCore (Holds f clock R) agree) (enc28SelectRegisterBank ctx b)
      (InBank initCore (Holds f clock R) b)
      (fun u => canWrite ctx = false ∧ Idle initCore (Holds f clock R) agree u) :=
  select_rule init_laws hb (holds_closed hR) (fun _ h => h.afterRead (Or.inr (econ1_not_mac _)))
    (holds_closed hR) fun _ _ h hd => h.switch hR hd _

/-- A register of bank `b` that is not in `R` yet, and takes effect as it is written. -/
def Fresh (clock : Bool) (R : List CtlReg) (b : Byte) (reg : CtlReg) : Prop :=
  reg.bank = some b ∧ (∀ r ∈ reg :: R, r ∈ hostRegisters) ∧ Spares R b reg.addr ∧
    ¬ (b = 0 ∧ reg.addr = CtlReg.erxrdptl.addr) ∧
    (clock = true ∨ (macMiiAddrs b).contains reg.addr = false)

instance (clock : Bool) (R : List CtlReg) (b : Byte) (reg : CtlReg) : Decidable (Fresh clock R b reg) :=
  inferInstanceAs (Decidable (_ ∧ _ ∧ _ ∧ _ ∧ _))

theorem write_holds {b : Byte} (reg : CtlReg) (fresh : Fresh clock R b reg) :
    Spec initCore (InBank initCore (Holds f clock R) b) (enc28DoWriteCtlReg ctx reg (f reg))
      (InBank initCore (Holds f clock (reg :: R)) b) (fun _ => True) := by
  obtain ⟨hr, hR, hm, hl, ha⟩ := fresh
  refine Spec.lax (write_rule init_laws hr (f reg) (holds_closed hR) fun c h hb => ?_)
  have hbsel : c.bsel = b := hb
  subst hbsel
  have hkept := h.write (List.forall_mem_cons.mp hR).2 hm ha (f reg)
  exact ⟨List.forall_mem_cons.mpr ⟨writeReg_value hr hl (f reg), hkept.values⟩, hkept.quiet, hkept.clkSeen⟩

/-- The two bytes of ERXRDPT are taken over together. -/
theorem erxrdpt_holds (hR : ∀ r ∈ R, r ∈ hostRegisters) (hh : Spares R 0 CtlReg.erxrdpth.addr) :
    Spec initCore (InBank initCore (Holds f clock R) 0)
      (exitIfErr (enc28DoWriteCtlReg ctx .erxrdptl (f .erxrdptl)) <|
        enc28DoWriteCtlReg ctx .erxrdpth (f .erxrdpth))
      (InBank initCore (Holds f clock (.erxrdpth :: .erxrdptl :: R)) 0) (fun _ => True) := by
  let Latched : InitChip → Prop := fun c => Holds f clock R c ∧ c.erxrdptl = f .erxrdptl
  have hlatched : EnvClosed initCore Latched := by
    intro c d h hd
    exact ⟨holds_closed hR c d h.1 hd, hd.2.2.1.trans h.2⟩
  have hR' : ∀ r ∈ CtlReg.erxrdpth :: .erxrdptl :: R, r ∈ hostRegisters :=
    List.forall_mem_cons.mpr ⟨by decide, List.forall_mem_cons.mpr ⟨by decide, hR⟩⟩
  refine Spec.exit (B := InBank initCore Latched 0) (Spec.lax (write_rule init_laws rfl _ hlatched
    fun c h hb => ?_)) (Spec.lax (write_rule init_laws rfl _ (holds_closed hR') fun c h hb => ?_))
  · have hput : c.writeReg CtlReg.erxrdptl.addr (f .erxrdptl) = { c with erxrdptl := f .erxrdptl } :=
      if_pos ⟨hb, rfl⟩
    change Latched (c.writeReg _ _)
    rw [hput]
    exact ⟨⟨h.values, h.quiet, h.clkSeen⟩, rfl⟩
  · have hbsel : c.bsel = 0 := hb
    have hkept : Holds f clock R (c.writeReg CtlReg.erxrdpth.addr (f .erxrdpth)) :=
      h.1.write hR (by rw [hbsel]; exact hh) (Or.inr (by rw [hbsel]; decide)) _
    have hput : c.writeReg CtlReg.erxrdpth.addr (f .erxrdpth) =
        (c.put 0 CtlReg.erxrdptl.addr c.erxrdptl).put 0 CtlReg.erxrdpth.addr (f .erxrdpth) :=
      (if_neg fun hn => absurd hn.2 (by decide)).trans (if_pos ⟨hbsel, rfl⟩)
    have hlow : (c.writeReg CtlReg.erxrdpth.addr (f .erxrdpth)).value .erxrdptl = f .erxrdptl := by
      rw [hput, value_put_other rfl (fun _ => by decide)]
      exact (value_put rfl _).trans h.2
    have hhigh : (c.writeReg CtlReg.erxrdpth.addr (f .erxrdpth)).value .erxrdpth = f .erxrdpth := by
      rw [hput]
      exact value_put rfl _
    exact ⟨List.forall_mem_cons.mpr ⟨hhigh, List.forall_mem_cons.mpr ⟨hlow, hkept.values⟩⟩,
      hkept.quiet, hkept.clkSeen⟩

variable {cfg : Conf} {macAdd : MacAddress} {rounds : ℕ}

def bufferRegisters : List CtlReg := [.erxrdpth, .erxrdptl, .erxndh, .erxndl, .erxsth, .erxstl]

theorem bufferRegisterInit_holds :
    Spec initCore (Idle initCore (Holds (configured cfg macAdd) false []) agree)
      (privEnc28DoBufferRegisterInit cfg ctx)
      (InBank initCore (Holds (configured cfg macAdd) false bufferRegisters) 0) (fun _ => True) := by
  refine Triple.bind (Triple.conseq (select_holds (by decide) (by decide)) (fun _ h => h)
    (fun _ _ h => h) fun _ _ => trivial) fun status => ?_
  by_cases hs : status = .ok
  · subst hs
    exact (write_holds .erxstl (by decide)).exit <| (write_holds .erxsth (by decide)).exit <|
      (write_holds .erxndl (by decide)).exit <| (write_holds .erxndh (by decide)).exit <|
      erxrdpt_holds (by decide) (by decide)
  · intro w hw
    rw [okOr_err _ _ hs] at hw
    exact Spec.exit (P := fun _ => True) (Spec.lax (write_blocked hw.1 _ _)) (fun _ h => h.elim) w trivial

theorem receiveFilterInit_holds :
    Spec initCore (InBank initCore (Holds (configured cfg macAdd) false bufferRegisters) 0)
      (privEnc28DoReceiveFilterInit cfg ctx)
      (InBank initCore (Holds (configured cfg macAdd) false (.erxfcon :: bufferRegisters)) 1)
      (fun _ => True) :=
  Spec.fromBank false <| (Spec.lax (select_holds (by decide) (by decide))).exit <|
    write_holds .erxfcon (by decide)

/-- The poll of ESTAT returns when it has seen CLKRDY. -/
theorem pollEstatClk_holds (hc : canRead ctx = true) (hR : ∀ r ∈ R, r ∈ hostRegisters) :
    Spec initCore (InBank initCore (Holds f false R) 1) (privEnc28DoPollEstatClk rounds ctx)
      (Idle initCore (Holds f true R) false) (fun _ => True) := by
  let Polled : Byte → InitChip → Prop := fun v c =>
    Holds f false R c ∧ (v.getLsbD estatClkrdy = true → c.clkSeen = true)
  have hclosed : ∀ v, EnvClosed initCore (Polled v) := by
    intro v c d h hd
    refine ⟨holds_closed hR c d h.1 hd, fun hv => ?_⟩
    rw [hd.2.2.2.1]
    exact h.2 hv
  have hread : ∀ c, Holds f false R c →
      Polled (c.get c.bsel CtlReg.estat.addr) (c.afterRead CtlReg.estat.addr) := by
    intro c h
    have hbank : (macMiiAddrs c.bsel).contains CtlReg.estat.addr = false := by
      rw [← isMacOrMiiReg_eq]
      exact isMacOrMii_shared _ _ (by decide)
    refine ⟨h.afterRead (Or.inr hbank), fun hv => ?_⟩
    change (c.clkSeen || (_ && (c.get c.bsel CtlReg.estat.addr).getLsbD estatClkrdy)) = true
    rw [hv]
    exact Bool.or_true _
  have hloop : ∀ n status v, Spec initCore
      (fun w => status = .ok ∧ Idle initCore (Polled v) false w) (pollEstatClk ctx n status v)
      (Idle initCore (Holds f true R) false) (fun _ => True) := by
    intro n
    induction n with
    | zero => exact fun _ _ _ _ => trivial
    | succ n ih =>
      intro status v w hw
      obtain ⟨rfl, hphase, ⟨hh, hv⟩, hbank⟩ := hw
      unfold pollEstatClk
      rw [if_pos rfl]
      by_cases hrdy : v.getLsbD estatClkrdy = true
      · rw [if_pos hrdy]
        exact ⟨hphase, ⟨hh.values, hh.quiet, fun _ => hv hrdy⟩, hbank⟩
      · rw [if_neg hrdy]
        exact Triple.bind (readShared_rule init_laws hc .estat rfl (by decide) v hclosed hread)
          (fun r => ih r.1 r.2) w ⟨hphase, hh, hbank⟩
  exact Spec.fromBank false <| Triple.bind
    (readShared_rule init_laws hc .estat rfl (by decide) 0 hclosed hread) fun r => hloop rounds r.1 r.2

/-- A write to another register keeps what is there. -/
theorem write_keeps (hR : ∀ r ∈ R, r ∈ hostRegisters) {b : Byte} {reg : CtlReg} (hr : reg.bank = some b)
    (hm : Spares R b reg.addr) (v : Byte) :
    Spec initCore (InBank initCore (Holds f true R) b) (enc28DoWriteCtlReg ctx reg v)
      (InBank initCore (Holds f true R) b) (fun _ => True) :=
  Spec.lax (E := Idle initCore (Holds f true R) false) (write_spec init_laws (holds_carries hR) hm hr v)

theorem setBits_keeps (hR : ∀ r ∈ R, r ∈ hostRegisters) {b : Byte} {reg : CtlReg} (hr : reg.bank = some b)
    (hm : Spares R b reg.addr) (mask : Byte) :
    Spec initCore (InBank initCore (Holds f true R) b) (enc28DoSetBitsCtlReg ctx reg mask)
      (InBank initCore (Holds f true R) b) (fun _ => True) :=
  Spec.lax (E := Idle initCore (Holds f true R) false) (setBits_spec init_laws (holds_carries hR)
    (bank_addr hr).2.1 hm (fun _ => hr) mask fun he => absurd he (bank_ne_econ1 hr))

def frameRegisters : List CtlReg := .mamxflh :: .mamxfll :: .erxfcon :: bufferRegisters

theorem writeMacAddress_holds :
    Spec initCore (InBank initCore (Holds (configured cfg macAdd) true frameRegisters) 2)
      (writeMacAddress macAdd ctx)
      (InBank initCore (Holds (configured cfg macAdd) true (macRegisters.reverse ++ frameRegisters)) 0)
      (fun _ => True) := by
  refine Spec.fromBank false <| (Spec.lax (select_holds (by decide) (by decide))).exit <|
    (write_holds .macAdd1 (by decide)).exit <| (write_holds .macAdd2 (by decide)).exit <|
    (write_holds .macAdd3 (by decide)).exit <| (write_holds .macAdd4 (by decide)).exit <|
    (write_holds .macAdd5 (by decide)).exit <| (write_holds .macAdd6 (by decide)).exit <|
    Spec.fromBank false <| Spec.lax (select_holds (by decide) (by decide))

theorem macInitDuplex_holds (isFullDuplex : Bool) :
    Spec initCore
      (InBank initCore (Holds (configured cfg macAdd) true (.erxfcon :: bufferRegisters)) 2)
      (macInitDuplex cfg macAdd ctx isFullDuplex)
      (InBank initCore (Holds (configured cfg macAdd) true (macRegisters.reverse ++ frameRegisters)) 0)
      (fun _ => True) := by
  have gap : Spec initCore (InBank initCore (Holds (configured cfg macAdd) true frameRegisters) 2)
      (if isFullDuplex then .ret .ok else enc28DoWriteCtlReg ctx .maipgh (BitVec.ofNat 8 cfg.maipghBits))
      (InBank initCore (Holds (configured cfg macAdd) true frameRegisters) 2) (fun _ => True) := by
    cases isFullDuplex with
    | true => exact Spec.ok fun _ h => h
    | false =>
      change Spec initCore _ (enc28DoWriteCtlReg ctx .maipgh _) _ _
      exact write_keeps (by decide) rfl (by decide) _
  exact (setBits_keeps (by decide) rfl (by decide) _).exit <|
    (setBits_keeps (by decide) rfl (by decide) _).exit <| (write_holds .mamxfll (by decide)).exit <|
    (write_holds .mamxflh (by decide)).exit <| (write_keeps (by decide) rfl (by decide) _).exit <|
    (write_keeps (by decide) rfl (by decide) _).exit <| gap.exit writeMacAddress_holds

theorem macInit_holds :
    Spec initCore (Idle initCore (Holds (configured cfg macAdd) true (.erxfcon :: bufferRegisters)) false)
      (privEnc28DoMacInit cfg rounds macAdd ctx)
      (InBank initCore (Holds (configured cfg macAdd) true (macRegisters.reverse ++ frameRegisters)) 0)
      (fun _ => True) := by
  have hR : ∀ r ∈ CtlReg.erxfcon :: bufferRegisters, r ∈ hostRegisters := by decide
  refine (Spec.lax (select_holds hR (by decide))).exit <| (setBits_keeps hR rfl (by decide) _).exit ?_
  refine Spec.fromBank false <| Triple.bind (Triple.conseq (readPhyRegister_spec init_laws
    (holds_carries (f := configured cfg macAdd) hR) ⟨by decide, by decide⟩ rounds phyrPhcon1 0)
    (fun _ h => h) (fun _ _ h => h) fun _ _ => trivial) fun r => ?_
  exact onOk (macInitDuplex_holds _) fun hs => Spec.err hs fun _ _ => trivial

/-- What `enc28_do_init` leaves behind when it returns ENC28_OK. -/
theorem init_holds (hc : canWrite ctx = true) :
    Spec initCore (Idle initCore (Holds (configured cfg macAdd) false []) agree)
      (enc28DoInit cfg rounds macAdd ctx)
      (InBank initCore (Holds (configured cfg macAdd) true (macRegisters.reverse ++ frameRegisters)) 0)
      (fun _ => True) :=
  bufferRegisterInit_holds.exit <| receiveFilterInit_holds.exit <|
    (pollEstatClk_holds (canRead_of_canWrite hc) (by decide)).exit <| macInit_holds.exit <|
    Spec.ok fun _ h => h

theorem read_holds (hc : canRead ctx = true) (hR : ∀ r ∈ R, r ∈ hostRegisters) {b : Byte} {reg : CtlReg}
    (hr : reg.bank = some b) (hmem : reg ∈ R) (old : Byte) {X : World InitChip → Prop} :
    Bank initCore (InBank initCore (Holds f true R) b) (enc28DoReadCtlReg ctx reg (some old))
      (fun x w => x = (.ok, f reg) ∧ InBank initCore (Holds f true R) b w) X := by
  let Seen : Byte → InitChip → Prop := fun v c => v = f reg ∧ Holds f true R c
  have hclosed : ∀ v, EnvClosed initCore (Seen v) := fun v c d h hd => ⟨h.1, holds_closed hR c d h.2 hd⟩
  have hread := read_rule (V := Seen) (X := X) init_laws hc reg hr old hclosed fun c (h : Holds f true R c) hb => by
    refine ⟨?_, h.afterRead (Or.inl rfl)⟩
    have hvalue : c.value reg = c.get c.bsel reg.addr := by
      rw [value_banked hr, ← hb]
      rfl
    exact hvalue.symm.trans (h.values reg hmem)
  refine Triple.conseq hread (fun _ h => h) (fun x w h => ?_) fun _ h => h
  obtain ⟨status, v⟩ := x
  obtain ⟨rfl, hphase, ⟨rfl, hh⟩, hbank⟩ := h
  exact ⟨rfl, hphase, hh, hbank⟩

theorem readMacBytes_holds (hc : canRead ctx = true) (regs : List (CtlReg × Fin 6)) (mac : MacAddress)
    (h : ∀ x ∈ regs, x.1 ∈ macRegisters) {X : World InitChip → Prop} :
    Bank initCore (InBank initCore (Holds f true macRegisters) 3) (readMacBytes ctx regs mac)
      (fun x _ => x = (.ok, regs.foldl (fun m y => ⟨Function.update m.addr y.2 (f y.1)⟩) mac)) X := by
  induction regs generalizing mac with
  | nil => exact Triple.ret fun _ _ => rfl
  | cons y regs ih =>
    obtain ⟨hy, hrest⟩ := List.forall_mem_cons.mp h
    have hbank : ∀ r ∈ macRegisters, r.bank = some 3 := by decide
    unfold readMacBytes
    refine Triple.bind (read_holds hc (by decide) (hbank _ hy) hy _) fun x w hw => ?_
    obtain ⟨rfl, hw⟩ := hw
    exact ih _ hrest w hw

/-- The registers of the address are in another order than its bytes. -/
theorem readMac_holds (hc : canWrite ctx = true) (mac : MacAddress) :
    Bank initCore (Idle initCore (Holds (configured cfg macAdd) true macRegisters) agree)
      (enc28DoReadMac ctx mac) (fun x _ => x = (.ok, macAdd)) (fun _ => False) := by
  have hbytes : [(CtlReg.macAdd1, (0 : Fin 6)), (.macAdd2, 1), (.macAdd3, 2), (.macAdd4, 3), (.macAdd5, 4),
      (.macAdd6, 5)].foldl (fun m y => (⟨Function.update m.addr y.2 (configured cfg macAdd y.1)⟩ : MacAddress)) mac =
        macAdd := by
    refine congrArg MacAddress.mk (funext fun i => ?_)
    revert i
    simp [Fin.forall_fin_succ, configured, macByte]
  unfold enc28DoReadMac
  refine Triple.bind (Spec.sure hc (select_holds (by decide) (by decide))) fun status =>
    onOk ?_ fun _ _ hw => hw.elim
  rw [← hbytes]
  exact readMacBytes_holds (f := configured cfg macAdd) (canRead_of_canWrite hc) _ mac (by decide)

theorem Holds.mono (R' : List CtlReg) {c : InitChip} (h : Holds f clock R c) (hR : ∀ r ∈ R', r ∈ R) :
    Holds f clock R' c :=
  ⟨fun r hr => h.values r (hR r hr), h.quiet, h.clkSeen⟩

end

/-- The operations that do not initialize the chip, reset it or take a register id. -/
def runsBetween : DriverOp → Bool
  | .init _ => false
  | op => namesRegisters op

abbrev InitRecord := CallRecord Call (World InitChip) DriverCall (CommandStatus × DriverOutput)

/-- No such operation comes near the address registers. -/
theorem session_holds {f : CtlReg → Byte} {cfg : Conf} {w u : World InitChip} {rs : List InitRecord}
    (s : Session (busMachine initCore) (DriverCall.prog cfg) w rs u) (hops : ∀ r ∈ rs, runsBetween r.op.op = true)
    (hw : Idle initCore (Holds f true macRegisters) true w) : Idle initCore (Holds f true macRegisters) true u := by
  have hlower : LowerBanks (Spares macRegisters) := by
    intro b a hb r hr hrb
    have hbank : ∀ r ∈ macRegisters, r.bank = some 3 := by decide
    obtain rfl : 3 = b := Option.some.inj ((hbank r hr).symm.trans hrb)
    have ha : 0x1B ≤ a.toNat := hb.resolve_left fun h => h rfl
    refine ⟨?_, ?_⟩
    · rintro rfl
      have hlt := (bank_addr hrb).2.2
      omega
    · rintro ⟨rfl, -⟩
      exact absurd ha (by decide)
  have hcarries : Carries initCore (Holds f true macRegisters) (Spares macRegisters) :=
    holds_carries (by decide)
  have phases : PhasesWithin initCore (Holds f true macRegisters) (Holds f true macRegisters)
      (Holds f true macRegisters) (Spares macRegisters) := by
    refine ⟨hcarries, hcarries, hcarries.env, fun c h _ => hcarries.afterRead c _ h, fun _ h => h, fun c h => ?_⟩
    exact h.changeBits (by decide) (spares_econ1 _ _) _
  refine (s.all (P := fun _ => True) (I := Idle initCore (Holds f true macRegisters) true) hops hw ?_).2
  rintro ⟨c, v, t, a, x⟩ hc hv run
  refine ⟨trivial, ?_⟩
  have hnames : namesRegisters c.op = true ∧ ∀ macAdd, c.op ≠ .init macAdd := by
    obtain ⟨ctx, rounds, op⟩ := c
    cases op with
    | init macAdd => cases hc
    | _ => exact ⟨hc, fun _ h => DriverOp.noConfusion h⟩
  have hend := (Triple.sound (call_within init_laws phases hlower cfg c hnames.1
    fun macAdd h => absurd h (hnames.2 macAdd)) hv run).2
  have hsame : afterCall (Holds f true macRegisters) (Holds f true macRegisters) c.op a.1 =
      Holds f true macRegisters := ite_self _
  change Idle initCore (afterCall _ _ c.op a.1) true x at hend
  rwa [hsame] at hend

section
variable {c : InitChip} {p : ℕ}

theorem pair_pointer {lo hi : CtlReg} (hlo : c.value lo = lowByte p) (hhi : c.value hi = highAddr p) :
    c.pair hi lo = p % 0x2000 := by
  unfold InitChip.pair
  rw [hlo, hhi, word_toNat, lowByte_toNat, highAddr_toNat]
  omega

end

/-- After an `enc28_do_init` that returned ENC28_OK the ring, the filter and the frame
length are set up, and `enc28_do_read_mac` reads the address back whenever it is
called. A pointer has 13 bits, a pair of MAC registers 16. -/
theorem init_establishes (cfg : Conf) (macAdd : MacAddress) (rounds : ℕ) (ctx : Option SpiContext)
    {w u : World InitChip} {t : List (Call × World InitChip)} (idle : w.phase = .high)
    (quiet : w.chip.early = false)
    (run : Exec (busMachine initCore) (enc28DoInit cfg rounds macAdd ctx) w t (some .ok) u) :
    (u.chip.clkSeen = true ∧ u.chip.early = false ∧
      u.chip.pair .erxsth .erxstl = cfg.rxAddressStart % 0x2000 ∧
      u.chip.pair .erxndh .erxndl = cfg.rxAddressEnd % 0x2000 ∧
      u.chip.pair .erxrdpth .erxrdptl = cfg.rxAddressEnd % 0x2000 ∧
      (u.chip.value .erxfcon).toNat = cfg.packetFilterMask % 0x100 ∧
      u.chip.pair .mamxflh .mamxfll = cfg.maxFrameLen % 0x10000 ∧
      u.currBank = 0 ∧ u.chip.bsel = 0) ∧
    ∀ rs v, Session (busMachine initCore) (DriverCall.prog cfg) u rs v →
      (∀ r ∈ rs, runsBetween r.op.op = true) → ∀ mac,
        (∃ t' o x, Exec (busMachine initCore) (enc28DoReadMac ctx mac) v t' o x) ∧
        ∀ t' o x, Exec (busMachine initCore) (enc28DoReadMac ctx mac) v t' o x → o = some (.ok, macAdd) := by
  have hc : canWrite ctx = true := by
    cases hc : canWrite ctx with
    | true => rfl
    | false => exact absurd rfl (run.returns (init_refused hc cfg rounds macAdd))
  have hstart : Idle initCore (Holds (configured cfg macAdd) false []) false w :=
    Idle.unbanked idle ⟨fun _ h => absurd h List.not_mem_nil, quiet, fun h => absurd h Bool.false_ne_true⟩
  obtain ⟨hphase, hholds, hcurr, hbsel⟩ := Spec.lands_ok (init_holds hc) hstart run
  have hvalue : ∀ r ∈ macRegisters.reverse ++ frameRegisters, u.chip.value r = configured cfg macAdd r :=
    hholds.values
  constructor
  · refine ⟨hholds.clkSeen rfl, hholds.quiet, ?_, ?_, ?_, ?_, ?_, hcurr, hbsel⟩
    · exact pair_pointer (hvalue .erxstl (by decide)) (hvalue .erxsth (by decide))
    · exact pair_pointer (hvalue .erxndl (by decide)) (hvalue .erxndh (by decide))
    · exact pair_pointer (hvalue .erxrdptl (by decide)) (hvalue .erxrdpth (by decide))
    · rw [hvalue .erxfcon (by decide)]
      exact BitVec.toNat_ofNat _ _
    · have hlow : cfg.maxFrameLen &&& 0xFF = cfg.maxFrameLen % 256 := Nat.and_two_pow_sub_one_eq_mod _ 8
      have hhigh : cfg.maxFrameLen >>> 8 &&& 0xFF = cfg.maxFrameLen / 256 % 256 := by
        rw [Nat.shiftRight_eq_div_pow]
        exact Nat.and_two_pow_sub_one_eq_mod _ 8
      unfold InitChip.pair
      rw [hvalue .mamxfll (by decide), hvalue .mamxflh (by decide), word_toNat]
      simp only [configured, hlow, hhigh, BitVec.toNat_ofNat]
      omega
  · intro rs v s hops mac
    refine ⟨(bus_total initCore).exec _ v, fun t' o x hread => ?_⟩
    have hu : Idle initCore (Holds (configured cfg macAdd) true macRegisters) true u :=
      InBank.idle ⟨hphase, hholds.mono macRegisters (by decide), hcurr, hbsel⟩
    have hend := (Triple.sound (readMac_holds hc mac) (session_holds s hops hu) hread).2
    cases o with
    | none => exact hend.elim
    | some a => exact congrArg some hend

/-- With the default configuration, and a call before the address is read. -/
theorem init_establishes_default :
    let macAdd : MacAddress := ⟨fun i => BitVec.ofNat 8 (0x54 + i.val)⟩
    let chip : InitChip := ⟨⟨fun _ _ => 0, fun _ => 1⟩, 0, fun _ => 0, 0xEE, false, false⟩
    ∃ t u rs v, Exec (busMachine initCore) (enc28DoInit {} 1 macAdd (some fullContext)) ⟨chip, .high, 3⟩ t
        (some .ok) u ∧
      u.chip.pair .erxsth .erxstl = 0x7D0 ∧
      Session (busMachine initCore) (DriverCall.prog {}) u rs v ∧ rs.length = 1 ∧
      ∀ mac t' o x, Exec (busMachine initCore) (enc28DoReadMac (some fullContext) mac) v t' o x →
        o = some (.ok, macAdd) := by
  intro macAdd chip
  let calls : List DriverCall := [⟨some fullContext, 1, .endPacketTransfer⟩]
  let f : List InitRecord × World InitChip → Bool × ℕ := fun x =>
    (x.1.all fun r => runsBetween r.op.op, x.1.length)
  have hdevice : ∀ (e : Call) (w : World InitChip),
      busMachine initCore e w (busDevice initCore id e w).1 (busDevice initCore id e w).2 :=
    busDevice_step initCore fun _ => ReflTransGen.refl
  obtain ⟨t, run⟩ := run_exec hdevice (enc28DoInit {} 1 macAdd (some fullContext)) ⟨chip, .high, 3⟩
  have hok : ((enc28DoInit {} 1 macAdd (some fullContext)).run (busDevice initCore id) ⟨chip, .high, 3⟩).1 =
      some .ok := by
    decide +kernel
  rw [hok] at run
  have hsteps : ∀ x ∈ calls.map (fun c => (c, busDevice initCore id)), ∀ e w,
      busMachine initCore e w (x.2 e w).1 (x.2 e w).2 := by
    intro x hx e w
    obtain ⟨c, -, rfl⟩ := List.mem_map.mp hx
    exact hdevice e w
  have hrun : (runCalls (DriverCall.prog {}) (calls.map fun c => (c, busDevice initCore id))
      ((enc28DoInit {} 1 macAdd (some fullContext)).run (busDevice initCore id) ⟨chip, .high, 3⟩).2).map f =
        some (true, 1) := by
    decide +kernel
  obtain ⟨rs, v, hs, hv⟩ := runCalls_shows hsteps hrun
  simp only [f, Prod.mk.injEq, List.all_eq_true] at hv
  obtain ⟨hstate, hread⟩ := init_establishes {} macAdd 1 (some fullContext) rfl rfl run
  exact ⟨t, _, rs, v, run, hstate.2.2.1, hs, hv.2, fun mac => (hread rs v hs hv.1 mac).2⟩

end Stm32NetworkStack.InitState
