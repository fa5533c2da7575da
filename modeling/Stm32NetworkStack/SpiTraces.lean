import Mathlib.Tactic.SplitIfs
import Stm32NetworkStack.BankSafety
import Stm32NetworkStack.TraceLanguages

set_option autoImplicit false

/-!
# The SPI traffic of the driver

Whatever the device replies, a driver function makes its calls in groups that
are complete transactions, with waits and changes of the bank variable between
them. The only thing a group depends on is that variable, which decides how
many bytes a register read asks for.
-/
namespace Stm32NetworkStack.SpiTraces
open InteractivePrograms Enc28Registers Enc28Driver TraceLanguages BankDiscipline BankSafety

/-- Any device: the state is `priv_enc28_curr_bank`, every reply is possible. -/
def anyDevice : Machine Call Call.Reply Byte
  | .loadBank, b, r, u => r = b ∧ u = b
  | .storeBank bank, _, _, u => u = bank
  | _, b, _, u => u = b

def isNamed : CtlReg → Bool
  | .raw _ => false
  | _ => true

/-- The groups of calls that driver functions consist of. `raw` admits register
ids given as numbers, `inOut` the calls of `spi_in_out_op`. -/
inductive Block (ctx : Option SpiContext) (raw inOut : Bool) : List Call → Prop
  | read (reg : CtlReg) (bank : Byte) (hc : canRead ctx = true) (hid : reg.id ≠ 0x1A)
      (hn : raw = true ∨ isNamed reg = true) (hb : ∀ b, reg.bank = some b → bank = b) :
      Block ctx raw inOut [.loadBank, .nssPinOp 0, .spiOutOp (some reg) [commandByte opRcr reg.id],
        .spiInOp (if privEnc28IsMacOrMiiReg bank reg.id then 2 else 1), .nssPinOp 1]
  | write (reg : CtlReg) (value : Byte) (hc : canWrite ctx = true) (hid : reg.id ≠ 0x1A)
      (hn : raw = true ∨ isNamed reg = true) :
      Block ctx raw inOut [.nssPinOp 0, .waitNano 50,
        .spiOutOp (some reg) [commandByte opWcr reg.id, value], .waitNano 210, .nssPinOp 1]
  | bits (op : Byte) (hop : op = opBfs ∨ op = opBfc) (reg : CtlReg) (mask : Byte)
      (hc : canRead ctx = true) (hid : reg.id ≠ 0x1A) (hn : raw = true ∨ isNamed reg = true) :
      Block ctx raw inOut [.nssPinOp 0, .spiOutOp (some reg) [commandByte op reg.id, mask], .nssPinOp 1]
  | reset (hc : canRead ctx = true) :
      Block ctx raw inOut [.nssPinOp 0, .spiOutOp none [0xFF], .nssPinOp 1]
  | statusBurst (m n : ℕ) (hc : canWrite ctx = true) (hi : inOut = true) :
      Block ctx raw inOut [.nssPinOp 0, .spiInOutOp (0x3A :: List.replicate m 0) (n + 1), .nssPinOp 1]
  | packetBurst (len : ℕ) (hc : canWrite ctx = true) :
      Block ctx raw inOut [.nssPinOp 0, .spiOutOp none [0x3A], .spiInOp len, .nssPinOp 1]
  | writeBurst (b : Byte) (buff : List Byte) (hc : canWrite ctx = true) :
      Block ctx raw inOut [.nssPinOp 0, .spiOutOp none [0x7A, b], .spiOutOp none buff, .nssPinOp 1]
  | wait (ns : ℕ) (hc : canWrite ctx = true) : Block ctx raw inOut [.waitNano ns]
  | store (bank : Byte) : Block ctx raw inOut [.storeBank bank]

/-- `p` makes its calls in blocks, from any value of the bank variable in `P`. -/
abbrev Makes {α : Type} (ctx : Option SpiContext) (raw inOut : Bool) (P : Byte → Prop) (p : Driver α)
    (B : α → Byte → Prop) : Prop :=
  Emits anyDevice (Block ctx raw inOut) P p B

def anyBank (_ : Byte) : Prop := True

/-- After a successful bank switch. -/
def Switched (ctx : Option SpiContext) (b bank : Byte) : Prop := canWrite ctx = true ∧ bank = b

/-- `A` is known after ENC28_OK, nothing after another status. -/
def afterOk (A : Byte → Prop) (status : CommandStatus) (bank : Byte) : Prop := status = .ok → A bank

section
variable {ctx : Option SpiContext} {raw inOut : Bool} {α β : Type} {P A : Byte → Prop}

theorem Makes.any {B : α → Byte → Prop} {p : Driver α} (h : Makes ctx raw inOut P p B) :
    Makes ctx raw inOut P p fun _ => anyBank :=
  h.conseq (fun _ h => h) fun _ _ _ => trivial

theorem makes_ret (a : α) : Makes ctx raw inOut P (.ret a) fun _ => anyBank :=
  Emits.ret fun _ _ => trivial

theorem makes_status {status : CommandStatus} (h : status ≠ .ok) :
    Makes ctx raw inOut P (.ret status) (afterOk A) :=
  Emits.ret fun _ _ hs => absurd hs h

theorem makes_onOk {D : α → Byte → Prop} {status : CommandStatus} {p q : Driver α}
    (hp : Makes ctx raw inOut A p D) (hq : status ≠ .ok → Makes ctx raw inOut anyBank q D) :
    Makes ctx raw inOut (afterOk A status) (if status = .ok then p else q) D := by
  by_cases h : status = .ok
  · rw [if_pos h]
    exact hp.conseq (fun _ hb => hb h) fun _ _ hd => hd
  · rw [if_neg h]
    exact (hq h).conseq (fun _ _ => trivial) fun _ _ hd => hd

theorem makes_exit {D : CommandStatus → Byte → Prop} {p k : Driver CommandStatus}
    (hp : Makes ctx raw inOut P p (afterOk A)) (hk : Makes ctx raw inOut A k D)
    (hD : ∀ status b, status ≠ .ok → D status b) : Makes ctx raw inOut P (exitIfErr p k) D :=
  hp.bind fun status => makes_onOk hk fun hs => Emits.ret fun b _ => hD status b hs

/-- An error leaves a function of which nothing is known then. -/
theorem makes_exitAny {p k : Driver CommandStatus} (hp : Makes ctx raw inOut P p (afterOk A))
    (hk : Makes ctx raw inOut A k fun _ => anyBank) :
    Makes ctx raw inOut P (exitIfErr p k) fun _ => anyBank :=
  makes_exit hp hk fun _ _ _ => trivial

theorem makes_read {reg : CtlReg} (hn : raw = true ∨ isNamed reg = true)
    (hb : ∀ bank, P bank → ∀ b, reg.bank = some b → bank = b) (regValue : Option Byte) :
    Makes ctx raw inOut P (enc28DoReadCtlReg ctx reg regValue) fun _ => P := by
  cases regValue with
  | none =>
    rw [readCtlReg_null]
    exact Emits.ret fun _ h => h
  | some old =>
    by_cases hf : canRead ctx = false ∨ reg.id = 0x1A
    · obtain ⟨status, -, he⟩ := readCtlReg_fails old hf
      rw [he]
      exact Emits.ret fun _ h => h
    · simp only [not_or, Bool.not_eq_false] at hf
      rw [readCtlReg_eq old hf.1 hf.2]
      rintro _ hP _ _ ⟨rfl, rfl⟩ _ _ rfl _ bank rfl
      have hblock : Block ctx raw inOut _ := Block.read reg bank hf.1 hf.2 hn (hb bank hP)
      change traced anyDevice (if privEnc28IsMacOrMiiReg bank reg.id = true then _ else _) _ bank
      cases hd : privEnc28IsMacOrMiiReg bank reg.id with
      | true =>
        rw [hd] at hblock
        rintro _ u₄ rfl _ u₅ rfl
        exact ⟨Blocks.single hblock, hP⟩
      | false =>
        rw [hd] at hblock
        rintro _ u₄ rfl _ u₅ rfl
        exact ⟨Blocks.single hblock, hP⟩

theorem makes_write {reg : CtlReg} (hn : raw = true ∨ isNamed reg = true) (value : Byte) :
    Makes ctx raw inOut P (enc28DoWriteCtlReg ctx reg value) (afterOk P) := by
  by_cases hf : canWrite ctx = false ∨ reg.id = 0x1A
  · obtain ⟨status, hs, he⟩ := writeCtlReg_fails value hf
    rw [he]
    exact makes_status hs
  · simp only [not_or, Bool.not_eq_false] at hf
    rw [writeCtlReg_eq value hf.1 hf.2, writeTransaction, word_high, word_low]
    rintro bank hP _ u₁ rfl _ u₂ rfl _ u₃ rfl _ u₄ rfl _ u₅ rfl
    exact ⟨Blocks.single (Block.write reg value hf.1 hf.2 hn), fun _ => hP⟩

theorem makes_bits {op : Byte} (hop : op = opBfs ∨ op = opBfc) {reg : CtlReg}
    (hn : raw = true ∨ isNamed reg = true) (mask : Byte) :
    Makes ctx raw inOut P (doBitsCtlReg (prepareCtlReg op) ctx reg mask) (afterOk P) := by
  by_cases hf : canRead ctx = false ∨ reg.id = 0x1A
  · obtain ⟨status, hs, he⟩ := bitsCtlReg_fails op mask hf
    rw [he]
    exact makes_status hs
  · simp only [not_or, Bool.not_eq_false] at hf
    rw [bitsCtlReg_eq op mask hf.1 hf.2, bitsTransaction, word_high, word_low]
    rintro bank hP _ u₁ rfl _ u₂ rfl _ u₃ rfl
    exact ⟨Blocks.single (Block.bits op hop reg mask hf.1 hf.2 hn), fun _ => hP⟩

theorem makes_setBits {reg : CtlReg} (hn : raw = true ∨ isNamed reg = true) (mask : Byte) :
    Makes ctx raw inOut P (enc28DoSetBitsCtlReg ctx reg mask) (afterOk P) :=
  makes_bits (Or.inl rfl) hn mask

theorem makes_clearBits {reg : CtlReg} (hn : raw = true ∨ isNamed reg = true) (mask : Byte) :
    Makes ctx raw inOut P (enc28DoClearBitsCtlReg ctx reg mask) (afterOk P) :=
  makes_bits (Or.inr rfl) hn mask

theorem shared_anywhere {reg : CtlReg} (h : reg.bank = none) (bank : Byte) (_ : P bank) (b : Byte)
    (hb : reg.bank = some b) : bank = b := by
  rw [h] at hb
  cases hb

theorem makes_select (b : Byte) :
    Makes ctx raw inOut P (enc28SelectRegisterBank ctx b) (afterOk (Switched ctx b)) := by
  unfold enc28SelectRegisterBank
  simp only [bind_eq, pure_eq]
  split_ifs
  · exact makes_status (by decide)
  · refine (makes_read (Or.inr rfl) (shared_anywhere rfl) _).bind fun r => ?_
    split_ifs with hr
    · cases hc : canWrite ctx with
      | false =>
        obtain ⟨status, hs, he⟩ : ∃ status, status ≠ .ok ∧
          enc28DoWriteCtlReg ctx .econ1 (econ1WithBank r.2 b) = .ret status :=
            writeCtlReg_fails _ (Or.inl hc)
        simp only [he, ret_bind, hs, if_false]
        exact makes_status hs
      | true =>
        refine (makes_write (Or.inr rfl) _).bind fun status => makes_onOk ?_ makes_status
        exact fun _ _ _ _ hb => ⟨Blocks.single (Block.store b), fun _ => ⟨hc, hb⟩⟩
    · exact makes_status hr

theorem makes_statusBurst (hi : inOut = true) {D : α → Byte → Prop} {b : Byte} (m n : ℕ)
    {k : (Fin (n + 1) → Byte) → Driver α} (hk : ∀ hdr, Makes ctx raw inOut (Switched ctx b) (k hdr) D) :
    Makes ctx raw inOut (Switched ctx b) ((nssPinOp 0).bind fun _ =>
      (spiInOutOp (0x3A :: List.replicate m 0) (n + 1)).bind fun hdr =>
      (nssPinOp 1).bind fun _ => k hdr) D := by
  rintro _ hs _ _ rfl hdr _ rfl _ bank rfl
  exact traced_mono (fun t o v h => ⟨Blocks.cons (Block.statusBurst m n hs.1 hi) h.1, h.2⟩) (hk hdr bank hs)

theorem makes_packetBurst {D : α → Byte → Prop} {b : Byte} (len : ℕ)
    {k : (Fin len → Byte) → Driver α} (hk : ∀ packet, Makes ctx raw inOut (Switched ctx b) (k packet) D) :
    Makes ctx raw inOut (Switched ctx b) ((nssPinOp 0).bind fun _ => (spiOutOp none [0x3A]).bind fun _ =>
      (spiInOp len).bind fun packet => (nssPinOp 1).bind fun _ => k packet) D := by
  rintro _ hs _ _ rfl _ _ rfl packet _ rfl _ bank rfl
  exact traced_mono (fun t o v h => ⟨Blocks.cons (Block.packetBurst len hs.1) h.1, h.2⟩) (hk packet bank hs)

theorem makes_writeBurst {D : α → Byte → Prop} {b : Byte} (v : Byte) (buff : List Byte) {k : Driver α}
    (hk : Makes ctx raw inOut (Switched ctx b) k D) :
    Makes ctx raw inOut (Switched ctx b) ((nssPinOp 0).bind fun _ => (spiOutOp none [0x7A, v]).bind fun _ =>
      (spiOutOp none buff).bind fun _ => (nssPinOp 1).bind fun _ => k) D := by
  rintro _ hs _ _ rfl _ _ rfl _ _ rfl _ bank rfl
  exact traced_mono (fun t o v' h => ⟨Blocks.cons (Block.writeBurst v buff hs.1) h.1, h.2⟩) (hk bank hs)

theorem makes_wait (hc : canWrite ctx = true) (ns : ℕ) {D : α → Byte → Prop} {k : Driver α}
    (hk : Makes ctx raw inOut P k D) :
    Makes ctx raw inOut P ((waitNano ns).bind fun _ => k) D := by
  rintro _ hs _ bank rfl
  exact traced_mono (fun t o v h => ⟨Blocks.cons (Block.wait ns hc) h.1, h.2⟩) (hk bank hs)

theorem makes_softReset : Makes ctx raw inOut P (enc28DoSoftReset ctx) fun _ => anyBank := by
  cases ctx with
  | none => exact makes_ret _
  | some c =>
    simp only [enc28DoSoftReset, canRead_some]
    cases hc : canRead (some c) with
    | false => exact makes_ret _
    | true =>
      rintro _ _ _ _ rfl _ _ rfl _ _ rfl
      exact ⟨Blocks.single (Block.reset hc), trivial⟩

theorem named_bank {reg : CtlReg} {b : Byte} (h : reg.bank = some b) (bank : Byte)
    (hs : Switched ctx b bank) (b' : Byte) (hb : reg.bank = some b') : bank = b' := by
  rw [h] at hb
  rw [hs.2, Option.some.inj hb]

theorem makes_readNamed {reg : CtlReg} {b : Byte} (h : reg.bank = some b) (regValue : Option Byte) :
    Makes ctx raw inOut (Switched ctx b) (enc28DoReadCtlReg ctx reg regValue)
      fun _ => Switched ctx b := by
  refine makes_read (Or.inr ?_) (named_bank h) regValue
  cases reg <;> first | rfl | cases h

theorem makes_pollMistat (rounds : ℕ) :
    Makes ctx raw inOut (Switched ctx 3) (pollMistat ctx rounds) (afterOk (Switched ctx 3)) := by
  induction rounds with
  | zero => exact Emits.spin
  | succ rounds ih =>
    simp only [pollMistat, bind_eq, pure_eq]
    refine (makes_readNamed rfl _).bind fun r => ?_
    split_ifs with hr hb
    · exact fun bank hs => makes_wait hs.1 1 ih bank hs
    · exact Emits.ret fun _ h _ => h
    · exact makes_status hr

theorem makes_phyReadCommand (hc : canWrite ctx = true) (rounds : ℕ) (regId : Byte) :
    Makes ctx raw inOut P (phyReadCommand rounds ctx regId) (afterOk (Switched ctx 2)) := by
  have err : ∀ (A : Byte → Prop) status b, status ≠ CommandStatus.ok → afterOk A status b :=
    fun A status b hs h => absurd h hs
  refine makes_exit (makes_select 2) (makes_exit (makes_write (Or.inr rfl) _)
    (makes_exit (makes_write (Or.inr rfl) _) (makes_wait hc _ ?_) (err _)) (err _)) (err _)
  exact makes_exit (makes_select 3) (makes_exit (makes_pollMistat rounds)
    (makes_exit (makes_select 2) (makes_write (Or.inr rfl) _) (err _)) (err _)) (err _)

theorem makes_readPhyRegister (rounds : ℕ) (regId : Byte) (regValue : Word) :
    Makes ctx raw inOut P (enc28DoReadPhyRegister rounds ctx regId regValue)
      fun r => afterOk (Switched ctx 2) r.1 := by
  have stop : ∀ (P : Byte → Prop) (status : CommandStatus), status ≠ .ok →
      Makes ctx raw inOut P (.ret (status, regValue)) fun r => afterOk (Switched ctx 2) r.1 :=
    fun P status hs => Emits.ret fun _ _ h => absurd h hs
  unfold enc28DoReadPhyRegister
  cases hp : privEnc28IsPhyReg regId with
  | false => exact stop P .invalidParam (by decide)
  | true =>
    cases ctx with
    | none => exact stop P .invalidParam (by decide)
    | some c =>
      simp only [Bool.not_true, Bool.false_eq_true, if_false, canWrite_some, bind_eq, pure_eq]
      cases hc : canWrite (some c) with
      | false => exact stop P .invalidParam (by decide)
      | true =>
        refine (makes_phyReadCommand hc rounds regId).bind fun status =>
          makes_onOk ?_ fun hs => stop _ status hs
        refine (makes_readNamed rfl _).bind fun lo => ?_
        split_ifs with hlo
        · refine (makes_readNamed rfl _).bind fun hi => ?_
          split_ifs with hhi
          · exact Emits.ret fun _ h _ => h
          · exact stop _ _ hhi
        · exact stop _ _ hlo

/-- A write among others: an error leaves. -/
theorem makes_writeThen {reg : CtlReg} (hn : isNamed reg = true) (value : Byte)
    {k : Driver CommandStatus} (hk : Makes ctx raw inOut P k fun _ => anyBank) :
    Makes ctx raw inOut P (exitIfErr (enc28DoWriteCtlReg ctx reg value) k) fun _ => anyBank :=
  makes_exitAny (makes_write (Or.inr hn) value) hk

theorem makes_setThen {reg : CtlReg} (hn : isNamed reg = true) (mask : Byte)
    {k : Driver CommandStatus} (hk : Makes ctx raw inOut P k fun _ => anyBank) :
    Makes ctx raw inOut P (exitIfErr (enc28DoSetBitsCtlReg ctx reg mask) k) fun _ => anyBank :=
  makes_exitAny (makes_setBits (Or.inr hn) mask) hk

theorem makes_clearThen {reg : CtlReg} (hn : isNamed reg = true) (mask : Byte)
    {k : Driver CommandStatus} (hk : Makes ctx raw inOut P k fun _ => anyBank) :
    Makes ctx raw inOut P (exitIfErr (enc28DoClearBitsCtlReg ctx reg mask) k) fun _ => anyBank :=
  makes_exitAny (makes_clearBits (Or.inr hn) mask) hk

theorem makes_selectThen (b : Byte) {k : Driver CommandStatus}
    (hk : Makes ctx raw inOut (Switched ctx b) k fun _ => anyBank) :
    Makes ctx raw inOut P (exitIfErr (enc28SelectRegisterBank ctx b) k) fun _ => anyBank :=
  makes_exitAny (makes_select b) hk

theorem makes_lastWrite {reg : CtlReg} (hn : isNamed reg = true) (value : Byte) :
    Makes ctx raw inOut P (enc28DoWriteCtlReg ctx reg value) fun _ => anyBank :=
  (makes_write (Or.inr hn) value).any

theorem makes_lastSet {reg : CtlReg} (hn : isNamed reg = true) (mask : Byte) :
    Makes ctx raw inOut P (enc28DoSetBitsCtlReg ctx reg mask) fun _ => anyBank :=
  (makes_setBits (Or.inr hn) mask).any

/-- Two parts of which nothing is known. -/
theorem makes_then {p k : Driver CommandStatus} (hp : Makes ctx raw inOut P p fun _ => anyBank)
    (hk : Makes ctx raw inOut anyBank k fun _ => anyBank) :
    Makes ctx raw inOut P (exitIfErr p k) fun _ => anyBank :=
  makes_exitAny (hp.conseq (fun _ h => h) fun _ _ h _ => h) hk

theorem makes_pollEstatClk (rounds : ℕ) (status : CommandStatus) (regValue : Byte) :
    Makes ctx raw inOut P (pollEstatClk ctx rounds status regValue) fun _ => anyBank := by
  induction rounds generalizing status regValue with
  | zero => exact Emits.spin
  | succ rounds ih =>
    unfold pollEstatClk
    split_ifs
    · exact makes_ret _
    · exact (makes_read (Or.inr rfl) (shared_anywhere rfl) _).bind fun r => ih r.1 r.2
    · exact makes_ret _

theorem makes_macInitDuplex (cfg : Conf) (macAdd : MacAddress) (isFullDuplex : Bool) :
    Makes ctx raw inOut P (macInitDuplex cfg macAdd ctx isFullDuplex) fun _ => anyBank := by
  have gap : Makes ctx raw inOut P (if isFullDuplex then .ret .ok
      else enc28DoWriteCtlReg ctx .maipgh (BitVec.ofNat 8 cfg.maipghBits)) (afterOk P) := by
    cases isFullDuplex with
    | true => exact Emits.ret fun _ h _ => h
    | false =>
      change Makes ctx raw inOut P (enc28DoWriteCtlReg ctx .maipgh _) _
      exact makes_write (Or.inr rfl) _
  exact makes_setThen rfl _ <| makes_setThen rfl _ <| makes_writeThen rfl _ <| makes_writeThen rfl _ <|
    makes_writeThen rfl _ <| makes_writeThen rfl _ <| makes_exitAny gap <| makes_selectThen 3 <|
    makes_writeThen rfl _ <| makes_writeThen rfl _ <| makes_writeThen rfl _ <| makes_writeThen rfl _ <|
    makes_writeThen rfl _ <| makes_writeThen rfl _ (makes_select 0).any

theorem makes_macInit (cfg : Conf) (rounds : ℕ) (macAdd : MacAddress) :
    Makes ctx raw inOut P (privEnc28DoMacInit cfg rounds macAdd ctx) fun _ => anyBank :=
  makes_selectThen 2 <| makes_setThen rfl _ <| (makes_readPhyRegister rounds phyrPhcon1 0).bind fun _ =>
    makes_onOk (makes_macInitDuplex cfg macAdd _) fun _ => makes_ret _

theorem makes_init (cfg : Conf) (rounds : ℕ) (macAdd : MacAddress) :
    Makes ctx raw inOut P (enc28DoInit cfg rounds macAdd ctx) fun _ => anyBank := by
  have buffers : Makes ctx raw inOut P (privEnc28DoBufferRegisterInit cfg ctx) fun _ => anyBank :=
    (makes_select 0).any.bind fun _ => makes_writeThen rfl _ <| makes_writeThen rfl _ <|
      makes_writeThen rfl _ <| makes_writeThen rfl _ <| makes_writeThen rfl _ <| makes_lastWrite rfl _
  have filters : Makes ctx raw inOut anyBank (privEnc28DoReceiveFilterInit cfg ctx) fun _ => anyBank :=
    makes_selectThen 1 <| makes_lastWrite rfl _
  have clock : Makes ctx raw inOut anyBank (privEnc28DoPollEstatClk rounds ctx) fun _ => anyBank :=
    (makes_read (Or.inr rfl) (shared_anywhere rfl) _).bind fun r => makes_pollEstatClk rounds r.1 r.2
  exact makes_then buffers <| makes_then filters <| makes_then clock <|
    makes_then (makes_macInit cfg rounds macAdd) (makes_ret _)

theorem makes_readHwRev (rounds : ℕ) (hwRev : Option HwRev) :
    Makes ctx raw inOut P (enc28DoReadHwRev rounds ctx hwRev) fun _ => anyBank := by
  cases hwRev with
  | none => exact makes_ret _
  | some rev =>
    refine (makes_readPhyRegister rounds phyrPhid1 rev.phid1).bind fun r => ?_
    refine makes_onOk ?_ fun _ => makes_ret _
    refine (makes_readPhyRegister rounds phyrPhid2 rev.phid2).bind fun r => ?_
    refine makes_onOk ?_ fun _ => makes_ret _
    refine (makes_select 3).bind fun status => makes_onOk ?_ fun _ => makes_ret _
    exact (makes_readNamed rfl _).bind fun r => makes_ret _

theorem makes_readMacBytes (regs : List (CtlReg × Fin 6)) (hr : ∀ x ∈ regs, x.1.bank = some 3)
    (mac : MacAddress) :
    Makes ctx raw inOut (Switched ctx 3) (readMacBytes ctx regs mac) fun _ => anyBank := by
  induction regs generalizing mac with
  | nil => exact makes_ret _
  | cons x regs ih =>
    refine (makes_readNamed (hr x List.mem_cons_self) _).bind fun r => ?_
    change Makes ctx raw inOut _ (if r.1 = .ok then _ else _) _
    split_ifs
    · exact ih (fun y hy => hr y (List.mem_cons_of_mem x hy)) _
    · exact makes_ret _

theorem makes_readMac (mac : MacAddress) :
    Makes ctx raw inOut P (enc28DoReadMac ctx mac) fun _ => anyBank :=
  (makes_select 3).bind fun status =>
    makes_onOk (makes_readMacBytes _ (by decide) mac) fun _ => makes_ret _

theorem makes_beginPacketTransfer (cfg : Conf) :
    Makes ctx raw inOut P (enc28BeginPacketTransfer cfg ctx) fun _ => anyBank :=
  makes_selectThen 0 <| makes_writeThen rfl _ <| makes_writeThen rfl _ <| makes_setThen rfl _ <|
    makes_clearThen rfl _ <| makes_setThen rfl _ <| makes_lastSet rfl _

theorem makes_releasePacket (cfg : Conf) (nextLo nextHi : Byte) :
    Makes ctx raw inOut P (releasePacket cfg ctx nextLo nextHi) fun _ => anyBank :=
  makes_writeThen rfl _ <| makes_writeThen rfl _ <| makes_writeThen rfl _ <| makes_writeThen rfl _ <|
    makes_lastSet rfl _

theorem makes_readPacketBody (cfg : Conf) (packetBuf : List Byte) (bufSize : Word)
    (optStatusVec : Option ReceiveStatusVector) (hdr : Fin 7 → Byte) :
    Makes ctx raw inOut (Switched ctx 0) (readPacketBody cfg ctx packetBuf bufSize optStatusVec hdr)
      fun _ => anyBank := by
  unfold readPacketBody
  simp only [bind_eq, pure_eq]
  split_ifs
  · exact makes_ret _
  · exact makes_ret _
  · exact makes_packetBurst _ fun packet =>
      (makes_releasePacket cfg _ _).bind fun status => makes_ret _

theorem makes_rxErrorRecovery (cfg : Conf) :
    Makes ctx raw inOut P (rxErrorRecovery cfg ctx) fun _ => anyBank :=
  makes_selectThen 0 <| makes_writeThen rfl _ <| makes_writeThen rfl _ <| makes_clearThen rfl _ <|
    makes_ret _

theorem makes_readPacket (hi : inOut = true) (cfg : Conf) (packetBuf : List Byte) (bufSize : Word)
    (optStatusVec : Option ReceiveStatusVector) :
    Makes ctx raw inOut P (enc28ReadPacket cfg ctx packetBuf bufSize optStatusVec)
      fun _ => anyBank := by
  have pending : ∀ val, Makes ctx raw inOut P
      (readPacketPending cfg ctx packetBuf bufSize optStatusVec val) fun _ => anyBank := by
    intro val
    refine (makes_select 0).bind fun status => makes_onOk ?_ fun _ => makes_ret _
    refine (makes_readNamed rfl _).bind fun lo => (makes_readNamed rfl _).bind fun hi' => ?_
    simp only
    split_ifs
    · exact makes_ret _
    · exact makes_statusBurst hi 6 6 fun hdr =>
        makes_readPacketBody cfg packetBuf bufSize optStatusVec hdr
  refine (makes_read (Or.inr rfl) (shared_anywhere rfl) _).bind fun r => ?_
  simp only
  split_ifs
  · exact pending _
  · exact (makes_rxErrorRecovery cfg).bind fun status => makes_ret _
  · exact makes_ret _
  · exact makes_ret _

theorem makes_transmitPacket (cfg : Conf) (packetBuf : List Byte) (bufSize : Word) :
    Makes ctx raw inOut P (transmitPacket cfg ctx packetBuf bufSize) fun _ => anyBank :=
  makes_selectThen 0 <| makes_writeThen rfl _ <| makes_writeThen rfl _ <| makes_writeThen rfl _ <|
    makes_writeThen rfl _ <| makes_writeBurst 0 _ <| makes_writeThen rfl _ <| makes_writeThen rfl _ <|
    makes_clearThen rfl _ <| makes_setThen rfl _ <| makes_clearThen rfl _ <| makes_lastSet rfl _

theorem makes_writePacket (cfg : Conf) (packetBuf : Option (List Byte)) (bufSize : Word) :
    Makes ctx raw inOut P (enc28WritePacket cfg ctx packetBuf bufSize) fun _ => anyBank := by
  match hctx : ctx, packetBuf with
  | none, _ => exact makes_ret _
  | some c, none => exact makes_ret _
  | some c, some packet =>
    unfold enc28WritePacket
    simp only [bind_eq, pure_eq]
    split_ifs
    · exact makes_ret _
    · refine (makes_read (Or.inr rfl) (shared_anywhere rfl) _).bind fun r => ?_
      split_ifs
      · exact makes_ret _
      · exact makes_transmitPacket cfg packet bufSize
      · exact makes_ret _

theorem makes_ifOk {D : α → Byte → Prop} {status : CommandStatus} {p q : Driver α}
    (hp : Makes ctx raw inOut P p D) (hq : Makes ctx raw inOut P q D) :
    Makes ctx raw inOut P (if status = .ok then p else q) D := by
  split_ifs
  · exact hp
  · exact hq

theorem makes_readTransmitStatusVector (hi : inOut = true) :
    Makes ctx raw inOut P (readTransmitStatusVector ctx) fun _ => anyBank := by
  unfold readTransmitStatusVector
  refine makes_selectThen 0 ?_
  simp only [bind_eq, pure_eq]
  refine (makes_readNamed rfl _).bind fun lo => makes_ifOk ?_ (makes_ret _)
  refine (makes_readNamed rfl _).bind fun hi' => makes_ifOk ?_ (makes_ret _)
  refine (makes_readNamed rfl _).bind fun endLo => makes_ifOk ?_ (makes_ret _)
  refine (makes_readNamed rfl _).bind fun endHi => makes_ifOk ?_ (makes_ret _)
  refine makes_writeThen rfl _ <| makes_writeThen rfl _ <| makes_statusBurst hi 7 6 fun _ => ?_
  exact makes_writeThen rfl _ <| makes_lastWrite rfl _

theorem makes_checkOutgoingPacketStatus (hi : inOut = true) :
    Makes ctx raw inOut P (enc28CheckOutgoingPacketStatus ctx) fun _ => anyBank := by
  unfold enc28CheckOutgoingPacketStatus
  simp only [bind_eq, pure_eq]
  refine (makes_read (Or.inr rfl) (shared_anywhere rfl) _).bind fun r => makes_ifOk ?_ (makes_ret _)
  split_ifs
  · refine (makes_read (Or.inr rfl) (shared_anywhere rfl) _).bind fun r => makes_ifOk ?_ (makes_ret _)
    refine (makes_readTransmitStatusVector hi).bind fun status => makes_ifOk ?_ (makes_ret _)
    split_ifs
    · exact makes_ret _
    · exact makes_ret _
  · exact makes_ret _

theorem makes_endPacketTransfer :
    Makes ctx raw inOut P (enc28EndPacketTransfer ctx) fun _ => anyBank :=
  makes_selectThen 0 (makes_clearBits (Or.inr rfl) _).any

end

/-- The functions that call `spi_in_out_op` in some of their branches. -/
def usesInOut : DriverOp → Bool
  | .readPacket _ _ _ | .checkOutgoingPacketStatus => true
  | _ => false

/-- A public function makes its calls in blocks. -/
theorem call_makes (cfg : Conf) (c : DriverCall) {raw inOut : Bool} {P : Byte → Prop}
    (hraw : isRaw c.op = true → raw = true) (hin : usesInOut c.op = true → inOut = true) :
    Makes c.ctx raw inOut P (c.prog cfg) fun _ => anyBank := by
  obtain ⟨ctx, rounds, op⟩ := c
  cases op with
  | softReset => exact makes_softReset.bind fun _ => makes_ret _
  | init macAdd => exact (makes_init cfg rounds macAdd).bind fun _ => makes_ret _
  | readHwRev hwRev => exact (makes_readHwRev rounds hwRev).bind fun _ => makes_ret _
  | readMac mac => exact (makes_readMac mac).bind fun _ => makes_ret _
  | readPhyRegister regId regValue =>
    exact (makes_readPhyRegister rounds regId regValue).bind fun _ => makes_ret _
  | readCtlReg regId regValue =>
    exact (makes_read (Or.inl (hraw rfl)) (shared_anywhere rfl) regValue).bind fun _ => makes_ret _
  | writeCtlReg regId regValue =>
    exact (makes_write (Or.inl (hraw rfl)) regValue).bind fun _ => makes_ret _
  | setBitsCtlReg regId mask =>
    exact (makes_setBits (Or.inl (hraw rfl)) mask).bind fun _ => makes_ret _
  | clearBitsCtlReg regId mask =>
    exact (makes_clearBits (Or.inl (hraw rfl)) mask).bind fun _ => makes_ret _
  | selectRegisterBank bankId => exact (makes_select bankId).bind fun _ => makes_ret _
  | beginPacketTransfer => exact (makes_beginPacketTransfer cfg).bind fun _ => makes_ret _
  | readPacket packetBuf bufSize optStatusVec =>
    exact (makes_readPacket (hin rfl) cfg packetBuf bufSize optStatusVec).bind fun _ => makes_ret _
  | writePacket packetBuf bufSize =>
    exact (makes_writePacket cfg packetBuf bufSize).bind fun _ => makes_ret _
  | checkOutgoingPacketStatus =>
    exact (makes_checkOutgoingPacketStatus (hin rfl)).bind fun _ => makes_ret _
  | endPacketTransfer => exact makes_endPacketTransfer.bind fun _ => makes_ret _

/-- What the bus sees of the calls: not the waits, not the driver's variable. -/
def onBus : Call → Bool
  | .nssPinOp _ | .spiOutOp _ _ | .spiInOp _ | .spiInOutOp _ _ => true
  | .waitNano _ | .loadBank | .storeBank _ => false

/-- The registers behind which the chip sends a dummy byte, by name. -/
def isMacOrMii (reg : CtlReg) : Bool :=
  match reg.bank with
  | some b => (macMiiAddrs b).contains reg.addr
  | none => false

/-- A command byte for a register that is not the reserved one. -/
structure Addresses (cmd op : Byte) (reg : CtlReg) : Prop where
  opcode : cmd >>> spiArgBits = op
  addr : cmd &&& spiArgMask = reg.addr
  notReserved : cmd &&& spiArgMask ≠ 0x1A

/-- What may stand between chip select low and high. -/
inductive Payload : List Call → Prop
  | read (cmd : Byte) (reg : CtlReg) (h : Addresses cmd opRcr reg) :
      Payload [.spiOutOp (some reg) [cmd], .spiInOp (if isMacOrMii reg then 2 else 1)]
  | command (cmd op data : Byte) (reg : CtlReg) (hop : op = opWcr ∨ op = opBfs ∨ op = opBfc)
      (h : Addresses cmd op reg) : Payload [.spiOutOp (some reg) [cmd, data]]
  | readBuffer (len : ℕ) : Payload [.spiOutOp none [0x3A], .spiInOp len]
  | readBufferInOut (m n : ℕ) : Payload [.spiInOutOp (0x3A :: List.replicate m 0) (n + 1)]
  | writeBuffer (b : Byte) (buff : List Byte) :
      Payload [.spiOutOp none [0x7A, b], .spiOutOp none buff]
  | reset : Payload [.spiOutOp none [0xFF]]

inductive Transaction : List Call → Prop
  | mk {payload : List Call} (h : Payload payload) :
      Transaction (.nssPinOp 0 :: (payload ++ [.nssPinOp 1]))

theorem named_addr {reg : CtlReg} (h : isNamed reg = true) :
    reg.id = reg.addr ∧ reg.addr ≠ 0x1A ∧ (reg.bank = none → 0x1B ≤ reg.addr.toNat) := by
  cases reg
  case raw => cases h
  all_goals decide

theorem addresses_named {reg : CtlReg} (h : isNamed reg = true) {op : Byte} (hop : op.toNat < 8) :
    Addresses (commandByte op reg.id) op reg := by
  have haddr := commandByte_addr op reg.id
  exact ⟨commandByte_opcode op reg.id hop, haddr, haddr ▸ (named_addr h).2.1⟩

/-- The driver's variable picks the length that belongs to the register. -/
theorem readLen_named {reg : CtlReg} {bank : Byte} (h : isNamed reg = true)
    (hb : ∀ b, reg.bank = some b → bank = b) :
    privEnc28IsMacOrMiiReg bank reg.id = isMacOrMii reg := by
  obtain ⟨hid, -, hshared⟩ := named_addr h
  unfold isMacOrMii
  cases hr : reg.bank with
  | none => exact isMacOrMii_shared bank reg.id (hid ▸ hshared hr)
  | some b => rw [hb b hr, isMacOrMiiReg_eq, hid]

theorem block_transaction {ctx : Option SpiContext} {inOut : Bool} {block : List Call}
    (h : Block ctx false inOut block) :
    block.filter onBus = [] ∨ Transaction (block.filter onBus) := by
  cases h with
  | read reg bank hc hid hn hb =>
    have hn := hn.resolve_left Bool.false_ne_true
    rw [readLen_named hn hb]
    exact Or.inr (Transaction.mk (Payload.read _ reg (addresses_named hn (by decide))))
  | write reg value hc hid hn =>
    have hn := hn.resolve_left Bool.false_ne_true
    exact Or.inr (Transaction.mk (Payload.command _ opWcr value reg (Or.inl rfl)
      (addresses_named hn (by decide))))
  | bits op hop reg mask hc hid hn =>
    have hn := hn.resolve_left Bool.false_ne_true
    have h8 : op.toNat < 8 := by rcases hop with rfl | rfl <;> decide
    exact Or.inr (Transaction.mk (Payload.command _ op mask reg (Or.inr hop) (addresses_named hn h8)))
  | reset hc => exact Or.inr (Transaction.mk Payload.reset)
  | statusBurst m n hc hi => exact Or.inr (Transaction.mk (Payload.readBufferInOut m n))
  | packetBurst len hc => exact Or.inr (Transaction.mk (Payload.readBuffer len))
  | writeBurst b buff hc => exact Or.inr (Transaction.mk (Payload.writeBuffer b buff))
  | wait ns hc => exact Or.inl rfl
  | store bank => exact Or.inl rfl

def drives : Call → Option Byte
  | .nssPinOp level => some level
  | _ => none

/-- The level of chip select after some calls. -/
def selectAfter (level : Byte) (calls : List Call) : Byte :=
  calls.foldl (fun level e => (drives e).getD level) level

theorem selectAfter_append (level : Byte) (front back : List Call) :
    selectAfter level (front ++ back) = selectAfter (selectAfter level front) back :=
  List.foldl_append

theorem selectAfter_onBus (level : Byte) (calls : List Call) :
    selectAfter level (calls.filter onBus) = selectAfter level calls := by
  induction calls generalizing level with
  | nil => rfl
  | cons e calls ih =>
    cases e with
    | nssPinOp | spiOutOp | spiInOp | spiInOutOp => exact ih _
    | waitNano | loadBank | storeBank => exact ih level

theorem transactions_end_high {calls : List Call} (h : Blocks Transaction calls) :
    selectAfter 1 calls = 1 := by
  induction h with
  | nil => rfl
  | cons head tail ih =>
    obtain @⟨payload, -⟩ := head
    have hlast : selectAfter 1 (.nssPinOp 0 :: (payload ++ [.nssPinOp 1])) = 1 := by
      rw [← List.cons_append, selectAfter_append]
      rfl
    rw [selectAfter_append, hlast]
    exact ih

/-- The calls of a record, in order. -/
def callsOf (r : CallRecord Call Byte DriverCall (CommandStatus × DriverOutput)) : List Call :=
  r.trace.map Prod.fst

theorem call_transactions {cfg : Conf} {c : DriverCall} (hop : isRaw c.op = false) {s v : Byte}
    {t : List (Call × Byte)} {o : Option (CommandStatus × DriverOutput)}
    (run : Exec anyDevice (c.prog cfg) s t o v) :
    Blocks Transaction ((t.map Prod.fst).filter onBus) := by
  have makes : Makes c.ctx false true anyBank (c.prog cfg) fun _ => anyBank :=
    call_makes cfg c (fun h => absurd (hop.symm.trans h) Bool.false_ne_true) fun _ => rfl
  exact (makes.sound trivial run).1.filter fun _ => block_transaction

/-- In every run of the driver's own operations on any device, and in a further
call, returned or not: the bus sees whole transactions, and chip select is high
after every call. -/
theorem spi_traces_well_formed (cfg : Conf) {shadow u v : Byte}
    {rs : List (CallRecord Call Byte DriverCall (CommandStatus × DriverOutput))}
    (session : Session anyDevice (DriverCall.prog cfg) shadow rs u)
    (hops : ∀ r ∈ rs, isRaw r.op.op = false) {c : DriverCall} (hop : isRaw c.op = false)
    {t : List (Call × Byte)} {o : Option (CommandStatus × DriverOutput)}
    (run : Exec anyDevice (c.prog cfg) u t o v) :
    Blocks Transaction ((rs.flatMap callsOf ++ t.map Prod.fst).filter onBus) ∧
      (∀ n, selectAfter 1 ((rs.take n).flatMap callsOf) = 1) ∧
      selectAfter 1 (rs.flatMap callsOf ++ t.map Prod.fst) = 1 := by
  have each : ∀ r ∈ rs, Blocks Transaction ((callsOf r).filter onBus) := by
    intro r hr
    obtain ⟨-, -, -, hrun⟩ := session.mem hr
    exact call_transactions (hops r hr) hrun
  have some : ∀ front : List (CallRecord Call Byte DriverCall (CommandStatus × DriverOutput)),
      (∀ r ∈ front, r ∈ rs) → Blocks Transaction ((front.flatMap callsOf).filter onBus) := by
    intro front hfront
    rw [List.filter_flatMap]
    exact Blocks.flatMap fun r hr => each r (hfront r hr)
  have all : Blocks Transaction ((rs.flatMap callsOf ++ t.map Prod.fst).filter onBus) := by
    rw [List.filter_append]
    exact (some rs fun _ h => h).append (call_transactions hop run)
  refine ⟨all, fun n => ?_, ?_⟩
  · rw [← selectAfter_onBus]
    exact transactions_end_high (some _ fun r hr => List.mem_of_mem_take hr)
  · rw [← selectAfter_onBus]
    exact transactions_end_high all

/-- Answers each read with `b`, and an exchange with the bytes `hdr`. -/
def answering (b : Byte) (hdr : ℕ → Byte) : (e : Call) → Byte → e.Reply × Byte
  | .loadBank, s => (s, s)
  | .storeBank bank, _ => ((), bank)
  | .spiInOp _, s => (fun _ => b, s)
  | .spiInOutOp _ _, s => (fun i => hdr i, s)
  | .nssPinOp _, s | .spiOutOp _ _, s | .waitNano _, s => ((), s)

theorem answering_step (b : Byte) (hdr : ℕ → Byte) (e : Call) (s : Byte) :
    anyDevice e s (answering b hdr e s).1 (answering b hdr e s).2 := by
  cases e with
  | loadBank => exact ⟨rfl, rfl⟩
  | nssPinOp | spiOutOp | spiInOp | spiInOutOp | waitNano | storeBank => rfl

/-- A reset, reads of MAC, MII and ETH registers, a packet of four bytes received and one
of 14 sent; the last call waits for a PHY that stays busy. -/
theorem traffic_well_formed :
    let last : DriverCall := ⟨some fullContext, 2, .readPhyRegister 0x11 0⟩
    ∃ rs u t v, Session anyDevice (DriverCall.prog {}) 3 rs u ∧
      rs.map (fun r => (r.op.rounds, r.result.1)) = [(0, .ok), (0, .ok), (1, .ok), (0, .ok), (0, .ok)] ∧
      Exec anyDevice (last.prog {}) u t none v ∧
      Blocks Transaction ((rs.flatMap callsOf ++ t.map Prod.fst).filter onBus) ∧
      (∀ n, selectAfter 1 ((rs.take n).flatMap callsOf) = 1) ∧
      selectAfter 1 (rs.flatMap callsOf ++ t.map Prod.fst) = 1 := by
  intro last
  let zero : (e : Call) → Byte → e.Reply × Byte := answering 0 fun _ => 0
  -- EIR.PKTIF is set, ERDPT is 0x0848, the header announces four bytes
  let pending : (e : Call) → Byte → e.Reply × Byte :=
    answering 0x48 fun i => [0, 0x60, 0x08, 4, 0, 0x80, 0].getD i 0
  let calls : List (DriverCall × ((e : Call) → Byte → e.Reply × Byte)) :=
    [(⟨some fullContext, 0, .softReset⟩, zero), (⟨some fullContext, 0, .readMac ⟨fun _ => 0⟩⟩, zero),
      (⟨some fullContext, 1, .readPhyRegister 0x10 0⟩, zero),
      (⟨some fullContext, 0, .readPacket [1, 2, 3, 4] 4 none⟩, pending),
      (⟨some fullContext, 0, .writePacket (some (List.replicate 14 0xAA)) 14⟩, zero)]
  have hsteps : ∀ x ∈ calls, ∀ e s, anyDevice e s (x.2 e s).1 (x.2 e s).2 := by
    intro x hx
    simp only [calls, List.mem_cons, List.not_mem_nil, or_false] at hx
    rcases hx with rfl | rfl | rfl | rfl | rfl <;> exact answering_step _ _
  let f : List (CallRecord Call Byte DriverCall (CommandStatus × DriverOutput)) × Byte →
      Bool × List (ℕ × CommandStatus) := fun x =>
    ((x.1.all fun r => !isRaw r.op.op) && ((last.prog {}).run (answering 1 fun _ => 0) x.2).1.isNone,
      x.1.map fun r => (r.op.rounds, r.result.1))
  have hrun : (runCalls (DriverCall.prog {}) calls 3).map f =
      some (true, [(0, .ok), (0, .ok), (1, .ok), (0, .ok), (0, .ok)]) := by
    decide +kernel
  obtain ⟨rs, u, hs, hv⟩ := runCalls_shows hsteps hrun
  simp only [f, Prod.mk.injEq, Bool.and_eq_true, List.all_eq_true, Bool.not_eq_true',
    Option.isNone_iff_eq_none] at hv
  obtain ⟨⟨hops, hcut⟩, hshown⟩ := hv
  have hlast := run_calls (answering_step 1 fun _ => 0) (last.prog {}) u
  rw [hcut] at hlast
  exact ⟨rs, u, _, _, hs, hshown, hlast, spi_traces_well_formed {} hs hops rfl hlast⟩

end Stm32NetworkStack.SpiTraces
