import Stm32NetworkStack.BankSafety
import Stm32NetworkStack.DriverCommands
import Stm32NetworkStack.ReceiveSessions

set_option autoImplicit false

/-!
# A transmission under way is left alone

While TXRTS is set no command writes the buffer memory or moves ETXST, ETXND or
EWRPT: only `enc28_write_packet` sends such commands, and it has found TXRTS
clear before. A packet that it refuses leaves the chip as it was.
-/
namespace Stm32NetworkStack.TransmitSafety
open InteractivePrograms Enc28Registers Enc28Driver DriverCommands SpiBus BankDiscipline DriverBanks
open BankSafety ReceiveLogic ReceiveStream ReceiveSessions Relation

section
variable {κ : Type} (C : ChipCore κ)

def txrts (c : κ) : Bool := (C.econ1 c).getLsbD econ1Txrts

/-- TXRTS is set by writes to ECON1 only, and reading ECON1 changes nothing. -/
structure TxrtsLaws : Prop where
  readEcon1 : ∀ c, C.afterRead c 0x1F = c
  write : ∀ c a v, a ≠ 0x1F → txrts C (C.writeReg c a v) = txrts C c
  writeEcon1 : ∀ c v, txrts C (C.writeReg c 0x1F v) = v.getLsbD econ1Txrts
  set : ∀ c a m, (a = 0x1F → m.getLsbD econ1Txrts = false) → txrts C (C.setBits c a m) = txrts C c
  clear : ∀ c a m, txrts C c = false → txrts C (C.clearBits c a m) = false
  writeBuf : ∀ c b, txrts C (C.writeBuf c b) = txrts C c
  env : ∀ c d, C.env c d → txrts C c = false → txrts C d = false

/-- The registers of bank 0 that a transmission uses. -/
def transmitPointers : List CtlReg := [.ewrptl, .ewrpth, .etxstl, .etxsth, .etxndl, .etxndh]

def isWrite : DriverOp → Bool
  | .writePacket _ _ => true
  | _ => false

def clocksBytes : Call → Bool
  | .spiOutOp _ _ | .spiInOp _ | .spiInOutOp _ _ => true
  | _ => false

/-- The call opens or goes on with a write to the buffer memory, or it sends a
write to one of the pointers. -/
def Disturbs (x : Call × World κ) : Prop :=
  (∃ cmd, commandSent x = some cmd ∧ (cmd >>> spiArgBits = opWbm ∨
    cmd >>> spiArgBits ∈ [opWcr, opBfs, opBfc] ∧ C.bsel x.2.chip = 0 ∧
      ∃ reg ∈ transmitPointers, cmd &&& spiArgMask = reg.addr)) ∨
  x.2.phase = .wbm ∧ clocksBytes x.1 = true

def calm : BusGuard κ where
  out := fun reg buff w => Disturbs C (.spiOutOp reg buff, w) → txrts C w.chip = false
  inn := fun len w => Disturbs C (.spiInOp len, w) → txrts C w.chip = false

theorem calm_holds {x : Call × World κ} (h : (calm C).holds x.1 x.2) (hx : Disturbs C x) :
    txrts C x.2.chip = false := by
  obtain ⟨e, w⟩ := x
  cases e with
  | spiOutOp | spiInOp | spiInOutOp => exact h hx
  | nssPinOp | waitNano | loadBank | storeBank =>
    rcases hx with ⟨cmd, hcmd, -⟩ | ⟨-, hclock⟩
    · cases hcmd
    · cases hclock

end

section
variable {κ : Type} {C : ChipCore κ}

/-- Every other operation leaves the transmit pointers and the buffer memory alone. -/
theorem spares_transmitter {op : DriverOp} (hraw : isRaw op = false) (hwrite : isWrite op = false) :
    (commandsOf op).transmits = false ∧ ∀ reg ∈ (commandsOf op).writes ++ (commandsOf op).bits,
      reg.bank = some 0 → ∀ p ∈ transmitPointers, reg.addr ≠ p.addr := by
  have init : ∀ reg ∈ initCommands.writes ++ initCommands.bits, reg.bank = some 0 →
      ∀ p ∈ transmitPointers, reg.addr ≠ p.addr := by decide
  have others : ∀ reg ∈ [CtlReg.econ1, .miregadr, .micmd, .erdptl, .erdpth, .erxrdptl, .erxrdpth, .eie,
      .eir, .econ2], reg.bank = some 0 → ∀ p ∈ transmitPointers, reg.addr ≠ p.addr := by decide
  cases op with
  | writePacket => cases hwrite
  | readCtlReg | writeCtlReg | setBitsCtlReg | clearBitsCtlReg => cases hraw
  | init macAdd => exact ⟨rfl, init⟩
  | softReset => exact ⟨rfl, fun reg hreg => absurd hreg List.not_mem_nil⟩
  | readHwRev | readMac | readPhyRegister | selectRegisterBank | beginPacketTransfer | readPacket
  | checkOutgoingPacketStatus | endPacketTransfer =>
    refine ⟨rfl, fun reg hreg => others reg ?_⟩
    simp only [commandsOf, phyCommands, readHwRevCommands, readMacCommands, receiveCommands, List.mem_append,
      List.mem_cons, List.not_mem_nil, or_false] at hreg ⊢
    grind

theorem permits_not_wbm {K : Commands} (ht : K.transmits = false) {x : Call × World κ}
    (hk : K.permits x.1) {cmd : Byte} (hc : commandSent x = some cmd) : cmd >>> spiArgBits ≠ opWbm := by
  have head : ∀ {buff : List Byte} {b : Byte}, (if x.2.phase = .opcode then buff.head? else none) = some b →
      buff.head? = some b := by
    intro buff b h
    split_ifs at h
    exact h
  obtain ⟨e, w⟩ := x
  cases e with
  | spiOutOp reg buff =>
    have hhead := head hc
    cases reg with
    | some reg =>
      obtain ⟨op, data, rfl, hop⟩ := hk
      obtain rfl := Option.some.inj hhead
      rcases hop with ⟨rfl, -⟩ | ⟨rfl, -⟩ | ⟨rfl | rfl, -⟩ <;>
        · rw [commandByte_opcode _ _ (by decide)]
          decide
    | none =>
      rcases hk with rfl | ⟨-, rfl⟩ | hk
      · obtain rfl := Option.some.inj hhead
        decide
      · obtain rfl := Option.some.inj hhead
        decide
      · exact absurd (hk.symm.trans ht) (by decide)
  | spiInOutOp tx len =>
    obtain ⟨rest, rfl⟩ := hk
    obtain rfl := Option.some.inj (head hc)
    decide
  | nssPinOp | spiInOp | waitNano | loadBank | storeBank => cases hc

/-- An operation that transmits nothing sends none of these commands. -/
theorem call_spares (laws : BankLaws C) (cfg : Conf) {c : DriverCall} (hraw : isRaw c.op = false)
    (hwrite : isWrite c.op = false) {w v : World κ} {t : List (Call × World κ)}
    {o : Option (CommandStatus × DriverOutput)} (idle : w.phase = .high)
    (run : Exec (busMachine C) (c.prog cfg) w t o v) : ∀ x ∈ t, ¬ Disturbs C x := by
  obtain ⟨htx, hregs⟩ := spares_transmitter hraw hwrite
  have hguard := notRaw_guarded laws cfg hraw idle run
  have hsent := (call_sends cfg c).permitted run
  have hnot : ∀ x ∈ t, ∀ cmd, commandSent x = some cmd → cmd >>> spiArgBits ≠ opWbm :=
    fun x hx cmd hc => permits_not_wbm htx (hsent x hx) hc
  have hopen := exec_opened run (S := fun cmd => cmd >>> spiArgBits ≠ opWbm) (by rw [idle]; trivial) hnot
  rintro x hx (⟨cmd, hcmd, hwbm | ⟨hop, hbank, p, hp, haddr⟩⟩ | ⟨hphase, -⟩)
  · exact hnot x hx cmd hcmd hwbm
  · have hmem : cmd >>> spiArgBits ∈ [opRcr, opWcr, opBfs, opBfc] := List.mem_cons_of_mem _ hop
    obtain ⟨reg, ha, hb, -, hw, hbits⟩ := command_of_permits (hsent x hx) (hguard x hx) hcmd hmem
    have hlow : ∀ p ∈ transmitPointers, p.addr.toNat < 0x1B := by decide
    have hreg : reg ∈ (commandsOf c.op).writes ++ (commandsOf c.op).bits := by
      simp only [List.mem_cons, List.not_mem_nil, or_false] at hop
      rcases hop with hop | hop
      · exact List.mem_append_left _ (hw hop)
      · exact List.mem_append_right _ (hbits hop)
    refine hregs reg hreg ?_ p hp (ha.symm.trans haddr)
    rw [hb (by rw [← ha, haddr]; exact hlow p hp), hbank]
  · have hx' := hopen x hx
    rw [hphase] at hx'
    obtain ⟨cmd, hne, heq⟩ := hx'
    exact hne heq

end

section
variable {κ : Type} {C : ChipCore κ} {ctx : Option SpiContext}

/-- A read of ECON1 changes nothing and returns ECON1. -/
theorem wp_readEcon1 (laws : BankLaws C) (tx : TxrtsLaws C) {g : BusGuard κ} {w : World κ}
    {Q : Option (CommandStatus × Byte) → World κ → Prop} (guard : ReadGuard C g w .econ1)
    (fails : ∀ status, status ≠ .ok → Q (some (status, 0)) w)
    (reads : ∀ d, ReflTransGen C.env w.chip d →
      Q (some (.ok, C.econ1 w.chip)) { w with chip := d, phase := .high }) :
    wp (busMachine C) g.holds (enc28DoReadCtlReg ctx .econ1 (some 0)) Q w := by
  have hshared : dropsByte w .econ1 = dummyDue C w .econ1 := shared_agreed w rfl (by decide)
  have hvalue : readValue C w .econ1 = C.econ1 w.chip :=
    (readValue_agreed C w .econ1 hshared).trans (laws.read w.chip)
  have hchip : chipAfterRead C w .econ1 = w.chip :=
    (chipAfterRead_agreed C w .econ1 hshared).trans (tx.readEcon1 w.chip)
  refine wp_readCtlReg (fun _ => fails) fun _ _ => ⟨guard, fun d hd => ?_⟩
  rw [hchip] at hd
  rw [hvalue]
  exact reads d hd

theorem readEcon1_calm (w : World κ) : ReadGuard C (calm C) w .econ1 := by
  refine ⟨fun h => ?_, fun h => ?_⟩
  · rcases h with ⟨cmd, hcmd, hop⟩ | ⟨hphase, -⟩
    · obtain rfl := Option.some.inj hcmd
      rcases hop with hop | ⟨hop, -⟩
      · exact absurd hop (by decide)
      · exact absurd hop (by decide)
    · cases hphase
  · rcases h with ⟨cmd, hcmd, -⟩ | ⟨hphase, -⟩
    · cases hcmd
    · cases hphase

/-- TXRTS is clear, so that nothing can be disturbed. -/
def Settled (C : ChipCore κ) (w : World κ) : Prop := txrts C w.chip = false

/-- Started while TXRTS is clear, the program disturbs nothing. -/
abbrev Calm (C : ChipCore κ) (p : Driver CommandStatus) : Prop :=
  Triple (busMachine C) (calm C).holds (Settled C) p (fun _ _ => True) (fun _ => True)

/-- TXRTS stays clear too. -/
abbrev Steady (C : ChipCore κ) (p : Driver CommandStatus) : Prop :=
  Triple (busMachine C) (calm C).holds (Settled C) p (fun _ => Settled C) (fun _ => True)

variable (tx : TxrtsLaws C)
include tx

theorem settled_env {w : World κ} {c d : κ} (hc : txrts C c = false) (hd : ReflTransGen C.env c d)
    (phase : SpiPhase) : Settled C { w with chip := d, phase := phase } :=
  env_keeps (fun c d h hd => tx.env c d hd h) hc hd

omit tx in
theorem calm_exit {p k : Driver CommandStatus} (hp : Steady C p) (hk : Calm C k) :
    Calm C (exitIfErr p k) := by
  refine Triple.bind hp fun status => ?_
  split_ifs
  · exact hk
  · exact Triple.ret fun _ _ => trivial

theorem write_steady {reg : CtlReg} (ha : reg.addr ≠ 0x1F) (v : Byte) :
    Steady C (enc28DoWriteCtlReg ctx reg v) :=
  fun _ hw => wp_writeCtlReg (fun _ _ _ => hw) fun _ _ => ⟨fun _ => hw, fun _ hd =>
    settled_env tx ((tx.write _ _ v ha).trans hw) hd _⟩

theorem setBits_steady {reg : CtlReg} {mask : Byte} (hm : mask.getLsbD econ1Txrts = false) :
    Steady C (enc28DoSetBitsCtlReg ctx reg mask) :=
  fun _ hw => wp_setBitsCtlReg (fun _ _ _ => hw) fun _ _ => ⟨fun _ => hw, fun _ hd =>
    settled_env tx ((tx.set _ _ mask fun _ => hm).trans hw) hd _⟩

theorem clearBits_steady (reg : CtlReg) (mask : Byte) :
    Steady C (enc28DoClearBitsCtlReg ctx reg mask) :=
  fun _ hw => wp_clearBitsCtlReg (fun _ _ _ => hw) fun _ _ => ⟨fun _ => hw, fun _ hd =>
    settled_env tx (tx.clear _ _ mask hw) hd _⟩

theorem select_steady (laws : BankLaws C) : Steady C (enc28SelectRegisterBank ctx 0) := by
  intro w hw
  change wp _ _ (Prog.bind _ _) _ w
  refine (wp_bind _ _ _ w).2 (wp_readEcon1 laws tx (readEcon1_calm w) (fun status hs => ?_) fun d hd => ?_)
  · simp only [andThen_some, hs, if_false]
    exact hw
  · have hv : (econ1WithBank (C.econ1 w.chip) 0).getLsbD econ1Txrts = false :=
      (econ1WithBank_txrts _ 0 (by decide)).trans hw
    have hs : Settled C { w with chip := d, phase := .high } := settled_env tx hw hd _
    simp only [andThen_some, if_true]
    refine (wp_bind _ _ _ _).2 (wp_writeCtlReg (fun _ status hne => ?_) fun _ _ =>
      ⟨fun _ => hs, fun e he => ?_⟩)
    · simp only [andThen_some, hne, if_false]
      exact hs
    · simp only [andThen_some, if_true, bind_eq, wp_store]
      exact settled_env (w := w) tx ((tx.writeEcon1 d _).trans hv) he .high

theorem burst_calm {buff : List Byte} {k : Driver CommandStatus} (hk : Calm C k) :
    Calm C ((nssPinOp 0).bind fun _ => (spiOutOp none [0x7A, 0]).bind fun _ =>
      (spiOutOp none buff).bind fun _ => (nssPinOp 1).bind fun _ => k) := by
  have written : ∀ (buff : List Byte) (c : κ), txrts C (buff.foldl C.writeBuf c) = txrts C c := by
    intro buff
    induction buff with
    | nil => exact fun _ => rfl
    | cons b buff ih => exact fun c => (ih _).trans (tx.writeBuf c b)
  intro w hw
  rw [wp_nss_low, wp_spiOut]
  refine ⟨fun _ => hw, ?_⟩
  rw [show ([0x7A, 0] : List Byte).length = [(0 : Byte)].length + 1 from rfl, clock_wbm, wp_spiOut]
  refine ⟨fun _ => (written [0] w.chip).trans hw, ?_⟩
  rw [clock_written C buff { w with chip := [(0 : Byte)].foldl C.writeBuf w.chip }, wp_nss_high]
  intro d hd
  exact hk _ (settled_env tx ((written buff _).trans ((written [0] w.chip).trans hw)) hd _)

theorem transmitPacket_calm (laws : BankLaws C) (cfg : Conf) (packetBuf : List Byte) (bufSize : Word) :
    Calm C (transmitPacket cfg ctx packetBuf bufSize) := by
  -- the last command sets TXRTS, and is sent while it is clear
  have start : Calm C (enc28DoSetBitsCtlReg ctx .econ1 (bit econ1Txrts)) := fun _ hw =>
    wp_setBitsCtlReg (fun _ _ _ => trivial) fun _ _ => ⟨fun _ => hw, fun _ _ => trivial⟩
  refine calm_exit (select_steady tx laws) <| calm_exit (write_steady tx (by decide) _) <|
    calm_exit (write_steady tx (by decide) _) <| calm_exit (write_steady tx (by decide) _) <|
    calm_exit (write_steady tx (by decide) _) <| burst_calm tx ?_
  exact calm_exit (write_steady tx (by decide) _) <| calm_exit (write_steady tx (by decide) _) <|
    calm_exit (clearBits_steady tx _ _) <| calm_exit (setBits_steady tx (by decide)) <|
    calm_exit (clearBits_steady tx _ _) start

/-- TXRTS is looked at before anything is written. -/
theorem writePacket_calm (laws : BankLaws C) (cfg : Conf) (packetBuf : Option (List Byte)) (bufSize : Word) :
    Triple (busMachine C) (calm C).holds (fun _ => True) (enc28WritePacket cfg ctx packetBuf bufSize)
      (fun _ _ => True) (fun _ => True) := by
  match ctx, packetBuf with
  | none, _ => exact Triple.ret fun _ _ => trivial
  | some c, none => exact Triple.ret fun _ _ => trivial
  | some c, some packet =>
    unfold enc28WritePacket
    simp only [bind_eq, pure_eq]
    split_ifs
    · exact Triple.ret fun _ _ => trivial
    · intro w _
      refine (wp_bind _ _ _ w).2 (wp_readEcon1 laws tx (readEcon1_calm w) (fun status hs => ?_) fun d hd => ?_)
      · simp only [andThen_some, hs, if_false]
        exact trivial
      · simp only [andThen_some, if_true]
        by_cases ht : (C.econ1 w.chip).getLsbD econ1Txrts = true
        · rw [if_pos ht]
          exact trivial
        · rw [if_neg ht]
          exact transmitPacket_calm tx laws cfg packet bufSize _
            (settled_env (w := w) tx (Bool.eq_false_iff.mpr ht) hd _)

theorem call_calm (laws : BankLaws C) (cfg : Conf) {c : DriverCall} (hraw : isRaw c.op = false)
    {w v : World κ} {t : List (Call × World κ)} {o : Option (CommandStatus × DriverOutput)}
    (idle : w.phase = .high) (run : Exec (busMachine C) (c.prog cfg) w t o v) :
    ∀ x ∈ t, Disturbs C x → txrts C x.2.chip = false := by
  cases hwrite : isWrite c.op with
  | false => exact fun x hx hd => absurd hd (call_spares laws cfg hraw hwrite idle run x hx)
  | true =>
    obtain ⟨ctx, rounds, op⟩ := c
    cases op with
    | writePacket packetBuf bufSize =>
      have spec : Triple (busMachine C) (calm C).holds (fun _ => True)
          (DriverCall.prog cfg ⟨ctx, rounds, .writePacket packetBuf bufSize⟩) (fun _ _ => True)
          (fun _ => True) :=
        Triple.bind (writePacket_calm tx laws cfg packetBuf bufSize) fun _ => Triple.ret fun _ _ => trivial
      exact fun x hx => calm_holds C ((Triple.sound spec trivial run).1 x hx)
    | _ => cases hwrite

omit tx in
/-- Without `wait_nano` or one of the others the bank switch ends before its write. -/
theorem select_refused (laws : BankLaws C) (tx : TxrtsLaws C) (hc : canWrite ctx = false)
    {w u : World κ} {t : List (Call × World κ)} {status : CommandStatus}
    (run : Exec (busMachine C) (enc28SelectRegisterBank ctx 0) w t (some status) u) :
    status ≠ .ok ∧ ReflTransGen C.env w.chip u.chip := by
  let Q : Option CommandStatus → World κ → Prop := fun o u =>
    o ≠ some .ok ∧ ReflTransGen C.env w.chip u.chip
  have h : wp (busMachine C) (BusGuard.free κ).holds (enc28SelectRegisterBank ctx 0) Q w := by
    change wp _ _ (Prog.bind _ _) Q w
    refine (wp_bind _ _ _ w).2 (wp_readEcon1 laws tx ⟨trivial, trivial⟩ (fun status hs => ?_) fun d hd => ?_)
    · simp only [andThen_some, hs, if_false]
      exact ⟨fun h => hs (Option.some.inj h), ReflTransGen.refl⟩
    · obtain ⟨status, hs, he⟩ : ∃ status, status ≠ .ok ∧ enc28DoWriteCtlReg ctx .econ1
        (econ1WithBank (C.econ1 w.chip) 0) = .ret status := writeCtlReg_fails _ (Or.inl hc)
      simp only [andThen_some, if_true, he, bind_eq, ret_bind, hs, if_false]
      exact ⟨fun h => hs (Option.some.inj h), hd⟩
  obtain ⟨hne, henv⟩ := (wp_sound h run).2
  exact ⟨fun h => hne (congrArg some h), henv⟩

/-- A packet is refused before the first write. -/
theorem writePacket_refused (laws : BankLaws C) {cfg : Conf} {packetBuf : Option (List Byte)}
    {bufSize : Word} {w u : World κ} {t : List (Call × World κ)} {status : CommandStatus}
    (hs : status ≠ .ok)
    (run : Exec (busMachine C) (enc28WritePacket cfg ctx packetBuf bufSize) w t (some status) u) :
    ReflTransGen C.env w.chip u.chip := by
  match ctx, packetBuf with
  | none, _ =>
    cases run
    exact ReflTransGen.refl
  | some c, none =>
    cases run
    exact ReflTransGen.refl
  | some c, some packet =>
    unfold enc28WritePacket at run
    simp only [bind_eq, pure_eq] at run
    split_ifs at run
    · cases run
      exact ReflTransGen.refl
    · obtain ⟨r, v, t₁, t₂, hread, hrest, -⟩ := Exec.of_bind run
      have hlook : ReflTransGen C.env w.chip v.chip := by
        let Q : Option (CommandStatus × Byte) → World κ → Prop := fun _ u =>
          ReflTransGen C.env w.chip u.chip
        have h : wp (busMachine C) (BusGuard.free κ).holds (enc28DoReadCtlReg (some c) .econ1 (some 0)) Q w :=
          wp_readEcon1 laws tx ⟨trivial, trivial⟩ (fun _ _ => ReflTransGen.refl) fun _ hd => hd
        exact (wp_sound h hread).2
      split_ifs at hrest
      · cases hrest
        exact hlook
      · cases hc : canWrite (some c) with
        | true => exact absurd (hrest.returns (transmitPacket_ok hc cfg packet bufSize)) hs
        | false =>
          rcases of_exit hrest with ⟨_, _, _, hsel, -, -⟩ | ⟨-, hsel⟩
          · exact absurd rfl (select_refused laws tx hc hsel).1
          · exact hlook.trans (select_refused laws tx hc hsel).2
      · cases hrest
        exact hlook

/-- In a session of the driver's operations, and in a further call, returned or
not, no transmission under way is disturbed, whenever it ends; and a packet that
is not accepted leaves the chip to itself. -/
theorem transmissions_undisturbed (laws : BankLaws C) (cfg : Conf) {w u v : World κ} {rs : List (CallOf κ)}
    (idle : w.phase = .high) (s : Session (busMachine C) (DriverCall.prog cfg) w rs u)
    (hops : ∀ r ∈ rs, isRaw r.op.op = false) {c : DriverCall} (hop : isRaw c.op = false)
    {t : List (Call × World κ)} {o : Option (CommandStatus × DriverOutput)}
    (run : Exec (busMachine C) (c.prog cfg) u t o v) :
    (∀ r ∈ rs, ∀ x ∈ r.trace, Disturbs C x → txrts C x.2.chip = false) ∧
      (∀ x ∈ t, Disturbs C x → txrts C x.2.chip = false) ∧
      ∀ r ∈ rs, isWrite r.op.op = true → r.result.1 ≠ .ok →
        ReflTransGen C.env r.before.chip r.after.chip := by
  let I : World κ → Prop := fun w => w.phase = .high
  let P : CallOf κ → Prop := fun r => (∀ x ∈ r.trace, Disturbs C x → txrts C x.2.chip = false) ∧
    (isWrite r.op.op = true → r.result.1 ≠ .ok → ReflTransGen C.env r.before.chip r.after.chip)
  have hcalls := Session.forall_iff (P := P) (Q := fun _ => True) (I := I) s hops idle
    fun r hraw hi hrun => ⟨iff_of_true ⟨call_calm tx laws cfg hraw hi hrun, fun hwrite hs => ?_⟩
      trivial, fun _ => ?_⟩
  · have hall := hcalls.1.2 fun _ _ => trivial
    have hu : u.phase = .high := hcalls.2 fun _ _ => trivial
    exact ⟨fun r hr => (hall r hr).1, call_calm tx laws cfg hop hu run, fun r hr => (hall r hr).2⟩
  · obtain ⟨⟨ctx, rounds, op⟩, w, t, result, u⟩ := r
    cases op with
    | writePacket packetBuf bufSize =>
      obtain ⟨status, hrun', rfl⟩ := Exec.of_map hrun
      exact writePacket_refused tx laws hs hrun'
    | _ => cases hwrite
  · exact notRaw_idle laws cfg hraw hi hrun

end

theorem rx_txrts (arrives : Frame → Prop) : TxrtsLaws (rxCore arrives) where
  readEcon1 := fun _ => rfl
  write := fun c a v h => congrArg (·.getLsbD econ1Txrts) (writeReg_econ1 c h v)
  writeEcon1 := fun _ _ => rfl
  set := fun c a m h => by
    change (c.setBits a m).econ1.getLsbD econ1Txrts = c.econ1.getLsbD econ1Txrts
    unfold RxChip.setBits
    split_ifs
    · rfl
    · by_cases ha : a = 0x1F
      · subst ha
        change (c.econ1 ||| m).getLsbD econ1Txrts = _
        rw [BitVec.getLsbD_or, h rfl, Bool.or_false]
      · rw [writeReg_econ1 c ha]
  clear := fun c a m h => by
    change (c.clearBits a m).econ1.getLsbD econ1Txrts = false
    unfold RxChip.clearBits
    by_cases ha : a = 0x1F
    · subst ha
      have hoff : c.econ1.getLsbD econ1Txrts = false := h
      change (c.econ1 &&& ~~~m).getLsbD econ1Txrts = false
      rw [BitVec.getLsbD_and, hoff, Bool.false_and]
    · rw [writeReg_econ1 c ha]
      exact h
  writeBuf := fun _ _ => rfl
  env := fun _ _ hd h => (kept_step hd).quiet h

theorem write_not_raw {op : DriverOp} (h : isWrite op = true) : isRaw op = false := by
  cases op <;> first | rfl | exact absurd h Bool.false_ne_true

/-- The second packet comes while the first one is being sent. -/
theorem transmissions_undisturbed_two : ∃ (rs : List (CallOf RxChip)) (v : World RxChip),
    Session (busMachine (rxCore fun _ => True)) (DriverCall.prog {}) ⟨readyChip, .high, 0⟩ rs v ∧
      rs.map (·.result.1) = [.ok, .packetTxInProgress] ∧
      (∀ r ∈ rs, ∀ x ∈ r.trace, Disturbs (rxCore fun _ => True) x →
        txrts (rxCore fun _ => True) x.2.chip = false) ∧
      ∀ r ∈ rs, r.result.1 ≠ .ok →
        ReflTransGen (rxCore fun _ => True).env r.before.chip r.after.chip := by
  let packet : DriverCall := ⟨some fullContext, 0, .writePacket (some (List.replicate 14 0)) 14⟩
  let calls : List (DriverCall × ((e : Call) → World RxChip → e.Reply × World RxChip)) :=
    [(packet, busDevice (rxCore fun _ => True) id), (packet, busDevice (rxCore fun _ => True) id)]
  have hsteps : ∀ x ∈ calls, ∀ e w, busMachine (rxCore fun _ => True) e w (x.2 e w).1 (x.2 e w).2 := by
    intro x hx e w
    simp only [calls, List.mem_cons, List.not_mem_nil, or_false, or_self] at hx
    subst hx
    exact busDevice_step _ (fun _ => ReflTransGen.refl) e w
  let f : List (CallOf RxChip) × World RxChip → Bool × List CommandStatus := fun x =>
    (x.1.all fun r => isWrite r.op.op, x.1.map (·.result.1))
  have hrun : (runCalls (DriverCall.prog {}) calls ⟨readyChip, .high, 0⟩).map f =
      some (true, [.ok, .packetTxInProgress]) := by
    decide +kernel
  obtain ⟨rs, v, hs, hv⟩ := runCalls_shows hsteps hrun
  simp only [f, Prod.mk.injEq, List.all_eq_true] at hv
  obtain ⟨t, run⟩ := run_exec (busDevice_step (rxCore fun _ => True) (f := id) fun _ => ReflTransGen.refl)
    (DriverCall.prog {} ⟨some fullContext, 0, .endPacketTransfer⟩) v
  have hraw : ∀ r ∈ rs, isRaw r.op.op = false := fun r hr => write_not_raw (hv.1 r hr)
  obtain ⟨hcalm, -, hrefused⟩ :=
    transmissions_undisturbed (rx_txrts _) (rx_laws _) {} rfl hs hraw rfl run
  exact ⟨rs, v, hs, hv.2, hcalm, fun r hr => hrefused r hr (hv.1 r hr)⟩

end Stm32NetworkStack.TransmitSafety
