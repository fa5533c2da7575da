import Stm32NetworkStack.RegisterReads
import Stm32NetworkStack.TransmitCounting

set_option autoImplicit false

/-!
# Bank safety over sessions

Two properties of any session of public calls, for every chip that obeys
`BankLaws`. Commands reach the bank of the register the code names, and reads
hand on what it holds, from any bank and any value of `priv_enc28_curr_bank`.
That variable follows the chip as long as no soft reset is issued while it holds
another bank than 0.
-/
namespace Stm32NetworkStack.BankSafety
open InteractivePrograms Enc28Registers Enc28Driver SpiBus BankDiscipline DriverBanks DriverCommands
open RegisterReads Relation

def isRaw : DriverOp → Bool
  | .readCtlReg _ _ | .writeCtlReg _ _ | .setBitsCtlReg _ _ | .clearBitsCtlReg _ _ => true
  | _ => false

section
variable {κ : Type} {C : ChipCore κ}

abbrev CallOf (κ : Type) := CallRecord Call (World κ) DriverCall (CommandStatus × DriverOutput)

theorem afterCall_true (op : DriverOp) (status : CommandStatus) :
    afterCall (fun _ : κ => True) (fun _ => True) op status = fun _ => True :=
  ite_self _

/-- A soft reset sends no register command and leaves the driver's variable alone. -/
theorem softReset_spec {ctx : Option SpiContext} :
    Bank C (Idle C (fun _ => True) false) (enc28DoSoftReset ctx)
      (fun _ => Idle C (fun _ => True) false) (Idle C (fun _ => True) false) := by
  intro w hw
  refine wp_softReset (fun _ => hw) fun _ => ⟨fun _ cmd rest hb hc => ?_, fun c _ => ?_⟩
  · obtain ⟨rfl, -⟩ := List.cons.inj hb
    exact absurd hc (by decide)
  · exact Idle.unbanked (J := fun _ => True) rfl trivial

theorem notRaw_of_names {op : DriverOp} (h : namesRegisters op = true) : isRaw op = false := by
  cases op <;> first | rfl | cases h

variable (laws : BankLaws C)
include laws

theorem names_spec (cfg : Conf) (agree : Bool) (c : DriverCall) (hop : namesRegisters c.op = true) :
    Bank C (Idle C (fun _ => True) agree) (c.prog cfg) (fun _ => Idle C (fun _ => True) agree)
      (Idle C (fun _ => True) agree) := by
  refine Triple.conseq (call_spec laws true_phases cfg c hop) (fun _ h => h) (fun r w h => ?_)
    fun _ h => h
  rwa [afterCall_true] at h

theorem notRaw_spec (cfg : Conf) (c : DriverCall) (hop : isRaw c.op = false) :
    Bank C (Idle C (fun _ => True) false) (c.prog cfg) (fun _ => Idle C (fun _ => True) false)
      (Idle C (fun _ => True) false) := by
  by_cases hn : namesRegisters c.op = true
  · exact names_spec laws cfg false c hn
  · obtain ⟨ctx, rounds, op⟩ := c
    cases op with
    | softReset => exact Triple.bind softReset_spec fun _ => Triple.ret fun _ h => h
    | readCtlReg | writeCtlReg | setBitsCtlReg | clearBitsCtlReg => cases hop
    | _ => exact absurd rfl hn

theorem notRaw_guarded (cfg : Conf) {c : DriverCall} (hop : isRaw c.op = false) {w u : World κ}
    {t : List (Call × World κ)} {o : Option (CommandStatus × DriverOutput)} (idle : w.phase = .high)
    (run : Exec (busMachine C) (c.prog cfg) w t o u) : ∀ x ∈ t, (bankGuard C).holds x.1 x.2 :=
  (Triple.sound (notRaw_spec laws cfg c hop) (Idle.unbanked (J := fun _ => True) idle trivial) run).1

theorem notRaw_idle (cfg : Conf) {c : DriverCall} (hop : isRaw c.op = false) {w u : World κ}
    {t : List (Call × World κ)} {a : CommandStatus × DriverOutput} (idle : w.phase = .high)
    (run : Exec (busMachine C) (c.prog cfg) w t (some a) u) : u.phase = .high :=
  (Triple.sound (notRaw_spec laws cfg c hop) (Idle.unbanked (J := fun _ => True) idle trivial) run).2.1

/-- In every session of the driver's own operations, and in a further call of
one, returned or not: a register command below 0x1B is emitted in the bank of the
register the code names, a register read asks for one byte more exactly when the
chip sends a dummy byte, and what it hands on is the value of the register. -/
theorem commands_in_named_bank (cfg : Conf) {w u v : World κ} {rs : List (CallOf κ)}
    (idle : w.phase = .high) (s : Session (busMachine C) (DriverCall.prog cfg) w rs u)
    (hops : ∀ r ∈ rs, isRaw r.op.op = false) {c : DriverCall} (hop : isRaw c.op = false)
    {t : List (Call × World κ)} {o : Option (CommandStatus × DriverOutput)}
    (run : Exec (busMachine C) (c.prog cfg) u t o v) :
    (∀ r ∈ rs, (∀ x ∈ r.trace, (bankGuard C).holds x.1 x.2) ∧
        ReadsRight C (r.op.prog cfg) r.before r.trace (some r.result) r.after) ∧
      (∀ x ∈ t, (bankGuard C).holds x.1 x.2) ∧ ReadsRight C (c.prog cfg) u t o v := by
  have h0 : Idle C (fun _ => True) false w := Idle.unbanked idle trivial
  obtain ⟨hcalls, hu⟩ := s.all (P := fun r => (∀ x ∈ r.trace, (bankGuard C).holds x.1 x.2) ∧
      ReadsRight C (r.op.prog cfg) r.before r.trace (some r.result) r.after) hops h0
    fun r hr hbefore last => by
      obtain ⟨hguarded, hafter⟩ := Triple.sound (notRaw_spec laws cfg r.op hr) hbefore last
      exact ⟨⟨hguarded, sends_readsRight (call_sends cfg r.op) last hguarded⟩, hafter⟩
  have hguarded := notRaw_guarded laws cfg hop hu.1 run
  exact ⟨hcalls, hguarded, sends_readsRight (call_sends cfg c) run hguarded⟩

end

/-- The bytes that a call has read, a PHY register with its low byte first. -/
def bytesRead (r : CommandStatus × DriverOutput) : CommandStatus × List Byte :=
  match r.2 with
  | .regValue value => (r.1, [value])
  | .mac mac => (r.1, List.ofFn mac.addr)
  | .phyValue value => (r.1, [value.setWidth 8, (value >>> 8).setWidth 8])
  | _ => (r.1, [])

open TransmitLogic TransmitCounting in
/-- Driver and chip start in different banks, each register holds another value, and
the dummy byte is 0xEE. The last call is cut off in its poll. -/
theorem commands_in_named_bank_reads :
    let chip : TxChip := { resetChip with econ1 := 1, dummy := 0xEE, regs := fun p => 16 * p.1 + p.2 }
    let last : DriverCall := ⟨some fullContext, 0, .readPhyRegister 0x10 0⟩
    ∃ rs u t v, Session (busMachine txCore) (DriverCall.prog {}) ⟨chip, .high, 2⟩ rs u ∧
      rs.map (fun r => bytesRead r.result) =
        [(.ok, [0x34, 0x35, 0x32, 0x33, 0x30, 0x31]), (.ok, [0x38, 0x39])] ∧
      Exec (busMachine txCore) (last.prog {}) u t none v ∧
      (∀ r ∈ rs, (∀ x ∈ r.trace, (bankGuard txCore).holds x.1 x.2) ∧
        ReadsRight txCore (r.op.prog {}) r.before r.trace (some r.result) r.after) ∧
      (∀ x ∈ t, (bankGuard txCore).holds x.1 x.2) ∧ ReadsRight txCore (last.prog {}) u t none v := by
  intro chip last
  let calls : List DriverCall := [⟨some fullContext, 0, .readMac ⟨fun _ => 0⟩⟩,
    ⟨some fullContext, 1, .readPhyRegister 0x10 0⟩]
  let f : List (CallOf TxChip) × World TxChip → Bool × List (CommandStatus × List Byte) := fun x =>
    ((x.1.all fun r => !isRaw r.op.op) && ((last.prog {}).run (busDevice txCore id) x.2).1.isNone,
      x.1.map fun r => bytesRead r.result)
  have hrun : (runCalls (DriverCall.prog {}) (calls.map fun c => (c, busDevice txCore id))
      ⟨chip, .high, 2⟩).map f = some (true, [(.ok, [0x34, 0x35, 0x32, 0x33, 0x30, 0x31]),
        (.ok, [0x38, 0x39])]) := by
    decide +kernel
  obtain ⟨rs, u, hs, hv⟩ := runCalls_shows (undisturbed_steps txCore calls) hrun
  simp only [f, Prod.mk.injEq, Bool.and_eq_true, List.all_eq_true, Bool.not_eq_true',
    Option.isNone_iff_eq_none] at hv
  obtain ⟨⟨hops, hcut⟩, hread⟩ := hv
  obtain ⟨t, ht⟩ := run_exec (busDevice_step txCore (f := id) fun _ => ReflTransGen.refl) (last.prog {}) u
  rw [hcut] at ht
  exact ⟨rs, u, t, _, hs, hread, ht, commands_in_named_bank tx_laws {} rfl hs hops rfl ht⟩

section
variable {κ : Type} {C : ChipCore κ}

/-- The call is a raw access that may write ECON1. -/
def writesEcon1 : DriverOp → Bool
  | .writeCtlReg regId _ | .setBitsCtlReg regId _ | .clearBitsCtlReg regId _ =>
    regId &&& spiArgMask == 0x1F
  | _ => false

/-- After ENC28_OK the driver's variable is the chip's BSEL. -/
def AgreesAfter (C : ChipCore κ) (r : CallOf κ) : Prop :=
  r.result.1 = .ok → r.after.currBank = C.bsel r.after.chip

/-- A register read that returns ENC28_OK asks for one byte more exactly when
the register addressed in the chip is a MAC or MII register, and returns what it holds. -/
def ReadsRegister (C : ChipCore κ) (r : CallOf κ) : Prop :=
  ∀ regId old, r.op.op = .readCtlReg regId old → r.result.1 = .ok →
    (∃ w, (.spiInOp (if C.isMacOrMii r.before.chip (regId &&& spiArgMask) then 2 else 1), w)
      ∈ r.trace) ∧
      r.result.2 = .regValue (C.readReg r.before.chip (regId &&& spiArgMask))

/-- A soft reset that reaches the chip is issued while `priv_enc28_curr_bank` is 0. -/
def ResetInBank0 (r : CallOf κ) : Prop :=
  r.op.op = .softReset → canRead r.op.ctx = true → r.before.currBank = 0

/-- A register id longer than five bits is in the driver's table if and only if
its low five bits are. -/
def ReadUnaliased (r : CallOf κ) : Prop :=
  ∀ regId old, r.op.op = .readCtlReg regId (some old) → canRead r.op.ctx = true → regId ≠ 0x1A →
    privEnc28IsMacOrMiiReg r.before.currBank regId =
      privEnc28IsMacOrMiiReg r.before.currBank (regId &&& spiArgMask)

theorem softReset_exec {ctx : Option SpiContext} {w u : World κ} {t : List (Call × World κ)}
    {status : CommandStatus} (laws : BankLaws C) (hw : w.phase = .high)
    (run : Exec (busMachine C) (enc28DoSoftReset ctx) w t (some status) u) :
    u.phase = .high ∧ u.currBank = w.currBank ∧ (status = .ok ↔ canRead ctx = true) ∧
      C.bsel u.chip = if canRead ctx = true then 0 else C.bsel w.chip := by
  let Q : Option CommandStatus → World κ → Prop := fun o u =>
    u.phase = .high ∧ u.currBank = w.currBank ∧ (o = some .ok ↔ canRead ctx = true) ∧
      C.bsel u.chip = if canRead ctx = true then 0 else C.bsel w.chip
  have h : wp (busMachine C) (BusGuard.free κ).holds (enc28DoSoftReset ctx) Q w := by
    refine wp_softReset (fun hc => ?_) fun hc => ⟨trivial, fun c h => ?_⟩
    · exact ⟨hw, rfl, by simp [hc], by simp [hc]⟩
    · refine ⟨rfl, rfl, by simp [hc], ?_⟩
      rw [if_pos hc]
      exact (env_bsel laws h).trans (laws.reset w.chip)
  obtain ⟨hp, hb, hs, hc⟩ := (wp_sound h run).2
  exact ⟨hp, hb, by simpa using hs, hc⟩

theorem read_exec {ctx : Option SpiContext} {reg : CtlReg} {old : Byte} {w u : World κ}
    {t : List (Call × World κ)} {r : CommandStatus × Byte} (laws : BankLaws C)
    (hw : Idle C (fun _ => True) true w)
    (run : Exec (busMachine C) (enc28DoReadCtlReg ctx reg (some old)) w t (some r) u) :
    (∀ n s, (.spiInOp n, s) ∈ t → n = readLen w reg) ∧ Idle C (fun _ => True) true u ∧
      (r.1 = .ok ↔ canRead ctx = true ∧ reg.id ≠ 0x1A) ∧
      (r.1 = .ok → r.2 = readValue C w reg) := by
  let g : BusGuard κ := ⟨fun _ _ _ => True, fun n _ => n = readLen w reg⟩
  let Q : Option (CommandStatus × Byte) → World κ → Prop := fun o u =>
    Idle C (fun _ => True) true u ∧ ∀ r, o = some r →
      (r.1 = .ok ↔ canRead ctx = true ∧ reg.id ≠ 0x1A) ∧ (r.1 = .ok → r.2 = readValue C w reg)
  have h : wp (busMachine C) g.holds (enc28DoReadCtlReg ctx reg (some old)) Q w := by
    refine wp_readCtlReg (fun hf status hs => ⟨hw, fun r hr => ?_⟩)
      (fun hc hr => ⟨⟨trivial, rfl⟩, fun c hc' => ⟨?_, fun r hr' => ?_⟩⟩)
    · obtain rfl := Option.some.inj hr
      refine ⟨⟨fun h => absurd h hs, fun h => ?_⟩, fun h => absurd h hs⟩
      rcases hf with hf | hf
      · exact absurd (h.1.symm.trans hf) (by decide)
      · exact absurd hf h.2
    · exact hw.step laws true_benign.env trivial (chipAfterRead_bsel laws w reg) hc'
    · obtain rfl := Option.some.inj hr'
      exact ⟨⟨fun _ => ⟨hc, hr⟩, fun _ => rfl⟩, fun _ => rfl⟩
  obtain ⟨hg, hi, hr⟩ := wp_sound h run
  exact ⟨fun n s hm => hg _ hm, hi, hr r rfl⟩

theorem command_idle {agree : Bool} {w : World κ} (laws : BankLaws C)
    (hw : Idle C (fun _ => True) agree w) {c d : κ} (hc : C.bsel c = C.bsel w.chip)
    (hd : ReflTransGen C.env c d) :
    Idle C (fun _ => True) agree { w with chip := d, phase := .high } :=
  ⟨rfl, trivial, fun ha => (hw.2.2 ha).trans (hc.symm.trans (env_bsel laws hd).symm)⟩

theorem raw_spec (laws : BankLaws C) (cfg : Conf) (c : DriverCall) (hraw : isRaw c.op = true)
    (hread : ∀ regId old, c.op ≠ .readCtlReg regId old) (hop : writesEcon1 c.op = false)
    (agree : Bool) :
    Triple (busMachine C) (BusGuard.free κ).holds (Idle C (fun _ => True) agree) (c.prog cfg)
      (fun _ => Idle C (fun _ => True) agree) (Idle C (fun _ => True) agree) := by
  obtain ⟨ctx, rounds, op⟩ := c
  cases op with
  | readCtlReg regId old => exact absurd rfl (hread regId old)
  | writeCtlReg regId regValue =>
    have ha : (CtlReg.raw regId).addr ≠ 0x1F := ne_of_beq_false hop
    exact Triple.bind (fun w hw => wp_writeCtlReg (fun _ _ _ => hw) fun _ _ => ⟨trivial, fun _ hd =>
      command_idle laws hw (laws.write _ _ _ ha) hd⟩) fun _ => Triple.ret fun _ h => h
  | setBitsCtlReg regId mask =>
    have ha : (CtlReg.raw regId).addr ≠ 0x1F := ne_of_beq_false hop
    exact Triple.bind (fun w hw => wp_setBitsCtlReg (fun _ _ _ => hw) fun _ _ => ⟨trivial, fun _ hd =>
      command_idle laws hw (laws.set _ _ _ fun h => absurd h ha) hd⟩) fun _ => Triple.ret fun _ h => h
  | clearBitsCtlReg regId mask =>
    have ha : (CtlReg.raw regId).addr ≠ 0x1F := ne_of_beq_false hop
    exact Triple.bind (fun w hw => wp_clearBitsCtlReg (fun _ _ _ => hw) fun _ _ => ⟨trivial, fun _ hd =>
      command_idle laws hw (laws.clear _ _ _ fun h => absurd h ha) hd⟩) fun _ => Triple.ret fun _ h => h
  | _ => cases hraw

def CallAgrees (C : ChipCore κ) (r : CallOf κ) : Prop :=
  (AgreesAfter C r ∧ ReadsRegister C r ↔ ResetInBank0 r ∧ ReadUnaliased r) ∧
    (ResetInBank0 r ∧ ReadUnaliased r → Idle C (fun _ => True) true r.after)

theorem callAgrees_of_idle {r : CallOf κ} (hreset : r.op.op ≠ .softReset)
    (hread : ∀ regId old, r.op.op ≠ .readCtlReg regId old)
    (hi : Idle C (fun _ => True) true r.after) : CallAgrees C r := by
  refine ⟨⟨fun _ => ?_, fun _ => ?_⟩, fun _ => hi⟩
  · exact ⟨fun h => absurd h hreset, fun regId old h => absurd h (hread regId _)⟩
  · exact ⟨fun _ => hi.2.2 rfl, fun regId old h => absurd h (hread regId old)⟩

theorem callAgrees_softReset {r : CallOf κ} (laws : BankLaws C) (cfg : Conf)
    (hop : r.op.op = .softReset) (hi : Idle C (fun _ => True) true r.before)
    (run : Exec (busMachine C) (DriverCall.prog cfg r.op) r.before r.trace (some r.result) r.after) :
    CallAgrees C r := by
  obtain ⟨⟨ctx, rounds, op⟩, w, t, result, u⟩ := r
  obtain rfl : op = .softReset := hop
  obtain ⟨status, hrun, rfl⟩ := Exec.of_map run
  obtain ⟨hp, hb, hs, hc⟩ := softReset_exec laws hi.1 hrun
  have hbefore : w.currBank = C.bsel w.chip := hi.2.2 rfl
  have hreset : AgreesAfter C ⟨⟨ctx, rounds, .softReset⟩, w, t, (status, .nothing), u⟩ ↔
      (canRead ctx = true → w.currBank = 0) := by
    unfold AgreesAfter
    rw [hb, hc]
    exact ⟨fun h hr => by simpa [hr] using h (hs.2 hr), fun h hok => by simpa [hs.1 hok] using h (hs.1 hok)⟩
  refine ⟨⟨fun h => ⟨fun _ hr => hreset.1 h.1 hr, fun _ _ h => by cases h⟩,
    fun h => ⟨hreset.2 (h.1 rfl), fun _ _ h => by cases h⟩⟩, fun h => ⟨hp, trivial, fun _ => ?_⟩⟩
  change u.currBank = C.bsel u.chip
  rw [hb, hc]
  split_ifs with hr
  · exact h.1 rfl hr
  · exact hbefore

theorem callAgrees_of_read {r : CallOf κ} (hreset : r.op.op ≠ .softReset)
    (hi : Idle C (fun _ => True) true r.after) (hread : ReadsRegister C r ↔ ReadUnaliased r) :
    CallAgrees C r :=
  ⟨⟨fun h => ⟨fun h => absurd h hreset, hread.1 h.2⟩, fun h => ⟨fun _ => hi.2.2 rfl, hread.2 h.2⟩⟩,
    fun _ => hi⟩

theorem callAgrees_readCtlReg {r : CallOf κ} (laws : BankLaws C) (cfg : Conf) {regId : Byte}
    {regValue : Option Byte} (hop : r.op.op = .readCtlReg regId regValue)
    (hi : Idle C (fun _ => True) true r.before)
    (run : Exec (busMachine C) (DriverCall.prog cfg r.op) r.before r.trace (some r.result) r.after) :
    CallAgrees C r := by
  obtain ⟨⟨ctx, rounds, op⟩, w, t, result, u⟩ := r
  obtain rfl : op = .readCtlReg regId regValue := hop
  obtain ⟨x, hrun, rfl⟩ := Exec.of_map run
  cases regValue with
  | none =>
    rw [readCtlReg_null] at hrun
    cases hrun
    refine callAgrees_of_read (fun h => DriverOp.noConfusion h) hi ⟨fun _ => ?_, fun _ => ?_⟩
    · intro id old hid
      cases (DriverOp.readCtlReg.inj hid).2
    · intro id old hid hx
      cases hx
  | some old =>
    obtain ⟨hasks, hu, hok, hval⟩ := read_exec laws hi hrun
    have hdue : dummyDue C w (.raw regId) =
        privEnc28IsMacOrMiiReg w.currBank (regId &&& spiArgMask) := by
      rw [isMacOrMiiReg_eq, hi.2.2 rfl]
      rfl
    have hlen : readLen w (.raw regId) = (if dummyDue C w (.raw regId) then 2 else 1) ↔
        privEnc28IsMacOrMiiReg w.currBank regId =
          privEnc28IsMacOrMiiReg w.currBank (regId &&& spiArgMask) := by
      rw [hdue]
      unfold readLen dropsByte
      change (if privEnc28IsMacOrMiiReg w.currBank regId = true then 2 else 1) = _ ↔ _
      cases privEnc28IsMacOrMiiReg w.currBank regId <;>
        cases privEnc28IsMacOrMiiReg w.currBank (regId &&& spiArgMask) <;> decide
    refine callAgrees_of_read (fun h => DriverOp.noConfusion h) hu ⟨fun h => ?_, fun h => ?_⟩
    · intro id old' hid hc hr
      obtain ⟨rfl, -⟩ := DriverOp.readCtlReg.inj hid
      obtain ⟨⟨s, hs⟩, -⟩ := h _ _ rfl (hok.2 ⟨hc, hr⟩)
      exact hlen.1 (hasks _ _ hs).symm
    · intro id old' hid hx
      obtain ⟨rfl, -⟩ := DriverOp.readCtlReg.inj hid
      obtain ⟨hc, hr⟩ := hok.1 hx
      have hdrop := h _ _ rfl hc hr
      have hagreed : dropsByte w (.raw regId) = dummyDue C w (.raw regId) := hdrop.trans hdue.symm
      rw [readCtlReg_eq old hc hr] at hrun
      have hs := readTransaction_asks hrun
      rw [hlen.2 hdrop] at hs
      refine ⟨⟨_, hs⟩, ?_⟩
      change DriverOutput.regValue x.2 = _
      rw [hval hx, readValue_agreed C w _ hagreed]
      rfl

theorem call_agrees (laws : BankLaws C) (cfg : Conf) (r : CallOf κ)
    (hop : writesEcon1 r.op.op = false) (hi : Idle C (fun _ => True) true r.before)
    (run : Exec (busMachine C) (DriverCall.prog cfg r.op) r.before r.trace (some r.result) r.after) :
    CallAgrees C r := by
  by_cases hreset : r.op.op = .softReset
  · exact callAgrees_softReset laws cfg hreset hi run
  · by_cases hread : ∃ regId old, r.op.op = .readCtlReg regId old
    · obtain ⟨regId, old, hread⟩ := hread
      exact callAgrees_readCtlReg laws cfg hread hi run
    · have hread : ∀ regId old, r.op.op ≠ .readCtlReg regId old :=
        fun regId old h => hread ⟨regId, old, h⟩
      refine callAgrees_of_idle hreset hread ?_
      by_cases hraw : isRaw r.op.op = true
      · exact (Triple.sound (raw_spec laws cfg r.op hraw hread hop true) hi run).2
      · have hn : namesRegisters r.op.op = true := by
          cases h : r.op.op <;> simp_all [isRaw, namesRegisters]
        exact (Triple.sound (names_spec laws cfg true r.op hn) hi run).2

/-- In a session from the reset state the driver's variable follows the chip,
and reads return the registers they address, exactly when every soft reset that
reaches the chip is issued in bank 0 and no read has an aliased register id. -/
theorem shadow_agreement_iff (laws : BankLaws C) (cfg : Conf) {w v : World κ} {rs : List (CallOf κ)}
    (idle : w.phase = .high) (reset : C.bsel w.chip = 0) (init : w.currBank = 0)
    (s : Session (busMachine C) (DriverCall.prog cfg) w rs v)
    (hops : ∀ r ∈ rs, writesEcon1 r.op.op = false) :
    (∀ r ∈ rs, AgreesAfter C r ∧ ReadsRegister C r) ↔
      ∀ r ∈ rs, ResetInBank0 r ∧ ReadUnaliased r :=
  (Session.forall_iff (I := Idle C (fun _ => True) true) s hops
    ⟨idle, trivial, fun _ => init.trans reset.symm⟩ fun r hop hi run =>
      call_agrees laws cfg r hop hi run).1

end

open TransmitLogic TransmitCounting in
/-- Two banks are selected, the chip is reset in bank 0, and registers are read with and
without a dummy byte, the address 0x03 in two banks. -/
theorem shadow_agreement_reads :
    let chip : TxChip := { resetChip with dummy := 0xEE, regs := fun p => 16 * p.1 + p.2 }
    ∃ rs v, Session (busMachine txCore) (DriverCall.prog {}) ⟨chip, .high, 0⟩ rs v ∧
      rs.map (fun r => bytesRead r.result) = [(.ok, []), (.ok, [0x38]),
        (.ok, [0x34, 0x35, 0x32, 0x33, 0x30, 0x31]), (.ok, [0x33]), (.ok, []), (.ok, []), (.ok, [0x03])] ∧
      ∀ r ∈ rs, AgreesAfter txCore r ∧ ReadsRegister txCore r := by
  intro chip
  let calls : List DriverCall := [⟨some fullContext, 0, .selectRegisterBank 2⟩,
    ⟨some fullContext, 0, .readCtlReg 0x18 (some 0)⟩, ⟨some fullContext, 0, .readMac ⟨fun _ => 0⟩⟩,
    ⟨some fullContext, 0, .readCtlReg 0x03 (some 0)⟩, ⟨some fullContext, 0, .selectRegisterBank 0⟩,
    ⟨some fullContext, 0, .softReset⟩, ⟨some fullContext, 0, .readCtlReg 0x03 (some 0)⟩]
  let meets : CallOf TxChip → Bool := fun r => !writesEcon1 r.op.op && match r.op.op with
    | .softReset => r.before.currBank == 0
    | .readCtlReg regId _ => regId &&& spiArgMask == regId
    | _ => true
  let f : List (CallOf TxChip) × World TxChip → Bool × List (CommandStatus × List Byte) := fun x =>
    (x.1.all meets, x.1.map fun r => bytesRead r.result)
  have hrun : (runCalls (DriverCall.prog {}) (calls.map fun c => (c, busDevice txCore id))
      ⟨chip, .high, 0⟩).map f = some (true, [(.ok, []), (.ok, [0x38]),
        (.ok, [0x34, 0x35, 0x32, 0x33, 0x30, 0x31]), (.ok, [0x33]), (.ok, []), (.ok, []), (.ok, [0x03])]) := by
    decide +kernel
  obtain ⟨rs, v, hs, hv⟩ := runCalls_shows (undisturbed_steps txCore calls) hrun
  simp only [f, Prod.mk.injEq, List.all_eq_true] at hv
  obtain ⟨hall, hread⟩ := hv
  have hmeets : ∀ r ∈ rs, writesEcon1 r.op.op = false ∧ ResetInBank0 r ∧ ReadUnaliased r := by
    intro r hr
    have h : meets r = true := hall r hr
    simp only [meets, Bool.and_eq_true, Bool.not_eq_true'] at h
    refine ⟨h.1, fun hop _ => ?_, fun regId old hop _ _ => ?_⟩
    · have hbank := h.2
      rw [hop] at hbank
      exact eq_of_beq hbank
    · have hid := h.2
      rw [hop] at hid
      rw [eq_of_beq hid]
  exact ⟨rs, v, hs, hread, (shadow_agreement_iff tx_laws {} rfl BitVec.zero_and rfl hs fun r hr =>
    (hmeets r hr).1).2 fun r hr => (hmeets r hr).2⟩

open TransmitLogic TransmitCounting in
/-- Bank 2 is selected, then the chip is reset: it is in bank 0, the variable still says 2. -/
theorem shadow_agreement_fails :
    ¬ ∀ (w v : World TxChip) (rs : List (CallOf TxChip)), w.phase = .high → w.chip.econ1 = 0 →
      w.currBank = 0 → Session (busMachine txCore) (DriverCall.prog {}) w rs v →
      (∀ r ∈ rs, writesEcon1 r.op.op = false) →
      ∀ r ∈ rs, AgreesAfter txCore r ∧ ReadsRegister txCore r := by
  intro h
  let calls : List DrivenCall :=
    [(⟨some fullContext, 0, .selectRegisterBank 2⟩, busDevice txCore id),
     (⟨some fullContext, 0, .softReset⟩, busDevice txCore id)]
  have hsteps : ∀ x ∈ calls, ∀ e w, busMachine txCore e w (x.2 e w).1 (x.2 e w).2 := by
    intro x hx e w
    simp only [calls, List.mem_cons, List.not_mem_nil, or_false] at hx
    rcases hx with rfl | rfl <;> exact busDevice_step txCore (fun _ => ReflTransGen.refl) e w
  let f : List (CallOf TxChip) × World TxChip → Bool × Bool × Byte × Byte :=
    fun x => (x.1.all fun r => !writesEcon1 r.op.op && r.result.1 == .ok, x.1.isEmpty, x.2.currBank,
      txCore.bsel x.2.chip)
  have hrun : (runCalls (DriverCall.prog {}) calls resetWorld).map f = some (true, false, 2, 0) := by
    decide
  obtain ⟨rs, v, hs, hv⟩ := runCalls_shows hsteps hrun
  simp only [f, Prod.mk.injEq, List.all_eq_true, Bool.and_eq_true, Bool.not_eq_true',
    beq_iff_eq, List.isEmpty_eq_false_iff] at hv
  obtain ⟨hall, hne, hbank, hbsel⟩ := hv
  obtain ⟨r, hr, rfl⟩ := hs.last_mem hne
  have hagree := (h resetWorld r.after rs rfl rfl rfl hs (fun r hr => (hall r hr).1) r hr).1
    (hall r hr).2
  rw [hbank, hbsel] at hagree
  exact absurd hagree (by decide)

end Stm32NetworkStack.BankSafety
