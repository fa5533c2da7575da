import Stm32NetworkStack.DriverCommands
import Stm32NetworkStack.RegisterFile

set_option autoImplicit false

/-!
# The register functions and their abstract file

The five register functions of the driver, against a chip whose registers are
plain storage, answer as a register file does that knows neither the SPI bus nor
a register for the bank: it looks up an index in the bank selected last.
-/
namespace Stm32NetworkStack.RegisterRefinement
open InteractivePrograms Enc28Registers Enc28Driver DriverCommands SpiBus BankDiscipline RegisterFile Relation

def isShared (id : Byte) : Bool := decide (0x1B ≤ id.toNat)

/-- A chip whose registers are plain storage. The byte it sends when it has
nothing to say may be any, and change at any time. -/
structure PlainChip where
  regs : Registers Byte Byte Byte
  dummy : Byte

section
variable (c : PlainChip)

def PlainChip.econ1 : Byte := c.regs.shared 0x1F

def PlainChip.load (addr : Byte) : Byte := c.regs.read isShared (c.econ1 &&& econ1Bsel) addr

def PlainChip.store (addr v : Byte) : PlainChip :=
  { c with regs := c.regs.write isShared (c.econ1 &&& econ1Bsel) addr v }

end

def plainCore : ChipCore PlainChip where
  econ1 := PlainChip.econ1
  readReg := PlainChip.load
  afterRead := fun c _ => c
  writeReg := PlainChip.store
  setBits := fun c addr mask => c.store addr (c.load addr ||| mask)
  clearBits := fun c addr mask => c.store addr (c.load addr &&& ~~~mask)
  readBuf := fun c => (c.dummy, c)
  writeBuf := fun c _ => c
  dummy := PlainChip.dummy
  reset := fun c => c.store 0x1F 0
  env := fun c d => d.regs = c.regs

/-- The abstract file: `bank` is the one that was selected last. -/
structure File where
  regs : Registers Byte Byte Byte
  bank : Byte

def File.load (f : File) (id : Byte) : Byte := f.regs.read isShared f.bank id

def File.store (f : File) (id v : Byte) : File := { f with regs := f.regs.write isShared f.bank id v }

inductive RegisterOp
  | select (bankId : Byte)
  | read (regId : Byte) (regValue : Option Byte)
  | write (regId regValue : Byte)
  | setBits (regId mask : Byte)
  | clearBits (regId mask : Byte)
  deriving DecidableEq

def RegisterOp.toDriver : RegisterOp → DriverOp
  | .select bankId => .selectRegisterBank bankId
  | .read regId regValue => .readCtlReg regId regValue
  | .write regId regValue => .writeCtlReg regId regValue
  | .setBits regId mask => .setBitsCtlReg regId mask
  | .clearBits regId mask => .clearBitsCtlReg regId mask

structure RegisterCall where
  ctx : Option SpiContext
  op : RegisterOp
  deriving DecidableEq

def RegisterCall.prog (cfg : Conf) (c : RegisterCall) : Driver (CommandStatus × DriverOutput) :=
  DriverCall.prog cfg ⟨c.ctx, 0, c.op.toDriver⟩

/-- What an access to `regId` returns, when `granted` says whether the callbacks are there. -/
def accessStatus (granted : Bool) (regId : Byte) : CommandStatus :=
  if granted = false then .invalidParam else if regId = 0x1A then .invalidRegister else .ok

/-- An access that is not OK changes nothing. -/
def File.access (f : File) (granted : Bool) (regId v : Byte) : (CommandStatus × DriverOutput) × File :=
  ((accessStatus granted regId, .nothing), if accessStatus granted regId = .ok then f.store regId v else f)

/-- The answer of the abstract file to a call. -/
def File.call (f : File) (c : RegisterCall) : (CommandStatus × DriverOutput) × File :=
  match c.op with
  | .select bankId =>
    if 4 ≤ bankId.toNat ∨ canWrite c.ctx = false then ((.invalidParam, .nothing), f)
    else ((.ok, .nothing), { f.store 0x1F (econ1WithBank (f.load 0x1F) bankId) with bank := bankId })
  | .read _ none => ((.invalidParam, .regValue 0), f)
  | .read regId (some old) =>
    let status := accessStatus (canRead c.ctx) regId
    ((status, .regValue (if status = .ok then f.load regId else old)), f)
  | .write regId regValue => f.access (canWrite c.ctx) regId regValue
  | .setBits regId mask => f.access (canRead c.ctx) regId (f.load regId ||| mask)
  | .clearBits regId mask => f.access (canRead c.ctx) regId (f.load regId &&& ~~~mask)

/-- The chip and the driver show the abstract file: both know the bank selected last. -/
structure Shows (f : File) (w : World PlainChip) : Prop where
  phase : w.phase = .high
  currBank : w.currBank = f.bank
  bsel : plainCore.bsel w.chip = f.bank
  regs : w.chip.regs = f.regs

/-- The register ids are those of the chip, and the caller leaves BSEL to the bank switch. -/
def Permitted (c : RegisterCall) (w : World PlainChip) : Prop :=
  match c.op with
  | .select _ => True
  | .read regId _ => regId.toNat ≤ 0x1F
  | .write regId regValue => regId.toNat ≤ 0x1F ∧
    (regId = 0x1F → canWrite c.ctx = true → regValue &&& econ1Bsel = plainCore.bsel w.chip)
  | .setBits regId mask => regId.toNat ≤ 0x1F ∧ (regId = 0x1F → canRead c.ctx = true →
    (w.chip.econ1 ||| mask) &&& econ1Bsel = plainCore.bsel w.chip)
  | .clearBits regId mask => regId.toNat ≤ 0x1F ∧ (regId = 0x1F → canRead c.ctx = true →
    (w.chip.econ1 &&& ~~~mask) &&& econ1Bsel = plainCore.bsel w.chip)

instance (c : RegisterCall) (w : World PlainChip) : Decidable (Permitted c w) :=
  match c with
  | ⟨_, .select _⟩ => .isTrue trivial
  | ⟨_, .read _ _⟩ => inferInstanceAs (Decidable (_ ≤ _))
  | ⟨_, .write _ _⟩ => inferInstanceAs (Decidable (_ ∧ (_ → _ → _)))
  | ⟨_, .setBits _ _⟩ => inferInstanceAs (Decidable (_ ∧ (_ → _ → _)))
  | ⟨_, .clearBits _ _⟩ => inferInstanceAs (Decidable (_ ∧ (_ → _ → _)))

/-- A bank or register id that does not exist. -/
def RegisterOp.invalid : RegisterOp → Prop
  | .select bankId => 4 ≤ bankId.toNat
  | .read regId _ | .write regId _ | .setBits regId _ | .clearBits regId _ => regId = 0x1A

/-- The register that the operation changes; a bank switch changes ECON1. -/
def RegisterOp.target : RegisterOp → Byte
  | .select _ => 0x1F
  | .read regId _ | .write regId _ | .setBits regId _ | .clearBits regId _ => regId

/-- What it makes of the value there. -/
def RegisterOp.newValue (op : RegisterOp) (old : Byte) : Byte :=
  match op with
  | .select bankId => econ1WithBank old bankId
  | .read _ _ => old
  | .write _ regValue => regValue
  | .setBits _ mask => old ||| mask
  | .clearBits _ mask => old &&& ~~~mask

theorem load_econ1 (c : PlainChip) : c.load 0x1F = c.econ1 :=
  read_shared c.regs (by decide) _

theorem store_econ1 (c : PlainChip) (v : Byte) : (c.store 0x1F v).econ1 = v := by
  unfold PlainChip.econ1 PlainChip.store
  rw [shared_write c.regs v (by decide)]

theorem store_other (c : PlainChip) {addr : Byte} (h : addr ≠ 0x1F) (v : Byte) :
    (c.store addr v).econ1 = c.econ1 :=
  shared_write_other c.regs v h

theorem plain_laws : BankLaws plainCore where
  read := load_econ1
  afterRead := fun _ _ => rfl
  writeEcon1 := fun c v => congrArg (· &&& econ1Bsel) (store_econ1 c v)
  write := fun c a v h => congrArg (· &&& econ1Bsel) (store_other c h v)
  set := fun c a m h => by
    refine set_bsel (fun ha => store_other c ha _) (fun ha => ?_) h
    subst ha
    exact (store_econ1 c _).trans (congrArg (· ||| m) (load_econ1 c))
  clear := fun c a m h => by
    refine clear_bsel (fun ha => store_other c ha _) (fun ha => ?_) h
    subst ha
    exact (store_econ1 c _).trans (congrArg (· &&& ~~~m) (load_econ1 c))
  readBuf := fun _ => rfl
  writeBuf := fun _ _ => rfl
  reset := fun c => (congrArg (· &&& econ1Bsel) (store_econ1 c 0)).trans BitVec.zero_and
  env := fun c d h => congrArg (fun r : Registers Byte Byte Byte => r.shared 0x1F &&& econ1Bsel) h

theorem plain_env {c d : PlainChip} (h : ReflTransGen plainCore.env c d) : d.regs = c.regs := by
  induction h with
  | refl => rfl
  | tail _ hs ih => exact hs.trans ih

theorem addr_of_small {id : Byte} (h : id.toNat ≤ 0x1F) : (CtlReg.raw id).addr = id := by
  apply BitVec.eq_of_toNat_eq
  change (id &&& spiArgMask).toNat = id.toNat
  rw [spiArgMask_toNat, Nat.mod_eq_of_lt (by omega)]

theorem accessStatus_ok {granted : Bool} {id : Byte} :
    accessStatus granted id = .ok ↔ granted = true ∧ id ≠ 0x1A := by
  unfold accessStatus
  cases granted
  · simp
  · by_cases h : id = 0x1A <;> simp [h]

section
variable {ctx : Option SpiContext} {reg : CtlReg}

theorem accessStatus_denied {granted : Bool} {id : Byte} (h : accessStatus granted id ≠ .ok) :
    granted = false ∧ accessStatus granted id = .invalidParam ∨
      granted = true ∧ id = 0x1A ∧ accessStatus granted id = .invalidRegister := by
  cases granted with
  | false => exact Or.inl ⟨rfl, rfl⟩
  | true =>
    have hid : id = 0x1A := by
      by_contra hne
      exact h (accessStatus_ok.mpr ⟨rfl, hne⟩)
    exact Or.inr ⟨rfl, hid, by rw [hid]; rfl⟩

theorem readCtlReg_denied (h : accessStatus (canRead ctx) reg.id ≠ .ok) (old : Byte) :
    enc28DoReadCtlReg ctx reg (some old) = .ret (accessStatus (canRead ctx) reg.id, old) := by
  cases ctx with
  | none => rfl
  | some c =>
    rcases accessStatus_denied h with ⟨hc, hs⟩ | ⟨hc, hr, hs⟩
    · rw [hs]
      simp [enc28DoReadCtlReg, canRead_some, hc]
    · rw [hs]
      simp [enc28DoReadCtlReg, enc28PrepareReadCtlReg, canRead_some, hc, hr]

theorem writeCtlReg_denied (h : accessStatus (canWrite ctx) reg.id ≠ .ok) (v : Byte) :
    enc28DoWriteCtlReg ctx reg v = .ret (accessStatus (canWrite ctx) reg.id) := by
  cases ctx with
  | none => rfl
  | some c =>
    rcases accessStatus_denied h with ⟨hc, hs⟩ | ⟨hc, hr, hs⟩
    · rw [hs]
      simp [enc28DoWriteCtlReg, canWrite_some, hc]
    · rw [hs]
      simp [enc28DoWriteCtlReg, enc28PrepareWriteCtlReg, prepareCtlReg, canWrite_some, hc, hr]

theorem bitsCtlReg_denied (h : accessStatus (canRead ctx) reg.id ≠ .ok) (op mask : Byte) :
    doBitsCtlReg (prepareCtlReg op) ctx reg mask = .ret (accessStatus (canRead ctx) reg.id) := by
  cases ctx with
  | none => rfl
  | some c =>
    rcases accessStatus_denied h with ⟨hc, hs⟩ | ⟨hc, hr, hs⟩
    · rw [hs]
      simp [doBitsCtlReg, canRead_some, hc]
    · rw [hs]
      simp [doBitsCtlReg, prepareCtlReg, canRead_some, hc, hr]

/-- Without its callbacks the bank switch reports a missing parameter. -/
theorem select_denied (hc : canWrite ctx = false) (b : Byte) :
    (enc28SelectRegisterBank ctx b).Returns (· = .invalidParam) := by
  unfold enc28SelectRegisterBank
  split_ifs
  · rfl
  · simp only [bind_eq, pure_eq]
    cases hr : canRead ctx with
    | false =>
      have hs : accessStatus (canRead ctx) CtlReg.econ1.id = .invalidParam := by rw [hr]; rfl
      have he : enc28DoReadCtlReg ctx .econ1 (some 0) = .ret (.invalidParam, 0) := by
        rw [← hs]
        exact readCtlReg_denied (by rw [hs]; decide) 0
      rw [he]
      rfl
    | true =>
      have hs : accessStatus (canWrite ctx) CtlReg.econ1.id = .invalidParam := by rw [hc]; rfl
      refine returns_bind (readCtlReg_ok hr (by decide) 0) fun r hok => ?_
      have he : enc28DoWriteCtlReg ctx .econ1 (econ1WithBank r.2 b) = .ret .invalidParam := by
        rw [← hs]
        exact writeCtlReg_denied (by rw [hs]; decide) _
      rw [if_pos hok, he]
      rfl

end

section
variable {f : File} {w u : World PlainChip} {t : List (Call × World PlainChip)} {ctx : Option SpiContext}
  {id : Byte}

theorem Shows.load (h : Shows f w) (id : Byte) : w.chip.load id = f.load id := by
  have hb : w.chip.econ1 &&& econ1Bsel = f.bank := h.bsel
  unfold PlainChip.load File.load
  rw [hb, h.regs]

/-- A register command that leaves BSEL as it is stores a value in the bank selected last. -/
theorem shows_store (h : Shows f w) {v : Byte} {d : PlainChip}
    (hb : plainCore.bsel (w.chip.store id v) = plainCore.bsel w.chip)
    (hd : ReflTransGen plainCore.env (w.chip.store id v) d) :
    Shows (f.store id v) { w with chip := d, phase := .high } := by
  refine ⟨rfl, h.currBank, (env_bsel plain_laws hd).trans (hb.trans h.bsel), ?_⟩
  have hbank : w.chip.econ1 &&& econ1Bsel = f.bank := h.bsel
  change d.regs = f.regs.write isShared f.bank id v
  rw [plain_env hd, ← hbank, ← h.regs]
  rfl

theorem not_denied {granted : Bool} (hc : granted = true) (hr : id ≠ 0x1A) :
    ¬ (granted = false ∨ id = 0x1A) := by
  intro hf
  rcases hf with hf | hf
  · exact absurd (hc.symm.trans hf) (by decide)
  · exact absurd hf hr

theorem read_shows (h : Shows f w) (hid : id.toNat ≤ 0x1F) {old : Byte} {r : CommandStatus × Byte}
    (run : Exec (busMachine plainCore) (enc28DoReadCtlReg ctx (.raw id) (some old)) w t (some r) u) :
    r.1 = accessStatus (canRead ctx) id ∧ r.2 = (if accessStatus (canRead ctx) id = .ok then f.load id else old) ∧
      Shows f u := by
  by_cases hs : accessStatus (canRead ctx) id = .ok
  · obtain ⟨hc, hr⟩ := accessStatus_ok.mp hs
    let Q : Option (CommandStatus × Byte) → World PlainChip → Prop := fun o u =>
      o = some (.ok, f.load id) ∧ Shows f u
    have hspec : wp (busMachine plainCore) (BusGuard.free _).holds
        (enc28DoReadCtlReg ctx (.raw id) (some old)) Q w := by
      have hagreed : dropsByte w (.raw id) = dummyDue plainCore w (.raw id) := by
        unfold dropsByte dummyDue ChipCore.isMacOrMii
        rw [addr_of_small hid, h.currBank, h.bsel, ← isMacOrMiiReg_eq]
        rfl
      refine wp_readCtlReg (fun hf => ?_) fun _ _ => ⟨⟨trivial, trivial⟩, fun d hd => ?_⟩
      · exact absurd hf (not_denied hc hr)
      · rw [readValue_agreed plainCore w _ hagreed]
        rw [chipAfterRead_agreed plainCore w _ hagreed] at hd
        refine ⟨?_, rfl, h.currBank, (env_bsel plain_laws hd).trans h.bsel, (plain_env hd).trans h.regs⟩
        change some (CommandStatus.ok, w.chip.load _) = _
        rw [addr_of_small hid, h.load]
    obtain ⟨hr, hu⟩ := (wp_sound hspec run).2
    obtain rfl := Option.some.inj hr
    exact ⟨hs.symm, (if_pos hs).symm, hu⟩
  · rw [readCtlReg_denied hs] at run
    cases run
    exact ⟨rfl, (if_neg hs).symm, h⟩

theorem access_ok (granted : Bool) (v : Byte) (hs : accessStatus granted id = .ok) :
    f.access granted id v = ((.ok, .nothing), f.store id v) := by
  unfold File.access
  rw [hs, if_pos rfl]

theorem access_denied (granted : Bool) (v : Byte) (hs : accessStatus granted id ≠ .ok) :
    f.access granted id v = ((accessStatus granted id, .nothing), f) := by
  unfold File.access
  rw [if_neg hs]

/-- A write, a set and a clear store one value each, or are denied. -/
theorem access_shows (h : Shows f w) {granted : Bool} {v : Byte} {p : Driver CommandStatus}
    (hb : id = 0x1F → granted = true → v &&& econ1Bsel = plainCore.bsel w.chip)
    (denied : accessStatus granted id ≠ .ok → p = .ret (accessStatus granted id))
    (stores : granted = true → id ≠ 0x1A → ∀ Q : Option CommandStatus → World PlainChip → Prop,
      (∀ d, ReflTransGen plainCore.env (w.chip.store id v) d →
        Q (some .ok) { w with chip := d, phase := .high }) →
      wp (busMachine plainCore) (BusGuard.free _).holds p Q w) {status : CommandStatus}
    (run : Exec (busMachine plainCore) p w t (some status) u) :
    (status, DriverOutput.nothing) = (f.access granted id v).1 ∧ Shows (f.access granted id v).2 u := by
  by_cases hs : accessStatus granted id = .ok
  · obtain ⟨hc, hr⟩ := accessStatus_ok.mp hs
    have hbsel : plainCore.bsel (w.chip.store id v) = plainCore.bsel w.chip := by
      by_cases he : id = 0x1F
      · subst he
        exact (plain_laws.writeEcon1 w.chip v).trans (hb rfl hc)
      · exact plain_laws.write w.chip id v he
    let Q : Option CommandStatus → World PlainChip → Prop := fun o u => o = some .ok ∧ Shows (f.store id v) u
    obtain ⟨hok, hu⟩ := (wp_sound (stores hc hr Q fun d hd => ⟨rfl, shows_store h hbsel hd⟩) run).2
    rw [access_ok _ _ hs]
    exact ⟨by rw [Option.some.inj hok], hu⟩
  · rw [access_denied _ _ hs]
    rw [denied hs] at run
    cases run
    exact ⟨rfl, h⟩

theorem select_shows (h : Shows f w) {b : Byte} {status : CommandStatus}
    (run : Exec (busMachine plainCore) (enc28SelectRegisterBank ctx b) w t (some status) u) :
    (status, DriverOutput.nothing) = (f.call ⟨ctx, .select b⟩).1 ∧ Shows (f.call ⟨ctx, .select b⟩).2 u := by
  by_cases hbad : 4 ≤ b.toNat
  · have he : f.call ⟨ctx, .select b⟩ = ((.invalidParam, .nothing), f) := if_pos (Or.inl hbad)
    unfold enc28SelectRegisterBank at run
    rw [if_pos hbad] at run
    cases run
    rw [he]
    exact ⟨rfl, h⟩
  · let P : PlainChip → Prop := fun c => c.regs = f.regs
    let P' : PlainChip → Prop := fun c =>
      c.regs = f.regs.write isShared f.bank 0x1F (econ1WithBank (f.load 0x1F) b)
    have hP : EnvClosed plainCore P := fun c d hc hd => Eq.trans hd hc
    have hP' : EnvClosed plainCore P' := fun c d hc hd => Eq.trans hd hc
    have hswitch : ∀ c d, P c → ReflTransGen plainCore.env c d →
        P' (d.store 0x1F (econ1WithBank c.econ1 b)) := by
      intro c d hc hd
      have hload : f.load 0x1F = c.econ1 := by
        unfold PlainChip.econ1
        rw [hc]
        exact read_shared f.regs (by decide) f.bank
      have hregs : d.regs = f.regs := (plain_env hd).trans hc
      change d.regs.write isShared (d.econ1 &&& econ1Bsel) 0x1F (econ1WithBank c.econ1 b) = _
      rw [hregs, hload]
      exact write_shared f.regs _ (by decide) (d.econ1 &&& econ1Bsel) f.bank
    have hidle : Idle plainCore P true w := ⟨h.phase, h.regs, fun _ => h.currBank.trans h.bsel.symm⟩
    have hend := (Triple.sound (select_rule plain_laws (by omega) hP (fun _ hc => hc) hP' hswitch)
      hidle run).2
    cases hc : canWrite ctx with
    | false =>
      have he : f.call ⟨ctx, .select b⟩ = ((.invalidParam, .nothing), f) := if_pos (Or.inr hc)
      obtain rfl : status = .invalidParam := run.returns (select_denied hc b)
      obtain ⟨-, hphase, hregs, hbank⟩ := hend
      have hsame : plainCore.bsel u.chip = f.bank := by
        refine Eq.trans ?_ h.bsel
        change u.chip.regs.shared 0x1F &&& econ1Bsel = w.chip.regs.shared 0x1F &&& econ1Bsel
        rw [hregs, h.regs]
      rw [he]
      exact ⟨rfl, hphase, (hbank rfl).trans hsame, hsame, hregs⟩
    | true =>
      have he : f.call ⟨ctx, .select b⟩ =
          ((.ok, .nothing), { f.store 0x1F (econ1WithBank (f.load 0x1F) b) with bank := b }) := by
        refine if_neg ?_
        rw [not_or]
        exact ⟨hbad, fun hf => absurd (hc.symm.trans hf) (by decide)⟩
      obtain rfl : status = .ok := run.returns (select_ok hc (by omega))
      obtain ⟨hphase, hregs, hcurr, hbsel⟩ := hend
      rw [he]
      exact ⟨rfl, hphase, hcurr, hbsel, hregs⟩

theorem call_shows (cfg : Conf) {c : RegisterCall} (h : Shows f w) (hp : Permitted c w)
    {a : CommandStatus × DriverOutput} (run : Exec (busMachine plainCore) (c.prog cfg) w t (some a) u) :
    a = (f.call c).1 ∧ Shows (f.call c).2 u := by
  obtain ⟨ctx, op⟩ := c
  cases op with
  | select bankId =>
    obtain ⟨status, hrun, rfl⟩ := Exec.of_map run
    exact select_shows h hrun
  | read regId regValue =>
    obtain ⟨r, hrun, rfl⟩ := Exec.of_map run
    cases regValue with
    | none =>
      rw [readCtlReg_null] at hrun
      cases hrun
      exact ⟨rfl, h⟩
    | some old =>
      obtain ⟨hs, hv, hu⟩ := read_shows h hp hrun
      exact ⟨by rw [hs, hv]; rfl, hu⟩
  | write regId regValue =>
    obtain ⟨status, hrun, rfl⟩ := Exec.of_map run
    refine access_shows h hp.2 (fun hs => writeCtlReg_denied hs regValue) (fun hc hr Q hQ => ?_) hrun
    refine wp_writeCtlReg (fun hf => absurd hf (not_denied hc hr)) fun _ _ => ⟨trivial, fun d hd => hQ d ?_⟩
    rwa [addr_of_small hp.1] at hd
  | setBits regId mask =>
    obtain ⟨status, hrun, rfl⟩ := Exec.of_map run
    refine access_shows h (fun he hc => ?_) (fun hs => bitsCtlReg_denied hs opBfs mask) (fun hc hr Q hQ => ?_) hrun
    · subst he
      rw [← h.load, load_econ1]
      exact hp.2 rfl hc
    · refine wp_setBitsCtlReg (fun hf => absurd hf (not_denied hc hr)) fun _ _ => ⟨trivial, fun d hd => hQ d ?_⟩
      rw [addr_of_small hp.1] at hd
      rw [← h.load]
      exact hd
  | clearBits regId mask =>
    obtain ⟨status, hrun, rfl⟩ := Exec.of_map run
    refine access_shows h (fun he hc => ?_) (fun hs => bitsCtlReg_denied hs opBfc mask) (fun hc hr Q hQ => ?_) hrun
    · subst he
      rw [← h.load, load_econ1]
      exact hp.2 rfl hc
    · refine wp_clearBitsCtlReg (fun hf => absurd hf (not_denied hc hr)) fun _ _ => ⟨trivial, fun d hd => hQ d ?_⟩
      rw [addr_of_small hp.1] at hd
      rw [← h.load]
      exact hd

end

/-- A call that is OK changes the register it names, and that one only; another
call changes nothing. -/
theorem call_changes (f : File) (c : RegisterCall) (b id : Byte) :
    ((f.call c).1.1 = .ok → SameRegister isShared f.bank c.op.target b id →
      (f.call c).2.regs.read isShared b id = c.op.newValue (f.regs.read isShared b id)) ∧
    ((f.call c).1.1 ≠ .ok ∨ ¬ SameRegister isShared f.bank c.op.target b id →
      (f.call c).2.regs.read isShared b id = f.regs.read isShared b id) := by
  have access : ∀ (granted : Bool) (regId v : Byte),
      ((f.access granted regId v).1.1 = .ok → SameRegister isShared f.bank regId b id →
        (f.access granted regId v).2.regs.read isShared b id = v) ∧
      ((f.access granted regId v).1.1 ≠ .ok ∨ ¬ SameRegister isShared f.bank regId b id →
        (f.access granted regId v).2.regs.read isShared b id = f.regs.read isShared b id) := by
    intro granted regId v
    by_cases hs : accessStatus granted regId = .ok
    · rw [access_ok granted v hs]
      refine ⟨fun _ hsame => read_write_same _ _ hsame, fun h => ?_⟩
      exact read_write_other _ _ (h.resolve_left fun hne => hne rfl)
    · rw [access_denied granted v hs]
      exact ⟨fun hok => absurd hok hs, fun _ => rfl⟩
  have hne : CommandStatus.invalidParam ≠ .ok := by decide
  have hload : ∀ regId, SameRegister isShared f.bank regId b id →
      f.load regId = f.regs.read isShared b id := fun regId h => read_same f.regs h
  obtain ⟨ctx, op⟩ := c
  cases op with
  | select bankId =>
    by_cases hbad : 4 ≤ bankId.toNat ∨ canWrite ctx = false
    · have he : f.call ⟨ctx, .select bankId⟩ = ((.invalidParam, .nothing), f) := if_pos hbad
      rw [he]
      exact ⟨fun hok => absurd hok hne, fun _ => rfl⟩
    · have he : f.call ⟨ctx, .select bankId⟩ =
          ((.ok, .nothing), { f.store 0x1F (econ1WithBank (f.load 0x1F) bankId) with bank := bankId }) :=
        if_neg hbad
      rw [he]
      refine ⟨fun _ hsame => ?_, fun h => ?_⟩
      · rw [hload 0x1F hsame]
        exact read_write_same _ _ hsame
      · exact read_write_other _ _ (h.resolve_left fun hne => hne rfl)
  | read regId regValue =>
    cases regValue with
    | none => exact ⟨fun _ _ => rfl, fun _ => rfl⟩
    | some old => exact ⟨fun _ _ => rfl, fun _ => rfl⟩
  | write regId regValue => exact access _ regId regValue
  | setBits regId mask =>
    refine ⟨fun hok hsame => ?_, (access _ regId _).2⟩
    exact ((access _ regId _).1 hok hsame).trans (by rw [hload regId hsame]; rfl)
  | clearBits regId mask =>
    refine ⟨fun hok hsame => ?_, (access _ regId _).2⟩
    exact ((access _ regId _).1 hok hsame).trans (by rw [hload regId hsame]; rfl)

theorem invalid_fails (f : File) {c : RegisterCall} (h : c.op.invalid) : (f.call c).1.1 ≠ .ok := by
  have access : ∀ (granted : Bool) {regId : Byte}, regId = 0x1A → accessStatus granted regId ≠ .ok :=
    fun granted regId hid hok => (accessStatus_ok.mp hok).2 hid
  have hne : CommandStatus.invalidParam ≠ .ok := by decide
  obtain ⟨ctx, op⟩ := c
  cases op with
  | select bankId =>
    have he : f.call ⟨ctx, .select bankId⟩ = ((.invalidParam, .nothing), f) := if_pos (Or.inl h)
    rw [he]
    exact hne
  | read regId regValue =>
    cases regValue with
    | none => exact hne
    | some old => exact access (canRead ctx) h
  | write regId regValue => exact access (canWrite ctx) h
  | setBits regId mask | clearBits regId mask => exact access (canRead ctx) h

abbrev RegisterRecord :=
  CallRecord Call (World PlainChip) RegisterCall (CommandStatus × DriverOutput)

/-- The values and statuses of any sequence of calls are those of the abstract
file. Each call that is OK leaves its value in the one register it names. -/
theorem register_layer_refines (cfg : Conf) {w u : World PlainChip} {rs : List RegisterRecord}
    (idle : w.phase = .high) (agree : w.currBank = plainCore.bsel w.chip)
    (s : Session (busMachine plainCore) (RegisterCall.prog cfg) w rs u)
    (permitted : ∀ r ∈ rs, Permitted r.op r.before) :
    rs.map (·.result) = (specRun (fun c f => File.call f c) ⟨w.chip.regs, w.currBank⟩ (rs.map (·.op))).1 ∧
    Shows (specRun (fun c f => File.call f c) ⟨w.chip.regs, w.currBank⟩ (rs.map (·.op))).2 u ∧
    ∀ r ∈ rs, (r.op.op.invalid → r.result.1 ≠ .ok) ∧ ∀ b id,
      (r.result.1 = .ok → SameRegister isShared r.before.currBank r.op.op.target b id →
        r.after.chip.regs.read isShared b id = r.op.op.newValue (r.before.chip.regs.read isShared b id)) ∧
      (r.result.1 ≠ .ok ∨ ¬ SameRegister isShared r.before.currBank r.op.op.target b id →
        r.after.chip.regs.read isShared b id = r.before.chip.regs.read isShared b id) := by
  have hstart : Shows ⟨w.chip.regs, w.currBank⟩ w := ⟨idle, rfl, agree.symm, rfl⟩
  have refines : ∀ {u : World PlainChip} {rs : List RegisterRecord},
      Session (busMachine plainCore) (RegisterCall.prog cfg) w rs u → (∀ r ∈ rs, Permitted r.op r.before) →
      rs.map (·.result) = (specRun (fun c f => File.call f c) ⟨w.chip.regs, w.currBank⟩ (rs.map (·.op))).1 ∧
      Shows (specRun (fun c f => File.call f c) ⟨w.chip.regs, w.currBank⟩ (rs.map (·.op))).2 u :=
    fun s hp => Session.refines s hp hstart fun f u c t a v hu hc run => call_shows cfg hu hc run
  obtain ⟨hresults, hu⟩ := refines s permitted
  refine ⟨hresults, hu, fun r hr => ?_⟩
  obtain ⟨before, hs, hbefores, hrun⟩ := s.mem hr
  have hbefore := (refines hs fun q hq => permitted q (hbefores.mem (List.mem_append_left _ hq))).2
  obtain ⟨hresult, hafter⟩ := call_shows cfg hbefore (permitted r hr) hrun
  have hchanges := call_changes (specRun (fun c f => File.call f c) ⟨w.chip.regs, w.currBank⟩
    (before.map (·.op))).2 r.op
  rw [← hresult, ← hbefore.currBank, ← hbefore.regs, ← hafter.regs] at hchanges
  refine ⟨fun hinv => ?_, hchanges⟩
  rw [hresult]
  exact invalid_fails _ hinv

/-- A MAC register is written in bank 2 and read back behind the dummy byte. -/
theorem register_layer_refines_mac : ∃ (rs : List RegisterRecord) (u : World PlainChip),
    Session (busMachine plainCore) (RegisterCall.prog {}) ⟨⟨⟨fun _ _ => 0, fun _ => 0⟩, 0xEE⟩, .high, 0⟩ rs u ∧
      rs.map (·.result) = [(.ok, .nothing), (.ok, .nothing), (.ok, .regValue 0x15)] := by
  let chip : World PlainChip := ⟨⟨⟨fun _ _ => 0, fun _ => 0⟩, 0xEE⟩, .high, 0⟩
  let calls : List RegisterCall :=
    [.select 2, .write 0x02 0x15, .read 0x02 (some 0)].map fun op => ⟨some fullContext, op⟩
  let f : List RegisterRecord × World PlainChip → Bool × List RegisterCall :=
    fun x => (x.1.all fun r => decide (Permitted r.op r.before), x.1.map (·.op))
  have hsteps : ∀ x ∈ calls.map (fun c => (c, busDevice plainCore id)), ∀ e w,
      busMachine plainCore e w (x.2 e w).1 (x.2 e w).2 := by
    intro x hx e w
    obtain ⟨c, -, rfl⟩ := List.mem_map.mp hx
    exact busDevice_step plainCore (fun _ => ReflTransGen.refl) e w
  have hrun : (runCalls (RegisterCall.prog {}) (calls.map fun c => (c, busDevice plainCore id)) chip).map f =
      some (true, calls) := by
    decide +kernel
  obtain ⟨rs, u, hs, hv⟩ := runCalls_shows hsteps hrun
  simp only [f, Prod.mk.injEq, List.all_eq_true] at hv
  have hpermitted : ∀ r ∈ rs, Permitted r.op r.before := fun r hr => of_decide_eq_true (hv.1 r hr)
  have hops : rs.map (·.op) = calls := hv.2
  have hresults := (register_layer_refines {} rfl (by decide) hs hpermitted).1
  rw [hops] at hresults
  exact ⟨rs, u, hs, hresults⟩

end Stm32NetworkStack.RegisterRefinement
