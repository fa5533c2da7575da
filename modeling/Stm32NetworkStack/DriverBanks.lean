import Stm32NetworkStack.BankDiscipline

set_option autoImplicit false

/-!
# The bank discipline of every driver function

A property `J` of the chip that the commands do not touch (`Benign`) is carried
through each function of the driver, from `Idle` to `Idle`, under the guard that
a command addresses the register it names.
-/
namespace Stm32NetworkStack.DriverBanks
open InteractivePrograms Enc28Registers Enc28Driver SpiBus BankDiscipline Relation

section
variable {κ α : Type} {C : ChipCore κ} {J : κ → Prop}

abbrev Bank (C : ChipCore κ) (P : World κ → Prop) (p : Driver α) (B : α → World κ → Prop)
    (X : World κ → Prop) : Prop :=
  Triple (busMachine C) (bankGuard C).holds P p B X

theorem onOk {A E X : World κ → Prop} {D : α → World κ → Prop} {status : CommandStatus}
    {p q : Driver α} (hp : Bank C A p D X) (hq : status ≠ .ok → Bank C E q D X) :
    Bank C (okOr A E status) (if status = .ok then p else q) D X := by
  by_cases h : status = .ok
  · subst h
    exact hp
  · rw [if_neg h, okOr_err A E h]
    exact hq h

theorem readThen {P B A E : World κ → Prop} {p : Driver (CommandStatus × Byte)}
    {k : CommandStatus × Byte → Driver CommandStatus} (hp : Bank C P p (fun _ => B) E)
    (hk : ∀ r, Spec C B (k r) A E) (he : ∀ w, B w → E w) :
    Spec C P (p.bind fun r => if r.1 = .ok then k r else .ret r.1) A E := by
  refine Triple.bind hp fun r => ?_
  by_cases h : r.1 = .ok
  · rw [if_pos h]
    exact hk r
  · rw [if_neg h]
    exact Spec.err h he

theorem Spec.toIdle {P E : World κ → Prop} {p : Driver CommandStatus} {b : Byte} {agree : Bool}
    (h : Spec C P p (InBank C J b) E) : Spec C P p (Idle C J agree) E :=
  h.conseq (fun _ h => h) (fun _ h => h.idle) (fun _ h => h)

theorem Spec.fromBank (agree : Bool) {A E : World κ → Prop} {p : Driver CommandStatus} {b : Byte}
    (h : Spec C (Idle C J agree) p A E) : Spec C (InBank C J b) p A E :=
  h.conseq (fun _ h => h.idle) (fun _ h => h) (fun _ h => h)

end

section
variable {κ : Type} {C : ChipCore κ} {J : κ → Prop} {ctx : Option SpiContext} {agree : Bool}

/-- `J` survives what the driver sends, the start of a transmission apart; without
`bank0` that is only asked of commands to the upper banks. -/
structure Benign (C : ChipCore κ) (J : κ → Prop) (bank0 : Bool) : Prop where
  env : EnvClosed C J
  afterRead : ∀ c a, J c → J (C.afterRead c a)
  write : ∀ c a v, a ≠ 0x1F → (bank0 = true ∨ C.bsel c ≠ 0) → J c → J (C.writeReg c a v)
  switch : ∀ c d (b : Byte), b.toNat < 4 → J c → ReflTransGen C.env (C.afterRead c 0x1F) d →
    J (C.writeReg d 0x1F (econ1WithBank (C.econ1 c) b))
  set : ∀ c a m, (a = 0x1F → m.getLsbD econ1Txrts = false) →
    (bank0 = true ∨ C.bsel c ≠ 0 ∧ a.toNat < 0x1B) → J c → J (C.setBits c a m)
  clear : ∀ c a m, (bank0 = true ∨ C.bsel c ≠ 0 ∧ a.toNat < 0x1B) → J c → J (C.clearBits c a m)
  readBuf : ∀ c, J c → J (C.readBuf c).2
  writeBuf : ∀ c b, J c → J (C.writeBuf c b)

/-- The same when only the registers in `may` are changed. -/
structure Carries (C : ChipCore κ) (J : κ → Prop) (may : Byte → Byte → Prop) : Prop where
  env : EnvClosed C J
  afterRead : ∀ c a, J c → J (C.afterRead c a)
  write : ∀ c a v, a ≠ 0x1F → may (C.bsel c) a → J c → J (C.writeReg c a v)
  switch : ∀ c d (b : Byte), b.toNat < 4 → J c → ReflTransGen C.env (C.afterRead c 0x1F) d →
    J (C.writeReg d 0x1F (econ1WithBank (C.econ1 c) b))
  set : ∀ c a m, (a = 0x1F → m.getLsbD econ1Txrts = false) → may (C.bsel c) a → J c →
    J (C.setBits c a m)
  clear : ∀ c a m, may (C.bsel c) a → J c → J (C.clearBits c a m)
  readBuf : ∀ c, J c → J (C.readBuf c).2
  writeBuf : ∀ c b, J c → J (C.writeBuf c b)

/-- What `Benign` allows. -/
def mayChange (bank0 : Bool) (b a : Byte) : Prop := bank0 = true ∨ b ≠ 0 ∧ a.toNat < 0x1B

theorem Benign.carries {bank0 : Bool} (h : Benign C J bank0) : Carries C J (mayChange bank0) where
  env := h.env
  afterRead := h.afterRead
  write := fun c a v ha hm => h.write c a v ha (hm.imp_right And.left)
  switch := h.switch
  set := h.set
  clear := h.clear
  readBuf := h.readBuf
  writeBuf := h.writeBuf

/-- Registers of the upper banks. -/
def UpperBanks (may : Byte → Byte → Prop) : Prop := ∀ b a, b ≠ 0 → a.toNat < 0x1B → may b a

/-- All registers but those of bank 3. Only the initialization changes these. -/
def LowerBanks (may : Byte → Byte → Prop) : Prop := ∀ b a, b ≠ 3 ∨ 0x1B ≤ a.toNat → may b a

theorem mayChange_upper (bank0 : Bool) : UpperBanks (mayChange bank0) :=
  fun _ _ hb ha => Or.inr ⟨hb, ha⟩

theorem mayChange_lower : LowerBanks (mayChange true) := fun _ _ _ => Or.inl rfl

/-- The two registers that start a PHY read. -/
def MiiCommand (may : Byte → Byte → Prop) : Prop := may 2 CtlReg.miregadr.addr ∧ may 2 CtlReg.micmd.addr

variable {may : Byte → Byte → Prop}

theorem UpperBanks.mii (h : UpperBanks may) : MiiCommand may :=
  ⟨h _ _ (by decide) (by decide), h _ _ (by decide) (by decide)⟩

theorem LowerBanks.mii (h : LowerBanks may) : MiiCommand may := ⟨h _ _ (by decide), h _ _ (by decide)⟩

theorem drained_keeps (carries : Carries C J may) {c : κ} (hc : J c) (n : ℕ) :
    J (C.drained n c) := by
  induction n with
  | zero => exact hc
  | succ n ih =>
    rw [drained_succ]
    exact carries.readBuf _ ih

theorem written_keeps (carries : Carries C J may) {c : κ} (hc : J c) (buff : List Byte) :
    J (buff.foldl C.writeBuf c) := by
  induction buff generalizing c with
  | nil => exact hc
  | cons b buff ih => exact ih (carries.writeBuf c b hc)

variable (laws : BankLaws C) (carries : Carries C J may)
include laws carries

theorem read_inBank {b : Byte} (reg : CtlReg) (hr : reg.bank = some b) (old : Byte)
    {X : World κ → Prop} :
    Bank C (InBank C J b) (enc28DoReadCtlReg ctx reg (some old)) (fun _ => InBank C J b) X := by
  cases hc : canRead ctx with
  | false => exact read_blocked hc reg old fun _ _ _ hw => hw
  | true =>
    exact Triple.conseq (read_rule laws hc reg hr old (fun _ => carries.env)
      fun c hj _ => carries.afterRead c _ hj) (fun _ h => h) (fun _ _ h => h.2) fun _ h => h

theorem read_shared (reg : CtlReg) (hid : reg.id = reg.addr) (hr : 0x1B ≤ reg.addr.toNat)
    (old : Byte) {X : World κ → Prop} :
    Bank C (Idle C J agree) (enc28DoReadCtlReg ctx reg (some old)) (fun _ => Idle C J agree) X := by
  cases hc : canRead ctx with
  | false => exact read_blocked hc reg old fun _ _ _ hw => hw
  | true =>
    exact Triple.conseq (readShared_rule laws hc reg hid hr old (fun _ => carries.env)
      fun c hj => carries.afterRead c _ hj) (fun _ h => h) (fun _ _ h => h.2) fun _ h => h

theorem write_spec {b : Byte} {reg : CtlReg} (hm : may b reg.addr) (hr : reg.bank = some b)
    (value : Byte) :
    Spec C (InBank C J b) (enc28DoWriteCtlReg ctx reg value) (InBank C J b) (Idle C J agree) :=
  (write_rule laws hr value carries.env fun c hj hbank => carries.write c _ _ (bank_ne_econ1 hr)
    (hbank ▸ hm) hj).conseq (fun _ h => h) (fun _ h => h) fun _ h => h.2.idle

theorem setBits_spec {b : Byte} {reg : CtlReg} (hid : reg.id ≠ 0x1A)
    (hm : may b reg.addr) (hr : reg.addr.toNat < 0x1B → reg.bank = some b) (mask : Byte)
    (hmask : reg.addr = 0x1F → mask &&& econ1Bsel = 0 ∧ mask.getLsbD econ1Txrts = false) :
    Spec C (InBank C J b) (enc28DoSetBitsCtlReg ctx reg mask) (InBank C J b) (Idle C J agree) :=
  (setBits_rule laws hid hr mask (fun h => (hmask h).1) carries.env fun c hj hbank =>
    carries.set c _ _ (fun h => (hmask h).2) (hbank ▸ hm) hj).conseq (fun _ h => h) (fun _ h => h)
      fun _ h => h.2.idle

theorem clearBits_spec {b : Byte} {reg : CtlReg} (hid : reg.id ≠ 0x1A)
    (hm : may b reg.addr) (hr : reg.addr.toNat < 0x1B → reg.bank = some b) (mask : Byte)
    (hmask : reg.addr = 0x1F → mask &&& econ1Bsel = 0) :
    Spec C (InBank C J b) (enc28DoClearBitsCtlReg ctx reg mask) (InBank C J b) (Idle C J agree) :=
  (clearBits_rule laws hid hr mask hmask carries.env fun c hj hbank =>
    carries.clear c _ _ (hbank ▸ hm) hj).conseq (fun _ h => h) (fun _ h => h) fun _ h => h.2.idle

theorem select_or_blocked {b : Byte} (hb : b.toNat < 4) :
    Spec C (Idle C J agree) (enc28SelectRegisterBank ctx b) (InBank C J b)
      (fun u => canWrite ctx = false ∧ Idle C J agree u) :=
  select_rule laws hb carries.env (fun c => carries.afterRead c _) carries.env
    fun c d => carries.switch c d b hb

theorem select_spec {b : Byte} (hb : b.toNat < 4) :
    Spec C (Idle C J agree) (enc28SelectRegisterBank ctx b) (InBank C J b) (Idle C J agree) :=
  (select_or_blocked laws carries hb).conseq (fun _ h => h) (fun _ h => h) fun _ h => h.2

theorem select_idle (b : Byte) :
    Spec C (Idle C J agree) (enc28SelectRegisterBank ctx b) (Idle C J agree) (Idle C J agree) := by
  by_cases hb : b.toNat < 4
  · exact (select_spec laws carries hb).conseq (fun _ h => h) (fun _ h => h.idle) (fun _ h => h)
  · unfold enc28SelectRegisterBank
    rw [if_pos (by omega)]
    exact Spec.err (by decide) fun _ h => h

theorem statusBurst_spec {α : Type} {b : Byte} {buff : List Byte} {n : ℕ}
    {k : (Fin (n + 1) → Byte) → Driver α} {D : α → World κ → Prop} {X : World κ → Prop}
    (hk : ∀ hdr, Bank C (InBank C J b) (k hdr) D X) :
    Bank C (InBank C J b) ((nssPinOp 0).bind fun _ =>
      (spiInOutOp (0x3A :: buff) (n + 1)).bind fun hdr => (nssPinOp 1).bind fun _ => k hdr) D X :=
  statusBurst_rule laws (fun _ => carries.env) (fun _ _ hj _ => drained_keeps carries hj n) hk

theorem packetBurst_spec {α : Type} {b : Byte} {n : ℕ} {k : (Fin n → Byte) → Driver α}
    {D : α → World κ → Prop} {X : World κ → Prop}
    (hk : ∀ packet, Bank C (InBank C J b) (k packet) D X) :
    Bank C (InBank C J b) ((nssPinOp 0).bind fun _ => (spiOutOp none [0x3A]).bind fun _ =>
      (spiInOp n).bind fun packet => (nssPinOp 1).bind fun _ => k packet) D X :=
  packetBurst_rule laws (fun _ => carries.env) (fun _ hj => drained_keeps carries hj n) hk

theorem writeBurst_spec {α : Type} {b v : Byte} {buff : List Byte} {k : Driver α}
    {D : α → World κ → Prop} {X : World κ → Prop} (hk : Bank C (InBank C J b) k D X) :
    Bank C (InBank C J b) ((nssPinOp 0).bind fun _ => (spiOutOp none [0x7A, v]).bind fun _ =>
      (spiOutOp none buff).bind fun _ => (nssPinOp 1).bind fun _ => k) D X :=
  writeBurst_rule laws carries.env (fun _ hj => written_keeps carries hj (v :: buff)) hk

theorem pollMistat_spec (rounds : ℕ) :
    Spec C (InBank C J 3) (pollMistat ctx rounds) (InBank C J 3) (Idle C J agree) := by
  induction rounds with
  | zero => exact fun w hw => hw.idle
  | succ rounds ih =>
    simp only [pollMistat, bind_eq, pure_eq]
    refine readThen (read_inBank laws carries .mistat rfl 0xff) (fun r => ?_) fun _ h => h.idle
    by_cases hb : r.2.getLsbD mistatBusy = true
    · rw [if_pos hb]
      exact fun w hw => (wp_wait 1 _).2 (ih w hw)
    · rw [if_neg hb]
      exact Spec.ok fun _ h => h

theorem phyReadCommand_spec (hm : MiiCommand may) (rounds : ℕ) (regId : Byte) :
    Spec C (Idle C J agree) (phyReadCommand rounds ctx regId) (InBank C J 2) (Idle C J agree) := by
  refine (select_spec laws carries (by decide)).exit <|
    (write_spec laws carries hm.1 rfl _).exit <|
    (write_spec laws carries hm.2 rfl _).exit fun w hw => (wp_wait _ _).2 ?_
  revert w
  exact Spec.fromBank agree <| (select_spec laws carries (by decide)).exit <|
    (pollMistat_spec laws carries rounds).exit <| Spec.fromBank agree <|
    (select_spec laws carries (by decide)).exit <|
    write_spec laws carries hm.2 rfl _

theorem readPhyRegister_spec (hm : MiiCommand may) (rounds : ℕ) (regId : Byte) (regValue : Word) :
    Bank C (Idle C J agree) (enc28DoReadPhyRegister rounds ctx regId regValue)
      (fun r => okOr (InBank C J 2) (Idle C J agree) r.1) (Idle C J agree) := by
  have stop : ∀ (A : World κ → Prop) (status : CommandStatus), status ≠ .ok →
      (∀ w, A w → Idle C J agree w) → Bank C A (.ret (status, regValue))
        (fun r => okOr (InBank C J 2) (Idle C J agree) r.1) (Idle C J agree) :=
    fun A status hs hA => Triple.ret fun w hw => by
      rw [okOr_err _ _ hs]
      exact hA w hw
  have early := stop (Idle C J agree) .invalidParam (by decide) fun _ h => h
  unfold enc28DoReadPhyRegister
  by_cases hp : privEnc28IsPhyReg regId = true
  · simp only [hp, Bool.not_true, Bool.false_eq_true, if_false, bind_eq, pure_eq]
    cases ctx with
    | none => exact early
    | some c =>
      by_cases hc : (!c.nssPinOp || !c.spiInOp || !c.spiOutOp || !c.waitNano) = true
      · simp only [hc, if_true]
        exact early
      · simp only [hc, Bool.false_eq_true, if_false]
        refine Triple.bind (phyReadCommand_spec laws carries hm rounds regId) fun status =>
          onOk ?_ fun hs => stop _ status hs fun _ h => h
        refine Triple.bind (read_inBank laws carries .mirdl rfl 0xff) fun lo => ?_
        by_cases hlo : lo.1 = .ok
        · rw [if_pos hlo]
          refine Triple.bind (read_inBank laws carries .mirdh rfl 0xff) fun hi => ?_
          by_cases hhi : hi.1 = .ok
          · rw [if_pos hhi]
            exact Triple.ret fun _ h => h
          · rw [if_neg hhi]
            exact stop _ _ hhi fun _ h => h.idle
        · rw [if_neg hlo]
          exact stop _ _ hlo fun _ h => h.idle
  · simp only [hp, Bool.not_false, if_true]
    exact early

theorem receiveFilterInit_spec (hu : UpperBanks may) (cfg : Conf) :
    Spec C (Idle C J agree) (privEnc28DoReceiveFilterInit cfg ctx) (Idle C J agree)
      (Idle C J agree) :=
  (select_spec laws carries (by decide)).exit <|
    Spec.toIdle (write_spec laws carries (hu _ _ (by decide) (by decide)) rfl _)

theorem pollEstatClk_spec (rounds : ℕ) (status : CommandStatus) (regValue : Byte) :
    Spec C (Idle C J agree) (pollEstatClk ctx rounds status regValue) (Idle C J agree)
      (Idle C J agree) := by
  induction rounds generalizing status regValue with
  | zero => exact fun w hw => hw
  | succ rounds ih =>
    unfold pollEstatClk
    split_ifs
    · exact Spec.ok fun _ h => h
    · exact Triple.bind (read_shared laws carries .estat rfl (by decide) regValue) fun r =>
        ih r.1 r.2
    · exact Spec.ok fun _ h => h

theorem doPollEstatClk_spec (rounds : ℕ) :
    Spec C (Idle C J agree) (privEnc28DoPollEstatClk rounds ctx) (Idle C J agree)
      (Idle C J agree) :=
  Triple.bind (read_shared laws carries .estat rfl (by decide) 0) fun r =>
    pollEstatClk_spec laws carries rounds r.1 r.2

theorem macInitDuplex_spec (hu : UpperBanks may) (cfg : Conf) (macAdd : MacAddress) (isFullDuplex : Bool) :
    Spec C (InBank C J 2) (macInitDuplex cfg macAdd ctx isFullDuplex) (Idle C J agree)
      (Idle C J agree) := by
  have hpg : Spec C (InBank C J 2) (if isFullDuplex then .ret .ok
      else enc28DoWriteCtlReg ctx .maipgh (BitVec.ofNat 8 cfg.maipghBits)) (InBank C J 2)
        (Idle C J agree) := by
    cases isFullDuplex with
    | true => exact Spec.ok fun _ h => h
    | false =>
      change Spec C _ (enc28DoWriteCtlReg ctx .maipgh _) _ _
      exact write_spec laws carries (hu _ _ (by decide) (by decide)) rfl _
  refine (setBits_spec laws carries (by decide) (hu _ _ (by decide) (by decide)) (fun _ => rfl) _
      fun h => absurd h (by decide)).exit <|
    (setBits_spec laws carries (by decide) (hu _ _ (by decide) (by decide)) (fun _ => rfl) _
      fun h => absurd h (by decide)).exit <|
    (write_spec laws carries (hu _ _ (by decide) (by decide)) rfl _).exit <|
    (write_spec laws carries (hu _ _ (by decide) (by decide)) rfl _).exit <|
    (write_spec laws carries (hu _ _ (by decide) (by decide)) rfl _).exit <|
    (write_spec laws carries (hu _ _ (by decide) (by decide)) rfl _).exit <| hpg.exit <|
    Spec.fromBank agree <| (select_spec laws carries (by decide)).exit <|
    (write_spec laws carries (hu _ _ (by decide) (by decide)) rfl _).exit <|
    (write_spec laws carries (hu _ _ (by decide) (by decide)) rfl _).exit <|
    (write_spec laws carries (hu _ _ (by decide) (by decide)) rfl _).exit <|
    (write_spec laws carries (hu _ _ (by decide) (by decide)) rfl _).exit <|
    (write_spec laws carries (hu _ _ (by decide) (by decide)) rfl _).exit <|
    (write_spec laws carries (hu _ _ (by decide) (by decide)) rfl _).exit <|
    Spec.fromBank agree <| select_idle laws carries 0

theorem macInit_spec (hu : UpperBanks may) (cfg : Conf) (rounds : ℕ) (macAdd : MacAddress) :
    Spec C (Idle C J agree) (privEnc28DoMacInit cfg rounds macAdd ctx) (Idle C J agree)
      (Idle C J agree) := by
  refine (select_spec laws carries (by decide)).exit <|
    (setBits_spec laws carries (by decide) (hu _ _ (by decide) (by decide)) (fun _ => rfl) _
      fun h => absurd h (by decide)).exit <|
    Spec.fromBank agree <| Triple.bind (readPhyRegister_spec laws carries hu.mii rounds _ 0) fun r => ?_
  exact onOk (macInitDuplex_spec laws carries hu cfg macAdd _) fun hs => Spec.err hs fun _ h => h

theorem phyIdle_spec (hm : MiiCommand may) (rounds : ℕ) (regId : Byte) (regValue : Word) :
    Bank C (Idle C J agree) (enc28DoReadPhyRegister rounds ctx regId regValue)
      (fun _ => Idle C J agree) (Idle C J agree) := by
  refine Triple.conseq (readPhyRegister_spec laws carries hm rounds regId regValue) (fun _ h => h)
    (fun r w h => ?_) fun _ h => h
  have hidle : okOr (Idle C J agree) (Idle C J agree) r.1 w :=
    okOr_mono (fun _ hb => hb.idle) (fun _ h => h) r.1 w h
  rwa [okOr_self] at hidle

theorem readHwRev_spec (hm : MiiCommand may) (rounds : ℕ) (hwRev : Option HwRev) :
    Bank C (Idle C J agree) (enc28DoReadHwRev rounds ctx hwRev) (fun _ => Idle C J agree)
      (Idle C J agree) := by
  cases hwRev with
  | none => exact Triple.ret fun _ h => h
  | some rev =>
    unfold enc28DoReadHwRev
    simp only [bind_eq, pure_eq]
    refine Triple.bind (phyIdle_spec laws carries hm rounds _ _) fun r => ?_
    split_ifs
    · refine Triple.bind (phyIdle_spec laws carries hm rounds _ _) fun r => ?_
      split_ifs
      · refine Triple.bind (select_spec laws carries (by decide)) fun status =>
          onOk ?_ fun _ => Triple.ret fun _ h => h
        refine Triple.bind (read_inBank laws carries .erevid rfl _) fun r =>
          Triple.ret fun _ h => h.idle
      · exact Triple.ret fun _ h => h
    · exact Triple.ret fun _ h => h

theorem readMacBytes_spec (regs : List (CtlReg × Fin 6)) (mac : MacAddress)
    (h : ∀ x ∈ regs, x.1.bank = some 3) :
    Bank C (InBank C J 3) (readMacBytes ctx regs mac) (fun _ => InBank C J 3)
      (Idle C J agree) := by
  induction regs generalizing mac with
  | nil => exact Triple.ret fun _ h => h
  | cons x regs ih =>
    simp only [readMacBytes, bind_eq, pure_eq]
    refine Triple.bind (read_inBank laws carries x.1 (h x List.mem_cons_self) _) fun r => ?_
    split_ifs
    · exact ih _ fun y hy => h y (List.mem_cons_of_mem _ hy)
    · exact Triple.ret fun _ h => h

theorem readMac_spec (mac : MacAddress) :
    Bank C (Idle C J agree) (enc28DoReadMac ctx mac) (fun _ => Idle C J agree)
      (Idle C J agree) := by
  refine Triple.bind (select_spec laws carries (by decide)) fun status =>
    onOk ?_ fun _ => Triple.ret fun _ h => h
  exact Triple.conseq (readMacBytes_spec laws carries _ mac (by decide)) (fun _ h => h)
    (fun _ _ h => h.idle) fun _ h => h

theorem bufferRegisterInit_spec (hl : LowerBanks may) (cfg : Conf) :
    Spec C (Idle C J agree) (privEnc28DoBufferRegisterInit cfg ctx) (Idle C J agree)
      (Idle C J agree) := by
  cases hc : canWrite ctx with
  | false =>
    refine Triple.bind (select_idle laws carries 0) fun status => ?_
    rw [okOr_self]
    exact (write_blocked hc _ _).exit fun _ h => h.elim
  | true =>
    refine Triple.bind (Triple.conseq (select_or_blocked laws carries (by decide))
      (fun _ h => h) (fun _ _ h => h) fun _ h => h.2) fun status => ?_
    by_cases hs : status = .ok
    · subst hs
      exact Spec.toIdle <| (write_spec laws carries (hl _ _ (by decide)) rfl _).exit <|
        (write_spec laws carries (hl _ _ (by decide)) rfl _).exit <|
        (write_spec laws carries (hl _ _ (by decide)) rfl _).exit <|
        (write_spec laws carries (hl _ _ (by decide)) rfl _).exit <|
        (write_spec laws carries (hl _ _ (by decide)) rfl _).exit <|
        write_spec laws carries (hl _ _ (by decide)) rfl _
    · intro w hw
      rw [okOr_err _ _ hs] at hw
      exact absurd (hc.symm.trans hw.1) (by decide)

theorem init_spec (hl : LowerBanks may) (hu : UpperBanks may) (cfg : Conf) (rounds : ℕ) (macAdd : MacAddress) :
    Spec C (Idle C J agree) (enc28DoInit cfg rounds macAdd ctx) (Idle C J agree)
      (Idle C J agree) :=
  (bufferRegisterInit_spec laws carries hl cfg).exit <|
    (receiveFilterInit_spec laws carries hu cfg).exit <|
    (doPollEstatClk_spec laws carries rounds).exit <|
    (macInit_spec laws carries hu cfg rounds macAdd).exit <| Spec.ok fun _ h => h

theorem beginPacketTransfer_spec (hl : LowerBanks may) (cfg : Conf) :
    Spec C (Idle C J agree) (enc28BeginPacketTransfer cfg ctx) (Idle C J agree)
      (Idle C J agree) :=
  Spec.toIdle <| (select_spec laws carries (by decide)).exit <|
    (write_spec laws carries (hl _ _ (by decide)) rfl _).exit <|
    (write_spec laws carries (hl _ _ (by decide)) rfl _).exit <|
    (setBits_spec laws carries (by decide) (hl _ _ (by decide)) (by decide) _ fun h => absurd h (by decide)).exit <|
    (clearBits_spec laws carries (by decide) (hl _ _ (by decide)) (by decide) _ fun h => absurd h (by decide)).exit <|
    (setBits_spec laws carries (by decide) (hl _ _ (by decide)) (by decide) _ fun h => absurd h (by decide)).exit <|
    setBits_spec laws carries (by decide) (hl _ _ (by decide)) (by decide) _ (by decide)

theorem releasePacket_spec (hl : LowerBanks may) (cfg : Conf) (nextLo nextHi : Byte) :
    Spec C (InBank C J 0) (releasePacket cfg ctx nextLo nextHi) (Idle C J agree)
      (Idle C J agree) :=
  Spec.toIdle <| (write_spec laws carries (hl _ _ (by decide)) rfl _).exit <|
    (write_spec laws carries (hl _ _ (by decide)) rfl _).exit <|
    (write_spec laws carries (hl _ _ (by decide)) rfl _).exit <|
    (write_spec laws carries (hl _ _ (by decide)) rfl _).exit <|
    setBits_spec laws carries (by decide) (hl _ _ (by decide)) (by decide) _ fun h => absurd h (by decide)

theorem readPacketBody_spec (hl : LowerBanks may) (cfg : Conf) (packetBuf : List Byte) (bufSize : Word)
    (optStatusVec : Option ReceiveStatusVector) (hdr : Fin 7 → Byte) :
    Bank C (InBank C J 0) (readPacketBody cfg ctx packetBuf bufSize optStatusVec hdr)
      (fun _ => Idle C J agree) (Idle C J agree) := by
  unfold readPacketBody
  simp only [bind_eq, pure_eq]
  split_ifs
  · exact Triple.ret fun _ h => h.idle
  · exact Triple.ret fun _ h => h.idle
  · exact packetBurst_spec laws carries fun packet =>
      Triple.bind (releasePacket_spec laws carries hl cfg _ _).either fun _ => Triple.ret fun _ h => h

theorem readPacketPending_spec (hl : LowerBanks may) (cfg : Conf) (packetBuf : List Byte) (bufSize : Word)
    (optStatusVec : Option ReceiveStatusVector) (val : Byte) :
    Bank C (Idle C J agree) (readPacketPending cfg ctx packetBuf bufSize optStatusVec val)
      (fun _ => Idle C J agree) (Idle C J agree) := by
  unfold readPacketPending
  simp only [bind_eq, pure_eq]
  refine Triple.bind (select_spec laws carries (by decide)) fun status =>
    onOk ?_ fun _ => Triple.ret fun _ h => h
  refine Triple.bind (read_inBank laws carries .erdptl rfl _) fun lo => ?_
  refine Triple.bind (read_inBank laws carries .erdpth rfl _) fun hi => ?_
  split_ifs
  · exact Triple.ret fun _ h => h.idle
  · exact statusBurst_spec laws carries fun hdr =>
      readPacketBody_spec laws carries hl cfg packetBuf bufSize optStatusVec hdr

theorem rxErrorRecovery_spec (hl : LowerBanks may) (cfg : Conf) :
    Spec C (Idle C J agree) (rxErrorRecovery cfg ctx) (Idle C J agree) (Idle C J agree) :=
  (select_spec laws carries (by decide)).exit <|
    (write_spec laws carries (hl _ _ (by decide)) rfl _).exit <|
    (write_spec laws carries (hl _ _ (by decide)) rfl _).exit <|
    (clearBits_spec laws carries (by decide) (hl _ _ (by decide)) (by decide) _ fun h => absurd h (by decide)).exit <|
    Spec.err (by decide) fun _ h => h.idle

theorem readPacket_spec (hl : LowerBanks may) (cfg : Conf) (packetBuf : List Byte) (bufSize : Word)
    (optStatusVec : Option ReceiveStatusVector) :
    Bank C (Idle C J agree) (enc28ReadPacket cfg ctx packetBuf bufSize optStatusVec)
      (fun _ => Idle C J agree) (Idle C J agree) := by
  unfold enc28ReadPacket
  simp only [bind_eq, pure_eq]
  refine Triple.bind (read_shared laws carries .eir rfl (by decide) 0) fun r => ?_
  split_ifs
  · exact readPacketPending_spec laws carries hl cfg packetBuf bufSize optStatusVec r.2
  · exact Triple.bind (rxErrorRecovery_spec laws carries hl cfg).either fun _ => Triple.ret fun _ h => h
  · exact Triple.ret fun _ h => h
  · exact Triple.ret fun _ h => h

/-- With TXRTS clear (`K`), an accepted packet starts one transmission (`J'`). -/
theorem transmitPacket_spec (hl : LowerBanks may) {J' : κ → Prop} (env' : EnvClosed C J')
    (start : ∀ c, J c → J' (C.setBits c 0x1F (bit econ1Txrts))) (cfg : Conf)
    (packetBuf : List Byte) (bufSize : Word) :
    Spec C (Idle C J agree) (transmitPacket cfg ctx packetBuf bufSize) (Idle C J' agree)
      (Idle C J agree) := by
  have last : Spec C (InBank C J 0) (enc28DoSetBitsCtlReg ctx .econ1 (bit econ1Txrts))
      (Idle C J' agree) (Idle C J agree) := by
    intro w hw
    refine wp_setBitsCtlReg (fun _ status hs => ends_err hs hw.idle)
      (fun _ _ => ⟨command_guard (fun h => absurd h (by decide)) opBfs [_], fun d hd => ?_⟩)
    refine ⟨rfl, env_keeps env' (start _ hw.2.1) hd, fun _ => ?_⟩
    change w.currBank = C.bsel d
    rw [env_bsel laws hd]
    exact (hw.2.2.1.trans hw.2.2.2.symm).trans (laws.set _ _ _ (by decide)).symm
  refine (select_spec laws carries (by decide)).exit <|
    (write_spec laws carries (hl _ _ (by decide)) rfl _).exit <|
    (write_spec laws carries (hl _ _ (by decide)) rfl _).exit <|
    (write_spec laws carries (hl _ _ (by decide)) rfl _).exit <|
    (write_spec laws carries (hl _ _ (by decide)) rfl _).exit <|
    writeBurst_spec laws carries ?_
  exact (write_spec laws carries (hl _ _ (by decide)) rfl _).exit <|
    (write_spec laws carries (hl _ _ (by decide)) rfl _).exit <|
    (clearBits_spec laws carries (by decide) (hl _ _ (by decide)) (by decide) _ fun h => absurd h (by decide)).exit <|
    (setBits_spec laws carries (by decide) (hl _ _ (by decide)) (by decide) _ (by decide)).exit <|
    (clearBits_spec laws carries (by decide) (hl _ _ (by decide)) (by decide) _ (by decide)).exit last

theorem readTransmitStatusVector_spec (hl : LowerBanks may) :
    Spec C (Idle C J agree) (readTransmitStatusVector ctx) (Idle C J agree) (Idle C J agree) := by
  have fails : ∀ r : CommandStatus × Byte, r.1 ≠ .ok →
      Spec C (InBank C J 0) (.ret r.1) (Idle C J agree) (Idle C J agree) :=
    fun r hr => Spec.err hr fun _ h => h.idle
  refine (select_spec laws carries (by decide)).exit ?_
  simp only [bind_eq, pure_eq]
  refine readThen (read_inBank laws carries .erdptl rfl 0) (fun lo => ?_) fun _ h => h.idle
  refine readThen (read_inBank laws carries .erdpth rfl 0) (fun hi => ?_) fun _ h => h.idle
  refine readThen (read_inBank laws carries .etxndl rfl 0) (fun endLo => ?_) fun _ h => h.idle
  refine readThen (read_inBank laws carries .etxndh rfl 0) (fun endHi => ?_) fun _ h => h.idle
  refine (write_spec laws carries (hl _ _ (by decide)) rfl _).exit <|
    (write_spec laws carries (hl _ _ (by decide)) rfl _).exit <|
    statusBurst_spec laws carries fun _ => ?_
  exact Spec.toIdle <| (write_spec laws carries (hl _ _ (by decide)) rfl _).exit <|
    write_spec laws carries (hl _ _ (by decide)) rfl _

theorem checkOutgoingPacketStatus_spec (hl : LowerBanks may) :
    Spec C (Idle C J agree) (enc28CheckOutgoingPacketStatus ctx) (Idle C J agree)
      (Idle C J agree) := by
  unfold enc28CheckOutgoingPacketStatus
  simp only [bind_eq, pure_eq]
  refine readThen (read_shared laws carries .eir rfl (by decide) 0) (fun r => ?_) fun _ h => h
  by_cases ht : r.2.getLsbD eirTxif = true
  · rw [if_pos ht]
    refine readThen (read_shared laws carries .estat rfl (by decide) _) (fun r => ?_) fun _ h => h
    refine (readTransmitStatusVector_spec laws carries hl).exit ?_
    split_ifs
    · exact Spec.err (by decide) fun _ h => h
    · exact Spec.ok fun _ h => h
  · rw [if_neg ht]
    exact Spec.err (by decide) fun _ h => h

theorem endPacketTransfer_spec (hl : LowerBanks may) :
    Spec C (Idle C J agree) (enc28EndPacketTransfer ctx) (Idle C J agree) (Idle C J agree) :=
  Spec.toIdle <| (select_spec laws carries (by decide)).exit <|
    clearBits_spec laws carries (by decide) (hl _ _ (by decide)) (by decide) _ (by decide)

end

/-- `J` before, `K` while TXRTS is known to be clear, `J'` after the start of a
transmission. -/
structure Phases {κ : Type} (C : ChipCore κ) (J K J' : κ → Prop) : Prop where
  before : Benign C J true
  during : Benign C K true
  after : Benign C J' true
  clear : ∀ c, J c → (C.econ1 c).getLsbD econ1Txrts = false → K (C.afterRead c 0x1F)
  weaken : ∀ c, K c → J c
  start : ∀ c, K c → J' (C.setBits c 0x1F (bit econ1Txrts))

/-- The same when only the registers in `may` are changed. -/
structure PhasesWithin {κ : Type} (C : ChipCore κ) (J K J' : κ → Prop) (may : Byte → Byte → Prop) :
    Prop where
  before : Carries C J may
  during : Carries C K may
  after : EnvClosed C J'
  clear : ∀ c, J c → (C.econ1 c).getLsbD econ1Txrts = false → K (C.afterRead c 0x1F)
  weaken : ∀ c, K c → J c
  start : ∀ c, K c → J' (C.setBits c 0x1F (bit econ1Txrts))

section
variable {κ : Type} {C : ChipCore κ} {J K J' : κ → Prop} {ctx : Option SpiContext} {agree : Bool}
  {may : Byte → Byte → Prop}

theorem Phases.within (h : Phases C J K J') : PhasesWithin C J K J' (mayChange true) :=
  ⟨h.before.carries, h.during.carries, h.after.env, h.clear, h.weaken, h.start⟩

theorem true_benign : Benign C (fun _ => True) true where
  env := fun _ _ _ _ => trivial
  afterRead := fun _ _ _ => trivial
  write := fun _ _ _ _ _ _ => trivial
  switch := fun _ _ _ _ _ _ => trivial
  set := fun _ _ _ _ _ _ => trivial
  clear := fun _ _ _ _ _ => trivial
  readBuf := fun _ _ => trivial
  writeBuf := fun _ _ _ => trivial

theorem true_phases : Phases C (fun _ => True) (fun _ => True) (fun _ => True) where
  before := true_benign
  during := true_benign
  after := true_benign
  clear := fun _ _ _ => trivial
  weaken := fun _ _ => trivial
  start := fun _ _ => trivial

theorem idle_mono (h : ∀ c, K c → J c) (w : World κ) (hw : Idle C K agree w) : Idle C J agree w :=
  ⟨hw.1, h _ hw.2.1, hw.2.2⟩

section
variable (laws : BankLaws C) (phases : PhasesWithin C J K J' may)
include laws phases

theorem writePacket_spec (hl : LowerBanks may) (cfg : Conf) (packetBuf : Option (List Byte)) (bufSize : Word) :
    Spec C (Idle C J agree) (enc28WritePacket cfg ctx packetBuf bufSize) (Idle C J' agree)
      (Idle C J agree) := by
  have refuse : ∀ status, status ≠ CommandStatus.ok →
      Spec C (Idle C J agree) (.ret status) (Idle C J' agree) (Idle C J agree) :=
    fun status hs => Spec.err hs fun _ h => h
  have send : ∀ packet, Spec C (Idle C K agree) (transmitPacket cfg ctx packet bufSize)
      (Idle C J' agree) (Idle C J agree) := fun packet =>
    (transmitPacket_spec laws phases.during hl phases.after phases.start cfg packet bufSize).conseq
      (fun _ h => h) (fun _ h => h) (idle_mono phases.weaken)
  match ctx, packetBuf with
  | none, _ => exact refuse _ (by decide)
  | some c, none => exact refuse _ (by decide)
  | some c, some packet =>
    unfold enc28WritePacket
    simp only [bind_eq, pure_eq]
    split_ifs
    · exact refuse _ (by decide)
    · intro w hw
      have hshared : dropsByte w .econ1 = dummyDue C w .econ1 := shared_agreed w rfl (by decide)
      refine (wp_bind _ _ _ w).2 (wp_readCtlReg (fun _ status hs => ?_) (fun _ _ => ⟨?_, fun d hd => ?_⟩))
      · simp only [andThen_some, hs, if_false]
        exact ends_err hs hw
      · exact read_guard (fun h => absurd h (by decide)) hshared
      · rw [chipAfterRead_agreed C w .econ1 hshared] at hd
        have hidle := hw.step laws phases.before.env (phases.before.afterRead _ _ hw.2.1)
          (afterRead_bsel laws _ _) hd
        have hv : readValue C w .econ1 = C.econ1 w.chip :=
          (readValue_agreed C w .econ1 hshared).trans (laws.read w.chip)
        simp only [andThen_some, hv, if_true]
        by_cases ht : (C.econ1 w.chip).getLsbD econ1Txrts = true
        · rw [if_pos ht]
          exact refuse _ (by decide) _ hidle
        · rw [if_neg ht]
          have hk := env_keeps phases.during.env
            (phases.clear _ hw.2.1 (Bool.eq_false_iff.mpr ht)) hd
          exact send packet _ ⟨rfl, hk, hidle.2.2⟩

/-- The call is an `enc28_write_packet` that returned ENC28_OK. -/
def acceptsPacket : DriverOp → CommandStatus → Bool
  | .writePacket _ _, .ok => true
  | _, _ => false

/-- What is known of the chip after a public call that returned `status`. -/
def afterCall (J J' : κ → Prop) (op : DriverOp) (status : CommandStatus) : κ → Prop :=
  if acceptsPacket op status then J' else J

/-- The operations that name their registers themselves, soft reset apart. -/
def namesRegisters : DriverOp → Bool
  | .softReset | .readCtlReg _ _ | .writeCtlReg _ _ | .setBitsCtlReg _ _ | .clearBitsCtlReg _ _ =>
    false
  | _ => true

/-- Only the initialization changes registers of bank 3. -/
theorem call_within (hl : LowerBanks may) (cfg : Conf) (c : DriverCall)
    (hop : namesRegisters c.op = true) (hinit : ∀ macAdd, c.op = .init macAdd → UpperBanks may) :
    Bank C (Idle C J agree) (c.prog cfg)
      (fun r => Idle C (afterCall J J' c.op r.1) agree) (Idle C J agree) := by
  obtain ⟨ctx, rounds, op⟩ := c
  have carries := phases.before
  cases op with
  | softReset | readCtlReg | writeCtlReg | setBitsCtlReg | clearBitsCtlReg => cases hop
  | init macAdd =>
    exact Triple.bind (init_spec laws carries hl (hinit macAdd rfl) cfg rounds macAdd).either
      fun _ => Triple.ret fun _ h => h
  | readHwRev hwRev =>
    exact Triple.bind (readHwRev_spec laws carries hl.mii rounds hwRev) fun _ => Triple.ret fun _ h => h
  | readMac mac =>
    exact Triple.bind (readMac_spec laws carries mac) fun _ => Triple.ret fun _ h => h
  | readPhyRegister regId regValue =>
    exact Triple.bind (phyIdle_spec laws carries hl.mii rounds regId regValue) fun _ =>
      Triple.ret fun _ h => h
  | selectRegisterBank bankId =>
    exact Triple.bind (select_idle laws carries bankId).either fun _ => Triple.ret fun _ h => h
  | beginPacketTransfer =>
    exact Triple.bind (beginPacketTransfer_spec laws carries hl cfg).either fun _ =>
      Triple.ret fun _ h => h
  | readPacket packetBuf bufSize optStatusVec =>
    exact Triple.bind (readPacket_spec laws carries hl cfg packetBuf bufSize optStatusVec) fun _ =>
      Triple.ret fun _ h => h
  | writePacket packetBuf bufSize =>
    refine Triple.bind (writePacket_spec laws phases hl cfg packetBuf bufSize) fun status => ?_
    cases status <;> exact Triple.ret fun _ h => h
  | checkOutgoingPacketStatus =>
    exact Triple.bind (checkOutgoingPacketStatus_spec laws carries hl).either fun _ =>
      Triple.ret fun _ h => h
  | endPacketTransfer =>
    exact Triple.bind (endPacketTransfer_spec laws carries hl).either fun _ => Triple.ret fun _ h => h

end

theorem call_spec (laws : BankLaws C) (phases : Phases C J K J') (cfg : Conf) (c : DriverCall)
    (hop : namesRegisters c.op = true) :
    Bank C (Idle C J agree) (c.prog cfg)
      (fun r => Idle C (afterCall J J' c.op r.1) agree) (Idle C J agree) :=
  call_within laws phases.within mayChange_lower cfg c hop fun _ _ => mayChange_upper true

end

end Stm32NetworkStack.DriverBanks
