import Stm32NetworkStack.BankSafety
import Stm32NetworkStack.DriverCommands

set_option autoImplicit false

/-!
# Where the bit field commands go

BFS and BFC are made for the ETH registers. All operations keep to that, except
that the MAC initialization sets bits of MACON1, MACON3 and MACON4.
-/
namespace Stm32NetworkStack.BitFieldSafety
open InteractivePrograms Enc28Registers Enc28Driver DriverCommands SpiBus BankDiscipline DriverBanks
open BankSafety RegisterReads Relation

section
variable {κ : Type} (C : ChipCore κ)

/-- A BFS or BFC command goes to no MAC or MII register of the bank selected in the chip. -/
def BitsOnEth (x : Call × World κ) : Prop :=
  ∀ cmd, commandSent x = some cmd → cmd >>> spiArgBits = opBfs ∨ cmd >>> spiArgBits = opBfc →
    privEnc28IsMacOrMiiReg (C.bsel x.2.chip) (cmd &&& spiArgMask) = false

def initializes (c : DriverCall) : Bool :=
  match c.op with
  | .init _ => canWrite c.ctx
  | _ => false

/-- The values that the chip answers the reads of ESTAT with. -/
def estatValues (t : List (Call × World κ)) : List Byte :=
  (t.filter fun x => commandSent x == some (commandByte opRcr CtlReg.estat.id)).map
    fun x => C.readReg x.2.chip CtlReg.estat.addr

/-- CLKRDY is set in an ESTAT that the polling loop, followed for this many rounds, looks at. -/
def ClockFound (rounds : ℕ) (t : List (Call × World κ)) : Prop :=
  ∃ b ∈ (estatValues C t).take rounds, b.getLsbD estatClkrdy = true

end

theorem bits_shared {op : DriverOp} (hop : namesRegisters op = true)
    (hinit : ∀ macAdd, op ≠ .init macAdd) :
    ∀ reg ∈ (commandsOf op).bits, 0x1B ≤ reg.addr.toNat := by
  cases op with
  | init macAdd => exact absurd rfl (hinit macAdd)
  | softReset | readCtlReg | writeCtlReg | setBitsCtlReg | clearBitsCtlReg => cases hop
  | readHwRev | readMac | readPhyRegister | selectRegisterBank | checkOutgoingPacketStatus =>
    exact fun reg hr => absurd hr List.not_mem_nil
  | beginPacketTransfer | readPacket | writePacket | endPacketTransfer =>
    intro reg hr
    simp only [commandsOf, receiveCommands, transmitCommands, List.mem_cons, List.not_mem_nil,
      or_false] at hr
    rcases hr with rfl | rfl | rfl | rfl <;> decide

section
variable {κ : Type} {C : ChipCore κ} {ctx : Option SpiContext}

theorem init_blocked (hc : canWrite ctx = false) (cfg : Conf) (rounds : ℕ) (macAdd : MacAddress) :
    Sends ⟨[.econ1], [.econ1], [], false, false⟩ (enc28DoInit cfg rounds macAdd ctx) := by
  obtain ⟨status, hs, he⟩ : ∃ status, status ≠ .ok ∧
      enc28DoWriteCtlReg ctx .erxstl (lowByte cfg.rxAddressStart) = .ret status :=
    writeCtlReg_fails _ (Or.inl hc)
  have hinit : enc28DoInit cfg rounds macAdd ctx =
      (enc28SelectRegisterBank ctx 0).bind fun _ => .ret status := by
    unfold enc28DoInit privEnc28DoBufferRegisterInit exitIfErr
    simp only [he, bind_eq, ret_bind, pure_eq, if_neg hs, bind_assoc]
  rw [hinit]
  exact sends_seq (sends_select (by decide) (by decide) _) fun _ => sends_ret _

section
variable {α : Type} {K : Commands} {p : Driver α} {w v : World κ} {t : List (Call × World κ)} {o : Option α}

theorem sends_on_eth (hp : Sends K p) (hK : ∀ reg ∈ K.bits, 0x1B ≤ reg.addr.toNat)
    (run : Exec (busMachine C) p w t o v) (hg : ∀ x ∈ t, (bankGuard C).holds x.1 x.2) :
    ∀ x ∈ t, BitsOnEth C x := by
  intro x hx cmd hcmd hbits
  have hmem : cmd >>> spiArgBits ∈ [opRcr, opWcr, opBfs, opBfc] := by
    rcases hbits with h | h <;> simp [h]
  obtain ⟨reg, ha, -, -, -, hreg⟩ := command_of_permits (hp.permitted run x hx) (hg x hx) hcmd hmem
  rw [ha]
  exact isMacOrMii_shared _ _ (hK reg (hreg hbits))

theorem estatValues_append (t₁ t₂ : List (Call × World κ)) :
    estatValues C (t₁ ++ t₂) = estatValues C t₁ ++ estatValues C t₂ := by
  simp only [estatValues, List.filter_append, List.map_append]

theorem estatValues_nil (hp : Sends K p) (hK : ∀ reg ∈ K.reads, reg.addr ≠ CtlReg.estat.addr)
    (run : Exec (busMachine C) p w t o v) (hg : ∀ x ∈ t, (bankGuard C).holds x.1 x.2) :
    estatValues C t = [] := by
  refine List.map_eq_nil_iff.mpr (List.filter_eq_nil_iff.mpr fun x hx hcmd => ?_)
  obtain ⟨reg, ha, -, hreg, -⟩ := command_of_permits (hp.permitted run x hx) (hg x hx) (eq_of_beq hcmd)
    (by decide)
  exact hK reg (hreg (by decide)) (ha.symm.trans (by decide))

end

theorem readEstat_finds (hc : canRead ctx = true) {old : Byte} {w u : World κ} {t : List (Call × World κ)}
    {o : Option (CommandStatus × Byte)}
    (run : Exec (busMachine C) (enc28DoReadCtlReg ctx .estat (some old)) w t o u)
    (hg : ∀ x ∈ t, (bankGuard C).holds x.1 x.2) : ∃ b, o = some (.ok, b) ∧ estatValues C t = [b] := by
  have heq : enc28DoReadCtlReg ctx .estat (some old) = readTransaction .estat (commandByte opRcr CtlReg.estat.id) :=
    readCtlReg_eq old hc (by decide)
  rcases readCtlReg_result run hg with ho | ⟨r, -, hret⟩
  · rw [heq] at run
    obtain ⟨x, rfl⟩ := readTransaction_trace run
    exact ⟨_, ho, rfl⟩
  · rw [heq] at hret
    cases hret

theorem pollEstatClk_finds (hc : canRead ctx = true) {rounds : ℕ} {b : Byte} {w v : World κ}
    {t : List (Call × World κ)} {o : Option CommandStatus}
    (run : Exec (busMachine C) (pollEstatClk ctx rounds .ok b) w t o v)
    (hg : ∀ x ∈ t, (bankGuard C).holds x.1 x.2) :
    o = none ∧ (∀ x ∈ (b :: estatValues C t).take rounds, x.getLsbD estatClkrdy = false) ∨
      o = some .ok ∧ ∃ x ∈ (b :: estatValues C t).take rounds, x.getLsbD estatClkrdy = true := by
  induction rounds generalizing b w t with
  | zero =>
    cases run
    exact Or.inl ⟨rfl, fun x hx => absurd hx List.not_mem_nil⟩
  | succ rounds ih =>
    rw [List.take_succ_cons]
    unfold pollEstatClk at run
    cases hb : b.getLsbD estatClkrdy with
    | true =>
      simp only [hb, if_true, pure_eq] at run
      cases run
      exact Or.inr ⟨rfl, b, List.mem_cons_self, hb⟩
    | false =>
      simp only [if_true, hb, Bool.false_eq_true, if_false, bind_eq] at run
      rcases run.split with ⟨-, hcut⟩ | ⟨r, u, t₁, t₂, hread, hrest, rfl⟩
      · obtain ⟨_, ho, -⟩ := readEstat_finds hc hcut hg
        cases ho
      · obtain ⟨b', ho, hvalues⟩ := readEstat_finds hc hread fun x hx => hg x (List.mem_append_left _ hx)
        obtain rfl := Option.some.inj ho
        rw [estatValues_append, hvalues]
        rcases ih hrest fun x hx => hg x (List.mem_append_right _ hx) with ⟨hcut, hnone⟩ | ⟨hend, x, hx, hset⟩
        · exact Or.inl ⟨hcut, List.forall_mem_cons.mpr ⟨hb, hnone⟩⟩
        · exact Or.inr ⟨hend, x, List.mem_cons_of_mem _ hx, hset⟩

theorem doPollEstatClk_finds (hc : canRead ctx = true) {rounds : ℕ} {w v : World κ}
    {t : List (Call × World κ)} {o : Option CommandStatus}
    (run : Exec (busMachine C) (privEnc28DoPollEstatClk rounds ctx) w t o v)
    (hg : ∀ x ∈ t, (bankGuard C).holds x.1 x.2) :
    o = none ∧ ¬ ClockFound C rounds t ∨ o = some .ok ∧ ClockFound C rounds t := by
  rcases run.split with ⟨-, hcut⟩ | ⟨r, u, t₁, t₂, hread, hrest, rfl⟩
  · obtain ⟨_, ho, -⟩ := readEstat_finds hc hcut hg
    cases ho
  · obtain ⟨b, ho, hvalues⟩ := readEstat_finds hc hread fun x hx => hg x (List.mem_append_left _ hx)
    obtain rfl := Option.some.inj ho
    unfold ClockFound
    rw [estatValues_append, hvalues]
    rcases pollEstatClk_finds hc hrest fun x hx => hg x (List.mem_append_right _ hx) with ⟨hcut, hnone⟩ | hset
    · refine Or.inl ⟨hcut, ?_⟩
      rintro ⟨x, hx, hset⟩
      exact absurd (hset.symm.trans (hnone x hx)) (by decide)
    · exact Or.inr hset

def Quiet (C : ChipCore κ) (t : List (Call × World κ)) : Prop :=
  estatValues C t = [] ∧ ∀ x ∈ t, BitsOnEth C x

theorem Quiet.append {t₁ t₂ : List (Call × World κ)} (h₁ : Quiet C t₁) (h₂ : Quiet C t₂) :
    Quiet C (t₁ ++ t₂) := by
  refine ⟨?_, List.forall_mem_append.mpr ⟨h₁.2, h₂.2⟩⟩
  rw [estatValues_append, h₁.1, h₂.1, List.nil_append]

theorem Quiet.clockFound {t₁ : List (Call × World κ)} (h : Quiet C t₁) (rounds : ℕ)
    (t₂ : List (Call × World κ)) : ClockFound C rounds (t₁ ++ t₂) ↔ ClockFound C rounds t₂ := by
  unfold ClockFound
  rw [estatValues_append, h.1, List.nil_append]

theorem ClockFound.append {rounds : ℕ} {t₁ : List (Call × World κ)} (h : ClockFound C rounds t₁)
    (t₂ : List (Call × World κ)) : ClockFound C rounds (t₁ ++ t₂) := by
  obtain ⟨b, hb, hset⟩ := h
  refine ⟨b, ?_, hset⟩
  rw [estatValues_append, List.take_append]
  exact List.mem_append_left _ hb

theorem Quiet.not_found {t : List (Call × World κ)} (h : Quiet C t) (rounds : ℕ) :
    ¬ ClockFound C rounds t := by
  rintro ⟨b, hb, -⟩
  rw [h.1, List.take_nil] at hb
  exact absurd hb List.not_mem_nil

/-- A part of `enc28_do_init` before the poll is cut off, or the next part runs. -/
theorem setup_runs {p k : Driver CommandStatus} {w v : World κ} {t : List (Call × World κ)}
    {o : Option CommandStatus} (hp : Sends setupCommands p) (hok : p.Returns (· = .ok))
    (spec : Spec C (Idle C (fun _ => True) false) p (Idle C (fun _ => True) false)
      (Idle C (fun _ => True) false))
    (hw : Idle C (fun _ => True) false w) (run : Exec (busMachine C) (exitIfErr p k) w t o v) :
    o = none ∧ Quiet C t ∨ ∃ u t₁ t₂, Idle C (fun _ => True) false u ∧ Quiet C t₁ ∧
      Exec (busMachine C) k u t₂ o v ∧ t = t₁ ++ t₂ := by
  have quiet : ∀ {t : List (Call × World κ)} {o : Option CommandStatus} {u : World κ},
      Exec (busMachine C) p w t o u → Quiet C t := by
    intro t o u run
    have hg := (Triple.sound spec hw run).1
    exact ⟨estatValues_nil hp (by decide) run hg, sends_on_eth hp (by decide) run hg⟩
  rcases exit_split hok run with ⟨ho, hcut⟩ | ⟨u, t₁, t₂, run₁, rest, rfl⟩
  · exact Or.inl ⟨ho, quiet hcut⟩
  · exact Or.inr ⟨u, t₁, t₂, (Triple.sound spec hw run₁).2, quiet run₁, rest, rfl⟩

variable (laws : BankLaws C)
include laws

theorem call_on_eth (cfg : Conf) {c : DriverCall} (hop : namesRegisters c.op = true)
    (hinit : initializes c = false) {w v : World κ} {t : List (Call × World κ)}
    {o : Option (CommandStatus × DriverOutput)} (idle : w.phase = .high)
    (run : Exec (busMachine C) (c.prog cfg) w t o v) : ∀ x ∈ t, BitsOnEth C x := by
  have hguard := notRaw_guarded laws cfg (notRaw_of_names hop) idle run
  obtain ⟨ctx, rounds, op⟩ := c
  by_cases hi : ∃ macAdd, op = .init macAdd
  · obtain ⟨macAdd, rfl⟩ := hi
    exact sends_on_eth (sends_seq (init_blocked hinit cfg rounds macAdd) fun _ => sends_ret _)
      (fun reg hr => absurd hr List.not_mem_nil) run hguard
  · exact sends_on_eth (call_sends cfg (DriverCall.mk ctx rounds op))
      (bits_shared hop fun macAdd h => hi ⟨macAdd, h⟩) run hguard

theorem macInit_sets_macon1 (cfg : Conf) (hc : canWrite ctx = true) {rounds : ℕ} {macAdd : MacAddress}
    {w v : World κ} {t : List (Call × World κ)} {o : Option CommandStatus}
    (hw : Idle C (fun _ => True) false w)
    (run : Exec (busMachine C) (privEnc28DoMacInit cfg rounds macAdd ctx) w t o v) :
    ∃ x ∈ t, ¬ BitsOnEth C x := by
  have hselect : Spec C (Idle C (fun _ => True) false) (enc28SelectRegisterBank ctx 2)
      (InBank C (fun _ => True) 2) fun _ => False :=
    Spec.sure hc (select_or_blocked laws true_benign.carries (by decide))
  obtain ⟨w₁, t₁, t₂, hw₁, rest, rfl⟩ := hselect.exit_runs hw run
  have heq : enc28DoSetBitsCtlReg ctx .macon1 macon1Mask =
      bitsTransaction .macon1 (word (commandByte opBfs CtlReg.macon1.id) macon1Mask) :=
    bitsCtlReg_eq opBfs _ (canRead_of_canWrite hc) (by decide)
  rw [heq, bitsTransaction, word_high, word_low] at rest
  obtain ⟨_, w₂, t₃, hlow, rest₃, rfl⟩ := rest.of_call
  obtain ⟨_, w₃, t₄, -, -, rfl⟩ := rest₃.of_call
  obtain rfl : w₂ = { w₁ with phase := .opcode } := hlow
  refine ⟨_, List.mem_append_right _ (List.mem_cons_of_mem _ List.mem_cons_self), fun h => ?_⟩
  have heth := h (commandByte opBfs CtlReg.macon1.id) rfl (Or.inl (by decide))
  change privEnc28IsMacOrMiiReg (C.bsel w₁.chip) _ = false at heth
  rw [hw₁.2.2.2] at heth
  exact absurd heth (by decide)

/-- The poll is cut off, or it has found the clock and the MAC initialization begins. -/
theorem poll_sets_macon1 (cfg : Conf) (hc : canWrite ctx = true) {rounds : ℕ} {macAdd : MacAddress}
    {k : Driver CommandStatus} {w v : World κ} {t : List (Call × World κ)} {o : Option CommandStatus}
    (hw : Idle C (fun _ => True) false w)
    (run : Exec (busMachine C) (exitIfErr (privEnc28DoPollEstatClk rounds ctx)
      (exitIfErr (privEnc28DoMacInit cfg rounds macAdd ctx) k)) w t o v) :
    o = none ∧ ¬ ClockFound C rounds t ∧ (∀ x ∈ t, BitsOnEth C x) ∨
      ClockFound C rounds t ∧ ∃ x ∈ t, ¬ BitsOnEth C x := by
  have hr : canRead ctx = true := canRead_of_canWrite hc
  have spec : Spec C (Idle C (fun _ => True) false) (privEnc28DoPollEstatClk rounds ctx)
      (Idle C (fun _ => True) false) (Idle C (fun _ => True) false) :=
    doPollEstatClk_spec laws true_benign.carries rounds
  have hmac : ∀ {u v : World κ} {t : List (Call × World κ)} {o : Option CommandStatus},
      Idle C (fun _ => True) false u →
      Exec (busMachine C) (exitIfErr (privEnc28DoMacInit cfg rounds macAdd ctx) k) u t o v →
      ∃ x ∈ t, ¬ BitsOnEth C x := by
    intro u v t o hu run
    rcases run.split with ⟨-, hcut⟩ | ⟨_, _, t₁, t₂, run₁, -, rfl⟩
    · exact macInit_sets_macon1 laws cfg hc hu hcut
    · obtain ⟨x, hx, hbad⟩ := macInit_sets_macon1 laws cfg hc hu run₁
      exact ⟨x, List.mem_append_left _ hx, hbad⟩
  have heth : Sends ⟨[.estat], [], [], false, false⟩ (privEnc28DoPollEstatClk rounds ctx) :=
    sends_doPollEstatClk List.mem_cons_self rounds
  rcases exit_split (doPollEstatClk_ok rounds) run with ⟨ho, hcut⟩ | ⟨u, t₁, t₂, run₁, rest, rfl⟩
  · have hg := (Triple.sound spec hw hcut).1
    rcases doPollEstatClk_finds hr hcut hg with ⟨-, hnot⟩ | ⟨hend, -⟩
    · exact Or.inl ⟨ho, hnot, sends_on_eth heth (fun reg h => absurd h List.not_mem_nil) hcut hg⟩
    · cases hend
  · obtain ⟨hg, hu⟩ := Triple.sound spec hw run₁
    rcases doPollEstatClk_finds hr run₁ hg with ⟨ho, -⟩ | ⟨-, hfound⟩
    · cases ho
    · obtain ⟨x, hx, hbad⟩ := hmac hu rest
      exact Or.inr ⟨hfound.append t₂, x, List.mem_append_right _ hx, hbad⟩

/-- An `enc28_do_init` that finds the clock ready sets bits of MACON1; one that does
not is cut off in its polling loop and sets none. -/
theorem init_sets_macon1 (cfg : Conf) (hc : canWrite ctx = true) {rounds : ℕ} {macAdd : MacAddress}
    {w v : World κ} {t : List (Call × World κ)} {o : Option CommandStatus} (idle : w.phase = .high)
    (run : Exec (busMachine C) (enc28DoInit cfg rounds macAdd ctx) w t o v) :
    o = none ∧ ¬ ClockFound C rounds t ∧ (∀ x ∈ t, BitsOnEth C x) ∨
      ClockFound C rounds t ∧ ∃ x ∈ t, ¬ BitsOnEth C x := by
  have hw : Idle C (fun _ => True) false w := Idle.unbanked idle trivial
  rcases setup_runs (sends_bufferRegisterInit cfg) (bufferRegisterInit_ok hc cfg)
      (bufferRegisterInit_spec laws true_benign.carries mayChange_lower cfg) hw run with
    ⟨ho, hquiet⟩ | ⟨w₁, t₁, s₁, hw₁, hquiet₁, rest₁, rfl⟩
  · exact Or.inl ⟨ho, hquiet.not_found rounds, hquiet.2⟩
  rcases setup_runs (sends_receiveFilterInit cfg) (receiveFilterInit_ok hc cfg)
      (receiveFilterInit_spec laws true_benign.carries (mayChange_upper true) cfg) hw₁ rest₁ with
    ⟨ho, hquiet⟩ | ⟨w₂, t₂, s₂, hw₂, hquiet₂, rest₂, rfl⟩
  · have hall := hquiet₁.append hquiet
    exact Or.inl ⟨ho, hall.not_found rounds, hall.2⟩
  have hquiet := hquiet₁.append hquiet₂
  rw [← List.append_assoc, hquiet.clockFound]
  rcases poll_sets_macon1 laws cfg hc hw₂ rest₂ with ⟨ho, hnot, heth⟩ | ⟨hfound, x, hx, hbad⟩
  · exact Or.inl ⟨ho, hnot, List.forall_mem_append.mpr ⟨hquiet.2, heth⟩⟩
  · exact Or.inr ⟨hfound, x, List.mem_append_right _ hx, hbad⟩

theorem init_on_eth_iff (cfg : Conf) {c : DriverCall} (hop : initializes c = true) {w v : World κ}
    {t : List (Call × World κ)} {o : Option (CommandStatus × DriverOutput)} (idle : w.phase = .high)
    (run : Exec (busMachine C) (c.prog cfg) w t o v) :
    ((∀ x ∈ t, BitsOnEth C x) ↔ ¬ ClockFound C c.rounds t) ∧
      (o ≠ none → ∃ x ∈ t, ¬ BitsOnEth C x) := by
  obtain ⟨ctx, rounds, op⟩ := c
  cases op with
  | init macAdd =>
    obtain ⟨o', hinit, ho⟩ : ∃ o', Exec (busMachine C) (enc28DoInit cfg rounds macAdd ctx) w t o' v ∧
        (o ≠ none → o' ≠ none) := by
      rcases run.split with ⟨rfl, hcut⟩ | ⟨status, u, t₁, t₂, hinit, hret, rfl⟩
      · exact ⟨none, hcut, fun h => absurd rfl h⟩
      · cases hret
        exact ⟨some status, by simpa using hinit, fun _ => Option.some_ne_none _⟩
    rcases init_sets_macon1 laws cfg hop idle hinit with ⟨hnone, hnot, heth⟩ | ⟨hfound, x, hx, hbad⟩
    · exact ⟨iff_of_true heth hnot, fun h => absurd hnone (ho h)⟩
    · exact ⟨iff_of_false (fun h => hbad (h x hx)) (not_not_intro hfound), fun _ => ⟨x, hx, hbad⟩⟩
  | _ => cases hop

/-- In a session of the driver's operations, and in a further call of one, returned or
not, BFS and BFC keep to the ETH registers exactly when no `enc28_do_init` that finds its
callbacks returns, and the further call is none that finds CLKRDY set. -/
theorem bit_commands_on_eth_iff (cfg : Conf) {w u v : World κ} {rs : List (CallOf κ)}
    (idle : w.phase = .high) (s : Session (busMachine C) (DriverCall.prog cfg) w rs u)
    (hops : ∀ r ∈ rs, namesRegisters r.op.op = true) {c : DriverCall} (hop : namesRegisters c.op = true)
    {t : List (Call × World κ)} {o : Option (CommandStatus × DriverOutput)}
    (run : Exec (busMachine C) (c.prog cfg) u t o v) :
    ((∀ r ∈ rs, ∀ x ∈ r.trace, BitsOnEth C x) ∧ ∀ x ∈ t, BitsOnEth C x) ↔
      (∀ r ∈ rs, initializes r.op = false) ∧ (initializes c = true → ¬ ClockFound C c.rounds t) := by
  let I : World κ → Prop := fun w => w.phase = .high
  have hcalls : ∀ r : CallOf κ, namesRegisters r.op.op = true → I r.before →
      Exec (busMachine C) (DriverCall.prog cfg r.op) r.before r.trace (some r.result) r.after →
      ((∀ x ∈ r.trace, BitsOnEth C x) ↔ initializes r.op = false) ∧ (initializes r.op = false → I r.after) := by
    intro r hop hi run
    refine ⟨⟨fun hall => ?_, fun hnot => call_on_eth laws cfg hop hnot hi run⟩,
      fun _ => notRaw_idle laws cfg (notRaw_of_names hop) hi run⟩
    refine Bool.eq_false_iff.mpr fun hinit => ?_
    obtain ⟨x, hx, hbad⟩ := (init_on_eth_iff laws cfg hinit hi run).2 (Option.some_ne_none _)
    exact hbad (hall x hx)
  have hu : I u := (s.all (P := fun _ => True) hops idle fun r hop hi run =>
    ⟨trivial, notRaw_idle laws cfg (notRaw_of_names hop) hi run⟩).2
  refine and_congr (s.forall_iff hops idle hcalls).1 ?_
  cases hinit : initializes c with
  | true => simpa using (init_on_eth_iff laws cfg hinit hu run).1
  | false => simpa using call_on_eth laws cfg hop hinit hu run

end

open TransmitLogic TransmitCounting in
/-- A packet is sent, then an initialization waits for a clock that is never ready. -/
theorem bit_commands_on_eth_waiting :
    let last : DriverCall := ⟨some fullContext, 2, .init ⟨fun _ => 0⟩⟩
    ∃ rs u t v, Session (busMachine txCore) (DriverCall.prog {}) resetWorld rs u ∧
      rs.countP accepted = 1 ∧ Exec (busMachine txCore) (last.prog {}) u t none v ∧
      estatValues txCore t = [0, 0, 0] ∧
      (∀ r ∈ rs, ∀ x ∈ r.trace, BitsOnEth txCore x) ∧ ∀ x ∈ t, BitsOnEth txCore x := by
  intro last
  let f : List (CallOf TxChip) × World TxChip → Bool × ℕ × List Byte := fun x =>
    ((x.1.all fun r => namesRegisters r.op.op && !initializes r.op) &&
        ((last.prog {}).run (busDevice txCore id) x.2).1.isNone,
      x.1.countP accepted, estatValues txCore ((last.prog {}).calls (busDevice txCore id) x.2))
  have hrun : (runCalls (DriverCall.prog {}) sendCalls resetWorld).map f =
      some (true, 1, [0, 0, 0]) := by
    decide +kernel
  obtain ⟨rs, u, hs, hv⟩ := runCalls_shows
    (fun x hx => racedCalls_steps x (List.mem_append_left _ hx)) hrun
  simp only [f, Prod.mk.injEq, Bool.and_eq_true, List.all_eq_true, Bool.not_eq_true',
    Option.isNone_iff_eq_none] at hv
  obtain ⟨⟨hops, hcut⟩, hn, hvalues⟩ := hv
  have hlast := run_calls (busDevice_step txCore (f := id) fun _ => ReflTransGen.refl) (last.prog {}) u
  rw [hcut] at hlast
  refine ⟨rs, u, _, _, hs, hn, hlast, hvalues, (bit_commands_on_eth_iff tx_laws {} rfl hs
    (fun r hr => (hops r hr).1) rfl hlast).2 ⟨fun r hr => (hops r hr).2, fun _ => ?_⟩⟩
  rintro ⟨b, hb, hset⟩
  rw [hvalues] at hb
  simp only [last, List.take_succ_cons, List.take_zero, List.mem_cons, List.not_mem_nil, or_false,
    or_self] at hb
  subst hb
  exact absurd hset (by decide)

open TransmitLogic TransmitCounting in
theorem bit_commands_on_eth_fails :
    ¬ ∀ (w v : World TxChip) (rs : List (CallOf TxChip)), w.phase = .high →
      Session (busMachine txCore) (DriverCall.prog {}) w rs v →
      (∀ r ∈ rs, namesRegisters r.op.op = true) → ∀ r ∈ rs, ∀ x ∈ r.trace, BitsOnEth txCore x := by
  intro h
  let clockReady : World TxChip :=
    ⟨{ resetChip with regs := fun p => if p.2 = CtlReg.estat.addr then bit estatClkrdy else 0 }, .high, 0⟩
  let initCall : DriverCall := ⟨some fullContext, 1, .init ⟨fun _ => 0⟩⟩
  obtain ⟨t, run⟩ := run_exec (busDevice_step txCore (f := id) fun _ => ReflTransGen.refl)
    (initCall.prog {}) clockReady
  have hok : ((initCall.prog {}).run (busDevice txCore id) clockReady).1.map Prod.fst = some .ok := by
    decide +kernel
  obtain ⟨a, ha, -⟩ := Option.map_eq_some_iff.mp hok
  rw [ha] at run
  have hs : Session (busMachine txCore) (DriverCall.prog {}) clockReady _ _ := Session.nil.snoc run
  obtain ⟨x, hx, hbad⟩ := (init_on_eth_iff tx_laws {} rfl rfl run).2 (Option.some_ne_none _)
  refine hbad (h _ _ _ rfl hs (fun r hr => ?_) _ (List.mem_append_right _ List.mem_cons_self) x hx)
  obtain rfl := List.mem_singleton.mp hr
  rfl

end Stm32NetworkStack.BitFieldSafety
