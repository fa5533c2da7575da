import Stm32NetworkStack.TransmitRegion

set_option autoImplicit false

/-!
# Where the transmit status is read

`enc28_check_outgoing_packet_status` moves ERDPT behind ETXND, reads the status
vector there and puts ERDPT back. Of the end address it keeps the low byte only.
-/
namespace Stm32NetworkStack.StatusVector
open InteractivePrograms Enc28Registers Enc28Driver DriverCommands SpiBus BankDiscipline DriverBanks
open ReceiveLogic ReceiveStream ReceivePackets TransmitArea ReceiveSessions TransmitSafety TransmitRegion
open Relation

/-- The call is part of an access to a register. -/
def accessesRegister : Call → Prop
  | .spiOutOp reg buff => ∃ r op data, reg = some r ∧ buff = commandByte op r.id :: data ∧
      op ∈ [opRcr, opWcr, opBfs, opBfc]
  | .spiInOutOp _ _ => False
  | _ => True

section
variable {ctx : Option SpiContext} {reg : CtlReg}

theorem readCtlReg_accesses (old : Byte) :
    (enc28DoReadCtlReg ctx reg (some old)).Issues accessesRegister := by
  by_cases hf : canRead ctx = false ∨ reg.id = 0x1A
  · obtain ⟨status, -, he⟩ := readCtlReg_fails old hf
    rw [he]
    exact trivial
  · simp only [not_or, Bool.not_eq_false] at hf
    rw [readCtlReg_eq old hf.1 hf.2]
    refine ⟨trivial, fun bank => ⟨trivial, fun _ => ⟨⟨reg, opRcr, [], rfl, rfl, by decide⟩, fun _ => ?_⟩⟩⟩
    change Prog.Issues _ (if privEnc28IsMacOrMiiReg bank reg.id = true then _ else _)
    split_ifs
    · exact ⟨trivial, fun _ => ⟨trivial, fun _ => trivial⟩⟩
    · exact ⟨trivial, fun _ => ⟨trivial, fun _ => trivial⟩⟩

theorem writeCtlReg_accesses (value : Byte) :
    (enc28DoWriteCtlReg ctx reg value).Issues accessesRegister := by
  by_cases hf : canWrite ctx = false ∨ reg.id = 0x1A
  · obtain ⟨status, -, he⟩ := writeCtlReg_fails value hf
    rw [he]
    exact trivial
  · simp only [not_or, Bool.not_eq_false] at hf
    rw [writeCtlReg_eq value hf.1 hf.2, writeTransaction, word_high, word_low]
    exact ⟨trivial, fun _ => ⟨trivial, fun _ => ⟨⟨reg, opWcr, [value], rfl, rfl, by decide⟩, fun _ =>
      ⟨trivial, fun _ => ⟨trivial, fun _ => trivial⟩⟩⟩⟩⟩

theorem exit_accesses {p k : Driver CommandStatus} (hp : p.Issues accessesRegister)
    (hk : k.Issues accessesRegister) : (exitIfErr p k).Issues accessesRegister := by
  refine issues_seq hp fun status => ?_
  split_ifs
  · exact hk
  · exact trivial

theorem select_accesses (bankId : Byte) :
    (enc28SelectRegisterBank ctx bankId).Issues accessesRegister := by
  unfold enc28SelectRegisterBank
  simp only [bind_eq, pure_eq]
  split_ifs
  · exact trivial
  · refine issues_seq (readCtlReg_accesses _) fun r => ?_
    split_ifs
    · exact exit_accesses (writeCtlReg_accesses _) ⟨trivial, fun _ => trivial⟩
    · exact trivial

theorem of_read_ok {σ : Type} {M : Machine Call Call.Reply σ} {p : Driver (CommandStatus × Byte)}
    {k : CommandStatus × Byte → Driver CommandStatus} {s v : σ} {t : List (Call × σ)}
    {status : CommandStatus}
    (run : Exec M (p.bind fun r => if r.1 = .ok then k r else .ret r.1) s t (some status) v)
    (hp : p.Returns (·.1 = .ok)) :
    ∃ r u t₁ t₂, Exec M p s t₁ (some r) u ∧ Exec M (k r) u t₂ (some status) v ∧ t = t₁ ++ t₂ := by
  obtain ⟨r, u, t₁, t₂, hr, hk, rfl⟩ := run.of_bind
  rw [if_pos (hr.returns hp)] at hk
  exact ⟨r, u, t₁, t₂, hr, hk, rfl⟩

end

/-- The mask comes after the shift, so the high byte of the end address is lost. -/
theorem ctlVecAddr_toNat (hi lo : Byte) : (ctlVecAddr hi lo).toNat = lo.toNat + 1 := by
  have hmask : (hi.setWidth 16 <<< 8) &&& (0x1F : Word) = 0#16 := by
    apply BitVec.eq_of_toNat_eq
    rw [BitVec.toNat_and, show (0x1F : Word).toNat = 0x1F from rfl, BitVec.toNat_shiftLeft,
      Nat.shiftLeft_eq, show (0x1F : ℕ) = 2 ^ 5 - 1 from rfl, Nat.and_two_pow_sub_one_eq_mod]
    change _ = 0
    omega
  have hlt := lo.isLt
  rw [ctlVecAddr, hmask, BitVec.or_zero, BitVec.toNat_add, BitVec.toNat_setWidth,
    show (1 : Word).toNat = 1 from rfl]
  omega

section
variable {arrives : Frame → Prop} {ctx : Option SpiContext} {w u : World RxChip}
  {t : List (Call × World RxChip)} {status : CommandStatus}

/-- What the call has to leave alone and may rely on. -/
abbrev Held (p e : ℕ) (c : RxChip) : Prop := c.erdpt = p ∧ c.etxnd = e

theorem held_closed (p e : ℕ) : EnvClosed (rxCore arrives) (Held p e) := fun _ _ h hd =>
  ⟨(kept_step hd).erdpt.trans h.1, (kept_step hd).etxnd.trans h.2⟩

theorem held_afterRead {p e : ℕ} {c : RxChip} (h : Held p e c) (a : Byte) : Held p e (c.afterRead a) := by
  unfold RxChip.afterRead
  split_ifs
  · exact h
  · exact h

theorem held_read (hc : canWrite ctx = true) (reg : CtlReg) (hr : reg.bank = some 0) {p e : ℕ} {val : Byte}
    (hval : ∀ c, Held p e c → c.readBank0 reg.addr = val) (hw : InBank (rxCore arrives) (Held p e) 0 w)
    {r : CommandStatus × Byte}
    (run : Exec (busMachine (rxCore arrives)) (enc28DoReadCtlReg ctx reg (some 0)) w t (some r) u) :
    r.1 = .ok ∧ r.2 = val ∧ InBank (rxCore arrives) (Held p e) 0 u := by
  have hread : Bank (rxCore arrives) (InBank (rxCore arrives) (Held p e) 0)
      (enc28DoReadCtlReg ctx reg (some 0))
      (fun r w => r.1 = .ok ∧ r.2 = val ∧ InBank (rxCore arrives) (Held p e) 0 w) (fun _ => True) :=
    read_sure hc reg hr 0 (held_closed p e) hval
  exact (hread.sound hw run).2

theorem movesErdpt (hc : canWrite ctx = true) {q e : ℕ} (hq : q < 0x2000) :
    Spec (rxCore arrives) (InBank (rxCore arrives) (fun c => c.etxnd = e) 0)
      (exitIfErr (enc28DoWriteCtlReg ctx .erdptl (lowByte q)) (enc28DoWriteCtlReg ctx .erdpth (highAddr q)))
      (InBank (rxCore arrives) (Held q e) 0) (fun _ => False) := by
  have hend : EnvClosed (rxCore arrives) (fun c => c.etxnd = e) := kept_closed (fun _ _ hk => hk.etxnd) e
  exact (pointer_lo erdptReg hc q hend fun _ _ h => h).exit
    (pointer_hi erdptReg hc hq (held_closed q e) fun _ h => ⟨rfl, h⟩)

/-- A read of a pointer returns what is held, and the rest goes on from there. -/
theorem held_next (hc : canWrite ctx = true) (reg : CtlReg) (hr : reg.bank = some 0)
    {p e : ℕ} {val : Byte} (hval : ∀ c, Held p e c → c.readBank0 reg.addr = val)
    {k : CommandStatus × Byte → Driver CommandStatus} (hw : InBank (rxCore arrives) (Held p e) 0 w)
    (run : Exec (busMachine (rxCore arrives)) ((enc28DoReadCtlReg ctx reg (some 0)).bind fun r =>
      if r.1 = .ok then k r else .ret r.1) w t (some status) u) :
    ∃ v t₁ t₂, t = t₁ ++ t₂ ∧ (∀ x ∈ t₁, accessesRegister x.1) ∧
      InBank (rxCore arrives) (Held p e) 0 v ∧
      Exec (busMachine (rxCore arrives)) (k (.ok, val)) v t₂ (some status) u := by
  obtain ⟨r, v, t₁, t₂, hread, hrest, rfl⟩ := run.of_bind
  obtain ⟨hok, rfl, hv⟩ := held_read hc reg hr hval hw hread
  rw [if_pos hok] at hrest
  exact ⟨v, t₁, t₂, rfl, hread.issues (readCtlReg_accesses 0), hv, hok ▸ hrest⟩

/-- One burst is read, with ERDPT at the address computed from ETXND. -/
theorem vector_parts (hc : canWrite ctx = true) {p e : ℕ} (hp : p < 0x2000)
    (hw : Idle (rxCore arrives) (Held p e) false w)
    (run : Exec (busMachine (rxCore arrives)) (readTransmitStatusVector ctx) w t (some status) u) :
    ∃ v d t₁ t₂, t = t₁ ++ (.nssPinOp 0, v) ::
        (.spiInOutOp [0x3A, 0, 0, 0, 0, 0, 0, 0] 7, { v with phase := .opcode }) :: (.nssPinOp 1, d) :: t₂ ∧
      (∀ x ∈ t₁ ++ t₂, accessesRegister x.1) ∧ v.chip.erdpt = e % 256 + 1 ∧ u.chip.erdpt = p := by
  unfold readTransmitStatusVector at run
  simp only [bind_eq, pure_eq] at run
  obtain ⟨v₀, t₀, _, hsel, run₁, rfl⟩ := of_exit_ok (select_ok hc (by decide)) run
  have hselect : Spec (rxCore arrives) (Idle (rxCore arrives) (Held p e) false)
      (enc28SelectRegisterBank ctx 0) (InBank (rxCore arrives) (Held p e) 0) (fun _ => False) :=
    select_sure hc (by decide) (held_closed p e) fun c d h hd =>
      (env_keeps (held_closed p e) h hd : Held p e d)
  have hv₀ := Spec.lands_ok hselect hw hsel
  obtain ⟨v₁, t₁, _, rfl, hlo, hv₁, run₂⟩ :=
    held_next hc .erdptl rfl (fun c h => congrArg lowByte h.1) hv₀ run₁
  obtain ⟨v₂, t₂, _, rfl, hhi, hv₂, run₃⟩ :=
    held_next hc .erdpth rfl (fun c h => congrArg highAddr h.1) hv₁ run₂
  obtain ⟨v₃, t₃, _, rfl, hendLo, hv₃, run₄⟩ :=
    held_next hc .etxndl rfl (fun c h => congrArg lowByte h.2) hv₂ run₃
  obtain ⟨v₄, t₄, _, rfl, hendHi, hv₄, run₅⟩ :=
    held_next hc .etxndh rfl (fun c h => congrArg highAddr h.2) hv₃ run₄
  rw [← exit_assoc] at run₅
  have hmoves : ∀ q, (exitIfErr (enc28DoWriteCtlReg ctx .erdptl (lowByte q))
      (enc28DoWriteCtlReg ctx .erdpth (highAddr q))).Returns (· = .ok) := fun q =>
    exit_ok (writeCtlReg_ok hc (by decide) _) (writeCtlReg_ok hc (by decide) _)
  obtain ⟨v, t₅, _, hmove, run₆, rfl⟩ := of_exit_ok (hmoves _) run₅
  rw [ctlVecAddr_toNat, lowByte_toNat] at hmove
  have hv := Spec.lands_ok (movesErdpt hc (by omega)) ⟨hv₄.1, hv₄.2.1.2, hv₄.2.2⟩ hmove
  simp only [nssPinOp, spiInOutOp, call_bind, ret_bind] at run₆
  obtain ⟨_, v₅, _, hlow, run₇, rfl⟩ := run₆.of_call
  obtain rfl : v₅ = { v with phase := .opcode } := hlow
  obtain ⟨_, d, _, ⟨-, hburst⟩, run₈, rfl⟩ := run₇.of_call
  obtain rfl := hburst.trans (clock_rbm (rxCore arrives) _ 6 v)
  obtain ⟨_, v₆, t₆, ⟨c, henv, hv₆⟩, run₉, rfl⟩ := run₈.of_call
  have hback : InBank (rxCore arrives) (fun c => c.etxnd = e) 0 { v with chip := c, phase := .high } := by
    obtain ⟨q, hq⟩ : ∃ q, (rxCore arrives).drained 6 v.chip = { v.chip with erdpt := q } :=
      drained_erdpt 6 v.chip
    refine InBank.step (rx_laws arrives) hv (kept_closed (fun _ _ hk => hk.etxnd) e) ?_
      (drained_bsel (rx_laws arrives) 6 v.chip) henv
    rw [hq]
    exact hv.2.1.2
  obtain rfl : v₆ = { v with chip := c, phase := .high } := hv₆
  obtain rfl : status = .ok := run₉.returns (hmoves p)
  have hu := Spec.lands_ok (movesErdpt hc hp) hback run₉
  refine ⟨v, { v with chip := (rxCore arrives).drained 6 v.chip, phase := .rbm },
    t₀ ++ t₁ ++ t₂ ++ t₃ ++ t₄ ++ t₅, t₆, by simp only [List.append_assoc], fun x hx => ?_, hv.2.1.1, hu.2.1.1⟩
  simp only [List.mem_append, or_assoc] at hx
  have hwrites : ∀ v v', (exitIfErr (enc28DoWriteCtlReg ctx .erdptl v)
      (enc28DoWriteCtlReg ctx .erdpth v')).Issues accessesRegister := fun v v' =>
    exit_accesses (writeCtlReg_accesses v) (writeCtlReg_accesses v')
  rcases hx with hx | hx | hx | hx | hx | hx | hx
  · exact hsel.issues (select_accesses 0) x hx
  · exact hlo x hx
  · exact hhi x hx
  · exact hendLo x hx
  · exact hendHi x hx
  · exact hmove.issues (hwrites _ _) x hx
  · exact run₉.issues (hwrites _ _) x hx

/-- Each read burst of the trace starts with ERDPT at `p`. -/
def BurstsAt (p : ℕ) (t : List (Call × World RxChip)) : Prop :=
  ∀ x ∈ t, ∀ cmd, commandSent x = some cmd → cmd >>> spiArgBits = opRbm → x.2.chip.erdpt = p

theorem register_not_rbm {x : Call × World RxChip} (hx : accessesRegister x.1) {cmd : Byte}
    (hc : commandSent x = some cmd) : cmd >>> spiArgBits ≠ opRbm := by
  obtain ⟨e, w⟩ := x
  cases e with
  | spiOutOp reg buff =>
    obtain ⟨r, op, data, -, rfl, hop⟩ := hx
    have hlt : ∀ op ∈ [opRcr, opWcr, opBfs, opBfc], op.toNat < 8 ∧ op ≠ opRbm := by decide
    have hcmd : commandByte op r.id = cmd := by
      simp only [commandSent, List.head?_cons] at hc
      split_ifs at hc
      exact Option.some.inj hc
    rw [← hcmd, commandByte_opcode op r.id (hlt op hop).1]
    exact (hlt op hop).2
  | spiInOutOp tx len => exact hx.elim
  | nssPinOp | spiInOp | waitNano | loadBank | storeBank => cases hc

theorem burstsAt_of_registers {p : ℕ} (h : ∀ x ∈ t, accessesRegister x.1) : BurstsAt p t :=
  fun x hx _ hc hop => absurd hop (register_not_rbm (h x hx) hc)

/-- A trace with one read burst. -/
theorem burstsAt_iff {p n : ℕ} {tx : List Byte} {v d : World RxChip} {t₁ t₂ : List (Call × World RxChip)}
    (hregs : ∀ x ∈ t₁ ++ t₂, accessesRegister x.1) :
    BurstsAt p (t₁ ++ (.nssPinOp 0, v) :: (.spiInOutOp (0x3A :: tx) n, { v with phase := .opcode }) ::
      (.nssPinOp 1, d) :: t₂) ↔ v.chip.erdpt = p := by
  constructor
  · intro h
    exact h (.spiInOutOp (0x3A :: tx) n, { v with phase := .opcode })
      (List.mem_append_right _ (List.mem_cons_of_mem _ List.mem_cons_self)) 0x3A rfl (by decide)
  · intro h x hx cmd hc hop
    simp only [List.mem_append, List.mem_cons] at hx
    rcases hx with hx | rfl | rfl | rfl | hx
    · exact absurd hop (register_not_rbm (hregs x (List.mem_append_left _ hx)) hc)
    · cases hc
    · exact h
    · cases hc
    · exact absurd hop (register_not_rbm (hregs x (List.mem_append_right _ hx)) hc)

/-- EIR is read as it was before the call. -/
theorem eir_read (hr : canRead ctx = true) {p e : ℕ} (hw : Idle (rxCore arrives) (Held p e) false w)
    {r : CommandStatus × Byte}
    (run : Exec (busMachine (rxCore arrives)) (enc28DoReadCtlReg ctx .eir (some 0)) w t (some r) u) :
    r.2 = w.chip.eir ∧ Idle (rxCore arrives) (Held p e) false u := by
  let V : Byte → RxChip → Prop := fun v c => v = w.chip.eir ∧ Held p e c
  have hV : ∀ v, EnvClosed (rxCore arrives) (V v) := fun v c d h hd => ⟨h.1, held_closed p e c d h.2 hd⟩
  have hread : Bank (rxCore arrives)
      (Idle (rxCore arrives) (fun c => Held p e c ∧ c.eir = w.chip.eir) false)
      (enc28DoReadCtlReg ctx .eir (some 0))
      (fun r u => r.1 = .ok ∧ Idle (rxCore arrives) (V r.2) false u) (fun _ => True) :=
    readShared_rule (rx_laws arrives) hr .eir rfl (by decide) 0 hV fun c h =>
      ⟨h.2, held_afterRead h.1 _⟩
  obtain ⟨-, hphase, ⟨hval, hheld⟩, hbank⟩ := (hread.sound ⟨hw.1, ⟨hw.2.1, rfl⟩, hw.2.2⟩ run).2
  exact ⟨hval, hphase, hheld, hbank⟩

theorem estat_read {p e : ℕ} {old : Byte} (hw : Idle (rxCore arrives) (Held p e) false w)
    {r : CommandStatus × Byte}
    (run : Exec (busMachine (rxCore arrives)) (enc28DoReadCtlReg ctx .estat (some old)) w t (some r) u) :
    Idle (rxCore arrives) (Held p e) false u := by
  cases hr : canRead ctx with
  | false =>
    obtain ⟨status, -, he⟩ : ∃ status, status ≠ .ok ∧
      enc28DoReadCtlReg ctx .estat (some old) = .ret (status, old) := readCtlReg_fails old (Or.inl hr)
    rw [he] at run
    cases run
    exact hw
  | true =>
    have hread : Bank (rxCore arrives) (Idle (rxCore arrives) (Held p e) false)
        (enc28DoReadCtlReg ctx .estat (some old))
        (fun r u => r.1 = .ok ∧ Idle (rxCore arrives) (Held p e) false u) (fun _ => True) :=
      readShared_rule (rx_laws arrives) hr .estat rfl (by decide) old (fun _ => held_closed p e)
        fun c h => held_afterRead h _
    exact (hread.sound hw run).2.2

/-- Without all callbacks the status vector is not looked at. -/
theorem vector_refused (hc : canWrite ctx = false)
    (run : Exec (busMachine (rxCore arrives)) (readTransmitStatusVector ctx) w t (some status) u) :
    status ≠ .ok ∧ (∀ x ∈ t, accessesRegister x.1) ∧ u.chip.erdpt = w.chip.erdpt := by
  unfold readTransmitStatusVector at run
  rcases of_exit run with ⟨_, _, _, hsel, -, -⟩ | ⟨hne, hsel⟩
  · exact absurd rfl (select_refused (rx_laws arrives) (rx_txrts arrives) hc hsel).1
  · refine ⟨hne, hsel.issues (select_accesses 0), ?_⟩
    exact env_keeps (kept_closed (fun _ _ hk => hk.erdpt) w.chip.erdpt) rfl
      (select_refused (rx_laws arrives) (rx_txrts arrives) hc hsel).2

/-- With TXIF set the call reads EIR and ESTAT and looks at the status vector. -/
theorem check_parts (hr : canRead ctx = true) {p e : ℕ} (hw : Idle (rxCore arrives) (Held p e) false w)
    (txif : w.chip.eir.getLsbD eirTxif = true)
    (run : Exec (busMachine (rxCore arrives)) (enc28CheckOutgoingPacketStatus ctx) w t (some status) u) :
    ∃ v t₁ t₂ vectorStatus, t = t₁ ++ t₂ ∧ (∀ x ∈ t₁, accessesRegister x.1) ∧
      Idle (rxCore arrives) (Held p e) false v ∧
      Exec (busMachine (rxCore arrives)) (readTransmitStatusVector ctx) v t₂ (some vectorStatus) u := by
  unfold enc28CheckOutgoingPacketStatus at run
  simp only [bind_eq, pure_eq] at run
  obtain ⟨eir, v₁, t₁, _, heir, run₁, rfl⟩ := of_read_ok run (readCtlReg_ok hr (by decide) _)
  obtain ⟨hval, hv₁⟩ := eir_read hr hw heir
  rw [hval, if_pos txif] at run₁
  obtain ⟨estat, v₂, t₂, _, hestat, run₂, rfl⟩ := of_read_ok run₁ (readCtlReg_ok hr (by decide) _)
  have hreads : ∀ x ∈ t₁ ++ t₂, accessesRegister x.1 := by
    intro x hx
    rcases List.mem_append.mp hx with hx | hx
    · exact heir.issues (readCtlReg_accesses _) x hx
    · exact hestat.issues (readCtlReg_accesses _) x hx
  rcases of_exit run₂ with ⟨v₃, t₃, t₄, hvector, hret, rfl⟩ | ⟨-, hvector⟩
  · obtain ⟨rfl, rfl⟩ : t₄ = [] ∧ v₃ = u := by
      split_ifs at hret <;> cases hret <;> exact ⟨rfl, rfl⟩
    exact ⟨v₂, t₁ ++ t₂, t₃, .ok, by simp only [List.append_assoc, List.append_nil], hreads,
      estat_read hv₁ hestat, hvector⟩
  · exact ⟨v₂, t₁ ++ t₂, _, status, by simp only [List.append_assoc], hreads, estat_read hv₁ hestat, hvector⟩

/-- The burst starts at the low byte of ETXND plus one, and ERDPT is put back. -/
theorem check_bursts (hc : canWrite ctx = true) (idle : w.phase = .high)
    (txif : w.chip.eir.getLsbD eirTxif = true) (hptr : w.chip.erdpt < 0x2000)
    (run : Exec (busMachine (rxCore arrives)) (enc28CheckOutgoingPacketStatus ctx) w t (some status) u) :
    (∀ p, BurstsAt p t ↔ w.chip.etxnd % 256 + 1 = p) ∧ u.chip.erdpt = w.chip.erdpt := by
  have hw : Idle (rxCore arrives) (Held w.chip.erdpt w.chip.etxnd) false w :=
    Idle.unbanked idle ⟨rfl, rfl⟩
  obtain ⟨v, t₁, t₂, vectorStatus, rfl, hreads, hv, hvector⟩ :=
    check_parts (canRead_of_canWrite hc) hw txif run
  obtain ⟨b, d, t₃, t₄, rfl, hregs, haddr, hback⟩ := vector_parts hc hptr hv hvector
  have hall : ∀ x ∈ (t₁ ++ t₃) ++ t₄, accessesRegister x.1 := by
    intro x hx
    rw [List.append_assoc] at hx
    rcases List.mem_append.mp hx with hx | hx
    · exact hreads x hx
    · exact hregs x hx
  refine ⟨fun p => ?_, hback⟩
  rw [← List.append_assoc, burstsAt_iff hall, haddr]

/-- Without all callbacks there is no burst. -/
theorem check_refused (hc : canWrite ctx = false) (idle : w.phase = .high)
    (txif : w.chip.eir.getLsbD eirTxif = true)
    (run : Exec (busMachine (rxCore arrives)) (enc28CheckOutgoingPacketStatus ctx) w t (some status) u) :
    (∀ p, BurstsAt p t) ∧ u.chip.erdpt = w.chip.erdpt := by
  cases hr : canRead ctx with
  | false =>
    obtain ⟨err, hs, he⟩ : ∃ err, err ≠ .ok ∧
      enc28DoReadCtlReg ctx .eir (some 0) = .ret (err, 0) := readCtlReg_fails 0 (Or.inl hr)
    unfold enc28CheckOutgoingPacketStatus at run
    simp only [bind_eq, he, ret_bind, hs, if_false, pure_eq] at run
    cases run
    exact ⟨fun p x hx => absurd hx List.not_mem_nil, rfl⟩
  | true =>
    have hw : Idle (rxCore arrives) (Held w.chip.erdpt w.chip.etxnd) false w :=
      Idle.unbanked idle ⟨rfl, rfl⟩
    obtain ⟨v, t₁, t₂, vectorStatus, rfl, hreads, hv, hvector⟩ := check_parts hr hw txif run
    obtain ⟨-, hregs, hsame⟩ := vector_refused hc hvector
    refine ⟨fun p => burstsAt_of_registers fun x hx => ?_, hsame.trans hv.2.1.1⟩
    rcases List.mem_append.mp hx with hx | hx
    · exact hreads x hx
    · exact hregs x hx

/-- The status vector is read where the hardware stores it exactly when ETXND
fits in one byte, or when the callbacks keep it from being read. -/
theorem status_vector_iff (idle : w.phase = .high) (txif : w.chip.eir.getLsbD eirTxif = true)
    (hptr : w.chip.erdpt < 0x2000) (hend : w.chip.etxnd < 0x2000)
    (run : Exec (busMachine (rxCore arrives)) (enc28CheckOutgoingPacketStatus ctx) w t (some status) u) :
    BurstsAt ((w.chip.etxnd + 1) % 0x2000) t ∧ u.chip.erdpt = w.chip.erdpt ↔
      (canWrite ctx = true → w.chip.etxnd < 256) := by
  cases hc : canWrite ctx with
  | false =>
    obtain ⟨hbursts, hback⟩ := check_refused hc idle txif run
    exact iff_of_true ⟨hbursts _, hback⟩ fun h => absurd h (by decide)
  | true =>
    obtain ⟨hbursts, hback⟩ := check_bursts hc idle txif hptr run
    rw [hbursts]
    constructor
    · intro h _
      omega
    · intro h
      have hlow := h rfl
      exact ⟨by omega, hback⟩

end

/-- TXIF is set, and ETXND was left by a packet of `n` bytes. -/
def sentChip (n : ℕ) : RxChip :=
  { readyChip with
    etxnd := 0x1D + n + 1
    regs := fun p => if p = (0, CtlReg.eir.addr) then bit eirTxif else readyChip.regs p }

theorem check_exists {n : ℕ} (h : ((enc28CheckOutgoingPacketStatus (some fullContext)).run
      (busDevice (rxCore fun _ => True) id) ⟨sentChip n, .high, 0⟩).1 = some .ok) :
    ∃ t u, Exec (busMachine (rxCore fun _ => True)) (enc28CheckOutgoingPacketStatus (some fullContext))
      ⟨sentChip n, .high, 0⟩ t (some .ok) u := by
  obtain ⟨t, run⟩ := run_exec (busDevice_step (rxCore fun _ => True) (f := id) fun _ => ReflTransGen.refl)
    (enc28CheckOutgoingPacketStatus (some fullContext)) ⟨sentChip n, .high, 0⟩
  exact ⟨t, _, h ▸ run⟩

theorem status_vector_iff_short : ∃ t u, Exec (busMachine (rxCore fun _ => True))
    (enc28CheckOutgoingPacketStatus (some fullContext)) ⟨sentChip 14, .high, 0⟩ t (some .ok) u ∧
      BurstsAt 0x2D t ∧ u.chip.erdpt = 0 := by
  obtain ⟨t, u, run⟩ := check_exists (n := 14) (by decide +kernel)
  exact ⟨t, u, run, (status_vector_iff rfl (by decide) (by decide) (by decide) run).2 fun _ => by decide⟩

/-- After a packet of 226 bytes the burst starts at 1 and not at 0x101. -/
theorem status_vector_fails : ¬ ∀ (cfg : Conf) (ctx : Option SpiContext) (packet : List Byte)
    (bufSize : Word) (w₀ v w u : World RxChip) (t₀ t : List (Call × World RxChip)) (status : CommandStatus),
    Exec (busMachine (rxCore fun _ => True)) (enc28WritePacket cfg ctx (some packet) bufSize) w₀ t₀
      (some .ok) v →
    w.chip.etxnd = v.chip.etxnd → w.phase = .high → w.chip.erdpt < 0x2000 →
    w.chip.eir.getLsbD eirTxif = true →
    Exec (busMachine (rxCore fun _ => True)) (enc28CheckOutgoingPacketStatus ctx) w t (some status) u →
    BurstsAt ((w.chip.etxnd + 1) % 0x2000) t ∧ u.chip.erdpt = w.chip.erdpt := by
  intro h
  obtain ⟨t₀, v, sent⟩ := accepted_exists (List.replicate 226 0) 226 (by decide +kernel)
  obtain ⟨t, u, run⟩ := check_exists (n := 226) (by decide +kernel)
  have hend : (sentChip 226).etxnd = v.chip.etxnd := (accepted_pointed rfl sent).last.symm
  have hbursts := (h {} _ _ _ _ v _ u t₀ t _ sent hend rfl (by decide) (by decide) run).1
  rw [(check_bursts rfl rfl (by decide) (by decide) run).1] at hbursts
  exact absurd hbursts (by decide)

end Stm32NetworkStack.StatusVector
