import Stm32NetworkStack.BankSafety
import Stm32NetworkStack.CoreProjection
import Stm32NetworkStack.ReceiveSessions

set_option autoImplicit false

/-!
# Recovery from a receive error

The receive logic with the flag EIR.RXERIF, which the hardware sets when it drops
a frame. `enc28_read_packet` answers the flag by moving ERXRDPT to the end of the
ring, wherever ERDPT is.
-/
namespace Stm32NetworkStack.ReceiveErrors
open InteractivePrograms Enc28Registers Enc28Driver DriverCommands SpiBus BankDiscipline DriverBanks
open BankSafety RingLog ReceiveLogic ReceiveStream ReceivePackets TransmitArea ReceiveStart ReceiveSessions
open CoreProjection Relation

/-- The room that ERXRDPT leaves to the hardware. -/
def room (c : RxChip) : ℕ := (c.erxrdpt + c.ring.size - c.erxwrpt) % c.ring.size

structure ErrChip where
  base : RxChip
  rxerif : Bool

section
variable (c : ErrChip)

def ErrChip.readReg (addr : Byte) : Byte :=
  if addr = 0x1C ∧ c.rxerif = true then c.base.readReg addr ||| bit eirRxerif else c.base.readReg addr

/-- A zero written to RXERIF clears it. -/
def ErrChip.writeReg (addr v : Byte) : ErrChip where
  base := c.base.writeReg addr v
  rxerif := if addr = 0x1C then c.rxerif && v.getLsbD eirRxerif else c.rxerif

def ErrChip.clearBits (addr mask : Byte) : ErrChip where
  base := c.base.clearBits addr mask
  rxerif := if addr = 0x1C then c.rxerif && !mask.getLsbD eirRxerif else c.rxerif

end

/-- A frame for which there is no room, or that EPKTCNT cannot count, is dropped. -/
inductive ErrStep (arrives : Frame → Prop) (c : ErrChip) : ErrChip → Prop
  | base {d : RxChip} (step : RxStep arrives c.base d) : ErrStep arrives c ⟨d, c.rxerif⟩
  | drop (f : Frame) (rxen : c.base.econ1.getLsbD econ1Rxen = true) (ok : arrives f)
      (full : room c.base < f.width ∨ 255 ≤ c.base.epktcnt) : ErrStep arrives c ⟨c.base, true⟩

def errCore (arrives : Frame → Prop) : ChipCore ErrChip where
  econ1 := fun c => c.base.econ1
  readReg := ErrChip.readReg
  afterRead := fun c a => { c with base := c.base.afterRead a }
  writeReg := ErrChip.writeReg
  setBits := fun c a m => { c with base := c.base.setBits a m }
  clearBits := ErrChip.clearBits
  readBuf := fun c => (c.base.readBuf.1, { c with base := c.base.readBuf.2 })
  writeBuf := fun c b => { c with base := c.base.writeBuf b }
  dummy := fun c => c.base.dummy
  reset := fun c => ⟨c.base.reset, false⟩
  env := ErrStep arrives

/-- The two chips differ in what EIR reads. -/
theorem err_projects (arrives : Frame → Prop) :
    Projects (errCore arrives) (rxCore arrives) ErrChip.base fun a => a = 0x1C where
  econ1 := fun _ => rfl
  readReg := fun c a ha => by
    change c.base.readReg a = c.readReg a
    unfold ErrChip.readReg
    rw [if_neg fun h => ha h.1]
  afterRead := fun _ _ => rfl
  writeReg := fun _ _ _ => rfl
  setBits := fun _ _ _ => rfl
  clearBits := fun _ _ _ => rfl
  readBuf := fun _ => rfl
  writeBuf := fun _ _ => rfl
  dummy := fun _ => rfl
  reset := fun _ => rfl
  env := fun c d h => by
    cases h with
    | base step => exact ReflTransGen.single step
    | drop f rxen ok full => exact ReflTransGen.refl

theorem err_laws (arrives : Frame → Prop) : BankLaws (errCore arrives) where
  read := fun c => by
    change c.readReg 0x1F = c.base.econ1
    unfold ErrChip.readReg
    rw [if_neg fun h => absurd h.1 (by decide)]
    rfl
  afterRead := fun c a => (rx_laws arrives).afterRead c.base a
  writeEcon1 := fun c v => (rx_laws arrives).writeEcon1 c.base v
  write := fun c a v h => (rx_laws arrives).write c.base a v h
  set := fun c a m h => (rx_laws arrives).set c.base a m h
  clear := fun c a m h => (rx_laws arrives).clear c.base a m h
  readBuf := fun c => (rx_laws arrives).readBuf c.base
  writeBuf := fun c b => (rx_laws arrives).writeBuf c.base b
  reset := fun c => (rx_laws arrives).reset c.base
  env := fun c d h => by
    cases h with
    | base step => exact (rx_laws arrives).env _ _ step
    | drop f rxen ok full => rfl

abbrev ErrRecord := CallRecord Call (World ErrChip) DriverCall (CommandStatus × DriverOutput)

/-- The record as a chip without the flag shows it. -/
def baseRecord (r : ErrRecord) (t : List (Call × World RxChip)) : RxRecord where
  op := r.op
  before := shown ErrChip.base r.before
  trace := t
  result := r.result
  after := shown ErrChip.base r.after

theorem eir_flag (c : ErrChip) : (c.readReg 0x1C).getLsbD eirRxerif = c.rxerif := by
  have hbase : c.base.readReg 0x1C = c.base.eir := rfl
  unfold ErrChip.readReg
  cases hf : c.rxerif with
  | false => rw [if_neg fun h => Bool.false_ne_true h.2, hbase, eir_rxerif]
  | true =>
    rw [if_pos ⟨rfl, rfl⟩, BitVec.getLsbD_or]
    exact Bool.or_true _

theorem eir_other (c : ErrChip) {i : ℕ} (h : (bit eirRxerif).getLsbD i = false) :
    (c.readReg 0x1C).getLsbD i = c.base.eir.getLsbD i := by
  have hbase : c.base.readReg 0x1C = c.base.eir := rfl
  unfold ErrChip.readReg
  split_ifs
  · rw [BitVec.getLsbD_or, h, Bool.or_false, hbase]
  · rw [hbase]

section
variable {cfg : Conf} {arrives : Frame → Prop} {ctx : Option SpiContext} {w u : World ErrChip}
  {t : List (Call × World ErrChip)}

theorem err_eir (hr : canRead ctx = true) {r : CommandStatus × Byte}
    (run : Exec (busMachine (errCore arrives)) (enc28DoReadCtlReg ctx .eir (some 0)) w t (some r) u) :
    r = (.ok, w.chip.readReg 0x1C) ∧ u.phase = .high ∧ u.currBank = w.currBank ∧
      ReflTransGen (RxStep arrives) (w.chip.base.afterRead 0x1C) u.chip.base := by
  let Q : Option (CommandStatus × Byte) → World ErrChip → Prop := fun o u =>
    o = some (.ok, w.chip.readReg 0x1C) ∧ u.phase = .high ∧ u.currBank = w.currBank ∧
      ReflTransGen (RxStep arrives) (w.chip.base.afterRead 0x1C) u.chip.base
  have hshared : dropsByte w .eir = dummyDue (errCore arrives) w .eir := shared_agreed w rfl (by decide)
  have h : wp (busMachine (errCore arrives)) (BusGuard.free ErrChip).holds
      (enc28DoReadCtlReg ctx .eir (some 0)) Q w := by
    refine wp_readCtlReg (fun hf _ _ => ?_) fun _ _ => ⟨⟨trivial, trivial⟩, fun c hc => ?_⟩
    · rcases hf with hf | hf
      · exact absurd (hr.symm.trans hf) (by decide)
      · exact absurd hf (by decide)
    · rw [chipAfterRead_agreed _ w .eir hshared] at hc
      rw [readValue_agreed _ w .eir hshared]
      exact ⟨rfl, rfl, rfl, ReflTransGen.lift' ErrChip.base (err_projects arrives).env _ _ hc⟩
  obtain ⟨ho, hrest⟩ := (wp_sound h run).2
  exact ⟨Option.some.inj ho, hrest⟩

/-- A read without a NULL pointer does not look at the old value. -/
theorem readCtlReg_old (hr : canRead ctx = true) {reg : CtlReg} (hid : reg.id ≠ 0x1A) (old old' : Byte) :
    enc28DoReadCtlReg ctx reg (some old) = enc28DoReadCtlReg ctx reg (some old') :=
  (readCtlReg_eq old hr hid).trans (readCtlReg_eq old' hr hid).symm

theorem readPacketPending_old (hr : canRead ctx = true) (packetBuf : List Byte) (bufSize : Word)
    (optStatusVec : Option ReceiveStatusVector) (val val' : Byte) :
    readPacketPending cfg ctx packetBuf bufSize optStatusVec val =
      readPacketPending cfg ctx packetBuf bufSize optStatusVec val' := by
  unfold readPacketPending
  rw [readCtlReg_old hr (by decide) val val']

/-- The program finds the chip as it is, the flag apart. -/
theorem eir_exec (hr : canRead ctx = true) (hw : ReflTransGen (RxStep arrives)
    (w.chip.base.afterRead 0x1C) u.chip.base) (hphase : u.phase = .high) (hbank : u.currBank = w.currBank) :
    ∃ t, Exec (busMachine (rxCore arrives)) (enc28DoReadCtlReg ctx .eir (some 0)) (shown ErrChip.base w) t
      (some (.ok, w.chip.base.eir)) (shown ErrChip.base u) := by
  obtain ⟨t, ht⟩ := read_exec (C := rxCore arrives) hr .eir rfl (by decide) 0 (w := shown ErrChip.base w) hw
  have hu : shown ErrChip.base u = { shown ErrChip.base w with chip := u.chip.base, phase := .high } := by
    simp only [shown, hphase, hbank]
  exact ⟨t, hu ▸ ht⟩

/-- What runs behind the look at EIR reads EIR no more. -/
theorem rest_shown {α : Type} {p : Driver α} {K : Commands} {o : Option α} (hp : Sends K p)
    (hreads : ∀ reg ∈ K.reads, reg.addr ≠ 0x1C) (idle : w.phase = .high)
    (guard : ∀ x ∈ t, (bankGuard (errCore arrives)).holds x.1 x.2)
    (run : Exec (busMachine (errCore arrives)) p w t o u) :
    Exec (busMachine (rxCore arrives)) p (shown ErrChip.base w) (shownTrace ErrChip.base t) o
      (shown ErrChip.base u) :=
  shown_sends (err_projects arrives) hp hreads (by decide) idle guard run

/-- EIR shows no pending frame, but a receive error. -/
def takesRecovery (c : ErrChip) : Bool := c.base.epktcnt == 0 && c.rxerif

theorem eir_pending (c : ErrChip) : (c.readReg 0x1C).getLsbD eirPktif = decide (0 < c.base.epktcnt) :=
  (eir_other c rfl).trans (eir_pktif c.base)

theorem readPacket_shown (hr : canRead ctx = true) {packetBuf : List Byte} {bufSize : Word}
    {optStatusVec : Option ReceiveStatusVector} {a : ReadResult}
    (hno : takesRecovery w.chip = false) (guard : ∀ x ∈ t, (bankGuard (errCore arrives)).holds x.1 x.2)
    (run : Exec (busMachine (errCore arrives)) (enc28ReadPacket cfg ctx packetBuf bufSize optStatusVec) w t
      (some a) u) :
    ∃ t', Exec (busMachine (rxCore arrives)) (enc28ReadPacket cfg ctx packetBuf bufSize optStatusVec)
      (shown ErrChip.base w) t' (some a) (shown ErrChip.base u) := by
  unfold enc28ReadPacket at run ⊢
  simp only [bind_eq, pure_eq] at run ⊢
  obtain ⟨r, v, t₁, t₂, hread, hrest, rfl⟩ := run.of_bind
  obtain ⟨rfl, hphase, hbank, hlook⟩ := err_eir hr hread
  obtain ⟨t', hread'⟩ := eir_exec hr hlook hphase hbank
  have guard₂ : ∀ x ∈ t₂, (bankGuard (errCore arrives)).holds x.1 x.2 := fun x hx =>
    guard x (List.mem_append_right _ hx)
  rw [if_pos rfl, eir_pending, eir_flag] at hrest
  by_cases hp : 0 < w.chip.base.epktcnt
  · rw [if_pos (decide_eq_true hp)] at hrest
    have hpending := rest_shown (sends_readPacketPending cfg packetBuf bufSize optStatusVec _) (by decide)
      hphase guard₂ hrest
    refine ⟨t' ++ shownTrace ErrChip.base t₂, hread'.bind ?_⟩
    rw [if_pos rfl, eir_pktif, if_pos (decide_eq_true hp),
      readPacketPending_old hr packetBuf bufSize optStatusVec _ (w.chip.readReg 0x1C)]
    exact hpending
  · have hflag : w.chip.rxerif = false := by
      have hzero : w.chip.base.epktcnt = 0 := by omega
      simpa [takesRecovery, hzero] using hno
    rw [if_neg (by simpa using hp), hflag] at hrest
    cases hrest
    refine ⟨t' ++ [], hread'.bind ?_⟩
    rw [if_pos rfl, eir_pktif, if_neg (by simpa using hp), eir_rxerif]
    exact .ret _ _

theorem check_shown (hr : canRead ctx = true) {status : CommandStatus}
    (guard : ∀ x ∈ t, (bankGuard (errCore arrives)).holds x.1 x.2)
    (run : Exec (busMachine (errCore arrives)) (enc28CheckOutgoingPacketStatus ctx) w t (some status) u) :
    ∃ t', Exec (busMachine (rxCore arrives)) (enc28CheckOutgoingPacketStatus ctx) (shown ErrChip.base w) t'
      (some status) (shown ErrChip.base u) := by
  unfold enc28CheckOutgoingPacketStatus at run ⊢
  simp only [bind_eq, pure_eq] at run ⊢
  obtain ⟨r, v, t₁, t₂, hread, hrest, rfl⟩ := run.of_bind
  obtain ⟨rfl, hphase, hbank, hlook⟩ := err_eir hr hread
  obtain ⟨t', hread'⟩ := eir_exec hr hlook hphase hbank
  have guard₂ : ∀ x ∈ t₂, (bankGuard (errCore arrives)).holds x.1 x.2 := fun x hx =>
    guard x (List.mem_append_right _ hx)
  rw [if_pos rfl, eir_other _ rfl] at hrest
  refine ⟨t' ++ shownTrace ErrChip.base t₂, hread'.bind ?_⟩
  rw [if_pos rfl]
  split_ifs at hrest ⊢
  · rw [readCtlReg_old hr (by decide) _ (w.chip.readReg 0x1C)]
    refine rest_shown (K := vectorCommands) (sends_seq (sends_readCtlReg (by decide) _) fun estat =>
      sends_onOk (sends_exit sends_readTransmitStatusVector ?_) (sends_ret _)) (by decide) hphase guard₂ hrest
    split_ifs
    · exact sends_ret _
    · exact sends_ret _
  · exact rest_shown (K := vectorCommands) (sends_ret _) (by decide) hphase guard₂ hrest

theorem call_shown {c : DriverCall} {res : CommandStatus × DriverOutput} (call : receiverCall c = true)
    (hno : isRead c.op = true → takesRecovery w.chip = false) (idle : w.phase = .high)
    (run : Exec (busMachine (errCore arrives)) (c.prog cfg) w t (some res) u) :
    ∃ t', Exec (busMachine (rxCore arrives)) (c.prog cfg) (shown ErrChip.base w) t' (some res)
      (shown ErrChip.base u) := by
  have hraw : isRaw c.op = false := by
    cases h : c.op <;> simp [receiverCall, isRaw, h] at call ⊢
  have guard := notRaw_guarded (err_laws arrives) cfg hraw idle run
  obtain ⟨ctx, rounds, op⟩ := c
  simp only [receiverCall, Bool.and_eq_true] at call
  have hr : canRead ctx = true := canRead_of_canWrite call.1
  cases op with
  | readPacket packetBuf bufSize optStatusVec =>
    obtain ⟨a, hrun, rfl⟩ := Exec.of_map run
    obtain ⟨t', ht⟩ := readPacket_shown hr (hno rfl) guard hrun
    exact ⟨_, ht.bind (.ret _ _)⟩
  | writePacket packetBuf bufSize =>
    have hsend : Sends transmitCommands
        (DriverCall.prog cfg ⟨ctx, rounds, .writePacket packetBuf bufSize⟩) :=
      call_sends cfg ⟨ctx, rounds, .writePacket packetBuf bufSize⟩
    exact ⟨_, rest_shown hsend (by decide) idle guard run⟩
  | checkOutgoingPacketStatus =>
    obtain ⟨status, hrun, rfl⟩ := Exec.of_map run
    obtain ⟨t', ht⟩ := check_shown hr guard hrun
    exact ⟨_, ht.bind (.ret _ _)⟩
  | softReset | init | readHwRev | readMac | readPhyRegister | readCtlReg | writeCtlReg
  | setBitsCtlReg | clearBitsCtlReg | selectRegisterBank | beginPacketTransfer
  | endPacketTransfer => cases call.2

end

/-- ERXRDPT is at the end of the ring; only if ERDPT is at its start does the log
between two calls go on. -/
structure AtRingEnd (cfg : Conf) (arrives : Frame → Prop) (done : List Frame) (x : ℕ) (c : RxChip) : Prop where
  erxst : c.erxst = cfg.rxAddressStart
  erxnd : c.erxnd = cfg.rxAddressEnd
  erdpt : c.erdpt = (rxRing cfg).cell x
  erxrdpt : c.erxrdpt = cfg.rxAddressEnd
  rest : (rxRing cfg).cell x = cfg.rxAddressStart → AtRest cfg arrives done x c

section
variable {cfg : Conf} {arrives : Frame → Prop} {ctx : Option SpiContext} {done : List Frame} {x : ℕ}

theorem cell_before_start (layout : Layout cfg) :
    (rxRing cfg).cell (x + ((rxRing cfg).size - 1)) = cfg.rxAddressEnd ↔
      (rxRing cfg).cell x = cfg.rxAddressStart := by
  have ho := layout.order
  have hx := cell_range layout x
  have hy := cell_range layout (x + ((rxRing cfg).size - 1))
  have hsize : (rxRing cfg).size = cfg.rxAddressEnd - cfg.rxAddressStart + 1 := rfl
  rcases cell_ahead (rxRing cfg) x (d := (rxRing cfg).size - 1) (by omega) with h | h <;> omega

theorem atRingEnd_closed (layout : Layout cfg) :
    EnvClosed (rxCore arrives) (AtRingEnd cfg arrives done x) := by
  intro c d h hd
  have herx : d.erxrdpt = c.erxrdpt := by
    cases hd <;> rfl
  have hk := kept_step hd
  exact ⟨hk.erxst.trans h.erxst, hk.erxnd.trans h.erxnd, hk.erdpt.trans h.erdpt, herx.trans h.erxrdpt,
    fun hx => atRest_closed layout c d (h.rest hx) hd⟩

theorem rxErrorRecovery_ends (layout : Layout cfg) (hc : canWrite ctx = true) :
    Spec (rxCore arrives) (Idle (rxCore arrives) (AtRest cfg arrives done x) false)
      (rxErrorRecovery cfg ctx) (fun _ => False)
      (Idle (rxCore arrives) (AtRingEnd cfg arrives done x) false) := by
  have sure : ∀ {P A : World RxChip → Prop} {p : Driver CommandStatus},
      Spec (rxCore arrives) P p A (fun _ => False) →
        Spec (rxCore arrives) P p A (Idle (rxCore arrives) (AtRingEnd cfg arrives done x) false) :=
    fun h => h.conseq (fun _ h => h) (fun _ h => h) fun _ h => h.elim
  have htop := layout.top
  have hclosed : EnvClosed (rxCore arrives) (AtRingEnd cfg arrives done x) := atRingEnd_closed layout
  refine (sure (select_receiving layout hc (fun _ _ hk h => hk.erdpt.trans h) fun _ _ h => h)).exit <|
    (sure (erxrdpt_lo hc _ (atRest_closed layout) fun c v h => ⟨h.1.setErxrdptl v, h.2⟩)).exit <|
    (sure (erxrdpt_hi hc htop hclosed fun c h =>
      ⟨h.1.erxst, h.1.erxnd, h.2, rfl, fun hx => ⟨?_, h.2⟩⟩)).exit <|
    (sure (clears_sure hc (by decide) (by decide) _ (by decide) hclosed fun c h hb => ?_)).exit <|
    Spec.err (by decide) fun _ h => h.idle
  · exact receiving_release h.1 ((cell_before_start layout).2 hx).symm
  · change AtRingEnd cfg arrives done x (c.writeReg 0x1C _)
    rw [writeReg_bank0 hb (by decide)]
    refine ⟨h.erxst, h.erxnd, h.erdpt, h.erxrdpt, fun hx => ?_⟩
    obtain ⟨hlog, he⟩ := h.rest hx
    exact ⟨⟨hlog.erxst, hlog.erxnd, hlog.transmit, hlog.arrived, hlog.log⟩, he⟩

theorem recovery_ends (layout : Layout cfg) (hc : canWrite ctx = true) {w u : World ErrChip}
    {t : List (Call × World ErrChip)} {packetBuf : List Byte} {bufSize : Word}
    {optStatusVec : Option ReceiveStatusVector} {a : ReadResult}
    (before : Idle (rxCore arrives) (AtRest cfg arrives done x) false (shown ErrChip.base w))
    (takes : takesRecovery w.chip = true) (guard : ∀ x ∈ t, (bankGuard (errCore arrives)).holds x.1 x.2)
    (run : Exec (busMachine (errCore arrives)) (enc28ReadPacket cfg ctx packetBuf bufSize optStatusVec) w t
      (some a) u) :
    Idle (rxCore arrives) (AtRingEnd cfg arrives done x) false (shown ErrChip.base u) := by
  obtain ⟨hzero, hflag⟩ : w.chip.base.epktcnt = 0 ∧ w.chip.rxerif = true := by
    simpa [takesRecovery] using takes
  unfold enc28ReadPacket at run
  simp only [bind_eq, pure_eq] at run
  obtain ⟨r, v, t₁, t₂, hread, hrest, rfl⟩ := run.of_bind
  obtain ⟨rfl, hphase, -, hlook⟩ := err_eir (canRead_of_canWrite hc) hread
  have hv : Idle (rxCore arrives) (AtRest cfg arrives done x) false (shown ErrChip.base v) :=
    Idle.unbanked hphase (env_keeps (atRest_closed layout) (atRest_afterRead before.2.1 _) hlook)
  have hnone : ¬ decide (0 < w.chip.base.epktcnt) = true := by
    rw [hzero]
    decide
  rw [if_pos rfl, eir_pending, if_neg hnone, eir_flag, hflag, if_pos rfl] at hrest
  obtain ⟨status, hrun, -⟩ := Exec.of_map hrest
  have hbase := rest_shown (sends_rxErrorRecovery cfg) (by decide) hphase
    (fun x hx => guard x (List.mem_append_right _ hx)) hrun
  exact ((rxErrorRecovery_ends layout hc).lands hv hbase).resolve_left fun h => h

end

/-- The frames that are counted and not yet read. -/
def unread (c : RxChip) : List Frame := c.stored.drop (c.stored.length - c.epktcnt)

/-- They end where the hardware goes on. -/
def Unread (c : RxChip) (a : ℕ) : Prop :=
  ∃ n, 1 ≤ n ∧ n ≤ ((unread c).map Frame.width).sum ∧ a = c.ring.forward c.erxwrpt (c.ring.size - n)

def Writable (c : RxChip) (a : ℕ) : Prop := ∃ n < room c, a = c.ring.forward c.erxwrpt n

/-- ERXRDPT is one cell before ERDPT, no unread byte is left to the hardware, and
without unread frames it has the whole ring up to there. -/
structure Recovered (c : RxChip) : Prop where
  pointer : c.erxrdpt = c.ring.forward c.erdpt (c.ring.size - 1)
  safe : ∀ a, Unread c a → ¬ Writable c a
  free : c.epktcnt = 0 → room c + 1 = c.ring.size

section
variable {cfg : Conf} {arrives : Frame → Prop} {done : List Frame} {x : ℕ} {c : RxChip}

/-- With ERXRDPT one cell before the log, only the log is kept from the hardware. -/
theorem recovered_of_log (h : AtRest cfg arrives done x c)
    (hptr : c.erxrdpt = (rxRing cfg).cell (x + ((rxRing cfg).size - 1))) : Recovered c := by
  have hring := h.1.ring_eq
  obtain ⟨pending, free, last, hs, hcnt, hlog, hfree, hlast, hwr, -⟩ := h.1.log
  have hle := Stored.le hlog
  have hpos := (rxRing cfg).pos
  have hsum := Stored.width_sum hlog
  have hroom : room c + (last - x) + 1 = (rxRing cfg).size := by
    unfold room
    rw [hring, hptr, hwr, cell_distance _ (by omega) (by omega)]
    omega
  have hunread : unread c = pending := by
    unfold unread
    rw [hs, hcnt, List.length_append, Nat.add_zero, Nat.add_sub_cancel, List.drop_left]
  refine ⟨?_, fun a hu hw => ?_, fun hzero => ?_⟩
  · rw [hring, h.2, forward_cell]
    exact hptr
  · obtain ⟨n, hn, hn', rfl⟩ := hu
    obtain ⟨m, hm, ha⟩ := hw
    rw [hunread] at hn'
    rw [hring, hwr, forward_cell, forward_cell] at ha
    have hsame := cell_inj (rxRing cfg) ha.symm (by omega) (by omega)
    omega
  · have hnil : pending = [] := List.length_eq_zero_iff.mp (by omega)
    rw [hnil] at hsum
    rw [hring]
    simp only [List.map_nil, List.sum_nil] at hsum
    omega

/-- What the error branch leaves is as it should be exactly when ERDPT is at the
start of the ring. -/
theorem recovered_iff (layout : Layout cfg) (h : AtRingEnd cfg arrives done x c) :
    Recovered c ↔ (rxRing cfg).cell x = cfg.rxAddressStart := by
  have hring : c.ring = rxRing cfg := by
    unfold RxChip.ring rxRing
    simp only [h.erxst, h.erxnd]
  rw [← cell_before_start layout]
  constructor
  · intro hr
    have hptr := hr.pointer
    rw [hring, h.erdpt, h.erxrdpt, forward_cell] at hptr
    exact hptr.symm
  · intro hx
    exact recovered_of_log (h.rest ((cell_before_start layout).1 hx)) (h.erxrdpt.trans hx.symm)

end

/-- Reachability as for the chip without the flag. -/
def ErrStarted (cfg : Conf) (arrives : Frame → Prop) (ctx : Option SpiContext) (w : World ErrChip) : Prop :=
  ∃ (c : ErrChip) (bank : Byte) (rounds : ℕ) (macAdd : MacAddress) (u : World ErrChip)
    (t t' : List (Call × World ErrChip)),
    Exec (busMachine (errCore arrives)) (enc28DoInit cfg rounds macAdd ctx)
      ⟨(errCore arrives).reset c, .high, bank⟩ t (some .ok) u ∧
    Exec (busMachine (errCore arrives)) (enc28BeginPacketTransfer cfg ctx) u t' (some .ok) w

/-- The call finds a receive error and no frame. -/
def recovers (r : ErrRecord) : Bool := isRead r.op.op && takesRecovery r.before.chip

section
variable {cfg : Conf} {arrives : Frame → Prop} {ctx : Option SpiContext} {w u : World ErrChip}
  {rs : List ErrRecord}

theorem errStarted_shown (start : ErrStarted cfg arrives ctx w) :
    Started cfg arrives ctx (shown ErrChip.base w) ∧ w.phase = .high := by
  obtain ⟨c, bank, rounds, macAdd, v, t, t', hinit, hbegin⟩ := start
  obtain ⟨hguard, hv⟩ := (init_spec (err_laws arrives) true_benign.carries mayChange_lower
    (mayChange_upper true) cfg rounds macAdd).either.sound
    (Idle.unbanked rfl trivial) hinit
  obtain ⟨hguard', hw⟩ := (beginPacketTransfer_spec (err_laws arrives) true_benign.carries
    mayChange_lower cfg).either.sound hv hbegin
  have hinit' := rest_shown (sends_init cfg rounds macAdd) (by decide) rfl hguard hinit
  have hbegin' := rest_shown (sends_beginPacketTransfer cfg) (by decide) hv.1 hguard' hbegin
  exact ⟨⟨c.base, bank, rounds, macAdd, _, _, _, hinit', hbegin'⟩, hw.1⟩

/-- A call that does not recover leaves the log between two calls. -/
theorem other_rests (layout : Layout cfg) {r : ErrRecord} {done : List Frame} {x : ℕ}
    (call : receiverCall r.op = true) (good : FindsGood (baseRecord r [])) (hno : recovers r = false)
    (before : Idle (rxCore arrives) (AtRest cfg arrives done x) false (shown ErrChip.base r.before))
    (run : Exec (busMachine (errCore arrives)) (r.op.prog cfg) r.before r.trace (some r.result) r.after) :
    ∃ done x, Idle (rxCore arrives) (AtRest cfg arrives done x) false (shown ErrChip.base r.after) := by
  have hread : isRead r.op.op = true → takesRecovery r.before.chip = false := by
    intro hr
    simpa [recovers, hr] using hno
  obtain ⟨t', run'⟩ := call_shown call hread before.1 run
  have out : Outcome cfg arrives done x (baseRecord r t') := call_outcome layout call before run'
  cases out with
  | took packetBuf bufSize optStatusVec f op hseen good delivers rest => exact ⟨_, _, rest⟩
  | refused packetBuf bufSize optStatusVec f op hseen bad status left =>
    exact absurd (good packetBuf bufSize optStatusVec op f hseen) bad
  | empty read status hseen all rest => exact ⟨_, _, rest⟩
  | other read rest => exact ⟨_, _, rest⟩

/-- A call that recovers leaves ERXRDPT at the end of the ring. -/
theorem recovery_call (layout : Layout cfg) {r : ErrRecord} {done : List Frame} {x : ℕ}
    (call : receiverCall r.op = true) (takes : recovers r = true)
    (before : Idle (rxCore arrives) (AtRest cfg arrives done x) false (shown ErrChip.base r.before))
    (run : Exec (busMachine (errCore arrives)) (r.op.prog cfg) r.before r.trace (some r.result) r.after) :
    Idle (rxCore arrives) (AtRingEnd cfg arrives done x) false (shown ErrChip.base r.after) := by
  obtain ⟨⟨ctx, rounds, op⟩, w, t, res, u⟩ := r
  obtain ⟨hread, htakes⟩ := Bool.and_eq_true_iff.mp takes
  cases op <;> try exact absurd hread Bool.false_ne_true
  case readPacket packetBuf bufSize optStatusVec =>
    have guard := notRaw_guarded (err_laws arrives) cfg rfl before.1 run
    obtain ⟨a, hrun, -⟩ := Exec.of_map run
    exact recovery_ends layout (Bool.and_eq_true_iff.mp call).1 before htakes guard hrun

/-- As long as the frames found are good, receive errors are recovered from exactly
when ERDPT is at the start of the ring each time. -/
theorem recovered_iff_at_start (layout : Layout cfg) (hc : canWrite ctx = true)
    (start : ErrStarted cfg arrives ctx w)
    (h : Session (busMachine (errCore arrives)) (DriverCall.prog cfg) w rs u)
    (calls : ∀ r ∈ rs, receiverCall r.op = true) (good : ∀ r ∈ rs, FindsGood (baseRecord r [])) :
    (∀ r ∈ rs, recovers r = true → Recovered r.after.chip.base) ↔
      ∀ r ∈ rs, recovers r = true → r.before.chip.base.erdpt = cfg.rxAddressStart := by
  let I : World ErrChip → Prop := fun w =>
    ∃ done x, Idle (rxCore arrives) (AtRest cfg arrives done x) false (shown ErrChip.base w)
  have hstart : I w := ⟨[], 0, started_rests layout hc (errStarted_shown start).1⟩
  have hall : ∀ r ∈ rs, receiverCall r.op = true ∧ FindsGood (baseRecord r []) := fun r hr =>
    ⟨calls r hr, good r hr⟩
  refine (Session.forall_iff (I := I) h hall hstart fun r hr hI run => ?_).1
  obtain ⟨done, x, before⟩ := hI
  cases hrec : recovers r with
  | false =>
    refine ⟨iff_of_true (fun h => absurd h Bool.false_ne_true) fun h => absurd h Bool.false_ne_true, fun _ => ?_⟩
    exact other_rests layout hr.1 hr.2 hrec before run
  | true =>
    have hend := recovery_call layout hr.1 hrec before run
    have hstart : r.before.chip.base.erdpt = (rxRing cfg).cell x := before.2.1.2
    refine ⟨imp_congr_right fun _ => ?_, fun hx => ⟨done, x, hend.1, ?_, hend.2.2⟩⟩
    · rw [hstart]
      exact recovered_iff layout hend.2.1
    · exact hend.2.1.rest (hstart ▸ hx rfl)

end

section
variable (arrives : Frame → Prop)

/-- A frame `f` comes in, and is dropped if there is no room for it. -/
def receives (f : Frame) (c : ErrChip) : ErrChip :=
  if c.base.econ1.getLsbD econ1Rxen = true then
    if f.width ≤ room c.base then ⟨c.base.store f, c.rxerif⟩ else ⟨c.base, true⟩
  else c

/-- A ring with room for three frames of 60 bytes. -/
def smallRing : Conf where
  rxAddressStart := 0x1df8

def errInit : Option CommandStatus × World ErrChip :=
  (enc28DoInit smallRing 1 ⟨fun _ => 0⟩ (some fullContext)).run (busDevice (errCore arrives) id)
    ⟨(errCore arrives).reset ⟨readyChip, false⟩, .high, 0⟩

def errBegin : Option CommandStatus × World ErrChip :=
  (enc28BeginPacketTransfer smallRing (some fullContext)).run (busDevice (errCore arrives) id) (errInit arrives).2

/-- More frames come in than there is room for. -/
def fillCall (f : Frame) : DriverCall × ((e : Call) → World ErrChip → e.Reply × World ErrChip) :=
  (⟨some fullContext, 0, .checkOutgoingPacketStatus⟩, busDevice (errCore arrives) (receives f)^[4])

def errRead (f : Frame) : DriverCall × ((e : Call) → World ErrChip → e.Reply × World ErrChip) :=
  (⟨some fullContext, 0, .readPacket (List.replicate f.len 0) (BitVec.ofNat 16 f.len) none⟩,
    busDevice (errCore arrives) id)

variable {arrives}

theorem errStarted_of_runs (hinit : (errInit arrives).1 = some .ok)
    (hbegin : (errBegin arrives).1 = some .ok) :
    ErrStarted smallRing arrives (some fullContext) (errBegin arrives).2 := by
  have hdevice := busDevice_step (errCore arrives) (f := id) fun _ => ReflTransGen.refl
  obtain ⟨t, ht⟩ := run_exec hdevice (enc28DoInit smallRing 1 ⟨fun _ => 0⟩ (some fullContext))
    ⟨(errCore arrives).reset ⟨readyChip, false⟩, .high, 0⟩
  obtain ⟨t', ht'⟩ := run_exec hdevice (enc28BeginPacketTransfer smallRing (some fullContext)) (errInit arrives).2
  exact ⟨⟨readyChip, false⟩, 0, 1, ⟨fun _ => 0⟩, (errInit arrives).2, t, t', hinit ▸ ht, hbegin ▸ ht'⟩

theorem receives_env {f : Frame} (ok : arrives f) (c : ErrChip) :
    ReflTransGen (errCore arrives).env c (receives f c) := by
  unfold receives
  split_ifs with h hroom
  · exact ReflTransGen.single (.base (.receive c.base f h ok hroom))
  · exact ReflTransGen.single (.drop f h ok (Or.inl (Nat.lt_of_not_le hroom)))
  · exact ReflTransGen.refl

theorem fills_env {f : Frame} (ok : arrives f) (n : ℕ) (c : ErrChip) :
    ReflTransGen (errCore arrives).env c ((receives f)^[n] c) := by
  induction n generalizing c with
  | zero => exact ReflTransGen.refl
  | succ n ih => exact (receives_env ok c).trans (ih (receives f c))

theorem calls_env {f : Frame} (ok : arrives f)
    {calls : List (DriverCall × ((e : Call) → World ErrChip → e.Reply × World ErrChip))}
    (h : ∀ x ∈ calls, x = fillCall arrives f ∨ x = errRead arrives f) :
    ∀ x ∈ calls, ∀ e w, busMachine (errCore arrives) e w (x.2 e w).1 (x.2 e w).2 := by
  intro x hx e w
  rcases h x hx with rfl | rfl
  · refine busDevice_step _ (fun c => ?_) e w
    exact fills_env ok 4 c
  · exact busDevice_step _ (fun _ => ReflTransGen.refl) e w

end

/-- The fourth frame goes through the end of the ring, and the error of a frame before
it is found at the start. -/
theorem recovered_iff_at_start_wrapped : ∃ (w u : World ErrChip) (rs : List ErrRecord),
    ErrStarted smallRing (fun _ => True) (some fullContext) w ∧
      Session (busMachine (errCore fun _ => True)) (DriverCall.prog smallRing) w rs u ∧
      rs.countP recovers = 1 ∧ ∀ r ∈ rs, recovers r = true → Recovered r.after.chip.base := by
  let f : Frame := ⟨0x80, 0, List.replicate 60 0, by decide⟩
  let fill := fillCall (fun _ => True) f
  let read := errRead (fun _ => True) f
  have start : ErrStarted smallRing (fun _ => True) (some fullContext) (errBegin fun _ => True).2 :=
    errStarted_of_runs (by decide +kernel) (by decide +kernel)
  let fine : ErrRecord → Bool := fun r => receiverCall r.op && decide (FindsGood (baseRecord r [])) &&
    (!recovers r || r.before.chip.base.erdpt == smallRing.rxAddressStart)
  let shows : List ErrRecord × World ErrChip → Bool × ℕ := fun x => (x.1.all fine, x.1.countP recovers)
  have hrun : (runCalls (DriverCall.prog smallRing) [fill, read, fill, read, read, read, read]
      (errBegin fun _ => True).2).map shows = some (true, 1) := by decide +kernel
  have steps : ∀ x ∈ [fill, read, fill, read, read, read, read], ∀ e w,
      busMachine (errCore fun _ => True) e w (x.2 e w).1 (x.2 e w).2 :=
    calls_env (f := f) trivial (by simp [fill, read])
  obtain ⟨rs, u, hs, hv⟩ := runCalls_shows steps hrun
  simp only [shows, fine, Prod.mk.injEq, List.all_eq_true, Bool.and_eq_true, Bool.or_eq_true,
    Bool.not_eq_true', beq_iff_eq, decide_eq_true_eq] at hv
  obtain ⟨hall, hcount⟩ := hv
  refine ⟨_, u, rs, start, hs, hcount, (recovered_iff_at_start ⟨by decide, by decide, by decide⟩ rfl start hs
    (fun r hr => (hall r hr).1.1) fun r hr => (hall r hr).1.2).2 fun r hr hrec => ?_⟩
  rcases (hall r hr).2 with hno | hx
  · exact absurd (hno.symm.trans hrec) Bool.false_ne_true
  · exact hx

/-- Three frames are read before the error of a fourth is found: ERDPT is behind
them, and ERXRDPT is still moved to the end of the ring. -/
theorem recovered_fails :
    ¬ ∀ (cfg : Conf) (ctx : Option SpiContext) (w u : World ErrChip) (rs : List ErrRecord),
      Layout cfg → canWrite ctx = true → ErrStarted cfg (fun _ => True) ctx w →
      Session (busMachine (errCore fun _ => True)) (DriverCall.prog cfg) w rs u →
      (∀ r ∈ rs, receiverCall r.op = true) → (∀ r ∈ rs, FindsGood (baseRecord r [])) →
      ∀ r ∈ rs, recovers r = true → Recovered r.after.chip.base := by
  intro h
  let f : Frame := ⟨0x80, 0, List.replicate 60 0, by decide⟩
  let fill := fillCall (fun _ => True) f
  let read := errRead (fun _ => True) f
  have start : ErrStarted smallRing (fun _ => True) (some fullContext) (errBegin fun _ => True).2 :=
    errStarted_of_runs (by decide +kernel) (by decide +kernel)
  let behind : RxChip → Bool := fun c => c.erxrdpt != c.ring.forward c.erdpt (c.ring.size - 1)
  let shows : List ErrRecord × World ErrChip → Bool × Bool := fun x =>
    (x.1.all fun r => receiverCall r.op && decide (FindsGood (baseRecord r [])),
      x.1.any fun r => recovers r && behind r.after.chip.base)
  have hrun : (runCalls (DriverCall.prog smallRing) [fill, read, read, read, read]
      (errBegin fun _ => True).2).map shows = some (true, true) := by decide +kernel
  have steps : ∀ x ∈ [fill, read, read, read, read], ∀ e w,
      busMachine (errCore fun _ => True) e w (x.2 e w).1 (x.2 e w).2 :=
    calls_env (f := f) trivial (by simp [fill, read])
  obtain ⟨rs, u, hs, hv⟩ := runCalls_shows steps hrun
  simp only [shows, behind, Prod.mk.injEq, List.all_eq_true, List.any_eq_true, Bool.and_eq_true,
    decide_eq_true_eq, bne_iff_ne] at hv
  obtain ⟨hall, r, hr, hrec, hptr⟩ := hv
  have hrecovered := h smallRing _ _ u rs ⟨by decide, by decide, by decide⟩ rfl start hs
    (fun r hr => (hall r hr).1) (fun r hr => (hall r hr).2) r hr hrec
  exact hptr hrecovered.pointer

end Stm32NetworkStack.ReceiveErrors
