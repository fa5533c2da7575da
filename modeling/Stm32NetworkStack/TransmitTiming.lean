import Stm32NetworkStack.DriverCommands
import Stm32NetworkStack.FrameFlow
import Stm32NetworkStack.ReceiveSessions

set_option autoImplicit false

/-!
# The packet task and a busy transmitter

`packet_handling_task` asserts that `enc28_write_packet` accepts each reply. The
driver refuses one while TXRTS is set, so the assertion holds as long as the
chip has sent one reply before the task comes to the next.
-/
namespace Stm32NetworkStack.TransmitTiming
open InteractivePrograms Enc28Registers Enc28Driver DriverCommands SpiBus BankDiscipline DriverBanks Relation
open BoundedQueues PacketPipeline GuardedRuns PipelineRuns ReceiveLogic ReceiveSessions
open FrameFlow (writes)

section
variable {κ : Type} {C : ChipCore κ} {cfg : Conf} {ctx : Option SpiContext} {w u : World κ}
  {t : List (Call × World κ)}

def transmitting (C : ChipCore κ) (w : World κ) : Bool := (C.econ1 w.chip).getLsbD econ1Txrts

/-- A packet that is long enough is accepted exactly when no transmission is under way. -/
theorem writePacket_status (laws : BankLaws C) (hc : canWrite ctx = true) {buf : List Byte} {n : Word}
    (full : 14 ≤ n.toNat) {status : CommandStatus}
    (run : Exec (busMachine C) (enc28WritePacket cfg ctx (some buf) n) w t (some status) u) :
    status = .ok ↔ transmitting C w = false := by
  cases ctx with
  | none => cases hc
  | some c =>
    have hlong : ¬ n.toNat < 14 := by omega
    simp only [enc28WritePacket, bind_eq, pure_eq, if_neg hlong] at run
    obtain ⟨r, v, t₁, t₂, hread, hrest, -⟩ := Exec.of_bind run
    have hvalue : r = (.ok, C.econ1 w.chip) := by
      have hshared : dropsByte w .econ1 = dummyDue C w .econ1 := shared_agreed w rfl (by decide)
      have hspec : wp (busMachine C) (BusGuard.free κ).holds (enc28DoReadCtlReg (some c) .econ1 (some 0))
          (fun o _ => o = some (.ok, C.econ1 w.chip)) w := by
        refine wp_readCtlReg (fun hf _ _ => ?_) fun _ _ => ⟨⟨trivial, trivial⟩, fun d _ => ?_⟩
        · rcases hf with hf | hf
          · exact absurd ((canRead_of_canWrite hc).symm.trans hf) (by decide)
          · exact absurd hf (by decide)
        · have hecon1 : C.readReg w.chip CtlReg.econ1.addr = C.econ1 w.chip := laws.read w.chip
          rw [readValue_agreed C w .econ1 hshared, hecon1]
      exact Option.some.inj (wp_sound hspec hread).2
    subst hvalue
    rw [if_pos rfl] at hrest
    unfold transmitting
    cases ht : (C.econ1 w.chip).getLsbD econ1Txrts with
    | true =>
      rw [if_pos ht] at hrest
      cases hrest
      exact ⟨nofun, nofun⟩
    | false =>
      rw [if_neg (by simp [ht])] at hrest
      exact ⟨fun _ => rfl, fun _ => hrest.returns (transmitPacket_ok hc cfg buf n)⟩

theorem writePacket_phase (laws : BankLaws C) (idle : w.phase = .high) {buf : List Byte} {n : Word}
    {status : CommandStatus}
    (run : Exec (busMachine C) (enc28WritePacket cfg ctx (some buf) n) w t (some status) u) :
    u.phase = .high := by
  have hspec : Spec C (Idle C (fun _ => True) false) (enc28WritePacket cfg ctx (some buf) n)
      (Idle C (fun _ => True) false) (Idle C (fun _ => True) false) :=
    writePacket_spec laws true_phases.within mayChange_lower cfg (some buf) n
  have hend := (Triple.sound hspec ⟨idle, trivial, nofun⟩ run).2
  simp only [ends, okOr_self] at hend
  exact hend.1

theorem readPacket_phase (laws : BankLaws C) (idle : w.phase = .high) {buf : List Byte} {n : Word}
    {v : Option ReceiveStatusVector} {r : ReadResult}
    (run : Exec (busMachine C) (enc28ReadPacket cfg ctx buf n v) w t (some r) u) : u.phase = .high := by
  have hspec : Bank C (Idle C (fun _ => True) false) (enc28ReadPacket cfg ctx buf n v)
      (fun _ => Idle C (fun _ => True) false) (Idle C (fun _ => True) false) :=
    readPacket_spec laws true_benign.carries mayChange_lower cfg buf n v
  exact (Triple.sound hspec ⟨idle, trivial, nofun⟩ run).2.1

end

section
variable {N : ℕ} {κ : Type} (C : ChipCore κ)

def chipActs (w u : World κ) : Prop := ∃ c, ReflTransGen C.env w.chip c ∧ u = { w with chip := c }

abbrev chipDriver (cfg : Conf) (ctx : Option SpiContext) : Device (World κ) :=
  driverDevice (busMachine C) (chipActs C) cfg ctx

/-- A reply that is handed to the driver has 14 bytes at least. -/
def FullFrame (s : State N (World κ)) (a : Act N) : Prop :=
  a = .write → ∀ b, s.packetPc = .write b → 14 ≤ (s.ethPackets b).usedBytes.toNat

instance (s : State N (World κ)) (a : Act N) : Decidable (FullFrame s a) :=
  inferInstanceAs (Decidable (_ → ∀ _, _ → _))

/-- The last transmission is over when the next reply is handed to the driver. -/
def TransmitterIdle (s : State N (World κ)) (a : Act N) : Prop :=
  a = .write → transmitting C s.world = false

instance (s : State N (World κ)) (a : Act N) : Decidable (TransmitterIdle C s a) :=
  inferInstanceAs (Decidable (_ → _))

/-- The assertion on `send_stat` has failed. -/
def WriteFailed (s : State N (World κ)) : Prop := ∃ b, s.packetPc = .halted (some b)

/-- The buffer that has been accepted and not been put back. -/
def accepted : PacketPc N → List (Fin N)
  | .giveBack b => [b]
  | _ => []

/-- Each buffer taken from the transmit queue is accepted once, and then put back. -/
structure SentOnce (s : State N (World κ)) : Prop where
  ok : ∀ x ∈ s.written, x.2.2 = .ok
  polled : s.polled = s.written.map Prod.fst ++ writes s.packetPc
  returned : s.written.map Prod.fst = s.returned ++ accepted s.packetPc

structure Serving (s : State N (World κ)) : Prop where
  phase : s.world.phase = .high
  runs : ¬ WriteFailed s
  sent : SentOnce s

variable {C} {cfg : Conf} {ctx : Option SpiContext} {useLwip : Bool} {s u : State N (World κ)} {a : Act N}

theorem packetStep_serving (laws : BankLaws C) (hc : canWrite ctx = true) (full : FullFrame s a)
    (h : Serving s) (clear : TransmitterIdle C s a) (st : PacketStep (chipDriver C cfg ctx) s a u) :
    Serving u := by
  obtain ⟨hphase, hruns, hok, hpolled, hreturned⟩ := h
  cases st with
  | publish pc | publishFails pc | publishDone pc | clear pc | takeFree pc | fill pc | sendReady pc
  | pollNothing pc | wake pc =>
    simp only [writes, accepted, pc] at hpolled hreturned
    refine ⟨hphase, ?_, hok, hpolled, hreturned⟩
    rintro ⟨b, h⟩
    cases h
  | readFrame pc call | readNothing pc call =>
    obtain ⟨t, run⟩ := call
    simp only [writes, accepted, pc] at hpolled hreturned
    refine ⟨readPacket_phase laws hphase run, ?_, hok, hpolled, hreturned⟩
    rintro ⟨b, h⟩
    cases h
  | @pollTransmit b q pc got =>
    simp only [writes, accepted, pc, List.append_nil] at hpolled hreturned
    refine ⟨hphase, ?_, hok, ?_, ?_⟩
    · rintro ⟨c, h⟩
      cases h
    · simp only [writes, hpolled]
    · simpa only [accepted, List.append_nil] using hreturned
  | @write b status w pc call =>
    obtain ⟨t, run⟩ := call
    have hstatus : status = .ok :=
      (writePacket_status laws hc (full rfl b pc) run).mpr (clear rfl)
    simp only [writes, accepted, pc, List.append_nil] at hpolled hreturned
    subst hstatus
    refine ⟨writePacket_phase laws hphase run, ?_, fun x hx => ?_, ?_, ?_⟩
    · rintro ⟨c, h⟩
      cases h
    · rcases List.mem_append.mp hx with hx | hx
      · exact hok x hx
      · rw [List.mem_singleton.mp hx]
    · simp [writes, hpolled]
    · simp [accepted, hreturned]
  | @giveBackSent b pc =>
    simp only [writes, accepted, pc, List.append_nil] at hpolled hreturned
    refine ⟨hphase, ?_, hok, ?_, ?_⟩
    · rintro ⟨c, h⟩
      cases h
    · simpa only [writes, List.append_nil] using hpolled
    · simpa only [accepted, List.append_nil] using hreturned

theorem ipStep_serving (h : Serving s) (st : IpStep useLwip s a u) : Serving u := by
  obtain ⟨hphase, hruns, hsent⟩ := h
  cases st <;> exact ⟨hphase, hruns, hsent.ok, hsent.polled, hsent.returned⟩

theorem step_serving (laws : BankLaws C) (hc : canWrite ctx = true) (full : FullFrame s a)
    (h : Serving s) (clear : TransmitterIdle C s a) (st : Step (chipDriver C cfg ctx) useLwip s a u) :
    Serving u := by
  cases st with
  | packet live step => exact packetStep_serving laws hc full h clear step
  | ip live step => exact ipStep_serving h step
  | device live act acts next =>
    subst next
    obtain ⟨c, -, rfl⟩ := acts
    exact ⟨h.phase, h.runs, h.sent.ok, h.sent.polled, h.sent.returned⟩

theorem step_halts (laws : BankLaws C) (hc : canWrite ctx = true) (full : FullFrame s a)
    (busy : ¬ TransmitterIdle C s a) (st : Step (chipDriver C cfg ctx) useLwip s a u) : WriteFailed u := by
  obtain ⟨rfl, htx⟩ := Classical.not_imp.mp busy
  cases st with
  | packet live step =>
    cases step with
    | @write b status w pc call =>
      obtain ⟨t, run⟩ := call
      have hstatus : status ≠ .ok := fun hs =>
        htx ((writePacket_status laws hc (full rfl b pc) run).mp hs)
      exact ⟨b, if_neg hstatus⟩
  | ip live step => cases step
  | device live act acts next => cases act

theorem failed_halted (h : WriteFailed s) : s.halted = true := by
  obtain ⟨b, hb⟩ := h
  simp only [State.halted, hb]

theorem step_live (st : Step (chipDriver C cfg ctx) useLwip s a u) : s.halted = false := by
  cases st <;> assumption

/-- The assertion holds exactly as long as no reply comes while TXRTS is set; then
each reply is accepted once before its buffer is put back. -/
theorem writes_accepted_iff_transmitter_idle (laws : BankLaws C) (hc : canWrite ctx = true) {w : World κ}
    {pktBuf : List Byte} {statusVec : ReceiveStatusVector} {pbufCst : PbufCustom N}
    {t : List (State N (World κ) × Act N)} (idle : w.phase = .high)
    (run : Run (Step (chipDriver C cfg ctx) useLwip) (start w pktBuf statusVec pbufCst) t s)
    (full : ∀ e ∈ t, FullFrame e.1 e.2) :
    ((∀ e ∈ t, TransmitterIdle C e.1 e.2) ↔ ¬ WriteFailed s) ∧
      ((∀ e ∈ t, TransmitterIdle C e.1 e.2) → SentOnce s) := by
  have hstart : Serving (start w pktBuf statusVec pbufCst) := by
    refine ⟨idle, ?_, fun x hx => absurd hx List.not_mem_nil, rfl, rfl⟩
    rintro ⟨b, h⟩
    cases h
  have hiff := run.ok_iff full hstart (C := TransmitterIdle C) (F := WriteFailed)
    (fun s a u hf hi hclear st => step_serving laws hc hf hi hclear st)
    (fun s a u hf hi hbusy st => step_halts laws hc hf hbusy st)
    (fun s a u hf hfail st => absurd ((failed_halted hfail).symm.trans (step_live st)) (by decide))
    (fun s hi => hi.runs)
  exact ⟨hiff.1, fun hall => (hiff.2 hall).sent⟩

end

def echoFrame : Frame := ⟨0x80, 0, pingRequest, by decide⟩

/-- The chip receives two echo requests, and after that it ends its transmissions. -/
def receivesTwo (c : RxChip) : RxChip :=
  if c.stored.length < 2 then
    if c.econ1.getLsbD econ1Rxen = true ∧
        echoFrame.width ≤ (c.erxrdpt + c.ring.size - c.erxwrpt) % c.ring.size then c.store echoFrame
    else c
  else if c.econ1.getLsbD econ1Txrts = true then c.transmitted fun _ => 0
  else c

abbrev anyFrames : ChipCore RxChip := rxCore fun _ => True

theorem receivesTwo_env (c : RxChip) : ReflTransGen anyFrames.env c (receivesTwo c) := by
  unfold receivesTwo
  split_ifs with hfew hroom htx
  · exact ReflTransGen.single (.receive c echoFrame hroom.1 trivial hroom.2)
  · exact ReflTransGen.refl
  · exact ReflTransGen.single (.transmit c _ htx)
  · exact ReflTransGen.refl

abbrev echoDriver : Device (World RxChip) := chipDriver anyFrames {} (some fullContext)

abbrev echoRunner : RunDevice (World RxChip) :=
  runDriver (busDevice anyFrames id) (fun w => { w with chip := receivesTwo w.chip }) {} (some fullContext)

theorem echoRunner_refines : Refines echoRunner echoDriver :=
  runDriver_refines {} (some fullContext) (busDevice_step anyFrames fun _ => ReflTransGen.refl)
    fun w => ⟨receivesTwo w.chip, receivesTwo_env w.chip, rfl⟩

def echoStart : State maxEthPackets (World RxChip) :=
  start (beginRun {} fun _ => True).2 (List.replicate maxEthPacketSize 0) ⟨0, 0, 0, 0⟩ ⟨0, none⟩

abbrev echoCoop : State maxEthPackets (World RxChip) × Task → Act maxEthPackets →
    Option (State maxEthPackets (World RxChip) × Task) :=
  coopFire (fire echoRunner true) owner blocked

/-- Two echo requests are answered before the first reply is sent. -/
def twoReplies : List (Act maxEthPackets) :=
  startUp ++ [.idle, .idle] ++ passFrame ++ passFrame ++ [.readNothing, .pollTransmit] ++
    (((List.finRange maxEthPackets).take 2).map answerFrame).flatten ++
    [.wake, .readNothing, .pollTransmit, .write, .giveBackSent]

def nextReply : List (Act maxEthPackets) := [.wake, .readNothing, .pollTransmit, .write]

theorem echoCoop_run {acts : List (Act maxEthPackets)} {x y : State maxEthPackets (World RxChip) × Task}
    (h : fireAll echoCoop acts x = some y) : CoopRun echoDriver true x (fireTrace echoCoop acts x) y :=
  fireAll_run (coopFire_sound (fire_sound true echoRunner_refines)) h

theorem writes_accepted_iff_transmitter_idle_echoes :
    ∃ (s : State maxEthPackets (World RxChip)) (t : List (State maxEthPackets (World RxChip) × Act maxEthPackets)),
      Run (Step echoDriver true) echoStart t s ∧ (∀ e ∈ t, FullFrame e.1 e.2) ∧
        (∀ e ∈ t, TransmitterIdle anyFrames e.1 e.2) ∧ s.polled = [2, 3] ∧ ¬ WriteFailed s ∧ SentOnce s := by
  have hrun : (fireAll echoCoop (twoReplies ++ .idle :: nextReply) (echoStart, .ip)).map
      (fun x => x.1.polled) = some [2, 3] := by
    decide +kernel
  obtain ⟨⟨s, last⟩, hs, hpolled⟩ := Option.map_eq_some_iff.mp hrun
  have hfull : ∀ e ∈ fireTrace echoCoop (twoReplies ++ .idle :: nextReply) (echoStart, .ip),
      FullFrame e.1.1 e.2 := by
    decide +kernel
  have hidle : ∀ e ∈ fireTrace echoCoop (twoReplies ++ .idle :: nextReply) (echoStart, .ip),
      TransmitterIdle anyFrames e.1.1 e.2 := by
    decide +kernel
  have hphase : (beginRun {} fun _ => True).2.phase = .high := by
    decide +kernel
  have run := coop_run (echoCoop_run hs)
  have hboth := writes_accepted_iff_transmitter_idle (rx_laws _) rfl hphase run (List.forall_mem_map.mpr hfull)
  refine ⟨s, _, run, List.forall_mem_map.mpr hfull, List.forall_mem_map.mpr hidle, hpolled, ?_, ?_⟩
  · exact hboth.1.mp (List.forall_mem_map.mpr hidle)
  · exact hboth.2 (List.forall_mem_map.mpr hidle)

/-- The task wakes up while the first reply is being sent. -/
theorem early_wake_fails_assertion :
    ¬ ∀ (first last : Task) (s : State maxEthPackets (World RxChip))
      (t : List ((State maxEthPackets (World RxChip) × Task) × Act maxEthPackets)),
      CoopRun echoDriver true (echoStart, first) t (s, last) → (∀ e ∈ t, FullFrame e.1.1 e.2) →
        ¬ WriteFailed s := by
  intro h
  have hrun : (fireAll echoCoop (twoReplies ++ nextReply) (echoStart, .ip)).map
      (fun x => x.1.packetPc) = some (.halted (some 3)) := by
    decide +kernel
  obtain ⟨⟨s, last⟩, hs, hpc⟩ := Option.map_eq_some_iff.mp hrun
  have hfull : ∀ e ∈ fireTrace echoCoop (twoReplies ++ nextReply) (echoStart, .ip), FullFrame e.1.1 e.2 := by
    decide +kernel
  exact h .ip last s _ (echoCoop_run hs) hfull ⟨3, hpc⟩

end Stm32NetworkStack.TransmitTiming
