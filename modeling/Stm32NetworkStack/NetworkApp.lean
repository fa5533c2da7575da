import Stm32NetworkStack.TransmitTiming

set_option autoImplicit false

/-!
# The application, from reset to lwIP

`enc28_test_app` resets and sets up the controller before it creates the two
tasks. What `ip_stack_task` then hands to `net_ifc.input` are the frames that
the controller has stored since, one by one and in order.
-/
namespace Stm32NetworkStack.NetworkApp
open InteractivePrograms Enc28Registers Enc28Driver DriverCommands SpiBus BankDiscipline DriverBanks
open ReceiveLogic ReceiveStream ReceivePackets TransmitArea ReceiveStart ReceiveSessions Relation
open BoundedQueues PacketPipeline GuardedRuns PipelineRuns BufferOwnership FrameFlow TransmitTiming

/-- `ASSERT_STATUS` after a call that is followed by `k`: after an error it loops for ever. -/
def assertStatus {α : Type} (p : Driver CommandStatus) (k : Driver α) : Driver α := do
  let status ← p
  if status = .ok then k else .spin

/-- `MAC_ADDR_BYTE_0` to `MAC_ADDR_BYTE_5`. -/
def macAddr : MacAddress :=
  ⟨fun i => [(0xDE : Byte), 0xAD, 0xBE, 0xEF, 0xCC, 0xAA].getD i.val 0⟩

/-- `enc28_test_app` up to the creation of the tasks. `hwRev` is what the stack holds. -/
def enc28TestApp (cfg : Conf) (rounds : ℕ) (ctx : SpiContext) (hwRev : HwRev) : Driver Unit := do
  nssPinOp 1
  assertStatus (enc28DoSoftReset (some ctx)) <|
    assertStatus (enc28DoInit cfg rounds macAddr (some ctx)) <| do
      let (status, _) ← enc28DoReadHwRev rounds (some ctx) (some hwRev)
      if status = .ok then assertStatus (enc28BeginPacketTransfer cfg (some ctx)) (return ()) else .spin

section
variable {cfg : Conf} {arrives : Frame → Prop} {ctx : SpiContext} {w u : World RxChip}
  {t : List (Call × World RxChip)}

theorem assert_returns {α : Type} {p : Driver CommandStatus} {k : Driver α} {a : α}
    (run : Exec (busMachine (rxCore arrives)) (assertStatus p k) w t (some a) u) :
    ∃ v t₁ t₂, Exec (busMachine (rxCore arrives)) p w t₁ (some .ok) v ∧
      Exec (busMachine (rxCore arrives)) k v t₂ (some a) u := by
  obtain ⟨status, v, t₁, t₂, hp, hk, -⟩ := Exec.of_bind run
  by_cases hs : status = .ok
  · subst hs
    exact ⟨v, t₁, t₂, hp, hk⟩
  · rw [if_neg hs] at hk
    cases hk

theorem softReset_off (run : Exec (busMachine (rxCore arrives)) (enc28DoSoftReset (some ctx)) w t (some .ok) u) :
    Idle (rxCore arrives) Off false u := by
  let Q : Option CommandStatus → World RxChip → Prop := fun o u =>
    o = some .ok → Idle (rxCore arrives) Off false u
  have hbits : (0 : Byte).getLsbD econ1Rxen = false ∧ (0 : Byte).getLsbD econ1Txrts = false := by
    decide
  have hoff : EnvClosed (rxCore arrives) Off :=
    off_closed (fun _ h => h) fun _ _ h => ⟨h.rxen, h.txrts, h.epktcnt, h.stored⟩
  have h : wp (busMachine (rxCore arrives)) (BusGuard.free RxChip).holds (enc28DoSoftReset (some ctx)) Q w :=
    wp_softReset (fun _ h => absurd h (by decide)) fun _ => ⟨trivial, fun c hc _ =>
      Idle.unbanked rfl (env_keeps hoff ⟨hbits.1, hbits.2, rfl, rfl⟩ hc)⟩
  exact (wp_sound h run).2 rfl

/-- Only a chip that is ready to receive, with an empty ring, lets the start-up get
to the tasks; it does not matter what state it was in before. -/
theorem testApp_rests (layout : Layout cfg) {rounds : ℕ} {hwRev : HwRev}
    (run : Exec (busMachine (rxCore arrives)) (enc28TestApp cfg rounds ctx hwRev) w t (some ()) u) :
    canWrite (some ctx) = true ∧ InBank (rxCore arrives) (AtRest cfg arrives [] 0) 0 u := by
  obtain ⟨_, w₁, _, _, run⟩ := run.of_call
  obtain ⟨w₂, t₂, _, hreset, run⟩ := assert_returns run.1
  obtain ⟨w₃, t₃, _, hinit, run⟩ := assert_returns run
  obtain ⟨⟨status, rev⟩, w₄, t₄, _, hrev, run, -⟩ := Exec.of_bind run
  have hc : canWrite (some ctx) = true := by
    cases hc : canWrite (some ctx) with
    | true => rfl
    | false => exact absurd rfl (hinit.returns (init_refused hc cfg rounds macAddr))
  have hoff := softReset_off hreset
  have hprepared := ((init_prepares layout hc rounds macAddr).sound hoff hinit).2
  have hread := ((readHwRev_spec (rx_laws arrives) prepared_benign.carries (mayChange_upper false).mii rounds
    (some hwRev)).sound hprepared hrev).2
  dsimp only at run
  split_ifs at run with hs
  · obtain ⟨w₅, t₅, _, hbegin, run⟩ := assert_returns run
    cases run
    exact ⟨hc, ((beginPacketTransfer_receives layout hc).sound hread hbegin).2⟩
  · cases run

end

/-- The frame as the application sees it: its bytes, and their number. -/
def frameBytes (f : Frame) : List Byte × Word := (f.data, f.vector.packetLen)

section
variable {N : ℕ} {cfg : Conf} {arrives : Frame → Prop} {ctx : Option SpiContext}

/-- The chip is at a frame boundary, and the frames before it are those that the
task has received. -/
def Caught (cfg : Conf) (arrives : Frame → Prop) (s : State N (World RxChip)) : Prop :=
  ∃ done x, Idle (rxCore arrives) (AtRest cfg arrives done x) false s.world ∧
    s.received = done.map frameBytes

/-- All frames are good for the buffer of the task. -/
abbrev fitting : Frame → Prop := acceptable maxEthPacketSize

variable {s u : State N (World RxChip)} {a : Act N}

theorem read_catches (layout : Layout cfg) (hc : canWrite ctx = true) {done : List Frame} {x : ℕ}
    {w v : World RxChip} {t : List (Call × World RxChip)} {pktBuf : List Byte}
    {statusVec : ReceiveStatusVector} {r : ReadResult}
    (rest : Idle (rxCore fitting) (AtRest cfg fitting done x) false w)
    (run : Exec (busMachine (rxCore fitting))
      (enc28ReadPacket cfg ctx pktBuf (BitVec.ofNat 16 maxEthPacketSize) (some statusVec)) w t (some r) v) :
    (∃ f x', r = ⟨.ok, f.data ++ pktBuf.drop f.len, some f.vector⟩ ∧
        Idle (rxCore fitting) (AtRest cfg fitting (done ++ [f]) x') false v) ∨
      r.status ≠ .ok ∧ Idle (rxCore fitting) (AtRest cfg fitting done x) false v := by
  have hstart : Idle (rxCore fitting) (fun c => Receiving cfg fitting done x 0 c ∧
      c.erdpt = (rxRing cfg).cell x ∧ w.chip.stored <+: c.stored) false w :=
    ⟨rest.1, ⟨rest.2.1.1, rest.2.1.2, List.prefix_refl _⟩, rest.2.2⟩
  obtain ⟨-, hend⟩ := (readPacket_reads layout hc _ _ _).sound hstart run
  rcases hend with ⟨f, -, ⟨-, hr, hpast⟩ | ⟨hbad, -, hleft⟩⟩ | ⟨hr, -, -, hrest⟩
  · exact Or.inl ⟨f, _, hr, hpast.1, ⟨hpast.2.1.1, hpast.2.1.2.1⟩, hpast.2.2⟩
  · exact absurd (hleft.2.1.1.arrived f (atRest_of_reading hleft.2.1)) hbad
  · refine Or.inr ⟨fun hok => ?_, hrest⟩
    rw [hr] at hok
    cases hok

theorem packetStep_caught (layout : Layout cfg) (hc : canWrite ctx = true) (hz : Sized s) (ho : Ordered s)
    (h : Caught cfg fitting s) (st : PacketStep (chipDriver (rxCore fitting) cfg ctx) s a u) :
    Caught cfg fitting u := by
  obtain ⟨done, x, hrest, hreceived⟩ := h
  cases st with
  | publish | publishFails | publishDone | clear | takeFree | fill | sendReady | pollTransmit | pollNothing
  | giveBackSent | wake => exact ⟨done, x, hrest, hreceived⟩
  | @readFrame r w pc call ok =>
    obtain ⟨t, run⟩ := call
    rcases read_catches layout hc hrest run with ⟨f, x', rfl, hpast⟩ | ⟨hne, -⟩
    · refine ⟨done ++ [f], x', hpast, ?_⟩
      have hlen : (f.data ++ s.pktBuf.drop f.len).take f.vector.packetLen.toNat = f.data := by
        rw [packetLen_toNat]
        exact List.take_left
      change s.received ++ [((f.data ++ s.pktBuf.drop f.len).take f.vector.packetLen.toNat,
        f.vector.packetLen)] = _
      rw [hlen, hreceived, List.map_append]
      rfl
    · exact absurd ok hne
  | @readNothing r w pc call other =>
    obtain ⟨t, run⟩ := call
    rcases read_catches layout hc hrest run with ⟨f, x', rfl, -⟩ | ⟨-, hrest'⟩
    · exact absurd rfl other
    · exact ⟨done, x, hrest', hreceived⟩
  | @write b status w pc call =>
    obtain ⟨t, run⟩ := call
    have hb : b ∈ inbound s ++ outbound s := by simp [outbound, writes, pc]
    have hend := ((writePacket_rests layout hc _ _ (used_fits hz ho b hb)).sound hrest run).2
    change okOr _ _ status w at hend
    rw [okOr_self] at hend
    exact ⟨done, x, hend, hreceived⟩

theorem step_caught (layout : Layout cfg) (hc : canWrite ctx = true) (hz : Sized s) (ho : Ordered s)
    (h : Caught cfg fitting s) (st : Step (chipDriver (rxCore fitting) cfg ctx) true s a u) :
    Caught cfg fitting u := by
  cases st with
  | packet live step => exact packetStep_caught layout hc hz ho h step
  | ip live step =>
    obtain ⟨done, x, hrest, hreceived⟩ := h
    cases step <;> exact ⟨done, x, hrest, hreceived⟩
  | device live act acts next =>
    obtain ⟨done, x, hrest, hreceived⟩ := h
    subst next
    obtain ⟨c, hacts, rfl⟩ := acts
    exact ⟨done, x, ⟨hrest.1, env_keeps (atRest_closed layout) hrest.2.1 hacts, nofun⟩, hreceived⟩

end

/-- From whatever state the chip was in before the start-up: what lwIP is given is
the beginning of what the controller has stored, and what the task has not received
yet is what EPKTCNT counts. -/
theorem firmware_receives_in_order {N rounds : ℕ} {cfg : Conf} {ctx : SpiContext} {hwRev : HwRev}
    (layout : Layout cfg) {w₀ w : World RxChip} {t₀ : List (Call × World RxChip)}
    (boot : Exec (busMachine (rxCore fitting)) (enc28TestApp cfg rounds ctx hwRev) w₀ t₀ (some ()) w)
    {pktBuf : List Byte} {statusVec : ReceiveStatusVector} {pbufCst : PbufCustom N} {first last : Task}
    {s : State N (World RxChip)} {t : List ((State N (World RxChip) × Task) × Act N)}
    (run : CoopRun (chipDriver (rxCore fitting) cfg (some ctx)) true
      (start w pktBuf statusVec pbufCst, first) t (s, last))
    (size : pktBuf.length = maxEthPacketSize) (frees : ∀ e ∈ t, FreesBeforeReturn e.1.1 e.2)
    (fits : ∀ e ∈ t, OutputFits e.2) :
    s.inputs.map Prod.snd <+: s.world.chip.stored.map frameBytes ∧
      s.received.length + s.world.chip.epktcnt = s.world.chip.stored.length := by
  obtain ⟨hc, hready⟩ := testApp_rests layout boot
  have hstart : Sized (start w pktBuf statusVec pbufCst) :=
    ⟨fun b => List.length_replicate, size, nofun, nofun, nofun⟩
  have hinv := run.invariant (C := fun x a => FreesBeforeReturn x.1 a ∧ OutputFits a)
    (I := fun x => Sound true x.1 ∧ ClearsFree x.1 ∧ Sized x.1 ∧ Ordered x.1 ∧ (x.2 = .ip → ¬ clearing x.1) ∧
      Caught cfg fitting x.1)
    (fun e he => ⟨frees e he, fits e he⟩)
    ⟨start_sound w pktBuf statusVec pbufCst, nofun, hstart, ⟨rfl, rfl⟩, fun _ => nofun,
      [], 0, hready.idle, rfl⟩ ?_
  · obtain ⟨-, -, -, ho, -, done, x, hrest, hreceived⟩ := hinv
    have hin : s.inputs.map Prod.snd <+: s.received := ⟨_, ho.inputs⟩
    have hstored : done.map frameBytes <+: s.world.chip.stored.map frameBytes :=
      (atRest_done hrest.2.1).map _
    refine ⟨(hreceived ▸ hin).trans hstored, ?_⟩
    have hcount : s.world.chip.epktcnt + done.length = s.world.chip.stored.length :=
      receiving_counted hrest.2.1.1
    rw [hreceived, List.length_map]
    omega
  · rintro ⟨s, k⟩ a ⟨u, k'⟩ ⟨hs, hcl, hz, ho, ha, hcaught⟩ ⟨hfree, hfit⟩ st
    obtain ⟨halone, ha'⟩ := coop_alone ha st
    have reads := driverDevice_readsFit (busMachine (rxCore fitting)) (chipActs (rxCore fitting)) cfg (some ctx)
    exact ⟨step_sound hs (fun _ => hfree) st.step, step_clears hcl halone st.step,
      step_sized reads hs hz ho hfit st.step, step_ordered hs hcl hz ho st.step, ha',
      step_caught layout hc hz ho hcaught st.step⟩

def bootRun : Option Unit × World RxChip :=
  (enc28TestApp smallRing 1 fullContext ⟨0, 0, 0⟩).run (busDevice (rxCore fitting) id) ⟨readyChip, .rbm, 2⟩

abbrev bootDriver : Device (World RxChip) := chipDriver (rxCore fitting) smallRing (some fullContext)

abbrev bootRunner : RunDevice (World RxChip) :=
  runDriver (busDevice (rxCore fitting) id) (fun w => { w with chip := storeNext threeFrames w.chip }) smallRing
    (some fullContext)

theorem bootRunner_refines : Refines bootRunner bootDriver := by
  have good : ∀ f ∈ threeFrames, fitting f := by
    unfold fitting acceptable
    decide
  exact runDriver_refines smallRing (some fullContext) (busDevice_step _ fun _ => ReflTransGen.refl)
    fun w => ⟨storeNext threeFrames w.chip, storeNext_env good w.chip, rfl⟩

def bootStart : State maxEthPackets (World RxChip) :=
  start bootRun.2 (List.replicate maxEthPacketSize 0) ⟨0, 0, 0, 0⟩ ⟨0, none⟩

abbrev bootCoop : State maxEthPackets (World RxChip) × Task → Act maxEthPackets →
    Option (State maxEthPackets (World RxChip) × Task) :=
  coopFire (fire bootRunner true) owner blocked

/-- Three frames arrive after the start-up, the last one in the place of the first,
and lwIP answers each of them. -/
def answerThree : List (Act maxEthPackets) :=
  startUp ++ (List.replicate 3 (.idle :: passFrame)).flatten ++ [.readNothing, .pollTransmit] ++
    (((List.finRange maxEthPackets).take 3).map answerFrame).flatten

theorem firmware_receives_in_order_frames :
    ∃ (t₀ : List (Call × World RxChip)) (s : State maxEthPackets (World RxChip)) (last : Task)
      (t : List ((State maxEthPackets (World RxChip) × Task) × Act maxEthPackets)),
      Exec (busMachine (rxCore fitting)) (enc28TestApp smallRing 1 fullContext ⟨0, 0, 0⟩) ⟨readyChip, .rbm, 2⟩ t₀
        (some ()) bootRun.2 ∧
      CoopRun bootDriver true (bootStart, .ip) t (s, last) ∧ (∀ e ∈ t, FreesBeforeReturn e.1.1 e.2) ∧
      (∀ e ∈ t, OutputFits e.2) ∧ s.inputs.map (fun x => x.2.1) = threeFrames.map Frame.data ∧
      s.inputs.map Prod.snd <+: s.world.chip.stored.map frameBytes ∧
      s.received.length + s.world.chip.epktcnt = s.world.chip.stored.length := by
  have hboot : bootRun.1 = some () := by decide +kernel
  obtain ⟨t₀, boot⟩ := run_exec (busDevice_step (rxCore fitting) fun _ => ReflTransGen.refl)
    (enc28TestApp smallRing 1 fullContext ⟨0, 0, 0⟩) ⟨readyChip, .rbm, 2⟩
  replace boot := hboot ▸ boot
  have hrun : (fireAll bootCoop answerThree (bootStart, .ip)).map (fun x => x.1.inputs.map fun i => i.2.1) =
      some (threeFrames.map Frame.data) := by
    decide +kernel
  obtain ⟨⟨s, last⟩, hs, hinputs⟩ := Option.map_eq_some_iff.mp hrun
  have run := fireAll_run (coopFire_sound (fire_sound true bootRunner_refines)) hs
  have hfrees : ∀ e ∈ fireTrace bootCoop answerThree (bootStart, .ip), FreesBeforeReturn e.1.1 e.2 := by
    decide +kernel
  have hfits : ∀ e ∈ fireTrace bootCoop answerThree (bootStart, .ip), OutputFits e.2 := by
    decide +kernel
  exact ⟨t₀, s, last, _, boot, run, hfrees, hfits, hinputs, firmware_receives_in_order ⟨by decide, by decide, by decide⟩
    boot run List.length_replicate hfrees hfits⟩

end Stm32NetworkStack.NetworkApp
