import Stm32NetworkStack.ReceiveSessions

set_option autoImplicit false

/-!
# Stopping and resuming reception

`enc28_end_packet_transfer` switches reception off and leaves the log as it is.
`enc28_begin_packet_transfer` switches it on again, and moves ERDPT to the start
of the ring, wherever the next frame is.
-/
namespace Stm32NetworkStack.StopResume
open InteractivePrograms Enc28Registers Enc28Driver SpiBus BankDiscipline DriverBanks RingLog
open ReceiveLogic ReceiveStream ReceivePackets TransmitArea ReceiveStart ReceiveSessions Relation

/-- The frames lie one behind the other from the start of the ring on; the first
one that the driver has not counted off comes next. -/
def nextFrameAddress (cfg : Conf) (c : RxChip) : ℕ :=
  (rxRing cfg).cell ((c.stored.take (c.stored.length - c.epktcnt)).map Frame.width).sum

def isBegin : DriverOp → Bool
  | .beginPacketTransfer => true
  | _ => false

def streamCall (c : DriverCall) : Bool :=
  match c.op with
  | .beginPacketTransfer | .endPacketTransfer => canWrite c.ctx
  | _ => receiverCall c

section
variable {cfg : Conf} {arrives : Frame → Prop} {ctx : Option SpiContext} {done : List Frame} {x : ℕ}
  {agree : Bool} {c : RxChip} {r : RxRecord}

theorem receiving_econ1 {extra : ℕ} (h : Receiving cfg arrives done x extra c) {v : Byte}
    (hv : v.getLsbD econ1Txrts = c.econ1.getLsbD econ1Txrts) :
    Receiving cfg arrives done x extra { c with econ1 := v } :=
  ⟨h.erxst, h.erxnd, fun hon => h.transmit (hv.symm.trans hon), h.arrived, h.log⟩

theorem nextFrameAddress_of_log (h : Receiving cfg arrives done x 0 c)
    (hx : x = (done.map Frame.width).sum) : nextFrameAddress cfg c = (rxRing cfg).cell x := by
  obtain ⟨pending, _, _, hs, hcnt, -⟩ := h.log
  have hdone : c.stored.take (c.stored.length - c.epktcnt) = done := by
    rw [hs, hcnt, List.length_append, Nat.add_zero, Nat.add_sub_cancel, List.take_left]
  unfold nextFrameAddress
  rw [hdone, hx]

/-- The log goes on, and ERDPT is at the start of the ring. -/
theorem beginPacketTransfer_resumes (layout : Layout cfg) (hc : canWrite ctx = true) :
    Spec (rxCore arrives) (Idle (rxCore arrives) (AtRest cfg arrives done x) agree)
      (enc28BeginPacketTransfer cfg ctx)
      (InBank (rxCore arrives)
        (fun c => Receiving cfg arrives done x 0 c ∧ c.erdpt = cfg.rxAddressStart) 0)
      (fun _ => False) := by
  refine (beginPacketTransfer_rule layout hc (receiving_closed layout)
    (fun c d h hd => receiving_switch layout h (by decide) hd) (fun c p h => h.setErdpt p)
    (fun c regs h => ⟨h.erxst, h.erxnd, h.transmit, h.arrived, h.log⟩)
    (and_closed (receiving_closed layout) fun _ _ hk h => hk.erdpt.trans h)
    fun c h he => ⟨receiving_econ1 h ?_, he⟩).conseq
    (fun w h => ⟨h.1, h.2.1.1, h.2.2⟩) (fun _ h => h) fun _ h => h
  rw [BitVec.getLsbD_or]
  exact Bool.or_false _

theorem endPacketTransfer_rests (layout : Layout cfg) (hc : canWrite ctx = true) :
    Spec (rxCore arrives) (Idle (rxCore arrives) (AtRest cfg arrives done x) agree)
      (enc28EndPacketTransfer ctx) (InBank (rxCore arrives) (AtRest cfg arrives done x) 0)
      (fun _ => False) := by
  refine Spec.exit (select_receiving layout hc (fun _ _ hk h => hk.erdpt.trans h) fun _ _ h => h) ?_
  refine clears_sure hc (by decide) (by decide) _ (by decide) (atRest_closed layout) fun c h _ => ?_
  refine ⟨receiving_econ1 h.1 ?_, h.2⟩
  change (c.econ1 &&& ~~~bit econ1Rxen).getLsbD econ1Txrts = _
  rw [BitVec.getLsbD_and]
  exact Bool.and_true _

theorem begin_call (layout : Layout cfg) (call : streamCall r.op = true)
    (op : isBegin r.op.op = true)
    (before : Idle (rxCore arrives) (AtRest cfg arrives done x) false r.before)
    (run : Exec (busMachine (rxCore arrives)) (r.op.prog cfg) r.before r.trace (some r.result) r.after) :
    Idle (rxCore arrives) (fun c => Receiving cfg arrives done x 0 c ∧ c.erdpt = cfg.rxAddressStart)
      false r.after := by
  obtain ⟨⟨ctx, rounds, op'⟩, w, t, res, v⟩ := r
  cases op' <;> try exact absurd op Bool.false_ne_true
  case beginPacketTransfer =>
    obtain ⟨status, hrun, -⟩ := Exec.of_map run
    exact (((beginPacketTransfer_resumes layout call).lands before hrun).resolve_right fun h => h).idle

/-- A call that does not move ERDPT away from the log has one of the outcomes of
a receiver's call. -/
theorem stream_outcome (layout : Layout cfg) (call : streamCall r.op = true)
    (resume : isBegin r.op.op = true → r.before.chip.erdpt = cfg.rxAddressStart)
    (before : Idle (rxCore arrives) (AtRest cfg arrives done x) false r.before)
    (run : Exec (busMachine (rxCore arrives)) (r.op.prog cfg) r.before r.trace (some r.result) r.after) :
    Outcome cfg arrives done x r := by
  cases hb : isBegin r.op.op with
  | true =>
    have hread : isRead r.op.op = false := by
      cases hop : r.op.op <;> simp [isBegin, isRead, hop] at hb ⊢
    obtain ⟨hphase, ⟨hlog, he⟩, hbank⟩ := begin_call layout call hb before run
    exact .other hread ⟨hphase, ⟨hlog, he.trans ((resume hb).symm.trans before.2.1.2)⟩, hbank⟩
  | false =>
    obtain ⟨⟨ctx, rounds, op⟩, w, t, res, v⟩ := r
    cases op <;> try exact call_outcome layout call before run
    case beginPacketTransfer => cases hb
    case endPacketTransfer =>
      obtain ⟨status, hrun, -⟩ := Exec.of_map run
      have hend := ((endPacketTransfer_rests layout call).lands before hrun).resolve_right fun h => h
      exact .other rfl hend.idle

/-- The log between two calls, with the frames done laid out from the start of the ring. -/
def Resting (cfg : Conf) (arrives : Frame → Prop) (w : World RxChip) : Prop :=
  ∃ done x, x = (done.map Frame.width).sum ∧ Idle (rxCore arrives) (AtRest cfg arrives done x) false w

theorem outcome_rests (hx : x = (done.map Frame.width).sum) (out : Outcome cfg arrives done x r)
    (good : FindsGood r) : Resting cfg arrives r.after := by
  cases out with
  | took packetBuf bufSize optStatusVec f op seen hgood delivers rest =>
    exact ⟨done ++ [f], x + f.width, by simp [hx], rest⟩
  | refused packetBuf bufSize optStatusVec f op seen bad status left =>
    exact absurd (good packetBuf bufSize optStatusVec op f seen) bad
  | empty read status seen all rest => exact ⟨done, x, hx, rest⟩
  | other read rest => exact ⟨done, x, hx, rest⟩

end

/-- As long as the frames found are good, stopping and resuming keeps the stream
exactly when ERDPT is at the start of the ring at each resume. -/
theorem resumed_in_order_iff {cfg : Conf} (layout : Layout cfg) {arrives : Frame → Prop}
    {ctx : Option SpiContext} (hc : canWrite ctx = true) {w₀ w : World RxChip} {rs : List RxRecord}
    (start : Started cfg arrives ctx w₀)
    (h : Session (busMachine (rxCore arrives)) (DriverCall.prog cfg) w₀ rs w)
    (calls : ∀ r ∈ rs, streamCall r.op = true) (good : ∀ r ∈ rs, FindsGood r) :
    ((∀ r ∈ rs, isBegin r.op.op = true → r.after.chip.erdpt = nextFrameAddress cfg r.after.chip) ∧
      InOrder rs w) ↔
      ∀ r ∈ rs, isBegin r.op.op = true → r.before.chip.erdpt = cfg.rxAddressStart := by
  have hstart : Idle (rxCore arrives) (AtRest cfg arrives [] 0) false w₀ := started_rests layout hc start
  have hall : ∀ r ∈ rs, streamCall r.op = true ∧ FindsGood r := fun r hr => ⟨calls r hr, good r hr⟩
  have hptr := (Session.forall_iff (I := Resting cfg arrives)
    (P := fun r => isBegin r.op.op = true → r.after.chip.erdpt = nextFrameAddress cfg r.after.chip)
    (Q := fun r => isBegin r.op.op = true → r.before.chip.erdpt = cfg.rxAddressStart)
    h hall ⟨[], 0, rfl, hstart⟩ fun r hr hI run => by
      obtain ⟨done, x, hx, before⟩ := hI
      refine ⟨forall_congr' fun op => ?_, fun resume => ?_⟩
      · obtain ⟨-, ⟨hlog, he⟩, -⟩ := begin_call layout hr.1 op before run
        have hbefore : r.before.chip.erdpt = (rxRing cfg).cell x := before.2.1.2
        rw [nextFrameAddress_of_log hlog hx, he, hbefore]
        exact eq_comm
      · exact outcome_rests hx (stream_outcome layout hr.1 resume before run) hr.2).1
  refine ⟨fun hp => hptr.1 hp.1, fun resume => ⟨hptr.2 resume, ?_⟩⟩
  obtain ⟨done, x, hd⟩ := delivers_of_outcomes hstart h fun r hr done x before run =>
    ⟨stream_outcome layout (calls r hr) (resume r hr) before run, good r hr⟩
  exact hd.order

section
variable (arrives : Frame → Prop)

def stopCalls : List (DriverCall × ((e : Call) → World RxChip → e.Reply × World RxChip)) :=
  [(⟨some fullContext, 0, .endPacketTransfer⟩, busDevice (rxCore arrives) id),
   (⟨some fullContext, 0, .beginPacketTransfer⟩, busDevice (rxCore arrives) id)]

variable {arrives}

theorem stopCalls_steps : ∀ x ∈ stopCalls arrives, ∀ e w,
    busMachine (rxCore arrives) e w (x.2 e w).1 (x.2 e w).2 := by
  intro x hx e w
  simp only [stopCalls, List.mem_cons, List.not_mem_nil, or_false] at hx
  rcases hx with rfl | rfl <;> exact busDevice_step _ (fun _ => ReflTransGen.refl) e w

end

/-- Stopped and resumed before the first frame is read. -/
theorem resumed_in_order_iff_unread : ∃ (w₀ w : World RxChip) (rs : List RxRecord),
    Started {} (fun _ => True) (some fullContext) w₀ ∧
      Session (busMachine (rxCore fun _ => True)) (DriverCall.prog {}) w₀ rs w ∧
      (rs.countP fun r => isBegin r.op.op) = 1 ∧ rs.countP readOk = 1 ∧ InOrder rs w := by
  let f : Frame := ⟨0x80, 0, [1, 2, 3], by decide⟩
  let calls := (readCalls (fun _ => True) [f] [[0, 0, 0, 0]]).take 1 ++ stopCalls (fun _ => True) ++
    (readCalls (fun _ => True) [f] [[0, 0, 0, 0]]).drop 1
  have start : Started {} (fun _ => True) (some fullContext) (beginRun {} fun _ => True).2 :=
    started_of_runs (by decide +kernel) (by decide +kernel)
  have steps : ∀ x ∈ calls, ∀ e w, busMachine (rxCore fun _ => True) e w (x.2 e w).1 (x.2 e w).2 := by
    intro x hx
    rcases List.mem_append.mp hx with hx | hx
    · rcases List.mem_append.mp hx with hx | hx
      · exact readCalls_steps (fun _ _ => trivial) x (List.mem_of_mem_take hx)
      · exact stopCalls_steps x hx
    · exact readCalls_steps (fun _ _ => trivial) x (List.mem_of_mem_drop hx)
  let fine : RxRecord → Bool := fun r => streamCall r.op && decide (FindsGood r) &&
    (!isBegin r.op.op || r.before.chip.erdpt == 0x7D0)
  let shows : List RxRecord × World RxChip → Bool × ℕ × ℕ := fun x =>
    (x.1.all fine, x.1.countP fun r => isBegin r.op.op, x.1.countP readOk)
  have hrun : (runCalls (DriverCall.prog {}) calls (beginRun {} fun _ => True).2).map shows =
      some (true, 1, 1) := by decide +kernel
  obtain ⟨rs, w, hs, hv⟩ := runCalls_shows steps hrun
  simp only [shows, fine, Prod.mk.injEq, List.all_eq_true, Bool.and_eq_true, Bool.or_eq_true,
    Bool.not_eq_true', beq_iff_eq, decide_eq_true_eq] at hv
  obtain ⟨hall, hbegin, hcount⟩ := hv
  refine ⟨_, w, rs, start, hs, hbegin, hcount, ((resumed_in_order_iff ⟨by decide, by decide, by decide⟩ rfl start hs
    (fun r hr => (hall r hr).1.1) fun r hr => (hall r hr).1.2).2 fun r hr op => ?_).2⟩
  rcases (hall r hr).2 with hno | hx
  · exact absurd (hno.symm.trans op) Bool.false_ne_true
  · exact hx

/-- A frame is read before the stop: the resume moves ERDPT back in front of it. -/
theorem resumed_fails :
    ¬ ∀ (cfg : Conf) (ctx : Option SpiContext) (w₀ w : World RxChip) (rs : List RxRecord),
      Layout cfg → canWrite ctx = true → Started cfg (fun _ => True) ctx w₀ →
      Session (busMachine (rxCore fun _ => True)) (DriverCall.prog cfg) w₀ rs w →
      (∀ r ∈ rs, streamCall r.op = true) → (∀ r ∈ rs, FindsGood r) →
      (∀ r ∈ rs, isBegin r.op.op = true → r.after.chip.erdpt = nextFrameAddress cfg r.after.chip) ∧
        InOrder rs w := by
  intro h
  let f : Frame := ⟨0x80, 0, [1, 2, 3], by decide⟩
  let calls := readCalls (fun _ => True) [f] [[0, 0, 0, 0]] ++ stopCalls fun _ => True
  have start : Started {} (fun _ => True) (some fullContext) (beginRun {} fun _ => True).2 :=
    started_of_runs (by decide +kernel) (by decide +kernel)
  have steps : ∀ x ∈ calls, ∀ e w, busMachine (rxCore fun _ => True) e w (x.2 e w).1 (x.2 e w).2 := by
    intro x hx
    rcases List.mem_append.mp hx with hx | hx
    · exact readCalls_steps (fun _ _ => trivial) x hx
    · exact stopCalls_steps x hx
  let astray : RxRecord → Bool := fun r =>
    isBegin r.op.op && r.after.chip.erdpt != nextFrameAddress {} r.after.chip
  let shows : List RxRecord × World RxChip → Bool × Bool := fun x =>
    (x.1.all fun r => streamCall r.op && decide (FindsGood r), x.1.any astray)
  have hrun : (runCalls (DriverCall.prog {}) calls (beginRun {} fun _ => True).2).map shows =
      some (true, true) := by decide +kernel
  obtain ⟨rs, w, hs, hv⟩ := runCalls_shows steps hrun
  simp only [shows, astray, Prod.mk.injEq, List.all_eq_true, List.any_eq_true, Bool.and_eq_true,
    decide_eq_true_eq, bne_iff_ne] at hv
  obtain ⟨hall, r, hr, hbegin, hptr⟩ := hv
  have hkept := h {} _ _ w rs ⟨by decide, by decide, by decide⟩ rfl start hs (fun r hr => (hall r hr).1)
    fun r hr => (hall r hr).2
  exact hptr (hkept.1 r hr hbegin)

end Stm32NetworkStack.StopResume
