import Mathlib.Data.List.Forall2
import Stm32NetworkStack.ReceiveStart

set_option autoImplicit false

/-!
# The stream of received frames

What one call does to the log is said once, in `Outcome`. As long as every frame
that `enc28_read_packet` finds is good, the calls deliver the frames in the
order in which the hardware stored them.
-/
namespace Stm32NetworkStack.ReceiveSessions
open InteractivePrograms Enc28Registers Enc28Driver SpiBus BankDiscipline DriverBanks RingLog
open ReceiveLogic ReceiveStream ReceivePackets TransmitArea ReceiveStart Relation

abbrev RxRecord := CallRecord Call (World RxChip) DriverCall (CommandStatus × DriverOutput)

def isRead : DriverOp → Bool
  | .readPacket _ _ _ => true
  | _ => false

/-- The calls between `enc28_begin_packet_transfer` and the end of a session. -/
def receiverCall (c : DriverCall) : Bool :=
  canWrite c.ctx &&
    match c.op with
    | .readPacket _ _ _ | .checkOutgoingPacketStatus => true
    | .writePacket _ bufSize => decide (bufSize.toNat ≤ 1600)
    | _ => false

def roomFor (maxLen : ℕ) : DriverOp → Bool
  | .readPacket _ bufSize _ => decide (maxLen ≤ bufSize.toNat)
  | _ => true

def readOk (r : RxRecord) : Bool := isRead r.op.op && r.result.1 == .ok

/-- The call returned the frame `f`, in its buffer and its status vector. -/
def Delivers (r : RxRecord) (f : Frame) : Prop :=
  ∃ packetBuf bufSize optStatusVec, r.op.op = .readPacket packetBuf bufSize optStatusVec ∧
    r.result = (.ok, .packet (f.data ++ packetBuf.drop f.len) (optStatusVec.map fun _ => f.vector))

/-- A read finds good frames only. -/
def FindsGood (r : RxRecord) : Prop :=
  ∀ packetBuf bufSize optStatusVec, r.op.op = .readPacket packetBuf bufSize optStatusVec →
    ∀ f, r.after.chip.seen = some f → Frame.good f bufSize

def foundGood (r : RxRecord) : Bool :=
  match r.op.op with
  | .readPacket _ bufSize _ =>
    r.after.chip.seen.all fun f => f.vector.receivedOk && decide (f.len ≤ bufSize.toNat)
  | _ => true

theorem foundGood_iff (r : RxRecord) : foundGood r = true ↔ FindsGood r := by
  unfold foundGood FindsGood Frame.good
  cases r.op.op <;> simp [Option.all_eq_true]

instance (r : RxRecord) : Decidable (FindsGood r) := decidable_of_iff _ (foundGood_iff r)

section
variable (cfg : Conf) (arrives : Frame → Prop) (done : List Frame) (x : ℕ) (r : RxRecord)

/-- What a call does from the log `done`, `x`. -/
inductive Outcome : Prop
  | took (packetBuf : List Byte) (bufSize : Word) (optStatusVec : Option ReceiveStatusVector)
      (f : Frame) (op : r.op.op = .readPacket packetBuf bufSize optStatusVec)
      (seen : r.after.chip.seen = some f) (good : Frame.good f bufSize)
      (delivers : Delivers r f)
      (rest : Idle (rxCore arrives) (AtRest cfg arrives (done ++ [f]) (x + f.width)) false r.after)
  | refused (packetBuf : List Byte) (bufSize : Word) (optStatusVec : Option ReceiveStatusVector)
      (f : Frame) (op : r.op.op = .readPacket packetBuf bufSize optStatusVec)
      (seen : r.after.chip.seen = some f) (bad : ¬ Frame.good f bufSize)
      (status : r.result.1 = .packetRcvErr ∨ r.result.1 = .bufferTooSmall)
      (left : Idle (rxCore arrives) (ReadingAt cfg arrives done f x ((rxRing cfg).cell (x + 6)))
        false r.after)
  | empty (read : isRead r.op.op = true) (status : r.result.1 = .noData)
      (seen : r.after.chip.seen = none) (all : r.before.chip.stored <+: done)
      (rest : Idle (rxCore arrives) (AtRest cfg arrives done x) false r.after)
  | other (read : isRead r.op.op = false)
      (rest : Idle (rxCore arrives) (AtRest cfg arrives done x) false r.after)

end

section
variable {cfg : Conf} {arrives : Frame → Prop} {done : List Frame} {x : ℕ} {r : RxRecord}

theorem call_outcome (layout : Layout cfg) (call : receiverCall r.op = true)
    (before : Idle (rxCore arrives) (AtRest cfg arrives done x) false r.before)
    (run : Exec (busMachine (rxCore arrives)) (r.op.prog cfg) r.before r.trace (some r.result) r.after) :
    Outcome cfg arrives done x r := by
  obtain ⟨⟨ctx, rounds, op⟩, w, t, res, v⟩ := r
  simp only [receiverCall, Bool.and_eq_true] at call
  obtain ⟨hc, hop⟩ := call
  cases op with
  | readPacket packetBuf bufSize optStatusVec =>
    obtain ⟨a, hrun, hres⟩ := Exec.of_map run
    have hstart : Idle (rxCore arrives) (fun c => Receiving cfg arrives done x 0 c ∧
        c.erdpt = (rxRing cfg).cell x ∧ w.chip.stored <+: c.stored) false w :=
      ⟨before.1, ⟨before.2.1.1, before.2.1.2, List.prefix_refl _⟩, before.2.2⟩
    obtain ⟨-, hend⟩ := (readPacket_reads layout hc packetBuf bufSize optStatusVec).sound hstart hrun
    rcases hend with ⟨f, hs, ⟨hgood, ha, hrest⟩ | ⟨hbad, ha, hleft⟩⟩ | ⟨ha, hall, hs, hrest⟩
    · refine .took packetBuf bufSize optStatusVec f rfl hs hgood ⟨_, _, _, rfl, ?_⟩
        ⟨hrest.1, ⟨hrest.2.1.1, hrest.2.1.2.1⟩, hrest.2.2⟩
      rw [← hres, ha]
    · refine .refused packetBuf bufSize optStatusVec f rfl hs hbad ?_ hleft
      rw [← hres]
      exact ha
    · refine .empty rfl ?_ hs hall hrest
      rw [← hres, ha]
  | writePacket packetBuf bufSize =>
    obtain ⟨status, hrun, -⟩ := Exec.of_map run
    have hend := ((writePacket_rests layout hc packetBuf bufSize (of_decide_eq_true hop)).sound before hrun).2
    refine .other rfl ?_
    change okOr _ _ status v at hend
    rwa [okOr_self] at hend
  | checkOutgoingPacketStatus =>
    obtain ⟨status, hrun, -⟩ := Exec.of_map run
    have hend := ((checkOutgoingPacketStatus_rests layout hc).sound before hrun).2
    refine .other rfl ?_
    change okOr _ _ status v at hend
    rwa [okOr_self] at hend
  | softReset | init | readHwRev | readMac | readPhyRegister | readCtlReg | writeCtlReg
  | setBitsCtlReg | clearBitsCtlReg | selectRegisterBank | beginPacketTransfer
  | endPacketTransfer => cases hop

end

/-- The frames come out in the order in which they were stored, and a read
returns ENC28_NO_DATA only if all frames stored before it are out. -/
structure InOrder (rs : List RxRecord) (w : World RxChip) : Prop where
  frames : ∃ frames, List.Forall₂ Delivers (rs.filter readOk) frames ∧ frames <+: w.chip.stored
  statuses : ∀ r ∈ rs, isRead r.op.op = true → r.result.1 = .ok ∨ r.result.1 = .noData
  complete : ∀ before r, before ++ [r] <+: rs → isRead r.op.op = true → r.result.1 = .noData →
    r.before.chip.stored.length ≤ (before.filter readOk).length

/-- The frames delivered so far are those the driver is done with. -/
structure Delivered (cfg : Conf) (arrives : Frame → Prop) (rs : List RxRecord) (w : World RxChip)
    (done : List Frame) (x : ℕ) : Prop where
  rest : Idle (rxCore arrives) (AtRest cfg arrives done x) false w
  frames : List.Forall₂ Delivers (rs.filter readOk) done
  order : InOrder rs w

section
variable {cfg : Conf} {arrives : Frame → Prop} {done : List Frame} {x : ℕ} {r : RxRecord}
  {rs : List RxRecord} {w : World RxChip}

theorem atRest_done {c : RxChip} (h : AtRest cfg arrives done x c) : done <+: c.stored := by
  obtain ⟨pending, _, _, hs, -⟩ := h.1.log
  exact ⟨pending, hs.symm⟩

theorem atRest_of_reading {c : RxChip} {f : Frame} {p : ℕ}
    (h : ReadingAt cfg arrives done f x p c) : f ∈ c.stored :=
  h.2.2.1.subset (List.mem_append_right _ List.mem_cons_self)

theorem InOrder.snoc (h : InOrder rs r.before) {frames : List Frame}
    (hf : List.Forall₂ Delivers ((rs ++ [r]).filter readOk) frames)
    (hp : frames <+: r.after.chip.stored)
    (hs : isRead r.op.op = true → r.result.1 = .ok ∨
      r.result.1 = .noData ∧ r.before.chip.stored.length ≤ (rs.filter readOk).length) :
    InOrder (rs ++ [r]) r.after where
  frames := ⟨frames, hf, hp⟩
  statuses := fun r' hr hread => by
    rcases List.mem_append.mp hr with hr | hr
    · exact h.statuses r' hr hread
    · obtain rfl := List.mem_singleton.mp hr
      exact (hs hread).imp (fun h => h) fun h => h.1
  complete := fun before r' hpre hread hnone => by
    rcases List.prefix_concat_iff.mp hpre with heq | hpre
    · obtain ⟨rfl, hr⟩ := List.append_inj' heq rfl
      obtain rfl := List.singleton_inj.mp hr
      rcases hs hread with hok | hs
      · exact absurd (hok.symm.trans hnone) (by decide)
      · exact hs.2
    · exact h.complete before r' hpre hread hnone

theorem filter_snoc_ok (h : readOk r = true) :
    (rs ++ [r]).filter readOk = rs.filter readOk ++ [r] := by
  rw [List.filter_append, List.filter_cons_of_pos h, List.filter_nil]

theorem filter_snoc_other (h : readOk r = false) :
    (rs ++ [r]).filter readOk = rs.filter readOk := by
  rw [List.filter_append, List.filter_cons_of_neg (by rw [h]; decide), List.filter_nil, List.append_nil]

theorem Delivered.snoc (h : Delivered cfg arrives rs r.before done x)
    (good : FindsGood r) (out : Outcome cfg arrives done x r) :
    ∃ done' x', Delivered cfg arrives (rs ++ [r]) r.after done' x' := by
  cases out with
  | took packetBuf bufSize optStatusVec f op seen hgood delivers rest =>
    obtain ⟨_, _, _, _, hres⟩ := id delivers
    have hok : readOk r = true := by
      simp [readOk, op, isRead, hres]
    have hframes : List.Forall₂ Delivers ((rs ++ [r]).filter readOk) (done ++ [f]) := by
      rw [filter_snoc_ok hok]
      exact List.rel_append h.frames (List.Forall₂.cons delivers List.Forall₂.nil)
    exact ⟨done ++ [f], x + f.width, rest, hframes,
      h.order.snoc hframes (atRest_done rest.2.1) fun _ => Or.inl (by rw [hres])⟩
  | refused packetBuf bufSize optStatusVec f op seen bad status left =>
    exact absurd (good packetBuf bufSize optStatusVec op f seen) bad
  | empty read status seen all rest =>
    have hok : readOk r = false := by
      simp [readOk, status]
    have hframes : List.Forall₂ Delivers ((rs ++ [r]).filter readOk) done := by
      rw [filter_snoc_other hok]
      exact h.frames
    refine ⟨done, x, rest, hframes, h.order.snoc hframes (atRest_done rest.2.1) fun _ => ?_⟩
    exact Or.inr ⟨status, Nat.le_trans all.length_le (Nat.le_of_eq h.frames.length_eq.symm)⟩
  | other read rest =>
    have hok : readOk r = false := by
      simp [readOk, read]
    have hframes : List.Forall₂ Delivers ((rs ++ [r]).filter readOk) done := by
      rw [filter_snoc_other hok]
      exact h.frames
    exact ⟨done, x, rest, hframes, h.order.snoc hframes (atRest_done rest.2.1) fun hread =>
      absurd (hread.symm.trans read) (by decide)⟩

/-- Calls each of which has one of these outcomes, and finds good frames only,
deliver the frames in order. -/
theorem delivers_of_outcomes {w₀ : World RxChip}
    (start : Idle (rxCore arrives) (AtRest cfg arrives [] 0) false w₀)
    (h : Session (busMachine (rxCore arrives)) (DriverCall.prog cfg) w₀ rs w)
    (step : ∀ r ∈ rs, ∀ done x, Idle (rxCore arrives) (AtRest cfg arrives done x) false r.before →
      Exec (busMachine (rxCore arrives)) (r.op.prog cfg) r.before r.trace (some r.result) r.after →
      Outcome cfg arrives done x r ∧ FindsGood r) :
    ∃ done x, Delivered cfg arrives rs w done x := by
  induction h with
  | nil =>
    exact ⟨[], 0, start, List.Forall₂.nil, ⟨[], List.Forall₂.nil, List.nil_prefix⟩,
      fun r hr => absurd hr List.not_mem_nil, fun before r hp => absurd (List.prefix_nil.mp hp) (by simp)⟩
  | @snoc rs u v i t a init last ih =>
    obtain ⟨done, x, hu⟩ := ih fun r hr => step r (List.mem_append_left _ hr)
    have hr : (⟨i, u, t, a, v⟩ : RxRecord) ∈ rs ++ [⟨i, u, t, a, v⟩] :=
      List.mem_append_right _ List.mem_cons_self
    obtain ⟨hout, hgood⟩ := step _ hr done x hu.rest last
    exact Delivered.snoc (r := ⟨i, u, t, a, v⟩) hu hgood hout

theorem session_delivers (layout : Layout cfg) {w₀ : World RxChip}
    (start : Idle (rxCore arrives) (AtRest cfg arrives [] 0) false w₀)
    (h : Session (busMachine (rxCore arrives)) (DriverCall.prog cfg) w₀ rs w)
    (calls : ∀ r ∈ rs, receiverCall r.op = true)
    (good : ∀ r ∈ rs, ∀ done x, Outcome cfg arrives done x r → FindsGood r) :
    ∃ done x, Delivered cfg arrives rs w done x :=
  delivers_of_outcomes start h fun r hr done x before run =>
    have hout : Outcome cfg arrives done x r := call_outcome layout (calls r hr) before run
    ⟨hout, good r hr done x hout⟩

end

def readyChip : RxChip where
  econ1 := 0
  erdpt := 0
  ewrpt := 0
  etxst := 0
  etxnd := 0
  erxst := 0
  erxnd := 0
  erxrdptl := 0
  erxrdpt := 0
  erxwrpt := 0
  epktcnt := 0
  mem := fun _ => 0
  regs := fun p => if p.2 = CtlReg.estat.addr then bit estatClkrdy else 0
  dummy := 0
  stored := []
  seen := none

/-- The hardware stores each of the frames as soon as there is room for it. -/
def storeNext (frames : List Frame) (c : RxChip) : RxChip :=
  match frames[c.stored.length]? with
  | none => c
  | some f =>
    if c.econ1.getLsbD econ1Rxen = true ∧
        f.width ≤ (c.erxrdpt + c.ring.size - c.erxwrpt) % c.ring.size then c.store f
    else c

section
variable (cfg : Conf) (arrives : Frame → Prop)

def initRun : Option CommandStatus × World RxChip :=
  (enc28DoInit cfg 1 ⟨fun _ => 0⟩ (some fullContext)).run (busDevice (rxCore arrives) id)
    ⟨readyChip.reset, .high, 0⟩

def beginRun : Option CommandStatus × World RxChip :=
  (enc28BeginPacketTransfer cfg (some fullContext)).run (busDevice (rxCore arrives) id)
    (initRun cfg arrives).2

/-- A check for the last transmission, then a read into each of the buffers. -/
def readCalls (frames : List Frame) (buffers : List (List Byte)) :
    List (DriverCall × ((e : Call) → World RxChip → e.Reply × World RxChip)) :=
  (⟨some fullContext, 0, .checkOutgoingPacketStatus⟩ :: buffers.map fun buffer =>
    ⟨some fullContext, 0, .readPacket buffer (BitVec.ofNat 16 buffer.length) none⟩).map
      fun c => (c, busDevice (rxCore arrives) (storeNext frames))

variable {cfg arrives}

theorem started_of_runs (hinit : (initRun cfg arrives).1 = some .ok)
    (hbegin : (beginRun cfg arrives).1 = some .ok) :
    Started cfg arrives (some fullContext) (beginRun cfg arrives).2 := by
  have hdevice := busDevice_step (rxCore arrives) (f := id) fun _ => ReflTransGen.refl
  obtain ⟨t, ht⟩ := run_exec hdevice (enc28DoInit cfg 1 ⟨fun _ => 0⟩ (some fullContext))
    ⟨readyChip.reset, .high, 0⟩
  obtain ⟨t', ht'⟩ := run_exec hdevice (enc28BeginPacketTransfer cfg (some fullContext))
    (initRun cfg arrives).2
  exact ⟨readyChip, 0, 1, ⟨fun _ => 0⟩, (initRun cfg arrives).2, t, t', hinit ▸ ht, hbegin ▸ ht'⟩

theorem storeNext_env {frames : List Frame} (ok : ∀ f ∈ frames, arrives f) (c : RxChip) :
    ReflTransGen (rxCore arrives).env c (storeNext frames c) := by
  unfold storeNext
  split
  · exact ReflTransGen.refl
  · next f hf =>
    split_ifs with h
    · exact ReflTransGen.single (.receive c f h.1 (ok f (List.mem_of_getElem? hf)) h.2)
    · exact ReflTransGen.refl

theorem readCalls_steps {frames : List Frame} (ok : ∀ f ∈ frames, arrives f) {buffers : List (List Byte)} :
    ∀ x ∈ readCalls arrives frames buffers, ∀ e w,
      busMachine (rxCore arrives) e w (x.2 e w).1 (x.2 e w).2 := by
  intro x hx e w
  obtain ⟨c, -, rfl⟩ := List.mem_map.mp hx
  exact busDevice_step _ (storeNext_env ok) e w

end

/-- What the successful reads returned. -/
def packetsRead (rs : List RxRecord) : List (List Byte) :=
  (rs.filter readOk).map fun r => match r.result.2 with
    | .packet packetBuf _ => packetBuf
    | _ => []

/-- A ring of 32 bytes. -/
def smallRing : Conf := { rxAddressEnd := 0x7EF }

/-- Three frames that take up 34 bytes. -/
def threeFrames : List Frame :=
  [⟨0x80, 0, [1, 2, 3, 4], by decide⟩, ⟨0x80, 0, [5, 6, 7, 8, 9], by decide⟩,
    ⟨0x80, 0, [10, 11, 12, 13, 14, 15], by decide⟩]

/-- The frames of the network are good for buffers of `maxLen` bytes. -/
def acceptable (maxLen : ℕ) (f : Frame) : Prop := f.vector.receivedOk = true ∧ f.len ≤ maxLen

/-- Whatever arrives when, the calls deliver the stored frames in order. -/
theorem frames_delivered_in_order {cfg : Conf} (layout : Layout cfg) {maxLen : ℕ}
    {ctx : Option SpiContext} (hc : canWrite ctx = true) {w₀ w : World RxChip} {rs : List RxRecord}
    (start : Started cfg (acceptable maxLen) ctx w₀)
    (h : Session (busMachine (rxCore (acceptable maxLen))) (DriverCall.prog cfg) w₀ rs w)
    (calls : ∀ r ∈ rs, receiverCall r.op = true)
    (large : ∀ r ∈ rs, roomFor maxLen r.op.op = true) :
    InOrder rs w := by
  obtain ⟨done, x, hd⟩ := session_delivers layout (started_rests layout hc start) h calls
    fun r hr done x out packetBuf bufSize optStatusVec hop f hf => by
      have hsize : maxLen ≤ bufSize.toNat := by
        have hroom := large r hr
        rw [hop] at hroom
        exact of_decide_eq_true hroom
      cases out with
      | took _ _ _ g op seen good =>
        obtain ⟨rfl, rfl, rfl⟩ := DriverOp.readPacket.inj (hop.symm.trans op)
        obtain rfl := Option.some.inj (hf.symm.trans seen)
        exact good
      | refused _ _ _ g op seen bad status left =>
        obtain rfl := Option.some.inj (hf.symm.trans seen)
        have hok := left.2.1.1.arrived f (atRest_of_reading left.2.1)
        exact ⟨hok.1, Nat.le_trans hok.2 hsize⟩
      | empty read status seen =>
        rw [seen] at hf
        cases hf
      | other read =>
        rw [hop] at read
        cases read
  exact hd.order

/-- The third frame waits for the first to be read and wraps around. -/
theorem frames_delivered_in_order_read : ∃ (w₀ w : World RxChip) (rs : List RxRecord),
    Started smallRing (acceptable 6) (some fullContext) w₀ ∧
      Session (busMachine (rxCore (acceptable 6))) (DriverCall.prog smallRing) w₀ rs w ∧
      packetsRead rs = [[1, 2, 3, 4, 0, 0], [5, 6, 7, 8, 9, 0], [10, 11, 12, 13, 14, 15]] ∧
      rs.length = 5 ∧ w.chip.erxwrpt = 0x7D2 ∧ InOrder rs w := by
  have ok : ∀ f ∈ threeFrames, acceptable 6 f := by
    unfold acceptable
    decide
  have start : Started smallRing (acceptable 6) (some fullContext) (beginRun smallRing (acceptable 6)).2 :=
    started_of_runs (by decide +kernel) (by decide +kernel)
  let shows : List RxRecord × World RxChip → Bool × List (List Byte) × ℕ × ℕ := fun x =>
    (x.1.all fun r => receiverCall r.op && roomFor 6 r.op.op, packetsRead x.1, x.1.length,
      x.2.chip.erxwrpt)
  have hrun : (runCalls (DriverCall.prog smallRing) (readCalls (acceptable 6) threeFrames
      (List.replicate 4 (List.replicate 6 0))) (beginRun smallRing (acceptable 6)).2).map shows =
      some (true, [[1, 2, 3, 4, 0, 0], [5, 6, 7, 8, 9, 0], [10, 11, 12, 13, 14, 15]], 5, 0x7D2) := by
    decide +kernel
  obtain ⟨rs, w, hs, hv⟩ := runCalls_shows (readCalls_steps ok) hrun
  simp only [shows, Prod.mk.injEq, List.all_eq_true, Bool.and_eq_true] at hv
  obtain ⟨hall, hread, hlength, hwrap⟩ := hv
  exact ⟨_, w, rs, start, hs, hread, hlength, hwrap, frames_delivered_in_order
    ⟨by decide, by decide, by decide⟩ rfl start hs (fun r hr => (hall r hr).1) fun r hr => (hall r hr).2⟩

def Unmoved (c d : RxChip) : Prop :=
  d.erdpt = c.erdpt ∧ d.erxrdpt = c.erxrdpt ∧ d.epktcnt + c.stored.length = c.epktcnt + d.stored.length

/-- The receive state is behind the frame, which has been counted off. -/
def MovedPast (cfg : Conf) (f : Frame) (c d : RxChip) : Prop :=
  d.erdpt = (rxRing cfg).forward c.erdpt f.width ∧
    d.erxrdpt = (rxRing cfg).forward d.erdpt ((rxRing cfg).size - 1) ∧
    d.epktcnt + 1 + c.stored.length = c.epktcnt + d.stored.length

/-- A call that refuses a frame leaves the receive state at a frame boundary. -/
def AtBoundary (cfg : Conf) (r : RxRecord) : Prop :=
  isRead r.op.op = true → r.result.1 = .packetRcvErr ∨ r.result.1 = .bufferTooSmall →
    Unmoved r.before.chip r.after.chip ∨
      ∃ f, r.after.chip.seen = some f ∧ MovedPast cfg f r.before.chip r.after.chip

section
variable {cfg : Conf} {arrives : Frame → Prop} {done : List Frame} {x : ℕ} {r : RxRecord}

theorem receiving_counted {c : RxChip} (h : Receiving cfg arrives done x 0 c) :
    c.epktcnt + done.length = c.stored.length := by
  obtain ⟨pending, _, _, hs, hcnt, -⟩ := h.log
  rw [hs, hcnt, List.length_append]
  omega

theorem width_lt_size {c : RxChip} {f : Frame} {p : ℕ} (h : ReadingAt cfg arrives done f x p c) :
    f.width < (rxRing cfg).size := by
  obtain ⟨pending, free, last, hs, -, hlog, hfree, hlast, -⟩ := h.1.log
  have hp := h.2.2.1
  rw [hs, List.prefix_append_right_inj] at hp
  obtain ⟨rest, rfl⟩ := hp
  have hle := Stored.le hlog.2
  omega

theorem refused_off_boundary {f : Frame}
    (before : Idle (rxCore arrives) (AtRest cfg arrives done x) false r.before)
    (left : Idle (rxCore arrives) (ReadingAt cfg arrives done f x ((rxRing cfg).cell (x + 6)))
      false r.after) :
    ¬ (Unmoved r.before.chip r.after.chip ∨
      ∃ f, r.after.chip.seen = some f ∧ MovedPast cfg f r.before.chip r.after.chip) := by
  have hb := receiving_counted before.2.1.1
  have ha := receiving_counted left.2.1.1
  have hsize := width_lt_size left.2.1
  have hwidth : 6 ≤ f.width := by
    unfold Frame.width
    omega
  rintro (⟨he, -, -⟩ | ⟨g, -, -, -, hcount⟩)
  · rw [left.2.1.2.1, before.2.1.2] at he
    have hsame := cell_inj (rxRing cfg) he.symm (by omega) (by omega)
    omega
  · omega

theorem boundary_iff_good (before : Idle (rxCore arrives) (AtRest cfg arrives done x) false r.before)
    (out : Outcome cfg arrives done x r) :
    (AtBoundary cfg r ↔ FindsGood r) ∧ (FindsGood r →
      ∃ done x, Idle (rxCore arrives) (AtRest cfg arrives done x) false r.after) := by
  cases out with
  | took packetBuf bufSize optStatusVec f op seen good delivers rest =>
    obtain ⟨_, _, _, _, hres⟩ := delivers
    refine ⟨⟨fun _ _ _ _ hop g hg => ?_, fun _ _ herr => ?_⟩, fun _ => ⟨_, _, rest⟩⟩
    · obtain ⟨rfl, rfl, rfl⟩ := DriverOp.readPacket.inj (hop.symm.trans op)
      obtain rfl := Option.some.inj (hg.symm.trans seen)
      exact good
    · have hok : r.result.1 = .ok := by rw [hres]
      rw [hok] at herr
      exact absurd herr (by decide)
  | refused packetBuf bufSize optStatusVec f op seen bad status left =>
    have hread : isRead r.op.op = true := by rw [op]; rfl
    have hnot : ¬ FindsGood r := fun h => bad (h packetBuf bufSize optStatusVec op f seen)
    refine ⟨⟨fun h => ?_, fun h => absurd h hnot⟩, fun h => absurd h hnot⟩
    exact absurd (h hread status) (refused_off_boundary before left)
  | empty read status seen all rest =>
    refine ⟨⟨fun _ _ _ _ _ f hf => ?_, fun _ _ herr => ?_⟩, fun _ => ⟨_, _, rest⟩⟩
    · rw [seen] at hf
      cases hf
    · rw [status] at herr
      exact absurd herr (by decide)
  | other read rest =>
    refine ⟨⟨fun _ _ _ _ hop => ?_, fun _ hread => ?_⟩, fun _ => ⟨_, _, rest⟩⟩
    · rw [hop] at read
      cases read
    · exact absurd (hread.symm.trans read) (by decide)

end

/-- The calls keep to the frame boundaries exactly as long as they find good
frames only, and then deliver them in order. -/
theorem at_boundary_iff_good {cfg : Conf} (layout : Layout cfg) {ctx : Option SpiContext}
    (hc : canWrite ctx = true) {w₀ w : World RxChip} {rs : List RxRecord}
    (start : Started cfg (fun _ => True) ctx w₀)
    (h : Session (busMachine (rxCore fun _ => True)) (DriverCall.prog cfg) w₀ rs w)
    (calls : ∀ r ∈ rs, receiverCall r.op = true) :
    ((∀ r ∈ rs, AtBoundary cfg r) ↔ ∀ r ∈ rs, FindsGood r) ∧
      ((∀ r ∈ rs, FindsGood r) → InOrder rs w) := by
  have hrest := started_rests layout hc start
  refine ⟨?_, fun good => ?_⟩
  · let I : World RxChip → Prop := fun w =>
      ∃ done x, Idle (rxCore fun _ => True) (AtRest cfg (fun _ => True) done x) false w
    refine (Session.forall_iff (I := I) h calls ⟨[], 0, hrest⟩ fun r hcall hI hrun => ?_).1
    obtain ⟨done, x, hbefore⟩ := hI
    exact boundary_iff_good hbefore (call_outcome layout hcall hbefore hrun)
  · obtain ⟨done, x, hd⟩ := session_delivers layout hrest h calls fun r hr _ _ _ => good r hr
    exact hd.order

/-- All three frames are found good, and every call keeps to the boundaries. -/
theorem at_boundary_iff_good_read : ∃ (w₀ w : World RxChip) (rs : List RxRecord),
    Started smallRing (fun _ => True) (some fullContext) w₀ ∧
      Session (busMachine (rxCore fun _ => True)) (DriverCall.prog smallRing) w₀ rs w ∧
      packetsRead rs = [[1, 2, 3, 4, 0, 0], [5, 6, 7, 8, 9, 0], [10, 11, 12, 13, 14, 15]] ∧
      w.chip.erxwrpt = 0x7D2 ∧ (∀ r ∈ rs, AtBoundary smallRing r) ∧ InOrder rs w := by
  have start : Started smallRing (fun _ => True) (some fullContext) (beginRun smallRing fun _ => True).2 :=
    started_of_runs (by decide +kernel) (by decide +kernel)
  let shows : List RxRecord × World RxChip → Bool × List (List Byte) × ℕ := fun x =>
    (x.1.all fun r => receiverCall r.op && foundGood r, packetsRead x.1, x.2.chip.erxwrpt)
  have hrun : (runCalls (DriverCall.prog smallRing) (readCalls (fun _ => True) threeFrames
      (List.replicate 4 (List.replicate 6 0))) (beginRun smallRing fun _ => True).2).map shows =
      some (true, [[1, 2, 3, 4, 0, 0], [5, 6, 7, 8, 9, 0], [10, 11, 12, 13, 14, 15]], 0x7D2) := by
    decide +kernel
  obtain ⟨rs, w, hs, hv⟩ := runCalls_shows (readCalls_steps fun _ _ => trivial) hrun
  simp only [shows, Prod.mk.injEq, List.all_eq_true, Bool.and_eq_true] at hv
  obtain ⟨hall, hread, hwrap⟩ := hv
  obtain ⟨hiff, horder⟩ := at_boundary_iff_good ⟨by decide, by decide, by decide⟩ rfl start hs
    fun r hr => (hall r hr).1
  have hgood : ∀ r ∈ rs, FindsGood r := fun r hr => (foundGood_iff r).mp (hall r hr).2
  exact ⟨_, w, rs, start, hs, hread, hwrap, hiff.mpr hgood, horder hgood⟩

/-- A frame with received_ok clear is refused with ERDPT behind its header and
EPKTCNT as before. -/
theorem at_boundary_fails :
    ¬ ∀ (cfg : Conf) (ctx : Option SpiContext) (w₀ w : World RxChip) (rs : List RxRecord),
      Layout cfg → canWrite ctx = true → Started cfg (fun _ => True) ctx w₀ →
      Session (busMachine (rxCore fun _ => True)) (DriverCall.prog cfg) w₀ rs w →
      (∀ r ∈ rs, receiverCall r.op = true) → ∀ r ∈ rs, AtBoundary cfg r := by
  intro h
  let f : Frame := ⟨0, 0, [1, 2, 3], by decide⟩
  have start : Started {} (fun _ => True) (some fullContext) (beginRun {} fun _ => True).2 :=
    started_of_runs (by decide +kernel) (by decide +kernel)
  let left : RxRecord → Bool := fun r => isRead r.op.op && r.result.1 == .packetRcvErr &&
    r.after.chip.erdpt != r.before.chip.erdpt && r.after.chip.epktcnt == r.before.chip.epktcnt &&
    r.after.chip.stored.length == r.before.chip.stored.length
  let shows : List RxRecord × World RxChip → Bool × Bool := fun x =>
    (x.1.all fun r => receiverCall r.op, x.1.any left)
  have hrun : (runCalls (DriverCall.prog {}) (readCalls (fun _ => True) [f] [[0, 0, 0, 0]])
      (beginRun {} fun _ => True).2).map shows = some (true, true) := by decide +kernel
  obtain ⟨rs, w, hs, hv⟩ := runCalls_shows (readCalls_steps fun _ _ => trivial) hrun
  simp only [shows, left, Prod.mk.injEq, List.all_eq_true, List.any_eq_true, Bool.and_eq_true, beq_iff_eq,
    bne_iff_ne] at hv
  obtain ⟨hall, r, hr, ⟨⟨⟨hread, hstatus⟩, hptr⟩, hcnt⟩, hlen⟩ := hv
  rcases h {} _ _ w rs ⟨by decide, by decide, by decide⟩ rfl start hs hall r hr hread
    (Or.inl hstatus) with hsame | ⟨_, _, hpast⟩
  · exact hptr hsame.1
  · have hmoved : r.after.chip.epktcnt + 1 + r.before.chip.stored.length =
        r.before.chip.epktcnt + r.after.chip.stored.length := hpast.2.2
    have hcnt' : r.after.chip.epktcnt = r.before.chip.epktcnt := hcnt
    have hlen' : r.after.chip.stored.length = r.before.chip.stored.length := hlen
    omega

end Stm32NetworkStack.ReceiveSessions
