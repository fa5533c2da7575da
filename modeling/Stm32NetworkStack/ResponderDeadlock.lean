import Stm32NetworkStack.PipelineDeadlock

set_option autoImplicit false

/-!
# The built-in responder does not stop the pipeline

With `USE_LWIP` 0 a buffer goes to the transmit queue only while the request it
answers is held. So the queue is never full, and the request is put back before
`ip_stack_task` waits again.
-/
namespace Stm32NetworkStack.ResponderDeadlock
open Enc28Registers Enc28Driver BoundedQueues PingResponder PacketPipeline GuardedRuns PipelineRuns
open BufferOwnership PipelineDeadlock

section
variable {N : ℕ} {W : Type} {D : Device W} {s u : State N W} {a : Act N}

def isOutput : Act N → Bool
  | .output _ => true
  | _ => false

/-- In this build no frame is handed to lwIP, the interface has no
`NETIF_FLAG_LINK_UP`, and lwIP has nothing to send. -/
def NoOutput (_ : State N W) (a : Act N) : Prop := isOutput a = false

instance (s : State N W) (a : Act N) : Decidable (NoOutput s a) := inferInstanceAs (Decidable (_ = _))

/-- Not all buffers are in the transmit queue, and the link output has none. -/
structure Draining (s : State N W) : Prop where
  sound : Sound false s
  idle : respHolds s.ipPc = []
  room : s.transmit.items.length < N

theorem step_idle (hi : respHolds s.ipPc = []) (quiet : NoOutput s a) (st : Step D false s a u) :
    respHolds u.ipPc = [] := by
  cases st with
  | packet live step =>
    have hpc : u.ipPc = s.ipPc := by cases step <;> rfl
    rw [hpc]
    exact hi
  | ip live step =>
    cases step with
    | @stackReturns c pc => cases c <;> rfl
    | @reply b r pc =>
      dsimp only
      split_ifs <;> rfl
    | output pc got => cases quiet
    | fillResp pc =>
      rw [pc] at hi
      cases hi
    | scribble pc | releaseKeeps pc | outputDrops pc => exact hi
    | _ => rfl
  | device live act acts next =>
    subst next
    exact hi

/-- A reply is sent while its request is held, which is put back after that. -/
theorem step_room (h : Draining s) (hu : Owned u) (st : Step D false s a u) :
    u.transmit.items.length < N := by
  have hroom := h.room
  cases st with
  | packet live step =>
    cases step with
    | pollTransmit pc got =>
      rw [receive_some got, List.length_cons] at hroom
      exact Nat.lt_of_succ_lt hroom
    | publish | publishFails | publishDone | clear | readFrame | readNothing | takeFree | fill | sendReady
    | pollNothing | write | giveBackSent | wake => exact hroom
  | ip live step =>
    cases step with
    | @sendPing b r pc => exact (BufferOwnership.room hu (b := b) (by simp [ipHolds])).2
    | sendResp pc =>
      have hi := h.idle
      rw [pc] at hi
      cases hi
    | _ => exact hroom
  | device live act acts next =>
    subst next
    exact hroom

theorem step_draining (h : Draining s) (quiet : NoOutput s a) (st : Step D false s a u) : Draining u := by
  have hsound : Sound false u := step_sound h.sound (fun hl => by cases hl) st
  exact ⟨hsound, step_idle h.idle quiet st, step_room h hsound.owned st⟩

/-- Every buffer is free or not published yet, wherever the two tasks stand. -/
structure AllFree (s : State N W) : Prop where
  once : ∀ b, (unpublished s.packetPc ++ s.free.items).count b = 1
  queues : s.ready.items = [] ∧ s.transmit.items = []
  tasks : packetHolds s.packetPc = [] ∧ ipHolds s.ipPc = []
  stack : s.held = []
  kept : s.lost = []

theorem start_allFree (w : W) (pktBuf : List Byte) (statusVec : ReceiveStatusVector)
    (pbufCst : PbufCustom N) : AllFree (start w pktBuf statusVec pbufCst) := by
  refine ⟨fun b => ?_, ⟨rfl, rfl⟩, ⟨rfl, rfl⟩, rfl, rfl⟩
  have honce := (start_owned w pktBuf statusVec pbufCst).once b
  simpa [places, start, packetHolds, ipHolds, Queue.empty] using honce

theorem allFree_draining (pos : 0 < N) (h : AllFree s) : Draining s := by
  have howned : Owned s := by
    refine ⟨fun b => ?_, h.kept⟩
    simp only [places, h.queues.1, h.queues.2, h.tasks.1, h.tasks.2, h.stack, List.append_nil]
    exact h.once b
  refine ⟨⟨howned, Or.inl h.stack, Or.inl h.stack, fun hl => by cases hl⟩, ?_, ?_⟩
  · have hle := respHolds_le s.ipPc
    rw [h.tasks.2] at hle
    exact List.length_eq_zero_iff.mp (Nat.le_zero.mp hle)
  · rw [h.queues.2]
    exact pos

/-- If both tasks wait, all buffers are in the transmit queue. -/
theorem draining_not_deadlocked (h : Draining s) : ¬ Deadlocked s := by
  rintro ⟨hpc, hfree, hip, hready⟩
  have hheld : s.held = [] := h.sound.inside.resolve_right fun hin => by cases hin.1
  have hlen := length_places h.sound.owned
  have hroom := h.room
  simp only [places, hpc, hip, hfree, hready, hheld, unpublished, packetHolds, ipHolds, List.nil_append,
    List.append_nil] at hlen
  omega

/-- Whatever frames come and however the tasks take turns, the transmit queue
has room and the two tasks do not both wait for a buffer. -/
theorem responder_never_deadlocks (pos : 0 < N) {t : List (State N W × Act N)} (free : AllFree s)
    (run : Run (Step D false) s t u) (quiet : ∀ e ∈ t, NoOutput e.1 e.2) :
    u.transmit.items.length < N ∧ ¬ Deadlocked u := by
  have h : Draining u := Run.invariant (C := NoOutput) run quiet (allFree_draining pos free)
    fun s a u h hq st => step_draining h hq st
  exact ⟨h.room, draining_not_deadlocked h⟩

end

section
variable {N : ℕ} {W : Type} (d : RunDevice W) (s : State N W)

/-- The steps of the responder, with those of the rest of the pipeline. -/
def fireResponder (a : Act N) : Option (State N W) :=
  if s.halted = true then none
  else match a, s.ipPc with
    | .ping, .handle b =>
      if enc28DebugIsPingRequest (s.ethPackets b).buf (s.ethPackets b).usedBytes = true then
        match s.free.receive with
        | some (r, q) => some { s with free := q, ipPc := .reply b r }
        | none => some { s with ipPc := .giveBack b }
      else some { s with ipPc := .giveBack b }
    | .reply, .reply b r => some
      { s.setPacket r ⟨(s.handlePing b r).2, (s.ethPackets b).usedBytes⟩ with
        ipPc := if (s.handlePing b r).1 = 0 then .sendPing b r else .dropPing b r }
    | .sendPing, .sendPing b r => some
      { s with
        transmit := s.transmit.offer r
        lost := s.lost ++ s.transmit.refused r
        ipPc := .giveBack b }
    | .giveBackReady, .giveBack b => some
      { s with
        free := s.free.offer b
        lost := s.lost ++ s.free.refused b
        ipPc := .stack .timeouts }
    | _, _ => fire d false s a

variable {d} {D : Device W}

theorem fireResponder_sound (hd : Refines d D) (s : State N W) (a : Act N) (u : State N W)
    (h : fireResponder d s a = some u) : Step D false s a u := by
  unfold fireResponder at h
  split_ifs at h with hlive
  have live : s.halted = false := Bool.eq_false_iff.mpr hlive
  split at h
  · next b hpc =>
    split_ifs at h with hping
    · split at h
      · next r q hq =>
        obtain rfl := Option.some.inj h
        exact .ip live (.ping rfl hpc hping hq)
      · next hq =>
        obtain rfl := Option.some.inj h
        exact .ip live (.noPing rfl hpc (Or.inr hq))
    · obtain rfl := Option.some.inj h
      exact .ip live (.noPing rfl hpc (Or.inl (Bool.eq_false_iff.mpr hping)))
  · next b r hpc =>
    obtain rfl := Option.some.inj h
    exact .ip live (.reply hpc)
  · next b r hpc =>
    obtain rfl := Option.some.inj h
    exact .ip live (.sendPing hpc)
  · next b hpc =>
    obtain rfl := Option.some.inj h
    exact .ip live (.giveBackReady hpc)
  · exact fire_sound false hd _ _ u h

end

/-- One echo request is read, answered and sent. -/
def oneAnswer : List (Act maxEthPackets) :=
  startUp ++ passFrame ++ [.takeReady, .ping, .reply, .sendPing, .giveBackReady, .stackReturns] ++
    [.readNothing, .pollTransmit, .write, .giveBackSent]

theorem responder_never_deadlocks_answer :
    ∃ (s : State maxEthPackets PingSource) (t : List (State maxEthPackets PingSource × Act maxEthPackets)),
      Run (Step pingDriver false) (pingStart 1) t s ∧ (∀ e ∈ t, NoOutput e.1 e.2) ∧ s.returned = [1] ∧
        s.transmit.items.length < maxEthPackets ∧ ¬ Deadlocked s := by
  have hrun : (fireAll (fireResponder pingRunner) oneAnswer (pingStart 1)).map State.returned = some [1] := by
    decide +kernel
  obtain ⟨s, hs, hreturned⟩ := Option.map_eq_some_iff.mp hrun
  have hquiet : ∀ e ∈ fireTrace (fireResponder pingRunner) oneAnswer (pingStart 1), NoOutput e.1 e.2 := by
    decide +kernel
  have run := fireAll_run (fireResponder_sound pingRunner_refines) hs
  exact ⟨s, _, run, hquiet, hreturned,
    responder_never_deadlocks (by decide) (start_allFree _ _ _ _) run hquiet⟩

end Stm32NetworkStack.ResponderDeadlock
