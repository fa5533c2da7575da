import Mathlib.Data.Fintype.Card
import Stm32NetworkStack.PipelineRuns

set_option autoImplicit false

/-!
# Where the buffers are

Each buffer of `eth_packets` is in one place: not yet published, in a queue, or
in a local of one task, where the pbufs that lwIP holds count as locals of
`ip_stack_task`. There is one `pbuf_cst` only, so this lasts as long as a pbuf is
released before the next one is made.
-/
namespace Stm32NetworkStack.BufferOwnership
open Enc28Registers Enc28Driver BoundedQueues PacketPipeline GuardedRuns PipelineRuns

section
variable {N : ℕ} {W : Type}

def unpublished : PacketPc N → List (Fin N)
  | .publish i => (List.finRange N).drop i
  | .clear i => (List.finRange N).drop (i + 1)
  | _ => []

def packetHolds : PacketPc N → List (Fin N)
  | .fill b | .sendReady b | .write b | .giveBack b => [b]
  | .halted b => b.toList
  | _ => []

/-- The buffers in the locals of `ip_stack_task`. -/
def ipHolds : IpPc N → List (Fin N)
  | .handle b | .fillResp _ b _ | .sendResp _ b | .pbufFree _ b | .giveBack b => [b]
  | .reply b r | .sendPing b r | .dropPing b r => [b, r]
  | .stack _ | .waitReady | .halted => []

def places (s : State N W) : List (Fin N) :=
  unpublished s.packetPc ++ s.free.items ++ s.ready.items ++ s.transmit.items ++
    packetHolds s.packetPc ++ ipHolds s.ipPc ++ s.held

/-- Each buffer is in one place, and no send has lost one. -/
structure Owned (s : State N W) : Prop where
  once : ∀ b, (places s).count b = 1
  kept : s.lost = []

/-- lwIP holds no input pbuf, or the one that `pbuf_cst` was made for. -/
def Linked (s : State N W) : Prop :=
  s.held = [] ∨ ∃ b, s.held = [b] ∧ s.pbufCst = ⟨1, some b⟩

theorem length_lt {q : List (Fin N)} {b : Fin N} (hq : ∀ c, q.count c ≤ 1) (hb : q.count b = 0) :
    q.length < N := by
  have hnodup : (b :: q).Nodup :=
    List.nodup_cons.mpr ⟨List.count_eq_zero.mp hb, List.nodup_iff_count_le_one.mpr hq⟩
  have hcard := hnodup.length_le_card
  rwa [Fintype.card_fin] at hcard

theorem room {s : State N W} (h : Owned s) {b : Fin N}
    (hb : b ∈ unpublished s.packetPc ++ packetHolds s.packetPc ++ ipHolds s.ipPc) :
    s.free.items.length < N ∧ s.transmit.items.length < N := by
  have hsub : ∀ c, [b].count c ≤
      (unpublished s.packetPc ++ packetHolds s.packetPc ++ ipHolds s.ipPc).count c :=
    fun c => (List.singleton_sublist.mpr hb).count_le c
  have hcount : ∀ c, s.free.items.count c + s.transmit.items.count c + [b].count c ≤ 1 := by
    intro c
    have honce := h.once c
    have hc := hsub c
    simp only [places, List.count_append] at honce hc
    omega
  have hself : [b].count b = 1 := List.count_singleton_self
  have hb := hcount b
  refine ⟨length_lt (b := b) (fun c => ?_) (by omega), length_lt (b := b) (fun c => ?_) (by omega)⟩
  · have hc := hcount c
    omega
  · have hc := hcount c
    omega

theorem drop_finRange {i : ℕ} (h : i < N) :
    (List.finRange N).drop i = ⟨i, h⟩ :: (List.finRange N).drop (i + 1) := by
  rw [List.drop_eq_getElem_cons (by simpa using h), List.getElem_finRange]
  rfl

theorem owned_of_count {s u : State N W} (h : Owned s)
    (hc : ∀ b, (places u).count b = (places s).count b) (hl : u.lost = s.lost) : Owned u :=
  ⟨fun b => (hc b).trans (h.once b), hl.trans h.kept⟩

variable {D : Device W} {useLwip : Bool} {s u : State N W} {a : Act N}

theorem packetStep_owned (h : Owned s) (st : PacketStep D s a u) : Owned u := by
  cases st with
  | publish pc hi sent =>
    refine owned_of_count h (fun b => ?_) rfl
    simp only [places, unpublished, packetHolds, pc, drop_finRange hi, send_some sent,
      List.count_append, List.count_cons, List.count_nil]
    omega
  | publishFails pc hi full =>
    have hroom := (room h (b := ⟨_, hi⟩) (by simp [pc, unpublished, drop_finRange hi])).1
    rw [send_none] at full
    omega
  | publishDone pc hi =>
    refine owned_of_count h (fun b => ?_) rfl
    have hdrop : (List.finRange N).drop _ = [] := List.drop_eq_nil_of_le (by simpa using hi)
    simp only [places, unpublished, packetHolds, pc, hdrop]
  | clear pc | readFrame pc | readNothing pc | fill pc | pollNothing pc | wake pc =>
    refine owned_of_count h (fun b => ?_) rfl
    simp only [places, unpublished, packetHolds, pc, State.setPacket, State.afterRead]
  | takeFree pc got | pollTransmit pc got =>
    refine owned_of_count h (fun b => ?_) rfl
    simp only [places, unpublished, packetHolds, pc, receive_some got, List.count_append,
      List.count_cons, List.count_nil]
    omega
  | sendReady pc sent =>
    refine owned_of_count h (fun b => ?_) rfl
    simp only [places, unpublished, packetHolds, pc, send_some sent, List.count_append,
      List.count_cons, List.count_nil]
    omega
  | write pc call =>
    refine owned_of_count h (fun b => ?_) rfl
    simp only [places, pc]
    split_ifs <;> simp only [unpublished, packetHolds, Option.toList_some]
  | @giveBackSent b pc =>
    have hroom := (room h (b := b) (by simp [pc, packetHolds])).1
    obtain ⟨hitems, hlost⟩ := offer_room hroom b
    refine owned_of_count h (fun c => ?_) (by simp only [hlost, List.append_nil])
    simp only [places, unpublished, packetHolds, pc, hitems, List.count_append, List.count_nil]
    omega

theorem packetStep_stack (st : PacketStep D s a u) : u.held = s.held ∧ u.pbufCst = s.pbufCst := by
  cases st <;> exact ⟨rfl, rfl⟩

/-- With one pbuf at a time, a release puts back the buffer of the pbuf released. -/
theorem linked_release (hl : Linked s) {b : Fin N} (holds : b ∈ s.held) :
    s.held = [b] ∧ s.pbufCst = ⟨1, some b⟩ := by
  rcases hl with hnone | ⟨c, hheld, hcst⟩
  · rw [hnone] at holds
    exact absurd holds List.not_mem_nil
  · rw [hheld] at holds
    obtain rfl := List.mem_singleton.mp holds
    exact ⟨hheld, hcst⟩

theorem linked_ref (hl : Linked s) {b : Fin N} (holds : b ∈ s.held) : s.pbufCst.ref = 1 := by
  rw [(linked_release hl holds).2]

theorem ipStep_owned (h : Owned s) (hl : Linked s) (st : IpStep useLwip s a u) : Owned u := by
  cases st with
  | stackReturns pc =>
    refine owned_of_count h (fun b => ?_) rfl
    rename_i c
    cases c <;> simp only [places, ipHolds, pc, StackCall.next]
  | takeReady pc got | output pc got | ping _ pc _ got =>
    refine owned_of_count h (fun b => ?_) rfl
    simp only [places, ipHolds, pc, receive_some got, List.count_append, List.count_cons,
      List.count_nil]
    omega
  | input lwip pc =>
    refine owned_of_count h (fun b => ?_) rfl
    simp only [places, ipHolds, pc, List.count_append, List.count_cons, List.count_nil]
    omega
  | scribble pc holds ptr len => exact owned_of_count h (fun _ => rfl) rfl
  | release pc holds ref ptr =>
    obtain ⟨hheld, hcst⟩ := linked_release hl holds
    rw [hcst] at ptr
    obtain rfl := Option.some.inj ptr
    refine owned_of_count h (fun b => ?_) rfl
    simp only [places, ipHolds, pc, hheld, List.erase_cons_head, List.count_append, List.count_nil]
    omega
  | releaseKeeps pc holds ref | releaseFails pc holds ref =>
    have hone := linked_ref hl holds
    omega
  | pbufFree pc sent =>
    refine owned_of_count h (fun b => ?_) rfl
    simp only [places, ipHolds, pc, send_some sent, List.count_append, List.count_nil]
    omega
  | outputDrops pc none => exact h
  | fillResp pc | noPing _ pc =>
    refine owned_of_count h (fun b => ?_) rfl
    simp only [places, ipHolds, pc, State.setPacket]
  | @sendResp c b pc =>
    have hroom := (room h (b := b) (by simp [pc, ipHolds])).2
    obtain ⟨hitems, hlost⟩ := offer_room hroom b
    refine owned_of_count h (fun c => ?_) (by simp only [hlost, List.append_nil])
    simp only [places, ipHolds, pc, hitems, List.count_append, List.count_nil]
    omega
  | reply pc =>
    refine owned_of_count h (fun b => ?_) rfl
    simp only [places, pc, State.setPacket]
    split_ifs <;> simp only [ipHolds]
  | @sendPing b r pc =>
    have hroom := (room h (b := r) (by simp [pc, ipHolds])).2
    obtain ⟨hitems, hlost⟩ := offer_room hroom r
    refine owned_of_count h (fun c => ?_) (by simp only [hlost, List.append_nil])
    simp only [places, ipHolds, pc, hitems, List.count_append, List.count_cons, List.count_nil]
    omega
  | @dropPing b r pc =>
    have hroom := (room h (b := r) (by simp [pc, ipHolds])).1
    obtain ⟨hitems, hlost⟩ := offer_room hroom r
    refine owned_of_count h (fun c => ?_) (by simp only [hlost, List.append_nil])
    simp only [places, ipHolds, pc, hitems, List.count_append, List.count_cons, List.count_nil]
    omega
  | @giveBackReady b pc =>
    have hroom := (room h (b := b) (by simp [pc, ipHolds])).1
    obtain ⟨hitems, hlost⟩ := offer_room hroom b
    refine owned_of_count h (fun c => ?_) (by simp only [hlost, List.append_nil])
    simp only [places, ipHolds, pc, hitems, List.count_append, List.count_nil]
    omega

theorem ipStep_linked (hl : Linked s) (free : a = .input → s.held = []) (st : IpStep useLwip s a u) :
    Linked u := by
  cases st with
  | input lwip pc =>
    have hnone : s.held = [] := free rfl
    exact Or.inr ⟨_, by simp only [hnone], rfl⟩
  | release pc holds ref ptr =>
    obtain ⟨hheld, -⟩ := linked_release hl holds
    exact Or.inl (by simp only [hheld, List.erase_cons_head])
  | releaseKeeps pc holds ref | releaseFails pc holds ref =>
    have hone := linked_ref hl holds
    omega
  | _ => exact hl

/-- The next pbuf is made when lwIP holds none. -/
def InputReleased (s : State N W) (a : Act N) : Prop := a = .input → s.held = []

instance (s : State N W) (a : Act N) : Decidable (InputReleased s a) :=
  inferInstanceAs (Decidable (_ → _))

theorem step_owned (h : Owned s) (hl : Linked s) (st : Step D useLwip s a u) : Owned u := by
  cases st with
  | packet live step => exact packetStep_owned h step
  | ip live step => exact ipStep_owned h hl step
  | device live act acts next =>
    subst next
    exact ⟨h.once, h.kept⟩

theorem step_linked (hl : Linked s) (free : InputReleased s a) (st : Step D useLwip s a u) :
    Linked u := by
  cases st with
  | packet live step =>
    obtain ⟨hheld, hcst⟩ := packetStep_stack step
    unfold Linked
    rw [hheld, hcst]
    exact hl
  | ip live step => exact ipStep_linked hl free step
  | device live act acts next =>
    subst next
    exact hl

theorem start_owned (w : W) (pktBuf : List Byte) (statusVec : ReceiveStatusVector)
    (pbufCst : PbufCustom N) : Owned (start w pktBuf statusVec pbufCst) := by
  refine ⟨fun b => ?_, rfl⟩
  have hall : (List.finRange N).count b = 1 :=
    List.count_eq_one_of_mem (List.nodup_finRange N) (List.mem_finRange b)
  simp only [places, start, unpublished, packetHolds, ipHolds, Queue.empty, List.drop_zero,
    List.append_nil, hall]

def inInput : IpPc N → Bool
  | .stack .input | .fillResp .input _ _ | .sendResp .input _ | .pbufFree .input _ => true
  | _ => false

/-- lwIP has released its input pbuf when `net_ifc.input` returns. -/
def FreesBeforeReturn (s : State N W) (a : Act N) : Prop :=
  a = .stackReturns → s.ipPc = .stack .input → s.held = []

instance (s : State N W) (a : Act N) : Decidable (FreesBeforeReturn s a) :=
  inferInstanceAs (Decidable (_ → _ → _))

/-- What lwIP holds, it holds inside `net_ifc.input`. -/
def HeldInside (useLwip : Bool) (s : State N W) : Prop :=
  s.held = [] ∨ useLwip = true ∧ inInput s.ipPc = true

theorem ipStep_heldInside (hl : Linked s) (hh : HeldInside useLwip s)
    (frees : useLwip = true → FreesBeforeReturn s a) (st : IpStep useLwip s a u) :
    HeldInside useLwip u := by
  have inside : ∀ {pc : IpPc N}, s.ipPc = pc → inInput pc = false → s.held = [] :=
    fun hpc hout => hh.resolve_right fun hin => by
      rw [hpc, hout] at hin
      exact absurd hin.2 (by decide)
  cases st with
  | @stackReturns c pc =>
    left
    change s.held = []
    rcases hh with hnone | ⟨hlwip, hin⟩
    · exact hnone
    · cases c with
      | init => exact inside pc rfl
      | input => exact frees hlwip rfl pc
      | timeouts => exact inside pc rfl
  | takeReady pc => exact Or.inl (inside pc rfl)
  | input lwip pc => exact Or.inr ⟨lwip, rfl⟩
  | scribble pc => exact hh
  | release pc holds ref ptr =>
    obtain ⟨hheld, -⟩ := linked_release hl holds
    exact Or.inl (by simp only [hheld, List.erase_cons_head])
  | releaseKeeps pc holds ref | releaseFails pc holds ref =>
    have hone := linked_ref hl holds
    omega
  | @pbufFree c _ _ pc | @output c _ _ _ pc | @fillResp c _ _ pc | @sendResp c _ pc =>
    rcases hh with hnone | ⟨hlwip, hin⟩
    · exact Or.inl hnone
    · refine Or.inr ⟨hlwip, ?_⟩
      rw [pc] at hin
      cases c
      · cases hin
      · rfl
      · cases hin
  | outputDrops pc => exact hh
  | ping _ pc | noPing _ pc | reply pc | sendPing pc | dropPing pc | giveBackReady pc =>
    exact Or.inl (inside pc rfl)

theorem step_heldInside (hl : Linked s) (hh : HeldInside useLwip s)
    (frees : useLwip = true → FreesBeforeReturn s a) (st : Step D useLwip s a u) :
    HeldInside useLwip u := by
  cases st with
  | packet live step =>
    have hheld := (packetStep_stack step).1
    have hpc : u.ipPc = s.ipPc := by cases step <;> rfl
    unfold HeldInside
    rw [hheld, hpc]
    exact hh
  | ip live step => exact ipStep_heldInside hl hh frees step
  | device live act acts next =>
    subst next
    exact hh

theorem input_released (hh : HeldInside useLwip s) (st : Step D useLwip s a u) : InputReleased s a := by
  rintro rfl
  cases st with
  | packet live step => cases step
  | ip live step =>
    cases step with
    | input lwip pc =>
      refine hh.resolve_right fun hin => ?_
      rw [pc] at hin
      cases hin.2
  | device live act acts next => cases act

def inResponder : IpPc N → Bool
  | .reply _ _ | .sendPing _ _ | .dropPing _ _ | .giveBack _ => true
  | _ => false

/-- What holds as long as lwIP has one input pbuf at a time. -/
structure Sound (useLwip : Bool) (s : State N W) : Prop where
  owned : Owned s
  linked : Linked s
  inside : HeldInside useLwip s
  branch : useLwip = true → inResponder s.ipPc = false

theorem step_branch (hb : useLwip = true → inResponder s.ipPc = false) (st : Step D useLwip s a u) :
    useLwip = true → inResponder u.ipPc = false := by
  intro hlwip
  have hs := hb hlwip
  cases st with
  | packet live step =>
    cases step <;> exact hs
  | ip live step =>
    cases step with
    | @stackReturns c pc => cases c <;> rfl
    | ping noLwip | noPing noLwip =>
      rw [hlwip] at noLwip
      cases noLwip
    | reply pc | sendPing pc | dropPing pc | giveBackReady pc =>
      rw [pc] at hs
      cases hs
    | scribble | outputDrops | releaseKeeps => exact hs
    | _ => rfl
  | device live act acts next =>
    subst next
    exact hs

theorem step_sound (h : Sound useLwip s) (frees : useLwip = true → FreesBeforeReturn s a)
    (st : Step D useLwip s a u) : Sound useLwip u :=
  ⟨step_owned h.owned h.linked st, step_linked h.linked (input_released h.inside st) st,
    step_heldInside h.linked h.inside frees st, step_branch h.branch st⟩

theorem start_sound (w : W) (pktBuf : List Byte) (statusVec : ReceiveStatusVector)
    (pbufCst : PbufCustom N) : Sound useLwip (start w pktBuf statusVec pbufCst) :=
  ⟨start_owned w pktBuf statusVec pbufCst, Or.inl rfl, Or.inl rfl, fun _ => rfl⟩

/-- Every state of every run, whatever lwIP sends, if it releases an input pbuf
before `net_ifc.input` returns. -/
theorem buffers_in_one_place {w : W} {pktBuf : List Byte} {statusVec : ReceiveStatusVector}
    {pbufCst : PbufCustom N} {t : List (State N W × Act N)}
    (run : Run (Step D useLwip) (start w pktBuf statusVec pbufCst) t s)
    (frees : useLwip = true → ∀ e ∈ t, FreesBeforeReturn e.1 e.2) :
    (∀ b, (places s).count b = 1) ∧ s.lost = [] := by
  have hsound : Sound useLwip s :=
    Run.invariant (C := fun s a => useLwip = true → FreesBeforeReturn s a) run
      (fun e he hl => frees hl e he) (start_sound w pktBuf statusVec pbufCst)
      fun s a u h hc st => step_sound h hc st
  exact ⟨hsound.owned.once, hsound.owned.kept⟩

end

def oneEcho : List (Act maxEthPackets) :=
  startUp ++ passFrame ++ [.readNothing, .pollTransmit] ++ answerFrame 0 ++
    [.wake, .readNothing, .pollTransmit, .write, .giveBackSent]

theorem buffers_in_one_place_echo :
    ∃ (s : State maxEthPackets PingSource) (t : List (State maxEthPackets PingSource × Act maxEthPackets)),
      Run (Step pingDriver true) (pingStart 1) t s ∧ (∀ e ∈ t, FreesBeforeReturn e.1 e.2) ∧
        s.returned = [1] ∧ (∀ b, (places s).count b = 1) ∧ s.lost = [] := by
  have hrun : ((fireAll (fire pingRunner true) oneEcho (pingStart 1)).map State.returned) = some [1] := by
    decide +kernel
  obtain ⟨s, hs, hsent⟩ := Option.map_eq_some_iff.mp hrun
  have hfrees : ∀ e ∈ fireTrace (fire pingRunner true) oneEcho (pingStart 1), FreesBeforeReturn e.1 e.2 := by
    decide +kernel
  have run : Run (Step pingDriver true) (pingStart 1) _ s :=
    fireAll_run (fire_sound true pingRunner_refines) hs
  exact ⟨s, _, run, hfrees, hsent, buffers_in_one_place run fun _ => hfrees⟩

section
variable {N : ℕ} {W : Type} {D : Device W} {s u : State N W} {a : Act N}

def ReleasesOwn (s : State N W) : Prop := ∀ x ∈ s.released, x.1 = x.2

/-- Each pbuf that was made is held or has been released once. -/
def ReleasedOnce (s : State N W) : Prop :=
  ∀ b, (s.inputs.map Prod.fst).count b = (s.released.map Prod.fst).count b + s.held.count b

theorem step_releases (hl : Linked s) (ho : ReleasesOwn s) (hr : ReleasedOnce s) (st : Step D true s a u) :
    ReleasesOwn u ∧ ReleasedOnce u := by
  cases st with
  | packet live step => cases step <;> exact ⟨ho, hr⟩
  | ip live step =>
    cases step with
    | @input b lwip pc =>
      refine ⟨ho, fun c => ?_⟩
      have hc := hr c
      simp only [List.map_append, List.map_cons, List.map_nil, List.count_append, List.count_cons,
        List.count_nil]
      omega
    | @release c b p pc holds ref ptr =>
      obtain ⟨hheld, hcst⟩ := linked_release hl holds
      rw [hcst] at ptr
      obtain rfl := Option.some.inj ptr
      refine ⟨fun x hx => ?_, fun d => ?_⟩
      · rcases List.mem_append.mp hx with hx | hx
        · exact ho x hx
        · rw [List.mem_singleton.mp hx]
      · have hd := hr d
        rw [hheld] at hd
        simp only [hheld, List.erase_cons_head, List.map_append, List.map_cons, List.map_nil,
          List.count_append, List.count_nil]
        omega
    | releaseKeeps pc holds ref | releaseFails pc holds ref =>
      have hone := linked_ref hl holds
      omega
    | _ => exact ⟨ho, hr⟩
  | device live act acts next =>
    subst next
    exact ⟨ho, hr⟩

/-- lwIP may release a pbuf after `net_ifc.input` has returned, as long as it
does so before the next ready packet is handed to it. -/
theorem released_by_own_pbuf {w : W} {pktBuf : List Byte} {statusVec : ReceiveStatusVector}
    {pbufCst : PbufCustom N} {t : List (State N W × Act N)}
    (run : Run (Step D true) (start w pktBuf statusVec pbufCst) t s)
    (frees : ∀ e ∈ t, InputReleased e.1 e.2) :
    ReleasesOwn s ∧ ReleasedOnce s ∧ Linked s ∧ (∀ b, (places s).count b = 1) ∧ s.lost = [] := by
  have hinv : Owned s ∧ Linked s ∧ ReleasesOwn s ∧ ReleasedOnce s := by
    refine Run.invariant (I := fun s => Owned s ∧ Linked s ∧ ReleasesOwn s ∧ ReleasedOnce s) run
      (C := InputReleased) frees ⟨start_owned w pktBuf statusVec pbufCst, Or.inl rfl,
        fun x hx => absurd hx List.not_mem_nil, fun b => rfl⟩ ?_
    rintro s a u ⟨ho, hl, hown, honce⟩ hc st
    exact ⟨step_owned ho hl st, step_linked hl hc st, step_releases hl hown honce st⟩
  exact ⟨hinv.2.2.1, hinv.2.2.2, hinv.2.1, hinv.1.once, hinv.1.kept⟩

end

def lateRelease : List (Act maxEthPackets) :=
  startUp ++ passFrame ++ passFrame ++ [.readNothing, .pollTransmit] ++
    [.takeReady, .input, .stackReturns, .release 0, .pbufFree, .stackReturns] ++ answerFrame 1

theorem released_by_own_pbuf_late :
    ∃ (s : State maxEthPackets PingSource) (t : List (State maxEthPackets PingSource × Act maxEthPackets)),
      Run (Step pingDriver true) (pingStart 2) t s ∧ (∀ e ∈ t, InputReleased e.1 e.2) ∧
        s.released = [(0, 0), (1, 1)] ∧ ReleasesOwn s ∧ ReleasedOnce s ∧ Linked s ∧
        (∀ b, (places s).count b = 1) ∧ s.lost = [] := by
  have hrun : ((fireAll (fire pingRunner true) lateRelease (pingStart 2)).map State.released) =
      some [(0, 0), (1, 1)] := by
    decide +kernel
  obtain ⟨s, hs, hreleased⟩ := Option.map_eq_some_iff.mp hrun
  have hfrees : ∀ e ∈ fireTrace (fire pingRunner true) lateRelease (pingStart 2), InputReleased e.1 e.2 := by
    decide +kernel
  have run : Run (Step pingDriver true) (pingStart 2) _ s :=
    fireAll_run (fire_sound true pingRunner_refines) hs
  exact ⟨s, _, run, hfrees, hreleased, released_by_own_pbuf run hfrees⟩

/-- Two packets are handed to lwIP, which then releases the first one: the
buffer of the second one is put back, while lwIP holds it. -/
def heldAcross : List (Act maxEthPackets) :=
  startUp ++ passFrame ++ passFrame ++ [.readNothing, .pollTransmit] ++
    [.takeReady, .input, .stackReturns, .stackReturns, .takeReady, .input, .release 0]

theorem release_puts_back_other_buffer :
    ¬ ∀ (D : Device PingSource) (n : ℕ) (s : State maxEthPackets PingSource)
      (t : List (State maxEthPackets PingSource × Act maxEthPackets)),
      Run (Step D true) (pingStart n) t s → ReleasesOwn s ∧ ReleasedOnce s ∧ ∀ b, (places s).count b = 1 := by
  intro h
  have hrun : ((fireAll (fire pingRunner true) heldAcross (pingStart 2)).map State.released) =
      some [(0, 1)] := by
    decide +kernel
  obtain ⟨s, hs, hreleased⟩ := Option.map_eq_some_iff.mp hrun
  have run : Run (Step pingDriver true) (pingStart 2) _ s :=
    fireAll_run (fire_sound true pingRunner_refines) hs
  have hown := (h pingDriver 2 s _ run).1 (0, 1) (by rw [hreleased]; exact List.mem_cons_self)
  exact absurd hown (by decide)

end Stm32NetworkStack.BufferOwnership
