import Stm32NetworkStack.BufferOwnership

set_option autoImplicit false

/-!
# When the pipeline stops

`packet_handling_task` empties the transmit queue only when it does not wait for
a free buffer. With all buffers on their way to the transmit queue it waits for
ever, and so does `ip_stack_task`.
-/
namespace Stm32NetworkStack.PipelineDeadlock
open Enc28Registers Enc28Driver BoundedQueues PacketPipeline GuardedRuns PipelineRuns BufferOwnership

section
variable {N : ℕ} {W : Type}

/-- Both tasks wait for a buffer, in empty queues. -/
def Deadlocked (s : State N W) : Prop :=
  s.packetPc = .waitFree ∧ s.free.items = [] ∧ s.ipPc = .waitReady ∧ s.ready.items = []

instance (s : State N W) : Decidable (Deadlocked s) := inferInstanceAs (Decidable (_ ∧ _))

def respHolds : IpPc N → List (Fin N)
  | .fillResp _ b _ | .sendResp _ b => [b]
  | _ => []

/-- The buffers in the transmit queue or on the way to it. -/
def outgoing (s : State N W) : ℕ := s.transmit.items.length + (respHolds s.ipPc).length

/-- The link output does not take the last buffer while `packet_handling_task`
waits for one, and no frame is read while all buffers are outgoing. -/
def KeepsOneBack (s : State N W) : Act N → Prop
  | .output _ => s.packetPc = .waitFree → s.free.items ≠ [] → outgoing s + 1 < N
  | .readFrame => outgoing s < N
  | _ => True

instance (s : State N W) : (a : Act N) → Decidable (KeepsOneBack s a)
  | .output _ => inferInstanceAs (Decidable (_ → _ → _))
  | .readFrame => inferInstanceAs (Decidable (_ < _))
  | .publish | .clear | .readNothing | .takeFree | .fill | .sendReady | .pollTransmit | .write
  | .giveBackSent | .wake | .idle | .takeReady | .input | .scribble _ | .release _ | .pbufFree
  | .fillResp | .sendResp | .stackReturns | .ping | .reply | .sendPing | .dropPing
  | .giveBackReady => inferInstanceAs (Decidable True)

def Starved (s : State N W) : Prop := s.packetPc = .waitFree ∧ outgoing s = N

variable {D : Device W} {s u : State N W} {a : Act N}

theorem length_places (h : Owned s) : (places s).length = N := by
  have hperm : (places s).Perm (List.finRange N) := by
    rw [List.perm_iff_count]
    intro b
    rw [h.once b, List.count_eq_one_of_mem (List.nodup_finRange N) (List.mem_finRange b)]
  rw [hperm.length_eq, List.length_finRange]

/-- All buffers are somewhere, so the two tasks can only both wait if all are outgoing. -/
theorem deadlocked_starved (h : Sound true s) (hd : Deadlocked s) : Starved s := by
  obtain ⟨hpc, hfree, hip, hready⟩ := hd
  have hheld : s.held = [] := h.inside.resolve_right fun hin => by
    rw [hip] at hin
    cases hin.2
  have hlen := length_places h.owned
  simp only [places, hpc, hip, hfree, hready, hheld, unpublished, packetHolds, ipHolds,
    List.nil_append, List.append_nil] at hlen
  refine ⟨hpc, ?_⟩
  simp only [outgoing, hip, respHolds, List.length_nil]
  omega

theorem respHolds_le (pc : IpPc N) : (respHolds pc).length ≤ (ipHolds pc).length := by
  cases pc <;> simp [respHolds, ipHolds]

theorem outgoing_free (h : Sound true s) : outgoing s + s.free.items.length ≤ N := by
  have hlen := length_places h.owned
  have hle := respHolds_le s.ipPc
  simp only [places, List.length_append] at hlen
  unfold outgoing
  omega

/-- `ip_stack_task` adds an outgoing buffer only by taking one in the link output. -/
theorem ipStep_outgoing (h : Sound true s) (st : IpStep true s a u) :
    outgoing u = outgoing s ∨
      (∃ p, a = .output p) ∧ s.free.items ≠ [] ∧ outgoing u = outgoing s + 1 := by
  have hbranch := h.branch rfl
  cases st with
  | @stackReturns c pc =>
    left
    simp only [outgoing, pc, respHolds]
    cases c <;> rfl
  | takeReady pc | input _ pc | release pc | pbufFree pc | fillResp pc =>
    left
    simp only [outgoing, pc, respHolds, State.setPacket]
  | @output c p b q pc got =>
    refine Or.inr ⟨⟨p, rfl⟩, ?_, ?_⟩
    · rw [receive_some got]
      exact List.cons_ne_nil _ _
    · simp only [outgoing, pc, respHolds, List.length_cons, List.length_nil]
  | @sendResp c b pc =>
    obtain ⟨hitems, -⟩ := offer_room (room h.owned (b := b) (by simp [pc, ipHolds])).2 b
    left
    simp only [outgoing, hitems, pc, respHolds, List.length_append, List.length_cons, List.length_nil]
  | scribble | outputDrops => exact Or.inl rfl
  | releaseKeeps pc holds ref | releaseFails pc holds ref =>
    have hone := linked_ref h.linked holds
    omega
  | ping noLwip | noPing noLwip => cases noLwip
  | reply pc | sendPing pc | dropPing pc | giveBackReady pc =>
    rw [pc] at hbranch
    cases hbranch

/-- Once starved, `packet_handling_task` never runs again. -/
theorem step_starved (h : Sound true s) (hs : Starved s) (st : Step D true s a u) : Starved u := by
  have hroom := outgoing_free h
  obtain ⟨hpc, hout⟩ := hs
  have hfree : s.free.items = [] := List.length_eq_zero_iff.mp (by omega)
  cases st with
  | packet live step =>
    cases step with
    | takeFree pc got =>
      rw [receive_some got] at hfree
      cases hfree
    | publish pc | publishFails pc | publishDone pc | clear pc | readFrame pc | readNothing pc
    | fill pc | sendReady pc | pollTransmit pc | pollNothing pc | write pc | giveBackSent pc
    | wake pc =>
      rw [hpc] at pc
      cases pc
  | ip live step =>
    rcases ipStep_outgoing h step with hsame | ⟨-, hne, -⟩
    · exact ⟨(ipStep_owner step).2.trans hpc, hsame.trans hout⟩
    · exact absurd hfree hne
  | device live act acts next =>
    subst next
    exact ⟨hpc, hout⟩

theorem packetStep_waits (st : PacketStep D s a u) (hu : u.packetPc = .waitFree) :
    a = .readFrame ∧ outgoing u = outgoing s := by
  cases st with
  | readFrame pc call ok => exact ⟨rfl, rfl⟩
  | write pc call =>
    dsimp only at hu
    split_ifs at hu
  | publish | publishFails | publishDone | clear | readNothing | takeFree | fill | sendReady
  | pollTransmit | pollNothing | giveBackSent | wake => cases hu

theorem step_keeps (h : Sound true s) (hw : s.packetPc = .waitFree → outgoing s < N)
    (keeps : KeepsOneBack s a) (st : Step D true s a u) : u.packetPc = .waitFree → outgoing u < N := by
  intro hu
  cases st with
  | packet live step =>
    obtain ⟨rfl, hsame⟩ := packetStep_waits step hu
    rw [hsame]
    exact keeps
  | ip live step =>
    have hpc := (ipStep_owner step).2.symm.trans hu
    rcases ipStep_outgoing h step with hsame | ⟨⟨p, rfl⟩, hne, hmore⟩
    · rw [hsame]
      exact hw hpc
    · rw [hmore]
      exact keeps hpc hne
  | device live act acts next =>
    subst next
    exact hw hu

theorem step_starves (h : Sound true s) (hw : s.packetPc = .waitFree → outgoing s < N)
    (misses : ¬ KeepsOneBack s a) (st : Step D true s a u) : Starved u := by
  have hroom := outgoing_free h
  cases st with
  | packet live step =>
    cases step with
    | readFrame pc call ok =>
      have hfull : N ≤ outgoing s := Nat.le_of_not_lt misses
      have hall : outgoing s = N := by omega
      exact ⟨rfl, hall⟩
    | _ => exact absurd trivial misses
  | ip live step =>
    cases step with
    | @output c p b q pc got =>
      unfold KeepsOneBack at misses
      simp only [Classical.not_imp, not_lt] at misses
      obtain ⟨hpc, hne, hfull⟩ := misses
      have hs := hw hpc
      refine ⟨hpc, ?_⟩
      simp only [outgoing, pc, respHolds, List.length_nil] at hs hfull
      simp only [outgoing, respHolds, List.length_cons, List.length_nil]
      omega
    | outputDrops pc none =>
      rw [receive_none] at none
      exact absurd (fun _ hne => absurd none hne) misses
    | _ => exact absurd trivial misses
  | device live act acts next =>
    subst act
    exact absurd trivial misses

/-- With a buffer kept back the two tasks never both wait. Without, `packet_handling_task`
waits for ever. -/
theorem no_deadlock_when_one_kept_back {w : W} {pktBuf : List Byte} {statusVec : ReceiveStatusVector}
    {pbufCst : PbufCustom N} {first last : Task} {t : List ((State N W × Task) × Act N)}
    (run : CoopRun D true (start w pktBuf statusVec pbufCst, first) t (s, last))
    (frees : ∀ e ∈ t, FreesBeforeReturn e.1.1 e.2) :
    ((∀ e ∈ t, KeepsOneBack e.1.1 e.2) → ¬ Deadlocked s) ∧
      ((∀ e ∈ t, KeepsOneBack e.1.1 e.2) ↔ ¬ Starved s) := by
  have hstart : Sound true (start w pktBuf statusVec pbufCst) := start_sound w pktBuf statusVec pbufCst
  have hiff := (coop_run run).ok_iff (A := FreesBeforeReturn) (C := KeepsOneBack)
    (I := fun s => Sound true s ∧ (s.packetPc = .waitFree → outgoing s < N))
    (F := fun s => Sound true s ∧ Starved s)
    (List.forall_mem_map.mpr frees) ⟨hstart, fun hpc => by cases hpc⟩
    (fun s a u hf hi hc st => ⟨step_sound hi.1 (fun _ => hf) st, step_keeps hi.1 hi.2 hc st⟩)
    (fun s a u hf hi hc st => ⟨step_sound hi.1 (fun _ => hf) st, step_starves hi.1 hi.2 hc st⟩)
    (fun s a u hf hi st => ⟨step_sound hi.1 (fun _ => hf) st, step_starved hi.1 hi.2 st⟩)
    (fun s hi hf => Nat.ne_of_lt (hi.2 hf.2.1) hf.2.2)
  have hsound : Sound true s :=
    (coop_run run).invariant (C := FreesBeforeReturn) (List.forall_mem_map.mpr frees) hstart
      fun s a u hi hf st => step_sound hi (fun _ => hf) st
  have hkeeps : (∀ e ∈ t, KeepsOneBack e.1.1 e.2) ↔ ¬ Starved s := by
    have hmapped := hiff.1
    simp only [List.forall_mem_map] at hmapped
    exact hmapped.trans ⟨fun hn hs => hn ⟨hsound, hs⟩, fun hn hs => hn hs.2⟩
  exact ⟨fun hall hd => hkeeps.mp hall (deadlocked_starved hsound hd), hkeeps⟩

end

theorem no_deadlock_when_one_kept_back_echo :
    ∃ (s : State maxEthPackets PingSource) (last : Task)
      (t : List ((State maxEthPackets PingSource × Task) × Act maxEthPackets)),
      CoopRun pingDriver true (pingStart 1, .ip) t (s, last) ∧ (∀ e ∈ t, FreesBeforeReturn e.1.1 e.2) ∧
        (∀ e ∈ t, KeepsOneBack e.1.1 e.2) ∧ s.returned = [1] ∧ ¬ Deadlocked s ∧ ¬ Starved s := by
  have hrun : (fireAll pingCoop oneEcho (pingStart 1, .ip)).map (fun x => x.1.returned) = some [1] := by
    decide +kernel
  obtain ⟨⟨s, last⟩, hs, hreturned⟩ := Option.map_eq_some_iff.mp hrun
  have hfrees : ∀ e ∈ fireTrace pingCoop oneEcho (pingStart 1, .ip), FreesBeforeReturn e.1.1 e.2 := by
    decide +kernel
  have hkeeps : ∀ e ∈ fireTrace pingCoop oneEcho (pingStart 1, .ip), KeepsOneBack e.1.1 e.2 := by
    decide +kernel
  have hboth := no_deadlock_when_one_kept_back (pingCoop_run hs) hfrees
  exact ⟨s, last, _, pingCoop_run hs, hfrees, hkeeps, hreturned, hboth.1 hkeeps, hboth.2.mp hkeeps⟩

/-- One call of the link output at most in each call of `net_ifc.input`, and none outside. -/
def oneOutputPerInput {N : ℕ} : Bool → List (Act N) → Bool
  | _, [] => true
  | _, .input :: rest => oneOutputPerInput true rest
  | mayOutput, .output _ :: rest => mayOutput && oneOutputPerInput false rest
  | _, .stackReturns :: rest => oneOutputPerInput false rest
  | mayOutput, _ :: rest => oneOutputPerInput mayOutput rest

/-- Nine echo requests are pending. Eight are read and wait in the ready queue,
`packet_handling_task` reads the ninth and waits for a buffer, and each buffer
that is freed is taken for a reply. -/
def nineEchoes : List (Act maxEthPackets) :=
  startUp ++ (List.replicate maxEthPackets passFrame).flatten ++ [.readFrame] ++
    ((List.finRange maxEthPackets).map answerFrame).flatten

theorem nine_echoes_deadlock :
    ¬ ∀ (D : Device PingSource) (n : ℕ) (first last : Task) (s : State maxEthPackets PingSource)
      (t : List ((State maxEthPackets PingSource × Task) × Act maxEthPackets)),
      CoopRun D true (pingStart n, first) t (s, last) → (∀ e ∈ t, FreesBeforeReturn e.1.1 e.2) →
        oneOutputPerInput false (t.map Prod.snd) = true → ¬ Deadlocked s := by
  intro h
  have hrun : (fireAll pingCoop nineEchoes (pingStart 9, .ip)).map (fun x => decide (Deadlocked x.1)) =
      some true := by
    decide +kernel
  obtain ⟨⟨s, last⟩, hs, hstop⟩ := Option.map_eq_some_iff.mp hrun
  have hfrees : ∀ e ∈ fireTrace pingCoop nineEchoes (pingStart 9, .ip), FreesBeforeReturn e.1.1 e.2 := by
    decide +kernel
  have hone : oneOutputPerInput false ((fireTrace pingCoop nineEchoes (pingStart 9, .ip)).map Prod.snd) =
      true := by
    decide +kernel
  exact h pingDriver 9 .ip last s _ (pingCoop_run hs) hfrees hone (of_decide_eq_true hstop)

end Stm32NetworkStack.PipelineDeadlock
