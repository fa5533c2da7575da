import Stm32NetworkStack.DriverBanks
import Stm32NetworkStack.TransmitLogic

set_option autoImplicit false

/-!
# One transmission for each accepted packet

Bits of ECON1 other than BSEL are set and cleared with BFS and BFC, except by
the bank switch, which writes back what it read before. A transmission that
ends in between is started again.
-/
namespace Stm32NetworkStack.TransmitCounting
open InteractivePrograms Enc28Registers Enc28Driver SpiBus BankDiscipline DriverBanks TransmitLogic Relation

/-- After `k` accepted packets: each race has started one transmission more and
is one write to ECON1 that changed more than BSEL. -/
def Counted (k : ℕ) (quiet : Bool) (c : TxChip) : Prop :=
  c.txStarts = k + c.races ∧ c.overwrites = c.races ∧ (quiet = true → c.txrts = false)

theorem ended_differs (v : Byte) (h : v.getLsbD econ1Txrts = true) :
    v &&& ~~~econ1Bsel ≠ (v &&& ~~~bit econ1Txrts) &&& ~~~econ1Bsel := by
  revert v
  decide

/-- Between a read of ECON1 and the next write at most one transmission ends. -/
theorem env_run {c d : TxChip} (h : ReflTransGen txCore.env c d) :
    d.txStarts = c.txStarts ∧ d.overwrites = c.overwrites ∧ d.races = c.races ∧
      (d.econ1 = c.econ1 ∧ d.ended = c.ended ∨
        c.txrts = true ∧ d.econ1 = c.econ1 &&& ~~~bit econ1Txrts ∧ d.ended = true) := by
  induction h with
  | refl => exact ⟨rfl, rfl, rfl, Or.inl ⟨rfl, rfl⟩⟩
  | @tail u v _ hs ih =>
    obtain ⟨ht, ho, hr, he⟩ := ih
    obtain ⟨ht', ho', hr', he'⟩ := hs
    refine ⟨ht'.trans ht, ho'.trans ho, hr'.trans hr, ?_⟩
    rcases he with ⟨he, hd⟩ | ⟨hc, he, hd⟩
    · simpa only [TxChip.txrts, he, hd] using he'
    · rcases he' with ⟨he', hd'⟩ | ⟨hu, _, _⟩
      · exact Or.inr ⟨hc, he'.trans he, hd'.trans hd⟩
      · have hoff : u.txrts = false := by simp [TxChip.txrts, he, bit, econ1Txrts]
        rw [hoff] at hu
        cases hu

theorem writeEcon1_counted {k : ℕ} {quiet : Bool} {c d : TxChip} {b : Byte} (hb : b.toNat < 4)
    (hc : Counted k quiet c) (hd : ReflTransGen txCore.env { c with ended := false } d) :
    Counted k quiet (d.writeEcon1 (econ1WithBank c.econ1 b)) := by
  obtain ⟨hs, ho, hq⟩ := hc
  obtain ⟨ht, hov, hr, he⟩ := env_run hd
  have hbit := econ1WithBank_txrts c.econ1 b hb
  have hrest := econ1WithBank_rest c.econ1 b hb
  rcases he with ⟨he, hend⟩ | ⟨hon, he, hend⟩
  · -- ECON1 is what was read: nothing but BSEL changes
    have hstart : ((econ1WithBank c.econ1 b).getLsbD econ1Txrts && !d.txrts) = false := by
      simp [TxChip.txrts, he, hbit]
    have hdiff : d.differs (econ1WithBank c.econ1 b) = false := by
      simp [TxChip.differs, he, hrest]
    refine ⟨?_, ?_, fun h => ?_⟩
    · simp [TxChip.writeEcon1, TxChip.setEcon1, hstart, hend, ht, hr, hs]
    · simp [TxChip.writeEcon1, hdiff, hend, hov, hr, ho]
    · exact hbit.trans (hq h)
  · -- the transmission seen by the read is over, and the write starts it again
    have hoff : d.txrts = false := by simp [TxChip.txrts, he, bit, econ1Txrts]
    have hon' : c.econ1.getLsbD econ1Txrts = true := hon
    have hdiff : d.differs (econ1WithBank c.econ1 b) = true := by
      simpa [TxChip.differs, he, hrest] using ended_differs c.econ1 hon'
    refine ⟨?_, ?_, fun h => ?_⟩
    · simp [TxChip.writeEcon1, TxChip.setEcon1, hbit, hon', hoff, hend, ht, hr, hs, Nat.add_assoc]
    · simp [TxChip.writeEcon1, hdiff, hend, hov, hr, ho]
    · exact absurd (hon.symm.trans (hq h)) (by decide)

theorem setEcon1_counted {k : ℕ} {quiet : Bool} {c : TxChip} {v : Byte} (hc : Counted k quiet c)
    (h : v.getLsbD econ1Txrts = true → c.txrts = true) : Counted k quiet (c.setEcon1 v) := by
  obtain ⟨hs, ho, hq⟩ := hc
  have hstart : (v.getLsbD econ1Txrts && !c.txrts) = false := by
    cases hv : v.getLsbD econ1Txrts
    · rfl
    · simp [h hv]
  refine ⟨?_, ho, fun hquiet => ?_⟩
  · simp [TxChip.setEcon1, hstart, hs]
  · cases hv : v.getLsbD econ1Txrts
    · exact hv
    · exact absurd ((h hv).symm.trans (hq hquiet)) (by decide)

theorem counted_benign (k : ℕ) (quiet : Bool) : Benign txCore (Counted k quiet) true where
  env := fun c d hc hd => by
    obtain ⟨ht, ho, hr, he⟩ := hd
    refine ⟨?_, ?_, fun hquiet => ?_⟩
    · rw [ht, hr]
      exact hc.1
    · rw [ho, hr]
      exact hc.2.1
    · rcases he with ⟨he, _⟩ | ⟨_, he, _⟩
      · exact (congrArg (fun v : Byte => v.getLsbD econ1Txrts) he).trans (hc.2.2 hquiet)
      · simp [TxChip.txrts, he, bit, econ1Txrts]
  afterRead := fun c a hc => by
    simp only [txCore]
    split_ifs <;> exact hc
  write := fun c a v ha _ hc => by
    simp only [txCore, if_neg ha]
    exact hc
  switch := fun c d b hb hc hd => writeEcon1_counted hb hc hd
  set := fun c a m hm _ hc => by
    simp only [txCore]
    split_ifs with ha
    · refine setEcon1_counted hc fun hv => ?_
      rwa [BitVec.getLsbD_or, hm ha, Bool.or_false] at hv
    · exact hc
  clear := fun c a m _ hc => by
    simp only [txCore]
    split_ifs with ha
    · refine setEcon1_counted hc fun hv => ?_
      rw [BitVec.getLsbD_and, Bool.and_eq_true] at hv
      exact hv.1
    · exact hc
  readBuf := fun c hc => hc
  writeBuf := fun c b hc => hc

theorem counted_phases (k : ℕ) :
    Phases txCore (Counted k false) (Counted k true) (Counted (k + 1) false) where
  before := counted_benign k false
  during := counted_benign k true
  after := counted_benign (k + 1) false
  clear := fun c hc ht => ⟨hc.1, hc.2.1, fun _ => ht⟩
  weaken := fun c hc => ⟨hc.1, hc.2.1, fun h => absurd h (by decide)⟩
  start := fun c hc => by
    have hoff : c.txrts = false := hc.2.2 rfl
    have hon : (c.econ1 ||| bit econ1Txrts).getLsbD econ1Txrts = true := by
      simp [bit, econ1Txrts]
    refine ⟨?_, hc.2.1, fun h => absurd h (by decide)⟩
    have hs := hc.1
    simp only [txCore, if_true, TxChip.setEcon1, hon, hoff, Bool.not_false, Bool.and_true,
      Bool.toNat_true]
    omega

abbrev TxRecord := CallRecord Call (World TxChip) DriverCall (CommandStatus × DriverOutput)

def accepted (r : TxRecord) : Bool := acceptsPacket r.op.op r.result.1

theorem afterCall_counted {k : ℕ} {op : DriverOp} {status : CommandStatus} {c : TxChip}
    (h : afterCall (Counted k false) (Counted (k + 1) false) op status c) :
    Counted (k + (acceptsPacket op status).toNat) false c := by
  unfold afterCall at h
  split_ifs at h with ha
  · rw [ha]
    exact h
  · rw [Bool.eq_false_iff.mpr ha]
    exact h

theorem session_counted {cfg : Conf} {w v : World TxChip} {rs : List TxRecord}
    (s : Session (busMachine txCore) (DriverCall.prog cfg) w rs v) (idle : w.phase = .high)
    (fresh : w.chip.txStarts = 0 ∧ w.chip.overwrites = 0 ∧ w.chip.races = 0)
    (hops : ∀ r ∈ rs, namesRegisters r.op.op = true) :
    Idle txCore (Counted (rs.countP accepted) false) false v := by
  let I : List TxRecord → World TxChip → Prop :=
    fun rs u => Idle txCore (Counted (rs.countP accepted) false) false u
  have h0 : I [] w := by
    refine ⟨idle, ⟨?_, ?_, fun h => absurd h (by decide)⟩, fun h => absurd h (by decide)⟩
    · rw [fresh.1, fresh.2.2]
      rfl
    · rw [fresh.2.1, fresh.2.2]
  let C : DriverCall → World TxChip → Prop := fun c _ => namesRegisters c.op = true
  refine Session.invariant (C := C) (I := I) s hops h0 fun rs u c t a v hu hop last => ?_
  have hv := (Triple.sound (call_spec tx_laws (counted_phases (rs.countP accepted)) cfg c hop)
    hu last).2
  have hc := afterCall_counted hv.2.1
  refine ⟨hv.1, ?_, hv.2.2⟩
  rw [List.countP_append]
  cases ha : acceptsPacket c.op a.1 <;> simpa [accepted, ha] using hc

/-- The chip starts one transmission for each accepted packet, and no write to
ECON1 changes more than BSEL, exactly when no transmission ends between a read
of ECON1 and the write back. -/
theorem transmissions_eq_accepted_iff (cfg : Conf) {w v : World TxChip} {rs : List TxRecord}
    (s : Session (busMachine txCore) (DriverCall.prog cfg) w rs v) (idle : w.phase = .high)
    (fresh : w.chip.txStarts = 0 ∧ w.chip.overwrites = 0 ∧ w.chip.races = 0)
    (hops : ∀ r ∈ rs, namesRegisters r.op.op = true) :
    (v.chip.txStarts = rs.countP accepted ∧ v.chip.overwrites = 0) ↔ v.chip.races = 0 := by
  obtain ⟨-, ⟨hs, ho, -⟩, -⟩ := session_counted s idle fresh hops
  omega

def resetChip : TxChip where
  econ1 := 0
  regs := fun _ => 0
  buffer := fun _ => 0
  dummy := 0
  txStarts := 0
  overwrites := 0
  races := 0
  ended := false

def resetWorld : World TxChip := ⟨resetChip, .high, 0⟩

abbrev DrivenCall := DriverCall × ((e : Call) → World TxChip → e.Reply × World TxChip)

/-- A packet of 14 bytes is sent while no transmission ends. -/
def sendCalls : List DrivenCall :=
  [(⟨some fullContext, 0, .beginPacketTransfer⟩, busDevice txCore id),
   (⟨some fullContext, 0, .writePacket (some (List.replicate 14 0)) 14⟩, busDevice txCore id)]

/-- Its transmission ends between the two transactions of the bank switch in
`enc28_end_packet_transfer`. -/
def racedCalls : List DrivenCall :=
  sendCalls ++ [(⟨some fullContext, 0, .endPacketTransfer⟩, busDevice txCore TxChip.complete)]

theorem racedCalls_steps : ∀ x ∈ racedCalls, ∀ e w,
    busMachine txCore e w (x.2 e w).1 (x.2 e w).2 := by
  intro x hx e w
  simp only [racedCalls, sendCalls, List.cons_append, List.nil_append, List.mem_cons,
    List.not_mem_nil, or_false] at hx
  rcases hx with rfl | rfl | rfl
  · exact busDevice_step txCore (fun _ => ReflTransGen.refl) e w
  · exact busDevice_step txCore (fun _ => ReflTransGen.refl) e w
  · exact busDevice_step txCore complete_env e w

/-- What a run of calls shows: were they all operations of the driver, how many
packets were accepted, and the last chip. -/
def shown (x : List TxRecord × World TxChip) : Bool × ℕ × ℕ × ℕ × ℕ :=
  (x.1.all fun r => namesRegisters r.op.op, x.1.countP accepted, x.2.chip.txStarts,
    x.2.chip.overwrites, x.2.chip.races)

theorem shown_session {rs : List TxRecord} {v : World TxChip} {n t o r : ℕ}
    (h : shown (rs, v) = (true, n, t, o, r)) :
    (∀ x ∈ rs, namesRegisters x.op.op = true) ∧ rs.countP accepted = n ∧
      v.chip.txStarts = t ∧ v.chip.overwrites = o ∧ v.chip.races = r := by
  simp only [shown, Prod.mk.injEq, List.all_eq_true] at h
  exact h

theorem one_transmission_per_packet_fails :
    ¬ ∀ (w v : World TxChip) (rs : List TxRecord),
      Session (busMachine txCore) (DriverCall.prog {}) w rs v → w.phase = .high →
      w.chip.txStarts = 0 ∧ w.chip.overwrites = 0 ∧ w.chip.races = 0 →
      (∀ r ∈ rs, namesRegisters r.op.op = true) →
      v.chip.txStarts = rs.countP accepted ∧ v.chip.overwrites = 0 := by
  intro h
  have hrun : (runCalls (DriverCall.prog {}) racedCalls resetWorld).map shown =
      some (true, 1, 2, 1, 1) := by decide
  obtain ⟨rs, v, hs, hv⟩ := runCalls_shows racedCalls_steps hrun
  obtain ⟨hops, hn, ht, -, -⟩ := shown_session hv
  have hclaim := (h resetWorld v rs hs rfl ⟨rfl, rfl, rfl⟩ hops).1
  omega

theorem transmissions_eq_accepted_send : ∃ rs v,
    Session (busMachine txCore) (DriverCall.prog {}) resetWorld rs v ∧
      rs.countP accepted = 1 ∧ v.chip.txStarts = rs.countP accepted ∧ v.chip.overwrites = 0 := by
  have hrun : (runCalls (DriverCall.prog {}) sendCalls resetWorld).map shown =
      some (true, 1, 1, 0, 0) := by decide
  obtain ⟨rs, v, hs, hv⟩ := runCalls_shows
    (fun x hx => racedCalls_steps x (List.mem_append_left _ hx)) hrun
  obtain ⟨hops, hn, -, -, hr⟩ := shown_session hv
  exact ⟨rs, v, hs, hn, (transmissions_eq_accepted_iff {} hs rfl ⟨rfl, rfl, rfl⟩ hops).2 hr⟩

end Stm32NetworkStack.TransmitCounting
