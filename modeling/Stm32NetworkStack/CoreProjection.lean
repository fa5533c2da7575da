import Stm32NetworkStack.DriverCommands

set_option autoImplicit false

/-!
# A chip with more state behind the same port

When a richer chip acts like a simpler one but for what some registers read, an
execution that never reads these registers is one of the simpler chip.
-/
namespace Stm32NetworkStack.CoreProjection
open InteractivePrograms Enc28Registers Enc28Driver DriverCommands SpiBus BankDiscipline Relation

section
variable {κ μ : Type}

/-- Every operation of `C` is shown through `f` as the operation of `D`; the
registers at the addresses in `hidden` may read differently. -/
structure Projects (C : ChipCore κ) (D : ChipCore μ) (f : κ → μ) (hidden : Byte → Prop) : Prop where
  econ1 : ∀ c, D.econ1 (f c) = C.econ1 c
  readReg : ∀ c a, ¬ hidden a → D.readReg (f c) a = C.readReg c a
  afterRead : ∀ c a, D.afterRead (f c) a = f (C.afterRead c a)
  writeReg : ∀ c a v, D.writeReg (f c) a v = f (C.writeReg c a v)
  setBits : ∀ c a m, D.setBits (f c) a m = f (C.setBits c a m)
  clearBits : ∀ c a m, D.clearBits (f c) a m = f (C.clearBits c a m)
  readBuf : ∀ c, D.readBuf (f c) = ((C.readBuf c).1, f (C.readBuf c).2)
  writeBuf : ∀ c b, D.writeBuf (f c) b = f (C.writeBuf c b)
  dummy : ∀ c, D.dummy (f c) = C.dummy c
  reset : ∀ c, D.reset (f c) = f (C.reset c)
  env : ∀ c d, C.env c d → ReflTransGen D.env (f c) (f d)

def shown (f : κ → μ) (w : World κ) : World μ := ⟨f w.chip, w.phase, w.currBank⟩

def shownTrace (f : κ → μ) (t : List (Call × World κ)) : List (Call × World μ) :=
  t.map fun x => (x.1, shown f x.2)

variable {C : ChipCore κ} {D : ChipCore μ} {f : κ → μ} {hidden : Byte → Prop}
  (proj : Projects C D f hidden)
include proj

theorem shown_decode (w : World κ) (op addr : Byte) :
    decode D (shown f w) op addr = shown f (decode C w op addr) := by
  have hmac : D.isMacOrMii (f w.chip) addr = C.isMacOrMii w.chip addr := by
    unfold ChipCore.isMacOrMii ChipCore.bsel
    rw [proj.econ1]
  have hreset : D.reset (f w.chip) = f (C.reset w.chip) := proj.reset w.chip
  unfold decode
  split_ifs
  · simp only [shown, hmac]
  · rfl
  · rfl
  · rfl
  · rfl
  · rfl
  · simp only [shown, hreset]
  · rfl

theorem shown_clockByte (b : Byte) (w : World κ) :
    (clockByte D b (shown f w)).2 = shown f (clockByte C b w).2 := by
  obtain ⟨c, phase, bank⟩ := w
  cases phase with
  | opcode => exact shown_decode proj ⟨c, .opcode, bank⟩ _ _
  | rcr addr due =>
    cases due with
    | true => rfl
    | false => simp only [clockByte, shown, proj.afterRead]
  | wcr addr => simp only [clockByte, shown, proj.writeReg]
  | bfs addr => simp only [clockByte, shown, proj.setBits]
  | bfc addr => simp only [clockByte, shown, proj.clearBits]
  | rbm => simp only [clockByte, shown, proj.readBuf]
  | wbm => simp only [clockByte, shown, proj.writeBuf]
  | high | done => rfl

theorem shown_clock (tx : ℕ → Byte) (n : ℕ) (w : World κ) :
    clock D tx n (shown f w) = shown f (clock C tx n w) := by
  induction n with
  | zero => rfl
  | succ n ih =>
    simp only [clock, ih]
    exact shown_clockByte proj _ _

/-- Outside of the hidden registers the chips answer alike. -/
theorem shown_answer (tx : ℕ → Byte) (n : ℕ) (w : World κ)
    (h : ∀ a, (clock C tx n w).phase = .rcr a false → ¬ hidden a) :
    answer D tx n (shown f w) = answer C tx n w := by
  unfold answer
  rw [shown_clock proj]
  generalize clock C tx n w = u at h
  obtain ⟨c, phase, bank⟩ := u
  cases phase with
  | rcr addr due =>
    cases due with
    | true => exact proj.dummy c
    | false => exact proj.readReg c addr (h addr rfl)
  | rbm => simp only [clockByte, shown, proj.readBuf]
  | high | opcode | wcr | bfs | bfc | wbm | done => exact proj.dummy c

theorem shown_step {e : Call} {w u : World κ} {r : e.Reply} (step : busMachine C e w r u)
    (h : ∀ y ∈ clockedIn C (e, w), ∀ a, y.phase = .rcr a false → ¬ hidden a) :
    busMachine D e (shown f w) r (shown f u) := by
  have replies : ∀ (tx : ℕ → Byte) (len : ℕ),
      (∀ y ∈ (List.range len).map fun i => clock C tx i w, ∀ a, y.phase = .rcr a false → ¬ hidden a) →
      (fun i : Fin len => answer C tx i w) = fun i : Fin len => answer D tx i (shown f w) := by
    intro tx len hy
    funext i
    exact (shown_answer proj tx i w (hy _ (List.mem_map_of_mem (List.mem_range.mpr i.isLt)))).symm
  cases e with
  | nssPinOp level =>
    unfold busMachine at step ⊢
    dsimp only at step ⊢
    split_ifs at step ⊢
    · subst step
      rfl
    · obtain ⟨c, hc, rfl⟩ := step
      exact ⟨f c, ReflTransGen.lift' f proj.env _ _ hc, rfl⟩
  | spiOutOp reg buff =>
    obtain rfl : u = clock C (bytesOf buff) buff.length w := step
    exact (shown_clock proj _ _ _).symm
  | spiInOp len =>
    obtain ⟨rfl, rfl⟩ : r = _ ∧ u = clock C (fun _ => 0) len w := step
    exact ⟨replies _ len h, (shown_clock proj _ _ _).symm⟩
  | spiInOutOp tx len =>
    obtain ⟨rfl, rfl⟩ : r = _ ∧ u = clock C (bytesOf tx) len w := step
    exact ⟨replies _ len h, (shown_clock proj _ _ _).symm⟩
  | waitNano ns =>
    obtain rfl : u = w := step
    rfl
  | loadBank =>
    obtain ⟨rfl, rfl⟩ : r = w.currBank ∧ u = w := step
    exact ⟨rfl, rfl⟩
  | storeBank bank =>
    obtain rfl : u = { w with currBank := bank } := step
    rfl

theorem shown_exec {α : Type} {p : Driver α} {w u : World κ} {t : List (Call × World κ)} {o : Option α}
    (run : Exec (busMachine C) p w t o u)
    (h : ∀ x ∈ t, ∀ y ∈ clockedIn C x, ∀ a, y.phase = .rcr a false → ¬ hidden a) :
    Exec (busMachine D) p (shown f w) (shownTrace f t) o (shown f u) := by
  induction run with
  | ret a s => exact .ret a _
  | spin s => exact .spin _
  | call step tail ih =>
    exact .call (shown_step proj step (h _ List.mem_cons_self))
      (ih fun x hx => h x (List.mem_cons_of_mem _ hx))

/-- A program whose commands name no hidden register runs alike on both chips. -/
theorem shown_sends {α : Type} {K : Commands} {p : Driver α} {w u : World κ} {t : List (Call × World κ)}
    {o : Option α} (hp : Sends K p) (hreads : ∀ reg ∈ K.reads, ¬ hidden reg.addr) (h0 : ¬ hidden 0)
    (idle : w.phase = .high) (guard : ∀ x ∈ t, (bankGuard C).holds x.1 x.2)
    (run : Exec (busMachine C) p w t o u) :
    Exec (busMachine D) p (shown f w) (shownTrace f t) o (shown f u) := by
  let S : Byte → Prop := fun cmd => cmd >>> spiArgBits = opRcr → ¬ hidden (cmd &&& spiArgMask)
  have hsent : ∀ x ∈ t, ∀ cmd, commandSent x = some cmd → S cmd := by
    intro x hx cmd hc hop
    obtain ⟨reg, ha, -, hr, -, -⟩ := command_of_permits (hp.permitted run x hx) (guard x hx) hc
      (by rw [hop]; decide)
    rw [ha]
    exact hreads reg (hr hop)
  have hopen := exec_opened run (S := S) (by rw [idle]; trivial) hsent
  refine shown_exec proj run fun x hx y hy a hphase => ?_
  have hy' := clockedIn_opened (hopen x hx) (hsent x hx) y hy
  rw [hphase] at hy'
  obtain ⟨cmd, hcmd | rfl, hop, rfl⟩ := hy'
  · exact hcmd hop
  · exact h0

omit proj in
/-- A read of a register that all banks share, after which the chip is at `d`. -/
theorem read_exec {ctx : Option SpiContext} (hr : canRead ctx = true) (reg : CtlReg) (hid : reg.id = reg.addr)
    (hshared : 0x1B ≤ reg.addr.toNat) (old : Byte) {w : World κ} {d : κ}
    (hd : ReflTransGen C.env (C.afterRead w.chip reg.addr) d) :
    ∃ t, Exec (busMachine C) (enc28DoReadCtlReg ctx reg (some old)) w t
      (some (.ok, C.readReg w.chip reg.addr)) { w with chip := d, phase := .high } := by
  have hres : reg.id ≠ 0x1A := by
    intro hi
    rw [← hid, hi] at hshared
    exact absurd hshared (by decide)
  have hdrop : privEnc28IsMacOrMiiReg w.currBank reg.id = false := by
    rw [hid]
    exact isMacOrMii_shared _ _ hshared
  have hagreed : dropsByte w reg = dummyDue C w reg := shared_agreed w hid hshared
  obtain ⟨hanswer, hchip⟩ := answer_keep C w reg hdrop
  rw [readValue_agreed C w reg hagreed] at hanswer
  rw [chipAfterRead_agreed C w reg hagreed] at hchip
  rw [readCtlReg_eq old hr hres]
  simp only [readTransaction, loadBank, nssPinOp, spiOutOp, spiInOp, bind_eq, pure_eq, call_bind, ret_bind]
  let sent : World κ := { w with phase := .opcode }
  let answered : World κ := clock C (fun _ => 0) 1 (inRead C w reg)
  refine ⟨[(.loadBank, w), (.nssPinOp 0, w), (.spiOutOp (some reg) [commandByte opRcr reg.id], sent),
    (.spiInOp 1, inRead C w reg), (.nssPinOp 1, answered)], ?_⟩
  refine .call (u := w) ⟨rfl, rfl⟩ (.call (r := ()) (u := sent) rfl (.call (r := ()) (u := inRead C w reg) ?_ ?_))
  · exact (clock_read C w reg).symm
  · rw [if_neg (by rw [hdrop]; exact Bool.false_ne_true)]
    refine .call (u := answered) ⟨rfl, rfl⟩ (.call (r := ()) (u := { w with chip := d, phase := .high })
      ⟨d, ?_, ?_⟩ ?_)
    · rw [hchip]
      exact hd
    · simp only [answered, clock_currBank]
      rfl
    · change Exec _ (.ret (CommandStatus.ok, answer C (fun _ => 0) 0 (inRead C w reg))) _ _ _ _
      rw [hanswer]
      exact .ret _ _

end

end Stm32NetworkStack.CoreProjection
