import Stm32NetworkStack.DriverCommands

set_option autoImplicit false

/-!
# What register reads hand on

A read command stands in a complete `enc28_do_read_ctl_reg`. Where that asks for
as many bytes as the chip sends, the dummy byte is dropped and nothing else: the
rest of the program is given what the register held.
-/
namespace Stm32NetworkStack.RegisterReads
open InteractivePrograms Enc28Registers Enc28Driver SpiBus BankDiscipline DriverCommands Relation

section
variable {κ : Type}

def StartsRead (x : Call × World κ) : Prop :=
  ∃ cmd, commandSent x = some cmd ∧ cmd >>> spiArgBits = opRcr

/-- An execution whose read commands all belong to register reads, each of which
returns ENC28_OK and hands on what the register held before it. -/
inductive ReadsRight (C : ChipCore κ) {α : Type} :
    Driver α → World κ → List (Call × World κ) → Option α → World κ → Prop
  | ret (a : α) (w : World κ) : ReadsRight C (.ret a) w [] (some a) w
  | spin (w : World κ) : ReadsRight C .spin w [] none w
  | call {e : Call} {k : e.Reply → Driver α} {w u v : World κ} {r : e.Reply}
      {t : List (Call × World κ)} {o : Option α} (other : ¬ StartsRead (e, w))
      (step : busMachine C e w r u) (tail : ReadsRight C (k r) u t o v) :
      ReadsRight C (.call e k) w ((e, w) :: t) o v
  | read {ctx : Option SpiContext} {reg : CtlReg} {old : Byte} {k : CommandStatus × Byte → Driver α}
      {w u v : World κ} {t₁ t₂ : List (Call × World κ)} {o : Option α}
      (run : Exec (busMachine C) (enc28DoReadCtlReg ctx reg (some old)) w t₁
        (some (.ok, C.readReg w.chip reg.addr)) u)
      (tail : ReadsRight C (k (.ok, C.readReg w.chip reg.addr)) u t₂ o v) :
      ReadsRight C ((enc28DoReadCtlReg ctx reg (some old)).bind k) w (t₁ ++ t₂) o v

variable {C : ChipCore κ} {ctx : Option SpiContext} {reg : CtlReg} {w u v : World κ}
  {t : List (Call × World κ)}

/-- A register read is five calls, of which the third sends the command. -/
theorem readTransaction_trace {o : Option (CommandStatus × Byte)}
    (run : Exec (busMachine C) (readTransaction reg (commandByte opRcr reg.id)) w t o u) :
    ∃ x, t = [(.loadBank, w), (.nssPinOp 0, w),
      (.spiOutOp (some reg) [commandByte opRcr reg.id], { w with phase := .opcode }),
      (.spiInOp (readLen w reg), inRead C w reg), (.nssPinOp 1, x)] := by
  simp only [readTransaction, bind_eq, loadBank, nssPinOp, spiOutOp, spiInOp, call_bind,
    ret_bind] at run
  obtain ⟨currBank, w₁, t₁, ⟨hb, hw₁⟩, run₁, rfl⟩ := run.of_call
  obtain ⟨_, w₂, t₂, hw₂, run₂, rfl⟩ := run₁.of_call
  obtain ⟨_, w₃, t₃, hw₃, run₃, rfl⟩ := run₂.of_call
  subst hw₁
  obtain rfl : w₂ = { w₁ with phase := .opcode } := hw₂
  obtain rfl : w₃ = inRead C w₁ reg := hw₃.trans (clock_read C w₁ reg)
  rw [hb] at run₃
  unfold readLen dropsByte
  split_ifs at run₃ ⊢
  all_goals
    obtain ⟨_, w₄, _, -, run₄, rfl⟩ := run₃.of_call
    obtain ⟨_, _, _, -, hend, rfl⟩ := run₄.of_call
    cases hend
    exact ⟨w₄, rfl⟩

theorem readTransaction_asks {o : Option (CommandStatus × Byte)}
    (run : Exec (busMachine C) (readTransaction reg (commandByte opRcr reg.id)) w t o u) :
    (.spiInOp (readLen w reg), inRead C w reg) ∈ t := by
  obtain ⟨x, rfl⟩ := readTransaction_trace run
  simp

/-- Under the guard a read asks for the dummy byte exactly when the chip sends one. -/
theorem guarded_agreed (h : (bankGuard C).holds (.spiInOp (readLen w reg)) (inRead C w reg)) :
    dropsByte w reg = dummyDue C w reg := by
  have hlen : readLen w reg = if dummyDue C w reg then 2 else 1 := h reg.addr (dummyDue C w reg) rfl
  unfold readLen at hlen
  cases hd : dropsByte w reg <;> cases hc : dummyDue C w reg <;> simp [hd, hc] at hlen ⊢

theorem readCtlReg_result {old : Byte} {o : Option (CommandStatus × Byte)}
    (run : Exec (busMachine C) (enc28DoReadCtlReg ctx reg (some old)) w t o u)
    (hg : ∀ x ∈ t, (bankGuard C).holds x.1 x.2) :
    o = some (.ok, C.readReg w.chip reg.addr) ∨
      ∃ r, o = some r ∧ enc28DoReadCtlReg ctx reg (some old) = .ret r := by
  by_cases hf : canRead ctx = false ∨ reg.id = 0x1A
  · obtain ⟨status, -, he⟩ := readCtlReg_fails old hf
    rw [he] at run
    cases run
    exact Or.inr ⟨_, rfl, he⟩
  · have hvalue : wp (busMachine C) (BusGuard.free κ).holds (enc28DoReadCtlReg ctx reg (some old))
        (fun o _ => o = some (.ok, readValue C w reg)) w :=
      wp_readCtlReg (fun h => absurd h hf) fun _ _ => ⟨⟨trivial, trivial⟩, fun _ _ => rfl⟩
    have ho : o = some (.ok, readValue C w reg) := (wp_sound hvalue run).2
    simp only [not_or, Bool.not_eq_false] at hf
    rw [readCtlReg_eq old hf.1 hf.2] at run
    have hagreed := guarded_agreed (hg _ (readTransaction_asks run))
    rw [readValue_agreed C w reg hagreed] at ho
    exact Or.inl ho

theorem not_startsRead {e : Call} (other : isReadCommand e = false)
    (hg : (bankGuard C).holds e w) : ¬ StartsRead (e, w) := by
  rintro ⟨cmd, hsent, hop⟩
  have named : ∀ reg buff, (bankGuard C).out reg buff w →
      (if w.phase = .opcode then buff.head? else none) = some cmd →
      ∃ r rest, reg = some r ∧ buff = cmd :: rest := by
    intro reg buff hout hcmd
    split_ifs at hcmd with hp
    obtain ⟨rest, rfl⟩ : ∃ rest, buff = cmd :: rest := List.head?_eq_some_iff.mp hcmd
    obtain ⟨r, hr, -⟩ := hout hp cmd rest rfl (by simp [hop])
    exact ⟨r, rest, hr, rfl⟩
  cases e with
  | spiOutOp reg buff =>
    obtain ⟨r, rest, rfl, rfl⟩ := named reg buff hg hsent
    exact absurd hop (ne_of_beq_false other)
  | spiInOutOp tx len =>
    obtain ⟨r, -, hr, -⟩ := named none tx hg hsent
    cases hr
  | nssPinOp | spiInOp | waitNano | loadBank | storeBank => cases hsent

theorem sends_readsRight {α : Type} {K : Commands} {p : Driver α} {o : Option α} (hp : Sends K p)
    (run : Exec (busMachine C) p w t o v) (hg : ∀ x ∈ t, (bankGuard C).holds x.1 x.2) :
    ReadsRight C p w t o v := by
  induction hp generalizing w t with
  | ret a =>
    cases run
    exact .ret a _
  | spin =>
    cases run
    exact .spin _
  | call _ other _ ih =>
    cases run with
    | call step tail =>
      exact .call (not_startsRead other (hg _ List.mem_cons_self)) step
        (ih _ tail fun x hx => hg x (List.mem_cons_of_mem _ hx))
  | read _ _ ih =>
    rcases run.split with ⟨-, hcut⟩ | ⟨r, u, t₁, t₂, hread, hrest, rfl⟩
    · rcases readCtlReg_result hcut hg with ho | ⟨r, ho, -⟩
      · cases ho
      · cases ho
    · have hg₁ : ∀ x ∈ t₁, (bankGuard C).holds x.1 x.2 := fun x hx => hg x (List.mem_append_left _ hx)
      have hg₂ : ∀ x ∈ t₂, (bankGuard C).holds x.1 x.2 := fun x hx => hg x (List.mem_append_right _ hx)
      rcases readCtlReg_result hread hg₁ with ho | ⟨r', ho, hret⟩
      · obtain rfl := Option.some.inj ho
        exact .read hread (ih _ hrest hg₂)
      · obtain rfl := Option.some.inj ho
        -- a refused read makes no call
        rw [hret] at hread ⊢
        cases hread
        exact ih _ hrest hg₂

end

end Stm32NetworkStack.RegisterReads
