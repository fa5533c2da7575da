import Stm32NetworkStack.SpiBus

set_option autoImplicit false

/-!
# Which bank the driver works in

A chip whose ECON1 behaves as a register (`BankLaws`) is followed through the
register accessors. `InBank P b` is the state after a successful bank switch,
`Idle P` what is known between two calls. Each accessor has one rule, which
takes a property `P` of the chip to another one that the chip keeps on its own.
-/
namespace Stm32NetworkStack.BankDiscipline
open InteractivePrograms Enc28Registers Enc28Driver SpiBus Relation

/-- ECON1 is at 0x1F of every bank, and only writes to it move BSEL. -/
structure BankLaws {κ : Type} (C : ChipCore κ) : Prop where
  read : ∀ c, C.readReg c 0x1F = C.econ1 c
  afterRead : ∀ c a, C.econ1 (C.afterRead c a) = C.econ1 c
  writeEcon1 : ∀ c v, C.bsel (C.writeReg c 0x1F v) = v &&& econ1Bsel
  write : ∀ c a v, a ≠ 0x1F → C.bsel (C.writeReg c a v) = C.bsel c
  set : ∀ c a m, (a = 0x1F → m &&& econ1Bsel = 0) → C.bsel (C.setBits c a m) = C.bsel c
  clear : ∀ c a m, (a = 0x1F → m &&& econ1Bsel = 0) → C.bsel (C.clearBits c a m) = C.bsel c
  readBuf : ∀ c, C.bsel (C.readBuf c).2 = C.bsel c
  writeBuf : ∀ c b, C.bsel (C.writeBuf c b) = C.bsel c
  reset : ∀ c, C.bsel (C.reset c) = 0
  env : ∀ c d, C.env c d → C.bsel d = C.bsel c

def EnvClosed {κ : Type} (C : ChipCore κ) (P : κ → Prop) : Prop := ∀ c d, P c → C.env c d → P d

section
variable {κ : Type} (C : ChipCore κ)

/-- A register command names the register it addresses and goes to its bank; a
read asks for the dummy byte exactly when the chip sends one. -/
def bankGuard : BusGuard κ where
  out := fun reg buff w => w.phase = .opcode → ∀ cmd rest, buff = cmd :: rest →
    cmd >>> spiArgBits ∈ [opRcr, opWcr, opBfs, opBfc] →
    ∃ r, reg = some r ∧ cmd &&& spiArgMask = r.addr ∧
      ((cmd &&& spiArgMask).toNat < 0x1B → r.bank = some (C.bsel w.chip))
  inn := fun len w => ∀ addr due, w.phase = .rcr addr due →
    len = if C.isMacOrMii w.chip addr then 2 else 1

/-- Between two calls; `agree` says whether the driver is known to know the bank. -/
def Idle (J : κ → Prop) (agree : Bool) (w : World κ) : Prop :=
  w.phase = .high ∧ J w.chip ∧ (agree = true → w.currBank = C.bsel w.chip)

def InBank (J : κ → Prop) (b : Byte) (w : World κ) : Prop :=
  w.phase = .high ∧ J w.chip ∧ w.currBank = b ∧ C.bsel w.chip = b

/-- `A` after ENC28_OK, `E` after any other status. -/
def okOr (A E : World κ → Prop) (status : CommandStatus) : World κ → Prop :=
  if status = .ok then A else E

/-- From `P` the program ends in `A` if it returns OK and in `E` otherwise. -/
def Spec (P : World κ → Prop) (p : Driver CommandStatus) (A E : World κ → Prop) : Prop :=
  Triple (busMachine C) (bankGuard C).holds P p (okOr A E) E

end

theorem okOr_err {κ : Type} (A E : World κ → Prop) {status : CommandStatus} (h : status ≠ .ok) :
    okOr A E status = E :=
  if_neg h

theorem okOr_self {κ : Type} (A : World κ → Prop) (status : CommandStatus) : okOr A A status = A :=
  ite_self A

theorem ends_err {κ : Type} {A E : World κ → Prop} {status : CommandStatus} (h : status ≠ .ok)
    {w : World κ} (hw : E w) : ends (okOr A E) E (some status) w := by
  change okOr A E status w
  rw [okOr_err A E h]
  exact hw

theorem bank_addr {reg : CtlReg} {b : Byte} (h : reg.bank = some b) :
    reg.id = reg.addr ∧ reg.id ≠ 0x1A ∧ reg.addr.toNat < 0x1B := by
  cases reg
  case eie | eir | estat | econ2 | econ1 | raw => cases h
  all_goals decide

theorem bank_ne_econ1 {reg : CtlReg} {b : Byte} (h : reg.bank = some b) : reg.addr ≠ 0x1F := by
  intro he
  have ha := (bank_addr h).2.2
  rw [he] at ha
  exact absurd ha (by decide)

theorem bank_ne_eir {reg : CtlReg} {b : Byte} (h : reg.bank = some b) : reg.addr ≠ 0x1C := by
  intro he
  have ha := (bank_addr h).2.2
  rw [he] at ha
  exact absurd ha (by decide)

theorem isMacOrMii_shared (b id : Byte) (h : 0x1B ≤ id.toNat) :
    privEnc28IsMacOrMiiReg b id = false := by
  have hall : ∀ id : Byte, 0x1B ≤ id.toNat →
      privEnc28IsMacOrMiiReg 2 id = false ∧ privEnc28IsMacOrMiiReg 3 id = false := by decide
  by_cases h2 : b = 2
  · rw [h2]
    exact (hall id h).1
  · by_cases h3 : b = 3
    · rw [h3]
      exact (hall id h).2
    · simp only [privEnc28IsMacOrMiiReg, if_neg h2, if_neg h3]

theorem econ1_not_mac (b : Byte) : (macMiiAddrs b).contains 0x1F = false := by
  rw [← isMacOrMiiReg_eq]
  exact isMacOrMii_shared _ _ (by decide)

theorem bank_cases (b : Byte) (h : b.toNat < 4) : b = 0 ∨ b = 1 ∨ b = 2 ∨ b = 3 := by
  revert b
  decide

theorem econ1WithBank_bsel (v b : Byte) (h : b.toNat < 4) :
    econ1WithBank v b &&& econ1Bsel = b := by
  rcases bank_cases b h with rfl | rfl | rfl | rfl <;> (revert v; decide)

theorem econ1WithBank_txrts (v b : Byte) (h : b.toNat < 4) :
    (econ1WithBank v b).getLsbD econ1Txrts = v.getLsbD econ1Txrts := by
  rcases bank_cases b h with rfl | rfl | rfl | rfl <;> (revert v; decide)

theorem econ1WithBank_rest (v b : Byte) (h : b.toNat < 4) :
    econ1WithBank v b &&& ~~~econ1Bsel = v &&& ~~~econ1Bsel := by
  rcases bank_cases b h with rfl | rfl | rfl | rfl <;> (revert v; decide)

theorem bsel_or (v m : Byte) (h : m &&& econ1Bsel = 0) :
    (v ||| m) &&& econ1Bsel = v &&& econ1Bsel := by
  ext i hi
  have hb := congrArg (fun x : Byte => x.getLsbD i) h
  simp at hb ⊢
  grind

theorem bsel_andNot (v m : Byte) (h : m &&& econ1Bsel = 0) :
    (v &&& ~~~m) &&& econ1Bsel = v &&& econ1Bsel := by
  ext i hi
  have hb := congrArg (fun x : Byte => x.getLsbD i) h
  simp at hb ⊢
  grind

/-- A bit field command on the register at `a` takes ECON1 from `old` to `new`. -/
theorem set_bsel {a old new m : Byte} (other : a ≠ 0x1F → new = old) (econ1 : a = 0x1F → new = old ||| m)
    (h : a = 0x1F → m &&& econ1Bsel = 0) : new &&& econ1Bsel = old &&& econ1Bsel := by
  by_cases ha : a = 0x1F
  · rw [econ1 ha]
    exact bsel_or old m (h ha)
  · rw [other ha]

theorem clear_bsel {a old new m : Byte} (other : a ≠ 0x1F → new = old)
    (econ1 : a = 0x1F → new = old &&& ~~~m) (h : a = 0x1F → m &&& econ1Bsel = 0) :
    new &&& econ1Bsel = old &&& econ1Bsel := by
  by_cases ha : a = 0x1F
  · rw [econ1 ha]
    exact bsel_andNot old m (h ha)
  · rw [other ha]

section
variable {κ : Type} {C : ChipCore κ} {J : κ → Prop} {ctx : Option SpiContext}

theorem InBank.idle {b : Byte} {agree : Bool} {w : World κ} (h : InBank C J b w) :
    Idle C J agree w :=
  ⟨h.1, h.2.1, fun _ => h.2.2.1.trans h.2.2.2.symm⟩

theorem Idle.unbanked {w : World κ} (idle : w.phase = .high) (h : J w.chip) : Idle C J false w :=
  ⟨idle, h, fun ha => absurd ha Bool.false_ne_true⟩

theorem okOr_mono {A A' E E' : World κ → Prop} (hA : ∀ w, A w → A' w) (hE : ∀ w, E w → E' w)
    (status : CommandStatus) (w : World κ) (h : okOr A E status w) : okOr A' E' status w := by
  unfold okOr at h ⊢
  split_ifs at h ⊢
  · exact hA w h
  · exact hE w h

theorem Spec.conseq {P P' A A' E E' : World κ → Prop} {p : Driver CommandStatus}
    (h : Spec C P p A E) (hP : ∀ w, P' w → P w) (hA : ∀ w, A w → A' w) (hE : ∀ w, E w → E' w) :
    Spec C P' p A' E' :=
  Triple.conseq h hP (okOr_mono hA hE) hE

theorem Spec.either {P A : World κ → Prop} {p : Driver CommandStatus} (h : Spec C P p A A) :
    Triple (busMachine C) (bankGuard C).holds P p (fun _ => A) A :=
  Triple.conseq h (fun _ h => h) (fun status w hw => by rwa [okOr_self] at hw) fun _ h => h

theorem Spec.lands {P A E : World κ → Prop} {p : Driver CommandStatus} (h : Spec C P p A E)
    {w u : World κ} {t : List (Call × World κ)} {status : CommandStatus} (hw : P w)
    (run : Exec (busMachine C) p w t (some status) u) : A u ∨ E u := by
  have hend : okOr A E status u := (Triple.sound h hw run).2
  unfold okOr at hend
  split_ifs at hend
  · exact Or.inl hend
  · exact Or.inr hend

theorem Spec.lands_ok {P A E : World κ → Prop} {p : Driver CommandStatus} (h : Spec C P p A E)
    {w u : World κ} {t : List (Call × World κ)} (hw : P w)
    (run : Exec (busMachine C) p w t (some .ok) u) : A u :=
  (Triple.sound h hw run).2

theorem Spec.ok {P A E : World κ → Prop} (h : ∀ w, P w → A w) : Spec C P (.ret .ok) A E :=
  h

theorem Spec.err {P A E : World κ → Prop} {status : CommandStatus} (hs : status ≠ .ok)
    (h : ∀ w, P w → E w) : Spec C P (.ret status) A E := by
  intro w hw
  change okOr A E status w
  rw [okOr_err A E hs]
  exact h w hw

/-- With the callbacks there, an accessor that only fails without them does not fail. -/
theorem Spec.sure {P A E F : World κ → Prop} {p : Driver CommandStatus} (hc : canWrite ctx = true)
    (h : Spec C P p A fun w => canWrite ctx = false ∧ E w) : Spec C P p A F :=
  h.conseq (fun _ h => h) (fun _ h => h) fun _ h => absurd (hc.symm.trans h.1) (by decide)

theorem Spec.sureBits {P A E F : World κ → Prop} {p : Driver CommandStatus} (hc : canWrite ctx = true)
    (h : Spec C P p A fun w => canRead ctx = false ∧ E w) : Spec C P p A F :=
  h.conseq (fun _ h => h) (fun _ h => h) fun _ h => absurd ((canRead_of_canWrite hc).symm.trans h.1) (by decide)

/-- `EXIT_IF_ERR`: an error leaves at once with what holds there. -/
theorem Spec.exit {P B A E : World κ → Prop} {p k : Driver CommandStatus}
    (hp : Spec C P p B E) (hk : Spec C B k A E) : Spec C P (exitIfErr p k) A E := by
  refine Triple.bind hp fun status => ?_
  by_cases hs : status = .ok
  · subst hs
    exact hk
  · rw [if_neg hs, okOr_err B E hs]
    exact Spec.err hs fun _ h => h

/-- A first part that cannot fail is followed by the second. -/
theorem Spec.exit_runs {P B : World κ → Prop} {p k : Driver CommandStatus}
    (hp : Spec C P p B fun _ => False) {w v : World κ} {t : List (Call × World κ)}
    {o : Option CommandStatus} (hw : P w) (run : Exec (busMachine C) (exitIfErr p k) w t o v) :
    ∃ u t₁ t₂, B u ∧ Exec (busMachine C) k u t₂ o v ∧ t = t₁ ++ t₂ := by
  rcases run.split with ⟨-, hcut⟩ | ⟨status, u, t₁, t₂, h₁, h₂, ht⟩
  · exact ((Triple.sound hp hw hcut).2 : False).elim
  · have hend : okOr B (fun _ => False) status u := (Triple.sound hp hw h₁).2
    by_cases hs : status = .ok
    · subst hs
      exact ⟨u, t₁, t₂, hend, h₂, ht⟩
    · rw [okOr_err _ _ hs] at hend
      exact hend.elim

theorem Spec.exitSure {P B : World κ → Prop} {D : CommandStatus → World κ → Prop} {p k : Driver CommandStatus}
    (hp : Spec C P p B fun _ => False) (hk : Triple (busMachine C) (bankGuard C).holds B k D fun _ => False) :
    Triple (busMachine C) (bankGuard C).holds P (exitIfErr p k) D fun _ => False := by
  refine Triple.bind hp fun status => ?_
  by_cases hs : status = .ok
  · subst hs
    exact hk
  · rw [okOr_err B _ hs]
    exact fun w hw => absurd hw fun h => h

theorem env_bsel (laws : BankLaws C) {c d : κ} (h : ReflTransGen C.env c d) :
    C.bsel d = C.bsel c := by
  induction h with
  | refl => rfl
  | tail _ hs ih => exact (laws.env _ _ hs).trans ih

theorem env_keeps {P : κ → Prop} (closed : EnvClosed C P) {c d : κ} (hc : P c)
    (h : ReflTransGen C.env c d) : P d := by
  induction h with
  | refl => exact hc
  | tail _ hs ih => exact closed _ _ ih hs

theorem Idle.step (laws : BankLaws C) {P P' : κ → Prop} {agree : Bool} {w : World κ}
    (hw : Idle C P agree w) (closed : EnvClosed C P') {c d : κ} (hc : P' c)
    (hb : C.bsel c = C.bsel w.chip) (hd : ReflTransGen C.env c d) :
    Idle C P' agree { w with chip := d, phase := .high } := by
  refine ⟨rfl, env_keeps closed hc hd, fun ha => ?_⟩
  change w.currBank = C.bsel d
  rw [env_bsel laws hd, hb]
  exact hw.2.2 ha

theorem InBank.step (laws : BankLaws C) {P P' : κ → Prop} {b : Byte} {w : World κ}
    (hw : InBank C P b w) (closed : EnvClosed C P') {c d : κ} (hc : P' c)
    (hb : C.bsel c = C.bsel w.chip) (hd : ReflTransGen C.env c d) :
    InBank C P' b { w with chip := d, phase := .high } :=
  ⟨rfl, env_keeps closed hc hd, hw.2.2.1, (env_bsel laws hd).trans (hb.trans hw.2.2.2)⟩

theorem afterRead_bsel (laws : BankLaws C) (c : κ) (a : Byte) :
    C.bsel (C.afterRead c a) = C.bsel c := by
  unfold ChipCore.bsel
  rw [laws.afterRead]

theorem chipAfterRead_bsel (laws : BankLaws C) (w : World κ) (reg : CtlReg) :
    C.bsel (chipAfterRead C w reg) = C.bsel w.chip := by
  unfold chipAfterRead
  split
  · rfl
  · exact afterRead_bsel laws _ _

theorem command_guard {w : World κ} {reg : CtlReg}
    (h : reg.addr.toNat < 0x1B → reg.bank = some (C.bsel w.chip)) (op : Byte) (data : List Byte) :
    (bankGuard C).out (some reg) (commandByte op reg.id :: data) { w with phase := .opcode } := by
  intro _ cmd rest hb _
  obtain ⟨rfl, -⟩ := List.cons.inj hb
  refine ⟨reg, rfl, commandByte_addr op reg.id, fun ha => h ?_⟩
  rw [commandByte_addr] at ha
  exact ha

theorem read_guard {w : World κ} {reg : CtlReg}
    (h : reg.addr.toNat < 0x1B → reg.bank = some (C.bsel w.chip))
    (agreed : dropsByte w reg = dummyDue C w reg) : ReadGuard C (bankGuard C) w reg := by
  refine ⟨command_guard h opRcr [], fun addr due hp => ?_⟩
  obtain ⟨rfl, rfl⟩ := SpiPhase.rcr.inj hp
  simp only [readLen, agreed]
  rfl

theorem InBank.named {b : Byte} {w : World κ} (hw : InBank C J b w) {reg : CtlReg}
    (hr : reg.bank = some b) : reg.bank = some (C.bsel w.chip) := by
  rw [hw.2.2.2]
  exact hr

theorem InBank.agreed {b : Byte} {w : World κ} (hw : InBank C J b w) {reg : CtlReg}
    (hr : reg.bank = some b) : dropsByte w reg = dummyDue C w reg := by
  unfold dropsByte dummyDue ChipCore.isMacOrMii
  rw [hw.2.2.1, hw.2.2.2, (bank_addr hr).1, isMacOrMiiReg_eq]

theorem shared_agreed (w : World κ) {reg : CtlReg} (hid : reg.id = reg.addr)
    (hr : 0x1B ≤ reg.addr.toNat) : dropsByte w reg = dummyDue C w reg := by
  unfold dropsByte dummyDue ChipCore.isMacOrMii
  rw [hid, isMacOrMii_shared _ _ hr, ← isMacOrMiiReg_eq, isMacOrMii_shared _ _ hr]

theorem bank_burst : BurstGuard (bankGuard C) where
  read := fun _ _ _ cmd _ hb hc => by
    obtain ⟨rfl, -⟩ := List.cons.inj hb
    exact absurd hc (by decide)
  write := fun _ _ _ cmd _ hb hc => by
    obtain ⟨rfl, -⟩ := List.cons.inj hb
    exact absurd hc (by decide)
  inn := fun _ w hw addr due hp => SpiPhase.noConfusion (hw.symm.trans hp)
  out := fun _ w hw hp => SpiPhase.noConfusion (hw.symm.trans hp)

theorem drained_bsel (laws : BankLaws C) (n : ℕ) (c : κ) :
    C.bsel (C.drained n c) = C.bsel c := by
  induction n with
  | zero => rfl
  | succ n ih =>
    rw [drained_succ]
    exact (laws.readBuf _).trans ih

theorem written_bsel (laws : BankLaws C) (buff : List Byte) (c : κ) :
    C.bsel (buff.foldl C.writeBuf c) = C.bsel c := by
  induction buff generalizing c with
  | nil => rfl
  | cons b buff ih => exact (ih _).trans (laws.writeBuf c b)

theorem read_blocked (h : canRead ctx = false) {P : World κ → Prop} {B : CommandStatus × Byte → World κ → Prop}
    {X : World κ → Prop} (reg : CtlReg) (old : Byte)
    (hB : ∀ status w, status ≠ .ok → P w → B (status, old) w) :
    Triple (busMachine C) (bankGuard C).holds P (enc28DoReadCtlReg ctx reg (some old)) B X := by
  obtain ⟨status, hs, he⟩ : ∃ status, status ≠ .ok ∧
      enc28DoReadCtlReg ctx reg (some old) = .ret (status, old) := readCtlReg_fails old (Or.inl h)
  rw [he]
  exact Triple.ret fun w hw => hB status w hs hw

theorem write_blocked (h : canWrite ctx = false) {P : World κ → Prop} (reg : CtlReg) (value : Byte) :
    Spec C P (enc28DoWriteCtlReg ctx reg value) (fun _ => False) P := by
  obtain ⟨status, hs, he⟩ : ∃ status, status ≠ .ok ∧ enc28DoWriteCtlReg ctx reg value = .ret status :=
    writeCtlReg_fails value (Or.inl h)
  rw [he]
  exact Spec.err hs fun _ h => h

variable (laws : BankLaws C) {P P' : κ → Prop} {V : Byte → κ → Prop} {agree : Bool}
include laws

theorem readShared_rule (hc : canRead ctx = true) (reg : CtlReg) (hid : reg.id = reg.addr)
    (hr : 0x1B ≤ reg.addr.toNat) (old : Byte) (closed : ∀ v, EnvClosed C (V v))
    (h : ∀ c, P c → V (C.readReg c reg.addr) (C.afterRead c reg.addr)) {X : World κ → Prop} :
    Triple (busMachine C) (bankGuard C).holds (Idle C P agree)
      (enc28DoReadCtlReg ctx reg (some old))
      (fun r w => r.1 = .ok ∧ Idle C (V r.2) agree w) X := by
  have hres : reg.id ≠ 0x1A := by
    intro hi
    rw [← hid, hi] at hr
    exact absurd hr (by decide)
  intro w hw
  have hshared : dropsByte w reg = dummyDue C w reg := shared_agreed w hid hr
  refine wp_readCtlReg (fun hf _ _ => ?_) (fun _ _ => ⟨?_, fun d hd => ⟨rfl, ?_⟩⟩)
  · rcases hf with hf | hf
    · exact absurd (hc.symm.trans hf) (by decide)
    · exact absurd hf hres
  · exact read_guard (fun h => absurd h (by omega)) hshared
  · rw [chipAfterRead_agreed C w reg hshared] at hd
    rw [readValue_agreed C w reg hshared]
    exact hw.step laws (closed _) (h _ hw.2.1) (afterRead_bsel laws _ _) hd

theorem read_rule {b : Byte} (hc : canRead ctx = true) (reg : CtlReg) (hr : reg.bank = some b)
    (old : Byte) (closed : ∀ v, EnvClosed C (V v))
    (h : ∀ c, P c → C.bsel c = b → V (C.readReg c reg.addr) (C.afterRead c reg.addr))
    {X : World κ → Prop} :
    Triple (busMachine C) (bankGuard C).holds (InBank C P b)
      (enc28DoReadCtlReg ctx reg (some old))
      (fun r w => r.1 = .ok ∧ InBank C (V r.2) b w) X := by
  intro w hw
  have hagreed := hw.agreed hr
  refine wp_readCtlReg (fun hf _ _ => ?_) (fun _ _ => ⟨?_, fun d hd => ⟨rfl, ?_⟩⟩)
  · rcases hf with hf | hf
    · exact absurd (hc.symm.trans hf) (by decide)
    · exact absurd hf (bank_addr hr).2.1
  · exact read_guard (fun _ => hw.named hr) hagreed
  · rw [chipAfterRead_agreed C w reg hagreed] at hd
    rw [readValue_agreed C w reg hagreed]
    exact hw.step laws (closed _) (h _ hw.2.1 hw.2.2.2) (afterRead_bsel laws _ _) hd

theorem write_rule {b : Byte} {reg : CtlReg} (hr : reg.bank = some b) (value : Byte)
    (closed : EnvClosed C P') (h : ∀ c, P c → C.bsel c = b → P' (C.writeReg c reg.addr value)) :
    Spec C (InBank C P b) (enc28DoWriteCtlReg ctx reg value) (InBank C P' b)
      (fun w => canWrite ctx = false ∧ InBank C P b w) := by
  intro w hw
  refine wp_writeCtlReg (fun hf status hs => ends_err hs ⟨hf.resolve_right (bank_addr hr).2.1, hw⟩)
    (fun _ _ => ⟨command_guard (fun _ => hw.named hr) opWcr [value], fun d hd => ?_⟩)
  exact hw.step laws closed (h _ hw.2.1 hw.2.2.2) (laws.write _ _ _ (bank_ne_econ1 hr)) hd

theorem setBits_rule {b : Byte} {reg : CtlReg} (hid : reg.id ≠ 0x1A)
    (hr : reg.addr.toNat < 0x1B → reg.bank = some b) (mask : Byte)
    (hm : reg.addr = 0x1F → mask &&& econ1Bsel = 0) (closed : EnvClosed C P')
    (h : ∀ c, P c → C.bsel c = b → P' (C.setBits c reg.addr mask)) :
    Spec C (InBank C P b) (enc28DoSetBitsCtlReg ctx reg mask) (InBank C P' b)
      (fun w => canRead ctx = false ∧ InBank C P b w) := by
  intro w hw
  refine wp_setBitsCtlReg (fun hf status hs => ends_err hs ⟨hf.resolve_right hid, hw⟩)
    (fun _ _ => ⟨command_guard (fun ha => hw.named (hr ha)) opBfs [mask], fun d hd => ?_⟩)
  exact hw.step laws closed (h _ hw.2.1 hw.2.2.2) (laws.set _ _ _ hm) hd

theorem clearBits_rule {b : Byte} {reg : CtlReg} (hid : reg.id ≠ 0x1A)
    (hr : reg.addr.toNat < 0x1B → reg.bank = some b) (mask : Byte)
    (hm : reg.addr = 0x1F → mask &&& econ1Bsel = 0) (closed : EnvClosed C P')
    (h : ∀ c, P c → C.bsel c = b → P' (C.clearBits c reg.addr mask)) :
    Spec C (InBank C P b) (enc28DoClearBitsCtlReg ctx reg mask) (InBank C P' b)
      (fun w => canRead ctx = false ∧ InBank C P b w) := by
  intro w hw
  refine wp_clearBitsCtlReg (fun hf status hs => ends_err hs ⟨hf.resolve_right hid, hw⟩)
    (fun _ _ => ⟨command_guard (fun ha => hw.named (hr ha)) opBfc [mask], fun d hd => ?_⟩)
  exact hw.step laws closed (h _ hw.2.1 hw.2.2.2) (laws.clear _ _ _ hm) hd

/-- The bank switch ends in the bank asked for; it fails only without callbacks. -/
theorem select_rule {b : Byte} (hb : b.toNat < 4) (env : EnvClosed C P)
    (afterRead : ∀ c, P c → P (C.afterRead c 0x1F)) (closed : EnvClosed C P')
    (h : ∀ c d, P c → ReflTransGen C.env (C.afterRead c 0x1F) d →
      P' (C.writeReg d 0x1F (econ1WithBank (C.econ1 c) b))) :
    Spec C (Idle C P agree) (enc28SelectRegisterBank ctx b) (InBank C P' b)
      (fun u => canWrite ctx = false ∧ Idle C P agree u) := by
  intro w hw
  unfold enc28SelectRegisterBank
  rw [if_neg (by omega)]
  have hshared : dropsByte w .econ1 = dummyDue C w .econ1 := shared_agreed w rfl (by decide)
  refine (wp_bind _ _ _ w).2 (wp_readCtlReg (fun hf status hs => ?_) (fun _ _ => ⟨?_, fun d hd => ?_⟩))
  · have hc : canWrite ctx = false := by
      rcases hf with hf | hf
      · cases hc : canWrite ctx with
        | false => rfl
        | true => rw [canRead_of_canWrite hc] at hf; cases hf
      · exact absurd hf (by decide)
    simpa [hs] using ends_err hs ⟨hc, hw⟩
  · exact read_guard (fun h => absurd h (by decide)) hshared
  · rw [chipAfterRead_agreed C w .econ1 hshared] at hd
    rw [(readValue_agreed C w .econ1 hshared).trans (laws.read w.chip)]
    refine (wp_bind _ _ _ _).2 (wp_writeCtlReg (fun hf status hs => ?_) (fun _ _ => ⟨?_, fun e he => ?_⟩))
    · have hc : canWrite ctx = false := hf.resolve_right (by decide)
      have hidle := hw.step laws env (afterRead _ hw.2.1) (afterRead_bsel laws _ _) hd
      simpa [hs] using ends_err hs ⟨hc, hidle⟩
    · exact command_guard (fun h => absurd h (by decide)) opWcr _
    · have hP := env_keeps closed (h w.chip d hw.2.1 hd) he
      have hbank : C.bsel e = b := by
        rw [env_bsel laws he]
        exact (laws.writeEcon1 _ _).trans (econ1WithBank_bsel _ b hb)
      simp only [andThen_some, bind_eq, if_true, wp_store]
      exact ⟨rfl, hP, rfl, hbank⟩

theorem statusBurst_rule {α : Type} {b : Byte} {buff : List Byte} {n : ℕ}
    {k : (Fin (n + 1) → Byte) → Driver α} {D : α → World κ → Prop} {X : World κ → Prop}
    {H : (Fin (n + 1) → Byte) → κ → Prop} (closed : ∀ hdr, EnvClosed C (H hdr))
    (h : ∀ c hdr, P c → (∀ i : Fin n, hdr i.succ = C.bufByte c i) → H hdr (C.drained n c))
    (hk : ∀ hdr, Triple (busMachine C) (bankGuard C).holds (InBank C (H hdr) b) (k hdr) D X) :
    Triple (busMachine C) (bankGuard C).holds (InBank C P b) ((nssPinOp 0).bind fun _ =>
      (spiInOutOp (0x3A :: buff) (n + 1)).bind fun hdr => (nssPinOp 1).bind fun _ => k hdr) D X :=
  fun _ hw => wp_statusBurst bank_burst buff n k fun hdr _ hbytes hc =>
    hk hdr _ (hw.step laws (closed hdr) (h _ hdr hw.2.1 hbytes) (drained_bsel laws n _) hc)

theorem packetBurst_rule {α : Type} {b : Byte} {n : ℕ} {k : (Fin n → Byte) → Driver α}
    {D : α → World κ → Prop} {X : World κ → Prop}
    {H : (Fin n → Byte) → κ → Prop} (closed : ∀ packet, EnvClosed C (H packet))
    (h : ∀ c, P c → H (fun i => C.bufByte c i) (C.drained n c))
    (hk : ∀ packet, Triple (busMachine C) (bankGuard C).holds (InBank C (H packet) b) (k packet) D X) :
    Triple (busMachine C) (bankGuard C).holds (InBank C P b) ((nssPinOp 0).bind fun _ =>
      (spiOutOp none [0x3A]).bind fun _ => (spiInOp n).bind fun packet =>
      (nssPinOp 1).bind fun _ => k packet) D X :=
  fun _ hw => wp_packetBurst bank_burst n k fun _ hc =>
    hk _ _ (hw.step laws (closed _) (h _ hw.2.1) (drained_bsel laws n _) hc)

theorem writeBurst_rule {α : Type} {b v : Byte} {buff : List Byte} {k : Driver α}
    {D : α → World κ → Prop} {X : World κ → Prop} (closed : EnvClosed C P')
    (h : ∀ c, P c → P' ((v :: buff).foldl C.writeBuf c))
    (hk : Triple (busMachine C) (bankGuard C).holds (InBank C P' b) k D X) :
    Triple (busMachine C) (bankGuard C).holds (InBank C P b) ((nssPinOp 0).bind fun _ =>
      (spiOutOp none [0x7A, v]).bind fun _ => (spiOutOp none buff).bind fun _ =>
      (nssPinOp 1).bind fun _ => k) D X :=
  fun _ hw => wp_writeBurst bank_burst v buff k fun _ hc =>
    hk _ (hw.step laws closed (h _ hw.2.1) (written_bsel laws (v :: buff) _) hc)

end

end Stm32NetworkStack.BankDiscipline
