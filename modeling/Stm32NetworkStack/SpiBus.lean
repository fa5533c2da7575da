import Mathlib.Logic.Function.Iterate
import Mathlib.Logic.Relation
import Mathlib.Tactic.SplitIfs
import Stm32NetworkStack.Enc28Driver

set_option autoImplicit false

/-!
# The SPI port of the chip

The byte protocol between the driver and any chip: chip select, opcode,
argument, data. What the registers and the buffer memory do is the parameter
`ChipCore`. The chip acts on its own whenever the select line rises, that is
between two SPI transactions. Each register accessor of the driver is one
transaction; its rule here is the only place where the bytes are looked at.
-/
namespace Stm32NetworkStack.SpiBus
open InteractivePrograms Enc28Registers Enc28Driver Relation

/-- The register file and buffer memory behind the port. `env` is one step of
the chip on its own. -/
structure ChipCore (κ : Type) where
  econ1 : κ → Byte
  readReg : κ → Byte → Byte
  afterRead : κ → Byte → κ
  writeReg : κ → Byte → Byte → κ
  setBits : κ → Byte → Byte → κ
  clearBits : κ → Byte → Byte → κ
  readBuf : κ → Byte × κ
  writeBuf : κ → Byte → κ
  dummy : κ → Byte
  reset : κ → κ
  env : κ → κ → Prop

/-- Where the decoder stands in a transaction. -/
inductive SpiPhase
  | high
  | opcode
  | rcr (addr : Byte) (dummyDue : Bool)
  | wcr (addr : Byte)
  | bfs (addr : Byte)
  | bfc (addr : Byte)
  | rbm
  | wbm
  | done
  deriving DecidableEq, Repr

/-- The chip, its decoder, and the static variable of the driver. -/
structure World (κ : Type) where
  chip : κ
  phase : SpiPhase
  currBank : Byte

section
variable {κ : Type} (C : ChipCore κ)

def ChipCore.bsel (c : κ) : Byte := C.econ1 c &&& econ1Bsel

def ChipCore.isMacOrMii (c : κ) (addr : Byte) : Bool := (macMiiAddrs (C.bsel c)).contains addr

def decode (w : World κ) (op addr : Byte) : World κ :=
  if op = opRcr then { w with phase := .rcr addr (C.isMacOrMii w.chip addr) }
  else if op = opRbm then { w with phase := .rbm }
  else if op = opWcr then { w with phase := .wcr addr }
  else if op = opWbm then { w with phase := .wbm }
  else if op = opBfs then { w with phase := .bfs addr }
  else if op = opBfc then { w with phase := .bfc addr }
  else if op = opSrc then { w with chip := C.reset w.chip, phase := .done }
  else { w with phase := .done }

def clockByte (b : Byte) (w : World κ) : Byte × World κ :=
  match w.phase with
  | .high | .done => (C.dummy w.chip, w)
  | .opcode => (C.dummy w.chip, decode C w (b >>> spiArgBits) (b &&& spiArgMask))
  | .rcr addr true => (C.dummy w.chip, { w with phase := .rcr addr false })
  | .rcr addr false =>
    (C.readReg w.chip addr, { w with chip := C.afterRead w.chip addr, phase := .done })
  | .wcr addr => (C.dummy w.chip, { w with chip := C.writeReg w.chip addr b, phase := .done })
  | .bfs addr => (C.dummy w.chip, { w with chip := C.setBits w.chip addr b, phase := .done })
  | .bfc addr => (C.dummy w.chip, { w with chip := C.clearBits w.chip addr b, phase := .done })
  | .rbm => ((C.readBuf w.chip).1, { w with chip := (C.readBuf w.chip).2 })
  | .wbm => (C.dummy w.chip, { w with chip := C.writeBuf w.chip b })

/-- The world after `n` bytes of `tx`. -/
def clock (tx : ℕ → Byte) : ℕ → World κ → World κ
  | 0, w => w
  | n + 1, w => (clockByte C (tx n) (clock tx n w)).2

/-- The byte that comes back while byte `n` of `tx` goes out. -/
def answer (tx : ℕ → Byte) (n : ℕ) (w : World κ) : Byte :=
  (clockByte C (tx n) (clock C tx n w)).1

def bytesOf (buff : List Byte) (i : ℕ) : Byte := buff.getD i 0

def busMachine : Machine Call Call.Reply (World κ)
  | .nssPinOp level, w, _, u =>
    if level = 0 then u = { w with phase := .opcode }
    else ∃ c, ReflTransGen C.env w.chip c ∧ u = { w with chip := c, phase := .high }
  | .spiOutOp _ buff, w, _, u => u = clock C (bytesOf buff) buff.length w
  | .spiInOp len, w, r, u => r = (fun i : Fin len => answer C (fun _ => 0) i w) ∧ u = clock C (fun _ => 0) len w
  | .spiInOutOp tx len, w, r, u =>
    r = (fun i : Fin len => answer C (bytesOf tx) i w) ∧ u = clock C (bytesOf tx) len w
  | .waitNano _, w, _, u => u = w
  | .loadBank, w, r, u => r = w.currBank ∧ u = w
  | .storeBank bank, w, _, u => u = { w with currBank := bank }

/-- The chip whose own steps follow the strategy `f`. -/
def busDevice (f : κ → κ) : (e : Call) → World κ → e.Reply × World κ
  | .nssPinOp level, w =>
    ((), if level = 0 then { w with phase := .opcode }
      else { w with chip := f w.chip, phase := .high })
  | .spiOutOp _ buff, w => ((), clock C (bytesOf buff) buff.length w)
  | .spiInOp len, w => (fun i => answer C (fun _ => 0) i w, clock C (fun _ => 0) len w)
  | .spiInOutOp tx len, w => (fun i => answer C (bytesOf tx) i w, clock C (bytesOf tx) len w)
  | .waitNano _, w => ((), w)
  | .loadBank, w => (w.currBank, w)
  | .storeBank bank, w => ((), { w with currBank := bank })

theorem busDevice_step {f : κ → κ} (hf : ∀ c, ReflTransGen C.env c (f c)) (e : Call) (w : World κ) :
    busMachine C e w (busDevice C f e w).1 (busDevice C f e w).2 := by
  cases e with
  | nssPinOp level =>
    by_cases h : level = 0
    · simp [busMachine, busDevice, h]
    · simp only [busMachine, busDevice, h, if_false]
      exact ⟨f w.chip, hf w.chip, rfl⟩
  | spiOutOp | waitNano | storeBank => rfl
  | spiInOp | spiInOutOp | loadBank => exact ⟨rfl, rfl⟩

theorem undisturbed_steps {ι : Type} (calls : List ι) :
    ∀ x ∈ calls.map fun c => (c, busDevice C id), ∀ e w, busMachine C e w (x.2 e w).1 (x.2 e w).2 := by
  intro x hx e w
  obtain ⟨c, -, rfl⟩ := List.mem_map.mp hx
  exact busDevice_step C (fun _ => ReflTransGen.refl) (f := id) e w

theorem bus_total : Total (busMachine C) :=
  fun e w => ⟨_, _, busDevice_step C (fun _ => ReflTransGen.refl) (f := id) e w⟩

end

/-- A guard on the bytes the driver sends and on those it asks for. -/
structure BusGuard (κ : Type) where
  out : Option CtlReg → List Byte → World κ → Prop
  inn : ℕ → World κ → Prop

def BusGuard.holds {κ : Type} (g : BusGuard κ) : Call → World κ → Prop
  | .spiOutOp reg buff, w => g.out reg buff w
  | .spiInOutOp tx _, w => g.out none tx w
  | .spiInOp len, w => g.inn len w
  | _, _ => True

def BusGuard.free (κ : Type) : BusGuard κ := ⟨fun _ _ _ => True, fun _ _ => True⟩

section
variable {κ : Type} (C : ChipCore κ) (w : World κ) (reg : CtlReg)

/-- Does the driver skip a byte when it reads this register? -/
def dropsByte : Bool := privEnc28IsMacOrMiiReg w.currBank reg.id

/-- Does the chip put a dummy byte in front of this register? -/
def dummyDue : Bool := C.isMacOrMii w.chip reg.addr

/-- What a read returns: the register when driver and chip agree on the dummy byte. -/
def readValue : Byte :=
  match dropsByte w reg, dummyDue C w reg with
  | false, false | true, true => C.readReg w.chip reg.addr
  | false, true => C.dummy w.chip
  | true, false => C.dummy (C.afterRead w.chip reg.addr)

def chipAfterRead : κ :=
  match dropsByte w reg, dummyDue C w reg with
  | false, true => w.chip
  | _, _ => C.afterRead w.chip reg.addr

theorem readValue_agreed (h : dropsByte w reg = dummyDue C w reg) :
    readValue C w reg = C.readReg w.chip reg.addr := by
  unfold readValue
  rw [h]
  cases dummyDue C w reg <;> rfl

theorem chipAfterRead_agreed (h : dropsByte w reg = dummyDue C w reg) :
    chipAfterRead C w reg = C.afterRead w.chip reg.addr := by
  unfold chipAfterRead
  rw [h]
  cases dummyDue C w reg <;> rfl

def readLen : ℕ := if dropsByte w reg then 2 else 1

def inRead : World κ := { w with phase := .rcr reg.addr (dummyDue C w reg) }

theorem clock_command (op : Byte) (h : op.toNat < 8) (buff : List Byte) :
    clock C (bytesOf (commandByte op reg.id :: buff)) 1 { w with phase := .opcode } =
      decode C { w with phase := .opcode } op reg.addr := by
  change decode C { w with phase := .opcode } (commandByte op reg.id >>> spiArgBits)
    (commandByte op reg.id &&& spiArgMask) = _
  rw [commandByte_opcode op reg.id h, commandByte_addr]
  rfl

theorem clock_read :
    clock C (bytesOf [commandByte opRcr reg.id]) 1 { w with phase := .opcode } = inRead C w reg :=
  clock_command C w reg opRcr (by decide) []

theorem clock_write (data : Byte) :
    clock C (bytesOf [commandByte opWcr reg.id, data]) 2 { w with phase := .opcode } =
      { w with chip := C.writeReg w.chip reg.addr data, phase := .done } := by
  change (clockByte C data (clock C _ 1 _)).2 = _
  rw [clock_command C w reg opWcr (by decide)]
  rfl

theorem clock_setBits (data : Byte) :
    clock C (bytesOf [commandByte opBfs reg.id, data]) 2 { w with phase := .opcode } =
      { w with chip := C.setBits w.chip reg.addr data, phase := .done } := by
  change (clockByte C data (clock C _ 1 _)).2 = _
  rw [clock_command C w reg opBfs (by decide)]
  rfl

theorem clock_clearBits (data : Byte) :
    clock C (bytesOf [commandByte opBfc reg.id, data]) 2 { w with phase := .opcode } =
      { w with chip := C.clearBits w.chip reg.addr data, phase := .done } := by
  change (clockByte C data (clock C _ 1 _)).2 = _
  rw [clock_command C w reg opBfc (by decide)]
  rfl

theorem answer_drop (h : dropsByte w reg = true) :
    answer C (fun _ => 0) 1 (inRead C w reg) = readValue C w reg ∧
      (clock C (fun _ => 0) 2 (inRead C w reg)).chip = chipAfterRead C w reg := by
  cases hd : dummyDue C w reg <;>
    simp [answer, clock, clockByte, inRead, readValue, chipAfterRead, h, hd]

theorem answer_keep (h : dropsByte w reg = false) :
    answer C (fun _ => 0) 0 (inRead C w reg) = readValue C w reg ∧
      (clock C (fun _ => 0) 1 (inRead C w reg)).chip = chipAfterRead C w reg := by
  cases hd : dummyDue C w reg <;>
    simp [answer, clock, clockByte, inRead, readValue, chipAfterRead, h, hd]

end

section
variable {κ : Type} (C : ChipCore κ)

theorem clock_front (tx : ℕ → Byte) (n : ℕ) (w : World κ) :
    clock C tx (n + 1) w = clock C (fun i => tx (i + 1)) n (clockByte C (tx 0) w).2 := by
  induction n with
  | zero => rfl
  | succ n ih => exact congrArg (fun u => (clockByte C (tx (n + 1)) u).2) ih

def ChipCore.drained (n : ℕ) (c : κ) : κ := (fun c => (C.readBuf c).2)^[n] c

def ChipCore.bufByte (c : κ) (n : ℕ) : Byte := (C.readBuf (C.drained n c)).1

theorem drained_succ (n : ℕ) (c : κ) : C.drained (n + 1) c = (C.readBuf (C.drained n c)).2 :=
  Function.iterate_succ_apply' _ n c

theorem clock_drained (tx : ℕ → Byte) (n : ℕ) (w : World κ) :
    clock C tx n { w with phase := .rbm } = { w with chip := C.drained n w.chip, phase := .rbm } := by
  induction n with
  | zero => rfl
  | succ n ih =>
    simp only [clock, ih, drained_succ]
    rfl

theorem clock_rbm (buff : List Byte) (n : ℕ) (w : World κ) :
    clock C (bytesOf (0x3A :: buff)) (n + 1) { w with phase := .opcode } =
      { w with chip := C.drained n w.chip, phase := .rbm } := by
  have h : (clockByte C 0x3A { w with phase := .opcode }).2 = { w with phase := .rbm } := rfl
  rw [clock_front, show bytesOf (0x3A :: buff) 0 = 0x3A from rfl, h, clock_drained]

/-- The first answer of a burst comes with the opcode and is not from the buffer. -/
theorem answer_rbm (buff : List Byte) (n : ℕ) (w : World κ) :
    answer C (bytesOf (0x3A :: buff)) (n + 1) { w with phase := .opcode } = C.bufByte w.chip n := by
  rw [answer, clock_rbm]
  rfl

theorem clock_written (buff : List Byte) (w : World κ) :
    clock C (bytesOf buff) buff.length { w with phase := .wbm } =
      { w with chip := buff.foldl C.writeBuf w.chip, phase := .wbm } := by
  induction buff generalizing w with
  | nil => rfl
  | cons b buff ih =>
    rw [List.length_cons, clock_front]
    exact ih { w with chip := C.writeBuf w.chip b }

theorem clock_wbm (buff : List Byte) (w : World κ) :
    clock C (bytesOf (0x7A :: buff)) (buff.length + 1) { w with phase := .opcode } =
      { w with chip := buff.foldl C.writeBuf w.chip, phase := .wbm } := by
  have h : (clockByte C 0x7A { w with phase := .opcode }).2 = { w with phase := .wbm } := rfl
  rw [clock_front, show bytesOf (0x7A :: buff) 0 = 0x7A from rfl, h]
  exact clock_written C buff w

theorem decode_currBank (w : World κ) (op addr : Byte) :
    (decode C w op addr).currBank = w.currBank := by
  unfold decode
  split_ifs <;> rfl

theorem clockByte_currBank (b : Byte) (w : World κ) :
    (clockByte C b w).2.currBank = w.currBank := by
  unfold clockByte
  split
  case h_3 => exact decode_currBank C w _ _
  all_goals rfl

theorem clock_currBank (tx : ℕ → Byte) (n : ℕ) (w : World κ) :
    (clock C tx n w).currBank = w.currBank := by
  induction n with
  | zero => rfl
  | succ n ih => exact (clockByte_currBank C _ _).trans ih

end

section
variable {κ α : Type} {C : ChipCore κ} {g : BusGuard κ} {Q : Option α → World κ → Prop} {w : World κ}

theorem wp_nss_low (f : Unit → Driver α) :
    wp (busMachine C) g.holds ((nssPinOp 0).bind f) Q w ↔
      wp (busMachine C) g.holds (f ()) Q { w with phase := .opcode } := by
  constructor
  · intro h
    exact h.2 () _ rfl
  · intro h
    refine ⟨trivial, fun r u hu => ?_⟩
    obtain rfl : u = { w with phase := .opcode } := hu
    exact h

theorem wp_nss_high (f : Unit → Driver α) :
    wp (busMachine C) g.holds ((nssPinOp 1).bind f) Q w ↔
      ∀ c, ReflTransGen C.env w.chip c →
        wp (busMachine C) g.holds (f ()) Q { w with chip := c, phase := .high } := by
  constructor
  · intro h c hc
    exact h.2 () _ ⟨c, hc, rfl⟩
  · intro h
    refine ⟨trivial, fun r u hu => ?_⟩
    obtain ⟨c, hc, rfl⟩ : ∃ c, ReflTransGen C.env w.chip c ∧
      u = { w with chip := c, phase := .high } := hu
    exact h c hc

theorem wp_spiOut (reg : Option CtlReg) (buff : List Byte) (f : Unit → Driver α) :
    wp (busMachine C) g.holds ((spiOutOp reg buff).bind f) Q w ↔
      g.out reg buff w ∧
        wp (busMachine C) g.holds (f ()) Q (clock C (bytesOf buff) buff.length w) := by
  refine and_congr_right fun _ => ⟨fun h => h () _ rfl, fun h r u hu => ?_⟩
  obtain rfl : u = clock C (bytesOf buff) buff.length w := hu
  exact h

theorem wp_spiIn (len : ℕ) (f : (Fin len → Byte) → Driver α) :
    wp (busMachine C) g.holds ((spiInOp len).bind f) Q w ↔
      g.inn len w ∧ wp (busMachine C) g.holds (f fun i => answer C (fun _ => 0) i w) Q
        (clock C (fun _ => 0) len w) := by
  refine and_congr_right fun _ => ⟨fun h => h _ _ ⟨rfl, rfl⟩, fun h r u hu => ?_⟩
  obtain ⟨rfl, rfl⟩ : r = (fun i : Fin len => answer C (fun _ => 0) i w) ∧
    u = clock C (fun _ => 0) len w := hu
  exact h

theorem wp_spiInOut (tx : List Byte) (len : ℕ) (f : (Fin len → Byte) → Driver α) :
    wp (busMachine C) g.holds ((spiInOutOp tx len).bind f) Q w ↔
      g.out none tx w ∧ wp (busMachine C) g.holds (f fun i => answer C (bytesOf tx) i w) Q
        (clock C (bytesOf tx) len w) := by
  refine and_congr_right fun _ => ⟨fun h => h _ _ ⟨rfl, rfl⟩, fun h r u hu => ?_⟩
  obtain ⟨rfl, rfl⟩ : r = (fun i : Fin len => answer C (bytesOf tx) i w) ∧
    u = clock C (bytesOf tx) len w := hu
  exact h

theorem wp_wait (ns : ℕ) (f : Unit → Driver α) :
    wp (busMachine C) g.holds ((waitNano ns).bind f) Q w ↔
      wp (busMachine C) g.holds (f ()) Q w := by
  constructor
  · intro h
    exact h.2 () _ rfl
  · intro h
    refine ⟨trivial, fun r u hu => ?_⟩
    obtain rfl : u = w := hu
    exact h

theorem wp_load (f : Byte → Driver α) :
    wp (busMachine C) g.holds (loadBank.bind f) Q w ↔
      wp (busMachine C) g.holds (f w.currBank) Q w := by
  constructor
  · intro h
    exact h.2 _ _ ⟨rfl, rfl⟩
  · intro h
    refine ⟨trivial, fun r u hu => ?_⟩
    obtain ⟨rfl, hu⟩ : r = w.currBank ∧ u = w := hu
    exact hu ▸ h

theorem wp_store (bank : Byte) (f : Unit → Driver α) :
    wp (busMachine C) g.holds ((storeBank bank).bind f) Q w ↔
      wp (busMachine C) g.holds (f ()) Q { w with currBank := bank } := by
  constructor
  · intro h
    exact h.2 () _ rfl
  · intro h
    refine ⟨trivial, fun r u hu => ?_⟩
    obtain rfl : u = { w with currBank := bank } := hu
    exact h

end

section
variable {κ : Type} {C : ChipCore κ} {g : BusGuard κ} {ctx : Option SpiContext} {reg : CtlReg}
  {w : World κ}

def ReadGuard (C : ChipCore κ) (g : BusGuard κ) (w : World κ) (reg : CtlReg) : Prop :=
  g.out (some reg) [commandByte opRcr reg.id] { w with phase := .opcode } ∧
    g.inn (readLen w reg) (inRead C w reg)

/-- A register read is one transaction, or nothing at all. -/
theorem wp_readCtlReg {old : Byte} {Q : Option (CommandStatus × Byte) → World κ → Prop}
    (fails : canRead ctx = false ∨ reg.id = 0x1A →
      ∀ status, status ≠ .ok → Q (some (status, old)) w)
    (reads : canRead ctx = true → reg.id ≠ 0x1A → ReadGuard C g w reg ∧
      ∀ c, ReflTransGen C.env (chipAfterRead C w reg) c →
        Q (some (.ok, readValue C w reg)) { w with chip := c, phase := .high }) :
    wp (busMachine C) g.holds (enc28DoReadCtlReg ctx reg (some old)) Q w := by
  by_cases hf : canRead ctx = false ∨ reg.id = 0x1A
  · obtain ⟨status, hs, he⟩ := readCtlReg_fails old hf
    rw [he]
    exact fails hf status hs
  · simp only [not_or, Bool.not_eq_false] at hf
    obtain ⟨⟨hout, hinn⟩, hk⟩ := reads hf.1 hf.2
    rw [readCtlReg_eq old hf.1 hf.2]
    simp only [readTransaction, bind_eq, wp_load, wp_nss_low, wp_spiOut, List.length_singleton,
      clock_read]
    refine ⟨hout, ?_⟩
    cases hd : dropsByte w reg with
    | true =>
      obtain ⟨hv, hch⟩ := answer_drop C w reg hd
      have hp : privEnc28IsMacOrMiiReg w.currBank reg.id = true := hd
      simp only [readLen, hd, if_true] at hinn
      simp only [hp, if_true, wp_spiIn, wp_nss_high, hch, clock_currBank]
      exact ⟨hinn, fun u hu => hv ▸ hk u hu⟩
    | false =>
      obtain ⟨hv, hch⟩ := answer_keep C w reg hd
      have hp : privEnc28IsMacOrMiiReg w.currBank reg.id = false := hd
      simp only [readLen, hd, Bool.false_eq_true, if_false] at hinn
      simp only [hp, Bool.false_eq_true, if_false, wp_spiIn, wp_nss_high, hch, clock_currBank]
      exact ⟨hinn, fun u hu => hv ▸ hk u hu⟩

def CommandGuard (g : BusGuard κ) (w : World κ) (reg : CtlReg) (op data : Byte) : Prop :=
  g.out (some reg) [commandByte op reg.id, data] { w with phase := .opcode }

theorem wp_writeCtlReg {value : Byte} {Q : Option CommandStatus → World κ → Prop}
    (fails : canWrite ctx = false ∨ reg.id = 0x1A → ∀ status, status ≠ .ok → Q (some status) w)
    (writes : canWrite ctx = true → reg.id ≠ 0x1A → CommandGuard g w reg opWcr value ∧
      ∀ c, ReflTransGen C.env (C.writeReg w.chip reg.addr value) c →
        Q (some .ok) { w with chip := c, phase := .high }) :
    wp (busMachine C) g.holds (enc28DoWriteCtlReg ctx reg value) Q w := by
  by_cases hf : canWrite ctx = false ∨ reg.id = 0x1A
  · obtain ⟨status, hs, he⟩ := writeCtlReg_fails value hf
    rw [he]
    exact fails hf status hs
  · simp only [not_or, Bool.not_eq_false] at hf
    obtain ⟨hout, hk⟩ := writes hf.1 hf.2
    rw [writeCtlReg_eq value hf.1 hf.2]
    simp only [writeTransaction, word_high, word_low, bind_eq, wp_nss_low, wp_wait, wp_spiOut,
      wp_nss_high, List.length_cons, List.length_nil, Nat.reduceAdd, clock_write]
    exact ⟨hout, hk⟩

theorem wp_setBitsCtlReg {mask : Byte} {Q : Option CommandStatus → World κ → Prop}
    (fails : canRead ctx = false ∨ reg.id = 0x1A → ∀ status, status ≠ .ok → Q (some status) w)
    (sets : canRead ctx = true → reg.id ≠ 0x1A → CommandGuard g w reg opBfs mask ∧
      ∀ c, ReflTransGen C.env (C.setBits w.chip reg.addr mask) c →
        Q (some .ok) { w with chip := c, phase := .high }) :
    wp (busMachine C) g.holds (enc28DoSetBitsCtlReg ctx reg mask) Q w := by
  by_cases hf : canRead ctx = false ∨ reg.id = 0x1A
  · obtain ⟨status, hs, he⟩ := bitsCtlReg_fails opBfs mask hf
    change wp _ _ (doBitsCtlReg (prepareCtlReg opBfs) ctx reg mask) Q w
    rw [he]
    exact fails hf status hs
  · simp only [not_or, Bool.not_eq_false] at hf
    obtain ⟨hout, hk⟩ := sets hf.1 hf.2
    change wp _ _ (doBitsCtlReg (prepareCtlReg opBfs) ctx reg mask) Q w
    rw [bitsCtlReg_eq opBfs mask hf.1 hf.2]
    simp only [bitsTransaction, word_high, word_low, bind_eq, wp_nss_low, wp_spiOut, wp_nss_high,
      List.length_cons, List.length_nil, Nat.reduceAdd, clock_setBits]
    exact ⟨hout, hk⟩

theorem wp_clearBitsCtlReg {mask : Byte} {Q : Option CommandStatus → World κ → Prop}
    (fails : canRead ctx = false ∨ reg.id = 0x1A → ∀ status, status ≠ .ok → Q (some status) w)
    (clears : canRead ctx = true → reg.id ≠ 0x1A → CommandGuard g w reg opBfc mask ∧
      ∀ c, ReflTransGen C.env (C.clearBits w.chip reg.addr mask) c →
        Q (some .ok) { w with chip := c, phase := .high }) :
    wp (busMachine C) g.holds (enc28DoClearBitsCtlReg ctx reg mask) Q w := by
  by_cases hf : canRead ctx = false ∨ reg.id = 0x1A
  · obtain ⟨status, hs, he⟩ := bitsCtlReg_fails opBfc mask hf
    change wp _ _ (doBitsCtlReg (prepareCtlReg opBfc) ctx reg mask) Q w
    rw [he]
    exact fails hf status hs
  · simp only [not_or, Bool.not_eq_false] at hf
    obtain ⟨hout, hk⟩ := clears hf.1 hf.2
    change wp _ _ (doBitsCtlReg (prepareCtlReg opBfc) ctx reg mask) Q w
    rw [bitsCtlReg_eq opBfc mask hf.1 hf.2]
    simp only [bitsTransaction, word_high, word_low, bind_eq, wp_nss_low, wp_spiOut, wp_nss_high,
      List.length_cons, List.length_nil, Nat.reduceAdd, clock_clearBits]
    exact ⟨hout, hk⟩

end

theorem wp_softReset {κ : Type} {C : ChipCore κ} {g : BusGuard κ} {ctx : Option SpiContext}
    {w : World κ} {Q : Option CommandStatus → World κ → Prop}
    (fails : canRead ctx = false → Q (some .invalidParam) w)
    (resets : canRead ctx = true → g.out none [0xFF] { w with phase := .opcode } ∧
      ∀ c, ReflTransGen C.env (C.reset w.chip) c →
        Q (some .ok) { w with chip := c, phase := .high }) :
    wp (busMachine C) g.holds (enc28DoSoftReset ctx) Q w := by
  cases ctx with
  | none => exact fails rfl
  | some c =>
    simp only [enc28DoSoftReset, canRead_some]
    cases hc : canRead (some c) with
    | false => exact fails hc
    | true =>
      obtain ⟨hout, hk⟩ := resets hc
      simp only [Bool.not_true, Bool.false_eq_true, if_false, bind_eq, pure_eq]
      rw [wp_nss_low, wp_spiOut]
      refine ⟨hout, ?_⟩
      rw [wp_nss_high]
      exact hk

section
variable {κ α : Type} {C : ChipCore κ} {g : BusGuard κ} {Q : Option α → World κ → Prop} {w : World κ}

/-- The buffer bursts are no business of the guard. -/
structure BurstGuard (g : BusGuard κ) : Prop where
  read : ∀ buff w, g.out none (0x3A :: buff) w
  write : ∀ buff w, g.out none (0x7A :: buff) w
  inn : ∀ n w, w.phase = .rbm → g.inn n w
  out : ∀ buff w, w.phase = .wbm → g.out none buff w

/-- A burst whose opcode and bytes are one call: the first answer is junk. -/
theorem wp_statusBurst (hg : BurstGuard g) (buff : List Byte) (n : ℕ)
    (k : (Fin (n + 1) → Byte) → Driver α)
    (h : ∀ hdr c, (∀ i : Fin n, hdr i.succ = C.bufByte w.chip i) →
      ReflTransGen C.env (C.drained n w.chip) c →
      wp (busMachine C) g.holds (k hdr) Q { w with chip := c, phase := .high }) :
    wp (busMachine C) g.holds ((nssPinOp 0).bind fun _ =>
      (spiInOutOp (0x3A :: buff) (n + 1)).bind fun hdr => (nssPinOp 1).bind fun _ => k hdr) Q w := by
  rw [wp_nss_low, wp_spiInOut]
  refine ⟨hg.read _ _, ?_⟩
  rw [clock_rbm, wp_nss_high]
  exact fun c hc => h _ c (fun i => answer_rbm C buff i w) hc

theorem wp_packetBurst (hg : BurstGuard g) (n : ℕ) (k : (Fin n → Byte) → Driver α)
    (h : ∀ c, ReflTransGen C.env (C.drained n w.chip) c →
      wp (busMachine C) g.holds (k fun i => C.bufByte w.chip i) Q
        { w with chip := c, phase := .high }) :
    wp (busMachine C) g.holds ((nssPinOp 0).bind fun _ => (spiOutOp none [0x3A]).bind fun _ =>
      (spiInOp n).bind fun packet => (nssPinOp 1).bind fun _ => k packet) Q w := by
  rw [wp_nss_low, wp_spiOut]
  refine ⟨hg.read _ _, ?_⟩
  rw [List.length_singleton, clock_rbm, wp_spiIn]
  refine ⟨hg.inn _ _ rfl, ?_⟩
  have hb : (fun i : Fin n => answer C (fun _ => 0) i
      { w with chip := C.drained 0 w.chip, phase := .rbm }) = fun i : Fin n => C.bufByte w.chip i := by
    funext i
    rw [answer, clock_drained C (fun _ => 0) i { w with chip := C.drained 0 w.chip }]
    rfl
  rw [hb, clock_drained C (fun _ => 0) n { w with chip := C.drained 0 w.chip }, wp_nss_high]
  exact h

theorem wp_writeBurst (hg : BurstGuard g) (b : Byte) (buff : List Byte) (k : Driver α)
    (h : ∀ c, ReflTransGen C.env ((b :: buff).foldl C.writeBuf w.chip) c →
      wp (busMachine C) g.holds k Q { w with chip := c, phase := .high }) :
    wp (busMachine C) g.holds ((nssPinOp 0).bind fun _ => (spiOutOp none [0x7A, b]).bind fun _ =>
      (spiOutOp none buff).bind fun _ => (nssPinOp 1).bind fun _ => k) Q w := by
  rw [wp_nss_low, wp_spiOut]
  refine ⟨hg.write _ _, ?_⟩
  rw [show [0x7A, b].length = [b].length + 1 from rfl, clock_wbm, wp_spiOut]
  refine ⟨hg.out _ _ rfl, ?_⟩
  rw [clock_written C buff { w with chip := [b].foldl C.writeBuf w.chip }, wp_nss_high]
  exact h

end

end Stm32NetworkStack.SpiBus
