import Stm32NetworkStack.Enc28Driver
import Stm32NetworkStack.TraceLanguages

set_option autoImplicit false

/-!
# Register commands and the requests they came from

The encoders test the register id for 0x1A before they cut it to five bits, so
a command says which register was asked for exactly when the id has no more.
-/
namespace Stm32NetworkStack.RegisterEncoding
open InteractivePrograms Enc28Registers Enc28Driver TraceLanguages

/-- The accessors that send a data byte. -/
inductive DataOp
  | write
  | setBits
  | clearBits
  deriving DecidableEq, Repr

def DataOp.opcode : DataOp → Byte
  | .write => opWcr
  | .setBits => opBfs
  | .clearBits => opBfc

def DataOp.prepare : DataOp → Option Word → Byte → Byte → CommandStatus × Option Word
  | .write => enc28PrepareWriteCtlReg
  | .setBits => enc28PrepareSetBitsCtlReg
  | .clearBits => enc28PrepareClearBitsCtlReg

def DataOp.perform : DataOp → Option SpiContext → CtlReg → Byte → Driver CommandStatus
  | .write => enc28DoWriteCtlReg
  | .setBits => enc28DoSetBitsCtlReg
  | .clearBits => enc28DoClearBitsCtlReg

/-- The callbacks the accessor checks for. -/
def DataOp.usable : DataOp → Option SpiContext → Bool
  | .write => canWrite
  | .setBits | .clearBits => canRead

/-- A call of an encoder or of the accessor that uses it. -/
inductive AccessorCall
  | prepareRead (out : Option Byte) (regId : Byte)
  | prepareData (op : DataOp) (out : Option Word) (regId data : Byte)
  | doRead (ctx : Option SpiContext) (regId : Byte) (regValue : Option Byte)
  | doData (op : DataOp) (ctx : Option SpiContext) (regId data : Byte)

/-- A command word, high byte first. -/
def wordBytes (w : Word) : List Byte := [(w >>> 8).setWidth 8, (w &&& 0xFF).setWidth 8]

/-- The status, and the command that an encoder has put out. -/
def AccessorCall.prog : AccessorCall → Driver (CommandStatus × Option (List Byte))
  | .prepareRead out regId =>
    let (status, out) := enc28PrepareReadCtlReg out regId
    return (status, out.map fun b => [b])
  | .prepareData op out regId data =>
    let (status, out) := op.prepare out regId data
    return (status, out.map wordBytes)
  | .doRead ctx regId regValue => do
    let (status, _) ← enc28DoReadCtlReg ctx (.raw regId) regValue
    return (status, none)
  | .doData op ctx regId data => do
    let status ← op.perform ctx (.raw regId) data
    return (status, none)

def AccessorCall.regId : AccessorCall → Byte
  | .prepareRead _ regId | .prepareData _ _ regId _ | .doRead _ regId _ | .doData _ _ regId _ => regId

/-- Opcode, register id and data asked for. -/
def AccessorCall.request : AccessorCall → Byte × Byte × List Byte
  | .prepareRead _ regId | .doRead _ regId _ => (opRcr, regId, [])
  | .prepareData op _ regId data | .doData op _ regId data => (op.opcode, regId, [data])

/-- The pointers and callbacks a call checks for are there. -/
def AccessorCall.wellFormed : AccessorCall → Bool
  | .prepareRead out _ => out.isSome
  | .prepareData _ out _ _ => out.isSome
  | .doRead ctx _ regValue => canRead ctx && regValue.isSome
  | .doData op ctx _ _ => op.usable ctx

/-- What a command means on the wire: opcode, address and data. -/
def decodeCommand : List Byte → Option (Byte × Byte × List Byte)
  | [] => none
  | cmd :: data => some (cmd >>> spiArgBits, cmd &&& spiArgMask, data)

def sentBytes : Call → Option (List Byte)
  | .spiOutOp _ buff => some buff
  | _ => none

abbrev AccessorRecord (σ : Type) :=
  CallRecord Call σ AccessorCall (CommandStatus × Option (List Byte))

/-- The commands a call has produced: what an encoder put out with ENC28_OK,
and what went out on the bus. -/
def commandsProduced {σ : Type} (r : AccessorRecord σ) : List (List Byte) :=
  (if r.result.1 = .ok then r.result.2.toList else []) ++ (r.trace.map Prod.fst).filterMap sentBytes

/-- The command for a request. -/
def encoded (request : Byte × Byte × List Byte) : List Byte :=
  commandByte request.1 request.2.1 :: request.2.2

def AccessorCall.accepted (c : AccessorCall) : Prop := c.wellFormed = true ∧ c.regId ≠ 0x1A

instance (c : AccessorCall) : Decidable c.accepted := inferInstanceAs (Decidable (_ ∧ _))

theorem decode_encoded {request : Byte × Byte × List Byte} (h : request.1.toNat < 8) :
    decodeCommand (encoded request) = some (request.1, request.2.1 &&& spiArgMask, request.2.2) := by
  rw [encoded, decodeCommand, commandByte_opcode _ _ h, commandByte_addr]

theorem masked_eq_iff (regId : Byte) : regId &&& spiArgMask = regId ↔ regId.toNat < 0x20 := by
  rw [BitVec.toNat_eq, spiArgMask_toNat]
  omega

theorem wordBytes_word (hi lo : Byte) : wordBytes (word hi lo) = [hi, lo] := by
  rw [wordBytes, word_high, word_low]

theorem prepare_eq (op : DataOp) : op.prepare = prepareCtlReg op.opcode := by
  cases op <;> rfl

theorem read_refused {out : Option Byte} {regId : Byte} (h : out = none ∨ regId = 0x1A) :
    (enc28PrepareReadCtlReg out regId).1 ≠ .ok := by
  unfold enc28PrepareReadCtlReg
  by_cases hr : regId = 0x1A
  · rw [if_pos hr]
    exact fun h => nomatch h
  · rw [if_neg hr, h.resolve_right hr]
    exact fun h => nomatch h

theorem data_refused {op : Byte} {out : Option Word} {regId data : Byte}
    (h : out = none ∨ regId = 0x1A) : (prepareCtlReg op out regId data).1 ≠ .ok := by
  unfold prepareCtlReg
  by_cases hr : regId = 0x1A
  · rw [if_pos hr]
    exact fun h => nomatch h
  · rw [if_neg hr, h.resolve_right hr]
    exact fun h => nomatch h

theorem perform_fails {op : DataOp} {ctx : Option SpiContext} {regId : Byte} (data : Byte)
    (h : op.usable ctx = false ∨ regId = 0x1A) :
    ∃ status, status ≠ .ok ∧ op.perform ctx (.raw regId) data = .ret status := by
  cases op with
  | write => exact writeCtlReg_fails data h
  | setBits => exact bitsCtlReg_fails opBfs data h
  | clearBits => exact bitsCtlReg_fails opBfc data h

theorem not_accepted {c : AccessorCall} (h : ¬c.accepted) :
    c.wellFormed = false ∨ c.regId = 0x1A := by
  by_cases hc : c.wellFormed = true
  · exact Or.inr (Decidable.byContradiction fun hr => h ⟨hc, hr⟩)
  · exact Or.inl (Bool.not_eq_true _ ▸ hc)

/-- A call that is not accepted returns an error at once. -/
theorem refused_prog {c : AccessorCall} (h : ¬c.accepted) :
    ∃ status out, status ≠ .ok ∧ c.prog = .ret (status, out) := by
  have h := not_accepted h
  have isNone : ∀ {α : Type} {out : Option α}, out.isSome = false → out = none := fun hout =>
    Option.isNone_iff_eq_none.mp (Option.isSome_eq_false_iff.mp hout)
  cases c with
  | prepareRead out regId =>
    exact ⟨_, _, read_refused (h.imp_left isNone), rfl⟩
  | prepareData op out regId data =>
    simp only [AccessorCall.prog, prepare_eq]
    exact ⟨_, _, data_refused (h.imp_left isNone), rfl⟩
  | doRead ctx regId regValue =>
    cases regValue with
    | none =>
      refine ⟨.invalidParam, none, by decide, ?_⟩
      simp only [AccessorCall.prog, readCtlReg_null]
      rfl
    | some old =>
      have hf : canRead ctx = false ∨ regId = 0x1A :=
        h.imp_left fun hc => (Bool.and_true _).symm.trans hc
      obtain ⟨status, hs, he⟩ : ∃ status, status ≠ .ok ∧
        enc28DoReadCtlReg ctx (.raw regId) (some old) = .ret (status, old) := readCtlReg_fails old hf
      refine ⟨status, none, hs, ?_⟩
      simp only [AccessorCall.prog, he]
      rfl
  | doData op ctx regId data =>
    obtain ⟨status, hs, he⟩ : ∃ status, status ≠ .ok ∧
      op.perform ctx (.raw regId) data = .ret status := perform_fails data h
    refine ⟨status, none, hs, ?_⟩
    simp only [AccessorCall.prog, he]
    rfl

section
variable {σ : Type} {M : Machine Call Call.Reply σ} {s : σ}

theorem read_traced {ctx : Option SpiContext} {regId : Byte} (old : Byte) (hc : canRead ctx = true)
    (hr : regId ≠ 0x1A) :
    traced M (enc28DoReadCtlReg ctx (.raw regId) (some old))
      (fun t o _ => t.filterMap sentBytes = [[commandByte opRcr regId]] ∧ ∀ a, o = some a → a.1 = .ok)
      s := by
  have hprog : enc28DoReadCtlReg ctx (.raw regId) (some old) =
      readTransaction (.raw regId) (commandByte opRcr regId) := readCtlReg_eq old hc hr
  rw [hprog]
  intro bank u _ _ u _ _ u _
  change traced M (if privEnc28IsMacOrMiiReg bank regId = true then _ else _) _ _
  split
  · intro buff u _ _ u _
    exact ⟨rfl, fun a ha => Option.some.inj ha ▸ rfl⟩
  · intro buff u _ _ u _
    exact ⟨rfl, fun a ha => Option.some.inj ha ▸ rfl⟩

theorem perform_traced {op : DataOp} {ctx : Option SpiContext} {regId : Byte} (data : Byte)
    (hc : op.usable ctx = true) (hr : regId ≠ 0x1A) :
    traced M (op.perform ctx (.raw regId) data)
      (fun t o _ => t.filterMap sentBytes = [[commandByte op.opcode regId, data]] ∧
        ∀ a, o = some a → a = .ok) s := by
  have bits : ∀ opcode, traced M (bitsTransaction (.raw regId) (word (commandByte opcode regId) data))
      (fun t o _ => t.filterMap sentBytes = [[commandByte opcode regId, data]] ∧
        ∀ a, o = some a → a = .ok) s := by
    intro opcode
    rw [bitsTransaction, word_high, word_low]
    intro _ u _ _ u _ _ u _
    exact ⟨rfl, fun a ha => (Option.some.inj ha).symm⟩
  have bitsProg : ∀ opcode, canRead ctx = true → doBitsCtlReg (prepareCtlReg opcode) ctx (.raw regId) data =
      bitsTransaction (.raw regId) (word (commandByte opcode regId) data) :=
    fun opcode hc => bitsCtlReg_eq opcode data hc hr
  cases op with
  | write =>
    have hprog : enc28DoWriteCtlReg ctx (.raw regId) data =
        writeTransaction (.raw regId) (word (commandByte opWcr regId) data) := writeCtlReg_eq data hc hr
    rw [DataOp.perform, hprog, writeTransaction, word_high, word_low]
    intro _ u _ _ u _ _ u _ _ u _ _ u _
    exact ⟨rfl, fun a ha => (Option.some.inj ha).symm⟩
  | setBits =>
    have h := bits opBfs
    rw [← bitsProg opBfs hc] at h
    exact h
  | clearBits =>
    have h := bits opBfc
    rw [← bitsProg opBfc hc] at h
    exact h

/-- The one command of an accepted call. -/
def sendsEncoded (c : AccessorCall) (t : List Call) (o : Option (CommandStatus × Option (List Byte))) :
    Prop :=
  ∀ a, o = some a → a.1 = .ok ∧ a.2.toList ++ t.filterMap sentBytes = [encoded c.request]

theorem accepted_traced {c : AccessorCall} (h : c.accepted) :
    traced M c.prog (fun t o _ => sendsEncoded c t o) s := by
  obtain ⟨hw, hr⟩ := h
  cases c with
  | prepareRead out regId =>
    obtain ⟨old, rfl⟩ := Option.isSome_iff_exists.mp hw
    have hr : regId ≠ 0x1A := hr
    have hprog : (AccessorCall.prepareRead (some old) regId).prog =
        .ret (.ok, some [commandByte opRcr regId]) := by
      rw [AccessorCall.prog, prepareReadCtlReg_ok old hr]
      rfl
    rw [hprog]
    rintro _ ⟨⟩
    exact ⟨rfl, rfl⟩
  | prepareData op out regId data =>
    obtain ⟨old, rfl⟩ := Option.isSome_iff_exists.mp hw
    have hr : regId ≠ 0x1A := hr
    have hprog : (AccessorCall.prepareData op (some old) regId data).prog =
        .ret (.ok, some [commandByte op.opcode regId, data]) := by
      rw [AccessorCall.prog, prepare_eq, prepareCtlReg_ok op.opcode old hr, ← wordBytes_word]
      rfl
    rw [hprog]
    rintro _ ⟨⟩
    exact ⟨rfl, rfl⟩
  | doRead ctx regId regValue =>
    obtain ⟨hc, hv⟩ := Bool.and_eq_true_iff.mp hw
    obtain ⟨old, rfl⟩ := Option.isSome_iff_exists.mp hv
    refine traced_bind (traced_mono (fun t o v ht => ?_) (read_traced old hc hr))
    cases o with
    | none => exact fun a ha => nomatch ha
    | some r =>
      rintro _ ⟨⟩
      exact ⟨ht.2 r rfl, by rw [List.append_nil]; exact ht.1⟩
  | doData op ctx regId data =>
    refine traced_bind (traced_mono (fun t o v ht => ?_) (perform_traced data hw hr))
    cases o with
    | none => exact fun a ha => nomatch ha
    | some r =>
      rintro _ ⟨⟩
      exact ⟨ht.2 r rfl, by rw [List.append_nil]; exact ht.1⟩

/-- An accepted call produces its command; any other one returns an error and
produces nothing. -/
theorem commands_of_call {c : AccessorCall} {v : σ} {t : List (Call × σ)}
    {a : CommandStatus × Option (List Byte)} (run : Exec M c.prog s t (some a) v) :
    (c.accepted → commandsProduced ⟨c, s, t, a, v⟩ = [encoded c.request]) ∧
      (¬c.accepted → commandsProduced ⟨c, s, t, a, v⟩ = []) := by
  constructor
  · intro h
    obtain ⟨hok, hsent⟩ := traced_sound (accepted_traced h) run a rfl
    rw [commandsProduced, if_pos hok]
    exact hsent
  · intro h
    obtain ⟨status, out, hs, he⟩ := refused_prog h
    rw [he] at run
    cases run
    rw [commandsProduced, if_neg hs]
    rfl

end

/-- Every command of a run means what was asked for; none is sent to the
reserved address; two calls with one command had one register id. -/
structure AddressedAsRequested {σ : Type} (rs : List (AccessorRecord σ)) : Prop where
  decodes : ∀ r ∈ rs, ∀ cmd ∈ commandsProduced r, decodeCommand cmd = some r.op.request
  notReserved : ∀ r ∈ rs, ∀ cmd ∈ commandsProduced r, ∀ op data,
    decodeCommand cmd ≠ some (op, 0x1A, data)
  injective : ∀ r₁ ∈ rs, ∀ r₂ ∈ rs, ∀ cmd ∈ commandsProduced r₁, cmd ∈ commandsProduced r₂ →
    r₁.op.regId = r₂.op.regId

theorem request_opcode (c : AccessorCall) : c.request.1.toNat < 8 := by
  cases c with
  | prepareRead | doRead => exact show opRcr.toNat < 8 by decide
  | prepareData op | doData op =>
    have h : op.opcode.toNat < 8 := by cases op <;> decide
    exact h

theorem request_regId (c : AccessorCall) : c.request.2.1 = c.regId := by
  cases c <;> rfl

theorem commands_addressed_iff {σ : Type} {M : Machine Call Call.Reply σ} {s u : σ}
    {rs : List (AccessorRecord σ)} (h : Session M AccessorCall.prog s rs u) :
    AddressedAsRequested rs ↔ ∀ r ∈ rs, r.op.accepted → r.op.regId.toNat < 0x20 := by
  -- what each call has produced, and what it decodes to
  have produced : ∀ r ∈ rs, (r.op.accepted → commandsProduced r = [encoded r.op.request]) ∧
      (¬r.op.accepted → commandsProduced r = []) := by
    intro r hr
    obtain ⟨-, -, -, run⟩ := h.mem hr
    exact commands_of_call run
  have decoded : ∀ r : AccessorRecord σ, decodeCommand (encoded r.op.request) =
      some (r.op.request.1, r.op.regId &&& spiArgMask, r.op.request.2.2) := by
    intro r
    rw [decode_encoded (request_opcode r.op), request_regId]
  constructor
  · intro hall r hr hacc
    have hd := hall.decodes r hr (encoded r.op.request) (by rw [(produced r hr).1 hacc]; simp)
    rw [decoded r] at hd
    have hid : r.op.regId &&& spiArgMask = r.op.request.2.1 :=
      congrArg (fun x : Byte × Byte × List Byte => x.2.1) (Option.some.inj hd)
    rw [request_regId] at hid
    exact (masked_eq_iff _).mp hid
  · intro hids
    have sent : ∀ r ∈ rs, ∀ cmd ∈ commandsProduced r, r.op.accepted ∧ cmd = encoded r.op.request := by
      intro r hr cmd hcmd
      by_cases hacc : r.op.accepted
      · rw [(produced r hr).1 hacc] at hcmd
        exact ⟨hacc, List.mem_singleton.mp hcmd⟩
      · rw [(produced r hr).2 hacc] at hcmd
        exact absurd hcmd List.not_mem_nil
    have means : ∀ r ∈ rs, ∀ cmd ∈ commandsProduced r, decodeCommand cmd =
        some (r.op.request.1, r.op.regId, r.op.request.2.2) := by
      intro r hr cmd hcmd
      obtain ⟨hacc, rfl⟩ := sent r hr cmd hcmd
      rw [decoded r, (masked_eq_iff _).mpr (hids r hr hacc)]
    refine ⟨fun r hr cmd hcmd => ?_, fun r hr cmd hcmd op data he => ?_,
      fun r₁ h₁ r₂ h₂ cmd hc₁ hc₂ => ?_⟩
    · rw [means r hr cmd hcmd, ← request_regId]
    · rw [means r hr cmd hcmd] at he
      have hid : r.op.regId = 0x1A :=
        congrArg (fun x : Byte × Byte × List Byte => x.2.1) (Option.some.inj he)
      exact (sent r hr cmd hcmd).1.2 hid
    · have he := (means r₁ h₁ cmd hc₁).symm.trans (means r₂ h₂ cmd hc₂)
      exact congrArg (fun x : Byte × Byte × List Byte => x.2.1) (Option.some.inj he)

/-- A write of 5 with every callback there. -/
def writeRecord (regId : Byte) : AccessorRecord Unit where
  op := .doData .write (some fullContext) regId 5
  before := ()
  trace := [(.nssPinOp 0, ()), (.waitNano 50, ()),
    (.spiOutOp (some (.raw regId)) [commandByte opWcr regId, 5], ()), (.waitNano 210, ()),
    (.nssPinOp 1, ())]
  result := (.ok, none)
  after := ()

theorem writeRecord_session {regId : Byte} (h : regId ≠ 0x1A) :
    Session (fun _ _ _ _ => True) AccessorCall.prog () [writeRecord regId] () := by
  have hprog : enc28DoWriteCtlReg (some fullContext) (.raw regId) 5 =
      writeTransaction (.raw regId) (word (commandByte opWcr regId) 5) := writeCtlReg_eq 5 rfl h
  refine Session.nil.snoc ?_
  rw [AccessorCall.prog, DataOp.perform, hprog, writeTransaction, word_high, word_low]
  exact .call (r := ()) trivial (.call (r := ()) trivial (.call (r := ()) trivial
    (.call (r := ()) trivial (.call (r := ()) trivial (.ret _ _)))))

/-- Answers every read with 0. -/
def silent : (e : Call) → Unit → e.Reply × Unit
  | .loadBank, _ => (0, ())
  | .spiInOp _, _ | .spiInOutOp _ _, _ => (fun _ => 0, ())
  | .nssPinOp _, _ | .spiOutOp _ _, _ | .waitNano _, _ | .storeBank _, _ => ((), ())

/-- Every kind of accessor, on seven registers; the last two requests are refused. -/
theorem addressed_accessors : ∃ rs : List (AccessorRecord Unit),
    Session (fun _ _ _ _ => True) AccessorCall.prog () rs () ∧
      rs.map commandsProduced = [[[0x9F, 0x03]], [[0x0C]], [[0x4C, 5]], [[0x5B, 0x80]], [[0xBC, 1]],
        [[0x11]], [[0x40, 5]], [], []] ∧ AddressedAsRequested rs := by
  let calls : List AccessorCall := [.prepareData .setBits (some 0) 0x1F 0x03,
    .doRead (some fullContext) 0x0C (some 0), .doData .write (some fullContext) 0x0C 5,
    .doData .write (some fullContext) 0x1B 0x80, .doData .clearBits (some fullContext) 0x1C 1,
    .prepareRead (some 0) 0x11, .doData .write (some fullContext) 0x00 5,
    .doData .write (some fullContext) 0x1A 5, .doRead none 0x3A (some 0)]
  let f : List (AccessorRecord Unit) × Unit → Bool × List (List (List Byte)) := fun x =>
    (x.1.all fun r => decide (r.op.accepted → r.op.regId.toNat < 0x20), x.1.map commandsProduced)
  have hrun : (runCalls AccessorCall.prog (calls.map fun c => (c, silent)) ()).map f =
      some (true, [[[0x9F, 0x03]], [[0x0C]], [[0x4C, 5]], [[0x5B, 0x80]], [[0xBC, 1]],
        [[0x11]], [[0x40, 5]], [], []]) := by
    decide +kernel
  obtain ⟨rs, u, hs, hv⟩ := runCalls_shows (M := fun _ _ _ _ => True) (fun _ _ _ _ => trivial) hrun
  simp only [f, Prod.mk.injEq, List.all_eq_true, decide_eq_true_eq] at hv
  exact ⟨rs, hs, hv.2, (commands_addressed_iff hs).mpr hv.1⟩

/-- A write to id 0x3A goes out to the reserved address. -/
theorem reserved_address_sent :
    Session (fun _ _ _ _ => True) AccessorCall.prog () [writeRecord 0x3A] () ∧
      [0x5A, 5] ∈ commandsProduced (writeRecord 0x3A) ∧
      decodeCommand [0x5A, 5] = some (opWcr, 0x1A, [5]) ∧ ¬AddressedAsRequested [writeRecord 0x3A] := by
  have hsent : [0x5A, 5] ∈ commandsProduced (writeRecord 0x3A) := by decide
  exact ⟨writeRecord_session (by decide), hsent, by decide,
    fun h => h.notReserved _ List.mem_cons_self _ hsent opWcr [5] (by decide)⟩

end Stm32NetworkStack.RegisterEncoding
