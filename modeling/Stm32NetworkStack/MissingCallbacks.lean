import Stm32NetworkStack.DriverCommands
import Stm32NetworkStack.SpiTraces

set_option autoImplicit false

/-!
# Contexts with missing callbacks

The register accessors check the callbacks they call, so with one of four
missing every function gives up in time. `spi_in_out_op` is checked nowhere:
the two functions that read the buffer memory with it call it as it is.
-/
namespace Stm32NetworkStack.MissingCallbacks
open InteractivePrograms Enc28Registers Enc28Driver TraceLanguages SpiTraces BankSafety

/-- The callback of a call is there. -/
def present (c : SpiContext) : Call → Bool
  | .nssPinOp _ => c.nssPinOp
  | .spiOutOp _ _ => c.spiOutOp
  | .spiInOp _ => c.spiInOp
  | .spiInOutOp _ _ => c.spiInOutOp
  | .waitNano _ => c.waitNano
  | .loadBank | .storeBank _ => true

/-- On any device a call invokes only callbacks that are there, and it returns
ENC28_INVALID_PARAM or does what it does when none is missing. -/
structure Careful (cfg : Conf) (c : SpiContext) (rounds : ℕ) (op : DriverOp) : Prop where
  calls : ∀ s t o v, Exec anyDevice (DriverCall.prog cfg ⟨some c, rounds, op⟩) s t o v →
    ∀ x ∈ t, present c x.1 = true
  result : ∀ s t a v, Exec anyDevice (DriverCall.prog cfg ⟨some c, rounds, op⟩) s t (some a) v →
    a.1 = .invalidParam ∨
      Exec anyDevice (DriverCall.prog cfg ⟨some fullContext, rounds, op⟩) s t (some a) v

theorem canRead_present {c : SpiContext} (h : canRead (some c) = true) :
    c.nssPinOp = true ∧ c.spiInOp = true ∧ c.spiOutOp = true := by
  simpa [canRead, and_assoc] using h

theorem canWrite_present {c : SpiContext} (h : canWrite (some c) = true) :
    c.nssPinOp = true ∧ c.spiInOp = true ∧ c.spiOutOp = true ∧ c.waitNano = true := by
  simpa [canWrite, and_assoc] using h

/-- A block calls what was checked for, the exchange of a status burst apart. -/
theorem block_present {c : SpiContext} {raw inOut : Bool} {block : List Call}
    (hin : inOut = true → canWrite (some c) = true → c.spiInOutOp = true)
    (h : Block (some c) raw inOut block) : ∀ e ∈ block, present c e = true := by
  cases h with
  | read reg bank hc | bits op hop reg mask hc | reset hc =>
    obtain ⟨hn, hi, ho⟩ := canRead_present hc
    simp [present, hn, hi, ho]
  | write reg value hc | packetBurst len hc | writeBurst b buff hc | wait ns hc =>
    obtain ⟨hn, hi, ho, hw⟩ := canWrite_present hc
    simp [present, hn, hi, ho, hw]
  | statusBurst m n hc hi =>
    have hx := hin hi hc
    obtain ⟨hn, -⟩ := canWrite_present hc
    simp [present, hn, hx]
  | store bank => simp [present]

section
variable {c : SpiContext} {reg : CtlReg}

theorem calls_present (cfg : Conf) (rounds : ℕ) (op : DriverOp)
    (h : usesInOut op = true → canWrite (some c) = true → c.spiInOutOp = true) {s v : Byte}
    {t : List (Call × Byte)} {o : Option (CommandStatus × DriverOutput)}
    (run : Exec anyDevice (DriverCall.prog cfg ⟨some c, rounds, op⟩) s t o v) :
    ∀ x ∈ t, present c x.1 = true := by
  have makes : Makes (some c) true (usesInOut op) anyBank (DriverCall.prog cfg ⟨some c, rounds, op⟩)
      fun _ => anyBank := call_makes cfg ⟨some c, rounds, op⟩ (fun _ => rfl) fun h => h
  intro x hx
  exact (makes.sound trivial run).1.forall_mem (fun _ => block_present h) x.1
    (List.mem_map_of_mem hx)

/-- With the four checked callbacks there, the context is not looked at again. -/
theorem prog_full (cfg : Conf) (rounds : ℕ) (op : DriverOp) (h : canWrite (some c) = true) :
    DriverCall.prog cfg ⟨some c, rounds, op⟩ = DriverCall.prog cfg ⟨some fullContext, rounds, op⟩ := by
  obtain ⟨nss, out, inn, inOut, wait⟩ := c
  obtain ⟨rfl, rfl, rfl, rfl⟩ := canWrite_present h
  have read : enc28DoReadCtlReg (some ⟨true, true, true, inOut, true⟩) =
      enc28DoReadCtlReg (some fullContext) := rfl
  have write : enc28DoWriteCtlReg (some ⟨true, true, true, inOut, true⟩) =
      enc28DoWriteCtlReg (some fullContext) := rfl
  have set : enc28DoSetBitsCtlReg (some ⟨true, true, true, inOut, true⟩) =
      enc28DoSetBitsCtlReg (some fullContext) := rfl
  have clear : enc28DoClearBitsCtlReg (some ⟨true, true, true, inOut, true⟩) =
      enc28DoClearBitsCtlReg (some fullContext) := rfl
  have select : enc28SelectRegisterBank (some ⟨true, true, true, inOut, true⟩) =
      enc28SelectRegisterBank (some fullContext) := rfl
  have mistat : pollMistat (some ⟨true, true, true, inOut, true⟩) = pollMistat (some fullContext) := by
    funext rounds
    induction rounds with
    | zero => rfl
    | succ rounds ih => simp only [pollMistat, read, ih]
  have estat : pollEstatClk (some ⟨true, true, true, inOut, true⟩) = pollEstatClk (some fullContext) := by
    funext rounds
    induction rounds with
    | zero => rfl
    | succ rounds ih =>
      funext status regValue
      simp only [pollEstatClk, read, ih]
  have macBytes : readMacBytes (some ⟨true, true, true, inOut, true⟩) =
      readMacBytes (some fullContext) := by
    funext regs
    induction regs with
    | nil => rfl
    | cons x regs ih =>
      funext mac
      simp only [readMacBytes, read, ih]
  have phy : enc28DoReadPhyRegister rounds (some ⟨true, true, true, inOut, true⟩) =
      enc28DoReadPhyRegister rounds (some fullContext) := by
    funext regId regValue
    simp only [enc28DoReadPhyRegister, phyReadCommand, read, write, select, mistat]
    rfl
  cases op with
  | softReset | readCtlReg | writeCtlReg | setBitsCtlReg | clearBitsCtlReg | selectRegisterBank => rfl
  | init macAdd =>
    simp only [DriverCall.prog, enc28DoInit, privEnc28DoBufferRegisterInit, privEnc28DoReceiveFilterInit,
      privEnc28DoPollEstatClk, privEnc28DoMacInit, macInitDuplex, writeMacAddress, privEnc28DoPhyInit,
      read, write, set, select, estat, phy]
  | readHwRev hwRev => simp only [DriverCall.prog, enc28DoReadHwRev, read, select, phy]
  | readMac mac => simp only [DriverCall.prog, enc28DoReadMac, select, macBytes]
  | readPhyRegister regId regValue => simp only [DriverCall.prog, phy]
  | beginPacketTransfer =>
    simp only [DriverCall.prog, enc28BeginPacketTransfer, write, set, clear, select]
  | readPacket packetBuf bufSize optStatusVec =>
    simp only [DriverCall.prog, enc28ReadPacket, readPacketPending, readPacketBody, releasePacket,
      rxErrorRecovery, read, write, set, clear, select]
  | writePacket packetBuf bufSize =>
    cases packetBuf <;>
      simp only [DriverCall.prog, enc28WritePacket, transmitPacket, read, write, set, clear, select]
  | checkOutgoingPacketStatus =>
    simp only [DriverCall.prog, enc28CheckOutgoingPacketStatus, readTransmitStatusVector, read, write,
      select]
  | endPacketTransfer => simp only [DriverCall.prog, enc28EndPacketTransfer, clear, select]

abbrev Invalid (status : CommandStatus) : Prop := status = .invalidParam

theorem write_invalid (h : canWrite (some c) = false) (value : Byte) :
    enc28DoWriteCtlReg (some c) reg value = .ret .invalidParam := by
  simp [enc28DoWriteCtlReg, canWrite_some, h]

theorem read_invalid (h : canRead (some c) = false) (regValue : Option Byte) :
    (enc28DoReadCtlReg (some c) reg regValue).Returns fun r => Invalid r.1 := by
  have he : enc28DoReadCtlReg (some c) reg regValue = .ret (.invalidParam, regValue.getD 0) := by
    simp [enc28DoReadCtlReg, canRead_some, h]
  rw [he]
  exact rfl

theorem bits_invalid (h : canRead (some c) = false) (op mask : Byte) :
    doBitsCtlReg (prepareCtlReg op) (some c) reg mask = .ret .invalidParam := by
  simp [doBitsCtlReg, canRead_some, h]

theorem read_full (h : canRead (some c) = true) :
    enc28DoReadCtlReg (some c) = enc28DoReadCtlReg (some fullContext) := by
  obtain ⟨nss, out, inn, inOut, wait⟩ := c
  obtain ⟨rfl, rfl, rfl⟩ := canRead_present h
  rfl

theorem bits_full (h : canRead (some c) = true) (op : Byte) :
    doBitsCtlReg (prepareCtlReg op) (some c) = doBitsCtlReg (prepareCtlReg op) (some fullContext) := by
  obtain ⟨nss, out, inn, inOut, wait⟩ := c
  obtain ⟨rfl, rfl, rfl⟩ := canRead_present h
  rfl

/-- A read of a register that is not reserved fails for the context only. -/
theorem read_ok_or_invalid (hid : reg.id ≠ 0x1A) (old : Byte) :
    (enc28DoReadCtlReg (some c) reg (some old)).Returns fun r => r.1 = .ok ∨ Invalid r.1 := by
  cases hc : canRead (some c) with
  | false => exact returns_mono (read_invalid hc _) fun _ h => Or.inr h
  | true => exact returns_mono (DriverCommands.readCtlReg_ok hc hid old) fun _ h => Or.inl h

theorem exit_invalid {p k : Driver CommandStatus} (h : p.Returns Invalid) :
    (exitIfErr p k).Returns Invalid :=
  returns_bind h fun status hs => by
    obtain rfl : status = .invalidParam := hs
    exact rfl

/-- Without `wait_nano`, or worse, no bank is switched. -/
theorem select_invalid (h : canWrite (some c) = false) (bankId : Byte) :
    (enc28SelectRegisterBank (some c) bankId).Returns Invalid := by
  unfold enc28SelectRegisterBank
  simp only [bind_eq, pure_eq]
  split_ifs
  · exact rfl
  · refine returns_bind (read_ok_or_invalid (by decide) 0) fun r hr => ?_
    rcases hr with hr | hr
    · rw [if_pos hr, write_invalid h]
      exact rfl
    · rw [if_neg (by rw [hr]; decide)]
      exact hr

theorem exit_select_invalid (h : canWrite (some c) = false) (bankId : Byte) (k : Driver CommandStatus) :
    (exitIfErr (enc28SelectRegisterBank (some c) bankId) k).Returns Invalid :=
  exit_invalid (select_invalid h bankId)

theorem phy_invalid (h : canWrite (some c) = false) (rounds : ℕ) (regId : Byte) (regValue : Word) :
    (enc28DoReadPhyRegister rounds (some c) regId regValue).Returns fun r => Invalid r.1 := by
  unfold enc28DoReadPhyRegister
  simp only [canWrite_some, h, Bool.not_false, if_true]
  split_ifs
  · exact rfl
  · exact rfl

theorem init_invalid (h : canWrite (some c) = false) (cfg : Conf) (rounds : ℕ) (macAdd : MacAddress) :
    (enc28DoInit cfg rounds macAdd (some c)).Returns Invalid := by
  refine exit_invalid (returns_rest _ fun _ => exit_invalid ?_)
  rw [write_invalid h]
  exact rfl

/-- A finished run with a missing callback. -/
abbrev GivesUp {α : Type} (status : α → CommandStatus) (p q : Driver α) : Prop :=
  Degrades anyDevice (fun a => Invalid (status a)) p q

/-- A read with the same continuations does what it does in a full context. -/
theorem read_givesUp {α : Type} {status : α → CommandStatus} (old : Byte)
    {f g : CommandStatus × Byte → Driver α}
    (hbad : ∀ r, Invalid r.1 → (f r).Returns fun a => Invalid (status a))
    (h : ∀ r, GivesUp status (f r) (g r)) :
    GivesUp status ((enc28DoReadCtlReg (some c) reg (some old)).bind f)
      ((enc28DoReadCtlReg (some fullContext) reg (some old)).bind g) := by
  cases hc : canRead (some c) with
  | false => exact Degrades.of_returns (returns_bind (read_invalid hc _) hbad) _
  | true =>
    rw [read_full hc]
    exact Degrades.rest _ h

theorem readPacket_givesUp (h : canWrite (some c) = false) (cfg : Conf) (packetBuf : List Byte)
    (bufSize : Word) (optStatusVec : Option ReceiveStatusVector) :
    GivesUp ReadResult.status (enc28ReadPacket cfg (some c) packetBuf bufSize optStatusVec)
      (enc28ReadPacket cfg (some fullContext) packetBuf bufSize optStatusVec) := by
  unfold enc28ReadPacket
  refine read_givesUp 0 (fun r hr => ?_) fun r => ?_
  · simp only [show r.1 ≠ .ok by rw [hr]; decide, if_false]
    exact hr
  · simp only
    split_ifs
    · refine Degrades.of_returns (returns_bind (select_invalid h 0) fun status hs => ?_) _
      rw [if_neg (by rw [hs]; decide)]
      exact hs
    · refine Degrades.of_returns (returns_bind (exit_select_invalid h 0 _) fun status hs => ?_) _
      exact hs
    · exact Degrades.refl _
    · exact Degrades.refl _

theorem writePacket_givesUp (h : canWrite (some c) = false) (cfg : Conf)
    (packetBuf : Option (List Byte)) (bufSize : Word) :
    GivesUp id (enc28WritePacket cfg (some c) packetBuf bufSize)
      (enc28WritePacket cfg (some fullContext) packetBuf bufSize) := by
  cases packetBuf with
  | none => exact Degrades.refl _
  | some packet =>
    unfold enc28WritePacket
    simp only [bind_eq, pure_eq]
    split_ifs
    · exact Degrades.refl _
    · refine read_givesUp 0 (fun r hr => ?_) fun r => ?_
      · rw [if_neg (by rw [hr]; decide)]
        exact hr
      · split_ifs
        · exact Degrades.refl _
        · exact Degrades.of_returns (exit_select_invalid h 0 _) _
        · exact Degrades.refl _

theorem checkOutgoing_givesUp (h : canWrite (some c) = false) :
    GivesUp id (enc28CheckOutgoingPacketStatus (some c))
      (enc28CheckOutgoingPacketStatus (some fullContext)) := by
  unfold enc28CheckOutgoingPacketStatus
  simp only [bind_eq, pure_eq]
  refine read_givesUp 0 (fun r hr => ?_) fun r => ?_
  · rw [if_neg (by rw [hr]; decide)]
    exact hr
  · split_ifs
    · refine read_givesUp r.2 (fun r hr => ?_) fun r => ?_
      · rw [if_neg (by rw [hr]; decide)]
        exact hr
      · split_ifs
        · exact Degrades.of_returns (exit_invalid (exit_select_invalid h 0 _)) _
        · exact Degrades.of_returns (exit_invalid (exit_select_invalid h 0 _)) _
        · exact Degrades.refl _
    · exact Degrades.refl _
    · exact Degrades.refl _

/-- A public call whose function returns ENC28_INVALID_PARAM. -/
theorem refused {α : Type} {p : Driver α} {B : α → Prop} {f : α → CommandStatus × DriverOutput}
    (hp : p.Returns B) (hf : ∀ a, B a → Invalid (f a).1) (q : Driver (CommandStatus × DriverOutput)) :
    GivesUp Prod.fst (p.bind fun a => .ret (f a)) q := by
  have hr : (p.bind fun a => .ret (f a)).Returns fun a => Invalid a.1 := returns_bind hp hf
  exact Degrades.of_returns hr q

/-- With one of the four missing, a finished run is one of the full context or
returns ENC28_INVALID_PARAM. -/
theorem call_givesUp (h : canWrite (some c) = false) (cfg : Conf) (rounds : ℕ) (op : DriverOp) :
    GivesUp Prod.fst (DriverCall.prog cfg ⟨some c, rounds, op⟩)
      (DriverCall.prog cfg ⟨some fullContext, rounds, op⟩) := by
  have status : ∀ status, Invalid status → Invalid (status, DriverOutput.nothing).1 := fun _ h => h
  cases op with
  | softReset =>
    cases hc : canRead (some c) with
    | false =>
      refine refused (B := Invalid) ?_ status _
      simp only [enc28DoSoftReset, canRead_some, hc]
      exact rfl
    | true =>
      obtain ⟨nss, out, inn, inOut, wait⟩ := c
      obtain ⟨rfl, rfl, rfl⟩ := canRead_present hc
      exact Degrades.refl _
  | init macAdd => exact refused (init_invalid h cfg rounds macAdd) status _
  | readHwRev hwRev =>
    cases hwRev with
    | none => exact Degrades.refl _
    | some rev =>
      have hp : (enc28DoReadHwRev rounds (some c) (some rev)).Returns fun r => Invalid r.1 := by
        refine returns_bind (phy_invalid h rounds phyrPhid1 rev.phid1) fun r hr => ?_
        simp only [show r.1 ≠ .ok by rw [hr]; decide, if_false]
        exact hr
      exact refused hp (fun r hr => hr) _
  | readMac mac =>
    have hp : (enc28DoReadMac (some c) mac).Returns fun r => Invalid r.1 := by
      refine returns_bind (select_invalid h 3) fun status hs => ?_
      rw [if_neg (by rw [hs]; decide)]
      exact hs
    exact refused hp (fun r hr => hr) _
  | readPhyRegister regId regValue =>
    exact refused (phy_invalid h rounds regId regValue) (fun r hr => hr) _
  | readCtlReg regId regValue =>
    cases hc : canRead (some c) with
    | false => exact refused (read_invalid hc regValue) (fun r hr => hr) _
    | true =>
      simp only [DriverCall.prog, read_full hc]
      exact Degrades.refl _
  | writeCtlReg regId regValue =>
    refine refused (B := Invalid) ?_ status _
    rw [write_invalid h]
    exact rfl
  | setBitsCtlReg regId mask =>
    cases hc : canRead (some c) with
    | false =>
      refine refused (B := Invalid) ?_ status _
      change (doBitsCtlReg (prepareCtlReg opBfs) _ _ _).Returns Invalid
      rw [bits_invalid hc]
      exact rfl
    | true =>
      have he : enc28DoSetBitsCtlReg (some c) = enc28DoSetBitsCtlReg (some fullContext) :=
        bits_full hc opBfs
      simp only [DriverCall.prog, he]
      exact Degrades.refl _
  | clearBitsCtlReg regId mask =>
    cases hc : canRead (some c) with
    | false =>
      refine refused (B := Invalid) ?_ status _
      change (doBitsCtlReg (prepareCtlReg opBfc) _ _ _).Returns Invalid
      rw [bits_invalid hc]
      exact rfl
    | true =>
      have he : enc28DoClearBitsCtlReg (some c) = enc28DoClearBitsCtlReg (some fullContext) :=
        bits_full hc opBfc
      simp only [DriverCall.prog, he]
      exact Degrades.refl _
  | selectRegisterBank bankId => exact refused (select_invalid h bankId) status _
  | beginPacketTransfer => exact refused (exit_select_invalid h 0 _) status _
  | readPacket packetBuf bufSize optStatusVec =>
    exact (readPacket_givesUp h cfg packetBuf bufSize optStatusVec).map fun r hr => hr
  | writePacket packetBuf bufSize =>
    exact (writePacket_givesUp h cfg packetBuf bufSize).map fun status hs => hs
  | checkOutgoingPacketStatus => exact (checkOutgoing_givesUp h).map fun status hs => hs
  | endPacketTransfer => exact refused (exit_select_invalid h 0 _) status _

theorem careful_of_present (cfg : Conf) (rounds : ℕ) (op : DriverOp)
    (h : usesInOut op = true → canWrite (some c) = true → c.spiInOutOp = true) :
    Careful cfg c rounds op where
  calls := fun _ _ _ _ run => calls_present cfg rounds op h run
  result := by
    intro s t a v run
    cases hc : canWrite (some c) with
    | true =>
      rw [prog_full cfg rounds op hc] at run
      exact Or.inr run
    | false => exact call_givesUp hc cfg rounds op s t a v run

end

theorem anyDevice_total : Total anyDevice := by
  intro e s
  cases e with
  | nssPinOp | spiOutOp | waitNano => exact ⟨(), s, rfl⟩
  | spiInOp len => exact ⟨fun _ => 0, s, rfl⟩
  | spiInOutOp tx len => exact ⟨fun _ => 0, s, rfl⟩
  | loadBank => exact ⟨s, s, rfl, rfl⟩
  | storeBank bank => exact ⟨(), bank, rfl⟩

section
variable {α : Type} {ctx : Option SpiContext} {reg : CtlReg} {G : Call → Byte → Prop}
  {Q : Option α → Byte → Prop} {s : Byte}

/-- Any value may come back from a read. -/
theorem wp_anyRead (hc : canRead ctx = true) (hid : reg.id ≠ 0x1A) (old value : Byte)
    {f : CommandStatus × Byte → Driver α}
    (h : wp anyDevice G ((enc28DoReadCtlReg ctx reg (some old)).bind f) Q s) :
    wp anyDevice G (f (.ok, value)) Q s := by
  rw [readCtlReg_eq old hc hid] at h
  -- the calls up to the reply
  have h := (((h.2 s s ⟨rfl, rfl⟩).2 () s rfl).2 () s rfl)
  change wp anyDevice G ((if privEnc28IsMacOrMiiReg s reg.id = true then _ else _ : Driver _).bind f) Q s at h
  split_ifs at h
  · exact (h.2 (fun _ => value) s rfl).2 () s rfl
  · exact (h.2 (fun _ => value) s rfl).2 () s rfl

theorem wp_anyWrite (hc : canWrite ctx = true) (hid : reg.id ≠ 0x1A) (value : Byte)
    {f : CommandStatus → Driver α}
    (h : wp anyDevice G ((enc28DoWriteCtlReg ctx reg value).bind f) Q s) :
    wp anyDevice G (f .ok) Q s := by
  rw [writeCtlReg_eq value hc hid] at h
  exact ((((h.2 () s rfl).2 () s rfl).2 () s rfl).2 () s rfl).2 () s rfl

theorem wp_anySelect (hc : canWrite ctx = true) {b : Byte} (hb : b.toNat < 4)
    {f : CommandStatus → Driver α}
    (h : wp anyDevice G ((enc28SelectRegisterBank ctx b).bind f) Q s) :
    wp anyDevice G (f .ok) Q b := by
  have h := (wp_bind _ _ _ _).mp h
  unfold enc28SelectRegisterBank at h
  rw [if_neg (by omega)] at h
  have h := wp_anyRead (canRead_of_canWrite hc) (by decide) 0 0 h
  have h := wp_anyWrite hc (by decide) _ h
  exact h.2 () b rfl

end

/-- A status burst that is reached in every case exchanges bytes. -/
theorem exchange_guarded {α : Type} {G : Call → Byte → Prop} {Q : Option α → Byte → Prop} {s : Byte}
    {tx : List Byte} {len : ℕ} {f : (Fin len → Byte) → Driver α}
    (h : wp anyDevice G ((nssPinOp 0).bind fun _ => (spiInOutOp tx len).bind f) Q s) :
    G (.spiInOutOp tx len) s :=
  (h.2 () s rfl).1

/-- With a packet pending the header is read with `spi_in_out_op`. -/
theorem readPacket_exchanges {G : Call → Byte → Prop} {cfg : Conf} {c : SpiContext} {s : Byte}
    {Q : Option ReadResult → Byte → Prop} (hc : canWrite (some c) = true)
    (hcfg : cfg.rxAddressStart ≤ cfg.rxAddressEnd) (hstart : cfg.rxAddressStart < 0x2000)
    (packetBuf : List Byte) (bufSize : Word) (optStatusVec : Option ReceiveStatusVector)
    (h : wp anyDevice G (enc28ReadPacket cfg (some c) packetBuf bufSize optStatusVec) Q s) :
    ∃ u, G (.spiInOutOp [0x3A, 0, 0, 0, 0, 0, 0] 7) u := by
  have hr := canRead_of_canWrite hc
  have h := wp_anyRead hr (by decide) 0 (bit eirPktif) h
  have h : wp anyDevice G (readPacketPending cfg (some c) packetBuf bufSize optStatusVec _) Q s := h
  have h := wp_anySelect hc (by decide) h
  have h := wp_anyRead hr (by decide) _ (lowByte cfg.rxAddressStart) h
  have h := wp_anyRead hr (by decide) _ (highAddr cfg.rxAddressStart) h
  have hptr : (word (highAddr cfg.rxAddressStart &&& 0x1F) (lowByte cfg.rxAddressStart)).toNat =
      cfg.rxAddressStart := by
    change (word (highAddr cfg.rxAddressStart &&& spiArgMask) _).toNat = _
    rw [word_toNat, spiArgMask_toNat, highAddr_toNat, lowByte_toNat]
    omega
  simp only [hptr, Nat.lt_irrefl, false_or, gt_iff_lt, Nat.not_lt.mpr hcfg, if_false] at h
  exact ⟨0, exchange_guarded h⟩

/-- With a transmission ended the status vector is read with `spi_in_out_op`. -/
theorem checkOutgoing_exchanges {G : Call → Byte → Prop} {c : SpiContext} {s : Byte}
    {Q : Option CommandStatus → Byte → Prop} (hc : canWrite (some c) = true)
    (h : wp anyDevice G (enc28CheckOutgoingPacketStatus (some c)) Q s) :
    ∃ u, G (.spiInOutOp [0x3A, 0, 0, 0, 0, 0, 0, 0] 7) u := by
  have hr := canRead_of_canWrite hc
  have h := wp_anyRead hr (by decide) 0 (bit eirTxif) h
  have h := wp_anyRead hr (by decide) (bit eirTxif) 0 h
  have h := (wp_bind _ _ _ _).mp h
  have h := wp_anySelect hc (by decide) h
  have h := wp_anyRead hr (by decide) 0 0 h
  have h := wp_anyRead hr (by decide) 0 0 h
  have h := wp_anyRead hr (by decide) 0 0 h
  have h := wp_anyRead hr (by decide) 0 0 h
  have h := wp_anyWrite hc (by decide) _ h
  have h := wp_anyWrite hc (by decide) _ h
  exact ⟨0, exchange_guarded h⟩

theorem exchange_reached (cfg : Conf) (hcfg : cfg.rxAddressStart ≤ cfg.rxAddressEnd)
    (hstart : cfg.rxAddressStart < 0x2000) {c : SpiContext} (rounds : ℕ) {op : DriverOp}
    (hop : usesInOut op = true) (hc : canWrite (some c) = true)
    {s : Byte} (h : ∀ t o v, Exec anyDevice (DriverCall.prog cfg ⟨some c, rounds, op⟩) s t o v →
      ∀ x ∈ t, present c x.1 = true) : c.spiInOutOp = true := by
  have guarded : wp anyDevice (fun e _ => present c e = true)
      (DriverCall.prog cfg ⟨some c, rounds, op⟩) (fun _ _ => True) s :=
    wp_of_execs anyDevice_total h
  cases op with
  | readPacket packetBuf bufSize optStatusVec =>
    obtain ⟨-, hx⟩ := readPacket_exchanges hc hcfg hstart packetBuf bufSize optStatusVec
      ((wp_bind _ _ _ _).mp guarded)
    exact hx
  | checkOutgoingPacketStatus =>
    obtain ⟨-, hx⟩ := checkOutgoing_exchanges hc ((wp_bind _ _ _ _).mp guarded)
    exact hx
  | _ => cases hop

/-- For every context, driver state and reply: a public function is careful
unless it may come to `spi_in_out_op` and that one alone is missing. -/
theorem careful_iff (cfg : Conf) (hcfg : cfg.rxAddressStart ≤ cfg.rxAddressEnd)
    (hstart : cfg.rxAddressStart < 0x2000) (c : SpiContext) (rounds : ℕ) (op : DriverOp) :
    Careful cfg c rounds op ↔
      (usesInOut op = true → canWrite (some c) = true → c.spiInOutOp = true) :=
  ⟨fun h hop hc => exchange_reached cfg hcfg hstart rounds hop hc (h.calls 0),
    careful_of_present cfg rounds op⟩

theorem careful_write :
    Careful {} ⟨true, true, true, false, true⟩ 0 (.writePacket (some (List.replicate 60 0xFF)) 60) :=
  (careful_iff {} (by decide) (by decide) _ 0 _).mpr fun h => nomatch h

/-- With a packet pending and `spi_in_out_op` alone missing, it is called all the same. -/
theorem missing_callback_called : ∃ t o v x,
    Exec anyDevice (DriverCall.prog {} ⟨some ⟨true, true, true, false, true⟩, 0, .readPacket [] 0 none⟩)
      0 t o v ∧ x ∈ t ∧ present ⟨true, true, true, false, true⟩ x.1 = false := by
  by_contra hall
  have hpresent : ∀ t o v, Exec anyDevice
      (DriverCall.prog {} ⟨some ⟨true, true, true, false, true⟩, 0, .readPacket [] 0 none⟩) 0 t o v →
      ∀ x ∈ t, present ⟨true, true, true, false, true⟩ x.1 = true := fun t o v run x hx =>
    Decidable.byContradiction fun hx' => hall ⟨t, o, v, x, run, hx, Bool.eq_false_iff.mpr hx'⟩
  exact absurd (exchange_reached {} (by decide) (by decide) 0 rfl rfl hpresent) (by decide)

end Stm32NetworkStack.MissingCallbacks
