import Stm32NetworkStack.ReceivePackets

set_option autoImplicit false

/-!
# Headers of any content

The receive logic with a buffer memory and an EIR that may change at any time, so
that the six bytes in front of a packet are any bytes. `enc28_read_packet` takes
ERXRDPT and ERDPT from the same two of them, but only ERXRDPT is brought back into
the ring.
-/
namespace Stm32NetworkStack.GarbageHeaders
open InteractivePrograms Enc28Registers Enc28Driver SpiBus BankDiscipline DriverBanks
open ReceiveLogic ReceivePackets Relation

structure NoisyChip where
  base : RxChip
  eir : Byte
  /-- The bytes that the buffer memory has answered so far. -/
  served : List Byte

/-- What the chip does not change on its own. -/
structure Pointers where
  erdpt : ℕ
  erxst : ℕ
  erxnd : ℕ
  erxrdptl : Byte
  erxrdpt : ℕ
  served : List Byte

/-- The pointers after a read of `bytes` that takes ERDPT to `p`. -/
def Pointers.read (s : Pointers) (p : ℕ) (bytes : List Byte) : Pointers :=
  { s with erdpt := p, served := s.served ++ bytes }

def Pointers.setErdpt (s : Pointers) (p : ℕ) : Pointers := { s with erdpt := p }

def Pointers.latch (s : Pointers) (v : Byte) : Pointers := { s with erxrdptl := v }

def Pointers.setErxrdpt (s : Pointers) (p : ℕ) : Pointers :=
  { s with erxrdptl := lowByte p, erxrdpt := p }

theorem read_nil (s : Pointers) : s.read s.erdpt [] = s := by
  unfold Pointers.read
  rw [List.append_nil]

theorem read_read (s : Pointers) (p q : ℕ) (bytes more : List Byte) :
    (s.read p bytes).read q more = s.read q (bytes ++ more) := by
  unfold Pointers.read
  rw [List.append_assoc]

section
variable (c : NoisyChip)

def NoisyChip.pointers : Pointers where
  erdpt := c.base.erdpt
  erxst := c.base.erxst
  erxnd := c.base.erxnd
  erxrdptl := c.base.erxrdptl
  erxrdpt := c.base.erxrdpt
  served := c.served

def NoisyChip.readReg (addr : Byte) : Byte := if addr = 0x1C then c.eir else c.base.readReg addr

def NoisyChip.writeReg (addr v : Byte) : NoisyChip :=
  if addr = 0x1C then { c with eir := v } else { c with base := c.base.writeReg addr v }

def NoisyChip.setBits (addr mask : Byte) : NoisyChip :=
  if addr = 0x1C then { c with eir := c.eir ||| mask } else { c with base := c.base.setBits addr mask }

def NoisyChip.clearBits (addr mask : Byte) : NoisyChip :=
  if addr = 0x1C then { c with eir := c.eir &&& ~~~mask } else { c with base := c.base.clearBits addr mask }

def NoisyChip.readBuf : Byte × NoisyChip :=
  (c.base.readBuf.1, { c with base := c.base.readBuf.2, served := c.served ++ [c.base.readBuf.1] })

end

def NoisyStep (c d : NoisyChip) : Prop := d.base.bsel = c.base.bsel ∧ d.pointers = c.pointers

def noisyCore : ChipCore NoisyChip where
  econ1 := fun c => c.base.econ1
  readReg := NoisyChip.readReg
  afterRead := fun c _ => c
  writeReg := NoisyChip.writeReg
  setBits := NoisyChip.setBits
  clearBits := NoisyChip.clearBits
  readBuf := NoisyChip.readBuf
  writeBuf := fun c b => { c with base := c.base.writeBuf b }
  dummy := fun c => c.base.dummy
  reset := fun c => { c with base := c.base.reset, eir := 0 }
  env := NoisyStep

theorem noisy_laws : BankLaws noisyCore where
  read := fun _ => rfl
  afterRead := fun _ _ => rfl
  writeEcon1 := fun _ _ => rfl
  write := fun c a v h => by
    have hbase : (c.base.writeReg a v).bsel = c.base.bsel := (rx_laws fun _ => True).write c.base a v h
    change (c.writeReg a v).base.bsel = c.base.bsel
    unfold NoisyChip.writeReg
    split_ifs
    · rfl
    · exact hbase
  set := fun c a m h => by
    have hbase : (c.base.setBits a m).bsel = c.base.bsel := (rx_laws fun _ => True).set c.base a m h
    change (c.setBits a m).base.bsel = c.base.bsel
    unfold NoisyChip.setBits
    split_ifs
    · rfl
    · exact hbase
  clear := fun c a m h => by
    have hbase : (c.base.clearBits a m).bsel = c.base.bsel := (rx_laws fun _ => True).clear c.base a m h
    change (c.clearBits a m).base.bsel = c.base.bsel
    unfold NoisyChip.clearBits
    split_ifs
    · rfl
    · exact hbase
  readBuf := fun _ => rfl
  writeBuf := fun _ _ => rfl
  reset := fun _ => BitVec.zero_and
  env := fun _ _ h => h.1

/-- The chip's pointers are `s`, and nothing else is known of it. -/
def At (s : Pointers) (c : NoisyChip) : Prop := c.pointers = s

theorem at_closed (s : Pointers) : EnvClosed noisyCore (At s) := by
  intro c d h hd
  have hstep : NoisyStep c d := hd
  exact hstep.2.trans h

section
variable {ctx : Option SpiContext} {agree : Bool} {s t : Pointers}

/-- A register of bank 0 that is not EIR is written in the receive logic. -/
theorem write_at (hc : canWrite ctx = true) {reg : CtlReg} (hr : reg.bank = some 0) (value : Byte)
    (h : ∀ c, At s c → At t { c with base := c.base.writeBank0 reg.addr value }) {E : World NoisyChip → Prop} :
    Spec noisyCore (InBank noisyCore (At s) 0) (enc28DoWriteCtlReg ctx reg value)
      (InBank noisyCore (At t) 0) E := by
  refine Spec.sure hc (write_rule noisy_laws hr value (at_closed t) fun c hs hb => ?_)
  have hwrite : c.writeReg reg.addr value = { c with base := c.base.writeBank0 reg.addr value } := by
    unfold NoisyChip.writeReg
    rw [if_neg (bank_ne_eir hr), writeReg_bank0 hb (bank_ne_econ1 hr)]
  change At t (c.writeReg reg.addr value)
  rw [hwrite]
  exact h c hs

theorem read_at (hc : canWrite ctx = true) (reg : CtlReg) (hr : reg.bank = some 0) (old : Byte) {v : Byte}
    (hv : ∀ c, At s c → c.base.readBank0 reg.addr = v) {X : World NoisyChip → Prop} :
    Bank noisyCore (InBank noisyCore (At s) 0) (enc28DoReadCtlReg ctx reg (some old))
      (fun r w => r.2 = v ∧ InBank noisyCore (At s) 0 w) X := by
  have hread := read_rule noisy_laws (V := fun u c => At s c ∧ u = v) (X := X) (canRead_of_canWrite hc) reg hr
    old (fun u c d h hd => ⟨at_closed s c d h.1 hd, h.2⟩) fun c (hs : At s c) hb => ?_
  · refine Triple.conseq hread (fun _ h => h) (fun r w h => ?_) fun _ h => h
    exact ⟨h.2.2.1.2, h.2.1, h.2.2.1.1, h.2.2.2⟩
  · change At s c ∧ c.readReg reg.addr = v
    unfold NoisyChip.readReg
    rw [if_neg (bank_ne_eir hr), readReg_bank0 hb (bank_ne_econ1 hr) (bank_ne_eir hr)]
    exact ⟨hs, hv c hs⟩

theorem select_at :
    Spec noisyCore (Idle noisyCore (At s) agree) (enc28SelectRegisterBank ctx 0)
      (InBank noisyCore (At s) 0) fun w => canWrite ctx = false ∧ Idle noisyCore (At s) agree w := by
  refine select_rule noisy_laws (by decide) (at_closed s) (fun _ h => h) (at_closed s) fun c d h hd => ?_
  have hat : At s d := env_keeps (at_closed s) h hd
  exact hat

theorem select_blocked (hr : canRead ctx = true) (hc : canWrite ctx = false) {X : World NoisyChip → Prop} :
    Bank noisyCore (Idle noisyCore (At s) agree) (enc28SelectRegisterBank ctx 0)
      (fun status w => status ≠ .ok ∧ Idle noisyCore (At s) agree w) X := by
  change Bank noisyCore _ (Prog.bind _ _) _ _
  refine Triple.bind (readShared_rule noisy_laws (V := fun _ => At s) hr .econ1 rfl (by decide) 0
    (fun _ => at_closed s) fun _ h => h) fun r w hw => ?_
  obtain ⟨status, hs, he⟩ : ∃ status, status ≠ .ok ∧
      enc28DoWriteCtlReg ctx .econ1 (econ1WithBank r.2 0) = .ret status := writeCtlReg_fails _ (Or.inl hc)
  simp only [hw.1, he, bind_eq, ret_bind, if_true, if_neg hs]
  exact ⟨hs, hw.2⟩

/-- EIR is read before the chip can do anything on its own. -/
theorem readEir_at (hc : canRead ctx = true) {e : Byte} {X : World NoisyChip → Prop} :
    Bank noisyCore (Idle noisyCore (fun c => At s c ∧ c.eir = e) agree) (enc28DoReadCtlReg ctx .eir (some 0))
      (fun r w => r.1 = .ok ∧ r.2 = e ∧ Idle noisyCore (At s) agree w) X := by
  refine Triple.conseq (readShared_rule noisy_laws (V := fun u c => At s c ∧ u = e) hc .eir rfl (by decide) 0
    (fun u c d h hd => ⟨at_closed s c d h.1 hd, h.2⟩) fun c h => h) (fun _ h => h) (fun r w h => ?_) fun _ h => h
  exact ⟨h.1, h.2.2.1.2, h.2.1, h.2.2.1.1, h.2.2.2⟩

end

/-- The address is one of the receive buffer. -/
def Inside (cfg : Conf) (p : ℕ) : Prop := cfg.rxAddressStart ≤ p ∧ p ≤ cfg.rxAddressEnd

/-- ERDPT is in the ring that the driver has set up. -/
structure InRing (cfg : Conf) (s : Pointers) : Prop where
  erxst : s.erxst = cfg.rxAddressStart
  erxnd : s.erxnd = cfg.rxAddressEnd
  erdpt : Inside cfg s.erdpt

/-- ERDPT has left the ring. -/
def Astray (cfg : Conf) (s : Pointers) : Prop := s.erdpt < 0x2000 ∧ ¬ Inside cfg s.erdpt

/-- If the bytes begin with the header of a packet that is taken, then its
next-packet pointer is an address of the receive buffer. -/
def NextInRing (cfg : Conf) (bufSize : Word) (bytes : List Byte) : Prop :=
  ∀ (nextLo nextHi : Byte) (v : ReceiveStatusVector) (rest : List Byte),
    bytes = [nextLo, nextHi, v.packetLenLo, v.packetLenHi, v.statusBitsLo, v.statusBitsHi] ++ rest →
    v.receivedOk = true → v.packetLen ≤ bufSize → Inside cfg (word (nextHi &&& 0x1F) nextLo).toNat

/-- The six bytes of the header burst that come from the buffer. -/
def header (hdr : Fin 7 → Byte) : List Byte := (List.ofFn hdr).tail

theorem nextInRing_header {cfg : Conf} {bufSize : Word} (hdr : Fin 7 → Byte) (rest : List Byte) :
    NextInRing cfg bufSize (header hdr ++ rest) ↔
      ((⟨hdr 3, hdr 4, hdr 5, hdr 6⟩ : ReceiveStatusVector).receivedOk = true →
        (⟨hdr 3, hdr 4, hdr 5, hdr 6⟩ : ReceiveStatusVector).packetLen ≤ bufSize →
        Inside cfg (word (hdr 2 &&& 0x1F) (hdr 1)).toNat) := by
  constructor
  · intro h
    exact h _ _ _ rest rfl
  · intro h nextLo nextHi v more he
    have hlist : header hdr = [hdr 1, hdr 2, hdr 3, hdr 4, hdr 5, hdr 6] := rfl
    simp only [hlist, List.cons_append, List.nil_append, List.cons.injEq] at he
    obtain ⟨h1, h2, h3, h4, h5, h6, -⟩ := he
    rw [h1, h2, h3, h4, h5, h6] at h
    exact h

theorem nextInRing_nil {cfg : Conf} {bufSize : Word} : NextInRing cfg bufSize [] := by
  intro nextLo nextHi v rest he
  cases he

/-- The errata: whatever the pointer, ERXRDPT gets an address of the receive buffer. -/
theorem erxrdptFor_inside {cfg : Conf} (order : cfg.rxAddressStart ≤ cfg.rxAddressEnd)
    (top : cfg.rxAddressEnd < 0x2000) (pp : Word) : Inside cfg (erxrdptFor cfg pp).toNat := by
  have hpp := pp.isLt
  have h1 : (1 : Word).toNat = 1 := rfl
  unfold Inside erxrdptFor
  split_ifs with h
  · rw [BitVec.toNat_ofNat]
    omega
  · rw [BitVec.toNat_sub, h1]
    omega

section
variable {cfg : Conf} {c : NoisyChip} {s : Pointers}

theorem inside_lt (top : cfg.rxAddressEnd < 0x2000) {p : ℕ} (h : Inside cfg p) : p < 0x2000 := by
  have hle := h.2
  omega

/-- A read of the buffer moves ERDPT along the ring. -/
theorem readBuf_inside (top : cfg.rxAddressEnd < 0x2000) (hst : c.base.erxst = cfg.rxAddressStart)
    (hnd : c.base.erxnd = cfg.rxAddressEnd) (h : Inside cfg c.base.erdpt) :
    Inside cfg c.readBuf.2.base.erdpt := by
  change Inside cfg (if c.base.erdpt = c.base.erxnd then c.base.erxst else (c.base.erdpt + 1) % 0x2000)
  rw [hst, hnd]
  unfold Inside at h ⊢
  split_ifs <;> omega

theorem drained_at (top : cfg.rxAddressEnd < 0x2000) (h : InRing cfg s) (hs : At s c) (n : ℕ) :
    ∃ p, Inside cfg p ∧
      At (s.read p ((List.range n).map (noisyCore.bufByte c))) (noisyCore.drained n c) := by
  induction n with
  | zero =>
    refine ⟨s.erdpt, h.erdpt, ?_⟩
    change At (s.read s.erdpt []) c
    rwa [read_nil]
  | succ n ih =>
    obtain ⟨p, hp, hat⟩ := ih
    rw [drained_succ]
    generalize hd : noisyCore.drained n c = d at hat
    have hbyte : noisyCore.bufByte c n = d.readBuf.1 := by
      rw [← hd]
      rfl
    have herdpt : d.base.erdpt = p := congrArg Pointers.erdpt hat
    have hst : d.base.erxst = s.erxst := congrArg Pointers.erxst hat
    have hnd : d.base.erxnd = s.erxnd := congrArg Pointers.erxnd hat
    have hin := readBuf_inside top (hst.trans h.erxst) (hnd.trans h.erxnd) (herdpt.symm ▸ hp)
    refine ⟨_, hin, ?_⟩
    have hmoved : d.readBuf.2.pointers = d.pointers.read d.readBuf.2.base.erdpt [d.readBuf.1] := rfl
    have hread : d.pointers = s.read p _ := hat
    change d.readBuf.2.pointers = _
    rw [hmoved, hread, read_read, List.range_succ, List.map_append, List.map_singleton, hbyte]

end

theorem pointer_bytes (lo hi : Byte) (p : ℕ) :
    setHigh (setLow p lo) hi = (word (hi &&& 0x1F) lo).toNat := by
  have hlo := lo.isLt
  unfold setHigh setLow
  rw [word_toNat, show (0x1F : Byte) = spiArgMask from rfl, spiArgMask_toNat]
  omega

theorem pointer_back {p : ℕ} (h : p < 0x2000) : setHigh (lowByte p).toNat (highAddr p) = p := by
  unfold setHigh
  rw [highAddr_toNat, lowByte_toNat]
  omega

section
variable {cfg : Conf} {ctx : Option SpiContext} {agree : Bool} {s : Pointers}

/-- Both bytes of ERXRDPT are written. -/
theorem moveErxrdpt_at (hc : canWrite ctx = true) {p : ℕ} (hp : p < 0x2000) {k : Driver CommandStatus}
    {D : CommandStatus → World NoisyChip → Prop}
    (hk : Bank noisyCore (InBank noisyCore (At (s.setErxrdpt p)) 0) k D fun _ => False) :
    Bank noisyCore (InBank noisyCore (At s) 0)
      (exitIfErr (enc28DoWriteCtlReg ctx .erxrdptl (lowByte p)) <|
        exitIfErr (enc28DoWriteCtlReg ctx .erxrdpth (highAddr p)) k) D fun _ => False := by
  have hback := pointer_back hp
  have hlow : ∀ c, At s c → At (s.latch (lowByte p)) { c with base := c.base.writeBank0 0x0C (lowByte p) } := by
    intro c hs
    exact congrArg (Pointers.latch · (lowByte p)) hs
  have hhigh : ∀ c, At (s.latch (lowByte p)) c →
      At (s.setErxrdpt p) { c with base := c.base.writeBank0 0x0D (highAddr p) } := by
    intro c hs
    have hlatched : c.pointers = s.latch (lowByte p) := hs
    change { c.pointers with erxrdpt := setHigh c.pointers.erxrdptl.toNat (highAddr p) } = s.setErxrdpt p
    rw [hlatched]
    change { s with erxrdptl := lowByte p, erxrdpt := setHigh (lowByte p).toNat (highAddr p) } = s.setErxrdpt p
    rw [hback]
    rfl
  exact Spec.exitSure (write_at hc rfl _ hlow) (Spec.exitSure (write_at hc rfl _ hhigh) hk)

/-- Both bytes of ERDPT are written. -/
theorem moveErdpt_at (hc : canWrite ctx = true) (lo hi : Byte) {k : Driver CommandStatus}
    {D : CommandStatus → World NoisyChip → Prop}
    (hk : Bank noisyCore (InBank noisyCore (At (s.setErdpt (word (hi &&& 0x1F) lo).toNat)) 0) k D fun _ => False) :
    Bank noisyCore (InBank noisyCore (At s) 0)
      (exitIfErr (enc28DoWriteCtlReg ctx .erdptl lo) <| exitIfErr (enc28DoWriteCtlReg ctx .erdpth hi) k) D
      fun _ => False := by
  have hboth := pointer_bytes lo hi s.erdpt
  have hlow : ∀ c, At s c → At (s.setErdpt (setLow s.erdpt lo)) { c with base := c.base.writeBank0 0x00 lo } := by
    intro c hs
    have hstart : c.pointers = s := hs
    change c.pointers.setErdpt (setLow c.pointers.erdpt lo) = _
    rw [hstart]
  have hhigh : ∀ c, At (s.setErdpt (setLow s.erdpt lo)) c →
      At (s.setErdpt (word (hi &&& 0x1F) lo).toNat) { c with base := c.base.writeBank0 0x01 hi } := by
    intro c hs
    have hmoved : c.pointers = s.setErdpt (setLow s.erdpt lo) := hs
    change c.pointers.setErdpt (setHigh c.pointers.erdpt hi) = _
    rw [hmoved, ← hboth]
    rfl
  exact Spec.exitSure (write_at hc rfl _ hlow) (Spec.exitSure (write_at hc rfl _ hhigh) hk)

/-- The bytes of ERDPT are those of the header, the bytes of ERXRDPT follow the errata. -/
theorem releasePacket_at (hc : canWrite ctx = true) (order : cfg.rxAddressStart ≤ cfg.rxAddressEnd)
    (top : cfg.rxAddressEnd < 0x2000) (lo hi : Byte) :
    Spec noisyCore (InBank noisyCore (At s) 0) (releasePacket cfg ctx lo hi)
      (InBank noisyCore (At ((s.setErdpt (word (hi &&& 0x1F) lo).toNat).setErxrdpt
        (erxrdptFor cfg (word (hi &&& 0x1F) lo)).toNat)) 0) fun _ => False := by
  have hpp := inside_lt top (erxrdptFor_inside order top (word (hi &&& 0x1F) lo))
  refine moveErdpt_at hc lo hi (moveErxrdpt_at hc hpp (Spec.sureBits hc (setBits_rule noisy_laws (by decide)
    (fun h => absurd h (by decide)) _ (by decide) (at_closed _) fun c hs _ => ?_)))
  exact hs

/-- The answer to a receive error. -/
theorem rxErrorRecovery_at (hc : canWrite ctx = true) (top : cfg.rxAddressEnd < 0x2000) :
    Bank noisyCore (Idle noisyCore (At s) agree) (rxErrorRecovery cfg ctx)
      (fun _ => Idle noisyCore (At (s.setErxrdpt cfg.rxAddressEnd)) agree) fun _ => False := by
  refine Spec.exitSure (Spec.sure hc select_at) (moveErxrdpt_at hc top ?_)
  refine Spec.exitSure (B := InBank noisyCore (At (s.setErxrdpt cfg.rxAddressEnd)) 0) (Spec.sureBits hc
    (clearBits_rule noisy_laws (by decide) (fun h => absurd h (by decide)) _ (by decide) (at_closed _)
      fun c hs _ => ?_)) (Triple.ret fun _ h => h.idle)
  exact hs

/-- Wherever the call ends early, ERDPT is as it was. -/
def Quiet (cfg : Conf) (s t : Pointers) : Prop := t = s ∨ t = s.setErxrdpt cfg.rxAddressEnd

variable {packetBuf : List Byte} {bufSize : Word} {optStatusVec : Option ReceiveStatusVector}

/-- The range check on ERDPT decides between the error and the header burst. -/
theorem readPacketPending_at (hc : canWrite ctx = true) (hp : s.erdpt < 0x2000) (e : Byte)
    {D : ReadResult → World NoisyChip → Prop}
    (out : ¬ Inside cfg s.erdpt → ∀ w, InBank noisyCore (At s) 0 w →
      D ⟨.readPtrOutOfRange, packetBuf, optStatusVec⟩ w)
    (burst : Inside cfg s.erdpt → Bank noisyCore (InBank noisyCore (At s) 0)
      ((nssPinOp 0).bind fun _ => (spiInOutOp [0x3A, 0, 0, 0, 0, 0, 0] 7).bind fun hdr =>
        (nssPinOp 1).bind fun _ => readPacketBody cfg ctx packetBuf bufSize optStatusVec hdr) D fun _ => False) :
    Bank noisyCore (Idle noisyCore (At s) agree)
      (readPacketPending cfg ctx packetBuf bufSize optStatusVec e) D fun _ => False := by
  have herdpt : ∀ c, At s c → c.base.erdpt = s.erdpt := by
    intro c hs
    exact congrArg Pointers.erdpt hs
  unfold readPacketPending
  simp only [bind_eq, pure_eq]
  refine Triple.bind (Spec.sure hc select_at) fun status => onOk ?_ fun _ _ hw => absurd hw fun h => h
  refine Triple.bind (read_at hc .erdptl rfl _ fun c hs => congrArg lowByte (herdpt c hs)) fun lo w hw => ?_
  obtain ⟨hlo, hw⟩ := hw
  refine (Triple.bind (read_at hc .erdpth rfl _ fun c hs => congrArg highAddr (herdpt c hs)) fun hi u hu => ?_) w hw
  obtain ⟨hhi, hu⟩ := hu
  rw [hlo, hhi, word_pointer hp]
  by_cases hin : Inside cfg s.erdpt
  · rw [if_neg (by unfold Inside at hin; omega)]
    exact burst hin u hu
  · rw [if_pos (by unfold Inside at hin; omega)]
    exact out hin u hu

/-- A call either goes on to the pending packet or leaves ERDPT alone. -/
theorem readPacket_at (top : cfg.rxAddressEnd < 0x2000) {e : Byte}
    {D : ReadResult → World NoisyChip → Prop}
    (pending : canWrite ctx = true → e.getLsbD eirPktif = true → Bank noisyCore (Idle noisyCore (At s) agree)
      (readPacketPending cfg ctx packetBuf bufSize optStatusVec e) D fun _ => False)
    (quiet : ¬ (canWrite ctx = true ∧ e.getLsbD eirPktif = true) → ∀ r t w, Quiet cfg s t →
      Idle noisyCore (At t) agree w → D r w) :
    Bank noisyCore (Idle noisyCore (fun c => At s c ∧ c.eir = e) agree)
      (enc28ReadPacket cfg ctx packetBuf bufSize optStatusVec) D fun _ => canWrite ctx = false := by
  have stays : ¬ (canWrite ctx = true ∧ e.getLsbD eirPktif = true) → ∀ r w,
      Idle noisyCore (At s) agree w → D r w := by
    intro hno r w hw
    exact quiet hno r s w (Or.inl rfl) hw
  unfold enc28ReadPacket
  simp only [bind_eq, pure_eq]
  by_cases hc : canWrite ctx = true
  · refine Triple.bind (readEir_at (canRead_of_canWrite hc)) fun r w hw => ?_
    obtain ⟨hok, he, hw⟩ := hw
    rw [hok, he, if_pos rfl]
    split_ifs with hp hx
    · exact Triple.conseq (pending hc hp) (fun _ h => h) (fun _ _ h => h) (fun _ h => absurd h fun h => h) w hw
    · refine Triple.conseq (Triple.bind (rxErrorRecovery_at hc top) fun status => Triple.ret fun u hu => ?_)
        (fun _ h => h) (fun _ _ h => h) (fun _ h => absurd h fun h => h) w hw
      exact quiet (fun h => hp h.2) _ _ u (Or.inr rfl) hu
    · exact stays (fun h => hp h.2) _ w hw
  · have hno : canWrite ctx = false := Bool.eq_false_iff.mpr hc
    have hstays := stays fun h => hc h.1
    cases hr : canRead ctx with
    | false =>
      refine Triple.bind (read_blocked hr .eir 0 (B := fun r w => r.1 ≠ .ok ∧ Idle noisyCore (At s) agree w)
        fun status w hs hw => ⟨hs, hw.1, hw.2.1.1, hw.2.2⟩) fun r w hw => ?_
      rw [if_neg hw.1]
      exact hstays _ w hw.2
    | true =>
      refine Triple.bind (readEir_at hr) fun r w hw => ?_
      obtain ⟨hok, he, hw⟩ := hw
      rw [hok, he, if_pos rfl]
      split_ifs with hp hx
      · refine Triple.bind (select_blocked hr hno) (fun status u hu => ?_) w hw
        rw [if_neg hu.1]
        exact hstays _ u hu.2
      · have hrecovery : Bank noisyCore (Idle noisyCore (At s) agree) (rxErrorRecovery cfg ctx)
            (fun _ => Idle noisyCore (At s) agree) fun _ => canWrite ctx = false := by
          refine Triple.bind (select_blocked hr hno) fun status u hu => ?_
          rw [if_neg hu.1]
          exact hu.2
        exact Triple.bind hrecovery (fun status => Triple.ret fun u hu => hstays _ u hu) w hw
      · exact hstays _ w hw

/-- A call that starts in the ring ends in it, or ERDPT has left it with a packet
whose next-packet pointer is not an address of the receive buffer. ERXRDPT does
not leave it. -/
def Lands (cfg : Conf) (bufSize : Word) (agree : Bool) (s : Pointers) (w : World NoisyChip) : Prop :=
  ∃ t bytes, t.served = s.served ++ bytes ∧ Idle noisyCore (At t) agree w ∧
    (Inside cfg s.erxrdpt → Inside cfg t.erxrdpt) ∧
    (InRing cfg t ∧ NextInRing cfg bufSize bytes ∨ Astray cfg t ∧ ¬ NextInRing cfg bufSize bytes)

theorem InRing.order (h : InRing cfg s) : cfg.rxAddressStart ≤ cfg.rxAddressEnd :=
  Nat.le_trans h.erdpt.1 h.erdpt.2

theorem InRing.read (h : InRing cfg s) {p : ℕ} (hp : Inside cfg p) (bytes : List Byte) :
    InRing cfg (s.read p bytes) :=
  ⟨h.erxst, h.erxnd, hp⟩

theorem InRing.quiet (h : InRing cfg s) {t : Pointers} (ht : Quiet cfg s t) :
    InRing cfg t ∧ t.served = s.served := by
  rcases ht with rfl | rfl
  · exact ⟨h, rfl⟩
  · exact ⟨⟨h.erxst, h.erxnd, h.erdpt⟩, rfl⟩

theorem quiet_erxrdpt (order : cfg.rxAddressStart ≤ cfg.rxAddressEnd) {t : Pointers} (ht : Quiet cfg s t)
    (h : Inside cfg s.erxrdpt) : Inside cfg t.erxrdpt := by
  rcases ht with rfl | rfl
  · exact h
  · exact ⟨order, Nat.le_refl _⟩

/-- A header that is refused leaves ERDPT behind it, still in the ring. -/
theorem lands_refused (h : InRing cfg s) {p : ℕ} (hp : Inside cfg p) {hdr : Fin 7 → Byte}
    (hno : (⟨hdr 3, hdr 4, hdr 5, hdr 6⟩ : ReceiveStatusVector).receivedOk = true →
      ¬ (⟨hdr 3, hdr 4, hdr 5, hdr 6⟩ : ReceiveStatusVector).packetLen ≤ bufSize) {w : World NoisyChip}
    (hw : InBank noisyCore (At (s.read p (header hdr))) 0 w) : Lands cfg bufSize agree s w := by
  have hnext : NextInRing cfg bufSize (header hdr ++ []) :=
    (nextInRing_header hdr []).mpr fun hok hle => absurd hle (hno hok)
  rw [List.append_nil] at hnext
  exact ⟨_, header hdr, rfl, hw.idle, fun hin => hin, Or.inl ⟨h.read hp _, hnext⟩⟩

/-- The packet is taken: ERDPT goes wherever the header says. -/
theorem lands_taken (top : cfg.rxAddressEnd < 0x2000) (h : InRing cfg s) (p : ℕ) {hdr : Fin 7 → Byte}
    (rest : List Byte) (hok : (⟨hdr 3, hdr 4, hdr 5, hdr 6⟩ : ReceiveStatusVector).receivedOk = true)
    (hle : (⟨hdr 3, hdr 4, hdr 5, hdr 6⟩ : ReceiveStatusVector).packetLen ≤ bufSize) {w : World NoisyChip}
    (hw : InBank noisyCore (At (((s.read p (header hdr ++ rest)).setErdpt
      (word (hdr 2 &&& 0x1F) (hdr 1)).toNat).setErxrdpt
        (erxrdptFor cfg (word (hdr 2 &&& 0x1F) (hdr 1))).toNat)) 0 w) : Lands cfg bufSize agree s w := by
  have hpp := erxrdptFor_inside (h.order) top (word (hdr 2 &&& 0x1F) (hdr 1))
  refine ⟨_, header hdr ++ rest, rfl, hw.idle, fun _ => hpp, ?_⟩
  by_cases hin : Inside cfg (word (hdr 2 &&& 0x1F) (hdr 1)).toNat
  · exact Or.inl ⟨⟨h.erxst, h.erxnd, hin⟩, (nextInRing_header hdr rest).mpr fun _ _ => hin⟩
  · refine Or.inr ⟨⟨?_, hin⟩, fun hnext => hin ((nextInRing_header hdr rest).mp hnext hok hle)⟩
    change (word (hdr 2 &&& 0x1F) (hdr 1)).toNat < 0x2000
    rw [← pointer_bytes (hdr 1) (hdr 2) 0]
    unfold setHigh
    omega

theorem readPacketBody_at (hc : canWrite ctx = true) (top : cfg.rxAddressEnd < 0x2000) (h : InRing cfg s)
    {p : ℕ} (hp : Inside cfg p) (hdr : Fin 7 → Byte) :
    Bank noisyCore (InBank noisyCore (At (s.read p (header hdr))) 0)
      (readPacketBody cfg ctx packetBuf bufSize optStatusVec hdr)
      (fun r w => r.status ≠ .readPtrOutOfRange ∧ Lands cfg bufSize agree s w) fun _ => False := by
  have hrcv : CommandStatus.packetRcvErr ≠ .readPtrOutOfRange := by decide
  have hsmall : CommandStatus.bufferTooSmall ≠ .readPtrOutOfRange := by decide
  have hok : CommandStatus.ok ≠ .readPtrOutOfRange := by decide
  unfold readPacketBody
  simp only [bind_eq, pure_eq]
  split_ifs with hbad hlong
  · refine Triple.ret fun w hw => ⟨hrcv, lands_refused h hp (fun hok => ?_) hw⟩
    rw [hok] at hbad
    cases hbad
  · exact Triple.ret fun w hw => ⟨hsmall, lands_refused h hp (fun _ => BitVec.not_le.mpr hlong) hw⟩
  · let Read : NoisyChip → Prop := fun c => ∃ q bytes, At (s.read q (header hdr ++ bytes)) c
    have hRead : EnvClosed noisyCore Read := by
      rintro c d ⟨q, bytes, hat⟩ hd
      exact ⟨q, bytes, at_closed _ c d hat hd⟩
    refine packetBurst_rule (H := fun _ => Read) noisy_laws (fun _ => hRead) (fun c hat => ?_)
      fun packet w hw => ?_
    · obtain ⟨q, -, hq⟩ := drained_at top (h.read hp _) hat (⟨hdr 3, hdr 4, hdr 5, hdr 6⟩ :
        ReceiveStatusVector).packetLen.toNat
      rw [read_read] at hq
      exact ⟨q, _, hq⟩
    · obtain ⟨hphase, ⟨q, rest, hat⟩, hbank⟩ := hw
      refine wp_seq (releasePacket_at hc h.order top (hdr 1) (hdr 2) w ⟨hphase, hat, hbank⟩)
        (fun u hu => hu) fun status u hu => ?_
      by_cases hs : status = .ok
      · subst hs
        refine ⟨hok, lands_taken top h q rest ?_ ?_ hu⟩
        · simpa using hbad
        · exact BitVec.not_lt.mp hlong
      · exact absurd hu (by rw [ends, okOr_err _ _ hs]; exact fun h => h)

/-- A call that starts in the ring. -/
theorem readPacket_lands (top : cfg.rxAddressEnd < 0x2000) (h : InRing cfg s) (e : Byte) :
    Bank noisyCore (Idle noisyCore (fun c => At s c ∧ c.eir = e) agree)
      (enc28ReadPacket cfg ctx packetBuf bufSize optStatusVec)
      (fun r w => (canWrite ctx = true → e.getLsbD eirPktif = true → r.status ≠ .readPtrOutOfRange) ∧
        Lands cfg bufSize agree s w) fun _ => canWrite ctx = false := by
  refine readPacket_at top (fun hc _ => ?_) fun hno r t w ht hw => ⟨fun hc he => absurd ⟨hc, he⟩ hno, ?_⟩
  · refine readPacketPending_at hc (inside_lt top h.erdpt) e (fun hout => absurd h.erdpt hout) fun hin => ?_
    let Read : (Fin 7 → Byte) → NoisyChip → Prop := fun hdr c =>
      ∃ p, Inside cfg p ∧ At (s.read p (header hdr)) c
    have hRead : ∀ hdr, EnvClosed noisyCore (Read hdr) := by
      rintro hdr c d ⟨p, hp, hat⟩ hd
      exact ⟨p, hp, at_closed _ c d hat hd⟩
    refine statusBurst_rule (H := Read) noisy_laws hRead (fun c hdr hat hbytes => ?_) fun hdr w hw => ?_
    · obtain ⟨p, hp, hread⟩ := drained_at top h hat 6
      have hheader : header hdr = (List.range 6).map (noisyCore.bufByte c) := by
        change List.ofFn (fun i : Fin 6 => hdr i.succ) = _
        rw [funext hbytes]
        rfl
      rw [← hheader] at hread
      exact ⟨p, hp, hread⟩
    · obtain ⟨hphase, ⟨p, hp, hat⟩, hbank⟩ := hw
      exact Triple.conseq (readPacketBody_at hc top h hp hdr) (fun _ h => h)
        (fun r w hr => ⟨fun _ _ => hr.1, hr.2⟩) (fun _ h => h) w ⟨hphase, hat, hbank⟩
  · obtain ⟨hin, hserved⟩ := h.quiet ht
    exact ⟨t, [], by rw [hserved, List.append_nil], hw, quiet_erxrdpt h.order ht, Or.inl ⟨hin, nextInRing_nil⟩⟩

/-- Once ERDPT is astray it stays where it is, and a pending packet is not looked at. -/
theorem readPacket_astray (order : cfg.rxAddressStart ≤ cfg.rxAddressEnd) (top : cfg.rxAddressEnd < 0x2000)
    (h : Astray cfg s) (e : Byte) :
    Bank noisyCore (Idle noisyCore (fun c => At s c ∧ c.eir = e) agree)
      (enc28ReadPacket cfg ctx packetBuf bufSize optStatusVec)
      (fun r w => (canWrite ctx = true → e.getLsbD eirPktif = true → r.status = .readPtrOutOfRange) ∧
        ∃ t, (Inside cfg s.erxrdpt → Inside cfg t.erxrdpt) ∧ Astray cfg t ∧ Idle noisyCore (At t) agree w)
      fun _ => canWrite ctx = false := by
  refine readPacket_at top (fun hc _ => ?_) fun hno r t w ht hw => ⟨fun hc he => absurd ⟨hc, he⟩ hno, ?_⟩
  · refine readPacketPending_at hc h.1 e (fun _ w hw => ?_) fun hin => absurd hin h.2
    exact ⟨fun _ _ => rfl, s, fun hin => hin, h, hw.idle⟩
  · refine ⟨t, quiet_erxrdpt order ht, ?_, hw⟩
    rcases ht with rfl | rfl
    · exact h
    · exact h

end

structure ReadCall where
  ctx : Option SpiContext
  packetBuf : List Byte
  bufSize : Word
  optStatusVec : Option ReceiveStatusVector

def ReadCall.prog (cfg : Conf) (call : ReadCall) : Driver ReadResult :=
  enc28ReadPacket cfg call.ctx call.packetBuf call.bufSize call.optStatusVec

abbrev ReadRecord := CallRecord Call (World NoisyChip) ReadCall ReadResult

abbrev ReadSession (cfg : Conf) := Session (busMachine noisyCore) (ReadCall.prog cfg)

/-- PKTIF is set when the call begins, and the callbacks are there. -/
def Pending (r : ReadRecord) : Prop :=
  canWrite r.op.ctx = true ∧ r.before.chip.eir.getLsbD eirPktif = true

/-- The bytes that the call has read from the buffer. -/
def received (r : ReadRecord) : List Byte := r.after.chip.served.drop r.before.chip.served.length

/-- Whatever the chip does from here on, every call with a pending packet fails. -/
def LockedOut (cfg : Conf) (u : World NoisyChip) : Prop :=
  ∀ d, ReflTransGen NoisyStep u.chip d → ∀ rs v, ReadSession cfg { u with chip := d } rs v →
    ∀ r ∈ rs, Pending r → r.result.status = .readPtrOutOfRange

section
variable {cfg : Conf} {u v : World NoisyChip} {rs : List ReadRecord} {r : ReadRecord}

theorem idle_at (idle : u.phase = .high) :
    Idle noisyCore (fun c => At u.chip.pointers c ∧ c.eir = u.chip.eir) false u :=
  Idle.unbanked idle ⟨rfl, rfl⟩

theorem call_lands (top : cfg.rxAddressEnd < 0x2000) (idle : r.before.phase = .high)
    (h : InRing cfg r.before.chip.pointers)
    (run : Exec (busMachine noisyCore) (r.op.prog cfg) r.before r.trace (some r.result) r.after) :
    (Pending r → r.result.status ≠ .readPtrOutOfRange) ∧
      Lands cfg r.op.bufSize false r.before.chip.pointers r.after := by
  obtain ⟨hstatus, hlands⟩ := (Triple.sound (readPacket_lands top h r.before.chip.eir) (idle_at idle) run).2
  exact ⟨fun hp => hstatus hp.1 hp.2, hlands⟩

theorem call_astray (order : cfg.rxAddressStart ≤ cfg.rxAddressEnd) (top : cfg.rxAddressEnd < 0x2000)
    (idle : r.before.phase = .high) (h : Astray cfg r.before.chip.pointers)
    (run : Exec (busMachine noisyCore) (r.op.prog cfg) r.before r.trace (some r.result) r.after) :
    (Pending r → r.result.status = .readPtrOutOfRange) ∧ r.after.phase = .high ∧
      Astray cfg r.after.chip.pointers ∧
      (Inside cfg r.before.chip.base.erxrdpt → Inside cfg r.after.chip.base.erxrdpt) := by
  obtain ⟨hstatus, t, hrd, ht, hphase, hat, -⟩ :=
    (Triple.sound (readPacket_astray order top h r.before.chip.eir) (idle_at idle) run).2
  obtain rfl : r.after.chip.pointers = t := hat
  exact ⟨fun hp => hstatus hp.1 hp.2, hphase, ht, hrd⟩

theorem pointers_kept {c d : NoisyChip} (h : ReflTransGen NoisyStep c d) : d.pointers = c.pointers :=
  env_keeps (at_closed c.pointers) (C := noisyCore) rfl h

/-- No call brings ERDPT back. -/
theorem locked_of_astray (order : cfg.rxAddressStart ≤ cfg.rxAddressEnd) (top : cfg.rxAddressEnd < 0x2000)
    (idle : u.phase = .high) (h : Astray cfg u.chip.pointers) : LockedOut cfg u := by
  intro d hd rs v run
  have hstart : Astray cfg d.pointers := by
    rw [pointers_kept hd]
    exact h
  let I : World NoisyChip → Prop := fun w => w.phase = .high ∧ Astray cfg w.chip.pointers
  refine (run.all (A := fun _ => True) (I := I) (fun _ _ => trivial) ⟨idle, hstart⟩ ?_).1
  intro r _ hr last
  obtain ⟨hstatus, hphase, hnext, -⟩ := call_astray order top hr.1 hr.2 last
  exact ⟨hstatus, hphase, hnext⟩

/-- In the ring, the next call with a pending packet looks at it. -/
theorem free_of_inRing (top : cfg.rxAddressEnd < 0x2000) (idle : u.phase = .high)
    (h : InRing cfg u.chip.pointers) : ¬ LockedOut cfg u := by
  intro hlocked
  let d : NoisyChip := { u.chip with eir := bit eirPktif }
  let w : World NoisyChip := { u with chip := d }
  let call : ReadCall := ⟨some fullContext, [], 0, none⟩
  have hd : ReflTransGen NoisyStep u.chip d := ReflTransGen.single ⟨rfl, rfl⟩
  have hctx : canWrite (some fullContext) = true := rfl
  have hpktif : (bit eirPktif).getLsbD eirPktif = true := by decide
  obtain ⟨t, o, v, run⟩ := (bus_total noisyCore).exec (call.prog cfg) w
  have hend := (Triple.sound (readPacket_lands top h d.eir) (idle_at (u := w) idle) run).2
  cases o with
  | none => exact absurd (hctx.symm.trans hend) (by decide)
  | some a =>
    have hsession : ReadSession cfg w [⟨call, w, t, a, v⟩] v := Session.nil.snoc run
    have hstatus := hlocked d hd _ v hsession _ List.mem_cons_self ⟨hctx, hpktif⟩
    exact hend.1 hctx hpktif hstatus

/-- How a call that starts in the ring ends: what becomes of ERDPT depends on the
header, what becomes of ERXRDPT does not. -/
theorem call_iff (top : cfg.rxAddressEnd < 0x2000) (idle : r.before.phase = .high)
    (h : InRing cfg r.before.chip.pointers)
    (run : Exec (busMachine noisyCore) (r.op.prog cfg) r.before r.trace (some r.result) r.after) :
    (NextInRing cfg r.op.bufSize (received r) ∧ InRing cfg r.after.chip.pointers ∧ ¬ LockedOut cfg r.after ∨
        ¬ NextInRing cfg r.op.bufSize (received r) ∧ Astray cfg r.after.chip.pointers ∧ LockedOut cfg r.after) ∧
      r.after.phase = .high ∧
      (Inside cfg r.before.chip.base.erxrdpt → Inside cfg r.after.chip.base.erxrdpt) := by
  obtain ⟨-, t, bytes, hserved, ⟨hphase, hat, -⟩, hrd, hcases⟩ := call_lands top idle h run
  obtain rfl : r.after.chip.pointers = t := hat
  have hafter : r.after.chip.served = r.before.chip.served ++ bytes := hserved
  have hreceived : received r = bytes := by
    unfold received
    rw [hafter, List.drop_left]
  rw [hreceived]
  refine ⟨?_, hphase, hrd⟩
  rcases hcases with ⟨hin, hnext⟩ | ⟨hastray, hnext⟩
  · exact Or.inl ⟨hnext, hin, free_of_inRing top hphase hin⟩
  · exact Or.inr ⟨hnext, hastray, locked_of_astray h.order top hphase hastray⟩

/-- ERXRDPT stays in the ring, wherever ERDPT goes. -/
theorem erxrdpt_stays (top : cfg.rxAddressEnd < 0x2000) (idle : u.phase = .high)
    (h : InRing cfg u.chip.pointers) (run : ReadSession cfg u rs v) (hrd : Inside cfg u.chip.base.erxrdpt) :
    ∀ r ∈ rs, Inside cfg r.after.chip.base.erxrdpt := by
  let I : World NoisyChip → Prop := fun w => w.phase = .high ∧ Inside cfg w.chip.base.erxrdpt ∧
    (InRing cfg w.chip.pointers ∨ Astray cfg w.chip.pointers)
  refine (run.all (A := fun _ => True) (I := I) (fun _ _ => trivial) ⟨idle, hrd, Or.inl h⟩ ?_).1
  intro r _ hr last
  obtain ⟨hphase, hin, hcases⟩ := hr
  rcases hcases with hring | hastray
  · obtain ⟨hends, hp, hkept⟩ := call_iff top hphase hring last
    exact ⟨hkept hin, hp, hkept hin, hends.imp (fun h => h.2.1) fun h => h.2.1⟩
  · obtain ⟨-, hp, hends, hkept⟩ := call_astray h.order top hphase hastray last
    exact ⟨hkept hin, hp, hkept hin, Or.inr hends⟩

/-- ERDPT stays in the ring, and reception is never locked out, exactly if every
packet that is taken points to a next packet in the receive buffer. -/
theorem headers_iff (top : cfg.rxAddressEnd < 0x2000) (idle : u.phase = .high)
    (h : InRing cfg u.chip.pointers) (run : ReadSession cfg u rs v) :
    ((∀ r ∈ rs, Inside cfg r.after.chip.base.erdpt) ↔ ∀ r ∈ rs, NextInRing cfg r.op.bufSize (received r)) ∧
      ((∀ r ∈ rs, ¬ LockedOut cfg r.after) ↔ ∀ r ∈ rs, NextInRing cfg r.op.bufSize (received r)) ∧
      (Inside cfg u.chip.base.erxrdpt → ∀ r ∈ rs, Inside cfg r.after.chip.base.erxrdpt) := by
  let I : World NoisyChip → Prop := fun w => w.phase = .high ∧ InRing cfg w.chip.pointers
  have hstep : ∀ r : ReadRecord, I r.before →
      Exec (busMachine noisyCore) (r.op.prog cfg) r.before r.trace (some r.result) r.after →
      (Inside cfg r.after.chip.base.erdpt ↔ NextInRing cfg r.op.bufSize (received r)) ∧
        (¬ LockedOut cfg r.after ↔ NextInRing cfg r.op.bufSize (received r)) ∧
        (NextInRing cfg r.op.bufSize (received r) → I r.after) := by
    intro r hr last
    obtain ⟨⟨hnext, hin, hfree⟩ | ⟨hnext, hastray, hlocked⟩, hphase, -⟩ := call_iff top hr.1 hr.2 last
    · exact ⟨iff_of_true hin.erdpt hnext, iff_of_true hfree hnext, fun _ => ⟨hphase, hin⟩⟩
    · exact ⟨iff_of_false hastray.2 hnext, iff_of_false (fun hfree => hfree hlocked) hnext,
        fun hn => absurd hn hnext⟩
  refine ⟨?_, ?_, erxrdpt_stays top idle h run⟩
  · refine (Session.forall_iff (I := I) run (A := fun _ => True) (fun _ _ => trivial) ⟨idle, h⟩ ?_).1
    intro r _ hr last
    exact ⟨(hstep r hr last).1, (hstep r hr last).2.2⟩
  · refine (Session.forall_iff (I := I) run (A := fun _ => True) (fun _ _ => trivial) ⟨idle, h⟩ ?_).1
    intro r _ hr last
    exact ⟨(hstep r hr last).2.1, (hstep r hr last).2.2⟩

end

/-- A chip with a packet of no bytes at the start of the receive buffer. -/
def oneHeader (nextLo nextHi : Byte) : World NoisyChip where
  chip :=
    { base :=
        { econ1 := 0, erdpt := 0x7D0, ewrpt := 0, etxst := 0, etxnd := 0, erxst := 0x7D0, erxnd := 0x1EFF
          erxrdptl := 0xFF, erxrdpt := 0x1EFF, erxwrpt := 0x7D0, epktcnt := 1
          mem := fun a => if a = 0x7D0 then nextLo else if a = 0x7D1 then nextHi else if a = 0x7D4 then 0x80 else 0
          regs := fun _ => 0, dummy := 0, stored := [], seen := none }
      eir := bit eirPktif
      served := [] }
  phase := .high
  currBank := 0

/-- What a call of the reader shows. -/
structure Shown where
  bytes : List Byte
  bufSize : Word
  status : CommandStatus
  erdpt : ℕ
  phase : SpiPhase
  deriving DecidableEq

def shown (r : ReadRecord) : Shown :=
  ⟨received r, r.op.bufSize, r.result.status, r.after.chip.base.erdpt, r.after.phase⟩

theorem oneHeader_run (nextLo nextHi : Byte) (x : Shown)
    (h : (runCalls (ReadCall.prog {}) [(⟨some fullContext, [], 0, none⟩, busDevice noisyCore id)]
      (oneHeader nextLo nextHi)).map (fun y => y.1.map shown) = some [x]) :
    ∃ r v, ReadSession {} (oneHeader nextLo nextHi) [r] v ∧ shown r = x := by
  have steps : ∀ y ∈ [((⟨some fullContext, [], 0, none⟩ : ReadCall), busDevice noisyCore id)], ∀ e w,
      busMachine noisyCore e w (y.2 e w).1 (y.2 e w).2 := by
    intro y hy e w
    obtain rfl := List.mem_singleton.mp hy
    exact busDevice_step noisyCore (fun _ => ReflTransGen.refl) e w
  obtain ⟨rs, v, hs, hv⟩ := runCalls_shows steps h
  obtain ⟨r, rfl, hr⟩ := List.map_eq_singleton_iff.mp hv
  exact ⟨r, v, hs, hr⟩

/-- The packet points right behind itself. -/
theorem headers_iff_behind : ∃ u v r, ReadSession {} u [r] v ∧ received r = [0xD6, 0x07, 0, 0, 0x80, 0] ∧
    r.result.status = .ok ∧ Inside {} r.after.chip.base.erdpt ∧ ¬ LockedOut {} r.after := by
  obtain ⟨r, v, hs, hr⟩ := oneHeader_run 0xD6 0x07 ⟨[0xD6, 0x07, 0, 0, 0x80, 0], 0, .ok, 0x7D6, .high⟩
    (by decide +kernel)
  obtain ⟨hbytes, hsize, hstatus, -, -⟩ := Shown.mk.inj hr
  have hnext : NextInRing {} 0 [0xD6, 0x07, 0, 0, 0x80, 0] := by
    intro nextLo nextHi v rest he _ _
    simp only [List.cons_append, List.cons.injEq] at he
    obtain ⟨rfl, rfl, -⟩ := he
    exact ⟨by decide, by decide⟩
  obtain ⟨hin, hfree, -⟩ := headers_iff (by decide) rfl ⟨rfl, rfl, by decide, by decide⟩ hs
  have hall : ∀ r' ∈ [r], NextInRing {} r'.op.bufSize (received r') := by
    intro r' hr'
    obtain rfl := List.mem_singleton.mp hr'
    rw [hbytes, hsize]
    exact hnext
  exact ⟨_, v, r, hs, hbytes, hstatus, hin.mpr hall r List.mem_cons_self, hfree.mpr hall r List.mem_cons_self⟩

/-- The packet points to address 0: it is taken, and no later one will be. -/
theorem headers_fail : ∃ u v r, ReadSession {} u [r] v ∧ u.phase = .high ∧ InRing {} u.chip.pointers ∧
    Inside {} u.chip.base.erxrdpt ∧ received r = [0, 0, 0, 0, 0x80, 0] ∧ r.result.status = .ok ∧
    ¬ Inside {} r.after.chip.base.erdpt ∧ LockedOut {} r.after := by
  obtain ⟨r, v, hs, hr⟩ := oneHeader_run 0 0 ⟨[0, 0, 0, 0, 0x80, 0], 0, .ok, 0, .high⟩ (by decide +kernel)
  obtain ⟨hbytes, -, hstatus, herdpt, hphase⟩ := Shown.mk.inj hr
  have hout : ¬ Inside {} r.after.chip.base.erdpt := by
    rw [herdpt]
    exact fun h => absurd h.1 (by decide)
  have hlow : r.after.chip.base.erdpt < 0x2000 := by
    rw [herdpt]
    decide
  exact ⟨_, v, r, hs, rfl, ⟨rfl, rfl, by decide, by decide⟩, ⟨by decide, by decide⟩, hbytes, hstatus, hout,
    locked_of_astray (by decide) (by decide) hphase ⟨hlow, hout⟩⟩

end Stm32NetworkStack.GarbageHeaders
