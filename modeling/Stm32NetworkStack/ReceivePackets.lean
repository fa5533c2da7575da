import Stm32NetworkStack.DriverBanks
import Stm32NetworkStack.ReceiveStream

set_option autoImplicit false

/-!
# The driver on the receive buffer

Each driver function that touches the receive registers is followed through the
log of frames: `enc28_read_packet` takes one frame off it, the transmit functions
leave it alone.
-/
namespace Stm32NetworkStack.ReceivePackets
open InteractivePrograms Enc28Registers Enc28Driver SpiBus BankDiscipline DriverBanks RingLog
open ReceiveLogic ReceiveStream Relation

/-- A frame that `enc28_read_packet` accepts into a buffer of `bufSize` bytes. -/
def Frame.good (f : Frame) (bufSize : Word) : Prop :=
  f.vector.receivedOk = true ∧ f.len ≤ bufSize.toNat

theorem word_pointer {p : ℕ} (h : p < 0x2000) :
    (word (highAddr p &&& 0x1F) (lowByte p)).toNat = p := by
  rw [word_toNat, lowByte_toNat, show (0x1F : Byte) = spiArgMask from rfl, spiArgMask_toNat,
    highAddr_toNat]
  omega

theorem packetLen_toNat (f : Frame) : f.vector.packetLen.toNat = f.len := by
  have hs := f.short
  have hl : f.len = f.data.length := rfl
  simp only [ReceiveStatusVector.packetLen, Frame.vector, word_toNat, lowByte_toNat,
    BitVec.toNat_ofNat]
  omega

section
variable {cfg : Conf} {arrives : Frame → Prop} {done before : List Frame} {x extra : ℕ} {f : Frame}
  {c d : RxChip}

theorem cell_lt (layout : Layout cfg) (y : ℕ) : (rxRing cfg).cell y < 0x2000 := by
  have h := (cell_range layout y).2
  have ht := layout.top
  omega

theorem erxrdptFor_cell (layout : Layout cfg) (y : ℕ) {pp : Word}
    (hpp : pp.toNat = (rxRing cfg).cell y) :
    (erxrdptFor cfg pp).toNat = (rxRing cfg).cell (y + ((rxRing cfg).size - 1)) := by
  have hy := cell_range layout y
  have ho := layout.order
  have ht := layout.top
  have hpos := (rxRing cfg).pos
  have hsize : (rxRing cfg).size = cfg.rxAddressEnd - cfg.rxAddressStart + 1 := rfl
  have hz := cell_range layout (y + ((rxRing cfg).size - 1))
  have hstep := cell_ahead (rxRing cfg) y (d := (rxRing cfg).size - 1) (by omega)
  unfold erxrdptFor
  split_ifs with h
  · rw [BitVec.toNat_ofNat]
    omega
  · have h1 : (1 : Word).toNat = 1 := rfl
    rw [BitVec.toNat_sub, h1, hpp]
    omega

theorem receiving_release (h : Receiving cfg arrives done x extra c) {p : ℕ}
    (hp : p = (rxRing cfg).cell (x + ((rxRing cfg).size - 1))) :
    Receiving cfg arrives done x extra { c with erxrdpt := p } := by
  obtain ⟨hst, hnd, ht, harr, pending, free, last, hs, hcnt, hlog, hfree, hlast, hwr, hrd⟩ := h
  exact ⟨hst, hnd, ht, harr, pending, x, last, hs, hcnt, hlog, Nat.le_refl x, by omega, hwr, hp⟩

theorem receiving_count (h : Receiving cfg arrives done x (extra + 1) c) :
    Receiving cfg arrives done x extra { c with epktcnt := c.epktcnt - 1 } := by
  obtain ⟨hst, hnd, ht, harr, pending, free, last, hs, hcnt, hrest⟩ := h
  refine ⟨hst, hnd, ht, harr, pending, free, last, hs, ?_, hrest⟩
  change c.epktcnt - 1 = _
  omega

/-- The bank switch writes back a TXRTS that was set when ECON1 was read. -/
theorem receiving_switch (layout : Layout cfg) (h : Receiving cfg arrives done x extra c) {b : Byte}
    (hb : b.toNat < 4) (hd : ReflTransGen (RxStep arrives) c d) :
    Receiving cfg arrives done x extra { d with econ1 := econ1WithBank c.econ1 b } := by
  have hkept : Receiving cfg arrives done x extra d ∧ d.etxnd = c.etxnd := by
    induction hd with
    | refl => exact ⟨h, rfl⟩
    | tail _ hs ih => exact ⟨receiving_closed layout _ _ ih.1 hs, (kept_step hs).etxnd.trans ih.2⟩
  refine ⟨hkept.1.erxst, hkept.1.erxnd, fun hon => ?_, hkept.1.arrived, hkept.1.log⟩
  have hread : c.econ1.getLsbD econ1Txrts = true := (econ1WithBank_txrts c.econ1 b hb).symm.trans hon
  exact hkept.2.symm ▸ h.transmit hread

theorem writeReg_bank0 {a v : Byte} (hb : c.bsel = 0) (ha : a ≠ 0x1F) :
    c.writeReg a v = c.writeBank0 a v := by
  unfold RxChip.writeReg
  rw [if_neg ha, if_pos hb]

/-- EIE, EIR, ESTAT and ECON2 are registers that the ring does not depend on. -/
theorem writeReg_shared {a v : Byte} (hb : c.bsel = 0) (ha : 0x1B ≤ a.toNat) (h1F : a ≠ 0x1F) :
    c.writeReg a v = { c with regs := Function.update c.regs (0, a) v } := by
  rw [writeReg_bank0 hb h1F]
  unfold RxChip.writeBank0
  split <;> first | rfl | omega

theorem readReg_bank0 {a : Byte} (hb : c.bsel = 0) (h1F : a ≠ 0x1F) (h1C : a ≠ 0x1C) :
    c.readReg a = c.readBank0 a := by
  unfold RxChip.readReg
  rw [if_neg h1F, if_neg h1C, if_pos hb]

end

section
variable {cfg : Conf} {arrives : Frame → Prop} {P P' : RxChip → Prop} {V : Byte → RxChip → Prop}
  {ctx : Option SpiContext} {agree : Bool} {reg : CtlReg}

/-- With all callbacks present no register access fails. -/
theorem write_sure (hc : canWrite ctx = true) (hr : reg.bank = some 0) (value : Byte)
    (closed : EnvClosed (rxCore arrives) P') (h : ∀ c, P c → P' (c.writeBank0 reg.addr value)) :
    Spec (rxCore arrives) (InBank (rxCore arrives) P 0) (enc28DoWriteCtlReg ctx reg value)
      (InBank (rxCore arrives) P' 0) (fun _ => False) := by
  refine Spec.sure hc (write_rule (rx_laws arrives) hr value closed fun c hP hb => ?_)
  change P' (c.writeReg reg.addr value)
  rw [writeReg_bank0 hb (bank_ne_econ1 hr)]
  exact h c hP

theorem select_sure (hc : canWrite ctx = true) {b : Byte} (hb : b.toNat < 4)
    (closed : EnvClosed (rxCore arrives) P)
    (h : ∀ c d, P c → ReflTransGen (RxStep arrives) c d →
      P { d with econ1 := econ1WithBank c.econ1 b }) :
    Spec (rxCore arrives) (Idle (rxCore arrives) P agree) (enc28SelectRegisterBank ctx b)
      (InBank (rxCore arrives) P b) (fun _ => False) :=
  Spec.sure hc (select_rule (rx_laws arrives) hb closed (fun _ hP => hP) closed h)

end

/-- A pointer whose two bytes are registers of bank 0. -/
structure PointerReg where
  lo : CtlReg
  hi : CtlReg
  get : RxChip → ℕ
  set : RxChip → ℕ → RxChip
  bank : lo.bank = some 0 ∧ hi.bank = some 0
  get_set : ∀ c p, get (set c p) = p
  set_set : ∀ c p q, set (set c p) q = set c q
  write_lo : ∀ c v, c.writeBank0 lo.addr v = set c (setLow (get c) v)
  write_hi : ∀ c v, c.writeBank0 hi.addr v = set c (setHigh (get c) v)
  kept : ∀ c d, Kept c d → get d = get c

def erdptReg : PointerReg where
  lo := .erdptl
  hi := .erdpth
  get := RxChip.erdpt
  set := fun c p => { c with erdpt := p }
  bank := ⟨rfl, rfl⟩
  get_set := fun _ _ => rfl
  set_set := fun _ _ _ => rfl
  write_lo := fun _ _ => rfl
  write_hi := fun _ _ => rfl
  kept := fun _ _ hk => hk.erdpt

section
variable {arrives : Frame → Prop} {B B' : RxChip → Prop} {A : World RxChip → Prop}
  {ctx : Option SpiContext} {q : ℕ} {k : Driver CommandStatus}

theorem pointer_lo (r : PointerReg) (hc : canWrite ctx = true) (q : ℕ)
    (hB : EnvClosed (rxCore arrives) B) (hset : ∀ c p, B c → B (r.set c p)) :
    Spec (rxCore arrives) (InBank (rxCore arrives) B 0) (enc28DoWriteCtlReg ctx r.lo (lowByte q))
      (InBank (rxCore arrives) (fun c => B c ∧ r.get c % 256 = q % 256) 0) (fun _ => False) := by
  refine write_sure hc r.bank.1 _ (and_closed hB fun c d hk h => (r.kept c d hk).symm ▸ h)
    fun c hb => ?_
  rw [r.write_lo]
  refine ⟨hset c _ hb, ?_⟩
  rw [r.get_set, setLow, lowByte_toNat]
  omega

theorem pointer_hi (r : PointerReg) (hc : canWrite ctx = true) (hq : q < 0x2000)
    (hB' : EnvClosed (rxCore arrives) B') (h : ∀ c, B c → B' (r.set c q)) :
    Spec (rxCore arrives) (InBank (rxCore arrives) (fun c => B c ∧ r.get c % 256 = q % 256) 0)
      (enc28DoWriteCtlReg ctx r.hi (highAddr q)) (InBank (rxCore arrives) B' 0)
      (fun _ => False) := by
  refine write_sure hc r.bank.2 _ hB' fun c hb => ?_
  have hset : setHigh (r.get c) (highAddr q) = q := by
    unfold setHigh
    rw [highAddr_toNat]
    omega
  rw [r.write_hi, hset]
  exact h c hb.1

theorem movePointer (r : PointerReg) (hc : canWrite ctx = true) (hq : q < 0x2000)
    (hB : EnvClosed (rxCore arrives) B) (hset : ∀ c p, B c → B (r.set c p))
    (hB' : EnvClosed (rxCore arrives) B') (h : ∀ c, B c → B' (r.set c q))
    (hk : Spec (rxCore arrives) (InBank (rxCore arrives) B' 0) k A (fun _ => False)) :
    Spec (rxCore arrives) (InBank (rxCore arrives) B 0)
      (exitIfErr (enc28DoWriteCtlReg ctx r.lo (lowByte q)) <|
        exitIfErr (enc28DoWriteCtlReg ctx r.hi (highAddr q)) k) A (fun _ => False) :=
  (pointer_lo r hc q hB hset).exit ((pointer_hi r hc hq hB' h).exit hk)

theorem erxrdpt_lo (hc : canWrite ctx = true) (q : ℕ) (hB : EnvClosed (rxCore arrives) B)
    (hlatch : ∀ c v, B c → B { c with erxrdptl := v }) :
    Spec (rxCore arrives) (InBank (rxCore arrives) B 0)
      (enc28DoWriteCtlReg ctx .erxrdptl (lowByte q))
      (InBank (rxCore arrives) (fun c => B c ∧ c.erxrdptl = lowByte q) 0) (fun _ => False) := by
  have hhalf : EnvClosed (rxCore arrives) (fun c => B c ∧ c.erxrdptl = lowByte q) :=
    and_closed hB fun c d hk h => hk.erxrdptl.trans h
  exact write_sure hc rfl _ hhalf fun c hb => ⟨hlatch c _ hb, rfl⟩

/-- ERXRDPT takes effect as a whole. -/
theorem erxrdpt_hi (hc : canWrite ctx = true) (hq : q < 0x2000)
    (hB' : EnvClosed (rxCore arrives) B') (h : ∀ c, B c → B' { c with erxrdpt := q }) :
    Spec (rxCore arrives) (InBank (rxCore arrives) (fun c => B c ∧ c.erxrdptl = lowByte q) 0)
      (enc28DoWriteCtlReg ctx .erxrdpth (highAddr q)) (InBank (rxCore arrives) B' 0)
      (fun _ => False) := by
  refine write_sure hc rfl _ hB' fun c hb => ?_
  have hset : setHigh c.erxrdptl.toNat (highAddr q) = q := by
    unfold setHigh
    rw [highAddr_toNat, hb.2, lowByte_toNat]
    omega
  change B' { c with erxrdpt := setHigh c.erxrdptl.toNat (highAddr q) }
  rw [hset]
  exact h c hb.1

end

section
variable {cfg : Conf} {arrives : Frame → Prop} {done before : List Frame} {x : ℕ} {f : Frame}
  {ctx : Option SpiContext} {agree : Bool}

def AtFrame (done : List Frame) (f : Frame) (p : ℕ) (c : RxChip) : Prop :=
  c.erdpt = p ∧ done ++ [f] <+: c.stored ∧ c.seen = some f

theorem atFrame_kept {p : ℕ} {c d : RxChip} (hk : Kept c d) (h : AtFrame done f p c) :
    AtFrame done f p d :=
  ⟨hk.erdpt.trans h.1, h.2.1.trans hk.stored, hk.seen.trans h.2.2⟩

abbrev ReadingAt (cfg : Conf) (arrives : Frame → Prop) (done : List Frame) (f : Frame) (x p : ℕ)
    (c : RxChip) : Prop :=
  Receiving cfg arrives done x 0 c ∧ AtFrame done f p c

abbrev Passed (cfg : Conf) (arrives : Frame → Prop) (done : List Frame) (x : ℕ) (c : RxChip) : Prop :=
  Receiving cfg arrives done x 0 c ∧ c.erdpt = (rxRing cfg).cell x ∧ c.seen = done.getLast?

/-- The seven bytes of the header burst, the first of which is not from the buffer. -/
structure HeaderOf (cfg : Conf) (x : ℕ) (f : Frame) (hdr : Fin 7 → Byte) : Prop where
  nextLo : hdr 1 = lowByte ((rxRing cfg).cell (x + f.width))
  nextHi : hdr 2 = highAddr ((rxRing cfg).cell (x + f.width))
  vector : (⟨hdr 3, hdr 4, hdr 5, hdr 6⟩ : ReceiveStatusVector) = f.vector

theorem header_of_holds {mem : ℕ → Byte} (h : (rxRing cfg).Holds mem x (encode cfg x f))
    {hdr : Fin 7 → Byte} (hb : ∀ i : Fin 6, hdr i.succ = mem ((rxRing cfg).cell (x + i))) :
    HeaderOf cfg x f hdr := by
  have h1 : hdr 1 = _ := (hb 0).trans (h 0 _ rfl)
  have h2 : hdr 2 = _ := (hb 1).trans (h 1 _ rfl)
  have h3 : hdr 3 = _ := (hb 2).trans (h 2 _ rfl)
  have h4 : hdr 4 = _ := (hb 3).trans (h 3 _ rfl)
  have h5 : hdr 5 = _ := (hb 4).trans (h 4 _ rfl)
  have h6 : hdr 6 = _ := (hb 5).trans (h 5 _ rfl)
  refine ⟨h1, h2, ?_⟩
  rw [h3, h4, h5, h6]
  rfl

theorem data_of_holds {mem : ℕ → Byte} (h : (rxRing cfg).Holds mem x (encode cfg x f)) {n : ℕ}
    (hn : n = f.len) :
    List.ofFn (fun i : Fin n => mem ((rxRing cfg).cell (x + 6 + i))) = f.data := by
  subst hn
  refine List.ext_getElem (by simp [Frame.len]) fun i hi hi' => ?_
  rw [List.getElem_ofFn, show x + 6 + i = x + (6 + i) by omega]
  refine h (6 + i) _ ?_
  rw [encode, Frame.bytes, List.getElem?_append_right (by simp), List.getElem?_eq_getElem (by simpa using hi')]
  simp

theorem passed_closed (layout : Layout cfg) : EnvClosed (rxCore arrives) (Passed cfg arrives done x) :=
  and_closed (receiving_closed layout) fun _ _ hk h => ⟨hk.erdpt.trans h.1, hk.seen.trans h.2⟩

theorem readingAt_closed (layout : Layout cfg) (p : ℕ) :
    EnvClosed (rxCore arrives) (ReadingAt cfg arrives done f x p) :=
  and_closed (receiving_closed layout) fun _ _ => atFrame_kept

theorem releasePacket_passes (layout : Layout cfg) (hc : canWrite ctx = true) {hdr : Fin 7 → Byte}
    (hh : HeaderOf cfg x f hdr) {p : ℕ} :
    Spec (rxCore arrives) (InBank (rxCore arrives) (ReadingAt cfg arrives done f x p) 0)
      (releasePacket cfg ctx (hdr 1) (hdr 2))
      (InBank (rxCore arrives) (Passed cfg arrives (done ++ [f]) (x + f.width)) 0)
      (fun _ => False) := by
  have hcell := cell_lt layout (x + f.width)
  have hfor := erxrdptFor_cell layout (x + f.width) (word_pointer hcell)
  have hrd := cell_lt layout (x + f.width + ((rxRing cfg).size - 1))
  rw [hh.nextLo, hh.nextHi]
  generalize hy : x + f.width = y at *
  -- ERDPT may be anywhere while its bytes are written
  let Done : RxChip → Prop := fun c => Receiving cfg arrives done x 0 c ∧
    done ++ [f] <+: c.stored ∧ c.seen = some f
  let Moved : RxChip → Prop := fun c => Receiving cfg arrives (done ++ [f]) y 1 c ∧
    c.erdpt = (rxRing cfg).cell y ∧ c.seen = some f
  have hDone : EnvClosed (rxCore arrives) Done :=
    and_closed (receiving_closed layout) fun _ _ hk h => ⟨h.1.trans hk.stored, hk.seen.trans h.2⟩
  have hMoved : EnvClosed (rxCore arrives) Moved :=
    and_closed (receiving_closed layout) fun _ _ hk h => ⟨hk.erdpt.trans h.1, hk.seen.trans h.2⟩
  have hstart : Spec (rxCore arrives) (InBank (rxCore arrives) Done 0)
      (releasePacket cfg ctx (lowByte ((rxRing cfg).cell y)) (highAddr ((rxRing cfg).cell y)))
      (InBank (rxCore arrives) (Passed cfg arrives (done ++ [f]) y) 0) (fun _ => False) := by
    simp only [releasePacket, hfor]
    refine movePointer erdptReg hc hcell hDone (fun c q h => ⟨h.1.setErdpt q, h.2⟩) hMoved
      (fun c h => ⟨(hy ▸ (pending_frame h.1 h.2.1).2).setErdpt _, rfl, h.2.2⟩) ?_
    refine Spec.exit (erxrdpt_lo hc _ hMoved fun c v h => ⟨h.1.setErxrdptl v, h.2⟩) <|
      Spec.exit (erxrdpt_hi hc hrd hMoved fun c h => ⟨receiving_release h.1 rfl, h.2⟩) ?_
    refine Spec.sureBits hc (setBits_rule (rx_laws arrives) (by decide) (by decide) _ (by decide)
      (passed_closed layout) fun c h _ => ?_)
    exact ⟨receiving_count h.1, h.2.1, h.2.2.trans (by simp)⟩
  exact hstart.conseq (fun w hw => ⟨hw.1, ⟨hw.2.1.1, hw.2.1.2.2⟩, hw.2.2⟩) (fun _ h => h) fun _ h => h

/-- What a call does with the frame `f` at `x`. A frame that is not good is
refused with ERDPT behind its header. -/
def Takes (cfg : Conf) (arrives : Frame → Prop) (done : List Frame) (f : Frame) (x : ℕ)
    (packetBuf : List Byte) (bufSize : Word) (optStatusVec : Option ReceiveStatusVector)
    (agree : Bool) (r : ReadResult) (w : World RxChip) : Prop :=
  Frame.good f bufSize ∧ r = ⟨.ok, f.data ++ packetBuf.drop f.len, optStatusVec.map fun _ => f.vector⟩ ∧
      Idle (rxCore arrives) (Passed cfg arrives (done ++ [f]) (x + f.width)) agree w ∨
    ¬ Frame.good f bufSize ∧ (r.status = .packetRcvErr ∨ r.status = .bufferTooSmall) ∧
      Idle (rxCore arrives) (ReadingAt cfg arrives done f x ((rxRing cfg).cell (x + 6))) agree w

theorem readPacketBody_takes (layout : Layout cfg) (hc : canWrite ctx = true) {hdr : Fin 7 → Byte}
    (hh : HeaderOf cfg x f hdr) (packetBuf : List Byte) (bufSize : Word)
    (optStatusVec : Option ReceiveStatusVector) :
    Bank (rxCore arrives)
      (InBank (rxCore arrives) (ReadingAt cfg arrives done f x ((rxRing cfg).cell (x + 6))) 0)
      (readPacketBody cfg ctx packetBuf bufSize optStatusVec hdr)
      (Takes cfg arrives done f x packetBuf bufSize optStatusVec agree) (fun _ => False) := by
  have hvec := hh.vector
  unfold readPacketBody
  simp only [bind_eq, pure_eq]
  generalize (⟨hdr 3, hdr 4, hdr 5, hdr 6⟩ : ReceiveStatusVector) = v at hvec ⊢
  subst hvec
  have hlen := packetLen_toNat f
  split_ifs with hbad hlong
  · refine Triple.ret fun w hw => Or.inr ⟨fun hg => ?_, Or.inl rfl, hw.idle⟩
    rw [hg.1] at hbad
    cases hbad
  · refine Triple.ret fun w hw => Or.inr ⟨fun hg => ?_, Or.inr rfl, hw.idle⟩
    have hgt : bufSize.toNat < f.vector.packetLen.toNat := hlong
    have hle := hg.2
    omega
  · have hgood : Frame.good f bufSize := by
      have hle : ¬ bufSize.toNat < f.vector.packetLen.toNat := hlong
      exact ⟨by simpa using hbad, by omega⟩
    let n := f.vector.packetLen.toNat
    let Filled : (Fin n → Byte) → RxChip → Prop := fun packet c =>
      ReadingAt cfg arrives done f x ((rxRing cfg).cell (x + 6 + n)) c ∧ List.ofFn packet = f.data
    have hFilled : ∀ packet, EnvClosed (rxCore arrives) (Filled packet) := fun packet =>
      and_closed (readingAt_closed layout _) fun _ _ _ h => h
    refine packetBurst_rule (H := Filled) (rx_laws arrives) hFilled (fun c h => ?_) fun packet w hw => ?_
    · obtain ⟨hr, he, hp, hs⟩ := h
      have hbytes : (fun i : Fin n => (rxCore arrives).bufByte c i) =
          fun i : Fin n => c.mem ((rxRing cfg).cell (x + 6 + i)) :=
        funext fun i => bufByte_ring layout hr he i
      rw [hbytes, drained_ring layout hr he]
      exact ⟨⟨hr.setErdpt _, rfl, hp, hs⟩, data_of_holds (pending_frame hr hp).1 hlen⟩
    · have hreading : InBank (rxCore arrives)
          (ReadingAt cfg arrives done f x ((rxRing cfg).cell (x + 6 + n))) 0 w :=
        ⟨hw.1, hw.2.1.1, hw.2.2⟩
      refine wp_seq (releasePacket_passes layout hc hh w hreading) (fun u hu => hu) fun status u hu => ?_
      by_cases hs : status = .ok
      · subst hs
        refine Or.inl ⟨hgood, ?_, InBank.idle hu⟩
        rw [hw.2.1.2, hlen]
      · exact absurd hu (by rw [ends, okOr_err _ _ hs]; exact fun h => h)

theorem select_receiving (layout : Layout cfg) (hc : canWrite ctx = true) {extra : ℕ}
    {Q : RxChip → Prop} (hQ : ∀ c d, Kept c d → Q c → Q d)
    (hecon1 : ∀ c v, Q c → Q { c with econ1 := v }) :
    Spec (rxCore arrives)
      (Idle (rxCore arrives) (fun c => Receiving cfg arrives done x extra c ∧ Q c) agree)
      (enc28SelectRegisterBank ctx 0)
      (InBank (rxCore arrives) (fun c => Receiving cfg arrives done x extra c ∧ Q c) 0)
      (fun _ => False) := by
  have hclosed : EnvClosed (rxCore arrives) (fun c => Receiving cfg arrives done x extra c ∧ Q c) :=
    and_closed (receiving_closed layout) hQ
  refine select_sure hc (by decide) hclosed fun c d h hd => ?_
  exact ⟨receiving_switch layout h.1 (by decide) hd, hecon1 d _ (env_keeps hclosed h hd).2⟩

theorem read_sure (hc : canWrite ctx = true) (reg : CtlReg) (hr : reg.bank = some 0) (old : Byte)
    {P : RxChip → Prop} (hP : EnvClosed (rxCore arrives) P) {v : Byte}
    (hv : ∀ c, P c → c.readBank0 reg.addr = v) {X : World RxChip → Prop} :
    Bank (rxCore arrives) (InBank (rxCore arrives) P 0) (enc28DoReadCtlReg ctx reg (some old))
      (fun r w => r.1 = .ok ∧ r.2 = v ∧ InBank (rxCore arrives) P 0 w) X := by
  have hread := read_rule (rx_laws arrives) (V := fun u c => P c ∧ u = v) (X := X)
    (canRead_of_canWrite hc) reg hr old (fun u => and_closed hP fun _ _ _ h => h)
    fun c (hp : P c) hb => ?_
  · exact Triple.conseq hread (fun _ h => h)
      (fun r w h => ⟨h.1, h.2.2.1.2, h.2.1, h.2.2.1.1, h.2.2.2⟩) fun _ h => h
  · have h1C := bank_ne_eir hr
    have hsame : c.afterRead reg.addr = c := if_neg h1C
    change P (c.afterRead reg.addr) ∧ c.readReg reg.addr = v
    rw [hsame, readReg_bank0 hb (bank_ne_econ1 hr) h1C]
    exact ⟨hp, hv c hp⟩

theorem readPacketPending_takes (layout : Layout cfg) (hc : canWrite ctx = true)
    (packetBuf : List Byte) (bufSize : Word) (optStatusVec : Option ReceiveStatusVector)
    (val : Byte) :
    Bank (rxCore arrives)
      (Idle (rxCore arrives) (ReadingAt cfg arrives done f x ((rxRing cfg).cell x)) agree)
      (readPacketPending cfg ctx packetBuf bufSize optStatusVec val)
      (Takes cfg arrives done f x packetBuf bufSize optStatusVec agree) (fun _ => False) := by
  have hcell := cell_lt layout x
  have hrange := cell_range layout x
  unfold readPacketPending
  simp only [bind_eq, pure_eq]
  refine Triple.bind (select_receiving layout hc (fun _ _ => atFrame_kept) fun _ _ h => h)
    fun status => onOk ?_ fun _ _ hw => absurd hw (fun h => h)
  refine Triple.bind (read_sure hc .erdptl rfl _ (readingAt_closed layout _)
    fun c h => congrArg lowByte h.2.1) fun lo w hw => ?_
  obtain ⟨-, hlo, hw⟩ := hw
  refine (Triple.bind (read_sure hc .erdpth rfl _ (readingAt_closed layout _)
    fun c h => congrArg highAddr h.2.1) fun hi u hu => ?_) w hw
  obtain ⟨-, hhi, hu⟩ := hu
  rw [hlo, hhi, word_pointer hcell, if_neg (by omega)]
  let Read : (Fin 7 → Byte) → RxChip → Prop := fun hdr c =>
    ReadingAt cfg arrives done f x ((rxRing cfg).cell (x + 6)) c ∧ HeaderOf cfg x f hdr
  have hRead : ∀ hdr, EnvClosed (rxCore arrives) (Read hdr) := fun hdr =>
    and_closed (readingAt_closed layout _) fun _ _ _ h => h
  refine statusBurst_rule (H := Read) (rx_laws arrives) hRead (fun c hdr h hb => ?_) (fun hdr v hv => ?_)
    u hu
  · obtain ⟨hr, he, hp, hs⟩ := h
    rw [drained_ring layout hr he]
    refine ⟨⟨hr.setErdpt _, rfl, hp, hs⟩, header_of_holds (pending_frame hr hp).1 fun i => ?_⟩
    exact (hb i).trans (bufByte_ring layout hr he i)
  · exact readPacketBody_takes layout hc hv.2.1.2 packetBuf bufSize optStatusVec v
      ⟨hv.1, hv.2.1.1, hv.2.2⟩

theorem takes_seen {packetBuf : List Byte} {bufSize : Word}
    {optStatusVec : Option ReceiveStatusVector} {r : ReadResult} {w : World RxChip}
    (h : Takes cfg arrives done f x packetBuf bufSize optStatusVec agree r w) :
    w.chip.seen = some f := by
  rcases h with ⟨-, -, h⟩ | ⟨-, -, h⟩
  · exact h.2.1.2.2.trans (by simp)
  · exact h.2.1.2.2.2

/-- No frame is pending, and none was at the start of the call. -/
def FindsNone (cfg : Conf) (arrives : Frame → Prop) (done before : List Frame) (x : ℕ)
    (packetBuf : List Byte) (optStatusVec : Option ReceiveStatusVector) (agree : Bool)
    (r : ReadResult) (w : World RxChip) : Prop :=
  r = ⟨.noData, packetBuf, optStatusVec⟩ ∧ before <+: done ∧ w.chip.seen = none ∧
    Idle (rxCore arrives)
      (fun c => Receiving cfg arrives done x 0 c ∧ c.erdpt = (rxRing cfg).cell x) agree w

/-- A call of `enc28_read_packet` with the log at `x`. `before` are the frames
stored when it starts. -/
theorem readPacket_reads (layout : Layout cfg) (hc : canWrite ctx = true)
    (packetBuf : List Byte) (bufSize : Word) (optStatusVec : Option ReceiveStatusVector) :
    Bank (rxCore arrives)
      (Idle (rxCore arrives) (fun c => Receiving cfg arrives done x 0 c ∧
        c.erdpt = (rxRing cfg).cell x ∧ before <+: c.stored) agree)
      (enc28ReadPacket cfg ctx packetBuf bufSize optStatusVec)
      (fun r w => (∃ f, w.chip.seen = some f ∧
          Takes cfg arrives done f x packetBuf bufSize optStatusVec agree r w) ∨
        FindsNone cfg arrives done before x packetBuf optStatusVec agree r w) (fun _ => False) := by
  let Looked : Byte → RxChip → Prop := fun v c =>
    (Receiving cfg arrives done x 0 c ∧ c.erdpt = (rxRing cfg).cell x) ∧
      ((v.getLsbD eirPktif = true ∧ ∃ f, c.seen = some f ∧ done ++ [f] <+: c.stored) ∨
        (v.getLsbD eirPktif = false ∧ v.getLsbD eirRxerif = false ∧ c.seen = none ∧
          before <+: done))
  have hLooked : ∀ v, EnvClosed (rxCore arrives) (Looked v) := fun v =>
    and_closed (and_closed (receiving_closed layout) fun _ _ hk h => hk.erdpt.trans h)
      fun c d hk h => by
        rcases h with ⟨hv, f, hs, hp⟩ | ⟨hv, hx, hs, hb⟩
        · exact Or.inl ⟨hv, f, hk.seen.trans hs, hp.trans hk.stored⟩
        · exact Or.inr ⟨hv, hx, hk.seen.trans hs, hb⟩
  unfold enc28ReadPacket
  simp only [bind_eq, pure_eq]
  refine Triple.bind (readShared_rule (V := Looked) (rx_laws arrives) (canRead_of_canWrite hc) .eir
    rfl (by decide) 0 hLooked fun c h => ?_) fun r w hw => ?_
  · obtain ⟨hr, he, hb⟩ := h
    change Looked c.eir { c with seen := c.next }
    refine ⟨⟨⟨hr.erxst, hr.erxnd, hr.transmit, hr.arrived, hr.log⟩, he⟩, ?_⟩
    by_cases hp : 0 < c.epktcnt
    · exact Or.inl ⟨by rw [eir_pktif, decide_eq_true hp], next_of_pending hr hp⟩
    · exact Or.inr ⟨by rw [eir_pktif, decide_eq_false hp], eir_rxerif c, none_pending hr (by omega) hb⟩
  · obtain ⟨hok, hp, hw, hbank⟩ := hw
    rw [hok, if_pos rfl]
    rcases hw with ⟨⟨hr, he⟩, ⟨hv, f, hs, hf⟩ | ⟨hv, hx, hs, hb⟩⟩
    · rw [hv, if_pos rfl]
      refine wp_mono (fun o u ho => ?_) (readPacketPending_takes (f := f) layout hc packetBuf bufSize
        optStatusVec r.2 w ⟨hp, ⟨hr, he, hf, hs⟩, hbank⟩)
      cases o with
      | none => exact ho
      | some a => exact Or.inl ⟨f, takes_seen ho, ho⟩
    · rw [hv, hx]
      exact Or.inr ⟨rfl, hb, hs, hp, ⟨hr, he⟩, hbank⟩

end

end Stm32NetworkStack.ReceivePackets
