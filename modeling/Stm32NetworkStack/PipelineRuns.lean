import Stm32NetworkStack.GuardedRuns
import Stm32NetworkStack.PacketPipeline

set_option autoImplicit false

/-!
# Evaluating the pipeline

Over a device that can be run, the steps of the pipeline are computed from the
actions alone.
-/
namespace Stm32NetworkStack.PipelineRuns
open InteractivePrograms Enc28Registers Enc28Driver BoundedQueues PingResponder PacketPipeline GuardedRuns

structure RunDevice (W : Type) where
  read : W → List Byte → ReceiveStatusVector → Option (ReadResult × W)
  write : W → List Byte → Word → Option (CommandStatus × W)
  idle : W → W

structure Refines {W : Type} (d : RunDevice W) (D : Device W) : Prop where
  read : ∀ w buf v r u, d.read w buf v = some (r, u) → D.read w buf v r u
  write : ∀ w buf n status u, d.write w buf n = some (status, u) → D.write w buf n status u
  idle : ∀ w, D.idle w (d.idle w)

section
variable {σ : Type} (f : (e : Call) → σ → e.Reply × σ) (idle : σ → σ) (cfg : Conf)
  (ctx : Option SpiContext)

def returned {α : Type} (x : Option α × σ) : Option (α × σ) := x.1.map fun a => (a, x.2)

def runDriver : RunDevice σ where
  read := fun w pktBuf statusVec => returned
    ((enc28ReadPacket cfg ctx pktBuf (BitVec.ofNat 16 maxEthPacketSize) (some statusVec)).run f w)
  write := fun w buf usedBytes => returned ((enc28WritePacket cfg ctx (some buf) usedBytes).run f w)
  idle := idle

variable {f idle}

theorem run_returned {M : Machine Call Call.Reply σ} (hf : ∀ e w, M e w (f e w).1 (f e w).2) {α : Type}
    {p : Driver α} {w u : σ} {a : α} (h : returned (p.run f w) = some (a, u)) :
    ∃ t, Exec M p w t (some a) u := by
  obtain ⟨t, ht⟩ := run_exec hf p w
  obtain ⟨b, hb, hpair⟩ := Option.map_eq_some_iff.mp h
  obtain ⟨rfl, rfl⟩ := Prod.mk.inj hpair
  exact ⟨t, hb ▸ ht⟩

theorem runDriver_refines {M : Machine Call Call.Reply σ} {acts : σ → σ → Prop}
    (hf : ∀ e w, M e w (f e w).1 (f e w).2) (hidle : ∀ w, acts w (idle w)) :
    Refines (runDriver f idle cfg ctx) (driverDevice M acts cfg ctx) where
  read := fun _ _ _ _ _ h => run_returned hf h
  write := fun _ _ _ _ _ h => run_returned hf h
  idle := hidle

end

section
variable {N : ℕ} {W : Type} (d : RunDevice W) (useLwip : Bool) (s : State N W)

def fireRead (wanted : Bool) : Option (ReadResult × W) :=
  match s.packetPc with
  | .read => (d.read s.world s.pktBuf s.statusVec).filter fun x => (x.1.status == .ok) == wanted
  | _ => none

def firePacket : Act N → Option (State N W)
  | .publish =>
    match s.packetPc with
    | .publish i =>
      if h : i < N then
        match s.free.send ⟨i, h⟩ with
        | some q => some { s with free := q, packetPc := .clear i }
        | none => some { s with packetPc := .halted none }
      else some { s with packetPc := .read }
    | _ => none
  | .clear =>
    match s.packetPc with
    | .clear i =>
      if h : i < N then
        some { s.setPacket ⟨i, h⟩ ⟨List.replicate maxEthPacketSize 0xFF, 0xFFFF⟩ with
          packetPc := .publish (i + 1) }
      else none
    | _ => none
  | .readFrame => (fireRead d s true).map fun x =>
    { s.afterRead x.1 x.2 with
      packetPc := .waitFree
      received := s.received ++ [(x.1.packetBuf.take (s.afterRead x.1 x.2).packetLen.toNat,
        (s.afterRead x.1 x.2).packetLen)] }
  | .readNothing => (fireRead d s false).map fun x =>
    { s.afterRead x.1 x.2 with packetPc := .pollTransmit }
  | .takeFree =>
    match s.packetPc, s.free.receive with
    | .waitFree, some (b, q) => some { s with free := q, packetPc := .fill b }
    | _, _ => none
  | .fill =>
    match s.packetPc with
    | .fill b => some { s.setPacket b ((s.ethPackets b).fill s.pktBuf s.packetLen) with
        packetPc := .sendReady b }
    | _ => none
  | .sendReady =>
    match s.packetPc with
    | .sendReady b => (s.ready.send b).map fun q => { s with ready := q, packetPc := .read }
    | _ => none
  | .pollTransmit =>
    match s.packetPc with
    | .pollTransmit =>
      match s.transmit.receive with
      | some (b, q) => some { s with transmit := q, packetPc := .write b, polled := s.polled ++ [b] }
      | none => some { s with packetPc := .notify }
    | _ => none
  | .write =>
    match s.packetPc with
    | .write b => (d.write s.world (s.ethPackets b).buf (s.ethPackets b).usedBytes).map fun x =>
      { s with
        world := x.2
        packetPc := if x.1 = .ok then .giveBack b else .halted (some b)
        written := s.written ++ [(b, s.packet b, x.1)] }
    | _ => none
  | .giveBackSent =>
    match s.packetPc with
    | .giveBack b => some
      { s with
        free := s.free.offer b
        lost := s.lost ++ s.free.refused b
        packetPc := .notify
        returned := s.returned ++ [b] }
    | _ => none
  | .wake =>
    match s.packetPc with
    | .notify => some { s with packetPc := .read }
    | _ => none
  | _ => none

/-- The steps inside lwIP and of the built-in responder are not all needed here. -/
def fireIp : Act N → Option (State N W)
  | .stackReturns =>
    match s.ipPc with
    | .stack c => some { s with ipPc := c.next }
    | _ => none
  | .takeReady =>
    match s.ipPc, s.ready.receive with
    | .waitReady, some (b, q) => some { s with ready := q, ipPc := .handle b }
    | _, _ => none
  | .input =>
    match s.ipPc with
    | .handle b =>
      if useLwip = true then some
        { s with
          pbufCst := ⟨1, some b⟩
          held := b :: s.held
          ipPc := .stack .input
          inputs := s.inputs ++ [(b, s.packet b)] }
      else none
    | _ => none
  | .release b =>
    match s.ipPc, s.pbufCst with
    | .stack c, ⟨1, some p⟩ =>
      if b ∈ s.held then some
        { s with
          pbufCst := ⟨0, some p⟩
          held := s.held.erase b
          released := s.released ++ [(b, p)]
          ipPc := .pbufFree c p }
      else none
    | _, _ => none
  | .pbufFree =>
    match s.ipPc with
    | .pbufFree c b => (s.free.send b).map fun q => { s with free := q, ipPc := .stack c }
    | _ => none
  | .output p =>
    match s.ipPc, s.free.receive with
    | .stack c, some (b, q) => some { s with free := q, ipPc := .fillResp c b p }
    | _, _ => none
  | .fillResp =>
    match s.ipPc with
    | .fillResp c b p => some
      { s.setPacket b ((s.ethPackets b).fill p.payload p.len) with
        ipPc := .sendResp c b
        outputs := s.outputs ++ [(p.payload, p.len)] }
    | _ => none
  | .sendResp =>
    match s.ipPc with
    | .sendResp c b => some
      { s with
        transmit := s.transmit.offer b
        lost := s.lost ++ s.transmit.refused b
        ipPc := .stack c }
    | _ => none
  | _ => none

def fire (a : Act N) : Option (State N W) :=
  if s.halted = true then none
  else match owner a with
    | some .packet => firePacket d s a
    | some .ip => fireIp useLwip s a
    | none => some { s with world := d.idle s.world }

variable {d s} {D : Device W}

theorem fireRead_some {wanted : Bool} {x : ReadResult × W} (h : fireRead d s wanted = some x) :
    s.packetPc = .read ∧ d.read s.world s.pktBuf s.statusVec = some x ∧
      (x.1.status == .ok) = wanted := by
  unfold fireRead at h
  split at h
  · next hpc =>
    rw [Option.filter_eq_some_iff] at h
    exact ⟨hpc, h.1, by simpa using h.2⟩
  · cases h

theorem firePacket_sound (hd : Refines d D) {a : Act N} {u : State N W}
    (h : firePacket d s a = some u) : PacketStep D s a u := by
  cases a with
  | publish =>
    simp only [firePacket] at h
    split at h
    · next i hpc =>
      split_ifs at h with hi
      · split at h
        · next q hq =>
          obtain rfl := Option.some.inj h
          exact .publish hpc hi hq
        · next hq =>
          obtain rfl := Option.some.inj h
          exact .publishFails hpc hi hq
      · obtain rfl := Option.some.inj h
        exact .publishDone hpc (Nat.le_of_not_lt hi)
    · cases h
  | clear =>
    simp only [firePacket] at h
    split at h
    · next i hpc =>
      split_ifs at h with hi
      obtain rfl := Option.some.inj h
      exact .clear hpc hi
    · cases h
  | readFrame =>
    obtain ⟨x, hx, rfl⟩ := Option.map_eq_some_iff.mp h
    obtain ⟨hpc, hread, hok⟩ := fireRead_some hx
    exact .readFrame hpc (hd.read _ _ _ _ _ hread) (by simpa using hok)
  | readNothing =>
    obtain ⟨x, hx, rfl⟩ := Option.map_eq_some_iff.mp h
    obtain ⟨hpc, hread, hok⟩ := fireRead_some hx
    exact .readNothing hpc (hd.read _ _ _ _ _ hread) (by simpa using hok)
  | takeFree =>
    simp only [firePacket] at h
    split at h
    · next b q hpc hq =>
      obtain rfl := Option.some.inj h
      exact .takeFree hpc hq
    · cases h
  | fill =>
    simp only [firePacket] at h
    split at h
    · next b hpc =>
      obtain rfl := Option.some.inj h
      exact .fill hpc
    · cases h
  | sendReady =>
    simp only [firePacket] at h
    split at h
    · next b hpc =>
      obtain ⟨q, hq, rfl⟩ := Option.map_eq_some_iff.mp h
      exact .sendReady hpc hq
    · cases h
  | pollTransmit =>
    simp only [firePacket] at h
    split at h
    · next hpc =>
      split at h
      · next b q hq =>
        obtain rfl := Option.some.inj h
        exact .pollTransmit hpc hq
      · next hq =>
        obtain rfl := Option.some.inj h
        exact .pollNothing hpc hq
    · cases h
  | write =>
    simp only [firePacket] at h
    split at h
    · next b hpc =>
      obtain ⟨x, hx, rfl⟩ := Option.map_eq_some_iff.mp h
      exact .write hpc (hd.write _ _ _ _ _ hx)
    · cases h
  | giveBackSent =>
    simp only [firePacket] at h
    split at h
    · next b hpc =>
      obtain rfl := Option.some.inj h
      exact .giveBackSent hpc
    · cases h
  | wake =>
    simp only [firePacket] at h
    split at h
    · next hpc =>
      obtain rfl := Option.some.inj h
      exact .wake hpc
    · cases h
  | _ => cases h

theorem fireIp_sound {a : Act N} {u : State N W} (h : fireIp useLwip s a = some u) :
    IpStep useLwip s a u := by
  cases a with
  | stackReturns =>
    simp only [fireIp] at h
    split at h
    · next c hpc =>
      obtain rfl := Option.some.inj h
      exact .stackReturns hpc
    · cases h
  | takeReady =>
    simp only [fireIp] at h
    split at h
    · next b q hpc hq =>
      obtain rfl := Option.some.inj h
      exact .takeReady hpc hq
    · cases h
  | input =>
    simp only [fireIp] at h
    split at h
    · next b hpc =>
      split_ifs at h with hl
      obtain rfl := Option.some.inj h
      exact .input hl hpc
    · cases h
  | release b =>
    simp only [fireIp] at h
    split at h
    · next c p hpc hpbuf =>
      split_ifs at h with hb
      obtain rfl := Option.some.inj h
      exact .release hpc hb (by rw [hpbuf]) (by rw [hpbuf])
    · cases h
  | pbufFree =>
    simp only [fireIp] at h
    split at h
    · next c b hpc =>
      obtain ⟨q, hq, rfl⟩ := Option.map_eq_some_iff.mp h
      exact .pbufFree hpc hq
    · cases h
  | output p =>
    simp only [fireIp] at h
    split at h
    · next c b q hpc hq =>
      obtain rfl := Option.some.inj h
      exact .output hpc hq
    · cases h
  | fillResp =>
    simp only [fireIp] at h
    split at h
    · next c b p hpc =>
      obtain rfl := Option.some.inj h
      exact .fillResp hpc
    · cases h
  | sendResp =>
    simp only [fireIp] at h
    split at h
    · next c b hpc =>
      obtain rfl := Option.some.inj h
      exact .sendResp hpc
    · cases h
  | _ => cases h

theorem fire_sound (hd : Refines d D) (s : State N W) (a : Act N) (u : State N W)
    (h : fire d useLwip s a = some u) : Step D useLwip s a u := by
  unfold fire at h
  split_ifs at h with hlive
  have live : s.halted = false := Bool.eq_false_iff.mpr hlive
  split at h
  · exact .packet live (firePacket_sound hd h)
  · exact .ip live (fireIp_sound useLwip h)
  · next ho =>
    have hidle : a = .idle := by
      cases a <;> first | rfl | cases ho
    exact .device live hidle (hd.idle s.world) (Option.some.inj h).symm

end

/-- A run of the two tasks under the cooperative scheduler. -/
abbrev CoopRun {N : ℕ} {W : Type} (D : Device W) (useLwip : Bool) :=
  Run (Coop (Step D useLwip) owner fun k s => blocked (N := N) k s = true)

/-- An echo request to the address of the interface. -/
def pingRequest : List Byte :=
  [0xDE, 0xAD, 0xBE, 0xEF, 0xCC, 0xAA, 0x02, 0x00, 0x00, 0x00, 0x00, 0x01, 0x08, 0x00,
    0x45, 0x00, 0x00, 0x1C, 0x00, 0x00, 0x00, 0x00, 0x40, 0x01, 0xF9, 0x79,
    0xC0, 0xA8, 0x00, 0x01, 0xC0, 0xA8, 0x00, 0x16, 0x08, 0x00, 0xF7, 0xFD, 0x00, 0x01, 0x00, 0x01]

/-- A device with a number of echo requests pending; `eir` says whether EIR is read next. -/
structure PingSource where
  pending : ℕ
  eir : Bool

/-- EIR has PKTIF set while a frame is pending, and PKTDEC takes one off. All other
registers read 0x10, which puts ERDPT into the ring and keeps TXRTS clear. -/
def pingDevice : (e : Call) → PingSource → e.Reply × PingSource
  | .spiOutOp reg _, c =>
    ((), ⟨if reg = some .econ2 then c.pending - 1 else c.pending, decide (reg = some .eir)⟩)
  | .spiInOp len, c =>
    (fun i => if len ≠ 1 then byteAt pingRequest i.val
      else if c.eir = false then 0x10
      else if c.pending = 0 then 0 else bit eirPktif, c)
  | .spiInOutOp _ _, c =>
    (fun i => if i.val = 3 then BitVec.ofNat 8 pingRequest.length else if i.val = 5 then 0x80 else 0, c)
  | .loadBank, c => (0, c)
  | .nssPinOp _, c | .waitNano _, c | .storeBank _, c => ((), c)

def pingMachine : Machine Call Call.Reply PingSource := fun e c r u => pingDevice e c = (r, u)

abbrev pingDriver : Device PingSource :=
  driverDevice pingMachine (fun c u => u = c) {} (some fullContext)

abbrev pingRunner : RunDevice PingSource := runDriver pingDevice id {} (some fullContext)

theorem pingRunner_refines : Refines pingRunner pingDriver :=
  runDriver_refines {} (some fullContext) (fun _ _ => rfl) fun _ => rfl

/-- All buffers published, with `n` echo requests pending. -/
def pingStart (n : ℕ) : State maxEthPackets PingSource :=
  start ⟨n, false⟩ (List.replicate maxEthPacketSize 0) ⟨0, 0, 0, 0⟩ ⟨0, none⟩

abbrev pingCoop : State maxEthPackets PingSource × Task → Act maxEthPackets →
    Option (State maxEthPackets PingSource × Task) :=
  coopFire (fire pingRunner true) owner blocked

theorem pingCoop_run {acts : List (Act maxEthPackets)} {x y : State maxEthPackets PingSource × Task}
    (h : fireAll pingCoop acts x = some y) : CoopRun pingDriver true x (fireTrace pingCoop acts x) y :=
  fireAll_run (coopFire_sound (fire_sound true pingRunner_refines)) h

/-- `ip_stack_task` starts first and waits; then the start-up loop runs. -/
def startUp : List (Act maxEthPackets) :=
  .stackReturns :: (List.replicate maxEthPackets [Act.publish, .clear]).flatten ++ [.publish]

def passFrame : List (Act maxEthPackets) := [.readFrame, .takeFree, .fill, .sendReady]

def echoReply : Pbuf := ⟨pingRequest.set 34 0, by decide⟩

/-- The echo path of lwIP: the request is freed, then the reply is sent. -/
def answerFrame (b : Fin maxEthPackets) : List (Act maxEthPackets) :=
  [.takeReady, .input, .release b, .pbufFree, .output echoReply, .fillResp, .sendResp, .stackReturns,
    .stackReturns]

end Stm32NetworkStack.PipelineRuns
