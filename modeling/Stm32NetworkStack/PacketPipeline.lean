import Mathlib.Data.List.FinRange
import Stm32NetworkStack.BoundedQueues
import Stm32NetworkStack.Enc28Driver
import Stm32NetworkStack.PingResponder

set_option autoImplicit false

/-!
# The packet pipeline

`packet_handling_task` and `ip_stack_task` over the free, ready and transmit
queues, one step for each queue operation, driver call and call of the stack. The
buffers are the elements of `eth_packets`, named by their index. What lwIP does
inside a call is free: it may hand frames to `enc28_netif_output` at any time and
release the pbufs it holds in any order, now or in a later call.
-/
namespace Stm32NetworkStack.PacketPipeline
open InteractivePrograms Enc28Registers Enc28Driver BoundedQueues PingResponder

abbrev maxEthPackets : ℕ := 8
def maxEthPacketSize : ℕ := 1600

structure EthPacketBuff where
  buf : List Byte
  usedBytes : Word
  deriving DecidableEq

/-- The bytes that `used_bytes` covers, and `used_bytes`. -/
def EthPacketBuff.packet (b : EthPacketBuff) : List Byte × Word :=
  (b.buf.take b.usedBytes.toNat, b.usedBytes)

def EthPacketBuff.fill (b : EthPacketBuff) (src : List Byte) (n : Word) : EthPacketBuff :=
  ⟨src.take n.toNat ++ b.buf.drop n.toNat, n⟩

theorem fill_packet (x : EthPacketBuff) {src : List Byte} {n : Word} (h : n.toNat ≤ src.length) :
    (x.fill src n).packet = (src.take n.toNat, n) := by
  have hlen : (src.take n.toNat).length = n.toNat := List.length_take_of_le h
  simp only [EthPacketBuff.packet, EthPacketBuff.fill, List.take_left' hlen]

theorem fill_length {x : EthPacketBuff} {src : List Byte} {n : Word} (hs : n.toNat ≤ src.length)
    (hx : n.toNat ≤ x.buf.length) : (x.fill src n).buf.length = x.buf.length := by
  simp only [EthPacketBuff.fill, List.length_append, List.length_take, List.length_drop]
  omega

/-- The part of an output pbuf that the link output looks at: `payload`, `len` bytes of it. -/
structure Pbuf where
  payload : List Byte
  short : payload.length < 0x10000
  deriving DecidableEq

def Pbuf.len (p : Pbuf) : Word := BitVec.ofNat 16 p.payload.length

theorem Pbuf.len_toNat (p : Pbuf) : p.len.toNat = p.payload.length :=
  Nat.mod_eq_of_lt p.short

/-- The driver calls of `packet_handling_task`. `idle` is what the device does
between them. -/
structure Device (W : Type) where
  read : W → List Byte → ReceiveStatusVector → ReadResult → W → Prop
  write : W → List Byte → Word → CommandStatus → W → Prop
  idle : W → W → Prop

def driverDevice {W : Type} (M : Machine Call Call.Reply W) (idle : W → W → Prop) (cfg : Conf)
    (ctx : Option SpiContext) : Device W where
  read := fun w pktBuf statusVec r u =>
    ∃ t, Exec M (enc28ReadPacket cfg ctx pktBuf (BitVec.ofNat 16 maxEthPacketSize) (some statusVec)) w t
      (some r) u
  write := fun w buf usedBytes status u =>
    ∃ t, Exec M (enc28WritePacket cfg ctx (some buf) usedBytes) w t (some status) u
  idle := idle

/-- Where `packet_handling_task` stands. A buffer is the value of the local of that place. -/
inductive PacketPc (N : ℕ)
  | publish (i : ℕ)
  | clear (i : ℕ)
  | read
  | waitFree
  | fill (freeBuf : Fin N)
  | sendReady (freeBuf : Fin N)
  | pollTransmit
  | write (toSend : Fin N)
  | giveBack (toSend : Fin N)
  | notify
  | halted (toSend : Option (Fin N))
  deriving DecidableEq

/-- The three calls in which `ip_stack_task` is inside lwIP. -/
inductive StackCall
  | init
  | input
  | timeouts
  deriving DecidableEq

inductive IpPc (N : ℕ)
  | stack (c : StackCall)
  | waitReady
  | handle (readyPacket : Fin N)
  | fillResp (c : StackCall) (ipResp : Fin N) (p : Pbuf)
  | sendResp (c : StackCall) (ipResp : Fin N)
  | pbufFree (c : StackCall) (ethPacket : Fin N)
  | reply (readyPacket pingResp : Fin N)
  | sendPing (readyPacket pingResp : Fin N)
  | dropPing (readyPacket pingResp : Fin N)
  | giveBack (readyPacket : Fin N)
  | halted
  deriving DecidableEq

/-- `pbuf_cst`: its reference count and `enc28_eth_packet_ptr`. -/
structure PbufCustom (N : ℕ) where
  ref : ℕ
  ethPacketPtr : Option (Fin N)
  deriving DecidableEq

/-- `held` are the buffers whose input pbuf lwIP has not released. The rest is history: the
buffers that a full queue refused; the frames read with ENC28_OK; the frames handed to
lwIP, with their buffers; the pbufs released, each with the buffer that was put back
for it; what the link output copied; the buffers taken from the transmit queue; what was
handed to `enc28_write_packet`, and how it ended; the buffers put back after that. -/
structure State (N : ℕ) (W : Type) where
  free : Queue N (Fin N)
  ready : Queue N (Fin N)
  transmit : Queue N (Fin N)
  ethPackets : Fin N → EthPacketBuff
  packetPc : PacketPc N
  pktBuf : List Byte
  statusVec : ReceiveStatusVector
  world : W
  ipPc : IpPc N
  pbufCst : PbufCustom N
  held : List (Fin N)
  lost : List (Fin N)
  received : List (List Byte × Word)
  inputs : List (Fin N × List Byte × Word)
  released : List (Fin N × Fin N)
  outputs : List (List Byte × Word)
  polled : List (Fin N)
  written : List (Fin N × (List Byte × Word) × CommandStatus)
  returned : List (Fin N)

section
variable {N : ℕ} {W : Type}

/-- `configASSERT` and `LWIP_ASSERT` stop the whole system. -/
def State.halted (s : State N W) : Bool :=
  match s.packetPc, s.ipPc with
  | .halted _, _ => true
  | _, .halted => true
  | _, _ => false

def State.packet (s : State N W) (b : Fin N) : List Byte × Word := (s.ethPackets b).packet

def State.setPacket (s : State N W) (b : Fin N) (x : EthPacketBuff) : State N W :=
  { s with ethPackets := Function.update s.ethPackets b x }

theorem setPacket_map {s : State N W} {b : Fin N} {l : List (Fin N)} (hb : b ∉ l) (x : EthPacketBuff) :
    l.map (s.setPacket b x).packet = l.map s.packet := by
  apply List.map_congr_left
  intro c hc
  have hne : c ≠ b := fun h => hb (h ▸ hc)
  simp only [State.packet, State.setPacket, Function.update_of_ne hne]

theorem setPacket_self (s : State N W) (b : Fin N) (x : EthPacketBuff) :
    (s.setPacket b x).packet b = x.packet := by
  simp only [State.packet, State.setPacket, Function.update_self]

def State.packetLen (s : State N W) : Word :=
  word s.statusVec.packetLenHi s.statusVec.packetLenLo

def start (w : W) (pktBuf : List Byte) (statusVec : ReceiveStatusVector) (pbufCst : PbufCustom N) :
    State N W where
  free := .empty
  ready := .empty
  transmit := .empty
  ethPackets := fun _ => ⟨List.replicate maxEthPacketSize 0, 0⟩
  packetPc := .publish 0
  pktBuf := pktBuf
  statusVec := statusVec
  world := w
  ipPc := .stack .init
  pbufCst := pbufCst
  held := []
  lost := []
  received := []
  inputs := []
  released := []
  outputs := []
  polled := []
  written := []
  returned := []

end

inductive Task
  | packet
  | ip
  deriving DecidableEq

/-- The steps of the two tasks and of the device, with what lwIP chose in them. -/
inductive Act (N : ℕ)
  | publish
  | clear
  | readFrame
  | readNothing
  | takeFree
  | fill
  | sendReady
  | pollTransmit
  | write
  | giveBackSent
  | wake
  | idle
  | takeReady
  | input
  | scribble (buf : List Byte)
  | release (b : Fin N)
  | pbufFree
  | output (p : Pbuf)
  | fillResp
  | sendResp
  | stackReturns
  | ping
  | reply
  | sendPing
  | dropPing
  | giveBackReady
  deriving DecidableEq

def owner {N : ℕ} : Act N → Option Task
  | .publish | .clear | .readFrame | .readNothing | .takeFree | .fill | .sendReady | .pollTransmit
  | .write | .giveBackSent | .wake => some .packet
  | .idle => none
  | _ => some .ip

/-- A task gives up the processor only where it waits. -/
def blocked {N : ℕ} {W : Type} : Task → State N W → Bool
  | .packet, s =>
    match s.packetPc with
    | .waitFree => s.free.receive.isNone
    | .sendReady b => (s.ready.send b).isNone
    | .notify => true
    | _ => false
  | .ip, s =>
    match s.ipPc with
    | .waitReady => s.ready.receive.isNone
    | .pbufFree _ b => (s.free.send b).isNone
    | _ => false

def StackCall.next {N : ℕ} : StackCall → IpPc N
  | .init => .waitReady
  | .input => .stack .timeouts
  | .timeouts => .waitReady

section
variable {N : ℕ} {W : Type}

def State.afterRead (s : State N W) (r : ReadResult) (w : W) : State N W :=
  { s with world := w, pktBuf := r.packetBuf, statusVec := r.optStatusVec.getD s.statusVec }

def State.handlePing (s : State N W) (b r : Fin N) : ℤ × List Byte :=
  let request := s.ethPackets b
  enc28DebugHandlePing request.buf request.usedBytes (s.ethPackets r).buf request.usedBytes

variable (D : Device W) (useLwip : Bool)

inductive PacketStep (s : State N W) : Act N → State N W → Prop
  | publish {i : ℕ} {q : Queue N (Fin N)} (pc : s.packetPc = .publish i) (h : i < N)
      (sent : s.free.send ⟨i, h⟩ = some q) :
      PacketStep s .publish { s with free := q, packetPc := .clear i }
  | publishFails {i : ℕ} (pc : s.packetPc = .publish i) (h : i < N)
      (full : s.free.send ⟨i, h⟩ = none) : PacketStep s .publish { s with packetPc := .halted none }
  | publishDone {i : ℕ} (pc : s.packetPc = .publish i) (h : N ≤ i) :
      PacketStep s .publish { s with packetPc := .read }
  | clear {i : ℕ} (pc : s.packetPc = .clear i) (h : i < N) :
      PacketStep s .clear
        { s.setPacket ⟨i, h⟩ ⟨List.replicate maxEthPacketSize 0xFF, 0xFFFF⟩ with
          packetPc := .publish (i + 1) }
  | readFrame {r : ReadResult} {w : W} (pc : s.packetPc = .read)
      (call : D.read s.world s.pktBuf s.statusVec r w) (ok : r.status = .ok) :
      PacketStep s .readFrame
        { s.afterRead r w with
          packetPc := .waitFree
          received := s.received ++
            [(r.packetBuf.take (s.afterRead r w).packetLen.toNat, (s.afterRead r w).packetLen)] }
  | readNothing {r : ReadResult} {w : W} (pc : s.packetPc = .read)
      (call : D.read s.world s.pktBuf s.statusVec r w) (other : r.status ≠ .ok) :
      PacketStep s .readNothing { s.afterRead r w with packetPc := .pollTransmit }
  | takeFree {b : Fin N} {q : Queue N (Fin N)} (pc : s.packetPc = .waitFree)
      (got : s.free.receive = some (b, q)) :
      PacketStep s .takeFree { s with free := q, packetPc := .fill b }
  | fill {b : Fin N} (pc : s.packetPc = .fill b) :
      PacketStep s .fill
        { s.setPacket b ((s.ethPackets b).fill s.pktBuf s.packetLen) with packetPc := .sendReady b }
  | sendReady {b : Fin N} {q : Queue N (Fin N)} (pc : s.packetPc = .sendReady b)
      (sent : s.ready.send b = some q) :
      PacketStep s .sendReady { s with ready := q, packetPc := .read }
  | pollTransmit {b : Fin N} {q : Queue N (Fin N)} (pc : s.packetPc = .pollTransmit)
      (got : s.transmit.receive = some (b, q)) :
      PacketStep s .pollTransmit
        { s with transmit := q, packetPc := .write b, polled := s.polled ++ [b] }
  | pollNothing (pc : s.packetPc = .pollTransmit) (none : s.transmit.receive = none) :
      PacketStep s .pollTransmit { s with packetPc := .notify }
  | write {b : Fin N} {status : CommandStatus} {w : W} (pc : s.packetPc = .write b)
      (call : D.write s.world (s.ethPackets b).buf (s.ethPackets b).usedBytes status w) :
      PacketStep s .write
        { s with
          world := w
          packetPc := if status = .ok then .giveBack b else .halted (some b)
          written := s.written ++ [(b, s.packet b, status)] }
  | giveBackSent {b : Fin N} (pc : s.packetPc = .giveBack b) :
      PacketStep s .giveBackSent
        { s with
          free := s.free.offer b
          lost := s.lost ++ s.free.refused b
          packetPc := .notify
          returned := s.returned ++ [b] }
  | wake (pc : s.packetPc = .notify) : PacketStep s .wake { s with packetPc := .read }

/-- The steps of `ip_stack_task`. Those of the built-in ping responder are taken
with `USE_LWIP` 0, `input` with `USE_LWIP` 1. -/
inductive IpStep (s : State N W) : Act N → State N W → Prop
  | stackReturns {c : StackCall} (pc : s.ipPc = .stack c) :
      IpStep s .stackReturns { s with ipPc := c.next }
  | takeReady {b : Fin N} {q : Queue N (Fin N)} (pc : s.ipPc = .waitReady)
      (got : s.ready.receive = some (b, q)) :
      IpStep s .takeReady { s with ready := q, ipPc := .handle b }
  | input {b : Fin N} (lwip : useLwip = true) (pc : s.ipPc = .handle b) :
      IpStep s .input
        { s with
          pbufCst := ⟨1, some b⟩
          held := b :: s.held
          ipPc := .stack .input
          inputs := s.inputs ++ [(b, s.packet b)] }
  /-- lwIP changes the payload of a pbuf it holds. -/
  | scribble {c : StackCall} {b : Fin N} {buf : List Byte} (pc : s.ipPc = .stack c)
      (holds : s.held ≠ []) (ptr : s.pbufCst.ethPacketPtr = some b)
      (len : buf.length = (s.ethPackets b).buf.length) :
      IpStep s (.scribble buf) (s.setPacket b ⟨buf, (s.ethPackets b).usedBytes⟩)
  | release {c : StackCall} {b p : Fin N} (pc : s.ipPc = .stack c) (holds : b ∈ s.held)
      (ref : s.pbufCst.ref = 1) (ptr : s.pbufCst.ethPacketPtr = some p) :
      IpStep s (.release b)
        { s with
          pbufCst := ⟨0, some p⟩
          held := s.held.erase b
          released := s.released ++ [(b, p)]
          ipPc := .pbufFree c p }
  | releaseKeeps {c : StackCall} {b : Fin N} (pc : s.ipPc = .stack c) (holds : b ∈ s.held)
      (ref : 1 < s.pbufCst.ref) :
      IpStep s (.release b)
        { s with pbufCst := { s.pbufCst with ref := s.pbufCst.ref - 1 }, held := s.held.erase b }
  | releaseFails {c : StackCall} {b : Fin N} (pc : s.ipPc = .stack c) (holds : b ∈ s.held)
      (ref : s.pbufCst.ref = 0) : IpStep s (.release b) { s with ipPc := .halted }
  | pbufFree {c : StackCall} {b : Fin N} {q : Queue N (Fin N)} (pc : s.ipPc = .pbufFree c b)
      (sent : s.free.send b = some q) : IpStep s .pbufFree { s with free := q, ipPc := .stack c }
  | output {c : StackCall} {p : Pbuf} {b : Fin N} {q : Queue N (Fin N)} (pc : s.ipPc = .stack c)
      (got : s.free.receive = some (b, q)) :
      IpStep s (.output p) { s with free := q, ipPc := .fillResp c b p }
  | outputDrops {c : StackCall} {p : Pbuf} (pc : s.ipPc = .stack c) (none : s.free.receive = none) :
      IpStep s (.output p) s
  | fillResp {c : StackCall} {b : Fin N} {p : Pbuf} (pc : s.ipPc = .fillResp c b p) :
      IpStep s .fillResp
        { s.setPacket b ((s.ethPackets b).fill p.payload p.len) with
          ipPc := .sendResp c b
          outputs := s.outputs ++ [(p.payload, p.len)] }
  | sendResp {c : StackCall} {b : Fin N} (pc : s.ipPc = .sendResp c b) :
      IpStep s .sendResp
        { s with
          transmit := s.transmit.offer b
          lost := s.lost ++ s.transmit.refused b
          ipPc := .stack c }
  | ping {b r : Fin N} {q : Queue N (Fin N)} (noLwip : useLwip = false) (pc : s.ipPc = .handle b)
      (isPing : enc28DebugIsPingRequest (s.ethPackets b).buf (s.ethPackets b).usedBytes = true)
      (got : s.free.receive = some (r, q)) :
      IpStep s .ping { s with free := q, ipPc := .reply b r }
  | noPing {b : Fin N} (noLwip : useLwip = false) (pc : s.ipPc = .handle b)
      (skip : enc28DebugIsPingRequest (s.ethPackets b).buf (s.ethPackets b).usedBytes = false ∨
        s.free.receive = none) : IpStep s .ping { s with ipPc := .giveBack b }
  | reply {b r : Fin N} (pc : s.ipPc = .reply b r) :
      IpStep s .reply
        { s.setPacket r ⟨(s.handlePing b r).2, (s.ethPackets b).usedBytes⟩ with
          ipPc := if (s.handlePing b r).1 = 0 then .sendPing b r else .dropPing b r }
  | sendPing {b r : Fin N} (pc : s.ipPc = .sendPing b r) :
      IpStep s .sendPing
        { s with
          transmit := s.transmit.offer r
          lost := s.lost ++ s.transmit.refused r
          ipPc := .giveBack b }
  | dropPing {b r : Fin N} (pc : s.ipPc = .dropPing b r) :
      IpStep s .dropPing
        { s with free := s.free.offer r, lost := s.lost ++ s.free.refused r, ipPc := .giveBack b }
  | giveBackReady {b : Fin N} (pc : s.ipPc = .giveBack b) :
      IpStep s .giveBackReady
        { s with
          free := s.free.offer b
          lost := s.lost ++ s.free.refused b
          ipPc := .stack .timeouts }

inductive Step (s : State N W) (a : Act N) (u : State N W) : Prop
  | packet (live : s.halted = false) (step : PacketStep D s a u)
  | ip (live : s.halted = false) (step : IpStep useLwip s a u)
  | device {w : W} (live : s.halted = false) (act : a = .idle) (acts : D.idle s.world w)
      (next : u = { s with world := w })

variable {D useLwip}

theorem packetStep_owner {s u : State N W} {a : Act N} (st : PacketStep D s a u) :
    owner a = some .packet := by
  cases st <;> rfl

theorem ipStep_owner {s u : State N W} {a : Act N} (st : IpStep useLwip s a u) :
    owner a = some .ip ∧ u.packetPc = s.packetPc := by
  cases st <;> exact ⟨rfl, rfl⟩

end

end Stm32NetworkStack.PacketPipeline
