import Stm32NetworkStack.BufferOwnership

set_option autoImplicit false

/-!
# What flows through the pipeline

A buffer keeps its content from the time it is filled until it is handed on,
since nobody writes to a buffer that is in a queue. So the frames come out in
the order in which they went in, and each fits its buffer.
-/
namespace Stm32NetworkStack.FrameFlow
open InteractivePrograms Enc28Registers Enc28Driver BoundedQueues PacketPipeline GuardedRuns PipelineRuns
open BufferOwnership

section
variable {cfg : Conf} {ctx : Option SpiContext}

/-- The buffer keeps its size, and a length reported with ENC28_OK is one that fits. -/
def Fits (n : ℕ) (r : ReadResult) : Prop :=
  r.packetBuf.length = n ∧
    (r.status = .ok → ∃ v, r.optStatusVec = some v ∧ v.packetLen.toNat ≤ n)

theorem fits_error {n : ℕ} {r : ReadResult} (len : r.packetBuf.length = n) (err : r.status ≠ .ok) :
    Fits n r :=
  ⟨len, fun ok => absurd ok err⟩

theorem exit_notOk {p k : Driver CommandStatus} (hk : k.Returns (· ≠ .ok)) :
    (exitIfErr p k).Returns (· ≠ .ok) := by
  refine returns_rest p fun status => ?_
  by_cases h : status = .ok
  · rw [if_pos h]
    exact hk
  · rw [if_neg h]
    exact h

theorem rxErrorRecovery_notOk : (rxErrorRecovery cfg ctx).Returns (· ≠ .ok) :=
  exit_notOk <| exit_notOk <| exit_notOk <| exit_notOk fun h => by cases h

theorem readPacketBody_fits {packetBuf : List Byte} {bufSize : Word}
    (len : packetBuf.length = bufSize.toNat) (v : ReceiveStatusVector) (hdr : Fin 7 → Byte) :
    (readPacketBody cfg ctx packetBuf bufSize (some v) hdr).Returns (Fits bufSize.toNat) := by
  unfold readPacketBody
  simp only [bind_eq, pure_eq, Option.map_some]
  split_ifs with hok hlen
  · exact fits_error len nofun
  · exact fits_error len nofun
  · have hle : (ReceiveStatusVector.packetLen ⟨hdr 3, hdr 4, hdr 5, hdr 6⟩).toNat ≤ bufSize.toNat :=
      Nat.le_of_not_lt hlen
    refine returns_rest _ fun _ => returns_rest _ fun _ => returns_rest _ fun packet =>
      returns_rest _ fun _ => returns_rest _ fun status => ⟨?_, fun _ => ⟨_, rfl, hle⟩⟩
    simp only [List.length_append, List.length_ofFn, List.length_drop]
    omega

theorem readPacketPending_fits {packetBuf : List Byte} {bufSize : Word}
    (len : packetBuf.length = bufSize.toNat) (v : ReceiveStatusVector) (val : Byte) :
    (readPacketPending cfg ctx packetBuf bufSize (some v) val).Returns (Fits bufSize.toNat) := by
  unfold readPacketPending
  simp only [bind_eq, pure_eq]
  refine returns_rest _ fun status => ?_
  split_ifs with hs
  · refine returns_rest _ fun lo => returns_rest _ fun hi => ?_
    split_ifs
    · exact fits_error len nofun
    · exact returns_rest _ fun _ => returns_rest _ fun hdr => returns_rest _ fun _ =>
        readPacketBody_fits len v hdr
  · exact fits_error len hs

theorem readPacket_fits {packetBuf : List Byte} {bufSize : Word}
    (len : packetBuf.length = bufSize.toNat) (v : ReceiveStatusVector) :
    (enc28ReadPacket cfg ctx packetBuf bufSize (some v)).Returns (Fits bufSize.toNat) := by
  unfold enc28ReadPacket
  simp only [bind_eq, pure_eq]
  refine returns_rest _ fun r => ?_
  split_ifs with hs
  · exact readPacketPending_fits len v r.2
  · exact returns_bind rxErrorRecovery_notOk fun status err => fits_error len err
  · exact fits_error len nofun
  · exact fits_error len hs

end

section
variable {N : ℕ} {W : Type}

def handles : IpPc N → List (Fin N)
  | .handle b => [b]
  | _ => []

def passes : PacketPc N → List (Fin N)
  | .sendReady b => [b]
  | _ => []

def writes : PacketPc N → List (Fin N)
  | .write b => [b]
  | _ => []

def sends : IpPc N → List (Fin N)
  | .sendResp _ b => [b]
  | _ => []

/-- The frames on their way to lwIP, the oldest one first. -/
def inbound (s : State N W) : List (Fin N) := handles s.ipPc ++ s.ready.items ++ passes s.packetPc

/-- The replies on their way to the controller, the oldest one first. -/
def outbound (s : State N W) : List (Fin N) := writes s.packetPc ++ s.transmit.items ++ sends s.ipPc

/-- The frame that has not been copied to a buffer yet. -/
def uncopied (s : State N W) : List (List Byte × Word) :=
  match s.packetPc with
  | .waitFree | .fill _ => [(s.pktBuf.take s.packetLen.toNat, s.packetLen)]
  | _ => []

/-- The buffers that the two tasks write to. -/
def writable (s : State N W) : List (Fin N) :=
  (match s.packetPc with | .fill b => [b] | _ => []) ++
    (match s.ipPc with | .fillResp _ b _ => [b] | _ => []) ++ s.free.items ++ s.held

theorem packetPc_holds (pc : PacketPc N) (b : Fin N) :
    (passes pc).count b + (writes pc).count b +
      (match pc with | .fill b => [b] | _ => []).count b ≤ (packetHolds pc).count b := by
  cases pc <;> simp [passes, writes, packetHolds]

theorem ipPc_holds (pc : IpPc N) (b : Fin N) :
    (handles pc).count b + (sends pc).count b +
      (match pc with | .fillResp _ b _ => [b] | _ => []).count b ≤ (ipHolds pc).count b := by
  cases pc <;> simp [handles, sends, ipHolds]

theorem writable_apart {s : State N W} (h : Owned s) {b : Fin N} (hb : b ∈ writable s) :
    b ∉ inbound s ∧ b ∉ outbound s := by
  have honce := h.once b
  have hpacket := packetPc_holds s.packetPc b
  have hip := ipPc_holds s.ipPc b
  have hpos := List.count_pos_iff.mpr hb
  simp only [← List.count_eq_zero, inbound, outbound, places, writable, List.count_append] at *
  omega

/-- The start-up loop clears a buffer that it has already put into the free queue. -/
def ClearsFree (s : State N W) : Prop := ∀ i (h : i < N), s.packetPc = .clear i → ⟨i, h⟩ ∈ s.free.items

structure Sized (s : State N W) : Prop where
  bufs : ∀ b, (s.ethPackets b).buf.length = maxEthPacketSize
  pktBuf : s.pktBuf.length = maxEthPacketSize
  reply : ∀ c b p, s.ipPc = .fillResp c b p → p.payload.length ≤ maxEthPacketSize
  received : ∀ x ∈ s.received, x.2.toNat ≤ maxEthPacketSize
  outputs : ∀ x ∈ s.outputs, x.2.toNat ≤ maxEthPacketSize

/-- What came in is what went out, followed by what is on its way. -/
structure Ordered (s : State N W) : Prop where
  inputs : s.inputs.map Prod.snd ++ ((inbound s).map s.packet ++ uncopied s) = s.received
  outputs : s.written.map (fun x => x.2.1) ++ (outbound s).map s.packet = s.outputs

/-- The task recomputes the length that `enc28_read_packet` has checked. -/
theorem uncopied_fits {s : State N W} (hz : Sized s) (ho : Ordered s) :
    ∀ x ∈ uncopied s, x.2.toNat ≤ maxEthPacketSize := by
  intro x hx
  apply hz.received x
  rw [← ho.inputs]
  exact List.mem_append_right _ (List.mem_append_right _ hx)

theorem used_fits {s : State N W} (hz : Sized s) (ho : Ordered s) :
    ∀ b ∈ inbound s ++ outbound s, (s.ethPackets b).usedBytes.toNat ≤ maxEthPacketSize := by
  intro b hb
  rcases List.mem_append.mp hb with hb | hb
  · apply hz.received (s.packet b)
    rw [← ho.inputs]
    exact List.mem_append_right _ (List.mem_append_left _ (List.mem_map_of_mem hb))
  · apply hz.outputs (s.packet b)
    rw [← ho.outputs]
    exact List.mem_append_right _ (List.mem_map_of_mem hb)

def ReadsFit (D : Device W) : Prop :=
  ∀ w buf v r u, D.read w buf v r u → buf.length = maxEthPacketSize → Fits maxEthPacketSize r

theorem driverDevice_readsFit (M : Machine Call Call.Reply W) (idle : W → W → Prop) (cfg : Conf)
    (ctx : Option SpiContext) : ReadsFit (driverDevice M idle cfg ctx) := by
  rintro w buf v r u ⟨t, run⟩ len
  have hsize : (BitVec.ofNat 16 maxEthPacketSize).toNat = maxEthPacketSize := rfl
  exact hsize ▸ run.returns (readPacket_fits (len.trans hsize.symm) v)

variable {D : Device W} {s u : State N W} {a : Act N}

theorem packetStep_ordered (hown : Owned s) (hc : ClearsFree s) (hz : Sized s) (ho : Ordered s)
    (st : PacketStep D s a u) : Ordered u := by
  obtain ⟨hin, hout⟩ := ho
  cases st with
  | publish pc | publishFails pc | publishDone pc | pollNothing pc | giveBackSent pc | wake pc
  | readNothing pc | takeFree pc =>
    simp only [inbound, outbound, uncopied, passes, writes, pc] at hin hout
    exact ⟨hin, hout⟩
  | @clear i pc hi =>
    have hb : ⟨i, hi⟩ ∈ writable s := List.mem_append_left _ (List.mem_append_right _ (hc i hi pc))
    obtain ⟨hnin, hnout⟩ := writable_apart hown hb
    rw [← setPacket_map hnin] at hin
    rw [← setPacket_map hnout] at hout
    simp only [inbound, outbound, uncopied, passes, writes, pc] at hin hout
    exact ⟨hin, hout⟩
  | @readFrame r w pc call ok =>
    simp only [inbound, outbound, uncopied, passes, writes, pc, List.append_nil] at hin hout
    rw [← hin]
    refine ⟨?_, hout⟩
    simp only [inbound, passes, List.append_nil, List.append_assoc]
    rfl
  | @fill b pc =>
    have hb : b ∈ writable s := by simp [writable, pc]
    obtain ⟨hnin, hnout⟩ := writable_apart hown hb
    have hlen : s.packetLen.toNat ≤ s.pktBuf.length := by
      rw [hz.pktBuf]
      exact uncopied_fits hz ⟨hin, hout⟩ (s.pktBuf.take s.packetLen.toNat, s.packetLen)
        (by simp [uncopied, pc])
    have hpacket := (setPacket_self s b _).trans (fill_packet (s.ethPackets b) hlen)
    rw [← setPacket_map hnin] at hin
    rw [← setPacket_map hnout] at hout
    simp only [inbound, outbound, uncopied, passes, writes, pc, List.append_nil] at hin hout
    rw [← hpacket] at hin
    have hfilled : s.inputs.map Prod.snd ++ ((handles s.ipPc ++ s.ready.items ++ [b]).map
        (s.setPacket b ((s.ethPackets b).fill s.pktBuf s.packetLen)).packet ++ []) = s.received := by
      simpa only [List.map_append, List.map_cons, List.map_nil, List.append_nil, List.append_assoc] using hin
    exact ⟨hfilled, hout⟩
  | @sendReady b q pc sent =>
    have hsent : handles s.ipPc ++ q.items ++ [] = handles s.ipPc ++ s.ready.items ++ [b] := by
      rw [send_some sent, List.append_nil, List.append_assoc]
    simp only [inbound, outbound, uncopied, passes, writes, pc] at hin hout
    rw [← hsent] at hin
    exact ⟨hin, hout⟩
  | @pollTransmit b q pc got =>
    simp only [inbound, outbound, uncopied, passes, writes, pc, receive_some got] at hin hout
    exact ⟨hin, hout⟩
  | @write b status w pc call =>
    simp only [inbound, outbound, uncopied, passes, writes, pc] at hin hout
    have hwritten : (s.written ++ [(b, s.packet b, status)]).map (fun x => x.2.1) ++
        ([] ++ s.transmit.items ++ sends s.ipPc).map s.packet = s.outputs := by
      simpa using hout
    by_cases hs : status = .ok
    · simp only [hs, if_true] at hwritten ⊢
      exact ⟨hin, hwritten⟩
    · simp only [hs, if_false] at hwritten ⊢
      exact ⟨hin, hwritten⟩

theorem ipStep_ordered (h : Sound true s) (ho : Ordered s) (st : IpStep true s a u) : Ordered u := by
  have hbranch := h.branch rfl
  obtain ⟨hin, hout⟩ := ho
  cases st with
  | @stackReturns c pc =>
    simp only [inbound, outbound, handles, sends, pc] at hin hout
    cases c <;> exact ⟨hin, hout⟩
  | release pc | pbufFree pc | output pc =>
    simp only [inbound, outbound, handles, sends, pc] at hin hout
    exact ⟨hin, hout⟩
  | outputDrops => exact ⟨hin, hout⟩
  | releaseKeeps pc holds ref | releaseFails pc holds ref =>
    have hone := linked_ref h.linked holds
    omega
  | @takeReady b q pc got =>
    simp only [inbound, outbound, handles, sends, pc, receive_some got] at hin hout
    exact ⟨hin, hout⟩
  | @input b lwip pc =>
    simp only [inbound, outbound, handles, sends, pc] at hin hout
    have hgiven : (s.inputs ++ [(b, s.packet b)]).map Prod.snd ++
        (([] ++ s.ready.items ++ passes s.packetPc).map s.packet ++ uncopied s) = s.received := by
      simpa using hin
    exact ⟨hgiven, hout⟩
  | @scribble c b buf pc holds ptr len =>
    obtain ⟨d, hd, hcst⟩ := h.linked.resolve_left holds
    obtain rfl : d = b := by
      rw [hcst] at ptr
      exact Option.some.inj ptr
    have hb : d ∈ writable s := by simp [writable, hd]
    obtain ⟨hnin, hnout⟩ := writable_apart h.owned hb
    rw [← setPacket_map hnin] at hin
    rw [← setPacket_map hnout] at hout
    exact ⟨hin, hout⟩
  | @fillResp c b p pc =>
    have hb : b ∈ writable s := by simp [writable, pc]
    obtain ⟨hnin, hnout⟩ := writable_apart h.owned hb
    have hpacket := (setPacket_self s b _).trans (fill_packet (s.ethPackets b) (Nat.le_of_eq p.len_toNat))
    rw [List.take_of_length_le (Nat.le_of_eq p.len_toNat.symm)] at hpacket
    rw [← setPacket_map hnin ((s.ethPackets b).fill p.payload p.len)] at hin
    rw [← setPacket_map hnout ((s.ethPackets b).fill p.payload p.len)] at hout
    simp only [inbound, outbound, handles, sends, pc, List.append_nil] at hin hout
    have hfilled : s.written.map (fun x => x.2.1) ++ (writes s.packetPc ++ s.transmit.items ++ [b]).map
        (s.setPacket b ((s.ethPackets b).fill p.payload p.len)).packet = s.outputs ++ [(p.payload, p.len)] := by
      rw [← hpacket, ← hout]
      simp only [List.map_append, List.map_cons, List.map_nil, List.append_assoc]
    exact ⟨hin, hfilled⟩
  | @sendResp c b pc =>
    obtain ⟨hitems, -⟩ := offer_room (room h.owned (b := b) (by simp [pc, ipHolds])).2 b
    have hsent : writes s.packetPc ++ (s.transmit.offer b).items ++ [] =
        writes s.packetPc ++ s.transmit.items ++ [b] := by
      rw [hitems, List.append_nil, List.append_assoc]
    simp only [inbound, outbound, handles, sends, pc] at hin hout
    rw [← hsent] at hout
    exact ⟨hin, hout⟩
  | ping noLwip | noPing noLwip => cases noLwip
  | reply pc | sendPing pc | dropPing pc | giveBackReady pc =>
    rw [pc] at hbranch
    cases hbranch

theorem step_ordered (h : Sound true s) (hc : ClearsFree s) (hz : Sized s) (ho : Ordered s)
    (st : Step D true s a u) : Ordered u := by
  cases st with
  | packet live step => exact packetStep_ordered h.owned hc hz ho step
  | ip live step => exact ipStep_ordered h ho step
  | device live act acts next =>
    subst next
    exact ⟨ho.inputs, ho.outputs⟩

theorem setPacket_sizes {n : ℕ} {x : EthPacketBuff} (hs : ∀ b, (s.ethPackets b).buf.length = n)
    (hx : x.buf.length = n) (b c : Fin N) : ((s.setPacket b x).ethPackets c).buf.length = n := by
  by_cases h : c = b
  · subst h
    simp only [State.setPacket, Function.update_self, hx]
  · simp only [State.setPacket, Function.update_of_ne h, hs]

def linkOutput : Act N → Option Pbuf
  | .output p => some p
  | _ => none

/-- The link output is given at most MAX_ETH_PACKET_SIZE bytes. -/
def OutputFits (a : Act N) : Prop := ∀ p ∈ linkOutput a, p.payload.length ≤ maxEthPacketSize

instance (a : Act N) : Decidable (OutputFits a) := inferInstanceAs (Decidable (∀ p ∈ linkOutput a, _))

theorem packetStep_sized (reads : ReadsFit D) (hz : Sized s) (ho : Ordered s) (st : PacketStep D s a u) :
    Sized u := by
  cases st with
  | clear pc hi =>
    have hclear : (List.replicate maxEthPacketSize (0xFF : Byte)).length = maxEthPacketSize :=
      List.length_replicate
    exact ⟨setPacket_sizes hz.bufs hclear _, hz.pktBuf, hz.reply, hz.received, hz.outputs⟩
  | @readFrame r w pc call ok =>
    obtain ⟨hlen, hok⟩ := reads _ _ _ _ _ call hz.pktBuf
    obtain ⟨v, hv, hfits⟩ := hok ok
    refine ⟨hz.bufs, hlen, hz.reply, fun x hx => ?_, hz.outputs⟩
    rcases List.mem_append.mp hx with hx | hx
    · exact hz.received x hx
    · obtain rfl := List.mem_singleton.mp hx
      simp only [State.packetLen, State.afterRead, hv, Option.getD_some]
      exact hfits
  | readNothing pc call other =>
    exact ⟨hz.bufs, (reads _ _ _ _ _ call hz.pktBuf).1, hz.reply, hz.received, hz.outputs⟩
  | @fill b pc =>
    have hlen : s.packetLen.toNat ≤ maxEthPacketSize :=
      uncopied_fits hz ho (s.pktBuf.take s.packetLen.toNat, s.packetLen) (by simp [uncopied, pc])
    have hfill := fill_length (hz.pktBuf ▸ hlen) (hz.bufs b ▸ hlen)
    exact ⟨setPacket_sizes hz.bufs (hfill.trans (hz.bufs b)) b, hz.pktBuf, hz.reply, hz.received, hz.outputs⟩
  | publish | publishFails | publishDone | takeFree | sendReady | pollTransmit | pollNothing | write
  | giveBackSent | wake => exact ⟨hz.bufs, hz.pktBuf, hz.reply, hz.received, hz.outputs⟩

theorem ipStep_sized (h : Sound true s) (hz : Sized s) (fits : OutputFits a) (st : IpStep true s a u) :
    Sized u := by
  have hbranch := h.branch rfl
  cases st with
  | @scribble c b buf pc holds ptr len =>
    exact ⟨setPacket_sizes hz.bufs (len.trans (hz.bufs b)) b, hz.pktBuf, hz.reply, hz.received, hz.outputs⟩
  | @output c p b q pc got =>
    refine ⟨hz.bufs, hz.pktBuf, fun c' b' p' h => ?_, hz.received, hz.outputs⟩
    obtain ⟨-, -, rfl⟩ := IpPc.fillResp.inj h
    exact fits p rfl
  | @fillResp c b p pc =>
    have hlen : p.len.toNat ≤ maxEthPacketSize := p.len_toNat ▸ hz.reply c b p pc
    have hfill : ((s.ethPackets b).fill p.payload p.len).buf.length = (s.ethPackets b).buf.length :=
      fill_length (Nat.le_of_eq p.len_toNat) (hz.bufs b ▸ hlen)
    refine ⟨setPacket_sizes hz.bufs (hfill.trans (hz.bufs b)) b, hz.pktBuf, nofun, hz.received, fun x hx => ?_⟩
    rcases List.mem_append.mp hx with hx | hx
    · exact hz.outputs x hx
    · obtain rfl := List.mem_singleton.mp hx
      exact hlen
  | @stackReturns c pc =>
    refine ⟨hz.bufs, hz.pktBuf, fun c' b' p' h => ?_, hz.received, hz.outputs⟩
    cases c <;> cases h
  | ping noLwip | noPing noLwip => cases noLwip
  | reply pc =>
    rw [pc] at hbranch
    cases hbranch
  | outputDrops | releaseKeeps => exact ⟨hz.bufs, hz.pktBuf, hz.reply, hz.received, hz.outputs⟩
  | _ => exact ⟨hz.bufs, hz.pktBuf, nofun, hz.received, hz.outputs⟩

theorem step_sized (reads : ReadsFit D) (h : Sound true s) (hz : Sized s) (ho : Ordered s)
    (fits : OutputFits a) (st : Step D true s a u) : Sized u := by
  cases st with
  | packet live step => exact packetStep_sized reads hz ho step
  | ip live step => exact ipStep_sized h hz fits step
  | device live act acts next =>
    subst next
    exact ⟨hz.bufs, hz.pktBuf, hz.reply, hz.received, hz.outputs⟩

def clearing (s : State N W) : Prop := ∃ i, s.packetPc = .clear i

theorem step_clears (hc : ClearsFree s) (alone : owner a = some .ip → ¬ clearing s)
    (st : Step D true s a u) : ClearsFree u := by
  intro i hi hu
  cases st with
  | packet live step =>
    cases step with
    | publish pc h sent =>
      obtain rfl := PacketPc.clear.inj hu
      rw [send_some sent]
      exact List.mem_append_right _ List.mem_cons_self
    | write pc call =>
      dsimp only at hu
      split_ifs at hu
    | publishFails | publishDone | clear | readFrame | readNothing | takeFree | fill | sendReady
    | pollTransmit | pollNothing | giveBackSent | wake => cases hu
  | ip live step =>
    obtain ⟨hown, hpc⟩ := ipStep_owner step
    exact absurd ⟨i, hpc ▸ hu⟩ (alone hown)
  | device live act acts next =>
    subst next
    exact hc i hi hu

theorem step_packetPc (h : owner a ≠ some .packet) (st : Step D true s a u) : u.packetPc = s.packetPc := by
  cases st with
  | packet live step => exact absurd (packetStep_owner step) h
  | ip live step => exact (ipStep_owner step).2
  | device live act acts next =>
    subst next
    rfl

theorem blocked_clearing (h : blocked .packet s = true) : ¬ clearing s := by
  rintro ⟨i, hi⟩
  simp [blocked, hi] at h

/-- Under the cooperative scheduler `ip_stack_task` only runs outside of the body
of the start-up loop. -/
theorem coop_alone {k k' : Task} (h : k = .ip → ¬ clearing s)
    (st : Coop (Step D true) owner (fun k s => blocked k s = true) (s, k) a (u, k')) :
    (owner a = some .ip → ¬ clearing s) ∧ (k' = .ip → ¬ clearing u) := by
  have hcases : (owner a = none ∧ k' = k) ∨ (owner a = some k' ∧ (k' = .ip → ¬ clearing s)) := by
    cases st with
    | stay step same =>
      rcases same with hnone | hsame
      · exact Or.inl ⟨hnone, rfl⟩
      · exact Or.inr ⟨hsame, h⟩
    | switch step other waits =>
      refine Or.inr ⟨other, fun _ => ?_⟩
      cases k with
      | packet => exact blocked_clearing waits
      | ip => exact h rfl
  have hpc : owner a ≠ some .packet → (clearing u ↔ clearing s) := fun hne => by
    unfold clearing
    rw [step_packetPc hne st.step]
  rcases hcases with ⟨hnone, rfl⟩ | ⟨hown, hs⟩
  · have hkeep := hpc (by rw [hnone]; nofun)
    exact ⟨fun hip => absurd (hnone.symm.trans hip) nofun, fun hk => hkeep.not.mpr (h hk)⟩
  · refine ⟨fun hip => hs (Option.some.inj (hown.symm.trans hip)), fun hk => ?_⟩
    subst hk
    exact (hpc (by rw [hown]; nofun)).not.mpr (hs rfl)

/-- Neither of the two copies is larger than its source or its destination. -/
structure CopiesFit (s : State N W) : Prop where
  frame : ∀ b, s.packetPc = .fill b →
    s.packetLen.toNat ≤ s.pktBuf.length ∧ s.packetLen.toNat ≤ (s.ethPackets b).buf.length
  reply : ∀ c b p, s.ipPc = .fillResp c b p → p.len.toNat ≤ (s.ethPackets b).buf.length

theorem copies_fit (hz : Sized s) (ho : Ordered s) : CopiesFit s where
  frame := fun b pc => by
    have hlen : s.packetLen.toNat ≤ maxEthPacketSize :=
      uncopied_fits hz ho (s.pktBuf.take s.packetLen.toNat, s.packetLen) (by simp [uncopied, pc])
    exact ⟨hz.pktBuf ▸ hlen, hz.bufs b ▸ hlen⟩
  reply := fun c b p pc => by
    rw [p.len_toNat, hz.bufs b]
    exact hz.reply c b p pc

/-- The frames reach lwIP, and the replies the controller, unchanged and in
order, and no copy overruns a buffer. -/
theorem frames_flow_in_order {M : Machine Call Call.Reply W} {idle : W → W → Prop} {cfg : Conf}
    {ctx : Option SpiContext} {w : W} {pktBuf : List Byte} {statusVec : ReceiveStatusVector}
    {pbufCst : PbufCustom N} {first last : Task} {t : List ((State N W × Task) × Act N)}
    (run : CoopRun (driverDevice M idle cfg ctx) true (start w pktBuf statusVec pbufCst, first) t (s, last))
    (size : pktBuf.length = maxEthPacketSize) (frees : ∀ e ∈ t, FreesBeforeReturn e.1.1 e.2)
    (fits : ∀ e ∈ t, OutputFits e.2) :
    s.inputs.map Prod.snd <+: s.received ∧ s.written.map (fun x => x.2.1) <+: s.outputs ∧
      (∀ b ∈ s.ready.items ++ s.transmit.items, (s.ethPackets b).usedBytes.toNat ≤ maxEthPacketSize) ∧
      CopiesFit s := by
  have hstart : Sized (start w pktBuf statusVec pbufCst) :=
    ⟨fun b => List.length_replicate, size, nofun, nofun, nofun⟩
  have hinv := run.invariant (C := fun x a => FreesBeforeReturn x.1 a ∧ OutputFits a)
    (I := fun x => Sound true x.1 ∧ ClearsFree x.1 ∧ Sized x.1 ∧ Ordered x.1 ∧ (x.2 = .ip → ¬ clearing x.1))
    (fun e he => ⟨frees e he, fits e he⟩)
    ⟨start_sound w pktBuf statusVec pbufCst, nofun, hstart, ⟨rfl, rfl⟩, fun _ => nofun⟩ ?_
  · obtain ⟨-, -, hz, ho, -⟩ := hinv
    refine ⟨⟨_, ho.inputs⟩, ⟨_, ho.outputs⟩, fun b hb => used_fits hz ho b ?_, copies_fit hz ho⟩
    simp only [inbound, outbound, List.mem_append] at hb ⊢
    grind
  · rintro ⟨s, k⟩ a ⟨u, k'⟩ ⟨hs, hc, hz, ho, ha⟩ ⟨hfree, hfit⟩ st
    obtain ⟨halone, ha'⟩ := coop_alone ha st
    have reads := driverDevice_readsFit M idle cfg ctx
    exact ⟨step_sound hs (fun _ => hfree) st.step, step_clears hc halone st.step,
      step_sized reads hs hz ho hfit st.step, step_ordered hs hc hz ho st.step, ha'⟩

end

theorem frames_flow_in_order_echo :
    ∃ (s : State maxEthPackets PingSource) (last : Task)
      (t : List ((State maxEthPackets PingSource × Task) × Act maxEthPackets)),
      CoopRun pingDriver true (pingStart 1, .ip) t (s, last) ∧ (∀ e ∈ t, FreesBeforeReturn e.1.1 e.2) ∧
        (∀ e ∈ t, OutputFits e.2) ∧ s.inputs.length = 1 ∧ s.written.length = 1 ∧
        s.inputs.map Prod.snd <+: s.received ∧ s.written.map (fun x => x.2.1) <+: s.outputs ∧
        (∀ b ∈ s.ready.items ++ s.transmit.items, (s.ethPackets b).usedBytes.toNat ≤ maxEthPacketSize) ∧
        CopiesFit s := by
  have hrun : (fireAll pingCoop oneEcho (pingStart 1, .ip)).map
      (fun x => (x.1.inputs.length, x.1.written.length)) = some (1, 1) := by
    decide +kernel
  obtain ⟨⟨s, last⟩, hs, hlengths⟩ := Option.map_eq_some_iff.mp hrun
  obtain ⟨hin, hout⟩ := Prod.mk.inj hlengths
  have hfrees : ∀ e ∈ fireTrace pingCoop oneEcho (pingStart 1, .ip), FreesBeforeReturn e.1.1 e.2 := by
    decide +kernel
  have hfits : ∀ e ∈ fireTrace pingCoop oneEcho (pingStart 1, .ip), OutputFits e.2 := by
    decide +kernel
  exact ⟨s, last, _, pingCoop_run hs, hfrees, hfits, hin, hout,
    frames_flow_in_order (pingCoop_run hs) List.length_replicate hfrees hfits⟩

end Stm32NetworkStack.FrameFlow
