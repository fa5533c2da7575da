import Stm32NetworkStack.LwipChecksum

set_option autoImplicit false

/-!
# Echo requests in lwIP

What `icmp_input` makes of a message behind an IP header that `ip4_input` has
accepted: the checks, the copy into a pbuf of its own where the received one
has no room for a link header, the reply, and its two checksums. Words of the
headers are as the machine loads them.
-/
namespace Stm32NetworkStack.IcmpEcho

open InternetChecksum OnesCongruence Enc28Registers LwipChecksum

abbrev IpAddr := BitVec 32

structure IpHdr where
  vHl : Byte
  tos : Byte
  len : Word
  id : Word
  offset : Word
  ttl : Byte
  proto : Byte
  chksum : Word
  src : IpAddr
  dest : IpAddr
  /-- what is between the fixed part of the header and the message -/
  options : List Byte

def storeLong (x : ℕ) : List Byte := storeWord x ++ storeWord (x / 0x10000)

def IpHdr.bytes (h : IpHdr) : List Byte :=
  [h.vHl, h.tos] ++ storeWord h.len.toNat ++ storeWord h.id.toNat ++ storeWord h.offset.toNat ++
    [h.ttl, h.proto] ++ (storeWord h.chksum.toNat ++ (storeLong h.src.toNat ++ storeLong h.dest.toNat ++ h.options))

def iphHlBytes (h : IpHdr) : ℕ := (h.vHl.toNat &&& 0x0F) * 4

/-- The interface that accepts the packet. -/
structure Netif where
  ipAddr : IpAddr
  netmask : IpAddr
  flagBroadcast : Bool

def ip4AddrIsmulticast (addr : IpAddr) : Bool := addr &&& 0x000000F0#32 = 0x000000E0#32

def ip4AddrIsbroadcast (addr : IpAddr) (netif : Netif) : Bool :=
  if ~~~addr = 0#32 ∨ addr = 0#32 then true
  else if netif.flagBroadcast = false then false
  else if addr = netif.ipAddr then false
  else addr &&& netif.netmask = netif.ipAddr &&& netif.netmask ∧
    addr &&& ~~~netif.netmask = 0xFFFFFFFF#32 &&& ~~~netif.netmask

def totLen (p : List Pbuf) : ℕ := (bytes p).length

/-- The room in front of the payload, if it is in the pbuf itself. -/
def pbufAddHeader (front : Option ℕ) (totLen size : ℕ) : Bool :=
  match front with
  | some room => 0x10000 > size + totLen && size ≤ room
  | none => false

/-- The rest of a chain begins with a pbuf that ends its packet, and is not the last. -/
def isQueue : List Pbuf → Bool
  | q :: q' :: next => q.payload.length = totLen (q :: q' :: next)
  | _ => false

/-- A copy into one pbuf, a pbuf of the source after the other; `none` is `ERR_VAL`. -/
def pbufCopy : List Pbuf → Option (List Byte)
  | [] => some []
  | q :: next =>
    if isQueue next then none
    else if totLen next = 0 then some q.payload
    else (pbufCopy next).map (q.payload ++ ·)

def icmpEr : Byte := 0
def icmpEcho : Byte := 8
def icmpTtl : Byte := 255
def pbufLinkHlen : ℕ := 14
def ipHlen : ℕ := 20
def sizeofIcmpEchoHdr : ℕ := 8

def adjustChksum (chksum : ℕ) : ℕ :=
  if chksum > lwipHtons (0xFFFF - (icmpEcho.toNat <<< 8)) then
    (chksum + lwipHtons (icmpEcho.toNat <<< 8) + 1) % 0x10000
  else (chksum + lwipHtons (icmpEcho.toNat <<< 8)) % 0x10000

/-- The message with its type set and its checksum adjusted. -/
def echoReply : List Byte → List Byte
  | _ :: code :: lo :: hi :: rest =>
    icmpEr :: code :: (storeWord (adjustChksum (lo.toNat + 256 * hi.toNat)) ++ rest)
  | message => message

def replyHdr (address : ℕ) (iphdr : IpHdr) : IpHdr :=
  let h := { iphdr with src := iphdr.dest, dest := iphdr.src, ttl := icmpTtl, chksum := 0#16 }
  { h with chksum := BitVec.ofNat 16 (inetChksum address h.bytes) }

/-- The pbuf the reply is made in: the received one, or a new one when `pbuf_alloc` has memory. -/
def replyPbuf (front : Option ℕ) (memory : Bool) (hlen : ℕ) (p : List Pbuf) : Option (List Byte) :=
  if pbufAddHeader front (totLen p) (hlen + pbufLinkHlen) then some (bytes p)
  else if (totLen p + hlen) % 0x10000 < totLen p then none
  else if memory = false then none
  else pbufCopy p

/-- What is passed to `ip4_output_if`, if anything: the header and the message. -/
def icmpInput (netif : Netif) (address : ℕ) (front : Option ℕ) (memory : Bool) (iphdr : IpHdr) (p : List Pbuf) :
    Option (IpHdr × List Byte) :=
  if iphHlBytes iphdr < ipHlen then none
  else if (p.head?.map fun q => q.payload.length).getD 0 < 4 then none
  else if (bytes p).head? ≠ some icmpEcho then none
  else if ip4AddrIsmulticast iphdr.dest then none
  else if ip4AddrIsbroadcast iphdr.dest netif then none
  else if totLen p < sizeofIcmpEchoHdr then none
  else if inetChksumPbuf p ≠ 0 then none
  else (replyPbuf front memory (iphHlBytes iphdr) p).map fun message =>
    (replyHdr address iphdr, echoReply message)

theorem pbufCopy_bytes {p : List Pbuf} {message : List Byte} (h : pbufCopy p = some message) :
    message = bytes p := by
  induction p generalizing message with
  | nil => exact (Option.some.inj h).symm
  | cons q next ih =>
    have hbytes : bytes (q :: next) = q.payload ++ bytes next := List.flatMap_cons
    simp only [pbufCopy] at h
    split_ifs at h with hqueue hend
    · rw [hbytes, List.length_eq_zero_iff.mp hend, List.append_nil]
      exact (Option.some.inj h).symm
    · obtain ⟨rest, hrest, heq⟩ := Option.map_eq_some_iff.mp h
      rw [hbytes, ← heq, ih hrest]

/-- A chain without empty pbufs is no queue of packets. -/
theorem pbufCopy_some {p : List Pbuf} (hp : ∀ q ∈ p, q.payload ≠ []) : pbufCopy p = some (bytes p) := by
  induction p with
  | nil => rfl
  | cons q next ih =>
    have hnext : ∀ q' ∈ next, q'.payload ≠ [] := fun q' hq => hp q' (List.mem_cons_of_mem q hq)
    have hqueue : isQueue next = false := by
      match next with
      | [] | [_] => rfl
      | q' :: q'' :: rest =>
        have hpos := List.length_pos_of_ne_nil (hnext q'' (List.mem_cons_of_mem q' List.mem_cons_self))
        have hlen : totLen (q' :: q'' :: rest) =
            q'.payload.length + (q''.payload.length + (bytes rest).length) := by
          unfold totLen bytes
          rw [List.flatMap_cons, List.flatMap_cons, List.length_append, List.length_append]
        apply decide_eq_false
        omega
    simp only [pbufCopy]
    rw [hqueue, ih hnext, if_neg Bool.false_ne_true]
    split_ifs with hend
    · rw [show bytes (q :: next) = q.payload ++ bytes next from List.flatMap_cons,
        List.length_eq_zero_iff.mp hend, List.append_nil]
    · rfl

theorem replyPbuf_bytes {front : Option ℕ} {memory : Bool} {hlen : ℕ} {p : List Pbuf} {message : List Byte}
    (h : replyPbuf front memory hlen p = some message) : message = bytes p := by
  unfold replyPbuf at h
  split_ifs at h
  · exact (Option.some.inj h).symm
  · exact pbufCopy_bytes h

/-- The carry is added by hand: to adjust is to add in ones' complement. -/
theorem adjustChksum_eq {chksum : ℕ} (h : chksum ≤ 0xFFFF) : adjustChksum chksum = onesAdd 0xFFFF chksum 8 := by
  have hlimit : lwipHtons (0xFFFF - (icmpEcho.toNat <<< 8)) = 0xFFF7 := by decide
  have hword : lwipHtons (icmpEcho.toNat <<< 8) = 8 := by decide
  unfold adjustChksum onesAdd
  rw [hlimit, hword]
  split_ifs <;> omega

/-- What the type loses, the checksum gains. -/
theorem echoReply_valid (code lo hi : Byte) (rest : List Byte) :
    ChecksumValid (echoReply (icmpEcho :: code :: lo :: hi :: rest)) ↔
      ChecksumValid (icmpEcho :: code :: lo :: hi :: rest) := by
  have hlo := lo.isLt
  have hhi := hi.isLt
  have hadd : OnesEq 0xFFFF (onesAdd 0xFFFF (lo.toNat + 256 * hi.toNat) 8) (lo.toNat + 256 * hi.toNat + 8) :=
    onesEq_onesAdd _ _
  have hle : onesAdd 0xFFFF (lo.toNat + 256 * hi.toNat) 8 ≤ 0xFFFF := onesAdd_le (by omega) (by decide)
  have hword : lo.toNat + 256 * hi.toNat ≤ 0xFFFF := by omega
  have heven (type : Byte) : [type, code].length % 2 = 0 := by simp
  have hreply := value_aligned (heven icmpEr) hle rest
  have hrequest := value_aligned (heven icmpEcho) hword rest
  have hstore : storeWord (lo.toNat + 256 * hi.toNat) = [lo, hi] := by
    unfold storeWord
    have hfirst : BitVec.ofNat 8 (lo.toNat + 256 * hi.toNat) = lo := by
      apply BitVec.eq_of_toNat_eq
      rw [BitVec.toNat_ofNat]
      omega
    have hsecond : BitVec.ofNat 8 ((lo.toNat + 256 * hi.toNat) / 256) = hi := by
      apply BitVec.eq_of_toNat_eq
      rw [BitVec.toNat_ofNat]
      omega
    rw [hfirst, hsecond]
  have htype : value ([icmpEcho, code] ++ rest) = value ([icmpEr, code] ++ rest) + 8 := by
    change 8 + 256 * (code.toNat + 256 * value rest) = 0 + 256 * (code.toNat + 256 * value rest) + 8
    omega
  rw [hstore, htype] at hrequest
  rw [checksumValid_value, checksumValid_value]
  simp only [echoReply]
  rw [adjustChksum_eq (by omega)]
  apply OnesEq.multiple_iff
  refine hreply.trans (OnesEq.trans ?_ hrequest.symm)
  rw [Nat.add_assoc, Nat.add_comm 8]
  exact OnesEq.add (.refl _) hadd

theorem bytes_length (h : IpHdr) : h.bytes.length = 20 + h.options.length := by
  unfold IpHdr.bytes storeLong storeWord
  simp only [List.length_append, List.length_cons, List.length_nil]
  omega

/-- The checksum is made of the header with a zero in its place. -/
theorem replyHdr_valid (address : ℕ) {iphdr : IpHdr} (h : iphdr.options.length ≤ 40) :
    ChecksumValid (replyHdr address iphdr).bytes := by
  let cleared := { iphdr with src := iphdr.dest, dest := iphdr.src, ttl := icmpTtl, chksum := 0#16 }
  have hlen : cleared.bytes.length = 20 + iphdr.options.length := bytes_length cleared
  have hsum : ChecksumOf (inetChksum address cleared.bytes) cleared.bytes :=
    inetChksum_checksumOf address (by omega)
  have hword : (BitVec.ofNat 16 (inetChksum address cleared.bytes)).toNat = inetChksum address cleared.bytes := by
    have hle : inetChksum address cleared.bytes ≤ 0xFFFF := Nat.sub_le _ _
    rw [BitVec.toNat_ofNat, Nat.mod_eq_of_lt (by omega)]
  have hfill := hsum.fills
    ([iphdr.vHl, iphdr.tos] ++ storeWord iphdr.len.toNat ++ storeWord iphdr.id.toNat ++
      storeWord iphdr.offset.toNat ++ [icmpTtl, iphdr.proto])
    (storeLong iphdr.dest.toNat ++ storeLong iphdr.src.toNat ++ iphdr.options) (by simp [storeWord]) rfl
  rw [← hword] at hfill
  exact hfill

/-- A request that is to be answered. -/
structure EchoRequest (netif : Netif) (iphdr : IpHdr) (p : List Pbuf) : Prop where
  first : ∃ q next, p = q :: next ∧ 4 ≤ q.payload.length
  type : (bytes p).head? = some icmpEcho
  whole : sizeofIcmpEchoHdr ≤ totLen p
  unicast : ip4AddrIsmulticast iphdr.dest = false ∧ ip4AddrIsbroadcast iphdr.dest netif = false
  valid : ChecksumValid (bytes p)

/-- The reply to it: back to the sender, with nothing else changed, and both checksums right. -/
structure RepliesTo (iphdr : IpHdr) (request : List Byte) (reply : IpHdr × List Byte) : Prop where
  header : ∃ chksum, reply.1 = { iphdr with
    src := iphdr.dest, dest := iphdr.src, ttl := icmpTtl, chksum := chksum }
  headerValid : ChecksumValid reply.1.bytes
  message : ∃ code lo hi lo' hi' rest, request = icmpEcho :: code :: lo :: hi :: rest ∧
    reply.2 = icmpEr :: code :: lo' :: hi' :: rest
  messageValid : ChecksumValid reply.2

/-- There is room for a link header in the pbuf received, or memory for one that has it. -/
def HasBuffer (front : Option ℕ) (memory : Bool) (iphdr : IpHdr) (p : List Pbuf) : Prop :=
  pbufAddHeader front (totLen p) (iphHlBytes iphdr + pbufLinkHlen) = true ∨
    memory = true ∧ totLen p + iphHlBytes iphdr < 0x10000 ∧ ∀ q ∈ p, q.payload ≠ []

theorem replyPbuf_some {front : Option ℕ} {memory : Bool} {iphdr : IpHdr} {p : List Pbuf}
    (h : HasBuffer front memory iphdr p) : replyPbuf front memory (iphHlBytes iphdr) p = some (bytes p) := by
  unfold replyPbuf
  rcases h with hroom | ⟨hmemory, hlen, hp⟩
  · rw [if_pos hroom]
  · rw [Nat.mod_eq_of_lt hlen, hmemory, pbufCopy_some hp, if_neg Bool.true_eq_false.mp]
    split_ifs with _ hwrap
    · rfl
    · omega
    · rfl

theorem request_cons {netif : Netif} {iphdr : IpHdr} {p : List Pbuf} (h : EchoRequest netif iphdr p) :
    ∃ code lo hi rest, bytes p = icmpEcho :: code :: lo :: hi :: rest := by
  have hlen : 8 ≤ (bytes p).length := h.whole
  have htype := h.type
  match hb : bytes p with
  | t :: code :: lo :: hi :: rest =>
    rw [hb] at htype
    exact ⟨code, lo, hi, rest, by rw [Option.some.inj htype]⟩
  | [] | [_] | [_, _] | [_, _, _] => simp [hb] at hlen

/-- What is answered is a request addressed to this host whose checksum is right, and it is
answered with a valid reply, however it was cut into pbufs; and each such request is, if there
is a buffer for the reply. -/
theorem icmp_input_replies (netif : Netif) (address : ℕ) (front : Option ℕ) (memory : Bool) {iphdr : IpHdr}
    {p : List Pbuf} (hhdr : iphdr.options.length + ipHlen = iphHlBytes iphdr) (hp : Chain p) :
    (∀ reply, icmpInput netif address front memory iphdr p = some reply →
      EchoRequest netif iphdr p ∧ RepliesTo iphdr (bytes p) reply) ∧
    (EchoRequest netif iphdr p → HasBuffer front memory iphdr p →
      icmpInput netif address front memory iphdr p ≠ none) := by
  have hchecks := (inetChksumPbuf_checksumOf hp).checks
  have hoptions : iphdr.options.length ≤ 40 := by
    have hle : iphdr.vHl.toNat &&& 0x0F ≤ 0x0F := Nat.and_le_right
    unfold iphHlBytes ipHlen at hhdr
    omega
  constructor
  · intro reply hreply
    unfold icmpInput at hreply
    split_ifs at hreply with hshort hfirst htype hmulti hbroad hlen hsum
    obtain ⟨message, hmessage, rfl⟩ := Option.map_eq_some_iff.mp hreply
    rw [replyPbuf_bytes hmessage]
    have hrequest : EchoRequest netif iphdr p := by
      refine ⟨?_, not_not.mp htype, Nat.le_of_not_lt hlen, ⟨?_, ?_⟩, hchecks.mp (not_not.mp hsum)⟩
      · match p with
        | [] => exact absurd (Nat.zero_lt_succ 3) hfirst
        | q :: next => exact ⟨q, next, rfl, Nat.le_of_not_lt hfirst⟩
      · exact Bool.eq_false_iff.mpr hmulti
      · exact Bool.eq_false_iff.mpr hbroad
    obtain ⟨code, lo, hi, rest, hbytes⟩ := request_cons hrequest
    refine ⟨hrequest, ⟨_, rfl⟩, replyHdr_valid address hoptions, ?_, ?_⟩
    · rw [hbytes]
      exact ⟨code, lo, hi, _, _, rest, rfl, rfl⟩
    · rw [hbytes]
      exact (echoReply_valid code lo hi rest).mpr (hbytes ▸ hrequest.valid)
  · intro hrequest hbuffer hnone
    obtain ⟨q, next, rfl, hfirst⟩ := hrequest.first
    have hsum := hchecks.mpr hrequest.valid
    have hhlen : ¬ iphHlBytes iphdr < ipHlen := by omega
    have hlen : ¬ ((q :: next).head?.map fun q => q.payload.length).getD 0 < 4 := Nat.not_lt.mpr hfirst
    unfold icmpInput at hnone
    rw [if_neg hhlen, if_neg hlen, if_neg (not_not.mpr hrequest.type),
      if_neg (Bool.eq_false_iff.mp hrequest.unicast.1), if_neg (Bool.eq_false_iff.mp hrequest.unicast.2),
      if_neg (Nat.not_lt.mpr hrequest.whole), if_neg (not_not.mpr hsum), replyPbuf_some hbuffer] at hnone
    cases hnone

def pingHdr : IpHdr := ⟨0x45, 0, 0x2000, 0x3412, 0, 64, 1, 0, 0x6401A8C0, 0x0B01A8C0, []⟩

/-- A received frame refers to a buffer of the driver and has no room in front; its checksum
is one that carries when the type changes. -/
def pingChain : List Pbuf := [⟨0x20000022, [8, 0, 0xF8, 0xFF, 0, 1, 0, 3, 0xFE, 0xFB, 0, 0]⟩]

theorem icmp_input_replies_ping :
    icmpInput ⟨0x0B01A8C0, 0, true⟩ 0x2000000E none true pingHdr pingChain ≠ none := by
  have hhdr : pingHdr.options.length + ipHlen = iphHlBytes pingHdr := by decide
  have hchain : Chain pingChain := by simp [Chain, pingChain]
  have hrequest : EchoRequest ⟨0x0B01A8C0, 0, true⟩ pingHdr pingChain :=
    ⟨⟨_, _, rfl, by decide⟩, rfl, by decide, ⟨by decide, by decide⟩, by decide⟩
  apply (icmp_input_replies ⟨0x0B01A8C0, 0, true⟩ 0x2000000E none true hhdr hchain).2 hrequest
  exact Or.inr ⟨rfl, by decide, by simp [pingChain]⟩

end Stm32NetworkStack.IcmpEcho
