import Mathlib.Data.List.GetD
import Mathlib.Logic.Function.Basic
import Stm32NetworkStack.InternetChecksum
import Stm32NetworkStack.PingResponder

set_option autoImplicit false

/-!
# Ping replies and the packets they answer

What `enc28_debug.c` writes into the response, byte by byte, against the
packet formats: the reply is the mirrored request. Its IPv4 checksum stays
right; its ICMP checksum does unless adding 8 to the field carries out of it.
The recogniser reads the ICMP header where it is when there are no options.
-/
namespace Stm32NetworkStack.PingPackets
open Enc28Registers PingResponder InternetChecksum

/-- `n` bytes of a packet from offset `i` on. -/
def field (buf : List Byte) (i n : ℕ) : List Byte := (buf.drop i).take n

theorem field_length {buf : List Byte} {i n : ℕ} (h : i + n ≤ buf.length) :
    (field buf i n).length = n := by
  simp only [field, List.length_take, List.length_drop]
  omega

theorem field_getD {buf : List Byte} {i n k : ℕ} (hk : k < n) :
    (field buf i n).getD k 0 = byteAt buf (i + k) := by
  simp only [field, byteAt, List.getD_eq_getElem?_getD, List.getElem?_take, List.getElem?_drop,
    if_pos hk]

/-- Fields are compared byte by byte. -/
theorem field_ext {a b : List Byte} {i j n : ℕ} (ha : i + n ≤ a.length) (hb : j + n ≤ b.length)
    (h : ∀ k < n, byteAt a (i + k) = byteAt b (j + k)) : field a i n = field b j n := by
  apply List.ext_getElem
  · rw [field_length ha, field_length hb]
  · intro k hk _
    have hk : k < n := by rwa [field_length ha] at hk
    have h := h k hk
    rw [← field_getD hk, ← field_getD hk] at h
    rwa [List.getD_eq_getElem _ _ (by rwa [field_length ha]),
      List.getD_eq_getElem _ _ (by rwa [field_length hb])] at h

theorem field_append {buf : List Byte} (i m n : ℕ) :
    field buf i (m + n) = field buf i m ++ field buf (i + m) n := by
  simp only [field, List.take_add, List.drop_drop]

theorem field_cons {buf : List Byte} {i n : ℕ} (h : i < buf.length) :
    field buf i (n + 1) = byteAt buf i :: field buf (i + 1) n := by
  rw [Nat.add_comm n, field_append]
  simp only [field, byteAt, List.getD_eq_getElem _ _ h, List.drop_eq_getElem_cons h, List.take_succ_cons,
    List.take_zero, List.singleton_append]

/-- A buffer of `n` bytes whose contents are `f`. -/
structure Contains (buf : List Byte) (n : ℕ) (f : ℕ → Byte) : Prop where
  length : buf.length = n
  byte : ∀ k, byteAt buf k = f k

theorem Contains.set {buf : List Byte} {n : ℕ} {f : ℕ → Byte} (h : Contains buf n f) (i : ℕ) (b : Byte)
    (hi : i < n) : Contains (buf.set i b) n (Function.update f i b) := by
  refine ⟨List.length_set.trans h.length, fun k => ?_⟩
  rw [Function.update_apply, ← h.byte k]
  simp only [byteAt, List.getD_eq_getElem?_getD, List.getElem?_set]
  have := h.length
  grind

theorem Contains.copyField {dst : List Byte} {n : ℕ} {f : ℕ → Byte} (h : Contains dst n f)
    (src : List Byte) (i j m : ℕ) (hs : i + m ≤ src.length) (hd : j + m ≤ n) :
    Contains (copyField src i dst j m) n
      (fun k => if j ≤ k ∧ k < j + m then byteAt src (i + (k - j)) else f k) := by
  obtain rfl := h.length
  constructor
  · simp only [PingResponder.copyField, List.length_append, List.length_take, List.length_drop]
    omega
  · intro k
    rw [← h.byte k]
    simp only [byteAt, PingResponder.copyField, List.getD_eq_getElem?_getD, List.getElem?_append,
      List.getElem?_take, List.getElem?_drop, List.length_append, List.length_take,
      List.length_drop]
    grind

/-- The checksum field of the ICMP header, as the code reads it. -/
def checksumField (pktBuf : List Byte) : Word := word (byteAt pktBuf 37) (byteAt pktBuf 36)

def mirroredByte (pktBuf respBuf : List Byte) (n k : ℕ) : Byte :=
  if k < 6 then byteAt pktBuf (k + 6)
  else if k < 12 then byteAt pktBuf (k - 6)
  else if 26 ≤ k ∧ k < 30 then byteAt pktBuf (k + 4)
  else if 30 ≤ k ∧ k < 34 then byteAt pktBuf (k - 4)
  else if k = 34 then 0
  else if k = 36 then lowByte (checksumField pktBuf + 0x8).toNat
  else if k = 37 then BitVec.ofNat 8 ((checksumField pktBuf + 0x8).toNat / 256)
  else if k < n then byteAt pktBuf k else byteAt respBuf k

theorem pingReply_contains {pktBuf respBuf : List Byte} {size : Word} (hn : 42 ≤ size.toNat)
    (hp : size.toNat ≤ pktBuf.length) (hr : size.toNat ≤ respBuf.length) :
    Contains (pingReply pktBuf size respBuf) respBuf.length
      (mirroredByte pktBuf respBuf size.toNat) := by
  have h₀ : Contains respBuf respBuf.length (byteAt respBuf) := ⟨rfl, fun k => rfl⟩
  have copied := h₀.copyField pktBuf 0 0 size.toNat (by omega) (by omega)
  have macs := (copied.copyField pktBuf 6 0 6 (by omega)
    (by omega)).copyField pktBuf 0 6 6 (by omega) (by omega)
  have addrs := (macs.copyField pktBuf 26 30 4 (by omega)
    (by omega)).copyField pktBuf 30 26 4 (by omega) (by omega)
  have typed := addrs.set 34 0 (by omega)
  have h36 : byteAt _ 36 = byteAt pktBuf 36 := (typed.byte 36).trans (by simp; omega)
  have h37 : byteAt _ 37 = byteAt pktBuf 37 := (typed.byte 37).trans (by simp; omega)
  have summed := (typed.set 36 (lowByte (checksumField pktBuf + 0x8).toNat) (by omega)).set
    37 (BitVec.ofNat 8 ((checksumField pktBuf + 0x8).toNat / 256)) (by omega)
  rw [checksumField, ← h36, ← h37] at summed
  refine ⟨summed.length, fun k => (summed.byte k).trans ?_⟩
  rw [h36, h37]
  unfold mirroredByte checksumField
  simp only [Function.update_apply]
  grind

theorem isPingRequest_iff (pktBuf : List Byte) (pktSize : Word) :
    enc28DebugIsPingRequest pktBuf pktSize = true ↔ 42 ≤ pktSize.toNat ∧ byteAt pktBuf 12 = 0x08 ∧
      byteAt pktBuf 13 = 0x00 ∧ byteAt pktBuf 23 = 0x1 ∧ byteAt pktBuf 34 = 0x8 := by
  have htype : word (byteAt pktBuf 13) (byteAt pktBuf 12) = 0x08 ↔
      byteAt pktBuf 12 = 0x08 ∧ byteAt pktBuf 13 = 0x00 := by
    have := (byteAt pktBuf 12).isLt
    rw [BitVec.toNat_eq, BitVec.toNat_eq, BitVec.toNat_eq, word_toNat]
    change _ = 8 ↔ _ = 8 ∧ _ = 0
    omega
  unfold enc28DebugIsPingRequest
  by_cases hs : pktSize.toNat < 42
  · rw [if_pos (show pktSize.toNat < ethHeaderSize + ipv4HeaderSize + icmpPingHeaderSize from hs)]
    simp only [Bool.false_eq_true, false_iff]
    omega
  · rw [if_neg (show ¬pktSize.toNat < ethHeaderSize + ipv4HeaderSize + icmpPingHeaderSize from hs),
      Bool.and_eq_true, Bool.and_eq_true, beq_iff_eq, beq_iff_eq, beq_iff_eq, htype]
    constructor
    · rintro ⟨⟨⟨h12, h13⟩, h23⟩, h34⟩
      exact ⟨by omega, h12, h13, h23, h34⟩
    · rintro ⟨_, h12, h13, h23, h34⟩
      exact ⟨⟨⟨h12, h13⟩, h23⟩, h34⟩

/-- The reply against the request: `resp` is what the response buffer holds
after a request of `n` bytes, `respBuf` what it held before. -/
structure MirrorsRequest (pktBuf respBuf : List Byte) (n : ℕ) (resp : List Byte) : Prop where
  length : resp.length = respBuf.length
  macDest : field resp 0 6 = field pktBuf 6 6
  macSrc : field resp 6 6 = field pktBuf 0 6
  addrSrc : field resp 26 4 = field pktBuf 30 4
  addrDest : field resp 30 4 = field pktBuf 26 4
  type : byteAt resp 34 = 0
  others : ∀ k < n, 12 ≤ k → ¬(26 ≤ k ∧ k < 34) → k ≠ 34 → ¬(36 ≤ k ∧ k < 38) →
    byteAt resp k = byteAt pktBuf k
  beyond : ∀ k, n ≤ k → byteAt resp k = byteAt respBuf k
  header : ChecksumValid (field resp 14 20) ↔ ChecksumValid (field pktBuf 14 20)

theorem field_header (buf : List Byte) :
    field buf 14 20 = field buf 14 12 ++ (field buf 26 4 ++ field buf 30 4) := by
  rw [← field_append, ← field_append]

theorem pingReply_mirrors {pktBuf respBuf : List Byte} {size : Word} (hn : 42 ≤ size.toNat)
    (hp : size.toNat ≤ pktBuf.length) (hr : size.toNat ≤ respBuf.length) :
    MirrorsRequest pktBuf respBuf size.toNat (pingReply pktBuf size respBuf) := by
  have h := pingReply_contains hn hp hr
  have hlen : size.toNat ≤ (pingReply pktBuf size respBuf).length := by
    rw [h.length]
    exact hr
  have moved : ∀ i j n, i + n ≤ size.toNat → j + n ≤ size.toNat →
      (∀ k < n, mirroredByte pktBuf respBuf size.toNat (i + k) = byteAt pktBuf (j + k)) →
      field (pingReply pktBuf size respBuf) i n = field pktBuf j n := fun i j n hi hj hk =>
    field_ext (by omega) (by omega) fun k hkn => (h.byte _).trans (hk k hkn)
  have macDest := moved 0 6 6 (by omega) (by omega) (by unfold mirroredByte; grind)
  have macSrc := moved 6 0 6 (by omega) (by omega) (by unfold mirroredByte; grind)
  have addrSrc := moved 26 30 4 (by omega) (by omega) (by unfold mirroredByte; grind)
  have addrDest := moved 30 26 4 (by omega) (by omega) (by unfold mirroredByte; grind)
  have front := moved 14 14 12 (by omega) (by omega) (by unfold mirroredByte; grind)
  refine ⟨h.length, macDest, macSrc, addrSrc, addrDest, h.byte 34, fun k hk h12 h26 h34 h36 => ?_,
    fun k hk => ?_, ?_⟩
  · rw [h.byte]
    unfold mirroredByte
    grind
  · rw [h.byte]
    unfold mirroredByte
    grind
  · rw [field_header, field_header, front, addrSrc, addrDest]
    apply checksumValid_swap
    · rw [field_length (by omega)]
    · rw [field_length (by omega)]
    · rw [field_length (by omega)]

/-- A call that does not answer leaves the response alone; the answer to an
accepted packet is the mirrored request. -/
theorem handlePing_mirrors_request (pktBuf respBuf : List Byte) (pktSize respSize : Word)
    (hp : pktSize.toNat ≤ pktBuf.length) (hr : respSize.toNat ≤ respBuf.length) :
    (pktSize ≠ respSize ∨ enc28DebugIsPingRequest pktBuf pktSize = false →
      (enc28DebugHandlePing pktBuf pktSize respBuf respSize).1 < 0 ∧
      (enc28DebugHandlePing pktBuf pktSize respBuf respSize).2 = respBuf) ∧
    (pktSize = respSize → enc28DebugIsPingRequest pktBuf pktSize = true →
      (enc28DebugHandlePing pktBuf pktSize respBuf respSize).1 = 0 ∧
      MirrorsRequest pktBuf respBuf pktSize.toNat
        (enc28DebugHandlePing pktBuf pktSize respBuf respSize).2) := by
  unfold enc28DebugHandlePing
  constructor
  · intro h
    by_cases hs : pktSize = respSize
    · have hf := h.resolve_left (not_not_intro hs)
      rw [if_neg (not_not_intro hs), hf]
      exact ⟨show (-2 : ℤ) < 0 by decide, rfl⟩
    · rw [if_pos hs]
      exact ⟨show (-1 : ℤ) < 0 by decide, rfl⟩
  · rintro rfl accepted
    have hn := ((isPingRequest_iff _ _).mp accepted).1
    rw [if_neg (not_not_intro rfl), accepted, Bool.not_true, if_neg Bool.false_ne_true]
    exact ⟨rfl, pingReply_mirrors hn hp hr⟩

/-- A frame with an IPv4 header whose first byte is `versionIhl` and whose first
flags and offset byte is `fragment`. -/
def icmpFrame (versionIhl fragment : Byte) (rest : List Byte) : List Byte :=
  [2, 0, 0, 0, 0, 1, 2, 0, 0, 0, 0, 2, 0x08, 0x00, versionIhl, 0, 0, BitVec.ofNat 8 (20 + rest.length),
    0, 0, fragment, 0, 64, 1, 0, 0, 10, 0, 0, 2, 10, 0, 0, 1] ++ rest

def echoFrame : List Byte := icmpFrame 0x45 0 [8, 0, 0xF7, 0xFF, 0, 0, 0, 0]

theorem handlePing_mirrors_echoFrame :
    (enc28DebugHandlePing echoFrame 42 (List.replicate 42 0) 42).1 = 0 ∧
      MirrorsRequest echoFrame (List.replicate 42 0) 42
        (enc28DebugHandlePing echoFrame 42 (List.replicate 42 0) 42).2 :=
  (handlePing_mirrors_request echoFrame (List.replicate 42 0) 42 42 (by decide) (by decide)).2 rfl
    (by decide)

/-- IHL, the length of the IPv4 header in words. -/
def ihl (pktBuf : List Byte) : ℕ := (byteAt pktBuf ethHeaderSize).toNat % 16

def version (pktBuf : List Byte) : ℕ := (byteAt pktBuf ethHeaderSize).toNat / 16

def fragmentOffset (pktBuf : List Byte) : ℕ :=
  256 * ((byteAt pktBuf 20).toNat % 32) + (byteAt pktBuf 21).toNat

def icmpOffset (pktBuf : List Byte) : ℕ := ethHeaderSize + 4 * ihl pktBuf

/-- The reply's ICMP message of `n + 4` bytes, and the request's. -/
theorem reply_message {pktBuf respBuf : List Byte} {size : Word} {n : ℕ} (hn : 42 ≤ size.toNat)
    (hp : size.toNat ≤ pktBuf.length) (hr : size.toNat ≤ respBuf.length)
    (inside : 34 + (n + 4) ≤ size.toNat) :
    field pktBuf 34 (n + 4) = byteAt pktBuf 34 :: byteAt pktBuf 35 :: byteAt pktBuf 36 ::
      byteAt pktBuf 37 :: field pktBuf 38 n ∧
    field (pingReply pktBuf size respBuf) 34 (n + 4) = 0 :: byteAt pktBuf 35 ::
      lowByte (checksumField pktBuf + 0x8).toNat ::
      BitVec.ofNat 8 ((checksumField pktBuf + 0x8).toNat / 256) :: field pktBuf 38 n := by
  have h := pingReply_contains hn hp hr
  have hlen : size.toNat ≤ (pingReply pktBuf size respBuf).length := by
    rw [h.length]
    exact hr
  have payload : field (pingReply pktBuf size respBuf) 38 n = field pktBuf 38 n := by
    refine field_ext (by omega) (by omega) fun k hk => (h.byte _).trans ?_
    unfold mirroredByte
    grind
  have h35 := h.byte 35
  have hrest : mirroredByte pktBuf respBuf size.toNat 35 = byteAt pktBuf 35 := by
    unfold mirroredByte
    grind
  have front : ∀ buf : List Byte, 38 ≤ buf.length → field buf 34 (n + 4) =
      byteAt buf 34 :: byteAt buf 35 :: byteAt buf 36 :: byteAt buf 37 :: field buf 38 n := by
    intro buf hb
    rw [field_cons (by omega), field_cons (by omega), field_cons (by omega), field_cons (by omega)]
  refine ⟨front pktBuf (by omega), ?_⟩
  rw [front _ (by omega), payload, h35, hrest, h.byte 34, h.byte 36, h.byte 37]
  rfl

/-- Clearing the type takes `0x0800` from the sum. The field, which has its
bytes exchanged, gives it back unless it runs over. -/
theorem adjusted_sum {code lo hi payload : ℕ} (hlo : lo < 256) (hhi : hi < 256)
    (valid : 0xFFFF ∣ 256 * 8 + code + (256 * lo + hi + payload)) :
    (0xFFFF ∣ code + (256 * ((256 * hi + lo + 8) % 0x10000 % 256) +
        (256 * hi + lo + 8) % 0x10000 / 256 + payload) ∧
      0 < code + (256 * ((256 * hi + lo + 8) % 0x10000 % 256) +
        (256 * hi + lo + 8) % 0x10000 / 256 + payload)) ↔ 256 * hi + lo < 0xFFF8 := by
  by_cases hover : 256 * hi + lo < 0xFFF8
  · have hm : (256 * hi + lo + 8) % 0x10000 = 256 * hi + lo + 8 := Nat.mod_eq_of_lt (by omega)
    rw [hm]
    by_cases hcarry : lo + 8 < 256
    · have hl : (256 * hi + lo + 8) % 256 = lo + 8 := by omega
      have hh : (256 * hi + lo + 8) / 256 = hi := by omega
      rw [hl, hh]
      omega
    · have hl : (256 * hi + lo + 8) % 256 = lo + 8 - 256 := by omega
      have hh : (256 * hi + lo + 8) / 256 = hi + 1 := by omega
      rw [hl, hh]
      omega
  · obtain rfl : hi = 255 := by omega
    obtain ⟨d, rfl⟩ : ∃ d, lo = 0xF8 + d := ⟨lo - 0xF8, by omega⟩
    have hm : (256 * 255 + (0xF8 + d) + 8) % 0x10000 = d := by omega
    have hl : d % 256 = d := Nat.mod_eq_of_lt (by omega)
    have hh : d / 256 = 0 := Nat.div_eq_of_lt (by omega)
    rw [hm, hl, hh]
    omega

def icmpMessage (pktBuf : List Byte) (n : ℕ) : List Byte := field pktBuf (icmpOffset pktBuf) n

/-- The checksum of the reply to a request of `n` ICMP bytes. -/
theorem ping_reply_checksum_iff (pktBuf respBuf : List Byte) (pktSize : Word) (n : ℕ)
    (hp : pktSize.toNat ≤ pktBuf.length) (hr : pktSize.toNat ≤ respBuf.length)
    (accepted : enc28DebugIsPingRequest pktBuf pktSize = true) (header : ihl pktBuf = 5)
    (hn : icmpPingHeaderSize ≤ n) (inside : icmpOffset pktBuf + n ≤ pktSize.toNat)
    (valid : ChecksumValid (icmpMessage pktBuf n)) :
    ChecksumValid (icmpMessage (enc28DebugHandlePing pktBuf pktSize respBuf pktSize).2 n) ↔
      (checksumField pktBuf).toNat < 0xFFF8 := by
  obtain ⟨hsize, -, -, -, htype⟩ := (isPingRequest_iff _ _).mp accepted
  have hreply : (enc28DebugHandlePing pktBuf pktSize respBuf pktSize).2 =
      pingReply pktBuf pktSize respBuf := by
    rw [enc28DebugHandlePing, if_neg (not_not_intro rfl), accepted]
    rfl
  have hoff : icmpOffset pktBuf = 34 := by rw [icmpOffset, header]; rfl
  have hoff' : icmpOffset (pingReply pktBuf pktSize respBuf) = 34 := by
    have h14 := (pingReply_contains hsize hp hr).byte 14
    have hsame : mirroredByte pktBuf respBuf pktSize.toNat 14 = byteAt pktBuf 14 := by
      unfold mirroredByte
      grind
    rw [icmpOffset, ihl, ethHeaderSize, h14, hsame]
    exact hoff
  obtain ⟨m, rfl⟩ : ∃ m, n = m + 4 := ⟨n - 4, by unfold icmpPingHeaderSize at hn; omega⟩
  obtain ⟨hreq, hrep⟩ := reply_message (n := m) hsize hp hr (by omega)
  rw [icmpMessage, hoff, hreq, htype, checksumValid_iff] at valid
  rw [hreply, icmpMessage, hoff', hrep, checksumValid_iff]
  have hfield : (checksumField pktBuf).toNat =
      256 * (byteAt pktBuf 37).toNat + (byteAt pktBuf 36).toNat := word_toNat _ _
  have hsum : (checksumField pktBuf + 0x8).toNat =
      (256 * (byteAt pktBuf 37).toNat + (byteAt pktBuf 36).toNat + 8) % 0x10000 := by
    rw [BitVec.toNat_add, hfield]
    rfl
  have hhigh : (256 * (byteAt pktBuf 37).toNat + (byteAt pktBuf 36).toNat + 8) % 0x10000 / 256 % 256 =
      (256 * (byteAt pktBuf 37).toNat + (byteAt pktBuf 36).toNat + 8) % 0x10000 / 256 := by
    omega
  have h8 : (8 : Byte).toNat = 8 := rfl
  have h0 : (0 : Byte).toNat = 0 := rfl
  simp only [networkWords, List.sum_cons, lowByte_toNat, BitVec.toNat_ofNat, hsum, hhigh, h8] at valid ⊢
  rw [hfield, h0, Nat.mul_zero, Nat.zero_add]
  exact adjusted_sum (byteAt pktBuf 36).isLt (byteAt pktBuf 37).isLt valid.1

/-- A request that is answered as it should be. -/
theorem ping_reply_checksum_echoFrame :
    ChecksumValid (icmpMessage
      (enc28DebugHandlePing echoFrame 42 (List.replicate 42 0) 42).2 8) :=
  (ping_reply_checksum_iff echoFrame (List.replicate 42 0) 42 8 (by decide) (by decide) (by decide)
    (by decide) (by decide) (by decide) (by decide)).mpr (by decide)

/-- The field is `F8 FF`, and the carry out of it is lost. -/
def carryFrame : List Byte := icmpFrame 0x45 0 [8, 0, 0xF8, 0xFF, 0xFE, 0xFF, 0, 0]

theorem ping_reply_checksum_loses_carry :
    enc28DebugIsPingRequest carryFrame 42 = true ∧ ihl carryFrame = 5 ∧
      ChecksumValid (icmpMessage carryFrame 8) ∧
      ¬ChecksumValid (icmpMessage
        (enc28DebugHandlePing carryFrame 42 (List.replicate 42 0) 42).2 8) := by
  decide

/-- An Ethernet II frame with an ICMP echo request in an unfragmented IPv4
packet. The fixed part of the IPv4 header is five words. -/
structure IsEchoRequest (pktBuf : List Byte) (pktSize : Word) : Prop where
  etherType : byteAt pktBuf 12 = 0x08 ∧ byteAt pktBuf 13 = 0x00
  version : version pktBuf = 4
  headerLength : 5 ≤ ihl pktBuf
  unfragmented : fragmentOffset pktBuf = 0
  protocol : byteAt pktBuf 23 = 1
  inside : icmpOffset pktBuf + icmpPingHeaderSize ≤ pktSize.toNat
  type : byteAt pktBuf (icmpOffset pktBuf) = 8

/-- The frames whose type byte the recogniser looks at. -/
def CarriesIcmp (pktBuf : List Byte) (pktSize : Word) : Prop :=
  42 ≤ pktSize.toNat ∧ (byteAt pktBuf 12 = 0x08 ∧ byteAt pktBuf 13 = 0x00) ∧ byteAt pktBuf 23 = 1

/-- There is an ICMP header where IHL says. -/
def HasIcmpHeader (pktBuf : List Byte) (pktSize : Word) : Prop :=
  version pktBuf = 4 ∧ 5 ≤ ihl pktBuf ∧ fragmentOffset pktBuf = 0 ∧
    icmpOffset pktBuf + icmpPingHeaderSize ≤ pktSize.toNat

instance (pktBuf : List Byte) (pktSize : Word) : Decidable (HasIcmpHeader pktBuf pktSize) :=
  inferInstanceAs (Decidable (_ ∧ _))

theorem isEchoRequest_iff (pktBuf : List Byte) (pktSize : Word) :
    IsEchoRequest pktBuf pktSize ↔ CarriesIcmp pktBuf pktSize ∧ HasIcmpHeader pktBuf pktSize ∧
      byteAt pktBuf (icmpOffset pktBuf) = 8 := by
  constructor
  · rintro ⟨etherType, version, headerLength, unfragmented, protocol, inside, type⟩
    have hsize : 42 ≤ pktSize.toNat := by
      unfold icmpOffset ethHeaderSize icmpPingHeaderSize at inside
      omega
    exact ⟨⟨hsize, etherType, protocol⟩, ⟨version, headerLength, unfragmented, inside⟩, type⟩
  · rintro ⟨⟨-, etherType, protocol⟩, ⟨version, headerLength, unfragmented, inside⟩, type⟩
    exact ⟨etherType, version, headerLength, unfragmented, protocol, inside, type⟩

instance (pktBuf : List Byte) (pktSize : Word) : Decidable (CarriesIcmp pktBuf pktSize) :=
  inferInstanceAs (Decidable (_ ∧ _))

instance (pktBuf : List Byte) (pktSize : Word) : Decidable (IsEchoRequest pktBuf pktSize) :=
  decidable_of_iff _ (isEchoRequest_iff pktBuf pktSize).symm

/-- Of an IPv4 frame with ICMP in it, byte 34 says what the ICMP type would
say, or is not 8 where there is no ICMP header. -/
def TypeReadInPlace (pktBuf : List Byte) (pktSize : Word) : Prop :=
  CarriesIcmp pktBuf pktSize →
    if HasIcmpHeader pktBuf pktSize then
      (byteAt pktBuf 34 = 8 ↔ byteAt pktBuf (icmpOffset pktBuf) = 8)
    else byteAt pktBuf 34 ≠ 8

theorem recognises_echo_requests_iff (pktBuf : List Byte) (pktSize : Word) :
    (enc28DebugIsPingRequest pktBuf pktSize = true ↔ IsEchoRequest pktBuf pktSize) ↔
      TypeReadInPlace pktBuf pktSize := by
  have accepts : enc28DebugIsPingRequest pktBuf pktSize = true ↔
      CarriesIcmp pktBuf pktSize ∧ byteAt pktBuf 34 = 8 := by
    rw [isPingRequest_iff, CarriesIcmp]
    constructor
    · rintro ⟨hs, h12, h13, h23, h34⟩
      exact ⟨⟨hs, ⟨h12, h13⟩, h23⟩, h34⟩
    · rintro ⟨⟨hs, ⟨h12, h13⟩, h23⟩, h34⟩
      exact ⟨hs, h12, h13, h23, h34⟩
  rw [accepts, isEchoRequest_iff, TypeReadInPlace]
  by_cases hc : CarriesIcmp pktBuf pktSize
  · by_cases hh : HasIcmpHeader pktBuf pktSize
    · simp only [hc, hh, true_and, true_implies, if_true]
    · simp only [hc, hh, true_and, false_and, true_implies, if_false, iff_false]
  · simp only [hc, false_and, false_implies]

/-- Without IPv4 options the header is where the code looks. -/
theorem typeReadInPlace_of_plain {pktBuf : List Byte} {pktSize : Word} (hv : version pktBuf = 4)
    (hi : ihl pktBuf = 5) (hf : fragmentOffset pktBuf = 0) : TypeReadInPlace pktBuf pktSize := by
  intro hc
  have hoff : icmpOffset pktBuf = 34 := by rw [icmpOffset, hi]; rfl
  have hh : HasIcmpHeader pktBuf pktSize :=
    ⟨hv, Nat.le_of_eq hi.symm, hf, hoff ▸ hc.1⟩
  rw [if_pos hh, hoff]

/-- A later fragment whose data begin with 8 is taken for a request, and a
request behind four bytes of options is not. -/
theorem recogniser_misreads_headers :
    (enc28DebugIsPingRequest (icmpFrame 0x45 1 [8, 0, 0xF7, 0xFF, 0, 0, 0, 0]) 42 = true ∧
      ¬IsEchoRequest (icmpFrame 0x45 1 [8, 0, 0xF7, 0xFF, 0, 0, 0, 0]) 42) ∧
    enc28DebugIsPingRequest (icmpFrame 0x46 0 [0x94, 4, 0, 0, 8, 0, 0xF7, 0xFF, 0, 0, 0, 0]) 46 = false ∧
      IsEchoRequest (icmpFrame 0x46 0 [0x94, 4, 0, 0, 8, 0, 0xF7, 0xFF, 0, 0, 0, 0]) 46 := by
  decide

end Stm32NetworkStack.PingPackets
