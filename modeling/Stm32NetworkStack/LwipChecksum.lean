import Mathlib.Tactic.SplitIfs
import Stm32NetworkStack.Enc28Registers
import Stm32NetworkStack.OnesCongruence

set_option autoImplicit false

/-!
# The checksum of lwIP

The three versions of `lwip_standard_chksum` on a little-endian machine, and
the checksums of a chain of pbufs made with it. A word is loaded low byte
first, a `u32_t` wraps, and what a version does depends on the address of the
data. All versions give the one word that is the number of the data's bytes up
to carries around the end, and a chain gives what its bytes in a row give.
-/
namespace Stm32NetworkStack.LwipChecksum

open InternetChecksum OnesCongruence Enc28Registers

def u32 (x : ℕ) : ℕ := x % 0x100000000

def foldU32t (u : ℕ) : ℕ := (u >>> 16) + (u &&& 0xFFFF)

def swapBytesInWord (w : ℕ) : ℕ := ((w &&& 0xFF) <<< 8) ||| ((w &&& 0xFF00) >>> 8)

def lwipHtons (n : ℕ) : ℕ := swapBytesInWord n

/-- The loop of version 1, with the byte that may remain. -/
def sumOctets (acc : ℕ) : List Byte → ℕ
  | hi :: lo :: octetptr => sumOctets (u32 (acc + ((hi.toNat <<< 8) ||| lo.toNat))) octetptr
  | [hi] => u32 (acc + (hi.toNat <<< 8))
  | [] => acc

def lwipStandardChksum1 (dataptr : List Byte) : ℕ :=
  let acc := foldU32t (sumOctets 0 dataptr)
  let acc := if acc &&& 0xFFFF0000 ≠ 0 then foldU32t acc else acc
  lwipHtons (acc % 0x10000)

/-- The first byte of data at an odd address, and the data from the next even address on. -/
def alignStart (odd : Bool) : List Byte → ℕ × List Byte
  | b :: pb => if odd then (b.toNat, pb) else (0, b :: pb)
  | [] => (0, [])

/-- Words of 16 bits while there are two bytes. -/
def sumWords (sum : ℕ) : List Byte → ℕ × List Byte
  | lo :: hi :: ps => sumWords (u32 (sum + (lo.toNat + 256 * hi.toNat))) ps
  | rest => (sum, rest)

/-- The byte left over, if any. -/
def endByte : List Byte → ℕ
  | b :: _ => b.toNat
  | [] => 0

def lwipStandardChksum2 (address : ℕ) (dataptr : List Byte) : ℕ :=
  let odd : Bool := address % 2 = 1
  let start := alignStart odd dataptr
  let bulk := sumWords 0 start.2
  let t := endByte bulk.2 + 256 * start.1
  let sum := foldU32t (foldU32t (u32 (bulk.1 + t)))
  (if odd then swapBytesInWord sum else sum) % 0x10000

/-- An unsigned addition that wraps is seen by its result being smaller. -/
def addBackCarry (sum word : ℕ) : ℕ :=
  let tmp := u32 (sum + word)
  if tmp < sum then u32 (tmp + 1) else tmp

def longWord (b0 b1 b2 b3 : Byte) : ℕ :=
  b0.toNat + 256 * (b1.toNat + 256 * (b2.toNat + 256 * b3.toNat))

/-- Two words of 32 bits while there are eight bytes. -/
def sumLongs (sum : ℕ) : List Byte → ℕ × List Byte
  | b0 :: b1 :: b2 :: b3 :: c0 :: c1 :: c2 :: c3 :: pl =>
    sumLongs (addBackCarry (addBackCarry sum (longWord b0 b1 b2 b3)) (longWord c0 c1 c2 c3)) pl
  | rest => (sum, rest)

/-- One word, where the data does not start at a multiple of four. -/
def alignLong (address : ℕ) : List Byte → ℕ × List Byte
  | lo :: hi :: ps => if address % 4 ≠ 0 then (lo.toNat + 256 * hi.toNat, ps) else (0, lo :: hi :: ps)
  | rest => (0, rest)

def lwipStandardChksum3 (address : ℕ) (dataptr : List Byte) : ℕ :=
  let odd : Bool := address % 2 = 1
  let start := alignStart odd dataptr
  let first := alignLong (address + (dataptr.length - start.2.length)) start.2
  let longs := sumLongs first.1 first.2
  let bulk := sumWords (foldU32t longs.1) longs.2
  let t := endByte bulk.2 + 256 * start.1
  let sum := foldU32t (foldU32t (u32 (bulk.1 + t)))
  (if odd then swapBytesInWord sum else sum) % 0x10000

/-- The version that is compiled when the application does not choose. -/
def lwipChksum (address : ℕ) (dataptr : List Byte) : ℕ := lwipStandardChksum2 address dataptr

def inetChksum (address : ℕ) (dataptr : List Byte) : ℕ := 0xFFFF - lwipChksum address dataptr

/-- A pbuf of a chain: where its payload is, and the bytes of it. -/
structure Pbuf where
  address : ℕ
  payload : List Byte

/-- The loop over a chain: the accumulator, and whether it is swapped at the end. -/
def sumChain (acc : ℕ) (swapped : Bool) : List Pbuf → ℕ × Bool
  | [] => (acc, swapped)
  | q :: next =>
    let acc := foldU32t (u32 (acc + lwipChksum q.address q.payload))
    if q.payload.length % 2 ≠ 0 then sumChain (swapBytesInWord acc) (!swapped) next
    else sumChain acc swapped next

def chainAcc (acc : ℕ) (p : List Pbuf) : ℕ :=
  let x := sumChain acc false p
  if x.2 then swapBytesInWord x.1 else x.1

/-- The low half of the accumulator, inverted. -/
def invert (acc : ℕ) : ℕ := 0xFFFF - (acc &&& 0xFFFF)

def inetChksumPbuf (p : List Pbuf) : ℕ := invert (chainAcc 0 p)

def inetCksumPseudoBase (p : List Pbuf) (proto protoLen acc : ℕ) : ℕ :=
  let acc := u32 (chainAcc acc p + lwipHtons proto)
  let acc := u32 (acc + lwipHtons protoLen)
  invert (foldU32t (foldU32t acc))

/-- The addresses are in network byte order, as words loaded from a header. -/
def inetChksumPseudo (p : List Pbuf) (proto protoLen src dest : ℕ) : ℕ :=
  let acc := src &&& 0xFFFF
  let acc := u32 (acc + ((src >>> 16) &&& 0xFFFF))
  let acc := u32 (acc + (dest &&& 0xFFFF))
  let acc := u32 (acc + ((dest >>> 16) &&& 0xFFFF))
  inetCksumPseudoBase p proto protoLen (foldU32t (foldU32t acc))

/-! Each operation, in numbers up to carries. -/

theorem u32_eq {x : ℕ} (h : x < 0x100000000) : u32 x = x := Nat.mod_eq_of_lt h

theorem foldU32t_eq (u : ℕ) : foldU32t u = u / 0x10000 + u % 0x10000 := by
  unfold foldU32t
  rw [Nat.shiftRight_eq_div_pow]
  congr 1
  exact Nat.and_two_pow_sub_one_eq_mod u 16

theorem foldU32t_onesEq (u : ℕ) : OnesEq 0xFFFF (foldU32t u) u := by
  rw [foldU32t_eq]
  exact onesEq_fold u

theorem foldU32t_le {u : ℕ} (h : u < 0x100000000) : foldU32t u ≤ 0x1FFFE := by
  rw [foldU32t_eq]
  omega

theorem foldU32t_twice_le {u : ℕ} (h : u < 0x100000000) : foldU32t (foldU32t u) ≤ 0xFFFF := by
  have := foldU32t_le h
  rw [foldU32t_eq (foldU32t u)]
  omega

theorem swapBytesInWord_eq {w : ℕ} (h : w < 0x10000) :
    swapBytesInWord w = 256 * (w % 256) + w / 256 := by
  have hlow : w &&& 0xFF = w % 256 := Nat.and_two_pow_sub_one_eq_mod w 8
  have hhigh : (w &&& 0xFF00) >>> 8 = w / 256 := by
    rw [Nat.shiftRight_and_distrib, Nat.shiftRight_eq_div_pow]
    have hmask := Nat.and_two_pow_sub_one_eq_mod (w / 256) 8
    change w / 256 &&& 0xFF = _
    rw [show (0xFF : ℕ) = 2 ^ 8 - 1 from rfl, hmask]
    omega
  unfold swapBytesInWord
  rw [hlow, hhigh, ← Nat.shiftLeft_add_eq_or_of_lt (show w / 256 < 2 ^ 8 by omega), Nat.shiftLeft_eq]
  omega

theorem swapBytesInWord_le {w : ℕ} (h : w < 0x10000) : swapBytesInWord w < 0x10000 := by
  rw [swapBytesInWord_eq h]
  omega

/-- To swap the bytes of a word is to move it one byte on. -/
theorem swapBytesInWord_onesEq {w : ℕ} (h : w < 0x10000) : OnesEq 0xFFFF (swapBytesInWord w) (256 * w) := by
  rw [swapBytesInWord_eq h]
  have hw : 256 * w = 256 * (w % 256) + 256 * (256 * (w / 256)) := by omega
  rw [hw]
  exact (onesEq_two_bytes _ _).symm

/-- Swapped, a word that stands one byte on is back in its place. -/
theorem swap_moved {w v : ℕ} (hw : w < 0x10000) (h : OnesEq 0xFFFF w (256 * v)) :
    OnesEq 0xFFFF (swapBytesInWord w) v := by
  have hone : OnesEq 0xFFFF (256 * (256 * v)) v := by
    have htwo := onesEq_two_bytes 0 v
    rwa [Nat.zero_add, Nat.zero_add] at htwo
  exact (swapBytesInWord_onesEq hw).trans ((h.mul 256).trans hone)

theorem octets_eq (hi lo : Byte) : (hi.toNat <<< 8) ||| lo.toNat = 256 * hi.toNat + lo.toNat := by
  rw [← Nat.shiftLeft_add_eq_or_of_lt lo.isLt, Nat.shiftLeft_eq]
  omega

/-- Summed in network order, the data stands one byte on. -/
theorem sumOctets_onesEq (data : List Byte) (acc : ℕ)
    (h : acc + 0xFFFF * ((data.length + 1) / 2) < 0x100000000) :
    sumOctets acc data < 0x100000000 ∧ OnesEq 0xFFFF (sumOctets acc data) (acc + 256 * value data) := by
  fun_induction sumOctets acc data with
  | case1 acc hi lo octetptr ih =>
    have hhi := hi.isLt
    have hlo := lo.isLt
    simp only [List.length_cons] at h
    rw [octets_eq, u32_eq (by omega)] at ih ⊢
    obtain ⟨hlt, heq⟩ := ih (by omega)
    refine ⟨hlt, heq.trans ?_⟩
    have hval : acc + 256 * value (hi :: lo :: octetptr) =
        acc + (256 * hi.toNat + 256 * (256 * (lo.toNat + 256 * value octetptr))) := by
      rw [value_cons, value_cons, Nat.mul_add 256 hi.toNat]
    rw [hval, Nat.add_assoc, Nat.add_assoc]
    exact OnesEq.add (.refl _) (onesEq_two_bytes _ _).symm
  | case2 acc hi =>
    have hhi := hi.isLt
    simp only [List.length_singleton] at h
    rw [Nat.shiftLeft_eq, u32_eq (by omega), value_cons, value_nil]
    refine ⟨by omega, ?_⟩
    rw [Nat.mul_zero, Nat.add_zero, Nat.mul_comm]
    exact .refl _
  | case3 acc =>
    rw [value_nil]
    exact ⟨by omega, .refl _⟩

/-- A load of two bytes, and what follows them. -/
theorem onesEq_word (acc : ℕ) (lo hi : Byte) (ps : List Byte) :
    OnesEq 0xFFFF (acc + (lo.toNat + 256 * hi.toNat) + value ps) (acc + value (lo :: hi :: ps)) := by
  have hval : acc + value (lo :: hi :: ps) =
      (acc + (lo.toNat + 256 * hi.toNat)) + 256 * (256 * value ps) := by
    rw [value_cons, value_cons]
    omega
  rw [hval]
  exact (onesEq_two_bytes _ _).symm

theorem endByte_lt (data : List Byte) : endByte data < 0x100 := by
  match data with
  | [] => exact Nat.zero_lt_succ _
  | b :: _ => exact b.isLt

theorem sumWords_onesEq (data : List Byte) (sum : ℕ)
    (h : sum + 0xFFFF * (data.length / 2) < 0x100000000) :
    (sumWords sum data).1 + endByte (sumWords sum data).2 ≤ sum + 0xFFFF * (data.length / 2) + 0xFF ∧
      OnesEq 0xFFFF ((sumWords sum data).1 + endByte (sumWords sum data).2) (sum + value data) := by
  fun_induction sumWords sum data with
  | case1 sum lo hi ps ih =>
    have hlo := lo.isLt
    have hhi := hi.isLt
    simp only [List.length_cons] at h ⊢
    rw [u32_eq (by omega)] at ih ⊢
    obtain ⟨hle, heq⟩ := ih (by omega)
    exact ⟨by omega, heq.trans (onesEq_word sum lo hi ps)⟩
  | case2 sum rest hrest =>
    have hend := endByte_lt rest
    change sum + endByte rest ≤ _ ∧ OnesEq _ (sum + endByte rest) _
    refine ⟨by omega, ?_⟩
    match rest with
    | [] => exact .refl _
    | [b] =>
      rw [value_cons, value_nil]
      exact .refl _
    | lo :: hi :: ps => exact absurd rfl (hrest lo hi ps)

theorem alignStart_lt (odd : Bool) (data : List Byte) :
    (alignStart odd data).1 < 0x100 ∧ (alignStart odd data).2.length ≤ data.length := by
  match data with
  | [] => exact ⟨Nat.zero_lt_succ _, Nat.le_refl _⟩
  | b :: pb =>
    unfold alignStart
    split_ifs
    · exact ⟨b.isLt, Nat.le_succ _⟩
    · exact ⟨Nat.zero_lt_succ _, Nat.le_refl _⟩

/-- From an odd address all of the data is summed one byte on. -/
theorem alignStart_value (odd : Bool) (data : List Byte) :
    OnesEq 0xFFFF (256 * (alignStart odd data).1 + value (alignStart odd data).2)
      (if odd then 256 * value data else value data) := by
  match data with
  | [] =>
    rw [value_nil, ite_self]
    exact .refl _
  | b :: pb =>
    cases odd with
    | false =>
      change OnesEq _ (256 * 0 + value (b :: pb)) (value (b :: pb))
      rw [Nat.mul_zero, Nat.zero_add]
      exact .refl _
    | true =>
      change OnesEq _ (256 * b.toNat + value pb) (256 * value (b :: pb))
      rw [value_cons, Nat.mul_add]
      exact (onesEq_two_bytes _ _).symm

/-- Fold, swap if the data was at an odd address, and what is left is a word. -/
theorem finish (odd : Bool) {sum v : ℕ} (hsum : sum < 0x100000000)
    (h : OnesEq 0xFFFF sum (if odd then 256 * v else v)) :
    (if odd then swapBytesInWord (foldU32t (foldU32t (u32 sum))) else foldU32t (foldU32t (u32 sum))) %
        0x10000 ≤ 0xFFFF ∧
      OnesEq 0xFFFF ((if odd then swapBytesInWord (foldU32t (foldU32t (u32 sum)))
        else foldU32t (foldU32t (u32 sum))) % 0x10000) v := by
  have hle := foldU32t_twice_le hsum
  have hfold : OnesEq 0xFFFF (foldU32t (foldU32t sum)) sum := (foldU32t_onesEq _).trans (foldU32t_onesEq _)
  rw [u32_eq hsum]
  refine ⟨by omega, ?_⟩
  cases odd with
  | false =>
    change OnesEq _ (foldU32t (foldU32t sum) % 0x10000) v
    rw [Nat.mod_eq_of_lt (by omega)]
    exact hfold.trans h
  | true =>
    have hlt := swapBytesInWord_le (show foldU32t (foldU32t sum) < 0x10000 by omega)
    change OnesEq _ (swapBytesInWord (foldU32t (foldU32t sum)) % 0x10000) v
    rw [Nat.mod_eq_of_lt hlt]
    exact swap_moved (by omega) (hfold.trans h)

theorem no_carry {acc : ℕ} (h : acc < 0x100000000) (hcarry : acc &&& 0xFFFF0000 = 0) : acc ≤ 0xFFFF := by
  have hhigh : (acc &&& 0xFFFF0000) >>> 16 = acc / 0x10000 % 0x10000 := by
    rw [Nat.shiftRight_and_distrib, Nat.shiftRight_eq_div_pow]
    exact Nat.and_two_pow_sub_one_eq_mod (acc / 0x10000) 16
  rw [hcarry, Nat.zero_shiftRight] at hhigh
  omega

theorem lwipStandardChksum1_onesEq {data : List Byte} (h : data.length ≤ 0x20000) :
    lwipStandardChksum1 data ≤ 0xFFFF ∧ OnesEq 0xFFFF (lwipStandardChksum1 data) (value data) := by
  obtain ⟨hlt, heq⟩ := sumOctets_onesEq data 0 (by omega)
  rw [Nat.zero_add] at heq
  have honce := foldU32t_le hlt
  have hfold : ∀ acc, acc = (if foldU32t (sumOctets 0 data) &&& 0xFFFF0000 ≠ 0 then
      foldU32t (foldU32t (sumOctets 0 data)) else foldU32t (sumOctets 0 data)) →
      acc ≤ 0xFFFF ∧ OnesEq 0xFFFF acc (256 * value data) := by
    intro acc hacc
    have hone : OnesEq 0xFFFF (foldU32t (sumOctets 0 data)) (256 * value data) := (foldU32t_onesEq _).trans heq
    split_ifs at hacc with hcarry
    · exact hacc ▸ ⟨foldU32t_twice_le hlt, (foldU32t_onesEq _).trans hone⟩
    · exact hacc ▸ ⟨no_carry (by omega) (not_not.mp hcarry), hone⟩
  obtain ⟨hle, hacc⟩ := hfold _ rfl
  have hswap := swapBytesInWord_le (Nat.lt_succ_of_le hle)
  unfold lwipStandardChksum1 lwipHtons
  simp only
  rw [Nat.mod_eq_of_lt (Nat.lt_succ_of_le hle)]
  exact ⟨Nat.le_of_lt_succ hswap, swap_moved (Nat.lt_succ_of_le hle) hacc⟩

theorem lwipStandardChksum2_onesEq (address : ℕ) {data : List Byte} (h : data.length ≤ 0x20000) :
    lwipStandardChksum2 address data ≤ 0xFFFF ∧
      OnesEq 0xFFFF (lwipStandardChksum2 address data) (value data) := by
  have hstart := alignStart_lt (address % 2 = 1) data
  obtain ⟨hle, heq⟩ := sumWords_onesEq (alignStart (address % 2 = 1) data).2 0 (by omega)
  rw [Nat.zero_add] at heq
  apply finish (decide (address % 2 = 1)) (by omega)
  rw [← Nat.add_assoc, Nat.add_comm _ (256 * _)]
  exact (OnesEq.add (.refl _) heq).trans (alignStart_value _ data)

theorem addBackCarry_onesEq {sum word : ℕ} (hs : sum < 0x100000000) (hw : word < 0x100000000) :
    addBackCarry sum word < 0x100000000 ∧ OnesEq 0xFFFF (addBackCarry sum word) (sum + word) := by
  unfold addBackCarry u32
  simp only
  split_ifs with hcarry
  · -- the carry out of the top is a multiple of 0x10000 * 0x10000
    have hval : sum + word = sum + word - 0x100000000 + 0x10000 * (0x10000 * 1) := by omega
    have hcarry : OnesEq 0xFFFF (sum + word - 0x100000000 + 0x10000 * 1) (sum + word - 0x100000000 + 1) :=
      onesEq_carry _ 1
    have hcarries : OnesEq 0xFFFF (sum + word - 0x100000000 + 0x10000 * (0x10000 * 1))
        (sum + word - 0x100000000 + 1) := (onesEq_carry _ _).trans hcarry
    rw [← hval] at hcarries
    have heq : ((sum + word) % 0x100000000 + 1) % 0x100000000 = sum + word - 0x100000000 + 1 := by omega
    rw [heq]
    exact ⟨by omega, hcarries.symm⟩
  · have heq : (sum + word) % 0x100000000 = sum + word := by omega
    rw [heq]
    exact ⟨by omega, .refl _⟩

theorem longWord_lt (b0 b1 b2 b3 : Byte) : longWord b0 b1 b2 b3 < 0x100000000 := by
  have h0 := b0.isLt
  have h1 := b1.isLt
  have h2 := b2.isLt
  have h3 := b3.isLt
  unfold longWord
  omega

/-- A load of four bytes counts as two loads of two. -/
theorem onesEq_long (sum : ℕ) (b0 b1 b2 b3 : Byte) (pl : List Byte) :
    OnesEq 0xFFFF (sum + longWord b0 b1 b2 b3 + value pl) (sum + value (b0 :: b1 :: b2 :: b3 :: pl)) := by
  have hval : sum + value (b0 :: b1 :: b2 :: b3 :: pl) =
      sum + longWord b0 b1 b2 b3 + 256 * (256 * (256 * (256 * value pl))) := by
    unfold longWord
    rw [value_cons, value_cons, value_cons, value_cons]
    omega
  rw [hval]
  have htwo := onesEq_two_bytes 0 (value pl)
  rw [Nat.zero_add, Nat.zero_add] at htwo
  exact ((onesEq_two_bytes _ _).trans (OnesEq.add (.refl _) htwo)).symm

theorem sumLongs_onesEq (data : List Byte) {sum : ℕ} (h : sum < 0x100000000) :
    (sumLongs sum data).1 < 0x100000000 ∧ (sumLongs sum data).2.length ≤ 7 ∧
      OnesEq 0xFFFF ((sumLongs sum data).1 + value (sumLongs sum data).2) (sum + value data) := by
  fun_induction sumLongs sum data with
  | case1 sum b0 b1 b2 b3 c0 c1 c2 c3 pl ih =>
    obtain ⟨hlt, heq⟩ := addBackCarry_onesEq h (longWord_lt b0 b1 b2 b3)
    obtain ⟨hlt', heq'⟩ := addBackCarry_onesEq hlt (longWord_lt c0 c1 c2 c3)
    obtain ⟨hsum, hlen, hval⟩ := ih hlt'
    refine ⟨hsum, hlen, hval.trans ?_⟩
    have hfirst := heq.add (.refl (value (c0 :: c1 :: c2 :: c3 :: pl)))
    exact ((heq'.add (.refl _)).trans (onesEq_long _ c0 c1 c2 c3 pl)).trans
      (hfirst.trans (onesEq_long sum b0 b1 b2 b3 _))
  | case2 sum rest hrest =>
    refine ⟨h, ?_, .refl _⟩
    match rest with
    | [] | [_] | [_, _] | [_, _, _] | [_, _, _, _] | [_, _, _, _, _] | [_, _, _, _, _, _]
    | [_, _, _, _, _, _, _] => simp
    | _ :: _ :: _ :: _ :: _ :: _ :: _ :: _ :: _ => exact absurd rfl (hrest _ _ _ _ _ _ _ _ _)

theorem alignLong_onesEq (address : ℕ) (data : List Byte) :
    (alignLong address data).1 ≤ 0xFFFF ∧
      OnesEq 0xFFFF ((alignLong address data).1 + value (alignLong address data).2) (value data) := by
  match data with
  | [] => exact ⟨Nat.zero_le _, .refl _⟩
  | [b] =>
    change _ ∧ OnesEq _ (0 + value [b]) (value [b])
    rw [Nat.zero_add]
    exact ⟨Nat.zero_le _, .refl _⟩
  | lo :: hi :: ps =>
    have hlo := lo.isLt
    have hhi := hi.isLt
    simp only [alignLong]
    split_ifs
    · refine ⟨by omega, ?_⟩
      have hword := onesEq_word 0 lo hi ps
      rwa [Nat.zero_add, Nat.zero_add] at hword
    · rw [Nat.zero_add]
      exact ⟨Nat.zero_le _, .refl _⟩

theorem longs_onesEq (address : ℕ) (data : List Byte) :
    (sumLongs (alignLong address data).1 (alignLong address data).2).1 < 0x100000000 ∧
      (sumLongs (alignLong address data).1 (alignLong address data).2).2.length ≤ 7 ∧
      OnesEq 0xFFFF ((sumLongs (alignLong address data).1 (alignLong address data).2).1 +
        value (sumLongs (alignLong address data).1 (alignLong address data).2).2) (value data) := by
  obtain ⟨hfirst, hval⟩ := alignLong_onesEq address data
  obtain ⟨hlt, hlen, heq⟩ :=
    sumLongs_onesEq (alignLong address data).2 (show (alignLong address data).1 < 0x100000000 by omega)
  exact ⟨hlt, hlen, heq.trans hval⟩

/-- The unrolled version needs no bound: its carries come back in at once. -/
theorem lwipStandardChksum3_onesEq (address : ℕ) (data : List Byte) :
    lwipStandardChksum3 address data ≤ 0xFFFF ∧
      OnesEq 0xFFFF (lwipStandardChksum3 address data) (value data) := by
  have hstart := alignStart_lt (address % 2 = 1) data
  obtain ⟨hlongs, hlen, hval⟩ :=
    longs_onesEq (address + (data.length - (alignStart (address % 2 = 1) data).2.length))
      (alignStart (address % 2 = 1) data).2
  have hfold := foldU32t_le hlongs
  have htail := Nat.div_le_div_right (c := 2) hlen
  have hbound := Nat.add_le_add hfold (Nat.mul_le_mul_left 0xFFFF htail)
  obtain ⟨hbulk, heq⟩ := sumWords_onesEq _ _ (Nat.lt_of_le_of_lt hbound (by decide))
  apply finish (decide (address % 2 = 1))
  · omega
  rw [← Nat.add_assoc, Nat.add_comm _ (256 * _)]
  have hsum := heq.trans (((foldU32t_onesEq _).add (.refl _)).trans hval)
  exact (OnesEq.add (.refl _) hsum).trans (alignStart_value _ data)

/-- The ones' complement sum of the words in network order, from the sum of the data. -/
theorem htons_onesSum {x : ℕ} {data : List Byte} (hx : x ≤ 0xFFFF) (h : OnesEq 0xFFFF x (value data)) :
    lwipHtons x = onesSum 0xFFFF (networkWords data) := by
  obtain ⟨hle, hsum⟩ := onesEq_onesSum (networkWords_le data)
  have hswap := swapBytesInWord_le (Nat.lt_succ_of_le hx)
  have hmoved := (swapBytesInWord_onesEq (Nat.lt_succ_of_le hx)).trans (h.mul 256)
  have heq := hmoved.trans (hsum.trans (networkWords_sum data)).symm
  exact heq.eq (Nat.le_of_lt_succ hswap) hle

/-- Whichever version is compiled, and wherever the data is. -/
theorem chksum_versions_agree (address : ℕ) {data : List Byte} (h : data.length ≤ 0x20000) :
    lwipStandardChksum2 address data = lwipStandardChksum1 data ∧
      lwipStandardChksum3 address data = lwipStandardChksum1 data ∧
      lwipHtons (lwipStandardChksum1 data) = onesSum 0xFFFF (networkWords data) := by
  obtain ⟨hle1, h1⟩ := lwipStandardChksum1_onesEq h
  obtain ⟨hle2, h2⟩ := lwipStandardChksum2_onesEq address h
  obtain ⟨hle3, h3⟩ := lwipStandardChksum3_onesEq address data
  exact ⟨(h2.trans h1.symm).eq hle2 hle1, (h3.trans h1.symm).eq hle3 hle1, htons_onesSum hle1 h1⟩

/-- Eleven bytes at an odd address: a byte, one word, two long words, and no byte left. -/
theorem chksum_versions_agree_odd :
    lwipStandardChksum3 0x20000001 [1, 2, 3, 4, 5, 6, 7, 8, 9, 10, 255] =
      lwipStandardChksum1 [1, 2, 3, 4, 5, 6, 7, 8, 9, 10, 255] :=
  (chksum_versions_agree 0x20000001 (by decide)).2.1

def bytes (p : List Pbuf) : List Byte := p.flatMap Pbuf.payload

/-- Lengths are of 16 bits. -/
def Chain (p : List Pbuf) : Prop := ∀ q ∈ p, q.payload.length < 0x10000

theorem sumChain_onesEq (p : List Pbuf) (acc : ℕ) (swapped : Bool) (hp : Chain p) (hacc : acc ≤ 0xFFFF) :
    (sumChain acc swapped p).1 ≤ 0xFFFF ∧
      (sumChain acc swapped p).2 = (swapped != decide ((bytes p).length % 2 = 1)) ∧
      OnesEq 0xFFFF (sumChain acc swapped p).1 (256 ^ (bytes p).length * (acc + value (bytes p))) := by
  induction p generalizing acc swapped with
  | nil =>
    refine ⟨hacc, (Bool.bne_false swapped).symm, ?_⟩
    change OnesEq _ acc (256 ^ 0 * (acc + 0))
    rw [Nat.pow_zero, Nat.one_mul, Nat.add_zero]
    exact .refl _
  | cons q next ih =>
    have hlen := hp q List.mem_cons_self
    have hnext : Chain next := fun q' hq => hp q' (List.mem_cons_of_mem q hq)
    have hshort : q.payload.length ≤ 0x20000 := by omega
    obtain ⟨hle, hq⟩ := lwipStandardChksum2_onesEq q.address hshort
    have hstep : OnesEq 0xFFFF (foldU32t (acc + lwipChksum q.address q.payload)) (acc + value q.payload) :=
      (foldU32t_onesEq _).trans (OnesEq.add (.refl acc) hq)
    have hfold : foldU32t (acc + lwipChksum q.address q.payload) ≤ 0xFFFF := by
      have : lwipChksum q.address q.payload ≤ 0xFFFF := hle
      rw [foldU32t_eq]
      omega
    have hbytes : bytes (q :: next) = q.payload ++ bytes next := List.flatMap_cons
    have happ := onesEq_append q.payload (bytes next) acc
    have hsmall : acc + lwipChksum q.address q.payload < 0x100000000 := by
      have : lwipChksum q.address q.payload ≤ 0xFFFF := hle
      omega
    rw [hbytes]
    simp only [sumChain]
    rw [u32_eq hsmall]
    split_ifs with hodd
    · have hswap := swapBytesInWord_le (Nat.lt_succ_of_le hfold)
      obtain ⟨hle', hswapped, heq⟩ := ih _ (!swapped) hnext (Nat.le_of_lt_succ hswap)
      refine ⟨hle', ?_, ?_⟩
      · rw [hswapped, List.length_append]
        have hparity : decide ((q.payload.length + (bytes next).length) % 2 = 1) =
            !decide ((bytes next).length % 2 = 1) := by
          rw [← decide_not, decide_eq_decide]
          omega
        rw [hparity]
        cases swapped <;> cases decide ((bytes next).length % 2 = 1) <;> rfl
      · have hmoved : OnesEq 0xFFFF (swapBytesInWord (foldU32t (acc + lwipChksum q.address q.payload)))
            (256 ^ q.payload.length * (acc + value q.payload)) :=
          (swapBytesInWord_onesEq (Nat.lt_succ_of_le hfold)).trans
            ((hstep.mul 256).trans (onesEq_odd (by omega) _).symm)
        exact heq.trans (((hmoved.add (.refl _)).mul _).trans happ)
    · obtain ⟨hle', hswapped, heq⟩ := ih _ swapped hnext hfold
      refine ⟨hle', ?_, ?_⟩
      · rw [hswapped, List.length_append]
        congr 1
        rw [decide_eq_decide]
        omega
      · have hkept : OnesEq 0xFFFF (foldU32t (acc + lwipChksum q.address q.payload))
            (256 ^ q.payload.length * (acc + value q.payload)) :=
          hstep.trans (onesEq_even (by omega) _).symm
        exact heq.trans (((hkept.add (.refl _)).mul _).trans happ)

/-- Cut anywhere, a chain adds what its bytes in a row are. -/
theorem chainAcc_onesEq {p : List Pbuf} (hp : Chain p) {acc : ℕ} (hacc : acc ≤ 0xFFFF) :
    chainAcc acc p ≤ 0xFFFF ∧ OnesEq 0xFFFF (chainAcc acc p) (acc + value (bytes p)) := by
  obtain ⟨hle, hswapped, heq⟩ := sumChain_onesEq p acc false hp hacc
  unfold chainAcc
  simp only
  rw [hswapped, Bool.false_bne]
  split_ifs with hodd
  · have hmoved := heq.trans (onesEq_odd (decide_eq_true_eq.mp hodd) _)
    exact ⟨Nat.le_of_lt_succ (swapBytesInWord_le (Nat.lt_succ_of_le hle)), swap_moved (Nat.lt_succ_of_le hle) hmoved⟩
  · have heven : (bytes p).length % 2 = 0 := by
      rw [decide_eq_true_eq] at hodd
      omega
    exact ⟨hle, heq.trans (onesEq_even heven _)⟩

theorem invert_eq {acc : ℕ} (h : acc ≤ 0xFFFF) : invert acc = 0xFFFF - acc := by
  unfold invert
  rw [show (0xFFFF : ℕ) = 2 ^ 16 - 1 from rfl, Nat.and_two_pow_sub_one_eq_mod, Nat.mod_eq_of_lt (by omega)]

theorem halves_onesEq {x : ℕ} (h : x < 0x100000000) :
    (x &&& 0xFFFF) + ((x >>> 16) &&& 0xFFFF) ≤ 0x1FFFE ∧
      OnesEq 0xFFFF ((x &&& 0xFFFF) + ((x >>> 16) &&& 0xFFFF)) x := by
  have hlow : x &&& 0xFFFF = x % 0x10000 := Nat.and_two_pow_sub_one_eq_mod x 16
  have hhigh : (x >>> 16) &&& 0xFFFF = x / 0x10000 := by
    have hmask : (x >>> 16) &&& 0xFFFF = (x >>> 16) % 0x10000 := Nat.and_two_pow_sub_one_eq_mod (x >>> 16) 16
    rw [hmask, Nat.shiftRight_eq_div_pow]
    omega
  rw [hlow, hhigh, Nat.add_comm]
  exact ⟨by omega, onesEq_fold x⟩

/-- What the header in front of a segment stands for: addresses, protocol and length. -/
def pseudoHeader (src dest : List Byte) (proto : Byte) (protoLen : Word) : List Byte :=
  src ++ (dest ++ [0, proto, BitVec.ofNat 8 (protoLen.toNat / 256), BitVec.ofNat 8 protoLen.toNat])

theorem value_lt (data : List Byte) : value data < 256 ^ data.length := by
  induction data with
  | nil => exact Nat.one_pos
  | cons b data ih =>
    have := b.isLt
    rw [value_cons, List.length_cons, Nat.pow_succ]
    omega

theorem value_pseudoHeader {src dest : List Byte} (hs : src.length = 4) (hd : dest.length = 4) (proto : Byte)
    (protoLen : Word) (data : List Byte) :
    OnesEq 0xFFFF (value src + value dest + value data + lwipHtons proto.toNat + lwipHtons protoLen.toNat)
      (value (pseudoHeader src dest proto protoLen ++ data)) := by
  have hproto := proto.isLt
  have hlen := protoLen.isLt
  have hfront : ∀ {front : List Byte} (_ : front.length = 4) (back : List Byte),
      OnesEq 0xFFFF (value (front ++ back)) (value front + value back) := by
    intro front hfour back
    rw [value_append]
    exact OnesEq.add (.refl _) (onesEq_even (by omega) _)
  have hp : lwipHtons proto.toNat = 256 * proto.toNat := by
    unfold lwipHtons
    rw [swapBytesInWord_eq (by omega)]
    omega
  have hl : lwipHtons protoLen.toNat = protoLen.toNat / 256 + 256 * (protoLen.toNat % 256) := by
    unfold lwipHtons
    rw [swapBytesInWord_eq hlen]
    omega
  have htail : OnesEq 0xFFFF (lwipHtons proto.toNat + lwipHtons protoLen.toNat + value data)
      (value ([0, proto, BitVec.ofNat 8 (protoLen.toNat / 256), BitVec.ofNat 8 protoLen.toNat] ++ data)) := by
    refine OnesEq.trans ?_ (hfront rfl data).symm
    refine OnesEq.add ?_ (.refl _)
    have hval : value [0, proto, BitVec.ofNat 8 (protoLen.toNat / 256), BitVec.ofNat 8 protoLen.toNat] =
        lwipHtons proto.toNat + 256 * (256 * lwipHtons protoLen.toNat) := by
      rw [value_cons, value_cons, value_cons, value_cons, value_nil, BitVec.toNat_ofNat, BitVec.toNat_ofNat, hp, hl,
        Nat.mod_eq_of_lt (show protoLen.toNat / 256 < 2 ^ 8 by omega)]
      change 0 + _ = _
      omega
    rw [hval]
    exact (onesEq_two_bytes _ _).symm
  have hall := (hfront hs _).trans (OnesEq.add (.refl (value src)) ((hfront hd _).trans
    (OnesEq.add (.refl (value dest)) htail.symm)))
  unfold pseudoHeader
  rw [List.append_assoc, List.append_assoc]
  refine OnesEq.trans ?_ hall.symm
  have hsum : value src + value dest + value data + lwipHtons proto.toNat + lwipHtons protoLen.toNat =
      value src + (value dest + (lwipHtons proto.toNat + lwipHtons protoLen.toNat + value data)) := by omega
  rw [hsum]
  exact .refl _

theorem inetChksumPbuf_onesEq {p : List Pbuf} (hp : Chain p) :
    ∃ x, inetChksumPbuf p = 0xFFFF - x ∧ x ≤ 0xFFFF ∧ OnesEq 0xFFFF x (value (bytes p)) := by
  obtain ⟨hle, heq⟩ := chainAcc_onesEq hp (Nat.zero_le _)
  rw [Nat.zero_add] at heq
  exact ⟨_, invert_eq hle, hle, heq⟩

theorem inetCksumPseudoBase_onesEq {p : List Pbuf} (hp : Chain p) {proto protoLen acc : ℕ}
    (hproto : proto < 0x10000) (hlen : protoLen < 0x10000) (hacc : acc ≤ 0xFFFF) :
    ∃ x, inetCksumPseudoBase p proto protoLen acc = 0xFFFF - x ∧ x ≤ 0xFFFF ∧
      OnesEq 0xFFFF x (acc + value (bytes p) + lwipHtons proto + lwipHtons protoLen) := by
  obtain ⟨hle, heq⟩ := chainAcc_onesEq hp hacc
  have hp' : lwipHtons proto < 0x10000 := swapBytesInWord_le hproto
  have hl' : lwipHtons protoLen < 0x10000 := swapBytesInWord_le hlen
  have hsum : u32 (u32 (chainAcc acc p + lwipHtons proto) + lwipHtons protoLen) =
      chainAcc acc p + lwipHtons proto + lwipHtons protoLen := by
    unfold u32
    omega
  have hfinal := foldU32t_twice_le (u := chainAcc acc p + lwipHtons proto + lwipHtons protoLen) (by omega)
  have hfold := (foldU32t_onesEq _).trans (foldU32t_onesEq (chainAcc acc p + lwipHtons proto + lwipHtons protoLen))
  unfold inetCksumPseudoBase
  simp only
  rw [hsum]
  exact ⟨_, invert_eq hfinal, hfinal, hfold.trans ((heq.add (.refl _)).add (.refl _))⟩

theorem inetChksumPseudo_onesEq {p : List Pbuf} (hp : Chain p) {src dest : List Byte} (hs : src.length = 4)
    (hd : dest.length = 4) (proto : Byte) (protoLen : Word) :
    ∃ x, inetChksumPseudo p proto.toNat protoLen.toNat (value src) (value dest) = 0xFFFF - x ∧ x ≤ 0xFFFF ∧
      OnesEq 0xFFFF x (value (pseudoHeader src dest proto protoLen ++ bytes p)) := by
  have hsrc : value src < 0x100000000 := by
    have h := value_lt src
    rwa [hs] at h
  have hdest : value dest < 0x100000000 := by
    have h := value_lt dest
    rwa [hd] at h
  obtain ⟨hsle, hseq⟩ := halves_onesEq hsrc
  obtain ⟨hdle, hdeq⟩ := halves_onesEq hdest
  have hproto := proto.isLt
  have hsum : u32 (u32 (u32 ((value src &&& 0xFFFF) + ((value src >>> 16) &&& 0xFFFF)) + (value dest &&& 0xFFFF)) +
      ((value dest >>> 16) &&& 0xFFFF)) = (value src &&& 0xFFFF) + ((value src >>> 16) &&& 0xFFFF) +
        ((value dest &&& 0xFFFF) + ((value dest >>> 16) &&& 0xFFFF)) := by
    unfold u32
    omega
  have hacc := foldU32t_twice_le (u := (value src &&& 0xFFFF) + ((value src >>> 16) &&& 0xFFFF) +
    ((value dest &&& 0xFFFF) + ((value dest >>> 16) &&& 0xFFFF))) (by omega)
  have hacceq := ((foldU32t_onesEq _).trans (foldU32t_onesEq _)).trans (hseq.add hdeq)
  obtain ⟨x, hx, hle, heq⟩ := inetCksumPseudoBase_onesEq hp (show proto.toNat < 0x10000 by omega) protoLen.isLt hacc
  unfold inetChksumPseudo
  simp only
  rw [hsum]
  have hdata := (hacceq.add (.refl (value (bytes p)))).add (.refl (lwipHtons proto.toNat))
  have hall := hdata.add (.refl (lwipHtons protoLen.toNat))
  exact ⟨x, hx, hle, heq.trans (hall.trans (value_pseudoHeader hs hd proto protoLen (bytes p)))⟩

/-- A checksum of a message, as it is stored, as it checks the message, and as it is filled in. -/
structure ChecksumOf (chksum : ℕ) (data : List Byte) : Prop where
  word : lwipHtons chksum = 0xFFFF - onesSum 0xFFFF (networkWords data)
  checks : chksum = 0 ↔ ChecksumValid data
  fills : ∀ front back, front.length % 2 = 0 → data = front ++ (storeWord 0 ++ back) →
    ChecksumValid (front ++ (storeWord chksum ++ back))

theorem checksumOf_complement {x : ℕ} {data : List Byte} (hx : x ≤ 0xFFFF) (h : OnesEq 0xFFFF x (value data)) :
    ChecksumOf (0xFFFF - x) data := by
  refine ⟨?_, ?_, ?_⟩
  · rw [← htons_onesSum hx h]
    unfold lwipHtons
    rw [swapBytesInWord_eq (show x < 0x10000 by omega), swapBytesInWord_eq (show 0xFFFF - x < 0x10000 by omega)]
    omega
  · rw [checksumValid_value]
    exact h.complement_eq_zero hx (by decide)
  · intro front back hf hdata
    rw [hdata] at h
    exact checksumValid_filled hf hx h

theorem inetChksum_checksumOf (address : ℕ) {data : List Byte} (h : data.length ≤ 0x20000) :
    ChecksumOf (inetChksum address data) data := by
  obtain ⟨hle, heq⟩ := lwipStandardChksum2_onesEq address h
  exact checksumOf_complement hle heq

theorem inetChksumPbuf_checksumOf {p : List Pbuf} (hp : Chain p) :
    ChecksumOf (inetChksumPbuf p) (bytes p) := by
  obtain ⟨x, hx, hle, heq⟩ := inetChksumPbuf_onesEq hp
  rw [hx]
  exact checksumOf_complement hle heq

/-- However the bytes are cut into pbufs, and wherever these are: the checksum of the chain,
alone and behind a pseudo header, is that of the bytes in a row. -/
theorem chain_checksums {p : List Pbuf} (hp : Chain p) :
    ChecksumOf (inetChksumPbuf p) (bytes p) ∧
      ∀ (src dest : List Byte) (proto : Byte) (protoLen : Word), src.length = 4 → dest.length = 4 →
        ChecksumOf (inetChksumPseudo p proto.toNat protoLen.toNat (value src) (value dest))
          (pseudoHeader src dest proto protoLen ++ bytes p) := by
  refine ⟨inetChksumPbuf_checksumOf hp, ?_⟩
  intro src dest proto protoLen hs hd
  obtain ⟨x, hx, hle, heq⟩ := inetChksumPseudo_onesEq hp hs hd proto protoLen
  rw [hx]
  exact checksumOf_complement hle heq

/-- A datagram in three parts, two of odd length and one at an odd address. -/
theorem chain_checksums_cut :
    ChecksumOf (inetChksumPbuf [⟨0x20000001, [1, 2, 3]⟩, ⟨0x20000100, []⟩, ⟨0x20000200, [4, 5, 6, 7, 8]⟩])
      [1, 2, 3, 4, 5, 6, 7, 8] :=
  (chain_checksums (p := [⟨0x20000001, [1, 2, 3]⟩, ⟨0x20000100, []⟩, ⟨0x20000200, [4, 5, 6, 7, 8]⟩])
    (by simp [Chain])).1

end Stm32NetworkStack.LwipChecksum
