import Mathlib.Data.Int.Notation
import Stm32NetworkStack.Enc28Registers

set_option autoImplicit false

/-!
# The built-in ping responder

`enc28_debug.c`. The headers are packed structures over the frame, so each
field is a byte offset; multi-byte fields are little endian.
-/
namespace Stm32NetworkStack.PingResponder
open Enc28Registers

def byteAt (pktBuf : List Byte) (i : ℕ) : Byte := pktBuf.getD i 0

/-- `n` bytes of `src` from `i` on, copied to `j` of `dst`. -/
def copyField (src : List Byte) (i : ℕ) (dst : List Byte) (j n : ℕ) : List Byte :=
  dst.take j ++ (src.drop i).take n ++ dst.drop (j + n)

def ethHeaderSize : ℕ := 14
def ipv4HeaderSize : ℕ := 20
def icmpPingHeaderSize : ℕ := 8

def enc28DebugIsPingRequest (pktBuf : List Byte) (pktSize : Word) : Bool :=
  if pktSize.toNat < ethHeaderSize + ipv4HeaderSize + icmpPingHeaderSize then false
  else
    -- `type_len`, `protocol` and `type`
    word (byteAt pktBuf 13) (byteAt pktBuf 12) == 0x08 &&
      byteAt pktBuf (ethHeaderSize + 9) == 0x1 &&
      byteAt pktBuf (ethHeaderSize + ipv4HeaderSize) == 0x8

/-- Addresses exchanged, `type` 0, and 8 added to the checksum. -/
def pingReply (pktBuf : List Byte) (respSize : Word) (respBuf : List Byte) : List Byte :=
  let resp := copyField pktBuf 0 respBuf 0 respSize.toNat
  let resp := copyField pktBuf 6 resp 0 6
  let resp := copyField pktBuf 0 resp 6 6
  let resp := copyField pktBuf 26 resp 30 4
  let resp := copyField pktBuf 30 resp 26 4
  let resp := resp.set 34 0
  let checksum := word (byteAt resp 37) (byteAt resp 36) + 0x8
  (resp.set 36 (lowByte checksum.toNat)).set 37 (BitVec.ofNat 8 (checksum.toNat / 256))

/-- The return value and what `resp_buf` holds afterwards. -/
def enc28DebugHandlePing (pktBuf : List Byte) (pktSize : Word) (respBuf : List Byte)
    (respSize : Word) : ℤ × List Byte :=
  if pktSize ≠ respSize then (-1, respBuf)
  else if !enc28DebugIsPingRequest pktBuf pktSize then (-2, respBuf)
  else (0, pingReply pktBuf respSize respBuf)

end Stm32NetworkStack.PingResponder
