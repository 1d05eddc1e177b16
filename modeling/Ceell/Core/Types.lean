/-
Ceell.Core.Types — what every module of the model shares: the Kconfig
symbols, the errno values, the integer conversions of C and the node
identity.

`int` and `int64_t` values are `Int`. The one conversion that loses
something, `(int)x` of a 64-bit `x`, is `toInt32`; node ids and sequence
numbers are `UInt32`, and go through the wire as `int`.
-/
import Mathlib.Algebra.Group.Int.Defs
import Mathlib.Algebra.Group.Nat.Defs

namespace Ceell

/-- The Kconfig symbols the modelled functions read (`Kconfig.ceell`).
The defaults are the shipped values. -/
structure Kconfig where
  /-- `CONFIG_CEELL_DISCOVERY_MAX_PEERS` -/
  discoveryMaxPeers : Nat := 8
  /-- `CONFIG_CEELL_DISCOVERY_INTERVAL_MS` -/
  discoveryIntervalMs : Nat := 1000
  /-- `CONFIG_CEELL_PEER_TIMEOUT_MS` -/
  peerTimeoutMs : Nat := 5000
  /-- `CONFIG_CEELL_MSG_QUEUE_DEPTH` -/
  msgQueueDepth : Nat := 8
  /-- `CONFIG_CEELL_MAX_SERVICES` -/
  maxServices : Nat := 4

/-! ## errno -/

def ENOENT : Int := 2
def EIO : Int := 5
def ENOMEM : Int := 12
def ENODEV : Int := 19
def EINVAL : Int := 22
def EPROTO : Int := 71
def ENOBUFS : Int := 105
def ETIMEDOUT : Int := 116
def EMSGSIZE : Int := 122

/-- What `errno` holds after a call that failed. -/
abbrev Errno := { e : Int // 0 < e }

/-! ## Integer conversions -/

/-- `size_t` of the 32-bit targets. -/
abbrev SizeT := UInt32

/-- `(int)x` of a wider signed integer. -/
def toInt32 (x : Int) : Int := x.bmod (2 ^ 32)

/-- `(uint32_t)x` of an `int`. -/
def toUInt32 (x : Int) : UInt32 := UInt32.ofBitVec (BitVec.ofInt 32 x)

/-- `(uint16_t)x` of an `int`. -/
def toUInt16 (x : Int) : UInt16 := UInt16.ofBitVec (BitVec.ofInt 16 x)

/-- `(int)x` of a `uint32_t`. -/
def ofUInt32 (x : UInt32) : Int := x.toBitVec.toInt

/-- A `uint32_t` survives the way through an `int` field. -/
@[simp] theorem toUInt32_ofUInt32 (x : UInt32) : toUInt32 (ofUInt32 x) = x := by
  rw [toUInt32, ofUInt32, BitVec.ofInt_toInt]

/-- A `uint16_t` survives it too. -/
@[simp] theorem toUInt16_toNat (x : UInt16) : toUInt16 x.toNat = x := by
  have hbits : BitVec.ofInt 16 (x.toNat : Int) = x.toBitVec := by
    rw [BitVec.ofInt_natCast]
    exact BitVec.eq_of_toNat_eq (by simp)
  rw [toUInt16, hbits]

/-- A `uint32_t` counter below its limit goes up by one. -/
theorem toNat_add_one {x : UInt32} (h : x.toNat + 1 < 4294967296) :
    (x + 1).toNat = x.toNat + 1 := by
  rw [UInt32.toNat_add]
  exact Nat.mod_eq_of_lt h

/-! ## Identity -/

abbrev NodeId := UInt32

/-- The part of `struct ceell_config` that the network modules read from
`ceell_identity_get`. -/
structure Identity where
  nodeId : NodeId

end Ceell
