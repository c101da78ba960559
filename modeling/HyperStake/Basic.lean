import Mathlib.Algebra.Group.Int.Defs
import Mathlib.Algebra.Group.Nat.Defs
import Mathlib.Data.Int.Notation
import Mathlib.Data.List.Basic
import Std.Data.ExtTreeMap.Lemmas

/-!
# Basic types of the node

The 256-bit hash values, the ways a C++ computation can fail to produce a value, and the monetary
and size constants that several parts of the node share.

An `unsigned int` is a `UInt32`, an `int` an `Int32` and an `int64` an `Int64`; their arithmetic
wraps around as it does in the compiled program.  A `std::string` or `std::vector<unsigned char>`
is its list of bytes, and a `std::map` is an `Std.ExtTreeMap`, iterated in the order of its keys.
-/

namespace HyperStake

/-- A `uint256`, the value of a hash. -/
abbrev UInt256 := BitVec 256

/-- The keys of a map are ordered as numbers are. -/
instance transOrdUInt256 : Std.TransOrd UInt256 := BitVec.instTransOrd

/-- The bytes of a string, a script or a stream. -/
abbrev Bytes := List UInt8

/-- How a C++ computation ends without a value. -/
inductive Fault where
  /-- `std::out_of_range`, thrown by `vector::at`. -/
  | outOfRange
  /-- `std::ios_base::failure`, thrown by a stream. -/
  | iosFailure
  /-- `std::runtime_error`. -/
  | runtimeError
  /-- The program's behaviour is undefined. -/
  | undefined
  /-- The program does not leave a loop. -/
  | endless
  deriving DecidableEq, Repr

/-- The number of base units in one coin. -/
def COIN : Int64 := 1000000

/-- One hundredth of a coin. -/
def CENT : Int64 := 10000

/-- The smallest fee of a transaction: `.00001 * COIN`. -/
def MIN_TX_FEE : Int64 := 10

/-- The smallest value of a non-empty output. -/
def MIN_TXOUT_AMOUNT : Int64 := MIN_TX_FEE

/-- The most money that can exist: `60000000 * COIN`. -/
def MAX_MONEY : Int64 := 60000000000000

/-- The largest serialised block, and the largest serialised transaction, in bytes. -/
def MAX_BLOCK_SIZE : UInt32 := 1000000

/-- The largest number of signature operations of a block. -/
def MAX_BLOCK_SIGOPS : UInt32 := MAX_BLOCK_SIZE / 50

/-- The height from which votes are counted on the main network. -/
def VOTING_START : UInt32 := 9999999

/-- An amount lies between zero and the money supply cap. -/
def moneyRange (nValue : Int64) : Bool := decide (nValue ≥ 0) && decide (nValue ≤ MAX_MONEY)

/-- A loop that counts an `unsigned int` up to a size ends only if the size is one. -/
def loopTo (size : ℕ) : Except Fault Unit :=
  if size < 2 ^ 32 then .ok () else .error .endless

/-- The signed value of an unsigned height. -/
lemma toInt_toInt32 (x : UInt32) : x.toInt32.toInt
    = if 2 * x.toNat < 2 ^ 32 then (x.toNat : ℤ) else (x.toNat : ℤ) - 2 ^ 32 := by
  rw [← Int32.toInt_toBitVec, BitVec.toInt_eq_toNat_cond]
  rfl

/-! ## Shifts

The amount of a shift has to be the position of a bit; the shift is undefined otherwise. -/

/-- `operator>>` on an `int32_t`. -/
def shiftRightInt32 (x : Int32) (n : ℤ) : Except Fault Int32 :=
  if 0 ≤ n ∧ n < 32 then .ok (Int32.ofBitVec (x.toBitVec.sshiftRight n.toNat))
  else .error .undefined

/-- `operator>>` on a `uint32_t`. -/
def shiftRightUInt32 (x : UInt32) (n : ℤ) : Except Fault UInt32 :=
  if 0 ≤ n ∧ n < 32 then .ok (UInt32.ofBitVec (x.toBitVec >>> n.toNat)) else .error .undefined

/-- `operator<<` on a `uint32_t`. -/
def shiftLeftUInt32 (x : UInt32) (n : ℤ) : Except Fault UInt32 :=
  if 0 ≤ n ∧ n < 32 then .ok (UInt32.ofBitVec (x.toBitVec <<< n.toNat)) else .error .undefined

end HyperStake
