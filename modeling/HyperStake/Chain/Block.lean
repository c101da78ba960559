import HyperStake.Voting.Tally

/-!
# Blocks and their indices

A block as it is received, the index that a node keeps of it, and the position and the spent outputs
of a transaction in the transaction database.

A pointer to another block index is the hash of that block, zero for the null pointer.
-/

namespace HyperStake

open LittleEndian

/-- The version that data on disk is serialised under. -/
def CLIENT_VERSION : Int32 := 1010501

/-- Position on disk for a particular transaction. -/
structure CDiskTxPos where
  nFile : UInt32 := 0xffffffff
  nBlockPos : UInt32 := 0
  nTxPos : UInt32 := 0
  deriving DecidableEq, Repr

/-- The null position is that of no transaction. -/
def CDiskTxPos.isNull (pos : CDiskTxPos) : Bool := pos.nFile == 0xffffffff

/-- A transaction database record: where a transaction is, and where its outputs are spent. -/
structure CTxIndex where
  pos : CDiskTxPos := {}
  vSpent : List CDiskTxPos := []
  deriving DecidableEq, Repr

/-- The constructor from a position and a number of outputs, none of which is spent. -/
def CTxIndex.ofPos (posIn : CDiskTxPos) (nOutputs : ℕ) : CTxIndex :=
  { pos := posIn, vSpent := List.replicate nOutputs {} }

/-- The previous transactions of a transaction, by hash. -/
abbrev MapPrevTx := Std.ExtTreeMap UInt256 (CTxIndex × CTransaction)

namespace CTransaction

/-- `GetOutputFor`: the output that an input claims. -/
def getOutputFor (input : CTxIn) (inputs : MapPrevTx) : Except Fault CTxOut :=
  match inputs[input.prevout.hash]? with
  | none => .error .runtimeError
  | some (_, txPrev) =>
    match txPrev.vout[input.prevout.n.toNat]? with
    | none => .error .runtimeError
    | some txout => .ok txout

/-- `GetValueIn`: the amount of money that the inputs claim. -/
def getValueIn (tx : CTransaction) (inputs : MapPrevTx) : Except Fault Int64 :=
  if tx.isCoinBase then .ok 0
  else tx.vin.foldlM (fun nResult txin => do return nResult + (← getOutputFor txin inputs).nValue) 0

end CTransaction

/-- A block: the header, the transactions and the signature. -/
structure CBlock where
  nVersion : Int32 := 4
  hashPrevBlock : UInt256 := 0
  hashMerkleRoot : UInt256 := 0
  nTime : UInt32 := 0
  nBits : UInt32 := 0
  nNonce : UInt32 := 0
  vtx : List CTransaction := []
  vchBlockSig : Bytes := []
  deriving DecidableEq, Repr

/-- `CBlock::GetSerializeSize`, on disk. -/
def CBlock.getSerializeSize (block : CBlock) : UInt32 :=
  4 + 32 + 32 + 4 + 4 + 4 + getSerializeSizeVector CTransaction.getSerializeSize block.vtx +
    getSerializeSizeString block.vchBlockSig

/-- `CBlock::Serialize`, on disk and in a message. -/
def CBlock.serialize (block : CBlock) : Bytes :=
  serializeInt32 block.nVersion ++ leBytes 32 block.hashPrevBlock.toNat ++
    leBytes 32 block.hashMerkleRoot.toNat ++ serializeUInt32 block.nTime ++
    serializeUInt32 block.nBits ++ serializeUInt32 block.nNonce ++
    serializeVector CTransaction.serialize block.vtx ++ serializeString block.vchBlockSig

/-- A block takes as many bytes as its `GetSerializeSize` says. -/
lemma CBlock.getSerializeSize_eq (block : CBlock) :
    block.getSerializeSize = UInt32.ofNat block.serialize.length := by
  rw [CBlock.getSerializeSize, CBlock.serialize,
    getSerializeSizeVector_eq CTransaction.getSerializeSize_eq, getSerializeSizeString_eq]
  simp only [List.length_append, serializeInt32, serializeUInt32, leBytes_length,
    UInt32.ofNat_add]
  rfl

/-- No transaction takes less than fourteen bytes. -/
lemma CBlock.length_vtx_mul_le (block : CBlock) :
    14 * block.vtx.length ≤ block.serialize.length := by
  have hcompact : ∀ n, 1 ≤ (writeCompactSize n).length := by
    intro n
    unfold writeCompactSize
    split_ifs <;> simp
  have htx : ∀ tx : CTransaction, 14 ≤ tx.serialize.length := by
    intro tx
    have hvin := hcompact tx.vin.length
    have hvout := hcompact tx.vout.length
    simp only [CTransaction.serialize, serializeVector, List.length_append, serializeInt32,
      serializeUInt32, leBytes_length]
    omega
  have hvtx : ∀ vtx : List CTransaction,
      14 * vtx.length ≤ (vtx.flatMap CTransaction.serialize).length := by
    intro vtx
    induction vtx with
    | nil => simp
    | cons tx vtx ih =>
      have hfirst := htx tx
      rw [List.flatMap_cons, List.length_append, List.length_cons]
      omega
  have hall := hvtx block.vtx
  simp only [CBlock.serialize, serializeVector, List.length_append]
  omega

/-- The index of a block. -/
structure CBlockIndex where
  phashBlock : UInt256 := 0
  pprev : UInt256 := 0
  pnext : UInt256 := 0
  nFile : UInt32 := 0
  nBlockPos : UInt32 := 0
  nHeight : Int32 := 0
  nMint : Int64 := 0
  nMoneySupply : Int64 := 0
  nFlags : UInt32 := 0
  nStakeModifier : UInt64 := 0
  prevoutStake : COutPoint := {}
  nStakeTime : UInt32 := 0
  hashProofOfStake : UInt256 := 0
  tally : CVoteTally := {}
  nVersion : Int32 := 0
  hashMerkleRoot : UInt256 := 0
  nTime : UInt32 := 0
  nBits : UInt32 := 0
  nNonce : UInt32 := 0

/-- The height of a block. -/
def heightOf (pindex : CBlockIndex) : ℤ := pindex.nHeight.toInt

end HyperStake
