import HyperStake.Chain.BlockIndex

/-!
# Checking transactions and blocks

`CTransaction::CheckTransaction` and `CBlock::CheckBlock`, which look at a transaction and at a block
alone, and the rules of `CBlock::AcceptBlock`, which look at a block and the indices before it.  A
block passes both before it gets an index, and `ConnectBlock` calls `CheckBlock` again.

What these functions ask of the rest of the node, its clock, its keys, its files and its
checkpoints, is a field of `Env` and may be anything.
-/

namespace HyperStake

open LittleEndian

/-- The largest block that a node makes. -/
def MAX_BLOCK_SIZE_GEN : UInt32 := MAX_BLOCK_SIZE / 2

/-- The last height of a proof-of-work block. -/
def POW_CUTOFF_HEIGHT : Int32 := 21000

/-- The time up to which the stake reward has no cap. -/
def FORK_TIME : UInt32 := 1404678625

/-- The time from which the clocks may drift less. -/
def FORK_TIME2 : UInt32 := 1423836000

/-- The surroundings of a node at the time of a call. -/
structure Env where
  fTestNet : Bool
  /-- `Checkpoints::GetTotalBlocksEstimate`. -/
  getTotalBlocksEstimate : Int32
  nBestHeight : Int32
  nCoinbaseMaturity : Int32
  nStakeMinAge : UInt32
  getAdjustedTime : Int64
  /-- `CheckProofOfWork`, on the hash and the target of a block. -/
  checkProofOfWork : CBlock → Bool
  buildMerkleTree : CBlock → UInt256
  checkBlockSignature : CBlock → Bool
  getLegacySigOpCount : CTransaction → UInt32
  getP2SHSigOpCount : CTransaction → MapPrevTx → Except Fault UInt32
  /-- `VerifySignature` of the input at a position of the second transaction, which claims an output
  of the first one. -/
  verifySignature : CTransaction → CTransaction → ℕ → Bool → Bool
  /-- `GetNextTargetRequired` for a proof-of-stake or a proof-of-work block after an index. -/
  getNextTargetRequired : CBlockIndex → Bool → UInt32
  /-- `CTransaction::IsFinal` at a height and a time. -/
  isFinal : CTransaction → Int32 → Int64 → Bool
  /-- `Checkpoints::CheckHardened`. -/
  checkHardened : Int32 → CBlock → Bool
  /-- The transactions in memory, by hash. -/
  mempool : UInt256 → Option CTransaction
  /-- `CTransaction::ReadFromDisk`: the transaction at a position, or none if it cannot be read. -/
  readFromDisk : CDiskTxPos → Option CTransaction
  /-- `CBlock::ReadFromDisk` of the header at a file and a position, of which only the time is
  used. -/
  readBlockTime : UInt32 → UInt32 → Option UInt32
  /-- An index and the indices that the `pprev` pointers lead to from it. -/
  ancestors : CBlockIndex → List CBlockIndex
  /-- The transaction database takes the record of a transaction. -/
  writesTxIndex : UInt256 → CTxIndex → Bool
  /-- The transaction database takes the record of an index. -/
  writesBlockIndex : CBlockIndex → Bool
  /-- The vote database takes the record of a proposal. -/
  writesProposal : UInt256 → Bool

/-! ## Transactions -/

namespace CTransaction

/-- The loop of `CheckTransaction` over the outputs that are left, for an ordinary transaction or
for a coinbase or coin stake. -/
def checkOutputs (fOrdinary : Bool) : Int64 → List CTxOut → Bool
  | _, [] => true
  | nValueOut, txout :: vout =>
    if txout.isEmpty && fOrdinary then false
    -- enforce minimum output amount
    else if !txout.isEmpty && decide (txout.nValue < MIN_TXOUT_AMOUNT) then false
    else if txout.nValue > MAX_MONEY then false
    else if !moneyRange (nValueOut + txout.nValue) then false
    else checkOutputs fOrdinary (nValueOut + txout.nValue) vout

/-- `CheckTransaction`: the checks that do not depend on any context. -/
def checkTransaction (tx : CTransaction) : Bool :=
  if tx.vin.isEmpty then false
  else if tx.vout.isEmpty then false
  else if tx.getSerializeSize > MAX_BLOCK_SIZE then false
  else if !checkOutputs (!tx.isCoinBase && !tx.isCoinStake) 0 tx.vout then false
  -- check for duplicate inputs
  else if !decide (tx.vin.map CTxIn.prevout).Nodup then false
  else if tx.isCoinBase then
    tx.vin.head?.all fun txin => decide (2 ≤ txin.scriptSig.length ∧ txin.scriptSig.length ≤ 100)
  else !tx.vin.any fun txin => txin.prevout.isNull

end CTransaction

/-! ## Blocks -/

/-- A time in seconds as an `int64`. -/
def timeOf (nTime : UInt32) : Int64 := nTime.toUInt64.toInt64

lemma toInt_timeOf (nTime : UInt32) : (timeOf nTime).toInt = nTime.toNat := by
  have hlt := nTime.toNat_lt
  rw [timeOf, Int64Sum.toInt_toInt64 (by rw [UInt32.toNat_toUInt64]; omega), UInt32.toNat_toUInt64]

/-- The seconds that the clocks of two nodes may be apart. -/
def getClockDrift (nTime : Int64) : Int64 := if nTime < timeOf FORK_TIME2 then 15 * 60 else 60

namespace CBlock

def getBlockTime (block : CBlock) : Int64 := timeOf block.nTime

/-- The checks of `CheckBlock` on the kinds and the times of the transactions. -/
def checkKinds (block : CBlock) : Bool :=
  match block.vtx with
  | [] => false
  | coinbase :: others =>
    -- the first transaction must be coinbase, the rest must not be
    coinbase.isCoinBase && !others.any CTransaction.isCoinBase &&
    -- only the second transaction can be the optional coinstake
    !(others.drop 1).any CTransaction.isCoinStake &&
    -- the coinbase output should be empty if proof-of-stake block
    !(block.isProofOfStake &&
      (coinbase.vout.length != 1 || !coinbase.vout.head?.all CTxOut.isEmpty)) &&
    decide (block.getBlockTime ≤ timeOf coinbase.nTime + getClockDrift block.getBlockTime) &&
    -- `CheckCoinStakeTimestamp`
    !(block.isProofOfStake &&
      !others.head?.all fun tx => decide (block.getBlockTime = timeOf tx.nTime))

/-- `CheckBlock`: the checks that do not depend on any context. -/
def checkBlock (hash : Bytes → UInt256) (env : Env) (block : CBlock)
    (fCheckPOW fCheckMerkleRoot fFullCheck : Bool) : Bool :=
  !block.vtx.isEmpty && decide (block.vtx.length ≤ MAX_BLOCK_SIZE.toNat) &&
  decide (block.getSerializeSize ≤ MAX_BLOCK_SIZE) &&
  !(fCheckPOW && !block.isProofOfStake && !env.checkProofOfWork block) &&
  decide (block.getBlockTime ≤ env.getAdjustedTime + getClockDrift block.getBlockTime) &&
  block.checkKinds &&
  block.vtx.all (fun tx => (!fFullCheck || tx.checkTransaction) &&
    decide (timeOf tx.nTime ≤ block.getBlockTime)) &&
  -- duplicate txids
  decide (block.vtx.map (CTransaction.getHash hash)).Nodup &&
  decide (block.vtx.foldl (fun nSigOps tx => nSigOps + env.getLegacySigOpCount tx) 0
    ≤ MAX_BLOCK_SIGOPS) &&
  !(fCheckMerkleRoot && block.hashMerkleRoot != env.buildMerkleTree block) &&
  !(fFullCheck && !env.checkBlockSignature block)

end CBlock

/-! ## The place in the chain -/

/-- The number of blocks whose times the median is taken of. -/
def nMedianTimeSpan : ℕ := 11

/-- `GetMedianTimePast` of the first of some indices, each followed by its ancestors. -/
def getMedianTimePast (past : List CBlockIndex) : Int64 :=
  let pmedian := ((past.take nMedianTimeSpan).map fun pindex => timeOf pindex.nTime).mergeSort
    fun a b => decide (a ≤ b)
  pmedian.getD (pmedian.length / 2) 0

/-- The median of some times is one of them, so it is not before the first of them. -/
lemma le_getMedianTimePast {past : List CBlockIndex} {bound : ℤ} (hne : past ≠ [])
    (hpast : ∀ pindex ∈ past, bound ≤ pindex.nTime.toNat) :
    bound ≤ (getMedianTimePast past).toInt := by
  unfold getMedianTimePast
  set pmedian := ((past.take nMedianTimeSpan).map fun pindex => timeOf pindex.nTime).mergeSort
    fun a b => decide (a ≤ b) with hmedian
  have hlength : 0 < pmedian.length := by
    have hpos := List.length_pos_iff.mpr hne
    rw [hmedian, List.length_mergeSort, List.length_map, List.length_take, nMedianTimeSpan]
    omega
  have hlt : pmedian.length / 2 < pmedian.length := by omega
  have hmem := List.mem_mergeSort.mp (List.getElem_mem hlt)
  dsimp only
  rw [List.getD_eq_getElem?_getD, List.getElem?_eq_getElem hlt, Option.getD_some]
  obtain ⟨pindex, hpindex, htime⟩ := List.mem_map.mp hmem
  have hbound := hpast pindex (List.mem_of_mem_take hpindex)
  rw [← toInt_timeOf, htime] at hbound
  exact hbound

/-- The rules of `AcceptBlock` for a block after an index and its ancestors, nearest first. -/
def CBlock.acceptRules (env : Env) (past : List CBlockIndex) (block : CBlock) :
    Except Fault Bool :=
  match past, block.vtx with
  | [], _ => .ok false
  | _, [] => .error .undefined
  | pindexPrev :: _, coinbase :: _ =>
    let nHeight := pindexPrev.nHeight + 1
    if !block.isProofOfStake && decide (nHeight > POW_CUTOFF_HEIGHT) then .ok false
    else if block.nBits != env.getNextTargetRequired pindexPrev block.isProofOfStake then .ok false
    -- check timestamp against prev
    else if block.getBlockTime ≤ getMedianTimePast past ∨
        block.getBlockTime + getClockDrift block.getBlockTime < timeOf pindexPrev.nTime then
      .ok false
    else if !block.vtx.all fun tx => env.isFinal tx nHeight block.getBlockTime then .ok false
    else if !env.checkHardened nHeight block then .ok false
    else if block.nVersion < 3 ∧ (!env.fTestNet ∧ nHeight > 14060 ∨ env.fTestNet ∧ nHeight > 0) then
      .ok false
    else
      -- the coinbase starts with serialized block height
      match coinbase.vin with
      | [] => .error .undefined
      | txin :: _ => CScript.equalStart (CScript.pushInt64 [] nHeight.toInt64) txin.scriptSig

/-- Some of what `AcceptBlock` has checked of a block: its height if it has proof-of-work, its time,
and the start of its coinbase. -/
lemma CBlock.acceptRules_eq_true {env : Env} {past : List CBlockIndex} {block : CBlock}
    (h : block.acceptRules env past = .ok true) :
    ∃ pindexPrev ∈ past.head?, ∃ coinbase ∈ block.vtx.head?, ∃ txin ∈ coinbase.vin.head?,
      (block.isProofOfStake = false → pindexPrev.nHeight + 1 ≤ POW_CUTOFF_HEIGHT) ∧
      getMedianTimePast past < block.getBlockTime ∧
      CScript.pushInt64 [] (pindexPrev.nHeight + 1).toInt64 <+: txin.scriptSig := by
  unfold acceptRules at h
  match past, hvtx : block.vtx with
  | [], _ => cases h
  | _ :: _, [] =>
    rw [hvtx] at h
    cases h
  | pindexPrev :: past, coinbase :: others =>
    simp only [hvtx] at h
    split_ifs at h with hwork hbits htime hfinal hhardened hversion
    · cases h
    · cases h
    · cases h
    · cases h
    · cases h
    · cases h
    · cases hvin : coinbase.vin with
      | nil =>
        rw [hvin] at h
        cases h
      | cons txin vin =>
        rw [hvin] at h
        refine ⟨pindexPrev, rfl, coinbase, rfl, txin, by rw [hvin]; rfl, ?_, ?_,
          CScript.equalStart_iff.mp h⟩
        · intro hstake
          simpa [hstake] using hwork
        · exact Int64.not_le.mp fun hle => htime (Or.inl hle)

end HyperStake
