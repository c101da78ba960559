import HyperStake.Chain.CheckBlock

/-!
# The transaction database

A node records for every transaction of the best chain where it is on disk and where each of its
outputs is spent.  `ConnectBlock` spends outputs through `FetchInputs` and `ConnectInputs`, which
work on queued changes over the database, and writes the changes at the end; `DisconnectBlock` gives
the outputs back, one transaction after the other in reverse order.

Here are these functions as they are called for a block that is connected, the rewards that bound
the money that a block makes, and the node that `ConnectBlock` runs on with them (`Env.node`).
-/

namespace HyperStake

/-- The records of the transactions, by hash.  The database has the records of the blocks too, under
other keys; they are only written here. -/
abbrev TxDB := Std.ExtTreeMap UInt256 CTxIndex

namespace TxDB

def updateTxIndex (env : Env) (db : TxDB) (hash : UInt256) (txindex : CTxIndex) : Option TxDB :=
  if env.writesTxIndex hash txindex then some (db.insert hash txindex) else none

def writeBlockIndex (env : Env) (db : TxDB) (pindex : CBlockIndex) : Option TxDB :=
  if env.writesBlockIndex pindex then some db else none

end TxDB

namespace Exit

/-- A value, or none if the computation returns false. -/
def toOption {α : Type} : Except Exit α → Except Fault (Option α)
  | .ok a => .ok (some a)
  | .error .returnFalse => .ok none
  | .error (.throws e) => .error e

end Exit

/-! ## Rewards and fees -/

def getProofOfWorkReward (fTestNet : Bool) (nHeight : Int32) (nFees : Int64) : Int64 :=
  let nSubsidy :=
    if fTestNet then if nHeight = 1 then 50000000 * COIN else 1000 * COIN
    else if nHeight = 1 then 120000 * COIN
    else 500 * COIN
  nSubsidy + nFees

/-- Two coins for a hundred a year. -/
def MAX_MINT_PROOF_OF_STAKE : Int64 := 2000000

/-- Seven and a half coins for a hundred a year. -/
def MAX_MINT_PROOF_OF_STAKEV2 : Int64 := 7500000

def getProofOfStakeRewardV1 (nCoinAge : Int64) : Int64 := nCoinAge * MAX_MINT_PROOF_OF_STAKE / 365

/-- `GetProofOfStakeRewardV2`, which has a cap. -/
def getProofOfStakeRewardV2 (nCoinAge : Int64) : Int64 :=
  min (nCoinAge * MAX_MINT_PROOF_OF_STAKEV2 / 365) (1000 * COIN)

/-- `GetProofOfStakeReward`; the target and the height that it is called with are not used. -/
def getProofOfStakeReward (nCoinAge : Int64) (nTime : UInt32) : Int64 :=
  if nTime > FORK_TIME then getProofOfStakeRewardV2 nCoinAge else getProofOfStakeRewardV1 nCoinAge

/-- The base fee of a transaction that is relayed. -/
def MIN_RELAY_TX_FEE : Int64 := 10

namespace CTransaction

/-- `GetMinFee`, for a block or, with `fRelay`, for the memory pool. -/
def getMinFee (tx : CTransaction) (nBlockSize : UInt32 := 1) (fRelay : Bool := false)
    (nBytes : UInt32 := 0) : Int64 :=
  let nBaseFee := if fRelay then MIN_RELAY_TX_FEE else MIN_TX_FEE
  let nNewBlockSize := nBlockSize + nBytes
  let nMinFee := (1 + nBytes.toUInt64.toInt64 / 1000) * nBaseFee
  let nMinFee :=
    if nMinFee < nBaseFee ∧ tx.vout.any fun txout => decide (txout.nValue < CENT) then nBaseFee
    else nMinFee
  -- raise the price as the block approaches full
  if nBlockSize ≠ 1 ∧ nNewBlockSize ≥ MAX_BLOCK_SIZE_GEN then MAX_MONEY
  else
    let nMinFee :=
      if nBlockSize ≠ 1 ∧ nNewBlockSize ≥ MAX_BLOCK_SIZE_GEN / 2 then
        nMinFee * (MAX_BLOCK_SIZE_GEN / (MAX_BLOCK_SIZE_GEN - nNewBlockSize)).toUInt64.toInt64
      else nMinFee
    max (if moneyRange nMinFee then nMinFee else MAX_MONEY) MIN_TX_FEE

/-- The loop of `GetCoinAge` over the inputs that are left, with the age in seconds times cents. -/
def coinAgeLoop (env : Env) (db : TxDB) (tx : CTransaction) : ℤ → List CTxIn → Option ℤ
  | bnCentSecond, [] => some bnCentSecond
  | bnCentSecond, txin :: vin =>
    match db[txin.prevout.hash]? with
    | none => coinAgeLoop env db tx bnCentSecond vin
    | some txindex =>
      match env.readFromDisk txindex.pos with
      | none => coinAgeLoop env db tx bnCentSecond vin
      | some txPrev =>
        match txPrev.vout[txin.prevout.n.toNat]? with
        | none => coinAgeLoop env db tx bnCentSecond vin
        | some txout =>
          if tx.nTime < txPrev.nTime then none
          else
            match env.readBlockTime txindex.pos.nFile txindex.pos.nBlockPos with
            | none => none
            | some nTimeBlock =>
              -- only count coins meeting min age requirement
              if tx.nTime.toNat < nTimeBlock.toNat + env.nStakeMinAge.toNat then
                coinAgeLoop env db tx bnCentSecond vin
              else
                coinAgeLoop env db tx
                  (bnCentSecond + (txout.nValue.toInt *
                    ((tx.nTime - txPrev.nTime).toNat : ℤ)).tdiv CENT.toInt) vin

/-- `GetCoinAge`: the age of the coins that a transaction spends, in days, or none if it fails. -/
def getCoinAge (env : Env) (db : TxDB) (tx : CTransaction) : Option UInt64 :=
  if tx.isCoinBase then some 0
  else
    (coinAgeLoop env db tx 0 tx.vin).map fun bnCentSecond =>
      UInt64.ofNat
        (((bnCentSecond * CENT.toInt).tdiv COIN.toInt).tdiv (24 * 60 * 60)).natAbs

/-! ## Spending -/

/-- One turn of the loop of `FetchInputs` that reads the previous transactions. -/
def fetchInput (env : Env) (db : TxDB) (mapTestPool : Std.ExtTreeMap UInt256 CTxIndex)
    (inputsRet : MapPrevTx) (txin : CTxIn) : Except Exit MapPrevTx :=
  let prevout := txin.prevout
  if inputsRet.contains prevout.hash then .ok inputsRet
  else do
    -- the current proposed changes go before the database
    let txindex ← Exit.requireSome (match mapTestPool[prevout.hash]? with
      | some txindex => some txindex
      | none => db[prevout.hash]?)
    let txPrev ← Exit.requireSome
      (if txindex.pos = ⟨1, 1, 1⟩ then env.mempool prevout.hash else env.readFromDisk txindex.pos)
    return inputsRet.insert prevout.hash (txindex, txPrev)

/-- What is known of the transaction that an input claims an output of, which an assertion checks to
be there. -/
def prevOf (inputs : MapPrevTx) (txin : CTxIn) : Except Exit (CTxIndex × CTransaction) :=
  match inputs[txin.prevout.hash]? with
  | some prev => .ok prev
  | none => .error (.throws .undefined)

/-- An input claims an output that is there. -/
def checkRange (inputs : MapPrevTx) (txin : CTxIn) : Except Exit Unit := do
  let (txindex, txPrev) ← prevOf inputs txin
  Exit.require (txin.prevout.n.toNat < txPrev.vout.length ∧
    txin.prevout.n.toNat < txindex.vSpent.length)

/-- `FetchInputs`, for a block. -/
def fetchInputs (env : Env) (db : TxDB) (tx : CTransaction)
    (mapTestPool : Std.ExtTreeMap UInt256 CTxIndex) : Except Exit MapPrevTx :=
  if tx.isCoinBase then .ok ∅
  else do
    let inputsRet ← tx.vin.foldlM (fetchInput env db mapTestPool) ∅
    tx.vin.forM (checkRange inputsRet)
    return inputsRet

/-- The block of a transaction is one of the last ones, up to the block of an index. -/
def isImmature (env : Env) (pindexBlock : CBlockIndex) (txindex : CTxIndex) : Bool :=
  ((env.ancestors pindexBlock).takeWhile fun pindex =>
    decide (pindexBlock.nHeight - pindex.nHeight < env.nCoinbaseMaturity)).any fun pindex =>
      pindex.nBlockPos == txindex.pos.nBlockPos && pindex.nFile == txindex.pos.nFile

/-- One turn of the first loop of `ConnectInputs`, which does the inexpensive checks and adds up the
values. -/
def checkInput (env : Env) (tx : CTransaction) (inputs : MapPrevTx) (pindexBlock : CBlockIndex)
    (nValueIn : Int64) (txin : CTxIn) : Except Exit Int64 := do
  let (txindex, txPrev) ← prevOf inputs txin
  checkRange inputs txin
  -- if prev is coinbase or coinstake, check that it's matured
  Exit.require (!((txPrev.isCoinBase || txPrev.isCoinStake) &&
    isImmature env pindexBlock txindex))
  Exit.require (txPrev.nTime ≤ tx.nTime)
  let nValue := (txPrev.vout.getD txin.prevout.n.toNat {}).nValue
  Exit.require (moneyRange nValue && moneyRange (nValueIn + nValue))
  return nValueIn + nValue

/-- One turn of the second loop of `ConnectInputs`, which checks the signature of an input and marks
the output that it claims as spent. -/
def spendInput (env : Env) (tx : CTransaction) (posThisTx : CDiskTxPos)
    (s : MapPrevTx × Std.ExtTreeMap UInt256 CTxIndex) (input : CTxIn × ℕ) :
    Except Exit (MapPrevTx × Std.ExtTreeMap UInt256 CTxIndex) := do
  let prevout := input.1.prevout
  let (txindex, txPrev) ← prevOf s.1 input.1
  -- check for conflicts (double-spend)
  Exit.require (txindex.vSpent.getD prevout.n.toNat {}).isNull
  -- signatures are skipped before the last checkpoint; the strict check decides
  Exit.require (decide (env.nBestHeight < env.getTotalBlocksEstimate) ||
    env.verifySignature txPrev tx input.2 true)
  let txindex := { txindex with vSpent := txindex.vSpent.set prevout.n.toNat posThisTx }
  return (s.1.insert prevout.hash (txindex, txPrev), s.2.insert prevout.hash txindex)

/-- The end of `ConnectInputs`: the reward of a coin stake has a bound, and any other transaction
pays a fee. -/
def checkValue (env : Env) (db : TxDB) (tx : CTransaction) (nValueIn : Int64) :
    Except Exit Unit := do
  let nValueOut ← Exit.lift tx.getValueOut
  if tx.isCoinStake then
    let nCoinAge ← Exit.requireSome (getCoinAge env db tx)
    Exit.require (nValueOut - nValueIn ≤
      getProofOfStakeReward nCoinAge.toInt64 tx.nTime - tx.getMinFee + MIN_TX_FEE)
  else
    Exit.require (nValueIn ≥ nValueOut)
    let nTxFee := nValueIn - nValueOut
    Exit.require (nTxFee ≥ 0)
    Exit.require (nTxFee ≥ tx.getMinFee)
    Exit.require (moneyRange nTxFee)

/-- `ConnectInputs`, for a block: the queued changes as it leaves them. -/
def connectInputs (env : Env) (db : TxDB) (tx : CTransaction) (inputs : MapPrevTx)
    (mapTestPool : Std.ExtTreeMap UInt256 CTxIndex) (posThisTx : CDiskTxPos)
    (pindexBlock : CBlockIndex) : Except Exit (Std.ExtTreeMap UInt256 CTxIndex) :=
  if tx.isCoinBase then .ok mapTestPool
  else do
    let nValueIn ← tx.vin.foldlM (checkInput env tx inputs pindexBlock) 0
    let s ← tx.vin.zipIdx.foldlM (spendInput env tx posThisTx) (inputs, mapTestPool)
    checkValue env db tx nValueIn
    return s.2

/-! ## Giving back -/

/-- One turn of the loop of `DisconnectInputs`: the output that an input claims is marked as not
spent. -/
def disconnectInput (env : Env) (db : TxDB) (txin : CTxIn) : Option TxDB := do
  let prevout := txin.prevout
  let txindex ← db[prevout.hash]?
  guard (prevout.n.toNat < txindex.vSpent.length)
  db.updateTxIndex env prevout.hash
    { txindex with vSpent := txindex.vSpent.set prevout.n.toNat {} }

/-- `DisconnectInputs`; what `EraseTxIndex` returns is not looked at. -/
def disconnectInputs (hash : Bytes → UInt256) (env : Env) (db : TxDB) (tx : CTransaction) :
    Option TxDB :=
  let freed := if tx.isCoinBase then some db else tx.vin.foldlM (disconnectInput env) db
  freed.map fun db => db.erase (tx.getHash hash)

end CTransaction

/-- `DisconnectBlock`, in reverse order; the notification of the wallets at the end is left out. -/
def CBlock.disconnectBlock (hash : Bytes → UInt256) (env : Env) (db : TxDB) (block : CBlock)
    (pprev : Option CBlockIndex) : Option TxDB := do
  let db ← block.vtx.reverse.foldlM (CTransaction.disconnectInputs hash env) db
  match pprev with
  | none => some db
  | some pprev => db.writeBlockIndex env { pprev with pnext := 0 }

/-! ## The node -/

/-- The node that `ConnectBlock` runs on. -/
def Env.node (hash : Bytes → UInt256) (env : Env) : Node TxDB where
  fTestNet := env.fTestNet
  getTotalBlocksEstimate := env.getTotalBlocksEstimate
  checkBlock block fCheckPOW fCheckMerkleRoot fFullCheck :=
    .ok (block.checkBlock hash env fCheckPOW fCheckMerkleRoot fFullCheck)
  getLegacySigOpCount := env.getLegacySigOpCount
  getP2SHSigOpCount := env.getP2SHSigOpCount
  readTxIndex db h := db[h]?
  fetchInputs db tx mapTestPool := Exit.toOption (tx.fetchInputs env db mapTestPool)
  connectInputs db tx inputs mapTestPool posThisTx pindexBlock :=
    Exit.toOption (tx.connectInputs env db inputs mapTestPool posThisTx pindexBlock)
  writeBlockIndex := TxDB.writeBlockIndex env
  updateTxIndex := TxDB.updateTxIndex env
  getProofOfWorkReward nHeight nFees _ :=
    .ok (getProofOfWorkReward env.fTestNet nHeight nFees)
  writesProposal := env.writesProposal

end HyperStake
