import HyperStake.Wallet.WalletView

/-!
# Where a transaction of the wallet is in the chain

`IsFinal` of a transaction, its depth in the main chain, the number of blocks until it is mature,
and the debit that a transaction of the wallet caches.
-/

namespace HyperStake

/-- `nLockTime` below this is a block number, otherwise a time. -/
def LOCKTIME_THRESHOLD : Int64 := 500000000

def CTxIn.isFinal (txin : CTxIn) : Bool := decide (txin.nSequence = 0xffffffff)

/-- `CTransaction::IsFinal`, with the height of the best block and the time of the network when it
is given no others. -/
def CTransaction.isFinal (nBestHeight : Int32) (nAdjustedTime : Int64) (tx : CTransaction) : Bool :=
  if tx.nLockTime = 0 then true
  else
    let nLockTime := Int64.ofNat tx.nLockTime.toNat
    if nLockTime < (if nLockTime < LOCKTIME_THRESHOLD then nBestHeight.toInt64 else nAdjustedTime)
    then true
    else tx.vin.all CTxIn.isFinal

namespace WalletTx

/-- What the index of a block says to a wallet. -/
structure BlockPlace where
  nHeight : Int32
  hashMerkleRoot : UInt256
  /-- `IsInMainChain`. -/
  fInMainChain : Bool

/-- The chain that a wallet sees. -/
structure ChainState where
  mapBlockIndex : UInt256 → Option BlockPlace
  nBestHeight : Int32
  nCoinbaseMaturity : Int32
  /-- `GetAdjustedTime`. -/
  nAdjustedTime : Int64
  hash : Bytes → UInt256
  /-- The transactions whose branches have been checked before. -/
  fMerkleVerified : CMerkleTx → Bool

namespace ChainState

variable (chain : ChainState) (tx : CMerkleTx)

def isFinal : Bool := tx.toCTransaction.isFinal chain.nBestHeight chain.nAdjustedTime

def getDepthInMainChain : Int32 :=
  if tx.hashBlock = 0 ∨ tx.nIndex = -1 then 0
  else
    match chain.mapBlockIndex tx.hashBlock with
    | none => 0
    | some pindex =>
      if !pindex.fInMainChain then 0
      -- make sure the merkle branch connects to this block
      else if !chain.fMerkleVerified tx && decide (CBlock.checkMerkleBranch chain.hash
          (tx.getHash chain.hash) tx.vMerkleBranch tx.nIndex.toInt ≠ pindex.hashMerkleRoot) then 0
      else chain.nBestHeight - pindex.nHeight + 1

def getBlocksToMaturity : Int32 :=
  if !(tx.isCoinBase || tx.isCoinStake) then 0
  else
    let n := chain.nCoinbaseMaturity + 20 - chain.getDepthInMainChain tx
    if 0 < n then n else 0

end ChainState

namespace CWallet

variable (wallet : CWallet) (wtx : CWalletTx)

/-- `CWalletTx::GetDebit`: what it returns, and the transaction with what it caches. -/
def cachedDebit : Except Fault (Int64 × CWalletTx) :=
  if wtx.vin = [] then .ok (0, wtx)
  else if wtx.fDebitCached then .ok (wtx.nDebitCached, wtx)
  else (wallet.getDebit wtx.toCTransaction).map fun nDebit =>
    (nDebit, { wtx with nDebitCached := nDebit, fDebitCached := true })

/-- `IsConfirmedInMainChain`.  The debit that it asks for makes no difference. -/
def isConfirmedInMainChain (chain : ChainState) : Except Fault (Bool × CWalletTx) :=
  if !chain.isFinal wtx.toCMerkleTx then .ok (false, wtx)
  else if chain.getDepthInMainChain wtx.toCMerkleTx ≥ 1 then .ok (true, wtx)
  else (wallet.cachedDebit wtx).map fun r => (false, r.2)

/-- `CWalletTx::GetTxTime`. -/
def getTxTime : Int64 :=
  let n := Int64.ofNat wtx.nTimeSmart.toNat
  if n ≠ 0 then n else Int64.ofNat wtx.nTimeReceived.toNat

end CWallet

namespace CWallet

variable {wallet : CWallet} {wtx wtx' : CWalletTx} {nDebit : Int64} {fConfirmed : Bool}

/-- The debit that is cached is not shown. -/
lemma entry_of_cachedDebit (h : wallet.cachedDebit wtx = .ok (nDebit, wtx')) :
    wtx'.entry = wtx.entry := by
  unfold cachedDebit at h
  split_ifs at h
  · cases h
    rfl
  · cases h
    rfl
  · cases hdebit : wallet.getDebit wtx.toCTransaction with
    | error e =>
      rw [hdebit] at h
      cases h
    | ok n =>
      rw [hdebit] at h
      cases h
      rfl

/-- A transaction is confirmed if it is final and in the main chain. -/
lemma isConfirmedInMainChain_eq_ok {chain : ChainState}
    (h : wallet.isConfirmedInMainChain wtx chain = .ok (fConfirmed, wtx')) :
    wtx'.entry = wtx.entry ∧ fConfirmed = (chain.isFinal wtx.toCMerkleTx &&
      decide (chain.getDepthInMainChain wtx.toCMerkleTx ≥ 1)) := by
  unfold isConfirmedInMainChain at h
  split_ifs at h with hfinal hdepth
  · cases h
    rw [Bool.not_eq_true'] at hfinal
    rw [hfinal]
    exact ⟨rfl, rfl⟩
  · cases h
    rw [Bool.not_eq_true', Bool.not_eq_false] at hfinal
    rw [hfinal, decide_eq_true hdepth]
    exact ⟨rfl, rfl⟩
  · cases hdebit : wallet.cachedDebit wtx with
    | error e =>
      rw [hdebit] at h
      cases h
    | ok r =>
      rw [hdebit] at h
      cases h
      rw [decide_eq_false hdepth, Bool.and_false]
      exact ⟨entry_of_cachedDebit hdebit, rfl⟩

end CWallet

end WalletTx

end HyperStake
