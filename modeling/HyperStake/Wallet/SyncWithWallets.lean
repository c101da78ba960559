import HyperStake.Chain.Merkle
import HyperStake.Wallet.WalletTx

/-!
# What the chain tells the wallets

`SyncWithWallets` tells every registered wallet of a transaction in a block that is connected or
disconnected.  A wallet adds a transaction of a connected block that involves it, and marks as spent
the outputs that it spends; of a disconnected coin stake of its own it marks the spent outputs as
unspent again.

The default key, the notifications and the lines that are printed are left out, but for the credit
that one of these lines computes.  What the wallets are after an exception is not said.
-/

namespace HyperStake.WalletTx

/-- A `CWallet`: its transactions, the place of the next one in their order, and what it asks of its
keys and of the rest of the node. -/
structure CWallet where
  mapWallet : Std.ExtTreeMap UInt256 CWalletTx := ∅
  nOrderPosNext : Int64 := 0
  /-- `IsMine` of an output. -/
  isMine : CTxOut → Bool
  /-- `GetBlocksToMaturity`. -/
  blocksToMaturity : CMerkleTx → Int32
  /-- `GetAdjustedTime`, when a transaction arrives. -/
  adjustedTime : CMerkleTx → UInt32
  /-- `nTimeSmart` of a transaction that arrives, from its block and the transactions before it. -/
  timeSmart : CMerkleTx → UInt32
  writeToDisk : CMerkleTx → Bool

namespace CWallet

variable (wallet : CWallet)

/-- Change a transaction of the wallet in place. -/
def put (h : UInt256) (wtx : CWalletTx) : CWallet :=
  { wallet with mapWallet := wallet.mapWallet.insert h wtx }

/-! ## Whose a transaction is -/

/-- The output of a transaction of the wallet, if it is the wallet's. -/
def ownOutput (h : UInt256) (n : ℕ) : Option CTxOut :=
  (wallet.mapWallet[h]?.bind fun prev => prev.vout[n]?).filter wallet.isMine

/-- `GetDebit` of an input. -/
def getDebitOf (txin : CTxIn) : Int64 :=
  ((wallet.ownOutput txin.prevout.hash txin.prevout.n.toNat).map CTxOut.nValue).getD 0

/-- The loop of `GetDebit`. -/
def getDebitLoop (nDebit : Int64) : List CTxIn → Except Fault Int64
  | [] => .ok nDebit
  | txin :: vin =>
    let nDebit := nDebit + wallet.getDebitOf txin
    if !moneyRange nDebit then .error .runtimeError else getDebitLoop nDebit vin

/-- `GetDebit` of a transaction. -/
def getDebit (tx : CTransaction) : Except Fault Int64 := wallet.getDebitLoop 0 tx.vin

def isFromMe (tx : CTransaction) : Except Fault Bool :=
  (wallet.getDebit tx).map fun nDebit => decide (nDebit > 0)

/-- `IsMine` of a transaction. -/
def isMineTx (tx : CTransaction) : Bool := tx.vout.any wallet.isMine

/-! ## A transaction that is disconnected -/

/-- A round of the loop of `DisableTransaction`. -/
def refundInput (wallet : CWallet) (txin : CTxIn) : Except Fault CWallet :=
  match wallet.mapWallet[txin.prevout.hash]? with
  | none => .ok wallet
  | some prev =>
    match prev.vout[txin.prevout.n.toNat]? with
    | none => .ok wallet
    | some txout =>
      if wallet.isMine txout then
        (prev.markUnspent txin.prevout.n.toNat).map (wallet.put txin.prevout.hash)
      else .ok wallet

/-- `DisableTransaction`: only a coin stake of the wallet requires inputs to be marked as unspent. -/
def disableTransaction (tx : CTransaction) : Except Fault CWallet :=
  if !tx.isCoinStake then .ok wallet
  else (wallet.isFromMe tx).bind fun fFromMe =>
    if !fFromMe then .ok wallet else tx.vin.foldlM refundInput wallet

/-! ## A transaction that is connected -/

/-- The loop of `CWallet::GetCredit`. -/
def getCreditLoop (env : Surroundings) (nCredit : Int64) : List CTxOut → Except Fault Int64
  | [] => .ok nCredit
  | txout :: vout => (env.getCredit txout).bind fun nValue =>
    let nCredit := nCredit + nValue
    if !moneyRange nCredit then .error .runtimeError else getCreditLoop env nCredit vout

/-- `CWalletTx::GetCredit`: the transaction with what it caches. -/
def getCredit (wtx : CWalletTx) : Except Fault CWalletTx :=
  let env : Surroundings := ⟨wallet.isMine, wallet.blocksToMaturity wtx.toCMerkleTx⟩
  if (wtx.isCoinBase || wtx.isCoinStake) && decide (env.blocksToMaturity > 0) then .ok wtx
  else if wtx.fCreditCached then .ok wtx
  else (getCreditLoop env 0 wtx.vout).map fun nCredit =>
    { wtx with nCreditCached := nCredit, fCreditCached := true }

/-- A round of the loop of `WalletUpdateSpent`. -/
def spendInput (wallet : CWallet) (txin : CTxIn) : Except Fault CWallet :=
  match wallet.mapWallet[txin.prevout.hash]? with
  | none => .ok wallet
  | some wtx =>
    match wtx.vout[txin.prevout.n.toNat]? with
    | none => .ok wallet
    | some txout => (wtx.isSpent txin.prevout.n.toNat).bind fun fSpent =>
      if !fSpent && wallet.isMine txout then
        -- the credit is printed
        (wallet.getCredit wtx).bind fun wtx =>
          (wtx.markSpent txin.prevout.n.toNat).map (wallet.put txin.prevout.hash)
      else .ok wallet

/-- `WalletUpdateSpent`, for the inputs of a transaction. -/
def walletUpdateSpent (vin : List CTxIn) : Except Fault CWallet := vin.foldlM spendInput wallet

/-- `SetMerkleBranch`: a transaction with its place in a block. -/
def setMerkleBranch (hash hash9 : Bytes → UInt256) (tx : CTransaction) (block : CBlock) :
    Except Fault CMerkleTx :=
  match block.vtx.findIdx? (· = tx) with
  | none => .ok { tx with hashBlock := block.getHash hash9, vMerkleBranch := [], nIndex := -1 }
  | some nIndex => (block.getMerkleBranch hash [] nIndex).map fun vMerkleBranch =>
    { tx with hashBlock := block.getHash hash9, vMerkleBranch, nIndex := Int32.ofNat nIndex }

/-- The first steps of a merge in `AddToWallet`: the place that a transaction has taken. -/
def mergePlace (wtx wtxIn : CMerkleTx) : CMerkleTx :=
  let wtx := if wtxIn.hashBlock ≠ 0 ∧ wtxIn.hashBlock ≠ wtx.hashBlock then
    { wtx with hashBlock := wtxIn.hashBlock } else wtx
  if wtxIn.nIndex ≠ -1 ∧ (wtxIn.vMerkleBranch ≠ wtx.vMerkleBranch ∨ wtxIn.nIndex ≠ wtx.nIndex) then
    { wtx with vMerkleBranch := wtxIn.vMerkleBranch, nIndex := wtxIn.nIndex }
  else wtx

/-- A merge in `AddToWallet`, and whether it changes anything. -/
def merge (wtx wtxIn : CWalletTx) : CWalletTx × Bool :=
  let place := mergePlace wtx.toCMerkleTx wtxIn.toCMerkleTx
  let fFromMe := if wtxIn.fFromMe ≠ 0 ∧ wtxIn.fFromMe ≠ wtx.fFromMe then wtxIn.fFromMe
    else wtx.fFromMe
  let r := { wtx with toCMerkleTx := place, fFromMe }.updateSpent wtxIn.vfSpent
  (r.2, decide (place ≠ wtx.toCMerkleTx) || decide (fFromMe ≠ wtx.fFromMe) || r.1)

/-- `AddToWallet`; what it returns is not looked at. -/
def addToWallet (hash : Bytes → UInt256) (wtxIn : CWalletTx) : Except Fault CWallet :=
  let h := wtxIn.getHash hash
  match wallet.mapWallet[h]? with
  | none =>
    let wtx := { wtxIn with
      nTimeReceived := wallet.adjustedTime wtxIn.toCMerkleTx
      nOrderPos := wallet.nOrderPosNext
      nTimeSmart := wallet.timeSmart wtxIn.toCMerkleTx }
    let wallet := { wallet.put h wtx with nOrderPosNext := wallet.nOrderPosNext + 1 }
    if !wallet.writeToDisk wtx.toCMerkleTx then .ok wallet else wallet.walletUpdateSpent wtx.vin
  | some wtx =>
    let (wtx, fUpdated) := merge wtx wtxIn
    let wallet := wallet.put h wtx
    if fUpdated && !wallet.writeToDisk wtx.toCMerkleTx then .ok wallet
    else wallet.walletUpdateSpent wtx.vin

/-- `AddToWalletIfInvolvingMe`, of a transaction in a block and with `fUpdate`. -/
def addToWalletIfInvolvingMe (hash hash9 : Bytes → UInt256) (tx : CTransaction) (block : CBlock) :
    Except Fault CWallet :=
  let add := (setMerkleBranch hash hash9 tx block).bind fun place =>
    wallet.addToWallet hash { toCMerkleTx := place }
  if tx.getHash hash ∈ wallet.mapWallet then add
  else if wallet.isMineTx tx then add
  else (wallet.isFromMe tx).bind fun fFromMe =>
    if fFromMe then add else wallet.walletUpdateSpent tx.vin

/-! ## `SyncWithWallets` -/

/-- What `SyncWithWallets` tells a wallet of a transaction of a block that is disconnected. -/
def syncDisconnected (wallet : CWallet) (tx : CTransaction) : Except Fault CWallet :=
  if tx.isCoinStake then
    (wallet.isFromMe tx).bind fun fFromMe =>
      if fFromMe then wallet.disableTransaction tx else .ok wallet
  else .ok wallet

/-- What `SyncWithWallets` tells a wallet of a transaction of a block. -/
def sync (hash hash9 : Bytes → UInt256) (block : CBlock) (fConnect : Bool) (wallet : CWallet)
    (tx : CTransaction) : Except Fault CWallet :=
  if !fConnect then wallet.syncDisconnected tx
  else wallet.addToWalletIfInvolvingMe hash hash9 tx block

end CWallet

def syncWithWallets (hash hash9 : Bytes → UInt256) (block : CBlock) (fConnect : Bool)
    (setpwalletRegistered : List CWallet) (tx : CTransaction) : Except Fault (List CWallet) :=
  setpwalletRegistered.mapM fun wallet => wallet.sync hash hash9 block fConnect tx

/-- The loops at the ends of `ConnectBlock` and `DisconnectBlock`. -/
def syncBlock (hash hash9 : Bytes → UInt256) (fConnect : Bool) (wallets : List CWallet)
    (block : CBlock) : Except Fault (List CWallet) :=
  block.vtx.foldlM (syncWithWallets hash hash9 block fConnect) wallets

end HyperStake.WalletTx
