import HyperStake.Chain.TxDB
import HyperStake.Library.RetryLoop
import HyperStake.Script.Standard
import HyperStake.Wallet.SendProposal

/-!
# Creating a transaction

`CreateTransaction` pays a list of payees from the coins of the wallet.  It chooses coins for the
payments and a fee, puts the change back into the transaction or moves it to the fee, signs the
inputs, and tries again with a higher fee if the transaction turns out to be too large for the one
it has.

The priority of the transaction is left out, since nothing reads it, and so are the supporting
transactions that are stored with it at the end.
-/

namespace HyperStake

open RetryLoop

structure CCoinControl where
  destChange : CTxDestination := .CNoDestination
  fReturnChange : Bool := false
  setSelected : List COutPoint := []

namespace CCoinControl

def hasSelected (coinControl : CCoinControl) : Bool := !coinControl.setSelected.isEmpty

def isSelected (coinControl : CCoinControl) (hash : UInt256) (n : UInt32) : Bool :=
  decide ({ hash, n } ∈ coinControl.setSelected)

end CCoinControl

/-- The part of `CWallet` that creates transactions.  The draws of a round of the fee loop are open:
those of each call of `SelectCoinsMinConf`, the position of the change, and the reserved key. -/
structure CreatingWallet extends SpendingWallet where
  crypto : Crypto
  fSplitBlock : Bool
  nTransactionFee : Int64
  /-- The draws of a call of `SelectCoinsMinConf` in a round. -/
  draws : ℕ → ℕ → Choices
  /-- `GetRandInt` in a round. -/
  getRandInt : ℕ → ℕ → ℕ
  getRandInt_lt : ∀ round nMax, 0 < nMax → nMax < 2 ^ 31 → getRandInt round nMax < nMax
  /-- `GetReservedKey().GetID()` in a round. -/
  getReservedKey : ℕ → BitVec 160

namespace CreatingWallet

variable (wallet : CreatingWallet)

/-! ## Choosing coins -/

/-- `AvailableCoins` with coin control: the test of its loop for the selected outputs is made on the
outputs that pass the others. -/
def availableCoinsFor (fOnlyConfirmed : Bool) (coinControl : Option CCoinControl) :
    Except Fault (List COutput) := do
  let vCoins ← wallet.availableCoins fOnlyConfirmed
  return vCoins.filter fun output =>
    match coinControl with
    | none => true
    | some coinControl =>
      !coinControl.hasSelected || coinControl.isSelected output.tx output.i.toUInt32

/-- The loop of `SelectCoins` that takes all of the coins that are left. -/
def takeSelected : List COutput → List Coin → Int64 → Except Fault (List Coin × Int64)
  | [], setCoinsRet, nValueRet => .ok (setCoinsRet, nValueRet)
  | out :: vCoins, setCoinsRet, nValueRet =>
    match wallet.mapWallet[out.tx]? with
    | none => .error .undefined
    | some pcoin =>
      match pcoin.tx.vout[out.i.toUInt32.toNat]? with
      | none => .error .undefined
      | some txout =>
        takeSelected vCoins (insertCoin setCoinsRet (out.tx, out.i.toUInt32))
          (nValueRet + txout.nValue)

/-- The calls of `SelectCoinsMinConf` in `SelectCoins`, with less and less confirmations, until one of
them returns true. -/
def selectCoinsLoop (choices : ℕ → Choices) (nTargetValue : Int64) (nSpendTime : UInt32)
    (vCoins : List COutput) :
    List (Int32 × Int32) → ℕ → Except Fault (Option (List Coin × Int64))
  | [], _ => .ok none
  | (nConfMine, nConfTheirs) :: confs, call => do
    match ← selectCoinsMinConf wallet.toWalletCoins (choices call) nTargetValue nSpendTime nConfMine
        nConfTheirs vCoins with
    | some selected => return some selected
    | none => selectCoinsLoop choices nTargetValue nSpendTime vCoins confs (call + 1)

/-- `SelectCoins`: the selected coins and their value, or none if it returns false. -/
def selectCoins (choices : ℕ → Choices) (nTargetValue : Int64) (nSpendTime : UInt32)
    (coinControl : Option CCoinControl) : Except Fault (Option (List Coin × Int64)) := do
  let vCoins ← wallet.availableCoinsFor true coinControl
  -- coin control: return all selected outputs
  if coinControl.any CCoinControl.hasSelected then
    let (setCoinsRet, nValueRet) ← wallet.takeSelected vCoins [] 0
    return if nValueRet ≥ nTargetValue then some (setCoinsRet, nValueRet) else none
  else
    wallet.selectCoinsLoop choices nTargetValue nSpendTime vCoins [(1, 6), (1, 1), (0, 1)] 0

/-! ## The outputs -/

/-- The sum of the payments, or none if `CreateTransaction` returns false for it. -/
def sumPayees : List (CScript × Int64) → Int64 → Option Int64
  | [], nValue => if nValue < 0 then none else some nValue
  | s :: vecSend, nValue => if nValue < 0 then none else sumPayees vecSend (nValue + s.2)

/-- The outputs to a payee. -/
def payeeOutputs (nSplitBlock : Int32) (s : CScript × Int64) : List CTxOut :=
  if !wallet.fSplitBlock then [{ nValue := s.2, scriptPubKey := s.1 }]
  else
    (List.range nSplitBlock.toInt.toNat).map fun nCount =>
      if nCount + 1 = nSplitBlock.toInt.toNat then
        let nRemainder : UInt64 := (s.2 % nSplitBlock.toInt64).toUInt64
        { nValue := ((s.2 / nSplitBlock.toInt64).toUInt64 + nRemainder).toInt64
          scriptPubKey := s.1 }
      else { nValue := s.2 / nSplitBlock.toInt64, scriptPubKey := s.1 }

/-- The loop over the selected coins that finds the address for the change, the last one that there
is. -/
def utxoAddress : List Coin → CTxDestination → Except Fault CTxDestination
  | [], address => .ok address
  | coin :: coins, address =>
    match wallet.output coin with
    | none => .error .undefined
    | some txout =>
      utxoAddress coins ((txout.scriptPubKey.extractDestination wallet.crypto).getD address)

/-- The change and the fee after small change is moved to the fee. -/
def moveToFee (nChange nFeeRet : Int64) : Int64 × Int64 :=
  -- if sub-cent change is required, the fee must be raised to at least MIN_TX_FEE
  let (nChange, nFeeRet) :=
    if nFeeRet < MIN_TX_FEE ∧ nChange > 0 ∧ nChange < CENT then
      let nMoveToFee := min nChange (MIN_TX_FEE - nFeeRet)
      (nChange - nMoveToFee, nFeeRet + nMoveToFee)
    else (nChange, nFeeRet)
  -- sub-cent change is moved to fee
  if nChange > 0 ∧ nChange < MIN_TXOUT_AMOUNT then (0, nFeeRet + nChange) else (nChange, nFeeRet)

/-- The script of the change. -/
def scriptChange (round : ℕ) (coinControl : Option CCoinControl) (address : CTxDestination) :
    CScript :=
  match coinControl with
  | none => CScript.setDestination (.CKeyID (wallet.getReservedKey round))
  | some coinControl =>
    if coinControl.fReturnChange then CScript.setDestination address
    else if coinControl.destChange ≠ .CNoDestination then
      CScript.setDestination coinControl.destChange
    else CScript.setDestination (.CKeyID (wallet.getReservedKey round))

/-- Insert the change at a random position, if there is some. -/
def insertChange (round : ℕ) (vout : List CTxOut) (nChange : Int64) (scriptPubKey : CScript) :
    Except Fault (List CTxOut) :=
  if nChange > 0 then
    let position := wallet.getRandInt round vout.length
    if position ≤ vout.length then
      .ok (vout.insertIdx position { nValue := nChange, scriptPubKey })
    else .error .undefined
  else .ok vout

/-! ## The fee loop -/

/-- The fee that the wallet wants for a size. -/
def payFee (nBytes : UInt32) : Int64 :=
  wallet.nTransactionFee * (1 + nBytes.toUInt64.toInt64 / 1000)

/-- What `CreateTransaction` leaves: the transaction, or none if it returns false, and the fee. -/
structure Created where
  wtxNew : Option CTransaction
  nFeeRet : Int64
  deriving DecidableEq

/-- The end of a round: sign the inputs, and check the size and the fee. -/
def signAndCheck (coins : List Coin) (wtxNew : CTransaction) (nFeeRet : Int64) :
    Except Fault (Round Int64 Created) :=
  match wallet.signInputs coins 0 wtxNew with
  | .error (.fault e) => .error e
  | .error _ => .ok (.done { wtxNew := none, nFeeRet })
  | .ok wtxNew =>
    -- limit size
    let nBytes := UInt32.ofNat wtxNew.serialize.length
    if nBytes ≥ MAX_BLOCK_SIZE_GEN / 5 then .ok (.done { wtxNew := none, nFeeRet })
    else
      -- check that enough fee is included
      let nNeeded := max (wallet.payFee nBytes) (wtxNew.getMinFee 1 false nBytes)
      if nFeeRet < nNeeded then .ok (.again nNeeded)
      else .ok (.done { wtxNew := some wtxNew, nFeeRet })

/-- A round of the fee loop. -/
def feeRound (vecSend : List (CScript × Int64)) (wtxNew : CTransaction) (nSplitBlock : Int32)
    (coinControl : Option CCoinControl) (nValue : Int64) (round : ℕ) (nFeeRet : Int64) :
    Except Fault (Round Int64 Created) := do
  let nTotalValue := nValue + nFeeRet
  let vout := vecSend.flatMap (wallet.payeeOutputs nSplitBlock)
  match ← wallet.selectCoins (wallet.draws round) nTotalValue wtxNew.nTime coinControl with
  | none => return .done { wtxNew := none, nFeeRet }
  | some (setCoins, nValueIn) =>
    let coins := wallet.choices.order setCoins
    let address ← wallet.utxoAddress coins .CNoDestination
    let (nChange, nFeeRet) := moveToFee (nValueIn - nValue - nFeeRet) nFeeRet
    let vout ←
      wallet.insertChange round vout nChange (wallet.scriptChange round coinControl address)
    let vin := coins.map fun coin => { prevout := { hash := coin.1, n := coin.2 } }
    wallet.signAndCheck coins { wtxNew with vin, vout } nFeeRet

/-- `CreateTransaction`, with a number of rounds that the fee loop may take: what it leaves, or none
if the loop takes more. -/
def createTransaction (vecSend : List (CScript × Int64)) (wtxNew : CTransaction) (nFeeRet : Int64)
    (nSplitBlock : Int32) (coinControl : Option CCoinControl) (rounds : ℕ) :
    Option (Except Fault Created) :=
  match sumPayees vecSend 0 with
  | none => some (.ok { wtxNew := none, nFeeRet })
  | some nValue =>
    if vecSend = [] then some (.ok { wtxNew := none, nFeeRet })
    else
      let nFeeRet := if wallet.fSplitBlock then COIN / 1000 else wallet.nTransactionFee
      let nSplitBlock := if nSplitBlock < 1 then 1 else nSplitBlock
      retry (wallet.feeRound vecSend wtxNew nSplitBlock coinControl nValue) rounds 0 nFeeRet

end CreatingWallet

end HyperStake
