import HyperStake.Wallet.CoinSelection
import HyperStake.Voting.Proposal

/-!
# Sending a proposal

The RPC `createproposal` makes a proposal from its arguments, puts it into a transaction without
inputs, and keeps that under its hash.  The RPC `sendproposal` later adds inputs for the fee and an
output for the change to such a transaction, signs it and commits it; `CWallet::SendProposal` does
the same with a proposal.  The two share the part that chooses the coins and computes the change
(`fundTransaction`) and the loop that signs the inputs (`signInputs`).

What the wallet takes from the rest of the node is left open: the transactions that `GetTransaction`
finds, the signatures, and whether a transaction can be committed.
-/

namespace HyperStake

/-! ## Creating a proposal -/

/-- The version of a new proposal. -/
def MOST_RECENT_VERSION : Int32 := 1

/-- The arguments of `createproposal`. -/
structure ProposalParams where
  strName : Bytes
  nShift : ℤ
  nStartBlock : ℤ
  nCheckSpan : ℤ
  nBits : ℤ
  strDescription : Bytes
  deriving DecidableEq

/-- `get_int`: a number of the request is narrowed to an `int`. -/
def getInt (n : ℤ) : Int32 := Int32.ofInt n

/-- The proposal that `createproposal` makes.  The shift and the number of bits are narrowed to a
`uint8_t`, and so is the position of the most significant bit. -/
def ProposalParams.proposal (params : ProposalParams) : CVoteProposal :=
  let nShift : UInt8 := (getInt params.nShift).toUInt32.toUInt8
  let nStartTime : Int64 := (getInt params.nStartBlock).toInt64
  let nCheckSpan : Int32 := getInt params.nCheckSpan
  let nBits : UInt8 := (getInt params.nBits).toUInt32.toUInt8
  { nVersion := MOST_RECENT_VERSION
    strName := params.strName
    nStartHeight := nStartTime.toUInt64.toUInt32
    nCheckSpan := nCheckSpan.toUInt32
    bitLocation := { nMostSignificantBit := nShift + nBits - 1, nLeastSignificantBit := nShift }
    strDescription := params.strDescription }

/-- The transaction that `createproposal` makes.  It is kept whether or not the construction
succeeds. -/
def ProposalParams.transaction (params : ProposalParams) (nTime : UInt32) : CTransaction :=
  (params.proposal.constructTransaction { nTime }).2

/-- `mapPendingProposals`. -/
abbrev PendingProposals := Std.ExtTreeMap UInt256 CTransaction

/-- `createproposal`: the hash of the proposal's transaction, and the pending proposals.  The other
results repeat the arguments. -/
def createproposal (hash : Bytes → UInt256) (params : ProposalParams) (nTime : UInt32)
    (mapPendingProposals : PendingProposals) : UInt256 × PendingProposals :=
  let tx := params.transaction nTime
  let hashProposal := tx.getHash hash
  (hashProposal, mapPendingProposals.insertIfNew hashProposal tx)

/-! ## Sending it -/

/-- The part of `CWallet` that spends coins, with the functions of the node that it calls. -/
structure SpendingWallet extends WalletCoins where
  isLocked : Bool
  choices : Choices
  getTransaction : UInt256 → Option CTransaction
  /-- `SignSignature`: the signature of an input of a transaction, which claims an output of another
  one, or none if it fails. -/
  signSignature : CTransaction → CTransaction → ℕ → Option CScript
  commitTransaction : CTransaction → Bool

/-- Why a transaction is not sent. -/
inductive SendFailure where
  | insufficientFunds
  | noPreviousTransaction
  | notSigned
  | notCommitted
  | fault (e : Fault)
  deriving DecidableEq

/-- A fault ends the sending. -/
def SendFailure.lift {α : Type} : Except Fault α → Except SendFailure α
  | .ok a => .ok a
  | .error e => .error (.fault e)

namespace SpendingWallet

variable (wallet : SpendingWallet)

/-- The output for the change, to the address of the first input, if the change is worth one. -/
def changeOutput (nChange : Int64) (vin : List CTxIn) : Except SendFailure (List CTxOut) :=
  if nChange > 500 then
    match vin with
    | [] => .error (.fault .undefined)
    | txin :: _ =>
      match wallet.getTransaction txin.prevout.hash with
      | none => .error .noPreviousTransaction
      | some txPrev =>
        match txPrev.vout[txin.prevout.n.toNat]? with
        | none => .error (.fault .undefined)
        | some txout => .ok [{ nValue := nChange, scriptPubKey := txout.scriptPubKey }]
  else .ok []

/-- Add inputs that cover the fee, the minimum value to the first output, and an output for the
change.  Returns the transaction and the coins of its inputs. -/
def fundTransaction (tx : CTransaction) : Except SendFailure (CTransaction × List Coin) := do
  let vCoins ← SendFailure.lift (wallet.availableCoins true)
  let selected ← SendFailure.lift
    (selectCoinsMinConf wallet.toWalletCoins wallet.choices CVoteProposal.FEE tx.nTime 1 6 vCoins)
  match selected with
  | none => .error .insufficientFunds
  | some (setCoins, nValueIn) =>
    let coins := wallet.choices.order setCoins
    let vin := tx.vin ++ coins.map fun coin => { prevout := { hash := coin.1, n := coin.2 } }
    match tx.vout with
    | [] => .error (.fault .undefined)
    | txout :: vout =>
      let txout := { txout with nValue := MIN_TXOUT_AMOUNT }
      let nFee := CVoteProposal.FEE - txout.nValue
      let nChange := nValueIn - nFee - MIN_TXOUT_AMOUNT
      let change ← wallet.changeOutput nChange vin
      return ({ tx with vin, vout := txout :: vout ++ change }, coins)

/-- The loop that signs the inputs, for the coins that are left. -/
def signInputs : List Coin → ℕ → CTransaction → Except SendFailure CTransaction
  | [], _, tx => .ok tx
  | coin :: coins, nIn, tx =>
    match wallet.mapWallet[coin.1]? with
    | none => .error (.fault .undefined)
    | some pcoin =>
      match wallet.signSignature pcoin.tx tx nIn with
      | none => .error .notSigned
      | some scriptSig =>
        signInputs coins (nIn + 1)
          { tx with vin := tx.vin.modify nIn fun txin => { txin with scriptSig } }

/-- Fund, sign and commit a transaction.  Returns the committed transaction. -/
def sendTransaction (tx : CTransaction) : Except SendFailure CTransaction := do
  let (tx, coins) ← wallet.fundTransaction tx
  let tx ← wallet.signInputs coins 0 tx
  if wallet.commitTransaction tx then return tx
  .error .notCommitted

/-- `CWallet::SendProposal`, at a time: the committed transaction, or none if it returns false. -/
def sendProposal (proposal : CVoteProposal) (nTime : UInt32) :
    Except Fault (Option CTransaction) :=
  match proposal.constructTransaction { nTime } with
  | (false, _) => .ok none
  | (true, tx) =>
    match wallet.sendTransaction tx with
    | .ok tx => .ok (some tx)
    | .error (.fault e) => .error e
    | .error _ => .ok none

end SpendingWallet

/-- The code of a `JSONRPCError`. -/
inductive RPCErrorCode where
  | RPC_WALLET_UNLOCK_NEEDED
  | RPC_INVALID_PARAMETER
  | RPC_WALLET_INSUFFICIENT_FUNDS
  | RPC_WALLET_ERROR
  deriving DecidableEq

/-- How an RPC ends without its result. -/
inductive RPCExit where
  | jsonRPCError (code : RPCErrorCode) (message : String)
  | returnFalse
  | fault (e : Fault)
  deriving DecidableEq

/-- How `sendproposal` ends if the transaction is not sent. -/
def SendFailure.rpcExit : SendFailure → RPCExit
  | insufficientFunds => .jsonRPCError .RPC_WALLET_INSUFFICIENT_FUNDS "Insufficient funds"
  | noPreviousTransaction => .jsonRPCError .RPC_INVALID_PARAMETER "Failed to select coins"
  | notSigned => .returnFalse
  | notCommitted => .jsonRPCError .RPC_WALLET_ERROR "Failed to commit transaction"
  | fault e => .fault e

/-- The RPC `sendproposal`: the committed transaction, of which the RPC shows the hash. -/
def sendproposal (wallet : SpendingWallet) (mapPendingProposals : PendingProposals)
    (hashProposal : UInt256) : Except RPCExit CTransaction :=
  if wallet.isLocked then
    .error (.jsonRPCError .RPC_WALLET_UNLOCK_NEEDED
      "Error: Unlock wallet to use this feature")
  else
    match mapPendingProposals[hashProposal]? with
    | none => .error (.jsonRPCError .RPC_INVALID_PARAMETER "Cannot find proposal")
    | some tx =>
      match wallet.sendTransaction tx with
      | .ok tx => .ok tx
      | .error failure => .error failure.rpcExit

end HyperStake
