import HyperStake.Chain.TargetRequired
import HyperStake.Library.RetryLoop
import HyperStake.Script.Standard
import HyperStake.Wallet.Selection
import HyperStake.Wallet.SendProposal

/-!
# Creating a coin stake

`CreateCoinStake` looks through the stake coins of the wallet for one whose kernel meets the target.
It claims that coin, and with the setting for it small coins of the same address, adds the reward for
their age, and divides the sum over the outputs: MultiSend pays percentages of the reward to other
addresses, and a large stake is split in two.  Like any transaction it is then signed, and made again
with a higher fee if it has to pay one.

What is kept for display, the number of mintable outputs and the weight of the stake, is left out.
-/

namespace HyperStake

open RetryLoop

/-- `nStakeMinAgeV2`: the age of the coins that are considered. -/
def nStakeMinAgeV2 : UInt32 := 60 * 60 * 24 * 88 / 10

/-- What `CreateCoinStake` asks of the rest of the node. -/
structure StakingNode extends KernelNode where
  crypto : Crypto
  hash : Bytes → UInt256
  hash9 : Bytes → UInt256
  tree : BlockTree
  pindexBest : UInt256
  /-- `GetTime`. -/
  nTime : Int64
  /-- The flag `fShutdown` after a coin has been tried. -/
  fShutdown : Coin → Bool

/-- The age in seconds above which an output is selected. -/
def StakingNode.nStakeAge (node : StakingNode) : Int64 :=
  timeOf (if node.env.fTestNet then node.env.nStakeMinAge else nStakeMinAgeV2)

/-- The value above which coins are not combined; a null pointer is read if there is no block. -/
def StakingNode.nCombineThreshold (node : StakingNode) : Except Fault Int64 :=
  match getLastBlockIndex false (node.tree.past node.pindexBest) with
  | [] => .error .undefined
  | [_] => .ok 0
  | pIndex0 :: _ :: _ =>
    .ok (getProofOfWorkReward node.env.fTestNet pIndex0.nHeight MIN_TX_FEE / 3)

/-- The part of `CWallet` that stakes, with its settings. -/
structure StakingWallet extends SpendingWallet where
  /-- `GetBalance`. -/
  nBalance : Int64
  /-- `GetTxTime` of a transaction of the wallet. -/
  getTxTime : UInt256 → Int64
  /-- The argument `-stakeaddress`, if it is a valid address. -/
  addressStake : Option CTxDestination
  /-- The argument `-reservebalance`, which is zero if it is not given, or none if it is invalid. -/
  nReserveBalance : Option Int64
  fDisableStake : Bool
  fCombineDust : Bool
  nStakeSplitThreshold : UInt64
  nHashDrift : UInt32
  nStakeSetUpdateTime : Int32
  fMultiSend : Bool
  fMultiSendCoinStake : Bool
  /-- The MultiSend entries: what `CBitcoinAddress::Get` gives for an address, and a percentage. -/
  vMultiSend : List (CTxDestination × Int32)

namespace StakingWallet

variable (wallet : StakingWallet) (node : StakingNode)

/-! ## The stake coins -/

/-- The test of `SelectStakeCoins` for the script of an output. -/
def stakesFrom (scriptPubKey : CScript) : Bool :=
  match wallet.addressStake with
  | none => true
  | some addressStake =>
    decide (scriptPubKey.extractDestination node.crypto = some addressStake)

/-- The loop of `SelectStakeCoins` over the coins that are left. -/
def selectStakeLoop (nTargetAmount : Int64) :
    List COutput → List Coin → Int64 → Except Fault (List Coin)
  | [], setCoins, _ => .ok setCoins
  | out :: vCoins, setCoins, nAmountSelected =>
    match wallet.output out.coin with
    | none => .error .undefined
    | some txout =>
      if wallet.stakesFrom node txout.scriptPubKey ∧
          nAmountSelected + txout.nValue < nTargetAmount ∧
          node.nTime - wallet.getTxTime out.tx > node.nStakeAge then
        selectStakeLoop nTargetAmount vCoins (insertCoin setCoins out.coin)
          (nAmountSelected + txout.nValue)
      else selectStakeLoop nTargetAmount vCoins setCoins nAmountSelected

/-- `SelectStakeCoins`, in the order of the set. -/
def selectStakeCoins (nTargetAmount : Int64) : Except Fault (List Coin) := do
  let vCoins ← wallet.availableCoins true
  let setCoins ← wallet.selectStakeLoop node nTargetAmount vCoins [] 0
  return wallet.choices.order setCoins

lemma mem_of_selectStakeLoop {nTargetAmount nAmountSelected : Int64} {vCoins : List COutput}
    {setCoins setCoins' : List Coin}
    (h : wallet.selectStakeLoop node nTargetAmount vCoins setCoins nAmountSelected = .ok setCoins')
    {coin : Coin} (hcoin : coin ∈ setCoins') :
    coin ∈ setCoins ∨ ∃ out ∈ vCoins, out.coin = coin := by
  induction vCoins generalizing setCoins nAmountSelected with
  | nil =>
    rw [selectStakeLoop] at h
    cases h
    exact Or.inl hcoin
  | cons out vCoins ih =>
    rw [selectStakeLoop] at h
    match hout : wallet.output out.coin with
    | none =>
      rw [hout] at h
      cases h
    | some txout =>
      rw [hout] at h
      dsimp only at h
      split_ifs at h with htest
      · obtain hmem | ⟨out', hmem, heq⟩ := ih h
        · rw [insertCoin] at hmem
          split_ifs at hmem with hold
          · exact Or.inl hmem
          · obtain hmem | hmem := List.mem_append.mp hmem
            · exact Or.inl hmem
            · exact Or.inr ⟨out, List.mem_cons_self, (List.mem_singleton.mp hmem).symm⟩
        · exact Or.inr ⟨out', List.mem_cons_of_mem _ hmem, heq⟩
      · obtain hmem | ⟨out', hmem, heq⟩ := ih h
        · exact Or.inl hmem
        · exact Or.inr ⟨out', List.mem_cons_of_mem _ hmem, heq⟩

/-- The position of a selected output is one that the loop of `AvailableCoins` counts. -/
lemma ne_max_of_selectStakeCoins {nTargetAmount : Int64} {setStakeCoins : List Coin}
    (h : wallet.selectStakeCoins node nTargetAmount = .ok setStakeCoins) :
    ∀ coin ∈ setStakeCoins, coin.2 ≠ 0xffffffff := by
  rw [selectStakeCoins] at h
  obtain ⟨vCoins, havailable, h⟩ := ExceptLoop.bind_eq_ok.mp h
  obtain ⟨setCoins, hloop, h⟩ := ExceptLoop.bind_eq_ok.mp h
  cases h
  intro coin hcoin
  have hmem := (wallet.choices.order_perm setCoins).mem_iff.mp hcoin
  obtain hnil | ⟨out, hout, rfl⟩ := wallet.mem_of_selectStakeLoop node hloop hmem
  · cases hnil
  · obtain ⟨nValue, txout, -, -, -, hmax⟩ :=
      (WalletCoins.offers_availableCoins havailable).holds out hout
    exact hmax

end StakingWallet

/-- The static variables of `CreateCoinStake`: the stake coins, which are outputs at positions that
an `unsigned int` counts, and the time of their last update. -/
structure StakeCoins where
  setStakeCoins : List Coin := []
  nLastStakeSetUpdate : Int64 := 0
  ne_max : ∀ coin ∈ setStakeCoins, coin.2 ≠ 0xffffffff

namespace StakingWallet

variable (wallet : StakingWallet) (node : StakingNode)

/-- The update of the stake coins, if the last one is some time ago. -/
def updateStakeCoins (nTargetAmount : Int64) (s : StakeCoins) : Except Fault StakeCoins :=
  if node.nTime - s.nLastStakeSetUpdate > wallet.nStakeSetUpdateTime.toInt64 then
    match h : wallet.selectStakeCoins node nTargetAmount with
    | .error e => .error e
    | .ok setStakeCoins =>
      .ok { setStakeCoins, nLastStakeSetUpdate := node.nTime
            ne_max := wallet.ne_max_of_selectStakeCoins node h }
  else .ok s

/-! ## The inputs -/

/-- The local variables of `CreateCoinStake`: the transaction, its kernel, its value, and the coins
that it claims. -/
structure StakeState where
  txNew : CTransaction
  scriptPubKeyKernel : CScript
  nCredit : Int64
  vwtxPrev : List Coin

/-- The search for a coin whose kernel meets the target at some time: the coin and the time. -/
def findKernel (nBits nTime : UInt32) : List Coin → Except Fault (Option (Coin × UInt32))
  | [] => .ok none
  | coin :: coins =>
    let next : Except Fault (Option (Coin × UInt32)) := findKernel nBits nTime coins
    match wallet.mapWallet[coin.1]?, node.db[coin.1]? with
    | none, _ => .error .undefined
    | some _, none => next
    | some pcoin, some txindex =>
      match node.readHeader txindex.pos.nFile txindex.pos.nBlockPos with
      | none => next
      | some block => do
        let (foundKernel, r) ← checkStakeKernelHash node.hash node.hash9 node.env node.tree nBits
          block (txindex.pos.nTxPos - txindex.pos.nBlockPos) pcoin.tx
          { hash := coin.1, n := coin.2 } wallet.nHashDrift false { nTimeTx := nTime }
        if foundKernel then return some (coin, r.nTimeTx)
        else if node.fShutdown coin then return none
        else next

/-- The script to which the stake is paid: that of the kernel, with the public key for its hash; none
if the kernel is of another kind or its key is not there. -/
def scriptPubKeyOut (keystore : CKeyStore node.crypto) (scriptPubKeyKernel : CScript) :
    Option CScript :=
  match scriptPubKeyKernel.solver with
  | some (.TX_PUBKEYHASH, vSolutions) =>
    (keystore.getKey (uint160 (vSolutions.headD []))).map fun key =>
      CScript.pushOpcode (CScript.pushData [] key.getPubKey) OP_CHECKSIG
  | some (.TX_PUBKEY, _) => some scriptPubKeyKernel
  | _ => none

/-- MultiSend pays in the coin stake. -/
def multiSends : Bool := wallet.fMultiSend && wallet.fMultiSendCoinStake

/-- The outputs after the first one of the stake, whose values are set later: those of MultiSend, or
another one if the stake is split. -/
def otherOutputs (scriptPubKeyOut : CScript) (nTotalSize : UInt64) : List CTxOut :=
  if wallet.multiSends then
    wallet.vMultiSend.map fun ms => { nValue := 0, scriptPubKey := CScript.setDestination ms.1 }
  else if nTotalSize / 2 > wallet.nStakeSplitThreshold * COIN.toUInt64 then
    [{ nValue := 0, scriptPubKey := scriptPubKeyOut }]
  else []

/-- `GetProofOfStakeReward` for `GetCoinAge`, or none if that fails. -/
def stakeReward (txNew : CTransaction) : Option Int64 :=
  (txNew.getCoinAge node.env node.db).map fun nCoinAge =>
    getProofOfStakeReward nCoinAge.toInt64 txNew.nTime

/-- The coin stake with the kernel as its only input; none if `CreateCoinStake` returns false. -/
def claimKernel (keystore : CKeyStore node.crypto) (txNew : CTransaction) (coin : Coin)
    (nTime : UInt32) : Except Fault (Option StakeState) :=
  match wallet.output coin with
  | none => .error .undefined
  | some txout =>
    match scriptPubKeyOut node keystore txout.scriptPubKey with
    | none => .ok none
    | some scriptPubKeyOut =>
      let txNew := { txNew with
        nTime, vin := [{ prevout := { hash := coin.1, n := coin.2 } }]
        vout := [{ nValue := 0 }, { nValue := 0, scriptPubKey := scriptPubKeyOut }] }
      match stakeReward node txNew with
      | none => .ok none
      | some nReward =>
        let vout := txNew.vout ++
          wallet.otherOutputs scriptPubKeyOut (txout.nValue + nReward).toUInt64
        .ok (some { txNew := { txNew with vout }, scriptPubKeyKernel := txout.scriptPubKey
                    nCredit := txout.nValue, vwtxPrev := [coin] })

/-- The loop over the stake coins that adds inputs of the same address as the kernel; `nLimit` is the
balance without the reserve. -/
def combineLoop (nCombineThreshold nLimit : Int64) : List Coin → StakeState → Except Fault StakeState
  | [], s => .ok s
  | coin :: coins, s =>
    match s.txNew.vin, s.txNew.vout with
    | txin :: _, [_, txout₁] =>
      match wallet.mapWallet[coin.1]?, wallet.output coin with
      | some pcoin, some txout =>
        if (txout.scriptPubKey = s.scriptPubKeyKernel ∨
            txout.scriptPubKey = txout₁.scriptPubKey) ∧ coin.1 ≠ txin.prevout.hash then
          -- too many inputs, a value that is already significant, or the reserve limit
          if s.txNew.vin.length ≥ 100 ∨ s.nCredit > nCombineThreshold ∨
              s.nCredit + txout.nValue > nLimit then .ok s
          -- an additional significant input, or one that is too young
          else if txout.nValue > nCombineThreshold ∨
              pcoin.tx.nTime + nStakeMaxAge node.env.fTestNet > s.txNew.nTime then
            combineLoop nCombineThreshold nLimit coins s
          else
            combineLoop nCombineThreshold nLimit coins
              { s with
                txNew := { s.txNew with
                  vin := s.txNew.vin ++ [{ prevout := { hash := coin.1, n := coin.2 } }] }
                nCredit := s.nCredit + txout.nValue
                vwtxPrev := s.vwtxPrev ++ [coin] }
        else combineLoop nCombineThreshold nLimit coins s
      | _, _ => .error .undefined
    | _, _ => combineLoop nCombineThreshold nLimit coins s

/-- The transaction with all its inputs; none if `CreateCoinStake` returns false. -/
def stakeInputs (keystore : CKeyStore node.crypto) (nBits : UInt32) (txNew : CTransaction)
    (nCombineThreshold nLimit : Int64) (setStakeCoins : List Coin) :
    Except Fault (Option StakeState) := do
  match ← wallet.findKernel node nBits txNew.nTime setStakeCoins with
  | none => return none
  | some (coin, nTime) =>
    match ← wallet.claimKernel node keystore txNew coin nTime with
    | none => return none
    | some s =>
      if s.nCredit = 0 ∨ s.nCredit > nLimit then return none
      else if wallet.fCombineDust then
        return some (← wallet.combineLoop node nCombineThreshold nLimit setStakeCoins s)
      else return some s

/-! ## The outputs -/

/-- The value of the output to a MultiSend entry. -/
def multiSendValue (nReward : UInt64) (percent : Int32) : Int64 :=
  (nReward * percent.toInt64.toUInt64 / 100).toInt64

/-- Set the values of the outputs to the MultiSend entries. -/
def setMultiSendValues (nReward : UInt64) :
    List (CTxDestination × Int32) → List CTxOut → Except Fault (List CTxOut)
  | [], vout => .ok vout
  | _ :: _, [] => .error .undefined
  | ms :: vMultiSend, txout :: vout => do
    return { txout with nValue := multiSendValue nReward ms.2 } ::
      (← setMultiSendValues nReward vMultiSend vout)

/-- The sum of the outputs to the MultiSend entries. -/
def nMultiSendAmount (nReward : UInt64) : UInt64 :=
  wallet.vMultiSend.foldl (fun n ms => n + (multiSendValue nReward ms.2).toUInt64) 0

/-- Set the values of the outputs. -/
def setValues (nReward : UInt64) (nCredit nMinFee : Int64) :
    List CTxOut → Except Fault (List CTxOut)
  | txout₀ :: txout₁ :: vout =>
    if wallet.multiSends then do
      let vout ← setMultiSendValues nReward wallet.vMultiSend vout
      let nValue := ((nCredit - nMinFee).toUInt64 - wallet.nMultiSendAmount nReward).toInt64
      return txout₀ :: { txout₁ with nValue } :: vout
    else
      match vout with
      | [txout₂] =>
        let nValue := (nCredit - nMinFee) / 2 / CENT * CENT
        .ok [txout₀, { txout₁ with nValue }, { txout₂ with nValue := nCredit - nMinFee - nValue }]
      | vout => .ok (txout₀ :: { txout₁ with nValue := nCredit - nMinFee } :: vout)
  | _ => .error .undefined

/-- A round of the fee loop: the result is the transaction, or none if `CreateCoinStake` returns
false. -/
def outputRound (nReward nCredit : Int64) (vwtxPrev : List Coin) (_ : ℕ)
    (s : Int64 × CTransaction) :
    Except Fault (Round (Int64 × CTransaction) (Option CTransaction)) := do
  let (nMinFee, txNew) := s
  let vout ← wallet.setValues nReward.toUInt64 nCredit nMinFee txNew.vout
  match wallet.signInputs vwtxPrev 0 { txNew with vout } with
  | .error (.fault e) => .error e
  | .error _ => return .done none
  | .ok txNew =>
    -- limit size
    if txNew.getSerializeSize ≥ MAX_BLOCK_SIZE_GEN / 5 then return .done none
    -- check that enough fee is paid
    else if nMinFee < txNew.getMinFee - MIN_TX_FEE then
      return .again (txNew.getMinFee - MIN_TX_FEE, txNew)
    else return .done (some txNew)

/-- `CreateCoinStake`, with a number of rounds that the fee loop may take: the coin stake, or none if
it returns false, and the static variables; or none if the loop takes more. -/
def createCoinStake (keystore : CKeyStore node.crypto) (nBits : UInt32) (txNew : CTransaction)
    (s : StakeCoins) (rounds : ℕ) : Option (Except Fault (Option CTransaction × StakeCoins)) :=
  if wallet.fDisableStake then some (.ok (none, s))
  else
    match node.nCombineThreshold, wallet.nReserveBalance with
    | .error e, _ => some (.error e)
    | .ok _, none => some (.ok (none, s))
    | .ok nCombineThreshold, some nReserveBalance =>
      if wallet.nBalance ≤ nReserveBalance then some (.ok (none, s))
      else
        let nLimit := wallet.nBalance - nReserveBalance
        match wallet.updateStakeCoins node nLimit s with
        | .error e => some (.error e)
        | .ok s =>
          match wallet.stakeInputs node keystore nBits txNew nCombineThreshold nLimit
              s.setStakeCoins with
          | .error e => some (.error e)
          | .ok none => some (.ok (none, s))
          | .ok (some stake) =>
            match stakeReward node stake.txNew with
            | none => some (.ok (none, s))
            | some nReward =>
              (retry (wallet.outputRound nReward (stake.nCredit + nReward) stake.vwtxPrev) rounds 0
                (0, stake.txNew)).map fun result => result.map fun txNew =>
                  -- the stake coins are selected again after a success
                  (txNew, if txNew.isSome then { s with nLastStakeSetUpdate := 0 } else s)

end StakingWallet

end HyperStake
