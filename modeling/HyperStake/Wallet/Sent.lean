import HyperStake.Chain.Block
import HyperStake.Library.ExceptLoop
import HyperStake.Voting.RoundTrip
import HyperStake.Wallet.Selection
import HyperStake.Wallet.SendProposal

/-!
# What a sent proposal pays

A transaction that is sent has the outputs of the one that was pending, the first with the minimum
value, and perhaps one for the change, and it has one input for each selected coin (`Sent`).  The
change is what the coins are worth beyond the fee, and it is left out when it is small, so the
inputs exceed the outputs by at least the fee without the minimum value (`Sent.fee_le`).
-/

namespace HyperStake

open ExceptLoop Int64Sum

/-! ## The transaction that is sent -/

/-- A sent transaction, made from another one: the selected coins with their value, the outputs of
the other transaction, and the outputs for the change. -/
structure Sent (wallet : WalletCoins) (tx₀ tx : CTransaction) (coins : List Coin)
    (nValueIn : Int64) (txout : CTxOut) (vout change : List CTxOut) : Prop where
  selected : Selected wallet coins nValueIn
  fee : CVoteProposal.FEE ≤ nValueIn
  pending : tx₀.vout = txout :: vout
  inputs : tx.vin.map CTxIn.prevout =
    tx₀.vin.map CTxIn.prevout ++ coins.map fun coin => { hash := coin.1, n := coin.2 }
  outputs : tx.vout = { txout with nValue := MIN_TXOUT_AMOUNT } :: vout ++ change
  change : change = [] ∨ ∃ nChange scriptPubKey, change = [{ nValue := nChange, scriptPubKey }] ∧
    500 < nChange.toInt ∧ nChange.toInt = nValueIn.toInt - CVoteProposal.FEE.toInt

namespace SpendingWallet

variable {wallet : SpendingWallet}

lemma lift_eq_ok {α : Type} {x : Except Fault α} {a : α} (h : SendFailure.lift x = .ok a) :
    x = .ok a := by
  cases x with
  | error e => cases h
  | ok b => exact congrArg Except.ok (Except.ok.inj h)

variable {coins : List Coin} {tx : CTransaction}

/-- The selection of some coins, in another order. -/
lemma selected_perm {wallet : WalletCoins} {coins' : List Coin} {nValueRet : Int64}
    (hperm : coins'.Perm coins) (h : Selected wallet coins nValueRet) :
    Selected wallet coins' nValueRet where
  nodup := hperm.nodup_iff.mpr h.nodup
  output coin hcoin := h.output coin (hperm.mem_iff.mp hcoin)
  index coin hcoin := h.index coin (hperm.mem_iff.mp hcoin)
  value := by rw [h.value, (hperm.map wallet.valueOf).sum_eq]

/-- The change is nothing, or one output of more than the threshold. -/
lemma changeOutput_eq_ok {nChange : Int64} {vin : List CTxIn} {change : List CTxOut}
    (h : wallet.changeOutput nChange vin = .ok change) :
    change = [] ∨ ∃ scriptPubKey, change = [{ nValue := nChange, scriptPubKey }] ∧
      500 < nChange.toInt := by
  unfold changeOutput at h
  split_ifs at h with hlarge
  · cases vin with
    | nil => cases h
    | cons txin vin =>
      dsimp only at h
      cases hprev : wallet.getTransaction txin.prevout.hash with
      | none =>
        rw [hprev] at h
        cases h
      | some txPrev =>
        rw [hprev] at h
        dsimp only at h
        cases hout : txPrev.vout[txin.prevout.n.toNat]? with
        | none =>
          rw [hout] at h
          cases h
        | some txout =>
          rw [hout] at h
          exact .inr ⟨txout.scriptPubKey, (Except.ok.inj h).symm, Int64.lt_iff_toInt_lt.mp hlarge⟩
  · exact .inl (Except.ok.inj h).symm

/-- What a funded transaction looks like. -/
lemma fundTransaction_eq_ok {tx₀ : CTransaction}
    (h : wallet.fundTransaction tx₀ = .ok (tx, coins)) :
    ∃ nValueIn txout vout change,
      Sent wallet.toWalletCoins tx₀ tx coins nValueIn txout vout change := by
  rw [fundTransaction] at h
  obtain ⟨vCoins, hcoins, h⟩ := bind_eq_ok.mp h
  obtain ⟨selected, hselected, h⟩ := bind_eq_ok.mp h
  rcases selected with _ | ⟨setCoins, nValueIn⟩
  · cases h
  dsimp only at h
  cases hvout : tx₀.vout with
  | nil =>
    rw [hvout] at h
    cases h
  | cons txout vout =>
    rw [hvout] at h
    obtain ⟨change, hchange, h⟩ := bind_eq_ok.mp h
    obtain ⟨rfl, rfl⟩ := Prod.mk.inj (Except.ok.inj h)
    have hfee : CVoteProposal.FEE.toInt = 5000000 := by decide
    have hcent : CENT.toInt = 10000 := by decide
    have hmin : MIN_TXOUT_AMOUNT.toInt = 10 := by decide
    obtain ⟨hsel, hge⟩ := selectCoinsMinConf_spec
      (WalletCoins.offers_availableCoins (lift_eq_ok hcoins)) (by omega) (by omega)
      (lift_eq_ok hselected)
    refine ⟨nValueIn, txout, vout, change,
      selected_perm (wallet.choices.order_perm setCoins) hsel, hge, hvout, ?_, rfl, ?_⟩
    · simp [Function.comp_def]
    · obtain hnone | ⟨scriptPubKey, hone, hlarge⟩ := changeOutput_eq_ok hchange
      · exact .inl hnone
      · refine .inr ⟨_, scriptPubKey, hone, hlarge, ?_⟩
        -- the fee is subtracted in two steps, which stay in range
        have hle : CVoteProposal.FEE.toInt ≤ nValueIn.toInt := Int64.le_iff_toInt_le.mp hge
        have hlt := nValueIn.toInt_lt
        have hrest : (CVoteProposal.FEE - MIN_TXOUT_AMOUNT).toInt = 4999990 := by decide
        have hfirst : (nValueIn - (CVoteProposal.FEE - MIN_TXOUT_AMOUNT)).toInt
            = nValueIn.toInt - 4999990 := by
          rw [toInt_sub ⟨by omega, by omega⟩, hrest]
        rw [toInt_sub ⟨by omega, by omega⟩, hfirst, hmin, hfee]
        ring

/-- Signing changes nothing but the signatures. -/
lemma signInputs_eq_ok {nIn : ℕ} {tx' : CTransaction}
    (h : wallet.signInputs coins nIn tx = .ok tx') :
    tx'.vout = tx.vout ∧ tx'.vin.map CTxIn.prevout = tx.vin.map CTxIn.prevout ∧
      tx'.nTime = tx.nTime := by
  induction coins generalizing nIn tx with
  | nil =>
    rw [signInputs] at h
    cases h
    exact ⟨rfl, rfl, rfl⟩
  | cons coin coins ih =>
    rw [signInputs] at h
    cases hcoin : wallet.mapWallet[coin.1]? with
    | none =>
      rw [hcoin] at h
      cases h
    | some pcoin =>
      rw [hcoin] at h
      dsimp only at h
      cases hsign : wallet.signSignature pcoin.tx tx nIn with
      | none =>
        rw [hsign] at h
        cases h
      | some scriptSig =>
        rw [hsign] at h
        obtain ⟨hvout, hvin, htime⟩ := ih h
        refine ⟨hvout, ?_, htime⟩
        rw [hvin]
        refine List.ext_getElem? fun i => ?_
        rw [List.getElem?_map, List.getElem?_map, List.getElem?_modify]
        cases tx.vin[i]? with
        | none => rfl
        | some txin => by_cases hi : nIn = i <;> simp [hi]

/-- What a sent transaction looks like. -/
lemma sendTransaction_eq_ok {tx₀ : CTransaction} (h : wallet.sendTransaction tx₀ = .ok tx) :
    ∃ coins nValueIn txout vout change,
      Sent wallet.toWalletCoins tx₀ tx coins nValueIn txout vout change := by
  rw [sendTransaction] at h
  obtain ⟨⟨txFunded, coins⟩, hfund, h⟩ := bind_eq_ok.mp h
  obtain ⟨txSigned, hsign, h⟩ := bind_eq_ok.mp h
  split_ifs at h with hcommit
  · cases h
    obtain ⟨nValueIn, txout, vout, change, hsent⟩ := fundTransaction_eq_ok hfund
    obtain ⟨hvout, hvin, -⟩ := signInputs_eq_ok hsign
    exact ⟨coins, nValueIn, txout, vout, change,
      { hsent with
        inputs := by rw [hvin, hsent.inputs]
        outputs := by rw [hvout, hsent.outputs] }⟩

/-- `SendProposal` sends the transaction that it constructs. -/
lemma sendProposal_eq_ok {proposal : CVoteProposal} {nTime : UInt32}
    (h : wallet.sendProposal proposal nTime = .ok (some tx)) :
    wallet.sendTransaction (proposal.constructTransaction { nTime }).2 = .ok tx := by
  unfold sendProposal at h
  rcases hconstruct : proposal.constructTransaction { nTime } with ⟨_ | _, tx₀⟩
  · rw [hconstruct] at h
    cases h
  · rw [hconstruct] at h
    dsimp only at h ⊢
    rcases hsend : wallet.sendTransaction tx₀ with failure | tx'
    · rw [hsend] at h
      cases failure <;> cases h
    · rw [hsend] at h
      cases h
      rfl

end SpendingWallet

variable {tx : CTransaction} {txout : CTxOut} {inputs : MapPrevTx}

/-- `sendproposal` sends the pending transaction under the hash. -/
lemma sendproposal_eq_ok {wallet : SpendingWallet} {mapPendingProposals : PendingProposals}
    {hashProposal : UInt256} (h : sendproposal wallet mapPendingProposals hashProposal = .ok tx) :
    ∃ tx₀, mapPendingProposals[hashProposal]? = some tx₀ ∧
      wallet.sendTransaction tx₀ = .ok tx := by
  unfold sendproposal at h
  split_ifs at h with hlocked
  cases hget : mapPendingProposals[hashProposal]? with
  | none =>
    rw [hget] at h
    cases h
  | some tx₀ =>
    rw [hget] at h
    dsimp only at h
    cases hsend : wallet.sendTransaction tx₀ with
    | error failure =>
      rw [hsend] at h
      cases h
    | ok tx' =>
      rw [hsend] at h
      cases h
      exact ⟨tx₀, rfl, hsend⟩

/-! ## Proposals that can be sent -/

/-- The pending proposals that calls of `createproposal` leave. -/
inductive PendingReached (hash : Bytes → UInt256) : PendingProposals → Prop where
  | start : PendingReached hash ∅
  | create {mapPendingProposals : PendingProposals} (params : ProposalParams) (nTime : UInt32) :
      PendingReached hash mapPendingProposals →
      PendingReached hash (createproposal hash params nTime mapPendingProposals).2

/-- A pending transaction is one that `createproposal` has made. -/
lemma PendingReached.exists_transaction {hash : Bytes → UInt256}
    {mapPendingProposals : PendingProposals} (h : PendingReached hash mapPendingProposals)
    {hashProposal : UInt256} (hget : mapPendingProposals[hashProposal]? = some tx) :
    ∃ (params : ProposalParams) (nTime : UInt32), tx = params.transaction nTime := by
  induction h with
  | start => simp at hget
  | @create pending params nTime _ ih =>
    rw [createproposal, MapLoop.getElem?_insertIfNew_eq] at hget
    split_ifs at hget with hkey
    · subst hkey
      cases hold : pending[(params.transaction nTime).getHash hash]? with
      | none =>
        rw [hold] at hget
        exact ⟨params, nTime, (Option.some.inj hget).symm⟩
      | some tx' =>
        rw [hold] at hget
        have heq : tx' = tx := Option.some.inj hget
        subst heq
        exact ih hold
    · exact ih hget

/-- The transaction that `ConstructTransaction` makes of a new one has no inputs, and if it has an
output at all then that is the one that carries the proposal. -/
lemma constructTransaction_new {proposal : CVoteProposal} {nTime : UInt32}
    (h : tx = (proposal.constructTransaction { nTime }).2) {vout : List CTxOut}
    (hvout : tx.vout = txout :: vout) :
    proposal.isNull = false ∧ tx.vin = [] ∧ txout = { nValue := 0, scriptPubKey := proposal.script } ∧
      vout = [] := by
  subst h
  unfold CVoteProposal.constructTransaction at hvout ⊢
  cases hnull : proposal.isNull with
  | true => simp [hnull] at hvout
  | false =>
    rw [hnull] at hvout
    simp only [Bool.false_eq_true, if_false, List.nil_append] at hvout ⊢
    split_ifs at hvout ⊢ <;>
    · obtain ⟨rfl, rfl⟩ := List.cons_eq_cons.mp hvout
      exact ⟨trivial, rfl, rfl, rfl⟩

/-! ## What it pays -/

/-- The inputs of a transaction, as they are fetched, are the transactions of the wallet. -/
def ProvidesInputs (wallet : WalletCoins) (tx : CTransaction) (inputs : MapPrevTx) : Prop :=
  ∀ txin ∈ tx.vin, ∃ txindex wtx, wallet.mapWallet[txin.prevout.hash]? = some wtx ∧
    inputs[txin.prevout.hash]? = some (txindex, wtx.tx)

variable {wallet : WalletCoins}

/-- The output that a coin is, among the inputs. -/
lemma getOutputFor_eq {txin : CTxIn}
    (hinput : ∃ txindex wtx, wallet.mapWallet[txin.prevout.hash]? = some wtx ∧
      inputs[txin.prevout.hash]? = some (txindex, wtx.tx))
    (hout : wallet.output (txin.prevout.hash, txin.prevout.n) = some txout) :
    CTransaction.getOutputFor txin inputs = .ok txout := by
  obtain ⟨txindex, wtx, hwtx, hget⟩ := hinput
  rw [WalletCoins.output, hwtx] at hout
  have hindex : wtx.tx.vout[txin.prevout.n.toNat]? = some txout := hout
  rw [CTransaction.getOutputFor, hget]
  simp only [hindex]

/-- `GetValueIn` adds up the values of the coins that the inputs claim. -/
lemma getValueIn_eq {coins : List Coin} {nValueIn : Int64}
    (hprovides : ProvidesInputs wallet tx inputs) (hselected : Selected wallet coins nValueIn)
    (hvin : tx.vin.map CTxIn.prevout = coins.map fun coin => { hash := coin.1, n := coin.2 }) :
    tx.getValueIn inputs = .ok nValueIn := by
  have hcoins : coins = tx.vin.map fun txin => (txin.prevout.hash, txin.prevout.n) := by
    have hmap := congrArg (List.map fun prevout : COutPoint => (prevout.hash, prevout.n)) hvin
    rw [List.map_map, List.map_map] at hmap
    simpa [Function.comp_def] using hmap.symm
  have hbase : tx.isCoinBase = false := by
    unfold CTransaction.isCoinBase
    split
    · rename_i txin hone
      have hmem : (txin.prevout.hash, txin.prevout.n) ∈ coins := by
        rw [hcoins, hone]
        exact List.mem_singleton_self _
      have hindex : txin.prevout.n ≠ 0xffffffff := hselected.index _ hmem
      simp [COutPoint.isNull, hindex]
    · rfl
  have houtput : ∀ txin ∈ tx.vin, ∃ txout,
      CTransaction.getOutputFor txin inputs = .ok txout ∧
        wallet.valueOf (txin.prevout.hash, txin.prevout.n) = txout.nValue.toInt := by
    intro txin hmem
    obtain ⟨txout, hout⟩ := hselected.output (txin.prevout.hash, txin.prevout.n) (by
      rw [hcoins]
      exact List.mem_map_of_mem hmem)
    refine ⟨txout, getOutputFor_eq (hprovides txin hmem) hout, ?_⟩
    rw [WalletCoins.valueOf, hout]
  have hloop : ∀ (vin : List CTxIn) (nResult : Int64), (∀ txin ∈ vin, txin ∈ tx.vin) →
      vin.foldlM (fun nResult txin => do
        return nResult + (← CTransaction.getOutputFor txin inputs).nValue) nResult =
      Except.ok (nResult + Int64.ofInt
        ((vin.map fun txin => wallet.valueOf (txin.prevout.hash, txin.prevout.n)).sum)) := by
    intro vin
    induction vin with
    | nil =>
      intro nResult _
      exact congrArg Except.ok (Int64.add_zero nResult).symm
    | cons txin vin ih =>
      intro nResult hsub
      obtain ⟨txout, hget, hvalue⟩ := houtput txin (hsub txin List.mem_cons_self)
      rw [List.foldlM_cons, hget]
      change vin.foldlM _ (nResult + txout.nValue) = _
      rw [ih _ fun txin' hmem => hsub txin' (List.mem_cons_of_mem _ hmem), List.map_cons,
        List.sum_cons, hvalue, Int64.ofInt_add, Int64.ofInt_toInt, Int64.add_assoc]
  rw [CTransaction.getValueIn, hbase]
  simp only [Bool.false_eq_true, if_false]
  rw [hloop tx.vin 0 fun _ hmem => hmem]
  have hsum : (tx.vin.map fun txin => wallet.valueOf (txin.prevout.hash, txin.prevout.n)).sum
      = nValueIn.toInt := by
    rw [hselected.value, hcoins, List.map_map]
    rfl
  rw [hsum, Int64.ofInt_toInt, Int64.zero_add]

/-- The transaction passes the test of `ConnectBlock` on its fee, and has no output below the minimum
value. -/
structure PaysFee (tx : CTransaction) (inputs : MapPrevTx) : Prop where
  fee : ∃ nTxValueIn, tx.getValueIn inputs = .ok nTxValueIn ∧
    (CVoteProposal.FEE - MIN_TXOUT_AMOUNT).toInt ≤ nTxValueIn.toInt - tx.valueOut ∧
    ∀ nTxValueOut, tx.getValueOut = .ok nTxValueOut →
      nTxValueIn - nTxValueOut ≥ CVoteProposal.FEE - MIN_TXOUT_AMOUNT
  outputs : ∀ txout ∈ tx.vout, MIN_TXOUT_AMOUNT ≤ txout.nValue

/-- What is sent for a new transaction with a proposal pays the fee. -/
lemma Sent.paysFee {tx₀ : CTransaction} {coins : List Coin}
    {nValueIn : Int64} {vout change : List CTxOut}
    (h : Sent wallet tx₀ tx coins nValueIn txout vout change) (hvin : tx₀.vin = [])
    (hvout : vout = []) (hprovides : ProvidesInputs wallet tx inputs) : PaysFee tx inputs := by
  have hfee : CVoteProposal.FEE.toInt = 5000000 := by decide
  have hmin : MIN_TXOUT_AMOUNT.toInt = 10 := by decide
  have hrest : (CVoteProposal.FEE - MIN_TXOUT_AMOUNT).toInt = 4999990 := by decide
  have hge : CVoteProposal.FEE.toInt ≤ nValueIn.toInt := Int64.le_iff_toInt_le.mp h.fee
  have hinputs : tx.vin.map CTxIn.prevout
      = coins.map fun coin => { hash := coin.1, n := coin.2 } := by
    rw [h.inputs, hvin]
    rfl
  have hvalueOut : tx.valueOut = 10 + total (change.map CTxOut.nValue) := by
    rw [CTransaction.valueOut, h.outputs, hvout]
    simp [hmin]
  have hexcess : (CVoteProposal.FEE - MIN_TXOUT_AMOUNT).toInt ≤ nValueIn.toInt - tx.valueOut := by
    obtain hnone | ⟨nChange, scriptPubKey, hone, -, hchange⟩ := h.change
    · rw [hvalueOut, hnone, hrest]
      simp only [List.map_nil, total_nil]
      omega
    · rw [hvalueOut, hone, hrest]
      simp only [List.map_cons, List.map_nil, total_cons, total_nil]
      omega
  refine ⟨⟨nValueIn, getValueIn_eq hprovides h.selected hinputs, hexcess, ?_⟩, ?_⟩
  · intro nTxValueOut hout
    obtain ⟨-, hrange, hsum⟩ := CTransaction.getValueOut_eq_ok hout
    have hnonneg := (CTransaction.moneyRange_iff.mp hrange).1
    have hlt := nValueIn.toInt_lt
    have hsub : (nValueIn - nTxValueOut).toInt = nValueIn.toInt - nTxValueOut.toInt :=
      toInt_sub ⟨by omega, by omega⟩
    rw [ge_iff_le, Int64.le_iff_toInt_le, hsub, hsum]
    exact hexcess
  · intro out hout
    rw [h.outputs, hvout] at hout
    rw [Int64.le_iff_toInt_le, hmin]
    rcases List.mem_cons.mp hout with rfl | hout
    · exact hmin.ge
    · obtain hnone | ⟨nChange, scriptPubKey, hone, hlarge, -⟩ := h.change
      · rw [hnone] at hout
        cases hout
      · rw [hone] at hout
        rw [List.mem_singleton.mp hout]
        dsimp only
        omega

/-- Whatever coins the selection returns, a transaction that `sendproposal` or `SendProposal` commits
pays the fee that `ConnectBlock` requires, and has no output below the minimum value. -/
theorem paysFee_of_committed (wallet : SpendingWallet) {hash : Bytes → UInt256}
    {mapPendingProposals : PendingProposals} (hpending : PendingReached hash mapPendingProposals)
    {tx : CTransaction}
    (hsend : (∃ hashProposal, sendproposal wallet mapPendingProposals hashProposal = .ok tx) ∨
      ∃ proposal nTime, wallet.sendProposal proposal nTime = .ok (some tx))
    {inputs : MapPrevTx} (hprovides : ProvidesInputs wallet.toWalletCoins tx inputs) :
    PaysFee tx inputs := by
  have hsent : ∃ (proposal : CVoteProposal) (nTime : UInt32),
      wallet.sendTransaction (proposal.constructTransaction { nTime }).2 = .ok tx := by
    obtain ⟨hashProposal, h⟩ | ⟨proposal, nTime, h⟩ := hsend
    · obtain ⟨tx₀, hget, hsend⟩ := sendproposal_eq_ok h
      obtain ⟨params, nTime, rfl⟩ := hpending.exists_transaction hget
      exact ⟨params.proposal, nTime, hsend⟩
    · exact ⟨proposal, nTime, SpendingWallet.sendProposal_eq_ok h⟩
  obtain ⟨proposal, nTime, hsend⟩ := hsent
  obtain ⟨coins, nValueIn, txout, vout, change, hsent⟩ :=
    SpendingWallet.sendTransaction_eq_ok hsend
  obtain ⟨-, hvin, -, hvout⟩ := constructTransaction_new rfl hsent.pending
  exact hsent.paysFee hvin hvout hprovides

/-! ## A wallet for examples -/

/-- A transaction of the sample wallet, with an output of ten coins. -/
def sampleWalletTx : CWalletTx where
  tx := { vin := [{ prevout := { hash := 1, n := 0 } }]
          vout := [{ nValue := 10 * COIN, scriptPubKey := [0x51] }] }
  isFinal := true
  isConfirmed := true
  isFromMe := false
  blocksToMaturity := 0
  depthInMainChain := 6
  isSpent _ := false

/-- A wallet with one coin, that signs with nothing and commits everything. -/
def sampleWallet : SpendingWallet where
  mapWallet := (∅ : Std.ExtTreeMap UInt256 CWalletTx).insert 7 sampleWalletTx
  isMine _ := true
  isLocked := false
  choices :=
    { shuffle := id, shuffle_perm := fun _ => List.Perm.refl _
      sort := id, sort_perm := fun _ => List.Perm.refl _
      rand := fun _ _ _ => false
      order := id, order_perm := fun _ => List.Perm.refl _ }
  getTransaction _ := some sampleWalletTx.tx
  signSignature _ _ _ := some []
  commitTransaction _ := true

/-- The transaction that the sample wallet sends for a proposal. -/
def sampleSentTx (proposal : CVoteProposal) : CTransaction :=
  { vin := [{ prevout := { hash := 7, n := 0 } }]
    vout := [{ nValue := MIN_TXOUT_AMOUNT, scriptPubKey := proposal.script },
      { nValue := 5 * COIN, scriptPubKey := [0x51] }] }

/-- The inputs of what the sample wallet sends. -/
def sampleInputs : MapPrevTx :=
  (∅ : MapPrevTx).insert 7 (({}, sampleWalletTx.tx) : CTxIndex × CTransaction)

/-- The sample wallet sends a proposal, and pays the fee. -/
theorem paysFee_sampleSentTx : PaysFee (sampleSentTx (proposalOfVersion 1)) sampleInputs :=
  paysFee_of_committed sampleWallet (PendingReached.start : PendingReached sampleHash ∅)
    (.inr ⟨proposalOfVersion 1, 0, by decide +kernel⟩) (by
      intro txin htxin
      rw [List.mem_singleton.mp htxin]
      exact ⟨{}, sampleWalletTx, by rfl, by rfl⟩)

end HyperStake
