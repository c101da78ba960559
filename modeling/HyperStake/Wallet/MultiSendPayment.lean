import HyperStake.Library.ExceptLoop
import HyperStake.Library.Int64Sum
import HyperStake.Wallet.CreateTransaction

/-!
# The payments of MultiSend

At its end `ProcessBlock` calls `MultiSend`, which goes through the coins of the wallet and sends
shares of the reward of a coin stake that has just the depth of `nCoinbaseMaturity + 20`.  It sends
at most one payment at a height, and returns as soon as it meets a coin of such a coin stake whose
address is disabled (`multiSendLoop_eq_ok`).

The sums that the transactions of the wallet cache are left out.  The wallet does not change between
the coins: after a payment the loop returns before it looks at another transaction.
-/

namespace HyperStake

/-- The active chain: its height, and the height of the block that has a transaction. -/
structure ChainHeights where
  nBestHeight : Int32
  heightOf : UInt256 → Option Int32

/-- `GetDepthInMainChain`. -/
def ChainHeights.depth (chain : ChainHeights) (h : UInt256) : Int32 :=
  match chain.heightOf h with
  | none => 0
  | some nHeight => chain.nBestHeight - nHeight + 1

namespace WalletCoins

variable (wallet : WalletCoins)

/-- A round of the loop of `CWallet::GetCredit`. -/
def addCredit (nCredit : Int64) (txout : CTxOut) : Except Fault Int64 :=
  if !moneyRange txout.nValue then .error .runtimeError
  else
    let nCredit := nCredit + if wallet.isMine txout then txout.nValue else 0
    if !moneyRange nCredit then .error .runtimeError else .ok nCredit

/-- `CWalletTx::GetCredit`. -/
def getCredit (wtx : CWalletTx) : Except Fault Int64 :=
  -- must wait until coinbase is safely deep enough in the chain before valuing it
  if (wtx.tx.isCoinBase || wtx.tx.isCoinStake) && decide (wtx.blocksToMaturity > 0) then .ok 0
  else wtx.tx.vout.foldlM wallet.addCredit 0

/-- A round of the loop of `CWallet::GetDebit`. -/
def addDebit (nDebit : Int64) (txin : CTxIn) : Except Fault Int64 :=
  let nDebit := nDebit +
    (((wallet.output (txin.prevout.hash, txin.prevout.n)).filter wallet.isMine).map
      CTxOut.nValue).getD 0
  if !moneyRange nDebit then .error .runtimeError else .ok nDebit

/-- `CWalletTx::GetDebit`. -/
def getDebit (wtx : CWalletTx) : Except Fault Int64 := wtx.tx.vin.foldlM wallet.addDebit 0

end WalletCoins

/-- A coin stake has just the depth at which its reward is shared. -/
def CWalletTx.due (nCoinbaseMaturity : Int32) (wtx : CWalletTx) : Bool :=
  wtx.tx.isCoinStake && decide (wtx.blocksToMaturity = 0) &&
    decide (wtx.depthInMainChain = nCoinbaseMaturity + 20)

/-- What `MultiSend` works on. -/
structure MultiSendNode (nCoinbaseMaturity : Int32) extends CreatingWallet where
  chain : ChainHeights
  /-- `IsInitialBlockDownload`. -/
  fInitialBlockDownload : Bool
  vMultiSend : List (String × Int32)
  vDisabledAddresses : List String
  /-- `CBitcoinAddress(address).ToString()`. -/
  addressString : CTxDestination → String
  /-- `CBitcoinAddress(s).Get()`. -/
  destination : String → CTxDestination
  /-- `GetAdjustedTime`, when a transaction is made. -/
  adjustedTime : UInt32
  /-- What `CreateTransaction` leaves in the transaction when it returns false. -/
  unfinished : List (CScript × Int64) → CTransaction
  maturity_pos : 0 < nCoinbaseMaturity + 20
  depth_eq : ∀ (h : UInt256) (wtx : CWalletTx), mapWallet[h]? = some wtx →
    wtx.depthInMainChain = chain.depth h
  blocksToMaturity_eq : ∀ (h : UInt256) (wtx : CWalletTx), mapWallet[h]? = some wtx →
    wtx.tx.isCoinStake = true → wtx.blocksToMaturity =
      if 0 < nCoinbaseMaturity + 20 - chain.depth h then nCoinbaseMaturity + 20 - chain.depth h
      else 0
  /-- A block of the active chain has one coin stake. -/
  stake_unique : ∀ (h h' : UInt256) (wtx wtx' : CWalletTx) (nHeight : Int32),
    mapWallet[h]? = some wtx → mapWallet[h']? = some wtx' → wtx.tx.isCoinStake = true →
    wtx'.tx.isCoinStake = true → chain.heightOf h = some nHeight →
    chain.heightOf h' = some nHeight → h = h'

/-- A call of `CommitTransaction` in `MultiSend`. -/
structure MultiSendPayment where
  /-- The coin stake whose reward is shared. -/
  stake : UInt256
  vecSend : List (CScript × Int64)
  wtx : CTransaction
  fCreated : Bool
  fCommitted : Bool

namespace MultiSendNode

variable {nCoinbaseMaturity : Int32} (node : MultiSendNode nCoinbaseMaturity)

/-- The output of a coin. -/
def txout (out : COutput) : Except Fault (CWalletTx × CTxOut) :=
  match node.mapWallet[out.tx]? with
  | none => .error .undefined
  | some wtx =>
    match wtx.tx.vout[out.i.toUInt32.toNat]? with
    | none => .error .undefined
    | some txout => .ok (wtx, txout)

/-- An entry of `vecSend`: the share of the reward for an entry of `vMultiSend`. -/
def share (wtx : CWalletTx) (s : String × Int32) : Except Fault (CScript × Int64) :=
  (node.getCredit wtx).bind fun nCredit => (node.getDebit wtx).map fun nDebit =>
    (CScript.setDestination (node.destination s.1), (nCredit - nDebit) * s.2.toInt64 / 100)

/-- The call of `CreateTransaction` for a coin: the transaction, or none if it returns false. -/
def create (rounds : ℕ) (out : COutput) (vecSend : List (CScript × Int64)) :
    Except Fault (Option CTransaction) :=
  let cControl : CCoinControl :=
    { fReturnChange := true, setSelected := [{ hash := out.tx, n := out.i.toUInt32 }] }
  -- make sure splitblock is off
  let wallet := { node.toCreatingWallet with fSplitBlock := false }
  match wallet.createTransaction vecSend { nTime := node.adjustedTime } 0 1 cControl rounds with
  | none => .error .endless
  | some created => created.map CreatingWallet.Created.wtxNew

/-- Create the transaction for a coin and commit it.  It is committed also if it was not created. -/
def pay (rounds : ℕ) (out : COutput) (wtx : CWalletTx) : Except Fault MultiSendPayment :=
  (node.vMultiSend.mapM (node.share wtx)).bind fun vecSend =>
    (node.create rounds out vecSend).map fun wtxNew =>
      let wtx := wtxNew.getD (node.unfinished vecSend)
      ⟨out.tx, vecSend, wtx, wtxNew.isSome, node.commitTransaction wtx⟩

/-- An address is in `vDisabledAddresses`. -/
def disabled (address : CTxDestination) : Bool :=
  node.vDisabledAddresses.any fun s => decide (s = node.addressString address)

/-- The loop of `MultiSend` over the coins that are left: what it returns, `nLastMultiSendHeight`, and
the payments. -/
def multiSendLoop (rounds : ℕ) : List COutput → Int32 → List MultiSendPayment →
    Except Fault (Bool × Int32 × List MultiSendPayment)
  | [], nLastMultiSendHeight, payments => .ok (true, nLastMultiSendHeight, payments)
  | out :: vCoins, nLastMultiSendHeight, payments =>
    (node.txout out).bind fun (wtx, txout) =>
      match CScript.extractDestination node.crypto txout.scriptPubKey with
      | none => multiSendLoop rounds vCoins nLastMultiSendHeight payments
      | some address =>
        if node.chain.nBestHeight ≤ nLastMultiSendHeight then
          .ok (false, nLastMultiSendHeight, payments)
        else if wtx.due nCoinbaseMaturity then
          -- disabled addresses won't send MultiSend transactions
          if node.disabled address then .ok (false, nLastMultiSendHeight, payments)
          else (node.pay rounds out wtx).bind fun payment =>
            multiSendLoop rounds vCoins node.chain.nBestHeight (payments ++ [payment])
        else multiSendLoop rounds vCoins nLastMultiSendHeight payments

/-- `MultiSend`: what it returns, `nLastMultiSendHeight`, and the payments. -/
def multiSend (rounds : ℕ) (nLastMultiSendHeight : Int32) :
    Except Fault (Bool × Int32 × List MultiSendPayment) :=
  if node.fInitialBlockDownload || node.isLocked then .ok (false, nLastMultiSendHeight, [])
  else (node.availableCoins true).bind fun vCoins =>
    node.multiSendLoop rounds vCoins nLastMultiSendHeight []

/-! ## What a call does -/

/-- A coin with an address, of a coin stake whose reward is to be shared. -/
def isDue (out : COutput) : Bool :=
  match node.txout out with
  | .error _ => false
  | .ok (wtx, txout) =>
    (CScript.extractDestination node.crypto txout.scriptPubKey).isSome && wtx.due nCoinbaseMaturity

/-- The address of a coin is not disabled. -/
def enabled (out : COutput) : Bool :=
  match node.txout out with
  | .error _ => false
  | .ok (_, txout) =>
    (CScript.extractDestination node.crypto txout.scriptPubKey).any fun address =>
      !node.disabled address

/-- The coin that is paid from: the first one that is due, if its address is not disabled. -/
def chosen (vCoins : List COutput) (nLastMultiSendHeight : Int32) : Option COutput :=
  if node.chain.nBestHeight ≤ nLastMultiSendHeight then none
  else (vCoins.find? node.isDue).filter node.enabled

section Calls

variable {node} {rounds : ℕ} {vCoins : List COutput} {nLastMultiSendHeight : Int32}
  {payments : List MultiSendPayment} {r : Bool × Int32 × List MultiSendPayment}

/-- After a payment nothing is paid at this height. -/
lemma multiSendLoop_of_le (hle : node.chain.nBestHeight ≤ nLastMultiSendHeight)
    (hloop : node.multiSendLoop rounds vCoins nLastMultiSendHeight payments = .ok r) :
    r.2 = (nLastMultiSendHeight, payments) := by
  induction vCoins with
  | nil =>
    cases hloop
    rfl
  | cons out vCoins ih =>
    rw [multiSendLoop] at hloop
    obtain ⟨⟨wtx, txout⟩, -, hloop⟩ := ExceptLoop.bind_eq_ok.mp hloop
    dsimp only at hloop
    cases hextract : CScript.extractDestination node.crypto txout.scriptPubKey with
    | none =>
      rw [hextract] at hloop
      exact ih hloop
    | some address =>
      rw [hextract] at hloop
      dsimp only at hloop
      rw [if_pos hle] at hloop
      cases hloop
      rfl

/-- The loop pays from the chosen coin, if there is one. -/
lemma multiSendLoop_eq_ok
    (hloop : node.multiSendLoop rounds vCoins nLastMultiSendHeight payments = .ok r) :
    match node.chosen vCoins nLastMultiSendHeight with
    | none => r.2 = (nLastMultiSendHeight, payments)
    | some out => ∃ wtx txout payment, node.txout out = .ok (wtx, txout) ∧
        node.pay rounds out wtx = .ok payment ∧
        r.2 = (node.chain.nBestHeight, payments ++ [payment]) := by
  by_cases hle : node.chain.nBestHeight ≤ nLastMultiSendHeight
  · rw [chosen, if_pos hle]
    exact multiSendLoop_of_le hle hloop
  · rw [chosen, if_neg hle]
    induction vCoins with
    | nil =>
      cases hloop
      rfl
    | cons out vCoins ih =>
      rw [multiSendLoop] at hloop
      obtain ⟨⟨wtx, txout⟩, hout, hloop⟩ := ExceptLoop.bind_eq_ok.mp hloop
      dsimp only at hloop
      cases hextract : CScript.extractDestination node.crypto txout.scriptPubKey with
      | none =>
        have hdue : node.isDue out = false := by
          rw [isDue, hout]
          dsimp only
          rw [hextract]
          rfl
        rw [hextract] at hloop
        rw [List.find?_cons_of_neg (by rw [hdue]; exact Bool.false_ne_true)]
        exact ih hloop
      | some address =>
        have hdue : node.isDue out = wtx.due nCoinbaseMaturity := by
          rw [isDue, hout]
          dsimp only
          rw [hextract]
          rfl
        have henabled : node.enabled out = !node.disabled address := by
          rw [enabled, hout]
          dsimp only
          rw [hextract]
          rfl
        rw [hextract] at hloop
        dsimp only at hloop
        rw [if_neg hle] at hloop
        split_ifs at hloop with hpays hdisabled
        · cases hloop
          rw [List.find?_cons_of_pos (hdue.trans hpays), Option.filter_some, henabled, hdisabled]
          rfl
        · obtain ⟨payment, hpay, hrest⟩ := ExceptLoop.bind_eq_ok.mp hloop
          rw [List.find?_cons_of_pos (hdue.trans hpays), Option.filter_some, henabled,
            (Bool.not_eq_true _).mp hdisabled]
          exact ⟨wtx, txout, payment, hout, hpay, multiSendLoop_of_le (Int32.le_refl _) hrest⟩
        · rw [List.find?_cons_of_neg (by rw [hdue]; exact hpays)]
          exact ih hloop

end Calls

/-! ## The amounts -/

section Amounts

variable {node} {wtx : CWalletTx} {nCredit nDebit : Int64} {rounds : ℕ} {out : COutput}

lemma moneyRange_of_getCredit (h : node.getCredit wtx = .ok nCredit) :
    moneyRange nCredit = true := by
  unfold WalletCoins.getCredit at h
  split_ifs at h
  · cases h
    rfl
  · refine ExceptLoop.foldlM_invariant (fun _ n => moneyRange n = true) ?_ rfl h
    intro _ txout _ n n' _ _ hround
    unfold WalletCoins.addCredit at hround
    dsimp only at hround
    generalize (if node.isMine txout = true then txout.nValue else 0) = nValue at hround
    split_ifs at hround with hvalue hsum
    cases hround
    simpa using hsum

lemma moneyRange_of_getDebit (h : node.getDebit wtx = .ok nDebit) : moneyRange nDebit = true := by
  refine ExceptLoop.foldlM_invariant (fun _ n => moneyRange n = true) ?_ rfl h
  intro _ txin _ n n' _ _ hround
  unfold WalletCoins.addDebit at hround
  dsimp only at hround
  split_ifs at hround with hsum
  cases hround
  simpa using hsum

/-- A share of a reward is rounded down. -/
lemma toInt_share {nPercent : Int32} (hcredit : moneyRange nCredit = true)
    (hdebit : moneyRange nDebit = true) (hreward : nDebit ≤ nCredit)
    (hpercent : 0 ≤ nPercent.toInt ∧ nPercent.toInt ≤ 100) :
    ((nCredit - nDebit) * nPercent.toInt64 / 100).toInt =
      (nCredit.toInt - nDebit.toInt) * nPercent.toInt / 100 := by
  have hmax : MAX_MONEY.toInt = 60000000000000 := by decide
  obtain ⟨-, hle⟩ := CTransaction.moneyRange_iff.mp hcredit
  obtain ⟨hnonneg, -⟩ := CTransaction.moneyRange_iff.mp hdebit
  have hge := Int64.le_iff_toInt_le.mp hreward
  have hsub : (nCredit - nDebit).toInt = nCredit.toInt - nDebit.toInt :=
    Int64Sum.toInt_sub ⟨by omega, by omega⟩
  have hproduct : 0 ≤ (nCredit.toInt - nDebit.toInt) * nPercent.toInt :=
    Int.mul_nonneg (by omega) hpercent.1
  have hbound : (nCredit.toInt - nDebit.toInt) * nPercent.toInt ≤ 60000000000000 * 100 :=
    Int.mul_le_mul (by omega) hpercent.2 hpercent.1 (by norm_num)
  have hmul : ((nCredit - nDebit) * nPercent.toInt64).toInt =
      (nCredit.toInt - nDebit.toInt) * nPercent.toInt := by
    rw [Int64.toInt_mul, hsub, Int32.toInt_toInt64]
    exact Int64Sum.bmod_eq_of_inRange ⟨by omega, by omega⟩
  rw [Int64.toInt_div_of_ne_right _ _ (by decide), hmul]
  exact Int.tdiv_eq_ediv_of_nonneg hproduct

/-- The amounts of a payment are the shares of the reward. -/
lemma toInt_amounts {payment : MultiSendPayment} (hcredit : node.getCredit wtx = .ok nCredit)
    (hdebit : node.getDebit wtx = .ok nDebit) (hreward : nDebit ≤ nCredit)
    (hpercent : ∀ ms ∈ node.vMultiSend, 0 ≤ ms.2.toInt ∧ ms.2.toInt ≤ 100)
    (hpay : node.pay rounds out wtx = .ok payment) :
    payment.vecSend.map (fun s => s.2.toInt) = node.vMultiSend.map fun ms =>
      (nCredit.toInt - nDebit.toInt) * ms.2.toInt / 100 := by
  obtain ⟨vecSend, hshares, hcreated⟩ := ExceptLoop.bind_eq_ok.mp hpay
  obtain ⟨wtxNew, -, rfl⟩ := ExceptLoop.map_eq_ok.mp hcreated
  have hshare : ∀ ms, node.share wtx ms = .ok (CScript.setDestination (node.destination ms.1),
      (nCredit - nDebit) * ms.2.toInt64 / 100) := by
    intro ms
    rw [share, hcredit, hdebit]
    rfl
  have hforall := (ExceptLoop.mapM_eq_ok.mp hshares).imp fun ms s hs =>
    Except.ok.inj ((hshare ms).symm.trans hs)
  rw [← List.forall₂_map_left_iff (f := fun ms : String × Int32 => (CScript.setDestination
    (node.destination ms.1), (nCredit - nDebit) * ms.2.toInt64 / 100)),
    List.forall₂_eq_eq_eq] at hforall
  rw [← hforall, List.map_map]
  exact List.map_congr_left fun ms hms => toInt_share (moneyRange_of_getCredit hcredit)
    (moneyRange_of_getDebit hdebit) hreward (hpercent ms hms)

end Amounts

end MultiSendNode

end HyperStake
