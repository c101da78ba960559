import HyperStake.Library.Int64Group
import HyperStake.Script.Standard
import HyperStake.Wallet.Confirmation

/-!
# Two ways to compute the balance

The RPC `getbalance` adds up the credits of the unspent outputs.  For the account `*` it adds up what
every transaction received, sent and paid as a fee instead, and `GetAccountBalance` does so for one
account.  The accounts add up to the balance of `*` (`sumAccounts_eq`), but this is not always that of
the unspent outputs: an output without an address is counted as the wallet's when the wallet sends it
and is not counted when the wallet receives it, and a coin stake that is not mature yet has spent its
inputs for one of the two only (`agree_iff`).
-/

namespace HyperStake.WalletTx

open ExceptLoop

/-- A wallet with what its balance is computed from. -/
structure Books where
  wallet : CWallet
  chain : ChainState
  crypto : Crypto
  /-- `IsMine` of a destination. -/
  isMineDestination : CTxDestination → Bool
  mapAddressBook : CTxDestination → Option Bytes
  /-- `GetAccountCreditDebit`. -/
  accountCreditDebit : Bytes → Int64

/-- What `GetAmounts` returns. -/
structure Amounts where
  nGeneratedImmature : Int64 := 0
  nGeneratedMature : Int64 := 0
  listReceived : List (CTxDestination × Int64) := []
  listSent : List (CTxDestination × Int64) := []
  nFee : Int64 := 0
  strSentAccount : Bytes := []

/-- What `GetAccountAmounts` returns. -/
structure AccountAmounts where
  nGeneratedImmature : Int64 := 0
  nGeneratedMature : Int64 := 0
  nReceived : Int64 := 0
  nSent : Int64 := 0
  nFee : Int64 := 0

def isCoinBaseOrStake (tx : CTransaction) : Bool := tx.isCoinBase || tx.isCoinStake

namespace Books

variable (books : Books) (wtx : CWalletTx)

/-! ## The unspent outputs -/

/-- The loop of `IsConfirmed`, with a bound on its rounds. -/
def confirmedLoop (mapPrev : UInt256 → Option CMerkleTx) :
    ℕ → List CMerkleTx → Except Fault Bool
  | 0, _ => .error .endless
  | _ + 1, [] => .ok true
  | rounds + 1, ptx :: vWorkQueue =>
    if !books.chain.isFinal ptx then .ok false
    else if books.chain.getDepthInMainChain ptx ≥ 1 then confirmedLoop mapPrev rounds vWorkQueue
    else (books.wallet.isFromMe ptx.toCTransaction).bind fun fFromMe =>
      if !fFromMe then .ok false
      else
        match ptx.vin.mapM fun txin => mapPrev txin.prevout.hash with
        | none => .ok false
        | some prevs => confirmedLoop mapPrev rounds (vWorkQueue ++ prevs)

def isConfirmed (rounds : ℕ) : Except Fault Bool :=
  if !books.chain.isFinal wtx.toCMerkleTx then .ok false
  else if books.chain.getDepthInMainChain wtx.toCMerkleTx ≥ 1 then .ok true
  else (books.wallet.cachedDebit wtx).bind fun (nDebit, _) =>
    if !decide (nDebit > 0) then .ok false
    else
      let mapPrev := fun h => wtx.vtxPrev.reverse.find? fun tx =>
        decide (tx.getHash books.chain.hash = h)
      books.confirmedLoop mapPrev rounds [wtx.toCMerkleTx]

/-- What `GetAvailableCredit` asks of the wallet and the chain. -/
def surroundings : Surroundings :=
  ⟨books.wallet.isMine, books.chain.getBlocksToMaturity wtx.toCMerkleTx⟩

def getBalance (rounds : ℕ) : Except Fault Int64 :=
  books.wallet.mapWallet.toList.foldlM (fun nTotal it =>
    (books.isConfirmed it.2 rounds).bind fun fConfirmed =>
      if fConfirmed then
        (it.2.getAvailableCredit (books.surroundings it.2) true).1.map (nTotal + ·)
      else .ok nTotal) 0

/-! ## What is received and sent -/

/-- `ExtractDestination` of an output. -/
def address (txout : CTxOut) : Option CTxDestination :=
  CScript.extractDestination books.crypto txout.scriptPubKey

def isChange (txout : CTxOut) : Bool :=
  match books.address txout with
  | none => false
  | some address => books.isMineDestination address && (books.mapAddressBook address).isNone

/-- A round of the loop of `GetAmounts`. -/
def amountsOfOutput (nDebit : Int64) (amounts : Amounts) (txout : CTxOut) : Amounts :=
  match books.address txout with
  | none => amounts
  | some address =>
    -- don't report 'change' txouts
    if nDebit > 0 && books.isChange txout then amounts
    else
      let amounts := if nDebit > 0 then
        { amounts with listSent := amounts.listSent ++ [(address, txout.nValue)] } else amounts
      if !books.wallet.isMine txout then amounts
      else if isCoinBaseOrStake wtx.toCTransaction then
        if books.chain.getBlocksToMaturity wtx.toCMerkleTx > 0 then
          { amounts with nGeneratedImmature := amounts.nGeneratedImmature + txout.nValue }
        else { amounts with nGeneratedMature := amounts.nGeneratedMature + txout.nValue }
      else { amounts with listReceived := amounts.listReceived ++ [(address, txout.nValue)] }

def getAmounts : Except Fault Amounts :=
  (books.wallet.cachedDebit wtx).bind fun (nDebit, _) =>
    -- debit > 0 means we signed or sent this transaction
    (if nDebit > 0 then wtx.getValueOut.map (nDebit - ·) else .ok 0).map fun nFee =>
      wtx.vout.foldl (books.amountsOfOutput wtx nDebit)
        { nFee, strSentAccount := wtx.strFromAccount }

/-- What was sent and paid, and what was generated, is counted. -/
def countsSent (nMinDepth : Int32) : Bool :=
  isCoinBaseOrStake wtx.toCTransaction &&
      decide (books.chain.getDepthInMainChain wtx.toCMerkleTx ≥ nMinDepth) &&
      decide (books.chain.getBlocksToMaturity wtx.toCMerkleTx = 0) ||
    !isCoinBaseOrStake wtx.toCTransaction

/-- `getbalance '*'`. -/
def getBalanceAll (nMinDepth : Int32) : Except Fault Int64 :=
  books.wallet.mapWallet.toList.foldlM (fun nBalance it =>
    if !books.chain.isFinal it.2.toCMerkleTx then .ok nBalance
    else (books.getAmounts it.2).map fun all =>
      let nBalance := if books.chain.getDepthInMainChain it.2.toCMerkleTx ≥ nMinDepth then
        all.listReceived.foldl (fun nBalance r => nBalance + r.2) nBalance else nBalance
      if books.countsSent it.2 nMinDepth then
        all.listSent.foldl (fun nBalance r => nBalance - r.2) nBalance - all.nFee
          + all.nGeneratedMature
      else nBalance) 0

/-- The round of the second loop of `GetAccountAmounts`. -/
def receivedBy (strAccount : Bytes) (nReceived : Int64) (r : CTxDestination × Int64) : Int64 :=
  match books.mapAddressBook r.1 with
  | some strName => if strName = strAccount then nReceived + r.2 else nReceived
  | none => if strAccount = [] then nReceived + r.2 else nReceived

def getAccountAmounts (strAccount : Bytes) : Except Fault AccountAmounts :=
  (books.getAmounts wtx).map fun all =>
    let amounts : AccountAmounts :=
      if strAccount = all.strSentAccount then
        { nSent := all.listSent.foldl (fun nSent s => nSent + s.2) 0
          nFee := all.nFee
          nGeneratedImmature := all.nGeneratedImmature
          nGeneratedMature := all.nGeneratedMature }
      else {}
    { amounts with nReceived := all.listReceived.foldl (books.receivedBy strAccount) 0 }

def getAccountBalance (strAccount : Bytes) (nMinDepth : Int32) : Except Fault Int64 :=
  (books.wallet.mapWallet.toList.foldlM (fun nBalance it =>
    if !books.chain.isFinal it.2.toCMerkleTx then .ok nBalance
    else (books.getAccountAmounts it.2 strAccount).map fun amounts =>
      let nBalance := if amounts.nReceived ≠ 0 ∧
          books.chain.getDepthInMainChain it.2.toCMerkleTx ≥ nMinDepth then
        nBalance + amounts.nReceived else nBalance
      if books.countsSent it.2 nMinDepth then
        nBalance + (amounts.nGeneratedMature - amounts.nSent - amounts.nFee)
      else nBalance) 0).map (· + books.accountCreditDebit strAccount)

end Books

/-! ## What a transaction adds to the balance -/

open Int64Group

/-- The value of those outputs that have a property. -/
def valuesOf (p : CTxOut → Bool) (vout : List CTxOut) : Int64 :=
  (vout.map fun txout => if p txout then txout.nValue else 0).sum

namespace Books

variable (books : Books) (wtx : CWalletTx)

/-- What `GetDebit` returns. -/
def debit : Int64 := ((books.wallet.cachedDebit wtx).toOption.map Prod.fst).getD 0

/-- The transaction is not a generation that is still immature. -/
def mature : Bool :=
  !(isCoinBaseOrStake wtx.toCTransaction &&
    decide (books.chain.getBlocksToMaturity wtx.toCMerkleTx > 0))

/-- `GetAmounts` does not pass over an output. -/
def shown (txout : CTxOut) : Bool :=
  (books.address txout).isSome && !(decide (books.debit wtx > 0) && books.isChange txout)

/-- `GetAmounts` counts an output as the wallet's. -/
def counted (txout : CTxOut) : Bool := books.shown wtx txout && books.wallet.isMine txout

/-- The address of an output with its value. -/
def entryOf (txout : CTxOut) : List (CTxDestination × Int64) :=
  ((books.address txout).map fun address => (address, txout.nValue)).toList

/-- `listReceived`. -/
def received : List (CTxDestination × Int64) :=
  wtx.vout.flatMap fun txout =>
    if books.counted wtx txout && !isCoinBaseOrStake wtx.toCTransaction then books.entryOf txout
    else []

/-- `listSent`. -/
def sent : List (CTxDestination × Int64) :=
  wtx.vout.flatMap fun txout =>
    if decide (books.debit wtx > 0) && books.shown wtx txout then books.entryOf txout else []

/-- What `GetAmounts` says of the fee. -/
def fee : Int64 :=
  if books.debit wtx > 0 then books.debit wtx - valuesOf (fun _ => true) wtx.vout else 0

/-- What `GetAmounts` returns when it does not throw. -/
def amounts : Amounts where
  nGeneratedImmature := valuesOf (fun txout => books.counted wtx txout &&
    isCoinBaseOrStake wtx.toCTransaction && !books.mature wtx) wtx.vout
  nGeneratedMature := valuesOf (fun txout => books.counted wtx txout &&
    isCoinBaseOrStake wtx.toCTransaction && books.mature wtx) wtx.vout
  listReceived := books.received wtx
  listSent := books.sent wtx
  nFee := books.fee wtx
  strSentAccount := wtx.strFromAccount

/-- The value of the outputs of others that the wallet counts as its own when it sends them: those
without an address, and those that look like change. -/
def countedForeign : Int64 :=
  if books.debit wtx > 0 then
    valuesOf (fun txout => !books.shown wtx txout && !books.wallet.isMine txout) wtx.vout
  else 0

/-- The value of the own outputs without an address that the wallet does not count when it receives
them. -/
def missedOwn : Int64 :=
  if books.debit wtx > 0 then 0
  else valuesOf (fun txout => books.wallet.isMine txout && (books.address txout).isNone) wtx.vout

/-- What a transaction adds to the balance of `*`. -/
def contribution : Int64 :=
  if books.mature wtx then
    valuesOf books.wallet.isMine wtx.vout + books.countedForeign wtx - books.missedOwn wtx -
      (if books.debit wtx > 0 then books.debit wtx else 0)
  else 0

end Books

section Contribution

variable {books : Books} {wtx : CWalletTx} {amounts : Amounts}

lemma valuesOf_cons (p : CTxOut → Bool) (txout : CTxOut) (vout : List CTxOut) :
    valuesOf p (txout :: vout) = (if p txout then txout.nValue else 0) + valuesOf p vout :=
  List.sum_cons

lemma valuesOf_false (vout : List CTxOut) : valuesOf (fun _ => false) vout = 0 := by
  simp [valuesOf]

/-- A round of the loop of `GetAmounts`. -/
lemma amountsOfOutput_eq (txout : CTxOut) :
    books.amountsOfOutput wtx (books.debit wtx) amounts txout =
      { amounts with
        nGeneratedImmature := amounts.nGeneratedImmature +
          (if books.counted wtx txout && isCoinBaseOrStake wtx.toCTransaction && !books.mature wtx
            then txout.nValue else 0)
        nGeneratedMature := amounts.nGeneratedMature +
          (if books.counted wtx txout && isCoinBaseOrStake wtx.toCTransaction && books.mature wtx
            then txout.nValue else 0)
        listReceived := amounts.listReceived ++
          (if books.counted wtx txout && !isCoinBaseOrStake wtx.toCTransaction then
            books.entryOf txout else [])
        listSent := amounts.listSent ++
          (if decide (books.debit wtx > 0) && books.shown wtx txout then books.entryOf txout
            else []) } := by
  unfold Books.amountsOfOutput Books.counted Books.shown Books.entryOf Books.mature
  cases haddress : books.address txout with
  | none => simp
  | some address =>
    -- a case for each answer that the round depends on
    by_cases hdebit : books.debit wtx > 0 <;>
      by_cases hmaturity : books.chain.getBlocksToMaturity wtx.toCMerkleTx > 0 <;>
      cases books.isChange txout <;> cases books.wallet.isMine txout <;>
      cases isCoinBaseOrStake wtx.toCTransaction <;> simp [hdebit, hmaturity]

/-- The loop of `GetAmounts`. -/
lemma foldl_amountsOfOutput (vout : List CTxOut) :
    vout.foldl (books.amountsOfOutput wtx (books.debit wtx)) amounts =
      { amounts with
        nGeneratedImmature := amounts.nGeneratedImmature + valuesOf (fun txout =>
          books.counted wtx txout && isCoinBaseOrStake wtx.toCTransaction && !books.mature wtx) vout
        nGeneratedMature := amounts.nGeneratedMature + valuesOf (fun txout =>
          books.counted wtx txout && isCoinBaseOrStake wtx.toCTransaction && books.mature wtx) vout
        listReceived := amounts.listReceived ++ vout.flatMap fun txout =>
          if books.counted wtx txout && !isCoinBaseOrStake wtx.toCTransaction then
            books.entryOf txout else []
        listSent := amounts.listSent ++ vout.flatMap fun txout =>
          if decide (books.debit wtx > 0) && books.shown wtx txout then books.entryOf txout
          else [] } := by
  induction vout generalizing amounts with
  | nil => simp [valuesOf]
  | cons txout vout ih =>
    rw [List.foldl_cons, ih, amountsOfOutput_eq]
    simp only [valuesOf_cons, List.flatMap_cons, add_assoc, List.append_assoc]

/-- The loop of `GetValueOut` adds up the values. -/
lemma getValueOutLoop_eq_sum {nValueOut n : Int64} {vout : List CTxOut}
    (h : CTransaction.getValueOutLoop nValueOut vout = .ok n) :
    n = nValueOut + valuesOf (fun _ => true) vout := by
  induction vout generalizing nValueOut with
  | nil =>
    cases h
    exact (add_zero _).symm
  | cons txout vout ih =>
    rw [CTransaction.getValueOutLoop] at h
    split_ifs at h
    rw [ih h, valuesOf_cons, if_pos rfl, add_assoc]

variable {r : Int64 × CWalletTx}

/-- `GetAmounts`, when the debit and the value of the outputs are in range. -/
lemma getAmounts_eq {nValueOut : Int64}
    (hdebit : books.wallet.cachedDebit wtx = .ok r) (hout : wtx.getValueOut = .ok nValueOut) :
    books.getAmounts wtx = .ok (books.amounts wtx) := by
  have hr : r.1 = books.debit wtx := by
    rw [Books.debit, hdebit]
    rfl
  have hvalue : nValueOut = valuesOf (fun _ => true) wtx.vout := by
    rw [getValueOutLoop_eq_sum hout, zero_add]
  have hfee : (if r.1 > 0 then wtx.getValueOut.map (r.1 - ·) else .ok 0) =
      (.ok (books.fee wtx) : Except Fault Int64) := by
    rw [hout, hr, Books.fee, hvalue]
    split <;> rfl
  unfold Books.getAmounts
  rw [hdebit]
  change (if r.1 > 0 then wtx.getValueOut.map (r.1 - ·) else .ok 0).map _ = _
  rw [hfee, hr]
  refine congrArg Except.ok ((foldl_amountsOfOutput _).trans ?_)
  simp only [zero_add, List.nil_append]
  rfl

/-- The values of some outputs with their addresses. -/
lemma sum_entries {p : CTxOut → Bool} (hp : ∀ txout, p txout = true → books.address txout ≠ none)
    (vout : List CTxOut) :
    ((vout.flatMap fun txout => if p txout then books.entryOf txout else []).map Prod.snd).sum =
      valuesOf p vout := by
  induction vout with
  | nil => rfl
  | cons txout vout ih =>
    rw [List.flatMap_cons, List.map_append, List.sum_append, ih, valuesOf_cons]
    congr 1
    split_ifs with hcounted
    · obtain ⟨address, haddress⟩ := Option.ne_none_iff_exists'.mp (hp txout hcounted)
      simp [Books.entryOf, haddress]
    · rfl

lemma shown_address {txout : CTxOut} (h : books.shown wtx txout = true) :
    books.address txout ≠ none := by
  rw [Books.shown, Bool.and_eq_true, Option.isSome_iff_ne_none] at h
  exact h.1

lemma valuesOf_add {p q r s : CTxOut → Bool}
    (h : ∀ txout, (if p txout then txout.nValue else 0) + (if q txout then txout.nValue else 0) =
      (if r txout then txout.nValue else 0) + (if s txout then txout.nValue else 0))
    (vout : List CTxOut) :
    valuesOf p vout + valuesOf q vout = valuesOf r vout + valuesOf s vout := by
  rw [valuesOf, valuesOf, valuesOf, valuesOf, ← List.sum_map_add, ← List.sum_map_add]
  exact congrArg List.sum (List.map_congr_left fun txout _ => h txout)

/-- What is received, generated, sent and paid is the value of the own outputs without what is spent,
but for the outputs that are not counted as they should be. -/
lemma amounts_contribution (hmature : books.mature wtx = true) :
    ((books.received wtx).map Prod.snd).sum + (books.amounts wtx).nGeneratedMature -
        ((books.sent wtx).map Prod.snd).sum - books.fee wtx =
      books.contribution wtx := by
  have hreceived : ((books.received wtx).map Prod.snd).sum =
      valuesOf (fun txout => books.counted wtx txout &&
        !isCoinBaseOrStake wtx.toCTransaction) wtx.vout := by
    refine sum_entries (fun txout hcounted => ?_) wtx.vout
    rw [Books.counted, Bool.and_eq_true, Bool.and_eq_true] at hcounted
    exact shown_address hcounted.1.1
  have hsent : ((books.sent wtx).map Prod.snd).sum =
      valuesOf (fun txout => decide (books.debit wtx > 0) && books.shown wtx txout) wtx.vout := by
    refine sum_entries (fun txout hshown => ?_) wtx.vout
    exact shown_address (Bool.and_eq_true_iff.mp hshown).2
  -- generated or not, what is counted is counted once
  have hcounted : ((books.received wtx).map Prod.snd).sum + (books.amounts wtx).nGeneratedMature =
      valuesOf (books.counted wtx) wtx.vout := by
    have hboth := @valuesOf_add (fun txout => books.counted wtx txout &&
        !isCoinBaseOrStake wtx.toCTransaction)
      (fun txout => books.counted wtx txout && isCoinBaseOrStake wtx.toCTransaction &&
        books.mature wtx) (books.counted wtx) (fun _ => false)
      (fun txout => by
        rw [hmature]
        cases books.counted wtx txout <;> cases isCoinBaseOrStake wtx.toCTransaction <;> simp)
      wtx.vout
    rwa [valuesOf_false, add_zero, ← hreceived] at hboth
  rw [hcounted, hsent, Books.contribution, if_pos hmature, Books.fee, Books.countedForeign,
    Books.missedOwn]
  by_cases hdebit : books.debit wtx > 0
  · simp only [hdebit, if_true, decide_true, Bool.true_and]
    have hkept := @valuesOf_add (books.counted wtx) (fun _ => true) (books.shown wtx)
      (fun txout => !books.shown wtx txout || books.wallet.isMine txout)
      (fun txout => by
        rw [Books.counted]
        cases books.shown wtx txout <;> cases books.wallet.isMine txout <;> simp) wtx.vout
    have hforeign := @valuesOf_add
      (fun txout => !books.shown wtx txout || books.wallet.isMine txout) (fun _ => false)
      books.wallet.isMine (fun txout => !books.shown wtx txout && !books.wallet.isMine txout)
      (fun txout => by
        cases books.shown wtx txout <;> cases books.wallet.isMine txout <;> simp) wtx.vout
    rw [valuesOf_false, add_zero] at hforeign
    rw [← hforeign, eq_sub_of_add_eq hkept]
    abel
  · simp only [hdebit, if_false, decide_false, Bool.false_and, valuesOf_false]
    have hmissed := @valuesOf_add (books.counted wtx)
      (fun txout => books.wallet.isMine txout && (books.address txout).isNone)
      books.wallet.isMine (fun _ => false)
      (fun txout => by
        rw [Books.counted, Books.shown, decide_eq_false hdebit]
        cases books.address txout <;> cases books.wallet.isMine txout <;> simp) wtx.vout
    rw [valuesOf_false, add_zero] at hmissed
    rw [eq_sub_of_add_eq hmissed]
    abel

/-- What is counted of an immature generation is nothing. -/
lemma received_of_immature (himmature : books.mature wtx = false) : books.received wtx = [] := by
  rw [Books.mature, Bool.not_eq_false', Bool.and_eq_true] at himmature
  rw [Books.received, himmature.1]
  simp

/-- Whether what was sent is counted, of a transaction in the main chain. -/
lemma countsSent_eq_mature (hdepth : books.chain.getDepthInMainChain wtx.toCMerkleTx ≥ 1) :
    books.countsSent wtx 1 = books.mature wtx := by
  have hnonneg : ¬ books.chain.getBlocksToMaturity wtx.toCMerkleTx > 0 →
      books.chain.getBlocksToMaturity wtx.toCMerkleTx = 0 := by
    unfold ChainState.getBlocksToMaturity
    dsimp only
    split_ifs with hgenerated hpositive
    · exact fun _ => rfl
    · exact fun hnot => absurd hpositive hnot
    · exact fun _ => rfl
  rw [Books.countsSent, Books.mature, decide_eq_true hdepth, Bool.and_true]
  by_cases hmaturity : books.chain.getBlocksToMaturity wtx.toCMerkleTx > 0
  · have hne : books.chain.getBlocksToMaturity wtx.toCMerkleTx ≠ 0 := fun hzero => by
      rw [hzero] at hmaturity
      exact absurd hmaturity (by decide)
    rw [decide_eq_false hne, decide_eq_true hmaturity, Bool.and_false, Bool.false_or, Bool.and_true]
  · rw [decide_eq_true (hnonneg hmaturity), decide_eq_false hmaturity, Bool.and_true,
      Bool.and_false, Bool.or_not_self]
    rfl

/-- A round of the loop of `getbalance '*'`. -/
lemma getBalanceAll_round {nValueOut nBalance : Int64}
    (hdepth : books.chain.getDepthInMainChain wtx.toCMerkleTx ≥ 1)
    (hdebit : books.wallet.cachedDebit wtx = .ok r) (hout : wtx.getValueOut = .ok nValueOut) :
    ((books.getAmounts wtx).map fun all =>
      let nBalance := if books.chain.getDepthInMainChain wtx.toCMerkleTx ≥ 1 then
        all.listReceived.foldl (fun nBalance r => nBalance + r.2) nBalance else nBalance
      if books.countsSent wtx 1 then
        all.listSent.foldl (fun nBalance r => nBalance - r.2) nBalance - all.nFee
          + all.nGeneratedMature
      else nBalance) = .ok (nBalance + books.contribution wtx) := by
  rw [getAmounts_eq hdebit hout]
  refine congrArg Except.ok ?_
  dsimp only
  rw [if_pos hdepth, countsSent_eq_mature hdepth, foldl_add_eq_sum]
  cases hmature : books.mature wtx with
  | true =>
    rw [if_pos rfl, foldl_sub_eq_sum, ← amounts_contribution hmature]
    change nBalance + ((books.received wtx).map Prod.snd).sum - ((books.sent wtx).map Prod.snd).sum -
      books.fee wtx + (books.amounts wtx).nGeneratedMature = _
    abel
  | false =>
    rw [if_neg Bool.false_ne_true, Books.contribution, hmature, if_neg Bool.false_ne_true]
    change nBalance + ((books.received wtx).map Prod.snd).sum = _
    rw [received_of_immature hmature]
    rfl

end Contribution

/-! ## What a transaction adds to the balance of the unspent outputs -/

section Credit

open Int64Sum

variable {books : Books} {wtx : CWalletTx}

/-- The value of those outputs, with their numbers, that have a property. -/
def valuesAt (p : CTxOut × ℕ → Bool) (outs : List (CTxOut × ℕ)) : Int64 :=
  (outs.map fun out => if p out then out.1.nValue else 0).sum

lemma valuesAt_cons (p : CTxOut × ℕ → Bool) (out : CTxOut × ℕ) (outs : List (CTxOut × ℕ)) :
    valuesAt p (out :: outs) = (if p out then out.1.nValue else 0) + valuesAt p outs :=
  List.sum_cons

/-- The output is the wallet's and is not marked as spent. -/
def Books.unspent (books : Books) (wtx : CWalletTx) (out : CTxOut × ℕ) : Bool :=
  books.wallet.isMine out.1 && !wtx.vfSpent.getD out.2 false

/-- The output is the wallet's and is marked as spent. -/
def Books.spent (books : Books) (wtx : CWalletTx) (out : CTxOut × ℕ) : Bool :=
  books.wallet.isMine out.1 && wtx.vfSpent.getD out.2 false

/-- The loop of `GetAvailableCredit`, when all values are in range. -/
lemma availableCreditLoop_eq {outs : List (CTxOut × ℕ)} {nCredit : Int64}
    (hlt : ∀ out ∈ outs, out.2 < wtx.vout.length)
    (hrange : ∀ out ∈ outs, moneyRange out.1.nValue = true) (hcredit : 0 ≤ nCredit.toInt)
    (htotal : nCredit.toInt + total (outs.map fun out => out.1.nValue) ≤ MAX_MONEY.toInt) :
    wtx.availableCreditLoop (books.surroundings wtx) nCredit outs =
      .ok (nCredit + valuesAt (books.unspent wtx) outs) := by
  induction outs generalizing nCredit with
  | nil => exact congrArg Except.ok (add_zero nCredit).symm
  | cons out outs ih =>
    obtain ⟨txout, n⟩ := out
    have hmax : MAX_MONEY.toInt = 60000000000000 := by decide
    have hn : n < wtx.vout.length := hlt _ List.mem_cons_self
    have hvalue := CTransaction.moneyRange_iff.mp (hrange _ List.mem_cons_self)
    have hrest : 0 ≤ total (outs.map fun out => out.1.nValue) := by
      refine total_nonneg fun v hv => ?_
      obtain ⟨out, hout, rfl⟩ := List.mem_map.mp hv
      exact (CTransaction.moneyRange_iff.mp (hrange out (List.mem_cons_of_mem _ hout))).1
    rw [List.map_cons, total_cons] at htotal
    dsimp only at hvalue htotal
    have hih : ∀ nCredit : Int64, 0 ≤ nCredit.toInt →
        nCredit.toInt + total (outs.map fun out => out.1.nValue) ≤ MAX_MONEY.toInt →
        wtx.availableCreditLoop (books.surroundings wtx) nCredit outs =
          .ok (nCredit + valuesAt (books.unspent wtx) outs) := fun nCredit hcredit htotal =>
      ih (fun out hout => hlt out (List.mem_cons_of_mem _ hout))
        (fun out hout => hrange out (List.mem_cons_of_mem _ hout)) hcredit htotal
    have hspent : wtx.isSpent n = .ok (wtx.vfSpent.getD n false) := if_neg (not_le.mpr hn)
    have hcreditOf : (books.surroundings wtx).getCredit txout =
        .ok (if books.wallet.isMine txout then txout.nValue else 0) := by
      rw [Surroundings.getCredit, hrange _ List.mem_cons_self]
      rfl
    rw [CWalletTx.availableCreditLoop, hspent, hcreditOf, valuesAt_cons]
    change (if wtx.vfSpent.getD n false = true then _ else _) = _
    by_cases hflag : wtx.vfSpent.getD n false = true
    · have hnot : books.unspent wtx (txout, n) = false := by
        rw [Books.unspent, hflag, Bool.not_true, Bool.and_false]
      rw [if_pos hflag, hih nCredit hcredit (by omega), hnot, if_neg Bool.false_ne_true, zero_add]
    · have hunspent : books.unspent wtx (txout, n) = books.wallet.isMine txout := by
        rw [Books.unspent, (Bool.not_eq_true _).mp hflag, Bool.not_false, Bool.and_true]
      rw [if_neg hflag, hunspent, ← add_assoc]
      obtain ⟨c, hc⟩ : ∃ c, c = if books.wallet.isMine txout = true then txout.nValue else 0 :=
        ⟨_, rfl⟩
      have hcRange : 0 ≤ c.toInt ∧ c.toInt ≤ txout.nValue.toInt := by
        rw [hc]
        split_ifs
        · exact ⟨hvalue.1, le_rfl⟩
        · exact ⟨le_rfl, hvalue.1⟩
      have hsum : (nCredit + c).toInt = nCredit.toInt + c.toInt :=
        toInt_add ⟨by omega, by omega⟩
      have hmoney : moneyRange (nCredit + c) = true :=
        CTransaction.moneyRange_iff.mpr ⟨by omega, by omega⟩
      rw [← hc]
      change (if (!moneyRange (nCredit + c)) = true then _ else _) = _
      rw [hmoney, if_neg (by decide)]
      exact hih _ (by omega) (by omega)

/-- `GetAvailableCredit` of a mature transaction, when what it has cached is right. -/
lemma getAvailableCredit_eq {nValueOut : Int64} (hout : wtx.getValueOut = .ok nValueOut)
    (hcoherent : wtx.Coherent (books.surroundings wtx)) :
    (wtx.getAvailableCredit (books.surroundings wtx) true).1 = .ok
      (if books.mature wtx then valuesAt (books.unspent wtx) wtx.vout.zipIdx else 0) := by
  obtain ⟨hrange, hmoney, htotal⟩ := CTransaction.getValueOut_eq_ok hout
  have hcredit : wtx.availableCredit (books.surroundings wtx) =
      .ok (valuesAt (books.unspent wtx) wtx.vout.zipIdx) := by
    have hzero : (0 : Int64).toInt = 0 := rfl
    have hvalues : wtx.vout.zipIdx.map (fun out => out.1.nValue) = wtx.vout.map CTxOut.nValue := by
      conv_rhs => rw [← @List.zipIdx_map_fst _ 0 wtx.vout, List.map_map]
      rfl
    rw [CWalletTx.availableCredit, availableCreditLoop_eq _ _ hzero.ge _, zero_add]
    · intro out hmem
      have hlt := List.snd_lt_of_mem_zipIdx hmem
      omega
    · exact fun out hmem => hrange _ (List.fst_mem_of_mem_zipIdx hmem)
    · rw [hvalues, hzero, zero_add]
      exact htotal.symm.le.trans (CTransaction.moneyRange_iff.mp hmoney).2
  have himmature : ((wtx.isCoinBase || wtx.isCoinStake) &&
      decide (0 < (books.surroundings wtx).blocksToMaturity)) = !books.mature wtx := by
    rw [Books.mature, Bool.not_not]
    rfl
  unfold CWalletTx.getAvailableCredit
  rw [himmature]
  cases hmature : books.mature wtx with
  | false => rfl
  | true =>
    rw [Bool.not_true, if_neg Bool.false_ne_true, if_pos rfl, Bool.true_and]
    by_cases hcached : wtx.fAvailableCreditCached = true
    · rw [if_pos hcached]
      exact (hcoherent hcached).symm.trans hcredit
    · rw [if_neg hcached, hcredit]

/-- Own outputs are spent or not. -/
lemma valuesOf_isMine :
    valuesOf books.wallet.isMine wtx.vout =
      valuesAt (books.spent wtx) wtx.vout.zipIdx + valuesAt (books.unspent wtx) wtx.vout.zipIdx := by
  have hfst : wtx.vout = wtx.vout.zipIdx.map Prod.fst := (List.zipIdx_map_fst 0 wtx.vout).symm
  rw [valuesOf, valuesAt, valuesAt, ← List.sum_map_add]
  conv_lhs => rw [hfst]
  rw [List.map_map]
  refine congrArg List.sum (List.map_congr_left fun out _ => ?_)
  rw [Function.comp_apply, Books.spent, Books.unspent]
  cases books.wallet.isMine out.1 <;> cases wtx.vfSpent.getD out.2 false <;> simp

end Credit

/-! ## Spent outputs and debits -/

namespace Books

variable (books : Books)

/-- The value of an own output of a mature transaction. -/
def matureValue (coin : UInt256 × ℕ) : Option Int64 :=
  (books.wallet.mapWallet[coin.1]?.filter books.mature).bind fun wtx =>
    (wtx.vout[coin.2]?.filter books.wallet.isMine).map CTxOut.nValue

/-- What a transaction spends of mature transactions. -/
def matureDebit (wtx : CWalletTx) : Int64 :=
  (wtx.vin.map fun txin => (books.matureValue (spends txin)).getD 0).sum

/-- The outputs that the transactions of the wallet claim. -/
def claims : List (UInt256 × ℕ) :=
  books.wallet.mapWallet.toList.flatMap fun it => it.2.vin.map spends

/-- The own outputs of mature transactions that are marked as spent. -/
def spentCoins : List (UInt256 × ℕ) :=
  books.wallet.mapWallet.toList.flatMap fun it =>
    if books.mature it.2 then
      (it.2.vout.zipIdx.filter (books.spent it.2)).map fun out => (it.1, out.2)
    else []

/-- Every transaction of the wallet is final and in the main chain, and an own output is marked as
spent if and only if a transaction of the wallet spends it. -/
structure Settled : Prop where
  isFinal : ∀ (h : UInt256) (wtx : CWalletTx), books.wallet.mapWallet[h]? = some wtx →
    books.chain.isFinal wtx.toCMerkleTx = true
  depth : ∀ (h : UInt256) (wtx : CWalletTx), books.wallet.mapWallet[h]? = some wtx →
    books.chain.getDepthInMainChain wtx.toCMerkleTx ≥ 1
  isSpent_iff : ∀ (h : UInt256) (wtx : CWalletTx) (n : ℕ) (txout : CTxOut),
    books.wallet.mapWallet[h]? = some wtx → wtx.vout[n]? = some txout →
    books.wallet.isMine txout = true →
    (wtx.isSpent n = .ok true ↔
      ∃ (k : UInt256) (spender : CWalletTx), books.wallet.mapWallet[k]? = some spender ∧
        (h, n) ∈ spender.vin.map spends)

/-- What the main chain promises of its transactions, that no output is spent twice and that the
values are in range, and what the wallet promises of the credit that it caches. -/
structure Sound : Prop where
  nodup_claims : (books.claims.filter fun coin =>
    (books.wallet.ownOutput coin.1 coin.2).isSome).Nodup
  getValueOut : ∀ (h : UInt256) (wtx : CWalletTx), books.wallet.mapWallet[h]? = some wtx →
    ∃ n, wtx.getValueOut = .ok n
  cachedDebit : ∀ (h : UInt256) (wtx : CWalletTx), books.wallet.mapWallet[h]? = some wtx →
    ∃ r, books.wallet.cachedDebit wtx = .ok r
  coherent : ∀ (h : UInt256) (wtx : CWalletTx), books.wallet.mapWallet[h]? = some wtx →
    wtx.Coherent (books.surroundings wtx)

end Books

section Spent

variable {books : Books}

lemma matureValue_eq_some {h : UInt256} {n : ℕ} {nValue : Int64} :
    books.matureValue (h, n) = some nValue ↔ ∃ (wtx : CWalletTx) (txout : CTxOut),
      books.wallet.mapWallet[h]? = some wtx ∧ books.mature wtx = true ∧
      wtx.vout[n]? = some txout ∧ books.wallet.isMine txout = true ∧ txout.nValue = nValue := by
  rw [Books.matureValue, Option.bind_eq_some_iff]
  simp only [Option.filter_eq_some_iff, Option.map_eq_some_iff]
  constructor
  · rintro ⟨wtx, ⟨hget, hmature⟩, txout, ⟨hout, hmine⟩, hvalue⟩
    exact ⟨wtx, txout, hget, hmature, hout, hmine, hvalue⟩
  · rintro ⟨wtx, txout, hget, hmature, hout, hmine, hvalue⟩
    exact ⟨wtx, ⟨hget, hmature⟩, txout, ⟨hout, hmine⟩, hvalue⟩

lemma mem_claims {coin : UInt256 × ℕ} :
    coin ∈ books.claims ↔ ∃ (k : UInt256) (spender : CWalletTx),
      books.wallet.mapWallet[k]? = some spender ∧ coin ∈ spender.vin.map spends := by
  rw [Books.claims, List.mem_flatMap]
  constructor
  · rintro ⟨⟨k, spender⟩, hmem, hclaims⟩
    exact ⟨k, spender, Std.ExtTreeMap.mem_toList_iff_getElem?_eq_some.mp hmem, hclaims⟩
  · rintro ⟨k, spender, hget, hclaims⟩
    exact ⟨(k, spender), Std.ExtTreeMap.mem_toList_iff_getElem?_eq_some.mpr hget, hclaims⟩

lemma mem_spentCoins {h : UInt256} {n : ℕ} :
    (h, n) ∈ books.spentCoins ↔ ∃ (wtx : CWalletTx) (txout : CTxOut),
      books.wallet.mapWallet[h]? = some wtx ∧ books.mature wtx = true ∧
      wtx.vout[n]? = some txout ∧ books.spent wtx (txout, n) = true := by
  rw [Books.spentCoins, List.mem_flatMap]
  constructor
  · rintro ⟨⟨k, wtx⟩, hmem, hcoin⟩
    dsimp only at hcoin
    split_ifs at hcoin with hmature
    · obtain ⟨⟨txout, i⟩, hout, heq⟩ := List.mem_map.mp hcoin
      obtain ⟨rfl, rfl⟩ := Prod.mk.inj heq
      obtain ⟨hget, hspent⟩ := List.mem_filter.mp hout
      exact ⟨wtx, txout, Std.ExtTreeMap.mem_toList_iff_getElem?_eq_some.mp hmem, hmature,
        List.mem_zipIdx_iff_getElem?.mp hget, hspent⟩
    · exact absurd hcoin List.not_mem_nil
  · rintro ⟨wtx, txout, hget, hmature, hout, hspent⟩
    refine ⟨(h, wtx), Std.ExtTreeMap.mem_toList_iff_getElem?_eq_some.mpr hget, ?_⟩
    dsimp only
    rw [if_pos hmature]
    refine List.mem_map.mpr ⟨(txout, n), List.mem_filter.mpr ⟨?_, hspent⟩, rfl⟩
    exact List.mem_zipIdx_iff_getElem?.mpr hout

/-- The outputs that are marked as spent are those that are claimed. -/
lemma mem_spentCoins_iff (hsettled : books.Settled) (coin : UInt256 × ℕ) :
    coin ∈ books.spentCoins ↔
      coin ∈ books.claims.filter fun coin => (books.matureValue coin).isSome := by
  obtain ⟨h, n⟩ := coin
  have hflag : ∀ (wtx : CWalletTx) (txout : CTxOut), wtx.vout[n]? = some txout →
      (wtx.isSpent n = .ok true ↔ wtx.vfSpent.getD n false = true) := by
    intro wtx txout hout
    have hlt : n < wtx.vout.length := (List.getElem?_eq_some_iff.mp hout).1
    rw [CWalletTx.isSpent, if_neg (not_le.mpr hlt), Except.ok.injEq]
  rw [mem_spentCoins, List.mem_filter, mem_claims, Option.isSome_iff_exists]
  constructor
  · rintro ⟨wtx, txout, hget, hmature, hout, hspent⟩
    obtain ⟨hmine, hmarked⟩ := Bool.and_eq_true_iff.mp hspent
    have hclaimed := (hsettled.isSpent_iff h wtx n txout hget hout hmine).mp
      ((hflag wtx txout hout).mpr hmarked)
    exact ⟨hclaimed, txout.nValue,
      matureValue_eq_some.mpr ⟨wtx, txout, hget, hmature, hout, hmine, rfl⟩⟩
  · rintro ⟨hclaimed, nValue, hvalue⟩
    obtain ⟨wtx, txout, hget, hmature, hout, hmine, -⟩ := matureValue_eq_some.mp hvalue
    have hmarked := (hflag wtx txout hout).mp
      ((hsettled.isSpent_iff h wtx n txout hget hout hmine).mpr hclaimed)
    exact ⟨wtx, txout, hget, hmature, hout, Bool.and_eq_true_iff.mpr ⟨hmine, hmarked⟩⟩

lemma nodup_spentCoins : books.spentCoins.Nodup := by
  have hkeys := MapLoop.nodup_map_fst_toList books.wallet.mapWallet
  rw [List.Nodup, List.pairwise_map] at hkeys
  rw [Books.spentCoins, List.nodup_flatMap]
  refine ⟨fun it _ => ?_, hkeys.imp fun {it it'} hne => ?_⟩
  · split_ifs
    · have hnumbers : ((it.2.vout.zipIdx.filter (books.spent it.2)).map Prod.snd).Nodup := by
        refine List.Nodup.sublist (List.filter_sublist.map Prod.snd) ?_
        rw [List.zipIdx_map_snd]
        exact List.nodup_range'
      have hpair := hnumbers.map (f := fun n => (it.1, n)) fun n n' heq => (Prod.mk.inj heq).2
      rwa [List.map_map] at hpair
    · exact List.nodup_nil
  · -- the outputs of different transactions are different
    intro coin hcoin hcoin'
    have hfirst : ∀ it : UInt256 × CWalletTx, coin ∈ (if books.mature it.2 = true then
        (it.2.vout.zipIdx.filter (books.spent it.2)).map fun out => (it.1, out.2) else []) →
        it.1 = coin.1 := by
      intro it hmem
      split_ifs at hmem
      · obtain ⟨out, -, rfl⟩ := List.mem_map.mp hmem
        rfl
      · exact absurd hmem List.not_mem_nil
    exact hne ((hfirst it hcoin).trans (hfirst it' hcoin').symm)

/-- The own outputs of mature transactions that are spent are worth what is spent of them. -/
lemma sum_spent_eq (hsettled : books.Settled) (hsound : books.Sound) :
    (books.wallet.mapWallet.toList.map fun it =>
        if books.mature it.2 then valuesAt (books.spent it.2) it.2.vout.zipIdx else 0).sum =
      (books.wallet.mapWallet.toList.map fun it => books.matureDebit it.2).sum := by
  let value : UInt256 × ℕ → Int64 := fun coin => (books.matureValue coin).getD 0
  have hspent : (books.spentCoins.map value).sum = (books.wallet.mapWallet.toList.map fun it =>
      if books.mature it.2 then valuesAt (books.spent it.2) it.2.vout.zipIdx else 0).sum := by
    rw [Books.spentCoins, sum_flatMap]
    refine congrArg List.sum (List.map_congr_left fun it hmem => ?_)
    have hget := Std.ExtTreeMap.mem_toList_iff_getElem?_eq_some.mp hmem
    split_ifs with hmature
    · have hmarks : valuesAt (books.spent it.2) it.2.vout.zipIdx =
          ((it.2.vout.zipIdx.filter (books.spent it.2)).map fun out =>
            if books.spent it.2 out then out.1.nValue else 0).sum :=
        (sum_filter (fun out hnot => if_neg (by rw [hnot]; decide)) _).symm
      rw [List.map_map, hmarks]
      refine congrArg List.sum (List.map_congr_left fun out hout => ?_)
      obtain ⟨hzip, hmarked⟩ := List.mem_filter.mp hout
      have hvalue : books.matureValue (it.1, out.2) = some out.1.nValue :=
        matureValue_eq_some.mpr ⟨it.2, out.1, hget, hmature, List.mem_zipIdx_iff_getElem?.mp hzip,
          (Bool.and_eq_true_iff.mp hmarked).1, rfl⟩
      rw [if_pos hmarked, Function.comp_apply]
      exact congrArg (·.getD 0) hvalue
    · rfl
  have hclaimed : ((books.claims.filter fun coin => (books.matureValue coin).isSome).map value).sum =
      (books.wallet.mapWallet.toList.map fun it => books.matureDebit it.2).sum := by
    rw [sum_filter fun coin hnone => by
      rw [Option.isSome_eq_false_iff, Option.isNone_iff_eq_none] at hnone
      exact congrArg (·.getD 0) hnone, Books.claims, sum_flatMap]
    refine congrArg List.sum (List.map_congr_left fun it _ => ?_)
    rw [List.map_map]
    rfl
  have hnodup : (books.claims.filter fun coin => (books.matureValue coin).isSome).Nodup := by
    have hown : ∀ coin, (books.matureValue coin).isSome = true →
        (books.wallet.ownOutput coin.1 coin.2).isSome = true := by
      rintro ⟨h, n⟩ hsome
      obtain ⟨nValue, hvalue⟩ := Option.isSome_iff_exists.mp hsome
      obtain ⟨wtx, txout, hget, -, hout, hmine, -⟩ := matureValue_eq_some.mp hvalue
      rw [CWallet.ownOutput, hget, Option.bind_some, hout]
      simp [Option.filter, hmine]
    have hsub := hsound.nodup_claims.filter fun coin => (books.matureValue coin).isSome
    rw [List.filter_filter] at hsub
    have hsame : (books.claims.filter fun coin => (books.matureValue coin).isSome) =
        books.claims.filter fun coin => (books.matureValue coin).isSome &&
          (books.wallet.ownOutput coin.1 coin.2).isSome := by
      refine List.filter_congr fun coin _ => ?_
      cases hsome : (books.matureValue coin).isSome with
      | false => rfl
      | true => rw [hown coin hsome, Bool.true_and]
    rwa [hsame]
  rw [← hspent, ← hclaimed]
  exact sum_eq_of_mem_iff nodup_spentCoins hnodup (mem_spentCoins_iff hsettled)

end Spent

/-! ## The two balances -/

namespace Books

variable (books : Books)

/-- The sum of something over those transactions of the wallet that have a property. -/
def sumOver (p : CWalletTx → Bool) (f : CWalletTx → Int64) : Int64 :=
  (books.wallet.mapWallet.toList.map fun it => if p it.2 then f it.2 else 0).sum

/-- What a mature transaction is debited for that is not an output of a mature transaction. -/
def otherDebit (wtx : CWalletTx) : Int64 :=
  (if books.debit wtx > 0 then books.debit wtx else 0) - books.matureDebit wtx

end Books

section Balances

variable {books : Books}

lemma sumOver_add (p : CWalletTx → Bool) (f g : CWalletTx → Int64) :
    books.sumOver p (fun wtx => f wtx + g wtx) = books.sumOver p f + books.sumOver p g := by
  rw [Books.sumOver, Books.sumOver, Books.sumOver, ← List.sum_map_add]
  refine congrArg List.sum (List.map_congr_left fun it _ => ?_)
  split_ifs
  · rfl
  · exact (add_zero 0).symm

/-- The balance of the unspent outputs. -/
lemma getBalance_eq (hsettled : books.Settled) (hsound : books.Sound) (rounds : ℕ) :
    books.getBalance rounds = .ok (books.sumOver books.mature fun wtx =>
      valuesAt (books.unspent wtx) wtx.vout.zipIdx) := by
  unfold Books.getBalance
  rw [foldlM_ok (g := fun nTotal it => nTotal +
    (if books.mature it.2 then valuesAt (books.unspent it.2) it.2.vout.zipIdx else 0)),
    foldl_add_eq_sum, zero_add]
  · rfl
  · intro it hmem nTotal
    have hget := Std.ExtTreeMap.mem_toList_iff_getElem?_eq_some.mp hmem
    obtain ⟨nValueOut, hout⟩ := hsound.getValueOut it.1 it.2 hget
    have hconfirmed : books.isConfirmed it.2 rounds = .ok true := by
      rw [Books.isConfirmed, hsettled.isFinal it.1 it.2 hget, Bool.not_true,
        if_neg Bool.false_ne_true, if_pos (hsettled.depth it.1 it.2 hget)]
    rw [hconfirmed]
    change (it.2.getAvailableCredit (books.surroundings it.2) true).1.map (nTotal + ·) = _
    rw [getAvailableCredit_eq hout (hsound.coherent it.1 it.2 hget)]
    rfl

/-- The balance of `*`. -/
lemma getBalanceAll_eq (hsettled : books.Settled) (hsound : books.Sound) :
    books.getBalanceAll 1 =
      .ok (books.wallet.mapWallet.toList.map fun it => books.contribution it.2).sum := by
  unfold Books.getBalanceAll
  rw [foldlM_ok (g := fun nBalance it => nBalance + books.contribution it.2),
    foldl_add_eq_sum, zero_add]
  intro it hmem nBalance
  have hget := Std.ExtTreeMap.mem_toList_iff_getElem?_eq_some.mp hmem
  obtain ⟨nValueOut, hout⟩ := hsound.getValueOut it.1 it.2 hget
  obtain ⟨r, hdebit⟩ := hsound.cachedDebit it.1 it.2 hget
  rw [hsettled.isFinal it.1 it.2 hget, Bool.not_true, if_neg Bool.false_ne_true]
  exact getBalanceAll_round (hsettled.depth it.1 it.2 hget) hdebit hout

end Balances

/-! ## The accounts -/

namespace Books

variable (books : Books)

/-- The account of an address. -/
def accountOf (r : CTxDestination × Int64) : Bytes := (books.mapAddressBook r.1).getD []

/-- What a transaction adds to the balance of an account. -/
def share (strAccount : Bytes) (wtx : CWalletTx) : Int64 :=
  ((books.received wtx).map fun r => if strAccount = books.accountOf r then r.2 else 0).sum +
    (if strAccount = wtx.strFromAccount then
      (if books.mature wtx then (books.amounts wtx).nGeneratedMature -
        ((books.sent wtx).map Prod.snd).sum - books.fee wtx else 0)
    else 0)

/-- All accounts: the default one, those of the address book and those that have sent. -/
structure AllAccounts (accounts : List Bytes) : Prop where
  nodup : accounts.Nodup
  default_mem : [] ∈ accounts
  mapAddressBook_mem : ∀ address strName, books.mapAddressBook address = some strName →
    strName ∈ accounts
  strFromAccount_mem : ∀ (h : UInt256) (wtx : CWalletTx), books.wallet.mapWallet[h]? = some wtx →
    wtx.strFromAccount ∈ accounts

/-- The sum of `GetAccountBalance` over some accounts. -/
def sumAccounts (accounts : List Bytes) (nMinDepth : Int32) : Except Fault Int64 :=
  accounts.foldlM (fun nSum strAccount =>
    (books.getAccountBalance strAccount nMinDepth).map (nSum + ·)) 0

end Books

section Accounts

variable {books : Books} {wtx : CWalletTx} {strAccount : Bytes}

lemma foldl_receivedBy (entries : List (CTxDestination × Int64)) (n : Int64) :
    entries.foldl (books.receivedBy strAccount) n =
      n + (entries.map fun r => if strAccount = books.accountOf r then r.2 else 0).sum := by
  rw [← foldl_add_eq_sum]
  congr 1
  funext n r
  unfold Books.receivedBy Books.accountOf
  cases books.mapAddressBook r.1 with
  | none =>
    rw [Option.getD_none]
    split_ifs
    · rfl
    · exact (add_zero n).symm
  | some strName =>
    rw [Option.getD_some]
    dsimp only
    by_cases hname : strName = strAccount
    · rw [if_pos hname, if_pos hname.symm]
    · rw [if_neg hname, if_neg (Ne.symm hname), add_zero]

/-- A round of the loop of `GetAccountBalance`. -/
lemma getAccountBalance_round {r : Int64 × CWalletTx} {nValueOut nBalance : Int64}
    (hdepth : books.chain.getDepthInMainChain wtx.toCMerkleTx ≥ 1)
    (hdebit : books.wallet.cachedDebit wtx = .ok r) (hout : wtx.getValueOut = .ok nValueOut) :
    ((books.getAccountAmounts wtx strAccount).map fun amounts =>
      let nBalance := if amounts.nReceived ≠ 0 ∧
          books.chain.getDepthInMainChain wtx.toCMerkleTx ≥ 1 then
        nBalance + amounts.nReceived else nBalance
      if books.countsSent wtx 1 then
        nBalance + (amounts.nGeneratedMature - amounts.nSent - amounts.nFee)
      else nBalance) = .ok (nBalance + books.share strAccount wtx) := by
  have hamounts : books.getAccountAmounts wtx strAccount = .ok
      { (if strAccount = wtx.strFromAccount then
          { nSent := ((books.sent wtx).map Prod.snd).sum
            nFee := books.fee wtx
            nGeneratedImmature := (books.amounts wtx).nGeneratedImmature
            nGeneratedMature := (books.amounts wtx).nGeneratedMature }
        else {} : AccountAmounts) with
        nReceived := ((books.received wtx).map fun r =>
          if strAccount = books.accountOf r then r.2 else 0).sum } := by
    rw [Books.getAccountAmounts, getAmounts_eq hdebit hout]
    refine congrArg Except.ok ?_
    dsimp only
    rw [foldl_receivedBy, foldl_add_eq_sum, zero_add, zero_add]
    rfl
  rw [hamounts]
  refine congrArg Except.ok ?_
  dsimp only
  rw [countsSent_eq_mature hdepth, Books.share]
  obtain ⟨nReceived, hreceived⟩ : ∃ nReceived, nReceived = ((books.received wtx).map fun r =>
    if strAccount = books.accountOf r then r.2 else 0).sum := ⟨_, rfl⟩
  have hadd : (if nReceived ≠ 0 ∧ books.chain.getDepthInMainChain wtx.toCMerkleTx ≥ 1 then
      nBalance + nReceived else nBalance) = nBalance + nReceived := by
    by_cases hzero : nReceived = 0
    · rw [if_neg fun hand => hand.1 hzero, hzero, add_zero]
    · exact if_pos ⟨hzero, hdepth⟩
  rw [← hreceived, hadd]
  by_cases haccount : strAccount = wtx.strFromAccount
  · simp only [haccount, if_true]
    split_ifs
    · exact add_assoc _ _ _
    · rw [add_zero]
  · simp only [haccount, if_false, sub_zero, add_zero, ite_self]

/-- The shares of all accounts are what a transaction adds to the balance of `*`. -/
lemma sum_share {accounts : List Bytes} (hall : books.AllAccounts accounts) {h : UInt256}
    (hget : books.wallet.mapWallet[h]? = some wtx) :
    (accounts.map fun strAccount => books.share strAccount wtx).sum = books.contribution wtx := by
  have haccountOf : ∀ r, books.accountOf r ∈ accounts := by
    intro r
    rw [Books.accountOf]
    cases hbook : books.mapAddressBook r.1 with
    | none => exact hall.default_mem
    | some strName => exact hall.mapAddressBook_mem r.1 strName hbook
  have hreceived : (accounts.map fun strAccount => ((books.received wtx).map fun r =>
      if strAccount = books.accountOf r then r.2 else 0).sum).sum =
      ((books.received wtx).map Prod.snd).sum := by
    rw [sum_comm]
    exact congrArg List.sum (List.map_congr_left fun r _ =>
      sum_ite_eq hall.nodup (haccountOf r) r.2)
  simp only [Books.share]
  rw [List.sum_map_add, hreceived, sum_ite_eq hall.nodup (hall.strFromAccount_mem h wtx hget)]
  cases hmature : books.mature wtx with
  | true =>
    rw [if_pos rfl, ← amounts_contribution hmature]
    abel
  | false =>
    rw [if_neg Bool.false_ne_true, received_of_immature hmature, Books.contribution, hmature,
      if_neg Bool.false_ne_true]
    rfl

/-- The balances of all accounts add up to the balance of `*`, when the accounting entries cancel
out. -/
lemma sumAccounts_eq {accounts : List Bytes} (hall : books.AllAccounts accounts)
    (hcancel : (accounts.map books.accountCreditDebit).sum = 0) (hsettled : books.Settled)
    (hsound : books.Sound) :
    books.sumAccounts accounts 1 =
      .ok (books.wallet.mapWallet.toList.map fun it => books.contribution it.2).sum := by
  have hbalance : ∀ strAccount, books.getAccountBalance strAccount 1 =
      .ok ((books.wallet.mapWallet.toList.map fun it => books.share strAccount it.2).sum +
        books.accountCreditDebit strAccount) := by
    intro strAccount
    unfold Books.getAccountBalance
    rw [foldlM_ok (g := fun nBalance it => nBalance + books.share strAccount it.2),
      foldl_add_eq_sum, zero_add]
    · rfl
    · intro it hmem nBalance
      have hget := Std.ExtTreeMap.mem_toList_iff_getElem?_eq_some.mp hmem
      obtain ⟨nValueOut, hout⟩ := hsound.getValueOut it.1 it.2 hget
      obtain ⟨r, hdebit⟩ := hsound.cachedDebit it.1 it.2 hget
      rw [hsettled.isFinal it.1 it.2 hget, Bool.not_true, if_neg Bool.false_ne_true]
      exact getAccountBalance_round (hsettled.depth it.1 it.2 hget) hdebit hout
  unfold Books.sumAccounts
  rw [foldlM_ok (g := fun nSum strAccount => nSum +
    ((books.wallet.mapWallet.toList.map fun it => books.share strAccount it.2).sum +
      books.accountCreditDebit strAccount)) (fun strAccount _ nSum => by rw [hbalance]; rfl),
    foldl_add_eq_sum, zero_add, List.sum_map_add, hcancel, add_zero, sum_comm]
  refine congrArg (fun values => Except.ok (List.sum values)) (List.map_congr_left fun it hmem => ?_)
  exact sum_share hall (Std.ExtTreeMap.mem_toList_iff_getElem?_eq_some.mp hmem)

end Accounts

/-- All balances are the same number. -/
def Books.Agree (books : Books) (rounds : ℕ) (accounts : List Bytes) : Prop :=
  ∃ nBalance, books.getBalance rounds = .ok nBalance ∧ books.getBalanceAll 1 = .ok nBalance ∧
    books.sumAccounts accounts 1 = .ok nBalance

/-- The balances agree if and only if the outputs of others that are counted and what immature
generations have spent make up for the own outputs that are not counted and the debits that are not
those of mature outputs. -/
theorem agree_iff (books : Books) (hsettled : books.Settled) (hsound : books.Sound) (rounds : ℕ)
    (accounts : List Bytes) (hall : books.AllAccounts accounts)
    (hcancel : (accounts.map books.accountCreditDebit).sum = 0) :
    books.Agree rounds accounts ↔
      books.sumOver books.mature books.countedForeign +
          books.sumOver (fun wtx => !books.mature wtx) books.matureDebit =
        books.sumOver books.mature books.missedOwn + books.sumOver books.mature books.otherDebit := by
  have hplain := getBalance_eq hsettled hsound rounds
  have hstar := getBalanceAll_eq hsettled hsound
  have haccounts := sumAccounts_eq hall hcancel hsettled hsound
  have hagree : books.Agree rounds accounts ↔
      (books.wallet.mapWallet.toList.map fun it => books.contribution it.2).sum =
        books.sumOver books.mature fun wtx => valuesAt (books.unspent wtx) wtx.vout.zipIdx := by
    constructor
    · rintro ⟨nBalance, hbalance, hall, -⟩
      rw [hplain] at hbalance
      rw [hstar] at hall
      exact (Except.ok.inj hall).trans (Except.ok.inj hbalance).symm
    · intro heq
      exact ⟨_, hplain, hstar.trans (congrArg Except.ok heq),
        haccounts.trans (congrArg Except.ok heq)⟩
  -- what the two sums are made of
  have hcontribution : (books.wallet.mapWallet.toList.map fun it => books.contribution it.2).sum +
      books.sumOver books.mature books.missedOwn + books.sumOver books.mature books.otherDebit +
      books.sumOver books.mature books.matureDebit =
      books.sumOver books.mature (fun wtx => valuesAt (books.spent wtx) wtx.vout.zipIdx) +
        books.sumOver books.mature (fun wtx => valuesAt (books.unspent wtx) wtx.vout.zipIdx) +
        books.sumOver books.mature books.countedForeign := by
    rw [← sumOver_add, ← sumOver_add]
    change books.sumOver books.mature (fun wtx => valuesOf books.wallet.isMine wtx.vout +
      books.countedForeign wtx - books.missedOwn wtx -
      (if books.debit wtx > 0 then books.debit wtx else 0)) + _ + _ + _ = _
    rw [← sumOver_add, ← sumOver_add, ← sumOver_add]
    refine congrArg (books.sumOver books.mature) (funext fun wtx => ?_)
    rw [valuesOf_isMine, Books.otherDebit]
    abel
  have hspent : books.sumOver books.mature
      (fun wtx => valuesAt (books.spent wtx) wtx.vout.zipIdx) =
      books.sumOver books.mature books.matureDebit +
        books.sumOver (fun wtx => !books.mature wtx) books.matureDebit := by
    rw [Books.sumOver, sum_spent_eq hsettled hsound, Books.sumOver, Books.sumOver,
      ← List.sum_map_add]
    refine congrArg List.sum (List.map_congr_left fun it _ => ?_)
    cases books.mature it.2 <;> simp
  rw [hspent] at hcontribution
  have hsum : (books.wallet.mapWallet.toList.map fun it => books.contribution it.2).sum +
      (books.sumOver books.mature books.missedOwn + books.sumOver books.mature books.otherDebit) =
      books.sumOver books.mature (fun wtx => valuesAt (books.unspent wtx) wtx.vout.zipIdx) +
        (books.sumOver books.mature books.countedForeign +
          books.sumOver (fun wtx => !books.mature wtx) books.matureDebit) := by
    refine add_right_cancel (b := books.sumOver books.mature books.matureDebit) ?_
    rw [← add_assoc, hcontribution]
    abel
  rw [hagree]
  constructor
  · intro heq
    rw [heq] at hsum
    exact (add_left_cancel hsum).symm
  · intro heq
    rw [heq] at hsum
    exact add_right_cancel hsum

/-- A transaction in a block with one output. -/
def heldCoin (scriptPubKey : CScript) : CWalletTx where
  vin := [{ prevout := { hash := 5, n := 0 } }]
  vout := [{ nValue := 1000, scriptPubKey }]
  hashBlock := 7
  nIndex := 0

/-- A wallet with this transaction, which has the keys for its output. -/
def heldBooks (scriptPubKey : CScript) : Books where
  wallet :=
    { mapWallet := (∅ : Std.ExtTreeMap UInt256 CWalletTx).insert
        ((heldCoin scriptPubKey).getHash CBlock.mixingHash) (heldCoin scriptPubKey)
      isMine := fun txout => decide (txout.scriptPubKey = scriptPubKey)
      blocksToMaturity := fun _ => 0, adjustedTime := fun _ => 0, timeSmart := fun _ => 0
      writeToDisk := fun _ => true }
  chain :=
    { mapBlockIndex := fun h => if h = 7 then
        some ⟨100, (heldCoin scriptPubKey).getHash CBlock.mixingHash, true⟩ else none
      nBestHeight := 110, nCoinbaseMaturity := 60, nAdjustedTime := 10000, hash := CBlock.mixingHash
      fMerkleVerified := fun _ => false }
  crypto :=
    { ripemd160 := fun _ => 1, sha1 := fun _ => 1, sha256 := CBlock.mixingHash
      verify := fun _ _ _ => true }
  isMineDestination _ := true
  mapAddressBook _ := none
  accountCreditDebit _ := 0

/-- To the hash of a public key. -/
def keyScript : CScript := CScript.setDestination (.CKeyID 9)

/-- One signature of one public key. -/
def multiSigScript : CScript :=
  OP_1 :: 33 :: List.replicate 33 2 ++ [OP_1, OP_CHECKMULTISIG]

section HeldBooks

variable {scriptPubKey : CScript} {h : UInt256} {wtx : CWalletTx}

lemma heldBooks_get (hget : (heldBooks scriptPubKey).wallet.mapWallet[h]? = some wtx) :
    h = (heldCoin scriptPubKey).getHash CBlock.mixingHash ∧ wtx = heldCoin scriptPubKey := by
  rw [heldBooks, MapLoop.getElem?_insert_eq] at hget
  split_ifs at hget with heq
  · cases hget
    exact ⟨heq.symm, rfl⟩
  · rw [Std.ExtTreeMap.getElem?_empty] at hget
    exact absurd hget nofun

lemma settled_heldBooks (hne : (heldCoin scriptPubKey).getHash CBlock.mixingHash ≠ 5) :
    (heldBooks scriptPubKey).Settled where
  isFinal h wtx hget := by
    obtain ⟨-, rfl⟩ := heldBooks_get hget
    rfl
  depth h wtx hget := by
    obtain ⟨-, rfl⟩ := heldBooks_get hget
    have hdepth : (heldBooks scriptPubKey).chain.getDepthInMainChain
        (heldCoin scriptPubKey).toCMerkleTx = 11 := by
      have hplace : ¬ ((heldCoin scriptPubKey).hashBlock = 0 ∨
          (heldCoin scriptPubKey).nIndex = -1) :=
        show ¬ ((7 : UInt256) = 0 ∨ (0 : Int32) = -1) by decide
      have hroot : ∀ h, CBlock.checkMerkleBranch CBlock.mixingHash h [] 0 = h := fun _ => rfl
      unfold ChainState.getDepthInMainChain
      rw [if_neg hplace]
      simp [heldBooks, heldCoin, hroot]
    rw [hdepth]
    decide
  isSpent_iff h wtx n txout hget hout _ := by
    obtain ⟨rfl, rfl⟩ := heldBooks_get hget
    have hlt : n < (heldCoin scriptPubKey).vout.length := (List.getElem?_eq_some_iff.mp hout).1
    constructor
    · intro hspent
      rw [CWalletTx.isSpent, if_neg (not_le.mpr hlt)] at hspent
      exact absurd (Except.ok.inj hspent) Bool.false_ne_true
    · rintro ⟨k, spender, hspender, hclaims⟩
      obtain ⟨-, rfl⟩ := heldBooks_get hspender
      exact absurd (Prod.mk.inj (List.mem_singleton.mp hclaims)).1 hne

lemma sound_heldBooks (hne : (heldCoin scriptPubKey).getHash CBlock.mixingHash ≠ 5) :
    (heldBooks scriptPubKey).Sound where
  nodup_claims := by
    have hlength : (heldBooks scriptPubKey).wallet.mapWallet.toList.length = 1 := by
      rw [Std.ExtTreeMap.length_toList]
      exact Std.ExtTreeMap.size_insert.trans rfl
    obtain ⟨it, hlist⟩ := List.length_eq_one_iff.mp hlength
    obtain ⟨-, hcoin⟩ := heldBooks_get (Std.ExtTreeMap.mem_toList_iff_getElem?_eq_some.mp
      (hlist ▸ List.mem_singleton_self it))
    refine List.Nodup.filter _ ?_
    rw [Books.claims, hlist, List.flatMap_singleton, hcoin]
    exact List.nodup_singleton _
  getValueOut h wtx hget := by
    obtain ⟨-, rfl⟩ := heldBooks_get hget
    exact ⟨1000, rfl⟩
  cachedDebit h wtx hget := by
    obtain ⟨-, rfl⟩ := heldBooks_get hget
    have hmissing : (heldBooks scriptPubKey).wallet.mapWallet[(5 : UInt256)]? = none := by
      rw [heldBooks, MapLoop.getElem?_insert_eq, if_neg hne, Std.ExtTreeMap.getElem?_empty]
    have hdebit : (heldBooks scriptPubKey).wallet.getDebit
        (heldCoin scriptPubKey).toCTransaction = .ok 0 := by
      change (heldBooks scriptPubKey).wallet.getDebitLoop 0 [_] = _
      rw [CWallet.getDebitLoop, CWallet.getDebitOf, CWallet.ownOutput, hmissing]
      rfl
    refine ⟨(0, { heldCoin scriptPubKey with nDebitCached := 0, fDebitCached := true }), ?_⟩
    have hvin : (heldCoin scriptPubKey).vin ≠ [] := List.cons_ne_nil _ _
    have huncached : (heldCoin scriptPubKey).fDebitCached = false := rfl
    rw [CWallet.cachedDebit, if_neg hvin, huncached, if_neg Bool.false_ne_true, hdebit]
    rfl
  coherent h wtx hget := by
    obtain ⟨-, rfl⟩ := heldBooks_get hget
    exact fun hcached => absurd hcached Bool.false_ne_true

lemma allAccounts_heldBooks : (heldBooks scriptPubKey).AllAccounts [[]] where
  nodup := List.nodup_singleton _
  default_mem := List.mem_singleton_self _
  mapAddressBook_mem _ _ hbook := absurd hbook nofun
  strFromAccount_mem h wtx hget := by
    obtain ⟨-, rfl⟩ := heldBooks_get hget
    exact List.mem_singleton_self _

end HeldBooks

/-- An output with an address. -/
theorem agree_iff_heldBooks :
    (heldBooks keyScript).Agree 1 [[]] ↔
      (heldBooks keyScript).sumOver (heldBooks keyScript).mature
          (heldBooks keyScript).countedForeign +
          (heldBooks keyScript).sumOver (fun wtx => !(heldBooks keyScript).mature wtx)
            (heldBooks keyScript).matureDebit =
        (heldBooks keyScript).sumOver (heldBooks keyScript).mature
          (heldBooks keyScript).missedOwn +
          (heldBooks keyScript).sumOver (heldBooks keyScript).mature
            (heldBooks keyScript).otherDebit :=
  agree_iff (heldBooks keyScript) (settled_heldBooks (by decide +kernel))
    (sound_heldBooks (by decide +kernel)) 1 [[]] allAccounts_heldBooks rfl

/-- An own output that asks for signatures of public keys is not counted for `*`. -/
theorem not_agree :
    ¬ ∀ (books : Books) (rounds : ℕ) (accounts : List Bytes), books.Settled → books.Sound →
      books.AllAccounts accounts → (accounts.map books.accountCreditDebit).sum = 0 →
      books.Agree rounds accounts := by
  intro hall
  obtain ⟨nBalance, hbalance, hstar, -⟩ := hall (heldBooks multiSigScript) 1 [[]]
    (settled_heldBooks (by decide +kernel)) (sound_heldBooks (by decide +kernel))
    allAccounts_heldBooks rfl
  have hplain : ((heldBooks multiSigScript).getBalance 1).toOption = some 1000 := by
    decide +kernel
  have hzero : ((heldBooks multiSigScript).getBalanceAll 1).toOption = some 0 := by
    decide +kernel
  rw [hbalance] at hplain
  rw [hstar] at hzero
  exact absurd (Option.some.inj (hplain.symm.trans hzero)) (by decide)

end HyperStake.WalletTx
