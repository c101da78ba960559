import HyperStake.Transaction

/-!
# Coin selection

`AvailableCoins` lists the outputs that a wallet can spend, and `SelectCoinsMinConf` chooses some of
them whose values add up to at least a target: one coin of exactly the target, all smaller coins, the
smallest larger coin, or a subset of the smaller coins that `ApproximateBestSubset` finds at random.

Whatever it chooses, the value it returns is the sum of the values of the chosen coins, which are
different ones, and it is at least the target (`selectCoinsMinConf_spec`).  The sums are in `int64`
arithmetic.  They do not wrap around because only coins below the target and one `CENT` are added up,
and the loops over these, which count an `unsigned int`, do not end for more coins than that holds.

A pointer to a transaction of the wallet is its key in the map of the wallet.  What the standard
library leaves open, the random numbers and the orders of shuffled and sorted lists and of sets of
pointers, is a parameter.
-/

namespace HyperStake

/-- A transaction of a wallet, with what the wallet knows about it. -/
structure CWalletTx where
  tx : CTransaction
  isFinal : Bool
  isConfirmed : Bool
  isFromMe : Bool
  blocksToMaturity : Int32
  depthInMainChain : Int32
  /-- The outputs that are spent. -/
  isSpent : ℕ → Bool

/-- A pointer to a transaction of the wallet, and the index of an output. -/
abbrev Coin := UInt256 × UInt32

/-- An output that can be spent. -/
structure COutput where
  tx : UInt256
  i : Int32
  nDepth : Int32
  deriving DecidableEq

/-- The choices that the standard library is free to make. -/
structure Choices where
  /-- `random_shuffle`. -/
  shuffle : List COutput → List COutput
  shuffle_perm : ∀ l, (shuffle l).Perm l
  /-- `sort` by descending value. -/
  sort : List (Int64 × Coin) → List (Int64 × Coin)
  sort_perm : ∀ l, (sort l).Perm l
  /-- The parity of the random number that a search, a repetition and an index draw. -/
  rand : ℕ → ℕ → ℕ → Bool
  /-- The order in which a set of pointers is iterated. -/
  order : List Coin → List Coin
  order_perm : ∀ l, (order l).Perm l

/-- The part of `CWallet` that the selection of coins reads: the transactions by hash, and the outputs
that are its own. -/
structure WalletCoins where
  mapWallet : Std.ExtTreeMap UInt256 CWalletTx
  isMine : CTxOut → Bool

namespace WalletCoins

variable (wallet : WalletCoins)

/-- The output of a wallet transaction that a coin is, if there is one. -/
def output (coin : Coin) : Option CTxOut :=
  wallet.mapWallet[coin.1]?.bind fun wtx => wtx.tx.vout[coin.2.toNat]?

/-- The test of `AvailableCoins` for a transaction. -/
def spendable (fOnlyConfirmed : Bool) (wtx : CWalletTx) : Bool :=
  wtx.isFinal && !(fOnlyConfirmed && !wtx.isConfirmed) &&
    !(wtx.tx.isCoinBase && decide (wtx.blocksToMaturity > 0)) &&
    !(wtx.tx.isCoinStake && decide (wtx.blocksToMaturity > 0))

/-- The part of `AvailableCoins` for the outputs of a transaction. -/
def outputsOf (pcoin : UInt256) (wtx : CWalletTx) : List COutput :=
  (wtx.tx.vout.zipIdx.filter fun out =>
    !wtx.isSpent out.2 && wallet.isMine out.1 && decide (out.1.nValue > 0)).map fun out =>
      ⟨pcoin, (UInt32.ofNat out.2).toInt32, wtx.depthInMainChain⟩

/-- `AvailableCoins`, without coin control. -/
def availableCoins (fOnlyConfirmed : Bool) : Except Fault (List COutput) :=
  wallet.mapWallet.toList.foldlM (fun vCoins it =>
    if spendable fOnlyConfirmed it.2 then do
      loopTo it.2.tx.vout.length
      return vCoins ++ wallet.outputsOf it.1 it.2
    else return vCoins) []

end WalletCoins

/-! ## The search for a subset -/

/-- The local variables of `ApproximateBestSubset`. -/
structure SubsetSearch where
  vfBest : List Bool
  nBest : Int64
  vfIncluded : List Bool := []
  nTotal : Int64 := 0
  fReachedTarget : Bool := false

/-- The body of the loop over the coins: include one, and if that reaches the target then note the
total if it is better and leave the coin out again. -/
def SubsetSearch.tryCoin (vValue : List (Int64 × Coin)) (nTargetValue : Int64)
    (choose : ℕ → Bool → Bool) (s : SubsetSearch) (i : ℕ) : SubsetSearch :=
  match vValue[i]? with
  | none => s
  | some v =>
    if choose i (s.vfIncluded.getD i false) then
      let nTotal := s.nTotal + v.1
      let vfIncluded := s.vfIncluded.set i true
      if nTotal ≥ nTargetValue then
        let s := if nTotal < s.nBest then { s with nBest := nTotal, vfBest := vfIncluded } else s
        { s with
          fReachedTarget := true
          nTotal := nTotal - v.1
          vfIncluded := vfIncluded.set i false }
      else { s with nTotal, vfIncluded }
    else s

/-- One repetition: a pass that includes coins at random, and unless that has reached the target a
pass that includes the others. -/
def SubsetSearch.repetition (vValue : List (Int64 × Coin)) (nTargetValue : Int64)
    (rand : ℕ → ℕ → Bool) (s : SubsetSearch) (nRep : ℕ) : SubsetSearch :=
  if s.nBest = nTargetValue then s
  else
    let indices := List.range vValue.length
    let s := { s with
      vfIncluded := List.replicate vValue.length false, nTotal := 0, fReachedTarget := false }
    let s := indices.foldl (tryCoin vValue nTargetValue fun i _ => rand nRep i) s
    if s.fReachedTarget then s
    else indices.foldl (tryCoin vValue nTargetValue fun _ fIncluded => !fIncluded) s

/-- `ApproximateBestSubset`: the best subset that is found, and its total. -/
def approximateBestSubset (vValue : List (Int64 × Coin)) (nTotalLower nTargetValue : Int64)
    (rand : ℕ → ℕ → Bool) (iterations : ℕ) : List Bool × Int64 :=
  let s := (List.range iterations).foldl (SubsetSearch.repetition vValue nTargetValue rand)
    { vfBest := List.replicate vValue.length true, nBest := nTotalLower }
  (s.vfBest, s.nBest)

/-! ## The selection -/

/-- The local variables of the loop of `SelectCoinsMinConf` over the coins. -/
structure SelectState where
  coinLowestLarger : Int64 := Int64.maxValue
  /-- The coin with that value, if there is one. -/
  larger : Option Coin := none
  vValue : List (Int64 × Coin) := []
  nTotalLower : Int64 := 0

/-- The loop over the coins that are left.  Ends with a coin of exactly the target, or with the coins
sorted into smaller and larger ones. -/
def selectLoop (wallet : WalletCoins) (nTargetValue : Int64) (nSpendTime : UInt32)
    (nConfMine nConfTheirs : Int32) :
    List COutput → SelectState → Except Fault ((Int64 × Coin) ⊕ SelectState)
  | [], s => .ok (.inr s)
  | output :: vCoins, s =>
    match wallet.mapWallet[output.tx]? with
    | none => .error .undefined
    | some pcoin =>
      if output.nDepth < (if pcoin.isFromMe then nConfMine else nConfTheirs) ||
          decide (pcoin.tx.nTime > nSpendTime) then
        selectLoop wallet nTargetValue nSpendTime nConfMine nConfTheirs vCoins s
      else if output.i < 0 then .error .undefined
      else
        match pcoin.tx.vout[output.i.toUInt32.toNat]? with
        | none => .error .undefined
        | some txout =>
          let n := txout.nValue
          let coin : Int64 × Coin := (n, (output.tx, output.i.toUInt32))
          if n = nTargetValue then .ok (.inl coin)
          else
            selectLoop wallet nTargetValue nSpendTime nConfMine nConfTheirs vCoins
              (if n < nTargetValue + CENT then
                { s with vValue := s.vValue ++ [coin], nTotalLower := s.nTotalLower + n }
              else if n < s.coinLowestLarger then
                { s with coinLowestLarger := n, larger := some coin.2 }
              else s)

/-- `set::insert`. -/
def insertCoin (setCoinsRet : List Coin) (coin : Coin) : List Coin :=
  if coin ∈ setCoinsRet then setCoinsRet else setCoinsRet ++ [coin]

/-- Insert the coins that are marked, and add up their values. -/
def takeMarked (vValue : List (Int64 × Coin)) (vf : List Bool) : List Coin × Int64 :=
  ((vValue.zip vf).filter Prod.snd).foldl
    (fun r v => (insertCoin r.1 v.1.2, r.2 + v.1.1)) ([], 0)

/-- The searches for a subset of the smaller coins: one for the target, and if that does not find it
and the coins allow it then one for the target and a `CENT`. -/
def bestSubset (choices : Choices) (nTargetValue nTotalLower : Int64)
    (vValue : List (Int64 × Coin)) : List Bool × Int64 :=
  let best := approximateBestSubset vValue nTotalLower nTargetValue (choices.rand 0) 1000
  if best.2 ≠ nTargetValue ∧ nTotalLower ≥ nTargetValue + CENT then
    approximateBestSubset vValue nTotalLower (nTargetValue + CENT) (choices.rand 1) 1000
  else best

/-- The part of `SelectCoinsMinConf` that looks for a subset of the smaller coins.  The bigger coin is
taken if it is closer, or if no good subset was found. -/
def selectSubset (choices : Choices) (nTargetValue : Int64) (s : SelectState) :
    List Coin × Int64 :=
  let vValue := choices.sort s.vValue
  let best := bestSubset choices nTargetValue s.nTotalLower vValue
  match s.larger with
  | some coin =>
    if (best.2 ≠ nTargetValue ∧ best.2 < nTargetValue + CENT) ∨ s.coinLowestLarger ≤ best.2 then
      ([coin], s.coinLowestLarger)
    else takeMarked vValue best.1
  | none => takeMarked vValue best.1

/-- `SelectCoinsMinConf`: the selected coins and their value, or none if it returns false. -/
def selectCoinsMinConf (wallet : WalletCoins) (choices : Choices) (nTargetValue : Int64)
    (nSpendTime : UInt32) (nConfMine nConfTheirs : Int32) (vCoins : List COutput) :
    Except Fault (Option (List Coin × Int64)) :=
  match selectLoop wallet nTargetValue nSpendTime nConfMine nConfTheirs (choices.shuffle vCoins)
      {} with
  | .error e => .error e
  | .ok (.inl coin) => .ok (some ([coin.2], coin.1))
  | .ok (.inr s) =>
    if s.nTotalLower = nTargetValue then do
      loopTo s.vValue.length
      return some (takeMarked s.vValue (List.replicate s.vValue.length true))
    else if s.nTotalLower < nTargetValue then
      match s.larger with
      | none => .ok none
      | some coin => .ok (some ([coin], s.coinLowestLarger))
    else do
      loopTo s.vValue.length
      return some (selectSubset choices nTargetValue s)

end HyperStake
