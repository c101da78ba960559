import HyperStake.Chain.Values

/-!
# How fast money can grow

Until `FORK_TIME` the stake reward has no cap, but coins take half a year to earn as much as they are
worth, and the chain started less than half a year before.  So an output may be counted with a weight
that falls with its time, as what may yet come of it: a coin stake of that time does not raise the
weighted sum (`worth`), as the age that it is paid for has been taken off the weight.  A later coin
stake raises it by at most the cap, and a transaction that pays its fee does not raise it.
-/

namespace HyperStake

/-- The seconds in which coins earn as much as they are worth, until `FORK_TIME`. -/
def doublingTime : ℤ := 365 * 24 * 60 * 60 / 2

/-- No output is older than the genesis block, up to the drift of a clock. -/
def earliestTime : ℤ := 1401331380 - 900

/-- How often an output of a time is counted. -/
def coinWeight (nTime : UInt32) : ℤ :=
  doublingTime - (min (nTime.toNat : ℤ) FORK_TIME.toNat - earliestTime)

/-- The weight of an output from `FORK_TIME` on. -/
def leastWeight : ℤ := coinWeight FORK_TIME

/-- What a coin stake adds to the worth of a chain, at most. -/
def stakeGain : ℤ := 1000 * COIN.toInt * leastWeight

/-- The weighted sum of the outputs of a chain that are not spent. -/
def worth (hash : Bytes → UInt256) (chain : List OnChain) : ℤ :=
  Ledger.total (indexing hash).toScheme
    (fun x => outputValue x * coinWeight x.1.tx.nTime) chain

/-! ## The weight of an output -/

lemma leastWeight_eq : leastWeight = 12419855 := by decide

lemma toNat_FORK_TIME : FORK_TIME.toNat = 1404678625 := by decide

lemma leastWeight_le (nTime : UInt32) : leastWeight ≤ coinWeight nTime := by
  unfold leastWeight coinWeight
  omega

lemma coinWeight_nonneg (nTime : UInt32) : 0 ≤ coinWeight nTime := by
  have hle := leastWeight_le nTime
  rw [leastWeight_eq] at hle
  omega

lemma coinWeight_anti {m n : UInt32} (h : m ≤ n) : coinWeight n ≤ coinWeight m := by
  have hle := UInt32.le_iff_toNat_le.mp h
  unfold coinWeight
  omega

variable {nTime : UInt32}

lemma coinWeight_le (h : earliestTime ≤ nTime.toNat) : coinWeight nTime ≤ doublingTime := by
  unfold coinWeight
  unfold earliestTime at h ⊢
  rw [toNat_FORK_TIME]
  omega

lemma coinWeight_of_fork_le (h : FORK_TIME < nTime) : coinWeight nTime = leastWeight := by
  have hlt := UInt32.lt_iff_toNat_lt.mp h
  unfold leastWeight coinWeight
  omega

/-- Until the fork, the weight falls with the age. -/
lemma coinWeight_eq_add_ageAt (h : nTime ≤ FORK_TIME) {x : OnChain × ℕ}
    (hx : x.1.tx.nTime ≤ nTime) : coinWeight x.1.tx.nTime = coinWeight nTime + ageAt nTime x := by
  have hle := UInt32.le_iff_toNat_le.mp h
  have hle' := UInt32.le_iff_toNat_le.mp hx
  rw [toNat_FORK_TIME] at hle
  rw [coinWeight, coinWeight, ageAt, toNat_FORK_TIME]
  omega

/-! ## The stake reward -/

/-- The bound of a coin stake is its reward: the fee is taken off and added again. -/
lemma stakeReward_eq (nReward : Int64) (tx : CTransaction) :
    nReward - tx.getMinFee + MIN_TX_FEE = nReward := by
  rw [CTransaction.getMinFee_eq]
  exact Int64.sub_add_cancel _ _

variable {nCoinAge : Int64}

/-- The reward after the fork has a cap. -/
lemma getProofOfStakeReward_le (h : FORK_TIME < nTime) :
    (getProofOfStakeReward nCoinAge nTime).toInt ≤ 1000 * COIN.toInt := by
  have hcap : (1000 * COIN : Int64).toInt = 1000 * COIN.toInt := by decide
  rw [getProofOfStakeReward, if_pos h, getProofOfStakeRewardV2, ← hcap]
  exact Int64.le_iff_toInt_le.mp Std.min_le_right

/-- The reward until the fork, for a coin age that does not overflow. -/
lemma getProofOfStakeReward_mul_le (h : nTime ≤ FORK_TIME)
    (hnonneg : 0 ≤ nCoinAge.toInt) (hsmall : nCoinAge.toInt ≤ 4000000000) :
    0 ≤ (getProofOfStakeReward nCoinAge nTime).toInt ∧
      (getProofOfStakeReward nCoinAge nTime).toInt * doublingTime ≤
        nCoinAge.toInt * 86400000000 := by
  have hmint : MAX_MINT_PROOF_OF_STAKE.toInt = 2000000 := by decide
  have hyear : (365 : Int64).toInt = 365 := by decide
  have hmul : (nCoinAge * MAX_MINT_PROOF_OF_STAKE).toInt = nCoinAge.toInt * 2000000 := by
    rw [Int64.toInt_mul, hmint]
    exact Int64Sum.bmod_eq_of_inRange ⟨by omega, by omega⟩
  have hreward : (getProofOfStakeReward nCoinAge nTime).toInt = nCoinAge.toInt * 2000000 / 365 := by
    rw [getProofOfStakeReward, if_neg (UInt32.not_lt.mpr h), getProofOfStakeRewardV1,
      Int64.toInt_div_of_ne_right _ _ (by decide), hmul, hyear,
      Int.tdiv_eq_ediv_of_nonneg (by omega)]
  have hdouble : doublingTime = 15768000 := by decide
  rw [hreward, hdouble]
  omega

section Gain

variable {hash : Bytes → UInt256} {disk : CDiskTxPos → Option CTransaction} {env : Env}
  {old chain : List OnChain} {tx : CTransaction} {sources : List (OnChain × ℕ)}

/-- The weighted sum of some outputs. -/
def weighted (sources : List (OnChain × ℕ)) : ℤ :=
  (sources.map fun x => outputValue x * coinWeight x.1.tx.nTime).sum

/-- An output of the time of a transaction weighs no more than what the transaction claims. -/
lemma mul_coinWeight_le {vin : List CTxIn}
    (hsources : List.Forall₂ (Source hash chain tx.nTime) vin sources) :
    (sources.map outputValue).sum * coinWeight tx.nTime ≤ weighted sources := by
  unfold weighted
  induction hsources with
  | nil => simp
  | cons hx _ ih =>
    simp only [List.map_cons, List.sum_cons, add_mul]
    exact add_le_add (mul_le_mul_of_nonneg_left (coinWeight_anti hx.time) hx.nonneg) ih

/-- Until the fork, the age of what a transaction claims is the weight that it has lost. -/
lemma weighted_eq {vin : List CTxIn} (h : tx.nTime ≤ FORK_TIME)
    (hsources : List.Forall₂ (Source hash chain tx.nTime) vin sources) :
    weighted sources = (sources.map outputValue).sum * coinWeight tx.nTime +
      (sources.map fun x => outputValue x * ageAt tx.nTime x).sum := by
  unfold weighted
  induction hsources with
  | nil => simp
  | cons hx _ ih =>
    simp only [List.map_cons, List.sum_cons, ih, coinWeight_eq_add_ageAt h hx.time]
    ring

/-- A coin stake until the fork does not raise the weighted sum. -/
lemma coinStake_weight_le_early (hvalid : Ledger.Valid (indexing hash).toScheme chain)
    (hreads : Reads disk env chain) (hold : old ⊆ chain)
    (hsources : List.Forall₂ (Source hash chain tx.nTime) tx.vin sources)
    (hsum : (sources.map outputValue).sum ≤ MAX_MONEY.toInt)
    (htimes : ∀ x ∈ chain, earliestTime ≤ x.tx.nTime.toNat) (hfork : tx.nTime ≤ FORK_TIME)
    (htime : earliestTime ≤ tx.nTime.toNat) {nCoinAge : UInt64}
    (hage : tx.getCoinAge env (indexOf hash old) = some nCoinAge)
    (hreward : tx.valueOut - (sources.map outputValue).sum ≤
      (getProofOfStakeReward nCoinAge.toInt64 tx.nTime).toInt) :
    tx.valueOut * coinWeight tx.nTime ≤ weighted sources := by
  obtain ⟨hnonneg, hle⟩ := getCoinAge_le hvalid hreads hold hsources hsum hage
  -- the chain is younger than the weights allow
  have hages : ∀ x ∈ sources, ageAt tx.nTime x ≤ FORK_TIME.toNat - earliestTime := by
    intro x hx
    obtain ⟨txin, -, hsource⟩ := exists_source_of_mem hsources hx
    have hearly := htimes x.1 (Ledger.mem_outputs.mp hsource.mem).1
    have hlate := UInt32.le_iff_toNat_le.mp hfork
    rw [toNat_FORK_TIME] at hlate ⊢
    unfold ageAt
    omega
  have hbound := (sum_mul_ageAt_le hsources hages).2
  have hmax := toInt_MAX_MONEY
  have hspan : (FORK_TIME.toNat : ℤ) - earliestTime = 3348145 := by decide
  rw [hspan] at hbound
  obtain ⟨hpos, hmul⟩ := getProofOfStakeReward_mul_le hfork hnonneg (by omega)
  have hweight := coinWeight_le htime
  have hzero := coinWeight_nonneg tx.nTime
  have hgrow : (getProofOfStakeReward nCoinAge.toInt64 tx.nTime).toInt * coinWeight tx.nTime ≤
      (getProofOfStakeReward nCoinAge.toInt64 tx.nTime).toInt * doublingTime :=
    mul_le_mul_of_nonneg_left hweight hpos
  rw [weighted_eq hfork hsources]
  calc tx.valueOut * coinWeight tx.nTime
      ≤ ((sources.map outputValue).sum +
          (getProofOfStakeReward nCoinAge.toInt64 tx.nTime).toInt) * coinWeight tx.nTime :=
        mul_le_mul_of_nonneg_right (by linarith) hzero
    _ ≤ _ := by
        rw [add_mul]
        linarith

/-- A coin stake after the fork raises the weighted sum by at most the cap. -/
lemma coinStake_weight_le_late (hsources : List.Forall₂ (Source hash chain tx.nTime) tx.vin sources)
    (hfork : FORK_TIME < tx.nTime)
    (hreward : tx.valueOut - (sources.map outputValue).sum ≤
      (getProofOfStakeReward nCoinAge tx.nTime).toInt) :
    tx.valueOut * coinWeight tx.nTime ≤ weighted sources + stakeGain := by
  have hcap : (getProofOfStakeReward nCoinAge tx.nTime).toInt ≤ 1000 * COIN.toInt :=
    getProofOfStakeReward_le hfork
  have hweighted := mul_coinWeight_le hsources
  have hzero := coinWeight_nonneg tx.nTime
  calc tx.valueOut * coinWeight tx.nTime
      ≤ ((sources.map outputValue).sum + 1000 * COIN.toInt) * coinWeight tx.nTime :=
        mul_le_mul_of_nonneg_right (by linarith) hzero
    _ = (sources.map outputValue).sum * coinWeight tx.nTime + stakeGain := by
        rw [add_mul, stakeGain, ← coinWeight_of_fork_le hfork]
    _ ≤ _ := by linarith

end Gain

end HyperStake
