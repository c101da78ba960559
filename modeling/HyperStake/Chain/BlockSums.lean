import HyperStake.Chain.Accounts

/-!
# The sums of a block

A block that passes `CheckBlock` has few transactions, as none takes less than fourteen bytes; so the
sums over its transactions are small.  What it makes comes from its coinbase and its coin stake, and
only a proof-of-work block has a coinbase that makes money.
-/

namespace HyperStake

open ExceptLoop Int64Sum

/-! ## The sums of a block -/

/-- The most transactions of a block. -/
def maxTransactions : ℕ := 1000000 / 14

/-- A block that a node receives is at most as long as a message. -/
def CBlock.Received (block : CBlock) : Prop := block.serialize.length ≤ MAX_SIZE

variable {hash : Bytes → UInt256} {env : Env} {block : CBlock}

/-- A block that is received and passes `CheckBlock` has few transactions. -/
lemma CBlock.length_vtx_le
    {fCheckPOW fCheckMerkleRoot fFullCheck : Bool} (hreceived : block.Received)
    (h : block.checkBlock hash env fCheckPOW fCheckMerkleRoot fFullCheck = true) :
    block.vtx.length ≤ maxTransactions := by
  have hsize : block.getSerializeSize ≤ MAX_BLOCK_SIZE := by
    simp only [checkBlock, Bool.and_eq_true, decide_eq_true_eq] at h
    exact h.1.1.1.1.1.1.1.1.2
  have hmax : MAX_BLOCK_SIZE.toNat = 1000000 := by decide
  have hlong : MAX_SIZE < 2 ^ 32 := by decide
  have hmul := block.length_vtx_mul_le
  unfold Received at hreceived
  rw [CBlock.getSerializeSize_eq, UInt32.le_iff_toNat_le, hmax,
    UInt32.toNat_ofNat_of_lt' (hreceived.trans_lt hlong)] at hsize
  unfold maxTransactions
  omega

/-- A sum over few transactions. -/
lemma sum_map_le {f : CTransaction → ℤ} {vtx : List CTransaction}
    (hf : ∀ tx ∈ vtx, 0 ≤ f tx ∧ f tx ≤ MAX_MONEY.toInt) (hlen : vtx.length ≤ maxTransactions) :
    0 ≤ (vtx.map f).sum ∧ (vtx.map f).sum ≤ maxTransactions * MAX_MONEY.toInt := by
  have hmax := toInt_MAX_MONEY
  constructor
  · refine List.sum_nonneg fun n hn => ?_
    obtain ⟨tx, htx, rfl⟩ := List.mem_map.mp hn
    exact (hf tx htx).1
  · have hle := List.sum_le_card_nsmul (vtx.map f) MAX_MONEY.toInt (by
      intro n hn
      obtain ⟨tx, htx, rfl⟩ := List.mem_map.mp hn
      exact (hf tx htx).2)
    rw [List.length_map, nsmul_eq_mul] at hle
    refine hle.trans (mul_le_mul_of_nonneg_right (by exact_mod_cast hlen) ?_)
    omega

/-- The fee of a transaction is at most what it claims. -/
lemma Balanced.fee_le {db : TxDB} {all : List OnChain}
    {tx : CTransaction} (h : Balanced hash env db all tx) :
    tx.fee hash all ≤ MAX_MONEY.toInt := by
  have hin := h.valueIn
  have hout := h.valueOut
  unfold CTransaction.fee
  split_ifs
  · omega
  · omega

/-- The sums of few transactions. -/
structure SmallSums (hash : Bytes → UInt256) (all : List OnChain) (vtx : List CTransaction) :
    Prop where
  valueIn : 0 ≤ (vtx.map (CTransaction.valueIn hash all)).sum ∧
    (vtx.map (CTransaction.valueIn hash all)).sum ≤ maxTransactions * MAX_MONEY.toInt
  valueOut : 0 ≤ (vtx.map CTransaction.valueOut).sum ∧
    (vtx.map CTransaction.valueOut).sum ≤ maxTransactions * MAX_MONEY.toInt
  fee : 0 ≤ (vtx.map (CTransaction.fee hash all)).sum ∧
    (vtx.map (CTransaction.fee hash all)).sum ≤ maxTransactions * MAX_MONEY.toInt

lemma smallSums {db : TxDB} {all : List OnChain}
    {vtx : List CTransaction} (hbalanced : ∀ tx ∈ vtx, Balanced hash env db all tx)
    (hlen : vtx.length ≤ maxTransactions) : SmallSums hash all vtx :=
  ⟨sum_map_le (fun tx htx => (hbalanced tx htx).valueIn) hlen,
    sum_map_le (fun tx htx => (hbalanced tx htx).valueOut) hlen,
    sum_map_le (fun tx htx => ⟨(hbalanced tx htx).fee, (hbalanced tx htx).fee_le⟩) hlen⟩

/-- The most that the sums of a block can be. -/
lemma maxTransactions_mul : (maxTransactions : ℤ) * MAX_MONEY.toInt = 4285680000000000000 := by
  decide

/-! ## The kinds of the transactions of a block -/

/-- A block has a coinbase first, and may have a coin stake after it, if it is a proof-of-stake
block; the coinbase of such a block is empty. -/
structure CBlock.Kinds (block : CBlock) (coinbase : CTransaction) (others : List CTransaction) :
    Prop where
  vtx_eq : block.vtx = coinbase :: others
  isCoinBase : coinbase.isCoinBase = true
  not_isCoinBase : ∀ tx ∈ others, tx.isCoinBase = false
  not_isCoinStake : ∀ tx ∈ others.drop 1, tx.isCoinStake = false
  stake : block.isProofOfStake = true → coinbase.valueOut = 0
  time : block.getBlockTime ≤ timeOf coinbase.nTime + getClockDrift block.getBlockTime

lemma CBlock.kinds_of_checkBlock {fCheckPOW fCheckMerkleRoot fFullCheck : Bool}
    (h : block.checkBlock hash env fCheckPOW fCheckMerkleRoot fFullCheck = true) :
    ∃ coinbase others, block.Kinds coinbase others := by
  obtain ⟨coinbase, others, hvtx, hcoinbase, hothers⟩ := coinbase_of_checkBlock h
  have hkinds : block.checkKinds = true := by
    simp only [checkBlock, Bool.and_eq_true] at h
    exact h.1.1.1.1.1.2
  simp only [checkKinds, hvtx, Bool.and_eq_true] at hkinds
  obtain ⟨⟨⟨⟨-, hstakes⟩, hempty⟩, htime⟩, -⟩ := hkinds
  refine ⟨coinbase, others, hvtx, hcoinbase, hothers, fun tx htx => ?_, fun hstake => ?_,
    of_decide_eq_true htime⟩
  · rw [Bool.not_eq_true', List.any_eq_false] at hstakes
    exact Bool.eq_false_iff.mpr (hstakes tx htx)
  · rw [hstake, Bool.true_and, Bool.not_eq_true', Bool.or_eq_false_iff, bne_eq_false_iff_eq] at hempty
    obtain ⟨txout, hvout⟩ := List.length_eq_one_iff.mp hempty.1
    have hzero := hempty.2
    rw [hvout, Bool.not_eq_false'] at hzero
    have hvalue : txout.nValue = 0 := by
      simp only [List.head?_cons, Option.all_some, CTxOut.isEmpty, Bool.and_eq_true,
        beq_iff_eq] at hzero
      exact hzero.1
    rw [CTransaction.valueOut, hvout, List.map_singleton, hvalue]
    rfl

/-- A sum over a block of something that only a coinbase and a coin stake have. -/
lemma CBlock.Kinds.sum_eq {coinbase : CTransaction} {others : List CTransaction}
    (h : block.Kinds coinbase others) {f : CTransaction → ℤ}
    (hf : ∀ tx, tx.isCoinBase = false → tx.isCoinStake = false → f tx = 0) :
    (block.isProofOfStake = false → (block.vtx.map f).sum = f coinbase) ∧
      (block.isProofOfStake = true → ∃ stake rest, block.vtx = coinbase :: stake :: rest ∧
        stake.isCoinStake = true ∧ (block.vtx.map f).sum = f coinbase + f stake) := by
  have hrest : ∀ vtx : List CTransaction, (∀ tx ∈ vtx, tx.isCoinBase = false) →
      (∀ tx ∈ vtx, tx.isCoinStake = false) → (vtx.map f).sum = 0 := by
    intro vtx hbase hstake
    refine List.sum_eq_zero fun n hn => ?_
    obtain ⟨tx, htx, rfl⟩ := List.mem_map.mp hn
    exact hf tx (hbase tx htx) (hstake tx htx)
  have hbase := h.not_isCoinBase
  have hstakes := h.not_isCoinStake
  rw [isProofOfStake, h.vtx_eq]
  rcases others with _ | ⟨tx, rest⟩
  · exact ⟨fun _ => by simp, nofun⟩
  · obtain ⟨hfirst, hothers⟩ := List.forall_mem_cons.mp hbase
    rw [List.drop_one, List.tail_cons] at hstakes
    have hzero := hrest rest hothers hstakes
    simp only [List.map_cons, List.sum_cons, hzero, add_zero]
    refine ⟨fun hnot => ?_, fun hyes => ⟨tx, rest, rfl, hyes, rfl⟩⟩
    rw [hf tx hfirst hnot, add_zero]

/-- What a transaction makes. -/
def CTransaction.mint (hash : Bytes → UInt256) (chain : List OnChain) (tx : CTransaction) : ℤ :=
  if tx.isCoinBase || tx.isCoinStake then tx.valueOut - tx.valueIn hash chain else 0

/-- What a block makes is what it adds to the supply, and the fees. -/
lemma sum_mint_eq (hash : Bytes → UInt256) (all : List OnChain) (vtx : List CTransaction) :
    (vtx.map (CTransaction.mint hash all)).sum = (vtx.map CTransaction.valueOut).sum -
      (vtx.map (CTransaction.valueIn hash all)).sum + (vtx.map (CTransaction.fee hash all)).sum := by
  induction vtx with
  | nil => rfl
  | cons tx vtx ih =>
    simp only [List.map_cons, List.sum_cons, ih, CTransaction.mint, CTransaction.fee]
    split_ifs <;> ring

section Blocks

variable {hash : Bytes → UInt256} {env : Env} {db : TxDB} {all : List OnChain} {block : CBlock}
  {coinbase : CTransaction} {others : List CTransaction}

/-- The bound of `ConnectInputs` on what the coin stake of a block makes; zero for a proof-of-work
block. -/
def CBlock.stakeBound (env : Env) (db : TxDB) (block : CBlock) : Int64 :=
  match block.vtx with
  | _ :: tx :: _ =>
    if tx.isCoinStake then
      match tx.getCoinAge env db with
      | some nCoinAge =>
        getProofOfStakeReward nCoinAge.toInt64 tx.nTime - tx.getMinFee + MIN_TX_FEE
      | none => 0
    else 0
  | _ => 0

section

variable (h : block.Kinds coinbase others)
  (hbalanced : ∀ tx ∈ block.vtx, Balanced hash env db all tx)

include h hbalanced

/-- What a block makes is bounded by its coinbase and its stake. -/
lemma CBlock.Kinds.sum_mint_le :
    (block.vtx.map (CTransaction.mint hash all)).sum ≤
      coinbase.valueOut + (block.stakeBound env db).toInt := by
  have hmint : coinbase.mint hash all = coinbase.valueOut := by
    have hcoinbase := (hbalanced coinbase (by simp [h.vtx_eq])).coinBase h.isCoinBase
    rw [CTransaction.mint, h.isCoinBase, Bool.true_or, if_pos rfl, hcoinbase, sub_zero]
  obtain ⟨hwork, hstake⟩ := h.sum_eq (f := CTransaction.mint hash all) (by
    intro tx hbase hstake
    simp [CTransaction.mint, hbase, hstake])
  cases hkind : block.isProofOfStake with
  | false =>
    have hbound : block.stakeBound env db = 0 := by
      rw [isProofOfStake, h.vtx_eq] at hkind
      rw [stakeBound, h.vtx_eq]
      rcases others with _ | ⟨tx, rest⟩
      · rfl
      · exact if_neg (Bool.eq_false_iff.mp hkind)
    have hzero : (0 : Int64).toInt = 0 := rfl
    rw [hwork hkind, hmint, hbound, hzero, add_zero]
  | true =>
    obtain ⟨stake, rest, hvtx, hcoinstake, hsum⟩ := hstake hkind
    have hbalance := hbalanced stake (by simp [hvtx])
    obtain ⟨nCoinAge, hage, hreward⟩ := hbalance.stake hcoinstake
    have hbound : block.stakeBound env db =
        getProofOfStakeReward nCoinAge.toInt64 stake.nTime - stake.getMinFee + MIN_TX_FEE := by
      unfold stakeBound
      simp [hvtx, hcoinstake, hage]
    have hmint' : stake.mint hash all = stake.valueOut - stake.valueIn hash all := by
      rw [CTransaction.mint, hcoinstake, Bool.or_true, if_pos rfl]
    rw [hsum, hmint, hmint', hbound]
    linarith

/-- What a block adds to the worth of a chain. -/
lemma CBlock.Kinds.sum_gain_le :
    (block.vtx.map CTransaction.gain).sum ≤
      if block.isProofOfStake then stakeGain else MAX_MONEY.toInt * doublingTime := by
  have hgain : coinbase.gain = coinbase.valueOut * doublingTime := if_pos h.isCoinBase
  obtain ⟨hwork, hstake⟩ := h.sum_eq (f := CTransaction.gain) (by
    intro tx hbase hstake
    simp [CTransaction.gain, hbase, hstake])
  cases hkind : block.isProofOfStake with
  | false =>
    have hle := (hbalanced coinbase (by simp [h.vtx_eq])).valueOut.2
    rw [hwork hkind, hgain]
    exact mul_le_mul_of_nonneg_right hle (by decide)
  | true =>
    obtain ⟨stake, rest, hvtx, hcoinstake, hsum⟩ := hstake hkind
    have hnot : stake.isCoinBase = false := by
      have heq := hvtx.symm.trans h.vtx_eq
      exact h.not_isCoinBase stake (by simp [← (List.cons.inj heq).2])
    have hgain' : stake.gain = stakeGain := by
      rw [CTransaction.gain, if_neg (by simp [hnot]), if_pos hcoinstake]
    rw [hsum, hgain, h.stake hkind, hgain', zero_mul, zero_add, if_pos rfl]

end

/-- The coinbase of a block that is connected makes at most the reward and the fees. -/
lemma coinbase_le_of_finishConnect {db' : TxDB} {pindex pprev : CBlockIndex} {s : ConnectState}
    (hvtx : block.vtx = coinbase :: others)
    (h : finishConnect (env.node hash) db block pindex (some pprev) s = .ok db') :
    coinbase.valueOut ≤ (getProofOfWorkReward env.fTestNet pindex.nHeight s.nFees).toInt := by
  unfold finishConnect at h
  obtain ⟨_, -, h⟩ := bind_eq_ok.mp h
  obtain ⟨_, -, h⟩ := bind_eq_ok.mp h
  obtain ⟨nReward, hreward, h⟩ := bind_eq_ok.mp h
  rw [hvtx] at h
  obtain ⟨nValueOut, hout, h⟩ := bind_eq_ok.mp h
  obtain ⟨_, hle, -⟩ := bind_eq_ok.mp h
  obtain ⟨-, -, hsum⟩ := CTransaction.getValueOut_eq_ok (Exit.lift_eq_ok.mp hout)
  have hreward' := Except.ok.inj (Exit.lift_eq_ok.mp hreward)
  rw [← hsum, hreward']
  exact Int64.le_iff_toInt_le.mp (of_decide_eq_true (Exit.require_eq_ok.mp hle))

/-- The reward of a proof-of-work block is its subsidy and the fees. -/
lemma getProofOfWorkReward_eq (fTestNet : Bool) (nHeight : Int32) (nFees : Int64) :
    getProofOfWorkReward fTestNet nHeight nFees =
      getProofOfWorkReward fTestNet nHeight 0 + nFees := by
  simp only [getProofOfWorkReward, Int64.add_zero]

/-- No subsidy is more than that of the first block of the test network. -/
lemma getProofOfWorkReward_le (fTestNet : Bool) (nHeight : Int32) :
    0 ≤ (getProofOfWorkReward fTestNet nHeight 0).toInt ∧
      (getProofOfWorkReward fTestNet nHeight 0).toInt ≤ MAX_MONEY.toInt := by
  unfold getProofOfWorkReward
  split_ifs <;> decide

end Blocks

end HyperStake
