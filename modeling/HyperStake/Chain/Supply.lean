import HyperStake.Chain.ActiveChain
import HyperStake.Chain.BlockSums

/-!
# The money supply

The index of a block says how much money there is (`nMoneySupply`).  Along a chain of blocks that
have been connected, this is the sum of the outputs that have been made and not been spent, and a
block raises it by no more than its reward and the bound of its coin stake
(`ChainRun.conservesMoney`).

No sum of the code overflows on the way.  The sums of a block are small, and the supply is small
because the worth of the chain is: a proof-of-work block adds no more than the outputs of its
coinbase, and has a height up to the cutoff; a proof-of-stake block adds no more than its coin stake
gains, and the height is an `int`.  So coins that are added up never overflow either
(`ChainRun.sum_unspent_le`).
-/

namespace HyperStake

open ExceptLoop Int64Sum

/-! ## Chains of connected blocks -/

/-- A call of `ConnectBlock` that has put a block on a chain. -/
structure ConnectedBy (hash : Bytes → UInt256) (fTestNet : Bool) (env : Env) (pindex : CBlockIndex)
    (r : Registry) (l : Link) (chain : List Link) : Prop where
  accepted : Accepted (indices fTestNet chain) l.block pindex
  result : (connectBlock hash (env.node hash) (indexOf hash (transactions chain)) l.block pindex
    (some (tip fTestNet chain)) false r).result = .ok true
  pindex_eq : l.pindex = (connectBlock hash (env.node hash) (indexOf hash (transactions chain))
    l.block pindex (some (tip fTestNet chain)) false r).pindex

/-- The chains of blocks that have been connected, one after the other. -/
inductive Connected (hash : Bytes → UInt256) (fTestNet : Bool) (known : Set CTransaction)
    (admits : Env → List Link → Prop) : List Link → Prop
  | nil : Connected hash fTestNet known admits []
  | cons {env : Env} {pindex : CBlockIndex} {r : Registry} {l : Link} {chain : List Link} :
      Connected hash fTestNet known admits chain → admits env chain →
      ConnectedBy hash fTestNet env pindex r l chain → (∀ tx ∈ l.block.vtx, tx ∈ known) →
      Connected hash fTestNet known admits (l :: chain)

section Runs

variable {hash : Bytes → UInt256} {fTestNet : Bool} {known : Set CTransaction}
  {admits : Env → List Link → Prop} {began s : ChainState} {chain : List Link} {l : Link}

/-- The chain of every state that calls lead to is one of connected blocks, and so is the one that
the transaction began with. -/
lemma ChainRun.connected (hinj : Set.InjOn (CTransaction.getHash hash) known)
    (hrun : ChainRun hash fTestNet known admits began s) :
    Connected hash fTestNet known admits began.chain ∧
      Connected hash fTestNet known admits s.chain := by
  induction hrun with
  | start => exact ⟨.nil, .nil⟩
  | connect env block pindex r hrun hadmits haccepted hknown hconnect ih =>
    have hdb := (hrun.indexed hinj).2.db_eq
    rw [hdb] at hconnect ⊢
    exact ⟨ih.1, .cons ih.2 hadmits ⟨haccepted, hconnect, rfl⟩ hknown⟩
  | check env block pindex r _ ih => exact ih
  | disconnect env _ _ ih =>
    obtain ⟨hbegan, hchain⟩ := ih
    cases hchain with
    | cons hchain _ _ _ => exact ⟨hbegan, hchain⟩
  | abort _ ih => exact ⟨ih.1, ih.1⟩
  | commit _ ih => exact ⟨ih.2, ih.2⟩

/-- The index of a chain of connected blocks. -/
lemma Connected.indexed (hinj : Set.InjOn (CTransaction.getHash hash) known)
    (h : Connected hash fTestNet known admits chain) :
    Indexed hash fTestNet known ⟨chain, indexOf hash (transactions chain)⟩ := by
  induction h with
  | nil => exact .start
  | @cons env pindex r l chain hchain hadmits hl hknown ih =>
    have hnext := ih.connect hinj hl.accepted hknown hl.result
    have hdb := hnext.db_eq
    dsimp only at hnext hdb
    rw [hdb, ← hl.pindex_eq] at hnext
    exact hnext

lemma Connected.of_suffix {newest : List Link}
    (h : Connected hash fTestNet known admits (newest ++ chain)) :
    Connected hash fTestNet known admits chain := by
  induction newest with
  | nil => exact h
  | cons l newest ih =>
    cases h with
    | cons hchain _ _ _ => exact ih hchain

end Runs

/-! ## The supply of a chain -/

/-- The most that a chain up to a height is worth. -/
def worthLimit (nHeight : ℤ) : ℤ :=
  min nHeight POW_CUTOFF_HEIGHT.toInt * (MAX_MONEY.toInt * doublingTime) + nHeight * stakeGain

/-- What is known of the money of a chain of connected blocks. -/
structure Solvent (hash : Bytes → UInt256) (fTestNet : Bool) (chain : List Link) : Prop where
  supply_eq : (tip fTestNet chain).nMoneySupply.toInt = supply hash (transactions chain)
  worth_le : worth hash (transactions chain) ≤ worthLimit (tip fTestNet chain).nHeight.toInt
  height : 0 ≤ (tip fTestNet chain).nHeight.toInt
  times : ∀ x ∈ transactions chain, earliestTime ≤ x.tx.nTime.toNat
  blockTimes : ∀ a ∈ indices fTestNet chain, earliestTime + 900 ≤ a.nTime.toNat
  values : ∀ x ∈ transactions chain, ∀ txout ∈ x.tx.vout, 0 ≤ txout.nValue.toInt

section Supply

variable {hash : Bytes → UInt256} {fTestNet : Bool} {chain : List Link} {l : Link}

/-- The outputs of a chain have values that are not negative. -/
lemma outputValue_nonneg {txs : List OnChain}
    (h : ∀ x ∈ txs, ∀ txout ∈ x.tx.vout, 0 ≤ txout.nValue.toInt) :
    ∀ x ∈ Ledger.outputs (indexing hash).toScheme txs, 0 ≤ outputValue x := by
  intro x hx
  obtain ⟨hmem, hlt⟩ := Ledger.mem_outputs.mp hx
  have hlt' : x.2 < x.1.tx.vout.length := hlt
  rw [outputValue, List.getD_eq_getElem?_getD, List.getElem?_eq_getElem hlt', Option.getD_some]
  exact h x.1 hmem _ (List.getElem_mem hlt')

/-- A chain has less money than it is worth. -/
lemma Solvent.supply_le (h : Solvent hash fTestNet chain) :
    0 ≤ supply hash (transactions chain) ∧
      supply hash (transactions chain) ≤ 3747200000000000000 := by
  have hnonneg : ∀ x ∈ Ledger.outputs (indexing hash).toScheme (transactions chain),
      0 ≤ outputValue x := outputValue_nonneg h.values
  have hworth : supply hash (transactions chain) * leastWeight ≤ worth hash (transactions chain) := by
    rw [supply, ← Ledger.total_mul_right]
    exact Ledger.total_mono fun x hx =>
      mul_le_mul_of_nonneg_left (leastWeight_le _) (hnonneg x hx)
  have hlimit := h.worth_le
  have hheight := (tip fTestNet chain).nHeight.toInt_lt
  have hcutoff : POW_CUTOFF_HEIGHT.toInt = 21000 := by decide
  have hdouble : MAX_MONEY.toInt * doublingTime = 946080000000000000000 := by decide
  have hgain : stakeGain = 12419855000000000 := by decide
  have hpos := h.height
  rw [leastWeight_eq] at hworth
  rw [worthLimit, hcutoff, hdouble, hgain] at hlimit
  refine ⟨Ledger.total_nonneg hnonneg, ?_⟩
  omega

/-- The output of the genesis block has no value. -/
lemma supply_activeChain (fTestNet : Bool) (chain : List Link) :
    supply hash (activeChain fTestNet chain) = supply hash (transactions chain) := by
  refine Ledger.total_append_of_zero (fun x hx => claims_genesis hx) fun x hx => ?_
  obtain ⟨hmem, hlt⟩ := Ledger.mem_outputs.mp hx
  have htx : x.1.tx = genesisTx := by rw [List.mem_singleton.mp hmem]
  have hlt' : x.2 < x.1.tx.vout.length := hlt
  rw [htx] at hlt'
  have hzero : x.2 = 0 := Nat.lt_one_iff.mp hlt'
  rw [outputValue, htx, hzero]
  rfl

/-- Before the first block there is no money. -/
lemma Solvent.nil : Solvent hash fTestNet [] := by
  have htime : ∀ a ∈ indices fTestNet [], earliestTime + 900 ≤ a.nTime.toNat := by
    intro a ha
    rw [List.mem_singleton.mp ha]
    cases fTestNet <;> decide
  refine ⟨rfl, ?_, le_rfl, nofun, htime, nofun⟩
  change 0 ≤ worthLimit 0
  decide

end Supply

/-! ## A block that is connected -/

/-- A block that has come in a message, and whose transactions are on disk where their positions say;
none is at the position that stands for the memory pool. -/
structure Link.Kept (disk : CDiskTxPos → Option CTransaction) (l : Link) : Prop where
  received : l.block.Received
  stored : ∀ x ∈ l.txs, disk x.pos = some x.tx
  apart : ∀ x ∈ l.txs, x.pos ≠ ⟨1, 1, 1⟩

section Connect

variable {hash : Bytes → UInt256} {fTestNet : Bool} {known : Set CTransaction} {env : Env}
  {disk : CDiskTxPos → Option CTransaction} {pindex : CBlockIndex} {r : Registry} {l : Link}
  {chain : List Link}

/-- The parts of a call of `ConnectBlock` that has connected a block. -/
structure Loop (hash : Bytes → UInt256) (fTestNet : Bool) (env : Env) (pindex : CBlockIndex)
    (l : Link) (chain : List Link) (coinbase : CTransaction) (s : ConnectState) : Prop where
  kinds : ∃ others, l.block.Kinds coinbase others
  length : l.block.Received → l.block.vtx.length ≤ maxTransactions
  loop : l.block.vtx.foldlM (connectTransaction hash (env.node hash)
    (indexOf hash (transactions chain)) pindex false) { nTxPos := firstTxPos l.block pindex } = .ok s
  coinbase_le : coinbase.valueOut ≤
    (getProofOfWorkReward env.fTestNet l.pindex.nHeight s.nFees).toInt
  nMint : l.pindex.nMint = s.nValueOut - s.nValueIn + s.nFees
  nMoneySupply : l.pindex.nMoneySupply =
    (tip fTestNet chain).nMoneySupply + s.nValueOut - s.nValueIn
  nHeight : l.pindex.nHeight = pindex.nHeight
  nTime : l.pindex.nTime = pindex.nTime
  txs : l.txs = placed pindex (firstTxPos l.block pindex) l.block.vtx

lemma ConnectedBy.exists_loop (hl : ConnectedBy hash fTestNet env pindex r l chain) :
    ∃ coinbase s, Loop hash fTestNet env pindex l chain coinbase s := by
  obtain ⟨s, r', tally, hconnect, -, -, -, hpindex⟩ :=
    connectBlock_eq_true hash (env.node hash) hl.result
  obtain ⟨s', hconnect', hfinish⟩ := connectBlock_finish hash (env.node hash) hl.result
  obtain rfl : s = s' := Except.ok.inj (hconnect.symm.trans hconnect')
  obtain ⟨hcheck, hloop⟩ := connectTransactions_eq_ok hconnect
  obtain ⟨coinbase, others, hkinds⟩ := CBlock.kinds_of_checkBlock hcheck
  have hcoinbase := coinbase_le_of_finishConnect hkinds.vtx_eq hfinish
  rw [← hl.pindex_eq] at hcoinbase hpindex
  refine ⟨coinbase, s, ⟨others, hkinds⟩, fun hreceived => CBlock.length_vtx_le hreceived hcheck,
    hloop, hcoinbase, ?_, ?_, ?_, ?_, ?_⟩
  · rw [hpindex]
    rfl
  · rw [hpindex]
    rfl
  · rw [hpindex]
    rfl
  · rw [hpindex]
    rfl
  · refine txs_congr ?_ ?_
    · rw [hpindex]
      rfl
    · rw [hpindex]
      rfl

variable {coinbase : CTransaction} {done : List CTransaction} {s : ConnectState}

/-- The coinbase of an accepted block is not older than the genesis block, up to the drift. -/
lemma Loop.earliest_le (hs : Loop hash fTestNet env pindex l chain coinbase s)
    (haccepted : Accepted (indices fTestNet chain) l.block pindex)
    (hsolvent : Solvent hash fTestNet chain) :
    earliestTime + 900 ≤ l.block.nTime.toNat ∧ earliestTime ≤ coinbase.nTime.toNat := by
  obtain ⟨others, hkinds⟩ := hs.kinds
  obtain ⟨env', hrules⟩ := haccepted.rules
  obtain ⟨pindexPrev, hprev, -, -, -, -, -, hmedian, -⟩ := CBlock.acceptRules_eq_true hrules
  have hne : indices fTestNet chain ≠ [] := by
    intro hnil
    rw [hnil] at hprev
    contradiction
  have hpast := le_getMedianTimePast hne hsolvent.blockTimes
  have hlt := Int64.lt_iff_toInt_lt.mp hmedian
  rw [CBlock.getBlockTime, toInt_timeOf] at hlt
  have hblock : earliestTime + 900 ≤ l.block.nTime.toNat := by omega
  refine ⟨hblock, ?_⟩
  have hdrift : (getClockDrift l.block.getBlockTime).toInt ≤ 900 ∧
      0 ≤ (getClockDrift l.block.getBlockTime).toInt := by
    unfold getClockDrift
    split_ifs <;> decide
  have hcoinbase := coinbase.nTime.toNat_lt
  have hle := Int64.le_iff_toInt_le.mp hkinds.time
  rw [toInt_add (by
    rw [toInt_timeOf]
    constructor <;> omega), toInt_timeOf, CBlock.getBlockTime, toInt_timeOf] at hle
  rw [CBlock.getBlockTime] at hdrift
  omega

/-- A start of a list of transactions has the same positions. -/
lemma placed_prefix (pindex : CBlockIndex) (nTxPos : UInt32) {vtx : List CTransaction}
    (h : done <+: vtx) : placed pindex nTxPos done <+: placed pindex nTxPos vtx := by
  obtain ⟨rest, rfl⟩ := h
  induction done generalizing nTxPos with
  | nil => exact List.nil_prefix
  | cons tx done ih => exact List.cons_prefix_cons.mpr ⟨rfl, ih _⟩

/-- What a call has done after some of the transactions. -/
lemma Loop.booked {s s' : ConnectState} (hs : Loop hash fTestNet env pindex l chain coinbase s)
    (haccepted : Accepted (indices fTestNet chain) l.block pindex)
    (hsolvent : Solvent hash fTestNet chain)
    (hindexed : Indexed hash fTestNet known ⟨chain, indexOf hash (transactions chain)⟩)
    (hvalid : Ledger.Valid (indexing hash).toScheme (transactions (l :: chain)))
    (hreads : Reads disk env (transactions (l :: chain))) (hdone : done <+: l.block.vtx)
    (hloop : done.foldlM (connectTransaction hash (env.node hash) (indexOf hash (transactions chain))
      pindex false) { nTxPos := firstTxPos l.block pindex } = .ok s') :
    Booked hash env (indexOf hash (transactions chain)) (transactions (l :: chain))
      (transactions chain)
      ((placed pindex (firstTxPos l.block pindex) done).reverse ++ transactions chain) done
      { nTxPos := firstTxPos l.block pindex } s' := by
  obtain ⟨others, hkinds⟩ := hs.kinds
  have hearliest := (hs.earliest_le haccepted hsolvent).2
  have hsuffix : (placed pindex (firstTxPos l.block pindex) done).reverse ++ transactions chain <:+
      transactions (l :: chain) := by
    rw [transactions_cons, hs.txs]
    obtain ⟨rest, hrest⟩ := placed_prefix pindex (firstTxPos l.block pindex) hdone
    refine ⟨rest.reverse, ?_⟩
    rw [← hrest, List.reverse_append, List.append_assoc]
  refine Tracks.booked (s := { nTxPos := firstTxPos l.block pindex }) hindexed.tracks hvalid hsuffix
    hreads (List.Subset.refl _) hsolvent.times ?_ haccepted.file hloop
  intro tx htx hcoin
  have hmem := hdone.subset htx
  rw [hkinds.vtx_eq] at hmem
  rcases List.mem_cons.mp hmem with rfl | hother
  · exact hearliest
  · rw [hkinds.not_isCoinBase tx hother] at hcoin
    contradiction

/-- The sums of a block after some of the transactions are those of the integers. -/
lemma Booked.toInt_sums {all chain chain' : List OnChain} {db : TxDB} {nTxPos : UInt32}
    {s' : ConnectState} (h : Booked hash env db all chain chain' done { nTxPos } s')
    (hlen : done.length ≤ maxTransactions) :
    s'.nValueIn.toInt = (done.map (CTransaction.valueIn hash all)).sum ∧
      s'.nValueOut.toInt = (done.map CTransaction.valueOut).sum ∧
      s'.nFees.toInt = (done.map (CTransaction.fee hash all)).sum := by
  obtain ⟨hin, hout, hfee⟩ := smallSums h.balanced hlen
  rw [maxTransactions_mul] at hin hout hfee
  have hofInt : ∀ n : ℤ, 0 ≤ n → n ≤ 4285680000000000000 →
      ((0 : Int64) + Int64.ofInt n).toInt = n := by
    intro n hnonneg hle
    rw [Int64.zero_add]
    exact Int64.toInt_ofInt_of_le (by omega) (by omega)
  refine ⟨?_, ?_, ?_⟩
  · rw [h.nValueIn]
    exact hofInt _ hin.1 hin.2
  · rw [h.nValueOut]
    exact hofInt _ hout.1 hout.2
  · rw [h.nFees]
    exact hofInt _ hfee.1 hfee.2

/-- What the index says of the money after a block, as integers. -/
lemma Loop.toInt_money {all chain' : List OnChain} {db : TxDB}
    (hs : Loop hash fTestNet env pindex l chain coinbase s)
    (hsolvent : Solvent hash fTestNet chain) (hreceived : l.block.Received)
    (hbooked : Booked hash env db all (transactions chain) chain' l.block.vtx
      { nTxPos := firstTxPos l.block pindex } s) :
    l.pindex.nMoneySupply.toInt = supply hash chain' ∧
      l.pindex.nMint.toInt = (l.block.vtx.map (CTransaction.mint hash all)).sum := by
  have hlen := hs.length hreceived
  obtain ⟨hin, hout, hfee⟩ := hbooked.toInt_sums hlen
  obtain ⟨hinLe, houtLe, hfeeLe⟩ := smallSums hbooked.balanced hlen
  rw [maxTransactions_mul] at hinLe houtLe hfeeLe
  have hsupply := hsolvent.supply_le
  have hprev := hsolvent.supply_eq
  rw [hs.nMoneySupply, hs.nMint, hbooked.supply, sum_mint_eq]
  constructor
  · have hadd := toInt_add (a := (tip fTestNet chain).nMoneySupply) (b := s.nValueOut)
      (by rw [hprev, hout]; constructor <;> omega)
    rw [toInt_sub (by rw [hadd, hprev, hout, hin]; constructor <;> omega), hadd, hprev, hout, hin]
  · have hsub := toInt_sub (a := s.nValueOut) (b := s.nValueIn)
      (by rw [hout, hin]; constructor <;> omega)
    rw [toInt_add (by rw [hsub, hout, hin, hfee]; constructor <;> omega), hsub, hout, hin, hfee]

/-- The invariant, for one more block. -/
lemma Solvent.cons (hsolvent : Solvent hash fTestNet chain)
    (hs : Loop hash fTestNet env pindex l chain coinbase s)
    (haccepted : Accepted (indices fTestNet chain) l.block pindex)
    (hbooked : Booked hash env (indexOf hash (transactions chain)) (transactions (l :: chain))
      (transactions chain) (transactions (l :: chain)) l.block.vtx
      { nTxPos := firstTxPos l.block pindex } s) (hreceived : l.block.Received) :
    Solvent hash fTestNet (l :: chain) := by
  obtain ⟨others, hkinds⟩ := hs.kinds
  obtain ⟨pprev, hpprev, hheight⟩ := haccepted.height
  obtain rfl : pprev = tip fTestNet chain := by
    rw [Indexed.head?_indices] at hpprev
    exact (Option.mem_some_iff.mp hpprev).symm
  have hpos := hsolvent.height
  have htip : (tip fTestNet (l :: chain)).nHeight.toInt = (tip fTestNet chain).nHeight.toInt + 1 := by
    rw [← hheight, ← hs.nHeight]
    rfl
  refine ⟨(hs.toInt_money hsolvent hreceived hbooked).1, ?_, by omega,
    hbooked.times hsolvent.times, ?_, ?_⟩
  · have hgain := hkinds.sum_gain_le hbooked.balanced
    have hold := hsolvent.worth_le
    have hnew := hbooked.worth
    have hcutoff : POW_CUTOFF_HEIGHT.toInt = 21000 := by decide
    have hdouble : MAX_MONEY.toInt * doublingTime = 946080000000000000000 := by decide
    have hstake : stakeGain = 12419855000000000 := by decide
    rw [htip]
    rw [worthLimit, hcutoff, hdouble, hstake] at hold ⊢
    split_ifs at hgain with hkind
    · omega
    · -- a proof-of-work block is not above the cutoff
      have hlow : (tip fTestNet chain).nHeight.toInt + 1 ≤ 21000 := by
        obtain ⟨env', hrules⟩ := haccepted.rules
        obtain ⟨pindexPrev, hprev, -, -, -, -, hwork, -⟩ := CBlock.acceptRules_eq_true hrules
        obtain rfl : pindexPrev = tip fTestNet chain := Option.mem_unique hprev hpprev
        have hle := Int32.le_iff_toInt_le.mp (hwork (Bool.eq_false_iff.mpr hkind))
        have hlt := pindex.nHeight.toInt_lt
        have hone : (1 : Int32).toInt = 1 := rfl
        have hcut : POW_CUTOFF_HEIGHT.toInt = 21000 := by decide
        rw [Int32.toInt_add, hone, Int.bmod_eq_of_le (by norm_num; omega) (by norm_num; omega),
          hcut] at hle
        exact hle
      omega
  · refine List.forall_mem_cons.mpr ⟨?_, hsolvent.blockTimes⟩
    rw [hs.nTime, haccepted.time]
    exact (hs.earliest_le haccepted hsolvent).1
  · intro x hx
    rw [transactions_cons, List.mem_append, List.mem_reverse] at hx
    rcases hx with hnew | hold
    · have hmem := List.mem_map_of_mem (f := OnChain.tx) hnew
      rw [map_tx_txs] at hmem
      exact (hbooked.balanced x.tx hmem).outputs
    · exact hsolvent.values x hold

end Connect

/-! ## Conservation of money -/

/-- The sums that the code builds for a block on a chain are those of the integers: the loop of
`ConnectBlock` over the transactions, the values of inputs and outputs, the fee and what a coin stake
makes, the bound of the coin stake, what is stored in the index, and the reward. -/
structure NoOverflow (hash : Bytes → UInt256) (fTestNet : Bool) (env : Env) (pindex : CBlockIndex)
    (l : Link) (chain : List Link) : Prop where
  loop : ∀ done, done <+: l.block.vtx → ∀ s,
    done.foldlM (connectTransaction hash (env.node hash) (indexOf hash (transactions chain)) pindex
      false) { nTxPos := firstTxPos l.block pindex } = .ok s →
    s.nValueIn.toInt = (done.map (CTransaction.valueIn hash (transactions (l :: chain)))).sum ∧
      s.nValueOut.toInt = (done.map CTransaction.valueOut).sum ∧
      s.nFees.toInt = (done.map (CTransaction.fee hash (transactions (l :: chain)))).sum
  inputs : ∀ tx ∈ l.block.vtx, tx.isCoinBase = false → ∀ vin, vin <+: tx.vin →
    InRange (vin.map fun txin => valueAt hash (transactions (l :: chain)) txin.claim).sum
  outputs : ∀ tx ∈ l.block.vtx, ∀ vout, vout <+: tx.vout →
    InRange (total (vout.map CTxOut.nValue))
  differences : ∀ tx ∈ l.block.vtx,
    InRange (tx.valueIn hash (transactions (l :: chain)) - tx.valueOut) ∧
      InRange (tx.valueOut - tx.valueIn hash (transactions (l :: chain)))
  stake : ∀ tx ∈ l.block.vtx, ∀ nCoinAge : Int64,
    InRange ((getProofOfStakeReward nCoinAge tx.nTime).toInt - tx.getMinFee.toInt) ∧
      InRange ((getProofOfStakeReward nCoinAge tx.nTime).toInt - tx.getMinFee.toInt +
        MIN_TX_FEE.toInt)
  nMint : InRange ((l.block.vtx.map CTransaction.valueOut).sum -
      (l.block.vtx.map (CTransaction.valueIn hash (transactions (l :: chain)))).sum) ∧
    l.pindex.nMint.toInt = (l.block.vtx.map CTransaction.valueOut).sum -
      (l.block.vtx.map (CTransaction.valueIn hash (transactions (l :: chain)))).sum +
      (l.block.vtx.map (CTransaction.fee hash (transactions (l :: chain)))).sum
  nMoneySupply : InRange ((tip fTestNet chain).nMoneySupply.toInt +
      (l.block.vtx.map CTransaction.valueOut).sum) ∧
    l.pindex.nMoneySupply.toInt = (tip fTestNet chain).nMoneySupply.toInt +
      (l.block.vtx.map CTransaction.valueOut).sum -
      (l.block.vtx.map (CTransaction.valueIn hash (transactions (l :: chain)))).sum
  reward : InRange ((getProofOfWorkReward fTestNet l.pindex.nHeight 0).toInt +
    (l.block.vtx.map (CTransaction.fee hash (transactions (l :: chain)))).sum)

/-- The money of a chain, and what its last block adds to it. -/
structure ConservesMoney (hash : Bytes → UInt256) (fTestNet : Bool) (env : Env)
    (pindex : CBlockIndex) (l : Link) (chain : List Link) : Prop where
  supply_eq : l.pindex.nMoneySupply.toInt = supply hash (activeChain fTestNet (l :: chain))
  raise_le : l.pindex.nMoneySupply.toInt - (tip fTestNet chain).nMoneySupply.toInt ≤
    (getProofOfWorkReward fTestNet l.pindex.nHeight 0).toInt +
      (l.block.stakeBound env (indexOf hash (transactions chain))).toInt
  noOverflow : NoOverflow hash fTestNet env pindex l chain

section Conservation

variable {hash : Bytes → UInt256} {fTestNet : Bool} {known : Set CTransaction} {env : Env}
  {disk : CDiskTxPos → Option CTransaction} {pindex : CBlockIndex} {r : Registry} {l : Link}
  {chain : List Link}

/-- The start of a sum of numbers that are not negative is in range if the sum is. -/
lemma inRange_sum_prefix {values start : List ℤ} (h : start <+: values)
    (hnonneg : ∀ v ∈ values, 0 ≤ v) (hle : values.sum ≤ MAX_MONEY.toInt) : InRange start.sum := by
  obtain ⟨rest, rfl⟩ := h
  have hstart : 0 ≤ start.sum := List.sum_nonneg fun v hv => hnonneg v (List.mem_append_left _ hv)
  have hrest : 0 ≤ rest.sum := List.sum_nonneg fun v hv => hnonneg v (List.mem_append_right _ hv)
  have hmax := toInt_MAX_MONEY
  rw [List.sum_append] at hle
  constructor <;> omega

/-- The bound of a coin stake does not overflow: a reward is divided by the days of a year, or has a
cap. -/
lemma inRange_stakeReward (nCoinAge : Int64) (tx : CTransaction) :
    InRange ((getProofOfStakeReward nCoinAge tx.nTime).toInt - tx.getMinFee.toInt) ∧
      InRange ((getProofOfStakeReward nCoinAge tx.nTime).toInt - tx.getMinFee.toInt +
        MIN_TX_FEE.toInt) := by
  have hfee : MIN_TX_FEE.toInt = 10 := by decide
  have hyear : (365 : Int64).toInt = 365 := by decide
  have hdiv : ∀ a : Int64, -30000000000000000 ≤ (a / 365).toInt := by
    intro a
    have hge := a.le_toInt
    rw [Int64.toInt_div_of_ne_right _ _ (by decide), hyear]
    rcases le_total 0 a.toInt with hpos | hneg
    · rw [Int.tdiv_eq_ediv_of_nonneg hpos]
      omega
    · have hopposite : a.toInt.tdiv 365 = -(-a.toInt / 365) := by
        rw [← Int.tdiv_eq_ediv_of_nonneg (by omega), Int.neg_tdiv, neg_neg]
      rw [hopposite]
      omega
  have hge : -30000000000000000 ≤ (getProofOfStakeReward nCoinAge tx.nTime).toInt := by
    unfold getProofOfStakeReward
    split_ifs
    · have hcap : (1000 * COIN : Int64).toInt = 1000000000 := by decide
      unfold getProofOfStakeRewardV2
      rcases Std.min_eq_or (a := nCoinAge * MAX_MINT_PROOF_OF_STAKEV2 / 365) (b := 1000 * COIN)
        with hmin | hmin
      · rw [hmin]
        exact hdiv _
      · rw [hmin, hcap]
        norm_num
    · exact hdiv _
  have hlt := (getProofOfStakeReward nCoinAge tx.nTime).toInt_lt
  rw [CTransaction.getMinFee_eq, hfee]
  constructor <;> constructor <;> omega

/-- A block that is connected after a chain conserves money. -/
lemma conservesMoney_of_connectedBy (hfTestNet : env.fTestNet = fTestNet)
    (hl : ConnectedBy hash fTestNet env pindex r l chain) (hreceived : l.block.Received)
    (hsolvent : Solvent hash fTestNet chain)
    (hindexed : Indexed hash fTestNet known ⟨chain, indexOf hash (transactions chain)⟩)
    (hvalid : Ledger.Valid (indexing hash).toScheme (transactions (l :: chain)))
    (hreads : Reads disk env (transactions (l :: chain))) :
    ConservesMoney hash fTestNet env pindex l chain ∧ Solvent hash fTestNet (l :: chain) := by
  obtain ⟨coinbase, s, hs⟩ := hl.exists_loop
  obtain ⟨others, hkinds⟩ := hs.kinds
  have hbooked := hs.booked hl.accepted hsolvent hindexed hvalid hreads (List.prefix_refl _) hs.loop
  rw [← hs.txs, ← transactions_cons] at hbooked
  have hlen := hs.length hreceived
  have hnext := hsolvent.cons hs hl.accepted hbooked hreceived
  obtain ⟨hmoney, hmint⟩ := hs.toInt_money hsolvent hreceived hbooked
  obtain ⟨hin, hout, hfee⟩ := smallSums hbooked.balanced hlen
  obtain ⟨-, -, hfees⟩ := hbooked.toInt_sums hlen
  rw [maxTransactions_mul] at hin hout hfee
  have hprev := hsolvent.supply_eq
  have hsupply := hsolvent.supply_le
  have hmax := toInt_MAX_MONEY
  have hreward := getProofOfWorkReward_le fTestNet l.pindex.nHeight
  refine ⟨⟨?_, ?_, ?_⟩, hnext⟩
  · rw [supply_activeChain]
    exact hmoney
  · -- the fees that the coinbase takes are taken from the others
    have hcoinbase := hs.coinbase_le
    rw [hfTestNet, getProofOfWorkReward_eq, toInt_add (by rw [hfees]; constructor <;> omega),
      hfees] at hcoinbase
    have hmade := hkinds.sum_mint_le hbooked.balanced
    rw [sum_mint_eq] at hmade
    rw [hmoney, hprev, hbooked.supply]
    linarith
  · refine ⟨?_, ?_, ?_, ?_, fun tx _ nCoinAge => inRange_stakeReward nCoinAge tx, ⟨?_, ?_⟩,
      ⟨?_, ?_⟩, ?_⟩
    · intro done hdone s' hloop
      have hstart := hs.booked hl.accepted hsolvent hindexed hvalid hreads hdone hloop
      exact hstart.toInt_sums (hdone.length_le.trans hlen)
    · intro tx htx hcoin vin hvin
      have hbalanced := hbooked.balanced tx htx
      have hle := hbalanced.valueIn.2
      rw [CTransaction.valueIn, CTransaction.claims, if_neg (by simp [hcoin]), List.map_map] at hle
      refine inRange_sum_prefix (hvin.map _) (fun v hv => ?_) hle
      obtain ⟨txin, htxin, rfl⟩ := List.mem_map.mp hv
      exact hbalanced.inputs hcoin txin htxin
    · intro tx htx vout hvout
      have hbalanced := hbooked.balanced tx htx
      refine inRange_sum_prefix ((hvout.map CTxOut.nValue).map Int64.toInt) (fun v hv => ?_)
        hbalanced.valueOut.2
      obtain ⟨nValue, hnValue, rfl⟩ := List.mem_map.mp hv
      obtain ⟨txout, htxout, rfl⟩ := List.mem_map.mp hnValue
      exact hbalanced.outputs txout htxout
    · intro tx htx
      have hbalanced := hbooked.balanced tx htx
      have hvalueIn := hbalanced.valueIn
      have hvalueOut := hbalanced.valueOut
      constructor <;> constructor <;> omega
    · constructor <;> omega
    · rw [hmint, sum_mint_eq]
    · rw [hprev]
      constructor <;> omega
    · rw [hmoney, hprev, hbooked.supply]
    · constructor <;> omega

/-- A chain of connected blocks on disk. -/
lemma reads_of_kept (hkept : ∀ l ∈ chain, l.Kept disk)
    (hread : ∀ pos tx, env.readFromDisk pos = some tx → disk pos = some tx) :
    Reads disk env (transactions chain) := by
  refine ⟨hread, fun x hx => ?_, fun x hx => ?_⟩
  all_goals
    obtain ⟨l, hl, hmem⟩ := List.mem_flatMap.mp hx
  · exact (hkept l hl).stored x (List.mem_reverse.mp hmem)
  · exact (hkept l hl).apart x (List.mem_reverse.mp hmem)

/-- The last block of a chain of connected blocks conserves money, and so have the others. -/
lemma Connected.solvent {admits : Env → List Link → Prop}
    (hinj : Set.InjOn (CTransaction.getHash hash) known)
    (hadmits : ∀ env chain, admits env chain → env.fTestNet = fTestNet ∧
      ∀ pos tx, env.readFromDisk pos = some tx → disk pos = some tx)
    (h : Connected hash fTestNet known admits chain) (hkept : ∀ l ∈ chain, l.Kept disk) :
    Solvent hash fTestNet chain ∧ ∀ l ∈ chain.head?, ∃ env pindex r, admits env chain.tail ∧
      ConnectedBy hash fTestNet env pindex r l chain.tail ∧
      ConservesMoney hash fTestNet env pindex l chain.tail := by
  induction h with
  | nil => exact ⟨.nil, nofun⟩
  | @cons env pindex r l chain hchain hadmit hl hknown ih =>
    obtain ⟨hlast, hothers⟩ := List.forall_mem_cons.mp hkept
    have hsolvent := (ih hothers).1
    have hvalid := ((Connected.cons hchain hadmit hl hknown).indexed hinj).tracks.valid
    obtain ⟨hfTestNet, hread⟩ := hadmits env chain hadmit
    obtain ⟨hconserves, hnext⟩ := conservesMoney_of_connectedBy hfTestNet hl hlast.received hsolvent
      (hchain.indexed hinj) hvalid (reads_of_kept hkept hread)
    refine ⟨hnext, fun l' hl' => ?_⟩
    obtain rfl : l = l' := Option.some.inj hl'
    exact ⟨env, pindex, r, hadmit, hl, hconserves⟩

end Conservation

/-- Along the chain of every state that calls lead to, on a node that reads what is on disk, every
block has been connected by a call that conserves money. -/
theorem ChainRun.conservesMoney {hash : Bytes → UInt256} {fTestNet : Bool}
    {known : Set CTransaction} {admits : Env → List Link → Prop} {began s : ChainState}
    (hinj : Set.InjOn (CTransaction.getHash hash) known)
    (hrun : ChainRun hash fTestNet known admits began s)
    {disk : CDiskTxPos → Option CTransaction}
    (hadmits : ∀ env chain, admits env chain → env.fTestNet = fTestNet ∧
      ∀ pos tx, env.readFromDisk pos = some tx → disk pos = some tx)
    (hkept : ∀ l ∈ s.chain, l.Kept disk) {l : Link} {chain : List Link}
    (hchain : l :: chain <:+ s.chain) :
    ∃ env pindex r, admits env chain ∧ ConnectedBy hash fTestNet env pindex r l chain ∧
      ConservesMoney hash fTestNet env pindex l chain := by
  have hall := (hrun.connected hinj).2
  obtain ⟨newest, hnewest⟩ := hchain
  rw [← hnewest] at hall hkept
  exact (hall.of_suffix.solvent hinj hadmits fun l' hl' =>
    hkept l' (List.mem_append_right _ hl')).2 l rfl

/-- The disk with the first block. -/
def firstDisk (pos : CDiskTxPos) : Option CTransaction :=
  if pos = ⟨1, 300, 300 + 81⟩ then some firstCoinBase else none

lemma kept_firstState : ∀ l ∈ firstState.chain, l.Kept firstDisk := by
  intro l hl
  obtain rfl := List.mem_singleton.mp hl
  have hpindex : firstOutcome.pindex.nFile = 1 ∧ firstOutcome.pindex.nBlockPos = 300 := by
    decide +kernel
  have htxs : Link.txs ⟨firstBlock, firstOutcome.pindex⟩ =
      placed firstIndex (firstTxPos firstBlock firstIndex) firstBlock.vtx :=
    txs_congr hpindex.1 hpindex.2
  have hpos : firstTxPos firstBlock firstIndex = 381 := by decide +kernel
  have hlong : firstBlock.serialize.length ≤ MAX_SIZE := by decide +kernel
  refine ⟨hlong, fun x hx => ?_, fun x hx => ?_⟩
  · rw [htxs, hpos] at hx
    rw [List.mem_singleton.mp hx]
    rfl
  · rw [htxs, hpos] at hx
    rw [List.mem_singleton.mp hx]
    decide

/-- The first block makes what its index says. -/
theorem conservesMoney_firstBlock : ∃ env pindex r, env = sampleEnv ∧
    ConnectedBy sampleHash false env pindex r ⟨firstBlock, firstOutcome.pindex⟩ [] ∧
      ConservesMoney sampleHash false env pindex ⟨firstBlock, firstOutcome.pindex⟩ [] := by
  have hrun : ChainRun sampleHash false {firstCoinBase} (fun env _ => env = sampleEnv) {}
      firstState :=
    .connect sampleEnv firstBlock firstIndex {} .start rfl accepted_firstBlock
      (by simp [firstBlock]) firstOutcome_result
  have hreads : ∀ (env : Env) (_ : List Link), env = sampleEnv → env.fTestNet = false ∧
      ∀ pos tx, env.readFromDisk pos = some tx → firstDisk pos = some tx := by
    rintro env - rfl
    refine ⟨rfl, ?_⟩
    intro pos tx hread
    cases hread
  exact ChainRun.conservesMoney (Set.injOn_singleton _ _) hrun hreads kept_firstState
    (List.suffix_refl _)

/-- Whichever unspent outputs of the active chain are added up, each once, the sum is no more than
the money supply, which is less than half of what an `int64` holds. -/
theorem ChainRun.sum_unspent_le {hash : Bytes → UInt256} {fTestNet : Bool}
    {known : Set CTransaction} {admits : Env → List Link → Prop} {began s : ChainState}
    (hinj : Set.InjOn (CTransaction.getHash hash) known)
    (hrun : ChainRun hash fTestNet known admits began s)
    {disk : CDiskTxPos → Option CTransaction}
    (hadmits : ∀ env chain, admits env chain → env.fTestNet = fTestNet ∧
      ∀ pos tx, env.readFromDisk pos = some tx → disk pos = some tx)
    (hkept : ∀ l ∈ s.chain, l.Kept disk) {coins : List (OnChain × ℕ)}
    (hcoins : coins.Sublist (Ledger.unclaimed (indexing hash).toScheme (transactions s.chain))) :
    0 ≤ (coins.map outputValue).sum ∧
      (coins.map outputValue).sum ≤ (tip fTestNet s.chain).nMoneySupply.toInt ∧
      (tip fTestNet s.chain).nMoneySupply.toInt ≤ 3747200000000000000 := by
  have hsolvent := ((hrun.connected hinj).2.solvent hinj hadmits hkept).1
  have hnonneg : ∀ v ∈ (Ledger.unclaimed (indexing hash).toScheme
      (transactions s.chain)).map outputValue, 0 ≤ v :=
    List.forall_mem_map.mpr fun x hx =>
      outputValue_nonneg hsolvent.values x (List.mem_of_mem_filter hx)
  have hsub := hcoins.map outputValue
  rw [hsolvent.supply_eq]
  exact ⟨List.sum_nonneg fun v hv => hnonneg v (hsub.subset hv), hsub.sum_le_sum hnonneg,
    hsolvent.supply_le.2⟩

/-- The coins of the first block. -/
theorem sum_unspent_firstState :
    0 ≤ ((Ledger.unclaimed (indexing sampleHash).toScheme
      (transactions firstState.chain)).map outputValue).sum ∧
    ((Ledger.unclaimed (indexing sampleHash).toScheme
      (transactions firstState.chain)).map outputValue).sum ≤
        (tip false firstState.chain).nMoneySupply.toInt ∧
    (tip false firstState.chain).nMoneySupply.toInt ≤ 3747200000000000000 := by
  have hrun : ChainRun sampleHash false {firstCoinBase} (fun env _ => env = sampleEnv) {}
      firstState :=
    .connect sampleEnv firstBlock firstIndex {} .start rfl accepted_firstBlock
      (by simp [firstBlock]) firstOutcome_result
  refine ChainRun.sum_unspent_le (Set.injOn_singleton _ _) hrun ?_ kept_firstState
    (List.Sublist.refl _)
  rintro env - rfl
  refine ⟨rfl, fun pos tx hread => ?_⟩
  cases hread

end HyperStake
