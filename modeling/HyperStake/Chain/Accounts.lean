import HyperStake.Chain.Growth

/-!
# The accounts of a transaction

What `ConnectBlock` has checked of the values of a transaction that it connects (`Balanced`), and
what it does with them: the sums of the block grow by the value that the transaction claims, the
value that it makes and its fee, the supply by the difference of the first two, and the worth of the
chain by no more than the coinbase or the coin stake is allowed (`Posted`).
-/

namespace HyperStake

open ExceptLoop Int64Sum

namespace CTransaction

/-- The fee of a transaction; a coinbase and a coin stake pay none. -/
def fee (hash : Bytes → UInt256) (chain : List OnChain) (tx : CTransaction) : ℤ :=
  if tx.isCoinBase || tx.isCoinStake then 0 else tx.valueIn hash chain - tx.valueOut

/-- What a transaction adds to the worth of a chain, at most. -/
def gain (tx : CTransaction) : ℤ :=
  if tx.isCoinBase then tx.valueOut * doublingTime else if tx.isCoinStake then stakeGain else 0

/-- A coinbase claims nothing, and a coin stake does. -/
lemma isCoinStake_of_isCoinBase {tx : CTransaction} (h : tx.isCoinBase = true) :
    tx.isCoinStake = false := by
  unfold isCoinBase at h
  unfold isCoinStake
  split at h
  · split
    · next txin _ txin' _ _ _ _ hvin _ =>
      simp_all
    · rfl
  · contradiction

end CTransaction

/-- What is checked of the values of a transaction before it joins a chain. -/
structure Balanced (hash : Bytes → UInt256) (env : Env) (db : TxDB) (chain : List OnChain)
    (tx : CTransaction) : Prop where
  valueIn : 0 ≤ tx.valueIn hash chain ∧ tx.valueIn hash chain ≤ MAX_MONEY.toInt
  valueOut : 0 ≤ tx.valueOut ∧ tx.valueOut ≤ MAX_MONEY.toInt
  inputs : tx.isCoinBase = false → ∀ txin ∈ tx.vin, 0 ≤ valueAt hash chain txin.claim
  outputs : ∀ txout ∈ tx.vout, 0 ≤ txout.nValue.toInt
  coinBase : tx.isCoinBase = true → tx.valueIn hash chain = 0
  fee : 0 ≤ tx.fee hash chain
  stake : tx.isCoinStake = true → ∃ nCoinAge, tx.getCoinAge env db = some nCoinAge ∧
    tx.valueOut - tx.valueIn hash chain ≤
      (getProofOfStakeReward nCoinAge.toInt64 tx.nTime - tx.getMinFee + MIN_TX_FEE).toInt

/-- Where the money of a transaction comes from: the outputs that it claims. -/
structure Funded (hash : Bytes → UInt256) (env : Env) (db : TxDB) (chain all : List OnChain)
    (tx : CTransaction) (nIn : Int64) (sources : List (OnChain × ℕ)) : Prop where
  names : sources.map (Ledger.name (indexing hash).toScheme) = tx.claims
  mem : ∀ x ∈ sources, x ∈ Ledger.outputs (indexing hash).toScheme chain
  nIn_eq : nIn.toInt = tx.valueIn hash all
  valueIn_eq : tx.valueIn hash all = (sources.map outputValue).sum
  weight : tx.valueOut * coinWeight tx.nTime ≤ weighted sources + tx.gain
  time : earliestTime ≤ tx.nTime.toNat
  balanced : Balanced hash env db all tx

section Accounts

variable {hash : Bytes → UInt256} {disk : CDiskTxPos → Option CTransaction} {env : Env}
  {db : TxDB} {old chain all : List OnChain} {pindex : CBlockIndex} {s s' : ConnectState}
  {tx : CTransaction}

/-- A coinbase makes money. -/
lemma funded_coinBase {nOut : Int64} (hcoin : tx.isCoinBase = true)
    (hout : tx.getValueOut = .ok nOut) (htime : earliestTime ≤ tx.nTime.toNat) :
    Funded hash env db chain all tx 0 [] := by
  obtain ⟨hrange, hn, hsum⟩ := CTransaction.getValueOut_eq_ok hout
  have hrange' := CTransaction.moneyRange_iff.mp hn
  rw [hsum] at hrange'
  have hclaims : tx.claims = [] := if_pos hcoin
  have hvalueIn : tx.valueIn hash all = 0 := by
    rw [CTransaction.valueIn, hclaims]
    rfl
  refine ⟨hclaims.symm, by simp, hvalueIn.symm, hvalueIn, ?_, htime, ?_⟩
  · rw [CTransaction.gain, if_pos hcoin]
    have hle := mul_le_mul_of_nonneg_left (coinWeight_le htime) hrange'.1
    simpa [weighted] using hle
  · refine ⟨?_, hrange', fun hnot => ?_, fun txout hmem => ?_, fun _ => hvalueIn, ?_, fun hstake => ?_⟩
    · rw [hvalueIn]
      exact ⟨le_rfl, by decide⟩
    · rw [hcoin] at hnot
      contradiction
    · exact (CTransaction.moneyRange_iff.mp (hrange txout hmem)).1
    · rw [CTransaction.fee, hcoin]
      exact le_rfl
    · rw [CTransaction.isCoinStake_of_isCoinBase hcoin] at hstake
      contradiction

/-- What the values of a transaction that spends may be. -/
lemma weight_le_of_sources (hvalid : Ledger.Valid (indexing hash).toScheme chain)
    (hreads : Reads disk env chain) (hold : old ⊆ chain)
    (htimes : ∀ x ∈ chain, earliestTime ≤ x.tx.nTime.toNat) {sources : List (OnChain × ℕ)}
    (hcoin : tx.isCoinBase = false)
    (hsources : List.Forall₂ (Source hash chain tx.nTime) tx.vin sources)
    (hsum : (sources.map outputValue).sum ≤ MAX_MONEY.toInt)
    (htime : earliestTime ≤ tx.nTime.toNat)
    (hpays : tx.isCoinStake = false → tx.valueOut ≤ (sources.map outputValue).sum)
    (hstakes : tx.isCoinStake = true → ∃ nCoinAge,
      tx.getCoinAge env (indexOf hash old) = some nCoinAge ∧
        tx.valueOut - (sources.map outputValue).sum ≤
          (getProofOfStakeReward nCoinAge.toInt64 tx.nTime).toInt) :
    tx.valueOut * coinWeight tx.nTime ≤ weighted sources + tx.gain := by
  rw [CTransaction.gain, if_neg (by simp [hcoin])]
  split_ifs with hstake
  · obtain ⟨nCoinAge, hage, hreward⟩ := hstakes hstake
    by_cases hfork : FORK_TIME < tx.nTime
    · exact coinStake_weight_le_late hsources hfork hreward
    · have hearly := coinStake_weight_le_early hvalid hreads hold hsources hsum htimes
        (UInt32.not_lt.mp hfork) htime hage hreward
      have hgain : 0 ≤ stakeGain := by decide
      linarith
  · have hpaid := hpays (Bool.eq_false_iff.mpr hstake)
    have hweight := mul_coinWeight_le hsources
    have hle := mul_le_mul_of_nonneg_right hpaid (coinWeight_nonneg tx.nTime)
    linarith

/-- The values that are claimed are not negative. -/
lemma valueAt_nonneg_of_sources (hvalid : Ledger.Valid (indexing hash).toScheme all)
    (hsub : chain ⊆ all) {vin : List CTxIn} {sources : List (OnChain × ℕ)}
    (hsources : List.Forall₂ (Source hash chain tx.nTime) vin sources) :
    ∀ txin ∈ vin, 0 ≤ valueAt hash all txin.claim := by
  induction hsources with
  | nil => simp
  | cons hx _ ih =>
    refine List.forall_mem_cons.mpr ⟨?_, ih⟩
    rw [← hx.name, valueAt_name hvalid (hsub (Ledger.mem_outputs.mp hx.mem).1)]
    exact hx.nonneg

/-- A transaction that spends is funded by the outputs that it claims. -/
lemma exists_funded (hvalid : Ledger.Valid (indexing hash).toScheme all) (hsub : chain ⊆ all)
    (hchain : Ledger.Valid (indexing hash).toScheme chain) (hreads : Reads disk env chain)
    (hold : old ⊆ chain) (htimes : ∀ x ∈ chain, earliestTime ≤ x.tx.nTime.toNat)
    (hcoin : tx.isCoinBase = false) {inputs : MapPrevTx}
    {q q' : Std.ExtTreeMap UInt256 CTxIndex} {posThisTx : CDiskTxPos} {nIn nOut : Int64}
    (hfetched : CTransaction.Fetched env (indexOf hash chain) inputs)
    (hin : tx.getValueIn inputs = .ok nIn) (hout : tx.getValueOut = .ok nOut)
    (hconnect : tx.connectInputs env (indexOf hash old) inputs q posThisTx pindex = .ok q') :
    ∃ sources, Funded hash env (indexOf hash old) chain all tx nIn sources := by
  obtain ⟨nValueIn, -, hcheck, -, hvalue, -⟩ := CTransaction.connectInputs_eq_ok hcoin hconnect
  obtain ⟨sources, hsources, hrange, hsum⟩ := sources_of_checkInput hreads hfetched hcheck
  have hclaims : tx.claims = tx.vin.map CTxIn.claim := if_neg (by simp [hcoin])
  have hnIn : nIn = nValueIn := by
    rw [CTransaction.getValueIn, if_neg (by simp [hcoin])] at hin
    exact getValueInLoop_eq hcheck hin
  have hvalueIn : tx.valueIn hash all = (sources.map outputValue).sum := by
    rw [CTransaction.valueIn, hclaims, List.map_map]
    exact sum_valueAt hvalid hsub hsources
  -- the amounts, as integers
  have hrangeIn := CTransaction.moneyRange_iff.mp hrange
  rw [hsum] at hrangeIn
  obtain ⟨hall, hn, hsumOut⟩ := CTransaction.getValueOut_eq_ok hout
  have hrangeOut := CTransaction.moneyRange_iff.mp hn
  rw [hsumOut] at hrangeOut
  have hmax := toInt_MAX_MONEY
  have hdiff : (nOut - nValueIn).toInt = tx.valueOut - (sources.map outputValue).sum := by
    rw [toInt_sub ⟨by omega, by omega⟩, hsumOut, hsum]
  obtain ⟨nValueOut, hout', hstakes, hpays⟩ := CTransaction.checkValue_eq_ok hvalue
  obtain rfl : nOut = nValueOut := Except.ok.inj (hout.symm.trans hout')
  -- the time is not before that of an output that is claimed
  have htime : earliestTime ≤ tx.nTime.toNat := by
    obtain ⟨txin, vin, hvin⟩ := List.exists_cons_of_ne_nil
      (CTransaction.vin_ne_nil_of_connectInputs hcoin hconnect)
    rw [hvin] at hsources
    obtain ⟨x, sources', hx, -, -⟩ := List.forall₂_cons_left_iff.mp hsources
    have hearly := htimes x.1 (Ledger.mem_outputs.mp hx.mem).1
    have hle := UInt32.le_iff_toNat_le.mp hx.time
    omega
  have hpaid : tx.isCoinStake = false → tx.valueOut ≤ (sources.map outputValue).sum := by
    intro hnot
    have hle := Int64.le_iff_toInt_le.mp (hpays hnot).1
    rwa [hsumOut, hsum] at hle
  have hstaked : tx.isCoinStake = true → ∃ nCoinAge,
      tx.getCoinAge env (indexOf hash old) = some nCoinAge ∧
        tx.valueOut - (sources.map outputValue).sum ≤
          (getProofOfStakeReward nCoinAge.toInt64 tx.nTime - tx.getMinFee + MIN_TX_FEE).toInt := by
    intro hstake
    obtain ⟨nCoinAge, hage, hreward⟩ := hstakes hstake
    rw [Int64.le_iff_toInt_le, hdiff] at hreward
    exact ⟨nCoinAge, hage, hreward⟩
  refine ⟨sources, ?_, ?_, ?_, hvalueIn, ?_, htime, ?_⟩
  · rw [hclaims]
    exact map_name_sources hsources
  · intro x hx
    obtain ⟨txin, -, hsource⟩ := exists_source_of_mem hsources hx
    exact hsource.mem
  · rw [hnIn, hsum, hvalueIn]
  · refine weight_le_of_sources hchain hreads hold htimes hcoin hsources hrangeIn.2 htime hpaid ?_
    intro hstake
    obtain ⟨nCoinAge, hage, hreward⟩ := hstaked hstake
    rw [stakeReward_eq] at hreward
    exact ⟨nCoinAge, hage, hreward⟩
  · refine ⟨hvalueIn ▸ hrangeIn, hrangeOut, fun _ => valueAt_nonneg_of_sources hvalid hsub hsources,
      fun txout hmem => (CTransaction.moneyRange_iff.mp (hall txout hmem)).1, fun hyes => ?_, ?_,
      hvalueIn ▸ hstaked⟩
    · rw [hcoin] at hyes
      contradiction
    · unfold CTransaction.fee
      split_ifs with hkind
      · exact le_rfl
      · rw [hcoin, Bool.false_or, Bool.not_eq_true] at hkind
        have hle := hpaid hkind
        rw [hvalueIn]
        linarith

/-- What a turn of the loop of `ConnectBlock` does to the sums of the block, the supply and the worth
of the chain. -/
structure Posted (hash : Bytes → UInt256) (env : Env) (db : TxDB) (chain all : List OnChain)
    (x : OnChain) (s s' : ConnectState) : Prop where
  tracks : Tracks hash db (x :: chain) s'.mapQueuedChanges
  nTxPos : s'.nTxPos = s.nTxPos + x.tx.getSerializeSize
  nValueIn : ∃ nIn : Int64, nIn.toInt = x.tx.valueIn hash all ∧ s'.nValueIn = s.nValueIn + nIn
  nValueOut : ∃ nOut : Int64, nOut.toInt = x.tx.valueOut ∧ s'.nValueOut = s.nValueOut + nOut
  nFees : ∃ nFee : Int64, nFee.toInt = x.tx.fee hash all ∧ s'.nFees = s.nFees + nFee
  supply : supply hash (x :: chain) =
    supply hash chain + x.tx.valueOut - x.tx.valueIn hash all
  worth : worth hash (x :: chain) ≤ worth hash chain + x.tx.gain
  time : earliestTime ≤ x.tx.nTime.toNat
  balanced : Balanced hash env db all x.tx

/-- The turn of the loop for a transaction. -/
lemma Tracks.posted (hs : Tracks hash (indexOf hash old) chain s.mapQueuedChanges)
    (hvalid : Ledger.Valid (indexing hash).toScheme all)
    (hsub : ⟨tx, ⟨pindex.nFile, pindex.nBlockPos, s.nTxPos⟩⟩ :: chain ⊆ all)
    (hreads : Reads disk env chain) (hold : old ⊆ chain)
    (htimes : ∀ x ∈ chain, earliestTime ≤ x.tx.nTime.toNat)
    (hcoinTime : tx.isCoinBase = true → earliestTime ≤ tx.nTime.toNat)
    (hfile : pindex.nFile ≠ 0xffffffff)
    (hinj : ∀ x ∈ chain, x.tx.getHash hash = tx.getHash hash → x.tx = tx)
    (hnew : tx.isCoinBase = true → ∀ x ∈ chain, x.tx ≠ tx)
    (h : connectTransaction hash (env.node hash) (indexOf hash old) pindex false s tx = .ok s') :
    Posted hash env (indexOf hash old) chain all
      ⟨tx, ⟨pindex.nFile, pindex.nBlockPos, s.nTxPos⟩⟩ s s' := by
  have htracks := hs.step hfile hinj hnew h
  obtain ⟨nIn, nOut, q, hout, hpos, -, hvin, hvout, hfees, hbase, hspend⟩ :=
    connectTransaction_eq_ok h
  have hfunded : ∃ sources, Funded hash env (indexOf hash old) chain all tx nIn sources := by
    cases hcoin : tx.isCoinBase with
    | true =>
      rw [(hbase hcoin).2]
      exact ⟨[], funded_coinBase hcoin hout (hcoinTime hcoin)⟩
    | false =>
      obtain ⟨inputs, hfetch, hin, hconnect⟩ := hspend hcoin
      exact exists_funded hvalid (fun x hx => hsub (List.mem_cons_of_mem _ hx)) hs.valid hreads hold
        htimes hcoin (CTransaction.fetched_fetchInputs hs.overlays (Exit.toOption_eq_ok.mp hfetch))
        hin hout (Exit.toOption_eq_ok.mp hconnect)
  obtain ⟨sources, hfunded⟩ := hfunded
  obtain ⟨-, hn, hsum⟩ := CTransaction.getValueOut_eq_ok hout
  refine ⟨htracks, hpos, ⟨nIn, hfunded.nIn_eq, hvin⟩, ⟨nOut, hsum, hvout⟩, ?_, ?_, ?_, hfunded.time,
    hfunded.balanced⟩
  · rw [hfees, CTransaction.fee]
    split_ifs
    · exact ⟨0, rfl, (Int64.add_zero _).symm⟩
    · refine ⟨nIn - nOut, ?_, rfl⟩
      have hmax := toInt_MAX_MONEY
      have hin := hfunded.balanced.valueIn
      have hout' := hfunded.balanced.valueOut
      rw [← hfunded.nIn_eq] at hin ⊢
      rw [← hsum] at hout' ⊢
      exact toInt_sub ⟨by omega, by omega⟩
  · unfold supply
    rw [Ledger.total_cons htracks.valid hfunded.names hfunded.mem, hfunded.valueIn_eq]
    have hown := sum_outputValue ⟨tx, ⟨pindex.nFile, pindex.nBlockPos, s.nTxPos⟩⟩
    dsimp only [indexing] at hown ⊢
    rw [hown]
    ring
  · unfold worth
    rw [Ledger.total_cons htracks.valid hfunded.names hfunded.mem]
    have hown := sum_outputValue ⟨tx, ⟨pindex.nFile, pindex.nBlockPos, s.nTxPos⟩⟩
    have hweight := hfunded.weight
    unfold weighted at hweight
    dsimp only [indexing] at hown ⊢
    rw [List.sum_map_mul_right, hown]
    linarith

/-! ## Several transactions -/

/-- What the loop of `ConnectBlock` does to the sums of the block, the supply and the worth of the
chain. -/
structure Booked (hash : Bytes → UInt256) (env : Env) (db : TxDB) (all chain chain' : List OnChain)
    (vtx : List CTransaction) (s s' : ConnectState) : Prop where
  nValueIn : s'.nValueIn = s.nValueIn + Int64.ofInt (vtx.map (CTransaction.valueIn hash all)).sum
  nValueOut : s'.nValueOut = s.nValueOut + Int64.ofInt (vtx.map CTransaction.valueOut).sum
  nFees : s'.nFees = s.nFees + Int64.ofInt (vtx.map (CTransaction.fee hash all)).sum
  supply : supply hash chain' = supply hash chain + (vtx.map CTransaction.valueOut).sum -
    (vtx.map (CTransaction.valueIn hash all)).sum
  worth : worth hash chain' ≤ worth hash chain + (vtx.map CTransaction.gain).sum
  times : (∀ x ∈ chain, earliestTime ≤ x.tx.nTime.toNat) →
    ∀ x ∈ chain', earliestTime ≤ x.tx.nTime.toNat
  balanced : ∀ tx ∈ vtx, Balanced hash env db all tx

lemma Booked.nil : Booked hash env db all chain chain [] s s := by
  have hzero : Int64.ofInt 0 = 0 := rfl
  constructor <;> simp [hzero]

lemma Booked.cons {x : OnChain} {chain' : List OnChain} {vtx : List CTransaction}
    {s₁ : ConnectState} (hx : Posted hash env db chain all x s s₁)
    (hrest : Booked hash env db all (x :: chain) chain' vtx s₁ s') :
    Booked hash env db all chain chain' (x.tx :: vtx) s s' := by
  obtain ⟨nIn, hnIn, hvin⟩ := hx.nValueIn
  obtain ⟨nOut, hnOut, hvout⟩ := hx.nValueOut
  obtain ⟨nFee, hnFee, hfees⟩ := hx.nFees
  constructor
  · rw [hrest.nValueIn, hvin, List.map_cons, List.sum_cons, ← hnIn, Int64.ofInt_add,
      Int64.ofInt_toInt, Int64.add_assoc]
  · rw [hrest.nValueOut, hvout, List.map_cons, List.sum_cons, ← hnOut, Int64.ofInt_add,
      Int64.ofInt_toInt, Int64.add_assoc]
  · rw [hrest.nFees, hfees, List.map_cons, List.sum_cons, ← hnFee, Int64.ofInt_add,
      Int64.ofInt_toInt, Int64.add_assoc]
  · rw [hrest.supply, hx.supply, List.map_cons, List.map_cons, List.sum_cons, List.sum_cons]
    ring
  · have hle := hrest.worth
    have hstep := hx.worth
    rw [List.map_cons, List.sum_cons]
    linarith
  · exact fun htimes => hrest.times (List.forall_mem_cons.mpr ⟨hx.time, htimes⟩)
  · exact List.forall_mem_cons.mpr ⟨hx.balanced, hrest.balanced⟩

/-- The loop over transactions that become the end of a valid chain. -/
lemma Tracks.booked {vtx : List CTransaction}
    (hs : Tracks hash (indexOf hash old) chain s.mapQueuedChanges)
    (hvalid : Ledger.Valid (indexing hash).toScheme all)
    (hsuffix : (placed pindex s.nTxPos vtx).reverse ++ chain <:+ all)
    (hreads : Reads disk env all) (hold : old ⊆ chain)
    (htimes : ∀ x ∈ chain, earliestTime ≤ x.tx.nTime.toNat)
    (hcoinTime : ∀ tx ∈ vtx, tx.isCoinBase = true → earliestTime ≤ tx.nTime.toNat)
    (hfile : pindex.nFile ≠ 0xffffffff)
    (h : vtx.foldlM (connectTransaction hash (env.node hash) (indexOf hash old) pindex false) s =
      .ok s') :
    Booked hash env (indexOf hash old) all chain ((placed pindex s.nTxPos vtx).reverse ++ chain)
      vtx s s' := by
  induction vtx generalizing s chain with
  | nil =>
    rw [List.foldlM_nil] at h
    cases h
    exact .nil
  | cons tx vtx ih =>
    obtain ⟨s₁, hstep, hrest⟩ := foldlM_cons_eq_ok.mp h
    obtain ⟨hfirst, hothers⟩ := List.forall_mem_cons.mp hcoinTime
    rw [placed, List.reverse_cons, List.append_assoc, List.singleton_append] at hsuffix ⊢
    have hnext : ⟨tx, ⟨pindex.nFile, pindex.nBlockPos, s.nTxPos⟩⟩ :: chain <:+ all :=
      (List.suffix_append _ _).trans hsuffix
    -- the chain stays valid, so the transaction is new
    obtain ⟨newest, hnewest⟩ := hnext
    have hnodup := (hnewest ▸ hvalid).of_append.nodup_id
    have hfresh : ∀ x ∈ chain, x.tx.getHash hash ≠ tx.getHash hash := by
      intro x hx heq
      exact (List.nodup_cons.mp hnodup).1 (List.mem_map.mpr ⟨x, hx, heq⟩)
    have hsub : ⟨tx, ⟨pindex.nFile, pindex.nBlockPos, s.nTxPos⟩⟩ :: chain ⊆ all :=
      hnewest ▸ List.subset_append_right _ _
    have hchain : Reads disk env chain :=
      ⟨hreads.readFromDisk, fun x hx => hreads.stored x (hsub (List.mem_cons_of_mem _ hx)),
        fun x hx => hreads.apart x (hsub (List.mem_cons_of_mem _ hx))⟩
    have hposted := hs.posted hvalid hsub hchain hold htimes hfirst hfile
      (fun x hx heq => absurd heq (hfresh x hx))
      (fun _ x hx heq => hfresh x hx (congrArg (CTransaction.getHash hash) heq)) hstep
    have hpos : s₁.nTxPos = s.nTxPos + tx.getSerializeSize := hposted.nTxPos
    have hresult := ih hposted.tracks (hpos ▸ hsuffix)
      (fun x hx => List.mem_cons_of_mem _ (hold hx))
      (List.forall_mem_cons.mpr ⟨hposted.time, htimes⟩) hothers hrest
    rw [hpos] at hresult
    exact Booked.cons hposted hresult

end Accounts

end HyperStake
