import HyperStake.Chain.Spending

/-!
# The values of outputs

What the inputs of a transaction claim is the value of outputs of the chain, if the node reads from
disk what it has written there.  So the sums that `GetValueIn` and `ConnectInputs` build are sums of
such values, and the coin age of a transaction is at most what the values and the times of these
outputs make it.
-/

namespace HyperStake

open ExceptLoop

/-- The value of an output, given by its transaction and its position. -/
def outputValue (x : OnChain × ℕ) : ℤ := (x.1.tx.vout.getD x.2 {}).nValue.toInt

/-- The sum of the outputs of a chain that are not spent. -/
def supply (hash : Bytes → UInt256) (chain : List OnChain) : ℤ :=
  Ledger.total (indexing hash).toScheme outputValue chain

/-- The value of the output of a chain that an outpoint names. -/
def valueAt (hash : Bytes → UInt256) (chain : List OnChain) (o : UInt256 × ℕ) : ℤ :=
  match chain.find? fun x => x.tx.getHash hash == o.1 with
  | some x => outputValue (x, o.2)
  | none => 0

/-- The sum of the outputs of a chain that a transaction claims. -/
def CTransaction.valueIn (hash : Bytes → UInt256) (chain : List OnChain) (tx : CTransaction) : ℤ :=
  (tx.claims.map (valueAt hash chain)).sum

/-- The outputs of a transaction have the values that their sum is of. -/
lemma sum_outputValue (x : OnChain) :
    ((List.range x.tx.vout.length).map fun n => outputValue (x, n)).sum = x.tx.valueOut := by
  have hmap : ((List.range x.tx.vout.length).map fun n => outputValue (x, n)) =
      (x.tx.vout.map CTxOut.nValue).map Int64.toInt := by
    refine List.ext_getElem (by simp) fun n hn hn' => ?_
    have hlt : n < x.tx.vout.length := by simpa using hn
    simp [outputValue, List.getElem?_eq_getElem hlt]
  rw [hmap]
  rfl

lemma toInt_MAX_MONEY : MAX_MONEY.toInt = 60000000000000 := by decide

/-! ## The outputs that are claimed -/

/-- The node reads from a disk, on which the transactions of a chain are where their positions say;
none is at the position that stands for the memory pool. -/
structure Reads (disk : CDiskTxPos → Option CTransaction) (env : Env) (chain : List OnChain) :
    Prop where
  readFromDisk : ∀ pos tx, env.readFromDisk pos = some tx → disk pos = some tx
  stored : ∀ x ∈ chain, disk x.pos = some x.tx
  apart : ∀ x ∈ chain, x.pos ≠ ⟨1, 1, 1⟩

/-- An output of a chain that an input of a transaction claims. -/
structure Source (hash : Bytes → UInt256) (chain : List OnChain) (nTime : UInt32) (txin : CTxIn)
    (x : OnChain × ℕ) : Prop where
  mem : x ∈ Ledger.outputs (indexing hash).toScheme chain
  name : Ledger.name (indexing hash).toScheme x = txin.claim
  time : x.1.tx.nTime ≤ nTime
  nonneg : 0 ≤ outputValue x

section Sources

variable {hash : Bytes → UInt256} {disk : CDiskTxPos → Option CTransaction} {env : Env}
  {chain : List OnChain} {inputs : MapPrevTx} {tx : CTransaction} {vin : List CTxIn}
  {sources : List (OnChain × ℕ)}

variable {txin : CTxIn} {x : OnChain × ℕ} {pindexBlock : CBlockIndex} {n : Int64} {nTime : UInt32}

lemma Source.getHash_eq (hx : Source hash chain nTime txin x) :
    x.1.tx.getHash hash = txin.prevout.hash :=
  congrArg Prod.fst hx.name

lemma Source.snd_eq (hx : Source hash chain nTime txin x) : x.2 = txin.prevout.n.toNat :=
  congrArg (fun o : UInt256 × ℕ => o.2) hx.name

/-- An outpoint names the output of a valid chain that has its name. -/
lemma valueAt_name (hvalid : Ledger.Valid (indexing hash).toScheme chain) (hx : x.1 ∈ chain) :
    valueAt hash chain (Ledger.name (indexing hash).toScheme x) = outputValue x := by
  unfold valueAt
  cases hfind : chain.find? fun y => y.tx.getHash hash ==
      (Ledger.name (indexing hash).toScheme x).1 with
  | none => exact absurd (List.find?_eq_none.mp hfind x.1 hx) (by simp [Ledger.name, indexing])
  | some y =>
    have hid : y.tx.getHash hash = x.1.tx.getHash hash := by
      have hbeq := List.find?_some hfind
      exact eq_of_beq hbeq
    have hy : y = x.1 := hvalid.eq_of_id (List.mem_of_find?_eq_some hfind) hx hid
    rw [hy]
    rfl

/-- The sum of what some inputs claim. -/
lemma sum_valueAt {all : List OnChain} (hvalid : Ledger.Valid (indexing hash).toScheme all)
    (hsub : chain ⊆ all) (hsources : List.Forall₂ (Source hash chain tx.nTime) vin sources) :
    (vin.map fun txin => valueAt hash all txin.claim).sum = (sources.map outputValue).sum := by
  induction hsources with
  | nil => rfl
  | cons hx _ ih =>
    rw [List.map_cons, List.map_cons, List.sum_cons, List.sum_cons, ih, ← hx.name,
      valueAt_name hvalid (hsub (Ledger.mem_outputs.mp hx.mem).1)]

lemma map_name_sources (hsources : List.Forall₂ (Source hash chain tx.nTime) vin sources) :
    sources.map (Ledger.name (indexing hash).toScheme) = vin.map CTxIn.claim := by
  induction hsources with
  | nil => rfl
  | cons hx _ ih => rw [List.map_cons, List.map_cons, hx.name, ih]

lemma exists_source_of_mem (hsources : List.Forall₂ (Source hash chain tx.nTime) vin sources)
    (hx : x ∈ sources) : ∃ txin ∈ vin, Source hash chain tx.nTime txin x := by
  induction hsources with
  | nil => contradiction
  | cons hy _ ih =>
    rcases List.mem_cons.mp hx with rfl | hmem
    · exact ⟨_, List.mem_cons_self, hy⟩
    · obtain ⟨txin, htxin, hsource⟩ := ih hmem
      exact ⟨txin, List.mem_cons_of_mem _ htxin, hsource⟩

variable {txindex : CTxIndex}

/-- A record of the index is at the position of its transaction. -/
lemma exists_onChain_of_getElem? {h : UInt256} (hget : (indexOf hash chain)[h]? = some txindex) :
    ∃ p ∈ chain, p.tx.getHash hash = h ∧ txindex.pos = p.pos := by
  obtain ⟨p, hp, hid, hput⟩ := Ledger.exists_of_getElem?_index hget
  exact ⟨p, hp, hid, congrArg CTxIndex.pos hput⟩

section

variable (hreads : Reads disk env chain)
  (hfetched : CTransaction.Fetched env (indexOf hash chain) inputs)

include hreads hfetched

/-- `FetchInputs` reads transactions of the chain. -/
lemma exists_onChain_of_fetched {h : UInt256} {txPrev : CTransaction}
    (hprev : inputs[h]? = some (txindex, txPrev)) :
    ∃ p ∈ chain, p.tx.getHash hash = h ∧ p.tx = txPrev := by
  obtain ⟨hget, hread⟩ := hfetched _ _ _ hprev
  obtain ⟨p, hp, hid, hpos⟩ := exists_onChain_of_getElem? hget
  rw [if_neg (hpos ▸ hreads.apart p hp), hpos] at hread
  have hdisk := hreads.readFromDisk _ _ hread
  rw [hreads.stored p hp] at hdisk
  exact ⟨p, hp, hid, Option.some.inj hdisk⟩

/-- One turn of the first loop of `ConnectInputs` adds the value of an output of the chain. -/
lemma source_of_checkInput {nValueIn : Int64} (hstart : moneyRange nValueIn = true)
    (h : CTransaction.checkInput env tx inputs pindexBlock nValueIn txin = .ok n) :
    ∃ x, Source hash chain tx.nTime txin x ∧ moneyRange n = true ∧
      n.toInt = nValueIn.toInt + outputValue x := by
  obtain ⟨txindex, txPrev, txout, hprev, hvout, -, htime, hrange, hn, rfl⟩ :=
    CTransaction.checkInput_eq_ok h
  obtain ⟨p, hp, hid, rfl⟩ := exists_onChain_of_fetched hreads hfetched hprev
  have hvalue : outputValue (p, txin.prevout.n.toNat) = txout.nValue.toInt := by
    simp [outputValue, hvout]
  have hout := CTransaction.moneyRange_iff.mp hrange
  have hin := CTransaction.moneyRange_iff.mp hstart
  have hmax := toInt_MAX_MONEY
  refine ⟨(p, txin.prevout.n.toNat), ⟨?_, ?_, htime, ?_⟩, hn, ?_⟩
  · exact Ledger.mem_outputs.mpr ⟨hp, (List.getElem?_eq_some_iff.mp hvout).1⟩
  · exact Prod.ext hid rfl
  · rw [hvalue]
    exact hout.1
  · rw [hvalue]
    exact Int64Sum.toInt_add ⟨by omega, by omega⟩

/-- The first loop of `ConnectInputs` adds the values of outputs of the chain. -/
lemma sources_of_checkInput
    (h : vin.foldlM (CTransaction.checkInput env tx inputs pindexBlock) 0 = .ok n) :
    ∃ sources, List.Forall₂ (Source hash chain tx.nTime) vin sources ∧ moneyRange n = true ∧
      n.toInt = (sources.map outputValue).sum := by
  refine foldlM_invariant (fun visited (n : Int64) => ∃ sources,
    List.Forall₂ (Source hash chain tx.nTime) visited sources ∧ moneyRange n = true ∧
      n.toInt = (sources.map outputValue).sum) ?_ ⟨[], .nil, by decide, rfl⟩ h
  rintro visited txin rest n n' - ⟨sources, hsources, hn, hsum⟩ hstep
  obtain ⟨x, hx, hn', hsum'⟩ := source_of_checkInput hreads hfetched hn hstep
  refine ⟨sources ++ [x], List.rel_append hsources (.cons hx .nil), hn', ?_⟩
  rw [hsum', hsum, List.map_append, List.sum_append, List.map_singleton, List.sum_singleton]

end

/-- `GetValueIn` adds the same values as `ConnectInputs`. -/
lemma getValueInLoop_eq {nResult n' : Int64}
    (hcheck : vin.foldlM (CTransaction.checkInput env tx inputs pindexBlock) nResult = .ok n)
    (hvalue : vin.foldlM (fun nResult txin => do
      return nResult + (← CTransaction.getOutputFor txin inputs).nValue) nResult = .ok n') :
    n' = n := by
  induction vin generalizing nResult with
  | nil =>
    rw [List.foldlM_nil] at hcheck hvalue
    cases hcheck
    cases hvalue
    rfl
  | cons txin vin ih =>
    obtain ⟨n₁, hstep, hrest⟩ := foldlM_cons_eq_ok.mp hcheck
    obtain ⟨n₂, hstep', hrest'⟩ := foldlM_cons_eq_ok.mp hvalue
    obtain ⟨txindex, txPrev, txout, hprev, hvout, -, -, -, -, rfl⟩ :=
      CTransaction.checkInput_eq_ok hstep
    obtain ⟨txout', hout, hadd⟩ := bind_eq_ok.mp hstep'
    have heq : txout' = txout := by
      unfold CTransaction.getOutputFor at hout
      simp only [hprev, hvout] at hout
      exact (Except.ok.inj hout).symm
    rw [heq] at hadd
    cases hadd
    exact ih hrest hrest'

end Sources

/-! ## Coin age -/

section CoinAge

variable {hash : Bytes → UInt256} {disk : CDiskTxPos → Option CTransaction} {env : Env}
  {old chain : List OnChain} {tx : CTransaction} {vin : List CTxIn}
  {sources : List (OnChain × ℕ)}

/-- The seconds from the time of an output to another time. -/
def ageAt (nTime : UInt32) (x : OnChain × ℕ) : ℤ := nTime.toNat - x.1.tx.nTime.toNat

variable {txin : CTxIn} {x : OnChain × ℕ}

lemma Source.ageAt_nonneg {nTime : UInt32} (hx : Source hash chain nTime txin x) :
    0 ≤ ageAt nTime x := by
  have htime := UInt32.le_iff_toNat_le.mp hx.time
  unfold ageAt
  omega

lemma Source.ageAt_eq {nTime : UInt32} (hx : Source hash chain nTime txin x) :
    ((nTime - x.1.tx.nTime).toNat : ℤ) = ageAt nTime x := by
  have htime := UInt32.le_iff_toNat_le.mp hx.time
  rw [UInt32.toNat_sub_of_le _ _ hx.time, ageAt]
  omega

section

variable (hvalid : Ledger.Valid (indexing hash).toScheme chain) (hreads : Reads disk env chain)
  (hold : old ⊆ chain)

include hvalid hreads hold

/-- The transaction that `GetCoinAge` reads for an input is that of the source of the input. -/
lemma Source.eq_of_read (hx : Source hash chain tx.nTime txin x)
    {txindex : CTxIndex} {txPrev : CTransaction}
    (hget : (indexOf hash old)[txin.prevout.hash]? = some txindex)
    (hread : env.readFromDisk txindex.pos = some txPrev) : x.1.tx = txPrev := by
  obtain ⟨p, hp, hid, hpos⟩ := exists_onChain_of_getElem? hget
  have hsame : x.1 = p := hvalid.eq_of_id (Ledger.mem_outputs.mp hx.mem).1 (hold hp)
    (hx.getHash_eq.trans hid.symm)
  have hdisk := hreads.readFromDisk _ _ hread
  rw [hpos, hreads.stored p (hold hp)] at hdisk
  rw [hsame]
  exact Option.some.inj hdisk

/-- The age of the coins, in seconds times cents, is at most what the sources make it: some of them
are not counted. -/
lemma coinAgeLoop_le
    (hsources : List.Forall₂ (Source hash chain tx.nTime) vin sources) {bnCentSecond r : ℤ}
    (h : CTransaction.coinAgeLoop env (indexOf hash old) tx bnCentSecond vin = some r) :
    bnCentSecond ≤ r ∧ r * CENT.toInt ≤ bnCentSecond * CENT.toInt +
      (sources.map fun x => outputValue x * ageAt tx.nTime x).sum := by
  have hcent : CENT.toInt = 10000 := by decide
  induction hsources generalizing bnCentSecond with
  | nil =>
    rw [CTransaction.coinAgeLoop] at h
    cases h
    simp
  | @cons txin x vin sources hx _ ih =>
    have hterm : 0 ≤ outputValue x * ageAt tx.nTime x := mul_nonneg hx.nonneg hx.ageAt_nonneg
    rw [List.map_cons, List.sum_cons]
    have hskip : CTransaction.coinAgeLoop env (indexOf hash old) tx bnCentSecond vin = some r →
        bnCentSecond ≤ r ∧ r * CENT.toInt ≤ bnCentSecond * CENT.toInt +
          (outputValue x * ageAt tx.nTime x +
            (sources.map fun x => outputValue x * ageAt tx.nTime x).sum) := by
      intro hrest
      obtain ⟨hge, hle⟩ := ih hrest
      exact ⟨hge, by linarith⟩
    rw [CTransaction.coinAgeLoop] at h
    split at h
    · exact hskip h
    next txindex hget =>
    split at h
    · exact hskip h
    next txPrev hread =>
    split at h
    · exact hskip h
    next txout hvout =>
    have htx := hx.eq_of_read hvalid hreads hold hget hread
    split_ifs at h with htime
    split at h
    · contradiction
    split_ifs at h with hyoung
    · exact hskip h
    -- the term that is added is that of the source, divided by a cent
    have hvalue : outputValue x = txout.nValue.toInt := by
      rw [outputValue, htx, hx.snd_eq]
      simp [hvout]
    rw [← htx, ← hvalue, hx.ageAt_eq] at h
    obtain ⟨hge, hle⟩ := ih h
    have hdiv : 0 ≤ (outputValue x * ageAt tx.nTime x).tdiv CENT.toInt :=
      Int.tdiv_nonneg hterm (by rw [hcent]; norm_num)
    have hmul : (outputValue x * ageAt tx.nTime x).tdiv CENT.toInt * CENT.toInt ≤
        outputValue x * ageAt tx.nTime x := by
      rw [Int.tdiv_eq_ediv_of_nonneg hterm]
      exact Int.ediv_mul_le _ (by rw [hcent]; norm_num)
    constructor
    · linarith
    · linarith

end

/-- Values times ages are at most the sum of the values times a bound of the ages. -/
lemma sum_mul_ageAt_le (hsources : List.Forall₂ (Source hash chain tx.nTime) vin sources)
    {bound : ℤ} (hbound : ∀ x ∈ sources, ageAt tx.nTime x ≤ bound) :
    0 ≤ (sources.map fun x => outputValue x * ageAt tx.nTime x).sum ∧
      (sources.map fun x => outputValue x * ageAt tx.nTime x).sum ≤
        (sources.map outputValue).sum * bound := by
  induction hsources with
  | nil => simp
  | @cons txin x vin sources hx _ ih =>
    obtain ⟨hfirst, hothers⟩ := List.forall_mem_cons.mp hbound
    obtain ⟨hnonneg, hle⟩ := ih hothers
    simp only [List.map_cons, List.sum_cons, add_mul]
    exact ⟨add_nonneg (mul_nonneg hx.nonneg hx.ageAt_nonneg) hnonneg,
      add_le_add (mul_le_mul_of_nonneg_left hfirst hx.nonneg) hle⟩

/-- The coin age, in days times coins, of a transaction that claims certain outputs. -/
lemma getCoinAge_le (hvalid : Ledger.Valid (indexing hash).toScheme chain)
    (hreads : Reads disk env chain) (hold : old ⊆ chain)
    (hsources : List.Forall₂ (Source hash chain tx.nTime) tx.vin sources)
    (hsum : (sources.map outputValue).sum ≤ MAX_MONEY.toInt) {nCoinAge : UInt64}
    (h : tx.getCoinAge env (indexOf hash old) = some nCoinAge) :
    0 ≤ nCoinAge.toInt64.toInt ∧ nCoinAge.toInt64.toInt * 86400000000 ≤
      (sources.map fun x => outputValue x * ageAt tx.nTime x).sum := by
  have hages : ∀ x ∈ sources, ageAt tx.nTime x ≤ 4294967295 := by
    intro x _
    have hlt := tx.nTime.toNat_lt
    unfold ageAt
    omega
  obtain ⟨hnonneg, hle⟩ := sum_mul_ageAt_le hsources hages
  have hmax := toInt_MAX_MONEY
  have hcent : CENT.toInt = 10000 := by decide
  have hcoin : COIN.toInt = 1000000 := by decide
  unfold CTransaction.getCoinAge at h
  split_ifs at h with hcoinbase
  · cases h
    exact ⟨le_rfl, by simpa using hnonneg⟩
  · obtain ⟨r, hloop, hage⟩ := Option.map_eq_some_iff.mp h
    obtain ⟨hr, hrle⟩ := coinAgeLoop_le hvalid hreads hold hsources hloop
    rw [hcent, zero_mul, zero_add] at hrle
    -- no division is of a negative number, and the result is small
    have hdays : ((r * CENT.toInt).tdiv COIN.toInt).tdiv (24 * 60 * 60) =
        r * 10000 / 1000000 / 86400 := by
      have hcoins : (r * 10000).tdiv 1000000 = r * 10000 / 1000000 :=
        Int.tdiv_eq_ediv_of_nonneg (by omega)
      rw [hcent, hcoin, hcoins, Int.tdiv_eq_ediv_of_nonneg (by omega)]
      rfl
    rw [hdays] at hage
    have hsmall : nCoinAge.toNat = (r * 10000 / 1000000 / 86400).natAbs := by
      rw [← hage]
      refine UInt64.toNat_ofNat_of_lt' ?_
      change _ < 2 ^ 64
      omega
    rw [Int64Sum.toInt_toInt64 (by omega), hsmall]
    omega

end CoinAge

end HyperStake
