import HyperStake.Chain.ActiveChain
import HyperStake.Library.InverseIndex

/-!
# The memory pool

The transactions that a node has accepted and that are in no block of its best chain, with an index
of the outpoints that they claim.  `accept` runs through many checks before it stores a transaction;
the check of a proposal comes after it, so a refused proposal is stored all the same
(`accept_eq_false_iff`).  Apart from that the index is the inverse of the pool in every run of the
pool's operations (`PoolRun.consistent`), which leave no other trace (`PoolRun.eq_of_mem_iff`).

A transaction on its own is checked by the functions that check those of a block, called with other
flags: an input may claim an output of a transaction in the pool, signatures are never skipped, and
no changes are queued.
-/

namespace HyperStake

open ExceptLoop

/-- An input point: the transaction of the pool that a pointer leads to, by its hash, and the
position of an input of it. -/
structure CInPoint where
  ptx : UInt256
  n : UInt32
  deriving DecidableEq, Repr

/-- The transactions of the pool by hash, and the inputs that claim outpoints. -/
structure CTxMemPool where
  mapTx : Std.ExtTreeMap UInt256 CTransaction := ∅
  mapNextTx : Std.ExtTreeMap COutPoint CInPoint := ∅

/-- What `accept` asks of the scripts of a transaction and of the limit on free transactions. -/
structure PoolRules where
  /-- `CTransaction::IsStandard`. -/
  isStandard : CTransaction → Bool
  /-- `AreInputsStandard`, on the previous transactions. -/
  areInputsStandard : CTransaction → MapPrevTx → Bool
  /-- The limit refuses a transaction that pays less than the relay fee. -/
  isRateLimited : CTransaction → Bool

/-! ## Checking the inputs of a transaction on its own -/

namespace CTransaction

/-- One turn of the loop of `FetchInputs` that reads the previous transactions: one that has no
record is looked for in the pool, and none of its outputs is spent. -/
def fetchLooseInput (env : Env) (db : TxDB) (pool : CTxMemPool) (inputsRet : MapPrevTx)
    (txin : CTxIn) : Except Exit MapPrevTx :=
  let prevout := txin.prevout
  if inputsRet.contains prevout.hash then .ok inputsRet
  else do
    let prev ← Exit.requireSome (match db[prevout.hash]? with
      | some txindex =>
        (if txindex.pos = ⟨1, 1, 1⟩ then pool.mapTx[prevout.hash]?
          else env.readFromDisk txindex.pos).map fun txPrev => (txindex, txPrev)
      | none => pool.mapTx[prevout.hash]?.map fun txPrev => (.ofPos {} txPrev.vout.length, txPrev))
    return inputsRet.insert prevout.hash prev

/-- `FetchInputs`, for a transaction on its own; an exit says whether inputs are missing, and not
invalid. -/
def fetchLooseInputs (env : Env) (db : TxDB) (pool : CTxMemPool) (tx : CTransaction) :
    Except (Exit × Bool) MapPrevTx :=
  if tx.isCoinBase then .ok ∅
  else do
    let inputsRet ← (tx.vin.foldlM (fetchLooseInput env db pool) ∅).mapError fun exit =>
      (exit, true)
    (tx.vin.forM (checkRange inputsRet)).mapError fun exit => (exit, false)
    return inputsRet

/-- One turn of the second loop of `ConnectInputs`, for a transaction on its own. -/
def spendLooseInput (env : Env) (tx : CTransaction) (inputs : MapPrevTx) (input : CTxIn × ℕ) :
    Except Exit MapPrevTx := do
  let prevout := input.1.prevout
  let (txindex, txPrev) ← prevOf inputs input.1
  -- check for conflicts (double-spend)
  Exit.require (txindex.vSpent.getD prevout.n.toNat {}).isNull
  Exit.require (env.verifySignature txPrev tx input.2 true)
  let txindex := { txindex with vSpent := txindex.vSpent.set prevout.n.toNat ⟨1, 1, 1⟩ }
  return inputs.insert prevout.hash (txindex, txPrev)

/-- `ConnectInputs`, for a transaction on its own after the best block. -/
def connectLooseInputs (env : Env) (db : TxDB) (tx : CTransaction) (inputs : MapPrevTx)
    (pindexBest : CBlockIndex) : Except Exit Unit :=
  if tx.isCoinBase then .ok ()
  else do
    let nValueIn ← tx.vin.foldlM (checkInput env tx inputs pindexBest) 0
    let _ ← tx.vin.zipIdx.foldlM (spendLooseInput env tx) inputs
    checkValue env db tx nValueIn

end CTransaction

/-! ## The operations of the pool -/

namespace CTxMemPool

def addUnchecked (hash : UInt256) (tx : CTransaction) (pool : CTxMemPool) : CTxMemPool where
  mapTx := pool.mapTx.insert hash tx
  mapNextTx := tx.vin.zipIdx.foldl (fun mapNextTx input =>
    mapNextTx.insert input.1.prevout ⟨hash, UInt32.ofNat input.2⟩) pool.mapNextTx

/-- `remove`, of the transaction with the hash of the given one and of the outpoints that the given
one claims. -/
def remove (hash : Bytes → UInt256) (tx : CTransaction) (pool : CTxMemPool) : CTxMemPool :=
  if pool.mapTx.contains (tx.getHash hash) then
    { mapTx := pool.mapTx.erase (tx.getHash hash)
      mapNextTx := tx.vin.foldl (fun mapNextTx txin => mapNextTx.erase txin.prevout)
        pool.mapNextTx }
  else pool

def clear (_ : CTxMemPool) : CTxMemPool := {}

/-- The loop of `accept` that looks for conflicts with the transactions of the pool. It returns at
the first one; what the source has after that, the replacement of an older transaction, is not
reached. -/
def checkConflicts (pool : CTxMemPool) (tx : CTransaction) : Except Exit Unit := do
  Exit.require (!(tx.vin.take (2 ^ 32)).any fun txin => pool.mapNextTx.contains txin.prevout)
  Exit.lift (loopTo tx.vin.length)

/-- The checks of `accept` before it looks at the inputs. -/
def checkLoose (hash : Bytes → UInt256) (env : Env) (rules : PoolRules) (db : TxDB)
    (pool : CTxMemPool) (tx : CTransaction) (fCheckInputs : Bool) : Except Exit Unit := do
  Exit.require tx.checkTransaction
  -- coinbase and coinstake are only valid in a block, not as a loose transaction
  Exit.require (!tx.isCoinBase)
  Exit.require (!tx.isCoinStake)
  Exit.require (tx.nLockTime ≤ 2147483647)
  Exit.require (env.fTestNet || rules.isStandard tx)
  -- do we already have it?
  Exit.require (!pool.mapTx.contains (tx.getHash hash))
  Exit.require (!(fCheckInputs && db.contains (tx.getHash hash)))
  pool.checkConflicts tx

/-- The checks of `accept` on the inputs. -/
def checkInputs (env : Env) (rules : PoolRules) (db : TxDB) (pindexBest : CBlockIndex)
    (pool : CTxMemPool) (tx : CTransaction) : Except (Exit × Bool) Unit := do
  let mapInputs ← tx.fetchLooseInputs env db pool
  (do
    Exit.require (rules.areInputsStandard tx mapInputs || env.fTestNet)
    let nFees := (← Exit.lift (tx.getValueIn mapInputs)) - (← Exit.lift tx.getValueOut)
    -- don't accept it if it can't get into a block
    Exit.require (nFees ≥ tx.getMinFee 1000 true tx.getSerializeSize)
    Exit.require (!(decide (nFees < MIN_RELAY_TX_FEE) && rules.isRateLimited tx))
    tx.connectLooseInputs env db mapInputs pindexBest).mapError fun exit => (exit, false)

/-- The end of `accept`: a proposal is verified. -/
def checkProposal (hash : Bytes → UInt256) (env : Env) (proposalManager : CVoteProposalManager)
    (tx : CTransaction) : Except Fault Bool := do
  if ← tx.isProposal then
    let (_, proposal) ← proposalFromTransaction tx {}
    proposalManager.checkProposal hash env.nBestHeight proposal
  else return true

/-- What a call of `accept` leaves behind: its result, whether it found that inputs are missing, and
the pool. -/
structure AcceptOutcome where
  result : Except Fault Bool
  fMissingInputs : Bool
  pool : CTxMemPool

/-- `CTxMemPool::accept`. -/
def accept (hash : Bytes → UInt256) (env : Env) (rules : PoolRules) (db : TxDB)
    (pindexBest : CBlockIndex) (proposalManager : CVoteProposalManager) (tx : CTransaction)
    (fCheckInputs : Bool) (pool : CTxMemPool) : AcceptOutcome :=
  match pool.checkLoose hash env rules db tx fCheckInputs with
  | .error exit => ⟨exit.result, false, pool⟩
  | .ok () =>
    match if fCheckInputs then pool.checkInputs env rules db pindexBest tx else .ok () with
    | .error (exit, fMissingInputs) => ⟨exit.result, fMissingInputs, pool⟩
    | .ok () =>
      -- the transaction is stored before its proposal is verified
      ⟨checkProposal hash env proposalManager tx, false,
        pool.addUnchecked (tx.getHash hash) tx⟩

end CTxMemPool

/-! ## Rejected transactions -/

namespace CTxMemPool

variable {hash : Bytes → UInt256} {env : Env} {rules : PoolRules} {db : TxDB}
  {pindexBest : CBlockIndex} {proposalManager : CVoteProposalManager} {pool : CTxMemPool}
  {tx : CTransaction} {fCheckInputs : Bool}

/-- A transaction that is not in the pool, that no transaction of the pool conflicts with, and that
has the form of one that is accepted on its own. -/
structure LooseChecked (hash : Bytes → UInt256) (env : Env) (rules : PoolRules) (db : TxDB)
    (pool : CTxMemPool) (tx : CTransaction) (fCheckInputs : Bool) : Prop where
  checked : tx.checkTransaction = true
  not_coinBase : tx.isCoinBase = false
  not_coinStake : tx.isCoinStake = false
  lockTime : tx.nLockTime ≤ 2147483647
  standard : env.fTestNet = true ∨ rules.isStandard tx = true
  not_pooled : tx.getHash hash ∉ pool.mapTx
  not_stored : fCheckInputs = true → tx.getHash hash ∉ db
  no_conflict : ∀ txin ∈ tx.vin, txin.prevout ∉ pool.mapNextTx
  length_lt : tx.vin.length < 2 ^ 32

/-- The inputs of a transaction are there and not spent, its signatures are valid, and it pays its
fee. -/
structure InputsChecked (env : Env) (rules : PoolRules) (db : TxDB) (pindexBest : CBlockIndex)
    (pool : CTxMemPool) (tx : CTransaction) (mapInputs : MapPrevTx) (nIn nOut : Int64) : Prop where
  fetched : tx.fetchLooseInputs env db pool = .ok mapInputs
  standard : rules.areInputsStandard tx mapInputs = true ∨ env.fTestNet = true
  valueIn : tx.getValueIn mapInputs = .ok nIn
  valueOut : tx.getValueOut = .ok nOut
  fee : tx.getMinFee 1000 true tx.getSerializeSize ≤ nIn - nOut
  not_limited : ¬ (nIn - nOut < MIN_RELAY_TX_FEE ∧ rules.isRateLimited tx = true)
  connected : tx.connectLooseInputs env db mapInputs pindexBest = .ok ()

lemma checkConflicts_eq_ok {u : Unit} : pool.checkConflicts tx = .ok u ↔
    (∀ txin ∈ tx.vin, txin.prevout ∉ pool.mapNextTx) ∧ tx.vin.length < 2 ^ 32 := by
  have hloop : loopTo tx.vin.length = .ok u ↔ tx.vin.length < 2 ^ 32 := by
    unfold loopTo
    by_cases hlt : tx.vin.length < 2 ^ 32
    · rw [if_pos hlt]
      exact iff_of_true rfl hlt
    · rw [if_neg hlt]
      exact iff_of_false nofun hlt
  unfold checkConflicts
  rw [bind_eq_ok]
  constructor
  · rintro ⟨_, hnone, hend⟩
    have hlt := hloop.mp (Exit.lift_eq_ok.mp hend)
    rw [Exit.require_eq_ok, List.take_of_length_le hlt.le, Bool.not_eq_true',
      List.any_eq_false] at hnone
    exact ⟨fun txin hmem hin => hnone txin hmem hin, hlt⟩
  · rintro ⟨hnone, hlt⟩
    refine ⟨(), ?_, Exit.lift_eq_ok.mpr (hloop.mpr hlt)⟩
    rw [Exit.require_eq_ok, List.take_of_length_le hlt.le, Bool.not_eq_true', List.any_eq_false]
    exact fun txin hmem hin => hnone txin hmem hin

lemma checkLoose_eq_ok {u : Unit} :
    pool.checkLoose hash env rules db tx fCheckInputs = .ok u ↔
      LooseChecked hash env rules db pool tx fCheckInputs := by
  unfold checkLoose
  simp only [bind_eq_ok, Exit.require_eq_ok, checkConflicts_eq_ok, exists_const, Bool.not_eq_true',
    Bool.or_eq_true, decide_eq_true_eq, Bool.and_eq_false_iff]
  constructor
  · rintro ⟨h1, h2, h3, h4, h5, h6, h7, h8, h9⟩
    refine ⟨h1, h2, h3, h4, h5, fun hmem => ?_, fun hcheck hmem => ?_, h8, h9⟩
    · rw [MapLoop.contains_eq_false_iff] at h6
      exact h6 hmem
    · rcases h7 with hno | hno
      · rw [hcheck] at hno
        cases hno
      · exact MapLoop.contains_eq_false_iff.mp hno hmem
  · rintro ⟨h1, h2, h3, h4, h5, h6, h7, h8, h9⟩
    refine ⟨h1, h2, h3, h4, h5, MapLoop.contains_eq_false_iff.mpr h6, ?_, h8, h9⟩
    cases fCheckInputs with
    | false => exact Or.inl rfl
    | true => exact Or.inr (MapLoop.contains_eq_false_iff.mpr (h7 rfl))

lemma checkInputs_eq_ok {u : Unit} : pool.checkInputs env rules db pindexBest tx = .ok u ↔
    ∃ mapInputs nIn nOut, InputsChecked env rules db pindexBest pool tx mapInputs nIn nOut := by
  unfold checkInputs
  simp only [bind_eq_ok, mapError_eq_ok, Exit.require_eq_ok, Exit.lift_eq_ok, exists_const,
    Bool.not_eq_true', Bool.or_eq_true, decide_eq_true_eq, Bool.and_eq_false_iff, ge_iff_le,
    decide_eq_false_iff_not]
  constructor
  · rintro ⟨mapInputs, h1, h2, nIn, h3, nOut, h4, h5, h6, h7⟩
    refine ⟨mapInputs, nIn, nOut, h1, h2, h3, h4, h5, ?_, h7⟩
    rintro ⟨hlt, hlimited⟩
    rcases h6 with hno | hno
    · exact hno hlt
    · rw [hlimited] at hno
      cases hno
  · rintro ⟨mapInputs, nIn, nOut, h1, h2, h3, h4, h5, h6, h7⟩
    refine ⟨mapInputs, h1, h2, nIn, h3, nOut, h4, h5, ?_, h7⟩
    by_cases hlt : nIn - nOut < MIN_RELAY_TX_FEE
    · exact Or.inr (Bool.eq_false_iff.mpr fun hlimited => h6 ⟨hlt, hlimited⟩)
    · exact Or.inl hlt

/-- A transaction passes every check that `accept` makes before it stores it. -/
structure Admissible (hash : Bytes → UInt256) (env : Env) (rules : PoolRules) (db : TxDB)
    (pindexBest : CBlockIndex) (pool : CTxMemPool) (tx : CTransaction) (fCheckInputs : Bool) :
    Prop where
  loose : LooseChecked hash env rules db pool tx fCheckInputs
  inputs : fCheckInputs = true →
    ∃ mapInputs nIn nOut, InputsChecked env rules db pindexBest pool tx mapInputs nIn nOut

/-- What `accept` does: it stores a transaction that passes its first checks, and it changes nothing
for another one, which it does not accept. -/
lemma accept_cases (hash : Bytes → UInt256) (env : Env) (rules : PoolRules) (db : TxDB)
    (pindexBest : CBlockIndex) (proposalManager : CVoteProposalManager) (tx : CTransaction)
    (fCheckInputs : Bool) (pool : CTxMemPool) :
    (Admissible hash env rules db pindexBest pool tx fCheckInputs ∧
      accept hash env rules db pindexBest proposalManager tx fCheckInputs pool =
        ⟨checkProposal hash env proposalManager tx, false,
          pool.addUnchecked (tx.getHash hash) tx⟩) ∨
    (¬ Admissible hash env rules db pindexBest pool tx fCheckInputs ∧
      (accept hash env rules db pindexBest proposalManager tx fCheckInputs pool).result ≠
        .ok true ∧
      (accept hash env rules db pindexBest proposalManager tx fCheckInputs pool).pool = pool) := by
  have hexit : ∀ exit : Exit, exit.result ≠ .ok true := by
    intro exit
    cases exit <;> simp [Exit.result]
  unfold accept
  cases hloose : pool.checkLoose hash env rules db tx fCheckInputs with
  | error exit =>
    refine Or.inr ⟨fun hadmissible => ?_, hexit exit, rfl⟩
    rw [checkLoose_eq_ok.mpr hadmissible.loose] at hloose
    · cases hloose
    · exact ()
  | ok u =>
    dsimp only
    cases fCheckInputs with
    | false =>
      exact Or.inl ⟨⟨checkLoose_eq_ok.mp hloose, nofun⟩, rfl⟩
    | true =>
      rw [if_pos rfl]
      cases hinputs : pool.checkInputs env rules db pindexBest tx with
      | error e =>
        refine Or.inr ⟨fun hadmissible => ?_, hexit e.1, rfl⟩
        rw [checkInputs_eq_ok.mpr (hadmissible.inputs rfl)] at hinputs
        · cases hinputs
        · exact ()
      | ok u =>
        exact Or.inl ⟨⟨checkLoose_eq_ok.mp hloose, fun _ => checkInputs_eq_ok.mp hinputs⟩, rfl⟩

/-- If `accept` returns false then the pool is what it was, exactly unless the transaction passes
the checks before it is stored, and is then refused as a proposal. -/
theorem accept_eq_false_iff (hash : Bytes → UInt256) (env : Env) (rules : PoolRules) (db : TxDB)
    (pindexBest : CBlockIndex) (proposalManager : CVoteProposalManager) (tx : CTransaction)
    (fCheckInputs : Bool) (pool : CTxMemPool) :
    ((accept hash env rules db pindexBest proposalManager tx fCheckInputs pool).result =
        .ok false →
      (accept hash env rules db pindexBest proposalManager tx fCheckInputs pool).pool = pool) ↔
    ¬ (Admissible hash env rules db pindexBest pool tx fCheckInputs ∧
      checkProposal hash env proposalManager tx = .ok false) := by
  rcases accept_cases hash env rules db pindexBest proposalManager tx fCheckInputs pool with
    ⟨hadmissible, haccept⟩ | ⟨hnot, -, hpool⟩
  · rw [haccept]
    have hchanged : pool.addUnchecked (tx.getHash hash) tx ≠ pool := by
      intro heq
      have hmem : tx.getHash hash ∈ (pool.addUnchecked (tx.getHash hash) tx).mapTx :=
        Std.ExtTreeMap.mem_insert_self
      rw [heq] at hmem
      exact hadmissible.loose.not_pooled hmem
    constructor
    · rintro himp ⟨-, hrefused⟩
      exact hchanged (himp hrefused)
    · intro hno hrefused
      exact absurd ⟨hadmissible, hrefused⟩ hno
  · exact iff_of_true (fun _ => hpool) fun h => hnot h.1

end CTxMemPool

/-- The surroundings of a test node on which every transaction on disk has an output of twenty coins.
-/
def looseEnv : Env :=
  { sampleEnv with
    fTestNet := true
    readFromDisk := fun _ =>
      some { vout := [{ nValue := 20 * COIN, scriptPubKey := [0x51] }] } }

/-- Every transaction is standard. -/
def lenientRules : PoolRules where
  isStandard _ := true
  areInputsStandard _ _ := true
  isRateLimited _ := false

/-- A database with one transaction, whose output is not spent. -/
def looseDB : TxDB := (∅ : TxDB).insert 1 (.ofPos ⟨1, 8, 90⟩ 1)

/-- A transaction with a proposal that has no name is refused, and stays in the pool. -/
theorem accept_namelessProposal :
    ¬ ((CTxMemPool.accept sampleHash looseEnv lenientRules looseDB firstIndex .empty
        (sampleProposalTx {}) true {}).result = .ok false →
      (CTxMemPool.accept sampleHash looseEnv lenientRules looseDB firstIndex .empty
        (sampleProposalTx {}) true {}).pool = {}) := by
  have hrefused : (CTxMemPool.accept sampleHash looseEnv lenientRules looseDB firstIndex .empty
      (sampleProposalTx {}) true {}).result = .ok false := by decide +kernel
  have hstored : (CTxMemPool.accept sampleHash looseEnv lenientRules looseDB firstIndex .empty
      (sampleProposalTx {}) true {}).pool.mapTx.isEmpty = false := by decide +kernel
  intro h
  rw [h hrefused] at hstored
  cases hstored

/-! ## The index of the pool -/

namespace CTxMemPool

variable {hash : Bytes → UInt256} {pool : CTxMemPool} {tx : CTransaction}

/-- The index of the pool sends the outpoints that the inputs of its transactions claim to those
inputs. -/
abbrev Indexed (pool : CTxMemPool) : Prop :=
  InverseIndex.Inverse CTransaction.vin CTxIn.prevout
    (fun (h : UInt256) (i : ℕ) => (⟨h, UInt32.ofNat i⟩ : CInPoint)) pool.mapTx pool.mapNextTx

/-- The pool has its transactions under their hashes, its index is the inverse of it, and no two of
its transactions claim the same outpoint. -/
structure Consistent (hash : Bytes → UInt256) (pool : CTxMemPool) : Prop where
  getHash : ∀ (h : UInt256) (tx : CTransaction), pool.mapTx[h]? = some tx → tx.getHash hash = h
  refers : ∀ (o : COutPoint) (p : CInPoint), pool.mapNextTx[o]? = some p →
    ∃ tx txin, pool.mapTx[p.ptx]? = some tx ∧ tx.vin[p.n.toNat]? = some txin ∧ txin.prevout = o
  covers : ∀ (h : UInt256) (tx : CTransaction), pool.mapTx[h]? = some tx →
    ∀ (i : ℕ) (txin : CTxIn), tx.vin[i]? = some txin →
      ∃ p, pool.mapNextTx[txin.prevout]? = some p ∧ p.ptx = h ∧ p.n.toNat = i
  claims : ∀ (h h' : UInt256) (tx tx' : CTransaction), pool.mapTx[h]? = some tx →
    pool.mapTx[h']? = some tx' → ∀ (i i' : ℕ) (txin txin' : CTxIn), tx.vin[i]? = some txin →
      tx'.vin[i']? = some txin' → txin.prevout = txin'.prevout → h = h' ∧ i = i'

/-- What every operation of the pool keeps. -/
structure Kept (hash : Bytes → UInt256) (known : Set CTransaction) (pool : CTxMemPool) :
    Prop where
  getHash : ∀ (h : UInt256) (tx : CTransaction), pool.mapTx[h]? = some tx → tx.getHash hash = h
  mem_known : ∀ (h : UInt256) (tx : CTransaction), pool.mapTx[h]? = some tx → tx ∈ known
  length_lt : ∀ (h : UInt256) (tx : CTransaction), pool.mapTx[h]? = some tx →
    tx.vin.length < 2 ^ 32
  indexed : pool.Indexed

variable {known : Set CTransaction}

lemma kept_empty : Kept hash known {} :=
  ⟨by simp, by simp, by simp, .empty⟩

/-- Entries that are equal are of the same transaction. -/
lemma ptx_eq (h h' : UInt256) (i i' : ℕ)
    (heq : (⟨h, UInt32.ofNat i⟩ : CInPoint) = ⟨h', UInt32.ofNat i'⟩) : h = h' :=
  congrArg CInPoint.ptx heq

namespace Kept

section

variable (hk : Kept hash known pool)

include hk

lemma toConsistent : Consistent hash pool := by
  have hposition : ∀ (h : UInt256) (tx : CTransaction), pool.mapTx[h]? = some tx →
      ∀ (i : ℕ) (txin : CTxIn), tx.vin[i]? = some txin → (UInt32.ofNat i).toNat = i := by
    intro h tx hget i txin hi
    have hlt := (List.getElem?_eq_some_iff.mp hi).1
    exact UInt32.toNat_ofNat_of_lt' (hlt.trans (hk.length_lt h tx hget))
  have hcovers : ∀ (h : UInt256) (tx : CTransaction), pool.mapTx[h]? = some tx →
      ∀ (i : ℕ) (txin : CTxIn), tx.vin[i]? = some txin →
        pool.mapNextTx[txin.prevout]? = some ⟨h, UInt32.ofNat i⟩ := fun h tx hget i txin hi =>
    (hk.indexed _ _).mpr ⟨h, tx, i, txin, hget, hi, rfl, rfl⟩
  refine ⟨hk.getHash, ?_, ?_, ?_⟩
  · intro o p hp
    obtain ⟨h, tx, i, txin, hget, hi, hname, rfl⟩ := (hk.indexed o p).mp hp
    exact ⟨tx, txin, hget, by rw [hposition h tx hget i txin hi]; exact hi, hname⟩
  · intro h tx hget i txin hi
    exact ⟨_, hcovers h tx hget i txin hi, rfl, hposition h tx hget i txin hi⟩
  · intro h h' tx tx' hget hget' i i' txin txin' hi hi' hname
    have hentry := hcovers h tx hget i txin hi
    rw [hname, hcovers h' tx' hget' i' txin' hi', Option.some.injEq, CInPoint.mk.injEq] at hentry
    refine ⟨hentry.1.symm, ?_⟩
    rw [← hposition h tx hget i txin hi, ← hposition h' tx' hget' i' txin' hi', hentry.2]

/-- Storing a transaction that passes the checks before. -/
lemma addUnchecked {env : Env} {rules : PoolRules} {db : TxDB}
    {fCheckInputs : Bool} (hloose : LooseChecked hash env rules db pool tx fCheckInputs)
    (hknown : tx ∈ known) : Kept hash known (pool.addUnchecked (tx.getHash hash) tx) := by
  have hnew : ∀ (h : UInt256) (tx' : CTransaction),
      (pool.addUnchecked (tx.getHash hash) tx).mapTx[h]? = some tx' →
        pool.mapTx[h]? = some tx' ∨ h = tx.getHash hash ∧ tx' = tx := by
    intro h tx' hget
    rw [CTxMemPool.addUnchecked, MapLoop.getElem?_insert_eq] at hget
    split_ifs at hget with heq
    · exact Or.inr ⟨heq.symm, (Option.some.inj hget).symm⟩
    · exact Or.inl hget
  have hnodup : (tx.vin.map CTxIn.prevout).Nodup := by
    have hcheck := hloose.checked
    unfold CTransaction.checkTransaction at hcheck
    split_ifs at hcheck with h1 h2 h3 h4 h5
    · simpa using h5
    · simpa using h5
  refine ⟨fun h tx' hget => ?_, fun h tx' hget => ?_, fun h tx' hget => ?_, ?_⟩
  · rcases hnew h tx' hget with hold | ⟨rfl, rfl⟩
    · exact hk.getHash h tx' hold
    · rfl
  · rcases hnew h tx' hget with hold | ⟨rfl, rfl⟩
    · exact hk.mem_known h tx' hold
    · exact hknown
  · rcases hnew h tx' hget with hold | ⟨rfl, rfl⟩
    · exact hk.length_lt h tx' hold
    · exact hloose.length_lt
  · refine hk.indexed.insert hloose.not_pooled hnodup fun txin hmem => ?_
    exact Std.ExtTreeMap.getElem?_eq_none (hloose.no_conflict txin hmem)

/-- Removing a transaction: if one with its hash is in the pool then it is that transaction. -/
lemma remove (hinj : Set.InjOn (CTransaction.getHash hash) known) (hknown : tx ∈ known) :
    Kept hash known (pool.remove hash tx) := by
  unfold CTxMemPool.remove
  by_cases hmem : pool.mapTx.contains (tx.getHash hash) = true
  · rw [if_pos hmem]
    obtain ⟨pooled, hpooled⟩ := Option.isSome_iff_exists.mp
      (Std.ExtTreeMap.contains_eq_isSome_getElem?.symm.trans hmem)
    have hsame : pooled = tx :=
      hinj (hk.mem_known _ _ hpooled) hknown (hk.getHash _ _ hpooled)
    rw [hsame] at hpooled
    have hold : ∀ (h : UInt256) (tx' : CTransaction),
        (pool.mapTx.erase (tx.getHash hash))[h]? = some tx' → pool.mapTx[h]? = some tx' := by
      intro h tx' hget
      rw [Std.ExtTreeMap.getElem?_erase] at hget
      split_ifs at hget
      exact hget
    exact ⟨fun h tx' hget => hk.getHash h tx' (hold h tx' hget),
      fun h tx' hget => hk.mem_known h tx' (hold h tx' hget),
      fun h tx' hget => hk.length_lt h tx' (hold h tx' hget),
      hk.indexed.erase ptx_eq hpooled⟩
  · rw [if_neg hmem]
    exact hk

lemma accept (hknown : tx ∈ known) (env : Env) (rules : PoolRules)
    (db : TxDB) (pindexBest : CBlockIndex) (proposalManager : CVoteProposalManager)
    (fCheckInputs : Bool) :
    Kept hash known (accept hash env rules db pindexBest proposalManager tx fCheckInputs
      pool).pool := by
  rcases accept_cases hash env rules db pindexBest proposalManager tx fCheckInputs pool with
    ⟨hadmissible, haccept⟩ | ⟨-, -, hpool⟩
  · rw [haccept]
    exact hk.addUnchecked hadmissible.loose hknown
  · rw [hpool]
    exact hk

end

end Kept

end CTxMemPool

/-- The pools that calls of `accept`, `remove` and `clear` lead to, with some transactions. -/
inductive PoolRun (hash : Bytes → UInt256) (known : Set CTransaction) : CTxMemPool → Prop
  | start : PoolRun hash known {}
  | accept {pool : CTxMemPool} (env : Env) (rules : PoolRules) (db : TxDB)
      (pindexBest : CBlockIndex) (proposalManager : CVoteProposalManager) (tx : CTransaction)
      (fCheckInputs : Bool) :
      tx ∈ known → PoolRun hash known pool →
      PoolRun hash known (CTxMemPool.accept hash env rules db pindexBest proposalManager tx
        fCheckInputs pool).pool
  | remove {pool : CTxMemPool} (tx : CTransaction) :
      tx ∈ known → PoolRun hash known pool → PoolRun hash known (pool.remove hash tx)
  | clear {pool : CTxMemPool} : PoolRun hash known pool → PoolRun hash known pool.clear

lemma PoolRun.kept {hash : Bytes → UInt256} {known : Set CTransaction} {pool : CTxMemPool}
    (hinj : Set.InjOn (CTransaction.getHash hash) known) (hrun : PoolRun hash known pool) :
    pool.Kept hash known := by
  induction hrun with
  | start => exact CTxMemPool.kept_empty
  | accept env rules db pindexBest proposalManager tx fCheckInputs hknown _ ih =>
    exact ih.accept hknown env rules db pindexBest proposalManager fCheckInputs
  | remove tx hknown _ ih => exact ih.remove hinj hknown
  | clear _ _ => exact CTxMemPool.kept_empty

/-- In every run of the operations of the pool, its index is the inverse of it, and no two of its
transactions claim the same outpoint. -/
theorem PoolRun.consistent {hash : Bytes → UInt256} {known : Set CTransaction} {pool : CTxMemPool}
    (hinj : Set.InjOn (CTransaction.getHash hash) known) (hrun : PoolRun hash known pool) :
    pool.Consistent hash :=
  (hrun.kept hinj).toConsistent

/-- A pool with a refused proposal in it. -/
theorem consistent_namelessProposal :
    (CTxMemPool.accept sampleHash looseEnv lenientRules looseDB firstIndex .empty
      (sampleProposalTx {}) true {}).pool.Consistent sampleHash :=
  PoolRun.consistent (Set.injOn_singleton _ (sampleProposalTx {}))
    (.accept _ _ _ _ _ _ _ rfl .start)

/-- Two runs that lead to pools with transactions of the same hashes lead to the same pool: neither the
order of the calls nor what was removed in between leaves a trace in the pool or its index. -/
theorem PoolRun.eq_of_mem_iff {hash : Bytes → UInt256} {known : Set CTransaction}
    {pool pool' : CTxMemPool} (hinj : Set.InjOn (CTransaction.getHash hash) known)
    (hrun : PoolRun hash known pool) (hrun' : PoolRun hash known pool')
    (hsame : ∀ h, h ∈ pool.mapTx ↔ h ∈ pool'.mapTx) : pool = pool' := by
  have hkept := hrun.kept hinj
  have hkept' := hrun'.kept hinj
  have hmapTx : pool.mapTx = pool'.mapTx := by
    refine Std.ExtTreeMap.ext_getElem? fun h => ?_
    by_cases hmem : h ∈ pool.mapTx
    · obtain ⟨tx, htx⟩ := MapLoop.mem_iff.mp hmem
      obtain ⟨tx', htx'⟩ := MapLoop.mem_iff.mp ((hsame h).mp hmem)
      have heq : tx = tx' := hinj (hkept.mem_known h tx htx) (hkept'.mem_known h tx' htx')
        ((hkept.getHash h tx htx).trans (hkept'.getHash h tx' htx').symm)
      rw [htx, htx', heq]
    · rw [Std.ExtTreeMap.getElem?_eq_none hmem,
        Std.ExtTreeMap.getElem?_eq_none fun hmem' => hmem ((hsame h).mpr hmem')]
  have hmapNextTx : pool.mapNextTx = pool'.mapNextTx := by
    refine Std.ExtTreeMap.ext_getElem? fun o => Option.ext fun p => ?_
    have hinverse := hkept'.indexed o p
    rw [← hmapTx] at hinverse
    exact (hkept.indexed o p).trans hinverse.symm
  cases pool
  cases pool'
  exact congrArg₂ CTxMemPool.mk hmapTx hmapNextTx

/-- Removing the refused proposal leaves the pool as it was. -/
theorem remove_namelessProposal :
    (CTxMemPool.accept sampleHash looseEnv lenientRules looseDB firstIndex .empty
      (sampleProposalTx {}) true {}).pool.remove sampleHash (sampleProposalTx {}) = {} := by
  have hnone : (((CTxMemPool.accept sampleHash looseEnv lenientRules looseDB firstIndex .empty
      (sampleProposalTx {}) true {}).pool.remove sampleHash (sampleProposalTx {})).mapTx.isEmpty) =
        true := by decide +kernel
  exact PoolRun.eq_of_mem_iff (Set.injOn_singleton _ (sampleProposalTx {}))
    (.remove _ rfl (.accept _ _ _ _ _ _ _ rfl .start)) .start fun h => by
      rw [Std.ExtTreeMap.isEmpty_iff.mp hnone]

end HyperStake
