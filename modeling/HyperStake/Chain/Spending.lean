import HyperStake.Chain.TxDB
import HyperStake.Library.LedgerIndex
import HyperStake.Library.ExceptLoop

/-!
# Spending

A block that is connected records its transactions in the index, one after the other: each marks
the outputs that it claims with its position, and adds a record of its own outputs, none of which is
spent (`Ledger.record`).  `ConnectBlock` does this on queued changes over the database; `Overlays`
says that the two together are such an index, and the lemmas follow it through `FetchInputs`,
`ConnectInputs`, the loop over the transactions and the writes at the end.
-/

namespace HyperStake

open ExceptLoop

/-- A transaction of the chain, with its position on disk. -/
structure OnChain where
  tx : CTransaction
  pos : CDiskTxPos

/-- The outpoint that an input claims, with its position as a natural number. -/
def CTxIn.claim (txin : CTxIn) : UInt256 × ℕ := (txin.prevout.hash, txin.prevout.n.toNat)

/-- The outpoints that a transaction spends: the input of a coinbase claims nothing. -/
def CTransaction.claims (tx : CTransaction) : List (UInt256 × ℕ) :=
  if tx.isCoinBase then [] else tx.vin.map CTxIn.claim

/-- How the transaction database records a chain. -/
def indexing (hash : Bytes → UInt256) : Ledger.Indexing OnChain UInt256 CTxIndex CDiskTxPos where
  id x := x.tx.getHash hash
  claims x := x.tx.claims
  width x := x.tx.vout.length
  lens :=
    { slots := CTxIndex.vSpent
      put := fun txindex vSpent => { txindex with vSpent }
      slots_put := fun _ _ => rfl
      put_slots := fun _ => rfl
      put_put := fun _ _ _ => rfl }
  new x := .ofPos x.pos x.tx.vout.length
  mark x := x.pos
  free := {}
  slots_new _ := rfl

/-- The index of a chain. -/
def indexOf (hash : Bytes → UInt256) (chain : List OnChain) : TxDB :=
  Ledger.index (indexing hash) compare chain

/-- Where an output is spent, as the database has it; null if it is not. -/
def TxDB.spentAt (db : TxDB) (h : UInt256) (n : ℕ) : Option CDiskTxPos :=
  db[h]?.bind fun txindex => txindex.vSpent[n]?

namespace Exit

lemma requireSome_eq_ok {α : Type} {x : Option α} {a : α} : requireSome x = .ok a ↔ x = some a := by
  cases x <;> simp [Exit.requireSome]

lemma lift_eq_ok {α : Type} {x : Except Fault α} {a : α} : lift x = .ok a ↔ x = .ok a := by
  cases x <;> simp [lift]

lemma toOption_eq_ok {α : Type} {x : Except Exit α} {a : α} :
    toOption x = .ok (some a) ↔ x = .ok a := by
  rcases x with (_ | e) | a' <;> simp [toOption]

lemma require_eq_ok {b : Bool} {u : Unit} : require b = .ok u ↔ b = true := by
  cases b <;> simp [Exit.require]

end Exit

/-- The records of the blocks are apart from those of the transactions. -/
lemma TxDB.writeBlockIndex_eq_some {env : Env} {db db' : TxDB} {pindex : CBlockIndex}
    (h : db.writeBlockIndex env pindex = some db') : db' = db := by
  unfold writeBlockIndex at h
  split_ifs at h
  exact (Option.some.inj h).symm

/-! ## Queued changes -/

/-- Queued changes over a database. -/
def Overlays (mapQueuedChanges : Std.ExtTreeMap UInt256 CTxIndex) (db m : TxDB) : Prop :=
  ∀ h : UInt256, m[h]? = match mapQueuedChanges[h]? with
    | some txindex => some txindex
    | none => db[h]?

namespace Overlays

variable {q : Std.ExtTreeMap UInt256 CTxIndex} {db m : TxDB}

lemma start (db : TxDB) : Overlays ∅ db db := fun h => by simp

lemma union (q : Std.ExtTreeMap UInt256 CTxIndex) (db : TxDB) : Overlays q db (db ∪ q) := by
  intro h
  rw [Std.ExtTreeMap.getElem?_union]
  cases q[h]? <;> rfl

lemma insert (hq : Overlays q db m) (h : UInt256) (txindex : CTxIndex) :
    Overlays (q.insert h txindex) db (m.insert h txindex) := by
  intro k
  rw [MapLoop.getElem?_insert_eq, MapLoop.getElem?_insert_eq]
  by_cases hk : h = k
  · rw [if_pos hk, if_pos hk]
  · rw [if_neg hk, if_neg hk]
    exact hq k

/-- The writes at the end of `ConnectBlock`. -/
lemma write {env : Env} {db' : TxDB} (hq : Overlays q db m)
    (hwrite : q.toList.foldlM (fun db mi => Exit.requireSome (TxDB.updateTxIndex env db mi.1 mi.2))
      db = .ok db') : db' = m := by
  have hdistinct := MapLoop.nodup_map_fst_toList q
  have hwritten : ∀ h : UInt256, (∀ txindex, (h, txindex) ∈ q.toList → db'[h]? = some txindex) ∧
      ((∀ txindex, (h, txindex) ∉ q.toList) → db'[h]? = db[h]?) := by
    refine foldlM_invariant (fun visited (db' : TxDB) => ∀ h : UInt256,
      (∀ txindex, (h, txindex) ∈ visited → db'[h]? = some txindex) ∧
        ((∀ txindex, (h, txindex) ∉ visited) → db'[h]? = db[h]?)) ?_ (by simp) hwrite
    intro visited mi rest acc acc' hitems hacc hstep h
    have hnew : ∀ txindex, (mi.1, txindex) ∉ visited := by
      intro txindex hmem
      rw [hitems, List.map_append, List.map_cons, List.nodup_append'] at hdistinct
      exact hdistinct.2.2 (List.mem_map_of_mem hmem) List.mem_cons_self
    have hacc' : acc' = acc.insert mi.1 mi.2 := by
      have hsome := Exit.requireSome_eq_ok.mp hstep
      unfold TxDB.updateTxIndex at hsome
      split_ifs at hsome
      exact (Option.some.inj hsome).symm
    rw [hacc', MapLoop.getElem?_insert_eq]
    constructor
    · intro txindex hmem
      rcases List.mem_append.mp hmem with hold | hlast
      · have hne : mi.1 ≠ h := fun heq => hnew txindex (heq ▸ hold)
        rw [if_neg hne]
        exact (hacc h).1 txindex hold
      · rw [← List.mem_singleton.mp hlast, if_pos rfl]
    · intro hnone
      have hne : mi.1 ≠ h := fun heq => hnone mi.2 (by simp [← heq])
      rw [if_neg hne]
      exact (hacc h).2 fun txindex hmem => hnone txindex (List.mem_append_left _ hmem)
  refine Std.ExtTreeMap.ext_getElem? fun h => ?_
  rw [hq h]
  cases hget : q[h]? with
  | some txindex =>
    exact (hwritten h).1 txindex (Std.ExtTreeMap.mem_toList_iff_getElem?_eq_some.mpr hget)
  | none =>
    refine (hwritten h).2 fun txindex hmem => ?_
    rw [Std.ExtTreeMap.mem_toList_iff_getElem?_eq_some, hget] at hmem
    cases hmem

/-- The end of `ConnectBlock` leaves the index that the queued changes make of the database. -/
lemma finishConnect {hash : Bytes → UInt256} {env : Env} {db' : TxDB} {block : CBlock}
    {pindex : CBlockIndex} {pprev : Option CBlockIndex} {s : ConnectState}
    (hq : Overlays s.mapQueuedChanges db m)
    (h : HyperStake.finishConnect (env.node hash) db block pindex pprev s = .ok db') :
    db' = m := by
  unfold HyperStake.finishConnect at h
  obtain ⟨db₁, hindex, h⟩ := bind_eq_ok.mp h
  obtain ⟨db₂, hwrite, h⟩ := bind_eq_ok.mp h
  obtain ⟨nReward, -, h⟩ := bind_eq_ok.mp h
  rw [TxDB.writeBlockIndex_eq_some (Exit.requireSome_eq_ok.mp hindex)] at hwrite
  cases hvtx : block.vtx with
  | nil =>
    rw [hvtx] at h
    cases h
  | cons coinbase others =>
    rw [hvtx] at h
    obtain ⟨nValueOut, -, h⟩ := bind_eq_ok.mp h
    obtain ⟨-, -, h⟩ := bind_eq_ok.mp h
    cases pprev with
    | none =>
      cases h
      exact hq.write hwrite
    | some pprev =>
      rw [TxDB.writeBlockIndex_eq_some (Exit.requireSome_eq_ok.mp h)]
      exact hq.write hwrite

end Overlays

/-! ## Previous transactions -/

namespace CTransaction

variable {env : Env} {db m : TxDB} {tx : CTransaction} {inputs : MapPrevTx}
  {mapTestPool : Std.ExtTreeMap UInt256 CTxIndex}

/-- The records of the previous transactions are those of an index, and the transactions are read
from where they say. -/
def Fetched (env : Env) (m : TxDB) (inputs : MapPrevTx) : Prop :=
  ∀ (h : UInt256) (txindex : CTxIndex) (txPrev : CTransaction),
    inputs[h]? = some (txindex, txPrev) → m[h]? = some txindex ∧
      (if txindex.pos = ⟨1, 1, 1⟩ then env.mempool h else env.readFromDisk txindex.pos) =
        some txPrev

variable {txin : CTxIn} {posThisTx : CDiskTxPos} {pindexBlock : CBlockIndex}

/-- One turn of `FetchInputs`. -/
lemma fetched_fetchInput {inputsRet : MapPrevTx} (hq : Overlays mapTestPool db m)
    (hfetched : Fetched env m inputs)
    (h : fetchInput env db mapTestPool inputs txin = .ok inputsRet) : Fetched env m inputsRet := by
  unfold fetchInput at h
  dsimp only at h
  split_ifs at h with hgot
  · cases h
    exact hfetched
  · obtain ⟨txindex, htxindex, h⟩ := bind_eq_ok.mp h
    obtain ⟨txPrev, htxPrev, h⟩ := bind_eq_ok.mp h
    cases h
    intro k txindex' txPrev' hget
    rw [MapLoop.getElem?_insert_eq] at hget
    split_ifs at hget with hk
    · cases hget
      subst hk
      exact ⟨(hq _).trans (Exit.requireSome_eq_ok.mp htxindex), Exit.requireSome_eq_ok.mp htxPrev⟩
    · exact hfetched k txindex' txPrev' hget

lemma fetched_fetchInputs (hq : Overlays mapTestPool db m)
    (h : tx.fetchInputs env db mapTestPool = .ok inputs) : Fetched env m inputs := by
  unfold fetchInputs at h
  have hempty : Fetched env m ∅ := fun k txindex txPrev hget => by simp at hget
  split_ifs at h
  · cases h
    exact hempty
  · obtain ⟨inputsRet, hloop, h⟩ := bind_eq_ok.mp h
    obtain ⟨-, -, h⟩ := bind_eq_ok.mp h
    cases h
    exact foldlM_invariant (fun _ inputs => Fetched env m inputs)
      (fun _ _ _ _ _ _ hfetched hstep => fetched_fetchInput hq hfetched hstep) hempty hloop

/-! ## Spending the outputs -/

lemma prevOf_eq_ok {prev : CTxIndex × CTransaction} :
    prevOf inputs txin = .ok prev ↔ inputs[txin.prevout.hash]? = some prev := by
  unfold prevOf
  cases inputs[txin.prevout.hash]? <;> simp

/-- The output that an input claims is there. -/
lemma checkRange_eq_ok {u : Unit} : checkRange inputs txin = .ok u ↔
    ∃ txindex txPrev, inputs[txin.prevout.hash]? = some (txindex, txPrev) ∧
      txin.prevout.n.toNat < txPrev.vout.length ∧
      txin.prevout.n.toNat < txindex.vSpent.length := by
  unfold checkRange
  rw [bind_eq_ok]
  constructor
  · rintro ⟨⟨txindex, txPrev⟩, hprev, hrange⟩
    rw [Exit.require_eq_ok, decide_eq_true_iff] at hrange
    exact ⟨txindex, txPrev, prevOf_eq_ok.mp hprev, hrange⟩
  · rintro ⟨txindex, txPrev, hprev, hrange⟩
    exact ⟨(txindex, txPrev), prevOf_eq_ok.mpr hprev,
      Exit.require_eq_ok.mpr (decide_eq_true hrange)⟩

/-- One turn of the second loop of `ConnectInputs`. -/
lemma spendInput_eq_ok {input : CTxIn × ℕ} {s s' : MapPrevTx × Std.ExtTreeMap UInt256 CTxIndex}
    (h : spendInput env tx posThisTx s input = .ok s') :
    ∃ txindex txPrev, s.1[input.1.prevout.hash]? = some (txindex, txPrev) ∧
      (txindex.vSpent.getD input.1.prevout.n.toNat {}).isNull = true ∧
      s' = (s.1.insert input.1.prevout.hash ({ txindex with
          vSpent := txindex.vSpent.set input.1.prevout.n.toNat posThisTx }, txPrev),
        s.2.insert input.1.prevout.hash { txindex with
          vSpent := txindex.vSpent.set input.1.prevout.n.toNat posThisTx }) := by
  unfold spendInput at h
  obtain ⟨⟨txindex, txPrev⟩, hprev, h⟩ := bind_eq_ok.mp h
  obtain ⟨_, hnull, h⟩ := bind_eq_ok.mp h
  obtain ⟨-, -, h⟩ := bind_eq_ok.mp h
  cases h
  exact ⟨txindex, txPrev, prevOf_eq_ok.mp hprev, Exit.require_eq_ok.mp hnull, rfl⟩

/-- The queued changes and the previous transactions in the second loop of `ConnectInputs`, after
some outputs have been marked in an index. -/
structure Spends (hash : Bytes → UInt256) (db m : TxDB) (posThisTx : CDiskTxPos)
    (claims : List (UInt256 × ℕ)) (s : MapPrevTx × Std.ExtTreeMap UInt256 CTxIndex) : Prop where
  overlays : Overlays s.2 db (Ledger.writeAll (indexing hash) posThisTx claims m)
  fetched : ∀ {h : UInt256} {txindex : CTxIndex} {txPrev : CTransaction},
    s.1[h]? = some (txindex, txPrev) →
    (Ledger.writeAll (indexing hash) posThisTx claims m)[h]? = some txindex
  nodup : claims.Nodup
  free : ∀ o ∈ claims, ∃ pos, m.spentAt o.1 o.2 = some pos ∧ pos.isNull = true

variable {hash : Bytes → UInt256}

/-- One turn marks one more output, which was not spent. -/
lemma Spends.step {claims : List (UInt256 × ℕ)} {input : CTxIn × ℕ}
    {s s' : MapPrevTx × Std.ExtTreeMap UInt256 CTxIndex} (hpos : posThisTx.isNull = false)
    (hs : Spends hash db m posThisTx claims s)
    (hthere : (m.spentAt input.1.claim.1 input.1.claim.2).isSome)
    (h : spendInput env tx posThisTx s input = .ok s') :
    Spends hash db m posThisTx (claims ++ [input.1.claim]) s' := by
  obtain ⟨txindex, txPrev, hprev, hnull, rfl⟩ := spendInput_eq_ok h
  have hget := hs.fetched hprev
  obtain ⟨pos, hpos'⟩ := Option.isSome_iff_exists.mp hthere
  have hslot : txindex.vSpent[input.1.prevout.n.toNat]? =
      if input.1.claim ∈ claims then some posThisTx else some pos := by
    have hwritten : SlotMap.slot (indexing hash).lens
        (Ledger.writeAll (indexing hash) posThisTx claims m) input.1.claim.1 input.1.claim.2 =
          if input.1.claim ∈ claims then
            (m.spentAt input.1.claim.1 input.1.claim.2).map fun _ => posThisTx
          else m.spentAt input.1.claim.1 input.1.claim.2 := Ledger.slot_writeAll
    have hread : SlotMap.slot (indexing hash).lens
        (Ledger.writeAll (indexing hash) posThisTx claims m) input.1.claim.1 input.1.claim.2 =
          txindex.vSpent[input.1.prevout.n.toNat]? := by
      rw [SlotMap.slot, show (Ledger.writeAll (indexing hash) posThisTx claims m)[
        input.1.claim.1]? = some txindex from hget]
      rfl
    rw [← hread, hwritten, hpos']
    rfl
  -- the new position is not null, so the output is not one that has just been marked
  have hnew : input.1.claim ∉ claims := by
    intro hmem
    rw [if_pos hmem] at hslot
    rw [List.getD_eq_getElem?_getD, hslot, Option.getD_some, hpos] at hnull
    cases hnull
  rw [if_neg hnew] at hslot
  rw [List.getD_eq_getElem?_getD, hslot, Option.getD_some] at hnull
  have hwrite : Ledger.writeAll (indexing hash) posThisTx (claims ++ [input.1.claim]) m =
      (Ledger.writeAll (indexing hash) posThisTx claims m).insert input.1.prevout.hash
        { txindex with vSpent := txindex.vSpent.set input.1.prevout.n.toNat posThisTx } := by
    rw [Ledger.writeAll_concat]
    exact SlotMap.write_eq_insert hget
  constructor
  · rw [hwrite]
    exact hs.overlays.insert _ _
  · intro k txindex' txPrev' hk
    rw [hwrite, MapLoop.getElem?_insert_eq]
    rw [MapLoop.getElem?_insert_eq] at hk
    split_ifs at hk ⊢ with heq
    · cases hk
      rfl
    · exact hs.fetched hk
  · exact List.nodup_append'.mpr ⟨hs.nodup, List.nodup_singleton _, by simpa using hnew⟩
  · intro o ho
    rcases List.mem_append.mp ho with hold | hlast
    · exact hs.free o hold
    · rw [List.mem_singleton.mp hlast]
      exact ⟨pos, hpos', hnull⟩

/-- One turn of the first loop of `ConnectInputs`. -/
lemma checkInput_eq_ok {nValueIn n : Int64}
    (h : checkInput env tx inputs pindexBlock nValueIn txin = .ok n) :
    ∃ txindex txPrev txout, inputs[txin.prevout.hash]? = some (txindex, txPrev) ∧
      txPrev.vout[txin.prevout.n.toNat]? = some txout ∧
      txin.prevout.n.toNat < txindex.vSpent.length ∧ txPrev.nTime ≤ tx.nTime ∧
      moneyRange txout.nValue = true ∧ moneyRange n = true ∧ n = nValueIn + txout.nValue := by
  unfold checkInput at h
  obtain ⟨⟨txindex, txPrev⟩, hprev, h⟩ := bind_eq_ok.mp h
  obtain ⟨_, hrange, h⟩ := bind_eq_ok.mp h
  obtain ⟨-, -, h⟩ := bind_eq_ok.mp h
  obtain ⟨_, htime, h⟩ := bind_eq_ok.mp h
  obtain ⟨_, hmoney, h⟩ := bind_eq_ok.mp h
  obtain ⟨txindex', txPrev', hprev', hvout, hvSpent⟩ := checkRange_eq_ok.mp hrange
  rw [prevOf_eq_ok.mp hprev] at hprev'
  cases hprev'
  have htxout : txPrev.vout[txin.prevout.n.toNat]? = some txPrev.vout[txin.prevout.n.toNat] :=
    List.getElem?_eq_getElem hvout
  rw [Exit.require_eq_ok, Bool.and_eq_true, List.getD_eq_getElem?_getD, htxout,
    Option.getD_some] at hmoney
  rw [List.getD_eq_getElem?_getD, htxout, Option.getD_some] at h
  cases h
  exact ⟨txindex, txPrev, _, prevOf_eq_ok.mp hprev, htxout, hvSpent,
    of_decide_eq_true (Exit.require_eq_ok.mp htime), hmoney.1, hmoney.2, rfl⟩

variable {q : Std.ExtTreeMap UInt256 CTxIndex}

/-- The parts of a successful `ConnectInputs`. -/
lemma connectInputs_eq_ok (hcoin : tx.isCoinBase = false)
    (h : tx.connectInputs env db inputs mapTestPool posThisTx pindexBlock = .ok q) :
    ∃ nValueIn s, tx.vin.foldlM (checkInput env tx inputs pindexBlock) 0 = .ok nValueIn ∧
      tx.vin.zipIdx.foldlM (spendInput env tx posThisTx) (inputs, mapTestPool) = .ok s ∧
      checkValue env db tx nValueIn = .ok () ∧ q = s.2 := by
  unfold connectInputs at h
  rw [if_neg (by simp [hcoin])] at h
  obtain ⟨nValueIn, hcheck, h⟩ := bind_eq_ok.mp h
  obtain ⟨s, hspend, h⟩ := bind_eq_ok.mp h
  obtain ⟨_, hvalue, h⟩ := bind_eq_ok.mp h
  cases h
  exact ⟨nValueIn, s, hcheck, hspend, hvalue, rfl⟩

/-- `ConnectInputs` marks the outputs that the transaction claims, which were not spent. -/
lemma spends_of_connectInputs (hcoin : tx.isCoinBase = false) (hpos : posThisTx.isNull = false)
    (hq : Overlays mapTestPool db m) (hfetched : Fetched env m inputs)
    (h : tx.connectInputs env db inputs mapTestPool posThisTx pindexBlock = .ok q) :
    Overlays q db (Ledger.writeAll (indexing hash) posThisTx tx.claims m) ∧ tx.claims.Nodup ∧
      ∀ o ∈ tx.claims, ∃ pos, m.spentAt o.1 o.2 = some pos ∧ pos.isNull = true := by
  obtain ⟨nValueIn, s, hcheck, hspend, -, rfl⟩ := connectInputs_eq_ok hcoin h
  have hthere : ∀ txin ∈ tx.vin, (m.spentAt txin.claim.1 txin.claim.2).isSome := by
    refine foldlM_invariant (fun visited (_ : Int64) => ∀ txin ∈ visited,
      (m.spentAt txin.claim.1 txin.claim.2).isSome) ?_ (by simp) hcheck
    intro visited txin rest n n' _ hvisited hstep txin' hmem
    rcases List.mem_append.mp hmem with hold | hlast
    · exact hvisited txin' hold
    · obtain ⟨txindex, txPrev, txout, hprev, -, hlt, -⟩ := checkInput_eq_ok hstep
      rw [List.mem_singleton.mp hlast, TxDB.spentAt]
      have hget : m[txin.claim.1]? = some txindex := (hfetched _ _ _ hprev).1
      rw [hget, Option.bind_some]
      exact Option.isSome_iff_exists.mpr ⟨_, List.getElem?_eq_getElem hlt⟩
  have hspends : Spends hash db m posThisTx (tx.vin.zipIdx.map fun input => input.1.claim) s := by
    refine foldlM_invariant (fun visited s =>
      Spends hash db m posThisTx (visited.map fun input => input.1.claim) s) ?_ ?_ hspend
    · intro visited input rest s s' hitems hs hstep
      have hmem : input.1 ∈ tx.vin := by
        have hin : input ∈ tx.vin.zipIdx := by simp [hitems]
        exact List.fst_mem_of_mem_zipIdx hin
      rw [List.map_append]
      exact hs.step hpos (hthere _ hmem) hstep
    · exact ⟨hq, fun hprev => (hfetched _ _ _ hprev).1, List.nodup_nil, by simp⟩
  have hclaims : (tx.vin.zipIdx.map fun input => input.1.claim) = tx.claims := by
    rw [claims, if_neg (by simp [hcoin])]
    conv_rhs => rw [← List.zipIdx_map_fst 0 tx.vin, List.map_map]
    rfl
  rw [hclaims] at hspends
  exact ⟨hspends.overlays, hspends.nodup, hspends.free⟩

/-- The fee of a transaction in a block. -/
lemma getMinFee_eq (tx : CTransaction) : tx.getMinFee = MIN_TX_FEE := by
  have hfee : ((1 : Int64) + (0 : UInt32).toUInt64.toInt64 / 1000) * MIN_TX_FEE = MIN_TX_FEE := by
    decide
  have hless : ¬ MIN_TX_FEE < MIN_TX_FEE := by decide
  simp only [getMinFee, Bool.false_eq_true, if_false, hfee, hless, false_and, ne_eq,
    not_true_eq_false]
  decide

/-- The end of `ConnectInputs`. -/
lemma checkValue_eq_ok {nValueIn : Int64} (h : checkValue env db tx nValueIn = .ok ()) :
    ∃ nValueOut, tx.getValueOut = .ok nValueOut ∧
      (tx.isCoinStake = true → ∃ nCoinAge, getCoinAge env db tx = some nCoinAge ∧
        nValueOut - nValueIn ≤
          getProofOfStakeReward nCoinAge.toInt64 tx.nTime - tx.getMinFee + MIN_TX_FEE) ∧
      (tx.isCoinStake = false → nValueOut ≤ nValueIn ∧
        MIN_TX_FEE ≤ nValueIn - nValueOut ∧ moneyRange (nValueIn - nValueOut) = true) := by
  unfold checkValue at h
  obtain ⟨nValueOut, hout, h⟩ := bind_eq_ok.mp h
  refine ⟨nValueOut, Exit.lift_eq_ok.mp hout, ?_⟩
  split_ifs at h with hstake
  · obtain ⟨nCoinAge, hage, h⟩ := bind_eq_ok.mp h
    refine ⟨fun _ => ⟨nCoinAge, Exit.requireSome_eq_ok.mp hage, ?_⟩, fun hnot => ?_⟩
    · exact of_decide_eq_true (Exit.require_eq_ok.mp h)
    · rw [hstake] at hnot
      cases hnot
  · obtain ⟨_, hge, h⟩ := bind_eq_ok.mp h
    obtain ⟨-, -, h⟩ := bind_eq_ok.mp h
    obtain ⟨_, hfee, h⟩ := bind_eq_ok.mp h
    refine ⟨fun hyes => absurd hyes hstake, fun _ => ?_⟩
    rw [getMinFee_eq] at hfee
    exact ⟨of_decide_eq_true (Exit.require_eq_ok.mp hge),
      of_decide_eq_true (Exit.require_eq_ok.mp hfee), Exit.require_eq_ok.mp h⟩

/-- A transaction that pays its fee, or a coin stake, has an input. -/
lemma vin_ne_nil_of_connectInputs (hcoin : tx.isCoinBase = false)
    (h : tx.connectInputs env db inputs mapTestPool posThisTx pindexBlock = .ok q) :
    tx.vin ≠ [] := by
  obtain ⟨nValueIn, s, hcheck, -, hvalue, -⟩ := connectInputs_eq_ok hcoin h
  intro hnil
  rw [hnil, List.foldlM_nil] at hcheck
  cases hcheck
  obtain ⟨nValueOut, hout, -, hfee⟩ := checkValue_eq_ok hvalue
  have hstake : tx.isCoinStake = false := by
    unfold isCoinStake
    rw [hnil]
  obtain ⟨hle, hfee, -⟩ := hfee hstake
  have hnonneg := (moneyRange_iff.mp (getValueOut_eq_ok hout).2.1).1
  have hzero : (0 : Int64).toInt = 0 := rfl
  have hmin : MIN_TX_FEE.toInt = 10 := rfl
  have hlt := nValueOut.toInt_lt
  rw [Int64.le_iff_toInt_le, Int64Sum.toInt_sub ⟨by omega, by omega⟩] at hfee
  omega

end CTransaction

/-! ## Connecting a transaction -/

section Connect

variable {Db : Type} {hash : Bytes → UInt256} {node : Node Db} {db : Db} {pindex : CBlockIndex}
  {s s' : ConnectState} {tx : CTransaction}

/-- What a turn of the loop over the transactions does for a transaction that spends. -/
lemma connectInputsOf_eq_ok {posThisTx : CDiskTxPos} {hashTx : UInt256}
    (h : connectInputsOf node db pindex posThisTx hashTx tx s = .ok s') :
    ∃ inputs nIn nOut q, node.fetchInputs db tx s.mapQueuedChanges = .ok (some inputs) ∧
      tx.getValueIn inputs = .ok nIn ∧ tx.getValueOut = .ok nOut ∧
      node.connectInputs db tx inputs s.mapQueuedChanges posThisTx pindex = .ok (some q) ∧
      s'.nTxPos = s.nTxPos ∧ s'.mapQueuedChanges = q ∧ s'.nValueIn = s.nValueIn + nIn ∧
      s'.nValueOut = s.nValueOut + nOut ∧
      s'.nFees = if tx.isCoinStake then s.nFees else s.nFees + (nIn - nOut) := by
  unfold connectInputsOf at h
  obtain ⟨found, hfound, h⟩ := bind_eq_ok.mp h
  obtain ⟨inputs, hinputs, h⟩ := bind_eq_ok.mp h
  obtain ⟨nSigOps, -, h⟩ := bind_eq_ok.mp h
  obtain ⟨-, -, h⟩ := bind_eq_ok.mp h
  obtain ⟨nIn, hin, h⟩ := bind_eq_ok.mp h
  obtain ⟨nOut, hout, h⟩ := bind_eq_ok.mp h
  obtain ⟨connected, hconnected, h⟩ := bind_eq_ok.mp h
  obtain ⟨q, hq, h⟩ := bind_eq_ok.mp h
  obtain ⟨fProposal, -, h⟩ := bind_eq_ok.mp h
  cases h
  rw [Exit.requireSome_eq_ok.mp hinputs] at hfound
  rw [Exit.requireSome_eq_ok.mp hq] at hconnected
  exact ⟨inputs, nIn, nOut, q, Exit.lift_eq_ok.mp hfound, Exit.lift_eq_ok.mp hin,
    Exit.lift_eq_ok.mp hout, Exit.lift_eq_ok.mp hconnected, rfl, rfl, rfl, rfl, rfl⟩

/-- What goes on after a check of an older record. -/
lemma eq_ok_of_match {α : Type} {old : Option CTxIndex} {check : CTxIndex → Bool}
    {x : Except Exit α} {a : α}
    (h : (match old with
      | some txindexOld => Exit.require (check txindexOld) >>= fun _ => x
      | none => x) = .ok a) : x = .ok a := by
  cases old with
  | none => exact h
  | some txindexOld =>
    obtain ⟨-, -, h⟩ := bind_eq_ok.mp h
    exact h

/-- What a turn of the loop over the transactions does: the amounts that the transaction claims and
makes are added to the sums, and its record to the queued changes as `ConnectInputs` leaves them. -/
lemma connectTransaction_eq_ok (h : connectTransaction hash node db pindex false s tx = .ok s') :
    ∃ nIn nOut q, tx.getValueOut = .ok nOut ∧ s'.nTxPos = s.nTxPos + tx.getSerializeSize ∧
      s'.mapQueuedChanges = q.insert (tx.getHash hash)
        (.ofPos ⟨pindex.nFile, pindex.nBlockPos, s.nTxPos⟩ tx.vout.length) ∧
      s'.nValueIn = s.nValueIn + nIn ∧ s'.nValueOut = s.nValueOut + nOut ∧
      s'.nFees = (if tx.isCoinBase || tx.isCoinStake then s.nFees
        else s.nFees + (nIn - nOut)) ∧
      (tx.isCoinBase = true → q = s.mapQueuedChanges ∧ nIn = 0) ∧
      (tx.isCoinBase = false → ∃ inputs,
        node.fetchInputs db tx s.mapQueuedChanges = .ok (some inputs) ∧
        tx.getValueIn inputs = .ok nIn ∧
        node.connectInputs db tx inputs s.mapQueuedChanges
          ⟨pindex.nFile, pindex.nBlockPos, s.nTxPos⟩ pindex = .ok (some q)) := by
  unfold connectTransaction at h
  obtain ⟨-, -, h⟩ := bind_eq_ok.mp (eq_ok_of_match h)
  cases hcoin : tx.isCoinBase with
  | true =>
    rw [if_pos hcoin] at h
    obtain ⟨nOut, hout, h⟩ := bind_eq_ok.mp h
    cases h
    exact ⟨0, nOut, s.mapQueuedChanges, Exit.lift_eq_ok.mp hout, rfl, rfl,
      (Int64.add_zero _).symm, rfl, rfl, fun _ => ⟨rfl, rfl⟩, nofun⟩
  | false =>
    rw [if_neg (by simp [hcoin])] at h
    obtain ⟨s'', hs'', h⟩ := bind_eq_ok.mp h
    cases h
    obtain ⟨inputs, nIn, nOut, q, hfetch, hin, hout, hconnect, hpos, hqueue, hvin, hvout, hfees⟩ :=
      connectInputsOf_eq_ok hs''
    refine ⟨nIn, nOut, q, hout, hpos, ?_, hvin, hvout, ?_, nofun,
      fun _ => ⟨inputs, hfetch, hin, hconnect⟩⟩
    · rw [hqueue]
    · rw [Bool.false_or]
      exact hfees

end Connect

/-! ## The index of the chain -/

section Tracks

variable {hash : Bytes → UInt256} {env : Env} {db : TxDB} {chain : List OnChain}
  {q : Std.ExtTreeMap UInt256 CTxIndex} {pindex : CBlockIndex} {s s' : ConnectState}
  {tx : CTransaction}

/-- The queued changes over the database are the index of a valid chain. -/
structure Tracks (hash : Bytes → UInt256) (db : TxDB) (chain : List OnChain)
    (q : Std.ExtTreeMap UInt256 CTxIndex) : Prop where
  overlays : Overlays q db (indexOf hash chain)
  valid : Ledger.Valid (indexing hash).toScheme chain
  marked : ∀ x ∈ chain, x.pos.isNull = false

/-- Where the outputs of a valid chain are spent. -/
lemma spentAt_indexOf_iff (hvalid : Ledger.Valid (indexing hash).toScheme chain) {h : UInt256}
    {n : ℕ} {pos : CDiskTxPos} : (indexOf hash chain).spentAt h n = some pos ↔
      (∃ p ∈ chain, p.tx.getHash hash = h ∧ n < p.tx.vout.length) ∧
        ((h, n) ∉ Ledger.claimed (indexing hash).toScheme chain ∧ pos = {} ∨
          ∃ x ∈ chain, (h, n) ∈ x.tx.claims ∧ pos = x.pos) := by
  change SlotMap.slot (indexing hash).lens (Ledger.index (indexing hash) compare chain) h n =
    some pos ↔ _
  exact Ledger.slot_index_iff hvalid

/-- An output of a valid chain that is not spent is free, and nothing claims it. -/
lemma free_of_isNull (hvalid : Ledger.Valid (indexing hash).toScheme chain)
    (hmarked : ∀ x ∈ chain, x.pos.isNull = false) {o : UInt256 × ℕ} {pos : CDiskTxPos}
    (hspent : (indexOf hash chain).spentAt o.1 o.2 = some pos) (hnull : pos.isNull = true) :
    pos = {} ∧ o ∉ Ledger.claimed (indexing hash).toScheme chain ∧
      ∃ p ∈ chain, p.tx.getHash hash = o.1 ∧ o.2 < p.tx.vout.length := by
  obtain ⟨hfound, ⟨hfree, hpos⟩ | ⟨x, hx, -, hpos⟩⟩ :=
    (spentAt_indexOf_iff hvalid).mp hspent
  · exact ⟨hpos, hfree, hfound⟩
  · have hmark : pos = x.pos := hpos
    rw [hmark, hmarked x hx] at hnull
    cases hnull

/-- A turn of the loop over the transactions marks the outputs that the transaction claims, and
only a coinbase claims none. -/
lemma spends_of_connectTransaction {m : TxDB} (hq : Overlays s.mapQueuedChanges db m)
    (hfile : pindex.nFile ≠ 0xffffffff)
    (h : connectTransaction hash (env.node hash) db pindex false s tx = .ok s') :
    (∃ q, Overlays q db (Ledger.writeAll (indexing hash)
        ⟨pindex.nFile, pindex.nBlockPos, s.nTxPos⟩ tx.claims m) ∧
      s'.mapQueuedChanges = q.insert (tx.getHash hash)
        (.ofPos ⟨pindex.nFile, pindex.nBlockPos, s.nTxPos⟩ tx.vout.length)) ∧
      tx.claims.Nodup ∧ (∀ o ∈ tx.claims, ∃ pos, m.spentAt o.1 o.2 = some pos ∧ pos.isNull = true) ∧
      (tx.isCoinBase = false → tx.claims ≠ []) := by
  obtain ⟨nIn, nOut, q, -, -, hqueue, -, -, -, hcoinbase, hspending⟩ :=
    connectTransaction_eq_ok h
  cases hcoin : tx.isCoinBase with
  | true =>
    have hclaims : tx.claims = [] := if_pos hcoin
    rw [hclaims]
    exact ⟨⟨q, (hcoinbase hcoin).1 ▸ hq, hqueue⟩, List.nodup_nil, by simp, nofun⟩
  | false =>
    obtain ⟨inputs, hfetch, -, hconnect⟩ := hspending hcoin
    have hfetched := CTransaction.fetched_fetchInputs hq (Exit.toOption_eq_ok.mp hfetch)
    have hconnected := Exit.toOption_eq_ok.mp hconnect
    have hpos : (⟨pindex.nFile, pindex.nBlockPos, s.nTxPos⟩ : CDiskTxPos).isNull = false :=
      beq_eq_false_iff_ne.mpr hfile
    obtain ⟨hoverlays, hnodup, hfree⟩ :=
      CTransaction.spends_of_connectInputs hcoin hpos hq hfetched hconnected
    refine ⟨⟨q, hoverlays, hqueue⟩, hnodup, hfree, fun _ hnil => ?_⟩
    rw [CTransaction.claims, if_neg (by simp [hcoin]), List.map_eq_nil_iff] at hnil
    exact CTransaction.vin_ne_nil_of_connectInputs hcoin hconnected hnil

/-- A turn of the loop over the transactions records the transaction, if the identifiers of others
are different, and a coinbase is new. -/
lemma Tracks.step (hs : Tracks hash db chain s.mapQueuedChanges) (hfile : pindex.nFile ≠ 0xffffffff)
    (hinj : ∀ x ∈ chain, x.tx.getHash hash = tx.getHash hash → x.tx = tx)
    (hnew : tx.isCoinBase = true → ∀ x ∈ chain, x.tx ≠ tx)
    (h : connectTransaction hash (env.node hash) db pindex false s tx = .ok s') :
    Tracks hash db (⟨tx, ⟨pindex.nFile, pindex.nBlockPos, s.nTxPos⟩⟩ :: chain)
      s'.mapQueuedChanges := by
  obtain ⟨⟨q, hq, hqueue⟩, hnodup, hfree, hclaims⟩ :=
    spends_of_connectTransaction hs.overlays hfile h
  have hunclaimed : ∀ o ∈ tx.claims, o ∉ Ledger.claimed (indexing hash).toScheme chain ∧
      ∃ p ∈ chain, p.tx.getHash hash = o.1 ∧ o.2 < p.tx.vout.length := by
    intro o ho
    obtain ⟨pos, hspent, hnull⟩ := hfree o ho
    exact (free_of_isNull hs.valid hs.marked hspent hnull).2
  have hfresh : tx.getHash hash ∉ chain.map fun x => x.tx.getHash hash := by
    cases hcoin : tx.isCoinBase with
    | true =>
      intro hmem
      obtain ⟨x, hx, hid⟩ := List.mem_map.mp hmem
      exact hnew hcoin x hx (hinj x hx hid)
    | false =>
      obtain ⟨o, ho⟩ := List.exists_mem_of_ne_nil _ (hclaims hcoin)
      refine Ledger.Valid.id_notMem_of_claim (S := (indexing hash).toScheme)
        (t := ⟨tx, ⟨pindex.nFile, pindex.nBlockPos, s.nTxPos⟩⟩) ho (hunclaimed o ho).1 ?_
      intro x hx hid
      exact congrArg CTransaction.claims (hinj x hx hid)
  constructor
  · rw [hqueue]
    exact hq.insert _ _
  · exact .cons hs.valid hfresh hnodup (fun o ho => (hunclaimed o ho).2)
      fun o ho => (hunclaimed o ho).1
  · exact List.forall_mem_cons.mpr ⟨beq_eq_false_iff_ne.mpr hfile, hs.marked⟩

/-! ## Connecting a block -/

/-- The transactions of a block, each with its position. -/
def placed (pindex : CBlockIndex) : UInt32 → List CTransaction → List OnChain
  | _, [] => []
  | nTxPos, tx :: vtx => ⟨tx, ⟨pindex.nFile, pindex.nBlockPos, nTxPos⟩⟩ ::
      placed pindex (nTxPos + tx.getSerializeSize) vtx

/-- The position of the first transaction of a block. -/
def firstTxPos (block : CBlock) (pindex : CBlockIndex) : UInt32 :=
  pindex.nBlockPos + ({} : CBlock).getSerializeSize - 2 * getSizeOfCompactSize 0 +
    getSizeOfCompactSize block.vtx.length

lemma map_tx_placed (pindex : CBlockIndex) (nTxPos : UInt32) (vtx : List CTransaction) :
    (placed pindex nTxPos vtx).map OnChain.tx = vtx := by
  induction vtx generalizing nTxPos with
  | nil => rfl
  | cons tx vtx ih => rw [placed, List.map_cons, ih]

/-- The loop over transactions that are not coinbases records them. -/
lemma Tracks.foldlM {known : Set CTransaction} (hinj : Set.InjOn (CTransaction.getHash hash) known)
    {vtx : List CTransaction} (hs : Tracks hash db chain s.mapQueuedChanges)
    (hfile : pindex.nFile ≠ 0xffffffff) (hchain : ∀ x ∈ chain, x.tx ∈ known)
    (hvtx : ∀ tx ∈ vtx, tx ∈ known) (hcoin : ∀ tx ∈ vtx, tx.isCoinBase = false)
    (h : vtx.foldlM (connectTransaction hash (env.node hash) db pindex false) s = .ok s') :
    Tracks hash db ((placed pindex s.nTxPos vtx).reverse ++ chain) s'.mapQueuedChanges := by
  induction vtx generalizing s chain with
  | nil =>
    rw [List.foldlM_nil] at h
    cases h
    exact hs
  | cons tx vtx ih =>
    obtain ⟨hcoinbase, hcoin⟩ := List.forall_mem_cons.mp hcoin
    obtain ⟨htx, hvtx⟩ := List.forall_mem_cons.mp hvtx
    obtain ⟨s₁, hstep, hrest⟩ := foldlM_cons_eq_ok.mp h
    have hs₁ := hs.step hfile (fun x hx hid => hinj (hchain x hx) htx hid)
      (fun hyes => by rw [hcoinbase] at hyes; cases hyes) hstep
    obtain ⟨-, -, -, -, hpos, -⟩ := connectTransaction_eq_ok hstep
    have hresult := ih hs₁ (List.forall_mem_cons.mpr ⟨htx, hchain⟩) hvtx hcoin hrest
    rw [hpos] at hresult
    rw [placed, List.reverse_cons, List.append_assoc]
    exact hresult

variable {block : CBlock}

/-- The checks and the loop of a successful `ConnectBlock`. -/
lemma connectTransactions_eq_ok
    (h : connectTransactions hash (env.node hash) db block pindex false = .ok s) :
    block.checkBlock hash env true true
        (decide (pindex.nHeight ≥ env.getTotalBlocksEstimate)) = true ∧
      block.vtx.foldlM (connectTransaction hash (env.node hash) db pindex false)
        { nTxPos := firstTxPos block pindex } = .ok s := by
  unfold connectTransactions at h
  obtain ⟨b, hcheck, h⟩ := bind_eq_ok.mp h
  obtain ⟨_, hrequire, hloop⟩ := bind_eq_ok.mp h
  cases hcheck
  exact ⟨Exit.require_eq_ok.mp hrequire, hloop⟩

/-- A block that passes `CheckBlock` starts with its only coinbase. -/
lemma CBlock.coinbase_of_checkBlock {fCheckPOW fCheckMerkleRoot fFullCheck : Bool}
    (h : block.checkBlock hash env fCheckPOW fCheckMerkleRoot fFullCheck = true) :
    ∃ coinbase others, block.vtx = coinbase :: others ∧ coinbase.isCoinBase = true ∧
      ∀ tx ∈ others, tx.isCoinBase = false := by
  have hkinds : block.checkKinds = true := by
    simp only [checkBlock, Bool.and_eq_true] at h
    exact h.1.1.1.1.1.2
  cases hvtx : block.vtx with
  | nil => simp [checkKinds, hvtx] at hkinds
  | cons coinbase others =>
    simp only [checkKinds, hvtx, Bool.and_eq_true] at hkinds
    obtain ⟨⟨⟨⟨⟨hcoinbase, hothers⟩, -⟩, -⟩, -⟩, -⟩ := hkinds
    refine ⟨coinbase, others, rfl, hcoinbase, fun tx htx => ?_⟩
    rw [Bool.not_eq_true', List.any_eq_false] at hothers
    exact Bool.eq_false_iff.mpr (hothers tx htx)

/-- A successful `ConnectBlock` records the transactions of the block, if its coinbase is new. -/
lemma Tracks.connectBlock {known : Set CTransaction}
    (hinj : Set.InjOn (CTransaction.getHash hash) known) {pprev : CBlockIndex}
    {r : Registry} (hs : Tracks hash db chain ∅) (hfile : pindex.nFile ≠ 0xffffffff)
    (hchain : ∀ x ∈ chain, x.tx ∈ known) (hvtx : ∀ tx ∈ block.vtx, tx ∈ known)
    (hnew : ∀ coinbase ∈ block.vtx.head?, coinbase.isCoinBase = true →
      ∀ x ∈ chain, x.tx ≠ coinbase)
    (h : (HyperStake.connectBlock hash (env.node hash) db block pindex (some pprev) false
      r).result = .ok true) :
    Tracks hash (HyperStake.connectBlock hash (env.node hash) db block pindex (some pprev) false
        r).db ((placed pindex (firstTxPos block pindex) block.vtx).reverse ++ chain) ∅ := by
  obtain ⟨s, hconnect, hfinish⟩ := connectBlock_finish hash (env.node hash) h
  obtain ⟨hcheck, hloop⟩ := connectTransactions_eq_ok hconnect
  obtain ⟨coinbase, others, hblock, hcoinbase, hothers⟩ := CBlock.coinbase_of_checkBlock hcheck
  rw [hblock] at hloop hvtx hnew
  obtain ⟨s₁, hstep, hrest⟩ := foldlM_cons_eq_ok.mp hloop
  obtain ⟨htx, hvtx⟩ := List.forall_mem_cons.mp hvtx
  have hs₁ := Tracks.step (s := { nTxPos := firstTxPos block pindex }) hs hfile
    (fun x hx hid => hinj (hchain x hx) htx hid)
    (fun hyes x hx => hnew coinbase rfl hyes x hx) hstep
  have hs₂ := hs₁.foldlM hinj hfile (List.forall_mem_cons.mpr ⟨htx, hchain⟩) hvtx hothers hrest
  obtain ⟨-, -, -, -, hpos, -⟩ := connectTransaction_eq_ok hstep
  rw [hpos] at hs₂
  rw [hblock, placed, List.reverse_cons, List.append_assoc]
  exact ⟨hs₂.overlays.finishConnect hfinish ▸ .start _, hs₂.valid, hs₂.marked⟩

end Tracks

end HyperStake
