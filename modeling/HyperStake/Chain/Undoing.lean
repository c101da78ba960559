import HyperStake.Chain.Spending

/-!
# Giving outputs back

`DisconnectInputs` frees the outputs that a transaction claims and takes its record away, which is
what `Ledger.undo` does to an index; so `DisconnectBlock`, which goes through the transactions in
reverse order, leaves the index of the chain without the block.  It succeeds if the database takes
what it writes.
-/

namespace HyperStake

open ExceptLoop

/-- The database takes every record. -/
structure Env.Writes (env : Env) : Prop where
  txIndex : ∀ hash txindex, env.writesTxIndex hash txindex = true
  blockIndex : ∀ pindex, env.writesBlockIndex pindex = true

variable {hash : Bytes → UInt256} {env : Env} {db db' : TxDB} {chain : List OnChain}

namespace CTransaction

/-- One turn of `DisconnectInputs` frees an output. -/
lemma disconnectInput_eq_some (hash : Bytes → UInt256) {txin : CTxIn}
    (h : disconnectInput env db txin = some db') :
    db' = SlotMap.write (indexing hash).lens db txin.claim.1 txin.claim.2 {} := by
  unfold disconnectInput at h
  obtain ⟨txindex, hget, h⟩ := Option.bind_eq_some_iff.mp h
  obtain ⟨_, -, h⟩ := Option.bind_eq_some_iff.mp h
  unfold TxDB.updateTxIndex at h
  split_ifs at h
  exact (Option.some.inj h).symm.trans
    (SlotMap.write_eq_insert (L := (indexing hash).lens) (k := txin.claim.1) hget).symm

/-- One turn of `DisconnectInputs` succeeds if the output is there. -/
lemma exists_disconnectInput (hwrites : env.Writes) {txin : CTxIn}
    (hthere : (db.spentAt txin.claim.1 txin.claim.2).isSome) :
    ∃ db', disconnectInput env db txin = some db' := by
  obtain ⟨pos, hpos⟩ := Option.isSome_iff_exists.mp hthere
  obtain ⟨txindex, hget, hslot⟩ := Option.bind_eq_some_iff.mp hpos
  have hget' : db[txin.prevout.hash]? = some txindex := hget
  have hlt : txin.prevout.n.toNat < txindex.vSpent.length := by
    have hsome : txindex.vSpent[txin.prevout.n.toNat]? = some pos := hslot
    exact (List.getElem?_eq_some_iff.mp hsome).1
  refine ⟨db.insert txin.prevout.hash
    { txindex with vSpent := txindex.vSpent.set txin.prevout.n.toNat {} }, ?_⟩
  unfold disconnectInput
  simp [hget', hlt, TxDB.updateTxIndex, hwrites.txIndex]

/-- The loop of `DisconnectInputs` frees the outputs that the inputs claim. -/
lemma foldlM_disconnectInput_eq_some {vin : List CTxIn}
    (h : vin.foldlM (disconnectInput env) db = some db') :
    db' = Ledger.writeAll (indexing hash) {} (vin.map CTxIn.claim) db := by
  induction vin generalizing db with
  | nil => exact (Option.some.inj h).symm
  | cons txin vin ih =>
    rw [List.foldlM_cons] at h
    obtain ⟨db₁, hstep, hrest⟩ := Option.bind_eq_some_iff.mp h
    rw [ih hrest, disconnectInput_eq_some hash hstep]
    rfl

/-- The loop of `DisconnectInputs` succeeds if the outputs are there. -/
lemma exists_foldlM_disconnectInput (hwrites : env.Writes) {vin : List CTxIn}
    (hthere : ∀ txin ∈ vin, (db.spentAt txin.claim.1 txin.claim.2).isSome) :
    ∃ db', vin.foldlM (disconnectInput env) db = some db' := by
  induction vin generalizing db with
  | nil => exact ⟨db, rfl⟩
  | cons txin vin ih =>
    rw [List.forall_mem_cons] at hthere
    obtain ⟨db₁, hstep⟩ := exists_disconnectInput hwrites hthere.1
    have hstill : ∀ txin' ∈ vin, (db₁.spentAt txin'.claim.1 txin'.claim.2).isSome := by
      intro txin' hmem
      rw [disconnectInput_eq_some (fun _ => 0) hstep]
      exact SlotMap.isSome_slot_write.trans (hthere.2 txin' hmem)
    obtain ⟨db₂, hrest⟩ := ih hstill
    refine ⟨db₂, ?_⟩
    rw [List.foldlM_cons, hstep]
    exact hrest

/-- `DisconnectInputs` undoes a transaction. -/
lemma disconnectInputs_eq_some {tx : CTransaction} (pos : CDiskTxPos)
    (h : disconnectInputs hash env db tx = some db') :
    db' = Ledger.undo (indexing hash) ⟨tx, pos⟩ db := by
  unfold disconnectInputs at h
  obtain ⟨db₁, hfree, rfl⟩ := Option.map_eq_some_iff.mp h
  have hclaims : db₁ = Ledger.writeAll (indexing hash) {} tx.claims db := by
    unfold claims
    split_ifs at hfree ⊢ with hcoin
    · exact (Option.some.inj hfree).symm
    · exact foldlM_disconnectInput_eq_some hfree
  rw [hclaims]
  rfl

/-- `DisconnectInputs` succeeds if the outputs that the transaction claims are there. -/
lemma exists_disconnectInputs (hash : Bytes → UInt256) (hwrites : env.Writes) {tx : CTransaction}
    (hthere : ∀ o ∈ tx.claims, (db.spentAt o.1 o.2).isSome) :
    ∃ db', disconnectInputs hash env db tx = some db' := by
  have hfree : ∃ db₁, (if tx.isCoinBase then some db
      else tx.vin.foldlM (disconnectInput env) db) = some db₁ := by
    unfold claims at hthere
    split_ifs at hthere ⊢ with hcoin
    · exact ⟨db, rfl⟩
    · exact exists_foldlM_disconnectInput hwrites fun txin hmem =>
        hthere _ (List.mem_map_of_mem hmem)
  obtain ⟨db₁, hdb₁⟩ := hfree
  refine ⟨db₁.erase (tx.getHash hash), ?_⟩
  unfold disconnectInputs
  rw [hdb₁]
  rfl

end CTransaction

/-- The transactions of a chain are undone one after the other. -/
lemma foldlM_disconnectInputs {newest : List OnChain}
    (hvalid : Ledger.Valid (indexing hash).toScheme (newest ++ chain))
    (h : (newest.map OnChain.tx).foldlM (CTransaction.disconnectInputs hash env)
      (indexOf hash (newest ++ chain)) = some db') : db' = indexOf hash chain := by
  induction newest with
  | nil => exact (Option.some.inj h).symm
  | cons x newest ih =>
    rw [List.map_cons, List.foldlM_cons] at h
    obtain ⟨db₁, hundo, hrest⟩ := Option.bind_eq_some_iff.mp h
    have hdb₁ : db₁ = indexOf hash (newest ++ chain) :=
      (CTransaction.disconnectInputs_eq_some x.pos hundo).trans hvalid.undo_index
    rw [hdb₁] at hrest
    exact ih hvalid.tail hrest

/-- The transactions of a chain can be undone. -/
lemma exists_foldlM_disconnectInputs (hwrites : env.Writes) {newest : List OnChain}
    (hvalid : Ledger.Valid (indexing hash).toScheme (newest ++ chain)) :
    ∃ db', (newest.map OnChain.tx).foldlM (CTransaction.disconnectInputs hash env)
      (indexOf hash (newest ++ chain)) = some db' := by
  induction newest with
  | nil => exact ⟨_, rfl⟩
  | cons x newest ih =>
    have hthere : ∀ o ∈ x.tx.claims,
        ((indexOf hash (x :: newest ++ chain)).spentAt o.1 o.2).isSome := by
      intro o ho
      obtain ⟨p, hp, hid, hlt⟩ := hvalid.found (o := o)
        (Ledger.mem_claimed.mpr ⟨x, List.mem_cons_self, ho⟩)
      refine Option.isSome_iff_exists.mpr ⟨x.pos, ?_⟩
      exact (spentAt_indexOf_iff hvalid).mpr
        ⟨⟨p, hp, hid, hlt⟩, Or.inr ⟨x, List.mem_cons_self, ho, rfl⟩⟩
    obtain ⟨db₁, hundo⟩ := CTransaction.exists_disconnectInputs hash hwrites hthere
    have hdb₁ : db₁ = indexOf hash (newest ++ chain) :=
      (CTransaction.disconnectInputs_eq_some x.pos hundo).trans hvalid.undo_index
    obtain ⟨db', hrest⟩ := ih hvalid.tail
    refine ⟨db', ?_⟩
    rw [List.map_cons, List.foldlM_cons, hundo, hdb₁]
    exact hrest

end HyperStake