import HyperStake.Chain.ActiveChain

/-!
# The files of blocks

`AcceptBlock` appends a block to the last of the files of blocks, and `ConnectBlock` records for each
of its transactions where it starts in that file.  It does not ask the writer: it adds up the size of
an empty block, without the counts of its transactions and of its signature, the size of the count of
the transactions, and the sizes of the transactions before.

Here these positions are the ones at which the transactions are in the file
(`readFromDisk_connectBlock`).  The files are only ever appended to, so they stay there
(`BlockFiles.Extends`).
-/

namespace HyperStake

open ExceptLoop FieldReader

/-! ## Files -/

/-- The bytes before a block in a file of blocks, and before a message. -/
def pchMessageStart (fTestNet : Bool) : Bytes :=
  if fTestNet then [0xdd, 0x4d, 0xdd, 0x4d] else [0xdb, 0xad, 0xbd, 0xda]

/-- The files of blocks, by number, and the number of the file that blocks are appended to. -/
structure BlockFiles where
  files : Std.ExtTreeMap UInt32 Bytes := ∅
  nCurrentBlockFile : UInt32 := 1

/-- `OpenBlockFile`: the bytes of a file, or none if it cannot be opened. A file that is opened to
append is made if it is not there; `fOpens` says which files the system opens. -/
def openBlockFile (fOpens : UInt32 → Bool) (fAppend : Bool)
    (files : Std.ExtTreeMap UInt32 Bytes) (nFile : UInt32) : Option Bytes :=
  if nFile < 1 ∨ nFile = 0xffffffff then none
  else if !fOpens nFile then none
  else match files[nFile]? with
    | some file => some file
    | none => if fAppend then some [] else none

/-- The loop of `AppendBlockFile`, for a number of turns: the file that it stops at, and its bytes,
or none if it cannot be opened. -/
def appendBlockFile (fOpens : UInt32 → Bool) (files : Std.ExtTreeMap UInt32 Bytes) :
    ℕ → UInt32 → UInt32 × Option Bytes
  | 0, nFile => (nFile, none)
  | n + 1, nFile =>
    match openBlockFile fOpens true files nFile with
    | none => (nFile, none)
    | some file =>
      -- stay under 2GB
      if file.length < 0x7F000000 - MAX_SIZE then (nFile, some file)
      else appendBlockFile fOpens files n (nFile + 1)

/-- `CBlock::WriteToDisk`: the file and the position of the block, or none if no file can be opened.
-/
def CBlock.writeToDisk (fOpens : UInt32 → Bool) (fTestNet : Bool) (block : CBlock)
    (d : BlockFiles) : BlockFiles × Option (UInt32 × UInt32) :=
  match appendBlockFile fOpens d.files (2 ^ 32) d.nCurrentBlockFile with
  | (nFile, none) => ({ d with nCurrentBlockFile := nFile }, none)
  | (nFile, some file) =>
    let file := file ++ pchMessageStart fTestNet ++ serializeUInt32 block.getSerializeSize
    ({ files := d.files.insert nFile (file ++ block.serialize), nCurrentBlockFile := nFile },
      some (nFile, UInt32.ofNat file.length))

/-- `CTransaction::ReadFromDisk` into a transaction, or none if it fails. -/
def CTransaction.readFromDisk (fOpens : UInt32 → Bool) (d : BlockFiles) (pos : CDiskTxPos)
    (tx : CTransaction) : Option CTransaction :=
  match openBlockFile fOpens false d.files pos.nFile with
  | none => none
  | some file =>
    match CTransaction.unserialize tx (file.drop pos.nTxPos.toNat) with
    | (tx, .ok _) => some tx
    | (_, .error _) => none

variable {fOpens : UInt32 → Bool}

/-- The loop of `AppendBlockFile` stops at a file that is under the limit. -/
lemma appendBlockFile_eq_some {files : Std.ExtTreeMap UInt32 Bytes} {n : ℕ}
    {nFile nFile' : UInt32} {file : Bytes}
    (h : appendBlockFile fOpens files n nFile = (nFile', some file)) :
    openBlockFile fOpens true files nFile' = some file ∧ file.length < 0x7F000000 - MAX_SIZE := by
  induction n generalizing nFile with
  | zero => cases h
  | succ n ih =>
    rw [appendBlockFile] at h
    cases hopen : openBlockFile fOpens true files nFile with
    | none =>
      rw [hopen] at h
      cases h
    | some found =>
      rw [hopen] at h
      dsimp only at h
      split_ifs at h with hsize
      · cases h
        exact ⟨hopen, hsize⟩
      · exact ih h

/-- A file that is opened has a number, and to append to it is to append to what is there. -/
lemma openBlockFile_eq_some {fAppend : Bool} {files : Std.ExtTreeMap UInt32 Bytes}
    {nFile : UInt32} {file : Bytes} (h : openBlockFile fOpens fAppend files nFile = some file) :
    (¬ (nFile < 1 ∨ nFile = 0xffffffff)) ∧ files[nFile]?.getD [] = file := by
  unfold openBlockFile at h
  by_cases hnumber : nFile < 1 ∨ nFile = 0xffffffff
  · rw [if_pos hnumber] at h
    cases h
  by_cases hopens : (!fOpens nFile) = true
  · rw [if_neg hnumber, if_pos hopens] at h
    cases h
  refine ⟨hnumber, ?_⟩
  rw [if_neg hnumber, if_neg hopens] at h
  cases hget : files[nFile]? with
  | some found =>
    rw [hget] at h
    exact Option.some.inj h
  | none =>
    rw [hget] at h
    cases fAppend
    · cases h
    · exact Option.some.inj h

/-- The files have only been appended to. -/
def BlockFiles.Extends (d d' : BlockFiles) : Prop :=
  ∀ (nFile : UInt32) (file : Bytes), d.files[nFile]? = some file →
    ∃ more, d'.files[nFile]? = some (file ++ more)

namespace BlockFiles

lemma Extends.refl (d : BlockFiles) : d.Extends d := fun _ file h =>
  ⟨[], by rw [List.append_nil]; exact h⟩

end BlockFiles

namespace CBlock

/-- What is in the file after a block has been written. -/
lemma writeToDisk_eq_some {fOpens : UInt32 → Bool} {fTestNet : Bool} {block : CBlock}
    {d d' : BlockFiles} {nFile nBlockPos : UInt32}
    (h : block.writeToDisk fOpens fTestNet d = (d', some (nFile, nBlockPos))) :
    ∃ before, d'.files[nFile]? = some (before ++ block.serialize) ∧
      nBlockPos.toNat = before.length ∧ before.length < 0x7F000000 ∧
      ¬ (nFile < 1 ∨ nFile = 0xffffffff) := by
  unfold writeToDisk at h
  rcases happend : appendBlockFile fOpens d.files (2 ^ 32) d.nCurrentBlockFile with
    ⟨nFile', _ | file⟩
  · rw [happend] at h
    cases h
  · rw [happend] at h
    cases h
    obtain ⟨hopen, hsize⟩ := appendBlockFile_eq_some happend
    have hmax : MAX_SIZE = 0x02000000 := rfl
    have hstart : (pchMessageStart fTestNet).length = 4 := by cases fTestNet <;> rfl
    have hlength : (file ++ pchMessageStart fTestNet ++
        serializeUInt32 block.getSerializeSize).length = file.length + 8 := by
      simp only [List.length_append, hstart, serializeUInt32, LittleEndian.leBytes_length]
    refine ⟨_, Std.ExtTreeMap.getElem?_insert_self, UInt32.toNat_ofNat_of_lt' ?_, ?_,
      (openBlockFile_eq_some hopen).1⟩
    · rw [hlength, UInt32.size]
      omega
    · rw [hlength]
      omega

end CBlock

/-! ## The records of a block -/

/-- Queued changes after which the records that were there still have their positions. -/
def KeepsPos (q q' : Std.ExtTreeMap UInt256 CTxIndex) : Prop :=
  ∀ (h : UInt256) (txindex : CTxIndex), q[h]? = some txindex →
    ∃ txindex', q'[h]? = some txindex' ∧ txindex'.pos = txindex.pos

namespace KeepsPos

variable {q q' q'' : Std.ExtTreeMap UInt256 CTxIndex}

lemma refl (q : Std.ExtTreeMap UInt256 CTxIndex) : KeepsPos q q := fun _ txindex h =>
  ⟨txindex, h, rfl⟩

lemma insert (hkeep : KeepsPos q q') {h : UInt256} {txindex' : CTxIndex}
    (hpos : ∀ txindex, q[h]? = some txindex → txindex'.pos = txindex.pos) :
    KeepsPos q (q'.insert h txindex') := by
  intro k txindex hk
  rw [MapLoop.getElem?_insert_eq]
  by_cases heq : h = k
  · subst heq
    rw [if_pos rfl]
    exact ⟨txindex', rfl, hpos txindex hk⟩
  · rw [if_neg heq]
    exact hkeep k txindex hk

end KeepsPos

section Positions

variable {hash : Bytes → UInt256} {env : Env} {db : TxDB} {pindex : CBlockIndex}
  {s s' : ConnectState} {tx : CTransaction}

/-- Marking an output as spent leaves the transaction where it is. -/
lemma keepsPos_connectInputs {inputs : MapPrevTx} {q q' : Std.ExtTreeMap UInt256 CTxIndex}
    {posThisTx : CDiskTxPos} (hfetch : tx.fetchInputs env db q = .ok inputs)
    (h : tx.connectInputs env db inputs q posThisTx pindex = .ok q') : KeepsPos q q' := by
  cases hcoin : tx.isCoinBase with
  | true =>
    rw [CTransaction.connectInputs, if_pos hcoin] at h
    cases h
    exact .refl q
  | false =>
    obtain ⟨nValueIn, spent, -, hspend, -, rfl⟩ := CTransaction.connectInputs_eq_ok hcoin h
    have hfetched := CTransaction.fetched_fetchInputs (Overlays.union q db) hfetch
    -- the records that are changed are those of the queued changes
    have hloop : KeepsPos q spent.2 ∧ ∀ (h : UInt256) (txindex : CTxIndex) (txPrev : CTransaction),
        spent.1[h]? = some (txindex, txPrev) → ∀ old, q[h]? = some old →
          txindex.pos = old.pos := by
      refine foldlM_invariant (fun (_ : List (CTxIn × ℕ))
          (t : MapPrevTx × Std.ExtTreeMap UInt256 CTxIndex) => KeepsPos q t.2 ∧
        ∀ (h : UInt256) (txindex : CTxIndex) (txPrev : CTransaction),
          t.1[h]? = some (txindex, txPrev) → ∀ old, q[h]? = some old → txindex.pos = old.pos)
        ?_ ?_ hspend
      · intro _ input _ t t' _ ht hstep
        obtain ⟨txindex, txPrev, hprev, -, rfl⟩ := CTransaction.spendInput_eq_ok hstep
        have hpos : ∀ old, q[input.1.prevout.hash]? = some old → txindex.pos = old.pos :=
          ht.2 _ txindex txPrev hprev
        refine ⟨ht.1.insert hpos, ?_⟩
        intro k txindex' txPrev' hk
        rw [MapLoop.getElem?_insert_eq] at hk
        split_ifs at hk with heq
        · cases hk
          subst heq
          exact hpos
        · exact ht.2 k txindex' txPrev' hk
      · refine ⟨.refl q, fun k txindex txPrev hk old hold => ?_⟩
        have hsame := (hfetched k txindex txPrev hk).1
        rw [Overlays.union q db k, hold] at hsame
        cases hsame
        rfl
    exact hloop.1

/-- A turn of the loop over the transactions leaves a record with the position of the transaction,
and keeps the positions of the others. -/
lemma position_connectTransaction
    (h : connectTransaction hash (env.node hash) db pindex false s tx = .ok s') :
    (∃ txindex, s'.mapQueuedChanges[tx.getHash hash]? = some txindex ∧
      txindex.pos = ⟨pindex.nFile, pindex.nBlockPos, s.nTxPos⟩) ∧
    s'.nTxPos = s.nTxPos + tx.getSerializeSize ∧
    ∀ (k : UInt256) (old : CTxIndex), k ≠ tx.getHash hash → s.mapQueuedChanges[k]? = some old →
      ∃ txindex, s'.mapQueuedChanges[k]? = some txindex ∧ txindex.pos = old.pos := by
  obtain ⟨nIn, nOut, q, -, hpos, hqueue, -, -, -, hcoinbase, hspending⟩ :=
    connectTransaction_eq_ok h
  have hkeep : KeepsPos s.mapQueuedChanges q := by
    cases hcoin : tx.isCoinBase with
    | true =>
      rw [(hcoinbase hcoin).1]
      exact .refl _
    | false =>
      obtain ⟨inputs, hfetch, -, hconnect⟩ := hspending hcoin
      exact keepsPos_connectInputs (Exit.toOption_eq_ok.mp hfetch)
        (Exit.toOption_eq_ok.mp hconnect)
  rw [hqueue]
  refine ⟨⟨_, Std.ExtTreeMap.getElem?_insert_self, rfl⟩, hpos, fun k old hne hold => ?_⟩
  rw [MapLoop.getElem?_insert_eq, if_neg (Ne.symm hne)]
  exact hkeep k old hold

/-- The loop over transactions with distinct hashes leaves a record with the position of each, and
keeps the positions of the others. -/
lemma positions_foldlM {vtx : List CTransaction}
    (hnodup : (vtx.map (CTransaction.getHash hash)).Nodup)
    (h : vtx.foldlM (connectTransaction hash (env.node hash) db pindex false) s = .ok s') :
    (∀ x ∈ placed pindex s.nTxPos vtx, ∃ txindex,
      s'.mapQueuedChanges[x.tx.getHash hash]? = some txindex ∧ txindex.pos = x.pos) ∧
    ∀ (k : UInt256) (old : CTxIndex), k ∉ vtx.map (CTransaction.getHash hash) →
      s.mapQueuedChanges[k]? = some old →
        ∃ txindex, s'.mapQueuedChanges[k]? = some txindex ∧ txindex.pos = old.pos := by
  induction vtx generalizing s with
  | nil =>
    rw [List.foldlM_nil] at h
    cases h
    exact ⟨by simp [placed], fun k old _ hold => ⟨old, hold, rfl⟩⟩
  | cons tx vtx ih =>
    obtain ⟨htx, hvtx⟩ := List.nodup_cons.mp hnodup
    obtain ⟨s₁, hstep, hrest⟩ := foldlM_cons_eq_ok.mp h
    obtain ⟨⟨txindex, hget, hpos⟩, hnext, hothers⟩ := position_connectTransaction hstep
    obtain ⟨hplaced, hkept⟩ := ih hvtx hrest
    rw [hnext] at hplaced
    constructor
    · intro x hx
      rw [placed] at hx
      rcases List.mem_cons.mp hx with rfl | hx
      · obtain ⟨txindex', hget', hpos'⟩ := hkept _ txindex htx hget
        exact ⟨txindex', hget', hpos'.trans hpos⟩
      · exact hplaced x hx
    · intro k old hk hold
      rw [List.map_cons, List.mem_cons, not_or] at hk
      obtain ⟨txindex', hget', hpos'⟩ := hothers k old hk.1 hold
      obtain ⟨txindex'', hget'', hpos''⟩ := hkept k txindex' hk.2 hget'
      exact ⟨txindex'', hget'', hpos''.trans hpos'⟩

/-- After a successful `ConnectBlock`, the database has a record with the position of every
transaction of the block. -/
lemma positions_connectBlock {block : CBlock} {pprev : Option CBlockIndex} {r : Registry}
    (h : (connectBlock hash (env.node hash) db block pindex pprev false r).result = .ok true) :
    ∀ x ∈ placed pindex (firstTxPos block pindex) block.vtx, ∃ txindex,
      (connectBlock hash (env.node hash) db block pindex pprev false r).db[x.tx.getHash hash]? =
        some txindex ∧ txindex.pos = x.pos := by
  intro x hx
  obtain ⟨s, hconnect, hfinish⟩ := connectBlock_finish hash (env.node hash) h
  obtain ⟨hcheck, hloop⟩ := connectTransactions_eq_ok hconnect
  have hnodup : (block.vtx.map (CTransaction.getHash hash)).Nodup := by
    simp only [CBlock.checkBlock, Bool.and_eq_true, decide_eq_true_eq] at hcheck
    exact hcheck.1.1.1.2
  obtain ⟨txindex, hget, hpos⟩ :=
    (positions_foldlM (s := { nTxPos := firstTxPos block pindex }) hnodup hloop).1 x hx
  refine ⟨txindex, ?_, hpos⟩
  rw [(Overlays.union s.mapQueuedChanges db).finishConnect hfinish,
    Overlays.union s.mapQueuedChanges db, hget]

end Positions

/-! ## Where the transactions are -/

/-- The number of bytes of a block before one of its transactions. -/
def CBlock.txOffset (block : CBlock) (i : ℕ) : ℕ :=
  (block.header ++ writeCompactSize block.vtx.length ++
    (block.vtx.take i).flatMap CTransaction.serialize).length

variable {tx : CTransaction}

/-- A transaction is in the bytes of its block, after those before it. -/
lemma CBlock.serialize_of_getElem? {block : CBlock} {i : ℕ}
    (h : block.vtx[i]? = some tx) : ∃ before after,
      block.serialize = before ++ tx.serialize ++ after ∧ before.length = block.txOffset i := by
  obtain ⟨hi, rfl⟩ := List.getElem?_eq_some_iff.mp h
  refine ⟨_, (block.vtx.drop (i + 1)).flatMap CTransaction.serialize ++
    serializeString block.vchBlockSig, ?_, rfl⟩
  have hvtx : block.vtx.flatMap CTransaction.serialize =
      (block.vtx.take i).flatMap CTransaction.serialize ++ (block.vtx[i].serialize ++
        (block.vtx.drop (i + 1)).flatMap CTransaction.serialize) := by
    conv_lhs => rw [← List.take_append_drop i block.vtx, List.drop_eq_getElem_cons hi]
    rw [List.flatMap_append, List.flatMap_cons]
  have hblock : block.serialize = block.header ++ (writeCompactSize block.vtx.length ++
      block.vtx.flatMap CTransaction.serialize) ++ serializeString block.vchBlockSig := rfl
  rw [hblock, hvtx]
  simp only [List.append_assoc]

/-- The position of a transaction of a block, as `ConnectBlock` adds it up. -/
lemma getElem?_placed (pindex : CBlockIndex) (nTxPos : UInt32) {vtx : List CTransaction} {i : ℕ}
    (h : vtx[i]? = some tx) :
    (placed pindex nTxPos vtx)[i]? = some ⟨tx, ⟨pindex.nFile, pindex.nBlockPos,
      nTxPos + UInt32.ofNat ((vtx.take i).flatMap CTransaction.serialize).length⟩⟩ := by
  induction vtx generalizing nTxPos i with
  | nil => cases h
  | cons tx' vtx ih =>
    cases i with
    | zero =>
      cases h
      simp [placed]
    | succ i =>
      rw [placed, List.getElem?_cons_succ, ih _ h, List.take_succ_cons, List.flatMap_cons,
        List.length_append, UInt32.ofNat_add, CTransaction.getSerializeSize_eq, UInt32.add_assoc]

/-- The position that `ConnectBlock` starts with is the one after the count of the transactions. -/
lemma firstTxPos_eq (block : CBlock) (pindex : CBlockIndex) :
    firstTxPos block pindex = pindex.nBlockPos + UInt32.ofNat (block.txOffset 0) := by
  have hempty : ({} : CBlock).getSerializeSize - 2 * getSizeOfCompactSize 0 = 80 := by decide
  have hheader : block.header.length = 80 := by
    simp [CBlock.header, serializeInt32, serializeUInt32, serializeUInt256]
  rw [firstTxPos, CBlock.txOffset, List.take_zero, List.flatMap_nil, List.append_nil,
    List.length_append, hheader, UInt32.ofNat_add, ← getSizeOfCompactSize_eq,
    UInt32.sub_eq_add_neg, UInt32.add_assoc pindex.nBlockPos, ← UInt32.sub_eq_add_neg, hempty,
    UInt32.add_assoc]
  rfl

/-- A block whose size is an `unsigned int` and that passes `CheckBlock` is not longer than a block
may be. -/
lemma CBlock.length_serialize_le {hash : Bytes → UInt256} {env : Env} {block : CBlock}
    {fCheckPOW fCheckMerkleRoot fFullCheck : Bool} (hsize : block.serialize.length < 2 ^ 32)
    (h : block.checkBlock hash env fCheckPOW fCheckMerkleRoot fFullCheck = true) :
    block.serialize.length ≤ 1000000 := by
  have hmax : block.getSerializeSize ≤ MAX_BLOCK_SIZE := by
    simp only [checkBlock, Bool.and_eq_true, decide_eq_true_eq] at h
    exact h.1.1.1.1.1.1.1.1.2
  rw [CBlock.getSerializeSize_eq, UInt32.le_iff_toNat_le,
    UInt32.toNat_ofNat_of_lt' hsize] at hmax
  exact hmax

/-- A transaction whose bytes are at a position of a file is read from there. -/
lemma CTransaction.readFromDisk_eq_some {d : BlockFiles} {pos : CDiskTxPos}
    {before after : Bytes} (hnumber : ¬ (pos.nFile < 1 ∨ pos.nFile = 0xffffffff))
    (hopens : fOpens pos.nFile = true)
    (hfile : d.files[pos.nFile]? = some (before ++ tx.serialize ++ after))
    (hpos : before.length = pos.nTxPos.toNat) (hsize : tx.serialize.length ≤ MAX_SIZE)
    (old : CTransaction) : old.readFromDisk fOpens d pos = some tx := by
  have hopen : openBlockFile fOpens false d.files pos.nFile =
      some (before ++ tx.serialize ++ after) := by
    rw [openBlockFile, if_neg hnumber, hopens, hfile]
    rfl
  unfold readFromDisk
  rw [hopen]
  dsimp only
  rw [List.append_assoc, ← hpos, List.drop_left, consumes_unserialize hsize old after]

/-- After a block has been written and connected, the record of each of its transactions has the
position at which the transaction starts in the file, whatever is appended to the files later, and
the transaction is read from there.  The size that `WriteToDisk` writes before the block is an
`unsigned int`. -/
theorem readFromDisk_connectBlock {hash : Bytes → UInt256} {fOpens fOpens' : UInt32 → Bool}
    {fTestNet : Bool} {block : CBlock} {d d₁ d₂ : BlockFiles} {nFile nBlockPos : UInt32}
    (hwrite : block.writeToDisk fOpens fTestNet d = (d₁, some (nFile, nBlockPos)))
    (hsize : block.serialize.length < 2 ^ 32) {env : Env} {db : TxDB} {pindex : CBlockIndex}
    {pprev : Option CBlockIndex} {r : Registry} (hfile : pindex.nFile = nFile)
    (hpos : pindex.nBlockPos = nBlockPos)
    (hconnect : (connectBlock hash (env.node hash) db block pindex pprev false r).result = .ok true)
    (hlater : d₁.Extends d₂) (hopens : fOpens' nFile = true) {i : ℕ} {tx : CTransaction}
    (htx : block.vtx[i]? = some tx) :
    ∃ txindex, (connectBlock hash (env.node hash) db block pindex pprev false
        r).db[tx.getHash hash]? = some txindex ∧
      txindex.pos.nFile = nFile ∧ txindex.pos.nBlockPos = nBlockPos ∧
      txindex.pos.nTxPos.toNat = nBlockPos.toNat + block.txOffset i ∧
      (∃ before after, d₂.files[nFile]? = some (before ++ tx.serialize ++ after) ∧
        before.length = txindex.pos.nTxPos.toNat) ∧
      ∀ old : CTransaction, old.readFromDisk fOpens' d₂ txindex.pos = some tx := by
  obtain ⟨start, hstart, hstartPos, hlimit, hnumber⟩ := CBlock.writeToDisk_eq_some hwrite
  obtain ⟨more, hmore⟩ := hlater nFile _ hstart
  obtain ⟨before, after, hblock, hbefore⟩ := CBlock.serialize_of_getElem? htx
  -- the block is short, so no position wraps around
  obtain ⟨s, hloop, -⟩ := connectBlock_finish hash (env.node hash) hconnect
  have hshort := CBlock.length_serialize_le hsize (connectTransactions_eq_ok hloop).1
  have hparts : block.serialize.length = block.txOffset i + tx.serialize.length + after.length := by
    rw [hblock, List.length_append, List.length_append, hbefore]
  have hmax : MAX_SIZE = 0x02000000 := rfl
  -- the position of the record
  have hplaced := getElem?_placed pindex (firstTxPos block pindex) htx
  obtain ⟨txindex, hget, htxpos⟩ := positions_connectBlock hconnect _
    (List.mem_of_getElem? hplaced)
  have hoffset : block.txOffset i =
      block.txOffset 0 + ((block.vtx.take i).flatMap CTransaction.serialize).length := by
    simp [CBlock.txOffset, Nat.add_assoc]
  have hTxPos : txindex.pos.nTxPos.toNat = nBlockPos.toNat + block.txOffset i := by
    rw [htxpos, firstTxPos_eq, hpos]
    dsimp only
    rw [UInt32.add_assoc, ← UInt32.ofNat_add, ← hoffset, UInt32.toNat_add,
      UInt32.toNat_ofNat_of_lt' (by rw [UInt32.size]; omega)]
    exact Nat.mod_eq_of_lt (by omega)
  have hbytes : d₂.files[nFile]? = some ((start ++ before) ++ tx.serialize ++ (after ++ more)) := by
    rw [hmore, hblock]
    simp only [List.append_assoc]
  have hlength : (start ++ before).length = txindex.pos.nTxPos.toNat := by
    rw [List.length_append, hTxPos, hstartPos, hbefore]
  have hposFile : txindex.pos.nFile = nFile := by
    rw [htxpos]
    exact hfile
  refine ⟨txindex, hget, hposFile, ?_, hTxPos, ⟨_, _, hbytes, hlength⟩, fun old => ?_⟩
  · rw [htxpos]
    exact hpos
  · rw [← hposFile] at hnumber hopens hbytes
    exact CTransaction.readFromDisk_eq_some hnumber hopens hbytes hlength (by omega) old

/-- The first block, written to the first file, and then connected. -/
theorem readFromDisk_firstCoinBase : ∃ txindex,
    (connectBlock sampleHash (sampleEnv.node sampleHash) ∅ firstBlock
      { firstIndex with nBlockPos := 8 } (some (genesisLink false).pindex) false
      {}).db[firstCoinBase.getHash sampleHash]? = some txindex ∧
    txindex.pos.nFile = 1 ∧ txindex.pos.nBlockPos = 8 ∧
    txindex.pos.nTxPos.toNat = (8 : UInt32).toNat + firstBlock.txOffset 0 ∧
    (∃ before after,
      (firstBlock.writeToDisk (fun _ => true) false {}).1.files[(1 : UInt32)]? =
        some (before ++ firstCoinBase.serialize ++ after) ∧
      before.length = txindex.pos.nTxPos.toNat) ∧
    ∀ old : CTransaction, old.readFromDisk (fun _ => true)
      (firstBlock.writeToDisk (fun _ => true) false {}).1 txindex.pos = some firstCoinBase :=
  readFromDisk_connectBlock
    (Prod.ext rfl (by decide +kernel) :
      firstBlock.writeToDisk (fun _ => true) false {} =
        ((firstBlock.writeToDisk (fun _ => true) false {}).1, some (1, 8)))
    (by decide +kernel) rfl rfl (by decide +kernel) (.refl _) rfl rfl

end HyperStake
