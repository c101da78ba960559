import HyperStake.Chain.MemPool
import HyperStake.Library.GroupedIndex
import HyperStake.Library.WorkQueue

/-!
# Orphan transactions

A transaction that claims outputs of transactions which the node does not have is stored, as the
message that it came in, until they arrive.  An index has the stored messages by the transactions
that they claim outputs of.  When a transaction has been accepted, those that claim its outputs are
tried again, and those that claim theirs.

The index is exact in every run (`OrphanRun.kept`).  It is accessed with `operator[]`, which leaves an
empty entry behind for an accepted transaction whose outputs no stored transaction claims, and
nothing takes that out again; apart from that no entry is empty (`OrphanRun.orphansBooked`).
-/

namespace HyperStake

open WorkQueue GroupedIndex

/-- The largest number of stored transactions. -/
def MAX_ORPHAN_TRANSACTIONS : UInt32 := MAX_BLOCK_SIZE / 100

/-- Read a transaction from the stream of a message. -/
def readTx (vMsg : Bytes) : Except Fault CTransaction :=
  match CTransaction.unserialize {} vMsg with
  | (tx, .ok _) => .ok tx
  | (_, .error e) => .error e

/-- The hashes of the transactions that the transaction of a message claims outputs of. -/
def parentsOf (vMsg : Bytes) : List UInt256 :=
  match readTx vMsg with
  | .ok tx => tx.vin.map fun txin => txin.prevout.hash
  | .error _ => []

/-- The stored messages by the hashes of their transactions, and for every hash those that claim
outputs of the transaction with it. A pointer to a message is the message. -/
structure OrphanTxs where
  mapOrphanTransactions : Std.ExtTreeMap UInt256 Bytes := ∅
  mapOrphanTransactionsByPrev : Std.ExtTreeMap UInt256 (Std.ExtTreeMap UInt256 Bytes) := ∅

namespace OrphanTxs

def addOrphanTx (hash : Bytes → UInt256) (vMsg : Bytes) (s : OrphanTxs) :
    OrphanTxs × Except Fault Bool :=
  match readTx vMsg with
  | .error e => (s, .error e)
  | .ok tx =>
    if s.mapOrphanTransactions.contains (tx.getHash hash) then (s, .ok false)
    -- ignore big transactions
    else if vMsg.length > 5000 then (s, .ok false)
    else
      ({ mapOrphanTransactions := s.mapOrphanTransactions.insert (tx.getHash hash) vMsg
         mapOrphanTransactionsByPrev := (tx.vin.map fun txin => txin.prevout.hash).foldl
          (addTo (tx.getHash hash) vMsg) s.mapOrphanTransactionsByPrev }, .ok true)

/-- `EraseOrphanTx`: the stored transactions, and whether the message could not be read. -/
def eraseOrphanTx (s : OrphanTxs) (h : UInt256) : OrphanTxs × Option Fault :=
  match s.mapOrphanTransactions[h]? with
  | none => (s, none)
  | some vMsg =>
    match readTx vMsg with
    | .error e => (s, some e)
    | .ok tx =>
      ({ mapOrphanTransactions := s.mapOrphanTransactions.erase h
         mapOrphanTransactionsByPrev := (tx.vin.map fun txin => txin.prevout.hash).foldl
          (eraseFrom h) s.mapOrphanTransactionsByPrev }, none)

/-- The first stored transaction from a hash on, or else the first one. -/
def lowerBound (s : OrphanTxs) (randomhash : UInt256) : Option UInt256 :=
  (s.mapOrphanTransactions.keys.find? fun h => (compare h randomhash).isGE).or
    s.mapOrphanTransactions.keys.head?

/-- The loop of `LimitOrphanTxSize`, for a number of turns; `randHash` is the random hash of a turn.
-/
def limitLoop (randHash : ℕ → UInt256) (nMaxOrphans : UInt32) :
    ℕ → OrphanTxs × UInt32 → (OrphanTxs × UInt32) × Option Fault
  | 0, r => (r, none)
  | n + 1, (s, nEvicted) =>
    if s.mapOrphanTransactions.size > nMaxOrphans.toNat then
      match s.lowerBound (randHash n) with
      | none => ((s, nEvicted), some .undefined)
      | some h =>
        match s.eraseOrphanTx h with
        | (s, some e) => ((s, nEvicted), some e)
        | (s, none) => limitLoop randHash nMaxOrphans n (s, nEvicted + 1)
    else ((s, nEvicted), none)

/-- `LimitOrphanTxSize`: the stored transactions and the number of those that are evicted. A turn
evicts one, so there are no more turns than stored transactions. -/
def limitOrphanTxSize (randHash : ℕ → UInt256) (nMaxOrphans : UInt32) (s : OrphanTxs) :
    (OrphanTxs × UInt32) × Option Fault :=
  limitLoop randHash nMaxOrphans s.mapOrphanTransactions.size (s, 0)

end OrphanTxs

/-! ## The message -/

/-- What `accept` sees of the node while a message is processed. -/
structure TxNode where
  env : Env
  rules : PoolRules
  db : TxDB
  pindexBest : CBlockIndex
  proposalManager : CVoteProposalManager

/-- `AcceptToMemoryPool`, with a check of the inputs. -/
def TxNode.acceptToMemoryPool (hash : Bytes → UInt256) (node : TxNode) (tx : CTransaction)
    (pool : CTxMemPool) : CTxMemPool.AcceptOutcome :=
  pool.accept hash node.env node.rules node.db node.pindexBest node.proposalManager tx true

/-- The stored transactions, the pool and the stored transactions to be erased, while those that
wait for an accepted one are tried again. -/
structure TxWork where
  orphans : OrphanTxs
  pool : CTxMemPool
  vEraseQueue : List UInt256

/-- A stored transaction is tried again; the accepted ones are appended to the queue of work. -/
def tryOrphan (hash : Bytes → UInt256) (node : TxNode) (s : TxWork × List UInt256)
    (entry : UInt256 × Bytes) : (TxWork × List UInt256) × Option Fault :=
  match readTx entry.2 with
  | .error e => (s, some e)
  | .ok tx =>
    let r := node.acceptToMemoryPool hash tx s.1.pool
    let w := { s.1 with pool := r.pool }
    let erased := { w with vEraseQueue := w.vEraseQueue ++ [tx.getHash hash] }
    match r.result with
    | .error e => ((w, s.2), some e)
    | .ok true => ((erased, s.2 ++ [tx.getHash hash]), none)
    -- invalid orphan
    | .ok false => if r.fMissingInputs then ((w, s.2), none) else ((erased, s.2), none)

/-- One turn of the loop over the queue of work, on the hash of an accepted transaction. -/
def resolveTurn (hash : Bytes → UInt256) (node : TxNode) : Turn TxWork UInt256 Fault :=
  fun w hashPrev =>
    let byPrev := touch w.orphans.mapOrphanTransactionsByPrev hashPrev
    let w := { w with orphans := { w.orphans with mapOrphanTransactionsByPrev := byPrev } }
    match foldThrow (tryOrphan hash node) (byPrev[hashPrev]?.getD ∅).toList (w, []) with
    | ((w, accepted), e) => (w, accepted, e)

/-- What is left of a message: the stored transactions, the pool, and whether there was an exception.
-/
structure TxOutcome where
  orphans : OrphanTxs
  pool : CTxMemPool
  fault : Option Fault

/-- `ProcessMessage`, of a transaction. No more than the stored transactions and the one of the
message are accepted, so there are no more turns than these. -/
def processTx (hash : Bytes → UInt256) (node : TxNode) (randHash : ℕ → UInt256) (vMsg : Bytes)
    (pool : CTxMemPool) (s : OrphanTxs) : TxOutcome :=
  match readTx vMsg with
  | .error e => ⟨s, pool, some e⟩
  | .ok tx =>
    let r := node.acceptToMemoryPool hash tx pool
    match r.result with
    | .error e => ⟨s, r.pool, some e⟩
    | .ok true =>
      -- recursively process any orphan transactions that depended on this one
      match run (resolveTurn hash node) (s.mapOrphanTransactions.size + 1) [tx.getHash hash]
        ⟨s, r.pool, [tx.getHash hash]⟩ with
      | (w, _, some e) => ⟨w.orphans, w.pool, some e⟩
      | (w, _, none) =>
        let erased := foldThrow OrphanTxs.eraseOrphanTx w.vEraseQueue w.orphans
        ⟨erased.1, w.pool, erased.2⟩
    | .ok false =>
      if r.fMissingInputs then
        -- do not allow mapOrphanTransactions to grow unbounded
        let limited := OrphanTxs.limitOrphanTxSize randHash MAX_ORPHAN_TRANSACTIONS
          (s.addOrphanTx hash vMsg).1
        ⟨limited.1.1, r.pool, limited.2⟩
      else ⟨s, r.pool, none⟩

/-! ## What the operations keep -/

namespace OrphanTxs

variable {hash : Bytes → UInt256} {s : OrphanTxs}

/-- The stored messages are readable and under the hashes of their transactions, and the index has
them by what these claim. -/
structure Kept (hash : Bytes → UInt256) (s : OrphanTxs) : Prop where
  getHash : ∀ (h : UInt256) (vMsg : Bytes), s.mapOrphanTransactions[h]? = some vMsg →
    ∃ tx, readTx vMsg = .ok tx ∧ tx.getHash hash = h
  grouped : Grouped parentsOf s.mapOrphanTransactions s.mapOrphanTransactionsByPrev

lemma kept_empty : Kept hash {} := ⟨by simp, .empty⟩

/-- Everything that `addOrphanTx` does. -/
lemma addOrphanTx_cases (hash : Bytes → UInt256) (vMsg : Bytes) (s : OrphanTxs) :
    (s.addOrphanTx hash vMsg).1 = s ∨
    ∃ tx, readTx vMsg = .ok tx ∧ tx.getHash hash ∉ s.mapOrphanTransactions ∧
      (s.addOrphanTx hash vMsg).1 =
        { mapOrphanTransactions := s.mapOrphanTransactions.insert (tx.getHash hash) vMsg
          mapOrphanTransactionsByPrev := (parentsOf vMsg).foldl (addTo (tx.getHash hash) vMsg)
            s.mapOrphanTransactionsByPrev } := by
  unfold addOrphanTx parentsOf
  cases hread : readTx vMsg with
  | error e => exact Or.inl rfl
  | ok tx =>
    dsimp only
    split_ifs with hcontains hbig
    · exact Or.inl rfl
    · exact Or.inl rfl
    · refine Or.inr ⟨tx, rfl, ?_, rfl⟩
      rwa [Std.ExtTreeMap.contains_iff_mem] at hcontains

/-- Everything that `eraseOrphanTx` does, if the stored messages are readable. -/
lemma eraseOrphanTx_cases (hk : Kept hash s) (h : UInt256) :
    s.mapOrphanTransactions[h]? = none ∧ s.eraseOrphanTx h = (s, none) ∨
    ∃ vMsg, s.mapOrphanTransactions[h]? = some vMsg ∧
      s.eraseOrphanTx h =
        ({ mapOrphanTransactions := s.mapOrphanTransactions.erase h
           mapOrphanTransactionsByPrev := (parentsOf vMsg).foldl (eraseFrom h)
            s.mapOrphanTransactionsByPrev }, none) := by
  unfold eraseOrphanTx parentsOf
  cases hget : s.mapOrphanTransactions[h]? with
  | none => exact Or.inl ⟨rfl, rfl⟩
  | some vMsg =>
    obtain ⟨tx, hread, -⟩ := hk.getHash h vMsg hget
    refine Or.inr ⟨vMsg, rfl, ?_⟩
    simp only [hread]

namespace Kept

lemma addOrphanTx (hk : Kept hash s) (vMsg : Bytes) : Kept hash (s.addOrphanTx hash vMsg).1 := by
  rcases addOrphanTx_cases hash vMsg s with hsame | ⟨tx, hread, hnew, hadd⟩
  · rw [hsame]
    exact hk
  · rw [hadd]
    refine ⟨fun h vMsg' hget => ?_, hk.grouped.insert hnew vMsg⟩
    rw [MapLoop.getElem?_insert_eq] at hget
    split_ifs at hget with heq
    · cases hget
      exact ⟨tx, hread, heq⟩
    · exact hk.getHash h vMsg' hget

lemma eraseOrphanTx (hk : Kept hash s) (h : UInt256) : Kept hash (s.eraseOrphanTx h).1 := by
  rcases eraseOrphanTx_cases hk h with ⟨-, hsame⟩ | ⟨vMsg, hget, herase⟩
  · rw [hsame]
    exact hk
  · rw [herase]
    refine ⟨fun h' vMsg' hget' => ?_, hk.grouped.erase hget⟩
    rw [Std.ExtTreeMap.getElem?_erase] at hget'
    split_ifs at hget'
    exact hk.getHash h' vMsg' hget'

lemma touch (hk : Kept hash s) (h : UInt256) :
    Kept hash { s with mapOrphanTransactionsByPrev :=
      GroupedIndex.touch s.mapOrphanTransactionsByPrev h } :=
  ⟨hk.getHash, hk.grouped.touch h⟩

end Kept

/-- Without an empty entry in the index, there is none after a transaction has been added or erased.
-/
lemma noneEmpty_addOrphanTx (h : NoneEmpty s.mapOrphanTransactionsByPrev) (vMsg : Bytes) :
    NoneEmpty (s.addOrphanTx hash vMsg).1.mapOrphanTransactionsByPrev := by
  rcases addOrphanTx_cases hash vMsg s with hsame | ⟨tx, -, -, hadd⟩
  · rw [hsame]
    exact h
  · rw [hadd]
    exact h.foldl (fun _ s h => h.addTo _ _ s) _

lemma noneEmpty_eraseOrphanTx (hk : Kept hash s) (h : NoneEmpty s.mapOrphanTransactionsByPrev)
    (k : UInt256) : NoneEmpty (s.eraseOrphanTx k).1.mapOrphanTransactionsByPrev := by
  rcases eraseOrphanTx_cases hk k with ⟨-, hsame⟩ | ⟨vMsg, -, herase⟩
  · rw [hsame]
    exact h
  · rw [herase]
    exact h.foldl (fun _ s h => h.eraseFrom _ s) _

/-- The transaction that is evicted is stored. -/
lemma lowerBound_mem {randomhash h : UInt256} (hfound : s.lowerBound randomhash = some h) :
    h ∈ s.mapOrphanTransactions := by
  rw [← Std.ExtTreeMap.mem_keys]
  rcases Option.or_eq_some_iff.mp hfound with hfirst | ⟨-, hhead⟩
  · exact List.mem_of_find?_eq_some hfirst
  · exact List.mem_of_mem_head? hhead

lemma exists_lowerBound (randomhash : UInt256) (hpos : 0 < s.mapOrphanTransactions.size) :
    ∃ h, s.lowerBound randomhash = some h := by
  have hkeys : s.mapOrphanTransactions.keys ≠ [] := by
    intro hnil
    have hlength := Std.ExtTreeMap.length_keys (t := s.mapOrphanTransactions)
    rw [hnil, List.length_nil] at hlength
    omega
  obtain ⟨h, hhead⟩ := Option.isSome_iff_exists.mp (List.isSome_head?.mpr hkeys)
  unfold lowerBound
  cases hfind : s.mapOrphanTransactions.keys.find? fun h => (compare h randomhash).isGE with
  | none => exact ⟨h, by rw [Option.none_or, hhead]⟩
  | some h' => exact ⟨h', rfl⟩

/-- Erasing a stored transaction leaves one less. -/
lemma size_eraseOrphanTx (hk : Kept hash s) {h : UInt256} (hmem : h ∈ s.mapOrphanTransactions) :
    (s.eraseOrphanTx h).2 = none ∧
      (s.eraseOrphanTx h).1.mapOrphanTransactions.size = s.mapOrphanTransactions.size - 1 := by
  rcases eraseOrphanTx_cases hk h with ⟨hnone, -⟩ | ⟨vMsg, -, herase⟩
  · rw [Std.ExtTreeMap.mem_iff_isSome_getElem?, hnone] at hmem
    cases hmem
  · rw [herase]
    exact ⟨rfl, by rw [Std.ExtTreeMap.size_erase, if_pos (Std.ExtTreeMap.contains_iff_mem.mpr hmem)]⟩

variable (motive : OrphanTxs → Prop)

/-- The loop of `LimitOrphanTxSize` keeps what a turn keeps, and it ends with few enough stored
transactions after as many turns as there are. -/
lemma limitLoop_spec (randHash : ℕ → UInt256) (nMaxOrphans : UInt32)
    (hstep : ∀ s h, Kept hash s → motive s → motive (s.eraseOrphanTx h).1) (hk : Kept hash s)
    (hs : motive s) {n : ℕ} (hn : s.mapOrphanTransactions.size ≤ n) (nEvicted : UInt32) :
    (limitLoop randHash nMaxOrphans n (s, nEvicted)).2 = none ∧
      Kept hash (limitLoop randHash nMaxOrphans n (s, nEvicted)).1.1 ∧
      motive (limitLoop randHash nMaxOrphans n (s, nEvicted)).1.1 ∧
      (limitLoop randHash nMaxOrphans n (s, nEvicted)).1.1.mapOrphanTransactions.size ≤
        nMaxOrphans.toNat := by
  induction n generalizing s nEvicted with
  | zero => exact ⟨rfl, hk, hs, hn.trans (Nat.zero_le _)⟩
  | succ n ih =>
    rw [limitLoop]
    by_cases hmany : s.mapOrphanTransactions.size > nMaxOrphans.toNat
    · rw [if_pos hmany]
      obtain ⟨h, hfound⟩ := exists_lowerBound (s := s) (randHash n) (by omega)
      obtain ⟨hread, hsize⟩ := size_eraseOrphanTx hk (lowerBound_mem hfound)
      have hkept := hk.eraseOrphanTx h
      have hnext := hstep s h hk hs
      rw [hfound]
      dsimp only
      rcases herase : s.eraseOrphanTx h with ⟨s', e⟩
      rw [herase] at hread hsize hkept hnext
      cases hread
      dsimp only at hsize
      have hle : s'.mapOrphanTransactions.size ≤ n := by omega
      exact ih hkept hnext hle _
    · rw [if_neg hmany]
      exact ⟨rfl, hk, hs, by dsimp only; omega⟩

/-- The loop of `EraseOrphanTx` over a queue keeps what a turn keeps. -/
lemma kept_foldThrow_eraseOrphanTx
    (hstep : ∀ s h, Kept hash s → motive s → motive (s.eraseOrphanTx h).1) (hk : Kept hash s)
    (hs : motive s) (hashes : List UInt256) :
    Kept hash (foldThrow eraseOrphanTx hashes s).1 ∧ motive (foldThrow eraseOrphanTx hashes s).1 :=
  foldThrow_invariant (fun s => Kept hash s ∧ motive s)
    (fun s h _ hs => ⟨hs.1.eraseOrphanTx h, hstep s h hs.1 hs.2⟩) ⟨hk, hs⟩

end OrphanTxs

/-! ## Trying stored transactions again -/

section Resolve

variable {hash : Bytes → UInt256} {node : TxNode}

/-- Trying stored transactions again changes none of them. -/
lemma orphans_tryOrphan (s : TxWork × List UInt256) (entry : UInt256 × Bytes) :
    (tryOrphan hash node s entry).1.1.orphans = s.1.orphans := by
  unfold tryOrphan
  cases readTx entry.2 with
  | error e => rfl
  | ok tx =>
    dsimp only
    split
    · rfl
    · rfl
    · split <;> rfl

/-- One turn of the queue only accesses the index. -/
lemma orphans_resolveTurn (w : TxWork) (hashPrev : UInt256) :
    (resolveTurn hash node w hashPrev).1.orphans =
      { w.orphans with
        mapOrphanTransactionsByPrev := touch w.orphans.mapOrphanTransactionsByPrev hashPrev } := by
  unfold resolveTurn
  dsimp only
  set accessed : OrphanTxs := { w.orphans with
    mapOrphanTransactionsByPrev := touch w.orphans.mapOrphanTransactionsByPrev hashPrev }
  exact foldThrow_invariant (fun s : TxWork × List UInt256 => s.1.orphans = accessed)
    (fun s entry _ hs => (orphans_tryOrphan s entry).trans hs) rfl

/-- For every transaction that a message makes the node accept, a stored transaction claims an output
of it: the entry of the index that is accessed is there. -/
def FindsStored (hash : Bytes → UInt256) (node : TxNode) (vMsg : Bytes) (pool : CTxMemPool)
    (s : OrphanTxs) : Prop :=
  ∀ tx, readTx vMsg = .ok tx → (node.acceptToMemoryPool hash tx pool).result = .ok true →
    Along (resolveTurn hash node)
      (fun w hashPrev => hashPrev ∈ w.orphans.mapOrphanTransactionsByPrev)
      (s.mapOrphanTransactions.size + 1) [tx.getHash hash]
      ⟨s, (node.acceptToMemoryPool hash tx pool).pool, [tx.getHash hash]⟩

/-- What a message keeps: what the erasing and the adding of a transaction keep, and an access to
the entries that it looks up. -/
lemma processTx_keeps {s : OrphanTxs} (motive : OrphanTxs → Prop) {P : TxWork → UInt256 → Prop}
    (herase : ∀ s h, s.Kept hash → motive s → motive (s.eraseOrphanTx h).1)
    (hadd : ∀ s vMsg, motive s → motive (s.addOrphanTx hash vMsg).1)
    (htouch : ∀ (w : TxWork) hashPrev, motive w.orphans → P w hashPrev →
      motive { w.orphans with
        mapOrphanTransactionsByPrev := touch w.orphans.mapOrphanTransactionsByPrev hashPrev })
    (hk : s.Kept hash) (hs : motive s) {vMsg : Bytes} {pool : CTxMemPool}
    (halong : ∀ tx, readTx vMsg = .ok tx →
      (node.acceptToMemoryPool hash tx pool).result = .ok true →
      Along (resolveTurn hash node) P (s.mapOrphanTransactions.size + 1) [tx.getHash hash]
        ⟨s, (node.acceptToMemoryPool hash tx pool).pool, [tx.getHash hash]⟩)
    (randHash : ℕ → UInt256) :
    (processTx hash node randHash vMsg pool s).orphans.Kept hash ∧
      motive (processTx hash node randHash vMsg pool s).orphans := by
  unfold processTx
  cases hread : readTx vMsg with
  | error e => exact ⟨hk, hs⟩
  | ok tx =>
    dsimp only
    split
    · exact ⟨hk, hs⟩
    · rename_i haccepted
      have hturn : ∀ (w : TxWork) (hashPrev : UInt256),
          w.orphans.Kept hash ∧ motive w.orphans → P w hashPrev →
            (resolveTurn hash node w hashPrev).1.orphans.Kept hash ∧
              motive (resolveTurn hash node w hashPrev).1.orphans := by
        intro w hashPrev hw hP
        rw [orphans_resolveTurn]
        exact ⟨hw.1.touch hashPrev, htouch w hashPrev hw.2 hP⟩
      have hrun := run_invariant (fun w : TxWork => w.orphans.Kept hash ∧ motive w.orphans) hturn
        ⟨hk, hs⟩ (halong tx hread haccepted)
      rcases hresult : run (resolveTurn hash node) (s.mapOrphanTransactions.size + 1)
        [tx.getHash hash] ⟨s, (node.acceptToMemoryPool hash tx pool).pool, [tx.getHash hash]⟩ with
        ⟨w, left, _ | e⟩
      · rw [hresult] at hrun
        exact OrphanTxs.kept_foldThrow_eraseOrphanTx motive herase hrun.1 hrun.2 _
      · rw [hresult] at hrun
        exact hrun
    · split
      · obtain ⟨-, hkept, hmotive, -⟩ := OrphanTxs.limitLoop_spec motive randHash
          MAX_ORPHAN_TRANSACTIONS herase (hk.addOrphanTx vMsg) (hadd s vMsg hs) le_rfl 0
        exact ⟨hkept, hmotive⟩
      · exact ⟨hk, hs⟩

end Resolve

/-! ## Runs -/

/-- The stored transactions that messages and calls of the operations lead to; the node and its pool
may be anything whenever a message comes. -/
inductive OrphanRun (hash : Bytes → UInt256)
    (admits : TxNode → Bytes → CTxMemPool → OrphanTxs → Prop) : OrphanTxs → Prop
  | start : OrphanRun hash admits {}
  | message {s : OrphanTxs} (node : TxNode) (randHash : ℕ → UInt256) (vMsg : Bytes)
      (pool : CTxMemPool) :
      admits node vMsg pool s → OrphanRun hash admits s →
      OrphanRun hash admits (processTx hash node randHash vMsg pool s).orphans
  | addOrphanTx {s : OrphanTxs} (vMsg : Bytes) :
      OrphanRun hash admits s → OrphanRun hash admits (s.addOrphanTx hash vMsg).1
  | eraseOrphanTx {s : OrphanTxs} (h : UInt256) :
      OrphanRun hash admits s → OrphanRun hash admits (s.eraseOrphanTx h).1
  | limitOrphanTxSize {s : OrphanTxs} (randHash : ℕ → UInt256) (nMaxOrphans : UInt32) :
      OrphanRun hash admits s →
      OrphanRun hash admits (s.limitOrphanTxSize randHash nMaxOrphans).1.1

/-- A stored transaction claims an output of the transaction with a hash. -/
def OrphanTxs.Claims (s : OrphanTxs) (h p : UInt256) : Prop :=
  ∃ vMsg tx txin, s.mapOrphanTransactions[h]? = some vMsg ∧ readTx vMsg = .ok tx ∧
    txin ∈ tx.vin ∧ txin.prevout.hash = p

/-- The index has the stored transactions by what they claim, and nothing else, no entry of it is
empty, and `LimitOrphanTxSize` limits the number of the stored transactions. -/
structure OrphanTxs.Booked (s : OrphanTxs) : Prop where
  mem_iff : ∀ p h : UInt256,
    (∃ group, s.mapOrphanTransactionsByPrev[p]? = some group ∧ h ∈ group) ↔ s.Claims h p
  message : ∀ (p h : UInt256) (group : Std.ExtTreeMap UInt256 Bytes) (vMsg : Bytes),
    s.mapOrphanTransactionsByPrev[p]? = some group → group[h]? = some vMsg →
      s.mapOrphanTransactions[h]? = some vMsg
  none_empty : ∀ (p : UInt256) (group : Std.ExtTreeMap UInt256 Bytes),
    s.mapOrphanTransactionsByPrev[p]? = some group → group.isEmpty = false
  bounded : ∀ p ∈ s.mapOrphanTransactionsByPrev, ∃ h, s.Claims h p
  limited : ∀ randHash nMaxOrphans,
    (s.limitOrphanTxSize randHash nMaxOrphans).1.1.mapOrphanTransactions.size ≤
      nMaxOrphans.toNat

namespace OrphanTxs

variable {hash : Bytes → UInt256} {s : OrphanTxs}

lemma mem_parentsOf {vMsg : Bytes} {tx : CTransaction} (hread : readTx vMsg = .ok tx)
    {p : UInt256} : p ∈ parentsOf vMsg ↔ ∃ txin ∈ tx.vin, txin.prevout.hash = p := by
  unfold parentsOf
  rw [hread]
  exact List.mem_map

/-- The records of the index are those of the stored transactions. -/
lemma lookup_iff (hk : Kept hash s) {p h : UInt256} {vMsg : Bytes} :
    lookup s.mapOrphanTransactionsByPrev p h = some vMsg ↔
      s.mapOrphanTransactions[h]? = some vMsg ∧
        ∃ tx txin, readTx vMsg = .ok tx ∧ txin ∈ tx.vin ∧ txin.prevout.hash = p := by
  rw [hk.grouped p h vMsg]
  refine and_congr_right fun hget => ?_
  obtain ⟨tx, hread, -⟩ := hk.getHash h vMsg hget
  rw [mem_parentsOf hread]
  constructor
  · rintro ⟨txin, hmem, hp⟩
    exact ⟨tx, txin, hread, hmem, hp⟩
  · rintro ⟨tx', txin, hread', hmem, hp⟩
    rw [hread] at hread'
    cases hread'
    exact ⟨txin, hmem, hp⟩

lemma mem_group_iff (hk : Kept hash s) (p h : UInt256) :
    (∃ group, s.mapOrphanTransactionsByPrev[p]? = some group ∧ h ∈ group) ↔ s.Claims h p := by
  constructor
  · rintro ⟨group, hgroup, hmem⟩
    obtain ⟨vMsg, hget⟩ := MapLoop.mem_iff.mp hmem
    have hlookup : lookup s.mapOrphanTransactionsByPrev p h = some vMsg := by
      rw [lookup, hgroup, Option.bind_some, hget]
    obtain ⟨hstored, tx, txin, hread, hin, hp⟩ := (lookup_iff hk).mp hlookup
    exact ⟨vMsg, tx, txin, hstored, hread, hin, hp⟩
  · rintro ⟨vMsg, tx, txin, hstored, hread, hin, hp⟩
    have hlookup := (lookup_iff hk).mpr ⟨hstored, tx, txin, hread, hin, hp⟩
    obtain ⟨group, hgroup, hget⟩ := Option.bind_eq_some_iff.mp hlookup
    exact ⟨group, hgroup, MapLoop.mem_iff.mpr ⟨_, hget⟩⟩

/-- What the runs keep says that the books are in order. -/
lemma Kept.toBooked (hk : Kept hash s) (hempty : NoneEmpty s.mapOrphanTransactionsByPrev) :
    s.Booked := by
  refine ⟨mem_group_iff hk, ?_, hempty, ?_, ?_⟩
  · intro p h group vMsg hgroup hget
    refine ((hk.grouped p h vMsg).mp ?_).1
    rw [lookup, hgroup, Option.bind_some, hget]
  · intro p hp
    obtain ⟨group, hgroup⟩ := MapLoop.mem_iff.mp hp
    have hne := hempty p group hgroup
    have hkeys : group.keys ≠ [] := by
      intro hnil
      rw [← List.isEmpty_iff, Std.ExtTreeMap.isEmpty_keys, hne] at hnil
      cases hnil
    obtain ⟨h, hmem⟩ := List.exists_mem_of_ne_nil _ hkeys
    exact ⟨h, (mem_group_iff hk p h).mp ⟨group, hgroup, Std.ExtTreeMap.mem_keys.mp hmem⟩⟩
  · intro randHash nMaxOrphans
    exact (limitLoop_spec (fun _ => True) randHash nMaxOrphans (fun _ _ _ _ => trivial) hk trivial
      le_rfl 0).2.2.2

end OrphanTxs

/-- In every run the stored messages are readable, and the index is exact. -/
lemma OrphanRun.kept {hash : Bytes → UInt256}
    {admits : TxNode → Bytes → CTxMemPool → OrphanTxs → Prop} {s : OrphanTxs}
    (hrun : OrphanRun hash admits s) : s.Kept hash := by
  induction hrun with
  | start => exact OrphanTxs.kept_empty
  | message node randHash vMsg pool _ _ ih =>
    exact (processTx_keeps (fun _ => True) (fun _ _ _ _ => trivial) (fun _ _ _ => trivial)
      (fun _ _ _ _ => trivial) ih trivial
      (fun _ _ _ => along_of_forall (P := fun _ _ => True) (fun _ _ => trivial) _ _ _)
      randHash).1
  | addOrphanTx vMsg _ ih => exact ih.addOrphanTx vMsg
  | eraseOrphanTx h _ ih => exact ih.eraseOrphanTx h
  | limitOrphanTxSize randHash nMaxOrphans _ ih =>
    exact (OrphanTxs.limitLoop_spec (fun _ => True) randHash nMaxOrphans (fun _ _ _ _ => trivial)
      ih trivial le_rfl 0).2.1

/-- In every run in which each message only looks up entries that are there, no entry is empty. -/
lemma OrphanRun.noneEmpty {hash : Bytes → UInt256} {s : OrphanTxs}
    (hrun : OrphanRun hash (FindsStored hash) s) :
    NoneEmpty s.mapOrphanTransactionsByPrev := by
  induction hrun with
  | start => exact .empty
  | message node randHash vMsg pool hfinds hrun ih =>
    refine (processTx_keeps (fun s => NoneEmpty s.mapOrphanTransactionsByPrev)
      (fun s h hk hs => OrphanTxs.noneEmpty_eraseOrphanTx hk hs h)
      (fun s vMsg hs => OrphanTxs.noneEmpty_addOrphanTx hs vMsg) ?_ hrun.kept ih hfinds randHash).2
    intro w hashPrev hw hmem
    rw [touch_of_mem hmem]
    exact hw
  | addOrphanTx vMsg _ ih => exact OrphanTxs.noneEmpty_addOrphanTx ih vMsg
  | eraseOrphanTx h hrun ih => exact OrphanTxs.noneEmpty_eraseOrphanTx hrun.kept ih h
  | limitOrphanTxSize randHash nMaxOrphans hrun ih =>
    exact (OrphanTxs.limitLoop_spec (fun s => NoneEmpty s.mapOrphanTransactionsByPrev) randHash
      nMaxOrphans (fun s h hk hs => OrphanTxs.noneEmpty_eraseOrphanTx hk hs h) hrun.kept ih le_rfl
      0).2.2.1

/-- In every run in which, for every transaction that a message makes the node accept, a stored
transaction claims an output of it, the index has exactly the stored transactions and no empty
entry. -/
theorem OrphanRun.orphansBooked {hash : Bytes → UInt256} {s : OrphanTxs}
    (hrun : OrphanRun hash (FindsStored hash) s) : s.Booked :=
  hrun.kept.toBooked hrun.noneEmpty

/-! ## Two messages -/

/-- A test node whose database has one transaction. -/
def looseNode : TxNode where
  env := looseEnv
  rules := lenientRules
  db := looseDB
  pindexBest := firstIndex
  proposalManager := .empty

/-- A transaction that claims the first output of another one. -/
def spendingTx (h : UInt256) : CTransaction :=
  { vin := [{ prevout := { hash := h, n := 0 } }]
    vout := [{ nValue := 10 * COIN, scriptPubKey := [0x51] }] }

/-- A transaction that claims an output which the node does not have is stored. -/
theorem booked_orphan :
    (processTx sampleHash looseNode (fun _ => 0) (spendingTx 7).serialize {} {}).orphans.Booked := by
  refine OrphanRun.orphansBooked (.message _ _ _ _ ?_ .start)
  intro tx hread haccepted
  have htx : readTx (spendingTx 7).serialize = .ok (spendingTx 7) := by decide +kernel
  have hrefused : (looseNode.acceptToMemoryPool sampleHash (spendingTx 7) {}).result =
      .ok false := by decide +kernel
  rw [htx] at hread
  cases hread
  rw [hrefused] at haccepted
  cases haccepted

/-- A transaction that is accepted, and whose outputs no stored transaction claims, leaves an empty
entry behind. -/
theorem not_booked_accepted : ¬ ∀ (hash : Bytes → UInt256) (s : OrphanTxs),
    OrphanRun hash (fun _ _ _ _ => True) s → s.Booked := by
  intro hbooked
  have hrun : OrphanRun sampleHash (fun _ _ _ _ => True)
      (processTx sampleHash looseNode (fun _ => 0) (spendingTx 1).serialize {} {}).orphans :=
    .message _ _ _ _ trivial .start
  have hleft : (processTx sampleHash looseNode (fun _ => 0) (spendingTx 1).serialize {}
      {}).orphans.mapOrphanTransactionsByPrev[(spendingTx 1).getHash sampleHash]?.all
        (fun group => group.isEmpty) = true ∧
      ((processTx sampleHash looseNode (fun _ => 0) (spendingTx 1).serialize {}
        {}).orphans.mapOrphanTransactionsByPrev[(spendingTx 1).getHash sampleHash]?).isSome =
        true := by decide +kernel
  obtain ⟨group, hgroup⟩ := Option.isSome_iff_exists.mp hleft.2
  have hempty := hleft.1
  rw [hgroup, Option.all_some, (hbooked _ _ hrun).none_empty _ group hgroup] at hempty
  cases hempty

end HyperStake
