import HyperStake.Chain.Branches
import HyperStake.Chain.MemPool

/-!
# Changing the best chain

`CBlock::SetBestChain` makes a block the last one of the best chain.  A block that extends the best
chain is connected in a database transaction of its own (`setBestChainInner`).  For any other block
the node switches to another branch: `Reorganize` disconnects the blocks down to the fork and
connects those of the new branch, all in one transaction (`switchBranch`), and after the commit it
changes the links between the indices and the memory pool (`finishSwitch`).  Blocks at the end of a
new branch that is worth more without them already are postponed, and connected one by one.

A transaction of the database works on a copy: `db` is the copy while a transaction is open, and an
abort puts back the database that the transaction began with.  What is in memory, and the vote
database, is not covered by it.  The wallets, the record of the best invalid chain and the times are
left out.
-/

namespace HyperStake

open LinkWalk WorkQueue

/-- The transaction database: the records of the transactions, and the hash of the best chain. -/
structure ChainDB where
  txs : TxDB := ∅
  hashBestChain : UInt256 := 0

/-- What `SetBestChain` works on. -/
structure BestChain where
  tree : BlockTree := {}
  pindexGenesisBlock : UInt256 := 0
  pindexBest : UInt256 := 0
  hashBestChain : UInt256 := 0
  nBestHeight : Int32 := -1
  bnBestChainTrust : ℤ := 0
  db : ChainDB := {}
  registry : Registry := {}
  pool : CTxMemPool := {}

/-- What a call of `SetBestChain` asks of the rest of the node. -/
structure ChainNode where
  /-- The surroundings in which a block is connected or disconnected. -/
  env : UInt256 → Env
  /-- The surroundings in which transactions are put back into the memory pool. -/
  poolEnv : Env
  rules : PoolRules
  /-- The hash of the genesis block of the network. -/
  hashGenesisBlock : UInt256
  bnChainTrust : UInt256 → ℤ
  /-- `CBlock::ReadFromDisk` at a file and a position. -/
  readBlock : UInt32 → UInt32 → Option CBlock
  /-- `TxnBegin`, at the start of the call. -/
  txnBegin : Bool
  /-- `TxnBegin`, for a block that has been postponed. -/
  txnBegin2 : UInt256 → Bool
  /-- `WriteHashBestChain`. -/
  writesHashBestChain : UInt256 → Bool
  /-- `TxnCommit` of the transaction that a block is connected in at the end. -/
  txnCommit : UInt256 → Bool

/-! ## The block tree -/

namespace BlockTree

/-- Store the index of a block. -/
def setIndex (tree : BlockTree) (h : UInt256) (pindex : CBlockIndex) : BlockTree :=
  { tree with mapBlockIndex := tree.mapBlockIndex.insert h pindex }

/-- Set the `pnext` pointer of an index, unless the pointer to the index is null. -/
def setNext (tree : BlockTree) (h pnext : UInt256) : BlockTree :=
  match tree.find h with
  | some pindex => tree.setIndex h { pindex with pnext }
  | none => tree

/-- The hashes of a block and of those before it. -/
def path (tree : BlockTree) (h : UInt256) : List UInt256 :=
  (tree.past h).map CBlockIndex.phashBlock

/-- The pointers from an index along `pprev` up to another one, which is left out. -/
def above (tree : BlockTree) (fork h : UInt256) : List UInt256 :=
  (tree.path h).takeWhile fun k => k != fork

end BlockTree

namespace BlockTree

variable {tree : BlockTree} {h k : UInt256} {pindex : CBlockIndex}

lemma find_setIndex (hne : h ≠ 0) :
    (tree.setIndex h pindex).find k = if h = k then some pindex else tree.find k := by
  unfold find setIndex
  rw [MapLoop.getElem?_insert_eq]
  by_cases hzero : k = 0
  · subst hzero
    rw [if_pos rfl, if_neg hne, if_pos rfl]
  · rw [if_neg hzero, if_neg hzero]

lemma ne_zero_of_find (hfound : tree.find h = some pindex) : h ≠ 0 := (find_eq_some.mp hfound).1

lemma find_setNext (tree : BlockTree) (h k pnext : UInt256) : (tree.setNext h pnext).find k =
    if h = k then (tree.find k).map fun pindex => { pindex with pnext } else tree.find k := by
  unfold setNext
  cases hfound : tree.find h with
  | none =>
    split_ifs with heq
    · subst heq
      rw [hfound]
      rfl
    · rfl
  | some pindex =>
    dsimp only
    rw [find_setIndex (ne_zero_of_find hfound)]
    split_ifs with heq
    · subst heq
      rw [hfound]
      rfl
    · rfl

/-- On a walk in a tree, the keys are the hashes of the indices. -/
lemma keys_eq_map {l : List CBlockIndex} (hroot : tree.Rooted)
    (hwalk : Walks tree.find CBlockIndex.pprev h l) :
    keys CBlockIndex.pprev h l = l.map CBlockIndex.phashBlock := by
  induction hwalk with
  | stop => rfl
  | step hfound _ ih =>
    rw [keys, List.map_cons, ih, hroot.phashBlock _ _ (find_eq_some.mp hfound).2]

/-- Before a pointer that leads to nothing there is nothing. -/
lemma past_of_find_eq_none (hnone : tree.find h = none) : tree.past h = [] :=
  past_eq (.stop hnone)

/-- No block is before itself. -/
lemma Rooted.nodup_path (hroot : tree.Rooted) (h : UInt256) : (tree.path h).Nodup := by
  unfold path
  by_cases hk : h = 0 ∨ h ∈ tree.mapBlockIndex
  · have hwalk := hroot.walks_past hk
    rw [← keys_eq_map hroot hwalk]
    exact hwalk.nodup_keys
  · have hnone : tree.find h = none :=
      find_eq_none.mpr (Or.inr fun hmem => hk (Or.inr hmem))
    rw [past_of_find_eq_none hnone]
    exact List.nodup_nil

end BlockTree

/-- The loop of `Reorganize` that finds the fork, over the indices from the two pointers on. -/
def findFork : List CBlockIndex → List CBlockIndex → Option UInt256
  | [], _ => none
  | pfork :: forks, longer =>
    match longer.dropWhile fun plonger => decide (plonger.nHeight > pfork.nHeight) with
    | [] => none
    | plonger :: longer =>
      if plonger.phashBlock = pfork.phashBlock then some pfork.phashBlock
      else findFork forks (plonger :: longer)

/-- The loop of `SetBestChain` that postpones blocks, over the pointers from the new one on: those
that are postponed, the last one first, and the one that is switched to. -/
def postpone (bnChainTrust : UInt256 → ℤ) (pindexBest : UInt256) :
    List UInt256 → List UInt256 × UInt256
  | [] => ([], 0)
  | [pindexIntermediate] => ([], pindexIntermediate)
  | pindexIntermediate :: pprev :: past =>
    if bnChainTrust pprev > bnChainTrust pindexBest then
      let (vpindexSecondary, pindexLast) := postpone bnChainTrust pindexBest (pprev :: past)
      (pindexIntermediate :: vpindexSecondary, pindexLast)
    else ([], pindexIntermediate)

section SetBestChain

variable (hash hash9 : Bytes → UInt256) (node : ChainNode)

/-- The surroundings of a block as the node has them: its height, its memory pool, and its indices. -/
def ChainNode.envAt (h : UInt256) (s : BestChain) : Env :=
  { node.env h with
    nBestHeight := s.nBestHeight
    mempool := fun txid => s.pool.mapTx[txid]?
    ancestors := fun pindex => pindex :: s.tree.past pindex.pprev }

/-- `CBlock::ReadFromDisk` of the block of an index. -/
def ChainNode.readFromDisk (pindex : CBlockIndex) : Option CBlock :=
  (node.readBlock pindex.nFile pindex.nBlockPos).filter fun block =>
    block.getHash hash9 == pindex.phashBlock

/-! ## Connecting and disconnecting -/

/-- `ConnectBlock` of a block with an index.  Whatever it returns, the index and the registry stay
as it leaves them. -/
def connectIndex (h : UInt256) (pindex : CBlockIndex) (block : CBlock) (s : BestChain) :
    BestChain × Except Fault Bool :=
  let outcome := connectBlock hash ((node.envAt h s).node hash) s.db.txs block pindex
    (s.tree.find pindex.pprev) false s.registry
  ({ s with
      tree := s.tree.setIndex h outcome.pindex
      registry := outcome.registry
      db := { s.db with txs := outcome.db } },
    outcome.result)

/-- A turn of the loop of `Reorganize` that disconnects blocks, on the database and the transactions
to be put back into the memory pool. -/
def disconnectTurn (s : BestChain) (t : TxDB × List CTransaction) (h : UInt256) :
    Except Exit (TxDB × List CTransaction) :=
  match s.tree.find h with
  | none => .error (.throws .undefined)
  | some pindex => do
    let block ← Exit.requireSome (node.readFromDisk hash9 pindex)
    let db ← Exit.requireSome
      (block.disconnectBlock hash (node.envAt h s) t.1 (s.tree.find pindex.pprev))
    return (db, t.2 ++ block.vtx.filter fun tx => !(tx.isCoinBase || tx.isCoinStake))

/-- A turn of the loop of `Reorganize` that connects blocks, with the transactions to be deleted from
the memory pool. -/
def connectTurn (t : BestChain × List CTransaction) (h : UInt256) :
    (BestChain × List CTransaction) × Option Exit :=
  match t.1.tree.find h with
  | none => (t, some (.throws .undefined))
  | some pindex =>
    match node.readFromDisk hash9 pindex with
    | none => (t, some .returnFalse)
    | some block =>
      match connectIndex hash node h pindex block t.1 with
      | (s, .ok true) => ((s, t.2 ++ block.vtx), none)
      | (s, .ok false) => ((s, t.2), some .returnFalse)
      | (s, .error e) => ((s, t.2), some (.throws e))

/-! ## `Reorganize` -/

/-- What `Reorganize` has collected when it commits. -/
structure Switch where
  vDisconnect : List UInt256
  vConnect : List UInt256
  vResurrect : List CTransaction
  vDelete : List CTransaction

/-- `Reorganize` up to the commit. -/
def switchBranch (pindexNew : UInt256) (s : BestChain) : BestChain × Except Exit Switch :=
  match findFork (s.tree.past s.pindexBest) (s.tree.past pindexNew) with
  | none => (s, .error .returnFalse)
  | some pfork =>
    let vDisconnect := s.tree.above pfork s.pindexBest
    let vConnect := (s.tree.above pfork pindexNew).reverse
    match vDisconnect.foldlM (disconnectTurn hash hash9 node s) (s.db.txs, []) with
    | .error exit => (s, .error exit)
    | .ok (txs, vResurrect) =>
      match foldThrow (connectTurn hash hash9 node) vConnect
          ({ s with db := { s.db with txs } }, []) with
      | ((s, _), some exit) => (s, .error exit)
      | ((s, vDelete), none) =>
        if !node.writesHashBestChain pindexNew || !node.txnCommit pindexNew then
          (s, .error .returnFalse)
        else
          ({ s with db := { s.db with hashBestChain := pindexNew } },
            .ok ⟨vDisconnect, vConnect, vResurrect, vDelete⟩)

/-- Take away the link to a block that has been disconnected. -/
def unlinkIndex (tree : BlockTree) (h : UInt256) : BlockTree :=
  match tree.find h with
  | some pindex => tree.setNext pindex.pprev 0
  | none => tree

/-- Set the link to a block that has been connected. -/
def linkIndex (tree : BlockTree) (h : UInt256) : BlockTree :=
  match tree.find h with
  | some pindex => tree.setNext pindex.pprev h
  | none => tree

/-- `AcceptToMemoryPool` of a transaction that was in a disconnected block; what it returns is not
looked at. -/
def resurrectTurn (s : BestChain) (tx : CTransaction) : BestChain × Option Fault :=
  let outcome := s.pool.accept hash { node.poolEnv with nBestHeight := s.nBestHeight } node.rules
    s.db.txs ((s.tree.find s.pindexBest).getD {}) s.registry.proposalManager tx false
  ({ s with pool := outcome.pool },
    match outcome.result with
    | .ok _ => none
    | .error e => some e)

/-- Delete transactions from the memory pool. -/
def removeAll (vtx : List CTransaction) (pool : CTxMemPool) : CTxMemPool :=
  vtx.foldl (fun pool tx => pool.remove hash tx) pool

/-- `Reorganize` after the commit. -/
def finishSwitch (switch : Switch) (s : BestChain) : BestChain × Option Fault :=
  let tree := switch.vConnect.foldl linkIndex (switch.vDisconnect.foldl unlinkIndex s.tree)
  match foldThrow (resurrectTurn hash node) switch.vResurrect { s with tree } with
  | (s, some e) => (s, some e)
  | (s, none) => ({ s with pool := removeAll hash switch.vDelete s.pool }, none)

/-! ## `SetBestChain` -/

/-- `CBlock::SetBestChainInner`, in a transaction that has begun. -/
def setBestChainInner (pindexNew : UInt256) (block : CBlock) (s : BestChain) :
    BestChain × Except Fault Bool :=
  match s.tree.find pindexNew with
  | none => (s, .error .undefined)
  | some pindex =>
    match connectIndex hash node pindexNew pindex block s with
    | (s', .error e) => ({ s' with db := s.db }, .error e)
    | (s', .ok false) => ({ s' with db := s.db }, .ok false)
    | (s', .ok true) =>
      if !node.writesHashBestChain pindexNew || !node.txnCommit pindexNew then
        ({ s' with db := s.db }, .ok false)
      else
        let s' := { s' with db := { s'.db with hashBestChain := pindexNew } }
        match s'.tree.find pindex.pprev with
        | none => (s', .error .undefined)
        | some _ =>
          ({ s' with
              tree := s'.tree.setNext pindex.pprev pindexNew
              pool := removeAll hash block.vtx s'.pool },
            .ok true)

/-- The loop of `SetBestChain` that connects the postponed blocks.  It ends at the first one that
fails. -/
def connectPostponed : List UInt256 → BestChain → BestChain × Option Fault
  | [], s => (s, none)
  | h :: postponed, s =>
    match s.tree.find h with
    | none => (s, some .undefined)
    | some pindex =>
      match node.readFromDisk hash9 pindex with
      | none => (s, none)
      | some block =>
        if !node.txnBegin2 h then (s, none)
        else
          match setBestChainInner hash node h block s with
          | (s, .ok true) => connectPostponed postponed s
          -- errors now are not fatal
          | (s, .ok false) => (s, none)
          | (s, .error e) => (s, some e)

/-- The branch of `SetBestChain` for a block that does not extend the best chain. -/
def changeBranch (pindexNew : UInt256) (s : BestChain) : BestChain × Except Fault Bool :=
  match s.tree.find s.pindexBest with
  | none => (s, .error .undefined)
  | some _ =>
    let (vpindexSecondary, pindexIntermediate) :=
      postpone node.bnChainTrust s.pindexBest (s.tree.path pindexNew)
    match switchBranch hash hash9 node pindexIntermediate s with
    | (s', .error exit) => ({ s' with db := s.db }, exit.result)
    | (s', .ok switch) =>
      match finishSwitch hash node switch s' with
      | (s', some e) => (s', .error e)
      | (s', none) =>
        match connectPostponed hash hash9 node vpindexSecondary.reverse s' with
        | (s', some e) => (s', .error e)
        | (s', none) => (s', .ok true)

/-- The branch of `SetBestChain` for the genesis block; what `WriteHashBestChain` returns is not
looked at. -/
def setGenesis (pindexNew : UInt256) (s : BestChain) : BestChain × Except Fault Bool :=
  if !node.txnCommit pindexNew then (s, .ok false)
  else
    ({ s with
        db := if node.writesHashBestChain pindexNew then { s.db with hashBestChain := pindexNew }
          else s.db
        pindexGenesisBlock := pindexNew },
      .ok true)

/-- The branches of `SetBestChain`. -/
def moveBest (block : CBlock) (s : BestChain) : BestChain × Except Fault Bool :=
  let h := block.getHash hash9
  if s.pindexGenesisBlock = 0 ∧ h = node.hashGenesisBlock then setGenesis node h s
  else if block.hashPrevBlock = s.hashBestChain then setBestChainInner hash node h block s
  else changeBranch hash hash9 node h s

/-- `CBlock::SetBestChain`. -/
def setBestChain (block : CBlock) (s : BestChain) : BestChain × Except Fault Bool :=
  if !node.txnBegin then (s, .ok false)
  else
    match moveBest hash hash9 node block s with
    | (s, .ok true) =>
      -- the new best block, whatever has become of the postponed ones
      let h := block.getHash hash9
      match s.tree.find h with
      | none => (s, .error .undefined)
      | some pindexNew =>
        ({ s with
            hashBestChain := h, pindexBest := h
            nBestHeight := pindexNew.nHeight, bnBestChainTrust := node.bnChainTrust h },
          .ok true)
    | (s, result) => (s, result)

end SetBestChain

end HyperStake
