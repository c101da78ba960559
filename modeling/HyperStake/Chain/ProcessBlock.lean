import Mathlib.Data.Finset.Basic
import HyperStake.Chain.StakeModifier
import HyperStake.Library.LinkWalk
import HyperStake.Library.WorkQueue

/-!
# Processing blocks

`ProcessBlock` takes a block that was received.  A block whose parent is not known is stored as an
orphan.  Any other block goes through `AcceptBlock`, which adds it to the block index, and then the
orphans that wait for it are taken out of the store and accepted in turn, and those that wait for
them (`resolveBlocks`).

What a call asks of the rest of the node, its files, its transaction database and the best chain, is
a field of `AcceptNode` and may be anything, and may change from one block to the next.
-/

namespace HyperStake

open LinkWalk WorkQueue

/-- A stake: the output that is staked, and the time of the coin stake. -/
abbrev Stake := COutPoint × UInt32

def CBlock.getProofOfStake (block : CBlock) : Stake :=
  match block.vtx with
  | _ :: tx :: _ => if tx.isCoinStake then ((tx.vin.headD {}).prevout, tx.nTime) else ({}, 0)
  | _ => ({}, 0)

/-- The stake that the index of a proof-of-stake block is of. -/
def CBlockIndex.stake (pindex : CBlockIndex) : Stake := (pindex.prevoutStake, pindex.nStakeTime)

/-- The fields of an index that connecting and disconnecting blocks change. -/
structure ChainFields where
  pnext : UInt256 := 0
  nMint : Int64 := 0
  nMoneySupply : Int64 := 0
  tally : CVoteTally := {}

/-- An index with other values of the fields that connecting and disconnecting blocks change. -/
def CBlockIndex.withFields (fields : ChainFields) (pindex : CBlockIndex) : CBlockIndex :=
  { pindex with
    pnext := fields.pnext, nMint := fields.nMint, nMoneySupply := fields.nMoneySupply
    tally := fields.tally }

/-! ## The block tree -/

/-- The block index, the stakes of its blocks, and the proof-of-stake hashes of blocks. -/
structure BlockTree where
  mapBlockIndex : Std.ExtTreeMap UInt256 CBlockIndex := ∅
  setStakeSeen : Finset Stake := ∅
  mapProofOfStake : Std.ExtTreeMap UInt256 UInt256 := ∅

namespace BlockTree

/-- The index that a pointer leads to. -/
def find (tree : BlockTree) (h : UInt256) : Option CBlockIndex :=
  if h = 0 then none else tree.mapBlockIndex[h]?

/-- The index that a pointer leads to, and the indices that the `pprev` pointers lead to from it. -/
def past (tree : BlockTree) (h : UInt256) : List CBlockIndex :=
  walk tree.find CBlockIndex.pprev tree.mapBlockIndex.keys.length h

/-- Insert the index of a block, and the stake of a proof-of-stake block. -/
def insertIndex (tree : BlockTree) (h : UInt256) (pindexNew : CBlockIndex) : BlockTree :=
  { tree with
    mapBlockIndex := tree.mapBlockIndex.insert h pindexNew
    setStakeSeen := if pindexNew.isProofOfStake then insert pindexNew.stake tree.setStakeSeen
      else tree.setStakeSeen }

/-- Change the fields of the indices that connecting and disconnecting blocks change. -/
def setFields (tree : BlockTree) (fields : UInt256 → ChainFields) : BlockTree :=
  { tree with mapBlockIndex := tree.mapBlockIndex.map fun h pindex => pindex.withFields (fields h) }

end BlockTree

/-- What a call of `AcceptBlock` asks of the rest of the node. -/
structure AcceptNode where
  env : Env
  /-- `CheckDiskSpace` and `WriteToDisk`: the file and the position, or none if one fails. -/
  writeToDisk : CBlock → Option (UInt32 × UInt32)
  /-- `TxnBegin` on the transaction database. -/
  txnBegin : Bool
  /-- `TxnCommit` on the transaction database. -/
  txnCommit : Bool
  /-- An index has more trust than the best chain. -/
  moreTrust : CBlockIndex → Bool
  /-- `SetBestChain`: the fields of the indices as it leaves them, and its result. -/
  setBestChain : CBlockIndex → (UInt256 → ChainFields) × Except Fault Bool

/-- `CBlock::GetStakeEntropyBit`: the last bit of the hash of the block. -/
def CBlock.getStakeEntropyBit (hash9 : Bytes → UInt256) (block : CBlock) (_nHeight : UInt32) :
    UInt32 :=
  UInt32.ofNat ((block.getHash hash9).toNat % 2)

section Accept

variable (hash hash9 : Bytes → UInt256)

/-- What a node asks about the stake of a block that follows some indices. -/
def BlockTree.stakeRules (fTestNet : Bool) (tree : BlockTree) (past : List CBlockIndex) :
    StakeRules where
  getStakeEntropyBit := CBlock.getStakeEntropyBit hash9
  mapProofOfStake h := tree.mapProofOfStake[h]?
  computeNextStakeModifier _ := computeNextStakeModifier hash fTestNet tree.find past
  checkStakeModifierCheckpoints pindexNew :=
    checkStakeModifierCheckpoints fTestNet pindexNew.nHeight
      (getStakeModifierChecksum hash (pindexNew :: past))

/-- The index that `AddToBlockIndex` makes for a block, or none if it returns false before it adds
one. -/
def BlockTree.newIndex (fTestNet : Bool) (tree : BlockTree) (nFile nBlockPos : UInt32)
    (block : CBlock) : Option CBlockIndex :=
  block.addToBlockIndex hash9 (tree.stakeRules hash hash9 fTestNet (tree.past block.hashPrevBlock))
    tree.mapBlockIndex nFile nBlockPos

/-- `CBlock::AddToBlockIndex`.  The index is added before it is written to the database and before
the block can become part of the best chain, and it stays if one of these fails. -/
def CBlock.addToTree (node : AcceptNode) (nFile nBlockPos : UInt32) (block : CBlock)
    (tree : BlockTree) : BlockTree × Except Fault Bool :=
  match tree.newIndex hash hash9 node.env.fTestNet nFile nBlockPos block with
  | none => (tree, .ok false)
  | some pindexNew =>
    let tree := tree.insertIndex (block.getHash hash9) pindexNew
    if !node.txnBegin || !node.txnCommit then (tree, .ok false)
    else if node.moreTrust pindexNew then
      let (fields, result) := node.setBestChain pindexNew
      (tree.setFields fields, result)
    else (tree, .ok true)

def CBlock.acceptBlock (node : AcceptNode) (block : CBlock) (tree : BlockTree) :
    BlockTree × Except Fault Bool :=
  if tree.mapBlockIndex.contains (block.getHash hash9) then (tree, .ok false)
  else if !tree.mapBlockIndex.contains block.hashPrevBlock then (tree, .ok false)
  else
    match block.acceptRules node.env (tree.past block.hashPrevBlock) with
    | .error e => (tree, .error e)
    | .ok false => (tree, .ok false)
    | .ok true =>
      match node.writeToDisk block with
      | none => (tree, .ok false)
      | some (nFile, nBlockPos) => block.addToTree hash hash9 node nFile nBlockPos tree

end Accept

/-! ## Orphans -/

/-- The blocks whose parents are not known, by hash and by parent, and their stakes.  A multimap is
the list of its entries, in the order in which they were inserted. -/
structure OrphanBlocks where
  mapOrphanBlocks : Std.ExtTreeMap UInt256 CBlock := ∅
  mapOrphanBlocksByPrev : List (UInt256 × CBlock) := []
  setStakeSeenOrphan : Finset Stake := ∅

namespace OrphanBlocks

/-- Some orphans wait for a block: the count of the multimap is not zero. -/
def hasChild (orphans : OrphanBlocks) (h : UInt256) : Bool :=
  orphans.mapOrphanBlocksByPrev.any fun mi => mi.1 == h

/-- The entries of the multimap for a block. -/
def children (orphans : OrphanBlocks) (hashPrev : UInt256) : List (UInt256 × CBlock) :=
  orphans.mapOrphanBlocksByPrev.filter fun mi => mi.1 == hashPrev

/-- Store a block. -/
def store (orphans : OrphanBlocks) (h : UInt256) (block : CBlock) : OrphanBlocks where
  mapOrphanBlocks := orphans.mapOrphanBlocks.insertIfNew h block
  mapOrphanBlocksByPrev := orphans.mapOrphanBlocksByPrev ++ [(block.hashPrevBlock, block)]
  setStakeSeenOrphan := if block.isProofOfStake then
    insert block.getProofOfStake orphans.setStakeSeenOrphan else orphans.setStakeSeenOrphan

/-- Take a block out, but for its entry in the multimap. -/
def take (hash9 : Bytes → UInt256) (orphans : OrphanBlocks) (block : CBlock) : OrphanBlocks :=
  { orphans with
    mapOrphanBlocks := orphans.mapOrphanBlocks.erase (block.getHash hash9)
    setStakeSeenOrphan := orphans.setStakeSeenOrphan.erase block.getProofOfStake }

/-- Erase the entries of the multimap for a block. -/
def eraseChildren (orphans : OrphanBlocks) (hashPrev : UInt256) : OrphanBlocks :=
  { orphans with
    mapOrphanBlocksByPrev := orphans.mapOrphanBlocksByPrev.filter fun mi => mi.1 != hashPrev }

end OrphanBlocks

/-- What `ProcessBlock` works on. -/
structure BlockStore where
  tree : BlockTree := {}
  orphans : OrphanBlocks := {}

/-- What a call of `ProcessBlock` asks of the rest of the node. -/
structure BlockNode where
  env : Env
  /-- `CheckProofOfStake`: the proof-of-stake hash, or none if it returns false. -/
  checkProofOfStake : CTransaction → UInt32 → Option UInt256
  /-- The node when `AcceptBlock` is called on a block. -/
  accept : BlockTree → CBlock → AcceptNode

/-- What a call of `ProcessBlock` leaves behind. -/
structure ProcessOutcome where
  store : BlockStore
  result : Except Fault Bool
  strErr : String := ""

section Process

variable (hash hash9 : Bytes → UInt256) (node : BlockNode)

/-- A turn of the loop over the orphans that wait for a block, with the accepted ones so far. -/
def tryOrphanBlock (s : BlockStore × List UInt256) (mi : UInt256 × CBlock) :
    (BlockStore × List UInt256) × Option Fault :=
  match mi.2.acceptBlock hash hash9 (node.accept s.1.tree mi.2) s.1.tree with
  | (tree, .error e) => (({ s.1 with tree }, s.2), some e)
  | (tree, .ok accepted) =>
    (({ tree, orphans := s.1.orphans.take hash9 mi.2 },
      if accepted then s.2 ++ [mi.2.getHash hash9] else s.2), none)

/-- A turn of the loop over the queue of work. -/
def resolveBlocks (s : BlockStore) (hashPrev : UInt256) :
    BlockStore × List UInt256 × Option Fault :=
  match foldThrow (tryOrphanBlock hash hash9 node) (s.orphans.children hashPrev) (s, []) with
  | ((s, new), some e) => (s, new, some e)
  | ((s, new), none) => ({ s with orphans := s.orphans.eraseChildren hashPrev }, new, none)

/-- The part of `ProcessBlock` after the stake has been checked. -/
def placeBlock (pblock : CBlock) (s : BlockStore) : ProcessOutcome :=
  let h := pblock.getHash hash9
  if !s.tree.mapBlockIndex.contains pblock.hashPrevBlock then
    -- duplicate stake allowed only when there is orphan child block
    if pblock.isProofOfStake && decide (pblock.getProofOfStake ∈ s.orphans.setStakeSeenOrphan) &&
        !s.orphans.hasChild h then
      { store := s, result := .ok false }
    else { store := { s with orphans := s.orphans.store h pblock }, result := .ok true }
  else
    match pblock.acceptBlock hash hash9 (node.accept s.tree pblock) s.tree with
    | (tree, .error e) => { store := { s with tree }, result := .error e }
    | (tree, .ok false) => { store := { s with tree }, result := .ok false }
    | (tree, .ok true) =>
      match run (resolveBlocks hash hash9 node) (s.orphans.mapOrphanBlocksByPrev.length + 1) [h]
        { s with tree } with
      | (s, _, some e) => { store := s, result := .error e }
      | (s, _, none) => { store := s, result := .ok true }

/-- The full check of a block is not made up to the last hardened checkpoint. -/
def BlockNode.fFullCheck (pblock : CBlock) (tree : BlockTree) : Bool :=
  match tree.mapBlockIndex[pblock.hashPrevBlock]? with
  | some pprev => decide (pprev.nHeight > node.env.getTotalBlocksEstimate)
  | none => true

/-- The proof-of-stake hash of a block, which is zero if it is not checked, or none if the check
fails. -/
def BlockNode.proofOfStakeOf (fFullCheck : Bool) (pblock : CBlock) : Option UInt256 :=
  if fFullCheck then node.checkProofOfStake (pblock.vtx.getD 1 {}) pblock.nBits else some 0

/-- The part of `ProcessBlock` up to the check of the stake: what it returns, or the store that the
rest goes on with. -/
def checkStage (pblock : CBlock) (s : BlockStore) : Except ProcessOutcome BlockStore :=
  let h := pblock.getHash hash9
  if s.tree.mapBlockIndex.contains h then .error { store := s, result := .ok false }
  else if s.orphans.mapOrphanBlocks.contains h then .error { store := s, result := .ok false }
  -- duplicate stake allowed only when there is orphan child block
  else if pblock.isProofOfStake && decide (pblock.getProofOfStake ∈ s.tree.setStakeSeen) &&
      !s.orphans.hasChild h then
    if s.tree.mapBlockIndex.contains pblock.hashPrevBlock then
      .error
        { store := { s with tree := { s.tree with
            setStakeSeen := s.tree.setStakeSeen.erase pblock.getProofOfStake } }
          result := .ok false, strErr := "reorg" }
    else .error { store := s, result := .ok false }
  else if !pblock.checkBlock hash node.env true true true then
    .error { store := s, result := .ok false }
  else if pblock.isProofOfStake then
    match node.proofOfStakeOf (node.fFullCheck pblock s.tree) pblock with
    | none => .error { store := s, result := .ok false }
    | some hashProofOfStake =>
      .ok { s with tree := { s.tree with
        mapProofOfStake := s.tree.mapProofOfStake.insertIfNew h hashProofOfStake } }
  else .ok s

/-- `ProcessBlock`.  The peer that sent the block and the wallet are left out. -/
def processBlock (pblock : CBlock) (s : BlockStore) : ProcessOutcome :=
  match checkStage hash hash9 node pblock s with
  | .error outcome => outcome
  | .ok s => placeBlock hash hash9 node pblock s

end Process

/-! ## The index that is added -/

/-- The constructor takes the kind of a block and its stake. -/
lemma CBlockIndex.stake_ofBlock (nFile nBlockPos : UInt32) (block : CBlock) :
    (CBlockIndex.ofBlock nFile nBlockPos block).nFlags =
        (if block.isProofOfStake then BLOCK_PROOF_OF_STAKE else 0) ∧
      (CBlockIndex.ofBlock nFile nBlockPos block).hashProofOfStake = 0 ∧
      (CBlockIndex.ofBlock nFile nBlockPos block).nTime = block.nTime ∧
      (CBlockIndex.ofBlock nFile nBlockPos block).stake = block.getProofOfStake := by
  rw [ofBlock, CBlock.isProofOfStake, CBlock.getProofOfStake]
  rcases block.vtx with _ | ⟨tx₀, _ | ⟨tx, vtx⟩⟩
  · exact ⟨rfl, rfl, rfl, rfl⟩
  · exact ⟨rfl, rfl, rfl, rfl⟩
  · dsimp only
    split_ifs with hstake
    · exact ⟨rfl, rfl, rfl, rfl⟩
    · exact ⟨rfl, rfl, rfl, rfl⟩

/-- The flags of the index of a block: its kind, its entropy bit, and whether its modifier is a new
one. -/
def CBlock.indexFlags (hash9 : Bytes → UInt256) (block : CBlock) (fGeneratedStakeModifier : Bool) :
    UInt32 :=
  let nFlags := (if block.isProofOfStake then BLOCK_PROOF_OF_STAKE else 0) |||
    (if block.getStakeEntropyBit hash9 0 != 0 then BLOCK_STAKE_ENTROPY else 0)
  if fGeneratedStakeModifier then nFlags ||| BLOCK_STAKE_MODIFIER else nFlags

lemma CBlock.isProofOfStake_indexFlags (hash9 : Bytes → UInt256) (block : CBlock)
    (fGeneratedStakeModifier : Bool) :
    (block.indexFlags hash9 fGeneratedStakeModifier &&& BLOCK_PROOF_OF_STAKE != 0) =
      block.isProofOfStake := by
  unfold CBlock.indexFlags
  cases block.isProofOfStake <;> cases fGeneratedStakeModifier <;>
    cases (block.getStakeEntropyBit hash9 0 != 0) <;> decide

/-- What the index that `AddToBlockIndex` makes has of its block, its parent and its stake. -/
structure BlockTree.NewIndex (hash hash9 : Bytes → UInt256) (fTestNet : Bool) (tree : BlockTree)
    (block : CBlock) (pindexNew : CBlockIndex) : Prop where
  phashBlock : pindexNew.phashBlock = block.getHash hash9
  pprev : pindexNew.pprev = if tree.mapBlockIndex.contains block.hashPrevBlock then
    block.hashPrevBlock else 0
  nTime : pindexNew.nTime = block.nTime
  isProofOfStake : pindexNew.isProofOfStake = block.isProofOfStake
  stake : pindexNew.stake = block.getProofOfStake
  hashProofOfStake : if block.isProofOfStake then
    tree.mapProofOfStake[block.getHash hash9]? = some pindexNew.hashProofOfStake
    else pindexNew.hashProofOfStake = 0
  modifier : ∃ fGeneratedStakeModifier,
    computeNextStakeModifier hash fTestNet tree.find (tree.past block.hashPrevBlock) =
        some (pindexNew.nStakeModifier, fGeneratedStakeModifier) ∧
      pindexNew.nFlags = block.indexFlags hash9 fGeneratedStakeModifier

/-- The index after the entropy bit has been set and the proof has been recorded. -/
lemma CBlockIndex.recorded_eq {hash9 : Bytes → UInt256} {tree : BlockTree} {block : CBlock}
    {pindex pindexBit pindexStake : CBlockIndex} {nEntropyBit : UInt32}
    (hbit : pindex.setStakeEntropyBit nEntropyBit = some pindexBit)
    (hentropy : nEntropyBit = block.getStakeEntropyBit hash9 0)
    (hrecord : pindexBit.recordProofOfStake tree.mapProofOfStake[block.getHash hash9]? =
      some pindexStake)
    (hflags : pindex.nFlags = if block.isProofOfStake then BLOCK_PROOF_OF_STAKE else 0)
    (hproof : pindex.hashProofOfStake = 0) :
    ∃ hashProofOfStake,
      pindexStake = { pindex with nFlags := block.indexFlags hash9 false, hashProofOfStake } ∧
      if block.isProofOfStake then
        tree.mapProofOfStake[block.getHash hash9]? = some hashProofOfStake
      else hashProofOfStake = 0 := by
  rw [CBlockIndex.setStakeEntropyBit, hentropy, hflags] at hbit
  have hset : pindexBit = { pindex with nFlags := block.indexFlags hash9 false } := by
    by_cases hbig : block.getStakeEntropyBit hash9 0 > 1
    · rw [if_pos hbig] at hbit
      cases hbit
    · rw [if_neg hbig] at hbit
      exact (Option.some.inj hbit).symm
  have hpos : pindexBit.isProofOfStake = block.isProofOfStake := by
    rw [hset]
    exact block.isProofOfStake_indexFlags hash9 false
  rw [CBlockIndex.recordProofOfStake, hpos] at hrecord
  split_ifs at hrecord ⊢ with hkind
  · obtain ⟨hashProofOfStake, hfound, rfl⟩ := Option.map_eq_some_iff.mp hrecord
    exact ⟨hashProofOfStake, by rw [hset], hfound⟩
  · refine ⟨0, ?_, rfl⟩
    rw [← Option.some.inj hrecord, hset, ← hproof]

lemma BlockTree.newIndex_eq_some {hash hash9 : Bytes → UInt256} {fTestNet : Bool}
    {tree : BlockTree} {nFile nBlockPos : UInt32} {block : CBlock} {pindexNew : CBlockIndex}
    (h : tree.newIndex hash hash9 fTestNet nFile nBlockPos block = some pindexNew) :
    tree.NewIndex hash hash9 fTestNet block pindexNew := by
  obtain ⟨hflags, hproof, htime, hstake⟩ := CBlockIndex.stake_ofBlock nFile nBlockPos block
  simp only [BlockTree.newIndex, CBlock.addToBlockIndex, Option.bind_eq_bind,
    Option.bind_eq_some_iff] at h
  obtain ⟨-, -, pindexBit, hbit, pindexStake, hrecord, ⟨nStakeModifier, fGenerated⟩, hmodifier, -,
    -, hpindex⟩ := h
  cases hpindex
  have hall : ∃ hashProofOfStake pprev nHeight,
      pindexStake = { CBlockIndex.ofBlock nFile nBlockPos block with
        phashBlock := block.getHash hash9, pprev, nHeight
        nFlags := block.indexFlags hash9 false, hashProofOfStake } ∧
      (pprev = if tree.mapBlockIndex.contains block.hashPrevBlock then block.hashPrevBlock
        else 0) ∧
      if block.isProofOfStake then
        tree.mapProofOfStake[block.getHash hash9]? = some hashProofOfStake
      else hashProofOfStake = 0 := by
    rw [Std.ExtTreeMap.contains_eq_isSome_getElem?]
    cases hprev : tree.mapBlockIndex[block.hashPrevBlock]? with
    | none =>
      rw [hprev] at hbit
      obtain ⟨hashProofOfStake, heq, hfound⟩ :=
        CBlockIndex.recorded_eq hbit rfl hrecord hflags hproof
      exact ⟨hashProofOfStake, _, _, heq,
        (CBlockIndex.madeFrom_ofBlock nFile nBlockPos block).pprev, hfound⟩
    | some pprev =>
      rw [hprev] at hbit
      obtain ⟨hashProofOfStake, heq, hfound⟩ :=
        CBlockIndex.recorded_eq hbit rfl hrecord hflags hproof
      exact ⟨hashProofOfStake, _, _, heq, rfl, hfound⟩
  obtain ⟨hashProofOfStake, pprev, nHeight, rfl, hpprev, hfound⟩ := hall
  have hnew : (CBlockIndex.setStakeModifier nStakeModifier fGenerated
      { CBlockIndex.ofBlock nFile nBlockPos block with
        phashBlock := block.getHash hash9, pprev, nHeight
        nFlags := block.indexFlags hash9 false, hashProofOfStake }).nFlags =
      block.indexFlags hash9 fGenerated := by
    cases fGenerated <;> rfl
  refine ⟨rfl, hpprev, htime, ?_, hstake, hfound, fGenerated, hmodifier, hnew⟩
  rw [CBlockIndex.isProofOfStake, hnew]
  exact block.isProofOfStake_indexFlags hash9 fGenerated

/-! ## What `AcceptBlock` does -/

/-- An index as connecting and disconnecting blocks may leave it. -/
def CBlockIndex.SameNode (p q : CBlockIndex) : Prop := ∃ fields, q = p.withFields fields

/-- A tree to which the index of a block has been added; the indices may be changed as connecting and
disconnecting blocks do. -/
structure BlockTree.Added (h : UInt256) (pindexNew : CBlockIndex) (tree tree' : BlockTree) :
    Prop where
  indices : ∀ k : UInt256, Option.Rel CBlockIndex.SameNode
    (if h = k then some pindexNew else tree.mapBlockIndex[k]?) tree'.mapBlockIndex[k]?
  setStakeSeen : tree'.setStakeSeen = (tree.insertIndex h pindexNew).setStakeSeen
  mapProofOfStake : tree'.mapProofOfStake = tree.mapProofOfStake

/-- Connecting and disconnecting blocks does not change what the modifiers are computed from. -/
lemma CBlockIndex.SameNode.sameStake {p q : CBlockIndex} (h : p.SameNode q) : p.SameStake q := by
  obtain ⟨fields, rfl⟩ := h
  exact ⟨rfl, rfl, rfl, rfl, rfl⟩

lemma CBlockIndex.SameNode.refl (p : CBlockIndex) : p.SameNode p :=
  ⟨⟨p.pnext, p.nMint, p.nMoneySupply, p.tally⟩, rfl⟩

namespace BlockTree

variable {tree tree' : BlockTree} {h : UInt256} {pindexNew : CBlockIndex}

lemma find_zero (tree : BlockTree) : tree.find 0 = none := if_pos rfl

lemma find_eq_some {p : CBlockIndex} :
    tree.find h = some p ↔ h ≠ 0 ∧ tree.mapBlockIndex[h]? = some p := by
  unfold find
  split_ifs with hzero
  · exact iff_of_false nofun fun hand => hand.1 hzero
  · exact ⟨fun hget => ⟨hzero, hget⟩, fun hand => hand.2⟩

lemma mem_of_find {p : CBlockIndex} (hfound : tree.find h = some p) : h ∈ tree.mapBlockIndex :=
  MapLoop.mem_iff.mpr ⟨p, (find_eq_some.mp hfound).2⟩

lemma find_eq_none : tree.find h = none ↔ h = 0 ∨ h ∉ tree.mapBlockIndex := by
  unfold find
  split_ifs with hzero
  · exact iff_of_true rfl (Or.inl hzero)
  · rw [← Option.not_isSome_iff_eq_none, ← Std.ExtTreeMap.mem_iff_isSome_getElem?]
    exact ⟨Or.inr, fun hor => hor.resolve_left hzero⟩

lemma added_insertIndex (tree : BlockTree) (h : UInt256) (pindexNew : CBlockIndex) :
    Added h pindexNew tree (tree.insertIndex h pindexNew) := by
  refine ⟨fun k => ?_, rfl, rfl⟩
  rw [insertIndex, MapLoop.getElem?_insert_eq]
  cases (if h = k then some pindexNew else tree.mapBlockIndex[k]?) with
  | none => exact .none
  | some p => exact .some (.refl p)

lemma added_setFields (tree : BlockTree) (h : UInt256) (pindexNew : CBlockIndex)
    (fields : UInt256 → ChainFields) :
    Added h pindexNew tree ((tree.insertIndex h pindexNew).setFields fields) := by
  refine ⟨fun k => ?_, rfl, rfl⟩
  rw [setFields, Std.ExtTreeMap.getElem?_map, insertIndex, MapLoop.getElem?_insert_eq]
  cases (if h = k then some pindexNew else tree.mapBlockIndex[k]?) with
  | none => exact .none
  | some p => exact .some ⟨fields k, rfl⟩

/-- The blocks of a tree to which one has been added. -/
lemma Added.mem_iff (hadded : Added h pindexNew tree tree') {k : UInt256} :
    k ∈ tree'.mapBlockIndex ↔ h = k ∨ k ∈ tree.mapBlockIndex := by
  have hk := hadded.indices k
  rw [Std.ExtTreeMap.mem_iff_isSome_getElem?, Std.ExtTreeMap.mem_iff_isSome_getElem?]
  rcases rel_cases hk with ⟨hnone, hnone'⟩ | ⟨p, q, hsome, hsome', -⟩
  · rw [hnone']
    split_ifs at hnone with heq
    rw [hnone]
    simp [heq]
  · rw [hsome']
    split_ifs at hsome with heq
    · simp [heq]
    · simp [hsome]

end BlockTree

section Accept

variable (node : AcceptNode) (block : CBlock) (tree : BlockTree)

/-- A call of `AddToBlockIndex` leaves the tree as it is and does not return true, or it adds the
index that it makes for the block. -/
lemma CBlock.addToTree_cases (hash hash9 : Bytes → UInt256) (nFile nBlockPos : UInt32) :
    ((block.addToTree hash hash9 node nFile nBlockPos tree).1 = tree ∧
      (block.addToTree hash hash9 node nFile nBlockPos tree).2 ≠ .ok true) ∨
    ∃ pindexNew,
      tree.newIndex hash hash9 node.env.fTestNet nFile nBlockPos block = some pindexNew ∧
      BlockTree.Added (block.getHash hash9) pindexNew tree
        (block.addToTree hash hash9 node nFile nBlockPos tree).1 := by
  unfold CBlock.addToTree
  cases hindex : tree.newIndex hash hash9 node.env.fTestNet nFile nBlockPos block with
  | none => exact Or.inl ⟨rfl, nofun⟩
  | some pindexNew =>
    refine Or.inr ⟨pindexNew, rfl, ?_⟩
    dsimp only
    split_ifs
    · exact BlockTree.added_insertIndex _ _ _
    · exact BlockTree.added_setFields _ _ _ _
    · exact BlockTree.added_insertIndex _ _ _

/-- A call of `AcceptBlock` leaves the tree as it is and does not return true, or it adds the index
that `AddToBlockIndex` makes for the block. -/
lemma CBlock.acceptBlock_cases (hash hash9 : Bytes → UInt256) :
    ((block.acceptBlock hash hash9 node tree).1 = tree ∧
      (block.acceptBlock hash hash9 node tree).2 ≠ .ok true) ∨
    ∃ nFile nBlockPos pindexNew, block.getHash hash9 ∉ tree.mapBlockIndex ∧
      block.hashPrevBlock ∈ tree.mapBlockIndex ∧
      tree.newIndex hash hash9 node.env.fTestNet nFile nBlockPos block = some pindexNew ∧
      BlockTree.Added (block.getHash hash9) pindexNew tree
        (block.acceptBlock hash hash9 node tree).1 := by
  unfold CBlock.acceptBlock
  by_cases hnew : tree.mapBlockIndex.contains (block.getHash hash9) = true
  · rw [if_pos hnew]
    exact Or.inl ⟨rfl, nofun⟩
  · by_cases hprev : tree.mapBlockIndex.contains block.hashPrevBlock = true
    · rw [if_neg hnew, hprev, if_neg (by decide)]
      cases block.acceptRules node.env (tree.past block.hashPrevBlock) with
      | error e => exact Or.inl ⟨rfl, nofun⟩
      | ok fAccepted =>
        cases fAccepted with
        | false => exact Or.inl ⟨rfl, nofun⟩
        | true =>
          cases node.writeToDisk block with
          | none => exact Or.inl ⟨rfl, nofun⟩
          | some pos =>
            rcases block.addToTree_cases node tree hash hash9 pos.1 pos.2 with
              hsame | ⟨pindexNew, hindex, hadded⟩
            · exact Or.inl hsame
            · refine Or.inr ⟨pos.1, pos.2, pindexNew, ?_, ?_, hindex, hadded⟩
              · rwa [← Std.ExtTreeMap.contains_iff_mem]
              · rwa [← Std.ExtTreeMap.contains_iff_mem]
    · rw [if_neg hnew, Bool.eq_false_iff.mpr hprev, if_pos (by decide)]
      exact Or.inl ⟨rfl, nofun⟩

end Accept

/-! ## What the first part of `ProcessBlock` does -/

section Check

variable {hash hash9 : Bytes → UInt256} {node : BlockNode} {pblock : CBlock} {s : BlockStore}

/-- The tree that the rest of `ProcessBlock` goes on with: the proof-of-stake hash of the block is
recorded. -/
structure BlockTree.Checked (hash9 : Bytes → UInt256) (node : BlockNode) (pblock : CBlock)
    (tree tree' : BlockTree) : Prop where
  mapBlockIndex : tree'.mapBlockIndex = tree.mapBlockIndex
  setStakeSeen : tree'.setStakeSeen = tree.setStakeSeen
  stake : pblock.isProofOfStake = true → ∃ hashProofOfStake,
    node.proofOfStakeOf (node.fFullCheck pblock tree) pblock = some hashProofOfStake ∧
      tree'.mapProofOfStake =
        tree.mapProofOfStake.insertIfNew (pblock.getHash hash9) hashProofOfStake
  work : pblock.isProofOfStake = false → tree'.mapProofOfStake = tree.mapProofOfStake

/-- The rest goes on only with a block that is not known, and whose stake is not known unless an
orphan waits for it. -/
lemma checkStage_eq_ok {s₁ : BlockStore} (h : checkStage hash hash9 node pblock s = .ok s₁) :
    pblock.getHash hash9 ∉ s.tree.mapBlockIndex ∧
      pblock.getHash hash9 ∉ s.orphans.mapOrphanBlocks ∧
      (pblock.isProofOfStake = true → pblock.getProofOfStake ∈ s.tree.setStakeSeen →
        s.orphans.hasChild (pblock.getHash hash9) = true) ∧
      s₁.orphans = s.orphans ∧ s.tree.Checked hash9 node pblock s₁.tree := by
  unfold checkStage at h
  dsimp only at h
  split_ifs at h with hindex horphan hseen hprev hcheck hstake
  · refine ⟨fun hmem => hindex (Std.ExtTreeMap.contains_iff_mem.mpr hmem),
      fun hmem => horphan (Std.ExtTreeMap.contains_iff_mem.mpr hmem), fun hpos hmem => ?_, ?_⟩
    · simpa [hpos, hmem] using hseen
    · cases hproof : node.proofOfStakeOf (node.fFullCheck pblock s.tree) pblock with
      | none =>
        rw [hproof] at h
        cases h
      | some hashProofOfStake =>
        rw [hproof] at h
        cases h
        refine ⟨rfl, rfl, rfl, fun _ => ⟨_, hproof, rfl⟩, fun hwork => ?_⟩
        rw [hstake] at hwork
        cases hwork
  · cases h
    refine ⟨fun hmem => hindex (Std.ExtTreeMap.contains_iff_mem.mpr hmem),
      fun hmem => horphan (Std.ExtTreeMap.contains_iff_mem.mpr hmem), fun hpos => ?_, rfl, rfl,
      rfl, fun hpos => ?_, fun _ => rfl⟩
    · exact absurd hpos hstake
    · exact absurd hpos hstake

/-- What a call leaves that ends in the first part: the store as it is, or without the stake of a
duplicate whose parent is known. -/
lemma checkStage_eq_error {outcome : ProcessOutcome}
    (h : checkStage hash hash9 node pblock s = .error outcome) :
    outcome.result = .ok false ∧ (outcome.store = s ∨
      (pblock.getHash hash9 ∉ s.tree.mapBlockIndex ∧ pblock.isProofOfStake = true ∧
        pblock.getProofOfStake ∈ s.tree.setStakeSeen ∧
        s.tree.mapBlockIndex.contains pblock.hashPrevBlock = true ∧ outcome.strErr = "reorg" ∧
        outcome.store = { s with tree := { s.tree with
          setStakeSeen := s.tree.setStakeSeen.erase pblock.getProofOfStake } })) := by
  unfold checkStage at h
  dsimp only at h
  split_ifs at h with hindex horphan hseen hprev hcheck hstake
  · cases h
    exact ⟨rfl, Or.inl rfl⟩
  · cases h
    exact ⟨rfl, Or.inl rfl⟩
  · cases h
    rw [Bool.and_eq_true, Bool.and_eq_true, decide_eq_true_eq] at hseen
    exact ⟨rfl, Or.inr ⟨fun hmem => hindex (Std.ExtTreeMap.contains_iff_mem.mpr hmem),
      hseen.1.1, hseen.1.2, hprev, rfl, rfl⟩⟩
  · cases h
    exact ⟨rfl, Or.inl rfl⟩
  · cases h
    exact ⟨rfl, Or.inl rfl⟩
  · cases hproof : node.proofOfStakeOf (node.fFullCheck pblock s.tree) pblock with
    | none =>
      rw [hproof] at h
      cases h
      exact ⟨rfl, Or.inl rfl⟩
    | some hashProofOfStake =>
      rw [hproof] at h
      cases h

end Check

/-! ## What the second part keeps -/

section Keeps

variable {hash hash9 : Bytes → UInt256} {node : BlockNode} {motive : BlockTree → Prop}
  {P : CBlock → Prop} (hstep : ∀ (block : CBlock) (tree : BlockTree), P block → motive tree →
    motive (block.acceptBlock hash hash9 (node.accept tree block) tree).1)

include hstep

/-- What every call of `AcceptBlock` on a block of some kind keeps of the tree is kept by a turn of
the queue, if the orphans are of that kind. -/
lemma resolveBlocks_tree {s : BlockStore} (hs : motive s.tree)
    (horphans : ∀ mi ∈ s.orphans.mapOrphanBlocksByPrev, P mi.2) (hashPrev : UInt256) :
    motive (resolveBlocks hash hash9 node s hashPrev).1.tree ∧
      ∀ mi ∈ (resolveBlocks hash hash9 node s hashPrev).1.orphans.mapOrphanBlocksByPrev,
        P mi.2 := by
  have hfold : motive (foldThrow (tryOrphanBlock hash hash9 node) (s.orphans.children hashPrev)
      (s, [])).1.1.tree ∧
      ∀ mi ∈ (foldThrow (tryOrphanBlock hash hash9 node) (s.orphans.children hashPrev)
        (s, [])).1.1.orphans.mapOrphanBlocksByPrev, P mi.2 := by
    refine foldThrow_invariant (fun q : BlockStore × List UInt256 => motive q.1.tree ∧
      ∀ mi ∈ q.1.orphans.mapOrphanBlocksByPrev, P mi.2) ?_ ⟨hs, horphans⟩
    intro q mi hmi hq
    have haccept := hstep mi.2 q.1.tree (horphans mi (List.mem_of_mem_filter hmi)) hq.1
    unfold tryOrphanBlock
    rcases hresult : mi.2.acceptBlock hash hash9 (node.accept q.1.tree mi.2) q.1.tree with
      ⟨tree, e | accepted⟩
    · rw [hresult] at haccept
      exact ⟨haccept, hq.2⟩
    · rw [hresult] at haccept
      exact ⟨haccept, hq.2⟩
  unfold resolveBlocks
  rcases hresult : foldThrow (tryOrphanBlock hash hash9 node) (s.orphans.children hashPrev) (s, [])
    with ⟨⟨s₁, new⟩, _ | e⟩
  · rw [hresult] at hfold
    exact ⟨hfold.1, fun mi hmi => hfold.2 mi (List.mem_of_mem_filter hmi)⟩
  · rw [hresult] at hfold
    exact hfold

/-- What every call of `AcceptBlock` on a block of some kind keeps of the tree is kept by the part of
`ProcessBlock` after the check of the stake, if the block and the orphans are of that kind. -/
lemma placeBlock_tree {s : BlockStore} (hs : motive s.tree)
    (horphans : ∀ mi ∈ s.orphans.mapOrphanBlocksByPrev, P mi.2) {pblock : CBlock}
    (hblock : P pblock) :
    motive (placeBlock hash hash9 node pblock s).store.tree ∧
      ∀ mi ∈ (placeBlock hash hash9 node pblock s).store.orphans.mapOrphanBlocksByPrev,
        P mi.2 := by
  have haccept := hstep pblock s.tree hblock hs
  unfold placeBlock
  dsimp only
  split_ifs
  · exact ⟨hs, horphans⟩
  · refine ⟨hs, fun mi hmi => ?_⟩
    rcases List.mem_append.mp hmi with hold | hlast
    · exact horphans mi hold
    · rw [List.mem_singleton.mp hlast]
      exact hblock
  · rcases hresult : pblock.acceptBlock hash hash9 (node.accept s.tree pblock) s.tree with
      ⟨tree, e | _ | _⟩
    · rw [hresult] at haccept
      exact ⟨haccept, horphans⟩
    · rw [hresult] at haccept
      exact ⟨haccept, horphans⟩
    · rw [hresult] at haccept
      have hrun := run_invariant (fun p : BlockStore => motive p.tree ∧
          ∀ mi ∈ p.orphans.mapOrphanBlocksByPrev, P mi.2) (P := fun _ _ => True)
        (fun p hashPrev hp _ => resolveBlocks_tree hstep hp.1 hp.2 hashPrev)
        (s := { s with tree }) ⟨haccept, horphans⟩
        (along_of_forall (fun _ _ => trivial) (s.orphans.mapOrphanBlocksByPrev.length + 1)
          [pblock.getHash hash9] _)
      dsimp only
      rcases hdone : run (resolveBlocks hash hash9 node)
        (s.orphans.mapOrphanBlocksByPrev.length + 1) [pblock.getHash hash9] { s with tree } with
        ⟨p, left, _ | e⟩
      · rw [hdone] at hrun
        exact hrun
      · rw [hdone] at hrun
        exact hrun

end Keeps

/-! ## Runs -/

/-- A call of `ProcessBlock`. -/
structure BlockCall where
  node : BlockNode
  pblock : CBlock

/-- The outcome of a call. -/
def BlockCall.outcome (hash hash9 : Bytes → UInt256) (c : BlockCall) (s : BlockStore) :
    ProcessOutcome :=
  processBlock hash hash9 c.node c.pblock s

/-- The calls of `AcceptBlock` that a call makes are made on one of the two networks. -/
def BlockCall.OnNetwork (fTestNet : Bool) (c : BlockCall) : Prop :=
  ∀ tree block, (c.node.accept tree block).env.fTestNet = fTestNet

/-- The stores that calls of `ProcessBlock` lead to on a network, from the genesis block on; the last
call first.  The calls are admitted in the stores that they are made in. -/
inductive BlockRun (hash hash9 : Bytes → UInt256) (fTestNet : Bool) (genesis : CBlock)
    (admits : BlockCall → BlockStore → Prop) : List BlockCall → BlockStore → Prop
  | start (node : AcceptNode) (nFile nBlockPos : UInt32) :
      node.env.fTestNet = fTestNet → genesis.hashPrevBlock = 0 →
      BlockRun hash hash9 fTestNet genesis admits []
        { tree := (genesis.addToTree hash hash9 node nFile nBlockPos {}).1 }
  | call {calls : List BlockCall} {s : BlockStore} (c : BlockCall) :
      BlockRun hash hash9 fTestNet genesis admits calls s → c.OnNetwork fTestNet → admits c s →
      BlockRun hash hash9 fTestNet genesis admits (c :: calls) (c.outcome hash hash9 s).store

end HyperStake
