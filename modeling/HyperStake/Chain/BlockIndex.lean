import HyperStake.Chain.ConnectBlock

/-!
# The index of a block

`AddToBlockIndex` makes the index of a block that has been accepted, from its header, its position
on disk, the index of its parent and its stake.  `ConnectBlock` later changes the sums of money and
the tally, and the link to the next block is set when that becomes part of the best chain
(`IndexReached`).

The fields of an index from which its record is not made are determined by the others
(`IndexReached.sound`).  The two fields that are computed again whenever the index is loaded, the
trust of the chain and the checksum of the stake modifier, are left out.
-/

namespace HyperStake

/-- The memory of a block from its version to its nonce. -/
def CBlock.header (block : CBlock) : Bytes :=
  serializeInt32 block.nVersion ++ serializeUInt256 block.hashPrevBlock ++
    serializeUInt256 block.hashMerkleRoot ++ serializeUInt32 block.nTime ++
    serializeUInt32 block.nBits ++ serializeUInt32 block.nNonce

/-- `CBlock::GetHash`: the hash of the header. -/
def CBlock.getHash (hash9 : Bytes → UInt256) (block : CBlock) : UInt256 := hash9 block.header

/-- `CBlock::IsProofOfStake`: the second transaction is a coin stake. -/
def CBlock.isProofOfStake (block : CBlock) : Bool :=
  match block.vtx with
  | _ :: tx :: _ => tx.isCoinStake
  | _ => false

def BLOCK_PROOF_OF_STAKE : UInt32 := 1

def BLOCK_STAKE_ENTROPY : UInt32 := 2

def BLOCK_STAKE_MODIFIER : UInt32 := 4

namespace CBlockIndex

def isProofOfStake (pindex : CBlockIndex) : Bool := pindex.nFlags &&& BLOCK_PROOF_OF_STAKE != 0

/-- The constructor from a block and its position on disk. -/
def ofBlock (nFileIn nBlockPosIn : UInt32) (block : CBlock) : CBlockIndex :=
  let pindex : CBlockIndex :=
    { nFile := nFileIn, nBlockPos := nBlockPosIn, nVersion := block.nVersion
      hashMerkleRoot := block.hashMerkleRoot, nTime := block.nTime, nBits := block.nBits
      nNonce := block.nNonce }
  match block.vtx with
  | _ :: tx :: _ =>
    if tx.isCoinStake then
      { pindex with
        nFlags := pindex.nFlags ||| BLOCK_PROOF_OF_STAKE
        prevoutStake := (tx.vin.headD {}).prevout
        nStakeTime := tx.nTime }
    else pindex
  | _ => pindex

/-- `SetStakeEntropyBit`, or none if it fails. -/
def setStakeEntropyBit (nEntropyBit : UInt32) (pindex : CBlockIndex) : Option CBlockIndex :=
  if nEntropyBit > 1 then none
  else some { pindex with
    nFlags := pindex.nFlags ||| (if nEntropyBit != 0 then BLOCK_STAKE_ENTROPY else 0) }

/-- The part of `AddToBlockIndex` that records the proof-of-stake hash of a block, or none if the
block has one that is not known. -/
def recordProofOfStake (found : Option UInt256) (pindex : CBlockIndex) : Option CBlockIndex :=
  if pindex.isProofOfStake then found.map fun hashProofOfStake => { pindex with hashProofOfStake }
  else some pindex

def setStakeModifier (nModifier : UInt64) (fGeneratedStakeModifier : Bool)
    (pindex : CBlockIndex) : CBlockIndex :=
  { pindex with
    nStakeModifier := nModifier
    nFlags := if fGeneratedStakeModifier then pindex.nFlags ||| BLOCK_STAKE_MODIFIER
      else pindex.nFlags }

end CBlockIndex

/-- The parts of the node that `AddToBlockIndex` asks about the stake of a block. -/
structure StakeRules where
  getStakeEntropyBit : CBlock → UInt32 → UInt32
  mapProofOfStake : UInt256 → Option UInt256
  computeNextStakeModifier : Option CBlockIndex → Option (UInt64 × Bool)
  /-- `CheckStakeModifierCheckpoints`, on the checksum of an index. -/
  checkStakeModifierCheckpoints : CBlockIndex → Bool

/-- The index that `CBlock::AddToBlockIndex` adds for a block, or none if it returns false before
it does. -/
def CBlock.addToBlockIndex (hash9 : Bytes → UInt256) (rules : StakeRules)
    (mapBlockIndex : Std.ExtTreeMap UInt256 CBlockIndex) (nFile nBlockPos : UInt32)
    (block : CBlock) : Option CBlockIndex := do
  let hash := block.getHash hash9
  guard (!mapBlockIndex.contains hash)
  let pindexNew := { CBlockIndex.ofBlock nFile nBlockPos block with phashBlock := hash }
  let pindexNew := match mapBlockIndex[block.hashPrevBlock]? with
    | some pprev => { pindexNew with pprev := block.hashPrevBlock, nHeight := pprev.nHeight + 1 }
    | none => pindexNew
  let pindexNew ← pindexNew.setStakeEntropyBit
    (rules.getStakeEntropyBit block pindexNew.nHeight.toUInt32)
  let pindexNew ← pindexNew.recordProofOfStake (rules.mapProofOfStake hash)
  let (nStakeModifier, fGeneratedStakeModifier) ←
    rules.computeNextStakeModifier mapBlockIndex[block.hashPrevBlock]?
  let pindexNew := pindexNew.setStakeModifier nStakeModifier fGeneratedStakeModifier
  guard (rules.checkStakeModifierCheckpoints pindexNew)
  return pindexNew

/-! ## The indices of a running node -/

/-- The indices of a node: they are made by `AddToBlockIndex` for a block whose parent is known,
unless it is the first one, they are changed by `ConnectBlock`, and they are linked to the next
block when that becomes part of the best chain.  The hash zero stands for the null pointer, and no
block has it. -/
inductive IndexReached (hash hash9 : Bytes → UInt256) : CBlockIndex → Prop
  | add (rules : StakeRules) (mapBlockIndex : Std.ExtTreeMap UInt256 CBlockIndex)
      (nFile nBlockPos : UInt32) (block : CBlock) {pindex : CBlockIndex} :
      block.hashPrevBlock = 0 ∨ mapBlockIndex.contains block.hashPrevBlock →
      block.getHash hash9 ≠ 0 →
      block.addToBlockIndex hash9 rules mapBlockIndex nFile nBlockPos = some pindex →
      IndexReached hash hash9 pindex
  | connect {Db : Type} (node : Node Db) (db : Db) (block : CBlock) (pprev : Option CBlockIndex)
      (fJustCheck : Bool) (r : Registry) {pindex : CBlockIndex} :
      IndexReached hash hash9 pindex →
      IndexReached hash hash9
        (connectBlock hash node db block pindex pprev fJustCheck r).pindex
  | link (pnext : UInt256) {pindex : CBlockIndex} :
      IndexReached hash hash9 pindex → IndexReached hash hash9 { pindex with pnext }

/-- The fields of an index that are not in its record are determined by those that are. -/
structure CBlockIndex.Sound (hash9 : Bytes → UInt256) (pindex : CBlockIndex) : Prop where
  hash_ne_zero : pindex.phashBlock ≠ 0
  hash_eq : pindex.phashBlock = CBlock.getHash hash9
    { nVersion := pindex.nVersion, hashPrevBlock := pindex.pprev
      hashMerkleRoot := pindex.hashMerkleRoot, nTime := pindex.nTime, nBits := pindex.nBits
      nNonce := pindex.nNonce }
  work : pindex.isProofOfStake = false →
    pindex.prevoutStake = {} ∧ pindex.nStakeTime = 0 ∧ pindex.hashProofOfStake = 0

/-! ## What the node does to an index -/

/-- Setting other flags keeps the one of a proof-of-stake block. -/
lemma or_and_proofOfStake {a b : UInt32} (h : b &&& BLOCK_PROOF_OF_STAKE = 0) :
    (a ||| b) &&& BLOCK_PROOF_OF_STAKE = a &&& BLOCK_PROOF_OF_STAKE := by
  have hb : b.toBitVec &&& BLOCK_PROOF_OF_STAKE.toBitVec = 0#32 := congrArg UInt32.toBitVec h
  apply UInt32.toBitVec_inj.mp
  rw [UInt32.toBitVec_and, UInt32.toBitVec_or, BitVec.and_or_distrib_right, hb, BitVec.or_zero,
    UInt32.toBitVec_and]

namespace CBlockIndex

/-- The fields that an index has from its block and its parent, and the stake of a block without
one. -/
structure MadeFrom (block : CBlock) (phashBlock pprev : UInt256) (pindex : CBlockIndex) : Prop where
  phashBlock : pindex.phashBlock = phashBlock
  pprev : pindex.pprev = pprev
  nVersion : pindex.nVersion = block.nVersion
  hashMerkleRoot : pindex.hashMerkleRoot = block.hashMerkleRoot
  nTime : pindex.nTime = block.nTime
  nBits : pindex.nBits = block.nBits
  nNonce : pindex.nNonce = block.nNonce
  work : pindex.isProofOfStake = false →
    pindex.prevoutStake = {} ∧ pindex.nStakeTime = 0 ∧ pindex.hashProofOfStake = 0

/-- The constructor from a block. -/
lemma madeFrom_ofBlock (nFile nBlockPos : UInt32) (block : CBlock) :
    MadeFrom block 0 0 (ofBlock nFile nBlockPos block) := by
  rw [ofBlock]
  rcases block.vtx with _ | ⟨tx₀, _ | ⟨tx, vtx⟩⟩
  · exact ⟨rfl, rfl, rfl, rfl, rfl, rfl, rfl, fun _ => ⟨rfl, rfl, rfl⟩⟩
  · exact ⟨rfl, rfl, rfl, rfl, rfl, rfl, rfl, fun _ => ⟨rfl, rfl, rfl⟩⟩
  · dsimp only
    split_ifs
    · refine ⟨rfl, rfl, rfl, rfl, rfl, rfl, rfl, fun hwork => ?_⟩
      have hstake : (((0 : UInt32) ||| BLOCK_PROOF_OF_STAKE) &&& BLOCK_PROOF_OF_STAKE != 0)
          = true := by decide
      cases hstake.symm.trans hwork
    · exact ⟨rfl, rfl, rfl, rfl, rfl, rfl, rfl, fun _ => ⟨rfl, rfl, rfl⟩⟩

variable {block : CBlock} {phashBlock pprev : UInt256} {pindex : CBlockIndex}

section

variable (h : MadeFrom block phashBlock pprev pindex)

include h

/-- Setting flags other than the one of a proof-of-stake block. -/
lemma MadeFrom.setFlags {nFlags : UInt32}
    (hflags : nFlags &&& BLOCK_PROOF_OF_STAKE = pindex.nFlags &&& BLOCK_PROOF_OF_STAKE) :
    MadeFrom block phashBlock pprev { pindex with nFlags } := by
  refine ⟨h.1, h.2, h.3, h.4, h.5, h.6, h.7, fun hwork => h.work ?_⟩
  simp only [isProofOfStake, hflags] at hwork ⊢
  exact hwork

/-- Setting the entropy bit. -/
lemma MadeFrom.setStakeEntropyBit {nEntropyBit : UInt32} {pindex' : CBlockIndex}
    (hset : pindex.setStakeEntropyBit nEntropyBit = some pindex') :
    MadeFrom block phashBlock pprev pindex' := by
  rw [CBlockIndex.setStakeEntropyBit] at hset
  split_ifs at hset
  · rw [← Option.some.inj hset]
    exact h.setFlags (or_and_proofOfStake (by decide))
  · rw [← Option.some.inj hset]
    exact h.setFlags (or_and_proofOfStake (by decide))

/-- Recording the hash of a stake, for a proof-of-stake block only. -/
lemma MadeFrom.recordProofOfStake {found : Option UInt256} {pindex' : CBlockIndex}
    (hrecord : pindex.recordProofOfStake found = some pindex') :
    MadeFrom block phashBlock pprev pindex' := by
  rw [CBlockIndex.recordProofOfStake] at hrecord
  split_ifs at hrecord with hpos
  · obtain ⟨hashProofOfStake, -, rfl⟩ := Option.map_eq_some_iff.mp hrecord
    obtain ⟨h1, h2, h3, h4, h5, h6, h7, -⟩ := h
    refine ⟨h1, h2, h3, h4, h5, h6, h7, fun hwork => ?_⟩
    cases hpos.symm.trans hwork
  · rwa [← Option.some.inj hrecord]

/-- Setting the stake modifier. -/
lemma MadeFrom.setStakeModifier (nModifier : UInt64) (fGeneratedStakeModifier : Bool) :
    MadeFrom block phashBlock pprev
      (pindex.setStakeModifier nModifier fGeneratedStakeModifier) := by
  have hflags : (if fGeneratedStakeModifier then pindex.nFlags ||| BLOCK_STAKE_MODIFIER
      else pindex.nFlags) &&& BLOCK_PROOF_OF_STAKE = pindex.nFlags &&& BLOCK_PROOF_OF_STAKE := by
    split_ifs
    · exact or_and_proofOfStake (by decide)
    · rfl
  obtain ⟨h1, h2, h3, h4, h5, h6, h7, hwork⟩ := h.setFlags hflags
  exact ⟨h1, h2, h3, h4, h5, h6, h7, hwork⟩

end

/-- The index that `AddToBlockIndex` adds. -/
lemma madeFrom_addToBlockIndex {hash9 : Bytes → UInt256} {rules : StakeRules}
    {mapBlockIndex : Std.ExtTreeMap UInt256 CBlockIndex} {nFile nBlockPos : UInt32}
    (hparent : block.hashPrevBlock = 0 ∨ mapBlockIndex.contains block.hashPrevBlock)
    (h : block.addToBlockIndex hash9 rules mapBlockIndex nFile nBlockPos = some pindex) :
    MadeFrom block (block.getHash hash9) block.hashPrevBlock pindex := by
  simp only [CBlock.addToBlockIndex, Option.bind_eq_bind, Option.bind_eq_some_iff] at h
  obtain ⟨-, -, pindexBit, hbit, pindexStake, hstake, ⟨nStakeModifier, fGenerated⟩, -, -, -,
    hpindex⟩ := h
  cases hpindex
  apply MadeFrom.setStakeModifier
  -- the links to the parent
  have hlinked := madeFrom_ofBlock nFile nBlockPos block
  have hbit' : MadeFrom block (block.getHash hash9) block.hashPrevBlock pindexBit := by
    refine MadeFrom.setStakeEntropyBit ?_ hbit
    cases hprev : mapBlockIndex[block.hashPrevBlock]? with
    | some pprev =>
      exact ⟨rfl, rfl, hlinked.3, hlinked.4, hlinked.5, hlinked.6, hlinked.7, hlinked.8⟩
    | none =>
      have hzero : block.hashPrevBlock = 0 := by
        refine hparent.resolve_right fun hmem => ?_
        rw [Std.ExtTreeMap.contains_eq_isSome_getElem?, hprev] at hmem
        cases hmem
      exact ⟨rfl, hlinked.2.trans hzero.symm, hlinked.3, hlinked.4, hlinked.5, hlinked.6,
        hlinked.7, hlinked.8⟩
  exact hbit'.recordProofOfStake hstake

/-- An index that is made from a block with a hash is sound. -/
lemma MadeFrom.sound {hash9 : Bytes → UInt256}
    (h : MadeFrom block (block.getHash hash9) block.hashPrevBlock pindex)
    (hne : block.getHash hash9 ≠ 0) : pindex.Sound hash9 := by
  refine ⟨h.phashBlock.trans_ne hne, ?_, h.work⟩
  rw [h.phashBlock, h.pprev, h.nVersion, h.hashMerkleRoot, h.nTime, h.nBits, h.nNonce]
  rfl

end CBlockIndex

/-- Of the index, `ConnectBlock` changes only the sums of money and the tally. -/
lemma connectBlock_pindex {hash : Bytes → UInt256} {Db : Type} (node : Node Db) (db : Db)
    (block : CBlock) (pindex : CBlockIndex) (pprev : Option CBlockIndex) (fJustCheck : Bool)
    (r : Registry) :
    ∃ nMint nMoneySupply tally,
      (connectBlock hash node db block pindex pprev fJustCheck r).pindex
        = { pindex with nMint, nMoneySupply, tally } := by
  rw [connectBlock]
  cases connectTransactions hash node db block pindex fJustCheck with
  | error exit => exact ⟨_, _, _, rfl⟩
  | ok s =>
    dsimp only
    split_ifs
    · exact ⟨_, _, _, rfl⟩
    · rcases registerProposals hash node s.vQueuedProposals block.vtx r with ⟨_ | e, r'⟩
      · dsimp only
        rw [connectVotes]
        cases tallyOf node (trackMoney pindex pprev s) pprev r' with
        | error e => exact ⟨_, _, _, rfl⟩
        | ok tally =>
          dsimp only
          split
          · exact ⟨_, _, _, rfl⟩
          · exact ⟨_, _, _, rfl⟩
      · exact ⟨_, _, _, rfl⟩

/-- Every index of a node is sound. -/
lemma IndexReached.sound {hash hash9 : Bytes → UInt256} {pindex : CBlockIndex}
    (h : IndexReached hash hash9 pindex) : pindex.Sound hash9 := by
  induction h with
  | add rules mapBlockIndex nFile nBlockPos block hparent hne hadd =>
    exact (CBlockIndex.madeFrom_addToBlockIndex hparent hadd).sound hne
  | connect node db block pprev fJustCheck r _ ih =>
    obtain ⟨nMint, nMoneySupply, tally, heq⟩ :=
      connectBlock_pindex node db block _ pprev fJustCheck r
    rw [heq]
    exact ⟨ih.1, ih.2, ih.3⟩
  | link pnext _ ih => exact ⟨ih.1, ih.2, ih.3⟩

end HyperStake
