import HyperStake.Chain.OrphanBlocks

/-!
# Duplicate stakes

`ProcessBlock` refuses a proof-of-stake block whose stake is that of a block in the index, unless an
orphan waits for it.  But if the parent of the block is known, then the refusal also erases the stake
from the set of those seen, so that the block is accepted when it comes again
(`not_protected_resubmitted`).

In every run a stake that is in the index but not in the set has been erased by such a refusal since
its block was added (`BlockRun.seen`).  The blocks that are accepted from the store of orphans are not
checked against the set when they are accepted; nothing is said of them.
-/

namespace HyperStake

open WorkQueue

section Seen

variable {hash hash9 : Bytes → UInt256} {fTestNet : Bool} {genesis : CBlock}

/-! ## The set of the stakes that are seen -/

/-- The stakes of a later tree: those seen stay seen, and a stake in the index that is not seen was
in the index before. -/
structure BlockTree.Grows (tree tree' : BlockTree) : Prop where
  seen : tree.setStakeSeen ⊆ tree'.setStakeSeen
  indices : ∀ (k : UInt256) (p : CBlockIndex), tree'.mapBlockIndex[k]? = some p →
    p.isProofOfStake = true → p.stake ∈ tree'.setStakeSeen ∨
      ∃ q, tree.mapBlockIndex[k]? = some q ∧ q.isProofOfStake = true ∧ q.stake = p.stake

namespace BlockTree.Grows

variable {tree tree' tree'' : BlockTree}

lemma refl (tree : BlockTree) : tree.Grows tree :=
  ⟨fun _ h => h, fun _ p hget hpos => Or.inr ⟨p, hget, hpos, rfl⟩⟩

lemma trans (h : tree.Grows tree') (h' : tree'.Grows tree'') : tree.Grows tree'' := by
  refine ⟨h.seen.trans h'.seen, fun k p hget hpos => ?_⟩
  rcases h'.indices k p hget hpos with hseen | ⟨q, hq, hposq, heq⟩
  · exact Or.inl hseen
  · rcases h.indices k q hq hposq with hseen | ⟨q', hq', hposq', heq'⟩
    · rw [← heq]
      exact Or.inl (h'.seen hseen)
    · exact Or.inr ⟨q', hq', hposq', heq'.trans heq⟩

end BlockTree.Grows

/-- Connecting and disconnecting blocks does not change the stake of an index. -/
lemma CBlockIndex.SameNode.stake_eq {p q : CBlockIndex} (h : p.SameNode q) :
    q.isProofOfStake = p.isProofOfStake ∧ q.stake = p.stake := by
  obtain ⟨fields, rfl⟩ := h
  exact ⟨rfl, rfl⟩

/-- Adding the index of a block. -/
lemma BlockTree.Added.grows {h : UInt256} {pindexNew : CBlockIndex} {tree tree' : BlockTree}
    (hadded : Added h pindexNew tree tree') : tree.Grows tree' := by
  have hseen : tree.setStakeSeen ⊆ tree'.setStakeSeen := by
    rw [hadded.setStakeSeen, insertIndex]
    dsimp only
    split_ifs
    · exact Finset.subset_insert _ _
    · exact fun _ hmem => hmem
  refine ⟨hseen, fun k p hget hpos => ?_⟩
  rcases rel_cases (hadded.indices k) with ⟨-, hnone⟩ | ⟨q, p', hq, hp', hsame⟩
  · rw [hget] at hnone
    cases hnone
  · rw [hget] at hp'
    cases hp'
    obtain ⟨hkind, hstake⟩ := hsame.stake_eq
    rw [hkind] at hpos
    split_ifs at hq with heq
    · -- the index of the block itself
      cases hq
      rw [hstake, hadded.setStakeSeen, insertIndex, if_pos hpos]
      exact Or.inl (Finset.mem_insert_self _ _)
    · exact Or.inr ⟨q, hq, hpos, hstake.symm⟩

lemma CBlock.grows_acceptBlock (hash hash9 : Bytes → UInt256) (node : AcceptNode) (block : CBlock)
    (tree : BlockTree) :
    tree.Grows (block.acceptBlock hash hash9 node tree).1 := by
  rcases block.acceptBlock_cases node tree hash hash9 with ⟨heq, -⟩ | ⟨_, _, _, -, -, -, hadded⟩
  · rw [heq]
    exact .refl tree
  · exact hadded.grows

/-- The part of `ProcessBlock` after the check of the stake. -/
lemma grows_placeBlock (node : BlockNode) (pblock : CBlock) (s : BlockStore) :
    s.tree.Grows (placeBlock hash hash9 node pblock s).store.tree := by
  have hstep : ∀ (block : CBlock) (tree : BlockTree), True → s.tree.Grows tree →
      s.tree.Grows (block.acceptBlock hash hash9 (node.accept tree block) tree).1 :=
    fun block tree _ htree => htree.trans (block.grows_acceptBlock hash hash9 _ tree)
  exact (placeBlock_tree hstep (.refl _) (fun _ _ => trivial) trivial).1

/-! ## Runs -/

/-- Since a block is in the index, a call has refused a duplicate of a stake, and has erased the
stake from the set. -/
def StakeErased (hash hash9 : Bytes → UInt256) (fTestNet : Bool) (genesis : CBlock)
    (calls : List BlockCall) (stake : Stake) (k : UInt256) : Prop :=
  ∃ later d earlier s, calls = later ++ d :: earlier ∧
    BlockRun hash hash9 fTestNet genesis (fun _ _ => True) earlier s ∧ k ∈ s.tree.mapBlockIndex ∧
    d.pblock.getProofOfStake = stake ∧ (d.outcome hash hash9 s).strErr = "reorg"

variable {calls : List BlockCall}

lemma StakeErased.cons {stake : Stake} {k : UInt256}
    (h : StakeErased hash hash9 fTestNet genesis calls stake k) (c : BlockCall) :
    StakeErased hash hash9 fTestNet genesis (c :: calls) stake k := by
  obtain ⟨later, d, earlier, s, rfl, hrest⟩ := h
  exact ⟨c :: later, d, earlier, s, rfl, hrest⟩

/-- Every stake in the index is seen, or it has been erased since. -/
def SeenOrErased (hash hash9 : Bytes → UInt256) (fTestNet : Bool) (genesis : CBlock)
    (calls : List BlockCall) (tree : BlockTree) : Prop :=
  ∀ (k : UInt256) (p : CBlockIndex), tree.mapBlockIndex[k]? = some p → p.isProofOfStake = true →
    p.stake ∈ tree.setStakeSeen ∨ StakeErased hash hash9 fTestNet genesis calls p.stake k

/-- A later tree. -/
lemma SeenOrErased.grows {tree tree' : BlockTree}
    (h : SeenOrErased hash hash9 fTestNet genesis calls tree) (hgrows : tree.Grows tree') :
    SeenOrErased hash hash9 fTestNet genesis calls tree' := by
  intro k p hget hpos
  rcases hgrows.indices k p hget hpos with hseen | ⟨q, hq, hposq, heq⟩
  · exact Or.inl hseen
  · rw [← heq]
    exact (h k q hq hposq).imp_left fun hseen => hgrows.seen hseen

/-- A call of `ProcessBlock`. -/
lemma SeenOrErased.outcome {s : BlockStore}
    (hrun : BlockRun hash hash9 fTestNet genesis (fun _ _ => True) calls s)
    (h : SeenOrErased hash hash9 fTestNet genesis calls s.tree) (c : BlockCall) :
    SeenOrErased hash hash9 fTestNet genesis (c :: calls) (c.outcome hash hash9 s).store.tree := by
  have hcons : SeenOrErased hash hash9 fTestNet genesis (c :: calls) s.tree := fun k p hget hpos =>
    (h k p hget hpos).imp_right fun herased => herased.cons c
  cases hcheck : checkStage hash hash9 c.node c.pblock s with
  | error outcome =>
    have houtcome : c.outcome hash hash9 s = outcome := by
      rw [BlockCall.outcome, processBlock, hcheck]
    rw [houtcome]
    rcases (checkStage_eq_error hcheck).2 with hstore | ⟨-, -, -, -, hreorg, hstore⟩
    · rw [hstore]
      exact hcons
    · rw [hstore]
      intro k p hget hpos
      -- the stake of the refused block has been erased just now
      by_cases heq : p.stake = c.pblock.getProofOfStake
      · refine Or.inr ⟨[], c, calls, s, rfl, hrun, ?_, heq.symm, ?_⟩
        · exact MapLoop.mem_iff.mpr ⟨p, hget⟩
        · rw [houtcome]
          exact hreorg
      · exact (hcons k p hget hpos).imp_left fun hseen => Finset.mem_erase.mpr ⟨heq, hseen⟩
  | ok s₁ =>
    have houtcome : c.outcome hash hash9 s = placeBlock hash hash9 c.node c.pblock s₁ := by
      rw [BlockCall.outcome, processBlock, hcheck]
    obtain ⟨-, -, -, -, hchecked⟩ := checkStage_eq_ok hcheck
    have hs₁ : SeenOrErased hash hash9 fTestNet genesis (c :: calls) s₁.tree := by
      intro k p hget hpos
      rw [hchecked.mapBlockIndex] at hget
      rw [hchecked.setStakeSeen]
      exact hcons k p hget hpos
    rw [houtcome]
    exact hs₁.grows (grows_placeBlock c.node c.pblock s₁)

/-- In every run every stake in the index is seen, or it has been erased since. -/
lemma BlockRun.seen {s : BlockStore}
    (hrun : BlockRun hash hash9 fTestNet genesis (fun _ _ => True) calls s) :
    SeenOrErased hash hash9 fTestNet genesis calls s.tree := by
  induction hrun with
  | start node nFile nBlockPos _ _ =>
    have hempty : SeenOrErased hash hash9 fTestNet genesis [] {} := by
      intro k p hget
      simp at hget
    apply hempty.grows
    rcases genesis.addToTree_cases node {} hash hash9 nFile nBlockPos with ⟨heq, -⟩ | ⟨_, -, hadded⟩
    · dsimp only
      rw [heq]
      exact .refl _
    · exact hadded.grows
  | call c hrun _ _ ih => exact ih.outcome hrun c

/-- When a call of `ProcessBlock` adds the index of its block, and the stake of the block is that of
another one in the index, then an orphan waits for the block, or a duplicate of the stake has been
refused since the other one is in the index, and its stake erased.  The refusal of a duplicate whose
parent is not known changes nothing, however often it comes. -/
theorem BlockRun.duplicateStake {calls : List BlockCall} {s : BlockStore}
    (hrun : BlockRun hash hash9 fTestNet genesis (fun _ _ => True) calls s) (c : BlockCall)
    (hpos : c.pblock.isProofOfStake = true) :
    (∀ (k : UInt256) (p : CBlockIndex), s.tree.mapBlockIndex[k]? = some p →
      p.isProofOfStake = true → p.stake = c.pblock.getProofOfStake →
      c.pblock.getHash hash9 ∉ s.tree.mapBlockIndex →
      c.pblock.getHash hash9 ∈ (c.outcome hash hash9 s).store.tree.mapBlockIndex →
        s.orphans.hasChild (c.pblock.getHash hash9) = true ∨
          StakeErased hash hash9 fTestNet genesis calls c.pblock.getProofOfStake k) ∧
    (c.pblock.getProofOfStake ∈ s.tree.setStakeSeen →
      s.orphans.hasChild (c.pblock.getHash hash9) = false →
      c.pblock.hashPrevBlock ∉ s.tree.mapBlockIndex →
        (c.outcome hash hash9 s).result = .ok false ∧ (c.outcome hash hash9 s).store = s) := by
  cases hcheck : checkStage hash hash9 c.node c.pblock s with
  | error outcome =>
    have houtcome : c.outcome hash hash9 s = outcome := by
      rw [BlockCall.outcome, processBlock, hcheck]
    rw [houtcome]
    obtain ⟨hresult, hstore⟩ := checkStage_eq_error hcheck
    constructor
    · intro k p _ _ _ hnew hadded
      -- the call adds no index
      rcases hstore with hstore | ⟨-, -, -, -, -, hstore⟩
      · rw [hstore] at hadded
        exact absurd hadded hnew
      · rw [hstore] at hadded
        exact absurd hadded hnew
    · intro _ _ hprev
      refine ⟨hresult, hstore.resolve_right ?_⟩
      rintro ⟨-, -, -, hknown, -⟩
      exact hprev (Std.ExtTreeMap.contains_iff_mem.mp hknown)
  | ok s₁ =>
    obtain ⟨-, -, hchild, -, -⟩ := checkStage_eq_ok hcheck
    constructor
    · intro k p hget hposp hstake _ _
      rw [← hstake] at hchild ⊢
      exact (hrun.seen k p hget hposp).imp_left (hchild hpos)
    · intro hseen hnone _
      rw [hchild hpos hseen] at hnone
      cases hnone

end Seen

/-! ## A block that comes again -/

/-- A first block, and a second one with the same stake. -/
def firstStakeBlock : CBlock := testStakeBlock 1 2 1424304830 0 1

def secondStakeBlock : CBlock := testStakeBlock 1 3 1424304830 0 1

/-- The first block is accepted, and the second one is refused. -/
def resubmittedBlocks : List CBlock := [secondStakeBlock, firstStakeBlock]

/-- The index of the first block has the stake of the second one. -/
lemma exists_index_firstStakeBlock : ∃ p,
    (testStore resubmittedBlocks).tree.mapBlockIndex[(2 : UInt256)]? = some p ∧
      p.isProofOfStake = true ∧ p.stake = secondStakeBlock.getProofOfStake := by
  have hindex : ((testStore resubmittedBlocks).tree.mapBlockIndex[(2 : UInt256)]?.map fun p =>
      (p.isProofOfStake, p.stake)) = some (true, secondStakeBlock.getProofOfStake) := by
    decide +kernel
  obtain ⟨p, hget, hp⟩ := Option.map_eq_some_iff.mp hindex
  exact ⟨p, hget, congrArg Prod.fst hp, congrArg Prod.snd hp⟩

/-- The second block is added when it comes again. -/
lemma resubmitted_added : (3 : UInt256) ∉ (testStore resubmittedBlocks).tree.mapBlockIndex ∧
    (3 : UInt256) ∈ ((testCall secondStakeBlock).outcome sampleHash nonceHash
      (testStore resubmittedBlocks)).store.tree.mapBlockIndex := by
  decide +kernel

/-- The stake of the first block has been erased when the second one comes again. -/
theorem duplicateStake_resubmitted :
    (testStore resubmittedBlocks).orphans.hasChild 3 = true ∨
      StakeErased sampleHash nonceHash true testGenesis (resubmittedBlocks.map testCall)
        secondStakeBlock.getProofOfStake 2 := by
  have hrun : BlockRun sampleHash nonceHash true testGenesis (fun _ _ => True)
      (resubmittedBlocks.map testCall) (testStore resubmittedBlocks) := blockRun_testStore fun _ _ _ => trivial
  obtain ⟨p, hget, hpos, hstake⟩ := exists_index_firstStakeBlock
  exact (hrun.duplicateStake (testCall secondStakeBlock) (by decide)).1 2 p hget hpos hstake
    resubmitted_added.1 resubmitted_added.2

/-- A block with the stake of another one is refused, and accepted when it comes again, although no
orphan waits for it. -/
theorem not_protected_resubmitted : ¬ ∀ (hash hash9 : Bytes → UInt256) (fTestNet : Bool)
    (genesis : CBlock) (calls : List BlockCall) (s : BlockStore) (c : BlockCall) (k : UInt256) (p : CBlockIndex),
    BlockRun hash hash9 fTestNet genesis (fun _ _ => True) calls s →
      s.tree.mapBlockIndex[k]? = some p →
      p.isProofOfStake = true → p.stake = c.pblock.getProofOfStake →
      c.pblock.getHash hash9 ∉ s.tree.mapBlockIndex →
      c.pblock.getHash hash9 ∈ (c.outcome hash hash9 s).store.tree.mapBlockIndex →
        s.orphans.hasChild (c.pblock.getHash hash9) = true := by
  intro hprotected
  have hrun : BlockRun sampleHash nonceHash true testGenesis (fun _ _ => True)
      (resubmittedBlocks.map testCall) (testStore resubmittedBlocks) := blockRun_testStore fun _ _ _ => trivial
  obtain ⟨p, hget, hpos, hstake⟩ := exists_index_firstStakeBlock
  have hchild := hprotected sampleHash nonceHash true testGenesis _
    (testStore resubmittedBlocks) (testCall secondStakeBlock) 2 p hrun hget hpos hstake resubmitted_added.1 resubmitted_added.2
  have hnone : (testStore resubmittedBlocks).orphans.hasChild 3 = false := by decide +kernel
  cases hchild.symm.trans hnone

end HyperStake
