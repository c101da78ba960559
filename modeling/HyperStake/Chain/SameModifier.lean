import HyperStake.Chain.Branches
import HyperStake.Chain.OrphanBlocks

/-!
# The modifiers of a branch

`AddToBlockIndex` computes the stake modifier of a block from the indices before it.  In every run
each index of the tree is what it would be if it were made again from its block, the recorded
proof-of-stake hash and the indices before it (`BlockTree.Determined`).  So two nodes that have
accepted the same branch and recorded the same proof-of-stake hashes for its blocks have the same
modifiers, flags and checksums on it (`stakeModifier_eq_of_branch`).

`ProcessBlock` records the hash zero for a block whose kernel it does not check, and it checks the
kernel of every orphan.  So the order in which the blocks come changes the checksums
(`not_sameModifier_early`).
-/

namespace HyperStake

open LinkWalk WorkQueue

namespace BlockTree

variable {tree tree' : BlockTree} {k : UInt256}

/-- The modifier after a block depends only on the indices before it, if they are the same for the
computation. -/
lemma computeNextStakeModifier_eq (hash : Bytes → UInt256) (fTestNet : Bool) (hroot : tree.Rooted)
    (hroot' : tree'.Rooted) (hk : k = 0 ∨ k ∈ tree.mapBlockIndex)
    (hk' : k = 0 ∨ k ∈ tree'.mapBlockIndex)
    (hpast : List.Forall₂ CBlockIndex.SameStake (tree.past k) (tree'.past k)) :
    computeNextStakeModifier hash fTestNet tree.find (tree.past k) =
      computeNextStakeModifier hash fTestNet tree'.find (tree'.past k) := by
  apply computeNextStakeModifier_congr hpast
  intro pindex hmem
  obtain ⟨i, hi, heq⟩ := List.getElem_of_mem hmem
  have hi' : i < (tree'.past k).length := hpast.length_eq ▸ hi
  have hsame := hpast.get hi hi'
  rw [List.get_eq_getElem, List.get_eq_getElem, heq] at hsame
  have hfound := hroot.find_of_mem_past hk hmem
  have hfound' := hroot'.find_of_mem_past hk' (List.getElem_mem hi')
  rw [SameFound, hfound, hsame.phashBlock, hfound']
  exact .some hsame

end BlockTree

/-! ## A branch -/

/-- A branch: the hashes of its blocks, the blocks, and the proof-of-stake hashes of those with
proof-of-stake. -/
structure Branch where
  hashes : Set UInt256
  block : UInt256 → CBlock
  hashProofOfStake : UInt256 → UInt256

/-- A block that has the hash of a block of the branch is that block. -/
def CBlock.OnBranch (hash9 : Bytes → UInt256) (branch : Branch) (block : CBlock) : Prop :=
  block.getHash hash9 ∈ branch.hashes → block = branch.block (block.getHash hash9)

section Determined

variable (hash hash9 : Bytes → UInt256) (fTestNet : Bool) (branch : Branch)

/-- An index is what it would be if it were made again from its block and the indices before it. -/
structure BlockTree.MadeFrom (tree : BlockTree) (h : UInt256) (p : CBlockIndex) : Prop where
  pprev : p.pprev = (branch.block h).hashPrevBlock
  nTime : p.nTime = (branch.block h).nTime
  hashProofOfStake : p.hashProofOfStake =
    if (branch.block h).isProofOfStake then branch.hashProofOfStake h else 0
  modifier : ∃ fGeneratedStakeModifier,
    computeNextStakeModifier hash fTestNet tree.find (tree.past p.pprev) =
        some (p.nStakeModifier, fGeneratedStakeModifier) ∧
      p.nFlags = (branch.block h).indexFlags hash9 fGeneratedStakeModifier

/-- The indices of a branch are what they would be if they were made again, and the proof-of-stake
hashes that are recorded are those of the branch. -/
structure BlockTree.Determined (tree : BlockTree) : Prop where
  rooted : tree.Rooted
  recorded : ∀ h ∈ branch.hashes, ∀ hashProofOfStake : UInt256,
    tree.mapProofOfStake[h]? = some hashProofOfStake →
      hashProofOfStake = branch.hashProofOfStake h
  indices : ∀ h ∈ branch.hashes, ∀ p, tree.find h = some p →
    tree.MadeFrom hash hash9 fTestNet branch h p

/-- A call on a block of the branch records its proof-of-stake hash. -/
def BlockCall.OnBranch (c : BlockCall) (s : BlockStore) : Prop :=
  c.pblock.OnBranch hash9 branch ∧
    (c.pblock.getHash hash9 ∈ branch.hashes → c.pblock.isProofOfStake = true →
      ∀ hashProofOfStake,
        c.node.proofOfStakeOf (c.node.fFullCheck c.pblock s.tree) c.pblock =
            some hashProofOfStake →
          hashProofOfStake = branch.hashProofOfStake (c.pblock.getHash hash9))

end Determined

namespace BlockTree

variable {hash hash9 : Bytes → UInt256} {fTestNet : Bool} {branch : Branch}
  {tree tree' : BlockTree} {block : CBlock}

section

variable (hdet : tree.Determined hash hash9 fTestNet branch)

include hdet

/-- Adding the index of a block that is of the branch or not. -/
lemma Determined.added {pindexNew : CBlockIndex} (hblock : block.OnBranch hash9 branch)
    (hindex : tree.NewIndex hash hash9 fTestNet block pindexNew)
    (hadded : Added (block.getHash hash9) pindexNew tree tree')
    (hnew : block.getHash hash9 ∉ tree.mapBlockIndex)
    (hprev : block.hashPrevBlock = 0 ∨ block.hashPrevBlock ∈ tree.mapBlockIndex) :
    tree'.Determined hash hash9 fTestNet branch := by
  have hroot := hdet.rooted
  have hpprev : pindexNew.pprev = block.hashPrevBlock := by
    rw [hindex.pprev]
    split_ifs with hknown
    · rfl
    · refine (hprev.resolve_right fun hmem => hknown ?_).symm
      rw [Std.ExtTreeMap.contains_iff_mem]
      exact hmem
  have hroot' : tree'.Rooted :=
    hroot.added hadded hnew hindex.phashBlock (hpprev ▸ hprev)
  -- a known block is known later, and has the same indices before it
  have hlater : ∀ k, k = 0 ∨ k ∈ tree.mapBlockIndex →
      computeNextStakeModifier hash fTestNet tree'.find (tree'.past k) =
        computeNextStakeModifier hash fTestNet tree.find (tree.past k) := by
    intro k hk
    have hk' : k = 0 ∨ k ∈ tree'.mapBlockIndex :=
      hk.imp_right fun hmem => hadded.mem_iff.mpr (Or.inr hmem)
    have hpast := (hroot.past_added hadded hnew hk).imp fun _ _ hsame => hsame.sameStake
    exact (computeNextStakeModifier_eq hash fTestNet hroot hroot' hk hk' hpast).symm
  refine ⟨hroot', ?_, fun h hh q hfound => ?_⟩
  · rw [hadded.mapProofOfStake]
    exact hdet.recorded
  · obtain ⟨hzero, hget⟩ := find_eq_some.mp hfound
    rcases Rooted.find_added hadded hget with ⟨rfl, fields, rfl⟩ | ⟨p, hp, fields, rfl⟩
    · -- the index that is added
      have heq := hblock hh
      obtain ⟨fGenerated, hmodifier, hflags⟩ := hindex.modifier
      refine ⟨?_, ?_, ?_, fGenerated, ?_, ?_⟩
      · rw [← heq]
        exact hpprev
      · rw [← heq]
        exact hindex.nTime
      · rw [← heq]
        have hproof := hindex.hashProofOfStake
        split_ifs at hproof ⊢
        · exact hdet.recorded _ hh _ hproof
        · exact hproof
      · have hsame := (hlater _ hprev).trans hmodifier
        rw [← hpprev] at hsame
        exact hsame
      · rw [← heq]
        exact hflags
    · -- an index that was there before
      obtain ⟨hpprevp, htime, hproof, fGenerated, hmodifier, hflags⟩ :=
        hdet.indices h hh p (find_eq_some.mpr ⟨hzero, hp⟩)
      refine ⟨hpprevp, htime, hproof, fGenerated, ?_, hflags⟩
      exact (hlater _ (hroot.closed h p hp)).trans hmodifier

/-- A call of `AcceptBlock`. -/
lemma Determined.acceptBlock {node : AcceptNode} (hnet : node.env.fTestNet = fTestNet)
    (hblock : block.OnBranch hash9 branch) :
    (block.acceptBlock hash hash9 node tree).1.Determined hash hash9 fTestNet branch := by
  rcases block.acceptBlock_cases node tree hash hash9 with
    ⟨heq, -⟩ | ⟨_, _, pindexNew, hnew, hprev, hindex, hadded⟩
  · rw [heq]
    exact hdet
  · rw [hnet] at hindex
    exact hdet.added hblock (newIndex_eq_some hindex) hadded hnew (Or.inr hprev)

/-- A tree with the same indices. -/
lemma Determined.of_mapBlockIndex (hmap : tree'.mapBlockIndex = tree.mapBlockIndex)
    (hrecorded : ∀ h ∈ branch.hashes, ∀ hashProofOfStake : UInt256,
      tree'.mapProofOfStake[h]? = some hashProofOfStake →
        hashProofOfStake = branch.hashProofOfStake h) :
    tree'.Determined hash hash9 fTestNet branch := by
  have hfind : tree'.find = tree.find := funext fun k => (past_congr hmap k).1
  have hpast : tree'.past = tree.past := funext fun k => (past_congr hmap k).2
  refine ⟨⟨?_, ?_, ?_⟩, hrecorded, fun h hh p hfound => ?_⟩
  · rw [hmap]
    exact hdet.rooted.phashBlock
  · rw [hmap]
    exact hdet.rooted.closed
  · rw [hmap, hfind]
    exact hdet.rooted.walks
  · rw [hfind] at hfound
    obtain ⟨hpprev, htime, hproof, hmodifier⟩ := hdet.indices h hh p hfound
    rw [← hfind, ← hpast] at hmodifier
    exact ⟨hpprev, htime, hproof, hmodifier⟩

end

/-- The empty tree. -/
lemma Determined.empty : Determined hash hash9 fTestNet branch {} := by
  refine ⟨⟨fun h p hget => ?_, fun h p hget => ?_, fun h hh => ?_⟩, fun h _ x hget => ?_,
    fun h _ p hfound => ?_⟩
  · simp at hget
  · simp at hget
  · refine ⟨[], .stop (find_eq_none.mpr ?_)⟩
    exact hh.imp_right fun _ => by simp
  · simp at hget
  · have hget := (find_eq_some.mp hfound).2
    simp at hget

end BlockTree

section Runs

variable {hash hash9 : Bytes → UInt256} {fTestNet : Bool} {branch : Branch} {genesis : CBlock}

/-- What `ProcessBlock` keeps: the indices of the branch are determined, and the orphans with the
hash of a block of the branch are that block. -/
def BlockStore.Determined (hash hash9 : Bytes → UInt256) (fTestNet : Bool) (branch : Branch)
    (s : BlockStore) : Prop :=
  s.tree.Determined hash hash9 fTestNet branch ∧
    ∀ mi ∈ s.orphans.mapOrphanBlocksByPrev, mi.2.OnBranch hash9 branch

/-- A call of `ProcessBlock`. -/
lemma BlockStore.Determined.outcome {s : BlockStore}
    (hdet : s.Determined hash hash9 fTestNet branch) {c : BlockCall} (hnet : c.OnNetwork fTestNet)
    (hcall : c.OnBranch hash9 branch s) :
    (c.outcome hash hash9 s).store.Determined hash hash9 fTestNet branch := by
  obtain ⟨hblock, hproof⟩ := hcall
  unfold BlockCall.outcome processBlock
  cases hcheck : checkStage hash hash9 c.node c.pblock s with
  | error outcome =>
    rcases (checkStage_eq_error hcheck).2 with hstore | ⟨-, -, -, -, -, hstore⟩
    · dsimp only
      rw [hstore]
      exact hdet
    · dsimp only
      rw [hstore]
      exact ⟨hdet.1.of_mapBlockIndex rfl hdet.1.recorded, hdet.2⟩
  | ok s₁ =>
    obtain ⟨-, -, -, horphans, hchecked⟩ := checkStage_eq_ok hcheck
    have hrecorded : ∀ h ∈ branch.hashes, ∀ hashProofOfStake : UInt256,
        s₁.tree.mapProofOfStake[h]? = some hashProofOfStake →
          hashProofOfStake = branch.hashProofOfStake h := by
      intro h hh hashProofOfStake hget
      cases hpos : c.pblock.isProofOfStake with
      | false =>
        rw [hchecked.work hpos] at hget
        exact hdet.1.recorded h hh _ hget
      | true =>
        obtain ⟨x, hx, hmap⟩ := hchecked.stake hpos
        rw [hmap, Std.ExtTreeMap.getElem?_insertIfNew] at hget
        split_ifs at hget with heq
        · cases hget
          have hhash := Std.LawfulEqCmp.eq_of_compare heq.1
          rw [← hhash] at hh ⊢
          exact hproof hh hpos _ hx
        · exact hdet.1.recorded h hh _ hget
    have hstep : ∀ (block : CBlock) (tree : BlockTree), block.OnBranch hash9 branch →
        tree.Determined hash hash9 fTestNet branch →
          (block.acceptBlock hash hash9 (c.node.accept tree block) tree).1.Determined hash hash9
            fTestNet branch :=
      fun block tree hon htree => htree.acceptBlock (hnet tree block) hon
    exact placeBlock_tree hstep (hdet.1.of_mapBlockIndex hchecked.mapBlockIndex hrecorded)
      (horphans ▸ hdet.2) hblock

/-- In every run that records the proof-of-stake hashes of the branch, its indices are what they
would be if they were made again. -/
lemma BlockRun.determined {calls : List BlockCall} {s : BlockStore}
    (hrun : BlockRun hash hash9 fTestNet genesis (BlockCall.OnBranch hash9 branch) calls s)
    (hgenesis : genesis.OnBranch hash9 branch) : s.Determined hash hash9 fTestNet branch := by
  induction hrun with
  | start node nFile nBlockPos hnet hprev =>
    refine ⟨?_, nofun⟩
    dsimp only
    rcases genesis.addToTree_cases node {} hash hash9 nFile nBlockPos with
      ⟨heq, -⟩ | ⟨pindexNew, hindex, hadded⟩
    · rw [heq]
      exact .empty
    · rw [hnet] at hindex
      exact BlockTree.Determined.empty.added hgenesis (BlockTree.newIndex_eq_some hindex) hadded
        (by simp) (Or.inl hprev)
  | call c _ hnet hcall ih => exact ih.outcome hnet hcall

/-- Two nodes that have a branch have the same indices on it, as far as the computation of modifiers
is concerned. -/
lemma BlockTree.Determined.sameStake {tree tree' : BlockTree}
    (hdet : tree.Determined hash hash9 fTestNet branch)
    (hdet' : tree'.Determined hash hash9 fTestNet branch) {k : UInt256} {l : List CBlockIndex}
    (hwalk : LinkWalk.Walks tree.find CBlockIndex.pprev k l)
    (hk : k = 0 ∨ k ∈ tree.mapBlockIndex) (hk' : k = 0 ∨ k ∈ tree'.mapBlockIndex)
    (hbranch : ∀ q ∈ l, q.phashBlock ∈ branch.hashes) :
    List.Forall₂ CBlockIndex.SameStake (tree.past k) (tree'.past k) := by
  induction hwalk with
  | @stop k hnone =>
    have hzero : k = 0 := (find_eq_none.mp hnone).elim id fun hnot => hk.resolve_right hnot
    rw [past_eq (.stop hnone), past_eq (.stop (find_eq_none.mpr (Or.inl hzero)))]
    exact .nil
  | @step k p l hfound hrest ih =>
    obtain ⟨hzero, hget⟩ := find_eq_some.mp hfound
    obtain ⟨p', hget'⟩ := MapLoop.mem_iff.mp (hk'.resolve_left hzero)
    have hfound' := find_eq_some.mpr ⟨hzero, hget'⟩
    have hhash := hdet.rooted.phashBlock k p hget
    have hhash' := hdet'.rooted.phashBlock k p' hget'
    have hin : k ∈ branch.hashes := hhash ▸ hbranch p List.mem_cons_self
    obtain ⟨hpprev, htime, hproof, fGenerated, hmodifier, hflags⟩ := hdet.indices k hin p hfound
    obtain ⟨hpprev', htime', hproof', fGenerated', hmodifier', hflags'⟩ :=
      hdet'.indices k hin p' hfound'
    have hlink : p'.pprev = p.pprev := hpprev'.trans hpprev.symm
    have hclosed := hdet.rooted.closed k p hget
    have hclosed' := hdet'.rooted.closed k p' hget'
    rw [hlink] at hclosed' hmodifier'
    -- what is before the two indices is the same, so the modifiers are
    have hpast := ih hclosed hclosed' fun q hq => hbranch q (List.mem_cons_of_mem _ hq)
    have hsame := computeNextStakeModifier_eq hash fTestNet hdet.rooted hdet'.rooted hclosed
      hclosed' hpast
    rw [hmodifier, hmodifier'] at hsame
    obtain ⟨hnew, hgenerated⟩ := Prod.mk.injEq .. ▸ Option.some.inj hsame
    have hwalk' := hdet'.rooted.walks_past hclosed'
    rw [past_eq (.step hfound hrest), past_eq (.step hfound' (hlink ▸ hwalk'))]
    refine .cons ⟨hhash.trans hhash'.symm, htime.trans htime'.symm, ?_, hproof.trans hproof'.symm,
      hnew⟩ ?_
    · rw [hflags, hflags', hgenerated]
    · rw [← past_eq hrest, hlink]
      exact hpast

/-- Two nodes that have accepted a block and its ancestors, and have recorded the same proof-of-stake
hashes for them, have the same modifier, the same flag and the same checksum for the block, in
whatever order the blocks came and whatever else came. -/
theorem stakeModifier_eq_of_branch {calls calls' : List BlockCall} {s s' : BlockStore}
    (hrun : BlockRun hash hash9 fTestNet genesis (BlockCall.OnBranch hash9 branch) calls s)
    (hrun' : BlockRun hash hash9 fTestNet genesis (BlockCall.OnBranch hash9 branch) calls' s')
    (hgenesis : genesis.OnBranch hash9 branch) {k : UInt256} {p p' : CBlockIndex}
    (hfound : s.tree.find k = some p) (hfound' : s'.tree.find k = some p')
    (hbranch : ∀ q ∈ s.tree.past k, q.phashBlock ∈ branch.hashes) :
    p.nStakeModifier = p'.nStakeModifier ∧
      p.generatedStakeModifier = p'.generatedStakeModifier ∧
      getStakeModifierChecksum hash (s.tree.past k) =
        getStakeModifierChecksum hash (s'.tree.past k) := by
  have hdet := (hrun.determined hgenesis).1
  have hdet' := (hrun'.determined hgenesis).1
  have hk : k = 0 ∨ k ∈ s.tree.mapBlockIndex := by
    rw [Std.ExtTreeMap.mem_iff_isSome_getElem?, (BlockTree.find_eq_some.mp hfound).2]
    exact Or.inr rfl
  have hk' : k = 0 ∨ k ∈ s'.tree.mapBlockIndex := by
    rw [Std.ExtTreeMap.mem_iff_isSome_getElem?, (BlockTree.find_eq_some.mp hfound').2]
    exact Or.inr rfl
  have hpast := hdet.sameStake hdet' (hdet.rooted.walks_past hk) hk hk' hbranch
  have hsame := hpast
  rw [hdet.rooted.past_eq_cons hfound, hdet'.rooted.past_eq_cons hfound',
    List.forall₂_cons] at hsame
  exact ⟨hsame.1.nStakeModifier, hsame.1.generatedStakeModifier_eq,
    getStakeModifierChecksum_congr hpast⟩

end Runs

/-! ## A block that comes before its parent -/

/-- The median of some times, computed by insertion. -/
lemma getMedianTimePast_eq {past : List CBlockIndex} {times : List UInt32}
    (htimes : (past.take nMedianTimeSpan).map CBlockIndex.nTime = times) :
    getMedianTimePast past =
      ((times.map timeOf).insertionSort fun a b => a ≤ b).getD (times.length / 2) 0 := by
  rw [getMedianTimePast, List.mergeSort_eq_insertionSort, List.length_insertionSort,
    List.length_map, ← htimes, List.length_map, List.map_map]
  rfl

variable {hash hash9 : Bytes → UInt256} {tree : BlockTree}

/-- A call of `AcceptBlock` on a block that meets its rules. -/
lemma CBlock.acceptBlock_eq {node : AcceptNode} {block : CBlock} (pos : UInt32 × UInt32)
    (hnew : tree.mapBlockIndex.contains (block.getHash hash9) = false)
    (hprev : tree.mapBlockIndex.contains block.hashPrevBlock = true)
    (hrules : block.acceptRules node.env (tree.past block.hashPrevBlock) = .ok true)
    (hpos : node.writeToDisk block = some pos) :
    block.acceptBlock hash hash9 node tree =
      block.addToTree hash hash9 node pos.1 pos.2 tree := by
  rw [acceptBlock, hnew, hprev, hrules, hpos]
  rfl

/-- A block on top of the first one. -/
def testSecond : CBlock := testStakeBlock 2 3 1424304835 0 2

/-- A node on the test network whose checkpoints reach up to the first block. -/
def fastNode : BlockNode :=
  let env := { testAccept.env with getTotalBlocksEstimate := 1 }
  { env, checkProofOfStake := fun _ _ => some (1 <<< 160)
    accept := fun _ _ => { testAccept with env } }

/-- It accepts every block in the same way. -/
lemma accept_fastNode (tree : BlockTree) (pblock : CBlock) :
    fastNode.accept tree pblock = fastNode.accept {} {} := rfl

/-- The store after calls on some blocks, the last one first. -/
def fastStore (pblocks : List CBlock) : BlockStore :=
  pblocks.foldr (fun pblock s => (processBlock sampleHash nonceHash fastNode pblock s).store)
    testStart

lemma acceptRules_testSecond {past : List CBlockIndex}
    (hpast : past.map (fun pindex => (pindex.nHeight, pindex.nTime)) =
      [(1, testFirst.nTime), (0, testGenesis.nTime)]) :
    testSecond.acceptRules (fastNode.accept {} {}).env past = .ok true := by
  obtain ⟨p, rest, rfl, hp, hrest⟩ := List.map_eq_cons_iff.mp hpast
  obtain ⟨q, rest', rfl, hq, hnil⟩ := List.map_eq_cons_iff.mp hrest
  obtain rfl := List.map_eq_nil_iff.mp hnil
  have hheight : p.nHeight = 1 := congrArg Prod.fst hp
  have htime : p.nTime = testFirst.nTime := congrArg Prod.snd hp
  have htime' : q.nTime = testGenesis.nTime := congrArg Prod.snd hq
  have htimes : ([p, q].take nMedianTimeSpan).map CBlockIndex.nTime =
      [testFirst.nTime, testGenesis.nTime] := by
    rw [← htime, ← htime']
    rfl
  have hmedian : getMedianTimePast [p, q] = timeOf testFirst.nTime := by
    rw [getMedianTimePast_eq htimes]
    decide
  have hvtx : testSecond.vtx =
      [testCoinBase testSecond.nTime 2, testCoinStake testSecond.nTime { hash := 7, n := 0 }] := rfl
  have hbits : ∀ fProofOfStake,
      (fastNode.accept {} {}).env.getNextTargetRequired p fProofOfStake = 0 := fun _ => rfl
  unfold CBlock.acceptRules
  simp only [hvtx, hmedian, hheight, htime, hbits]
  decide +kernel

variable {node : BlockNode} {pblock : CBlock} {s : BlockStore}

/-- No orphan waits for a block if there are none. -/
lemma resolveBlocks_nil {orphans : OrphanBlocks}
    (hempty : orphans.mapOrphanBlocksByPrev = []) (h : UInt256) :
    resolveBlocks hash hash9 node { tree, orphans } h =
      ({ tree, orphans := orphans.eraseChildren h }, [], none) := by
  simp [resolveBlocks, OrphanBlocks.children, hempty, foldThrow]

/-- A block is accepted for which one orphan waits, which is the only one, and the orphan is accepted
next. -/
lemma placeBlock_of_child {child : CBlock} {tree tree' : BlockTree}
    (hprev : s.tree.mapBlockIndex.contains pblock.hashPrevBlock = true)
    (hbyPrev : s.orphans.mapOrphanBlocksByPrev = [(pblock.getHash hash9, child)]) (haccept :
    pblock.acceptBlock hash hash9 (node.accept s.tree pblock) s.tree = (tree, .ok true))
    (hchild : child.acceptBlock hash hash9 (node.accept tree child) tree = (tree', .ok true)) :
    (placeBlock hash hash9 node pblock s).store.tree = tree' := by
  have hchildren : s.orphans.children (pblock.getHash hash9) = [(pblock.getHash hash9, child)] := by
    simp [OrphanBlocks.children, hbyPrev]
  have hturn : resolveBlocks hash hash9 node { s with tree } (pblock.getHash hash9) =
      ({ tree := tree',
         orphans := (s.orphans.take hash9 child).eraseChildren (pblock.getHash hash9) },
        [child.getHash hash9], none) := by
    simp [resolveBlocks, hchildren, foldThrow, tryOrphanBlock, hchild]
  have hempty : ((s.orphans.take hash9 child).eraseChildren
      (pblock.getHash hash9)).mapOrphanBlocksByPrev = [] := by
    simp [OrphanBlocks.eraseChildren, OrphanBlocks.take, hbyPrev]
  unfold placeBlock
  rw [hprev, haccept, hbyPrev]
  simp [run, hturn, resolveBlocks_nil hempty]

/-- A block is accepted, and there are no orphans. -/
lemma placeBlock_of_none (hprev : s.tree.mapBlockIndex.contains pblock.hashPrevBlock = true)
    (hbyPrev : s.orphans.mapOrphanBlocksByPrev = [])
    (haccept : pblock.acceptBlock hash hash9 (node.accept s.tree pblock) s.tree =
      (tree, .ok true)) : (placeBlock hash hash9 node pblock s).store.tree = tree := by
  unfold placeBlock
  rw [hprev, haccept, hbyPrev]
  simp [run, resolveBlocks_nil hbyPrev]

/-- A block of the test network goes on to the rest of `ProcessBlock`. -/
lemma fastStore_cons (pblock : CBlock) (pblocks : List CBlock)
    (h : (checkStage sampleHash nonceHash fastNode pblock (fastStore pblocks)).isOk = true) :
    ∃ s₁, s₁.orphans = (fastStore pblocks).orphans ∧
      (fastStore pblocks).tree.Checked nonceHash fastNode pblock s₁.tree ∧
      fastStore (pblock :: pblocks) =
        (placeBlock sampleHash nonceHash fastNode pblock s₁).store := by
  have hcons : fastStore (pblock :: pblocks) =
      (processBlock sampleHash nonceHash fastNode pblock (fastStore pblocks)).store := rfl
  rw [hcons, processBlock]
  cases hcheck : checkStage sampleHash nonceHash fastNode pblock (fastStore pblocks) with
  | error outcome =>
    rw [hcheck] at h
    cases h
  | ok s₁ =>
    obtain ⟨-, -, -, horphans, hchecked⟩ := checkStage_eq_ok hcheck
    exact ⟨s₁, horphans, hchecked, rfl⟩

/-- Nothing is recorded for a block with proof-of-work. -/
lemma BlockTree.Checked.eq_of_work {hash9 : Bytes → UInt256} {s₁ : BlockStore}
    (h : s.tree.Checked hash9 node pblock s₁.tree) (horphans : s₁.orphans = s.orphans)
    (hwork : pblock.isProofOfStake = false) : s₁ = s := by
  obtain ⟨⟨mapBlockIndex, setStakeSeen, mapProofOfStake⟩, orphans⟩ := s₁
  obtain rfl := h.mapBlockIndex
  obtain rfl := h.setStakeSeen
  obtain rfl := h.work hwork
  obtain rfl := horphans
  rfl

/-- The second block is in the tree, with a checksum of its modifier. -/
def BlockTree.HasChecksum (tree : BlockTree) (nStakeModifierChecksum : UInt32) : Prop :=
  (tree.find 3).isSome ∧
    getStakeModifierChecksum sampleHash (tree.past 3) = nStakeModifierChecksum

instance (tree : BlockTree) (nStakeModifierChecksum : UInt32) :
    Decidable (tree.HasChecksum nStakeModifierChecksum) :=
  inferInstanceAs (Decidable (_ ∧ _))

/-- The second block is accepted on top of the first one. -/
lemma acceptBlock_testSecond (tree : BlockTree)
    (hnew : tree.mapBlockIndex.contains 3 = false) (hprev : tree.mapBlockIndex.contains 2 = true)
    (hpast : (tree.past 2).map (fun pindex => (pindex.nHeight, pindex.nTime)) =
      [(1, testFirst.nTime), (0, testGenesis.nTime)]) :
    testSecond.acceptBlock sampleHash nonceHash (fastNode.accept {} {}) tree =
      testSecond.addToTree sampleHash nonceHash (fastNode.accept {} {}) 1 300 tree := by
  have hhash : testSecond.getHash nonceHash = 3 := by decide +kernel
  apply CBlock.acceptBlock_eq (1, 300)
  · rw [hhash]
    exact hnew
  · exact hprev
  · exact acceptRules_testSecond hpast
  · rfl

/-- The store with the second block as an orphan, and the tree when the first one is added. -/
def earlyStore : BlockStore := fastStore [testSecond]

def earlyTree : BlockTree :=
  (testFirst.acceptBlock sampleHash nonceHash (fastNode.accept {} {}) earlyStore.tree).1

/-- The second block comes before the first one, and its kernel is checked. -/
lemma hasChecksum_early : (fastStore [testFirst, testSecond]).tree.HasChecksum 1 := by
  obtain ⟨s₁, horphans, hchecked, hstore⟩ :=
    fastStore_cons testFirst [testSecond] (by decide +kernel)
  have hs₁ : s₁ = earlyStore := hchecked.eq_of_work horphans (by decide)
  have hfirst : testFirst.acceptBlock sampleHash nonceHash (fastNode.accept {} {}) earlyStore.tree =
      (earlyTree, .ok true) := by
    apply Prod.ext
    · rw [earlyTree]
    · decide +kernel
  have hsecond := acceptBlock_testSecond earlyTree (by decide +kernel)
    (by decide +kernel) (by decide +kernel)
  have hresult : (testSecond.addToTree sampleHash nonceHash (fastNode.accept {} {}) 1 300
      earlyTree).2 = .ok true := by
    decide +kernel
  have hindex : (testSecond.addToTree sampleHash nonceHash (fastNode.accept {} {}) 1 300
      earlyTree).1.HasChecksum 1 := by
    decide +kernel
  have hprev : earlyStore.tree.mapBlockIndex.contains testFirst.hashPrevBlock = true := by
    decide +kernel
  have hbyPrev : earlyStore.orphans.mapOrphanBlocksByPrev =
      [(testFirst.getHash nonceHash, testSecond)] := by
    decide +kernel
  rw [hstore, hs₁]
  generalize earlyStore = s at hfirst hprev hbyPrev
  generalize earlyTree = tree at hfirst hsecond hresult hindex
  rw [← accept_fastNode s.tree testFirst] at hfirst
  have haccept : testSecond.acceptBlock sampleHash nonceHash (fastNode.accept tree testSecond)
      tree = ((testSecond.addToTree sampleHash nonceHash (fastNode.accept {} {}) 1 300 tree).1,
        .ok true) := by
    rw [accept_fastNode tree testSecond, hsecond, ← hresult]
  rw [placeBlock_of_child hprev hbyPrev hfirst haccept]
  exact hindex

/-- The store with the first block, when nothing has been checked of the second one. -/
def lateStore : BlockStore :=
  { fastStore [testFirst] with tree := { (fastStore [testFirst]).tree with
      mapProofOfStake := (fastStore [testFirst]).tree.mapProofOfStake.insertIfNew
        (testSecond.getHash nonceHash) 0 } }

/-- The second block comes after the first one, and its kernel is not checked. -/
lemma hasChecksum_late : (fastStore [testSecond, testFirst]).tree.HasChecksum 0 := by
  obtain ⟨s₁, horphans, hchecked, hstore⟩ :=
    fastStore_cons testSecond [testFirst] (by decide +kernel)
  have hunchecked : fastNode.proofOfStakeOf
      (fastNode.fFullCheck testSecond (fastStore [testFirst]).tree) testSecond = some 0 := by
    decide +kernel
  have hs₁ : s₁ = lateStore := by
    obtain ⟨x, hx, hmap⟩ := hchecked.stake (by decide)
    rw [hunchecked] at hx
    cases hx
    obtain ⟨⟨mapBlockIndex, setStakeSeen, mapProofOfStake⟩, orphans⟩ := s₁
    obtain rfl := hchecked.mapBlockIndex
    obtain rfl := hchecked.setStakeSeen
    obtain rfl := hmap
    obtain rfl := horphans
    rfl
  have hsecond := acceptBlock_testSecond lateStore.tree (by decide +kernel)
    (by decide +kernel) (by decide +kernel)
  have hresult : (testSecond.addToTree sampleHash nonceHash (fastNode.accept {} {}) 1 300
      lateStore.tree).2 = .ok true := by
    decide +kernel
  have hindex : (testSecond.addToTree sampleHash nonceHash (fastNode.accept {} {}) 1 300
      lateStore.tree).1.HasChecksum 0 := by
    decide +kernel
  have hprev : lateStore.tree.mapBlockIndex.contains testSecond.hashPrevBlock = true := by
    decide +kernel
  have hbyPrev : lateStore.orphans.mapOrphanBlocksByPrev = [] := by
    decide +kernel
  rw [hstore, hs₁]
  generalize lateStore = s at hsecond hresult hindex hprev hbyPrev
  have haccept : testSecond.acceptBlock sampleHash nonceHash (fastNode.accept s.tree testSecond)
      s.tree = ((testSecond.addToTree sampleHash nonceHash (fastNode.accept {} {}) 1 300 s.tree).1,
        .ok true) := by
    rw [accept_fastNode s.tree testSecond, hsecond, ← hresult]
  rw [placeBlock_of_none hprev hbyPrev haccept]
  exact hindex

/-- Another block on top of the genesis block, and the blocks of the examples. -/
def testSibling : CBlock := testWorkBlock 1 4 1424304831 1

def testBlocks : List CBlock := [testGenesis, testFirst, testSecond, testSibling]

/-- The branch of the blocks of the examples, whose kernels are not checked. -/
def testBranch : Branch where
  hashes := Set.univ
  block h := (testBlocks.find? fun block => block.getHash nonceHash == h).getD {}
  hashProofOfStake _ := 0

lemma onBranch_testBranch (hmem : pblock ∈ testBlocks) : pblock.OnBranch nonceHash testBranch := by
  have hall : ∀ pblock ∈ testBlocks, pblock = testBranch.block (pblock.getHash nonceHash) := by
    decide +kernel
  exact fun _ => hall pblock hmem

lemma blockRun_fastStore (admits : BlockCall → BlockStore → Prop) (pblocks : List CBlock)
    (hadmits : ∀ pblock ∈ pblocks, ∀ s, admits { node := fastNode, pblock } s) :
    BlockRun sampleHash nonceHash true testGenesis admits
      (pblocks.map fun pblock => { node := fastNode, pblock }) (fastStore pblocks) := by
  induction pblocks with
  | nil => exact .start testAccept 1 8 rfl rfl
  | cons pblock pblocks ih =>
    refine .call { node := fastNode, pblock } (ih ?_) (fun _ _ => rfl)
      (hadmits pblock List.mem_cons_self _)
    exact fun pblock' hmem => hadmits pblock' (List.mem_cons_of_mem _ hmem)

/-- The first block has the same checksum whether or not another block comes before it. -/
theorem stakeModifier_eq_testFirst :
    getStakeModifierChecksum sampleHash ((fastStore [testFirst]).tree.past 2) =
      getStakeModifierChecksum sampleHash ((fastStore [testFirst, testSibling]).tree.past 2) := by
  have hon : ∀ pblock ∈ [testFirst, testSibling], ∀ s,
      BlockCall.OnBranch nonceHash testBranch { node := fastNode, pblock } s := by
    have hsubset : [testFirst, testSibling] ⊆ testBlocks := by decide +kernel
    have hwork : ∀ pblock ∈ [testFirst, testSibling], pblock.isProofOfStake = false := by decide
    intro pblock hmem s
    refine ⟨onBranch_testBranch (hsubset hmem), fun _ hpos => ?_⟩
    rw [hwork pblock hmem] at hpos
    cases hpos
  have hrun := blockRun_fastStore (BlockCall.OnBranch nonceHash testBranch) [testFirst]
    fun pblock hmem => hon pblock (List.mem_cons.mpr (Or.inl (List.mem_singleton.mp hmem)))
  have hrun' := blockRun_fastStore (BlockCall.OnBranch nonceHash testBranch) _ hon
  have hfound : ((fastStore [testFirst]).tree.find 2).isSome = true := by decide +kernel
  have hfound' : ((fastStore [testFirst, testSibling]).tree.find 2).isSome = true := by
    decide +kernel
  generalize fastStore [testFirst] = s at hrun hfound
  generalize fastStore [testFirst, testSibling] = s' at hrun' hfound'
  obtain ⟨p, hp⟩ := Option.isSome_iff_exists.mp hfound
  obtain ⟨p', hp'⟩ := Option.isSome_iff_exists.mp hfound'
  exact (stakeModifier_eq_of_branch hrun hrun' (onBranch_testBranch List.mem_cons_self) hp hp'
    fun _ _ => Set.mem_univ _).2.2

/-- The second block has another checksum if it comes before the first one, as then its kernel is
checked. -/
theorem not_sameModifier_early : ¬ ∀ (hash hash9 : Bytes → UInt256) (fTestNet : Bool)
    (branch : Branch) (genesis : CBlock) (calls calls' : List BlockCall) (s s' : BlockStore)
    (k : UInt256) (p p' : CBlockIndex),
    BlockRun hash hash9 fTestNet genesis (fun c _ => c.pblock.OnBranch hash9 branch) calls s →
      BlockRun hash hash9 fTestNet genesis (fun c _ => c.pblock.OnBranch hash9 branch) calls' s' →
      genesis.OnBranch hash9 branch → s.tree.find k = some p → s'.tree.find k = some p' →
      (∀ q ∈ s.tree.past k, q.phashBlock ∈ branch.hashes) →
        p.nStakeModifier = p'.nStakeModifier ∧
          p.generatedStakeModifier = p'.generatedStakeModifier ∧
          getStakeModifierChecksum hash (s.tree.past k) =
            getStakeModifierChecksum hash (s'.tree.past k) := by
  intro hsame
  have hon : ∀ pblocks : List CBlock, pblocks ⊆ testBlocks →
      ∀ pblock ∈ pblocks, ∀ _ : BlockStore, pblock.OnBranch nonceHash testBranch :=
    fun _ hsubset _ hmem _ => onBranch_testBranch (hsubset hmem)
  have hrun := blockRun_fastStore (fun c _ => c.pblock.OnBranch nonceHash testBranch)
    [testFirst, testSecond] (hon _ (by decide +kernel))
  have hrun' := blockRun_fastStore (fun c _ => c.pblock.OnBranch nonceHash testBranch)
    [testSecond, testFirst] (hon _ (by decide +kernel))
  have hearly := hasChecksum_early
  have hlate := hasChecksum_late
  generalize fastStore [testFirst, testSecond] = s at hrun hearly
  generalize fastStore [testSecond, testFirst] = s' at hrun' hlate
  obtain ⟨p, hp⟩ := Option.isSome_iff_exists.mp hearly.1
  obtain ⟨p', hp'⟩ := Option.isSome_iff_exists.mp hlate.1
  have heq := (hsame _ _ _ _ _ _ _ _ _ 3 p p' hrun hrun'
    (onBranch_testBranch List.mem_cons_self) hp hp' fun _ _ => Set.mem_univ _).2.2
  rw [hearly.2, hlate.2] at heq
  cases heq

end HyperStake
