import HyperStake.Chain.OrphanBlocks
import HyperStake.Chain.SetBestChain
import HyperStake.Library.Ancestry
import HyperStake.Library.Descending
import Mathlib.Data.List.TakeWhile

/-!
# The fork of two branches

When `Reorganize` switches to another branch, it goes down from the best block and from the new one
until it is at the same block (`findFork`).  In a tree with one first block, in which the height of
a block is one more than that of its parent (`OneRoot`), that block is the lowest common ancestor of
the two (`exists_findFork`), and the blocks to disconnect and to connect are those on the ways from
them to it.

The reason is that whenever the two loops compare heights, the blocks that have been passed so far on
one side are not on the other side at all (`findFork_eq`).

The trees that calls of `ProcessBlock` make from the genesis block are of this kind as long as the
heights do not overflow (`BlockRun.findFork_spec`).
-/

namespace HyperStake

open LinkWalk WorkQueue Descending

/-! ## Trees with one first block -/

/-- All blocks of a tree come from one first block, and the height of a block is one more than that
of its parent. -/
structure BlockTree.OneRoot (tree : BlockTree) (genesis : UInt256) : Prop extends tree.Rooted where
  genesis : ∀ h p, tree.find h = some p → p.pprev = 0 → h = genesis
  nHeight : ∀ h p q, tree.find h = some p → tree.find p.pprev = some q →
    heightOf p = heightOf q + 1

namespace BlockTree

variable {tree : BlockTree} {genesis h k fork : UInt256} {p : CBlockIndex}

/-- One block is another one, or before it. -/
abbrev Ancestor (tree : BlockTree) (a h : UInt256) : Prop :=
  LinkWalk.Ancestor tree.find CBlockIndex.pprev a h

/-- The blocks from one down to an ancestor of it, which is left out. -/
abbrev Way (tree : BlockTree) (a h : UInt256) (p : List UInt256) : Prop :=
  LinkWalk.Way tree.find CBlockIndex.pprev a h p

/-- The lowest common ancestor of two blocks. -/
abbrev IsForkPoint (tree : BlockTree) (a h k : UInt256) : Prop :=
  LinkWalk.IsForkPoint tree.find CBlockIndex.pprev a h k

namespace Rooted

section

variable (hroot : tree.Rooted)

include hroot

section

variable (hfound : tree.find h = some p)

include hfound

/-- The walk from a block of the tree. -/
lemma walks_of_find : Walks tree.find CBlockIndex.pprev h (tree.past h) :=
  hroot.walks_past (Or.inr (mem_of_find hfound))

/-- The blocks on a walk, by their hashes. -/
lemma path_eq_keys : tree.path h = keys CBlockIndex.pprev h (tree.past h) :=
  (keys_eq_map hroot (hroot.walks_of_find hfound)).symm

/-- The ways from a block are the beginnings of its path. -/
lemma way_iff {l : List UInt256} : tree.Way fork h l ↔ ∃ q, tree.path h = l ++ fork :: q := by
  rw [hroot.path_eq_keys hfound]
  exact (hroot.walks_of_find hfound).way_iff

lemma ancestor_iff : tree.Ancestor fork h ↔ fork ∈ tree.path h := by
  rw [hroot.path_eq_keys hfound]
  exact (hroot.walks_of_find hfound).ancestor_iff

/-- The pointers down to an ancestor are the way to it. -/
lemma way_above (hfork : tree.Ancestor fork h) : tree.Way fork h (tree.above fork h) := by
  obtain ⟨l, hway⟩ := hfork
  obtain ⟨q, hpath⟩ := (hroot.way_iff hfound).mp hway
  have hnodup := hroot.nodup_path h
  rw [hpath] at hnodup
  have hne : ∀ k ∈ l, (k != fork) = true := by
    intro k hk
    rw [bne_iff_ne]
    rintro rfl
    exact (List.nodup_append.mp hnodup).2.2 k hk k List.mem_cons_self rfl
  have habove : tree.above fork h = l := by
    rw [above, hpath, List.takeWhile_append_of_pos hne, List.takeWhile_cons_of_neg (by simp),
      List.append_nil]
  rw [habove]
  exact hway

end

end

end Rooted

namespace OneRoot

/-- The heights on a walk go down by one. -/
lemma descends {l : List CBlockIndex} (htree : tree.OneRoot genesis)
    (hwalk : Walks tree.find CBlockIndex.pprev h l) : Descends heightOf l := by
  induction hwalk with
  | stop => exact .nil
  | @step k p l hfound hrest ih =>
    cases hrest with
    | stop => exact .singleton _
    | step hfound' _ => exact List.isChain_cons_cons.mpr ⟨htree.nHeight _ _ _ hfound hfound', ih⟩

/-- A walk ends at the first block of the tree. -/
lemma exists_getLast? {l : List CBlockIndex} (htree : tree.OneRoot genesis)
    (hwalk : Walks tree.find CBlockIndex.pprev h l) (hne : l ≠ []) :
    ∃ root, tree.find genesis = some root ∧ l.getLast? = some root := by
  induction hwalk with
  | stop => exact absurd rfl hne
  | @step k p l hfound hrest ih =>
    cases hrest with
    | stop hnone =>
      have hzero : p.pprev = 0 := by
        refine (find_eq_none.mp hnone).elim id fun hunknown => ?_
        exact (htree.closed k p (find_eq_some.mp hfound).2).resolve_right hunknown
      rw [htree.genesis k p hfound hzero] at hfound
      exact ⟨p, hfound, rfl⟩
    | @step _ p' l hfound' hrest' =>
      rw [List.getLast?_cons_cons]
      exact ih (List.cons_ne_nil p' l)

end OneRoot

end BlockTree

/-! ## The search for the fork -/

/-- The two loops, on lists of blocks whose heights go down by one to the same last block, end at a
block of both lists, and no block that is passed on the first list is on the second one. -/
lemma findFork_eq {root : CBlockIndex} {l l' : List CBlockIndex}
    (hl : Descends heightOf l) (hl' : Descends heightOf l')
    (hlast : l.getLast? = some root) (hlast' : l'.getLast? = some root)
    (hhash : ∀ p ∈ l, ∀ q ∈ l', q.phashBlock = p.phashBlock → q = p) :
    ∃ passed pfork below, l = passed ++ pfork :: below ∧ pfork ∈ l' ∧
      findFork l l' = some pfork.phashBlock ∧ ∀ p ∈ passed, p ∉ l' := by
  induction l generalizing l' with
  | nil => cases hlast
  | cons pfork forks ih =>
    have hroot : root ∈ pfork :: forks := List.mem_of_getLast? hlast
    have hroot' : root ∈ l' := List.mem_of_getLast? hlast'
    set higher := fun plonger : CBlockIndex => decide (plonger.nHeight > pfork.nHeight) with hhigher
    have hsplit : l'.takeWhile higher ++ l'.dropWhile higher = l' := List.takeWhile_append_dropWhile
    -- the blocks that the inner loop passes are higher than all blocks on the other side
    have hpassed : ∀ q ∈ l'.takeWhile higher, heightOf pfork < heightOf q := by
      intro q hq
      have hhigh : higher q = true := List.mem_takeWhile_imp hq
      exact Int32.lt_iff_toInt_lt.mp (of_decide_eq_true hhigh)
    cases hlonger : l'.dropWhile higher with
    | nil =>
      rw [hlonger, List.append_nil] at hsplit
      rw [← hsplit] at hroot'
      exact absurd (hl.le_of_mem hroot) (not_le.mpr (hpassed root hroot'))
    | cons plonger longer =>
      rw [hlonger] at hsplit
      have hrest : Descends heightOf (plonger :: longer) := by
        rw [← hsplit] at hl'
        exact hl'.right_of_append
      have hlow : heightOf plonger ≤ heightOf pfork := by
        have hstops : higher plonger = false := by
          have hhead := List.head?_dropWhile_not higher l'
          rw [hlonger] at hhead
          exact hhead
        exact not_lt.mp fun hlt =>
          of_decide_eq_false hstops (Int32.lt_iff_toInt_lt.mpr hlt)
      rw [findFork, hlonger]
      dsimp only
      split_ifs with heq
      · -- the two pointers are at the same block
        have hsame : plonger = pfork :=
          hhash pfork List.mem_cons_self plonger (hsplit ▸ List.mem_append_right _ List.mem_cons_self) heq
        subst hsame
        refine ⟨[], plonger, forks, rfl, ?_, rfl, fun _ hmem => by cases hmem⟩
        rw [← hsplit]
        exact List.mem_append_right _ List.mem_cons_self
      · have hnot : pfork ∉ plonger :: longer := by
          intro hmem
          rcases List.mem_cons.mp hmem with rfl | hmem
          · exact heq rfl
          · exact absurd (hrest.lt_of_mem hmem) (not_lt.mpr hlow)
        have hlast'' : (plonger :: longer).getLast? = some root := by
          rw [← hsplit, List.getLast?_append_of_ne_nil _ (List.cons_ne_nil _ _)] at hlast'
          exact hlast'
        have hforks : forks.getLast? = some root := by
          cases forks with
          | nil =>
            cases hlast
            exact absurd (List.mem_of_getLast? hlast'') hnot
          | cons p forks => rwa [List.getLast?_cons_cons] at hlast
        obtain ⟨passed, p, below, hforks_eq, hmem, hfound, hout⟩ :=
          ih hl.tail hrest hforks hlast'' fun p hp q hq =>
            hhash p (List.mem_cons_of_mem _ hp) q (hsplit ▸ List.mem_append_right _ hq)
        refine ⟨pfork :: passed, p, below, ?_, ?_, hfound, ?_⟩
        · rw [hforks_eq, List.cons_append]
        · rw [← hsplit]
          exact List.mem_append_right _ hmem
        · intro q hq hmem
          rw [← hsplit] at hmem
          rcases List.mem_append.mp hmem with hhigh | hrest
          · -- the blocks of this side are not as high
            have hle : heightOf q ≤ heightOf pfork := by
              apply hl.le_of_mem
              rw [hforks_eq, ← List.cons_append]
              exact List.mem_append_left _ hq
            exact absurd (hpassed q hhigh) (not_lt.mpr hle)
          · rcases List.mem_cons.mp hq with rfl | hq
            · exact hnot hrest
            · exact hout q hq hrest

variable {p q : CBlockIndex}

/-- Two blocks of a tree have a lowest common ancestor, and the search finds it. -/
lemma BlockTree.OneRoot.exists_findFork {tree : BlockTree} {genesis h k : UInt256}
    (htree : tree.OneRoot genesis) (hp : tree.find h = some p)
    (hq : tree.find k = some q) :
    ∃ pfork, findFork (tree.past h) (tree.past k) = some pfork ∧ tree.IsForkPoint pfork h k := by
  have hroot := htree.toRooted
  have hwalk := hroot.walks_of_find hp
  have hwalk' := hroot.walks_of_find hq
  have hne : tree.past h ≠ [] := by
    rw [hroot.past_eq_cons hp]
    exact List.cons_ne_nil _ _
  have hne' : tree.past k ≠ [] := by
    rw [hroot.past_eq_cons hq]
    exact List.cons_ne_nil _ _
  obtain ⟨root, hgenesis, hlast⟩ := htree.exists_getLast? hwalk hne
  obtain ⟨root', hgenesis', hlast'⟩ := htree.exists_getLast? hwalk' hne'
  rw [hgenesis] at hgenesis'
  cases hgenesis'
  have hhash : ∀ p ∈ tree.past h, ∀ q ∈ tree.past k, q.phashBlock = p.phashBlock → q = p := by
    intro p₁ hp₁ q₁ hq₁ heq
    have hfound := hroot.find_of_mem_past (Or.inr (mem_of_find hp)) hp₁
    rw [← heq, hroot.find_of_mem_past (Or.inr (mem_of_find hq)) hq₁] at hfound
    exact Option.some.inj hfound
  obtain ⟨passed, pfork, below, hpast, hmem, hfound, hout⟩ :=
    findFork_eq (htree.descends hwalk) (htree.descends hwalk') hlast hlast' hhash
  have hpath : tree.path h = passed.map CBlockIndex.phashBlock ++
      pfork.phashBlock :: below.map CBlockIndex.phashBlock := by
    rw [path, hpast, List.map_append, List.map_cons]
  have hway := (hroot.way_iff hp).mpr ⟨_, hpath⟩
  refine ⟨pfork.phashBlock, hfound, ⟨_, hway⟩, ?_, fun b hb hb' => ?_⟩
  · exact (hroot.ancestor_iff hq).mpr (List.mem_map_of_mem hmem)
  · -- a common ancestor has not been passed on the way from the first block
    obtain ⟨l, hl, hkeys⟩ := hwalk.walks_below hway
    rw [← hroot.path_eq_keys hp, hpath] at hkeys
    rw [hl.ancestor_iff, ← List.append_cancel_left hkeys]
    have hb := (hroot.ancestor_iff hp).mp hb
    rw [hpath] at hb
    refine (List.mem_append.mp hb).resolve_left fun hpassed => ?_
    obtain ⟨p₁, hp₁, rfl⟩ := List.mem_map.mp hpassed
    obtain ⟨q₁, hq₁, heq⟩ := List.mem_map.mp ((hroot.ancestor_iff hq).mp hb')
    have hsame : q₁ = p₁ := hhash p₁ (hpast ▸ List.mem_append_left _ hp₁) q₁ hq₁ heq
    exact hout p₁ hp₁ (hsame ▸ hq₁)

/-! ## The trees of a node -/

namespace BlockTree

variable {tree tree' : BlockTree} {genesis h : UInt256} {pindexNew : CBlockIndex}

lemma OneRoot.empty (genesis : UInt256) : ({} : BlockTree).OneRoot genesis := by
  have hnone : ∀ h p, ({} : BlockTree).find h ≠ some p := by
    intro h p hfound
    have hmem := mem_of_find hfound
    simp at hmem
  exact ⟨.empty, fun h p hp => absurd hp (hnone h p), fun h p _ hp => absurd hp (hnone h p)⟩

/-- Adding a block keeps the tree, if the block is the first one or its parent is known, and its
height is one more. -/
lemma OneRoot.added (htree : tree.OneRoot genesis) (hadded : Added h pindexNew tree tree')
    (hnew : h ∉ tree.mapBlockIndex) (hhash : pindexNew.phashBlock = h)
    (hpprev : pindexNew.pprev = 0 ∧ h = genesis ∨ pindexNew.pprev ∈ tree.mapBlockIndex ∧
      pindexNew.pprev ≠ 0)
    (hheight : ∀ q, tree.find pindexNew.pprev = some q → heightOf pindexNew = heightOf q + 1) :
    tree'.OneRoot genesis := by
  refine ⟨htree.toRooted.added hadded hnew hhash (hpprev.imp And.left And.left), ?_, ?_⟩
  · intro k q hfound hzero
    obtain ⟨hk, hget⟩ := find_eq_some.mp hfound
    rcases Rooted.find_added hadded hget with ⟨rfl, fields, rfl⟩ | ⟨p, hp, fields, rfl⟩
    · exact (hpprev.resolve_right fun hknown => hknown.2 hzero).2
    · exact htree.genesis k p (find_eq_some.mpr ⟨hk, hp⟩) hzero
  · intro k q r hfound hparent
    obtain ⟨hk, hget⟩ := find_eq_some.mp hfound
    obtain ⟨hj, hgetr⟩ := find_eq_some.mp hparent
    rcases Rooted.find_added hadded hget with ⟨rfl, fields, rfl⟩ | ⟨p, hp, fields, rfl⟩
    · rcases Rooted.find_added hadded hgetr with ⟨heq, -⟩ | ⟨r₀, hr₀, fields', rfl⟩
      · -- the new block is not its own parent
        rcases hpprev with ⟨hzero, -⟩ | ⟨hknown, -⟩
        · exact absurd hzero hj
        · exact absurd (heq ▸ hknown) hnew
      · exact hheight r₀ (find_eq_some.mpr ⟨hj, hr₀⟩)
    · rcases Rooted.find_added hadded hgetr with ⟨heq, -⟩ | ⟨r₀, hr₀, fields', rfl⟩
      · -- the new block is not the parent of a known one
        rcases htree.closed k p hp with hzero | hknown
        · exact absurd hzero hj
        · exact absurd (heq ▸ hknown) hnew
      · exact htree.nHeight k p r₀ (find_eq_some.mpr ⟨hk, hp⟩) (find_eq_some.mpr ⟨hj, hr₀⟩)

variable {hash hash9 : Bytes → UInt256}

/-- The height that `AddToBlockIndex` gives a block. -/
lemma nHeight_newIndex {fTestNet : Bool} {nFile nBlockPos : UInt32}
    {block : CBlock}
    (h : tree.newIndex hash hash9 fTestNet nFile nBlockPos block = some pindexNew) :
    ∀ q, tree.mapBlockIndex[block.hashPrevBlock]? = some q →
      pindexNew.nHeight = q.nHeight + 1 := by
  intro q hq
  simp only [newIndex, CBlock.addToBlockIndex, Option.bind_eq_bind, Option.bind_eq_some_iff,
    hq] at h
  obtain ⟨-, -, pindexBit, hbit, pindexStake, hrecord, ⟨nStakeModifier, fGenerated⟩, -, -, -,
    hpindex⟩ := h
  cases hpindex
  have hstake : pindexStake.nHeight = pindexBit.nHeight := by
    unfold CBlockIndex.recordProofOfStake at hrecord
    split_ifs at hrecord
    · obtain ⟨_, -, rfl⟩ := Option.map_eq_some_iff.mp hrecord
      rfl
    · cases hrecord
      rfl
  unfold CBlockIndex.setStakeEntropyBit at hbit
  split_ifs at hbit <;> cases hbit <;> exact hstake

/-- No block has the hash zero, and no height has become negative. -/
structure InRange (tree : BlockTree) : Prop where
  hash : 0 ∉ tree.mapBlockIndex
  height : ∀ h p, tree.find h = some p → 0 ≤ heightOf p

/-- Before a block is added, the tree is in range as well, and the height of the block is. -/
lemma InRange.of_added (hrange : tree'.InRange) (hadded : Added h pindexNew tree tree')
    (hnew : h ∉ tree.mapBlockIndex) : tree.InRange ∧ 0 ≤ heightOf pindexNew := by
  have hheight : ∀ k p, (if h = k then some pindexNew else tree.mapBlockIndex[k]?) = some p →
      0 ≤ heightOf p := by
    intro k p hp
    have hrel := hadded.indices k
    rw [hp] at hrel
    rcases rel_cases hrel with ⟨hnone, -⟩ | ⟨_, q, hp', hq, fields, rfl⟩
    · cases hnone
    · cases hp'
      have hne : k ≠ 0 := fun hzero => hrange.hash (hzero ▸ MapLoop.mem_iff.mpr ⟨_, hq⟩)
      exact hrange.height k (p.withFields fields) (find_eq_some.mpr ⟨hne, hq⟩)
  refine ⟨⟨fun hzero => hrange.hash (hadded.mem_iff.mpr (Or.inr hzero)), fun k p hfound => ?_⟩,
    hheight h _ (if_pos rfl)⟩
  have hne : h ≠ k := fun heq => hnew (heq ▸ mem_of_find hfound)
  exact hheight k p ((if_neg hne).trans (find_eq_some.mp hfound).2)

/-- A height that is one more than another one, and has not become negative. -/
lemma height_eq_of_next (hnext : p.nHeight = q.nHeight + 1)
    (hp : 0 ≤ heightOf p) (hq : 0 ≤ heightOf q) : heightOf p = heightOf q + 1 := by
  unfold heightOf at *
  have hone : (1 : Int32).toInt = 1 := rfl
  have hlt := q.nHeight.toInt_lt
  rw [hnext, Int32.toInt_add, hone] at hp ⊢
  rw [Int.bmod_def] at hp ⊢
  split_ifs at hp ⊢ <;> omega

/-- Another tree with the same blocks. -/
lemma OneRoot.of_mapBlockIndex (htree : tree.InRange → tree.OneRoot genesis)
    (hmap : tree'.mapBlockIndex = tree.mapBlockIndex) (hrange : tree'.InRange) :
    tree'.OneRoot genesis := by
  have hfind : tree'.find = tree.find := funext fun k => (past_congr hmap k).1
  obtain ⟨⟨hhash, hclosed, hwalks⟩, hgenesis, hheight⟩ :=
    htree ⟨hmap ▸ hrange.hash, hfind ▸ hrange.height⟩
  rw [← hmap] at hhash hclosed hwalks
  rw [← hfind] at hwalks hgenesis hheight
  exact ⟨⟨hhash, hclosed, hwalks⟩, hgenesis, hheight⟩

/-- A call of `AcceptBlock`. -/
lemma OneRoot.acceptBlock (node : AcceptNode) (block : CBlock)
    (htree : tree.InRange → tree.OneRoot genesis)
    (hrange : (block.acceptBlock hash hash9 node tree).1.InRange) :
    (block.acceptBlock hash hash9 node tree).1.OneRoot genesis := by
  rcases block.acceptBlock_cases node tree hash hash9 with
    ⟨heq, -⟩ | ⟨_, _, pindexNew, hnew, hprev, hindex, hadded⟩
  · rw [heq] at hrange ⊢
    exact htree hrange
  · obtain ⟨hrange₀, hheight⟩ := hrange.of_added hadded hnew
    have hzero : block.hashPrevBlock ≠ 0 := fun heq => hrange₀.hash (heq ▸ hprev)
    obtain ⟨hhash, hpprev, -⟩ := newIndex_eq_some hindex
    rw [if_pos (Std.ExtTreeMap.contains_iff_mem.mpr hprev)] at hpprev
    refine (htree hrange₀).added hadded hnew hhash (Or.inr ⟨hpprev ▸ hprev, hpprev ▸ hzero⟩) ?_
    intro q hq
    have hnext : pindexNew.nHeight = q.nHeight + 1 := by
      rw [hpprev] at hq
      exact nHeight_newIndex hindex q (find_eq_some.mp hq).2
    exact height_eq_of_next hnext hheight (hrange₀.height _ q hq)

end BlockTree

section Runs

variable {hash hash9 : Bytes → UInt256} {fTestNet : Bool} {genesis : CBlock}
  {admits : BlockCall → BlockStore → Prop} {calls : List BlockCall} {s : BlockStore}

/-- In every run in which no block has the hash zero and no height has overflowed, all blocks come
from the genesis block, and their heights say how far they are from it. -/
lemma BlockRun.oneRoot (hrun : BlockRun hash hash9 fTestNet genesis admits calls s)
    (hrange : s.tree.InRange) : s.tree.OneRoot (genesis.getHash hash9) := by
  have hall : s.tree.InRange → s.tree.OneRoot (genesis.getHash hash9) := by
    clear hrange
    induction hrun with
    | start node nFile nBlockPos _ hprev =>
      intro hrange
      rcases genesis.addToTree_cases node {} hash hash9 nFile nBlockPos with
        ⟨heq, -⟩ | ⟨pindexNew, hindex, hadded⟩
      · dsimp only
        rw [heq]
        exact .empty _
      · obtain ⟨hhash, hpprev, -⟩ := BlockTree.newIndex_eq_some hindex
        have hnot : ¬ ({} : BlockTree).mapBlockIndex.contains genesis.hashPrevBlock = true := by simp
        rw [if_neg hnot] at hpprev
        refine (BlockTree.OneRoot.empty _).added hadded (by simp) hhash (Or.inl ⟨hpprev, rfl⟩) ?_
        intro q hq
        rw [hpprev, BlockTree.find_zero] at hq
        cases hq
    | @call calls s c _ _ _ ih =>
      unfold BlockCall.outcome processBlock
      cases hcheck : checkStage hash hash9 c.node c.pblock s with
      | error outcome =>
        rcases (checkStage_eq_error hcheck).2 with hstore | ⟨-, -, -, -, -, hstore⟩
        · dsimp only
          rw [hstore]
          exact ih
        · dsimp only
          rw [hstore]
          exact BlockTree.OneRoot.of_mapBlockIndex ih rfl
      | ok s₁ =>
        obtain ⟨-, -, -, -, hchecked⟩ := checkStage_eq_ok hcheck
        have hs₁ := BlockTree.OneRoot.of_mapBlockIndex ih hchecked.mapBlockIndex
        have hstep : ∀ (block : CBlock) (tree : BlockTree), True →
            (tree.InRange → tree.OneRoot (genesis.getHash hash9)) →
              (block.acceptBlock hash hash9 (c.node.accept tree block) tree).1.InRange →
                (block.acceptBlock hash hash9 (c.node.accept tree block) tree).1.OneRoot
                  (genesis.getHash hash9) :=
          fun block tree _ htree => .acceptBlock _ block htree
        exact (placeBlock_tree hstep hs₁ (fun _ _ => trivial) trivial).1
  exact hall hrange

/-- In every such run, the search of `Reorganize` for the fork of two blocks that the node knows ends
at their lowest common ancestor. -/
theorem BlockRun.findFork_spec (hrun : BlockRun hash hash9 fTestNet genesis admits calls s)
    (hrange : s.tree.InRange) :
    s.tree.OneRoot (genesis.getHash hash9) ∧
      ∀ h k, h ∈ s.tree.mapBlockIndex → k ∈ s.tree.mapBlockIndex →
        ∃ pfork, findFork (s.tree.past h) (s.tree.past k) = some pfork ∧
          s.tree.IsForkPoint pfork h k := by
  have hroot := hrun.oneRoot hrange
  have hfound : ∀ {h}, h ∈ s.tree.mapBlockIndex → ∃ p, s.tree.find h = some p := by
    intro h hknown
    obtain ⟨p, hp⟩ := MapLoop.mem_iff.mp hknown
    have hne : h ≠ 0 := fun hzero => hrange.hash (hzero ▸ hknown)
    exact ⟨p, BlockTree.find_eq_some.mpr ⟨hne, hp⟩⟩
  refine ⟨hroot, fun h k hh hk => ?_⟩
  obtain ⟨p, hp⟩ := hfound hh
  obtain ⟨q, hq⟩ := hfound hk
  exact hroot.exists_findFork hp hq

end Runs

/-- The store after calls on two blocks with the same parent. -/
def testFork : BlockStore := testStore [testWorkBlock 1 3 1424304840 1, testFirst]

/-- The fork of the two blocks. -/
theorem findFork_testFork : ∃ pfork,
    findFork (testFork.tree.past 2) (testFork.tree.past 3) = some pfork ∧
      testFork.tree.IsForkPoint pfork 2 3 := by
  have hrun : BlockRun sampleHash nonceHash true testGenesis (fun _ _ => True) _ testFork :=
    blockRun_testStore fun _ _ _ => trivial
  have hall : ∀ mi ∈ testFork.tree.mapBlockIndex.toList, 0 ≤ heightOf mi.2 := by decide +kernel
  refine (hrun.findFork_spec ⟨by decide +kernel, fun h p hp => ?_⟩).2 2 3 (by decide +kernel)
    (by decide +kernel)
  exact hall (h, p) (Std.ExtTreeMap.mem_toList_iff_getElem?_eq_some.mpr
    (BlockTree.find_eq_some.mp hp).2)

/-! ## `Reorganize` -/

/-- What `Reorganize` has disconnected and connected when it commits. -/
lemma switchBranch_eq_ok {hash hash9 : Bytes → UInt256} {node : ChainNode} {s : BestChain}
    {pfork pindexNew : UInt256} {switch : Switch}
    (hfound : findFork (s.tree.past s.pindexBest) (s.tree.past pindexNew) = some pfork)
    (h : (switchBranch hash hash9 node pindexNew s).2 = .ok switch) :
    switch.vDisconnect = s.tree.above pfork s.pindexBest ∧
      switch.vConnect = (s.tree.above pfork pindexNew).reverse := by
  rw [switchBranch, hfound] at h
  dsimp only at h
  cases hdisconnect : (s.tree.above pfork s.pindexBest).foldlM (disconnectTurn hash hash9 node s)
      (s.db.txs, []) with
  | error exit =>
    rw [hdisconnect] at h
    cases h
  | ok t =>
    rw [hdisconnect] at h
    dsimp only at h
    rcases hconnect : foldThrow (connectTurn hash hash9 node)
      (s.tree.above pfork pindexNew).reverse
      ({ s with db := { s.db with txs := t.1 } }, []) with ⟨⟨s', vDelete⟩, _ | exit⟩
    · rw [hconnect] at h
      dsimp only at h
      split_ifs at h
      · cases h
        exact ⟨rfl, rfl⟩
    · rw [hconnect] at h
      cases h

/-- `Reorganize` that commits goes down from the best block to the fork, and up to the new block. -/
lemma switchBranch_ways {hash hash9 : Bytes → UInt256} {node : ChainNode} {s : BestChain}
    {genesis pindexNew : UInt256} {switch : Switch}
    (htree : s.tree.OneRoot genesis) (hbest : s.tree.find s.pindexBest = some p)
    (hnew : s.tree.find pindexNew = some q)
    (h : (switchBranch hash hash9 node pindexNew s).2 = .ok switch) :
    ∃ pfork, s.tree.Way pfork s.pindexBest switch.vDisconnect ∧
      s.tree.Way pfork pindexNew switch.vConnect.reverse := by
  obtain ⟨pfork, hfound, hfork⟩ := htree.exists_findFork hbest hnew
  obtain ⟨hdisconnect, hconnect⟩ := switchBranch_eq_ok hfound h
  rw [hdisconnect, hconnect, List.reverse_reverse]
  exact ⟨pfork, htree.way_above hbest hfork.left, htree.way_above hnew hfork.right⟩

/-- The search of `Reorganize` ends at the lowest common ancestor of the best block and the new one.
The blocks that are disconnected are those from the best block down to it, and the ones that are
connected are those from the new block down to it, in the other order.  If one of the two blocks is
an ancestor of the other one, it is the fork, and nothing is disconnected or connected on its
side. -/
theorem switchBranch_along_ways {s : BestChain} {genesis pindexNew : UInt256}
    (htree : s.tree.OneRoot genesis)
    (hbest : (s.tree.find s.pindexBest).isSome) (hnew : (s.tree.find pindexNew).isSome) :
    ∃ pfork vDisconnect vConnect,
      findFork (s.tree.past s.pindexBest) (s.tree.past pindexNew) = some pfork ∧
      s.tree.above pfork s.pindexBest = vDisconnect ∧
      (s.tree.above pfork pindexNew).reverse = vConnect ∧
      s.tree.IsForkPoint pfork s.pindexBest pindexNew ∧
      s.tree.Way pfork s.pindexBest vDisconnect ∧
      s.tree.Way pfork pindexNew vConnect.reverse ∧
      (s.tree.Ancestor s.pindexBest pindexNew → pfork = s.pindexBest ∧ vDisconnect = []) ∧
      (s.tree.Ancestor pindexNew s.pindexBest → pfork = pindexNew ∧ vConnect = []) ∧
      ∀ (hash hash9 : Bytes → UInt256) (node : ChainNode) (switch : Switch),
        (switchBranch hash hash9 node pindexNew s).2 = .ok switch →
          switch.vDisconnect = vDisconnect ∧ switch.vConnect = vConnect := by
  obtain ⟨best, hbest⟩ := Option.isSome_iff_exists.mp hbest
  obtain ⟨new, hnew⟩ := Option.isSome_iff_exists.mp hnew
  have hroot := htree.toRooted
  obtain ⟨pfork, hfound, hfork⟩ := htree.exists_findFork hbest hnew
  have hway := hroot.way_above hbest hfork.left
  have hway' := hroot.way_above hnew hfork.right
  refine ⟨pfork, _, _, hfound, rfl, rfl, hfork, hway, ?_, fun hanc => ?_, fun hanc => ?_, ?_⟩
  · rw [List.reverse_reverse]
    exact hway'
  · have heq := (hroot.walks_of_find hbest).ancestor_antisymm hfork.left
      (hfork.lowest _ ⟨[], .here hbest⟩ hanc)
    rw [heq] at hway ⊢
    exact ⟨rfl, (hroot.walks_of_find hbest).eq_nil_of_way hway⟩
  · have heq := (hroot.walks_of_find hnew).ancestor_antisymm hfork.right
      (hfork.lowest _ hanc ⟨[], .here hnew⟩)
    rw [heq] at hway' ⊢
    rw [(hroot.walks_of_find hnew).eq_nil_of_way hway']
    exact ⟨rfl, rfl⟩
  · intro hash hash9 node switch hswitch
    exact switchBranch_eq_ok hfound hswitch

/-- A first block, two blocks on top of it, and another branch with one block. -/
def twoBranches : BlockTree :=
  (((({} : BlockTree).insertIndex 1 { phashBlock := 1 }).insertIndex 2
    { phashBlock := 2, pprev := 1, nHeight := 1 }).insertIndex 3
    { phashBlock := 3, pprev := 2, nHeight := 2 }).insertIndex 4
    { phashBlock := 4, pprev := 1, nHeight := 1 }

/-- Inserting the index of a block whose parent is known. -/
lemma BlockTree.OneRoot.insertIndex {tree : BlockTree} {genesis h : UInt256}
    {p : CBlockIndex} {n : Int32} (htree : tree.OneRoot genesis)
    (hnew : h ∉ tree.mapBlockIndex) (hhash : p.phashBlock = h)
    (hparent : (tree.find p.pprev).map CBlockIndex.nHeight = some n)
    (hheight : heightOf p = n.toInt + 1) : (tree.insertIndex h p).OneRoot genesis := by
  obtain ⟨q, hq, rfl⟩ := Option.map_eq_some_iff.mp hparent
  refine htree.added (added_insertIndex tree h p) hnew hhash
    (Or.inr ⟨mem_of_find hq, ne_zero_of_find hq⟩) fun r hr => ?_
  rw [hq] at hr
  cases hr
  exact hheight

lemma oneRoot_twoBranches : twoBranches.OneRoot 1 := by
  have h₁ : (({} : BlockTree).insertIndex 1 { phashBlock := 1 }).OneRoot 1 := by
    refine (BlockTree.OneRoot.empty 1).added (BlockTree.added_insertIndex _ _ _) (by simp) rfl
      (Or.inl ⟨rfl, rfl⟩) fun q hq => ?_
    cases hq
  have h₂ := h₁.insertIndex (h := 2) (p := { phashBlock := 2, pprev := 1, nHeight := 1 })
    (n := 0) (by decide +kernel) rfl (by decide +kernel) (by decide +kernel)
  have h₃ := h₂.insertIndex (h := 3) (p := { phashBlock := 3, pprev := 2, nHeight := 2 })
    (n := 1) (by decide +kernel) rfl (by decide +kernel) (by decide +kernel)
  exact h₃.insertIndex (h := 4) (p := { phashBlock := 4, pprev := 1, nHeight := 1 })
    (n := 0) (by decide +kernel) rfl (by decide +kernel) (by decide +kernel)

/-- Switching to the second branch disconnects the two blocks of the first one. -/
theorem switchBranch_twoBranches : ∃ pfork, ∃ vDisconnect vConnect : List UInt256,
    findFork (twoBranches.past 3) (twoBranches.past 4) = some pfork ∧
      twoBranches.IsForkPoint pfork 3 4 ∧ twoBranches.Way pfork 3 vDisconnect ∧
      twoBranches.Way pfork 4 vConnect.reverse := by
  have hnew : (twoBranches.find 4).isSome = true := by decide +kernel
  obtain ⟨pfork, vDisconnect, vConnect, hfound, -, -, hfork, hway, hway', -⟩ :=
    switchBranch_along_ways (s := { tree := twoBranches, pindexBest := 3 }) oneRoot_twoBranches
      (by decide +kernel) hnew
  exact ⟨pfork, vDisconnect, vConnect, hfound, hfork, hway, hway'⟩

end HyperStake
