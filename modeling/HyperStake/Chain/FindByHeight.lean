import HyperStake.Chain.ChainLinks
import HyperStake.Chain.Kernel
import HyperStake.Chain.Leftover
import HyperStake.Chain.ProposalStatus

/-!
# Searching a block by its height

`FindBlockByHeight` starts at the genesis block, at the best block or at the block that it found last,
and follows the `pprev` pointers down and then the `pnext` pointers up.  As long as the links lead along
the best chain and the block found last is on it, the search ends at the block with the height
(`exists_findBlockByHeight`).  `SetBestChain` forgets the block found last when it changes the best
chain, so that this is so in every run in which no switch to another branch fails halfway
(`SearchRun.findBlockByHeight_spec`).
-/

namespace HyperStake

open LinkWalk Descending

namespace BestChain

/-- The block that `FindBlockByHeight` starts at, with the block that was found last, or the null
pointer. -/
def searchStart (nHeight : Int32) (pblockindexFBBHLast : UInt256) (s : BestChain) :
    Option CBlockIndex :=
  (s.tree.find (if nHeight < s.nBestHeight / 2 then s.pindexGenesisBlock else s.pindexBest)).map
    fun pblockindex =>
      match s.tree.find pblockindexFBBHLast with
      | some last =>
        if (nHeight - pblockindex.nHeight).abs > (nHeight - last.nHeight).abs then last
        else pblockindex
      | none => pblockindex

/-- The loops of `FindBlockByHeight`: down to the height, and then up to it. -/
def searchFrom (nHeight : Int32) (s : BestChain) (pblockindex : CBlockIndex) :
    Option CBlockIndex := do
  let pblockindex ← ((pblockindex :: s.tree.past pblockindex.pprev).dropWhile
    fun p => decide (p.nHeight > nHeight)).head?
  ((pblockindex :: s.tree.following pblockindex.pnext).dropWhile
    fun p => decide (p.nHeight < nHeight)).head?

/-- `FindBlockByHeight`.  There is no result if the search follows a null pointer or does not end. -/
def findBlockByHeight (nHeight : Int32) (pblockindexFBBHLast : UInt256) (s : BestChain) :
    Option CBlockIndex :=
  (s.searchStart nHeight pblockindexFBBHLast).bind (s.searchFrom nHeight)

end BestChain

/-! ## The search along the links -/

/-- The block before which another one stands on a chain. -/
lemma nextOn_append {before after : List UInt256} {h k : UInt256}
    (hnodup : (before ++ h :: k :: after).Nodup) : nextOn (before ++ h :: k :: after) k = h := by
  induction before with
  | nil =>
    rw [List.nil_append, nextOn, if_pos rfl]
  | cons x before ih =>
    have hrest := (List.nodup_cons.mp hnodup).2
    cases before with
    | nil =>
      have hne : k ≠ h := by
        rintro rfl
        exact (List.nodup_cons.mp hrest).1 List.mem_cons_self
      rw [List.singleton_append, nextOn, if_neg hne]
      exact ih hrest
    | cons y before =>
      have hne : k ≠ y := by
        rintro rfl
        refine (List.nodup_cons.mp hrest).1 ?_
        simp
      rw [List.cons_append, List.cons_append, nextOn, if_neg hne]
      exact ih hrest

namespace BestChain

variable {s : BestChain} {genesis : UInt256} {p c : CBlockIndex} {nHeight : Int32}
  {above below : List CBlockIndex}

/-- The block found last is on the best chain, or it has been forgotten. -/
def Remembers (s : BestChain) (pblockindexFBBHLast : UInt256) : Prop :=
  pblockindexFBBHLast = 0 ∨ pblockindexFBBHLast ∈ s.tree.path s.pindexBest

namespace Linked

section

variable (hlinked : s.Linked genesis)

include hlinked

/-- A block of the best chain. -/
lemma find_of_mem (hp : p ∈ s.tree.past s.pindexBest) : s.tree.find p.phashBlock = some p := by
  cases hfound : s.tree.find s.pindexBest with
  | none =>
    rw [BlockTree.past_of_find_eq_none hfound] at hp
    cases hp
  | some best =>
    exact hlinked.tree.find_of_mem_past (Or.inr (BlockTree.mem_of_find hfound)) hp

lemma descends : Descends heightOf (s.tree.past s.pindexBest) := by
  cases hfound : s.tree.find s.pindexBest with
  | none =>
    rw [BlockTree.past_of_find_eq_none hfound]
    exact .nil
  | some best => exact hlinked.tree.descends (hlinked.tree.walks_of_find hfound)

/-- The first block of the tree is on the best chain. -/
lemma exists_root {best : CBlockIndex} (hbest : s.tree.find s.pindexBest = some best) :
    ∃ root ∈ s.tree.past s.pindexBest, s.tree.find genesis = some root := by
  have hne : s.tree.past s.pindexBest ≠ [] := by
    rw [hlinked.tree.past_eq_cons hbest]
    exact List.cons_ne_nil _ _
  obtain ⟨root, hfirst, hlast⟩ :=
    hlinked.tree.exists_getLast? (hlinked.tree.walks_of_find hbest) hne
  exact ⟨root, List.mem_of_getLast? hlast, hfirst⟩

section

variable (hchain : s.tree.past s.pindexBest = above ++ p :: below)

include hchain

/-- The `pprev` pointers lead from a block of the best chain to those below it. -/
lemma past_pprev : s.tree.past p.pprev = below := by
  cases hfound : s.tree.find s.pindexBest with
  | none =>
    rw [BlockTree.past_of_find_eq_none hfound] at hchain
    simp at hchain
  | some best =>
    have hwalk := hlinked.tree.walks_of_find hfound
    rw [hchain] at hwalk
    exact BlockTree.past_eq hwalk.of_append

/-- The `pnext` pointers lead from a block of the best chain to those above it. -/
lemma walks_pnext : Walks s.tree.find CBlockIndex.pnext p.pnext above.reverse := by
  have hnext : ∀ q ∈ s.tree.past s.pindexBest, q.pnext = nextOn (s.tree.path s.pindexBest) q.phashBlock := by
    intro q hq
    rw [← hlinked.links, BlockTree.next, hlinked.find_of_mem hq]
    rfl
  have hnodup := hlinked.tree.nodup_path s.pindexBest
  have hpath : s.tree.path s.pindexBest = (s.tree.past s.pindexBest).map CBlockIndex.phashBlock := rfl
  rw [hpath] at hnext hnodup
  induction above using List.reverseRecOn generalizing p below with
  | nil =>
    have hlast := hnext p (by rw [hchain]; simp)
    rw [hchain, List.nil_append, List.map_cons] at hlast hnodup
    rw [hlast, nextOn_eq_zero (List.nodup_cons.mp hnodup).1]
    exact .stop s.tree.find_zero
  | append_singleton above q ih =>
    rw [List.append_assoc, List.singleton_append] at hchain
    have hlink := hnext p (by rw [hchain]; simp)
    have hq : s.tree.find q.phashBlock = some q := hlinked.find_of_mem (by rw [hchain]; simp)
    rw [hchain, List.map_append, List.map_cons, List.map_cons] at hlink
    rw [hchain, List.map_append, List.map_cons, List.map_cons] at hnodup
    rw [nextOn_append hnodup] at hlink
    rw [List.reverse_append, hlink]
    exact .step hq (ih hchain)

/-- From a block of the best chain the loops end at the block with the height. -/
lemma searchFrom_eq (hc : c ∈ above ++ p :: below)
    (hheight : c.nHeight = nHeight) : s.searchFrom nHeight p = some c := by
  have hdescends := hlinked.descends
  rw [hchain] at hdescends
  have hdown : (fun q : CBlockIndex => decide (q.nHeight > nHeight)) =
      fun q => decide (nHeight.toInt < heightOf q) := by
    funext q
    exact decide_eq_decide.mpr Int32.lt_iff_toInt_lt
  have hup : (fun q : CBlockIndex => decide (q.nHeight < nHeight)) =
      fun q => decide (-nHeight.toInt < -heightOf q) := by
    funext q
    refine decide_eq_decide.mpr (Int32.lt_iff_toInt_lt.trans ?_)
    exact neg_lt_neg_iff.symm
  have hnum : heightOf c = nHeight.toInt := congrArg Int32.toInt hheight
  rw [searchFrom, hlinked.past_pprev hchain, hdown, hup, Option.bind_eq_bind]
  have hbelowChain : Descends heightOf (p :: below) :=
    List.IsChain.right_of_append hdescends
  rcases List.mem_append.mp hc with habove | hbelow
  · -- the block is above the one that the search starts from
    have hlow := hdescends.lt_of_mem_append habove
    rw [List.dropWhile_cons_of_neg (by simp only [decide_eq_true_eq]; omega), List.head?_cons,
      Option.bind_some, BlockTree.following_eq_of_walks (hlinked.walks_pnext hchain)]
    have habovechain : Descends (fun q => -heightOf q) (p :: above.reverse) := by
      have hfirst : Descends heightOf (above ++ [p]) := by
        rw [← List.singleton_append, ← List.append_assoc] at hdescends
        exact hdescends.left_of_append
      have hreverse := hfirst.reverse
      rwa [List.reverse_append] at hreverse
    obtain ⟨rest, hrest⟩ := habovechain.dropWhile_eq (n := -nHeight.toInt)
      (List.mem_cons_of_mem _ (List.mem_reverse.mpr habove)) (congrArg Neg.neg hnum)
    rw [hrest]
    rfl
  · obtain ⟨rest, hrest⟩ := hbelowChain.dropWhile_eq hbelow hnum
    rw [hrest, List.head?_cons, Option.bind_some,
      List.dropWhile_cons_of_neg (by simp only [decide_eq_true_eq]; omega)]
    rfl

/-- From a block of the best chain the loops end at a block of the best chain, if they end. -/
lemma mem_of_searchFrom (hfound : s.searchFrom nHeight p = some c) : c ∈ above ++ p :: below := by
  rw [searchFrom, hlinked.past_pprev hchain, Option.bind_eq_bind, Option.bind_eq_some_iff] at hfound
  obtain ⟨q, hq, hc⟩ := hfound
  have hqMem : q ∈ p :: below := (List.dropWhile_sublist _).subset (List.mem_of_mem_head? hq)
  have hmem := (List.dropWhile_sublist _).subset (List.mem_of_mem_head? hc)
  obtain ⟨passed, rest, hsplit⟩ := List.append_of_mem hqMem
  rw [hsplit, ← List.append_assoc] at hchain ⊢
  rw [BlockTree.following_eq_of_walks (hlinked.walks_pnext hchain)] at hmem
  rcases List.mem_cons.mp hmem with rfl | hmem
  · exact List.mem_append_right _ List.mem_cons_self
  · exact List.mem_append_left _ (List.mem_reverse.mp hmem)

end

end

variable {pblockindexFBBHLast : UInt256}

section

variable (hlinked : s.Linked genesis) (hlast : s.Remembers pblockindexFBBHLast)

include hlinked hlast

/-- The search starts at a block of the best chain. -/
lemma exists_searchStart (hne : s.pindexBest ≠ 0) :
    ∃ p ∈ s.tree.past s.pindexBest, s.searchStart nHeight pblockindexFBBHLast = some p := by
  obtain ⟨hgenesis, best, hbest, -⟩ := hlinked.best hne
  obtain ⟨root, hroot, hfirst⟩ := hlinked.exists_root hbest
  have hstart : ∃ p ∈ s.tree.past s.pindexBest,
      s.tree.find (if nHeight < s.nBestHeight / 2 then s.pindexGenesisBlock else s.pindexBest) =
        some p := by
    split_ifs
    · rw [hgenesis]
      exact ⟨root, hroot, hfirst⟩
    · refine ⟨best, ?_, hbest⟩
      rw [hlinked.tree.past_eq_cons hbest]
      exact List.mem_cons_self
  obtain ⟨p, hp, hfound⟩ := hstart
  rw [searchStart, hfound, Option.map_some]
  cases hcached : s.tree.find pblockindexFBBHLast with
  | none => exact ⟨p, hp, rfl⟩
  | some last =>
    have hlastMem : last ∈ s.tree.past s.pindexBest := by
      have hmem : pblockindexFBBHLast ∈ s.tree.path s.pindexBest := by
        refine hlast.resolve_left fun hzero => ?_
        rw [hzero, BlockTree.find_zero] at hcached
        cases hcached
      obtain ⟨q, hq, heq⟩ := List.mem_map.mp hmem
      have hqfound := hlinked.find_of_mem hq
      rw [heq, hcached] at hqfound
      rw [Option.some.inj hqfound]
      exact hq
    dsimp only
    split_ifs
    · exact ⟨last, hlastMem, rfl⟩
    · exact ⟨p, hp, rfl⟩

/-- The block with a height between zero and that of the best block is found, if the block that was
found last is on the best chain. -/
lemma exists_findBlockByHeight (hlow : 0 ≤ nHeight.toInt)
    (hhigh : nHeight.toInt ≤ s.nBestHeight.toInt) :
    ∃ p ∈ s.tree.past s.pindexBest, s.findBlockByHeight nHeight pblockindexFBBHLast = some p ∧
      p.nHeight = nHeight := by
  have hne : s.pindexBest ≠ 0 := by
    intro hzero
    have hminus : s.nBestHeight.toInt = -1 := by
      rw [(hlinked.start hzero).2]
      rfl
    omega
  obtain ⟨-, best, hbest, hheight⟩ := hlinked.best hne
  obtain ⟨root, hroot, hfirst⟩ := hlinked.exists_root hbest
  -- the block with the height
  obtain ⟨c, hc, hnum⟩ : ∃ c ∈ s.tree.past s.pindexBest, heightOf c = nHeight.toInt := by
    have hdescends := hlinked.descends
    rw [hlinked.tree.past_eq_cons hbest] at hdescends hroot ⊢
    refine hdescends.exists_of_le hroot ?_ ?_
    · rw [hlinked.lowest root hfirst]
      exact hlow
    · have hsame : heightOf best = s.nBestHeight.toInt := congrArg Int32.toInt hheight
      rw [hsame]
      exact hhigh
  have hcn : c.nHeight = nHeight := Int32.toInt_inj.mp hnum
  obtain ⟨p, hp, hstart⟩ := hlinked.exists_searchStart hlast hne
  obtain ⟨above, below, hchain⟩ := List.append_of_mem hp
  refine ⟨c, hc, ?_, hcn⟩
  rw [findBlockByHeight, hstart, Option.bind_some]
  rw [hchain] at hc
  exact hlinked.searchFrom_eq hchain hc hcn

/-- What a search finds is on the best chain. -/
lemma mem_of_findBlockByHeight (hfound : s.findBlockByHeight nHeight pblockindexFBBHLast = some c) :
    c ∈ s.tree.past s.pindexBest := by
  by_cases hzero : s.pindexBest = 0
  · -- before there is a best block, both pointers are null
    have hnull : (if nHeight < s.nBestHeight / 2 then s.pindexGenesisBlock else s.pindexBest) = 0 := by
      rw [(hlinked.start hzero).1, hzero, ite_self]
    rw [findBlockByHeight, searchStart, hnull, BlockTree.find_zero] at hfound
    cases hfound
  · obtain ⟨p, hp, hstart⟩ : ∃ p ∈ s.tree.past s.pindexBest,
        s.searchStart nHeight pblockindexFBBHLast = some p := hlinked.exists_searchStart hlast hzero
    obtain ⟨above, below, hchain⟩ := List.append_of_mem hp
    rw [findBlockByHeight, hstart, Option.bind_some] at hfound
    rw [hchain]
    exact hlinked.mem_of_searchFrom hchain hfound

end

end Linked

end BestChain

/-! ## Runs -/

/-- An index that `AddToBlockIndex` adds to a tree with a genesis block. -/
structure BlockTree.NewBlock (genesis : UInt256) (tree : BlockTree) (pindexNew : CBlockIndex) :
    Prop where
  notMem : pindexNew.phashBlock ∉ tree.mapBlockIndex
  pnext : pindexNew.pnext = 0
  parent : (pindexNew.pprev = 0 ∧ pindexNew.phashBlock = genesis ∧ pindexNew.nHeight = 0) ∨
    ∃ q, tree.find pindexNew.pprev = some q ∧ heightOf pindexNew = heightOf q + 1

/-- The block that was found last after a call of `SetBestChain` with a result. -/
def forgetLast (result : Except Fault Bool) (pblockindexFBBHLast : UInt256) : UInt256 :=
  match result with
  | .ok true => 0
  | _ => pblockindexFBBHLast

/-- The states that adding blocks, calls of `SetBestChain` and calls of `FindBlockByHeight` lead to,
with the block that was found last.  The calls of `SetBestChain` are admitted in the states that they
are made in. -/
inductive SearchRun (hash hash9 : Bytes → UInt256) (genesis : UInt256)
    (admits : ChainNode → CBlock → BestChain → Prop) : BestChain → UInt256 → Prop
  | start : SearchRun hash hash9 genesis admits {} 0
  | add {s : BestChain} {last : UInt256} (pindexNew : CBlockIndex) :
      SearchRun hash hash9 genesis admits s last → s.tree.NewBlock genesis pindexNew →
      SearchRun hash hash9 genesis admits
        { s with tree := s.tree.insertIndex pindexNew.phashBlock pindexNew } last
  | setBestChain {s : BestChain} {last : UInt256} (node : ChainNode) (block : CBlock) :
      SearchRun hash hash9 genesis admits s last → node.hashGenesisBlock = genesis →
      block.IndexedIn hash9 s.tree → admits node block s →
      SearchRun hash hash9 genesis admits (setBestChain hash hash9 node block s).1
        (forgetLast (setBestChain hash hash9 node block s).2 last)
  | find {s : BestChain} {last : UInt256} (nHeight : Int32) {p : CBlockIndex} :
      SearchRun hash hash9 genesis admits s last → s.findBlockByHeight nHeight last = some p →
      SearchRun hash hash9 genesis admits s p.phashBlock

section Runs

variable {hash hash9 : Bytes → UInt256} {genesis : UInt256} {s : BestChain} {last : UInt256}

/-- Adding a block. -/
lemma BestChain.Linked.add {pindexNew : CBlockIndex} (hlinked : s.Linked genesis)
    (hnew : s.tree.NewBlock genesis pindexNew) :
    BestChain.Linked genesis
        { s with tree := s.tree.insertIndex pindexNew.phashBlock pindexNew } ∧
      (s.tree.insertIndex pindexNew.phashBlock pindexNew).path s.pindexBest =
        s.tree.path s.pindexBest := by
  have hroot := hlinked.tree.toRooted
  have hadded := BlockTree.added_insertIndex s.tree pindexNew.phashBlock pindexNew
  have hknown : s.pindexBest = 0 ∨ s.pindexBest ∈ s.tree.mapBlockIndex := by
    refine or_iff_not_imp_left.mpr fun hne => ?_
    obtain ⟨-, best, hbest, -⟩ := hlinked.best hne
    exact BlockTree.mem_of_find hbest
  have hpath : (s.tree.insertIndex pindexNew.phashBlock pindexNew).path s.pindexBest =
      s.tree.path s.pindexBest :=
    (BlockTree.SameNodes.map_phashBlock_eq (hroot.past_added hadded hnew.notMem hknown)).symm
  have hfind : ∀ k, k ≠ 0 → (s.tree.insertIndex pindexNew.phashBlock pindexNew).find k =
      if pindexNew.phashBlock = k then some pindexNew else s.tree.find k := by
    intro k hk
    rw [BlockTree.find, BlockTree.find, if_neg hk, if_neg hk, BlockTree.insertIndex,
      MapLoop.getElem?_insert_eq]
  have htree : (s.tree.insertIndex pindexNew.phashBlock pindexNew).OneRoot genesis := by
    rcases hnew.parent with ⟨hzero, hfirst, -⟩ | ⟨q, hq, hheight⟩
    · refine hlinked.tree.added hadded hnew.notMem rfl (Or.inl ⟨hzero, hfirst⟩) fun q hq => ?_
      rw [hzero, BlockTree.find_zero] at hq
      cases hq
    · refine hlinked.tree.added hadded hnew.notMem rfl
        (Or.inr ⟨BlockTree.mem_of_find hq, BlockTree.ne_zero_of_find hq⟩) fun r hr => ?_
      rw [hq] at hr
      cases hr
      exact hheight
  have hnone : s.tree.find pindexNew.phashBlock = none :=
    BlockTree.find_eq_none.mpr (Or.inr hnew.notMem)
  refine ⟨⟨htree, fun p hp => ?_, ?_, hlinked.hashBestChain, hlinked.start, fun hne => ?_⟩, hpath⟩
  · rw [hfind genesis (BlockTree.ne_zero_of_find hp)] at hp
    split_ifs at hp with heq
    · cases hp
      rcases hnew.parent with ⟨-, -, hzero⟩ | ⟨q, hq, -⟩
      · exact congrArg Int32.toInt hzero
      · -- a tree with a block has the first block already
        have hne : s.tree.past pindexNew.pprev ≠ [] := by
          rw [hroot.past_eq_cons hq]
          exact List.cons_ne_nil _ _
        obtain ⟨root, hfirst, -⟩ := hlinked.tree.exists_getLast? (hroot.walks_of_find hq) hne
        rw [← heq, hnone] at hfirst
        cases hfirst
    · exact hlinked.lowest p hp
  · funext k
    rw [hpath, ← hlinked.links]
    by_cases hk : k = 0
    · rw [hk, BlockTree.next, BlockTree.next, BlockTree.find_zero, BlockTree.find_zero]
    · rw [BlockTree.next, BlockTree.next, hfind k hk]
      split_ifs with heq
      · rw [← heq, hnone, Option.map_some, hnew.pnext]
        rfl
      · rfl
  · obtain ⟨hgenesis, best, hbest, hheight⟩ := hlinked.best hne
    refine ⟨hgenesis, best, ?_, hheight⟩
    have hother : pindexNew.phashBlock ≠ s.pindexBest := by
      intro heq
      rw [heq, hbest] at hnone
      cases hnone
    dsimp only
    rw [hfind s.pindexBest hne, if_neg hother]
    exact hbest

/-- In a run in which every switch to another branch is completed, the links lead along the best chain,
and the block that was found last is on it. -/
lemma SearchRun.linked (hrun : SearchRun hash hash9 genesis (SwitchesWhole hash hash9) s last) :
    s.Linked genesis ∧ s.Remembers last := by
  induction hrun with
  | start => exact ⟨BestChain.linked_empty genesis, Or.inl rfl⟩
  | add pindexNew _ hnew ih =>
    obtain ⟨hlinked, hpath⟩ := ih.1.add hnew
    refine ⟨hlinked, ?_⟩
    unfold BestChain.Remembers
    dsimp only
    rw [hpath]
    exact ih.2
  | @setBestChain s last node block _ hgenesis hblock hwhole ih =>
    obtain ⟨hlinked, hlast⟩ := ih
    rcases hlinked.setBestChain hgenesis hblock hwhole with
      ⟨htrue, hlinked', -, -⟩ | ⟨hne, hsame⟩
    · rw [htrue]
      exact ⟨hlinked', Or.inl rfl⟩
    · refine ⟨hlinked.sameChain hsame, ?_⟩
      have hkept : forgetLast (HyperStake.setBestChain hash hash9 node block s).2 last = last := by
        cases hresult : (HyperStake.setBestChain hash hash9 node block s).2 with
        | error e => rfl
        | ok fSet =>
          cases fSet with
          | false => rfl
          | true => exact absurd hresult hne
      rw [hkept, BestChain.Remembers, hsame.pindexBest, hsame.tree.path_eq hlinked.tree.toRooted]
      exact hlast
  | find nHeight _ hfound ih =>
    exact ⟨ih.1, Or.inr (List.mem_map_of_mem (ih.1.mem_of_findBlockByHeight ih.2 hfound))⟩

/-- In every run in which no switch to another branch fails after `Reorganize` has committed,
`FindBlockByHeight` ends, for every height from zero to that of the best block, at the block of the
best chain with the height. -/
theorem SearchRun.findBlockByHeight_spec
    (hrun : SearchRun hash hash9 genesis (SwitchesWhole hash hash9) s last) {nHeight : Int32}
    (hlow : 0 ≤ nHeight.toInt) (hhigh : nHeight.toInt ≤ s.nBestHeight.toInt) :
    ∃ p ∈ s.tree.past s.pindexBest, s.findBlockByHeight nHeight last = some p ∧
      p.nHeight = nHeight :=
  hrun.linked.1.exists_findBlockByHeight hrun.linked.2 hlow hhigh

end Runs

/-! ## Small runs -/

lemma forgetLast_zero (result : Except Fault Bool) : forgetLast result 0 = 0 := by
  cases result with
  | error e => rfl
  | ok fSet => cases fSet <;> rfl

/-- A block with a known parent. -/
lemma BlockTree.NewBlock.of_parent {genesis : UInt256} {tree : BlockTree} {pindexNew : CBlockIndex}
    {n : Int32} (hnew : pindexNew.phashBlock ∉ tree.mapBlockIndex) (hnext : pindexNew.pnext = 0)
    (hparent : (tree.find pindexNew.pprev).map CBlockIndex.nHeight = some n)
    (hheight : heightOf pindexNew = n.toInt + 1) : tree.NewBlock genesis pindexNew := by
  obtain ⟨q, hq, rfl⟩ := Option.map_eq_some_iff.mp hparent
  exact ⟨hnew, hnext, Or.inr ⟨q, hq, hheight⟩⟩

/-- A node for which later blocks have more trust, and the greedy block is the third one. -/
def postponingNode : ChainNode := { greedyNode with bnChainTrust := fun h => h.toNat }

/-- The genesis block is the best one. -/
def genesisState : BestChain :=
  (setBestChain sampleHash nonceHash postponingNode testGenesis
    { tree := BlockTree.insertIndex {} 1 { phashBlock := 1 } }).1

/-- There is a block on top of the genesis block. -/
def secondTree : BlockTree :=
  genesisState.tree.insertIndex 2
    { phashBlock := 2, pprev := 1, nFile := 1, nBlockPos := 300, nHeight := 1 }

/-- The second block is the best one. -/
def secondState : BestChain :=
  (setBestChain sampleHash nonceHash postponingNode testFirst
    { genesisState with tree := secondTree }).1

section SmallRuns

variable {admits : ChainNode → CBlock → BestChain → Prop}

lemma searchRun_genesisState
    (hadmits : admits postponingNode testGenesis
      { tree := BlockTree.insertIndex {} 1 { phashBlock := 1 } }) :
    SearchRun sampleHash nonceHash 1 admits genesisState 0 := by
  have hadd : SearchRun sampleHash nonceHash 1 admits
      { tree := BlockTree.insertIndex {} 1 { phashBlock := 1 } } 0 :=
    .add { phashBlock := 1 } .start ⟨by simp, rfl, Or.inl ⟨rfl, rfl, rfl⟩⟩
  have hset := SearchRun.setBestChain postponingNode testGenesis hadd rfl
    (Option.map_eq_some_iff.mp rfl) hadmits
  rw [forgetLast_zero] at hset
  exact hset

lemma newBlock_second : genesisState.tree.NewBlock 1
    { phashBlock := 2, pprev := 1, nFile := 1, nBlockPos := 300, nHeight := 1 } :=
  .of_parent (n := 0) (of_decide_eq_true rfl) rfl rfl rfl

end SmallRuns

/-- The second block is found. -/
theorem findBlockByHeight_secondState : ∃ p ∈ secondState.tree.past secondState.pindexBest,
    secondState.findBlockByHeight 1 0 = some p ∧ p.nHeight = 1 := by
  have hgenesis : SearchRun sampleHash nonceHash 1 (SwitchesWhole sampleHash nonceHash)
      genesisState 0 := by
    apply searchRun_genesisState
    intro _ _ _ _ hnot
    exact absurd ⟨rfl, by decide⟩ hnot
  have hset := SearchRun.setBestChain postponingNode testFirst (hgenesis.add _ newBlock_second) rfl
    (Option.map_eq_some_iff.mp rfl) fun _ _ _ _ _ hnot => absurd rfl hnot
  rw [forgetLast_zero] at hset
  exact hset.findBlockByHeight_spec (by decide) (of_decide_eq_true rfl)

/-! ## A postponed block that fails -/

/-- A block two above the greedy one. -/
def lateBlock : CBlock := testWorkBlock 5 6 1424304850 4

/-- There are four blocks on top of the genesis block, of which the second one is greedy. -/
def postponingState : BestChain :=
  { genesisState with
    tree := ((secondTree.insertIndex 3
      { phashBlock := 3, pprev := 2, nFile := 1, nBlockPos := 600, nHeight := 2 }).insertIndex 5
      { phashBlock := 5, pprev := 3, nHeight := 3 }).insertIndex 6
      { phashBlock := 6, pprev := 5, nHeight := 4 } }

/-- The state after the call for the last block. -/
def postponedState : BestChain :=
  (setBestChain sampleHash nonceHash postponingNode lateBlock postponingState).1

/-- After the block of height one has been found, a run looks for the one of height two. -/
lemma searchRun_postponedState :
    SearchRun sampleHash nonceHash 1 (fun _ _ _ => True) postponedState 2 := by
  have h₁ : SearchRun sampleHash nonceHash 1 (fun _ _ _ => True) genesisState 0 :=
    searchRun_genesisState trivial
  have h₂ := h₁.add _ newBlock_second
  have h₃ := h₂.add { phashBlock := 3, pprev := 2, nFile := 1, nBlockPos := 600, nHeight := 2 }
    (.of_parent (n := 1) (of_decide_eq_true rfl) rfl rfl rfl)
  have h₅ := h₃.add { phashBlock := 5, pprev := 3, nHeight := 3 }
    (.of_parent (n := 2) (of_decide_eq_true rfl) rfl rfl rfl)
  have h₆ := h₅.add { phashBlock := 6, pprev := 5, nHeight := 4 }
    (.of_parent (n := 3) (of_decide_eq_true rfl) rfl rfl rfl)
  have hset := SearchRun.setBestChain postponingNode lateBlock h₆ rfl
    (Option.map_eq_some_iff.mp rfl) trivial
  rw [forgetLast_zero] at hset
  have hfound : (postponedState.findBlockByHeight 1 0).map CBlockIndex.phashBlock = some 2 := by
    decide +kernel
  obtain ⟨p, hp, hhash⟩ := Option.map_eq_some_iff.mp hfound
  rw [← hhash]
  exact hset.find 1 hp

/-- A postponed block fails, and the search for it comes to the end of the links. -/
theorem not_findBlockByHeight : ¬ ∀ (hash hash9 : Bytes → UInt256) (genesis : UInt256)
    (s : BestChain) (last : UInt256) (nHeight : Int32),
    SearchRun hash hash9 genesis (fun _ _ _ => True) s last →
    0 ≤ nHeight.toInt → nHeight.toInt ≤ s.nBestHeight.toInt →
      ∃ p ∈ s.tree.past s.pindexBest, s.findBlockByHeight nHeight last = some p ∧
        p.nHeight = nHeight := by
  intro hall
  obtain ⟨p, -, hfound, -⟩ := hall sampleHash nonceHash 1 postponedState 2 2
    searchRun_postponedState (by decide) (by decide +kernel)
  have hnone : (postponedState.findBlockByHeight 2 2).isNone = true := by decide +kernel
  rw [hfound] at hnone
  cases hnone

end HyperStake
