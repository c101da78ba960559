import HyperStake.Chain.ForkPoint

/-!
# The links along the best chain

The `pprev` pointers of the indices make a tree, and the `pnext` pointers lead along the best chain,
from each of its blocks to the one after it.  All other `pnext` pointers are null (`Linked`).

`SetBestChain` keeps it so when it fails.  When it succeeds, the links lead along the chain of the new
best block, if all blocks that it has postponed have been connected, and nothing has been thrown after
`Reorganize` has committed (`SwitchesWhole`).  `SetBestChain` does not look at that: when a postponed
block fails, the links end below it, and the new block becomes the best one nevertheless.
-/

namespace HyperStake

open LinkWalk WorkQueue

/-! ## Trees that differ in links, sums and tallies -/

namespace BlockTree

variable {tree tree' tree'' : BlockTree} {genesis h k : UInt256} {p q : CBlockIndex}

/-- Two trees with the same blocks, up to what connecting and disconnecting blocks changes. -/
def SameNodes (tree tree' : BlockTree) : Prop :=
  ∀ k : UInt256, Option.Rel CBlockIndex.SameNode tree.mapBlockIndex[k]? tree'.mapBlockIndex[k]?

/-- The `pnext` pointer of a block. -/
def next (tree : BlockTree) (k : UInt256) : UInt256 := ((tree.find k).map CBlockIndex.pnext).getD 0

namespace SameNodes

lemma refl (tree : BlockTree) : tree.SameNodes tree := by
  intro k
  cases tree.mapBlockIndex[k]? with
  | none => exact .none
  | some p => exact .some (.refl p)

lemma trans (h : tree.SameNodes tree') (h' : tree'.SameNodes tree'') : tree.SameNodes tree'' := by
  intro k
  rcases rel_cases (h k) with ⟨hp, hq⟩ | ⟨p, q, hp, hq, fields, rfl⟩
  · have hr := h' k
    rw [hq] at hr
    rw [hp]
    cases hr' : tree''.mapBlockIndex[k]? with
    | none => exact .none
    | some r =>
      rw [hr'] at hr
      cases hr
  · rcases rel_cases (h' k) with ⟨hq', -⟩ | ⟨q', r, hq', hr, fields', rfl⟩
    · rw [hq] at hq'
      cases hq'
    · rw [hq] at hq'
      cases hq'
      rw [hp, hr]
      exact .some ⟨fields', rfl⟩

/-- What a pointer leads to in the other tree. -/
lemma find_cases (h : tree.SameNodes tree') (k : UInt256) :
    tree.find k = none ∧ tree'.find k = none ∨
      ∃ p fields, tree.find k = some p ∧ tree'.find k = some (p.withFields fields) := by
  by_cases hzero : k = 0
  · rw [hzero, find_zero, find_zero]
    exact Or.inl ⟨rfl, rfl⟩
  · unfold find
    rw [if_neg hzero, if_neg hzero]
    rcases rel_cases (h k) with hnone | ⟨p, q, hp, hq, fields, rfl⟩
    · exact Or.inl hnone
    · exact Or.inr ⟨p, fields, hp, hq⟩

/-- A block is found in the other tree. -/
lemma find (h : tree.SameNodes tree') (hfound : tree.find k = some p) :
    ∃ fields, tree'.find k = some (p.withFields fields) := by
  rcases h.find_cases k with ⟨hnone, -⟩ | ⟨p', fields, hp, hq⟩
  · rw [hfound] at hnone
    cases hnone
  · rw [hfound] at hp
    cases hp
    exact ⟨fields, hq⟩

/-- A block of the other tree is found. -/
lemma find_symm (h : tree.SameNodes tree') (hfound : tree'.find k = some q) :
    ∃ p fields, tree.find k = some p ∧ q = p.withFields fields := by
  rcases h.find_cases k with ⟨-, hnone⟩ | ⟨p, fields, hp, hq⟩
  · rw [hfound] at hnone
    cases hnone
  · rw [hfound] at hq
    exact ⟨p, fields, hp, Option.some.inj hq⟩

/-- Blocks that are the same have the same hashes. -/
lemma map_phashBlock_eq {l l' : List CBlockIndex} (h : List.Forall₂ CBlockIndex.SameNode l l') :
    l.map CBlockIndex.phashBlock = l'.map CBlockIndex.phashBlock := by
  induction h with
  | nil => rfl
  | cons hsame _ ih =>
    obtain ⟨fields, rfl⟩ := hsame
    exact congrArg (_ :: ·) ih

/-- The walks along the parents are the same. -/
lemma walks {l : List CBlockIndex} (h : tree.SameNodes tree')
    (hwalk : Walks tree.find CBlockIndex.pprev k l) :
    ∃ l', Walks tree'.find CBlockIndex.pprev k l' ∧ List.Forall₂ CBlockIndex.SameNode l l' := by
  apply hwalk.rel
  · intro j t hfound
    obtain ⟨fields, hq⟩ := h.find hfound
    exact ⟨_, hq, ⟨fields, rfl⟩, rfl⟩
  · intro j _ hnone
    rcases h.find_cases j with ⟨-, hnone'⟩ | ⟨p, fields, hp, -⟩
    · exact hnone'
    · rw [hnone] at hp
      cases hp

lemma rooted (h : tree.SameNodes tree') (hroot : tree.Rooted) : tree'.Rooted := by
  have hmem : ∀ k, k ∈ tree'.mapBlockIndex ↔ k ∈ tree.mapBlockIndex := by
    intro k
    rw [Std.ExtTreeMap.mem_iff_isSome_getElem?, Std.ExtTreeMap.mem_iff_isSome_getElem?]
    rcases rel_cases (h k) with ⟨hp, hq⟩ | ⟨p, q, hp, hq, -⟩
    · rw [hp, hq]
    · rw [hp, hq]
      rfl
  refine ⟨fun k q hget => ?_, fun k q hget => ?_, fun k hk => ?_⟩
  · rcases rel_cases (h k) with ⟨-, hnone⟩ | ⟨p, q', hp, hq, fields, rfl⟩
    · rw [hget] at hnone
      cases hnone
    · rw [hget] at hq
      cases hq
      exact hroot.phashBlock k p hp
  · rcases rel_cases (h k) with ⟨-, hnone⟩ | ⟨p, q', hp, hq, fields, rfl⟩
    · rw [hget] at hnone
      cases hnone
    · rw [hget] at hq
      cases hq
      exact (hroot.closed k p hp).imp_right (hmem _).mpr
  · obtain ⟨l, hwalk⟩ := hroot.walks k (hk.imp_right (hmem k).mp)
    obtain ⟨l', hwalk', -⟩ := h.walks hwalk
    exact ⟨l', hwalk'⟩

lemma oneRoot (h : tree.SameNodes tree') (htree : tree.OneRoot genesis) :
    tree'.OneRoot genesis := by
  refine ⟨h.rooted htree.toRooted, fun k q hfound hzero => ?_, fun k q r hfound hparent => ?_⟩
  · obtain ⟨p, fields, hp, rfl⟩ := h.find_symm hfound
    exact htree.genesis k p hp hzero
  · obtain ⟨p, fields, hp, rfl⟩ := h.find_symm hfound
    obtain ⟨r₀, fields', hr, rfl⟩ := h.find_symm hparent
    exact htree.nHeight k p r₀ hp hr

/-- The blocks before a block are the same. -/
lemma path_eq (h : tree.SameNodes tree') (hroot : tree.Rooted) (k : UInt256) :
    tree'.path k = tree.path k := by
  cases hfound : tree.find k with
  | none =>
    rcases h.find_cases k with ⟨-, hnone⟩ | ⟨p, fields, hp, -⟩
    · unfold path
      rw [past_of_find_eq_none hnone, past_of_find_eq_none hfound]
    · rw [hfound] at hp
      cases hp
  | some p =>
    obtain ⟨l, hwalk, hall⟩ := h.walks (hroot.walks_of_find hfound)
    unfold path
    rw [past_eq hwalk]
    exact (map_phashBlock_eq hall).symm

/-- The ways to the ancestors of a block are the same. -/
lemma way {fork : UInt256} {l : List UInt256} (h : tree.SameNodes tree')
    (hway : tree.Way fork k l) : tree'.Way fork k l := by
  induction hway with
  | here hfound =>
    obtain ⟨fields, hq⟩ := h.find hfound
    exact .here hq
  | step hfound _ ih =>
    obtain ⟨fields, hq⟩ := h.find hfound
    exact .step hq ih

end SameNodes

/-! ## What changes a link -/

/-- Storing an index that differs from the one before in links, sums and the tally. -/
lemma sameNodes_setIndex (hfound : tree.find h = some p) (hsame : p.SameNode q) :
    tree.SameNodes (tree.setIndex h q) := by
  intro k
  unfold setIndex
  rw [MapLoop.getElem?_insert_eq]
  split_ifs with heq
  · rw [← heq, (find_eq_some.mp hfound).2]
    exact .some hsame
  · exact SameNodes.refl tree k

lemma next_setIndex (hfound : tree.find h = some p) (hnext : q.pnext = p.pnext) (k : UInt256) :
    (tree.setIndex h q).next k = tree.next k := by
  unfold next
  rw [find_setIndex (ne_zero_of_find hfound)]
  split_ifs with heq
  · rw [← heq, hfound]
    exact hnext
  · rfl

/-- Setting a link keeps the blocks. -/
lemma sameNodes_setNext (tree : BlockTree) (h pnext : UInt256) :
    tree.SameNodes (tree.setNext h pnext) := by
  unfold setNext
  cases hfound : tree.find h with
  | none => exact .refl tree
  | some p =>
    exact sameNodes_setIndex hfound ⟨⟨pnext, p.nMint, p.nMoneySupply, p.tally⟩, rfl⟩

lemma next_setNext (hfound : tree.find h = some p) (pnext k : UInt256) :
    (tree.setNext h pnext).next k = if h = k then pnext else tree.next k := by
  unfold next
  rw [find_setNext]
  split_ifs with heq
  · rw [← heq, hfound]
    rfl
  · rfl

end BlockTree

/-! ## The links that a chain should have -/

/-- The block after a block of a chain, whose last block comes first.  It is null for the last block
and for a block that is not on the chain. -/
def nextOn : List UInt256 → UInt256 → UInt256
  | h :: k :: chain, j => if j = k then h else nextOn (k :: chain) j
  | _, _ => 0

/-- After a block that no other block of the chain is on top of, there is none. -/
lemma nextOn_eq_zero {h j : UInt256} {chain : List UInt256} (hj : j ∉ chain) :
    nextOn (h :: chain) j = 0 := by
  induction chain generalizing h with
  | nil => rfl
  | cons k chain ih =>
    rw [nextOn, if_neg (List.ne_of_not_mem_cons hj)]
    exact ih (List.not_mem_of_not_mem_cons hj)

namespace BlockTree

variable {tree : BlockTree} {genesis fork h k : UInt256} {p : CBlockIndex} {l : List UInt256}

/-- A block is the first one on its path. -/
lemma Rooted.path_eq_cons (hroot : tree.Rooted) (hfound : tree.find h = some p) :
    tree.path h = h :: tree.path p.pprev := by
  unfold path
  rw [hroot.past_eq_cons hfound, List.map_cons, hroot.phashBlock h p (find_eq_some.mp hfound).2]

lemma unlinkIndex_of_find (hfound : tree.find h = some p) :
    unlinkIndex tree h = tree.setNext p.pprev 0 := by
  rw [unlinkIndex, hfound]

lemma linkIndex_of_find (hfound : tree.find h = some p) :
    linkIndex tree h = tree.setNext p.pprev h := by
  rw [linkIndex, hfound]

section

variable (hroot : tree.Rooted) (hfound : tree.find h = some p)
  (hparent : (tree.find p.pprev).isSome)

include hroot hfound hparent

/-- Taking away the link to the last block of a chain. -/
lemma next_unlinkIndex (hlinks : tree.next = nextOn (tree.path h)) :
    (unlinkIndex tree h).next = nextOn (tree.path p.pprev) := by
  obtain ⟨q, hq⟩ := Option.isSome_iff_exists.mp hparent
  have hpath := hroot.path_eq_cons hfound
  have hprev := hroot.path_eq_cons hq
  have hnodup := hroot.nodup_path p.pprev
  rw [hprev] at hpath hnodup ⊢
  funext k
  rw [unlinkIndex_of_find hfound, next_setNext hq, hlinks, hpath, nextOn]
  by_cases heq : k = p.pprev
  · rw [heq, if_pos rfl]
    exact (nextOn_eq_zero (List.nodup_cons.mp hnodup).1).symm
  · rw [if_neg (Ne.symm heq), if_neg heq]

/-- Setting the link to a block on top of a chain. -/
lemma next_linkIndex (hlinks : tree.next = nextOn (tree.path p.pprev)) :
    (tree.setNext p.pprev h).next = nextOn (tree.path h) := by
  obtain ⟨q, hq⟩ := Option.isSome_iff_exists.mp hparent
  have hpath := hroot.path_eq_cons hfound
  have hprev := hroot.path_eq_cons hq
  funext k
  rw [next_setNext hq, hlinks, hpath, hprev, nextOn]
  exact if_congr eq_comm rfl rfl

end

lemma sameNodes_unlinkIndex (tree : BlockTree) (h : UInt256) :
    tree.SameNodes (unlinkIndex tree h) := by
  unfold unlinkIndex
  cases tree.find h with
  | none => exact .refl tree
  | some p => exact sameNodes_setNext tree p.pprev 0

lemma sameNodes_linkIndex (tree : BlockTree) (h : UInt256) : tree.SameNodes (linkIndex tree h) := by
  unfold linkIndex
  cases tree.find h with
  | none => exact .refl tree
  | some p => exact sameNodes_setNext tree p.pprev h

/-- A way starts at a block that is found, and so does what is left of it. -/
lemma isSome_find_of_way (hway : tree.Way fork h l) : (tree.find h).isSome := by
  cases hway with
  | here hfound => exact Option.isSome_iff_exists.mpr ⟨_, hfound⟩
  | step hfound _ => exact Option.isSome_iff_exists.mpr ⟨_, hfound⟩

/-- The loop of `Reorganize` that takes away the links to the blocks of the old branch. -/
lemma next_unlinkIndices (hroot : tree.Rooted) (hway : tree.Way fork h l)
    (hlinks : tree.next = nextOn (tree.path h)) :
    tree.SameNodes (l.foldl unlinkIndex tree) ∧
      (l.foldl unlinkIndex tree).next = nextOn (tree.path fork) := by
  induction l generalizing tree h with
  | nil =>
    cases hway
    exact ⟨.refl tree, hlinks⟩
  | cons k l ih =>
    cases hway with | step hfound hrest =>
    have hparent := isSome_find_of_way hrest
    have hsame := sameNodes_unlinkIndex tree k
    have hpath := hsame.path_eq hroot
    have hnext := next_unlinkIndex hroot hfound hparent hlinks
    rw [← hpath] at hnext
    obtain ⟨hsame', hnext'⟩ := ih (hsame.rooted hroot) (hsame.way hrest) hnext
    rw [List.foldl_cons]
    exact ⟨hsame.trans hsame', by rw [hnext', hpath]⟩

/-- The loop of `Reorganize` that sets the links to the blocks of the new branch. -/
lemma next_linkIndices (hroot : tree.Rooted) (hway : tree.Way fork h l)
    (hlinks : tree.next = nextOn (tree.path fork)) :
    tree.SameNodes (l.reverse.foldl linkIndex tree) ∧
      (l.reverse.foldl linkIndex tree).next = nextOn (tree.path h) := by
  induction hway with
  | here _ => exact ⟨.refl tree, hlinks⟩
  | @step h p l hfound hrest ih =>
    obtain ⟨hsame, hnext⟩ := ih
    rw [List.reverse_cons, List.foldl_append, List.foldl_cons, List.foldl_nil]
    obtain ⟨fields, hfound'⟩ := hsame.find hfound
    have hparent := isSome_find_of_way (hsame.way hrest)
    have hpath := hsame.path_eq hroot
    refine ⟨hsame.trans (sameNodes_linkIndex _ h), ?_⟩
    rw [← hpath] at hnext
    have hlast := next_linkIndex (hsame.rooted hroot) hfound' hparent hnext
    rw [hpath] at hlast
    rw [linkIndex_of_find hfound']
    exact hlast

end BlockTree

/-! ## What the parts of `SetBestChain` do -/

namespace BestChain

variable {s s' s'' : BestChain}

/-- Two states with the same pointers to the best chain. -/
structure SamePointers (s s' : BestChain) : Prop where
  pindexGenesisBlock : s'.pindexGenesisBlock = s.pindexGenesisBlock
  pindexBest : s'.pindexBest = s.pindexBest
  hashBestChain : s'.hashBestChain = s.hashBestChain
  nBestHeight : s'.nBestHeight = s.nBestHeight

/-- Two states with the same best chain: sums, tallies and what is not about indices may differ. -/
structure SameChain (s s' : BestChain) : Prop extends SamePointers s s' where
  tree : s.tree.SameNodes s'.tree
  next : s'.tree.next = s.tree.next

lemma SamePointers.trans (h : s.SamePointers s') (h' : s'.SamePointers s'') : s.SamePointers s'' :=
  ⟨h'.1.trans h.1, h'.2.trans h.2, h'.3.trans h.3, h'.4.trans h.4⟩

/-- A state that differs only in the databases, the registry and the memory pool. -/
lemma SameChain.of_tree_eq (hpointers : s.SamePointers s') (htree : s'.tree = s.tree) :
    s.SameChain s' := by
  refine ⟨hpointers, ?_, ?_⟩
  · rw [htree]
    exact .refl s.tree
  · rw [htree]

lemma SameChain.refl (s : BestChain) : s.SameChain s := .of_tree_eq ⟨rfl, rfl, rfl, rfl⟩ rfl

lemma SameChain.trans (h : s.SameChain s') (h' : s'.SameChain s'') : s.SameChain s'' :=
  ⟨h.1.trans h'.1, h.2.trans h'.2, h'.3.trans h.3⟩

end BestChain

section Parts

variable {hash hash9 : Bytes → UInt256} {node : ChainNode} {s s' : BestChain} {h : UInt256}
  {block : CBlock}

/-- Connecting a block changes only sums and the tally of its index. -/
lemma connectIndex_sameChain {pindex : CBlockIndex} (hfound : s.tree.find h = some pindex) :
    s.SameChain (connectIndex hash node h pindex block s).1 := by
  obtain ⟨nMint, nMoneySupply, tally, heq⟩ := connectBlock_pindex ((node.envAt h s).node hash)
    s.db.txs block pindex (s.tree.find pindex.pprev) false s.registry
  have hsame : pindex.SameNode (connectBlock hash ((node.envAt h s).node hash) s.db.txs block pindex
      (s.tree.find pindex.pprev) false s.registry).pindex :=
    ⟨⟨pindex.pnext, nMint, nMoneySupply, tally⟩, heq⟩
  refine ⟨⟨rfl, rfl, rfl, rfl⟩, BlockTree.sameNodes_setIndex hfound hsame, ?_⟩
  funext k
  refine BlockTree.next_setIndex hfound ?_ k
  rw [heq]

/-- A turn of the loop of `Reorganize` that connects blocks. -/
lemma connectTurn_sameChain (t : BestChain × List CTransaction) (h : UInt256) :
    t.1.SameChain (connectTurn hash hash9 node t h).1.1 := by
  unfold connectTurn
  cases hfound : t.1.tree.find h with
  | none => exact .refl _
  | some pindex =>
    dsimp only
    cases node.readFromDisk hash9 pindex with
    | none => exact .refl _
    | some block =>
      have hsame : t.1.SameChain (connectIndex hash node h pindex block t.1).1 :=
        connectIndex_sameChain hfound
      dsimp only
      rcases hconnect : connectIndex hash node h pindex block t.1 with ⟨s', e | _ | _⟩
      all_goals
        rw [hconnect] at hsame
        exact hsame

/-- `Reorganize` does not change the best chain before its commit. -/
lemma switchBranch_sameChain (pindexNew : UInt256) (s : BestChain) :
    s.SameChain (switchBranch hash hash9 node pindexNew s).1 := by
  unfold switchBranch
  cases findFork (s.tree.past s.pindexBest) (s.tree.past pindexNew) with
  | none => exact .refl s
  | some pfork =>
    dsimp only
    cases (s.tree.above pfork s.pindexBest).foldlM (disconnectTurn hash hash9 node s)
      (s.db.txs, []) with
    | error exit => exact .refl s
    | ok t =>
      dsimp only
      have hloop : s.SameChain (foldThrow (connectTurn hash hash9 node)
          (s.tree.above pfork pindexNew).reverse
          ({ s with db := { s.db with txs := t.1 } }, [])).1.1 :=
        foldThrow_invariant (fun t : BestChain × List CTransaction => s.SameChain t.1)
          (fun t h _ ht => ht.trans (connectTurn_sameChain t h))
          (.of_tree_eq ⟨rfl, rfl, rfl, rfl⟩ rfl)
      rcases hconnect : foldThrow (connectTurn hash hash9 node)
        (s.tree.above pfork pindexNew).reverse
        ({ s with db := { s.db with txs := t.1 } }, []) with ⟨⟨s', vDelete⟩, _ | exit⟩
      · rw [hconnect] at hloop
        dsimp only
        split_ifs
        · exact hloop
        · exact hloop.trans (.of_tree_eq ⟨rfl, rfl, rfl, rfl⟩ rfl)
      · rw [hconnect] at hloop
        exact hloop

/-- The part of `Reorganize` after the commit changes links and the memory pool. -/
lemma finishSwitch_eq (hash : Bytes → UInt256) (node : ChainNode) (switch : Switch)
    (s : BestChain) :
    ∃ pool, (finishSwitch hash node switch s).1 = { s with
      tree := switch.vConnect.foldl linkIndex (switch.vDisconnect.foldl unlinkIndex s.tree)
      pool } := by
  set s₀ : BestChain := { s with
    tree := switch.vConnect.foldl linkIndex (switch.vDisconnect.foldl unlinkIndex s.tree) }
    with hs₀
  have hloop : ∃ pool, (foldThrow (resurrectTurn hash node) switch.vResurrect s₀).1 =
      { s₀ with pool } := by
    refine foldThrow_invariant (fun t : BestChain => ∃ pool, t = { s₀ with pool })
      (fun t tx _ ht => ?_) ⟨s₀.pool, rfl⟩
    obtain ⟨pool, rfl⟩ := ht
    exact ⟨_, rfl⟩
  unfold finishSwitch
  dsimp only
  rw [← hs₀]
  rcases hresurrect : foldThrow (resurrectTurn hash node) switch.vResurrect s₀ with ⟨t, _ | e⟩
  · rw [hresurrect] at hloop
    obtain ⟨pool, rfl⟩ := hloop
    exact ⟨_, rfl⟩
  · rw [hresurrect] at hloop
    exact hloop

/-- `SetBestChainInner` that returns true sets the link to its block. -/
lemma setBestChainInner_eq_true (htrue : setBestChainInner hash node h block s = (s', .ok true)) :
    ∃ p s₁, s.tree.find h = some p ∧ s.SameChain s₁ ∧ (s₁.tree.find p.pprev).isSome ∧
      s₁.SamePointers s' ∧ s'.tree = s₁.tree.setNext p.pprev h := by
  unfold setBestChainInner at htrue
  cases hfound : s.tree.find h with
  | none =>
    rw [hfound] at htrue
    cases htrue
  | some p =>
    have hsame : s.SameChain (connectIndex hash node h p block s).1 := connectIndex_sameChain hfound
    rw [hfound] at htrue
    dsimp only at htrue
    rcases hconnect : connectIndex hash node h p block s with ⟨s₁, e | _ | _⟩
    · rw [hconnect] at htrue
      cases htrue
    · rw [hconnect] at htrue
      cases htrue
    · rw [hconnect] at htrue hsame
      dsimp only at htrue
      split_ifs at htrue
      · cases htrue
      · cases hparent : s₁.tree.find p.pprev with
        | none =>
          rw [hparent] at htrue
          cases htrue
        | some q =>
          rw [hparent] at htrue
          cases htrue
          refine ⟨p, s₁, rfl, hsame, ?_, ⟨rfl, rfl, rfl, rfl⟩, rfl⟩
          rw [hparent]
          rfl

/-- `SetBestChainInner` that does not return true keeps the best chain. -/
lemma setBestChainInner_ne_true {result : Except Fault Bool}
    (hinner : setBestChainInner hash node h block s = (s', result)) (hne : result ≠ .ok true) :
    s.SameChain s' := by
  unfold setBestChainInner at hinner
  cases hfound : s.tree.find h with
  | none =>
    rw [hfound] at hinner
    cases hinner
    exact .refl s
  | some p =>
    have hsame : s.SameChain (connectIndex hash node h p block s).1 := connectIndex_sameChain hfound
    rw [hfound] at hinner
    dsimp only at hinner
    rcases hconnect : connectIndex hash node h p block s with ⟨s₁, e | _ | _⟩
    · rw [hconnect] at hinner hsame
      cases hinner
      exact hsame.trans (.of_tree_eq ⟨rfl, rfl, rfl, rfl⟩ rfl)
    · rw [hconnect] at hinner hsame
      cases hinner
      exact hsame.trans (.of_tree_eq ⟨rfl, rfl, rfl, rfl⟩ rfl)
    · rw [hconnect] at hinner hsame
      dsimp only at hinner
      split_ifs at hinner
      · cases hinner
        exact hsame.trans (.of_tree_eq ⟨rfl, rfl, rfl, rfl⟩ rfl)
      · cases hparent : s₁.tree.find p.pprev with
        | none =>
          rw [hparent] at hinner
          cases hinner
          exact hsame.trans (.of_tree_eq ⟨rfl, rfl, rfl, rfl⟩ rfl)
        | some q =>
          rw [hparent] at hinner
          cases hinner
          exact absurd rfl hne

end Parts

/-! ## What `SetBestChain` keeps -/

/-- The postponed blocks are all connected. -/
def ConnectsAll (hash hash9 : Bytes → UInt256) (node : ChainNode) : List UInt256 → BestChain → Prop
  | [], _ => True
  | h :: postponed, s => ∃ pindex block s', s.tree.find h = some pindex ∧
      node.readFromDisk hash9 pindex = some block ∧ node.txnBegin2 h = true ∧
      setBestChainInner hash node h block s = (s', .ok true) ∧
      ConnectsAll hash hash9 node postponed s'

/-- If the call of `SetBestChain` switches to another branch then nothing fails after `Reorganize` has
committed: nothing is thrown, and the postponed blocks are all connected. -/
def SwitchesWhole (hash hash9 : Bytes → UInt256) (node : ChainNode) (block : CBlock)
    (s : BestChain) : Prop :=
  ∀ vpindexSecondary pindexIntermediate s₁ switch,
    ¬ (s.pindexGenesisBlock = 0 ∧ block.getHash hash9 = node.hashGenesisBlock) →
    block.hashPrevBlock ≠ s.hashBestChain →
    postpone node.bnChainTrust s.pindexBest (s.tree.path (block.getHash hash9)) =
      (vpindexSecondary, pindexIntermediate) →
    switchBranch hash hash9 node pindexIntermediate s = (s₁, .ok switch) →
    ∃ s₂, finishSwitch hash node switch s₁ = (s₂, none) ∧
      ConnectsAll hash hash9 node vpindexSecondary.reverse s₂

/-- The `pnext` pointers lead along the best chain of a node, which is in a tree with one first block
at the height zero. -/
structure BestChain.Linked (genesis : UInt256) (s : BestChain) : Prop where
  tree : s.tree.OneRoot genesis
  lowest : ∀ p, s.tree.find genesis = some p → heightOf p = 0
  links : s.tree.next = nextOn (s.tree.path s.pindexBest)
  hashBestChain : s.hashBestChain = s.pindexBest
  start : s.pindexBest = 0 → s.pindexGenesisBlock = 0 ∧ s.nBestHeight = -1
  best : s.pindexBest ≠ 0 → s.pindexGenesisBlock = genesis ∧
    ∃ p, s.tree.find s.pindexBest = some p ∧ p.nHeight = s.nBestHeight

section Keeps

variable {hash hash9 : Bytes → UInt256} {node : ChainNode} {s s' : BestChain} {genesis h k : UInt256}
  {block : CBlock}

lemma BestChain.linked_empty (genesis : UInt256) : ({} : BestChain).Linked genesis := by
  have hfind : ∀ k, ({} : BestChain).tree.find k = none := by
    intro k
    exact BlockTree.find_eq_none.mpr (Or.inr (by simp))
  refine ⟨.empty genesis, fun p hp => ?_, ?_, rfl, fun _ => ⟨rfl, rfl⟩, fun hne => absurd rfl hne⟩
  · rw [hfind] at hp
    cases hp
  · funext k
    rw [BlockTree.next, hfind, BlockTree.path, BlockTree.past_of_find_eq_none (hfind 0)]
    rfl

/-- The height of the first block. -/
lemma lowest_of_sameNodes {tree tree' : BlockTree} (hsame : tree.SameNodes tree')
    (hlowest : ∀ p, tree.find genesis = some p → heightOf p = 0) :
    ∀ p, tree'.find genesis = some p → heightOf p = 0 := by
  intro q hq
  obtain ⟨p, fields, hp, rfl⟩ := hsame.find_symm hq
  exact hlowest p hp

lemma BestChain.Linked.sameChain (hlinked : s.Linked genesis) (hsame : s.SameChain s') :
    s'.Linked genesis := by
  obtain ⟨⟨hgenesis, hbest, hhash, hheight⟩, htree, hnext⟩ := hsame
  refine ⟨htree.oneRoot hlinked.tree, lowest_of_sameNodes htree hlinked.lowest, ?_, ?_, ?_, ?_⟩
  · rw [hnext, hlinked.links, hbest, htree.path_eq hlinked.tree.toRooted]
  · rw [hhash, hbest]
    exact hlinked.hashBestChain
  · rw [hgenesis, hbest, hheight]
    exact hlinked.start
  · rw [hgenesis, hbest, hheight]
    intro hne
    obtain ⟨heq, p, hp, hp'⟩ := hlinked.best hne
    obtain ⟨fields, hq⟩ := htree.find hp
    exact ⟨heq, _, hq, hp'⟩

/-- A block that `SetBestChainInner` connects on top of a chain. -/
lemma setBestChainInner_links {p : CBlockIndex} (hroot : s.tree.Rooted)
    (hfound : s.tree.find h = some p) (hlinks : s.tree.next = nextOn (s.tree.path p.pprev))
    (htrue : setBestChainInner hash node h block s = (s', .ok true)) :
    s.SamePointers s' ∧ s.tree.SameNodes s'.tree ∧ s'.tree.next = nextOn (s.tree.path h) := by
  obtain ⟨p', s₁, hfound', hsame, hparent, hpointers, htree⟩ := setBestChainInner_eq_true htrue
  rw [hfound] at hfound'
  cases hfound'
  obtain ⟨fields, hq⟩ := hsame.tree.find hfound
  have hpath := hsame.tree.path_eq hroot
  refine ⟨hsame.toSamePointers.trans hpointers, ?_, ?_⟩
  · rw [htree]
    exact hsame.tree.trans (BlockTree.sameNodes_setNext s₁.tree p.pprev h)
  · have hnext : s₁.tree.next = nextOn (s₁.tree.path p.pprev) := by
      rw [hsame.next, hlinks, hpath]
    rw [htree, ← hpath]
    have hlast := BlockTree.next_linkIndex (hsame.tree.rooted hroot) hq hparent hnext
    exact hlast

/-- The loop that connects the postponed blocks, if they are all connected. -/
lemma connectPostponed_links {postponed : List UInt256} (hroot : s.tree.Rooted)
    (hway : s.tree.Way k h postponed.reverse) (hlinks : s.tree.next = nextOn (s.tree.path k))
    (hall : ConnectsAll hash hash9 node postponed s) :
    ∃ s', connectPostponed hash hash9 node postponed s = (s', none) ∧ s.SamePointers s' ∧
      s.tree.SameNodes s'.tree ∧ s'.tree.next = nextOn (s.tree.path h) := by
  induction postponed generalizing s k with
  | nil =>
    cases hway
    exact ⟨s, rfl, ⟨rfl, rfl, rfl, rfl⟩, .refl s.tree, hlinks⟩
  | cons j postponed ih =>
    obtain ⟨pindex, block, s₁, hfound, hread, hbegin, htrue, hrest⟩ := hall
    rw [List.reverse_cons] at hway
    obtain ⟨hway', p, hp, rfl, -⟩ := hway.of_concat
    obtain ⟨hpointers, hsame, hnext⟩ := setBestChainInner_links hroot hp hlinks htrue
    have hpath := hsame.path_eq hroot
    obtain ⟨s', hdone, hpointers', hsame', hnext'⟩ :=
      ih (hsame.rooted hroot) (hsame.way hway') (by rw [hnext, hpath]) hrest
    refine ⟨s', ?_, hpointers.trans hpointers', hsame.trans hsame', by rw [hnext', hpath]⟩
    rw [connectPostponed, hfound]
    dsimp only
    rw [hread, hbegin]
    dsimp only
    rw [htrue]
    exact hdone

/-- The postponed blocks are those at the end of the new branch, the last one first. -/
lemma postpone_eq (bnChainTrust : UInt256 → ℤ) (pindexBest : UInt256) {path : List UInt256}
    (hne : path ≠ []) :
    ∃ rest, path = (postpone bnChainTrust pindexBest path).1 ++
      (postpone bnChainTrust pindexBest path).2 :: rest := by
  induction path with
  | nil => exact absurd rfl hne
  | cons j path ih =>
    cases path with
    | nil => exact ⟨[], rfl⟩
    | cons i path =>
      obtain ⟨rest, hrest⟩ := ih (List.cons_ne_nil i path)
      rw [postpone]
      split_ifs
      · exact ⟨rest, congrArg (j :: ·) hrest⟩
      · exact ⟨i :: path, rfl⟩

variable {result : Except Fault Bool}

/-- Switching to another branch: the links lead along the chain of the new block, or nothing has been
switched. -/
lemma changeBranch_links (hlinked : s.Linked genesis)
    (hbest : s.pindexBest ≠ 0) (hfound : (s.tree.find h).isSome)
    (hwhole : ∀ vpindexSecondary pindexIntermediate s₁ switch,
      postpone node.bnChainTrust s.pindexBest (s.tree.path h) =
        (vpindexSecondary, pindexIntermediate) →
      switchBranch hash hash9 node pindexIntermediate s = (s₁, .ok switch) →
      ∃ s₂, finishSwitch hash node switch s₁ = (s₂, none) ∧
        ConnectsAll hash hash9 node vpindexSecondary.reverse s₂)
    (hchange : changeBranch hash hash9 node h s = (s', result)) :
    (result = .ok true ∧ s.SamePointers s' ∧ s.tree.SameNodes s'.tree ∧
        s'.tree.next = nextOn (s.tree.path h)) ∨
      result ≠ .ok true ∧ s.SameChain s' := by
  have hroot := hlinked.tree.toRooted
  obtain ⟨-, best, hfindBest, -⟩ := hlinked.best hbest
  obtain ⟨p, hp⟩ := Option.isSome_iff_exists.mp hfound
  unfold changeBranch at hchange
  rw [hfindBest] at hchange
  dsimp only at hchange
  have hne : s.tree.path h ≠ [] := by
    rw [hroot.path_eq_cons hp]
    exact List.cons_ne_nil _ _
  obtain ⟨rest, hpath⟩ := postpone_eq node.bnChainTrust s.pindexBest hne
  rcases hpostpone : postpone node.bnChainTrust s.pindexBest (s.tree.path h) with
    ⟨vpindexSecondary, pindexIntermediate⟩
  rw [hpostpone] at hchange hpath
  dsimp only at hchange hpath
  have hway := (hroot.way_iff hp).mpr ⟨rest, hpath⟩
  have hsame : s.SameChain (switchBranch hash hash9 node pindexIntermediate s).1 :=
    switchBranch_sameChain pindexIntermediate s
  rcases hswitch : switchBranch hash hash9 node pindexIntermediate s with ⟨s₁, exit | switch⟩
  · rw [hswitch] at hchange hsame
    cases hchange
    refine Or.inr ⟨?_, hsame.trans (.of_tree_eq ⟨rfl, rfl, rfl, rfl⟩ rfl)⟩
    cases exit <;> exact fun heq => by cases heq
  · rw [hswitch] at hchange hsame
    dsimp only at hchange hsame
    refine Or.inl ?_
    -- the links to the blocks of the two branches
    obtain ⟨q, hq⟩ := hway.exists_find
    obtain ⟨pfork, hwayBest, hwayNew⟩ :=
      switchBranch_ways hlinked.tree hfindBest hq (congrArg Prod.snd hswitch)
    have hlinks₁ : s₁.tree.next = nextOn (s₁.tree.path s.pindexBest) := by
      rw [hsame.next, hlinked.links, hsame.tree.path_eq hroot]
    have hroot₁ := hsame.tree.rooted hroot
    obtain ⟨htree₂, hlinks₂⟩ :=
      BlockTree.next_unlinkIndices hroot₁ (hsame.tree.way hwayBest) hlinks₁
    have hpath₂ := htree₂.path_eq hroot₁
    obtain ⟨htree₃, hlinks₃⟩ := BlockTree.next_linkIndices (htree₂.rooted hroot₁)
      (htree₂.way (hsame.tree.way hwayNew)) (by rw [hlinks₂, hpath₂])
    rw [List.reverse_reverse, hpath₂, hsame.tree.path_eq hroot] at hlinks₃
    rw [List.reverse_reverse] at htree₃
    obtain ⟨s₂, hfinish, hall⟩ := hwhole _ _ s₁ switch hpostpone hswitch
    obtain ⟨pool, heq⟩ := finishSwitch_eq hash node switch s₁
    rw [hfinish] at hchange heq
    dsimp only at hchange heq
    have htree : s.tree.SameNodes s₂.tree := by
      rw [heq]
      exact hsame.tree.trans (htree₂.trans htree₃)
    have hlinks : s₂.tree.next = nextOn (s₂.tree.path pindexIntermediate) := by
      rw [htree.path_eq hroot, heq]
      exact hlinks₃
    have hpointers : s.SamePointers s₂ := by
      rw [heq]
      exact hsame.toSamePointers.trans ⟨rfl, rfl, rfl, rfl⟩
    -- the postponed blocks
    have hway₂ : s₂.tree.Way pindexIntermediate h vpindexSecondary.reverse.reverse := by
      rw [List.reverse_reverse]
      exact htree.way hway
    obtain ⟨s₃, hdone, hpointers₃, htree₃, hlinks₃⟩ :=
      connectPostponed_links (htree.rooted hroot) hway₂ hlinks hall
    rw [hdone] at hchange
    cases hchange
    refine ⟨rfl, hpointers.trans hpointers₃, htree.trans htree₃, ?_⟩
    rw [hlinks₃, htree.path_eq hroot]

/-- The first block has no other one before it. -/
lemma BlockTree.OneRoot.path_genesis {tree : BlockTree} (htree : tree.OneRoot genesis)
    (hfound : (tree.find genesis).isSome) : tree.path genesis = [genesis] := by
  obtain ⟨p, hp⟩ := Option.isSome_iff_exists.mp hfound
  have hroot := htree.toRooted
  rw [hroot.path_eq_cons hp]
  cases hprev : tree.find p.pprev with
  | none => rw [path, past_of_find_eq_none hprev, List.map_nil]
  | some q =>
    -- the walk from the parent would come to the first block again
    have hne : tree.past p.pprev ≠ [] := by
      rw [hroot.past_eq_cons hprev]
      exact List.cons_ne_nil _ _
    obtain ⟨root, hfirst, hlast⟩ := htree.exists_getLast? (hroot.walks_of_find hprev) hne
    have hmem := List.mem_map_of_mem (f := CBlockIndex.phashBlock) (List.mem_of_getLast? hlast)
    rw [hroot.phashBlock genesis root (find_eq_some.mp hfirst).2] at hmem
    have hnodup := hroot.nodup_path genesis
    rw [hroot.path_eq_cons hp] at hnodup
    exact absurd hmem (List.nodup_cons.mp hnodup).1

/-- The block of a call has an index, whose parent is the one of the block. -/
def CBlock.IndexedIn (hash9 : Bytes → UInt256) (block : CBlock) (tree : BlockTree) : Prop :=
  ∃ p, tree.find (block.getHash hash9) = some p ∧ p.pprev = block.hashPrevBlock

section

variable (hlinked : s.Linked genesis) (hgenesis : node.hashGenesisBlock = genesis)
  (hblock : block.IndexedIn hash9 s.tree) (hwhole : SwitchesWhole hash hash9 node block s)

include hlinked hgenesis hblock hwhole

/-- The part of `SetBestChain` that changes links. -/
lemma moveBest_links (hmove : moveBest hash hash9 node block s = (s', result)) :
    (result = .ok true ∧ s'.pindexGenesisBlock = genesis ∧ s.tree.SameNodes s'.tree ∧
        s'.tree.next = nextOn (s.tree.path (block.getHash hash9))) ∨
      result ≠ .ok true ∧ s.SameChain s' := by
  obtain ⟨p, hp, hprev⟩ := hblock
  have hroot := hlinked.tree.toRooted
  unfold moveBest at hmove
  dsimp only at hmove
  split_ifs at hmove with hfirst hextends
  · -- the genesis block
    have hhash := hfirst.2.trans hgenesis
    have hbest : s.pindexBest = 0 := by
      by_contra hne
      have hzero := (hlinked.best hne).1.symm.trans hfirst.1
      rw [hhash, hzero, BlockTree.find_zero] at hp
      cases hp
    have hempty : s.tree.next = nextOn (s.tree.path (block.getHash hash9)) := by
      rw [hhash] at hp ⊢
      rw [hlinked.tree.path_genesis (by rw [hp]; rfl), hlinked.links, hbest, BlockTree.path,
        BlockTree.past_of_find_eq_none s.tree.find_zero]
      rfl
    unfold setGenesis at hmove
    split_ifs at hmove
    · cases hmove
      exact Or.inr ⟨fun heq => (by cases heq), .refl s⟩
    · cases hmove
      exact Or.inl ⟨rfl, hhash, .refl s.tree, hempty⟩
    · cases hmove
      exact Or.inl ⟨rfl, hhash, .refl s.tree, hempty⟩
  · -- a block on top of the best one
    have hlinks : s.tree.next = nextOn (s.tree.path p.pprev) := by
      rw [hprev, hextends, hlinked.hashBestChain]
      exact hlinked.links
    by_cases htrue : result = .ok true
    · rw [htrue] at hmove
      obtain ⟨hpointers, hsame, hnext⟩ := setBestChainInner_links hroot hp hlinks hmove
      obtain ⟨p', s₁, hfound', hsame₁, hparent, -⟩ := setBestChainInner_eq_true hmove
      rw [hp] at hfound'
      cases hfound'
      have hbest : s.pindexBest ≠ 0 := by
        intro hzero
        rw [hprev, hextends, hlinked.hashBestChain, hzero, BlockTree.find_zero] at hparent
        cases hparent
      exact Or.inl ⟨htrue, hpointers.pindexGenesisBlock.trans (hlinked.best hbest).1, hsame, hnext⟩
    · exact Or.inr ⟨htrue, setBestChainInner_ne_true hmove htrue⟩
  · by_cases hbest : s.pindexBest = 0
    · unfold changeBranch at hmove
      rw [hbest, BlockTree.find_zero] at hmove
      cases hmove
      exact Or.inr ⟨fun heq => (by cases heq), .refl s⟩
    · rcases changeBranch_links hlinked hbest (by rw [hp]; rfl)
        (fun vpindexSecondary pindexIntermediate s₁ switch =>
          hwhole vpindexSecondary pindexIntermediate s₁ switch hfirst hextends) hmove with
        ⟨htrue, hpointers, hsame, hnext⟩ | hfalse
      · exact Or.inl ⟨htrue, hpointers.pindexGenesisBlock.trans (hlinked.best hbest).1, hsame, hnext⟩
      · exact Or.inr hfalse

/-- A call of `SetBestChain` that returns true makes its block the best one and keeps the links along
the best chain, unless something fails after `Reorganize` has committed.  Any other call does not
change the best chain. -/
lemma BestChain.Linked.setBestChain :
    ((setBestChain hash hash9 node block s).2 = .ok true ∧
        (setBestChain hash hash9 node block s).1.Linked genesis ∧
        (setBestChain hash hash9 node block s).1.pindexBest = block.getHash hash9 ∧
        s.tree.SameNodes (setBestChain hash hash9 node block s).1.tree) ∨
      (setBestChain hash hash9 node block s).2 ≠ .ok true ∧
        s.SameChain (setBestChain hash hash9 node block s).1 := by
  have hroot := hlinked.tree.toRooted
  obtain ⟨p, hp, -⟩ := id hblock
  unfold HyperStake.setBestChain
  cases hbegin : node.txnBegin with
  | false => exact Or.inr ⟨fun heq => (by cases heq), .refl s⟩
  | true =>
    rw [Bool.not_true, if_neg Bool.false_ne_true]
    rcases hmove : moveBest hash hash9 node block s with ⟨s', result⟩
    rcases moveBest_links hlinked hgenesis hblock hwhole hmove with
      ⟨rfl, hfirst, hsame, hnext⟩ | ⟨hne, hsame⟩
    · obtain ⟨fields, hq⟩ := hsame.find hp
      dsimp only
      rw [hq]
      refine Or.inl ⟨rfl, ?_, rfl, hsame⟩
      have hpath := hsame.path_eq hroot (block.getHash hash9)
      refine ⟨hsame.oneRoot hlinked.tree, lowest_of_sameNodes hsame hlinked.lowest, ?_, rfl, ?_, ?_⟩
      · dsimp only
        rw [hnext, hpath]
      · intro hzero
        exact absurd hzero (BlockTree.ne_zero_of_find hp)
      · exact fun _ => ⟨hfirst, _, hq, rfl⟩
    · cases result with
      | error e => exact Or.inr ⟨hne, hsame⟩
      | ok fSet =>
        cases fSet with
        | false => exact Or.inr ⟨hne, hsame⟩
        | true => exact absurd rfl hne

end

end Keeps

end HyperStake
