import HyperStake.Chain.FindByHeight
import HyperStake.Net.GetBlocks

/-!
# Block locators

A node describes its chain to another one by the hashes of some of its blocks: those of its last
eleven blocks, then of blocks at distances that double, and at last that of the genesis block
(`CBlockLocator.set`).  The other node takes the first of them that is in its own main chain.

The loop ends for every chain, because a step of it always goes back by a block at least: whenever
there is a block left, the step is the distance so far without the first nine blocks, so it is not
larger than the height of the chain (`StepAt`).  The block that the other node takes is the fork of
the two chains or one below it, and if the fork is `n` blocks behind the tip, that block is not more
than `n - 11` blocks behind the fork (`CBlockLocator.getBlockIndex_set`).
-/

namespace HyperStake

open LinkWalk Descending

/-! ## The locator of a chain -/

namespace CBlockLocator

/-- The loop of `CBlockLocator::Set` over the blocks that are left of a chain, with the size of the
vector so far.  A step that has become negative or zero goes back by no block, so the number of turns
is limited. -/
def setLoop : ℕ → ℕ → Int32 → List CBlockIndex → Option (List UInt256)
  | 0, _, _, _ => none
  | _ + 1, _, _, [] => some []
  | fuel + 1, nSize, nStep, pindex :: past =>
    (setLoop fuel (nSize + 1) (if nSize + 1 > 10 then nStep * 2 else nStep)
      ((pindex :: past).drop nStep.toInt.toNat)).map (pindex.phashBlock :: ·)

/-- `CBlockLocator::Set`: the vector of hashes for a block, if the loop ends in a number of turns. -/
def set (hashGenesisBlock : UInt256) (fuel : ℕ) (tree : BlockTree) (pindex : UInt256) :
    Option (List UInt256) :=
  (setLoop fuel 0 1 (tree.past pindex)).map (· ++ [hashGenesisBlock])

/-- The step of the loop after a number of blocks that it has passed: it is one for the first ten
blocks, and then the number of blocks without nine. -/
def StepAt (nSize : ℕ) (nStep : Int32) (passed : ℕ) : Prop :=
  nSize < 10 ∧ nStep = 1 ∧ passed = nSize ∨
    10 ≤ nSize ∧ 0 < nStep.toInt ∧ (passed : ℤ) = 9 + nStep.toInt

variable {nSize passed : ℕ} {nStep : Int32}

lemma StepAt.pos (h : StepAt nSize nStep passed) : 0 < nStep.toInt.toNat := by
  rcases h with ⟨-, rfl, -⟩ | ⟨-, hpos, -⟩
  · decide
  · omega

/-- A step that is more than one has ten blocks before it. -/
lemma StepAt.eq_of_one_lt (h : StepAt nSize nStep passed) (hlt : 1 < nStep.toInt.toNat) :
    passed = 9 + nStep.toInt.toNat := by
  rcases h with ⟨-, rfl, -⟩ | ⟨-, hpos, heq⟩
  · exact absurd hlt (by decide)
  · omega

/-- The next step, if the blocks that have been passed then are not more than heights can be. -/
lemma StepAt.next (h : StepAt nSize nStep passed) (hlt : passed + nStep.toInt.toNat < 2 ^ 31) :
    StepAt (nSize + 1) (if nSize + 1 > 10 then nStep * 2 else nStep)
      (passed + nStep.toInt.toNat) := by
  rcases h with ⟨hsize, rfl, heq⟩ | ⟨hsize, hpos, heq⟩
  · have hone : (1 : Int32).toInt.toNat = 1 := by decide
    rw [if_neg (by omega), hone, heq]
    rcases Nat.lt_or_ge (nSize + 1) 10 with hlt' | hge
    · exact Or.inl ⟨hlt', rfl, rfl⟩
    · refine Or.inr ⟨hge, by decide, ?_⟩
      have hone' : (1 : Int32).toInt = 1 := by decide
      rw [hone']
      push_cast
      omega
  · rw [if_pos (by omega)]
    have htwo : (2 : Int32).toInt = 2 := by decide
    have hdouble : (nStep * 2).toInt = nStep.toInt * 2 := by
      rw [Int32.toInt_mul, htwo, Int.bmod_eq_of_le] <;> omega
    refine Or.inr ⟨by omega, by omega, ?_⟩
    rw [hdouble]
    push_cast
    omega

variable {rest : List CBlockIndex} {vHave : List UInt256} {fuel : ℕ}

/-- What is left of a chain after a step. -/
lemma StepAt.drop (h : StepAt nSize nStep passed) (hlength : passed + rest.length ≤ 2 ^ 31)
    (hne : rest.drop nStep.toInt.toNat ≠ []) :
    StepAt (nSize + 1) (if nSize + 1 > 10 then nStep * 2 else nStep)
        (passed + nStep.toInt.toNat) ∧
      passed + nStep.toInt.toNat + (rest.drop nStep.toInt.toNat).length ≤ 2 ^ 31 := by
  have hleft := List.length_pos_of_ne_nil hne
  rw [List.length_drop] at hleft ⊢
  exact ⟨h.next (by omega), by omega⟩

/-- The loop ends, as long as there are not more blocks than heights. -/
lemma exists_setLoop
    (hstep : rest ≠ [] → StepAt nSize nStep passed ∧ passed + rest.length ≤ 2 ^ 31) :
    ∃ vHave, ∀ fuel, rest.length < fuel → setLoop fuel nSize nStep rest = some vHave := by
  induction hn : rest.length using Nat.strong_induction_on generalizing rest nSize nStep passed with
  | _ n ih =>
  cases rest with
  | nil =>
    refine ⟨[], fun fuel hfuel => ?_⟩
    obtain ⟨fuel, rfl⟩ := Nat.exists_eq_add_one_of_ne_zero (Nat.ne_zero_of_lt hfuel)
    rfl
  | cons pindex past =>
    obtain ⟨hat, hlength⟩ := hstep (List.cons_ne_nil _ _)
    have hpos := hat.pos
    have hdrop : ((pindex :: past).drop nStep.toInt.toNat).length < n := by
      rw [List.length_drop, hn]
      rw [List.length_cons] at hn
      omega
    obtain ⟨vHave, hvHave⟩ := ih _ hdrop (hat.drop hlength) rfl
    refine ⟨pindex.phashBlock :: vHave, fun fuel hfuel => ?_⟩
    obtain ⟨fuel, rfl⟩ := Nat.exists_eq_add_one_of_ne_zero (Nat.ne_zero_of_lt hfuel)
    rw [setLoop, hvHave fuel (by omega), Option.map_some]

/-- The first hash that the loop adds is that of the first block that is left. -/
lemma setLoop_cons {pindex : CBlockIndex} {past : List CBlockIndex}
    (hset : setLoop fuel nSize nStep (pindex :: past) = some vHave) :
    ∃ fuel' vHave', fuel = fuel' + 1 ∧ vHave = pindex.phashBlock :: vHave' ∧
      setLoop fuel' (nSize + 1) (if nSize + 1 > 10 then nStep * 2 else nStep)
        ((pindex :: past).drop nStep.toInt.toNat) = some vHave' := by
  cases fuel with
  | zero => cases hset
  | succ fuel =>
    rw [setLoop, Option.map_eq_some_iff] at hset
    obtain ⟨vHave', hrest, rfl⟩ := hset
    exact ⟨fuel, vHave', rfl, rfl, hrest⟩

/-- Once the loop has passed the fork, the next hash is that of the block that it is at, or of the
genesis block if there is none. -/
lemma setLoop_below {skipped : List CBlockIndex} {root : CBlockIndex}
    (hroot : (skipped ++ rest).getLast? = some root)
    (hset : setLoop fuel nSize nStep rest = some vHave) :
    ∃ passedBlocks pindex below vHave',
      vHave ++ [root.phashBlock] = pindex.phashBlock :: vHave' ∧
      skipped ++ rest = passedBlocks ++ pindex :: below ∧
      passedBlocks.length ≤ skipped.length := by
  cases rest with
  | nil =>
    rw [List.append_nil] at hroot ⊢
    have hvHave : vHave = [] := by
      cases fuel with
      | zero => cases hset
      | succ fuel => exact (Option.some.inj hset).symm
    refine ⟨skipped.dropLast, root, [], [], by rw [hvHave]; rfl, ?_, ?_⟩
    · exact (List.dropLast_append_getLast? root hroot).symm
    · rw [List.length_dropLast]
      exact Nat.sub_le _ _
  | cons pindex past =>
    obtain ⟨-, vHave', -, rfl, -⟩ := setLoop_cons hset
    exact ⟨skipped, pindex, past, vHave' ++ [root.phashBlock], rfl, rfl, le_rfl⟩

/-- The first hash of a locator that is not that of a block above the fork is that of a block below
it, which is not far below. -/
lemma setLoop_split {above below : List CBlockIndex} {root : CBlockIndex}
    (hat : StepAt nSize nStep passed) (hlength : passed + (above ++ below).length ≤ 2 ^ 31)
    (hroot : below.getLast? = some root)
    (hset : setLoop fuel nSize nStep (above ++ below) = some vHave) :
    ∃ hashes skipped pindex below' vHave',
      vHave ++ [root.phashBlock] = hashes ++ pindex.phashBlock :: vHave' ∧
      hashes ⊆ above.map CBlockIndex.phashBlock ∧ below = skipped ++ pindex :: below' ∧
      skipped.length ≤ passed + above.length - 11 := by
  induction fuel generalizing above nSize nStep passed vHave with
  | zero => cases hset
  | succ fuel ih =>
    cases above with
    | nil =>
      -- the loop is at the fork
      have hroot' : ([] ++ below).getLast? = some root := hroot
      obtain ⟨skipped, pindex, below', vHave', heq, hbelow, hle⟩ := setLoop_below hroot' hset
      refine ⟨[], skipped, pindex, below', vHave', heq, List.nil_subset _, hbelow, ?_⟩
      exact hle.trans (Nat.zero_le _)
    | cons p above =>
      have hpos := hat.pos
      rw [List.cons_append] at hset
      obtain ⟨fuel', vHave, hfuel, rfl, hrest⟩ := setLoop_cons hset
      obtain rfl := Nat.succ.inj hfuel
      rw [← List.cons_append, List.drop_append] at hrest
      rcases Nat.lt_or_ge (p :: above).length nStep.toInt.toNat with hover | hunder
      · -- the step goes over the fork
        rw [List.drop_eq_nil_of_le hover.le, List.nil_append] at hrest
        have hroot' := hroot
        rw [← List.take_append_drop (nStep.toInt.toNat - (p :: above).length) below] at hroot'
        obtain ⟨skipped, pindex, below', vHave', heq, hbelow, hle⟩ := setLoop_below hroot' hrest
        rw [List.take_append_drop] at hbelow
        refine ⟨[p.phashBlock], skipped, pindex, below', vHave', ?_, ?_, hbelow, ?_⟩
        · rw [List.cons_append, heq]
          rfl
        · rw [List.map_cons]
          exact List.cons_subset.mpr ⟨List.mem_cons_self, List.nil_subset _⟩
        · have htake := List.length_take_le (nStep.toInt.toNat - (p :: above).length) below
          have hcons : (p :: above).length = above.length + 1 := List.length_cons
          have heq := hat.eq_of_one_lt (by omega)
          omega
      · -- the step does not go over the fork
        have hnone : nStep.toInt.toNat - (p :: above).length = 0 := by omega
        rw [hnone, List.drop_zero] at hrest
        have hdrop : ((p :: above) ++ below).drop nStep.toInt.toNat ≠ [] := by
          intro hnil
          rw [List.drop_append, hnone, List.drop_zero] at hnil
          rw [(List.append_eq_nil_iff.mp hnil).2] at hroot
          cases hroot
        obtain ⟨hnext, hlength'⟩ := hat.drop hlength hdrop
        rw [List.drop_append, hnone, List.drop_zero] at hlength'
        obtain ⟨hashes, skipped, pindex, below', vHave', heq, hsub, hbelow, hle⟩ :=
          ih hnext hlength' hrest
        refine ⟨p.phashBlock :: hashes, skipped, pindex, below', vHave', ?_, ?_, hbelow, ?_⟩
        · rw [List.cons_append, heq]
          rfl
        · rw [List.map_cons]
          refine List.cons_subset.mpr ⟨List.mem_cons_self, ?_⟩
          intro h hmem
          obtain ⟨q, hq, rfl⟩ := List.mem_map.mp (hsub hmem)
          have hq' := List.mem_of_mem_drop hq
          exact List.mem_map_of_mem hq'
        · rw [List.length_drop] at hle
          omega

end CBlockLocator

/-! ## Two nodes -/

/-- The main chain of a node: it comes from the genesis block at the height zero, and
`IsInMainChain` holds of its blocks and of no others. -/
structure BlockTree.MainChain (genesis : UInt256) (tree : BlockTree) (pindexBest : UInt256) :
    Prop where
  oneRoot : tree.OneRoot genesis
  lowest : ∀ p, tree.find genesis = some p → heightOf p = 0
  best : ∃ p, tree.find pindexBest = some p
  isInMainChain : ∀ h p, tree.find h = some p →
    ((p.pnext ≠ 0 ∨ h = pindexBest) ↔ tree.Ancestor h pindexBest)

/-- The blocks of a chain that a link leads on from. -/
lemma nextOn_ne_zero_iff {chain : List UInt256} (hne : ∀ k ∈ chain, k ≠ 0) (j : UInt256) :
    nextOn chain j ≠ 0 ↔ j ∈ chain.tail := by
  induction chain with
  | nil => simp [nextOn]
  | cons h chain ih =>
    cases chain with
    | nil => simp [nextOn]
    | cons k chain =>
      rw [nextOn]
      split_ifs with heq
      · exact iff_of_true (hne h List.mem_cons_self) (heq ▸ List.mem_cons_self)
      · rw [ih fun i hi => hne i (List.mem_cons_of_mem _ hi), List.tail_cons, List.tail_cons,
          List.mem_cons, or_iff_right heq]

/-- The links along the best chain mark a main chain. -/
lemma BestChain.Linked.mainChain {genesis : UInt256} {s : BestChain} (hlinked : s.Linked genesis)
    (hne : s.pindexBest ≠ 0) : s.tree.MainChain genesis s.pindexBest := by
  obtain ⟨-, best, hbest, -⟩ := hlinked.best hne
  have hroot := hlinked.tree.toRooted
  refine ⟨hlinked.tree, hlinked.lowest, ⟨best, hbest⟩, fun h p hp => ?_⟩
  have hnext : p.pnext = nextOn (s.tree.path s.pindexBest) h := by
    rw [← hlinked.links, BlockTree.next, hp]
    rfl
  have hzero : ∀ k ∈ s.tree.path s.pindexBest, k ≠ 0 := by
    intro k hk
    obtain ⟨q, hq, rfl⟩ := List.mem_map.mp hk
    exact BlockTree.ne_zero_of_find (hlinked.find_of_mem hq)
  rw [hnext, nextOn_ne_zero_iff hzero, hroot.ancestor_iff hbest, hroot.path_eq_cons hbest,
    List.tail_cons, List.mem_cons, or_comm]

/-- `CBlockIndex::IsInMainChain`. -/
def BestChain.isInMainChain (s : BestChain) (p : CBlockIndex) : Bool :=
  p.pnext != 0 || p.phashBlock == s.pindexBest

/-- In every run in which every switch to another branch is completed, `IsInMainChain` holds of exactly
the blocks that the `pprev` pointers lead to from the best block. -/
theorem SearchRun.isInMainChain_iff_mem_path {hash hash9 : Bytes → UInt256} {genesis last : UInt256}
    {s : BestChain} (hrun : SearchRun hash hash9 genesis (SwitchesWhole hash hash9) s last)
    {h : UInt256} {p : CBlockIndex} (hfound : s.tree.find h = some p) :
    s.isInMainChain p = true ↔ h ∈ s.tree.path s.pindexBest := by
  have hlinked := hrun.linked.1
  have hroot := hlinked.tree.toRooted
  have hhash : p.phashBlock = h := hroot.phashBlock h p (BlockTree.find_eq_some.mp hfound).2
  rw [BestChain.isInMainChain, Bool.or_eq_true, bne_iff_ne, beq_iff_eq, hhash]
  by_cases hzero : s.pindexBest = 0
  · -- there is no best block yet, and no link
    have hpath : s.tree.path s.pindexBest = [] := by
      rw [hzero]
      exact congrArg (List.map _) (BlockTree.past_of_find_eq_none s.tree.find_zero)
    have hnext : p.pnext = 0 := by
      have hlinks := congrFun hlinked.links h
      rw [hpath, BlockTree.next, hfound] at hlinks
      exact hlinks
    rw [hpath, hzero, hnext]
    simpa using BlockTree.ne_zero_of_find hfound
  · obtain ⟨-, best, hbest, -⟩ := hlinked.best hzero
    rw [(hlinked.mainChain hzero).isInMainChain h p hfound, hroot.ancestor_iff hbest]

/-- A block that has been added on top of the best block, but not connected. -/
theorem isInMainChain_newBlock :
    BestChain.isInMainChain { genesisState with tree := secondTree }
        { phashBlock := 2, pprev := 1, nFile := 1, nBlockPos := 300, nHeight := 1 } = true ↔
      2 ∈ secondTree.path genesisState.pindexBest := by
  have hgenesis : SearchRun sampleHash nonceHash 1 (SwitchesWhole sampleHash nonceHash)
      genesisState 0 := by
    apply searchRun_genesisState
    intro _ _ _ _ hnot
    exact absurd ⟨rfl, by decide⟩ hnot
  exact (hgenesis.add _ newBlock_second).isInMainChain_iff_mem_path
    (BlockTree.find_eq_some.mpr ⟨by decide, by simp [BlockTree.insertIndex]⟩)

/-- Two trees have the same parents of the blocks that are in both. -/
def BlockTree.SameParents (tree tree' : BlockTree) : Prop :=
  ∀ h p q, tree.find h = some p → tree'.find h = some q → p.pprev = q.pprev

/-- The fork of a block of one tree and a block of another one. -/
structure BlockTree.ForkOf (tree tree' : BlockTree) (fork h k : UInt256) : Prop where
  left : tree.Ancestor fork h
  right : tree'.Ancestor fork k
  lowest : ∀ b, tree.Ancestor b h → tree'.Ancestor b k → tree.Ancestor b fork

namespace BlockTree

variable {tree tree' : BlockTree} {genesis tip tip' a h : UInt256} {l : List UInt256}

/-- The way from a block that is in the other tree is the same there. -/
lemma SameParents.way (hsame : tree.SameParents tree') (hroot : tree'.Rooted)
    (hknown : ∃ q, tree'.find h = some q) (hway : tree.Way a h l) : tree'.Way a h l := by
  induction hway with
  | here _ =>
    obtain ⟨q, hq⟩ := hknown
    exact .here hq
  | @step k p l hp hrest ih =>
    obtain ⟨q, hq⟩ := hknown
    have hparent := hsame k p q hp hq
    refine .step hq ?_
    rw [← hparent]
    apply ih
    obtain ⟨r, hr⟩ : ∃ r, tree.find p.pprev = some r := by
      cases hrest with
      | here hr => exact ⟨_, hr⟩
      | step hr _ => exact ⟨_, hr⟩
    rcases hroot.closed k q (find_eq_some.mp hq).2 with hzero | hmem
    · rw [hparent, hzero, find_zero] at hr
      cases hr
    · obtain ⟨r', hr'⟩ := MapLoop.mem_iff.mp hmem
      refine ⟨r', find_eq_some.mpr ⟨ne_zero_of_find hr, ?_⟩⟩
      rw [hparent]
      exact hr'

/-- A block below a block that is on both chains is on both chains. -/
lemma SameParents.ancestor (hsame : tree.SameParents tree') (hroot : tree'.Rooted)
    (ha : tree.Ancestor a h) (hh : tree'.Ancestor h tip') : tree'.Ancestor a tip' := by
  obtain ⟨l, hway⟩ := ha
  obtain ⟨l', hway'⟩ := hh
  exact ⟨l' ++ l, hway'.trans (hsame.way hroot hway'.exists_find hway)⟩

/-- The walk from a block on a walk is the rest of it. -/
lemma Rooted.past_of_append {above below : List CBlockIndex} {p q : CBlockIndex}
    (hroot : tree.Rooted) (hfound : tree.find h = some p)
    (hpast : tree.past h = above ++ q :: below) :
    tree.find q.phashBlock = some q ∧ tree.past q.phashBlock = q :: below := by
  have hmem : q ∈ tree.past h := by
    rw [hpast]
    exact List.mem_append_right _ List.mem_cons_self
  have hq := hroot.find_of_mem_past (Or.inr (mem_of_find hfound)) hmem
  have hwalk := hroot.walks_of_find hfound
  rw [hpast] at hwalk
  exact ⟨hq, past_eq (.step hq hwalk.of_append)⟩

section

variable (hmain : tree.MainChain genesis tip)

include hmain

/-- The condition of `IsInMainChain`. -/
lemma MainChain.isInMainChain_iff {q : CBlockIndex} (hfound : tree.find h = some q) :
    (q.pnext != 0 || h == tip) = true ↔ tree.Ancestor h tip := by
  rw [Bool.or_eq_true, bne_iff_ne, beq_iff_eq]
  exact hmain.isInMainChain h q hfound

/-- What `GetBlockIndex` returns for hashes of which the first ones are not in the main chain. -/
lemma MainChain.getBlockIndex_append {pindexGenesisBlock : UInt256} {hashes vHave : List UInt256}
    {q : CBlockIndex}
    (hnot : ∀ k ∈ hashes, k ≠ 0 ∧ ¬ tree.Ancestor k tip) (hh : tree.Ancestor h tip)
    (hfound : tree.find h = some q) :
    GetBlocks.getBlockIndex tree pindexGenesisBlock tip (hashes ++ h :: vHave) = some q := by
  induction hashes with
  | nil =>
    rw [List.nil_append, GetBlocks.getBlockIndex, (find_eq_some.mp hfound).2]
    exact if_pos ((hmain.isInMainChain_iff hfound).mpr hh)
  | cons k hashes ih =>
    obtain ⟨hk, hout⟩ := hnot k List.mem_cons_self
    have hrest := ih fun j hj => hnot j (List.mem_cons_of_mem _ hj)
    rw [List.cons_append, GetBlocks.getBlockIndex]
    cases hget : tree.mapBlockIndex[k]? with
    | none => exact hrest
    | some p =>
      have hin := (hmain.isInMainChain_iff (find_eq_some.mpr ⟨hk, hget⟩)).not.mpr hout
      exact (if_neg hin).trans hrest

/-- The fork of two chains, with the blocks above it and those from it on. -/
lemma MainChain.exists_fork
    (hmain' : tree'.MainChain genesis tip') (hsame : tree.SameParents tree') :
    ∃ above pfork below root, tree.past tip = above ++ pfork :: below ∧
      (pfork :: below).getLast? = some root ∧ root.phashBlock = genesis ∧
      (∀ p ∈ above, ¬ tree'.Ancestor p.phashBlock tip') ∧
      (∀ p ∈ pfork :: below, tree'.Ancestor p.phashBlock tip') ∧
      tree.ForkOf tree' pfork.phashBlock tip tip' := by
  classical
  obtain ⟨best, hbest⟩ := hmain.best
  obtain ⟨best', hbest'⟩ := hmain'.best
  have hroot := hmain.oneRoot.toRooted
  have hroot' := hmain'.oneRoot.toRooted
  have hne : tree.past tip ≠ [] := by
    rw [hroot.past_eq_cons hbest]
    exact List.cons_ne_nil _ _
  obtain ⟨root, hgenesis, hlast⟩ := hmain.oneRoot.exists_getLast? (hroot.walks_of_find hbest) hne
  obtain ⟨root', hgenesis', hlast'⟩ : ∃ root', tree'.find genesis = some root' ∧
      tree'.Ancestor genesis tip' := by
    have hne' : tree'.past tip' ≠ [] := by
      rw [hroot'.past_eq_cons hbest']
      exact List.cons_ne_nil _ _
    obtain ⟨root', hfound, hlast'⟩ :=
      hmain'.oneRoot.exists_getLast? (hroot'.walks_of_find hbest') hne'
    refine ⟨root', hfound, (hroot'.ancestor_iff hbest').mpr ?_⟩
    have hhash := hroot'.phashBlock genesis root' (find_eq_some.mp hfound).2
    exact List.mem_map.mpr ⟨root', List.mem_of_getLast? hlast', hhash⟩
  have hhash : root.phashBlock = genesis := hroot.phashBlock _ _ (find_eq_some.mp hgenesis).2
  -- the first block of the first chain that is on the second one too
  cases hfirst : (tree.past tip).find? fun p => decide (tree'.Ancestor p.phashBlock tip') with
  | none =>
    have hnone := List.find?_eq_none.mp hfirst root (List.mem_of_getLast? hlast)
    rw [decide_eq_true_iff, hhash] at hnone
    exact absurd hlast' hnone
  | some pfork =>
    obtain ⟨hfork, above, below, hpast, habove⟩ := List.find?_eq_some_iff_append.mp hfirst
    rw [decide_eq_true_iff] at hfork
    have hout : ∀ p ∈ above, ¬ tree'.Ancestor p.phashBlock tip' := by
      intro p hp
      have hnot := habove p hp
      rwa [Bool.not_eq_true', decide_eq_false_iff_not] at hnot
    have hpath : tree.path tip = above.map CBlockIndex.phashBlock ++
        pfork.phashBlock :: below.map CBlockIndex.phashBlock := by
      rw [path, hpast, List.map_append, List.map_cons]
    obtain ⟨hfound, hrest⟩ := hroot.past_of_append hbest hpast
    have hancestor : ∀ b, tree.Ancestor b pfork.phashBlock ↔
        b ∈ (pfork :: below).map CBlockIndex.phashBlock := by
      intro b
      rw [hroot.ancestor_iff hfound, path, hrest]
    refine ⟨above, pfork, below, root, hpast, ?_, hhash, hout, fun p hp => ?_,
      ⟨_, (hroot.way_iff hbest).mpr ⟨_, hpath⟩⟩, hfork, fun b hb hb' => ?_⟩
    · rw [hpast, List.getLast?_append_of_ne_nil _ (List.cons_ne_nil _ _)] at hlast
      exact hlast
    · exact hsame.ancestor hroot' ((hancestor _).mpr (List.mem_map_of_mem hp)) hfork
    · have hmem := (hroot.ancestor_iff hbest).mp hb
      rw [hpath] at hmem
      refine (hancestor b).mpr ((List.mem_append.mp hmem).resolve_left fun hhigh => ?_)
      obtain ⟨p, hp, rfl⟩ := List.mem_map.mp hhigh
      exact hout p hp hb'

end

end BlockTree

/-- The locator that `Set` makes for the tip of a chain ends with the genesis block, and for another
node with the same parents `GetBlockIndex` returns a block of both chains that is not more than
`n - 11` blocks below their fork, if the fork is `n` blocks below the tip. -/
theorem CBlockLocator.getBlockIndex_set {genesis tip tip' : UInt256} {tree tree' : BlockTree}
    (pindexGenesisBlock : UInt256) (hmain : tree.MainChain genesis tip)
    (hmain' : tree'.MainChain genesis tip') (hsame : tree.SameParents tree') :
    ∃ vHave, (∀ fuel, (tree.past tip).length < fuel →
        CBlockLocator.set genesis fuel tree tip = some vHave) ∧
      vHave.getLast? = some genesis ∧
      ∃ pindex fork l l',
        GetBlocks.getBlockIndex tree' pindexGenesisBlock tip' vHave = some pindex ∧
        tree.Ancestor pindex.phashBlock tip ∧ tree'.Ancestor pindex.phashBlock tip' ∧
        tree.ForkOf tree' fork tip tip' ∧ tree.Way fork tip l ∧
        tree.Way pindex.phashBlock fork l' ∧ l'.length ≤ l.length - 11 := by
  obtain ⟨above, pfork, below, root, hpast, hlast, hhash, habove, hbelow, hfork⟩ :=
    hmain.exists_fork hmain' hsame
  obtain ⟨best, hbest⟩ := hmain.best
  have hroot := hmain.oneRoot.toRooted
  have hwalk := hroot.walks_of_find hbest
  have hmem : ∀ p ∈ tree.past tip, tree.find p.phashBlock = some p := fun p hp =>
    hroot.find_of_mem_past (Or.inr (BlockTree.mem_of_find hbest)) hp
  -- the chain has as many blocks as its height says
  have hlength : (tree.past tip).length ≤ 2 ^ 31 := by
    have hdescends := hmain.oneRoot.descends hwalk
    have hgenesis : tree.find genesis = some root := by
      rw [← hhash]
      refine hmem root ?_
      rw [hpast]
      exact List.mem_append_right _ (List.mem_of_getLast? hlast)
    have hlast' : (tree.past tip).getLast? = some root := by
      rw [hpast, List.getLast?_append_of_ne_nil _ (List.cons_ne_nil _ _), hlast]
    rw [hroot.past_eq_cons hbest] at hdescends hlast' ⊢
    have hheight := hdescends.num_eq_of_getLast? hlast'
    have hlow := hmain.lowest root hgenesis
    have hhigh := Int32.toInt_lt best.nHeight
    rw [List.length_cons]
    unfold heightOf at hheight hlow
    omega
  have hat : CBlockLocator.StepAt 0 1 0 := Or.inl ⟨by decide, rfl, rfl⟩
  obtain ⟨vHave, hset⟩ : ∃ vHave, ∀ fuel, (tree.past tip).length < fuel →
      CBlockLocator.setLoop fuel 0 1 (tree.past tip) = some vHave :=
    CBlockLocator.exists_setLoop fun _ => ⟨hat, by omega⟩
  have hset' := hset _ (Nat.lt_succ_self _)
  rw [hpast] at hset' hlength
  obtain ⟨hashes, skipped, pindex, below', vHave', heq, hsub, hbelow', hle⟩ :=
    CBlockLocator.setLoop_split hat (by omega) hlast hset'
  rw [hhash] at heq
  have hpindex : pindex ∈ pfork :: below := by
    rw [hbelow']
    exact List.mem_append_right _ List.mem_cons_self
  have hancestor' := hbelow pindex hpindex
  obtain ⟨found, hfound⟩ := hancestor'.choose_spec.exists_find
  -- the ways on the first chain
  obtain ⟨hpfork, hrest⟩ := hroot.past_of_append hbest hpast
  have hway : tree.Way pfork.phashBlock tip (above.map CBlockIndex.phashBlock) := by
    refine (hroot.way_iff hbest).mpr ⟨below.map CBlockIndex.phashBlock, ?_⟩
    rw [BlockTree.path, hpast, List.map_append, List.map_cons]
  have hway' : tree.Way pindex.phashBlock pfork.phashBlock
      (skipped.map CBlockIndex.phashBlock) := by
    refine (hroot.way_iff hpfork).mpr ⟨below'.map CBlockIndex.phashBlock, ?_⟩
    rw [BlockTree.path, hrest, hbelow', List.map_append, List.map_cons]
  have hfoundHash : found.phashBlock = pindex.phashBlock :=
    hmain'.oneRoot.phashBlock _ _ (BlockTree.find_eq_some.mp hfound).2
  refine ⟨vHave ++ [genesis], fun fuel hfuel => ?_, List.getLast?_concat, found,
    pfork.phashBlock, above.map CBlockIndex.phashBlock, skipped.map CBlockIndex.phashBlock, ?_,
    ?_, ?_, hfork, hway, ?_, ?_⟩
  · rw [CBlockLocator.set, hset fuel hfuel, Option.map_some]
  · rw [heq]
    refine hmain'.getBlockIndex_append (fun k hk => ?_) hancestor' hfound
    obtain ⟨p, hp, rfl⟩ := List.mem_map.mp (hsub hk)
    refine ⟨BlockTree.ne_zero_of_find (hmem p ?_), habove p hp⟩
    rw [hpast]
    exact List.mem_append_left _ hp
  · rw [hfoundHash]
    exact ⟨_, hway.trans hway'⟩
  · rw [hfoundHash]
    exact hancestor'
  · rw [hfoundHash]
    exact hway'
  · rw [List.length_map, List.length_map]
    omega

/-- The links along the branch with two blocks. -/
def firstBranch : BlockTree := (twoBranches.setNext 1 2).setNext 2 3

/-- The link along the branch with one block. -/
def secondBranch : BlockTree := twoBranches.setNext 1 4

/-- A tree with the blocks of the two branches, in which the links have been looked at. -/
lemma BlockTree.mainChain_of_branches {tree : BlockTree} {tip : UInt256}
    (hsame : twoBranches.SameNodes tree) (hbest : (tree.find tip).isSome = true)
    (hlinks : ∀ entry ∈ tree.mapBlockIndex.toList,
      (entry.2.pnext ≠ 0 ∨ entry.1 = tip) ↔ entry.1 ∈ tree.path tip) :
    tree.MainChain 1 tip := by
  have hroot := hsame.oneRoot oneRoot_twoBranches
  obtain ⟨best, hfound⟩ := Option.isSome_iff_exists.mp hbest
  refine ⟨hroot, lowest_of_sameNodes hsame fun p hp => ?_, ⟨best, hfound⟩, fun h p hp => ?_⟩
  · have hheight : (twoBranches.find 1).map CBlockIndex.nHeight = some 0 := by decide +kernel
    rw [hp] at hheight
    exact congrArg Int32.toInt (Option.some.inj hheight)
  · rw [hroot.ancestor_iff hfound]
    exact hlinks (h, p) (Std.ExtTreeMap.mem_toList_iff_getElem?_eq_some.mpr (find_eq_some.mp hp).2)

/-- Two nodes on the two branches. -/
theorem getBlockIndex_branches : ∃ vHave pindex fork l l',
    CBlockLocator.set 1 4 firstBranch 3 = some vHave ∧ vHave.getLast? = some 1 ∧
      GetBlocks.getBlockIndex secondBranch 1 4 vHave = some pindex ∧
      secondBranch.Ancestor pindex.phashBlock 4 ∧ firstBranch.ForkOf secondBranch fork 3 4 ∧
      firstBranch.Way fork 3 l ∧ firstBranch.Way pindex.phashBlock fork l' ∧
      l'.length ≤ l.length - 11 := by
  have hfirst : twoBranches.SameNodes firstBranch :=
    (BlockTree.sameNodes_setNext _ 1 2).trans (BlockTree.sameNodes_setNext _ 2 3)
  have hsecond : twoBranches.SameNodes secondBranch := BlockTree.sameNodes_setNext _ 1 4
  have hsame : firstBranch.SameParents secondBranch := by
    intro h p q hp hq
    obtain ⟨p', fields, hp', rfl⟩ := hfirst.find_symm hp
    obtain ⟨q', fields', hq', rfl⟩ := hsecond.find_symm hq
    rw [hp'] at hq'
    cases hq'
    rfl
  have hmain : firstBranch.MainChain 1 3 :=
    BlockTree.mainChain_of_branches hfirst (by decide +kernel) (by decide +kernel)
  have hmain' : secondBranch.MainChain 1 4 :=
    BlockTree.mainChain_of_branches hsecond (by decide +kernel) (by decide +kernel)
  obtain ⟨vHave, hset, hlast, pindex, fork, l, l', hfound, -, hancestor, hfork, hway, hway', hle⟩ :=
    CBlockLocator.getBlockIndex_set 1 hmain hmain' hsame
  have hlength : (firstBranch.past 3).length < 4 := by decide +kernel
  exact ⟨vHave, pindex, fork, l, l', hset 4 hlength, hlast, hfound, hancestor, hfork, hway, hway', hle⟩

end HyperStake
