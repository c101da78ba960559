import HyperStake.Chain.ActiveChain
import HyperStake.Chain.ProcessBlock

/-!
# The store of orphan blocks

`ProcessBlock` keeps the blocks whose parents are not known by their hashes and by their parents,
and keeps the set of their stakes.  The two maps agree in every run, and no orphan waits for a known
block, as long as every block for which orphans wait is accepted once its index is added.

The stakes are erased by value.  Blocks with one stake can be stored together, so the stake of an
orphan that stays is lost if another one with it is taken out (`not_booked_sharedStake`).  In the
runs in which neither happens the books are in order (`BlockRun.orphanBlocksBooked`).
-/

namespace HyperStake

open WorkQueue

namespace OrphanBlocks

/-- The multimap has one entry for each stored block, under its parent, the stakes are those of the
stored proof-of-stake blocks, and no stored block has a known parent. -/
structure Booked (mapBlockIndex : Std.ExtTreeMap UInt256 CBlockIndex) (orphans : OrphanBlocks) :
    Prop where
  nodup : orphans.mapOrphanBlocksByPrev.Nodup
  byPrev : ∀ (k : UInt256) (block : CBlock), (k, block) ∈ orphans.mapOrphanBlocksByPrev ↔
    k = block.hashPrevBlock ∧ ∃ h : UInt256, orphans.mapOrphanBlocks[h]? = some block
  stakes : ∀ stake, stake ∈ orphans.setStakeSeenOrphan ↔ ∃ (h : UInt256) (block : CBlock),
    orphans.mapOrphanBlocks[h]? = some block ∧ block.isProofOfStake = true ∧
      block.getProofOfStake = stake
  waiting : ∀ (h : UInt256) (block : CBlock), orphans.mapOrphanBlocks[h]? = some block →
    block.hashPrevBlock ∉ mapBlockIndex

/-! ## The two maps -/

/-- The blocks are stored under their hashes, and the two maps agree. -/
structure Kept (hash9 : Bytes → UInt256) (orphans : OrphanBlocks) : Prop where
  getHash : ∀ (h : UInt256) (block : CBlock), orphans.mapOrphanBlocks[h]? = some block →
    block.getHash hash9 = h
  nodup : orphans.mapOrphanBlocksByPrev.Nodup
  byPrev : ∀ (k : UInt256) (block : CBlock), (k, block) ∈ orphans.mapOrphanBlocksByPrev ↔
    k = block.hashPrevBlock ∧ orphans.mapOrphanBlocks[block.getHash hash9]? = some block

/-- A stored block stays if one is stored. -/
lemma getElem?_store_of_some {orphans : OrphanBlocks} {k : UInt256} {block' : CBlock}
    (hstored : orphans.mapOrphanBlocks[k]? = some block') (h : UInt256) (block : CBlock) :
    (orphans.store h block).mapOrphanBlocks[k]? = some block' := by
  rw [store, MapLoop.getElem?_insertIfNew_eq, hstored]
  split_ifs <;> rfl

/-- Take some entries out, but for the multimap. -/
def takeAll (hash9 : Bytes → UInt256) (items : List (UInt256 × CBlock)) (orphans : OrphanBlocks) :
    OrphanBlocks :=
  items.foldl (fun orphans mi => orphans.take hash9 mi.2) orphans

/-- Take out the blocks that wait for a block. -/
def resolve (hash9 : Bytes → UInt256) (orphans : OrphanBlocks) (hashPrev : UInt256) :
    OrphanBlocks :=
  (takeAll hash9 (orphans.children hashPrev) orphans).eraseChildren hashPrev

variable {hash9 : Bytes → UInt256} {orphans : OrphanBlocks} {h hashPrev : UInt256} {block : CBlock}

lemma mem_children {mi : UInt256 × CBlock} :
    mi ∈ orphans.children hashPrev ↔ mi ∈ orphans.mapOrphanBlocksByPrev ∧ mi.1 = hashPrev := by
  rw [children, List.mem_filter, beq_iff_eq]

lemma hasChild_eq_true :
    orphans.hasChild h = true ↔ ∃ block, (h, block) ∈ orphans.mapOrphanBlocksByPrev := by
  rw [hasChild, List.any_eq_true]
  constructor
  · rintro ⟨⟨k, block⟩, hmem, hk⟩
    rw [beq_iff_eq] at hk
    dsimp only at hk
    subst hk
    exact ⟨block, hmem⟩
  · rintro ⟨block, hmem⟩
    exact ⟨(h, block), hmem, beq_self_eq_true h⟩

variable (items : List (UInt256 × CBlock))

lemma takeAll_byPrev :
    (takeAll hash9 items orphans).mapOrphanBlocksByPrev = orphans.mapOrphanBlocksByPrev := by
  induction items generalizing orphans with
  | nil => rfl
  | cons mi items ih => exact ih

lemma byPrev_resolve (orphans : OrphanBlocks) (hashPrev : UInt256) :
    (orphans.resolve hash9 hashPrev).mapOrphanBlocksByPrev =
      orphans.mapOrphanBlocksByPrev.filter fun mi => mi.1 != hashPrev :=
  congrArg (List.filter _) (takeAll_byPrev _)

lemma getElem?_takeAll (h : UInt256) :
    (takeAll hash9 items orphans).mapOrphanBlocks[h]? =
      if ∃ mi ∈ items, mi.2.getHash hash9 = h then none else orphans.mapOrphanBlocks[h]? := by
  induction items generalizing orphans with
  | nil => simp [takeAll]
  | cons mi items ih =>
    have hcons : takeAll hash9 (mi :: items) orphans =
        takeAll hash9 items (orphans.take hash9 mi.2) := rfl
    rw [hcons, ih, take]
    dsimp only
    rw [Std.ExtTreeMap.getElem?_erase]
    by_cases hitems : ∃ mi ∈ items, mi.2.getHash hash9 = h
    · obtain ⟨mi', hmem, heq⟩ := hitems
      rw [if_pos ⟨mi', hmem, heq⟩, if_pos ⟨mi', List.mem_cons_of_mem _ hmem, heq⟩]
    · rw [if_neg hitems]
      by_cases hfirst : mi.2.getHash hash9 = h
      · rw [if_pos (Std.LawfulEqCmp.compare_eq_iff_eq.mpr hfirst),
          if_pos ⟨mi, List.mem_cons_self, hfirst⟩]
      · rw [if_neg fun hcmp => hfirst (Std.LawfulEqCmp.eq_of_compare hcmp), if_neg]
        rintro ⟨mi', hmem, heq⟩
        rcases List.mem_cons.mp hmem with rfl | hmem
        · exact hfirst heq
        · exact hitems ⟨mi', hmem, heq⟩

lemma mem_takeAll_stakes (stake : Stake) :
    stake ∈ (takeAll hash9 items orphans).setStakeSeenOrphan ↔
      stake ∈ orphans.setStakeSeenOrphan ∧ ∀ mi ∈ items, mi.2.getProofOfStake ≠ stake := by
  induction items generalizing orphans with
  | nil => simp [takeAll]
  | cons mi items ih =>
    have hcons : takeAll hash9 (mi :: items) orphans =
        takeAll hash9 items (orphans.take hash9 mi.2) := rfl
    rw [hcons, ih, take, Finset.mem_erase, List.forall_mem_cons]
    constructor
    · rintro ⟨⟨hne, hmem⟩, hitems⟩
      exact ⟨hmem, hne.symm, hitems⟩
    · rintro ⟨hmem, hne, hitems⟩
      exact ⟨⟨hne.symm, hmem⟩, hitems⟩

namespace Kept

lemma empty : Kept hash9 {} := by
  refine ⟨?_, List.nodup_nil, ?_⟩
  · intro h block hget
    simp at hget
  · intro k block
    simp

section

variable (hk : Kept hash9 orphans)

include hk

/-- Two stored blocks with one hash are the same. -/
lemma eq_of_getHash {k k' : UInt256} {block block' : CBlock}
    (hmem : (k, block) ∈ orphans.mapOrphanBlocksByPrev)
    (hmem' : (k', block') ∈ orphans.mapOrphanBlocksByPrev)
    (heq : block.getHash hash9 = block'.getHash hash9) : block = block' := by
  have hget := ((hk.byPrev k block).mp hmem).2
  rw [heq, ((hk.byPrev k' block').mp hmem').2] at hget
  exact (Option.some.inj hget).symm

/-- The blocks that are stored under their hashes are those in the multimap. -/
lemma getElem?_iff :
    orphans.mapOrphanBlocks[h]? = some block ↔
      block.getHash hash9 = h ∧ (block.hashPrevBlock, block) ∈ orphans.mapOrphanBlocksByPrev := by
  rw [hk.byPrev]
  constructor
  · intro hget
    obtain rfl := hk.getHash h block hget
    exact ⟨rfl, rfl, hget⟩
  · rintro ⟨rfl, -, hget⟩
    exact hget

/-- Storing a block that is not stored. -/
lemma store (hnew : block.getHash hash9 ∉ orphans.mapOrphanBlocks) :
    Kept hash9 (orphans.store (block.getHash hash9) block) := by
  have hget : ∀ h, (orphans.store (block.getHash hash9) block).mapOrphanBlocks[h]? =
      if block.getHash hash9 = h then some block else orphans.mapOrphanBlocks[h]? := by
    intro h
    rw [OrphanBlocks.store]
    dsimp only
    rw [MapLoop.getElem?_insertIfNew_eq]
    by_cases heq : block.getHash hash9 = h
    · subst heq
      rw [if_pos rfl, if_pos rfl, Std.ExtTreeMap.getElem?_eq_none hnew, Option.getD_none]
    · rw [if_neg heq, if_neg heq]
  have hfresh : ∀ k, (k, block) ∉ orphans.mapOrphanBlocksByPrev := by
    intro k hmem
    have hstored := ((hk.byPrev k block).mp hmem).2
    rw [Std.ExtTreeMap.getElem?_eq_none hnew] at hstored
    cases hstored
  refine ⟨?_, ?_, ?_⟩
  · intro h block' hstored
    rw [hget] at hstored
    split_ifs at hstored with heq
    · rw [← Option.some.inj hstored]
      exact heq
    · exact hk.getHash h block' hstored
  · apply List.Nodup.append hk.nodup (List.nodup_singleton _)
    intro mi hmem hsingle
    rw [List.mem_singleton] at hsingle
    subst hsingle
    exact hfresh _ hmem
  · intro k block'
    rw [hget]
    have hmem : (k, block') ∈ (orphans.store (block.getHash hash9) block).mapOrphanBlocksByPrev ↔
        (k, block') ∈ orphans.mapOrphanBlocksByPrev ∨
          k = block.hashPrevBlock ∧ block' = block := by
      rw [OrphanBlocks.store, List.mem_append, List.mem_singleton, Prod.mk.injEq]
    rw [hmem, hk.byPrev]
    by_cases heq : block.getHash hash9 = block'.getHash hash9
    · rw [if_pos heq, ← heq, Std.ExtTreeMap.getElem?_eq_none hnew]
      constructor
      · rintro (⟨-, hnone⟩ | ⟨rfl, rfl⟩)
        · cases hnone
        · exact ⟨rfl, rfl⟩
      · rintro ⟨rfl, hsome⟩
        cases hsome
        exact Or.inr ⟨rfl, rfl⟩
    · rw [if_neg heq]
      constructor
      · rintro (hold | ⟨-, rfl⟩)
        · exact hold
        · exact absurd rfl heq
      · exact Or.inl

/-- A stored block is taken out if it waits for the block. -/
lemma getElem?_resolve (hashPrev : UInt256) :
    (orphans.resolve hash9 hashPrev).mapOrphanBlocks[h]? = some block ↔
      orphans.mapOrphanBlocks[h]? = some block ∧ block.hashPrevBlock ≠ hashPrev := by
  have htake : (orphans.resolve hash9 hashPrev).mapOrphanBlocks[h]? =
      if ∃ mi ∈ orphans.children hashPrev, mi.2.getHash hash9 = h then none
      else orphans.mapOrphanBlocks[h]? := getElem?_takeAll _ h
  rw [htake]
  constructor
  · intro hget
    split_ifs at hget with hnone
    refine ⟨hget, fun heq => hnone ?_⟩
    obtain ⟨hhash, hmem⟩ := hk.getElem?_iff.mp hget
    exact ⟨(block.hashPrevBlock, block), mem_children.mpr ⟨hmem, heq⟩, hhash⟩
  · rintro ⟨hget, hne⟩
    rw [if_neg, hget]
    rintro ⟨⟨k, block'⟩, hmem, heq⟩
    obtain ⟨hmem, hkey⟩ := mem_children.mp hmem
    obtain ⟨hhash, hstored⟩ := hk.getElem?_iff.mp hget
    obtain rfl := hk.eq_of_getHash hmem hstored (heq.trans hhash.symm)
    exact hne (((hk.byPrev _ _).mp hmem).1.symm.trans hkey)

/-- Taking out the blocks that wait for a block. -/
lemma resolve (hashPrev : UInt256) : Kept hash9 (orphans.resolve hash9 hashPrev) := by
  refine ⟨?_, ?_, ?_⟩
  · intro h block hget
    exact hk.getHash h block ((hk.getElem?_resolve hashPrev).mp hget).1
  · rw [byPrev_resolve]
    exact hk.nodup.filter _
  · intro k block
    rw [byPrev_resolve, List.mem_filter, hk.byPrev, hk.getElem?_resolve, bne_iff_ne]
    constructor
    · rintro ⟨⟨rfl, hget⟩, hne⟩
      exact ⟨rfl, hget, hne⟩
    · rintro ⟨rfl, hget, hne⟩
      exact ⟨⟨rfl, hget⟩, hne⟩

end

end Kept

/-! ## The stakes -/

/-- Some blocks have been taken out of a store, and their stakes. -/
structure Taken (orphans orphans' : OrphanBlocks) : Prop where
  kept : ∀ (h : UInt256) (block : CBlock), orphans'.mapOrphanBlocks[h]? = some block →
    orphans.mapOrphanBlocks[h]? = some block
  stakes : ∀ stake, stake ∈ orphans'.setStakeSeenOrphan ↔ stake ∈ orphans.setStakeSeenOrphan ∧
    ∀ (h : UInt256) (block : CBlock), orphans.mapOrphanBlocks[h]? = some block →
      orphans'.mapOrphanBlocks[h]? = none → block.getProofOfStake ≠ stake

namespace Taken

variable {orphans' orphans'' : OrphanBlocks}

lemma refl (orphans : OrphanBlocks) : Taken orphans orphans := by
  refine ⟨fun _ _ hget => hget, fun stake => ⟨fun hmem => ⟨hmem, ?_⟩, fun h => h.1⟩⟩
  intro h block hget hnone
  rw [hget] at hnone
  cases hnone

lemma trans (h : Taken orphans orphans') (h' : Taken orphans' orphans'') :
    Taken orphans orphans'' := by
  refine ⟨fun k block hget => h.kept k block (h'.kept k block hget), fun stake => ?_⟩
  rw [h'.stakes, h.stakes]
  constructor
  · rintro ⟨⟨hmem, hfirst⟩, hsecond⟩
    refine ⟨hmem, fun k block hget hnone => ?_⟩
    cases hmid : orphans'.mapOrphanBlocks[k]? with
    | none => exact hfirst k block hget hmid
    | some block' =>
      have heq := h.kept k block' hmid
      rw [hget] at heq
      cases heq
      exact hsecond k block hmid hnone
  · rintro ⟨hmem, hall⟩
    refine ⟨⟨hmem, fun k block hget hnone => hall k block hget ?_⟩, fun k block hget hnone =>
      hall k block (h.kept k block hget) hnone⟩
    cases hlast : orphans''.mapOrphanBlocks[k]? with
    | none => rfl
    | some block' =>
      have hmid := h'.kept k block' hlast
      rw [hnone] at hmid
      cases hmid

end Taken

/-- Taking out the blocks that wait for a block. -/
lemma Kept.taken_resolve (hk : Kept hash9 orphans) (hashPrev : UInt256) :
    Taken orphans (orphans.resolve hash9 hashPrev) := by
  refine ⟨fun h block hget => ((hk.getElem?_resolve hashPrev).mp hget).1, fun stake => ?_⟩
  have hstakes : stake ∈ (orphans.resolve hash9 hashPrev).setStakeSeenOrphan ↔ _ :=
    mem_takeAll_stakes (orphans.children hashPrev) stake
  rw [hstakes]
  refine and_congr_right fun _ => ?_
  constructor
  · intro hitems h block hget hnone heq
    obtain ⟨-, hmem⟩ := hk.getElem?_iff.mp hget
    refine hitems _ (mem_children.mpr ⟨hmem, ?_⟩) heq
    by_contra hne
    rw [(hk.getElem?_resolve hashPrev).mpr ⟨hget, hne⟩] at hnone
    cases hnone
  · rintro hall ⟨k, block⟩ hmem
    obtain ⟨hmem, hkey⟩ := mem_children.mp hmem
    obtain ⟨rfl, hget⟩ := (hk.byPrev k block).mp hmem
    refine hall _ block hget ?_
    cases hlast : (orphans.resolve hash9 hashPrev).mapOrphanBlocks[block.getHash hash9]? with
    | none => rfl
    | some block' =>
      obtain ⟨hget', hne⟩ := (hk.getElem?_resolve hashPrev).mp hlast
      rw [hget] at hget'
      cases hget'
      exact absurd hkey hne

end OrphanBlocks

/-! ## The queue of work -/

section Resolve

variable {hash hash9 : Bytes → UInt256} {node : BlockNode}

open OrphanBlocks

/-- A call of `AcceptBlock` ends without an exception, and it does not return false after it has
added the index of a block for which orphans wait. -/
def Settles (hash hash9 : Bytes → UInt256) (node : BlockNode) (block : CBlock) (s : BlockStore) :
    Prop :=
  ∃ accepted, (block.acceptBlock hash hash9 (node.accept s.tree block) s.tree).2 = .ok accepted ∧
    (accepted = false → block.getHash hash9 ∉ s.tree.mapBlockIndex →
      block.getHash hash9 ∈
        (block.acceptBlock hash hash9 (node.accept s.tree block) s.tree).1.mapBlockIndex →
      s.orphans.hasChild (block.getHash hash9) = false)

/-- The calls of `AcceptBlock` on the orphans that wait for a block. -/
def TurnSettles (hash hash9 : Bytes → UInt256) (node : BlockNode) (s : BlockStore)
    (hashPrev : UInt256) : Prop :=
  FoldAlong (tryOrphanBlock hash hash9 node) (fun s mi => Settles hash hash9 node mi.2 s.1)
    (s.orphans.children hashPrev) (s, [])

/-- Every stored block whose parent is known waits for a block of some list. -/
def Pending (s : BlockStore) (queue : List UInt256) : Prop :=
  ∀ mi ∈ s.orphans.mapOrphanBlocksByPrev, mi.1 ∈ s.tree.mapBlockIndex → mi.1 ∈ queue

/-- The blocks of the tree after a call of `AcceptBlock`. -/
lemma mem_acceptBlock {node : AcceptNode} {block : CBlock} {tree : BlockTree} {k : UInt256}
    (hk : k ∈ (block.acceptBlock hash hash9 node tree).1.mapBlockIndex) :
    k ∈ tree.mapBlockIndex ∨ block.getHash hash9 = k ∧ k ∉ tree.mapBlockIndex := by
  rcases block.acceptBlock_cases node tree hash hash9 with
    ⟨heq, -⟩ | ⟨_, _, _, hnew, -, -, hadded⟩
  · rw [heq] at hk
    exact Or.inl hk
  · rcases hadded.mem_iff.mp hk with rfl | hold
    · exact Or.inr ⟨rfl, hnew⟩
    · exact Or.inl hold

variable {s s' : BlockStore}

/-- A turn of the loop over the orphans of a block. -/
lemma tryOrphanBlock_eq_none {new new' : List UInt256} {mi : UInt256 × CBlock}
    (hturn : tryOrphanBlock hash hash9 node (s, new) mi = ((s', new'), none)) :
    ∃ accepted,
      (mi.2.acceptBlock hash hash9 (node.accept s.tree mi.2) s.tree).2 = .ok accepted ∧
      s' = { tree := (mi.2.acceptBlock hash hash9 (node.accept s.tree mi.2) s.tree).1
             orphans := s.orphans.take hash9 mi.2 } ∧
      new' = if accepted then new ++ [mi.2.getHash hash9] else new := by
  unfold tryOrphanBlock at hturn
  dsimp only at hturn
  rcases haccept : mi.2.acceptBlock hash hash9 (node.accept s.tree mi.2) s.tree with
    ⟨tree, e | accepted⟩
  · rw [haccept] at hturn
    cases hturn
  · rw [haccept] at hturn
    cases hturn
    exact ⟨accepted, rfl, rfl, rfl⟩

variable {hashPrev : UInt256}

/-- A turn of the queue takes out the blocks that wait for a block. -/
lemma orphans_resolveBlocks {new : List UInt256}
    (hturn : resolveBlocks hash hash9 node s hashPrev = (s', new, none)) :
    s'.orphans = s.orphans.resolve hash9 hashPrev := by
  unfold resolveBlocks at hturn
  rcases hfold : foldThrow (tryOrphanBlock hash hash9 node) (s.orphans.children hashPrev) (s, [])
    with ⟨⟨s₁, new₁⟩, _ | e⟩
  · rw [hfold] at hturn
    cases hturn
    have htaken := foldThrow_spec (fun (p : BlockStore × List UInt256) items =>
        takeAll hash9 items p.1.orphans = takeAll hash9 (s.orphans.children hashPrev) s.orphans)
      (P := fun _ _ => True) ?_ rfl (foldAlong_of_forall (fun _ _ => trivial) _ _) hfold
    · exact congrArg (fun orphans : OrphanBlocks => orphans.eraseChildren hashPrev) htaken
    · rintro ⟨p, q⟩ mi items ⟨p', q'⟩ hmotive - hstep
      obtain ⟨-, -, rfl, -⟩ := tryOrphanBlock_eq_none hstep
      exact hmotive
  · rw [hfold] at hturn
    cases hturn

/-- A turn of the queue keeps that no stored block waits for a known one that is not in the
queue. -/
lemma pending_resolveBlocks {queue new : List UInt256}
    (hs : Pending s (hashPrev :: queue)) (hsettles : TurnSettles hash hash9 node s hashPrev)
    (hturn : resolveBlocks hash hash9 node s hashPrev = (s', new, none)) :
    Pending s' (queue ++ new) := by
  unfold resolveBlocks at hturn
  rcases hfold : foldThrow (tryOrphanBlock hash hash9 node) (s.orphans.children hashPrev) (s, [])
    with ⟨⟨s₁, new₁⟩, _ | e⟩
  · rw [hfold] at hturn
    cases hturn
    have hpending : Pending s₁ (hashPrev :: queue ++ new) :=
      foldThrow_spec (fun (p : BlockStore × List UInt256) _ =>
        Pending p.1 (hashPrev :: queue ++ p.2)) ?_ (by rw [List.append_nil]; exact hs) hsettles hfold
    · intro mi hmem hknown
      obtain ⟨hmem, hne⟩ := List.mem_filter.mp hmem
      have hqueue := hpending mi hmem hknown
      rw [List.cons_append, List.mem_cons] at hqueue
      rcases hqueue with heq | hqueue
      · rw [heq] at hne
        simp at hne
      · exact hqueue
    · rintro ⟨p, q⟩ mi items ⟨p', q'⟩ hmotive ⟨accepted, haccepted, hchild⟩ hstep
      obtain ⟨accepted', haccepted', rfl, rfl⟩ := tryOrphanBlock_eq_none hstep
      rw [haccepted] at haccepted'
      cases haccepted'
      intro mi' hmem hknown
      rcases mem_acceptBlock hknown with hold | ⟨heq, hnew⟩
      · have hqueue := hmotive mi' hmem hold
        split_ifs
        · rw [← List.append_assoc]
          exact List.mem_append_left _ hqueue
        · exact hqueue
      · cases accepted with
        | true =>
          rw [if_pos rfl, ← heq, ← List.append_assoc]
          exact List.mem_append_right _ (List.mem_singleton.mpr rfl)
        | false =>
          have hnone := hchild rfl (heq ▸ hnew) (heq ▸ hknown)
          have hsome : p.orphans.hasChild (mi.2.getHash hash9) = true :=
            hasChild_eq_true.mpr ⟨mi'.2, heq ▸ hmem⟩
          rw [hnone] at hsome
          cases hsome
  · rw [hfold] at hturn
    cases hturn

variable {s : BlockStore}

/-- A turn of the queue lowers the number of the stored blocks by that of its new items. -/
lemma length_resolveBlocks (hreturn : (resolveBlocks hash hash9 node s hashPrev).2.2 = none) :
    (resolveBlocks hash hash9 node s hashPrev).1.orphans.mapOrphanBlocksByPrev.length +
      (resolveBlocks hash hash9 node s hashPrev).2.1.length ≤
        s.orphans.mapOrphanBlocksByPrev.length := by
  rcases hturn : resolveBlocks hash hash9 node s hashPrev with ⟨s', new, _ | e⟩
  · have horphans := orphans_resolveBlocks hturn
    unfold resolveBlocks at hturn
    rcases hfold : foldThrow (tryOrphanBlock hash hash9 node) (s.orphans.children hashPrev) (s, [])
      with ⟨⟨s₁, new₁⟩, _ | e⟩
    · rw [hfold] at hturn
      cases hturn
      have hnew : new.length + ([] : List (UInt256 × CBlock)).length ≤
          (s.orphans.children hashPrev).length :=
        foldThrow_spec (fun (p : BlockStore × List UInt256) items =>
            p.2.length + items.length ≤ (s.orphans.children hashPrev).length)
          (P := fun _ _ => True) ?_ (by simp) (foldAlong_of_forall (fun _ _ => trivial) _ _) hfold
      · -- the entries are those of the taken blocks and those that stay
        have hpart : s.orphans.mapOrphanBlocksByPrev.length =
            (s.orphans.children hashPrev).length +
              (s.orphans.mapOrphanBlocksByPrev.filter fun mi => mi.1 != hashPrev).length :=
          List.length_eq_length_filter_add _
        rw [horphans, byPrev_resolve]
        dsimp only [List.length_nil] at hnew ⊢
        omega
      · rintro ⟨p, q⟩ mi items ⟨p', q'⟩ hmotive - hstep
        obtain ⟨accepted, -, -, rfl⟩ := tryOrphanBlock_eq_none hstep
        rw [List.length_cons] at hmotive
        dsimp only at hmotive ⊢
        split_ifs
        · rw [List.length_append, List.length_singleton]
          omega
        · omega
    · rw [hfold] at hturn
      cases hturn
  · rw [hturn] at hreturn
    cases hreturn

/-! ## A call -/

/-- The call of `AcceptBlock` on the block itself, and those on the orphans, settle, and no orphan
that stays stored has the stake of one that is taken out. -/
structure CallSettles (hash hash9 : Bytes → UInt256) (node : BlockNode) (pblock : CBlock)
    (s : BlockStore) : Prop where
  own : (pblock.acceptBlock hash hash9 (node.accept s.tree pblock) s.tree).2 ≠ .ok true →
    pblock.getHash hash9 ∈
      (pblock.acceptBlock hash hash9 (node.accept s.tree pblock) s.tree).1.mapBlockIndex →
    s.orphans.hasChild (pblock.getHash hash9) = false
  queue : (pblock.acceptBlock hash hash9 (node.accept s.tree pblock) s.tree).2 = .ok true →
    Along (resolveBlocks hash hash9 node) (TurnSettles hash hash9 node)
      (s.orphans.mapOrphanBlocksByPrev.length + 1) [pblock.getHash hash9]
      { s with tree := (pblock.acceptBlock hash hash9 (node.accept s.tree pblock) s.tree).1 }
  stakes : ∀ (h h' : UInt256) (block block' : CBlock),
    s.orphans.mapOrphanBlocks[h]? = some block →
    (placeBlock hash hash9 node pblock s).store.orphans.mapOrphanBlocks[h]? = none →
    (placeBlock hash hash9 node pblock s).store.orphans.mapOrphanBlocks[h']? = some block' →
    block'.isProofOfStake = true → block.getProofOfStake ≠ block'.getProofOfStake

/-- The calls of `AcceptBlock` that a call of `ProcessBlock` makes settle, if it makes any. -/
def OrderlyCall (hash hash9 : Bytes → UInt256) (c : BlockCall) (s : BlockStore) : Prop :=
  ∀ s₁, checkStage hash hash9 c.node c.pblock s = .ok s₁ →
    c.pblock.hashPrevBlock ∈ s.tree.mapBlockIndex →
    CallSettles hash hash9 c.node c.pblock s₁

/-- A call on a block for which no orphan waits settles. -/
lemma callSettles_of_hasChild {pblock : CBlock}
    (hchild : s.orphans.hasChild (pblock.getHash hash9) = false) :
    CallSettles hash hash9 node pblock s := by
  have hchildren : s.orphans.children (pblock.getHash hash9) = [] := by
    rw [children, List.filter_eq_nil_iff]
    intro mi hmem heq
    rw [hasChild, List.any_eq_false] at hchild
    exact hchild mi hmem heq
  -- the queue ends after its first turn
  have hturn : ∀ tree, resolveBlocks hash hash9 node { s with tree } (pblock.getHash hash9) =
      (⟨tree, s.orphans.eraseChildren (pblock.getHash hash9)⟩, [], none) := by
    intro tree
    unfold resolveBlocks
    dsimp only
    rw [hchildren]
    rfl
  have hrest : ∀ (n : ℕ) (s : BlockStore),
      run (resolveBlocks hash hash9 node) n [] s = (s, [], none) := by
    intro n s
    cases n <;> rfl
  refine ⟨fun _ _ => hchild, fun _ => ⟨?_, ?_⟩, ?_⟩
  · unfold TurnSettles
    dsimp only
    rw [hchildren]
    trivial
  · rw [hturn]
    cases s.orphans.mapOrphanBlocksByPrev.length <;> trivial
  · intro h h' block block' hstored hgone
    have hsame : (placeBlock hash hash9 node pblock s).store.orphans.mapOrphanBlocks[h]? =
        some block := by
      unfold placeBlock
      dsimp only
      split_ifs
      · exact hstored
      · exact getElem?_store_of_some hstored _ _
      · rcases pblock.acceptBlock hash hash9 (node.accept s.tree pblock) s.tree with
          ⟨tree, e | _ | _⟩
        · exact hstored
        · exact hstored
        · dsimp only
          rw [run, hturn]
          dsimp only
          rw [List.append_nil, hrest]
          exact hstored
    rw [hsame] at hgone
    cases hgone

/-- A turn of the queue that settles does not throw. -/
lemma resolveBlocks_eq_none (hsettles : TurnSettles hash hash9 node s hashPrev) :
    (resolveBlocks hash hash9 node s hashPrev).2.2 = none := by
  have hfold : (foldThrow (tryOrphanBlock hash hash9 node) (s.orphans.children hashPrev)
      (s, [])).2 = none := by
    refine foldThrow_eq_none (fun p mi => ?_) hsettles
    rintro ⟨accepted, haccepted, -⟩
    unfold tryOrphanBlock
    rcases haccept : mi.2.acceptBlock hash hash9 (node.accept p.1.tree mi.2) p.1.tree with
      ⟨tree, e | accepted'⟩
    · rw [haccept] at haccepted
      cases haccepted
    · rfl
  unfold resolveBlocks
  rcases hresult : foldThrow (tryOrphanBlock hash hash9 node) (s.orphans.children hashPrev)
    (s, []) with ⟨⟨s₁, new₁⟩, _ | e⟩
  · rfl
  · rw [hresult] at hfold
    cases hfold

/-- The invariant of the runs. -/
structure BlockStore.Ordered (hash9 : Bytes → UInt256) (s : BlockStore) : Prop where
  kept : s.orphans.Kept hash9
  stakes : ∀ stake, stake ∈ s.orphans.setStakeSeenOrphan ↔ ∃ (h : UInt256) (block : CBlock),
    s.orphans.mapOrphanBlocks[h]? = some block ∧ block.isProofOfStake = true ∧
      block.getProofOfStake = stake
  pending : Pending s []

/-- The queue takes out what waits for a known block. -/
lemma run_resolveBlocks {left : List UInt256} {h : UInt256}
    (hk : s.orphans.Kept hash9) (hpending : Pending s [h])
    (halong : Along (resolveBlocks hash hash9 node) (TurnSettles hash hash9 node)
      (s.orphans.mapOrphanBlocksByPrev.length + 1) [h] s)
    (hrun : run (resolveBlocks hash hash9 node) (s.orphans.mapOrphanBlocksByPrev.length + 1) [h] s =
      (s', left, none)) :
    s'.orphans.Kept hash9 ∧ Taken s.orphans s'.orphans ∧ Pending s' [] := by
  have hspec := run_spec (fun (s' : BlockStore) queue =>
      s'.orphans.Kept hash9 ∧ Taken s.orphans s'.orphans ∧ Pending s' queue)
    ?_ ⟨hk, .refl _, hpending⟩ halong hrun
  · have hdone : (run (resolveBlocks hash hash9 node)
        (s.orphans.mapOrphanBlocksByPrev.length + 1) [h] s).2.1 = [] := by
      refine run_done (fun _ => True) (fun s : BlockStore =>
        s.orphans.mapOrphanBlocksByPrev.length)
        (fun _ _ _ hreturn => ⟨trivial, length_resolveBlocks hreturn⟩) trivial ?_ (by rw [hrun])
      rw [List.length_singleton]
      omega
    rw [hrun] at hdone
    dsimp only at hdone
    subst hdone
    exact hspec
  · rintro p hashPrev queue p' new ⟨hkept, htaken, hqueue⟩ hsettles hturn
    have horphans := orphans_resolveBlocks hturn
    refine ⟨?_, ?_, pending_resolveBlocks hqueue hsettles hturn⟩
    · rw [horphans]
      exact hkept.resolve hashPrev
    · rw [horphans]
      exact htaken.trans (hkept.taken_resolve hashPrev)

namespace BlockStore.Ordered

variable {s : BlockStore} {pblock : CBlock}

/-- Storing a block whose parent is not known. -/
lemma storeOrphan (hs : s.Ordered hash9) (hnew : pblock.getHash hash9 ∉ s.orphans.mapOrphanBlocks)
    (hprev : pblock.hashPrevBlock ∉ s.tree.mapBlockIndex) :
    Ordered hash9 { s with orphans := s.orphans.store (pblock.getHash hash9) pblock } := by
  have hkept := hs.kept.store hnew
  refine ⟨hkept, fun stake => ?_, fun mi hmem hknown => ?_⟩
  · have hget : ∀ (h : UInt256) (block : CBlock),
        (s.orphans.store (pblock.getHash hash9) pblock).mapOrphanBlocks[h]? = some block ↔
          s.orphans.mapOrphanBlocks[h]? = some block ∨
            pblock.getHash hash9 = h ∧ pblock = block := fun h block =>
      MapLoop.getElem?_insertIfNew_eq_some hnew
    have hset : stake ∈ (s.orphans.store (pblock.getHash hash9) pblock).setStakeSeenOrphan ↔
        pblock.isProofOfStake = true ∧ pblock.getProofOfStake = stake ∨
          stake ∈ s.orphans.setStakeSeenOrphan := by
      rw [OrphanBlocks.store]
      dsimp only
      split_ifs with hpos
      · rw [Finset.mem_insert, eq_comm]
        exact or_congr_left ⟨fun heq => ⟨hpos, heq⟩, fun h => h.2⟩
      · exact ⟨Or.inr, fun h => h.resolve_left fun h => hpos h.1⟩
    dsimp only
    rw [hset, hs.stakes]
    constructor
    · rintro (⟨hpos, heq⟩ | ⟨h, block, hstored, hpos, heq⟩)
      · exact ⟨_, pblock, (hget _ _).mpr (Or.inr ⟨rfl, rfl⟩), hpos, heq⟩
      · exact ⟨h, block, (hget _ _).mpr (Or.inl hstored), hpos, heq⟩
    · rintro ⟨h, block, hstored, hpos, heq⟩
      rcases (hget h block).mp hstored with hold | ⟨-, rfl⟩
      · exact Or.inr ⟨h, block, hold, hpos, heq⟩
      · exact Or.inl ⟨hpos, heq⟩
  · rcases List.mem_append.mp hmem with hold | hlast
    · exact hs.pending mi hold hknown
    · rw [List.mem_singleton.mp hlast] at hknown
      exact absurd hknown hprev

/-- The tree after a call of `AcceptBlock` on a block. -/
lemma pending_accept (hs : s.Ordered hash9) (hash : Bytes → UInt256) (node : BlockNode)
    (pblock : CBlock) :
    Pending { s with tree :=
      (pblock.acceptBlock hash hash9 (node.accept s.tree pblock) s.tree).1 }
      [pblock.getHash hash9] := by
  intro mi hmem hknown
  rcases mem_acceptBlock hknown with hold | ⟨heq, -⟩
  · exact absurd (hs.pending mi hmem hold) List.not_mem_nil
  · rw [heq]
    exact List.mem_singleton.mpr rfl

/-- The part of `ProcessBlock` after the check of the stake. -/
lemma placeBlock (hs : s.Ordered hash9) (hnew : pblock.getHash hash9 ∉ s.orphans.mapOrphanBlocks)
    (hsettles : pblock.hashPrevBlock ∈ s.tree.mapBlockIndex →
      CallSettles hash hash9 node pblock s) :
    (placeBlock hash hash9 node pblock s).store.Ordered hash9 := by
  by_cases hprev : pblock.hashPrevBlock ∈ s.tree.mapBlockIndex
  · obtain ⟨hown, hqueue, hstakes⟩ := hsettles hprev
    have hpending := hs.pending_accept hash node pblock
    unfold HyperStake.placeBlock at hstakes ⊢
    dsimp only at hstakes ⊢
    rw [Std.ExtTreeMap.contains_iff_mem.mpr hprev] at hstakes ⊢
    rw [if_neg (by decide)] at hstakes ⊢
    rcases haccept : pblock.acceptBlock hash hash9 (node.accept s.tree pblock) s.tree with
      ⟨tree, result⟩
    rw [haccept] at hown hqueue hpending hstakes
    -- the block itself has not been accepted
    have hfails : result ≠ .ok true → Ordered hash9 { s with tree } := by
      intro hne
      refine ⟨hs.kept, hs.stakes, fun mi hmem hknown => ?_⟩
      have heq := List.mem_singleton.mp (hpending mi hmem hknown)
      have hchild := hown hne (heq ▸ hknown)
      rw [hasChild_eq_true.mpr ⟨mi.2, heq ▸ hmem⟩] at hchild
      cases hchild
    rcases result with e | _ | _
    · exact hfails nofun
    · exact hfails nofun
    · have halong := hqueue rfl
      have hnone := run_eq_none (fun s hashPrev => resolveBlocks_eq_none) halong
      dsimp only at hstakes ⊢
      rcases hrun : run (resolveBlocks hash hash9 node)
        (s.orphans.mapOrphanBlocksByPrev.length + 1) [pblock.getHash hash9] { s with tree } with
        ⟨s', left, _ | e⟩
      · rw [hrun] at hstakes
        obtain ⟨hkept, htaken, hempty⟩ :=
          run_resolveBlocks (s := { s with tree }) hs.kept hpending halong hrun
        refine ⟨hkept, fun stake => ?_, hempty⟩
        dsimp only at hstakes htaken ⊢
        rw [htaken.stakes, hs.stakes]
        constructor
        · rintro ⟨⟨h, block, hstored, hpos, heq⟩, hall⟩
          cases hlast : s'.orphans.mapOrphanBlocks[h]? with
          | none => exact absurd heq (hall h block hstored hlast)
          | some block' =>
            have hsame := htaken.kept h block' hlast
            rw [hstored] at hsame
            cases hsame
            exact ⟨h, block, hlast, hpos, heq⟩
        · rintro ⟨h, block, hlast, hpos, heq⟩
          refine ⟨⟨h, block, htaken.kept h block hlast, hpos, heq⟩, ?_⟩
          intro h' block' hstored hgone
          rw [← heq]
          exact hstakes h' h block' block hstored hgone hlast hpos
      · rw [hrun] at hnone
        cases hnone
  · unfold HyperStake.placeBlock
    dsimp only
    rw [MapLoop.contains_eq_false_iff.mpr hprev, if_pos (by decide)]
    split_ifs
    · exact hs
    · exact hs.storeOrphan hnew hprev

/-- A call of `ProcessBlock`. -/
lemma processBlock (hs : s.Ordered hash9) {c : BlockCall}
    (horderly : OrderlyCall hash hash9 c s) : (c.outcome hash hash9 s).store.Ordered hash9 := by
  unfold BlockCall.outcome HyperStake.processBlock
  cases hcheck : checkStage hash hash9 c.node c.pblock s with
  | error outcome =>
    rcases (checkStage_eq_error hcheck).2 with hstore | ⟨-, -, -, -, -, hstore⟩
    · dsimp only
      rw [hstore]
      exact hs
    · dsimp only
      rw [hstore]
      exact ⟨hs.kept, hs.stakes, hs.pending⟩
  | ok s₁ =>
    obtain ⟨-, hnew, -, horphans, hchecked⟩ := checkStage_eq_ok hcheck
    have hs₁ : s₁.Ordered hash9 := by
      refine ⟨horphans ▸ hs.kept, horphans ▸ hs.stakes, ?_⟩
      unfold Pending
      rw [horphans, hchecked.mapBlockIndex]
      exact hs.pending
    refine hs₁.placeBlock (horphans ▸ hnew) fun hprev => horderly s₁ hcheck ?_
    rw [← hchecked.mapBlockIndex]
    exact hprev

end BlockStore.Ordered

end Resolve

/-- In every run whose calls settle, the books are in order. -/
lemma BlockRun.ordered {hash hash9 : Bytes → UInt256} {fTestNet : Bool} {genesis : CBlock}
    {calls : List BlockCall} {s : BlockStore}
    (hrun : BlockRun hash hash9 fTestNet genesis (OrderlyCall hash hash9) calls s) :
    s.Ordered hash9 := by
  induction hrun with
  | start node nFile nBlockPos _ _ =>
    refine ⟨.empty, fun stake => ?_, nofun⟩
    simp
  | call c _ _ horderly ih => exact ih.processBlock horderly

/-- In every run in which every block for which orphans wait is accepted once its index is added,
and no orphan that stays stored has the stake of one that is taken out, the books of the orphans are
in order after every call. -/
theorem BlockRun.orphanBlocksBooked {hash hash9 : Bytes → UInt256} {fTestNet : Bool}
    {genesis : CBlock} {calls : List BlockCall} {s : BlockStore}
    (hrun : BlockRun hash hash9 fTestNet genesis (OrderlyCall hash hash9) calls s) :
    s.orphans.Booked s.tree.mapBlockIndex := by
  obtain ⟨hkept, hstakes, hpending⟩ := hrun.ordered
  refine ⟨hkept.nodup, fun k block => ?_, hstakes, fun h block hget hknown => ?_⟩
  · rw [hkept.byPrev]
    refine and_congr_right fun _ => ⟨fun hget => ⟨_, hget⟩, ?_⟩
    rintro ⟨h, hget⟩
    rw [hkept.getHash h block hget]
    exact hget
  · obtain ⟨-, hmem⟩ := hkept.getElem?_iff.mp hget
    exact List.not_mem_nil (hpending _ hmem hknown)

/-! ## Calls on a test network -/

/-- A hash of headers for examples: the nonce. -/
def nonceHash (header : Bytes) : UInt256 :=
  BitVec.ofNat 256 (LittleEndian.leValue (header.drop 76))

/-- The coinbase of a test block at a height. -/
def testCoinBase (nTime : UInt32) (nHeight : UInt8) : CTransaction :=
  { nTime, vin := [{ scriptSig := [0x50 + nHeight, 0x00] }], vout := [{ nValue := 0 }] }

/-- A coin stake of an output. -/
def testCoinStake (nTime : UInt32) (prevout : COutPoint) : CTransaction :=
  { nTime, vin := [{ prevout }]
    vout := [{ nValue := 0 }, { nValue := 10 * COIN, scriptPubKey := [0x51] }] }

/-- The genesis block of the test network, with the nonce 1. -/
def testGenesis : CBlock :=
  { (genesisLink true).block with nNonce := 1 }

/-- A proof-of-work block on the test network. -/
def testWorkBlock (hashPrevBlock : UInt256) (nNonce nTime : UInt32) (nHeight : UInt8) : CBlock :=
  { hashPrevBlock, nTime, nNonce, vtx := [testCoinBase nTime nHeight] }

/-- A proof-of-stake block on the test network, for a target. -/
def testStakeBlock (hashPrevBlock : UInt256) (nNonce nTime nBits : UInt32) (nHeight : UInt8) :
    CBlock :=
  { hashPrevBlock, nTime, nNonce, nBits
    vtx := [testCoinBase nTime nHeight, testCoinStake nTime { hash := 7, n := 0 }] }

/-- A node on the test network that accepts every block. -/
def testAccept : AcceptNode where
  env := { sampleEnv with fTestNet := true, getAdjustedTime := 1500000000 }
  writeToDisk _ := some (1, 300)
  txnBegin := true
  txnCommit := true
  moreTrust _ := false
  setBestChain _ := (fun _ => {}, .ok true)

/-- A node on the test network for which every stake is good. -/
def testBlockNode : BlockNode where
  env := testAccept.env
  checkProofOfStake _ _ := some 5
  accept _ _ := testAccept

/-- A call on the test network. -/
def testCall (pblock : CBlock) : BlockCall := { node := testBlockNode, pblock }

/-- The store with the genesis block. -/
def testStart : BlockStore :=
  { tree := (testGenesis.addToTree sampleHash nonceHash testAccept 1 8 {}).1 }

/-- The store after calls on some blocks, the last one first. -/
def testStore (pblocks : List CBlock) : BlockStore :=
  pblocks.foldr (fun pblock s => ((testCall pblock).outcome sampleHash nonceHash s).store) testStart

lemma blockRun_testStore {admits : BlockCall → BlockStore → Prop} {pblocks : List CBlock}
    (hadmits : ∀ pblock earlier, pblock :: earlier <:+ pblocks →
      admits (testCall pblock) (testStore earlier)) :
    BlockRun sampleHash nonceHash true testGenesis admits (pblocks.map testCall)
      (testStore pblocks) := by
  induction pblocks with
  | nil => exact .start testAccept 1 8 rfl rfl
  | cons pblock pblocks ih =>
    refine .call (testCall pblock) (ih fun c' earlier hsuffix => ?_) (fun _ _ => rfl)
      (hadmits pblock pblocks (List.suffix_refl _))
    exact hadmits c' earlier (hsuffix.trans (List.suffix_cons _ _))

/-- An orphan of the block with the nonce 9. -/
def testOrphan : CBlock := testStakeBlock 9 3 1424304835 0 2

/-- The first block, for which the orphan does not wait. -/
def testFirst : CBlock := testWorkBlock 1 2 1424304830 1

lemma orderlyCall_testFirst :
    OrderlyCall sampleHash nonceHash (testCall testFirst) (testStore [testOrphan]) := by
  intro s₁ hcheck _
  apply callSettles_of_hasChild
  rw [(checkStage_eq_ok hcheck).2.2.2.1]
  decide +kernel

/-- The books are in order after a call on the orphan and one on the first block. -/
theorem orphanBlocksBooked_testFirst : (testStore [testFirst, testOrphan]).orphans.Booked
    (testStore [testFirst, testOrphan]).tree.mapBlockIndex := by
  have hunknown : testOrphan.hashPrevBlock ∉ testStart.tree.mapBlockIndex := by decide +kernel
  have hrun : BlockRun sampleHash nonceHash true testGenesis (OrderlyCall sampleHash nonceHash)
      ([testFirst, testOrphan].map testCall) (testStore [testFirst, testOrphan]) := by
    refine .call _ (.call _ (.start testAccept 1 8 rfl rfl) (fun _ _ => rfl) ?_) (fun _ _ => rfl)
      orderlyCall_testFirst
    exact fun _ _ hprev => absurd hprev hunknown
  exact hrun.orphanBlocksBooked

/-- Two orphans with one stake, of which the first one has the wrong target and the second one is
stored because an orphan waits for it, and the parent of the first one. -/
def sharedStakeBlocks : List CBlock :=
  [testFirst, testStakeBlock 9 4 1424304835 0 2, testWorkBlock 4 5 1424304835 2,
    testStakeBlock 2 3 1424304835 1 2]

/-- Two blocks with one stake are stored, the second one because an orphan waits for it.  The parent
of the first one comes, and the first one is taken out with its stake: the second one stays. -/
theorem not_booked_sharedStake : ¬ ∀ (hash hash9 : Bytes → UInt256) (fTestNet : Bool)
    (genesis : CBlock) (calls : List BlockCall) (s : BlockStore),
    BlockRun hash hash9 fTestNet genesis (fun _ _ => True) calls s →
      s.orphans.Booked s.tree.mapBlockIndex := by
  intro hbooked
  have hrun : BlockRun sampleHash nonceHash true testGenesis (fun _ _ => True)
      (sharedStakeBlocks.map testCall) (testStore sharedStakeBlocks) :=
    blockRun_testStore fun _ _ _ => trivial
  have hstored : (testStore sharedStakeBlocks).orphans.mapOrphanBlocks[(4 : UInt256)]? =
      some (testStakeBlock 9 4 1424304835 0 2) := by decide +kernel
  have hlost : (testStakeBlock 9 4 1424304835 0 2).getProofOfStake ∉
      (testStore sharedStakeBlocks).orphans.setStakeSeenOrphan := by decide +kernel
  have hpos : (testStakeBlock 9 4 1424304835 0 2).isProofOfStake = true := by decide
  -- the store is not evaluated any further
  generalize testStore sharedStakeBlocks = s at hrun hstored hlost
  apply hlost
  rw [(hbooked sampleHash nonceHash true testGenesis _ s hrun).stakes]
  exact ⟨4, testStakeBlock 9 4 1424304835 0 2, hstored, hpos, rfl⟩

end HyperStake
