import HyperStake.Chain.ProcessBlock

/-!
# Branches of the block tree

The `pprev` pointers of the indices lead from every block to the genesis block.  What is before a
block does not change when another block is added (`Rooted.past_added`).
-/

namespace HyperStake

open LinkWalk

namespace BlockTree

variable {tree tree' : BlockTree} {h k : UInt256} {p pindexNew : CBlockIndex}

/-- Every index is found under its hash, every parent is the null pointer or known, and every walk
along the parents ends. -/
structure Rooted (tree : BlockTree) : Prop where
  phashBlock : ∀ (h : UInt256) (p : CBlockIndex), tree.mapBlockIndex[h]? = some p →
    p.phashBlock = h
  closed : ∀ (h : UInt256) (p : CBlockIndex), tree.mapBlockIndex[h]? = some p →
    p.pprev = 0 ∨ p.pprev ∈ tree.mapBlockIndex
  walks : ∀ h, h = 0 ∨ h ∈ tree.mapBlockIndex → ∃ l, Walks tree.find CBlockIndex.pprev h l

/-- The indices before a block are those on its walk. -/
lemma past_eq {l : List CBlockIndex} (hwalk : Walks tree.find CBlockIndex.pprev h l) :
    tree.past h = l := by
  apply hwalk.walk_eq_of_subset
  intro j t hfound
  exact Std.ExtTreeMap.mem_keys.mpr (mem_of_find hfound)

lemma past_congr (hmap : tree'.mapBlockIndex = tree.mapBlockIndex) (h : UInt256) :
    tree'.find h = tree.find h ∧ tree'.past h = tree.past h := by
  have hfind : tree'.find = tree.find := by
    funext k
    rw [find, find, hmap]
  exact ⟨congrFun hfind h, by rw [past, past, hmap, hfind]⟩

namespace Rooted

lemma empty : ({} : BlockTree).Rooted := by
  refine ⟨fun h p hget => ?_, fun h p hget => ?_, fun h _ => ⟨[], .stop ?_⟩⟩
  · simp at hget
  · simp at hget
  · exact find_eq_none.mpr (Or.inr (by simp))

section

variable (hroot : tree.Rooted)

include hroot

/-- The walk from a known block. -/
lemma walks_past (hk : k = 0 ∨ k ∈ tree.mapBlockIndex) :
    Walks tree.find CBlockIndex.pprev k (tree.past k) := by
  obtain ⟨l, hwalk⟩ := hroot.walks k hk
  rw [past_eq hwalk]
  exact hwalk

/-- A block is the first one on its walk. -/
lemma past_eq_cons (hfound : tree.find k = some p) : tree.past k = p :: tree.past p.pprev :=
  past_eq (.step hfound (hroot.walks_past (hroot.closed k p (find_eq_some.mp hfound).2)))

/-- What is before a block is found under its hash. -/
lemma find_of_mem_past (hk : k = 0 ∨ k ∈ tree.mapBlockIndex)
    (hp : p ∈ tree.past k) : tree.find p.phashBlock = some p := by
  obtain ⟨j, hfound⟩ := (hroot.walks_past hk).exists_find hp
  rw [hroot.phashBlock j p (find_eq_some.mp hfound).2]
  exact hfound

section

variable (hadded : Added h pindexNew tree tree') (hnew : h ∉ tree.mapBlockIndex)
  (hk : k = 0 ∨ k ∈ tree.mapBlockIndex)

include hadded hnew hk

/-- A walk does not change when a block is added, but for what connecting and disconnecting blocks
change. -/
lemma walks_added :
    ∃ l, Walks tree'.find CBlockIndex.pprev k l ∧
      List.Forall₂ CBlockIndex.SameNode (tree.past k) l := by
  apply (hroot.walks_past hk).rel
  · intro j t hfound
    obtain ⟨hzero, hget⟩ := find_eq_some.mp hfound
    have hne : h ≠ j := by
      rintro rfl
      rw [Std.ExtTreeMap.getElem?_eq_none hnew] at hget
      cases hget
    rcases rel_cases (hadded.indices j) with ⟨hnone, -⟩ | ⟨t', q, ht', hq, hsame⟩
    · rw [if_neg hne, hget] at hnone
      cases hnone
    · rw [if_neg hne, hget] at ht'
      cases ht'
      refine ⟨q, find_eq_some.mpr ⟨hzero, hq⟩, hsame, ?_⟩
      obtain ⟨fields, rfl⟩ := hsame
      rfl
  · intro j hj hnone
    have hzero : j = 0 := by
      refine (find_eq_none.mp hnone).elim id fun hunknown => ?_
      rcases hj with rfl | ⟨t, ht, rfl⟩
      · exact hk.resolve_right hunknown
      · have hfound := hroot.find_of_mem_past hk ht
        exact (hroot.closed _ t (find_eq_some.mp hfound).2).resolve_right hunknown
    exact find_eq_none.mpr (Or.inl hzero)

/-- The indices before a known block, when a block is added. -/
lemma past_added : List.Forall₂ CBlockIndex.SameNode (tree.past k) (tree'.past k) := by
  obtain ⟨l, hwalk, hall⟩ := hroot.walks_added hadded hnew hk
  rw [past_eq hwalk]
  exact hall

end

end

/-- What is found after a block is added: the block itself, or what was found before. -/
lemma find_added (hadded : Added h pindexNew tree tree') {q : CBlockIndex}
    (hfound : tree'.mapBlockIndex[k]? = some q) :
    (h = k ∧ pindexNew.SameNode q) ∨
      ∃ p, tree.mapBlockIndex[k]? = some p ∧ p.SameNode q := by
  rcases rel_cases (hadded.indices k) with ⟨-, hnone⟩ | ⟨p, q', hp, hq', hsame⟩
  · rw [hfound] at hnone
    cases hnone
  · rw [hfound] at hq'
    cases hq'
    split_ifs at hp with heq
    · cases hp
      exact Or.inl ⟨heq, hsame⟩
    · exact Or.inr ⟨p, hp, hsame⟩

/-- Adding a block whose parent is the null pointer or known. -/
lemma added (hroot : tree.Rooted) (hadded : Added h pindexNew tree tree')
    (hnew : h ∉ tree.mapBlockIndex) (hhash : pindexNew.phashBlock = h)
    (hpprev : pindexNew.pprev = 0 ∨ pindexNew.pprev ∈ tree.mapBlockIndex) : tree'.Rooted := by
  refine ⟨fun k q hget => ?_, fun k q hget => ?_, fun k hk => ?_⟩
  · rcases find_added hadded hget with ⟨rfl, fields, rfl⟩ | ⟨p, hp, fields, rfl⟩
    · exact hhash
    · exact hroot.phashBlock k p hp
  · have hold : ∀ p : CBlockIndex, p.SameNode q →
        p.pprev = 0 ∨ p.pprev ∈ tree.mapBlockIndex →
          q.pprev = 0 ∨ q.pprev ∈ tree'.mapBlockIndex := by
      rintro p ⟨fields, rfl⟩ hp
      exact hp.imp_right fun hmem => hadded.mem_iff.mpr (Or.inr hmem)
    rcases find_added hadded hget with ⟨rfl, hsame⟩ | ⟨p, hp, hsame⟩
    · exact hold _ hsame hpprev
    · exact hold p hsame (hroot.closed k p hp)
  · by_cases hzero : k = 0
    · exact ⟨[], .stop (find_eq_none.mpr (Or.inl hzero))⟩
    · have hmem := hk.resolve_left hzero
      rcases hadded.mem_iff.mp hmem with rfl | hold
      · -- the walk from the new block goes on with that of its parent
        obtain ⟨l, hwalk, -⟩ := hroot.walks_added hadded hnew hpprev
        obtain ⟨q, hq⟩ := MapLoop.mem_iff.mp hmem
        refine ⟨q :: l, .step (find_eq_some.mpr ⟨hzero, hq⟩) ?_⟩
        rcases find_added hadded hq with ⟨-, fields, rfl⟩ | ⟨p, hp, -⟩
        · exact hwalk
        · rw [Std.ExtTreeMap.getElem?_eq_none hnew] at hp
          cases hp
      · obtain ⟨l, hwalk, -⟩ := hroot.walks_added hadded hnew (Or.inr hold)
        exact ⟨l, hwalk⟩

end Rooted

end BlockTree

end HyperStake
