import HyperStake.Library.MergedSets
import HyperStake.Wallet.Balance
import Mathlib.Data.Finset.Sort
import Mathlib.Data.List.Lex
import Mathlib.Data.Prod.Lex

/-!
# The groups of addresses

`GetAddressGroupings` puts addresses into one group when the wallet shows that they have one owner:
those of the inputs and of the change of a transaction that the wallet spends from.  The groups are
found in two loops.  The first one collects a set for every such transaction and for every own output.
The second one merges the sets that overlap, through pointers that all the members of a group share.

The groups are the classes of the connected addresses and every set that is allocated is freed once,
whatever the order of the transactions and the addresses of the pointers.  But the first loop looks up
the outputs of all inputs when the first input is the wallet's, and it is undefined what happens when
the wallet does not have the transaction of another one (`getAddressGroupings_spec`).
-/

namespace HyperStake

/-! ## The orders of the sets -/

namespace CTxDestination

/-- What destinations are compared by: the alternative of the variant, and then the value. -/
def key : CTxDestination → ℕ ×ₗ ℕ
  | .CNoDestination => toLex (0, 0)
  | .CKeyID keyID => toLex (1, keyID.toNat)
  | .CScriptID scriptID => toLex (2, scriptID.toNat)

lemma key_injective : Function.Injective key := by
  intro x y h
  have hpair : ofLex x.key = ofLex y.key := congrArg ofLex h
  cases x <;> cases y <;> simp_all [key, BitVec.toNat_inj]

/-- The order of `set<CTxDestination>`. -/
def Le (x y : CTxDestination) : Prop := x.key ≤ y.key

instance decidableLe : DecidableRel Le := fun x y => inferInstanceAs (Decidable (x.key ≤ y.key))

instance isTransLe : IsTrans CTxDestination Le := ⟨fun _ _ _ => le_trans⟩

instance antisymmLe : Std.Antisymm Le := ⟨fun _ _ h h' => key_injective (le_antisymm h h')⟩

instance totalLe : Std.Total Le := ⟨fun x y => le_total x.key y.key⟩

/-- The elements of a `set<CTxDestination>` in their order. -/
def elements (s : Finset CTxDestination) : List CTxDestination := s.sort Le

@[simp] lemma mem_elements {s : Finset CTxDestination} {x : CTxDestination} :
    x ∈ elements s ↔ x ∈ s := Finset.mem_sort Le

lemma elements_injective : Function.Injective elements := by
  intro s t h
  ext x
  rw [← mem_elements, h, mem_elements]

/-- The order of `set<set<CTxDestination>>`. -/
def SetLe (s t : Finset CTxDestination) : Prop := (elements s).map key ≤ (elements t).map key

instance decidableSetLe : DecidableRel SetLe := fun s t =>
  inferInstanceAs (Decidable ((elements s).map key ≤ (elements t).map key))

instance isTransSetLe : IsTrans (Finset CTxDestination) SetLe := ⟨fun _ _ _ => le_trans⟩

instance antisymmSetLe : Std.Antisymm SetLe := ⟨fun _ _ h h' =>
  elements_injective (key_injective.list_map (le_antisymm h h'))⟩

instance totalSetLe : Std.Total SetLe := ⟨fun _ _ => le_total _ _⟩

end CTxDestination

namespace WalletTx

open ExceptLoop MergedSets

/-! ## The sets that are allocated -/

/-- The sets of addresses that are allocated, by their pointers. -/
abbrev Heap := Std.ExtTreeMap ℕ (Finset CTxDestination)

/-- What `new` returns is free to choose among the pointers that are not in use. -/
structure Allocator where
  address : Heap → ℕ
  fresh : ∀ heap, address heap ∉ heap

/-- The pointer after the last one that is in use. -/
def Allocator.next : Allocator where
  address heap := (heap.maxKey?.map (· + 1)).getD 0
  fresh heap := by
    cases hmax : heap.maxKey? with
    | none =>
      rw [Std.ExtTreeMap.maxKey?_eq_none_iff.mp hmax]
      exact Std.ExtTreeMap.not_mem_empty
    | some p =>
      intro hmem
      have hle := (Std.ExtTreeMap.maxKey?_eq_some_iff_mem_and_forall.mp hmax).2 (p + 1) hmem
      exact Nat.not_succ_le_self p (Nat.isLE_compare.mp hle)

/-- The set behind a pointer. -/
def deref (heap : Heap) (p : ℕ) : Except Fault (Finset CTxDestination) :=
  match heap[p]? with
  | none => .error .undefined
  | some s => .ok s

/-- `delete`. -/
def free (heap : Heap) (p : ℕ) : Except Fault Heap :=
  if p ∈ heap then .ok (heap.erase p) else .error .undefined

variable {s : Finset CTxDestination}

lemma deref_eq_ok {heap : Heap} {p : ℕ} (h : heap[p]? = some s) : deref heap p = .ok s := by
  rw [deref, h]

lemma free_eq_ok {heap : Heap} {p : ℕ} (h : p ∈ heap) : free heap p = .ok (heap.erase p) :=
  if_pos h

namespace Books

variable (books : Books)

/-! ## The sets of a transaction -/

/-- `mapWallet[txin.prevout.hash].vout[txin.prevout.n]`: a transaction that the wallet does not have
is inserted without outputs. -/
def outputOf (txin : CTxIn) : Except Fault CTxOut :=
  let prev : CWalletTx := books.wallet.mapWallet[txin.prevout.hash]?.getD {}
  match prev.vout[txin.prevout.n.toNat]? with
  | none => .error .undefined
  | some txout => .ok txout

/-- The first input of a transaction is the wallet's. -/
def isSpender (wtx : CWalletTx) : Bool :=
  match wtx.vin with
  | [] => false
  | txin :: _ => (books.wallet.ownOutput txin.prevout.hash txin.prevout.n.toNat).isSome

/-- The address of an output is put into a set, if it has one. -/
def insertAddress (grouping : Finset CTxDestination) (txout : CTxOut) : Finset CTxDestination :=
  match books.address txout with
  | none => grouping
  | some address => insert address grouping

/-- The set of a transaction that the wallet spends from: the loop that groups all input addresses
with each other, and the loop that groups change with input addresses. -/
def spendGrouping (wtx : CWalletTx) : Except Fault (Finset CTxDestination) :=
  (wtx.vin.foldlM (fun grouping txin =>
    (books.outputOf txin).map (books.insertAddress grouping)) ∅).map fun grouping =>
      wtx.vout.foldl (fun grouping txout =>
        if books.isChange txout then books.insertAddress grouping txout else grouping) grouping

/-- A round of the loop that groups lone addresses by themselves. -/
def insertLone (groupings : Finset (Finset CTxDestination)) (txout : CTxOut) :
    Finset (Finset CTxDestination) :=
  if books.wallet.isMine txout then
    match books.address txout with
    | none => groupings
    | some address => insert {address} groupings
  else groupings

/-- A round of the first loop of `GetAddressGroupings`. -/
def collectGroupings (groupings : Finset (Finset CTxDestination)) (wtx : CWalletTx) :
    Except Fault (Finset (Finset CTxDestination)) :=
  (if books.isSpender wtx then (books.spendGrouping wtx).map (insert · groupings)
    else .ok groupings).map fun groupings => wtx.vout.foldl books.insertLone groupings

end Books

/-! ## The loop that merges the sets -/

/-- The groups that the second loop of `GetAddressGroupings` has formed. -/
structure Groups where
  heap : Heap := ∅
  /-- The pointers to groups of addresses. -/
  uniqueGroupings : Finset ℕ := ∅
  /-- The unique group that contains an address. -/
  setmap : CTxDestination → Option ℕ := fun _ => none

namespace Groups

/-- A round of the loop that merges the groups that are hit. -/
def mergeHit (merged : ℕ) (groups : Groups) (hit : ℕ) : Except Fault Groups :=
  (deref groups.heap hit).bind fun old =>
    (deref groups.heap merged).bind fun group =>
      (free (groups.heap.insert merged (group ∪ old)) hit).map fun heap =>
        { groups with heap, uniqueGroupings := groups.uniqueGroupings.erase hit }

/-- The groups that a set hits. -/
def hits (groups : Groups) (grouping : Finset CTxDestination) : Finset ℕ :=
  ((CTxDestination.elements grouping).filterMap groups.setmap).toFinset

/-- A round of the second loop of `GetAddressGroupings`. -/
def mergeGrouping (alloc : Allocator) (groups : Groups) (grouping : Finset CTxDestination) :
    Except Fault Groups :=
  let hits := groups.hits grouping
  let merged := alloc.address groups.heap
  ((hits.sort).foldlM (mergeHit merged)
    { groups with heap := groups.heap.insert merged grouping }).bind fun groups =>
      (deref groups.heap merged).map fun group =>
        { groups with
          uniqueGroupings := insert merged groups.uniqueGroupings
          setmap := (CTxDestination.elements group).foldl (fun setmap element =>
            Function.update setmap element (some merged)) groups.setmap }

/-- A round of the last loop of `GetAddressGroupings`. -/
def takeGrouping (ret : Finset (Finset CTxDestination) × Heap) (uniqueGrouping : ℕ) :
    Except Fault (Finset (Finset CTxDestination) × Heap) :=
  (deref ret.2 uniqueGrouping).bind fun s =>
    (free ret.2 uniqueGrouping).map fun heap => (insert s ret.1, heap)

end Groups

namespace Books

variable (books : Books)

/-- `GetAddressGroupings`, for an order of the transactions: what it returns, and the sets that are
still allocated then. -/
def groupAddresses (alloc : Allocator) (walletEntries : List (UInt256 × CWalletTx)) :
    Except Fault (Finset (Finset CTxDestination) × Heap) :=
  (walletEntries.foldlM (fun groupings it => books.collectGroupings groupings it.2) ∅).bind
    fun groupings =>
      ((groupings.sort CTxDestination.SetLe).foldlM (Groups.mergeGrouping alloc) {}).bind
        fun groups => groups.uniqueGroupings.sort.foldlM Groups.takeGrouping (∅, groups.heap)

def getAddressGroupings (alloc : Allocator) : Except Fault (Finset (Finset CTxDestination) × Heap) :=
  books.groupAddresses alloc books.wallet.mapWallet.toList

end Books

/-! ## What the second loop forms -/

namespace Groups

/-- The groups are those of a family, and every address points to its group. -/
structure Holds (groups : Groups) (P : Finset (Finset CTxDestination)) : Prop where
  mem_uniqueGroupings : ∀ p : ℕ, p ∈ groups.uniqueGroupings ↔ ∃ s, groups.heap[p]? = some s
  mem_iff : ∀ s, s ∈ P ↔ ∃ p : ℕ, groups.heap[p]? = some s
  setmap_eq : ∀ (x : CTxDestination) (p : ℕ),
    groups.setmap x = some p ↔ ∃ s, groups.heap[p]? = some s ∧ x ∈ s

lemma Holds.empty : Holds {} ∅ where
  mem_uniqueGroupings p := by simp
  mem_iff s := by simp
  setmap_eq x p := by simp

variable {groups : Groups} {P : Finset (Finset CTxDestination)}

/-- The groups that a set hits are those that it meets. -/
lemma Holds.mem_hits (h : groups.Holds P) {grouping : Finset CTxDestination} {p : ℕ} :
    p ∈ groups.hits grouping ↔ ∃ s, groups.heap[p]? = some s ∧ ¬ Disjoint grouping s := by
  simp only [hits, List.mem_toFinset, List.mem_filterMap, CTxDestination.mem_elements, h.setmap_eq,
    Finset.not_disjoint_iff]
  constructor
  · rintro ⟨x, hx, s, hs, hxs⟩
    exact ⟨s, hs, x, hx, hxs⟩
  · rintro ⟨s, hs, x, hx, hxs⟩
    exact ⟨x, hx, s, hs, hxs⟩

/-- Another group is taken into the one that is formed. -/
lemma mergeHit_eq_ok {merged hit : ℕ} {group old : Finset CTxDestination}
    (hmerged : groups.heap[merged]? = some group) (hhit : groups.heap[hit]? = some old) :
    mergeHit merged groups hit = .ok
      { groups with
        heap := (groups.heap.insert merged (group ∪ old)).erase hit
        uniqueGroupings := groups.uniqueGroupings.erase hit } := by
  have hmem : hit ∈ groups.heap.insert merged (group ∪ old) := by
    rw [Std.ExtTreeMap.mem_insert]
    exact .inr (MapLoop.mem_iff.mpr ⟨_, hhit⟩)
  rw [mergeHit, deref_eq_ok hhit, Except.bind, deref_eq_ok hmerged, Except.bind, free_eq_ok hmem]
  rfl

/-- The groups that are hit are taken into the one that is formed, and freed. -/
lemma foldlM_mergeHit {merged : ℕ} {hits : List ℕ} (hnodup : hits.Nodup) (hnew : merged ∉ hits)
    (groups : Groups) {group : Finset CTxDestination}
    (hmerged : groups.heap[merged]? = some group)
    (hhits : ∀ p ∈ hits, ∃ s, groups.heap[p]? = some s) :
    ∃ groups' group', hits.foldlM (mergeHit merged) groups = .ok groups' ∧
      groups'.setmap = groups.setmap ∧
      (∀ p, p ∈ groups'.uniqueGroupings ↔ p ∈ groups.uniqueGroupings ∧ p ∉ hits) ∧
      (∀ p, p ≠ merged → groups'.heap[p]? = if p ∈ hits then none else groups.heap[p]?) ∧
      groups'.heap[merged]? = some group' ∧
      ∀ x, x ∈ group' ↔ x ∈ group ∨ ∃ p ∈ hits, ∃ s, groups.heap[p]? = some s ∧ x ∈ s := by
  induction hits generalizing groups group with
  | nil => exact ⟨groups, group, rfl, rfl, by simp, by simp, hmerged, by simp⟩
  | cons hit hits ih =>
    obtain ⟨hhit, hnodup⟩ := List.nodup_cons.mp hnodup
    obtain ⟨hne, hnew⟩ := not_or.mp (fun hor => hnew (List.mem_cons.mpr hor))
    obtain ⟨old, hold⟩ := hhits hit List.mem_cons_self
    have hget : ∀ p, ((groups.heap.insert merged (group ∪ old)).erase hit)[p]? =
        if p = hit then none else if p = merged then some (group ∪ old) else groups.heap[p]? := by
      intro p
      rw [MapLoop.getElem?_erase_eq, MapLoop.getElem?_insert_eq]
      simp only [eq_comm]
    obtain ⟨groups', group', hfold, hsetmap, hunique, hheap, hgroup, hmem⟩ := ih hnodup hnew
      { groups with
        heap := (groups.heap.insert merged (group ∪ old)).erase hit
        uniqueGroupings := groups.uniqueGroupings.erase hit }
      (by rw [hget, if_neg hne, if_pos rfl]) (fun p hp => by
        have hphit : p ≠ hit := fun heq => hhit (heq ▸ hp)
        have hpmerged : p ≠ merged := fun heq => hnew (heq ▸ hp)
        rw [hget, if_neg hphit, if_neg hpmerged]
        exact hhits p (List.mem_cons_of_mem _ hp))
    refine ⟨groups', group', ?_, hsetmap, fun p => ?_, fun p hp => ?_, hgroup, fun x => ?_⟩
    · rw [List.foldlM_cons, mergeHit_eq_ok hmerged hold]
      exact hfold
    · rw [hunique, Finset.mem_erase, List.mem_cons, not_or, ← and_assoc, and_comm (a := p ≠ hit)]
    · rw [hheap p hp, hget, if_neg hp]
      by_cases hphit : p = hit
      · simp [hphit]
      · simp [hphit]
    · rw [hmem, Finset.mem_union, or_assoc, List.exists_mem_cons_iff]
      refine or_congr_right (or_congr ?_ ?_)
      · simp [hold]
      · refine exists_congr fun p => and_congr_right fun hp => ?_
        have hphit : p ≠ hit := fun heq => hhit (heq ▸ hp)
        have hpmerged : p ≠ merged := fun heq => hnew (heq ▸ hp)
        rw [hget, if_neg hphit, if_neg hpmerged]

/-- Every element of a group points to it, and the others to what they pointed to. -/
lemma foldl_setmap (merged : ℕ) (elements : List CTxDestination)
    (setmap : CTxDestination → Option ℕ) (x : CTxDestination) :
    elements.foldl (fun setmap element => Function.update setmap element (some merged)) setmap x =
      if x ∈ elements then some merged else setmap x := by
  induction elements generalizing setmap with
  | nil => simp
  | cons y elements ih =>
    rw [List.foldl_cons, ih]
    by_cases hx : x ∈ elements
    · rw [if_pos hx, if_pos (List.mem_cons_of_mem y hx)]
    · by_cases hxy : x = y
      · subst hxy
        rw [if_neg hx, if_pos List.mem_cons_self, Function.update_self]
      · rw [if_neg hx, if_neg (List.not_mem_cons_of_ne_of_not_mem hxy hx),
          Function.update_of_ne hxy]

section

variable (h : groups.Holds P) (alloc : Allocator) (grouping : Finset CTxDestination)

include h

/-- What a round of the second loop leaves: the groups that the set does not meet, and the one that
is formed. -/
lemma Holds.mergeGrouping_spec :
    ∃ groups' group' merged, groups.mergeGrouping alloc grouping = .ok groups' ∧
      group' = grouping ∪ (P.filter fun t => ¬ Disjoint grouping t).sup id ∧
      groups.heap[merged]? = none ∧ groups'.heap[merged]? = some group' ∧
      (∀ p ≠ merged, ∀ s, groups'.heap[p]? = some s ↔
        groups.heap[p]? = some s ∧ Disjoint grouping s) ∧
      (∀ p, p ∈ groups'.uniqueGroupings ↔
        p = merged ∨ p ∈ groups.uniqueGroupings ∧ p ∉ groups.hits grouping) ∧
      ∀ x, groups'.setmap x = if x ∈ group' then some merged else groups.setmap x := by
  let merged := alloc.address groups.heap
  have hnone : groups.heap[merged]? = none :=
    Std.ExtTreeMap.getElem?_eq_none (alloc.fresh groups.heap)
  have hne : ∀ {p : ℕ} {s}, groups.heap[p]? = some s → p ≠ merged := by
    rintro p s hs rfl
    rw [hnone] at hs
    cases hs
  have hget : ∀ {p : ℕ}, p ≠ merged →
      (groups.heap.insert merged grouping)[p]? = groups.heap[p]? :=
    fun hp => by rw [MapLoop.getElem?_insert_eq, if_neg hp.symm]
  have hnot : merged ∉ (groups.hits grouping).sort := by
    intro hmem
    obtain ⟨s, hs, -⟩ := h.mem_hits.mp ((Finset.mem_sort _).mp hmem)
    exact hne hs rfl
  have hput : (groups.heap.insert merged grouping)[merged]? = some grouping := by simp
  obtain ⟨groups', group', hfold, hsetmap, hunique, hheap, hgroup, hmem⟩ :=
    foldlM_mergeHit (Finset.sort_nodup (groups.hits grouping) (· ≤ ·)) hnot
      { groups with heap := groups.heap.insert merged grouping } hput (fun p hp => by
        obtain ⟨s, hs, -⟩ := h.mem_hits.mp ((Finset.mem_sort _).mp hp)
        exact ⟨s, (hget (hne hs)).trans hs⟩)
  simp only [Finset.mem_sort] at hunique hheap hmem
  refine ⟨{ groups' with
      uniqueGroupings := insert merged groups'.uniqueGroupings
      setmap := (CTxDestination.elements group').foldl (fun setmap element =>
        Function.update setmap element (some merged)) groups'.setmap }, group', merged, ?_, ?_,
    hnone, hgroup, ?_, ?_, ?_⟩
  · rw [Groups.mergeGrouping, hfold, Except.bind, deref_eq_ok hgroup]
    rfl
  · ext x
    rw [hmem, mem_absorbing]
    refine or_congr_right ⟨?_, ?_⟩
    · rintro ⟨p, hp, s, hs, hx⟩
      obtain ⟨t, ht, hmeets⟩ := h.mem_hits.mp hp
      rw [hget (hne ht), ht, Option.some.injEq] at hs
      exact ⟨t, (h.mem_iff t).mpr ⟨p, ht⟩, hmeets, hs ▸ hx⟩
    · rintro ⟨t, ht, hmeets, hx⟩
      obtain ⟨p, hp⟩ := (h.mem_iff t).mp ht
      exact ⟨p, h.mem_hits.mpr ⟨t, hp, hmeets⟩, t, (hget (hne hp)).trans hp, hx⟩
  · intro p hp s
    rw [hheap p hp, hget hp]
    by_cases hhit : p ∈ groups.hits grouping
    · obtain ⟨t, ht, hmeets⟩ := h.mem_hits.mp hhit
      rw [if_pos hhit, ht, Option.some.injEq]
      exact ⟨fun hs => (by cases hs), fun hs => absurd (hs.1 ▸ hs.2) hmeets⟩
    · rw [if_neg hhit]
      refine ⟨fun hs => ⟨hs, ?_⟩, And.left⟩
      by_contra hmeets
      exact hhit (h.mem_hits.mpr ⟨s, hs, hmeets⟩)
  · intro p
    rw [Finset.mem_insert, hunique]
  · intro x
    have hset := foldl_setmap merged (CTxDestination.elements group') groups'.setmap x
    simp only [CTxDestination.mem_elements, hsetmap] at hset
    rw [← hset, hsetmap]

/-- A round of the second loop merges a set with the groups that it meets. -/
lemma Holds.mergeGrouping :
    ∃ groups', groups.mergeGrouping alloc grouping = .ok groups' ∧
      groups'.Holds (absorb P grouping) := by
  obtain ⟨groups', group', merged, hround, hformed, hnone, hgroup, hheap, hunique, hsetmap⟩ :=
    h.mergeGrouping_spec alloc grouping
  have hne : ∀ {p : ℕ} {s}, groups.heap[p]? = some s → p ≠ merged := by
    rintro p s hs rfl
    rw [hnone] at hs
    cases hs
  refine ⟨groups', hround, ?_, ?_, ?_⟩
  · intro p
    rw [hunique]
    by_cases hp : p = merged
    · subst hp
      simp [hgroup]
    · rw [or_iff_right hp, h.mem_uniqueGroupings, h.mem_hits, not_exists]
      simp only [hheap p hp, not_and, not_not]
      constructor
      · rintro ⟨⟨s, hs⟩, hout⟩
        exact ⟨s, hs, hout s hs⟩
      · rintro ⟨s, hs, hdisj⟩
        refine ⟨⟨s, hs⟩, fun t ht => ?_⟩
        rw [hs, Option.some.injEq] at ht
        exact ht ▸ hdisj
  · intro s
    rw [mem_absorb, ← hformed, h.mem_iff]
    constructor
    · rintro (rfl | ⟨⟨p, hp⟩, hdisj⟩)
      · exact ⟨merged, hgroup⟩
      · exact ⟨p, (hheap p (hne hp) s).mpr ⟨hp, hdisj⟩⟩
    · rintro ⟨p, hp⟩
      by_cases heq : p = merged
      · rw [heq, hgroup, Option.some.injEq] at hp
        exact .inl hp.symm
      · obtain ⟨hs, hdisj⟩ := (hheap p heq s).mp hp
        exact .inr ⟨⟨p, hs⟩, hdisj⟩
  · intro x p
    have hmem : x ∈ group' ↔ x ∈ grouping ∨ ∃ t ∈ P, ¬ Disjoint grouping t ∧ x ∈ t := by
      rw [hformed, mem_absorbing]
    rw [hsetmap]
    by_cases hx : x ∈ group'
    · rw [if_pos hx, Option.some.injEq]
      constructor
      · rintro rfl
        exact ⟨group', hgroup, hx⟩
      · rintro ⟨s, hs, hxs⟩
        by_contra hp
        obtain ⟨hs, hdisj⟩ := (hheap p (Ne.symm hp) s).mp hs
        -- the group that it was in has been left out, so it is not in the one that is formed
        rcases hmem.mp hx with hxg | ⟨t, ht, hmeets, hxt⟩
        · exact Finset.disjoint_left.mp hdisj hxg hxs
        · obtain ⟨q, hq⟩ := (h.mem_iff t).mp ht
          have hpq : some p = some q :=
            ((h.setmap_eq x p).mpr ⟨s, hs, hxs⟩).symm.trans ((h.setmap_eq x q).mpr ⟨t, hq, hxt⟩)
          rw [Option.some.inj hpq, hq, Option.some.injEq] at hs
          exact hmeets (hs ▸ hdisj)
    · rw [if_neg hx, h.setmap_eq]
      constructor
      · rintro ⟨s, hs, hxs⟩
        refine ⟨s, (hheap p (hne hs) s).mpr ⟨hs, ?_⟩, hxs⟩
        by_contra hmeets
        exact hx (hmem.mpr (.inr ⟨s, (h.mem_iff s).mpr ⟨p, hs⟩, hmeets, hxs⟩))
      · rintro ⟨s, hs, hxs⟩
        by_cases hp : p = merged
        · rw [hp, hgroup, Option.some.injEq] at hs
          exact absurd (hs ▸ hxs) hx
        · exact ⟨s, ((hheap p hp s).mp hs).1, hxs⟩

end

/-- The second loop forms the classes of the elements that the sets connect. -/
lemma Holds.foldlM_mergeGrouping {gs : Finset (Finset CTxDestination)} (h : groups.Holds P)
    (hmerged : Merged gs P) (alloc : Allocator) (groupings : List (Finset CTxDestination)) :
    ∃ groups' P', groupings.foldlM (Groups.mergeGrouping alloc) groups = .ok groups' ∧
      groups'.Holds P' ∧ Merged (gs ∪ groupings.toFinset) P' := by
  induction groupings generalizing groups gs P with
  | nil => exact ⟨groups, P, rfl, h, by simpa using hmerged⟩
  | cons grouping groupings ih =>
    obtain ⟨groups', hround, hholds⟩ := h.mergeGrouping alloc grouping
    obtain ⟨groups'', P', hrest, hholds', hmerged'⟩ := ih hholds (hmerged.absorb grouping)
    refine ⟨groups'', P', ?_, hholds', ?_⟩
    · rw [List.foldlM_cons, hround]
      exact hrest
    · rwa [List.toFinset_cons, Finset.union_insert, ← Finset.insert_union]

/-- The groups are returned and freed. -/
lemma foldlM_takeGrouping {ps : List ℕ} (hnodup : ps.Nodup) (heap : Heap)
    (hps : ∀ p ∈ ps, ∃ s, heap[p]? = some s) (ret : Finset (Finset CTxDestination)) :
    ∃ ret' heap', ps.foldlM takeGrouping (ret, heap) = .ok (ret', heap') ∧
      (∀ s, s ∈ ret' ↔ s ∈ ret ∨ ∃ p ∈ ps, heap[p]? = some s) ∧
      ∀ p, heap'[p]? = if p ∈ ps then none else heap[p]? := by
  induction ps generalizing ret heap with
  | nil => exact ⟨ret, heap, rfl, by simp, by simp⟩
  | cons q ps ih =>
    obtain ⟨hq, hnodup⟩ := List.nodup_cons.mp hnodup
    obtain ⟨t, ht⟩ := hps q List.mem_cons_self
    have hget : ∀ p, (heap.erase q)[p]? = if q = p then none else heap[p]? :=
      MapLoop.getElem?_erase_eq heap q
    have hother : ∀ p ∈ ps, (heap.erase q)[p]? = heap[p]? := by
      intro p hp
      have hne : q ≠ p := fun heq => hq (heq ▸ hp)
      rw [hget, if_neg hne]
    obtain ⟨ret', heap', hfold, hret, hheap⟩ := ih hnodup (heap.erase q) (fun p hp => by
      rw [hother p hp]
      exact hps p (List.mem_cons_of_mem q hp)) (insert t ret)
    refine ⟨ret', heap', ?_, fun s => ?_, fun p => ?_⟩
    · have hmem : q ∈ heap := MapLoop.mem_iff.mpr ⟨_, ht⟩
      have htake : takeGrouping (ret, heap) q = .ok (insert t ret, heap.erase q) := by
        rw [takeGrouping, deref_eq_ok ht, Except.bind, free_eq_ok hmem]
        rfl
      rw [List.foldlM_cons, htake]
      exact hfold
    · rw [hret, Finset.mem_insert, List.exists_mem_cons_iff, ht, Option.some.injEq, or_assoc,
        eq_comm, or_left_comm]
      refine or_congr_right (or_congr_right (exists_congr fun p => and_congr_right fun hp => ?_))
      rw [hother p hp]
    · rw [hheap, hget]
      by_cases hp : p = q
      · simp [hp]
      · simp [hp, Ne.symm hp]

/-- The last loop returns the groups, and leaves nothing allocated. -/
lemma Holds.foldlM_takeGrouping (h : groups.Holds P) :
    groups.uniqueGroupings.sort.foldlM takeGrouping (∅, groups.heap) = .ok (P, ∅) := by
  obtain ⟨ret, heap, hfold, hret, hheap⟩ := Groups.foldlM_takeGrouping
    (Finset.sort_nodup groups.uniqueGroupings (· ≤ ·)) groups.heap (fun p hp =>
      (h.mem_uniqueGroupings p).mp ((Finset.mem_sort _).mp hp)) ∅
  have hP : ret = P := by
    ext s
    rw [hret, h.mem_iff]
    constructor
    · rintro (hs | ⟨p, -, hp⟩)
      · exact absurd hs (Finset.notMem_empty s)
      · exact ⟨p, hp⟩
    · rintro ⟨p, hp⟩
      exact .inr ⟨p, (Finset.mem_sort _).mpr ((h.mem_uniqueGroupings p).mpr ⟨s, hp⟩), hp⟩
  have hempty : heap = ∅ := by
    refine Std.ExtTreeMap.ext_getElem? fun p => ?_
    rw [hheap, Std.ExtTreeMap.getElem?_empty]
    split_ifs with hp
    · rfl
    · rw [Finset.mem_sort, h.mem_uniqueGroupings, not_exists] at hp
      exact Option.eq_none_iff_forall_ne_some.mpr hp
  rw [hfold, hP, hempty]

end Groups

/-! ## What the first loop collects -/

namespace Books

variable (books : Books)

/-- The output that an input spends, if the wallet has its transaction. -/
def previousOutput (txin : CTxIn) : Option CTxOut :=
  books.wallet.mapWallet[txin.prevout.hash]?.bind fun prev => prev.vout[txin.prevout.n.toNat]?

/-- The addresses of the outputs that a transaction spends, and of its change. -/
def spendAddresses (wtx : CWalletTx) : Finset CTxDestination :=
  ((wtx.vin.filterMap books.previousOutput ++ wtx.vout.filter books.isChange).filterMap
    books.address).toFinset

/-- The addresses of the outputs of a transaction that are the wallet's. -/
def ownAddresses (wtx : CWalletTx) : List CTxDestination :=
  (wtx.vout.filter books.wallet.isMine).filterMap books.address

/-- The wallet has the outputs that a transaction spends, if the first one of them is its own. -/
def KnowsInputs (wtx : CWalletTx) : Prop :=
  books.isSpender wtx = true → ∀ txin ∈ wtx.vin, (books.previousOutput txin).isSome = true

/-- The sets that the first loop collects for a transaction. -/
def groupingsOf (wtx : CWalletTx) : List (Finset CTxDestination) :=
  (if books.isSpender wtx then [books.spendAddresses wtx] else []) ++
    (books.ownAddresses wtx).map fun address => {address}

variable {books}

lemma outputOf_eq_ok {txin : CTxIn} {txout : CTxOut} :
    books.outputOf txin = .ok txout ↔ books.previousOutput txin = some txout := by
  rw [outputOf, previousOutput]
  cases books.wallet.mapWallet[txin.prevout.hash]? with
  | none => simp
  | some prev =>
    simp only [Option.getD_some, Option.bind_some]
    cases prev.vout[txin.prevout.n.toNat]? <;> simp

lemma insertAddress_eq (grouping : Finset CTxDestination) (txout : CTxOut) :
    books.insertAddress grouping txout = grouping ∪ (books.address txout).toFinset := by
  rw [insertAddress]
  cases books.address txout with
  | none => simp
  | some address =>
    rw [Option.toFinset_some, Finset.union_comm]
    exact Finset.insert_eq address grouping

/-- The addresses of the outputs of a list with a first one. -/
lemma toFinset_address_cons (txout : CTxOut) (vout : List CTxOut) :
    ((txout :: vout).filterMap books.address).toFinset =
      (books.address txout).toFinset ∪ (vout.filterMap books.address).toFinset := by
  cases haddress : books.address txout with
  | none => simp [List.filterMap_cons_none haddress]
  | some address =>
    rw [List.filterMap_cons_some haddress, List.toFinset_cons, Option.toFinset_some]
    exact Finset.insert_eq address _

/-- The loop over the inputs. -/
lemma groupInputs_eq_ok {vin : List CTxIn} {grouping r : Finset CTxDestination} :
    vin.foldlM (fun grouping txin => (books.outputOf txin).map (books.insertAddress grouping))
        grouping = .ok r ↔
      (∀ txin ∈ vin, (books.previousOutput txin).isSome = true) ∧
        r = grouping ∪ ((vin.filterMap books.previousOutput).filterMap books.address).toFinset := by
  induction vin generalizing grouping with
  | nil =>
    simp only [List.foldlM_nil, pure, Except.pure, Except.ok.injEq, List.filterMap_nil,
      List.toFinset_nil, Finset.union_empty, List.not_mem_nil, IsEmpty.forall_iff, implies_true,
      true_and]
    exact eq_comm
  | cons txin vin ih =>
    simp only [foldlM_cons_eq_ok, map_eq_ok, outputOf_eq_ok, ih, List.forall_mem_cons]
    cases hprev : books.previousOutput txin with
    | none => simp
    | some txout =>
      rw [List.filterMap_cons_some hprev, toFinset_address_cons, ← Finset.union_assoc,
        ← insertAddress_eq]
      simp

/-- The loop over the outputs. -/
lemma groupChange_eq (vout : List CTxOut) (grouping : Finset CTxDestination) :
    vout.foldl (fun grouping txout =>
        if books.isChange txout then books.insertAddress grouping txout else grouping) grouping =
      grouping ∪ ((vout.filter books.isChange).filterMap books.address).toFinset := by
  induction vout generalizing grouping with
  | nil => simp
  | cons txout vout ih =>
    rw [List.foldl_cons, ih, List.filter_cons]
    by_cases hchange : books.isChange txout = true
    · rw [if_pos hchange, if_pos hchange, insertAddress_eq, toFinset_address_cons,
        Finset.union_assoc]
    · rw [if_neg hchange, if_neg hchange]

lemma spendGrouping_eq_ok {wtx : CWalletTx} {grouping : Finset CTxDestination} :
    books.spendGrouping wtx = .ok grouping ↔
      (∀ txin ∈ wtx.vin, (books.previousOutput txin).isSome = true) ∧
        grouping = books.spendAddresses wtx := by
  simp only [spendGrouping, map_eq_ok, groupInputs_eq_ok, groupChange_eq, spendAddresses,
    List.filterMap_append, List.toFinset_append, Finset.empty_union]
  constructor
  · rintro ⟨inputs, ⟨hknown, rfl⟩, rfl⟩
    exact ⟨hknown, rfl⟩
  · rintro ⟨hknown, rfl⟩
    exact ⟨_, ⟨hknown, rfl⟩, rfl⟩

/-- The loop over the lone addresses. -/
lemma insertLone_eq (vout : List CTxOut) (groupings : Finset (Finset CTxDestination)) :
    vout.foldl books.insertLone groupings = groupings ∪
      (((vout.filter books.wallet.isMine).filterMap books.address).map
        fun address => ({address} : Finset CTxDestination)).toFinset := by
  induction vout generalizing groupings with
  | nil => simp
  | cons txout vout ih =>
    rw [List.foldl_cons, ih, insertLone, List.filter_cons]
    by_cases hmine : books.wallet.isMine txout = true
    · rw [if_pos hmine, if_pos hmine]
      cases haddress : books.address txout with
      | none => simp [List.filterMap_cons_none haddress]
      | some address => simp [List.filterMap_cons_some haddress]
    · rw [if_neg hmine, if_neg hmine]

lemma collectGroupings_eq_ok {wtx : CWalletTx} {groupings r : Finset (Finset CTxDestination)} :
    books.collectGroupings groupings wtx = .ok r ↔
      books.KnowsInputs wtx ∧ r = groupings ∪ (books.groupingsOf wtx).toFinset := by
  rw [collectGroupings, KnowsInputs, groupingsOf, ownAddresses]
  by_cases hspender : books.isSpender wtx = true
  · rw [if_pos hspender, if_pos hspender]
    simp only [map_eq_ok, spendGrouping_eq_ok, insertLone_eq, hspender, forall_const]
    constructor
    · rintro ⟨_, ⟨_, ⟨hknown, rfl⟩, rfl⟩, rfl⟩
      refine ⟨hknown, ?_⟩
      simp
    · rintro ⟨hknown, rfl⟩
      refine ⟨_, ⟨_, ⟨hknown, rfl⟩, rfl⟩, ?_⟩
      simp
  · rw [if_neg hspender, if_neg hspender]
    simp only [Except.map, insertLone_eq, hspender, Bool.false_eq_true, IsEmpty.forall_iff,
      List.nil_append, true_and, Except.ok.injEq]
    exact eq_comm

/-- The first loop fails if the wallet does not have an output that it looks up, and otherwise
collects the sets of all transactions. -/
lemma collectLoop_eq_ok {walletEntries : List (UInt256 × CWalletTx)}
    {groupings r : Finset (Finset CTxDestination)} :
    walletEntries.foldlM (fun groupings it => books.collectGroupings groupings it.2) groupings =
        .ok r ↔
      (∀ it ∈ walletEntries, books.KnowsInputs it.2) ∧
        r = groupings ∪ (walletEntries.flatMap fun it => books.groupingsOf it.2).toFinset := by
  induction walletEntries generalizing groupings with
  | nil =>
    simp only [List.foldlM_nil, pure, Except.pure, Except.ok.injEq, List.flatMap_nil,
      List.toFinset_nil, Finset.union_empty, List.not_mem_nil, IsEmpty.forall_iff, implies_true,
      true_and]
    exact eq_comm
  | cons it walletEntries ih =>
    simp only [foldlM_cons_eq_ok, collectGroupings_eq_ok, ih, List.forall_mem_cons,
      List.flatMap_cons, List.toFinset_append]
    constructor
    · rintro ⟨_, ⟨hfirst, rfl⟩, hrest, rfl⟩
      exact ⟨⟨hfirst, hrest⟩, Finset.union_assoc ..⟩
    · rintro ⟨⟨hfirst, hrest⟩, rfl⟩
      exact ⟨_, ⟨hfirst, rfl⟩, hrest, (Finset.union_assoc ..).symm⟩

/-! ## The groups of addresses -/

variable (books)

/-- The wallet shows that two addresses have one owner: both are among those of the inputs and of the
change of a transaction that it spends from, or both are that of an own output. -/
def Linked (x y : CTxDestination) : Prop :=
  ∃ (h : UInt256) (wtx : CWalletTx), books.wallet.mapWallet[h]? = some wtx ∧
    (books.isSpender wtx = true ∧ x ∈ books.spendAddresses wtx ∧ y ∈ books.spendAddresses wtx ∨
      x = y ∧ x ∈ books.ownAddresses wtx)

/-- Sets are the groups of connected addresses: every address that occurs is in one of them, and
those of one set are connected. -/
structure Partitioned (ret : Finset (Finset CTxDestination)) : Prop where
  existsUnique : ∀ x, books.Linked x x → ∃! s, s ∈ ret ∧ x ∈ s
  together_iff : ∀ x y, (∃ s ∈ ret, x ∈ s ∧ y ∈ s) ↔ Relation.TransGen books.Linked x y

/-- The sets that the first loop collects, for an order of the transactions. -/
def allGroupings (walletEntries : List (UInt256 × CWalletTx)) : Finset (Finset CTxDestination) :=
  (walletEntries.flatMap fun it => books.groupingsOf it.2).toFinset

variable {books}

lemma mem_allGroupings :
    s ∈ books.allGroupings books.wallet.mapWallet.toList ↔
      ∃ (h : UInt256) (wtx : CWalletTx), books.wallet.mapWallet[h]? = some wtx ∧
        (books.isSpender wtx = true ∧ s = books.spendAddresses wtx ∨
          ∃ address ∈ books.ownAddresses wtx, s = {address}) := by
  have hof : ∀ wtx, s ∈ books.groupingsOf wtx ↔
      books.isSpender wtx = true ∧ s = books.spendAddresses wtx ∨
        ∃ address ∈ books.ownAddresses wtx, s = {address} := by
    intro wtx
    rw [groupingsOf, List.mem_append, List.mem_map]
    refine or_congr ?_ (exists_congr fun address => and_congr_right fun _ => eq_comm)
    by_cases hspender : books.isSpender wtx = true
    · simp [hspender]
    · simp [hspender]
  simp only [allGroupings, List.mem_toFinset, List.mem_flatMap, hof]
  constructor
  · rintro ⟨it, hit, hs⟩
    exact ⟨it.1, it.2, Std.ExtTreeMap.mem_toList_iff_getElem?_eq_some.mp hit, hs⟩
  · rintro ⟨h, wtx, hget, hs⟩
    exact ⟨(h, wtx), Std.ExtTreeMap.mem_toList_iff_getElem?_eq_some.mpr hget, hs⟩

/-- What the collected sets connect is what the wallet shows. -/
lemma together_allGroupings :
    Together (books.allGroupings books.wallet.mapWallet.toList) = books.Linked := by
  funext x y
  apply propext
  constructor
  · rintro ⟨s, hs, hx, hy⟩
    obtain ⟨h, wtx, hget, ⟨hspender, rfl⟩ | ⟨address, hown, rfl⟩⟩ := mem_allGroupings.mp hs
    · exact ⟨h, wtx, hget, .inl ⟨hspender, hx, hy⟩⟩
    · rw [Finset.mem_singleton] at hx hy
      exact ⟨h, wtx, hget, .inr ⟨hx.trans hy.symm, hx ▸ hown⟩⟩
  · rintro ⟨h, wtx, hget, ⟨hspender, hx, hy⟩ | ⟨rfl, hown⟩⟩
    · exact ⟨_, mem_allGroupings.mpr ⟨h, wtx, hget, .inl ⟨hspender, rfl⟩⟩, hx, hy⟩
    · exact ⟨{x}, mem_allGroupings.mpr ⟨h, wtx, hget, .inr ⟨x, hown, rfl⟩⟩,
        Finset.mem_singleton_self x, Finset.mem_singleton_self x⟩

/-- The classes of the sets that are collected are the groups. -/
lemma partitioned_of_merged {ret : Finset (Finset CTxDestination)}
    (h : Merged (books.allGroupings books.wallet.mapWallet.toList) ret) :
    books.Partitioned ret where
  existsUnique x hx := h.existsUnique (by rwa [together_allGroupings])
  together_iff x y := by
    rw [← together_allGroupings]
    exact h.together_iff

/-- The function returns the classes of the sets that it collects, and frees what it allocates. -/
lemma groupAddresses_eq_ok {alloc : Allocator} {walletEntries : List (UInt256 × CWalletTx)}
    {r : Finset (Finset CTxDestination) × Heap} :
    books.groupAddresses alloc walletEntries = .ok r ↔
      (∀ it ∈ walletEntries, books.KnowsInputs it.2) ∧
        Merged (books.allGroupings walletEntries) r.1 ∧ r.2 = ∅ := by
  have hrun : (∀ it ∈ walletEntries, books.KnowsInputs it.2) →
      ∃ ret, Merged (books.allGroupings walletEntries) ret ∧
        books.groupAddresses alloc walletEntries = .ok (ret, ∅) := by
    intro hknown
    have hcollect : walletEntries.foldlM (fun groupings it =>
        books.collectGroupings groupings it.2) ∅ = .ok (books.allGroupings walletEntries) :=
      collectLoop_eq_ok.mpr ⟨hknown, (Finset.empty_union _).symm⟩
    obtain ⟨groups, ret, hmerge, hholds, hmerged⟩ :=
      Groups.Holds.empty.foldlM_mergeGrouping .empty alloc
        ((books.allGroupings walletEntries).sort CTxDestination.SetLe)
    refine ⟨ret, ?_, ?_⟩
    · rwa [Finset.sort_toFinset, Finset.empty_union] at hmerged
    · rw [groupAddresses, hcollect, Except.bind, hmerge, Except.bind]
      exact hholds.foldlM_takeGrouping
  constructor
  · intro h
    have hknown : ∀ it ∈ walletEntries, books.KnowsInputs it.2 := by
      rw [groupAddresses] at h
      obtain ⟨groupings, hcollect, -⟩ := bind_eq_ok.mp h
      exact (collectLoop_eq_ok.mp hcollect).1
    obtain ⟨ret, hmerged, hret⟩ := hrun hknown
    cases h.symm.trans hret
    exact ⟨hknown, hmerged, rfl⟩
  · rintro ⟨hknown, hmerged, hempty⟩
    obtain ⟨ret, hmerged', hret⟩ := hrun hknown
    rw [hret, ← hempty, hmerged'.eq hmerged]

/-- The function returns the groups of connected addresses, in any order of the transactions and for
any pointers, exactly when the wallet has every output that a transaction that it spends from spends.
One of the groups is empty exactly when the inputs and the change of such a transaction have no
address. -/
theorem getAddressGroupings_spec (books : Books) :
    ((∃ ret, books.Partitioned ret ∧ ∀ alloc : Allocator,
        books.getAddressGroupings alloc = .ok (ret, ∅) ∧
        ∀ walletEntries : List (UInt256 × CWalletTx),
          walletEntries.Perm books.wallet.mapWallet.toList →
            books.groupAddresses alloc walletEntries = .ok (ret, ∅)) ↔
      ∀ (h : UInt256) (wtx : CWalletTx),
        books.wallet.mapWallet[h]? = some wtx → books.KnowsInputs wtx) ∧
    ∀ (alloc : Allocator) (ret : Finset (Finset CTxDestination)) (heap : Heap),
      books.getAddressGroupings alloc = .ok (ret, heap) →
        (∅ ∈ ret ↔ ∃ (h : UInt256) (wtx : CWalletTx), books.wallet.mapWallet[h]? = some wtx ∧
          books.isSpender wtx = true ∧ books.spendAddresses wtx = ∅) := by
  refine ⟨⟨?_, ?_⟩, ?_⟩
  · rintro ⟨ret, -, hrun⟩ h wtx hget
    exact (groupAddresses_eq_ok.mp (hrun .next).1).1 (h, wtx)
      (Std.ExtTreeMap.mem_toList_iff_getElem?_eq_some.mpr hget)
  · intro hknown
    have hentries : ∀ it ∈ books.wallet.mapWallet.toList, books.KnowsInputs it.2 := fun it hit =>
      hknown it.1 it.2 (Std.ExtTreeMap.mem_toList_iff_getElem?_eq_some.mp hit)
    obtain ⟨ret, hmerged⟩ := exists_merged (books.allGroupings books.wallet.mapWallet.toList)
    refine ⟨ret, partitioned_of_merged hmerged, fun alloc => ⟨?_, fun walletEntries hperm => ?_⟩⟩
    · exact groupAddresses_eq_ok.mpr ⟨hentries, hmerged, rfl⟩
    · have hsame : books.allGroupings walletEntries =
          books.allGroupings books.wallet.mapWallet.toList :=
        List.toFinset_eq_of_perm _ _ (hperm.flatMap_right _)
      refine groupAddresses_eq_ok.mpr ⟨fun it hit => hentries it (hperm.subset hit), ?_, rfl⟩
      rwa [hsame]
  · intro alloc ret heap hrun
    obtain ⟨-, hmerged, -⟩ := groupAddresses_eq_ok.mp hrun
    rw [hmerged.empty_mem_iff, mem_allGroupings]
    refine exists_congr fun h => exists_congr fun wtx => and_congr_right fun _ => ?_
    constructor
    · rintro (⟨hspender, hempty⟩ | ⟨address, -, hempty⟩)
      · exact ⟨hspender, hempty.symm⟩
      · exact absurd hempty.symm (Finset.singleton_ne_empty address)
    · rintro ⟨hspender, hempty⟩
      exact .inl ⟨hspender, hempty.symm⟩

/-! ## An input of somebody else -/

/-- A transaction that spends an output of the wallet and one that the wallet does not have. -/
def sharedSpend : CWalletTx where
  vin := [{ prevout := ⟨(heldCoin keyScript).getHash CBlock.mixingHash, 0⟩ },
    { prevout := ⟨5, 0⟩ }]
  vout := [{ nValue := 2000, scriptPubKey := keyScript }]

/-- A wallet with this transaction. -/
def sharedBooks : Books :=
  let books := heldBooks keyScript
  { books with wallet := books.wallet.put (sharedSpend.getHash CBlock.mixingHash) sharedSpend }

/-- The wallet has a transaction whose other input is somebody else's. -/
theorem not_getAddressGroupings_spec :
    ¬ ∀ books : Books, ∃ ret, books.Partitioned ret ∧ ∀ alloc : Allocator,
      books.getAddressGroupings alloc = .ok (ret, ∅) ∧
      ∀ walletEntries : List (UInt256 × CWalletTx),
        walletEntries.Perm books.wallet.mapWallet.toList →
          books.groupAddresses alloc walletEntries = .ok (ret, ∅) := by
  intro hall
  obtain ⟨ret, -, hrun⟩ := hall sharedBooks
  have hfault : (sharedBooks.getAddressGroupings .next).toOption.isSome = false := by
    decide +kernel
  rw [(hrun .next).1] at hfault
  cases hfault

end Books

end WalletTx

end HyperStake
