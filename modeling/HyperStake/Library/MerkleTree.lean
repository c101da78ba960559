import Mathlib.Data.List.Nodup
import Mathlib.Data.Nat.Bitwise
import Mathlib.Data.Nat.Log
import Mathlib.Data.Set.Function

/-!
# Trees over a list

A list is the lowest level of a tree.  The level above it has a node for every two neighbours, and
the last element of a level of odd length is paired with itself.  `Climbs` says how many levels
there are up to the root, and what the root is.

The siblings on the way up from an element make up its branch, and the element and its branch give
the root (`climb_branch`).  A pairing of the last element with itself looks like a longer list, so
the root does not determine the list; but it does if the list has no element twice, the nodes do not
collide, and no element of a list is a node (`Climbs.eq_of_root`).  As far as the nodes do not
collide, what is joined to a node of the tree is in the tree itself (`mem_levels_of_node`).
-/

namespace MerkleTree

variable {α : Type*} (node : α → α → α)

/-- The pairs of a level. -/
def pairs : List α → List (α × α)
  | [] => []
  | [a] => [(a, a)]
  | a :: b :: l => (a, b) :: pairs l

/-- The level above a level. -/
def parents (l : List α) : List α := (pairs l).map fun p => node p.1 p.2

/-- The root is a number of levels above a level. -/
inductive Climbs : ℕ → List α → α → Prop
  | single (a : α) : Climbs 0 [a] a
  | up {k : ℕ} {l : List α} {r : α} : 2 ≤ l.length → Climbs k (parents node l) r →
      Climbs (k + 1) l r

/-- A number of levels, one after the other, from a level on. -/
def levels : ℕ → List α → List α
  | 0, l => l
  | k + 1, l => l ++ levels k (parents node l)

/-- The position of the sibling of the element at a position in a level. -/
def siblingAt (n i : ℕ) : ℕ := min (i ^^^ 1) (n - 1)

/-- The node over an element and its sibling, for the position of the element. -/
def join (i : ℕ) (a sibling : α) : α := if i % 2 = 1 then node sibling a else node a sibling

/-- What an element at a position and a branch give. -/
def climb : List α → ℕ → α → α
  | [], _, a => a
  | sibling :: branch, i, a => climb branch (i / 2) (join node i a sibling)

/-- The siblings on the way up from a position, or a default where there are none. -/
def branch (default : α) : ℕ → List α → ℕ → List α
  | 0, _, _ => []
  | k + 1, l, i => l.getD (siblingAt l.length i) default :: branch default k (parents node l) (i / 2)

section Levels

variable {node} {l l' : List α} {r : α} {k m : ℕ}

@[simp] lemma length_pairs (l : List α) : (pairs l).length = (l.length + 1) / 2 := by
  induction l using pairs.induct with
  | case1 => simp [pairs]
  | case2 a => simp [pairs]
  | case3 a b l ih =>
    rw [pairs, List.length_cons, ih, List.length_cons, List.length_cons]
    omega

@[simp] lemma length_parents (l : List α) : (parents node l).length = (l.length + 1) / 2 := by
  rw [parents, List.length_map, length_pairs]

/-- What is at a position of the pairs. -/
lemma getElem?_pairs (l : List α) (i : ℕ) :
    (pairs l)[i]? = l[2 * i]?.map fun a => (a, l[2 * i + 1]?.getD a) := by
  induction l using pairs.induct generalizing i with
  | case1 => simp [pairs]
  | case2 a =>
    cases i with
    | zero => rfl
    | succ i => simp [pairs, Nat.mul_succ]
  | case3 a b l ih =>
    cases i with
    | zero => rfl
    | succ i =>
      rw [pairs, List.getElem?_cons_succ, ih]
      have hfirst : 2 * (i + 1) = 2 * i + 1 + 1 := by omega
      rw [hfirst]
      simp only [List.getElem?_cons_succ]

/-- Every list with an element has a root. -/
lemma exists_climbs (node : α → α → α) (hne : l ≠ []) : ∃ k r, Climbs node k l r := by
  induction hn : l.length using Nat.strong_induction_on generalizing l with
  | _ n ih =>
    match l with
    | [] => exact absurd rfl hne
    | [a] => exact ⟨0, a, .single a⟩
    | a :: b :: l =>
      have hlength : (parents node (a :: b :: l)).length = (n + 1) / 2 := by
        rw [length_parents, hn]
      have htwo : 2 ≤ (a :: b :: l).length := by simp
      have hnonempty : parents node (a :: b :: l) ≠ [] := by
        rw [← List.length_pos_iff, hlength]
        omega
      obtain ⟨k, r, hclimbs⟩ := ih ((n + 1) / 2) (by omega) hnonempty hlength
      exact ⟨k + 1, r, .up htwo hclimbs⟩

namespace Climbs

lemma pair (node : α → α → α) (a b : α) : Climbs node 1 [a, b] (node a b) :=
  .up (le_refl 2) (.single _)

/-- The last of the levels is the root. -/
lemma getLast?_levels (h : Climbs node k l r) : (levels node k l).getLast? = some r := by
  induction h with
  | single a => rfl
  | up _ hclimbs ih => rw [levels, List.getLast?_append, ih, Option.some_or]

lemma length_levels_lt (h : Climbs node k l r) : (levels node k l).length < 3 * l.length := by
  induction h with
  | single a => simp [levels]
  | up htwo _ ih =>
    rw [levels, List.length_append]
    rw [length_parents] at ih
    omega

/-- The height of the root depends on the length of the list only. -/
lemma height_eq (h : Climbs node k l r) : k = Nat.clog 2 l.length := by
  induction h with
  | single a => simp
  | up htwo _ ih =>
    rw [length_parents] at ih
    rw [Nat.clog_of_two_le Nat.one_lt_two htwo, ih]
    rfl

end Climbs

/-! ## Branches -/

variable {i : ℕ} {S : Set (α × α)}

lemma xor_one_of_even (h : i % 2 = 0) : i ^^^ 1 = i + 1 := by
  rw [Nat.xor_one_of_even (Nat.even_iff.mpr h)]

lemma xor_one_of_odd (h : i % 2 = 1) : i ^^^ 1 = i - 1 := by
  rw [Nat.xor_one_of_odd (Nat.odd_iff.mpr h)]

variable {a : α} {p : α × α}

/-- An element and its sibling are joined to the node over them. -/
lemma getElem?_parents {default : α} (ha : l[i]? = some a) :
    (parents node l)[i / 2]? =
      some (join node i a (l.getD (siblingAt l.length i) default)) := by
  have hi : i < l.length := (List.getElem?_eq_some_iff.mp ha).1
  rw [parents, List.getElem?_map, getElem?_pairs, Option.map_map, join, siblingAt,
    List.getD_eq_getElem?_getD]
  rcases Nat.mod_two_eq_zero_or_one i with heven | hodd
  · have hhalf : 2 * (i / 2) = i := by omega
    rw [hhalf, ha, if_neg (by omega), xor_one_of_even heven]
    by_cases hlast : i + 1 < l.length
    · rw [min_eq_left (by omega), List.getElem?_eq_getElem hlast]
      rfl
    · -- the last element of a level of odd length
      rw [min_eq_right (by omega), List.getElem?_eq_none (by omega), show l.length - 1 = i by omega,
        ha]
      rfl
  · have hhalf : 2 * (i / 2) = i - 1 := by omega
    have hprev : i - 1 < l.length := by omega
    rw [hhalf, if_pos hodd, xor_one_of_odd hodd, min_eq_left (by omega),
      show i - 1 + 1 = i by omega, ha, List.getElem?_eq_getElem hprev]
    rfl

/-- An element and its branch give the root. -/
lemma climb_branch (h : Climbs node k l r) {default : α} (ha : l[i]? = some a) :
    climb node (branch node default k l i) i a = r := by
  induction h generalizing i a with
  | single b =>
    have hb : i < [b].length := (List.getElem?_eq_some_iff.mp ha).1
    obtain rfl : i = 0 := by
      rw [List.length_singleton] at hb
      omega
    exact (Option.some.inj ha).symm
  | up _ hclimbs ih =>
    rw [branch, climb]
    exact ih (getElem?_parents ha)

/-! ## The root determines the list -/

/-- A function determines a list by its values if it is injective where the elements are. -/
lemma eq_of_map_eq {β γ : Type*} {f : β → γ} {S : Set β} (hinj : Set.InjOn f S) {bs bs' : List β}
    (hbs : ∀ b ∈ bs, b ∈ S) (hbs' : ∀ b ∈ bs', b ∈ S) (h : bs.map f = bs'.map f) : bs = bs' := by
  induction bs generalizing bs' with
  | nil => exact (List.map_eq_nil_iff.mp h.symm).symm
  | cons b bs ih =>
    cases bs' with
    | nil => cases h
    | cons b' bs' =>
      rw [List.map_cons, List.map_cons, List.cons.injEq] at h
      rw [List.forall_mem_cons] at hbs hbs'
      rw [hinj hbs.1 hbs'.1 h.1, ih hbs.2 hbs'.2 h.2]

/-- The level that is a number of levels above a level. -/
def level (node : α → α → α) (l : List α) (m : ℕ) : List α := (parents node)^[m] l

lemma level_succ (l : List α) (m : ℕ) : level node l (m + 1) = parents node (level node l m) :=
  Function.iterate_succ_apply' _ _ _

lemma level_parents (l : List α) (m : ℕ) : level node (parents node l) m = level node l (m + 1) :=
  rfl

/-- A number of levels of pairs, from a level on. -/
def hashed (node : α → α → α) : ℕ → List α → List (α × α)
  | 0, _ => []
  | k + 1, l => pairs l ++ hashed node k (parents node l)

lemma mem_hashed (hm : m < k) (hp : p ∈ pairs (level node l m)) : p ∈ hashed node k l := by
  induction k generalizing l m with
  | zero => cases hm
  | succ k ih =>
    rw [hashed, List.mem_append]
    cases m with
    | zero => exact Or.inl hp
    | succ m => exact Or.inr (ih (Nat.lt_of_succ_lt_succ hm) (by rwa [level_parents]))

/-- The first elements of the pairs are elements of the level, in their order. -/
lemma fst_pairs_sublist (l : List α) : ((pairs l).map Prod.fst).Sublist l := by
  induction l using pairs.induct with
  | case1 => exact .slnil
  | case2 a => exact List.Sublist.refl _
  | case3 a b l ih => exact (ih.cons b).cons_cons a

/-- The pairs determine a level that has no element twice. -/
lemma eq_of_pairs_eq (h : pairs l = pairs l') (hnodup : l.Nodup) (hnodup' : l'.Nodup) : l = l' := by
  induction l using pairs.induct generalizing l' with
  | case1 =>
    match l' with
    | [] => rfl
    | [a'] => cases h
    | a' :: b' :: l' => cases h
  | case2 a =>
    match l' with
    | [] => cases h
    | [a'] =>
      cases h
      rfl
    | a' :: b' :: l' =>
      simp only [pairs, List.cons.injEq, Prod.mk.injEq] at h
      obtain ⟨⟨rfl, rfl⟩, -⟩ := h
      simp at hnodup'
  | case3 a b l ih =>
    match l' with
    | [] => cases h
    | [a'] =>
      simp only [pairs, List.cons.injEq, Prod.mk.injEq] at h
      obtain ⟨⟨rfl, rfl⟩, -⟩ := h
      simp at hnodup
    | a' :: b' :: l' =>
      simp only [pairs, List.cons.injEq, Prod.mk.injEq] at h
      obtain ⟨⟨rfl, rfl⟩, hrest⟩ := h
      rw [ih hrest hnodup.of_cons.of_cons hnodup'.of_cons.of_cons]

section

variable (hinj : Set.InjOn (fun p => node p.1 p.2) S)

include hinj

/-- The level above one that has no element twice has no node twice. -/
lemma nodup_parents (hS : ∀ p ∈ pairs l, p ∈ S) (hnodup : l.Nodup) : (parents node l).Nodup := by
  have hpairs : (pairs l).Nodup := .of_map _ (hnodup.sublist (fst_pairs_sublist l))
  exact hpairs.map_on fun p hp q hq heq => hinj (hS p hp) (hS q hq) heq

/-- Lists with roots on the same height that are equal. -/
lemma Climbs.eq_of_height (h : Climbs node k l r)
    (h' : Climbs node k l' r) (hS : ∀ p ∈ hashed node k l, p ∈ S)
    (hS' : ∀ p ∈ hashed node k l', p ∈ S) (hnodup : l.Nodup) (hnodup' : l'.Nodup) : l = l' := by
  induction h generalizing l' with
  | single a =>
    cases h'
    rfl
  | @up k l r _ hclimbs ih =>
    cases h' with
    | up _ hclimbs' =>
      simp only [hashed, List.mem_append] at hS hS'
      have hpairs : ∀ p ∈ pairs l, p ∈ S := fun p hp => hS p (Or.inl hp)
      have hpairs' : ∀ p ∈ pairs l', p ∈ S := fun p hp => hS' p (Or.inl hp)
      have hparents := ih hclimbs' (fun p hp => hS p (Or.inr hp)) (fun p hp => hS' p (Or.inr hp))
        (nodup_parents hinj hpairs hnodup) (nodup_parents hinj hpairs' hnodup')
      exact eq_of_pairs_eq (eq_of_map_eq hinj hpairs hpairs' hparents) hnodup hnodup'

/-- If the roots are equal then the first elements on the same height are. -/
lemma Climbs.head?_eq (h : Climbs node k l r)
    (h' : Climbs node k (level node l' m) r) (hS : ∀ p ∈ hashed node k l, p ∈ S)
    (hS' : ∀ p ∈ hashed node (k + m) l', p ∈ S) : l.head? = (level node l' m).head? := by
  induction h generalizing m with
  | single a =>
    generalize level node l' m = l₁ at h'
    cases h'
    rfl
  | @up k l r htwo hclimbs ih =>
    generalize hl' : level node l' m = l₁ at h'
    cases h' with
    | up htwo' hclimbs' =>
      have hnext : k + (m + 1) = k + 1 + m := by omega
      simp only [hashed, List.mem_append] at hS
      have hhead := ih (m := m + 1) (by rwa [level_succ, hl']) (fun p hp => hS p (Or.inr hp))
        (by rwa [hnext])
      rw [level_succ, hl'] at hhead
      match l, l₁ with
      | a :: b :: l, a' :: b' :: l₁ =>
        have hmem : (a', b') ∈ pairs (level node l' m) := by
          rw [hl']
          exact List.mem_cons_self
        have hsame := hinj (hS (a, b) (Or.inl List.mem_cons_self))
          (hS' (a', b') (mem_hashed (by omega) hmem)) (Option.some.inj hhead)
        have hfst : a = a' := congrArg Prod.fst hsame
        rw [List.head?_cons, List.head?_cons, hfst]

end

/-- A list from which the root is on a height has higher levels up to that. -/
lemma Climbs.climbs_level (h : Climbs node (k + m) l r) : Climbs node k (level node l m) r := by
  induction m generalizing l with
  | zero => exact h
  | succ m ih =>
    cases h with
    | up _ hclimbs => exact ih hclimbs

/-- A list whose root is on a greater height than that of another list has a node among the elements
of the other one. -/
lemma Climbs.exists_node_mem (hinj : Set.InjOn (fun p => node p.1 p.2) S) (h : Climbs node k l r)
    (h' : Climbs node (k + (m + 1)) l' r) (hS : ∀ p ∈ hashed node k l, p ∈ S)
    (hS' : ∀ p ∈ hashed node (k + (m + 1)) l', p ∈ S) :
    ∃ p ∈ hashed node (k + (m + 1)) l', node p.1 p.2 ∈ l := by
  have hhead := h.head?_eq hinj h'.climbs_level hS hS'
  have hlower : Climbs node (k + 1) (level node l' m) r := by
    apply Climbs.climbs_level
    rwa [show k + 1 + m = k + (m + 1) by omega]
  rw [level_succ] at hhead
  generalize hl' : level node l' m = l₁ at hhead hlower
  cases hlower with
  | up htwo _ =>
    match l₁ with
    | a :: b :: l₁ =>
      refine ⟨(a, b), mem_hashed (m := m) (by omega) ?_, List.mem_of_mem_head? ?_⟩
      · rw [hl']
        exact List.mem_cons_self
      · rw [hhead]
        rfl

/-- The root determines the list, if no element of the two lists occurs twice in one of them, the
nodes do not collide, and no element is a node. -/
theorem Climbs.eq_of_root {k' : ℕ} (hinj : Set.InjOn (fun p => node p.1 p.2) S)
    (h : Climbs node k l r) (h' : Climbs node k' l' r) (hS : ∀ p ∈ hashed node k l, p ∈ S)
    (hS' : ∀ p ∈ hashed node k' l', p ∈ S) (hleaf : ∀ p ∈ S, node p.1 p.2 ∉ l)
    (hleaf' : ∀ p ∈ S, node p.1 p.2 ∉ l') (hnodup : l.Nodup) (hnodup' : l'.Nodup) : l = l' := by
  rcases lt_trichotomy k k' with hlt | rfl | hlt
  · obtain ⟨m, rfl⟩ := Nat.exists_eq_add_of_lt hlt
    obtain ⟨p, hp, hmem⟩ := h.exists_node_mem hinj h' hS hS'
    exact absurd hmem (hleaf p (hS' p hp))
  · exact h.eq_of_height hinj h' hS hS' hnodup hnodup'
  · obtain ⟨m, rfl⟩ := Nat.exists_eq_add_of_lt hlt
    obtain ⟨p, hp, hmem⟩ := h'.exists_node_mem hinj h hS' hS
    exact absurd hmem (hleaf' p (hS p hp))

/-! ## What is in the tree -/

lemma mem_of_mem_pairs (hp : p ∈ pairs l) : p.1 ∈ l ∧ p.2 ∈ l := by
  induction l using pairs.induct with
  | case1 => cases hp
  | case2 a =>
    obtain rfl := List.mem_singleton.mp hp
    exact ⟨List.mem_cons_self, List.mem_cons_self⟩
  | case3 a b l ih =>
    rcases List.mem_cons.mp hp with rfl | hp
    · exact ⟨List.mem_cons_self, List.mem_cons_of_mem _ List.mem_cons_self⟩
    · exact (ih hp).imp (fun h => by simp [h]) (fun h => by simp [h])

/-- The elements of the pairs that are joined are in the tree. -/
lemma mem_levels_of_mem_hashed (hp : p ∈ hashed node k l) :
    p.1 ∈ levels node k l ∧ p.2 ∈ levels node k l := by
  induction k generalizing l with
  | zero => cases hp
  | succ k ih =>
    rw [levels, List.mem_append, List.mem_append]
    rcases List.mem_append.mp hp with hp | hp
    · exact (mem_of_mem_pairs hp).imp Or.inl Or.inl
    · exact (ih hp).imp Or.inr Or.inr

/-- What is in the tree is an element of the list or the node over a pair. -/
lemma mem_or_of_mem_levels (ha : a ∈ levels node k l) :
    a ∈ l ∨ ∃ p ∈ hashed node k l, node p.1 p.2 = a := by
  induction k generalizing l with
  | zero => exact Or.inl ha
  | succ k ih =>
    rcases List.mem_append.mp ha with ha | ha
    · exact Or.inl ha
    · refine Or.inr ?_
      rcases ih ha with hparent | ⟨p, hp, hnode⟩
      · obtain ⟨p, hp, hnode⟩ := List.mem_map.mp hparent
        exact ⟨p, List.mem_append_left _ hp, hnode⟩
      · exact ⟨p, List.mem_append_right _ hp, hnode⟩

/-- If the node over a pair is in the tree then so is the pair, unless the node is an element of the
list or collides. -/
lemma mem_levels_of_node (hinj : Set.InjOn (fun p => node p.1 p.2) S)
    (hS : ∀ p ∈ hashed node k l, p ∈ S) (hp : p ∈ S) (hleaf : node p.1 p.2 ∉ l)
    (hmem : node p.1 p.2 ∈ levels node k l) : p.1 ∈ levels node k l ∧ p.2 ∈ levels node k l := by
  rcases mem_or_of_mem_levels hmem with hin | ⟨q, hq, hnode⟩
  · exact absurd hin hleaf
  · rw [← hinj (hS q hq) hp hnode]
    exact mem_levels_of_mem_hashed hq

end Levels

end MerkleTree
