import HyperStake.Library.MapLoop

/-!
# Grouped indices

Records are stored in a map, each under its key, and a record belongs to some groups.  A second map
has for every group the map of its records.  A group is made when it is accessed and is not there,
so an access can leave an empty group behind.

`Grouped` says that the groups have exactly the records of the map, `NoneEmpty` that no group is
empty.  Adding a new record and taking one out keep both; an access keeps the first, and the second
if the group is there.
-/

namespace GroupedIndex

open Std

variable {κ τ σ : Type*} {cmp : κ → κ → Ordering} [TransCmp cmp] [LawfulEqCmp cmp]
  {cmp' : σ → σ → Ordering} [TransCmp cmp'] [LawfulEqCmp cmp']

/-- The record of a group under a key. -/
def lookup (groups : ExtTreeMap σ (ExtTreeMap κ τ cmp) cmp') (s : σ) (k : κ) : Option τ :=
  groups[s]?.bind fun group => group[k]?

/-- Access a group: it is made if it is not there. -/
def touch (groups : ExtTreeMap σ (ExtTreeMap κ τ cmp) cmp') (s : σ) :
    ExtTreeMap σ (ExtTreeMap κ τ cmp) cmp' :=
  groups.insertIfNew s ∅

/-- Add a record to a group, unless it has one under the key. -/
def addTo (k : κ) (t : τ) (groups : ExtTreeMap σ (ExtTreeMap κ τ cmp) cmp') (s : σ) :
    ExtTreeMap σ (ExtTreeMap κ τ cmp) cmp' :=
  groups.insert s ((groups[s]?.getD ∅).insertIfNew k t)

/-- Take a record out of a group, and a group that is then empty out of the groups. -/
def eraseFrom (k : κ) (groups : ExtTreeMap σ (ExtTreeMap κ τ cmp) cmp') (s : σ) :
    ExtTreeMap σ (ExtTreeMap κ τ cmp) cmp' :=
  let group := (groups[s]?.getD ∅).erase k
  if group.isEmpty then groups.erase s else groups.insert s group

/-- The groups have exactly the records of a map that belong to them. -/
def Grouped (names : τ → List σ) (m : ExtTreeMap κ τ cmp)
    (groups : ExtTreeMap σ (ExtTreeMap κ τ cmp) cmp') : Prop :=
  ∀ (s : σ) (k : κ) (t : τ), lookup groups s k = some t ↔ m[k]? = some t ∧ s ∈ names t

/-- No group is empty. -/
def NoneEmpty (groups : ExtTreeMap σ (ExtTreeMap κ τ cmp) cmp') : Prop :=
  ∀ (s : σ) (group : ExtTreeMap κ τ cmp), groups[s]? = some group →
    group.isEmpty = false

/-! ## What the operations do -/

variable {groups : ExtTreeMap σ (ExtTreeMap κ τ cmp) cmp'}

omit [LawfulEqCmp cmp] [LawfulEqCmp cmp'] in
lemma lookup_eq_getD (groups : ExtTreeMap σ (ExtTreeMap κ τ cmp) cmp') (s : σ) (k : κ) :
    lookup groups s k = (groups[s]?.getD ∅)[k]? := by
  unfold lookup
  cases groups[s]? <;> simp

omit [LawfulEqCmp cmp] in
lemma lookup_touch [DecidableEq σ] (s s' : σ) (k : κ) :
    lookup (touch groups s) s' k = lookup groups s' k := by
  rw [lookup_eq_getD, lookup_eq_getD, touch, MapLoop.getElem?_insertIfNew_eq]
  by_cases h : s = s'
  · subst h
    rw [if_pos rfl, Option.getD_some]
  · rw [if_neg h]

omit [TransCmp cmp] [LawfulEqCmp cmp] in
/-- Accessing a group that is there. -/
lemma touch_of_mem [DecidableEq σ] {s : σ} (h : s ∈ groups) : touch groups s = groups := by
  refine ExtTreeMap.ext_getElem? fun s' => ?_
  rw [touch, MapLoop.getElem?_insertIfNew_eq]
  by_cases heq : s = s'
  · subst heq
    obtain ⟨group, hgroup⟩ := MapLoop.mem_iff.mp h
    rw [if_pos rfl, hgroup, Option.getD_some]
  · rw [if_neg heq]

lemma lookup_addTo [DecidableEq κ] [DecidableEq σ] (k k' : κ) (t : τ) (s s' : σ) :
    lookup (addTo k t groups s) s' k' =
      if s = s' ∧ k = k' then some ((lookup groups s' k').getD t) else lookup groups s' k' := by
  rw [lookup_eq_getD, lookup_eq_getD, addTo, MapLoop.getElem?_insert_eq]
  by_cases hs : s = s'
  · subst hs
    rw [if_pos rfl, Option.getD_some, MapLoop.getElem?_insertIfNew_eq]
    by_cases hk : k = k'
    · subst hk
      rw [if_pos rfl, if_pos ⟨rfl, rfl⟩]
    · rw [if_neg hk, if_neg fun h => hk h.2]
  · rw [if_neg hs, if_neg fun h => hs h.1]

lemma lookup_eraseFrom [DecidableEq κ] [DecidableEq σ] (k k' : κ) (s s' : σ) :
    lookup (eraseFrom k groups s) s' k' =
      if s = s' ∧ k = k' then none else lookup groups s' k' := by
  have hgroup : ((groups[s]?.getD ∅).erase k)[k']? =
      if k = k' then none else (groups[s]?.getD ∅)[k']? := by
    rw [ExtTreeMap.getElem?_erase]
    by_cases hk : k = k'
    · subst hk
      rw [if_pos ReflCmp.compare_self, if_pos rfl]
    · rw [if_neg fun h => hk (LawfulEqCmp.eq_of_compare h), if_neg hk]
  unfold eraseFrom
  dsimp only
  by_cases hempty : ((groups[s]?.getD ∅).erase k).isEmpty = true
  · rw [if_pos hempty, lookup_eq_getD, lookup_eq_getD, ExtTreeMap.getElem?_erase]
    by_cases hs : s = s'
    · subst hs
      have hnone : ((groups[s]?.getD ∅).erase k)[k']? = none := by
        rw [ExtTreeMap.isEmpty_iff.mp hempty, ExtTreeMap.getElem?_empty]
      rw [hgroup] at hnone
      rw [if_pos ReflCmp.compare_self, Option.getD_none, ExtTreeMap.getElem?_empty]
      by_cases hk : k = k'
      · rw [if_pos ⟨rfl, hk⟩]
      · rw [if_neg hk] at hnone
        rw [if_neg fun h => hk h.2, hnone]
    · rw [if_neg fun h => hs (LawfulEqCmp.eq_of_compare h), if_neg fun h => hs h.1]
  · rw [if_neg hempty, lookup_eq_getD, lookup_eq_getD, MapLoop.getElem?_insert_eq]
    by_cases hs : s = s'
    · subst hs
      rw [if_pos rfl, Option.getD_some, hgroup]
      by_cases hk : k = k'
      · rw [if_pos hk, if_pos ⟨rfl, hk⟩]
      · rw [if_neg hk, if_neg fun h => hk h.2]
    · rw [if_neg hs, if_neg fun h => hs h.1]

/-- Adding a new record to all its groups. -/
lemma lookup_foldl_addTo [DecidableEq κ] [DecidableEq σ] {k : κ} {t : τ} {names : List σ}
    (hnew : ∀ s, lookup groups s k = none ∨ lookup groups s k = some t) (s : σ) (k' : κ) :
    lookup (names.foldl (addTo k t) groups) s k' =
      if s ∈ names ∧ k = k' then some t else lookup groups s k' := by
  induction names generalizing groups with
  | nil => simp
  | cons a names ih =>
    have hnext : ∀ s, lookup (addTo k t groups a) s k = none ∨
        lookup (addTo k t groups a) s k = some t := by
      intro s
      rw [lookup_addTo]
      split_ifs
      · rcases hnew s with h | h <;> rw [h] <;> exact Or.inr rfl
      · exact hnew s
    rw [List.foldl_cons, ih hnext, lookup_addTo]
    by_cases hk : k = k'
    · subst hk
      by_cases ha : a = s
      · subst ha
        have hsome : some ((lookup groups a k).getD t) = some t := by
          rcases hnew a with h | h <;> rw [h] <;> rfl
        have hadded : (if a = a ∧ k = k then some ((lookup groups a k).getD t)
            else lookup groups a k) = some t := (if_pos ⟨rfl, rfl⟩).trans hsome
        rw [hadded, ite_self, if_pos ⟨List.mem_cons_self, rfl⟩]
      · simp [ha, Ne.symm ha, List.mem_cons]
    · rw [if_neg fun h => hk h.2, if_neg fun h => hk h.2, if_neg fun h => hk h.2]

/-- Taking a record out of groups. -/
lemma lookup_foldl_eraseFrom [DecidableEq κ] [DecidableEq σ] (k k' : κ) (names : List σ) (s : σ) :
    lookup (names.foldl (eraseFrom k) groups) s k' =
      if s ∈ names ∧ k = k' then none else lookup groups s k' := by
  induction names generalizing groups with
  | nil => simp
  | cons a names ih =>
    rw [List.foldl_cons, ih, lookup_eraseFrom]
    by_cases hk : k = k'
    · by_cases ha : a = s
      · subst ha
        simp [hk]
      · simp [hk, ha, Ne.symm ha]
    · simp [hk]

/-! ## What they keep -/

namespace Grouped

variable {names : τ → List σ} {m : ExtTreeMap κ τ cmp}

omit [LawfulEqCmp cmp] [LawfulEqCmp cmp'] in
lemma empty : Grouped names (∅ : ExtTreeMap κ τ cmp)
    (∅ : ExtTreeMap σ (ExtTreeMap κ τ cmp) cmp') := fun s k t => by simp [lookup]

omit [LawfulEqCmp cmp] in
lemma touch [DecidableEq σ] (h : Grouped names m groups) (s : σ) :
    Grouped names m (GroupedIndex.touch groups s) := by
  intro s' k t
  rw [lookup_touch]
  exact h s' k t

/-- Adding a record under a new key. -/
lemma insert [DecidableEq κ] [DecidableEq σ] (h : Grouped names m groups) {k : κ} (hk : k ∉ m)
    (t : τ) : Grouped names (m.insert k t) ((names t).foldl (addTo k t) groups) := by
  have hnone : ∀ s, lookup groups s k = none := by
    intro s
    cases hlookup : lookup groups s k with
    | none => rfl
    | some t' =>
      have hget := ((h s k t').mp hlookup).1
      rw [ExtTreeMap.getElem?_eq_none hk] at hget
      cases hget
  intro s k' t'
  rw [lookup_foldl_addTo fun s => Or.inl (hnone s), MapLoop.getElem?_insert_eq]
  by_cases heq : k = k'
  · subst heq
    rw [if_pos rfl]
    by_cases hs : s ∈ names t
    · rw [if_pos ⟨hs, rfl⟩]
      exact ⟨fun hsome => ⟨hsome, Option.some.inj hsome ▸ hs⟩, fun hand => hand.1⟩
    · rw [if_neg fun hand => hs hand.1, hnone s]
      refine iff_of_false nofun ?_
      rintro ⟨hsome, hmem⟩
      exact hs (Option.some.inj hsome ▸ hmem)
  · rw [if_neg fun hand => heq hand.2, if_neg heq]
    exact h s k' t'

/-- Taking out a record. -/
lemma erase [DecidableEq κ] [DecidableEq σ] (h : Grouped names m groups) {k : κ} {t : τ}
    (hk : m[k]? = some t) : Grouped names (m.erase k) ((names t).foldl (eraseFrom k) groups) := by
  intro s k' t'
  rw [lookup_foldl_eraseFrom, ExtTreeMap.getElem?_erase]
  by_cases heq : k = k'
  · subst heq
    rw [if_pos ReflCmp.compare_self]
    refine iff_of_false ?_ nofun
    by_cases hs : s ∈ names t
    · rw [if_pos ⟨hs, rfl⟩]
      nofun
    · rw [if_neg fun hand => hs hand.1]
      intro hlookup
      obtain ⟨hget, hmem⟩ := (h s k t').mp hlookup
      rw [hk] at hget
      exact hs (Option.some.inj hget ▸ hmem)
  · rw [if_neg fun hand => heq hand.2,
      if_neg fun hcmp => heq (LawfulEqCmp.eq_of_compare hcmp)]
    exact h s k' t'

end Grouped

namespace NoneEmpty

omit [TransCmp cmp] [LawfulEqCmp cmp] [LawfulEqCmp cmp'] in
lemma empty : NoneEmpty (∅ : ExtTreeMap σ (ExtTreeMap κ τ cmp) cmp') := fun s group h => by
  simp at h

omit [LawfulEqCmp cmp] in
lemma addTo [DecidableEq σ] (h : NoneEmpty groups) (k : κ) (t : τ) (s : σ) :
    NoneEmpty (GroupedIndex.addTo k t groups s) := by
  intro s' group hgroup
  rw [GroupedIndex.addTo, MapLoop.getElem?_insert_eq] at hgroup
  split_ifs at hgroup
  · cases hgroup
    simp
  · exact h s' group hgroup

omit [LawfulEqCmp cmp] in
lemma eraseFrom [DecidableEq σ] (h : NoneEmpty groups) (k : κ) (s : σ) :
    NoneEmpty (GroupedIndex.eraseFrom k groups s) := by
  intro s' group hgroup
  unfold GroupedIndex.eraseFrom at hgroup
  dsimp only at hgroup
  by_cases hempty : ((groups[s]?.getD ∅).erase k).isEmpty = true
  · rw [if_pos hempty, ExtTreeMap.getElem?_erase] at hgroup
    split_ifs at hgroup
    exact h s' group hgroup
  · rw [if_neg hempty, MapLoop.getElem?_insert_eq] at hgroup
    split_ifs at hgroup
    · cases hgroup
      exact Bool.eq_false_iff.mpr hempty
    · exact h s' group hgroup

omit [TransCmp cmp] [LawfulEqCmp cmp] [LawfulEqCmp cmp'] in
lemma foldl [DecidableEq σ] (h : NoneEmpty groups)
    {step : ExtTreeMap σ (ExtTreeMap κ τ cmp) cmp' → σ →
      ExtTreeMap σ (ExtTreeMap κ τ cmp) cmp'}
    (hstep : ∀ groups s, NoneEmpty groups → NoneEmpty (step groups s)) (names : List σ) :
    NoneEmpty (names.foldl step groups) := by
  induction names generalizing groups with
  | nil => exact h
  | cons s names ih => exact ih (hstep _ s h)

end NoneEmpty

end GroupedIndex
