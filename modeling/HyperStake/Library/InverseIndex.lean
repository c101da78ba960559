import HyperStake.Library.MapLoop

/-!
# Inverse indices

Records are stored in a map, each under its key, and every record has a list of items.  An index is
a second map: it sends the name of an item to an entry made of the key of the record that has it and
of the position of the item in that record.  So no two records may have items of the same name.

`Inverse` says that a map and an index fit.  They still do after a record with new names has been
added to both, and after a record has been taken out of both.
-/

namespace InverseIndex

open Std

variable {κ τ σ α π : Type*} {cmp : κ → κ → Ordering} [TransCmp cmp] [LawfulEqCmp cmp]
  {cmp' : σ → σ → Ordering} [TransCmp cmp'] [LawfulEqCmp cmp']

/-- Add the items of a record to an index, given the entry of each position. -/
def addItems (name : α → σ) (entry : ℕ → π) (items : List α) (index : ExtTreeMap σ π cmp') :
    ExtTreeMap σ π cmp' :=
  items.zipIdx.foldl (fun index item => index.insert (name item.1) (entry item.2)) index

/-- Take the items of a record out of an index. -/
def eraseItems (name : α → σ) (items : List α) (index : ExtTreeMap σ π cmp') :
    ExtTreeMap σ π cmp' :=
  items.foldl (fun index item => index.erase (name item)) index

/-- The entries of an index to which items with distinct names have been added from a position on.
-/
lemma getElem?_foldl_zipIdx [DecidableEq σ] {name : α → σ} {entry : ℕ → π} {items : List α}
    (hnodup : (items.map name).Nodup) {n : ℕ} {index : ExtTreeMap σ π cmp'} {o : σ} {p : π} :
    ((items.zipIdx n).foldl (fun index item => index.insert (name item.1) (entry item.2))
        index)[o]? = some p ↔
      (∃ i a, items[i]? = some a ∧ name a = o ∧ p = entry (n + i)) ∨
        o ∉ items.map name ∧ index[o]? = some p := by
  induction items generalizing n index with
  | nil => simp
  | cons a items ih =>
    obtain ⟨ha, hitems⟩ := List.nodup_cons.mp hnodup
    rw [List.zipIdx_cons, List.foldl_cons, ih hitems, MapLoop.getElem?_insert_eq, List.map_cons,
      List.mem_cons, not_or]
    by_cases ho : name a = o
    · subst ho
      rw [if_pos rfl, Option.some.injEq]
      constructor
      · rintro (⟨i, b, hb, hname, -⟩ | ⟨-, hp⟩)
        · exact absurd (hname ▸ List.mem_map_of_mem (List.mem_of_getElem? hb)) ha
        · exact Or.inl ⟨0, a, rfl, rfl, hp.symm⟩
      · rintro (⟨i, b, hb, hname, hp⟩ | ⟨⟨hne, -⟩, -⟩)
        · cases i with
          | zero => exact Or.inr ⟨ha, hp.symm⟩
          | succ i =>
            rw [List.getElem?_cons_succ] at hb
            exact absurd (hname ▸ List.mem_map_of_mem (List.mem_of_getElem? hb)) ha
        · exact absurd rfl hne
    · rw [if_neg ho]
      constructor
      · rintro (⟨i, b, hb, hname, hp⟩ | ⟨hnot, hp⟩)
        · exact Or.inl ⟨i + 1, b, hb, hname, by rw [hp, Nat.add_assoc, Nat.add_comm 1 i]⟩
        · exact Or.inr ⟨⟨Ne.symm ho, hnot⟩, hp⟩
      · rintro (⟨i, b, hb, hname, hp⟩ | ⟨⟨-, hnot⟩, hp⟩)
        · cases i with
          | zero =>
            cases hb
            exact absurd hname ho
          | succ i => exact Or.inl ⟨i, b, hb, hname, by rw [hp, Nat.add_assoc, Nat.add_comm 1 i]⟩
        · exact Or.inr ⟨hnot, hp⟩

/-- The entries of an index to which the items of a record have been added. -/
lemma getElem?_addItems [DecidableEq σ] {name : α → σ} {entry : ℕ → π} {items : List α}
    (hnodup : (items.map name).Nodup) {index : ExtTreeMap σ π cmp'} {o : σ} {p : π} :
    (addItems name entry items index)[o]? = some p ↔
      (∃ i a, items[i]? = some a ∧ name a = o ∧ p = entry i) ∨
        o ∉ items.map name ∧ index[o]? = some p := by
  rw [addItems, getElem?_foldl_zipIdx hnodup]
  simp only [Nat.zero_add]

/-- The entries of an index that the items of a record have been taken out of. -/
lemma getElem?_eraseItems [DecidableEq σ] (name : α → σ) (items : List α)
    (index : ExtTreeMap σ π cmp') (o : σ) :
    (eraseItems name items index)[o]? = if o ∈ items.map name then none else index[o]? := by
  induction items generalizing index with
  | nil => simp [eraseItems]
  | cons a items ih =>
    have hnext : eraseItems name (a :: items) index =
        eraseItems name items (index.erase (name a)) := rfl
    rw [hnext, ih, ExtTreeMap.getElem?_erase]
    by_cases ho : name a = o
    · subst ho
      simp
    · have hcmp : ¬ cmp' (name a) o = .eq := fun heq => ho (LawfulEqCmp.eq_of_compare heq)
      simp only [List.map_cons, List.mem_cons, Ne.symm ho, false_or, if_neg hcmp]

/-- The entries of an index are those of the items of the records of a map. -/
def Inverse (items : τ → List α) (name : α → σ) (entry : κ → ℕ → π) (m : ExtTreeMap κ τ cmp)
    (index : ExtTreeMap σ π cmp') : Prop :=
  ∀ (o : σ) (p : π), index[o]? = some p ↔
    ∃ k t i a, m[k]? = some t ∧ (items t)[i]? = some a ∧ name a = o ∧ p = entry k i

namespace Inverse

variable {items : τ → List α} {name : α → σ} {entry : κ → ℕ → π} {m : ExtTreeMap κ τ cmp}
  {index : ExtTreeMap σ π cmp'}

omit [LawfulEqCmp cmp] [LawfulEqCmp cmp'] in
lemma empty : Inverse items name entry (∅ : ExtTreeMap κ τ cmp)
    (∅ : ExtTreeMap σ π cmp') := fun o p => by simp

omit [LawfulEqCmp cmp] [LawfulEqCmp cmp'] in
/-- Every item has an entry. -/
lemma exists_entry (h : Inverse items name entry m index) {k : κ} {t : τ} (hk : m[k]? = some t)
    {a : α} (ha : a ∈ items t) : ∃ i, index[name a]? = some (entry k i) := by
  obtain ⟨i, hi⟩ := List.getElem?_of_mem ha
  exact ⟨i, (h _ _).mpr ⟨k, t, i, a, hk, hi, rfl, rfl⟩⟩

omit [LawfulEqCmp cmp] [LawfulEqCmp cmp'] in
/-- No two records have items of the same name. -/
lemma key_eq (h : Inverse items name entry m index)
    (hentry : ∀ k k' i i', entry k i = entry k' i' → k = k') {k k' : κ} {t t' : τ}
    (hk : m[k]? = some t) (hk' : m[k']? = some t') {a a' : α} (ha : a ∈ items t)
    (ha' : a' ∈ items t') (hname : name a = name a') : k = k' := by
  obtain ⟨i, hi⟩ := h.exists_entry hk ha
  obtain ⟨i', hi'⟩ := h.exists_entry hk' ha'
  rw [hname, hi'] at hi
  exact (hentry _ _ _ _ (Option.some.inj hi)).symm

/-- Adding a record whose items have distinct new names. -/
lemma insert [DecidableEq κ] [DecidableEq σ] (h : Inverse items name entry m index) {k : κ} {t : τ}
    (hk : k ∉ m) (hnodup : ((items t).map name).Nodup)
    (hnew : ∀ a ∈ items t, index[name a]? = none) :
    Inverse items name entry (m.insert k t) (addItems name (entry k) (items t) index) := by
  intro o p
  rw [getElem?_addItems hnodup]
  constructor
  · rintro (⟨i, a, ha, hname, hp⟩ | ⟨-, hold⟩)
    · exact ⟨k, t, i, a, by rw [MapLoop.getElem?_insert_eq, if_pos rfl], ha, hname, hp⟩
    · obtain ⟨k', t', i, a, hk', ha, hname, hp⟩ := (h o p).mp hold
      have hne : k ≠ k' := by
        rintro rfl
        rw [ExtTreeMap.getElem?_eq_none hk] at hk'
        cases hk'
      exact ⟨k', t', i, a, by rw [MapLoop.getElem?_insert_eq, if_neg hne]; exact hk', ha, hname,
        hp⟩
  · rintro ⟨k', t', i, a, hk', ha, hname, hp⟩
    rw [MapLoop.getElem?_insert_eq] at hk'
    split_ifs at hk' with heq
    · cases hk'
      subst heq
      exact Or.inl ⟨i, a, ha, hname, hp⟩
    · have hold := (h o p).mpr ⟨k', t', i, a, hk', ha, hname, hp⟩
      refine Or.inr ⟨fun hmem => ?_, hold⟩
      obtain ⟨b, hb, rfl⟩ := List.mem_map.mp hmem
      rw [hnew b hb] at hold
      cases hold

/-- Taking out a record. -/
lemma erase [DecidableEq σ] (h : Inverse items name entry m index)
    (hentry : ∀ k k' i i', entry k i = entry k' i' → k = k') {k : κ} {t : τ}
    (hk : m[k]? = some t) :
    Inverse items name entry (m.erase k) (eraseItems name (items t) index) := by
  intro o p
  rw [getElem?_eraseItems]
  constructor
  · intro hget
    split_ifs at hget with hmem
    obtain ⟨k', t', i, a, hk', ha, hname, hp⟩ := (h o p).mp hget
    refine ⟨k', t', i, a, ?_, ha, hname, hp⟩
    rw [ExtTreeMap.getElem?_erase, if_neg, hk']
    intro hcmp
    have heq := LawfulEqCmp.eq_of_compare hcmp
    rw [← heq, hk] at hk'
    cases hk'
    exact hmem (hname ▸ List.mem_map_of_mem (List.mem_of_getElem? ha))
  · rintro ⟨k', t', i, a, hk', ha, hname, hp⟩
    rw [ExtTreeMap.getElem?_erase] at hk'
    split_ifs at hk' with hcmp
    rw [if_neg]
    · exact (h o p).mpr ⟨k', t', i, a, hk', ha, hname, hp⟩
    · intro hmem
      obtain ⟨b, hb, hname'⟩ := List.mem_map.mp hmem
      have heq := h.key_eq hentry hk hk' hb (List.mem_of_getElem? ha) (hname'.trans hname.symm)
      exact hcmp (heq ▸ ReflCmp.compare_self)

end Inverse

end InverseIndex
