import Mathlib.Data.List.Basic
import Std.Data.ExtTreeMap.Lemmas

/-!
# Loops over the keys of a map

A loop that inserts values under distinct new keys: at the end the map has the old values and the
inserted ones.  And a loop that visits distinct keys and at each of them can only change the value
there: at the end every visited value has been changed once, and nothing else has.
-/

namespace MapLoop

open Std

variable {κ β ε : Type*} {cmp : κ → κ → Ordering} [TransCmp cmp]

/-- What is under a key after inserting a value. -/
lemma getElem?_insert_eq [LawfulEqCmp cmp] [DecidableEq κ] (m : ExtTreeMap κ β cmp)
    (k k' : κ) (v : β) : (m.insert k v)[k']? = if k = k' then some v else m[k']? := by
  by_cases h : k = k'
  · subst h
    simp
  · have hcmp : ¬ cmp k k' = .eq := fun hcmp => h (LawfulEqCmp.eq_of_compare hcmp)
    rw [ExtTreeMap.getElem?_insert, if_neg hcmp, if_neg h]

variable {m : ExtTreeMap κ β cmp} {k : κ}

/-- A key is there exactly if there is a value under it. -/
lemma mem_iff : k ∈ m ↔ ∃ v, m[k]? = some v := by
  rw [ExtTreeMap.mem_iff_isSome_getElem?, Option.isSome_iff_exists]

lemma contains_eq_false_iff : m.contains k = false ↔ k ∉ m := by
  rw [← Bool.not_eq_true, ExtTreeMap.contains_iff_mem]

/-- Taking away what was inserted under a new key. -/
lemma erase_insert [LawfulEqCmp cmp] (h : k ∉ m) (v : β) : (m.insert k v).erase k = m := by
  refine ExtTreeMap.ext_getElem? fun k' => ?_
  rw [ExtTreeMap.getElem?_erase, ExtTreeMap.getElem?_insert]
  by_cases hcmp : cmp k k' = .eq
  · rw [if_pos hcmp, ← LawfulEqCmp.eq_of_compare hcmp, ExtTreeMap.getElem?_eq_none h]
  · rw [if_neg hcmp, if_neg hcmp]

/-- What is under a key after inserting a value unless there is one. -/
lemma getElem?_insertIfNew_eq [LawfulEqCmp cmp] [DecidableEq κ] (m : ExtTreeMap κ β cmp)
    (k k' : κ) (v : β) : (m.insertIfNew k v)[k']? =
      if k = k' then some (m[k']?.getD v) else m[k']? := by
  rw [ExtTreeMap.getElem?_insertIfNew]
  by_cases h : k = k'
  · subst h
    cases hm : m[k]? with
    | none =>
      have hnot : k ∉ m := fun hmem => by
        rw [ExtTreeMap.mem_iff_isSome_getElem?, hm] at hmem
        cases hmem
      simp [hnot]
    | some w =>
      have hmem : k ∈ m := mem_iff.mpr ⟨w, hm⟩
      simp [hmem]
  · have hcmp : ¬ cmp k k' = .eq := fun hcmp => h (LawfulEqCmp.eq_of_compare hcmp)
    rw [if_neg fun hand => hcmp hand.1, if_neg h]

/-- Inserting a value under a new key. -/
lemma getElem?_insertIfNew_eq_some [LawfulEqCmp cmp] {k' : κ} {v w : β} (hk : k ∉ m) :
    (m.insertIfNew k v)[k']? = some w ↔ m[k']? = some w ∨ k = k' ∧ v = w := by
  rw [ExtTreeMap.getElem?_insertIfNew]
  by_cases heq : k = k'
  · subst heq
    simp [ReflCmp.compare_self, hk]
  · have hcmp : ¬ cmp k k' = .eq := fun hcmp => heq (LawfulEqCmp.eq_of_compare hcmp)
    simp [hcmp, heq]

/-- Inserting values under distinct new keys. -/
lemma getElem?_foldl_insertIfNew [LawfulEqCmp cmp] {α : Type*} {items : List α} {key : α → κ}
    {value : α → β} (hnodup : (items.map key).Nodup) (hnew : ∀ a ∈ items, key a ∉ m) {v : β} :
    (items.foldl (fun m a => m.insertIfNew (key a) (value a)) m)[k]? = some v ↔
      m[k]? = some v ∨ ∃ a ∈ items, key a = k ∧ value a = v := by
  induction items generalizing m with
  | nil => simp
  | cons a items ih =>
    obtain ⟨ha, hitems⟩ := List.nodup_cons.mp hnodup
    have hnew' : ∀ b ∈ items, key b ∉ m.insertIfNew (key a) (value a) := by
      intro b hb hmem
      rcases ExtTreeMap.mem_insertIfNew.mp hmem with heq | hold
      · have hkey : key b ∈ items.map key := List.mem_map_of_mem hb
        rw [← LawfulEqCmp.eq_of_compare heq] at hkey
        exact ha hkey
      · exact hnew b (List.mem_cons_of_mem _ hb) hold
    rw [List.foldl_cons, ih hitems hnew', getElem?_insertIfNew_eq_some (hnew a List.mem_cons_self)]
    simp only [List.exists_mem_cons_iff, or_assoc]

section

variable (m : ExtTreeMap κ β cmp)

/-- The keys of the items of a map are distinct. -/
lemma nodup_map_fst_toList [LawfulEqCmp cmp] : (m.toList.map Prod.fst).Nodup := by
  rw [ExtTreeMap.map_fst_toList_eq_keys]
  exact ExtTreeMap.nodup_keys

/-- Inserting the items of a map into the empty one gives the map. -/
lemma foldl_insertIfNew_toList [LawfulEqCmp cmp] :
    m.toList.foldl (fun m mi => m.insertIfNew mi.1 mi.2) ∅ = m := by
  refine ExtTreeMap.ext_getElem? fun k => Option.ext fun v => ?_
  rw [getElem?_foldl_insertIfNew (nodup_map_fst_toList m) (by simp),
    ← ExtTreeMap.mem_toList_iff_getElem?_eq_some]
  simp

/-- Changing the value at one key leaves the values at the others. -/
lemma getElem?_modify_of_ne [LawfulEqCmp cmp] (f : β → β)
    {k' : κ} (h : k ≠ k') : (m.modify k f)[k']? = m[k']? := by
  rw [ExtTreeMap.getElem?_modify, if_neg]
  exact fun heq => h (LawfulEqCmp.eq_of_compare heq)

/-- What is under a key after changing the value at one key. -/
lemma getElem?_modify_eq [LawfulEqCmp cmp] [DecidableEq κ] (k k' : κ) (f : β → β) :
    (m.modify k f)[k']? = if k = k' then m[k']?.map f else m[k']? := by
  by_cases h : k = k'
  · subst h
    rw [ExtTreeMap.getElem?_modify, if_pos ReflCmp.compare_self, if_pos rfl]
  · rw [getElem?_modify_of_ne m f h, if_neg h]

/-- Changing a value that has just been put in. -/
lemma modify_insert [LawfulEqCmp cmp] (k : κ) (v : β)
    (f : β → β) : (m.insert k v).modify k f = m.insert k (f v) := by
  classical
  refine ExtTreeMap.ext_getElem? fun k' => ?_
  rw [getElem?_modify_eq, getElem?_insert_eq, getElem?_insert_eq]
  split
  · rfl
  · rfl

/-- A value that is inserted again under its key is the only one there. -/
lemma insert_insert [LawfulEqCmp cmp] (k : κ) (v w : β) :
    (m.insert k v).insert k w = m.insert k w := by
  classical
  refine ExtTreeMap.ext_getElem? fun k' => ?_
  rw [getElem?_insert_eq, getElem?_insert_eq, getElem?_insert_eq]
  split
  · rfl
  · rfl

end

/-- A change that cannot be seen in a view of the values. -/
lemma map_getElem?_modify [LawfulEqCmp cmp] {γ : Type*} {view : β → γ} {f : β → β}
    (h : ∀ b, view (f b) = view b) (m : ExtTreeMap κ β cmp) (k k' : κ) :
    (m.modify k f)[k']?.map view = m[k']?.map view := by
  rw [ExtTreeMap.getElem?_modify]
  split
  · next heq =>
    rw [← LawfulEqCmp.eq_of_compare heq, Option.map_map, show view ∘ f = view from funext h]
  · rfl

/-- What is under a key after taking one key away. -/
lemma getElem?_erase_eq [LawfulEqCmp cmp] [DecidableEq κ] (m : ExtTreeMap κ β cmp)
    (k k' : κ) : (m.erase k)[k']? = if k = k' then none else m[k']? := by
  rw [ExtTreeMap.getElem?_erase]
  by_cases h : k = k'
  · rw [if_pos h, if_pos (by rw [h]; exact ReflCmp.compare_self)]
  · rw [if_neg h, if_neg fun heq => h (LawfulEqCmp.eq_of_compare heq)]

/-- A step that changes the value at its key, as it is seen from outside. -/
def ChangesAt (step : ExtTreeMap κ β cmp → κ → Except ε (ExtTreeMap κ β cmp))
    (g : κ → β → β) (k : κ) : Prop :=
  ∀ m : ExtTreeMap κ β cmp, ∃ m', step m k = .ok m' ∧ m'[k]? = m[k]?.map (g k) ∧
    ∀ k', k ≠ k' → m'[k']? = m[k']?

/-- The loop changes the value at every key that it visits, and no other. -/
lemma foldlM_of_changesAt
    {step : ExtTreeMap κ β cmp → κ → Except ε (ExtTreeMap κ β cmp)} {g : κ → β → β}
    {keys : List κ} (hnodup : keys.Nodup) (hstep : ∀ k ∈ keys, ChangesAt step g k)
    (m : ExtTreeMap κ β cmp) :
    ∃ m', keys.foldlM step m = .ok m' ∧ (∀ k ∈ keys, m'[k]? = m[k]?.map (g k)) ∧
      ∀ k, k ∉ keys → m'[k]? = m[k]? := by
  induction keys generalizing m with
  | nil => exact ⟨m, rfl, by simp, by simp⟩
  | cons k keys ih =>
    obtain ⟨hk, hkeys⟩ := List.nodup_cons.mp hnodup
    obtain ⟨m₁, hm₁, hself, hother⟩ := hstep k List.mem_cons_self m
    obtain ⟨m₂, hm₂, hin, hout⟩ :=
      ih hkeys (fun k' hk' => hstep k' (List.mem_cons_of_mem _ hk')) m₁
    refine ⟨m₂, ?_, ?_, ?_⟩
    · rw [List.foldlM_cons, hm₁]
      exact hm₂
    · intro k' hk'
      rcases List.mem_cons.mp hk' with rfl | hmem
      · rw [hout _ hk, hself]
      · have hne : k ≠ k' := fun heq => hk (heq ▸ hmem)
        rw [hin k' hmem, hother k' hne]
    · intro k' hk'
      rw [List.mem_cons, not_or] at hk'
      rw [hout k' hk'.2, hother k' (Ne.symm hk'.1)]

/-- A loop over all keys of a map changes every value once. -/
lemma foldlM_keys_of_changesAt [LawfulEqCmp cmp]
    {step : ExtTreeMap κ β cmp → κ → Except ε (ExtTreeMap κ β cmp)} {g : κ → β → β}
    (m : ExtTreeMap κ β cmp) (hstep : ∀ k ∈ m.keys, ChangesAt step g k) :
    ∃ m', m.keys.foldlM step m = .ok m' ∧ ∀ k, m'[k]? = m[k]?.map (g k) := by
  obtain ⟨m', hm', hin, hout⟩ := foldlM_of_changesAt ExtTreeMap.nodup_keys hstep m
  refine ⟨m', hm', fun k => ?_⟩
  by_cases hk : k ∈ m.keys
  · exact hin k hk
  · have hnone : m[k]? = none :=
      ExtTreeMap.getElem?_eq_none fun hmem => hk (ExtTreeMap.mem_keys.mpr hmem)
    rw [hout k hk, hnone]
    rfl

/-! ## The order of the entries -/

/-- The entry after a key in the order of the map, or the first one: what `++it` and `begin` give. -/
def next (m : ExtTreeMap κ β cmp) (after : Option κ) : Option (κ × β) :=
  m.toList.find? fun it => after.all fun k => (cmp k it.1).isLT

/-- The entries come one after the other. -/
lemma next_getLast? {front rest : List (κ × β)} (h : m.toList = front ++ rest) :
    next m (front.getLast?.map Prod.fst) = rest.head? := by
  have hsorted : (front ++ rest).Pairwise fun a b => cmp a.1 b.1 = .lt :=
    h ▸ ExtTreeMap.ordered_keys_toList
  rw [next, h]
  rcases List.eq_nil_or_concat' front with rfl | ⟨init, last, rfl⟩
  · cases rest <;> simp
  · obtain ⟨hfront, -, hrest⟩ := List.pairwise_append.mp hsorted
    obtain ⟨-, -, hinit⟩ := List.pairwise_append.mp hfront
    have hlast : last ∈ init ++ [last] := List.mem_append_right _ (List.mem_singleton_self last)
    have hself : cmp last.1 last.1 = .eq := ReflCmp.compare_self
    have hbefore : ∀ it ∈ init ++ [last],
        ¬ (some last.1).all (fun k => (cmp k it.1).isLT) = true := by
      intro it hit
      rcases List.mem_append.mp hit with hmem | hmem
      · have hlt := hinit it hmem last (List.mem_singleton_self last)
        rw [Option.all_some, OrientedCmp.gt_of_lt hlt]
        exact Bool.false_ne_true
      · rw [List.mem_singleton.mp hmem, Option.all_some, hself]
        exact Bool.false_ne_true
    rw [List.getLast?_concat, Option.map_some, List.find?_append, List.find?_eq_none.mpr hbefore,
      Option.none_or]
    cases rest with
    | nil => rfl
    | cons it rest =>
      refine List.find?_cons_of_pos ?_
      exact congrArg Ordering.isLT (hrest last hlast it List.mem_cons_self)

end MapLoop
