import Mathlib.Data.List.Induction
import Mathlib.Data.List.Sort
import Mathlib.Order.Monotone.Basic
import HyperStake.Library.MapLoop

/-!
# Lists as numbered records

A list is kept in an ordered map: its items are written one by one under keys that are made from
their numbers, and erased one by one.  Every write and every erasure can fail by itself.  If none
does, then the records are those of the list (`Stores`), and if the order of the keys is that of the
numbers then reading the records in their order gives the list (`map_snd_toList_of_stores`).
-/

namespace NumberedRecords

variable {α : Type*} {key : ℕ → ℕ} {succeeds : ℕ → Bool} {l : List α}
  {m : Std.ExtTreeMap ℕ α}

/-- Write the items of a list; whether all writes succeed. -/
def writeAll (key : ℕ → ℕ) (succeeds : ℕ → Bool) (l : List α) (m : Std.ExtTreeMap ℕ α) :
    Bool × Std.ExtTreeMap ℕ α :=
  l.zipIdx.foldl (fun r a =>
    (r.1 && succeeds a.2, if succeeds a.2 then r.2.insert (key a.2) a.1 else r.2)) (true, m)

/-- Erase the records of some numbers; whether all erasures succeed. -/
def eraseAll (key : ℕ → ℕ) (succeeds : ℕ → Bool) (n : ℕ) (m : Std.ExtTreeMap ℕ α) :
    Bool × Std.ExtTreeMap ℕ α :=
  (List.range n).foldl (fun r i =>
    (r.1 && succeeds i, if succeeds i then r.2.erase (key i) else r.2)) (true, m)

/-- The records of a list, and no others. -/
def Stores (key : ℕ → ℕ) (l : List α) (m : Std.ExtTreeMap ℕ α) : Prop :=
  ∀ k v, m[k]? = some v ↔ ∃ i, l[i]? = some v ∧ key i = k

lemma stores_nil_iff : Stores key ([] : List α) m ↔ m = ∅ := by
  constructor
  · intro h
    refine Std.ExtTreeMap.ext_getElem? fun k => Option.ext fun v => ?_
    rw [h k v]
    simp
  · rintro rfl k v
    simp

/-- Erasures that all succeed. -/
lemma eraseAll_eq (hall : ∀ i, succeeds i = true) (m : Std.ExtTreeMap ℕ α) (n : ℕ) :
    (eraseAll key succeeds n m).1 = true ∧
      ∀ k, (eraseAll key succeeds n m).2[k]? = if ∃ i < n, key i = k then none else m[k]? := by
  induction n with
  | zero => simp [eraseAll]
  | succ n ih =>
    obtain ⟨hfst, hsnd⟩ := ih
    rw [eraseAll, List.range_succ, List.foldl_append, ← eraseAll, List.foldl_cons, List.foldl_nil,
      hfst, hall, if_pos rfl]
    refine ⟨rfl, fun k => ?_⟩
    rw [Std.ExtTreeMap.getElem?_erase, hsnd]
    by_cases hk : key n = k
    · rw [if_pos (Nat.compare_eq_eq.mpr hk), if_pos ⟨n, Nat.lt_succ_self n, hk⟩]
    · rw [if_neg fun hcmp => hk (Nat.compare_eq_eq.mp hcmp)]
      refine if_congr ⟨fun ⟨i, hi, heq⟩ => ⟨i, Nat.lt_succ_of_lt hi, heq⟩, ?_⟩ rfl rfl
      rintro ⟨i, hi, heq⟩
      refine ⟨i, lt_of_le_of_ne (Nat.le_of_lt_succ hi) ?_, heq⟩
      rintro rfl
      exact hk heq

/-- Erasing at least the records of the list leaves none. -/
lemma Stores.eraseAll (h : Stores key l m) (hall : ∀ i, succeeds i = true) {n : ℕ}
    (hn : l.length ≤ n) : (eraseAll key succeeds n m).1 = true ∧
      Stores key [] (NumberedRecords.eraseAll key succeeds n m).2 := by
  obtain ⟨hfst, hsnd⟩ := eraseAll_eq hall m n
  refine ⟨hfst, fun k v => ?_⟩
  rw [hsnd k]
  refine iff_of_false ?_ (by simp)
  split_ifs with hk
  · simp
  · intro hv
    obtain ⟨i, hi, heq⟩ := (h k v).mp hv
    exact hk ⟨i, lt_of_lt_of_le (List.getElem?_eq_some_iff.mp hi).1 hn, heq⟩

/-- Writes that all succeed, into no records. -/
lemma stores_writeAll (hinj : Set.InjOn key {i | i < l.length}) (hall : ∀ i, succeeds i = true)
    (h : Stores key ([] : List α) m) :
    (writeAll key succeeds l m).1 = true ∧ Stores key l (writeAll key succeeds l m).2 := by
  induction l using List.reverseRecOn with
  | nil => exact ⟨rfl, h⟩
  | append_singleton l a ih =>
    have hlength : (l ++ [a]).length = l.length + 1 := by simp
    rw [hlength] at hinj
    obtain ⟨hfst, hsnd⟩ := ih fun i hi j hj heq =>
      hinj (Nat.lt_succ_of_lt hi) (Nat.lt_succ_of_lt hj) heq
    rw [writeAll, List.zipIdx_append, List.foldl_append, ← writeAll, List.zipIdx_singleton,
      List.foldl_cons, List.foldl_nil, hfst, hall, if_pos rfl]
    refine ⟨rfl, fun k v => ?_⟩
    rw [MapLoop.getElem?_insert_eq, Nat.zero_add]
    by_cases hk : key l.length = k
    · subst hk
      rw [if_pos rfl]
      constructor
      · intro hv
        cases hv
        exact ⟨l.length, by simp, rfl⟩
      · rintro ⟨i, hi, heq⟩
        have hlt := (List.getElem?_eq_some_iff.mp hi).1
        rw [hlength] at hlt
        obtain rfl := hinj hlt (Nat.lt_succ_self l.length) heq
        simpa using hi
    · rw [if_neg hk, hsnd k v]
      refine exists_congr fun i => and_congr_left fun heq => ?_
      rw [List.getElem?_append]
      split_ifs with hi
      · rfl
      · rcases Nat.eq_or_lt_of_le (not_lt.mp hi) with rfl | hlt
        · exact absurd heq hk
        · rw [List.getElem?_eq_none (not_lt.mp hi), List.getElem?_eq_none]
          rw [List.length_singleton]
          omega

/-- The records are read in the order of the list, if that is the order of the keys. -/
lemma map_snd_toList_of_stores (hmono : StrictMonoOn key {i | i < l.length})
    (h : Stores key l m) : m.toList.map Prod.snd = l := by
  have hitems : m.toList = l.zipIdx.map fun a => (key a.2, a.1) := by
    have hsorted : m.toList.Pairwise fun a b => a.1 < b.1 :=
      m.ordered_keys_toList.imp fun hlt => Nat.compare_eq_lt.mp hlt
    have hsorted' : (l.zipIdx.map fun a => (key a.2, a.1)).Pairwise fun a b => a.1 < b.1 := by
      rw [List.pairwise_map, List.pairwise_iff_getElem]
      intro i j hi hj hij
      rw [List.length_zipIdx] at hi hj
      rw [List.getElem_zipIdx, List.getElem_zipIdx, Nat.zero_add, Nat.zero_add]
      exact hmono hi hj hij
    refine List.Perm.eq_of_pairwise (fun a b _ _ hab hba => absurd hba hab.asymm) hsorted hsorted' ?_
    refine (List.perm_ext_iff_of_nodup (hsorted.imp ?_) (hsorted'.imp ?_)).mpr ?_
    · rintro a b hlt rfl
      exact lt_irrefl _ hlt
    · rintro a b hlt rfl
      exact lt_irrefl _ hlt
    · rintro ⟨k, v⟩
      rw [Std.ExtTreeMap.mem_toList_iff_getElem?_eq_some, h k v, List.mem_map]
      constructor
      · rintro ⟨i, hi, rfl⟩
        exact ⟨(v, i), List.mem_zipIdx_iff_getElem?.mpr hi, rfl⟩
      · rintro ⟨⟨v', i⟩, hmem, heq⟩
        cases heq
        exact ⟨i, List.mem_zipIdx_iff_getElem?.mp hmem, rfl⟩
  rw [hitems, List.map_map]
  exact List.zipIdx_map_fst 0 l

end NumberedRecords
