import HyperStake.Library.MapLoop

/-!
# Maps of records with slots

A map whose records have numbered slots, reached through a lens, and the operation that writes a
value to one slot of one record.  Writes to different slots commute, the last of two writes to one
slot wins, and writing the value that a slot has changes nothing.
-/

namespace SlotMap

open Std

/-- A lens that reaches the slots of a record. -/
structure Lens (β σ : Type*) where
  slots : β → List σ
  put : β → List σ → β
  slots_put : ∀ b s, slots (put b s) = s
  put_slots : ∀ b, put b (slots b) = b
  put_put : ∀ b s s', put (put b s) s' = put b s'

variable {κ β σ : Type*} {cmp : κ → κ → Ordering} [TransCmp cmp]

/-- Write a value to a slot of the record under a key, if there is one. -/
def write (L : Lens β σ) (m : ExtTreeMap κ β cmp) (k : κ) (n : ℕ) (v : σ) :
    ExtTreeMap κ β cmp :=
  m.modify k fun b => L.put b ((L.slots b).set n v)

/-- The value of a slot of the record under a key. -/
def slot (L : Lens β σ) (m : ExtTreeMap κ β cmp) (k : κ) (n : ℕ) : Option σ :=
  m[k]?.bind fun b => (L.slots b)[n]?

variable {L : Lens β σ} {m : ExtTreeMap κ β cmp} {k k' : κ} {n n' : ℕ} {v v' : σ}

lemma slot_eq_some : slot L m k n = some v ↔ ∃ b, m[k]? = some b ∧ (L.slots b)[n]? = some v :=
  Option.bind_eq_some_iff

variable [LawfulEqCmp cmp]

lemma getElem?_write_self : (write L m k n v)[k]? =
    m[k]?.map fun b => L.put b ((L.slots b).set n v) := by
  rw [write, ExtTreeMap.getElem?_modify, if_pos ReflCmp.compare_self]

lemma getElem?_write_of_ne (h : k ≠ k') : (write L m k n v)[k']? = m[k']? :=
  MapLoop.getElem?_modify_of_ne m _ h

/-- A write to a slot of a record that is there inserts the new record. -/
lemma write_eq_insert {b : β} (h : m[k]? = some b) :
    write L m k n v = m.insert k (L.put b ((L.slots b).set n v)) := by
  refine ExtTreeMap.ext_getElem? fun key => ?_
  by_cases hkey : k = key
  · subst hkey
    rw [getElem?_write_self, h, ExtTreeMap.getElem?_insert_self]
    rfl
  · have hcmp : ¬ cmp k key = .eq := fun heq => hkey (LawfulEqCmp.eq_of_compare heq)
    rw [getElem?_write_of_ne hkey, ExtTreeMap.getElem?_insert, if_neg hcmp]

/-- Writing to a slot keeps the keys. -/
lemma mem_write : k' ∈ write L m k n v ↔ k' ∈ m := by
  rw [ExtTreeMap.mem_iff_isSome_getElem?, ExtTreeMap.mem_iff_isSome_getElem?]
  by_cases h : k = k'
  · subst h
    rw [getElem?_write_self, Option.isSome_map]
  · rw [getElem?_write_of_ne h]

/-- What a slot has after a write to a slot. -/
lemma slot_write [DecidableEq κ] : slot L (write L m k n v) k' n' =
    if k = k' ∧ n = n' then (slot L m k n).map fun _ => v else slot L m k' n' := by
  by_cases hk : k = k'
  · subst hk
    rw [slot, getElem?_write_self, slot, slot]
    cases m[k]? with
    | none => simp
    | some b =>
      simp only [Option.map_some, Option.bind_some, L.slots_put, List.getElem?_set, true_and]
      by_cases hn : n = n'
      · subst hn
        by_cases hlt : n < (L.slots b).length
        · simp [hlt]
        · simp [hlt]
      · simp [hn]
  · rw [slot, getElem?_write_of_ne hk, if_neg fun h => hk h.1]
    rfl

/-- A write keeps the slots that are there. -/
lemma isSome_slot_write : (slot L (write L m k n v) k' n').isSome = (slot L m k' n').isSome := by
  classical
  rw [slot_write]
  split_ifs with h
  · obtain ⟨rfl, rfl⟩ := h
    rw [Option.isSome_map]
  · rfl

/-- What a slot has after a record is inserted. -/
lemma slot_insert [DecidableEq κ] {b : β} : slot L (m.insert k b) k' n =
    if k = k' then (L.slots b)[n]? else slot L m k' n := by
  rw [slot, MapLoop.getElem?_insert_eq]
  split_ifs <;> rfl

/-- Writes to different slots commute. -/
lemma write_comm (h : ¬ (k = k' ∧ n = n')) :
    write L (write L m k n v) k' n' v' = write L (write L m k' n' v') k n v := by
  refine ExtTreeMap.ext_getElem? fun key => ?_
  by_cases hk : k = k'
  · subst hk
    have hn : n ≠ n' := fun hn => h ⟨rfl, hn⟩
    by_cases hkey : k = key
    · subst hkey
      simp only [getElem?_write_self, Option.map_map]
      congr 1
      funext b
      simp only [Function.comp_apply, L.slots_put, L.put_put]
      rw [List.set_comm _ _ hn]
    · simp only [getElem?_write_of_ne hkey]
  · by_cases hkey : k = key
    · subst hkey
      rw [getElem?_write_of_ne (Ne.symm hk), getElem?_write_self, getElem?_write_self,
        getElem?_write_of_ne (Ne.symm hk)]
    · rw [getElem?_write_of_ne hkey]
      by_cases hkey' : k' = key
      · subst hkey'
        rw [getElem?_write_self, getElem?_write_self, getElem?_write_of_ne hkey]
      · rw [getElem?_write_of_ne hkey', getElem?_write_of_ne hkey', getElem?_write_of_ne hkey]

/-- A record under another key can be added before or after a write. -/
lemma write_insert {b : β} (h : k ≠ k') :
    write L (m.insert k' b) k n v = (write L m k n v).insert k' b := by
  refine ExtTreeMap.ext_getElem? fun key => ?_
  by_cases hkey : k = key
  · subst hkey
    have hcmp : ¬ cmp k' k = .eq := fun heq => h (LawfulEqCmp.eq_of_compare heq).symm
    rw [getElem?_write_self, ExtTreeMap.getElem?_insert, if_neg hcmp,
      ExtTreeMap.getElem?_insert, if_neg hcmp, getElem?_write_self]
  · rw [getElem?_write_of_ne hkey, ExtTreeMap.getElem?_insert, ExtTreeMap.getElem?_insert,
      getElem?_write_of_ne hkey]

/-- The last of two writes to one slot wins. -/
lemma write_write : write L (write L m k n v) k n v' = write L m k n v' := by
  refine ExtTreeMap.ext_getElem? fun key => ?_
  by_cases hkey : k = key
  · subst hkey
    simp only [getElem?_write_self, Option.map_map]
    congr 1
    funext b
    simp only [Function.comp_apply, L.slots_put, L.put_put, List.set_set]
  · simp only [getElem?_write_of_ne hkey]

/-- Writing the value that a slot has changes nothing. -/
lemma write_self (h : slot L m k n = some v) : write L m k n v = m := by
  obtain ⟨b, hb, hn⟩ := slot_eq_some.mp h
  refine ExtTreeMap.ext_getElem? fun key => ?_
  by_cases hkey : k = key
  · subst hkey
    have hset : (L.slots b).set n v = L.slots b := by
      refine List.ext_getElem? fun i => ?_
      rw [List.getElem?_set]
      split_ifs with hi hlt
      · rw [← hi, hn]
      · rw [← hi, List.getElem?_eq_none (Nat.not_lt.mp hlt)]
      · rfl
    rw [getElem?_write_self, hb, Option.map_some, hset, L.put_slots]
  · rw [getElem?_write_of_ne hkey]

end SlotMap
