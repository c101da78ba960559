import Mathlib.Data.Int.Basic
import Mathlib.Data.List.Nodup
import HyperStake.Library.MapLoop

/-!
# A pool of records with an index and a random order

Records are kept under numbers.  An index finds the number of a record by its key, and a list holds
the numbers in some order, each record knowing its position in it; so a record drawn at random is
found at once, and one that goes away is first swapped to the end of the list.

`Agrees` says that the three containers belong together.  Each way of changing them has one lemma.
-/

namespace IndexedPool

/-- How a record shows its key and its position. -/
structure Schema (β κ : Type*) where
  key : β → κ
  pos : β → ℤ

variable {β κ : Type*} {cmp : κ → κ → Ordering} [Std.TransCmp cmp]

/-- The index leads from the keys to the records, and the list from the positions. -/
structure Agrees (S : Schema β κ) (info : Std.ExtTreeMap ℕ β) (index : Std.ExtTreeMap κ ℕ cmp)
    (order : List ℕ) : Prop where
  index_iff : ∀ (k : κ) (n : ℕ), index[k]? = some n ↔ info[n]?.map S.key = some k
  order_iff : ∀ i n : ℕ, order[i]? = some n ↔ info[n]?.map S.pos = some (i : ℤ)
  pos_nonneg : ∀ (n : ℕ) (p : ℤ), info[n]?.map S.pos = some p → 0 ≤ p

variable {S : Schema β κ} {info info' : Std.ExtTreeMap ℕ β} {index : Std.ExtTreeMap κ ℕ cmp}
  {order : List ℕ} {n m i j : ℕ} {b c : β}

namespace Agrees

section

variable (h : Agrees S info index order)

include h

/-- Only the keys and the positions of the records matter. -/
lemma congr (hkey : ∀ n : ℕ, info'[n]?.map S.key = info[n]?.map S.key)
    (hpos : ∀ n : ℕ, info'[n]?.map S.pos = info[n]?.map S.pos) : Agrees S info' index order where
  index_iff k n := by rw [hkey]; exact h.index_iff k n
  order_iff i n := by rw [hpos]; exact h.order_iff i n
  pos_nonneg n p hp := h.pos_nonneg n p (by rwa [hpos] at hp)

/-- A record can change in everything but its key and its position. -/
lemma modify (n : ℕ) {f : β → β}
    (hkey : ∀ b, S.key (f b) = S.key b) (hpos : ∀ b, S.pos (f b) = S.pos b) :
    Agrees S (info.modify n f) index order :=
  h.congr (MapLoop.map_getElem?_modify hkey info n) (MapLoop.map_getElem?_modify hpos info n)

/-- A record is found under its key. -/
lemma index_eq (hn : info[n]? = some b) : index[S.key b]? = some n := by
  rw [h.index_iff, hn, Option.map_some]

/-- What is found under a key is a record with that key. -/
lemma exists_of_index_eq {k : κ} (hk : index[k]? = some n) : ∃ b, info[n]? = some b ∧ S.key b = k :=
  Option.map_eq_some_iff.mp ((h.index_iff k n).mp hk)

/-- The position of a record. -/
lemma exists_pos (hn : info[n]? = some b) : ∃ i : ℕ, S.pos b = i ∧ order[i]? = some n := by
  have hpos : info[n]?.map S.pos = some (S.pos b) := by rw [hn, Option.map_some]
  obtain ⟨i, hi⟩ := Int.eq_ofNat_of_zero_le (h.pos_nonneg n _ hpos)
  refine ⟨i, hi, (h.order_iff i n).mpr ?_⟩
  rw [hpos, hi]

/-- What is at a position is a record with that position. -/
lemma exists_of_order_eq (hi : order[i]? = some n) : ∃ b, info[n]? = some b ∧ S.pos b = i :=
  Option.map_eq_some_iff.mp ((h.order_iff i n).mp hi)

/-- The numbers in the list are those of the records. -/
lemma mem_order_iff : n ∈ order ↔ n ∈ info := by
  rw [List.mem_iff_getElem?, MapLoop.mem_iff]
  constructor
  · rintro ⟨i, hi⟩
    obtain ⟨b, hb, -⟩ := h.exists_of_order_eq hi
    exact ⟨b, hb⟩
  · rintro ⟨b, hb⟩
    obtain ⟨i, -, hi⟩ := h.exists_pos hb
    exact ⟨i, hi⟩

/-- Two positions of one number are the same. -/
lemma pos_unique (hi : order[i]? = some n) (hj : order[j]? = some n) : i = j := by
  have hij := ((h.order_iff i n).mp hi).symm.trans ((h.order_iff j n).mp hj)
  exact Int.ofNat_inj.mp (Option.some.inj hij)

/-- No number is in the list twice. -/
lemma nodup_order : order.Nodup := by
  rw [List.nodup_iff_injective_getElem]
  intro i j heq
  have hi : order[i.1]? = some order[i.1] := List.getElem?_eq_getElem i.2
  have hj : order[j.1]? = some order[i.1] := by
    rw [List.getElem?_eq_getElem j.2]
    exact congrArg some heq.symm
  exact Fin.ext (h.pos_unique hi hj)

/-- Two records have different keys. -/
lemma eq_of_key_eq (hn : info[n]? = some b)
    (hm : info[m]? = some c) (hkey : S.key b = S.key c) : n = m := by
  have hindex := h.index_eq hn
  rw [hkey, h.index_eq hm] at hindex
  exact (Option.some.inj hindex).symm

/-- Exchanging two positions of the list, and with them those of the records. -/
lemma swap (hi : order[i]? = some n) (hj : order[j]? = some m)
    (hkey : ∀ k : ℕ, info'[k]?.map S.key = info[k]?.map S.key)
    (hpos : ∀ k : ℕ, info'[k]?.map S.pos = if k = n then some (j : ℤ)
      else if k = m then some (i : ℤ) else info[k]?.map S.pos) :
    Agrees S info' index ((order.set i m).set j n) where
  index_iff k n := by rw [hkey]; exact h.index_iff k n
  order_iff p k := by
    have hlti := (List.getElem?_eq_some_iff.mp hi).1
    have hltj := (List.getElem?_eq_some_iff.mp hj).1
    have hlen : j < (order.set i m).length := by rwa [List.length_set]
    -- nothing but `n` is at `i`, and nothing but `m` at `j`
    have hatI : ∀ q, order[q]? = some n → q = i := fun q hq => h.pos_unique hq hi
    have hatJ : ∀ q, order[q]? = some m → q = j := fun q hq => h.pos_unique hq hj
    rw [hpos, List.getElem?_set, List.getElem?_set, if_pos hlen, if_pos hlti]
    by_cases hpj : j = p
    · subst hpj
      rw [if_pos rfl]
      by_cases hkn : k = n
      · simp only [hkn, if_true]
      rw [if_neg hkn]
      refine ⟨fun heq => absurd (Option.some.inj heq).symm hkn, fun heq => absurd ?_ hkn⟩
      by_cases hkm : k = m
      · rw [if_pos hkm] at heq
        have hij : i = j := Int.ofNat_inj.mp (Option.some.inj heq)
        rw [hij, hj] at hi
        exact hkm.trans (Option.some.inj hi)
      · rw [if_neg hkm, ← h.order_iff, hj] at heq
        exact absurd (Option.some.inj heq).symm hkm
    by_cases hpi : i = p
    · subst hpi
      rw [if_neg hpj, if_pos rfl]
      by_cases hkn : k = n
      · rw [if_pos hkn, hkn]
        refine ⟨fun heq => absurd ?_ hpj, fun heq => absurd ?_ hpj⟩
        · rw [← Option.some.inj heq] at hatI
          exact hatI j hj
        · exact Int.ofNat_inj.mp (Option.some.inj heq)
      by_cases hkm : k = m
      · simp only [hkm, if_true, hkm ▸ hkn, if_false]
      · rw [if_neg hkn, if_neg hkm, ← h.order_iff, hi]
        exact ⟨fun heq => absurd (Option.some.inj heq).symm hkm,
          fun heq => absurd (Option.some.inj heq).symm hkn⟩
    rw [if_neg hpj, if_neg hpi]
    by_cases hkn : k = n
    · rw [if_pos hkn, hkn]
      exact ⟨fun heq => absurd (hatI p heq).symm hpi,
        fun heq => absurd (Int.ofNat_inj.mp (Option.some.inj heq)) hpj⟩
    by_cases hkm : k = m
    · rw [if_neg hkn, if_pos hkm, hkm]
      exact ⟨fun heq => absurd (hatJ p heq).symm hpj,
        fun heq => absurd (Int.ofNat_inj.mp (Option.some.inj heq)) hpi⟩
    · rw [if_neg hkn, if_neg hkm]
      exact h.order_iff p k
  pos_nonneg k p hp := by
    rw [hpos] at hp
    split at hp
    · cases hp
      exact Int.natCast_nonneg j
    split at hp
    · cases hp
      exact Int.natCast_nonneg i
    exact h.pos_nonneg k p hp

/-- A new record at the end of the list. -/
lemma insert [Std.LawfulEqCmp cmp]
    (hnew : info[n]? = none) (hkey : index[S.key b]? = none) (hpos : S.pos b = order.length) :
    Agrees S (info.insert n b) (index.insert (S.key b) n) (order ++ [n]) where
  index_iff k m := by
    classical
    rw [MapLoop.getElem?_insert_eq, MapLoop.getElem?_insert_eq]
    by_cases hm : n = m
    · subst hm
      by_cases hk : S.key b = k
      · simp [hk]
      · simp only [hk, if_false, if_true, Option.map_some, Option.some.injEq, iff_false]
        intro hind
        obtain ⟨c, hc, -⟩ := h.exists_of_index_eq hind
        rw [hnew] at hc
        cases hc
    · by_cases hk : S.key b = k
      · subst hk
        simp only [if_true, Option.some.injEq, hm, if_false, false_iff]
        intro hmap
        rw [(h.index_iff (S.key b) m).mpr hmap] at hkey
        cases hkey
      · simp only [hk, hm, if_false]
        exact h.index_iff k m
  order_iff i m := by
    rw [MapLoop.getElem?_insert_eq]
    by_cases hm : n = m
    · subst hm
      rw [if_pos rfl, Option.map_some, hpos]
      refine ⟨fun hi => ?_, fun hi => ?_⟩
      · rcases Nat.lt_or_ge i order.length with hlt | hge
        · rw [List.getElem?_append_left hlt, h.order_iff, hnew] at hi
          cases hi
        · have hbound := (List.getElem?_eq_some_iff.mp hi).1
          rw [List.length_append, List.length_singleton] at hbound
          rw [show i = order.length by omega]
      · have hlen : order.length = i := Int.ofNat_inj.mp (Option.some.inj hi)
        rw [← hlen, List.getElem?_concat_length]
    · rw [if_neg hm, ← h.order_iff]
      rcases Nat.lt_or_ge i order.length with hlt | hge
      · rw [List.getElem?_append_left hlt]
      · rw [List.getElem?_append_right hge, List.getElem?_eq_none hge]
        refine ⟨fun hi => absurd ?_ hm, fun hi => by cases hi⟩
        exact List.mem_singleton.mp (List.mem_of_getElem? hi) |>.symm
  pos_nonneg m p hp := by
    rw [MapLoop.getElem?_insert_eq] at hp
    split at hp
    · rw [Option.map_some, hpos] at hp
      cases hp
      exact Int.natCast_nonneg _
    · exact h.pos_nonneg m p hp

/-- The record at the end of the list goes away. -/
lemma removeLast [Std.LawfulEqCmp cmp]
    (hn : info[n]? = some b) (hlast : order[order.length - 1]? = some n) :
    Agrees S (info.erase n) (index.erase (S.key b)) order.dropLast where
  index_iff k m := by
    classical
    rw [MapLoop.getElem?_erase_eq, MapLoop.getElem?_erase_eq]
    by_cases hk : S.key b = k
    · subst hk
      rw [if_pos rfl]
      refine ⟨fun hi => (by cases hi), fun hm => ?_⟩
      split at hm
      · cases hm
      · next hne =>
        obtain ⟨c, hc, hkey⟩ := Option.map_eq_some_iff.mp hm
        exact absurd (h.eq_of_key_eq hn hc hkey.symm) hne
    · rw [if_neg hk]
      split
      · next heq =>
        subst heq
        rw [h.index_iff, hn, Option.map_some, Option.some.injEq]
        simp [hk]
      · exact h.index_iff k m
  order_iff i m := by
    rw [MapLoop.getElem?_erase_eq, List.getElem?_dropLast]
    split
    · next hlt =>
      split
      · next heq =>
        subst heq
        refine ⟨fun hi => absurd (h.pos_unique hi hlast) (Nat.ne_of_lt hlt), fun hi => by cases hi⟩
      · exact h.order_iff i m
    · next hge =>
      refine ⟨fun hi => (by cases hi), fun hm => ?_⟩
      split at hm
      · cases hm
      · next hne =>
        have hi := (h.order_iff i m).mpr hm
        have hbound := (List.getElem?_eq_some_iff.mp hi).1
        rw [show i = order.length - 1 by omega, hlast] at hi
        exact absurd (Option.some.inj hi) hne
  pos_nonneg m p hp := by
    rw [MapLoop.getElem?_erase_eq] at hp
    split at hp
    · cases hp
    · exact h.pos_nonneg m p hp

end

end Agrees

end IndexedPool
