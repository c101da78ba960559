import Mathlib.Data.List.Nodup
import Mathlib.Data.List.Perm.Basic
import Mathlib.Data.Nat.Basic
import Mathlib.Order.CompletePartialOrder

/-!
# Drawing a sample from a list

Round after round, the next item of a list is exchanged with one that is drawn from those not seen
yet (`shuffle`).  The items that have been drawn are then the first ones, in the order of their
rounds, and stay there (`getElem?_shuffle_of_lt`).  In particular an item that has been drawn is at
the position with the number of its round afterwards, and not at the one that it was drawn from.

Of the drawn items the first one with the least rank can be remembered round by round
(`FirstLeast.succ`).
-/

namespace Sampling

variable {α β : Type*}

/-- Two items are exchanged. -/
def exchange (l : List α) (i p : ℕ) : List α :=
  match l[p]?, l[i]? with
  | some a, some b => (l.set p b).set i a
  | _, _ => l

/-- The list after some rounds, for the positions that are drawn. -/
def shuffle (pos : ℕ → ℕ) (l : List α) : ℕ → List α
  | 0 => l
  | k + 1 => exchange (shuffle pos l k) k (pos k)

/-- The item that is drawn in a round. -/
def drawn (pos : ℕ → ℕ) (l : List α) (k : ℕ) : Option α := (shuffle pos l k)[pos k]?

variable {l : List α} {i j k m p : ℕ} {pos : ℕ → ℕ}

section

variable (hp : p < l.length) (hi : i < l.length)

include hp hi

lemma exchange_eq : exchange l i p = (l.set p l[i]).set i l[p] := by
  rw [exchange, List.getElem?_eq_getElem hp, List.getElem?_eq_getElem hi]

lemma exchange_perm : (exchange l i p).Perm l := by
  rw [exchange_eq hp hi]
  exact List.set_set_perm hp hi

lemma getElem?_exchange (j : ℕ) :
    (exchange l i p)[j]? = if j = i then l[p]? else if j = p then l[i]? else l[j]? := by
  rw [exchange_eq hp hi]
  by_cases hji : j = i
  · subst hji
    rw [if_pos rfl, List.getElem?_set_self (by rwa [List.length_set]), List.getElem?_eq_getElem hp]
  · rw [if_neg hji, List.getElem?_set_ne (Ne.symm hji)]
    by_cases hjp : j = p
    · subst hjp
      rw [if_pos rfl, List.getElem?_set_self hp, List.getElem?_eq_getElem hi]
    · rw [if_neg hjp, List.getElem?_set_ne (Ne.symm hjp)]

end

/-- The positions that are drawn in the first rounds are among those not seen yet. -/
def Draws (pos : ℕ → ℕ) (l : List α) (m : ℕ) : Prop := ∀ i < m, i ≤ pos i ∧ pos i < l.length

section

variable (h : Draws pos l m)

include h

lemma shuffle_perm (hk : k ≤ m) : (shuffle pos l k).Perm l := by
  induction k with
  | zero => exact .refl l
  | succ k ih =>
    have hperm := ih (by omega)
    obtain ⟨hle, hlt⟩ := h k hk
    rw [← hperm.length_eq] at hlt
    exact (exchange_perm hlt (hle.trans_lt hlt)).trans hperm

/-- Where the items are after a round. -/
lemma getElem?_shuffle_succ (hk : k < m) (j : ℕ) :
    (shuffle pos l (k + 1))[j]? = if j = k then drawn pos l k
      else if j = pos k then (shuffle pos l k)[k]? else (shuffle pos l k)[j]? := by
  obtain ⟨hle, hlt⟩ := h k hk
  rw [← (shuffle_perm h hk.le).length_eq] at hlt
  exact getElem?_exchange hlt (hle.trans_lt hlt) j

/-- The item that has been drawn in a round stays at the position with the number of the round. -/
lemma getElem?_shuffle_of_lt (hj : j < k) (hk : k ≤ m) : (shuffle pos l k)[j]? = drawn pos l j := by
  induction k with
  | zero => omega
  | succ k ih =>
    rw [getElem?_shuffle_succ h hk]
    by_cases hjk : j = k
    · rw [if_pos hjk, hjk]
    · have hle := (h k hk).1
      rw [if_neg hjk, if_neg (by omega)]
      exact ih (by omega) (by omega)

lemma drawn_eq_some (hk : k < m) : ∃ a ∈ l, drawn pos l k = some a := by
  have hperm := shuffle_perm h hk.le
  have hlt := (h k hk).2
  rw [← hperm.length_eq] at hlt
  exact ⟨_, hperm.mem_iff.mp (List.getElem_mem hlt), List.getElem?_eq_getElem hlt⟩

/-- In a list without repetitions, what is at a position in the end has been drawn exactly if the
position is the number of a round. -/
lemma exists_drawn_eq_iff (hnodup : l.Nodup) {a : α} (ha : (shuffle pos l m)[p]? = some a) :
    (∃ i < m, drawn pos l i = some a) ↔ p < m := by
  constructor
  · rintro ⟨i, hi, hdrawn⟩
    rw [← getElem?_shuffle_of_lt h hi le_rfl] at hdrawn
    have hlt := (List.getElem?_eq_some_iff.mp ha).1
    have hsame := (List.getElem?_inj hlt ((shuffle_perm h le_rfl).nodup_iff.mpr hnodup)).mp
      (ha.trans hdrawn.symm)
    rwa [hsame]
  · intro hp
    exact ⟨p, hp, (getElem?_shuffle_of_lt h hp le_rfl).symm.trans ha⟩

end

/-! ## The least rank -/

/-- Of some rounds, this is the first one with the least rank. -/
structure FirstLeast [LinearOrder β] (rank : ℕ → β) (k j : ℕ) : Prop where
  lt : j < k
  le : ∀ i < k, rank j ≤ rank i
  first : ∀ i < j, rank j < rank i

variable [LinearOrder β] {rank : ℕ → β}

namespace FirstLeast

lemma one : FirstLeast rank 1 0 where
  lt := Nat.one_pos
  le i hi := by rw [Nat.lt_one_iff.mp hi]
  first i hi := absurd hi (Nat.not_lt_zero i)

/-- One more round. -/
lemma succ (h : FirstLeast rank k j) :
    FirstLeast rank (k + 1) (if rank k < rank j then k else j) := by
  split_ifs with hlt
  · refine ⟨Nat.lt_succ_self k, fun i hi => ?_, fun i hi => hlt.trans_le (h.le i hi)⟩
    rcases Nat.lt_succ_iff_lt_or_eq.mp hi with hi | rfl
    · exact hlt.le.trans (h.le i hi)
    · exact le_rfl
  · refine ⟨h.lt.trans (Nat.lt_succ_self k), fun i hi => ?_, h.first⟩
    rcases Nat.lt_succ_iff_lt_or_eq.mp hi with hi | rfl
    · exact h.le i hi
    · exact not_lt.mp hlt

lemma unique {j' : ℕ} (h : FirstLeast rank k j) (h' : FirstLeast rank k j') : j = j' := by
  rcases lt_trichotomy j j' with hlt | heq | hlt
  · exact absurd (h'.first j hlt) (not_lt.mpr (h.le j' h'.lt))
  · exact heq
  · exact absurd (h.first j' hlt) (not_lt.mpr (h'.le j h.lt))

end FirstLeast

end Sampling
