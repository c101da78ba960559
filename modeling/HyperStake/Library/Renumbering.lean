import Mathlib.Algebra.Order.Group.Int
import Mathlib.Data.List.Count
import Mathlib.Logic.Function.Basic
import Mathlib.Order.Lattice
import Mathlib.Tactic.Push

/-!
# Numbering items some of which have numbers

Items are visited in some order.  One without a number gets the next one, which is remembered, and one
with a number is shifted by the count of the remembered numbers that are not above its own (`visit`).

At every moment the next number is above all others, and the items with numbers are shifted by the
count over all that is remembered by then, so that their order is kept (`Numbered.shift_lt_shift`).
But a shifted number may be one that is remembered, because its own number, and not the shifted one,
is compared: the numbers are distinct exactly when no visit comes upon this (`Numbered.distinct_iff`,
`clear_visit_iff`).
-/

namespace Renumbering

variable {ι : Type*}

/-- The next number, the numbers that have been remembered, and the number of each item. -/
structure Numbering (ι : Type*) where
  next : ℤ := 0
  offsets : List ℤ := []
  pos : ι → ℤ

/-- A number, shifted by the count of the remembered ones that are not above it. -/
def shift (offsets : List ℤ) (p : ℤ) : ℤ := p + offsets.countP fun o => decide (o ≤ p)

/-- What holds when some items have been visited. -/
structure Numbered (number : ι → Option ℤ) (visited : List ι) (n : Numbering ι) : Prop where
  length_le : (n.offsets.length : ℤ) ≤ n.next
  pos_lt_next : ∀ i ∈ visited, n.pos i < n.next
  pos_of_some : ∀ i ∈ visited, ∀ p, number i = some p → n.pos i = shift n.offsets p
  mem_offsets : ∀ o, o ∈ n.offsets ↔ ∃ i ∈ visited, number i = none ∧ n.pos i = o
  eq_of_pos_eq : ∀ i ∈ visited, ∀ j ∈ visited, number i = none → number j = none →
    n.pos i = n.pos j → i = j

/-- No number is shifted to one that is remembered. -/
def Clear (number : ι → Option ℤ) (visited : List ι) (n : Numbering ι) : Prop :=
  ∀ i ∈ visited, ∀ p, number i = some p → shift n.offsets p ∉ n.offsets

variable {number : ι → Option ℤ} {visited : List ι} {n : Numbering ι} {offsets : List ℤ} {p q : ℤ}

lemma le_shift : p ≤ shift offsets p := by
  rw [shift]
  omega

/-- The shifts keep the order. -/
lemma shift_lt_shift (h : p < q) : shift offsets p < shift offsets q := by
  have hcount : offsets.countP (fun o => decide (o ≤ p)) ≤
      offsets.countP (fun o => decide (o ≤ q)) := by
    apply List.countP_mono_left
    intro o _ ho
    rw [decide_eq_true_eq] at ho ⊢
    exact ho.trans h.le
  rw [shift, shift]
  omega

namespace Numbered

lemma start (pos : ι → ℤ) : Numbered number [] { pos } where
  length_le := le_rfl
  pos_lt_next _ hi := absurd hi List.not_mem_nil
  pos_of_some _ hi := absurd hi List.not_mem_nil
  mem_offsets o := by simp
  eq_of_pos_eq _ hi := absurd hi List.not_mem_nil

/-- The items with numbers keep their order. -/
lemma pos_lt_pos (h : Numbered number visited n) {i j : ι} (hi : i ∈ visited) (hj : j ∈ visited)
    (hp : number i = some p) (hq : number j = some q) (hlt : p < q) : n.pos i < n.pos j := by
  rw [h.pos_of_some i hi p hp, h.pos_of_some j hj q hq]
  exact shift_lt_shift hlt

/-- The numbers are distinct exactly when everything is clear, if those at the start are. -/
lemma distinct_iff (h : Numbered number visited n)
    (hnumber : ∀ i ∈ visited, ∀ j ∈ visited, ∀ p, number i = some p → number j = some p → i = j) :
    (∀ i ∈ visited, ∀ j ∈ visited, n.pos i = n.pos j → i = j) ↔ Clear number visited n := by
  constructor
  · intro hdistinct i hi p hp hmem
    obtain ⟨j, hj, hnone, hpos⟩ := (h.mem_offsets _).mp hmem
    rw [← h.pos_of_some i hi p hp] at hpos
    rw [hdistinct j hj i hi hpos, hp] at hnone
    cases hnone
  · -- an item with a number does not share its place with one without
    have hmixed : Clear number visited n → ∀ i ∈ visited, ∀ j ∈ visited, ∀ p, number i = some p →
        number j = none → n.pos i ≠ n.pos j := by
      intro hclear i hi j hj p hp hnone hpos
      refine hclear i hi p hp ((h.mem_offsets _).mpr ⟨j, hj, hnone, ?_⟩)
      rw [← hpos, h.pos_of_some i hi p hp]
    intro hclear i hi j hj hpos
    cases hp : number i with
    | none =>
      cases hq : number j with
      | none => exact h.eq_of_pos_eq i hi j hj hp hq hpos
      | some q => exact absurd hpos.symm (hmixed hclear j hj i hi q hq hp)
    | some p =>
      cases hq : number j with
      | none => exact absurd hpos (hmixed hclear i hi j hj p hp hq)
      | some q =>
        rcases lt_trichotomy p q with hlt | rfl | hlt
        · exact absurd hpos (h.pos_lt_pos hi hj hp hq hlt).ne
        · exact hnumber i hi j hj p hp hq
        · exact absurd hpos.symm (h.pos_lt_pos hj hi hq hp hlt).ne

end Numbered

/-! ## A visit -/

variable [DecidableEq ι]

/-- An item is visited. -/
def visit (number : ι → Option ℤ) (n : Numbering ι) (i : ι) : Numbering ι :=
  match number i with
  | none =>
    { next := n.next + 1
      offsets := n.offsets ++ [n.next]
      pos := Function.update n.pos i n.next }
  | some p =>
    { n with
      next := max n.next (shift n.offsets p + 1)
      pos := Function.update n.pos i (shift n.offsets p) }

/-- What is remembered above a number does not shift it. -/
lemma shift_concat_of_lt {o : ℤ} (h : p < o) : shift (offsets ++ [o]) p = shift offsets p := by
  have hnot : decide (o ≤ p) = false := decide_eq_false (not_le.mpr h)
  rw [shift, shift, List.countP_append, List.countP_singleton, hnot, if_neg Bool.false_ne_true,
    Nat.add_zero]

namespace Numbered

section

variable (h : Numbered number visited n)

include h

/-- An item without a number is visited. -/
lemma visit_of_none {i : ι} (hi : i ∉ visited)
    (hnone : number i = none) : Numbered number (visited ++ [i]) (visit number n i) := by
  have hvisit : visit number n i =
      { next := n.next + 1
        offsets := n.offsets ++ [n.next]
        pos := Function.update n.pos i n.next } := by
    rw [visit, hnone]
  have hself : Function.update n.pos i n.next i = n.next := Function.update_self ..
  have hother : ∀ j ∈ visited, Function.update n.pos i n.next j = n.pos j :=
    fun j hj => Function.update_of_ne (ne_of_mem_of_not_mem hj hi) ..
  rw [hvisit]
  refine ⟨?_, ?_, ?_, ?_, ?_⟩
  · have hlength := h.length_le
    simp only [List.length_append, List.length_singleton]
    omega
  · intro j hj
    rcases List.mem_append.mp hj with hj | hj
    · have hlt := h.pos_lt_next j hj
      simp only [hother j hj]
      omega
    · rw [List.mem_singleton.mp hj]
      simp only [hself]
      omega
  · intro j hj p hp
    rcases List.mem_append.mp hj with hj | hj
    · -- the new number is above the shifted one, and that is not below the item's own
      have hpos := h.pos_of_some j hj p hp
      have hlt : p < n.next := le_shift.trans_lt (hpos ▸ h.pos_lt_next j hj)
      simp only [hother j hj]
      rw [hpos, shift_concat_of_lt hlt]
    · rw [List.mem_singleton.mp hj, hnone] at hp
      cases hp
  · intro o
    simp only [List.mem_append, List.mem_singleton, h.mem_offsets]
    constructor
    · rintro (⟨j, hj, hj', rfl⟩ | rfl)
      · exact ⟨j, .inl hj, hj', hother j hj⟩
      · exact ⟨i, .inr rfl, hnone, hself⟩
    · rintro ⟨j, hj | rfl, hj', rfl⟩
      · exact .inl ⟨j, hj, hj', (hother j hj).symm⟩
      · exact .inr hself
  · intro j hj k hk hj' hk' hpos
    rcases List.mem_append.mp hj with hj | hj <;> rcases List.mem_append.mp hk with hk | hk
    · simp only [hother j hj, hother k hk] at hpos
      exact h.eq_of_pos_eq j hj k hk hj' hk' hpos
    · rw [List.mem_singleton.mp hk] at hpos
      simp only [hother j hj, hself] at hpos
      exact absurd hpos (h.pos_lt_next j hj).ne
    · rw [List.mem_singleton.mp hj] at hpos
      simp only [hother k hk, hself] at hpos
      exact absurd hpos.symm (h.pos_lt_next k hk).ne
    · rw [List.mem_singleton.mp hj, List.mem_singleton.mp hk]

/-- An item with a number is visited. -/
lemma visit_of_some {i : ι} (hi : i ∉ visited)
    (hsome : number i = some p) : Numbered number (visited ++ [i]) (visit number n i) := by
  have hvisit : visit number n i =
      { n with
        next := max n.next (shift n.offsets p + 1)
        pos := Function.update n.pos i (shift n.offsets p) } := by
    rw [visit, hsome]
  have hself : Function.update n.pos i (shift n.offsets p) i = shift n.offsets p :=
    Function.update_self ..
  have hother : ∀ j ∈ visited, Function.update n.pos i (shift n.offsets p) j = n.pos j :=
    fun j hj => Function.update_of_ne (ne_of_mem_of_not_mem hj hi) ..
  -- the item itself is none of those without a number
  have hnone : ∀ j ∈ visited ++ [i], number j = none → j ∈ visited := by
    intro j hj hj'
    rcases List.mem_append.mp hj with hj | hj
    · exact hj
    · rw [List.mem_singleton.mp hj, hsome] at hj'
      cases hj'
  rw [hvisit]
  refine ⟨h.length_le.trans (le_max_left ..), ?_, ?_, ?_, ?_⟩
  · intro j hj
    rcases List.mem_append.mp hj with hj | hj
    · simp only [hother j hj]
      exact (h.pos_lt_next j hj).trans_le (le_max_left ..)
    · rw [List.mem_singleton.mp hj]
      simp only [hself]
      exact (Int.lt_succ _).trans_le (le_max_right ..)
  · intro j hj q hq
    rcases List.mem_append.mp hj with hj | hj
    · simp only [hother j hj]
      exact h.pos_of_some j hj q hq
    · rw [List.mem_singleton.mp hj] at hq ⊢
      rw [hsome, Option.some.injEq] at hq
      rw [← hq]
      exact hself
  · intro o
    rw [h.mem_offsets]
    constructor
    · rintro ⟨j, hj, hj', rfl⟩
      exact ⟨j, List.mem_append_left _ hj, hj', hother j hj⟩
    · rintro ⟨j, hj, hj', rfl⟩
      exact ⟨j, hnone j hj hj', hj', (hother j (hnone j hj hj')).symm⟩
  · intro j hj k hk hj' hk' hpos
    have hj := hnone j hj hj'
    have hk := hnone k hk hk'
    simp only [hother j hj, hother k hk] at hpos
    exact h.eq_of_pos_eq j hj k hk hj' hk' hpos

/-- Another item is visited. -/
lemma visit {i : ι} (hi : i ∉ visited) : Numbered number (visited ++ [i]) (visit number n i) := by
  cases hnumber : number i with
  | none => exact h.visit_of_none hi hnumber
  | some p => exact h.visit_of_some hi hnumber

/-- A visit leaves everything clear if it does not shift a number to one that is remembered. -/
lemma clear_visit_iff {i : ι} :
    Clear number (visited ++ [i]) (Renumbering.visit number n i) ↔
      Clear number visited n ∧ ∀ p, number i = some p → shift n.offsets p ∉ n.offsets := by
  cases hnumber : number i with
  | none =>
    have hoffsets : (Renumbering.visit number n i).offsets = n.offsets ++ [n.next] := by
      rw [Renumbering.visit, hnumber]
    have hlt : ∀ j ∈ visited, ∀ p, number j = some p → shift n.offsets p < n.next :=
      fun j hj p hp => h.pos_of_some j hj p hp ▸ h.pos_lt_next j hj
    simp only [Clear, hoffsets, List.mem_append, List.mem_singleton]
    constructor
    · intro hclear
      refine ⟨fun j hj p hp hmem => ?_, fun p hp => (by cases hp)⟩
      have hnext := hlt j hj p hp
      rw [← shift_concat_of_lt (le_shift.trans_lt hnext)] at hmem
      exact hclear j (.inl hj) p hp (.inl hmem)
    · rintro ⟨hclear, -⟩ j hj p hp hmem
      rcases hj with hj | rfl
      · have hnext := hlt j hj p hp
        rw [shift_concat_of_lt (le_shift.trans_lt hnext)] at hmem
        exact hmem.elim (hclear j hj p hp) hnext.ne
      · rw [hnumber] at hp
        cases hp
  | some q =>
    have hoffsets : (Renumbering.visit number n i).offsets = n.offsets := by
      rw [Renumbering.visit, hnumber]
    simp only [Clear, hoffsets, List.mem_append, List.mem_singleton]
    constructor
    · intro hclear
      exact ⟨fun j hj => hclear j (.inl hj), fun p hp => hclear i (.inr rfl) p (hnumber.trans hp)⟩
    · rintro ⟨hclear, hi⟩ j (hj | rfl) p hp
      · exact hclear j hj p hp
      · exact hi p (hnumber.symm.trans hp)

end

end Numbered

end Renumbering
