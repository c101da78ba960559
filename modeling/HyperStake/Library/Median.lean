import Mathlib.Data.List.Sort

/-!
# Medians

A value is a median of a list if fewer than half of the items are below it, and fewer than half are
above it.  A list has one median at most, and the item in the middle of a sorted list of odd length
is one.  The median is the least item exactly if this is more than half of the items.
-/

namespace Median

variable {α : Type*} [LinearOrder α] {l l' : List α} {v w : α}

/-- Fewer than half of the items are below the value, and fewer than half are above it. -/
structure IsMedian (v : α) (l : List α) : Prop where
  mem : v ∈ l
  below : 2 * l.countP (fun x => decide (x < v)) < l.length
  above : 2 * l.countP (fun x => decide (v < x)) < l.length

/-- The items that are below a value, equal to it, and above it. -/
lemma length_eq_add (v : α) (l : List α) : l.length =
    l.countP (fun x => decide (x < v)) + l.count v + l.countP (fun x => decide (v < x)) := by
  induction l with
  | nil => rfl
  | cons a l ih =>
    rw [List.length_cons, ih, List.countP_cons, List.countP_cons, List.count_cons]
    rcases lt_trichotomy a v with hlt | rfl | hgt
    · simp [hlt, hlt.ne, hlt.not_gt]
      omega
    · simp
      omega
    · simp [hgt, hgt.ne', hgt.not_gt]
      omega

namespace IsMedian

lemma of_perm (h : IsMedian v l) (hperm : l.Perm l') : IsMedian v l' where
  mem := hperm.mem_iff.mp h.mem
  below := by rw [← hperm.countP_eq, ← hperm.length_eq]; exact h.below
  above := by rw [← hperm.countP_eq, ← hperm.length_eq]; exact h.above

/-- One median is not below another one. -/
lemma not_lt (hv : IsMedian v l) (hw : IsMedian w l) : ¬ v < w := by
  intro hlt
  have hsplit := length_eq_add v l
  have habove := hv.above
  have hbelow := hw.below
  -- the items up to the lower one are below the higher one
  have hle : l.countP (fun x => decide (x < v)) + l.count v
      ≤ l.countP (fun x => decide (x < w)) := by
    clear hsplit habove hbelow hv hw
    induction l with
    | nil => rfl
    | cons a l ih =>
      rw [List.countP_cons, List.countP_cons, List.count_cons]
      rcases lt_trichotomy a v with ha | rfl | ha
      · simp [ha, ha.ne, ha.trans hlt]
        omega
      · simp [hlt]
        omega
      · simp [ha.not_gt, ha.ne']
        omega
  omega

/-- A list has one median at most. -/
lemma eq (hv : IsMedian v l) (hw : IsMedian w l) : v = w :=
  le_antisymm (le_of_not_gt (hw.not_lt hv)) (le_of_not_gt (hv.not_lt hw))

/-- The median is the least item exactly if this is more than half of the items. -/
lemma eq_least_iff (h : IsMedian v l) {b : α} (hleast : ∀ x ∈ l, b ≤ x) :
    v = b ↔ l.length < 2 * l.count b := by
  have hsplit := length_eq_add b l
  have hnone : l.countP (fun x => decide (x < b)) = 0 :=
    List.countP_eq_zero.mpr fun x hx => by simpa using hleast x hx
  constructor
  · rintro rfl
    have habove := h.above
    omega
  · intro hmany
    by_contra hne
    have hlt : b < v := lt_of_le_of_ne (hleast v h.mem) (Ne.symm hne)
    have hbelow := h.below
    have hcount : l.count b ≤ l.countP (fun x => decide (x < v)) := by
      rw [List.count]
      refine List.countP_mono_left fun x _ hx => ?_
      rw [beq_iff_eq.mp hx]
      exact decide_eq_true hlt
    omega

/-- The item in the middle of a sorted list of odd length. -/
lemma of_sorted (hsorted : l.Pairwise (· ≤ ·)) (hodd : l.length % 2 = 1)
    (hget : l[l.length / 2]? = some v) : IsMedian v l := by
  have hlt : l.length / 2 < l.length := by omega
  have hv : l[l.length / 2] = v := by
    rw [List.getElem?_eq_getElem hlt, Option.some.injEq] at hget
    exact hget
  have hsplit : l = l.take (l.length / 2) ++ v :: l.drop (l.length / 2 + 1) := by
    rw [← hv, List.getElem_cons_drop, List.take_append_drop]
  have hbefore : (l.take (l.length / 2)).length ≤ l.length / 2 := List.length_take_le _ _
  have hafter : (l.drop (l.length / 2 + 1)).length = l.length - (l.length / 2 + 1) :=
    List.length_drop
  generalize l.take (l.length / 2) = before at hsplit hbefore
  generalize l.drop (l.length / 2 + 1) = after at hsplit hafter
  rw [hsplit] at hsorted
  obtain ⟨-, hrest, hcross⟩ := List.pairwise_append.mp hsorted
  have hge := (List.pairwise_cons.mp hrest).1
  refine ⟨hsplit ▸ by simp, ?_, ?_⟩
  · have hzero : (v :: after).countP (fun x => decide (x < v)) = 0 := by
      refine List.countP_eq_zero.mpr fun x hx => ?_
      rcases List.mem_cons.mp hx with rfl | hx
      · simp
      · simpa using hge x hx
    have hcount : l.countP (fun x => decide (x < v)) ≤ before.length := by
      rw [hsplit, List.countP_append, hzero, Nat.add_zero]
      exact List.countP_le_length
    omega
  · have hzero : before.countP (fun x => decide (v < x)) = 0 := by
      refine List.countP_eq_zero.mpr fun x hx => ?_
      simpa using hcross x hx v List.mem_cons_self
    have hcount : l.countP (fun x => decide (v < x)) ≤ after.length := by
      rw [hsplit, List.countP_append, hzero, Nat.zero_add, List.countP_cons_of_neg (by simp)]
      exact List.countP_le_length
    omega

end IsMedian

end Median
