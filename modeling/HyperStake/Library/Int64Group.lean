import Mathlib.Algebra.BigOperators.Group.List.Basic
import Mathlib.Tactic.Abel

/-!
# The group of 64-bit integers

`Int64` with its wrapping addition is a commutative group, and a running sum is a sum in it.
-/

namespace Int64Group

scoped instance addCommGroupInt64 : AddCommGroup Int64 where
  add_assoc := Int64.add_assoc
  zero_add := Int64.zero_add
  add_zero := Int64.add_zero
  add_comm := Int64.add_comm
  neg_add_cancel := Int64.add_left_neg
  sub_eq_add_neg := Int64.sub_eq_add_neg
  nsmul := nsmulRec
  zsmul := zsmulRec

variable {α : Type*}

/-- A running sum is the sum of what is added. -/
lemma foldl_add_eq_sum (f : α → Int64) (items : List α) (n : Int64) :
    items.foldl (fun n a => n + f a) n = n + (items.map f).sum := by
  induction items generalizing n with
  | nil => exact (add_zero n).symm
  | cons a items ih => rw [List.foldl_cons, ih, List.map_cons, List.sum_cons, add_assoc]

lemma foldl_sub_eq_sum (f : α → Int64) (items : List α) (n : Int64) :
    items.foldl (fun n a => n - f a) n = n - (items.map f).sum := by
  induction items generalizing n with
  | nil => exact (sub_zero n).symm
  | cons a items ih => rw [List.foldl_cons, ih, List.map_cons, List.sum_cons, sub_sub]

/-- Two sums of the same terms over the same items. -/
lemma sum_eq_of_mem_iff {f : α → Int64} {items items' : List α} (hnodup : items.Nodup)
    (hnodup' : items'.Nodup) (h : ∀ a, a ∈ items ↔ a ∈ items') :
    (items.map f).sum = (items'.map f).sum :=
  (((List.perm_ext_iff_of_nodup hnodup hnodup').mpr h).map f).sum_eq

/-- The terms that are left out of a sum are zero. -/
lemma sum_filter {f : α → Int64} {p : α → Bool} (h : ∀ a, p a = false → f a = 0) (items : List α) :
    ((items.filter p).map f).sum = (items.map f).sum := by
  induction items with
  | nil => rfl
  | cons a items ih =>
    cases hp : p a with
    | true => rw [List.filter_cons_of_pos hp, List.map_cons, List.sum_cons, ih, List.map_cons,
        List.sum_cons]
    | false => rw [List.filter_cons_of_neg (by rw [hp]; decide), ih, List.map_cons, List.sum_cons,
        h a hp, zero_add]

/-- A sum of lists of terms. -/
lemma sum_flatMap {β : Type*} (f : β → Int64) (g : α → List β) (items : List α) :
    ((items.flatMap g).map f).sum = (items.map fun a => ((g a).map f).sum).sum := by
  induction items with
  | nil => rfl
  | cons a items ih =>
    rw [List.flatMap_cons, List.map_append, List.sum_append, ih, List.map_cons, List.sum_cons]

/-- Two sums one inside of the other. -/
lemma sum_comm {β : Type*} (f : α → β → Int64) (items : List α) (items' : List β) :
    (items.map fun a => (items'.map (f a)).sum).sum =
      (items'.map fun b => (items.map fun a => f a b).sum).sum := by
  induction items with
  | nil => simp
  | cons a items ih =>
    simp only [List.map_cons, List.sum_cons]
    rw [ih, ← List.sum_map_add]

/-- A term that occurs once. -/
lemma sum_ite_eq [DecidableEq α] {items : List α} (hnodup : items.Nodup) {a : α}
    (hmem : a ∈ items) (n : Int64) : (items.map fun b => if b = a then n else 0).sum = n := by
  induction items with
  | nil => exact absurd hmem List.not_mem_nil
  | cons b items ih =>
    obtain ⟨hb, hitems⟩ := List.nodup_cons.mp hnodup
    rw [List.map_cons, List.sum_cons]
    rcases List.mem_cons.mp hmem with rfl | hmem
    · have hzero : ∀ n' ∈ items.map fun b => if b = a then n else 0, n' = 0 := by
        intro n' hn'
        obtain ⟨c, hc, rfl⟩ := List.mem_map.mp hn'
        rw [if_neg]
        rintro rfl
        exact hb hc
      rw [if_pos rfl, List.sum_eq_zero hzero, add_zero]
    · have hne : b ≠ a := by
        rintro rfl
        exact hb hmem
      rw [if_neg hne, zero_add, ih hitems hmem]

end Int64Group
