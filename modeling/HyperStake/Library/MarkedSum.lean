import Mathlib.Algebra.BigOperators.Group.List.Basic
import Mathlib.Algebra.Order.BigOperators.Group.List
import Mathlib.Tactic.Linarith

/-!
# Sums of marked items

A list of integers and a list of marks of the same length: the sum of the integers that are marked,
and how it changes when a mark is set.
-/

namespace MarkedSum

/-- The sum of the values that are marked. -/
def markedSum (values : List ℤ) (marks : List Bool) : ℤ :=
  ((values.zip marks).map fun p => if p.2 then p.1 else 0).sum

@[simp] lemma markedSum_nil (marks : List Bool) : markedSum [] marks = 0 := by
  simp [markedSum]

@[simp] lemma markedSum_cons (v : ℤ) (values : List ℤ) (b : Bool) (marks : List Bool) :
    markedSum (v :: values) (b :: marks) = (if b then v else 0) + markedSum values marks := by
  simp [markedSum]

/-- With every mark set, the sum is the sum of all values. -/
lemma markedSum_replicate_true (values : List ℤ) :
    markedSum values (List.replicate values.length true) = values.sum := by
  induction values with
  | nil => simp
  | cons v values ih => simp [List.replicate_succ, ih]

/-- With no mark set, the sum is zero. -/
lemma markedSum_replicate_false (values : List ℤ) :
    markedSum values (List.replicate values.length false) = 0 := by
  induction values with
  | nil => simp
  | cons v values ih => simp [List.replicate_succ, ih]

variable {values : List ℤ}

/-- Setting a mark that is not set adds the value there. -/
lemma markedSum_set_true {marks : List Bool} {i : ℕ} {v : ℤ}
    (hv : values[i]? = some v) (hmark : marks[i]? = some false) :
    markedSum values (marks.set i true) = markedSum values marks + v := by
  induction values generalizing marks i with
  | nil => simp at hv
  | cons w values ih =>
    cases marks with
    | nil => simp at hmark
    | cons b marks =>
      cases i with
      | zero =>
        simp only [List.getElem?_cons_zero, Option.some.injEq] at hv hmark
        subst hv hmark
        simp [add_comm]
      | succ i =>
        simp only [List.getElem?_cons_succ] at hv hmark
        rw [List.set_cons_succ, markedSum_cons, markedSum_cons, ih hv hmark, add_assoc]

/-- The sum of the marked values is at most that of all values, if none is negative. -/
lemma markedSum_le_sum (hnonneg : ∀ v ∈ values, 0 ≤ v) (marks : List Bool) :
    markedSum values marks ≤ values.sum := by
  induction values generalizing marks with
  | nil => simp
  | cons w values ih =>
    have hw : 0 ≤ w := hnonneg w List.mem_cons_self
    have hsum : 0 ≤ values.sum :=
      List.sum_nonneg fun v hv => hnonneg v (List.mem_cons_of_mem _ hv)
    cases marks with
    | nil =>
      rw [List.sum_cons, markedSum]
      simp only [List.zip_nil_right, List.map_nil, List.sum_nil]
      omega
    | cons b marks =>
      have hrest := ih (fun v hv => hnonneg v (List.mem_cons_of_mem _ hv)) marks
      rw [markedSum_cons, List.sum_cons]
      cases b <;> simp <;> omega

/-- The sum of the marked values is not negative, if no value is. -/
lemma markedSum_nonneg (hnonneg : ∀ v ∈ values, 0 ≤ v) (marks : List Bool) :
    0 ≤ markedSum values marks := by
  refine List.sum_nonneg fun x hx => ?_
  obtain ⟨⟨v, b⟩, hmem, rfl⟩ := List.mem_map.mp hx
  have hv : 0 ≤ v := hnonneg v (List.of_mem_zip hmem).1
  cases b <;> simp [hv]

/-- The items that have a mark come in the order of the items. -/
lemma map_fst_zip_sublist {α : Type*} (items : List α) (marks : List Bool) :
    ((items.zip marks).map Prod.fst).Sublist items := by
  induction items generalizing marks with
  | nil => simp
  | cons a items ih =>
    cases marks with
    | nil => simp
    | cons b marks => exact (ih marks).cons_cons a

/-- The sum of the marked values is the sum over the items that are marked. -/
lemma markedSum_map {α : Type*} (value : α → ℤ) (items : List α) (marks : List Bool) :
    markedSum (items.map value) marks =
      (((items.zip marks).filter Prod.snd).map fun p => value p.1).sum := by
  induction items generalizing marks with
  | nil => simp
  | cons a items ih =>
    cases marks with
    | nil => simp [markedSum]
    | cons b marks =>
      rw [List.map_cons, markedSum_cons, ih, List.zip_cons_cons]
      cases b <;> simp

end MarkedSum
