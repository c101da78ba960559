import Mathlib.Data.Set.Finite.Lemmas
import Mathlib.Order.Bounds.Basic

/-!
# The highest run of free positions

A search for a number of free positions in a row goes down from the top and counts the free ones
since the last one that is taken.  It stops at the first run that is long enough, which is the
highest one (`highestRun_eq_some_iff`).

Two sets of runs, for two ideas of what is free, have the same highest run exactly if every run that
is in one of them only lies below a run that is in both (`isGreatest_iff_isGreatest`).
-/

namespace HighestRun

/-- The lowest positions of the runs of `n` free positions below `size`. -/
def runs (free : ℕ → Prop) (n size : ℕ) : Set ℕ :=
  {l | l + n ≤ size ∧ ∀ i, l ≤ i → i < l + n → free i}

lemma finite_runs (free : ℕ → Prop) (n size : ℕ) : (runs free n size).Finite :=
  (Set.finite_le_nat size).subset fun l hl => (Nat.le_add_right l n).trans hl.1

lemma runs_congr {free free' : ℕ → Prop} {n size : ℕ} (h : ∀ i < size, free i ↔ free' i) :
    runs free n size = runs free' n size := by
  ext l
  refine and_congr_right fun hl => forall_congr' fun i => ?_
  refine forall_congr' fun _ => forall_congr' fun hi => h i (hi.trans_le hl)

/-! ## The search -/

/-- The search over the positions below one, above which `k` positions in a row are free. -/
def highestRun (free : ℕ → Bool) (n : ℕ) : ℕ → ℕ → Option ℕ
  | 0, _ => none
  | i + 1, k =>
    let k' := if free i then k + 1 else 0
    if k' = n then some i else highestRun free n i k'

/-- What the search knows when it has come down to a position. -/
structure Scanned (free : ℕ → Bool) (n size i k : ℕ) : Prop where
  le : i + k ≤ size
  lt : k < n
  free_above : ∀ j, i ≤ j → j < i + k → free j = true
  edge : i + k = size ∨ free (i + k) = false
  below : ∀ l ∈ runs (fun j => free j = true) n size, l < i

namespace Scanned

variable {free : ℕ → Bool} {n size i k : ℕ}

/-- The search starts at the top. -/
lemma start (hn : 0 < n) : Scanned free n size size 0 where
  le := le_rfl
  lt := hn
  free_above j hj hlt := by omega
  edge := Or.inl rfl
  below l hl := by
    have hle := hl.1
    omega

section

variable (h : Scanned free n size (i + 1) k)

include h

/-- A position that is taken: no run that starts there or above is free. -/
lemma taken (hi : free i = false) :
    Scanned free n size i 0 where
  le := by
    have hle := h.le
    omega
  lt := (Nat.zero_le k).trans_lt h.lt
  free_above j hj hlt := by omega
  edge := Or.inr hi
  below l hl := by
    have hlt := h.below l hl
    rcases (Nat.lt_succ_iff.mp hlt).lt_or_eq with hlow | rfl
    · exact hlow
    · have hfree : free l = true :=
        hl.2 l le_rfl (Nat.lt_add_of_pos_right ((Nat.zero_le k).trans_lt h.lt))
      rw [hi] at hfree
      cases hfree

/-- A free position that does not make the run long enough. -/
lemma counted (hi : free i = true) (hne : k + 1 ≠ n) :
    Scanned free n size i (k + 1) where
  le := by
    have hle := h.le
    omega
  lt := by
    have hlt := h.lt
    omega
  free_above j hj hlt := by
    rcases hj.eq_or_lt with rfl | hgt
    · exact hi
    · exact h.free_above j hgt (by omega)
  edge := by
    have hadd : i + (k + 1) = i + 1 + k := by omega
    rw [hadd]
    exact h.edge
  below l hl := by
    have hlt := h.below l hl
    rcases (Nat.lt_succ_iff.mp hlt).lt_or_eq with hlow | rfl
    · exact hlow
    · -- the run would go over the edge of the free positions that have been counted
      have hshort := h.lt
      rcases h.edge with hsize | htaken
      · have hle := hl.1
        omega
      · have hfree : free (l + 1 + k) = true := hl.2 (l + 1 + k) (by omega) (by omega)
        rw [htaken] at hfree
        cases hfree

/-- A free position that makes the run long enough. -/
lemma found (hi : free i = true) (hn : k + 1 = n) :
    IsGreatest (runs (fun j => free j = true) n size) i := by
  have hmem : i ∈ runs (fun j => free j = true) n size := by
    refine ⟨?_, fun j hj hlt => ?_⟩
    · have hle := h.le
      omega
    · rcases hj.eq_or_lt with rfl | hgt
      · exact hi
      · exact h.free_above j hgt (by omega)
  exact ⟨hmem, fun l hl => Nat.lt_succ_iff.mp (h.below l hl)⟩

end

/-- The search goes on to the highest run below, if there is one. -/
lemma highestRun_eq (h : Scanned free n size i k) :
    (∀ l, highestRun free n i k = some l →
      IsGreatest (runs (fun j => free j = true) n size) l) ∧
    (highestRun free n i k = none → runs (fun j => free j = true) n size = ∅) := by
  induction i generalizing k with
  | zero =>
    constructor
    · intro l hl
      cases hl
    · exact fun _ => Set.eq_empty_of_forall_notMem fun l hl =>
        absurd (h.below l hl) (Nat.not_lt_zero l)
  | succ i ih =>
    rw [highestRun]
    cases hi : free i with
    | false =>
      have hne : ¬ 0 = n := by
        have hlt := h.lt
        omega
      simp only [Bool.false_eq_true, if_false, hne]
      exact ih (h.taken hi)
    | true =>
      simp only [if_true]
      by_cases hn : k + 1 = n
      · rw [if_pos hn]
        refine ⟨fun l hl => ?_, fun hnone => by cases hnone⟩
        rw [← Option.some.inj hl]
        exact h.found hi hn
      · rw [if_neg hn]
        exact ih (h.counted hi hn)

end Scanned

/-- The search from the top finds the highest run. -/
theorem highestRun_eq_some_iff {free : ℕ → Bool} {n size l : ℕ} (hn : 0 < n) :
    highestRun free n size 0 = some l ↔
      IsGreatest (runs (fun j => free j = true) n size) l := by
  obtain ⟨hsome, hnone⟩ := (Scanned.start hn : Scanned free n size size 0).highestRun_eq
  refine ⟨hsome l, fun hl => ?_⟩
  cases hrun : highestRun free n size 0 with
  | none =>
    have hmem := hl.1
    rw [hnone hrun] at hmem
    exact absurd hmem (Set.notMem_empty l)
  | some l' => rw [(hsome l' hrun).unique hl]

/-- The search fails exactly if there is no run. -/
theorem highestRun_eq_none_iff {free : ℕ → Bool} {n size : ℕ} (hn : 0 < n) :
    highestRun free n size 0 = none ↔ runs (fun j => free j = true) n size = ∅ := by
  obtain ⟨hsome, hnone⟩ := (Scanned.start hn : Scanned free n size size 0).highestRun_eq
  refine ⟨hnone, fun hempty => ?_⟩
  cases hrun : highestRun free n size 0 with
  | none => rfl
  | some l =>
    have hmem := (hsome l hrun).1
    rw [hempty] at hmem
    exact absurd hmem (Set.notMem_empty l)

/-! ## Two sets of runs -/

section Agree

variable {α : Type*} [LinearOrder α] {A B : Set α}

/-- The greatest element of one set is that of the other, if every element of only one of them is
below one of both. -/
lemma isGreatest_of_overshadowed (h : ∀ w, ¬ (w ∈ A ↔ w ∈ B) → ∃ w' ∈ A ∩ B, w < w') {x : α}
    (hx : IsGreatest A x) : IsGreatest B x := by
  have hxB : x ∈ B := by
    by_contra hnot
    obtain ⟨w', hw', hlt⟩ := h x fun hiff => hnot (hiff.mp hx.1)
    exact absurd (hx.2 hw'.1) (not_le.mpr hlt)
  refine ⟨hxB, fun y hy => ?_⟩
  by_cases hyA : y ∈ A
  · exact hx.2 hyA
  · obtain ⟨w', hw', hlt⟩ := h y fun hiff => hyA (hiff.mpr hy)
    exact hlt.le.trans (hx.2 hw'.1)

/-- An element of only one of two sets with the same greatest element is below one of both. -/
lemma overshadowed_of_isGreatest (hA : A.Finite) (h : ∀ x, IsGreatest A x → IsGreatest B x) {w : α}
    (hw : w ∈ A) (hnot : w ∉ B) : ∃ w' ∈ A ∩ B, w < w' := by
  obtain ⟨x, hx, hmax⟩ := Set.exists_max_image A id hA ⟨w, hw⟩
  have hxB := h x ⟨hx, hmax⟩
  refine ⟨x, ⟨hx, hxB.1⟩, (hmax w hw).lt_of_ne ?_⟩
  rintro rfl
  exact hnot hxB.1

/-- Two finite sets have the same greatest element, or none, exactly if every element of only one of
them is below one of both. -/
theorem isGreatest_iff_isGreatest (hA : A.Finite) (hB : B.Finite) :
    (∀ x, IsGreatest A x ↔ IsGreatest B x) ↔
      ∀ w, ¬ (w ∈ A ↔ w ∈ B) → ∃ w' ∈ A ∩ B, w < w' := by
  constructor
  · intro h w hw
    by_cases hwA : w ∈ A
    · exact overshadowed_of_isGreatest hA (fun x => (h x).mp) hwA
        fun hwB => hw (iff_of_true hwA hwB)
    · have hwB : w ∈ B := by
        by_contra hwB
        exact hw (iff_of_false hwA hwB)
      obtain ⟨w', hw', hlt⟩ := overshadowed_of_isGreatest hB (fun x => (h x).mpr) hwB hwA
      exact ⟨w', hw'.symm, hlt⟩
  · intro h x
    have hswap : ∀ w, ¬ (w ∈ B ↔ w ∈ A) → ∃ w' ∈ B ∩ A, w < w' := fun w hw => by
      obtain ⟨w', hw', hlt⟩ := h w fun hiff => hw hiff.symm
      exact ⟨w', hw'.symm, hlt⟩
    exact ⟨isGreatest_of_overshadowed h, isGreatest_of_overshadowed hswap⟩

end Agree

end HighestRun
