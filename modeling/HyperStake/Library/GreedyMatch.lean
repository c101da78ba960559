import Mathlib.Data.List.NodupEquivFin
import Mathlib.Order.Hom.Basic

/-!
# Matching two lists greedily

Each element of a list takes the first element of another list that it fits and that comes after
those taken before (`assigns`).  The greedy choice is no loss: if the elements can be placed at all,
in their order, then the first one can as well take the first place that it fits
(`assigns_iff_sublistForall₂`).
-/

namespace GreedyMatch

variable {α β : Type*} (fits : α → β → Bool)

/-- Whether each element finds a place of its own, in the order of both lists. -/
def assigns : List α → List β → Bool
  | [], _ => true
  | _ :: _, [] => false
  | a :: as, b :: bs => if fits a b then assigns as bs else assigns (a :: as) bs

variable {fits}

variable {as : List α} {bs : List β}

/-- More elements than places cannot be placed. -/
lemma assigns_of_lt (h : bs.length < as.length) : assigns fits as bs = false := by
  induction bs generalizing as with
  | nil =>
    cases as with
    | nil => cases h
    | cons a as => rfl
  | cons b bs ih =>
    cases as with
    | nil => cases h
    | cons a as =>
      rw [List.length_cons, List.length_cons] at h
      rw [assigns]
      split
      · exact ih (by omega)
      · exact ih (by rw [List.length_cons]; omega)

/-- What can be placed can be placed without its first element. -/
lemma sublistForall₂_of_cons {R : α → β → Prop} {a : α} (h : List.SublistForall₂ R (a :: as) bs) :
    List.SublistForall₂ R as bs := by
  rw [List.sublistForall₂_iff] at h ⊢
  obtain ⟨l, hl, hsub⟩ := h
  cases hl with
  | cons _ hl => exact ⟨_, hl, (List.sublist_cons_self _ _).trans hsub⟩

/-- The greedy choice is no loss. -/
lemma assigns_iff_sublistForall₂ :
    assigns fits as bs = true ↔ List.SublistForall₂ (fun a b => fits a b = true) as bs := by
  induction bs generalizing as with
  | nil =>
    cases as with
    | nil => exact iff_of_true rfl .nil
    | cons a as => exact iff_of_false Bool.false_ne_true (by rintro ⟨⟩)
  | cons b bs ih =>
    cases as with
    | nil => exact iff_of_true rfl .nil
    | cons a as =>
      rw [assigns]
      by_cases hfits : fits a b = true
      · rw [if_pos hfits, ih]
        constructor
        · exact fun h => .cons hfits h
        · -- the first element may as well take the first place
          intro h
          cases h with
          | cons _ h => exact h
          | cons_right h => exact sublistForall₂_of_cons h
      · rw [if_neg hfits, ih]
        constructor
        · exact fun h => .cons_right h
        · intro h
          cases h with
          | cons hb _ => exact absurd hb hfits
          | cons_right h => exact h

/-- Each element finds a place if and only if there is an order-preserving choice of places. -/
theorem assigns_iff_orderEmbedding :
    assigns fits as bs = true ↔
      ∃ f : Fin as.length ↪o Fin bs.length, ∀ i, fits as[i] bs[f i] = true := by
  rw [assigns_iff_sublistForall₂, List.sublistForall₂_iff]
  constructor
  · rintro ⟨l, hfits, hsub⟩
    obtain ⟨f, hf⟩ := List.sublist_iff_exists_fin_orderEmbedding_get_eq.mp hsub
    obtain ⟨hlength, hget⟩ := List.forall₂_iff_get.mp hfits
    refine ⟨(Fin.castOrderIso hlength).toOrderEmbedding.trans f, fun i => ?_⟩
    have hi := hget i.1 i.2 (hlength ▸ i.2)
    have hplace := hf (Fin.castOrderIso hlength i)
    simp only [List.get_eq_getElem] at hi hplace
    exact hplace ▸ hi
  · rintro ⟨f, hf⟩
    refine ⟨List.ofFn fun i => bs[f i], ?_, ?_⟩
    · refine List.forall₂_iff_get.mpr ⟨by rw [List.length_ofFn], fun i h₁ h₂ => ?_⟩
      rw [List.get_ofFn]
      exact hf ⟨i, h₁⟩
    · have hlength : (List.ofFn fun i => bs[f i]).length = as.length := List.length_ofFn
      refine List.sublist_iff_exists_fin_orderEmbedding_get_eq.mpr
        ⟨(Fin.castOrderIso hlength).toOrderEmbedding.trans f, fun i => ?_⟩
      rw [List.get_ofFn]
      rfl

end GreedyMatch
