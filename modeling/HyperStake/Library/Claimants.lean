import Mathlib.Data.Set.Basic

/-!
# Marks that follow claims

Some items are marked, and some claimants, each of which claims items, are live.  The marks are
faithful if an item is marked exactly when a live claimant claims it (`Faithful`).  They stay so when
a claimant joins and its items are marked (`Faithful.join`), and when a claimant leaves and the marks
of its items are taken away, if nobody else claims them (`Faithful.leave_iff`).
-/

namespace Claimants

variable {α κ : Type*}

/-- The marked ones of some items are those that a live claimant claims. -/
def Faithful (items marks : Set α) (claims : κ → Set α) (live : Set κ) : Prop :=
  ∀ a ∈ items, a ∈ marks ↔ ∃ k ∈ live, a ∈ claims k

variable {items items' marks marks' s : Set α} {claims claims' : κ → Set α} {live live' : Set κ}
  {k : κ}

/-- A claimant joins, perhaps with items of its own that nobody claims yet. -/
lemma Faithful.join (h : Faithful items marks claims live)
    (hlive : ∀ j, j ∈ live' ↔ j = k ∨ j ∈ live)
    (hclaims : ∀ j ∈ live, claims' j = claims j)
    (hmarks : ∀ a ∈ items', a ∈ marks' ↔ a ∈ claims' k ∨ a ∈ marks)
    (hitems : ∀ a ∈ items', a ∉ items → a ∉ marks ∧ ∀ j ∈ live, a ∉ claims j) :
    Faithful items' marks' claims' live' := by
  intro a ha
  have hbefore : a ∈ marks ↔ ∃ j ∈ live, a ∈ claims j := by
    by_cases hmem : a ∈ items
    · exact h a hmem
    · obtain ⟨hmark, hnone⟩ := hitems a ha hmem
      exact iff_of_false hmark fun ⟨j, hj, hclaim⟩ => hnone j hj hclaim
  rw [hmarks a ha, hbefore]
  constructor
  · rintro (hclaim | ⟨j, hj, hclaim⟩)
    · exact ⟨k, (hlive k).mpr (Or.inl rfl), hclaim⟩
    · exact ⟨j, (hlive j).mpr (Or.inr hj), (hclaims j hj).symm ▸ hclaim⟩
  · rintro ⟨j, hj, hclaim⟩
    rcases (hlive j).mp hj with rfl | hlive
    · exact Or.inl hclaim
    · exact Or.inr ⟨j, hlive, hclaims j hlive ▸ hclaim⟩

/-- A claimant leaves: the marks are faithful if and only if nobody else claims its items. -/
lemma Faithful.leave_iff (h : Faithful items marks claims live)
    (hlive : ∀ j, j ∈ live' ↔ j ≠ k ∧ j ∈ live) (hs : k ∈ live → claims k = s)
    (hmarks : ∀ a ∈ items, a ∈ marks' ↔ a ∉ s ∧ a ∈ marks) :
    Faithful items marks' claims live' ↔ ∀ a ∈ items, a ∈ s → ∀ j ∈ live, j ≠ k → a ∉ claims j := by
  constructor
  · intro hafter a ha ha' j hj hne hclaim
    exact ((hmarks a ha).mp ((hafter a ha).mpr ⟨j, (hlive j).mpr ⟨hne, hj⟩, hclaim⟩)).1 ha'
  · intro halone a ha
    rw [hmarks a ha, h a ha]
    constructor
    · rintro ⟨ha', j, hj, hclaim⟩
      have hne : j ≠ k := by
        rintro rfl
        exact ha' (hs hj ▸ hclaim)
      exact ⟨j, (hlive j).mpr ⟨hne, hj⟩, hclaim⟩
    · rintro ⟨j, hj, hclaim⟩
      obtain ⟨hne, hbefore⟩ := (hlive j).mp hj
      exact ⟨fun ha' => halone a ha ha' j hbefore hne hclaim, j, hbefore, hclaim⟩

end Claimants
