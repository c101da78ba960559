import Mathlib.Data.List.Induction
import Mathlib.Data.Set.Insert
import Mathlib.Data.Set.Pairwise.Basic

/-!
# Greedy selection

A loop that goes through a list and takes every item that nothing it already holds blocks.  What it
holds at the end depends on the order of the list.  `held_foldl_eq_iff` says which sets of mutually
compatible items come out: those whose members are in the list, and which block every other item by
a member that comes before it.
-/

namespace GreedyLoop

variable {σ β α : Type*}

/-- The members of a set among the items of a list, after one more item that is a member. -/
lemma members_concat_of_mem {M : Set α} {a : α} (h : a ∈ M) (L : List α) :
    {x ∈ M | x ∈ L ++ [a]} = insert a {x ∈ M | x ∈ L} := by
  ext x
  simp only [Set.mem_ofPred_eq, List.mem_append, List.mem_singleton, Set.mem_insert_iff]
  constructor
  · rintro ⟨hx, hmem | rfl⟩
    · exact Or.inr ⟨hx, hmem⟩
    · exact Or.inl rfl
  · rintro (rfl | ⟨hx, hmem⟩)
    · exact ⟨h, Or.inr rfl⟩
    · exact ⟨hx, Or.inl hmem⟩

/-- The members of a set among the items of a list, after one more item that is no member. -/
lemma members_concat_of_notMem {M : Set α} {a : α} (h : a ∉ M) (L : List α) :
    {x ∈ M | x ∈ L ++ [a]} = {x ∈ M | x ∈ L} := by
  ext x
  simp only [Set.mem_ofPred_eq, List.mem_append, List.mem_singleton]
  constructor
  · rintro ⟨hx, hmem | rfl⟩
    · exact ⟨hx, hmem⟩
    · exact absurd hx h
  · rintro ⟨hx, hmem⟩
    exact ⟨hx, Or.inl hmem⟩

/-- The step takes the item unless something it holds blocks it. -/
structure Selects (held : σ → Set α) (item : β → α) (blocks : α → α → Prop) (step : σ → β → σ) :
    Prop where
  take : ∀ s b, (∀ y ∈ held s, ¬ blocks (item b) y) → held (step s b) = insert (item b) (held s)
  leave : ∀ s b, (∃ y ∈ held s, blocks (item b) y) → held (step s b) = held s

namespace Selects

variable {held : σ → Set α} {item : β → α} {blocks : α → α → Prop} {step : σ → β → σ}

section

variable (h : Selects held item blocks step)

include h

/-- A step gives nothing up. -/
lemma subset_step (s : σ) (b : β) : held s ⊆ held (step s b) := by
  by_cases hblock : ∃ y ∈ held s, blocks (item b) y
  · rw [h.leave s b hblock]
  · rw [h.take s b fun y hy hb => hblock ⟨y, hy, hb⟩]
    exact Set.subset_insert _ _

/-- The loop gives nothing up. -/
lemma subset_foldl (s : σ) (l : List β) : held s ⊆ held (l.foldl step s) := by
  induction l generalizing s with
  | nil => exact subset_rfl
  | cons b l ih => exact (h.subset_step s b).trans (ih (step s b))

/-- The loop holds nothing but what it held before and what it went through. -/
lemma mem_foldl_cases {s : σ} {l : List β} {x : α}
    (hx : x ∈ held (l.foldl step s)) : x ∈ held s ∨ x ∈ l.map item := by
  induction l generalizing s with
  | nil => exact Or.inl hx
  | cons b l ih =>
    rcases ih hx with hstep | hrest
    · by_cases hblock : ∃ y ∈ held s, blocks (item b) y
      · rw [h.leave s b hblock] at hstep
        exact Or.inl hstep
      · rw [h.take s b fun y hy hb => hblock ⟨y, hy, hb⟩] at hstep
        rcases hstep with rfl | hold
        · exact Or.inr List.mem_cons_self
        · exact Or.inl hold
    · exact Or.inr (List.mem_cons_of_mem _ hrest)

/-- Every item that the loop does not hold at the end is blocked by one that came before it and that
it does hold. -/
lemma blocked_of_notMem {s : σ} (hempty : held s = ∅)
    {l l₁ l₂ : List β} {b : β} (hl : l = l₁ ++ b :: l₂)
    (hb : item b ∉ held (l.foldl step s)) :
    ∃ y ∈ l₁.map item, y ∈ held (l.foldl step s) ∧ blocks (item b) y := by
  rw [hl, List.foldl_append, List.foldl_cons] at hb ⊢
  by_cases hblock : ∃ y ∈ held (l₁.foldl step s), blocks (item b) y
  · obtain ⟨y, hy, hblocks⟩ := hblock
    have hmem : y ∈ l₁.map item := by
      refine (h.mem_foldl_cases hy).resolve_left ?_
      rw [hempty]
      exact Set.notMem_empty y
    exact ⟨y, hmem, h.subset_foldl _ l₂ (h.subset_step _ b hy), hblocks⟩
  · have htaken := h.take (l₁.foldl step s) b fun y hy hblocks => hblock ⟨y, hy, hblocks⟩
    refine absurd (h.subset_foldl _ l₂ ?_) hb
    rw [htaken]
    exact Set.mem_insert _ _

/-- Starting with nothing, the loop ends with a set of compatible items exactly if the set is made
of items of the list and blocks every other item of the list by a member before it. -/
theorem held_foldl_eq_iff {s : σ} (hempty : held s = ∅)
    (hrefl : ∀ x, blocks x x) {M : Set α} (hM : M.Pairwise fun x y => ¬ blocks x y) (l : List β) :
    held (l.foldl step s) = M ↔
      (∀ x ∈ M, x ∈ l.map item) ∧ ∀ l₁ b l₂, l = l₁ ++ b :: l₂ → item b ∉ M →
        ∃ y ∈ l₁.map item, y ∈ M ∧ blocks (item b) y := by
  constructor
  · rintro rfl
    refine ⟨fun x hx => ?_, fun l₁ b l₂ hl hb => h.blocked_of_notMem hempty hl hb⟩
    refine (h.mem_foldl_cases hx).resolve_left ?_
    rw [hempty]
    exact Set.notMem_empty x
  · rintro ⟨hsub, hblocked⟩
    -- after each prefix the loop holds the members of the set that are in the prefix
    have hvisited : ∀ l₁ l₂, l = l₁ ++ l₂ →
        held (l₁.foldl step s) = {x ∈ M | x ∈ l₁.map item} := by
      intro l₁
      induction l₁ using List.reverseRecOn with
      | nil =>
        intro l₂ _
        simp [hempty]
      | append_singleton l₁ b ih =>
        intro l₂ hl
        have hl' : l = l₁ ++ b :: l₂ := by rw [hl, List.append_assoc, List.singleton_append]
        have hheld := ih (b :: l₂) hl'
        rw [List.foldl_append, List.foldl_cons, List.foldl_nil, List.map_append, List.map_singleton]
        by_cases hb : item b ∈ M
        · rw [members_concat_of_mem hb]
          by_cases hold : item b ∈ l₁.map item
          · -- it is held already, and so blocks itself
            have hself : item b ∈ held (l₁.foldl step s) := by
              rw [hheld]
              exact ⟨hb, hold⟩
            rw [h.leave _ b ⟨item b, hself, hrefl _⟩, ← hheld, Set.insert_eq_of_mem hself]
          · have hfree : ∀ y ∈ held (l₁.foldl step s), ¬ blocks (item b) y := by
              intro y hy
              rw [hheld] at hy
              have hne : item b ≠ y := by
                rintro rfl
                exact hold hy.2
              exact hM hb hy.1 hne
            rw [h.take _ b hfree, hheld]
        · obtain ⟨y, hy, hyM, hblocks⟩ := hblocked l₁ b l₂ hl' hb
          have hyheld : y ∈ held (l₁.foldl step s) := by
            rw [hheld]
            exact ⟨hyM, hy⟩
          rw [h.leave _ b ⟨y, hyheld, hblocks⟩, hheld, members_concat_of_notMem hb]
    rw [hvisited l [] (List.append_nil l).symm]
    ext x
    exact ⟨fun hx => hx.1, fun hx => ⟨hx, hsub x hx⟩⟩

end

end Selects

end GreedyLoop
