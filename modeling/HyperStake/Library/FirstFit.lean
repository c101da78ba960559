import Mathlib.Data.List.Basic
import Mathlib.Logic.Function.Basic

/-!
# Elements that take the first place that they fit

Elements come one after another, and each takes the first of some places that it fits and that none
has taken before it; one that finds no such place is left out (`placeAll`).  Who has taken a place
fits it (`placeAll_spec`).  An element that fits several places may take one that another element
needs; if none does, then every place that some element fits is taken (`placeAll_isSome_iff`).
-/

namespace FirstFit

variable {α β : Type*} [DecidableEq β] (fits : α → β → Bool)

/-- An element takes the first place that it fits and that is free. -/
def place (places : List β) (taken : β → Option α) (a : α) : β → Option α :=
  match places.find? fun b => (taken b).isNone && fits a b with
  | none => taken
  | some b => Function.update taken b (some a)

/-- The elements take places in their order. -/
def placeAll (places : List β) (as : List α) : β → Option α :=
  as.foldl (place fits places) fun _ => none

variable {fits} {places : List β} {taken : β → Option α} {a : α} {as : List α} {b : β}

/-- No free place fits, or the element takes a free place that it fits. -/
lemma place_cases (taken : β → Option α) (a : α) :
    (place fits places taken a = taken ∧ ∀ b ∈ places, taken b = none → fits a b = false) ∨
      ∃ b ∈ places, taken b = none ∧ fits a b = true ∧
        place fits places taken a = Function.update taken b (some a) := by
  rw [place]
  cases hfind : places.find? fun b => (taken b).isNone && fits a b with
  | none =>
    refine .inl ⟨rfl, fun b hb hfree => ?_⟩
    simpa [hfree] using List.find?_eq_none.mp hfind b hb
  | some b =>
    have htest := List.find?_some hfind
    rw [Bool.and_eq_true, Option.isNone_iff_eq_none] at htest
    exact .inr ⟨b, List.mem_of_find?_eq_some hfind, htest.1, htest.2, rfl⟩

/-- What is taken stays taken. -/
lemma place_of_some (h : taken b = some a) (a' : α) : place fits places taken a' b = some a := by
  obtain ⟨heq, -⟩ | ⟨b', -, hfree, -, heq⟩ := place_cases taken a'
  · rw [heq, h]
  · have hne : b ≠ b' := by
      rintro rfl
      rw [h] at hfree
      cases hfree
    rw [heq, Function.update_of_ne hne, h]

lemma foldl_place_of_some (h : taken b = some a) (as : List α) :
    as.foldl (place fits places) taken b = some a := by
  induction as generalizing taken with
  | nil => exact h
  | cons a' as ih => exact ih (place_of_some h a')

/-- Who takes a place is one of the elements and fits it. -/
lemma foldl_place_spec (h : as.foldl (place fits places) taken b = some a) :
    taken b = some a ∨ b ∈ places ∧ a ∈ as ∧ fits a b = true := by
  induction as generalizing taken with
  | nil => exact .inl h
  | cons a' as ih =>
    rcases ih h with hplace | ⟨hb, ha, hfits⟩
    · obtain ⟨heq, -⟩ | ⟨b', hb', -, hfits, heq⟩ := place_cases taken a'
      · exact .inl (heq ▸ hplace)
      · rw [heq] at hplace
        by_cases hself : b = b'
        · subst hself
          rw [Function.update_self, Option.some.injEq] at hplace
          subst hplace
          exact .inr ⟨hb', List.mem_cons_self .., hfits⟩
        · rw [Function.update_of_ne hself] at hplace
          exact .inl hplace
    · exact .inr ⟨hb, List.mem_cons_of_mem _ ha, hfits⟩

lemma placeAll_spec (h : placeAll fits places as b = some a) :
    b ∈ places ∧ a ∈ as ∧ fits a b = true := by
  rcases foldl_place_spec h with hnone | hspec
  · cases hnone
  · exact hspec

/-- An element that fits only one place leaves it taken. -/
lemma place_isSome (hb : b ∈ places) (hfits : fits a b = true)
    (hunique : ∀ b' ∈ places, fits a b' = true → b' = b) :
    (place fits places taken a b).isSome = true := by
  obtain ⟨heq, hnone⟩ | ⟨b', hb', -, hfits', heq⟩ := place_cases taken a
  · rw [heq]
    by_contra hfree
    have hfalse := hnone b hb (Option.not_isSome_iff_eq_none.mp hfree)
    rw [hfits] at hfalse
    cases hfalse
  · rw [heq, hunique b' hb' hfits', Function.update_self]
    rfl

/-- If no element fits several places, then every place that some element fits is taken. -/
lemma placeAll_isSome_iff
    (hunique : ∀ a ∈ as, ∀ b ∈ places, ∀ b' ∈ places, fits a b = true → fits a b' = true → b' = b) :
    (placeAll fits places as b).isSome = true ↔ b ∈ places ∧ ∃ a ∈ as, fits a b = true := by
  constructor
  · intro hsome
    obtain ⟨a, ha⟩ := Option.isSome_iff_exists.mp hsome
    obtain ⟨hb, ha, hfits⟩ := placeAll_spec ha
    exact ⟨hb, a, ha, hfits⟩
  · rintro ⟨hb, a, ha, hfits⟩
    -- what comes after the element leaves the place as it is
    obtain ⟨before, after, rfl⟩ := List.append_of_mem ha
    rw [placeAll, List.foldl_append, List.foldl_cons]
    have htaken : (place fits places (before.foldl (place fits places) fun _ => none) a b).isSome =
        true :=
      place_isSome hb hfits fun b' hb' hfits' => hunique a ha b hb b' hb' hfits hfits'
    obtain ⟨a', ha'⟩ := Option.isSome_iff_exists.mp htaken
    rw [foldl_place_of_some ha']
    rfl

end FirstFit
