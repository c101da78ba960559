import Mathlib.Data.List.Basic

/-!
# Loops that collect values

A loop that visits the items of a list in order and keeps the values that some of the visits give,
until a visit fails.  It succeeds exactly when every visit does, and then it has kept exactly the
values of the visits.
-/

namespace CollectLoop

variable {ε α β : Type*}

/-- Visit the items in order, and keep the values. -/
def collect (visit : α → Except ε (Option β)) : List α → Except ε (List β)
  | [] => .ok []
  | a :: items =>
    match visit a with
    | .error e => .error e
    | .ok none => collect visit items
    | .ok (some b) => (collect visit items).map (b :: ·)

/-- What the loop has kept when it succeeds. -/
lemma mem_of_collect {visit : α → Except ε (Option β)} {items : List α} {values : List β}
    (h : collect visit items = .ok values) {b : β} :
    b ∈ values ↔ ∃ a ∈ items, visit a = .ok (some b) := by
  induction items generalizing values with
  | nil =>
    rw [← Except.ok.inj h]
    simp
  | cons a items ih =>
    rw [List.exists_mem_cons_iff]
    unfold collect at h
    cases hvisit : visit a with
    | error e =>
      rw [hvisit] at h
      cases h
    | ok value =>
      rw [hvisit] at h
      cases value with
      | none =>
        rw [ih h]
        simp
      | some c =>
        cases hrest : collect visit items with
        | error e =>
          simp only [hrest] at h
          cases h
        | ok rest =>
          simp only [hrest, Except.map, Except.ok.injEq] at h
          rw [← h, List.mem_cons, ih hrest, Except.ok.injEq, Option.some.injEq, eq_comm]

/-- The loop succeeds exactly when every visit does. -/
lemma exists_collect_eq_ok_iff {visit : α → Except ε (Option β)} {items : List α} :
    (∃ values, collect visit items = .ok values) ↔ ∀ a ∈ items, ∃ value, visit a = .ok value := by
  induction items with
  | nil => simp [collect]
  | cons a items ih =>
    rw [List.forall_mem_cons, ← ih, collect]
    cases hvisit : visit a with
    | error e => simp
    | ok value =>
      cases value with
      | none => simp
      | some b => cases collect visit items <;> simp [Except.map]

end CollectLoop
