import Mathlib.Data.List.Basic
import Mathlib.Data.List.Forall2
import Mathlib.Data.List.Perm.Subperm

/-!
# Walks along links

Records are found by keys, and every record has a link to another one.  A walk goes from a key along
the links until nothing is found.  It is computed with a number of steps as a bound (`walk`), and
`Walks` says that a walk ends and what it passes.

A walk that ends has only one course and passes no key twice, so it is the one that is computed if
the bound is the number of the keys under which something is found (`walk_eq_of_subset`).
-/

namespace LinkWalk

variable {κ τ τ' : Type*} {find : κ → Option τ} {link : τ → κ}

/-- The records on the walk from a key, for a number of steps at most. -/
def walk (find : κ → Option τ) (link : τ → κ) : ℕ → κ → List τ
  | 0, _ => []
  | n + 1, k =>
    match find k with
    | none => []
    | some t => t :: walk find link n (link t)

/-- The walk from a key ends, and passes some records. -/
inductive Walks (find : κ → Option τ) (link : τ → κ) : κ → List τ → Prop
  | stop {k : κ} : find k = none → Walks find link k []
  | step {k : κ} {t : τ} {l : List τ} :
      find k = some t → Walks find link (link t) l → Walks find link k (t :: l)

/-- The keys at which a walk passes its records. -/
def keys (link : τ → κ) : κ → List τ → List κ
  | _, [] => []
  | k, t :: l => k :: keys link (link t) l

@[simp] lemma length_keys (k : κ) (l : List τ) : (keys link k l).length = l.length := by
  induction l generalizing k with
  | nil => rfl
  | cons t l ih => exact congrArg (· + 1) (ih (link t))

namespace Walks

variable {k : κ} {l : List τ}

section

variable (h : Walks find link k l)

include h

/-- A walk has only one course. -/
lemma eq {l' : List τ} (h' : Walks find link k l') : l = l' := by
  induction h generalizing l' with
  | stop hnone =>
    cases h' with
    | stop => rfl
    | step hsome =>
      rw [hnone] at hsome
      cases hsome
  | step hsome _ ih =>
    cases h' with
    | stop hnone =>
      rw [hnone] at hsome
      cases hsome
    | step hsome' hrest =>
      rw [hsome] at hsome'
      cases hsome'
      rw [ih hrest]

/-- What is computed with a large enough bound. -/
lemma walk_eq {n : ℕ} (hn : l.length ≤ n) : walk find link n k = l := by
  induction h generalizing n with
  | stop hnone =>
    cases n with
    | zero => rfl
    | succ n => rw [walk, hnone]
  | step hsome _ ih =>
    cases n with
    | zero => cases hn
    | succ n =>
      rw [walk, hsome]
      exact congrArg _ (ih (Nat.le_of_succ_le_succ hn))

/-- From every key that is passed there is a walk, which is no longer. -/
lemma of_mem_keys {j : κ} (hj : j ∈ keys link k l) :
    (∃ t, find j = some t) ∧ ∃ l', Walks find link j l' ∧ l'.length ≤ l.length := by
  induction h with
  | stop => cases hj
  | @step k t l hsome hrest ih =>
    rcases List.mem_cons.mp hj with rfl | hj
    · exact ⟨⟨t, hsome⟩, t :: l, .step hsome hrest, Nat.le_refl _⟩
    · obtain ⟨hfound, l', hl', hle⟩ := ih hj
      exact ⟨hfound, l', hl', Nat.le_succ_of_le hle⟩

/-- A walk that ends passes no key twice. -/
lemma nodup_keys : (keys link k l).Nodup := by
  induction h with
  | stop => exact List.nodup_nil
  | @step k t l hsome hrest ih =>
    refine List.nodup_cons.mpr ⟨?_, ih⟩
    intro hmem
    obtain ⟨-, l', hl', hle⟩ := hrest.of_mem_keys hmem
    have hlength := congrArg List.length (hl'.eq (.step hsome hrest))
    rw [List.length_cons] at hlength
    omega

/-- What is computed if the bound is the number of all keys. -/
lemma walk_eq_of_subset {all : List κ}
    (hall : ∀ j t, find j = some t → j ∈ all) : walk find link all.length k = l := by
  apply h.walk_eq
  have hlength : (keys link k l).length = l.length := length_keys k l
  rw [← hlength]
  apply List.Subperm.length_le
  apply List.subperm_of_subset h.nodup_keys
  intro j hj
  obtain ⟨⟨t, hfound⟩, -⟩ := h.of_mem_keys hj
  exact hall j t hfound

/-- A walk along related records with the same links. -/
lemma rel {find' : κ → Option τ'} {link' : τ' → κ} {r : τ → τ' → Prop}
    (hfind : ∀ j t, find j = some t → ∃ t', find' j = some t' ∧ r t t' ∧ link' t' = link t)
    (hstop : ∀ j, j = k ∨ (∃ t ∈ l, j = link t) → find j = none → find' j = none) :
    ∃ l', Walks find' link' k l' ∧ List.Forall₂ r l l' := by
  induction h with
  | stop hnone => exact ⟨[], .stop (hstop _ (Or.inl rfl) hnone), .nil⟩
  | @step k t l hsome hrest ih =>
    obtain ⟨t', hsome', hr, hlink⟩ := hfind k t hsome
    have hlast : ∀ j, j = link t ∨ (∃ t ∈ l, j = link t) → find j = none → find' j = none := by
      intro j hj
      refine hstop j (Or.inr ?_)
      rcases hj with rfl | ⟨t₁, ht₁, rfl⟩
      · exact ⟨t, List.mem_cons_self, rfl⟩
      · exact ⟨t₁, List.mem_cons_of_mem _ ht₁, rfl⟩
    obtain ⟨l', hwalk, hall⟩ := ih hlast
    refine ⟨t' :: l', .step hsome' ?_, .cons hr hall⟩
    rw [hlink]
    exact hwalk

end

/-- What comes after a record on a walk is the walk from its link. -/
lemma of_append {before after : List τ} {t : τ} (h : Walks find link k (before ++ t :: after)) :
    Walks find link (link t) after := by
  induction before generalizing k with
  | nil => cases h with | step _ hrest => exact hrest
  | cons t' before ih => cases h with | step _ hrest => exact ih hrest

/-- What is passed is found. -/
lemma exists_find (h : Walks find link k l) {t : τ} (ht : t ∈ l) : ∃ j, find j = some t := by
  induction h with
  | stop => cases ht
  | step hsome _ ih =>
    rcases List.mem_cons.mp ht with rfl | ht
    · exact ⟨_, hsome⟩
    · exact ih ht

end Walks

end LinkWalk
