import Mathlib.Data.List.Basic
import Mathlib.Order.Lattice

/-!
# Loops that try again

A loop whose rounds give a result or the state for another round.  It is given a number of rounds
that it may take.  If every round that is not the last one raises a key of the state, and to one of
finitely many values, then the loop ends after at most as many rounds as there are values above the
key of the first state, and one.
-/

namespace RetryLoop

variable {ε σ ρ α : Type*}

/-- How a round ends. -/
inductive Round (σ ρ : Type*) where
  /-- Another round follows. -/
  | again (s : σ)
  /-- The loop ends with a result. -/
  | done (r : ρ)

/-- The loop from a round on, with the number of rounds that it may take; none if it takes more. -/
def retry (round : ℕ → σ → Except ε (Round σ ρ)) : ℕ → ℕ → σ → Option (Except ε ρ)
  | 0, _, _ => none
  | fuel + 1, n, s =>
    match round n s with
    | .error e => some (.error e)
    | .ok (.done r) => some (.ok r)
    | .ok (.again s') => retry round fuel (n + 1) s'

variable {round : ℕ → σ → Except ε (Round σ ρ)} {fuel n : ℕ} {s : σ} {r : ρ}

/-- A loop that has ended does not need more rounds. -/
lemma retry_add {x : Except ε ρ} (h : retry round fuel n s = some x) (more : ℕ) :
    retry round (fuel + more) n s = some x := by
  induction fuel generalizing n s with
  | zero => cases h
  | succ fuel ih =>
    rw [Nat.add_right_comm, retry]
    rw [retry] at h
    match hround : round n s with
    | .error e =>
      rw [hround] at h
      exact h
    | .ok (.done r) =>
      rw [hround] at h
      exact h
    | .ok (.again s') =>
      rw [hround] at h
      exact ih h

/-- The invariant rule: a result is that of a round from a state that satisfies what the rounds
keep. -/
lemma exists_round_of_retry (I : σ → Prop)
    (hagain : ∀ n s s', I s → round n s = .ok (.again s') → I s') (hs : I s)
    (h : retry round fuel n s = some (.ok r)) : ∃ n' s', I s' ∧ round n' s' = .ok (.done r) := by
  induction fuel generalizing n s with
  | zero => cases h
  | succ fuel ih =>
    rw [retry] at h
    match hround : round n s with
    | .error e =>
      rw [hround] at h
      cases h
    | .ok (.done r') =>
      rw [hround] at h
      cases h
      exact ⟨n, s, hs, hround⟩
    | .ok (.again s') =>
      rw [hround] at h
      exact ih (hagain n s s' hs hround) h

/-- A loop that raises a key to one of some values ends. -/
lemma exists_retry_eq [LinearOrder α] (I : σ → Prop) (key : σ → α) (values : List α)
    (hround : ∀ n s, I s → (∃ r, round n s = .ok (.done r)) ∨
      ∃ s', round n s = .ok (.again s') ∧ I s' ∧ key s < key s' ∧ key s' ∈ values)
    (hs : I s) (hfuel : (values.filter fun v => key s < v).length < fuel) :
    ∃ r, retry round fuel n s = some (.ok r) := by
  induction fuel generalizing n s with
  | zero => cases hfuel
  | succ fuel ih =>
    rw [retry]
    obtain ⟨r, hr⟩ | ⟨s', hagain, hs', hlt, hmem⟩ := hround n s hs
    · rw [hr]
      exact ⟨r, rfl⟩
    · rw [hagain]
      refine ih hs' ?_
      -- the value that the key is raised to is above the old key and not above itself
      have hfilter : (values.filter fun v => key s' < v) =
          (values.filter fun v => key s < v).filter fun v => key s' < v := by
        rw [List.filter_filter]
        refine List.filter_congr fun v _ => ?_
        rw [Bool.eq_iff_iff, Bool.and_eq_true, decide_eq_true_eq, decide_eq_true_eq]
        exact ⟨fun h => ⟨h, hlt.trans h⟩, fun h => h.1⟩
      have hless : (values.filter fun v => key s' < v).length <
          (values.filter fun v => key s < v).length := by
        rw [hfilter]
        refine List.length_filter_lt_length_iff_exists.mpr ⟨key s', ?_, ?_⟩
        · exact List.mem_filter.mpr ⟨hmem, decide_eq_true hlt⟩
        · simp
      omega

end RetryLoop
