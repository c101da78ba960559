import Mathlib.Data.List.Basic

/-!
# Loops that throw and work queues

A loop whose turns change a state and may throw: the state is then left as it is, and the turns that
are left are not taken.  And a queue of work: a turn takes the first item off the queue, changes the
state and appends new items.

The rules are the same for both: what every turn keeps is kept by the loop.  A queue is emptied if
the state has a measure that pays for the new items (`run_done`); the number of turns that a queue is
run for is then only a bound.
-/

namespace WorkQueue

variable {σ α ε : Type*}

/-- A loop over items whose turns may throw. -/
def foldThrow (turn : σ → α → σ × Option ε) : List α → σ → σ × Option ε
  | [], s => (s, none)
  | a :: items, s =>
    match turn s a with
    | (s, none) => foldThrow turn items s
    | (s, some e) => (s, some e)

variable {items queue : List α} {s : σ} {P : σ → α → Prop} {n : ℕ} {turn : σ → α → σ × Option ε}
  (motive : σ → Prop)

/-- What every turn keeps. -/
lemma foldThrow_invariant
    (hstep : ∀ s, ∀ a ∈ items, motive s → motive (turn s a).1) (hs : motive s) :
    motive (foldThrow turn items s).1 := by
  induction items generalizing s with
  | nil => exact hs
  | cons a items ih =>
    have hfirst := hstep s a List.mem_cons_self hs
    rw [foldThrow]
    rcases hturn : turn s a with ⟨s', _ | e⟩
    · rw [hturn] at hfirst
      exact ih (fun s b hb => hstep s b (List.mem_cons_of_mem _ hb)) hfirst
    · rw [hturn] at hfirst
      exact hfirst

/-- Something holds at every turn of a loop that is taken. -/
def FoldAlong (turn : σ → α → σ × Option ε) (P : σ → α → Prop) : List α → σ → Prop
  | [], _ => True
  | a :: items, s => P s a ∧
    match turn s a with
    | (s, none) => FoldAlong turn P items s
    | (_, some _) => True

/-- What every turn without an exception keeps at which something holds. -/
lemma foldThrow_spec (motive : σ → List α → Prop)
    (hstep : ∀ s a items s', motive s (a :: items) → P s a → turn s a = (s', none) →
      motive s' items) {s' : σ} (hs : motive s items) (halong : FoldAlong turn P items s)
    (hfold : foldThrow turn items s = (s', none)) : motive s' [] := by
  induction items generalizing s with
  | nil =>
    cases hfold
    exact hs
  | cons a items ih =>
    obtain ⟨hP, hrest⟩ := halong
    rw [foldThrow] at hfold
    rcases hturn : turn s a with ⟨s₁, _ | e⟩
    · rw [hturn] at hfold hrest
      exact ih (hstep s a items s₁ hs hP hturn) hrest hfold
    · rw [hturn] at hfold
      cases hfold

/-- A loop does not throw if none of its turns does. -/
lemma foldThrow_eq_none (hstep : ∀ s a, P s a → (turn s a).2 = none)
    (halong : FoldAlong turn P items s) : (foldThrow turn items s).2 = none := by
  induction items generalizing s with
  | nil => rfl
  | cons a items ih =>
    obtain ⟨hP, hrest⟩ := halong
    have hnone := hstep s a hP
    rw [foldThrow]
    rcases hturn : turn s a with ⟨s₁, _ | e⟩
    · rw [hturn] at hrest
      exact ih hrest
    · rw [hturn] at hnone
      cases hnone

/-- What holds of every state and item holds along every loop. -/
lemma foldAlong_of_forall (h : ∀ s a, P s a) (items : List α)
    (s : σ) : FoldAlong turn P items s := by
  induction items generalizing s with
  | nil => trivial
  | cons a items ih =>
    refine ⟨h s a, ?_⟩
    rcases turn s a with ⟨s', _ | e⟩
    · exact ih _
    · trivial

/-- A turn that changes nothing if it fails. -/
def ofExcept (turn : σ → α → Except ε σ) (s : σ) (a : α) : σ × Option ε :=
  match turn s a with
  | .ok s' => (s', none)
  | .error e => (s, some e)

/-! ### Loops that are watched -/

section Watch

variable {ω β : Type*} {turn : σ → α → σ × Option ε} {see : σ → α → β}
  {tell : ω → β → Except ε ω}

/-- A turn that tells something else of what is seen before it, unless it throws. -/
def watch (turn : σ → α → σ × Option ε) (see : σ → α → β) (tell : ω → β → Except ε ω)
    (t : σ × ω) (a : α) : (σ × ω) × Option ε :=
  match turn t.1 a with
  | (s, some e) => ((s, t.2), some e)
  | (s, none) =>
    match tell t.2 (see t.1 a) with
    | .ok w => ((s, w), none)
    | .error e => ((s, t.2), some e)

/-- What is seen before the turns that do not throw. -/
def seen (turn : σ → α → σ × Option ε) (see : σ → α → β) : List α → σ → List β
  | [], _ => []
  | a :: items, s =>
    match turn s a with
    | (s', none) => see s a :: seen turn see items s'
    | (_, some _) => []

/-- A loop that is watched does what the loop does and tells what is seen, unless telling throws. -/
lemma foldThrow_watch {items : List α} {s s' : σ} {w w' : ω} {o : Option ε}
    (h : foldThrow (watch turn see tell) items (s, w) = ((s', w'), o))
    (hquiet : ∀ w b e, tell w b = .error e → o ≠ some e) :
    foldThrow turn items s = (s', o) ∧ (seen turn see items s).foldlM tell w = .ok w' := by
  induction items generalizing s w with
  | nil =>
    cases h
    exact ⟨rfl, rfl⟩
  | cons a items ih =>
    rw [foldThrow, watch] at h
    rw [foldThrow, seen]
    rcases hturn : turn s a with ⟨s₁, _ | e⟩
    · simp only [hturn] at h ⊢
      cases htell : tell w (see s a) with
      | ok w₁ =>
        rw [htell] at h
        obtain ⟨hloop, htold⟩ := ih h
        refine ⟨hloop, ?_⟩
        rw [List.foldlM_cons, htell]
        exact htold
      | error e =>
        rw [htell] at h
        cases h
        exact absurd rfl (hquiet _ _ e htell)
    · simp only [hturn] at h ⊢
      cases h
      exact ⟨rfl, rfl⟩

end Watch

/-- A turn on the first item of a queue: the state, the new items, and whether it throws. -/
abbrev Turn (σ α ε : Type*) := σ → α → σ × List α × Option ε

/-- Run a queue for a number of turns: the state, the items that are left, and whether a turn has
thrown. -/
def run (turn : Turn σ α ε) : ℕ → List α → σ → σ × List α × Option ε
  | 0, queue, s => (s, queue, none)
  | _ + 1, [], s => (s, [], none)
  | n + 1, a :: queue, s =>
    match turn s a with
    | (s, new, none) => run turn n (queue ++ new) s
    | (s, new, some e) => (s, queue ++ new, some e)

/-- Something holds at every turn that is taken. -/
def Along (turn : Turn σ α ε) (P : σ → α → Prop) : ℕ → List α → σ → Prop
  | 0, _, _ => True
  | _ + 1, [], _ => True
  | n + 1, a :: queue, s => P s a ∧
    match turn s a with
    | (s, new, none) => Along turn P n (queue ++ new) s
    | (_, _, some _) => True

variable {turn : Turn σ α ε}

/-- What every turn keeps at which something holds. -/
lemma run_invariant (hstep : ∀ s a, motive s → P s a → motive (turn s a).1)
    (hs : motive s) (halong : Along turn P n queue s) : motive (run turn n queue s).1 := by
  induction n generalizing queue s with
  | zero => exact hs
  | succ n ih =>
    cases queue with
    | nil => exact hs
    | cons a queue =>
      obtain ⟨hP, hrest⟩ := halong
      have hfirst := hstep s a hs hP
      rw [run]
      rcases hturn : turn s a with ⟨s', new, _ | e⟩
      · rw [hturn] at hfirst hrest
        exact ih hfirst hrest
      · rw [hturn] at hfirst
        exact hfirst

/-- What every turn without an exception keeps, of the state and the items that are left. -/
lemma run_spec (motive : σ → List α → Prop)
    (hstep : ∀ s a queue s' new, motive s (a :: queue) → P s a → turn s a = (s', new, none) →
      motive s' (queue ++ new)) {left : List α} {s' : σ} (hs : motive s queue)
    (halong : Along turn P n queue s) (hrun : run turn n queue s = (s', left, none)) :
    motive s' left := by
  induction n generalizing queue s with
  | zero =>
    cases hrun
    exact hs
  | succ n ih =>
    cases queue with
    | nil =>
      cases hrun
      exact hs
    | cons a queue =>
      obtain ⟨hP, hrest⟩ := halong
      rw [run] at hrun
      rcases hturn : turn s a with ⟨s₁, new, _ | e⟩
      · rw [hturn] at hrun hrest
        exact ih (hstep s a queue s₁ new hs hP hturn) hrest hrun
      · rw [hturn] at hrun
        cases hrun

/-- A queue does not throw if none of its turns does. -/
lemma run_eq_none (hstep : ∀ s a, P s a → (turn s a).2.2 = none) (halong : Along turn P n queue s) :
    (run turn n queue s).2.2 = none := by
  induction n generalizing queue s with
  | zero => rfl
  | succ n ih =>
    cases queue with
    | nil => rfl
    | cons a queue =>
      obtain ⟨hP, hrest⟩ := halong
      have hnone := hstep s a hP
      rw [run]
      rcases hturn : turn s a with ⟨s₁, new, _ | e⟩
      · rw [hturn] at hrest
        exact ih hrest
      · rw [hturn] at hnone
        cases hnone

/-- What holds of every state and item holds along every queue. -/
lemma along_of_forall (h : ∀ s a, P s a) (n : ℕ) (queue : List α) (s : σ) :
    Along turn P n queue s := by
  induction n generalizing queue s with
  | zero => trivial
  | succ n ih =>
    cases queue with
    | nil => trivial
    | cons a queue =>
      refine ⟨h s a, ?_⟩
      rcases turn s a with ⟨s', new, _ | e⟩
      · exact ih _ _
      · trivial

/-- A queue is emptied, unless a turn throws, if the state has a measure that every other turn lowers
by the number of its new items at least, and the turns are as many as the items and the measure. -/
lemma run_done (measure : σ → ℕ)
    (hstep : ∀ s a, motive s → (turn s a).2.2 = none → motive (turn s a).1 ∧
      measure (turn s a).1 + (turn s a).2.1.length ≤ measure s) (hs : motive s)
    (hn : queue.length + measure s ≤ n) (hreturn : (run turn n queue s).2.2 = none) :
    (run turn n queue s).2.1 = [] := by
  induction n generalizing queue s with
  | zero =>
    have hnil : queue = [] := List.length_eq_zero_iff.mp (by omega)
    exact hnil
  | succ n ih =>
    cases queue with
    | nil => rfl
    | cons a queue =>
      rw [run] at hreturn ⊢
      rcases hturn : turn s a with ⟨s', new, _ | e⟩
      · obtain ⟨hkept, hmeasure⟩ := hstep s a hs (by rw [hturn])
        rw [hturn] at hkept hmeasure hreturn
        refine ih hkept ?_ hreturn
        rw [List.length_append]
        rw [List.length_cons] at hn
        dsimp only at hmeasure
        omega
      · rw [hturn] at hreturn
        cases hreturn

end WorkQueue
