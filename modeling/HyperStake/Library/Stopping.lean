import Mathlib.Logic.Basic

/-!
# Computations with a state that may stop

A computation of `ExceptT ε (StateM σ)` returns a value or stops with a reason, and leaves a state
in both cases.  `Leads x Q E s` says where it leads from a state: the value and the state satisfy
`Q`, or the reason and the state satisfy `E`.  The rules take a computation apart at its binds, so
that what a composed computation does is read off from what its parts do.
-/

universe u

namespace Stopping

variable {σ ε α β : Type u} {x y : ExceptT ε (StateM σ) α} {f : α → ExceptT ε (StateM σ) β}
  {Q Q' : α → σ → Prop} {R : β → σ → Prop} {E E' : ε → σ → Prop} {s s' : σ}

/-- What a computation does from a state. -/
def outcome (x : ExceptT ε (StateM σ) α) (s : σ) : Except ε α × σ := (x.run.run s).run

/-- A computation leads from a state to a value and a state in `Q`, or it stops with a reason and a
state in `E`. -/
def Leads (x : ExceptT ε (StateM σ) α) (Q : α → σ → Prop) (E : ε → σ → Prop) (s : σ) : Prop :=
  match outcome x s with
  | (.ok a, s') => Q a s'
  | (.error e, s') => E e s'

lemma leads_iff : Leads x Q E s ↔ (∀ a s', outcome x s = (.ok a, s') → Q a s') ∧
      ∀ e s', outcome x s = (.error e, s') → E e s' := by
  unfold Leads
  match outcome x s with
  | (.ok a, s') => simp
  | (.error e, s') => simp

/-! ## Outcomes -/

@[simp] lemma outcome_pure (a : α) : outcome (pure a : ExceptT ε (StateM σ) α) s = (.ok a, s) := rfl

@[simp] lemma outcome_throw (e : ε) :
    outcome (throw e : ExceptT ε (StateM σ) α) s = (.error e, s) := rfl

@[simp] lemma outcome_get : outcome (get : ExceptT ε (StateM σ) σ) s = (.ok s, s) := rfl

@[simp] lemma outcome_set : outcome (set s' : ExceptT ε (StateM σ) PUnit) s = (.ok ⟨⟩, s') := rfl

@[simp] lemma outcome_modify (g : σ → σ) :
    outcome (modify g : ExceptT ε (StateM σ) PUnit) s = (.ok ⟨⟩, g s) := rfl

lemma outcome_bind : outcome (x >>= f) s =
    match outcome x s with
    | (.ok a, s') => outcome (f a) s'
    | (.error e, s') => (.error e, s') := by
  unfold outcome
  rw [ExceptT.run_bind, StateT.run_bind]
  match h : (x.run.run s).run with
  | (.ok a, s') =>
    have hrun : x.run.run s = pure (.ok a, s') := h
    rw [hrun]
    rfl
  | (.error e, s') =>
    have hrun : x.run.run s = pure (.error e, s') := h
    rw [hrun]
    rfl

/-! ## Rules -/

@[simp] lemma leads_pure (a : α) : Leads (pure a) Q E s ↔ Q a s := Iff.rfl

@[simp] lemma leads_throw (e : ε) : Leads (throw e) Q E s ↔ E e s := Iff.rfl

@[simp] lemma leads_get {Q : σ → σ → Prop} : Leads get Q E s ↔ Q s s := Iff.rfl

@[simp] lemma leads_set {Q : PUnit → σ → Prop} : Leads (set s') Q E s ↔ Q ⟨⟩ s' := Iff.rfl

@[simp] lemma leads_modify {Q : PUnit → σ → Prop} (g : σ → σ) :
    Leads (modify g) Q E s ↔ Q ⟨⟩ (g s) := Iff.rfl

@[simp] lemma leads_bind :
    Leads (x >>= f) R E s ↔ Leads x (fun a s' => Leads (f a) R E s') E s := by
  unfold Leads
  rw [outcome_bind]
  match outcome x s with
  | (.ok a, s') => rfl
  | (.error e, s') => rfl

@[simp] lemma leads_ite {p : Prop} [Decidable p] :
    Leads (if p then x else y) Q E s ↔ if p then Leads x Q E s else Leads y Q E s := by
  by_cases hp : p
  · rw [if_pos hp, if_pos hp]
  · rw [if_neg hp, if_neg hp]

/-- A computation leads to whatever follows from where it leads. -/
lemma Leads.mono (h : Leads x Q E s) (hQ : ∀ a s', Q a s' → Q' a s')
    (hE : ∀ e s', E e s' → E' e s') : Leads x Q' E' s := by
  rw [leads_iff] at h ⊢
  exact ⟨fun a s' heq => hQ a s' (h.1 a s' heq), fun e s' heq => hE e s' (h.2 e s' heq)⟩

/-- What is known of a computation from two sides holds together. -/
lemma Leads.and (h : Leads x Q E s) (h' : Leads x Q' E' s) :
    Leads x (fun a s => Q a s ∧ Q' a s) (fun e s => E e s ∧ E' e s) s := by
  rw [leads_iff] at h h' ⊢
  exact ⟨fun a s' heq => ⟨h.1 a s' heq, h'.1 a s' heq⟩,
    fun e s' heq => ⟨h.2 e s' heq, h'.2 e s' heq⟩⟩

end Stopping
