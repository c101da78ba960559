import HyperStake.Library.LinkWalk

/-!
# Ancestors along links

An ancestor of a key is a key that a walk from it passes, the key itself included.  The way from a
key to an ancestor is the list of the keys that are passed before the ancestor is reached (`Way`).
On a walk that ends there is only one way to each ancestor, and the ways are the beginnings of the
list of its keys (`Walks.way_iff`).  So of two ancestors of one key one is an ancestor of the other.

The fork point of two keys is the common ancestor that all common ancestors are ancestors of.
-/

namespace LinkWalk

variable {κ τ : Type*} {find : κ → Option τ} {link : τ → κ}

/-- The keys that are passed from a key along the links until another one is reached, which is left
out. -/
inductive Way (find : κ → Option τ) (link : τ → κ) (a : κ) : κ → List κ → Prop
  | here {t : τ} : find a = some t → Way find link a a []
  | step {k : κ} {t : τ} {p : List κ} :
      find k = some t → Way find link a (link t) p → Way find link a k (k :: p)

/-- The first key is reached from the second one, or is the same. -/
def Ancestor (find : κ → Option τ) (link : τ → κ) (a k : κ) : Prop := ∃ p, Way find link a k p

/-- The lowest of the common ancestors of two keys. -/
structure IsForkPoint (find : κ → Option τ) (link : τ → κ) (a h k : κ) : Prop where
  left : Ancestor find link a h
  right : Ancestor find link a k
  lowest : ∀ b, Ancestor find link b h → Ancestor find link b k → Ancestor find link b a

variable {p : List κ}

/-- A way ends at a key that is found. -/
lemma Way.exists_find {a k : κ} (h : Way find link a k p) : ∃ t, find a = some t := by
  induction h with
  | here hsome => exact ⟨_, hsome⟩
  | step _ _ ih => exact ih

/-- A way goes on with another one. -/
lemma Way.trans {a b k : κ} {p q : List κ} (h : Way find link a k p) (h' : Way find link b a q) :
    Way find link b k (p ++ q) := by
  induction h with
  | here _ => exact h'
  | step hsome _ ih => exact .step hsome ih

/-- The last key that is passed is linked to the ancestor. -/
lemma Way.of_concat {a h k : κ} (hway : Way find link a k (p ++ [h])) :
    Way find link h k p ∧ ∃ t, find h = some t ∧ link t = a ∧ Way find link a a [] := by
  induction p generalizing k with
  | nil =>
    cases hway with | step hfound hrest =>
    cases hrest with | here ha =>
    exact ⟨.here hfound, _, hfound, rfl, .here ha⟩
  | cons j p ih =>
    cases hway with | step hfound hrest =>
    obtain ⟨hway, hlast⟩ := ih hrest
    exact ⟨.step hfound hway, hlast⟩

namespace Walks

variable {a b k : κ} {l : List τ}

section

variable (h : Walks find link k l)

include h

/-- The ways from a key are the beginnings of the list of the keys on its walk. -/
lemma way_iff : Way find link a k p ↔ ∃ q, keys link k l = p ++ a :: q := by
  induction h generalizing p with
  | stop hnone =>
    constructor
    · intro hway
      cases hway with
      | here hsome =>
        rw [hnone] at hsome
        cases hsome
      | step hsome _ =>
        rw [hnone] at hsome
        cases hsome
    · rintro ⟨q, hq⟩
      cases p <;> cases hq
  | @step k t l hsome hrest ih =>
    constructor
    · intro hway
      cases hway with
      | here _ => exact ⟨keys link (link t) l, rfl⟩
      | step hsome' hrest' =>
        rw [hsome] at hsome'
        cases hsome'
        obtain ⟨q, hq⟩ := ih.mp hrest'
        exact ⟨q, congrArg (k :: ·) hq⟩
    · rintro ⟨q, hq⟩
      cases p with
      | nil =>
        obtain ⟨rfl, -⟩ := List.cons.inj hq
        exact .here hsome
      | cons j p =>
        obtain ⟨rfl, hq'⟩ := List.cons.inj hq
        exact .step hsome (ih.mpr ⟨q, hq'⟩)

/-- The walk from a key is a way to an ancestor and the walk from there. -/
lemma walks_below (hway : Way find link a k p) :
    ∃ l', Walks find link a l' ∧ keys link k l = p ++ keys link a l' := by
  induction hway generalizing l with
  | here _ => exact ⟨l, h, rfl⟩
  | @step k t p hsome _ ih =>
    cases h with
    | stop hnone =>
      rw [hnone] at hsome
      cases hsome
    | @step _ t' l hsome' hrest =>
      rw [hsome] at hsome'
      cases hsome'
      obtain ⟨l', hl', hkeys⟩ := ih hrest
      exact ⟨l', hl', congrArg (k :: ·) hkeys⟩

/-- The ancestors of a key are the keys on its walk. -/
lemma ancestor_iff : Ancestor find link a k ↔ a ∈ keys link k l := by
  rw [List.mem_iff_append]
  exact exists_congr fun p => h.way_iff

/-- The way from a key to itself is empty. -/
lemma eq_nil_of_way (hp : Way find link k k p) : p = [] := by
  cases hp with
  | here _ => rfl
  | step hsome hrest =>
    -- the key would be passed twice
    have hnodup := h.nodup_keys
    obtain ⟨q, hq⟩ := h.way_iff.mp (.step hsome hrest)
    rw [hq] at hnodup
    exact absurd (List.mem_append_right _ List.mem_cons_self) (List.nodup_cons.mp hnodup).1

/-- Two keys that are ancestors of each other are the same. -/
lemma ancestor_antisymm (ha : Ancestor find link a k) (hk : Ancestor find link k a) : a = k := by
  obtain ⟨p, hp⟩ := ha
  obtain ⟨q, hq⟩ := hk
  have hnil := h.eq_nil_of_way (hp.trans hq)
  obtain ⟨rfl, -⟩ := List.append_eq_nil_iff.mp hnil
  cases hp
  rfl

end

end Walks

end LinkWalk
