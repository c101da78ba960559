import Mathlib.Data.Set.Function

/-!
# Codes that can be read from the front

A code determines a value if this can be told from a string that starts with the code, together with
the rest of the string.  A code of a fixed length does so if it is injective, and codes that are put
one after the other do if each of them does.  A list can be told from the code of its length and the
codes of its elements.
-/

namespace PrefixCode

variable {α β γ δ σ : Type*} {encode encode₁ encode₂ : α → List σ} {s : Set α}

/-- On a set, the start of a string that a value is coded by determines a function of the value, and
the rest of the string. -/
def Determines (encode : α → List σ) (f : α → β) (s : Set α) : Prop :=
  ∀ ⦃a⦄, a ∈ s → ∀ ⦃b⦄, b ∈ s → ∀ ⦃r r'⦄, encode a ++ r = encode b ++ r' → f a = f b ∧ r = r'

namespace Determines

variable {f : α → β} {g : α → γ}

/-- The code of an image of the value. -/
lemma comp (h : Determines encode f s) {t : Set δ} (e : δ → α) (he : ∀ d ∈ t, e d ∈ s) :
    Determines (fun d => encode (e d)) (fun d => f (e d)) t :=
  fun a ha b hb _ _ heq => h (he a ha) (he b hb) heq

/-- Two codes one after the other. -/
lemma append (h₁ : Determines encode₁ f s) (h₂ : Determines encode₂ g s) :
    Determines (fun a => encode₁ a ++ encode₂ a) (fun a => (f a, g a)) s := by
  intro a ha b hb r r' h
  rw [List.append_assoc, List.append_assoc] at h
  obtain ⟨hf, hrest⟩ := h₁ ha hb h
  obtain ⟨hg, hrest⟩ := h₂ ha hb hrest
  exact ⟨Prod.ext hf hg, hrest⟩

/-- What is determined by a value that is determined. -/
lemma map (h : Determines encode f s) (hg : ∀ a ∈ s, ∀ b ∈ s, f a = f b → g a = g b) :
    Determines encode g s := by
  intro a ha b hb r r' heq
  obtain ⟨hf, hrest⟩ := h ha hb heq
  exact ⟨hg a ha b hb hf, hrest⟩

/-- The codes of as many elements. -/
lemma flatMap (h : Determines encode id s) {as bs : List α} (ha : ∀ a ∈ as, a ∈ s)
    (hb : ∀ b ∈ bs, b ∈ s) (hlength : as.length = bs.length) {r r' : List σ}
    (heq : as.flatMap encode ++ r = bs.flatMap encode ++ r') : as = bs ∧ r = r' := by
  induction as generalizing bs with
  | nil =>
    obtain rfl := List.length_eq_zero_iff.mp hlength.symm
    exact ⟨rfl, heq⟩
  | cons a as ih =>
    obtain ⟨b, bs, rfl⟩ := List.exists_cons_of_length_eq_add_one hlength.symm
    rw [List.flatMap_cons, List.flatMap_cons, List.append_assoc, List.append_assoc] at heq
    obtain ⟨hab, hrest⟩ := h (ha a List.mem_cons_self) (hb b List.mem_cons_self) heq
    obtain ⟨htail, hr⟩ := ih (fun x hx => ha x (List.mem_cons_of_mem _ hx))
      (fun x hx => hb x (List.mem_cons_of_mem _ hx)) (Nat.succ.inj hlength) hrest
    exact ⟨by rw [show a = b from hab, htail], hr⟩

/-- The code of the length of a list and those of its elements. -/
lemma counted {count : ℕ → List σ} {N : Set ℕ} (hcount : Determines count id N)
    (h : Determines encode id s) :
    Determines (fun as : List α => count as.length ++ as.flatMap encode) id
      {as : List α | as.length ∈ N ∧ ∀ a ∈ as, a ∈ s} := by
  intro as has bs hbs r r' heq
  rw [List.append_assoc, List.append_assoc] at heq
  obtain ⟨hlength, hrest⟩ := hcount has.1 hbs.1 heq
  exact h.flatMap has.2 hbs.2 hlength hrest

end Determines

end PrefixCode
