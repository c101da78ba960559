import Mathlib.Order.CompletePartialOrder
import Mathlib.Data.BitVec
import Mathlib.Data.Set.Basic

/-!
# Bit fields

Fields of adjacent bits in a bit vector: reading one by a shift and a mask, putting a value at a
position by a shift, and how the two compose when values for several fields are combined by "or".

`influencing f` is the set of positions that a function of a bit vector depends on.
-/

namespace BitField

variable {w : ℕ}

/-- The field of `width` bits that starts at position `lo`, shifted down to position 0. -/
def read (x : BitVec w) (lo width : ℕ) : BitVec w :=
  (x >>> lo) &&& (BitVec.allOnes w >>> (w - width))

variable {lo width : ℕ} {y : BitVec w}

/-- The bits of a field. -/
lemma getLsbD_read (x : BitVec w) (hwidth : width ≤ w) (i : ℕ) :
    (read x lo width).getLsbD i = (decide (i < width) && x.getLsbD (lo + i)) := by
  simp only [read, BitVec.getLsbD_and, BitVec.getLsbD_ushiftRight, BitVec.getLsbD_allOnes]
  have hiff : (w - width + i < w) ↔ i < width := by omega
  rw [decide_eq_decide.mpr hiff, Bool.and_comm]

/-- Two vectors that agree on a field are read alike there. -/
lemma read_congr {x : BitVec w} (hwidth : width ≤ w)
    (h : ∀ i, lo ≤ i → i < lo + width → x.getLsbD i = y.getLsbD i) :
    read x lo width = read y lo width := by
  apply BitVec.eq_of_getLsbD_eq
  intro i _
  rw [getLsbD_read x hwidth, getLsbD_read y hwidth]
  by_cases hi : i < width
  · rw [h (lo + i) (by omega) (by omega)]
  · simp [hi]

/-- A bit of a value that is known to fit in a field vanishes beyond the field. -/
lemma getLsbD_of_fits (hy : y.toNat < 2 ^ width) {i : ℕ} (hi : width ≤ i) :
    y.getLsbD i = false := by
  have hlt : y.toNat < 2 ^ i := lt_of_lt_of_le hy (Nat.pow_le_pow_right (by decide) hi)
  exact Nat.testBit_lt_two_pow hlt

/-- The bits of a value that fits in a field, put at its position, lie in the field. -/
lemma mem_field_of_getLsbD_shiftLeft {i : ℕ} (hy : y.toNat < 2 ^ width)
    (h : (y <<< lo).getLsbD i = true) : lo ≤ i ∧ i < lo + width := by
  rw [BitVec.getLsbD_shiftLeft] at h
  simp only [Bool.and_eq_true, Bool.not_eq_true', decide_eq_true_eq, decide_eq_false_iff_not] at h
  obtain ⟨⟨-, hlo⟩, hbit⟩ := h
  refine ⟨by omega, ?_⟩
  by_contra hhi
  rw [getLsbD_of_fits hy (by omega)] at hbit
  cases hbit

/-! ## Values combined by "or" -/

/-- A bit of a combination is a bit of one of the values. -/
lemma getLsbD_foldl_or {α : Type*} (f : α → BitVec w) (items : List α) (x : BitVec w) (i : ℕ) :
    (items.foldl (fun x item => x ||| f item) x).getLsbD i
      = (x.getLsbD i || items.any fun item => (f item).getLsbD i) := by
  induction items generalizing x with
  | nil => simp
  | cons item items ih =>
    rw [List.foldl_cons, ih, BitVec.getLsbD_or, List.any_cons, Bool.or_assoc]

/-! ## The positions that a function depends on -/

/-- The positions at which a change of the bit can change the value of the function. -/
def influencing {β : Type*} (f : BitVec w → β) : Set ℕ :=
  {i | ∃ x, f (x ^^^ BitVec.twoPow w i) ≠ f x}

/-- A function that only looks at a set of positions is influenced at no other. -/
lemma influencing_subset {β : Type*} {f : BitVec w → β} {s : Set ℕ}
    (h : ∀ x y, (∀ i ∈ s, x.getLsbD i = y.getLsbD i) → f x = f y) : influencing f ⊆ s := by
  rintro i ⟨x, hx⟩
  by_contra hi
  refine hx (h _ _ fun j hj => ?_)
  have hij : i ≠ j := fun hij => hi (hij ▸ hj)
  simp [BitVec.getLsbD_twoPow, hij]

end BitField
