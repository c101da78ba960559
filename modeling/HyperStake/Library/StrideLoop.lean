import Mathlib.Data.Nat.Bitwise
import Mathlib.Data.BitVec

/-!
# Loops over multiples of a power of two

A loop `for (page = first; page <= last; page += stride)` over machine words, for a stride that is a
power of two and for multiples of it.  It visits the multiples one after the other
(`strideLoop_spec`), unless the last one is the highest of the type: then its successor is zero, and
the loop does not end (`strideLoop_endless`).
-/

namespace StrideLoop

variable {w k : ℕ} {ε σ : Type*}

/-- The loop, for some number of turns at most. -/
def strideLoop (endless : ε) (step : σ → BitVec w → Except ε σ) (stride last : BitVec w) :
    ℕ → BitVec w → σ → Except ε σ
  | 0, _, _ => .error endless
  | fuel + 1, page, s =>
    if page ≤ last then
      (step s page).bind (strideLoop endless step stride last fuel (page + stride))
    else .ok s

/-- The multiples of the stride. -/
def multiple (w k i : ℕ) : BitVec w := BitVec.ofNat w (i * 2 ^ k)

lemma toNat_multiple {i : ℕ} (h : i * 2 ^ k < 2 ^ w) : (multiple w k i).toNat = i * 2 ^ k := by
  rw [multiple, BitVec.toNat_ofNat, Nat.mod_eq_of_lt h]

variable {stride x : BitVec w}

lemma multiple_add (hstride : stride.toNat = 2 ^ k) (i : ℕ) :
    multiple w k i + stride = multiple w k (i + 1) := by
  apply BitVec.eq_of_toNat_eq
  rw [BitVec.toNat_add, multiple, multiple, BitVec.toNat_ofNat, BitVec.toNat_ofNat, hstride,
    Nat.mod_add_mod, add_mul, one_mul]

/-- What a turn keeps holds behind the last multiple. -/
lemma strideLoop_spec (endless : ε) {step : σ → BitVec w → Except ε σ}
    (hstride : stride.toNat = 2 ^ k) {b : ℕ} (hb : (b + 1) * 2 ^ k < 2 ^ w) {I : ℕ → σ → Prop}
    (n : ℕ) : ∀ {a : ℕ} {s : σ}, a + n = b + 1 → (∀ i s, a ≤ i → i ≤ b → I i s →
      ∃ s', step s (multiple w k i) = .ok s' ∧ I (i + 1) s') → I a s →
    ∃ s', I (b + 1) s' ∧ ∀ fuel > n,
      strideLoop endless step stride (multiple w k b) fuel (multiple w k a) s = .ok s' := by
  have hlt : ∀ i ≤ b + 1, i * 2 ^ k < 2 ^ w := fun i hi =>
    (Nat.mul_le_mul_right _ hi).trans_lt hb
  have hle : ∀ i ≤ b + 1, (multiple w k i ≤ multiple w k b ↔ i ≤ b) := by
    intro i hi
    rw [BitVec.le_def, toNat_multiple (hlt i hi), toNat_multiple (hlt b b.le_succ),
      Nat.mul_le_mul_right_iff (Nat.two_pow_pos k)]
  induction n with
  | zero =>
    intro a s hn hstep hI
    obtain rfl : a = b + 1 := hn
    refine ⟨s, hI, fun fuel hfuel => ?_⟩
    obtain ⟨fuel, rfl⟩ := Nat.exists_eq_add_of_lt hfuel
    rw [strideLoop, if_neg fun h => absurd ((hle _ le_rfl).mp h) (by omega)]
  | succ n ih =>
    intro a s hn hstep hI
    obtain ⟨s', hturn, hI'⟩ := hstep a s le_rfl (by omega) hI
    obtain ⟨s'', hend, hloop⟩ := ih (by omega) (fun i s hi => hstep i s (by omega)) hI'
    refine ⟨s'', hend, fun fuel hfuel => ?_⟩
    obtain ⟨fuel, rfl⟩ := Nat.exists_eq_add_of_lt hfuel
    rw [strideLoop, if_pos ((hle a (by omega)).mpr (by omega)), hturn, multiple_add hstride]
    exact hloop _ (by omega)

/-- Behind the highest multiple comes zero. -/
lemma strideLoop_endless {endless : ε} {step : σ → BitVec w → Except ε σ}
    (hstride : stride.toNat = 2 ^ k) (hstep : ∀ s page, ∃ s', step s page = .ok s') {b : ℕ}
    (hb : (b + 1) * 2 ^ k = 2 ^ w) (fuel i : ℕ) (s : σ) :
    strideLoop endless step stride (multiple w k b) fuel (multiple w k i) s = .error endless := by
  have hpos := Nat.two_pow_pos k
  have hle : ∀ i, multiple w k i ≤ multiple w k b := by
    intro i
    have hlast : b * 2 ^ k < 2 ^ w := by
      rw [← hb]
      exact Nat.mul_lt_mul_of_pos_right b.lt_succ_self hpos
    rw [BitVec.le_def, toNat_multiple hlast, multiple, BitVec.toNat_ofNat, ← hb,
      Nat.mul_mod_mul_right]
    exact Nat.mul_le_mul_right _ (Nat.le_of_lt_succ (Nat.mod_lt i b.succ_pos))
  induction fuel generalizing i s with
  | zero => rfl
  | succ fuel ih =>
    obtain ⟨s', hturn⟩ := hstep s (multiple w k i)
    rw [strideLoop, if_pos (hle i), hturn, multiple_add hstride]
    exact ih (i + 1) s'

/-! ## Masks -/

lemma toNat_sub_one (hx : x.toNat ≠ 0) : (x - 1).toNat = x.toNat - 1 := by
  have hlt := x.isLt
  have hone : (1 : BitVec w).toNat = 1 :=
    (BitVec.toNat_ofNat 1 w).trans (Nat.mod_eq_of_lt (by omega))
  rw [BitVec.toNat_sub_of_le (by rw [BitVec.le_def, hone]; omega), hone]

/-- A number is a power of two if it has no bit in common with its predecessor. -/
lemma exists_two_pow (hx : x ≠ 0) (h : x &&& (x - 1) = 0) : ∃ k < w, x.toNat = 2 ^ k := by
  have hne : x.toNat ≠ 0 := fun hzero => hx (BitVec.eq_of_toNat_eq hzero)
  have hand : x.toNat &&& (x.toNat - 1) = 0 := by
    rw [← toNat_sub_one hne, ← BitVec.toNat_and, h]
    rfl
  obtain ⟨k, hk⟩ := (Nat.and_sub_one_eq_zero_iff_isPowerOfTwo hne).mp hand
  exact ⟨k, (Nat.pow_lt_pow_iff_right (by decide)).mp (hk ▸ x.isLt), hk⟩

/-- The mask of a power of two clears the bits below it. -/
lemma and_not_sub_one (hx : x.toNat = 2 ^ k) (addr : BitVec w) :
    addr &&& ~~~(x - 1) = multiple w k (addr.toNat / 2 ^ k) := by
  have hne : x.toNat ≠ 0 := hx ▸ (Nat.two_pow_pos k).ne'
  have hlow : ∀ i, (x - 1).getLsbD i = decide (i < k) := by
    intro i
    rw [BitVec.getLsbD, toNat_sub_one hne, hx, Nat.testBit_two_pow_sub_one]
  refine BitVec.eq_of_getLsbD_eq fun i hi => ?_
  rw [BitVec.getLsbD_and, BitVec.getLsbD_not, hlow, multiple, BitVec.getLsbD_ofNat,
    Nat.testBit_mul_two_pow, Nat.testBit_div_two_pow, decide_eq_true hi, Bool.true_and,
    Bool.true_and]
  by_cases hk : k ≤ i
  · rw [Nat.sub_add_cancel hk, decide_eq_true hk, decide_eq_false (not_lt.mpr hk)]
    simp [BitVec.getLsbD]
  · rw [decide_eq_false hk, decide_eq_true (not_le.mp hk)]
    simp

end StrideLoop
