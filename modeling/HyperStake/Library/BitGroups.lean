import HyperStake.Library.Numeral

/-!
# Regrouping bits

Digits of `a` bits are taken one by one and digits of `b` bits are given, with the bits in between
pending.  What has been given and the pending bits are the number that has been taken, so that what
has been taken determines the rest, and is determined by what has been given if the bits that are
pending at the end are zero.
-/

namespace BitGroups

open Numeral

/-- The digits `ds` of `a` bits have been taken, the digits `out` of `b` bits given, and `left` are
the `r` bits that are pending. -/
structure Regrouped (a b : ℕ) (ds out : List ℕ) (r left : ℕ) : Prop where
  taken : ∀ d ∈ ds, d < 2 ^ a
  given : ∀ d ∈ out, d < 2 ^ b
  bits : a * ds.length = b * out.length + r
  value : number (2 ^ a) ds = number (2 ^ b) out * 2 ^ r + left
  pending : left < 2 ^ r

namespace Regrouped

variable {a b : ℕ} {ds ds' out out' : List ℕ} {r r' left left' d : ℕ}

lemma nil (a b : ℕ) : Regrouped a b [] [] 0 0 :=
  ⟨by simp, by simp, by simp, by simp [number], by simp⟩

/-- A digit is taken. -/
lemma feed (h : Regrouped a b ds out r left) (hd : d < 2 ^ a) :
    Regrouped a b (ds ++ [d]) out (r + a) (left * 2 ^ a + d) where
  taken := List.forall_mem_append.mpr ⟨h.taken, List.forall_mem_singleton.mpr hd⟩
  given := h.given
  bits := by
    have hbits := h.bits
    rw [List.length_append, List.length_singleton]
    linarith
  value := by
    rw [number_concat, h.value, pow_add]
    ring
  pending := by
    calc left * 2 ^ a + d < left * 2 ^ a + 2 ^ a := Nat.add_lt_add_left hd _
      _ = (left + 1) * 2 ^ a := by ring
      _ ≤ 2 ^ r * 2 ^ a := Nat.mul_le_mul_right _ h.pending
      _ = 2 ^ (r + a) := (pow_add 2 r a).symm

/-- A digit is given. -/
lemma emit (h : Regrouped a b ds out (b + r) left) :
    Regrouped a b ds (out ++ [left / 2 ^ r]) r (left % 2 ^ r) where
  taken := h.taken
  given := by
    refine List.forall_mem_append.mpr ⟨h.given, List.forall_mem_singleton.mpr ?_⟩
    refine Nat.div_lt_of_lt_mul ?_
    rw [← pow_add, add_comm r b]
    exact h.pending
  bits := by
    have hbits := h.bits
    rw [List.length_append, List.length_singleton]
    linarith
  value := by
    have hsplit := Nat.div_add_mod left (2 ^ r)
    rw [h.value, number_concat, pow_add]
    linarith
  pending := Nat.mod_lt _ (Nat.two_pow_pos r)

/-- The two sides of a regrouping without a rest change places. -/
lemma symm (h : Regrouped a b ds out 0 left) : Regrouped b a out ds 0 0 where
  taken := h.given
  given := h.taken
  bits := h.bits.symm
  value := by
    have hzero := h.pending
    have hvalue := h.value
    rw [pow_zero] at hzero
    rw [pow_zero] at hvalue ⊢
    omega
  pending := Nat.one_pos

/-- The pending bits are given with zeros behind them. -/
lemma flush (h : Regrouped a b ds out r left) (hr : r ≤ b) :
    Regrouped b a (out ++ [left * 2 ^ (b - r)]) ds (b - r) 0 where
  taken := by
    refine List.forall_mem_append.mpr ⟨h.given, List.forall_mem_singleton.mpr ?_⟩
    calc left * 2 ^ (b - r) < 2 ^ r * 2 ^ (b - r) :=
          Nat.mul_lt_mul_of_pos_right h.pending (Nat.two_pow_pos _)
      _ = 2 ^ b := by rw [← pow_add, Nat.add_sub_cancel' hr]
  given := h.taken
  bits := by
    have hbits := h.bits
    have hsub := Nat.sub_add_cancel hr
    rw [List.length_append, List.length_singleton]
    linarith
  value := by
    have hpow : 2 ^ b = 2 ^ r * 2 ^ (b - r) := by rw [← pow_add, Nat.add_sub_cancel' hr]
    rw [number_concat, h.value, hpow]
    ring
  pending := Nat.two_pow_pos _

/-- What is given and what is pending are determined by what is taken. -/
lemma unique (h : Regrouped a b ds out r left) (h' : Regrouped a b ds out' r' left') (hr : r < b)
    (hr' : r' < b) : out = out' ∧ r = r' ∧ left = left' := by
  have hpos : 0 < b := (Nat.zero_le r).trans_lt hr
  have hbits := h.bits.symm.trans h'.bits
  have hlength : out.length = out'.length := by
    have hdiv := congrArg (· / b) hbits
    simpa only [Nat.mul_add_div hpos, Nat.div_eq_of_lt hr, Nat.div_eq_of_lt hr', add_zero]
      using hdiv
  have hrest : r = r' := by
    rw [hlength] at hbits
    exact Nat.add_left_cancel hbits
  subst hrest
  have hvalue := h.value.symm.trans h'.value
  have hnumber : number (2 ^ b) out = number (2 ^ b) out' := by
    have hdiv := congrArg (· / 2 ^ r) hvalue
    simpa only [Nat.add_comm, Nat.add_mul_div_right _ _ (Nat.two_pow_pos r),
      Nat.div_eq_of_lt h.pending, Nat.div_eq_of_lt h'.pending, Nat.zero_add] using hdiv
  have hone : 1 < 2 ^ b := Nat.one_lt_two_pow hpos.ne'
  refine ⟨number_inj hone hlength h.given h'.given hnumber, rfl, ?_⟩
  rw [hnumber] at hvalue
  exact Nat.add_left_cancel hvalue

/-- What is taken is determined by what is given, if the pending bits are zero. -/
lemma unique_taken (h : Regrouped a b ds out r 0) (h' : Regrouped a b ds' out r' 0) (hr : r < a)
    (hr' : r' < a) : ds = ds' ∧ r = r' := by
  have hbits := h.bits
  have hbits' := h'.bits
  have hlength : ds.length = ds'.length := by
    rcases lt_trichotomy ds.length ds'.length with hlt | heq | hgt
    · have hmul := Nat.mul_le_mul_left a hlt
      rw [Nat.mul_succ] at hmul
      omega
    · exact heq
    · have hmul := Nat.mul_le_mul_left a hgt
      rw [Nat.mul_succ] at hmul
      omega
  have hrest : r = r' := by
    rw [hlength] at hbits
    omega
  subst hrest
  have hone : 1 < 2 ^ a := Nat.one_lt_two_pow ((Nat.zero_le r).trans_lt hr).ne'
  exact ⟨number_inj hone hlength h.taken h'.taken (h.value.trans h'.value.symm), rfl⟩

end Regrouped

end BitGroups
