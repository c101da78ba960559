import Mathlib.Algebra.BigOperators.Group.List.Basic
import Mathlib.Algebra.Order.BigOperators.Group.List
import Mathlib.Tactic.Linarith

/-!
# Sums of 64-bit integers

A running sum of `Int64` values is the integer sum of the values modulo 2 ^ 64, in whatever order
they are added, and it is the integer sum itself if that is in range.
-/

namespace Int64Sum

/-- The integer is the value of an `Int64`. -/
def InRange (n : ℤ) : Prop := -2 ^ 63 ≤ n ∧ n < 2 ^ 63

lemma inRange_toInt (a : Int64) : InRange a.toInt := ⟨a.le_toInt, a.toInt_lt⟩

lemma bmod_eq_of_inRange {n : ℤ} (h : InRange n) : n.bmod (2 ^ 64) = n := by
  obtain ⟨hge, hlt⟩ := h
  exact Int.bmod_eq_of_le (by norm_num; omega) (by norm_num; omega)

/-- A small unsigned integer is the same as a signed one. -/
lemma toInt_toInt64 {a : UInt64} (h : a.toNat < 2 ^ 63) : a.toInt64.toInt = a.toNat := by
  have hlt : 2 * a.toBitVec.toNat < 2 ^ 64 := by
    rw [UInt64.toNat_toBitVec]
    omega
  rw [← Int64.toInt_toBitVec, UInt64.toBitVec_toInt64, BitVec.toInt_eq_toNat_of_lt hlt,
    UInt64.toNat_toBitVec]

/-- The unsigned integer with the bits of a signed one. -/
lemma toNat_toUInt64 (a : Int64) : (a.toUInt64.toNat : ℤ) = a.toInt % 2 ^ 64 := by
  have hbits : a.toInt = (a.toUInt64.toNat : ℤ).bmod (2 ^ 64) := by
    rw [← Int64.toInt_toBitVec, BitVec.toInt_eq_toNat_bmod]
    rfl
  have hsmall := a.toUInt64.toNat_lt
  have hpow : (2 : ℤ) ^ 64 = ((2 ^ 64 : ℕ) : ℤ) := by norm_num
  rw [hbits, hpow, Int.bmod_emod]
  exact (Int.emod_eq_of_lt (by omega) (by omega)).symm

/-- An addition that stays in range does not wrap around. -/
lemma toInt_add {a b : Int64} (h : InRange (a.toInt + b.toInt)) :
    (a + b).toInt = a.toInt + b.toInt := by
  rw [Int64.toInt_add, bmod_eq_of_inRange h]

/-- A subtraction that stays in range does not wrap around. -/
lemma toInt_sub {a b : Int64} (h : InRange (a.toInt - b.toInt)) :
    (a - b).toInt = a.toInt - b.toInt := by
  rw [Int64.toInt_sub, bmod_eq_of_inRange h]

lemma toInt_max (a b : Int64) : (max a b).toInt = max a.toInt b.toInt := by
  have hmax : max a b = if a ≤ b then b else a := rfl
  rw [hmax]
  split_ifs with hle
  · exact (max_eq_right (Int64.le_iff_toInt_le.mp hle)).symm
  · exact (max_eq_left (Int64.lt_iff_toInt_lt.mp (Int64.not_le.mp hle)).le).symm

lemma toInt_min (a b : Int64) : (min a b).toInt = min a.toInt b.toInt := by
  have hmin : min a b = if a ≤ b then a else b := rfl
  rw [hmin]
  split_ifs with hle
  · exact (min_eq_left (Int64.le_iff_toInt_le.mp hle)).symm
  · exact (min_eq_right (Int64.lt_iff_toInt_lt.mp (Int64.not_le.mp hle)).le).symm

/-- The integer sum of the values. -/
def total (values : List Int64) : ℤ := (values.map Int64.toInt).sum

@[simp] lemma total_nil : total [] = 0 := rfl

@[simp] lemma total_cons (v : Int64) (values : List Int64) :
    total (v :: values) = v.toInt + total values := by
  simp [total]

@[simp] lemma total_append (values values' : List Int64) :
    total (values ++ values') = total values + total values' := by
  simp [total]

lemma total_perm {values values' : List Int64} (h : values.Perm values') :
    total values = total values' :=
  (h.map Int64.toInt).sum_eq

/-- A running sum is the integer sum, wrapped around. -/
lemma foldl_add_eq (values : List Int64) (a : Int64) :
    values.foldl (· + ·) a = a + Int64.ofInt (total values) := by
  induction values generalizing a with
  | nil =>
    rw [List.foldl_nil, total_nil]
    exact (Int64.add_zero a).symm
  | cons v values ih =>
    rw [List.foldl_cons, ih, total_cons, Int64.ofInt_add, Int64.ofInt_toInt, Int64.add_assoc]

variable {values : List Int64}

/-- A running sum whose integer sum is in range does not wrap around. -/
lemma toInt_foldl_add (h : InRange (total values)) :
    (values.foldl (· + ·) 0).toInt = total values := by
  rw [foldl_add_eq, Int64.zero_add, Int64.toInt_ofInt_of_le h.1 h.2]

/-- The sum of values that are not negative is not negative. -/
lemma total_nonneg (h : ∀ v ∈ values, 0 ≤ v.toInt) : 0 ≤ total values := by
  refine List.sum_nonneg fun n hn => ?_
  obtain ⟨v, hv, rfl⟩ := List.mem_map.mp hn
  exact h v hv

/-- The sum of values below a bound is at most their number times the bound. -/
lemma total_le {bound : ℤ} (h : ∀ v ∈ values, v.toInt ≤ bound) :
    total values ≤ values.length * bound := by
  induction values with
  | nil => simp
  | cons v values ih =>
    have hv : v.toInt ≤ bound := h v List.mem_cons_self
    have hrest := ih fun w hw => h w (List.mem_cons_of_mem _ hw)
    rw [total_cons, List.length_cons]
    push_cast
    linarith

end Int64Sum
