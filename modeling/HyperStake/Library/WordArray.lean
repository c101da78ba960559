import Mathlib.Data.Nat.Digits.Lemmas
import Mathlib.Data.List.Induction

/-!
# Numbers in several words

An array of words of one width, the least significant word first, denotes a number (`value`).  The
steps of the usual loops over the words are followed on that number: a carry (`carry_step`), the
comparison of the highest words (`value_concat_lt`), and words that are or-ed into an array at the
places of a shift (`value_shiftLeft`, `value_shiftRight`).
-/

namespace WordArray

variable {w : ℕ}

/-- The number that some words denote. -/
def value (l : List (BitVec w)) : ℕ := Nat.ofDigits (2 ^ w) (l.map BitVec.toNat)

@[simp] lemma value_nil : value ([] : List (BitVec w)) = 0 := rfl

lemma value_cons (a : BitVec w) (l : List (BitVec w)) :
    value (a :: l) = a.toNat + 2 ^ w * value l := by
  simp [value, Nat.ofDigits_cons]

lemma value_concat (l : List (BitVec w)) (a : BitVec w) :
    value (l ++ [a]) = value l + 2 ^ (w * l.length) * a.toNat := by
  rw [value, List.map_append, Nat.ofDigits_append, List.length_map, ← pow_mul]
  simp [value]

@[simp] lemma value_replicate_zero (n : ℕ) : value (List.replicate n (0 : BitVec w)) = 0 := by
  induction n with
  | zero => rfl
  | succ n ih => rw [List.replicate_succ, value_cons, ih]; simp

lemma value_lt (l : List (BitVec w)) : value l < 2 ^ (w * l.length) := by
  induction l with
  | nil => simp
  | cons a l ih =>
    have ha := a.isLt
    calc value (a :: l) = a.toNat + 2 ^ w * value l := value_cons a l
      _ < 2 ^ w * (value l + 1) := by rw [mul_add, mul_one]; omega
      _ ≤ 2 ^ w * 2 ^ (w * l.length) := Nat.mul_le_mul_left _ ih
      _ = 2 ^ (w * (a :: l).length) := by
          rw [← pow_add, List.length_cons, mul_add, add_comm, mul_one]

variable {l m : List (BitVec w)}

/-- Arrays of one length denote different numbers. -/
lemma value_inj (hlength : l.length = m.length) : value l = value m ↔ l = m := by
  refine ⟨fun h => ?_, fun h => h ▸ rfl⟩
  induction l generalizing m with
  | nil => exact (List.length_eq_zero_iff.mp hlength.symm).symm
  | cons a l ih =>
    cases m with
    | nil => exact absurd hlength (Nat.succ_ne_zero _)
    | cons b m =>
      rw [value_cons, value_cons] at h
      have hword : a = b := by
        have hmod := congrArg (· % 2 ^ w) h
        simpa only [Nat.add_mul_mod_self_left, Nat.mod_eq_of_lt, BitVec.isLt, BitVec.toNat_inj]
          using hmod
      subst hword
      have hrest := Nat.eq_of_mul_eq_mul_left (Nat.two_pow_pos w) (Nat.add_left_cancel h)
      rw [ih (Nat.succ.inj hlength) hrest]

/-! ## Carries -/

/-- A word of the result is what is left of a sum, and the rest of the sum is carried. -/
lemma carry_step (x y n : ℕ) :
    x % 2 ^ w + 2 ^ w * ((x / 2 ^ w + y) % 2 ^ (w * n)) = (x + 2 ^ w * y) % 2 ^ (w * (n + 1)) := by
  rw [mul_add, mul_one, add_comm (w * n), pow_add, Nat.mod_mul, Nat.add_mul_mod_self_left,
    Nat.add_mul_div_left _ _ (Nat.two_pow_pos w)]

/-- An array and its complement add up to the highest number. -/
lemma value_map_not (l : List (BitVec w)) :
    value (l.map (~~~ ·)) + value l + 1 = 2 ^ (w * l.length) := by
  induction l with
  | nil => simp
  | cons a l ih =>
    have ha := a.isLt
    have hpow : 2 ^ (w * (a :: l).length) = 2 ^ w * (value (l.map (~~~ ·)) + value l + 1) := by
      rw [ih, List.length_cons, mul_add, mul_one, add_comm, pow_add]
    rw [hpow, List.map_cons, value_cons, value_cons, BitVec.toNat_not, mul_add, mul_add, mul_one]
    omega

/-! ## Comparisons -/

/-- The highest words decide unless they are equal. -/
lemma value_concat_lt (hlength : l.length = m.length) (a b : BitVec w) :
    value (l ++ [a]) < value (m ++ [b]) ↔ a < b ∨ a = b ∧ value l < value m := by
  rw [value_concat, value_concat, ← hlength]
  have hl := value_lt l
  have hm := value_lt m
  rw [← hlength] at hm
  rcases lt_trichotomy a.toNat b.toNat with hlt | heq | hgt
  · refine iff_of_true ?_ (Or.inl hlt)
    have hmul := Nat.mul_le_mul_left (2 ^ (w * l.length)) hlt
    rw [Nat.mul_succ] at hmul
    omega
  · rw [BitVec.toNat_inj.mp heq]
    simp
  · refine iff_of_false ?_ ?_
    · have hmul := Nat.mul_le_mul_left (2 ^ (w * l.length)) hgt
      rw [Nat.mul_succ] at hmul
      omega
    · rintro (hlt | ⟨rfl, -⟩)
      · exact absurd hlt (Nat.lt_asymm hgt)
      · exact lt_irrefl _ hgt

lemma value_concat_eq (hlength : l.length = m.length) (a b : BitVec w) :
    value (l ++ [a]) = value (m ++ [b]) ↔ a = b ∧ value l = value m := by
  rw [value_inj (by simp [hlength]), value_inj hlength]
  simp [and_comm]

/-! ## Shifts -/

/-- The bits of the number are those of the words. -/
lemma testBit_value (hw : 0 < w) (l : List (BitVec w)) (i : ℕ) :
    (value l).testBit i = (l.getD (i / w) 0).getLsbD (i % w) := by
  induction l generalizing i with
  | nil => simp
  | cons a l ih =>
    rw [value_cons, add_comm, Nat.testBit_two_pow_mul_add _ a.isLt]
    split_ifs with hi
    · rw [Nat.div_eq_of_lt hi, Nat.mod_eq_of_lt hi]
      rfl
    · rw [ih, Nat.div_eq_sub_div hw (not_lt.mp hi), ← Nat.mod_eq_sub_mod (not_lt.mp hi)]
      rfl

/-- `l[j] |= x`, if there is such a place. -/
def orAt (l : List (BitVec w)) (j : ℕ) (x : BitVec w) : List (BitVec w) := l.modify j (· ||| x)

@[simp] lemma length_orAt (l : List (BitVec w)) (j : ℕ) (x : BitVec w) :
    (orAt l j x).length = l.length := List.length_modify _ _ _

lemma getLsbD_orAt {m : ℕ} (hm : m < l.length) (j : ℕ) (x : BitVec w) (r : ℕ) :
    ((orAt l j x).getD m 0).getLsbD r = true ↔
      (l.getD m 0).getLsbD r = true ∨ j = m ∧ x.getLsbD r = true := by
  rw [orAt, List.getD_eq_getElem?_getD, List.getElem?_modify, List.getD_eq_getElem?_getD,
    List.getElem?_eq_getElem hm]
  by_cases hj : j = m
  · simp [hj]
  · simp [hj]

/-- A loop whose turns only set bits, of an array of zeros. -/
lemma getLsbD_foldl {turn : List (BitVec w) → ℕ → List (BitVec w)} {sets : ℕ → ℕ → ℕ → Prop}
    {len : ℕ} (hlength : ∀ l i, (turn l i).length = l.length)
    (hturn : ∀ l i m r, l.length = len → m < len → (((turn l i).getD m 0).getLsbD r = true ↔
      (l.getD m 0).getLsbD r = true ∨ sets i m r)) (n : ℕ) {m : ℕ} (hm : m < len) (r : ℕ) :
    (((List.range n).foldl turn (List.replicate len 0)).getD m 0).getLsbD r = true ↔
      ∃ i < n, sets i m r := by
  have hlen : ∀ n, ((List.range n).foldl turn (List.replicate len 0)).length = len := by
    intro n
    induction n with
    | zero => exact List.length_replicate
    | succ n ih => rw [List.range_succ, List.foldl_concat, hlength, ih]
  induction n with
  | zero =>
    rw [List.range_zero, List.foldl_nil, List.getD_eq_getElem?_getD,
      List.getElem?_replicate_of_lt hm]
    simp
  | succ n ih =>
    rw [List.range_succ, List.foldl_concat, hturn _ _ _ _ (hlen n) hm]
    refine (or_congr_left ih).trans ?_
    constructor
    · rintro (⟨i, hi, hset⟩ | hset)
      · exact ⟨i, Nat.lt_succ_of_lt hi, hset⟩
      · exact ⟨n, n.lt_succ_self, hset⟩
    · rintro ⟨i, hi, hset⟩
      rcases Nat.lt_succ_iff_lt_or_eq.mp hi with hlt | rfl
      · exact Or.inl ⟨i, hlt, hset⟩
      · exact Or.inr hset

lemma getLsbD_getD_of_le {m : ℕ} (hm : l.length ≤ m) (r : ℕ) : (l.getD m 0).getLsbD r = false := by
  rw [List.getD_eq_getElem?_getD, List.getElem?_eq_none hm]
  exact BitVec.getLsbD_zero

/-- The bits of a word that a shift of the array by `k` words and `s` bits to the left has moved. -/
def ShiftedLeft (a : List (BitVec w)) (k s i m r : ℕ) : Prop :=
  (i + k + 1 = m ∧ s ≠ 0 ∧ (a.getD i 0 >>> (w - s)).getLsbD r = true) ∨
    i + k = m ∧ (a.getD i 0 <<< s).getLsbD r = true

/-- The same for a shift to the right. -/
def ShiftedRight (a : List (BitVec w)) (k s i m r : ℕ) : Prop :=
  (i = m + k + 1 ∧ s ≠ 0 ∧ (a.getD i 0 <<< (w - s)).getLsbD r = true) ∨
    i = m + k ∧ (a.getD i 0 >>> s).getLsbD r = true

section Shifts

variable {r a : List (BitVec w)} {k s : ℕ}

/-- Within a word and the one above it a bit comes from at most one place. -/
lemma exists_shiftedLeft (hs : s < w) {m j : ℕ} (hj : j < w) (hm : m < a.length) :
    (∃ i < a.length, ShiftedLeft a k s i m j) ↔ w * k + s ≤ w * m + j ∧
      (a.getD ((w * m + j - (w * k + s)) / w) 0).getLsbD ((w * m + j - (w * k + s)) % w)
        = true := by
  have hw : 0 < w := by omega
  rcases lt_or_ge j s with hlow | hhigh
  · by_cases hk : k < m
    · obtain ⟨d, rfl⟩ := Nat.exists_eq_add_of_lt hk
      have hplace : w * (k + d + 1) + j - (w * k + s) = w * d + (w + j - s) := by
        rw [mul_add, mul_add, mul_one]
        omega
      have hle : w * k + s ≤ w * (k + d + 1) + j := by
        rw [mul_add, mul_add, mul_one]
        omega
      rw [hplace, Nat.mul_add_div hw, Nat.mul_add_mod, Nat.div_eq_of_lt (by omega), add_zero,
        Nat.mod_eq_of_lt (by omega), and_iff_right hle]
      have hbit : (a.getD d 0 >>> (w - s)).getLsbD j = (a.getD d 0).getLsbD (w + j - s) := by
        rw [BitVec.getLsbD_ushiftRight]
        congr 1
        omega
      rw [← hbit]
      constructor
      · rintro ⟨i, -, ⟨hi, -, hset⟩ | ⟨-, hset⟩⟩
        · rwa [show i = d by omega] at hset
        · rw [BitVec.getLsbD_shiftLeft, decide_eq_true hlow] at hset
          simp at hset
      · exact fun hset => ⟨d, by omega, Or.inl ⟨by omega, by omega, hset⟩⟩
    · refine iff_of_false ?_ fun h => ?_
      · rintro ⟨i, -, ⟨hi, -⟩ | ⟨-, hset⟩⟩
        · omega
        · rw [BitVec.getLsbD_shiftLeft, decide_eq_true hlow] at hset
          simp at hset
      · have hmul := Nat.mul_le_mul_left w (not_lt.mp hk)
        omega
  · by_cases hk : k ≤ m
    · obtain ⟨d, rfl⟩ := Nat.exists_eq_add_of_le hk
      have hplace : w * (k + d) + j - (w * k + s) = w * d + (j - s) := by
        rw [mul_add]
        omega
      have hle : w * k + s ≤ w * (k + d) + j := by
        rw [mul_add]
        omega
      rw [hplace, Nat.mul_add_div hw, Nat.mul_add_mod, Nat.div_eq_of_lt (by omega), add_zero,
        Nat.mod_eq_of_lt (by omega), and_iff_right hle]
      have hbit : (a.getD d 0 <<< s).getLsbD j = (a.getD d 0).getLsbD (j - s) := by
        rw [BitVec.getLsbD_shiftLeft, decide_eq_true hj, decide_eq_false (not_lt.mpr hhigh)]
        simp
      rw [← hbit]
      constructor
      · rintro ⟨i, -, ⟨-, -, hset⟩ | ⟨hi, hset⟩⟩
        · rw [BitVec.getLsbD_ushiftRight, BitVec.getLsbD_of_ge _ _ (by omega)] at hset
          cases hset
        · rwa [show i = d by omega] at hset
      · exact fun hset => ⟨d, by omega, Or.inr ⟨by omega, hset⟩⟩
    · refine iff_of_false ?_ fun h => ?_
      · rintro ⟨i, -, ⟨hi, -⟩ | ⟨hi, -⟩⟩
        · omega
        · omega
      · have hmul := Nat.mul_le_mul_left w (not_le.mp hk)
        rw [Nat.mul_succ] at hmul
        omega

/-- A shift to the left multiplies the number. -/
lemma value_shiftLeft (hs : s < w) (hlength : r.length = a.length)
    (hbits : ∀ m < a.length, ∀ j, (r.getD m 0).getLsbD j = true ↔
      ∃ i < a.length, ShiftedLeft a k s i m j) :
    value r = value a * 2 ^ (w * k + s) % 2 ^ (w * a.length) := by
  have hw : 0 < w := by omega
  refine Nat.eq_of_testBit_eq fun i => ?_
  have hword : i / w < a.length ↔ i < w * a.length := by
    rw [Nat.div_lt_iff_lt_mul hw, mul_comm]
  rw [Nat.testBit_mod_two_pow, Nat.testBit_mul_two_pow, testBit_value hw, testBit_value hw]
  by_cases hi : i / w < a.length
  · have hbit := (hbits _ hi (i % w)).trans (exists_shiftedLeft hs (Nat.mod_lt i hw) hi)
    rw [Nat.div_add_mod] at hbit
    rw [Bool.eq_iff_iff, hbit]
    simp [hword.mp hi]
  · rw [getLsbD_getD_of_le (hlength ▸ not_lt.mp hi), decide_eq_false fun hlt => hi (hword.mpr hlt),
      Bool.false_and]

/-- A bit that comes from the right place of the word, or of the one above it. -/
lemma exists_shiftedRight (hs : s < w) {m j : ℕ} (hj : j < w) :
    (∃ i < a.length, ShiftedRight a k s i m j) ↔
      (a.getD ((w * m + j + (w * k + s)) / w) 0).getLsbD ((w * m + j + (w * k + s)) % w)
        = true := by
  have hw : 0 < w := by omega
  have hlt : ∀ {i j}, (a.getD i 0).getLsbD j = true → i < a.length := by
    intro i j hset
    by_contra hi
    rw [getLsbD_getD_of_le (not_lt.mp hi)] at hset
    cases hset
  rcases lt_or_ge (j + s) w with hlow | hhigh
  · have hplace : w * m + j + (w * k + s) = w * (m + k) + (j + s) := by
      rw [mul_add]
      omega
    rw [hplace, Nat.mul_add_div hw, Nat.mul_add_mod, Nat.div_eq_of_lt hlow, add_zero,
      Nat.mod_eq_of_lt hlow]
    constructor
    · rintro ⟨i, -, ⟨-, hne, hset⟩ | ⟨rfl, hset⟩⟩
      · rw [BitVec.getLsbD_shiftLeft, decide_eq_true (show j < w - s by omega)] at hset
        simp at hset
      · rwa [BitVec.getLsbD_ushiftRight, add_comm s] at hset
    · refine fun hset => ⟨m + k, hlt hset, Or.inr ⟨rfl, ?_⟩⟩
      rwa [BitVec.getLsbD_ushiftRight, add_comm s]
  · have hplace : w * m + j + (w * k + s) = w * (m + k + 1) + (j + s - w) := by
      rw [mul_add, mul_add, mul_one]
      omega
    rw [hplace, Nat.mul_add_div hw, Nat.mul_add_mod, Nat.div_eq_of_lt (by omega), add_zero,
      Nat.mod_eq_of_lt (by omega)]
    have hbit : ∀ i, (a.getD i 0 <<< (w - s)).getLsbD j = (a.getD i 0).getLsbD (j + s - w) := by
      intro i
      rw [BitVec.getLsbD_shiftLeft, decide_eq_true hj, decide_eq_false (by omega)]
      simp only [Bool.not_false, Bool.true_and]
      congr 1
      omega
    constructor
    · rintro ⟨i, -, ⟨rfl, -, hset⟩ | ⟨-, hset⟩⟩
      · rwa [hbit] at hset
      · rw [BitVec.getLsbD_ushiftRight, BitVec.getLsbD_of_ge _ _ (by omega)] at hset
        cases hset
    · refine fun hset => ⟨m + k + 1, hlt hset, Or.inl ⟨rfl, by omega, ?_⟩⟩
      rwa [hbit]

/-- A shift to the right divides the number. -/
lemma value_shiftRight (hs : s < w) (hlength : r.length = a.length)
    (hbits : ∀ m < a.length, ∀ j, (r.getD m 0).getLsbD j = true ↔
      ∃ i < a.length, ShiftedRight a k s i m j) :
    value r = value a / 2 ^ (w * k + s) := by
  have hw : 0 < w := by omega
  refine Nat.eq_of_testBit_eq fun i => ?_
  rw [Nat.testBit_div_two_pow, testBit_value hw, testBit_value hw]
  by_cases hi : i / w < a.length
  · have hbit := (hbits _ hi (i % w)).trans (exists_shiftedRight hs (Nat.mod_lt i hw))
    rw [Nat.div_add_mod] at hbit
    exact Bool.eq_iff_iff.mpr hbit
  · have hle : a.length ≤ (i + (w * k + s)) / w :=
      (not_lt.mp hi).trans (Nat.div_le_div_right (Nat.le_add_right _ _))
    rw [getLsbD_getD_of_le (hlength ▸ not_lt.mp hi), getLsbD_getD_of_le hle]

end Shifts

end WordArray
