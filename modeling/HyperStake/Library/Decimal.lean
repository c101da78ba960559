import Mathlib.Data.List.TakeWhile
import Mathlib.Data.Nat.Digits.Lemmas

/-!
# Numbers as decimal text

A number is written by its decimal digits as characters of one byte, and read by the digits that a
text starts with.  What is written is read back (`number_decimal`).
-/

namespace Decimal

/-- The character of a digit. -/
def digitChar (d : ℕ) : UInt8 := UInt8.ofNat (48 + d)

def isDigit (c : UInt8) : Bool := decide (48 ≤ c.toNat) && decide (c.toNat ≤ 57)

/-- The decimal digits of a number, zero as one digit. -/
def decimal (n : ℕ) : List UInt8 :=
  if n = 0 then [digitChar 0] else (Nat.digits 10 n).reverse.map digitChar

/-- The number that the digits at the start of a text are, zero if there are none. -/
def number (text : List UInt8) : ℕ :=
  (text.takeWhile isDigit).foldl (fun n c => 10 * n + (c.toNat - 48)) 0

lemma toNat_digitChar {d : ℕ} (hd : d < 10) : (digitChar d).toNat = 48 + d := by
  rw [digitChar, UInt8.toNat_ofNat_of_lt']
  change 48 + d < 256
  omega

lemma isDigit_digitChar {d : ℕ} (hd : d < 10) : isDigit (digitChar d) = true := by
  rw [isDigit, toNat_digitChar hd]
  simp only [Bool.and_eq_true, decide_eq_true_eq]
  omega

/-- The digits are read from the most significant one. -/
lemma foldl_reverse_digits (digits : List ℕ) (h : ∀ d ∈ digits, d < 10) :
    (digits.reverse.map digitChar).foldl (fun n c => 10 * n + (c.toNat - 48)) 0
      = Nat.ofDigits 10 digits := by
  induction digits with
  | nil => rfl
  | cons d digits ih =>
    obtain ⟨hd, hdigits⟩ := List.forall_mem_cons.mp h
    rw [List.reverse_cons, List.map_append, List.foldl_append, ih hdigits, List.map_singleton,
      List.foldl_cons, List.foldl_nil, toNat_digitChar hd, Nat.ofDigits_cons]
    omega

lemma isDigit_of_mem_decimal {n : ℕ} {c : UInt8} (hc : c ∈ decimal n) : isDigit c = true := by
  unfold decimal at hc
  split_ifs at hc
  · rw [List.mem_singleton.mp hc]
    exact isDigit_digitChar (by decide)
  · obtain ⟨d, hd, rfl⟩ := List.mem_map.mp hc
    exact isDigit_digitChar (Nat.digits_lt_base (by decide) (List.mem_reverse.mp hd))

lemma decimal_ne_nil (n : ℕ) : decimal n ≠ [] := by
  unfold decimal
  split_ifs with hn
  · exact List.cons_ne_nil _ _
  · simpa [Nat.digits_eq_nil_iff_eq_zero] using hn

/-- What is written is read back. -/
lemma number_decimal (n : ℕ) : number (decimal n) = n := by
  have hall : (decimal n).takeWhile isDigit = decimal n :=
    List.takeWhile_eq_self_iff.mpr fun c hc => isDigit_of_mem_decimal hc
  rw [number, hall]
  unfold decimal
  split_ifs with hn
  · rw [hn]
    decide
  · rw [foldl_reverse_digits _ fun d hd => Nat.digits_lt_base (by decide) hd, Nat.ofDigits_digits]

/-! ## The number that a text of digits is -/

/-- The number that the characters of a text are, if they are digits. -/
def value (text : List UInt8) : ℕ := text.foldl (fun n c => 10 * n + (c.toNat - 48)) 0

variable {text text' : List UInt8} {n w k : ℕ}

lemma number_eq_value : number text = value (text.takeWhile isDigit) := rfl

@[simp] lemma value_nil : value [] = 0 := rfl

@[simp] lemma value_concat (c : UInt8) : value (text ++ [c]) = 10 * value text + (c.toNat - 48) := by
  rw [value, List.foldl_append]
  rfl

lemma value_append (text text' : List UInt8) :
    value (text ++ text') = value text * 10 ^ text'.length + value text' := by
  induction text' using List.reverseRecOn with
  | nil => simp
  | append_singleton text' c ih =>
    rw [← List.append_assoc, value_concat, value_concat, ih, List.length_append,
      List.length_singleton]
    ring

lemma value_cons (c : UInt8) (text : List UInt8) :
    value (c :: text) = (c.toNat - 48) * 10 ^ text.length + value text := by
  have happend := value_append [c] text
  rw [List.singleton_append] at happend
  rw [happend]
  simp [value]

lemma value_replicate_zero (k : ℕ) : value (List.replicate k 48) = 0 := by
  induction k with
  | zero => rfl
  | succ k ih =>
    rw [List.replicate_succ', value_concat, ih]
    rfl

lemma value_lt (h : ∀ c ∈ text, isDigit c = true) : value text < 10 ^ text.length := by
  induction text using List.reverseRecOn with
  | nil => exact Nat.one_pos
  | append_singleton text c ih =>
    have hlt := ih fun c' hc' => h c' (List.mem_append_left _ hc')
    have hc := h c (List.mem_append_right _ (List.mem_singleton_self c))
    rw [isDigit, Bool.and_eq_true, decide_eq_true_eq, decide_eq_true_eq] at hc
    rw [value_concat, List.length_append, List.length_singleton, pow_succ]
    omega

lemma value_decimal (n : ℕ) : value (decimal n) = n := by
  have hall : (decimal n).takeWhile isDigit = decimal n :=
    List.takeWhile_eq_self_iff.mpr fun c hc => isDigit_of_mem_decimal hc
  have hnumber := number_decimal n
  rwa [number_eq_value, hall] at hnumber

lemma length_decimal_le (hn : n < 10 ^ w) (hw : 0 < w) : (decimal n).length ≤ w := by
  unfold decimal
  split_ifs with hzero
  · exact hw
  · rw [List.length_map, List.length_reverse]
    exact (Nat.digits_length_le_iff (by decide) n).mpr hn

/-- A number with zeros in front. -/
def padded (w n : ℕ) : List UInt8 := (decimal n).leftpad w 48

lemma value_padded (w n : ℕ) : value (padded w n) = n := by
  rw [padded, List.leftpad, value_append, value_replicate_zero, value_decimal]
  omega

lemma isDigit_of_mem_padded {c : UInt8} (hc : c ∈ padded w n) : isDigit c = true := by
  rcases List.mem_append.mp hc with hc | hc
  · rw [List.eq_of_mem_replicate hc]
    decide
  · exact isDigit_of_mem_decimal hc

lemma length_padded (hn : n < 10 ^ w) (hw : 0 < w) : (padded w n).length = w := by
  have hle := length_decimal_le hn hw
  rw [padded, List.leftpad, List.length_append, List.length_replicate]
  omega

end Decimal
