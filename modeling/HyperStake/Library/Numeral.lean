import Mathlib.Data.Nat.Digits.Lemmas
import Mathlib.Data.List.TakeWhile

/-!
# Numerals with zeros in front

A list of digits, the most significant first, is a number with some zeros in front of it, and both
together determine the list.  So a list of digits can be rewritten in another radix, with as many
zeros in front as before, and back (`convert_convert`).
-/

namespace Numeral

variable {b c z n d : ℕ} {l : List ℕ}

/-- How many zeros a list of digits starts with. -/
def zeros (l : List ℕ) : ℕ := (l.takeWhile fun d => d = 0).length

/-- The number of a list of digits. -/
def number (b : ℕ) (l : List ℕ) : ℕ := Nat.ofDigits b l.reverse

/-- The digits of a number, with some zeros in front. -/
def numeral (b z n : ℕ) : List ℕ := List.replicate z 0 ++ (Nat.digits b n).reverse

/-- The same number in another radix, with the same zeros in front. -/
def convert (b c : ℕ) (l : List ℕ) : List ℕ := numeral c (zeros l) (number b l)

lemma number_replicate_append (z : ℕ) (l : List ℕ) :
    number b (List.replicate z 0 ++ l) = number b l := by
  rw [number, number, List.reverse_append, List.reverse_replicate, Nat.ofDigits_append,
    Nat.ofDigits_replicate_zero, mul_zero, add_zero]

lemma number_concat (l : List ℕ) (d : ℕ) : number b (l ++ [d]) = d + b * number b l := by
  rw [number, number, List.reverse_append, List.reverse_singleton, List.singleton_append,
    Nat.ofDigits_cons]

/-- Lists of digits of one length have different numbers. -/
lemma number_inj {l' : List ℕ} (hb : 1 < b) (hlength : l.length = l'.length) (hl : ∀ d ∈ l, d < b)
    (hl' : ∀ d ∈ l', d < b) (h : number b l = number b l') : l = l' := by
  refine List.reverse_injective (Nat.ofDigits_inj_of_len_eq hb ?_ (fun d hd => hl d ?_)
    (fun d hd => hl' d ?_) h)
  · rw [List.length_reverse, List.length_reverse, hlength]
  · exact List.mem_reverse.mp hd
  · exact List.mem_reverse.mp hd

@[simp] lemma number_numeral (b z n : ℕ) : number b (numeral b z n) = n := by
  rw [numeral, number_replicate_append, number, List.reverse_reverse, Nat.ofDigits_digits]

/-- A number does not start with a zero. -/
lemma takeWhile_digits (b n : ℕ) : ((Nat.digits b n).reverse.takeWhile fun d => d = 0) = [] := by
  cases hrev : (Nat.digits b n).reverse with
  | nil => rfl
  | cons d r =>
    have hne : Nat.digits b n ≠ [] := fun hnil => by
      rw [hnil] at hrev
      cases hrev
    have hn : n ≠ 0 := fun hzero => hne (by rw [hzero, Nat.digits_zero])
    have hlast := Nat.getLast_digit_ne_zero b hn
    have hd : (Nat.digits b n).getLast hne = d := by
      rw [List.getLast_eq_head_reverse]
      simp only [hrev, List.head_cons]
    rw [hd] at hlast
    exact List.takeWhile_cons_of_neg (by simpa using hlast)

@[simp] lemma zeros_numeral (b z n : ℕ) : zeros (numeral b z n) = z := by
  have hzeros : ∀ d ∈ List.replicate z 0, decide (d = 0) = true := fun d hd =>
    decide_eq_true (List.eq_of_mem_replicate hd)
  rw [zeros, numeral, List.takeWhile_append_of_pos hzeros, takeWhile_digits, List.append_nil,
    List.length_replicate]

/-- The zeros in front and the number are all there is. -/
lemma numeral_number (hb : 1 < b) (hl : ∀ d ∈ l, d < b) : numeral b (zeros l) (number b l) = l := by
  have hsplit := (List.takeWhile_append_dropWhile (p := fun d => decide (d = 0)) (l := l)).symm
  have htake : (l.takeWhile fun d => d = 0) = List.replicate (zeros l) 0 :=
    List.eq_replicate_iff.mpr ⟨rfl, fun d hd => by simpa using List.mem_takeWhile_imp hd⟩
  have hhead : ∀ h, (l.dropWhile fun d => d = 0).head h ≠ 0 := fun h => by
    simpa using List.head_dropWhile_not (fun d => decide (d = 0)) h
  rw [htake] at hsplit
  generalize (l.dropWhile fun d => d = 0) = r at hsplit hhead
  have hnumber : number b l = Nat.ofDigits b r.reverse := by
    rw [hsplit, number_replicate_append, number]
  have hdigits : Nat.digits b (Nat.ofDigits b r.reverse) = r.reverse := by
    refine Nat.digits_ofDigits b hb r.reverse (fun d hd => hl d ?_) fun hne => ?_
    · rw [hsplit]
      exact List.mem_append_right _ (List.mem_reverse.mp hd)
    · rw [List.getLast_reverse]
      exact hhead _
  rw [numeral, hnumber, hdigits, List.reverse_reverse, ← hsplit]

lemma lt_of_mem_convert (hc : 1 < c) (hd : d ∈ convert b c l) : d < c := by
  rcases List.mem_append.mp hd with hzero | hdigit
  · rw [List.eq_of_mem_replicate hzero]
    exact zero_lt_one.trans hc
  · exact Nat.digits_lt_base hc (List.mem_reverse.mp hdigit)

/-- What has been rewritten in another radix is rewritten back. -/
lemma convert_convert (hb : 1 < b) (hl : ∀ d ∈ l, d < b) : convert c b (convert b c l) = l := by
  rw [convert, convert, zeros_numeral, number_numeral, numeral_number hb hl]

end Numeral
