import Mathlib.Data.Nat.Digits.Lemmas

/-!
# Fixed-width little-endian byte strings

A natural number written on a fixed number of bytes, least significant byte first, and the value
of such a byte string.  Writing on `k` bytes keeps exactly the residue modulo `256 ^ k`, which is
what a machine integer of that width holds, so that reading back is the identity on every number
that fits.
-/

namespace LittleEndian

/-- The `k` low-order bytes of `n`, least significant first. -/
def leBytes : ℕ → ℕ → List UInt8
  | 0, _ => []
  | k + 1, n => UInt8.ofNat n :: leBytes k (n / 256)

variable (k n : ℕ)

/-- Every byte is a quotient of the number. -/
lemma leBytes_eq_map : leBytes k n = (List.range k).map fun i => UInt8.ofNat (n / 256 ^ i) := by
  induction k generalizing n with
  | zero => rfl
  | succ k ih =>
    rw [leBytes, ih, List.range_succ_eq_map, List.map_cons, List.map_map, pow_zero, Nat.div_one]
    refine congrArg _ (List.map_congr_left fun i _ => ?_)
    rw [Function.comp_apply, Nat.div_div_eq_div_mul, Nat.succ_eq_add_one, pow_succ']

/-- The last byte is what is left of the number. -/
lemma leBytes_succ : leBytes (k + 1) n = leBytes k n ++ [UInt8.ofNat (n / 256 ^ k)] := by
  rw [leBytes_eq_map, leBytes_eq_map, List.range_succ, List.map_append, List.map_singleton]

/-- The number a little-endian byte string denotes. -/
def leValue (bs : List UInt8) : ℕ := Nat.ofDigits 256 (bs.map UInt8.toNat)

/-- A number written on `k` bytes takes exactly `k` bytes. -/
@[simp] lemma leBytes_length : (leBytes k n).length = k := by
  induction k generalizing n with
  | zero => rfl
  | succ k ih => simp [leBytes, ih]

/-- The empty byte string denotes zero. -/
@[simp] lemma leValue_nil : leValue [] = 0 := rfl

/-- The first byte of a little-endian byte string is its residue modulo `256`. -/
lemma leValue_cons (b : UInt8) (bs : List UInt8) :
    leValue (b :: bs) = b.toNat + 256 * leValue bs := by
  simp [leValue, Nat.ofDigits_cons]

/-- A byte string denotes a number that fits on it. -/
lemma leValue_lt (bs : List UInt8) : leValue bs < 256 ^ bs.length := by
  induction bs with
  | nil => simp
  | cons b bs ih =>
    have hb := b.toNat_lt
    rw [leValue_cons, List.length_cons, pow_succ']
    omega

/-- Writing a number on `k` bytes and reading it back leaves its residue modulo `256 ^ k`. -/
lemma leValue_leBytes : leValue (leBytes k n) = n % 256 ^ k := by
  induction k generalizing n with
  | zero => simp [leBytes, Nat.mod_one]
  | succ k ih =>
    have hbyte : (UInt8.ofNat n).toNat = n % 256 := UInt8.toNat_ofNat'
    rw [leBytes, leValue_cons, ih, hbyte, pow_succ', Nat.mod_mul]

/-- A number that fits on `k` bytes is read back unchanged. -/
lemma leValue_leBytes_of_lt {k n : ℕ} (h : n < 256 ^ k) : leValue (leBytes k n) = n := by
  rw [leValue_leBytes, Nat.mod_eq_of_lt h]

/-- Reading a byte string and writing it back leaves it. -/
lemma leBytes_leValue (bs : List UInt8) : leBytes bs.length (leValue bs) = bs := by
  induction bs with
  | nil => rfl
  | cons b bs ih =>
    have hb := b.toNat_lt
    have hdiv : (b.toNat + 256 * leValue bs) / 256 = leValue bs := by omega
    have hbyte : UInt8.ofNat (b.toNat + 256 * leValue bs) = b := by
      rw [← UInt8.toNat_inj, UInt8.toNat_ofNat']
      omega
    rw [List.length_cons, leBytes, leValue_cons, hdiv, hbyte, ih]

/-- On as many bytes as it has digits a number is written by its digits. -/
lemma leBytes_eq_digits {k n : ℕ} (hlt : n < 256 ^ (k + 1)) (hle : 256 ^ k ≤ n) :
    leBytes (k + 1) n = (Nat.digits 256 n).map UInt8.ofNat := by
  have hlength : (Nat.digits 256 n).length = k + 1 :=
    le_antisymm ((Nat.digits_length_le_iff (by decide) n).mpr hlt)
      ((Nat.lt_digits_length_iff (by decide) n).mpr hle)
  have hback : ((Nat.digits 256 n).map UInt8.ofNat).map UInt8.toNat = Nat.digits 256 n := by
    rw [List.map_map]
    refine (List.map_congr_left fun d hd => ?_).trans (List.map_id _)
    exact UInt8.toNat_ofNat_of_lt' (Nat.digits_lt_base (by decide) hd)
  have hvalue : leValue ((Nat.digits 256 n).map UInt8.ofNat) = n := by
    rw [leValue, hback, Nat.ofDigits_digits]
  have hbytes := leBytes_leValue ((Nat.digits 256 n).map UInt8.ofNat)
  rwa [hvalue, List.length_map, hlength] at hbytes

end LittleEndian
