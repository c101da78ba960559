import HyperStake.Chain.Kernel
import Mathlib.Data.Nat.Bitwise

/-!
# The compact form of a target

`GetCompact` writes a number as a mantissa of three bytes and the number of its bytes, and
`SetCompact` reads it back.  The top bit of the mantissa is the sign, so that a number whose leading
byte has that bit keeps two bytes only and counts as one byte longer: its length is that of its
double (`compactSize`).

The length is written in one byte.  What is read back is the number without its low bytes exactly if
the number is less than `2 ^ 2039` (`keepsLeading_iff`).
-/

namespace HyperStake

/-! ## Writing and reading -/

/-- `BN_num_bytes`: the number of bytes of a magnitude. -/
def numBytes (n : ℕ) : ℕ := if n = 0 then 0 else n.log2 / 8 + 1

/-- `CBigNum::GetCompact`. -/
def getCompact (bn : ℤ) : UInt32 :=
  let nSize := numBytes bn.natAbs
  let nCompact := UInt32.ofNat (if nSize ≤ 3 then bn.natAbs <<< (8 * (3 - nSize))
    else bn.natAbs >>> (8 * (nSize - 3)))
  -- the sign bit is not part of the mantissa, which moves down by a byte if it reaches it
  let fShift := nCompact &&& 0x00800000 != 0
  let nMantissa := if fShift then nCompact >>> 8 else nCompact
  let nExponent := UInt32.ofNat (if fShift then nSize + 1 else nSize)
  nMantissa ||| nExponent <<< 24 ||| (if bn < 0 then 0x00800000 else 0)

variable {n nWord : ℕ}

lemma numBytes_le_iff {k : ℕ} : numBytes n ≤ k ↔ n < 256 ^ k := by
  have hpow : 256 ^ k = 2 ^ (8 * k) := by
    rw [Nat.pow_mul]
  by_cases hn : n = 0
  · simp [numBytes, hn]
  · rw [numBytes, if_neg hn, hpow, ← Nat.log2_lt hn]
    omega

/-- The number that a mantissa and an exponent stand for. -/
def decodeCompact (nWord nSize : ℕ) : ℕ :=
  if nSize ≤ 3 then nWord / 256 ^ (3 - nSize) else nWord * 256 ^ (nSize - 3)

/-- The sign bit of a compact form. -/
lemma and_signBit_ne_zero_iff (c : UInt32) :
    (c &&& 0x00800000 != 0) = true ↔ c.toNat / 2 ^ 23 % 2 = 1 := by
  have hnat : (c &&& 0x00800000).toNat = 2 ^ 23 * (c.toNat / 2 ^ 23 % 2) := by
    rw [UInt32.toNat_and, show (0x00800000 : UInt32).toNat = 2 ^ 23 from rfl, Nat.and_two_pow,
      Nat.toNat_testBit, Nat.mul_comm]
  rw [bne_iff_ne, ne_eq, ← UInt32.toNat_inj, hnat, UInt32.toNat_zero]
  omega

/-- `SetCompact` reads a sign, a mantissa and an exponent. -/
lemma setCompact_eq (c : UInt32) :
    setCompact c = if c.toNat / 2 ^ 23 % 2 = 1
      then -(decodeCompact (c.toNat % 2 ^ 23) (c.toNat / 2 ^ 24) : ℤ)
      else decodeCompact (c.toNat % 2 ^ 23) (c.toNat / 2 ^ 24) := by
  have hSize : (c >>> 24).toNat = c.toNat / 2 ^ 24 := by
    rw [UInt32.toNat_shiftRight, show (24 : UInt32).toNat % 32 = 24 from rfl,
      Nat.shiftRight_eq_div_pow]
  have hWord : (c &&& 0x007fffff).toNat = c.toNat % 2 ^ 23 := by
    rw [UInt32.toNat_and, show (0x007fffff : UInt32).toNat = 2 ^ 23 - 1 from rfl,
      Nat.and_two_pow_sub_one_eq_mod]
  have hbn : (if c >>> 24 ≤ 3 then (c &&& 0x007fffff).toNat >>> (8 * (3 - (c >>> 24).toNat))
      else (c &&& 0x007fffff).toNat <<< (8 * ((c >>> 24).toNat - 3)))
      = decodeCompact (c.toNat % 2 ^ 23) (c.toNat / 2 ^ 24) := by
    simp only [decodeCompact, hWord, UInt32.le_iff_toNat_le, hSize, Nat.shiftRight_eq_div_pow,
      Nat.shiftLeft_eq, Nat.pow_mul]
    rfl
  rw [setCompact, hbn]
  simp only [and_signBit_ne_zero_iff]

/-- A mantissa with an exponent, of which a byte is left. -/
lemma toNat_or_exponent (hWord : nWord < 2 ^ 24) (nSize : ℕ) :
    (UInt32.ofNat nWord ||| UInt32.ofNat nSize <<< 24).toNat = nSize % 256 * 2 ^ 24 + nWord := by
  have hshift : (UInt32.ofNat nSize <<< 24).toNat = nSize % 256 * 2 ^ 24 := by
    rw [UInt32.toNat_shiftLeft, UInt32.toNat_ofNat', show (24 : UInt32).toNat % 32 = 24 from rfl,
      Nat.shiftLeft_eq]
    omega
  rw [UInt32.toNat_or, hshift, UInt32.toNat_ofNat', Nat.mod_eq_of_lt (show nWord < 2 ^ 32 by omega),
    Nat.or_comm, ← Nat.shiftLeft_eq, ← Nat.shiftLeft_add_eq_or_of_lt hWord]

/-- A compact form without its sign is read back as what its mantissa and its exponent stand for. -/
lemma setCompact_or {nSize : ℕ} (hWord : nWord < 2 ^ 23) (hSize : nSize < 256) :
    setCompact (UInt32.ofNat nWord ||| UInt32.ofNat nSize <<< 24) = decodeCompact nWord nSize := by
  rw [setCompact_eq, toNat_or_exponent (by omega), Nat.mod_eq_of_lt hSize, if_neg (by omega)]
  congr 2 <;> omega

/-- The leading bytes of a magnitude as `GetCompact` takes them. -/
def leadingBytes (n : ℕ) : ℕ :=
  if numBytes n ≤ 3 then n * 256 ^ (3 - numBytes n) else n / 256 ^ (numBytes n - 3)

lemma leadingBytes_lt (n : ℕ) : leadingBytes n < 2 ^ 24 := by
  have hlt : n < 256 ^ numBytes n := numBytes_le_iff.mp le_rfl
  rw [leadingBytes]
  split_ifs with hle
  · calc n * 256 ^ (3 - numBytes n)
        < 256 ^ numBytes n * 256 ^ (3 - numBytes n) := by gcongr
      _ = 256 ^ 3 := by rw [← Nat.pow_add, Nat.add_sub_cancel' hle]
  · rw [Nat.div_lt_iff_lt_mul (by positivity),
      show 2 ^ 24 = 256 ^ 3 from rfl, ← Nat.pow_add]
    rwa [Nat.add_sub_cancel' (by omega)]

/-- The compact form of a number that is not negative: a shift by a byte keeps the sign bit free. -/
lemma getCompact_eq (n : ℕ) :
    getCompact n = if leadingBytes n < 2 ^ 23
      then UInt32.ofNat (leadingBytes n) ||| UInt32.ofNat (numBytes n) <<< 24
      else UInt32.ofNat (leadingBytes n / 256) ||| UInt32.ofNat (numBytes n + 1) <<< 24 := by
  have hlt := leadingBytes_lt n
  have hnat : (UInt32.ofNat (leadingBytes n)).toNat = leadingBytes n := by
    rw [UInt32.toNat_ofNat', Nat.mod_eq_of_lt (by omega)]
  have hlead : (if numBytes n ≤ 3 then n <<< (8 * (3 - numBytes n))
      else n >>> (8 * (numBytes n - 3))) = leadingBytes n := by
    rw [leadingBytes, Nat.shiftLeft_eq, Nat.shiftRight_eq_div_pow, Nat.pow_mul, Nat.pow_mul]
  have hsign : ¬ ((n : ℤ) < 0) := by omega
  rw [getCompact]
  simp only [Int.natAbs_natCast, hlead, hsign, if_false, UInt32.or_zero,
    and_signBit_ne_zero_iff, hnat]
  split_ifs with hshift hsmall hsmall
  · omega
  · congr 1
    apply UInt32.toNat_inj.mp
    rw [UInt32.toNat_shiftRight, hnat, UInt32.toNat_ofNat',
      show (8 : UInt32).toNat % 32 = 8 from rfl, Nat.shiftRight_eq_div_pow,
      Nat.mod_eq_of_lt (by omega)]
  · rfl
  · omega

/-! ## The leading bytes -/

/-- The length of the compact form: that of the number, or one byte more if the sign bit would be
set. -/
def compactSize (n : ℕ) : ℕ := numBytes (2 * n)

/-- The mantissa of the compact form. -/
def compactMantissa (n : ℕ) : ℕ :=
  if compactSize n ≤ 3 then n * 256 ^ (3 - compactSize n) else n / 256 ^ (compactSize n - 3)

lemma lt_compactSize_iff {k : ℕ} : k < compactSize n ↔ 256 ^ k ≤ 2 * n := by
  rw [← not_le, compactSize, numBytes_le_iff, not_lt]

lemma compactSize_eq (n : ℕ) :
    compactSize n = if 2 * n < 256 ^ numBytes n then numBytes n else numBytes n + 1 := by
  have hlt : n < 256 ^ numBytes n := numBytes_le_iff.mp le_rfl
  have hge : numBytes n ≤ compactSize n := by
    apply numBytes_le_iff.mpr
    have hdouble : 2 * n < 256 ^ compactSize n := numBytes_le_iff.mp le_rfl
    omega
  have hsucc : compactSize n ≤ numBytes n + 1 := by
    apply numBytes_le_iff.mpr
    rw [Nat.pow_succ]
    omega
  split_ifs with hsmall
  · exact le_antisymm (numBytes_le_iff.mpr hsmall) hge
  · exact le_antisymm hsucc (lt_compactSize_iff.mpr (not_lt.mp hsmall))

lemma compactMantissa_lt (n : ℕ) : compactMantissa n < 2 ^ 23 := by
  have hlt : 2 * n < 256 ^ compactSize n := numBytes_le_iff.mp le_rfl
  rw [compactMantissa]
  split_ifs with hle
  · have hmul : 2 * n * 256 ^ (3 - compactSize n) < 256 ^ 3 := by
      calc 2 * n * 256 ^ (3 - compactSize n)
          < 256 ^ compactSize n * 256 ^ (3 - compactSize n) := by gcongr
        _ = 256 ^ 3 := by rw [← Nat.pow_add, Nat.add_sub_cancel' hle]
    rw [Nat.mul_assoc] at hmul
    omega
  · have hpow : 256 ^ compactSize n = 2 ^ 24 * 256 ^ (compactSize n - 3) := by
      rw [show 2 ^ 24 = 256 ^ 3 from rfl, ← Nat.pow_add, Nat.add_sub_cancel' (by omega)]
    rw [Nat.div_lt_iff_lt_mul (by positivity)]
    omega

/-- The sign bit would be set if the double of the number is longer. -/
lemma leadingBytes_lt_iff (n : ℕ) : leadingBytes n < 2 ^ 23 ↔ 2 * n < 256 ^ numBytes n := by
  have hpos : ∀ k, 0 < 256 ^ k := fun k => by positivity
  rw [leadingBytes]
  split_ifs with hle
  · have hpow : 256 ^ numBytes n * 256 ^ (3 - numBytes n) = 2 ^ 24 := by
      rw [show 2 ^ 24 = 256 ^ 3 from rfl, ← Nat.pow_add, Nat.add_sub_cancel' hle]
    rw [← Nat.mul_lt_mul_right (a := 256 ^ (3 - numBytes n)) (hpos _) (b := 2 * n), hpow,
      Nat.mul_assoc]
    omega
  · have hpow : 256 ^ numBytes n = 2 ^ 24 * 256 ^ (numBytes n - 3) := by
      rw [show 2 ^ 24 = 256 ^ 3 from rfl, ← Nat.pow_add, Nat.add_sub_cancel' (by omega)]
    rw [Nat.div_lt_iff_lt_mul (hpos _), hpow]
    omega

lemma getCompact_eq_or (n : ℕ) : getCompact n =
    UInt32.ofNat (compactMantissa n) ||| UInt32.ofNat (compactSize n) <<< 24 := by
  rw [getCompact_eq]
  split_ifs with hsmall
  · have hsize : compactSize n = numBytes n := by
      rw [compactSize_eq, if_pos ((leadingBytes_lt_iff n).mp hsmall)]
    rw [compactMantissa, hsize, leadingBytes]
  · have hsize : compactSize n = numBytes n + 1 := by
      rw [compactSize_eq, if_neg (mt (leadingBytes_lt_iff n).mpr hsmall)]
    have hshift : leadingBytes n / 256 = compactMantissa n := by
      rw [compactMantissa, hsize, leadingBytes]
      rcases lt_trichotomy (numBytes n) 3 with hlt | heq | hgt
      · rw [if_pos hlt.le, if_pos (by omega),
          show 3 - numBytes n = 3 - (numBytes n + 1) + 1 by omega, Nat.pow_succ, ← Nat.mul_assoc,
          Nat.mul_div_cancel _ (by decide)]
      · rw [heq]
        simp
      · rw [if_neg (by omega), if_neg (by omega), Nat.div_div_eq_div_mul, ← Nat.pow_succ,
          show (numBytes n - 3).succ = numBytes n + 1 - 3 by omega]
    rw [hshift, hsize]

lemma toNat_getCompact (n : ℕ) :
    (getCompact n).toNat = compactSize n % 256 * 2 ^ 24 + compactMantissa n := by
  rw [getCompact_eq_or, toNat_or_exponent ((compactMantissa_lt n).trans (by decide))]

/-- Reading a compact form back cuts off the low bytes. -/
lemma setCompact_getCompact_eq (hsize : compactSize n < 256) : setCompact (getCompact n) =
    (n / 256 ^ (compactSize n - 3) * 256 ^ (compactSize n - 3) : ℕ) := by
  rw [getCompact_eq_or, setCompact_or (compactMantissa_lt n) hsize, decodeCompact, compactMantissa]
  split_ifs with hle
  · rw [Nat.mul_div_cancel _ (by positivity), Nat.sub_eq_zero_of_le hle]
    simp
  · rfl

/-- Of a long number enough is left for the length to be the same. -/
lemma mul_pow_le_of_lt_compactSize (hlong : 3 < compactSize n) :
    2 ^ 15 * 256 ^ (compactSize n - 3) ≤ n := by
  have hle : 256 ^ (compactSize n - 1) ≤ 2 * n := lt_compactSize_iff.mp (by omega)
  rw [show compactSize n - 1 = compactSize n - 3 + 2 by omega, Nat.pow_add] at hle
  omega

lemma exists_setCompact_getCompact (hn : n < 256 ^ 254) :
    ∃ k, setCompact (getCompact n) = (n / 256 ^ k * 256 ^ k : ℕ) ∧ (k = 0 ∨ 256 ^ k ≤ n) := by
  have hsize : compactSize n ≤ 255 := by
    apply numBytes_le_iff.mpr
    rw [Nat.pow_succ]
    omega
  refine ⟨compactSize n - 3, setCompact_getCompact_eq (by omega), ?_⟩
  by_cases hlong : 3 < compactSize n
  · have hle := mul_pow_le_of_lt_compactSize hlong
    exact Or.inr (by omega)
  · exact Or.inl (by omega)

/-- The compact form rounds down, and only zero down to zero. -/
lemma setCompact_getCompact (hn : n < 256 ^ 254) :
    0 ≤ setCompact (getCompact n) ∧ setCompact (getCompact n) ≤ n ∧
      (0 < setCompact (getCompact n) ↔ 0 < n) := by
  obtain ⟨k, hk, hle⟩ := exists_setCompact_getCompact hn
  rw [hk]
  refine ⟨by positivity, by exact_mod_cast Nat.div_mul_le_self n (256 ^ k), ?_⟩
  rw [Int.natCast_pos]
  constructor
  · intro hpos
    exact hpos.trans_le (Nat.div_mul_le_self n (256 ^ k))
  · intro hpos
    have hquot : 0 < n / 256 ^ k := by
      apply Nat.div_pos _ (by positivity)
      rcases hle with rfl | hle
      · rwa [pow_zero]
      · exact hle
    positivity

/-- The compact form of a negative number keeps the sign. -/
lemma setCompact_getCompact_of_neg {bn : ℤ} (hbn : bn < 0) : setCompact (getCompact bn) ≤ 0 := by
  have hsign : ∀ c : UInt32, (c ||| 0x00800000).toNat / 2 ^ 23 % 2 = 1 := by
    intro c
    rw [← Nat.toNat_testBit, UInt32.toNat_or, Nat.testBit_or,
      show (0x00800000 : UInt32).toNat = 2 ^ 23 from rfl, Nat.testBit_two_pow_self, Bool.or_true]
    rfl
  rw [getCompact]
  simp only [hbn, if_true]
  rw [setCompact_eq, if_pos (hsign _)]
  omega

/-! ## What is kept -/

/-- The leading bytes that are kept: three, or two if the sign bit would be set. -/
def keptBytes (n : ℕ) : ℕ := if 0x80 ≤ n / 256 ^ (numBytes n - 1) then 2 else 3

/-- The low bytes that are cut off. -/
def lowBytes (n : ℕ) : ℕ := numBytes n - keptBytes n

lemma lowBytes_eq (n : ℕ) : lowBytes n = compactSize n - 3 := by
  have hiff : 0x80 ≤ n / 256 ^ (numBytes n - 1) ↔ ¬ 2 * n < 256 ^ numBytes n := by
    rw [Nat.le_div_iff_mul_le (by positivity), not_lt]
    rcases Nat.eq_zero_or_pos (numBytes n) with hzero | hpos
    · have hn : n < 256 ^ 0 := numBytes_le_iff.mp hzero.le
      rw [hzero]
      omega
    · obtain ⟨b, hb⟩ := Nat.exists_eq_add_one_of_ne_zero hpos.ne'
      rw [hb, Nat.add_sub_cancel, Nat.pow_succ]
      omega
  rw [lowBytes, keptBytes, compactSize_eq]
  simp only [hiff]
  split_ifs
  · rfl
  · omega

/-- What is read back is the number without its low bytes, in the order of the numbers, and is
written in the same way. -/
structure KeepsLeading (n : ℕ) : Prop where
  le : setCompact (getCompact n) ≤ n
  cut : setCompact (getCompact n) = (n / 256 ^ lowBytes n * 256 ^ lowBytes n : ℕ)
  monotone : ∀ m ≤ n, getCompact m ≤ getCompact n
  idempotent : getCompact (setCompact (getCompact n)) = getCompact n

/-- The length and the mantissa are ordered as the numbers are. -/
lemma getCompact_mono {m : ℕ} (hmn : m ≤ n) (hsize : compactSize n < 256) :
    getCompact m ≤ getCompact n := by
  have hle : compactSize m ≤ compactSize n := by
    refine numBytes_le_iff.mpr (lt_of_le_of_lt ?_ (numBytes_le_iff.mp (le_refl (compactSize n))))
    omega
  rw [UInt32.le_iff_toNat_le, toNat_getCompact, toNat_getCompact, Nat.mod_eq_of_lt hsize,
    Nat.mod_eq_of_lt (hle.trans_lt hsize)]
  have hlt := compactMantissa_lt m
  rcases hle.lt_or_eq with hshorter | hsame
  · omega
  · have hmantissa : compactMantissa m ≤ compactMantissa n := by
      rw [compactMantissa, compactMantissa, hsame]
      split_ifs
      · exact Nat.mul_le_mul_right _ hmn
      · exact Nat.div_le_div_right hmn
    omega

/-- A number that has lost its low bytes has the same compact form. -/
lemma getCompact_cut (n : ℕ) :
    getCompact (n / 256 ^ (compactSize n - 3) * 256 ^ (compactSize n - 3) : ℕ) = getCompact n := by
  by_cases hlong : 3 < compactSize n
  · have hpos : 0 < 256 ^ (compactSize n - 3) := by positivity
    have hle : n / 256 ^ (compactSize n - 3) * 256 ^ (compactSize n - 3) ≤ n :=
      Nat.div_mul_le_self _ _
    have hquot : 2 ^ 15 ≤ n / 256 ^ (compactSize n - 3) :=
      (Nat.le_div_iff_mul_le hpos).mpr (mul_pow_le_of_lt_compactSize hlong)
    have hsize : compactSize (n / 256 ^ (compactSize n - 3) * 256 ^ (compactSize n - 3)) =
        compactSize n := by
      apply le_antisymm
      · refine numBytes_le_iff.mpr (lt_of_le_of_lt ?_
          (numBytes_le_iff.mp (le_refl (compactSize n))))
        omega
      · refine Nat.le_of_pred_lt (lt_compactSize_iff.mpr ?_)
        have hmul := Nat.mul_le_mul_right (256 ^ (compactSize n - 3)) hquot
        rw [Nat.pred_eq_sub_one, show compactSize n - 1 = compactSize n - 3 + 2 by omega,
          Nat.pow_add]
        omega
    rw [getCompact_eq_or, getCompact_eq_or, hsize, compactMantissa, compactMantissa, hsize,
      if_neg (by omega), if_neg (by omega), Nat.mul_div_cancel _ hpos]
  · rw [Nat.sub_eq_zero_of_le (not_lt.mp hlong)]
    simp

lemma compactSize_lt_iff : compactSize n < 256 ↔ n < 128 * 256 ^ 254 := by
  rw [Nat.lt_succ_iff (n := 255), compactSize, numBytes_le_iff, Nat.pow_succ]
  omega

lemma decodeCompact_lt {nSize : ℕ} (hWord : nWord < 2 ^ 23) (hSize : nSize < 256) :
    decodeCompact nWord nSize < 2 ^ 23 * 256 ^ 252 := by
  rw [decodeCompact]
  split_ifs
  · calc nWord / 256 ^ (3 - nSize) ≤ nWord := Nat.div_le_self _ _
      _ < 2 ^ 23 := hWord
      _ ≤ 2 ^ 23 * 256 ^ 252 := Nat.le_mul_of_pos_right _ (by positivity)
  · calc nWord * 256 ^ (nSize - 3) < 2 ^ 23 * 256 ^ (nSize - 3) := by gcongr
      _ ≤ 2 ^ 23 * 256 ^ 252 := by
        gcongr
        · decide
        · omega

/-- A length that does not fit in its byte is lost, and with it the number. -/
lemma KeepsLeading.lt (h : KeepsLeading n) : n < 128 * 256 ^ 254 := by
  by_contra hlarge
  have hsize : 256 ≤ compactSize n := not_lt.mp (mt compactSize_lt_iff.mp hlarge)
  have hread : setCompact (getCompact n) < (2 ^ 23 * 256 ^ 252 : ℕ) := by
    rw [setCompact_eq, toNat_getCompact, if_neg]
    · exact_mod_cast decodeCompact_lt (Nat.mod_lt _ (by decide)) (by
        have hlt := compactMantissa_lt n
        omega)
    · have hlt := compactMantissa_lt n
      omega
  have hkept : 2 ^ 15 ≤ n / 256 ^ lowBytes n := by
    rw [lowBytes_eq, Nat.le_div_iff_mul_le (by positivity)]
    exact mul_pow_le_of_lt_compactSize (by omega)
  have hlow : 256 ^ 253 ≤ 256 ^ lowBytes n := by
    rw [lowBytes_eq]
    exact Nat.pow_le_pow_right (by decide) (by omega)
  have hle : 2 ^ 15 * 256 ^ 253 ≤ n / 256 ^ lowBytes n * 256 ^ lowBytes n :=
    Nat.mul_le_mul hkept hlow
  rw [h.cut] at hread
  rw [Nat.pow_succ] at hle
  have hread' := Int.ofNat_lt.mp hread
  omega

/-- A number that is not negative gets no sign, and keeps its leading bytes exactly if its length
fits in a byte. -/
theorem keepsLeading_iff (n : ℕ) :
    getCompact n &&& 0x00800000 = 0 ∧ (KeepsLeading n ↔ n < 128 * 256 ^ 254) := by
  refine ⟨?_, KeepsLeading.lt, fun hn => ?_⟩
  · have hsign : ¬ (getCompact n &&& 0x00800000 != 0) = true := by
      have hlt := compactMantissa_lt n
      rw [and_signBit_ne_zero_iff, toNat_getCompact]
      omega
    simpa using hsign
  · have hsize := compactSize_lt_iff.mpr hn
    have hread := setCompact_getCompact_eq hsize
    refine ⟨?_, ?_, fun m hm => getCompact_mono hm hsize, ?_⟩
    · rw [hread]
      exact_mod_cast Nat.div_mul_le_self _ _
    · rw [hread, lowBytes_eq]
    · rw [hread, getCompact_cut]

/-- The length of `2 ^ 2039` does not fit in a byte. -/
theorem not_keepsLeading_twoPow :
    ¬ ∀ n : ℕ, getCompact n &&& 0x00800000 = 0 ∧ KeepsLeading n :=
  fun h => lt_irrefl _ (h (128 * 256 ^ 254)).2.lt

end HyperStake
