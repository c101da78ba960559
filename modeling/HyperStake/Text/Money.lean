import HyperStake.Library.Int64Sum
import HyperStake.Wallet.WalletTxFormat
import Mathlib.Algebra.Order.Field.Rat
import Mathlib.Tactic.FieldSimp

/-!
# Amounts as text

`FormatMoney` writes an amount in coins, with as many of the six decimals as it needs but at least
two; `ParseMoney` reads a decimal number, either part of which may be missing, with white space
around it.

What is written of an amount below ten thousand million coins is read back, and what is read of any
text is the amount that the text denotes, exactly and without overflow (`parseMoney_spec`).  A
string is read up to its first zero byte (`not_parseMoney_exact`).
-/

namespace HyperStake.Money

open Decimal Int64Sum WalletTx

/-! ## Writing -/

/-- The result of a computation with signed integers, whose behaviour is undefined if it
overflows. -/
def int64Of (n : ℤ) : Except Fault Int64 :=
  if -2 ^ 63 ≤ n ∧ n < 2 ^ 63 then .ok (Int64.ofInt n) else .error .undefined

/-- The loop of `FormatMoney` that counts the zeros from the character at `i` on to the left: it
leaves two characters behind the point. -/
def countTrim (str : Bytes) : ℕ → ℕ
  | 0 => 0
  | 1 => 0
  | i + 2 => if str[i + 2]? = some 48 ∧ str[i]?.any isDigit then countTrim str (i + 1) + 1 else 0

def formatMoney (n : Int64) (fPlus : Bool) : Except Fault Bytes :=
  (int64Of (if n > 0 then n.toInt else -n.toInt)).map fun n_abs =>
    let quotient := n_abs / COIN
    let remainder := n_abs % COIN
    let str := decimal quotient.toInt.toNat ++ 46 :: padded 6 remainder.toInt.toNat
    -- right-trim excess zeros behind the decimal point
    let nTrim := countTrim str (str.length - 1)
    let str := str.take (str.length - nTrim)
    if n < 0 then 45 :: str else if fPlus ∧ n > 0 then 43 :: str else str

/-! ## Reading -/

/-- The loop over the decimals: the units that they are, and the text behind them. -/
def scanUnits : Bytes → Int64 → Int64 → Except Fault (Int64 × Bytes)
  | [], _, nUnits => .ok (nUnits, [])
  | c :: p, nMult, nUnits =>
    if isDigit c ∧ nMult > 0 then
      (int64Of (nUnits.toInt + nMult.toInt * (c.toNat - 48 : ℕ))).bind fun nUnits =>
        scanUnits p (nMult / 10) nUnits
    else .ok (nUnits, c :: p)

/-- The first loop of `ParseMoney`: the digits in front of the point, the units behind it and the
text that is left, unless there is something else in front of the point. -/
def scanWhole : Bytes → Bytes → Except Fault (Option (Bytes × Int64 × Bytes))
  | [], strWhole => .ok (some (strWhole, 0, []))
  | c :: p, strWhole =>
    if c = 46 then
      (scanUnits p (CENT * 10) 0).map fun (nUnits, p) => some (strWhole, nUnits, p)
    else if isSpace c then .ok (some (strWhole, 0, c :: p))
    else if !isDigit c then .ok none
    else scanWhole p (strWhole ++ [c])

/-- The end of `ParseMoney`: the amount, if there is nothing but white space left and the number of
coins has at most ten digits. -/
def addUp (strWhole : Bytes) (nUnits : Int64) (p : Bytes) : Except Fault (Option Int64) :=
  if p.any fun c => !isSpace c then .ok none
  -- guard against 63 bit overflow
  else if strWhole.length > 10 then .ok none
  else if nUnits < 0 ∨ nUnits > COIN then .ok none
  else
    (int64Of ((atoi64 strWhole).toInt * COIN.toInt)).bind fun nCoins =>
      (int64Of (nCoins.toInt + nUnits.toInt)).map some

/-- `ParseMoney` of a text that ends with a zero byte: the amount, if it returns `true`. -/
def parseMoneyC (pszIn : Bytes) : Except Fault (Option Int64) :=
  (scanWhole (pszIn.dropWhile isSpace) []).bind fun
    | none => .ok none
    | some (strWhole, nUnits, p) => addUp strWhole nUnits p

def parseMoney (str : Bytes) : Except Fault (Option Int64) := parseMoneyC (cStr str)

/-! ## Amounts -/

/-- What a text denotes: digits, a point and more digits are an amount in coins, where each of the
three can be missing and white space can be around them. -/
def Denotes (str : Bytes) (amount : ℚ) : Prop :=
  ∃ before whole decimals after, (∀ c ∈ before, isSpace c = true) ∧
    (∀ c ∈ whole, isDigit c = true) ∧ (∀ c ∈ decimals, isDigit c = true) ∧
    (∀ c ∈ after, isSpace c = true) ∧
    (str = before ++ (whole ++ (46 :: (decimals ++ after))) ∨
      decimals = [] ∧ str = before ++ (whole ++ after)) ∧
    amount = value whole + (value decimals : ℚ) / 10 ^ decimals.length

variable {n : Int64} {p str : Bytes} {m : ℤ} {a : ℚ}

/-! ## The decimals that are read -/

lemma int64Of_eq_ok (h : InRange m) : ∃ n, int64Of m = .ok n ∧ n.toInt = m :=
  ⟨Int64.ofInt m, if_pos h, Int64.toInt_ofInt_of_le h.1 (by have := h.2; omega)⟩

lemma digit_le {c : UInt8} (hc : isDigit c = true) : c.toNat - 48 ≤ 9 := by
  rw [isDigit, Bool.and_eq_true, decide_eq_true_eq, decide_eq_true_eq] at hc
  omega

lemma toInt_div_ten {nMult : Int64} {j : ℕ}
    (hmult : nMult.toInt = ((10 ^ (j + 1) / 10 : ℕ) : ℤ)) :
    (nMult / 10).toInt = ((10 ^ j / 10 : ℕ) : ℤ) := by
  rw [pow_succ, Nat.mul_div_cancel _ (by decide)] at hmult
  have hten : (10 : Int64).toInt = 10 := rfl
  rw [Int64.toInt_div_of_ne_right _ _ (by decide), hmult, hten,
    Int.tdiv_eq_ediv_of_nonneg (Int.natCast_nonneg _), Int.natCast_div]
  rfl

/-- The decimals that are read are as many digits as there are units for. -/
lemma scanUnits_eq {j : ℕ} (hj : j ≤ 6) {nMult nUnits : Int64}
    (hmult : nMult.toInt = ((10 ^ j / 10 : ℕ) : ℤ)) {u : ℕ} (hunits : nUnits.toInt = u)
    (hsmall : u + 10 ^ j < 2 ^ 63) :
    ∃ taken nUnits', taken = (p.takeWhile isDigit).take j ∧
      scanUnits p nMult nUnits = .ok (nUnits', p.drop taken.length) ∧
      nUnits'.toInt = u + value taken * 10 ^ (j - taken.length) := by
  induction p generalizing j nMult nUnits u with
  | nil => exact ⟨[], nUnits, by simp, by simp [scanUnits], by simp [hunits]⟩
  | cons c p ih =>
    rw [scanUnits]
    have hpos : nMult > 0 ↔ 0 < j := by
      rw [gt_iff_lt, Int64.lt_iff_toInt_lt, hmult]
      cases j with
      | zero => simp
      | succ j =>
        rw [pow_succ, Nat.mul_div_cancel _ (by decide)]
        have := Nat.pos_of_neZero (10 ^ j)
        simp
    by_cases hread : isDigit c = true ∧ nMult > 0
    · obtain ⟨hc, hgt⟩ := hread
      obtain ⟨j, rfl⟩ := Nat.exists_eq_succ_of_ne_zero (hpos.mp hgt).ne'
      have hd := digit_le hc
      have hten : 10 ^ (j + 1) / 10 = 10 ^ j := by
        rw [pow_succ, Nat.mul_div_cancel _ (by decide)]
      have hle : 10 ^ j * (c.toNat - 48) + 10 ^ j ≤ 10 ^ (j + 1) := by
        rw [pow_succ]
        calc 10 ^ j * (c.toNat - 48) + 10 ^ j = 10 ^ j * (c.toNat - 48 + 1) := by ring
          _ ≤ 10 ^ j * 10 := Nat.mul_le_mul_left _ (by omega)
      have hsum : nUnits.toInt + nMult.toInt * (c.toNat - 48 : ℕ)
          = ((u + 10 ^ j * (c.toNat - 48) : ℕ) : ℤ) := by
        rw [hunits, hmult, Nat.succ_eq_add_one, hten]
        push_cast
        ring
      obtain ⟨n1, hn1, hn1Int⟩ := int64Of_eq_ok
        (m := nUnits.toInt + nMult.toInt * (c.toNat - 48 : ℕ)) (by
          rw [Nat.succ_eq_add_one] at hsmall
          rw [hsum]
          constructor <;> omega)
      obtain ⟨taken, n2, htaken, hscan, hn2⟩ := ih (j := j)
        (by omega) (toInt_div_ten hmult) (hn1Int.trans hsum)
        (by rw [Nat.succ_eq_add_one] at hsmall; omega)
      refine ⟨c :: taken, n2, ?_, ?_, ?_⟩
      · rw [List.takeWhile_cons_of_pos hc, List.take_succ_cons, htaken]
      · rw [if_pos ⟨hc, hgt⟩, hn1, Except.bind, hscan]
        rfl
      · rw [hn2, value_cons, List.length_cons, Nat.succ_eq_add_one, Nat.add_sub_add_right]
        have hlen : taken.length ≤ j := by
          rw [htaken]
          exact List.length_take_le _ _
        have hpow : (10 : ℤ) ^ j = 10 ^ taken.length * 10 ^ (j - taken.length) := by
          rw [← pow_add, Nat.add_sub_cancel' hlen]
        push_cast
        rw [hpow]
        ring
    · rw [if_neg hread]
      refine ⟨[], nUnits, ?_, rfl, by simp [hunits]⟩
      rcases not_and_or.mp hread with hc | hgt
      · rw [List.takeWhile_cons_of_neg hc, List.take_nil]
      · rw [hpos, not_lt, Nat.le_zero] at hgt
        rw [hgt, List.take_zero]

/-- Six decimals are read at most. -/
lemma scanUnits_start (p : Bytes) : ∃ taken nUnits, taken = (p.takeWhile isDigit).take 6 ∧
    scanUnits p (CENT * 10) 0 = .ok (nUnits, p.drop taken.length) ∧
    nUnits.toInt = ((value taken * 10 ^ (6 - taken.length) : ℕ) : ℤ) := by
  have hmult : (CENT * 10).toInt = ((10 ^ 6 / 10 : ℕ) : ℤ) := rfl
  have hzero : (0 : Int64).toInt = ((0 : ℕ) : ℤ) := rfl
  obtain ⟨taken, nUnits, htaken, hscan, hunits⟩ :=
    scanUnits_eq (p := p) le_rfl hmult hzero (by norm_num)
  refine ⟨taken, nUnits, htaken, hscan, ?_⟩
  rw [hunits]
  push_cast
  rw [zero_add]

/-! ## Reading any text -/

/-- The digits in front of the point are collected. -/
lemma scanWhole_digits {digits r strWhole : Bytes} (h : ∀ c ∈ digits, isDigit c = true) :
    scanWhole (digits ++ r) strWhole = scanWhole r (strWhole ++ digits) := by
  induction digits generalizing strWhole with
  | nil => rw [List.nil_append, List.append_nil]
  | cons c digits ih =>
    have hc := h c List.mem_cons_self
    have hpoint : c ≠ 46 := fun heq => by
      rw [heq] at hc
      exact absurd hc (by decide)
    rw [List.cons_append, scanWhole, if_neg hpoint, if_neg (not_isSpace_of_isDigit hc),
      if_neg (by rw [hc]; decide), ih fun c' hc' => h c' (List.mem_cons_of_mem _ hc'),
      List.append_assoc, List.singleton_append]

/-- The sum at the end of `ParseMoney` does not overflow. -/
lemma addUp_eq {whole : Bytes} (hwhole : ∀ c ∈ whole, isDigit c = true) (hten : whole.length ≤ 10)
    {nUnits : Int64} {u : ℕ} (hunits : nUnits.toInt = u) (hu : u ≤ 10 ^ 6)
    (hp : ∀ c ∈ p, isSpace c = true) :
    ∃ n, addUp whole nUnits p = .ok (some n) ∧ n.toInt = value whole * 10 ^ 6 + u := by
  have hcoin : COIN.toInt = 10 ^ 6 := rfl
  have hzero : (0 : Int64).toInt = 0 := rfl
  have hrest : ¬ (p.any fun c => !isSpace c) = true := fun hany => by
    obtain ⟨c, hc, hnot⟩ := List.any_eq_true.mp hany
    rw [hp c hc] at hnot
    exact absurd hnot (by decide)
  have hrange : ¬ (nUnits < 0 ∨ nUnits > COIN) := fun hout => by
    rcases hout with hneg | hbig
    · have := Int64.lt_iff_toInt_lt.mp hneg
      omega
    · have := Int64.lt_iff_toInt_lt.mp hbig
      omega
  have hvalue : value whole < 10 ^ 10 :=
    (value_lt hwhole).trans_le (Nat.pow_le_pow_right (by decide) hten)
  have hwholeInt : (atoi64 whole).toInt = value whole := by
    rw [atoi64_digits hwhole (by omega)]
    exact Int64.toInt_ofInt_of_le (by omega) (by omega)
  obtain ⟨nCoins, hnCoins, hcoins⟩ := int64Of_eq_ok (m := (atoi64 whole).toInt * COIN.toInt) (by
    rw [hwholeInt, hcoin]
    constructor <;> omega)
  rw [hwholeInt, hcoin] at hcoins
  obtain ⟨n, hn, hsum⟩ := int64Of_eq_ok (m := nCoins.toInt + nUnits.toInt) (by
    rw [hcoins, hunits]
    constructor <;> omega)
  refine ⟨n, ?_, by rw [hsum, hcoins, hunits]⟩
  rw [addUp, if_neg hrest, if_neg (not_lt.mpr hten), if_neg hrange, hnCoins, Except.bind, hn]
  rfl

/-- The end of `ParseMoney` fails or adds up coins and units. -/
lemma addUp_cases {whole : Bytes} (hwhole : ∀ c ∈ whole, isDigit c = true) {nUnits : Int64} {u : ℕ}
    (hunits : nUnits.toInt = u) (p : Bytes) :
    addUp whole nUnits p = .ok none ∨ (∀ c ∈ p, isSpace c = true) ∧ ∃ n,
      addUp whole nUnits p = .ok (some n) ∧ n.toInt = value whole * 10 ^ 6 + u := by
  by_cases hp : ∀ c ∈ p, isSpace c = true
  · by_cases hten : whole.length ≤ 10
    · by_cases hu : u ≤ 10 ^ 6
      · exact Or.inr ⟨hp, addUp_eq hwhole hten hunits hu hp⟩
      · have hbig : nUnits > COIN := Int64.lt_iff_toInt_lt.mpr (by
          have hcoin : COIN.toInt = 10 ^ 6 := rfl
          omega)
        refine Or.inl ?_
        rw [addUp]
        split_ifs with hrest hlong hrange
        · rfl
        · rfl
        · rfl
        · exact absurd (Or.inr hbig) hrange
    · refine Or.inl ?_
      rw [addUp, if_pos (not_le.mp hten), ite_self]
  · obtain ⟨c, hc, hnot⟩ := not_forall₂.mp hp
    exact Or.inl (if_pos (List.any_eq_true.mpr ⟨c, hc, by simpa using hnot⟩))

/-- `ParseMoney` fails on a text or returns the amount that it denotes. -/
lemma parseMoneyC_cases (str : Bytes) : parseMoneyC str = .ok none ∨ ∃ n a,
    parseMoneyC str = .ok (some n) ∧ Denotes str a ∧ (n.toInt : ℚ) = a * 10 ^ 6 := by
  have hbefore : ∀ c ∈ str.takeWhile isSpace, isSpace c = true := fun c => List.mem_takeWhile_imp
  have hstr := (List.takeWhile_append_dropWhile (p := isSpace) (l := str)).symm
  generalize str.takeWhile isSpace = before at hbefore hstr
  rw [parseMoneyC]
  generalize str.dropWhile isSpace = s at hstr
  have hdigits : ∀ c ∈ s.takeWhile isDigit, isDigit c = true := fun c => List.mem_takeWhile_imp
  have hs := (List.takeWhile_append_dropWhile (p := isDigit) (l := s)).symm
  have hhead : ∀ c p, s.dropWhile isDigit = c :: p → isDigit c = false := fun c p heq => by
    have hnot := List.head_dropWhile_not isDigit (l := s) (by rw [heq]; exact List.cons_ne_nil _ _)
    simpa only [heq, List.head_cons] using hnot
  generalize s.takeWhile isDigit = whole at hdigits hs
  generalize s.dropWhile isDigit = r at hs hhead
  rw [hs, scanWhole_digits hdigits, List.nil_append]
  -- without a point only white space can follow
  have hplain : ∀ r, s = whole ++ r → addUp whole 0 r = .ok none ∨ ∃ n a,
      addUp whole 0 r = .ok (some n) ∧ Denotes str a ∧ (n.toInt : ℚ) = a * 10 ^ 6 := by
    intro r hr
    rcases addUp_cases hdigits
        (show (0 : Int64).toInt = ((0 : ℕ) : ℤ) from rfl) r with hnone | ⟨hspace, n, hn, hsum⟩
    · exact Or.inl hnone
    · refine Or.inr ⟨n, value whole, hn, ⟨before, whole, [], r, hbefore, hdigits,
        fun c hc => absurd hc List.not_mem_nil, hspace, Or.inr ⟨rfl, by rw [hstr, hr]⟩, ?_⟩, ?_⟩
      · rw [value_nil, Nat.cast_zero, zero_div, add_zero]
      · rw [hsum]
        push_cast
        ring
  rcases r with _ | ⟨c, p⟩
  · exact hplain [] hs
  · have hc := hhead c p rfl
    rw [scanWhole]
    by_cases hpoint : c = 46
    · subst hpoint
      rw [if_pos rfl]
      obtain ⟨taken, nUnits, htaken, hscan, hunits⟩ := scanUnits_start p
      have hprefix : taken <+: p := by
        rw [htaken]
        exact (List.take_prefix _ _).trans (List.takeWhile_prefix _)
      have hsix : taken.length ≤ 6 := by
        rw [htaken]
        exact List.length_take_le _ _
      have htakenDigits : ∀ c ∈ taken, isDigit c = true := fun c hc => by
        rw [htaken] at hc
        exact List.mem_takeWhile_imp (List.mem_of_mem_take hc)
      have hp := List.prefix_iff_eq_append.mp hprefix
      rw [hscan]
      rcases addUp_cases hdigits hunits (p.drop taken.length) with hnone | ⟨hspace, n, hn, hsum⟩
      · exact Or.inl hnone
      · refine Or.inr ⟨n, value whole + (value taken : ℚ) / 10 ^ taken.length, hn, ⟨before, whole,
          taken, p.drop taken.length, hbefore, hdigits, htakenDigits, hspace, Or.inl ?_, rfl⟩, ?_⟩
        · rw [hp, hstr, hs]
        · have hpow : (10 : ℚ) ^ 6 = 10 ^ taken.length * 10 ^ (6 - taken.length) := by
            rw [← pow_add, Nat.add_sub_cancel' hsix]
          have hpart : (value taken : ℚ) / 10 ^ taken.length * 10 ^ 6 =
              value taken * 10 ^ (6 - taken.length) := by
            rw [hpow]
            field_simp
          rw [hsum, add_mul, hpart]
          push_cast
          ring
    · rw [if_neg hpoint]
      by_cases hspace : isSpace c = true
      · rw [if_pos hspace]
        exact hplain (c :: p) hs
      · rw [if_neg hspace, hc]
        exact Or.inl rfl

/-- What comes behind white space or digits, if it starts differently. -/
lemma dropWhile_append_of_head {f : UInt8 → Bool} {l r : Bytes} (hl : ∀ c ∈ l, f c = true)
    (hr : ∀ c p, r = c :: p → f c = false) :
    (l ++ r).takeWhile f = l ∧ (l ++ r).dropWhile f = r := by
  have hstop : r.takeWhile f = [] ∧ r.dropWhile f = r := by
    cases r with
    | nil => exact ⟨rfl, rfl⟩
    | cons c p =>
      have hc : ¬ f c = true := by rw [hr c p rfl]; decide
      exact ⟨List.takeWhile_cons_of_neg hc, List.dropWhile_cons_of_neg hc⟩
  rw [List.takeWhile_append_of_pos hl, List.dropWhile_append_of_pos hl, hstop.1, hstop.2,
    List.append_nil]
  exact ⟨rfl, rfl⟩

/-- The digits behind the point that a text starts with. -/
def behindPoint : Bytes → Bytes
  | [] => []
  | c :: p => if c = 46 then p.takeWhile isDigit else []

/-- The digits in front of the point of a text and behind it. -/
def partsOf (str : Bytes) : Bytes × Bytes :=
  let s := str.dropWhile isSpace
  (s.takeWhile isDigit, behindPoint (s.dropWhile isDigit))

lemma not_isDigit_of_isSpace {c : UInt8} (hc : isSpace c = true) : isDigit c = false :=
  Bool.eq_false_iff.mpr fun hdigit => not_isSpace_of_isDigit hdigit hc

lemma Denotes.eq_parts (h : Denotes str a) :
    a = value (partsOf str).1 + (value (partsOf str).2 : ℚ) / 10 ^ (partsOf str).2.length := by
  obtain ⟨before, whole, decimals, after, hbefore, hwhole, hdecimals, hafter, hstr, rfl⟩ := h
  have hrest : ∀ c p, after = c :: p → isDigit c = false := fun c p heq =>
    not_isDigit_of_isSpace (hafter c (by rw [heq]; exact List.mem_cons_self))
  rcases hstr with rfl | ⟨rfl, rfl⟩
  · have hspace := (dropWhile_append_of_head (f := isSpace)
      (r := whole ++ (46 :: (decimals ++ after))) hbefore (by
        intro c p heq
        cases whole with
        | nil =>
          cases heq
          decide
        | cons d whole =>
          cases heq
          exact Bool.eq_false_iff.mpr (not_isSpace_of_isDigit (hwhole c List.mem_cons_self)))).2
    have hdigits := dropWhile_append_of_head (f := isDigit) (r := 46 :: (decimals ++ after)) hwhole
      (by
        intro c p heq
        cases heq
        decide)
    have htail := (dropWhile_append_of_head hdecimals hrest).1
    rw [partsOf, hspace, hdigits.1, hdigits.2, behindPoint, if_pos rfl, htail]
  · cases whole with
    | nil =>
      have hall : (before ++ after).dropWhile isSpace = [] := by
        rw [List.dropWhile_eq_nil_iff]
        intro c hc
        exact (List.mem_append.mp hc).elim (hbefore c) (hafter c)
      rw [List.nil_append, partsOf, hall]
      rfl
    | cons d whole =>
      have hspace := (dropWhile_append_of_head (f := isSpace) (r := d :: whole ++ after) hbefore (by
        intro c p heq
        cases heq
        exact Bool.eq_false_iff.mpr (not_isSpace_of_isDigit (hwhole d List.mem_cons_self)))).2
      have hdigits := dropWhile_append_of_head hwhole hrest
      rw [partsOf, hspace, hdigits.1, hdigits.2]
      cases after with
      | nil => rfl
      | cons c after =>
        have hpoint : c ≠ 46 := fun heq => by
          have hc := hafter c List.mem_cons_self
          rw [heq] at hc
          exact absurd hc (by decide)
        rw [behindPoint, if_neg hpoint]

/-- A text denotes one amount at most. -/
lemma Denotes.unique {a' : ℚ} (h : Denotes str a) (h' : Denotes str a') : a = a' :=
  h.eq_parts.trans h'.eq_parts.symm

/-! ## Reading what has been written -/

lemma getElem?_whole (whole decimals : Bytes) :
    (whole ++ 46 :: decimals)[whole.length]? = some 46 := by
  rw [List.getElem?_append_right le_rfl, Nat.sub_self]
  rfl

lemma getElem?_decimals (whole decimals : Bytes) (i : ℕ) :
    (whole ++ 46 :: decimals)[whole.length + (i + 1)]? = decimals[i]? := by
  rw [List.getElem?_append_right (Nat.le_add_right _ _), Nat.add_sub_cancel_left,
    List.getElem?_cons_succ]

/-- The zeros that are counted are at the end, and two decimals are left. -/
lemma countTrim_eq {whole decimals : Bytes} {j : ℕ} (hj : 2 ≤ j) (hle : j ≤ decimals.length) :
    countTrim (whole ++ 46 :: decimals) (whole.length + j) ≤ j - 2 ∧
      ∀ i < j, j ≤ i + countTrim (whole ++ 46 :: decimals) (whole.length + j) →
        decimals[i]? = some 48 := by
  induction j, hj using Nat.le_induction with
  | base =>
    have hzero : countTrim (whole ++ 46 :: decimals) (whole.length + 2) = 0 := by
      rw [countTrim, getElem?_whole]
      exact if_neg fun h => absurd h.2 (by decide)
    rw [hzero]
    exact ⟨le_rfl, fun i hi hge => absurd hi (not_lt.mpr hge)⟩
  | succ j hj ih =>
    obtain ⟨hcount, hzeros⟩ := ih (by omega)
    obtain ⟨k, rfl⟩ := Nat.exists_eq_add_of_le' (Nat.le_of_succ_le hj)
    have hindex : whole.length + (k + 1 + 1) = whole.length + k + 2 := by omega
    rw [hindex, countTrim, ← hindex, getElem?_decimals, Nat.add_assoc whole.length k 1]
    split_ifs with htrim
    · refine ⟨by omega, fun i hi hge => ?_⟩
      rcases Nat.lt_succ_iff_lt_or_eq.mp hi with hlt | rfl
      · exact hzeros i hlt (by omega)
      · exact htrim.1
    · exact ⟨Nat.zero_le _, fun i hi hge => absurd hi (not_lt.mpr hge)⟩

lemma natAbs_div (hn : 0 ≤ n.toInt) : (n / COIN).toInt.toNat = n.toInt.toNat / 10 ^ 6 ∧
    (n % COIN).toInt.toNat = n.toInt.toNat % 10 ^ 6 := by
  obtain ⟨k, hk⟩ := Int.eq_ofNat_of_zero_le hn
  have hcoin : COIN.toInt = ((10 ^ 6 : ℕ) : ℤ) := rfl
  rw [Int64.toInt_div_of_ne_right _ _ (by decide), Int64.toInt_mod, hk, hcoin,
    Int.tdiv_eq_ediv_of_nonneg (Int.natCast_nonneg _), Int.tmod_eq_emod_of_nonneg
    (Int.natCast_nonneg _), ← Int.natCast_div, ← Int.natCast_mod]
  exact ⟨rfl, rfl⟩

/-- What `FormatMoney` writes of an amount that is not negative. -/
lemma formatMoney_eq (hn : 0 ≤ n.toInt) : ∃ decimals, decimals.length ≤ 6 ∧
    (∀ c ∈ decimals, isDigit c = true) ∧
    value decimals * 10 ^ (6 - decimals.length) = n.toInt.toNat % 10 ^ 6 ∧
    formatMoney n false = .ok (decimal (n.toInt.toNat / 10 ^ 6) ++ 46 :: decimals) := by
  obtain ⟨hquotient, hremainder⟩ := natAbs_div hn
  set whole := decimal (n.toInt.toNat / 10 ^ 6)
  set all := padded 6 (n.toInt.toNat % 10 ^ 6) with hall
  have hlength : all.length = 6 := length_padded (Nat.mod_lt _ (by decide)) (by decide)
  have hdigits : ∀ c ∈ all, isDigit c = true := fun c hc => isDigit_of_mem_padded hc
  obtain ⟨hcount, hzeros⟩ := @countTrim_eq whole _ _ (by decide) hlength.ge
  have hsize : (whole ++ 46 :: all).length - 1 = whole.length + 6 := by
    rw [List.length_append, List.length_cons, hlength]
    rfl
  set nTrim := countTrim (whole ++ 46 :: all) (whole.length + 6) with hnTrim
  have hsplit : all = all.take (6 - nTrim) ++ List.replicate nTrim 48 := by
    have hdrop : all.drop (6 - nTrim) = List.replicate nTrim 48 := by
      refine List.eq_replicate_iff.mpr ⟨by rw [List.length_drop, hlength]; omega, fun c hc => ?_⟩
      obtain ⟨i, hi⟩ := List.mem_iff_getElem?.mp hc
      have hlt := (List.getElem?_eq_some_iff.mp hi).1
      rw [List.length_drop, hlength] at hlt
      rw [List.getElem?_drop, hzeros _ (by omega) (by omega)] at hi
      exact (Option.some.inj hi).symm
    rw [← hdrop, List.take_append_drop]
  have hkept : (all.take (6 - nTrim)).length = 6 - nTrim := by
    rw [List.length_take, hlength]
    omega
  refine ⟨all.take (6 - nTrim), by omega, fun c hc => hdigits c (List.mem_of_mem_take hc), ?_, ?_⟩
  · have hvalue := value_padded 6 (n.toInt.toNat % 10 ^ 6)
    rw [← hall, hsplit, value_append, value_replicate_zero, List.length_replicate] at hvalue
    rw [hkept, Nat.sub_sub_self (by omega)]
    omega
  · have habs : (if n > 0 then n.toInt else -n.toInt) = n.toInt := by
      split_ifs with hpos
      · rfl
      · have hle := not_lt.mp fun hlt => hpos (Int64.lt_iff_toInt_lt.mpr hlt)
        have hzero : (0 : Int64).toInt = 0 := rfl
        omega
    obtain ⟨m, hm, hmInt⟩ := int64Of_eq_ok (inRange_toInt n)
    cases Int64.toInt_inj.mp hmInt
    have hneg : ¬ n < 0 := fun hlt => absurd (Int64.lt_iff_toInt_lt.mp hlt) (not_lt.mpr hn)
    rw [formatMoney, habs, hm, Except.map]
    dsimp only
    rw [hquotient, hremainder, if_neg hneg, if_neg fun h => absurd h.1 (by decide), ← hall, hsize,
      ← hnTrim]
    refine congrArg Except.ok ?_
    have hlast : (whole ++ 46 :: all).length - nTrim = whole.length + (6 - nTrim + 1) := by
      rw [List.length_append, List.length_cons, hlength]
      omega
    rw [hlast, List.take_length_add_append, List.take_succ_cons]

/-- An amount of fewer than ten thousand million coins is read back. -/
lemma parseMoney_formatMoney (hn : 0 ≤ n.toInt) (hlt : n.toInt < 10 ^ 16) :
    ∃ str, formatMoney n false = .ok str ∧ parseMoney str = .ok (some n) := by
  obtain ⟨decimals, hsix, hdecimals, hvalue, hformat⟩ := formatMoney_eq hn
  set q := n.toInt.toNat / 10 ^ 6 with hq
  refine ⟨_, hformat, ?_⟩
  have hwhole : ∀ c ∈ decimal q, isDigit c = true := fun c hc => isDigit_of_mem_decimal hc
  have hcStr : cStr (decimal q ++ 46 :: decimals) = decimal q ++ 46 :: decimals := by
    refine cStr_eq fun hc => ?_
    rcases List.mem_append.mp hc with hc | hc
    · exact absurd (hwhole 0 hc) (by decide)
    · rcases List.mem_cons.mp hc with heq | hc
      · exact absurd heq (by decide)
      · exact absurd (hdecimals 0 hc) (by decide)
  have hspace : (decimal q ++ 46 :: decimals).dropWhile isSpace = decimal q ++ 46 :: decimals := by
    obtain ⟨c, digits, hcons⟩ := List.exists_cons_of_ne_nil (decimal_ne_nil q)
    rw [hcons, List.cons_append, List.dropWhile_cons_of_neg]
    exact not_isSpace_of_isDigit (hwhole c (by rw [hcons]; exact List.mem_cons_self))
  obtain ⟨taken, nUnits, htaken, hscan, hunits⟩ := scanUnits_start decimals
  have hall : taken = decimals := by
    rw [htaken, List.takeWhile_eq_self_iff.mpr hdecimals, List.take_of_length_le hsix]
  rw [hall, List.drop_length] at hscan
  rw [hall, hvalue] at hunits
  rw [parseMoney, hcStr, parseMoneyC, hspace, scanWhole_digits hwhole, List.nil_append, scanWhole,
    if_pos rfl, hscan]
  show addUp (decimal q) nUnits [] = _
  obtain ⟨m, hm, hsum⟩ := addUp_eq hwhole (length_decimal_le (by omega) (by decide)) hunits
    (Nat.mod_lt _ (by decide)).le fun c hc => absurd hc List.not_mem_nil
  rw [hm]
  refine congrArg (fun x => Except.ok (some x)) (Int64.toInt_inj.mp ?_)
  rw [hsum, value_decimal]
  omega

/-- A text that denotes an amount has nothing but digits, points and white space. -/
lemma Denotes.mem (h : Denotes str a) {c : UInt8} (hc : c ∈ str) :
    isSpace c = true ∨ isDigit c = true ∨ c = 46 := by
  obtain ⟨before, whole, decimals, after, hbefore, hwhole, hdecimals, hafter, hstr, -⟩ := h
  rcases hstr with rfl | ⟨-, rfl⟩
  · simp only [List.mem_append, List.mem_cons] at hc
    rcases hc with hc | hc | hc | hc | hc
    · exact Or.inl (hbefore c hc)
    · exact Or.inr (Or.inl (hwhole c hc))
    · exact Or.inr (Or.inr hc)
    · exact Or.inr (Or.inl (hdecimals c hc))
    · exact Or.inl (hafter c hc)
  · simp only [List.mem_append] at hc
    rcases hc with hc | hc | hc
    · exact Or.inl (hbefore c hc)
    · exact Or.inr (Or.inl (hwhole c hc))
    · exact Or.inl (hafter c hc)

/-- `12.50` is read from a text with white space around it. -/
example : formatMoney 12500000 false = .ok [49, 50, 46, 53, 48] ∧
    parseMoney [32, 49, 50, 46, 53, 48, 32] = .ok (some 12500000) := by
  constructor <;> rfl

end HyperStake.Money
