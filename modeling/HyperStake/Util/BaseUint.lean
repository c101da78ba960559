import HyperStake.Library.WordArray
import HyperStake.Text.BaseCode

/-!
# The arithmetic of `base_uint`

A `base_uint` is an array of words of 32 bits, the least significant word first.  Its operators are
loops over the words.  They compute the operations on integers modulo `2 ^ BITS`, the comparisons
are those of the integers, and `SetHex` reads what `GetHex` writes (`computes`).  So a `uint256` is
the number of 256 bits that the rest of the node takes it for (`toBitVec_spec`).
-/

namespace HyperStake

/-- A `base_uint` of `WIDTH` words. -/
@[ext] structure BaseUint (WIDTH : ℕ) where
  pn : List (BitVec 32)
  length_pn : pn.length = WIDTH

namespace BaseUint

open BaseCode LittleEndian WalletTx WordArray

variable {WIDTH n : ℕ}

/-- `operator=(uint64)`, for an array of at least two words. -/
def ofUInt64 (b : BitVec 64) : BaseUint (n + 2) where
  pn := b.setWidth 32 :: (b >>> 32).setWidth 32 :: List.replicate n 0
  length_pn := by rw [List.length_cons, List.length_cons, List.length_replicate]

/-- `operator~`. -/
def complement (a : BaseUint WIDTH) : BaseUint WIDTH where
  pn := a.pn.map fun x => ~~~x
  length_pn := by rw [List.length_map, a.length_pn]

/-! ## Sums -/

/-- The loop of `operator++`. -/
def incrementLoop : List (BitVec 32) → List (BitVec 32)
  | [] => []
  | a :: l => (a + 1) :: if a + 1 = 0 then incrementLoop l else l

/-- The loop of `operator--`. -/
def decrementLoop : List (BitVec 32) → List (BitVec 32)
  | [] => []
  | a :: l => (a - 1) :: if a - 1 = -1 then decrementLoop l else l

/-- The loop of `operator+=`. -/
def addLoop : BitVec 64 → List (BitVec 32) → List (BitVec 32) → List (BitVec 32)
  | carry, a :: l, b :: m =>
    let n := carry + a.setWidth 64 + b.setWidth 64
    (n &&& 0xffffffff).setWidth 32 :: addLoop (n >>> 32) l m
  | _, _, _ => []

lemma length_incrementLoop (l : List (BitVec 32)) : (incrementLoop l).length = l.length := by
  induction l with
  | nil => rfl
  | cons a l ih =>
    rw [incrementLoop, List.length_cons, List.length_cons]
    split_ifs
    · rw [ih]
    · rfl

lemma length_decrementLoop (l : List (BitVec 32)) : (decrementLoop l).length = l.length := by
  induction l with
  | nil => rfl
  | cons a l ih =>
    rw [decrementLoop, List.length_cons, List.length_cons]
    split_ifs
    · rw [ih]
    · rfl

variable {l m : List (BitVec 32)}

lemma length_addLoop (carry : BitVec 64) (h : l.length = m.length) :
    (addLoop carry l m).length = l.length := by
  induction l generalizing carry m with
  | nil => rfl
  | cons a l ih =>
    cases m with
    | nil => exact absurd h (Nat.succ_ne_zero _)
    | cons b m => exact congrArg Nat.succ (ih _ (Nat.succ.inj h))

/-- The prefix `operator++`. -/
def increment (a : BaseUint WIDTH) : BaseUint WIDTH :=
  ⟨incrementLoop a.pn, (length_incrementLoop a.pn).trans a.length_pn⟩

/-- The prefix `operator--`. -/
def decrement (a : BaseUint WIDTH) : BaseUint WIDTH :=
  ⟨decrementLoop a.pn, (length_decrementLoop a.pn).trans a.length_pn⟩

/-- The postfix `operator++`, with what it returns and what is left. -/
def postIncrement (a : BaseUint WIDTH) : BaseUint WIDTH × BaseUint WIDTH := (a, increment a)

/-- The postfix `operator--`. -/
def postDecrement (a : BaseUint WIDTH) : BaseUint WIDTH × BaseUint WIDTH := (a, decrement a)

/-- The unary `operator-`. -/
def neg (a : BaseUint WIDTH) : BaseUint WIDTH := increment (complement a)

/-- `operator+=`. -/
def add (a b : BaseUint WIDTH) : BaseUint WIDTH :=
  ⟨addLoop 0 a.pn b.pn, (length_addLoop 0 (a.length_pn.trans b.length_pn.symm)).trans a.length_pn⟩

/-- `operator-=`. -/
def sub (a b : BaseUint WIDTH) : BaseUint WIDTH := add a (neg b)

/-- `operator+=(uint64)`. -/
def addUInt64 (a : BaseUint (n + 2)) (b64 : BitVec 64) : BaseUint (n + 2) := add a (ofUInt64 b64)

/-- `operator-=(uint64)`. -/
def subUInt64 (a : BaseUint (n + 2)) (b64 : BitVec 64) : BaseUint (n + 2) :=
  add a (neg (ofUInt64 b64))

/-! ## Shifts -/

/-- A turn of the loop of `operator<<=`, with the copy of the words before. -/
def shiftLeftTurn (a : List (BitVec 32)) (k shift : ℕ) (pn : List (BitVec 32)) (i : ℕ) :
    List (BitVec 32) :=
  let pn := if i + k + 1 < a.length ∧ shift ≠ 0 then
    orAt pn (i + k + 1) (a.getD i 0 >>> (32 - shift)) else pn
  if i + k < a.length then orAt pn (i + k) (a.getD i 0 <<< shift) else pn

/-- A turn of the loop of `operator>>=`. -/
def shiftRightTurn (a : List (BitVec 32)) (k shift : ℕ) (pn : List (BitVec 32)) (i : ℕ) :
    List (BitVec 32) :=
  let pn := if k + 1 ≤ i ∧ shift ≠ 0 then
    orAt pn (i - k - 1) (a.getD i 0 <<< (32 - shift)) else pn
  if k ≤ i then orAt pn (i - k) (a.getD i 0 >>> shift) else pn

section

variable (a : List (BitVec 32)) (k shift : ℕ) (pn : List (BitVec 32)) (i : ℕ)

lemma length_shiftLeftTurn : (shiftLeftTurn a k shift pn i).length = pn.length := by
  unfold shiftLeftTurn
  split_ifs <;> simp

lemma length_shiftRightTurn : (shiftRightTurn a k shift pn i).length = pn.length := by
  unfold shiftRightTurn
  split_ifs <;> simp

end

lemma length_foldl_turn {turn : List (BitVec 32) → ℕ → List (BitVec 32)}
    (h : ∀ pn i, (turn pn i).length = pn.length) (is : List ℕ) (pn : List (BitVec 32)) :
    (is.foldl turn pn).length = pn.length := by
  induction is generalizing pn with
  | nil => rfl
  | cons i is ih => exact (ih _).trans (h pn i)

/-- `operator<<=`. -/
def shiftLeft (a : BaseUint WIDTH) (shift : ℕ) : BaseUint WIDTH where
  pn := (List.range WIDTH).foldl (shiftLeftTurn a.pn (shift / 32) (shift % 32))
    (List.replicate WIDTH 0)
  length_pn := by rw [length_foldl_turn (length_shiftLeftTurn _ _ _), List.length_replicate]

/-- `operator>>=`. -/
def shiftRight (a : BaseUint WIDTH) (shift : ℕ) : BaseUint WIDTH where
  pn := (List.range WIDTH).foldl (shiftRightTurn a.pn (shift / 32) (shift % 32))
    (List.replicate WIDTH 0)
  length_pn := by rw [length_foldl_turn (length_shiftRightTurn _ _ _), List.length_replicate]

/-! ## Comparisons -/

/-- The loops of the comparisons from the highest word down, up to words that differ, with what is
returned behind the last one. -/
def lessLoop (atEnd : Bool) : List (BitVec 32) → List (BitVec 32) → Bool
  | a :: l, b :: m => if a < b then true else if a > b then false else lessLoop atEnd l m
  | _, _ => atEnd

/-- `operator<`. -/
def less (a b : BaseUint WIDTH) : Bool := lessLoop false a.pn.reverse b.pn.reverse

/-- `operator<=`. -/
def lessEqual (a b : BaseUint WIDTH) : Bool := lessLoop true a.pn.reverse b.pn.reverse

/-- `operator>`. -/
def greater (a b : BaseUint WIDTH) : Bool := lessLoop false b.pn.reverse a.pn.reverse

/-- `operator>=`. -/
def greaterEqual (a b : BaseUint WIDTH) : Bool := lessLoop true b.pn.reverse a.pn.reverse

/-- The loop of `operator==`. -/
def equalLoop : List (BitVec 32) → List (BitVec 32) → Bool
  | a :: l, b :: m => if a ≠ b then false else equalLoop l m
  | _, _ => true

/-- `operator==`. -/
def equal (a b : BaseUint WIDTH) : Bool := equalLoop a.pn b.pn

/-- `operator==(uint64)`. -/
def equalUInt64 (a : BaseUint (n + 2)) (b : BitVec 64) : Bool :=
  if a.pn.getD 0 0 ≠ b.setWidth 32 then false
  else if a.pn.getD 1 0 ≠ (b >>> 32).setWidth 32 then false
  else (a.pn.drop 2).all fun x => x == 0

/-! ## Hexadecimal digits -/

/-- A digit as `sprintf` writes it. -/
def hexDigit (d : ℕ) : UInt8 := if d < 10 then UInt8.ofNat (48 + d) else UInt8.ofNat (87 + d)

/-- The memory of the words. -/
def bytes (a : BaseUint WIDTH) : Bytes := a.pn.flatMap fun x => leBytes 4 x.toNat

/-- The two digits of a byte. -/
def hexByte (b : UInt8) : Bytes := [hexDigit (b.toNat / 16), hexDigit (b.toNat % 16)]

def getHex (a : BaseUint WIDTH) : Bytes := a.bytes.reverse.flatMap hexByte

def phexdigit : List UInt8 := [
    0,0,0,0,0,0,0,0,0,0,0,0,0,0,0,0, 0,0,0,0,0,0,0,0,0,0,0,0,0,0,0,0,
    0,0,0,0,0,0,0,0,0,0,0,0,0,0,0,0, 0,1,2,3,4,5,6,7,8,9,0,0,0,0,0,0,
    0,0xa,0xb,0xc,0xd,0xe,0xf,0,0,0,0,0,0,0,0,0, 0,0,0,0,0,0,0,0,0,0,0,0,0,0,0,0,
    0,0xa,0xb,0xc,0xd,0xe,0xf,0,0,0,0,0,0,0,0,0]

/-- The number of a digit. -/
def digitOf (c : UInt8) : UInt8 := phexdigit.getD c.toNat 0

/-- The characters that the loop to the end of the number passes. -/
def isHexDigit (c : UInt8) : Bool := digitOf c != 0 || c == 48

/-- `SetHex` skips `0x`. -/
def skipPrefix : Bytes → Bytes
  | c :: x :: psz => if c = 48 ∧ toLower x = 120 then psz else c :: x :: psz
  | psz => psz

/-- The last loop of `SetHex`, for some number of bytes, with the digits from the last one on. -/
def fillLoop : ℕ → Bytes → Bytes
  | 0, _ => []
  | p + 1, [] => List.replicate (p + 1) 0
  | p + 1, [c] => digitOf c :: List.replicate p 0
  | p + 1, c :: c' :: psz => (digitOf c ||| digitOf c' <<< 4) :: fillLoop p psz

/-- The words in some memory. -/
def wordsOf : ℕ → Bytes → List (BitVec 32)
  | 0, _ => []
  | i + 1, p => BitVec.ofNat 32 (leValue (p.take 4)) :: wordsOf i (p.drop 4)

lemma length_wordsOf (i : ℕ) (p : Bytes) : (wordsOf i p).length = i := by
  induction i generalizing p with
  | zero => rfl
  | succ i ih => exact congrArg Nat.succ (ih _)

def setHex (psz : Bytes) : BaseUint WIDTH where
  pn :=
    let digits := (skipPrefix (psz.dropWhile isSpace)).takeWhile isHexDigit
    wordsOf WIDTH (fillLoop (WIDTH * 4) digits.reverse)
  length_pn := length_wordsOf _ _

/-! ## What the loops compute -/

/-- The number that the words denote. -/
def value (a : BaseUint WIDTH) : ℕ := WordArray.value a.pn

variable (a : BaseUint WIDTH)

lemma value_lt : a.value < 2 ^ (32 * WIDTH) := by
  have hlt := WordArray.value_lt a.pn
  rwa [a.length_pn] at hlt

lemma value_injective {a b : BaseUint WIDTH} : a.value = b.value ↔ a = b := by
  rw [value, value, value_inj (a.length_pn.trans b.length_pn.symm), BaseUint.ext_iff]

lemma value_incrementLoop (l : List (BitVec 32)) :
    WordArray.value (incrementLoop l) = (WordArray.value l + 1) % 2 ^ (32 * l.length) := by
  induction l with
  | nil => rw [incrementLoop, value_nil, List.length_nil, mul_zero, pow_zero, Nat.mod_one]
  | cons a l ih =>
    have ha := a.isLt
    have hsucc : (a + 1).toNat = (a.toNat + 1) % 2 ^ 32 := BitVec.toNat_add a 1
    have hstep := carry_step (w := 32) (a.toNat + 1) (WordArray.value l) l.length
    rw [incrementLoop, value_cons, value_cons, List.length_cons, add_right_comm, ← hstep, hsucc]
    split_ifs with hzero
    · rw [hzero] at hsucc
      have hfull : a.toNat + 1 = 2 ^ 32 := by
        have hmod : (a.toNat + 1) % 2 ^ 32 = 0 := hsucc.symm
        omega
      rw [ih, hfull, Nat.div_self (Nat.two_pow_pos 32), add_comm 1]
    · have hlow : a.toNat + 1 < 2 ^ 32 := by
        by_contra hge
        refine hzero (BitVec.eq_of_toNat_eq ?_)
        rw [hsucc, show a.toNat + 1 = 2 ^ 32 by omega]
        rfl
      rw [Nat.div_eq_of_lt hlow, zero_add, Nat.mod_eq_of_lt (WordArray.value_lt l)]

/-- `operator++` takes back what `operator--` has done. -/
lemma incrementLoop_decrementLoop (l : List (BitVec 32)) : incrementLoop (decrementLoop l) = l := by
  induction l with
  | nil => rfl
  | cons a l ih =>
    rw [decrementLoop, incrementLoop, sub_add_cancel]
    by_cases hzero : a = 0
    · have hborrow : a - 1 = -1 := by rw [hzero, zero_sub]
      rw [if_pos hzero, if_pos hborrow, ih]
    · have hno : a - 1 ≠ -1 := fun h => hzero (by rw [← sub_add_cancel a 1, h, neg_add_cancel])
      rw [if_neg hzero, if_neg hno]

/-- The carry of two words and a carry is at most one, so that no bit of the sum is lost. -/
lemma value_addLoop {carry : BitVec 64} (hcarry : carry.toNat ≤ 1) (h : l.length = m.length) :
    WordArray.value (addLoop carry l m)
      = (carry.toNat + WordArray.value l + WordArray.value m) % 2 ^ (32 * l.length) := by
  induction l generalizing carry m with
  | nil =>
    rw [List.length_nil, mul_zero, pow_zero, Nat.mod_one]
    rfl
  | cons a l ih =>
    cases m with
    | nil => exact absurd h (Nat.succ_ne_zero _)
    | cons b m =>
      have ha := a.isLt
      have hb := b.isLt
      have hsum : (carry + a.setWidth 64 + b.setWidth 64).toNat
          = carry.toNat + a.toNat + b.toNat := by
        rw [BitVec.toNat_add, BitVec.toNat_add, BitVec.toNat_setWidth, BitVec.toNat_setWidth]
        omega
      have hnext : ((carry + a.setWidth 64 + b.setWidth 64) >>> 32).toNat
          = (carry.toNat + a.toNat + b.toNat) / 2 ^ 32 := by
        rw [BitVec.toNat_ushiftRight, hsum, Nat.shiftRight_eq_div_pow]
      have hword : (((carry + a.setWidth 64 + b.setWidth 64) &&& 0xffffffff).setWidth 32).toNat
          = (carry.toNat + a.toNat + b.toNat) % 2 ^ 32 := by
        have hmask : (0xffffffff : BitVec 64).toNat = 2 ^ 32 - 1 := rfl
        rw [BitVec.toNat_setWidth, BitVec.toNat_and, hsum, hmask, Nat.and_two_pow_sub_one_eq_mod,
          Nat.mod_mod]
      have hcarry' : ((carry + a.setWidth 64 + b.setWidth 64) >>> 32).toNat ≤ 1 := by
        rw [hnext]
        omega
      have hrest := ih hcarry' (Nat.succ.inj h)
      rw [addLoop, value_cons, value_cons, value_cons, hrest, hword, hnext, List.length_cons,
        add_assoc _ (WordArray.value l), carry_step]
      congr 1
      ring

section

variable (a : List (BitVec 32)) (k shift : ℕ) (pn : List (BitVec 32)) (i m r : ℕ)
  (hlength : pn.length = a.length) (hm : m < a.length)

include hlength hm

/-- The number after a turn that sets bits. -/
lemma getLsbD_shiftLeftTurn :
    ((shiftLeftTurn a k shift pn i).getD m 0).getLsbD r = true ↔
      (pn.getD m 0).getLsbD r = true ∨ ShiftedLeft a k shift i m r := by
  have hpn : m < pn.length := hlength ▸ hm
  unfold shiftLeftTurn ShiftedLeft
  split_ifs with hhigh hlow hlow
  · rw [getLsbD_orAt (by simpa using hpn), getLsbD_orAt hpn]
    tauto
  · rw [getLsbD_orAt hpn]
    have : i + k ≠ m := by omega
    tauto
  · rw [getLsbD_orAt hpn]
    have : ¬ (i + k + 1 = m ∧ shift ≠ 0) := fun h => hhigh ⟨by omega, h.2⟩
    tauto
  · have : ¬ (i + k + 1 = m ∧ shift ≠ 0) := fun h => hhigh ⟨by omega, h.2⟩
    have : i + k ≠ m := by omega
    tauto

lemma getLsbD_shiftRightTurn :
    ((shiftRightTurn a k shift pn i).getD m 0).getLsbD r = true ↔
      (pn.getD m 0).getLsbD r = true ∨ ShiftedRight a k shift i m r := by
  have hpn : m < pn.length := hlength ▸ hm
  unfold shiftRightTurn ShiftedRight
  split_ifs with hhigh hlow hlow
  · have hplace : i - k - 1 = m ↔ i = m + k + 1 := by omega
    have hplace' : i - k = m ↔ i = m + k := by omega
    rw [getLsbD_orAt (by simpa using hpn), getLsbD_orAt hpn, hplace, hplace']
    tauto
  · omega
  · have hplace : i - k = m ↔ i = m + k := by omega
    have : ¬ (i = m + k + 1 ∧ shift ≠ 0) := fun h => hhigh ⟨by omega, h.2⟩
    rw [getLsbD_orAt hpn, hplace]
    tauto
  · have : i ≠ m + k + 1 := by omega
    have : i ≠ m + k := by omega
    tauto

end

lemma value_shiftLeft (shift : ℕ) :
    (shiftLeft a shift).value = a.value * 2 ^ shift % 2 ^ (32 * WIDTH) := by
  have hbits : ∀ m < a.pn.length, ∀ r, ((shiftLeft a shift).pn.getD m 0).getLsbD r = true ↔
      ∃ i < a.pn.length, ShiftedLeft a.pn (shift / 32) (shift % 32) i m r := by
    intro m hm r
    rw [shiftLeft, a.length_pn]
    exact getLsbD_foldl (length_shiftLeftTurn _ _ _)
      (fun pn i m r hlength hm => getLsbD_shiftLeftTurn _ _ _ pn i m r
        (hlength.trans a.length_pn.symm) (hm.trans_eq a.length_pn.symm)) _
      (hm.trans_eq a.length_pn) r
  have hvalue := WordArray.value_shiftLeft (Nat.mod_lt shift (by decide : 0 < 32))
    ((shiftLeft a shift).length_pn.trans a.length_pn.symm) hbits
  rwa [Nat.div_add_mod, a.length_pn] at hvalue

lemma value_shiftRight (shift : ℕ) : (shiftRight a shift).value = a.value / 2 ^ shift := by
  have hbits : ∀ m < a.pn.length, ∀ r, ((shiftRight a shift).pn.getD m 0).getLsbD r = true ↔
      ∃ i < a.pn.length, ShiftedRight a.pn (shift / 32) (shift % 32) i m r := by
    intro m hm r
    rw [shiftRight, a.length_pn]
    exact getLsbD_foldl (length_shiftRightTurn _ _ _)
      (fun pn i m r hlength hm => getLsbD_shiftRightTurn _ _ _ pn i m r
        (hlength.trans a.length_pn.symm) (hm.trans_eq a.length_pn.symm)) _
      (hm.trans_eq a.length_pn) r
  have hvalue := WordArray.value_shiftRight (Nat.mod_lt shift (by decide : 0 < 32))
    ((shiftRight a shift).length_pn.trans a.length_pn.symm) hbits
  rwa [Nat.div_add_mod] at hvalue

/-- The highest words that differ decide. -/
lemma lessLoop_iff (atEnd : Bool) (h : l.length = m.length) :
    lessLoop atEnd l.reverse m.reverse = true ↔ WordArray.value l < WordArray.value m ∨
      WordArray.value l = WordArray.value m ∧ atEnd = true := by
  induction l using List.reverseRecOn generalizing m with
  | nil =>
    rw [List.length_eq_zero_iff.mp h.symm]
    simp [lessLoop]
  | append_singleton l a ih =>
    rcases List.eq_nil_or_concat m with rfl | ⟨m, b, rfl⟩
    · simp at h
    · rw [List.concat_eq_append] at h ⊢
      have hlength : l.length = m.length := by simpa using h
      rw [value_concat_lt hlength, value_concat_eq hlength, List.reverse_concat,
        List.reverse_concat, lessLoop]
      split_ifs with hlt hgt
      · simp [hlt]
      · have hne : a ≠ b := fun heq => BitVec.lt_irrefl b (heq ▸ hgt)
        simp [hlt, hne]
      · have heq : a = b := BitVec.le_antisymm (BitVec.not_lt.mp hgt) (BitVec.not_lt.mp hlt)
        rw [ih hlength]
        simp [heq]

lemma equalLoop_iff (h : l.length = m.length) : equalLoop l m = true ↔ l = m := by
  induction l generalizing m with
  | nil =>
    rw [List.length_eq_zero_iff.mp h.symm]
    simp [equalLoop]
  | cons a l ih =>
    cases m with
    | nil => exact absurd h (Nat.succ_ne_zero _)
    | cons b m =>
      rw [equalLoop, List.cons_eq_cons]
      split_ifs with hab
      · simp [hab]
      · rw [ih (Nat.succ.inj h), and_iff_right (not_not.mp hab)]

variable (a b : BaseUint WIDTH)

lemma value_add : (add a b).value = (a.value + b.value) % 2 ^ (32 * WIDTH) := by
  have hzero : (0 : BitVec 64).toNat = 0 := rfl
  have hadd := value_addLoop (hzero.trans_le (Nat.zero_le 1))
    (a.length_pn.trans b.length_pn.symm)
  rwa [a.length_pn, hzero, zero_add] at hadd

lemma value_increment : (increment a).value = (a.value + 1) % 2 ^ (32 * WIDTH) := by
  have hincrement := value_incrementLoop a.pn
  rwa [a.length_pn] at hincrement

lemma value_decrement : ((decrement a).value : ℤ) = (a.value - 1) % 2 ^ (32 * WIDTH) := by
  have hback : increment (decrement a) = a := BaseUint.ext (incrementLoop_decrementLoop a.pn)
  have hvalue := value_increment (decrement a)
  have hlt := (decrement a).value_lt
  rw [hback] at hvalue
  rw [hvalue]
  push_cast
  rw [Int.emod_sub_emod, add_sub_cancel_right, Int.emod_eq_of_lt (Int.natCast_nonneg _)]
  exact_mod_cast hlt

lemma value_neg : (neg a).value = (2 ^ (32 * WIDTH) - a.value) % 2 ^ (32 * WIDTH) := by
  have hnot := value_map_not a.pn
  rw [a.length_pn] at hnot
  have hcomplement : (complement a).value + 1 = 2 ^ (32 * WIDTH) - a.value := by
    rw [value, value, complement]
    dsimp only
    omega
  rw [neg, value_increment, hcomplement]

lemma value_sub : (sub a b).value = (2 ^ (32 * WIDTH) - b.value + a.value) % 2 ^ (32 * WIDTH) := by
  rw [sub, value_add, value_neg, Nat.add_mod_mod, add_comm]

lemma value_ofUInt64 (b : BitVec 64) : (ofUInt64 b : BaseUint (n + 2)).value = b.toNat := by
  have hb := b.isLt
  rw [value, ofUInt64, value_cons, value_cons, value_replicate_zero, BitVec.toNat_setWidth,
    BitVec.toNat_setWidth, BitVec.toNat_ushiftRight, Nat.shiftRight_eq_div_pow]
  omega

/-- As integers. -/
lemma value_sub_int : ((sub a b).value : ℤ) = (a.value - b.value) % 2 ^ (32 * WIDTH) := by
  rw [value_sub]
  have hle := b.value_lt.le
  push_cast [Nat.cast_sub hle]
  rw [sub_add_eq_add_sub, add_sub_assoc, Int.add_emod_left]

lemma value_neg_int : ((neg a).value : ℤ) = -a.value % 2 ^ (32 * WIDTH) := by
  rw [value_neg]
  have hle := a.value_lt.le
  push_cast [Nat.cast_sub hle]
  rw [Int.sub_emod_left]

lemma less_iff : less a b = true ↔ a.value < b.value := by
  rw [less, lessLoop_iff false (a.length_pn.trans b.length_pn.symm)]
  simp [value]

lemma lessEqual_iff : lessEqual a b = true ↔ a.value ≤ b.value := by
  rw [lessEqual, lessLoop_iff true (a.length_pn.trans b.length_pn.symm), le_iff_lt_or_eq]
  simp [value]

lemma equal_iff : equal a b = true ↔ a.value = b.value := by
  rw [equal, equalLoop_iff (a.length_pn.trans b.length_pn.symm), value_injective, BaseUint.ext_iff]

lemma equalUInt64_iff (a : BaseUint (n + 2)) (b : BitVec 64) :
    equalUInt64 a b = true ↔ a.value = b.toNat := by
  rw [← value_ofUInt64 (n := n), value_injective, BaseUint.ext_iff, equalUInt64, ofUInt64]
  obtain ⟨pn, hlength⟩ := a
  cases pn with
  | nil => exact absurd hlength (Nat.succ_ne_zero _).symm
  | cons x pn =>
    cases pn with
    | nil => exact absurd (Nat.succ.inj hlength) (Nat.succ_ne_zero _).symm
    | cons y pn =>
      have hrest : pn.length = n := Nat.succ.inj (Nat.succ.inj hlength)
      have hzeros : (pn.all fun x => x == 0) = true ↔ pn = List.replicate n 0 := by
        rw [List.eq_replicate_iff, and_iff_right hrest]
        simp
      simp only [List.getD_cons_zero, List.getD_cons_succ, List.drop_succ_cons, List.drop_zero,
        List.cons_eq_cons, ← hzeros]
      split_ifs with hx hy
      · simp [hx]
      · simp [hy]
      · simp [not_not.mp hx, not_not.mp hy]

/-! ## Hexadecimal numbers -/

lemma hexDigit_spec : ∀ d < 16, digitOf (hexDigit d) = UInt8.ofNat d ∧
    isHexDigit (hexDigit d) = true ∧ isSpace (hexDigit d) = false ∧
      toLower (hexDigit d) ≠ 120 := by
  decide

/-- The digits that are written are read again by each step of `SetHex`. -/
lemma skip_digits {psz : Bytes} (h : ∀ c ∈ psz, ∃ d < 16, c = hexDigit d) :
    (skipPrefix (psz.dropWhile isSpace)).takeWhile isHexDigit = psz := by
  have hspace : psz.dropWhile isSpace = psz := by
    cases psz with
    | nil => rfl
    | cons c psz =>
      obtain ⟨d, hd, rfl⟩ := h c List.mem_cons_self
      exact List.dropWhile_cons_of_neg (by simp [(hexDigit_spec d hd).2.2.1])
  have hprefix : skipPrefix psz = psz := by
    cases psz with
    | nil => rfl
    | cons c psz =>
      cases psz with
      | nil => rfl
      | cons x psz =>
        obtain ⟨d, hd, rfl⟩ := h x (List.mem_cons_of_mem _ List.mem_cons_self)
        exact if_neg fun hx => (hexDigit_spec d hd).2.2.2 hx.2
  rw [hspace, hprefix, List.takeWhile_eq_self_iff]
  intro c hc
  obtain ⟨d, hd, rfl⟩ := h c hc
  exact (hexDigit_spec d hd).2.1

/-- The digits from the last one on are the bytes from the first one on. -/
lemma fillLoop_digits (p : Bytes) :
    fillLoop p.length (p.flatMap fun b => (hexByte b).reverse) = p := by
  induction p with
  | nil => rfl
  | cons b p ih =>
    have hb := b.toNat_lt
    have hlow := (hexDigit_spec (b.toNat % 16) (Nat.mod_lt _ (by decide))).1
    have hhigh := (hexDigit_spec (b.toNat / 16) (by omega)).1
    have hbyte : UInt8.ofNat (b.toNat % 16) ||| UInt8.ofNat (b.toNat / 16) <<< 4 = b := by
      have hfour : (4 : UInt8).toNat % 8 = 4 := rfl
      have hdiv : (UInt8.ofNat (b.toNat / 16)).toNat = b.toNat / 16 :=
        UInt8.toNat_ofNat_of_lt' (show b.toNat / 16 < 256 by omega)
      have hmod : (UInt8.ofNat (b.toNat % 16)).toNat = b.toNat % 2 ^ 4 :=
        UInt8.toNat_ofNat_of_lt' (show b.toNat % 16 < 256 by omega)
      have hshift : b.toNat / 16 * 2 ^ 4 % 2 ^ 8 = b.toNat / 16 * 2 ^ 4 :=
        Nat.mod_eq_of_lt (by omega)
      rw [← UInt8.toNat_inj, UInt8.toNat_or, UInt8.toNat_shiftLeft, hfour, hdiv, hmod,
        Nat.shiftLeft_eq, hshift, Nat.or_comm, or_eq (Nat.mod_lt _ (by decide : 0 < 2 ^ 4))]
      omega
    have hdigits : ((b :: p).flatMap fun b => (hexByte b).reverse)
        = hexDigit (b.toNat % 16) :: hexDigit (b.toNat / 16) ::
          p.flatMap fun b => (hexByte b).reverse := rfl
    rw [hdigits, List.length_cons, fillLoop, ih, hlow, hhigh, hbyte]

lemma wordsOf_flatMap (l : List (BitVec 32)) :
    wordsOf l.length (l.flatMap fun x => leBytes 4 x.toNat) = l := by
  induction l with
  | nil => rfl
  | cons x l ih =>
    have hlength := leBytes_length 4 x.toNat
    have hx : leValue (leBytes 4 x.toNat) = x.toNat := leValue_leBytes_of_lt x.isLt
    rw [List.flatMap_cons, List.length_cons, wordsOf, List.take_left' hlength,
      List.drop_left' hlength, hx, BitVec.ofNat_toNat, BitVec.setWidth_eq, ih]

lemma length_bytes : a.bytes.length = WIDTH * 4 := by
  rw [bytes, List.length_flatMap]
  simp [a.length_pn]

/-- `SetHex` reads what `GetHex` writes. -/
lemma setHex_getHex : setHex a.getHex = a := by
  have hdigits : ∀ c ∈ a.getHex, ∃ d < 16, c = hexDigit d := by
    intro c hc
    obtain ⟨b, -, hmem⟩ := List.mem_flatMap.mp hc
    have hb := b.toNat_lt
    rcases List.mem_cons.mp hmem with rfl | hmem
    · exact ⟨_, by omega, rfl⟩
    · exact ⟨_, Nat.mod_lt _ (by decide), List.mem_singleton.mp hmem⟩
  have hreverse : a.getHex.reverse = a.bytes.flatMap fun b => (hexByte b).reverse := by
    rw [getHex, List.reverse_flatMap, List.reverse_reverse]
    rfl
  refine BaseUint.ext ?_
  rw [setHex]
  dsimp only
  rw [skip_digits hdigits, hreverse, ← a.length_bytes, fillLoop_digits]
  have hwords := wordsOf_flatMap a.pn
  rwa [a.length_pn] at hwords

/-! ## The number of the whole width -/

/-- The number as the rest of the node has it. -/
def toBitVec (a : BaseUint WIDTH) : BitVec (32 * WIDTH) := BitVec.ofNat _ a.value

lemma toNat_toBitVec : (toBitVec a).toNat = a.value := by
  rw [toBitVec, BitVec.toNat_ofNat, Nat.mod_eq_of_lt a.value_lt]

/-- The loops over the words refine the operations on numbers of the whole width. -/
lemma toBitVec_spec (shift : ℕ) :
    toBitVec (add a b) = toBitVec a + toBitVec b ∧
    toBitVec (sub a b) = toBitVec a - toBitVec b ∧
    toBitVec (neg a) = -toBitVec a ∧
    toBitVec (shiftLeft a shift) = toBitVec a <<< shift ∧
    toBitVec (shiftRight a shift) = toBitVec a >>> shift ∧
    (less a b = true ↔ toBitVec a < toBitVec b) ∧
    (equal a b = true ↔ toBitVec a = toBitVec b) := by
  refine ⟨?_, ?_, ?_, ?_, ?_, ?_, ?_⟩
  · apply BitVec.eq_of_toNat_eq
    rw [BitVec.toNat_add, toNat_toBitVec, toNat_toBitVec, toNat_toBitVec, value_add]
  · apply BitVec.eq_of_toNat_eq
    rw [BitVec.toNat_sub, toNat_toBitVec, toNat_toBitVec, toNat_toBitVec, value_sub]
  · apply BitVec.eq_of_toNat_eq
    rw [BitVec.toNat_neg, toNat_toBitVec, toNat_toBitVec, value_neg]
  · apply BitVec.eq_of_toNat_eq
    rw [BitVec.toNat_shiftLeft, toNat_toBitVec, toNat_toBitVec, value_shiftLeft, Nat.shiftLeft_eq]
  · apply BitVec.eq_of_toNat_eq
    rw [BitVec.toNat_ushiftRight, toNat_toBitVec, toNat_toBitVec, value_shiftRight,
      Nat.shiftRight_eq_div_pow]
  · rw [less_iff, BitVec.lt_def, toNat_toBitVec, toNat_toBitVec]
  · rw [equal_iff, ← BitVec.toNat_inj, toNat_toBitVec, toNat_toBitVec]

/-! ## The operations on integers -/

/-- What the operators compute for two numbers, a `uint64` and a number of places. -/
structure Computes (a b : BaseUint (n + 2)) (b64 : BitVec 64) (shift : ℕ) : Prop where
  add : ((add a b).value : ℤ) = (a.value + b.value) % 2 ^ (32 * (n + 2))
  sub : ((sub a b).value : ℤ) = (a.value - b.value) % 2 ^ (32 * (n + 2))
  neg : ((neg a).value : ℤ) = -a.value % 2 ^ (32 * (n + 2))
  increment : ((increment a).value : ℤ) = (a.value + 1) % 2 ^ (32 * (n + 2))
  decrement : ((decrement a).value : ℤ) = (a.value - 1) % 2 ^ (32 * (n + 2))
  postIncrement : postIncrement a = (a, BaseUint.increment a)
  postDecrement : postDecrement a = (a, BaseUint.decrement a)
  addUInt64 : ((addUInt64 a b64).value : ℤ) = (a.value + b64.toNat) % 2 ^ (32 * (n + 2))
  subUInt64 : ((subUInt64 a b64).value : ℤ) = (a.value - b64.toNat) % 2 ^ (32 * (n + 2))
  shiftLeft : ((shiftLeft a shift).value : ℤ) = a.value * 2 ^ shift % 2 ^ (32 * (n + 2))
  shiftRight : ((shiftRight a shift).value : ℤ) = a.value / 2 ^ shift
  less : less a b = true ↔ a.value < b.value
  lessEqual : lessEqual a b = true ↔ a.value ≤ b.value
  greater : greater a b = true ↔ a.value > b.value
  greaterEqual : greaterEqual a b = true ↔ a.value ≥ b.value
  equal : equal a b = true ↔ a.value = b.value
  equalUInt64 : equalUInt64 a b64 = true ↔ a.value = b64.toNat
  setHex_getHex : setHex a.getHex = a

/-- Of every size, such as 160, 256 and 512 bits, and for every number of places. -/
theorem computes (a b : BaseUint (n + 2)) (b64 : BitVec 64) (shift : ℕ) :
    Computes a b b64 shift where
  add := by exact_mod_cast congrArg Nat.cast (value_add a b)
  sub := value_sub_int a b
  neg := value_neg_int a
  increment := by exact_mod_cast congrArg Nat.cast (value_increment a)
  decrement := value_decrement a
  postIncrement := rfl
  postDecrement := rfl
  addUInt64 := by
    rw [BaseUint.addUInt64, value_add, value_ofUInt64]
    push_cast
    rfl
  subUInt64 := by
    have hsub := value_sub_int a (ofUInt64 b64)
    rwa [value_ofUInt64] at hsub
  shiftLeft := by exact_mod_cast congrArg Nat.cast (value_shiftLeft a shift)
  shiftRight := by exact_mod_cast congrArg Nat.cast (value_shiftRight a shift)
  less := less_iff a b
  lessEqual := lessEqual_iff a b
  greater := less_iff b a
  greaterEqual := lessEqual_iff b a
  equal := equal_iff a b
  equalUInt64 := equalUInt64_iff a b64
  setHex_getHex := BaseUint.setHex_getHex a

end BaseUint

end HyperStake
