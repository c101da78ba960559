import HyperStake.Net.TimeOffset
import Mathlib.Data.List.DropRight

/-!
# The median filter

`CMedianFilter` keeps the last values of a stream and takes back the last instance of a value.  In
any run it retains what it should, and its sorted values are those of the window (`retains_median`),
if no value is taken back from more than `2 ^ 31` values.

The number of the values is an `int` for the median, and the two values in the middle are added
before they are halved.  So the median is right exactly if there are fewer than `2 ^ 31` values and
the sum does not overflow.
-/

namespace HyperStake.MedianFilter

/-- A signed integer type of the machine. -/
class SignedInteger (T : Type) [LE T] [Add T] [Div T] [OfNat T 2] where
  width : ℕ
  two_le_width : 2 ≤ width
  toInt : T → ℤ
  toInt_inj : Function.Injective toInt
  le_iff : ∀ a b : T, a ≤ b ↔ toInt a ≤ toInt b
  toInt_add : ∀ a b : T, toInt (a + b) = (toInt a + toInt b).bmod (2 ^ width)
  toInt_half : ∀ a : T, toInt (a / 2) = (toInt a).tdiv 2
  le_toInt : ∀ a : T, -2 ^ (width - 1) ≤ toInt a
  toInt_lt : ∀ a : T, toInt a < 2 ^ (width - 1)

instance : SignedInteger Int32 where
  width := 32
  two_le_width := by decide
  toInt := Int32.toInt
  toInt_inj _ _ := Int32.toInt_inj.mp
  le_iff _ _ := Int32.le_iff_toInt_le
  toInt_add := Int32.toInt_add
  toInt_half a := Int32.toInt_div_of_ne_right a 2 (by decide)
  le_toInt := Int32.le_toInt
  toInt_lt := Int32.toInt_lt

instance : SignedInteger Int64 where
  width := 64
  two_le_width := by decide
  toInt := Int64.toInt
  toInt_inj _ _ := Int64.toInt_inj.mp
  le_iff _ _ := Int64.le_iff_toInt_le
  toInt_add := Int64.toInt_add
  toInt_half a := Int64.toInt_div_of_ne_right a 2 (by decide)
  le_toInt := Int64.le_toInt
  toInt_lt := Int64.toInt_lt

/-- A filter, with the value that it starts from. -/
structure CMedianFilter (T : Type) [LE T] [DecidableLE T] extends Net.CMedianFilter T where
  tInitial : T

namespace CMedianFilter

variable {T : Type} [LE T] [DecidableLE T]

/-- The constructor. -/
def make (size : UInt32) (initial_value : T) : CMedianFilter T :=
  { Net.CMedianFilter.make size.toNat initial_value with tInitial := initial_value }

/-- Take in a value, in place of the first one if the filter is full. -/
def input (value : T) (f : CMedianFilter T) : CMedianFilter T :=
  { f.toCMedianFilter.input value with tInitial := f.tInitial }

/-- The loop of `removeLast`, with one more than the index. -/
def eraseDown [DecidableEq T] (value : T) (vValues : List T) : ℕ → List T
  | 0 => vValues
  | i + 1 =>
    if vValues[i]? = some value then vValues.eraseIdx i else eraseDown value vValues i

/-- Remove the last instance of a value. -/
def removeLast [DecidableEq T] (value : T) (f : CMedianFilter T) : CMedianFilter T :=
  let i := Int32.ofNat (f.vValues.length - 1)
  let kept := eraseDown value f.vValues (i.toInt + 1).toNat
  { nSize := f.nSize
    vValues := if kept = [] then [f.tInitial] else kept
    vSorted := (if kept = [] then [f.tInitial] else kept).insertionSort (· ≤ ·)
    sorted := rfl
    nonempty := by
      split_ifs with hempty
      · exact List.cons_ne_nil _ _
      · exact hempty
    tInitial := f.tInitial }

/-- The median, or none if the assertion fails. -/
def median [Add T] [Div T] [OfNat T 2] (f : CMedianFilter T) : Option T :=
  let size := Int32.ofNat f.vSorted.length
  if size > 0 then
    if size &&& 1 ≠ 0 then f.vSorted[(size / 2).toInt.toNat]?
    else do
      let a ← f.vSorted[(size / 2 - 1).toInt.toNat]?
      let b ← f.vSorted[(size / 2).toInt.toNat]?
      return (a + b) / 2
  else none

end CMedianFilter

/-! ## What is retained -/

section Lists

variable {T : Type} [DecidableEq T]

/-- A list without the last instance of a value. -/
def eraseLast (value : T) (w : List T) : List T := (w.reverse.erase value).reverse

lemma eraseLast_concat (value x : T) (w : List T) : eraseLast value (w ++ [x]) =
    if x = value then w else eraseLast value w ++ [x] := by
  rw [eraseLast, List.reverse_append, List.reverse_singleton, List.singleton_append,
    List.erase_cons]
  simp only [beq_iff_eq]
  split_ifs
  · exact List.reverse_reverse w
  · rw [List.reverse_cons, eraseLast]

/-- The loop removes the last instance of the value among the first ones. -/
lemma eraseDown_eq (value : T) (w : List T) {n : ℕ} (hn : n ≤ w.length) :
    CMedianFilter.eraseDown value w n = eraseLast value (w.take n) ++ w.drop n := by
  induction n with
  | zero => simp [CMedianFilter.eraseDown, eraseLast]
  | succ n ih =>
    have hget : w[n]? = some w[n] := List.getElem?_eq_getElem hn
    rw [CMedianFilter.eraseDown, hget, ← List.take_append_getElem hn, eraseLast_concat]
    split_ifs with heq hne hne
    · exact List.eraseIdx_eq_take_drop_succ w n
    · exact absurd (Option.some.inj heq) hne
    · exact absurd (congrArg some hne) heq
    · rw [ih (Nat.le_of_succ_le hn), List.append_assoc, List.singleton_append,
        List.drop_eq_getElem_cons hn]

lemma eraseDown_of_not_mem {value : T} {w : List T} (hmem : value ∉ w) (n : ℕ) :
    CMedianFilter.eraseDown value w n = w := by
  induction n with
  | zero => rfl
  | succ n ih =>
    have hne : w[n]? ≠ some value := fun hget => hmem (List.mem_of_getElem? hget)
    rw [CMedianFilter.eraseDown, if_neg hne, ih]

end Lists

section Runs

variable {T : Type} [LE T] [DecidableLE T] [DecidableEq T]

/-- Calls of a filter, with the values that are retained. -/
inductive FilterRun (admits : List T → T → Prop) (size : UInt32) (initial_value : T) :
    List T → CMedianFilter T → Prop
  | start : FilterRun admits size initial_value [initial_value] (.make size initial_value)
  | input {w : List T} {f : CMedianFilter T} (value : T) :
      FilterRun admits size initial_value w f →
      FilterRun admits size initial_value ((w ++ [value]).rtake size.toNat) (f.input value)
  | removeLast {w : List T} {f : CMedianFilter T} (value : T) :
      FilterRun admits size initial_value w f → admits w value →
      FilterRun admits size initial_value
        (if eraseLast value w = [] then [initial_value] else eraseLast value w)
        (f.removeLast value)

/-- The index of a value that is taken back fits in an `int`. -/
def Admitted (w : List T) (value : T) : Prop := value ∈ w → w.length ≤ 2 ^ 31

/-- The filter has the values that are retained. -/
structure Retains (size : UInt32) (initial_value : T) (w : List T) (f : CMedianFilter T) :
    Prop where
  vValues : f.vValues = w
  nSize : f.nSize = size.toNat
  tInitial : f.tInitial = initial_value
  length : w.length ≤ size.toNat

lemma FilterRun.retains {size : UInt32} {initial_value : T} {w : List T} {f : CMedianFilter T}
    (hsize : 1 ≤ size.toNat) (hrun : FilterRun Admitted size initial_value w f) :
    Retains size initial_value w f := by
  induction hrun with
  | start => exact ⟨rfl, rfl, rfl, hsize⟩
  | @input w f value _ ih =>
    obtain ⟨rfl, hnSize, htInitial, hlength⟩ := ih
    refine ⟨?_, hnSize, htInitial, ?_⟩
    · change (if f.vValues.length = f.nSize then f.vValues.tail else f.vValues) ++ [value] = _
      rw [hnSize, List.rtake, List.length_append, List.length_singleton]
      split_ifs with hfull
      · rw [hfull, Nat.add_sub_cancel_left, List.drop_one, List.tail_append_of_ne_nil f.nonempty]
      · rw [Nat.sub_eq_zero_of_le (by omega), List.drop_zero]
    · rw [List.rtake, List.length_drop, List.length_append, List.length_singleton]
      omega
  | @removeLast w f value _ hadmitted ih =>
    obtain ⟨rfl, hnSize, htInitial, hlength⟩ := ih
    have hpos : 0 < f.vValues.length := List.length_pos_iff.mpr f.nonempty
    have hkept : CMedianFilter.eraseDown value f.vValues
        ((Int32.ofNat (f.vValues.length - 1)).toInt + 1).toNat = eraseLast value f.vValues := by
      by_cases hmem : value ∈ f.vValues
      · have hle := hadmitted hmem
        have hcount : ((Int32.ofNat (f.vValues.length - 1)).toInt + 1).toNat =
            f.vValues.length := by
          rw [Int32.toInt_ofNat_of_lt (by omega)]
          omega
        rw [hcount, eraseDown_eq value _ le_rfl, List.take_length, List.drop_length,
          List.append_nil]
      · rw [eraseDown_of_not_mem hmem, eraseLast, List.erase_of_not_mem (by simpa using hmem),
          List.reverse_reverse]
    refine ⟨?_, hnSize, htInitial, ?_⟩
    · change (if CMedianFilter.eraseDown value f.vValues _ = [] then [f.tInitial] else
        CMedianFilter.eraseDown value f.vValues _) = _
      rw [hkept, htInitial]
    · split_ifs
      · exact hsize
      · rw [eraseLast, List.length_reverse]
        exact (List.length_erase_le).trans (by rwa [List.length_reverse])

end Runs

/-! ## The median -/

/-- The value in the middle, or for an even count the truncated mean of the two there. -/
def IsTruncatedMedian (m : ℤ) (l : List ℤ) : Prop :=
  ∃ s : List ℤ, s.Perm l ∧ s.Pairwise (· ≤ ·) ∧
    if l.length % 2 = 1 then s[l.length / 2]? = some m
    else ∃ a b, s[l.length / 2 - 1]? = some a ∧ s[l.length / 2]? = some b ∧ m = (a + b).tdiv 2

section Median

open SignedInteger

variable {T : Type} [LE T] [DecidableLE T] [Add T] [Div T] [OfNat T 2] [SignedInteger T]

/-- The median is that of the retained values. -/
def MedianRight (f : CMedianFilter T) (w : List T) : Prop :=
  ∃ m, f.median = some m ∧ IsTruncatedMedian (toInt m) (w.map toInt)

/-- The sum of the two values in the middle does not overflow. -/
def MiddleFits (w : List T) : Prop :=
  w.length % 2 = 0 → ∀ a ∈ (w.insertionSort (· ≤ ·))[w.length / 2 - 1]?,
    ∀ b ∈ (w.insertionSort (· ≤ ·))[w.length / 2]?,
      -2 ^ (width T - 1) ≤ toInt a + toInt b ∧ toInt a + toInt b < 2 ^ (width T - 1)

lemma tdiv_two (n : ℤ) : n.tdiv 2 = if 0 ≤ n then n / 2 else -(-n / 2) := by
  split_ifs with hn
  · exact Int.tdiv_eq_ediv_of_nonneg hn
  · rw [← Int.tdiv_eq_ediv_of_nonneg (by omega : 0 ≤ -n), Int.neg_tdiv, neg_neg]

/-- The half of a sum that overflows is not the mean. -/
lemma half_bmod_iff {k : ℕ} (hk : 2 ≤ k) {a b : ℤ} (ha : -2 ^ (k - 1) ≤ a) (ha' : a < 2 ^ (k - 1))
    (hb : -2 ^ (k - 1) ≤ b) (hb' : b < 2 ^ (k - 1)) :
    ((a + b).bmod (2 ^ k)).tdiv 2 = (a + b).tdiv 2 ↔
      -2 ^ (k - 1) ≤ a + b ∧ a + b < 2 ^ (k - 1) := by
  obtain ⟨k, rfl⟩ := Nat.exists_eq_add_of_le' hk
  have hpow : 2 ^ (k + 2) = 2 * (2 ^ (k + 1) : ℕ) := by rw [← Nat.pow_succ']
  have hpos : 2 ≤ 2 ^ (k + 1) := by
    rw [Nat.pow_succ]
    exact Nat.le_mul_of_pos_left 2 (Nat.two_pow_pos k)
  have hcast : ((2 ^ (k + 1) : ℕ) : ℤ) = 2 ^ (k + 1) := by push_cast; rfl
  rw [hpow]
  change -2 ^ (k + 1) ≤ a at ha
  change a < 2 ^ (k + 1) at ha'
  change -2 ^ (k + 1) ≤ b at hb
  change b < 2 ^ (k + 1) at hb'
  change _ ↔ -2 ^ (k + 1) ≤ a + b ∧ a + b < 2 ^ (k + 1)
  rw [← hcast] at *
  generalize 2 ^ (k + 1) = M at *
  have hbmod : (a + b).bmod (2 * M) = if a + b < -M then a + b + 2 * M
      else if M ≤ a + b then a + b - 2 * M else a + b := by
    split_ifs
    · rw [← Int.add_bmod_right, Int.bmod_eq_of_le (by omega) (by omega)]
      push_cast
      rfl
    · rw [← Int.sub_bmod_right, Int.bmod_eq_of_le (by omega) (by omega)]
      push_cast
      rfl
    · exact Int.bmod_eq_of_le (by omega) (by omega)
  rw [hbmod, tdiv_two, tdiv_two]
  split_ifs <;> omega

/-- The values of the middle are those of any sorted permutation. -/
lemma isTruncatedMedian_iff {m : ℤ} {s l : List ℤ} (hperm : s.Perm l)
    (hsorted : s.Pairwise (· ≤ ·)) : IsTruncatedMedian m l ↔
      if l.length % 2 = 1 then s[l.length / 2]? = some m
      else ∃ a b, s[l.length / 2 - 1]? = some a ∧ s[l.length / 2]? = some b ∧
        m = (a + b).tdiv 2 := by
  refine ⟨fun ⟨s', hperm', hsorted', h⟩ => ?_, fun h => ⟨s, hperm, hsorted, h⟩⟩
  rwa [(hperm'.trans hperm.symm).eq_of_pairwise' hsorted' hsorted] at h

lemma pairwise_vSorted (f : CMedianFilter T) : f.vSorted.Pairwise (· ≤ ·) := by
  have htotal : Std.Total (α := T) (· ≤ ·) :=
    ⟨fun a b => (le_total (toInt a) (toInt b)).imp (le_iff a b).mpr (le_iff b a).mpr⟩
  have htrans : IsTrans T (· ≤ ·) := ⟨fun a b c hab hbc =>
    (le_iff a c).mpr (((le_iff a b).mp hab).trans ((le_iff b c).mp hbc))⟩
  rw [f.sorted]
  exact List.pairwise_insertionSort _ _

lemma ofNat_and_one (n : ℕ) : Int32.ofNat n &&& 1 ≠ 0 ↔ n % 2 = 1 := by
  have htoNat : (Int32.ofNat n &&& 1).toBitVec.toNat = n % 2 := by
    rw [Int32.toBitVec_and, BitVec.toNat_and]
    change n % 2 ^ 32 &&& 1 = n % 2
    rw [Nat.and_one_is_mod]
    omega
  rw [ne_eq, ← Int32.toBitVec_inj, ← BitVec.toNat_inj, htoNat]
  change ¬ n % 2 = 0 ↔ _
  omega

/-- The median is right exactly if the count is an `int` and the sum does not overflow. -/
lemma medianRight_iff {f : CMedianFilter T} (hlength : f.vValues.length < 2 ^ 32) :
    MedianRight f f.vValues ↔ f.vValues.length < 2 ^ 31 ∧ MiddleFits f.vValues := by
  have hlen : f.vSorted.length = f.vValues.length := by rw [f.sorted, List.length_insertionSort]
  have hpos : 0 < f.vValues.length := List.length_pos_iff.mpr f.nonempty
  by_cases hint : f.vValues.length < 2 ^ 31
  · have hsize : (Int32.ofNat f.vSorted.length).toInt = f.vValues.length := by
      rw [hlen, Int32.toInt_ofNat_of_lt hint]
    have hpositive : Int32.ofNat f.vSorted.length > 0 := by
      rw [gt_iff_lt, Int32.lt_iff_toInt_lt, hsize]
      exact Int.natCast_pos.mpr hpos
    have hhalf : (Int32.ofNat f.vSorted.length / 2).toInt = (f.vValues.length / 2 : ℕ) := by
      rw [Int32.toInt_div_of_ne_right _ 2 (by decide), hsize]
      exact Int.tdiv_eq_ediv_of_nonneg (Int.natCast_nonneg _)
    have hperm : (f.vSorted.map toInt).Perm (f.vValues.map toInt) := by
      rw [f.sorted]
      exact (List.perm_insertionSort (· ≤ ·) f.vValues).map _
    have hsorted : (f.vSorted.map (toInt (T := T))).Pairwise (· ≤ ·) := by
      rw [List.pairwise_map]
      exact (pairwise_vSorted f).imp (le_iff _ _).mp
    rw [MedianRight, and_iff_right hint, MiddleFits, ← f.sorted]
    simp only [isTruncatedMedian_iff hperm hsorted, List.length_map, List.getElem?_map]
    have hmedian : f.median = if f.vValues.length % 2 = 1 then f.vSorted[f.vValues.length / 2]?
        else do
          let a ← f.vSorted[f.vValues.length / 2 - 1]?
          let b ← f.vSorted[f.vValues.length / 2]?
          return (a + b) / 2 := by
      have hbefore : (Int32.ofNat f.vSorted.length / 2 - 1).toInt.toNat =
          f.vValues.length / 2 - 1 := by
        rw [Int32.toInt_sub, hhalf, Int.bmod_eq_of_le]
        · change ((f.vValues.length / 2 : ℕ) - 1 : ℤ).toNat = _
          omega
        · change _ ≤ ((f.vValues.length / 2 : ℕ) - 1 : ℤ)
          omega
        · change ((f.vValues.length / 2 : ℕ) - 1 : ℤ) < _
          omega
      unfold CMedianFilter.median
      dsimp only
      rw [if_pos hpositive, hbefore, hhalf, Int.toNat_natCast]
      simp only [ofNat_and_one, hlen]
    rw [hmedian]
    obtain ⟨b, hb⟩ : ∃ b, f.vSorted[f.vValues.length / 2]? = some b :=
      ⟨_, List.getElem?_eq_getElem (by omega)⟩
    split_ifs with hodd
    · simp [hb, hodd]
    · obtain ⟨a, ha⟩ : ∃ a, f.vSorted[f.vValues.length / 2 - 1]? = some a :=
        ⟨_, List.getElem?_eq_getElem (by omega)⟩
      have heven : f.vValues.length % 2 = 0 := by omega
      have hiff := half_bmod_iff (two_le_width (T := T)) (le_toInt a) (toInt_lt a) (le_toInt b)
        (toInt_lt b)
      simp [ha, hb, heven, toInt_half, toInt_add, hiff]
  · have hnone : f.median = none := by
      have hnegative : (Int32.ofNat f.vSorted.length).toInt = f.vValues.length - 2 ^ 32 := by
        rw [hlen, Int32.toInt_ofNat', ← Int.sub_bmod_right]
        exact Int.bmod_eq_of_le (by norm_num; omega) (by norm_num; omega)
      refine if_neg fun hpositive => ?_
      rw [gt_iff_lt, Int32.lt_iff_toInt_lt, hnegative] at hpositive
      change 0 < _ at hpositive
      omega
    rw [MedianRight, hnone]
    exact iff_of_false (fun ⟨m, hm, _⟩ => by cases hm) fun h => hint h.1

variable [DecidableEq T]

/-- The filter retains what it should, and its median is right exactly if the count of the values is
an `int` and the sum of the two values in the middle does not overflow. -/
theorem retains_median {size : UInt32} {initial_value : T} {w : List T} {f : CMedianFilter T}
    (hsize : 1 ≤ size.toNat) (hrun : FilterRun Admitted size initial_value w f) :
    f.vValues = w ∧ f.vSorted.Perm w ∧ f.vSorted.Pairwise (· ≤ ·) ∧
      (MedianRight f w ↔ w.length < 2 ^ 31 ∧ MiddleFits w) := by
  obtain ⟨rfl, -, -, hlength⟩ := hrun.retains hsize
  refine ⟨rfl, ?_, pairwise_vSorted f, medianRight_iff (hlength.trans_lt size.toNat_lt)⟩
  rw [f.sorted]
  exact List.perm_insertionSort (· ≤ ·) f.vValues

end Median

theorem retains_median_two :
    ((CMedianFilter.make 5 (15 : Int32)).input 20).vValues = [15, 20] ∧
      ((CMedianFilter.make 5 (15 : Int32)).input 20).vSorted.Perm [15, 20] ∧
      ((CMedianFilter.make 5 (15 : Int32)).input 20).vSorted.Pairwise (· ≤ ·) ∧
      (MedianRight ((CMedianFilter.make 5 (15 : Int32)).input 20) [15, 20] ↔
        [15, 20].length < 2 ^ 31 ∧ MiddleFits [(15 : Int32), 20]) :=
  retains_median (show 1 ≤ (5 : UInt32).toNat by decide) (.input 20 .start)

/-- The sum of the two values overflows. -/
theorem not_medianRight_twoGreatest : ¬ ∀ (size : UInt32) (initial_value : Int32) (w : List Int32)
    (f : CMedianFilter Int32), 1 ≤ size.toNat →
      FilterRun (fun _ _ => True) size initial_value w f →
      f.vValues = w ∧ f.vSorted.Perm w ∧ f.vSorted.Pairwise (· ≤ ·) ∧ MedianRight f w := by
  intro hall
  obtain ⟨-, -, -, hright⟩ := hall 2 2147483647 _ _ (by decide) (.input 2147483647 .start)
  have hfits := ((medianRight_iff (by decide)).mp hright).2
  exact absurd (hfits rfl 2147483647 rfl 2147483647 rfl).2 (by decide)

end HyperStake.MedianFilter
