import Mathlib.Data.Finset.Insert
import HyperStake.Library.Int64Sum
import HyperStake.Library.Median
import HyperStake.Net.Address

/-!
# The offset of the network time

Every peer tells its time once.  `AddTimeData` keeps the difference to the local clock in a filter of
the last 200 differences, and whenever there is an odd number of at least five of them, it takes the
median as the offset of the network time, unless it is 70 minutes or more away from zero.

The absolute value of the lowest number of an `int64` is not a number of an `int64`.  With the
negation that wraps around, it is negative and passes as small, so the offset is in its bounds exactly
if no half of the differences are that number (`timeOffset_iff`).
-/

namespace HyperStake.Net

open Median

/-! ## The median filter -/

/-- The last values of a stream, also sorted.  The sorted values are those of the last input. -/
structure CMedianFilter (T : Type) [LE T] [DecidableLE T] where
  nSize : ℕ
  vValues : List T
  vSorted : List T
  sorted : vSorted = vValues.insertionSort (· ≤ ·)
  nonempty : vValues ≠ []

namespace CMedianFilter

variable {T : Type} [LE T] [DecidableLE T]

/-- The constructor. -/
def make (size : ℕ) (initial_value : T) : CMedianFilter T where
  nSize := size
  vValues := [initial_value]
  vSorted := [initial_value]
  sorted := rfl
  nonempty := List.cons_ne_nil _ _

/-- Take in a value, in place of the first one if the filter is full. -/
def input (value : T) (f : CMedianFilter T) : CMedianFilter T where
  nSize := f.nSize
  vValues := (if f.vValues.length = f.nSize then f.vValues.tail else f.vValues) ++ [value]
  vSorted := ((if f.vValues.length = f.nSize then f.vValues.tail else f.vValues)
    ++ [value]).insertionSort (· ≤ ·)
  sorted := rfl
  nonempty := List.append_ne_nil_of_right_ne_nil _ (List.cons_ne_nil _ _)

lemma length_pos (f : CMedianFilter T) : 0 < f.vSorted.length := by
  rw [f.sorted, List.length_insertionSort]
  exact List.length_pos_iff.mpr f.nonempty

/-- The median: the value in the middle, or the mean of the two there. -/
def median [Add T] [Div T] [OfNat T 2] (f : CMedianFilter T) : T :=
  let size := f.vSorted.length
  have hsize : 0 < size := f.length_pos
  if size % 2 = 1 then f.vSorted.get ⟨size / 2, by omega⟩
  else (f.vSorted.get ⟨size / 2 - 1, by omega⟩ + f.vSorted.get ⟨size / 2, by omega⟩) / 2

def size (f : CMedianFilter T) : ℕ := f.vValues.length

end CMedianFilter

/-! ## Adding time data -/

def abs64 (n : Int64) : Int64 := if n ≥ 0 then n else -n

/-- What is known about the times of the peers. -/
structure TimeData where
  nTimeOffset : Int64 := 0
  setKnown : Finset CNetAddr := ∅
  vTimeOffsets : CMedianFilter Int64 := .make 200 0
  /-- The warning has been given. -/
  fDone : Bool := false
  strMiscWarning : String := ""

namespace TimeData

/-- The part of `AddTimeData` that warns, once, if nobody has a time different from ours but within
five minutes of it. -/
def warn (s : TimeData) : TimeData :=
  if s.fDone then s
  else
    let fMatch := s.vTimeOffsets.vSorted.any fun nOffset =>
      nOffset != 0 && decide (abs64 nOffset < 5 * 60)
    if fMatch then s
    else
      { s with
        fDone := true
        strMiscWarning := "Warning: Please check that your computer's date and time are correct! " ++
          "If your clock is wrong HyperStake will not work properly." }

/-- The offset is computed again: there is an odd number of values, and at least five. -/
def recomputes (s : TimeData) : Bool :=
  decide (s.vTimeOffsets.size ≥ 5) && s.vTimeOffsets.size % 2 == 1

/-- `AddTimeData`, with the time that `GetTime` returns. -/
def addTimeData (ip : CNetAddr) (nTime getTime : Int64) (s : TimeData) : TimeData :=
  let nOffsetSample := nTime - getTime
  if ip ∈ s.setKnown then s
  else
    let s :=
      { s with
        setKnown := insert ip s.setKnown
        vTimeOffsets := s.vTimeOffsets.input nOffsetSample }
    if s.recomputes then
      let nMedian := s.vTimeOffsets.median
      -- only let other nodes change our time by so much
      if abs64 nMedian < 70 * 60 then { s with nTimeOffset := nMedian }
      else { s.warn with nTimeOffset := 0 }
    else s

/-- `GetAdjustedTime`, with the time that `GetTime` returns. -/
def getAdjustedTime (getTime : Int64) (s : TimeData) : Int64 := getTime + s.nTimeOffset

end TimeData

/-! ## Runs of calls -/

/-- A call of `AddTimeData`, with the time that `GetTime` returns. -/
structure TimeSample where
  ip : CNetAddr
  nTime : Int64
  getTime : Int64

/-- The sample of the call, as the code computes it. -/
def TimeSample.nOffsetSample (c : TimeSample) : Int64 := c.nTime - c.getTime

/-- The difference of the two times. -/
def TimeSample.difference (c : TimeSample) : ℤ := c.nTime.toInt - c.getTime.toInt

/-- A run of calls: the state, the calls whose samples were taken in, and those of them whose samples
the filter held when the offset was computed last. -/
structure TimeRun where
  state : TimeData := {}
  taken : List TimeSample := []
  computed : List TimeSample := []

/-- One more call. -/
def TimeRun.add (run : TimeRun) (c : TimeSample) : TimeRun :=
  let state := run.state.addTimeData c.ip c.nTime c.getTime
  if c.ip ∈ run.state.setKnown then { run with state }
  else
    let taken := run.taken ++ [c]
    { state, taken, computed := if state.recomputes then taken else run.computed }

/-- The run of some calls. -/
def timeRun (calls : List TimeSample) : TimeRun := calls.foldl TimeRun.add {}

/-- The differences in the filter when the offset was computed last, with the initial value. -/
def TimeRun.differences (run : TimeRun) : List ℤ := 0 :: run.computed.map TimeSample.difference

/-- The offset after a run, at a reading of the clock, is as it should be. -/
structure TimeOffsetRight (run : TimeRun) (getTime : Int64) : Prop where
  /-- The samples that the offset was computed from are the differences. -/
  exact : ∀ c ∈ run.computed, c.nOffsetSample.toInt = c.difference
  bounded : |run.state.nTimeOffset.toInt| < 70 * 60
  median : run.state.nTimeOffset = 0 ∨ IsMedian run.state.nTimeOffset.toInt run.differences
  adjusted : |(run.state.getAdjustedTime getTime).toInt - getTime.toInt| < 70 * 60

/-- The differences that the offset was computed from are numbers of an `int64`, no half of them is
the lowest one, and the clock is not so close to an end of the numbers that it cannot be moved by the
median. -/
structure TimeOffsetSafe (run : TimeRun) (getTime : Int64) : Prop where
  fits : ∀ c ∈ run.computed, Int64Sum.InRange c.difference
  not_lowest : 2 * run.computed.countP (fun c => decide (c.difference = -2 ^ 63))
    ≤ run.computed.length
  clock : ∀ v, IsMedian v run.differences → |v| < 70 * 60 → Int64Sum.InRange (getTime.toInt + v)

/-! ## The median of the samples -/

instance totalInt64 : Std.Total (α := Int64) (· ≤ ·) := ⟨Int64.le_total⟩

instance transInt64 : IsTrans Int64 (· ≤ ·) := ⟨fun _ _ _ => Int64.le_trans⟩

/-- The median of an odd number of values is their median as integers. -/
lemma CMedianFilter.isMedian_median (f : CMedianFilter Int64) (hodd : f.vValues.length % 2 = 1) :
    IsMedian f.median.toInt (f.vValues.map Int64.toInt) := by
  have hlen : f.vSorted.length = f.vValues.length := by
    rw [f.sorted, List.length_insertionSort]
  have hsorted : (f.vSorted.map Int64.toInt).Pairwise (· ≤ ·) := by
    rw [List.pairwise_map, f.sorted]
    exact (List.pairwise_insertionSort (· ≤ ·) f.vValues).imp Int64.le_iff_toInt_le.mp
  have hperm : (f.vSorted.map Int64.toInt).Perm (f.vValues.map Int64.toInt) := by
    rw [f.sorted]
    exact (List.perm_insertionSort (· ≤ ·) f.vValues).map _
  refine IsMedian.of_perm (IsMedian.of_sorted hsorted ?_ ?_) hperm
  · rw [List.length_map, hlen, hodd]
  · have hget : f.vSorted[f.vSorted.length / 2]? = some f.median := by
      rw [median, if_pos (by rw [hlen, hodd])]
      exact List.getElem?_eq_getElem _
    rw [List.length_map, List.getElem?_map, hget]
    rfl

/-- The absolute value passes as small if it is, and also for the lowest number. -/
lemma abs64_lt_iff (m : Int64) : abs64 m < 70 * 60 ↔ m.toInt = -2 ^ 63 ∨ |m.toInt| < 70 * 60 := by
  have hbound : (70 * 60 : Int64).toInt = 70 * 60 := by decide
  have hzero : (0 : Int64).toInt = 0 := by decide
  have hge := m.le_toInt
  have hlt := m.toInt_lt
  rw [Int64.lt_iff_toInt_lt, hbound, abs64]
  split_ifs with hsign <;> rw [ge_iff_le, Int64.le_iff_toInt_le, hzero] at hsign
  · rw [abs_of_nonneg hsign]
    omega
  · rw [abs_of_neg (by omega)]
    by_cases hlowest : m.toInt = -2 ^ 63
    · have hm : m = Int64.minValue := by
        rw [← Int64.toInt_inj, hlowest]
        rfl
      subst hm
      decide
    · have hneg : (-m).toInt = -m.toInt := by
        rw [Int64.toInt_neg, Int64Sum.bmod_eq_of_inRange]
        constructor <;> omega
      rw [hneg]
      omega

/-! ## What holds along a run -/

lemma TimeData.vTimeOffsets_warn (s : TimeData) : s.warn.vTimeOffsets = s.vTimeOffsets := by
  unfold warn
  split_ifs
  · rfl
  · dsimp only
    split_ifs <;> rfl

/-- The offset that a median gives. -/
def offsetOf (nMedian : Int64) : Int64 := if abs64 nMedian < 70 * 60 then nMedian else 0

/-- The filter has the samples that were taken in, as long as they are not too many, and the offset is
that of the samples it was computed from. -/
structure TimeRun.Inv (run : TimeRun) : Prop where
  nSize : run.state.vTimeOffsets.nSize = 200
  values : run.taken.length < 200 →
    run.state.vTimeOffsets.vValues = 0 :: run.taken.map TimeSample.nOffsetSample
  full : 200 ≤ run.taken.length → run.state.vTimeOffsets.vValues.length = 200
  offset : ∃ f : CMedianFilter Int64,
    f.vValues = 0 :: run.computed.map TimeSample.nOffsetSample ∧ f.vValues.length % 2 = 1 ∧
      run.state.nTimeOffset = offsetOf f.median

lemma inv_start : ({} : TimeRun).Inv where
  nSize := rfl
  values _ := rfl
  full h := absurd h (by decide)
  offset := ⟨.make 200 0, rfl, by decide, by decide⟩

/-- A new peer's difference is taken in. -/
lemma TimeData.vTimeOffsets_addTimeData {s : TimeData} {ip : CNetAddr} (nTime getTime : Int64)
    (hnew : ip ∉ s.setKnown) :
    (s.addTimeData ip nTime getTime).vTimeOffsets = s.vTimeOffsets.input (nTime - getTime) := by
  unfold addTimeData
  rw [if_neg hnew]
  dsimp only
  split_ifs
  · rfl
  · exact vTimeOffsets_warn _
  · rfl

/-- The offset is that of the median if it is computed again. -/
lemma TimeData.nTimeOffset_addTimeData {s : TimeData} {ip : CNetAddr} (nTime getTime : Int64)
    (hnew : ip ∉ s.setKnown) :
    (s.addTimeData ip nTime getTime).nTimeOffset =
      if (s.addTimeData ip nTime getTime).recomputes then
        offsetOf (s.addTimeData ip nTime getTime).vTimeOffsets.median
      else s.nTimeOffset := by
  have hrec : (s.addTimeData ip nTime getTime).recomputes =
      TimeData.recomputes
        { s with
          setKnown := insert ip s.setKnown
          vTimeOffsets := s.vTimeOffsets.input (nTime - getTime) } := by
    rw [recomputes, recomputes, vTimeOffsets_addTimeData nTime getTime hnew]
  rw [hrec, vTimeOffsets_addTimeData nTime getTime hnew, addTimeData, if_neg hnew, offsetOf]
  dsimp only
  split_ifs <;> rfl

variable {run : TimeRun}

/-- The filter with one more sample. -/
lemma TimeRun.Inv.values_input (h : run.Inv) (c : TimeSample) (hfew : run.taken.length < 199) :
    (run.state.vTimeOffsets.input c.nOffsetSample).vValues =
      0 :: (run.taken ++ [c]).map TimeSample.nOffsetSample := by
  have hvalues := h.values (by omega)
  have hroom : run.state.vTimeOffsets.vValues.length ≠ run.state.vTimeOffsets.nSize := by
    rw [hvalues, h.nSize, List.length_cons, List.length_map]
    omega
  rw [CMedianFilter.input]
  dsimp only
  rw [if_neg hroom, hvalues, List.map_append, List.map_singleton, List.cons_append]

/-- From then on the filter is full. -/
lemma TimeRun.Inv.length_input (h : run.Inv) (c : TimeSample) (hmany : 199 ≤ run.taken.length) :
    (run.state.vTimeOffsets.input c.nOffsetSample).vValues.length = 200 := by
  have hfull : run.state.vTimeOffsets.vValues.length = 200 := by
    rcases Nat.lt_or_ge run.taken.length 200 with hlt | hge
    · rw [h.values hlt, List.length_cons, List.length_map]
      omega
    · exact h.full hge
  rw [CMedianFilter.input]
  dsimp only
  rw [if_pos (hfull.trans h.nSize.symm), List.length_append, List.length_tail, hfull,
    List.length_singleton]

/-- A call keeps what holds. -/
lemma TimeRun.Inv.add (h : run.Inv) (c : TimeSample) : (run.add c).Inv := by
  unfold TimeRun.add
  by_cases hknown : c.ip ∈ run.state.setKnown
  · have hstate : run.state.addTimeData c.ip c.nTime c.getTime = run.state := by
      rw [TimeData.addTimeData, if_pos hknown]
    dsimp only
    rw [if_pos hknown, hstate]
    exact h
  · dsimp only
    rw [if_neg hknown]
    have hfilter := TimeData.vTimeOffsets_addTimeData c.nTime c.getTime hknown
    have hoffset := TimeData.nTimeOffset_addTimeData c.nTime c.getTime hknown
    have hlen : (run.taken ++ [c]).length = run.taken.length + 1 := List.length_append
    refine ⟨?_, fun hfew => ?_, fun hmany => ?_, ?_⟩
    · rw [hfilter]
      exact h.nSize
    · dsimp only at hfew
      rw [hfilter]
      exact h.values_input c (by omega)
    · dsimp only at hmany
      rw [hfilter]
      exact h.length_input c (by omega)
    · dsimp only
      by_cases hrec : (run.state.addTimeData c.ip c.nTime c.getTime).recomputes = true
      · rw [if_pos hrec] at hoffset ⊢
        have hodd : (run.state.addTimeData c.ip c.nTime c.getTime).vTimeOffsets.vValues.length % 2
            = 1 := beq_iff_eq.mp (Bool.and_eq_true_iff.mp hrec).2
        -- a full filter has an even number of samples
        have hfew : run.taken.length < 199 := by
          by_contra hmany
          have hfull := h.length_input c (by omega)
          rw [hfilter] at hodd
          change (run.state.vTimeOffsets.input c.nOffsetSample).vValues.length % 2 = 1 at hodd
          omega
        refine ⟨_, ?_, hodd, hoffset⟩
        rw [hfilter]
        exact h.values_input c hfew
      · rw [if_neg hrec] at hoffset ⊢
        rw [hoffset]
        exact h.offset

/-- It holds after every run. -/
lemma inv_timeRun (calls : List TimeSample) : (timeRun calls).Inv := by
  have hrun : ∀ run : TimeRun, run.Inv → (calls.foldl TimeRun.add run).Inv := by
    induction calls with
    | nil => exact fun _ h => h
    | cons c calls ih => exact fun run h => ih _ (h.add c)
  exact hrun _ inv_start

/-- If the samples are the differences, then the offset is that of their median, which is the lowest
number if more than half of the calls had it. -/
lemma TimeRun.Inv.exists_median (h : run.Inv)
    (hexact : ∀ c ∈ run.computed, c.nOffsetSample.toInt = c.difference) :
    ∃ nMedian : Int64, run.state.nTimeOffset = offsetOf nMedian ∧
      IsMedian nMedian.toInt run.differences ∧
      (nMedian.toInt = -2 ^ 63 ↔ run.computed.length <
        2 * run.computed.countP (fun c => decide (c.difference = -2 ^ 63))) := by
  obtain ⟨f, hvalues, hodd, hoffset⟩ := h.offset
  have hmap : f.vValues.map Int64.toInt = run.differences := by
    rw [hvalues, List.map_cons, List.map_map, TimeRun.differences]
    congr 1
    exact List.map_congr_left hexact
  have hmedian : IsMedian f.median.toInt run.differences := hmap ▸ f.isMedian_median hodd
  have hleast : ∀ x ∈ run.differences, -2 ^ 63 ≤ x := by
    intro x hx
    obtain ⟨a, -, rfl⟩ := List.mem_map.mp (hmap ▸ hx)
    exact a.le_toInt
  have hlen : f.vValues.length = run.computed.length + 1 := by
    rw [hvalues, List.length_cons, List.length_map]
  have hlength : run.differences.length = run.computed.length + 1 := by
    rw [← hmap, List.length_map, hlen]
  have hcount : run.differences.count (-2 ^ 63) =
      run.computed.countP (fun c => decide (c.difference = -2 ^ 63)) := by
    rw [TimeRun.differences, List.count_cons_of_ne (by decide), List.count, List.countP_map]
    exact List.countP_congr fun c _ => by simp
  refine ⟨f.median, hoffset, hmedian, (hmedian.eq_least_iff hleast).trans ?_⟩
  rw [hlength, hcount]
  omega

/-- A small offset moves the clock by less than 70 minutes exactly if the sum is in range. -/
lemma adjusted_iff {a b : Int64} (hsmall : |b.toInt| < 70 * 60) :
    |(a + b).toInt - a.toInt| < 70 * 60 ↔ Int64Sum.InRange (a.toInt + b.toInt) := by
  constructor
  · intro hclose
    have hge := (a + b).le_toInt
    have hlt := (a + b).toInt_lt
    -- the sum wraps around to the other end of the numbers
    have hmod : (2 ^ 64 : ℤ) ∣ (a.toInt + b.toInt) - (a + b).toInt := by
      rw [Int64.toInt_add]
      exact Int.dvd_self_sub_bmod
    obtain ⟨k, hk⟩ := hmod
    rw [abs_lt] at hsmall hclose
    have hkzero : k = 0 := by omega
    rw [hkzero, mul_zero, sub_eq_zero] at hk
    rw [hk]
    exact Int64Sum.inRange_toInt _
  · intro hin
    rw [Int64Sum.toInt_add hin, add_sub_cancel_left]
    exact hsmall

/-- After every run, the offset is the median of the differences or zero, its bound holds, and the
adjusted time keeps to the clock, exactly if the differences are safe. -/
theorem timeOffset_iff (calls : List TimeSample) (getTime : Int64) :
    TimeOffsetRight (timeRun calls) getTime ↔ TimeOffsetSafe (timeRun calls) getTime := by
  have hinv := inv_timeRun calls
  generalize timeRun calls = run at hinv ⊢
  have hzero : (0 : Int64).toInt = 0 := by decide
  constructor
  · intro hright
    obtain ⟨nMedian, hoffset, hmedian, hlowest⟩ := hinv.exists_median hright.exact
    refine ⟨fun c hc => ?_, ?_, fun v hv hsmall => ?_⟩
    · rw [← hright.exact c hc]
      exact Int64Sum.inRange_toInt _
    · by_contra hmany
      have hm := hlowest.mpr (by omega)
      have hbounded := hright.bounded
      rw [hoffset, offsetOf, if_pos ((abs64_lt_iff _).mpr (Or.inl hm)), hm] at hbounded
      exact absurd hbounded (by decide)
    · obtain rfl : v = nMedian.toInt := hv.eq hmedian
      have hadjusted := hright.adjusted
      rw [TimeData.getAdjustedTime, hoffset, offsetOf,
        if_pos ((abs64_lt_iff _).mpr (Or.inr hsmall)), adjusted_iff hsmall] at hadjusted
      exact hadjusted
  · intro hsafe
    have hexact : ∀ c ∈ run.computed, c.nOffsetSample.toInt = c.difference :=
      fun c hc => Int64Sum.toInt_sub (hsafe.fits c hc)
    obtain ⟨nMedian, hoffset, hmedian, hlowest⟩ := hinv.exists_median hexact
    have hne : nMedian.toInt ≠ -2 ^ 63 := fun hm =>
      absurd hsafe.not_lowest (by have := hlowest.mp hm; omega)
    have hiff := (abs64_lt_iff nMedian).trans (or_iff_right hne)
    by_cases hsmall : |nMedian.toInt| < 70 * 60
    · rw [offsetOf, if_pos (hiff.mpr hsmall)] at hoffset
      refine ⟨hexact, hoffset ▸ hsmall, Or.inr (hoffset ▸ hmedian), ?_⟩
      rw [TimeData.getAdjustedTime, hoffset, adjusted_iff hsmall]
      exact hsafe.clock _ hmedian hsmall
    · rw [offsetOf, if_neg (hsmall ∘ hiff.mp)] at hoffset
      refine ⟨hexact, ?_, Or.inl hoffset, ?_⟩
      · rw [hoffset, hzero]
        decide
      · rw [TimeData.getAdjustedTime, hoffset, adjusted_iff (by decide), hzero, add_zero]
        exact Int64Sum.inRange_toInt _

/-- Three of four peers whose differences are the lowest number move the clock by all of it. -/
theorem not_timeOffset : ¬ ∀ (calls : List TimeSample) (getTime : Int64),
    TimeOffsetRight (timeRun calls) getTime := by
  intro h
  have hbounded := (h
    [⟨1, -9223372035154775808, 1700000000⟩, ⟨2, -9223372035154775808, 1700000000⟩,
      ⟨3, -9223372035154775808, 1700000000⟩, ⟨4, 1700000000, 1700000000⟩] 1700000000).bounded
  have hoffset : (timeRun
      [⟨1, -9223372035154775808, 1700000000⟩, ⟨2, -9223372035154775808, 1700000000⟩,
        ⟨3, -9223372035154775808, 1700000000⟩,
        ⟨4, 1700000000, 1700000000⟩]).state.nTimeOffset.toInt = -2 ^ 63 := by
    decide
  rw [hoffset] at hbounded
  exact absurd hbounded (by decide)

end HyperStake.Net
