import HyperStake.Chain.CheckBlock

/-!
# The values of a checked transaction

`CheckTransaction` refuses outputs that are too small or too large, and adds up the others.  Every
addition that it makes is of two numbers in the money range, so that no sum overflows before it is
checked (`inRange_outputSums`), and what it accepts are the transactions without empty or small
outputs whose sum is in the money range (`checkOutputs_iff`).  All later arithmetic relies on that:
`GetValueOut` of an accepted transaction is the sum of its outputs (`checkTransaction_values`).
-/

namespace HyperStake

open Int64Sum

namespace CTransaction

/-! ## The rules for outputs -/

/-- An output that is not too small. -/
def OutputFits (txout : CTxOut) : Prop :=
  txout.isEmpty = true ∨ MIN_TXOUT_AMOUNT.toInt ≤ txout.nValue.toInt

/-- An output that is not empty in an ordinary transaction, and not too small in any. -/
def OutputAllowed (fOrdinary : Bool) (txout : CTxOut) : Prop :=
  (txout.isEmpty && fOrdinary) = false ∧ OutputFits txout

variable {txout : CTxOut} {nValueOut : Int64} {fOrdinary : Bool} {vout : List CTxOut}

lemma OutputFits.nonneg (h : OutputFits txout) : 0 ≤ txout.nValue.toInt := by
  have hamount : MIN_TXOUT_AMOUNT.toInt = 10 := by decide
  obtain hempty | hle := h
  · rw [CTxOut.isEmpty, Bool.and_eq_true, beq_iff_eq] at hempty
    rw [hempty.1]
    decide
  · omega

lemma outputFits_iff_not : OutputFits txout ↔
    ¬ (!txout.isEmpty && decide (txout.nValue < MIN_TXOUT_AMOUNT)) = true := by
  rw [OutputFits, Bool.and_eq_true, Bool.not_eq_true', decide_eq_true_eq, Int64.lt_iff_toInt_lt,
    not_and, not_lt]
  cases txout.isEmpty <;> simp

lemma outputAllowed_false : OutputAllowed false txout ↔ OutputFits txout := by
  rw [OutputAllowed, Bool.and_false]
  exact and_iff_right rfl

/-- An amount below the highest one and an amount in the money range are added without overflow. -/
lemma toInt_add_output (hstart : moneyRange nValueOut = true) (hfits : OutputFits txout)
    (hhigh : txout.nValue.toInt ≤ MAX_MONEY.toInt) :
    InRange (nValueOut.toInt + txout.nValue.toInt) := by
  have hmax : MAX_MONEY.toInt = 60000000000000 := by decide
  obtain ⟨hge, hle⟩ := moneyRange_iff.mp hstart
  have hnonneg := hfits.nonneg
  exact ⟨by omega, by omega⟩

/-- One turn of the loop over the outputs. -/
lemma checkOutputs_cons :
    checkOutputs fOrdinary nValueOut (txout :: vout) = true ↔ OutputAllowed fOrdinary txout ∧
      txout.nValue.toInt ≤ MAX_MONEY.toInt ∧ moneyRange (nValueOut + txout.nValue) = true ∧
      checkOutputs fOrdinary (nValueOut + txout.nValue) vout = true := by
  rw [checkOutputs, OutputAllowed]
  have hhigh : txout.nValue.toInt ≤ MAX_MONEY.toInt ↔ ¬ txout.nValue > MAX_MONEY := by
    rw [gt_iff_lt, Int64.lt_iff_toInt_lt, not_lt]
  rw [outputFits_iff_not, hhigh]
  split_ifs with hempty hsmall hmax hrange
  · rw [hempty]
    exact iff_of_false not_false fun h => by cases h.1.1
  · exact iff_of_false not_false fun h => h.1.2 hsmall
  · exact iff_of_false not_false fun h => h.2.1 hmax
  · rw [Bool.not_eq_true'] at hrange
    rw [hrange]
    exact iff_of_false not_false fun h => Bool.false_ne_true h.2.2.1
  · rw [Bool.not_eq_true', Bool.not_eq_false] at hrange
    exact ⟨fun h => ⟨⟨Bool.eq_false_iff.mpr hempty, hsmall⟩, hmax, hrange, h⟩, fun h => h.2.2.2⟩

lemma total_nonneg_of_fits (h : ∀ txout ∈ vout, OutputFits txout) :
    0 ≤ total (vout.map CTxOut.nValue) := by
  refine total_nonneg fun v hv => ?_
  obtain ⟨txout, hmem, rfl⟩ := List.mem_map.mp hv
  exact (h txout hmem).nonneg

/-- The outputs satisfy the rules if each of them is allowed and they add up to an amount in the
money range. -/
lemma checkOutputs_iff (hstart : moneyRange nValueOut = true) (vout : List CTxOut) :
    checkOutputs fOrdinary nValueOut vout = true ↔
      (∀ txout ∈ vout, OutputAllowed fOrdinary txout) ∧
      nValueOut.toInt + total (vout.map CTxOut.nValue) ≤ MAX_MONEY.toInt := by
  induction vout generalizing nValueOut with
  | nil => simpa [checkOutputs] using (moneyRange_iff.mp hstart).2
  | cons txout vout ih =>
    obtain ⟨hge, hle⟩ := moneyRange_iff.mp hstart
    rw [checkOutputs_cons, List.forall_mem_cons, List.map_cons, total_cons]
    constructor
    · rintro ⟨hallowed, hhigh, hrange, hrest⟩
      obtain ⟨hall, hsum⟩ := (ih hrange).mp hrest
      rw [toInt_add (toInt_add_output hstart hallowed.2 hhigh)] at hsum
      exact ⟨⟨hallowed, hall⟩, by omega⟩
    · rintro ⟨⟨hallowed, hall⟩, hsum⟩
      have hnonneg := hallowed.2.nonneg
      have hrest := total_nonneg_of_fits fun txout hmem => (hall txout hmem).2
      have hhigh : txout.nValue.toInt ≤ MAX_MONEY.toInt := by omega
      have hadd := toInt_add (toInt_add_output hstart hallowed.2 hhigh)
      have hrange : moneyRange (nValueOut + txout.nValue) = true := by
        rw [moneyRange_iff, hadd]
        omega
      refine ⟨hallowed, hhigh, hrange, (ih hrange).mpr ⟨hall, ?_⟩⟩
      rw [hadd]
      omega

/-- Outputs that satisfy the rules have a sum. -/
lemma exists_getValueOutLoop_eq (h : checkOutputs fOrdinary nValueOut vout = true) :
    ∃ n, getValueOutLoop nValueOut vout = .ok n := by
  induction vout generalizing nValueOut with
  | nil => exact ⟨nValueOut, rfl⟩
  | cons txout vout ih =>
    obtain ⟨hallowed, hhigh, hrange, hrest⟩ := checkOutputs_cons.mp h
    have hvalue : moneyRange txout.nValue = true :=
      moneyRange_iff.mpr ⟨hallowed.2.nonneg, hhigh⟩
    rw [getValueOutLoop, hvalue, hrange]
    exact ih hrest

/-! ## The additions -/

/-- The additions that the loop of `CheckTransaction` makes: the running total, and the value that is
added to it. -/
def outputSums (fOrdinary : Bool) : Int64 → List CTxOut → List (Int64 × Int64)
  | _, [] => []
  | nValueOut, txout :: vout =>
    if txout.isEmpty && fOrdinary then []
    else if !txout.isEmpty && decide (txout.nValue < MIN_TXOUT_AMOUNT) then []
    else if txout.nValue > MAX_MONEY then []
    else (nValueOut, txout.nValue) ::
      if !moneyRange (nValueOut + txout.nValue) then []
      else outputSums fOrdinary (nValueOut + txout.nValue) vout

/-- No addition overflows, also of a transaction that is refused in the end. -/
lemma inRange_outputSums (hstart : moneyRange nValueOut = true) (vout : List CTxOut) :
    ∀ add ∈ outputSums fOrdinary nValueOut vout, InRange (add.1.toInt + add.2.toInt) := by
  induction vout generalizing nValueOut with
  | nil =>
    intro add hadd
    cases hadd
  | cons txout vout ih =>
    intro add hadd
    rw [outputSums] at hadd
    split_ifs at hadd with hempty hsmall hmax hrange
    · cases hadd
    · cases hadd
    · cases hadd
    all_goals
      have hhigh : txout.nValue.toInt ≤ MAX_MONEY.toInt := by
        rwa [gt_iff_lt, Int64.lt_iff_toInt_lt, not_lt] at hmax
      have hfirst := toInt_add_output hstart (outputFits_iff_not.mpr hsmall) hhigh
      rcases List.mem_cons.mp hadd with rfl | hadd
      · exact hfirst
    · cases hadd
    · rw [Bool.not_eq_true', Bool.not_eq_false] at hrange
      exact ih hrange add hadd

/-! ## Checked transactions -/

/-- What later arithmetic relies on: each output is in the money range and not too small, or it is
empty and the transaction is a coinbase or a coin stake; no outpoint is claimed twice; and
`GetValueOut` is the sum of the outputs. -/
structure ValuesChecked (tx : CTransaction) : Prop where
  outputs : ∀ txout ∈ tx.vout,
    MIN_TXOUT_AMOUNT.toInt ≤ txout.nValue.toInt ∧ txout.nValue.toInt ≤ MAX_MONEY.toInt ∨
      (txout.nValue = 0 ∧ txout.scriptPubKey = []) ∧
        (tx.isCoinBase = true ∨ tx.isCoinStake = true)
  inputs : (tx.vin.map CTxIn.prevout).Nodup
  sum : ∃ nValueOut, tx.getValueOut = .ok nValueOut ∧ nValueOut.toInt = tx.valueOut

/-- The running total of `CheckTransaction` never overflows before it is checked, and the values of
a transaction that it accepts are in order. -/
theorem checkTransaction_values (tx : CTransaction) :
    (∀ add ∈ outputSums (!tx.isCoinBase && !tx.isCoinStake) 0 tx.vout,
      InRange (add.1.toInt + add.2.toInt)) ∧
    (tx.checkTransaction = true → tx.ValuesChecked) := by
  have hzero : moneyRange 0 = true := by decide
  refine ⟨inRange_outputSums hzero tx.vout, fun h => ?_⟩
  unfold checkTransaction at h
  have houtputs : checkOutputs (!tx.isCoinBase && !tx.isCoinStake) 0 tx.vout = true ∧
      (tx.vin.map CTxIn.prevout).Nodup := by
    split_ifs at h with h₁ h₂ h₃ hsums hnodup
    all_goals
      rw [Bool.not_eq_true', Bool.not_eq_false] at hsums
      rw [Bool.not_eq_true', Bool.not_eq_false, decide_eq_true_eq] at hnodup
      exact ⟨hsums, hnodup⟩
  obtain ⟨hsums, hnodup⟩ := houtputs
  obtain ⟨hall, hle⟩ := (checkOutputs_iff hzero tx.vout).mp hsums
  obtain ⟨nValueOut, hout⟩ := exists_getValueOutLoop_eq hsums
  refine ⟨fun txout hmem => ?_, hnodup, nValueOut, hout, (getValueOut_eq_ok hout).2.2⟩
  obtain ⟨hordinary, hempty | hlow⟩ := hall txout hmem
  · refine Or.inr ⟨?_, ?_⟩
    · rwa [CTxOut.isEmpty, Bool.and_eq_true, beq_iff_eq, List.isEmpty_iff] at hempty
    · rw [hempty, Bool.true_and, Bool.and_eq_false_iff, Bool.not_eq_false', Bool.not_eq_false']
        at hordinary
      exact hordinary
  · exact Or.inl ⟨hlow, (moneyRange_iff.mp ((getValueOut_eq_ok hout).1 txout hmem)).2⟩

/-- A coinbase with an empty output. -/
theorem valuesChecked_emptyCoinBase :
    ({ vin := [{ scriptSig := [0x51, 0x00] }], vout := [{ nValue := 0 }] } :
      CTransaction).ValuesChecked :=
  (checkTransaction_values _).2 (by decide)

end CTransaction

end HyperStake
