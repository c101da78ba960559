import HyperStake.Wallet.WalletTx

/-!
# Merging the outputs that are spent

`vfSpent` can be shorter than the outputs: a transaction is made and read without it, and
`MarkSpent` and `MarkUnspent` resize it.  To `IsSpent` an entry that is missing is an output that is
not spent, but `UpdateSpent` stops at the end of the vector and does not mark the outputs behind it
(`updateSpent_iff`).  It does what it should once an output has been marked
(`updatesSpent_of_marked`).
-/

namespace HyperStake.WalletTx

namespace CWalletTx

/-- What is asked of `UpdateSpent`: an output is spent if it was or is to be, and it is returned
whether that has changed an output. -/
def UpdatesSpent (wtx : CWalletTx) (vfNewSpent : List Bool) : Prop :=
  (∀ i < wtx.vout.length, (wtx.updateSpent vfNewSpent).2.isSpent i =
    (wtx.isSpent i).map fun fSpent => fSpent || vfNewSpent.getD i false) ∧
  ((wtx.updateSpent vfNewSpent).1 = true ↔
    ∃ i < wtx.vout.length, (wtx.updateSpent vfNewSpent).2.isSpent i ≠ wtx.isSpent i)

/-- No output behind the end of `vfSpent` is to be marked; and what is marked behind the outputs, in
a vector that is longer, is not all. -/
def Covers (wtx : CWalletTx) (vfNewSpent : List Bool) : Prop :=
  (∀ i < wtx.vout.length, wtx.vfSpent.length ≤ i → vfNewSpent.getD i false = false) ∧
  ∀ i, wtx.vout.length ≤ i → wtx.vfSpent[i]? = some false → vfNewSpent.getD i false = true →
    ∃ j < wtx.vout.length, wtx.vfSpent[j]? = some false ∧ vfNewSpent.getD j false = true

variable {wtx wtx' : CWalletTx} {vfNewSpent vfSpent : List Bool}

/-! ## The loop -/

/-- The entries of the vector that there are get the marks. -/
lemma getD_updateSpentLoop (vfNewSpent vfSpent : List Bool) (i : ℕ) :
    (updateSpentLoop vfNewSpent vfSpent).2.getD i false =
      (vfSpent.getD i false || decide (i < vfSpent.length) && vfNewSpent.getD i false) := by
  induction vfNewSpent generalizing vfSpent i with
  | nil => simp [updateSpentLoop]
  | cons vfNew vfNewSpent ih =>
    cases vfSpent with
    | nil => simp [updateSpentLoop]
    | cons vf vfSpent =>
      cases i with
      | zero => simp [updateSpentLoop]
      | succ i =>
        simp only [updateSpentLoop, List.getD_cons_succ, ih, List.length_cons,
          Nat.add_lt_add_iff_right]

/-- An update takes place if an entry is marked that was not. -/
lemma updateSpentLoop_fst (vfNewSpent vfSpent : List Bool) :
    (updateSpentLoop vfNewSpent vfSpent).1 = true ↔
      ∃ i, vfSpent[i]? = some false ∧ vfNewSpent.getD i false = true := by
  induction vfNewSpent generalizing vfSpent with
  | nil => simp [updateSpentLoop]
  | cons vfNew vfNewSpent ih =>
    cases vfSpent with
    | nil => simp [updateSpentLoop]
    | cons vf vfSpent =>
      rw [updateSpentLoop, Bool.or_eq_true, ih, Bool.and_eq_true, Bool.not_eq_true']
      constructor
      · rintro (⟨hnew, hold⟩ | ⟨i, hold, hnew⟩)
        · exact ⟨0, congrArg some hold, hnew⟩
        · exact ⟨i + 1, hold, hnew⟩
      · rintro ⟨i, hold, hnew⟩
        cases i with
        | zero => exact Or.inl ⟨hnew, Option.some.inj hold⟩
        | succ i => exact Or.inr ⟨i, hold, hnew⟩

/-! ## `UpdateSpent` -/

lemma isSpent_of_lt {i : ℕ} (hlt : i < wtx.vout.length) :
    wtx.isSpent i = .ok (wtx.vfSpent.getD i false) := if_neg (not_le.mpr hlt)

lemma isSpent_updateSpent {i : ℕ} (hlt : i < wtx.vout.length) :
    (wtx.updateSpent vfNewSpent).2.isSpent i = .ok (wtx.vfSpent.getD i false ||
      decide (i < wtx.vfSpent.length) && vfNewSpent.getD i false) := by
  rw [← getD_updateSpentLoop]
  exact if_neg (not_le.mpr hlt)

/-- An output is marked that was not. -/
lemma isSpent_updateSpent_ne_iff {i : ℕ} (hlt : i < wtx.vout.length) :
    (wtx.updateSpent vfNewSpent).2.isSpent i ≠ wtx.isSpent i ↔
      wtx.vfSpent[i]? = some false ∧ vfNewSpent.getD i false = true := by
  rw [isSpent_updateSpent hlt, isSpent_of_lt hlt, ne_eq, Except.ok.injEq,
    List.getD_eq_getElem?_getD]
  cases hget : wtx.vfSpent[i]? with
  | none =>
    have hrange : ¬ i < wtx.vfSpent.length := not_lt.mpr (List.getElem?_eq_none_iff.mp hget)
    simp [hrange]
  | some vf =>
    have hrange : i < wtx.vfSpent.length := (List.getElem?_eq_some_iff.mp hget).1
    cases vf <;> simp [hrange]

/-- Every output gets its mark if there is none behind the end of the vector. -/
lemma isSpent_updateSpent_iff (wtx : CWalletTx) (vfNewSpent : List Bool) :
    (∀ i < wtx.vout.length, (wtx.updateSpent vfNewSpent).2.isSpent i =
      (wtx.isSpent i).map fun fSpent => fSpent || vfNewSpent.getD i false) ↔
    ∀ i < wtx.vout.length, wtx.vfSpent.length ≤ i → vfNewSpent.getD i false = false := by
  refine forall_congr' fun i => forall_congr' fun hlt => ?_
  rw [isSpent_updateSpent hlt, isSpent_of_lt hlt, Except.map, Except.ok.injEq]
  by_cases hrange : i < wtx.vfSpent.length
  · simp [hrange]
  · have hmissing : wtx.vfSpent.getD i false = false := by
      rw [List.getD_eq_getElem?_getD, List.getElem?_eq_none_iff.mpr (not_lt.mp hrange)]
      rfl
    rw [hmissing, decide_eq_false hrange, Bool.false_and, Bool.false_or, Bool.false_or]
    exact ⟨fun h _ => h.symm, fun h => (h (not_lt.mp hrange)).symm⟩

/-- What is returned is whether an output is changed, if what is marked behind the outputs is not
all. -/
lemma updateSpent_fst_iff (wtx : CWalletTx) (vfNewSpent : List Bool) :
    ((wtx.updateSpent vfNewSpent).1 = true ↔
      ∃ i < wtx.vout.length, (wtx.updateSpent vfNewSpent).2.isSpent i ≠ wtx.isSpent i) ↔
    ∀ i, wtx.vout.length ≤ i → wtx.vfSpent[i]? = some false → vfNewSpent.getD i false = true →
      ∃ j < wtx.vout.length, wtx.vfSpent[j]? = some false ∧ vfNewSpent.getD j false = true := by
  have hchanged : (∃ i < wtx.vout.length,
      (wtx.updateSpent vfNewSpent).2.isSpent i ≠ wtx.isSpent i) ↔
      ∃ i < wtx.vout.length, wtx.vfSpent[i]? = some false ∧ vfNewSpent.getD i false = true :=
    exists_congr fun i => and_congr_right fun hlt => isSpent_updateSpent_ne_iff hlt
  have hreturn : (wtx.updateSpent vfNewSpent).1 = true ↔
      ∃ i, wtx.vfSpent[i]? = some false ∧ vfNewSpent.getD i false = true :=
    updateSpentLoop_fst vfNewSpent wtx.vfSpent
  rw [hchanged, hreturn]
  constructor
  · intro h i _ hold hnew
    exact h.mp ⟨i, hold, hnew⟩
  · intro h
    constructor
    · rintro ⟨i, hold, hnew⟩
      rcases Nat.lt_or_ge i wtx.vout.length with hlt | hge
      · exact ⟨i, hlt, hold, hnew⟩
      · exact h i hge hold hnew
    · rintro ⟨i, -, hold, hnew⟩
      exact ⟨i, hold, hnew⟩

/-- `UpdateSpent` does what is asked of it if and only if the vector covers what is to be marked. -/
theorem updateSpent_iff (wtx : CWalletTx) (vfNewSpent : List Bool) :
    wtx.UpdatesSpent vfNewSpent ↔ wtx.Covers vfNewSpent :=
  and_congr (isSpent_updateSpent_iff wtx vfNewSpent) (updateSpent_fst_iff wtx vfNewSpent)

/-- A transaction that has been made does not get the mark of its output. -/
theorem not_updatesSpent :
    ¬ ∀ (wtx : CWalletTx) (vfNewSpent : List Bool), wtx.vfSpent.length ≤ wtx.vout.length →
      wtx.UpdatesSpent vfNewSpent := by
  intro hall
  let tx : CTransaction := { vin := [{}], vout := [{ nValue := 5 }] }
  let wtx : CWalletTx := { toCMerkleTx := { toCTransaction := tx } }
  have hfirst := (hall wtx [true] (Nat.zero_le _)).1 0 Nat.one_pos
  exact absurd (Except.ok.inj hfirst) (by decide)

/-! ## The length of the vector -/

lemma length_updateSpentLoop (vfNewSpent vfSpent : List Bool) :
    (updateSpentLoop vfNewSpent vfSpent).2.length = vfSpent.length := by
  induction vfNewSpent generalizing vfSpent with
  | nil => rfl
  | cons vfNew vfNewSpent ih =>
    cases vfSpent with
    | nil => rfl
    | cons vf vfSpent => rw [updateSpentLoop, List.length_cons, ih, List.length_cons]

/-- The vector has an entry for every output. -/
def Full (wtx : CWalletTx) : Prop := wtx.vfSpent.length = wtx.vout.length

lemma full_of_mark {fSpent : Bool} {nOut : ℕ} (hmark : wtx.mark fSpent nOut = .ok wtx') :
    Full wtx' := by
  unfold mark at hmark
  split_ifs at hmark
  · cases hmark
    exact List.length_set.trans (List.takeD_length _ _ _)
  · cases hmark
    exact List.takeD_length _ _ _

/-- No call makes the vector shorter than the outputs. -/
lemma full_step {env : Surroundings} (h : Full wtx) (op : SpentOp) : Full (op.step env wtx) := by
  have hmark : ∀ fSpent nOut, Full ((wtx.mark fSpent nOut).toOption.getD wtx) := by
    intro fSpent nOut
    cases hmark : wtx.mark fSpent nOut with
    | error e => exact h
    | ok wtx' => exact full_of_mark hmark
  cases op with
  | markSpent nOut => exact hmark true nOut
  | markUnspent nOut => exact hmark false nOut
  | updateSpent vfNewSpent => exact (length_updateSpentLoop vfNewSpent wtx.vfSpent).trans h
  | markDirty => exact h
  | getAvailableCredit fUseCache =>
    change Full (wtx.getAvailableCredit env fUseCache).2
    unfold getAvailableCredit
    split_ifs
    · exact h
    · exact h
    · cases wtx.availableCredit env <;> exact h

lemma Full.updatesSpent (h : Full wtx) (vfNewSpent : List Bool) : wtx.UpdatesSpent vfNewSpent := by
  refine ⟨(isSpent_updateSpent_iff wtx vfNewSpent).mpr fun i hlt hge => ?_,
    (updateSpent_fst_iff wtx vfNewSpent).mpr fun i hge hold _ => ?_⟩
  · exact absurd hlt (not_lt.mpr (h ▸ hge))
  · rw [← h, ← List.getElem?_eq_none_iff] at hge
    rw [hge] at hold
    cases hold

/-- Once an output has been marked, `UpdateSpent` does what is asked of it after every sequence of
calls. -/
theorem updatesSpent_of_marked (env : Surroundings) {fSpent : Bool} {nOut : ℕ}
    (hmark : wtx.mark fSpent nOut = .ok wtx') (ops : List SpentOp) (vfNewSpent : List Bool) :
    (ops.foldl (SpentOp.step env) wtx').UpdatesSpent vfNewSpent := by
  apply Full.updatesSpent
  exact List.foldlRecOn ops _ (full_of_mark hmark) fun _ hfull op _ => full_step hfull op

/-- A transaction whose output has been marked, and unmarked behind an update. -/
theorem updatesSpent_markedOnce :
    let tx : CTransaction := { vin := [{}], vout := [{ nValue := 5 }] }
    let wtx : CWalletTx := { toCMerkleTx := { toCTransaction := tx }, vfSpent := [true] }
    ([.updateSpent [], .markUnspent 0].foldl
      (SpentOp.step { isMine := fun _ => true, blocksToMaturity := 0 }) wtx).UpdatesSpent [true] := by
  intro tx wtx
  have hmark : mark { toCMerkleTx := { toCTransaction := tx } } true 0 = .ok wtx := rfl
  exact updatesSpent_of_marked _ hmark _ _

end CWalletTx

end HyperStake.WalletTx
