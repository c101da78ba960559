import HyperStake.Transaction

/-!
# A transaction of the wallet

`CWalletTx` with the data that only the owner of the transaction cares about, the outputs that are
marked as spent, and the credit that is cached until they change.  The cached credit is the one that
is computed afresh (`getAvailableCredit_of_run`).
-/

namespace HyperStake.WalletTx

/-- A transaction with a branch linking it to the block chain. -/
structure CMerkleTx extends CTransaction where
  hashBlock : UInt256 := 0
  vMerkleBranch : List UInt256 := []
  nIndex : Int32 := -1
  deriving DecidableEq

/-- A transaction with additional info that only the owner cares about.  A character of `vfSpent` is
whether an output is spent. -/
structure CWalletTx extends CMerkleTx where
  vtxPrev : List CMerkleTx := []
  mapValue : Std.ExtTreeMap Bytes Bytes := ∅
  vOrderForm : List (Bytes × Bytes) := []
  fTimeReceivedIsTxTime : UInt32 := 0
  nTimeReceived : UInt32 := 0
  nTimeSmart : UInt32 := 0
  fFromMe : UInt8 := 0
  strFromAccount : Bytes := []
  vfSpent : List Bool := []
  nOrderPos : Int64 := -1
  fDebitCached : Bool := false
  fCreditCached : Bool := false
  fAvailableCreditCached : Bool := false
  fChangeCached : Bool := false
  nDebitCached : Int64 := 0
  nCreditCached : Int64 := 0
  nAvailableCreditCached : Int64 := 0
  nChangeCached : Int64 := 0

/-- What the credit depends on outside of the transaction: the outputs that are the wallet's, and the
number of blocks until the transaction is mature. -/
structure Surroundings where
  isMine : CTxOut → Bool
  blocksToMaturity : Int32

/-- `CWallet::GetCredit` of an output. -/
def Surroundings.getCredit (env : Surroundings) (txout : CTxOut) : Except Fault Int64 :=
  if !moneyRange txout.nValue then .error .runtimeError
  else .ok (if env.isMine txout then txout.nValue else 0)

namespace CWalletTx

variable (wtx : CWalletTx)

/-! ## Spent outputs -/

/-- The loop of `UpdateSpent`: whether an output is marked that was not, and the outputs that are
marked then. -/
def updateSpentLoop : List Bool → List Bool → Bool × List Bool
  | vfNew :: vfNewSpent, vf :: vfSpent =>
    let r := updateSpentLoop vfNewSpent vfSpent
    (vfNew && !vf || r.1, (vf || vfNew) :: r.2)
  | _, vfSpent => (false, vfSpent)

/-- `UpdateSpent`: mark certain outputs as spent. -/
def updateSpent (vfNewSpent : List Bool) : Bool × CWalletTx :=
  let (fReturn, vfSpent) := updateSpentLoop vfNewSpent wtx.vfSpent
  (fReturn, { wtx with
    vfSpent, fAvailableCreditCached := wtx.fAvailableCreditCached && !fReturn })

/-- `MarkDirty`: make sure balances are recalculated. -/
def markDirty : CWalletTx :=
  { wtx with
    fCreditCached := false, fAvailableCreditCached := false, fDebitCached := false
    fChangeCached := false }

/-- `vfSpent.resize(vout.size())`. -/
def resized : List Bool := wtx.vfSpent.takeD wtx.vout.length false

/-- What `MarkSpent` and `MarkUnspent` have in common: set whether an output is spent. -/
def mark (fSpent : Bool) (nOut : ℕ) : Except Fault CWalletTx :=
  if wtx.vout.length ≤ nOut then .error .runtimeError
  else if wtx.resized[nOut]? ≠ some fSpent then
    .ok { wtx with vfSpent := wtx.resized.set nOut fSpent, fAvailableCreditCached := false }
  else .ok { wtx with vfSpent := wtx.resized }

def markSpent (nOut : ℕ) : Except Fault CWalletTx := wtx.mark true nOut

def markUnspent (nOut : ℕ) : Except Fault CWalletTx := wtx.mark false nOut

def isSpent (nOut : ℕ) : Except Fault Bool :=
  if wtx.vout.length ≤ nOut then .error .runtimeError else .ok (wtx.vfSpent.getD nOut false)

/-! ## The available credit -/

/-- The loop of `GetAvailableCredit` over the outputs that are left. -/
def availableCreditLoop (env : Surroundings) (nCredit : Int64) :
    List (CTxOut × ℕ) → Except Fault Int64
  | [] => .ok nCredit
  | (txout, i) :: outs => do
    if ← wtx.isSpent i then availableCreditLoop env nCredit outs
    else
      let nCredit := nCredit + (← env.getCredit txout)
      if !moneyRange nCredit then .error .runtimeError
      else availableCreditLoop env nCredit outs

/-- The credit that `GetAvailableCredit` computes. -/
def availableCredit (env : Surroundings) : Except Fault Int64 :=
  wtx.availableCreditLoop env 0 wtx.vout.zipIdx

/-- `GetAvailableCredit`, and the transaction with what it caches. -/
def getAvailableCredit (env : Surroundings) (fUseCache : Bool) : Except Fault Int64 × CWalletTx :=
  if (wtx.isCoinBase || wtx.isCoinStake) && decide (0 < env.blocksToMaturity) then (.ok 0, wtx)
  else if fUseCache && wtx.fAvailableCreditCached then (.ok wtx.nAvailableCreditCached, wtx)
  else
    match wtx.availableCredit env with
    | .error e => (.error e, wtx)
    | .ok nCredit =>
      (.ok nCredit, { wtx with nAvailableCreditCached := nCredit, fAvailableCreditCached := true })

end CWalletTx

/-! ## Coherence -/

/-- The calls that a transaction of the wallet gets. -/
inductive SpentOp where
  | markSpent (nOut : ℕ)
  | markUnspent (nOut : ℕ)
  | updateSpent (vfNewSpent : List Bool)
  | markDirty
  | getAvailableCredit (fUseCache : Bool)

/-- The transaction after a call; a call that throws leaves it as it is. -/
def SpentOp.step (env : Surroundings) (wtx : CWalletTx) : SpentOp → CWalletTx
  | markSpent nOut => (wtx.markSpent nOut).toOption.getD wtx
  | markUnspent nOut => (wtx.markUnspent nOut).toOption.getD wtx
  | updateSpent vfNewSpent => (wtx.updateSpent vfNewSpent).2
  | markDirty => wtx.markDirty
  | getAvailableCredit fUseCache => (wtx.getAvailableCredit env fUseCache).2

namespace CWalletTx

variable {env : Surroundings} {wtx wtx' : CWalletTx} {nOut : ℕ}

/-- The credit that is cached is the one that is computed. -/
def Coherent (env : Surroundings) (wtx : CWalletTx) : Prop :=
  wtx.fAvailableCreditCached = true →
    wtx.availableCredit env = .ok wtx.nAvailableCreditCached

/-- The credit depends on the outputs and on those that are spent. -/
lemma availableCredit_congr (hvout : wtx'.vout = wtx.vout)
    (hspent : ∀ i < wtx.vout.length, wtx'.vfSpent.getD i false = wtx.vfSpent.getD i false) :
    wtx'.availableCredit env = wtx.availableCredit env := by
  have hisSpent : ∀ i, wtx'.isSpent i = wtx.isSpent i := by
    intro i
    unfold isSpent
    rw [hvout]
    split_ifs with hle
    · rfl
    · rw [hspent i (not_le.mp hle)]
  have hloop : ∀ (outs : List (CTxOut × ℕ)) (nCredit : Int64),
      wtx'.availableCreditLoop env nCredit outs = wtx.availableCreditLoop env nCredit outs := by
    intro outs
    induction outs with
    | nil => exact fun nCredit => rfl
    | cons out outs ih =>
      intro nCredit
      simp only [availableCreditLoop, hisSpent, ih]
  rw [availableCredit, availableCredit, hloop, hvout]

/-- A resized vector says the same of the outputs that there are. -/
lemma getD_takeD (l : List Bool) (n i : ℕ) (hi : i < n) :
    (l.takeD n false).getD i false = l.getD i false := by
  induction n generalizing l i with
  | zero => exact absurd hi (Nat.not_lt_zero i)
  | succ n ih =>
    cases i with
    | zero => cases l <;> simp
    | succ i =>
      have htail := ih l.tail i (Nat.lt_of_succ_lt_succ hi)
      cases l with
      | nil => simpa using htail
      | cons b l => simpa using htail

/-- An update that marks nothing new changes nothing. -/
lemma updateSpentLoop_of_false {vfNewSpent vfSpent : List Bool}
    (h : (updateSpentLoop vfNewSpent vfSpent).1 = false) :
    (updateSpentLoop vfNewSpent vfSpent).2 = vfSpent := by
  induction vfNewSpent generalizing vfSpent with
  | nil => rfl
  | cons vfNew vfNewSpent ih =>
    cases vfSpent with
    | nil => rfl
    | cons vf vfSpent =>
      simp only [updateSpentLoop, Bool.or_eq_false_iff, Bool.and_eq_false_iff] at h ⊢
      rw [ih h.2]
      cases vf <;> simp_all

section

variable (h : Coherent env wtx)

include h

lemma coherent_updateSpent (vfNewSpent : List Bool) :
    Coherent env (wtx.updateSpent vfNewSpent).2 := by
  intro hcached
  have hflags : wtx.fAvailableCreditCached = true ∧
      (updateSpentLoop vfNewSpent wtx.vfSpent).1 = false := by
    simpa [updateSpent] using hcached
  have hsame : (wtx.updateSpent vfNewSpent).2.vfSpent = wtx.vfSpent :=
    updateSpentLoop_of_false hflags.2
  have hcredit : (wtx.updateSpent vfNewSpent).2.availableCredit env = wtx.availableCredit env :=
    availableCredit_congr rfl fun i _ => by rw [hsame]
  rw [hcredit]
  exact h hflags.1

lemma coherent_mark {fSpent : Bool}
    (hmark : wtx.mark fSpent nOut = .ok wtx') : Coherent env wtx' := by
  unfold mark at hmark
  split_ifs at hmark with hrange hchange
  · cases hmark
    intro hcached
    cases hcached
  · cases hmark
    intro hcached
    have hcredit : ({ wtx with vfSpent := wtx.resized } : CWalletTx).availableCredit env
        = wtx.availableCredit env :=
      availableCredit_congr rfl fun i hi => getD_takeD wtx.vfSpent _ i hi
    rw [hcredit]
    exact h hcached

lemma coherent_getAvailableCredit (fUseCache : Bool) :
    Coherent env (wtx.getAvailableCredit env fUseCache).2 := by
  unfold getAvailableCredit
  split_ifs with himmature hcache
  · exact h
  · exact h
  · cases hcredit : wtx.availableCredit env with
    | error e => exact h
    | ok nCredit =>
      let cached : CWalletTx :=
        { wtx with nAvailableCreditCached := nCredit, fAvailableCreditCached := true }
      have hsame : cached.availableCredit env = wtx.availableCredit env :=
        availableCredit_congr rfl fun _ _ => rfl
      exact fun _ => hsame.trans hcredit

/-- One call keeps the cached credit coherent. -/
lemma coherent_step (op : SpentOp) : Coherent env (op.step env wtx) := by
  have hmark : ∀ fSpent nOut, Coherent env ((wtx.mark fSpent nOut).toOption.getD wtx) := by
    intro fSpent nOut
    cases hmark : wtx.mark fSpent nOut with
    | error e => exact h
    | ok wtx' => exact coherent_mark h hmark
  cases op with
  | markSpent nOut => exact hmark true nOut
  | markUnspent nOut => exact hmark false nOut
  | updateSpent vfNewSpent => exact coherent_updateSpent h vfNewSpent
  | markDirty =>
    intro hcached
    cases hcached
  | getAvailableCredit fUseCache => exact coherent_getAvailableCredit h fUseCache

lemma coherent_run (ops : List SpentOp) : Coherent env (ops.foldl (SpentOp.step env) wtx) :=
  List.foldlRecOn ops _ h fun _ h op _ => coherent_step h op

end

/-- The value is the cached one or the one that is computed. -/
lemma getAvailableCredit_fst (env : Surroundings) (wtx : CWalletTx) (fUseCache : Bool) :
    (wtx.getAvailableCredit env fUseCache).1 =
      if (wtx.isCoinBase || wtx.isCoinStake) && decide (0 < env.blocksToMaturity) then .ok 0
      else if fUseCache && wtx.fAvailableCreditCached then .ok wtx.nAvailableCreditCached
      else wtx.availableCredit env := by
  unfold getAvailableCredit
  split_ifs
  · rfl
  · rfl
  · cases wtx.availableCredit env <;> rfl

/-- After every sequence of calls the cached credit is the same as the one that is computed. -/
theorem getAvailableCredit_of_run (env : Surroundings) (wtx : CWalletTx)
    (h : wtx.fAvailableCreditCached = false) (ops : List SpentOp) :
    ((ops.foldl (SpentOp.step env) wtx).getAvailableCredit env true).1
      = ((ops.foldl (SpentOp.step env) wtx).getAvailableCredit env false).1 := by
  have hcoherent : Coherent env (ops.foldl (SpentOp.step env) wtx) := by
    refine coherent_run (fun hcached => ?_) ops
    rw [h] at hcached
    cases hcached
  generalize ops.foldl (SpentOp.step env) wtx = wtx' at hcoherent
  rw [getAvailableCredit_fst, getAvailableCredit_fst, Bool.true_and, Bool.false_and]
  cases hcached : wtx'.fAvailableCreditCached with
  | true => rw [← hcoherent hcached, if_pos rfl, if_neg Bool.false_ne_true]
  | false => rfl

/-- Two outputs, the first of which is spent after the credit was cached. -/
theorem getAvailableCredit_of_run_markSpent :
    let env : Surroundings := { isMine := fun _ => true, blocksToMaturity := 0 }
    let tx : CTransaction := { vin := [{}], vout := [{ nValue := 5 }, { nValue := 7 }] }
    let wtx : CWalletTx := { toCMerkleTx := { toCTransaction := tx } }
    let ops : List SpentOp := [.getAvailableCredit true, .markSpent 0]
    ((ops.foldl (SpentOp.step env) wtx).getAvailableCredit env true).1 = .ok 7 ∧
      ((ops.foldl (SpentOp.step env) wtx).getAvailableCredit env true).1
        = ((ops.foldl (SpentOp.step env) wtx).getAvailableCredit env false).1 := by
  intro env tx wtx ops
  exact ⟨by decide +kernel, getAvailableCredit_of_run env wtx rfl ops⟩

end CWalletTx

end HyperStake.WalletTx
