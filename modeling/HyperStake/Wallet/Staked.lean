import HyperStake.Chain.CheckTransaction
import HyperStake.Chain.Supply
import HyperStake.Script.Signing
import HyperStake.Wallet.CreateCoinStake
import HyperStake.Wallet.SelectionRule
import HyperStake.Wallet.Sent

/-!
# The coin stakes that a wallet makes

A coin stake that `CreateCoinStake` makes claims the kernel and perhaps smaller coins, and its outputs
add up to what these are worth and the reward for their age (`Staking`).  So what it creates is just
the reward that `ConnectInputs` allows.

Nothing checks the single outputs.  They satisfy the rules of `CheckTransaction` if and only if the
sum is in the money range and there is enough of it for each of them: the percentages of MultiSend
leave no output, and not the stake itself, below the minimum amount (`StakeFits`).
-/

namespace HyperStake

open ExceptLoop Int64Sum RetryLoop

/-! ## The values of the outputs -/

namespace StakingWallet

variable {wallet : StakingWallet} {node : StakingNode}

open CTransaction

/-- The share of a reward that is a percentage, in the arithmetic of a `uint64`. -/
def share (nReward : Int64) (percent : Int32) : ℤ :=
  nReward.toInt * percent.toInt % 2 ^ 64 / 100

variable (nReward : Int64)

lemma toInt_multiSendValue (percent : Int32) :
    (multiSendValue nReward.toUInt64 percent).toInt = share nReward percent := by
  have hmul : ((nReward.toUInt64 * percent.toInt64.toUInt64).toNat : ℤ) =
      nReward.toInt * percent.toInt % 2 ^ 64 := by
    rw [UInt64.toNat_mul, Int.natCast_mod, Nat.cast_mul, toNat_toUInt64, toNat_toUInt64,
      Int32.toInt_toInt64]
    exact (Int.mul_emod _ _ _).symm
  have hlt := (nReward.toUInt64 * percent.toInt64.toUInt64).toNat_lt
  have hdiv : (nReward.toUInt64 * percent.toInt64.toUInt64 / 100).toNat =
      (nReward.toUInt64 * percent.toInt64.toUInt64).toNat / 100 := UInt64.toNat_div _ _
  rw [multiSendValue, toInt_toInt64 (by omega), hdiv, share, ← hmul]
  rfl

/-- The outputs to the MultiSend entries. -/
def multiSendOutputs (wallet : StakingWallet) (nReward : Int64) : List CTxOut :=
  wallet.vMultiSend.map fun ms =>
    { nValue := multiSendValue nReward.toUInt64 ms.2, scriptPubKey := CScript.setDestination ms.1 }

variable {nReward nTotal : Int64} {vout : List CTxOut} {coin : Coin}
  {keystore : CKeyStore node.crypto} {nBits : UInt32} {txNew : CTransaction} {s : StakeState}

/-- A percentage of a reward in the money range does not wrap around. -/
lemma share_eq {percent : Int32} (hreward : 0 ≤ nReward.toInt)
    (hle : nReward.toInt ≤ MAX_MONEY.toInt) (hpercent : 0 ≤ percent.toInt)
    (hhundred : percent.toInt ≤ 100) :
    share nReward percent = nReward.toInt * percent.toInt / 100 := by
  have hmax : MAX_MONEY.toInt = 60000000000000 := by decide
  have hmul : nReward.toInt * percent.toInt ≤ 60000000000000 * 100 :=
    Int.mul_le_mul (by omega) hhundred hpercent (by norm_num)
  have hnonneg := Int.mul_nonneg hreward hpercent
  rw [share, Int.emod_eq_of_lt hnonneg (by omega)]

/-- What the MultiSend entries get in all. -/
def shares (wallet : StakingWallet) (nReward : Int64) : ℤ :=
  (wallet.vMultiSend.map fun ms => share nReward ms.2).sum

lemma total_multiSendOutputs :
    total ((wallet.multiSendOutputs nReward).map CTxOut.nValue) = wallet.shares nReward := by
  rw [total, multiSendOutputs, shares, List.map_map, List.map_map]
  refine congrArg List.sum (List.map_congr_left fun ms _ => ?_)
  exact toInt_multiSendValue nReward ms.2

lemma setMultiSendValues_eq (nReward : UInt64) (vMultiSend : List (CTxDestination × Int32)) :
    setMultiSendValues nReward vMultiSend (vMultiSend.map fun ms =>
        { nValue := 0, scriptPubKey := CScript.setDestination ms.1 }) =
      .ok (vMultiSend.map fun ms =>
        { nValue := multiSendValue nReward ms.2, scriptPubKey := CScript.setDestination ms.1 }) := by
  induction vMultiSend with
  | nil => rfl
  | cons ms vMultiSend ih =>
    rw [List.map_cons, setMultiSendValues, ih]
    rfl

/-- The rest for the stake, in the arithmetic of an `int64`. -/
lemma toInt64_sub_nMultiSendAmount (nTotal : Int64) (nReward : Int64) :
    (nTotal.toUInt64 - wallet.nMultiSendAmount nReward.toUInt64).toInt64 =
      nTotal - Int64.ofInt (wallet.shares nReward) := by
  have hfold : (wallet.nMultiSendAmount nReward.toUInt64).toInt64 =
      ((wallet.multiSendOutputs nReward).map CTxOut.nValue).foldl (· + ·) 0 := by
    rw [nMultiSendAmount, multiSendOutputs, List.map_map, List.foldl_map]
    generalize hn : (0 : UInt64) = n
    have hzero : (0 : Int64) = n.toInt64 := by rw [← hn]; rfl
    rw [hzero]
    clear hn hzero
    induction wallet.vMultiSend generalizing n with
    | nil => rfl
    | cons ms vMultiSend ih =>
      rw [List.foldl_cons, List.foldl_cons, ih]
      rfl
  rw [UInt64.toInt64_sub, Int64.toInt64_toUInt64, hfold, foldl_add_eq, total_multiSendOutputs,
    Int64.zero_add]

/-- There is enough for each of the outputs, and not more than the money range in all. -/
def Fits (wallet : StakingWallet) (nTotal nReward : Int64) (nOutputs : ℕ) : Prop :=
  nTotal.toInt ≤ MAX_MONEY.toInt ∧
    if wallet.multiSends then
      (∀ ms ∈ wallet.vMultiSend, MIN_TXOUT_AMOUNT.toInt ≤ share nReward ms.2 ∨
        (ms.1 = .CNoDestination ∧ share nReward ms.2 = 0)) ∧
      wallet.shares nReward + MIN_TXOUT_AMOUNT.toInt ≤ nTotal.toInt
    else if nOutputs = 3 then 2 * CENT.toInt ≤ nTotal.toInt
    else MIN_TXOUT_AMOUNT.toInt ≤ nTotal.toInt

lemma outputFits_iff {txout : CTxOut} (hscript : txout.scriptPubKey ≠ []) :
    OutputFits txout ↔ MIN_TXOUT_AMOUNT.toInt ≤ txout.nValue.toInt := by
  have hempty : txout.isEmpty = false := by
    rw [CTxOut.isEmpty, List.isEmpty_eq_false_iff.mpr hscript, Bool.and_false]
  simp [OutputFits, hempty]

lemma setDestination_eq_nil {dest : CTxDestination} :
    CScript.setDestination dest = [] ↔ dest = .CNoDestination := by
  match dest with
  | .CNoDestination => simp [CScript.setDestination]
  | .CKeyID _ => simp [CScript.setDestination, CScript.pushOpcode]
  | .CScriptID _ => simp [CScript.setDestination, CScript.pushOpcode]

/-- The outputs to the MultiSend entries are not too small. -/
lemma multiSendOutputs_fit_iff :
    (∀ txout ∈ wallet.multiSendOutputs nReward, OutputFits txout) ↔
      ∀ ms ∈ wallet.vMultiSend, MIN_TXOUT_AMOUNT.toInt ≤ share nReward ms.2 ∨
        (ms.1 = .CNoDestination ∧ share nReward ms.2 = 0) := by
  rw [multiSendOutputs, List.forall_mem_map]
  refine forall₂_congr fun ms _ => ?_
  rw [OutputFits, CTxOut.isEmpty, Bool.and_eq_true, beq_iff_eq, List.isEmpty_iff,
    setDestination_eq_nil, ← Int64.toInt_inj, toInt_multiSendValue, or_comm, and_comm]
  rfl

lemma shares_nonneg (wallet : StakingWallet) (nReward : Int64) : 0 ≤ wallet.shares nReward := by
  refine List.sum_nonneg fun n hn => ?_
  obtain ⟨ms, -, rfl⟩ := List.mem_map.mp hn
  exact Int.ediv_nonneg (Int.emod_nonneg _ (by norm_num)) (by norm_num)

/-- Two numbers in the range of an `int64` that wrap around to the same are equal. -/
lemma eq_of_ofInt_eq {m n : ℤ} (hm : InRange m) (hn : InRange n)
    (h : Int64.ofInt m = Int64.ofInt n) : m = n := by
  have htoInt := congrArg Int64.toInt h
  rwa [Int64.toInt_ofInt_of_le hm.1 hm.2, Int64.toInt_ofInt_of_le hn.1 hn.2] at htoInt

/-- The stake and the MultiSend entries share the total. -/
lemma rest_iff {nValue : Int64} {amount : ℤ} (hamount : 0 ≤ amount)
    (hvalue : nValue = nTotal - Int64.ofInt amount) :
    (MIN_TXOUT_AMOUNT.toInt ≤ nValue.toInt ∧ nValue.toInt + amount ≤ MAX_MONEY.toInt) ↔
      nTotal.toInt ≤ MAX_MONEY.toInt ∧ amount + MIN_TXOUT_AMOUNT.toInt ≤ nTotal.toInt := by
  have hmax : MAX_MONEY.toInt = 60000000000000 := by decide
  have hmin : MIN_TXOUT_AMOUNT.toInt = 10 := by decide
  have hlt := nTotal.toInt_lt
  constructor
  · rintro ⟨hge, hle⟩
    -- the total is in range, so it is the sum and not only equal to it after wrapping around
    have hsum : nTotal.toInt = nValue.toInt + amount := by
      refine eq_of_ofInt_eq (inRange_toInt _) ⟨by omega, by omega⟩ ?_
      rw [Int64.ofInt_add, Int64.ofInt_toInt, Int64.ofInt_toInt, hvalue, Int64.sub_add_cancel]
    omega
  · rintro ⟨hle, hge⟩
    have hsub : nValue.toInt = nTotal.toInt - amount := by
      have hwrap : Int64.ofInt (nTotal.toInt - amount) = nValue := by
        rw [hvalue, Int64.ofInt_sub, Int64.ofInt_toInt]
      rw [← hwrap, Int64.toInt_ofInt_of_le (by omega) (by omega)]
    omega

/-- The outputs of a coin stake before their values are set. -/
def IsTemplate (wallet : StakingWallet) (vout : List CTxOut) : Prop :=
  ∃ scriptPubKeyOut nTotalSize, scriptPubKeyOut ≠ [] ∧
    vout = { nValue := 0 } :: { nValue := 0, scriptPubKey := scriptPubKeyOut } ::
      wallet.otherOutputs scriptPubKeyOut nTotalSize

/-- The outputs of a coin stake after their values are set. -/
structure HasValues (wallet : StakingWallet) (nTotal nReward : Int64) (nOutputs : ℕ)
    (vout : List CTxOut) : Prop where
  length : vout.length = nOutputs
  marked : ∃ txout rest, vout = { nValue := 0 } :: txout :: rest
  rules : checkOutputs false 0 vout = true ↔ wallet.Fits nTotal nReward nOutputs
  sum : Int64.ofInt (total (vout.map CTxOut.nValue)) = nTotal

/-- The rules for the outputs after the first one, which is empty. -/
lemma checkOutputs_marked_iff (vout : List CTxOut) :
    checkOutputs false 0 ({ nValue := 0 } :: vout) = true ↔ (∀ txout ∈ vout, OutputFits txout) ∧
      total (vout.map CTxOut.nValue) ≤ MAX_MONEY.toInt := by
  have hzero : (0 : Int64).toInt = 0 := rfl
  have hrange : moneyRange 0 = true := by decide
  simp only [checkOutputs_iff hrange, outputAllowed_false]
  rw [List.forall_mem_cons, List.map_cons, total_cons, hzero, zero_add, zero_add]
  exact and_congr_left fun _ => and_iff_right (Or.inl rfl)

/-- MultiSend pays its entries, and the stake gets the rest. -/
lemma setValues_multiSend (hsends : wallet.multiSends = true) (htemplate : wallet.IsTemplate vout) :
    ∃ vout', wallet.setValues nReward.toUInt64 nTotal 0 vout = .ok vout' ∧
      wallet.HasValues nTotal nReward vout.length vout' := by
  obtain ⟨scriptPubKeyOut, nTotalSize, hscript, hvout⟩ := htemplate
  obtain ⟨nOutputs, hlength⟩ : ∃ nOutputs, nOutputs = vout.length := ⟨_, rfl⟩
  rw [← hlength]
  rw [hvout, otherOutputs, if_pos hsends, List.length_cons, List.length_cons,
    List.length_map] at hlength
  subst hvout
  obtain ⟨nValue, hvalue⟩ : ∃ nValue : Int64,
      nValue = nTotal - Int64.ofInt (wallet.shares nReward) := ⟨_, rfl⟩
  have hset : wallet.setValues nReward.toUInt64 nTotal 0
      ({ nValue := 0 } :: { nValue := 0, scriptPubKey := scriptPubKeyOut } ::
        wallet.otherOutputs scriptPubKeyOut nTotalSize) =
      .ok ({ nValue := 0 } :: { nValue, scriptPubKey := scriptPubKeyOut } ::
        wallet.multiSendOutputs nReward) := by
    simp only [setValues, otherOutputs, hsends, if_true, setMultiSendValues_eq, Int64.sub_zero,
      toInt64_sub_nMultiSendAmount, ← hvalue]
    rfl
  have hrules : checkOutputs false 0 ({ nValue := 0 } ::
      { nValue, scriptPubKey := scriptPubKeyOut } :: wallet.multiSendOutputs nReward) = true ↔
        wallet.Fits nTotal nReward nOutputs := by
    have hrest := rest_iff (shares_nonneg wallet nReward) hvalue
    rw [checkOutputs_marked_iff, List.forall_mem_cons, outputFits_iff hscript,
      multiSendOutputs_fit_iff, List.map_cons, total_cons, total_multiSendOutputs, Fits,
      if_pos hsends]
    constructor
    · rintro ⟨⟨hge, hall⟩, hle⟩
      obtain ⟨hmax, hsum⟩ := hrest.mp ⟨hge, hle⟩
      exact ⟨hmax, hall, hsum⟩
    · rintro ⟨hmax, hall, hsum⟩
      obtain ⟨hge, hle⟩ := hrest.mpr ⟨hmax, hsum⟩
      exact ⟨⟨hge, hall⟩, hle⟩
  refine ⟨_, hset, ?_, ⟨_, _, rfl⟩, hrules, ?_⟩
  · rw [List.length_cons, List.length_cons, multiSendOutputs, List.length_map, hlength]
  · rw [List.map_cons, List.map_cons, total_cons, total_cons, total_multiSendOutputs,
      Int64.ofInt_add, Int64.ofInt_add, Int64.ofInt_toInt, Int64.ofInt_toInt, hvalue,
      Int64.sub_add_cancel, Int64.zero_add]

/-- Half of an amount in whole cents, rounded towards zero. -/
lemma tdiv_two_tdiv_cent (a : ℤ) :
    (0 ≤ a ∧ (a.tdiv 2).tdiv 10000 = a / 20000) ∨
      (a < 0 ∧ (a.tdiv 2).tdiv 10000 = -(-a / 20000)) := by
  rcases le_or_gt 0 a with hge | hlt
  · refine Or.inl ⟨hge, ?_⟩
    rw [Int.tdiv_eq_ediv_of_nonneg hge, Int.tdiv_eq_ediv_of_nonneg (by omega)]
    omega
  · refine Or.inr ⟨hlt, ?_⟩
    obtain ⟨b, rfl⟩ : ∃ b, a = -b := ⟨-a, (neg_neg a).symm⟩
    rw [Int.neg_tdiv, Int.neg_tdiv, Int.tdiv_eq_ediv_of_nonneg (show 0 ≤ b by omega),
      Int.tdiv_eq_ediv_of_nonneg (show 0 ≤ b / 2 by omega)]
    omega

/-- A stake that is not split is paid to one output. -/
lemma setValues_single {scriptPubKeyOut : CScript} (hsends : wallet.multiSends = false)
    (hscript : scriptPubKeyOut ≠ [])
    (hvout : vout = [{ nValue := 0 }, { nValue := 0, scriptPubKey := scriptPubKeyOut }]) :
    ∃ vout', wallet.setValues nReward.toUInt64 nTotal 0 vout = .ok vout' ∧
      wallet.HasValues nTotal nReward vout.length vout' := by
  subst hvout
  refine ⟨[{ nValue := 0 }, { nValue := nTotal, scriptPubKey := scriptPubKeyOut }], ?_, rfl,
    ⟨_, _, rfl⟩, ?_, ?_⟩
  · simp [setValues, hsends]
  · rw [checkOutputs_marked_iff, List.forall_mem_singleton, outputFits_iff hscript, Fits,
      hsends, if_neg Bool.false_ne_true, if_neg (by simp), List.map_singleton, total_cons,
      total_nil, add_zero]
    exact and_comm
  · simp

/-- A stake that is split is paid to two outputs. -/
lemma setValues_split {scriptPubKeyOut : CScript} (hsends : wallet.multiSends = false)
    (hscript : scriptPubKeyOut ≠ [])
    (hvout : vout = [{ nValue := 0 }, { nValue := 0, scriptPubKey := scriptPubKeyOut },
      { nValue := 0, scriptPubKey := scriptPubKeyOut }]) :
    ∃ vout', wallet.setValues nReward.toUInt64 nTotal 0 vout = .ok vout' ∧
      wallet.HasValues nTotal nReward vout.length vout' := by
  subst hvout
  have hcent : CENT.toInt = 10000 := by decide
  have hmin : MIN_TXOUT_AMOUNT.toInt = 10 := by decide
  have hzero : (0 : Int64).toInt = 0 := rfl
  have hge := nTotal.le_toInt
  have hlt := nTotal.toInt_lt
  have hcases := tdiv_two_tdiv_cent nTotal.toInt
  obtain ⟨nHalf, hhalf⟩ : ∃ nHalf, nHalf = nTotal / 2 / CENT * CENT := ⟨_, rfl⟩
  have hhalfInt : nHalf.toInt = (nTotal.toInt.tdiv 2).tdiv 10000 * 10000 := by
    have hdiv : (nTotal / 2 / CENT).toInt = (nTotal.toInt.tdiv 2).tdiv 10000 := by
      rw [Int64.toInt_div_of_ne_right _ _ (by decide), Int64.toInt_div_of_ne_right _ _ (by decide),
        hcent]
      rfl
    rw [hhalf, Int64.toInt_mul, hdiv, hcent, bmod_eq_of_inRange]
    constructor <;> omega
  have hrestInt : (nTotal - nHalf).toInt = nTotal.toInt - nHalf.toInt :=
    toInt_sub ⟨by omega, by omega⟩
  have hsum : total ([({ nValue := nHalf, scriptPubKey := scriptPubKeyOut } : CTxOut),
      { nValue := nTotal - nHalf, scriptPubKey := scriptPubKeyOut }].map CTxOut.nValue) =
        nTotal.toInt := by
    rw [List.map_cons, List.map_singleton, total_cons, total_cons, total_nil]
    dsimp only
    omega
  refine ⟨[{ nValue := 0 }, { nValue := nHalf, scriptPubKey := scriptPubKeyOut },
    { nValue := nTotal - nHalf, scriptPubKey := scriptPubKeyOut }], ?_, rfl, ⟨_, _, rfl⟩, ?_, ?_⟩
  · simp only [setValues, hsends, Bool.false_eq_true, if_false, Int64.sub_zero, ← hhalf]
  · rw [checkOutputs_marked_iff, List.forall_mem_cons, List.forall_mem_singleton,
      outputFits_iff hscript, outputFits_iff hscript, Fits, hsends, if_neg Bool.false_ne_true,
      if_pos (by rfl), hsum]
    dsimp only
    omega
  · rw [List.map_cons, total_cons, hsum, Int64.ofInt_add, Int64.ofInt_toInt, Int64.ofInt_toInt,
      Int64.zero_add]

/-- The values of the outputs fit together if the total and the reward do. -/
lemma setValues_eq (nTotal nReward : Int64) (htemplate : wallet.IsTemplate vout) :
    ∃ vout', wallet.setValues nReward.toUInt64 nTotal 0 vout = .ok vout' ∧
      wallet.HasValues nTotal nReward vout.length vout' := by
  match hsends : wallet.multiSends with
  | true => exact setValues_multiSend hsends htemplate
  | false =>
    obtain ⟨scriptPubKeyOut, nTotalSize, hscript, hvout⟩ := htemplate
    rw [otherOutputs, hsends, if_neg Bool.false_ne_true] at hvout
    split_ifs at hvout with hsplit
    · exact setValues_split hsends hscript hvout
    · exact setValues_single hsends hscript hvout

/-! ## The inputs -/

/-- The outpoint that a coin is. -/
def outpoint (coin : Coin) : COutPoint := { hash := coin.1, n := coin.2 }

/-- The value of the outputs of the wallet that some outpoints are, added up like `ConnectInputs`
does. -/
def claimedValue (wallet : StakingWallet) (prevouts : List COutPoint) : Int64 :=
  (prevouts.map fun prevout => ((wallet.output (prevout.hash, prevout.n)).getD {}).nValue).foldl
    (· + ·) 0

/-- What the inputs of a transaction are worth. -/
def valueIn (wallet : StakingWallet) (tx : CTransaction) : Int64 :=
  wallet.claimedValue (tx.vin.map CTxIn.prevout)

lemma claimedValue_append (prevouts : List COutPoint) {txout : CTxOut}
    (hout : wallet.output coin = some txout) :
    wallet.claimedValue (prevouts ++ [outpoint coin]) =
      wallet.claimedValue prevouts + txout.nValue := by
  rw [claimedValue, List.map_append, List.foldl_append, List.map_singleton, List.foldl_cons,
    List.foldl_nil, claimedValue]
  refine congrArg (_ + ·) ?_
  change ((wallet.output coin).getD {}).nValue = txout.nValue
  rw [hout, Option.getD_some]

/-- The local variables of `CreateCoinStake` while it adds inputs. -/
structure IsStake (wallet : StakingWallet) (s : StakeState) : Prop where
  template : wallet.IsTemplate s.txNew.vout
  claims : s.txNew.vin.map CTxIn.prevout = s.vwtxPrev.map outpoint
  kernel : ∃ coin coins, s.vwtxPrev = coin :: coins ∧ coin.2 ≠ 0xffffffff
  worth : wallet.valueIn s.txNew = s.nCredit

lemma scriptPubKeyOut_ne_nil {scriptPubKeyKernel script : CScript}
    (h : scriptPubKeyOut node keystore scriptPubKeyKernel = some script) : script ≠ [] := by
  unfold scriptPubKeyOut at h
  split at h
  · obtain ⟨key, -, rfl⟩ := Option.map_eq_some_iff.mp h
    exact List.concat_ne_nil _ _
  · rename_i vSolutions hsolver
    cases h
    rintro rfl
    have hnil : CScript.solver [] = none := by decide +kernel
    rw [hnil] at hsolver
    cases hsolver
  · cases h

lemma mem_of_findKernel {nTime nTime' : UInt32} {coins : List Coin}
    (h : wallet.findKernel node nBits nTime coins = .ok (some (coin, nTime'))) : coin ∈ coins := by
  induction coins with
  | nil =>
    rw [findKernel] at h
    cases h
  | cons coin' coins ih =>
    rw [findKernel] at h
    dsimp only at h
    split at h
    · cases h
    · exact List.mem_cons_of_mem _ (ih h)
    · split at h
      · exact List.mem_cons_of_mem _ (ih h)
      · obtain ⟨⟨foundKernel, r⟩, -, h⟩ := bind_eq_ok.mp h
        dsimp only at h
        split_ifs at h with hfound hshutdown
        · cases h
          exact List.mem_cons_self
        · cases h
        · exact List.mem_cons_of_mem _ (ih h)

/-- The kernel is the first input. -/
lemma isStake_of_claimKernel {nTime : UInt32} (hmax : coin.2 ≠ 0xffffffff)
    (h : wallet.claimKernel node keystore txNew coin nTime = .ok (some s)) : wallet.IsStake s := by
  rw [claimKernel] at h
  match hout : wallet.output coin with
  | none =>
    rw [hout] at h
    cases h
  | some txout =>
    rw [hout] at h
    dsimp only at h
    split at h
    · cases h
    · rename_i script hscript
      split at h
      · cases h
      · cases h
        refine ⟨⟨script, _, scriptPubKeyOut_ne_nil hscript, rfl⟩, rfl, ⟨coin, [], rfl, hmax⟩, ?_⟩
        have hvalue := claimedValue_append [] hout
        rw [List.nil_append] at hvalue
        exact hvalue.trans (Int64.zero_add _)

/-- The coins that are combined with the kernel are further inputs. -/
lemma IsStake.combineLoop {nCombineThreshold nLimit : Int64} {coins : List Coin} {s' : StakeState}
    (hs : wallet.IsStake s)
    (h : wallet.combineLoop node nCombineThreshold nLimit coins s = .ok s') :
    wallet.IsStake s' := by
  induction coins generalizing s with
  | nil =>
    rw [StakingWallet.combineLoop] at h
    cases h
    exact hs
  | cons coin coins ih =>
    rw [StakingWallet.combineLoop] at h
    split at h
    · split at h
      · rename_i pcoin txout hpcoin hout
        split_ifs at h with hsame hstop hskip
        · cases h
          exact hs
        · exact ih hs h
        · refine ih ?_ h
          obtain ⟨kernel, others, heq, hmax⟩ := hs.kernel
          refine ⟨hs.template, ?_, ⟨kernel, others ++ [coin], ?_, hmax⟩, ?_⟩
          · dsimp only
            rw [List.map_append, List.map_append, hs.claims]
            rfl
          · dsimp only
            rw [heq, List.cons_append]
          · rw [valueIn, List.map_append, ← hs.worth]
            exact claimedValue_append _ hout
        · exact ih hs h
      · cases h
    · exact ih hs h

lemma isStake_of_stakeInputs {nCombineThreshold nLimit : Int64} {setStakeCoins : List Coin}
    (hmax : ∀ coin ∈ setStakeCoins, coin.2 ≠ 0xffffffff)
    (h : wallet.stakeInputs node keystore nBits txNew nCombineThreshold nLimit setStakeCoins =
      .ok (some s)) : wallet.IsStake s := by
  rw [stakeInputs] at h
  obtain ⟨found, hfound, h⟩ := bind_eq_ok.mp h
  match found, hfound, h with
  | some (coin, nTime), hfound, h =>
    obtain ⟨claimed, hclaim, h⟩ := bind_eq_ok.mp h
    match claimed, hclaim, h with
    | some s₀, hclaim, h =>
      have hstake := isStake_of_claimKernel (hmax coin (mem_of_findKernel hfound)) hclaim
      dsimp only at h
      split_ifs at h with hcredit hcombine
      · cases h
      · obtain ⟨s₁, hloop, h⟩ := bind_eq_ok.mp h
        cases h
        exact hstake.combineLoop hloop
      · cases h
        exact hstake

/-! ## The coin stake -/

/-- A round with no fee is the last one: a coin stake does not have to pay one. -/
lemma outputRound_eq_ok {nCredit : Int64} {vwtxPrev : List Coin} {n : ℕ}
    {r : Round (Int64 × CTransaction) (Option CTransaction)}
    (h : wallet.outputRound nReward nCredit vwtxPrev n (0, txNew) = .ok r) :
    r = .done none ∨ ∃ vout tx, r = .done (some tx) ∧
      wallet.setValues nReward.toUInt64 nCredit 0 txNew.vout = .ok vout ∧
      wallet.signInputs vwtxPrev 0 { txNew with vout } = .ok tx := by
  rw [outputRound] at h
  obtain ⟨vout, hvalues, h⟩ := bind_eq_ok.mp h
  match hsign : wallet.signInputs vwtxPrev 0 { txNew with vout } with
  | .error (.fault e) =>
    rw [hsign] at h
    cases h
  | .error .insufficientFunds | .error .noPreviousTransaction | .error .notSigned
  | .error .notCommitted =>
    rw [hsign] at h
    cases h
    exact Or.inl rfl
  | .ok tx =>
    rw [hsign] at h
    dsimp only at h
    have hfee : ¬ (0 : Int64) < tx.getMinFee - MIN_TX_FEE := by
      rw [CTransaction.getMinFee_eq]
      decide
    split_ifs at h with hsize
    · cases h
      exact Or.inl rfl
    · cases h
      exact Or.inr ⟨vout, tx, rfl, hvalues, hsign⟩

/-- The parts of a coin stake. -/
lemma createCoinStake_eq {tx : CTransaction} {s s' : StakeCoins} {rounds : ℕ}
    (h : wallet.createCoinStake node keystore nBits txNew s rounds = some (.ok (some tx, s'))) :
    ∃ stake nReward vout, wallet.IsStake stake ∧ stakeReward node stake.txNew = some nReward ∧
      wallet.setValues nReward.toUInt64 (stake.nCredit + nReward) 0 stake.txNew.vout = .ok vout ∧
      wallet.signInputs stake.vwtxPrev 0 { stake.txNew with vout } = .ok tx := by
  rw [createCoinStake] at h
  split_ifs at h with hdisable
  · cases h
  split at h
  · cases h
  · cases h
  split_ifs at h with hbalance
  · cases h
  dsimp only at h
  split at h
  · cases h
  rename_i s₁ hupdate
  split at h
  · cases h
  · cases h
  rename_i stake hinputs
  split at h
  · cases h
  rename_i nReward hreward
  obtain ⟨result, hretry, h⟩ := Option.map_eq_some_iff.mp h
  cases result with
  | error e => cases h
  | ok created =>
    cases h
    cases rounds with
    | zero => cases hretry
    | succ rounds =>
      rw [retry] at hretry
      cases hround : wallet.outputRound nReward (stake.nCredit + nReward) stake.vwtxPrev 0
          (0, stake.txNew) with
      | error e =>
        rw [hround] at hretry
        cases hretry
      | ok r =>
        rw [hround] at hretry
        obtain rfl | ⟨vout, tx', rfl, hvalues, hsign⟩ := outputRound_eq_ok hround
        · cases hretry
        · cases hretry
          exact ⟨stake, nReward, vout, isStake_of_stakeInputs s₁.ne_max hinputs, hreward, hvalues,
            hsign⟩

/-- The coin age of a transaction depends on its time and on what its inputs claim. -/
lemma coinAgeLoop_congr {env : Env} {db : TxDB} {tx tx' : CTransaction}
    (htime : tx.nTime = tx'.nTime) {vin vin' : List CTxIn}
    (hvin : vin.map CTxIn.prevout = vin'.map CTxIn.prevout) (bnCentSecond : ℤ) :
    coinAgeLoop env db tx bnCentSecond vin = coinAgeLoop env db tx' bnCentSecond vin' := by
  induction vin generalizing vin' bnCentSecond with
  | nil =>
    obtain rfl := List.map_eq_nil_iff.mp hvin.symm
    rfl
  | cons txin vin ih =>
    obtain ⟨txin', vin', rfl, hprevout, hrest⟩ := List.map_eq_cons_iff.mp hvin.symm
    simp only [coinAgeLoop, hprevout, htime, ih hrest.symm]

/-- Whether the chain accepts the outputs of a coin stake whose inputs are worth an amount: the rules
of `CheckTransaction` for outputs, and the bound of `ConnectInputs` for the reward. -/
structure AcceptsOutputs (node : StakingNode) (tx : CTransaction) (nValueIn : Int64) : Prop where
  outputs : checkOutputs (!tx.isCoinBase && !tx.isCoinStake) 0 tx.vout = true
  reward : tx.checkValue node.env node.db nValueIn = .ok ()

/-- A transaction that `CreateCoinStake` returns is a coin stake.  The chain accepts its outputs if
and only if there is enough for each of them. -/
theorem acceptsOutputs_createCoinStake_iff {keystore : CKeyStore node.crypto} {nBits : UInt32}
    {txNew tx : CTransaction} {s s' : StakeCoins} {rounds : ℕ}
    (h : wallet.createCoinStake node keystore nBits txNew s rounds = some (.ok (some tx, s'))) :
    tx.isCoinStake = true ∧ ∃ nReward, stakeReward node tx = some nReward ∧
      (∀ nValueOut, tx.getValueOut = .ok nValueOut → nValueOut - wallet.valueIn tx = nReward) ∧
      (AcceptsOutputs node tx (wallet.valueIn tx) ↔
        wallet.Fits (wallet.valueIn tx + nReward) nReward tx.vout.length) := by
  obtain ⟨stake, nReward, vout, hstake, hreward, hvalues, hsign⟩ := createCoinStake_eq h
  obtain ⟨vout', hset, hhas⟩ := setValues_eq (stake.nCredit + nReward) nReward hstake.template
  obtain rfl : vout' = vout := Except.ok.inj (hset.symm.trans hvalues)
  obtain ⟨hvout, hvin, htime⟩ := SpendingWallet.signInputs_eq_ok hsign
  dsimp only at hvout hvin htime
  -- the first input is the kernel, and the first output is empty
  obtain ⟨coin, coins, hcoins, hmax⟩ := hstake.kernel
  obtain ⟨txout, rest, hmarked⟩ := hhas.marked
  have hinputs : tx.vin.map CTxIn.prevout = outpoint coin :: coins.map outpoint := by
    rw [hvin, hstake.claims, hcoins, List.map_cons]
  have hnull : (outpoint coin).isNull = false := by
    rw [COutPoint.isNull, Bool.and_eq_false_iff]
    exact Or.inr (beq_eq_false_iff_ne.mpr hmax)
  have hcoinStake : tx.isCoinStake = true := by
    obtain ⟨txin, vin, htxin, hprevout, -⟩ := List.map_eq_cons_iff.mp hinputs
    rw [CTransaction.isCoinStake, htxin, hvout, hmarked]
    dsimp only
    rw [hprevout, hnull]
    rfl
  have hcoinBase : ∀ tx' : CTransaction,
      tx'.vin.map CTxIn.prevout = tx.vin.map CTxIn.prevout → tx'.isCoinBase = false := by
    intro tx' hsame
    obtain ⟨txin, vin, htxin, hprevout, -⟩ := List.map_eq_cons_iff.mp (hsame.trans hinputs)
    rw [CTransaction.isCoinBase, htxin]
    cases vin with
    | nil =>
      dsimp only
      rw [hprevout, hnull, Bool.false_and]
    | cons => rfl
  have hrewardTx : stakeReward node tx = some nReward := by
    rw [← hreward, stakeReward, stakeReward, getCoinAge, getCoinAge, hcoinBase tx rfl,
      hcoinBase stake.txNew hvin.symm, coinAgeLoop_congr htime hvin, htime]
  have hworth : wallet.valueIn tx = stake.nCredit := by
    rw [valueIn, hvin]
    exact hstake.worth
  have hcreates : ∀ nValueOut, tx.getValueOut = .ok nValueOut →
      nValueOut - wallet.valueIn tx = nReward := by
    intro nValueOut hsum
    obtain ⟨-, -, htotal⟩ := getValueOut_eq_ok hsum
    rw [CTransaction.valueOut, hvout] at htotal
    rw [hworth, ← Int64.ofInt_toInt nValueOut, htotal, hhas.sum, Int64.add_comm,
      Int64.add_sub_cancel]
  have hlength : tx.vout.length = stake.txNew.vout.length := by rw [hvout, hhas.length]
  refine ⟨hcoinStake, nReward, hrewardTx, hcreates, ?_⟩
  rw [hworth, hlength, ← hhas.rules, ← hvout]
  constructor
  · rintro ⟨houtputs, -⟩
    rwa [hcoinStake, Bool.not_true, Bool.and_false] at houtputs
  · intro houtputs
    refine ⟨by rwa [hcoinStake, Bool.not_true, Bool.and_false], ?_⟩
    -- the sum of the outputs is that of the inputs and the reward
    obtain ⟨nValueOut, hsum⟩ : ∃ nValueOut, tx.getValueOut = .ok nValueOut :=
      exists_getValueOutLoop_eq houtputs
    obtain ⟨nCoinAge, hage, hageReward⟩ := Option.map_eq_some_iff.mp hrewardTx
    have hequal := hcreates nValueOut hsum
    rw [hworth] at hequal
    have hbound : nValueOut - stake.nCredit ≤
        getProofOfStakeReward nCoinAge.toInt64 tx.nTime - tx.getMinFee + MIN_TX_FEE := by
      rw [stakeReward_eq, hageReward, hequal]
      exact Int64.le_refl _
    rw [checkValue, hsum, hcoinStake, hage]
    change Exit.require (decide _) = .ok ()
    rw [decide_eq_true hbound]
    rfl

/-- Percentages that add up to at most a hundred share no more than the reward. -/
lemma shares_le (hreward : 0 ≤ nReward.toInt) (hle : nReward.toInt ≤ MAX_MONEY.toInt)
    {vMultiSend : List (CTxDestination × Int32)} (hpercent : ∀ ms ∈ vMultiSend, 0 ≤ ms.2.toInt)
    (hhundred : (vMultiSend.map fun ms => ms.2.toInt).sum ≤ 100) :
    100 * (vMultiSend.map fun ms => share nReward ms.2).sum ≤
      nReward.toInt * (vMultiSend.map fun ms => ms.2.toInt).sum := by
  induction vMultiSend with
  | nil => simp
  | cons ms vMultiSend ih =>
    obtain ⟨hms, hrest⟩ := List.forall_mem_cons.mp hpercent
    have hnonneg : 0 ≤ (vMultiSend.map fun ms => ms.2.toInt).sum := by
      refine List.sum_nonneg fun n hn => ?_
      obtain ⟨ms', hmem, rfl⟩ := List.mem_map.mp hn
      exact hrest ms' hmem
    rw [List.map_cons, List.sum_cons] at hhundred ⊢
    rw [List.map_cons, List.sum_cons, share_eq hreward hle hms (by omega), mul_add, mul_add]
    have hih := ih hrest (by omega)
    have hdiv := Int.mul_ediv_self_le (x := nReward.toInt * ms.2.toInt) (k := 100) (by norm_num)
    omega

/-- The settings that the RPC `multisend` lets through leave enough for every output, if the reward is
two cents or more and the sum is in the money range. -/
lemma fits_of_settings {nCredit : Int64} (nOutputs : ℕ)
    (hpercent : ∀ ms ∈ wallet.vMultiSend, 1 ≤ ms.2.toInt)
    (hhundred : (wallet.vMultiSend.map fun ms => ms.2.toInt).sum ≤ 100)
    (hcredit : MIN_TXOUT_AMOUNT.toInt ≤ nCredit.toInt) (hreward : 2 * CENT.toInt ≤ nReward.toInt)
    (hrange : nCredit.toInt + nReward.toInt ≤ MAX_MONEY.toInt) :
    wallet.Fits (nCredit + nReward) nReward nOutputs := by
  have hmax : MAX_MONEY.toInt = 60000000000000 := by decide
  have hmin : MIN_TXOUT_AMOUNT.toInt = 10 := by decide
  have hcent : CENT.toInt = 10000 := by decide
  have hadd : (nCredit + nReward).toInt = nCredit.toInt + nReward.toInt :=
    toInt_add ⟨by omega, by omega⟩
  have hshares := shares_le (show 0 ≤ nReward.toInt by omega) (by omega)
    (fun ms hms => (by norm_num : (0 : ℤ) ≤ 1).trans (hpercent ms hms)) hhundred
  have hhundred' : nReward.toInt * (wallet.vMultiSend.map fun ms => ms.2.toInt).sum ≤
      nReward.toInt * 100 := Int.mul_le_mul_of_nonneg_left hhundred (by omega)
  refine ⟨by omega, ?_⟩
  split_ifs with hsends hsplit
  · refine ⟨fun ms hms => Or.inl ?_, ?_⟩
    · have hms' : ms.2.toInt ≤ (wallet.vMultiSend.map fun ms => ms.2.toInt).sum := by
        refine List.single_le_sum (fun n hn => ?_) _ (List.mem_map_of_mem hms)
        obtain ⟨ms', hmem, rfl⟩ := List.mem_map.mp hn
        have := hpercent ms' hmem
        omega
      have hone := hpercent ms hms
      rw [share_eq (by omega) (by omega) (by omega) (by omega)]
      have hmul : nReward.toInt * 1 ≤ nReward.toInt * ms.2.toInt :=
        Int.mul_le_mul_of_nonneg_left hone (by omega)
      omega
    · rw [shares]
      omega
  · omega
  · omega

end StakingWallet

/-! ## Stakes in range and out of range -/

/-- A transaction with one output, to a public key. -/
def stakedTx (nValue : Int64) : CTransaction :=
  let scriptPubKey := CScript.pushOpcode (CScript.pushData [] (List.replicate 33 2)) OP_CHECKSIG
  { nTime := 1424304823, vout := [{ nValue, scriptPubKey }] }

/-- A node on the test network that has the transaction on disk. -/
def stakedNode (nValue : Int64) : StakingNode where
  env := { sampleEnv with
    fTestNet := true, nStakeMinAge := 20 * 60
    readFromDisk := fun _ => some (stakedTx nValue), readBlockTime := fun _ _ => some 1424304823 }
  db := (∅ : TxDB).insert 9 {}
  readHeader _ _ := some { nTime := 1424304823 }
  crypto := Crypto.sample
  hash _ := 0
  hash9 _ := 2
  tree := forkTree [2, 4, 6]
  pindexBest := 6
  nTime := 1424307223
  fShutdown _ := false

/-- A wallet that has the transaction, and stakes with the settings of a new wallet. -/
def stakedWallet (nValue : Int64) : StakingWallet where
  mapWallet := (∅ : Std.ExtTreeMap UInt256 CWalletTx).insert 9
    { tx := stakedTx nValue, isFinal := true, isConfirmed := true, isFromMe := false
      blocksToMaturity := 0, depthInMainChain := 10, isSpent := fun _ => false }
  isMine _ := true
  isLocked := false
  choices := plainChoices
  getTransaction _ := none
  signSignature _ _ _ := some []
  commitTransaction _ := true
  nBalance := nValue + COIN
  getTxTime _ := 1424304823
  addressStake := none
  nReserveBalance := some 0
  fDisableStake := false
  fCombineDust := true
  nStakeSplitThreshold := 10000
  nHashDrift := 45
  nStakeSetUpdateTime := 300
  fMultiSend := false
  fMultiSendCoinStake := false
  vMultiSend := []

/-- The result of `CreateCoinStake` for the transaction. -/
def stakedResult (nValue : Int64) : Option (Except Fault (Option CTransaction)) :=
  ((stakedWallet nValue).createCoinStake (stakedNode nValue) Crypto.sampleKeyStore 0x01010000
    { nTime := 1424307223 } ⟨[], 0, by simp⟩ 1).map fun result => result.map Prod.fst

/-- The coin stake of the transaction, with the outputs after the first one. -/
def stakedCoinStake (nTime : UInt32) (values : List Int64) : CTransaction :=
  let scriptPubKey := CScript.pushOpcode (CScript.pushData [] (List.replicate 33 2)) OP_CHECKSIG
  { nTime, vin := [{ prevout := { hash := 9, n := 0 } }]
    vout := { nValue := 0 } :: values.map fun nValue => { nValue, scriptPubKey } }

lemma exists_of_stakedResult {nValue : Int64} {tx : CTransaction}
    (h : stakedResult nValue = some (.ok (some tx))) :
    ∃ s', (stakedWallet nValue).createCoinStake (stakedNode nValue) Crypto.sampleKeyStore 0x01010000
      { nTime := 1424307223 } ⟨[], 0, by simp⟩ 1 = some (.ok (some tx, s')) := by
  obtain ⟨result, hresult, h⟩ := Option.map_eq_some_iff.mp h
  match result, h with
  | .ok (tx', s'), h =>
    cases h
    exact ⟨s', hresult⟩

/-- A stake of seventy-two coins. -/
theorem acceptsOutputs_createCoinStake_seventyTwo :
    StakingWallet.AcceptsOutputs (stakedNode (72 * COIN)) (stakedCoinStake 1424308258 [72041095])
      ((stakedWallet (72 * COIN)).valueIn (stakedCoinStake 1424308258 [72041095])) := by
  obtain ⟨s', h⟩ := exists_of_stakedResult (show stakedResult (72 * COIN) =
    some (.ok (some (stakedCoinStake 1424308258 [72041095]))) by decide +kernel)
  obtain ⟨-, nReward, hreward, -, haccepts⟩ :=
    StakingWallet.acceptsOutputs_createCoinStake_iff h
  have hvalue : StakingWallet.stakeReward (stakedNode (72 * COIN))
      (stakedCoinStake 1424308258 [72041095]) = some 41095 := by decide +kernel
  obtain rfl : 41095 = nReward := Option.some.inj (hvalue.symm.trans hreward)
  have hworth : (stakedWallet (72 * COIN)).valueIn (stakedCoinStake 1424308258 [72041095]) =
      72 * COIN := by decide +kernel
  rw [haccepts, hworth]
  exact StakingWallet.fits_of_settings _ (by simp [stakedWallet]) (by simp [stakedWallet])
    (by decide) (by decide) (by decide)

/-- The reward for a stake that is as much as all the money there may be is too much: each half of
the sum is in the money range, and the sum is not. -/
theorem not_acceptsOutputs_createCoinStake :
    ¬ ∀ (wallet : StakingWallet) (node : StakingNode) (keystore : CKeyStore node.crypto)
      (nBits : UInt32) (txNew tx : CTransaction) (s s' : StakeCoins) (rounds : ℕ),
      wallet.createCoinStake node keystore nBits txNew s rounds = some (.ok (some tx, s')) →
        StakingWallet.AcceptsOutputs node tx (wallet.valueIn tx) := by
  intro hall
  obtain ⟨s', h⟩ := exists_of_stakedResult (show stakedResult MAX_MONEY =
    some (.ok (some (stakedCoinStake 1424308258 [30000500000000, 30000500000000]))) by
      decide +kernel)
  have houtputs := (hall _ _ _ _ _ _ _ _ _ h).outputs
  exact absurd houtputs (by decide +kernel)

end HyperStake
