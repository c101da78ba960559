import HyperStake.Library.Int64Sum
import HyperStake.Wallet.CreateTransaction
import HyperStake.Wallet.SelectionRule
import HyperStake.Wallet.Sent

/-!
# What a created transaction pays

The fee loop of `CreateTransaction` ends, since every round but the last raises the fee to the one
for another size, and there are only as many of these as there are kilobytes below the limit.  What
it ends with pays every payee what was asked for, pays the change back or to the fee, and has the fee
that its size asks for, if the payments and the coins of the wallet can be added up in 64 bits.
-/

namespace HyperStake

open Int64Sum ExceptLoop RetryLoop WalletCoins

namespace CreatingWallet

variable {wallet : CreatingWallet}

/-! ## Choosing coins -/

/-- What the wallet holds: its coins are few enough to be counted and added up. -/
structure Countable (wallet : CreatingWallet) (vCoins : List COutput) : Prop where
  available : wallet.availableCoins true = .ok vCoins
  index : ∀ o ∈ vCoins, 0 ≤ o.i
  few : vCoins.length < 2 ^ 32
  worth : ((vCoins.map COutput.coin).map wallet.valueOf).sum < 2 ^ 63 - 1

/-- A part of the coins. -/
structure Part (wallet : CreatingWallet) (vCoins : List COutput) : Prop where
  spendable : wallet.Spendable vCoins
  few : vCoins.length < 2 ^ 32
  worth : ((vCoins.map COutput.coin).map wallet.valueOf).sum < 2 ^ 63 - 1

variable {vCoins : List COutput} {vecSend : List (CScript × Int64)} {nValue nFeeRet : Int64}
  {nSplitBlock : Int32} {coins : List Coin}

lemma spendable_nonneg (h : wallet.Spendable vCoins) :
    ∀ n ∈ (vCoins.map COutput.coin).map wallet.valueOf, 0 ≤ n := by
  intro n hn
  rw [List.map_map] at hn
  obtain ⟨o, ho, rfl⟩ := List.mem_map.mp hn
  obtain ⟨nValue, hholds⟩ := h.holds o ho
  rw [Function.comp_apply, hholds.valueOf_eq]
  obtain ⟨-, -, -, hpos, -⟩ := hholds
  exact (Int64.lt_iff_toInt_lt.mp hpos).le

/-- The coins that are left by a filter. -/
lemma Part.filter (h : wallet.Part vCoins) (p : COutput → Bool) :
    wallet.Part (vCoins.filter p) := by
  have hsub : (vCoins.filter p).Sublist vCoins := List.filter_sublist
  refine ⟨⟨⟨h.spendable.nodup.sublist (hsub.map _), fun o ho => ?_⟩, fun o ho => ?_⟩, ?_, ?_⟩
  · exact h.spendable.holds o (hsub.subset ho)
  · exact h.spendable.index o (hsub.subset ho)
  · exact hsub.length_le.trans_lt h.few
  · refine lt_of_le_of_lt ?_ h.worth
    exact ((hsub.map _).map _).sum_le_sum (spendable_nonneg h.spendable)

lemma Part.eligibleValue_lt (h : wallet.Part vCoins) (nSpendTime : UInt32)
    (nConfMine nConfTheirs : Int32) :
    wallet.eligibleValue nSpendTime nConfMine nConfTheirs vCoins < 2 ^ 63 - 1 :=
  (h.filter (wallet.eligible nSpendTime nConfMine nConfTheirs)).worth

lemma Countable.part (h : wallet.Countable vCoins) : wallet.Part vCoins :=
  ⟨⟨offers_availableCoins h.available, h.index⟩, h.few, h.worth⟩

/-- The coins that coin control leaves. -/
lemma Countable.availableCoinsFor (h : wallet.Countable vCoins)
    (coinControl : Option CCoinControl) :
    ∃ vCoins', wallet.availableCoinsFor true coinControl = .ok vCoins' ∧ wallet.Part vCoins' := by
  rw [CreatingWallet.availableCoinsFor, h.available]
  exact ⟨_, rfl, h.part.filter _⟩

/-- The loop over the coins that coin control selects takes all of them. -/
lemma takeSelected_eq {setCoins : List Coin} (hoffers : wallet.Offers vCoins)
    (hapart : ∀ o ∈ vCoins, o.coin ∉ setCoins) (nValue : Int64) :
    ∃ values : List Int64, wallet.takeSelected vCoins setCoins nValue =
        .ok (setCoins ++ vCoins.map COutput.coin, values.foldl (· + ·) nValue) ∧
      values.map Int64.toInt = (vCoins.map COutput.coin).map wallet.valueOf := by
  induction vCoins generalizing setCoins nValue with
  | nil => exact ⟨[], by simp [takeSelected], rfl⟩
  | cons out vCoins ih =>
    obtain ⟨v, hholds⟩ := hoffers.holds out (List.mem_cons_self ..)
    have hvalueOf := hholds.valueOf_eq
    obtain ⟨txout, hout, hvalue, -⟩ := hholds
    obtain ⟨hnotMem, hnodup⟩ := List.nodup_cons.mp hoffers.nodup
    have hrest : wallet.Offers vCoins :=
      ⟨hnodup, fun o ho => hoffers.holds o (List.mem_cons_of_mem _ ho)⟩
    have hinsert : insertCoin setCoins (out.tx, out.i.toUInt32) = setCoins ++ [out.coin] :=
      if_neg (hapart out (List.mem_cons_self ..))
    have hapart' : ∀ o ∈ vCoins, o.coin ∉ setCoins ++ [out.coin] := by
      intro o ho hmem
      rcases List.mem_append.mp hmem with hmem | hmem
      · exact hapart o (List.mem_cons_of_mem _ ho) hmem
      · exact hnotMem (List.mem_singleton.mp hmem ▸ List.mem_map_of_mem ho)
    obtain ⟨values, htake, hvalues⟩ := ih hrest hapart' (nValue + txout.nValue)
    refine ⟨txout.nValue :: values, ?_, ?_⟩
    · obtain ⟨pcoin, hpcoin, hget⟩ := Option.bind_eq_some_iff.mp hout
      rw [takeSelected]
      have hpcoin' : wallet.mapWallet[out.tx]? = some pcoin := hpcoin
      have hget' : pcoin.tx.vout[out.i.toUInt32.toNat]? = some txout := hget
      rw [hpcoin']
      dsimp only
      rw [hget']
      dsimp only
      rw [hinsert, htake, List.append_assoc]
      rfl
    · rw [List.map_cons, hvalues, List.map_cons, List.map_cons, hvalueOf, hvalue]

lemma takeSelected_selected (h : wallet.Part vCoins) :
    ∃ nValueRet, wallet.takeSelected vCoins [] 0 = .ok (vCoins.map COutput.coin, nValueRet) ∧
      Selected wallet.toWalletCoins (vCoins.map COutput.coin) nValueRet := by
  obtain ⟨values, htake, hvalues⟩ :=
    takeSelected_eq h.spendable.toOffers (fun _ _ => List.not_mem_nil) 0
  refine ⟨_, htake, h.spendable.nodup, ?_, ?_, ?_⟩
  · intro coin hcoin
    obtain ⟨o, ho, rfl⟩ := List.mem_map.mp hcoin
    obtain ⟨nValue, txout, hout, -⟩ := h.spendable.holds o ho
    exact ⟨txout, hout⟩
  · intro coin hcoin
    obtain ⟨o, ho, rfl⟩ := List.mem_map.mp hcoin
    obtain ⟨nValue, txout, -, -, -, hindex⟩ := h.spendable.holds o ho
    exact hindex
  · have htotal : total values = ((vCoins.map COutput.coin).map wallet.valueOf).sum := by
      rw [total, hvalues]
    have hnonneg : 0 ≤ total values := by
      rw [htotal]
      exact List.sum_nonneg (spendable_nonneg h.spendable)
    have hlt := h.worth
    rw [← htotal] at hlt ⊢
    exact toInt_foldl_add ⟨by omega, by omega⟩

/-- The result of a selection: nothing, or coins that have the value and reach the target. -/
def Reaches (wallet : CreatingWallet) (nTargetValue : Int64)
    (selected : Option (List Coin × Int64)) : Prop :=
  ∀ setCoins nValueIn, selected = some (setCoins, nValueIn) →
    Selected wallet.toWalletCoins setCoins nValueIn ∧ nTargetValue ≤ nValueIn

/-- The calls of `SelectCoinsMinConf` return. -/
lemma selectCoinsLoop_eq (h : wallet.Part vCoins) {nTargetValue : Int64}
    (hcent : nTargetValue.toInt + CENT.toInt < 2 ^ 63) (choices : ℕ → Choices)
    (nSpendTime : UInt32) (confs : List (Int32 × Int32)) (call : ℕ) :
    ∃ selected, wallet.selectCoinsLoop choices nTargetValue nSpendTime vCoins confs call =
      .ok selected ∧ wallet.Reaches nTargetValue selected := by
  induction confs generalizing call with
  | nil => exact ⟨none, rfl, nofun⟩
  | cons conf confs ih =>
    obtain ⟨nConfMine, nConfTheirs⟩ := conf
    have hlt := h.eligibleValue_lt nSpendTime nConfMine nConfTheirs
    obtain ⟨r, hr, -⟩ := selectCoinsMinConf_cases (choices call) h.spendable h.few hcent hlt
    rw [selectCoinsLoop, hr]
    match r with
    | none => exact ih (call + 1)
    | some selected =>
      refine ⟨some selected, rfl, fun setCoins nValueIn heq => ?_⟩
      cases heq
      exact selectCoinsMinConf_selected (choices call) h.spendable hcent hlt hr

/-- `SelectCoins` returns. -/
lemma selectCoins_eq (h : wallet.Countable vCoins) {nTargetValue : Int64}
    (hcent : nTargetValue.toInt + CENT.toInt < 2 ^ 63) (choices : ℕ → Choices)
    (nSpendTime : UInt32) (coinControl : Option CCoinControl) :
    ∃ selected, wallet.selectCoins choices nTargetValue nSpendTime coinControl = .ok selected ∧
      wallet.Reaches nTargetValue selected := by
  obtain ⟨vCoins', havailable, hpart⟩ := h.availableCoinsFor coinControl
  rw [selectCoins, havailable]
  by_cases hselected : coinControl.any CCoinControl.hasSelected = true
  · obtain ⟨nValueRet, htake, hvalue⟩ := takeSelected_selected hpart
    simp only [hselected, if_true, htake, bind, Except.bind, pure, Except.pure]
    refine ⟨_, rfl, fun setCoins nValueIn heq => ?_⟩
    split_ifs at heq with hge
    cases heq
    exact ⟨hvalue, hge⟩
  · simp only [hselected, if_false, bind, Except.bind, Bool.false_eq_true]
    exact selectCoinsLoop_eq hpart hcent choices nSpendTime _ 0

/-! ## The outputs -/

/-- The sum of the payments is the integer sum, if that is in range. -/
lemma sumPayees_eq {nStart : Int64} (h : sumPayees vecSend nStart = some nValue) :
    nValue = (vecSend.map Prod.snd).foldl (· + ·) nStart ∧ 0 ≤ nValue := by
  induction vecSend generalizing nStart with
  | nil =>
    rw [sumPayees] at h
    split_ifs at h with hneg
    cases h
    exact ⟨rfl, Int64.not_lt.mp hneg⟩
  | cons s vecSend ih =>
    rw [sumPayees] at h
    split_ifs at h
    exact ih h

/-- A value and its parts: the last part has the remainder. -/
lemma toInt_parts (nValue : Int64) {d : Int64} (hd : 1 ≤ d.toInt) :
    (nValue / d).toInt = nValue.toInt.tdiv d.toInt ∧
      ((nValue / d).toUInt64 + (nValue % d).toUInt64).toInt64.toInt =
        nValue.toInt.tdiv d.toInt + nValue.toInt.tmod d.toInt := by
  have hne : d ≠ -1 := by
    rintro rfl
    exact absurd hd (by decide)
  have hdiv : (nValue / d).toInt = nValue.toInt.tdiv d.toInt := Int64.toInt_div_of_ne_right _ _ hne
  have hmod : (nValue % d).toInt = nValue.toInt.tmod d.toInt := Int64.toInt_mod _ _
  have hsplit := Int.mul_tdiv_add_tmod nValue.toInt d.toInt
  have hge := nValue.le_toInt
  have hlt := nValue.toInt_lt
  have hadd : ((nValue / d).toUInt64 + (nValue % d).toUInt64).toInt64 = nValue / d + nValue % d := rfl
  refine ⟨hdiv, ?_⟩
  rw [hadd, ← hdiv, ← hmod]
  refine toInt_add ?_
  rw [hdiv, hmod]
  -- both parts have the sign of the value
  rcases le_total 0 nValue.toInt with hpos | hneg
  · have hq : 0 ≤ nValue.toInt.tdiv d.toInt := Int.tdiv_nonneg hpos (by omega)
    have hr : 0 ≤ nValue.toInt.tmod d.toInt := Int.tmod_nonneg _ hpos
    have hle : nValue.toInt.tdiv d.toInt ≤ d.toInt * nValue.toInt.tdiv d.toInt :=
      le_mul_of_one_le_left hq hd
    exact ⟨by omega, by omega⟩
  · have hq : 0 ≤ (-nValue.toInt).tdiv d.toInt := Int.tdiv_nonneg (by omega) (by omega)
    have hr : 0 ≤ (-nValue.toInt).tmod d.toInt := Int.tmod_nonneg _ (by omega)
    rw [Int.neg_tdiv] at hq
    rw [Int.neg_tmod] at hr
    have hle : -nValue.toInt.tdiv d.toInt ≤ d.toInt * -nValue.toInt.tdiv d.toInt :=
      le_mul_of_one_le_left hq hd
    rw [mul_neg] at hle
    exact ⟨by omega, by omega⟩

/-- The values of the outputs to a payee add up to what is asked for. -/
lemma total_payeeOutputs (hsplit : 1 ≤ nSplitBlock.toInt) (s : CScript × Int64) :
    total ((wallet.payeeOutputs nSplitBlock s).map CTxOut.nValue) = s.2.toInt := by
  rw [payeeOutputs]
  by_cases hfSplit : wallet.fSplitBlock = true
  · obtain ⟨n, hn⟩ : ∃ n : ℕ, nSplitBlock.toInt = (n + 1 : ℕ) :=
      ⟨nSplitBlock.toInt.toNat - 1, by omega⟩
    have hcount : nSplitBlock.toInt.toNat = n + 1 := by omega
    have hd : nSplitBlock.toInt64.toInt = (n + 1 : ℕ) := by rw [Int32.toInt_toInt64, hn]
    obtain ⟨hpart, hlast⟩ := toInt_parts s.2 (d := nSplitBlock.toInt64) (by omega)
    have hsum := Int.mul_tdiv_add_tmod s.2.toInt nSplitBlock.toInt64.toInt
    rw [hfSplit, Bool.not_true, if_neg Bool.false_ne_true, hcount, List.range_succ, List.map_append,
      List.map_append, total_append]
    have hfirst : ((List.range n).map fun nCount =>
        if nCount + 1 = n + 1 then
          ({ nValue := ((s.2 / nSplitBlock.toInt64).toUInt64 +
              (s.2 % nSplitBlock.toInt64).toUInt64).toInt64, scriptPubKey := s.1 } : CTxOut)
        else { nValue := s.2 / nSplitBlock.toInt64, scriptPubKey := s.1 }) =
          List.replicate n { nValue := s.2 / nSplitBlock.toInt64, scriptPubKey := s.1 } := by
      refine List.eq_replicate_iff.mpr ⟨by simp, fun txout htxout => ?_⟩
      obtain ⟨nCount, hmem, rfl⟩ := List.mem_map.mp htxout
      have hlt := List.mem_range.mp hmem
      rw [if_neg (by omega)]
    dsimp only at hfirst ⊢
    rw [hfirst]
    simp only [List.map_replicate, List.map_cons, List.map_nil, if_true, total_cons, total_nil]
    rw [hlast]
    have hrep : total (List.replicate n (s.2 / nSplitBlock.toInt64)) =
        n * s.2.toInt.tdiv nSplitBlock.toInt64.toInt := by
      rw [total, List.map_replicate, List.sum_replicate, hpart, nsmul_eq_mul]
    rw [hrep]
    rw [hd] at hsum ⊢
    push_cast at hsum ⊢
    linarith
  · rw [Bool.eq_false_iff.mpr hfSplit]
    simp

/-- How many outputs a payee gets, and to which script. -/
lemma payeeOutputs_spec (nSplitBlock : Int32) (s : CScript × Int64) :
    (wallet.payeeOutputs nSplitBlock s).length =
        (if wallet.fSplitBlock then nSplitBlock.toInt.toNat else 1) ∧
      ∀ txout ∈ wallet.payeeOutputs nSplitBlock s, txout.scriptPubKey = s.1 := by
  rw [payeeOutputs]
  by_cases hfSplit : wallet.fSplitBlock = true
  · rw [hfSplit, Bool.not_true, if_neg Bool.false_ne_true, if_pos rfl, List.length_map,
      List.length_range]
    refine ⟨rfl, fun txout htxout => ?_⟩
    obtain ⟨nCount, -, rfl⟩ := List.mem_map.mp htxout
    split_ifs <;> rfl
  · rw [Bool.eq_false_iff.mpr hfSplit]
    simp

/-- The outputs to all payees. -/
lemma total_flatMap_payeeOutputs (hsplit : 1 ≤ nSplitBlock.toInt)
    (vecSend : List (CScript × Int64)) :
    total ((vecSend.flatMap (wallet.payeeOutputs nSplitBlock)).map CTxOut.nValue) =
      total (vecSend.map Prod.snd) := by
  induction vecSend with
  | nil => rfl
  | cons s vecSend ih =>
    rw [List.flatMap_cons, List.map_append, total_append, total_payeeOutputs hsplit, ih, List.map_cons,
      total_cons]

lemma length_flatMap_payeeOutputs (nSplitBlock : Int32) (vecSend : List (CScript × Int64)) :
    (vecSend.flatMap (wallet.payeeOutputs nSplitBlock)).length =
      vecSend.length * if wallet.fSplitBlock then nSplitBlock.toInt.toNat else 1 := by
  induction vecSend with
  | nil => simp
  | cons s vecSend ih =>
    rw [List.flatMap_cons, List.length_append, ih, (wallet.payeeOutputs_spec nSplitBlock s).1,
      List.length_cons, Nat.succ_mul, Nat.add_comm]

/-- The address for the change is found. -/
lemma utxoAddress_eq (h : ∀ coin ∈ coins, ∃ txout, wallet.output coin = some txout)
    (address : CTxDestination) : ∃ address', wallet.utxoAddress coins address = .ok address' := by
  induction coins generalizing address with
  | nil => exact ⟨address, rfl⟩
  | cons coin coins ih =>
    obtain ⟨txout, hout⟩ := h coin (List.mem_cons_self ..)
    rw [utxoAddress, hout]
    exact ih (fun coin' hmem => h coin' (List.mem_cons_of_mem _ hmem)) _

/-- Moving small change to the fee keeps their sum, and leaves no small change. -/
lemma moveToFee_spec {nChange : Int64} (hchange : 0 ≤ nChange.toInt) (hfee : 0 ≤ nFeeRet.toInt)
    (hsmall : nFeeRet.toInt + 20 < 2 ^ 63) :
    (moveToFee nChange nFeeRet).1.toInt + (moveToFee nChange nFeeRet).2.toInt =
        nChange.toInt + nFeeRet.toInt ∧
      nFeeRet.toInt ≤ (moveToFee nChange nFeeRet).2.toInt ∧
      (moveToFee nChange nFeeRet).2.toInt ≤ nFeeRet.toInt + 20 ∧
      ((moveToFee nChange nFeeRet).1.toInt = 0 ∨
        MIN_TXOUT_AMOUNT.toInt ≤ (moveToFee nChange nFeeRet).1.toInt) := by
  have hmin : MIN_TX_FEE.toInt = 10 := by decide
  have hamount : MIN_TXOUT_AMOUNT.toInt = 10 := by decide
  have hlt := nChange.toInt_lt
  -- the first move
  obtain ⟨nChange', nFeeRet', hfirst, hsum, hge, hle, hnonneg⟩ : ∃ nChange' nFeeRet' : Int64,
      (if nFeeRet < MIN_TX_FEE ∧ nChange > 0 ∧ nChange < CENT then
        (nChange - min nChange (MIN_TX_FEE - nFeeRet),
          nFeeRet + min nChange (MIN_TX_FEE - nFeeRet))
      else (nChange, nFeeRet)) = (nChange', nFeeRet') ∧
      nChange'.toInt + nFeeRet'.toInt = nChange.toInt + nFeeRet.toInt ∧
      nFeeRet.toInt ≤ nFeeRet'.toInt ∧ nFeeRet'.toInt ≤ nFeeRet.toInt + 10 ∧ 0 ≤ nChange'.toInt := by
    by_cases hmove : nFeeRet < MIN_TX_FEE ∧ nChange > 0 ∧ nChange < CENT
    · have hlow := Int64.lt_iff_toInt_lt.mp hmove.1
      have hpos := Int64.lt_iff_toInt_lt.mp hmove.2.1
      have hzero : (0 : Int64).toInt = 0 := rfl
      have hsub : (MIN_TX_FEE - nFeeRet).toInt = 10 - nFeeRet.toInt := by
        rw [toInt_sub ⟨by omega, by omega⟩, hmin]
      obtain ⟨nMove, hmin', hle, hleFee⟩ : ∃ nMove, min nChange (MIN_TX_FEE - nFeeRet) = nMove ∧
          nMove.toInt ≤ nChange.toInt ∧ 0 < nMove.toInt ∧ nMove.toInt ≤ 10 - nFeeRet.toInt := by
        refine ⟨_, rfl, ?_⟩
        rw [toInt_min, hsub]
        omega
      rw [if_pos hmove, hmin']
      refine ⟨_, _, rfl, ?_⟩
      rw [toInt_sub ⟨by omega, by omega⟩, toInt_add ⟨by omega, by omega⟩]
      omega
    · rw [if_neg hmove]
      exact ⟨_, _, rfl, by omega⟩
  rw [moveToFee, hfirst]
  dsimp only
  by_cases hdust : nChange' > 0 ∧ nChange' < MIN_TXOUT_AMOUNT
  · have hpos := Int64.lt_iff_toInt_lt.mp hdust.1
    have hlow := Int64.lt_iff_toInt_lt.mp hdust.2
    have hzero : (0 : Int64).toInt = 0 := rfl
    rw [if_pos hdust]
    dsimp only
    rw [toInt_add ⟨by omega, by omega⟩]
    omega
  · rw [if_neg hdust]
    dsimp only
    refine ⟨hsum, hge, by omega, ?_⟩
    by_contra hnot
    rw [not_or, not_le] at hnot
    have hzero : (0 : Int64).toInt = 0 := rfl
    exact hdust ⟨Int64.lt_iff_toInt_lt.mpr (by omega), Int64.lt_iff_toInt_lt.mpr hnot.2⟩

/-- Inputs of the wallet are signed, or `CreateTransaction` returns false. -/
lemma signInputs_eq (h : ∀ coin ∈ coins, ∃ txout, wallet.output coin = some txout) (nIn : ℕ)
    (tx : CTransaction) :
    wallet.signInputs coins nIn tx = .error .notSigned ∨
      ∃ tx', wallet.signInputs coins nIn tx = .ok tx' := by
  induction coins generalizing nIn tx with
  | nil => exact Or.inr ⟨tx, rfl⟩
  | cons coin coins ih =>
    obtain ⟨txout, hout⟩ := h coin (List.mem_cons_self ..)
    obtain ⟨pcoin, hpcoin, -⟩ := Option.bind_eq_some_iff.mp hout
    rw [SpendingWallet.signInputs, hpcoin]
    dsimp only
    cases wallet.signSignature pcoin.tx tx nIn with
    | none => exact Or.inl rfl
    | some scriptSig => exact ih (fun coin' hmem => h coin' (List.mem_cons_of_mem _ hmem)) _ _

/-- The change is inserted somewhere, if there is some. -/
lemma insertChange_eq {vout : List CTxOut} (hpos : vout ≠ []) (hlt : vout.length < 2 ^ 31)
    (round : ℕ) {nChange : Int64}
    (hchange : nChange.toInt = 0 ∨ MIN_TXOUT_AMOUNT.toInt ≤ nChange.toInt)
    (scriptPubKey : CScript) :
    ∃ vout' change, wallet.insertChange round vout nChange scriptPubKey = .ok vout' ∧
      vout'.Perm (vout ++ change) ∧ change.length ≤ 1 ∧
      (∀ txout ∈ change, MIN_TXOUT_AMOUNT.toInt ≤ txout.nValue.toInt) ∧
      total (change.map CTxOut.nValue) = nChange.toInt := by
  have hamount : MIN_TXOUT_AMOUNT.toInt = 10 := by decide
  have hzero : (0 : Int64).toInt = 0 := rfl
  have hposition := (wallet.getRandInt_lt round _ (List.length_pos_iff.mpr hpos) hlt).le
  rw [insertChange]
  by_cases hsome : nChange > 0
  · have hlt := Int64.lt_iff_toInt_lt.mp hsome
    have hchange' : MIN_TXOUT_AMOUNT.toInt ≤ nChange.toInt := by omega
    rw [if_pos hsome, if_pos hposition]
    refine ⟨_, [{ nValue := nChange, scriptPubKey }], rfl, ?_, le_refl _, by simpa using hchange',
      by simp⟩
    exact (List.perm_insertIdx _ _ hposition).trans (List.perm_append_singleton _ _).symm
  · rw [if_neg hsome]
    rw [gt_iff_lt, Int64.lt_iff_toInt_lt] at hsome
    refine ⟨vout, [], rfl, by simp, Nat.zero_le _, by simp, ?_⟩
    rw [List.map_nil, total_nil]
    omega

/-! ## The fee -/

/-- The number of kilobytes that a size is charged for. -/
lemma toInt_kilobytes (nBytes : UInt32) :
    (1 + nBytes.toUInt64.toInt64 / 1000 : Int64).toInt = 1 + (nBytes.toNat / 1000 : ℕ) := by
  have hlt := nBytes.toNat_lt
  have hbytes : nBytes.toUInt64.toInt64.toInt = nBytes.toNat := by
    rw [toInt_toInt64 (by rw [UInt32.toNat_toUInt64]; omega), UInt32.toNat_toUInt64]
  have hdiv : (nBytes.toUInt64.toInt64 / 1000 : Int64).toInt = (nBytes.toNat / 1000 : ℕ) := by
    have hthousand : (1000 : Int64).toInt = 1000 := rfl
    rw [Int64.toInt_div_of_ne_right _ _ (by decide), hbytes, hthousand,
      Int.tdiv_eq_ediv_of_nonneg (by omega)]
    norm_cast
  have hone : (1 : Int64).toInt = 1 := rfl
  rw [toInt_add ⟨by omega, by omega⟩, hone, hdiv]

/-- The highest fee that a round starts with. -/
def highestFee (wallet : CreatingWallet) : ℤ := max 1000 (100 * wallet.nTransactionFee.toInt)

lemma toInt_payFee (hfee : 0 ≤ wallet.nTransactionFee.toInt) (hsmall : wallet.highestFee < 2 ^ 63)
    {nBytes : UInt32} (hbytes : nBytes.toNat < 100000) :
    (wallet.payFee nBytes).toInt =
      wallet.nTransactionFee.toInt * (1 + (nBytes.toNat / 1000 : ℕ)) := by
  have hkilo : (1 + (nBytes.toNat / 1000 : ℕ) : ℤ) ≤ 100 := by omega
  have hmul : wallet.nTransactionFee.toInt * (1 + (nBytes.toNat / 1000 : ℕ)) ≤
      wallet.nTransactionFee.toInt * 100 := mul_le_mul_of_nonneg_left hkilo hfee
  have hnonneg : 0 ≤ wallet.nTransactionFee.toInt * (1 + (nBytes.toNat / 1000 : ℕ)) :=
    mul_nonneg hfee (by omega)
  have hhighest : 100 * wallet.nTransactionFee.toInt ≤ wallet.highestFee := le_max_right _ _
  rw [payFee, Int64.toInt_mul, toInt_kilobytes]
  exact bmod_eq_of_inRange ⟨by omega, by omega⟩

lemma toInt_getMinFee (tx : CTransaction) (nBytes : UInt32) :
    (tx.getMinFee 1 false nBytes).toInt = 10 * (1 + (nBytes.toNat / 1000 : ℕ)) := by
  have hlt := nBytes.toNat_lt
  have hmin : MIN_TX_FEE.toInt = 10 := by decide
  have hmoney : MAX_MONEY.toInt = 60000000000000 := by decide
  have hvalue : ((1 + nBytes.toUInt64.toInt64 / 1000) * MIN_TX_FEE : Int64).toInt =
      (1 + (nBytes.toNat / 1000 : ℕ)) * 10 := by
    rw [Int64.toInt_mul, toInt_kilobytes, hmin]
    exact bmod_eq_of_inRange ⟨by omega, by omega⟩
  have hnotLess : ¬ ((1 + nBytes.toUInt64.toInt64 / 1000) * MIN_TX_FEE : Int64) < MIN_TX_FEE := by
    rw [Int64.lt_iff_toInt_lt, hvalue, hmin]
    omega
  have hrange : moneyRange ((1 + nBytes.toUInt64.toInt64 / 1000) * MIN_TX_FEE) = true := by
    rw [CTransaction.moneyRange_iff, hvalue, hmoney]
    omega
  simp only [CTransaction.getMinFee, Bool.false_eq_true, if_false, hnotLess, false_and, ne_eq,
    not_true_eq_false, hrange, if_true]
  rw [toInt_max, hvalue, hmin]
  omega

/-- The fee that is needed for a number of kilobytes. -/
def neededFee (wallet : CreatingWallet) (kilobytes : ℕ) : ℤ :=
  max (wallet.nTransactionFee.toInt * (1 + kilobytes)) (10 * (1 + kilobytes))

lemma neededFee_le (hfee : 0 ≤ wallet.nTransactionFee.toInt) {kilobytes : ℕ}
    (hkilo : kilobytes < 100) : wallet.neededFee kilobytes ≤ wallet.highestFee := by
  have hmul : wallet.nTransactionFee.toInt * (1 + kilobytes) ≤ wallet.nTransactionFee.toInt * 100 :=
    mul_le_mul_of_nonneg_left (by omega) hfee
  refine max_le ?_ ?_
  · exact (by omega : _ ≤ 100 * wallet.nTransactionFee.toInt).trans (le_max_right _ _)
  · exact (by omega : 10 * (1 + (kilobytes : ℤ)) ≤ 1000).trans (le_max_left _ _)

lemma toInt_needed (hfee : 0 ≤ wallet.nTransactionFee.toInt) (hsmall : wallet.highestFee < 2 ^ 63)
    (tx : CTransaction) {nBytes : UInt32} (hbytes : nBytes.toNat < 100000) :
    (max (wallet.payFee nBytes) (tx.getMinFee 1 false nBytes)).toInt =
      wallet.neededFee (nBytes.toNat / 1000) := by
  rw [toInt_max, toInt_payFee hfee hsmall hbytes, toInt_getMinFee, neededFee]

/-! ## A round of the fee loop -/

/-- What a created transaction is: it spends what it pays and the fee, every payee gets what was
asked for, there is at most one output besides those to the payees, which is not a small one, and the
fee is enough for the size. -/
structure IsPayment (wallet : CreatingWallet) (vecSend : List (CScript × Int64))
    (nSplitBlock : Int32) (tx : CTransaction) (nFeeRet : Int64) : Prop where
  conserved : (tx.vin.map fun txin => wallet.valueOf (txin.prevout.hash, txin.prevout.n)).sum =
    total (tx.vout.map CTxOut.nValue) + nFeeRet.toInt
  outputs : ∃ change : List CTxOut,
    tx.vout.Perm (vecSend.flatMap (wallet.payeeOutputs nSplitBlock) ++ change) ∧
      change.length ≤ 1 ∧ ∀ txout ∈ change, MIN_TXOUT_AMOUNT.toInt ≤ txout.nValue.toInt
  payees : ∀ s ∈ vecSend,
    total ((wallet.payeeOutputs nSplitBlock s).map CTxOut.nValue) = s.2.toInt ∧
      (∀ txout ∈ wallet.payeeOutputs nSplitBlock s, txout.scriptPubKey = s.1) ∧
      (wallet.payeeOutputs nSplitBlock s).length =
        if wallet.fSplitBlock then nSplitBlock.toInt.toNat else 1
  payFee : (wallet.payFee (UInt32.ofNat tx.serialize.length)).toInt ≤ nFeeRet.toInt
  minFee : (tx.getMinFee 1 false (UInt32.ofNat tx.serialize.length)).toInt ≤ nFeeRet.toInt

/-- The payments, the highest fee and one `CENT` can be added up, and the outputs can be counted. -/
structure Payable (wallet : CreatingWallet) (vecSend : List (CScript × Int64))
    (nSplitBlock : Int32) : Prop where
  fee_nonneg : 0 ≤ wallet.nTransactionFee.toInt
  fee_lt : wallet.highestFee < 2 ^ 63
  total_ge : -2 ^ 63 ≤ total (vecSend.map Prod.snd)
  total_lt : total (vecSend.map Prod.snd) + wallet.highestFee + CENT.toInt < 2 ^ 63
  few : vecSend.length * (if wallet.fSplitBlock then nSplitBlock.toInt.toNat else 1) < 2 ^ 31

/-- The end of a round: the loop ends with the signed transaction or with nothing, or it goes on with
the fee for the size. -/
lemma signAndCheck_cases (hpayable : wallet.Payable vecSend nSplitBlock)
    (hcoins : ∀ coin ∈ coins, ∃ txout, wallet.output coin = some txout) (wtxNew : CTransaction)
    (nFeeRet : Int64) :
    wallet.signAndCheck coins wtxNew nFeeRet = .ok (.done { wtxNew := none, nFeeRet }) ∨
      (∃ tx, wallet.signAndCheck coins wtxNew nFeeRet =
          .ok (.done { wtxNew := some tx, nFeeRet }) ∧
        wallet.signInputs coins 0 wtxNew = .ok tx ∧
        (wallet.payFee (UInt32.ofNat tx.serialize.length)).toInt ≤ nFeeRet.toInt ∧
        (tx.getMinFee 1 false (UInt32.ofNat tx.serialize.length)).toInt ≤ nFeeRet.toInt) ∨
      ∃ nNeeded, wallet.signAndCheck coins wtxNew nFeeRet = .ok (.again nNeeded) ∧
        nFeeRet.toInt < nNeeded.toInt ∧
        ∃ kilobytes < 100, nNeeded.toInt = wallet.neededFee kilobytes := by
  rw [signAndCheck]
  rcases wallet.signInputs_eq hcoins 0 wtxNew with hsign | ⟨tx, hsign⟩
  · rw [hsign]
    exact Or.inl rfl
  rw [hsign]
  dsimp only
  by_cases hsize : UInt32.ofNat tx.serialize.length ≥ MAX_BLOCK_SIZE_GEN / 5
  · rw [if_pos hsize]
    exact Or.inl rfl
  rw [if_neg hsize]
  have hlimit : (MAX_BLOCK_SIZE_GEN / 5).toNat = 100000 := by decide
  have hbytes : (UInt32.ofNat tx.serialize.length).toNat < 100000 := by
    rw [ge_iff_le, UInt32.le_iff_toNat_le, hlimit] at hsize
    exact not_le.mp hsize
  have hneeded := toInt_needed hpayable.fee_nonneg hpayable.fee_lt tx hbytes
  by_cases hless : nFeeRet < max (wallet.payFee (UInt32.ofNat tx.serialize.length))
      (tx.getMinFee 1 false (UInt32.ofNat tx.serialize.length))
  · rw [if_pos hless]
    rw [Int64.lt_iff_toInt_lt] at hless
    exact Or.inr (Or.inr ⟨_, rfl, hless, _, by omega, hneeded⟩)
  · rw [if_neg hless]
    rw [Int64.lt_iff_toInt_lt, toInt_max, not_lt] at hless
    exact Or.inr (Or.inl ⟨tx, rfl, rfl, (le_max_left _ _).trans hless, (le_max_right _ _).trans hless⟩)

/-- The inputs of a transaction have the value that was selected for it. -/
lemma sum_valueOf_vin {tx : CTransaction}
    (hvin : tx.vin.map CTxIn.prevout = coins.map fun coin => { hash := coin.1, n := coin.2 }) :
    (tx.vin.map fun txin => wallet.valueOf (txin.prevout.hash, txin.prevout.n)).sum =
      (coins.map wallet.valueOf).sum := by
  have hmap : tx.vin.map (fun txin => wallet.valueOf (txin.prevout.hash, txin.prevout.n)) =
      (tx.vin.map CTxIn.prevout).map fun prevout => wallet.valueOf (prevout.hash, prevout.n) := by
    rw [List.map_map]
    rfl
  rw [hmap, hvin, List.map_map]
  rfl

/-- A round ends the loop, with a payment or with nothing, or it raises the fee to the one for the
size. -/
lemma feeRound_cases (hcoins : wallet.Countable vCoins)
    (hpayable : wallet.Payable vecSend nSplitBlock) (hne : vecSend ≠ [])
    (hsplit : 1 ≤ nSplitBlock.toInt) (hnonneg : 0 ≤ nValue.toInt)
    (hvalue : nValue.toInt = total (vecSend.map Prod.snd)) (wtxNew : CTransaction)
    (coinControl : Option CCoinControl) (round : ℕ) (hfee : 0 ≤ nFeeRet.toInt)
    (hfeeLe : nFeeRet.toInt ≤ wallet.highestFee) :
    (∃ created, wallet.feeRound vecSend wtxNew nSplitBlock coinControl nValue round nFeeRet =
        .ok (.done created) ∧ ∀ tx, created.wtxNew = some tx →
          wallet.IsPayment vecSend nSplitBlock tx created.nFeeRet) ∨
      ∃ nNeeded, wallet.feeRound vecSend wtxNew nSplitBlock coinControl nValue round nFeeRet =
        .ok (.again nNeeded) ∧ nFeeRet.toInt < nNeeded.toInt ∧
          ∃ kilobytes < 100, nNeeded.toInt = wallet.neededFee kilobytes := by
  have htotal := hpayable.total_lt
  have hcent : CENT.toInt = 10000 := by decide
  have hsum : (nValue + nFeeRet).toInt = nValue.toInt + nFeeRet.toInt :=
    toInt_add ⟨by omega, by omega⟩
  obtain ⟨selected, hselect, hreaches⟩ := selectCoins_eq hcoins
    (show (nValue + nFeeRet).toInt + CENT.toInt < 2 ^ 63 by omega) (wallet.draws round)
    wtxNew.nTime coinControl
  rw [feeRound]
  dsimp only
  rw [hselect]
  match selected with
  | none => exact Or.inl ⟨{ wtxNew := none, nFeeRet }, rfl, nofun⟩
  | some (setCoins, nValueIn) =>
    obtain ⟨hselected, hge⟩ := hreaches setCoins nValueIn rfl
    have hordered := SpendingWallet.selected_perm (wallet.choices.order_perm setCoins) hselected
    rw [Int64.le_iff_toInt_le, hsum] at hge
    have hlt := nValueIn.toInt_lt
    obtain ⟨address, haddress⟩ := wallet.utxoAddress_eq hordered.output .CNoDestination
    have hsub : (nValueIn - nValue - nFeeRet).toInt =
        nValueIn.toInt - nValue.toInt - nFeeRet.toInt := by
      have hfirst : (nValueIn - nValue).toInt = nValueIn.toInt - nValue.toInt :=
        toInt_sub ⟨by omega, by omega⟩
      rw [toInt_sub (by rw [hfirst]; exact ⟨by omega, by omega⟩), hfirst]
    have hleft : 0 ≤ (nValueIn - nValue - nFeeRet).toInt := by omega
    obtain ⟨hmoved, hraised, -, hsmall⟩ := moveToFee_spec hleft hfee (by omega)
    rcases hmove : moveToFee (nValueIn - nValue - nFeeRet) nFeeRet with ⟨nChange, nFee⟩
    rw [hmove] at hmoved hraised hsmall
    dsimp only at hmoved hraised hsmall
    have hlength := wallet.length_flatMap_payeeOutputs nSplitBlock vecSend
    have houtputs : 0 < (vecSend.flatMap (wallet.payeeOutputs nSplitBlock)).length := by
      rw [hlength]
      refine Nat.mul_pos (List.length_pos_iff.mpr hne) ?_
      split_ifs <;> omega
    obtain ⟨vout, change, hvout, hperm, hone, hamount, hchange⟩ := wallet.insertChange_eq
      (List.length_pos_iff.mp houtputs) (hlength.trans_lt hpayable.few) round hsmall
      (wallet.scriptChange round coinControl address)
    simp only [bind, Except.bind, haddress, hmove, hvout]
    rcases wallet.signAndCheck_cases hpayable hordered.output
      { wtxNew with
        vin := (wallet.choices.order setCoins).map fun coin =>
          { prevout := { hash := coin.1, n := coin.2 } }
        vout } nFee with hnone | ⟨tx, hdone, hsign, hpay, hmin⟩ | ⟨nNeeded, hagain, hraise, hrest⟩
    · exact Or.inl ⟨_, hnone, nofun⟩
    · refine Or.inl ⟨_, hdone, fun tx' htx' => ?_⟩
      cases htx'
      obtain ⟨htxout, htxin, -⟩ := SpendingWallet.signInputs_eq_ok hsign
      dsimp only at htxout htxin
      refine ⟨?_, ⟨change, htxout ▸ hperm, hone, hamount⟩, fun s _ => ?_, hpay, hmin⟩
      · have hvin : tx.vin.map CTxIn.prevout = (wallet.choices.order setCoins).map fun coin =>
            { hash := coin.1, n := coin.2 } := by
          rw [htxin, List.map_map]
          rfl
        rw [sum_valueOf_vin hvin, ← hordered.value, htxout, total_perm (hperm.map _), List.map_append,
          total_append, total_flatMap_payeeOutputs hsplit, hchange]
        dsimp only
        omega
      · exact ⟨total_payeeOutputs hsplit s, (wallet.payeeOutputs_spec nSplitBlock s).2,
          (wallet.payeeOutputs_spec nSplitBlock s).1⟩
    · exact Or.inr ⟨nNeeded, hagain, by omega, hrest⟩

/-! ## The whole loop -/

/-- The number of outputs to a payee, if they are split. -/
def splits (nSplitBlock : Int32) : Int32 := if nSplitBlock < 1 then 1 else nSplitBlock

lemma one_le_splits (nSplitBlock : Int32) : 1 ≤ (splits nSplitBlock).toInt := by
  rw [splits]
  split_ifs with hlt
  · decide
  · exact Int32.le_iff_toInt_le.mp (Int32.not_lt.mp hlt)

/-- The fees that the rounds start with. -/
def FeeInRange (wallet : CreatingWallet) (nFeeRet : Int64) : Prop :=
  0 ≤ nFeeRet.toInt ∧ nFeeRet.toInt ≤ wallet.highestFee

/-- The fee loop ends, and what it ends with is a payment. -/
lemma retry_feeRound (hcoins : wallet.Countable vCoins)
    (hpayable : wallet.Payable vecSend nSplitBlock) (hne : vecSend ≠ [])
    (hsplit : 1 ≤ nSplitBlock.toInt) (hnonneg : 0 ≤ nValue.toInt)
    (hvalue : nValue.toInt = total (vecSend.map Prod.snd)) (wtxNew : CTransaction)
    (coinControl : Option CCoinControl) (hfee : wallet.FeeInRange nFeeRet) :
    ∃ created,
      retry (wallet.feeRound vecSend wtxNew nSplitBlock coinControl nValue) 101 0 nFeeRet =
        some (.ok created) ∧
      ∀ tx, created.wtxNew = some tx →
        wallet.IsPayment vecSend nSplitBlock tx created.nFeeRet := by
  have hcases := fun (round : ℕ) (nFee : Int64) (h : wallet.FeeInRange nFee) =>
    wallet.feeRound_cases hcoins hpayable hne hsplit hnonneg hvalue wtxNew coinControl round h.1 h.2
  have hraises : ∀ (round : ℕ) (nFee : Int64), wallet.FeeInRange nFee →
      (∃ created, wallet.feeRound vecSend wtxNew nSplitBlock coinControl nValue round nFee =
        .ok (.done created)) ∨
      ∃ nFee', wallet.feeRound vecSend wtxNew nSplitBlock coinControl nValue round nFee =
        .ok (.again nFee') ∧ wallet.FeeInRange nFee' ∧
          nFee.toInt < nFee'.toInt ∧ nFee'.toInt ∈ (List.range 100).map wallet.neededFee := by
    intro round nFee h
    obtain ⟨created, hdone, -⟩ | ⟨nFee', hagain, hlt, kilobytes, hkilo, hneeded⟩ :=
      hcases round nFee h
    · exact Or.inl ⟨created, hdone⟩
    · refine Or.inr ⟨nFee', hagain, ⟨h.1.trans hlt.le, ?_⟩, hlt,
        List.mem_map.mpr ⟨kilobytes, List.mem_range.mpr hkilo, hneeded.symm⟩⟩
      exact hneeded.trans_le (wallet.neededFee_le hpayable.fee_nonneg hkilo)
  have hagain : ∀ (round : ℕ) (nFee nFee' : Int64), wallet.FeeInRange nFee →
      wallet.feeRound vecSend wtxNew nSplitBlock coinControl nValue round nFee = .ok (.again nFee') →
      wallet.FeeInRange nFee' := by
    intro round nFee nFee' h hround
    obtain ⟨created, hdone⟩ | ⟨nFee'', hagain, h', -⟩ := hraises round nFee h
    · cases hdone.symm.trans hround
    · cases hagain.symm.trans hround
      exact h'
  have hfuel : (((List.range 100).map wallet.neededFee).filter fun v => nFeeRet.toInt < v).length <
      101 := by
    refine Nat.lt_succ_of_le ((List.length_filter_le _ _).trans ?_)
    rw [List.length_map, List.length_range]
  obtain ⟨created, hcreated⟩ := exists_retry_eq wallet.FeeInRange Int64.toInt _ hraises hfee hfuel
  obtain ⟨round, nFee, hnFee, hdone⟩ := exists_round_of_retry wallet.FeeInRange hagain hfee hcreated
  refine ⟨created, hcreated, ?_⟩
  obtain ⟨created', hdone', hpayment⟩ | ⟨nFee', hagain', -⟩ := hcases round nFee hnFee
  · cases hdone'.symm.trans hdone
    exact hpayment
  · cases hagain'.symm.trans hdone

/-- `CreateTransaction` ends after at most 101 rounds, and what it creates is a payment, for every
payee list, split setting and coin control, if the coins of the wallet can be counted and added up,
and so can the payments. -/
theorem createTransaction_spec (wallet : CreatingWallet) (vecSend : List (CScript × Int64))
    (wtxNew : CTransaction) (nFeeRet : Int64) (nSplitBlock : Int32)
    (coinControl : Option CCoinControl) (vCoins : List COutput)
    (hcoins : wallet.Countable vCoins) (hpayable : wallet.Payable vecSend (splits nSplitBlock)) :
    ∃ created, (∀ rounds ≥ 101, wallet.createTransaction vecSend wtxNew nFeeRet nSplitBlock
        coinControl rounds = some (.ok created)) ∧
      ∀ tx, created.wtxNew = some tx →
        wallet.IsPayment vecSend (splits nSplitBlock) tx created.nFeeRet := by
  match hsum : sumPayees vecSend 0 with
  | none =>
    refine ⟨{ wtxNew := none, nFeeRet }, fun rounds _ => ?_, nofun⟩
    rw [createTransaction, hsum]
  | some nValue =>
    by_cases hne : vecSend = []
    · refine ⟨{ wtxNew := none, nFeeRet }, fun rounds _ => ?_, nofun⟩
      rw [createTransaction, hsum]
      exact if_pos hne
    obtain ⟨hfold, hnonneg⟩ := sumPayees_eq hsum
    have htotal : nValue.toInt = total (vecSend.map Prod.snd) := by
      have hge := hpayable.total_ge
      have hlt := hpayable.total_lt
      have hhighest : 1000 ≤ wallet.highestFee := le_max_left _ _
      have hcent : CENT.toInt = 10000 := by decide
      rw [hfold]
      exact toInt_foldl_add ⟨hge, by omega⟩
    have hstart : wallet.FeeInRange (if wallet.fSplitBlock then COIN / 1000 else wallet.nTransactionFee) := by
      have hfee := hpayable.fee_nonneg
      have hhighest : 100 * wallet.nTransactionFee.toInt ≤ wallet.highestFee := le_max_right _ _
      unfold FeeInRange
      split_ifs
      · exact ⟨by decide, (by decide : (COIN / 1000).toInt ≤ 1000).trans (le_max_left _ _)⟩
      · omega
    obtain ⟨created, hcreated, hpayment⟩ := wallet.retry_feeRound hcoins hpayable hne
      (one_le_splits nSplitBlock) (Int64.le_iff_toInt_le.mp hnonneg) htotal wtxNew coinControl hstart
    refine ⟨created, fun rounds hrounds => ?_, hpayment⟩
    obtain ⟨more, rfl⟩ := Nat.exists_eq_add_of_le hrounds
    rw [createTransaction, hsum]
    dsimp only
    rw [if_neg hne]
    exact retry_add hcreated more

end CreatingWallet

/-! ## Payments in range and out of range -/

/-- A wallet with some coins, whose draws are all the first one. -/
def plainWallet (coins : WalletCoins) : CreatingWallet where
  toWalletCoins := coins
  isLocked := false
  choices := plainChoices
  getTransaction _ := none
  signSignature _ _ _ := some []
  commitTransaction _ := true
  crypto := ⟨fun _ => 0, fun _ => 0, fun _ => 0, fun _ _ _ => true⟩
  fSplitBlock := false
  nTransactionFee := MIN_TX_FEE
  draws _ _ := plainChoices
  getRandInt _ _ := 0
  getRandInt_lt _ _ hpos _ := hpos
  getReservedKey _ := 0

/-- A payment from a wallet with one coin. -/
theorem createTransaction_spec_single :
    ∃ created, (∀ rounds ≥ 101, (plainWallet (singleCoin 100000)).createTransaction [([], 5000)] {}
        0 1 none rounds = some (.ok created)) ∧
      ∀ tx, created.wtxNew = some tx → (plainWallet (singleCoin 100000)).IsPayment [([], 5000)]
        (CreatingWallet.splits 1) tx created.nFeeRet :=
  CreatingWallet.createTransaction_spec (plainWallet (singleCoin 100000)) [([], 5000)] {} 0 1 none
    [singleOutput]
    ⟨by decide +kernel, by decide, by decide, by decide +kernel⟩
    ⟨by decide, by decide, by decide, by decide, by decide⟩

/-- A payment out of range wraps around: an empty wallet pays it, with change. -/
theorem createTransaction_out_of_range :
    ¬ ∀ (wallet : CreatingWallet) (vecSend : List (CScript × Int64)) (wtxNew : CTransaction)
      (nFeeRet : Int64) (nSplitBlock : Int32) (coinControl : Option CCoinControl) (rounds : ℕ)
      (created : CreatingWallet.Created) (tx : CTransaction),
      wallet.createTransaction vecSend wtxNew nFeeRet nSplitBlock coinControl rounds =
        some (.ok created) → created.wtxNew = some tx →
      wallet.IsPayment vecSend (CreatingWallet.splits nSplitBlock) tx created.nFeeRet := by
  intro hall
  have hpayment := hall (plainWallet ⟨∅, fun _ => true⟩) [([], Int64.maxValue)] {} 0 1 none 1
    { wtxNew := some { vout := [
        { nValue := Int64.maxValue - 8, scriptPubKey := CScript.setDestination (.CKeyID 0) },
        { nValue := Int64.maxValue }] }
      nFeeRet := 10 } _ (by decide +kernel) rfl
  exact absurd hpayment.conserved (by decide)

end HyperStake
