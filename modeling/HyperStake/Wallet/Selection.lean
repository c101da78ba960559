import HyperStake.Library.Int64Sum
import HyperStake.Library.MapLoop
import HyperStake.Library.MarkedSum
import HyperStake.Wallet.CoinSelection

/-!
# What the selection of coins returns

The coins that `AvailableCoins` lists are different outputs of the wallet with positive values
(`offers_availableCoins`).  The loop of `SelectCoinsMinConf` keeps them apart, the search for a
subset keeps a subset whose sum is its total, and so the selected coins are different ones, their
values add up to the returned value, and that is at least the target (`selectCoinsMinConf_spec`).
-/

namespace HyperStake

open Int64Sum MarkedSum

/-- The coin that an output is. -/
def COutput.coin (o : COutput) : Coin := (o.tx, o.i.toUInt32)

namespace WalletCoins

variable (wallet : WalletCoins)

/-- The value of a coin, zero if the wallet has no such output. -/
def valueOf (coin : Coin) : ℤ :=
  match wallet.output coin with
  | some txout => txout.nValue.toInt
  | none => 0

/-- The wallet has an output with the value that is paired with it, a positive one.  Its index is not
that of the null outpoint. -/
def Holds (coin : Int64 × Coin) : Prop :=
  ∃ txout, wallet.output coin.2 = some txout ∧ txout.nValue = coin.1 ∧ 0 < coin.1 ∧
    coin.2.2 ≠ 0xffffffff

/-- The outputs are different ones of the wallet, with positive values. -/
structure Offers (vCoins : List COutput) : Prop where
  nodup : (vCoins.map COutput.coin).Nodup
  holds : ∀ o ∈ vCoins, ∃ nValue, wallet.Holds (nValue, o.coin)

variable {wallet}

lemma Holds.valueOf_eq {coin : Int64 × Coin} (h : wallet.Holds coin) :
    wallet.valueOf coin.2 = coin.1.toInt := by
  obtain ⟨txout, hout, hvalue, -⟩ := h
  rw [valueOf, hout, ← hvalue]

lemma Offers.perm {vCoins vCoins' : List COutput} (h : wallet.Offers vCoins)
    (hperm : vCoins'.Perm vCoins) : wallet.Offers vCoins' :=
  ⟨(hperm.map COutput.coin).nodup_iff.mpr h.nodup, fun o ho => h.holds o (hperm.mem_iff.mp ho)⟩

/-- The loop of `AvailableCoins`, over the transactions that are left. -/
lemma foldlM_outputsOf_eq_ok {fOnlyConfirmed : Bool} {its : List (UInt256 × CWalletTx)}
    {vCoins vCoins' : List COutput}
    (h : its.foldlM (fun vCoins it =>
      if spendable fOnlyConfirmed it.2 then do
        loopTo it.2.tx.vout.length
        return vCoins ++ wallet.outputsOf it.1 it.2
      else return vCoins) vCoins = Except.ok vCoins') :
    vCoins' = vCoins ++ (its.filter fun it => spendable fOnlyConfirmed it.2).flatMap
        (fun it => wallet.outputsOf it.1 it.2) ∧
      ∀ it ∈ its, spendable fOnlyConfirmed it.2 = true → it.2.tx.vout.length < 2 ^ 32 := by
  induction its generalizing vCoins with
  | nil =>
    rw [List.foldlM_nil] at h
    cases h
    simp
  | cons it its ih =>
    rw [List.foldlM_cons] at h
    cases hspend : spendable fOnlyConfirmed it.2 with
    | false =>
      simp only [hspend, Bool.false_eq_true, if_false, pure_bind] at h
      obtain ⟨heq, hlen⟩ := ih h
      refine ⟨by simpa [hspend] using heq, ?_⟩
      rintro it' (_ | ⟨_, hmem⟩) hspend'
      · rw [hspend] at hspend'
        cases hspend'
      · exact hlen it' hmem hspend'
    | true =>
      by_cases hlt : it.2.tx.vout.length < 2 ^ 32
      · simp only [hspend, if_true, loopTo, hlt, bind, Except.bind, pure, Except.pure] at h
        obtain ⟨heq, hlen⟩ := ih h
        refine ⟨by simpa [hspend] using heq, ?_⟩
        rintro it' (_ | ⟨_, hmem⟩) hspend'
        · exact hlt
        · exact hlen it' hmem hspend'
      · simp only [hspend, if_true, loopTo, hlt, if_false, bind, Except.bind] at h
        cases h

/-- The coins of a transaction, in the order of its outputs. -/
lemma map_coin_outputsOf (pcoin : UInt256) (wtx : CWalletTx) :
    (wallet.outputsOf pcoin wtx).map COutput.coin =
      (wtx.tx.vout.zipIdx.filter fun out =>
        !wtx.isSpent out.2 && wallet.isMine out.1 && decide (out.1.nValue > 0)).map fun out =>
          (pcoin, UInt32.ofNat out.2) := by
  rw [outputsOf, List.map_map]
  rfl

/-- The coins of a transaction are different ones. -/
lemma nodup_map_coin_outputsOf {wtx : CWalletTx} (hlen : wtx.tx.vout.length < 2 ^ 32)
    (pcoin : UInt256) : ((wallet.outputsOf pcoin wtx).map COutput.coin).Nodup := by
  have hnodup : wtx.tx.vout.zipIdx.Nodup := by
    apply List.Nodup.of_map Prod.snd
    rw [List.zipIdx_map_snd]
    exact List.nodup_range'
  rw [map_coin_outputsOf]
  refine List.Nodup.map_on ?_ (hnodup.filter _)
  rintro ⟨out, i⟩ hmem ⟨out', i'⟩ hmem' heq
  obtain ⟨hget, -⟩ := List.mem_filter.mp hmem
  obtain ⟨hget', -⟩ := List.mem_filter.mp hmem'
  rw [List.mem_zipIdx_iff_getElem?] at hget hget'
  have hi : i < UInt32.size := lt_trans (List.getElem?_eq_some_iff.mp hget).1 hlen
  have hi' : i' < UInt32.size := lt_trans (List.getElem?_eq_some_iff.mp hget').1 hlen
  have hidx : i = i' := by
    have hmod := congrArg UInt32.toNat (Prod.mk.inj heq).2
    rwa [UInt32.toNat_ofNat_of_lt' hi, UInt32.toNat_ofNat_of_lt' hi'] at hmod
  subst hidx
  have hout : out = out' := Option.some.inj (hget.symm.trans hget')
  rw [hout]

/-- `AvailableCoins` lists different outputs of the wallet, with positive values. -/
lemma offers_availableCoins {fOnlyConfirmed : Bool} {vCoins : List COutput}
    (h : wallet.availableCoins fOnlyConfirmed = .ok vCoins) : wallet.Offers vCoins := by
  obtain ⟨heq, hlen⟩ := foldlM_outputsOf_eq_ok h
  rw [List.nil_append] at heq
  subst heq
  constructor
  · rw [List.map_flatMap, List.nodup_flatMap]
    constructor
    · intro it hit
      obtain ⟨hmem, hspend⟩ := List.mem_filter.mp hit
      exact nodup_map_coin_outputsOf (hlen it hmem hspend) it.1
    · have hkeys : wallet.mapWallet.toList.Pairwise fun it it' => it.1 ≠ it'.1 :=
        List.pairwise_map.mp (MapLoop.nodup_map_fst_toList wallet.mapWallet)
      refine (hkeys.filter _).imp ?_
      intro it it' hne coin hcoin hcoin'
      dsimp only at hcoin hcoin'
      rw [map_coin_outputsOf] at hcoin hcoin'
      obtain ⟨out, -, rfl⟩ := List.mem_map.mp hcoin
      obtain ⟨out', -, heq⟩ := List.mem_map.mp hcoin'
      exact hne (Prod.mk.inj heq).1.symm
  · intro o ho
    obtain ⟨it, hit, ho⟩ := List.mem_flatMap.mp ho
    obtain ⟨hmem, hspend⟩ := List.mem_filter.mp hit
    obtain ⟨out, hout, rfl⟩ := List.mem_map.mp ho
    obtain ⟨hget, htest⟩ := List.mem_filter.mp hout
    rw [List.mem_zipIdx_iff_getElem?] at hget
    have hi : out.2 < it.2.tx.vout.length := (List.getElem?_eq_some_iff.mp hget).1
    have hlt : out.2 < UInt32.size := lt_trans hi (hlen it hmem hspend)
    have hidx : (UInt32.ofNat out.2).toNat = out.2 := UInt32.toNat_ofNat_of_lt' hlt
    have hkey : wallet.mapWallet[it.1]? = some it.2 :=
      Std.ExtTreeMap.mem_toList_iff_getElem?_eq_some.mp hmem
    refine ⟨out.1.nValue, out.1, ?_, rfl, ?_, ?_⟩
    · change wallet.mapWallet[it.1]?.bind (fun wtx =>
        wtx.tx.vout[(UInt32.ofNat out.2).toInt32.toUInt32.toNat]?) = some out.1
      rw [hkey]
      simpa [hidx] using hget
    · rw [Bool.and_eq_true, decide_eq_true_eq] at htest
      exact htest.2
    · change UInt32.ofNat out.2 ≠ 0xffffffff
      intro hmax
      have hnat := congrArg UInt32.toNat hmax
      have hlenLt := hlen it hmem hspend
      rw [hidx] at hnat
      change out.2 = 4294967295 at hnat
      omega

end WalletCoins

/-! ## The loop over the coins -/

section Loop

variable {wallet : WalletCoins} {nTargetValue : Int64}

/-- The values of the coins. -/
def values (vValue : List (Int64 × Coin)) : List Int64 := vValue.map Prod.fst

/-- What the loop over the coins keeps, with the coins that are left: the smaller coins are
different ones of the wallet, the running sum is theirs, and the larger coin is one of the wallet. -/
structure SelectState.Keeps (wallet : WalletCoins) (nTargetValue : Int64) (vCoins : List COutput)
    (s : SelectState) : Prop where
  holds : ∀ c ∈ s.vValue, wallet.Holds c
  lt : ∀ c ∈ s.vValue, c.1 < nTargetValue + CENT
  nodup : (s.vValue.map Prod.snd).Nodup
  apart : ∀ c ∈ s.vValue, c.2 ∉ vCoins.map COutput.coin
  total : s.nTotalLower = (values s.vValue).foldl (· + ·) 0
  larger : ∀ coin, s.larger = some coin →
    wallet.Holds (s.coinLowestLarger, coin) ∧ nTargetValue + CENT ≤ s.coinLowestLarger

/-- At the start there are no coins. -/
lemma SelectState.keeps_start (vCoins : List COutput) :
    SelectState.Keeps wallet nTargetValue vCoins {} where
  holds := by simp
  lt := by simp
  nodup := by simp
  apart := by simp
  total := rfl
  larger := by simp

namespace SelectState.Keeps

variable {vCoins : List COutput} {o : COutput} {s : SelectState} {n : Int64}

section

variable (h : s.Keeps wallet nTargetValue (o :: vCoins))

include h

/-- A coin is passed over. -/
lemma skip : s.Keeps wallet nTargetValue vCoins :=
  { h with apart := fun c hc hmem => h.apart c hc (List.mem_cons_of_mem _ hmem) }

/-- A smaller coin is noted. -/
lemma smaller (hfresh : o.coin ∉ vCoins.map COutput.coin) (hholds : wallet.Holds (n, o.coin))
    (hlt : n < nTargetValue + CENT) :
    SelectState.Keeps wallet nTargetValue vCoins
      { s with vValue := s.vValue ++ [(n, o.coin)], nTotalLower := s.nTotalLower + n } where
  holds c hc := by
    rcases List.mem_append.mp hc with hc | hc
    · exact h.holds c hc
    · rwa [List.mem_singleton.mp hc]
  lt c hc := by
    rcases List.mem_append.mp hc with hc | hc
    · exact h.lt c hc
    · rwa [List.mem_singleton.mp hc]
  nodup := by
    rw [List.map_append, List.map_singleton]
    refine List.nodup_append.mpr ⟨h.nodup, List.nodup_singleton _, ?_⟩
    intro a ha b hb heq
    obtain ⟨c, hc, rfl⟩ := List.mem_map.mp ha
    refine h.apart c hc ?_
    rw [heq, List.mem_singleton.mp hb]
    exact List.mem_cons_self
  apart c hc := by
    rcases List.mem_append.mp hc with hc | hc
    · exact h.skip.apart c hc
    · rwa [List.mem_singleton.mp hc]
  total := by
    change s.nTotalLower + n = (values (s.vValue ++ [(n, o.coin)])).foldl (· + ·) 0
    rw [values, List.map_append, List.foldl_append, h.total]
    rfl
  larger := h.larger

/-- A larger coin is noted. -/
lemma lowest (hholds : wallet.Holds (n, o.coin)) (hge : nTargetValue + CENT ≤ n) :
    SelectState.Keeps wallet nTargetValue vCoins
      { s with coinLowestLarger := n, larger := some o.coin } :=
  { h.skip with
    larger := fun coin hcoin => by
      cases hcoin
      exact ⟨hholds, hge⟩ }

end

end SelectState.Keeps

/-- The loop over the coins ends with a coin of exactly the target, or keeps what it keeps. -/
lemma selectLoop_spec {nSpendTime : UInt32} {nConfMine nConfTheirs : Int32}
    {vCoins : List COutput} {s : SelectState} {r : (Int64 × Coin) ⊕ SelectState}
    (hoffers : wallet.Offers vCoins) (hkeeps : s.Keeps wallet nTargetValue vCoins)
    (h : selectLoop wallet nTargetValue nSpendTime nConfMine nConfTheirs vCoins s = .ok r) :
    (∃ coin, r = .inl coin ∧ coin.1 = nTargetValue ∧ wallet.Holds coin) ∨
      ∃ s', r = .inr s' ∧ s'.Keeps wallet nTargetValue [] := by
  induction vCoins generalizing s with
  | nil =>
    rw [selectLoop] at h
    cases h
    exact .inr ⟨s, rfl, hkeeps⟩
  | cons o vCoins ih =>
    obtain ⟨hnodup, hholds⟩ := hoffers
    rw [List.map_cons, List.nodup_cons] at hnodup
    have hoffers' : wallet.Offers vCoins :=
      ⟨hnodup.2, fun o' ho' => hholds o' (List.mem_cons_of_mem _ ho')⟩
    obtain ⟨n, txout, hout, rfl, hrest⟩ := hholds o List.mem_cons_self
    have hcoin : wallet.Holds (txout.nValue, o.coin) := ⟨txout, hout, rfl, hrest⟩
    rw [selectLoop] at h
    cases hwtx : wallet.mapWallet[o.tx]? with
    | none =>
      rw [hwtx] at h
      cases h
    | some pcoin =>
      have hget : pcoin.tx.vout[o.i.toUInt32.toNat]? = some txout := by
        rw [WalletCoins.output, COutput.coin, hwtx] at hout
        exact hout
      simp only [hwtx, hget] at h
      by_cases hskip : (decide (o.nDepth < if pcoin.isFromMe = true then nConfMine
          else nConfTheirs) || decide (pcoin.tx.nTime > nSpendTime)) = true
      · rw [if_pos hskip] at h
        exact ih hoffers' hkeeps.skip h
      · rw [if_neg hskip] at h
        split_ifs at h with hneg heq hlower hlowest
        · cases h
          exact .inl ⟨_, rfl, heq, hcoin⟩
        · exact ih hoffers' (hkeeps.smaller hnodup.1 hcoin hlower) h
        · exact ih hoffers' (hkeeps.lowest hcoin (Int64.not_lt.mp hlower)) h
        · exact ih hoffers' hkeeps.skip h

end Loop

/-! ## The search for a subset -/

/-- The values of the coins, as integers. -/
def amounts (vValue : List (Int64 × Coin)) : List ℤ := vValue.map fun c => c.1.toInt

/-- No value is negative, and the sum of all is in range. -/
structure Summable (vValue : List (Int64 × Coin)) : Prop where
  nonneg : ∀ n ∈ amounts vValue, 0 ≤ n
  lt : (amounts vValue).sum < 2 ^ 63

variable {vValue : List (Int64 × Coin)}

/-- The sum of some of the values is in range. -/
lemma Summable.inRange (h : Summable vValue) (marks : List Bool) :
    InRange (markedSum (amounts vValue) marks) := by
  have hge : 0 ≤ markedSum (amounts vValue) marks := markedSum_nonneg h.nonneg marks
  have hle := markedSum_le_sum h.nonneg marks
  have hlt := h.lt
  constructor <;> omega

namespace SubsetSearch

section Search

variable {vValue : List (Int64 × Coin)} {nTargetValue : Int64} {s : SubsetSearch}

/-- The best subset has the best total, which is at least the target. -/
structure Best (vValue : List (Int64 × Coin)) (nTargetValue : Int64) (s : SubsetSearch) : Prop where
  sum : markedSum (amounts vValue) s.vfBest = s.nBest.toInt
  ge : nTargetValue ≤ s.nBest

/-- The included coins have the running total. -/
structure Included (vValue : List (Int64 × Coin)) (s : SubsetSearch) : Prop where
  length : s.vfIncluded.length = vValue.length
  sum : markedSum (amounts vValue) s.vfIncluded = s.nTotal.toInt

section

variable (hsum : Summable vValue)

include hsum

/-- A coin that is not included is tried: the best subset and the included coins keep their sums, and
the marks of other coins stay. -/
lemma tryCoin_spec (hbest : s.Best vValue nTargetValue)
    (hinc : s.Included vValue) (choose : ℕ → Bool → Bool) {i : ℕ}
    (hchoose : choose i (s.vfIncluded.getD i false) = true → s.vfIncluded.getD i false = false) :
    (s.tryCoin vValue nTargetValue choose i).Best vValue nTargetValue ∧
      (s.tryCoin vValue nTargetValue choose i).Included vValue ∧
      ∀ j, j ≠ i → (s.tryCoin vValue nTargetValue choose i).vfIncluded.getD j false
        = s.vfIncluded.getD j false := by
  rw [tryCoin]
  cases hv : vValue[i]? with
  | none => exact ⟨hbest, hinc, fun j _ => rfl⟩
  | some v =>
    by_cases hc : choose i (s.vfIncluded.getD i false) = true
    swap
    · dsimp only
      rw [if_neg hc]
      exact ⟨hbest, hinc, fun j _ => rfl⟩
    have hi : i < s.vfIncluded.length := by
      rw [hinc.length]
      exact (List.getElem?_eq_some_iff.mp hv).1
    have hmark : s.vfIncluded[i]? = some false := by
      have hfalse := hchoose hc
      rw [List.getD_eq_getElem?_getD, List.getElem?_eq_getElem hi, Option.getD_some] at hfalse
      rw [List.getElem?_eq_getElem hi, hfalse]
    have hamount : (amounts vValue)[i]? = some v.1.toInt := by
      rw [amounts, List.getElem?_map, hv]
      rfl
    have hset : markedSum (amounts vValue) (s.vfIncluded.set i true)
        = (s.nTotal + v.1).toInt := by
      have hadd := markedSum_set_true hamount hmark
      have hrange := hsum.inRange (s.vfIncluded.set i true)
      rw [hadd, hinc.sum] at hrange
      rw [hadd, hinc.sum, toInt_add hrange]
    have hothers : ∀ b j, j ≠ i → (s.vfIncluded.set i b).getD j false
        = s.vfIncluded.getD j false := by
      intro b j hj
      simp [List.getD_eq_getElem?_getD, List.getElem?_set_ne hj.symm]
    dsimp only
    rw [if_pos hc]
    by_cases hreach : s.nTotal + v.1 ≥ nTargetValue
    · -- the coin is left out again
      have hback : (s.vfIncluded.set i true).set i false = s.vfIncluded := by
        rw [List.set_set]
        refine List.ext_getElem? fun j => ?_
        by_cases hj : i = j
        · subst hj
          rw [List.getElem?_set_self hi, hmark]
        · rw [List.getElem?_set_ne hj]
      rw [if_pos hreach, hback]
      refine ⟨?_, ⟨hinc.length, ?_⟩, fun j _ => rfl⟩
      · split_ifs
        · exact ⟨hset, hreach⟩
        · exact ⟨hbest.sum, hbest.ge⟩
      · change _ = (s.nTotal + v.1 - v.1).toInt
        rw [Int64.add_sub_cancel]
        exact hinc.sum
    · rw [if_neg hreach]
      exact ⟨⟨hbest.sum, hbest.ge⟩, ⟨by simp [hinc.length], hset⟩, hothers true⟩

/-- A pass over coins that are not included. -/
lemma foldl_tryCoin_fresh (choose : ℕ → Bool → Bool) {indices : List ℕ} (hnodup : indices.Nodup)
    (hfresh : ∀ i ∈ indices, s.vfIncluded.getD i false = false)
    (hbest : s.Best vValue nTargetValue) (hinc : s.Included vValue) :
    (indices.foldl (tryCoin vValue nTargetValue choose) s).Best vValue nTargetValue ∧
      (indices.foldl (tryCoin vValue nTargetValue choose) s).Included vValue := by
  induction indices generalizing s with
  | nil => exact ⟨hbest, hinc⟩
  | cons i indices ih =>
    rw [List.nodup_cons] at hnodup
    obtain ⟨hbest', hinc', hothers⟩ := tryCoin_spec hsum hbest hinc choose
      fun _ => hfresh i List.mem_cons_self
    refine ih hnodup.2 ?_ hbest' hinc'
    intro j hj
    have hne : j ≠ i := fun heq => hnodup.1 (heq ▸ hj)
    rw [hothers j hne]
    exact hfresh j (List.mem_cons_of_mem _ hj)

/-- A pass that includes the coins that are not included. -/
lemma foldl_tryCoin_rest (indices : List ℕ)
    (hbest : s.Best vValue nTargetValue) (hinc : s.Included vValue) :
    (indices.foldl (tryCoin vValue nTargetValue fun _ fIncluded => !fIncluded) s).Best vValue
      nTargetValue := by
  induction indices generalizing s with
  | nil => exact hbest
  | cons i indices ih =>
    obtain ⟨hbest', hinc', -⟩ := tryCoin_spec (i := i) hsum hbest hinc
      (fun _ fIncluded => !fIncluded) (by simp)
    exact ih hbest' hinc'

/-- A repetition keeps the sum of the best subset. -/
lemma best_repetition (rand : ℕ → ℕ → Bool) (nRep : ℕ) (hbest : s.Best vValue nTargetValue) :
    (s.repetition vValue nTargetValue rand nRep).Best vValue nTargetValue := by
  rw [repetition]
  split
  · exact hbest
  · have hlen : vValue.length = (amounts vValue).length := by simp [amounts]
    let s₀ : SubsetSearch := { s with
      vfIncluded := List.replicate vValue.length false, nTotal := 0, fReachedTarget := false }
    have hbest₀ : s₀.Best vValue nTargetValue := ⟨hbest.sum, hbest.ge⟩
    have hinc₀ : s₀.Included vValue :=
      ⟨List.length_replicate, by
        change markedSum (amounts vValue) (List.replicate vValue.length false) = 0
        rw [hlen, markedSum_replicate_false]⟩
    have hfresh : ∀ i ∈ List.range vValue.length, s₀.vfIncluded.getD i false = false := by
      intro i hi
      change (List.replicate vValue.length false).getD i false = false
      simp [List.getD_eq_getElem?_getD, List.mem_range.mp hi]
    obtain ⟨hbest', hinc'⟩ :=
      foldl_tryCoin_fresh hsum (fun i _ => rand nRep i) List.nodup_range hfresh hbest₀ hinc₀
    dsimp only
    split
    · exact hbest'
    · exact foldl_tryCoin_rest hsum _ hbest' hinc'

end

end Search

end SubsetSearch

/-- `ApproximateBestSubset` finds a subset with the total that it returns, which is at least the
target if the sum of all coins is. -/
lemma approximateBestSubset_spec {nTotalLower nTargetValue : Int64}
    (hsum : Summable vValue) (htotal : (amounts vValue).sum = nTotalLower.toInt)
    (hge : nTargetValue ≤ nTotalLower) (rand : ℕ → ℕ → Bool) (iterations : ℕ) :
    markedSum (amounts vValue)
        (approximateBestSubset vValue nTotalLower nTargetValue rand iterations).1 =
          (approximateBestSubset vValue nTotalLower nTargetValue rand iterations).2.toInt ∧
      nTargetValue ≤ (approximateBestSubset vValue nTotalLower nTargetValue rand iterations).2 := by
  have hlen : vValue.length = (amounts vValue).length := by simp [amounts]
  have hstart : SubsetSearch.Best vValue nTargetValue
      { vfBest := List.replicate vValue.length true, nBest := nTotalLower } :=
    ⟨by rw [hlen, markedSum_replicate_true]; exact htotal, hge⟩
  have hbest := List.foldlRecOn (List.range iterations)
    (SubsetSearch.repetition vValue nTargetValue rand) hstart
    fun s hs nRep _ => SubsetSearch.best_repetition hsum rand nRep hs
  exact ⟨hbest.sum, hbest.ge⟩

variable (choices : Choices)

/-- The searches find a subset with the total that they return, which is at least the target. -/
lemma bestSubset_spec {nTotalLower nTargetValue : Int64} (hsum : Summable vValue)
    (htotal : (amounts vValue).sum = nTotalLower.toInt)
    (htarget : nTargetValue ≤ nTargetValue + CENT) (hge : nTargetValue ≤ nTotalLower) :
    markedSum (amounts vValue) (bestSubset choices nTargetValue nTotalLower vValue).1
        = (bestSubset choices nTargetValue nTotalLower vValue).2.toInt ∧
      nTargetValue ≤ (bestSubset choices nTargetValue nTotalLower vValue).2 := by
  rw [bestSubset]
  split
  · rename_i hsecond
    obtain ⟨hbest, hbestGe⟩ :=
      approximateBestSubset_spec hsum htotal hsecond.2 (choices.rand 1) 1000
    exact ⟨hbest, Int64.le_trans htarget hbestGe⟩
  · exact approximateBestSubset_spec hsum htotal hge (choices.rand 0) 1000

/-! ## The selected coins -/

/-- The coins are different ones of the wallet, and the value is the sum of theirs. -/
structure Selected (wallet : WalletCoins) (setCoinsRet : List Coin) (nValueRet : Int64) : Prop where
  nodup : setCoinsRet.Nodup
  output : ∀ coin ∈ setCoinsRet, ∃ txout, wallet.output coin = some txout
  index : ∀ coin ∈ setCoinsRet, coin.2 ≠ 0xffffffff
  value : nValueRet.toInt = (setCoinsRet.map wallet.valueOf).sum

section Select

variable {wallet : WalletCoins} {nTargetValue : Int64}

/-- The target and one `CENT`. -/
lemma target_add_cent (h : nTargetValue.toInt + CENT.toInt < 2 ^ 63) :
    (nTargetValue + CENT).toInt = nTargetValue.toInt + CENT.toInt ∧
      nTargetValue ≤ nTargetValue + CENT := by
  have hcent : CENT.toInt = 10000 := by decide
  have hge := nTargetValue.le_toInt
  have hadd : (nTargetValue + CENT).toInt = nTargetValue.toInt + CENT.toInt :=
    toInt_add ⟨by omega, h⟩
  rw [Int64.le_iff_toInt_le, hadd]
  exact ⟨rfl, by omega⟩

/-- One coin of the wallet is selected. -/
lemma WalletCoins.Holds.selected {coin : Int64 × Coin} (h : wallet.Holds coin) :
    Selected wallet [coin.2] coin.1 where
  nodup := List.nodup_singleton _
  output := by
    obtain ⟨txout, hout, -⟩ := h
    intro coin' hcoin'
    rw [List.mem_singleton.mp hcoin']
    exact ⟨txout, hout⟩
  index := by
    obtain ⟨-, -, -, -, hindex⟩ := h
    intro coin' hcoin'
    rw [List.mem_singleton.mp hcoin']
    exact hindex
  value := by simp [h.valueOf_eq]

variable {setCoinsRet : List Coin}

/-- The loop that inserts the marked coins inserts them all, since they are different ones. -/
lemma foldl_insertCoin {vValue : List ((Int64 × Coin) × Bool)}
    (hnodup : (setCoinsRet ++ vValue.map fun v => v.1.2).Nodup) (nValueRet : Int64) :
    vValue.foldl (fun r v => (insertCoin r.1 v.1.2, r.2 + v.1.1)) (setCoinsRet, nValueRet) =
      (setCoinsRet ++ vValue.map fun v => v.1.2,
        (vValue.map fun v => v.1.1).foldl (· + ·) nValueRet) := by
  induction vValue generalizing setCoinsRet nValueRet with
  | nil => simp
  | cons v vValue ih =>
    rw [List.map_cons, List.append_cons] at hnodup
    have hfresh : v.1.2 ∉ setCoinsRet := by
      intro hmem
      have hdisjoint := (List.nodup_append.mp (List.nodup_append.mp hnodup).1).2.2
      exact hdisjoint _ hmem _ (List.mem_singleton_self _) rfl
    rw [List.foldl_cons, insertCoin, if_neg hfresh, ih hnodup]
    simp

/-- The marked ones of different coins are selected, with the sum of their values. -/
lemma takeMarked_spec (hholds : ∀ c ∈ vValue, wallet.Holds c)
    (hnodup : (vValue.map Prod.snd).Nodup) (hsum : Summable vValue) (vf : List Bool) :
    Selected wallet (takeMarked vValue vf).1 (takeMarked vValue vf).2 ∧
      (takeMarked vValue vf).2.toInt = markedSum (amounts vValue) vf := by
  let marked := (vValue.zip vf).filter Prod.snd
  have hmem : ∀ v ∈ marked, v.1 ∈ vValue :=
    fun v hv => (List.of_mem_zip (List.mem_filter.mp hv).1).1
  have hmarked : (marked.map fun v => v.1.2).Nodup := by
    have hsub : (marked.map fun v => v.1.2).Sublist ((vValue.zip vf).map fun v => v.1.2) :=
      List.filter_sublist.map _
    refine hsub.nodup ?_
    have hzip : (vValue.zip vf).map (fun v => v.1.2)
        = ((vValue.zip vf).map Prod.fst).map Prod.snd := by
      rw [List.map_map]
      rfl
    rw [hzip]
    exact ((map_fst_zip_sublist vValue vf).map Prod.snd).nodup hnodup
  let markedValues : List Int64 := marked.map fun v => v.1.1
  have htake : takeMarked vValue vf =
      (marked.map fun v => v.1.2, markedValues.foldl (· + ·) 0) := by
    rw [takeMarked, foldl_insertCoin (by simpa using hmarked), List.nil_append]
  have hsumMarked : total markedValues = markedSum (amounts vValue) vf := by
    rw [total, List.map_map]
    exact (markedSum_map (fun c : Int64 × Coin => c.1.toInt) vValue vf).symm
  have hrange : InRange (total markedValues) := by
    rw [hsumMarked]
    exact hsum.inRange vf
  have hvalue : (markedValues.foldl (· + ·) 0).toInt = markedSum (amounts vValue) vf := by
    rw [toInt_foldl_add hrange, hsumMarked]
  rw [htake]
  refine ⟨⟨hmarked, ?_, ?_, ?_⟩, hvalue⟩
  · intro coin hcoin
    obtain ⟨v, hv, rfl⟩ := List.mem_map.mp hcoin
    obtain ⟨txout, hout, -⟩ := hholds v.1 (hmem v hv)
    exact ⟨txout, hout⟩
  · intro coin hcoin
    obtain ⟨v, hv, rfl⟩ := List.mem_map.mp hcoin
    obtain ⟨-, -, -, -, hindex⟩ := hholds v.1 (hmem v hv)
    exact hindex
  · dsimp only
    rw [hvalue, ← hsumMarked, total, List.map_map, List.map_map]
    refine congrArg List.sum (List.map_congr_left ?_)
    intro v hv
    exact ((hholds v.1 (hmem v hv)).valueOf_eq).symm

variable {s : SelectState}

/-- The smaller coins that the loop has noted can be summed up, if a loop over them ends. -/
lemma SelectState.Keeps.summable (h : s.Keeps wallet nTargetValue [])
    (htarget : nTargetValue.toInt + CENT.toInt < 2 ^ 31) (hpos : 0 < nTargetValue.toInt)
    (hlen : s.vValue.length < 2 ^ 32) : Summable s.vValue where
  nonneg n hn := by
    obtain ⟨c, hc, rfl⟩ := List.mem_map.mp hn
    obtain ⟨-, -, -, hpos, -⟩ := h.holds c hc
    exact (Int64.lt_iff_toInt_lt.mp hpos).le
  lt := by
    have hcent : CENT.toInt = 10000 := by decide
    have hadd : (nTargetValue + CENT).toInt = nTargetValue.toInt + CENT.toInt :=
      toInt_add ⟨by omega, by omega⟩
    have hle : Int64Sum.total (values s.vValue) ≤ (values s.vValue).length * 2 ^ 31 := by
      refine total_le fun v hv => ?_
      obtain ⟨c, hc, rfl⟩ := List.mem_map.mp hv
      have hlt := Int64.lt_iff_toInt_lt.mp (h.lt c hc)
      omega
    have hsum : (amounts s.vValue).sum = Int64Sum.total (values s.vValue) := by
      simp [amounts, values, Int64Sum.total, Function.comp_def]
    have hlen' : (values s.vValue).length = s.vValue.length := by simp [values]
    rw [hsum]
    rw [hlen'] at hle
    omega

/-- The smaller coins have the running total. -/
lemma SelectState.Keeps.sum_amounts (h : s.Keeps wallet nTargetValue [])
    (hsum : Summable s.vValue) : (amounts s.vValue).sum = s.nTotalLower.toInt := by
  have htotal : Int64Sum.total (values s.vValue) = (amounts s.vValue).sum := by
    simp [amounts, values, Int64Sum.total, Function.comp_def]
  have hrange : InRange (Int64Sum.total (values s.vValue)) := by
    rw [htotal, ← markedSum_replicate_true]
    exact hsum.inRange _
  rw [h.total, toInt_foldl_add hrange, htotal]

/-- The smaller coins, in the order in which the search goes through them. -/
lemma SelectState.Keeps.sorted
    (hkeeps : s.Keeps wallet nTargetValue []) (hsum : Summable s.vValue) :
    Summable (choices.sort s.vValue) ∧
      (amounts (choices.sort s.vValue)).sum = s.nTotalLower.toInt ∧
      ((choices.sort s.vValue).map Prod.snd).Nodup ∧
      ∀ c ∈ choices.sort s.vValue, wallet.Holds c := by
  have hperm := choices.sort_perm s.vValue
  have hamounts : (amounts (choices.sort s.vValue)).Perm (amounts s.vValue) := hperm.map _
  refine ⟨⟨fun n hn => hsum.nonneg n (hamounts.mem_iff.mp hn), ?_⟩, ?_, ?_, ?_⟩
  · rw [hamounts.sum_eq]
    exact hsum.lt
  · rw [hamounts.sum_eq, hkeeps.sum_amounts hsum]
  · exact (hperm.map Prod.snd).nodup_iff.mpr hkeeps.nodup
  · exact fun c hc => hkeeps.holds c (hperm.mem_iff.mp hc)

/-- The coins that the part with the search selects reach the target. -/
lemma selectSubset_spec (hkeeps : s.Keeps wallet nTargetValue []) (hsum : Summable s.vValue)
    (htarget : nTargetValue ≤ nTargetValue + CENT) (hge : nTargetValue ≤ s.nTotalLower) :
    Selected wallet (selectSubset choices nTargetValue s).1
        (selectSubset choices nTargetValue s).2 ∧
      nTargetValue ≤ (selectSubset choices nTargetValue s).2 := by
  obtain ⟨hsum', htotal, hnodup, hholds⟩ := hkeeps.sorted choices hsum
  set vValue := choices.sort s.vValue
  obtain ⟨hbest, hbestGe⟩ := bestSubset_spec choices hsum' htotal htarget hge
  obtain ⟨hselected, hvalue⟩ := takeMarked_spec hholds hnodup hsum'
    (bestSubset choices nTargetValue s.nTotalLower vValue).1
  have hmarkedGe : nTargetValue ≤
      (takeMarked vValue (bestSubset choices nTargetValue s.nTotalLower vValue).1).2 := by
    rw [Int64.le_iff_toInt_le] at hbestGe ⊢
    rw [hvalue, hbest]
    exact hbestGe
  rw [selectSubset]
  split
  · rename_i coin hcoin
    obtain ⟨hlarger, hlargerGe⟩ := hkeeps.larger coin hcoin
    split
    · exact ⟨hlarger.selected, Int64.le_trans htarget hlargerGe⟩
    · exact ⟨hselected, hmarkedGe⟩
  · exact ⟨hselected, hmarkedGe⟩

variable {nConfMine nConfTheirs : Int32} {nSpendTime : UInt32}

/-- Whatever `SelectCoinsMinConf` selects, the coins are different ones of the wallet, the value is the
sum of theirs, and it is at least the target, if the smaller coins can be summed up. -/
lemma selectCoinsMinConf_of_summable {choices : Choices} {vCoins : List COutput} {nValueRet : Int64}
    (hoffers : wallet.Offers vCoins) (htarget : nTargetValue ≤ nTargetValue + CENT) (hsummable : ∀
    s, selectLoop wallet nTargetValue nSpendTime nConfMine nConfTheirs (choices.shuffle vCoins) {}
    = .ok (.inr s) → s.vValue.length < 2 ^ 32 → Summable s.vValue) (h : selectCoinsMinConf wallet
    choices nTargetValue nSpendTime nConfMine nConfTheirs vCoins = .ok (some (setCoinsRet,
    nValueRet))) : Selected wallet setCoinsRet nValueRet ∧ nTargetValue ≤ nValueRet := by
  have hshuffled := hoffers.perm (choices.shuffle_perm vCoins)
  have hloop : ∀ (s : SelectState), loopTo s.vValue.length = .ok () →
      s.vValue.length < 2 ^ 32 := by
    intro s hs
    rw [loopTo] at hs
    split_ifs at hs with hlen
    exact hlen
  rw [selectCoinsMinConf] at h
  rcases hselect : selectLoop wallet nTargetValue nSpendTime nConfMine nConfTheirs
      (choices.shuffle vCoins) {} with e | r
  · rw [hselect] at h
    cases h
  rw [hselect] at h
  obtain ⟨coin, rfl, heq, hholds⟩ | ⟨s, rfl, hkeeps⟩ :=
    selectLoop_spec hshuffled (SelectState.keeps_start _) hselect
  · cases h
    exact ⟨hholds.selected, heq ▸ Int64.le_refl _⟩
  · dsimp only at h
    split_ifs at h with heq hlower
    · -- all smaller coins together have the target
      cases hlen : loopTo s.vValue.length with
      | error e =>
        rw [hlen] at h
        cases h
      | ok u =>
        rw [hlen] at h
        have hresult := Option.some.inj (Except.ok.inj h)
        have hsum := hsummable s hselect (hloop s hlen)
        obtain ⟨hselected, hvalue⟩ := takeMarked_spec hkeeps.holds hkeeps.nodup hsum
          (List.replicate s.vValue.length true)
        have hlenAmounts : s.vValue.length = (amounts s.vValue).length := by simp [amounts]
        have hall : markedSum (amounts s.vValue) (List.replicate s.vValue.length true)
            = nTargetValue.toInt := by
          rw [hlenAmounts, markedSum_replicate_true, hkeeps.sum_amounts hsum, heq]
        rw [hresult] at hselected hvalue
        refine ⟨hselected, ?_⟩
        rw [Int64.le_iff_toInt_le, hvalue, hall]
    · cases hlarger : s.larger with
      | none =>
        rw [hlarger] at h
        cases h
      | some coin =>
        rw [hlarger] at h
        cases h
        obtain ⟨hholds, hge⟩ := hkeeps.larger coin hlarger
        exact ⟨hholds.selected, Int64.le_trans htarget hge⟩
    · cases hlen : loopTo s.vValue.length with
      | error e =>
        rw [hlen] at h
        cases h
      | ok u =>
        rw [hlen] at h
        have hresult := Option.some.inj (Except.ok.inj h)
        have hsum := hsummable s hselect (hloop s hlen)
        have hspec := selectSubset_spec choices hkeeps hsum htarget (Int64.not_lt.mp hlower)
        rwa [hresult] at hspec

/-- `SelectCoinsMinConf`: whatever it selects, the coins are different ones of the wallet, the value
is the sum of theirs, and it is at least the target. -/
lemma selectCoinsMinConf_spec {choices : Choices} {vCoins : List COutput} {nValueRet : Int64}
    (hoffers : wallet.Offers vCoins) (hpos : 0 < nTargetValue.toInt)
    (hlt : nTargetValue.toInt + CENT.toInt < 2 ^ 31) (h : selectCoinsMinConf wallet choices
    nTargetValue nSpendTime nConfMine nConfTheirs vCoins = .ok (some (setCoinsRet, nValueRet))) :
    Selected wallet setCoinsRet nValueRet ∧ nTargetValue ≤ nValueRet := by
  have htarget : nTargetValue ≤ nTargetValue + CENT := (target_add_cent (by omega)).2
  refine selectCoinsMinConf_of_summable hoffers htarget (fun s hselect hlen => ?_) h
  obtain ⟨coin, hcoin, -⟩ | ⟨s', hs', hkeeps⟩ :=
    selectLoop_spec (hoffers.perm (choices.shuffle_perm vCoins)) (SelectState.keeps_start _) hselect
  · cases hcoin
  · cases hs'
    exact hkeeps.summable hlt hpos hlen

end Select

end HyperStake
