import HyperStake.Wallet.Selection

/-!
# When the selection of coins succeeds

`SelectCoinsMinConf` looks at the coins that are deep enough and not younger than the spend.  It
succeeds exactly if these add up to the target, and it selects some of them.  If they add up to the
target and one `CENT`, then what is left over is nothing or at least a `CENT`: the strategies fall
back on a coin or a subset that leaves a `CENT` wherever the target is not met exactly.

No random number plays a part in this.  The sums are in `int64` arithmetic; the statement is for
targets and coins for which they do not wrap around.
-/

namespace HyperStake

open Int64Sum MarkedSum

namespace WalletCoins

variable (wallet : WalletCoins) (nSpendTime : UInt32) (nConfMine nConfTheirs : Int32)

/-- The test of `SelectCoinsMinConf` for an output: it is deep enough, and not younger than the
spend. -/
def eligible (output : COutput) : Bool :=
  wallet.mapWallet[output.tx]?.any fun pcoin =>
    !(decide (output.nDepth < (if pcoin.isFromMe then nConfMine else nConfTheirs)) ||
      decide (pcoin.tx.nTime > nSpendTime))

/-- The coins that pass it. -/
def eligibleCoins (vCoins : List COutput) : List Coin :=
  (vCoins.filter (wallet.eligible nSpendTime nConfMine nConfTheirs)).map COutput.coin

/-- The sum of their values. -/
def eligibleValue (vCoins : List COutput) : ℤ :=
  ((wallet.eligibleCoins nSpendTime nConfMine nConfTheirs vCoins).map wallet.valueOf).sum

/-- The outputs are different ones of the wallet, with positive values, and can be looked up. -/
structure Spendable (vCoins : List COutput) : Prop extends wallet.Offers vCoins where
  index : ∀ o ∈ vCoins, 0 ≤ o.i

end WalletCoins

/-! ## The loop over the coins -/

section Loop

variable {wallet : WalletCoins} {nTargetValue : Int64} {nSpendTime : UInt32}
  {nConfMine nConfTheirs : Int32}

/-- How the loop over the coins has sorted the eligible ones that it has seen: the smaller coins are
some of them, all if no larger coin is noted, and the larger coin is one of them. -/
structure SelectState.Sorts (seen : List Coin) (s : SelectState) : Prop where
  sublist : (s.vValue.map Prod.snd).Sublist seen
  all : s.larger = none → s.vValue.map Prod.snd = seen
  larger : ∀ coin ∈ s.larger, coin ∈ seen
  start : s.larger = none → s.coinLowestLarger = Int64.maxValue

/-- The loop sorts one more coin. -/
lemma SelectState.Sorts.note {seen : List Coin} {s : SelectState} {n : Int64} (hs : s.Sorts seen)
    (coin : Coin) (hmax : n < Int64.maxValue) :
    SelectState.Sorts (seen ++ [coin])
      (if n < nTargetValue + CENT then
        { s with vValue := s.vValue ++ [(n, coin)], nTotalLower := s.nTotalLower + n }
      else if n < s.coinLowestLarger then
        { s with coinLowestLarger := n, larger := some coin }
      else s) := by
  have hmem : ∀ c ∈ s.larger, c ∈ seen ++ [coin] :=
    fun c hc => List.mem_append_left _ (hs.larger c hc)
  split_ifs with hlower hlowest
  · refine ⟨?_, fun hnone => ?_, hmem, hs.start⟩
    · rw [List.map_append]
      exact hs.sublist.append (List.Sublist.refl _)
    · rw [List.map_append, hs.all hnone]
      rfl
  · refine ⟨hs.sublist.trans (List.sublist_append_left _ _), nofun, fun c hc => ?_, nofun⟩
    rw [Option.mem_some_iff] at hc
    rw [hc]
    exact List.mem_append_right _ (List.mem_singleton_self _)
  · -- a larger coin has been noted before, since this one is below the greatest value
    have hsome : s.larger ≠ none := by
      intro hnone
      rw [hs.start hnone] at hlowest
      exact hlowest hmax
    exact ⟨hs.sublist.trans (List.sublist_append_left _ _), fun hnone => absurd hnone hsome, hmem,
      fun hnone => absurd hnone hsome⟩

/-- The loop ends with an eligible coin of exactly the target, or with the eligible coins sorted. -/
lemma selectLoop_sorts {vCoins : List COutput} {seen : List Coin} {s : SelectState}
    (hspendable : wallet.Spendable vCoins)
    (hmax : ∀ coin ∈ wallet.eligibleCoins nSpendTime nConfMine nConfTheirs vCoins,
      wallet.valueOf coin < Int64.maxValue.toInt)
    (hs : s.Sorts seen) :
    (∃ coin, selectLoop wallet nTargetValue nSpendTime nConfMine nConfTheirs vCoins s =
        .ok (.inl coin) ∧
      coin.2 ∈ wallet.eligibleCoins nSpendTime nConfMine nConfTheirs vCoins) ∨
    ∃ s', selectLoop wallet nTargetValue nSpendTime nConfMine nConfTheirs vCoins s =
        .ok (.inr s') ∧
      s'.Sorts (seen ++ wallet.eligibleCoins nSpendTime nConfMine nConfTheirs vCoins) := by
  induction vCoins generalizing s seen with
  | nil => exact Or.inr ⟨s, rfl, by simpa [WalletCoins.eligibleCoins] using hs⟩
  | cons o vCoins ih =>
    obtain ⟨⟨hnodup, hholds⟩, hindex⟩ := hspendable
    rw [List.map_cons, List.nodup_cons] at hnodup
    have hspendable' : wallet.Spendable vCoins :=
      ⟨⟨hnodup.2, fun o' ho' => hholds o' (List.mem_cons_of_mem _ ho')⟩,
        fun o' ho' => hindex o' (List.mem_cons_of_mem _ ho')⟩
    obtain ⟨n, hcoin⟩ := hholds o List.mem_cons_self
    have hvalue := hcoin.valueOf_eq
    obtain ⟨txout, hout, rfl, -⟩ := hcoin
    obtain ⟨pcoin, hwtx, hget⟩ := Option.bind_eq_some_iff.mp hout
    rw [COutput.coin] at hwtx hget
    dsimp only at hwtx hget
    have heligible : wallet.eligible nSpendTime nConfMine nConfTheirs o =
        !(decide (o.nDepth < if pcoin.isFromMe = true then nConfMine else nConfTheirs) ||
          decide (pcoin.tx.nTime > nSpendTime)) := by
      rw [WalletCoins.eligible, hwtx]
      rfl
    rw [selectLoop]
    simp only [hwtx, hget]
    by_cases hskip : (decide (o.nDepth < if pcoin.isFromMe = true then nConfMine else nConfTheirs) ||
        decide (pcoin.tx.nTime > nSpendTime)) = true
    · have hcoins : wallet.eligibleCoins nSpendTime nConfMine nConfTheirs (o :: vCoins) =
          wallet.eligibleCoins nSpendTime nConfMine nConfTheirs vCoins := by
        rw [WalletCoins.eligibleCoins, List.filter_cons_of_neg (by simp [heligible, hskip])]
        rfl
      rw [if_pos hskip, hcoins]
      rw [hcoins] at hmax
      exact ih hspendable' hmax hs
    · have hcoins : wallet.eligibleCoins nSpendTime nConfMine nConfTheirs (o :: vCoins) =
          o.coin :: wallet.eligibleCoins nSpendTime nConfMine nConfTheirs vCoins := by
        rw [WalletCoins.eligibleCoins, List.filter_cons_of_pos (by simp [heligible, hskip])]
        rfl
      rw [hcoins] at hmax ⊢
      obtain ⟨hlt, hmax'⟩ := List.forall_mem_cons.mp hmax
      rw [hvalue, ← Int64.lt_iff_toInt_lt] at hlt
      rw [if_neg hskip, if_neg (Int32.not_lt.mpr (hindex o List.mem_cons_self))]
      by_cases heq : txout.nValue = nTargetValue
      · rw [if_pos heq]
        exact Or.inl ⟨_, rfl, List.mem_cons_self⟩
      rw [if_neg heq]
      rcases ih hspendable' hmax' (hs.note o.coin hlt) with ⟨coin, hselect, hmem⟩ | hsorted
      · exact Or.inl ⟨coin, hselect, List.mem_cons_of_mem _ hmem⟩
      · rw [List.append_assoc, List.singleton_append] at hsorted
        exact Or.inr hsorted

end Loop

/-! ## The search for a subset -/

section Subset

variable {wallet : WalletCoins} {nTargetValue : Int64}

/-- The searches meet the target exactly or leave at least a `CENT`, if the smaller coins allow
that. -/
lemma bestSubset_cent {vValue : List (Int64 × Coin)} {nTotalLower : Int64} (choices : Choices)
    (hsum : Summable vValue) (htotal : (amounts vValue).sum = nTotalLower.toInt)
    (hge : nTargetValue + CENT ≤ nTotalLower) :
    (bestSubset choices nTargetValue nTotalLower vValue).2 = nTargetValue ∨
      nTargetValue + CENT ≤ (bestSubset choices nTargetValue nTotalLower vValue).2 := by
  rw [bestSubset]
  split
  · rename_i hsecond
    exact Or.inr (approximateBestSubset_spec hsum htotal hge (choices.rand 1) 1000).2
  · rename_i hfirst
    refine Or.inl (not_not.mp fun hne => hfirst ⟨hne, hge⟩)

/-- Only marked coins are taken. -/
lemma mem_takeMarked {vValue : List (Int64 × Coin)} {vf : List Bool} {coin : Coin}
    (h : coin ∈ (takeMarked vValue vf).1) : coin ∈ vValue.map Prod.snd := by
  have hfold : ∀ (vs : List ((Int64 × Coin) × Bool)) (r : List Coin × Int64),
      coin ∈ (vs.foldl (fun r v => (insertCoin r.1 v.1.2, r.2 + v.1.1)) r).1 →
      coin ∈ r.1 ∨ ∃ v ∈ vs, v.1.2 = coin := by
    intro vs
    induction vs with
    | nil => exact fun _ hr => Or.inl hr
    | cons v vs ih =>
      intro r hr
      rcases ih _ hr with hinsert | ⟨v', hv', rfl⟩
      · dsimp only at hinsert
        rw [insertCoin] at hinsert
        split_ifs at hinsert
        · exact Or.inl hinsert
        · rcases List.mem_append.mp hinsert with hold | hnew
          · exact Or.inl hold
          · exact Or.inr ⟨v, List.mem_cons_self, (List.mem_singleton.mp hnew).symm⟩
      · exact Or.inr ⟨v', List.mem_cons_of_mem _ hv', rfl⟩
  rcases hfold _ _ h with hnil | ⟨v, hv, rfl⟩
  · cases hnil
  · exact List.mem_map_of_mem (List.of_mem_zip (List.mem_filter.mp hv).1).1

/-- The part with the search selects coins that have been seen, and meets the target exactly or
leaves at least a `CENT` if the smaller coins or a larger one allow that. -/
lemma selectSubset_rule {s : SelectState} {seen : List Coin} (choices : Choices)
    (hkeeps : s.Keeps wallet nTargetValue []) (hsorts : s.Sorts seen) (hsum : Summable s.vValue)
    (htarget : nTargetValue ≤ nTargetValue + CENT) (hge : nTargetValue ≤ s.nTotalLower) :
    (∀ coin ∈ (selectSubset choices nTargetValue s).1, coin ∈ seen) ∧
      ((s.larger = none → nTargetValue + CENT ≤ s.nTotalLower) →
        (selectSubset choices nTargetValue s).2 = nTargetValue ∨
          nTargetValue + CENT ≤ (selectSubset choices nTargetValue s).2) := by
  obtain ⟨hsum', htotal, hnodup, hholds⟩ := hkeeps.sorted choices hsum
  have hperm := choices.sort_perm s.vValue
  rw [selectSubset]
  set vValue := choices.sort s.vValue
  set best := bestSubset choices nTargetValue s.nTotalLower vValue with hbest
  have hmarked : ∀ coin ∈ (takeMarked vValue best.1).1, coin ∈ seen := by
    intro coin hcoin
    exact hsorts.sublist.subset ((hperm.map Prod.snd).mem_iff.mp (mem_takeMarked hcoin))
  have hvalue : (takeMarked vValue best.1).2 = best.2 := by
    rw [← Int64.toInt_inj, (takeMarked_spec hholds hnodup hsum' best.1).2]
    exact (bestSubset_spec choices hsum' htotal htarget hge).1
  have hcent (h : nTargetValue + CENT ≤ s.nTotalLower) : best.2 = nTargetValue ∨
      nTargetValue + CENT ≤ best.2 := bestSubset_cent choices hsum' htotal h
  split
  · rename_i coin hlarger
    split
    · refine ⟨fun coin' hcoin' => ?_, fun _ => Or.inr (hkeeps.larger coin hlarger).2⟩
      rw [List.mem_singleton.mp hcoin']
      exact hsorts.larger coin hlarger
    · rename_i hclose
      refine ⟨hmarked, fun _ => ?_⟩
      rw [hvalue]
      by_cases hexact : best.2 = nTargetValue
      · exact Or.inl hexact
      · exact Or.inr (Int64.not_lt.mp fun hlt => hclose (Or.inl ⟨hexact, hlt⟩))
  · rename_i hlarger
    refine ⟨hmarked, fun hall => ?_⟩
    rw [hvalue]
    exact hcent (hall hlarger)

end Subset

/-! ## The rule -/

section Rule

variable {wallet : WalletCoins} {nTargetValue : Int64} {nSpendTime : UInt32}
  {nConfMine nConfTheirs : Int32} {vCoins : List COutput}

namespace WalletCoins

lemma Spendable.perm {vCoins' : List COutput} (h : wallet.Spendable vCoins)
    (hperm : vCoins'.Perm vCoins) : wallet.Spendable vCoins' :=
  ⟨h.toOffers.perm hperm, fun o ho => h.index o (hperm.mem_iff.mp ho)⟩

lemma perm_eligibleCoins {vCoins' : List COutput} (hperm : vCoins'.Perm vCoins) :
    (wallet.eligibleCoins nSpendTime nConfMine nConfTheirs vCoins').Perm
      (wallet.eligibleCoins nSpendTime nConfMine nConfTheirs vCoins) :=
  (hperm.filter _).map _

lemma Spendable.nonneg (h : wallet.Spendable vCoins) {coin : Coin}
    (hcoin : coin ∈ wallet.eligibleCoins nSpendTime nConfMine nConfTheirs vCoins) :
    0 ≤ wallet.valueOf coin := by
  obtain ⟨o, ho, rfl⟩ := List.mem_map.mp hcoin
  obtain ⟨n, hn⟩ := h.holds o (List.mem_filter.mp ho).1
  rw [hn.valueOf_eq]
  obtain ⟨-, -, -, hpos, -⟩ := hn
  exact (Int64.lt_iff_toInt_lt.mp hpos).le

/-- Different eligible coins are worth no more than all of them. -/
lemma Spendable.sum_le (h : wallet.Spendable vCoins) {coins : List Coin} (hnodup : coins.Nodup)
    (hmem : ∀ coin ∈ coins,
      coin ∈ wallet.eligibleCoins nSpendTime nConfMine nConfTheirs vCoins) :
    (coins.map wallet.valueOf).sum ≤
      wallet.eligibleValue nSpendTime nConfMine nConfTheirs vCoins := by
  obtain ⟨coins', hperm, hsub⟩ := List.subperm_of_subset hnodup hmem
  rw [← (hperm.map wallet.valueOf).sum_eq]
  refine (hsub.map wallet.valueOf).sum_le_sum fun n hn => ?_
  obtain ⟨coin, hcoin, rfl⟩ := List.mem_map.mp hn
  exact h.nonneg hcoin

end WalletCoins

/-- The smaller coins can be summed up if all the eligible ones can. -/
lemma SelectState.Keeps.summable_of_sorts {s : SelectState} {rest : List COutput}
    (hkeeps : s.Keeps wallet nTargetValue rest) (hspendable : wallet.Spendable vCoins)
    (hsorts : s.Sorts (wallet.eligibleCoins nSpendTime nConfMine nConfTheirs vCoins))
    (hlt : wallet.eligibleValue nSpendTime nConfMine nConfTheirs vCoins < 2 ^ 63) :
    Summable s.vValue ∧ (amounts s.vValue).sum = ((s.vValue.map Prod.snd).map wallet.valueOf).sum
      := by
  have hamounts : amounts s.vValue = (s.vValue.map Prod.snd).map wallet.valueOf := by
    rw [amounts, List.map_map]
    exact List.map_congr_left fun c hc => ((hkeeps.holds c hc).valueOf_eq).symm
  have hle := hspendable.sum_le hkeeps.nodup fun coin hcoin => hsorts.sublist.subset hcoin
  refine ⟨⟨fun n hn => ?_, ?_⟩, by rw [hamounts]⟩
  · rw [hamounts] at hn
    obtain ⟨coin, hcoin, rfl⟩ := List.mem_map.mp hn
    exact hspendable.nonneg (hsorts.sublist.subset hcoin)
  · rw [hamounts]
    omega

variable (choices : Choices)

section

variable (hspendable : wallet.Spendable vCoins)

include hspendable

/-- The loop over the shuffled coins ends with an eligible coin of exactly the target, or it has
sorted the eligible coins and added up the smaller ones. -/
lemma selectLoop_shuffled
    (hlt : wallet.eligibleValue nSpendTime nConfMine nConfTheirs vCoins < 2 ^ 63 - 1) :
    (∃ coin, selectLoop wallet nTargetValue nSpendTime nConfMine nConfTheirs
        (choices.shuffle vCoins) {} = .ok (.inl coin) ∧ coin.1 = nTargetValue ∧
      coin.2 ∈ wallet.eligibleCoins nSpendTime nConfMine nConfTheirs vCoins) ∨
    ∃ s seen, selectLoop wallet nTargetValue nSpendTime nConfMine nConfTheirs
        (choices.shuffle vCoins) {} = .ok (.inr s) ∧
      seen.Perm (wallet.eligibleCoins nSpendTime nConfMine nConfTheirs vCoins) ∧
      s.Keeps wallet nTargetValue [] ∧ s.Sorts seen ∧ Summable s.vValue ∧
      s.nTotalLower.toInt = ((s.vValue.map Prod.snd).map wallet.valueOf).sum := by
  have hperm := choices.shuffle_perm vCoins
  have hshuffled := hspendable.perm hperm
  have hcoins : (wallet.eligibleCoins nSpendTime nConfMine nConfTheirs
      (choices.shuffle vCoins)).Perm
      (wallet.eligibleCoins nSpendTime nConfMine nConfTheirs vCoins) :=
    WalletCoins.perm_eligibleCoins hperm
  have hvalue : wallet.eligibleValue nSpendTime nConfMine nConfTheirs (choices.shuffle vCoins) =
      wallet.eligibleValue nSpendTime nConfMine nConfTheirs vCoins :=
    (hcoins.map wallet.valueOf).sum_eq
  have hmax : ∀ coin ∈ wallet.eligibleCoins nSpendTime nConfMine nConfTheirs
      (choices.shuffle vCoins), wallet.valueOf coin < Int64.maxValue.toInt := by
    intro coin hcoin
    have hle := hshuffled.sum_le (List.nodup_singleton coin) fun coin' hcoin' =>
      List.mem_singleton.mp hcoin' ▸ hcoin
    rw [List.map_singleton, List.sum_singleton, hvalue] at hle
    exact hle.trans_lt hlt
  have hstart : ({} : SelectState).Sorts [] :=
    ⟨List.Sublist.refl _, fun _ => rfl, nofun, fun _ => rfl⟩
  rcases selectLoop_sorts hshuffled hmax hstart with ⟨coin, hselect, hmem⟩ | ⟨s, hselect, hsorts⟩
  · obtain ⟨coin', hcoin', heq, -⟩ | ⟨s', hs', -⟩ :=
      selectLoop_spec hshuffled.toOffers (SelectState.keeps_start _) hselect
    · cases hcoin'
      exact Or.inl ⟨coin, hselect, heq, hcoins.mem_iff.mp hmem⟩
    · cases hs'
  · obtain ⟨coin', hcoin', -⟩ | ⟨s', hs', hkeeps⟩ :=
      selectLoop_spec hshuffled.toOffers (SelectState.keeps_start _) hselect
    · cases hcoin'
    · cases hs'
      rw [List.nil_append] at hsorts
      obtain ⟨hsum, hamounts⟩ := hkeeps.summable_of_sorts hshuffled hsorts (by omega)
      exact Or.inr ⟨s, _, hselect, hcoins, hkeeps, hsorts, hsum,
        (hkeeps.sum_amounts hsum).symm.trans hamounts⟩

/-- How `SelectCoinsMinConf` ends on eligible coins that can be summed up: it selects a coin of
exactly the target, or they do not add up to the target and it selects nothing, or it selects some of
them and meets the target exactly or leaves at least a `CENT`, if they allow that. -/
lemma selectCoinsMinConf_cases
    (hlen : vCoins.length < 2 ^ 32) (hcent : nTargetValue.toInt + CENT.toInt < 2 ^ 63)
    (hlt : wallet.eligibleValue nSpendTime nConfMine nConfTheirs vCoins < 2 ^ 63 - 1) :
    ∃ r, selectCoinsMinConf wallet choices nTargetValue nSpendTime nConfMine nConfTheirs vCoins =
        .ok r ∧
      (r = none → wallet.eligibleValue nSpendTime nConfMine nConfTheirs vCoins <
        nTargetValue.toInt) ∧
      ∀ setCoinsRet nValueRet, r = some (setCoinsRet, nValueRet) →
        (∀ coin ∈ setCoinsRet,
          coin ∈ wallet.eligibleCoins nSpendTime nConfMine nConfTheirs vCoins) ∧
        (nTargetValue.toInt + CENT.toInt ≤
            wallet.eligibleValue nSpendTime nConfMine nConfTheirs vCoins →
          nValueRet = nTargetValue ∨ nTargetValue + CENT ≤ nValueRet) := by
  obtain ⟨hadd, htarget⟩ := target_add_cent hcent
  rcases selectLoop_shuffled choices hspendable hlt with
    ⟨coin, hselect, heq, hmem⟩ | ⟨s, seen, hselect, hseen, hkeeps, hsorts, hsum, htotal⟩
  · refine ⟨some ([coin.2], coin.1), by rw [selectCoinsMinConf, hselect],
      (fun hnone => by cases hnone), ?_⟩
    intro setCoinsRet nValueRet hr
    cases hr
    exact ⟨fun c hc => List.mem_singleton.mp hc ▸ hmem, fun _ => Or.inl heq⟩
  have hloop : loopTo s.vValue.length = .ok () := by
    have hle := hsorts.sublist.length_le
    rw [List.length_map, hseen.length_eq, WalletCoins.eligibleCoins, List.length_map] at hle
    exact if_pos ((hle.trans (List.length_filter_le _ _)).trans_lt hlen)
  -- without a larger coin, the smaller ones are all
  have hall (hnone : s.larger = none) : s.nTotalLower.toInt =
      wallet.eligibleValue nSpendTime nConfMine nConfTheirs vCoins := by
    rw [htotal, hsorts.all hnone]
    exact (hseen.map wallet.valueOf).sum_eq
  rw [selectCoinsMinConf, hselect]
  dsimp only
  by_cases heq : s.nTotalLower = nTargetValue
  · refine ⟨some (takeMarked s.vValue (List.replicate s.vValue.length true)), ?_, ?_, ?_⟩
    · rw [if_pos heq, hloop]
      rfl
    · intro hnone
      cases hnone
    intro setCoinsRet nValueRet hr
    have htaken := Option.some.inj hr
    refine ⟨fun coin hcoin => ?_, fun _ => Or.inl ?_⟩
    · have hcoin' : coin ∈ (takeMarked s.vValue (List.replicate s.vValue.length true)).1 := by
        rw [htaken]
        exact hcoin
      exact hseen.mem_iff.mp (hsorts.sublist.subset (mem_takeMarked hcoin'))
    · have hmarked := (takeMarked_spec hkeeps.holds hkeeps.nodup hsum
        (List.replicate s.vValue.length true)).2
      have hlenAmounts : s.vValue.length = (amounts s.vValue).length := by simp [amounts]
      rw [hlenAmounts, markedSum_replicate_true, ← hlenAmounts, htaken, hkeeps.sum_amounts hsum,
        heq] at hmarked
      exact Int64.toInt_inj.mp hmarked
  rw [if_neg heq]
  by_cases hlower : s.nTotalLower < nTargetValue
  · rw [if_pos hlower]
    rw [Int64.lt_iff_toInt_lt] at hlower
    cases hlarger : s.larger with
    | none => exact ⟨none, rfl, fun _ => hall hlarger ▸ hlower, fun _ _ hr => by cases hr⟩
    | some coin =>
      refine ⟨some ([coin], s.coinLowestLarger), rfl, (fun hnone => by cases hnone), ?_⟩
      intro setCoinsRet nValueRet hr
      cases hr
      refine ⟨fun c hc => ?_, fun _ => Or.inr (hkeeps.larger coin hlarger).2⟩
      rw [List.mem_singleton.mp hc]
      exact hseen.mem_iff.mp (hsorts.larger coin hlarger)
  · rw [if_neg hlower]
    obtain ⟨hmem, hrule⟩ :=
      selectSubset_rule choices hkeeps hsorts hsum htarget (Int64.not_lt.mp hlower)
    refine ⟨some (selectSubset choices nTargetValue s), by rw [hloop]; rfl,
      (fun hnone => by cases hnone), ?_⟩
    intro setCoinsRet nValueRet hr
    have hselected := Option.some.inj hr
    rw [hselected] at hmem hrule
    refine ⟨fun coin hcoin => hseen.mem_iff.mp (hmem coin hcoin), fun hge => hrule fun hnone => ?_⟩
    rw [Int64.le_iff_toInt_le, hadd, hall hnone]
    exact hge

/-- What `SelectCoinsMinConf` selects from coins that can be summed up. -/
lemma selectCoinsMinConf_selected (hcent : nTargetValue.toInt + CENT.toInt < 2 ^ 63)
    (hlt : wallet.eligibleValue nSpendTime nConfMine nConfTheirs vCoins < 2 ^ 63 - 1)
    {setCoinsRet : List Coin} {nValueRet : Int64}
    (h : selectCoinsMinConf wallet choices nTargetValue nSpendTime nConfMine nConfTheirs vCoins =
      .ok (some (setCoinsRet, nValueRet))) :
    Selected wallet setCoinsRet nValueRet ∧ nTargetValue ≤ nValueRet := by
  have htarget : nTargetValue ≤ nTargetValue + CENT := (target_add_cent hcent).2
  refine selectCoinsMinConf_of_summable hspendable.toOffers htarget (fun s hs _ => ?_) h
  rcases selectLoop_shuffled choices hspendable hlt with
    ⟨coin, hselect, -⟩ | ⟨s', _, hselect, -, -, -, hsum, -⟩
  · cases hs.symm.trans hselect
  · cases hs.symm.trans hselect
    exact hsum

end

/-- For every shuffle and every random choice, `SelectCoinsMinConf` returns, and it returns true
exactly if the eligible coins add up to the target.  Then the selected coins are different eligible
ones, the value is the sum of theirs and at least the target, and if the eligible coins add up to the
target and one `CENT` then what is left over is nothing or at least a `CENT`.  The target and one
`CENT` is in the range of an `int64`, and so is the sum of the eligible coins. -/
theorem selectCoinsMinConf_iff (wallet : WalletCoins) (choices : Choices) (nTargetValue : Int64)
    (nSpendTime : UInt32) (nConfMine nConfTheirs : Int32) (vCoins : List COutput)
    (hspendable : wallet.Spendable vCoins) (hlen : vCoins.length < 2 ^ 32)
    (hcent : nTargetValue.toInt + CENT.toInt < 2 ^ 63)
    (hlt : wallet.eligibleValue nSpendTime nConfMine nConfTheirs vCoins < 2 ^ 63 - 1) :
    ∃ r, selectCoinsMinConf wallet choices nTargetValue nSpendTime nConfMine nConfTheirs vCoins =
        .ok r ∧
      (r.isSome = true ↔
        nTargetValue.toInt ≤ wallet.eligibleValue nSpendTime nConfMine nConfTheirs vCoins) ∧
      ∀ setCoinsRet nValueRet, r = some (setCoinsRet, nValueRet) →
        setCoinsRet.Nodup ∧
        (∀ coin ∈ setCoinsRet,
          coin ∈ wallet.eligibleCoins nSpendTime nConfMine nConfTheirs vCoins) ∧
        nValueRet.toInt = (setCoinsRet.map wallet.valueOf).sum ∧
        nTargetValue.toInt ≤ nValueRet.toInt ∧
        (nTargetValue.toInt + CENT.toInt ≤
            wallet.eligibleValue nSpendTime nConfMine nConfTheirs vCoins →
          nValueRet.toInt - nTargetValue.toInt = 0 ∨
            CENT.toInt ≤ nValueRet.toInt - nTargetValue.toInt) := by
  obtain ⟨r, hr, hnone, hsome⟩ := selectCoinsMinConf_cases choices hspendable hlen hcent hlt
  obtain ⟨hadd, -⟩ := target_add_cent hcent
  have hspec : ∀ setCoinsRet nValueRet, r = some (setCoinsRet, nValueRet) →
      Selected wallet setCoinsRet nValueRet ∧ nTargetValue ≤ nValueRet := by
    rintro setCoinsRet nValueRet rfl
    exact selectCoinsMinConf_selected choices hspendable hcent hlt hr
  refine ⟨r, hr, ⟨fun h => ?_, fun hge => ?_⟩, fun setCoinsRet nValueRet heq => ?_⟩
  · obtain ⟨⟨setCoinsRet, nValueRet⟩, heq⟩ := Option.isSome_iff_exists.mp h
    obtain ⟨hselected, hge⟩ := hspec setCoinsRet nValueRet heq
    rw [Int64.le_iff_toInt_le, hselected.value] at hge
    exact hge.trans (hspendable.sum_le hselected.nodup (hsome setCoinsRet nValueRet heq).1)
  · cases hr' : r with
    | none => exact absurd hge (not_le.mpr (hnone hr'))
    | some _ => rfl
  · obtain ⟨hselected, hge⟩ := hspec setCoinsRet nValueRet heq
    obtain ⟨hmem, hrule⟩ := hsome setCoinsRet nValueRet heq
    refine ⟨hselected.nodup, hmem, hselected.value, Int64.le_iff_toInt_le.mp hge, fun hall => ?_⟩
    rcases hrule hall with rfl | hleft
    · exact Or.inl (sub_self _)
    · rw [Int64.le_iff_toInt_le, hadd] at hleft
      exact Or.inr (by omega)

end Rule

/-! ## A target out of range -/

/-- A wallet with a single coin. -/
def singleCoin (nValue : Int64) : WalletCoins where
  mapWallet := (∅ : Std.ExtTreeMap UInt256 CWalletTx).insert 1
    { tx := { vout := [{ nValue }] }, isFinal := true, isConfirmed := true, isFromMe := false,
      blocksToMaturity := 0, depthInMainChain := 10, isSpent := fun _ => false }
  isMine _ := true

/-- The coin. -/
def singleOutput : COutput := ⟨1, 0, 10⟩

/-- Lists stay in their order, and every draw is the same. -/
def plainChoices : Choices where
  shuffle l := l
  shuffle_perm := List.Perm.refl
  sort l := l
  sort_perm := List.Perm.refl
  rand _ _ _ := true
  order l := l
  order_perm := List.Perm.refl

lemma output_singleCoin (nValue : Int64) :
    (singleCoin nValue).output singleOutput.coin = some { nValue } := by
  rw [WalletCoins.output, COutput.coin, singleOutput, singleCoin]
  dsimp only
  rw [Std.ExtTreeMap.getElem?_insert_self]
  rfl

lemma spendable_singleCoin {nValue : Int64} (h : 0 < nValue) :
    (singleCoin nValue).Spendable [singleOutput] := by
  have hindex : singleOutput.coin.2 ≠ 0xffffffff := by decide
  refine ⟨⟨List.nodup_singleton _, fun o ho => ?_⟩, fun o ho => ?_⟩
  · rw [List.mem_singleton.mp ho]
    exact ⟨nValue, _, output_singleCoin nValue, rfl, h, hindex⟩
  · rw [List.mem_singleton.mp ho]
    decide

lemma eligibleValue_singleCoin (nValue : Int64) :
    (singleCoin nValue).eligibleValue 0 1 6 [singleOutput] = nValue.toInt := by
  have heligible : (singleCoin nValue).eligible 0 1 6 singleOutput = true := by
    rw [WalletCoins.eligible, singleOutput, singleCoin]
    dsimp only
    rw [Std.ExtTreeMap.getElem?_insert_self]
    rfl
  rw [WalletCoins.eligibleValue, WalletCoins.eligibleCoins, List.filter_cons_of_pos heligible]
  rw [List.filter_nil, List.map_singleton, List.map_singleton, List.sum_singleton,
    WalletCoins.valueOf, output_singleCoin]

/-- A wallet with a coin that is worth less than the target selects nothing. -/
theorem selectCoinsMinConf_iff_single :
    ∃ r, selectCoinsMinConf (singleCoin 5) plainChoices 6 0 1 6 [singleOutput] = .ok r ∧
      (r.isSome = true ↔
        (6 : Int64).toInt ≤ (singleCoin 5).eligibleValue 0 1 6 [singleOutput]) ∧
      ∀ setCoinsRet nValueRet, r = some (setCoinsRet, nValueRet) →
        setCoinsRet.Nodup ∧
        (∀ coin ∈ setCoinsRet, coin ∈ (singleCoin 5).eligibleCoins 0 1 6 [singleOutput]) ∧
        nValueRet.toInt = (setCoinsRet.map (singleCoin 5).valueOf).sum ∧
        (6 : Int64).toInt ≤ nValueRet.toInt ∧
        ((6 : Int64).toInt + CENT.toInt ≤
            (singleCoin 5).eligibleValue 0 1 6 [singleOutput] →
          nValueRet.toInt - (6 : Int64).toInt = 0 ∨
            CENT.toInt ≤ nValueRet.toInt - (6 : Int64).toInt) :=
  selectCoinsMinConf_iff (singleCoin 5) plainChoices 6 0 1 6 [singleOutput]
    (spendable_singleCoin (by decide)) (by decide) (by decide)
    (by rw [eligibleValue_singleCoin]; decide)

/-- With a target near the end of the range of an `int64`, a coin that is worth less is selected. -/
theorem selectCoinsMinConf_out_of_range :
    selectCoinsMinConf (singleCoin 5) plainChoices Int64.maxValue 0 1 6 [singleOutput] =
        .ok (some ([singleOutput.coin], 5)) ∧
      (singleCoin 5).Spendable [singleOutput] ∧
      (singleCoin 5).eligibleValue 0 1 6 [singleOutput] = 5 ∧
      (5 : ℤ) < Int64.maxValue.toInt := by
  refine ⟨by decide +kernel, spendable_singleCoin (by decide), eligibleValue_singleCoin 5, by decide⟩

end HyperStake
