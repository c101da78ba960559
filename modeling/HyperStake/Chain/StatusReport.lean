import HyperStake.Chain.ProposalStatus

/-!
# When the status of a proposal is right

The report of `getproposalstatus` is compared with the blocks whose votes `ConnectBlock` has
counted, those of the chain from the start of the period to its end on which the proposal was
registered.
-/

namespace HyperStake

open Descending

/-! ## The numbers of a report -/

namespace CVoteSummary

/-- The number of blocks voted is the difference of the heights. -/
lemma total_status {summary : CVoteSummary} (nHeightEnd nBestHeight : Int32) {nHeightTally : Int32}
    (hle : (summary.nBlockStart.toNat : ℤ) ≤ nHeightTally.toInt) :
    (summary.status nHeightEnd nHeightTally nBestHeight).total_blocks_voted.toInt
      = nHeightTally.toInt - summary.nBlockStart.toNat := by
  have hheight : nHeightTally.toInt = nHeightTally.toUInt32.toNat := by
    have hsigned : nHeightTally.toInt = nHeightTally.toUInt32.toInt32.toInt := rfl
    rw [toInt_toInt32] at hsigned
    have hlt := nHeightTally.toUInt32.toNat_lt
    split_ifs at hsigned <;> omega
  have hle' : summary.nBlockStart ≤ nHeightTally.toUInt32 := by
    rw [UInt32.le_iff_toNat_le]
    omega
  change (widen (nHeightTally.toUInt32 - summary.nBlockStart)).toInt = _
  rw [toInt_widen, UInt32.toNat_sub_of_le _ _ hle']
  rw [UInt32.le_iff_toNat_le] at hle'
  omega

/-- The blocks that abstain are the other ones. -/
lemma abstain_status (summary : CVoteSummary) (nHeightEnd nHeightTally nBestHeight : Int32) :
    (summary.status nHeightEnd nHeightTally nBestHeight).abstain_votes.toInt
      = (summary.status nHeightEnd nHeightTally nBestHeight).total_blocks_voted.toInt
        - summary.nNoTally.toNat - summary.nYesTally.toNat := by
  have htotal := toInt_widen (nHeightTally.toUInt32 - summary.nBlockStart)
  have hlt := (nHeightTally.toUInt32 - summary.nBlockStart).toNat_lt
  have hno := summary.nNoTally.toNat_lt
  have hyes := summary.nYesTally.toNat_lt
  change (widen (nHeightTally.toUInt32 - summary.nBlockStart) - widen summary.nNoTally
    - widen summary.nYesTally).toInt
      = (widen (nHeightTally.toUInt32 - summary.nBlockStart)).toInt - _ - _
  have hfirst : (widen (nHeightTally.toUInt32 - summary.nBlockStart)
      - widen summary.nNoTally).toInt
        = (widen (nHeightTally.toUInt32 - summary.nBlockStart)).toInt - summary.nNoTally.toNat := by
    rw [Int64Sum.toInt_sub, toInt_widen summary.nNoTally]
    rw [htotal, toInt_widen]
    constructor <;> omega
  rw [Int64Sum.toInt_sub, hfirst, toInt_widen summary.nYesTally]
  rw [hfirst, htotal, toInt_widen]
  constructor <;> omega

end CVoteSummary

/-- The report on a proposal is right: no number of blocks is negative, the votes add up to the
number of blocks voted, this is the number of the blocks whose votes were counted, and nothing is
divided by zero. -/
structure ReportsVotes (h : UInt256) (blocks : List (CBlockIndex × Registry)) (s : VotingStatus) :
    Prop where
  abstain_nonneg : 0 ≤ s.abstain_votes.toInt
  sum : s.yes_votes.toInt + s.no_votes.toInt + s.abstain_votes.toInt = s.total_blocks_voted.toInt
  total : s.total_blocks_voted.toInt = blocks.countP (isCounted h)
  divisor_ne_zero : ∀ q, s.ratio = some q → q.2 ≠ 0

/-- If the yes and no votes are from different ones of the counted blocks, of which there is one,
then the report is right exactly if it has the number of the counted blocks, and there are votes. -/
lemma CVoteSummary.reportsVotes_status_iff {summary : CVoteSummary}
    {nHeightEnd nHeightTally nBestHeight : Int32} {h : UInt256}
    {blocks : List (CBlockIndex × Registry)}
    (hvotes : summary.nYesTally.toNat + summary.nNoTally.toNat ≤ blocks.countP (isCounted h))
    (hcounted : 0 < blocks.countP (isCounted h)) :
    ReportsVotes h blocks (summary.status nHeightEnd nHeightTally nBestHeight) ↔
      (summary.status nHeightEnd nHeightTally nBestHeight).total_blocks_voted.toInt
          = blocks.countP (isCounted h) ∧
        0 < summary.nYesTally.toNat + summary.nNoTally.toNat := by
  have habstain := summary.abstain_status nHeightEnd nHeightTally nBestHeight
  have hyes : (summary.status nHeightEnd nHeightTally nBestHeight).yes_votes.toInt
      = summary.nYesTally.toNat := toInt_widen _
  have hno : (summary.status nHeightEnd nHeightTally nBestHeight).no_votes.toInt
      = summary.nNoTally.toNat := toInt_widen _
  have hratio : (summary.status nHeightEnd nHeightTally nBestHeight).ratio =
      if (summary.status nHeightEnd nHeightTally nBestHeight).total_blocks_voted ≠ 0 then
        some ((summary.nYesTally.toNat : ℤ),
          (summary.status nHeightEnd nHeightTally nBestHeight).total_blocks_voted.toInt
            - (summary.status nHeightEnd nHeightTally nBestHeight).abstain_votes.toInt)
      else none := rfl
  generalize summary.status nHeightEnd nHeightTally nBestHeight = s at *
  have hzero : s.total_blocks_voted = 0 → s.total_blocks_voted.toInt = 0 := fun heq => by
    rw [heq]
    rfl
  constructor
  · rintro ⟨-, -, htotal, hdivisor⟩
    refine ⟨htotal, ?_⟩
    rw [if_pos fun heq => by have h0 := hzero heq; omega] at hratio
    have hne := hdivisor _ hratio
    dsimp only at hne
    omega
  · rintro ⟨htotal, hpos⟩
    refine ⟨by omega, by omega, htotal, fun q hq => ?_⟩
    rw [hratio, if_pos fun heq => by have h0 := hzero heq; omega, Option.some.injEq] at hq
    rw [← hq]
    dsimp only
    omega

/-! ## The end of the period -/

namespace CVoteProposal

variable {p : CVoteProposal}

lemma toInt_nHeightTally (nBestHeight : Int32) :
    (p.nHeightTally nBestHeight).toInt = min p.nHeightEnd.toInt nBestHeight.toInt := by
  rw [nHeightTally]
  split_ifs with hlt <;> rw [Int32.lt_iff_toInt_lt] at hlt <;> omega

/-- The end is above the start exactly if it is a height, and the period has a length. -/
lemma lt_nHeightEnd_iff (hstart : (p.nStartHeight.toNat : ℤ) < 2 ^ 31) :
    (p.nStartHeight.toNat : ℤ) < p.nHeightEnd.toInt ↔
      (p.nStartHeight.toNat : ℤ) + p.nCheckSpan.toNat < 2 ^ 31 ∧ p.nCheckSpan ≠ 0 := by
  have hzero : p.nCheckSpan = 0 ↔ p.nCheckSpan.toNat = 0 := by
    rw [← UInt32.toNat_inj]
    rfl
  have hsum := UInt32.toNat_add p.nStartHeight p.nCheckSpan
  have hspan := p.nCheckSpan.toNat_lt
  rw [nHeightEnd, getStartHeight, getCheckSpan, toInt_toInt32, ne_eq, hzero]
  split_ifs <;> omega

/-- In a period that leaves no `int`, and at its end. -/
lemma inPeriod_or_afterPeriod_iff
    (hfits : (p.nStartHeight.toNat : ℤ) + p.nCheckSpan.toNat < 2 ^ 31) (b : CBlockIndex) :
    (p.inPeriod b || p.afterPeriod b) = true ↔
      p.nStartHeight.toNat ≤ heightOf b ∧ heightOf b ≤ p.nHeightEnd.toInt := by
  have hsum := UInt32.toNat_add p.nStartHeight p.nCheckSpan
  rw [nHeightEnd, getStartHeight, getCheckSpan, toInt_toInt32, if_pos (by omega), inPeriod,
    afterPeriod, Bool.or_eq_true, decide_eq_true_eq, decide_eq_true_eq, heightOf]
  omega

/-- The proposal was registered by the block after the one at its start height, the period has a
length and leaves no `int`, and a block that is counted has voted. -/
structure RegisteredOneLate (hash : Bytes → UInt256) (p : CVoteProposal)
    (blocks : List (CBlockIndex × Registry)) : Prop where
  fits : (p.nStartHeight.toNat : ℤ) + p.nCheckSpan.toNat < 2 ^ 31
  length : p.nCheckSpan ≠ 0
  registered : ∃ c ∈ blocks, heightOf c.1 = p.nStartHeight.toNat + 1 ∧ p.registeredAt hash c = true
  not_before : ∀ c ∈ blocks, heightOf c.1 = p.nStartHeight.toNat → p.registeredAt hash c = false
  voted : ∃ c ∈ blocks, (p.inPeriod c.1 || p.afterPeriod c.1) = true ∧
    p.registeredAt hash c = true ∧ ∃ fYes, p.hasVote fYes c.1 = true

end CVoteProposal

/-- The position of the newest block of a chain. -/
def bestPosition (tip : CBlockIndex × Registry) (chain : List (CBlockIndex × Registry)) :
    ChainPosition :=
  { current := tip.1, after := chain.map Prod.fst }

section Status

variable {hash : Bytes → UInt256} {txs : List CTransaction} {tip : CBlockIndex × Registry}
  {chain : List (CBlockIndex × Registry)} {r : Registry} {p : CVoteProposal}

variable {c : CBlockIndex × Registry} {before older : List (CBlockIndex × Registry)}
  {summary : CVoteSummary}

variable (hhist : VotingHistory hash txs (tip :: chain) r)
  (hreg : r.proposalManager.mapProposalData[p.getHash hash]?
    = some (CProposalMetaData.ofProposal hash p))
  (hstart : (p.nStartHeight.toNat : ℤ) < 2 ^ 31) (hsplit : tip :: chain = before ++ c :: older)

include hhist hreg hstart in
/-- A block is counted for a proposal that the manager holds if the proposal is registered then, and
the height is from the start to the end of the period. -/
lemma isCounted_iff (hc : c ∈ tip :: chain) :
    isCounted (p.getHash hash) c = true ↔ p.registeredAt hash c = true ∧
      p.nStartHeight.toNat ≤ heightOf c.1 ∧ heightOf c.1 ≤ p.nHeightEnd.toInt := by
  have hstartInt : p.nStartHeight.toInt32.toInt = p.nStartHeight.toNat := by
    rw [toInt_toInt32, if_pos (by omega)]
  rw [isCounted, CVoteProposal.registeredAt, ← Std.ExtTreeMap.isSome_getElem?_eq_contains]
  cases hget : c.2.proposalManager.mapProposalData[p.getHash hash]? with
  | none => simp
  | some data =>
    obtain rfl := hhist.eq_of_mem hc hget hreg
    dsimp only
    rw [CProposalMetaData.isActive_iff, Int32.le_iff_toInt_le, Int32.le_iff_toInt_le]
    change p.nStartHeight.toInt32.toInt ≤ _ ∧ _ ≤ p.nHeightEnd.toInt ↔ _
    rw [hstartInt]
    simp [heightOf]

include hhist hreg in
/-- The vote of a block is counted for a choice if the block is counted, and holds the choice. -/
lemma countsFor_iff {fYes : Bool} (hc : c ∈ tip :: chain) :
    countsFor (p.getHash hash) fYes c = true ↔
      isCounted (p.getHash hash) c = true ∧ p.hasVote fYes c.1 = true := by
  rw [isCounted, countsFor]
  cases hget : c.2.proposalManager.mapProposalData[p.getHash hash]? with
  | none => simp
  | some data =>
    obtain rfl := hhist.eq_of_mem hc hget hreg
    exact Bool.and_eq_true_iff

/-- The RPC reports the summary of the block at the end of the period, or of the best block. -/
lemma getproposalstatus_eq_ok_iff {pindexBest : ChainPosition}
    {pblockindexFBBHLast : Option ChainPosition} {txid : UInt256} {s : VotingStatus}
    (hread : r.voteDB.readProposal txid = some p)
    (hstart : (p.nStartHeight.toNat : ℤ) < 2 ^ 31)
    (hreached : (p.nStartHeight.toNat : ℤ) ≤ heightOf pindexBest.current) :
    getproposalstatus hash r pindexBest pblockindexFBBHLast txid = .ok (.voting s) ↔
      ∃ pos summary,
        findBlockByHeight (p.nHeightTally pindexBest.current.nHeight) pindexBest
          pblockindexFBBHLast = some pos ∧
        pos.current.tally.mapVotes[p.getHash hash]? = some summary ∧
        summary.status p.nHeightEnd (p.nHeightTally pindexBest.current.nHeight)
          pindexBest.current.nHeight = s := by
  have hnot : ¬ pindexBest.current.nHeight < p.nStartHeight.toInt32 := by
    rw [Int32.lt_iff_toInt_lt, toInt_toInt32, if_pos (by omega)]
    exact hreached.not_gt
  rw [getproposalstatus, hread]
  dsimp only
  rw [CVoteProposal.getStartHeight, if_neg hnot]
  cases findBlockByHeight (p.nHeightTally pindexBest.current.nHeight) pindexBest
      pblockindexFBBHLast with
  | none => simp
  | some pos =>
    dsimp only
    rw [CVoteTally.getSummary]
    cases hget : pos.current.tally.mapVotes[p.getHash hash]? <;> simp [hget]

/-- A proposal that is registered at a block is registered at every higher one. -/
lemma registeredAt_of_le (hhist : VotingHistory hash txs chain r) {b : CBlockIndex × Registry}
    (hb : b ∈ chain) (hc : c ∈ chain) (hle : heightOf b.1 ≤ heightOf c.1)
    (hregistered : p.registeredAt hash b = true) : p.registeredAt hash c = true := by
  have hdescends := hhist.descends
  have hpairwise := hhist.pairwise_registeredAt p
  obtain ⟨before, older, rfl⟩ := List.append_of_mem hc
  rcases List.mem_append.mp hb with hb | hb
  · have hlt : heightOf c.1 < heightOf b.1 := hdescends.lt_of_mem_append hb
    omega
  · rcases List.mem_cons.mp hb with rfl | hb
    · exact hregistered
    · exact (List.pairwise_cons.mp (List.pairwise_append.mp hpairwise).2.1).1 b hb hregistered

/-- The two choices of a block exclude each other. -/
lemma countsFor_add_le (h : UInt256) (blocks : List (CBlockIndex × Registry)) :
    blocks.countP (countsFor h true) + blocks.countP (countsFor h false)
      ≤ blocks.countP (isCounted h) := by
  induction blocks with
  | nil => simp
  | cons c blocks ih =>
    have hone : (countsFor h true c).toNat + (countsFor h false c).toNat
        ≤ (isCounted h c).toNat := by
      rw [countsFor, countsFor, isCounted]
      cases c.2.proposalManager.mapProposalData[h]? with
      | none => simp
      | some data =>
        dsimp only
        cases data.isActive c.1.nHeight with
        | false => simp
        | true =>
          generalize data.location.voteField c.1.nVersion.toUInt32.toBitVec = nVote
          by_cases hyes : nVote = choiceValue true
          · subst hyes
            decide
          · rw [decide_eq_false hyes, Bool.true_and, Bool.true_and, Bool.toNat_false, zero_add]
            exact Bool.toNat_le _
    rw [List.countP_cons, List.countP_cons, List.countP_cons]
    revert hone
    cases countsFor h true c <;> cases countsFor h false c <;> cases isCounted h c <;>
      simp <;> omega

include hhist hreg hstart hsplit in
/-- Blocks above the height of the reported tally are not counted. -/
lemma countP_eq_of_reported (hheight : heightOf c.1 = min p.nHeightEnd.toInt (heightOf tip.1))
    {q : CBlockIndex × Registry → Bool}
    (hq : ∀ b ∈ tip :: chain, q b = true → isCounted (p.getHash hash) b = true) :
    (tip :: chain).countP q = (c :: older).countP q := by
  have hdescends := hhist.descends
  rw [hsplit, List.countP_append, List.countP_eq_zero.mpr, zero_add]
  intro b hb hqb
  have hmem : b ∈ tip :: chain := hsplit ▸ List.mem_append_left _ hb
  obtain ⟨-, -, hle⟩ := (isCounted_iff hhist hreg hstart hmem).mp (hq b hmem hqb)
  have htop : heightOf b.1 ≤ heightOf tip.1 := hdescends.le_of_mem hmem
  rw [hsplit] at hdescends
  have hlt : heightOf c.1 < heightOf b.1 := hdescends.lt_of_mem_append hb
  omega

/-- The report that is made from the summary of a block. -/
structure Reported (hash : Bytes → UInt256) (p : CVoteProposal) (tip : CBlockIndex × Registry)
    (c : CBlockIndex × Registry) (older : List (CBlockIndex × Registry)) (summary : CVoteSummary) :
    Prop where
  start : summary.nBlockStart = p.nStartHeight
  height : heightOf c.1 = min p.nHeightEnd.toInt (heightOf tip.1)
  tallies : ∀ fYes,
    (summary.tallyOf fYes).toNat = (c :: older).countP (countsFor (p.getHash hash) fYes)
  counted : 0 < (c :: older).countP (isCounted (p.getHash hash))

include hhist hreg hstart hsplit in
/-- The report from a summary is right exactly if it has the number of the blocks that were counted up
to it, and one of them has voted. -/
lemma Reported.reportsVotes_iff_count (h : Reported hash p tip c older summary)
    (hle : p.nStartHeight.toNat ≤ heightOf c.1) :
    ReportsVotes (p.getHash hash) (tip :: chain)
        (summary.status p.nHeightEnd (p.nHeightTally tip.1.nHeight) tip.1.nHeight) ↔
      (c :: older).countP (isCounted (p.getHash hash)) = heightOf c.1 - p.nStartHeight.toNat ∧
        ∃ fYes, 0 < (c :: older).countP (countsFor (p.getHash hash) fYes) := by
  have htally : (p.nHeightTally tip.1.nHeight).toInt = heightOf c.1 := by
    rw [CVoteProposal.toInt_nHeightTally, h.height]
    rfl
  have htotal := CVoteSummary.total_status p.nHeightEnd tip.1.nHeight
    (show (summary.nBlockStart.toNat : ℤ) ≤ (p.nHeightTally tip.1.nHeight).toInt by
      rw [h.start, htally]
      exact hle)
  rw [h.start, htally] at htotal
  have hall : (tip :: chain).countP (isCounted (p.getHash hash))
      = (c :: older).countP (isCounted (p.getHash hash)) :=
    countP_eq_of_reported hhist hreg hstart hsplit h.height fun _ _ hb => hb
  have hyes : summary.nYesTally.toNat = _ := h.tallies true
  have hno : summary.nNoTally.toNat = _ := h.tallies false
  have hadd := countsFor_add_le (p.getHash hash) (c :: older)
  have hcounted := h.counted
  rw [CVoteSummary.reportsVotes_status_iff (by omega) (by omega), htotal, hall, hyes, hno, eq_comm,
    Bool.exists_bool]
  exact and_congr_right' ⟨fun _ => by omega, fun _ => by omega⟩

include hhist hreg hstart hsplit in
/-- The number of the counted blocks is that of the heights exactly if the proposal was registered by
the block after the one at its start height. -/
lemma countP_isCounted_iff (hlt : p.nStartHeight.toNat < heightOf c.1)
    (hend : heightOf c.1 ≤ p.nHeightEnd.toInt) :
    (c :: older).countP (isCounted (p.getHash hash)) = heightOf c.1 - p.nStartHeight.toNat ↔
      (∃ b ∈ tip :: chain,
        heightOf b.1 = p.nStartHeight.toNat + 1 ∧ p.registeredAt hash b = true) ∧
      ∀ b ∈ tip :: chain, heightOf b.1 = p.nStartHeight.toNat → p.registeredAt hash b = false := by
  have hdescends := hhist.descends
  have hmem : ∀ {b}, b ∈ c :: older → b ∈ tip :: chain := fun hb =>
    hsplit ▸ List.mem_append_right _ hb
  have hL : Descends (fun c => heightOf c.1) (c :: older) :=
    List.IsChain.right_of_append (hsplit ▸ hdescends)
  -- only the blocks up to the reported one are at heights up to its own
  have hlow : ∀ b ∈ tip :: chain, heightOf b.1 ≤ heightOf c.1 → b ∈ c :: older := by
    intro b hb hle
    rw [hsplit] at hb hdescends
    rcases List.mem_append.mp hb with hb | hb
    · have hlt : heightOf c.1 < heightOf b.1 := hdescends.lt_of_mem_append hb
      omega
    · exact hb
  -- between the ends of the period, a block is counted if the proposal is registered then
  have hcountedIff : ∀ {b}, b ∈ c :: older → p.nStartHeight.toNat ≤ heightOf b.1 →
      (isCounted (p.getHash hash) b = true ↔ p.registeredAt hash b = true) := by
    intro b hb hge
    have hbelow : heightOf b.1 ≤ heightOf c.1 := hL.le_of_mem hb
    rw [isCounted_iff hhist hreg hstart (hmem hb)]
    exact and_iff_left ⟨hge, hbelow.trans hend⟩
  have hpairwise : (c :: older).Pairwise fun later earlier =>
      isCounted (p.getHash hash) earlier = true → isCounted (p.getHash hash) later = true := by
    refine hL.pairwise.imp_of_mem fun {later earlier} hlater hearlier hlt hb => ?_
    obtain ⟨hregistered, hge, -⟩ := (isCounted_iff hhist hreg hstart (hmem hearlier)).mp hb
    exact (hcountedIff hlater (hge.trans hlt.le)).mpr
      (registeredAt_of_le hhist (hmem hearlier) (hmem hlater) hlt.le hregistered)
  refine (hL.countP_eq_iff hpairwise hlt).trans (and_congr ⟨?_, ?_⟩ ⟨?_, ?_⟩)
  · rintro ⟨b, hb, hheight, hcounted⟩
    exact ⟨b, hmem hb, hheight, (hcountedIff hb (by omega)).mp hcounted⟩
  · rintro ⟨b, hb, hheight, hregistered⟩
    have hin := hlow b hb (by omega)
    exact ⟨b, hin, hheight, (hcountedIff hin (by omega)).mpr hregistered⟩
  · intro hnot b hb hheight
    have hin := hlow b hb (by omega)
    exact Bool.eq_false_iff.mpr fun hregistered => Bool.eq_false_iff.mp (hnot b hin hheight)
      ((hcountedIff hin hheight.ge).mpr hregistered)
  · intro hnot b hb hheight
    exact Bool.eq_false_iff.mpr fun hcounted => Bool.eq_false_iff.mp (hnot b (hmem hb) hheight)
      ((hcountedIff hb hheight.ge).mp hcounted)

include hhist hreg hsplit in
/-- A vote was counted exactly if a block in the period has one while the proposal is registered. -/
lemma exists_countsFor_iff (hfits : (p.nStartHeight.toNat : ℤ) + p.nCheckSpan.toNat < 2 ^ 31)
    (hheight : heightOf c.1 = min p.nHeightEnd.toInt (heightOf tip.1)) :
    (∃ fYes, 0 < (c :: older).countP (countsFor (p.getHash hash) fYes)) ↔
      ∃ b ∈ tip :: chain, (p.inPeriod b.1 || p.afterPeriod b.1) = true ∧
        p.registeredAt hash b = true ∧ ∃ fYes, p.hasVote fYes b.1 = true := by
  have hstart : (p.nStartHeight.toNat : ℤ) < 2 ^ 31 := by omega
  have hvoteIff : ∀ {b fYes}, b ∈ tip :: chain → (countsFor (p.getHash hash) fYes b = true ↔
      isCounted (p.getHash hash) b = true ∧ p.hasVote fYes b.1 = true) := fun hb =>
    countsFor_iff hhist hreg hb
  have hreported : ∀ fYes, (tip :: chain).countP (countsFor (p.getHash hash) fYes)
      = (c :: older).countP (countsFor (p.getHash hash) fYes) := fun fYes =>
    countP_eq_of_reported hhist hreg hstart hsplit hheight fun b hb hvote =>
      ((hvoteIff hb).mp hvote).1
  constructor
  · rintro ⟨fYes, hpos⟩
    rw [← hreported] at hpos
    obtain ⟨b, hb, hvote⟩ := List.countP_pos_iff.mp hpos
    obtain ⟨hcounted, hhas⟩ := (hvoteIff hb).mp hvote
    obtain ⟨hregistered, hperiod⟩ := (isCounted_iff hhist hreg hstart hb).mp hcounted
    exact ⟨b, hb, (CVoteProposal.inPeriod_or_afterPeriod_iff hfits b.1).mpr hperiod, hregistered,
      fYes, hhas⟩
  · rintro ⟨b, hb, hperiod, hregistered, fYes, hhas⟩
    have hcounted := (isCounted_iff hhist hreg hstart hb).mpr ⟨hregistered,
      (CVoteProposal.inPeriod_or_afterPeriod_iff hfits b.1).mp hperiod⟩
    refine ⟨fYes, ?_⟩
    rw [← hreported]
    exact List.countP_pos_iff.mpr ⟨b, hb, (hvoteIff hb).mpr ⟨hcounted, hhas⟩⟩

include hhist hreg hstart hsplit in
/-- The report from a summary is right exactly if the proposal was registered one block late. -/
lemma Reported.reportsVotes_iff (h : Reported hash p tip c older summary) :
    ReportsVotes (p.getHash hash) (tip :: chain)
        (summary.status p.nHeightEnd (p.nHeightTally tip.1.nHeight) tip.1.nHeight) ↔
      p.RegisteredOneLate hash (tip :: chain) := by
  have hdescends := hhist.descends
  have hmem : ∀ {b}, b ∈ c :: older → b ∈ tip :: chain := fun hb =>
    hsplit ▸ List.mem_append_right _ hb
  have hL : Descends (fun c => heightOf c.1) (c :: older) :=
    List.IsChain.right_of_append (hsplit ▸ hdescends)
  have hheight := h.height
  have hpos := h.counted
  obtain ⟨b₀, hb₀, hcounted₀⟩ := List.countP_pos_iff.mp hpos
  obtain ⟨-, hge₀, -⟩ := (isCounted_iff hhist hreg hstart (hmem hb₀)).mp hcounted₀
  have hle : p.nStartHeight.toNat ≤ heightOf c.1 := hge₀.trans (hL.le_of_mem hb₀)
  rw [h.reportsVotes_iff_count hhist hreg hstart hsplit hle]
  rcases hle.eq_or_lt with heq | hlt
  · -- the report is made at the start height, and says that no block has voted
    refine iff_of_false (fun hboth => by have := hboth.1; omega) fun hlate => ?_
    have hend := (CVoteProposal.lt_nHeightEnd_iff hstart).mpr ⟨hlate.fits, hlate.length⟩
    obtain ⟨b, hb, hbheight, -⟩ := hlate.registered
    have htop : heightOf b.1 ≤ heightOf tip.1 := hdescends.le_of_mem hb
    omega
  · have hend : heightOf c.1 ≤ p.nHeightEnd.toInt := by omega
    obtain ⟨hfits, hlength⟩ := (CVoteProposal.lt_nHeightEnd_iff hstart).mp (hlt.trans_le hend)
    rw [countP_isCounted_iff hhist hreg hstart hsplit hlt hend,
      exists_countsFor_iff hhist hreg hsplit hfits hheight]
    constructor
    · rintro ⟨⟨hregistered, hnot⟩, hvoted⟩
      exact ⟨hfits, hlength, hregistered, hnot, hvoted⟩
    · intro hlate
      exact ⟨⟨hlate.registered, hlate.not_before⟩, hlate.voted⟩

/-- The chain up to a block is one of a history, and what the summaries of the block say. -/
lemma RecordedHistory.summaries_of_split (hhist : RecordedHistory hash txs (tip :: chain) r)
    (hfree : CollisionFree hash txs p) (hsplit : tip :: chain = before ++ c :: older) :
    (∃ txs' r', (∀ tx ∈ txs', tx ∈ txs) ∧ VotingHistory hash txs' (c :: older) r') ∧
    (p.getHash hash ∈ c.1.tally.mapVotes ↔
      ∃ b ∈ c :: older, isCounted (p.getHash hash) b = true) ∧
    ∀ summary, c.1.tally.mapVotes[p.getHash hash]? = some summary →
      summary.nBlockStart = p.nStartHeight := by
  obtain ⟨txs', r', hsub, hhist'⟩ :=
    hhist.history.of_suffix (hsplit ▸ List.suffix_append before (c :: older))
  exact ⟨⟨txs', r', hsub, hhist'⟩, hhist'.summaries hsub hfree fun b hb =>
    hhist.recorded_of_mem b (hsplit ▸ List.mem_append_right _ hb)⟩

/-- What the summary of a block at the reported height says. -/
lemma reported_of_getElem? (hhist : RecordedHistory hash txs (tip :: chain) r)
    (hfree : CollisionFree hash txs p) (hsplit : tip :: chain = before ++ c :: older)
    (hheight : heightOf c.1 = min p.nHeightEnd.toInt (heightOf tip.1))
    (hget : c.1.tally.mapVotes[p.getHash hash]? = some summary) :
    Reported hash p tip c older summary := by
  obtain ⟨⟨txs', r', hsub, hhist'⟩, hmem, hstarts⟩ := hhist.summaries_of_split hfree hsplit
  refine ⟨hstarts summary hget, hheight, fun fYes => ?_, ?_⟩
  · have hvotes := hhist'.votes_eq (fun tx htx tx' htx' =>
      hfree.tx tx (hsub tx htx) tx' (hsub tx' htx')) (p.getHash hash) fYes
    rw [CVoteTally.votes, hget] at hvotes
    dsimp only at hvotes
    rw [hvotes, UInt32.toNat_ofNat_of_lt' (hhist'.countP_lt _ _)]
  · have hin : p.getHash hash ∈ c.1.tally.mapVotes :=
      MapLoop.mem_iff.mpr ⟨_, hget⟩
    exact List.countP_pos_iff.mpr (hmem.mp hin)

/-- The status of a proposal that the manager holds, once the chain has reached its start height, is
right exactly if the proposal was registered one block late, and someone has voted.  The block that
was found last may be any one of the chain. -/
theorem rightStatus_iff (hhist : RecordedHistory hash txs (tip :: chain) r)
    (hfree : CollisionFree hash txs p)
    (hreg : r.proposalManager.mapProposalData[p.getHash hash]?
      = some (CProposalMetaData.ofProposal hash p)) {txid : UInt256}
    (hmap : r.mapProposals[txid]? = some (p.getHash hash))
    (hreached : (p.nStartHeight.toNat : ℤ) ≤ heightOf tip.1)
    {pblockindexFBBHLast : Option ChainPosition}
    (hlast : ∀ pos ∈ pblockindexFBBHLast, pos.items = (bestPosition tip chain).items) :
    (∃ s, getproposalstatus hash r (bestPosition tip chain) pblockindexFBBHLast txid
        = .ok (.voting s) ∧
      ReportsVotes (p.getHash hash) (tip :: chain) s) ↔
      p.RegisteredOneLate hash (tip :: chain) := by
  have hstart : (p.nStartHeight.toNat : ℤ) < 2 ^ 31 := hreached.trans_lt tip.1.nHeight.toInt_lt
  have hdescends := hhist.history.descends
  have hread := readProposal_eq hfree (hhist.history.findable hfree.tx) hhist.recorded
    (fun _ h => h) hmap
  have hcall : ∀ s, getproposalstatus hash r (bestPosition tip chain) pblockindexFBBHLast txid
      = .ok (.voting s) ↔ ∃ pos summary,
        findBlockByHeight (p.nHeightTally tip.1.nHeight) (bestPosition tip chain)
          pblockindexFBBHLast = some pos ∧
        pos.current.tally.mapVotes[p.getHash hash]? = some summary ∧
        summary.status p.nHeightEnd (p.nHeightTally tip.1.nHeight) tip.1.nHeight = s := fun s =>
    @getproposalstatus_eq_ok_iff hash r { p with nVersion := 0 } _ _ _ s hread hstart hreached
  have htally : (p.nHeightTally tip.1.nHeight).toInt
      = min p.nHeightEnd.toInt (heightOf tip.1) := CVoteProposal.toInt_nHeightTally _
  have hitems : (bestPosition tip chain).items = (tip :: chain).map Prod.fst := rfl
  have hfound : Position.Found heightOf (p.nHeightTally tip.1.nHeight).toInt
      (bestPosition tip chain).items (findBlockByHeight (p.nHeightTally tip.1.nHeight)
        (bestPosition tip chain) pblockindexFBBHLast) :=
    found_findBlockByHeight (hitems ▸ (List.isChain_map Prod.fst).mpr hdescends) hlast
  -- a position that is found is that of a block with its registry
  have hblock : ∀ {pos}, findBlockByHeight (p.nHeightTally tip.1.nHeight) (bestPosition tip chain)
      pblockindexFBBHLast = some pos → ∃ c ∈ tip :: chain, c.1 = pos.current ∧
        heightOf c.1 = min p.nHeightEnd.toInt (heightOf tip.1) := by
    intro pos hpos
    obtain ⟨hposItems, hat⟩ := hfound.here hpos
    have hin : pos.current ∈ (tip :: chain).map Prod.fst := by
      rw [← hitems, ← hposItems]
      exact List.mem_append_right _ List.mem_cons_self
    obtain ⟨c, hc, hcurrent⟩ := List.mem_map.mp hin
    exact ⟨c, hc, hcurrent, by rw [hcurrent, hat, htally]⟩
  constructor
  · rintro ⟨s, hok, hreports⟩
    obtain ⟨pos, summary, hpos, hget, rfl⟩ := (hcall s).mp hok
    obtain ⟨c, hc, hcurrent, hheight⟩ := hblock hpos
    obtain ⟨before, older, hsplit⟩ := List.append_of_mem hc
    rw [← hcurrent] at hget
    have hreported := reported_of_getElem? hhist hfree hsplit hheight hget
    exact (hreported.reportsVotes_iff hhist.history hreg hstart hsplit).mp hreports
  · intro hlate
    have hend := (CVoteProposal.lt_nHeightEnd_iff hstart).mpr ⟨hlate.fits, hlate.length⟩
    obtain ⟨b, hb, hbheight, hregistered⟩ := hlate.registered
    have hbtop : heightOf b.1 ≤ heightOf tip.1 := hdescends.le_of_mem hb
    obtain ⟨c₀, hc₀, hheight₀⟩ :=
      hdescends.exists_of_le (n := min p.nHeightEnd.toInt (heightOf tip.1)) hb (by omega) (by omega)
    cases hpos : findBlockByHeight (p.nHeightTally tip.1.nHeight) (bestPosition tip chain)
        pblockindexFBBHLast with
    | none =>
      have hin : c₀.1 ∈ (bestPosition tip chain).items := hitems ▸ List.mem_map_of_mem hc₀
      exact absurd (hheight₀.trans htally.symm) (hfound.absent hpos c₀.1 hin)
    | some pos =>
      obtain ⟨c, hc, hcurrent, hheight⟩ := hblock hpos
      obtain ⟨before, older, hsplit⟩ := List.append_of_mem hc
      have hcounted : isCounted (p.getHash hash) c = true :=
        (isCounted_iff hhist.history hreg hstart hc).mpr
          ⟨registeredAt_of_le hhist.history hb hc (by omega) hregistered, by omega, by omega⟩
      obtain ⟨-, hmem, -⟩ := hhist.summaries_of_split hfree hsplit
      obtain ⟨summary, hget⟩ := Option.isSome_iff_exists.mp
        (Std.ExtTreeMap.mem_iff_isSome_getElem?.mp (hmem.mpr ⟨c, List.mem_cons_self, hcounted⟩))
      refine ⟨_, (hcall _).mpr ⟨pos, summary, hpos, hcurrent ▸ hget, rfl⟩, ?_⟩
      have hreported := reported_of_getElem? hhist hfree hsplit hheight hget
      exact (hreported.reportsVotes_iff hhist.history hreg hstart hsplit).mpr hlate

end Status

/-! ## Two short periods -/

/-- A proposal is the only one that the transactions carry. -/
lemma collisionFree_of_single {hash : Bytes → UInt256} {txs : List CTransaction} {p : CVoteProposal}
    (htx : ∀ tx ∈ txs, ∀ tx' ∈ txs, tx.getHash hash = tx'.getHash hash → tx = tx')
    (hsingle : ∀ tx ∈ txs, proposalFromTransaction tx {} = .ok (true, p) ∨
      proposalFromTransaction tx {} = .ok (false, {})) : CollisionFree hash txs p := by
  refine ⟨htx, fun tx hmem q hcarries _ => ?_⟩
  rw [Carries] at hcarries
  rcases hsingle tx hmem with hsame | hnone
  · simpa using hcarries.symm.trans hsame
  · simpa using hcarries.symm.trans hnone

/-- A proposal with a period that starts at the height before it is registered. -/
def lateProposal : CVoteProposal := { shortProposal with nStartHeight := 0 }

/-- The block at height 1, which registers it, and votes yes. -/
def lateRegistered : ConnectOutcome Unit :=
  connectBlock sampleHash sampleNode () (sampleProposalBlock lateProposal)
    { phashBlock := 2, nHeight := 1, nVersion := 0x54000000 } (some { phashBlock := 1 }) false {}

lemma recordedHistory_lateRegistered :
    RecordedHistory sampleHash ([] ++ (sampleProposalBlock lateProposal).vtx)
      [(lateRegistered.pindex, lateRegistered.registry), ({ phashBlock := 1 }, {})]
      lateRegistered.registry :=
  (RecordedHistory.start rfl Registry.Findable.empty Recorded.empty).connect sampleNode ()
    (sampleProposalBlock lateProposal)
    { phashBlock := 2, nHeight := 1, nVersion := 0x54000000 } (by decide) (.inl rfl) (fun _ => rfl)
    (by decide +kernel)

/-- The status of the late proposal, at its last block. -/
theorem rightStatus_lateRegistered :
    ∃ s, getproposalstatus sampleHash lateRegistered.registry
        (bestPosition (lateRegistered.pindex, lateRegistered.registry)
          [({ phashBlock := 1 }, {})]) none ((sampleProposalTx lateProposal).getHash sampleHash)
        = .ok (.voting s) ∧
      ReportsVotes (lateProposal.getHash sampleHash)
        [(lateRegistered.pindex, lateRegistered.registry), ({ phashBlock := 1 }, {})] s :=
  (rightStatus_iff recordedHistory_lateRegistered
    (collisionFree_of_single (by decide +kernel) (by decide +kernel)) (by decide +kernel)
    (by decide +kernel) (by decide +kernel) (fun _ h => by cases h)).mpr
    ⟨by decide, by decide, by decide +kernel, by decide +kernel, by decide +kernel⟩

lemma recordedHistory_shortVoted :
    RecordedHistory sampleHash
      ([] ++ (sampleProposalBlock shortProposal).vtx ++ [sampleCoinBase]) shortChain
      shortVoted.registry := by
  have hregistered : RecordedHistory sampleHash ([] ++ (sampleProposalBlock shortProposal).vtx)
      [(shortRegistered.pindex, shortRegistered.registry), ({ phashBlock := 1 }, {})]
      shortRegistered.registry :=
    (RecordedHistory.start rfl Registry.Findable.empty Recorded.empty).connect sampleNode ()
      (sampleProposalBlock shortProposal)
      { phashBlock := 2, nHeight := 1, nVersion := 0x50000000 } (by decide) (.inl rfl)
      (fun _ => rfl) (by decide +kernel)
  exact hregistered.connect sampleNode () { vtx := [sampleCoinBase] }
    { phashBlock := 3, nHeight := 2, nVersion := 0x54000000 } (by decide +kernel) (.inl rfl)
    (fun _ => rfl) (by decide +kernel)

/-- At the start height of the short proposal, no block is reported to have voted, and one fewer to
have abstained. -/
theorem not_rightStatus :
    ¬ ∀ (txs : List CTransaction) (tip : CBlockIndex × Registry)
      (chain : List (CBlockIndex × Registry)) (r : Registry) (p : CVoteProposal) (txid : UInt256),
      RecordedHistory sampleHash txs (tip :: chain) r → CollisionFree sampleHash txs p →
      r.proposalManager.mapProposalData[p.getHash sampleHash]?
        = some (CProposalMetaData.ofProposal sampleHash p) →
      r.mapProposals[txid]? = some (p.getHash sampleHash) →
      (p.nStartHeight.toNat : ℤ) ≤ heightOf tip.1 →
      ∃ s, getproposalstatus sampleHash r (bestPosition tip chain) none txid = .ok (.voting s) ∧
        ReportsVotes (p.getHash sampleHash) (tip :: chain) s := by
  intro h
  obtain ⟨s, hok, hreports⟩ := h _ _ _ _ shortProposal
    ((sampleProposalTx shortProposal).getHash sampleHash) recordedHistory_shortVoted
    (collisionFree_of_single (by decide +kernel) (by decide +kernel)) (by decide +kernel)
    (by decide +kernel) (by decide +kernel)
  have hstatus : getproposalstatus sampleHash shortVoted.registry
      (bestPosition (shortVoted.pindex, shortVoted.registry)
        [(shortRegistered.pindex, shortRegistered.registry), ({ phashBlock := 1 }, {})]) none
      ((sampleProposalTx shortProposal).getHash sampleHash) = .ok (.voting
        { block_start := 2, blocks_remaining := 1, total_blocks_voted := 0, yes_votes := 1,
          no_votes := 0, abstain_votes := -1, ratio := none }) := by
    decide +kernel
  rw [hstatus] at hok
  cases hok
  exact absurd hreports.abstain_nonneg (by decide)

end HyperStake
