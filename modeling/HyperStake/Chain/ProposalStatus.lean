import HyperStake.Chain.CheckBlock
import HyperStake.Chain.Count
import HyperStake.Library.Descending

/-!
# The RPC getproposalstatus

The RPC reads the proposal of a transaction, finds the block at the end of the voting period, or the
best block before that, and reports the summary in the tally of the block.  The number of blocks
that have voted is computed from heights: the height of that block less the start height.

`ConnectBlock` counts the votes of both ends of the period, so for a proposal that is registered
before its period the reported number is one less than the number of the blocks that were counted.
The report is right exactly if the proposal was registered by the block after the one at its start
height, and some block has voted (`rightStatus_iff`).
-/

namespace HyperStake

open Descending

/-! ## The report -/

/-- A block of the active chain with the blocks after it, the nearest one first, and before it. -/
abbrev ChainPosition := Position CBlockIndex

/-- `FindBlockByHeight`, with the position of the best block and that of the block that was found
last.  There is no result if the search follows a null pointer. -/
def findBlockByHeight (nHeight : Int32) (pindexBest : ChainPosition)
    (pblockindexFBBHLast : Option ChainPosition) : Option ChainPosition :=
  let pblockindex :=
    if nHeight < pindexBest.current.nHeight / 2 then
      Position.last pindexBest.before pindexBest.current pindexBest.after
    else pindexBest
  let pblockindex :=
    match pblockindexFBBHLast with
    | some last =>
      if (nHeight - pblockindex.current.nHeight).abs > (nHeight - last.current.nHeight).abs then
        last
      else pblockindex
    | none => pblockindex
  pblockindex.seek heightOf nHeight.toInt

/-- The items of the report on a proposal that is voted on. -/
structure VotingStatus where
  block_start : Int64
  blocks_remaining : Int64
  total_blocks_voted : Int64
  yes_votes : Int64
  no_votes : Int64
  /-- A `double` in the source, which holds a number of this size exactly. -/
  abstain_votes : Int64
  /-- The numbers that are divided, if any are. -/
  ratio : Option (ℤ × ℤ)
  deriving DecidableEq

/-- What `getproposalstatus` returns. -/
inductive ProposalStatus where
  | notStarted (block_start : Int64)
  | voting (status : VotingStatus)
  deriving DecidableEq

/-- How `getproposalstatus` ends without a status. -/
inductive StatusExit where
  /-- A `JSONRPCError` with the code `RPC_INVALID_PARAMETER`. -/
  | invalidParameter (message : String)
  /-- A `JSONRPCError` with the code `RPC_DATABASE_ERROR`. -/
  | databaseError (message : String)
  | fault (e : Fault)
  deriving DecidableEq

/-- An `unsigned int` as an `int64_t`. -/
def widen (n : UInt32) : Int64 := n.toUInt64.toInt64

lemma toInt_widen (n : UInt32) : (widen n).toInt = n.toNat := toInt_timeOf n

/-- The part of `getproposalstatus` that makes the report from a summary. -/
def CVoteSummary.status (nHeightEnd nHeightTally nBestHeight : Int32) (summary : CVoteSummary) :
    VotingStatus :=
  -- the height is converted to `unsigned int` for the subtraction
  let nBlocksVoted := widen (nHeightTally.toUInt32 - summary.nBlockStart)
  let nAbstain := nBlocksVoted - widen summary.nNoTally - widen summary.nYesTally
  { block_start := widen summary.nBlockStart
    blocks_remaining :=
      (if nHeightEnd - nBestHeight < 0 then 0 else nHeightEnd - nBestHeight).toInt64
    total_blocks_voted := nBlocksVoted
    yes_votes := widen summary.nYesTally
    no_votes := widen summary.nNoTally
    abstain_votes := nAbstain
    ratio :=
      if nBlocksVoted ≠ 0 then
        some (summary.nYesTally.toNat, nBlocksVoted.toInt - nAbstain.toInt)
      else none }

/-- The height at which the voting period ends, as an `int`. -/
def CVoteProposal.nHeightEnd (p : CVoteProposal) : Int32 :=
  (p.getStartHeight + p.getCheckSpan).toInt32

/-- The height of the block whose tally is reported. -/
def CVoteProposal.nHeightTally (nBestHeight : Int32) (p : CVoteProposal) : Int32 :=
  if p.nHeightEnd < nBestHeight then p.nHeightEnd else nBestHeight

/-- The RPC `getproposalstatus`, for the hash of a transaction. -/
def getproposalstatus (hash : Bytes → UInt256) (r : Registry) (pindexBest : ChainPosition)
    (pblockindexFBBHLast : Option ChainPosition) (txid : UInt256) :
    Except StatusExit ProposalStatus :=
  match r.voteDB.readProposal txid with
  | none => .error (.invalidParameter "failed to find proposal")
  | some proposal =>
    let nBestHeight := pindexBest.current.nHeight
    if nBestHeight < proposal.getStartHeight.toInt32 then
      .ok (.notStarted (widen proposal.getStartHeight))
    else
      let nHeightTally := proposal.nHeightTally nBestHeight
      match findBlockByHeight nHeightTally pindexBest pblockindexFBBHLast with
      | none => .error (.fault .undefined)
      | some pos =>
        match pos.current.tally.getSummary (proposal.getHash hash) with
        | none => .error (.databaseError "failed to find proposal in vote tally")
        | some summary =>
          .ok (.voting (summary.status proposal.nHeightEnd nHeightTally nBestHeight))

/-! ## The search for a block -/

/-- On a chain whose heights go down by one, the block at the height is found, or there is none,
wherever the search starts. -/
lemma found_findBlockByHeight {nHeight : Int32} {pindexBest : ChainPosition}
    {pblockindexFBBHLast : Option ChainPosition} (hchain : Descends heightOf pindexBest.items)
    (hlast : ∀ pos ∈ pblockindexFBBHLast, pos.items = pindexBest.items) :
    Position.Found heightOf nHeight.toInt pindexBest.items
      (findBlockByHeight nHeight pindexBest pblockindexFBBHLast) := by
  have hfrom : ∀ pos : ChainPosition, pos.items = pindexBest.items →
      Position.Found heightOf nHeight.toInt pindexBest.items (pos.seek heightOf nHeight.toInt) := by
    intro pos hitems
    rw [← hitems] at hchain ⊢
    exact Position.seek_spec hchain
  have hgenesis := Position.items_last pindexBest.before pindexBest.current pindexBest.after
  unfold findBlockByHeight
  apply hfrom
  cases pblockindexFBBHLast with
  | none =>
    dsimp only
    split_ifs
    · exact hgenesis
    · rfl
  | some last =>
    dsimp only
    split_ifs
    · exact hlast last rfl
    · exact hgenesis
    · exact hlast last rfl
    · rfl

/-! ## The summary of a proposal -/

namespace CVoteTally

/-- A summary that `SetNewPositions` leaves was there, or it starts at the height of a record. -/
lemma getElem?_setNewPositionsLoop {getProposalTXID : UInt256 → Option UInt256}
    {readProposal : UInt256 → Option CVoteProposal}
    {mapNewLocations : List (UInt256 × VoteLocation)} {tally : CVoteTally} {h : UInt256}
    {summary : CVoteSummary}
    (hget : (setNewPositionsLoop getProposalTXID readProposal mapNewLocations tally).2.mapVotes[h]?
      = some summary) :
    tally.mapVotes[h]? = some summary ∨ ∃ txid proposal, getProposalTXID h = some txid ∧
      readProposal txid = some proposal ∧ summary.nBlockStart = proposal.nStartHeight := by
  induction mapNewLocations generalizing tally with
  | nil => exact Or.inl hget
  | cons it mapNewLocations ih =>
    rw [setNewPositionsLoop] at hget
    split_ifs at hget with hcontains
    · exact ih hget
    · cases htxid : getProposalTXID it.1 with
      | none =>
        rw [htxid] at hget
        exact Or.inl hget
      | some txid =>
        rw [htxid] at hget
        dsimp only at hget
        cases hread : readProposal txid with
        | none =>
          rw [hread] at hget
          exact Or.inl hget
        | some proposal =>
          rw [hread] at hget
          rcases ih hget with hold | hnew
          · dsimp only at hold
            rw [MapLoop.getElem?_insertIfNew_eq] at hold
            split_ifs at hold with hkey
            · subst hkey
              cases hbefore : tally.mapVotes[it.1]? with
              | some summary' =>
                rw [hbefore] at hold
                exact Or.inl hold
              | none =>
                rw [hbefore, Option.getD_none, Option.some.injEq] at hold
                rw [← hold]
                exact Or.inr ⟨txid, proposal, htxid, hread, rfl⟩
            · exact Or.inl hold
          · exact Or.inr hnew

/-- `ProcessNewVotes` keeps the start heights of the summaries. -/
lemma nBlockStart_processNewVotes {nVersion : UInt32} {tally tally' : CVoteTally}
    (h : tally.processNewVotes nVersion = .ok tally') {hashProposal : UInt256}
    {summary' : CVoteSummary} (hget : tally'.mapVotes[hashProposal]? = some summary') :
    ∃ summary, tally.mapVotes[hashProposal]? = some summary ∧
      summary'.nBlockStart = summary.nBlockStart := by
  obtain ⟨tally₁, hok, -, -, hvotes⟩ := processNewVotes_eq_ok nVersion
    fun hash location hmem hlocation => readable_of_processNewVotes h hmem hlocation
  obtain rfl := Except.ok.inj (hok.symm.trans h)
  rw [hvotes, Option.map_eq_some_iff] at hget
  obtain ⟨summary, hsummary, rfl⟩ := hget
  refine ⟨summary, hsummary, ?_⟩
  cases tally.mapLocations[hashProposal]? with
  | none => rfl
  | some location =>
    rw [counted, countVote]
    split_ifs <;> rfl

end CVoteTally

/-- The votes of a block are counted for a proposal: the manager holds the proposal and finds it
active. -/
def isCounted (h : UInt256) (c : CBlockIndex × Registry) : Bool :=
  match c.2.proposalManager.mapProposalData[h]? with
  | some data => data.isActive c.1.nHeight
  | none => false

/-- Recording the votes of a block keeps the summaries of the parent, and starts one for every
proposal that the votes are counted for. -/
lemma summaries_recordVotes {Db : Type} {node : Node Db} {hash : Bytes → UInt256}
    {txs : List CTransaction} {pindex pprev : CBlockIndex} {r : Registry} {tally : CVoteTally}
    (hfind : r.Findable hash txs) (henabled : VotingEnabled node pindex)
    (h : recordVotes node pindex pprev r = .ok tally) (hashProposal : UInt256) :
    (hashProposal ∈ tally.mapVotes ↔
      hashProposal ∈ pprev.tally.mapVotes ∨ isCounted hashProposal (pindex, r) = true) ∧
    ∀ summary, tally.mapVotes[hashProposal]? = some summary →
      (∃ summary', pprev.tally.mapVotes[hashProposal]? = some summary' ∧
        summary.nBlockStart = summary'.nBlockStart) ∨
      ∃ txid proposal, r.getProposalTXID hashProposal = some txid ∧
        r.voteDB.readProposal txid = some proposal ∧
          summary.nBlockStart = proposal.nStartHeight := by
  let mapActive := r.proposalManager.getActive pindex.nHeight
  have hstart := startTally_of_votingEnabled henabled pprev
  have hfound := hfind.exists_readProposal_getActive pindex.nHeight
  obtain ⟨-, hvotes, -⟩ := CVoteTally.setNewPositionsLoop_spec
    (MapLoop.nodup_map_fst_toList mapActive) hfound
    { pprev.tally with mapLocations := ∅ } (by simp)
  rw [recordVotes, hstart, CVoteTally.setNewPositions] at h
  constructor
  · rw [(CVoteTally.processNewVotes_keeps h).2, hvotes]
    refine or_congr_right ?_
    rw [isCounted, Std.ExtTreeMap.map_fst_toList_eq_keys, Std.ExtTreeMap.mem_keys,
      CVoteProposalManager.mem_getActive_iff]
    cases r.proposalManager.mapProposalData[hashProposal]? <;> simp
  · intro summary hsummary
    obtain ⟨summary', hget, hsame⟩ := CVoteTally.nBlockStart_processNewVotes h hsummary
    rw [hsame]
    rcases CVoteTally.getElem?_setNewPositionsLoop hget with hold | ⟨txid, proposal, hnew⟩
    · exact Or.inl ⟨summary', hold, rfl⟩
    · exact Or.inr ⟨txid, proposal, hnew⟩

/-! ## Histories with records -/

/-- No two of the transactions have the same hash, and no proposal of one has the hash of the given
proposal but that proposal. -/
structure CollisionFree (hash : Bytes → UInt256) (txs : List CTransaction) (p : CVoteProposal) :
    Prop where
  tx : ∀ tx ∈ txs, ∀ tx' ∈ txs, tx.getHash hash = tx'.getHash hash → tx = tx'
  proposal : ∀ tx ∈ txs, ∀ q, Carries tx q → q.getHash hash = p.getHash hash → q = p

/-- The record at a transaction of a proposal is that of the proposal. -/
lemma readProposal_eq {hash : Bytes → UInt256} {txs txs' : List CTransaction} {r : Registry}
    {p : CVoteProposal} (hfree : CollisionFree hash txs' p) (hfind : r.Findable hash txs)
    (hrecorded : Recorded hash txs' r) (hsub : ∀ tx ∈ txs, tx ∈ txs') {txid : UInt256}
    (hmap : r.mapProposals[txid]? = some (p.getHash hash)) :
    r.voteDB.readProposal txid = some { p with nVersion := 0 } := by
  obtain ⟨tx, htx, q, rfl, hcarries, hvalue, q', hread⟩ := hfind.recorded hmap
  obtain rfl := hfree.proposal tx (hsub tx htx) q hcarries hvalue
  obtain ⟨v, hget, hrecord⟩ := Option.bind_eq_some_iff.mp hread
  obtain ⟨tx', htx', q'', hcarries', hkey, rfl⟩ := hrecorded.records hget
  obtain rfl := hfree.tx tx (hsub tx htx) tx' htx' (CVoteDB.key_injective hkey)
  have hsame : q = q'' := by simpa using hcarries.symm.trans hcarries'
  subst hsame
  obtain ⟨hname, hdesc⟩ := proposalFromTransaction_length_le hcarries
  rw [CVoteDB.readProposal, hget]
  exact CVoteDB.proposalOfRecord_serialize hname hdesc

/-- The transaction that `GetProposalTXID` finds has the proposal. -/
lemma Registry.getElem?_of_getProposalTXID {r : Registry} {h txid : UInt256}
    (hget : r.getProposalTXID h = some txid) : r.mapProposals[txid]? = some h := by
  obtain ⟨mit, hfind, rfl⟩ := Option.map_eq_some_iff.mp hget
  have hmem := Std.ExtTreeMap.mem_toList_iff_getElem?_eq_some.mp (List.mem_of_find?_eq_some hfind)
  have hvalue : mit.2 = h := by simpa using List.find?_some hfind
  rw [hmem, hvalue]

namespace VotingHistory

variable {hash : Bytes → UInt256} {txs : List CTransaction} {chain : List (CBlockIndex × Registry)}
  {r : Registry}

section

variable (hhist : VotingHistory hash txs chain r)

include hhist

/-- The heights go down by one. -/
lemma descends : Descends (fun c => heightOf c.1) chain := by
  induction hhist with
  | start b txs r _ _ => exact List.isChain_singleton _
  | connect node db block pindex _ hheight _ _ htrue ih =>
    obtain ⟨s, r', tally, -, -, -, -, hpindex⟩ := connectBlock_eq_true hash node htrue
    refine List.IsChain.cons_cons ?_ ih
    rw [hpindex]
    exact hheight

/-- A proposal that is registered when a block is counted is registered at the later blocks. -/
lemma pairwise_registeredAt (p : CVoteProposal) :
    chain.Pairwise fun later earlier =>
      p.registeredAt hash earlier = true → p.registeredAt hash later = true := by
  induction hhist with
  | start b txs r _ _ => exact List.pairwise_singleton _ _
  | connect node db block pindex hprev _ _ _ _ ih =>
    refine List.pairwise_cons.mpr ⟨fun c hc hreg => ?_, ih⟩
    rw [CVoteProposal.registeredAt, ← Std.ExtTreeMap.isSome_getElem?_eq_contains,
      Option.isSome_iff_exists] at hreg ⊢
    obtain ⟨data, hget⟩ := hreg
    exact ⟨data, getElem?_connectBlock (hprev.getElem?_of_mem hc hget)⟩

/-- The blocks up to one of a history have a history. -/
lemma of_suffix {c : CBlockIndex × Registry}
    {older : List (CBlockIndex × Registry)} (hsuffix : c :: older <:+ chain) :
    ∃ txs' r', (∀ tx ∈ txs', tx ∈ txs) ∧ VotingHistory hash txs' (c :: older) r' := by
  induction hhist with
  | start b txs r hempty hfind =>
    have hnil : older = [] := List.eq_nil_of_length_eq_zero (by simpa using hsuffix.length_le)
    subst hnil
    obtain rfl : c = (b, {}) := List.mem_singleton.mp (hsuffix.mem List.mem_cons_self)
    exact ⟨txs, r, fun _ h => h, .start b txs r hempty hfind⟩
  | connect node db block pindex hprev hheight henabled hwrite htrue ih =>
    rcases List.suffix_cons_iff.mp hsuffix with heq | hrest
    · obtain ⟨rfl, rfl⟩ := List.cons_eq_cons.mp heq
      exact ⟨_, _, fun _ h => h, hprev.connect node db block pindex hheight henabled hwrite htrue⟩
    · obtain ⟨txs', r', hsub, hhist'⟩ := ih hrest
      exact ⟨txs', r', fun tx htx => List.mem_append_left _ (hsub tx htx), hhist'⟩

end

/-- The newest block has a summary of a proposal exactly if the votes of a block have been counted
for it, and the summary starts at the height of the proposal. -/
lemma summaries {tip : CBlockIndex × Registry} (hhist : VotingHistory hash txs (tip :: chain) r)
    {txs' : List CTransaction} (hsub : ∀ tx ∈ txs, tx ∈ txs') {p : CVoteProposal}
    (hfree : CollisionFree hash txs' p)
    (hrecorded : ∀ c ∈ tip :: chain, Recorded hash txs' c.2) :
    (p.getHash hash ∈ tip.1.tally.mapVotes ↔
      ∃ c ∈ tip :: chain, isCounted (p.getHash hash) c = true) ∧
    ∀ summary, tip.1.tally.mapVotes[p.getHash hash]? = some summary →
      summary.nBlockStart = p.nStartHeight := by
  generalize hblocks : tip :: chain = blocks at hhist hrecorded
  induction hhist generalizing tip chain with
  | start b txs r hempty _ =>
    obtain ⟨rfl, rfl⟩ := List.cons_eq_cons.mp hblocks
    simp [hempty, isCounted, CVoteProposalManager.empty]
  | @connect txs pprev r₀ chain' r Db node db block pindex hprev hheight henabled hwrite htrue ih =>
    obtain ⟨rfl, rfl⟩ := List.cons_eq_cons.mp hblocks
    obtain ⟨ihmem, ihstart⟩ := ih (fun tx htx => hsub tx (List.mem_append_left _ htx)) rfl
      fun c hc => hrecorded c (List.mem_cons_of_mem _ hc)
    have hfind := (VotingHistory.connect node db block pindex hprev hheight henabled hwrite
      htrue).findable fun tx htx tx' htx' => hfree.tx tx (hsub tx htx) tx' (hsub tx' htx')
    have hrecord := hrecorded _ List.mem_cons_self
    obtain ⟨s, r', tally, -, -, hregistry, hrecordVotes, hpindex⟩ :=
      connectBlock_eq_true hash node htrue
    dsimp only at hrecord ⊢
    rw [hregistry] at hfind hrecord
    obtain ⟨hmem, hstart⟩ := summaries_recordVotes hfind henabled hrecordVotes (p.getHash hash)
    have hcounts : isCounted (p.getHash hash)
        ((connectBlock hash node db block pindex (some pprev) false r).pindex,
          (connectBlock hash node db block pindex (some pprev) false r).registry)
        = isCounted (p.getHash hash) (pindex, r') := by
      rw [hpindex, hregistry]
      rfl
    rw [hpindex]
    refine ⟨?_, fun summary hsummary => ?_⟩
    · rw [List.exists_mem_cons_iff, ← hpindex, hcounts, ← ihmem, or_comm]
      exact hpindex ▸ hmem
    · rcases hstart summary hsummary with ⟨summary', hold, hsame⟩ | ⟨txid, q, htxid, hread, hsame⟩
      · rw [hsame]
        exact ihstart summary' hold
      · rw [readProposal_eq hfree hfind hrecord hsub (Registry.getElem?_of_getProposalTXID htxid),
          Option.some.injEq] at hread
        rw [hsame, ← hread]

end VotingHistory

/-- Histories under registries whose records are those of the proposals. -/
structure RecordedHistory (hash : Bytes → UInt256) (txs : List CTransaction)
    (chain : List (CBlockIndex × Registry)) (r : Registry) : Prop where
  history : VotingHistory hash txs chain r
  recorded : Recorded hash txs r
  recorded_of_mem : ∀ c ∈ chain, Recorded hash txs c.2

namespace RecordedHistory

variable {hash : Bytes → UInt256} {txs : List CTransaction} {chain : List (CBlockIndex × Registry)}
  {r : Registry}

lemma start {b : CBlockIndex} (hempty : b.tally = {}) (hfind : r.Findable hash txs)
    (hrecorded : Recorded hash txs r) : RecordedHistory hash txs [(b, {})] r where
  history := .start b txs r hempty hfind
  recorded := hrecorded
  recorded_of_mem c hc := by
    rw [List.mem_singleton.mp hc]
    exact Recorded.empty.mono fun tx htx => by cases htx

/-- Connecting a block keeps the records. -/
lemma connect {pprev : CBlockIndex} {r₀ : Registry} {Db : Type}
    (h : RecordedHistory hash txs ((pprev, r₀) :: chain) r) (node : Node Db) (db : Db)
    (block : CBlock) (pindex : CBlockIndex)
    (hheight : pindex.nHeight.toInt = pprev.nHeight.toInt + 1)
    (henabled : VotingEnabled node pindex) (hwrite : ∀ txid, node.writesProposal txid = true)
    (htrue : (connectBlock hash node db block pindex (some pprev) false r).result = .ok true) :
    RecordedHistory hash (txs ++ block.vtx)
      (((connectBlock hash node db block pindex (some pprev) false r).pindex,
        (connectBlock hash node db block pindex (some pprev) false r).registry) ::
          (pprev, r₀) :: chain)
      (connectBlock hash node db block pindex (some pprev) false r).registry := by
  have hnew := recorded_connectBlock h.recorded node db block pindex (some pprev) false
  refine ⟨h.history.connect node db block pindex hheight henabled hwrite htrue, hnew, ?_⟩
  intro c hc
  rcases List.mem_cons.mp hc with rfl | hc
  · exact hnew
  · exact (h.recorded_of_mem c hc).mono fun tx htx => List.mem_append_left _ htx

end RecordedHistory

end HyperStake
