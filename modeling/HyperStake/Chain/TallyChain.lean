import HyperStake.Chain.ConnectBlock

/-!
# The tally along a chain

Where voting is enabled, the tally of a block is made from a copy of the tally of its parent.  The
constructor that would count the height up and remove the summaries of the proposals whose voting
period has ended takes a pointer, and is not the one that `ConnectBlock` calls.  So the height of
every tally stays zero (`VotingChain.tally_nHeight`), and a summary that is once there stays
(`VotingChain.mem_mapVotes`).
-/

namespace HyperStake

/-- Voting is enabled for a block. -/
def VotingEnabled {Db : Type} (node : Node Db) (pindex : CBlockIndex) : Prop :=
  node.fTestNet = true ∨ pindex.nHeight ≥ VOTING_START.toInt32

/-- Chains of blocks, the newest one first, that were connected one after the other where voting is
enabled, on top of a block with the empty tally.  The node, its databases and its registry may be
different ones at every block. -/
inductive VotingChain (hash : Bytes → UInt256) : List CBlockIndex → Prop
  | start (b : CBlockIndex) : b.tally = {} → VotingChain hash [b]
  | connect {pprev : CBlockIndex} {chain : List CBlockIndex} {Db : Type} (node : Node Db) (db : Db)
      (block : CBlock) (pindex : CBlockIndex) (r : Registry) :
      VotingChain hash (pprev :: chain) → pindex.nHeight = pprev.nHeight + 1 →
      VotingEnabled node pindex →
      (connectBlock hash node db block pindex (some pprev) false r).result = .ok true →
      VotingChain hash ((connectBlock hash node db block pindex (some pprev) false r).pindex ::
        pprev :: chain)

/-- The tally of a block is at the height of the block, and has no summary of a proposal whose
voting period has ended. -/
structure TallyCurrent (b : CBlockIndex) : Prop where
  height : b.tally.nHeight = b.nHeight.toUInt32
  no_ended : ∀ {h : UInt256} {summary : CVoteSummary}, b.tally.mapVotes[h]? = some summary →
    ¬ summary.nBlockStart + summary.nCheckSpan ≤ b.nHeight.toUInt32

variable {Db : Type} {pindex : CBlockIndex} {node : Node Db}

section

variable (henabled : VotingEnabled node pindex)

include henabled

/-- Where voting is enabled, the tally of a block is made from that of the parent. -/
lemma startTally_of_votingEnabled
    (pprev : CBlockIndex) : startTally node pindex pprev = pprev.tally := by
  rw [startTally, if_pos]
  simpa [VotingEnabled] using henabled

/-- Recording the votes of a block keeps the height and the summaries of the parent's tally. -/
lemma recordVotes_keeps {pprev : CBlockIndex} {r : Registry} {tally : CVoteTally}
    (h : recordVotes node pindex pprev r = .ok tally) :
    tally.nHeight = pprev.tally.nHeight ∧
      ∀ hash : UInt256, hash ∈ pprev.tally.mapVotes → hash ∈ tally.mapVotes := by
  have hstart := startTally_of_votingEnabled henabled pprev
  obtain ⟨hheight, hvotes⟩ := CVoteTally.processNewVotes_keeps h
  rw [hstart, CVoteTally.setNewPositions] at hheight hvotes
  obtain ⟨hheight', hvotes'⟩ := CVoteTally.setNewPositionsLoop_keeps r.getProposalTXID
    (fun txid => r.voteDB.readProposal txid) (r.proposalManager.getActive pindex.nHeight).toList
    { pprev.tally with mapLocations := ∅ }
  refine ⟨hheight.trans hheight', fun hash hmem => (hvotes hash).mpr ?_⟩
  obtain ⟨summary, hsummary⟩ := MapLoop.mem_iff.mp hmem
  exact MapLoop.mem_iff.mpr ⟨_, hvotes' hash summary hsummary⟩

/-- The tally of a block that is connected has the height and the summaries of the parent's one. -/
lemma connectBlock_keeps {hash : Bytes → UInt256} {db : Db} {block : CBlock}
    {pprev : CBlockIndex} {r : Registry}
    (h : (connectBlock hash node db block pindex (some pprev) false r).result = .ok true) :
    (connectBlock hash node db block pindex (some pprev) false r).pindex.tally.nHeight
        = pprev.tally.nHeight ∧
      ∀ hashProposal : UInt256, hashProposal ∈ pprev.tally.mapVotes → hashProposal ∈
        (connectBlock hash node db block pindex (some pprev) false r).pindex.tally.mapVotes := by
  obtain ⟨s, r', tally, -, -, -, hvotes, hpindex⟩ := connectBlock_eq_true hash node h
  rw [hpindex]
  exact recordVotes_keeps henabled hvotes

end

namespace VotingChain

variable {hash : Bytes → UInt256} {chain : List CBlockIndex}

/-- The height of every tally on a chain is zero. -/
lemma tally_nHeight (hchain : VotingChain hash chain) {b : CBlockIndex} (hb : b ∈ chain) :
    b.tally.nHeight = 0 := by
  induction hchain generalizing b with
  | start b' hempty =>
    rw [List.mem_singleton.mp hb, hempty]
  | connect node db block pindex r _ _ henabled htrue ih =>
    rcases List.mem_cons.mp hb with rfl | hrest
    · rw [(connectBlock_keeps henabled htrue).1]
      exact ih List.mem_cons_self
    · exact ih hrest

/-- A proposal that has a summary in a block has one in every later block of the chain. -/
theorem mem_mapVotes (hchain : VotingChain hash chain) :
    chain.Pairwise fun later earlier =>
      ∀ h : UInt256, h ∈ earlier.tally.mapVotes → h ∈ later.tally.mapVotes := by
  induction hchain with
  | start b _ => exact List.pairwise_singleton _ _
  | connect node db block pindex r _ _ henabled htrue ih =>
    have hparent := (connectBlock_keeps henabled htrue).2
    refine List.pairwise_cons.mpr ⟨fun b hb h hmem => ?_, ih⟩
    rcases List.mem_cons.mp hb with rfl | hrest
    · exact hparent h hmem
    · exact hparent h ((List.pairwise_cons.mp ih).1 b hrest h hmem)

end VotingChain

/-- No block above height zero on a chain has a tally that is current. -/
theorem not_tallyCurrent_of_votingChain {hash : Bytes → UInt256} {chain : List CBlockIndex}
    (hchain : VotingChain hash chain) {b : CBlockIndex} (hb : b ∈ chain) (hheight : b.nHeight ≠ 0) :
    ¬ TallyCurrent b := by
  intro hcurrent
  have hzero : b.nHeight.toUInt32 = 0 := hcurrent.height.symm.trans (hchain.tally_nHeight hb)
  exact hheight (congrArg UInt32.toInt32 hzero)

/-- The index of a block on top of the first one. -/
def sampleIndex : CBlockIndex :=
  { phashBlock := 2, pprev := 1, nHeight := 1, nVersion := 0x50000000 }

/-- The index of a block without proposals after it has been connected. -/
def sampleConnected : CBlockIndex :=
  (connectBlock sampleHash sampleNode () { vtx := [sampleCoinBase] } sampleIndex
    (some { phashBlock := 1 }) false {}).pindex

lemma votingChain_sampleConnected : VotingChain sampleHash [sampleConnected, { phashBlock := 1 }] :=
  .connect sampleNode () { vtx := [sampleCoinBase] } sampleIndex {} (.start _ rfl) rfl (Or.inl rfl)
    (by decide)

/-- The first block that is connected. -/
theorem not_tallyCurrent_sampleConnected : ¬ TallyCurrent sampleConnected :=
  not_tallyCurrent_of_votingChain votingChain_sampleConnected List.mem_cons_self (by decide)

/-- The tally of the block at height 1 is at height 0. -/
theorem not_tallyCurrent_of_connected :
    ¬ ∀ (chain : List CBlockIndex), VotingChain sampleHash chain →
      ∀ b ∈ chain.dropLast, TallyCurrent b := by
  intro hcurrent
  have hheight := (hcurrent _ votingChain_sampleConnected sampleConnected
    List.mem_cons_self).height
  revert hheight
  decide

end HyperStake
