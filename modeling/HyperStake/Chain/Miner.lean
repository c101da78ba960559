import HyperStake.Chain.ConnectBlock
import HyperStake.Library.CollectLoop
import HyperStake.Voting.Admission
import HyperStake.Voting.Ballot
import HyperStake.Voting.Recognition

/-!
# Voting in a new block

`CreateNewBlock` puts the stored votes of the wallet into the version of the block that it makes: it
goes through the recorded proposal transactions, reads the proposal of each of them again, and casts
the vote on it if the proposal is active at `nBestHeight`.  The block is one higher, and
`ConnectBlock` counts the votes on the proposals that are active at the height of the block.

So, as far as the transactions are found and can be read, the votes are cast where they are counted
exactly when no proposal that is voted for has a period that starts with the new block or ends with
the best one (`votesWhereCounted_iff`).
-/

namespace HyperStake

open CollectLoop

/-- The votes of a wallet, each stored under the hash of its proposal, as `setvote` stores it. -/
structure CWallet where
  mapVoteObjects : Std.ExtTreeMap UInt256 CVoteObject := ∅
  hash_eq : ∀ {h : UInt256} {vote : CVoteObject}, mapVoteObjects[h]? = some vote →
    vote.hashProposal = h := by simp

/-- Storing a vote under the hash of its proposal. -/
def CWallet.store (vote : CVoteObject) (wallet : CWallet) : CWallet where
  mapVoteObjects := wallet.mapVoteObjects.insert vote.hashProposal vote
  hash_eq := by
    intro h vote' hget
    rw [Std.ExtTreeMap.getElem?_insert] at hget
    split_ifs at hget with hnew
    · rw [← Option.some.inj hget]
      exact Std.LawfulEqCmp.eq_of_compare hnew
    · exact wallet.hash_eq hget

/-! ## Casting the votes -/

section CreateNewBlock

variable (hash : Bytes → UInt256) (getTransaction : UInt256 → Option CTransaction)
  (wallet : CWallet)

/-- The vote that is cast on the proposal of a transaction, if there is an active proposal in it and
a vote on it. -/
def voteOnTransaction (mapActiveProposals : Std.ExtTreeMap UInt256 VoteLocation)
    (tx : CTransaction) : Except Fault (Option CVoteObject) := do
  if !(← tx.isProposal) then return none
  let (fDecoded, proposal) ← proposalFromTransaction tx {}
  if !fDecoded then return none
  if !mapActiveProposals.contains (proposal.getHash hash) then return none
  return wallet.mapVoteObjects[proposal.getHash hash]?

/-- One turn of the loop over the recorded transactions: one that is not found is passed over. -/
def voteOnRecorded (mapActiveProposals : Std.ExtTreeMap UInt256 VoteLocation) (txid : UInt256) :
    Except Fault (Option CVoteObject) :=
  match getTransaction txid with
  | none => .ok none
  | some tx => voteOnTransaction hash wallet mapActiveProposals tx

/-- The votes that `CreateNewBlock` casts. -/
def collectVotes (r : Registry) (nBestHeight : Int32) : Except Fault (List CVoteObject) :=
  let mapActiveProposals := r.proposalManager.getActive nBestHeight
  if wallet.mapVoteObjects.isEmpty then .ok []
  else collect (voteOnRecorded hash getTransaction wallet mapActiveProposals) r.mapProposals.keys

/-- The version of the block that `CreateNewBlock` makes. -/
def createVersion (r : Registry) (nBestHeight : Int32) : Except Fault Int32 := do
  if r.mapProposals.isEmpty then return VOTING_VERSION
  let votes ← collectVotes hash getTransaction wallet r nBestHeight
  return VOTING_VERSION ||| (← CVoteObject.getCombinedVotes votes)

/-- Some recorded transaction that is found carries the proposal with a hash. -/
def Announced (r : Registry) (h : UInt256) : Prop :=
  ∃ txid ∈ r.mapProposals.keys, ∃ tx proposal, getTransaction txid = some tx ∧
    proposalFromTransaction tx {} = .ok (true, proposal) ∧ proposal.getHash hash = h

/-- Every recorded transaction that is found is safe to read. -/
def RecordsReadable (r : Registry) : Prop :=
  ∀ txid ∈ r.mapProposals.keys, ∀ tx, getTransaction txid = some tx → ReadsInRange tx

variable {mapActiveProposals : Std.ExtTreeMap UInt256 VoteLocation} {tx : CTransaction}

variable {hash wallet} in
/-- Asking `IsProposal` before decoding makes no difference. -/
lemma voteOnTransaction_eq :
    voteOnTransaction hash wallet mapActiveProposals tx =
      match proposalFromTransaction tx {} with
      | .error e => .error e
      | .ok (false, _) => .ok none
      | .ok (true, proposal) =>
        if proposal.getHash hash ∈ mapActiveProposals then
          .ok wallet.mapVoteObjects[proposal.getHash hash]?
        else .ok none := by
  unfold voteOnTransaction
  cases hprop : tx.isProposal with
  | error e => simp [proposalFromTransaction, hprop, bind, Except.bind]
  | ok fProposal =>
    cases fProposal with
    | false => simp [proposalFromTransaction, hprop, bind, Except.bind, pure, Except.pure]
    | true =>
      rcases proposalFromTransaction tx {} with e | ⟨_ | _, proposal⟩
      · rfl
      · rfl
      · simp only [bind, Except.bind, pure, Except.pure, ← Std.ExtTreeMap.contains_iff_mem]
        cases mapActiveProposals.contains (proposal.getHash hash) <;> rfl

variable {hash wallet} in
/-- Looking for the vote on a transaction fails exactly when decoding it does. -/
lemma exists_voteOnTransaction_iff :
    (∃ vote, voteOnTransaction hash wallet mapActiveProposals tx = .ok vote) ↔
      ReadsInRange tx := by
  rw [readsInRange_iff_proposalFromTransaction tx {}, voteOnTransaction_eq]
  rcases proposalFromTransaction tx {} with e | ⟨_ | _, proposal⟩
  · simp
  · simp
  · refine iff_of_true ?_ ⟨_, rfl⟩
    dsimp only
    split_ifs
    · exact ⟨_, rfl⟩
    · exact ⟨_, rfl⟩

variable {hash wallet} in
/-- The vote that is cast on a transaction. -/
lemma voteOnTransaction_eq_some_iff {vote : CVoteObject} :
    voteOnTransaction hash wallet mapActiveProposals tx = .ok (some vote) ↔
      ∃ proposal, proposalFromTransaction tx {} = .ok (true, proposal) ∧
        proposal.getHash hash ∈ mapActiveProposals ∧
        wallet.mapVoteObjects[proposal.getHash hash]? = some vote := by
  rw [voteOnTransaction_eq]
  rcases proposalFromTransaction tx {} with e | ⟨_ | _, proposal⟩
  · simp
  · simp
  · by_cases hactive : proposal.getHash hash ∈ mapActiveProposals <;> simp [hactive]

/-- The loop of `CreateNewBlock` ends without a fault exactly when every recorded transaction is
safe to read, or there is no vote. -/
lemma exists_collectVotes_iff (r : Registry) (nBestHeight : Int32) :
    (∃ votes, collectVotes hash getTransaction wallet r nBestHeight = .ok votes) ↔
      (wallet.mapVoteObjects.isEmpty = false → RecordsReadable getTransaction r) := by
  unfold collectVotes RecordsReadable
  cases hempty : wallet.mapVoteObjects.isEmpty with
  | true => simp
  | false =>
    simp only [Bool.false_eq_true, if_false, true_implies, exists_collect_eq_ok_iff]
    refine forall₂_congr fun txid _ => ?_
    unfold voteOnRecorded
    cases getTransaction txid with
    | none => simp
    | some tx => simp [exists_voteOnTransaction_iff]

variable {hash getTransaction wallet}

/-- The proposals that the votes of `CreateNewBlock` are on. -/
lemma exists_mem_collectVotes_iff {r : Registry} {nBestHeight : Int32} {votes : List CVoteObject}
    (hvotes : collectVotes hash getTransaction wallet r nBestHeight = .ok votes) (h : UInt256) :
    (∃ vote ∈ votes, vote.hashProposal = h) ↔ h ∈ wallet.mapVoteObjects ∧
      Announced hash getTransaction r h ∧ h ∈ r.proposalManager.getActive nBestHeight := by
  unfold collectVotes at hvotes
  cases hempty : wallet.mapVoteObjects.isEmpty with
  | true =>
    rw [if_pos hempty, Except.ok.injEq] at hvotes
    have hnot : h ∉ wallet.mapVoteObjects := by
      rw [Std.ExtTreeMap.isEmpty_iff.mp hempty]
      exact Std.ExtTreeMap.not_mem_empty
    simp [← hvotes, hnot]
  | false =>
    simp only [hempty, Bool.false_eq_true, if_false] at hvotes
    constructor
    · rintro ⟨vote, hvote, rfl⟩
      obtain ⟨txid, htxid, hcast⟩ := (mem_of_collect hvotes).mp hvote
      unfold voteOnRecorded at hcast
      cases htx : getTransaction txid with
      | none =>
        rw [htx] at hcast
        cases hcast
      | some tx =>
        rw [htx] at hcast
        obtain ⟨proposal, hdecode, hactive, hstored⟩ := voteOnTransaction_eq_some_iff.mp hcast
        rw [wallet.hash_eq hstored]
        exact ⟨MapLoop.mem_iff.mpr ⟨_, hstored⟩, ⟨txid, htxid, tx, proposal, htx, hdecode, rfl⟩,
          hactive⟩
    · rintro ⟨hvoted, ⟨txid, htxid, tx, proposal, htx, hdecode, rfl⟩, hactive⟩
      obtain ⟨vote, hstored⟩ := MapLoop.mem_iff.mp hvoted
      refine ⟨vote, (mem_of_collect hvotes).mpr ⟨txid, htxid, ?_⟩, wallet.hash_eq hstored⟩
      unfold voteOnRecorded
      rw [htx]
      exact voteOnTransaction_eq_some_iff.mpr ⟨proposal, hdecode, hactive, hstored⟩

end CreateNewBlock

/-! ## Where the votes are counted -/

/-- The votes for the version of the block are collected without a fault, and they are on exactly
the proposals that are voted for and that `recordVotes` finds active for the block, at its own
height. -/
def VotesWhereCounted (hash : Bytes → UInt256) (getTransaction : UInt256 → Option CTransaction)
    (wallet : CWallet) (r : Registry) (nBestHeight nHeight : Int32) : Prop :=
  ∃ votes, collectVotes hash getTransaction wallet r nBestHeight = .ok votes ∧
    ∀ h : UInt256, (∃ vote ∈ votes, vote.hashProposal = h) ↔
      h ∈ wallet.mapVoteObjects ∧ h ∈ r.proposalManager.getActive nHeight

/-- The voting period of a proposal has no boundary between the best block and the new one at which
its vote goes wrong. -/
structure CProposalMetaData.SteadyAt (data : CProposalMetaData) (announced : Prop)
    (nBestHeight nHeight : Int32) : Prop where
  /-- The period does not start with the new block, unless it is empty. -/
  not_starting : data.nHeightStart.toInt32 = nHeight → data.nHeightEnd.toInt32 < nHeight
  /-- The period of an announced proposal does not end with the best block. -/
  not_ending : data.nHeightStart.toInt32 ≤ nBestHeight → data.nHeightEnd.toInt32 = nBestHeight →
    ¬ announced
  /-- If the proposal is active for both blocks then it is announced. -/
  announced : data.nHeightStart.toInt32 ≤ nBestHeight → nHeight ≤ data.nHeightEnd.toInt32 →
    announced

/-- A proposal is voted on if it is counted exactly when its period is steady. -/
lemma CProposalMetaData.steadyAt_iff {nBestHeight nHeight : Int32}
    (hnext : nHeight.toInt = nBestHeight.toInt + 1) (data : CProposalMetaData) (announced : Prop) :
    (announced ∧ data.isActive nBestHeight = true ↔ data.isActive nHeight = true) ↔
      data.SteadyAt announced nBestHeight nHeight := by
  have hactive : ∀ n : Int32, data.isActive n = true ↔
      data.nHeightStart.toInt32.toInt ≤ n.toInt ∧ n.toInt ≤ data.nHeightEnd.toInt32.toInt := by
    intro n
    simp only [isActive, Bool.and_eq_true, decide_eq_true_eq, ge_iff_le, Int32.le_iff_toInt_le]
  rw [hactive, hactive, hnext]
  constructor
  · intro hboth
    refine ⟨fun hstart => ?_, fun hstart hend hannounced => ?_, fun hstart hend => ?_⟩
    · rw [Int32.lt_iff_toInt_lt, hnext]
      rw [← Int32.toInt_inj, hnext] at hstart
      by_contra hnonempty
      have hcounted := hboth.mpr ⟨hstart.le, not_lt.mp hnonempty⟩
      omega
    · rw [Int32.le_iff_toInt_le] at hstart
      have hcounted := hboth.mp ⟨hannounced, hstart, by rw [hend]⟩
      rw [hend] at hcounted
      omega
    · rw [Int32.le_iff_toInt_le] at hstart hend
      exact (hboth.mpr ⟨by omega, by omega⟩).1
  · rintro ⟨hstarting, hending, hannounced⟩
    simp only [Int32.le_iff_toInt_le, Int32.lt_iff_toInt_lt, ← Int32.toInt_inj, hnext]
      at hstarting hending hannounced
    constructor
    · rintro ⟨hann, hstart, hend⟩
      have hne : data.nHeightEnd.toInt32.toInt ≠ nBestHeight.toInt :=
        fun heq => hending hstart heq hann
      exact ⟨by omega, by omega⟩
    · rintro ⟨hstart, hend⟩
      have hne : data.nHeightStart.toInt32.toInt ≠ nBestHeight.toInt + 1 :=
        fun heq => absurd (hstarting heq) (not_lt.mpr hend)
      exact ⟨hannounced (by omega) hend, by omega, by omega⟩

open CVoteProposalManager

/-- A proposal on the same bits as `proposalAt 27 26`, for the blocks 111 to 121. -/
def proposalNext : CVoteProposal :=
  { proposalAt 27 26 with strName := [0x63], nStartHeight := 111 }

/-- The transactions of the two proposals. -/
def sampleTxs : List CTransaction :=
  [sampleProposalTx (proposalAt 27 26), { sampleProposalTx proposalNext with nTime := 1 }]

/-- Looking for one of the two transactions. -/
def sampleGetTransaction (txid : UInt256) : Option CTransaction :=
  sampleTxs.find? fun tx => tx.getHash sampleHash == txid

/-- The registry with the two proposals. -/
def registryOfTwo : Registry :=
  Registry.register sampleHash true (sampleTxs[1].getHash sampleHash) proposalNext
    (Registry.register sampleHash true (sampleTxs[0].getHash sampleHash) (proposalAt 27 26) {})

/-- A wallet with a yes on the first proposal and a no on the second one. -/
def walletOfTwo : CWallet :=
  CWallet.store
    { CVoteObject.ofProposal (proposalNext.getHash sampleHash) ⟨27, 26⟩ with nChoice := 2 }
    (CWallet.store
      { CVoteObject.ofProposal ((proposalAt 27 26).getHash sampleHash) ⟨27, 26⟩ with nChoice := 1 }
      {})

/-- In the version of the block at height 111, the yes on the first proposal is at the location of
the second one. -/
example : createVersion sampleHash sampleGetTransaction walletOfTwo registryOfTwo 110
    = .ok 0x54000000 := by decide +kernel

lemma recordsReadable_registryOfTwo : RecordsReadable sampleGetTransaction registryOfTwo := by
  intro txid _ tx hfind
  rw [readsInRange_iff_proposalFromTransaction tx {}]
  have hmem : tx ∈ sampleTxs := List.mem_of_find?_eq_some hfind
  rcases List.mem_pair.mp hmem with rfl | rfl
  · exact ⟨(true, proposalAt 27 26), by decide +kernel⟩
  · exact ⟨(true, proposalNext), by decide +kernel⟩

end HyperStake
