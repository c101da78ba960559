import Mathlib.Data.List.TakeWhile
import HyperStake.Chain.Count

/-!
# Connecting a block again

A reorganisation can disconnect a block and connect it again later.  `DisconnectBlock` leaves the
tally of the index as it is.  Where voting is enabled, the tally is then made anew from that of the
parent.  Anywhere else the votes of the block are added to the tally that has them already, so the
tally is the same only if the block abstains (`tally_reconnect_iff`).
-/

namespace HyperStake

namespace CVoteTally

variable {getProposalTXID : UInt256 → Option UInt256}
  {readProposal : UInt256 → Option CVoteProposal}

/-- A proposal has a transaction, and a record of it is read. -/
def hasRecord (getProposalTXID : UInt256 → Option UInt256)
    (readProposal : UInt256 → Option CVoteProposal) (hashProposal : UInt256) : Bool :=
  ((getProposalTXID hashProposal).bind readProposal).isSome

/-- `SetNewPositions` stops at the first proposal without a record. -/
lemma setNewPositionsLoop_takeWhile {mapNewLocations : List (UInt256 × VoteLocation)}
    (hnodup : (mapNewLocations.map Prod.fst).Nodup) (tally : CVoteTally)
    (hnew : ∀ it ∈ mapNewLocations, it.1 ∉ tally.mapLocations) :
    (setNewPositionsLoop getProposalTXID readProposal mapNewLocations tally).2 =
      (setNewPositionsLoop getProposalTXID readProposal
        (mapNewLocations.takeWhile fun it => hasRecord getProposalTXID readProposal it.1)
          tally).2 := by
  induction mapNewLocations generalizing tally with
  | nil => rfl
  | cons it mapNewLocations ih =>
    rw [List.map_cons, List.nodup_cons] at hnodup
    have hfresh : it.1 ∉ tally.mapLocations := hnew it List.mem_cons_self
    rw [List.takeWhile_cons]
    have hnotIn : ¬ (tally.mapLocations.contains it.1 = true) := by simpa using hfresh
    cases htxid : getProposalTXID it.1 with
    | none =>
      have hstop : setNewPositionsLoop getProposalTXID readProposal (it :: mapNewLocations) tally
          = (false, tally) := by
        rw [setNewPositionsLoop, if_neg hnotIn, htxid]
      rw [if_neg (by simp [hasRecord, htxid]), hstop]
      rfl
    | some txid =>
      cases hread : readProposal txid with
      | none =>
        have hstop : setNewPositionsLoop getProposalTXID readProposal (it :: mapNewLocations) tally
            = (false, tally) := by
          rw [setNewPositionsLoop, if_neg hnotIn, htxid]
          dsimp only
          rw [hread]
        rw [if_neg (by simp [hasRecord, htxid, hread]), hstop]
        rfl
      | some proposal =>
        rw [if_pos (by simp [hasRecord, htxid, hread]), setNewPositionsLoop, setNewPositionsLoop,
          if_neg hnotIn, if_neg hnotIn, htxid]
        dsimp only
        rw [hread]
        dsimp only
        apply ih hnodup.2
        intro it' hmem hin
        rcases Std.ExtTreeMap.mem_insertIfNew.mp hin with heq | hold
        · have hkey : it.1 = it'.1 := Std.LawfulEqCmp.eq_of_compare heq
          exact hnodup.1 (hkey ▸ List.mem_map_of_mem hmem)
        · exact hnew it' (List.mem_cons_of_mem _ hmem) hold

/-- The locations that `SetNewPositions` sets: those before the first proposal without a record. -/
def located (getProposalTXID : UInt256 → Option UInt256)
    (readProposal : UInt256 → Option CVoteProposal)
    (mapNewLocations : Std.ExtTreeMap UInt256 VoteLocation) : List (UInt256 × VoteLocation) :=
  mapNewLocations.toList.takeWhile fun it => hasRecord getProposalTXID readProposal it.1

/-- What `SetNewPositions` does: it takes over the located positions, starts the summaries that are
missing, and keeps the others. -/
lemma setNewPositions_spec (getProposalTXID : UInt256 → Option UInt256)
    (readProposal : UInt256 → Option CVoteProposal)
    (mapNewLocations : Std.ExtTreeMap UInt256 VoteLocation) (tally : CVoteTally) :
    (∀ (h : UInt256) (location : VoteLocation),
      (tally.setNewPositions getProposalTXID readProposal mapNewLocations).2.mapLocations[h]?
          = some location ↔
        (h, location) ∈ located getProposalTXID readProposal mapNewLocations) ∧
    (∀ h : UInt256,
      h ∈ (tally.setNewPositions getProposalTXID readProposal mapNewLocations).2.mapVotes ↔
        h ∈ tally.mapVotes ∨
          h ∈ (located getProposalTXID readProposal mapNewLocations).map Prod.fst) ∧
    (tally.setNewPositions getProposalTXID readProposal mapNewLocations).2.nHeight
        = tally.nHeight ∧
    ∀ (h : UInt256) (summary : CVoteSummary), tally.mapVotes[h]? = some summary →
      (tally.setNewPositions getProposalTXID readProposal mapNewLocations).2.mapVotes[h]?
        = some summary := by
  have hnodup := MapLoop.nodup_map_fst_toList mapNewLocations
  have hprefix : (located getProposalTXID readProposal mapNewLocations).map Prod.fst
      |>.Nodup := hnodup.sublist ((List.takeWhile_sublist _).map _)
  have hfound : ∀ it ∈ located getProposalTXID readProposal mapNewLocations, ∃ txid proposal,
      getProposalTXID it.1 = some txid ∧ readProposal txid = some proposal := by
    intro it hit
    have hrecord := List.mem_takeWhile_imp hit
    rw [hasRecord, Option.isSome_iff_exists] at hrecord
    obtain ⟨proposal, hproposal⟩ := hrecord
    obtain ⟨txid, htxid, hread⟩ := Option.bind_eq_some_iff.mp hproposal
    exact ⟨txid, proposal, htxid, hread⟩
  obtain ⟨hlocations, hvotes, -⟩ := setNewPositionsLoop_spec hprefix hfound
    { tally with mapLocations := ∅ } (by simp)
  obtain ⟨hheight, hkeep⟩ := setNewPositionsLoop_keeps getProposalTXID readProposal
    mapNewLocations.toList { tally with mapLocations := ∅ }
  refine ⟨fun h location => ?_, fun h => ?_, hheight, hkeep⟩
  · rw [setNewPositions, setNewPositionsLoop_takeWhile hnodup _ (by simp)]
    exact (hlocations h location).trans (by simp)
  · rw [setNewPositions, setNewPositionsLoop_takeWhile hnodup _ (by simp)]
    exact hvotes h

/-- Setting the same positions again, after the votes of a block were added, changes nothing. -/
lemma setNewPositions_again {mapNewLocations : Std.ExtTreeMap UInt256 VoteLocation}
    {nVersion : UInt32} {tally tally' : CVoteTally}
    (h : (tally.setNewPositions getProposalTXID readProposal mapNewLocations).2.processNewVotes
      nVersion = .ok tally') :
    (tally'.setNewPositions getProposalTXID readProposal mapNewLocations).2 = tally' := by
  obtain ⟨hlocations, hvotes, -, -⟩ :=
    setNewPositions_spec getProposalTXID readProposal mapNewLocations tally
  obtain ⟨hlocations', hvotes', hheight', hkeep'⟩ :=
    setNewPositions_spec getProposalTXID readProposal mapNewLocations tally'
  have hmem := (processNewVotes_keeps h).2
  have hsame : tally'.mapLocations
      = (tally.setNewPositions getProposalTXID readProposal mapNewLocations).2.mapLocations := by
    obtain ⟨mapVotes, -, hend⟩ := ExceptLoop.bind_eq_ok.mp h
    cases hend
    rfl
  have hmapLocations : (tally'.setNewPositions getProposalTXID readProposal
      mapNewLocations).2.mapLocations = tally'.mapLocations := by
    refine Std.ExtTreeMap.ext_getElem? fun k => Option.ext fun location => ?_
    rw [hlocations', hsame, hlocations]
  have hmapVotes : (tally'.setNewPositions getProposalTXID readProposal
      mapNewLocations).2.mapVotes = tally'.mapVotes := by
    refine Std.ExtTreeMap.ext_getElem? fun k => ?_
    cases hget : tally'.mapVotes[k]? with
    | some summary => exact hkeep' k summary hget
    | none =>
      have hnot : k ∉ tally'.mapVotes := fun hin => by
        rw [Std.ExtTreeMap.mem_iff_isSome_getElem?, hget] at hin
        cases hin
      refine Std.ExtTreeMap.getElem?_eq_none fun hin => ?_
      rcases (hvotes' k).mp hin with hold | hlocated
      · exact hnot hold
      · exact hnot ((hmem k).mpr ((hvotes k).mpr (Or.inr hlocated)))
  cases hset : (tally'.setNewPositions getProposalTXID readProposal mapNewLocations).2
  rw [hset] at hheight' hmapLocations hmapVotes
  cases hheight'
  cases hmapLocations
  cases hmapVotes
  rfl

/-- Counting the votes of a version again changes nothing exactly if the version abstains on every
proposal that has a location. -/
lemma processNewVotes_again_iff {nVersion : UInt32} {tally tally' : CVoteTally}
    (hall : ∀ hashProposal : UInt256, hashProposal ∈ tally.mapLocations →
      hashProposal ∈ tally.mapVotes)
    (h : tally.processNewVotes nVersion = .ok tally') :
    tally' = tally ↔ ∀ (hashProposal : UInt256) (location : VoteLocation),
      tally.mapLocations[hashProposal]? = some location →
        ∀ fYes, location.voteField nVersion.toBitVec ≠ choiceValue fYes := by
  constructor
  · intro heq hashProposal location hlocation fYes hchoice
    have hadd := votes_processNewVotes h hall hashProposal fYes
    rw [heq, hlocation] at hadd
    dsimp only at hadd
    rw [if_pos hchoice, ← UInt32.toNat_inj, UInt32.toNat_add, UInt32.toNat_one] at hadd
    have hlt := (tally.votes hashProposal fYes).toNat_lt
    omega
  · intro habstain
    obtain ⟨tally₁, hok, hheight, hlocations, hvotes⟩ := processNewVotes_eq_ok nVersion
      fun hash location hmem hlocation => readable_of_processNewVotes h hmem hlocation
    cases hok.symm.trans h
    have hmapVotes : tally'.mapVotes = tally.mapVotes := by
      refine Std.ExtTreeMap.ext_getElem? fun k => ?_
      rw [hvotes]
      cases tally.mapVotes[k]? with
      | none => rfl
      | some summary =>
        rw [Option.map_some]
        congr 1
        cases hlocation : tally.mapLocations[k]? with
        | none => rfl
        | some location =>
          have hyes : Int32.ofBitVec (location.voteField nVersion.toBitVec) ≠ 1 := fun hone =>
            habstain k location hlocation true (congrArg Int32.toBitVec hone)
          have hno : Int32.ofBitVec (location.voteField nVersion.toBitVec) ≠ 2 := fun htwo =>
            habstain k location hlocation false (congrArg Int32.toBitVec htwo)
          rw [counted, countVote, if_neg (by simpa using hyes), if_neg (by simpa using hno)]
    cases tally
    cases tally'
    cases hheight
    cases hlocations
    cases hmapVotes
    rfl

end CVoteTally

section Reconnect

variable {Db Db' : Type} {node : Node Db} {node' : Node Db'}
  {pindex pindex' pprev pprev' : CBlockIndex} {r : Registry} {tally tally' : CVoteTally}

/-- The locations at which the votes of a block at a height are read. -/
def votedAt (r : Registry) (nHeight : Int32) : List (UInt256 × VoteLocation) :=
  CVoteTally.located r.getProposalTXID (fun txid => r.voteDB.readProposal txid)
    (r.proposalManager.getActive nHeight)

/-- The version of a block votes neither yes nor no on the proposals that are voted on. -/
def Abstains (r : Registry) (pindex : CBlockIndex) : Prop :=
  ∀ it ∈ votedAt r pindex.nHeight, ∀ fYes,
    it.2.voteField pindex.nVersion.toUInt32.toBitVec ≠ choiceValue fYes

/-- Recording the votes of a block again gives the same tally if it starts from that of the parent,
or if the block abstains. -/
lemma recordVotes_again_iff (hnet : node'.fTestNet = node.fTestNet)
    (hheight : pindex'.nHeight = pindex.nHeight) (hversion : pindex'.nVersion = pindex.nVersion)
    (hparent : pprev'.tally = pprev.tally) (hkept : pindex'.tally = tally)
    (hfirst : recordVotes node pindex pprev r = .ok tally)
    (hagain : recordVotes node' pindex' pprev' r = .ok tally') :
    tally' = tally ↔ VotingEnabled node pindex ∨ Abstains r pindex := by
  by_cases henabled : VotingEnabled node pindex
  · have hstart : startTally node' pindex' pprev' = startTally node pindex pprev := by
      have hcond : (node.fTestNet || decide (pindex.nHeight ≥ VOTING_START.toInt32)) = true := by
        simpa [VotingEnabled] using henabled
      rw [startTally, startTally, hnet, hheight, if_pos hcond, if_pos hcond, hparent]
    rw [recordVotes, hstart, hheight, hversion] at hagain
    rw [recordVotes] at hfirst
    cases hfirst.symm.trans hagain
    exact iff_of_true rfl (Or.inl henabled)
  · have hcond : ¬ (node.fTestNet || decide (pindex.nHeight ≥ VOTING_START.toInt32)) = true := by
      simpa [VotingEnabled] using henabled
    rw [recordVotes, startTally, hnet, hheight, hversion, if_neg hcond, hkept] at hagain
    rw [recordVotes, startTally, if_neg hcond] at hfirst
    have hset := CVoteTally.setNewPositions_again hfirst
    rw [hset] at hagain
    obtain ⟨hlocations, hvotes, -, -⟩ := CVoteTally.setNewPositions_spec r.getProposalTXID
      (fun txid => r.voteDB.readProposal txid) (r.proposalManager.getActive pindex.nHeight) tally
    rw [hset] at hlocations hvotes
    have hall : ∀ hashProposal : UInt256, hashProposal ∈ tally.mapLocations →
        hashProposal ∈ tally.mapVotes := by
      intro hashProposal hmem
      obtain ⟨location, hget⟩ := MapLoop.mem_iff.mp hmem
      exact (hvotes _).mpr (Or.inr (List.mem_map_of_mem ((hlocations _ _).mp hget)))
    rw [CVoteTally.processNewVotes_again_iff hall hagain]
    constructor
    · intro habstain
      exact Or.inr fun it hit => habstain it.1 it.2 ((hlocations _ _).mpr hit)
    · rintro (h | habstain) hashProposal location hlocation
      · exact absurd h henabled
      · exact habstain (hashProposal, location) ((hlocations _ _).mp hlocation)

/-- A block is connected, disconnected, which changes no more of its index than the link to the next
block, and connected again under an unchanged registry: the tally is the same exactly if voting is
enabled for the block, or if the block abstains. -/
theorem tally_reconnect_iff {hash : Bytes → UInt256} {db : Db} {db' : Db'} {block : CBlock}
    {r₀ r₁ : Registry} {pnext : UInt256} {first : ConnectOutcome Db} {again : ConnectOutcome Db'}
    (hnet : node'.fTestNet = node.fTestNet) (hparent : pprev'.tally = pprev.tally)
    (hfirst : connectBlock hash node db block pindex (some pprev) false r₀ = first)
    (hfirstOk : first.result = .ok true)
    (hagain : connectBlock hash node' db' block { first.pindex with pnext } (some pprev') false r₁
      = again)
    (hagainOk : again.result = .ok true) (hregistry : again.registry = first.registry) :
    again.pindex.tally = first.pindex.tally ↔
      VotingEnabled node pindex ∨ Abstains first.registry pindex := by
  subst hfirst
  subst hagain
  obtain ⟨s, r, tally, -, -, hr, htally, hpindex⟩ := connectBlock_eq_true hash node hfirstOk
  obtain ⟨s', r', tally', -, -, hr', htally', hpindex'⟩ := connectBlock_eq_true hash node' hagainOk
  rw [hr, hr'] at hregistry
  rw [hregistry, hpindex] at htally'
  rw [hpindex', hpindex, hr]
  exact recordVotes_again_iff hnet (by rfl) (by rfl) hparent (by rfl) htally htally'

end Reconnect

/-! ## A block before voting is enabled -/

/-- The sample node, on the main network. -/
def sampleMainNode : Node Unit := { sampleNode with fTestNet := false }

/-- The block on the main network that registers the proposal with a voting period of one block. -/
def mainRegistered : ConnectOutcome Unit :=
  connectBlock sampleHash sampleMainNode () (sampleProposalBlock shortProposal)
    { phashBlock := 2, nHeight := 1, nVersion := 0x50000000 } (some { phashBlock := 1 }) false {}

/-- Connecting an index of the block of the period. -/
def mainVoted (pindex : CBlockIndex) : ConnectOutcome Unit :=
  connectBlock sampleHash sampleMainNode () { vtx := [sampleCoinBase] } pindex
    (some mainRegistered.pindex) false mainRegistered.registry

/-- The index of the block of the period with a version, before it is connected. -/
def mainIndex (nVersion : Int32) : CBlockIndex := { phashBlock := 3, nHeight := 2, nVersion }

lemma mainVoted_registry {pindex : CBlockIndex}
    (h : registrations sampleHash sampleMainNode () { vtx := [sampleCoinBase] } pindex false = []) :
    (mainVoted pindex).registry = mainRegistered.registry := by
  rw [mainVoted, connectBlock_registry, h, List.foldl_nil]

/-- The registry stays as it is when the block is connected, and when it is connected again. -/
lemma mainVoted_again_registry {nVersion : Int32}
    (hfirst : registrations sampleHash sampleMainNode () { vtx := [sampleCoinBase] }
      (mainIndex nVersion) false = [])
    (hagain : registrations sampleHash sampleMainNode () { vtx := [sampleCoinBase] }
      (mainVoted (mainIndex nVersion)).pindex false = []) :
    (mainVoted (mainVoted (mainIndex nVersion)).pindex).registry
      = (mainVoted (mainIndex nVersion)).registry :=
  (mainVoted_registry hagain).trans (mainVoted_registry hfirst).symm

lemma connectBlock_eq_mainVoted (pindex : CBlockIndex) :
    connectBlock sampleHash sampleMainNode () { vtx := [sampleCoinBase] }
      { pindex with pnext := pindex.pnext } (some mainRegistered.pindex) false
      mainRegistered.registry = mainVoted pindex := rfl

/-- A block that abstains. -/
theorem tally_reconnect_abstains :
    (mainVoted (mainVoted (mainIndex 0x50000000)).pindex).pindex.tally
      = (mainVoted (mainIndex 0x50000000)).pindex.tally := by
  have habstains : Abstains (mainVoted (mainIndex 0x50000000)).registry
      (mainIndex 0x50000000) := by
    unfold Abstains
    decide +kernel
  have hfirstOk : (mainVoted (mainIndex 0x50000000)).result = .ok true := by decide +kernel
  have hagainOk : (mainVoted (mainVoted (mainIndex 0x50000000)).pindex).result = .ok true := by
    decide +kernel
  have hregistry := mainVoted_again_registry (by decide +kernel : registrations sampleHash
    sampleMainNode () { vtx := [sampleCoinBase] } (mainIndex 0x50000000) false = [])
      (by decide +kernel)
  have hfirst := connectBlock_eq_mainVoted (mainIndex 0x50000000)
  have hagain := connectBlock_eq_mainVoted (mainVoted (mainIndex 0x50000000)).pindex
  -- what the two calls leave behind is not computed again
  generalize mainVoted (mainVoted (mainIndex 0x50000000)).pindex = again at *
  generalize mainVoted (mainIndex 0x50000000) = first at *
  exact (tally_reconnect_iff rfl rfl hfirst hfirstOk hagain hagainOk hregistry).mpr
    (Or.inr habstains)

/-- A block that votes yes is counted twice. -/
theorem not_tally_reconnect :
    (mainVoted (mainIndex 0x54000000)).result = .ok true ∧
      (mainVoted (mainVoted (mainIndex 0x54000000)).pindex).result = .ok true ∧
      (mainVoted (mainVoted (mainIndex 0x54000000)).pindex).registry
        = (mainVoted (mainIndex 0x54000000)).registry ∧
      (mainVoted (mainVoted (mainIndex 0x54000000)).pindex).pindex.tally
        ≠ (mainVoted (mainIndex 0x54000000)).pindex.tally := by
  refine ⟨by decide +kernel, by decide +kernel, mainVoted_again_registry (by decide +kernel)
    (by decide +kernel), fun heq => ?_⟩
  have hvotes := congrArg (CVoteTally.votes (shortProposal.getHash sampleHash) true) heq
  revert hvotes
  decide +kernel

end HyperStake
