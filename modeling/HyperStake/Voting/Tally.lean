import HyperStake.Library.BitField
import HyperStake.Library.ExceptLoop
import HyperStake.Library.MapLoop
import HyperStake.Voting.Proposal

/-!
# Tallies

The votes that a chain of blocks has cast for every proposal.  `SetNewPositions` takes over the
locations of the proposals that are voted on in a block and starts a summary for the new ones, and
`ProcessNewVotes` reads the vote for each of them out of the version field of the block.

The vote at a location is read by shifts whose amounts come from the location.  For a location whose
bits are positions of the version field (`Readable`) the shifts are defined, and they read the
field of bits that the location names, without the four version bits.
-/

namespace HyperStake

/-- The votes for one proposal. -/
structure CVoteSummary where
  nBlockStart : UInt32 := 0
  nCheckSpan : UInt32 := 0
  nYesTally : UInt32 := 0
  /-- Since voters can abstain, a no tally is needed. -/
  nNoTally : UInt32 := 0
  deriving DecidableEq, Repr

/-- The votes for all proposals, and where each vote is located in the header. -/
structure CVoteTally where
  nHeight : UInt32 := 0
  mapVotes : Std.ExtTreeMap UInt256 CVoteSummary := ∅
  mapLocations : Std.ExtTreeMap UInt256 VoteLocation := ∅

/-- The bits of a version that hold votes. -/
def VOTEMASK : Int32 := 0x0fffffff

/-! ## Reading a vote -/

/-- The part of `ProcessNewVotes` that reads the vote at a location. -/
def extractVote (nVersion : UInt32) (location : VoteLocation) : Except Fault Int32 := do
  let nVote := nVersion.toInt32 &&& VOTEMASK
  let nVote ← shiftRightInt32 nVote location.getShift.toNat
  let nMask ← shiftRightUInt32 (~~~0) (32 - location.getBitCount.toNat)
  return (nVote.toUInt32 &&& nMask).toInt32

namespace VoteLocation

/-- The shifts that read a vote at the location are defined. -/
def Readable (l : VoteLocation) : Prop :=
  l.nLeastSignificantBit.toNat ≤ l.nMostSignificantBit.toNat ∧ l.nLeastSignificantBit.toNat < 32 ∧
    l.nMostSignificantBit.toNat < l.nLeastSignificantBit.toNat + 32

instance (l : VoteLocation) : Decidable l.Readable := inferInstanceAs (Decidable (_ ∧ _))

/-- The number of bits of a location with ends in order. -/
def width (l : VoteLocation) : ℕ :=
  l.nMostSignificantBit.toNat + 1 - l.nLeastSignificantBit.toNat

lemma getBitCount_toNat (l : VoteLocation) :
    l.getBitCount.toNat
      = (l.nMostSignificantBit.toNat + 257 - l.nLeastSignificantBit.toNat) % 256 := by
  have hlsb := l.nLeastSignificantBit.toNat_lt
  have h1 : (1 : UInt8).toNat = 1 := rfl
  rw [getBitCount, UInt8.toNat_add, UInt8.toNat_sub, h1]
  omega

variable {l : VoteLocation}

lemma getBitCount_toNat_of_readable (h : l.Readable) : l.getBitCount.toNat = l.width := by
  obtain ⟨horder, -, hwidth⟩ := h
  rw [getBitCount_toNat, width]
  omega

/-- The bits of the location are in order and below the version bits. -/
def Inside (l : VoteLocation) : Prop :=
  l.nLeastSignificantBit.toNat ≤ l.nMostSignificantBit.toNat ∧ l.nMostSignificantBit.toNat ≤ 27

instance (l : VoteLocation) : Decidable l.Inside := inferInstanceAs (Decidable (_ ∧ _))

lemma Inside.readable (h : l.Inside) : l.Readable := by
  obtain ⟨horder, hmsb⟩ := h
  exact ⟨horder, by omega, by omega⟩

/-- The vote at a location, as a field of a version. -/
def voteField (l : VoteLocation) (nVersion : BitVec 32) : BitVec 32 :=
  BitField.read (nVersion &&& 0x0fffffff#32) l.nLeastSignificantBit.toNat l.width

/-- The bits of the vote at a location below the version bits. -/
lemma Inside.getLsbD_voteField (h : l.Inside) (nVersion : BitVec 32) (i : ℕ) :
    (l.voteField nVersion).getLsbD i
      = (decide (i < l.width) && nVersion.getLsbD (l.nLeastSignificantBit.toNat + i)) := by
  obtain ⟨horder, hmsb⟩ := h
  have hwidth : l.width ≤ 32 := by
    rw [width]
    omega
  have hmask : 0x0fffffff#32 = (BitVec.allOnes 28).setWidth 32 := by decide
  rw [voteField, BitField.getLsbD_read _ hwidth, BitVec.getLsbD_and]
  by_cases hi : i < l.width
  · have hlt : l.nLeastSignificantBit.toNat + i < 28 := by
      rw [width] at hi
      omega
    have hbit : (0x0fffffff#32).getLsbD (l.nLeastSignificantBit.toNat + i) = true := by
      rw [hmask, BitVec.getLsbD_setWidth, BitVec.getLsbD_allOnes, decide_eq_true hlt,
        decide_eq_true (by omega)]
      rfl
    rw [hbit, Bool.and_true]
  · simp [hi]

/-- At a readable location, the vote is the field of bits there. -/
lemma extractVote_eq (h : l.Readable) (nVersion : UInt32) :
    extractVote nVersion l = .ok (Int32.ofBitVec (l.voteField nVersion.toBitVec)) := by
  have hcount := getBitCount_toNat_of_readable h
  obtain ⟨horder, hshift, hwidth⟩ := h
  have hwidth' : 1 ≤ l.width ∧ l.width ≤ 32 := by
    rw [width]
    omega
  have hmsb : (nVersion.toBitVec &&& 0x0fffffff#32).msb = false := by
    rw [BitVec.msb_and]
    have hmask : (0x0fffffff#32).msb = false := by decide
    rw [hmask, Bool.and_false]
  have hsigned : (nVersion.toInt32 &&& VOTEMASK).toBitVec.sshiftRight l.nLeastSignificantBit.toNat
      = (nVersion.toBitVec &&& 0x0fffffff#32) >>> l.nLeastSignificantBit.toNat :=
    BitVec.sshiftRight_eq_of_msb_false hmsb
  have hamount : ((32 : ℤ) - (l.width : ℤ)).toNat = 32 - l.width := by omega
  rw [extractVote, shiftRightInt32, shiftRightUInt32, hcount, getShift, if_pos (by omega),
    if_pos (by omega), hamount]
  simp only [bind, Except.bind, pure, Except.pure, Int.toNat_natCast, hsigned]
  rfl

/-- Away from the readable locations, reading a vote is undefined. -/
lemma extractVote_eq_error (h : ¬ l.Readable) (nVersion : UInt32) :
    extractVote nVersion l = .error .undefined := by
  have hmsb := l.nMostSignificantBit.toNat_lt
  have hlsb := l.nLeastSignificantBit.toNat_lt
  have hcount := getBitCount_toNat l
  rw [Readable] at h
  rw [extractVote, shiftRightInt32, shiftRightUInt32, getShift]
  by_cases hshift : l.nLeastSignificantBit.toNat < 32
  · have hmask : ¬ ((0 : ℤ) ≤ 32 - (l.getBitCount.toNat : ℤ) ∧
        (32 : ℤ) - (l.getBitCount.toNat : ℤ) < 32) := by omega
    rw [if_pos (by omega), if_neg hmask]
    rfl
  · rw [if_neg (by omega)]
    rfl

end VoteLocation

/-! ## Counting the votes of a block -/

/-- The part of `ProcessNewVotes` that counts a vote if it is yes or no. -/
def countVote (nVote : Int32) (summary : CVoteSummary) : CVoteSummary :=
  if nVote == 1 then { summary with nYesTally := summary.nYesTally + 1 }
  else if nVote == 2 then { summary with nNoTally := summary.nNoTally + 1 }
  else summary

/-- Counting a vote that is read as an unsigned choice. -/
lemma countVote_toInt32 (nChoice : UInt32) (summary : CVoteSummary) :
    countVote nChoice.toInt32 summary =
      if nChoice = 1 then { summary with nYesTally := summary.nYesTally + 1 }
      else if nChoice = 2 then { summary with nNoTally := summary.nNoTally + 1 }
      else summary := by
  have hone : nChoice.toInt32 = 1 ↔ nChoice = 1 :=
    ⟨fun h => congrArg Int32.toUInt32 h, fun h => congrArg UInt32.toInt32 h⟩
  have htwo : nChoice.toInt32 = 2 ↔ nChoice = 2 :=
    ⟨fun h => congrArg Int32.toUInt32 h, fun h => congrArg UInt32.toInt32 h⟩
  simp only [countVote, beq_iff_eq, hone, htwo]

namespace CVoteTally

/-- One turn of the loop of `ProcessNewVotes`. -/
def processNewVote (nVersion : UInt32) (mapLocations : Std.ExtTreeMap UInt256 VoteLocation)
    (mapVotes : Std.ExtTreeMap UInt256 CVoteSummary) (hash : UInt256) :
    Except Fault (Std.ExtTreeMap UInt256 CVoteSummary) :=
  match mapLocations[hash]? with
  | none => .ok mapVotes
  | some location => do
    let nVote ← extractVote nVersion location
    return mapVotes.modify hash (countVote nVote)

/-- `ProcessNewVotes`: record the votes that were in the block header. -/
def processNewVotes (nVersion : UInt32) (tally : CVoteTally) : Except Fault CVoteTally := do
  let mapVotes ← tally.mapVotes.keys.foldlM (processNewVote nVersion tally.mapLocations)
    tally.mapVotes
  return { tally with mapVotes }

/-- What a version adds to the votes for the proposal at a location, if it has one. -/
def counted (nVersion : UInt32) : Option VoteLocation → CVoteSummary → CVoteSummary
  | none, summary => summary
  | some location, summary =>
    countVote (Int32.ofBitVec (location.voteField nVersion.toBitVec)) summary

variable {nVersion : UInt32}

/-- One turn of the loop changes the votes for one proposal. -/
lemma changesAt_processNewVote {mapLocations : Std.ExtTreeMap UInt256 VoteLocation} {hash : UInt256}
    (h : ∀ location : VoteLocation, mapLocations[hash]? = some location → location.Readable) :
    MapLoop.ChangesAt (processNewVote nVersion mapLocations)
      (fun hash => counted nVersion mapLocations[hash]?) hash := by
  intro mapVotes
  rw [processNewVote]
  cases hlocation : mapLocations[hash]? with
  | none =>
    refine ⟨mapVotes, rfl, ?_, fun _ _ => rfl⟩
    cases mapVotes[hash]? <;> simp [hlocation, counted]
  | some location =>
    simp only [hlocation, VoteLocation.extractVote_eq (h location hlocation)]
    exact ⟨_, rfl, Std.ExtTreeMap.getElem?_modify_self,
      fun hash' hne => MapLoop.getElem?_modify_of_ne _ _ hne⟩

/-- When every location is readable, `ProcessNewVotes` counts for every proposal the vote at its
location. -/
lemma processNewVotes_eq_ok (nVersion : UInt32) {tally : CVoteTally}
    (h : ∀ (hash : UInt256) (location : VoteLocation), hash ∈ tally.mapVotes →
      tally.mapLocations[hash]? = some location → location.Readable) :
    ∃ tally', tally.processNewVotes nVersion = .ok tally' ∧ tally'.nHeight = tally.nHeight ∧
      tally'.mapLocations = tally.mapLocations ∧ ∀ hash : UInt256,
        tally'.mapVotes[hash]? =
          tally.mapVotes[hash]?.map (counted nVersion tally.mapLocations[hash]?) := by
  have hstep : ∀ hash ∈ tally.mapVotes.keys,
      MapLoop.ChangesAt (processNewVote nVersion tally.mapLocations)
        (fun hash => counted nVersion tally.mapLocations[hash]?) hash := by
    intro hash hmem
    exact changesAt_processNewVote fun location hlocation =>
      h hash location (Std.ExtTreeMap.mem_keys.mp hmem) hlocation
  obtain ⟨mapVotes, hloop, hvotes⟩ := MapLoop.foldlM_keys_of_changesAt tally.mapVotes hstep
  refine ⟨{ tally with mapVotes }, ?_, rfl, rfl, hvotes⟩
  rw [processNewVotes, hloop]
  rfl

/-- The loop of `ProcessNewVotes` keeps the proposals that have a summary. -/
lemma mem_of_foldlM_processNewVote
    {mapLocations : Std.ExtTreeMap UInt256 VoteLocation} {hashes : List UInt256}
    {mapVotes mapVotes' : Std.ExtTreeMap UInt256 CVoteSummary}
    (h : hashes.foldlM (processNewVote nVersion mapLocations) mapVotes = .ok mapVotes')
    (hash : UInt256) : hash ∈ mapVotes' ↔ hash ∈ mapVotes := by
  induction hashes generalizing mapVotes with
  | nil =>
    cases h
    rfl
  | cons hash' hashes ih =>
    rw [List.foldlM_cons, processNewVote] at h
    cases hlocation : mapLocations[hash']? with
    | none =>
      rw [hlocation] at h
      exact ih h
    | some location =>
      rw [hlocation] at h
      cases hvote : extractVote nVersion location with
      | error e => simp [hvote, bind, Except.bind] at h
      | ok nVote =>
        simp only [hvote, bind, Except.bind, pure, Except.pure] at h
        rw [ih h, Std.ExtTreeMap.mem_modify]

/-- If `ProcessNewVotes` returns, then it keeps the height and the proposals that have a summary. -/
lemma processNewVotes_keeps {tally tally' : CVoteTally}
    (h : tally.processNewVotes nVersion = .ok tally') :
    tally'.nHeight = tally.nHeight ∧
      ∀ hash : UInt256, hash ∈ tally'.mapVotes ↔ hash ∈ tally.mapVotes := by
  rw [processNewVotes] at h
  cases hloop : tally.mapVotes.keys.foldlM (processNewVote nVersion tally.mapLocations)
      tally.mapVotes with
  | error e => simp [hloop, bind, Except.bind] at h
  | ok mapVotes =>
    simp only [hloop, bind, Except.bind, pure, Except.pure, Except.ok.injEq] at h
    rw [← h]
    exact ⟨rfl, mem_of_foldlM_processNewVote hloop⟩

/-! ## The positions of a new block -/

/-- The loop of `SetNewPositions` over the new locations that are left.  `getProposalTXID` finds the
transaction of a proposal, and `readProposal` its record in the database. -/
def setNewPositionsLoop (getProposalTXID : UInt256 → Option UInt256)
    (readProposal : UInt256 → Option CVoteProposal) :
    List (UInt256 × VoteLocation) → CVoteTally → Bool × CVoteTally
  | [], tally => (true, tally)
  | it :: mapNewLocations, tally =>
    if tally.mapLocations.contains it.1 then
      setNewPositionsLoop getProposalTXID readProposal mapNewLocations tally
    else
      match getProposalTXID it.1 with
      | none => (false, tally)
      | some txid =>
        match readProposal txid with
        | none => (false, tally)
        | some proposal =>
          let summary : CVoteSummary :=
            { nBlockStart := proposal.getStartHeight, nCheckSpan := proposal.getCheckSpan }
          setNewPositionsLoop getProposalTXID readProposal mapNewLocations
            { tally with
              mapLocations := tally.mapLocations.insertIfNew it.1 it.2
              mapVotes := tally.mapVotes.insertIfNew it.1 summary }

/-- `SetNewPositions`.  Returns whether every new location was set, and the tally. -/
def setNewPositions (getProposalTXID : UInt256 → Option UInt256)
    (readProposal : UInt256 → Option CVoteProposal)
    (mapNewLocations : Std.ExtTreeMap UInt256 VoteLocation) (tally : CVoteTally) :
    Bool × CVoteTally :=
  setNewPositionsLoop getProposalTXID readProposal mapNewLocations.toList
    { tally with mapLocations := ∅ }

def getSummary (hashProposal : UInt256) (tally : CVoteTally) : Option CVoteSummary :=
  tally.mapVotes[hashProposal]?

/-- Setting new positions keeps the height and every summary that is there. -/
lemma setNewPositionsLoop_keeps (getProposalTXID : UInt256 → Option UInt256)
    (readProposal : UInt256 → Option CVoteProposal)
    (mapNewLocations : List (UInt256 × VoteLocation)) (tally : CVoteTally) :
    (setNewPositionsLoop getProposalTXID readProposal mapNewLocations tally).2.nHeight
        = tally.nHeight ∧
      ∀ (hash : UInt256) (summary : CVoteSummary), tally.mapVotes[hash]? = some summary →
        (setNewPositionsLoop getProposalTXID readProposal mapNewLocations tally).2.mapVotes[hash]?
          = some summary := by
  induction mapNewLocations generalizing tally with
  | nil => exact ⟨rfl, fun _ _ h => h⟩
  | cons it mapNewLocations ih =>
    rw [setNewPositionsLoop]
    split_ifs with hcontains
    · exact ih tally
    · cases getProposalTXID it.1 with
      | none => exact ⟨rfl, fun _ _ h => h⟩
      | some txid =>
        dsimp only
        cases readProposal txid with
        | none => exact ⟨rfl, fun _ _ h => h⟩
        | some proposal =>
          refine ⟨(ih _).1, fun hash summary hsummary => (ih _).2 hash summary ?_⟩
          rw [Std.ExtTreeMap.getElem?_insertIfNew, if_neg]
          · exact hsummary
          · rintro ⟨heq, hnotMem⟩
            rw [Std.LawfulEqCmp.eq_of_compare heq] at hnotMem
            exact hnotMem (Std.ExtTreeMap.mem_iff_isSome_getElem?.mpr (by simp [hsummary]))

/-! ## The count of a choice -/

end CVoteTally

/-- The value at the bits of a proposal that votes yes, or no. -/
def choiceValue (fYes : Bool) : BitVec 32 := if fYes then 1#32 else 2#32

/-- The yes tally, or the no tally. -/
def CVoteSummary.tallyOf (fYes : Bool) (summary : CVoteSummary) : UInt32 :=
  if fYes then summary.nYesTally else summary.nNoTally

/-- Counting a vote adds one to the tally of its choice. -/
lemma tallyOf_countVote (nVote : BitVec 32) (summary : CVoteSummary) (fYes : Bool) :
    (countVote (Int32.ofBitVec nVote) summary).tallyOf fYes =
      summary.tallyOf fYes + if nVote = choiceValue fYes then 1 else 0 := by
  have hone : Int32.ofBitVec nVote = 1 ↔ nVote = 1#32 :=
    ⟨fun h => congrArg Int32.toBitVec h, fun h => congrArg Int32.ofBitVec h⟩
  have htwo : Int32.ofBitVec nVote = 2 ↔ nVote = 2#32 :=
    ⟨fun h => congrArg Int32.toBitVec h, fun h => congrArg Int32.ofBitVec h⟩
  simp only [countVote, beq_iff_eq, hone, htwo]
  by_cases h1 : nVote = 1#32
  · subst h1
    cases fYes <;> simp [CVoteSummary.tallyOf, choiceValue]
  · by_cases h2 : nVote = 2#32
    · subst h2
      cases fYes <;> simp [CVoteSummary.tallyOf, choiceValue]
    · cases fYes <;> simp [CVoteSummary.tallyOf, choiceValue, h1, h2]

namespace CVoteTally

/-- The tally of a choice on a proposal, zero if it has no summary. -/
def votes (h : UInt256) (fYes : Bool) (tally : CVoteTally) : UInt32 :=
  match tally.mapVotes[h]? with
  | some summary => summary.tallyOf fYes
  | none => 0

/-- When every proposal has a transaction with a record, setting new positions sets them all, starts
the summaries that are missing, and counts nothing. -/
lemma setNewPositionsLoop_spec {getProposalTXID : UInt256 → Option UInt256}
    {readProposal : UInt256 → Option CVoteProposal}
    {mapNewLocations : List (UInt256 × VoteLocation)}
    (hnodup : (mapNewLocations.map Prod.fst).Nodup)
    (hfound : ∀ it ∈ mapNewLocations, ∃ txid proposal, getProposalTXID it.1 = some txid ∧
      readProposal txid = some proposal)
    (tally : CVoteTally) (hnew : ∀ it ∈ mapNewLocations, it.1 ∉ tally.mapLocations) :
    (∀ (h : UInt256) (location : VoteLocation),
      (setNewPositionsLoop getProposalTXID readProposal mapNewLocations tally).2.mapLocations[h]?
          = some location ↔
        tally.mapLocations[h]? = some location ∨ (h, location) ∈ mapNewLocations) ∧
    (∀ h : UInt256,
      h ∈ (setNewPositionsLoop getProposalTXID readProposal mapNewLocations tally).2.mapVotes ↔
        h ∈ tally.mapVotes ∨ h ∈ mapNewLocations.map Prod.fst) ∧
    ∀ (h : UInt256) (fYes : Bool),
      (setNewPositionsLoop getProposalTXID readProposal mapNewLocations tally).2.votes h fYes
        = tally.votes h fYes := by
  induction mapNewLocations generalizing tally with
  | nil => simp [setNewPositionsLoop]
  | cons it mapNewLocations ih =>
    rw [List.map_cons, List.nodup_cons] at hnodup
    obtain ⟨txid, proposal, htxid, hread⟩ := hfound it List.mem_cons_self
    have hfresh : it.1 ∉ tally.mapLocations := hnew it List.mem_cons_self
    rw [setNewPositionsLoop, if_neg (by simpa using hfresh), htxid]
    dsimp only
    rw [hread]
    dsimp only
    obtain ⟨hlocations, hvotes, hcount⟩ := ih hnodup.2
      (fun it' hmem => hfound it' (List.mem_cons_of_mem _ hmem))
      { tally with
        mapLocations := tally.mapLocations.insertIfNew it.1 it.2
        mapVotes := tally.mapVotes.insertIfNew it.1
          { nBlockStart := proposal.getStartHeight, nCheckSpan := proposal.getCheckSpan } }
      (by
        intro it' hmem hin
        rcases Std.ExtTreeMap.mem_insertIfNew.mp hin with heq | hold
        · have hkey : it.1 = it'.1 := Std.LawfulEqCmp.eq_of_compare heq
          exact hnodup.1 (hkey ▸ List.mem_map_of_mem hmem)
        · exact hnew it' (List.mem_cons_of_mem _ hmem) hold)
    refine ⟨?_, ?_, ?_⟩
    · intro h location
      rw [hlocations, List.mem_cons, MapLoop.getElem?_insertIfNew_eq_some hfresh]
      have hpair : (h, location) = it ↔ it.1 = h ∧ it.2 = location := by
        rw [Prod.ext_iff]
        exact and_congr eq_comm eq_comm
      rw [hpair, or_assoc]
    · intro h
      rw [hvotes, List.map_cons, List.mem_cons, Std.ExtTreeMap.mem_insertIfNew]
      have hcmp : compare it.1 h = .eq ↔ h = it.1 :=
        ⟨fun heq => (Std.LawfulEqCmp.eq_of_compare heq).symm, fun heq => by
          rw [heq]
          exact Std.ReflCmp.compare_self⟩
      rw [hcmp]
      tauto
    · intro h fYes
      rw [hcount, votes, votes]
      dsimp only
      rw [MapLoop.getElem?_insertIfNew_eq]
      split_ifs with hkey
      · subst hkey
        cases tally.mapVotes[it.1]? with
        | none => cases fYes <;> rfl
        | some summary => rfl
      · rfl

variable {tally tally' : CVoteTally}

/-- If `ProcessNewVotes` returns, then the votes that it reads are at readable locations. -/
lemma readable_of_processNewVotes {nVersion : UInt32}
    (h : tally.processNewVotes nVersion = .ok tally') {hashProposal : UInt256}
    {location : VoteLocation} (hmem : hashProposal ∈ tally.mapVotes)
    (hlocation : tally.mapLocations[hashProposal]? = some location) : location.Readable := by
  by_contra hbad
  have hfail : ∀ (hashes : List UInt256) (mapVotes : Std.ExtTreeMap UInt256 CVoteSummary),
      hashProposal ∈ hashes →
      ∀ mapVotes', hashes.foldlM (processNewVote nVersion tally.mapLocations) mapVotes
        ≠ Except.ok mapVotes' := by
    intro hashes
    induction hashes with
    | nil => simp
    | cons hash hashes ih =>
      intro mapVotes hin mapVotes' hrun
      obtain ⟨mapVotes₁, hfirst, hrest⟩ := ExceptLoop.foldlM_cons_eq_ok.mp hrun
      rcases List.mem_cons.mp hin with rfl | hin
      · rw [processNewVote, hlocation] at hfirst
        dsimp only at hfirst
        rw [VoteLocation.extractVote_eq_error hbad] at hfirst
        cases hfirst
      · exact ih mapVotes₁ hin mapVotes' hrest
  obtain ⟨mapVotes, hloop, -⟩ := ExceptLoop.bind_eq_ok.mp h
  exact hfail _ _ (Std.ExtTreeMap.mem_keys.mpr hmem) _ hloop

/-- `ProcessNewVotes` adds to the count of a choice on a proposal what the version holds at its
location. -/
lemma votes_processNewVotes {nVersion : UInt32} (h : tally.processNewVotes nVersion = .ok tally')
    (hall : ∀ hashProposal : UInt256, hashProposal ∈ tally.mapLocations →
      hashProposal ∈ tally.mapVotes) (hashProposal : UInt256) (fYes : Bool) :
    tally'.votes hashProposal fYes = tally.votes hashProposal fYes +
      match tally.mapLocations[hashProposal]? with
      | some location => if location.voteField nVersion.toBitVec = choiceValue fYes then 1 else 0
      | none => 0 := by
  obtain ⟨tally₁, hok, -, -, hvotes⟩ := processNewVotes_eq_ok nVersion
    fun hash location hmem hlocation => readable_of_processNewVotes h hmem hlocation
  obtain rfl := Except.ok.inj (hok.symm.trans h)
  rw [votes, votes, hvotes]
  cases hlocation : tally.mapLocations[hashProposal]? with
  | none => cases tally.mapVotes[hashProposal]? <;> simp [counted]
  | some location =>
    have hmem : hashProposal ∈ tally.mapVotes :=
      hall _ (MapLoop.mem_iff.mpr ⟨_, hlocation⟩)
    obtain ⟨summary, hsummary⟩ := MapLoop.mem_iff.mp hmem
    rw [hsummary]
    exact tallyOf_countVote _ _ _

end CVoteTally

end HyperStake
