import HyperStake.Voting.Tally

/-!
# Casting votes

A `CVoteObject` is the choice of the owner of a wallet on one proposal.  When a block is made, the
choices on the active proposals are shifted to the locations of the proposals and combined into the
version of the block (`GetCombinedVotes`), from which every node reads them again
(`ProcessNewVotes`).

The choice is shifted without a mask.  The votes are counted as they were cast exactly when every
choice fits in the bits of its proposal (`countsVotes_iff`).
-/

namespace HyperStake

open Booking

/-- The version of a block that carries votes: its first four bits. -/
def VOTING_VERSION : Int32 := 0x50000000

/-- The choice on one proposal. -/
structure CVoteObject where
  nChoice : UInt32 := 0
  nFormattedVote : UInt32 := 0
  fVoted : Bool := false
  hashProposal : UInt256 := 0
  bitLocation : VoteLocation := {}
  deriving DecidableEq, Repr

namespace CVoteObject

/-- The constructor from the hash and the location of a proposal. -/
def ofProposal (hashProposal : UInt256) (location : VoteLocation) : CVoteObject :=
  { hashProposal, bitLocation := location }

def vote (nVotersChoice : Int32) (v : CVoteObject) : Bool × CVoteObject :=
  (true, { v with nChoice := nVotersChoice.toUInt32 })

/-- `GetFormattedVote`: the choice, shifted to the location of the proposal. -/
def getFormattedVote (v : CVoteObject) : Except Fault UInt32 :=
  shiftLeftUInt32 v.nChoice v.bitLocation.getShift.toNat

def getCombinedVotes (votes : List CVoteObject) : Except Fault Int32 :=
  votes.foldlM (fun nCombinedVotes vote => do
    return nCombinedVotes ||| (← vote.getFormattedVote).toInt32) 0

end CVoteObject

/-- What `setvote` records for a proposal: nothing unless the choice is one of 0 - Abstain, 1 - Yes,
2 - No, 3 - Request proposal revision. -/
def setvote (hash : Bytes → UInt256) (proposal : CVoteProposal) (voteChoice : Int32) :
    Option CVoteObject :=
  if voteChoice > 3 || voteChoice < 0 then none
  else some ((CVoteObject.ofProposal (proposal.getHash hash) proposal.getLocation).vote
    voteChoice).2

namespace CVoteObject

/-- The combination of votes at positions below 32, as a bit vector. -/
def combined (votes : List CVoteObject) : BitVec 32 :=
  votes.foldl (fun x v => x ||| v.nChoice.toBitVec <<< v.bitLocation.nLeastSignificantBit.toNat) 0

/-- A bit of the combination is a bit of a shifted choice. -/
lemma getLsbD_combined (votes : List CVoteObject) (i : ℕ) :
    (combined votes).getLsbD i = votes.any fun v =>
      (v.nChoice.toBitVec <<< v.bitLocation.nLeastSignificantBit.toNat).getLsbD i := by
  have hzero : (0 : BitVec 32).getLsbD i = false := BitVec.getLsbD_zero
  rw [combined, BitField.getLsbD_foldl_or, hzero, Bool.false_or]

/-- Votes at positions below 32 are combined by "or". -/
lemma getCombinedVotes_eq {votes : List CVoteObject}
    (h : ∀ v ∈ votes, v.bitLocation.nLeastSignificantBit.toNat < 32) :
    getCombinedVotes votes = .ok (Int32.ofBitVec (combined votes)) := by
  have hloop : ∀ (votes : List CVoteObject) (x : BitVec 32),
      (∀ v ∈ votes, v.bitLocation.nLeastSignificantBit.toNat < 32) →
      votes.foldlM (fun nCombinedVotes vote => do
          return nCombinedVotes ||| (← vote.getFormattedVote).toInt32) (Int32.ofBitVec x)
        = (Except.ok (Int32.ofBitVec (votes.foldl (fun x v =>
            x ||| v.nChoice.toBitVec <<< v.bitLocation.nLeastSignificantBit.toNat) x)) :
          Except Fault Int32) := by
    intro votes
    induction votes with
    | nil => exact fun _ _ => rfl
    | cons v votes ih =>
      intro x h
      have hv := h v List.mem_cons_self
      have hformatted : v.getFormattedVote = .ok (UInt32.ofBitVec
          (v.nChoice.toBitVec <<< v.bitLocation.nLeastSignificantBit.toNat)) := by
        rw [getFormattedVote, shiftLeftUInt32, VoteLocation.getShift, if_pos (by omega)]
        rfl
      rw [List.foldlM_cons, List.foldl_cons, ← ih _ fun v' hv' => h v' (List.mem_cons_of_mem _ hv'),
        hformatted]
      rfl
  exact hloop votes 0 h

end CVoteObject

/-! ## Counting what was cast -/

/-- A tally whose locations are disjoint and below the version bits, each with a summary, and votes
on different proposals of the tally, with choices that `setvote` accepts. -/
structure IsPoll (tally : CVoteTally) (votes : List CVoteObject) : Prop where
  inside : ∀ {h : UInt256} {l : VoteLocation}, tally.mapLocations[h]? = some l → l.Inside
  disjoint : ∀ {h h' : UInt256} {l l' : VoteLocation}, h ≠ h' →
    tally.mapLocations[h]? = some l → tally.mapLocations[h']? = some l' →
    ¬ l.window.Meets l'.window
  summarised : ∀ {h : UInt256} {l : VoteLocation}, tally.mapLocations[h]? = some l →
    h ∈ tally.mapVotes
  located : ∀ {v : CVoteObject}, v ∈ votes →
    tally.mapLocations[v.hashProposal]? = some v.bitLocation
  distinct : votes.Pairwise fun v v' => v.hashProposal ≠ v'.hashProposal
  accepted : ∀ {v : CVoteObject}, v ∈ votes → v.nChoice ≤ 3

/-- What the votes say about the tally of one proposal: 1 adds one yes, 2 adds one no, and anything
else, or no vote at all, adds nothing. -/
def cast (votes : List CVoteObject) (h : UInt256) (summary : CVoteSummary) : CVoteSummary :=
  match votes.find? fun v => v.hashProposal == h with
  | none => summary
  | some v =>
    if v.nChoice = 1 then { summary with nYesTally := summary.nYesTally + 1 }
    else if v.nChoice = 2 then { summary with nNoTally := summary.nNoTally + 1 }
    else summary

/-- Combining the votes, putting them in a version and counting them there changes every tally as
the votes say, and leaves the version bits as they are. -/
def CountsVotes (tally : CVoteTally) (votes : List CVoteObject) : Prop :=
  ∃ nCombinedVotes tally', CVoteObject.getCombinedVotes votes = .ok nCombinedVotes ∧
    tally.processNewVotes (VOTING_VERSION ||| nCombinedVotes).toUInt32 = .ok tally' ∧
    (∀ h : UInt256, tally'.mapVotes[h]? = tally.mapVotes[h]?.map (cast votes h)) ∧
    (VOTING_VERSION ||| nCombinedVotes) &&& ~~~VOTEMASK = VOTING_VERSION

namespace IsPoll

variable {tally : CVoteTally} {votes : List CVoteObject}

/-- The version of a block with the votes. -/
def version (votes : List CVoteObject) : BitVec 32 := 0x50000000#32 ||| CVoteObject.combined votes

lemma getCombinedVotes_eq (hpoll : IsPoll tally votes) :
    CVoteObject.getCombinedVotes votes = .ok (Int32.ofBitVec (CVoteObject.combined votes)) := by
  refine CVoteObject.getCombinedVotes_eq fun v hv => ?_
  obtain ⟨horder, hmsb⟩ := hpoll.inside (hpoll.located hv)
  omega

/-- A bit of the version below the version bits is a bit of a shifted choice. -/
lemma getLsbD_version (votes : List CVoteObject) {i : ℕ} (hi : i < 28) :
    (version votes).getLsbD i = votes.any fun v =>
      (v.nChoice.toBitVec <<< v.bitLocation.nLeastSignificantBit.toNat).getLsbD i := by
  have hbits : (0x50000000#32).getLsbD i = false := by
    interval_cases i <;> rfl
  rw [version, BitVec.getLsbD_or, hbits, Bool.false_or, CVoteObject.getLsbD_combined]

section

variable (hpoll : IsPoll tally votes)

include hpoll

/-- A vote on a proposal is the one that is found for it. -/
lemma find?_eq_some {v : CVoteObject} (hv : v ∈ votes) :
    votes.find? (fun v' => v'.hashProposal == v.hashProposal) = some v := by
  have hdistinct := hpoll.distinct
  clear hpoll
  induction votes with
  | nil => cases hv
  | cons w votes ih =>
    obtain ⟨hw, hvotes⟩ := List.pairwise_cons.mp hdistinct
    rcases List.mem_cons.mp hv with rfl | hmem
    · simp
    · have hne : w.hashProposal ≠ v.hashProposal := hw v hmem
      rw [List.find?_cons_of_neg (by simpa using hne)]
      exact ih hmem hvotes

/-- A bit of a location is a bit of no other location. -/
lemma eq_of_mem_window {h h' : UInt256} {l l' : VoteLocation} {i : ℕ}
    (hl : tally.mapLocations[h]? = some l) (hl' : tally.mapLocations[h']? = some l')
    (hi : i ∈ l.window.points) (hi' : i ∈ l'.window.points) : h = h' := by
  by_contra hne
  exact hpoll.disjoint hne hl hl' (Interval.meets_of_mem hi hi')

section

variable (hfits : ∀ v ∈ votes, v.nChoice.toNat < 2 ^ v.bitLocation.width)

include hfits

/-- The field of the version at the location of a proposal, when the choices fit: the bits of the
votes on that proposal. -/
lemma getLsbD_voteField_version {h : UInt256}
    {l : VoteLocation} (hl : tally.mapLocations[h]? = some l) (i : ℕ) :
    (l.voteField (version votes)).getLsbD i
      = votes.any fun v => v.hashProposal == h && v.nChoice.toBitVec.getLsbD i := by
  obtain ⟨horder, hmsb⟩ := hpoll.inside hl
  have hown : ∀ v ∈ votes, v.hashProposal = h → v.bitLocation = l := by
    intro v hv hvh
    have hlocated := hpoll.located hv
    rw [hvh, hl] at hlocated
    exact (Option.some.inj hlocated).symm
  rw [(hpoll.inside hl).getLsbD_voteField, Bool.eq_iff_iff]
  simp only [Bool.and_eq_true, decide_eq_true_eq, List.any_eq_true, beq_iff_eq]
  constructor
  · rintro ⟨hi, hbit⟩
    have hlt : l.nLeastSignificantBit.toNat + i < 28 := by
      rw [VoteLocation.width] at hi
      omega
    rw [getLsbD_version votes hlt, List.any_eq_true] at hbit
    obtain ⟨v, hv, hvbit⟩ := hbit
    obtain ⟨hlo, hhi⟩ := BitField.mem_field_of_getLsbD_shiftLeft (hfits v hv) hvbit
    rw [VoteLocation.width] at hi hhi
    have hvh : v.hashProposal = h :=
      hpoll.eq_of_mem_window (hpoll.located hv) hl (i := l.nLeastSignificantBit.toNat + i)
        ⟨hlo, by simp only [VoteLocation.window]; omega⟩
        ⟨by simp only [VoteLocation.window]; omega, by simp only [VoteLocation.window]; omega⟩
    refine ⟨v, hv, hvh, ?_⟩
    rw [hown v hv hvh, BitVec.getLsbD_shiftLeft] at hvbit
    simp only [Bool.and_eq_true, Nat.add_sub_cancel_left] at hvbit
    exact hvbit.2
  · rintro ⟨v, hv, hvh, hbit⟩
    have hfit := hfits v hv
    rw [hown v hv hvh] at hfit
    have hi : i < l.width := by
      by_contra hi
      rw [BitField.getLsbD_of_fits hfit (by omega)] at hbit
      cases hbit
    have hlt : l.nLeastSignificantBit.toNat + i < 28 := by
      rw [VoteLocation.width] at hi
      omega
    refine ⟨hi, ?_⟩
    rw [getLsbD_version votes hlt, List.any_eq_true]
    refine ⟨v, hv, ?_⟩
    have hlt' : l.nLeastSignificantBit.toNat + i < 32 := by omega
    rw [hown v hv hvh, BitVec.getLsbD_shiftLeft]
    simp [hlt', hbit]

/-- When the choices fit, a version counts for every proposal what was cast for it. -/
lemma counted_version (h : UInt256) (summary : CVoteSummary) :
    CVoteTally.counted (UInt32.ofBitVec (version votes)) tally.mapLocations[h]? summary
      = cast votes h summary := by
  cases hl : tally.mapLocations[h]? with
  | none =>
    have hnone : votes.find? (fun v => v.hashProposal == h) = none := by
      rw [List.find?_eq_none]
      intro v hv hvh
      have hlocated := hpoll.located hv
      rw [beq_iff_eq.mp hvh, hl] at hlocated
      cases hlocated
    rw [cast, hnone]
    rfl
  | some l =>
    have hbits := hpoll.getLsbD_voteField_version hfits hl
    rw [cast, CVoteTally.counted]
    cases hfind : votes.find? (fun v => v.hashProposal == h) with
    | none =>
      have hfield : l.voteField (version votes) = 0#32 := by
        apply BitVec.eq_of_getLsbD_eq
        intro i _
        rw [hbits, BitVec.getLsbD_zero, List.any_eq_false]
        intro v hv hbit
        rw [Bool.and_eq_true] at hbit
        exact List.find?_eq_none.mp hfind v hv hbit.1
      rw [hfield]
      rfl
    | some v =>
      have hv : v ∈ votes := List.mem_of_find?_eq_some hfind
      have hvh : v.hashProposal = h := by simpa using List.find?_some hfind
      have hfield : l.voteField (version votes) = v.nChoice.toBitVec := by
        apply BitVec.eq_of_getLsbD_eq
        intro i _
        rw [hbits, Bool.eq_iff_iff, List.any_eq_true]
        constructor
        · rintro ⟨w, hw, hwbit⟩
          rw [Bool.and_eq_true, beq_iff_eq] at hwbit
          obtain ⟨hwh, hbit⟩ := hwbit
          have hsame := hpoll.find?_eq_some hw
          rw [hwh, hfind, Option.some.injEq] at hsame
          rw [hsame]
          exact hbit
        · intro hbit
          exact ⟨v, hv, by rw [hvh, hbit]; simp⟩
      rw [hfield]
      exact countVote_toInt32 v.nChoice summary

/-- When the choices fit, the version bits stay as they are. -/
lemma version_bits :
    (VOTING_VERSION ||| Int32.ofBitVec (CVoteObject.combined votes)) &&& ~~~VOTEMASK
      = VOTING_VERSION := by
  have hbits : CVoteObject.combined votes &&& ~~~0x0fffffff#32 = 0#32 := by
    apply BitVec.eq_of_getLsbD_eq
    intro i hi
    rw [BitVec.getLsbD_and, BitVec.getLsbD_zero, Bool.and_eq_false_iff,
      CVoteObject.getLsbD_combined]
    by_cases hlt : i < 28
    · right
      interval_cases i <;> rfl
    · left
      rw [List.any_eq_false]
      intro v hv hbit
      obtain ⟨horder, hmsb⟩ := hpoll.inside (hpoll.located hv)
      obtain ⟨hlo, hhi⟩ := BitField.mem_field_of_getLsbD_shiftLeft (hfits v hv) hbit
      rw [VoteLocation.width] at hhi
      omega
  have hsplit : (0x50000000#32 ||| CVoteObject.combined votes) &&& ~~~0x0fffffff#32
      = (0x50000000#32 &&& ~~~0x0fffffff#32)
        ||| (CVoteObject.combined votes &&& ~~~0x0fffffff#32) := by
    rw [BitVec.and_or_distrib_right]
  rw [← Int32.toBitVec_inj]
  exact hsplit.trans (by rw [hbits]; rfl)

end

end

end IsPoll

variable {votes : List CVoteObject} {v : CVoteObject}

/-- A choice that does not fit in the bits of its proposal is 2 or 3 on a proposal of one bit. -/
lemma IsPoll.width_eq_one {tally : CVoteTally} (hpoll : IsPoll tally votes) (hv : v ∈ votes)
    (hfit : ¬ v.nChoice.toNat < 2 ^ v.bitLocation.width) :
    v.bitLocation.width = 1 ∧ (v.nChoice = 2 ∨ v.nChoice = 3) := by
  obtain ⟨horder, -⟩ := hpoll.inside (hpoll.located hv)
  have hle := UInt32.le_iff_toNat_le.mp (hpoll.accepted hv)
  have h3 : (3 : UInt32).toNat = 3 := rfl
  rw [h3] at hle
  have hpos : 1 ≤ v.bitLocation.width := by
    rw [VoteLocation.width]
    omega
  have hwidth : v.bitLocation.width = 1 := by
    by_contra hne
    have hpow : 2 ^ 2 ≤ 2 ^ v.bitLocation.width := Nat.pow_le_pow_right (by decide) (by omega)
    omega
  rw [hwidth] at hfit
  refine ⟨hwidth, ?_⟩
  rw [← UInt32.toNat_inj, ← UInt32.toNat_inj]
  have h2 : (2 : UInt32).toNat = 2 := rfl
  omega

/-- On a proposal of one bit, a version counts nothing or one yes. -/
lemma IsPoll.counted_of_width_eq_one {l : VoteLocation} (hl : l.Inside) (hwidth : l.width = 1)
    (nVersion : BitVec 32) (summary : CVoteSummary) :
    CVoteTally.counted (UInt32.ofBitVec nVersion) (some l) summary =
      if nVersion.getLsbD l.nLeastSignificantBit.toNat = true then
        { summary with nYesTally := summary.nYesTally + 1 }
      else summary := by
  have hfield : l.voteField nVersion
      = if nVersion.getLsbD l.nLeastSignificantBit.toNat = true then 1#32 else 0#32 := by
    apply BitVec.eq_of_getLsbD_eq
    intro i _
    rw [hl.getLsbD_voteField, hwidth]
    by_cases hi : i = 0
    · subst hi
      cases nVersion.getLsbD l.nLeastSignificantBit.toNat <;> simp
    · have hlt : ¬ i < 1 := by omega
      split_ifs <;> simp [hlt, hi]
  rw [CVoteTally.counted]
  simp only [hfield]
  split_ifs <;> rfl

/-- A vote that is counted as it was cast fits in the bits of its proposal. -/
lemma IsPoll.fits_of_counted_eq_cast {tally : CVoteTally}
    (hpoll : IsPoll tally votes) (hv : v ∈ votes) {summary : CVoteSummary}
    (hcounted : CVoteTally.counted (UInt32.ofBitVec (IsPoll.version votes)) (some v.bitLocation)
      summary = cast votes v.hashProposal summary) :
    v.nChoice.toNat < 2 ^ v.bitLocation.width := by
  by_contra hfit
  -- a choice of 2 or 3 on a proposal of one bit: it is counted as nothing or as one yes
  obtain ⟨hwidth, hchoice⟩ := hpoll.width_eq_one hv hfit
  have hinside := hpoll.inside (hpoll.located hv)
  rw [IsPoll.counted_of_width_eq_one hinside hwidth, cast, hpoll.find?_eq_some hv] at hcounted
  rcases hchoice with h2 | h3
  · have hne : ¬ (2 : UInt32) = 1 := by decide
    simp only [h2, hne, if_false, if_true] at hcounted
    have hno := congrArg CVoteSummary.nNoTally hcounted
    have hkeep : summary.nNoTally = summary.nNoTally + 1 := by
      split_ifs at hno <;> exact hno
    grind
  · have hbit : (IsPoll.version votes).getLsbD v.bitLocation.nLeastSignificantBit.toNat
        = true := by
      obtain ⟨horder, hmsb⟩ := hinside
      rw [IsPoll.getLsbD_version votes (by omega), List.any_eq_true]
      refine ⟨v, hv, ?_⟩
      have hlt : v.bitLocation.nLeastSignificantBit.toNat < 32 := by omega
      rw [BitVec.getLsbD_shiftLeft, h3]
      simp [hlt]
    have hne1 : ¬ (3 : UInt32) = 1 := by decide
    have hne2 : ¬ (3 : UInt32) = 2 := by decide
    simp only [h3, hbit, hne1, hne2, if_false, if_true] at hcounted
    have hkeep : summary.nYesTally + 1 = summary.nYesTally :=
      congrArg CVoteSummary.nYesTally hcounted
    grind

/-- Counting the votes cast on the proposals of a tally changes the tally as the votes say, and no
version bit, exactly when every choice fits in the bits of its proposal. -/
theorem countsVotes_iff {tally : CVoteTally} {votes : List CVoteObject}
    (hpoll : IsPoll tally votes) :
    CountsVotes tally votes ↔ ∀ v ∈ votes, v.nChoice.toNat < 2 ^ v.bitLocation.width := by
  have hreadable : ∀ (h : UInt256) (l : VoteLocation), h ∈ tally.mapVotes →
      tally.mapLocations[h]? = some l → l.Readable :=
    fun h l _ hl => (hpoll.inside hl).readable
  obtain ⟨tally', hprocess, -, -, hvotes⟩ :=
    CVoteTally.processNewVotes_eq_ok (UInt32.ofBitVec (IsPoll.version votes)) hreadable
  constructor
  · rintro ⟨nCombinedVotes, tally'', hcombined, hprocess', hcast, -⟩
    rw [hpoll.getCombinedVotes_eq, Except.ok.injEq] at hcombined
    subst hcombined
    have hsame : tally' = tally'' := Except.ok.inj (hprocess.symm.trans hprocess')
    subst hsame
    intro v hv
    have hl := hpoll.located hv
    obtain ⟨summary, hsummary⟩ := Option.isSome_iff_exists.mp
      (Std.ExtTreeMap.mem_iff_isSome_getElem?.mp (hpoll.summarised hl))
    have hboth := (hvotes v.hashProposal).symm.trans (hcast v.hashProposal)
    rw [hsummary, hl, Option.map_some, Option.map_some, Option.some.injEq] at hboth
    exact hpoll.fits_of_counted_eq_cast hv hboth
  · intro hfits
    refine ⟨_, tally', hpoll.getCombinedVotes_eq, hprocess, fun h => ?_, hpoll.version_bits hfits⟩
    rw [hvotes]
    cases tally.mapVotes[h]? with
    | none => rfl
    | some summary => exact congrArg some (hpoll.counted_version hfits h summary)

/-- A tally of two proposals, one on the bits 27 and 26 and one on bit 25. -/
def samplePoll : CVoteTally where
  mapVotes := (Std.ExtTreeMap.insertIfNew ∅ 1 {}).insertIfNew 2 {}
  mapLocations := (Std.ExtTreeMap.insertIfNew ∅ 1 ⟨27, 26⟩).insertIfNew 2 ⟨25, 25⟩

/-- A choice on each of the two proposals. -/
def sampleVotes (nChoice nChoice' : UInt32) : List CVoteObject :=
  [{ nChoice := nChoice, hashProposal := 1, bitLocation := ⟨27, 26⟩ },
    { nChoice := nChoice', hashProposal := 2, bitLocation := ⟨25, 25⟩ }]

lemma isPoll_samplePoll {nChoice nChoice' : UInt32} (h : nChoice ≤ 3) (h' : nChoice' ≤ 3) :
    IsPoll samplePoll (sampleVotes nChoice nChoice') := by
  have hget : ∀ {k : UInt256} {l : VoteLocation}, samplePoll.mapLocations[k]? = some l →
      1 = k ∧ ⟨27, 26⟩ = l ∨ 2 = k ∧ ⟨25, 25⟩ = l := by
    intro k l hk
    rw [samplePoll, MapLoop.getElem?_insertIfNew_eq_some (by decide),
      MapLoop.getElem?_insertIfNew_eq_some (by decide)] at hk
    simpa using hk
  constructor
  · intro k l hk
    rcases hget hk with ⟨-, rfl⟩ | ⟨-, rfl⟩ <;> decide
  · intro k k' l l' hne hk hk'
    rcases hget hk with ⟨rfl, rfl⟩ | ⟨rfl, rfl⟩ <;> rcases hget hk' with ⟨rfl, rfl⟩ | ⟨rfl, rfl⟩
    · exact absurd rfl hne
    · decide
    · decide
    · exact absurd rfl hne
  · intro k l hk
    rcases hget hk with ⟨rfl, -⟩ | ⟨rfl, -⟩ <;> decide
  · intro v hv
    have hfirst : samplePoll.mapLocations[(1 : UInt256)]? = some ⟨27, 26⟩ := by decide
    have hsecond : samplePoll.mapLocations[(2 : UInt256)]? = some ⟨25, 25⟩ := by decide
    rcases List.mem_pair.mp hv with rfl | rfl
    · exact hfirst
    · exact hsecond
  · simp [sampleVotes]
  · intro v hv
    rcases List.mem_pair.mp hv with rfl | rfl
    · exact h
    · exact h'

/-- A no on the proposal of two bits and a yes on the proposal of one bit. -/
theorem countsVotes_samplePoll : CountsVotes samplePoll (sampleVotes 2 1) :=
  (countsVotes_iff (isPoll_samplePoll (by decide) (by decide))).mpr (by decide)

/-- A no on the proposal of one bit is not counted. -/
theorem not_countsVotes_samplePoll :
    ¬ ∀ tally votes, IsPoll tally votes → CountsVotes tally votes := by
  intro hcounts
  obtain ⟨nCombinedVotes, tally', hcombined, hprocess, hcast, -⟩ :=
    hcounts samplePoll (sampleVotes 0 2) (isPoll_samplePoll (by decide) (by decide))
  have hvalue : CVoteObject.getCombinedVotes (sampleVotes 0 2) = .ok 0x04000000 := by decide
  rw [hvalue, Except.ok.injEq] at hcombined
  subst hcombined
  have hno := congrArg (Except.map fun tally => tally.mapVotes[(2 : UInt256)]?) hprocess
  simp only [Except.map, hcast] at hno
  revert hno
  decide

end HyperStake
