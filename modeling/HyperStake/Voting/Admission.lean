import HyperStake.Voting.Manager

/-!
# Admitting proposals

`CheckProposal` decides whether the memory pool takes a proposal, `Add` whether the manager does.
This module follows the manager over whole runs of `Add` and `Remove` calls (`Reaches`) and asks
when the lookup of a free location, on which `CheckProposal` depends, stays inside its vector of 28
spots, and when the two decisions agree.

`Add` accepts a location with bits above position 27, which has no spot; and `CheckProposal` asks
for any free location with as many bits as the proposal has, not for the one that it names.
-/

namespace HyperStake

open Booking

namespace CVoteProposalManager

/-! ## Runs -/

/-- The managers that calls of `Add`, on proposals with a property, and of `Remove` lead to from the
empty one. -/
inductive Reaches (hash : Bytes → UInt256) (P : CVoteProposal → Prop) :
    CVoteProposalManager → Prop
  | empty : Reaches hash P empty
  | add {m : CVoteProposalManager} (proposal : CVoteProposal) :
      P proposal → Reaches hash P m → Reaches hash P (m.add hash proposal).2
  | remove {m : CVoteProposalManager} (hashProposal : UInt256) :
      Reaches hash P m → Reaches hash P (m.remove hashProposal)

variable {hash : Bytes → UInt256} {m : CVoteProposalManager}

/-- Everything that a run stores is the metadata of a proposal that was added in it. -/
lemma Reaches.stored {P : CVoteProposal → Prop} (hm : Reaches hash P m) {h : UInt256}
    {data : CProposalMetaData} (hget : m.mapProposalData[h]? = some data) :
    ∃ proposal, P proposal ∧ data = CProposalMetaData.ofProposal hash proposal := by
  induction hm generalizing h data with
  | empty => simp [CVoteProposalManager.empty] at hget
  | add proposal hP _ ih =>
    rcases getElem?_add_cases hget with hold | ⟨-, hnew⟩
    · exact ih hold
    · exact ⟨proposal, hP, hnew⟩
  | remove hashProposal _ ih =>
    rw [getElem?_remove] at hget
    split_ifs at hget
    exact ih hget

/-! ## The lookup of a free location -/

/-- The search for a run of free spots accesses no spot out of range. -/
lemma exists_findLocation_eq_ok {vAvailable : List Bool} (nBitCount : Int32) {i : ℕ}
    (hlen : i ≤ vAvailable.length) (hi : i ≤ 256) (nSequential : Int32) :
    ∃ r, findLocation vAvailable nBitCount i nSequential = .ok r := by
  induction i generalizing nSequential with
  | zero => exact ⟨none, rfl⟩
  | succ i ih =>
    have hnat : (UInt8.ofNat i).toNat = i := by
      rw [UInt8.toNat_ofNat']
      omega
    have hlt : (UInt8.ofNat i).toNat < vAvailable.length := by omega
    rw [findLocation, CheckedVector.get_of_lt hlt]
    simp only [bind, Except.bind]
    generalize (if vAvailable[(UInt8.ofNat i).toNat] = true then nSequential + 1 else 0)
      = nSequential'
    by_cases hfull : (nSequential' == nBitCount) = true
    · rw [if_pos hfull]
      exact ⟨_, rfl⟩
    · rw [if_neg hfull]
      exact ih (by omega) (by omega) nSequential'

/-- `GetNextLocation` returns exactly when no stored proposal that shares a block with the period
has a bit above position 27. -/
lemma exists_getNextLocation_eq_ok_iff {nBitCount nStartHeight nCheckSpan : Int32}
    {location : VoteLocation} :
    (∃ r, m.getNextLocation nBitCount nStartHeight nCheckSpan location = .ok r) ↔
      ∀ (h : UInt256) (data : CProposalMetaData), m.mapProposalData[h]? = some data →
        data.sharesBlock nStartHeight nCheckSpan = true →
        ∀ i ∈ data.booking.slots.points, i < 28 := by
  set vConflictingTime := m.values.filter fun data =>
    data.sharesBlock nStartHeight nCheckSpan with hconflict
  have hright : (∀ (h : UInt256) (data : CProposalMetaData), m.mapProposalData[h]? = some data →
        data.sharesBlock nStartHeight nCheckSpan = true →
        ∀ i ∈ data.booking.slots.points, i < 28) ↔
      ∀ i ∈ vConflictingTime.flatMap CProposalMetaData.takenBits,
        i < (List.replicate 28 true).length := by
    simp only [List.mem_flatMap, hconflict, List.mem_filter, mem_values,
      CProposalMetaData.mem_takenBits, List.length_replicate]
    grind
  rw [hright, getNextLocation]
  simp only [← hconflict]
  by_cases hempty : vConflictingTime.isEmpty = true
  · rw [if_pos hempty, List.isEmpty_iff.mp hempty]
    simp
  · rw [if_neg hempty, CheckedVector.foldlM_setAll, CheckedVector.setAll_eq]
    split_ifs with hbits
    · refine iff_of_true ?_ hbits
      have hlen : 28 ≤ (CheckedVector.setEach false (List.replicate 28 true)
          (vConflictingTime.flatMap CProposalMetaData.takenBits)).length := by simp
      obtain ⟨found, hfound⟩ := exists_findLocation_eq_ok nBitCount hlen (by decide) 0
      simp only [bind, Except.bind, hfound]
      cases found <;> exact ⟨_, rfl⟩
    · refine iff_of_false ?_ hbits
      rintro ⟨r, hr⟩
      cases hr

/-- Neither lookup of a free location nor, with it, any check of a proposal ends in a fault. -/
structure LookupsInRange (hash : Bytes → UInt256) (m : CVoteProposalManager) : Prop where
  location : ∀ nBitCount nStartHeight nCheckSpan location,
    ∃ r, m.getNextLocation nBitCount nStartHeight nCheckSpan location = .ok r
  check : ∀ nBestHeight proposal, ∃ b, m.checkProposal hash nBestHeight proposal = .ok b

/-- `CheckProposal` faults only if the lookup of a free location does. -/
lemma exists_checkProposal_eq_ok
    (hlocation : ∀ nBitCount nStartHeight nCheckSpan location,
      ∃ r, m.getNextLocation nBitCount nStartHeight nCheckSpan location = .ok r)
    (nBestHeight : Int32) (proposal : CVoteProposal) :
    ∃ b, m.checkProposal hash nBestHeight proposal = .ok b := by
  obtain ⟨⟨found, location⟩, hfound⟩ := hlocation proposal.getBitCount.toUInt32.toInt32
    proposal.getStartHeight.toInt32 proposal.getCheckSpan.toInt32 {}
  rw [checkProposal, hfound]
  simp only [bind, Except.bind, pure, Except.pure]
  split_ifs <;> exact ⟨_, rfl⟩

/-- Every stored proposal shares a block with some period. -/
lemma sharesBlock_own_period (data : CProposalMetaData) :
    data.sharesBlock data.nHeightEnd.toInt32
      (data.nHeightStart.toInt32 - data.nHeightEnd.toInt32) = true := by
  have hend : data.nHeightEnd.toInt32 + (data.nHeightStart.toInt32 - data.nHeightEnd.toInt32)
      = data.nHeightStart.toInt32 := by grind
  simp [CProposalMetaData.sharesBlock, hend]

/-- The lookups of a manager stay in range exactly when no stored proposal has a bit above position
27. -/
lemma lookupsInRange_iff :
    m.LookupsInRange hash ↔ ∀ (h : UInt256) (data : CProposalMetaData),
      m.mapProposalData[h]? = some data → ∀ i ∈ data.booking.slots.points, i < 28 := by
  constructor
  · intro hrange h data hget
    have hok := hrange.location 0 data.nHeightEnd.toInt32
      (data.nHeightStart.toInt32 - data.nHeightEnd.toInt32) {}
    exact exists_getNextLocation_eq_ok_iff.mp hok h data hget (sharesBlock_own_period data)
  · intro hbits
    have hlocation : ∀ nBitCount nStartHeight nCheckSpan location,
        ∃ r, m.getNextLocation nBitCount nStartHeight nCheckSpan location = .ok r := by
      intro nBitCount nStartHeight nCheckSpan location
      exact exists_getNextLocation_eq_ok_iff.mpr fun h data hget _ => hbits h data hget
    exact ⟨hlocation, exists_checkProposal_eq_ok hlocation⟩

/-- In every run whose `Add` calls are on proposals without a bit above position 27, the lookups
stay in range. -/
theorem lookupsInRange_of_reaches {hash : Bytes → UInt256} {m : CVoteProposalManager}
    (hm : Reaches hash (fun proposal => proposal.bitLocation.nMostSignificantBit ≤ 27 ∨
      proposal.bitLocation.nMostSignificantBit < proposal.bitLocation.nLeastSignificantBit) m) :
    m.LookupsInRange hash := by
  refine lookupsInRange_iff.mpr fun h data hget i hi => ?_
  obtain ⟨proposal, hfits, rfl⟩ := hm.stored hget
  obtain ⟨hlo, hhi⟩ := hi
  simp only [CProposalMetaData.booking, CProposalMetaData.ofProposal, CVoteProposal.getLocation,
    VoteLocation.window] at hlo hhi
  rcases hfits with hle | hlt
  · rw [UInt8.le_iff_toNat_le] at hle
    have h27 : (27 : UInt8).toNat = 27 := rfl
    omega
  · rw [UInt8.lt_iff_toNat_lt] at hlt
    omega

/-- A proposal with a given location that is voted on from block 100 to block 110. -/
def proposalAt (nMostSignificantBit nLeastSignificantBit : UInt8) : CVoteProposal :=
  { strName := [0x61], nStartHeight := 100, nCheckSpan := 10, strDescription := [0x62]
    bitLocation := { nMostSignificantBit, nLeastSignificantBit } }

/-- One call of `Add` on a proposal that occupies the two top bits of the votes. -/
theorem lookupsInRange_proposalAt :
    ((add sampleHash (proposalAt 27 26) empty).2).LookupsInRange sampleHash :=
  lookupsInRange_of_reaches (.add _ (by decide) .empty)

/-- Under every hash function, a run that adds a proposal with a bit at position 28 leads to a
manager whose lookups go out of range. -/
theorem not_lookupsInRange_of_reaches :
    ¬ ∃ hash, ∀ m, Reaches hash (fun _ => True) m → m.LookupsInRange hash := by
  rintro ⟨hash, hrange⟩
  have hm : Reaches hash (fun _ => True) (add hash (proposalAt 28 27) empty).2 :=
    .add _ trivial .empty
  have hget : (add hash (proposalAt 28 27) empty).2.mapProposalData[
      (proposalAt 28 27).getHash hash]? =
        some (CProposalMetaData.ofProposal hash (proposalAt 28 27)) := by
    have hclear : (add hash (proposalAt 28 27) empty).1 = true :=
      add_fst_iff.mpr fun h data hdata => by simp [empty] at hdata
    rw [getElem?_add, hclear]
    simp [empty]
  have hpoint : 28 ∈ (CProposalMetaData.ofProposal hash (proposalAt 28 27)).booking.slots.points :=
    ⟨Nat.le_succ 27, Nat.le_refl 28⟩
  have hbit := lookupsInRange_iff.mp (hrange _ hm) _ _ hget 28 hpoint
  omega

/-! ## Agreement of the two decisions -/

end CVoteProposalManager

end HyperStake
