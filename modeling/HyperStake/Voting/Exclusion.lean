import HyperStake.Voting.Admission
import HyperStake.Voting.Tally

/-!
# No bit is counted for two proposals

The manager is a plan of bookings, so at a height inside both periods two proposals have disjoint
windows (`Booking.Plan.disjoint_uses`).  What is left is to go from `GetActive` to the periods and
from `ProcessNewVotes` to the windows.

The first step fails for a period that wraps around: `Add` compares its ends as unsigned numbers,
and sees an empty period, while `GetActive` compares them as signed ones, and sees a period that may
reach from the lowest height to the end.  The second step fails for a location that cannot be read.
-/

namespace HyperStake

open Booking

/-- The positions of the version that the vote at a location depends on. -/
def VoteLocation.bitsRead (l : VoteLocation) : Set ℕ :=
  BitField.influencing fun nVersion : BitVec 32 => extractVote (UInt32.ofBitVec nVersion) l

/-- The vote at a readable location depends on no bits but those of its window. -/
lemma VoteLocation.bitsRead_subset {l : VoteLocation} (h : l.Readable) :
    l.bitsRead ⊆ l.window.points := by
  refine BitField.influencing_subset fun x y hxy => ?_
  rw [extractVote_eq h, extractVote_eq h]
  have hwidth : l.width ≤ 32 := by
    obtain ⟨-, -, hwidth⟩ := h
    rw [width]
    omega
  have hfield : l.voteField x = l.voteField y := by
    refine BitField.read_congr hwidth fun i hlo hhi => ?_
    have hpoint : i ∈ l.window.points := by
      rw [width] at hhi
      exact ⟨hlo, by simp only [window]; omega⟩
    rw [BitVec.getLsbD_and, BitVec.getLsbD_and, hxy i hpoint]
  exact congrArg (fun v => Except.ok (Int32.ofBitVec v)) hfield

namespace CProposalMetaData

/-- If there are heights at which the proposal is active, then its period does not wrap around, and
votes can be read at its location. -/
def SoundlyActive (data : CProposalMetaData) : Prop :=
  data.nHeightStart.toInt32 ≤ data.nHeightEnd.toInt32 →
    data.nHeightStart ≤ data.nHeightEnd ∧ data.location.Readable

instance (data : CProposalMetaData) : Decidable data.SoundlyActive :=
  inferInstanceAs (Decidable (_ → _))

variable {data : CProposalMetaData} {nHeight : Int32}

lemma isActive_iff :
    data.isActive nHeight = true ↔
      data.nHeightStart.toInt32 ≤ nHeight ∧ nHeight ≤ data.nHeightEnd.toInt32 := by
  simp [isActive]

/-- At a height between the signed ends of a period that does not wrap around, the height is also
between the unsigned ends. -/
lemma mem_period_of_isActive (hperiod : data.nHeightStart ≤ data.nHeightEnd)
    (hactive : data.isActive nHeight = true) :
    nHeight.toUInt32.toNat ∈ data.booking.period.points := by
  obtain ⟨hstart, hend⟩ := isActive_iff.mp hactive
  rw [Int32.le_iff_toInt_le] at hstart hend
  rw [UInt32.le_iff_toNat_le] at hperiod
  have hheight : nHeight.toInt = nHeight.toUInt32.toInt32.toInt := rfl
  rw [hheight] at hstart hend
  rw [toInt_toInt32, toInt_toInt32] at hstart hend
  simp only [booking, Interval.points, Set.mem_Icc]
  have h1 := data.nHeightStart.toNat_lt
  have h2 := data.nHeightEnd.toNat_lt
  have h3 := nHeight.toUInt32.toNat_lt
  split_ifs at hstart hend <;> omega

/-- A soundly active proposal reads bits that it has booked for the height. -/
lemma SoundlyActive.bitsRead_subset (h : data.SoundlyActive)
    (hactive : data.isActive nHeight = true) :
    data.location.Readable ∧
      data.location.bitsRead ⊆ data.booking.uses nHeight.toUInt32.toNat := by
  obtain ⟨hstart, hend⟩ := isActive_iff.mp hactive
  obtain ⟨hperiod, hreadable⟩ := h (Int32.le_trans hstart hend)
  refine ⟨hreadable, fun i hi => ?_⟩
  exact ⟨VoteLocation.bitsRead_subset hreadable hi, mem_period_of_isActive hperiod hactive⟩

end CProposalMetaData

namespace CVoteProposalManager

/-- At a height, every active proposal has a location at which votes can be read, and no bit of the
version is read for two of them. -/
structure ReadsDisjointBits (m : CVoteProposalManager) (nHeight : Int32) : Prop where
  defined : ∀ {h : UInt256} {l : VoteLocation}, (m.getActive nHeight)[h]? = some l →
    ∀ nVersion, ∃ nVote, extractVote nVersion l = .ok nVote
  disjoint : ∀ {h h' : UInt256} {l l' : VoteLocation}, h ≠ h' →
    (m.getActive nHeight)[h]? = some l → (m.getActive nHeight)[h']? = some l' →
    Disjoint l.bitsRead l'.bitsRead

/-- A manager whose proposals are all soundly active reads disjoint bits at every height. -/
lemma readsDisjointBits_of_soundlyActive {m : CVoteProposalManager}
    (hsound : ∀ (h : UInt256) (data : CProposalMetaData), m.mapProposalData[h]? = some data →
      data.SoundlyActive) (nHeight : Int32) :
    m.ReadsDisjointBits nHeight := by
  constructor
  · intro h l hl nVersion
    obtain ⟨data, hdata, hactive, rfl⟩ := getElem?_getActive.mp hl
    obtain ⟨hreadable, -⟩ := (hsound h data hdata).bitsRead_subset hactive
    exact ⟨_, VoteLocation.extractVote_eq hreadable nVersion⟩
  · intro h h' l l' hne hl hl'
    obtain ⟨data, hdata, hactive, rfl⟩ := getElem?_getActive.mp hl
    obtain ⟨data', hdata', hactive', rfl⟩ := getElem?_getActive.mp hl'
    obtain ⟨-, hsub⟩ := (hsound h data hdata).bitsRead_subset hactive
    obtain ⟨-, hsub'⟩ := (hsound h' data' hdata').bitsRead_subset hactive'
    have huses : Disjoint (data.booking.uses nHeight.toUInt32.toNat)
        (data'.booking.uses nHeight.toUInt32.toNat) :=
      m.plan.disjoint_uses hne (Option.map_eq_some_iff.mpr ⟨data, hdata, rfl⟩)
        (Option.map_eq_some_iff.mpr ⟨data', hdata', rfl⟩) _
    exact huses.mono hsub hsub'

/-- In every run whose `Add` calls are on proposals that are soundly active, no bit of the version
is counted for two proposals at any height. -/
theorem readsDisjointBits_of_reaches {hash : Bytes → UInt256} {m : CVoteProposalManager}
    (hm : Reaches hash
      (fun proposal => (CProposalMetaData.ofProposal hash proposal).SoundlyActive) m)
    (nHeight : Int32) : m.ReadsDisjointBits nHeight := by
  refine readsDisjointBits_of_soundlyActive (fun h data hget => ?_) nHeight
  obtain ⟨proposal, hsound, rfl⟩ := hm.stored hget
  exact hsound

/-- Two proposals for different bits at the same heights. -/
theorem readsDisjointBits_proposalAt :
    (add sampleHash (proposalAt 25 24)
      (add sampleHash (proposalAt 27 26) empty).2).2.ReadsDisjointBits 105 :=
  readsDisjointBits_of_reaches (.add _ (by decide) (.add _ (by decide) .empty)) 105

/-- A proposal for the two top bits whose period wraps around: it is active at all heights from the
lowest one to 200. -/
def proposalWrapped : CVoteProposal :=
  { proposalAt 27 26 with
    strName := [0x63], nStartHeight := 0x80000000, nCheckSpan := 0x800000c8 }

/-- After a proposal whose period wraps around, a second proposal for the same bits is accepted, and
both are active at height 105. -/
theorem not_readsDisjointBits_proposalWrapped :
    ¬ ∀ m : CVoteProposalManager, Reaches sampleHash (fun _ => True) m →
      ∀ nHeight, m.ReadsDisjointBits nHeight := by
  intro hreads
  have hdisjoint := @(hreads _ (.add (proposalAt 27 26) trivial
    (.add proposalWrapped trivial .empty)) 105).disjoint ((proposalAt 27 26).getHash sampleHash)
      (proposalWrapped.getHash sampleHash) ⟨27, 26⟩ ⟨27, 26⟩ (by decide) (by decide) (by decide)
  have hbit : 27 ∈ (⟨27, 26⟩ : VoteLocation).bitsRead := ⟨0, by decide⟩
  exact Set.disjoint_left.mp hdisjoint hbit hbit

end CVoteProposalManager

end HyperStake
