import HyperStake.Library.CheckedVector
import HyperStake.Library.MapLoop
import HyperStake.Voting.Proposal

/-!
# The proposal manager

`CVoteProposalManager` keeps a record of every proposal that has been scheduled: the bits it
occupies and the blocks it occupies them for.  `Add` turns away a proposal whose bits and blocks
both meet those of a stored one, so the manager is a plan of bookings of bits by block heights.

`GetActive` compares heights as signed numbers while `Add` compares them as unsigned ones, and
neither of them asks whether the ends of a window or of a period are in order.
-/

namespace HyperStake

open Booking

/-- What the manager keeps of a proposal. -/
structure CProposalMetaData where
  hash : UInt256
  location : VoteLocation
  nHeightStart : UInt32
  nHeightEnd : UInt32
  deriving DecidableEq, Repr

namespace CProposalMetaData

/-- A stored proposal as a booking of bits for a period of blocks. -/
def booking (data : CProposalMetaData) : Booking ℕ ℕ where
  slots := data.location.window
  period := ⟨data.nHeightStart.toNat, data.nHeightEnd.toNat⟩

/-- The metadata that `Add` makes of a proposal. -/
def ofProposal (hash : Bytes → UInt256) (proposal : CVoteProposal) : CProposalMetaData where
  hash := proposal.getHash hash
  location := proposal.getLocation
  nHeightStart := proposal.getStartHeight
  nHeightEnd := proposal.getStartHeight + proposal.getCheckSpan

/-- The three tests of `Add` under which a new proposal is clear of an existing one. -/
def clearOf (newProposal existingProposal : CProposalMetaData) : Bool :=
  newProposal.location.nMostSignificantBit < existingProposal.location.nLeastSignificantBit ||
  newProposal.location.nLeastSignificantBit > existingProposal.location.nMostSignificantBit ||
  (newProposal.nHeightStart > existingProposal.nHeightEnd ||
    newProposal.nHeightEnd < existingProposal.nHeightStart)

/-- The tests of `Add` look for a conflict of bookings. -/
lemma clearOf_iff (newProposal existingProposal : CProposalMetaData) :
    newProposal.clearOf existingProposal = true ↔
      ¬ newProposal.booking.Conflicts existingProposal.booking := by
  simp only [clearOf, booking, VoteLocation.window, Conflicts, Interval.Meets, Bool.or_eq_true,
    decide_eq_true_eq, UInt8.lt_iff_toNat_lt, UInt32.lt_iff_toNat_lt, gt_iff_lt]
  omega

/-- The test of `GetActive`, on signed heights. -/
def isActive (data : CProposalMetaData) (nHeight : Int32) : Bool :=
  data.nHeightStart.toInt32 ≤ nHeight && data.nHeightEnd.toInt32 ≥ nHeight

/-- The test of `GetNextLocation` for the proposals that share a block with a period. -/
def sharesBlock (data : CProposalMetaData) (nStartHeight nCheckSpan : Int32) : Bool :=
  !(data.nHeightEnd.toInt32 < nStartHeight) &&
    !(data.nHeightStart.toInt32 > nStartHeight + nCheckSpan)

/-- The indices that `GetNextLocation` marks as taken, from the most significant bit down. -/
def takenBits (data : CProposalMetaData) : List ℕ :=
  (List.range' data.location.nLeastSignificantBit.toNat
    (data.location.nMostSignificantBit.toNat + 1
      - data.location.nLeastSignificantBit.toNat)).reverse

lemma mem_takenBits {data : CProposalMetaData} {i : ℕ} :
    i ∈ data.takenBits ↔ i ∈ data.booking.slots.points := by
  simp only [takenBits, List.mem_reverse, List.mem_range'_1, booking, VoteLocation.window,
    Interval.points, Set.mem_Icc]
  omega

end CProposalMetaData

/-- The manager.  No two stored proposals conflict. -/
structure CVoteProposalManager where
  mapProposalData : Std.ExtTreeMap UInt256 CProposalMetaData := ∅
  /-- Every proposal is stored under its hash. -/
  hash_eq : ∀ {h : UInt256} {data : CProposalMetaData}, mapProposalData[h]? = some data →
    data.hash = h := by simp
  /-- No two proposals conflict. -/
  compatible : ∀ {h h' : UInt256} {data data' : CProposalMetaData}, h ≠ h' →
    mapProposalData[h]? = some data → mapProposalData[h']? = some data' →
    ¬ data.booking.Conflicts data'.booking := by simp

namespace CVoteProposalManager

/-- The manager at the start of the program. -/
def empty : CVoteProposalManager := {}

/-- The stored proposals, in the order in which a loop over the map visits them. -/
def values (m : CVoteProposalManager) : List CProposalMetaData :=
  m.mapProposalData.toList.map Prod.snd

variable {m : CVoteProposalManager} {hash : Bytes → UInt256} {proposal : CVoteProposal}
  {h : UInt256} {data : CProposalMetaData}

lemma mem_values : data ∈ m.values ↔ ∃ h : UInt256, m.mapProposalData[h]? = some data := by
  simp [values, Std.ExtTreeMap.mem_toList_iff_getElem?_eq_some]

/-- The loop of `Add`: the new proposal is clear of every existing one. -/
def isClear (m : CVoteProposalManager) (newProposal : CProposalMetaData) : Bool :=
  m.values.all newProposal.clearOf

/-- The loop of `Add` looks for a conflict with a stored proposal. -/
lemma isClear_iff {newProposal : CProposalMetaData} :
    m.isClear newProposal = true ↔
      ∀ (h : UInt256) (data : CProposalMetaData), m.mapProposalData[h]? = some data →
        ¬ newProposal.booking.Conflicts data.booking := by
  simp only [isClear, List.all_eq_true, mem_values, CProposalMetaData.clearOf_iff,
    forall_exists_index]
  exact forall_comm

/-- `Add`: store a proposal, which must not have conflicts in its scheduling.  Returns whether there
was none, and the manager. -/
def add (hash : Bytes → UInt256) (proposal : CVoteProposal) (m : CVoteProposalManager) :
    Bool × CVoteProposalManager :=
  let newProposal := CProposalMetaData.ofProposal hash proposal
  if hclear : m.isClear newProposal then
    (true,
      { mapProposalData := m.mapProposalData.insertIfNew newProposal.hash newProposal
        hash_eq := by
          intro h data hget
          rw [Std.ExtTreeMap.getElem?_insertIfNew] at hget
          split_ifs at hget with hnew
          · rw [← Option.some.inj hget]
            exact Std.LawfulEqCmp.eq_of_compare hnew.1
          · exact m.hash_eq hget
        compatible := by
          have hfree := isClear_iff.mp hclear
          intro h h' data data' hne hget hget'
          rw [Std.ExtTreeMap.getElem?_insertIfNew] at hget hget'
          split_ifs at hget with hnew <;> split_ifs at hget' with hnew'
          · have heq := Std.LawfulEqCmp.eq_of_compare hnew.1
            have heq' := Std.LawfulEqCmp.eq_of_compare hnew'.1
            exact absurd (heq.symm.trans heq') hne
          · rw [← Option.some.inj hget]
            exact hfree h' data' hget'
          · rw [← Option.some.inj hget']
            exact fun hc => hfree h data hget hc.symm
          · exact m.compatible hne hget hget' })
  else (false, m)

def remove (hashProposal : UInt256) (m : CVoteProposalManager) : CVoteProposalManager where
  mapProposalData := m.mapProposalData.erase hashProposal
  hash_eq := by
    intro h data hget
    rw [Std.ExtTreeMap.getElem?_erase] at hget
    split_ifs at hget
    exact m.hash_eq hget
  compatible := by
    intro h h' data data' hne hget hget'
    rw [Std.ExtTreeMap.getElem?_erase] at hget hget'
    split_ifs at hget
    split_ifs at hget'
    exact m.compatible hne hget hget'

/-- `GetActive`: the locations of the proposals that are voted on at a height. -/
def getActive (m : CVoteProposalManager) (nHeight : Int32) :
    Std.ExtTreeMap UInt256 VoteLocation :=
  (m.values.filter fun data => data.isActive nHeight).foldl
    (fun mapActive data => mapActive.insertIfNew data.hash data.location) ∅

def getAllProposals (m : CVoteProposalManager) : Std.ExtTreeMap UInt256 CProposalMetaData :=
  m.mapProposalData

/-- The search of `GetNextLocation` for a run of free spots, over the positions below the given
one: the location at which a run of `nBitCount` spots ends. -/
def findLocation (vAvailable : List Bool) (nBitCount : Int32) :
    ℕ → Int32 → Except Fault (Option VoteLocation)
  | 0, _ => .ok none
  | i + 1, nSequential => do
    let n := UInt8.ofNat i
    let nSequential' := if ← CheckedVector.get .outOfRange vAvailable n.toNat then nSequential + 1
      else 0
    if nSequential' == nBitCount then
      return some
        { nMostSignificantBit := (n.toUInt32.toInt32 + nBitCount - 1).toUInt32.toUInt8
          nLeastSignificantBit := n }
    findLocation vAvailable nBitCount i nSequential'

/-- `GetNextLocation`: a location of a number of bits that is free in a period, the left most one.
Returns whether there is one, and the location as it is left. -/
def getNextLocation (m : CVoteProposalManager) (nBitCount nStartHeight nCheckSpan : Int32)
    (location : VoteLocation) : Except Fault (Bool × VoteLocation) :=
  let vConflictingTime :=
    m.values.filter fun data => data.sharesBlock nStartHeight nCheckSpan
  if vConflictingTime.isEmpty then
    .ok (true,
      { nMostSignificantBit := 27
        nLeastSignificantBit := (27 - nBitCount + 1).toUInt32.toUInt8 })
  else do
    let vAvailable ← vConflictingTime.foldlM
      (fun vAvailable data => CheckedVector.setAll .outOfRange false vAvailable data.takenBits)
      (List.replicate 28 true)
    match ← findLocation vAvailable nBitCount 28 0 with
    | some location' => return (true, location')
    | none => return (false, location)

/-- `CheckProposal`: whether a proposal may enter the memory pool at a best height. -/
def checkProposal (hash : Bytes → UInt256) (nBestHeight : Int32) (proposal : CVoteProposal)
    (m : CVoteProposalManager) : Except Fault Bool := do
  if m.mapProposalData.contains (proposal.getHash hash) then return true
  if proposal.strName.isEmpty || decide (proposal.strName.length > MAX_CHAR_NAME) then return false
  if proposal.strDescription.isEmpty ||
      decide (proposal.strDescription.length > MAX_CHAR_ABSTRACT) then
    return false
  if proposal.getStartHeight ≤ nBestHeight.toUInt32 ||
      proposal.getStartHeight > (nBestHeight + MAX_BLOCKS_IN_FUTURE).toUInt32 then
    return false
  if proposal.getCheckSpan == 0 || proposal.getCheckSpan > MAX_CHECKSPAN then return false
  let (found, _) ← m.getNextLocation proposal.getBitCount.toUInt32.toInt32
    proposal.getStartHeight.toInt32 proposal.getCheckSpan.toInt32 {}
  return found

/-! ## What the operations do -/

lemma add_fst (hash : Bytes → UInt256) (proposal : CVoteProposal) (m : CVoteProposalManager) :
    (m.add hash proposal).1 = m.isClear (CProposalMetaData.ofProposal hash proposal) := by
  rw [add]
  split <;> simp_all

/-- `Add` accepts a proposal exactly when it conflicts with no stored one. -/
lemma add_fst_iff :
    (m.add hash proposal).1 = true ↔
      ∀ (h : UInt256) (data : CProposalMetaData), m.mapProposalData[h]? = some data →
        ¬ (CProposalMetaData.ofProposal hash proposal).booking.Conflicts data.booking := by
  rw [add_fst, isClear_iff]

/-- A proposal that is turned away leaves the manager as it was. -/
lemma add_of_rejected (h : (m.add hash proposal).1 = false) : (m.add hash proposal).2 = m := by
  rw [add] at h ⊢
  split <;> simp_all

/-- What is stored after `Add`: the old proposals, and the new one if it was accepted and its hash
was not in use. -/
lemma getElem?_add (hash : Bytes → UInt256) (proposal : CVoteProposal) (m : CVoteProposalManager)
    (h : UInt256) :
    (m.add hash proposal).2.mapProposalData[h]? =
      if (m.add hash proposal).1 = true ∧ h = proposal.getHash hash ∧
          m.mapProposalData[h]? = none then
        some (CProposalMetaData.ofProposal hash proposal)
      else m.mapProposalData[h]? := by
  rw [add]
  split
  · simp only [Std.ExtTreeMap.getElem?_insertIfNew, true_and]
    have hkey : (CProposalMetaData.ofProposal hash proposal).hash = proposal.getHash hash := rfl
    by_cases heq : h = proposal.getHash hash
    · subst heq
      simp [hkey]
    · have hne : proposal.getHash hash ≠ h := Ne.symm heq
      simp [hkey, heq, hne]
  · simp

/-- A proposal that is stored after `Add` was stored before, or is the new one. -/
lemma getElem?_add_cases (hget : (m.add hash proposal).2.mapProposalData[h]? = some data) :
    m.mapProposalData[h]? = some data ∨
      (m.add hash proposal).1 = true ∧ data = CProposalMetaData.ofProposal hash proposal := by
  rw [getElem?_add] at hget
  split_ifs at hget with hnew
  · exact Or.inr ⟨hnew.1, (Option.some.inj hget).symm⟩
  · exact Or.inl hget

/-- What is stored after `Remove`. -/
lemma getElem?_remove (hashProposal : UInt256) (m : CVoteProposalManager) (h : UInt256) :
    (m.remove hashProposal).mapProposalData[h]? =
      if h = hashProposal then none else m.mapProposalData[h]? := by
  rw [remove]
  simp only [Std.ExtTreeMap.getElem?_erase]
  by_cases heq : h = hashProposal
  · simp [heq]
  · have hne : hashProposal ≠ h := Ne.symm heq
    simp [heq, hne]

variable {nHeight : Int32}

/-- The proposals that `GetActive` returns. -/
lemma getElem?_getActive {location : VoteLocation} :
    (m.getActive nHeight)[h]? = some location ↔ ∃ data : CProposalMetaData,
      m.mapProposalData[h]? = some data ∧ data.isActive nHeight = true ∧
        data.location = location := by
  have hnodup : ((m.values.filter fun data => data.isActive nHeight).map
      CProposalMetaData.hash).Nodup := by
    have hkeys : m.values.map CProposalMetaData.hash = m.mapProposalData.keys := by
      rw [values, List.map_map, ← Std.ExtTreeMap.map_fst_toList_eq_keys]
      refine List.map_congr_left fun it hit => ?_
      exact m.hash_eq (Std.ExtTreeMap.mem_toList_iff_getElem?_eq_some.mp hit)
    exact ((hkeys ▸ Std.ExtTreeMap.nodup_keys :
      (m.values.map CProposalMetaData.hash).Nodup)).sublist
        (List.Sublist.map _ List.filter_sublist)
  rw [getActive, MapLoop.getElem?_foldl_insertIfNew hnodup (by simp)]
  constructor
  · rintro (hempty | ⟨data, hdata, rfl, rfl⟩)
    · simp at hempty
    · obtain ⟨hmem, hactive⟩ := List.mem_filter.mp hdata
      obtain ⟨h', hget⟩ := mem_values.mp hmem
      exact ⟨data, by rwa [m.hash_eq hget], hactive, rfl⟩
  · rintro ⟨data, hget, hactive, rfl⟩
    have hmem : data ∈ m.values.filter fun data => data.isActive nHeight :=
      List.mem_filter.mpr ⟨mem_values.mpr ⟨h, hget⟩, hactive⟩
    exact Or.inr ⟨data, hmem, m.hash_eq hget, rfl⟩

lemma getElem?_getActive_eq :
    (m.getActive nHeight)[h]? = m.mapProposalData[h]?.bind fun data =>
      if data.isActive nHeight then some data.location else none := by
  ext location
  simp [getElem?_getActive, Option.bind_eq_some_iff]

/-- The hashes of the proposals that `GetActive` returns. -/
lemma mem_getActive_iff :
    h ∈ m.getActive nHeight ↔ ∃ data : CProposalMetaData,
      m.mapProposalData[h]? = some data ∧ data.isActive nHeight = true := by
  rw [MapLoop.mem_iff]
  simp only [getElem?_getActive]
  constructor
  · rintro ⟨location, data, hget, hactive, -⟩
    exact ⟨data, hget, hactive⟩
  · rintro ⟨data, hget, hactive⟩
    exact ⟨data.location, data, hget, hactive, rfl⟩

/-! ## The manager as a plan -/

/-- The plan of bookings that the manager keeps. -/
def plan (m : CVoteProposalManager) : Plan UInt256 ℕ ℕ where
  entry h := m.mapProposalData[h]?.map CProposalMetaData.booking
  compatible := by
    intro h h' a b hne ha hb
    obtain ⟨data, hdata, rfl⟩ := Option.map_eq_some_iff.mp ha
    obtain ⟨data', hdata', rfl⟩ := Option.map_eq_some_iff.mp hb
    exact m.compatible hne hdata hdata'

end CVoteProposalManager

end HyperStake
