import HyperStake.Library.HighestRun
import HyperStake.Voting.Admission
import HyperStake.Voting.Tally

/-!
# Finding a free location

`GetNextLocation` marks the bits of the stored proposals that share a block with a period and takes
the highest run of free bits of the width that is asked for.  If no stored proposal shares a block
with the period, it returns the highest bits at once, without a look at their number.

The heights are compared as signed numbers there, and as unsigned ones in `Add`.  So the location is
the one that a reader of `Add` would look for exactly if there are enough bits and if every window
that only one of the two comparisons finds free is below one that both find free
(`locatesHighest_iff`).
-/

namespace HyperStake

open Booking HighestRun

namespace CVoteProposalManager

variable {m : CVoteProposalManager} {nBitCount : Int32} {n : ℕ}

/-! ## The search -/

/-- The location that starts at a position and has a number of bits, as `GetNextLocation` sets
it. -/
def locationAt (nBitCount : Int32) (l : ℕ) : VoteLocation where
  nMostSignificantBit :=
    ((UInt8.ofNat l).toUInt32.toInt32 + nBitCount - 1).toUInt32.toUInt8
  nLeastSignificantBit := UInt8.ofNat l

/-- The search for a location is a search for the highest run of available spots. -/
lemma findLocation_eq (hn : nBitCount.toInt = n) {vAvailable : List Bool} {i k : ℕ}
    (hlen : i ≤ vAvailable.length) (hsize : i + k ≤ 28) {nSequential : Int32}
    (hk : nSequential.toInt = k) :
    findLocation vAvailable nBitCount i nSequential =
      .ok ((highestRun (fun j => vAvailable.getD j false) n i k).map (locationAt nBitCount)) := by
  induction i generalizing k nSequential with
  | zero => rfl
  | succ i ih =>
    have hnat : (UInt8.ofNat i).toNat = i := by
      rw [UInt8.toNat_ofNat']
      omega
    have hlt : (UInt8.ofNat i).toNat < vAvailable.length := by omega
    have hspot : vAvailable[(UInt8.ofNat i).toNat] = vAvailable.getD i false := by
      rw [List.getD_eq_getElem?_getD,
        List.getElem?_eq_getElem (show i < vAvailable.length by omega), Option.getD_some]
      simp only [hnat]
    have hsucc : (nSequential + 1).toInt = (k + 1 : ℕ) := by
      rw [Int32.toInt_add, hk, Int32.toInt_one]
      exact Int.bmod_eq_of_le (by omega) (by omega)
    have hfull : ∀ (nSequential' : Int32) (k' : ℕ), nSequential'.toInt = k' →
        ((nSequential' == nBitCount) = true ↔ k' = n) := by
      intro nSequential' k' hk'
      rw [beq_iff_eq, ← Int32.toInt_inj, hk', hn]
      exact Int.natCast_inj
    rw [findLocation, CheckedVector.get_of_lt hlt, hspot, highestRun]
    simp only [bind, Except.bind]
    cases vAvailable.getD i false with
    | true =>
      simp only [if_true, hfull _ _ hsucc]
      split_ifs with hrun
      · rfl
      · exact ih (by omega) (by omega) hsucc
    | false =>
      simp only [Bool.false_eq_true, if_false, hfull 0 0 rfl]
      split_ifs with hrun
      · rfl
      · exact ih (by omega) (by omega) rfl

/-- The lowest byte of a signed number that is one. -/
lemma toNat_toUInt8 {x : Int32} {b : ℕ} (hx : x.toInt = b) (hb : b < 256) :
    x.toUInt32.toUInt8.toNat = b := by
  have hbits : x.toInt = (x.toUInt32.toNat : ℤ).bmod (2 ^ 32) := by
    rw [← Int32.toInt_toBitVec, BitVec.toInt_eq_toNat_bmod]
    rfl
  have hlt := x.toUInt32.toNat_lt
  rw [UInt32.toNat_toUInt8]
  rw [hx, Int.bmod_def] at hbits
  split_ifs at hbits <;> omega

/-- The ends of a location whose bits are below the version bits. -/
lemma locationAt_toNat (hn : nBitCount.toInt = n) (hpos : 0 < n) {l : ℕ} (hl : l + n ≤ 28) :
    (locationAt nBitCount l).nLeastSignificantBit.toNat = l ∧
      (locationAt nBitCount l).nMostSignificantBit.toNat + 1 = l + n := by
  have hlsb : (UInt8.ofNat l).toNat = l := by
    rw [UInt8.toNat_ofNat']
    omega
  have hstart : (UInt8.ofNat l).toUInt32.toInt32.toInt = l := by
    rw [toInt_toInt32, UInt8.toNat_toUInt32, hlsb, if_pos (by omega)]
  have hend : ((UInt8.ofNat l).toUInt32.toInt32 + nBitCount - 1).toInt = (l + n - 1 : ℕ) := by
    rw [Int32.toInt_sub, Int32.toInt_add, Int.bmod_sub_bmod, hstart, hn, Int32.toInt_one]
    rw [Int.bmod_eq_of_le (by omega) (by omega)]
    omega
  refine ⟨hlsb, ?_⟩
  rw [locationAt, toNat_toUInt8 hend (by omega)]
  omega

/-! ## The free bits -/

/-- A bit that no stored proposal with a property has. -/
def FreeOf (m : CVoteProposalManager) (P : CProposalMetaData → Prop) (i : ℕ) : Prop :=
  ∀ (h : UInt256) (data : CProposalMetaData), m.mapProposalData[h]? = some data → P data →
    i ∉ data.booking.slots.points

/-- The windows of a number of vote bits that are free of the stored proposals with a property. -/
def freeWindows (m : CVoteProposalManager) (P : CProposalMetaData → Prop) (n : ℕ) : Set ℕ :=
  runs (m.FreeOf P) n 28

/-- The period of the stored proposal meets the one from a start height over a span. -/
def MeetsPeriod (nStartHeight nCheckSpan : UInt32) (data : CProposalMetaData) : Prop :=
  data.booking.period.Meets ⟨nStartHeight.toNat, nStartHeight.toNat + nCheckSpan.toNat⟩

/-- Every stored location is a range of vote bits. -/
def StoresInside (m : CVoteProposalManager) : Prop :=
  ∀ (h : UInt256) (data : CProposalMetaData), m.mapProposalData[h]? = some data →
    data.location.Inside

variable {nStartHeight nCheckSpan : Int32} {location : VoteLocation}

/-- A test by the loop of `GetNextLocation`, and the spots that it leaves available. -/
lemma setAll_takenBits (hinside : m.StoresInside) (nStartHeight nCheckSpan : Int32) :
    ∃ vAvailable : List Bool, vAvailable.length = 28 ∧
      (m.values.filter fun data => data.sharesBlock nStartHeight nCheckSpan).foldlM
        (fun vAvailable data => CheckedVector.setAll Fault.outOfRange false vAvailable
          data.takenBits) (List.replicate 28 true) = .ok vAvailable ∧
      ∀ i < 28, vAvailable.getD i false = true ↔
        m.FreeOf (fun data => data.sharesBlock nStartHeight nCheckSpan = true) i := by
  set vConflictingTime := m.values.filter fun data =>
    data.sharesBlock nStartHeight nCheckSpan with hconflict
  have hmem : ∀ i, i ∈ vConflictingTime.flatMap CProposalMetaData.takenBits ↔
      ∃ (h : UInt256) (data : CProposalMetaData), m.mapProposalData[h]? = some data ∧
        data.sharesBlock nStartHeight nCheckSpan = true ∧ i ∈ data.booking.slots.points := by
    intro i
    simp only [List.mem_flatMap, hconflict, List.mem_filter, mem_values,
      CProposalMetaData.mem_takenBits]
    grind
  have hrange : ∀ i ∈ vConflictingTime.flatMap CProposalMetaData.takenBits,
      i < (List.replicate 28 true).length := by
    intro i hi
    obtain ⟨h, data, hget, -, hpoint⟩ := (hmem i).mp hi
    have hle := (hinside h data hget).2
    have hhi : i ≤ data.location.nMostSignificantBit.toNat := hpoint.2
    rw [List.length_replicate]
    omega
  refine ⟨CheckedVector.setEach false (List.replicate 28 true)
    (vConflictingTime.flatMap CProposalMetaData.takenBits), by simp, ?_, fun i hi => ?_⟩
  · rw [CheckedVector.foldlM_setAll, CheckedVector.setAll_eq, if_pos hrange]
  · rw [List.getD_eq_getElem?_getD, CheckedVector.getElem?_setEach _ _ _ (by simpa using hi)]
    have hfree : i ∈ vConflictingTime.flatMap CProposalMetaData.takenBits ↔
        ¬ m.FreeOf (fun data => data.sharesBlock nStartHeight nCheckSpan = true) i := by
      rw [hmem, FreeOf]
      push Not
      rfl
    split_ifs with hin
    · exact iff_of_false (by simp) (hfree.mp hin)
    · refine iff_of_true ?_ (not_not.mp (hfree.not.mp hin))
      rw [List.getElem?_replicate, if_pos hi]
      rfl

/-- A result of `GetNextLocation` is the highest one of some windows, or there is none. -/
structure Locates (windows : Set ℕ) (n : ℕ) (r : Bool × VoteLocation) : Prop where
  found : r.1 = true ↔ windows.Nonempty
  highest : r.1 = true → IsGreatest windows r.2.nLeastSignificantBit.toNat
  width : r.1 = true →
    r.2.nMostSignificantBit.toNat + 1 = r.2.nLeastSignificantBit.toNat + n

/-- The result is the highest of two sets of windows exactly if they have the same highest one. -/
lemma Locates.iff_of_finite {windows windows' : Set ℕ} {r : Bool × VoteLocation}
    (h : Locates windows n r) (hfin : windows.Finite) (hfin' : windows'.Finite) :
    Locates windows' n r ↔ ∀ x, IsGreatest windows x ↔ IsGreatest windows' x := by
  have hexists : ∀ w : Set ℕ, w.Finite → (w.Nonempty ↔ ∃ x, IsGreatest w x) := by
    intro w hw
    constructor
    · intro hne
      obtain ⟨x, hx, hmax⟩ := Set.exists_max_image w id hw hne
      exact ⟨x, hx, hmax⟩
    · rintro ⟨x, hx⟩
      exact ⟨x, hx.1⟩
  constructor
  · intro h' x
    have hnonempty : windows.Nonempty ↔ windows'.Nonempty := h.found.symm.trans h'.found
    constructor
    · intro hx
      have htrue := h.found.mpr ⟨x, hx.1⟩
      rw [hx.unique (h.highest htrue)]
      exact h'.highest htrue
    · intro hx
      have htrue := h'.found.mpr ⟨x, hx.1⟩
      rw [hx.unique (h'.highest htrue)]
      exact h.highest htrue
  · intro hagree
    refine ⟨?_, fun htrue => (hagree _).mp (h.highest htrue), h.width⟩
    rw [h.found, hexists windows hfin, hexists windows' hfin']
    exact exists_congr hagree

/-- With a stored proposal that shares a block with the period, or with enough bits, the lookup
returns the highest window that is free of the proposals that share a block. -/
lemma exists_getNextLocation_locates (hinside : m.StoresInside) (hn : nBitCount.toInt = n)
    (hpos : 0 < n) (hwide : n ≤ 28 ∨ ∃ (h : UInt256) (data : CProposalMetaData),
      m.mapProposalData[h]? = some data ∧ data.sharesBlock nStartHeight nCheckSpan = true)
    (location : VoteLocation) :
    ∃ r, m.getNextLocation nBitCount nStartHeight nCheckSpan location = .ok r ∧
      Locates (m.freeWindows (fun data => data.sharesBlock nStartHeight nCheckSpan = true) n) n
        r := by
  obtain ⟨vAvailable, hlen, hloop, havailable⟩ :=
    setAll_takenBits hinside nStartHeight nCheckSpan
  have hwindows : m.freeWindows (fun data => data.sharesBlock nStartHeight nCheckSpan = true) n =
      runs (fun i => vAvailable.getD i false = true) n 28 :=
    runs_congr fun i hi => (havailable i hi).symm
  rw [hwindows]
  by_cases hempty : (m.values.filter fun data =>
      data.sharesBlock nStartHeight nCheckSpan).isEmpty = true
  · have hfits : n ≤ 28 := by
      rcases hwide with hfits | ⟨h, data, hget, hshares⟩
      · exact hfits
      · have hmem : data ∈ m.values.filter fun data =>
            data.sharesBlock nStartHeight nCheckSpan :=
          List.mem_filter.mpr ⟨mem_values.mpr ⟨h, hget⟩, hshares⟩
        rw [List.isEmpty_iff.mp hempty] at hmem
        cases hmem
    have hlsb : (27 - nBitCount + 1).toUInt32.toUInt8.toNat = 28 - n := by
      refine toNat_toUInt8 ?_ (by omega)
      rw [Int32.toInt_add, Int32.toInt_sub, Int.bmod_add_bmod, hn, Int32.toInt_one,
        show (27 : Int32).toInt = 27 from rfl, Int.bmod_eq_of_le (by omega) (by omega)]
      omega
    have hfree : ∀ i < 28, vAvailable.getD i false = true := by
      intro i hi
      refine (havailable i hi).mpr fun h data hget hshares _ => ?_
      have hmem : data ∈ m.values.filter fun data =>
          data.sharesBlock nStartHeight nCheckSpan :=
        List.mem_filter.mpr ⟨mem_values.mpr ⟨h, hget⟩, hshares⟩
      rw [List.isEmpty_iff.mp hempty] at hmem
      cases hmem
    have htop : IsGreatest (runs (fun i => vAvailable.getD i false = true) n 28) (28 - n) := by
      refine ⟨⟨by omega, fun i _ hi => hfree i (by omega)⟩, fun l hl => ?_⟩
      have hle := hl.1
      omega
    refine ⟨_, by rw [getNextLocation, if_pos hempty], iff_of_true rfl ⟨_, htop.1⟩, fun _ => ?_,
      fun _ => ?_⟩
    · dsimp only
      rw [hlsb]
      exact htop
    · dsimp only
      rw [hlsb, show (27 : UInt8).toNat = 27 from rfl]
      omega
  · have hsearch : findLocation vAvailable nBitCount 28 0 = .ok ((highestRun
        (fun j => vAvailable.getD j false) n 28 0).map (locationAt nBitCount)) :=
      findLocation_eq hn (by omega) (by omega) rfl
    have hresult : m.getNextLocation nBitCount nStartHeight nCheckSpan location =
        .ok (((highestRun (fun j => vAvailable.getD j false) n 28 0).map fun l =>
          (true, locationAt nBitCount l)).getD (false, location)) := by
      rw [getNextLocation, if_neg hempty, hloop]
      simp only [bind, Except.bind, hsearch]
      cases highestRun (fun j => vAvailable.getD j false) n 28 0 <;> rfl
    refine ⟨_, hresult, ?_⟩
    cases hrun : highestRun (fun j => vAvailable.getD j false) n 28 0 with
    | none =>
      have hnone := (highestRun_eq_none_iff hpos).mp hrun
      rw [hnone]
      exact ⟨iff_of_false Bool.false_ne_true Set.not_nonempty_empty,
        fun h => absurd h Bool.false_ne_true, fun h => absurd h Bool.false_ne_true⟩
    | some l =>
      have hgreatest := (highestRun_eq_some_iff hpos).mp hrun
      obtain ⟨hlsb, hmsb⟩ := locationAt_toNat hn hpos hgreatest.1.1
      refine ⟨iff_of_true rfl ⟨l, hgreatest.1⟩, fun _ => ?_, fun _ => ?_⟩
      · exact hlsb.symm ▸ hgreatest
      · exact hmsb.trans (congrArg (· + n) hlsb.symm)

/-- Without a stored proposal that shares a block with the period, the lookup succeeds for any
number of bits. -/
lemma getNextLocation_of_none (hnone : ∀ (h : UInt256) (data : CProposalMetaData),
      m.mapProposalData[h]? = some data → ¬ data.sharesBlock nStartHeight nCheckSpan = true)
    (location : VoteLocation) :
    ∃ location', m.getNextLocation nBitCount nStartHeight nCheckSpan location
      = .ok (true, location') := by
  have hempty : (m.values.filter fun data =>
      data.sharesBlock nStartHeight nCheckSpan).isEmpty = true := by
    rw [List.isEmpty_iff, List.filter_eq_nil_iff]
    intro data hdata
    obtain ⟨h, hget⟩ := mem_values.mp hdata
    exact hnone h data hget
  exact ⟨_, by rw [getNextLocation, if_pos hempty]⟩

/-! ## The lookup and `Add` -/

/-- A proposal whose location is a window that is free of the proposals whose period meets its own
is accepted by `Add`. -/
lemma add_of_freeWindow {hash : Bytes → UInt256} (hinside : m.StoresInside) (hpos : 0 < n)
    {proposal : CVoteProposal} {l : ℕ} (hfree : l ∈ m.freeWindows
      (MeetsPeriod proposal.nStartHeight proposal.nCheckSpan) n)
    (hlsb : proposal.bitLocation.nLeastSignificantBit.toNat = l)
    (hmsb : proposal.bitLocation.nMostSignificantBit.toNat + 1 = l + n) :
    (m.add hash proposal).1 = true := by
  refine add_fst_iff.mpr fun h data hget hconflict => ?_
  obtain ⟨hslots, hperiod⟩ := hconflict
  simp only [CProposalMetaData.booking, CProposalMetaData.ofProposal, CVoteProposal.getLocation,
    VoteLocation.window, Interval.Meets, CVoteProposal.getStartHeight,
    CVoteProposal.getCheckSpan] at hslots hperiod
  have hmeets : MeetsPeriod proposal.nStartHeight proposal.nCheckSpan data := by
    refine ⟨hperiod.2.trans ?_, hperiod.1⟩
    rw [UInt32.toNat_add]
    exact Nat.mod_le _ _
  obtain ⟨horder, -⟩ := hinside h data hget
  refine hfree.2 (max l data.location.nLeastSignificantBit.toNat) (le_max_left _ _) ?_ h data hget
    hmeets ⟨le_max_right _ _, ?_⟩
  · rw [max_lt_iff]
    omega
  · exact max_le (hlsb ▸ hslots.1) horder

/-- The windows that are free depend on the property of the stored proposals only. -/
lemma freeWindows_congr {P Q : CProposalMetaData → Prop}
    (h : ∀ (k : UInt256) (data : CProposalMetaData), m.mapProposalData[k]? = some data →
      (P data ↔ Q data)) : m.freeWindows P n = m.freeWindows Q n := by
  refine runs_congr fun i _ => forall_congr' fun k => forall_congr' fun data => ?_
  exact forall_congr' fun hget => imp_congr_left (h k data hget)

/-- For heights that are not negative as signed numbers the two comparisons agree. -/
lemma sharesBlock_iff_meetsPeriod {data : CProposalMetaData} {nStartHeight nCheckSpan : UInt32}
    (hend : nStartHeight.toNat + nCheckSpan.toNat < 2 ^ 31)
    (hdataStart : data.nHeightStart.toNat < 2 ^ 31) (hdataEnd : data.nHeightEnd.toNat < 2 ^ 31) :
    data.sharesBlock nStartHeight.toInt32 nCheckSpan.toInt32 = true ↔
      MeetsPeriod nStartHeight nCheckSpan data := by
  have hsigned : ∀ a : UInt32, a.toNat < 2 ^ 31 → a.toInt32.toInt = a.toNat := by
    intro a ha
    rw [toInt_toInt32, if_pos (by omega)]
  have hstart := hsigned nStartHeight (by omega)
  have hsum : (nStartHeight.toInt32 + nCheckSpan.toInt32).toInt
      = nStartHeight.toNat + nCheckSpan.toNat := by
    rw [Int32.toInt_add, hstart, hsigned nCheckSpan (by omega)]
    exact Int.bmod_eq_of_le (by omega) (by omega)
  simp only [CProposalMetaData.sharesBlock, MeetsPeriod, CProposalMetaData.booking, Interval.Meets,
    Bool.and_eq_true, Bool.not_eq_true', decide_eq_false_iff_not, Int32.lt_iff_toInt_lt, gt_iff_lt,
    hsum, hstart, hsigned _ hdataStart, hsigned _ hdataEnd]
  omega

/-- `GetNextLocation` returns the highest window of a number of vote bits that is free of every
stored proposal whose period meets the given one, if there is one, and `Add` accepts a proposal with
this location and this period. -/
def LocatesHighest (hash : Bytes → UInt256) (m : CVoteProposalManager) (nBitCount : Int32)
    (nStartHeight nCheckSpan : UInt32) : Prop :=
  ∀ location, ∃ r,
    m.getNextLocation nBitCount nStartHeight.toInt32 nCheckSpan.toInt32 location = .ok r ∧
    Locates (m.freeWindows (MeetsPeriod nStartHeight nCheckSpan) nBitCount.toInt.toNat)
      nBitCount.toInt.toNat r ∧
    (r.1 = true → ∀ proposal : CVoteProposal, proposal.bitLocation = r.2 →
      proposal.nStartHeight = nStartHeight → proposal.nCheckSpan = nCheckSpan →
        (m.add hash proposal).1 = true)

/-- The lookup does what a caller expects exactly if the bits that are asked for can be there or
some stored proposal shares a block with the period, and if every window that only one of the two
comparisons finds free, the signed one of the lookup and that of the periods, is below a window that
both find free. -/
theorem locatesHighest_iff {hash : Bytes → UInt256} (hinside : m.StoresInside)
    (hbits : 1 ≤ nBitCount.toInt) (nStartHeight nCheckSpan : UInt32) :
    m.LocatesHighest hash nBitCount nStartHeight nCheckSpan ↔
      (nBitCount.toInt ≤ 28 ∨ ∃ (h : UInt256) (data : CProposalMetaData),
        m.mapProposalData[h]? = some data ∧
          data.sharesBlock nStartHeight.toInt32 nCheckSpan.toInt32 = true) ∧
      ∀ l,
        ¬ (l ∈ m.freeWindows (fun data =>
              data.sharesBlock nStartHeight.toInt32 nCheckSpan.toInt32 = true)
              nBitCount.toInt.toNat ↔
            l ∈ m.freeWindows (MeetsPeriod nStartHeight nCheckSpan) nBitCount.toInt.toNat) →
        ∃ l' ∈ m.freeWindows (fun data =>
              data.sharesBlock nStartHeight.toInt32 nCheckSpan.toInt32 = true)
              nBitCount.toInt.toNat ∩
            m.freeWindows (MeetsPeriod nStartHeight nCheckSpan) nBitCount.toInt.toNat, l < l' := by
  obtain ⟨n, hn⟩ := Int.eq_ofNat_of_zero_le (show 0 ≤ nBitCount.toInt by omega)
  have hnat : nBitCount.toInt.toNat = n := by omega
  have hpos : 0 < n := by omega
  rw [LocatesHighest, hnat]
  have hfin : ∀ P, (m.freeWindows P n).Finite := fun P => finite_runs _ _ _
  rw [← isGreatest_iff_isGreatest (hfin _) (hfin _)]
  by_cases hwide : nBitCount.toInt ≤ 28 ∨ ∃ (h : UInt256) (data : CProposalMetaData),
      m.mapProposalData[h]? = some data ∧
        data.sharesBlock nStartHeight.toInt32 nCheckSpan.toInt32 = true
  · have hwide' := hwide.imp_left (fun h : nBitCount.toInt ≤ 28 => show n ≤ 28 by omega)
    have hlookup := exists_getNextLocation_locates hinside hn hpos hwide'
    constructor
    · intro h
      obtain ⟨r, hr, hlocates⟩ := hlookup {}
      obtain ⟨r', hr', hlocates', -⟩ := h {}
      cases hr.symm.trans hr'
      exact ⟨hwide, (hlocates.iff_of_finite (hfin _) (hfin _)).mp hlocates'⟩
    · rintro ⟨-, hagree⟩ location
      obtain ⟨r, hr, hlocates⟩ := hlookup location
      have hlocates' := (hlocates.iff_of_finite (hfin _) (hfin _)).mpr hagree
      refine ⟨r, hr, hlocates', fun htrue proposal hlocation hstart hspan => ?_⟩
      have hfree := (hlocates'.highest htrue).1
      rw [← hstart, ← hspan] at hfree
      rw [← hlocation] at hfree
      refine add_of_freeWindow hinside hpos hfree rfl ?_
      rw [hlocation]
      exact hlocates'.width htrue
  · refine iff_of_false (fun h => ?_) fun h => hwide h.1
    rw [not_or] at hwide
    obtain ⟨hmany, hnone⟩ := hwide
    push Not at hnone
    obtain ⟨location, hr⟩ := getNextLocation_of_none hnone {}
    obtain ⟨r, hr', hlocates, -⟩ := h {}
    cases hr.symm.trans hr'
    obtain ⟨l, hl⟩ := hlocates.found.mp rfl
    have hle := hl.1
    omega

/-- Two bits next to a stored proposal for some of the same blocks. -/
theorem locatesHighest_proposalAt :
    ((add sampleHash (proposalAt 27 26) empty).2).LocatesHighest sampleHash 2 105 10 := by
  have hstored : ∀ (h : UInt256) (data : CProposalMetaData),
      (add sampleHash (proposalAt 27 26) empty).2.mapProposalData[h]? = some data →
        data = CProposalMetaData.ofProposal sampleHash (proposalAt 27 26) := by
    intro h data hget
    rcases getElem?_add_cases hget with hold | ⟨-, hnew⟩
    · simp [empty] at hold
    · exact hnew
  have hinside : ((add sampleHash (proposalAt 27 26) empty).2).StoresInside := by
    intro h data hget
    rw [hstored h data hget]
    decide
  refine (locatesHighest_iff hinside (by decide) 105 10).mpr ⟨Or.inl (by decide), fun l hl => ?_⟩
  refine absurd (Set.ext_iff.mp (freeWindows_congr fun h data hget => ?_) l) hl
  rw [hstored h data hget]
  exact sharesBlock_iff_meetsPeriod (by decide) (by decide) (by decide)

/-- On a manager without proposals, a location of 29 bits is found. -/
theorem not_locatesHighest :
    StoresInside empty ∧ ¬ empty.LocatesHighest sampleHash 29 100 10 := by
  refine ⟨fun h data hget => by simp [empty] at hget, fun h => ?_⟩
  obtain ⟨r, hr, hlocates, -⟩ := h {}
  have hfound : empty.getNextLocation 29 (100 : UInt32).toInt32 (10 : UInt32).toInt32 {}
      = .ok (true, { nMostSignificantBit := 27, nLeastSignificantBit := 255 }) := by decide
  cases hr.symm.trans hfound
  obtain ⟨l, hl⟩ := hlocates.found.mp rfl
  have hle : l + 29 ≤ 28 := hl.1
  omega

end CVoteProposalManager

end HyperStake
