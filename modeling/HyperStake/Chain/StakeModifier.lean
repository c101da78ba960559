import Mathlib.Data.List.Sort
import HyperStake.Chain.CheckBlock

/-!
# The stake modifier

The modifier that the kernel of a stake is hashed with: `ComputeNextStakeModifier` collects it from
the entropy bits of 64 earlier blocks, which are selected by a hash of their proofs.  It is computed
when a block is added to the index, from the indices before it.

Of an index the computation reads the hash, the time, the flags, the proof and the modifier
(`CBlockIndex.SameStake`), and so does the checksum (`computeNextStakeModifier_congr`,
`getStakeModifierChecksum_congr`).  The indices before a block are a list, nearest first.
-/

namespace HyperStake

/-- The time to elapse before a new modifier is computed. -/
def MODIFIER_INTERVAL : UInt32 := 6 * 60 * 60

def MODIFIER_INTERVAL_TESTNET : UInt32 := 60

/-- The ratio of the group interval length between the last group and the first group. -/
def MODIFIER_INTERVAL_RATIO : UInt32 := 3

def getIntervalVersion (fTestNet : Bool) : UInt32 :=
  if fTestNet then MODIFIER_INTERVAL_TESTNET else MODIFIER_INTERVAL

namespace CBlockIndex

def getBlockTime (pindex : CBlockIndex) : Int64 := timeOf pindex.nTime

def getStakeEntropyBit (pindex : CBlockIndex) : UInt32 :=
  (pindex.nFlags &&& BLOCK_STAKE_ENTROPY) >>> 1

def generatedStakeModifier (pindex : CBlockIndex) : Bool :=
  pindex.nFlags &&& BLOCK_STAKE_MODIFIER != 0

end CBlockIndex

/-- `GetLastStakeModifier`: the last generated modifier and the time of its block, or none if it
fails. -/
def getLastStakeModifier : List CBlockIndex → Option (UInt64 × Int64)
  | [] => none
  | pindex :: past =>
    if pindex.generatedStakeModifier then some (pindex.nStakeModifier, pindex.getBlockTime)
    else getLastStakeModifier past

/-- `GetStakeModifierSelectionIntervalSection`, in seconds; the section is less than 64. -/
def getStakeModifierSelectionIntervalSection (fTestNet : Bool) (nSection : ℕ) : Int64 :=
  timeOf (getIntervalVersion fTestNet * 63 /
    (63 + UInt32.ofNat (63 - nSection) * ( MODIFIER_INTERVAL_RATIO - 1)))

/-- `GetStakeModifierSelectionInterval`, in seconds. -/
def getStakeModifierSelectionInterval (fTestNet : Bool) : Int64 :=
  (List.range 64).foldl (fun nSelectionInterval nSection =>
    nSelectionInterval + getStakeModifierSelectionIntervalSection fTestNet nSection) 0

section Select

variable (hash : Bytes → UInt256) (fTestNet : Bool) (find : UInt256 → Option CBlockIndex)

/-- The hash by which a block is selected.  It is divided by 2^32 for a proof-of-stake block, which
is so favored over a proof-of-work block. -/
def selectionHash (nStakeModifierPrev : UInt64) (pindex : CBlockIndex) : UInt256 :=
  let hashProof := if pindex.isProofOfStake then pindex.hashProofOfStake else pindex.phashBlock
  let hashSelection := hash (serializeUInt256 hashProof ++ serializeUInt64 nStakeModifierPrev)
  if pindex.isProofOfStake then hashSelection >>> 32 else hashSelection

/-- The loop of `SelectBlockFromCandidates` over the candidates that are left, with the best hash and
the block selected so far; none if a candidate has no index. -/
def selectBlockLoop (mapSelectedBlocks : List UInt256) (nSelectionIntervalStop : Int64)
    (nStakeModifierPrev : UInt64) :
    Option (UInt256 × CBlockIndex) → List (Int64 × UInt256) →
      Option (Option (UInt256 × CBlockIndex))
  | best, [] => some best
  | best, item :: items =>
    match find item.2 with
    | none => none
    | some pindex =>
      if best.isSome && decide (pindex.getBlockTime > nSelectionIntervalStop) then some best
      else if mapSelectedBlocks.contains pindex.phashBlock then
        selectBlockLoop mapSelectedBlocks nSelectionIntervalStop nStakeModifierPrev best items
      else
        let hashSelection := selectionHash hash nStakeModifierPrev pindex
        let fBetter := best.all fun b => decide (hashSelection < b.1)
        selectBlockLoop mapSelectedBlocks nSelectionIntervalStop nStakeModifierPrev
          (if fBetter then some (hashSelection, pindex) else best) items

/-- `SelectBlockFromCandidates`: the selected block, or none if it fails. -/
def selectBlockFromCandidates (vSortedByTimestamp : List (Int64 × UInt256))
    (mapSelectedBlocks : List UInt256) (nSelectionIntervalStop : Int64)
    (nStakeModifierPrev : UInt64) : Option CBlockIndex :=
  ((selectBlockLoop hash find mapSelectedBlocks nSelectionIntervalStop nStakeModifierPrev none
    vSortedByTimestamp).bind id).map Prod.snd

/-- The local variables of the selection rounds. -/
structure ModifierState where
  nSelectionIntervalStop : Int64
  /-- The keys of the map of the selected blocks. -/
  mapSelectedBlocks : List UInt256 := []
  nStakeModifierNew : UInt64 := 0

/-- A selection round: the entropy bit of the selected block is written into the new modifier. -/
def selectRound (vSortedByTimestamp : List (Int64 × UInt256)) (nStakeModifier : UInt64)
    (s : ModifierState) (nRound : ℕ) : Option ModifierState :=
  let nSelectionIntervalStop :=
    s.nSelectionIntervalStop + getStakeModifierSelectionIntervalSection fTestNet nRound
  (selectBlockFromCandidates hash find vSortedByTimestamp s.mapSelectedBlocks
    nSelectionIntervalStop nStakeModifier).map fun pindex =>
      { nSelectionIntervalStop
        mapSelectedBlocks := pindex.phashBlock :: s.mapSelectedBlocks
        nStakeModifierNew := s.nStakeModifierNew |||
          (pindex.getStakeEntropyBit.toUInt64 <<< UInt64.ofNat nRound) }

/-- The candidates: the last blocks from a time on, sorted by time and hash. -/
def candidatesFrom (nSelectionIntervalStart : Int64) (past : List CBlockIndex) :
    List (Int64 × UInt256) :=
  (((past.takeWhile fun pindex => decide (pindex.getBlockTime ≥ nSelectionIntervalStart)).map
    fun pindex => (pindex.getBlockTime, pindex.phashBlock)).reverse).insertionSort
      fun a b => a.1 < b.1 ∨ a.1 = b.1 ∧ a.2 ≤ b.2

/-- `ComputeNextStakeModifier` after some indices: the modifier and whether it is a new one, or none
if it fails. -/
def computeNextStakeModifier (past : List CBlockIndex) : Option (UInt64 × Bool) :=
  match past with
  -- the modifier of the genesis block is 0
  | [] => some (0, true)
  | pindexPrev :: _ =>
    match getLastStakeModifier past with
    | none => none
    | some (nStakeModifier, nModifierTime) =>
      let nInterval := timeOf (getIntervalVersion fTestNet)
      if nModifierTime / nInterval ≥ pindexPrev.getBlockTime / nInterval then
        some (nStakeModifier, false)
      else
        let nSelectionIntervalStart := pindexPrev.getBlockTime / nInterval * nInterval -
          getStakeModifierSelectionInterval fTestNet
        let vSortedByTimestamp := candidatesFrom nSelectionIntervalStart past
        ((List.range (min 64 vSortedByTimestamp.length)).foldlM
          (selectRound hash fTestNet find vSortedByTimestamp nStakeModifier)
          { nSelectionIntervalStop := nSelectionIntervalStart }).map fun s =>
            (s.nStakeModifierNew, true)

end Select

/-- `GetStakeModifierChecksum` of the first of some indices.  An index keeps its own checksum in a
field that is left out: it is the one that is computed here. -/
def getStakeModifierChecksum (hash : Bytes → UInt256) : List CBlockIndex → UInt32
  | [] => 0
  | pindex :: past =>
    let ss := (if past.isEmpty then [] else serializeUInt32 (getStakeModifierChecksum hash past)) ++
      serializeUInt32 pindex.nFlags ++ serializeUInt256 pindex.hashProofOfStake ++
      serializeUInt64 pindex.nStakeModifier
    UInt32.ofNat (hash ss >>> (256 - 32)).toNat

/-- The checkpoints of the modifiers: the checksum of the genesis block. -/
def mapStakeModifierCheckpoints : List (Int32 × UInt32) := [(0, 0xfd11f4e7)]

def checkStakeModifierCheckpoints (fTestNet : Bool) (nHeight : Int32)
    (nStakeModifierChecksum : UInt32) : Bool :=
  fTestNet || (mapStakeModifierCheckpoints.lookup nHeight).all fun checksum =>
    nStakeModifierChecksum == checksum

/-! ## What the computation reads -/

/-- Two options are related if both have no value, or if both have one. -/
lemma rel_cases {α β : Type} {r : α → β → Prop} {a : Option α} {b : Option β}
    (h : Option.Rel r a b) : (a = none ∧ b = none) ∨ ∃ x y, a = some x ∧ b = some y ∧ r x y := by
  cases h with
  | none => exact Or.inl ⟨rfl, rfl⟩
  | some h => exact Or.inr ⟨_, _, rfl, rfl, h⟩

/-- Two indices are the same as far as the computation of modifiers is concerned. -/
structure CBlockIndex.SameStake (p q : CBlockIndex) : Prop where
  phashBlock : p.phashBlock = q.phashBlock
  nTime : p.nTime = q.nTime
  nFlags : p.nFlags = q.nFlags
  hashProofOfStake : p.hashProofOfStake = q.hashProofOfStake
  nStakeModifier : p.nStakeModifier = q.nStakeModifier

/-- The indices that two nodes find under the same hashes are the same for the computation. -/
def SameFound (find find' : UInt256 → Option CBlockIndex) (h : UInt256) : Prop :=
  Option.Rel CBlockIndex.SameStake (find h) (find' h)

namespace CBlockIndex.SameStake

variable {p q : CBlockIndex}

section

variable (h : SameStake p q)

include h

lemma getBlockTime_eq : p.getBlockTime = q.getBlockTime := by
  rw [getBlockTime, getBlockTime, h.nTime]

lemma isProofOfStake_eq : p.isProofOfStake = q.isProofOfStake := by
  rw [isProofOfStake, isProofOfStake, h.nFlags]

lemma getStakeEntropyBit_eq : p.getStakeEntropyBit = q.getStakeEntropyBit := by
  rw [getStakeEntropyBit, getStakeEntropyBit, h.nFlags]

lemma generatedStakeModifier_eq : p.generatedStakeModifier = q.generatedStakeModifier := by
  rw [generatedStakeModifier, generatedStakeModifier, h.nFlags]

lemma selectionHash_eq (hash : Bytes → UInt256) (nStakeModifierPrev : UInt64) :
    selectionHash hash nStakeModifierPrev p = selectionHash hash nStakeModifierPrev q := by
  rw [selectionHash, selectionHash, h.isProofOfStake_eq, h.hashProofOfStake, h.phashBlock]

end

end CBlockIndex.SameStake

section Congr

variable {hash : Bytes → UInt256} {fTestNet : Bool} {find find' : UInt256 → Option CBlockIndex}
  {past past' : List CBlockIndex}

lemma getLastStakeModifier_congr (hpast : List.Forall₂ CBlockIndex.SameStake past past') :
    getLastStakeModifier past = getLastStakeModifier past' := by
  induction hpast with
  | nil => rfl
  | cons h _ ih =>
    rw [getLastStakeModifier, getLastStakeModifier, h.generatedStakeModifier_eq, h.getBlockTime_eq,
      h.nStakeModifier, ih]

lemma candidatesFrom_congr (hpast : List.Forall₂ CBlockIndex.SameStake past past')
    (nSelectionIntervalStart : Int64) :
    candidatesFrom nSelectionIntervalStart past = candidatesFrom nSelectionIntervalStart past' := by
  have hmap : ((past.takeWhile fun pindex =>
        decide (pindex.getBlockTime ≥ nSelectionIntervalStart)).map
        fun pindex => (pindex.getBlockTime, pindex.phashBlock)) =
      ((past'.takeWhile fun pindex =>
        decide (pindex.getBlockTime ≥ nSelectionIntervalStart)).map
        fun pindex => (pindex.getBlockTime, pindex.phashBlock)) := by
    induction hpast with
    | nil => rfl
    | cons h _ ih =>
      rw [List.takeWhile_cons, List.takeWhile_cons, h.getBlockTime_eq]
      split
      · rw [List.map_cons, List.map_cons, h.getBlockTime_eq, h.phashBlock, ih]
      · rfl
  rw [candidatesFrom, candidatesFrom, hmap]

/-- A candidate is one of the indices. -/
lemma mem_candidatesFrom {nSelectionIntervalStart : Int64} {item : Int64 × UInt256}
    (h : item ∈ candidatesFrom nSelectionIntervalStart past) :
    ∃ pindex ∈ past, pindex.phashBlock = item.2 := by
  rw [candidatesFrom, List.mem_insertionSort, List.mem_reverse] at h
  obtain ⟨pindex, hmem, rfl⟩ := List.mem_map.mp h
  exact ⟨pindex, (List.takeWhile_prefix _).subset hmem, rfl⟩

/-- Two nodes select the same block so far. -/
def SameBest (best best' : Option (UInt256 × CBlockIndex)) : Prop :=
  Option.Rel (fun a b => a.1 = b.1 ∧ CBlockIndex.SameStake a.2 b.2) best best'

lemma selectBlockLoop_congr {mapSelectedBlocks : List UInt256} {nSelectionIntervalStop : Int64}
    {nStakeModifierPrev : UInt64} {items : List (Int64 × UInt256)}
    {best best' : Option (UInt256 × CBlockIndex)} (hbest : SameBest best best')
    (hfind : ∀ item ∈ items, SameFound find find' item.2) :
    Option.Rel SameBest
      (selectBlockLoop hash find mapSelectedBlocks nSelectionIntervalStop nStakeModifierPrev best
        items)
      (selectBlockLoop hash find' mapSelectedBlocks nSelectionIntervalStop nStakeModifierPrev best'
        items) := by
  induction items generalizing best best' with
  | nil => exact .some hbest
  | cons item items ih =>
    have hrest := fun item hitem => hfind item (List.mem_cons_of_mem _ hitem)
    have hsome : best.isSome = best'.isSome := by cases hbest <;> rfl
    rw [selectBlockLoop, selectBlockLoop]
    rcases rel_cases (hfind item List.mem_cons_self) with ⟨hp, hq⟩ | ⟨p, q, hp, hq, hsame⟩
    · rw [hp, hq]
      exact .none
    · have hbetter : (best.all fun b => decide (selectionHash hash nStakeModifierPrev q < b.1)) =
          best'.all fun b => decide (selectionHash hash nStakeModifierPrev q < b.1) := by
        cases hbest with
        | none => rfl
        | some h => simp only [Option.all_some, h.1]
      rw [hp, hq]
      dsimp only
      rw [hsame.getBlockTime_eq, hsame.phashBlock, hsame.selectionHash_eq, hsome, hbetter]
      split_ifs
      · exact .some hbest
      · exact ih hbest hrest
      · exact ih (.some ⟨rfl, hsame⟩) hrest
      · exact ih hbest hrest

lemma selectBlockFromCandidates_congr (hash : Bytes → UInt256)
    {vSortedByTimestamp : List (Int64 × UInt256)} (mapSelectedBlocks : List UInt256)
    (nSelectionIntervalStop : Int64)
    (nStakeModifierPrev : UInt64)
    (hfind : ∀ item ∈ vSortedByTimestamp, SameFound find find' item.2) :
    Option.Rel CBlockIndex.SameStake
      (selectBlockFromCandidates hash find vSortedByTimestamp mapSelectedBlocks
        nSelectionIntervalStop nStakeModifierPrev)
      (selectBlockFromCandidates hash find' vSortedByTimestamp mapSelectedBlocks
        nSelectionIntervalStop nStakeModifierPrev) := by
  have hloop : Option.Rel SameBest
      (selectBlockLoop hash find mapSelectedBlocks nSelectionIntervalStop nStakeModifierPrev none
        vSortedByTimestamp)
      (selectBlockLoop hash find' mapSelectedBlocks nSelectionIntervalStop nStakeModifierPrev none
        vSortedByTimestamp) := selectBlockLoop_congr .none hfind
  unfold selectBlockFromCandidates
  rcases rel_cases hloop with ⟨hp, hq⟩ | ⟨best, best', hp, hq, hbest⟩
  · rw [hp, hq]
    exact .none
  · rw [hp, hq]
    cases hbest with
    | none => exact .none
    | some h => exact .some h.2

lemma selectRound_congr {vSortedByTimestamp : List (Int64 × UInt256)} (nStakeModifier : UInt64)
    (hfind : ∀ item ∈ vSortedByTimestamp, SameFound find find' item.2) :
    selectRound hash fTestNet find vSortedByTimestamp nStakeModifier =
      selectRound hash fTestNet find' vSortedByTimestamp nStakeModifier := by
  funext s nRound
  unfold selectRound
  dsimp only
  rcases rel_cases (selectBlockFromCandidates_congr hash s.mapSelectedBlocks
    (s.nSelectionIntervalStop + getStakeModifierSelectionIntervalSection fTestNet nRound)
    nStakeModifier hfind) with ⟨hp, hq⟩ | ⟨p, q, hp, hq, hsame⟩
  · rw [hp, hq]
  · rw [hp, hq, Option.map_some, Option.map_some, hsame.phashBlock, hsame.getStakeEntropyBit_eq]

/-- The next modifier depends only on the indices before it. -/
lemma computeNextStakeModifier_congr (hpast : List.Forall₂ CBlockIndex.SameStake past past')
    (hfind : ∀ pindex ∈ past, SameFound find find' pindex.phashBlock) :
    computeNextStakeModifier hash fTestNet find past =
      computeNextStakeModifier hash fTestNet find' past' := by
  have hlast := getLastStakeModifier_congr hpast
  cases hpast with
  | nil => rfl
  | @cons p q ps qs h hrest =>
    have hall : List.Forall₂ CBlockIndex.SameStake (p :: ps) (q :: qs) := .cons h hrest
    unfold computeNextStakeModifier
    dsimp only
    rw [hlast]
    cases getLastStakeModifier (q :: qs) with
    | none => rfl
    | some last =>
      dsimp only
      rw [h.getBlockTime_eq, ← candidatesFrom_congr hall, selectRound_congr]
      intro item hitem
      obtain ⟨pindex, hmem, heq⟩ := mem_candidatesFrom hitem
      rw [← heq]
      exact hfind pindex hmem

/-- The checksum of a modifier depends only on the index and those before it. -/
lemma getStakeModifierChecksum_congr (hpast : List.Forall₂ CBlockIndex.SameStake past past') :
    getStakeModifierChecksum hash past = getStakeModifierChecksum hash past' := by
  induction hpast with
  | nil => rfl
  | @cons p q ps qs h hrest ih =>
    have hempty : ps.isEmpty = qs.isEmpty := by cases hrest <;> rfl
    rw [getStakeModifierChecksum, getStakeModifierChecksum, ih, hempty, h.nFlags,
      h.hashProofOfStake, h.nStakeModifier]

end Congr

end HyperStake
