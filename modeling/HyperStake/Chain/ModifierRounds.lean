import Mathlib.Data.Nat.Bitwise
import HyperStake.Chain.Branches

/-!
# The blocks that a stake modifier is made of

`ComputeNextStakeModifier` selects a block in each of up to 64 rounds.  When a new modifier is due,
every round selects one of the candidates that are left: of those that are old enough for the round
the one with the smallest selection hash, or the oldest one if none is old enough (`Selects`).  The
modifier consists of the entropy bits of the selected blocks
(`computeNextStakeModifier_selects`).
-/

namespace HyperStake

/-- Candidates are sorted by time, and then by hash. -/
def CBlockIndex.StampLE (p q : CBlockIndex) : Prop :=
  p.getBlockTime < q.getBlockTime ∨
    p.getBlockTime = q.getBlockTime ∧ p.phashBlock ≤ q.phashBlock

/-- The indices before a block from a time on. -/
def candidates (nSelectionIntervalStart : Int64) (past : List CBlockIndex) : List CBlockIndex :=
  past.takeWhile fun pindex => decide (pindex.getBlockTime ≥ nSelectionIntervalStart)

/-- The end of the interval after some sections. -/
def selectionStop (fTestNet : Bool) (nSelectionIntervalStart : Int64) (nRounds : ℕ) : Int64 :=
  (List.range nRounds).foldl (fun nSelectionIntervalStop nRound =>
    nSelectionIntervalStop + getStakeModifierSelectionIntervalSection fTestNet nRound)
    nSelectionIntervalStart

/-- A round selects a candidate that has not been selected: among those whose time is not after the
end of the interval the one with the smallest selection hash, the first one if there are several, and
the first one of all if there is none. -/
structure Selects (hash : Bytes → UInt256) (cands selected : List CBlockIndex)
    (nSelectionIntervalStop : Int64) (nStakeModifierPrev : UInt64) (p : CBlockIndex) : Prop where
  mem : p ∈ cands
  not_selected : p ∉ selected
  smallest : ∀ q ∈ cands, q ∉ selected → q.getBlockTime ≤ nSelectionIntervalStop →
    p.getBlockTime ≤ nSelectionIntervalStop ∧
      selectionHash hash nStakeModifierPrev p ≤ selectionHash hash nStakeModifierPrev q ∧
      (selectionHash hash nStakeModifierPrev q = selectionHash hash nStakeModifierPrev p →
        p.StampLE q)
  earliest : nSelectionIntervalStop < p.getBlockTime → ∀ q ∈ cands, q ∉ selected → p.StampLE q

namespace CBlockIndex

lemma StampLE.refl (p : CBlockIndex) : p.StampLE p := Or.inr ⟨rfl, BitVec.le_refl _⟩

lemma StampLE.getBlockTime_le {p q : CBlockIndex} (h : p.StampLE q) :
    p.getBlockTime ≤ q.getBlockTime := by
  rcases h with hlt | ⟨heq, -⟩
  · exact Int64.le_of_lt hlt
  · rw [heq]
    exact Int64.le_refl _

instance decidableStampLE : DecidableRel StampLE := fun p q =>
  inferInstanceAs (Decidable (p.getBlockTime < q.getBlockTime ∨
    p.getBlockTime = q.getBlockTime ∧ p.phashBlock ≤ q.phashBlock))

instance totalStampLE : Std.Total StampLE where
  total p q := by
    rw [StampLE, StampLE, Int64.lt_iff_toInt_lt, Int64.lt_iff_toInt_lt, ← Int64.toInt_inj,
      ← Int64.toInt_inj]
    rcases BitVec.le_total p.phashBlock q.phashBlock with hle | hle
    · rcases lt_trichotomy p.getBlockTime.toInt q.getBlockTime.toInt with hlt | heq | hlt
      · exact Or.inl (Or.inl hlt)
      · exact Or.inl (Or.inr ⟨heq, hle⟩)
      · exact Or.inr (Or.inl hlt)
    · rcases lt_trichotomy p.getBlockTime.toInt q.getBlockTime.toInt with hlt | heq | hlt
      · exact Or.inl (Or.inl hlt)
      · exact Or.inr (Or.inr ⟨heq.symm, hle⟩)
      · exact Or.inr (Or.inl hlt)

instance isTransStampLE : IsTrans CBlockIndex StampLE where
  trans p q r hpq hqr := by
    rw [StampLE, Int64.lt_iff_toInt_lt, ← Int64.toInt_inj] at hpq hqr ⊢
    rcases hpq with hpq | ⟨hpq, hle⟩
    · rcases hqr with hqr | ⟨hqr, -⟩
      · exact Or.inl (hpq.trans hqr)
      · exact Or.inl (hqr ▸ hpq)
    · rcases hqr with hqr | ⟨hqr, hle'⟩
      · exact Or.inl (hpq ▸ hqr)
      · exact Or.inr ⟨hpq.trans hqr, BitVec.le_trans hle hle'⟩

end CBlockIndex

/-- What the candidates are sorted by. -/
def CBlockIndex.stamp (pindex : CBlockIndex) : Int64 × UInt256 :=
  (pindex.getBlockTime, pindex.phashBlock)

/-- The candidates as they are sorted. -/
def sortedCandidates (nSelectionIntervalStart : Int64) (past : List CBlockIndex) :
    List CBlockIndex :=
  (candidates nSelectionIntervalStart past).reverse.insertionSort CBlockIndex.StampLE

lemma candidatesFrom_eq (nSelectionIntervalStart : Int64) (past : List CBlockIndex) :
    candidatesFrom nSelectionIntervalStart past =
      (sortedCandidates nSelectionIntervalStart past).map CBlockIndex.stamp := by
  rw [candidatesFrom, ← List.map_reverse]
  exact (List.map_insertionSort _ _ CBlockIndex.stamp _ fun p _ q _ => Iff.rfl).symm

lemma mem_sortedCandidates {nSelectionIntervalStart : Int64} {past : List CBlockIndex}
    {p : CBlockIndex} : p ∈ sortedCandidates nSelectionIntervalStart past ↔
      p ∈ candidates nSelectionIntervalStart past := by
  rw [sortedCandidates, List.mem_insertionSort, List.mem_reverse]

/-! ## One round -/

section Round

variable {hash : Bytes → UInt256} {find : UInt256 → Option CBlockIndex}
  {mapSelectedBlocks : List UInt256} {nSelectionIntervalStop : Int64} {nStakeModifierPrev : UInt64}
  {ps : List CBlockIndex}

/-- The loop over the candidates that are left, when one has been selected. -/
lemma selectBlockLoop_some {best : CBlockIndex}
    (hfind : ∀ p ∈ ps, find p.phashBlock = some p) (hsorted : ps.Pairwise CBlockIndex.StampLE)
    (hbest : ∀ p ∈ ps, best.StampLE p) :
    ∃ r, selectBlockLoop hash find mapSelectedBlocks nSelectionIntervalStop nStakeModifierPrev
        (some (selectionHash hash nStakeModifierPrev best, best)) (ps.map CBlockIndex.stamp) =
          some (some (selectionHash hash nStakeModifierPrev r, r)) ∧
      (r = best ∨ r ∈ ps ∧ mapSelectedBlocks.contains r.phashBlock = false ∧
        r.getBlockTime ≤ nSelectionIntervalStop) ∧
      selectionHash hash nStakeModifierPrev r ≤ selectionHash hash nStakeModifierPrev best ∧
      (selectionHash hash nStakeModifierPrev best = selectionHash hash nStakeModifierPrev r →
        r = best) ∧
      ∀ q ∈ ps, mapSelectedBlocks.contains q.phashBlock = false →
        q.getBlockTime ≤ nSelectionIntervalStop →
          selectionHash hash nStakeModifierPrev r ≤ selectionHash hash nStakeModifierPrev q ∧
          (selectionHash hash nStakeModifierPrev q = selectionHash hash nStakeModifierPrev r →
            r.StampLE q) := by
  induction ps generalizing best with
  | nil =>
    exact ⟨best, rfl, Or.inl rfl, BitVec.le_refl _, fun _ => rfl, fun q hq => by cases hq⟩
  | cons p ps ih =>
    obtain ⟨hp, hfind⟩ := List.forall_mem_cons.mp hfind
    obtain ⟨hfirst, hsorted⟩ := List.pairwise_cons.mp hsorted
    obtain ⟨hbestp, hbest⟩ := List.forall_mem_cons.mp hbest
    have hstamp : p.stamp.2 = p.phashBlock := rfl
    rw [List.map_cons, selectBlockLoop, hstamp, hp]
    simp only [Option.isSome_some, Option.all_some, Bool.true_and, decide_eq_true_eq]
    by_cases hlate : p.getBlockTime > nSelectionIntervalStop
    · -- the candidates that are left are not older
      rw [if_pos hlate]
      refine ⟨best, rfl, Or.inl rfl, BitVec.le_refl _, fun _ => rfl, fun q hq _ hold => ?_⟩
      have hle : p.getBlockTime ≤ q.getBlockTime := by
        rcases List.mem_cons.mp hq with rfl | hq
        · exact Int64.le_refl _
        · exact (hfirst q hq).getBlockTime_le
      exact absurd (Int64.le_trans hle hold) (Int64.not_le.mpr hlate)
    rw [if_neg hlate]
    cases hselected : mapSelectedBlocks.contains p.phashBlock with
    | true =>
      rw [if_pos rfl]
      obtain ⟨r, hloop, hmem, hle, heq, hleast⟩ := ih hfind hsorted hbest
      refine ⟨r, hloop, hmem.imp_right fun h => ⟨List.mem_cons_of_mem _ h.1, h.2⟩, hle, heq, ?_⟩
      intro q hq hnot
      rcases List.mem_cons.mp hq with rfl | hq
      · rw [hselected] at hnot
        cases hnot
      · exact hleast q hq hnot
    | false =>
      rw [if_neg Bool.false_ne_true]
      by_cases hbetter : selectionHash hash nStakeModifierPrev p <
          selectionHash hash nStakeModifierPrev best
      · rw [if_pos hbetter]
        obtain ⟨r, hloop, hmem, hle, heq, hleast⟩ := ih hfind hsorted hfirst
        have hlt : selectionHash hash nStakeModifierPrev r < selectionHash hash nStakeModifierPrev best :=
          BitVec.lt_def.mpr (Nat.lt_of_le_of_lt (BitVec.le_def.mp hle) (BitVec.lt_def.mp hbetter))
        refine ⟨r, hloop, Or.inr ?_, BitVec.le_of_lt hlt, fun h => ?_, fun q hq hnot hold => ?_⟩
        · rcases hmem with rfl | hmem
          · exact ⟨List.mem_cons_self, hselected, Int64.not_lt.mp hlate⟩
          · exact ⟨List.mem_cons_of_mem _ hmem.1, hmem.2⟩
        · rw [h] at hlt
          exact absurd hlt (BitVec.lt_irrefl _)
        · rcases List.mem_cons.mp hq with rfl | hq
          · exact ⟨hle, fun h => heq h ▸ CBlockIndex.StampLE.refl _⟩
          · exact hleast q hq hnot hold
      · rw [if_neg hbetter]
        obtain ⟨r, hloop, hmem, hle, heq, hleast⟩ := ih hfind hsorted hbest
        have hge := BitVec.not_lt.mp hbetter
        refine ⟨r, hloop, hmem.imp_right fun h => ⟨List.mem_cons_of_mem _ h.1, h.2⟩, hle, heq, ?_⟩
        intro q hq hnot hold
        rcases List.mem_cons.mp hq with rfl | hq
        · refine ⟨BitVec.le_trans hle hge, fun h => ?_⟩
          rw [heq (BitVec.le_antisymm (h ▸ hge) hle)]
          exact hbestp
        · exact hleast q hq hnot hold

/-- The candidates that are selected already are passed over. -/
lemma selectBlockLoop_none_append {before rest : List CBlockIndex}
    (hfind : ∀ p ∈ before, find p.phashBlock = some p)
    (hselected : ∀ p ∈ before, mapSelectedBlocks.contains p.phashBlock = true) :
    selectBlockLoop hash find mapSelectedBlocks nSelectionIntervalStop nStakeModifierPrev none
        ((before ++ rest).map CBlockIndex.stamp) =
      selectBlockLoop hash find mapSelectedBlocks nSelectionIntervalStop nStakeModifierPrev none
        (rest.map CBlockIndex.stamp) := by
  induction before with
  | nil => rfl
  | cons p before ih =>
    obtain ⟨hp, hfind⟩ := List.forall_mem_cons.mp hfind
    obtain ⟨hpselected, hselected⟩ := List.forall_mem_cons.mp hselected
    have hstamp : p.stamp.2 = p.phashBlock := rfl
    rw [List.cons_append, List.map_cons, selectBlockLoop, hstamp, hp]
    simp only [Option.isSome_none, Bool.false_and, Bool.false_eq_true, if_false, hpselected,
      if_true]
    exact ih hfind hselected

/-- A round selects a block while there is a candidate that has not been selected. -/
lemma selectBlockFromCandidates_selects {cands selected : List CBlockIndex}
    (hfind : ∀ p ∈ cands, find p.phashBlock = some p)
    (hsorted : cands.Pairwise CBlockIndex.StampLE) (hsub : ∀ p ∈ selected, p ∈ cands)
    (hleft : ∃ p ∈ cands, p ∉ selected)
    (hmap : ∀ h, mapSelectedBlocks.contains h = true ↔ h ∈ selected.map CBlockIndex.phashBlock) :
    ∃ p, selectBlockFromCandidates hash find (cands.map CBlockIndex.stamp) mapSelectedBlocks
        nSelectionIntervalStop nStakeModifierPrev = some p ∧
      Selects hash cands selected nSelectionIntervalStop nStakeModifierPrev p := by
  -- a candidate is selected if its hash is the one of a selected block
  have hcontains : ∀ p ∈ cands, mapSelectedBlocks.contains p.phashBlock = true ↔ p ∈ selected := by
    intro p hp
    rw [hmap, List.mem_map]
    constructor
    · rintro ⟨q, hq, heq⟩
      have hfound := hfind q (hsub q hq)
      rw [heq, hfind p hp] at hfound
      cases hfound
      exact hq
    · exact fun hmem => ⟨p, hmem, rfl⟩
  have hsome : (cands.find? fun p => !mapSelectedBlocks.contains p.phashBlock).isSome = true := by
    obtain ⟨p, hp, hnot⟩ := hleft
    refine List.find?_isSome.mpr ⟨p, hp, ?_⟩
    rw [Bool.not_eq_true', ← Bool.not_eq_true, hcontains p hp]
    exact hnot
  obtain ⟨first, hfound⟩ := Option.isSome_iff_exists.mp hsome
  obtain ⟨hfirst, before, rest, rfl, hbefore⟩ := List.find?_eq_some_iff_append.mp hfound
  rw [Bool.not_eq_true'] at hfirst
  have hselected : ∀ p ∈ before, mapSelectedBlocks.contains p.phashBlock = true := fun p hp => by
    simpa using hbefore p hp
  have hfirst' : first ∉ selected := by
    rw [← hcontains first (by simp), hfirst]
    exact Bool.false_ne_true
  obtain ⟨-, hsortedRest, hcross⟩ := List.pairwise_append.mp hsorted
  obtain ⟨hfirstRest, hsortedRest⟩ := List.pairwise_cons.mp hsortedRest
  obtain ⟨r, hloop, hmem, hle, heq, hleast⟩ := @selectBlockLoop_some hash find mapSelectedBlocks
    nSelectionIntervalStop nStakeModifierPrev rest first (fun p hp => hfind p (by simp [hp]))
    hsortedRest hfirstRest
  have hround : selectBlockFromCandidates hash find ((before ++ first :: rest).map CBlockIndex.stamp)
      mapSelectedBlocks nSelectionIntervalStop nStakeModifierPrev = some r := by
    have hstamp : first.stamp.2 = first.phashBlock := rfl
    rw [selectBlockFromCandidates, selectBlockLoop_none_append
      (fun p hp => hfind p (by simp [hp])) hselected, List.map_cons, selectBlockLoop, hstamp,
      hfind first (by simp)]
    simp only [Option.isSome_none, Bool.false_and, Bool.false_eq_true, if_false, hfirst,
      Option.all_none, if_true, hloop]
    rfl
  -- the candidates that are left are the first one of them and those after it
  have hleftover : ∀ q ∈ before ++ first :: rest, q ∉ selected →
      q = first ∨ q ∈ rest ∧ mapSelectedBlocks.contains q.phashBlock = false := by
    intro q hq hnot
    rw [← hcontains q hq, Bool.not_eq_true] at hnot
    rcases List.mem_append.mp hq with hq | hq
    · rw [hselected q hq] at hnot
      cases hnot
    · exact (List.mem_cons.mp hq).imp_right fun hq => ⟨hq, hnot⟩
  have hafter : ∀ q ∈ before ++ first :: rest, q ∉ selected → first.StampLE q := by
    intro q hq hnot
    rcases hleftover q hq hnot with rfl | ⟨hq, -⟩
    · exact CBlockIndex.StampLE.refl _
    · exact hfirstRest q hq
  refine ⟨r, hround, ?_, ?_, ?_, ?_⟩
  · rcases hmem with rfl | ⟨hmem, -⟩
    · simp
    · simp [hmem]
  · rcases hmem with rfl | ⟨hmem, hnot, -⟩
    · exact hfirst'
    · rw [← hcontains r (by simp [hmem]), hnot]
      exact Bool.false_ne_true
  · intro q hq hnot hold
    have htime := Int64.le_trans (hafter q hq hnot).getBlockTime_le hold
    refine ⟨?_, ?_⟩
    · rcases hmem with rfl | ⟨-, -, hr⟩
      · exact htime
      · exact hr
    · rcases hleftover q hq hnot with rfl | ⟨hq, hnot⟩
      · exact ⟨hle, fun h => heq h ▸ CBlockIndex.StampLE.refl _⟩
      · exact hleast q hq hnot hold
  · intro hlate q hq hnot
    rcases hmem with rfl | ⟨-, -, hr⟩
    · exact hafter q hq hnot
    · exact absurd hr (Int64.not_le.mpr hlate)

end Round

/-! ## The bits of the modifier -/

/-- The entropy bit of a block is zero or one. -/
lemma getStakeEntropyBit_cases (p : CBlockIndex) :
    p.getStakeEntropyBit = 0 ∨ p.getStakeEntropyBit = 1 := by
  have hbit : (p.nFlags &&& BLOCK_STAKE_ENTROPY).toNat = (p.nFlags.toNat.testBit 1).toNat * 2 := by
    rw [UInt32.toNat_and]
    exact Nat.and_two_pow p.nFlags.toNat 1
  rw [CBlockIndex.getStakeEntropyBit, ← UInt32.toNat_inj, ← UInt32.toNat_inj,
    UInt32.toNat_shiftRight, hbit]
  cases p.nFlags.toNat.testBit 1 with
  | false => exact Or.inl rfl
  | true => exact Or.inr rfl

/-- Writing a bit into a modifier. -/
lemma getLsbD_or_bit (a : UInt64) {b : UInt32} (hb : b = 0 ∨ b = 1) {n k : ℕ} (hn : n < 64)
    (hk : k < 64) : (a ||| (b.toUInt64 <<< UInt64.ofNat n)).toBitVec.getLsbD k =
      (a.toBitVec.getLsbD k || (decide (k = n) && b != 0)) := by
  have hmod : (UInt64.ofNat n).toBitVec % 64 = BitVec.ofNat 64 n := by
    apply BitVec.eq_of_toNat_eq
    simp [BitVec.toNat_umod]
    omega
  have hsize : n % 2 ^ 64 = n := Nat.mod_eq_of_lt (by omega)
  rw [UInt64.toBitVec_or, UInt64.toBitVec_shiftLeft, BitVec.getLsbD_or, hmod, BitVec.shiftLeft_eq',
    BitVec.getLsbD_shiftLeft, BitVec.toNat_ofNat, hsize]
  congr 1
  rcases hb with rfl | rfl
  · simp
  · rw [Bool.eq_iff_iff]
    simp [hk]
    omega

/-! ## The rounds -/

section Rounds

variable {hash : Bytes → UInt256} {fTestNet : Bool} {find : UInt256 → Option CBlockIndex}
  {cands : List CBlockIndex} {nSelectionIntervalStart : Int64} {nStakeModifier : UInt64}

/-- Every round has selected its block. -/
def SelectsAll (hash : Bytes → UInt256) (fTestNet : Bool) (cands : List CBlockIndex)
    (nSelectionIntervalStart : Int64) (nStakeModifier : UInt64)
    (chosen : List CBlockIndex) : Prop :=
  ∀ k p, chosen[k]? = some p → Selects hash cands (chosen.take k)
    (selectionStop fTestNet nSelectionIntervalStart (k + 1)) nStakeModifier p

lemma SelectsAll.congr {cands' chosen : List CBlockIndex}
    (hall : SelectsAll hash fTestNet cands nSelectionIntervalStart nStakeModifier chosen)
    (hsame : ∀ p, p ∈ cands ↔ p ∈ cands') :
    SelectsAll hash fTestNet cands' nSelectionIntervalStart nStakeModifier chosen := by
  intro k p hk
  obtain ⟨hmem, hnot, hsmallest, hearliest⟩ := hall k p hk
  refine ⟨(hsame p).mp hmem, hnot, fun q hq => hsmallest q ((hsame q).mpr hq), fun hlate q hq => ?_⟩
  exact hearliest hlate q ((hsame q).mpr hq)

lemma selectionStop_succ (nRounds : ℕ) :
    selectionStop fTestNet nSelectionIntervalStart (nRounds + 1) =
      selectionStop fTestNet nSelectionIntervalStart nRounds +
        getStakeModifierSelectionIntervalSection fTestNet nRounds := by
  rw [selectionStop, List.range_succ, List.foldl_append]
  rfl

/-- While there are candidates left, the rounds select distinct ones of them, and the modifier has
their entropy bits. -/
lemma selectRounds (hfind : ∀ p ∈ cands, find p.phashBlock = some p)
    (hsorted : cands.Pairwise CBlockIndex.StampLE) (hnodup : cands.Nodup) {n : ℕ}
    (hn : n ≤ cands.length) (h64 : n ≤ 64) :
    ∃ (chosen : List CBlockIndex) (s : ModifierState), chosen.length = n ∧ chosen.Nodup ∧
      SelectsAll hash fTestNet cands nSelectionIntervalStart nStakeModifier chosen ∧
      (List.range n).foldlM (selectRound hash fTestNet find (cands.map CBlockIndex.stamp)
        nStakeModifier) { nSelectionIntervalStop := nSelectionIntervalStart } = some s ∧
      s.nSelectionIntervalStop = selectionStop fTestNet nSelectionIntervalStart n ∧
      s.mapSelectedBlocks = (chosen.map CBlockIndex.phashBlock).reverse ∧
      ∀ k < 64, s.nStakeModifierNew.toBitVec.getLsbD k =
        chosen[k]?.any fun p => p.getStakeEntropyBit != 0 := by
  induction n with
  | zero =>
    exact ⟨[], _, rfl, List.nodup_nil, fun k p h => by simp at h, rfl, rfl, rfl,
      fun k hk => by simp⟩
  | succ n ih =>
    obtain ⟨chosen, s, hlength, hdistinct, hall, hrounds, hstop, hmap, hbits⟩ :=
      ih (Nat.le_of_succ_le hn) (Nat.le_of_succ_le h64)
    have hsub : ∀ p ∈ chosen, p ∈ cands := by
      intro p hp
      obtain ⟨k, hk⟩ := List.mem_iff_getElem?.mp hp
      exact (hall k p hk).mem
    have hleft : ∃ p ∈ cands, p ∉ chosen := by
      by_contra hnone
      have hsubset : cands ⊆ chosen := fun p hp => by
        by_contra hnot
        exact hnone ⟨p, hp, hnot⟩
      have hle := (List.subperm_of_subset hnodup hsubset).length_le
      omega
    obtain ⟨p, hround, hselects⟩ := @selectBlockFromCandidates_selects hash find
      s.mapSelectedBlocks (selectionStop fTestNet nSelectionIntervalStart (n + 1)) nStakeModifier
      cands chosen hfind hsorted hsub hleft fun h => by
        rw [hmap, List.contains_iff_mem, List.mem_reverse]
    have hnext : selectRound hash fTestNet find (cands.map CBlockIndex.stamp) nStakeModifier s n =
        some { nSelectionIntervalStop := selectionStop fTestNet nSelectionIntervalStart (n + 1)
               mapSelectedBlocks := p.phashBlock :: s.mapSelectedBlocks
               nStakeModifierNew := s.nStakeModifierNew |||
                 (p.getStakeEntropyBit.toUInt64 <<< UInt64.ofNat n) } := by
      rw [selectRound, hstop, ← selectionStop_succ, hround]
      rfl
    refine ⟨chosen ++ [p],
      { nSelectionIntervalStop := selectionStop fTestNet nSelectionIntervalStart (n + 1)
        mapSelectedBlocks := p.phashBlock :: s.mapSelectedBlocks
        nStakeModifierNew := s.nStakeModifierNew |||
          (p.getStakeEntropyBit.toUInt64 <<< UInt64.ofNat n) }, ?_, ?_, ?_, ?_, rfl, ?_, ?_⟩
    · rw [List.length_append, hlength, List.length_singleton]
    · rw [List.nodup_append]
      refine ⟨hdistinct, List.nodup_singleton p, fun a ha b hb => ?_⟩
      rw [List.mem_singleton.mp hb]
      exact ne_of_mem_of_not_mem ha hselects.not_selected
    · intro k q hk
      rcases Nat.lt_or_ge k chosen.length with hlt | hge
      · rw [List.getElem?_append_left hlt] at hk
        rw [List.take_append_of_le_length hlt.le]
        exact hall k q hk
      · obtain rfl : k = chosen.length := by
          have hlt := (List.getElem?_eq_some_iff.mp hk).1
          rw [List.length_append, List.length_singleton] at hlt
          omega
        rw [List.getElem?_append_right le_rfl, Nat.sub_self] at hk
        cases hk
        rw [List.take_left, hlength]
        exact hselects
    · rw [List.range_succ, List.foldlM_append, hrounds]
      exact (congrArg (· >>= pure) hnext)
    · rw [hmap, List.map_append, List.reverse_append]
      rfl
    · intro k hk
      rw [getLsbD_or_bit _ (getStakeEntropyBit_cases p) (by omega) hk, hbits k hk]
      rcases Nat.lt_trichotomy k n with hlt | rfl | hgt
      · have hne : k ≠ n := hlt.ne
        rw [List.getElem?_append_left (hlength.symm ▸ hlt), decide_eq_false hne, Bool.false_and,
          Bool.or_false]
      · have hend : chosen[k]? = none := List.getElem?_eq_none hlength.le
        have hlast : (chosen ++ [p])[k]? = some p := by
          rw [List.getElem?_append_right hlength.le, hlength, Nat.sub_self]
          rfl
        rw [hend, hlast, decide_eq_true rfl, Bool.true_and]
        rfl
      · have hne : k ≠ n := hgt.ne'
        have hend : chosen[k]? = none := List.getElem?_eq_none (hlength.le.trans hgt.le)
        have hend' : (chosen ++ [p])[k]? = none := by
          refine List.getElem?_eq_none ?_
          rw [List.length_append, hlength]
          exact hgt
        rw [hend, hend', decide_eq_false hne, Bool.false_and, Bool.or_false]

end Rounds

/-! ## A new modifier -/

/-- The hashes on a walk are those at which it finds its indices. -/
lemma BlockTree.Rooted.nodup_past {tree : BlockTree} {h : UInt256} (hroot : tree.Rooted)
    (hk : h = 0 ∨ h ∈ tree.mapBlockIndex) : ((tree.past h).map CBlockIndex.phashBlock).Nodup := by
  have hwalk := hroot.walks_past hk
  have hkeys : (tree.past h).map CBlockIndex.phashBlock =
      LinkWalk.keys CBlockIndex.pprev h (tree.past h) := by
    clear hk
    generalize tree.past h = l at hwalk
    induction hwalk with
    | stop => rfl
    | @step k t l hsome hrest ih =>
      rw [List.map_cons, LinkWalk.keys, hroot.phashBlock k t (BlockTree.find_eq_some.mp hsome).2]
      exact congrArg _ ih
  rw [hkeys]
  exact hwalk.nodup_keys

/-- The start of the interval that the candidates for the modifier after a block are from. -/
def selectionStart (fTestNet : Bool) (pindexPrev : CBlockIndex) : Int64 :=
  pindexPrev.getBlockTime / timeOf (getIntervalVersion fTestNet) *
    timeOf (getIntervalVersion fTestNet) - getStakeModifierSelectionInterval fTestNet

/-- When a new modifier is due after a block, as many rounds as there are candidates, 64 at most,
select distinct candidates, and bit `k` of the modifier is the entropy bit of the block that round
`k` has selected. -/
theorem computeNextStakeModifier_selects (hash : Bytes → UInt256) (fTestNet : Bool)
    (tree : BlockTree) (h : UInt256) (pindexPrev : CBlockIndex) (nStakeModifier : UInt64)
    (nModifierTime : Int64) (hroot : tree.Rooted) (hfound : tree.find h = some pindexPrev)
    (hlast : getLastStakeModifier (tree.past h) = some (nStakeModifier, nModifierTime))
    (hdue : nModifierTime / timeOf (getIntervalVersion fTestNet) <
      pindexPrev.getBlockTime / timeOf (getIntervalVersion fTestNet)) :
    ∃ (chosen : List CBlockIndex) (nStakeModifierNew : UInt64),
      computeNextStakeModifier hash fTestNet tree.find (tree.past h) =
        some (nStakeModifierNew, true) ∧
      chosen.length = min 64 (candidates (selectionStart fTestNet pindexPrev) (tree.past h)).length ∧
      chosen.Nodup ∧
      SelectsAll hash fTestNet (candidates (selectionStart fTestNet pindexPrev) (tree.past h))
        (selectionStart fTestNet pindexPrev) nStakeModifier chosen ∧
      ∀ k < 64, nStakeModifierNew.toBitVec.getLsbD k =
        chosen[k]?.any fun p => p.getStakeEntropyBit != 0 := by
  have hknown : h = 0 ∨ h ∈ tree.mapBlockIndex := by
    have hget := (BlockTree.find_eq_some.mp hfound).2
    right
    rw [Std.ExtTreeMap.mem_iff_isSome_getElem?, hget]
    rfl
  obtain ⟨start, hstart⟩ : ∃ start, start = selectionStart fTestNet pindexPrev := ⟨_, rfl⟩
  have hpast := hroot.past_eq_cons hfound
  have hsame : ∀ p, p ∈ sortedCandidates start (tree.past h) ↔ p ∈ candidates start (tree.past h) :=
    fun p => mem_sortedCandidates
  have hlength : (sortedCandidates start (tree.past h)).length =
      (candidates start (tree.past h)).length := by
    rw [sortedCandidates, List.length_insertionSort, List.length_reverse]
  have hnodup : (sortedCandidates start (tree.past h)).Nodup := by
    rw [sortedCandidates, (List.perm_insertionSort _ _).nodup_iff, List.nodup_reverse]
    exact ((List.takeWhile_prefix _).sublist).nodup (List.Nodup.of_map _ (hroot.nodup_past hknown))
  have hfind : ∀ p ∈ sortedCandidates start (tree.past h), tree.find p.phashBlock = some p := by
    intro p hp
    have hmem := (hsame p).mp hp
    exact hroot.find_of_mem_past hknown ((List.takeWhile_prefix _).subset hmem)
  obtain ⟨chosen, s, hchosen, hdistinct, hall, hrounds, -, -, hbits⟩ := @selectRounds hash fTestNet
    tree.find _ start nStakeModifier hfind (List.pairwise_insertionSort _ _) hnodup
    (min 64 (sortedCandidates start (tree.past h)).length) (min_le_right _ _) (min_le_left _ _)
  refine ⟨chosen, s.nStakeModifierNew, ?_, ?_, hdistinct, ?_, hbits⟩
  · rw [hpast] at hlast hrounds ⊢
    rw [computeNextStakeModifier, hlast]
    dsimp only
    rw [if_neg (Int64.not_le.mpr hdue), ← selectionStart, ← hstart, candidatesFrom_eq,
      List.length_map, hrounds]
    rfl
  · rw [hchosen, hlength, hstart]
  · rw [← hstart]
    exact hall.congr hsame

/-- The genesis block, with the first modifier, and a block more than an interval of the test network
later. -/
def dueTree : BlockTree :=
  (({} : BlockTree).insertIndex 2 { phashBlock := 2, nTime := 1424304823, nFlags := 4 }).insertIndex
    3 { phashBlock := 3, pprev := 2, nHeight := 1, nTime := 1424304923, nFlags := 2 }

lemma rooted_dueTree : dueTree.Rooted := by
  have h := BlockTree.Rooted.empty.added (BlockTree.added_insertIndex {} 2
    ({ phashBlock := 2, nTime := 1424304823, nFlags := 4 } : CBlockIndex)) (by simp) rfl
    (Or.inl rfl)
  exact h.added (BlockTree.added_insertIndex _ 3
    ({ phashBlock := 3, pprev := 2, nHeight := 1, nTime := 1424304923, nFlags := 2 } : CBlockIndex))
    (by decide +kernel) rfl (Or.inr (by decide +kernel))

theorem computeNextStakeModifier_dueTree :
    ∃ (chosen : List CBlockIndex) (nStakeModifierNew : UInt64),
      computeNextStakeModifier sampleHash true dueTree.find (dueTree.past 3) =
        some (nStakeModifierNew, true) ∧ chosen.length = 2 ∧ chosen.Nodup ∧
      ∀ k < 64, nStakeModifierNew.toBitVec.getLsbD k =
        chosen[k]?.any fun p => p.getStakeEntropyBit != 0 := by
  have hsome : (dueTree.find 3).map CBlockIndex.getBlockTime = some 1424304923 := by decide +kernel
  obtain ⟨pindexPrev, hfound, htime⟩ := Option.map_eq_some_iff.mp hsome
  have hlast : getLastStakeModifier (dueTree.past 3) = some (0, 1424304823) := by decide +kernel
  obtain ⟨chosen, nStakeModifierNew, hnew, hlength, hnodup, -, hbits⟩ :=
    computeNextStakeModifier_selects sampleHash true dueTree 3 pindexPrev 0 1424304823
      rooted_dueTree hfound hlast (by rw [htime]; decide)
  refine ⟨chosen, nStakeModifierNew, hnew, ?_, hnodup, hbits⟩
  rw [hlength, selectionStart, htime]
  decide +kernel

end HyperStake
