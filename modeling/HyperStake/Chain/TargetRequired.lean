import HyperStake.Chain.CompactTarget

/-!
# The required target

`GetNextTargetRequired` computes the target of the next block of a kind, proof-of-work or
proof-of-stake, from that of the last block of the kind and from the time between the last two.  A
target is written in compact form, which cuts off all but its leading bytes.

The target moves by a ratio of two positive numbers, rounds down twice and is limited above only.
So it is positive exactly if the last one is, unless the last one is the smallest and the time was
short (`getNextTargetRequired_spec`), and blocks that follow each other fast enough lead from the
limit to a target of zero (`not_getNextTargetRequired_pos`).
-/

namespace HyperStake

/-! ## The required target -/

/-- The greatest target of a proof-of-work block, `~uint256(0) >> 20` on both networks. -/
def bnProofOfWorkLimit : ℤ := (~~~(0 : UInt256) >>> 20).toNat

/-- The greatest target of a proof-of-stake block, `~uint256(0) >> 20` on both networks. -/
def bnProofOfStakeLimit : ℤ := (~~~(0 : UInt256) >>> 20).toNat

/-- The seconds between two blocks that are aimed at, 90 on both networks. -/
def nStakeTargetSpacing : UInt32 := 90

def nTargetTimespan : Int64 := 60 * 60

def nTargetSpacingWorkMax : Int64 := timeOf (2 * nStakeTargetSpacing)

/-- The limit of `GetNextTargetRequired`. -/
def bnTargetLimit (fProofOfStake : Bool) : ℤ :=
  if fProofOfStake then bnProofOfStakeLimit else bnProofOfWorkLimit

/-- `GetLastBlockIndex` from the first of some indices, each followed by its ancestors: the index
and its ancestors. -/
def getLastBlockIndex (fProofOfStake : Bool) : List CBlockIndex → List CBlockIndex
  | pindex :: pprev :: past =>
    if pindex.isProofOfStake ≠ fProofOfStake then getLastBlockIndex fProofOfStake (pprev :: past)
    else pindex :: pprev :: past
  | past => past

/-- `nActualSpacing` between two blocks, as it is corrected. -/
def actualSpacing (pindexPrev pindexPrevPrev : CBlockIndex) : Int64 :=
  let nActualSpacing := pindexPrev.getBlockTime - pindexPrevPrev.getBlockTime
  if nActualSpacing < 0 then 1
  else if nActualSpacing > nTargetTimespan then nTargetTimespan
  else nActualSpacing

/-- `nTargetSpacing` of the block after an index, if another index is the last one of its kind. -/
def targetSpacing (fProofOfStake : Bool) (pindexLast pindexPrev : CBlockIndex) : Int64 :=
  if fProofOfStake then timeOf nStakeTargetSpacing
  else min nTargetSpacingWorkMax
    (timeOf nStakeTargetSpacing * (1 + pindexLast.nHeight - pindexPrev.nHeight).toInt64)

/-- The exponential moving toward the target spacing, up to the limit. -/
def retarget (bnTargetLimit : ℤ) (nTargetSpacing nActualSpacing : Int64) (bnNew : ℤ) :
    Except Fault ℤ :=
  if nTargetSpacing == 0 then .error .undefined
  else
    let nInterval := nTargetTimespan / nTargetSpacing
    let bnNew :=
      bnNew * ((nInterval - 1) * nTargetSpacing + nActualSpacing + nActualSpacing).toInt
    -- a division of big numbers by zero throws an exception
    if (nInterval + 1) * nTargetSpacing == 0 then .error .runtimeError
    else
      let bnNew := bnNew.tdiv ((nInterval + 1) * nTargetSpacing).toInt
      .ok (if bnNew > bnTargetLimit then bnTargetLimit else bnNew)

/-- `GetNextTargetRequired` after some indices, nearest first: the target of the next block of a
kind, in compact form. -/
def getNextTargetRequired (past : List CBlockIndex) (fProofOfStake : Bool) :
    Except Fault UInt32 :=
  match past with
  -- genesis block
  | [] => .ok (getCompact (bnTargetLimit fProofOfStake))
  | pindexLast :: _ =>
    match getLastBlockIndex fProofOfStake past with
    | [] => .error .undefined
    -- first block
    | [_] => .ok (getCompact (bnTargetLimit fProofOfStake))
    | pindexPrev :: pprev =>
      match getLastBlockIndex fProofOfStake pprev with
      | [] => .error .undefined
      -- second block
      | [_] => .ok (getCompact (bnTargetLimit fProofOfStake))
      | pindexPrevPrev :: _ => do
        let bnNew ← retarget (bnTargetLimit fProofOfStake)
          (targetSpacing fProofOfStake pindexLast pindexPrev)
          (actualSpacing pindexPrev pindexPrevPrev) (setCompact pindexPrev.nBits)
        return getCompact bnNew

lemma bnTargetLimit_eq (fProofOfStake : Bool) :
    bnTargetLimit fProofOfStake = (2 ^ 236 - 1 : ℕ) := by
  cases fProofOfStake <;> rfl

/-- The time between two blocks is corrected to at most an hour. -/
lemma actualSpacing_bounds (pindexPrev pindexPrevPrev : CBlockIndex) :
    0 ≤ (actualSpacing pindexPrev pindexPrevPrev).toInt ∧
      (actualSpacing pindexPrev pindexPrevPrev).toInt ≤ 3600 := by
  have htimespan : nTargetTimespan.toInt = 3600 := rfl
  rw [actualSpacing]
  split_ifs with hneg hlong
  · decide
  · decide
  · rw [Int64.lt_iff_toInt_lt, Int64.toInt_zero] at hneg
    rw [gt_iff_lt, Int64.lt_iff_toInt_lt, htimespan] at hlong
    omega

/-- The heights of a chain go down to zero one by one. -/
structure Numbered (past : List CBlockIndex) : Prop where
  step : past.IsChain fun p q => p.nHeight.toInt = q.nHeight.toInt + 1
  first : ∀ p ∈ past.getLast?, p.nHeight = 0

namespace Numbered

variable {past : List CBlockIndex} {p q : CBlockIndex}

lemma tail (h : Numbered (p :: q :: past)) : Numbered (q :: past) := by
  refine ⟨h.step.tail, fun a ha => h.first a ?_⟩
  rwa [List.getLast?_cons_cons]

lemma of_suffix {past' : List CBlockIndex} (h : Numbered past) (hsuffix : past' <:+ past)
    (hne : past' ≠ []) : Numbered past' := by
  refine ⟨h.step.suffix hsuffix, fun a ha => h.first a ?_⟩
  obtain ⟨before, rfl⟩ := hsuffix
  rwa [List.getLast?_append_of_ne_nil _ hne]

lemma nonneg (h : Numbered (p :: past)) : 0 ≤ p.nHeight.toInt := by
  induction past generalizing p with
  | nil =>
    rw [h.first p (by simp)]
    decide
  | cons q past ih =>
    have hstep := (List.isChain_cons_cons.mp h.step).1
    have hq := ih h.tail
    omega

/-- A block that is not the first one has a height of at least one. -/
lemma pos (h : Numbered (p :: q :: past)) : 0 < p.nHeight.toInt := by
  have hstep := (List.isChain_cons_cons.mp h.step).1
  have hq := h.tail.nonneg
  omega

/-- No block of a chain is higher than its last one. -/
lemma le_of_mem (h : Numbered (p :: past)) (hq : q ∈ p :: past) :
    q.nHeight.toInt ≤ p.nHeight.toInt := by
  induction past generalizing p with
  | nil =>
    rw [List.mem_singleton.mp hq]
  | cons r past ih =>
    have hstep := (List.isChain_cons_cons.mp h.step).1
    rcases List.mem_cons.mp hq with rfl | hq
    · exact le_rfl
    · have hle := ih h.tail hq
      omega

end Numbered

/-- The target spacing is that of a block or, for proof-of-work, that of two. -/
lemma targetSpacing_eq (fProofOfStake : Bool) {pindexLast pindexPrev : CBlockIndex}
    (hpos : 0 < pindexPrev.nHeight.toInt)
    (hle : pindexPrev.nHeight.toInt ≤ pindexLast.nHeight.toInt) :
    targetSpacing fProofOfStake pindexLast pindexPrev = 90 ∨
      targetSpacing fProofOfStake pindexLast pindexPrev = 180 := by
  cases fProofOfStake with
  | true => exact Or.inl rfl
  | false =>
    have hlt := pindexLast.nHeight.toInt_lt
    have hnumber : (1 + pindexLast.nHeight - pindexPrev.nHeight).toInt
        = 1 + (pindexLast.nHeight.toInt - pindexPrev.nHeight.toInt) := by
      rw [Int32.toInt_sub, Int32.toInt_add, Int.bmod_sub_bmod, Int32.toInt_one, Int.add_sub_assoc]
      exact Int.bmod_eq_of_le (by omega) (by omega)
    have hproduct : (timeOf nStakeTargetSpacing *
        (1 + pindexLast.nHeight - pindexPrev.nHeight).toInt64).toInt
          = 90 * (1 + (pindexLast.nHeight.toInt - pindexPrev.nHeight.toInt)) := by
      rw [Int64.toInt_mul, Int32.toInt_toInt64, hnumber,
        show (timeOf nStakeTargetSpacing).toInt = 90 from rfl]
      exact Int64Sum.bmod_eq_of_inRange ⟨by omega, by omega⟩
    have hmin : (targetSpacing false pindexLast pindexPrev).toInt
        = min 180 (90 * (1 + (pindexLast.nHeight.toInt - pindexPrev.nHeight.toInt))) := by
      rw [targetSpacing, if_neg Bool.false_ne_true, Int64Sum.toInt_min, hproduct]
      rfl
    rw [← Int64.toInt_inj, ← Int64.toInt_inj, hmin, show (90 : Int64).toInt = 90 from rfl,
      show (180 : Int64).toInt = 180 from rfl]
    omega

/-- The retargeting divides by the sum of the time span and the target spacing. -/
lemma retarget_eq {nTargetSpacing nActualSpacing : Int64}
    (hspacing : nTargetSpacing = 90 ∨ nTargetSpacing = 180) (hnonneg : 0 ≤ nActualSpacing.toInt)
    (hle : nActualSpacing.toInt ≤ 3600) (limit bnNew : ℤ) :
    retarget limit nTargetSpacing nActualSpacing bnNew = .ok (min limit
      ((bnNew * (3600 - nTargetSpacing.toInt + 2 * nActualSpacing.toInt)).tdiv
        (3600 + nTargetSpacing.toInt))) := by
  have hfactor : ((nTargetTimespan / nTargetSpacing - 1) * nTargetSpacing + nActualSpacing +
      nActualSpacing).toInt = 3600 - nTargetSpacing.toInt + 2 * nActualSpacing.toInt := by
    have hbase : ((nTargetTimespan / nTargetSpacing - 1) * nTargetSpacing).toInt
        = 3600 - nTargetSpacing.toInt := by
      rcases hspacing with rfl | rfl <;> rfl
    have hbound : 0 ≤ nTargetSpacing.toInt ∧ nTargetSpacing.toInt ≤ 180 := by
      rcases hspacing with rfl | rfl <;> decide
    have hfirst := Int64Sum.toInt_add (a := (nTargetTimespan / nTargetSpacing - 1) * nTargetSpacing)
      (b := nActualSpacing) ⟨by omega, by omega⟩
    rw [Int64Sum.toInt_add ⟨by omega, by omega⟩, hfirst, hbase]
    omega
  have hdivisor : ((nTargetTimespan / nTargetSpacing + 1) * nTargetSpacing).toInt
      = 3600 + nTargetSpacing.toInt := by
    rcases hspacing with rfl | rfl <;> rfl
  have hne : (nTargetSpacing == 0) = false ∧
      ((nTargetTimespan / nTargetSpacing + 1) * nTargetSpacing == 0) = false := by
    rcases hspacing with rfl | rfl <;> decide
  rw [retarget]
  simp only [hne, Bool.false_eq_true, if_false, hfactor, hdivisor]
  rw [min_def]
  congr 1
  split_ifs <;> omega

/-- The compact form of a target up to the limit. -/
lemma setCompact_getCompact_of_le {bn : ℤ} (hle : bn ≤ (2 ^ 236 - 1 : ℕ)) :
    setCompact (getCompact bn) ≤ max bn 0 ∧ (0 < setCompact (getCompact bn) ↔ 0 < bn) ∧
      (0 ≤ bn → 0 ≤ setCompact (getCompact bn)) := by
  rcases lt_or_ge bn 0 with hneg | hnonneg
  · have hsign := setCompact_getCompact_of_neg hneg
    omega
  · obtain ⟨n, rfl⟩ := Int.eq_ofNat_of_zero_le hnonneg
    have hn : n < 256 ^ 254 :=
      calc n ≤ 2 ^ 236 - 1 := by exact_mod_cast hle
        _ < 256 ^ 254 := by norm_num
    obtain ⟨hzero, hcut, hpos⟩ := setCompact_getCompact hn
    refine ⟨by omega, by omega, fun _ => hzero⟩

/-- A target that is moved is positive unless it is the smallest and the time was short. -/
lemma retarget_pos_iff {bn nSpacing nActual : ℤ} (hspacing : nSpacing = 90 ∨ nSpacing = 180)
    (hnonneg : 0 ≤ nActual) :
    0 < (bn * (3600 - nSpacing + 2 * nActual)).tdiv (3600 + nSpacing) ↔
      2 ≤ bn ∨ bn = 1 ∧ nSpacing ≤ nActual := by
  have hfactor : 0 < 3600 - nSpacing + 2 * nActual := by omega
  have hdivisor : 0 < 3600 + nSpacing := by omega
  rcases lt_or_ge bn 0 with hneg | hbn
  · have hopposite : 0 ≤ (-(bn * (3600 - nSpacing + 2 * nActual))).tdiv (3600 + nSpacing) :=
      Int.tdiv_nonneg (by nlinarith) hdivisor.le
    rw [Int.neg_tdiv] at hopposite
    omega
  · rw [Int.tdiv_eq_ediv_of_nonneg (mul_nonneg hbn hfactor.le), ← Int.add_one_le_iff,
      zero_add, Int.le_ediv_iff_mul_le hdivisor, one_mul]
    constructor
    · intro h
      rcases lt_or_ge bn 2 with hsmall | hlarge
      · obtain rfl | rfl : bn = 0 ∨ bn = 1 := by omega
        · omega
        · omega
      · exact Or.inl hlarge
    · rintro (hlarge | ⟨rfl, hlong⟩)
      · have hdouble := mul_le_mul_of_nonneg_right hlarge hfactor.le
        omega
      · omega

/-- The blocks of a kind after the genesis block, nearest first. -/
def ofKind (fProofOfStake : Bool) (past : List CBlockIndex) : List CBlockIndex :=
  past.dropLast.filter fun pindex => pindex.isProofOfStake == fProofOfStake

section LastBlockIndex

variable {fProofOfStake : Bool} {past rest : List CBlockIndex} {p : CBlockIndex}

/-- Without a block of the kind, the search ends at the genesis block. -/
lemma getLastBlockIndex_of_nil (hne : past ≠ []) (h : ofKind fProofOfStake past = []) :
    ∃ genesis, getLastBlockIndex fProofOfStake past = [genesis] := by
  induction past with
  | nil => exact absurd rfl hne
  | cons pindex past ih =>
    cases past with
    | nil => exact ⟨pindex, rfl⟩
    | cons pprev past =>
      rw [ofKind, List.dropLast_cons_cons] at h
      by_cases hkind : pindex.isProofOfStake = fProofOfStake
      · rw [List.filter_cons_of_pos (by simpa using hkind)] at h
        cases h
      · rw [List.filter_cons_of_neg (by simpa using hkind)] at h
        rw [getLastBlockIndex, if_pos hkind]
        exact ih (List.cons_ne_nil _ _) h

/-- The search ends at the last block of the kind. -/
lemma getLastBlockIndex_of_cons (h : ofKind fProofOfStake past = p :: rest) :
    p.isProofOfStake = fProofOfStake ∧ ∃ pprev, getLastBlockIndex fProofOfStake past = p :: pprev ∧
      pprev ≠ [] ∧ p :: pprev <:+ past ∧ ofKind fProofOfStake pprev = rest := by
  induction past with
  | nil => cases h
  | cons pindex past ih =>
    cases past with
    | nil => cases h
    | cons pprev past =>
      rw [ofKind, List.dropLast_cons_cons] at h
      rw [getLastBlockIndex]
      by_cases hkind : pindex.isProofOfStake = fProofOfStake
      · rw [List.filter_cons_of_pos (by simpa using hkind)] at h
        injection h with hp hrest
        subst hp
        rw [if_neg (by simpa using hkind)]
        exact ⟨hkind, pprev :: past, rfl, List.cons_ne_nil _ _, List.suffix_rfl, hrest⟩
      · rw [List.filter_cons_of_neg (by simpa using hkind)] at h
        obtain ⟨hp, pprev', hlast, hne, hsuffix, hrest⟩ := ih h
        rw [if_pos hkind]
        exact ⟨hp, pprev', hlast, hne, hsuffix.trans (List.suffix_cons _ _), hrest⟩

end LastBlockIndex

/-- What `GetNextTargetRequired` returns: the limit after fewer than two blocks of the kind, and
otherwise the target of the last one as it is moved. -/
lemma getNextTargetRequired_cases {past : List CBlockIndex} (hnum : Numbered past)
    (fProofOfStake : Bool) :
    ((ofKind fProofOfStake past).length < 2 ∧ getNextTargetRequired past fProofOfStake
        = .ok (getCompact (bnTargetLimit fProofOfStake))) ∨
      ∃ pindexLast p q pprev rest, past.head? = some pindexLast ∧ p :: pprev <:+ past ∧
        pprev ≠ [] ∧ p.isProofOfStake = fProofOfStake ∧
        ofKind fProofOfStake past = p :: q :: rest ∧
        (targetSpacing fProofOfStake pindexLast p = 90 ∨
          targetSpacing fProofOfStake pindexLast p = 180) ∧
        getNextTargetRequired past fProofOfStake = .ok (getCompact (min
          (bnTargetLimit fProofOfStake)
          ((setCompact p.nBits * (3600 - (targetSpacing fProofOfStake pindexLast p).toInt +
            2 * (actualSpacing p q).toInt)).tdiv
              (3600 + (targetSpacing fProofOfStake pindexLast p).toInt)))) := by
  cases past with
  | nil => exact Or.inl ⟨Nat.zero_lt_two, rfl⟩
  | cons pindexLast before =>
    cases hkind : ofKind fProofOfStake (pindexLast :: before) with
    | nil =>
      obtain ⟨genesis, hlast⟩ := getLastBlockIndex_of_nil (List.cons_ne_nil _ _) hkind
      refine Or.inl ⟨Nat.zero_lt_two, ?_⟩
      rw [getNextTargetRequired, hlast]
    | cons p kind =>
      obtain ⟨hp, pprev, hlast, hpprev, hsuffix, hrest⟩ := getLastBlockIndex_of_cons hkind
      obtain ⟨r, pprev', rfl⟩ := List.exists_cons_of_ne_nil hpprev
      cases kind with
      | nil =>
        obtain ⟨genesis, hlast'⟩ := getLastBlockIndex_of_nil hpprev hrest
        refine Or.inl ⟨Nat.one_lt_two, ?_⟩
        simp only [getNextTargetRequired, hlast, hlast']
      | cons q rest =>
        obtain ⟨-, qprev, hlast', hqprev, -, -⟩ := getLastBlockIndex_of_cons hrest
        obtain ⟨t, qprev', rfl⟩ := List.exists_cons_of_ne_nil hqprev
        have hheights := hnum.of_suffix hsuffix (List.cons_ne_nil _ _)
        have hspacing := targetSpacing_eq fProofOfStake hheights.pos
          (hnum.le_of_mem (hsuffix.subset List.mem_cons_self))
        have hactual := actualSpacing_bounds p q
        refine Or.inr ⟨pindexLast, p, q, r :: pprev', rest, rfl, hsuffix, hpprev, hp, rfl, hspacing,
          ?_⟩
        simp only [getNextTargetRequired, hlast, hlast']
        rw [retarget_eq hspacing hactual.1 hactual.2]
        rfl

/-- Every block of a chain after the genesis block has the target that is required of it, as
`AcceptBlock` checks. -/
def RequiredBits (past : List CBlockIndex) : Prop :=
  ∀ (p : CBlockIndex) (pprev : List CBlockIndex), p :: pprev <:+ past → pprev ≠ [] →
    getNextTargetRequired pprev p.isProofOfStake = .ok p.nBits

/-- The targets of a chain with the required targets are not negative, and nor is the next one. -/
lemma RequiredBits.nonneg {past : List CBlockIndex} (hreq : RequiredBits past)
    (hnum : Numbered past) {fProofOfStake : Bool} {nBits : UInt32}
    (hnext : getNextTargetRequired past fProofOfStake = .ok nBits) : 0 ≤ setCompact nBits := by
  induction hlength : past.length using Nat.strong_induction_on
    generalizing past fProofOfStake nBits with
  | _ n ih =>
    have hlimit := bnTargetLimit_eq fProofOfStake
    rcases getNextTargetRequired_cases hnum fProofOfStake with
      ⟨-, heq⟩ | ⟨pindexLast, p, q, pprev, rest, -, hsuffix, hne, hp, -, hspacing, heq⟩
    · cases hnext.symm.trans heq
      exact (setCompact_getCompact_of_le hlimit.le).2.2 (by omega)
    · cases hnext.symm.trans heq
      have hlast := hreq p pprev hsuffix hne
      have hbefore : pprev <:+ past := (List.suffix_cons p pprev).trans hsuffix
      have hshorter : pprev.length < n := by
        have hle := hsuffix.length_le
        rw [List.length_cons] at hle
        omega
      have htarget : 0 ≤ setCompact p.nBits :=
        ih pprev.length hshorter (fun r rprev hr => hreq r rprev (hr.trans hbefore))
          (hnum.of_suffix hbefore hne) hlast rfl
      have hactual := actualSpacing_bounds p q
      apply (setCompact_getCompact_of_le (hlimit ▸ min_le_left _ _)).2.2
      apply le_min (by omega)
      have hbound : 0 ≤ (targetSpacing fProofOfStake pindexLast p).toInt ∧
          (targetSpacing fProofOfStake pindexLast p).toInt ≤ 180 := by
        rcases hspacing with h | h <;> rw [h] <;> decide
      exact Int.tdiv_nonneg (mul_nonneg htarget (by omega)) (by omega)

/-- The required target is never above the limit, and it is positive unless the last block of the
kind has no positive target, or has the smallest one and came early. -/
theorem getNextTargetRequired_spec {past : List CBlockIndex} (hnum : Numbered past)
    (fProofOfStake : Bool) :
    ∃ nBits, getNextTargetRequired past fProofOfStake = .ok nBits ∧
      setCompact nBits ≤ bnTargetLimit fProofOfStake ∧
      (RequiredBits past → 0 ≤ setCompact nBits) ∧
      (0 < setCompact nBits ↔ ∀ pindexLast ∈ past.head?, ∀ p q rest,
        ofKind fProofOfStake past = p :: q :: rest →
          2 ≤ setCompact p.nBits ∨
            setCompact p.nBits = 1 ∧
              targetSpacing fProofOfStake pindexLast p ≤ actualSpacing p q) := by
  have hlimit := bnTargetLimit_eq fProofOfStake
  rcases getNextTargetRequired_cases hnum fProofOfStake with
    ⟨hfew, heq⟩ | ⟨pindexLast, p, q, pprev, rest, hhead, -, -, -, hkind, hspacing, heq⟩
  · obtain ⟨hle, hpos, -⟩ := setCompact_getCompact_of_le hlimit.le
    refine ⟨_, heq, by omega, fun hreq => hreq.nonneg hnum heq, ?_⟩
    refine iff_of_true (hpos.mpr (by omega)) ?_
    intro pindexLast _ p q rest hkind
    rw [hkind] at hfew
    simp at hfew
  · have hmin := min_le_left (bnTargetLimit fProofOfStake)
      ((setCompact p.nBits * (3600 - (targetSpacing fProofOfStake pindexLast p).toInt +
        2 * (actualSpacing p q).toInt)).tdiv
          (3600 + (targetSpacing fProofOfStake pindexLast p).toInt))
    obtain ⟨hle, hpos, -⟩ := setCompact_getCompact_of_le (hmin.trans hlimit.le)
    have hspacing' : (targetSpacing fProofOfStake pindexLast p).toInt = 90 ∨
        (targetSpacing fProofOfStake pindexLast p).toInt = 180 :=
      hspacing.imp (fun h => congrArg Int64.toInt h) fun h => congrArg Int64.toInt h
    refine ⟨_, heq, by omega, fun hreq => hreq.nonneg hnum heq, ?_⟩
    rw [hpos, lt_min_iff, retarget_pos_iff hspacing' (actualSpacing_bounds p q).1,
      ← Int64.le_iff_toInt_le]
    constructor
    · rintro ⟨-, hmoved⟩ pindexLast' hlast p' q' rest' hkind'
      cases hhead.symm.trans hlast
      cases hkind.symm.trans hkind'
      exact hmoved
    · intro h
      exact ⟨by omega, h pindexLast hhead p q rest hkind⟩

/-! ## A chain of fast blocks -/

/-- A proof-of-stake block a second after the last block, with the target that is required of it. -/
def nextStake (past : List CBlockIndex) : CBlockIndex where
  nHeight := Int32.ofNat past.length
  nTime := 1401331400 + UInt32.ofNat past.length
  nFlags := BLOCK_PROOF_OF_STAKE
  nBits := ((getNextTargetRequired past true).toOption).getD 0

/-- A genesis block and a number of proof-of-stake blocks, each a second after the one before. -/
def fastChain : ℕ → List CBlockIndex
  | 0 => [{ nTime := 1401331400 }]
  | n + 1 => nextStake (fastChain n) :: fastChain n

lemma length_fastChain (n : ℕ) : (fastChain n).length = n + 1 := by
  induction n with
  | zero => rfl
  | succ n ih => rw [fastChain, List.length_cons, ih]

lemma fastChain_ne_nil (n : ℕ) : fastChain n ≠ [] := by
  rw [← List.length_pos_iff, length_fastChain]
  omega

lemma nextStake_isProofOfStake (past : List CBlockIndex) : (nextStake past).isProofOfStake = true :=
  show (BLOCK_PROOF_OF_STAKE &&& BLOCK_PROOF_OF_STAKE != 0) = true by decide

variable {n : ℕ}

lemma numbered_fastChain (hn : n < 2 ^ 31) : Numbered (fastChain n) := by
  have hheight : ∀ k, k < 2 ^ 31 → (Int32.ofNat k).toInt = k := fun k hk =>
    Int32.toInt_ofNat_of_lt hk
  induction n with
  | zero => exact ⟨List.isChain_singleton _, by simp [fastChain]⟩
  | succ n ih =>
    have hrest := ih (by omega)
    have hhead : ∀ p ∈ (fastChain n).head?, p.nHeight.toInt = n := by
      intro p hp
      cases n with
      | zero =>
        cases hp
        rfl
      | succ n =>
        cases hp
        rw [nextStake, length_fastChain]
        exact hheight _ (by omega)
    refine ⟨List.isChain_cons.mpr ⟨fun p hp => ?_, hrest.step⟩, fun p hp => hrest.first p ?_⟩
    · rw [hhead p hp, nextStake, length_fastChain, hheight _ (by omega)]
      push_cast
      ring
    · rwa [fastChain, ← List.singleton_append,
        List.getLast?_append_of_ne_nil _ (fastChain_ne_nil n)] at hp

/-- The required target of the next proof-of-stake block is known, and it is that of the block that
follows. -/
lemma nextStake_nBits (hn : n < 2 ^ 31) :
    getNextTargetRequired (fastChain n) true = .ok (nextStake (fastChain n)).nBits := by
  obtain ⟨nBits, hnext, -⟩ := getNextTargetRequired_spec (numbered_fastChain hn) true
  rw [nextStake, hnext]
  rfl

lemma requiredBits_fastChain (hn : n < 2 ^ 31) : RequiredBits (fastChain n) := by
  intro p pprev hsuffix hne
  induction n with
  | zero =>
    rcases List.suffix_cons_iff.mp hsuffix with heq | hnil
    · cases heq
      exact absurd rfl hne
    · cases List.suffix_nil.mp hnil
  | succ n ih =>
    rcases List.suffix_cons_iff.mp hsuffix with heq | hbefore
    · cases heq
      rw [nextStake_isProofOfStake]
      exact nextStake_nBits (by omega)
    · exact ih (by omega) hbefore

lemma ofKind_fastChain (n : ℕ) :
    ofKind true (fastChain (n + 1)) = nextStake (fastChain n) :: ofKind true (fastChain n) := by
  obtain ⟨p, past, hpast⟩ := List.exists_cons_of_ne_nil (fastChain_ne_nil n)
  rw [ofKind, fastChain, hpast, List.dropLast_cons_cons, List.filter_cons_of_pos]
  · rfl
  · rw [nextStake_isProofOfStake]
    rfl

lemma actualSpacing_fastChain (hn : n < 2 ^ 30) :
    actualSpacing (nextStake (fastChain (n + 1))) (nextStake (fastChain n)) = 1 := by
  have htime : ∀ k, k ≤ n + 1 → (nextStake (fastChain k)).getBlockTime.toInt = 1401331401 + k := by
    intro k hk
    rw [CBlockIndex.getBlockTime, toInt_timeOf, nextStake, length_fastChain, UInt32.toNat_add,
      UInt32.toNat_ofNat']
    have h : (1401331400 : UInt32).toNat = 1401331400 := rfl
    omega
  have hspacing : (nextStake (fastChain (n + 1))).getBlockTime -
      (nextStake (fastChain n)).getBlockTime = 1 := by
    have hnew := htime (n + 1) le_rfl
    have hold := htime n (by omega)
    apply Int64.toInt_inj.mp
    rw [Int64Sum.toInt_sub ⟨by omega, by omega⟩, hnew, hold, Int64.toInt_one]
    omega
  rw [actualSpacing, hspacing]
  rfl

/-- The target of each block of a fast chain from the third one on is less than that of the block
before it. -/
lemma nextStake_nBits_le (hn : n < 2 ^ 30) :
    setCompact (nextStake (fastChain (n + 2))).nBits * 3690 ≤
      setCompact (nextStake (fastChain (n + 1))).nBits * 3512 := by
  have hnum := numbered_fastChain (show n + 2 < 2 ^ 31 by omega)
  have hkind : ofKind true (fastChain (n + 2)) = nextStake (fastChain (n + 1)) ::
      nextStake (fastChain n) :: ofKind true (fastChain n) := by
    rw [ofKind_fastChain, ofKind_fastChain]
  have hnext := nextStake_nBits (show n + 2 < 2 ^ 31 by omega)
  have hnonneg : 0 ≤ setCompact (nextStake (fastChain (n + 1))).nBits :=
    (requiredBits_fastChain (by omega)).nonneg (numbered_fastChain (by omega))
      (nextStake_nBits (show n + 1 < 2 ^ 31 by omega))
  rcases getNextTargetRequired_cases hnum true with
    ⟨hfew, -⟩ | ⟨pindexLast, p, q, pprev, rest, -, -, -, -, hkind', -, heq⟩
  · rw [hkind] at hfew
    simp at hfew
  · cases hkind.symm.trans hkind'
    have hbits := Except.ok.inj (hnext.symm.trans heq)
    rw [actualSpacing_fastChain hn, show targetSpacing true pindexLast
      (nextStake (fastChain (n + 1))) = 90 from rfl, show (90 : Int64).toInt = 90 from rfl,
      Int64.toInt_one] at hbits
    have hlimit := bnTargetLimit_eq true
    have hcut := (setCompact_getCompact_of_le ((min_le_left (bnTargetLimit true)
      ((setCompact (nextStake (fastChain (n + 1))).nBits * (3600 - 90 + 2 * 1)).tdiv
        (3600 + 90))).trans hlimit.le)).1
    rw [← hbits] at hcut
    have hmoved := min_le_right (bnTargetLimit true)
      ((setCompact (nextStake (fastChain (n + 1))).nBits * (3600 - 90 + 2 * 1)).tdiv (3600 + 90))
    rw [Int.tdiv_eq_ediv_of_nonneg (by omega)] at hcut hmoved
    omega

/-- The target after three blocks of a fast chain. -/
theorem getNextTargetRequired_spec_fastChain :
    Numbered (fastChain 3) ∧ ∃ nBits, getNextTargetRequired (fastChain 3) true = .ok nBits ∧
      setCompact nBits ≤ bnTargetLimit true ∧ 0 < setCompact nBits := by
  have hnum := numbered_fastChain (show 3 < 2 ^ 31 by omega)
  obtain ⟨nBits, hnext, hle, -, hpos⟩ := getNextTargetRequired_spec hnum true
  refine ⟨hnum, nBits, hnext, hle, hpos.mpr fun pindexLast _ p q rest hkind => Or.inl ?_⟩
  cases (ofKind_fastChain 2).symm.trans hkind
  decide

/-- The targets of a fast chain shrink geometrically. -/
lemma nextStake_nBits_mul_le (hn : n < 2 ^ 30) :
    setCompact (nextStake (fastChain (n + 1))).nBits * 3690 ^ n ≤ (2 ^ 236 - 1) * 3512 ^ n := by
  induction n with
  | zero =>
    obtain ⟨nBits, hnext, hle, -⟩ :=
      getNextTargetRequired_spec (numbered_fastChain (show 0 + 1 < 2 ^ 31 by omega)) true
    have hbits := Except.ok.inj ((nextStake_nBits (by omega)).symm.trans hnext)
    rw [bnTargetLimit_eq, ← hbits] at hle
    rw [pow_zero, pow_zero, mul_one, mul_one]
    exact_mod_cast hle
  | succ n ih =>
    have hstep := nextStake_nBits_le (show n < 2 ^ 30 by omega)
    calc setCompact (nextStake (fastChain (n + 2))).nBits * 3690 ^ (n + 1)
        = setCompact (nextStake (fastChain (n + 2))).nBits * 3690 * 3690 ^ n := by ring
      _ ≤ setCompact (nextStake (fastChain (n + 1))).nBits * 3512 * 3690 ^ n := by gcongr
      _ = setCompact (nextStake (fastChain (n + 1))).nBits * 3690 ^ n * 3512 := by ring
      _ ≤ (2 ^ 236 - 1) * 3512 ^ n * 3512 :=
        mul_le_mul_of_nonneg_right (ih (by omega)) (by norm_num)
      _ = (2 ^ 236 - 1) * 3512 ^ (n + 1) := by ring

/-- After 3541 proof-of-stake blocks that follow each other every second, the required target of the
next one is not positive. -/
theorem not_getNextTargetRequired_pos :
    Numbered (fastChain 3541) ∧ RequiredBits (fastChain 3541) ∧
      ∃ nBits, getNextTargetRequired (fastChain 3541) true = .ok nBits ∧
        ¬ 0 < setCompact nBits := by
  refine ⟨numbered_fastChain (by omega), requiredBits_fastChain (by omega), _,
    nextStake_nBits (by omega), fun hpos => ?_⟩
  have hshrunk := nextStake_nBits_mul_le (show 3540 < 2 ^ 30 by omega)
  -- the target is halved every 15 blocks, and so 236 times
  have hhalf : (2 * 3512 ^ 15 : ℤ) ^ 236 ≤ (3690 ^ 15) ^ 236 :=
    pow_le_pow_left₀ (by norm_num) (by norm_num) 236
  rw [mul_pow, ← pow_mul, ← pow_mul, show 15 * 236 = 3540 from rfl] at hhalf
  have hsmall : (0 : ℤ) < 3512 ^ 3540 := by positivity
  have hone : 3690 ^ 3540 ≤ setCompact (nextStake (fastChain 3541)).nBits * 3690 ^ 3540 :=
    le_mul_of_one_le_left (by positivity) hpos
  have hlt : (2 ^ 236 - 1 : ℤ) * 3512 ^ 3540 < 2 ^ 236 * 3512 ^ 3540 := by
    apply mul_lt_mul_of_pos_right _ hsmall
    norm_num
  exact absurd (hone.trans hshrunk) (not_le.mpr (hlt.trans_le hhalf))

end HyperStake
