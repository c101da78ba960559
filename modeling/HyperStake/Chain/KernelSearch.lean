import HyperStake.Chain.Kernel

/-!
# The search for a kernel

`CheckStakeKernelHash` in its search mode tries the seconds after the time of the coin stake, the
last one first.  It does not stop at a second that meets the target: it goes on from there, so that
the time it returns is the last one that it has found, and the hash that it returns is the one of
the last second that it has tried.

`searchFrom` is the search in the number of turns that are left: a turn with `n` turns left tries the
second `n` seconds after the last one found.
-/

namespace HyperStake

namespace Kernel

variable (hash : Bytes → UInt256) (env : Env) (kernel : Kernel)

/-- The hash of a kernel at a second. -/
def hashAt (nTryTime : UInt32) : UInt256 := (kernel.tryTime hash env nTryTime 0).2.1

/-- The kernel meets its target at a second, with the weight at another one. -/
def hits (nTryTime nTimeTx : UInt32) : Bool := (kernel.tryTime hash env nTryTime nTimeTx).1

/-- The turns of a search after some turns. -/
def search (nHashDrift : UInt32) (r : KernelTry) (turns : ℕ) : Bool × KernelTry :=
  (List.range turns).foldl (kernel.searchTurn hash env nHashDrift) (false, r)

/-- The second that a turn of a search tries. -/
def tried (nHashDrift : UInt32) (r : KernelTry) (i : ℕ) : UInt32 :=
  (kernel.search hash env nHashDrift r i).2.nTimeTx + nHashDrift - UInt32.ofNat i

/-- A turn with some turns left. -/
def turnFrom (n : ℕ) (s : Bool × KernelTry) : Bool × KernelTry :=
  let nTryTime := s.2.nTimeTx + UInt32.ofNat n
  (s.1 || kernel.hits hash env nTryTime s.2.nTimeTx,
    { nTimeTx := if kernel.hits hash env nTryTime s.2.nTimeTx then nTryTime else s.2.nTimeTx
      hashProofOfStake := kernel.hashAt hash env nTryTime
      bnCoinWeight := (kernel.tryTime hash env nTryTime s.2.nTimeTx).2.2 })

/-- The turns that are left. -/
def searchFrom : ℕ → Bool × KernelTry → Bool × KernelTry
  | 0, s => s
  | n + 1, s => searchFrom n (kernel.turnFrom hash env (n + 1) s)

/-- The second that is found last in the turns that are left from a second on, with the number of
turns left when it is found. -/
def lastFound : ℕ → UInt32 → Option (UInt32 × ℕ)
  | 0, _ => none
  | n + 1, nTimeTx =>
    let nTryTime := nTimeTx + UInt32.ofNat (n + 1)
    if kernel.hits hash env nTryTime nTimeTx then
      (lastFound n nTryTime).or (some (nTryTime, n + 1))
    else lastFound n nTimeTx

variable {hash env kernel} {nHashDrift : UInt32} {n : ℕ}

lemma searchTurn_eq (hn : n ≤ nHashDrift.toNat) (s : Bool × KernelTry) :
    kernel.searchTurn hash env nHashDrift s (nHashDrift.toNat - n) =
      kernel.turnFrom hash env n s := by
  have htry : s.2.nTimeTx + nHashDrift - UInt32.ofNat (nHashDrift.toNat - n) =
      s.2.nTimeTx + UInt32.ofNat n := by
    rw [UInt32.ofNat_sub hn, UInt32.ofNat_toNat]
    grind
  obtain ⟨found, r⟩ := s
  rw [searchTurn, turnFrom, htry]
  cases hhit : kernel.hits hash env (r.nTimeTx + UInt32.ofNat n) r.nTimeTx with
  | true =>
    have hhit' : (kernel.tryTime hash env (r.nTimeTx + UInt32.ofNat n) r.nTimeTx).1 = true := hhit
    simp only [hhit', if_true, Bool.or_true]
    rfl
  | false =>
    have hhit' : (kernel.tryTime hash env (r.nTimeTx + UInt32.ofNat n) r.nTimeTx).1 = false := hhit
    simp only [hhit', Bool.false_eq_true, if_false, Bool.or_false]
    rfl

lemma foldl_searchTurn (hn : n ≤ nHashDrift.toNat) (s : Bool × KernelTry) :
    (List.range' (nHashDrift.toNat - n) n).foldl (kernel.searchTurn hash env nHashDrift) s =
      kernel.searchFrom hash env n s := by
  induction n generalizing s with
  | zero => rfl
  | succ n ih =>
    have hnext : nHashDrift.toNat - (n + 1) + 1 = nHashDrift.toNat - n := by omega
    rw [List.range'_succ, List.foldl_cons, hnext, searchTurn_eq hn, ih (by omega), searchFrom]

/-- The search, in the turns that are left. -/
lemma search_eq (nHashDrift : UInt32) (r : KernelTry) :
    kernel.search hash env nHashDrift r nHashDrift.toNat =
      kernel.searchFrom hash env nHashDrift.toNat (false, r) := by
  have h := @foldl_searchTurn hash env kernel nHashDrift _ le_rfl (false, r)
  rw [Nat.sub_self, ← List.range_eq_range'] at h
  exact h

/-! ## What is found -/

/-- The search returns true if a second has been found, and the time that it returns is the last
one that has been found. -/
lemma searchFrom_found (n : ℕ) (s : Bool × KernelTry) :
    (kernel.searchFrom hash env n s).1 =
        (s.1 || (kernel.lastFound hash env n s.2.nTimeTx).isSome) ∧
      (kernel.searchFrom hash env n s).2.nTimeTx =
        ((kernel.lastFound hash env n s.2.nTimeTx).map Prod.fst).getD s.2.nTimeTx := by
  induction n generalizing s with
  | zero => exact ⟨(Bool.or_false _).symm, rfl⟩
  | succ n ih =>
    obtain ⟨hfound, htime⟩ := ih (kernel.turnFrom hash env (n + 1) s)
    rw [searchFrom, hfound, htime, lastFound, turnFrom]
    cases kernel.hits hash env (s.2.nTimeTx + UInt32.ofNat (n + 1)) s.2.nTimeTx with
    | false => exact ⟨by simp, rfl⟩
    | true =>
      simp only [if_true, Bool.or_true, Bool.true_or]
      cases kernel.lastFound hash env n (s.2.nTimeTx + UInt32.ofNat (n + 1)) with
      | none => exact ⟨by simp, rfl⟩
      | some found => exact ⟨by simp, rfl⟩

/-- The second that has been tried last: the one that has been found if it was found in the last
turn, and the next one otherwise. -/
def lastTried (nTimeTx : UInt32) : Option (UInt32 × ℕ) → UInt32
  | none => nTimeTx + 1
  | some (nFound, n) => if n = 1 then nFound else nFound + 1

lemma lastFound_pos {nTimeTx : UInt32} {found : UInt32 × ℕ}
    (h : kernel.lastFound hash env n nTimeTx = some found) : 0 < found.2 ∧ found.2 ≤ n := by
  induction n generalizing nTimeTx with
  | zero => cases h
  | succ n ih =>
    rw [lastFound] at h
    split_ifs at h with hhit
    · cases hlater : kernel.lastFound hash env n (nTimeTx + UInt32.ofNat (n + 1)) with
      | none =>
        rw [hlater] at h
        cases h
        exact ⟨Nat.succ_pos n, le_rfl⟩
      | some later =>
        rw [hlater] at h
        cases h
        exact (ih hlater).imp_right fun hle => hle.trans (Nat.le_succ n)
    · exact (ih h).imp_right fun hle => hle.trans (Nat.le_succ n)

lemma lastFound_succ (n : ℕ) (nTimeTx : UInt32) :
    kernel.lastFound hash env (n + 1) nTimeTx =
      if kernel.hits hash env (nTimeTx + UInt32.ofNat (n + 1)) nTimeTx then
        (kernel.lastFound hash env n (nTimeTx + UInt32.ofNat (n + 1))).or
          (some (nTimeTx + UInt32.ofNat (n + 1), n + 1))
      else kernel.lastFound hash env n nTimeTx := rfl

lemma lastTried_or {nTimeTx nFound : UInt32} {found : Option (UInt32 × ℕ)}
    (hn : n ≠ 1) : lastTried nTimeTx (found.or (some (nFound, n))) = lastTried nFound found := by
  cases found with
  | none => exact if_neg hn
  | some found => rfl

/-- The hash that the search returns is the one of the last second that it has tried. -/
lemma searchFrom_hash (n : ℕ) (s : Bool × KernelTry) :
    (kernel.searchFrom hash env (n + 1) s).2.hashProofOfStake =
      kernel.hashAt hash env
        (lastTried s.2.nTimeTx (kernel.lastFound hash env (n + 1) s.2.nTimeTx)) := by
  induction n generalizing s with
  | zero =>
    have hone : UInt32.ofNat (0 + 1) = 1 := rfl
    rw [searchFrom, searchFrom, lastFound_succ, turnFrom, hone]
    cases kernel.hits hash env (s.2.nTimeTx + 1) s.2.nTimeTx with
    | false => simp only [Bool.false_eq_true, if_false, lastFound, lastTried]
    | true => simp only [if_true, lastFound, Option.none_or, lastTried]
  | succ n ih =>
    rw [searchFrom, ih, lastFound_succ (n + 1), turnFrom]
    cases kernel.hits hash env (s.2.nTimeTx + UInt32.ofNat (n + 1 + 1)) s.2.nTimeTx with
    | false => simp only [Bool.false_eq_true, if_false]
    | true => simp only [if_true, lastTried_or (show n + 1 + 1 ≠ 1 by omega)]

/-- What the search returns when it has found a second. -/
lemma search_of_lastFound {r : KernelTry} {nFound : UInt32}
    (hlast : kernel.lastFound hash env nHashDrift.toNat r.nTimeTx = some (nFound, n)) :
    ∃ r', kernel.search hash env nHashDrift r nHashDrift.toNat = (true, r') ∧
      r'.nTimeTx = nFound ∧ r'.hashProofOfStake =
        kernel.hashAt hash env (if n = 1 then nFound else nFound + 1) := by
  obtain ⟨hfound, htime⟩ := @searchFrom_found hash env kernel nHashDrift.toNat (false, r)
  obtain ⟨hpos, hle⟩ := lastFound_pos hlast
  obtain ⟨k, hk⟩ := Nat.exists_eq_add_one.mpr (hpos.trans_le hle)
  have hhash := @searchFrom_hash hash env kernel k (false, r)
  rw [← hk, hlast] at hhash
  rw [hlast] at hfound htime
  rw [search_eq]
  exact ⟨_, Prod.ext hfound rfl, htime, hhash⟩

lemma exists_lastFound {r r' : KernelTry}
    (h : kernel.search hash env nHashDrift r nHashDrift.toNat = (true, r')) :
    ∃ nFound n, kernel.lastFound hash env nHashDrift.toNat r.nTimeTx = some (nFound, n) := by
  obtain ⟨hfound, -⟩ := @searchFrom_found hash env kernel nHashDrift.toNat (false, r)
  rw [← search_eq, h, Bool.false_or] at hfound
  obtain ⟨⟨nFound, n⟩, hlast⟩ := Option.isSome_iff_exists.mp hfound.symm
  exact ⟨nFound, n, hlast⟩

end Kernel

/-! ## Search and check -/

section Calls

variable (hash hash9 : Bytes → UInt256) (env : Env) (tree : BlockTree) (nBits : UInt32)
  (blockFrom : CBlock) (nTxPrevOffset : UInt32) (txPrev : CTransaction) (prevout : COutPoint)

/-- The kernel that `CheckStakeKernelHash` hashes for a coin stake with a time, or none if it fails
before. -/
def kernelFor (nTimeTx : UInt32) : Option Kernel :=
  (txPrev.vout[prevout.n.toNat]?).bind fun txout =>
    if nTimeTx < txPrev.nTime ∨ blockFrom.nTime + env.nStakeMinAge > nTimeTx then none
    else (tree.getKernelStakeModifier env.fTestNet (blockFrom.getHash hash9)).map fun modifier =>
      { nStakeModifier := modifier.nStakeModifier, nTimeBlockFrom := blockFrom.nTime
        nTxPrevOffset, nTxPrevTime := txPrev.nTime, prevoutIndex := prevout.n
        nValueIn := txout.nValue, bnTargetPerCoinDay := setCompact nBits }

variable {hash hash9 env tree nBits blockFrom nTxPrevOffset txPrev prevout} {kernel : Kernel}
  {nHashDrift : UInt32} {r r' : KernelTry}

/-- The function returns true if there is a kernel for which its mode does. -/
lemma checkStakeKernelHash_eq_true_iff {fCheck : Bool} :
    checkStakeKernelHash hash hash9 env tree nBits blockFrom nTxPrevOffset txPrev prevout nHashDrift
        fCheck r = .ok (true, r') ↔
      ∃ kernel, kernelFor hash9 env tree nBits blockFrom nTxPrevOffset txPrev prevout r.nTimeTx =
          some kernel ∧
        (if fCheck then
          (kernel.hits hash env r.nTimeTx r.nTimeTx,
            { r with
              hashProofOfStake := kernel.hashAt hash env r.nTimeTx
              bnCoinWeight := (kernel.tryTime hash env r.nTimeTx r.nTimeTx).2.2 })
        else kernel.search hash env nHashDrift r nHashDrift.toNat) = (true, r') := by
  unfold checkStakeKernelHash kernelFor
  cases txPrev.vout[prevout.n.toNat]? with
  | none => simp
  | some txout =>
    rw [Option.bind_some]
    by_cases htime : r.nTimeTx < txPrev.nTime
    · simp [htime]
    by_cases hage : blockFrom.nTime + env.nStakeMinAge > r.nTimeTx
    · simp [hage]
    simp only [htime, hage, if_false, or_self]
    cases tree.getKernelStakeModifier env.fTestNet (blockFrom.getHash hash9) with
    | none => simp
    | some modifier =>
      simp only [Option.map_some, Option.some.injEq, exists_eq_left']
      cases fCheck with
      | false =>
        simp only [Bool.false_eq_true, if_false, Except.ok.injEq]
        rfl
      | true =>
        simp only [if_true, Except.ok.injEq]
        rfl

/-- The search returns true if there is a kernel for it that it finds a second for. -/
lemma checkStakeKernelHash_search :
    checkStakeKernelHash hash hash9 env tree nBits blockFrom nTxPrevOffset txPrev prevout nHashDrift
        false r = .ok (true, r') ↔
      ∃ kernel, kernelFor hash9 env tree nBits blockFrom nTxPrevOffset txPrev prevout r.nTimeTx =
          some kernel ∧ kernel.search hash env nHashDrift r nHashDrift.toNat = (true, r') :=
  checkStakeKernelHash_eq_true_iff

/-- The check returns true if the kernel meets its target at the time of the coin stake. -/
lemma checkStakeKernelHash_check {hashProofOfStake : UInt256} :
    (∃ r', checkStakeKernelHash hash hash9 env tree nBits blockFrom nTxPrevOffset txPrev prevout
        nHashDrift true r = .ok (true, r') ∧ r'.hashProofOfStake = hashProofOfStake) ↔
      ∃ kernel, kernelFor hash9 env tree nBits blockFrom nTxPrevOffset txPrev prevout r.nTimeTx =
          some kernel ∧ kernel.hits hash env r.nTimeTx r.nTimeTx = true ∧
          kernel.hashAt hash env r.nTimeTx = hashProofOfStake := by
  constructor
  · rintro ⟨r', hok, rfl⟩
    obtain ⟨kernel, hkernel, hcheck⟩ := checkStakeKernelHash_eq_true_iff.mp hok
    rw [if_pos rfl, Prod.mk.injEq] at hcheck
    obtain ⟨hhit, rfl⟩ := hcheck
    exact ⟨kernel, hkernel, hhit, rfl⟩
  · rintro ⟨kernel, hkernel, hhit, rfl⟩
    exact ⟨_, checkStakeKernelHash_eq_true_iff.mpr ⟨kernel, hkernel, Prod.ext hhit rfl⟩, rfl⟩

/-- A kernel is the same at another time, unless this time is too early. -/
lemma kernelFor_eq_some_iff {nTimeTx nTimeTx' : UInt32} {kernel' : Kernel}
    (hkernel : kernelFor hash9 env tree nBits blockFrom nTxPrevOffset txPrev prevout nTimeTx =
      some kernel) :
    kernelFor hash9 env tree nBits blockFrom nTxPrevOffset txPrev prevout nTimeTx' =
        some kernel' ↔
      kernel = kernel' ∧ txPrev.nTime ≤ nTimeTx' ∧
        blockFrom.nTime + env.nStakeMinAge ≤ nTimeTx' := by
  unfold kernelFor at hkernel ⊢
  cases hout : txPrev.vout[prevout.n.toNat]? with
  | none =>
    rw [hout] at hkernel
    cases hkernel
  | some txout =>
    rw [hout, Option.bind_some] at hkernel
    rw [Option.bind_some]
    split_ifs at hkernel with hearly
    rw [hkernel]
    split_ifs with hearly'
    · refine iff_of_false (fun h => by cases h) fun h => ?_
      exact hearly'.elim (UInt32.not_lt.mpr h.2.1) (UInt32.not_lt.mpr h.2.2)
    · rw [not_or, gt_iff_lt, UInt32.not_lt, UInt32.not_lt] at hearly'
      rw [Option.some.injEq]
      exact (and_iff_left hearly').symm

/-- What the search has found stands up to the check: the second that it returns is not too early,
it meets the target with its own weight, and it has been found in the last turn, or the second after
it has the same hash. -/
structure Kernel.Stands (hash : Bytes → UInt256) (env : Env) (kernel : Kernel)
    (nTimeMin nTimePrev nFound : UInt32) (n : ℕ) : Prop where
  nTimePrev_le : nTimePrev ≤ nFound
  nTimeMin_le : nTimeMin ≤ nFound
  hits : kernel.hits hash env nFound nFound = true
  hashAt : n = 1 ∨ kernel.hashAt hash env (nFound + 1) = kernel.hashAt hash env nFound

end Calls

/-! ## The seconds that are tried -/

lemma toNat_add_ofNat (nTime : UInt32) (k : ℕ) :
    (nTime + UInt32.ofNat k).toNat = (nTime.toNat + k) % 2 ^ 32 := by
  rw [UInt32.toNat_add, UInt32.toNat_ofNat', Nat.add_mod_mod]

lemma add_ofNat_add (nTime : UInt32) (k m : ℕ) :
    nTime + UInt32.ofNat k + UInt32.ofNat m = nTime + UInt32.ofNat (k + m) := by
  rw [UInt32.ofNat_add, UInt32.add_assoc]

namespace Kernel

/-- The first of the turns left from a second on that finds a second. -/
structure FirstHit (hash : Bytes → UInt256) (env : Env) (kernel : Kernel) (turns : ℕ)
    (nTimeTx : UInt32) (n : ℕ) : Prop where
  pos : 0 < n
  le : n ≤ turns
  hits : kernel.hits hash env (nTimeTx + UInt32.ofNat n) nTimeTx = true
  none_before : ∀ m, n < m → m ≤ turns →
    kernel.hits hash env (nTimeTx + UInt32.ofNat m) nTimeTx = false

variable {hash : Bytes → UInt256} {env : Env} {kernel : Kernel} {turns n : ℕ} {nTimeTx : UInt32}

lemma lastFound_of_firstHit (h : kernel.FirstHit hash env turns nTimeTx n) :
    kernel.lastFound hash env turns nTimeTx =
      (kernel.lastFound hash env (n - 1) (nTimeTx + UInt32.ofNat n)).or
        (some (nTimeTx + UInt32.ofNat n, n)) := by
  induction turns with
  | zero => exact absurd h.le (Nat.not_le.mpr h.pos)
  | succ turns ih =>
    rw [lastFound_succ]
    by_cases hlast : n = turns + 1
    · subst hlast
      rw [if_pos h.hits, Nat.add_sub_cancel]
    · have hlt : n < turns + 1 := lt_of_le_of_ne h.le hlast
      rw [if_neg (by rw [h.none_before (turns + 1) hlt le_rfl]; exact Bool.false_ne_true)]
      refine ih ⟨h.pos, Nat.le_of_lt_succ hlt, h.hits, fun m hm hle => ?_⟩
      exact h.none_before m hm (hle.trans (Nat.le_succ turns))

/-- A search that finds a second finds a first one. -/
lemma exists_firstHit {found : UInt32 × ℕ}
    (h : kernel.lastFound hash env turns nTimeTx = some found) :
    ∃ n, kernel.FirstHit hash env turns nTimeTx n := by
  induction turns with
  | zero => cases h
  | succ turns ih =>
    rw [lastFound_succ] at h
    by_cases hhit : kernel.hits hash env (nTimeTx + UInt32.ofNat (turns + 1)) nTimeTx = true
    · exact ⟨turns + 1, Nat.succ_pos turns, le_rfl, hhit, fun m hm hle => absurd hle hm.not_ge⟩
    · rw [if_neg hhit] at h
      obtain ⟨n, hfirst⟩ := ih h
      refine ⟨n, hfirst.pos, hfirst.le.trans (Nat.le_succ turns), hfirst.hits, fun m hm hle => ?_⟩
      obtain hle | rfl := Nat.le_succ_iff.mp hle
      · exact hfirst.none_before m hm hle
      · exact Bool.not_eq_true _ ▸ hhit

lemma lastFound_eq_none_iff : kernel.lastFound hash env turns nTimeTx = none ↔
    ∀ m, 0 < m → m ≤ turns →
      kernel.hits hash env (nTimeTx + UInt32.ofNat m) nTimeTx = false := by
  induction turns with
  | zero => exact iff_of_true rfl fun m hm hle => absurd hle hm.not_ge
  | succ turns ih =>
    rw [lastFound_succ]
    constructor
    · intro h m hm hle
      split_ifs at h with hhit
      · simp at h
      obtain hle | rfl := Nat.le_succ_iff.mp hle
      · exact ih.mp h m hm hle
      · exact Bool.not_eq_true _ ▸ hhit
    · intro h
      rw [if_neg (by rw [h (turns + 1) (Nat.succ_pos turns) le_rfl]; exact Bool.false_ne_true)]
      exact ih.mpr fun m hm hle => h m hm (hle.trans (Nat.le_succ turns))

/-- How far a search with some turns left can go. -/
lemma lastFound_le {found : UInt32 × ℕ} (h : kernel.lastFound hash env turns nTimeTx = some found) :
    ∃ k, 0 < k ∧ 2 * k ≤ turns * (turns + 1) ∧ found.1 = nTimeTx + UInt32.ofNat k := by
  induction turns generalizing nTimeTx with
  | zero => cases h
  | succ turns ih =>
    have hgrows : turns * (turns + 1) + 2 * (turns + 1) = (turns + 1) * (turns + 1 + 1) := by ring
    rw [lastFound_succ] at h
    split_ifs at h with hhit
    · cases hlater : kernel.lastFound hash env turns (nTimeTx + UInt32.ofNat (turns + 1)) with
      | none =>
        rw [hlater] at h
        cases h
        exact ⟨turns + 1, Nat.succ_pos turns, by omega, rfl⟩
      | some later =>
        rw [hlater] at h
        cases h
        obtain ⟨k, hk, hle, hfound⟩ := ih hlater
        exact ⟨turns + 1 + k, by omega, by omega, hfound.trans (add_ofNat_add _ _ _)⟩
    · obtain ⟨k, hk, hle, hfound⟩ := ih h
      exact ⟨k, hk, by omega, hfound⟩

/-! ### The turns -/

section Turns

variable {nHashDrift : UInt32} {r : KernelTry} {i j : ℕ}

lemma tried_eq (hi : i ≤ nHashDrift.toNat) :
    kernel.tried hash env nHashDrift r i =
      (kernel.search hash env nHashDrift r i).2.nTimeTx + UInt32.ofNat (nHashDrift.toNat - i) := by
  rw [tried, UInt32.ofNat_sub hi, UInt32.ofNat_toNat]
  grind

/-- A turn takes the time to the second that it tries, if this one meets the target. -/
lemma time_succ (hi : i < nHashDrift.toNat) :
    (kernel.search hash env nHashDrift r (i + 1)).2.nTimeTx =
      if kernel.hits hash env (kernel.tried hash env nHashDrift r i)
          (kernel.search hash env nHashDrift r i).2.nTimeTx then
        kernel.tried hash env nHashDrift r i
      else (kernel.search hash env nHashDrift r i).2.nTimeTx := by
  have hturn : i = nHashDrift.toNat - (nHashDrift.toNat - i) := by omega
  have hstep : kernel.search hash env nHashDrift r (i + 1) = kernel.searchTurn hash env nHashDrift
      (kernel.search hash env nHashDrift r i) i := by
    rw [search, List.range_succ, List.foldl_append]
    rfl
  rw [hstep]
  conv_lhs => rw [hturn]
  rw [searchTurn_eq (Nat.sub_le _ _), turnFrom, ← hturn, tried_eq hi.le]

/-- Before the first turn that finds a second the time stays. -/
lemma time_of_firstHit {t : UInt32} (hi : i ≤ nHashDrift.toNat)
    (ht : (kernel.search hash env nHashDrift r i).2.nTimeTx = t)
    (hnone : ∀ m, n < m → m ≤ nHashDrift.toNat - i →
      kernel.hits hash env (t + UInt32.ofNat m) t = false) (hij : i ≤ j)
    (hj : j ≤ nHashDrift.toNat - n) (hle : j ≤ nHashDrift.toNat) :
    (kernel.search hash env nHashDrift r j).2.nTimeTx = t := by
  induction j, hij using Nat.le_induction with
  | base => exact ht
  | succ j hij ih =>
    have htime := ih (by omega) (by omega)
    rw [time_succ (by omega), tried_eq (by omega), htime, if_neg]
    rw [hnone _ (by omega) (by omega)]
    exact Bool.false_ne_true

/-- It takes the time to this second. -/
lemma time_firstHit {t : UInt32} (hi : i ≤ nHashDrift.toNat)
    (ht : (kernel.search hash env nHashDrift r i).2.nTimeTx = t)
    (hfirst : kernel.FirstHit hash env (nHashDrift.toNat - i) t n) :
    (kernel.search hash env nHashDrift r (nHashDrift.toNat - n + 1)).2.nTimeTx =
      t + UInt32.ofNat n := by
  have hpos := hfirst.pos
  have hle := hfirst.le
  have htime := time_of_firstHit hi ht hfirst.none_before (show i ≤ nHashDrift.toNat - n by omega)
    le_rfl (Nat.sub_le _ _)
  have hback : nHashDrift.toNat - (nHashDrift.toNat - n) = n := by omega
  rw [time_succ (by omega), tried_eq (by omega), htime, hback, if_pos hfirst.hits]

end Turns

/-! ### The interval that is searched -/

/-- A second is one of the interval that is searched. -/
def InInterval (nTimeTx nHashDrift nTryTime : UInt32) : Prop :=
  nTimeTx.toNat < nTryTime.toNat ∧ nTryTime.toNat ≤ nTimeTx.toNat + nHashDrift.toNat

/-- No second of the interval is tried in two turns. -/
def TriesOnce (hash : Bytes → UInt256) (env : Env) (kernel : Kernel) (nHashDrift : UInt32)
    (r : KernelTry) : Prop :=
  ∀ i j, i < nHashDrift.toNat → j < nHashDrift.toNat → i ≠ j →
    kernel.tried hash env nHashDrift r i = kernel.tried hash env nHashDrift r j →
    ¬ InInterval r.nTimeTx nHashDrift (kernel.tried hash env nHashDrift r i)

/-- When the first second that is found, some seconds after the start, does not lead out of the
interval or to a second of it that has been tried before. -/
structure StaysInside (hash : Bytes → UInt256) (env : Env) (kernel : Kernel) (nHashDrift : UInt32)
    (nTimeTx : UInt32) (n : ℕ) : Prop where
  lt : nTimeTx.toNat + n < 2 ^ 32
  /-- It is the last one or the first one that is tried, or the last one there is. -/
  at_end : n = 1 ∨ n = nHashDrift.toNat ∨ nTimeTx.toNat + n + 1 = 2 ^ 32
  none_after : ∀ m, 0 < m → m < n → kernel.hits hash env
    (nTimeTx + UInt32.ofNat n + UInt32.ofNat m) (nTimeTx + UInt32.ofNat n) = false

section Interval

variable {nHashDrift : UInt32} {r r' : KernelTry} {i j : ℕ}

lemma lastFound_eq_none_iff_none_after : kernel.lastFound hash env (n - 1) nTimeTx = none ↔
    ∀ m, 0 < m → m < n → kernel.hits hash env (nTimeTx + UInt32.ofNat m) nTimeTx = false := by
  rw [lastFound_eq_none_iff]
  exact ⟨fun h m hm hlt => h m hm (by omega), fun h m hm hle => h m hm (by omega)⟩

section

variable (hfirst : kernel.FirstHit hash env nHashDrift.toNat r.nTimeTx n)

include hfirst

/-- The seconds that are tried up to the first one that is found. -/
lemma tried_of_le (hi : i ≤ nHashDrift.toNat - n) :
    kernel.tried hash env nHashDrift r i =
      r.nTimeTx + UInt32.ofNat (nHashDrift.toNat - i) := by
  have hle := hfirst.le
  have hpos := hfirst.pos
  rw [tried_eq (by omega), @time_of_firstHit hash env kernel n nHashDrift r 0 i r.nTimeTx
    (Nat.zero_le _) rfl hfirst.none_before (Nat.zero_le _) hi (by omega)]

/-- The second that is tried when a second one is found, or the next ones when none is. -/
lemma tried_of_lt {m : ℕ}
    (hnone : ∀ k, m < k → k < n → kernel.hits hash env
      (r.nTimeTx + UInt32.ofNat n + UInt32.ofNat k) (r.nTimeTx + UInt32.ofNat n) = false)
    (hi : nHashDrift.toNat - n < i) (hle : i ≤ nHashDrift.toNat - m) :
    kernel.tried hash env nHashDrift r i =
      r.nTimeTx + UInt32.ofNat (n + (nHashDrift.toNat - i)) := by
  have hle' := hfirst.le
  have hpos := hfirst.pos
  have hstart := @time_firstHit hash env kernel n nHashDrift r 0 r.nTimeTx (Nat.zero_le _) rfl
    hfirst
  rw [tried_eq (by omega), @time_of_firstHit hash env kernel m nHashDrift r
    (nHashDrift.toNat - n + 1) i (r.nTimeTx + UInt32.ofNat n) (by omega) hstart
    (fun k hk hkle => hnone k hk (by omega)) (by omega) hle (by omega), add_ofNat_add]

/-- The time that is returned, when no other second is found. -/
lemma time_of_none_after
    (hnone : ∀ m, 0 < m → m < n → kernel.hits hash env
      (r.nTimeTx + UInt32.ofNat n + UInt32.ofNat m) (r.nTimeTx + UInt32.ofNat n) = false)
    (hfound : kernel.search hash env nHashDrift r nHashDrift.toNat = (true, r')) :
    r'.nTimeTx = r.nTimeTx + UInt32.ofNat n := by
  have hlast := lastFound_of_firstHit hfirst
  rw [lastFound_eq_none_iff_none_after.mpr hnone, Option.none_or] at hlast
  obtain ⟨weight, hfound', htime, -⟩ := search_of_lastFound hlast
  rw [show r' = weight from congrArg Prod.snd (hfound.symm.trans hfound'), htime]

end

/-- A search that stays inside the interval. -/
lemma inInterval_of_staysInside (hdrift : nHashDrift.toNat ≤ 60)
    (hfirst : kernel.FirstHit hash env nHashDrift.toNat r.nTimeTx n)
    (hstays : kernel.StaysInside hash env nHashDrift r.nTimeTx n)
    (hfound : kernel.search hash env nHashDrift r nHashDrift.toNat = (true, r')) :
    InInterval r.nTimeTx nHashDrift r'.nTimeTx ∧ kernel.TriesOnce hash env nHashDrift r := by
  have hpos := hfirst.pos
  have hle := hfirst.le
  have hfits := hstays.lt
  have hend := hstays.at_end
  constructor
  · rw [InInterval, time_of_none_after hfirst hstays.none_after hfound, toNat_add_ofNat]
    omega
  -- two turns that try the same second are on different sides of the first one that finds one
  have hcross : ∀ i j, i < j → j < nHashDrift.toNat →
      kernel.tried hash env nHashDrift r i = kernel.tried hash env nHashDrift r j →
      ¬ InInterval r.nTimeTx nHashDrift (kernel.tried hash env nHashDrift r i) := by
    intro i j hij hj heq hin
    have hnat := congrArg UInt32.toNat heq
    rw [InInterval] at hin
    by_cases hi : i ≤ nHashDrift.toNat - n
    · rw [tried_of_le hfirst hi, toNat_add_ofNat] at hnat hin
      by_cases hj' : j ≤ nHashDrift.toNat - n
      · rw [tried_of_le hfirst hj', toNat_add_ofNat] at hnat
        omega
      · rw [@tried_of_lt hash env kernel n nHashDrift r j hfirst 0 hstays.none_after (by omega)
          (by omega), toNat_add_ofNat] at hnat
        omega
    · rw [@tried_of_lt hash env kernel n nHashDrift r i hfirst 0 hstays.none_after (by omega)
          (by omega), toNat_add_ofNat] at hnat
      rw [@tried_of_lt hash env kernel n nHashDrift r j hfirst 0 hstays.none_after (by omega)
          (by omega), toNat_add_ofNat] at hnat
      omega
  intro i j hi hj hne heq
  rcases Nat.lt_or_gt_of_ne hne with hij | hij
  · exact hcross i j hij hj heq
  · rw [heq]
    exact hcross j i hij hi heq.symm

/-- How far a search goes that finds another second after the first one. -/
lemma time_of_second (hfirst : kernel.FirstHit hash env nHashDrift.toNat r.nTimeTx n) {m : ℕ}
    (hsecond : kernel.FirstHit hash env (n - 1) (r.nTimeTx + UInt32.ofNat n) m)
    (hfound : kernel.search hash env nHashDrift r nHashDrift.toNat = (true, r')) :
    ∃ k, n + m ≤ k ∧ 2 * k ≤ nHashDrift.toNat * (nHashDrift.toNat + 1) ∧
      r'.nTimeTx = r.nTimeTx + UInt32.ofNat k := by
  obtain ⟨nFound, l, hlast⟩ := exists_lastFound hfound
  obtain ⟨weight, hfound', htime, -⟩ := search_of_lastFound hlast
  obtain rfl : r' = weight := congrArg Prod.snd (hfound.symm.trans hfound')
  have hpos := hfirst.pos
  have hle := hfirst.le
  have hmpos := hsecond.pos
  have hmle := hsecond.le
  have hsquares : n * (n + 1) ≤ nHashDrift.toNat * (nHashDrift.toNat + 1) :=
    Nat.mul_le_mul hle (Nat.succ_le_succ hle)
  have hmsquares : m * (m + 1) ≤ (n - 1) * (n - 1 + 1) :=
    Nat.mul_le_mul hmle (Nat.succ_le_succ hmle)
  have hgrows : (n - 1) * (n - 1 + 1) + 2 * n = n * (n + 1) := by
    obtain ⟨k, rfl⟩ := Nat.exists_eq_add_one.mpr hpos
    rw [Nat.add_sub_cancel]
    ring
  have hmgrows : (m - 1) * (m - 1 + 1) + 2 * m = m * (m + 1) := by
    obtain ⟨k, rfl⟩ := Nat.exists_eq_add_one.mpr hmpos
    rw [Nat.add_sub_cancel]
    ring
  have hafter := lastFound_of_firstHit hfirst
  rw [hlast, lastFound_of_firstHit hsecond, add_ofNat_add] at hafter
  cases hlater : kernel.lastFound hash env (m - 1) (r.nTimeTx + UInt32.ofNat (n + m)) with
  | none =>
    rw [hlater] at hafter
    cases hafter
    exact ⟨n + m, le_rfl, by omega, htime⟩
  | some later =>
    rw [hlater] at hafter
    cases hafter
    obtain ⟨k, -, hk, hlater'⟩ := lastFound_le hlater
    refine ⟨n + m + k, by omega, by omega, ?_⟩
    rw [htime, ← add_ofNat_add]
    exact hlater'

section

variable (hdrift : nHashDrift.toNat ≤ 60)
  (hfirst : kernel.FirstHit hash env nHashDrift.toNat r.nTimeTx n)
  (hin : InInterval r.nTimeTx nHashDrift r'.nTimeTx)
  (honce : kernel.TriesOnce hash env nHashDrift r)
  (hfound : kernel.search hash env nHashDrift r nHashDrift.toNat = (true, r'))

include hdrift hfirst hin honce hfound

/-- A search that stays inside the interval finds no second after the first one. -/
lemma none_after_of_inInterval :
    kernel.lastFound hash env (n - 1) (r.nTimeTx + UInt32.ofNat n) = none := by
  by_contra hsome
  obtain ⟨found, hlast⟩ := Option.ne_none_iff_exists'.mp hsome
  obtain ⟨m, hsecond⟩ := exists_firstHit hlast
  obtain ⟨k, hk, hkle, htime⟩ := time_of_second hfirst hsecond hfound
  have hpos := hfirst.pos
  have hle := hfirst.le
  have hmpos := hsecond.pos
  have hmle := hsecond.le
  have hsquares : nHashDrift.toNat * (nHashDrift.toNat + 1) ≤ 60 * 61 :=
    Nat.mul_le_mul hdrift (Nat.succ_le_succ hdrift)
  rw [InInterval, htime, toNat_add_ofNat] at hin
  -- the second one has been tried before the first one was found
  have hearly := @tried_of_le hash env kernel n nHashDrift r (nHashDrift.toNat - (n + m)) hfirst
    (by omega)
  have hlate := @tried_of_lt hash env kernel n nHashDrift r (nHashDrift.toNat - m) hfirst m
    (fun k hk hlt => hsecond.none_before k hk (by omega)) (by omega) le_rfl
  rw [show nHashDrift.toNat - (nHashDrift.toNat - (n + m)) = n + m by omega] at hearly
  rw [show nHashDrift.toNat - (nHashDrift.toNat - m) = m by omega] at hlate
  refine honce _ _ (by omega) (by omega) (by omega) (hearly.trans hlate.symm) ?_
  rw [InInterval, hearly, toNat_add_ofNat]
  omega

lemma staysInside_of_inInterval : kernel.StaysInside hash env nHashDrift r.nTimeTx n := by
  have hnone := lastFound_eq_none_iff_none_after.mp
    (none_after_of_inInterval hdrift hfirst hin honce hfound)
  have hpos := hfirst.pos
  have hle := hfirst.le
  rw [InInterval, time_of_none_after hfirst hnone hfound, toNat_add_ofNat] at hin
  refine ⟨by omega, ?_, hnone⟩
  by_contra hinside
  -- the second after the one that is found has been tried before, and is tried again at the end
  have hearly := @tried_of_le hash env kernel n nHashDrift r (nHashDrift.toNat - (n + 1)) hfirst
    (by omega)
  have hlate := @tried_of_lt hash env kernel n nHashDrift r (nHashDrift.toNat - 1) hfirst 0 hnone
    (by omega) (by omega)
  rw [show nHashDrift.toNat - (nHashDrift.toNat - (n + 1)) = n + 1 by omega] at hearly
  rw [show nHashDrift.toNat - (nHashDrift.toNat - 1) = 1 by omega] at hlate
  refine honce _ _ (by omega) (by omega) (by omega) (hearly.trans hlate.symm) ?_
  rw [InInterval, hearly, toNat_add_ofNat]
  omega

end

end Interval

end Kernel

/-- With a hash drift of up to 60 seconds, the time that a search returns is one of the interval that
it searches, and no second of the interval is tried twice, if and only if the first second that is
found is the last or the first one that is tried and no other one is found after it. -/
theorem search_inInterval_iff (hash hash9 : Bytes → UInt256) (env : Env) (tree : BlockTree)
    (nBits : UInt32) (blockFrom : CBlock) (nTxPrevOffset : UInt32) (txPrev : CTransaction)
    (prevout : COutPoint) (nHashDrift : UInt32) (r : KernelTry) (hdrift : nHashDrift.toNat ≤ 60) :
    (∀ r', checkStakeKernelHash hash hash9 env tree nBits blockFrom nTxPrevOffset txPrev prevout
        nHashDrift false r = .ok (true, r') →
      Kernel.InInterval r.nTimeTx nHashDrift r'.nTimeTx ∧
        ∀ kernel, kernelFor hash9 env tree nBits blockFrom nTxPrevOffset txPrev prevout r.nTimeTx =
            some kernel → kernel.TriesOnce hash env nHashDrift r) ↔
      ∀ kernel n, kernelFor hash9 env tree nBits blockFrom nTxPrevOffset txPrev prevout r.nTimeTx =
          some kernel → kernel.FirstHit hash env nHashDrift.toNat r.nTimeTx n →
        kernel.StaysInside hash env nHashDrift r.nTimeTx n := by
  constructor
  · intro hinside kernel n hkernel hfirst
    have hlast := Kernel.lastFound_of_firstHit hfirst
    obtain ⟨⟨nFound, m⟩, hfound⟩ : ∃ found,
        kernel.lastFound hash env nHashDrift.toNat r.nTimeTx = some found := by
      rw [hlast]
      cases kernel.lastFound hash env (n - 1) (r.nTimeTx + UInt32.ofNat n) with
      | none => exact ⟨_, rfl⟩
      | some later => exact ⟨_, rfl⟩
    obtain ⟨r', hsearch, -, -⟩ := Kernel.search_of_lastFound hfound
    obtain ⟨hin, honce⟩ := hinside r' (checkStakeKernelHash_search.mpr ⟨kernel, hkernel, hsearch⟩)
    exact Kernel.staysInside_of_inInterval hdrift hfirst hin (honce kernel hkernel) hsearch
  · intro hstays r' hcall
    obtain ⟨kernel, hkernel, hsearch⟩ := checkStakeKernelHash_search.mp hcall
    obtain ⟨nFound, m, hlast⟩ := Kernel.exists_lastFound hsearch
    obtain ⟨n, hfirst⟩ := Kernel.exists_firstHit hlast
    obtain ⟨hin, honce⟩ :=
      Kernel.inInterval_of_staysInside hdrift hfirst (hstays kernel n hkernel hfirst) hsearch
    refine ⟨hin, fun kernel' hkernel' => ?_⟩
    rw [hkernel] at hkernel'
    cases hkernel'
    exact honce

/-! ## A search that goes on -/

/-- A hash for examples: the even seconds meet a target. -/
def evenHash (bytes : Bytes) : UInt256 :=
  if LittleEndian.leValue (bytes.drop 24) % 2 = 0 then 0 else BitVec.allOnes 256

/-- A call for the output of the genesis block. -/
def evenCall (nHashDrift : UInt32) (fCheck : Bool) (nTimeTx : UInt32) :
    Except Fault (Bool × KernelTry) :=
  checkStakeKernelHash evenHash (fun _ => 2) forkNode.env (forkTree [2, 3, 5]) 0x1d00ffff
    { nTime := 1424304823 } 0 { nTime := 1424304823, vout := [{ nValue := 72 * COIN }] }
    { hash := 9, n := 0 } nHashDrift fCheck { nTimeTx }

/-- What an example call returns, without the weight. -/
def evenResult (nHashDrift : UInt32) (fCheck : Bool) (nTimeTx : UInt32) :
    Option (Bool × UInt32 × UInt256) :=
  (evenCall nHashDrift fCheck nTimeTx).toOption.map fun result =>
    (result.1, result.2.nTimeTx, result.2.hashProofOfStake)

lemma evenCall_of_evenResult {nHashDrift nTimeTx nFound : UInt32} {fCheck found : Bool}
    {hashProofOfStake : UInt256}
    (h : evenResult nHashDrift fCheck nTimeTx = some (found, nFound, hashProofOfStake)) :
    ∃ r', evenCall nHashDrift fCheck nTimeTx = .ok (found, r') ∧ r'.nTimeTx = nFound ∧
      r'.hashProofOfStake = hashProofOfStake := by
  unfold evenResult at h
  cases hcall : evenCall nHashDrift fCheck nTimeTx with
  | error e =>
    rw [hcall] at h
    cases h
  | ok result =>
    rw [hcall] at h
    cases h
    exact ⟨result.2, rfl, rfl, rfl⟩

/-- Only the first of two seconds is found, in the last turn. -/
theorem search_inInterval_evenCall :
    ∃ r', evenCall 2 false 1424307225 = .ok (true, r') ∧
      Kernel.InInterval 1424307225 2 r'.nTimeTx := by
  have hfound : evenResult 2 false 1424307225 = some (true, 1424307226, 0) := by decide +kernel
  obtain ⟨r', hcall, -, -⟩ := evenCall_of_evenResult hfound
  have hmissed : (kernelFor (fun _ => 2) forkNode.env (forkTree [2, 3, 5]) 0x1d00ffff
      { nTime := 1424304823 } 0 { nTime := 1424304823, vout := [{ nValue := 72 * COIN }] }
      { hash := 9, n := 0 } 1424307225).map (fun kernel => kernel.hits evenHash forkNode.env
        (1424307225 + UInt32.ofNat 2) 1424307225) = some false := by decide +kernel
  refine ⟨r', hcall, ((search_inInterval_iff _ _ _ _ _ _ _ _ _ _ _ (by decide)).mpr ?_ r' hcall).1⟩
  intro kernel n hkernel hfirst
  have hn : n ≠ 2 := by
    rintro rfl
    rw [hkernel] at hmissed
    exact Bool.false_ne_true ((Option.some.inj hmissed).symm.trans hfirst.hits)
  obtain rfl : n = 1 := by
    have hpos := hfirst.pos
    have hle : n ≤ 2 := hfirst.le
    omega
  exact ⟨by decide, Or.inl rfl, fun m hm hlt => by omega⟩

/-- Of three seconds the last one is found, and from it the second one after it. -/
theorem not_search_inInterval : ¬ ∀ (hash hash9 : Bytes → UInt256) (env : Env) (tree : BlockTree)
    (nBits : UInt32) (blockFrom : CBlock) (nTxPrevOffset : UInt32) (txPrev : CTransaction)
    (prevout : COutPoint) (nHashDrift : UInt32) (r r' : KernelTry), 1 ≤ nHashDrift.toNat →
    nHashDrift.toNat ≤ 60 →
    checkStakeKernelHash hash hash9 env tree nBits blockFrom nTxPrevOffset txPrev prevout
        nHashDrift false r = .ok (true, r') →
      Kernel.InInterval r.nTimeTx nHashDrift r'.nTimeTx ∧
        ∀ kernel, kernelFor hash9 env tree nBits blockFrom nTxPrevOffset txPrev prevout r.nTimeTx =
            some kernel → kernel.TriesOnce hash env nHashDrift r := by
  intro hall
  have hfound : evenResult 3 false 1424307223 =
      some (true, 1424307228, BitVec.allOnes 256) := by decide +kernel
  obtain ⟨r', hcall, htime, -⟩ := evenCall_of_evenResult hfound
  have hin := (hall _ _ _ _ _ _ _ _ _ _ _ r' (by decide) (by decide) hcall).1
  rw [Kernel.InInterval, htime] at hin
  revert hin
  decide

end HyperStake
