import HyperStake.Library.MapLoop
import HyperStake.Library.StrideLoop
import Mathlib.Data.Finset.Insert
import Mathlib.Data.Int.Basic
import Mathlib.Logic.Function.Basic

/-!
# Locked pages

`LockedPageManagerBase` keeps memory out of the swap file.  Since the locks of the system do not
stack, it counts for each page the ranges that have been locked and share the page, and unlocks the
page with the last of them.

The loops over the pages of a range run to its last page, and do not end when that is the last page
of the address space (`lockRange_endless`).  As long as no range reaches that page and the counters
do not overflow, the locked pages are those of the outstanding ranges (`runs_pagesHeld`).
-/

namespace HyperStake

open StrideLoop

/-- How a call fails to return. -/
inductive PageFault where
  | assertion
  | endless

/-- The memory from an address on. -/
structure MemoryRange (w : ℕ) where
  p : BitVec w
  size : BitVec w
  deriving DecidableEq

/-- A `LockedPageManagerBase`, with the pages that its locker keeps locked.  The size of a page is
asserted to be a power of two. -/
structure LockedPageManager (w : ℕ) where
  pageSize : BitVec w
  assertion : pageSize &&& (pageSize - 1) = 0
  histogram : Std.ExtTreeMap (BitVec w) Int32 := {}
  locked : Finset (BitVec w) := ∅

variable {w : ℕ}

/-- The bitmask for extracting the page from an address. -/
def pageMask (pageSize : BitVec w) : BitVec w := ~~~(pageSize - 1)

namespace LockedPageManager

/-- A turn of the loop of `LockRange`. -/
def lockPage (m : LockedPageManager w) (page : BitVec w) :
    Except PageFault (LockedPageManager w) :=
  match m.histogram[page]? with
  | none =>
    .ok { m with locked := insert page m.locked, histogram := m.histogram.insert page 1 }
  | some n => .ok { m with histogram := m.histogram.insert page (n + 1) }

/-- A turn of the loop of `UnlockRange`. -/
def unlockPage (m : LockedPageManager w) (page : BitVec w) :
    Except PageFault (LockedPageManager w) :=
  match m.histogram[page]? with
  | none => .error .assertion
  | some n =>
    if n - 1 = 0 then
      .ok { m with locked := m.locked.erase page, histogram := m.histogram.erase page }
    else .ok { m with histogram := m.histogram.insert page (n - 1) }

/-- The loops over the pages of a range, for some number of turns at most. -/
def forPages (step : LockedPageManager w → BitVec w → Except PageFault (LockedPageManager w))
    (fuel : ℕ) (m : LockedPageManager w) (r : MemoryRange w) :
    Except PageFault (LockedPageManager w) :=
  if r.size = 0 then .ok m
  else
    let startPage := r.p &&& pageMask m.pageSize
    let endPage := (r.p + r.size - 1) &&& pageMask m.pageSize
    strideLoop .endless step m.pageSize endPage fuel startPage m

def lockRange (fuel : ℕ) (m : LockedPageManager w) (r : MemoryRange w) :
    Except PageFault (LockedPageManager w) := forPages lockPage fuel m r

def unlockRange (fuel : ℕ) (m : LockedPageManager w) (r : MemoryRange w) :
    Except PageFault (LockedPageManager w) := forPages unlockPage fuel m r

end LockedPageManager

/-! ## What is held -/

/-- The range is not empty beyond the end of the address space. -/
def MemoryRange.InSpace (r : MemoryRange w) : Prop := r.p.toNat + r.size.toNat ≤ 2 ^ w

/-- One of the bytes of the range is in the page. -/
def MemoryRange.Covers (pageSize : BitVec w) (r : MemoryRange w) (page : BitVec w) : Prop :=
  ∃ addr : BitVec w, r.p.toNat ≤ addr.toNat ∧ addr.toNat < r.p.toNat + r.size.toNat ∧
    addr &&& pageMask pageSize = page

open Classical in
/-- The number of ranges that cover a byte of the page. -/
noncomputable def covering (pageSize : BitVec w) (out : List (MemoryRange w)) (page : BitVec w) :
    ℕ := out.countP fun r => r.Covers pageSize page

/-- A page is locked if some outstanding range covers a byte of it, and its counter is the number of
these. -/
structure PagesHeld (m : LockedPageManager w) (out : List (MemoryRange w)) : Prop where
  locked : ∀ page, page ∈ m.locked ↔ ∃ r ∈ out, r.Covers m.pageSize page
  counter : ∀ page, (m.histogram[page]?).map Int32.toInt =
    if covering m.pageSize out page = 0 then none else some (covering m.pageSize out page : ℤ)

/-- A call returns if it is given enough turns. -/
def Returns (call : ℕ → Except PageFault (LockedPageManager w)) (m : LockedPageManager w) : Prop :=
  ∃ turns, ∀ fuel > turns, call fuel = .ok m

/-- Calls of which every unlocking is of a range that is outstanding. -/
inductive PageRun (pageSize : BitVec w)
    (admits : List (MemoryRange w) → MemoryRange w → Prop) :
    List (MemoryRange w) → LockedPageManager w → Prop
  | start (assertion : pageSize &&& (pageSize - 1) = 0) :
      PageRun pageSize admits [] { pageSize, assertion }
  | lock {out : List (MemoryRange w)} {m m' : LockedPageManager w} {r : MemoryRange w} :
      PageRun pageSize admits out m → r.InSpace → admits out r →
      Returns (m.lockRange · r) m' → PageRun pageSize admits (r :: out) m'
  | unlock {out : List (MemoryRange w)} {m m' : LockedPageManager w} {r : MemoryRange w} :
      PageRun pageSize admits out m → r ∈ out → Returns (m.unlockRange · r) m' →
      PageRun pageSize admits (out.erase r) m'

/-- The range does not reach the last page of the address space, and its pages are not in more ranges
than an `int` can count. -/
structure Admitted (pageSize : BitVec w) (out : List (MemoryRange w)) (r : MemoryRange w) : Prop
    where
  last : r.size ≠ 0 → pageSize ≠ 0 ∧ r.p.toNat + r.size.toNat ≤ 2 ^ w - pageSize.toNat
  count : ∀ page, covering pageSize (r :: out) page < 2 ^ 31

/-! ## The pages of a range -/

/-- The pages and their counters are those of a count of the ranges. -/
structure LockedPageManager.Represents (m : LockedPageManager w) (c : BitVec w → ℕ) : Prop where
  locked : ∀ page, page ∈ m.locked ↔ c page ≠ 0
  histogram : ∀ page, m.histogram[page]? = if c page = 0 then none else some (Int32.ofNat (c page))

variable {r : MemoryRange w}

/-- The last byte of a range that is not empty. -/
lemma MemoryRange.toNat_last (hsize : r.size ≠ 0) (hspace : r.InSpace) :
    (r.p + r.size - 1).toNat = r.p.toNat + r.size.toNat - 1 := by
  have hne : r.size.toNat ≠ 0 := fun hzero => hsize (BitVec.eq_of_toNat_eq hzero)
  have hlast : r.p + r.size - 1 = r.p + (r.size - 1) := by
    rw [BitVec.sub_eq_add_neg, BitVec.add_assoc, ← BitVec.sub_eq_add_neg]
  have hle : r.p.toNat + r.size.toNat ≤ 2 ^ w := hspace
  have hlt : r.p.toNat + (r.size.toNat - 1) < 2 ^ w := by omega
  rw [hlast, BitVec.toNat_add, toNat_sub_one hne, Nat.mod_eq_of_lt hlt]
  omega

/-- The pages that a range covers are the multiples from its first page to its last. -/
lemma MemoryRange.covers_iff {k : ℕ} {pageSize : BitVec w} (hk : pageSize.toNat = 2 ^ k)
    (hsize : r.size ≠ 0) (hspace : r.InSpace) (page : BitVec w) :
    r.Covers pageSize page ↔ ∃ j, r.p.toNat / 2 ^ k ≤ j ∧
      j ≤ (r.p.toNat + r.size.toNat - 1) / 2 ^ k ∧ page = multiple w k j := by
  have hne : r.size.toNat ≠ 0 := fun hzero => hsize (BitVec.eq_of_toNat_eq hzero)
  have hpos := Nat.two_pow_pos k
  constructor
  · rintro ⟨addr, hle, hlt, rfl⟩
    exact ⟨addr.toNat / 2 ^ k, Nat.div_le_div_right hle, Nat.div_le_div_right (by omega),
      and_not_sub_one hk addr⟩
  · rintro ⟨j, hfirst, hlast, rfl⟩
    have hj : j * 2 ^ k ≤ r.p.toNat + r.size.toNat - 1 := (Nat.le_div_iff_mul_le hpos).mp hlast
    have hle : r.p.toNat + r.size.toNat ≤ 2 ^ w := hspace
    have haddr : max r.p.toNat (j * 2 ^ k) < 2 ^ w := by omega
    refine ⟨BitVec.ofNat w (max r.p.toNat (j * 2 ^ k)), ?_, ?_, ?_⟩
    · rw [BitVec.toNat_ofNat, Nat.mod_eq_of_lt haddr]
      exact le_max_left _ _
    · rw [BitVec.toNat_ofNat, Nat.mod_eq_of_lt haddr]
      omega
    · have hdiv : max r.p.toNat (j * 2 ^ k) / 2 ^ k = j := by
        rcases le_total r.p.toNat (j * 2 ^ k) with hle | hle
        · rw [max_eq_right hle, Nat.mul_div_cancel _ hpos]
        · rw [max_eq_left hle]
          exact le_antisymm hfirst ((Nat.le_div_iff_mul_le hpos).mpr hle)
      rw [pageMask, and_not_sub_one hk, BitVec.toNat_ofNat, Nat.mod_eq_of_lt haddr, hdiv]

lemma Returns.unique {m m' : LockedPageManager w}
    {call : ℕ → Except PageFault (LockedPageManager w)} (h : Returns call m)
    (h' : Returns call m') : m = m' := by
  obtain ⟨n, hn⟩ := h
  obtain ⟨n', hn'⟩ := h'
  have heq := (hn (max n n' + 1) (by omega)).symm.trans (hn' (max n n' + 1) (by omega))
  exact Except.ok.inj heq

namespace LockedPageManager

variable {m m' : LockedPageManager w} {r : MemoryRange w} {c : BitVec w → ℕ}

lemma lockPage_spec (h : m.Represents c) (page : BitVec w) :
    ∃ m', m.lockPage page = .ok m' ∧ m'.pageSize = m.pageSize ∧
      m'.Represents (Function.update c page (c page + 1)) := by
  have hget := h.histogram page
  unfold lockPage
  by_cases hc : c page = 0
  · rw [if_pos hc] at hget
    rw [hget]
    refine ⟨_, rfl, rfl, fun q => ?_, fun q => ?_⟩
    · by_cases hq : q = page
      · simp [hq]
      · simp [hq, h.locked q]
    · by_cases hq : q = page
      · simp [hq, hc]
      · simp [hq, Ne.symm hq, h.histogram q, Std.ExtTreeMap.getElem?_insert]
  · rw [if_neg hc] at hget
    rw [hget]
    refine ⟨_, rfl, rfl, fun q => ?_, fun q => ?_⟩
    · by_cases hq : q = page
      · simp [hq, h.locked page, hc]
      · simp [hq, h.locked q]
    · by_cases hq : q = page
      · simp [hq]
      · simp [hq, Ne.symm hq, h.histogram q, Std.ExtTreeMap.getElem?_insert]

lemma unlockPage_spec (h : m.Represents c) {page : BitVec w} (hc : c page ≠ 0)
    (hlt : c page < 2 ^ 31) :
    ∃ m', m.unlockPage page = .ok m' ∧ m'.pageSize = m.pageSize ∧
      m'.Represents (Function.update c page (c page - 1)) := by
  obtain ⟨n, hn⟩ := Nat.exists_eq_add_one_of_ne_zero hc
  have hget := h.histogram page
  have hsub : Int32.ofNat (n + 1) - 1 = Int32.ofNat n := by
    rw [Int32.ofNat_add]
    exact Int32.add_sub_cancel _ _
  have hzero : Int32.ofNat n = 0 ↔ n = 0 := by
    rw [← Int32.toInt_inj, Int32.toInt_ofNat_of_lt (by omega)]
    exact Int.natCast_eq_zero
  rw [if_neg hc, hn] at hget
  unfold unlockPage
  simp only [hget, hsub, hzero]
  rw [hn, Nat.add_sub_cancel]
  split_ifs with hlast
  · refine ⟨_, rfl, rfl, fun q => ?_, fun q => ?_⟩
    · by_cases hq : q = page
      · simp [hq, hlast]
      · simp [hq, h.locked q]
    · by_cases hq : q = page
      · simp [hq, hlast]
      · simp [hq, Ne.symm hq, h.histogram q, Std.ExtTreeMap.getElem?_erase]
  · refine ⟨_, rfl, rfl, fun q => ?_, fun q => ?_⟩
    · by_cases hq : q = page
      · simp [hq, h.locked page, hn, hlast]
      · simp [hq, h.locked q]
    · by_cases hq : q = page
      · simp [hq, hlast]
      · simp [hq, Ne.symm hq, h.histogram q, Std.ExtTreeMap.getElem?_insert]

open Classical in
/-- A loop over the pages of a range changes the counters of these pages. -/
lemma forPages_spec
    {step : LockedPageManager w → BitVec w → Except PageFault (LockedPageManager w)} {g : ℕ → ℕ}
    {P : ℕ → Prop}
    (hstep : ∀ m c page, m.Represents c → P (c page) → ∃ m', step m page = .ok m' ∧
      m'.pageSize = m.pageSize ∧ m'.Represents (Function.update c page (g (c page))))
    (h : m.Represents c) (hP : ∀ page, r.Covers m.pageSize page → P (c page))
    (hlast : r.size ≠ 0 → m.pageSize ≠ 0 ∧
      r.p.toNat + r.size.toNat ≤ 2 ^ w - m.pageSize.toNat) :
    ∃ m', Returns (m.forPages step · r) m' ∧ m'.pageSize = m.pageSize ∧
      m'.Represents fun page => if r.Covers m.pageSize page then g (c page) else c page := by
  by_cases hsize : r.size = 0
  · have hnone : ∀ page, ¬ r.Covers m.pageSize page := by
      rintro page ⟨addr, hle, hlt, -⟩
      have hzero : r.size.toNat = 0 := congrArg BitVec.toNat hsize
      omega
    refine ⟨m, ⟨0, fun fuel _ => if_pos hsize⟩, rfl, ?_⟩
    simp only [hnone, if_false]
    exact h
  obtain ⟨hpage, hend⟩ := hlast hsize
  obtain ⟨k, hkw, hk⟩ := exists_two_pow hpage m.assertion
  rw [hk] at hend
  have hpos := Nat.two_pow_pos k
  have hspace : r.InSpace := hend.trans (Nat.sub_le _ _)
  have hne : r.size.toNat ≠ 0 := fun hzero => hsize (BitVec.eq_of_toNat_eq hzero)
  let a := r.p.toNat / 2 ^ k
  let b := (r.p.toNat + r.size.toNat - 1) / 2 ^ k
  have hab : a ≤ b := Nat.div_le_div_right (by omega)
  have hb : (b + 1) * 2 ^ k < 2 ^ w := by
    have hmul : b * 2 ^ k ≤ r.p.toNat + r.size.toNat - 1 := Nat.div_mul_le_self _ _
    rw [add_mul, one_mul]
    omega
  -- the pages of the turns so far are counted
  let seen : ℕ → BitVec w → Prop := fun i page => ∃ j, a ≤ j ∧ j < i ∧ page = multiple w k j
  let I : ℕ → LockedPageManager w → Prop := fun i s => s.pageSize = m.pageSize ∧
    s.Represents fun page => if seen i page then g (c page) else c page
  have hinj : ∀ i j, i ≤ b → j ≤ b → multiple w k i = multiple w k j → i = j := by
    intro i j hi hj heq
    have hlt : ∀ i ≤ b, i * 2 ^ k < 2 ^ w := fun i hi =>
      (Nat.mul_le_mul_right _ (hi.trans b.le_succ)).trans_lt hb
    have hnat := congrArg BitVec.toNat heq
    rw [toNat_multiple (hlt i hi), toNat_multiple (hlt j hj)] at hnat
    exact Nat.eq_of_mul_eq_mul_right hpos hnat
  have hturn : ∀ i s, a ≤ i → i ≤ b → I i s →
      ∃ s', step s (multiple w k i) = .ok s' ∧ I (i + 1) s' := by
    rintro i s hai hib ⟨hsame, hrep⟩
    have hnew : ¬ seen i (multiple w k i) := by
      rintro ⟨j, -, hji, heq⟩
      exact absurd (hinj i j hib (by omega) heq) (by omega)
    have hcovers : r.Covers m.pageSize (multiple w k i) :=
      (MemoryRange.covers_iff hk hsize hspace _).mpr ⟨i, hai, hib, rfl⟩
    obtain ⟨s', hs', hsame', hrep'⟩ := hstep s _ (multiple w k i) hrep (by
      rw [if_neg hnew]
      exact hP _ hcovers)
    refine ⟨s', hs', hsame'.trans hsame, ?_⟩
    convert hrep' using 2 with page
    by_cases hq : page = multiple w k i
    · rw [hq, Function.update_self, if_neg hnew, if_pos ⟨i, hai, i.lt_succ_self, rfl⟩]
    · have hiff : seen (i + 1) page ↔ seen i page :=
        ⟨fun ⟨j, haj, hji, heq⟩ => ⟨j, haj, lt_of_le_of_ne (Nat.le_of_lt_succ hji)
            (by rintro rfl; exact hq heq), heq⟩,
          fun ⟨j, haj, hji, heq⟩ => ⟨j, haj, hji.trans i.lt_succ_self, heq⟩⟩
      rw [Function.update_of_ne hq]
      simp only [hiff]
  have hstart : I a m := by
    refine ⟨rfl, ?_⟩
    have hnone : ∀ page, ¬ seen a page := fun page ⟨j, haj, hja, _⟩ => absurd haj (by omega)
    simp only [hnone, if_false]
    exact h
  obtain ⟨m', ⟨hsame, hrep⟩, hloop⟩ := strideLoop_spec .endless hk hb (b + 1 - a) (by omega)
    hturn hstart
  refine ⟨m', ⟨b + 1 - a, fun fuel hfuel => ?_⟩, hsame, ?_⟩
  · change m.forPages step fuel r = _
    rw [forPages, if_neg hsize, pageMask, and_not_sub_one hk, and_not_sub_one hk,
      MemoryRange.toNat_last hsize hspace]
    exact hloop fuel hfuel
  · have hseen : ∀ page, r.Covers m.pageSize page ↔ seen (b + 1) page := fun page =>
      (MemoryRange.covers_iff hk hsize hspace page).trans
        ⟨fun ⟨j, haj, hjb, heq⟩ => ⟨j, haj, Nat.lt_succ_of_le hjb, heq⟩,
          fun ⟨j, haj, hjb, heq⟩ => ⟨j, haj, Nat.le_of_lt_succ hjb, heq⟩⟩
    simp only [hseen]
    exact hrep

/-- The loop of `LockRange` does not leave the last page of the address space. -/
lemma lockRange_endless {k : ℕ} (hkw : k ≤ w) (hk : m.pageSize.toNat = 2 ^ k) (hsize : r.size ≠ 0)
    (hspace : r.InSpace) (hlast : 2 ^ w - 2 ^ k < r.p.toNat + r.size.toNat) (fuel : ℕ) :
    m.lockRange fuel r = .error .endless := by
  have hturn : ∀ (s : LockedPageManager w) page, ∃ s', s.lockPage page = .ok s' := by
    intro s page
    unfold lockPage
    split
    · exact ⟨_, rfl⟩
    · exact ⟨_, rfl⟩
  have hb : ((r.p.toNat + r.size.toNat - 1) / 2 ^ k + 1) * 2 ^ k = 2 ^ w := by
    have hpos := Nat.two_pow_pos k
    have hpages : 2 ^ w = 2 ^ (w - k) * 2 ^ k := by rw [← pow_add, Nat.sub_add_cancel hkw]
    have hdiv : (r.p.toNat + r.size.toNat - 1) / 2 ^ k = 2 ^ (w - k) - 1 := by
      have hone := Nat.two_pow_pos (w - k)
      have hspace' : r.p.toNat + r.size.toNat ≤ 2 ^ w := hspace
      rw [Nat.div_eq_iff hpos, Nat.sub_mul, one_mul, ← hpages]
      have hle : 2 ^ k ≤ 2 ^ w := Nat.pow_le_pow_right (by decide) hkw
      omega
    rw [hdiv, Nat.sub_add_cancel (Nat.two_pow_pos _), hpages]
  rw [lockRange, forPages, if_neg hsize, pageMask, and_not_sub_one hk, and_not_sub_one hk,
    MemoryRange.toNat_last hsize hspace]
  exact strideLoop_endless hk hturn hb fuel _ m

end LockedPageManager

/-! ## Runs -/

section Runs

variable {pageSize : BitVec w} {out : List (MemoryRange w)} {m : LockedPageManager w}

/-- What holds in a run. -/
structure LockedPageManager.Holds (m : LockedPageManager w) (pageSize : BitVec w)
    (out : List (MemoryRange w)) : Prop where
  same : m.pageSize = pageSize
  represents : m.Represents (covering pageSize out)
  count : ∀ page, covering pageSize out page < 2 ^ 31
  last : ∀ r ∈ out, r.size ≠ 0 →
    pageSize ≠ 0 ∧ r.p.toNat + r.size.toNat ≤ 2 ^ w - pageSize.toNat

lemma LockedPageManager.Holds.lockRange (h : m.Holds pageSize out)
    (hadmitted : Admitted pageSize out r) :
    ∃ m', Returns (m.lockRange · r) m' ∧ m'.Holds pageSize (r :: out) := by
  obtain ⟨rfl, hrep, hcount, hlast⟩ := h
  obtain ⟨m', hreturns, hsame, hrep'⟩ := forPages_spec (P := fun _ => True)
    (fun m c page h _ => lockPage_spec h page) hrep (fun _ _ => trivial) hadmitted.last
  refine ⟨m', hreturns, hsame, ?_, hadmitted.count, List.forall_mem_cons.mpr
    ⟨hadmitted.last, hlast⟩⟩
  convert hrep' using 2 with page
  rw [covering, List.countP_cons]
  by_cases hcovers : r.Covers m.pageSize page
  · simp [hcovers, covering]
  · simp [hcovers, covering]

lemma LockedPageManager.Holds.unlockRange (h : m.Holds pageSize out) (hr : r ∈ out) :
    ∃ m', Returns (m.unlockRange · r) m' ∧ m'.Holds pageSize (out.erase r) := by
  classical
  obtain ⟨rfl, hrep, hcount, hlast⟩ := h
  obtain ⟨m', hreturns, hsame, hrep'⟩ := forPages_spec (g := (· - 1))
    (P := fun n => n ≠ 0 ∧ n < 2 ^ 31) (fun m c page h hn => unlockPage_spec h hn.1 hn.2) hrep
    (fun page hcovers => ⟨List.countP_pos_iff.mpr ⟨r, hr, by simpa using hcovers⟩ |>.ne',
      hcount page⟩) (hlast r hr)
  have herase : ∀ page, covering m.pageSize (out.erase r) page =
      if r.Covers m.pageSize page then covering m.pageSize out page - 1
      else covering m.pageSize out page := by
    intro page
    rw [covering, List.countP_erase]
    by_cases hcovers : r.Covers m.pageSize page
    · simp [hcovers, hr, covering]
    · simp [hcovers, covering]
  refine ⟨m', hreturns, hsame, ?_, fun page => ?_, fun q hq => hlast q (List.mem_of_mem_erase hq)⟩
  · rw [funext herase]
    exact hrep'
  · refine lt_of_le_of_lt ?_ (hcount page)
    exact (List.erase_sublist).countP_le

lemma PageRun.holds (hrun : PageRun pageSize (Admitted pageSize) out m) : m.Holds pageSize out := by
  induction hrun with
  | start assertion =>
    refine ⟨rfl, ⟨fun page => ?_, fun page => ?_⟩, fun page => ?_, by simp⟩
    · simp [covering]
    · simp [covering]
    · simp [covering]
  | lock _ _ hadmitted hreturns ih =>
    obtain ⟨m', hreturns', hm'⟩ := ih.lockRange hadmitted
    rwa [hreturns.unique hreturns']
  | unlock _ hr hreturns ih =>
    obtain ⟨m', hreturns', hm'⟩ := ih.unlockRange hr
    rwa [hreturns.unique hreturns']

lemma LockedPageManager.Holds.pagesHeld (h : m.Holds pageSize out) : PagesHeld m out := by
  obtain ⟨rfl, hrep, hcount, -⟩ := h
  refine ⟨fun page => ?_, fun page => ?_⟩
  · rw [hrep.locked, ← Nat.pos_iff_ne_zero, covering, List.countP_pos_iff]
    simp
  · rw [hrep.histogram]
    split_ifs
    · rfl
    · rw [Option.map_some, Int32.toInt_ofNat_of_lt (hcount page)]

/-- Where every range that is locked is admitted, the calls return, and the locked pages are those of
the outstanding ranges. -/
theorem runs_pagesHeld (hrun : PageRun pageSize (Admitted pageSize) out m) :
    PagesHeld m out ∧
      (∀ r, r.InSpace → Admitted pageSize out r → ∃ m', Returns (m.lockRange · r) m') ∧
      ∀ r ∈ out, ∃ m', Returns (m.unlockRange · r) m' :=
  ⟨hrun.holds.pagesHeld,
    fun _ _ hadmitted => (hrun.holds.lockRange hadmitted).imp fun _ h => h.1,
    fun _ hr => (hrun.holds.unlockRange hr).imp fun _ h => h.1⟩

/-- The manager after the first byte has been locked. -/
def firstPageLocked : LockedPageManager 64 where
  pageSize := 4096
  assertion := by decide
  histogram := ({} : Std.ExtTreeMap (BitVec 64) Int32).insert 0 1
  locked := {0}

theorem runs_pagesHeld_firstPage : PagesHeld firstPageLocked [⟨0, 1⟩] ∧
    (∀ r, r.InSpace → Admitted 4096 [⟨0, 1⟩] r →
      ∃ m', Returns (firstPageLocked.lockRange · r) m') ∧
    ∀ r ∈ [⟨0, 1⟩], ∃ m', Returns (firstPageLocked.unlockRange · r) m' := by
  refine runs_pagesHeld (.lock (.start (by decide)) (r := ⟨0, 1⟩) ?_ ⟨?_, ?_⟩ ⟨1, ?_⟩)
  · change _ ≤ _
    decide
  · decide
  · exact fun page => lt_of_le_of_lt List.countP_le_length (by decide)
  · intro fuel hfuel
    obtain ⟨fuel, rfl⟩ := Nat.exists_eq_add_of_le' (show 2 ≤ fuel from hfuel)
    rfl

/-- A range that ends with the address space is not locked. -/
theorem not_returns_lastByte : ¬ ∀ (w : ℕ) (pageSize : BitVec w) (out : List (MemoryRange w))
    (m : LockedPageManager w), PageRun pageSize (fun _ _ => True) out m → PagesHeld m out ∧
      (∀ r, r.InSpace → ∃ m', Returns (m.lockRange · r) m') ∧
      ∀ r ∈ out, ∃ m', Returns (m.unlockRange · r) m' := by
  intro hall
  obtain ⟨-, hlock, -⟩ := hall 64 4096 [] _ (.start (by decide))
  have hspace : MemoryRange.InSpace (⟨BitVec.allOnes 64, 1⟩ : MemoryRange 64) := by
    change _ ≤ _
    decide
  obtain ⟨m', turns, hturns⟩ := hlock _ hspace
  have hendless := LockedPageManager.lockRange_endless (k := 12) (by decide) rfl (by decide) hspace
    (by decide) (turns + 1) (m := { pageSize := 4096, assertion := by decide })
  cases (hturns _ turns.lt_succ_self).symm.trans hendless

end Runs

end HyperStake
