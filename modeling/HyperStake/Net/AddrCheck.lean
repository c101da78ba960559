import Mathlib.Algebra.BigOperators.Fin
import HyperStake.Library.ExceptLoop
import HyperStake.Net.AddrCalls

/-!
# The consistency check of the address manager

`Check_` goes over the records, the "tried" buckets and the "new" buckets, and returns the number of
the first rule that is broken.  When the containers belong together and the times of the records are
right (`Timed`), it finds nothing (`check_eq_zero`).
-/

namespace HyperStake.Net

namespace CAddrMan

/-- The checks of one record.  Where the index has no entry for an address, `mapAddr[info]` is
zero. -/
def checkEntry (am : CAddrMan) (st : Finset ℕ × Std.ExtTreeMap ℕ ℤ) (it : ℕ × CAddrInfo) :
    Except ℤ (Finset ℕ × Std.ExtTreeMap ℕ ℤ) := do
  let info := it.2
  let st' ←
    if info.fInTried then
      if info.nLastSuccess = 0 then .error (-1)
      else if info.nRefCount ≠ 0 then .error (-2)
      else .ok (insert it.1 st.1, st.2)
    else
      if info.nRefCount < 0 ∨ info.nRefCount > ADDRMAN_NEW_BUCKETS_PER_ADDRESS then .error (-3)
      else if info.nRefCount = 0 then .error (-4)
      else .ok (st.1, st.2.insert it.1 info.nRefCount)
  if am.mapAddr[info.ip]?.getD 0 ≠ it.1 then .error (-5)
  else if info.nRandomPos < 0 ∨ info.nRandomPos ≥ am.vRandom.length ∨
      am.vRandom[info.nRandomPos.toNat]? ≠ some it.1 then .error (-14)
  else if info.nLastTry < 0 then .error (-6)
  else if info.nLastSuccess < 0 then .error (-8)
  else .ok st'

/-- The loop over the "tried" buckets. -/
def eraseTried : List ℕ → Finset ℕ → Except ℤ (Finset ℕ)
  | [], setTried => .ok setTried
  | n :: rest, setTried =>
    if n ∉ setTried then .error (-11) else eraseTried rest (setTried.erase n)

/-- The loop over the "new" buckets. -/
def eraseNew : List ℕ → Std.ExtTreeMap ℕ ℤ → Except ℤ (Std.ExtTreeMap ℕ ℤ)
  | [], mapNew => .ok mapNew
  | n :: rest, mapNew =>
    match mapNew[n]? with
    | none => .error (-12)
    | some k => eraseNew rest (if k - 1 = 0 then mapNew.erase n else mapNew.insert n (k - 1))

/-- The entries of the "tried" buckets, bucket by bucket. -/
def triedEntries (am : CAddrMan) : List ℕ :=
  (List.finRange ADDRMAN_TRIED_BUCKET_COUNT).flatMap am.vvTried

/-- The entries of the "new" buckets, bucket by bucket. -/
def newEntries (am : CAddrMan) : List ℕ :=
  (List.finRange ADDRMAN_NEW_BUCKET_COUNT).flatMap fun b => (am.vvNew b).sort (· ≤ ·)

/-- `Check_`, stopping at the first broken rule. -/
def checkRules (am : CAddrMan) : Except ℤ Unit :=
  if (am.vRandom.length : ℤ) ≠ am.nTried + am.nNew then .error (-7)
  else
    (am.mapInfo.toList.foldlM am.checkEntry (∅, ∅)).bind fun st =>
      if (st.1.card : ℤ) ≠ am.nTried then .error (-9)
      else if (st.2.size : ℤ) ≠ am.nNew then .error (-10)
      else
        (eraseTried am.triedEntries st.1).bind fun setTried =>
          (eraseNew am.newEntries st.2).bind fun mapNew =>
            if setTried.card ≠ 0 then .error (-13)
            else if mapNew.size ≠ 0 then .error (-15)
            else .ok ()

/-- `Check_`: zero, or the number of the broken rule. -/
def check (am : CAddrMan) : ℤ :=
  match am.checkRules with
  | .ok _ => 0
  | .error err => err

/-- The times of the records are those of calls at a time after the epoch. -/
def Timed (am : CAddrMan) : Prop :=
  ∀ (n : ℕ) (info : CAddrInfo), am.mapInfo[n]? = some info →
    0 ≤ info.nLastTry ∧ 0 ≤ info.nLastSuccess ∧ (info.fInTried = true → info.nLastSuccess ≠ 0)

variable {Hash : Bytes → UInt256} {am : CAddrMan} {n : ℕ} {info : CAddrInfo}

/-- What the loop over the records collects. -/
def collect (st : Finset ℕ × Std.ExtTreeMap ℕ ℤ) (it : ℕ × CAddrInfo) :
    Finset ℕ × Std.ExtTreeMap ℕ ℤ :=
  if it.2.fInTried then (insert it.1 st.1, st.2) else (st.1, st.2.insert it.1 it.2.nRefCount)

/-- No rule about a single record is broken. -/
lemma checkEntry_eq (h : Settled Hash am) (ht : Timed am) (hn : am.mapInfo[n]? = some info)
    (st : Finset ℕ × Std.ExtTreeMap ℕ ℤ) :
    am.checkEntry st (n, info) = .ok (collect st (n, info)) := by
  obtain ⟨hlastTry, hlastSuccess, hne⟩ := ht n info hn
  obtain ⟨p, hp, hat⟩ := h.pool.exists_pos hn
  have hlt := (List.getElem?_eq_some_iff.mp hat).1
  have hpos : info.nRandomPos = p := hp
  have haddr : am.mapAddr[info.ip]? = some n := h.pool.index_eq hn
  have hplaced := h.placed_of_eq hn
  have hlookup : ¬ am.mapAddr[info.ip]?.getD 0 ≠ n := by
    rw [haddr]
    exact not_not.mpr rfl
  have hrandom : ¬ (info.nRandomPos < 0 ∨ info.nRandomPos ≥ am.vRandom.length ∨
      am.vRandom[info.nRandomPos.toNat]? ≠ some n) := by
    rw [hpos, Int.toNat_natCast, hat]
    simp only [ne_eq, not_true_eq_false, or_false]
    omega
  have htry : ¬ info.nLastTry < 0 := Int64.not_lt.mpr hlastTry
  have hsuccess : ¬ info.nLastSuccess < 0 := Int64.not_lt.mpr hlastSuccess
  unfold checkEntry collect
  rcases htried : info.fInTried with _ | _
  · rw [CAddrInfo.status, htried] at hplaced
    obtain ⟨-, hone, hfour, -⟩ := hplaced
    have hrange : ¬ (info.nRefCount < 0 ∨ info.nRefCount > ADDRMAN_NEW_BUCKETS_PER_ADDRESS) := by
      omega
    have hne0 : ¬ info.nRefCount = 0 := by omega
    simp only [htried, if_neg hrange, if_neg hne0, if_neg hlookup, if_neg hrandom, if_neg htry,
      if_neg hsuccess]
    rfl
  · rw [CAddrInfo.status, htried] at hplaced
    have hzero : ¬ info.nRefCount ≠ 0 := not_not.mpr hplaced.1
    simp only [htried, if_neg (hne htried), if_neg hzero, if_neg hlookup, if_neg hrandom,
      if_neg htry, if_neg hsuccess]
    rfl

/-- The tried entries that the loop over the records collects. -/
lemma mem_foldl_collect (its : List (ℕ × CAddrInfo)) (st : Finset ℕ × Std.ExtTreeMap ℕ ℤ) :
    n ∈ (its.foldl collect st).1 ↔ n ∈ st.1 ∨ ∃ it ∈ its, it.1 = n ∧ it.2.fInTried = true := by
  induction its generalizing st with
  | nil => simp
  | cons it its ih =>
    rw [List.foldl_cons, ih, collect]
    rcases htried : it.2.fInTried with _ | _
    · simp [htried]
    · simp only [if_true, Finset.mem_insert, List.mem_cons, exists_eq_or_imp, htried, and_true]
      rw [or_comm (a := n = it.1), or_assoc, eq_comm (a := n)]

/-- The counts of references that the loop over the records collects. -/
lemma getElem?_foldl_collect (its : List (ℕ × CAddrInfo)) (hnodup : (its.map Prod.fst).Nodup)
    (st : Finset ℕ × Std.ExtTreeMap ℕ ℤ) (hst : ∀ it ∈ its, st.2[it.1]? = none) (k : ℤ) :
    (its.foldl collect st).2[n]? = some k ↔ st.2[n]? = some k ∨
      ∃ it ∈ its, it.1 = n ∧ it.2.fInTried = false ∧ it.2.nRefCount = k := by
  induction its generalizing st with
  | nil => simp
  | cons it its ih =>
    obtain ⟨hit, hits⟩ := List.nodup_cons.mp hnodup
    have hnext : ∀ it' ∈ its, (collect st it).2[it'.1]? = none := by
      intro it' hit'
      have hne : it.1 ≠ it'.1 := fun heq =>
        hit (by rw [heq]; exact List.mem_map_of_mem hit')
      rw [collect]
      split
      · exact hst it' (List.mem_cons_of_mem _ hit')
      · exact (MapLoop.getElem?_insert_eq _ _ _ _).trans
          ((if_neg hne).trans (hst it' (List.mem_cons_of_mem _ hit')))
    rw [List.foldl_cons, ih hits _ hnext, collect]
    rcases htried : it.2.fInTried with _ | _
    · have hnone := hst it List.mem_cons_self
      simp only [Bool.false_eq_true, if_false, MapLoop.getElem?_insert_eq, List.mem_cons,
        exists_eq_or_imp, htried, true_and]
      rw [← or_assoc]
      refine or_congr ?_ Iff.rfl
      by_cases hn : it.1 = n
      · subst hn
        simp [hnone]
      · simp [hn]
    · simp [htried]

/-- The loop over the "tried" buckets erases every entry once. -/
lemma eraseTried_eq {l : List ℕ} {setTried : Finset ℕ} (hnodup : l.Nodup)
    (h : ∀ n ∈ l, n ∈ setTried) : eraseTried l setTried = .ok (setTried \ l.toFinset) := by
  induction l generalizing setTried with
  | nil => simp [eraseTried]
  | cons n rest ih =>
    obtain ⟨hn, hrest⟩ := List.nodup_cons.mp hnodup
    have hmem : ∀ m ∈ rest, m ∈ setTried.erase n := fun m hm =>
      Finset.mem_erase.mpr ⟨fun heq => hn (heq ▸ hm), h m (List.mem_cons_of_mem _ hm)⟩
    rw [eraseTried, if_neg (not_not.mpr (h n List.mem_cons_self)), ih hrest hmem,
      List.toFinset_cons, Finset.erase_sdiff_comm, Finset.sdiff_insert]

/-- The loop over the "new" buckets counts every entry down to nothing. -/
lemma eraseNew_eq {l : List ℕ} {mapNew : Std.ExtTreeMap ℕ ℤ}
    (h : ∀ n : ℕ, mapNew[n]? = if l.count n = 0 then none else some (l.count n : ℤ)) :
    eraseNew l mapNew = .ok ∅ := by
  induction l generalizing mapNew with
  | nil =>
    have hempty : mapNew = ∅ := Std.ExtTreeMap.ext_getElem? fun n => by rw [h n]; simp
    rw [eraseNew, hempty]
  | cons n rest ih =>
    have hn := h n
    rw [List.count_cons_self, if_neg (Nat.succ_ne_zero _)] at hn
    simp only [eraseNew, hn]
    refine ih fun m => ?_
    have hm := h m
    by_cases hnm : n = m
    · subst hnm
      by_cases hzero : rest.count n = 0
      · simp [hzero]
      · have hpred : ((rest.count n + 1 : ℕ) : ℤ) - 1 = rest.count n := by omega
        rw [hpred, if_neg (by omega), if_neg hzero]
        exact Std.ExtTreeMap.getElem?_insert_self
    · rw [List.count_cons_of_ne hnm] at hm
      rw [← hm]
      split
      · exact (MapLoop.getElem?_erase_eq _ _ _).trans (if_neg hnm)
      · exact (MapLoop.getElem?_insert_eq _ _ _ _).trans (if_neg hnm)

/-! ## The entries of the buckets -/

/-- The entries of the "tried" buckets are the tried ones. -/
lemma mem_triedEntries (h : Settled Hash am) :
    n ∈ am.triedEntries ↔ ∃ info, am.mapInfo[n]? = some info ∧ info.fInTried = true := by
  rw [triedEntries, List.mem_flatMap]
  constructor
  · rintro ⟨b, -, hb⟩
    obtain ⟨info, hinfo, htried, -⟩ := h.exists_of_mem_tried hb
    exact ⟨info, hinfo, htried⟩
  · rintro ⟨info, hinfo, htried⟩
    have hplaced := h.placed_of_eq hinfo
    rw [CAddrInfo.status, htried] at hplaced
    exact ⟨_, List.mem_finRange _, (hplaced.2.2 _).mpr rfl⟩

/-- No entry is in the "tried" buckets twice. -/
lemma nodup_triedEntries (h : Settled Hash am) : am.triedEntries.Nodup := by
  rw [triedEntries, List.nodup_flatMap]
  refine ⟨fun b _ => h.nodup b, ?_⟩
  refine (List.nodup_finRange _).imp fun {b c} hbc n hb hc => hbc ?_
  obtain ⟨info, -, -, -, -, hin⟩ := h.exists_of_mem_tried hb
  exact ((hin b).mp hb).trans ((hin c).mp hc).symm

/-- The "tried" buckets have as many entries as are counted. -/
lemma length_triedEntries (h : Settled Hash am) : (am.triedEntries.length : ℤ) = am.nTried := by
  rw [h.nTried_eq, triedEntries, List.length_flatMap, Fin.sum_univ_def, Nat.cast_list_sum,
    List.map_map]
  rfl

/-- An entry is in the "new" buckets as often as its record counts. -/
lemma count_newEntries : am.newEntries.count n = (am.buckets n).card := by
  have hone : ∀ b, ((am.vvNew b).sort (· ≤ ·)).count n = if n ∈ am.vvNew b then 1 else 0 := by
    intro b
    rw [(Finset.sort_nodup _ _).count]
    simp only [Finset.mem_sort]
  rw [newEntries, List.count_flatMap, buckets, Finset.card_filter, Fin.sum_univ_def]
  exact congrArg List.sum (List.map_congr_left fun b _ => hone b)

/-- The records, as the loops of `Check_` go over them. -/
lemma exists_mem_toList {p : CAddrInfo → Prop} :
    (∃ it ∈ am.mapInfo.toList, it.1 = n ∧ p it.2) ↔ ∃ info, am.mapInfo[n]? = some info ∧ p info := by
  constructor
  · rintro ⟨⟨m, info⟩, hit, rfl, hp⟩
    exact ⟨info, Std.ExtTreeMap.mem_toList_iff_getElem?_eq_some.mp hit, hp⟩
  · rintro ⟨info, hinfo, hp⟩
    exact ⟨(n, info), Std.ExtTreeMap.mem_toList_iff_getElem?_eq_some.mpr hinfo, rfl, hp⟩

/-- `Check_` finds nothing wrong when the containers belong together and the times are right. -/
lemma check_eq_zero (h : Settled Hash am) (ht : Timed am) : am.check = 0 := by
  set st := am.mapInfo.toList.foldl collect (∅, ∅) with hst
  have hloop : am.mapInfo.toList.foldlM am.checkEntry (∅, ∅) = .ok st := by
    refine ExceptLoop.foldlM_ok (fun it hit b => ?_) _
    exact checkEntry_eq h ht (Std.ExtTreeMap.mem_toList_iff_getElem?_eq_some.mp hit) b
  -- what the loop over the records has collected
  have htried : ∀ n, n ∈ st.1 ↔ n ∈ am.triedEntries := fun n => by
    rw [mem_triedEntries h, hst, mem_foldl_collect,
      exists_mem_toList (p := fun info => info.fInTried = true)]
    simp
  have hnew : ∀ (n : ℕ) (k : ℤ), st.2[n]? = some k ↔
      ∃ info, am.mapInfo[n]? = some info ∧ info.fInTried = false ∧ info.nRefCount = k := by
    intro n k
    rw [hst, getElem?_foldl_collect _ (MapLoop.nodup_map_fst_toList _) _ (by simp),
      exists_mem_toList (p := fun info => info.fInTried = false ∧ info.nRefCount = k)]
    simp
  have hset : st.1 = am.triedEntries.toFinset := by
    ext n
    rw [htried, List.mem_toFinset]
  have hcardTried : (st.1.card : ℤ) = am.nTried := by
    rw [hset, List.toFinset_card_of_nodup (nodup_triedEntries h), length_triedEntries h]
  have hcounts : ∀ n : ℕ, st.2[n]? = if am.newEntries.count n = 0 then none
      else some (am.newEntries.count n : ℤ) := by
    intro n
    rw [count_newEntries]
    rcases hn : am.mapInfo[n]? with _ | info
    · -- a number without a record is in no bucket
      have hfresh : n ∉ am.mapInfo := fun hmem => by
        rw [Std.ExtTreeMap.mem_iff_isSome_getElem?, hn] at hmem
        cases hmem
      rw [(h.absent n hfresh).1, Finset.card_empty, if_pos rfl, Option.eq_none_iff_forall_ne_some]
      intro k hk
      obtain ⟨info, hinfo, -⟩ := (hnew n k).mp hk
      rw [hn] at hinfo
      cases hinfo
    · have hplaced := h.placed_of_eq hn
      rcases htriedInfo : info.fInTried with _ | _
      · rw [CAddrInfo.status, htriedInfo] at hplaced
        obtain ⟨hcount, hone, -⟩ := hplaced
        rw [if_neg (by omega), (hnew n _).mpr ⟨info, hn, htriedInfo, hcount⟩]
        rfl
      · rw [CAddrInfo.status, htriedInfo] at hplaced
        rw [hplaced.2.1, Finset.card_empty, if_pos rfl, Option.eq_none_iff_forall_ne_some]
        intro k hk
        obtain ⟨info', hinfo', hfalse, -⟩ := (hnew n k).mp hk
        cases hn.symm.trans hinfo'
        rw [htriedInfo] at hfalse
        cases hfalse
  have hcardNew : (st.2.size : ℤ) = am.nNew := by
    have hmem : ∀ n, n ∈ am.vRandom ↔ ∃ info, am.mapInfo[n]? = some info := fun n => by
      rw [h.pool.mem_order_iff, MapLoop.mem_iff]
    have hkeys : st.2.keys.toFinset = am.vRandom.toFinset \ st.1 := by
      ext n
      rw [List.mem_toFinset, Std.ExtTreeMap.mem_keys, MapLoop.mem_iff, Finset.mem_sdiff,
        List.mem_toFinset, hmem, htried,
        mem_triedEntries h]
      constructor
      · rintro ⟨k, hk⟩
        obtain ⟨info, hinfo, hfalse, -⟩ := (hnew n k).mp hk
        refine ⟨⟨info, hinfo⟩, ?_⟩
        rintro ⟨info', hinfo', htrue⟩
        cases hinfo.symm.trans hinfo'
        rw [hfalse] at htrue
        cases htrue
      · rintro ⟨⟨info, hinfo⟩, hnot⟩
        have hfalse : info.fInTried = false :=
          eq_false_of_ne_true fun htrue => hnot ⟨info, hinfo, htrue⟩
        exact ⟨info.nRefCount, (hnew n _).mpr ⟨info, hinfo, hfalse, rfl⟩⟩
    have hsub : st.1 ⊆ am.vRandom.toFinset := fun n hn => by
      obtain ⟨info, hinfo, -⟩ := (mem_triedEntries h).mp ((htried n).mp hn)
      exact List.mem_toFinset.mpr ((hmem n).mpr ⟨info, hinfo⟩)
    have hcard := Finset.card_sdiff_add_card_eq_card hsub
    rw [← hkeys, List.toFinset_card_of_nodup Std.ExtTreeMap.nodup_keys, Std.ExtTreeMap.length_keys,
      List.toFinset_card_of_nodup h.pool.nodup_order] at hcard
    have htotal := h.total
    omega
  have htotal : ¬ (am.vRandom.length : ℤ) ≠ am.nTried + am.nNew := not_not.mpr h.total.symm
  have herase : eraseTried am.triedEntries st.1 = .ok ∅ := by
    rw [eraseTried_eq (nodup_triedEntries h) fun n hn => (htried n).mpr hn, hset, Finset.sdiff_self]
  have hrules : am.checkRules = .ok () := by
    rw [checkRules, if_neg htotal, hloop]
    show (if (st.1.card : ℤ) ≠ am.nTried then _ else _) = _
    rw [if_neg (not_not.mpr hcardTried), if_neg (not_not.mpr hcardNew), herase]
    show (eraseNew am.newEntries st.2).bind _ = _
    rw [eraseNew_eq hcounts]
    rfl
  rw [check, hrules]

end CAddrMan

end HyperStake.Net
