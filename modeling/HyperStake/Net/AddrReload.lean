import HyperStake.Net.AddrFormat
import HyperStake.Net.AddrRuns

/-!
# Reading back the address manager

The entries are written in the order of their numbers, the new ones first, and their new numbers are
their places in this order (`renumber`).  Reading enters them one by one, so that the containers
belong together at every moment but for the buckets (`Loaded`); every tried entry finds room in its
bucket, because it had room there before, and every index in a "new" bucket gives a reference that
its entry had before.
-/

namespace HyperStake.Net

namespace CAddrMan

open FieldReader

variable {Hash : Bytes → UInt256} {nType : UInt32} {am : CAddrMan} {n : ℕ} {info : CAddrInfo}

/-! ## The order of the entries -/

/-- The new entries, in the order in which they are written. -/
def newList (am : CAddrMan) : List (ℕ × CAddrInfo) :=
  am.mapInfo.toList.filter fun it => it.2.nRefCount ≠ 0

/-- The tried entries, in the order in which they are written. -/
def triedList (am : CAddrMan) : List (ℕ × CAddrInfo) :=
  am.mapInfo.toList.filter fun it => it.2.fInTried

/-- All entries, in the order in which they are written. -/
def entries (am : CAddrMan) : List (ℕ × CAddrInfo) := am.newList ++ am.triedList

/-- The number under which an entry is read back. -/
def renumber (am : CAddrMan) (n : ℕ) : ℕ := (am.entries.map Prod.fst).idxOf n

/-- A record counts references if it is not tried. -/
lemma nRefCount_ne_zero_iff (h : Settled Hash am) (hinfo : am.mapInfo[n]? = some info) :
    info.nRefCount ≠ 0 ↔ info.fInTried = false := by
  have hplaced := h.placed_of_eq hinfo
  rcases htried : info.fInTried with _ | _
  · rw [CAddrInfo.status, htried] at hplaced
    have hone := hplaced.2.1
    exact ⟨fun _ => rfl, fun _ => by omega⟩
  · rw [CAddrInfo.status, htried] at hplaced
    exact ⟨fun hne => absurd hplaced.1 hne, fun hfalse => by cases hfalse⟩

/-- Every entry is written once. -/
lemma entries_perm (h : Settled Hash am) : am.entries.Perm am.mapInfo.toList := by
  have htried : am.triedList = am.mapInfo.toList.filter fun it => !decide (it.2.nRefCount ≠ 0) := by
    refine List.filter_congr fun it hit => ?_
    have hiff := nRefCount_ne_zero_iff h
      (Std.ExtTreeMap.mem_toList_iff_getElem?_eq_some.mp hit : am.mapInfo[it.1]? = some it.2)
    rcases htried : it.2.fInTried with _ | _
    · rw [decide_eq_true (hiff.mpr htried)]
      rfl
    · rw [decide_eq_false fun hne => by rw [hiff.mp hne] at htried; cases htried]
      rfl
  rw [entries, htried]
  exact List.filter_append_perm _ _

lemma nodup_entries (h : Settled Hash am) : (am.entries.map Prod.fst).Nodup :=
  ((entries_perm h).map Prod.fst).nodup_iff.mpr (MapLoop.nodup_map_fst_toList _)

variable {it : ℕ × CAddrInfo}

section

variable (h : Settled Hash am)

include h

lemma mem_entries : it ∈ am.entries ↔ am.mapInfo[it.1]? = some it.2 := by
  rw [(entries_perm h).mem_iff]
  exact Std.ExtTreeMap.mem_toList_iff_getElem?_eq_some

/-- There are as many entries as the counters say. -/
lemma length_entries : am.entries.length = am.vRandom.length := by
  have hperm : (am.mapInfo.toList.map Prod.fst).Perm am.vRandom := by
    rw [List.perm_ext_iff_of_nodup (MapLoop.nodup_map_fst_toList _) h.pool.nodup_order]
    intro n
    rw [h.pool.mem_order_iff, Std.ExtTreeMap.map_fst_toList_eq_keys, Std.ExtTreeMap.mem_keys]
  rw [← hperm.length_eq, List.length_map, (entries_perm h).length_eq]

lemma length_triedList : (am.triedList.length : ℤ) = am.nTried := by
  have hnodup : (am.triedList.map Prod.fst).Nodup :=
    (MapLoop.nodup_map_fst_toList am.mapInfo).sublist (List.filter_sublist.map _)
  have hperm : (am.triedList.map Prod.fst).Perm am.triedEntries := by
    rw [List.perm_ext_iff_of_nodup hnodup (nodup_triedEntries h)]
    intro n
    rw [mem_triedEntries h, ← exists_mem_toList (p := fun info => info.fInTried = true)]
    simp only [triedList, List.mem_map, List.mem_filter]
    constructor
    · rintro ⟨it, ⟨hit, htried⟩, rfl⟩
      exact ⟨it, hit, rfl, htried⟩
    · rintro ⟨it, hit, rfl, htried⟩
      exact ⟨it, ⟨hit, htried⟩, rfl⟩
  rw [← length_triedEntries h, ← hperm.length_eq, List.length_map]

lemma length_newList : (am.newList.length : ℤ) = am.nNew := by
  have htotal := h.total
  have htried := length_triedList h
  have hentries := length_entries h
  rw [entries, List.length_append] at hentries
  omega

/-- The buckets bound the number of the new entries. -/
lemma length_newList_le :
    am.newList.length ≤ ADDRMAN_NEW_BUCKET_COUNT * ADDRMAN_NEW_BUCKET_SIZE := by
  have hnodup : (am.newList.map Prod.fst).Nodup :=
    (MapLoop.nodup_map_fst_toList am.mapInfo).sublist (List.filter_sublist.map _)
  have hsub : (am.newList.map Prod.fst).toFinset ⊆ Finset.univ.biUnion am.vvNew := by
    intro n hn
    obtain ⟨it, hit, rfl⟩ := List.mem_map.mp (List.mem_toFinset.mp hn)
    obtain ⟨hmem, hne⟩ := List.mem_filter.mp hit
    have hinfo : am.mapInfo[it.1]? = some it.2 :=
      Std.ExtTreeMap.mem_toList_iff_getElem?_eq_some.mp hmem
    have hfalse := (nRefCount_ne_zero_iff h hinfo).mp (of_decide_eq_true hne)
    have hplaced := h.placed_of_eq hinfo
    rw [CAddrInfo.status, hfalse] at hplaced
    have hpos : 0 < (am.buckets it.1).card := by
      have hcount := hplaced.1
      have hone := hplaced.2.1
      omega
    obtain ⟨b, hb⟩ := Finset.card_pos.mp hpos
    exact Finset.mem_biUnion.mpr ⟨b, Finset.mem_univ b, mem_buckets.mp hb⟩
  calc am.newList.length = (am.newList.map Prod.fst).toFinset.card := by
        rw [List.toFinset_card_of_nodup hnodup, List.length_map]
    _ ≤ (Finset.univ.biUnion am.vvNew).card := Finset.card_le_card hsub
    _ ≤ (Finset.univ : Finset (Fin ADDRMAN_NEW_BUCKET_COUNT)).card * ADDRMAN_NEW_BUCKET_SIZE :=
        Finset.card_biUnion_le_card_mul _ _ _ fun b _ => h.new_size b
    _ = ADDRMAN_NEW_BUCKET_COUNT * ADDRMAN_NEW_BUCKET_SIZE := by
        rw [Finset.card_univ, Fintype.card_fin]

/-- The buckets bound the number of the tried entries. -/
lemma length_triedList_le :
    am.triedList.length ≤ ADDRMAN_TRIED_BUCKET_COUNT * ADDRMAN_TRIED_BUCKET_SIZE := by
  have hsum : ∑ b, ((am.vvTried b).length : ℤ)
      ≤ ∑ _b : Fin ADDRMAN_TRIED_BUCKET_COUNT, (ADDRMAN_TRIED_BUCKET_SIZE : ℤ) :=
    Finset.sum_le_sum fun b _ => Int.ofNat_le.mpr (h.tried_size b)
  rw [← h.nTried_eq, ← length_triedList h, Finset.sum_const, Finset.card_univ, Fintype.card_fin,
    nsmul_eq_mul] at hsum
  exact_mod_cast hsum

lemma length_entries_lt : am.entries.length + 1 < 2 ^ 31 := by
  have hnewLe := length_newList_le h
  have htriedLe := length_triedList_le h
  rw [entries, List.length_append]
  norm_num [ADDRMAN_NEW_BUCKET_SIZE, ADDRMAN_TRIED_BUCKET_SIZE] at hnewLe htriedLe ⊢
  omega

/-- The entries are where `renumber` says. -/
lemma getElem?_renumber (hinfo : am.mapInfo[n]? = some info) :
    am.entries[am.renumber n]? = some (n, info) := by
  have hmem : (n, info) ∈ am.entries := (mem_entries h).mpr hinfo
  obtain ⟨i, hi⟩ := List.mem_iff_getElem?.mp hmem
  have hid : (am.entries.map Prod.fst)[i]? = some n := by
    rw [List.getElem?_map, hi, Option.map_some]
  obtain ⟨hlt, heq⟩ := List.getElem?_eq_some_iff.mp hid
  have hindex := (nodup_entries h).idxOf_getElem i hlt
  rw [heq] at hindex
  rw [renumber, hindex, hi]

end

/-! ## Writing -/

/-- The first loop of `Serialize` writes the new entries, and knows their indices. -/
lemma writeNew_eq {nNew : ℤ} {l : List (ℕ × CAddrInfo)} {mapUnkIds : Std.ExtTreeMap ℕ ℕ} {nIds : ℕ}
    (hnodup : (l.map Prod.fst).Nodup)
    (hcount : nIds + (l.filter fun it => it.2.nRefCount ≠ 0).length = nNew) :
    (writeNew nType nNew l mapUnkIds nIds).1
        = (l.filter fun it => it.2.nRefCount ≠ 0).flatMap (fun it => it.2.serialize nType 0) ∧
      (∀ (i : ℕ) (it : ℕ × CAddrInfo), (l.filter fun it => it.2.nRefCount ≠ 0)[i]? = some it →
        (writeNew nType nNew l mapUnkIds nIds).2[it.1]? = some (nIds + i)) ∧
      ∀ n ∉ l.map Prod.fst, (writeNew nType nNew l mapUnkIds nIds).2[n]? = mapUnkIds[n]? := by
  induction l generalizing mapUnkIds nIds with
  | nil => exact ⟨rfl, fun i it hit => by simp at hit, fun n _ => rfl⟩
  | cons it l ih =>
    obtain ⟨m, info⟩ := it
    obtain ⟨hm, hrest⟩ := List.nodup_cons.mp hnodup
    rw [writeNew]
    split
    · -- all new entries have been written
      next hend =>
      have hnil : ((m, info) :: l).filter (fun it => it.2.nRefCount ≠ 0) = [] := by
        refine List.length_eq_zero_iff.mp ?_
        omega
      rw [hnil]
      exact ⟨rfl, fun i it hit => by simp at hit, fun n _ => rfl⟩
    have hother : ∀ (r : Std.ExtTreeMap ℕ ℕ),
        (∀ n ∉ l.map Prod.fst, r[n]? = (mapUnkIds.insert m nIds)[n]?) →
        ∀ n ∉ ((m, info) :: l).map Prod.fst, r[n]? = mapUnkIds[n]? := by
      intro r hr n hn
      rw [List.map_cons, List.mem_cons, not_or] at hn
      rw [hr n hn.2, MapLoop.getElem?_insert_eq, if_neg (Ne.symm hn.1)]
    split
    · next hne =>
      have hcons : ((m, info) :: l).filter (fun it => it.2.nRefCount ≠ 0)
          = (m, info) :: l.filter fun it => it.2.nRefCount ≠ 0 :=
        List.filter_cons_of_pos (by simpa using hne)
      rw [hcons, List.length_cons] at hcount
      obtain ⟨hbytes, hindex, hframe⟩ := @ih (mapUnkIds.insert m nIds) (nIds + 1) hrest
        (by push_cast; omega)
      rw [hcons]
      dsimp only
      refine ⟨by rw [hbytes, List.flatMap_cons], fun i it hit => ?_, hother _ hframe⟩
      cases i with
      | zero =>
        cases hit
        rw [hframe m hm, MapLoop.getElem?_insert_eq, if_pos rfl, Nat.add_zero]
      | succ i =>
        rw [hindex i it hit]
        exact congrArg some (by omega)
    · next hzero =>
      have hcons : ((m, info) :: l).filter (fun it => it.2.nRefCount ≠ 0)
          = l.filter fun it => it.2.nRefCount ≠ 0 :=
        List.filter_cons_of_neg (by simpa using hzero)
      rw [hcons] at hcount
      obtain ⟨hbytes, hindex, hframe⟩ := @ih (mapUnkIds.insert m nIds) nIds hrest hcount
      rw [hcons]
      exact ⟨hbytes, hindex, hother _ hframe⟩

/-- The second loop of `Serialize` writes the tried entries. -/
lemma writeTried_eq {nTried : ℤ} {l : List (ℕ × CAddrInfo)} {nIds : ℕ}
    (hcount : nIds + (l.filter fun it => it.2.fInTried).length = nTried) :
    writeTried nType nTried l nIds
      = (l.filter fun it => it.2.fInTried).flatMap fun it => it.2.serialize nType 0 := by
  induction l generalizing nIds with
  | nil => rfl
  | cons it l ih =>
    obtain ⟨m, info⟩ := it
    rw [writeTried]
    split
    · next hend =>
      have hnil : ((m, info) :: l).filter (fun it => it.2.fInTried) = [] := by
        refine List.length_eq_zero_iff.mp ?_
        omega
      rw [hnil, List.flatMap_nil]
    split
    · next htried =>
      have hcons : ((m, info) :: l).filter (fun it => it.2.fInTried)
          = (m, info) :: l.filter fun it => it.2.fInTried := List.filter_cons_of_pos htried
      rw [hcons, List.length_cons] at hcount
      rw [hcons, List.flatMap_cons, ih (by push_cast; omega)]
    · next hnot =>
      have hcons : ((m, info) :: l).filter (fun it => it.2.fInTried)
          = l.filter fun it => it.2.fInTried := List.filter_cons_of_neg hnot
      rw [hcons] at hcount ⊢
      exact ih hcount

/-! ## Reading -/

/-- A record without its position and its references. -/
def strip (info : CAddrInfo) : CAddrInfo := { info with nRefCount := 0, nRandomPos := 0 }

/-- What is kept of a record when it is written and read back, and put in a bucket of the kind it
was in. -/
def kept (nType : UInt32) (info : CAddrInfo) : CAddrInfo :=
  strip { info with toCAddress := info.toCAddress.reread nType 0 }

/-- A manager that is being read, when the entries `es` have been entered: the records, the index and
the random order belong together, and every record counts the "new" buckets its entry is in. -/
structure Loaded (am : CAddrMan) (es : List CAddrInfo) (st : Loading) : Prop where
  nVersion : st.nVersion = 0
  nUBuckets : st.nUBuckets.toInt = ADDRMAN_NEW_BUCKET_COUNT
  nLost : st.nLost = 0
  nKey : st.am.nKey = am.nKey
  nNew : st.am.nNew = am.nNew
  nTried : st.am.nTried = am.nTried
  pool : IndexedPool.Agrees CAddrInfo.schema st.am.mapInfo st.am.mapAddr st.am.vRandom
  length_eq : st.am.vRandom.length = es.length
  info_eq : ∀ i : ℕ, st.am.mapInfo[i]?.map strip = es[i]?
  counted : ∀ (i : ℕ) (info : CAddrInfo), st.am.mapInfo[i]? = some info →
    info.nRefCount = (st.am.buckets i).card

variable {es : List CAddrInfo} {st : Loading}

namespace Loaded

/-- The next number is free. -/
lemma fresh (h : Loaded am es st) : st.am.mapInfo[es.length]? = none := by
  have hnone := h.info_eq es.length
  rw [List.getElem?_eq_none le_rfl] at hnone
  exact Option.map_eq_none_iff.mp hnone

/-- A new entry, in no "new" bucket, at the end. -/
lemma append (h : Loaded am es st) (hrefs : info.nRefCount = 0) (hip : ∀ e ∈ es, e.ip ≠ info.ip)
    (hnone : st.am.vvNew = fun _ => ∅) {am' : CAddrMan}
    (hinfo : am'.mapInfo = st.am.mapInfo.insert es.length
      { info with nRandomPos := st.am.vRandom.length })
    (haddr : am'.mapAddr = st.am.mapAddr.insert info.ip es.length)
    (hrandom : am'.vRandom = st.am.vRandom ++ [es.length])
    (hrest : am'.nKey = st.am.nKey ∧ am'.nNew = st.am.nNew ∧ am'.nTried = st.am.nTried ∧
      am'.vvNew = st.am.vvNew) :
    Loaded am (es ++ [strip info]) { st with am := am' } := by
  obtain ⟨hkey, hnNew, hnTried, hnew⟩ := hrest
  have hunknown : st.am.mapAddr[info.ip]? = none := by
    rw [Option.eq_none_iff_forall_ne_some]
    intro m hm
    obtain ⟨old, hold, holdIp⟩ := h.pool.exists_of_index_eq hm
    have he := h.info_eq m
    rw [hold, Option.map_some] at he
    exact hip _ (List.mem_of_getElem? he.symm) holdIp
  have hempty : ∀ i, am'.buckets i = ∅ := by
    intro i
    rw [buckets, hnew, hnone]
    simp
  refine ⟨h.nVersion, h.nUBuckets, h.nLost, hkey.trans h.nKey, hnNew.trans h.nNew,
    hnTried.trans h.nTried, ?_, ?_, fun i => ?_, fun i info' hinfo' => ?_⟩
  · rw [hinfo, haddr, hrandom]
    exact h.pool.insert h.fresh hunknown rfl
  · rw [hrandom, List.length_append, List.length_append, h.length_eq, List.length_singleton,
      List.length_singleton]
  · rw [hinfo, MapLoop.getElem?_insert_eq]
    split
    · next hi =>
      subst hi
      rw [List.getElem?_concat_length]
      rfl
    · next hi =>
      rw [h.info_eq]
      rcases Nat.lt_or_ge i es.length with hlt | hge
      · rw [List.getElem?_append_left hlt]
      · rw [List.getElem?_eq_none hge, List.getElem?_eq_none]
        rw [List.length_append, List.length_singleton]
        omega
  · rw [hempty, Finset.card_empty]
    rw [hinfo, MapLoop.getElem?_insert_eq] at hinfo'
    split at hinfo'
    · cases hinfo'
      exact hrefs
    · have hcount := h.counted i info' hinfo'
      rwa [buckets, hnone, Finset.filter_false_of_mem (fun b _ => Finset.notMem_empty i),
        Finset.card_empty] at hcount

end Loaded

/-- Two entries with the same number are the same. -/
lemma entries_inj (h : Settled Hash am) {i j : ℕ} {it' : ℕ × CAddrInfo}
    (hi : am.entries[i]? = some it) (hj : am.entries[j]? = some it') (hid : it.1 = it'.1) :
    i = j := by
  have hiid : (am.entries.map Prod.fst)[i]? = some it.1 := by
    rw [List.getElem?_map, hi, Option.map_some]
  have hjid : (am.entries.map Prod.fst)[j]? = some it.1 := by
    rw [List.getElem?_map, hj, Option.map_some, hid]
  obtain ⟨hilt, hieq⟩ := List.getElem?_eq_some_iff.mp hiid
  obtain ⟨hjlt, hjeq⟩ := List.getElem?_eq_some_iff.mp hjid
  exact (nodup_entries h).getElem_inj_iff.mp (hieq.trans hjeq.symm)

/-- What the entries are read back as, the first `k` of them. -/
def keptList (nType : UInt32) (am : CAddrMan) (k : ℕ) : List CAddrInfo :=
  (am.entries.take k).map fun it => kept nType it.2

lemma length_keptList {k : ℕ} (hk : k ≤ am.entries.length) : (keptList nType am k).length = k := by
  rw [keptList, List.length_map, List.length_take, min_eq_left hk]

lemma keptList_succ {k : ℕ} (hit : am.entries[k]? = some it) :
    keptList nType am (k + 1) = keptList nType am k ++ [kept nType it.2] := by
  rw [keptList, List.take_add_one, hit, Option.toList_some, List.map_append, List.map_singleton,
    keptList]

/-- The entries have different addresses. -/
lemma ip_ne_of_mem_keptList (h : Settled Hash am) {k : ℕ} (hit : am.entries[k]? = some it) :
    ∀ e ∈ keptList nType am k, e.ip ≠ it.2.ip := by
  intro e he hip
  obtain ⟨it', hit', rfl⟩ := List.mem_map.mp he
  obtain ⟨j, hj⟩ := List.mem_iff_getElem?.mp hit'
  have hlt : j < k := by
    have hbound := (List.getElem?_eq_some_iff.mp hj).1
    rw [List.length_take] at hbound
    omega
  rw [List.getElem?_take_of_lt hlt] at hj
  have hid : it'.1 = it.1 := h.pool.eq_of_key_eq ((mem_entries h).mp (List.mem_of_getElem? hj))
    ((mem_entries h).mp (List.mem_of_getElem? hit)) hip
  exact hlt.ne (entries_inj h hj hit hid)

/-- What a new entry that has been read in its place becomes. -/
lemma enterNew_eq (Hash : Bytes → UInt256) {nUBuckets : Int32}
    (hbuckets : nUBuckets.toInt = ADDRMAN_NEW_BUCKET_COUNT)
    (am : CAddrMan) (n : ℕ) (info : CAddrInfo) :
    enterNew Hash nUBuckets n { am with mapInfo := am.mapInfo.insert n info } = { am with
      mapInfo := am.mapInfo.insert n { info with nRandomPos := am.vRandom.length }
      mapAddr := am.mapAddr.insert info.ip n
      vRandom := am.vRandom ++ [n] } := by
  have hget : (am.mapInfo.insert n info)[n]?.getD CAddrInfo.new = info := by
    rw [MapLoop.getElem?_insert_eq, if_pos rfl, Option.getD_some]
  rw [enterNew]
  dsimp only
  rw [if_neg (not_not.mpr hbuckets), hget, modify, MapLoop.modify_insert]

namespace Loaded

/-- The version that is passed on. -/
lemma version_eq (h : Loaded am es st) : st.version = 0 := by
  rw [Loading.version, h.nVersion]
  rfl

/-- A round of the first loop enters a new entry. -/
lemma readNew (Hash : Bytes → UInt256) (nType : UInt32) (h : Loaded am es st)
    (hfalse : info.fInTried = false) (hip : ∀ e ∈ es, e.ip ≠ info.ip)
    (hnone : st.am.vvNew = fun _ => ∅) :
    ∃ am', Consumes (CAddrMan.readNew Hash nType es.length) (info.serialize nType 0) st
        { st with am := am' } ∧
      Loaded am (es ++ [kept nType info]) { st with am := am' } ∧
      am'.vvNew = st.am.vvNew ∧ am'.vvTried = st.am.vvTried := by
  have hget : st.am.mapInfo[es.length]?.getD CAddrInfo.new = CAddrInfo.new := by
    rw [h.fresh, Option.getD_none]
  have hinfo : Consumes (CAddrInfo.unserialize nType st.version) (info.serialize nType 0)
      (st.am.mapInfo[es.length]?.getD CAddrInfo.new) (info.reread nType 0) := by
    rw [hget, h.version_eq]
    exact CAddrInfo.consumes_unserialize nType 0 info
  have hread : Consumes (field (fun st : Loading => st.am.mapInfo[es.length]?.getD CAddrInfo.new)
      (fun info => Loading.map fun am => { am with mapInfo := am.mapInfo.insert es.length info })
      (CAddrInfo.unserialize nType st.version)) (info.serialize nType 0) st
      (st.map fun am => { am with
        mapInfo := am.mapInfo.insert es.length (info.reread nType 0) }) := .field hinfo
  have hboth := hread.andThen
    (Consumes.update (ε := Fault) (Loading.map (enterNew Hash st.nUBuckets es.length)) _)
  have henter := congrArg (fun am => ({ st with am := am } : Loading))
    (enterNew_eq Hash h.nUBuckets st.am es.length (info.reread nType 0))
  have hkept : kept nType info = strip (info.reread nType 0) := by
    rw [kept, CAddrInfo.reread, strip, strip, hfalse]
  have hrefs : (info.reread nType 0).nRefCount = 0 := rfl
  rw [List.append_nil] at hboth
  rw [CAddrMan.readNew]
  refine ⟨_, (Consumes.choose hboth).trans_eq henter, ?_, rfl, rfl⟩
  rw [hkept]
  exact h.append hrefs hip hnone rfl rfl rfl ⟨rfl, rfl, rfl, rfl⟩

end Loaded

/-- The first loop of `Unserialize` enters all new entries. -/
lemma Loaded.readAllNew (nType : UInt32) (h : Settled Hash am) (hst : Loaded am [] st)
    (hnone : st.am.vvNew = fun _ => ∅) :
    ∃ am', Consumes (loop (CAddrMan.readNew Hash nType) 0 am.newList.length)
        (am.newList.flatMap fun it => it.2.serialize nType 0) st { st with am := am' } ∧
      Loaded am (keptList nType am am.newList.length) { st with am := am' } ∧
      am'.vvNew = (fun _ => ∅) ∧ am'.vvTried = st.am.vvTried := by
  have hlength : am.newList.length ≤ am.entries.length := by
    rw [entries, List.length_append]
    omega
  have hloop := Consumes.loop (r := CAddrMan.readNew Hash nType) (i := 0) (a := st)
    (fun k st' => ∃ am', st' = { st with am := am' } ∧ Loaded am (keptList nType am k) st' ∧
      am'.vvNew = (fun _ => ∅) ∧ am'.vvTried = st.am.vvTried)
    (am.newList.map fun it => it.2.serialize nType 0) ?_ ⟨st.am, rfl, hst, hnone, rfl⟩
  · obtain ⟨st', hread, am', rfl, hloaded, hvvNew, hvvTried⟩ := hloop
    rw [List.length_map] at hread hloaded
    rw [Nat.zero_add] at hloaded
    exact ⟨am', by rwa [List.flatMap_def], hloaded, hvvNew, hvvTried⟩
  · rintro k w hw _ ⟨am1, rfl, hloaded, hvvNew, hvvTried⟩
    rw [Nat.zero_add] at hloaded ⊢
    rw [List.getElem?_map] at hw
    obtain ⟨it, hit, rfl⟩ := Option.map_eq_some_iff.mp hw
    have hk := (List.getElem?_eq_some_iff.mp hit).1
    have hentry : am.entries[k]? = some it := by
      rw [entries, List.getElem?_append_left hk, hit]
    have hinfo := (mem_entries h).mp (List.mem_of_getElem? hentry)
    have hfalse : it.2.fInTried = false := (nRefCount_ne_zero_iff h hinfo).mp
      (of_decide_eq_true (List.mem_filter.mp (List.mem_of_getElem? hit)).2)
    obtain ⟨am2, hread, hloaded', hvvNew', hvvTried'⟩ := hloaded.readNew Hash nType
      hfalse (ip_ne_of_mem_keptList h hentry) hvvNew
    rw [length_keptList (by omega)] at hread
    rw [← keptList_succ hentry] at hloaded'
    exact ⟨_, hread, am2, rfl, hloaded', hvvNew'.trans hvvNew, hvvTried'.trans hvvTried⟩

/-! ### The tried entries -/

/-- An entry behind the new ones is tried. -/
lemma fInTried_of_entries {i : ℕ} (hi : am.newList.length ≤ i) (hit : am.entries[i]? = some it) :
    it.2.fInTried = true := by
  rw [entries, List.getElem?_append_right hi] at hit
  exact (List.mem_filter.mp (List.mem_of_getElem? hit)).2

/-- A tried entry is in its own bucket. -/
lemma mem_vvTried (h : Settled Hash am) (hit : it ∈ am.entries) (htried : it.2.fInTried = true)
    (b : Fin ADDRMAN_TRIED_BUCKET_COUNT) :
    it.1 ∈ am.vvTried b ↔ b = CAddrInfo.getTriedBucket Hash am.nKey it.2.toCService := by
  have hplaced := h.placed_of_eq ((mem_entries h).mp hit)
  rw [CAddrInfo.status, htried] at hplaced
  exact hplaced.2.2 b

variable (Hash) in
/-- The place of a tried entry that belongs in a bucket. -/
def TriedAt (am : CAddrMan) (b : Fin ADDRMAN_TRIED_BUCKET_COUNT) (i : ℕ) : Prop :=
  am.newList.length ≤ i ∧ ∃ it, am.entries[i]? = some it ∧
    CAddrInfo.getTriedBucket Hash am.nKey it.2.toCService = b

/-- No more entries belong in a bucket than it can hold. -/
lemma length_le_of_triedAt (h : Settled Hash am) {b : Fin ADDRMAN_TRIED_BUCKET_COUNT} {l : List ℕ}
    (hnodup : l.Nodup) (hl : ∀ i ∈ l, TriedAt Hash am b i) :
    l.length ≤ ADDRMAN_TRIED_BUCKET_SIZE := by
  let number : ℕ → ℕ := fun i => (am.entries[i]?.map Prod.fst).getD 0
  have hnumber : ∀ (i : ℕ) it, am.entries[i]? = some it → number i = it.1 := by
    intro i it hit
    simp only [number, hit, Option.map_some, Option.getD_some]
  have hinj : (l.map number).Nodup := by
    refine hnodup.map_on fun i hi j hj hij => ?_
    obtain ⟨-, it, hit, -⟩ := hl i hi
    obtain ⟨-, it', hit', -⟩ := hl j hj
    rw [hnumber i it hit, hnumber j it' hit'] at hij
    exact entries_inj h hit hit' hij
  have hsub : l.map number ⊆ am.vvTried b := by
    intro m hm
    obtain ⟨i, hi, rfl⟩ := List.mem_map.mp hm
    obtain ⟨hge, it, hit, hb⟩ := hl i hi
    rw [hnumber i it hit]
    exact (mem_vvTried h (List.mem_of_getElem? hit) (fInTried_of_entries hge hit) b).mpr hb.symm
  have hle := (hinj.subperm hsub).length_le
  rw [List.length_map] at hle
  exact hle.trans (h.tried_size b)

variable (Hash) in
/-- The "tried" buckets when `k` tried entries have been read. -/
structure TriedRead (am : CAddrMan) (k : ℕ) (am' : CAddrMan) : Prop where
  nIdCount : am'.nIdCount = am.newList.length + k
  mem_iff : ∀ b i, i ∈ am'.vvTried b ↔ i < am.newList.length + k ∧ TriedAt Hash am b i
  nodup : ∀ b, (am'.vvTried b).Nodup
  sum_eq : ∑ b, ((am'.vvTried b).length : ℤ) = k

/-- A round of the second loop enters a tried entry; there is room for it. -/
lemma Loaded.readTried (h : Settled Hash am) {k : ℕ}
    (hst : Loaded am (keptList nType am (am.newList.length + k)) st)
    (htriedRead : TriedRead Hash am k st.am) (hnone : st.am.vvNew = fun _ => ∅)
    (hit : am.triedList[k]? = some it) :
    ∃ am', Consumes (CAddrMan.readTried Hash nType) (it.2.serialize nType 0) st
        { st with am := am' } ∧
      Loaded am (keptList nType am (am.newList.length + (k + 1))) { st with am := am' } ∧
      TriedRead Hash am (k + 1) am' ∧ am'.vvNew = fun _ => ∅ := by
  obtain ⟨m, info⟩ := it
  set kb := CAddrInfo.getTriedBucket Hash am.nKey info.toCService with hkb
  have hk := (List.getElem?_eq_some_iff.mp hit).1
  have hentry : am.entries[am.newList.length + k]? = some (m, info) := by
    rw [entries, List.getElem?_append_right (Nat.le_add_right _ _), Nat.add_sub_cancel_left, hit]
  have htried : info.fInTried = true := fInTried_of_entries (Nat.le_add_right _ _) hentry
  have hlength : (keptList nType am (am.newList.length + k)).length = am.newList.length + k :=
    length_keptList (List.getElem?_eq_some_iff.mp hentry).1.le
  have hnotIn : ∀ b, am.newList.length + k ∉ st.am.vvTried b := fun b hb =>
    absurd ((htriedRead.mem_iff b _).mp hb).1 (lt_irrefl _)
  have hat : TriedAt Hash am kb (am.newList.length + k) :=
    ⟨Nat.le_add_right _ _, (m, info), hentry, rfl⟩
  -- with this entry the bucket is not more than full
  have hroom : (st.am.vvTried kb).length < ADDRMAN_TRIED_BUCKET_SIZE := by
    have hle := length_le_of_triedAt h (b := kb) (l := st.am.vvTried kb ++ [am.newList.length + k])
      (List.nodup_append.mpr ⟨htriedRead.nodup kb, List.nodup_singleton _, ?_⟩) ?_
    · rwa [List.length_append, List.length_singleton] at hle
    · intro i hi j hj heq
      rw [List.mem_singleton] at hj
      exact hnotIn kb (hj ▸ heq ▸ hi)
    · intro i hi
      rcases List.mem_append.mp hi with hi | hi
      · exact ((htriedRead.mem_iff kb i).mp hi).2
      · rw [List.mem_singleton.mp hi]
        exact hat
  have hcount : st.am.nIdCount + 1 < 2 ^ 31 := by
    have hlt := length_entries_lt h
    have hbound := (List.getElem?_eq_some_iff.mp hentry).1
    rw [htriedRead.nIdCount]
    omega
  have hbucket : CAddrInfo.getTriedBucket Hash st.am.nKey (info.reread nType 0).toCService = kb := by
    rw [hst.nKey]
    rfl
  have hread : Consumes (CAddrInfo.unserialize nType st.version) (info.serialize nType 0)
      CAddrInfo.new (info.reread nType 0) := by
    rw [hst.version_eq]
    exact CAddrInfo.consumes_unserialize nType 0 info
  have hplace : Consumes (placeTried Hash (info.reread nType 0)) [] st
      (st.map (enterTried kb (info.reread nType 0))) := by
    refine Consumes.choose ?_
    dsimp only
    rw [hbucket, if_pos hroom, if_pos hcount]
    exact Consumes.update _ st
  have hboth := hread.scratch hplace
  rw [List.append_nil] at hboth
  refine ⟨enterTried kb (info.reread nType 0) st.am, Consumes.choose hboth, ?_, ?_, hnone⟩
  · have hkept : kept nType info = strip { info.reread nType 0 with fInTried := true } := by
      rw [kept, CAddrInfo.reread, strip, strip, htried]
    have hrefs : ({ info.reread nType 0 with fInTried := true } : CAddrInfo).nRefCount = 0 := rfl
    have hnumber : st.am.nIdCount = (keptList nType am (am.newList.length + k)).length := by
      rw [htriedRead.nIdCount, hlength]
    rw [← Nat.add_assoc, keptList_succ hentry, hkept]
    refine hst.append hrefs (ip_ne_of_mem_keptList h hentry) hnone ?_ ?_ ?_ ⟨rfl, rfl, rfl, rfl⟩
    · rw [← hnumber]
      rfl
    · rw [← hnumber]
      rfl
    · rw [← hnumber]
      rfl
  · have hvvTried : (enterTried kb (info.reread nType 0) st.am).vvTried
        = Function.update st.am.vvTried kb (st.am.vvTried kb ++ [am.newList.length + k]) := by
      rw [← htriedRead.nIdCount]
      rfl
    refine ⟨?_, fun b i => ?_, fun b => ?_, ?_⟩
    · show st.am.nIdCount + 1 = _
      rw [htriedRead.nIdCount, Nat.add_assoc]
    · rw [hvvTried]
      by_cases hb : b = kb
      · subst hb
        rw [Function.update_self, List.mem_append, List.mem_singleton, htriedRead.mem_iff]
        constructor
        · rintro (⟨hlt, hi⟩ | rfl)
          · exact ⟨by omega, hi⟩
          · exact ⟨by omega, hat⟩
        · rintro ⟨hlt, hi⟩
          rcases Nat.lt_or_ge i (am.newList.length + k) with hlt' | hge
          · exact Or.inl ⟨hlt', hi⟩
          · exact Or.inr (by omega)
      · rw [Function.update_of_ne hb, htriedRead.mem_iff]
        refine and_congr_left fun hi => ⟨fun hlt => by omega, fun hlt => ?_⟩
        by_contra hge
        obtain ⟨-, it, hit', hbit⟩ := hi
        rw [show i = am.newList.length + k by omega, hentry] at hit'
        cases hit'
        exact hb hbit.symm
    · rw [hvvTried]
      by_cases hb : b = kb
      · subst hb
        rw [Function.update_self, List.nodup_append]
        refine ⟨htriedRead.nodup _, List.nodup_singleton _, fun i hi j hj heq => ?_⟩
        rw [List.mem_singleton] at hj
        exact hnotIn _ (hj ▸ heq ▸ hi)
      · rw [Function.update_of_ne hb]
        exact htriedRead.nodup b
    · rw [hvvTried, sum_length_update, htriedRead.sum_eq, List.length_append,
        List.length_singleton]
      push_cast
      ring

/-- The second loop of `Unserialize` enters all tried entries. -/
lemma Loaded.readAllTried (h : Settled Hash am)
    (hst : Loaded am (keptList nType am am.newList.length) st)
    (hnone : st.am.vvNew = fun _ => ∅) (htried : st.am.vvTried = fun _ => [])
    (hcount : st.am.nIdCount = am.newList.length) :
    ∃ am', Consumes (loop (fun _ => CAddrMan.readTried Hash nType) 0 am.triedList.length)
        (am.triedList.flatMap fun it => it.2.serialize nType 0) st { st with am := am' } ∧
      Loaded am (keptList nType am am.entries.length) { st with am := am' } ∧
      TriedRead Hash am am.triedList.length am' ∧ am'.vvNew = fun _ => ∅ := by
  have hstart : TriedRead Hash am 0 st.am := by
    refine ⟨hcount, fun b i => ?_, fun b => ?_, ?_⟩
    · rw [htried]
      refine ⟨fun hi => absurd hi List.not_mem_nil, fun ⟨hlt, hge, _⟩ => by omega⟩
    · rw [htried]
      exact List.nodup_nil
    · rw [htried]
      simp
  have hloop := Consumes.loop (r := fun _ => CAddrMan.readTried Hash nType) (i := 0) (a := st)
    (fun k st' => ∃ am', st' = { st with am := am' } ∧
      Loaded am (keptList nType am (am.newList.length + k)) st' ∧ TriedRead Hash am k am' ∧
      am'.vvNew = fun _ => ∅)
    (am.triedList.map fun it => it.2.serialize nType 0) ?_ ⟨st.am, rfl, hst, hstart, hnone⟩
  · obtain ⟨st', hread, am', rfl, hloaded, htriedRead, hvvNew⟩ := hloop
    rw [List.length_map] at hread hloaded htriedRead
    rw [Nat.zero_add] at hloaded htriedRead
    rw [← List.length_append] at hloaded
    exact ⟨am', by rwa [List.flatMap_def], hloaded, htriedRead, hvvNew⟩
  · rintro k w hw _ ⟨am1, rfl, hloaded, htriedRead, hvvNew⟩
    rw [Nat.zero_add] at hloaded htriedRead ⊢
    rw [List.getElem?_map] at hw
    obtain ⟨it, hit, rfl⟩ := Option.map_eq_some_iff.mp hw
    obtain ⟨am2, hread, hloaded', htriedRead', hvvNew'⟩ := Loaded.readTried h hloaded htriedRead
      hvvNew hit
    exact ⟨_, hread, am2, rfl, hloaded', htriedRead', hvvNew'⟩

/-! ### The buckets -/

variable {b : Fin ADDRMAN_NEW_BUCKET_COUNT}

/-- A round of the inner loop over the buckets, for an entry that can take a reference. -/
lemma Loaded.enterIndex (h : Loaded am es st) {i : ℕ} (hi : i < es.length) (hb : i ∉ st.am.vvNew b)
    (hcard : (st.am.buckets i).card < ADDRMAN_NEW_BUCKETS_PER_ADDRESS) :
    ∃ mapInfo, CAddrMan.enterIndex st.nUBuckets b i st.am = { st.am with
        mapInfo := mapInfo
        vvNew := Function.update st.am.vvNew b (insert i (st.am.vvNew b)) } ∧
      Loaded am es { st with am := { st.am with
        mapInfo := mapInfo
        vvNew := Function.update st.am.vvNew b (insert i (st.am.vvNew b)) } } := by
  obtain ⟨info, hinfo⟩ : ∃ info, st.am.mapInfo[i]? = some info := by
    have he := h.info_eq i
    rw [List.getElem?_eq_getElem hi] at he
    obtain ⟨info, hinfo, -⟩ := Option.map_eq_some_iff.mp he
    exact ⟨info, hinfo⟩
  have hcount := h.counted i info hinfo
  have hlookup : ∀ j : ℕ, (st.am.mapInfo.insert i { info with nRefCount := info.nRefCount + 1 })[j]?
      = if i = j then some { info with nRefCount := info.nRefCount + 1 }
        else st.am.mapInfo[j]? := fun j => MapLoop.getElem?_insert_eq _ _ _ _
  -- a view of the records that does not show the references
  have hview : ∀ {α : Type} (f : CAddrInfo → α), (∀ info k, f { info with nRefCount := k } = f info) →
      ∀ j : ℕ, (st.am.mapInfo.insert i { info with nRefCount := info.nRefCount + 1 })[j]?.map f
        = st.am.mapInfo[j]?.map f := by
    intro α f hf j
    rw [hlookup]
    split
    · next hij =>
      subst hij
      rw [hinfo, Option.map_some, Option.map_some, hf]
    · rfl
  refine ⟨st.am.mapInfo.insert i { info with nRefCount := info.nRefCount + 1 }, ?_,
    h.nVersion, h.nUBuckets, h.nLost, h.nKey, h.nNew, h.nTried, ?_, h.length_eq, fun j => ?_,
    fun j info' hinfo' => ?_⟩
  · rw [CAddrMan.enterIndex, hinfo, Option.getD_some]
    dsimp only
    rw [if_pos ⟨h.nUBuckets, by rw [hcount]; exact hcard⟩, modify, setNew, MapLoop.modify_insert]
  · exact h.pool.congr (hview _ fun _ _ => rfl) (hview _ fun _ _ => rfl)
  · rw [← h.info_eq]
    exact hview _ (fun _ _ => rfl) j
  · have hbuckets : ({ st.am with
        mapInfo := st.am.mapInfo.insert i { info with nRefCount := info.nRefCount + 1 }
        vvNew := Function.update st.am.vvNew b (insert i (st.am.vvNew b)) } : CAddrMan).buckets j
          = if j = i then insert b (st.am.buckets i) else st.am.buckets j :=
      buckets_setNew_insert
    have hold := (hlookup j).symm.trans hinfo'
    show info'.nRefCount = _
    rw [hbuckets]
    split at hold
    · next hij =>
      cases hold
      rw [if_pos hij.symm, Finset.card_insert_of_notMem fun hmem => hb (mem_buckets.mp hmem)]
      show info.nRefCount + 1 = _
      rw [hcount]
      push_cast
      rfl
    · next hij =>
      rw [if_neg (Ne.symm hij)]
      exact h.counted j info' hold

lemma toInt_ofNat {i : ℕ} (hi : i < 2 ^ 31) : (Int32.ofNat i).toInt = i := by
  rw [← Int32.ofInt_eq_ofNat]
  exact Int32.toInt_ofInt_of_le (by omega) (by omega)

/-- An index is read back. -/
lemma consumes_readIndex (b : Fin ADDRMAN_NEW_BUCKET_COUNT) (st : Loading) {i : ℕ}
    (hi : i < 2 ^ 31) :
    Consumes (readIndex b) (serializeInt32 (Int32.ofNat i)) st
      { st with am := CAddrMan.enterIndex st.nUBuckets b i st.am } := by
  have hnext : Consumes (placeIndex b (Int32.ofNat i)) [] st
      { st with am := CAddrMan.enterIndex st.nUBuckets b i st.am } := by
    rw [placeIndex, toInt_ofNat hi, if_neg (by omega), Int.toNat_natCast]
    exact Consumes.update _ st
  have hboth := (consumes_unserializeInt32 (Int32.ofNat i) 0).scratch hnext
  rw [List.append_nil] at hboth
  exact hboth

section Buckets

variable {indices : Fin ADDRMAN_NEW_BUCKET_COUNT → List ℕ}

/-- The bytes of a bucket with some indices. -/
def bucketBytes (l : List ℕ) : Bytes :=
  serializeInt32 (Int32.ofNat l.length) ++ l.flatMap fun i => serializeInt32 (Int32.ofNat i)

/-- Indices of entries: none twice in a bucket or in more buckets than an entry can be in. -/
structure Indices (es : List CAddrInfo) (indices : Fin ADDRMAN_NEW_BUCKET_COUNT → List ℕ) :
    Prop where
  nodup : ∀ b, (indices b).Nodup
  lt : ∀ b, ∀ i ∈ indices b, i < es.length
  card_le : ∀ i, ((Finset.univ.filter fun b => i ∈ indices b).card : ℤ)
    ≤ ADDRMAN_NEW_BUCKETS_PER_ADDRESS
  length_lt : ∀ b, (indices b).length < 2 ^ 31
  es_lt : es.length < 2 ^ 31

/-- A round of the outer loop over the buckets fills the bucket. -/
lemma Loaded.readBucket (hix : Indices es indices) (hst : Loaded am es st)
    (b : Fin ADDRMAN_NEW_BUCKET_COUNT) (hempty : st.am.vvNew b = ∅)
    (hsub : ∀ c, st.am.vvNew c ⊆ (indices c).toFinset) :
    ∃ mapInfo, Consumes (CAddrMan.readBucket b) (bucketBytes (indices b)) st
        { st with am := { st.am with
          mapInfo := mapInfo
          vvNew := Function.update st.am.vvNew b (indices b).toFinset } } ∧
      Loaded am es { st with am := { st.am with
        mapInfo := mapInfo
        vvNew := Function.update st.am.vvNew b (indices b).toFinset } } := by
  have hloop := Consumes.loop (r := fun _ => readIndex b) (i := 0) (a := st)
    (fun k st' => ∃ mapInfo, st' = { st with am := { st.am with
        mapInfo := mapInfo
        vvNew := Function.update st.am.vvNew b ((indices b).take k).toFinset } } ∧
      Loaded am es st')
    ((indices b).map fun i => serializeInt32 (Int32.ofNat i)) ?_ ⟨st.am.mapInfo, ?_, hst⟩
  · obtain ⟨st', hread, mapInfo, rfl, hloaded⟩ := hloop
    rw [List.length_map, Nat.zero_add, List.take_length] at hread hloaded
    have hsize : (Int32.ofNat (indices b).length).toInt.toNat = (indices b).length := by
      rw [toInt_ofNat (hix.length_lt b), Int.toNat_natCast]
    refine ⟨mapInfo, ?_, hloaded⟩
    rw [CAddrMan.readBucket, dif_pos b.2, bucketBytes]
    refine (consumes_unserializeInt32 _ 0).scratch ?_
    rw [hsize, List.flatMap_def]
    exact hread
  · rintro k w hw _ ⟨mapInfo, rfl, hloaded⟩
    rw [Nat.zero_add] at hloaded ⊢
    rw [List.getElem?_map] at hw
    obtain ⟨i, hi, rfl⟩ := Option.map_eq_some_iff.mp hw
    have hmem := List.mem_of_getElem? hi
    have htake : (indices b).take (k + 1) = (indices b).take k ++ [i] := by
      rw [List.take_add_one, hi, Option.toList_some]
    have hfresh : i ∉ (indices b).take k := by
      have hnodup := (hix.nodup b).sublist (List.take_sublist (k + 1) _)
      rw [htake, List.nodup_append] at hnodup
      exact fun hin => hnodup.2.2 i hin i (List.mem_singleton.mpr rfl) rfl
    set st1 : Loading := { st with am := { st.am with
      mapInfo := mapInfo
      vvNew := Function.update st.am.vvNew b ((indices b).take k).toFinset } } with hst1
    have hself : st1.am.vvNew b = ((indices b).take k).toFinset := Function.update_self _ _ _
    have hnot : i ∉ st1.am.vvNew b := by
      rw [hself, List.mem_toFinset]
      exact hfresh
    -- the entry is in none but its own buckets, and not in this one yet
    have hcard : ((st1.am.buckets i).card : ℤ) < ADDRMAN_NEW_BUCKETS_PER_ADDRESS := by
      have hlt : (st1.am.buckets i).card < (Finset.univ.filter fun c => i ∈ indices c).card := by
        refine Finset.card_lt_card ((Finset.ssubset_iff_of_subset fun c hc => ?_).mpr
          ⟨b, ?_, fun hin => hnot (mem_buckets.mp hin)⟩)
        · have hin := mem_buckets.mp hc
          refine Finset.mem_filter.mpr ⟨Finset.mem_univ c, ?_⟩
          by_cases hcb : c = b
          · exact hcb ▸ hmem
          · have hother : st1.am.vvNew c = st.am.vvNew c := Function.update_of_ne hcb _ _
            exact List.mem_toFinset.mp (hsub c (hother ▸ hin))
        · exact Finset.mem_filter.mpr ⟨Finset.mem_univ b, hmem⟩
      have hle := hix.card_le i
      omega
    obtain ⟨mapInfo', henter, hloaded'⟩ := hloaded.enterIndex (hix.lt b i hmem) hnot hcard
    have hvvNew : Function.update st1.am.vvNew b (insert i (st1.am.vvNew b))
        = Function.update st.am.vvNew b ((indices b).take (k + 1)).toFinset := by
      rw [hself, hst1, Function.update_idem, htake, List.toFinset_append, Finset.union_comm]
      rfl
    rw [hvvNew] at henter hloaded'
    refine ⟨_, (consumes_readIndex b st1 ?_).trans_eq ?_, mapInfo', rfl, hloaded'⟩
    · exact (hix.lt b i hmem).trans hix.es_lt
    · rw [henter]
  · rw [List.take_zero, List.toFinset_nil, ← hempty, Function.update_eq_self]

/-- The last loops of `Unserialize` fill the buckets. -/
lemma Loaded.readAllBuckets (hix : Indices es indices) (hst : Loaded am es st)
    (hnone : st.am.vvNew = fun _ => ∅) :
    ∃ mapInfo, Consumes (loop CAddrMan.readBucket 0 ADDRMAN_NEW_BUCKET_COUNT)
        ((List.finRange ADDRMAN_NEW_BUCKET_COUNT).flatMap fun b => bucketBytes (indices b)) st
        { st with am := { st.am with
          mapInfo := mapInfo
          vvNew := fun b => (indices b).toFinset } } ∧
      Loaded am es { st with am := { st.am with
        mapInfo := mapInfo
        vvNew := fun b => (indices b).toFinset } } := by
  have hloop := Consumes.loop (r := CAddrMan.readBucket) (i := 0) (a := st)
    (fun k st' => ∃ mapInfo, st' = { st with am := { st.am with
        mapInfo := mapInfo
        vvNew := fun b => if b.1 < k then (indices b).toFinset else ∅ } } ∧ Loaded am es st')
    ((List.finRange ADDRMAN_NEW_BUCKET_COUNT).map fun b => bucketBytes (indices b)) ?_
    ⟨st.am.mapInfo, ?_, hst⟩
  · obtain ⟨st', hread, mapInfo, rfl, hloaded⟩ := hloop
    have hall : (fun b : Fin ADDRMAN_NEW_BUCKET_COUNT =>
        if b.1 < ADDRMAN_NEW_BUCKET_COUNT then (indices b).toFinset else ∅)
          = fun b => (indices b).toFinset := funext fun b => if_pos b.2
    rw [List.length_map, List.length_finRange, Nat.zero_add, hall] at hread hloaded
    exact ⟨mapInfo, by rwa [List.flatMap_def], hloaded⟩
  · rintro k w hw _ ⟨mapInfo, rfl, hloaded⟩
    rw [Nat.zero_add] at hloaded ⊢
    rw [List.getElem?_map] at hw
    obtain ⟨b, hb, rfl⟩ := Option.map_eq_some_iff.mp hw
    have hbk : b.1 = k := by
      obtain ⟨hlt, heq⟩ := List.getElem?_eq_some_iff.mp hb
      rw [List.getElem_finRange] at heq
      rw [← heq]
      rfl
    subst hbk
    obtain ⟨mapInfo', hread, hloaded'⟩ := Loaded.readBucket hix hloaded b
      (if_neg (lt_irrefl _)) fun c => by
        dsimp only
        split
        · exact subset_rfl
        · exact Finset.empty_subset _
    have hvvNew : Function.update (fun c : Fin ADDRMAN_NEW_BUCKET_COUNT =>
        if c.1 < b.1 then (indices c).toFinset else ∅) b (indices b).toFinset
          = fun c => if c.1 < b.1 + 1 then (indices c).toFinset else ∅ := by
      funext c
      by_cases hcb : c = b
      · subst hcb
        rw [Function.update_self, if_pos (Nat.lt_succ_self _)]
      · have hne : c.1 ≠ b.1 := fun heq => hcb (Fin.ext heq)
        rw [Function.update_of_ne hcb]
        exact if_congr (by omega) rfl rfl
    dsimp only at hread hloaded'
    rw [hvvNew] at hread hloaded'
    exact ⟨_, hread, mapInfo', rfl, hloaded'⟩
  · have hzero : (fun b : Fin ADDRMAN_NEW_BUCKET_COUNT =>
        if b.1 < 0 then (indices b).toFinset else ∅) = st.am.vvNew := by
      rw [hnone]
      exact funext fun b => if_neg (Nat.not_lt_zero _)
    rw [hzero]

end Buckets

/-! ## The round trip -/

/-- The indices of the entries of a "new" bucket. -/
def indicesOf (am : CAddrMan) (b : Fin ADDRMAN_NEW_BUCKET_COUNT) : List ℕ :=
  ((am.vvNew b).sort (· ≤ ·)).map am.renumber

section

variable (h : Settled Hash am)

include h

lemma renumber_inj {m : ℕ} (hn : n ∈ am.mapInfo) (hm : m ∈ am.mapInfo)
    (heq : am.renumber n = am.renumber m) : n = m := by
  obtain ⟨info, hinfo⟩ := MapLoop.mem_iff.mp hn
  obtain ⟨info', hinfo'⟩ := MapLoop.mem_iff.mp hm
  have hat := getElem?_renumber h hinfo
  rw [heq, getElem?_renumber h hinfo'] at hat
  exact (congrArg Prod.fst (Option.some.inj hat)).symm

/-- The entries of the "new" buckets have records. -/
lemma mem_mapInfo_of_mem_new (hn : n ∈ am.vvNew b) : n ∈ am.mapInfo := by
  obtain ⟨info, hinfo, -⟩ := h.exists_of_mem_new hn
  exact mem_mapInfo hinfo

lemma renumber_mem_indicesOf
    (hn : n ∈ am.mapInfo) : am.renumber n ∈ am.indicesOf b ↔ n ∈ am.vvNew b := by
  rw [indicesOf, List.mem_map]
  constructor
  · rintro ⟨m, hm, heq⟩
    have hmem := (Finset.mem_sort _).mp hm
    rwa [renumber_inj h hn (mem_mapInfo_of_mem_new h hmem) heq.symm]
  · intro hmem
    exact ⟨n, (Finset.mem_sort _).mpr hmem, rfl⟩

/-- New entries are read back under small numbers. -/
lemma getElem?_newList_renumber (hinfo : am.mapInfo[n]? = some info)
    (hfalse : info.fInTried = false) : am.newList[am.renumber n]? = some (n, info) := by
  have hat := getElem?_renumber h hinfo
  rcases Nat.lt_or_ge (am.renumber n) am.newList.length with hlt | hge
  · rwa [entries, List.getElem?_append_left hlt] at hat
  · have htried := fInTried_of_entries hge hat
    rw [hfalse] at htried
    cases htried

lemma indices_indicesOf :
    Indices (keptList nType am am.entries.length) am.indicesOf where
  nodup b := by
    refine (Finset.sort_nodup _ _).map_on fun n hn m hm heq => ?_
    exact renumber_inj h (mem_mapInfo_of_mem_new h ((Finset.mem_sort _).mp hn))
      (mem_mapInfo_of_mem_new h ((Finset.mem_sort _).mp hm)) heq
  lt b i hi := by
    obtain ⟨n, hn, rfl⟩ := List.mem_map.mp hi
    obtain ⟨info, hinfo, -⟩ := h.exists_of_mem_new ((Finset.mem_sort _).mp hn)
    rw [length_keptList le_rfl]
    exact (List.getElem?_eq_some_iff.mp (getElem?_renumber h hinfo)).1
  card_le i := by
    by_cases hex : ∃ b, i ∈ am.indicesOf b
    · obtain ⟨b, hi⟩ := hex
      obtain ⟨n, hn, rfl⟩ := List.mem_map.mp hi
      obtain ⟨info, hinfo, hfalse, -⟩ := h.exists_of_mem_new ((Finset.mem_sort _).mp hn)
      have hbuckets : (Finset.univ.filter fun b => am.renumber n ∈ am.indicesOf b)
          = am.buckets n :=
        Finset.filter_congr fun b _ => renumber_mem_indicesOf h (mem_mapInfo hinfo)
      have hplaced := h.placed_of_eq hinfo
      rw [CAddrInfo.status, hfalse] at hplaced
      obtain ⟨hcount, -, hfour, -⟩ := hplaced
      rw [hbuckets]
      omega
    · rw [Finset.filter_false_of_mem fun b _ hb => hex ⟨b, hb⟩, Finset.card_empty]
      decide
  length_lt b := by
    have hsize := h.new_size b
    rw [indicesOf, List.length_map, Finset.length_sort]
    rw [ADDRMAN_NEW_BUCKET_SIZE] at hsize
    omega
  es_lt := by
    have hlt := length_entries_lt h
    rw [length_keptList le_rfl]
    omega

/-- The bytes of a manager, with the indices that the entries have in them. -/
lemma serialize_eq : am.serialize nType =
    serializeUInt8 0 ++ (Fundamental.char.vectorFormat.serialize am.nKey ++
      (serializeInt32 (Int32.ofInt am.nNew) ++ (serializeInt32 (Int32.ofInt am.nTried) ++
        (serializeInt32 (Int32.ofNat ADDRMAN_NEW_BUCKET_COUNT) ++
          (am.newList.flatMap (fun it => it.2.serialize nType 0) ++
            (am.triedList.flatMap (fun it => it.2.serialize nType 0) ++
              (List.finRange ADDRMAN_NEW_BUCKET_COUNT).flatMap fun b =>
                bucketBytes (am.indicesOf b))))))) := by
  have hcount : ((0 : ℕ) : ℤ) + am.newList.length = am.nNew := by
    rw [length_newList h, Nat.cast_zero, zero_add]
  obtain ⟨hnew, hindex, -⟩ := @writeNew_eq nType am.nNew am.mapInfo.toList ∅ 0
    (MapLoop.nodup_map_fst_toList am.mapInfo) hcount
  have htried : writeTried nType am.nTried am.mapInfo.toList 0
      = am.triedList.flatMap fun it => it.2.serialize nType 0 :=
    writeTried_eq (show ((0 : ℕ) : ℤ) + am.triedList.length = am.nTried by
      rw [length_triedList h, Nat.cast_zero, zero_add])
  have hbucket : ∀ b, writeBucket (writeNew nType am.nNew am.mapInfo.toList ∅ 0).2 (am.vvNew b)
      = bucketBytes (am.indicesOf b) := by
    intro b
    rw [writeBucket, bucketBytes, indicesOf, List.length_map, Finset.length_sort, List.flatMap_map]
    refine congrArg _ (List.flatMap_congr fun n hn => ?_)
    obtain ⟨info, hinfo, hfalse, -⟩ := h.exists_of_mem_new ((Finset.mem_sort _).mp hn)
    have hat := hindex _ _ (getElem?_newList_renumber h hinfo hfalse)
    dsimp only at hat
    rw [hat, Option.getD_some, Nat.zero_add]
  rw [serialize, hnew, htried]
  simp only [hbucket]
  rfl

/-- The fields in front of the entries are read back. -/
lemma consumes_readHeader (hkey : am.nKey.length ≤ MAX_SIZE) (old : CAddrMan) :
    Consumes readHeader (serializeUInt8 0 ++ (Fundamental.char.vectorFormat.serialize am.nKey ++
      (serializeInt32 (Int32.ofInt am.nNew) ++ (serializeInt32 (Int32.ofInt am.nTried) ++
        serializeInt32 (Int32.ofNat ADDRMAN_NEW_BUCKET_COUNT)))))
      { am := old, nVersion := 0, nUBuckets := 0, nLost := 0 }
      { am := { old with nKey := am.nKey, nNew := am.nNew, nTried := am.nTried }
        nVersion := 0
        nUBuckets := Int32.ofNat ADDRMAN_NEW_BUCKET_COUNT
        nLost := 0 } := by
  have hlt := length_entries_lt h
  rw [entries, List.length_append] at hlt
  have hnew : (Int32.ofInt am.nNew).toInt = am.nNew := by
    rw [← length_newList h]
    exact Int32.toInt_ofInt_of_le (by omega) (by omega)
  have htried : (Int32.ofInt am.nTried).toInt = am.nTried := by
    rw [← length_triedList h]
    exact Int32.toInt_ofInt_of_le (by omega) (by omega)
  refine .trans_eq (.next (consumes_unserializeUInt8 0 _) <|
    .next (Fundamental.char.lawful_vectorFormat.consumes _ hkey _) <|
    .next (consumes_unserializeInt32 _ _) <| .next (consumes_unserializeInt32 _ _) <|
    .field (consumes_unserializeInt32 _ _)) ?_
  dsimp only [Loading.map]
  rw [hnew, htried]

/-- `Unserialize` reads back what `Serialize` has written, and leaves the containers in order. -/
lemma consumes_load (hkey : am.nKey.length ≤ MAX_SIZE) (nType : UInt32) (old : CAddrMan) :
    ∃ st, Consumes (load Hash nType) (am.serialize nType)
        { am := old, nVersion := 0, nUBuckets := 0, nLost := 0 } st ∧
      Loaded am (keptList nType am am.entries.length) st ∧
      TriedRead Hash am am.triedList.length st.am ∧
      st.am.vvNew = fun b => (am.indicesOf b).toFinset := by
  set st1 : Loading :=
    { am := clear { old with nKey := am.nKey, nNew := am.nNew, nTried := am.nTried }
      nVersion := 0
      nUBuckets := Int32.ofNat ADDRMAN_NEW_BUCKET_COUNT
      nLost := 0 } with hst1
  have hinit : Settled Hash (init []) := settled_init []
  have hloaded1 : Loaded am [] st1 :=
    { nVersion := rfl
      nUBuckets := toInt_ofNat (by norm_num)
      nLost := rfl
      nKey := rfl
      nNew := rfl
      nTried := rfl
      pool := hinit.pool
      length_eq := rfl
      info_eq := fun i => by simp [hst1, clear]
      counted := fun i info hinfo => by simp [hst1, clear] at hinfo }
  obtain ⟨am2, hreadNew, hloaded2, hvvNew2, hvvTried2⟩ := Loaded.readAllNew nType h hloaded1 rfl
  have hnNew : am2.nNew.toNat = am.newList.length := by
    have hcount : am2.nNew = am.nNew := hloaded2.nNew
    rw [hcount, ← length_newList h, Int.toNat_natCast]
  set st3 : Loading := { st1 with am := { am2 with nIdCount := am2.nNew.toNat } } with hst3
  have hloaded3 : Loaded am (keptList nType am am.newList.length) st3 := { hloaded2 with }
  obtain ⟨am4, hreadTried, hloaded4, htriedRead, hvvNew4⟩ := Loaded.readAllTried h hloaded3 hvvNew2
    hvvTried2 hnNew
  set st5 : Loading := { st1 with am := { am4 with nTried := am4.nTried - 0 } } with hst5
  have hnTried : am4.nTried - 0 = am.nTried := (sub_zero _).trans hloaded4.nTried
  have hloaded5 : Loaded am (keptList nType am am.entries.length) st5 :=
    { hloaded4 with nTried := hnTried }
  obtain ⟨mapInfo, hreadBuckets, hloaded6⟩ := hloaded5.readAllBuckets (indices_indicesOf h) hvvNew4
  refine ⟨_, ?_, hloaded6, ⟨htriedRead.nIdCount, htriedRead.mem_iff, htriedRead.nodup,
    htriedRead.sum_eq⟩, rfl⟩
  have hnewLoop : Consumes (choose fun st => if st.am.nNew < 0 then fail .undefined
      else loop (readNew Hash nType) 0 st.am.nNew.toNat)
      (am.newList.flatMap fun it => it.2.serialize nType 0) st1 { st1 with am := am2 } := by
    have hcount : st1.am.nNew = am.newList.length := (length_newList h).symm
    refine Consumes.choose ?_
    rw [hcount, if_neg (by omega), Int.toNat_natCast]
    exact hreadNew
  have htriedLoop : Consumes (choose fun st => loop (fun _ => readTried Hash nType) 0
      st.am.nTried.toNat) (am.triedList.flatMap fun it => it.2.serialize nType 0) st3
      { st1 with am := am4 } := by
    have hcount : st3.am.nTried = am.triedList.length :=
      hloaded3.nTried.trans (length_triedList h).symm
    refine Consumes.choose ?_
    rw [hcount, Int.toNat_natCast]
    exact hreadTried
  have hbucketLoop : Consumes (choose fun st => loop readBucket 0 st.nUBuckets.toInt.toNat)
      ((List.finRange ADDRMAN_NEW_BUCKET_COUNT).flatMap fun b => bucketBytes (am.indicesOf b)) st5
      { st5 with am := { st5.am with
        mapInfo := mapInfo, vvNew := fun b => (am.indicesOf b).toFinset } } := by
    refine Consumes.choose ?_
    rw [hloaded5.nUBuckets, Int.toNat_natCast]
    exact hreadBuckets
  have hnumber : Consumes (update (Loading.map fun am => { am with nIdCount := am.nNew.toNat }))
      ([] : Bytes) { st1 with am := am2 } st3 := Consumes.update (ε := Fault) _ _
  have hlost : Consumes (update fun st : Loading => st.map fun am =>
      { am with nTried := am.nTried - st.nLost }) ([] : Bytes) { st1 with am := am4 } st5 :=
    Consumes.update (ε := Fault) _ _
  have hclear : Consumes (update (Loading.map clear)) ([] : Bytes)
      { am := { old with nKey := am.nKey, nNew := am.nNew, nTried := am.nTried }
        nVersion := 0
        nUBuckets := Int32.ofNat ADDRMAN_NEW_BUCKET_COUNT
        nLost := 0 } st1 := Consumes.update (ε := Fault) _ _
  have hall := (consumes_readHeader h hkey old).andThen (hclear.andThen (hnewLoop.andThen
    (hnumber.andThen (htriedLoop.andThen (hlost.andThen hbucketLoop)))))
  simp only [List.append_assoc, List.nil_append] at hall
  rw [serialize_eq h, load]
  exact hall

end

/-- A manager that has been read from the bytes of another: its records are the written ones under
their new numbers, but for the times that are not written and the positions, and the buckets of both
kinds have the same entries. -/
structure Reloaded (nType : UInt32) (am am' : CAddrMan) : Prop where
  nKey : am'.nKey = am.nKey
  inj : ∀ n ∈ am.mapInfo, ∀ m ∈ am.mapInfo, am.renumber n = am.renumber m → n = m
  surj : ∀ m ∈ am'.mapInfo, ∃ n ∈ am.mapInfo, am.renumber n = m
  record : ∀ (n : ℕ) (info : CAddrInfo), am.mapInfo[n]? = some info →
    ∃ p, am'.mapInfo[am.renumber n]? = some { info with
      toCAddress := info.toCAddress.reread nType 0, nRandomPos := p }
  new_iff : ∀ n ∈ am.mapInfo, ∀ b, am.renumber n ∈ am'.vvNew b ↔ n ∈ am.vvNew b
  tried_iff : ∀ n ∈ am.mapInfo, ∀ b, am.renumber n ∈ am'.vvTried b ↔ n ∈ am.vvTried b

section Settled

variable (h : Settled Hash am) (hst : Loaded am (keptList nType am am.entries.length) st)
  (htriedRead : TriedRead Hash am am.triedList.length st.am)
  (hnew : st.am.vvNew = fun b => (am.indicesOf b).toFinset)

include hst in
/-- Every record that has been read was written. -/
lemma exists_entry (hinfo : st.am.mapInfo[n]? = some info) :
    ∃ it, am.entries[n]? = some it ∧ kept nType it.2 = strip info := by
  have hn := hst.info_eq n
  rw [hinfo, keptList, List.take_length, List.getElem?_map] at hn
  obtain ⟨it, hit, heq⟩ := Option.map_eq_some_iff.mp hn.symm
  exact ⟨it, hit, heq⟩

variable {it : ℕ × CAddrInfo}

include hst in
/-- Every entry that was written has been read. -/
lemma exists_record (hit : am.entries[n]? = some it) :
    ∃ info, st.am.mapInfo[n]? = some info ∧ strip info = kept nType it.2 := by
  have hn := hst.info_eq n
  rw [keptList, List.take_length, List.getElem?_map, hit] at hn
  exact Option.map_eq_some_iff.mp hn

include h in
lemma renumber_of_entries (hit : am.entries[n]? = some it) : am.renumber it.1 = n :=
  entries_inj h (getElem?_renumber h ((mem_entries h).mp (List.mem_of_getElem? hit))) hit rfl

include h hnew in
/-- An entry is in the same "new" buckets as before. -/
lemma buckets_eq (hit : am.entries[n]? = some it) : st.am.buckets n = am.buckets it.1 := by
  have hmem := mem_mapInfo ((mem_entries h).mp (List.mem_of_getElem? hit))
  ext b
  rw [mem_buckets, mem_buckets, hnew, List.mem_toFinset, ← renumber_of_entries h hit,
    renumber_mem_indicesOf h hmem]

include h htriedRead in
/-- An entry is in the same "tried" buckets as before. -/
lemma mem_vvTried_iff (hit : am.entries[n]? = some it)
    (b : Fin ADDRMAN_TRIED_BUCKET_COUNT) : n ∈ st.am.vvTried b ↔ it.1 ∈ am.vvTried b := by
  have hmem := List.mem_of_getElem? hit
  have hlt : n < am.newList.length + am.triedList.length := by
    rw [← List.length_append]
    exact (List.getElem?_eq_some_iff.mp hit).1
  rw [htriedRead.mem_iff]
  constructor
  · rintro ⟨-, hge, it', hit', hb⟩
    cases hit.symm.trans hit'
    exact (mem_vvTried h hmem (fInTried_of_entries hge hit) b).mpr hb.symm
  · intro hin
    obtain ⟨info, hinfo, htried, -, -, hiff⟩ := h.exists_of_mem_tried hin
    cases hinfo.symm.trans ((mem_entries h).mp hmem)
    refine ⟨hlt, ?_, it, hit, ((hiff b).mp hin).symm⟩
    by_contra hge
    rw [entries, List.getElem?_append_left (Nat.lt_of_not_le hge)] at hit
    have hne := (nRefCount_ne_zero_iff h hinfo).mp
      (of_decide_eq_true (List.mem_filter.mp (List.mem_of_getElem? hit)).2)
    rw [htried] at hne
    cases hne

include h hst htriedRead hnew

/-- What has been read is a manager whose containers belong together. -/
lemma settled_of_loaded : Settled Hash st.am where
  pool := hst.pool
  lt_count n hn := by
    obtain ⟨info, hinfo⟩ := MapLoop.mem_iff.mp hn
    obtain ⟨it, hit, -⟩ := exists_entry hst hinfo
    rw [htriedRead.nIdCount, ← List.length_append]
    exact (List.getElem?_eq_some_iff.mp hit).1
  placed n s hs := by
    obtain ⟨info, hinfo, rfl⟩ := Option.map_eq_some_iff.mp hs
    obtain ⟨it, hit, hkept⟩ := exists_entry hst hinfo
    have hold := h.placed_of_eq ((mem_entries h).mp (List.mem_of_getElem? hit))
    have hcount := hst.counted n info hinfo
    have htried : (kept nType it.2).fInTried = (strip info).fInTried := by rw [hkept]
    have hservice : (kept nType it.2).toCService = (strip info).toCService := by rw [hkept]
    have hbuckets := buckets_eq h hnew hit
    have hstatus : it.2.status = (info.fInTried, it.2.nRefCount, info.toCService) :=
      Prod.ext htried (Prod.ext rfl hservice)
    rw [hstatus] at hold
    rw [CAddrInfo.status]
    rcases hinTried : info.fInTried with _ | _
    · rw [hinTried] at hold
      obtain ⟨hcountOld, hone, hfour, hnot⟩ := hold
      rw [← hbuckets] at hcountOld
      refine ⟨by omega, by omega, by omega, fun b hb => ?_⟩
      exact hnot b ((mem_vvTried_iff h htriedRead hit b).mp hb)
    · rw [hinTried] at hold
      obtain ⟨-, hempty, hiff⟩ := hold
      rw [← hbuckets] at hempty
      refine ⟨by rw [hcount, hempty, Finset.card_empty, Nat.cast_zero], hempty, fun b => ?_⟩
      rw [mem_vvTried_iff h htriedRead hit, hst.nKey]
      exact hiff b
  absent n hn := by
    have hge : am.entries.length ≤ n := by
      by_contra hlt
      obtain ⟨info, hinfo, -⟩ := exists_record hst
        (List.getElem?_eq_getElem (Nat.lt_of_not_le hlt))
      exact hn (mem_mapInfo hinfo)
    refine ⟨Finset.eq_empty_iff_forall_notMem.mpr fun b hb => ?_, fun b hb => ?_⟩
    · rw [mem_buckets, hnew, List.mem_toFinset] at hb
      have hix : Indices (keptList nType am am.entries.length) am.indicesOf := indices_indicesOf h
      have hlt := hix.lt b n hb
      rw [length_keptList le_rfl] at hlt
      omega
    · have hlt := ((htriedRead.mem_iff b n).mp hb).1
      rw [← List.length_append] at hlt
      exact absurd hlt (Nat.not_lt.mpr hge)
  nodup := htriedRead.nodup
  new_size b := by
    rw [hnew]
    refine (List.toFinset_card_le _).trans ?_
    rw [indicesOf, List.length_map, Finset.length_sort]
    exact h.new_size b
  tried_size b := length_le_of_triedAt h (htriedRead.nodup b) fun i hi =>
    ((htriedRead.mem_iff b i).mp hi).2
  nTried_eq := by
    rw [htriedRead.sum_eq, hst.nTried, length_triedList h]
  total := by
    rw [hst.nTried, hst.nNew, hst.length_eq, length_keptList le_rfl, length_entries h]
    exact h.total

/-- What has been read has the entries of what was written. -/
lemma reloaded_of_loaded : Reloaded nType am st.am where
  nKey := hst.nKey
  inj n hn m hm heq := renumber_inj h hn hm heq
  surj m hm := by
    obtain ⟨info, hinfo⟩ := MapLoop.mem_iff.mp hm
    obtain ⟨it, hit, -⟩ := exists_entry hst hinfo
    exact ⟨it.1, mem_mapInfo ((mem_entries h).mp (List.mem_of_getElem? hit)),
      renumber_of_entries h hit⟩
  record n info hinfo := by
    have hit := getElem?_renumber h hinfo
    obtain ⟨info', hinfo', hstrip⟩ := exists_record hst hit
    have hcount := hst.counted _ info' hinfo'
    rw [buckets_eq h hnew hit] at hcount
    have hold := h.placed_of_eq hinfo
    have hrefs : info.nRefCount = (am.buckets n).card := by
      rw [CAddrInfo.status] at hold
      rcases htried : info.fInTried with _ | _
      · rw [htried] at hold
        exact hold.1.trans (add_zero _)
      · rw [htried] at hold
        rw [hold.1, hold.2.1, Finset.card_empty, Nat.cast_zero]
    refine ⟨info'.nRandomPos, hinfo'.trans (congrArg some ?_)⟩
    have hparts : info' = { strip info' with
      nRefCount := info'.nRefCount, nRandomPos := info'.nRandomPos } := rfl
    rw [hparts, hstrip, hcount, ← hrefs]
    rfl
  new_iff n hn b := by
    rw [hnew, List.mem_toFinset, renumber_mem_indicesOf h hn]
  tried_iff n hn b := by
    obtain ⟨info, hinfo⟩ := MapLoop.mem_iff.mp hn
    exact mem_vvTried_iff h htriedRead (getElem?_renumber h hinfo) b

end Settled

/-- A manager that has been read has the times of the one that was written, or the epoch. -/
lemma Reloaded.timed {am' : CAddrMan} (hre : Reloaded nType am am') (ht : Timed am) :
    Timed am' := by
  intro m info' hinfo'
  obtain ⟨n, hn, rfl⟩ := hre.surj m (mem_mapInfo hinfo')
  obtain ⟨info, hinfo⟩ := MapLoop.mem_iff.mp hn
  obtain ⟨p, hp⟩ := hre.record n info hinfo
  cases hp.symm.trans hinfo'
  obtain ⟨-, hsuccess, hne⟩ := ht n info hinfo
  exact ⟨Int64.le_refl 0, hsuccess, hne⟩

/-- Reading what `Serialize` has written gives the same entries under other numbers, in the same
buckets, and a manager whose containers belong together. -/
theorem reload_serialize (h : Settled Hash am) (hkey : am.nKey.length ≤ MAX_SIZE)
    (nType : UInt32) (old : CAddrMan) :
    ∃ am', Consumes (unserialize Hash nType) (am.serialize nType) old am' ∧ Settled Hash am' ∧
      Reloaded nType am am' ∧ (Timed am → Timed am' ∧ am'.check = 0) := by
  obtain ⟨st, hread, hst, htriedRead, hnew⟩ := consumes_load h hkey nType old
  have hsettled := settled_of_loaded h hst htriedRead hnew
  have hre := reloaded_of_loaded h hst htriedRead hnew
  refine ⟨st.am, fun rest => ?_, hsettled, hre, fun ht => ?_⟩
  · rw [unserialize, hread rest]
  · exact ⟨hre.timed ht, check_eq_zero hsettled (hre.timed ht)⟩

/-- A manager with a tried entry, written to a file and read back. -/
theorem reload_serialize_good : ∃ am am', run (fun _ => 0#256)
      [.add still someAddress someAddress.ip 0, .good (fun _ => 0) someAddress.toCService 5]
      (init [1, 2, 3]) = some am ∧ am.nTried = 1 ∧
    Consumes (unserialize (fun _ => 0#256) SER_DISK) (am.serialize SER_DISK) (init []) am' ∧
    Reloaded SER_DISK am am' ∧ am'.check = 0 := by
  have h0 : Settled (fun _ => 0#256) (init [1, 2, 3]) := settled_init _
  have ht0 : Timed (init [1, 2, 3]) := fun n info hinfo => by simp [init] at hinfo
  have hadd : Op.Numbered (fun _ => 0#256) (init [1, 2, 3])
      (.add still someAddress someAddress.ip 0) := fun _ _ => by decide
  obtain ⟨am1, hstep1, h1⟩ := h0.step hadd
  have haddTime : Op.TimeOk (init [1, 2, 3]) (.add still someAddress someAddress.ip 0) := trivial
  have ht1 : Timed am1 := ht0.step haddTime hstep1
  have hgood : Op.Numbered (fun _ => 0#256) am1
      (.good (fun _ => 0) someAddress.toCService 5) := trivial
  have hgoodTime : Op.TimeOk am1 (.good (fun _ => 0) someAddress.toCService 5) :=
    fun _ => by decide
  obtain ⟨am2, hstep2, h2⟩ := h1.step hgood
  have ht2 : Timed am2 := ht1.step hgoodTime hstep2
  have hrun : run (fun _ => 0#256)
      [.add still someAddress someAddress.ip 0, .good (fun _ => 0) someAddress.toCService 5]
      (init [1, 2, 3]) = some am2 := by
    simp only [run, List.foldlM_cons, hstep1, hstep2, List.foldlM_nil, Option.bind_eq_bind,
      Option.bind_some, Option.pure_def]
  have hfields : (run (fun _ => 0#256)
      [.add still someAddress someAddress.ip 0, .good (fun _ => 0) someAddress.toCService 5]
      (init [1, 2, 3])).map (fun am => (am.nKey, am.nTried)) = some ([1, 2, 3], 1) := by
    decide +kernel
  rw [hrun, Option.map_some, Option.some.injEq, Prod.mk.injEq] at hfields
  obtain ⟨am', hread, -, hre, hcheck⟩ := reload_serialize h2
    (by rw [hfields.1]; decide) SER_DISK (init [])
  exact ⟨am2, am', hrun, hfields.2, hread, hre, (hcheck ht2).2⟩

end CAddrMan

end HyperStake.Net
