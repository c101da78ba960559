import HyperStake.Net.PeersFile

/-!
# When a file of peers is consistent

`Unserialize` believes the counts, the number of buckets and the indices that it reads.  It stays
within the tables and leaves a manager whose containers belong together exactly if they fit together
(`unserialize_iff`): the counts are not negative, there are no more buckets than the table has,
every index is one of an entry that is there, no address comes twice, every new entry is listed, and
is listed in different buckets, and no bucket gets more entries than it can hold.
-/

namespace HyperStake.Net

namespace CAddrMan

local instance neZeroNewCount : NeZero ADDRMAN_NEW_BUCKET_COUNT := ⟨by decide⟩

namespace Contents

variable (c : Contents) (Hash : Bytes → UInt256)

/-- The numbers of the entries that have been put in a "tried" bucket. -/
def triedIn (es : List CAddrInfo) (b : Fin ADDRMAN_TRIED_BUCKET_COUNT) : List ℕ :=
  (List.range es.length).filter fun n => c.news.length ≤ n ∧
    (es[n]?.map fun info => CAddrInfo.getTriedBucket Hash c.nKey info.toCService) = some b

/-- A tried entry is kept if there is room for it in its bucket. -/
def keep (es : List CAddrInfo) (info : CAddrInfo) : List CAddrInfo :=
  if (c.triedIn Hash es (CAddrInfo.getTriedBucket Hash c.nKey info.toCService)).length <
    ADDRMAN_TRIED_BUCKET_SIZE then es ++ [info] else es

/-- The entries in the order of their numbers. -/
def entries : List CAddrInfo := c.trieds.foldl (c.keep Hash) c.news

/-- The buckets and the indices that are listed in them, in the order of the file. -/
def listed : List (Fin ADDRMAN_NEW_BUCKET_COUNT × ℕ) :=
  (c.buckets.zipIdx 0).flatMap fun x => x.1.map fun nIndex =>
    (Fin.ofNat ADDRMAN_NEW_BUCKET_COUNT x.2, nIndex.toInt.toNat)

/-- The references to an entry: the first four times that it is listed count, unless the number of
buckets has changed; then a new entry is put in one bucket. -/
def refsIn (es : List CAddrInfo) (seen : List (Fin ADDRMAN_NEW_BUCKET_COUNT × ℕ)) (n : ℕ) :
    List (Fin ADDRMAN_NEW_BUCKET_COUNT) :=
  if c.nUBuckets.toInt = ADDRMAN_NEW_BUCKET_COUNT then
    ((seen.filter fun x => x.2 = n).map Prod.fst).take ADDRMAN_NEW_BUCKETS_PER_ADDRESS.toNat
  else if n < c.news.length then
    (es[n]?.map fun info => info.getNewBucket Hash c.nKey info.source).toList
  else []

/-- The references to an entry in the whole file. -/
def refs (n : ℕ) : List (Fin ADDRMAN_NEW_BUCKET_COUNT) :=
  c.refsIn Hash (c.entries Hash) c.listed n

/-- The record under a number.  A number that is listed has one even if it is not that of an
entry. -/
def recordIn (es : List CAddrInfo) (seen : List (Fin ADDRMAN_NEW_BUCKET_COUNT × ℕ)) (n : ℕ) :
    Option CAddrInfo :=
  match es[n]? with
  | some info => some { info with
      nRefCount := (c.refsIn Hash es seen n).length
      fInTried := decide (c.news.length ≤ n)
      nRandomPos := n }
  | none => if n ∈ seen.map Prod.snd then
      some { CAddrInfo.new with nRefCount := (c.refsIn Hash es seen n).length } else none

/-- The counts, the number of buckets and the indices fit together. -/
structure Consistent : Prop where
  nNew_nonneg : 0 ≤ c.nNew
  nTried_nonneg : 0 ≤ c.nTried
  numbers : (c.entries Hash).length < 2 ^ 31
  nUBuckets_le : c.nUBuckets.toInt ≤ ADDRMAN_NEW_BUCKET_COUNT
  indices : ∀ l ∈ c.buckets, ∀ nIndex ∈ l, 0 ≤ nIndex.toInt ∧ nIndex.toInt <
    if c.nUBuckets.toInt = ADDRMAN_NEW_BUCKET_COUNT then c.news.length
      else (c.entries Hash).length
  distinct : ((c.entries Hash).map fun info => info.ip).Nodup
  referred : ∀ n < c.news.length, c.refs Hash n ≠ [] ∧ (c.refs Hash n).Nodup
  sizes : ∀ b, ((List.range c.news.length).filter fun n => b ∈ c.refs Hash n).length ≤
    ADDRMAN_NEW_BUCKET_SIZE

lemma consistent_iff : c.Consistent Hash ↔ (0 ≤ c.nNew ∧ 0 ≤ c.nTried ∧
    (c.entries Hash).length < 2 ^ 31 ∧ c.nUBuckets.toInt ≤ ADDRMAN_NEW_BUCKET_COUNT) ∧
    (c.buckets.all fun l => l.all fun nIndex => decide (0 ≤ nIndex.toInt ∧ nIndex.toInt <
      if c.nUBuckets.toInt = ADDRMAN_NEW_BUCKET_COUNT then c.news.length
        else (c.entries Hash).length)) = true ∧
    ((c.entries Hash).map fun info => info.ip).Nodup ∧
    (∀ n < c.news.length, c.refs Hash n ≠ [] ∧ (c.refs Hash n).Nodup) ∧
    ∀ b, ((List.range c.news.length).filter fun n => b ∈ c.refs Hash n).length ≤
      ADDRMAN_NEW_BUCKET_SIZE := by
  simp only [List.all_eq_true, decide_eq_true_eq]
  exact ⟨fun ⟨h1, h2, h3, h4, h5, h6, h7, h8⟩ => ⟨⟨h1, h2, h3, h4⟩, h5, h6, h7, h8⟩,
    fun ⟨⟨h1, h2, h3, h4⟩, h5, h6, h7, h8⟩ => ⟨h1, h2, h3, h4, h5, h6, h7, h8⟩⟩

instance decidableConsistent : Decidable (c.Consistent Hash) :=
  decidable_of_iff' _ (consistent_iff c Hash)

end Contents

/-- What has been entered: some entries, and some indices in buckets. -/
structure Entered (Hash : Bytes → UInt256) (c : Contents) (es : List CAddrInfo)
    (seen : List (Fin ADDRMAN_NEW_BUCKET_COUNT × ℕ)) (am : CAddrMan) : Prop where
  nKey : am.nKey = c.nKey
  vRandom : am.vRandom = List.range es.length
  record : ∀ n : ℕ, am.mapInfo[n]? = c.recordIn Hash es seen n
  index_sound : ∀ ip (n : ℕ), am.mapAddr[ip]? = some n → es[n]?.map (fun info => info.ip) = some ip
  index_total : ∀ (n : ℕ) info, es[n]? = some info → info.ip ∈ am.mapAddr
  new_iff : ∀ b n, n ∈ am.vvNew b ↔ b ∈ c.refsIn Hash es seen n
  tried_eq : ∀ b, am.vvTried b = c.triedIn Hash es b
  tried_le : ∀ b, (am.vvTried b).length ≤ ADDRMAN_TRIED_BUCKET_SIZE
  tried_sum : ∑ b, ((am.vvTried b).length : ℤ) = ((es.length - c.news.length : ℕ) : ℤ)

variable {Hash : Bytes → UInt256} {c : Contents} {es : List CAddrInfo} {info : CAddrInfo}
  {seen : List (Fin ADDRMAN_NEW_BUCKET_COUNT × ℕ)} {am am' : CAddrMan} {n : ℕ}

/-! ## The entries -/

lemma getElem?_concat_of_ne {α : Type*} {l : List α} {a : α} (hn : n ≠ l.length) :
    (l ++ [a])[n]? = l[n]? := by
  rcases Nat.lt_or_gt_of_ne hn with hlt | hgt
  · exact List.getElem?_append_left hlt
  · rw [List.getElem?_eq_none hgt.le, List.getElem?_eq_none]
    rw [List.length_append, List.length_singleton]
    exact hgt

/-- Another entry does not change the references to the ones before. -/
lemma refsIn_concat (hn : n ≠ es.length) :
    c.refsIn Hash (es ++ [info]) seen n = c.refsIn Hash es seen n := by
  rw [Contents.refsIn, Contents.refsIn, getElem?_concat_of_ne hn]

lemma recordIn_concat (hn : n ≠ es.length) :
    c.recordIn Hash (es ++ [info]) seen n = c.recordIn Hash es seen n := by
  rw [Contents.recordIn, Contents.recordIn, getElem?_concat_of_ne hn, refsIn_concat hn]

lemma triedIn_concat (b : Fin ADDRMAN_TRIED_BUCKET_COUNT) :
    c.triedIn Hash (es ++ [info]) b = c.triedIn Hash es b ++
      if c.news.length ≤ es.length ∧ CAddrInfo.getTriedBucket Hash c.nKey info.toCService = b
      then [es.length] else [] := by
  rw [Contents.triedIn, Contents.triedIn, List.length_append, List.length_singleton,
    List.range_succ, List.filter_append]
  refine congrArg₂ (· ++ ·) (List.filter_congr fun n hn => ?_) ?_
  · rw [getElem?_concat_of_ne (List.mem_range.mp hn).ne]
  · rw [List.filter_singleton, List.getElem?_concat_length]
    simp only [Option.map_some, Option.some.injEq, Bool.cond_decide]

/-- The next number has no references yet. -/
lemma refsIn_length : c.refsIn Hash es [] es.length = [] := by
  rw [Contents.refsIn, List.getElem?_eq_none le_rfl]
  split_ifs <;> rfl

/-- The record of the next number when its entry has been entered. -/
lemma recordIn_length : c.recordIn Hash (es ++ [info]) seen es.length = some { info with
    nRefCount := (c.refsIn Hash (es ++ [info]) seen es.length).length
    fInTried := decide (c.news.length ≤ es.length)
    nRandomPos := es.length } := by
  rw [Contents.recordIn, List.getElem?_concat_length]

/-! ## The references -/

variable {b : Fin ADDRMAN_NEW_BUCKET_COUNT}

/-- Listing an index does not change the references to the other entries. -/
lemma refsIn_seen_of_ne {m : ℕ} (hm : n ≠ m) :
    c.refsIn Hash es (seen ++ [(b, n)]) m = c.refsIn Hash es seen m := by
  rw [Contents.refsIn, Contents.refsIn, List.filter_append, List.filter_singleton,
    decide_eq_false hm, cond_false, List.append_nil]

lemma recordIn_seen_of_ne {m : ℕ} (hm : n ≠ m) :
    c.recordIn Hash es (seen ++ [(b, n)]) m = c.recordIn Hash es seen m := by
  have hmem : m ∈ (seen ++ [(b, n)]).map Prod.snd ↔ m ∈ seen.map Prod.snd := by
    rw [List.map_append, List.mem_append]
    exact ⟨fun hor => hor.resolve_right fun hn => hm (List.mem_singleton.mp hn).symm, Or.inl⟩
  rw [Contents.recordIn, Contents.recordIn, refsIn_seen_of_ne hm]
  simp only [hmem]

/-- An entry that is listed for one of the first four times gets another reference. -/
lemma refsIn_seen_of_lt (hbuckets : c.nUBuckets.toInt = ADDRMAN_NEW_BUCKET_COUNT)
    (hlt : ((c.refsIn Hash es seen n).length : ℤ) < ADDRMAN_NEW_BUCKETS_PER_ADDRESS) :
    c.refsIn Hash es (seen ++ [(b, n)]) n = c.refsIn Hash es seen n ++ [b] := by
  rw [Contents.refsIn, if_pos hbuckets, List.length_take] at hlt
  rw [Contents.refsIn, Contents.refsIn, if_pos hbuckets, if_pos hbuckets, List.filter_append,
    List.filter_singleton, decide_eq_true rfl, cond_true, List.map_append]
  have hshort : ((seen.filter fun x => x.2 = n).map Prod.fst).length <
      ADDRMAN_NEW_BUCKETS_PER_ADDRESS.toNat := by omega
  rw [List.take_of_length_le hshort.le, List.take_of_length_le]
  · rfl
  · rw [List.length_append]
    exact hshort

/-- Otherwise it keeps the references that it has. -/
lemma refsIn_seen_of_not
    (hnot : ¬ (c.nUBuckets.toInt = ADDRMAN_NEW_BUCKET_COUNT ∧
      ((c.refsIn Hash es seen n).length : ℤ) < ADDRMAN_NEW_BUCKETS_PER_ADDRESS)) :
    c.refsIn Hash es (seen ++ [(b, n)]) n = c.refsIn Hash es seen n := by
  by_cases hbuckets : c.nUBuckets.toInt = ADDRMAN_NEW_BUCKET_COUNT
  · have hlong := not_lt.mp fun hlt => hnot ⟨hbuckets, hlt⟩
    rw [Contents.refsIn, if_pos hbuckets, List.length_take] at hlong
    rw [Contents.refsIn, Contents.refsIn, if_pos hbuckets, if_pos hbuckets, List.filter_append,
      List.map_append, List.take_append_of_le_length (by omega)]
  · rw [Contents.refsIn, Contents.refsIn, if_neg hbuckets, if_neg hbuckets]

/-- A record without its references, under the number of an entry or another one. -/
def Contents.baseIn (c : Contents) (es : List CAddrInfo) (n : ℕ) : CAddrInfo :=
  match es[n]? with
  | some info => { info with fInTried := decide (c.news.length ≤ n), nRandomPos := n }
  | none => CAddrInfo.new

lemma recordIn_of_mem (hn : n ∈ seen.map Prod.snd) : c.recordIn Hash es seen n =
    some { c.baseIn es n with nRefCount := (c.refsIn Hash es seen n).length } := by
  rw [Contents.recordIn, Contents.baseIn]
  split
  · rfl
  · rw [if_pos hn]

/-- The record under a number, which comes into being if it is not there. -/
lemma getD_recordIn (hle : c.news.length ≤ es.length) :
    (c.recordIn Hash es seen n).getD CAddrInfo.new =
      { c.baseIn es n with nRefCount := (c.refsIn Hash es seen n).length } := by
  by_cases hn : n ∈ seen.map Prod.snd
  · rw [recordIn_of_mem hn, Option.getD_some]
  · rw [Contents.recordIn, Contents.baseIn]
    split
    · rfl
    · next hnone =>
      have hge : es.length ≤ n := List.getElem?_eq_none_iff.mp hnone
      have hrefs : c.refsIn Hash es seen n = [] := by
        rw [Contents.refsIn]
        split_ifs with h1 h2
        · have hfilter : (seen.filter fun x => x.2 = n) = [] := by
            refine List.filter_eq_nil_iff.mpr fun x hx heq => hn ?_
            exact List.mem_map.mpr ⟨x, hx, of_decide_eq_true heq⟩
          rw [hfilter]
          rfl
        · omega
        · rfl
      rw [if_neg hn, hrefs]
      rfl

namespace Entered

/-- One more entry. -/
lemma append (h : Entered Hash c es [] am) (hkey : am'.nKey = am.nKey)
    (hinfo : am'.mapInfo = am.mapInfo.insert es.length { info with
      nRefCount := (c.refsIn Hash (es ++ [info]) [] es.length).length
      fInTried := decide (c.news.length ≤ es.length)
      nRandomPos := es.length })
    (haddr : am'.mapAddr = am.mapAddr.insert info.ip es.length)
    (hrandom : am'.vRandom = am.vRandom ++ [es.length])
    (hnew : ∀ b n, n ∈ am'.vvNew b ↔ n ∈ am.vvNew b ∨
      n = es.length ∧ b ∈ c.refsIn Hash (es ++ [info]) [] n)
    (htried : ∀ b, am'.vvTried b = am.vvTried b ++
      if c.news.length ≤ es.length ∧ CAddrInfo.getTriedBucket Hash c.nKey info.toCService = b
      then [es.length] else [])
    (hroom : c.news.length ≤ es.length → (am.vvTried (CAddrInfo.getTriedBucket Hash c.nKey
      info.toCService)).length < ADDRMAN_TRIED_BUCKET_SIZE) :
    Entered Hash c (es ++ [info]) [] am' where
  nKey := hkey.trans h.nKey
  vRandom := by
    rw [hrandom, h.vRandom, List.length_append, List.length_singleton, List.range_succ]
  record n := by
    rw [hinfo, MapLoop.getElem?_insert_eq]
    split_ifs with hn
    · rw [← hn, recordIn_length]
    · rw [recordIn_concat (Ne.symm hn)]
      exact h.record n
  index_sound ip n hip := by
    rw [haddr, MapLoop.getElem?_insert_eq] at hip
    split_ifs at hip with heq
    · cases hip
      rw [List.getElem?_concat_length, Option.map_some, heq]
    · have hold := h.index_sound ip n hip
      have hlt : n < es.length := by
        obtain ⟨old, hold, -⟩ := Option.map_eq_some_iff.mp hold
        exact (List.getElem?_eq_some_iff.mp hold).1
      rwa [getElem?_concat_of_ne hlt.ne]
  index_total n old hold := by
    rw [haddr, Std.ExtTreeMap.mem_insert]
    by_cases hn : n = es.length
    · rw [hn, List.getElem?_concat_length] at hold
      cases hold
      exact Or.inl Std.ReflCmp.compare_self
    · rw [getElem?_concat_of_ne hn] at hold
      exact Or.inr (h.index_total n old hold)
  new_iff b n := by
    rw [hnew, h.new_iff]
    by_cases hn : n = es.length
    · subst hn
      rw [refsIn_length]
      exact ⟨fun hor => hor.elim (fun hb => absurd hb List.not_mem_nil) fun hb => hb.2,
        fun hb => Or.inr ⟨rfl, hb⟩⟩
    · rw [refsIn_concat hn]
      exact ⟨fun hor => hor.elim id fun hb => absurd hb.1 hn, Or.inl⟩
  tried_eq b := by rw [htried, h.tried_eq, triedIn_concat]
  tried_le b := by
    rw [htried, List.length_append]
    split_ifs with hb
    · rw [← hb.2]
      exact hroom hb.1
    · exact h.tried_le b
  tried_sum := by
    have hcount : ∀ b, ((am'.vvTried b).length : ℤ) = (am.vvTried b).length +
        if CAddrInfo.getTriedBucket Hash c.nKey info.toCService = b then
          (if c.news.length ≤ es.length then 1 else 0) else 0 := by
      intro b
      rw [htried, List.length_append]
      split_ifs with h1 h2 h3 <;> simp_all
    simp only [hcount]
    rw [Finset.sum_add_distrib, h.tried_sum, Finset.sum_ite_eq, if_pos (Finset.mem_univ _),
      List.length_append, List.length_singleton]
    split_ifs <;> omega

/-- Nothing has been entered at the start. -/
lemma start (nVersion : UInt8) : Entered Hash c [] [] (started c nVersion).am where
  nKey := rfl
  vRandom := rfl
  record n := by
    rw [Contents.recordIn, List.getElem?_nil]
    exact Std.ExtTreeMap.getElem?_empty
  index_sound ip n hip := by
    have hnone : (started c nVersion).am.mapAddr[ip]? = none := Std.ExtTreeMap.getElem?_empty
    rw [hnone] at hip
    cases hip
  index_total n info hinfo := by
    rw [List.getElem?_nil] at hinfo
    cases hinfo
  new_iff b n := by
    have hnil : c.refsIn Hash [] [] n = [] := by
      rw [Contents.refsIn, List.getElem?_nil]
      split_ifs <;> rfl
    rw [hnil]
    exact iff_of_false (Finset.notMem_empty n) List.not_mem_nil
  tried_eq b := rfl
  tried_le b := Nat.zero_le _
  tried_sum := by
    rw [List.length_nil, Nat.zero_sub]
    exact Finset.sum_eq_zero fun b _ => rfl

/-- A new entry is entered in its place. -/
lemma enterNew (h : Entered Hash c es [] am) (hinfo : Unplaced info)
    (hlt : es.length < c.news.length) :
    Entered Hash c (es ++ [info]) [] (CAddrMan.enterNew Hash c.nUBuckets es.length
      { am with mapInfo := am.mapInfo.insert es.length info }) := by
  obtain ⟨hrefs, hfalse⟩ := hinfo
  have hdecide : decide (c.news.length ≤ es.length) = info.fInTried := by
    rw [hfalse, decide_eq_false_iff_not]
    omega
  have hget : (am.mapInfo.insert es.length info)[es.length]?.getD CAddrInfo.new = info := by
    rw [MapLoop.getElem?_insert_eq, if_pos rfl, Option.getD_some]
  have hlength : am.vRandom.length = es.length := by rw [h.vRandom, List.length_range]
  by_cases hbuckets : c.nUBuckets.toInt = ADDRMAN_NEW_BUCKET_COUNT
  · have hnone : c.refsIn Hash (es ++ [info]) [] es.length = [] := by
      rw [Contents.refsIn, if_pos hbuckets]
      rfl
    rw [enterNew_eq Hash hbuckets]
    refine h.append rfl ?_ rfl rfl (fun b n => ?_) (fun b => ?_) fun hle => absurd hle (by omega)
    · rw [hnone, hdecide, hlength, List.length_nil, Nat.cast_zero, ← hrefs]
    · refine ⟨Or.inl, fun hor => hor.elim id fun hb => ?_⟩
      rw [hb.1, hnone] at hb
      exact absurd hb.2 List.not_mem_nil
    · rw [if_neg fun hle => absurd hle.1 (by omega), List.append_nil]
  · have hone : c.refsIn Hash (es ++ [info]) [] es.length
        = [info.getNewBucket Hash c.nKey info.source] := by
      rw [Contents.refsIn, if_neg hbuckets, if_pos hlt, List.getElem?_concat_length]
      rfl
    rw [CAddrMan.enterNew]
    dsimp only
    rw [if_pos hbuckets, hget]
    refine h.append rfl ?_ rfl rfl (fun b n => ?_) (fun b => ?_) fun hle => absurd hle (by omega)
    · rw [hone, hdecide, List.length_singleton]
      simp only [modify, setNew, MapLoop.modify_insert, hlength, hrefs]
      rfl
    · show n ∈ Function.update am.vvNew (info.getNewBucket Hash am.nKey info.source)
        (insert es.length (am.vvNew (info.getNewBucket Hash am.nKey info.source))) b ↔ _
      rw [h.nKey]
      by_cases hb : b = info.getNewBucket Hash c.nKey info.source
      · subst hb
        rw [Function.update_self, Finset.mem_insert]
        refine ⟨fun hor => hor.elim (fun hn => Or.inr ⟨hn, ?_⟩) Or.inl,
          fun hor => hor.elim Or.inr fun hn => Or.inl hn.1⟩
        rw [hn, hone]
        exact List.mem_singleton_self _
      · rw [Function.update_of_ne hb]
        refine ⟨Or.inl, fun hor => hor.elim id fun hn => ?_⟩
        rw [hn.1, hone, List.mem_singleton] at hn
        exact absurd hn.2 hb
    · rw [if_neg fun hle => absurd hle.1 (by omega), List.append_nil]
      rfl

/-- A tried entry for which there is room is entered. -/
lemma enterTried (h : Entered Hash c es [] am) (hinfo : Unplaced info)
    (hle : c.news.length ≤ es.length) (hcount : am.nIdCount = es.length)
    (hroom : (am.vvTried (CAddrInfo.getTriedBucket Hash c.nKey info.toCService)).length <
      ADDRMAN_TRIED_BUCKET_SIZE) :
    Entered Hash c (es ++ [info]) [] (CAddrMan.enterTried
      (CAddrInfo.getTriedBucket Hash c.nKey info.toCService) info am) := by
  have hlength : am.vRandom.length = es.length := by rw [h.vRandom, List.length_range]
  have hnone : c.refsIn Hash (es ++ [info]) [] es.length = [] := by
    rw [Contents.refsIn]
    split_ifs with h1 h2
    · rfl
    · omega
    · rfl
  have hdecide : decide (c.news.length ≤ es.length) = true := decide_eq_true hle
  refine h.append rfl ?_ ?_ ?_ (fun b n => ?_) (fun b => ?_) fun _ => hroom
  · show am.mapInfo.insert am.nIdCount { info with
      nRandomPos := (am.vRandom.length : ℤ), fInTried := true } = _
    rw [hnone, hdecide, hcount, hlength, hinfo.1]
    rfl
  · rw [← hcount]
    rfl
  · rw [← hcount]
    rfl
  · refine ⟨Or.inl, fun hor => hor.elim id fun hb => ?_⟩
    rw [hb.1, hnone] at hb
    exact absurd hb.2 List.not_mem_nil
  · show Function.update am.vvTried _ _ b = _
    rw [hcount]
    by_cases hb : b = CAddrInfo.getTriedBucket Hash c.nKey info.toCService
    · subst hb
      rw [Function.update_self, if_pos ⟨hle, rfl⟩]
    · rw [Function.update_of_ne hb, if_neg fun heq => hb heq.2.symm, List.append_nil]

/-- An index in a bucket is entered. -/
lemma enterIndex (h : Entered Hash c es seen am) (hle : c.news.length ≤ es.length)
    (b : Fin ADDRMAN_NEW_BUCKET_COUNT) (n : ℕ) :
    Entered Hash c es (seen ++ [(b, n)]) (CAddrMan.enterIndex c.nUBuckets b n am) := by
  have hget : am.mapInfo[n]?.getD CAddrInfo.new =
      { c.baseIn es n with nRefCount := (c.refsIn Hash es seen n).length } := by
    rw [h.record, getD_recordIn hle]
  have hrecord : ∀ info : CAddrInfo, { c.baseIn es n with
        nRefCount := (c.refsIn Hash es (seen ++ [(b, n)]) n).length } = info →
      ∀ m : ℕ, (am.mapInfo.insert n info)[m]? = c.recordIn Hash es (seen ++ [(b, n)]) m := by
    intro info hinfo m
    rw [MapLoop.getElem?_insert_eq]
    split_ifs with hm
    · subst hm
      rw [recordIn_of_mem, hinfo]
      rw [List.map_append]
      exact List.mem_append_right _ List.mem_cons_self
    · rw [recordIn_seen_of_ne hm]
      exact h.record m
  rw [CAddrMan.enterIndex]
  dsimp only
  rw [hget]
  split_ifs with hcount
  · obtain ⟨hbuckets, hlt⟩ := hcount
    have hrefs : c.refsIn Hash es (seen ++ [(b, n)]) n = c.refsIn Hash es seen n ++ [b] :=
      refsIn_seen_of_lt hbuckets hlt
    refine ⟨h.nKey, h.vRandom, fun m => ?_, h.index_sound, h.index_total, fun b' m => ?_,
      h.tried_eq, h.tried_le, h.tried_sum⟩
    · refine Eq.trans ?_ (hrecord { c.baseIn es n with
        nRefCount := (c.refsIn Hash es seen n).length + 1 } ?_ m)
      · rw [setNew, modify, MapLoop.modify_insert]
      · rw [hrefs, List.length_append, List.length_singleton]
        rfl
    · show m ∈ Function.update am.vvNew b (insert n (am.vvNew b)) b' ↔ _
      by_cases hm : m = n
      · subst hm
        rw [hrefs, List.mem_append, List.mem_singleton, ← h.new_iff]
        by_cases hb : b' = b
        · subst hb
          rw [Function.update_self]
          exact iff_of_true (Finset.mem_insert_self _ _) (Or.inr rfl)
        · rw [Function.update_of_ne hb]
          exact ⟨Or.inl, fun hor => hor.resolve_right hb⟩
      · rw [refsIn_seen_of_ne (Ne.symm hm), ← h.new_iff]
        by_cases hb : b' = b
        · subst hb
          rw [Function.update_self, Finset.mem_insert]
          exact ⟨fun hor => hor.resolve_left hm, Or.inr⟩
        · rw [Function.update_of_ne hb]
  · have hrefs : c.refsIn Hash es (seen ++ [(b, n)]) n = c.refsIn Hash es seen n :=
      refsIn_seen_of_not hcount
    refine ⟨h.nKey, h.vRandom, hrecord _ (by rw [hrefs]), h.index_sound, h.index_total,
      fun b' m => ?_, h.tried_eq, h.tried_le, h.tried_sum⟩
    rw [h.new_iff]
    by_cases hm : m = n
    · rw [hm, hrefs]
    · rw [refsIn_seen_of_ne (Ne.symm hm)]

end Entered

/-! ## All entries and all indices -/

variable {st st' : Loading}

/-- All new entries are entered. -/
lemma entered_news {news : List CAddrInfo} (hnews : es ++ news = c.news)
    (hinfo : ∀ info ∈ news, Unplaced info) (h : Entered Hash c es [] st.am)
    (hbuckets : st.nUBuckets = c.nUBuckets) :
    Entered Hash c c.news []
      ((news.zipIdx es.length).foldl (fun st x => enterRecord Hash x.2 x.1 st) st).am := by
  induction news generalizing es st with
  | nil =>
    rw [List.append_nil] at hnews
    exact hnews ▸ h
  | cons info news ih =>
    have hlt : es.length < c.news.length := by
      rw [← hnews, List.length_append, List.length_cons]
      omega
    have hnext : Entered Hash c (es ++ [info]) [] (enterRecord Hash es.length info st).am := by
      have henter := h.enterNew (hinfo info List.mem_cons_self) hlt
      rw [← hbuckets] at henter
      exact henter
    have hall := ih (by rw [List.append_assoc, ← hnews]; rfl)
      (fun info' hinfo' => hinfo info' (List.mem_cons_of_mem _ hinfo')) hnext
      ((SameCounts.enterRecord Hash es.length info st).nUBuckets.trans hbuckets)
    rw [List.length_append, List.length_singleton] at hall
    exact hall

lemma length_le_foldl_keep (c : Contents) (Hash : Bytes → UInt256) (es l : List CAddrInfo) :
    es.length ≤ (l.foldl (c.keep Hash) es).length := by
  induction l generalizing es with
  | nil => exact le_rfl
  | cons info l ih =>
    refine le_trans ?_ (ih (c.keep Hash es info))
    rw [Contents.keep]
    split_ifs
    · rw [List.length_append]
      exact Nat.le_add_right _ _
    · exact le_rfl

/-- A tried entry is kept or lost. -/
lemma keepTried_eq (h : Entered Hash c es [] st.am) :
    keepTried Hash info st =
      if (c.triedIn Hash es (CAddrInfo.getTriedBucket Hash c.nKey info.toCService)).length <
        ADDRMAN_TRIED_BUCKET_SIZE then
        if st.am.nIdCount + 1 < 2 ^ 31 then some (st.map (enterTried
          (CAddrInfo.getTriedBucket Hash c.nKey info.toCService) info)) else none
      else some { st with nLost := st.nLost + 1 } := by
  rw [keepTried, h.nKey, h.tried_eq]

/-- All tried entries are entered that there is room for, if there are numbers for them. -/
lemma entered_trieds {trieds : List CAddrInfo} (hinfo : ∀ info ∈ trieds, Unplaced info)
    (h : Entered Hash c es [] st.am) (hle : c.news.length ≤ es.length)
    (hcount : st.am.nIdCount = es.length) :
    ((trieds.foldl (c.keep Hash) es).length < 2 ^ 31 → ∃ st',
      trieds.foldlM (fun st info => keepTried Hash info st) st = some st' ∧
      Entered Hash c (trieds.foldl (c.keep Hash) es) [] st'.am ∧
      st'.am.nIdCount = (trieds.foldl (c.keep Hash) es).length ∧
      st'.nLost + (trieds.foldl (c.keep Hash) es).length =
        st.nLost + es.length + trieds.length) ∧
    (es.length < 2 ^ 31 → ¬ (trieds.foldl (c.keep Hash) es).length < 2 ^ 31 →
      trieds.foldlM (fun st info => keepTried Hash info st) st = none) := by
  induction trieds generalizing es st with
  | nil => exact ⟨fun _ => ⟨st, rfl, h, hcount, by simp⟩, fun hlt hnot => absurd hlt hnot⟩
  | cons info trieds ih =>
    have hrest : ∀ info ∈ trieds, Unplaced info := fun info' hinfo' =>
      hinfo info' (List.mem_cons_of_mem _ hinfo')
    have hkeep := length_le_foldl_keep c Hash (c.keep Hash es info) trieds
    rw [List.foldl_cons, List.foldlM_cons, keepTried_eq h]
    by_cases hroom : (c.triedIn Hash es (CAddrInfo.getTriedBucket Hash c.nKey
        info.toCService)).length < ADDRMAN_TRIED_BUCKET_SIZE
    · have hes : c.keep Hash es info = es ++ [info] := if_pos hroom
      rw [hes] at hkeep ⊢
      rw [List.length_append, List.length_singleton] at hkeep
      rw [if_pos hroom, hcount]
      by_cases hnumber : es.length + 1 < 2 ^ 31
      · rw [if_pos hnumber]
        have hnext := h.enterTried (hinfo info List.mem_cons_self) hle hcount
          (by rwa [h.tried_eq])
        have hnext' : Entered Hash c (es ++ [info]) [] (st.map (CAddrMan.enterTried
          (CAddrInfo.getTriedBucket Hash c.nKey info.toCService) info)).am := hnext
        obtain ⟨hsome, hnone⟩ := ih hrest hnext'
          (by rw [List.length_append]; omega)
          (by rw [List.length_append, List.length_singleton, ← hcount]; rfl)
        rw [List.length_append, List.length_singleton] at hsome hnone
        refine ⟨fun hlt => ?_, fun _ hnot => hnone hnumber hnot⟩
        obtain ⟨st', hfold, hentered, hcount', hlost⟩ := hsome hlt
        refine ⟨st', hfold, hentered, hcount', hlost.trans ?_⟩
        rw [List.length_cons]
        push_cast
        have hsame : (st.map (CAddrMan.enterTried (CAddrInfo.getTriedBucket Hash c.nKey
          info.toCService) info)).nLost = st.nLost := rfl
        rw [hsame]
        ring
      · rw [if_neg hnumber]
        exact ⟨fun hlt => absurd hlt (by omega), fun _ _ => rfl⟩
    · have hes : c.keep Hash es info = es := if_neg hroom
      rw [hes, if_neg hroom]
      have hnext : Entered Hash c es [] ({ st with nLost := st.nLost + 1 } : Loading).am := h
      obtain ⟨hsome, hnone⟩ := ih hrest hnext hle hcount
      refine ⟨fun hlt => ?_, hnone⟩
      obtain ⟨st', hfold, hentered, hcount', hlost⟩ := hsome hlt
      refine ⟨st', hfold, hentered, hcount', hlost.trans ?_⟩
      rw [List.length_cons]
      push_cast
      ring

/-- Some indices in buckets are entered, one after the other. -/
def enterListed (nUBuckets : Int32) (l : List (Fin ADDRMAN_NEW_BUCKET_COUNT × ℕ))
    (am : CAddrMan) : CAddrMan :=
  l.foldl (fun am x => enterIndex nUBuckets x.1 x.2 am) am

lemma entered_listed {l : List (Fin ADDRMAN_NEW_BUCKET_COUNT × ℕ)}
    (h : Entered Hash c es seen am) (hle : c.news.length ≤ es.length) :
    Entered Hash c es (seen ++ l) (enterListed c.nUBuckets l am) := by
  induction l generalizing seen am with
  | nil => rwa [List.append_nil]
  | cons x l ih =>
    have hall := ih (h.enterIndex hle x.1 x.2)
    rwa [List.append_assoc] at hall

/-- The counts are not touched by the indices. -/
lemma enterListed_counts (nUBuckets : Int32) (l : List (Fin ADDRMAN_NEW_BUCKET_COUNT × ℕ))
    (am : CAddrMan) : (enterListed nUBuckets l am).nIdCount = am.nIdCount ∧
      (enterListed nUBuckets l am).nNew = am.nNew ∧
      (enterListed nUBuckets l am).nTried = am.nTried := by
  induction l generalizing am with
  | nil => exact ⟨rfl, rfl, rfl⟩
  | cons x l ih =>
    obtain ⟨hcount, hnew, htried⟩ := ih (enterIndex nUBuckets x.1 x.2 am)
    have hone : (enterIndex nUBuckets x.1 x.2 am).nIdCount = am.nIdCount ∧
        (enterIndex nUBuckets x.1 x.2 am).nNew = am.nNew ∧
        (enterIndex nUBuckets x.1 x.2 am).nTried = am.nTried := by
      rw [enterIndex]
      dsimp only
      split_ifs <;> exact ⟨rfl, rfl, rfl⟩
    exact ⟨hcount.trans hone.1, hnew.trans hone.2.1, htried.trans hone.2.2⟩

/-- The places that the indices in one bucket stand for. -/
def placesOf (x : List Int32 × ℕ) : List (Fin ADDRMAN_NEW_BUCKET_COUNT × ℕ) :=
  x.1.map fun nIndex => (Fin.ofNat ADDRMAN_NEW_BUCKET_COUNT x.2, nIndex.toInt.toNat)

/-- A bucket that the table has, with indices that are not negative. -/
def InTable (x : List Int32 × ℕ) : Prop :=
  x.2 < ADDRMAN_NEW_BUCKET_COUNT ∧ ∀ nIndex ∈ x.1, 0 ≤ nIndex.toInt

lemma enterIndices_eq (b : ℕ) (l : List Int32) (st : Loading) :
    (InTable (l, b) → enterIndices b l st =
      some (st.map (enterListed st.nUBuckets (placesOf (l, b))))) ∧
    (¬ InTable (l, b) → enterIndices b l st = none) := by
  rw [enterIndices]
  by_cases hb : b < ADDRMAN_NEW_BUCKET_COUNT
  · rw [dif_pos hb]
    have hfin : Fin.ofNat ADDRMAN_NEW_BUCKET_COUNT b = ⟨b, hb⟩ := Fin.ext (Nat.mod_eq_of_lt hb)
    induction l generalizing st with
    | nil => exact ⟨fun _ => rfl, fun hnot => absurd ⟨hb, fun _ h => by cases h⟩ hnot⟩
    | cons nIndex l ih =>
      rw [List.foldlM_cons]
      obtain ⟨hsome, hnone⟩ := ih (st.map (enterIndex st.nUBuckets ⟨b, hb⟩ nIndex.toInt.toNat))
      by_cases hneg : nIndex.toInt < 0
      · rw [if_pos hneg]
        exact ⟨fun hin => absurd (hin.2 nIndex List.mem_cons_self) (not_le.mpr hneg), fun _ => rfl⟩
      · rw [if_neg hneg]
        have hiff : InTable (nIndex :: l, b) ↔ InTable (l, b) := by
          refine ⟨fun hin => ⟨hb, fun i hi => hin.2 i (List.mem_cons_of_mem _ hi)⟩,
            fun hin => ⟨hb, fun i hi => ?_⟩⟩
          rcases List.mem_cons.mp hi with rfl | hi
          · exact not_lt.mp hneg
          · exact hin.2 i hi
        refine ⟨fun hin => (hsome (hiff.mp hin)).trans ?_, fun hnot => hnone (hiff.not.mp hnot)⟩
        rw [placesOf, placesOf, List.map_cons, hfin]
        rfl
  · rw [dif_neg hb]
    exact ⟨fun hin => absurd hin.1 hb, fun _ => rfl⟩

/-- The buckets are filled if the table has them all and no index is negative. -/
lemma foldlM_enterIndices (l : List (List Int32 × ℕ)) (st : Loading) :
    ((∀ x ∈ l, InTable x) → l.foldlM (fun st x => enterIndices x.2 x.1 st) st =
      some (st.map (enterListed st.nUBuckets (l.flatMap placesOf)))) ∧
    (¬ (∀ x ∈ l, InTable x) → l.foldlM (fun st x => enterIndices x.2 x.1 st) st = none) := by
  induction l generalizing st with
  | nil => exact ⟨fun _ => rfl, fun hnot => absurd (fun _ h => by cases h) hnot⟩
  | cons x l ih =>
    obtain ⟨hsome, hnone⟩ := enterIndices_eq x.2 x.1 st
    rw [List.foldlM_cons]
    by_cases hin : InTable x
    · rw [hsome hin]
      obtain ⟨hsomeRest, hnoneRest⟩ := ih (st.map (enterListed st.nUBuckets (placesOf x)))
      refine ⟨fun hall => (hsomeRest fun y hy => hall y (List.mem_cons_of_mem _ hy)).trans ?_,
        fun hnot => hnoneRest fun hall => hnot fun y hy => ?_⟩
      · rw [List.flatMap_cons]
        simp only [Loading.map, enterListed, List.foldl_append]
      · rcases List.mem_cons.mp hy with rfl | hy
        · exact hin
        · exact hall y hy
    · rw [hnone hin]
      exact ⟨fun hall => absurd (hall x List.mem_cons_self) hin, fun _ => rfl⟩

/-! ## The invariant -/

/-- What is needed of the entries and the indices that have been entered. -/
structure Fits (Hash : Bytes → UInt256) (c : Contents) (es : List CAddrInfo)
    (seen : List (Fin ADDRMAN_NEW_BUCKET_COUNT × ℕ)) : Prop where
  indices : ∀ x ∈ seen, x.2 < if c.nUBuckets.toInt = ADDRMAN_NEW_BUCKET_COUNT then c.news.length
    else es.length
  distinct : (es.map fun info => info.ip).Nodup
  referred : ∀ n < c.news.length, c.refsIn Hash es seen n ≠ [] ∧ (c.refsIn Hash es seen n).Nodup
  sizes : ∀ b, ((List.range c.news.length).filter fun n => b ∈ c.refsIn Hash es seen n).length ≤
    ADDRMAN_NEW_BUCKET_SIZE

/-- An entry that is listed has references, if the number of buckets has not changed. -/
lemma refsIn_ne_nil {x : Fin ADDRMAN_NEW_BUCKET_COUNT × ℕ} (hx : x ∈ seen)
    (hbuckets : c.nUBuckets.toInt = ADDRMAN_NEW_BUCKET_COUNT) :
    c.refsIn Hash es seen x.2 ≠ [] := by
  rw [Contents.refsIn, if_pos hbuckets, ne_eq, List.take_eq_nil_iff, List.map_eq_nil_iff,
    List.filter_eq_nil_iff]
  rintro (hzero | hnone)
  · exact absurd hzero (by decide)
  · exact hnone x hx (decide_eq_true rfl)

/-- Only new entries have references, if the indices are in range. -/
lemma refsIn_eq_nil (hindices : ∀ x ∈ seen,
      x.2 < if c.nUBuckets.toInt = ADDRMAN_NEW_BUCKET_COUNT then c.news.length else es.length)
    (hn : c.news.length ≤ n) : c.refsIn Hash es seen n = [] := by
  rw [Contents.refsIn]
  split_ifs with hbuckets hlt
  · have hfilter : (seen.filter fun x => x.2 = n) = [] := by
      refine List.filter_eq_nil_iff.mpr fun x hx heq => ?_
      have hx' := hindices x hx
      rw [if_pos hbuckets, of_decide_eq_true heq] at hx'
      omega
    rw [hfilter]
    rfl
  · omega
  · rfl

namespace Entered

variable (h : Entered Hash c es seen am)

include h

lemma record_of_entry (hn : es[n]? = some info) : am.mapInfo[n]? = some { info with
    nRefCount := (c.refsIn Hash es seen n).length
    fInTried := decide (c.news.length ≤ n)
    nRandomPos := n } := by
  rw [h.record, Contents.recordIn, hn]

lemma buckets_eq : am.buckets n = (c.refsIn Hash es seen n).toFinset := by
  ext b
  rw [mem_buckets, h.new_iff, List.mem_toFinset]

/-- A manager whose containers belong together has been made of entries and indices that fit. -/
lemma fits_of_settled (hs : Settled Hash am) (hle : c.news.length ≤ es.length) :
    Fits Hash c es seen where
  indices x hx := by
    have hlt : x.2 < es.length := by
      by_contra hge
      have hrecord := h.record x.2
      rw [recordIn_of_mem (List.mem_map.mpr ⟨x, hx, rfl⟩), Contents.baseIn,
        List.getElem?_eq_none (not_lt.mp hge)] at hrecord
      have hpos := hs.pool.pos_nonneg x.2 (-1) (by rw [hrecord]; rfl)
      exact absurd hpos (by decide)
    split_ifs with hbuckets
    · by_contra hge
      obtain ⟨info, hinfo⟩ : ∃ info, es[x.2]? = some info := ⟨_, List.getElem?_eq_getElem hlt⟩
      have hplaced := hs.placed_of_eq (h.record_of_entry hinfo)
      rw [CAddrInfo.status, decide_eq_true (not_lt.mp hge)] at hplaced
      have hempty := hplaced.2.1
      rw [h.buckets_eq, List.toFinset_eq_empty_iff] at hempty
      exact refsIn_ne_nil hx hbuckets hempty
    · exact hlt
  distinct := by
    rw [List.nodup_iff_getElem?_ne_getElem?]
    intro i j hij hj heq
    rw [List.length_map] at hj
    rw [List.getElem?_map, List.getElem?_map, List.getElem?_eq_getElem (hij.trans hj),
      List.getElem?_eq_getElem hj, Option.map_some, Option.map_some, Option.some.injEq] at heq
    have hi := (hs.pool.index_iff es[i].ip i).mpr (by
      rw [h.record_of_entry (List.getElem?_eq_getElem (hij.trans hj))]
      rfl)
    have hj' := (hs.pool.index_iff es[j].ip j).mpr (by
      rw [h.record_of_entry (List.getElem?_eq_getElem hj)]
      rfl)
    rw [heq, hj'] at hi
    exact hij.ne (Option.some.inj hi).symm
  referred n hn := by
    obtain ⟨info, hinfo⟩ : ∃ info, es[n]? = some info :=
      ⟨_, List.getElem?_eq_getElem (hn.trans_le hle)⟩
    have hplaced := hs.placed_of_eq (h.record_of_entry hinfo)
    rw [CAddrInfo.status, decide_eq_false (not_le.mpr hn)] at hplaced
    obtain ⟨hcount, hpos, -, -⟩ := hplaced
    rw [h.buckets_eq, Nat.cast_zero, add_zero, Nat.cast_inj] at hcount
    refine ⟨fun hnil => ?_, ?_⟩
    · rw [hnil] at hpos
      have hone : (1 : ℤ) ≤ 0 := hpos
      omega
    · exact Multiset.coe_nodup.mp (Multiset.toFinset_card_eq_card_iff_nodup.mp hcount.symm)
  sizes b := by
    refine le_trans ?_ (hs.new_size b)
    rw [← List.toFinset_card_of_nodup (List.nodup_range.filter _)]
    refine Finset.card_le_card fun n hn => ?_
    rw [List.mem_toFinset, List.mem_filter] at hn
    exact (h.new_iff b n).mpr (of_decide_eq_true hn.2)

/-- The records, the index and the random order belong together. -/
lemma pool_of_fits (hfits : Fits Hash c es seen) (hle : c.news.length ≤ es.length) :
    IndexedPool.Agrees CAddrInfo.schema am.mapInfo am.mapAddr am.vRandom := by
  have hlisted : ∀ x ∈ seen, x.2 < es.length := fun x hx => by
    refine (hfits.indices x hx).trans_le ?_
    split_ifs
    · exact hle
    · exact le_rfl
  have hnone : ∀ n : ℕ, es[n]? = none → am.mapInfo[n]? = none := fun n hn => by
    rw [h.record, Contents.recordIn, hn]
    refine if_neg fun hmem => ?_
    obtain ⟨x, hx, rfl⟩ := List.mem_map.mp hmem
    exact absurd (hlisted x hx) (not_lt.mpr (List.getElem?_eq_none_iff.mp hn))
  have hkey : ∀ n : ℕ,
      am.mapInfo[n]?.map CAddrInfo.schema.key = es[n]?.map fun info => info.ip := by
    intro n
    rcases hn : es[n]? with _ | info
    · rw [hnone n hn]
      rfl
    · rw [h.record_of_entry hn]
      rfl
  have hpos : ∀ n : ℕ, am.mapInfo[n]?.map CAddrInfo.schema.pos =
      if n < es.length then some (n : ℤ) else none := by
    intro n
    split_ifs with hlt
    · rw [h.record_of_entry (List.getElem?_eq_getElem hlt)]
      rfl
    · rw [hnone n (List.getElem?_eq_none (not_lt.mp hlt))]
      rfl
  refine ⟨fun ip n => ?_, fun i n => ?_, fun n p hp => ?_⟩
  · rw [hkey]
    refine ⟨h.index_sound ip n, fun hn => ?_⟩
    obtain ⟨info, hinfo, rfl⟩ := Option.map_eq_some_iff.mp hn
    obtain ⟨m, hm⟩ := MapLoop.mem_iff.mp (h.index_total n info hinfo)
    -- the number that is found is that of the only entry with this address
    have hsame := h.index_sound _ m hm
    have hlt : n < (es.map fun info => info.ip).length := by
      rw [List.length_map]
      exact (List.getElem?_eq_some_iff.mp hinfo).1
    have heq : n = m := (List.getElem?_inj hlt hfits.distinct).mp (by
      rw [List.getElem?_map, List.getElem?_map, hn, hsame])
    rw [hm, heq]
  · rw [hpos, h.vRandom, List.getElem?_eq_some_iff]
    simp only [List.length_range, List.getElem_range, exists_prop]
    split_ifs with hlt
    · rw [Option.some.injEq, Nat.cast_inj]
      exact ⟨fun hi => hi.2.symm, fun hn => ⟨hn ▸ hlt, hn.symm⟩⟩
    · exact iff_of_false (fun hi => hlt (hi.2 ▸ hi.1)) (fun hn => by cases hn)
  · rw [hpos] at hp
    split_ifs at hp
    cases hp
    exact Int.natCast_nonneg n

/-- Entries and indices that fit make a manager whose containers belong together. -/
lemma settled_of_fits (hfits : Fits Hash c es seen) (hle : c.news.length ≤ es.length)
    (hcount : am.nIdCount = es.length) (hnNew : am.nNew = c.news.length)
    (hnTried : am.nTried = ((es.length - c.news.length : ℕ) : ℤ)) : Settled Hash am where
  pool := h.pool_of_fits hfits hle
  lt_count n hn := by
    obtain ⟨info, hinfo⟩ := MapLoop.mem_iff.mp hn
    rw [hcount]
    by_contra hge
    have hnone : es[n]? = none := List.getElem?_eq_none (not_lt.mp hge)
    rw [h.record, Contents.recordIn, hnone] at hinfo
    dsimp only at hinfo
    split_ifs at hinfo with hmem
    obtain ⟨x, hx, rfl⟩ := List.mem_map.mp hmem
    have hlt := hfits.indices x hx
    split_ifs at hlt
    · omega
    · omega
  placed n s hs := by
    obtain ⟨info, hinfo, rfl⟩ := Option.map_eq_some_iff.mp hs
    rcases hn : es[n]? with _ | entry
    · have hrecord := h.record n
      rw [Contents.recordIn, hn, hinfo] at hrecord
      dsimp only at hrecord
      split_ifs at hrecord with hmem
      obtain ⟨x, hx, rfl⟩ := List.mem_map.mp hmem
      have hlt := hfits.indices x hx
      have hge := List.getElem?_eq_none_iff.mp hn
      split_ifs at hlt
      · omega
      · omega
    cases hinfo.symm.trans (h.record_of_entry hn)
    have hlt := (List.getElem?_eq_some_iff.mp hn).1
    rw [CAddrInfo.status]
    by_cases hnew : n < c.news.length
    · -- a new entry
      obtain ⟨hne, hnodup⟩ := hfits.referred n hnew
      rw [decide_eq_false (not_le.mpr hnew)]
      refine ⟨?_, ?_, ?_, fun b hb => ?_⟩
      · rw [h.buckets_eq, List.toFinset_card_of_nodup hnodup, Nat.cast_zero, add_zero]
      · have hpos := List.length_pos_iff.mpr hne
        show (1 : ℤ) ≤ (c.refsIn Hash es seen n).length
        omega
      · show ((c.refsIn Hash es seen n).length : ℤ) ≤ ADDRMAN_NEW_BUCKETS_PER_ADDRESS
        rw [Contents.refsIn, hn]
        split_ifs
        · rw [List.length_take, ADDRMAN_NEW_BUCKETS_PER_ADDRESS]
          omega
        · exact (by decide : (1 : ℤ) ≤ ADDRMAN_NEW_BUCKETS_PER_ADDRESS)
      · rw [h.tried_eq, Contents.triedIn, List.mem_filter] at hb
        exact absurd (of_decide_eq_true hb.2).1 (not_le.mpr hnew)
    · -- a tried entry
      have hge := not_lt.mp hnew
      have hnil : c.refsIn Hash es seen n = [] := refsIn_eq_nil hfits.indices hge
      rw [decide_eq_true hge]
      refine ⟨?_, ?_, fun b => ?_⟩
      · rw [hnil]
        rfl
      · rw [h.buckets_eq, hnil, List.toFinset_nil]
      · rw [h.tried_eq, Contents.triedIn, List.mem_filter, hn, h.nKey]
        simp only [List.mem_range, Option.map_some, Option.some.injEq, decide_eq_true_eq]
        exact ⟨fun hb => hb.2.2.symm, fun hb => ⟨hlt, hge, hb.symm⟩⟩
  absent n hn := by
    have hnone : am.mapInfo[n]? = none := Std.ExtTreeMap.getElem?_eq_none hn
    have hge : es.length ≤ n := by
      by_contra hlt
      rw [h.record_of_entry (List.getElem?_eq_getElem (not_le.mp hlt))] at hnone
      cases hnone
    refine ⟨?_, fun b hb => ?_⟩
    · rw [h.buckets_eq, refsIn_eq_nil hfits.indices (hle.trans hge), List.toFinset_nil]
    · rw [h.tried_eq, Contents.triedIn, List.mem_filter, List.mem_range] at hb
      exact absurd hb.1 (not_lt.mpr hge)
  nodup b := by
    rw [h.tried_eq]
    exact List.nodup_range.filter _
  new_size b := by
    refine le_trans ?_ (hfits.sizes b)
    rw [← List.toFinset_card_of_nodup (List.nodup_range.filter _)]
    refine Finset.card_le_card fun n hn => ?_
    have hb := (h.new_iff b n).mp hn
    rw [List.mem_toFinset, List.mem_filter, List.mem_range]
    refine ⟨?_, decide_eq_true hb⟩
    by_contra hge
    rw [refsIn_eq_nil hfits.indices (not_lt.mp hge)] at hb
    exact absurd hb List.not_mem_nil
  tried_size := h.tried_le
  nTried_eq := by rw [hnTried, h.tried_sum]
  total := by
    rw [hnTried, hnNew, h.vRandom, List.length_range]
    omega

end Entered

/-! ## Reading a file -/

/-- The manager that is made of the contents of a file, if they stay within the tables and the numbers
of entries. -/
lemma build_eq (Hash : Bytes → UInt256) (hread : c.Read) (nVersion : UInt8) :
    ((0 ≤ c.nNew ∧ (c.entries Hash).length < 2 ^ 31 ∧ ∀ x ∈ c.buckets.zipIdx 0, InTable x) →
      ∃ st, build Hash c (started c nVersion) = some st ∧
        Entered Hash c (c.entries Hash) c.listed st.am ∧
        st.am.nIdCount = (c.entries Hash).length ∧ st.am.nNew = c.nNew ∧
        st.am.nTried = c.nTried - (c.trieds.length - ((c.entries Hash).length - c.news.length))) ∧
    (¬ (0 ≤ c.nNew ∧ (c.entries Hash).length < 2 ^ 31 ∧ ∀ x ∈ c.buckets.zipIdx 0, InTable x) →
      build Hash c (started c nVersion) = none) := by
  rw [build]
  by_cases hneg : c.nNew < 0
  · rw [if_pos hneg]
    exact ⟨fun hok => absurd hneg (not_lt.mpr hok.1), fun _ => rfl⟩
  rw [if_neg hneg]
  obtain ⟨hlength, hunplaced⟩ := hread.news
  have hshort : c.news.length < 2 ^ 31 := by
    have hlt := hread.nNew_lt
    omega
  have hstart : Entered Hash c [] [] (started c nVersion).am := Entered.start nVersion
  have hnews := entered_news rfl hunplaced hstart rfl
  obtain ⟨hsame, hlost1⟩ := foldl_enterRecord Hash (c.news.zipIdx 0) (started c nVersion)
  dsimp only
  rw [List.length_nil] at hnews
  generalize (c.news.zipIdx 0).foldl (fun st x => enterRecord Hash x.2 x.1 st)
    (started c nVersion) = st1 at hnews hsame hlost1
  have hnNew : st1.am.nNew = c.nNew := hsame.nNew
  have hnumbered : Entered Hash c c.news []
      (st1.map fun am => { am with nIdCount := am.nNew.toNat }).am := { hnews with }
  obtain ⟨hsome, hnone⟩ := entered_trieds hread.trieds.2 hnumbered le_rfl
    ((congrArg Int.toNat hnNew).trans hlength.symm)
  by_cases hnumbers : (c.entries Hash).length < 2 ^ 31
  · obtain ⟨st3, hfold, hentered, hcount, hlost⟩ := hsome hnumbers
    have hsame3 := (SameCounts.mk rfl rfl rfl rfl : SameCounts st1 (st1.map fun am =>
      { am with nIdCount := am.nNew.toNat })).trans (SameCounts.foldlM_keepTried hfold)
    rw [hfold, Option.bind_some]
    obtain ⟨hfill, hfail⟩ := foldlM_enterIndices (c.buckets.zipIdx 0)
      (st3.map fun am => { am with nTried := am.nTried - st3.nLost })
    refine ⟨fun hok => ⟨_, hfill hok.2.2, ?_⟩, fun hnot => hfail fun hin =>
      hnot ⟨not_lt.mp hneg, hnumbers, hin⟩⟩
    have hbuckets : (st3.map fun am => { am with nTried := am.nTried - st3.nLost }).nUBuckets =
      c.nUBuckets := hsame3.nUBuckets.trans hsame.nUBuckets
    rw [hbuckets]
    obtain ⟨hcount', hnew', htried'⟩ := enterListed_counts c.nUBuckets
      ((c.buckets.zipIdx 0).flatMap placesOf)
      (st3.map fun am => { am with nTried := am.nTried - st3.nLost }).am
    refine ⟨?_, hcount'.trans hcount, hnew'.trans (hsame3.nNew.trans hnNew), htried'.trans ?_⟩
    · have hlisted : c.listed = (c.buckets.zipIdx 0).flatMap placesOf := rfl
      rw [hlisted]
      have hcounted : Entered Hash c (c.entries Hash) []
        (st3.map fun am => { am with nTried := am.nTried - st3.nLost }).am := { hentered with }
      exact entered_listed hcounted (length_le_foldl_keep c Hash c.news c.trieds)
    · have htried : st3.am.nTried = c.nTried := hsame3.nTried.trans hsame.nTried
      have hzero : (st1.map fun am => { am with nIdCount := am.nNew.toNat }).nLost = 0 := hlost1
      have hlost' : st3.nLost + (c.entries Hash).length = 0 + c.news.length + c.trieds.length :=
        hzero ▸ hlost
      show st3.am.nTried - st3.nLost = _
      rw [htried]
      linarith only [hlost']
  · rw [hnone hshort hnumbers]
    exact ⟨fun hok => absurd hok.2.1 hnumbers, fun _ => rfl⟩

/-- Which buckets and indices of a file stay within the tables. -/
lemma inTable_iff (hread : c.Read) : (∀ x ∈ c.buckets.zipIdx 0, InTable x) ↔
    c.nUBuckets.toInt ≤ ADDRMAN_NEW_BUCKET_COUNT ∧ ∀ l ∈ c.buckets, ∀ nIndex ∈ l,
      0 ≤ nIndex.toInt := by
  have hlength := hread.buckets
  constructor
  · intro hin
    refine ⟨?_, fun l hl => ?_⟩
    · by_contra hgt
      have hlt : ADDRMAN_NEW_BUCKET_COUNT < c.buckets.length := by omega
      have hmem := List.mk_mem_zipIdx_iff_getElem?.mpr (List.getElem?_eq_getElem hlt)
      exact lt_irrefl _ (hin _ hmem).1
    · obtain ⟨b, hb⟩ := List.mem_iff_getElem?.mp hl
      exact (hin (l, b) (List.mk_mem_zipIdx_iff_getElem?.mpr hb)).2
  · rintro ⟨hle, hnonneg⟩ ⟨l, b⟩ hx
    have hb := List.mk_mem_zipIdx_iff_getElem?.mp hx
    have hlt := (List.getElem?_eq_some_iff.mp hb).1
    exact ⟨by omega, hnonneg l (List.mem_of_getElem? hb)⟩

/-- What is listed in the buckets of a file. -/
lemma mem_listed {x : Fin ADDRMAN_NEW_BUCKET_COUNT × ℕ} :
    x ∈ c.listed ↔ ∃ l b, c.buckets[b]? = some l ∧
    ∃ nIndex ∈ l, (Fin.ofNat ADDRMAN_NEW_BUCKET_COUNT b, nIndex.toInt.toNat) = x := by
  rw [Contents.listed, List.mem_flatMap]
  simp only [List.mem_map]
  constructor
  · rintro ⟨⟨l, b⟩, hmem, hx⟩
    exact ⟨l, b, List.mk_mem_zipIdx_iff_getElem?.mp hmem, hx⟩
  · rintro ⟨l, b, hb, hx⟩
    exact ⟨(l, b), List.mk_mem_zipIdx_iff_getElem?.mpr hb, hx⟩

/-- `Unserialize` stays within the tables and leaves a manager whose containers belong together exactly
if the counts, the number of buckets and the indices of the file fit together. -/
theorem unserialize_iff {nType : UInt32} {old : CAddrMan} {vch rest : Bytes}
    (h : readContents nType old vch = .ok (c, rest)) :
    (∃ am, unserialize Hash nType old vch = (am, .ok rest) ∧ Settled Hash am) ↔
      c.Consistent Hash := by
  obtain ⟨hread, nVersion, hyields⟩ := load_yields Hash h
  obtain ⟨hsome, hnone⟩ := build_eq Hash hread nVersion
  have hle : c.news.length ≤ (c.entries Hash).length :=
    length_le_foldl_keep c Hash c.news c.trieds
  have htriedsLength := hread.trieds.1
  have hnewsLength := hread.news.1
  constructor
  · rintro ⟨am, hload, hsettled⟩
    by_cases hok : 0 ≤ c.nNew ∧ (c.entries Hash).length < 2 ^ 31 ∧
        ∀ x ∈ c.buckets.zipIdx 0, InTable x
    · obtain ⟨st, hbuild, hentered, -, -, hnTried⟩ := hsome hok
      rw [hbuild] at hyields
      have hst : load Hash nType (unread old) vch = (st, .ok rest) := hyields
      have ham : am = st.am := by
        rw [unserialize, ← unread, hst] at hload
        exact (congrArg Prod.fst hload).symm
      subst ham
      have hfits := hentered.fits_of_settled hsettled hle
      obtain ⟨hbuckets, hnonneg⟩ := (inTable_iff hread).mp hok.2.2
      refine ⟨hok.1, ?_, hok.2.1, hbuckets, fun l hl nIndex hn => ⟨hnonneg l hl nIndex hn, ?_⟩,
        hfits.distinct, hfits.referred, hfits.sizes⟩
      · -- without tried entries the count stays as it was read
        by_contra hneg
        have hnil : c.trieds = [] := List.length_eq_zero_iff.mp (by omega)
        have hes : c.entries Hash = c.news := by rw [Contents.entries, hnil, List.foldl_nil]
        have hsum : 0 ≤ st.am.nTried := by
          rw [hsettled.nTried_eq]
          exact Finset.sum_nonneg fun b _ => Int.natCast_nonneg _
        rw [hnTried, hes, hnil, List.length_nil, sub_self, Nat.cast_zero, sub_zero, sub_zero]
          at hsum
        exact hneg hsum
      · obtain ⟨b, hb⟩ := List.mem_iff_getElem?.mp hl
        have hlt := hfits.indices _ (mem_listed.mpr ⟨l, b, hb, nIndex, hn, rfl⟩)
        have hpos := hnonneg l hl nIndex hn
        split_ifs at hlt ⊢
        · omega
        · omega
    · rw [hnone hok] at hyields
      obtain ⟨st, e, hfail⟩ := hyields
      rw [unserialize, ← unread, hfail] at hload
      cases congrArg Prod.snd hload
  · intro hc
    obtain ⟨st, hbuild, hentered, hcount, hnNew, hnTried⟩ := hsome ⟨hc.nNew_nonneg, hc.numbers,
      (inTable_iff hread).mpr
        ⟨hc.nUBuckets_le, fun l hl nIndex hn => (hc.indices l hl nIndex hn).1⟩⟩
    rw [hbuild] at hyields
    have hst : load Hash nType (unread old) vch = (st, .ok rest) := hyields
    refine ⟨st.am, by rw [unserialize, ← unread, hst], hentered.settled_of_fits
      ⟨fun x hx => ?_, hc.distinct, hc.referred, hc.sizes⟩ hle hcount ?_ ?_⟩
    · obtain ⟨l, b, hb, nIndex, hn, rfl⟩ := mem_listed.mp hx
      have hindex := hc.indices l (List.mem_of_getElem? hb) nIndex hn
      split_ifs at hindex ⊢
      · omega
      · omega
    · have hpos := hc.nNew_nonneg
      rw [hnNew]
      omega
    · have hpos := hc.nTried_nonneg
      rw [hnTried]
      omega

/-! ### Three files -/

/-- The bytes in front of the entries of a file. -/
def headerBytes (nNew nTried nUBuckets : Int32) : Bytes :=
  serializeUInt8 0 ++ (Fundamental.char.vectorFormat.serialize [] ++ (serializeInt32 nNew ++
    (serializeInt32 nTried ++ serializeInt32 nUBuckets)))

/-- A record of a node. -/
def nodeRecord (k : ℕ) : CAddrInfo :=
  CAddrInfo.ofAddress { someAddress with ip := someAddress.ip + BitVec.ofNat 128 k } 0

/-- A file with a new entry in two buckets and a tried one. -/
def goodFile : Bytes :=
  headerBytes 1 1 256 ++ ((nodeRecord 0).serialize SER_DISK 0 ++
    ((nodeRecord 1).serialize SER_DISK 0 ++ (List.range 256).flatMap fun b =>
      if b = 7 ∨ b = 9 then serializeInt32 1 ++ serializeInt32 0 else serializeInt32 0))

/-- What the file contains. -/
def goodContents : Contents where
  nKey := []
  nNew := 1
  nTried := 1
  nUBuckets := 256
  news := [nodeRecord 0]
  trieds := [nodeRecord 1]
  buckets := (List.range 256).map fun b => if b = 7 ∨ b = 9 then [0] else []

/-- The counts and indices of the file fit together. -/
theorem unserialize_iff_goodFile : ∃ am,
    unserialize (fun _ => 0#256) SER_DISK (init []) goodFile = (am, .ok []) ∧
      Settled (fun _ => 0#256) am := by
  have hread : readContents SER_DISK (init []) goodFile = .ok (goodContents, []) :=
    ExceptLoop.eq_ok_of_toOption (by decide +kernel)
  exact (unserialize_iff hread).mpr (by decide +kernel)

/-- A file without entries and with one bucket more than the table has. -/
def manyBuckets : Bytes := headerBytes 0 0 257 ++ (List.range 257).flatMap fun _ => serializeInt32 0

/-- A file without entries and with an index in its only bucket. -/
def strayIndex : Bytes := headerBytes 0 0 1 ++ (serializeInt32 1 ++ serializeInt32 5)

/-- The one file leads beyond the table of buckets.  The other one leaves a record under a number
that was never given away. -/
theorem not_unserialize_settled :
    (∃ c, readContents SER_DISK (init []) manyBuckets = .ok (c, []) ∧
      ∀ am rest, unserialize (fun _ => 0#256) SER_DISK (init []) manyBuckets ≠ (am, .ok rest)) ∧
    ∃ c am, readContents SER_DISK (init []) strayIndex = .ok (c, []) ∧
      unserialize (fun _ => 0#256) SER_DISK (init []) strayIndex = (am, .ok []) ∧
      5 ∈ am.mapInfo ∧ am.nIdCount = 0 ∧ ¬ Settled (fun _ => 0#256) am := by
  constructor
  · refine ⟨⟨[], 0, 0, 257, [], [], List.replicate 257 []⟩,
      ExceptLoop.eq_ok_of_toOption (by decide +kernel), fun am rest h => ?_⟩
    have hfail :
        (unserialize (fun _ => 0#256) SER_DISK (init []) manyBuckets).2.toOption = none := by
      decide +kernel
    rw [h] at hfail
    cases hfail
  · have hrest : (unserialize (fun _ => 0#256) SER_DISK (init []) strayIndex).2.toOption =
        some [] := by decide +kernel
    have hvals : ((unserialize (fun _ => 0#256) SER_DISK (init []) strayIndex).1.nIdCount,
        decide (5 ∈ (unserialize (fun _ => 0#256) SER_DISK (init []) strayIndex).1.mapInfo)) =
          (0, true) := by decide +kernel
    obtain ⟨hcount, hmem⟩ := Prod.mk.inj hvals
    refine ⟨⟨[], 0, 0, 1, [], [], [[5]]⟩, _, ExceptLoop.eq_ok_of_toOption (by decide +kernel),
      Prod.ext rfl (ExceptLoop.eq_ok_of_toOption hrest), of_decide_eq_true hmem, hcount,
      fun hsettled => ?_⟩
    have hlt := hsettled.lt_count 5 (of_decide_eq_true hmem)
    rw [hcount] at hlt
    exact absurd hlt (by decide)

end CAddrMan

end HyperStake.Net
