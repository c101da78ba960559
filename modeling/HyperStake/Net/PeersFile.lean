import HyperStake.Net.AddrReload

/-!
# What a file of peers contains

Whatever bytes are offered, `Unserialize` reads three counts and as many records and buckets as they
say (`readContents`).  What becomes of the manager depends on these contents only
(`load_yields`): the records are entered one after the other, and then the indices in the buckets.
-/

namespace HyperStake.Net

open FieldReader

namespace CAddrMan

/-- What a file of peers contains. -/
structure Contents where
  nKey : Bytes
  nNew : ℤ
  nTried : ℤ
  nUBuckets : Int32
  /-- The new entries. -/
  news : List CAddrInfo
  /-- The tried entries. -/
  trieds : List CAddrInfo
  /-- The indices in the "new" buckets. -/
  buckets : List (List Int32)
  deriving DecidableEq

/-- The variables of `Unserialize` at the start. -/
def unread (old : CAddrMan) : Loading := { am := old, nVersion := 0, nUBuckets := 0, nLost := 0 }

/-- A record, as it is read into a new one. -/
def readRecord (nType : UInt32) (nVersion : Int32) : Bytes → Except Fault (CAddrInfo × Bytes) :=
  FieldReader.run (CAddrInfo.unserialize nType nVersion) CAddrInfo.new

/-- The indices in a bucket, behind their number. -/
def readIndices (vch : Bytes) : Except Fault (List Int32 × Bytes) :=
  (FieldReader.run unserializeInt32 0 vch).bind fun nSize =>
    runMany (FieldReader.run unserializeInt32 0) nSize.1.toInt.toNat nSize.2

/-- The contents of a file, if it has all that its counts announce. -/
def readContents (nType : UInt32) (old : CAddrMan) (vch : Bytes) :
    Except Fault (Contents × Bytes) :=
  (FieldReader.run readHeader (unread old) vch).bind fun header =>
  let st := header.1
  (runMany (readRecord nType st.version) st.am.nNew.toNat header.2).bind fun news =>
  (runMany (readRecord nType st.version) st.am.nTried.toNat news.2).bind fun trieds =>
  (runMany readIndices st.nUBuckets.toInt.toNat trieds.2).map fun buckets =>
    ({ nKey := st.am.nKey, nNew := st.am.nNew, nTried := st.am.nTried, nUBuckets := st.nUBuckets,
       news := news.1, trieds := trieds.1, buckets := buckets.1 }, buckets.2)

/-! ## The manager that is made of the contents -/

variable (Hash : Bytes → UInt256)

/-- A new entry is entered. -/
def enterRecord (n : ℕ) (info : CAddrInfo) (st : Loading) : Loading :=
  st.map fun am => enterNew Hash st.nUBuckets n { am with mapInfo := am.mapInfo.insert n info }

/-- A tried entry is entered, if there is room for it in its bucket.  The counter of the numbers is
an `int`. -/
def keepTried (info : CAddrInfo) (st : Loading) : Option Loading :=
  let kb := CAddrInfo.getTriedBucket Hash st.am.nKey info.toCService
  if (st.am.vvTried kb).length < ADDRMAN_TRIED_BUCKET_SIZE then
    if st.am.nIdCount + 1 < 2 ^ 31 then some (st.map (enterTried kb info)) else none
  else some { st with nLost := st.nLost + 1 }

/-- The indices in a bucket are entered. -/
def enterIndices (b : ℕ) (l : List Int32) (st : Loading) : Option Loading :=
  if h : b < ADDRMAN_NEW_BUCKET_COUNT then
    l.foldlM (fun st nIndex => if nIndex.toInt < 0 then none
      else some (st.map (enterIndex st.nUBuckets ⟨b, h⟩ nIndex.toInt.toNat))) st
  else none

/-- The manager that `Unserialize` makes of the contents of a file, if it stays within the "new"
buckets and the numbers of entries. -/
def build (c : Contents) (st : Loading) : Option Loading :=
  if c.nNew < 0 then none
  else
    let st1 := (c.news.zipIdx 0).foldl (fun st x => enterRecord Hash x.2 x.1 st) st
    let st2 := st1.map fun am => { am with nIdCount := am.nNew.toNat }
    (c.trieds.foldlM (fun st info => keepTried Hash info st) st2).bind fun st3 =>
      let st4 := st3.map fun am => { am with nTried := am.nTried - st3.nLost }
      (c.buckets.zipIdx 0).foldlM (fun st x => enterIndices x.2 x.1 st) st4

variable {Hash : Bytes → UInt256} {nType : UInt32} {st st' : Loading} {vch rest : Bytes}
  {c : Contents} {old : CAddrMan}

/-! ## The loops of `Unserialize` -/

variable {n : ℕ} {info : CAddrInfo}

/-- What is entered when a record has been read. -/
lemma readNew_yields (hfresh : st.am.mapInfo[n]? = none)
    (h : readRecord nType st.version vch = .ok (info, rest)) :
    Yields (readNew Hash nType n) st vch (some (enterRecord Hash n info st)) rest := by
  have hget : st.am.mapInfo[n]?.getD CAddrInfo.new = CAddrInfo.new := by
    rw [hfresh, Option.getD_none]
  have hread := run_eq_ok.mp h
  show readNew Hash nType n st vch = _
  rw [readNew, choose, andThen, field, hget, hread]
  rfl

/-- A record is entered under its own number only. -/
lemma getElem?_enterRecord {m : ℕ} (hne : n ≠ m) :
    (enterRecord Hash n info st).am.mapInfo[m]? = st.am.mapInfo[m]? := by
  rw [enterRecord, Loading.map, enterNew]
  dsimp only
  split
  · refine (MapLoop.getElem?_modify_of_ne _ _ hne).trans
      ((MapLoop.getElem?_modify_of_ne _ _ hne).trans ?_)
    rw [MapLoop.getElem?_insert_eq, if_neg hne]
  · refine (MapLoop.getElem?_modify_of_ne _ _ hne).trans ?_
    rw [MapLoop.getElem?_insert_eq, if_neg hne]

lemma readTried_yields (h : readRecord nType st.version vch = .ok (info, rest)) :
    Yields (readTried Hash nType) st vch (keepTried Hash info st) rest := by
  have hplace : Yields (placeTried Hash info) st rest (keepTried Hash info st) rest := by
    rw [placeTried, keepTried]
    refine Yields.choose ?_
    dsimp only
    by_cases hroom : (st.am.vvTried (CAddrInfo.getTriedBucket Hash st.am.nKey
        info.toCService)).length < ADDRMAN_TRIED_BUCKET_SIZE
    · rw [if_pos hroom, if_pos hroom]
      by_cases hcount : st.am.nIdCount + 1 < 2 ^ 31
      · rw [if_pos hcount, if_pos hcount]
        exact Yields.update _ _ _
      · rw [if_neg hcount, if_neg hcount]
        exact Yields.fail _ _ _ _
    · rw [if_neg hroom, if_neg hroom]
      exact Yields.update _ _ _
  exact Yields.choose (Yields.scratch (run_eq_ok.mp h) hplace)

lemma readIndex_yields {b : Fin ADDRMAN_NEW_BUCKET_COUNT} {nIndex : Int32}
    (h : FieldReader.run unserializeInt32 0 vch = .ok (nIndex, rest)) :
    Yields (readIndex b) st vch (if nIndex.toInt < 0 then none
      else some (st.map (enterIndex st.nUBuckets b nIndex.toInt.toNat))) rest := by
  refine Yields.scratch (run_eq_ok.mp h) ?_
  rw [placeIndex]
  split_ifs
  · exact Yields.fail _ _ _ _
  · exact Yields.update _ _ _

/-- A loop over a list that does not use the positions. -/
lemma foldlM_zipIdx {α β : Type*} (f : α → β → Option β) (l : List α) (i : ℕ) (b : β) :
    (l.zipIdx i).foldlM (fun b x => f x.1 b) b = l.foldlM (fun b a => f a b) b := by
  induction l generalizing i b with
  | nil => rfl
  | cons a l ih =>
    rw [List.zipIdx_cons, List.foldlM_cons, List.foldlM_cons]
    exact congrArg (f a b).bind (funext fun b' => ih (i + 1) b')

lemma readBucket_yields {b : ℕ} {l : List Int32} (h : readIndices vch = .ok (l, rest)) :
    Yields (readBucket b) st vch (enterIndices b l st) rest := by
  rw [readIndices] at h
  rcases hsize : FieldReader.run unserializeInt32 0 vch with e | ⟨nSize, vch'⟩
  · rw [hsize] at h
    cases h
  rw [hsize, Except.bind] at h
  rw [readBucket, enterIndices]
  split
  · next hb =>
    refine Yields.scratch (run_eq_ok.mp hsize) ?_
    have hloop := Yields.loop (r := fun _ => readIndex ⟨b, hb⟩)
      (f := fun _ nIndex st => if nIndex.toInt < 0 then none
        else some (st.map (enterIndex st.nUBuckets ⟨b, hb⟩ nIndex.toInt.toNat)))
      (fun _ _ => True) (fun _ _ _ _ _ _ hread => readIndex_yields hread)
      (fun _ _ _ _ _ _ => trivial) (i := 0) (a := st) trivial h
    rwa [foldlM_zipIdx (fun (nIndex : Int32) (st : Loading) => if nIndex.toInt < 0 then none
        else some (st.map (enterIndex st.nUBuckets ⟨b, hb⟩ nIndex.toInt.toNat)))] at hloop
  · exact Yields.fail _ _ _ _

/-- The first loop of `Unserialize` enters the records one after the other. -/
lemma readNews_yields {news : List CAddrInfo} (hempty : ∀ m : ℕ, st.am.mapInfo[m]? = none)
    (h : runMany (readRecord nType st.version) n vch = .ok (news, rest)) :
    Yields (loop (readNew Hash nType) 0 n) st vch
      (some ((news.zipIdx 0).foldl (fun st x => enterRecord Hash x.2 x.1 st) st)) rest := by
  have hloop := Yields.loop (r := readNew Hash nType)
    (f := fun n info st => some (enterRecord Hash n info st))
    (fun k st' => (∀ m : ℕ, k ≤ m → st'.am.mapInfo[m]? = none) ∧ st'.version = st.version)
    ?_ ?_ (i := 0) (a := st) ⟨fun m _ => hempty m, rfl⟩ h
  · rwa [show (fun (a : Loading) (x : CAddrInfo × ℕ) => some (enterRecord Hash x.2 x.1 a)) =
      fun a x => pure (enterRecord Hash x.2 x.1 a) from rfl, List.foldlM_pure] at hloop
  · rintro k st' vch' info rest' ⟨hfresh, hversion⟩ hread
    exact readNew_yields (hfresh k le_rfl) (by rwa [hversion])
  · rintro k info st' st'' ⟨hfresh, hversion⟩ hst
    cases hst
    refine ⟨fun m hm => ?_, hversion⟩
    rw [getElem?_enterRecord (by omega)]
    exact hfresh m (by omega)

/-- The counts that have been read stay as they are while the entries are entered. -/
structure SameCounts (st st' : Loading) : Prop where
  nVersion : st'.nVersion = st.nVersion
  nUBuckets : st'.nUBuckets = st.nUBuckets
  nNew : st'.am.nNew = st.am.nNew
  nTried : st'.am.nTried = st.am.nTried

namespace SameCounts

lemma refl (st : Loading) : SameCounts st st := ⟨rfl, rfl, rfl, rfl⟩

lemma trans {st'' : Loading} (h : SameCounts st st') (h' : SameCounts st' st'') :
    SameCounts st st'' where
  nVersion := h'.nVersion.trans h.nVersion
  nUBuckets := h'.nUBuckets.trans h.nUBuckets
  nNew := h'.nNew.trans h.nNew
  nTried := h'.nTried.trans h.nTried

lemma version_eq (h : SameCounts st st') : st'.version = st.version := by
  rw [Loading.version, Loading.version, h.nVersion]

lemma enterRecord (Hash : Bytes → UInt256) (n : ℕ) (info : CAddrInfo) (st : Loading) :
    SameCounts st (enterRecord Hash n info st) := by
  refine ⟨rfl, rfl, ?_, ?_⟩
  · rw [CAddrMan.enterRecord, Loading.map, enterNew]
    dsimp only
    split <;> rfl
  · rw [CAddrMan.enterRecord, Loading.map, enterNew]
    dsimp only
    split <;> rfl

lemma keepTried {info : CAddrInfo} (h : keepTried Hash info st = some st') : SameCounts st st' := by
  rw [CAddrMan.keepTried] at h
  split_ifs at h
  · cases h
    exact ⟨rfl, rfl, rfl, rfl⟩
  · cases h
    exact ⟨rfl, rfl, rfl, rfl⟩

lemma foldlM_keepTried {l : List CAddrInfo}
    (h : l.foldlM (fun st info => CAddrMan.keepTried Hash info st) st = some st') :
    SameCounts st st' := by
  induction l generalizing st with
  | nil =>
    cases h
    exact refl _
  | cons info l ih =>
    rw [List.foldlM_cons] at h
    obtain ⟨st1, h1, h⟩ := Option.bind_eq_some_iff.mp h
    exact (keepTried h1).trans (ih h)

end SameCounts

lemma foldl_enterRecord (Hash : Bytes → UInt256) (l : List (CAddrInfo × ℕ)) (st : Loading) :
    SameCounts st (l.foldl (fun st x => enterRecord Hash x.2 x.1 st) st) ∧
      (l.foldl (fun st x => enterRecord Hash x.2 x.1 st) st).nLost = st.nLost := by
  induction l generalizing st with
  | nil => exact ⟨SameCounts.refl st, rfl⟩
  | cons x l ih =>
    obtain ⟨hsame, hlost⟩ := ih (enterRecord Hash x.2 x.1 st)
    exact ⟨(SameCounts.enterRecord Hash x.2 x.1 st).trans hsame, hlost⟩

/-- The second loop of `Unserialize` enters the tried entries one after the other. -/
lemma readTrieds_yields {trieds : List CAddrInfo}
    (h : runMany (readRecord nType st.version) n vch = .ok (trieds, rest)) :
    Yields (loop (fun _ => readTried Hash nType) 0 n) st vch
      (trieds.foldlM (fun st info => keepTried Hash info st) st) rest := by
  have hloop := Yields.loop (r := fun _ => readTried Hash nType)
    (f := fun _ info st => keepTried Hash info st) (fun _ st' => st'.version = st.version)
    (fun k st' vch' info rest' hversion hread => readTried_yields (by rwa [hversion]))
    (fun k info st' st'' hversion hst => (SameCounts.keepTried hst).version_eq.trans hversion)
    (i := 0) (a := st) rfl h
  rwa [foldlM_zipIdx fun info st => keepTried Hash info st] at hloop

lemma readBuckets_yields {buckets : List (List Int32)}
    (h : runMany readIndices n vch = .ok (buckets, rest)) :
    Yields (loop readBucket 0 n) st vch
      ((buckets.zipIdx 0).foldlM (fun st x => enterIndices x.2 x.1 st) st) rest :=
  Yields.loop (fun _ _ => True) (fun _ _ _ _ _ _ hread => readBucket_yields hread)
    (fun _ _ _ _ _ _ => trivial) trivial h

/-- The fields in front of the entries do not touch the count of the lost ones, and the number of
new entries is an `int`. -/
lemma readHeader_eq_ok (h : readHeader st vch = (st', .ok rest)) :
    st'.nLost = st.nLost ∧ st'.am.nNew < 2 ^ 31 := by
  obtain ⟨st1, vch1, h1, h⟩ := andThen_eq_ok h
  obtain ⟨st2, vch2, h2, h⟩ := andThen_eq_ok h
  obtain ⟨st3, vch3, h3, h⟩ := andThen_eq_ok h
  obtain ⟨st4, vch4, h4, h5⟩ := andThen_eq_ok h
  obtain ⟨x1, -, rfl⟩ := field_eq_ok h1
  obtain ⟨x2, -, rfl⟩ := field_eq_ok h2
  obtain ⟨x3, -, rfl⟩ := field_eq_ok h3
  obtain ⟨x4, -, rfl⟩ := field_eq_ok h4
  obtain ⟨x5, -, rfl⟩ := field_eq_ok h5
  exact ⟨rfl, x3.toInt_lt⟩

/-- The manager when the counts have been read and the tables emptied. -/
def started (c : Contents) (nVersion : UInt8) : Loading where
  am :=
    { nKey := c.nKey, nIdCount := 0, mapInfo := ∅, mapAddr := ∅, vRandom := [], nTried := c.nTried,
      vvTried := fun _ => [], nNew := c.nNew, vvNew := fun _ => ∅ }
  nVersion := nVersion
  nUBuckets := c.nUBuckets
  nLost := 0

/-- What is not written of a record is as in a new one when it has been read. -/
lemma unserialize_rest {nVersion : Int32} {info' : CAddrInfo}
    (h : CAddrInfo.unserialize nType nVersion info vch = (info', .ok rest)) :
    info'.nRefCount = info.nRefCount ∧ info'.fInTried = info.fInTried := by
  obtain ⟨info1, vch1, h1, h⟩ := andThen_eq_ok h
  obtain ⟨info2, vch2, h2, h⟩ := andThen_eq_ok h
  obtain ⟨info3, vch3, h3, h4⟩ := andThen_eq_ok h
  obtain ⟨x1, -, rfl⟩ := field_eq_ok h1
  obtain ⟨x2, -, rfl⟩ := field_eq_ok h2
  obtain ⟨x3, -, rfl⟩ := field_eq_ok h3
  obtain ⟨x4, -, rfl⟩ := field_eq_ok h4
  exact ⟨rfl, rfl⟩

/-- A record that has been read counts no references and is in no bucket. -/
def Unplaced (info : CAddrInfo) : Prop := info.nRefCount = 0 ∧ info.fInTried = false

lemma unplaced_of_read {nVersion : Int32} (h : readRecord nType nVersion vch = .ok (info, rest)) :
    Unplaced info :=
  unserialize_rest (run_eq_ok.mp h)

/-- Contents with as many entries and buckets as the counts say, none of them placed yet. -/
structure Contents.Read (c : Contents) : Prop where
  nNew_lt : c.nNew < 2 ^ 31
  news : c.news.length = c.nNew.toNat ∧ ∀ info ∈ c.news, Unplaced info
  trieds : c.trieds.length = c.nTried.toNat ∧ ∀ info ∈ c.trieds, Unplaced info
  buckets : c.buckets.length = c.nUBuckets.toInt.toNat

/-- What `Unserialize` makes of a file depends on its contents only. -/
lemma load_yields (Hash : Bytes → UInt256) (h : readContents nType old vch = .ok (c, rest)) :
    c.Read ∧ ∃ nVersion,
    Yields (load Hash nType) (unread old) vch (build Hash c (started c nVersion)) rest := by
  obtain ⟨⟨st, vch1⟩, hheader, h⟩ := ExceptLoop.bind_eq_ok.mp h
  obtain ⟨⟨news, vch2⟩, hnews, h⟩ := ExceptLoop.bind_eq_ok.mp h
  obtain ⟨⟨trieds, vch3⟩, htrieds, h⟩ := ExceptLoop.bind_eq_ok.mp h
  obtain ⟨⟨buckets, vch4⟩, hbuckets, heq⟩ := ExceptLoop.map_eq_ok.mp h
  obtain ⟨rfl, rfl⟩ := Prod.mk.inj heq
  dsimp only at hnews htrieds hbuckets ⊢
  have hread := run_eq_ok.mp hheader
  obtain ⟨hlost, hlt⟩ := readHeader_eq_ok hread
  replace hlost : st.nLost = 0 := hlost
  refine ⟨⟨hlt, forall_of_runMany (fun _ _ _ => unplaced_of_read) hnews,
    forall_of_runMany (fun _ _ _ => unplaced_of_read) htrieds,
    (forall_of_runMany (P := fun _ => True) (fun _ _ _ _ => trivial) hbuckets).1⟩, st.nVersion, ?_⟩
  generalize hc :
    Contents.mk st.am.nKey st.am.nNew st.am.nTried st.nUBuckets news trieds buckets = c
  have hstart : st.map clear = started c st.nVersion := by
    rw [Loading.map, clear, hlost, ← hc]
    rfl
  have hheaderYields : Yields readHeader (unread old) vch (some st) vch1 := hread
  have hall : Yields (load Hash nType) (unread old) vch ((some st).bind fun st =>
      (some (st.map clear)).bind fun st1 => (if st1.am.nNew < 0 then none
        else some ((c.news.zipIdx 0).foldl (fun st x => enterRecord Hash x.2 x.1 st) st1)).bind
      fun st2 => (some (st2.map fun am => { am with nIdCount := am.nNew.toNat })).bind fun st3 =>
      (c.trieds.foldlM (fun st info => keepTried Hash info st) st3).bind fun st4 =>
      (some (st4.map fun am => { am with nTried := am.nTried - st4.nLost })).bind fun st5 =>
      (c.buckets.zipIdx 0).foldlM (fun st x => enterIndices x.2 x.1 st) st5) vch4 := by
    refine hheaderYields.andThen fun st' hst' => ?_
    cases hst'
    refine (Yields.update _ _ _).andThen fun st1 hst1 => ?_
    cases hst1
    rw [hstart]
    have hnewLoop : Yields (choose fun st => if st.am.nNew < 0 then fail .undefined
        else loop (readNew Hash nType) 0 st.am.nNew.toNat) (started c st.nVersion) vch1
        (if (started c st.nVersion).am.nNew < 0 then none else some ((c.news.zipIdx 0).foldl
          (fun st x => enterRecord Hash x.2 x.1 st) (started c st.nVersion))) vch2 := by
      refine Yields.choose ?_
      split_ifs
      · exact Yields.fail _ _ _ _
      · refine readNews_yields (fun m => Std.ExtTreeMap.getElem?_empty) ?_
        rw [← hc]
        exact hnews
    refine hnewLoop.andThen fun st2 hst2 => ?_
    have hsame2 : SameCounts (started c st.nVersion) st2 := by
      split_ifs at hst2
      cases hst2
      exact (foldl_enterRecord Hash _ _).1
    refine (Yields.update _ _ _).andThen fun st3 hst3 => ?_
    cases hst3
    have htriedLoop : Yields (choose fun st => loop (fun _ => readTried Hash nType) 0
        st.am.nTried.toNat) (st2.map fun am => { am with nIdCount := am.nNew.toNat }) vch2
        (c.trieds.foldlM (fun st info => keepTried Hash info st)
          (st2.map fun am => { am with nIdCount := am.nNew.toNat })) vch3 := by
      refine Yields.choose (readTrieds_yields ?_)
      have hversion : (st2.map fun am => { am with nIdCount := am.nNew.toNat }).version =
        st.version := hsame2.version_eq
      have hnTried : (st2.map fun am => { am with nIdCount := am.nNew.toNat }).am.nTried =
        c.nTried := hsame2.nTried
      rw [hversion, hnTried, ← hc]
      exact htrieds
    refine htriedLoop.andThen fun st4 hst4 => ?_
    have hsame4 := SameCounts.foldlM_keepTried hst4
    refine (Yields.update _ _ _).andThen fun st5 hst5 => ?_
    cases hst5
    refine Yields.choose (readBuckets_yields ?_)
    have hnUBuckets : (st4.map fun am => { am with nTried := am.nTried - st4.nLost }).nUBuckets =
      c.nUBuckets := hsame4.nUBuckets.trans hsame2.nUBuckets
    rw [hnUBuckets, ← hc]
    exact hbuckets
  rw [Option.bind_some, Option.bind_some, hstart] at hall
  refine hall.of_eq ?_
  rw [build]
  have hnNew : (started c st.nVersion).am.nNew = c.nNew := rfl
  rw [hnNew]
  split_ifs <;> rfl

end CAddrMan

end HyperStake.Net
