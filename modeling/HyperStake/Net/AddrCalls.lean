import HyperStake.Net.AddrTable

/-!
# The calls of the address manager

Each call of the address manager leaves its containers as they belong together, and none of its
assertions fails; only the counter of the numbers can overflow, when `Add` meets a new address.
-/

namespace HyperStake.Net

namespace CAddrMan

variable {Hash : Bytes → UInt256} {am : CAddrMan} {n : ℕ} {info : CAddrInfo}

/-- The containers belong together, and every reference is in a bucket. -/
abbrev Settled (Hash : Bytes → UInt256) (am : CAddrMan) : Prop := Sound Hash (fun _ => 0) am

/-- The containers of a new manager. -/
lemma settled_init (nKey : Bytes) : Settled Hash (init nKey) where
  pool :=
    { index_iff := fun k n => by simp [init]
      order_iff := fun i n => by simp [init]
      pos_nonneg := fun n p hp => by simp [init] at hp }
  lt_count n hn := absurd hn Std.ExtTreeMap.not_mem_empty
  placed n s hs := by simp [init] at hs
  absent n _ := ⟨by ext b; simp [mem_buckets, init], fun b => List.not_mem_nil⟩
  nodup _ := List.nodup_nil
  new_size _ := Nat.zero_le _
  tried_size _ := Nat.zero_le _
  nTried_eq := by simp [init]
  total := by simp [init]

/-! ## `Add` -/

/-- Under a pool, the record of an address is found through the index. -/
lemma find_eq (h : Settled Hash am) (ip : CNetAddr) : am.find ip = am.mapAddr[ip]? := by
  rw [find]
  rcases hk : am.mapAddr[ip]? with _ | n
  · rfl
  · obtain ⟨info, hinfo, -⟩ := h.pool.exists_of_index_eq hk
    exact if_pos (mem_mapInfo hinfo)

/-- A known entry that is not tried can be owed one more reference. -/
lemma Sound.owe (h : Settled Hash am) (hinfo : am.mapInfo[n]? = some info)
    (htried : info.fInTried = false) (hlt : info.nRefCount < ADDRMAN_NEW_BUCKETS_PER_ADDRESS) :
    Sound Hash (fun m => if m = n then 1 else 0)
      (am.modify n fun info => { info with nRefCount := info.nRefCount + 1 }) := by
  refine h.change (fun m => m = n) rfl (h.pool.modify n (fun _ => rfl) fun _ => rfl) (fun m hm => ?_)
    (fun m _ => rfl) (fun m _ b => Iff.rfl) (fun m hm => if_neg hm) le_rfl ?_ ?_ h.nodup h.new_size
    h.tried_size h.nTried_eq h.total
  · exact congrArg (Option.map CAddrInfo.status) (MapLoop.getElem?_modify_of_ne _ _ (Ne.symm hm))
  · intro m hm info' hinfo'
    subst hm
    cases (getElem?_modify hinfo _).symm.trans hinfo'
    refine ⟨h.lt_count m (mem_mapInfo hinfo), ?_⟩
    have hplaced := h.placed_of_eq hinfo
    rw [CAddrInfo.status, htried] at hplaced
    obtain ⟨hcount, hpos, -, hnot⟩ := hplaced
    show Placed Hash _ _ m (info.fInTried, info.nRefCount + 1, info.toCService)
    rw [htried]
    refine ⟨?_, by omega, by omega, hnot⟩
    rw [if_pos rfl]
    have hbuckets : (am.modify m fun info => { info with nRefCount := info.nRefCount + 1 }).buckets m
        = am.buckets m := rfl
    rw [hbuckets]
    omega
  · intro m hm hnot
    subst hm
    refine absurd (Std.ExtTreeMap.mem_modify.mpr (mem_mapInfo hinfo)) hnot

/-- The end of `Add_`, for an entry that is owed a reference once its count says so. -/
lemma addToNew_eq (hinfo : am.mapInfo[n]? = some info) (htried : info.fInTried = false)
    (howe : Sound Hash (fun m => if m = n then 1 else 0)
      (am.modify n fun info => { info with nRefCount := info.nRefCount + 1 }))
    (env : Env) (source : CNetAddr) (fNew : Bool)
    (hin : ∀ b, n ∈ am.vvNew b → Settled Hash am) :
    ∃ r, am.addToNew Hash env n source fNew = some r ∧ Settled Hash r.2 := by
  simp only [CAddrMan.addToNew, hinfo]
  split
  · next hmem => exact ⟨_, rfl, hin _ hmem⟩
  · next hnot =>
    obtain ⟨am', ham', hsound⟩ := howe.settle (getElem?_modify hinfo _) htried hnot env
    rw [ham']
    exact ⟨_, rfl, hsound⟩

/-- The manager with a new record, as `Create` makes it. -/
def created (am : CAddrMan) (addr : CAddress) (source : CNetAddr) : CAddrMan :=
  { am with
    nIdCount := am.nIdCount + 1
    mapInfo := am.mapInfo.insert am.nIdCount
      { CAddrInfo.ofAddress addr source with nRandomPos := am.vRandom.length }
    mapAddr := am.mapAddr.insert addr.ip am.nIdCount
    vRandom := am.vRandom ++ [am.nIdCount] }

variable {addr : CAddress} {i old : ℕ} {kb : Fin ADDRMAN_TRIED_BUCKET_COUNT}

lemma create_eq (hcount : am.nIdCount + 1 < 2 ^ 31) (source : CNetAddr) :
    am.create addr source = some (am.nIdCount, am.created addr source) := if_pos hcount

lemma getElem?_created (am : CAddrMan) (addr : CAddress) (source : CNetAddr) :
    (am.created addr source).mapInfo[am.nIdCount]?
      = some { CAddrInfo.ofAddress addr source with nRandomPos := am.vRandom.length } := by
  rw [created, MapLoop.getElem?_insert_eq, if_pos rfl]

/-- The next number is not in use. -/
lemma Sound.nIdCount_fresh (h : Settled Hash am) : am.nIdCount ∉ am.mapInfo :=
  fun hmem => lt_irrefl _ (h.lt_count _ hmem)

/-- A new entry that is counted and owed its first reference. -/
lemma Sound.created (h : Settled Hash am) (source : CNetAddr) {am3 : CAddrMan}
    (hnew : am.mapAddr[addr.ip]? = none) (f : CAddrInfo → CAddrInfo)
    (hstatus : ∀ info, (f info).status = info.status)
    (hpos : ∀ info, (f info).nRandomPos = info.nRandomPos)
    (ham3 : am3 = ({ (am.created addr source).modify am.nIdCount f with
        nNew := (am.created addr source).nNew + 1 } : CAddrMan).modify am.nIdCount
      fun info => { info with nRefCount := info.nRefCount + 1 }) :
    Sound Hash (fun m => if m = am.nIdCount then 1 else 0) am3 := by
  have hnone : am.mapInfo[am.nIdCount]? = none := Std.ExtTreeMap.getElem?_eq_none h.nIdCount_fresh
  have hip : ∀ info, (f info).ip = info.ip := fun info =>
    congrArg (fun s : Bool × ℤ × CService => s.2.2.ip) (hstatus info)
  have hpool1 : IndexedPool.Agrees CAddrInfo.schema (am.created addr source).mapInfo
      (am.created addr source).mapAddr (am.created addr source).vRandom :=
    h.pool.insert hnone hnew rfl
  have hrecord : am3.mapInfo[am.nIdCount]? = some
      { f { CAddrInfo.ofAddress addr source with nRandomPos := am.vRandom.length } with
        nRefCount := (f { CAddrInfo.ofAddress addr source with
          nRandomPos := am.vRandom.length }).nRefCount + 1 } := by
    have hf := getElem?_modify (getElem?_created am addr source) f
    rw [ham3]
    exact getElem?_modify (by exact hf) _
  subst ham3
  refine h.change (fun m => m = am.nIdCount) rfl
    ((hpool1.modify am.nIdCount hip hpos).modify am.nIdCount (fun _ => rfl) fun _ => rfl)
    (fun m hm => ?_) (fun m _ => rfl) (fun m _ b => Iff.rfl) (fun m hm => if_neg hm)
    (Nat.le_succ _) ?_ ?_ h.nodup h.new_size h.tried_size h.nTried_eq ?_
  · refine congrArg (Option.map CAddrInfo.status) ?_
    refine (MapLoop.getElem?_modify_of_ne _ _ (Ne.symm hm)).trans
      ((MapLoop.getElem?_modify_of_ne _ _ (Ne.symm hm)).trans ?_)
    rw [CAddrMan.created, MapLoop.getElem?_insert_eq, if_neg (Ne.symm hm)]
  · rintro m rfl info hinfo
    cases hrecord.symm.trans hinfo
    obtain ⟨hempty, hnot⟩ := h.absent _ h.nIdCount_fresh
    have hs := hstatus { CAddrInfo.ofAddress addr source with nRandomPos := am.vRandom.length }
    generalize f { CAddrInfo.ofAddress addr source with nRandomPos := am.vRandom.length } = r at hs
    obtain ⟨htried, hs⟩ := Prod.mk.inj hs
    obtain ⟨hcount, -⟩ := Prod.mk.inj hs
    refine ⟨Nat.lt_succ_self _, ?_⟩
    show Placed Hash _ _ am.nIdCount (r.fInTried, r.nRefCount + 1, r.toCService)
    rw [htried, hcount]
    refine ⟨?_, le_refl _, (by decide : (0 : ℤ) + 1 ≤ ADDRMAN_NEW_BUCKETS_PER_ADDRESS), hnot⟩
    show (0 : ℤ) + 1 = ((am.buckets am.nIdCount).card : ℤ) + ((if _ then 1 else 0 : ℕ) : ℤ)
    rw [hempty, if_pos rfl]
    rfl
  · rintro m rfl hnot
    exact absurd (mem_mapInfo hrecord) hnot
  · have htotal := h.total
    show am.nTried + (am.nNew + 1) = ((am.vRandom ++ [am.nIdCount]).length : ℤ)
    rw [List.length_append, List.length_singleton]
    omega

/-- `Add_` leaves the containers as they belong together, if there is a number for a new address. -/
lemma Sound.add (h : Settled Hash am) (env : Env) (source : CNetAddr) (nTimePenalty : Int64)
    (hcount : CNetAddr.isRoutable addr.ip = true → am.find addr.ip = none →
      am.nIdCount + 1 < 2 ^ 31) :
    ∃ r, am.add Hash env addr source nTimePenalty = some r ∧ Settled Hash r.2 := by
  rw [CAddrMan.add]
  by_cases hroutable : CNetAddr.isRoutable addr.ip = true
  swap
  · rw [if_pos (by simpa using hroutable)]
    exact ⟨_, rfl, h⟩
  rw [if_neg (by simpa using hroutable)]
  rcases hfind : am.find addr.ip with _ | n
  · -- a new address
    have hnew : am.mapAddr[addr.ip]? = none := by rwa [find_eq h] at hfind
    have hnotin : ∀ b, am.nIdCount ∉ am.vvNew b := fun b hb => by
      have hempty := (h.absent _ h.nIdCount_fresh).1
      rw [Finset.eq_empty_iff_forall_notMem] at hempty
      exact hempty b (mem_buckets.mpr hb)
    set f : CAddrInfo → CAddrInfo := fun info =>
      { info with nTime := (max 0 (info.time - nTimePenalty)).toUInt64.toUInt32 }
    set am2 : CAddrMan := { (am.created addr source).modify am.nIdCount f with
      nNew := (am.created addr source).nNew + 1 } with ham2
    have hrecord : am2.mapInfo[am.nIdCount]? = _ :=
      getElem?_modify (getElem?_created am addr source) f
    simp only [create_eq (hcount hroutable hfind) source, Option.bind_some]
    have hsound := h.created source hnew f (fun _ => rfl) (fun _ => rfl)
      (congrArg (fun am2 : CAddrMan => am2.modify am.nIdCount fun info =>
        { info with nRefCount := info.nRefCount + 1 }) ham2)
    exact addToNew_eq hrecord rfl hsound _ source true fun b hb => absurd hb (hnotin b)
  · -- a known one
    obtain ⟨info, hinfo, -⟩ := h.pool.exists_of_index_eq ((find_eq h addr.ip).symm.trans hfind)
    simp only [hinfo]
    have h1 : Settled Hash (am.modify n fun info => refresh info addr nTimePenalty (env.now 0)) :=
      h.modify n (fun _ => rfl) fun _ => rfl
    have hinfo1 := getElem?_modify hinfo fun info => refresh info addr nTimePenalty (env.now 0)
    by_cases hrefuses : refusesReference (refresh info addr nTimePenalty (env.now 0)) addr
        (env.rand 0) = true
    · rw [if_pos hrefuses]
      exact ⟨_, rfl, h1⟩
    · rw [if_neg hrefuses]
      generalize refresh info addr nTimePenalty (env.now 0) = info1 at hinfo1 hrefuses
      simp only [refusesReference, decide_eq_true_eq, not_or] at hrefuses
      have htried : info1.fInTried = false := eq_false_of_ne_true hrefuses.2.2.1
      have hplaced := h1.placed_of_eq hinfo1
      rw [CAddrInfo.status, htried] at hplaced
      exact addToNew_eq hinfo1 htried
        (h1.owe hinfo1 htried (lt_of_le_of_ne hplaced.2.2.1 hrefuses.2.2.2.1)) _ source false
        fun _ _ => h1

/-! ## `Good` -/

variable (rand : ℕ → ℕ)

/-- A round of `SelectTried` exchanges two entries of the bucket and remembers one of its positions. -/
lemma selectTriedRound_eq {st : List ℕ × Option (ℕ × ℕ)}
    (hrecords : ∀ n ∈ st.1, n ∈ am.mapInfo) (hi : i < st.1.length)
    (hst : ∀ p, st.2 = some p → p.1 ∈ am.mapInfo ∧ p.2 < st.1.length) :
    ∃ st', am.selectTriedRound rand st i = some st' ∧ st'.1.Perm st.1 ∧ st'.2.isSome ∧
      ∀ p, st'.2 = some p → p.1 ∈ am.mapInfo ∧ p.2 < st'.1.length := by
  obtain ⟨l, o⟩ := st
  dsimp only at hrecords hi hst
  set nPos := getRandInt (rand i) (l.length - i) + i with hnPos
  have hlt : nPos < l.length := by
    have hdraw : getRandInt (rand i) (l.length - i) < l.length - i := getRandInt_lt (by omega)
    omega
  have hperm : ((l.set nPos l[i]).set i l[nPos]).Perm l := List.set_set_perm hlt hi
  have hlen : ((l.set nPos l[i]).set i l[nPos]).length = l.length := hperm.length_eq
  have hmem : l[nPos] ∈ am.mapInfo := hrecords _ (List.getElem_mem hlt)
  unfold selectTriedRound
  simp only [← hnPos, List.getElem?_eq_getElem hlt, List.getElem?_eq_getElem hi]
  rcases o with _ | ⟨nOldest, nOldestPos⟩
  · refine ⟨_, rfl, hperm, rfl, fun p hp => ?_⟩
    cases hp
    exact ⟨hmem, by rwa [hlen]⟩
  · obtain ⟨hOldest, hOldestPos⟩ := hst _ rfl
    obtain ⟨info, hinfo⟩ := MapLoop.mem_iff.mp hmem
    obtain ⟨oldest, holdest⟩ := MapLoop.mem_iff.mp hOldest
    simp only [hinfo, holdest]
    refine ⟨_, rfl, hperm, ?_, fun p hp => ?_⟩
    · dsimp only
      split
      · rfl
      · rfl
    · dsimp only at hp ⊢
      rw [hlen]
      split at hp
      · cases hp
        exact ⟨hmem, hlt⟩
      · cases hp
        exact ⟨hOldest, hOldestPos⟩

/-- The loop of `SelectTried` permutes the bucket and, if it has a round, remembers a position. -/
lemma foldlM_selectTriedRound (is : List ℕ) (st : List ℕ × Option (ℕ × ℕ))
    (hrecords : ∀ n ∈ st.1, n ∈ am.mapInfo) (his : ∀ i ∈ is, i < st.1.length)
    (hst : ∀ p, st.2 = some p → p.1 ∈ am.mapInfo ∧ p.2 < st.1.length) :
    ∃ st', is.foldlM (am.selectTriedRound rand) st = some st' ∧ st'.1.Perm st.1 ∧
      (is ≠ [] ∨ st.2.isSome → st'.2.isSome) ∧ ∀ p, st'.2 = some p → p.2 < st'.1.length := by
  induction is generalizing st with
  | nil => exact ⟨st, rfl, List.Perm.refl _, fun h => h.resolve_left fun hne => hne rfl,
      fun p hp => (hst p hp).2⟩
  | cons i is ih =>
    obtain ⟨st1, hst1, hperm1, hsome1, hold1⟩ :=
      selectTriedRound_eq rand hrecords (his i List.mem_cons_self) hst
    obtain ⟨st2, hst2, hperm2, hsome2, hold2⟩ := ih st1
      (fun n hn => hrecords n (hperm1.mem_iff.mp hn))
      (fun j hj => by rw [hperm1.length_eq]; exact his j (List.mem_cons_of_mem _ hj)) hold1
    refine ⟨st2, ?_, hperm2.trans hperm1, fun _ => hsome2 (Or.inr hsome1), hold2⟩
    rw [List.foldlM_cons, hst1]
    exact hst2

/-- `SelectTried` permutes a bucket and selects one of its positions. -/
lemma selectTried_eq {vTried : List ℕ} (hrecords : ∀ n ∈ vTried, n ∈ am.mapInfo)
    (hne : vTried ≠ []) :
    ∃ nPos vTried', am.selectTried rand vTried = some (nPos, vTried') ∧ vTried'.Perm vTried ∧
      nPos < vTried'.length := by
  have hlen : 0 < vTried.length := List.length_pos_iff.mpr hne
  obtain ⟨st, hst, hperm, hsome, hold⟩ := foldlM_selectTriedRound rand
    (List.range (min ADDRMAN_TRIED_ENTRIES_INSPECT_ON_EVICT vTried.length)) (vTried, none) hrecords
    (fun i hi => (List.mem_range.mp hi).trans_le (Nat.min_le_right _ _)) (fun p hp => by cases hp)
  have hrounds : List.range (min ADDRMAN_TRIED_ENTRIES_INSPECT_ON_EVICT vTried.length) ≠ [] := by
    rw [ne_eq, List.range_eq_nil, ADDRMAN_TRIED_ENTRIES_INSPECT_ON_EVICT]
    omega
  obtain ⟨⟨nOldest, nPos⟩, hp⟩ := Option.isSome_iff_exists.mp (hsome (Or.inl hrounds))
  refine ⟨nPos, st.1, ?_, hperm, hold _ hp⟩
  rw [selectTried, hst, Option.bind_some, hp, Option.map_some]

/-- An entry of a "tried" bucket has a record, which says so, and is in no other bucket. -/
lemma Sound.exists_of_mem_tried (h : Settled Hash am) {b : Fin ADDRMAN_TRIED_BUCKET_COUNT}
    (hn : n ∈ am.vvTried b) :
    ∃ info, am.mapInfo[n]? = some info ∧ info.fInTried = true ∧ info.nRefCount = 0 ∧
      am.buckets n = ∅ ∧
      ∀ c, n ∈ am.vvTried c ↔ c = CAddrInfo.getTriedBucket Hash am.nKey info.toCService := by
  have hmem : n ∈ am.mapInfo := by
    by_contra hnot
    exact (h.absent n hnot).2 b hn
  obtain ⟨info, hinfo⟩ := MapLoop.mem_iff.mp hmem
  have hplaced := h.placed_of_eq hinfo
  refine ⟨info, hinfo, ?_⟩
  rcases htried : info.fInTried with _ | _
  · rw [CAddrInfo.status, htried] at hplaced
    exact absurd hn (hplaced.2.2.2 b)
  · rw [CAddrInfo.status, htried] at hplaced
    exact ⟨rfl, hplaced⟩

/-- The buckets of a number after an entry has been removed from all "new" buckets. -/
lemma buckets_removeFromNew {m : ℕ} :
    (am.removeFromNew n).buckets m = if m = n then ∅ else am.buckets m := by
  ext b
  rw [mem_buckets, removeFromNew]
  simp only [Finset.mem_erase]
  split
  · next hm => simp [hm]
  · next hm => rw [mem_buckets]; exact ⟨fun h => h.2, fun h => ⟨hm, h⟩⟩

/-- Replacing one length of a table by another one. -/
lemma sum_length_update (v : Fin ADDRMAN_TRIED_BUCKET_COUNT → List ℕ)
    (b : Fin ADDRMAN_TRIED_BUCKET_COUNT) (l : List ℕ) :
    ∑ c, ((Function.update v b l c).length : ℤ)
      = ∑ c, ((v c).length : ℤ) + (l.length - (v b).length) := by
  have hcomp : (fun c => ((Function.update v b l c).length : ℤ))
      = Function.update (fun c => ((v c).length : ℤ)) b (l.length : ℤ) := by
    funext c
    by_cases hc : c = b
    · subst hc
      simp only [Function.update_self]
    · simp only [Function.update_of_ne hc]
  rw [hcomp, Finset.sum_update_of_mem (Finset.mem_univ b)]
  have hsplit := Finset.sum_sdiff (f := fun c => ((v c).length : ℤ))
    (Finset.subset_univ ({b} : Finset (Fin ADDRMAN_TRIED_BUCKET_COUNT)))
  rw [Finset.sum_singleton] at hsplit
  omega

/-- An entry that was removed from the "new" buckets is put in its "tried" bucket. -/
lemma Sound.place (h : Settled Hash am) (hinfo : am.mapInfo[n]? = some info)
    (htried : info.fInTried = false)
    (hkb : kb = CAddrInfo.getTriedBucket Hash am.nKey info.toCService)
    (hroom : (am.vvTried kb).length < ADDRMAN_TRIED_BUCKET_SIZE) :
    Settled Hash { ((am.removeFromNew n).setTried kb (am.vvTried kb ++ [n])).modify n fun info =>
      { info with fInTried := true } with nTried := am.nTried + 1 } := by
  have hplaced := h.placed_of_eq hinfo
  rw [CAddrInfo.status, htried] at hplaced
  obtain ⟨hcount, -, -, hnot⟩ := hplaced
  have hrecord := getElem?_modify (getElem?_modify hinfo fun info =>
    { info with nRefCount := info.nRefCount - (am.buckets n).card }) fun info =>
      { info with fInTried := true }
  have hpool : IndexedPool.Agrees CAddrInfo.schema ((am.mapInfo.modify n fun info =>
      { info with nRefCount := info.nRefCount - (am.buckets n).card }).modify n fun info =>
        { info with fInTried := true }) am.mapAddr am.vRandom := by
    refine (h.pool.modify n ?_ ?_).modify n ?_ ?_
    all_goals exact fun _ => rfl
  refine h.change (fun m => m = n) rfl hpool
    (fun m hm => ?_) (fun m hm => buckets_removeFromNew.trans (if_neg hm)) (fun m hm b => ?_)
    (fun _ _ => rfl) le_rfl ?_ ?_ (fun b => ?_) (fun b => ?_) (fun b => ?_) ?_ ?_
  · refine congrArg (Option.map CAddrInfo.status) ?_
    exact (MapLoop.getElem?_modify_of_ne _ _ (Ne.symm hm)).trans
      (MapLoop.getElem?_modify_of_ne _ _ (Ne.symm hm))
  · show m ∈ Function.update am.vvTried kb (am.vvTried kb ++ [n]) b ↔ m ∈ am.vvTried b
    by_cases hb : b = kb
    · subst hb
      rw [Function.update_self, List.mem_append, List.mem_singleton, or_iff_left hm]
    · rw [Function.update_of_ne hb]
  · rintro m rfl info' hinfo'
    cases hrecord.symm.trans hinfo'
    refine ⟨h.lt_count m (mem_mapInfo hinfo), ?_, ?_, fun b => ?_⟩
    · show info.nRefCount - (am.buckets m).card = 0
      omega
    · exact buckets_removeFromNew.trans (if_pos rfl)
    · show m ∈ Function.update am.vvTried kb (am.vvTried kb ++ [m]) b ↔
        b = CAddrInfo.getTriedBucket Hash am.nKey info.toCService
      rw [← hkb]
      by_cases hb : b = kb
      · subst hb
        simp only [Function.update_self, List.mem_append, List.mem_singleton, or_true]
      · rw [Function.update_of_ne hb]
        exact ⟨fun hmem => absurd hmem (hnot b), fun heq => absurd heq hb⟩
  · rintro m rfl hmem
    exact absurd (mem_mapInfo hrecord) hmem
  · show (Function.update am.vvTried kb (am.vvTried kb ++ [n]) b).Nodup
    by_cases hb : b = kb
    · subst hb
      rw [Function.update_self, ← List.concat_eq_append]
      exact (h.nodup b).concat (hnot b)
    · rw [Function.update_of_ne hb]
      exact h.nodup b
  · exact (Finset.card_erase_le).trans (h.new_size b)
  · show (Function.update am.vvTried kb (am.vvTried kb ++ [n]) b).length ≤ _
    by_cases hb : b = kb
    · subst hb
      rw [Function.update_self, List.length_append, List.length_singleton]
      exact hroom
    · rw [Function.update_of_ne hb]
      exact h.tried_size b
  · show am.nTried + 1 = _
    refine Eq.trans ?_ (sum_length_update am.vvTried kb (am.vvTried kb ++ [n])).symm
    rw [← h.nTried_eq, List.length_append, List.length_singleton]
    omega
  · have htotal := h.total
    show am.nTried + 1 + (am.nNew - 1) = (am.vRandom.length : ℤ)
    omega

/-- What is left of a list without repetition when one position is overwritten. -/
lemma mem_set_iff {l : List ℕ} {m : ℕ} (hi : l[i]? = some old) (hold : m ≠ old) (hn : m ≠ n) :
    m ∈ l.set i n ↔ m ∈ l := by
  constructor
  · exact fun h => (List.mem_or_eq_of_mem_set h).resolve_right hn
  · intro h
    obtain ⟨j, hj⟩ := List.mem_iff_getElem?.mp h
    have hij : i ≠ j := fun heq => by
      rw [heq, hj] at hi
      exact hold (Option.some.inj hi)
    exact List.mem_iff_getElem?.mpr ⟨j, by rw [List.getElem?_set_ne hij]; exact hj⟩

/-- What is overwritten in a list without repetition is gone. -/
lemma not_mem_set {l : List ℕ} (hnodup : l.Nodup) (hi : l[i]? = some old) (hn : old ≠ n) :
    old ∉ l.set i n := by
  intro h
  obtain ⟨j, hj⟩ := List.mem_iff_getElem?.mp h
  by_cases hij : i = j
  · subst hij
    have hlt := (List.getElem?_eq_some_iff.mp hi).1
    rw [List.getElem?_set_self hlt] at hj
    exact hn (Option.some.inj hj).symm
  · rw [List.getElem?_set_ne hij] at hj
    obtain ⟨hlti, hi'⟩ := List.getElem?_eq_some_iff.mp hi
    obtain ⟨hltj, hj'⟩ := List.getElem?_eq_some_iff.mp hj
    exact hij (hnodup.getElem_inj_iff.mp (hi'.trans hj'.symm))

/-- An entry that was removed from the "new" buckets takes the place of another one in a "tried"
bucket, and that one goes to a "new" bucket with room. -/
lemma Sound.evict (h : Settled Hash am) (hinfo : am.mapInfo[n]? = some info)
    (htried : info.fInTried = false)
    (hkb : kb = CAddrInfo.getTriedBucket Hash am.nKey info.toCService) {vTried : List ℕ}
    (hperm : vTried.Perm (am.vvTried kb)) {nPos : ℕ} (hold : vTried[nPos]? = some old)
    {b : Fin ADDRMAN_NEW_BUCKET_COUNT}
    (hroom : ((am.vvNew b).erase n).card < ADDRMAN_NEW_BUCKET_SIZE) {am2 am3 : CAddrMan}
    (ham2 : am2 = (am.removeFromNew n).modify old fun info =>
      { info with fInTried := false, nRefCount := 1 })
    (ham3 : am3 = (am2.setNew b (insert old (am2.vvNew b))).setTried kb (vTried.set nPos n)) :
    Settled Hash { am3.modify n fun info => { info with fInTried := true } with
      nNew := am3.nNew + 1 } := by
  have hplaced := h.placed_of_eq hinfo
  rw [CAddrInfo.status, htried] at hplaced
  obtain ⟨hcount, -, -, hnot⟩ := hplaced
  have hmemOld : old ∈ am.vvTried kb := hperm.mem_iff.mp (List.mem_of_getElem? hold)
  obtain ⟨infoOld, hinfoOld, htriedOld, hcountOld, hemptyOld, hinOld⟩ :=
    h.exists_of_mem_tried hmemOld
  have hne : old ≠ n := fun heq => hnot kb (heq ▸ hmemOld)
  have hnodup : vTried.Nodup := hperm.nodup_iff.mpr (h.nodup kb)
  have hnotVTried : n ∉ vTried := fun hmem => hnot kb (hperm.mem_iff.mp hmem)
  have hlt := (List.getElem?_eq_some_iff.mp hold).1
  subst ham3 ham2
  -- the buckets after the exchange
  have hbuckets : ∀ m, ((((am.removeFromNew n).modify old fun info =>
      { info with fInTried := false, nRefCount := 1 }).setNew b
        (insert old ((am.removeFromNew n).vvNew b))).buckets m)
      = if m = old then {b} else if m = n then ∅ else am.buckets m := by
    intro m
    refine buckets_setNew_insert.trans ?_
    have hremoved : ∀ k, ((am.removeFromNew n).modify old fun info =>
        { info with fInTried := false, nRefCount := 1 }).buckets k
          = if k = n then ∅ else am.buckets k := fun k => buckets_removeFromNew
    rw [hremoved, hremoved, if_neg hne, hemptyOld]
    rfl
  have htriedOther : ∀ c, c ≠ kb →
      Function.update am.vvTried kb (vTried.set nPos n) c = am.vvTried c := fun c hc =>
    Function.update_of_ne hc _ _
  have htriedSelf : Function.update am.vvTried kb (vTried.set nPos n) kb = vTried.set nPos n :=
    Function.update_self _ _ _
  have hrecordN : (((am.removeFromNew n).modify old fun info =>
      { info with fInTried := false, nRefCount := 1 }).modify n fun info =>
        { info with fInTried := true }).mapInfo[n]?
      = some { info with nRefCount := info.nRefCount - (am.buckets n).card, fInTried := true } := by
    have hremoved : ((am.removeFromNew n).modify old fun info =>
        { info with fInTried := false, nRefCount := 1 }).mapInfo[n]?
        = some { info with nRefCount := info.nRefCount - (am.buckets n).card } :=
      (MapLoop.getElem?_modify_of_ne _ _ hne).trans (getElem?_modify hinfo _)
    exact getElem?_modify hremoved _
  have hrecordOld : (((am.removeFromNew n).modify old fun info =>
      { info with fInTried := false, nRefCount := 1 }).modify n fun info =>
        { info with fInTried := true }).mapInfo[old]?
      = some { infoOld with fInTried := false, nRefCount := 1 } :=
    (MapLoop.getElem?_modify_of_ne _ _ hne.symm).trans
      (getElem?_modify ((MapLoop.getElem?_modify_of_ne _ _ hne.symm).trans hinfoOld) _)
  have hpool : IndexedPool.Agrees CAddrInfo.schema (((am.mapInfo.modify n fun info =>
      { info with nRefCount := info.nRefCount - (am.buckets n).card }).modify old fun info =>
        { info with fInTried := false, nRefCount := 1 }).modify n fun info =>
          { info with fInTried := true }) am.mapAddr am.vRandom := by
    refine ((h.pool.modify n ?_ ?_).modify old ?_ ?_).modify n ?_ ?_
    all_goals exact fun _ => rfl
  refine h.change (fun m => m = n ∨ m = old) rfl hpool (fun m hm => ?_) (fun m hm => ?_)
    (fun m hm c => ?_) (fun _ _ => rfl) le_rfl ?_ ?_ (fun c => ?_) (fun c => ?_) (fun c => ?_) ?_ ?_
  · obtain ⟨hmn, hmo⟩ := not_or.mp hm
    refine congrArg (Option.map CAddrInfo.status) ?_
    exact (MapLoop.getElem?_modify_of_ne _ _ (Ne.symm hmn)).trans
      ((MapLoop.getElem?_modify_of_ne _ _ (Ne.symm hmo)).trans
        (MapLoop.getElem?_modify_of_ne _ _ (Ne.symm hmn)))
  · obtain ⟨hmn, hmo⟩ := not_or.mp hm
    exact (hbuckets m).trans ((if_neg hmo).trans (if_neg hmn))
  · obtain ⟨hmn, hmo⟩ := not_or.mp hm
    show m ∈ Function.update am.vvTried kb (vTried.set nPos n) c ↔ m ∈ am.vvTried c
    by_cases hc : c = kb
    · subst hc
      rw [htriedSelf, mem_set_iff hold hmo hmn, hperm.mem_iff]
    · rw [htriedOther c hc]
  · intro m hm info' hinfo'
    by_cases hmo : m = old
    · -- the entry that goes back
      subst hmo
      cases hrecordOld.symm.trans hinfo'
      refine ⟨h.lt_count m (mem_mapInfo hinfoOld), ?_, le_refl _,
        (by decide : (1 : ℤ) ≤ ADDRMAN_NEW_BUCKETS_PER_ADDRESS), fun c => ?_⟩
      · have hone : (1 : ℤ) = (({b} : Finset (Fin ADDRMAN_NEW_BUCKET_COUNT)).card : ℤ) + (0 : ℕ) := rfl
        rw [← (hbuckets m).trans (if_pos rfl)] at hone
        exact hone
      · show m ∉ Function.update am.vvTried kb (vTried.set nPos n) c
        by_cases hc : c = kb
        · subst hc
          rw [htriedSelf]
          exact not_mem_set hnodup hold hne
        · rw [htriedOther c hc]
          exact fun hmem => hc (((hinOld c).mp hmem).trans ((hinOld kb).mp hmemOld).symm)
    · -- the entry that comes in
      have hmn : m = n := hm.resolve_right hmo
      subst hmn
      cases hrecordN.symm.trans hinfo'
      refine ⟨h.lt_count m (mem_mapInfo hinfo), ?_, ?_, fun c => ?_⟩
      · show info.nRefCount - (am.buckets m).card = 0
        omega
      · exact (hbuckets m).trans ((if_neg hmo).trans (if_pos rfl))
      · show m ∈ Function.update am.vvTried kb (vTried.set nPos m) c ↔
          c = CAddrInfo.getTriedBucket Hash am.nKey info.toCService
        rw [← hkb]
        by_cases hc : c = kb
        · subst hc
          rw [htriedSelf]
          exact iff_of_true (List.mem_set hlt m) rfl
        · rw [htriedOther c hc]
          exact iff_of_false (hnot c) hc
  · rintro m (rfl | rfl) hmem
    · exact absurd (mem_mapInfo hrecordN) hmem
    · exact absurd (mem_mapInfo hrecordOld) hmem
  · show (Function.update am.vvTried kb (vTried.set nPos n) c).Nodup
    by_cases hc : c = kb
    · subst hc
      rw [htriedSelf]
      exact hnodup.set hnotVTried
    · rw [htriedOther c hc]
      exact h.nodup c
  · show (Function.update (fun c => (am.vvNew c).erase n) b (insert old ((am.vvNew b).erase n))
      c).card ≤ _
    by_cases hc : c = b
    · subst hc
      rw [Function.update_self]
      exact (Finset.card_insert_le _ _).trans hroom
    · rw [Function.update_of_ne hc]
      exact Finset.card_erase_le.trans (h.new_size c)
  · show (Function.update am.vvTried kb (vTried.set nPos n) c).length ≤ _
    by_cases hc : c = kb
    · subst hc
      rw [htriedSelf, List.length_set, hperm.length_eq]
      exact h.tried_size c
    · rw [htriedOther c hc]
      exact h.tried_size c
  · show am.nTried = _
    refine Eq.trans ?_ (sum_length_update am.vvTried kb (vTried.set nPos n)).symm
    rw [← h.nTried_eq, List.length_set, hperm.length_eq]
    omega
  · have htotal := h.total
    show am.nTried + (am.nNew - 1 + 1) = (am.vRandom.length : ℤ)
    omega

/-- For a full "tried" bucket `MakeTried` puts the entry at the position that `SelectTried` returns,
and the one it replaces in a "new" bucket with room. -/
lemma Sound.makeTried_full (h : Settled Hash am) {nOrigin : Fin ADDRMAN_NEW_BUCKET_COUNT}
    (hmem : n ∈ am.vvNew nOrigin) (hinfo : am.mapInfo[n]? = some info) (rand : ℕ → ℕ)
    (hkb : kb = CAddrInfo.getTriedBucket Hash am.nKey info.toCService)
    (hfull : ¬ (am.vvTried kb).length < ADDRMAN_TRIED_BUCKET_SIZE) :
    ∃ nPos vTried old b am2 am3,
      (am.removeFromNew n).selectTried rand (am.vvTried kb) = some (nPos, vTried) ∧
      vTried.Perm (am.vvTried kb) ∧ vTried[nPos]? = some old ∧
      ((am.vvNew b).erase n).card < ADDRMAN_NEW_BUCKET_SIZE ∧
      am2 = (am.removeFromNew n).modify old (fun info =>
        { info with fInTried := false, nRefCount := 1 }) ∧
      am3 = (am2.setNew b (insert old (am2.vvNew b))).setTried kb (vTried.set nPos n) ∧
      am.makeTried Hash rand n nOrigin = some { am3.modify n fun info =>
        { info with fInTried := true } with nNew := am3.nNew + 1 } := by
  obtain ⟨info', hinfo', htried, hcount⟩ := h.exists_of_mem_new hmem
  cases hinfo.symm.trans hinfo'
  have hinfo1 : (am.removeFromNew n).mapInfo[n]?
      = some { info with nRefCount := info.nRefCount - (am.buckets n).card } :=
    getElem?_modify hinfo _
  have hzero : info.nRefCount - (am.buckets n).card = 0 := by omega
  have hrecords : ∀ m ∈ am.vvTried kb, m ∈ (am.removeFromNew n).mapInfo := fun m hm => by
    obtain ⟨infoM, hinfoM, -⟩ := h.exists_of_mem_tried hm
    exact Std.ExtTreeMap.mem_modify.mpr (mem_mapInfo hinfoM)
  have hne : am.vvTried kb ≠ [] := fun hnil => hfull (by rw [hnil]; decide)
  obtain ⟨nPos, vTried, hselect, hperm, hlt⟩ := selectTried_eq rand hrecords hne
  have hold : vTried[nPos]? = some vTried[nPos] := List.getElem?_eq_getElem hlt
  have hmemOld : vTried[nPos] ∈ am.vvTried kb := hperm.mem_iff.mp (List.mem_of_getElem? hold)
  obtain ⟨infoOld, hinfoOld⟩ := MapLoop.mem_iff.mp (hrecords _ hmemOld)
  have hfull' : ¬ ((am.removeFromNew n).vvTried kb).length < ADDRMAN_TRIED_BUCKET_SIZE := hfull
  have hselect' : (am.removeFromNew n).selectTried rand ((am.removeFromNew n).vvTried kb)
      = some (nPos, vTried) := hselect
  have hkey : CAddrInfo.getTriedBucket Hash (am.removeFromNew n).nKey info.toCService = kb :=
    hkb.symm
  rw [CAddrMan.makeTried, if_neg (not_not.mpr hmem)]
  simp only [hinfo1, if_neg (not_not.mpr hzero), hkey, if_neg hfull', hselect', Option.bind_some,
    hold, hinfoOld]
  refine ⟨nPos, vTried, _, _, _, _, hselect, hperm, hold, ?_, rfl, rfl, rfl⟩
  split
  · next hroomNew => exact hroomNew
  · exact (Finset.card_erase_lt_of_mem hmem).trans_le (h.new_size nOrigin)

/-- `MakeTried` moves an entry of a "new" bucket to its "tried" bucket. -/
lemma Sound.makeTried (h : Settled Hash am) {nOrigin : Fin ADDRMAN_NEW_BUCKET_COUNT}
    (hmem : n ∈ am.vvNew nOrigin) (rand : ℕ → ℕ) :
    ∃ am', am.makeTried Hash rand n nOrigin = some am' ∧ Settled Hash am' := by
  obtain ⟨info, hinfo, htried, hcount⟩ := h.exists_of_mem_new hmem
  set kb := CAddrInfo.getTriedBucket Hash am.nKey info.toCService with hkb
  by_cases hroom : (am.vvTried kb).length < ADDRMAN_TRIED_BUCKET_SIZE
  · have hinfo1 : (am.removeFromNew n).mapInfo[n]?
        = some { info with nRefCount := info.nRefCount - (am.buckets n).card } :=
      getElem?_modify hinfo _
    have hzero : info.nRefCount - (am.buckets n).card = 0 := by omega
    rw [CAddrMan.makeTried, if_neg (not_not.mpr hmem)]
    simp only [hinfo1, if_neg (not_not.mpr hzero)]
    exact ⟨_, if_pos hroom, h.place hinfo htried hkb hroom⟩
  · obtain ⟨nPos, vTried, old, b, am2, am3, -, hperm, hold, hroomNew, ham2, ham3, hmake⟩ :=
      h.makeTried_full hmem hinfo rand hkb hroom
    exact ⟨_, hmake, h.evict hinfo htried hkb hperm hold hroomNew ham2 ham3⟩

/-- The bucket that is found has the entry. -/
lemma mem_of_findBucket {nRnd : ℕ} {b : Fin ADDRMAN_NEW_BUCKET_COUNT}
    (h : am.findBucket nRnd n = some b) : n ∈ am.vvNew b := by
  have hfound := List.find?_some h
  exact of_decide_eq_true hfound

/-- `Good_` leaves the containers as they belong together. -/
lemma Sound.good (h : Settled Hash am) (rand : ℕ → ℕ) (addr : CService) (nTime : Int64) :
    ∃ am', am.good Hash rand addr nTime = some am' ∧ Settled Hash am' := by
  rw [CAddrMan.good]
  rcases am.findService addr with _ | ⟨nId, info⟩
  · exact ⟨am, rfl, h⟩
  dsimp only
  have h1 : Settled Hash (am.modify nId fun info => { info with
      nLastSuccess := nTime, nLastTry := nTime, nTime := nTime.toUInt64.toUInt32,
      nAttempts := 0 }) := h.modify nId (fun _ => rfl) fun _ => rfl
  split
  · exact ⟨_, rfl, h1⟩
  · split
    · exact ⟨_, rfl, h1⟩
    · next hfound => exact h1.makeTried (mem_of_findBucket hfound) _

/-! ## The other calls -/

/-- `Attempt_` leaves the containers as they belong together. -/
lemma Sound.attempt (h : Settled Hash am) (addr : CService) (nTime : Int64) :
    Settled Hash (am.attempt addr nTime) := by
  rw [CAddrMan.attempt]
  rcases am.findService addr with _ | ⟨nId, info⟩
  · exact h
  · exact h.modify nId (fun _ => rfl) fun _ => rfl

/-- `Connected_` leaves the containers as they belong together. -/
lemma Sound.connected (h : Settled Hash am) (addr : CService) (nTime : Int64) :
    Settled Hash (am.connected addr nTime) := by
  rw [CAddrMan.connected]
  rcases am.findService addr with _ | ⟨nId, info⟩
  · exact h
  · dsimp only
    split
    · exact h.modify nId (fun _ => rfl) fun _ => rfl
    · exact h

/-- No assertion of the loops of `Select_` fails. -/
lemma selectLoop_eq {bucket : ℕ → List ℕ} (hrecords : ∀ r, ∀ n ∈ bucket r, n ∈ am.mapInfo)
    (rounds : List Round) : ∃ r, am.selectLoop bucket rounds = some r := by
  induction rounds with
  | nil => exact ⟨none, rfl⟩
  | cons round rest ih =>
    rw [selectLoop]
    split
    · exact ih
    · next hne =>
      have hlt : getRandInt round.pos (bucket round.bucket).length < (bucket round.bucket).length :=
        getRandInt_lt (List.length_pos_iff.mpr hne)
      obtain ⟨info, hinfo⟩ := MapLoop.mem_iff.mp (hrecords round.bucket _ (List.getElem_mem hlt))
      rw [List.getElem?_eq_getElem hlt, Option.bind_some, hinfo]
      dsimp only
      split
      · exact ⟨_, rfl⟩
      · exact ih

/-- No assertion of `Select_` fails. -/
lemma Sound.select (h : Settled Hash am) (useTried : ℤ → ℤ → Bool) (rounds : List Round) :
    ∃ r, am.select useTried rounds = some r := by
  rw [CAddrMan.select]
  split
  · exact ⟨_, rfl⟩
  split
  · refine selectLoop_eq (fun r n hn => ?_) rounds
    obtain ⟨info, hinfo, -⟩ := h.exists_of_mem_tried hn
    exact mem_mapInfo hinfo
  · refine selectLoop_eq (fun r n hn => ?_) rounds
    obtain ⟨info, hinfo, -⟩ := h.exists_of_mem_new ((Finset.mem_sort _).mp hn)
    exact mem_mapInfo hinfo

/-- The loop of `GetAddr_` leaves the containers as they belong together. -/
lemma Sound.shuffle {is : List ℕ} (h : Settled Hash am) (his : ∀ i ∈ is, i < am.vRandom.length) :
    ∃ r, CAddrMan.shuffle rand is am = some r ∧ Settled Hash r.2 := by
  induction is generalizing am with
  | nil => exact ⟨_, rfl, h⟩
  | cons i is ih =>
    have hi := his i List.mem_cons_self
    have hlt : getRandInt (rand i) (am.vRandom.length - i) + i < am.vRandom.length := by
      have hdraw : getRandInt (rand i) (am.vRandom.length - i) < am.vRandom.length - i :=
        getRandInt_lt (by omega)
      omega
    obtain ⟨am1, hswap, h1, hlen⟩ := h.swapRandom hi hlt
    have hi1 : i < am1.vRandom.length := by rwa [hlen]
    obtain ⟨info, hinfo, -⟩ := h1.pool.exists_of_order_eq (List.getElem?_eq_getElem hi1)
    obtain ⟨r, hr, hr2⟩ := ih h1 fun j hj => by rw [hlen]; exact his j (List.mem_cons_of_mem _ hj)
    refine ⟨(info.toCAddress :: r.1, r.2), ?_, hr2⟩
    rw [CAddrMan.shuffle, hswap, Option.bind_some, List.getElem?_eq_getElem hi1, Option.bind_some,
      hinfo, Option.bind_some, hr, Option.map_some]

/-- `GetAddr_` leaves the containers as they belong together. -/
lemma Sound.getAddr (h : Settled Hash am) (rand : ℕ → ℕ) :
    ∃ r, am.getAddr rand = some r ∧ Settled Hash r.2 := by
  refine h.shuffle rand fun i hi => ?_
  rw [List.mem_range, ADDRMAN_GETADDR_MAX_PCT] at hi
  omega

end CAddrMan

end HyperStake.Net
