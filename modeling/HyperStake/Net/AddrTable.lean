import Mathlib.Algebra.BigOperators.Group.Finset.Basic
import Mathlib.Algebra.BigOperators.Group.Finset.Piecewise
import Mathlib.Algebra.Order.BigOperators.Group.Finset
import HyperStake.Library.IndexedPool
import HyperStake.Net.AddrMan

/-!
# The tables of the address manager

What holds of the containers of the address manager between two calls (`Sound`): the records, the
index and the random order form a pool; an entry is either in its "tried" bucket, without
references, or in as many "new" buckets as it counts references, from one to four; and the counters
and the sizes of the buckets are right.

In the middle of a call an entry can have references in its count that are not in a bucket yet.
`Sound` says how many; between calls there are none.
-/

namespace HyperStake.Net

/-- The key and the position of a record. -/
def CAddrInfo.schema : IndexedPool.Schema CAddrInfo CNetAddr where
  key info := info.ip
  pos info := info.nRandomPos

/-- What a record says about the place of its entry. -/
def CAddrInfo.status (info : CAddrInfo) : Bool × ℤ × CService :=
  (info.fInTried, info.nRefCount, info.toCService)

namespace CAddrMan

variable (Hash : Bytes → UInt256)

/-- The "new" buckets that a number is in. -/
def buckets (am : CAddrMan) (n : ℕ) : Finset (Fin ADDRMAN_NEW_BUCKET_COUNT) :=
  Finset.univ.filter fun b => n ∈ am.vvNew b

/-- An entry is where its record says, `owed` references aside. -/
def Placed (am : CAddrMan) (owed : ℕ) (n : ℕ) : Bool × ℤ × CService → Prop
  | (true, nRefCount, service) =>
    nRefCount = 0 ∧ am.buckets n = ∅ ∧
      ∀ b, n ∈ am.vvTried b ↔ b = CAddrInfo.getTriedBucket Hash am.nKey service
  | (false, nRefCount, _) =>
    nRefCount = (am.buckets n).card + owed ∧ 1 ≤ nRefCount ∧
      nRefCount ≤ ADDRMAN_NEW_BUCKETS_PER_ADDRESS ∧ ∀ b, n ∉ am.vvTried b

/-- The containers belong together, but for the references that the entries are owed. -/
structure Sound (owed : ℕ → ℕ) (am : CAddrMan) : Prop where
  pool : IndexedPool.Agrees CAddrInfo.schema am.mapInfo am.mapAddr am.vRandom
  lt_count : ∀ n ∈ am.mapInfo, n < am.nIdCount
  placed : ∀ (n : ℕ) s, am.mapInfo[n]?.map CAddrInfo.status = some s → Placed Hash am (owed n) n s
  absent : ∀ n ∉ am.mapInfo, am.buckets n = ∅ ∧ ∀ b, n ∉ am.vvTried b
  nodup : ∀ b, (am.vvTried b).Nodup
  new_size : ∀ b, (am.vvNew b).card ≤ ADDRMAN_NEW_BUCKET_SIZE
  tried_size : ∀ b, (am.vvTried b).length ≤ ADDRMAN_TRIED_BUCKET_SIZE
  nTried_eq : am.nTried = ∑ b, ((am.vvTried b).length : ℤ)
  total : am.nTried + am.nNew = am.vRandom.length

variable {Hash : Bytes → UInt256} {owed : ℕ → ℕ} {am am' : CAddrMan} {n m : ℕ}
  {info : CAddrInfo} {b c : Fin ADDRMAN_NEW_BUCKET_COUNT}

lemma mem_buckets : b ∈ am.buckets n ↔ n ∈ am.vvNew b := by
  rw [buckets, Finset.mem_filter]
  exact ⟨fun h => h.2, fun h => ⟨Finset.mem_univ b, h⟩⟩

/-- The number of a record is there. -/
lemma mem_mapInfo (h : am.mapInfo[n]? = some info) : n ∈ am.mapInfo :=
  MapLoop.mem_iff.mpr ⟨_, h⟩

/-- A record after a change. -/
lemma getElem?_modify (h : am.mapInfo[n]? = some info) (f : CAddrInfo → CAddrInfo) :
    (am.modify n f).mapInfo[n]? = some (f info) := by
  rw [modify, MapLoop.getElem?_modify_eq, if_pos rfl, h, Option.map_some]

/-- The place of an entry depends on the buckets only. -/
lemma Placed.congr {k k' : ℕ} {s : Bool × ℤ × CService} (h : Placed Hash am k n s)
    (hkey : am'.nKey = am.nKey) (hnew : (am'.buckets n).card + k' = (am.buckets n).card + k)
    (hempty : am.buckets n = ∅ → am'.buckets n = ∅)
    (htried : ∀ b, n ∈ am'.vvTried b ↔ n ∈ am.vvTried b) : Placed Hash am' k' n s := by
  match s with
  | (true, nRefCount, service) =>
    refine ⟨h.1, hempty h.2.1, fun b => ?_⟩
    rw [htried, hkey]
    exact h.2.2 b
  | (false, nRefCount, service) =>
    refine ⟨?_, h.2.1, h.2.2.1, fun b hb => h.2.2.2 b ((htried b).mp hb)⟩
    have hcount := h.1
    omega

/-- Records with the same statuses have the same numbers. -/
lemma mem_mapInfo_congr {α : Type*} {f : CAddrInfo → α}
    (h : am'.mapInfo[n]?.map f = am.mapInfo[n]?.map f) : n ∈ am'.mapInfo ↔ n ∈ am.mapInfo := by
  rw [Std.ExtTreeMap.mem_iff_isSome_getElem?, Std.ExtTreeMap.mem_iff_isSome_getElem?,
    ← Option.isSome_map (f := f), h, Option.isSome_map]

/-- The containers belong together after a change of the entries in `P`, if these are in their
places. -/
lemma Sound.change {owed' : ℕ → ℕ} (h : Sound Hash owed am) (P : ℕ → Prop)
    (hkey : am'.nKey = am.nKey)
    (hpool : IndexedPool.Agrees CAddrInfo.schema am'.mapInfo am'.mapAddr am'.vRandom)
    (hstatus : ∀ m : ℕ, ¬ P m →
      am'.mapInfo[m]?.map CAddrInfo.status = am.mapInfo[m]?.map CAddrInfo.status)
    (hbuckets : ∀ m, ¬ P m → am'.buckets m = am.buckets m)
    (htried : ∀ m, ¬ P m → ∀ b, m ∈ am'.vvTried b ↔ m ∈ am.vvTried b)
    (howed : ∀ m, ¬ P m → owed' m = owed m) (hcount : am.nIdCount ≤ am'.nIdCount)
    (hplaced : ∀ m, P m → ∀ info, am'.mapInfo[m]? = some info →
      m < am'.nIdCount ∧ Placed Hash am' (owed' m) m info.status)
    (habsent : ∀ m, P m → m ∉ am'.mapInfo → am'.buckets m = ∅ ∧ ∀ b, m ∉ am'.vvTried b)
    (hnodup : ∀ b, (am'.vvTried b).Nodup)
    (hnewSize : ∀ b, (am'.vvNew b).card ≤ ADDRMAN_NEW_BUCKET_SIZE)
    (htriedSize : ∀ b, (am'.vvTried b).length ≤ ADDRMAN_TRIED_BUCKET_SIZE)
    (hnTried : am'.nTried = ∑ b, ((am'.vvTried b).length : ℤ))
    (htotal : am'.nTried + am'.nNew = am'.vRandom.length) : Sound Hash owed' am' where
  pool := hpool
  lt_count n hn := by
    by_cases hP : P n
    · obtain ⟨info, hinfo⟩ := MapLoop.mem_iff.mp hn
      exact (hplaced n hP info hinfo).1
    · exact (h.lt_count n ((mem_mapInfo_congr (hstatus n hP)).mp hn)).trans_le hcount
  placed n s hs := by
    by_cases hP : P n
    · obtain ⟨info, hinfo, rfl⟩ := Option.map_eq_some_iff.mp hs
      exact (hplaced n hP info hinfo).2
    · rw [hstatus n hP] at hs
      refine (h.placed n s hs).congr hkey (by rw [hbuckets n hP, howed n hP]) (fun he => ?_)
        (htried n hP)
      rwa [hbuckets n hP]
  absent n hn := by
    by_cases hP : P n
    · exact habsent n hP hn
    · obtain ⟨hempty, hnot⟩ := h.absent n fun hmem =>
        hn ((mem_mapInfo_congr (hstatus n hP)).mpr hmem)
      exact ⟨by rwa [hbuckets n hP], fun b hb => hnot b ((htried n hP b).mp hb)⟩
  nodup := hnodup
  new_size := hnewSize
  tried_size := htriedSize
  nTried_eq := hnTried
  total := htotal

/-- The containers still belong together when records change in ways that do not concern it. -/
lemma Sound.congr (h : Sound Hash owed am)
    (hpool : IndexedPool.Agrees CAddrInfo.schema am'.mapInfo am'.mapAddr am'.vRandom)
    (hstatus : ∀ n : ℕ, am'.mapInfo[n]?.map CAddrInfo.status = am.mapInfo[n]?.map CAddrInfo.status)
    (hlen : am'.vRandom.length = am.vRandom.length)
    (hframe : am' = { am with
      mapInfo := am'.mapInfo, mapAddr := am'.mapAddr, vRandom := am'.vRandom }) :
    Sound Hash owed am' := by
  have hnew : am'.vvNew = am.vvNew := by rw [hframe]
  have htried : am'.vvTried = am.vvTried := by rw [hframe]
  have hnTried : am'.nTried = am.nTried := by rw [hframe]
  refine h.change (fun _ => False) (by rw [hframe]) hpool (fun n _ => hstatus n)
    (fun n _ => by rw [buckets, buckets, hnew]) (fun n _ b => by rw [htried]) (fun _ _ => rfl)
    (by rw [hframe]) (fun _ hP => hP.elim) (fun _ hP => hP.elim) ?_ ?_ ?_ ?_ ?_
  · rw [htried]
    exact h.nodup
  · rw [hnew]
    exact h.new_size
  · rw [htried]
    exact h.tried_size
  · rw [hnTried, htried]
    exact h.nTried_eq
  · rw [hlen, hnTried, show am'.nNew = am.nNew by rw [hframe]]
    exact h.total

/-- A record without its position. -/
def forgetPos (info : CAddrInfo) : CAddrInfo := { info with nRandomPos := 0 }

/-- Two records that differ in the position only have everything else in common. -/
lemma map_eq_of_forgetPos {α : Type*} {f : CAddrInfo → α} {o o' : Option CAddrInfo}
    (hf : ∀ info, f (forgetPos info) = f info) (h : o'.map forgetPos = o.map forgetPos) :
    o'.map f = o.map f := by
  have hcomp : f ∘ forgetPos = f := funext hf
  rw [← hcomp, ← Option.map_map, h, Option.map_map]

/-- Two tables of records differ in positions only. -/
def SameButPos (mapInfo mapInfo' : Std.ExtTreeMap ℕ CAddrInfo) : Prop :=
  ∀ n : ℕ, mapInfo'[n]?.map forgetPos = mapInfo[n]?.map forgetPos

/-- `SwapRandom` exchanges two entries of the random order and changes nothing else. -/
lemma swapRandom_eq {p q : ℕ}
    (hpool : IndexedPool.Agrees CAddrInfo.schema am.mapInfo am.mapAddr am.vRandom)
    (hp : p < am.vRandom.length) (hq : q < am.vRandom.length) :
    ∃ mapInfo vRandom, am.swapRandom p q = some { am with mapInfo := mapInfo, vRandom := vRandom } ∧
      IndexedPool.Agrees CAddrInfo.schema mapInfo am.mapAddr vRandom ∧
      vRandom.length = am.vRandom.length ∧ vRandom[q]? = am.vRandom[p]? ∧
      SameButPos am.mapInfo mapInfo := by
  rw [swapRandom]
  by_cases hpq : p = q
  · rw [if_pos hpq, hpq]
    exact ⟨am.mapInfo, am.vRandom, rfl, hpool, rfl, rfl, fun n => rfl⟩
  obtain ⟨n, hn⟩ : ∃ n, am.vRandom[p]? = some n := ⟨_, List.getElem?_eq_getElem hp⟩
  obtain ⟨m, hm⟩ : ∃ m, am.vRandom[q]? = some m := ⟨_, List.getElem?_eq_getElem hq⟩
  have hnm : n ≠ m := fun heq => hpq (hpool.pos_unique hn (heq ▸ hm))
  have hmem : n ∈ am.mapInfo ∧ m ∈ am.mapInfo :=
    ⟨hpool.mem_order_iff.mp (List.mem_of_getElem? hn),
      hpool.mem_order_iff.mp (List.mem_of_getElem? hm)⟩
  simp only [if_neg hpq, hn, hm, if_pos hmem]
  refine ⟨_, _, rfl, hpool.swap hn hm (fun k => ?_) fun k => ?_, ?_, ?_, fun k => ?_⟩
  · refine (MapLoop.map_getElem?_modify ?_ _ m k).trans (MapLoop.map_getElem?_modify ?_ _ n k)
    · exact fun _ => rfl
    · exact fun _ => rfl
  · simp only [CAddrMan.modify, MapLoop.getElem?_modify_eq]
    by_cases hkn : k = n
    · obtain ⟨info, hinfo, -⟩ := hpool.exists_of_order_eq hn
      subst hkn
      simp only [hnm.symm, if_false, if_true, hinfo, Option.map_some, CAddrInfo.schema]
    by_cases hkm : k = m
    · obtain ⟨info, hinfo, -⟩ := hpool.exists_of_order_eq hm
      subst hkm
      simp only [hnm, hkn, if_false, if_true, hinfo, Option.map_some, CAddrInfo.schema]
    · simp only [Ne.symm hkn, Ne.symm hkm, hkn, hkm, if_false]
  · simp only [List.length_set]
  · simp only [List.getElem?_set, List.length_set, hq, if_true]
  · refine (MapLoop.map_getElem?_modify ?_ _ m k).trans (MapLoop.map_getElem?_modify ?_ _ n k)
    · exact fun _ => rfl
    · exact fun _ => rfl

/-- The buckets of a number after it has been put in one. -/
lemma buckets_setNew_insert :
    (am.setNew b (insert n (am.vvNew b))).buckets m
      = if m = n then insert b (am.buckets n) else am.buckets m := by
  ext c
  rw [mem_buckets, setNew]
  by_cases hc : c = b
  · subst hc
    simp only [Function.update_self, Finset.mem_insert]
    split
    · next hm => simp only [hm, true_or, Finset.mem_insert]
    · next hm => simp only [hm, false_or, mem_buckets]
  · simp only [Function.update_of_ne hc]
    split
    · next hm => simp only [hm, Finset.mem_insert, hc, false_or, mem_buckets]
    · exact mem_buckets.symm

/-- The buckets of a number after it has been taken out of one. -/
lemma buckets_setNew_erase :
    (am.setNew b ((am.vvNew b).erase n)).buckets m
      = if m = n then (am.buckets n).erase b else am.buckets m := by
  ext c
  rw [mem_buckets, setNew]
  by_cases hc : c = b
  · subst hc
    simp only [Function.update_self, Finset.mem_erase]
    split
    · next hm => simp only [hm, ne_eq, not_true_eq_false, false_and, Finset.mem_erase]
    · next hm => simp only [ne_eq, hm, not_false_eq_true, true_and, mem_buckets]
  · simp only [Function.update_of_ne hc]
    split
    · next hm => simp only [hm, Finset.mem_erase, ne_eq, hc, not_false_eq_true, true_and, mem_buckets]
    · exact mem_buckets.symm

/-- The size of a bucket after something has been taken out of one. -/
lemma card_setNew_erase_le :
    ((am.setNew b ((am.vvNew b).erase n)).vvNew c).card ≤ (am.vvNew c).card := by
  rw [setNew]
  by_cases hc : c = b
  · subst hc
    simp only [Function.update_self]
    exact Finset.card_erase_le
  · simp only [Function.update_of_ne hc, le_refl]

namespace Sound

section

variable (h : Sound Hash owed am)

include h

/-- `SwapRandom` leaves the containers as they belong together. -/
lemma swapRandom {p q : ℕ} (hp : p < am.vRandom.length) (hq : q < am.vRandom.length) :
    ∃ am', am.swapRandom p q = some am' ∧ Sound Hash owed am' ∧
      am'.vRandom.length = am.vRandom.length := by
  obtain ⟨mapInfo, vRandom, hswap, hpool, hlen, -, hsame⟩ := swapRandom_eq h.pool hp hq
  exact ⟨_, hswap, h.congr hpool (fun n => map_eq_of_forgetPos (fun _ => rfl) (hsame n)) hlen rfl,
    hlen⟩

/-- A record can change in everything that does not say where the entry is. -/
lemma modify (n : ℕ) {f : CAddrInfo → CAddrInfo} (hstatus : ∀ info, (f info).status = info.status)
    (hpos : ∀ info, (f info).nRandomPos = info.nRandomPos) : Sound Hash owed (am.modify n f) := by
  have hip : ∀ info, (f info).ip = info.ip := fun info =>
    congrArg (fun s : Bool × ℤ × CService => s.2.2.ip) (hstatus info)
  exact h.congr (h.pool.modify n hip hpos) (MapLoop.map_getElem?_modify hstatus am.mapInfo n) rfl rfl

/-- An entry of a "new" bucket has a record, which is not tried and counts its buckets. -/
lemma exists_of_mem_new (hn : n ∈ am.vvNew b) :
    ∃ info, am.mapInfo[n]? = some info ∧ info.fInTried = false ∧
      info.nRefCount = (am.buckets n).card + owed n := by
  have hmem : n ∈ am.mapInfo := by
    by_contra hnot
    have hempty := (h.absent n hnot).1
    rw [Finset.eq_empty_iff_forall_notMem] at hempty
    exact hempty b (mem_buckets.mpr hn)
  obtain ⟨info, hinfo⟩ := MapLoop.mem_iff.mp hmem
  have hplaced := h.placed n info.status (by rw [hinfo]; rfl)
  refine ⟨info, hinfo, ?_⟩
  rcases htried : info.fInTried with _ | _
  · rw [CAddrInfo.status, htried] at hplaced
    exact ⟨rfl, hplaced.1⟩
  · rw [CAddrInfo.status, htried] at hplaced
    have hempty := Finset.eq_empty_iff_forall_notMem.mp hplaced.2.1
    exact absurd (mem_buckets.mpr hn) (hempty b)

/-- The place of an entry that has a record. -/
lemma placed_of_eq (hn : am.mapInfo[n]? = some info) :
    Placed Hash am (owed n) n info.status := h.placed n _ (by rw [hn]; rfl)

/-- `dropReference`, together with the removal from the bucket, leaves the containers as they belong
together.  Only the entry that loses the reference is changed. -/
lemma dropReference (hn : n ∈ am.vvNew b) :
    ∃ am', am.dropReference n = some am' ∧ am'.vvNew = am.vvNew ∧
      Sound Hash owed (am'.setNew b ((am'.vvNew b).erase n)) ∧
      ∀ m ≠ n, am'.mapInfo[m]?.map forgetPos = am.mapInfo[m]?.map forgetPos := by
  obtain ⟨info, hinfo, htried, hcount⟩ := h.exists_of_mem_new hn
  have hplaced := h.placed_of_eq hinfo
  have hb : b ∈ am.buckets n := mem_buckets.mpr hn
  have hcard := Finset.card_erase_add_one hb
  rw [CAddrInfo.status, htried] at hplaced
  obtain ⟨-, hpos, hle, hnot⟩ := hplaced
  set am1 := am.modify n fun info => { info with nRefCount := info.nRefCount - 1 } with ham1
  have hpool1 : IndexedPool.Agrees CAddrInfo.schema am1.mapInfo am1.mapAddr am1.vRandom :=
    h.pool.modify n (fun _ => rfl) fun _ => rfl
  have hother1 : ∀ m ≠ n, am1.mapInfo[m]? = am.mapInfo[m]? := fun m hm =>
    MapLoop.getElem?_modify_of_ne _ _ hm.symm
  have hinfo1 : am1.mapInfo[n]? = some { info with nRefCount := info.nRefCount - 1 } :=
    getElem?_modify hinfo _
  simp only [CAddrMan.dropReference, hinfo]
  by_cases hzero : info.nRefCount - 1 = 0
  · -- it was the last reference: the entry is deleted
    obtain ⟨p, hp, hatP⟩ := h.pool.exists_pos hinfo
    have hlt := (List.getElem?_eq_some_iff.mp hatP).1
    have hposEq : info.nRandomPos = p := hp
    obtain ⟨mapInfo, vRandom, hswap, hpool2, hlen, hlast, hsame⟩ :=
      swapRandom_eq (p := p) (q := am1.vRandom.length - 1) hpool1 hlt (Nat.sub_one_lt_of_lt hlt)
    have hatLast : vRandom[vRandom.length - 1]? = some n := by
      rw [hlen, hlast]
      exact hatP
    have hne : vRandom ≠ [] := fun hnil => by
      rw [hnil] at hatLast
      cases hatLast
    obtain ⟨info2, hinfo2, hinfo2'⟩ : ∃ info2, mapInfo[n]? = some info2 ∧
        forgetPos info2 = forgetPos { info with nRefCount := info.nRefCount - 1 } := by
      have hn2 := hsame n
      rw [hinfo1, Option.map_some] at hn2
      exact Option.map_eq_some_iff.mp hn2
    have hip : info2.ip = info.ip := congrArg (fun info => info.ip) hinfo2'
    have hpool3 := hpool2.removeLast hinfo2 hatLast
    have hother : ∀ m ≠ n, (mapInfo.erase n)[m]?.map forgetPos = am.mapInfo[m]?.map forgetPos := by
      intro m hm
      rw [MapLoop.getElem?_erase_eq, if_neg hm.symm, hsame m, hother1 m hm]
    rw [if_pos hzero, if_neg (by omega), hposEq, Int.toNat_natCast, hswap, Option.bind_some,
      if_neg hne]
    have hone : (am.buckets n).erase b = ∅ := Finset.card_eq_zero.mp (by omega)
    refine ⟨_, rfl, rfl, ?_, hother⟩
    refine h.change (fun m => m = n) rfl (hip ▸ hpool3) (fun m hm => ?_) (fun m hm => ?_)
      (fun m _ b => Iff.rfl) (fun _ _ => rfl) le_rfl ?_ ?_ h.nodup
      (fun c => card_setNew_erase_le.trans (h.new_size c)) h.tried_size h.nTried_eq ?_
    · exact map_eq_of_forgetPos (fun _ => rfl) (hother m hm)
    · exact buckets_setNew_erase.trans (if_neg hm)
    · intro m hm info' hinfo'
      subst hm
      have hgone : (mapInfo.erase m)[m]? = none :=
        (MapLoop.getElem?_erase_eq mapInfo m m).trans (if_pos rfl)
      cases hgone.symm.trans hinfo'
    · intro m hm _
      subst hm
      exact ⟨(buckets_setNew_erase.trans (if_pos rfl)).trans hone, hnot⟩
    · have htotal := h.total
      show am.nTried + (am.nNew - 1) = (vRandom.dropLast.length : ℤ)
      have hlen' : vRandom.length = am.vRandom.length := hlen
      rw [List.length_dropLast, hlen']
      omega
  · -- other references are left
    rw [if_neg hzero]
    refine ⟨am1, rfl, rfl, ?_, fun m hm => by rw [hother1 m hm]⟩
    refine h.change (fun m => m = n) rfl hpool1 (fun m hm => ?_) (fun m hm => ?_)
      (fun m _ b => Iff.rfl) (fun _ _ => rfl) le_rfl ?_ ?_ h.nodup
      (fun c => card_setNew_erase_le.trans (h.new_size c)) h.tried_size h.nTried_eq h.total
    · exact congrArg (Option.map CAddrInfo.status) (hother1 m hm)
    · rw [buckets_setNew_erase, if_neg hm]
      rfl
    · intro m hm info' hinfo'
      subst hm
      cases hinfo1.symm.trans hinfo'
      refine ⟨h.lt_count m (mem_mapInfo hinfo), ?_⟩
      have herased : (am1.setNew b ((am1.vvNew b).erase m)).buckets m = (am.buckets m).erase b :=
        buckets_setNew_erase.trans (if_pos rfl)
      show Placed Hash _ (owed m) m (info.fInTried, info.nRefCount - 1, info.toCService)
      rw [htried]
      refine ⟨?_, by omega, by omega, hnot⟩
      rw [herased]
      omega
    · intro m hm hnot
      subst hm
      exact absurd (mem_mapInfo hinfo1) hnot

end

end Sound

/-! ## Making room in a "new" bucket -/

/-- The first loop of `ShrinkNew` finds an entry of the bucket or none. -/
lemma firstTerrible_eq {ids : List ℕ} (h : ∀ n ∈ ids, n ∈ am.mapInfo) (now : ℕ → Int64) (k : ℕ) :
    ∃ r, am.firstTerrible now k ids = some r ∧ ∀ n, r = some n → n ∈ ids := by
  induction ids generalizing k with
  | nil => exact ⟨none, rfl, fun n hn => by cases hn⟩
  | cons nId rest ih =>
    obtain ⟨info, hinfo⟩ := MapLoop.mem_iff.mp (h nId List.mem_cons_self)
    simp only [firstTerrible, hinfo]
    split
    · exact ⟨_, rfl, fun n hn => by cases hn; exact List.mem_cons_self⟩
    · obtain ⟨r, hr, hmem⟩ := ih (fun n hn => h n (List.mem_cons_of_mem _ hn)) (k + 1)
      exact ⟨r, hr, fun n hn => List.mem_cons_of_mem _ (hmem n hn)⟩

/-- The second loop of `ShrinkNew` finds an entry of the bucket as soon as one is drawn. -/
lemma foldlM_oldestRound (its : List (ℕ × ℕ)) (h : ∀ it ∈ its, it.1 ∈ am.mapInfo) (draws : List ℕ)
    (o : Option ℕ) (ho : ∀ n, o = some n → n ∈ am.mapInfo) :
    ∃ r, its.foldlM (am.oldestRound draws) o = some r ∧
      (∀ n, r = some n → o = some n ∨ n ∈ its.map Prod.fst) ∧
      ((o.isSome ∨ ∃ it ∈ its, it.2 ∈ draws) → r.isSome) := by
  induction its generalizing o with
  | nil =>
    refine ⟨o, rfl, fun n hn => Or.inl hn, ?_⟩
    rintro (hsome | ⟨it, hit, -⟩)
    · exact hsome
    · cases hit
  | cons it rest ih =>
    -- one round ends with an entry that was there or the one of the round
    obtain ⟨o', ho', hfrom, hdrawn⟩ : ∃ o', am.oldestRound draws o it = some o' ∧
        (∀ n, o' = some n → o = some n ∨ n = it.1) ∧ (o.isSome ∨ it.2 ∈ draws → o'.isSome) := by
      obtain ⟨info, hinfo⟩ := MapLoop.mem_iff.mp (h it List.mem_cons_self)
      unfold oldestRound
      by_cases hin : it.2 ∈ draws
      · rw [if_pos hin]
        rcases o with _ | oldest
        · exact ⟨_, rfl, fun n hn => Or.inr (Option.some.inj hn).symm, fun _ => rfl⟩
        · obtain ⟨infoOldest, hOldest⟩ := MapLoop.mem_iff.mp (ho oldest rfl)
          simp only [hinfo, hOldest]
          refine ⟨_, rfl, fun n hn => ?_, fun _ => rfl⟩
          split at hn
          · exact Or.inr (Option.some.inj hn).symm
          · exact Or.inl hn
      · rw [if_neg hin]
        exact ⟨o, rfl, fun n hn => Or.inl hn, fun hor => hor.resolve_right hin⟩
    obtain ⟨r, hr, hrfrom, hrdrawn⟩ := ih (fun it' hit' => h it' (List.mem_cons_of_mem _ hit')) o'
      (fun n hn => (hfrom n hn).elim (ho n) fun heq => heq ▸ h it List.mem_cons_self)
    refine ⟨r, ?_, fun n hn => ?_, fun hor => hrdrawn ?_⟩
    · rw [List.foldlM_cons, ho']
      exact hr
    · rcases hrfrom n hn with hfirst | hrest
      · rcases hfrom n hfirst with hold | hit
        · exact Or.inl hold
        · exact Or.inr (by rw [hit]; exact List.mem_cons_self)
      · exact Or.inr (List.mem_cons_of_mem _ hrest)
    · rcases hor with hsome | ⟨it', hit', hdraw⟩
      · exact Or.inl (hdrawn (Or.inl hsome))
      · rcases List.mem_cons.mp hit' with heq | hrest
        · exact Or.inl (hdrawn (Or.inr (heq ▸ hdraw)))
        · exact Or.inr ⟨it', hrest, hdraw⟩

lemma getRandInt_lt {nRand nMax : ℕ} (h : 0 < nMax) : getRandInt nRand nMax < nMax := by
  rw [getRandInt, if_neg h.ne']
  exact Nat.mod_lt _ h

/-- From a bucket with an entry, all of whose entries have records, `ShrinkNew` selects one. -/
lemma selectNew_eq {vNew : Finset ℕ} (h : ∀ n ∈ vNew, n ∈ am.mapInfo) (hne : vNew.Nonempty)
    (env : Env) : ∃ choice, am.selectNew env vNew = some choice ∧ choice.1 ∈ vNew := by
  have hids : ∀ n ∈ vNew.sort (· ≤ ·), n ∈ am.mapInfo := fun n hn => h n ((Finset.mem_sort _).mp hn)
  obtain ⟨r, hr, hmem⟩ := firstTerrible_eq hids env.now 0
  simp only [selectNew, hr, Option.bind_some]
  rcases r with _ | nId
  · -- no terrible entry: four are drawn
    have hcard : 0 < vNew.card := Finset.card_pos.mpr hne
    set draws := (List.range 4).map fun k => getRandInt (env.rand k) vNew.card
    obtain ⟨o, ho, hfrom, hdrawn⟩ := foldlM_oldestRound (vNew.sort (· ≤ ·)).zipIdx
      (fun it hit => hids it.1 (List.fst_mem_of_mem_zipIdx hit)) draws none (fun n hn => by cases hn)
    -- the first number drawn is the index of an entry
    have hsome : o.isSome := by
      refine hdrawn (Or.inr ?_)
      have hlt : getRandInt (env.rand 0) vNew.card < (vNew.sort (· ≤ ·)).length := by
        rw [Finset.length_sort]
        exact getRandInt_lt hcard
      refine ⟨((vNew.sort (· ≤ ·))[getRandInt (env.rand 0) vNew.card], _),
        List.mk_mem_zipIdx_iff_getElem?.mpr (List.getElem?_eq_getElem hlt), ?_⟩
      exact List.mem_map.mpr ⟨0, List.mem_range.mpr (by decide), rfl⟩
    obtain ⟨nId, rfl⟩ := Option.isSome_iff_exists.mp hsome
    have hfst := (hfrom nId rfl).resolve_left (fun hnone => by cases hnone)
    rw [List.zipIdx_map_fst] at hfst
    rw [ho]
    exact ⟨_, rfl, (Finset.mem_sort _).mp hfst⟩
  · exact ⟨_, rfl, (Finset.mem_sort _).mp (hmem nId rfl)⟩

namespace Sound

/-- `ShrinkNew` takes one entry out of a bucket and leaves the containers as they belong together. -/
lemma shrinkNew (h : Sound Hash owed am) (hne : (am.vvNew b).Nonempty) (env : Env) :
    ∃ r, am.shrinkNew env b = some r ∧ Sound Hash owed r.2 ∧
      ∃ n ∈ am.vvNew b, r.2.vvNew b = (am.vvNew b).erase n ∧
        ∀ m ≠ n, r.2.mapInfo[m]?.map forgetPos = am.mapInfo[m]?.map forgetPos := by
  have hrecords : ∀ n ∈ am.vvNew b, n ∈ am.mapInfo := fun n hn => by
    obtain ⟨info, hinfo, -⟩ := h.exists_of_mem_new hn
    exact mem_mapInfo hinfo
  obtain ⟨choice, hchoice, hmem⟩ := selectNew_eq hrecords hne env
  obtain ⟨am', ham', hnew, hsound, hother⟩ := h.dropReference hmem
  refine ⟨(choice.2, am'.setNew b ((am'.vvNew b).erase choice.1)), ?_, hsound, choice.1, hmem, ?_,
    hother⟩
  · rw [CAddrMan.shrinkNew, hchoice, Option.bind_some, ham', Option.map_some]
  · rw [setNew, hnew]
    exact Function.update_self _ _ _

/-- Putting an entry in a bucket with room settles a reference that it is owed. -/
lemma setNew_insert {owed' : ℕ → ℕ} (h : Sound Hash owed am) (hinfo : am.mapInfo[n]? = some info)
    (htried : info.fInTried = false) (hnot : n ∉ am.vvNew b)
    (hroom : (am.vvNew b).card < ADDRMAN_NEW_BUCKET_SIZE)
    (howed : ∀ m, owed m = owed' m + if m = n then 1 else 0) :
    Sound Hash owed' (am.setNew b (insert n (am.vvNew b))) := by
  refine h.change (fun m => m = n) rfl h.pool (fun _ _ => rfl) (fun m hm => ?_)
    (fun m _ b => Iff.rfl) (fun m hm => ?_) le_rfl ?_ ?_ h.nodup (fun c => ?_) h.tried_size
    h.nTried_eq h.total
  · exact buckets_setNew_insert.trans (if_neg hm)
  · rw [howed m, if_neg hm, Nat.add_zero]
  · intro m hm info' hinfo'
    subst hm
    have hplaced := h.placed_of_eq hinfo'
    cases hinfo.symm.trans hinfo'
    refine ⟨h.lt_count m (mem_mapInfo hinfo), ?_⟩
    rw [CAddrInfo.status, htried] at hplaced ⊢
    have hb : b ∉ am.buckets m := fun hb => hnot (mem_buckets.mp hb)
    have hbuckets : (am.setNew b (insert m (am.vvNew b))).buckets m = insert b (am.buckets m) :=
      buckets_setNew_insert.trans (if_pos rfl)
    have hone := howed m
    rw [if_pos rfl] at hone
    refine ⟨?_, hplaced.2⟩
    rw [hbuckets, Finset.card_insert_of_notMem hb]
    have hcount := hplaced.1
    omega
  · intro m hm habsent
    subst hm
    exact absurd (mem_mapInfo hinfo) habsent
  · show (Function.update am.vvNew b (insert n (am.vvNew b)) c).card ≤ _
    by_cases hc : c = b
    · subst hc
      rw [Function.update_self]
      exact (Finset.card_insert_le _ _).trans hroom
    · rw [Function.update_of_ne hc]
      exact h.new_size c

/-- The end of `Add_`: room is made in the bucket if need be, and the entry, which is owed a
reference, is put there. -/
lemma settle (h : Sound Hash (fun m => if m = n then 1 else 0) am)
    (hinfo : am.mapInfo[n]? = some info) (htried : info.fInTried = false)
    (hnot : n ∉ am.vvNew b) (env : Env) :
    ∃ am', (if (am.vvNew b).card = ADDRMAN_NEW_BUCKET_SIZE then (am.shrinkNew env b).map Prod.snd
        else some am) = some am' ∧
      Sound Hash (fun _ => 0) (am'.setNew b (insert n (am'.vvNew b))) := by
  by_cases hfull : (am.vvNew b).card = ADDRMAN_NEW_BUCKET_SIZE
  · have hne : (am.vvNew b).Nonempty := Finset.card_pos.mp (by rw [hfull]; decide)
    obtain ⟨r, hr, hsound, k, hk, hnew, hother⟩ := h.shrinkNew hne env
    have hnk : n ≠ k := fun heq => hnot (heq ▸ hk)
    obtain ⟨info', hinfo', hsame⟩ : ∃ info', r.2.mapInfo[n]? = some info' ∧
        forgetPos info' = forgetPos info := by
      have hn := hother n hnk
      rw [hinfo, Option.map_some] at hn
      exact Option.map_eq_some_iff.mp hn
    have htried' : info'.fInTried = false :=
      (congrArg (fun info => info.fInTried) hsame).trans htried
    refine ⟨r.2, by rw [if_pos hfull, hr, Option.map_some], hsound.setNew_insert hinfo' htried' ?_ ?_
      fun m => (Nat.zero_add _).symm⟩
    · rw [hnew]
      exact fun hmem => hnot (Finset.mem_of_mem_erase hmem)
    · rw [hnew, ← hfull]
      exact Finset.card_erase_lt_of_mem hk
  · rw [if_neg hfull]
    exact ⟨am, rfl, h.setNew_insert hinfo htried hnot (lt_of_le_of_ne (h.new_size b) hfull)
      fun m => (Nat.zero_add _).symm⟩

end Sound

end CAddrMan

end HyperStake.Net
