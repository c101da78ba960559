import HyperStake.Library.Sampling
import HyperStake.Net.AddrRuns

/-!
# The tried entry that is replaced

`SelectTried` draws four entries of a "tried" bucket and moves them to its front.  It remembers the one
that has been successful least recently, together with the position that this entry has been drawn
from.  There the bucket has another entry afterwards.  So what `MakeTried` replaces is the oldest
entry of the sample only if the position happens to have one of these in the end
(`selectTried_oldest_iff`).
-/

namespace HyperStake.Net

namespace CAddrMan

variable {Hash : Bytes → UInt256} {am : CAddrMan} {rand : ℕ → ℕ} {vTried : List ℕ} {i j k n : ℕ}

/-! ## The sample -/

/-- The position that is drawn in a round of `SelectTried`. -/
def drawPos (rand : ℕ → ℕ) (size i : ℕ) : ℕ := getRandInt (rand i) (size - i) + i

/-- The number of rounds of `SelectTried`. -/
def roundsFor (vTried : List ℕ) : ℕ := min ADDRMAN_TRIED_ENTRIES_INSPECT_ON_EVICT vTried.length

/-- The entry that is drawn in a round. -/
def drawnTried (rand : ℕ → ℕ) (vTried : List ℕ) (i : ℕ) : Option ℕ :=
  Sampling.drawn (drawPos rand vTried.length) vTried i

/-- The time of the last success that a record has. -/
def lastSuccess (am : CAddrMan) (n : ℕ) : ℤ :=
  am.mapInfo[n]?.elim 0 fun info => info.nLastSuccess.toInt

/-- The time of the last success of the entry that is drawn in a round. -/
def drawnSuccess (am : CAddrMan) (rand : ℕ → ℕ) (vTried : List ℕ) (i : ℕ) : ℤ :=
  (drawnTried rand vTried i).elim 0 am.lastSuccess

/-- The entries that `SelectTried` inspects. -/
def inspected (rand : ℕ → ℕ) (vTried : List ℕ) : List ℕ :=
  (List.range (roundsFor vTried)).filterMap (drawnTried rand vTried)

/-- An entry of a sample that no other one has been successful before. -/
def IsOldest (am : CAddrMan) (sample : List ℕ) (n : ℕ) : Prop :=
  n ∈ sample ∧ ∀ m ∈ sample, am.lastSuccess n ≤ am.lastSuccess m

/-- `SelectTried` returns the position of the oldest entry of the sample. -/
def SelectsOldest (am : CAddrMan) (rand : ℕ → ℕ) (vTried : List ℕ) : Prop :=
  ∃ nPos vTried' n, am.selectTried rand vTried = some (nPos, vTried') ∧ vTried'.Perm vTried ∧
    vTried'[nPos]? = some n ∧ am.IsOldest (inspected rand vTried) n

/-- Of the rounds that draw an entry with the least time of success, the first one draws it from a
position among the first ones, and the round with the number of this position draws such an entry
too. -/
def DrawnInPlace (am : CAddrMan) (rand : ℕ → ℕ) (vTried : List ℕ) : Prop :=
  ∃ j, Sampling.FirstLeast (am.drawnSuccess rand vTried) (roundsFor vTried) j ∧
    drawPos rand vTried.length j < roundsFor vTried ∧
    am.drawnSuccess rand vTried (drawPos rand vTried.length j) = am.drawnSuccess rand vTried j

lemma draws_drawPos (rand : ℕ → ℕ) (vTried : List ℕ) :
    Sampling.Draws (drawPos rand vTried.length) vTried (roundsFor vTried) := by
  intro i hi
  have hsize : i < vTried.length := hi.trans_le (Nat.min_le_right _ _)
  have hdraw : getRandInt (rand i) (vTried.length - i) < vTried.length - i :=
    getRandInt_lt (by omega)
  rw [drawPos]
  omega

lemma mem_inspected : n ∈ inspected rand vTried ↔
    ∃ i < roundsFor vTried, drawnTried rand vTried i = some n := by
  simp only [inspected, List.mem_filterMap, List.mem_range]

lemma drawnSuccess_of_drawn (h : drawnTried rand vTried i = some n) :
    am.drawnSuccess rand vTried i = am.lastSuccess n := by
  rw [drawnSuccess, h, Option.elim_some]

variable {info : CAddrInfo}

lemma lastSuccess_of_record (h : am.mapInfo[n]? = some info) :
    am.lastSuccess n = info.nLastSuccess.toInt := by
  rw [lastSuccess, h, Option.elim_some]

/-! ## The rounds -/

/-- What is remembered when another entry has been drawn. -/
def olderOf (am : CAddrMan) (oldest : Option (ℕ × ℕ)) (nTemp nPos : ℕ) : ℕ × ℕ :=
  match oldest with
  | none => (nTemp, nPos)
  | some (nOldest, nOldestPos) =>
    if am.lastSuccess nTemp < am.lastSuccess nOldest then (nTemp, nPos) else (nOldest, nOldestPos)

/-- A round of `SelectTried` exchanges two entries. -/
lemma selectTriedRound_exchange {l : List ℕ} {oldest : Option (ℕ × ℕ)} (hi : i < l.length)
    (hn : l[drawPos rand l.length i]? = some n) (hmem : n ∈ am.mapInfo)
    (holdest : ∀ p, oldest = some p → p.1 ∈ am.mapInfo) :
    am.selectTriedRound rand (l, oldest) i =
      some (Sampling.exchange l i (drawPos rand l.length i),
        some (am.olderOf oldest n (drawPos rand l.length i))) := by
  obtain ⟨hpos, hget⟩ := List.getElem?_eq_some_iff.mp hn
  obtain ⟨info, hinfo⟩ := MapLoop.mem_iff.mp hmem
  rw [Sampling.exchange_eq hpos hi, hget, selectTriedRound]
  dsimp only
  rw [← drawPos.eq_1 rand, hn, List.getElem?_eq_getElem hi]
  rcases oldest with _ | ⟨nOldest, nOldestPos⟩
  · rfl
  · obtain ⟨infoOldest, hinfoOldest⟩ := MapLoop.mem_iff.mp (holdest _ rfl)
    dsimp only [olderOf]
    rw [hinfo, hinfoOldest, lastSuccess_of_record hinfo, lastSuccess_of_record hinfoOldest]
    simp only [Int64.lt_iff_toInt_lt]
    rw [apply_ite some]

section

variable (rand : ℕ → ℕ) (hrecords : ∀ n ∈ vTried, n ∈ am.mapInfo)

include hrecords

/-- A round of `SelectTried` is one of the sampling. -/
lemma selectTriedRound_shuffle (hi : i < roundsFor vTried) (oldest : Option (ℕ × ℕ))
    (holdest : ∀ p, oldest = some p → p.1 ∈ am.mapInfo) :
    ∃ n ∈ am.mapInfo, drawnTried rand vTried i = some n ∧
      am.selectTriedRound rand (Sampling.shuffle (drawPos rand vTried.length) vTried i, oldest) i =
        some (Sampling.shuffle (drawPos rand vTried.length) vTried (i + 1),
          some (am.olderOf oldest n (drawPos rand vTried.length i))) := by
  have hdraws := draws_drawPos rand vTried
  have hlen : (Sampling.shuffle (drawPos rand vTried.length) vTried i).length = vTried.length :=
    (Sampling.shuffle_perm hdraws hi.le).length_eq
  obtain ⟨n, hmem, hn⟩ := Sampling.drawn_eq_some hdraws hi
  have hsize : i < vTried.length := hi.trans_le (Nat.min_le_right _ _)
  refine ⟨n, hrecords n hmem, hn, ?_⟩
  rw [selectTriedRound_exchange (by rwa [hlen]) (by rw [hlen]; exact hn) (hrecords n hmem) holdest,
    hlen, Sampling.shuffle]

/-- After some rounds the first one that has drawn an entry with the least time of success is
remembered. -/
lemma foldlM_range_selectTriedRound (hk : k < roundsFor vTried) :
    ∃ j n, n ∈ am.mapInfo ∧ drawnTried rand vTried j = some n ∧
      Sampling.FirstLeast (am.drawnSuccess rand vTried) (k + 1) j ∧
      (List.range (k + 1)).foldlM (am.selectTriedRound rand) (vTried, none) =
        some (Sampling.shuffle (drawPos rand vTried.length) vTried (k + 1),
          some (n, drawPos rand vTried.length j)) := by
  induction k with
  | zero =>
    obtain ⟨n, hmem, hn, hround⟩ := selectTriedRound_shuffle rand hrecords hk none
      fun p hp => by cases hp
    refine ⟨0, n, hmem, hn, Sampling.FirstLeast.one, ?_⟩
    rw [List.range_one, List.foldlM_cons]
    exact congrArg (Option.bind · fun st => [].foldlM (am.selectTriedRound rand) st) hround
  | succ k ih =>
    obtain ⟨j, m, hmemM, hm, hleast, hloop⟩ := ih (Nat.lt_of_succ_lt hk)
    obtain ⟨n, hmem, hn, hround⟩ := selectTriedRound_shuffle rand hrecords hk
      (some (m, drawPos rand vTried.length j)) fun p hp => by
        cases hp
        exact hmemM
    have hnext := hleast.succ
    rw [List.range_succ, List.foldlM_append, hloop, Option.bind_eq_bind, Option.bind_some,
      List.foldlM_cons, hround]
    rw [drawnSuccess_of_drawn hn, drawnSuccess_of_drawn hm] at hnext
    rw [olderOf]
    split_ifs at hnext ⊢ with hlt
    · exact ⟨k + 1, n, hmem, hn, hnext, rfl⟩
    · exact ⟨j, m, hmemM, hm, hnext, rfl⟩

/-- What `SelectTried` returns: the position that the oldest entry of the sample was drawn from. -/
lemma selectTried_shuffle (hne : vTried ≠ []) :
    ∃ j, Sampling.FirstLeast (am.drawnSuccess rand vTried) (roundsFor vTried) j ∧
      am.selectTried rand vTried = some (drawPos rand vTried.length j,
        Sampling.shuffle (drawPos rand vTried.length) vTried (roundsFor vTried)) := by
  have hlen : 0 < vTried.length := List.length_pos_iff.mpr hne
  have hrounds : 0 < roundsFor vTried := by
    rw [roundsFor, ADDRMAN_TRIED_ENTRIES_INSPECT_ON_EVICT]
    omega
  obtain ⟨k, hk⟩ := Nat.exists_eq_succ_of_ne_zero hrounds.ne'
  obtain ⟨j, n, -, -, hleast, hloop⟩ := foldlM_range_selectTriedRound rand hrecords
    (Nat.lt_of_succ_le hk.ge)
  rw [← Nat.succ_eq_add_one, ← hk] at hleast hloop
  refine ⟨j, hleast, ?_⟩
  rw [selectTried, ← roundsFor, hloop, Option.bind_some, Option.map_some]

end

/-! ## The oldest entry of the sample -/

/-- Under what condition the entry that is at a position in the end is the oldest one of the
sample. -/
lemma isOldest_iff (hnodup : vTried.Nodup) {p : ℕ}
    (hleast : Sampling.FirstLeast (am.drawnSuccess rand vTried) (roundsFor vTried) j)
    (hn : (Sampling.shuffle (drawPos rand vTried.length) vTried (roundsFor vTried))[p]? = some n) :
    am.IsOldest (inspected rand vTried) n ↔ p < roundsFor vTried ∧
      am.drawnSuccess rand vTried p = am.drawnSuccess rand vTried j := by
  have hdraws := draws_drawPos rand vTried
  rw [IsOldest, mem_inspected]
  refine (and_congr_left' (Sampling.exists_drawn_eq_iff hdraws hnodup hn)).trans
    (and_congr_right fun hp => ?_)
  have hdrawn : drawnTried rand vTried p = some n :=
    (Sampling.getElem?_shuffle_of_lt hdraws hp le_rfl).symm.trans hn
  rw [drawnSuccess_of_drawn hdrawn]
  constructor
  · intro hle
    obtain ⟨m, -, hm⟩ := Sampling.drawn_eq_some hdraws hleast.lt
    have hm' : drawnTried rand vTried j = some m := hm
    have hmin := hleast.le p hp
    rw [drawnSuccess_of_drawn hm', drawnSuccess_of_drawn hdrawn] at hmin
    rw [drawnSuccess_of_drawn hm']
    exact le_antisymm (hle m (mem_inspected.mpr ⟨j, hleast.lt, hm'⟩)) hmin
  · intro heq m hm
    obtain ⟨i, hi, hm'⟩ := mem_inspected.mp hm
    rw [heq, ← drawnSuccess_of_drawn hm']
    exact hleast.le i hi

/-- A condition on the round that is remembered is a condition on the first round with the least
time of success. -/
lemma exists_firstLeast_iff {P : ℕ → Prop} {rank : ℕ → ℤ} (h : Sampling.FirstLeast rank k j) :
    (∃ j', Sampling.FirstLeast rank k j' ∧ P j') ↔ P j := by
  constructor
  · rintro ⟨j', h', hP⟩
    rwa [h.unique h']
  · exact fun hP => ⟨j, h, hP⟩

/-- `SelectTried` returns the position of the oldest entry of the sample exactly if that entry was
drawn in place. -/
lemma selectsOldest_iff (hrecords : ∀ n ∈ vTried, n ∈ am.mapInfo) (hnodup : vTried.Nodup)
    (rand : ℕ → ℕ) : am.SelectsOldest rand vTried ↔ am.DrawnInPlace rand vTried := by
  have hdraws := draws_drawPos rand vTried
  by_cases hne : vTried = []
  · subst hne
    constructor
    · rintro ⟨nPos, vTried', n, hselect, hperm, hn, -⟩
      rw [hperm.eq_nil] at hn
      cases hn
    · rintro ⟨j, hleast, -⟩
      exact absurd hleast.lt (Nat.not_lt_zero j)
  · obtain ⟨j, hleast, hselect⟩ := selectTried_shuffle rand hrecords hne
    have hpos := (hdraws j hleast.lt).2.trans_eq
      (Sampling.shuffle_perm hdraws le_rfl).length_eq.symm
    have hn := List.getElem?_eq_getElem hpos
    rw [DrawnInPlace, exists_firstLeast_iff hleast, ← isOldest_iff hnodup hleast hn]
    constructor
    · rintro ⟨nPos, vTried', n, hselect', -, hn', holdest⟩
      cases hselect.symm.trans hselect'
      cases hn.symm.trans hn'
      exact holdest
    · exact fun holdest =>
        ⟨_, _, _, hselect, Sampling.shuffle_perm hdraws le_rfl, hn, holdest⟩

/-- The entry that `MakeTried` replaces in a "tried" bucket is the oldest one of the sample. -/
def EvictsOldest (Hash : Bytes → UInt256) (am : CAddrMan) (rand : ℕ → ℕ) (nId : ℕ)
    (nOrigin : Fin ADDRMAN_NEW_BUCKET_COUNT) (b : Fin ADDRMAN_TRIED_BUCKET_COUNT) : Prop :=
  ∃ am' nOld, am.makeTried Hash rand nId nOrigin = some am' ∧ nOld ∈ am.vvTried b ∧
    nOld ∉ am'.vvTried b ∧ am.IsOldest (inspected rand (am.vvTried b)) nOld

/-- Removing an entry from the "new" buckets changes no time of success. -/
lemma lastSuccess_removeFromNew : (am.removeFromNew n).lastSuccess = am.lastSuccess := by
  funext m
  simp only [lastSuccess, removeFromNew, modify, MapLoop.getElem?_modify_eq]
  split
  · next h =>
    subst h
    cases am.mapInfo[n]? with
    | none => rfl
    | some info => rfl
  · rfl

lemma isOldest_removeFromNew {sample : List ℕ} {m : ℕ} :
    (am.removeFromNew n).IsOldest sample m ↔ am.IsOldest sample m := by
  rw [IsOldest, IsOldest, lastSuccess_removeFromNew]

lemma drawnInPlace_removeFromNew :
    (am.removeFromNew n).DrawnInPlace rand vTried ↔ am.DrawnInPlace rand vTried := by
  have hsuccess : (am.removeFromNew n).drawnSuccess rand vTried = am.drawnSuccess rand vTried := by
    funext i
    rw [drawnSuccess, drawnSuccess, lastSuccess_removeFromNew]
  rw [DrawnInPlace, DrawnInPlace, hsuccess]

/-- `MakeTried` replaces the oldest entry of the sample exactly if that one was drawn in place. -/
lemma evictsOldest_iff (h : Settled Hash am) {nOrigin : Fin ADDRMAN_NEW_BUCKET_COUNT}
    (hmem : n ∈ am.vvNew nOrigin) (hinfo : am.mapInfo[n]? = some info)
    {b : Fin ADDRMAN_TRIED_BUCKET_COUNT}
    (hb : b = CAddrInfo.getTriedBucket Hash am.nKey info.toCService)
    (hfull : ¬ (am.vvTried b).length < ADDRMAN_TRIED_BUCKET_SIZE) (rand : ℕ → ℕ) :
    am.EvictsOldest Hash rand n nOrigin b ↔ am.DrawnInPlace rand (am.vvTried b) := by
  have hrecords : ∀ m ∈ am.vvTried b, m ∈ (am.removeFromNew n).mapInfo := fun m hm => by
    obtain ⟨infoM, hinfoM, -⟩ := h.exists_of_mem_tried hm
    exact Std.ExtTreeMap.mem_modify.mpr (mem_mapInfo hinfoM)
  rw [← drawnInPlace_removeFromNew (n := n), ← selectsOldest_iff hrecords (h.nodup b)]
  obtain ⟨nPos, vTried, old, c, am2, am3, hselect, hperm, hold, -, rfl, rfl, hmake⟩ :=
    h.makeTried_full hmem hinfo rand hb hfull
  have hnot : n ∉ am.vvTried b := fun hn => by
    obtain ⟨info', hinfo', htried', -⟩ := h.exists_of_mem_new hmem
    obtain ⟨info'', hinfo'', htried'', -⟩ := h.exists_of_mem_tried hn
    cases hinfo'.symm.trans hinfo''
    exact Bool.false_ne_true (htried'.symm.trans htried'')
  have holdMem : old ∈ am.vvTried b := hperm.mem_iff.mp (List.mem_of_getElem? hold)
  have hne : old ≠ n := fun heq => hnot (heq ▸ holdMem)
  constructor
  · rintro ⟨am', nOld, hmake', hnOld, hgone, holdest⟩
    cases hmake.symm.trans hmake'
    refine ⟨nPos, vTried, old, hselect, hperm, hold, isOldest_removeFromNew.mpr ?_⟩
    -- only the entry at the position has gone
    have hsame : nOld = old := by
      by_contra hne'
      refine hgone ?_
      show nOld ∈ Function.update am.vvTried b (vTried.set nPos n) b
      rw [Function.update_self]
      exact (mem_set_iff hold hne' (fun heq : nOld = n => hnot (heq ▸ hnOld))).mpr
        (hperm.mem_iff.mpr hnOld)
    rwa [← hsame]
  · rintro ⟨nPos', vTried', n', hselect', -, hn', holdest⟩
    cases hselect.symm.trans hselect'
    cases hold.symm.trans hn'
    refine ⟨_, old, hmake, holdMem, ?_, isOldest_removeFromNew.mp holdest⟩
    show old ∉ Function.update am.vvTried b (vTried.set nPos n) b
    rw [Function.update_self]
    exact not_mem_set (hperm.nodup_iff.mpr (h.nodup b)) hold hne

/-- What `SelectTried` returns and what `MakeTried` replaces is the oldest entry of the sample exactly
if that one was drawn in place: the position it is drawn from is among the first ones, and an entry
that has been successful as long ago is drawn in the round with this number. -/
theorem selectTried_oldest_iff (h : Settled Hash am) (b : Fin ADDRMAN_TRIED_BUCKET_COUNT)
    (rand : ℕ → ℕ) :
    (am.SelectsOldest rand (am.vvTried b) ↔ am.DrawnInPlace rand (am.vvTried b)) ∧
    ∀ nId nOrigin info, nId ∈ am.vvNew nOrigin → am.mapInfo[nId]? = some info →
      b = CAddrInfo.getTriedBucket Hash am.nKey info.toCService →
      ¬ (am.vvTried b).length < ADDRMAN_TRIED_BUCKET_SIZE →
      (am.EvictsOldest Hash rand nId nOrigin b ↔ am.DrawnInPlace rand (am.vvTried b)) := by
  refine ⟨selectsOldest_iff (fun n hn => ?_) (h.nodup b) rand,
    fun nId nOrigin info hmem hinfo hb hfull => evictsOldest_iff h hmem hinfo hb hfull rand⟩
  obtain ⟨info, hinfo, -⟩ := h.exists_of_mem_tried hn
  exact mem_mapInfo hinfo

/-! ### A full bucket -/

/-- The record of the `k`-th tried node; the later ones have been successful less recently. -/
def triedRecord (k : ℕ) : CAddrInfo :=
  { CAddrInfo.ofAddress { someAddress with ip := someAddress.ip + BitVec.ofNat 128 k } 0 with
    nLastSuccess := 1000 - Int64.ofNat k, fInTried := true, nRandomPos := k }

local instance neZeroTriedCount : NeZero ADDRMAN_TRIED_BUCKET_COUNT := ⟨by decide⟩

/-- A manager with some tried nodes, all of them in one bucket. -/
def withTried : ℕ → CAddrMan
  | 0 => init []
  | k + 1 => { withTried k with
      nIdCount := k + 1
      mapInfo := (withTried k).mapInfo.insert k (triedRecord k)
      mapAddr := (withTried k).mapAddr.insert (triedRecord k).ip k
      vRandom := List.range (k + 1)
      nTried := k + 1
      vvTried := fun b => if b = 0 then List.range (k + 1) else [] }

lemma nIdCount_withTried : (withTried k).nIdCount = k := by cases k <;> rfl

lemma vRandom_withTried : (withTried k).vRandom = List.range k := by cases k <;> rfl

lemma nTried_withTried : (withTried k).nTried = k := by cases k <;> rfl

lemma vvNew_withTried (b : Fin ADDRMAN_NEW_BUCKET_COUNT) : (withTried k).vvNew b = ∅ := by
  induction k with
  | zero => rfl
  | succ k ih => exact ih

lemma vvTried_withTried (b : Fin ADDRMAN_TRIED_BUCKET_COUNT) :
    (withTried k).vvTried b = if b = 0 then List.range k else [] := by
  cases k with
  | zero => rw [List.range_zero, ite_self]; rfl
  | succ k => rfl

lemma record_withTried (h : (withTried k).mapInfo[n]? = some info) :
    n < k ∧ info = triedRecord n := by
  induction k with
  | zero => exact absurd (mem_mapInfo h) Std.ExtTreeMap.not_mem_empty
  | succ k ih =>
    rw [withTried, MapLoop.getElem?_insert_eq] at h
    split at h
    · next hk =>
      cases h
      exact ⟨hk ▸ Nat.lt_succ_self k, by rw [hk]⟩
    · exact ⟨(ih h).1.trans (Nat.lt_succ_self k), (ih h).2⟩

/-- The nodes have different addresses. -/
lemma triedRecord_ip_inj (hn : n < 64) (hk : k < 64) (h : (triedRecord n).ip = (triedRecord k).ip) :
    n = k := by
  have hadd : BitVec.ofNat 128 n = BitVec.ofNat 128 k := (BitVec.add_right_inj _).mp h
  have hval := congrArg BitVec.toNat hadd
  rw [BitVec.toNat_ofNat, BitVec.toNat_ofNat, Nat.mod_eq_of_lt (by omega),
    Nat.mod_eq_of_lt (by omega)] at hval
  exact hval

lemma settled_withTried (hk : k ≤ 64) : Settled (fun _ => 0#256) (withTried k) := by
  induction k with
  | zero => exact settled_init []
  | succ k ih =>
    have h := ih (Nat.le_of_succ_le hk)
    have hfresh : k ∉ (withTried k).mapInfo := by
      have hfresh := h.nIdCount_fresh
      rwa [nIdCount_withTried] at hfresh
    have hkey : (withTried k).mapAddr[(triedRecord k).ip]? = none := by
      rcases hn : (withTried k).mapAddr[(triedRecord k).ip]? with _ | n
      · rfl
      · obtain ⟨info, hinfo, hip⟩ := h.pool.exists_of_index_eq hn
        obtain ⟨hlt, rfl⟩ := record_withTried hinfo
        exact absurd (triedRecord_ip_inj (by omega) hk hip) hlt.ne
    have hrecord : (withTried (k + 1)).mapInfo[k]? = some (triedRecord k) := by
      rw [withTried, MapLoop.getElem?_insert_eq, if_pos rfl]
    have hpool : IndexedPool.Agrees CAddrInfo.schema (withTried (k + 1)).mapInfo
        (withTried (k + 1)).mapAddr (withTried (k + 1)).vRandom := by
      rw [vRandom_withTried, List.range_succ, ← vRandom_withTried]
      refine h.pool.insert (Std.ExtTreeMap.getElem?_eq_none hfresh) hkey ?_
      rw [vRandom_withTried, List.length_range]
      rfl
    refine h.change (fun m => m = k) rfl hpool (fun m hm => ?_) (fun m _ => rfl) (fun m hm b => ?_)
      (fun _ _ => rfl) ?_ ?_ ?_ (fun b => ?_) h.new_size (fun b => ?_) ?_ ?_
    · refine congrArg (Option.map CAddrInfo.status) ?_
      rw [withTried, MapLoop.getElem?_insert_eq, if_neg (Ne.symm hm)]
    · rw [vvTried_withTried, vvTried_withTried]
      split_ifs
      · rw [List.mem_range, List.mem_range]
        omega
      · rfl
    · rw [nIdCount_withTried, nIdCount_withTried]
      exact Nat.le_succ k
    · rintro m rfl info hinfo
      cases hrecord.symm.trans hinfo
      refine ⟨by rw [nIdCount_withTried]; exact Nat.lt_succ_self m, rfl, ?_, fun b => ?_⟩
      · ext b
        rw [mem_buckets, vvNew_withTried]
        exact iff_of_false (Finset.notMem_empty m) (Finset.notMem_empty b)
      · rw [vvTried_withTried]
        have hzero : CAddrInfo.getTriedBucket (fun _ => 0#256) (withTried (m + 1)).nKey
            (triedRecord m).toCService = 0 := rfl
        rw [hzero]
        split_ifs with hb
        · exact iff_of_true (List.mem_range.mpr (Nat.lt_succ_self m)) hb
        · exact iff_of_false List.not_mem_nil hb
    · rintro m rfl hnot
      exact absurd (mem_mapInfo hrecord) hnot
    · rw [vvTried_withTried]
      split_ifs
      · exact List.nodup_range
      · exact List.nodup_nil
    · rw [vvTried_withTried]
      split_ifs
      · rw [List.length_range]
        exact hk
      · exact Nat.zero_le _
    · rw [nTried_withTried]
      simp only [vvTried_withTried]
      rw [Finset.sum_eq_single (0 : Fin ADDRMAN_TRIED_BUCKET_COUNT)]
      · rw [if_pos rfl, List.length_range]
      · intro b _ hb
        rw [if_neg hb]
        rfl
      · exact fun hnot => absurd (Finset.mem_univ _) hnot
    · have htotal := h.total
      rw [nTried_withTried, vRandom_withTried, List.length_range] at htotal ⊢
      have hsame : (withTried (k + 1)).nNew = (withTried k).nNew := rfl
      rw [hsame]
      omega

/-- A node that is added when the bucket of the tried ones is full. -/
def addNode : Op :=
  .add still { someAddress with ip := someAddress.ip + BitVec.ofNat 128 64 } 0 0

lemma exists_fullBucket : ∃ am, (withTried 64).step (fun _ => 0#256) addNode = some am ∧
    Settled (fun _ => 0#256) am ∧ am.vvTried 0 = List.range 64 ∧ 64 ∈ am.vvNew 0 ∧
    ∀ n < 64, am.lastSuccess n = 1000 - n := by
  have h : Settled (fun _ => 0#256) (withTried 64) := settled_withTried le_rfl
  have hop : addNode.Numbered (fun _ => 0#256) (withTried 64) := fun _ _ => by
    rw [nIdCount_withTried]
    decide
  obtain ⟨am, hstep, h'⟩ := h.step hop
  have hvals : ((withTried 64).step (fun _ => 0#256) addNode).map (fun am : CAddrMan =>
      (am.vvTried 0, decide (64 ∈ am.vvNew 0),
        decide (∀ n ∈ List.range 64, am.lastSuccess n = 1000 - (n : ℤ)))) =
        some (List.range 64, true, true) := by decide +kernel
  rw [hstep, Option.map_some, Option.some.injEq, Prod.mk.injEq, Prod.mk.injEq] at hvals
  exact ⟨am, hstep, h', hvals.1, of_decide_eq_true hvals.2.1, fun n hn =>
    of_decide_eq_true hvals.2.2 n (List.mem_range.mpr hn)⟩

/-- Every entry is drawn in place, and the oldest one of the sample goes. -/
theorem selectTried_oldest_iff_inPlace : ∃ am,
    (withTried 64).step (fun _ => 0#256) addNode = some am ∧
    am.SelectsOldest (fun _ => 0) (am.vvTried 0) ∧
    am.EvictsOldest (fun _ => 0#256) (fun _ => 0) 64 0 0 := by
  obtain ⟨am, hstep, h, htried, hmem, hsuccess⟩ := exists_fullBucket
  obtain ⟨info, hinfo, -⟩ := h.exists_of_mem_new hmem
  have hdrawn : ∀ i < 4, drawnTried (fun _ => 0) (List.range 64) i = some i := by decide +kernel
  have hrank : ∀ i < 4, am.drawnSuccess (fun _ => 0) (List.range 64) i = 1000 - i := fun i hi => by
    rw [drawnSuccess_of_drawn (hdrawn i hi), hsuccess i (by omega)]
  have hplace : am.DrawnInPlace (fun _ => 0) (am.vvTried 0) := by
    rw [htried]
    refine ⟨3, ⟨by decide, fun i hi => ?_, fun i hi => ?_⟩, by decide, rfl⟩
    · have hi4 : i < 4 := hi
      rw [hrank i hi4, hrank 3 (by decide)]
      omega
    · rw [hrank i (by omega), hrank 3 (by decide)]
      omega
  obtain ⟨hselect, hevict⟩ := selectTried_oldest_iff h 0 fun _ => 0
  refine ⟨am, hstep, hselect.mpr hplace, (hevict 64 0 info hmem hinfo rfl ?_).mpr hplace⟩
  rw [htried]
  decide

/-- The oldest entry of the sample is drawn from the end of the bucket.  What is there afterwards has
not been in the sample and is the entry that has been successful most recently, and it goes. -/
theorem not_selectTried_oldest : ∃ am,
    (withTried 64).step (fun _ => 0#256) addNode = some am ∧ Settled (fun _ => 0#256) am ∧
    ¬ am.SelectsOldest (fun _ => 63) (am.vvTried 0) ∧
    inspected (fun _ => 63) (am.vvTried 0) = [63, 1, 3, 5] ∧
    ∃ am', am.makeTried (fun _ => 0#256) (fun _ => 63) 64 0 = some am' ∧
      0 ∈ am.vvTried 0 ∧ 0 ∉ am'.vvTried 0 ∧
      ¬ am.EvictsOldest (fun _ => 0#256) (fun _ => 63) 64 0 0 := by
  obtain ⟨am, hstep, h, htried, hmem, hsuccess⟩ := exists_fullBucket
  obtain ⟨info, hinfo, -⟩ := h.exists_of_mem_new hmem
  obtain ⟨am', hmake, -⟩ := h.makeTried hmem fun _ => 63
  have hrecords : ∀ n ∈ am.vvTried 0, n ∈ am.mapInfo := fun n hn => by
    obtain ⟨infoN, hinfoN, -⟩ := h.exists_of_mem_tried hn
    exact mem_mapInfo hinfoN
  have hnot : ¬ am.DrawnInPlace (fun _ => 63) (am.vvTried 0) := by
    rw [htried]
    rintro ⟨j, hleast, hpos, -⟩
    -- the entry that is drawn last from the bucket is the oldest
    have hdrawn : ∀ i < 4, drawnTried (fun _ => 63) (List.range 64) i = [63, 1, 3, 5][i]? := by
      decide +kernel
    have hrank : ∀ i < 4, 0 < i → am.drawnSuccess (fun _ => 63) (List.range 64) 0 <
        am.drawnSuccess (fun _ => 63) (List.range 64) i := fun i hi hne => by
      have hvalue : ∀ i < 4, am.drawnSuccess (fun _ => 63) (List.range 64) i =
          [937, 999, 997, 995].getD i 0 := fun i hi => by
        rw [drawnSuccess, hdrawn i hi]
        obtain rfl | rfl | rfl | rfl : i = 0 ∨ i = 1 ∨ i = 2 ∨ i = 3 := by omega
        all_goals exact hsuccess _ (by decide)
      rw [hvalue 0 (by decide), hvalue i hi]
      obtain rfl | rfl | rfl : i = 1 ∨ i = 2 ∨ i = 3 := by omega
      all_goals decide
    rcases Nat.eq_zero_or_pos j with rfl | hj
    · exact absurd hpos (by decide)
    · exact absurd (hrank j hleast.lt hj) (not_lt.mpr (hleast.le 0 (by decide)))
  have hvals : (((withTried 64).step (fun _ => 0#256) addNode).bind fun am =>
      am.makeTried (fun _ => 0#256) (fun _ => 63) 64 0).map (fun am => decide (0 ∈ am.vvTried 0)) =
        some false := by decide +kernel
  rw [hstep, Option.bind_some, hmake, Option.map_some, Option.some.injEq] at hvals
  refine ⟨am, hstep, h, fun hselect => hnot ((selectsOldest_iff hrecords (h.nodup 0) _).mp hselect),
    ?_, am', hmake, ?_, of_decide_eq_false hvals, fun hevict => hnot ?_⟩
  · rw [htried]
    decide +kernel
  · rw [htried]
    decide
  · have hfull : ¬ (am.vvTried 0).length < ADDRMAN_TRIED_BUCKET_SIZE := by
      rw [htried]
      decide
    exact (evictsOldest_iff h hmem hinfo rfl hfull _).mp hevict

end CAddrMan

end HyperStake.Net
