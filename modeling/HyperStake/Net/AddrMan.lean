import Mathlib.Data.Finset.Sort
import Mathlib.Data.Fintype.Basic
import Mathlib.Data.Fintype.Card
import HyperStake.Net.Address

/-!
# The address manager

`CAddrMan` of `addrman.h` and `addrman.cpp`.  Every known address has a number and a record.  New
addresses are in some of 256 sets of numbers, the "new" buckets, and their record counts in how
many; addresses of nodes that have been connected to are in one of 64 lists, the "tried" buckets.

Random numbers and the time come from outside: the functions are given the numbers that their calls
of the generator return and the times that their calls of the clock return, so that a statement
about all of these is one about all choices.  `none` is a failed assertion, or a step that the
language does not define.
-/

namespace HyperStake.Net

abbrev ADDRMAN_TRIED_BUCKET_COUNT : ℕ := 64

def ADDRMAN_TRIED_BUCKET_SIZE : ℕ := 64

abbrev ADDRMAN_NEW_BUCKET_COUNT : ℕ := 256

def ADDRMAN_NEW_BUCKET_SIZE : ℕ := 64

def ADDRMAN_TRIED_BUCKETS_PER_GROUP : UInt64 := 4

def ADDRMAN_NEW_BUCKETS_PER_SOURCE_GROUP : UInt64 := 32

def ADDRMAN_NEW_BUCKETS_PER_ADDRESS : ℤ := 4

def ADDRMAN_TRIED_ENTRIES_INSPECT_ON_EVICT : ℕ := 4

def ADDRMAN_HORIZON_DAYS : Int64 := 30

def ADDRMAN_RETRIES : Int32 := 3

def ADDRMAN_MAX_FAILURES : Int32 := 10

def ADDRMAN_MIN_FAIL_DAYS : Int64 := 7

def ADDRMAN_GETADDR_MAX_PCT : ℕ := 23

def ADDRMAN_GETADDR_MAX : ℕ := 2500

/-- A `CAddrInfo`: an address and its statistics. -/
structure CAddrInfo extends CAddress where
  source : CNetAddr
  nLastSuccess : Int64
  nAttempts : Int32
  nRefCount : ℤ
  fInTried : Bool
  nRandomPos : ℤ
  deriving DecidableEq

namespace CAddrInfo

/-- The constructor. -/
def ofAddress (addrIn : CAddress) (addrSource : CNetAddr) : CAddrInfo :=
  { addrIn with
    nLastTry := 0, source := addrSource, nLastSuccess := 0, nAttempts := 0, nRefCount := 0,
    fInTried := false, nRandomPos := -1 }

/-- `nTime` as an `int64`. -/
def time (info : CAddrInfo) : Int64 := info.nTime.toUInt64.toInt64

/-- `IsTerrible`: may the record be deleted? -/
def isTerrible (info : CAddrInfo) (nNow : Int64) : Bool :=
  -- never remove things tried in the last minute
  if info.nLastTry ≠ 0 ∧ info.nLastTry ≥ nNow - 60 then false
  else if info.time > nNow + 10 * 60 then true
  else if info.nTime = 0 ∨ nNow - info.time > ADDRMAN_HORIZON_DAYS * 86400 then true
  else if info.nLastSuccess = 0 ∧ info.nAttempts ≥ ADDRMAN_RETRIES then true
  else nNow - info.nLastSuccess > ADDRMAN_MIN_FAIL_DAYS * 86400 ∧
    info.nAttempts ≥ ADDRMAN_MAX_FAILURES

variable (Hash : Bytes → UInt256)

/-- `Hash(...).Get64()`. -/
def get64 (w : Bytes) : UInt64 := UInt64.ofNat (Hash w).toNat

/-- `GetTriedBucket`, of the service of a record. -/
def getTriedBucket (nKey : Bytes) (addr : CService) : Fin ADDRMAN_TRIED_BUCKET_COUNT :=
  let hash1 := get64 Hash (serializeString nKey ++ serializeString addr.getKey)
  let hash2 := get64 Hash (serializeString nKey ++ serializeString (CNetAddr.getGroup addr.ip) ++
    serializeUInt64 (hash1 % ADDRMAN_TRIED_BUCKETS_PER_GROUP))
  Fin.ofNat ADDRMAN_TRIED_BUCKET_COUNT hash2.toNat

/-- `GetNewBucket`, for an address that was heard of from `src`. -/
def getNewBucket (nKey : Bytes) (info : CAddrInfo) (src : CNetAddr) :
    Fin ADDRMAN_NEW_BUCKET_COUNT :=
  let hash1 := get64 Hash (serializeString nKey ++ serializeString (CNetAddr.getGroup info.ip) ++
    serializeString (CNetAddr.getGroup src))
  let hash2 := get64 Hash (serializeString nKey ++ serializeString (CNetAddr.getGroup src) ++
    serializeUInt64 (hash1 % ADDRMAN_NEW_BUCKETS_PER_SOURCE_GROUP))
  Fin.ofNat ADDRMAN_NEW_BUCKET_COUNT hash2.toNat

end CAddrInfo

/-- A `CAddrMan`.  The vectors of buckets never change their sizes. -/
structure CAddrMan where
  nKey : Bytes
  nIdCount : ℕ
  mapInfo : Std.ExtTreeMap ℕ CAddrInfo
  mapAddr : Std.ExtTreeMap CNetAddr ℕ
  vRandom : List ℕ
  nTried : ℤ
  vvTried : Fin ADDRMAN_TRIED_BUCKET_COUNT → List ℕ
  nNew : ℤ
  vvNew : Fin ADDRMAN_NEW_BUCKET_COUNT → Finset ℕ

/-- What a call is told by the generator of random numbers and by the clock, call by call. -/
structure Env where
  rand : ℕ → ℕ
  now : ℕ → Int64

/-- `GetRandInt`, for a drawn number. -/
def getRandInt (nRand nMax : ℕ) : ℕ := if nMax = 0 then 0 else nRand % nMax

namespace CAddrMan

variable (Hash : Bytes → UInt256) (am : CAddrMan)

/-- The constructor, with the random key. -/
def init (nKey : Bytes) : CAddrMan where
  nKey := nKey
  nIdCount := 0
  mapInfo := ∅
  mapAddr := ∅
  vRandom := []
  nTried := 0
  vvTried := fun _ => []
  nNew := 0
  vvNew := fun _ => ∅

/-- Change a record in place. -/
def modify (nId : ℕ) (f : CAddrInfo → CAddrInfo) : CAddrMan :=
  { am with mapInfo := am.mapInfo.modify nId f }

/-- Change a "new" bucket. -/
def setNew (b : Fin ADDRMAN_NEW_BUCKET_COUNT) (vNew : Finset ℕ) : CAddrMan :=
  { am with vvNew := Function.update am.vvNew b vNew }

/-- Change a "tried" bucket. -/
def setTried (b : Fin ADDRMAN_TRIED_BUCKET_COUNT) (vTried : List ℕ) : CAddrMan :=
  { am with vvTried := Function.update am.vvTried b vTried }

/-- `Find`: the number of the record of an address. -/
def find (addr : CNetAddr) : Option ℕ :=
  match am.mapAddr[addr]? with
  | none => none
  | some nId => if nId ∈ am.mapInfo then some nId else none

/-- `Create`.  The counter of the numbers is an `int`. -/
def create (addr : CAddress) (addrSource : CNetAddr) : Option (ℕ × CAddrMan) :=
  let nId := am.nIdCount
  if nId + 1 < 2 ^ 31 then
    some (nId, { am with
      nIdCount := nId + 1
      mapInfo := am.mapInfo.insert nId
        { CAddrInfo.ofAddress addr addrSource with nRandomPos := am.vRandom.length }
      mapAddr := am.mapAddr.insert addr.ip nId
      vRandom := am.vRandom ++ [nId] })
  else none

def swapRandom (nRndPos1 nRndPos2 : ℕ) : Option CAddrMan :=
  if nRndPos1 = nRndPos2 then some am
  else
    match am.vRandom[nRndPos1]?, am.vRandom[nRndPos2]? with
    | some nId1, some nId2 =>
      if nId1 ∈ am.mapInfo ∧ nId2 ∈ am.mapInfo then
        some { (am.modify nId1 fun info => { info with nRandomPos := nRndPos2 }).modify nId2
            fun info => { info with nRandomPos := nRndPos1 } with
          vRandom := (am.vRandom.set nRndPos1 nId2).set nRndPos2 nId1 }
      else none
    | _, _ => none

/-- One round of the loop of `SelectTried`: the `i`-th entry is exchanged with one drawn from those
not seen yet, and `nOldest` becomes its number if it has been successful less recently. -/
def selectTriedRound (rand : ℕ → ℕ) (st : List ℕ × Option (ℕ × ℕ)) (i : ℕ) :
    Option (List ℕ × Option (ℕ × ℕ)) :=
  let nPos := getRandInt (rand i) (st.1.length - i) + i
  match st.1[nPos]?, st.1[i]? with
  | some nTemp, some nOther =>
    let vTried := (st.1.set nPos nOther).set i nTemp
    match st.2 with
    | none => some (vTried, some (nTemp, nPos))
    | some (nOldest, nOldestPos) =>
      match am.mapInfo[nTemp]?, am.mapInfo[nOldest]? with
      | some info, some oldest =>
        some (vTried, if info.nLastSuccess < oldest.nLastSuccess then some (nTemp, nPos)
          else some (nOldest, nOldestPos))
      | _, _ => none
  | _, _ => none

/-- `SelectTried`: the position to be replaced, and the shuffled bucket. -/
def selectTried (rand : ℕ → ℕ) (vTried : List ℕ) : Option (ℕ × List ℕ) :=
  (List.range (min ADDRMAN_TRIED_ENTRIES_INSPECT_ON_EVICT vTried.length)).foldlM
    (am.selectTriedRound rand) (vTried, none) |>.bind fun st =>
      st.2.map fun oldest => (oldest.2, st.1)

/-- One reference less for a record; with the last one, it is deleted.  Both ends of `ShrinkNew`
contain this. -/
def dropReference (nId : ℕ) : Option CAddrMan :=
  match am.mapInfo[nId]? with
  | none => none
  | some info =>
    let am1 := am.modify nId fun info => { info with nRefCount := info.nRefCount - 1 }
    if info.nRefCount - 1 = 0 then
      -- a negative position becomes a huge `unsigned int`, for which `SwapRandom` asserts
      if info.nRandomPos < 0 then none
      else (am1.swapRandom info.nRandomPos.toNat (am1.vRandom.length - 1)).bind fun am2 =>
        if am2.vRandom = [] then none
        else some { am2 with
          vRandom := am2.vRandom.dropLast
          mapAddr := am2.mapAddr.erase info.ip
          mapInfo := am2.mapInfo.erase nId
          nNew := am2.nNew - 1 }
    else some am1

/-- The first loop of `ShrinkNew`: the first terrible entry of a bucket. -/
def firstTerrible (now : ℕ → Int64) : ℕ → List ℕ → Option (Option ℕ)
  | _, [] => some none
  | k, nId :: rest =>
    match am.mapInfo[nId]? with
    | none => none
    | some info =>
      if info.isTerrible (now k) then some (some nId) else firstTerrible now (k + 1) rest

/-- A round of the second loop of `ShrinkNew`: of the drawn entries, the one seen least recently. -/
def oldestRound (draws : List ℕ) (nOldest : Option ℕ) (it : ℕ × ℕ) : Option (Option ℕ) :=
  if it.2 ∈ draws then
    match nOldest with
    | none => some (some it.1)
    | some oldest =>
      match am.mapInfo[it.1]?, am.mapInfo[oldest]? with
      | some info, some infoOldest =>
        some (some (if info.nTime < infoOldest.nTime then it.1 else oldest))
      | _, _ => none
  else some nOldest

/-- The entry that `ShrinkNew` removes, and what it returns. -/
def selectNew (env : Env) (vNew : Finset ℕ) : Option (ℕ × ℤ) :=
  let ids := vNew.sort (· ≤ ·)
  (am.firstTerrible env.now 0 ids).bind fun
    | some nId => some (nId, 0)
    | none =>
      -- select four randomly, and pick the oldest of those to replace
      let draws := (List.range 4).map fun k => getRandInt (env.rand k) vNew.card
      (ids.zipIdx.foldlM (am.oldestRound draws) none).bind fun nOldest =>
        nOldest.map fun nId => (nId, 1)

/-- `ShrinkNew`: remove an entry from a "new" bucket. -/
def shrinkNew (env : Env) (nUBucket : Fin ADDRMAN_NEW_BUCKET_COUNT) : Option (ℤ × CAddrMan) :=
  (am.selectNew env (am.vvNew nUBucket)).bind fun choice =>
    (am.dropReference choice.1).map fun am' =>
      (choice.2, am'.setNew nUBucket ((am'.vvNew nUBucket).erase choice.1))

/-- The first step of `MakeTried`: remove an entry from all "new" buckets. -/
def removeFromNew (nId : ℕ) : CAddrMan :=
  { am.modify nId fun info => { info with
      nRefCount := info.nRefCount - (Finset.univ.filter fun b => nId ∈ am.vvNew b).card } with
    vvNew := fun b => (am.vvNew b).erase nId
    nNew := am.nNew - 1 }

/-- `MakeTried`: move an entry from the "new" buckets to its "tried" bucket.  From a full one an
entry goes back to its "new" bucket, or, when that is full, to the one the moved entry was in. -/
def makeTried (rand : ℕ → ℕ) (nId : ℕ) (nOrigin : Fin ADDRMAN_NEW_BUCKET_COUNT) :
    Option CAddrMan :=
  if nId ∉ am.vvNew nOrigin then none
  else
    let am1 := am.removeFromNew nId
    match am1.mapInfo[nId]? with
    | none => none
    | some info =>
      if info.nRefCount ≠ 0 then none
      else
        let nKBucket := CAddrInfo.getTriedBucket Hash am1.nKey info.toCService
        let vTried := am1.vvTried nKBucket
        if vTried.length < ADDRMAN_TRIED_BUCKET_SIZE then
          some { (am1.setTried nKBucket (vTried ++ [nId])).modify nId fun info =>
              { info with fInTried := true } with
            nTried := am1.nTried + 1 }
        else
          (am1.selectTried rand vTried).bind fun (nPos, vTried) =>
            match vTried[nPos]? with
            | none => none
            | some nOld =>
              match am1.mapInfo[nOld]? with
              | none => none
              | some infoOld =>
                let nUBucket := infoOld.getNewBucket Hash am1.nKey infoOld.source
                let b := if (am1.vvNew nUBucket).card < ADDRMAN_NEW_BUCKET_SIZE then nUBucket
                  else nOrigin
                let am2 := am1.modify nOld fun info => { info with fInTried := false, nRefCount := 1 }
                let am3 := (am2.setNew b (insert nOld (am2.vvNew b))).setTried nKBucket
                  (vTried.set nPos nId)
                some { am3.modify nId fun info => { info with fInTried := true } with
                  nNew := am3.nNew + 1 }

/-- The search of `Good_` for a bucket that an entry is in, from a random one on. -/
def findBucket (nRnd nId : ℕ) : Option (Fin ADDRMAN_NEW_BUCKET_COUNT) :=
  ((List.range ADDRMAN_NEW_BUCKET_COUNT).map fun n =>
    Fin.ofNat ADDRMAN_NEW_BUCKET_COUNT (n + nRnd)).find? fun b => nId ∈ am.vvNew b

/-- The record that is there for exactly this service. -/
def findService (addr : CService) : Option (ℕ × CAddrInfo) :=
  (am.find addr.ip).bind fun nId => am.mapInfo[nId]?.bind fun info =>
    if info.toCService = addr then some (nId, info) else none

/-- `Good_`: mark an entry good. -/
def good (rand : ℕ → ℕ) (addr : CService) (nTime : Int64) : Option CAddrMan :=
  match am.findService addr with
  | none => some am
  | some (nId, info) =>
    let am1 := am.modify nId fun info => { info with
      nLastSuccess := nTime, nLastTry := nTime, nTime := nTime.toUInt64.toUInt32, nAttempts := 0 }
    if info.fInTried then some am1
    else
      match am1.findBucket (getRandInt (rand 0) ADDRMAN_NEW_BUCKET_COUNT) nId with
      | none => some am1
      | some nUBucket => am1.makeTried Hash (fun k => rand (k + 1)) nId nUBucket

/-- The end of `Add_`: put an entry in the bucket that its source gives it. -/
def addToNew (env : Env) (nId : ℕ) (source : CNetAddr) (fNew : Bool) : Option (Bool × CAddrMan) :=
  match am.mapInfo[nId]? with
  | none => none
  | some info =>
    let nUBucket := info.getNewBucket Hash am.nKey source
    if nId ∈ am.vvNew nUBucket then some (fNew, am)
    else
      let am1 := am.modify nId fun info => { info with nRefCount := info.nRefCount + 1 }
      let shrunk := if (am1.vvNew nUBucket).card = ADDRMAN_NEW_BUCKET_SIZE then
        (am1.shrinkNew env nUBucket).map Prod.snd else some am1
      shrunk.map fun am2 => (fNew, am2.setNew nUBucket (insert nId (am2.vvNew nUBucket)))

/-- What `Add_` learns about a known address. -/
def refresh (info : CAddrInfo) (addr : CAddress) (nTimePenalty now : Int64) : CAddrInfo :=
  let nTime : Int64 := addr.nTime.toUInt64.toInt64
  let fCurrentlyOnline := now - nTime < 24 * 60 * 60
  let nUpdateInterval : Int64 := if fCurrentlyOnline then 60 * 60 else 24 * 60 * 60
  { info with
    nTime := if addr.nTime ≠ 0 ∧
        (info.nTime = 0 ∨ info.time < nTime - nUpdateInterval - nTimePenalty) then
      (max 0 (nTime - nTimePenalty)).toUInt64.toUInt32 else info.nTime
    nServices := info.nServices ||| addr.nServices }

/-- Does `Add_` give a known address no further reference?  The more it has, the less likely it is
to get one. -/
def refusesReference (info : CAddrInfo) (addr : CAddress) (nRand : ℕ) : Bool :=
  addr.nTime = 0 ∨ (info.nTime ≠ 0 ∧ addr.nTime ≤ info.nTime) ∨ info.fInTried = true ∨
    info.nRefCount = ADDRMAN_NEW_BUCKETS_PER_ADDRESS ∨
    (2 ^ info.nRefCount.toNat > 1 ∧ getRandInt nRand (2 ^ info.nRefCount.toNat) ≠ 0)

/-- `Add_`: add an address to the "new" buckets. -/
def add (env : Env) (addr : CAddress) (source : CNetAddr) (nTimePenalty : Int64) :
    Option (Bool × CAddrMan) :=
  if !CNetAddr.isRoutable addr.ip then some (false, am)
  else
    let env' : Env := ⟨fun k => env.rand (k + 1), fun k => env.now (k + 1)⟩
    match am.find addr.ip with
    | some nId =>
      match am.mapInfo[nId]? with
      | none => none
      | some old =>
        let am1 := am.modify nId fun info => refresh info addr nTimePenalty (env.now 0)
        if refusesReference (refresh old addr nTimePenalty (env.now 0)) addr (env.rand 0) then
          some (false, am1)
        else am1.addToNew Hash env' nId source false
    | none =>
      (am.create addr source).bind fun (nId, am1) =>
        let am2 := { am1.modify nId fun info => { info with
          nTime := (max 0 (info.time - nTimePenalty)).toUInt64.toUInt32 } with nNew := am1.nNew + 1 }
        am2.addToNew Hash env' nId source true

/-- `Add` of several addresses: how many were new. -/
def addAll (source : CNetAddr) (nTimePenalty : Int64) :
    List (Env × CAddress) → CAddrMan → Option (ℕ × CAddrMan)
  | [], am => some (0, am)
  | (env, addr) :: rest, am =>
    (am.add Hash env addr source nTimePenalty).bind fun (fRet, am1) =>
      (addAll source nTimePenalty rest am1).map fun (nAdd, am2) =>
        ((if fRet then 1 else 0) + nAdd, am2)

/-- `Attempt_`: mark an entry as attempted to connect to. -/
def attempt (addr : CService) (nTime : Int64) : CAddrMan :=
  match am.findService addr with
  | none => am
  | some (nId, _) => am.modify nId fun info =>
    { info with nLastTry := nTime, nAttempts := info.nAttempts + 1 }

/-- `Connected_`: mark an entry as currently connected to. -/
def connected (addr : CService) (nTime : Int64) : CAddrMan :=
  match am.findService addr with
  | none => am
  | some (nId, info) =>
    if nTime - info.time > 20 * 60 then
      am.modify nId fun info => { info with nTime := nTime.toUInt64.toUInt32 }
    else am

/-- A round of the loops of `Select_`: the drawn bucket and position, and whether the record found
there is returned, which is decided in floating point. -/
structure Round where
  bucket : ℕ
  pos : ℕ
  accepts : CAddrInfo → Bool

/-- The loops of `Select_` over the buckets of one kind.  `some none` is a loop that has not ended
yet. -/
def selectLoop (bucket : ℕ → List ℕ) : List Round → Option (Option CAddress)
  | [] => some none
  | r :: rest =>
    let ids := bucket r.bucket
    if ids = [] then selectLoop bucket rest
    else
      match ids[getRandInt r.pos ids.length]?.bind fun nId => am.mapInfo[nId]? with
      | none => none
      | some info =>
        if r.accepts info then some (some info.toCAddress) else selectLoop bucket rest

/-- `CAddress()`. -/
def noAddress : CAddress :=
  { ip := 0#128, port := 0, nServices := 1, nTime := 100000000, nLastTry := 0 }

/-- `Select_`: choose an address to connect to.  Whether a tried one is chosen is decided in floating
point, from `nTried`, `nNew`, the bias and a random number. -/
def select (useTried : ℤ → ℤ → Bool) (rounds : List Round) : Option (Option CAddress) :=
  if am.vRandom.length = 0 then some (some noAddress)
  else if useTried am.nTried am.nNew then
    am.selectLoop (fun r => am.vvTried (Fin.ofNat ADDRMAN_TRIED_BUCKET_COUNT r)) rounds
  else
    am.selectLoop (fun r => (am.vvNew (Fin.ofNat ADDRMAN_NEW_BUCKET_COUNT r)).sort (· ≤ ·)) rounds

/-- The loop of `GetAddr_`: a random shuffle of the first elements of `vRandom`. -/
def shuffle (rand : ℕ → ℕ) : List ℕ → CAddrMan → Option (List CAddress × CAddrMan)
  | [], am => some ([], am)
  | n :: rest, am =>
    (am.swapRandom n (getRandInt (rand n) (am.vRandom.length - n) + n)).bind fun am1 =>
      (am1.vRandom[n]?.bind fun nId => am1.mapInfo[nId]?).bind fun info =>
        (shuffle rand rest am1).map fun r => (info.toCAddress :: r.1, r.2)

/-- `GetAddr_`: select several addresses at once. -/
def getAddr (rand : ℕ → ℕ) : Option (List CAddress × CAddrMan) :=
  shuffle rand (List.range (min (ADDRMAN_GETADDR_MAX_PCT * am.vRandom.length / 100)
    ADDRMAN_GETADDR_MAX)) am

end CAddrMan

end HyperStake.Net
