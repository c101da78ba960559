import HyperStake.Formats
import HyperStake.Net.AddrCheck

/-!
# The file format of the address manager

`Serialize` and `Unserialize` of `CAddress`, `CAddrInfo` and `CAddrMan`.  The manager writes its new
entries, its tried entries and the "new" buckets; the numbers of the entries, their positions, their
references, the index and the "tried" buckets are made anew when it is read.

The manager passes on its own format number, a byte that is zero, as the version of the stream.
-/

namespace HyperStake.Net

open FieldReader LittleEndian

def SER_DISK : UInt32 := 2 ^ 1

/-- `CADDR_TIME_VERSION`: the version from which messages contain the time of an address. -/
def CADDR_TIME_VERSION : Int32 := 31402

/-! ## Addresses -/

/-- The address that sixteen bytes are. -/
def CNetAddr.ofBytes (b : Bytes) : CNetAddr := BitVec.ofNat 128 (leValue b.reverse)

/-- `CNetAddr::Unserialize`: the sixteen bytes. -/
def CNetAddr.unserialize : Reader Fault UInt8 CNetAddr := fun ip vch =>
  match CDataStream.read 16 vch with
  | .ok (b, rest) => (CNetAddr.ofBytes b, .ok rest)
  | .error e => (ip, .error e)

variable (ip : CNetAddr)

lemma CNetAddr.bytes_eq : CNetAddr.bytes ip = (leBytes 16 ip.toNat).reverse := by
  rw [leBytes_eq_map]
  rfl

lemma CNetAddr.length_bytes : (CNetAddr.bytes ip).length = 16 := by
  rw [CNetAddr.bytes, List.length_map, List.length_range]

lemma CNetAddr.ofBytes_bytes : CNetAddr.ofBytes (CNetAddr.bytes ip) = ip := by
  rw [CNetAddr.ofBytes, CNetAddr.bytes_eq, List.reverse_reverse,
    leValue_leBytes_of_lt (ip.isLt.trans_eq (by norm_num)), BitVec.ofNat_toNat,
    BitVec.setWidth_eq]

lemma CNetAddr.consumes_unserialize (ip old : CNetAddr) :
    Consumes CNetAddr.unserialize (CNetAddr.bytes ip) old ip := by
  intro rest
  have hread := CDataStream.read_append (CNetAddr.bytes ip) rest
  rw [CNetAddr.length_bytes] at hread
  rw [CNetAddr.unserialize, hread]
  dsimp only
  rw [CNetAddr.ofBytes_bytes]

/-- `htons` and `ntohs`, on a host with the low byte first. -/
def htons (port : UInt16) : UInt16 :=
  UInt16.ofNat (port.toNat % 256 * 256 + port.toNat / 256)

lemma htons_htons (port : UInt16) : htons (htons port) = port := by
  have hlt : port.toNat < 65536 := port.toNat_lt
  have hswap : (htons port).toNat = port.toNat % 256 * 256 + port.toNat / 256 := by
    rw [htons, UInt16.toNat_ofNat']
    exact Nat.mod_eq_of_lt (by omega)
  have hlow : (htons port).toNat % 256 = port.toNat / 256 := by omega
  have hhigh : (htons port).toNat / 256 = port.toNat % 256 := by omega
  rw [htons, hlow, hhigh, ← UInt16.toNat_inj, UInt16.toNat_ofNat',
    Nat.mod_eq_of_lt (by omega)]
  omega

def CService.serialize (addr : CService) : Bytes :=
  CNetAddr.bytes addr.ip ++ Fundamental.unsignedShort.bytes (htons addr.port)

def CService.unserialize : Reader Fault UInt8 CService :=
  andThen (field CService.ip (fun ip addr => { addr with ip := ip }) CNetAddr.unserialize)
    (field (fun addr => htons addr.port) (fun portN addr => { addr with port := htons portN })
      Fundamental.unsignedShort.format.unserialize)

lemma CService.consumes_unserialize (addr old : CService) :
    Consumes CService.unserialize addr.serialize old addr := by
  have hport : Consumes Fundamental.unsignedShort.format.unserialize
      (Fundamental.unsignedShort.bytes (htons addr.port)) (htons old.port) (htons addr.port) :=
    Fundamental.unsignedShort.lawful_format.consumes (htons addr.port) trivial (htons old.port)
  have hip : Consumes (field CService.ip (fun ip addr => { addr with ip := ip })
      CNetAddr.unserialize) (CNetAddr.bytes addr.ip) old { old with ip := addr.ip } :=
    .field (CNetAddr.consumes_unserialize addr.ip old.ip)
  have h : Consumes (field (fun addr : CService => htons addr.port)
      (fun portN addr => { addr with port := htons portN })
      Fundamental.unsignedShort.format.unserialize)
      (Fundamental.unsignedShort.bytes (htons addr.port)) { old with ip := addr.ip }
      { addr with port := htons (htons addr.port) } := .field hport
  rw [htons_htons] at h
  exact hip.andThen h

namespace CAddress

/-- `Init`. -/
def initFields (addr : CAddress) : CAddress :=
  { addr with nServices := 1, nTime := 100000000, nLastTry := 0 }

/-- Is the time of an address written? -/
def hasTime (nType : UInt32) (nVersion : Int32) : Bool :=
  nType &&& SER_DISK ≠ 0 ∨ (nVersion ≥ CADDR_TIME_VERSION ∧ nType &&& Format.SER_GETHASH = 0)

/-- `CAddress::Serialize`. -/
def serialize (nType : UInt32) (nVersion : Int32) (addr : CAddress) : Bytes :=
  (if nType &&& SER_DISK ≠ 0 then serializeInt32 nVersion else []) ++
    ((if hasTime nType nVersion then serializeUInt32 addr.nTime else []) ++
      (serializeUInt64 addr.nServices ++ addr.toCService.serialize))

/-- `CAddress::Unserialize`.  A version is read on disk only, where the time follows whatever it
is. -/
def unserialize (nType : UInt32) (nVersion : Int32) : Reader Fault UInt8 CAddress :=
  andThen (update initFields) <|
  andThen (branch (fun _ => nType &&& SER_DISK ≠ 0) (discard 0 unserializeInt32) (update id)) <|
  andThen (branch (fun _ => hasTime nType nVersion)
    (field CAddress.nTime (fun x addr => { addr with nTime := x }) unserializeUInt32)
    (update id)) <|
  andThen (field CAddress.nServices (fun x addr => { addr with nServices := x }) unserializeUInt64)
    (field CAddress.toCService (fun x addr => { addr with toCService := x }) CService.unserialize)

/-- What is read back of an address: the time of the last attempt is not written, and the time last
seen not always. -/
def reread (nType : UInt32) (nVersion : Int32) (addr : CAddress) : CAddress :=
  { addr with
    nTime := if hasTime nType nVersion then addr.nTime else 100000000
    nLastTry := 0 }

lemma consumes_unserialize (nType : UInt32) (nVersion : Int32) (addr old : CAddress) :
    Consumes (unserialize nType nVersion) (addr.serialize nType nVersion) old
      (addr.reread nType nVersion) := by
  have hversion : Consumes (branch (fun _ : CAddress => decide (nType &&& SER_DISK ≠ 0))
      (discard 0 unserializeInt32) (update id))
      (if nType &&& SER_DISK ≠ 0 then serializeInt32 nVersion else []) old.initFields
      old.initFields := by
    refine Consumes.branch (fun hdisk => ?_) (fun hdisk => ?_)
    · rw [if_pos (of_decide_eq_true hdisk)]
      exact (consumes_unserializeInt32 nVersion 0).discard _
    · rw [if_neg (of_decide_eq_false hdisk)]
      exact Consumes.update id _
  have htime : Consumes (branch (fun _ : CAddress => hasTime nType nVersion)
      (field CAddress.nTime (fun x addr => { addr with nTime := x }) unserializeUInt32)
      (update id))
      (if hasTime nType nVersion then serializeUInt32 addr.nTime else []) old.initFields
      { old.initFields with nTime := (addr.reread nType nVersion).nTime } := by
    refine Consumes.branch (fun htime => ?_) (fun htime => ?_)
    · rw [if_pos htime, reread, if_pos htime]
      exact .field (consumes_unserializeUInt32 addr.nTime _)
    · rw [if_neg (by rw [htime]; exact Bool.false_ne_true), reread,
        if_neg (by rw [htime]; exact Bool.false_ne_true)]
      exact Consumes.update id _
  have hinit : Consumes (update initFields) ([] : Bytes) old old.initFields :=
    Consumes.update (ε := Fault) initFields old
  refine hinit.andThen (hversion.andThen (htime.andThen ?_))
  exact .next (consumes_unserializeUInt64 addr.nServices _)
    (.field (CService.consumes_unserialize addr.toCService _))

end CAddress

namespace CAddrInfo

/-- `CAddrInfo()`. -/
def new : CAddrInfo := ofAddress CAddrMan.noAddress 0

/-- `CAddrInfo::Serialize`. -/
def serialize (nType : UInt32) (nVersion : Int32) (info : CAddrInfo) : Bytes :=
  info.toCAddress.serialize nType nVersion ++ (CNetAddr.bytes info.source ++
    (serializeInt64 info.nLastSuccess ++ serializeInt32 info.nAttempts))

/-- `CAddrInfo::Unserialize`. -/
def unserialize (nType : UInt32) (nVersion : Int32) : Reader Fault UInt8 CAddrInfo :=
  andThen (field CAddrInfo.toCAddress (fun x info => { info with toCAddress := x })
    (CAddress.unserialize nType nVersion)) <|
  andThen (field CAddrInfo.source (fun x info => { info with source := x })
    CNetAddr.unserialize) <|
  andThen (field CAddrInfo.nLastSuccess (fun x info => { info with nLastSuccess := x })
    unserializeInt64)
    (field CAddrInfo.nAttempts (fun x info => { info with nAttempts := x }) unserializeInt32)

/-- What is read back of a record, into a new one: the references, the bucket and the position are
not written. -/
def reread (nType : UInt32) (nVersion : Int32) (info : CAddrInfo) : CAddrInfo :=
  { info with
    toCAddress := info.toCAddress.reread nType nVersion
    nRefCount := 0
    fInTried := false
    nRandomPos := -1 }

lemma consumes_unserialize (nType : UInt32) (nVersion : Int32) (info : CAddrInfo) :
    Consumes (unserialize nType nVersion) (info.serialize nType nVersion) new
      (info.reread nType nVersion) := by
  refine .next (CAddress.consumes_unserialize nType nVersion info.toCAddress _) ?_
  refine .next (CNetAddr.consumes_unserialize info.source _) ?_
  exact .next (consumes_unserializeInt64 info.nLastSuccess _)
    (.field (consumes_unserializeInt32 info.nAttempts _))

end CAddrInfo

/-! ## The manager -/

namespace CAddrMan

/-- The first loop of `Serialize`: the new entries, and the index under which each is written.  It
ends before all entries have been seen when as many have been written as `nNew` says. -/
def writeNew (nType : UInt32) (nNew : ℤ) :
    List (ℕ × CAddrInfo) → Std.ExtTreeMap ℕ ℕ → ℕ → Bytes × Std.ExtTreeMap ℕ ℕ
  | [], mapUnkIds, _ => ([], mapUnkIds)
  | (n, info) :: rest, mapUnkIds, nIds =>
    if nIds = nNew then ([], mapUnkIds)
    else if info.nRefCount ≠ 0 then
      let r := writeNew nType nNew rest (mapUnkIds.insert n nIds) (nIds + 1)
      (info.serialize nType 0 ++ r.1, r.2)
    else writeNew nType nNew rest (mapUnkIds.insert n nIds) nIds

/-- The second loop of `Serialize`: the tried entries, as many as `nTried` says. -/
def writeTried (nType : UInt32) (nTried : ℤ) : List (ℕ × CAddrInfo) → ℕ → Bytes
  | [], _ => []
  | (_, info) :: rest, nIds =>
    if nIds = nTried then []
    else if info.fInTried then info.serialize nType 0 ++ writeTried nType nTried rest (nIds + 1)
    else writeTried nType nTried rest nIds

/-- The third loop of `Serialize`, for a bucket: its size, and the indices of its entries. -/
def writeBucket (mapUnkIds : Std.ExtTreeMap ℕ ℕ) (vNew : Finset ℕ) : Bytes :=
  serializeInt32 (Int32.ofNat vNew.card) ++
    (vNew.sort (· ≤ ·)).flatMap fun n => serializeInt32 (Int32.ofNat (mapUnkIds[n]?.getD 0))

def serialize (nType : UInt32) (am : CAddrMan) : Bytes :=
  let w := writeNew nType am.nNew am.mapInfo.toList ∅ 0
  serializeUInt8 0 ++ (Fundamental.char.vectorFormat.serialize am.nKey ++
    (serializeInt32 (Int32.ofInt am.nNew) ++ (serializeInt32 (Int32.ofInt am.nTried) ++
      (serializeInt32 (Int32.ofNat ADDRMAN_NEW_BUCKET_COUNT) ++ (w.1 ++
        (writeTried nType am.nTried am.mapInfo.toList 0 ++
          (List.finRange ADDRMAN_NEW_BUCKET_COUNT).flatMap fun b =>
            writeBucket w.2 (am.vvNew b)))))))

/-- The manager that is being read, and the variables of `Unserialize`. -/
structure Loading where
  am : CAddrMan
  nVersion : UInt8
  nUBuckets : Int32
  nLost : ℤ

namespace Loading

/-- Change the manager. -/
def map (f : CAddrMan → CAddrMan) (st : Loading) : Loading := { st with am := f st.am }

/-- The version that is passed on. -/
def version (st : Loading) : Int32 := st.nVersion.toUInt32.toInt32

end Loading

/-- The fields in front of the entries. -/
def readHeader : Reader Fault UInt8 Loading :=
  andThen (field Loading.nVersion (fun x st => { st with nVersion := x }) unserializeUInt8) <|
  andThen (field (fun st => st.am.nKey) (fun x => Loading.map fun am => { am with nKey := x })
    Fundamental.char.vectorFormat.unserialize) <|
  andThen (field (fun st => Int32.ofInt st.am.nNew)
    (fun x => Loading.map fun am => { am with nNew := x.toInt }) unserializeInt32) <|
  andThen (field (fun st => Int32.ofInt st.am.nTried)
    (fun x => Loading.map fun am => { am with nTried := x.toInt }) unserializeInt32)
    (field Loading.nUBuckets (fun x st => { st with nUBuckets := x }) unserializeInt32)

/-- The tables are emptied. -/
def clear (am : CAddrMan) : CAddrMan :=
  { am with
    nIdCount := 0
    mapInfo := ∅
    mapAddr := ∅
    vRandom := []
    vvTried := fun _ => []
    vvNew := fun _ => ∅ }

/-- What is done with a new entry that has been read. -/
def enterNew (Hash : Bytes → UInt256) (nUBuckets : Int32) (n : ℕ) (am : CAddrMan) : CAddrMan :=
  let info := am.mapInfo[n]?.getD CAddrInfo.new
  let am1 := { am.modify n fun info => { info with nRandomPos := am.vRandom.length } with
    mapAddr := am.mapAddr.insert info.ip n
    vRandom := am.vRandom ++ [n] }
  if nUBuckets.toInt ≠ ADDRMAN_NEW_BUCKET_COUNT then
    let nUBucket := info.getNewBucket Hash am.nKey info.source
    (am1.setNew nUBucket (insert n (am1.vvNew nUBucket))).modify n fun info =>
      { info with nRefCount := info.nRefCount + 1 }
  else am1

/-- A round of the first loop of `Unserialize`: the record is read where it is in `mapInfo`. -/
def readNew (Hash : Bytes → UInt256) (nType : UInt32) (n : ℕ) : Reader Fault UInt8 Loading :=
  choose fun st => andThen
    (field (fun st => st.am.mapInfo[n]?.getD CAddrInfo.new)
      (fun info => Loading.map fun am => { am with mapInfo := am.mapInfo.insert n info })
      (CAddrInfo.unserialize nType st.version))
    (update (Loading.map (enterNew Hash st.nUBuckets n)))

/-- What is done with a tried entry that has been read, if there is room for it. -/
def enterTried (kb : Fin ADDRMAN_TRIED_BUCKET_COUNT) (info : CAddrInfo) (am : CAddrMan) :
    CAddrMan :=
  { am.setTried kb (am.vvTried kb ++ [am.nIdCount]) with
    mapInfo := am.mapInfo.insert am.nIdCount
      { info with nRandomPos := am.vRandom.length, fInTried := true }
    mapAddr := am.mapAddr.insert info.ip am.nIdCount
    vRandom := am.vRandom ++ [am.nIdCount]
    nIdCount := am.nIdCount + 1 }

/-- What is done with a tried entry that has been read.  The counter of the numbers is an `int`. -/
def placeTried (Hash : Bytes → UInt256) (info : CAddrInfo) : Reader Fault UInt8 Loading :=
  choose fun st =>
    let kb := CAddrInfo.getTriedBucket Hash st.am.nKey info.toCService
    if (st.am.vvTried kb).length < ADDRMAN_TRIED_BUCKET_SIZE then
      if st.am.nIdCount + 1 < 2 ^ 31 then update (Loading.map (enterTried kb info))
      else fail .undefined
    else update fun st => { st with nLost := st.nLost + 1 }

/-- A round of the second loop of `Unserialize`. -/
def readTried (Hash : Bytes → UInt256) (nType : UInt32) : Reader Fault UInt8 Loading :=
  choose fun st =>
    scratch CAddrInfo.new (CAddrInfo.unserialize nType st.version) (placeTried Hash)

/-- What is done with an index in a bucket.  An entry that is not there comes into being. -/
def enterIndex (nUBuckets : Int32) (b : Fin ADDRMAN_NEW_BUCKET_COUNT) (n : ℕ) (am : CAddrMan) :
    CAddrMan :=
  let info := am.mapInfo[n]?.getD CAddrInfo.new
  let am1 := { am with mapInfo := am.mapInfo.insert n info }
  if nUBuckets.toInt = ADDRMAN_NEW_BUCKET_COUNT ∧
      info.nRefCount < ADDRMAN_NEW_BUCKETS_PER_ADDRESS then
    (am1.modify n fun info => { info with nRefCount := info.nRefCount + 1 }).setNew b
      (insert n (am1.vvNew b))
  else am1

/-- What is done with an index that has been read.  Negative numbers of entries are not modelled. -/
def placeIndex (b : Fin ADDRMAN_NEW_BUCKET_COUNT) (nIndex : Int32) : Reader Fault UInt8 Loading :=
  if nIndex.toInt < 0 then fail .undefined
  else update fun st => st.map (enterIndex st.nUBuckets b nIndex.toInt.toNat)

/-- A round of the inner loop of `Unserialize` over the buckets. -/
def readIndex (b : Fin ADDRMAN_NEW_BUCKET_COUNT) : Reader Fault UInt8 Loading :=
  scratch 0 unserializeInt32 (placeIndex b)

/-- A round of the outer loop of `Unserialize` over the buckets. -/
def readBucket (b : ℕ) : Reader Fault UInt8 Loading :=
  if h : b < ADDRMAN_NEW_BUCKET_COUNT then
    scratch 0 unserializeInt32 fun nSize =>
      loop (fun _ => readIndex ⟨b, h⟩) 0 nSize.toInt.toNat
  else fail .undefined

/-- `Unserialize`, with its variables.  Negative numbers of entries are not modelled. -/
def load (Hash : Bytes → UInt256) (nType : UInt32) : Reader Fault UInt8 Loading :=
  andThen readHeader <|
  andThen (update (Loading.map clear)) <|
  andThen (choose fun st => if st.am.nNew < 0 then fail .undefined
    else loop (readNew Hash nType) 0 st.am.nNew.toNat) <|
  andThen (update (Loading.map fun am => { am with nIdCount := am.nNew.toNat })) <|
  andThen (choose fun st => loop (fun _ => readTried Hash nType) 0 st.am.nTried.toNat) <|
  andThen (update fun st => st.map fun am => { am with nTried := am.nTried - st.nLost })
    (choose fun st => loop readBucket 0 st.nUBuckets.toInt.toNat)

def unserialize (Hash : Bytes → UInt256) (nType : UInt32) : Reader Fault UInt8 CAddrMan :=
  fun am vch =>
    let r := load Hash nType { am := am, nVersion := 0, nUBuckets := 0, nLost := 0 } vch
    (r.1.am, r.2)

end CAddrMan

end HyperStake.Net
