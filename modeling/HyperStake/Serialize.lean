import Mathlib.Data.UInt
import HyperStake.Basic
import HyperStake.Library.FieldReader
import HyperStake.Library.LittleEndian
import HyperStake.Library.MapLoop

/-!
# Serialisation of basic types

The part of `serialize.h` that the proposal and transaction formats are made of: fixed-width
integers in the byte order of the host (little endian), the `CompactSize` length prefix, strings
and vectors.  `IMPLEMENT_SERIALIZE` gives a type three functions, `GetSerializeSize`, `Serialize`
and `Unserialize`; sizes are computed in `unsigned int` arithmetic and wrap around with it.

A stream is the list of its unread bytes.  `Unserialize` is a `FieldReader.Reader`: what it does to
the object it fills is kept even when the stream runs out in the middle.
-/

namespace HyperStake

open FieldReader LittleEndian

/-- The largest length that `ReadCompactSize` accepts. -/
def MAX_SIZE : ℕ := 0x02000000

/-- `CDataStream::read`: take `nSize` bytes off the front of the stream, or throw. -/
def CDataStream.read (nSize : ℕ) (vch : Bytes) : Except Fault (Bytes × Bytes) :=
  if nSize ≤ vch.length then .ok (vch.take nSize, vch.drop nSize) else .error .iosFailure

/-- Reading exactly the bytes at the front of a stream. -/
lemma CDataStream.read_append (w rest : Bytes) :
    CDataStream.read w.length (w ++ rest) = .ok (w, rest) := by
  simp [CDataStream.read]

/-! ## Integers -/

/-- Read an integer of `nBytes` bytes, made from its value by `ofNat`. -/
def unserializeInt {α : Type} (nBytes : ℕ) (ofNat : ℕ → α) : Reader Fault UInt8 α := fun a vch =>
  match CDataStream.read nBytes vch with
  | .ok (b, rest) => (ofNat (leValue b), .ok rest)
  | .error e => (a, .error e)

variable {α : Type} {nSize : ℕ}

/-- The bytes of an integer are read back as that integer. -/
lemma consumes_unserializeInt {nBytes n : ℕ} {ofNat : ℕ → α} (h : n < 256 ^ nBytes) (a : α) :
    Consumes (unserializeInt nBytes ofNat) (leBytes nBytes n) a (ofNat n) := by
  intro rest
  have hread : CDataStream.read nBytes (leBytes nBytes n ++ rest)
      = .ok (leBytes nBytes n, rest) := by
    have := CDataStream.read_append (leBytes nBytes n) rest
    rwa [leBytes_length] at this
  rw [unserializeInt, hread]
  simp only [leValue_leBytes_of_lt h]

/-- `Serialize(unsigned char)`. -/
def serializeUInt8 (a : UInt8) : Bytes := leBytes 1 a.toNat

/-- `Unserialize(unsigned char)`. -/
def unserializeUInt8 : Reader Fault UInt8 UInt8 := unserializeInt 1 UInt8.ofNat

/-- `Serialize(unsigned int)`. -/
def serializeUInt32 (a : UInt32) : Bytes := leBytes 4 a.toNat

/-- `Unserialize(unsigned int)`. -/
def unserializeUInt32 : Reader Fault UInt8 UInt32 := unserializeInt 4 UInt32.ofNat

/-- `Serialize(int)`: the two's complement representation. -/
def serializeInt32 (a : Int32) : Bytes := leBytes 4 a.toUInt32.toNat

/-- `Unserialize(int)`. -/
def unserializeInt32 : Reader Fault UInt8 Int32 :=
  unserializeInt 4 fun n => (UInt32.ofNat n).toInt32

/-- `Serialize(int64)`: the two's complement representation. -/
def serializeInt64 (a : Int64) : Bytes := leBytes 8 a.toUInt64.toNat

def unserializeInt64 : Reader Fault UInt8 Int64 :=
  unserializeInt 8 fun n => (UInt64.ofNat n).toInt64

def serializeUInt64 (a : UInt64) : Bytes := leBytes 8 a.toNat

def unserializeUInt64 : Reader Fault UInt8 UInt64 := unserializeInt 8 UInt64.ofNat

/-- `uint256::Serialize`: the flat memory of the number. -/
def serializeUInt256 (a : UInt256) : Bytes := leBytes 32 a.toNat

/-- `uint256::Unserialize`. -/
def unserializeUInt256 : Reader Fault UInt8 UInt256 := unserializeInt 32 (BitVec.ofNat 256)

/-- The bytes of an `unsigned char` are read back. -/
lemma consumes_unserializeUInt8 (a old : UInt8) :
    Consumes unserializeUInt8 (serializeUInt8 a) old a := by
  have h : Consumes unserializeUInt8 (serializeUInt8 a) old (UInt8.ofNat a.toNat) :=
    consumes_unserializeInt a.toNat_lt old
  rwa [UInt8.ofNat_toNat] at h

/-- The bytes of an `unsigned int` are read back. -/
lemma consumes_unserializeUInt32 (a old : UInt32) :
    Consumes unserializeUInt32 (serializeUInt32 a) old a := by
  have h : Consumes unserializeUInt32 (serializeUInt32 a) old (UInt32.ofNat a.toNat) :=
    consumes_unserializeInt a.toNat_lt old
  rwa [UInt32.ofNat_toNat] at h

/-- The bytes of an `int` are read back. -/
lemma consumes_unserializeInt32 (a old : Int32) :
    Consumes unserializeInt32 (serializeInt32 a) old a := by
  have h : Consumes unserializeInt32 (serializeInt32 a) old
      (UInt32.ofNat a.toUInt32.toNat).toInt32 :=
    consumes_unserializeInt a.toUInt32.toNat_lt old
  rwa [UInt32.ofNat_toNat, Int32.toInt32_toUInt32] at h

/-- The bytes of an `int64` are read back. -/
lemma consumes_unserializeInt64 (a old : Int64) :
    Consumes unserializeInt64 (serializeInt64 a) old a := by
  have h : Consumes unserializeInt64 (serializeInt64 a) old
      (UInt64.ofNat a.toUInt64.toNat).toInt64 :=
    consumes_unserializeInt a.toUInt64.toNat_lt old
  rwa [UInt64.ofNat_toNat, Int64.toInt64_toUInt64] at h

/-- The bytes of a `uint64` are read back. -/
lemma consumes_unserializeUInt64 (a old : UInt64) :
    Consumes unserializeUInt64 (serializeUInt64 a) old a := by
  have h : Consumes unserializeUInt64 (serializeUInt64 a) old (UInt64.ofNat a.toNat) :=
    consumes_unserializeInt a.toNat_lt old
  rwa [UInt64.ofNat_toNat] at h

/-- The bytes of a `uint256` are read back. -/
lemma consumes_unserializeUInt256 (a old : UInt256) :
    Consumes unserializeUInt256 (serializeUInt256 a) old a := by
  have h : Consumes unserializeUInt256 (serializeUInt256 a) old (BitVec.ofNat 256 a.toNat) :=
    consumes_unserializeInt (a.isLt.trans_eq (by norm_num)) old
  rwa [BitVec.ofNat_toNat, BitVec.setWidth_eq] at h

/-! ## Compact sizes -/

def getSizeOfCompactSize (nSize : ℕ) : UInt32 :=
  if nSize < 253 then 1
  else if nSize ≤ 0xffff then 1 + 2
  else if nSize ≤ 0xffffffff then 1 + 4
  else 1 + 8

def writeCompactSize (nSize : ℕ) : Bytes :=
  if nSize < 253 then leBytes 1 nSize
  else if nSize ≤ 0xffff then leBytes 1 253 ++ leBytes 2 nSize
  else if nSize ≤ 0xffffffff then leBytes 1 254 ++ leBytes 4 nSize
  else leBytes 1 255 ++ leBytes 8 nSize

/-- `ReadCompactSize`: the length and the rest of the stream. -/
def readCompactSize (vch : Bytes) : Except Fault (ℕ × Bytes) := do
  let (chSize, rest) ← CDataStream.read 1 vch
  let (nSizeRet, rest) ←
    if leValue chSize < 253 then .ok (leValue chSize, rest)
    else if leValue chSize = 253 then (CDataStream.read 2 rest).map fun r => (leValue r.1, r.2)
    else if leValue chSize = 254 then (CDataStream.read 4 rest).map fun r => (leValue r.1, r.2)
    else (CDataStream.read 8 rest).map fun r => (leValue r.1, r.2)
  if nSizeRet > MAX_SIZE then .error .iosFailure
  return (nSizeRet, rest)

/-- A length below the one-byte limit is written on one byte. -/
lemma writeCompactSize_of_lt (h : nSize < 253) :
    writeCompactSize nSize = leBytes 1 nSize := if_pos h

/-- The compact size of a length takes the number of bytes that `GetSizeOfCompactSize` says. -/
lemma getSizeOfCompactSize_eq (nSize : ℕ) :
    getSizeOfCompactSize nSize = UInt32.ofNat (writeCompactSize nSize).length := by
  unfold getSizeOfCompactSize writeCompactSize
  split_ifs <;> simp

/-- A length that `ReadCompactSize` accepts is read back. -/
lemma readCompactSize_write (h : nSize ≤ MAX_SIZE) (rest : Bytes) :
    readCompactSize (writeCompactSize nSize ++ rest) = .ok (nSize, rest) := by
  have hmax : ¬ nSize > MAX_SIZE := by omega
  have hbound : MAX_SIZE < 256 ^ 4 := by decide
  have hread : ∀ (k : ℕ) (rest : Bytes),
      CDataStream.read k (leBytes k nSize ++ rest) = .ok (leBytes k nSize, rest) := by
    intro k rest
    have := CDataStream.read_append (leBytes k nSize) rest
    rwa [leBytes_length] at this
  -- the first byte says on how many bytes the length follows
  have hmark : ∀ (ch : ℕ) (rest : Bytes),
      CDataStream.read 1 (leBytes 1 ch ++ rest) = .ok (leBytes 1 ch, rest) := fun ch rest =>
    CDataStream.read_append (leBytes 1 ch) rest
  rw [writeCompactSize, readCompactSize]
  split_ifs with h1 h2 h3
  · have hvalue : leValue (leBytes 1 nSize) = nSize := leValue_leBytes_of_lt (by omega)
    rw [hmark]
    simp [hvalue, h1, hmax, bind, Except.bind, pure, Except.pure]
  · have hvalue : leValue (leBytes 2 nSize) = nSize := leValue_leBytes_of_lt (by omega)
    have hch : leValue (leBytes 1 253) = 253 := by decide
    rw [List.append_assoc, hmark]
    simp [hch, hread, hvalue, hmax, bind, Except.bind, pure, Except.pure, Except.map]
  · have hvalue : leValue (leBytes 4 nSize) = nSize := leValue_leBytes_of_lt (by omega)
    have hch : leValue (leBytes 1 254) = 254 := by decide
    rw [List.append_assoc, hmark]
    simp [hch, hread, hvalue, hmax, bind, Except.bind, pure, Except.pure, Except.map]
  · omega

/-- A length that is read is one that `ReadCompactSize` accepts. -/
lemma readCompactSize_le {vch rest : Bytes} (h : readCompactSize vch = .ok (nSize, rest)) :
    nSize ≤ MAX_SIZE := by
  have hcheck : ∀ r : Except Fault (ℕ × Bytes),
      (do
        let (nSizeRet, rest) ← r
        if nSizeRet > MAX_SIZE then .error .iosFailure
        return (nSizeRet, rest)) = Except.ok (nSize, rest) → nSize ≤ MAX_SIZE := by
    intro r hr
    rcases r with e | ⟨nSizeRet, rest'⟩
    · cases hr
    · by_cases hmax : nSizeRet > MAX_SIZE
      · simp [hmax, bind, Except.bind] at hr
      · simp only [hmax, bind, Except.bind, pure, Except.pure, if_false, Except.ok.injEq,
          Prod.mk.injEq] at hr
        omega
  rw [readCompactSize] at h
  cases hread : CDataStream.read 1 vch with
  | error e => 
    rw [hread] at h
    cases h
  | ok r =>
    simp only [hread, Except.bind, bind] at h
    -- however many bytes the length is on
    by_cases h1 : leValue r.1 < 253
    · rw [if_pos h1] at h
      exact hcheck (.ok (leValue r.1, r.2)) h
    by_cases h2 : leValue r.1 = 253
    · rw [if_neg h1, if_pos h2] at h
      exact hcheck _ h
    by_cases h3 : leValue r.1 = 254
    · rw [if_neg h1, if_neg h2, if_pos h3] at h
      exact hcheck _ h
    · rw [if_neg h1, if_neg h2, if_neg h3] at h
      exact hcheck _ h

/-! ## Strings, vectors and maps -/

/-- `Serialize(std::string)`, and of a vector of bytes. -/
def serializeString (str : Bytes) : Bytes := writeCompactSize str.length ++ str

/-- `GetSerializeSize(std::string)`, and of a vector of bytes. -/
def getSerializeSizeString (str : Bytes) : UInt32 :=
  getSizeOfCompactSize str.length + UInt32.ofNat str.length

/-- `Unserialize(std::string)`: the string is resized before its bytes are read. -/
def unserializeString : Reader Fault UInt8 Bytes := fun str vch =>
  match readCompactSize vch with
  | .error e => (str, .error e)
  | .ok (nSize, rest) =>
    if nSize = 0 then ([], .ok rest)
    else match CDataStream.read nSize rest with
      | .ok (b, rest) => (b, .ok rest)
      | .error e => (str.takeD nSize 0, .error e)

/-- The bytes of a string are as many as its `GetSerializeSize` says. -/
lemma getSerializeSizeString_eq (str : Bytes) :
    getSerializeSizeString str = UInt32.ofNat (serializeString str).length := by
  rw [getSerializeSizeString, serializeString, getSizeOfCompactSize_eq, List.length_append,
    UInt32.ofNat_add]

/-- A string is read back, if its length is one that `ReadCompactSize` accepts. -/
lemma consumes_unserializeString {str : Bytes} (h : str.length ≤ MAX_SIZE) (old : Bytes) :
    Consumes unserializeString (serializeString str) old str := by
  intro rest
  have hsize : readCompactSize (writeCompactSize str.length ++ (str ++ rest))
      = .ok (str.length, str ++ rest) := readCompactSize_write h (str ++ rest)
  rw [serializeString, List.append_assoc, unserializeString, hsize]
  by_cases h0 : str.length = 0
  · have hnil : str = [] := List.length_eq_zero_iff.mp h0
    simp [hnil]
  · simp only [h0, if_false, CDataStream.read_append]

/-- A string that is read has a length that `ReadCompactSize` accepts. -/
lemma unserializeString_length_le {old str vch rest : Bytes}
    (h : unserializeString old vch = (str, .ok rest)) : str.length ≤ MAX_SIZE := by
  rw [unserializeString] at h
  split at h
  · cases h
  · rename_i nSize rest' hsize
    split_ifs at h with h0
    · cases h
      exact Nat.zero_le _
    · split at h
      · rename_i b rest'' hread
        cases h
        rw [CDataStream.read] at hread
        split_ifs at hread
        cases hread
        exact (List.length_take_le _ _).trans (readCompactSize_le hsize)
      · cases h

/-- `Serialize(std::vector<T>)`, given the `Serialize` of the elements. -/
def serializeVector {α : Type} (serialize : α → Bytes) (v : List α) : Bytes :=
  writeCompactSize v.length ++ v.flatMap serialize

/-- `GetSerializeSize(std::vector<T>)`, given the one of the elements. -/
def getSerializeSizeVector {α : Type} (size : α → UInt32) (v : List α) : UInt32 :=
  v.foldl (fun nSize vi => nSize + size vi) (getSizeOfCompactSize v.length)

variable {serialize : α → Bytes}

/-- The sizes of elements add up to the number of their bytes. -/
lemma foldl_size_eq {size : α → UInt32}
    (hsize : ∀ a, size a = UInt32.ofNat (serialize a).length) (l : List α) (acc : UInt32) :
    l.foldl (fun nSize vi => nSize + size vi) acc
      = acc + UInt32.ofNat (l.flatMap serialize).length := by
  induction l generalizing acc with
  | nil => simp
  | cons a l ih =>
    rw [List.foldl_cons, ih, hsize, List.flatMap_cons, List.length_append, UInt32.ofNat_add,
      add_assoc]

/-- The bytes of a vector are as many as its `GetSerializeSize` says, if those of its elements
are. -/
lemma getSerializeSizeVector_eq {size : α → UInt32}
    (hsize : ∀ a, size a = UInt32.ofNat (serialize a).length) (v : List α) :
    getSerializeSizeVector size v = UInt32.ofNat (serializeVector serialize v).length := by
  rw [getSerializeSizeVector, foldl_size_eq hsize, getSizeOfCompactSize_eq, serializeVector, List.length_append,
    UInt32.ofNat_add]

/-- The loop of `Unserialize(std::vector<T>)` that reads a number of elements, each into a new one,
after those that have been read.  The program makes room in steps, and leaves the new elements that
it has made room for when the stream runs out. -/
def unserializeElements {α : Type} (element : Reader Fault UInt8 α) (new : α) :
    ℕ → Reader Fault UInt8 (List α)
  | 0, v, vch => (v, .ok vch)
  | n + 1, v, vch =>
    match element new vch with
    | (a, .ok rest) => unserializeElements element new n (v ++ [a]) rest
    | (a, .error e) => (v ++ [a], .error e)

/-- `Unserialize(std::vector<T>)`, given the reader of the elements and a new element. -/
def unserializeVector {α : Type} (element : Reader Fault UInt8 α) (new : α) :
    Reader Fault UInt8 (List α) := fun _ vch =>
  match readCompactSize vch with
  | .error e => ([], .error e)
  | .ok (nSize, rest) => unserializeElements element new nSize [] rest

/-- The loop appends the elements that were written. -/
lemma consumes_unserializeElements {element : Reader Fault UInt8 α} {new : α} {items : List α}
    (helement : ∀ a ∈ items, Consumes element (serialize a) new a) (v : List α) :
    Consumes (unserializeElements element new items.length) (items.flatMap serialize) v
      (v ++ items) := by
  induction items generalizing v with
  | nil =>
    intro rest
    rw [List.append_nil]
    rfl
  | cons a items ih =>
    intro rest
    obtain ⟨ha, hitems⟩ := List.forall_mem_cons.mp helement
    rw [List.flatMap_cons, List.append_assoc, List.length_cons, unserializeElements, ha]
    dsimp only
    rw [ih hitems, List.append_assoc, List.singleton_append]

/-- A vector is read back, if its length is one that `ReadCompactSize` accepts. -/
lemma consumes_unserializeVector {element : Reader Fault UInt8 α} {new : α} {v : List α}
    (hlength : v.length ≤ MAX_SIZE)
    (helement : ∀ a ∈ v, Consumes element (serialize a) new a) (old : List α) :
    Consumes (unserializeVector element new) (serializeVector serialize v) old v := by
  intro rest
  rw [serializeVector, List.append_assoc, unserializeVector, readCompactSize_write hlength]
  exact consumes_unserializeElements helement [] rest

/-- A vector has no more elements than bytes, if every element has one. -/
lemma length_le_length_flatMap (hpos : ∀ a, 0 < (serialize a).length)
    (v : List α) : v.length ≤ (v.flatMap serialize).length := by
  induction v with
  | nil => exact le_rfl
  | cons a v ih =>
    have hfirst := hpos a
    rw [List.flatMap_cons, List.length_append, List.length_cons]
    omega

/-- An element has no more bytes than the vector. -/
lemma length_serialize_le {v : List α} {a : α} (ha : a ∈ v) :
    (serialize a).length ≤ (v.flatMap serialize).length := by
  rw [List.flatMap_def]
  exact (List.sublist_flatten_of_mem (List.mem_map_of_mem ha)).length_le

section Map

variable {κ β : Type} {cmp : κ → κ → Ordering} [Std.TransCmp cmp]

/-- `Serialize(std::map)`, given the `Serialize` of the keys and of the values. -/
def serializeMap (serializeKey : κ → Bytes) (serializeValue : β → Bytes)
    (m : Std.ExtTreeMap κ β cmp) : Bytes :=
  writeCompactSize m.size ++
    m.toList.flatMap fun mi => serializeKey mi.1 ++ serializeValue mi.2

/-- The reader of an item of a map. -/
def unserializePair (key : Reader Fault UInt8 κ) (value : Reader Fault UInt8 β) :
    Reader Fault UInt8 (κ × β) :=
  andThen (field Prod.fst (fun k item => (k, item.2)) key)
    (field Prod.snd (fun v item => (item.1, v)) value)

/-- The loop of `Unserialize(std::map)` that reads a number of items, each into a new item, and
inserts those with a new key. -/
def unserializeItems (key : Reader Fault UInt8 κ) (value : Reader Fault UInt8 β) (new : κ × β) :
    ℕ → Reader Fault UInt8 (Std.ExtTreeMap κ β cmp)
  | 0, m, vch => (m, .ok vch)
  | n + 1, m, vch =>
    match unserializePair key value new vch with
    | (item, .ok rest) => unserializeItems key value new n (m.insertIfNew item.1 item.2) rest
    | (_, .error e) => (m, .error e)

/-- `Unserialize(std::map)`, given the readers of the keys and of the values, and a new item. -/
def unserializeMap (key : Reader Fault UInt8 κ) (value : Reader Fault UInt8 β) (new : κ × β) :
    Reader Fault UInt8 (Std.ExtTreeMap κ β cmp) := fun _ vch =>
  match readCompactSize vch with
  | .error e => (∅, .error e)
  | .ok (nSize, rest) => unserializeItems key value new nSize ∅ rest

/-- The loop inserts the items that were written. -/
lemma consumes_unserializeItems {key : Reader Fault UInt8 κ} {value : Reader Fault UInt8 β}
    {new : κ × β} {serializeKey : κ → Bytes} {serializeValue : β → Bytes}
    {items : List (κ × β)} (hkey : ∀ mi ∈ items, Consumes key (serializeKey mi.1) new.1 mi.1)
    (hvalue : ∀ mi ∈ items, Consumes value (serializeValue mi.2) new.2 mi.2)
    (m : Std.ExtTreeMap κ β cmp) :
    Consumes (unserializeItems key value new items.length)
      (items.flatMap fun mi => serializeKey mi.1 ++ serializeValue mi.2) m
      (items.foldl (fun m mi => m.insertIfNew mi.1 mi.2) m) := by
  induction items generalizing m with
  | nil => exact fun rest => rfl
  | cons item items ih =>
    intro rest
    obtain ⟨hkeyFirst, hkeys⟩ := List.forall_mem_cons.mp hkey
    obtain ⟨hvalueFirst, hvalues⟩ := List.forall_mem_cons.mp hvalue
    have hitem : Consumes (unserializePair key value)
        (serializeKey item.1 ++ serializeValue item.2) new item :=
      .next hkeyFirst (.field hvalueFirst)
    rw [List.flatMap_cons, List.append_assoc, List.length_cons, unserializeItems, hitem]
    exact ih hkeys hvalues _ rest

/-- A map is read back, if its size is one that `ReadCompactSize` accepts. -/
lemma consumes_unserializeMap [Std.LawfulEqCmp cmp] {key : Reader Fault UInt8 κ}
    {value : Reader Fault UInt8 β} {new : κ × β} {serializeKey : κ → Bytes}
    {serializeValue : β → Bytes} {m : Std.ExtTreeMap κ β cmp}
    (hkey : ∀ mi ∈ m.toList, Consumes key (serializeKey mi.1) new.1 mi.1)
    (hvalue : ∀ mi ∈ m.toList, Consumes value (serializeValue mi.2) new.2 mi.2)
    (h : m.size ≤ MAX_SIZE) (old : Std.ExtTreeMap κ β cmp) :
    Consumes (unserializeMap key value new) (serializeMap serializeKey serializeValue m) old m := by
  intro rest
  have hitems := consumes_unserializeItems hkey hvalue (∅ : Std.ExtTreeMap κ β cmp) rest
  rw [MapLoop.foldl_insertIfNew_toList, Std.ExtTreeMap.length_toList] at hitems
  rw [serializeMap, List.append_assoc, unserializeMap, readCompactSize_write h]
  exact hitems

end Map

end HyperStake
