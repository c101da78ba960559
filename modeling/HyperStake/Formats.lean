import HyperStake.Chain.Block
import Std.Data.ExtTreeSet.Lemmas

/-!
# Serialisable types

`serialize.h` gives every serialisable type a size, a writer and a reader, by a template for each
container and by `IMPLEMENT_SERIALIZE` for a class.  A `Format` is these three functions of a type,
with the values all of whose lengths `ReadCompactSize` accepts.

A format is lawful if a value that fits is read back from its bytes and if the size is the number of
bytes, as an `unsigned int`.  The templates make lawful formats of lawful formats, so that the types
that are built by them all have lawful formats (`Serialisable.readBack`).
-/

namespace HyperStake

open FieldReader LittleEndian

/-- The three functions of a serialisable type, a new object of the type, and the objects whose
lengths are ones that `ReadCompactSize` accepts. -/
structure Format (α : Type) where
  new : α
  getSerializeSize : α → UInt32
  serialize : α → Bytes
  unserialize : Reader Fault UInt8 α
  Fits : α → Prop := fun _ => True

/-- An object that fits is read back from its bytes, which are as many as its size says. -/
structure Format.Lawful {α : Type} (f : Format α) : Prop where
  size_eq : ∀ a, f.getSerializeSize a = UInt32.ofNat (f.serialize a).length
  consumes : ∀ a, f.Fits a → ∀ old, Consumes f.unserialize (f.serialize a) old a

variable {α β γ δ κ : Type}

/-! ## Fundamental types -/

/-- A fundamental type: its `sizeof`, and its values as the numbers that their memory is. -/
structure Fundamental (α : Type) where
  sizeof : ℕ
  toNat : α → ℕ
  ofNat : ℕ → α
  toNat_lt : ∀ a, toNat a < 256 ^ sizeof
  ofNat_toNat : ∀ a, ofNat (toNat a) = a

namespace Fundamental

/-- `char` and `unsigned char`. -/
def char : Fundamental UInt8 :=
  ⟨1, UInt8.toNat, UInt8.ofNat, UInt8.toNat_lt, fun _ => UInt8.ofNat_toNat⟩

def unsignedShort : Fundamental UInt16 :=
  ⟨2, UInt16.toNat, UInt16.ofNat, UInt16.toNat_lt, fun _ => UInt16.ofNat_toNat⟩

/-- `unsigned int`, and the memory of a `float`. -/
def unsignedInt : Fundamental UInt32 :=
  ⟨4, UInt32.toNat, UInt32.ofNat, UInt32.toNat_lt, fun _ => UInt32.ofNat_toNat⟩

/-- `uint64`, and the memory of a `double`. -/
def uint64 : Fundamental UInt64 :=
  ⟨8, UInt64.toNat, UInt64.ofNat, UInt64.toNat_lt, fun _ => UInt64.ofNat_toNat⟩

def signedChar : Fundamental Int8 where
  sizeof := 1
  toNat a := a.toUInt8.toNat
  ofNat n := (UInt8.ofNat n).toInt8
  toNat_lt a := a.toUInt8.toNat_lt
  ofNat_toNat a := by rw [UInt8.ofNat_toNat, Int8.toInt8_toUInt8]

def signedShort : Fundamental Int16 where
  sizeof := 2
  toNat a := a.toUInt16.toNat
  ofNat n := (UInt16.ofNat n).toInt16
  toNat_lt a := a.toUInt16.toNat_lt
  ofNat_toNat a := by rw [UInt16.ofNat_toNat, Int16.toInt16_toUInt16]

/-- `int`. -/
def signedInt : Fundamental Int32 where
  sizeof := 4
  toNat a := a.toUInt32.toNat
  ofNat n := (UInt32.ofNat n).toInt32
  toNat_lt a := a.toUInt32.toNat_lt
  ofNat_toNat a := by rw [UInt32.ofNat_toNat, Int32.toInt32_toUInt32]

def int64 : Fundamental Int64 where
  sizeof := 8
  toNat a := a.toUInt64.toNat
  ofNat n := (UInt64.ofNat n).toInt64
  toNat_lt a := a.toUInt64.toNat_lt
  ofNat_toNat a := by rw [UInt64.ofNat_toNat, Int64.toInt64_toUInt64]

variable (t : Fundamental α)

/-- The bytes of a value, its memory. -/
def bytes (a : α) : Bytes := leBytes t.sizeof (t.toNat a)

/-- The format of a fundamental type. -/
def format : Format α where
  new := t.ofNat 0
  getSerializeSize _ := UInt32.ofNat t.sizeof
  serialize := t.bytes
  unserialize := unserializeInt t.sizeof t.ofNat

/-- The values that some bytes are the memory of. -/
def ofBytes : ℕ → Bytes → List α
  | 0, _ => []
  | n + 1, b => t.ofNat (leValue (b.take t.sizeof)) :: ofBytes n (b.drop t.sizeof)

/-- The loop of `Unserialize_impl` for a vector of a fundamental type, which reads the values that
are left in batches. -/
def unserializeBatches (n : ℕ) : Reader Fault UInt8 (List α) := fun v vch =>
  if n = 0 then (v, .ok vch)
  else
    let blk := min n (1 + 4999999 / t.sizeof)
    match CDataStream.read (blk * t.sizeof) vch with
    | .error e => (v ++ List.replicate blk (t.ofNat 0), .error e)
    | .ok (b, rest) => unserializeBatches (n - blk) (v ++ t.ofBytes blk b) rest
  termination_by n

/-- `Unserialize_impl` for a vector of a fundamental type. -/
def unserializeVector : Reader Fault UInt8 (List α) := fun _ vch =>
  match readCompactSize vch with
  | .error e => ([], .error e)
  | .ok (nSize, rest) => t.unserializeBatches nSize [] rest

/-- The format of a vector of a fundamental type. -/
def vectorFormat : Format (List α) where
  new := []
  getSerializeSize v := getSizeOfCompactSize v.length + UInt32.ofNat (v.length * t.sizeof)
  serialize v := writeCompactSize v.length ++ v.flatMap t.bytes
  unserialize := t.unserializeVector
  Fits v := v.length ≤ MAX_SIZE

lemma lawful_format : t.format.Lawful where
  size_eq a := by
    change UInt32.ofNat t.sizeof = UInt32.ofNat (t.bytes a).length
    rw [bytes, leBytes_length]
  consumes a _ old := by
    have h : Consumes (unserializeInt t.sizeof t.ofNat) (t.bytes a) old (t.ofNat (t.toNat a)) :=
      consumes_unserializeInt (t.toNat_lt a) old
    rwa [t.ofNat_toNat] at h

lemma length_flatMap_bytes (v : List α) : (v.flatMap t.bytes).length = v.length * t.sizeof := by
  induction v with
  | nil => simp
  | cons a v ih =>
    rw [List.flatMap_cons, List.length_append, ih, bytes, leBytes_length, List.length_cons]
    ring

lemma ofBytes_flatMap (v : List α) : t.ofBytes v.length (v.flatMap t.bytes) = v := by
  induction v with
  | nil => rfl
  | cons a v ih =>
    have hlength : (t.bytes a).length = t.sizeof := leBytes_length _ _
    rw [List.flatMap_cons, List.length_cons, ofBytes, List.take_left' hlength,
      List.drop_left' hlength, ih, bytes, leValue_leBytes_of_lt (t.toNat_lt a), t.ofNat_toNat]

/-- However many batches there are, the values are read one after the other. -/
lemma consumes_unserializeBatches (items v : List α) :
    Consumes (t.unserializeBatches items.length) (items.flatMap t.bytes) v (v ++ items) := by
  intro rest
  induction hn : items.length using Nat.strong_induction_on generalizing items v with
  | _ n ih =>
    subst hn
    rw [unserializeBatches]
    split_ifs with hzero
    · obtain rfl := List.length_eq_zero_iff.mp hzero
      simp
    · -- The first batch, and those that follow.
      set blk := min items.length (1 + 4999999 / t.sizeof) with hblk
      have hle : blk ≤ items.length := min_le_left _ _
      have hpos : 0 < blk := lt_min (Nat.pos_of_ne_zero hzero) (by positivity)
      obtain ⟨batch, items', rfl, hlength⟩ : ∃ batch items', items = batch ++ items' ∧
          batch.length = blk := ⟨items.take blk, items.drop blk, (List.take_append_drop _ _).symm,
        by rw [List.length_take, min_eq_left hle]⟩
      have hread : CDataStream.read (blk * t.sizeof)
          ((batch ++ items').flatMap t.bytes ++ rest)
            = .ok (batch.flatMap t.bytes, items'.flatMap t.bytes ++ rest) := by
        have hbytes := t.length_flatMap_bytes batch
        rw [hlength] at hbytes
        rw [List.flatMap_append, List.append_assoc, ← hbytes]
        exact CDataStream.read_append _ _
      have hbatch : t.ofBytes blk (batch.flatMap t.bytes) = batch := by
        rw [← hlength]
        exact t.ofBytes_flatMap batch
      have hrest : (batch ++ items').length - blk = items'.length := by
        rw [List.length_append, hlength, Nat.add_sub_cancel_left]
      dsimp only
      rw [hread]
      dsimp only
      rw [hbatch, hrest, ih items'.length (by rw [List.length_append]; omega) _ _ rfl,
        List.append_assoc]

lemma lawful_vectorFormat : t.vectorFormat.Lawful where
  size_eq v := by
    change getSizeOfCompactSize v.length + UInt32.ofNat (v.length * t.sizeof)
      = UInt32.ofNat (writeCompactSize v.length ++ v.flatMap t.bytes).length
    rw [List.length_append, length_flatMap_bytes, getSizeOfCompactSize_eq, UInt32.ofNat_add]
  consumes v h old rest := by
    change t.unserializeVector old (writeCompactSize v.length ++ v.flatMap t.bytes ++ rest) = _
    rw [List.append_assoc, unserializeVector, readCompactSize_write h]
    exact t.consumes_unserializeBatches v [] rest

end Fundamental

namespace Format

/-! ## The templates -/

/-- `bool`, which is written as a `char`. -/
def bool : Format Bool where
  new := false
  getSerializeSize _ := 1
  serialize b := leBytes 1 b.toNat
  unserialize := unserializeInt 1 fun n => decide (n ≠ 0)

/-- `CFlatData`: an array of a number of bytes. -/
def flatData (n : ℕ) : Format {b : Bytes // b.length = n} where
  new := ⟨List.replicate n 0, List.length_replicate⟩
  getSerializeSize _ := UInt32.ofNat n
  serialize b := b.1
  unserialize := fun old vch =>
    if h : n ≤ vch.length then (⟨vch.take n, List.length_take_of_le h⟩, .ok (vch.drop n))
    else (old, .error .iosFailure)

def uint256 : Format UInt256 where
  new := 0
  getSerializeSize _ := 32
  serialize := serializeUInt256
  unserialize := unserializeUInt256

/-- `std::string`. -/
def string : Format Bytes where
  new := []
  getSerializeSize := getSerializeSizeString
  serialize := serializeString
  unserialize := unserializeString
  Fits str := str.length ≤ MAX_SIZE

/-- `CScript`, a vector of characters. -/
def script : Format CScript := Fundamental.char.vectorFormat

/-- `std::vector<T>` for a type that is not fundamental. -/
def vector (f : Format α) : Format (List α) where
  new := []
  getSerializeSize := getSerializeSizeVector f.getSerializeSize
  serialize := serializeVector f.serialize
  unserialize := unserializeVector f.unserialize f.new
  Fits v := v.length ≤ MAX_SIZE ∧ ∀ a ∈ v, f.Fits a

/-- `std::pair<K, T>`. -/
def pair (k : Format κ) (f : Format α) : Format (κ × α) where
  new := (k.new, f.new)
  getSerializeSize item := k.getSerializeSize item.1 + f.getSerializeSize item.2
  serialize item := k.serialize item.1 ++ f.serialize item.2
  unserialize := unserializePair k.unserialize f.unserialize
  Fits item := k.Fits item.1 ∧ f.Fits item.2

/-- `boost::tuple<T0, T1, T2>`. -/
def tuple₃ (f₀ : Format α) (f₁ : Format β) (f₂ : Format γ) : Format (α × β × γ) where
  new := (f₀.new, f₁.new, f₂.new)
  getSerializeSize item := 0 + f₀.getSerializeSize item.1 + f₁.getSerializeSize item.2.1 +
    f₂.getSerializeSize item.2.2
  serialize item := f₀.serialize item.1 ++ f₁.serialize item.2.1 ++ f₂.serialize item.2.2
  unserialize :=
    andThen (field (fun item => item.1) (fun x item => (x, item.2)) f₀.unserialize) <|
    andThen (field (fun item => item.2.1) (fun x item => (item.1, x, item.2.2)) f₁.unserialize)
      (field (fun item => item.2.2) (fun x item => (item.1, item.2.1, x)) f₂.unserialize)
  Fits item := f₀.Fits item.1 ∧ f₁.Fits item.2.1 ∧ f₂.Fits item.2.2

/-- `boost::tuple<T0, T1, T2, T3>`. -/
def tuple₄ (f₀ : Format α) (f₁ : Format β) (f₂ : Format γ) (f₃ : Format δ) :
    Format (α × β × γ × δ) where
  new := (f₀.new, f₁.new, f₂.new, f₃.new)
  getSerializeSize item := 0 + f₀.getSerializeSize item.1 + f₁.getSerializeSize item.2.1 +
    f₂.getSerializeSize item.2.2.1 + f₃.getSerializeSize item.2.2.2
  serialize item := f₀.serialize item.1 ++ f₁.serialize item.2.1 ++ f₂.serialize item.2.2.1 ++
    f₃.serialize item.2.2.2
  unserialize :=
    andThen (field (fun item => item.1) (fun x item => (x, item.2)) f₀.unserialize) <|
    andThen (field (fun item => item.2.1) (fun x item => (item.1, x, item.2.2)) f₁.unserialize) <|
    andThen (field (fun item => item.2.2.1) (fun x item => (item.1, item.2.1, x, item.2.2.2))
        f₂.unserialize)
      (field (fun item => item.2.2.2) (fun x item => (item.1, item.2.1, item.2.2.1, x))
        f₃.unserialize)
  Fits item := f₀.Fits item.1 ∧ f₁.Fits item.2.1 ∧ f₂.Fits item.2.2.1 ∧ f₃.Fits item.2.2.2

section Ordered

variable (cmp : κ → κ → Ordering) [Std.TransCmp cmp]

/-- `std::map<K, T>`. -/
def map (k : Format κ) (f : Format α) : Format (Std.ExtTreeMap κ α cmp) where
  new := ∅
  getSerializeSize m := m.toList.foldl (fun nSize mi => nSize + (k.pair f).getSerializeSize mi)
    (getSizeOfCompactSize m.size)
  serialize := serializeMap k.serialize f.serialize
  unserialize := unserializeMap k.unserialize f.unserialize (k.new, f.new)
  Fits m := m.size ≤ MAX_SIZE ∧ ∀ mi ∈ m.toList, k.Fits mi.1 ∧ f.Fits mi.2

/-- The loop of `Unserialize(std::set)` that reads a number of keys and inserts them. -/
def unserializeKeys (k : Format κ) : ℕ → Reader Fault UInt8 (Std.ExtTreeSet κ cmp)
  | 0, m, vch => (m, .ok vch)
  | n + 1, m, vch =>
    match k.unserialize k.new vch with
    | (key, .ok rest) => unserializeKeys k n (m.insert key) rest
    | (_, .error e) => (m, .error e)

/-- `std::set<K>`. -/
def set (k : Format κ) : Format (Std.ExtTreeSet κ cmp) where
  new := ∅
  getSerializeSize m := m.toList.foldl (fun nSize it => nSize + k.getSerializeSize it)
    (getSizeOfCompactSize m.size)
  serialize m := writeCompactSize m.size ++ m.toList.flatMap k.serialize
  unserialize := fun _ vch =>
    match readCompactSize vch with
    | .error e => (∅, .error e)
    | .ok (nSize, rest) => unserializeKeys cmp k nSize ∅ rest
  Fits m := m.size ≤ MAX_SIZE ∧ ∀ it ∈ m.toList, k.Fits it

end Ordered

/-! ## The classes -/

/-- `COutPoint`. -/
def outPoint : Format COutPoint where
  new := {}
  getSerializeSize := COutPoint.getSerializeSize
  serialize := COutPoint.serialize
  unserialize := COutPoint.unserialize

/-- `CTxIn`. -/
def txIn : Format CTxIn where
  new := {}
  getSerializeSize := CTxIn.getSerializeSize
  serialize := CTxIn.serialize
  unserialize := CTxIn.unserialize
  Fits txin := txin.scriptSig.length ≤ MAX_SIZE

/-- `CTxOut`. -/
def txOut : Format CTxOut where
  new := {}
  getSerializeSize := CTxOut.getSerializeSize
  serialize := CTxOut.serialize
  unserialize := CTxOut.unserialize
  Fits txout := txout.scriptPubKey.length ≤ MAX_SIZE

/-- `CTransaction`. -/
def transaction : Format CTransaction where
  new := {}
  getSerializeSize := CTransaction.getSerializeSize
  serialize := CTransaction.serialize
  unserialize := CTransaction.unserialize
  Fits := CTransaction.Fits

/-- The serialisation type for a hash. -/
def SER_GETHASH : UInt32 := 2 ^ 2

/-- The modifier of a serialisation type for a header. -/
def SER_BLOCKHEADERONLY : UInt32 := 2 ^ 17

/-- The part of a block that is serialised in every type. -/
def serializeHeader (block : CBlock) : Bytes :=
  serializeInt32 block.nVersion ++ (serializeUInt256 block.hashPrevBlock ++
    (serializeUInt256 block.hashMerkleRoot ++ (serializeUInt32 block.nTime ++
      (serializeUInt32 block.nBits ++ serializeUInt32 block.nNonce))))

/-- The reader of the part of a block that is serialised in every type. -/
def unserializeHeader : Reader Fault UInt8 CBlock :=
  andThen (field CBlock.nVersion (fun x block => { block with nVersion := x })
    unserializeInt32) <|
  andThen (field CBlock.hashPrevBlock (fun x block => { block with hashPrevBlock := x })
    unserializeUInt256) <|
  andThen (field CBlock.hashMerkleRoot (fun x block => { block with hashMerkleRoot := x })
    unserializeUInt256) <|
  andThen (field CBlock.nTime (fun x block => { block with nTime := x }) unserializeUInt32) <|
  andThen (field CBlock.nBits (fun x block => { block with nBits := x }) unserializeUInt32)
    (field CBlock.nNonce (fun x block => { block with nNonce := x }) unserializeUInt32)

/-- `CBlock` in a serialisation type.  For a hash and for a header the transactions and the signature
are left out, and they are cleared when it is read. -/
def block (nType : UInt32) : Format CBlock :=
  if nType &&& (SER_GETHASH ||| SER_BLOCKHEADERONLY) = 0 then {
    new := {}
    getSerializeSize := fun block => 4 + 32 + 32 + 4 + 4 + 4 +
      getSerializeSizeVector CTransaction.getSerializeSize block.vtx +
      script.getSerializeSize block.vchBlockSig
    serialize := fun block => serializeHeader block ++
      (serializeVector CTransaction.serialize block.vtx ++ script.serialize block.vchBlockSig)
    unserialize :=
      andThen unserializeHeader <|
      andThen (field CBlock.vtx (fun x block => { block with vtx := x })
          transaction.vector.unserialize)
        (field CBlock.vchBlockSig (fun x block => { block with vchBlockSig := x })
          script.unserialize)
    Fits := fun block => transaction.vector.Fits block.vtx ∧ script.Fits block.vchBlockSig }
  else {
    new := {}
    getSerializeSize := fun _ => 4 + 32 + 32 + 4 + 4 + 4
    serialize := serializeHeader
    unserialize := andThen unserializeHeader <|
      update fun block => { block with vtx := [], vchBlockSig := [] }
    Fits := fun block => block.vtx = [] ∧ block.vchBlockSig = [] }

/-! ## Lawful formats -/

lemma lawful_bool : bool.Lawful where
  size_eq b := by simp [bool]
  consumes b _ old := by
    have h : Consumes (unserializeInt 1 fun n => decide (n ≠ 0)) (leBytes 1 b.toNat) old
        (decide (b.toNat ≠ 0)) := consumes_unserializeInt (by cases b <;> decide) old
    have hb : decide (b.toNat ≠ 0) = b := by cases b <;> rfl
    rwa [hb] at h

lemma lawful_flatData (n : ℕ) : (flatData n).Lawful where
  size_eq b := by
    change UInt32.ofNat n = UInt32.ofNat b.1.length
    rw [b.2]
  consumes b _ old rest := by
    obtain ⟨b, rfl⟩ := b
    change (if h : b.length ≤ (b ++ rest).length then _ else _) = _
    rw [dif_pos (by simp)]
    simp [flatData]

lemma lawful_uint256 : uint256.Lawful where
  size_eq a := by simp [uint256, serializeUInt256]
  consumes a _ old := consumes_unserializeUInt256 a old

lemma lawful_string : string.Lawful where
  size_eq := getSerializeSizeString_eq
  consumes _ h old := consumes_unserializeString h old

variable {f : Format α}

lemma lawful_vector (hf : f.Lawful) : f.vector.Lawful where
  size_eq := getSerializeSizeVector_eq hf.size_eq
  consumes _ h old :=
    consumes_unserializeVector h.1 (fun a ha => hf.consumes a (h.2 a ha) _) old

variable {k : Format κ}

lemma lawful_pair (hk : k.Lawful) (hf : f.Lawful) :
    (k.pair f).Lawful where
  size_eq item := by
    change k.getSerializeSize item.1 + f.getSerializeSize item.2
      = UInt32.ofNat (k.serialize item.1 ++ f.serialize item.2).length
    rw [hk.size_eq, hf.size_eq, List.length_append, UInt32.ofNat_add]
  consumes item h old :=
    .next (hk.consumes item.1 h.1 _) (.field (hf.consumes item.2 h.2 _))

lemma lawful_tuple₃ {f₀ : Format α} {f₁ : Format β} {f₂ : Format γ} (h₀ : f₀.Lawful)
    (h₁ : f₁.Lawful) (h₂ : f₂.Lawful) : (tuple₃ f₀ f₁ f₂).Lawful where
  size_eq item := by
    simp only [tuple₃, h₀.size_eq, h₁.size_eq, h₂.size_eq, List.length_append, UInt32.ofNat_add,
      zero_add]
  consumes item h old := by
    simp only [tuple₃, List.append_assoc]
    refine .next (h₀.consumes _ h.1 _) ?_
    exact .next (h₁.consumes _ h.2.1 _) (.field (h₂.consumes _ h.2.2 _))

lemma lawful_tuple₄ {f₀ : Format α} {f₁ : Format β} {f₂ : Format γ} {f₃ : Format δ}
    (h₀ : f₀.Lawful) (h₁ : f₁.Lawful) (h₂ : f₂.Lawful) (h₃ : f₃.Lawful) :
    (tuple₄ f₀ f₁ f₂ f₃).Lawful where
  size_eq item := by
    simp only [tuple₄, h₀.size_eq, h₁.size_eq, h₂.size_eq, h₃.size_eq, List.length_append,
      UInt32.ofNat_add, zero_add]
  consumes item h old := by
    simp only [tuple₄, List.append_assoc]
    refine .next (h₀.consumes _ h.1 _) ?_
    refine .next (h₁.consumes _ h.2.1 _) ?_
    exact .next (h₂.consumes _ h.2.2.1 _) (.field (h₃.consumes _ h.2.2.2 _))

section Ordered

variable {cmp : κ → κ → Ordering} [Std.TransCmp cmp] [Std.LawfulEqCmp cmp]

lemma lawful_map (hk : k.Lawful) (hf : f.Lawful) :
    (map cmp k f).Lawful where
  size_eq m := by
    change m.toList.foldl (fun nSize mi => nSize + (k.pair f).getSerializeSize mi)
      (getSizeOfCompactSize m.size) = _
    rw [foldl_size_eq (lawful_pair hk hf).size_eq, getSizeOfCompactSize_eq, ← UInt32.ofNat_add,
      ← List.length_append]
    rfl
  consumes _ h old :=
    consumes_unserializeMap (fun mi hmi => hk.consumes mi.1 (h.2 mi hmi).1 _)
      (fun mi hmi => hf.consumes mi.2 (h.2 mi hmi).2 _) h.1 old

omit [Std.LawfulEqCmp cmp] in
/-- The loop inserts the keys that were written. -/
lemma consumes_unserializeKeys (hk : k.Lawful) {items : List κ}
    (hitems : ∀ it ∈ items, k.Fits it) (m : Std.ExtTreeSet κ cmp) :
    Consumes (unserializeKeys cmp k items.length) (items.flatMap k.serialize) m
      (items.foldl (fun m it => m.insert it) m) := by
  induction items generalizing m with
  | nil => exact fun rest => rfl
  | cons it items ih =>
    intro rest
    obtain ⟨hfirst, hrest⟩ := List.forall_mem_cons.mp hitems
    have hread := hk.consumes it hfirst k.new (items.flatMap k.serialize ++ rest)
    rw [List.flatMap_cons, List.append_assoc, List.length_cons, unserializeKeys, hread]
    exact ih hrest _ rest

/-- A set is made of its keys. -/
lemma foldl_insert_toList (m : Std.ExtTreeSet κ cmp) :
    m.toList.foldl (fun m it => m.insert it) ∅ = m := by
  have hmem : ∀ (items : List κ) (m : Std.ExtTreeSet κ cmp) (a : κ),
      a ∈ items.foldl (fun m it => m.insert it) m ↔ a ∈ items ∨ a ∈ m := by
    intro items
    induction items with
    | nil => simp
    | cons it items ih =>
      intro m a
      rw [List.foldl_cons, ih, Std.ExtTreeSet.mem_insert, List.mem_cons,
        Std.LawfulEqCmp.compare_eq_iff_eq]
      constructor
      · rintro (h | rfl | h)
        · exact .inl (.inr h)
        · exact .inl (.inl rfl)
        · exact .inr h
      · rintro ((rfl | h) | h)
        · exact .inr (.inl rfl)
        · exact .inl h
        · exact .inr (.inr h)
  refine Std.ExtTreeSet.ext_mem fun a => ?_
  rw [hmem, Std.ExtTreeSet.mem_toList]
  simp

lemma lawful_set (hk : k.Lawful) : (set cmp k).Lawful where
  size_eq m := by
    change m.toList.foldl (fun nSize it => nSize + k.getSerializeSize it)
      (getSizeOfCompactSize m.size) = UInt32.ofNat (writeCompactSize m.size ++ _).length
    rw [foldl_size_eq hk.size_eq, getSizeOfCompactSize_eq, ← UInt32.ofNat_add,
      ← List.length_append]
  consumes m h old rest := by
    have hkeys := consumes_unserializeKeys hk h.2 (∅ : Std.ExtTreeSet κ cmp) rest
    rw [foldl_insert_toList, Std.ExtTreeSet.length_toList] at hkeys
    simp only [Format.set, List.append_assoc, readCompactSize_write h.1]
    exact hkeys

end Ordered

lemma lawful_outPoint : outPoint.Lawful where
  size_eq := COutPoint.getSerializeSize_eq
  consumes o _ old := o.consumes_unserialize old

lemma lawful_txIn : txIn.Lawful where
  size_eq := CTxIn.getSerializeSize_eq
  consumes _ h old := CTxIn.consumes_unserialize h old

lemma lawful_txOut : txOut.Lawful where
  size_eq := CTxOut.getSerializeSize_eq
  consumes _ h old := CTxOut.consumes_unserialize h old

lemma lawful_transaction : transaction.Lawful where
  size_eq := CTransaction.getSerializeSize_eq
  consumes _ h old := CTransaction.Fits.consumes_unserialize h old

/-- The header of a block is read back; the rest of the block is as it was. -/
lemma consumes_unserializeHeader (block old : CBlock) :
    Consumes unserializeHeader (serializeHeader block) old
      { block with vtx := old.vtx, vchBlockSig := old.vchBlockSig } := by
  refine .next (consumes_unserializeInt32 block.nVersion _) ?_
  refine .next (consumes_unserializeUInt256 block.hashPrevBlock _) ?_
  refine .next (consumes_unserializeUInt256 block.hashMerkleRoot _) ?_
  refine .next (consumes_unserializeUInt32 block.nTime _) ?_
  refine .next (consumes_unserializeUInt32 block.nBits _) ?_
  exact .field (consumes_unserializeUInt32 block.nNonce _)

lemma length_serializeHeader (block : CBlock) : (serializeHeader block).length = 80 := by
  simp [serializeHeader, serializeInt32, serializeUInt256, serializeUInt32]

lemma lawful_block (nType : UInt32) : (block nType).Lawful := by
  have hvtx := lawful_vector lawful_transaction
  have hsig : script.Lawful := Fundamental.char.lawful_vectorFormat
  unfold block
  split_ifs with hbody
  · refine ⟨fun block => ?_, fun block h old => ?_⟩
    · dsimp only
      rw [hsig.size_eq, getSerializeSizeVector_eq CTransaction.getSerializeSize_eq,
        List.length_append, length_serializeHeader, List.length_append, UInt32.ofNat_add,
        UInt32.ofNat_add, add_assoc]
      rfl
    · refine (consumes_unserializeHeader block old).andThen ?_
      exact .next (hvtx.consumes block.vtx h.1 _) (.field (hsig.consumes block.vchBlockSig h.2 _))
  · refine ⟨fun block => ?_, fun block h old rest => ?_⟩
    · dsimp only
      rw [length_serializeHeader]
      rfl
    · obtain ⟨hnone, hunsigned⟩ := h
      have hread := (consumes_unserializeHeader block old).andThen
        (Consumes.update (fun block : CBlock => { block with vtx := [], vchBlockSig := [] }) _) rest
      rw [List.append_nil] at hread
      refine hread.trans ?_
      rw [← hnone, ← hunsigned]

end Format

/-! ## All serialisable types -/

open Format

/-- The types that are built from the fundamental ones and the classes by the templates. -/
inductive Serialisable : {α : Type} → Format α → Prop
  | fundamental {α : Type} (t : Fundamental α) : Serialisable t.format
  | bool : Serialisable Format.bool
  | flatData (n : ℕ) : Serialisable (Format.flatData n)
  | uint256 : Serialisable Format.uint256
  | string : Serialisable Format.string
  | script : Serialisable Format.script
  | vectorOfFundamental {α : Type} (t : Fundamental α) : Serialisable t.vectorFormat
  | vector {α : Type} {f : Format α} (hf : Serialisable f) : Serialisable f.vector
  | pair {κ α : Type} {k : Format κ} {f : Format α} (hk : Serialisable k) (hf : Serialisable f) :
    Serialisable (k.pair f)
  | tuple₃ {α β γ : Type} {f₀ : Format α} {f₁ : Format β} {f₂ : Format γ} (h₀ : Serialisable f₀)
    (h₁ : Serialisable f₁) (h₂ : Serialisable f₂) : Serialisable (Format.tuple₃ f₀ f₁ f₂)
  | tuple₄ {α β γ δ : Type} {f₀ : Format α} {f₁ : Format β} {f₂ : Format γ} {f₃ : Format δ}
    (h₀ : Serialisable f₀) (h₁ : Serialisable f₁) (h₂ : Serialisable f₂) (h₃ : Serialisable f₃) :
    Serialisable (Format.tuple₄ f₀ f₁ f₂ f₃)
  | map {κ α : Type} (cmp : κ → κ → Ordering) [Std.TransCmp cmp] [Std.LawfulEqCmp cmp]
    {k : Format κ} {f : Format α} (hk : Serialisable k) (hf : Serialisable f) :
    Serialisable (Format.map cmp k f)
  | set {κ : Type} (cmp : κ → κ → Ordering) [Std.TransCmp cmp] [Std.LawfulEqCmp cmp]
    {k : Format κ} (hk : Serialisable k) : Serialisable (Format.set cmp k)
  | outPoint : Serialisable Format.outPoint
  | txIn : Serialisable Format.txIn
  | txOut : Serialisable Format.txOut
  | transaction : Serialisable Format.transaction
  | block (nType : UInt32) : Serialisable (Format.block nType)

namespace Serialisable

lemma lawful {f : Format α} (h : Serialisable f) : f.Lawful := by
  induction h with
  | fundamental t => exact t.lawful_format
  | bool => exact lawful_bool
  | flatData n => exact lawful_flatData n
  | uint256 => exact lawful_uint256
  | string => exact lawful_string
  | script => exact Fundamental.char.lawful_vectorFormat
  | vectorOfFundamental t => exact t.lawful_vectorFormat
  | vector _ ihf => exact lawful_vector ihf
  | pair _ _ ihk ihf => exact lawful_pair ihk ihf
  | tuple₃ _ _ _ ih₀ ih₁ ih₂ => exact lawful_tuple₃ ih₀ ih₁ ih₂
  | tuple₄ _ _ _ _ ih₀ ih₁ ih₂ ih₃ => exact lawful_tuple₄ ih₀ ih₁ ih₂ ih₃
  | map cmp _ _ ihk ihf => exact lawful_map ihk ihf
  | set cmp _ ihk => exact lawful_set ihk
  | outPoint => exact lawful_outPoint
  | txIn => exact lawful_txIn
  | txOut => exact lawful_txOut
  | transaction => exact lawful_transaction
  | block nType => exact lawful_block nType

/-- A value whose lengths `ReadCompactSize` accepts is read back from its bytes and nothing else, and
if it takes less than 4 GiB then its size is the number of its bytes. -/
theorem readBack {f : Format α} (h : Serialisable f) {a : α} (hfits : f.Fits a) :
    (∀ old, Consumes f.unserialize (f.serialize a) old a) ∧
      ((f.serialize a).length < 2 ^ 32 →
        (f.getSerializeSize a).toNat = (f.serialize a).length) := by
  refine ⟨h.lawful.consumes a hfits, fun hlt => ?_⟩
  rw [h.lawful.size_eq, UInt32.toNat_ofNat_of_lt' hlt]

end Serialisable

/-- A list of pairs of a string and a number. -/
theorem readBack_pairs :
    let f := (Format.string.pair Fundamental.signedInt.format).vector
    let a : List (Bytes × Int32) := [([104, 105], -1), ([], 7)]
    f.serialize a = [2, 2, 104, 105, 255, 255, 255, 255, 0, 7, 0, 0, 0] ∧
      (∀ old, Consumes f.unserialize (f.serialize a) old a) ∧
      ((f.serialize a).length < 2 ^ 32 →
        (f.getSerializeSize a).toNat = (f.serialize a).length) := by
  intro f a
  have hf : Serialisable f := .vector (.pair .string (.fundamental _))
  have hfits : f.Fits a := by
    refine ⟨by decide, ?_⟩
    simp [a, Format.pair, Format.string, MAX_SIZE, Fundamental.format]
  exact ⟨by decide, hf.readBack hfits⟩

/-- A vector of 129 strings of 32 MiB takes more than 4 GiB, which is no `unsigned int`. -/
theorem not_readBack :
    ¬ ∀ (α : Type) (f : Format α), Serialisable f → ∀ a, f.Fits a →
      (∀ old, Consumes f.unserialize (f.serialize a) old a) ∧
        (f.getSerializeSize a).toNat = (f.serialize a).length := by
  intro h
  let str : Bytes := List.replicate MAX_SIZE 0
  have hstr : str.length = MAX_SIZE := List.length_replicate
  have hfits : Format.string.vector.Fits (List.replicate 129 str) := by
    refine ⟨by rw [List.length_replicate]; decide, fun a ha => ?_⟩
    obtain rfl := List.eq_of_mem_replicate ha
    exact hstr.le
  have hsize := (h _ _ (.vector .string) _ hfits).2
  have hlt := (Format.string.vector.getSerializeSize (List.replicate 129 str)).toNat_lt
  have hlength : 129 * MAX_SIZE ≤ (Format.string.vector.serialize (List.replicate 129 str)).length := by
    change _ ≤ (writeCompactSize _ ++ (List.replicate 129 str).flatMap serializeString).length
    have hbytes : MAX_SIZE ≤ (serializeString str).length := by
      rw [serializeString, List.length_append, hstr]
      exact Nat.le_add_left _ _
    rw [List.length_append, List.length_flatMap, List.map_replicate, List.sum_replicate_nat]
    omega
  have hmax : 129 * MAX_SIZE ≥ 2 ^ 32 := by decide
  omega

end HyperStake
