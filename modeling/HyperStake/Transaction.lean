import HyperStake.Library.Int64Sum
import HyperStake.Script

/-!
# Transactions

Outpoints, inputs, outputs and transactions with their serialisation and size, the tests for the
two special kinds of transaction, and the sum of the outputs.  A transaction is read back from its
bytes (`CTransaction.consumes_unserialize`).
-/

namespace HyperStake

open FieldReader LittleEndian

/-- An outpoint: a combination of a transaction hash and an index `n` into its outputs. -/
structure COutPoint where
  hash : UInt256 := 0
  n : UInt32 := 0xffffffff
  deriving DecidableEq, Repr

/-- `operator<` of outpoints: by the hash, then by the index. -/
instance : Ord COutPoint where
  compare := compareLex (compareOn COutPoint.hash) (compareOn COutPoint.n)

instance : Std.TransOrd COutPoint :=
  inferInstanceAs (Std.TransCmp (compareLex (compareOn COutPoint.hash) (compareOn COutPoint.n)))

instance : Std.LawfulEqOrd COutPoint where
  eq_of_compare {a b} h := by
    have hlex : compareLex (compareOn COutPoint.hash) (compareOn COutPoint.n) a b = .eq := h
    rw [compareLex_eq_eq] at hlex
    obtain ⟨hhash, hn⟩ := hlex
    cases a
    cases b
    rw [COutPoint.mk.injEq]
    exact ⟨Std.LawfulEqOrd.eq_of_compare hhash, Std.LawfulEqOrd.eq_of_compare hn⟩

/-- The null outpoint refers to no transaction. -/
def COutPoint.isNull (o : COutPoint) : Bool := o.hash == 0 && o.n == 0xffffffff

/-- The flat memory of an outpoint. -/
def COutPoint.serialize (o : COutPoint) : Bytes := leBytes 32 o.hash.toNat ++ serializeUInt32 o.n

/-- The size of the flat memory of an outpoint. -/
def COutPoint.getSerializeSize (_ : COutPoint) : UInt32 := 36

/-- An input of a transaction: the location of the output that it claims, and a signature. -/
structure CTxIn where
  prevout : COutPoint := {}
  scriptSig : CScript := []
  nSequence : UInt32 := 0xffffffff
  deriving DecidableEq, Repr

def CTxIn.serialize (txin : CTxIn) : Bytes :=
  txin.prevout.serialize ++ serializeString txin.scriptSig ++ serializeUInt32 txin.nSequence

def CTxIn.getSerializeSize (txin : CTxIn) : UInt32 :=
  txin.prevout.getSerializeSize + getSerializeSizeString txin.scriptSig + 4

/-- An output of a transaction: an amount and the script that a later input has to satisfy. -/
structure CTxOut where
  nValue : Int64 := -1
  scriptPubKey : CScript := []
  deriving DecidableEq, Repr

/-- An empty output carries no money and no script. -/
def CTxOut.isEmpty (txout : CTxOut) : Bool := txout.nValue == 0 && txout.scriptPubKey.isEmpty

def CTxOut.serialize (txout : CTxOut) : Bytes :=
  serializeInt64 txout.nValue ++ serializeString txout.scriptPubKey

def CTxOut.getSerializeSize (txout : CTxOut) : UInt32 :=
  8 + getSerializeSizeString txout.scriptPubKey

/-- The basic transaction that is broadcast on the network and contained in blocks. -/
structure CTransaction where
  nVersion : Int32 := 1
  nTime : UInt32 := 0
  vin : List CTxIn := []
  vout : List CTxOut := []
  nLockTime : UInt32 := 0
  deriving DecidableEq, Repr

namespace CTransaction

/-- `CTransaction::Serialize`. -/
def serialize (tx : CTransaction) : Bytes :=
  serializeInt32 tx.nVersion ++ serializeUInt32 tx.nTime ++
    serializeVector CTxIn.serialize tx.vin ++ serializeVector CTxOut.serialize tx.vout ++
    serializeUInt32 tx.nLockTime

/-- `CTransaction::GetSerializeSize`. -/
def getSerializeSize (tx : CTransaction) : UInt32 :=
  4 + 4 + getSerializeSizeVector CTxIn.getSerializeSize tx.vin +
    getSerializeSizeVector CTxOut.getSerializeSize tx.vout + 4

/-- `GetHash`: the hash of the serialisation. -/
def getHash (hash : Bytes → UInt256) (tx : CTransaction) : UInt256 := hash tx.serialize

/-- A coinbase has one input, which claims nothing. -/
def isCoinBase (tx : CTransaction) : Bool :=
  match tx.vin with
  | [txin] => txin.prevout.isNull && decide (tx.vout.length ≥ 1)
  | _ => false

/-- The coin stake transaction is marked with the first output empty. -/
def isCoinStake (tx : CTransaction) : Bool :=
  match tx.vin, tx.vout with
  | txin :: _, txout :: _ :: _ => !txin.prevout.isNull && txout.isEmpty
  | _, _ => false

/-- The loop of `GetValueOut` over the outputs that are left. -/
def getValueOutLoop : Int64 → List CTxOut → Except Fault Int64
  | nValueOut, [] => .ok nValueOut
  | nValueOut, txout :: vout =>
    if !moneyRange txout.nValue || !moneyRange (nValueOut + txout.nValue) then .error .runtimeError
    else getValueOutLoop (nValueOut + txout.nValue) vout

/-- `GetValueOut`: the amount of money spent by this transaction. -/
def getValueOut (tx : CTransaction) : Except Fault Int64 := getValueOutLoop 0 tx.vout

end CTransaction

/-! ## Sums of outputs -/

namespace CTransaction

open Int64Sum

/-- The sum of the outputs, as an integer. -/
def valueOut (tx : CTransaction) : ℤ := total (tx.vout.map CTxOut.nValue)

lemma moneyRange_iff {nValue : Int64} :
    moneyRange nValue = true ↔ 0 ≤ nValue.toInt ∧ nValue.toInt ≤ MAX_MONEY.toInt := by
  simp only [moneyRange, Bool.and_eq_true, decide_eq_true_eq, ge_iff_le, Int64.le_iff_toInt_le]
  rfl

/-- The loop of `GetValueOut` does not wrap around: every output is in range, and so is the sum. -/
lemma getValueOutLoop_eq_ok {nValueOut n : Int64} {vout : List CTxOut}
    (hstart : moneyRange nValueOut = true) (h : getValueOutLoop nValueOut vout = .ok n) :
    (∀ txout ∈ vout, moneyRange txout.nValue = true) ∧ moneyRange n = true ∧
      n.toInt = nValueOut.toInt + total (vout.map CTxOut.nValue) := by
  induction vout generalizing nValueOut with
  | nil =>
    rw [getValueOutLoop] at h
    cases h
    exact ⟨by simp, hstart, by simp⟩
  | cons txout vout ih =>
    rw [getValueOutLoop] at h
    split_ifs at h with hrange
    rw [Bool.or_eq_true, not_or, Bool.not_eq_true', Bool.not_eq_false, Bool.not_eq_true',
      Bool.not_eq_false] at hrange
    obtain ⟨hall, hn, hsum⟩ := ih hrange.2 h
    have hmax : MAX_MONEY.toInt = 60000000000000 := by decide
    have hadd : (nValueOut + txout.nValue).toInt = nValueOut.toInt + txout.nValue.toInt := by
      have hout := moneyRange_iff.mp hrange.1
      have hold := moneyRange_iff.mp hstart
      exact toInt_add ⟨by omega, by omega⟩
    refine ⟨?_, hn, ?_⟩
    · intro txout' hmem
      rcases List.mem_cons.mp hmem with rfl | hmem
      · exact hrange.1
      · exact hall txout' hmem
    · rw [hsum, hadd, List.map_cons, total_cons, add_assoc]

/-- `GetValueOut` returns the integer sum of the outputs, which are all in range. -/
lemma getValueOut_eq_ok {tx : CTransaction} {n : Int64} (h : tx.getValueOut = .ok n) :
    (∀ txout ∈ tx.vout, moneyRange txout.nValue = true) ∧ moneyRange n = true ∧
      n.toInt = tx.valueOut := by
  obtain ⟨hall, hn, hsum⟩ := getValueOutLoop_eq_ok (by decide) h
  have hzero : (0 : Int64).toInt = 0 := rfl
  exact ⟨hall, hn, by rw [hsum, hzero, zero_add, valueOut]⟩

end CTransaction

/-! ## Sizes -/

/-- The flat memory of an outpoint is as long as its `GetSerializeSize` says. -/
lemma COutPoint.getSerializeSize_eq (o : COutPoint) :
    o.getSerializeSize = UInt32.ofNat o.serialize.length := by
  simp [COutPoint.serialize, COutPoint.getSerializeSize, serializeUInt32]

/-- An input takes as many bytes as its `GetSerializeSize` says. -/
lemma CTxIn.getSerializeSize_eq (txin : CTxIn) :
    txin.getSerializeSize = UInt32.ofNat txin.serialize.length := by
  rw [CTxIn.getSerializeSize, CTxIn.serialize, COutPoint.getSerializeSize_eq,
    getSerializeSizeString_eq]
  simp [serializeUInt32, UInt32.ofNat_add, add_assoc]

/-- An output takes as many bytes as its `GetSerializeSize` says. -/
lemma CTxOut.getSerializeSize_eq (txout : CTxOut) :
    txout.getSerializeSize = UInt32.ofNat txout.serialize.length := by
  rw [CTxOut.getSerializeSize, CTxOut.serialize, getSerializeSizeString_eq]
  simp [serializeInt64, UInt32.ofNat_add]

/-- A transaction takes as many bytes as its `GetSerializeSize` says. -/
lemma CTransaction.getSerializeSize_eq (tx : CTransaction) :
    tx.getSerializeSize = UInt32.ofNat tx.serialize.length := by
  rw [CTransaction.getSerializeSize, CTransaction.serialize,
    getSerializeSizeVector_eq CTxIn.getSerializeSize_eq,
    getSerializeSizeVector_eq CTxOut.getSerializeSize_eq]
  simp only [List.length_append, serializeInt32, serializeUInt32, leBytes_length,
    UInt32.ofNat_add]
  rfl

/-! ## Reading back -/

namespace COutPoint

/-- `COutPoint::Unserialize`: the flat memory of the outpoint. -/
def unserialize : Reader Fault UInt8 COutPoint :=
  andThen (field hash (fun x o => { o with hash := x }) unserializeUInt256)
    (field n (fun x o => { o with n := x }) unserializeUInt32)

/-- An outpoint is read back from its bytes. -/
lemma consumes_unserialize (o old : COutPoint) : Consumes unserialize o.serialize old o :=
  .next (consumes_unserializeUInt256 o.hash _) (.field (consumes_unserializeUInt32 o.n _))

end COutPoint

def CTxIn.unserialize : Reader Fault UInt8 CTxIn :=
  andThen (field prevout (fun x txin => { txin with prevout := x }) COutPoint.unserialize) <|
  andThen (field scriptSig (fun x txin => { txin with scriptSig := x }) unserializeString)
    (field nSequence (fun x txin => { txin with nSequence := x }) unserializeUInt32)

/-- An input is read back from its bytes, if the length of its script is one that
`ReadCompactSize` accepts. -/
lemma CTxIn.consumes_unserialize {txin : CTxIn} (h : txin.scriptSig.length ≤ MAX_SIZE)
    (old : CTxIn) : Consumes CTxIn.unserialize txin.serialize old txin := by
  rw [CTxIn.serialize, List.append_assoc]
  refine .next (txin.prevout.consumes_unserialize _) ?_
  refine .next (consumes_unserializeString h _) ?_
  exact .field (consumes_unserializeUInt32 txin.nSequence _)

def CTxOut.unserialize : Reader Fault UInt8 CTxOut :=
  andThen (field nValue (fun x txout => { txout with nValue := x }) unserializeInt64)
    (field scriptPubKey (fun x txout => { txout with scriptPubKey := x }) unserializeString)

/-- An output is read back from its bytes, if the length of its script is one that
`ReadCompactSize` accepts. -/
lemma CTxOut.consumes_unserialize {txout : CTxOut} (h : txout.scriptPubKey.length ≤ MAX_SIZE)
    (old : CTxOut) : Consumes CTxOut.unserialize txout.serialize old txout :=
  .next (consumes_unserializeInt64 txout.nValue _) (.field (consumes_unserializeString h _))

def CTransaction.unserialize : Reader Fault UInt8 CTransaction :=
  andThen (field nVersion (fun x tx => { tx with nVersion := x }) unserializeInt32) <|
  andThen (field nTime (fun x tx => { tx with nTime := x }) unserializeUInt32) <|
  andThen (field vin (fun x tx => { tx with vin := x })
      (unserializeVector CTxIn.unserialize {})) <|
  andThen (field vout (fun x tx => { tx with vout := x })
      (unserializeVector CTxOut.unserialize {}))
    (field nLockTime (fun x tx => { tx with nLockTime := x }) unserializeUInt32)

/-- The numbers of inputs and outputs and the lengths of their scripts are ones that
`ReadCompactSize` accepts. -/
structure CTransaction.Fits (tx : CTransaction) : Prop where
  vin : tx.vin.length ≤ MAX_SIZE
  scriptSig : ∀ txin ∈ tx.vin, txin.scriptSig.length ≤ MAX_SIZE
  vout : tx.vout.length ≤ MAX_SIZE
  scriptPubKey : ∀ txout ∈ tx.vout, txout.scriptPubKey.length ≤ MAX_SIZE

/-- A transaction is read back from its bytes. -/
lemma CTransaction.Fits.consumes_unserialize {tx : CTransaction} (h : tx.Fits)
    (old : CTransaction) : Consumes CTransaction.unserialize tx.serialize old tx := by
  rw [CTransaction.serialize, List.append_assoc, List.append_assoc, List.append_assoc]
  refine .next (consumes_unserializeInt32 tx.nVersion _) ?_
  refine .next (consumes_unserializeUInt32 tx.nTime _) ?_
  refine .next (consumes_unserializeVector h.vin
    (fun txin hmem => CTxIn.consumes_unserialize (h.scriptSig txin hmem) _) _) ?_
  refine .next (consumes_unserializeVector h.vout
    (fun txout hmem => CTxOut.consumes_unserialize (h.scriptPubKey txout hmem) _) _) ?_
  exact .field (consumes_unserializeUInt32 tx.nLockTime _)

/-- No number and no length is larger than the number of bytes that it is part of. -/
lemma CTransaction.fits_of_length_le {tx : CTransaction} (h : tx.serialize.length ≤ MAX_SIZE) :
    tx.Fits := by
  have hsize : (tx.vin.flatMap CTxIn.serialize).length ≤ MAX_SIZE ∧
      (tx.vout.flatMap CTxOut.serialize).length ≤ MAX_SIZE := by
    simp only [CTransaction.serialize, serializeVector, List.length_append] at h
    omega
  refine ⟨?_, fun txin hmem => ?_, ?_, fun txout hmem => ?_⟩
  · exact (length_le_length_flatMap (fun txin => by
      simp only [CTxIn.serialize, serializeUInt32, List.length_append, leBytes_length]
      omega) tx.vin).trans hsize.1
  · have hle : txin.serialize.length ≤ MAX_SIZE := (length_serialize_le hmem).trans hsize.1
    simp only [CTxIn.serialize, serializeString, List.length_append] at hle
    omega
  · exact (length_le_length_flatMap (fun txout => by
      simp only [CTxOut.serialize, serializeInt64, List.length_append, leBytes_length]
      omega) tx.vout).trans hsize.2
  · have hle : txout.serialize.length ≤ MAX_SIZE := (length_serialize_le hmem).trans hsize.2
    simp only [CTxOut.serialize, serializeString, List.length_append] at hle
    omega

/-- A transaction that takes no more bytes than `ReadCompactSize` accepts is read back from them. -/
lemma CTransaction.consumes_unserialize {tx : CTransaction} (h : tx.serialize.length ≤ MAX_SIZE)
    (old : CTransaction) : Consumes CTransaction.unserialize tx.serialize old tx :=
  (fits_of_length_le h).consumes_unserialize old

end HyperStake
