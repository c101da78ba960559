import HyperStake.Formats
import HyperStake.Library.Decimal
import HyperStake.Wallet.WalletTx

/-!
# The format of a wallet transaction

`CWalletTx` is written with some of its members as entries of `mapValue`, which are there only while
it is written: the account, the spent outputs as a text of zeros and ones, the order position and the
smart time as decimal numbers.  What is written is read back (`readBack_walletTx`), unless the map
has such an entry of its own, or a length is too large for `ReadCompactSize`.
-/

namespace HyperStake.WalletTx

open FieldReader Decimal

/-- The bytes of a text. -/
def text (s : String) : Bytes := s.toList.map fun c => UInt8.ofNat c.toNat

/-! ## Numbers as text -/

def i64tostr (n : Int64) : Bytes :=
  if n < 0 then 45 :: decimal n.toInt.natAbs else decimal n.toInt.natAbs

def isSpace (c : UInt8) : Bool := c == 32 || decide (9 ≤ c.toNat) && decide (c.toNat ≤ 13)

/-- `c_str`, read up to its first zero byte. -/
def cStr (str : Bytes) : Bytes := str.takeWhile fun c => c ≠ 0

lemma cStr_eq {str : Bytes} (h : 0 ∉ str) : cStr str = str :=
  List.takeWhile_eq_self_iff.mpr fun c hc => decide_eq_true fun hzero => h (by rwa [← hzero])

/-- `atoi64`, that is `strtoll` with base ten: white space, a sign, and the digits that follow, cut
off at the limits. -/
def atoi64 (str : Bytes) : Int64 :=
  match str.dropWhile isSpace with
  | 45 :: digits => if number digits ≤ 2 ^ 63 then Int64.ofInt (-number digits) else -2 ^ 63
  | 43 :: digits => if number digits < 2 ^ 63 then Int64.ofInt (number digits) else 2 ^ 63 - 1
  | digits => if number digits < 2 ^ 63 then Int64.ofInt (number digits) else 2 ^ 63 - 1

lemma not_isSpace_of_isDigit {c : UInt8} (hc : isDigit c = true) : ¬ isSpace c = true := by
  simp only [isDigit, Bool.and_eq_true, decide_eq_true_eq] at hc
  rw [isSpace, Bool.or_eq_true, beq_iff_eq, Bool.and_eq_true, decide_eq_true_eq, decide_eq_true_eq]
  rintro (rfl | hwhite)
  · exact absurd hc.1 (by decide)
  · omega

/-- A text of digits has no white space and no sign in front. -/
lemma atoi64_digits {str : Bytes} (hdigits : ∀ c ∈ str, isDigit c = true)
    (hvalue : value str < 2 ^ 63) : atoi64 str = Int64.ofInt (value str) := by
  have hnumber : number str = value str := by
    rw [number_eq_value, List.takeWhile_eq_self_iff.mpr hdigits]
  cases str with
  | nil => rfl
  | cons c digits =>
    have hdigit := hdigits c List.mem_cons_self
    rw [atoi64, List.dropWhile_cons_of_neg (not_isSpace_of_isDigit hdigit)]
    split
    · rename_i heq
      cases heq
      exact absurd hdigit (by decide)
    · rename_i heq
      cases heq
      exact absurd hdigit (by decide)
    · rw [hnumber, if_pos hvalue]

lemma atoi64_decimal {n : ℕ} (hn : n < 2 ^ 63) : atoi64 (decimal n) = Int64.ofInt n := by
  have hvalue := value_decimal n
  rw [atoi64_digits (fun c hc => isDigit_of_mem_decimal hc) (by rwa [hvalue]), hvalue]

lemma atoi64_neg_decimal {n : ℕ} (hn : n ≤ 2 ^ 63) :
    atoi64 (45 :: decimal n) = Int64.ofInt (-n) := by
  have hspace : (45 :: decimal n).dropWhile isSpace = 45 :: decimal n := by
    rw [List.dropWhile_cons_of_neg (by decide)]
  unfold atoi64
  rw [hspace]
  simp only [number_decimal, if_pos hn]

/-- An `unsigned int` is read back from its text. -/
lemma toUInt32_atoi64_decimal (n : UInt32) : (atoi64 (decimal n.toNat)).toUInt64.toUInt32 = n := by
  have hlt := n.toNat_lt
  have hint : (Int64.ofInt n.toNat).toInt = n.toNat :=
    Int64.toInt_ofInt_of_le (by omega) (by omega)
  have hbits := Int64Sum.toNat_toUInt64 (Int64.ofInt n.toNat)
  rw [atoi64_decimal (by omega)]
  refine UInt32.toNat_inj.mp ?_
  rw [UInt64.toNat_toUInt32]
  omega

/-- A number is read back from its text. -/
lemma atoi64_i64tostr (n : Int64) : atoi64 (i64tostr n) = n := by
  have hge := n.le_toInt
  have hlt := n.toInt_lt
  unfold i64tostr
  split_ifs with hneg
  · have hneg' : n.toInt < 0 := Int64.lt_iff_toInt_lt.mp hneg
    rw [atoi64_neg_decimal (by omega)]
    have habs : -(n.toInt.natAbs : ℤ) = n.toInt := by omega
    rw [habs, Int64.ofInt_toInt]
  · have hnonneg : ¬ n.toInt < 0 := fun h => hneg (Int64.lt_iff_toInt_lt.mpr h)
    rw [atoi64_decimal (by omega)]
    have habs : (n.toInt.natAbs : ℤ) = n.toInt := by omega
    rw [habs, Int64.ofInt_toInt]

/-! ## The formats of the parts -/

/-- `CMerkleTx`. -/
def merkleTx : Format CMerkleTx where
  new := {}
  getSerializeSize tx := Format.transaction.getSerializeSize tx.toCTransaction + 32 +
    Format.uint256.vector.getSerializeSize tx.vMerkleBranch + 4
  serialize tx := tx.toCTransaction.serialize ++ (serializeUInt256 tx.hashBlock ++
    (Format.uint256.vector.serialize tx.vMerkleBranch ++ serializeInt32 tx.nIndex))
  unserialize :=
    andThen (field CMerkleTx.toCTransaction (fun x tx => { tx with toCTransaction := x })
      CTransaction.unserialize) <|
    andThen (field CMerkleTx.hashBlock (fun x tx => { tx with hashBlock := x })
      unserializeUInt256) <|
    andThen (field CMerkleTx.vMerkleBranch (fun x tx => { tx with vMerkleBranch := x })
        Format.uint256.vector.unserialize)
      (field CMerkleTx.nIndex (fun x tx => { tx with nIndex := x }) unserializeInt32)
  Fits tx := tx.toCTransaction.Fits ∧ Format.uint256.vector.Fits tx.vMerkleBranch

lemma lawful_merkleTx : merkleTx.Lawful where
  size_eq tx := by
    have hbranch := (Format.lawful_vector Format.lawful_uint256).size_eq tx.vMerkleBranch
    simp only [merkleTx, Format.lawful_transaction.size_eq, hbranch, List.length_append,
      UInt32.ofNat_add]
    simp only [serializeUInt256, serializeInt32, LittleEndian.leBytes_length, add_assoc]
    rfl
  consumes tx h old := by
    refine .next (h.1.consumes_unserialize _) ?_
    refine .next (consumes_unserializeUInt256 tx.hashBlock _) ?_
    refine .next ((Format.lawful_vector Format.lawful_uint256).consumes _ h.2 _) ?_
    exact .field (consumes_unserializeInt32 tx.nIndex _)

abbrev mapValue_t : Format (Std.ExtTreeMap Bytes Bytes) :=
  Format.map compare Format.string Format.string

/-- The format of `vOrderForm`. -/
abbrev orderForm : Format (List (Bytes × Bytes)) := (Format.string.pair Format.string).vector

namespace CWalletTx

/-! ## Writing -/

def writeOrderPos (nOrderPos : Int64) (mapValue : Std.ExtTreeMap Bytes Bytes) :
    Std.ExtTreeMap Bytes Bytes :=
  if nOrderPos = -1 then mapValue else mapValue.insert (text "n") (i64tostr nOrderPos)

/-- The map with the members that are written as entries of it. -/
def writtenMapValue (wtx : CWalletTx) : Std.ExtTreeMap Bytes Bytes :=
  let mapValue := wtx.mapValue.insert (text "fromaccount") wtx.strFromAccount
  let str : Bytes := wtx.vfSpent.map fun f => if f then 49 else 48
  let mapValue := mapValue.insert (text "spent") str
  let mapValue := writeOrderPos wtx.nOrderPos mapValue
  if wtx.nTimeSmart = 0 then mapValue
  else mapValue.insert (text "timesmart") (decimal wtx.nTimeSmart.toNat)

/-- The entries that are erased after the object was written or read. -/
def eraseEntries (mapValue : Std.ExtTreeMap Bytes Bytes) : Std.ExtTreeMap Bytes Bytes :=
  ((((mapValue.erase (text "fromaccount")).erase (text "version")).erase (text "spent")).erase
    (text "n")).erase (text "timesmart")

/-- `Serialize`: the bytes, and the object after it. -/
def serialize (wtx : CWalletTx) : Bytes × CWalletTx :=
  let mapValue := wtx.writtenMapValue
  let fSpent : UInt8 := if wtx.vfSpent.any id then 1 else 0
  (merkleTx.serialize wtx.toCMerkleTx ++ (merkleTx.vector.serialize wtx.vtxPrev ++
    (mapValue_t.serialize mapValue ++ (orderForm.serialize wtx.vOrderForm ++
      (serializeUInt32 wtx.fTimeReceivedIsTxTime ++ (serializeUInt32 wtx.nTimeReceived ++
        (serializeUInt8 wtx.fFromMe ++ serializeUInt8 fSpent)))))),
    { wtx with mapValue := eraseEntries mapValue })

/-! ## Reading -/

/-- `Init`, which leaves the transaction as it is. -/
def init (wtx : CWalletTx) : CWalletTx := { toCMerkleTx := wtx.toCMerkleTx }

/-- The members that are read, and the variable `fSpent`. -/
def unserializeFields : Reader Fault UInt8 (CWalletTx × UInt8) :=
  andThen (field (fun r => r.1.toCMerkleTx) (fun x r => ({ r.1 with toCMerkleTx := x }, r.2))
    merkleTx.unserialize) <|
  andThen (field (fun r => r.1.vtxPrev) (fun x r => ({ r.1 with vtxPrev := x }, r.2))
    merkleTx.vector.unserialize) <|
  andThen (field (fun r => r.1.mapValue) (fun x r => ({ r.1 with mapValue := x }, r.2))
    mapValue_t.unserialize) <|
  andThen (field (fun r => r.1.vOrderForm) (fun x r => ({ r.1 with vOrderForm := x }, r.2))
    orderForm.unserialize) <|
  andThen (field (fun r => r.1.fTimeReceivedIsTxTime)
    (fun x r => ({ r.1 with fTimeReceivedIsTxTime := x }, r.2)) unserializeUInt32) <|
  andThen (field (fun r => r.1.nTimeReceived) (fun x r => ({ r.1 with nTimeReceived := x }, r.2))
    unserializeUInt32) <|
  andThen (field (fun r => r.1.fFromMe) (fun x r => ({ r.1 with fFromMe := x }, r.2))
      unserializeUInt8)
    (field Prod.snd (fun x r => (r.1, x)) unserializeUInt8)

def readOrderPos (mapValue : Std.ExtTreeMap Bytes Bytes) : Int64 :=
  match mapValue[text "n"]? with
  | none => -1
  | some n => atoi64 n

/-- The smart time, zero if the map does not have it. -/
def readTimeSmart (mapValue : Std.ExtTreeMap Bytes Bytes) : UInt32 :=
  match mapValue[text "timesmart"]? with
  | none => 0
  | some n => (atoi64 n).toUInt64.toUInt32

/-- What is done when the fields have been read: the members that are entries of the map. -/
def restore (wtx : CWalletTx) (fSpent : UInt8) : CWalletTx :=
  { wtx with
    strFromAccount := wtx.mapValue[text "fromaccount"]?.getD []
    vfSpent :=
      match wtx.mapValue[text "spent"]? with
      | some str => str.map fun c => decide (c ≠ 48)
      | none => List.replicate wtx.vout.length (decide (fSpent ≠ 0))
    nOrderPos := readOrderPos wtx.mapValue
    nTimeSmart := readTimeSmart wtx.mapValue
    mapValue := eraseEntries wtx.mapValue }

def unserialize : Reader Fault UInt8 CWalletTx := fun wtx vch =>
  match unserializeFields (wtx.init, 0) vch with
  | ((wtx, fSpent), .ok rest) => (wtx.restore fSpent, .ok rest)
  | ((wtx, _), .error e) => (wtx, .error e)

/-! ## The entries of the map -/

/-- The keys of the entries that are there only while the object is written. -/
def reservedKeys : List Bytes :=
  [text "fromaccount", text "version", text "spent", text "n", text "timesmart"]

/-- What is under a key after erasing one. -/
lemma getElem?_erase_eq (m : Std.ExtTreeMap Bytes Bytes) (k k' : Bytes) :
    (m.erase k)[k']? = if k = k' then none else m[k']? := by
  rw [Std.ExtTreeMap.getElem?_erase]
  exact if_congr Std.LawfulEqCmp.compare_eq_iff_eq rfl rfl

/-- The reserved entries are erased, and no others. -/
lemma getElem?_eraseEntries (m : Std.ExtTreeMap Bytes Bytes) (k : Bytes) :
    (eraseEntries m)[k]? = if k ∈ reservedKeys then none else m[k]? := by
  simp only [eraseEntries, getElem?_erase_eq, reservedKeys, List.mem_cons, List.not_mem_nil, or_false,
    eq_comm (a := k)]
  split_ifs <;> simp_all

variable {wtx : CWalletTx}

/-- The entries of the map that is written. -/
lemma getElem?_writtenMapValue (wtx : CWalletTx) (k : Bytes) :
    wtx.writtenMapValue[k]? =
      if text "timesmart" = k ∧ wtx.nTimeSmart ≠ 0 then some (decimal wtx.nTimeSmart.toNat)
      else if text "n" = k ∧ wtx.nOrderPos ≠ -1 then some (i64tostr wtx.nOrderPos)
      else if text "spent" = k then some (wtx.vfSpent.map fun f => if f then 49 else 48)
      else if text "fromaccount" = k then some wtx.strFromAccount
      else wtx.mapValue[k]? := by
  unfold writtenMapValue writeOrderPos
  by_cases htime : wtx.nTimeSmart = 0 <;> by_cases hpos : wtx.nOrderPos = -1 <;>
    simp only [htime, hpos, if_true, if_false, MapLoop.getElem?_insert_eq, ne_eq, not_true_eq_false,
      not_false_eq_true, and_true, and_false]

variable {k vch rest : Bytes}

/-- The map that is written has the old entries beside the reserved ones. -/
lemma getElem?_writtenMapValue_of_notMem (hk : k ∉ reservedKeys) :
    wtx.writtenMapValue[k]? = wtx.mapValue[k]? := by
  simp only [reservedKeys, List.mem_cons, List.not_mem_nil, or_false, not_or] at hk
  obtain ⟨haccount, -, hspent, hn, htime⟩ := hk
  rw [getElem?_writtenMapValue, if_neg fun hand => htime hand.1.symm,
    if_neg fun hand => hn hand.1.symm, if_neg (Ne.symm hspent), if_neg (Ne.symm haccount)]

lemma eraseEntries_writtenMapValue (h : ∀ k ∈ reservedKeys, k ∉ wtx.mapValue) :
    eraseEntries wtx.writtenMapValue = wtx.mapValue := by
  refine Std.ExtTreeMap.ext_getElem? fun k => ?_
  rw [getElem?_eraseEntries]
  split_ifs with hk
  · exact (Std.ExtTreeMap.getElem?_eq_none (h k hk)).symm
  · exact getElem?_writtenMapValue_of_notMem hk

lemma getElem?_writtenMapValue_fromaccount :
    wtx.writtenMapValue[text "fromaccount"]? = some wtx.strFromAccount := by
  rw [getElem?_writtenMapValue, if_neg fun hand => absurd hand.1 (by decide),
    if_neg fun hand => absurd hand.1 (by decide), if_neg (by decide), if_pos rfl]

lemma getElem?_writtenMapValue_spent :
    wtx.writtenMapValue[text "spent"]? = some (wtx.vfSpent.map fun f => if f then 49 else 48) := by
  rw [getElem?_writtenMapValue, if_neg fun hand => absurd hand.1 (by decide),
    if_neg fun hand => absurd hand.1 (by decide), if_pos rfl]

lemma getElem?_writtenMapValue_n (h : ∀ k ∈ reservedKeys, k ∉ wtx.mapValue) :
    wtx.writtenMapValue[text "n"]?
      = if wtx.nOrderPos = -1 then none else some (i64tostr wtx.nOrderPos) := by
  have hold : wtx.mapValue[text "n"]? = none :=
    Std.ExtTreeMap.getElem?_eq_none (h _ (by simp [reservedKeys]))
  rw [getElem?_writtenMapValue, if_neg fun hand => absurd hand.1 (by decide),
    if_neg (show text "spent" ≠ text "n" by decide),
    if_neg (show text "fromaccount" ≠ text "n" by decide), hold]
  by_cases hpos : wtx.nOrderPos = -1
  · rw [if_neg fun hand => hand.2 hpos, if_pos hpos]
  · rw [if_pos ⟨rfl, hpos⟩, if_neg hpos]

lemma getElem?_writtenMapValue_timesmart (h : ∀ k ∈ reservedKeys, k ∉ wtx.mapValue) :
    wtx.writtenMapValue[text "timesmart"]?
      = if wtx.nTimeSmart = 0 then none else some (decimal wtx.nTimeSmart.toNat) := by
  have hold : wtx.mapValue[text "timesmart"]? = none :=
    Std.ExtTreeMap.getElem?_eq_none (h _ (by simp [reservedKeys]))
  rw [getElem?_writtenMapValue, hold]
  by_cases htime : wtx.nTimeSmart = 0
  · rw [if_neg fun hand => hand.2 htime, if_neg fun hand => absurd hand.1 (by decide),
      if_neg (show text "spent" ≠ text "timesmart" by decide),
      if_neg (show text "fromaccount" ≠ text "timesmart" by decide), if_pos htime]
  · rw [if_pos ⟨rfl, htime⟩, if_neg htime]

/-! ## Reading back -/

/-- Every length that is written is one that `ReadCompactSize` accepts. -/
structure Fits (wtx : CWalletTx) : Prop where
  merkleTx : merkleTx.Fits wtx.toCMerkleTx
  vtxPrev : WalletTx.merkleTx.vector.Fits wtx.vtxPrev
  mapValue : mapValue_t.Fits wtx.writtenMapValue
  vOrderForm : orderForm.Fits wtx.vOrderForm

/-- The transaction without what is cached in memory only. -/
def uncached (wtx : CWalletTx) : CWalletTx :=
  { wtx with
    fDebitCached := false, fCreditCached := false, fAvailableCreditCached := false
    fChangeCached := false, nDebitCached := 0, nCreditCached := 0, nAvailableCreditCached := 0
    nChangeCached := 0 }

/-- The members that were written as entries are taken from the entries. -/
lemma restore_written (h : ∀ k ∈ reservedKeys, k ∉ wtx.mapValue) {read : CWalletTx}
    (hread : read = { wtx.uncached with
      mapValue := wtx.writtenMapValue, strFromAccount := [], vfSpent := [], nOrderPos := -1
      nTimeSmart := 0 }) (fSpent : UInt8) : read.restore fSpent = wtx.uncached := by
  have hspent : ((wtx.vfSpent.map fun f => if f then (49 : UInt8) else 48).map fun c =>
      decide (c ≠ 48)) = wtx.vfSpent := by
    rw [List.map_map]
    refine List.map_id'' (fun f => ?_) wtx.vfSpent
    cases f <;> rfl
  have hpos : readOrderPos wtx.writtenMapValue = wtx.nOrderPos := by
    rw [readOrderPos, getElem?_writtenMapValue_n h]
    split_ifs with hnone
    · exact hnone.symm
    · exact atoi64_i64tostr wtx.nOrderPos
  have htime : readTimeSmart wtx.writtenMapValue = wtx.nTimeSmart := by
    rw [readTimeSmart, getElem?_writtenMapValue_timesmart h]
    split_ifs with hzero
    · exact hzero.symm
    · exact toUInt32_atoi64_decimal wtx.nTimeSmart
  subst hread
  unfold restore
  dsimp only
  rw [getElem?_writtenMapValue_fromaccount, getElem?_writtenMapValue_spent,
    htime, hpos, eraseEntries_writtenMapValue h]
  dsimp only
  rw [hspent]
  rfl

/-- A wallet transaction whose map has no reserved entry is unchanged by being written, and is read
back from its bytes. -/
theorem readBack_walletTx {wtx : CWalletTx} (h : ∀ k ∈ reservedKeys, k ∉ wtx.mapValue)
    (hfits : wtx.Fits) :
    wtx.serialize.2 = wtx ∧ ∀ old, Consumes unserialize wtx.serialize.1 old wtx.uncached := by
  have hstring := Format.lawful_string
  have hmap : mapValue_t.Lawful := Format.lawful_map hstring hstring
  have horder : orderForm.Lawful := Format.lawful_vector (Format.lawful_pair hstring hstring)
  have hprev : merkleTx.vector.Lawful := Format.lawful_vector lawful_merkleTx
  constructor
  · unfold serialize
    dsimp only
    rw [eraseEntries_writtenMapValue h]
  · intro old rest
    have hfields : Consumes unserializeFields wtx.serialize.1 (old.init, 0)
        ({ wtx.uncached with
            mapValue := wtx.writtenMapValue, strFromAccount := [], vfSpent := [], nOrderPos := -1
            nTimeSmart := 0 }, if wtx.vfSpent.any id then 1 else 0) := by
      refine (Consumes.field (lawful_merkleTx.consumes _ hfits.merkleTx _)).andThen ?_
      refine (Consumes.field (hprev.consumes _ hfits.vtxPrev _)).andThen ?_
      refine (Consumes.field (hmap.consumes _ hfits.mapValue _)).andThen ?_
      refine (Consumes.field (horder.consumes _ hfits.vOrderForm _)).andThen ?_
      refine (Consumes.field (consumes_unserializeUInt32 wtx.fTimeReceivedIsTxTime _)).andThen ?_
      refine (Consumes.field (consumes_unserializeUInt32 wtx.nTimeReceived _)).andThen ?_
      refine (Consumes.field (consumes_unserializeUInt8 wtx.fFromMe _)).andThen ?_
      exact Consumes.field (consumes_unserializeUInt8 _ _)
    rw [unserialize, hfields rest]
    dsimp only
    rw [restore_written h rfl]

/-- A transaction with two outputs, one of which is spent, and an entry of its own. -/
theorem readBack_walletTx_spent :
    let wtx : CWalletTx := {
      mapValue := (∅ : Std.ExtTreeMap Bytes Bytes).insert (text "to") (text "Ann")
      vfSpent := [true, false], nOrderPos := 5, nTimeSmart := 1400000000, strFromAccount := [97] }
    wtx.serialize.2 = wtx ∧ ∀ old, Consumes unserialize wtx.serialize.1 old wtx.uncached := by
  intro wtx
  refine readBack_walletTx ?_ ⟨?_, ?_, ?_, ?_⟩
  · decide +kernel
  · exact ⟨⟨by decide, by simp [wtx], by decide, by simp [wtx]⟩, by decide, by simp [wtx]⟩
  · exact ⟨by decide, by simp [wtx]⟩
  · change wtx.writtenMapValue.size ≤ MAX_SIZE ∧ ∀ mi ∈ wtx.writtenMapValue.toList,
      mi.1.length ≤ MAX_SIZE ∧ mi.2.length ≤ MAX_SIZE
    decide +kernel
  · exact ⟨by decide, by simp [wtx]⟩

/-! ## A length that is too large -/

/-- The strings that were read into a map have lengths that `ReadCompactSize` accepts. -/
lemma length_le_of_unserializeItems {n : ℕ} {m m' : Std.ExtTreeMap Bytes Bytes}
    (h : unserializeItems unserializeString unserializeString ([], []) n m vch
      = (m', Except.ok rest)) (hm : ∀ k v : Bytes, m[k]? = some v → v.length ≤ MAX_SIZE)
    {v : Bytes} (hv : m'[k]? = some v) : v.length ≤ MAX_SIZE := by
  induction n generalizing m vch with
  | zero =>
    obtain ⟨rfl, -⟩ := Prod.mk.inj h
    exact hm k v hv
  | succ n ih =>
    rw [unserializeItems] at h
    split at h
    · rename_i item rest' hitem
      obtain ⟨a₁, ts₁, -, hvalue⟩ := andThen_eq_ok hitem
      obtain ⟨c, hc, rfl⟩ := field_eq_ok hvalue
      refine ih h fun k' v' hv' => ?_
      rw [Std.ExtTreeMap.getElem?_insertIfNew] at hv'
      split_ifs at hv'
      · cases hv'
        exact unserializeString_length_le hc
      · exact hm k' v' hv'
    · cases h

lemma length_le_of_unserialize_mapValue {m m' : Std.ExtTreeMap Bytes Bytes}
    (h : mapValue_t.unserialize m vch = (m', Except.ok rest)) {v : Bytes} (hv : m'[k]? = some v) :
    v.length ≤ MAX_SIZE := by
  change unserializeMap unserializeString unserializeString ([], []) m vch = (m', Except.ok rest) at h
  rw [unserializeMap] at h
  split at h
  · cases h
  · exact length_le_of_unserializeItems h (by simp) hv

/-- The vector of the spent outputs that is read is one that was read as a text, or as long as the
vector of outputs. -/
lemma length_vfSpent_le {old wtx' : CWalletTx} (h : unserialize old vch = (wtx', .ok rest)) :
    wtx'.vfSpent.length ≤ MAX_SIZE ∨ wtx'.vfSpent.length = wtx'.vout.length := by
  unfold unserialize at h
  split at h
  · rename_i read fSpent rest' hfields
    cases h
    -- The map is the third field, and the later ones leave it as it is.
    obtain ⟨r₁, ts₁, -, hfields⟩ := andThen_eq_ok hfields
    obtain ⟨r₂, ts₂, -, hfields⟩ := andThen_eq_ok hfields
    obtain ⟨r₃, ts₃, hmap, hfields⟩ := andThen_eq_ok hfields
    obtain ⟨mapValue, hread, rfl⟩ := field_eq_ok hmap
    obtain ⟨r₄, ts₄, horder, hfields⟩ := andThen_eq_ok hfields
    obtain ⟨x₄, -, rfl⟩ := field_eq_ok horder
    obtain ⟨r₅, ts₅, hfield, hfields⟩ := andThen_eq_ok hfields
    obtain ⟨x₅, -, rfl⟩ := field_eq_ok hfield
    obtain ⟨r₆, ts₆, hfield, hfields⟩ := andThen_eq_ok hfields
    obtain ⟨x₆, -, rfl⟩ := field_eq_ok hfield
    obtain ⟨r₇, ts₇, hfield, hfields⟩ := andThen_eq_ok hfields
    obtain ⟨x₇, -, rfl⟩ := field_eq_ok hfield
    obtain ⟨x₈, -, hlast⟩ := field_eq_ok hfields
    cases hlast
    unfold restore
    dsimp only
    split
    · rename_i str hstr
      left
      rw [List.length_map]
      exact length_le_of_unserialize_mapValue hread hstr
    · right
      exact List.length_replicate
  · cases h

/-- The spent outputs are one more than `ReadCompactSize` accepts, so that they are not read. -/
theorem not_readBack_walletTx :
    ¬ ∀ wtx : CWalletTx, (∀ k ∈ reservedKeys, k ∉ wtx.mapValue) →
      wtx.serialize.2 = wtx ∧ ∀ old, Consumes unserialize wtx.serialize.1 old wtx.uncached := by
  intro h
  let wtx : CWalletTx := { vfSpent := List.replicate (MAX_SIZE + 1) true }
  have hconsumes := (h wtx (by simp [wtx])).2 {} []
  have hlength : wtx.uncached.vfSpent.length = MAX_SIZE + 1 := List.length_replicate
  rcases length_vfSpent_le hconsumes with hle | heq
  · omega
  · rw [hlength] at heq
    cases heq

end CWalletTx

end HyperStake.WalletTx
