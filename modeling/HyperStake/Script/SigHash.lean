import HyperStake.Library.PrefixCode
import HyperStake.Script.Signing

/-!
# What a signature signs

`SignatureHash` hashes a transaction in which the parts that the hash type leaves open are blanked
out, and the hash type.  As far as the hash function has no collision, two of these hashes are the
same if and only if the transactions agree in the parts that the hash type names
(`signatureHash_eq_iff`).

The serialisation can be read from the front, so that the bytes that are hashed determine the
blanked transaction.  For this the vectors must have sizes below `2 ^ 64`, as they have in memory.
-/

namespace HyperStake

open LittleEndian PrefixCode

/-! ## The serialisation -/

/-- The first byte of a compact size, and on how many bytes the size follows. -/
def compactForm (nSize : ℕ) : ℕ × ℕ :=
  if nSize < 253 then (nSize, 0)
  else if nSize ≤ 0xffff then (253, 2)
  else if nSize ≤ 0xffffffff then (254, 4)
  else (255, 8)

lemma writeCompactSize_eq (nSize : ℕ) :
    writeCompactSize nSize =
      leBytes 1 (compactForm nSize).1 ++ leBytes (compactForm nSize).2 nSize := by
  unfold writeCompactSize compactForm
  split_ifs
  · exact (List.append_nil _).symm
  · rfl
  · rfl
  · rfl

/-- A number of fixed width is determined by its bytes. -/
lemma leBytes_inj {k m n : ℕ} (hm : m < 256 ^ k) (hn : n < 256 ^ k)
    (h : leBytes k m = leBytes k n) :
    m = n := by
  rw [← leValue_leBytes_of_lt hm, h, leValue_leBytes_of_lt hn]

/-- A compact size can be read from the front. -/
lemma determines_writeCompactSize : Determines writeCompactSize id {n | n < 2 ^ 64} := by
  intro m hm n hn r r' h
  rw [writeCompactSize_eq, writeCompactSize_eq, List.append_assoc, List.append_assoc] at h
  obtain ⟨hmark, hrest⟩ := List.append_inj h (by simp)
  have hlt : ∀ k, (compactForm k).1 < 256 ^ 1 := by
    intro k
    unfold compactForm
    split_ifs <;> simp only <;> omega
  have hmarks := leBytes_inj (hlt m) (hlt n) hmark
  -- the first byte says on how many bytes the size follows
  have hwidths : (compactForm m).2 = (compactForm n).2 := by
    unfold compactForm at hmarks ⊢
    split_ifs at hmarks ⊢ <;> simp only at hmarks ⊢ <;> omega
  rw [hwidths] at hrest
  obtain ⟨hsize, hrest⟩ := List.append_inj hrest (by simp)
  refine ⟨?_, hrest⟩
  have hfits : ∀ k < 2 ^ 64, (compactForm k).2 = 0 ∧ (compactForm k).1 = k ∨
      k < 256 ^ (compactForm k).2 := by
    intro k hk
    unfold compactForm
    split_ifs
    · exact Or.inl ⟨rfl, rfl⟩
    · exact Or.inr (by simp only; omega)
    · exact Or.inr (by simp only; omega)
    · exact Or.inr (by simp only; omega)
  rcases hfits m hm with ⟨hzero, hself⟩ | hfit
  · rcases hfits n hn with ⟨-, hself'⟩ | hfit'
    · exact hself.symm.trans (hmarks.trans hself')
    · rw [← hwidths, hzero, pow_zero, Nat.lt_one_iff] at hfit'
      rw [hfit'] at hmarks hwidths
      exact hself.symm.trans (hmarks.trans hfit'.symm)
  · rw [hwidths] at hfit
    rcases hfits n hn with ⟨hzero, hself⟩ | hfit'
    · rw [hzero, pow_zero, Nat.lt_one_iff] at hfit
      rw [hfit] at hmarks
      exact hfit.trans (hmarks.trans hself)
    · exact leBytes_inj hfit hfit' hsize

/-- What is read back can be read from the front. -/
lemma determines_of_consumes {α : Type} {s : Set α} {read : FieldReader.Reader Fault UInt8 α}
    {serialize : α → Bytes} (old : α)
    (h : ∀ a ∈ s, FieldReader.Consumes read (serialize a) old a) : Determines serialize id s := by
  intro a ha b hb r r' heq
  have hread := h a ha r
  rw [heq, h b hb r'] at hread
  obtain ⟨hab, hrest⟩ := Prod.mk.inj hread
  exact ⟨hab.symm, (Except.ok.inj hrest).symm⟩

lemma determines_serializeString : Determines serializeString id {str | str.length < 2 ^ 64} := by
  intro str hstr str' hstr' r r' h
  rw [serializeString, serializeString, List.append_assoc, List.append_assoc] at h
  obtain ⟨hlength, hrest⟩ := determines_writeCompactSize hstr hstr' h
  exact List.append_inj hrest hlength

/-- A vector of elements that can be read from the front. -/
lemma determines_serializeVector {α : Type} {s : Set α} {serialize : α → Bytes}
    (h : Determines serialize id s) :
    Determines (serializeVector serialize) id {v | v.length < 2 ^ 64 ∧ ∀ a ∈ v, a ∈ s} :=
  determines_writeCompactSize.counted h

lemma determines_serializeUInt32 : Determines serializeUInt32 id Set.univ :=
  determines_of_consumes 0 fun a _ => consumes_unserializeUInt32 a 0

lemma determines_serializeInt32 : Determines serializeInt32 id Set.univ :=
  determines_of_consumes 0 fun a _ => consumes_unserializeInt32 a 0

lemma determines_serializeInt64 : Determines serializeInt64 id Set.univ :=
  determines_of_consumes 0 fun a _ => consumes_unserializeInt64 a 0

lemma COutPoint.determines_serialize : Determines COutPoint.serialize id Set.univ :=
  determines_of_consumes {} fun a _ => a.consumes_unserialize {}

/-- The script of an input is no longer than a vector can be. -/
def CTxIn.InMemory : Set CTxIn := {txin | txin.scriptSig.length < 2 ^ 64}

/-- The script of an output is no longer than a vector can be. -/
def CTxOut.InMemory : Set CTxOut := {txout | txout.scriptPubKey.length < 2 ^ 64}

/-- The vectors of a transaction are no longer than vectors can be. -/
def CTransaction.InMemory : Set CTransaction :=
  {tx | (tx.vin.length < 2 ^ 64 ∧ ∀ txin ∈ tx.vin, txin ∈ CTxIn.InMemory) ∧
    (tx.vout.length < 2 ^ 64 ∧ ∀ txout ∈ tx.vout, txout ∈ CTxOut.InMemory)}

lemma CTxIn.determines_serialize : Determines CTxIn.serialize id CTxIn.InMemory := by
  have hprevout : Determines (fun txin : CTxIn => txin.prevout.serialize) CTxIn.prevout
      CTxIn.InMemory := COutPoint.determines_serialize.comp CTxIn.prevout fun _ _ => trivial
  have hscriptSig : Determines (fun txin : CTxIn => serializeString txin.scriptSig) CTxIn.scriptSig
      CTxIn.InMemory := determines_serializeString.comp CTxIn.scriptSig fun _ h => h
  have hnSequence : Determines (fun txin : CTxIn => serializeUInt32 txin.nSequence) CTxIn.nSequence
      CTxIn.InMemory := determines_serializeUInt32.comp CTxIn.nSequence fun _ _ => trivial
  refine ((hprevout.append hscriptSig).append hnSequence).map fun a _ b _ h => ?_
  obtain ⟨h, hseq⟩ := Prod.mk.inj h
  obtain ⟨hprev, hscript⟩ := Prod.mk.inj h
  cases a
  cases b
  exact CTxIn.mk.injEq .. ▸ ⟨hprev, hscript, hseq⟩

lemma CTxOut.determines_serialize : Determines CTxOut.serialize id CTxOut.InMemory := by
  have hnValue : Determines (fun txout : CTxOut => serializeInt64 txout.nValue) CTxOut.nValue
      CTxOut.InMemory := determines_serializeInt64.comp CTxOut.nValue fun _ _ => trivial
  have hscript : Determines (fun txout : CTxOut => serializeString txout.scriptPubKey)
      CTxOut.scriptPubKey CTxOut.InMemory :=
    determines_serializeString.comp CTxOut.scriptPubKey fun _ h => h
  refine (hnValue.append hscript).map fun a _ b _ h => ?_
  obtain ⟨hvalue, hscript⟩ := Prod.mk.inj h
  cases a
  cases b
  exact CTxOut.mk.injEq .. ▸ ⟨hvalue, hscript⟩

/-- A transaction can be read from the front. -/
lemma CTransaction.determines_serialize :
    Determines CTransaction.serialize id CTransaction.InMemory := by
  have hnVersion : Determines (fun tx : CTransaction => serializeInt32 tx.nVersion)
      CTransaction.nVersion CTransaction.InMemory :=
    determines_serializeInt32.comp CTransaction.nVersion fun _ _ => trivial
  have hnTime : Determines (fun tx : CTransaction => serializeUInt32 tx.nTime)
      CTransaction.nTime CTransaction.InMemory :=
    determines_serializeUInt32.comp CTransaction.nTime fun _ _ => trivial
  have hvin : Determines (fun tx : CTransaction => serializeVector CTxIn.serialize tx.vin)
      CTransaction.vin CTransaction.InMemory :=
    (determines_serializeVector CTxIn.determines_serialize).comp CTransaction.vin fun _ h => h.1
  have hvout : Determines (fun tx : CTransaction => serializeVector CTxOut.serialize tx.vout)
      CTransaction.vout CTransaction.InMemory :=
    (determines_serializeVector CTxOut.determines_serialize).comp CTransaction.vout fun _ h => h.2
  have hnLockTime : Determines (fun tx : CTransaction => serializeUInt32 tx.nLockTime)
      CTransaction.nLockTime CTransaction.InMemory :=
    determines_serializeUInt32.comp CTransaction.nLockTime fun _ _ => trivial
  refine ((((hnVersion.append hnTime).append hvin).append hvout).append hnLockTime).map
    fun a _ b _ h => ?_
  obtain ⟨h, hlock⟩ := Prod.mk.inj h
  obtain ⟨h, hout⟩ := Prod.mk.inj h
  obtain ⟨h, hin⟩ := Prod.mk.inj h
  obtain ⟨hversion, htime⟩ := Prod.mk.inj h
  cases a
  cases b
  exact CTransaction.mk.injEq .. ▸ ⟨hversion, htime, hin, hout, hlock⟩

/-! ## What is blanked out -/

/-- The hash type lets others update the sequences of the other inputs. -/
def LeavesOpen (nHashType : Int32) : Prop :=
  nHashType &&& 0x1f = SIGHASH_NONE ∨ nHashType &&& 0x1f = SIGHASH_SINGLE

instance (nHashType : Int32) : Decidable (LeavesOpen nHashType) :=
  inferInstanceAs (Decidable (_ ∨ _))

/-- An input of a transaction as it is hashed for the input at a position. -/
def CTxIn.blank (nIn : ℕ) (scriptCode : CScript) (nHashType : Int32) (i : ℕ) (txin : CTxIn) :
    CTxIn where
  prevout := txin.prevout
  scriptSig := if i = nIn then CScript.findAndDelete [OP_CODESEPARATOR] scriptCode else []
  nSequence := if LeavesOpen nHashType ∧ i ≠ nIn then 0 else txin.nSequence

/-- The inputs as they are hashed. -/
def signedVin (scriptCode : CScript) (txTo : CTransaction) (nIn : ℕ) (nHashType : Int32) :
    List CTxIn :=
  let vin := txTo.vin.mapIdx (CTxIn.blank nIn scriptCode nHashType)
  if nHashType &&& SIGHASH_ANYONECANPAY ≠ 0 then vin[nIn]?.toList else vin

/-- The outputs as they are hashed. -/
def signedVout (txTo : CTransaction) (nIn : ℕ) (nHashType : Int32) : List CTxOut :=
  if nHashType &&& 0x1f = SIGHASH_NONE then []
  else if nHashType &&& 0x1f = SIGHASH_SINGLE then
    List.replicate nIn ({} : CTxOut) ++ txTo.vout[nIn]?.toList
  else txTo.vout

/-- The transaction as it is hashed. -/
def signedTx (scriptCode : CScript) (txTo : CTransaction) (nIn : ℕ) (nHashType : Int32) :
    CTransaction :=
  { txTo with
    vin := signedVin scriptCode txTo nIn nHashType
    vout := signedVout txTo nIn nHashType }

section

variable {scriptCode scriptCode' : CScript} {txTo txTo' : CTransaction} {nIn : ℕ}
  {nHashType : Int32}

/-- The inputs are blanked one by one. -/
lemma modify_map_blank :
    ((txTo.vin.map fun txin => { txin with scriptSig := [] }).modify nIn fun txin =>
      { txin with scriptSig := CScript.findAndDelete [OP_CODESEPARATOR] scriptCode }) =
    txTo.vin.mapIdx fun i txin => { txin with
      scriptSig := if i = nIn then CScript.findAndDelete [OP_CODESEPARATOR] scriptCode else [] } := by
  refine List.ext_getElem (by simp) fun i h h' => ?_
  rw [List.getElem_modify, List.getElem_mapIdx, List.getElem_map]
  by_cases hi : nIn = i
  · rw [if_pos hi, if_pos hi.symm]
  · rw [if_neg hi, if_neg (Ne.symm hi)]

/-- `SignatureHash` hashes the blanked transaction if the position is in range. -/
lemma sigHashTx_eq (hvin : nIn < txTo.vin.length)
    (hvout : nHashType &&& 0x1f = SIGHASH_SINGLE → nIn < txTo.vout.length) :
    sigHashTx scriptCode txTo nIn nHashType = some (signedTx scriptCode txTo nIn nHashType) := by
  rw [sigHashTx, if_neg (not_le.mpr hvin), signedTx, signedVin, signedVout]
  simp only [modify_map_blank, List.mapIdx_mapIdx]
  have hopen : LeavesOpen nHashType → (fun i => (fun txin : CTxIn =>
      if i ≠ nIn then { txin with nSequence := 0 } else txin) ∘ fun txin : CTxIn => { txin with
        scriptSig := if i = nIn then CScript.findAndDelete [OP_CODESEPARATOR] scriptCode else [] }) =
      CTxIn.blank nIn scriptCode nHashType := by
    intro h
    funext i txin
    by_cases hi : i = nIn
    · simp [CTxIn.blank, hi]
    · simp [CTxIn.blank, hi, h]
  have hclosed : ¬ LeavesOpen nHashType → (fun i (txin : CTxIn) => { txin with
        scriptSig := if i = nIn then CScript.findAndDelete [OP_CODESEPARATOR] scriptCode else [] }) =
      CTxIn.blank nIn scriptCode nHashType := by
    intro h
    funext i txin
    simp [CTxIn.blank, h]
  by_cases hnone : nHashType &&& 0x1f = SIGHASH_NONE
  · rw [if_pos hnone, if_pos hnone, hopen (Or.inl hnone)]
    split_ifs <;> rfl
  · rw [if_neg hnone, if_neg hnone]
    by_cases hsingle : nHashType &&& 0x1f = SIGHASH_SINGLE
    · rw [if_pos hsingle, if_pos hsingle, hopen (Or.inr hsingle),
        List.getElem?_eq_getElem (hvout hsingle)]
      split_ifs <;> rfl
    · rw [if_neg hsingle, if_neg hsingle, hclosed (not_or.mpr ⟨hnone, hsingle⟩)]
      split_ifs <;> rfl

end

/-- Two transactions with script codes and hash types agree in what is signed for the input at a
position. -/
structure SignsSame (nIn : ℕ) (scriptCode scriptCode' : CScript) (txTo txTo' : CTransaction)
    (nHashType nHashType' : Int32) : Prop where
  hashType : nHashType = nHashType'
  nVersion : txTo.nVersion = txTo'.nVersion
  nTime : txTo.nTime = txTo'.nTime
  nLockTime : txTo.nLockTime = txTo'.nLockTime
  scriptCode : CScript.findAndDelete [OP_CODESEPARATOR] scriptCode =
    CScript.findAndDelete [OP_CODESEPARATOR] scriptCode'
  prevout : txTo.vin[nIn]?.map CTxIn.prevout = txTo'.vin[nIn]?.map CTxIn.prevout
  nSequence : txTo.vin[nIn]?.map CTxIn.nSequence = txTo'.vin[nIn]?.map CTxIn.nSequence
  /-- The number of inputs and their outpoints. -/
  prevouts : nHashType &&& SIGHASH_ANYONECANPAY = 0 →
    txTo.vin.map CTxIn.prevout = txTo'.vin.map CTxIn.prevout
  nSequences : nHashType &&& SIGHASH_ANYONECANPAY = 0 → nHashType &&& 0x1f ≠ SIGHASH_NONE →
    nHashType &&& 0x1f ≠ SIGHASH_SINGLE →
    txTo.vin.map CTxIn.nSequence = txTo'.vin.map CTxIn.nSequence
  /-- The output at the position. -/
  single : nHashType &&& 0x1f = SIGHASH_SINGLE → txTo.vout[nIn]? = txTo'.vout[nIn]?
  vout : nHashType &&& 0x1f ≠ SIGHASH_NONE → nHashType &&& 0x1f ≠ SIGHASH_SINGLE →
    txTo.vout = txTo'.vout

section

variable {scriptCode scriptCode' : CScript} {txTo txTo' : CTransaction} {nIn : ℕ}
  {nHashType : Int32}

/-- Two blanked inputs at the same position are the same if they agree in what is left. -/
lemma CTxIn.blank_eq_iff {i : ℕ} {txin txin' : CTxIn} :
    txin.blank nIn scriptCode nHashType i = txin'.blank nIn scriptCode' nHashType i ↔
      txin.prevout = txin'.prevout ∧
      (i = nIn → CScript.findAndDelete [OP_CODESEPARATOR] scriptCode =
        CScript.findAndDelete [OP_CODESEPARATOR] scriptCode') ∧
      (LeavesOpen nHashType ∧ i ≠ nIn ∨ txin.nSequence = txin'.nSequence) := by
  rw [CTxIn.blank, CTxIn.blank, CTxIn.mk.injEq]
  by_cases hi : i = nIn <;> by_cases hopen : LeavesOpen nHashType <;> simp [hi, hopen]

/-- The inputs are hashed as the same if and only if they agree in what is signed. -/
lemma mapIdx_blank_eq_iff (hvin : nIn < txTo.vin.length) :
    txTo.vin.mapIdx (CTxIn.blank nIn scriptCode nHashType) =
      txTo'.vin.mapIdx (CTxIn.blank nIn scriptCode' nHashType) ↔
    txTo.vin.map CTxIn.prevout = txTo'.vin.map CTxIn.prevout ∧
      CScript.findAndDelete [OP_CODESEPARATOR] scriptCode =
        CScript.findAndDelete [OP_CODESEPARATOR] scriptCode' ∧
      txTo.vin[nIn]?.map CTxIn.nSequence = txTo'.vin[nIn]?.map CTxIn.nSequence ∧
      (¬ LeavesOpen nHashType → txTo.vin.map CTxIn.nSequence = txTo'.vin.map CTxIn.nSequence) := by
  by_cases hlength : txTo.vin.length = txTo'.vin.length
  · have hvin' : nIn < txTo'.vin.length := hlength ▸ hvin
    have hmap : ∀ {α : Type} (f : CTxIn → α), txTo.vin.map f = txTo'.vin.map f ↔
        ∀ i (h : i < txTo.vin.length) (h' : i < txTo'.vin.length),
          f txTo.vin[i] = f txTo'.vin[i] := by
      intro α f
      simp [List.ext_getElem_iff, hlength]
    have hmapIdx : txTo.vin.mapIdx (CTxIn.blank nIn scriptCode nHashType) =
        txTo'.vin.mapIdx (CTxIn.blank nIn scriptCode' nHashType) ↔
        ∀ i (h : i < txTo.vin.length) (h' : i < txTo'.vin.length),
          txTo.vin[i].blank nIn scriptCode nHashType i =
            txTo'.vin[i].blank nIn scriptCode' nHashType i := by
      simp [List.ext_getElem_iff, hlength]
    rw [hmapIdx, hmap, hmap]
    simp only [CTxIn.blank_eq_iff, List.getElem?_eq_getElem hvin, List.getElem?_eq_getElem hvin',
      Option.map_some, Option.some.injEq]
    constructor
    · intro h
      refine ⟨fun i hi hi' => (h i hi hi').1, (h nIn hvin hvin').2.1 rfl, ?_, ?_⟩
      · exact (h nIn hvin hvin').2.2.resolve_left fun hopen => hopen.2 rfl
      · intro hclosed i hi hi'
        exact (h i hi hi').2.2.resolve_left fun hopen => hclosed hopen.1
    · rintro ⟨hprevout, hcode, hseq, hseqs⟩ i hi hi'
      refine ⟨hprevout i hi hi', fun _ => hcode, ?_⟩
      by_cases hopen : LeavesOpen nHashType
      · by_cases hin : i = nIn
        · subst hin
          exact Or.inr hseq
        · exact Or.inl ⟨hopen, hin⟩
      · exact Or.inr (hseqs hopen i hi hi')
  · refine iff_of_false (fun h => hlength ?_) (fun h => hlength ?_)
    · simpa using congrArg List.length h
    · simpa using congrArg List.length h.1

/-- The inputs that are hashed are the same if and only if those that are signed are. -/
lemma signedVin_eq_iff (hvin : nIn < txTo.vin.length) (hvin' : nIn < txTo'.vin.length) :
    signedVin scriptCode txTo nIn nHashType = signedVin scriptCode' txTo' nIn nHashType ↔
      CScript.findAndDelete [OP_CODESEPARATOR] scriptCode =
        CScript.findAndDelete [OP_CODESEPARATOR] scriptCode' ∧
      txTo.vin[nIn]?.map CTxIn.prevout = txTo'.vin[nIn]?.map CTxIn.prevout ∧
      txTo.vin[nIn]?.map CTxIn.nSequence = txTo'.vin[nIn]?.map CTxIn.nSequence ∧
      (nHashType &&& SIGHASH_ANYONECANPAY = 0 →
        txTo.vin.map CTxIn.prevout = txTo'.vin.map CTxIn.prevout) ∧
      (nHashType &&& SIGHASH_ANYONECANPAY = 0 → ¬ LeavesOpen nHashType →
        txTo.vin.map CTxIn.nSequence = txTo'.vin.map CTxIn.nSequence) := by
  rw [signedVin, signedVin]
  by_cases hanyone : nHashType &&& SIGHASH_ANYONECANPAY = 0
  · rw [if_neg (not_not.mpr hanyone), if_neg (not_not.mpr hanyone), mapIdx_blank_eq_iff hvin]
    constructor
    · rintro ⟨hprevouts, hcode, hseq, hseqs⟩
      refine ⟨hcode, ?_, hseq, fun _ => hprevouts, fun _ => hseqs⟩
      rw [← List.getElem?_map, hprevouts, List.getElem?_map]
    · rintro ⟨hcode, -, hseq, hprevouts, hseqs⟩
      exact ⟨hprevouts hanyone, hcode, hseq, hseqs hanyone⟩
  · rw [if_pos hanyone, if_pos hanyone, List.getElem?_mapIdx, List.getElem?_mapIdx,
      List.getElem?_eq_getElem hvin, List.getElem?_eq_getElem hvin']
    simp only [Option.map_some, Option.toList_some, List.cons.injEq, and_true, Option.some.injEq,
      CTxIn.blank_eq_iff, hanyone, false_imp_iff]
    constructor
    · rintro ⟨hprevout, hcode, hseq⟩
      exact ⟨hcode trivial, hprevout, hseq.resolve_left fun hopen => hopen.2 rfl⟩
    · rintro ⟨hcode, hprevout, hseq⟩
      exact ⟨hprevout, fun _ => hcode, Or.inr hseq⟩

/-- The outputs that are hashed are the same if and only if those that are signed are. -/
lemma signedVout_eq_iff (hvout : nHashType &&& 0x1f = SIGHASH_SINGLE → nIn < txTo.vout.length)
    (hvout' : nHashType &&& 0x1f = SIGHASH_SINGLE → nIn < txTo'.vout.length) :
    signedVout txTo nIn nHashType = signedVout txTo' nIn nHashType ↔
      (nHashType &&& 0x1f = SIGHASH_SINGLE → txTo.vout[nIn]? = txTo'.vout[nIn]?) ∧
      (nHashType &&& 0x1f ≠ SIGHASH_NONE → nHashType &&& 0x1f ≠ SIGHASH_SINGLE →
        txTo.vout = txTo'.vout) := by
  rw [signedVout, signedVout]
  by_cases hnone : nHashType &&& 0x1f = SIGHASH_NONE
  · have hne : SIGHASH_NONE ≠ SIGHASH_SINGLE := by decide
    simp [hnone, hne]
  · by_cases hsingle : nHashType &&& 0x1f = SIGHASH_SINGLE
    · rw [if_neg hnone, if_neg hnone, if_pos hsingle, if_pos hsingle,
        List.getElem?_eq_getElem (hvout hsingle), List.getElem?_eq_getElem (hvout' hsingle)]
      simp [hsingle]
    · simp [hnone, hsingle]

/-- What is hashed is the same if and only if the transactions agree in what is signed. -/
lemma signedTx_eq_iff (hvin : nIn < txTo.vin.length) (hvin' : nIn < txTo'.vin.length)
    (hvout : nHashType &&& 0x1f = SIGHASH_SINGLE → nIn < txTo.vout.length)
    (hvout' : nHashType &&& 0x1f = SIGHASH_SINGLE → nIn < txTo'.vout.length) :
    signedTx scriptCode txTo nIn nHashType = signedTx scriptCode' txTo' nIn nHashType ↔
      SignsSame nIn scriptCode scriptCode' txTo txTo' nHashType nHashType := by
  rw [signedTx, signedTx, CTransaction.mk.injEq, signedVin_eq_iff hvin hvin',
    signedVout_eq_iff hvout hvout']
  constructor
  · rintro ⟨hversion, htime, ⟨hcode, hprevout, hseq, hprevouts, hseqs⟩, ⟨hsingle, hall⟩, hlock⟩
    exact ⟨rfl, hversion, htime, hlock, hcode, hprevout, hseq, hprevouts,
      fun hanyone hnone hsingle => hseqs hanyone (not_or.mpr ⟨hnone, hsingle⟩), hsingle, hall⟩
  · intro h
    exact ⟨h.nVersion, h.nTime, ⟨h.scriptCode, h.prevout, h.nSequence, h.prevouts,
      fun hanyone hopen => h.nSequences hanyone (not_or.mp hopen).1 (not_or.mp hopen).2⟩,
      ⟨h.single, h.vout⟩, h.nLockTime⟩

/-! ## What is hashed -/

/-- No script is longer without some of its operations. -/
lemma length_findAndDelete_le (b s : CScript) : (CScript.findAndDelete b s).length ≤ s.length := by
  induction s using CScript.findAndDelete.induct b with
  | case1 s hnone =>
    rw [CScript.findAndDelete]
    split
    · exact CScript.length_deleteStart_le b s
    · rename_i hsome
      rw [hnone] at hsome
      cases hsome
  | case2 s opcode vch pc hsome ih =>
    have hpc := CScript.length_lt_of_getOp2 hsome
    have hstart := CScript.length_deleteStart_le b s
    rw [CScript.findAndDelete]
    split
    · rename_i hnone
      rw [hsome] at hnone
      cases hnone
    · rename_i hsome'
      rw [hsome] at hsome'
      cases hsome'
      rw [List.length_append, List.length_take]
      omega

/-- What is hashed can be in memory, if the transaction and the script code can. -/
lemma signedTx_mem_inMemory (htx : txTo ∈ CTransaction.InMemory)
    (hscriptCode : scriptCode.length < 2 ^ 64) (hvin : nIn < txTo.vin.length)
    (hvout : nHashType &&& 0x1f = SIGHASH_SINGLE → nIn < txTo.vout.length) :
    signedTx scriptCode txTo nIn nHashType ∈ CTransaction.InMemory := by
  obtain ⟨⟨hvinSize, -⟩, hvoutSize, hscripts⟩ := htx
  have hblank : ∀ i txin, CTxIn.blank nIn scriptCode nHashType i txin ∈ CTxIn.InMemory := by
    intro i txin
    by_cases hi : i = nIn
    · have hle := length_findAndDelete_le [OP_CODESEPARATOR] scriptCode
      simpa [CTxIn.InMemory, CTxIn.blank, hi] using hle.trans_lt hscriptCode
    · simp [CTxIn.InMemory, CTxIn.blank, hi]
  constructor
  · rw [signedTx, signedVin]
    split_ifs
    · rw [List.getElem?_mapIdx, List.getElem?_eq_getElem hvin]
      simpa using hblank nIn txTo.vin[nIn]
    · refine ⟨by simpa using hvinSize, fun txin hmem => ?_⟩
      obtain ⟨i, hi, rfl⟩ := List.mem_mapIdx.mp hmem
      exact hblank i _
  · rw [signedTx, signedVout]
    split_ifs with hnone hsingle
    · simp
    · have hout := hvout hsingle
      rw [List.getElem?_eq_getElem hout]
      refine ⟨by simp only [List.length_append, List.length_replicate, Option.toList_some,
        List.length_singleton]; omega, fun txout hmem => ?_⟩
      rcases List.mem_append.mp hmem with hnull | hlast
      · rw [(List.mem_replicate.mp hnull).2]
        simp [CTxOut.InMemory]
      · rw [List.mem_singleton.mp hlast]
        exact hscripts _ (List.getElem_mem hout)
    · exact ⟨hvoutSize, hscripts⟩

/-- What `SignatureHash` hashes, if the position is in range. -/
def sigHashBytes (scriptCode : CScript) (txTo : CTransaction) (nIn : ℕ) (nHashType : Int32) :
    Bytes :=
  (signedTx scriptCode txTo nIn nHashType).serialize ++ serializeInt32 nHashType

end

/-- Two signature hashes are the same if and only if the transactions, the script codes and the hash
types agree in what is signed, unless what is hashed for them is a collision of the hash function. -/
theorem signatureHash_eq_iff (crypto : Crypto) (scriptCode scriptCode' : CScript)
    (txTo txTo' : CTransaction) (nIn : ℕ) (nHashType nHashType' : Int32)
    (hvin : nIn < txTo.vin.length) (hvin' : nIn < txTo'.vin.length)
    (hvout : nHashType &&& 0x1f = SIGHASH_SINGLE → nIn < txTo.vout.length)
    (hvout' : nHashType' &&& 0x1f = SIGHASH_SINGLE → nIn < txTo'.vout.length)
    (htx : txTo ∈ CTransaction.InMemory) (htx' : txTo' ∈ CTransaction.InMemory)
    (hscriptCode : scriptCode.length < 2 ^ 64) (hscriptCode' : scriptCode'.length < 2 ^ 64)
    (hfree : Set.InjOn crypto.hash {sigHashBytes scriptCode txTo nIn nHashType,
      sigHashBytes scriptCode' txTo' nIn nHashType'}) :
    signatureHash crypto scriptCode txTo nIn nHashType =
        signatureHash crypto scriptCode' txTo' nIn nHashType' ↔
      SignsSame nIn scriptCode scriptCode' txTo txTo' nHashType nHashType' := by
  rw [signatureHash, signatureHash, sigHashTx_eq hvin hvout, sigHashTx_eq hvin' hvout']
  constructor
  · intro hhash
    have hbytes := hfree (Set.mem_insert _ _) (Set.mem_insert_of_mem _ (Set.mem_singleton _)) hhash
    obtain ⟨hsigned, htype⟩ := CTransaction.determines_serialize
      (signedTx_mem_inMemory htx hscriptCode hvin hvout)
      (signedTx_mem_inMemory htx' hscriptCode' hvin' hvout') hbytes
    obtain ⟨rfl, -⟩ := determines_serializeInt32 (Set.mem_univ nHashType) (Set.mem_univ nHashType')
      (congrArg (· ++ []) htype)
    exact (signedTx_eq_iff hvin hvin' hvout hvout').mp hsigned
  · intro h
    obtain rfl := h.hashType
    rw [(signedTx_eq_iff hvin hvin' hvout hvout').mpr h]

/-- A transaction of another time has another signature hash, also if it signs no outputs. -/
theorem signatureHash_eq_iff_sampleTx :
    signatureHash Crypto.sample [OP_1] Crypto.sampleTx 0 SIGHASH_NONE ≠
      signatureHash Crypto.sample [OP_1] { Crypto.sampleTx with nTime := 1 } 0 SIGHASH_NONE := by
  have hsize : ∀ nTime, { Crypto.sampleTx with nTime } ∈ CTransaction.InMemory := by
    intro nTime
    simp [CTransaction.InMemory, CTxIn.InMemory, Crypto.sampleTx]
  have hiff := signatureHash_eq_iff Crypto.sample [OP_1] [OP_1] Crypto.sampleTx
    { Crypto.sampleTx with nTime := 1 } 0 SIGHASH_NONE SIGHASH_NONE (by decide) (by decide)
    (fun h => absurd h (by decide)) (fun h => absurd h (by decide)) (hsize 0) (hsize 1) (by decide)
    (by decide) (Set.injOn_pair.mpr fun h => absurd h (by decide +kernel))
  intro heq
  exact absurd (hiff.mp heq).nTime (by decide)

end HyperStake
