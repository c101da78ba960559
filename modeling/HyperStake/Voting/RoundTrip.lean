import HyperStake.Voting.Recognition

/-!
# Encoding and decoding a proposal

A proposal whose name and description have the lengths of a valid one is short enough to be pushed
by its length alone, so its bytes start at position six of the script and are found there by the
decoder.  Everything comes back except the version of the proposal, which is not in the bytes: the
serialisation writes the version of the stream in its place.
-/

namespace HyperStake

open FieldReader LittleEndian CScript

namespace CVoteProposal

section Short

variable {p : CVoteProposal}

/-- The script of a proposal with a short message: `OP_RETURN`, the length of the message, "PROP",
and the bytes of the proposal. -/
lemma script_eq_of_lt (h : p.message.length < 76) :
    p.script = OP_RETURN :: UInt8.ofNat p.message.length ::
      ([0x70, 0x72, 0x6f, 0x70] ++ p.serialize 0) := by
  unfold script
  rw [pushData_of_lt h]
  rfl

/-- The script of a proposal with a short message has the marker. -/
lemma hasMarker_script_of_lt (h : p.message.length < 76) : HasMarker p.script := by
  rw [script_eq_of_lt h]
  simp [HasMarker]

/-- The length of the bytes of a proposal, if the lengths of its strings take one byte. -/
lemma serialize_length_of_lt (hname : p.strName.length < 253)
    (hdesc : p.strDescription.length < 253) (nVersion : Int32) :
    (p.serialize nVersion).length = p.strName.length + p.strDescription.length + 16 := by
  simp only [serialize, serializeInt32, serializeUInt32, serializeString, VoteLocation.serialize,
    serializeUInt8, writeCompactSize_of_lt hname, writeCompactSize_of_lt hdesc,
    List.length_append, leBytes_length]
  omega

/-- The message of a proposal, if the lengths of its strings take one byte. -/
lemma message_length_of_lt (hname : p.strName.length < 253)
    (hdesc : p.strDescription.length < 253) :
    p.message.length = p.strName.length + p.strDescription.length + 20 := by
  unfold message
  rw [List.length_append, serialize_length_of_lt hname hdesc]
  simp only [List.length_cons, List.length_nil]
  omega

/-- A transaction whose first output has the script of a proposal with a short message decodes to the
proposal, but for the version. -/
lemma proposalFromTransaction_of_lt (h : p.message.length < 76)
    (hname : p.strName.length ≤ MAX_SIZE) (hdesc : p.strDescription.length ≤ MAX_SIZE)
    {tx : CTransaction} {txout : CTxOut} (h0 : tx.vout[0]? = some txout)
    (hscript : txout.scriptPubKey = p.script) (old : CVoteProposal) :
    tx.isProposal = .ok true ∧
      proposalFromTransaction tx old = .ok (true, { p with nVersion := old.nVersion }) := by
  have hmarker : HasMarker txout.scriptPubKey := by
    rw [hscript]
    exact hasMarker_script_of_lt h
  have htrue : tx.isProposal = .ok true :=
    (CTransaction.isProposal_eq_true_iff _).mpr
      ⟨_, CTransaction.scanStop_of_hasMarker_head h0 hmarker, hmarker⟩
  have hslice : sliceFrom 6 txout.scriptPubKey = .ok (p.serialize 0) := by
    rw [sliceFrom, if_pos hmarker.length_ge, hscript, script_eq_of_lt h]
    rfl
  have hread := (p.consumes_unserialize old 0 0 hname hdesc).eq_of_exact
  refine ⟨htrue, ?_⟩
  rw [proposalFromTransaction, htrue, h0]
  simp only [bind, Except.bind, Bool.not_true, Bool.false_eq_true, if_false, hslice, hread]
  rfl

end Short

/-- The name and the description have the lengths of a valid proposal. -/
structure HasValidLengths (p : CVoteProposal) : Prop where
  name_pos : 1 ≤ p.strName.length
  name_le : p.strName.length ≤ MAX_CHAR_NAME
  description_pos : 1 ≤ p.strDescription.length
  description_le : p.strDescription.length ≤ MAX_CHAR_ABSTRACT

variable {p : CVoteProposal}

section

variable (h : p.HasValidLengths)

include h

lemma HasValidLengths.name_lt : p.strName.length < 253 :=
  lt_of_le_of_lt h.name_le (by decide)

lemma HasValidLengths.description_lt : p.strDescription.length < 253 :=
  lt_of_le_of_lt h.description_le (by decide)

/-- The length of a valid proposal's bytes. -/
lemma HasValidLengths.serialize_length (nVersion : Int32) :
    (p.serialize nVersion).length = p.strName.length + p.strDescription.length + 16 :=
  serialize_length_of_lt h.name_lt h.description_lt nVersion

/-- The message of a valid proposal is short enough to be pushed by its length alone. -/
lemma HasValidLengths.message_length_lt : p.message.length < 76 := by
  have hname : p.strName.length ≤ 10 := h.name_le
  have hdesc : p.strDescription.length ≤ 30 := h.description_le
  rw [message_length_of_lt h.name_lt h.description_lt]
  omega

/-- The script of a valid proposal: `OP_RETURN`, the length of the message, "PROP", and the bytes
of the proposal. -/
lemma HasValidLengths.script_eq :
    p.script = OP_RETURN :: UInt8.ofNat p.message.length ::
      ([0x70, 0x72, 0x6f, 0x70] ++ p.serialize 0) :=
  script_eq_of_lt h.message_length_lt

/-- The length of the script of a valid proposal. -/
lemma HasValidLengths.script_length :
    p.script.length = p.strName.length + p.strDescription.length + 22 := by
  rw [h.script_eq]
  simp only [List.length_cons, List.length_append, h.serialize_length, List.length_nil]
  omega

end

/-- The hash of a proposal does not depend on its version. -/
lemma getHash_version (hash : Bytes → UInt256) (p : CVoteProposal) (nVersion : Int32) :
    ({ p with nVersion := nVersion } : CVoteProposal).getHash hash = p.getHash hash := rfl

/-- A valid proposal has a name, so it is not null. -/
lemma HasValidLengths.isNull_eq_false (h : p.HasValidLengths) : p.isNull = false := by
  have hne : p.strName ≠ [] := List.length_pos_iff.mp h.name_pos
  simp [isNull, hne]

/-- The transaction that `ConstructTransaction` leaves behind for a proposal with a name. -/
lemma HasValidLengths.constructTransaction_eq (h : p.HasValidLengths) (tx : CTransaction) :
    (p.constructTransaction tx).2 =
      { tx with vout := tx.vout ++ [{ nValue := 0, scriptPubKey := p.script }] } := by
  unfold constructTransaction
  rw [h.isNull_eq_false]
  simp only [Bool.false_eq_true, if_false]
  split <;> rfl

/-- The output that carries a valid proposal adds a fixed number of bytes, and the lengths of its
name and description, to a transaction without outputs. -/
lemma HasValidLengths.constructTransaction_fst_iff (h : p.HasValidLengths) {tx : CTransaction}
    (hvout : tx.vout = []) :
    (p.constructTransaction tx).1 = true ↔
      tx.getSerializeSize + 31 + UInt32.ofNat (p.strName.length + p.strDescription.length)
        ≤ MAX_BLOCK_SIZE := by
  have hname : p.strName.length ≤ 10 := h.name_le
  have hdesc : p.strDescription.length ≤ 30 := h.description_le
  have hcompact : getSizeOfCompactSize p.script.length = 1 := by
    rw [h.script_length]
    exact if_pos (by omega)
  have hsize : ({ tx with vout := [{ nValue := 0, scriptPubKey := p.script }] } :
      CTransaction).getSerializeSize
        = tx.getSerializeSize + 31 + UInt32.ofNat (p.strName.length + p.strDescription.length) := by
    have hout : getSerializeSizeVector CTxOut.getSerializeSize
        [{ nValue := 0, scriptPubKey := p.script }]
          = 1 + (8 + (1 + UInt32.ofNat p.script.length)) := by
      simp only [getSerializeSizeVector, CTxOut.getSerializeSize, getSerializeSizeString, hcompact,
        List.foldl_cons, List.foldl_nil, List.length_cons, List.length_nil]
      rfl
    have hnone : getSerializeSizeVector CTxOut.getSerializeSize tx.vout = 1 := by
      simp [hvout, getSerializeSizeVector, getSizeOfCompactSize]
    rw [CTransaction.getSerializeSize, CTransaction.getSerializeSize, hout, hnone, h.script_length,
      UInt32.ofNat_add]
    have h22 : UInt32.ofNat 22 = 22 := rfl
    rw [h22]
    grind
  unfold constructTransaction
  simp only [h.isNull_eq_false, Bool.false_eq_true, if_false, hvout, List.nil_append, hsize]
  split_ifs with hgt
  · simp only [false_iff]
    exact UInt32.not_le.mpr hgt
  · simp only [true_iff]
    exact UInt32.not_lt.mp hgt

end CVoteProposal

/-- Encoding a proposal in a transaction and decoding it into an object: the construction succeeds,
the transaction is recognised, and the proposal and its hash come back. -/
structure RoundTrips (hash : Bytes → UInt256) (p : CVoteProposal) (tx : CTransaction)
    (old : CVoteProposal) : Prop where
  constructed : (p.constructTransaction tx).1 = true
  recognised : (p.constructTransaction tx).2.isProposal = .ok true
  decoded : proposalFromTransaction (p.constructTransaction tx).2 old = .ok (true, p)
  same_hash : ∀ q, proposalFromTransaction (p.constructTransaction tx).2 old = .ok (true, q) →
    q.getHash hash = p.getHash hash

/-- What decoding does after encoding a valid proposal into a transaction without outputs. -/
lemma proposalFromTransaction_constructTransaction {p : CVoteProposal} (h : p.HasValidLengths)
    {tx : CTransaction} (hvout : tx.vout = []) (old : CVoteProposal) :
    (p.constructTransaction tx).2.isProposal = .ok true ∧
      proposalFromTransaction (p.constructTransaction tx).2 old
        = .ok (true, { p with nVersion := old.nVersion }) := by
  have htx := h.constructTransaction_eq tx
  rw [hvout, List.nil_append] at htx
  have h0 : (p.constructTransaction tx).2.vout[0]?
      = some { nValue := 0, scriptPubKey := p.script } := by
    rw [htx]
    rfl
  exact CVoteProposal.proposalFromTransaction_of_lt h.message_length_lt
    (h.name_lt.le.trans (by decide)) (h.description_lt.le.trans (by decide)) h0 rfl old

/-- A valid proposal makes the round trip through a transaction without outputs exactly when its
version is the one of the object it is decoded into, and the transaction has room for it. -/
theorem roundTrips_iff (hash : Bytes → UInt256) (p : CVoteProposal) (h : p.HasValidLengths)
    (tx : CTransaction) (hvout : tx.vout = []) (old : CVoteProposal) :
    RoundTrips hash p tx old ↔ p.nVersion = old.nVersion ∧
      tx.getSerializeSize + 31 + UInt32.ofNat (p.strName.length + p.strDescription.length)
        ≤ MAX_BLOCK_SIZE := by
  obtain ⟨htrue, hdecode⟩ := proposalFromTransaction_constructTransaction h hvout old
  have hsame : ({ p with nVersion := old.nVersion } : CVoteProposal) = p ↔
      p.nVersion = old.nVersion := by
    constructor
    · intro heq
      exact (congrArg CVoteProposal.nVersion heq).symm
    · intro hversion
      rw [← hversion]
  constructor
  · intro hround
    have heq := hround.decoded
    rw [hdecode, Except.ok.injEq, Prod.mk.injEq] at heq
    exact ⟨hsame.mp heq.2, (h.constructTransaction_fst_iff hvout).mp hround.constructed⟩
  · rintro ⟨hversion, hroom⟩
    refine ⟨(h.constructTransaction_fst_iff hvout).mpr hroom, htrue, ?_, ?_⟩
    · rw [hdecode, hsame.mpr hversion]
    · intro q hq
      rw [hdecode, Except.ok.injEq, Prod.mk.injEq] at hq
      rw [← hq.2]
      exact CVoteProposal.getHash_version hash p old.nVersion

/-- A proposal as `createproposal` makes it, with a given version. -/
def proposalOfVersion (nVersion : Int32) : CVoteProposal :=
  { nVersion := nVersion, strName := [0x66, 0x65, 0x65], nStartHeight := 10000000
    nCheckSpan := 1000, strDescription := [0x6c, 0x6f, 0x77, 0x65, 0x72]
    bitLocation := { nMostSignificantBit := 27, nLeastSignificantBit := 26 } }

/-- A proposal of version 0 makes the round trip through a new transaction. -/
theorem roundTrips_proposalOfVersion_zero :
    RoundTrips (fun _ => 0) (proposalOfVersion 0) {} {} :=
  (roundTrips_iff (fun _ => 0) (proposalOfVersion 0) ⟨by decide, by decide, by decide, by decide⟩
    {} rfl {}).mpr ⟨rfl, by decide⟩

/-- A proposal of the most recent version comes back as one of version 0. -/
theorem not_roundTrips_proposalOfVersion_one :
    ¬ ∀ hash, RoundTrips hash (proposalOfVersion 1) {} {} := by
  intro hround
  have hdecoded := (hround fun _ => 0).decoded
  revert hdecoded
  decide

end HyperStake
