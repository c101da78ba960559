import HyperStake.Library.Booking
import HyperStake.Transaction

/-!
# Vote proposals

The location of a proposal in the version field of a block, the proposal itself with its
serialisation, and the way a proposal travels in a transaction: `ConstructTransaction` appends an
output that carries it, `IsProposal` recognises a transaction that has such an output, and
`ProposalFromTransaction` reads the proposal back.
-/

namespace HyperStake

open FieldReader

/-! ## Locations -/

/-- The bits of the version field that a proposal occupies; bit positions increase from right to
left, starting at position 0. -/
structure VoteLocation where
  nMostSignificantBit : UInt8 := 0
  nLeastSignificantBit : UInt8 := 0
  deriving DecidableEq, Repr

namespace VoteLocation

/-- `GetBitCount`, in the arithmetic of `uint8_t`. -/
def getBitCount (l : VoteLocation) : UInt8 := l.nMostSignificantBit - l.nLeastSignificantBit + 1

def getShift (l : VoteLocation) : UInt8 := l.nLeastSignificantBit

/-- The bits from the least significant one to the most significant one. -/
def window (l : VoteLocation) : Booking.Interval ℕ :=
  ⟨l.nLeastSignificantBit.toNat, l.nMostSignificantBit.toNat⟩

def serialize (l : VoteLocation) : Bytes :=
  serializeUInt8 l.nMostSignificantBit ++ serializeUInt8 l.nLeastSignificantBit

def unserialize : Reader Fault UInt8 VoteLocation :=
  andThen (field nMostSignificantBit (fun b l => { l with nMostSignificantBit := b })
      unserializeUInt8)
    (field nLeastSignificantBit (fun b l => { l with nLeastSignificantBit := b }) unserializeUInt8)

/-- A location is read back from its bytes. -/
lemma consumes_unserialize (l old : VoteLocation) : Consumes unserialize l.serialize old l :=
  .next (consumes_unserializeUInt8 l.nMostSignificantBit _)
    (.field (consumes_unserializeUInt8 l.nLeastSignificantBit _))

end VoteLocation

/-! ## Proposals -/

/-- The longest name of a valid proposal. -/
def MAX_CHAR_NAME : ℕ := 10

/-- The longest description of a valid proposal. -/
def MAX_CHAR_ABSTRACT : ℕ := 30

/-- How far above the best height a voting period may start. -/
def MAX_BLOCKS_IN_FUTURE : Int32 := 28800

/-- The longest voting period. -/
def MAX_CHECKSPAN : UInt32 := 28800

/-- The version that hashes are serialised under. -/
def PROTOCOL_VERSION : Int32 := 72001

/-- A vote proposal. -/
structure CVoteProposal where
  nVersion : Int32 := 0
  strName : Bytes := []
  nStartHeight : UInt32 := 0
  nCheckSpan : UInt32 := 0
  bitLocation : VoteLocation := {}
  strDescription : Bytes := []
  deriving DecidableEq, Repr

namespace CVoteProposal

/-- The amount of money burnt when a proposal is made. -/
def FEE : Int64 := 5 * COIN

def isNull (p : CVoteProposal) : Bool := p.strName.isEmpty

/-- `CVoteProposal::Serialize`.  The first item is the `nVersion` that the macro takes as its
parameter, the version of the stream, and not the field of that name. -/
def serialize (nVersion : Int32) (p : CVoteProposal) : Bytes :=
  serializeInt32 nVersion ++ (serializeString p.strName ++ (serializeUInt32 p.nStartHeight ++
    (serializeUInt32 p.nCheckSpan ++ (serializeString p.strDescription ++
      p.bitLocation.serialize))))

/-- `CVoteProposal::Unserialize`.  The first item is read into the parameter `nVersion`, which the
macro declares, and is lost when the function returns. -/
def unserialize (nVersion : Int32) : Reader Fault UInt8 CVoteProposal :=
  andThen (discard nVersion unserializeInt32) <|
  andThen (field strName (fun x p => { p with strName := x }) unserializeString) <|
  andThen (field nStartHeight (fun x p => { p with nStartHeight := x }) unserializeUInt32) <|
  andThen (field nCheckSpan (fun x p => { p with nCheckSpan := x }) unserializeUInt32) <|
  andThen (field strDescription (fun x p => { p with strDescription := x }) unserializeString)
    (field bitLocation (fun x p => { p with bitLocation := x }) VoteLocation.unserialize)

/-- `GetHash`: the hash of the serialisation under the protocol version. -/
def getHash (hash : Bytes → UInt256) (p : CVoteProposal) : UInt256 :=
  hash (p.serialize PROTOCOL_VERSION)

def getStartHeight (p : CVoteProposal) : UInt32 := p.nStartHeight

def getCheckSpan (p : CVoteProposal) : UInt32 := p.nCheckSpan

def getLocation (p : CVoteProposal) : VoteLocation := p.bitLocation

def getBitCount (p : CVoteProposal) : UInt8 := p.bitLocation.getBitCount

/-- The message of a proposal transaction: the marker "PROP", then the proposal as serialised to a
stream of version 0. -/
def message (p : CVoteProposal) : Bytes := [0x70, 0x72, 0x6f, 0x70] ++ p.serialize 0

/-- The script that carries a proposal. -/
def script (p : CVoteProposal) : CScript :=
  CScript.pushData (CScript.pushOpcode [] OP_RETURN) p.message

/-- `ConstructTransaction`: append an output with the proposal.  Returns whether it succeeded, and
the transaction as it is left. -/
def constructTransaction (p : CVoteProposal) (tx : CTransaction) : Bool × CTransaction :=
  if p.isNull then (false, tx)
  else
    let out : CTxOut := { nValue := 0, scriptPubKey := p.script }
    let tx' := { tx with vout := tx.vout ++ [out] }
    if tx'.getSerializeSize > MAX_BLOCK_SIZE then (false, tx') else (true, tx')

/-- Reading the bytes of a proposal restores every field but `nVersion`. -/
lemma consumes_unserialize (p old : CVoteProposal) (nVersion nVersion' : Int32)
    (hname : p.strName.length ≤ MAX_SIZE) (hdesc : p.strDescription.length ≤ MAX_SIZE) :
    Consumes (unserialize nVersion') (p.serialize nVersion) old
      { p with nVersion := old.nVersion } := by
  refine ((consumes_unserializeInt32 nVersion nVersion').discard old).andThen ?_
  refine .next (consumes_unserializeString hname _) ?_
  refine .next (consumes_unserializeUInt32 p.nStartHeight _) ?_
  refine .next (consumes_unserializeUInt32 p.nCheckSpan _) ?_
  refine .next (consumes_unserializeString hdesc _) ?_
  exact .field (p.bitLocation.consumes_unserialize _)

end CVoteProposal

variable {old p : CVoteProposal}

/-- A proposal that is read has strings that `ReadCompactSize` accepts. -/
lemma CVoteProposal.unserialize_length_le {nVersion : Int32} {vch rest : Bytes}
    (h : CVoteProposal.unserialize nVersion old vch = (p, .ok rest)) :
    p.strName.length ≤ MAX_SIZE ∧ p.strDescription.length ≤ MAX_SIZE := by
  obtain ⟨p₁, s₁, -, h⟩ := andThen_eq_ok h
  obtain ⟨p₂, s₂, hname, h⟩ := andThen_eq_ok h
  obtain ⟨p₃, s₃, hstart, h⟩ := andThen_eq_ok h
  obtain ⟨p₄, s₄, hspan, h⟩ := andThen_eq_ok h
  obtain ⟨p₅, s₅, hdesc, hlocation⟩ := andThen_eq_ok h
  obtain ⟨strName, hnameRead, rfl⟩ := field_eq_ok hname
  obtain ⟨nStartHeight, -, rfl⟩ := field_eq_ok hstart
  obtain ⟨nCheckSpan, -, rfl⟩ := field_eq_ok hspan
  obtain ⟨strDescription, hdescRead, rfl⟩ := field_eq_ok hdesc
  obtain ⟨bitLocation, -, rfl⟩ := field_eq_ok hlocation
  exact ⟨unserializeString_length_le hnameRead, unserializeString_length_le hdescRead⟩

/-! ## Recognition -/

namespace CScript

/-- The test of one byte of a script, by `at`. -/
def byteIs (s : CScript) (i : ℕ) (b : UInt8) : Except Fault Bool := do
  return (← byteAt s i) == b

/-- The part of `IsProposal` that looks at one output: a data carrier of at least five bytes, with
"PROP" in its bytes two to five. -/
def carriesProp (scriptPubKey : CScript) : Except Fault Bool := do
  if ← isDataCarrier scriptPubKey then
    if scriptPubKey.length ≥ 5 then
      return ← byteIs scriptPubKey 2 0x70 <&&> byteIs scriptPubKey 3 0x72 <&&>
        byteIs scriptPubKey 4 0x6f <&&> byteIs scriptPubKey 5 0x70
  return false

end CScript

namespace CTransaction

/-- The loop of `IsProposal` over the outputs that are left. -/
def isProposalLoop : List CTxOut → Except Fault Bool
  | [] => .ok false
  | txout :: vout => do
    if ← CScript.carriesProp txout.scriptPubKey then return true
    isProposalLoop vout

def isProposal (tx : CTransaction) : Except Fault Bool := isProposalLoop tx.vout

end CTransaction

/-- The iterator range from `begin() + nSkip` to `end()` of a vector; it has to be a range. -/
def sliceFrom (nSkip : ℕ) (v : Bytes) : Except Fault Bytes :=
  if nSkip ≤ v.length then .ok (v.drop nSkip) else .error .undefined

/-- `ProposalFromTransaction`: whether a proposal was read, and the proposal as it is left. -/
def proposalFromTransaction (tx : CTransaction) (proposal : CVoteProposal) :
    Except Fault (Bool × CVoteProposal) := do
  if !(← tx.isProposal) then return (false, proposal)
  match tx.vout[0]? with
  | none => .error .undefined
  | some txout =>
    let vchProposal ← sliceFrom 6 txout.scriptPubKey
    match proposal.unserialize 0 vchProposal with
    | (proposal', .ok _) => return (true, proposal')
    | (proposal', .error _) => return (false, proposal')

/-- A proposal that is decoded from a transaction is read from its first output. -/
lemma proposalFromTransaction_eq_ok {tx : CTransaction} {txout : CTxOut}
    (hout : tx.vout[0]? = some txout) (h : proposalFromTransaction tx old = .ok (true, p)) :
    ∃ vch rest, sliceFrom 6 txout.scriptPubKey = .ok vch ∧
      CVoteProposal.unserialize 0 old vch = (p, .ok rest) := by
  rw [proposalFromTransaction] at h
  rcases hprop : tx.isProposal with e | _ | _
  · simp [hprop, bind, Except.bind] at h
  · simp [hprop, bind, Except.bind, pure, Except.pure] at h
  · rcases hslice : sliceFrom 6 txout.scriptPubKey with e | vch
    · simp [hprop, hout, hslice, bind, Except.bind] at h
    · rcases hread : CVoteProposal.unserialize 0 old vch with ⟨p', e | rest⟩
      · simp [hprop, hout, hslice, hread, bind, Except.bind, pure, Except.pure] at h
      · simp only [hprop, hout, hslice, hread, bind, Except.bind, pure, Except.pure,
          Bool.not_true, Bool.false_eq_true, if_false, Except.ok.injEq, Prod.mk.injEq,
          true_and] at h
        subst h
        exact ⟨vch, rest, rfl, hread⟩

/-- A proposal that is decoded from a transaction has strings that `ReadCompactSize` accepts. -/
lemma proposalFromTransaction_length_le {tx : CTransaction}
    (h : proposalFromTransaction tx old = .ok (true, p)) :
    p.strName.length ≤ MAX_SIZE ∧ p.strDescription.length ≤ MAX_SIZE := by
  cases hout : tx.vout[0]? with
  | none =>
    rw [proposalFromTransaction] at h
    rcases hprop : tx.isProposal with e | _ | _ <;>
      simp [hprop, hout, bind, Except.bind, pure, Except.pure] at h
  | some txout =>
    obtain ⟨vch, rest, -, hread⟩ := proposalFromTransaction_eq_ok hout h
    exact CVoteProposal.unserialize_length_le hread

/-- A hash for examples: the number whose bytes, the least significant one first, are given. -/
def sampleHash (bytes : Bytes) : UInt256 := BitVec.ofNat 256 (LittleEndian.leValue bytes)

end HyperStake
