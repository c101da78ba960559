import HyperStake.Wallet.Sent

/-!
# What a sent proposal announces

A sent transaction keeps the script that `ConstructTransaction` made of the arguments of
`createproposal`.  If the message of the proposal is pushed by its length alone then the script is
recognised and decodes to the proposal.  A longer message has a longer push before it, and then the
bytes from position six on start inside the marker, so that they are read as a proposal without a
name (`strName_eq_nil_of_le`).

The numbers among the arguments come back if the narrowing does not change them, and so
`announces_iff_fits` says exactly which arguments are announced.
-/

namespace HyperStake

open FieldReader CScript

/-! ## Narrowing -/

lemma toNat_getInt (n : ℤ) : ((getInt n).toUInt32.toNat : ℤ) = n % 2 ^ 32 := by
  change (((BitVec.ofInt 32 n).toNat : ℕ) : ℤ) = _
  rw [BitVec.toNat_ofInt, Int.toNat_of_nonneg (Int.emod_nonneg _ (by norm_num))]
  norm_num

/-- An `int` that is made an `int64` and then an `unsigned int`. -/
lemma toUInt32_toInt64 (x : Int32) : x.toInt64.toUInt64.toUInt32 = x.toUInt32 := by
  have hback := congrArg Int32.toUInt32 (Int32.toInt32_toInt64 x)
  rw [← hback]
  apply UInt32.toBitVec_inj.mp
  have hle : 32 ≤ 64 := by decide
  exact (BitVec.signExtend_eq_setWidth_of_le _ hle).symm

/-- A number that is narrowed to an `unsigned int` comes back if it is one. -/
lemma toNat_getInt_eq_iff (n : ℤ) : ((getInt n).toUInt32.toNat : ℤ) = n ↔ 0 ≤ n ∧ n < 2 ^ 32 := by
  rw [toNat_getInt]
  omega

/-- A number that is narrowed to a `uint8_t` comes back if it is one. -/
lemma toNat_getInt_toUInt8_eq_iff (n : ℤ) :
    ((getInt n).toUInt32.toUInt8.toNat : ℤ) = n ↔ 0 ≤ n ∧ n < 2 ^ 8 := by
  have hnat := toNat_getInt n
  rw [UInt32.toNat_toUInt8]
  push_cast
  rw [hnat]
  omega

/-! ## Long messages -/

/-- Four bytes and a zero are read as a version and an empty name. -/
lemma consumes_nameless (a b c d : UInt8) (nVersion : Int32) (old : CVoteProposal) :
    Consumes (andThen (FieldReader.discard nVersion unserializeInt32)
        (field CVoteProposal.strName (fun x p => { p with strName := x }) unserializeString))
      ([a, b, c, d] ++ [0]) old { old with strName := [] } := by
  have hversion : Consumes (FieldReader.discard nVersion unserializeInt32) [a, b, c, d] old old := by
    intro rest
    simp [FieldReader.discard, unserializeInt32, unserializeInt, CDataStream.read]
  have hname : Consumes unserializeString [0] old.strName [] := by
    intro rest
    rfl
  exact hversion.andThen (.field hname)

/-- Four bytes and a zero start a proposal without a name. -/
lemma strName_of_unserialize {a b c d : UInt8} {vch rest : Bytes} {nVersion : Int32}
    {old p : CVoteProposal}
    (h : CVoteProposal.unserialize nVersion old (a :: b :: c :: d :: 0 :: vch) = (p, .ok rest)) :
    p.strName = [] := by
  have hnameless := consumes_nameless a b c d nVersion old vch
  obtain ⟨p₁, s₁, hversion, h⟩ := andThen_eq_ok h
  obtain ⟨p₂, s₂, hname, h⟩ := andThen_eq_ok h
  have hp₂ : p₂ = { old with strName := [] } := by
    have hboth : andThen (FieldReader.discard nVersion unserializeInt32)
        (field CVoteProposal.strName (fun x p => { p with strName := x }) unserializeString)
        old (a :: b :: c :: d :: 0 :: vch) = (p₂, .ok s₂) := by
      rw [andThen, hversion]
      exact hname
    exact (Prod.mk.inj (hboth.symm.trans hnameless)).1
  obtain ⟨p₃, s₃, hstart, h⟩ := andThen_eq_ok h
  obtain ⟨p₄, s₄, hspan, h⟩ := andThen_eq_ok h
  obtain ⟨p₅, s₅, hdesc, hlocation⟩ := andThen_eq_ok h
  obtain ⟨nStartHeight, -, rfl⟩ := field_eq_ok hstart
  obtain ⟨nCheckSpan, -, rfl⟩ := field_eq_ok hspan
  obtain ⟨strDescription, -, rfl⟩ := field_eq_ok hdesc
  obtain ⟨bitLocation, -, rfl⟩ := field_eq_ok hlocation
  rw [hp₂]

/-- The bytes of a proposal start with the version of the stream, which is zero. -/
lemma serialize_zero_eq (p : CVoteProposal) :
    ∃ vch, p.serialize 0 = 0 :: 0 :: 0 :: 0 :: vch := ⟨_, rfl⟩

/-- The script of a proposal with a longer message, from position six on: the rest of the marker, or
the whole of it, stands in front of the version. -/
lemma drop_script_of_le {p : CVoteProposal} (h : 76 ≤ p.message.length) :
    ∃ a b c d vch, p.script.drop 6 = a :: b :: c :: d :: 0 :: vch := by
  obtain ⟨vch, hserialize⟩ := serialize_zero_eq p
  have hmessage : p.message = 0x70 :: 0x72 :: 0x6f :: 0x70 :: 0 :: 0 :: 0 :: 0 :: vch := by
    rw [CVoteProposal.message, hserialize]
    rfl
  have hlong : ¬ p.message.length < OP_PUSHDATA1.toNat := Nat.not_lt.mpr h
  rw [CVoteProposal.script, pushData, if_neg hlong]
  split_ifs
  · rw [hmessage]
    exact ⟨_, _, _, _, _, rfl⟩
  · rw [hmessage]
    exact ⟨_, _, _, _, _, rfl⟩
  · rw [hmessage]
    exact ⟨_, _, _, _, _, rfl⟩

/-- Whatever a transaction whose first output has a longer message decodes to has no name. -/
lemma strName_eq_nil_of_le {p q old : CVoteProposal} (h : 76 ≤ p.message.length)
    {tx : CTransaction} {txout : CTxOut} (h0 : tx.vout[0]? = some txout)
    (hscript : txout.scriptPubKey = p.script)
    (hdecode : proposalFromTransaction tx old = .ok (true, q)) : q.strName = [] := by
  obtain ⟨vch, rest, hslice, hread⟩ := proposalFromTransaction_eq_ok h0 hdecode
  obtain ⟨a, b, c, d, vch', hdrop⟩ := drop_script_of_le h
  rw [sliceFrom] at hslice
  split_ifs at hslice
  rw [← Except.ok.inj hslice, hscript, hdrop] at hread
  exact strName_of_unserialize hread

/-! ## What is announced -/

/-- The compact size of a length takes at least a byte. -/
lemma writeCompactSize_length_pos (nSize : ℕ) : 1 ≤ (writeCompactSize nSize).length := by
  unfold writeCompactSize
  split_ifs <;> simp

/-- The message is longer than the two strings by twenty bytes, or by more. -/
lemma le_message_length (p : CVoteProposal) :
    p.strName.length + p.strDescription.length + 20 ≤ p.message.length := by
  have hname := writeCompactSize_length_pos p.strName.length
  have hdesc := writeCompactSize_length_pos p.strDescription.length
  unfold CVoteProposal.message CVoteProposal.serialize
  simp only [serializeInt32, serializeUInt32, serializeString, VoteLocation.serialize,
    serializeUInt8, List.length_append, LittleEndian.leBytes_length, List.length_cons,
    List.length_nil]
  omega

namespace ProposalParams

/-- The arguments come back from the script of the proposal: the strings are short together, and the
numbers have the types that they are narrowed to. -/
structure Fits (params : ProposalParams) : Prop where
  strings : params.strName.length + params.strDescription.length ≤ 55
  nShift : 0 ≤ params.nShift ∧ params.nShift < 2 ^ 8
  nStartBlock : 0 ≤ params.nStartBlock ∧ params.nStartBlock < 2 ^ 32
  nCheckSpan : 0 ≤ params.nCheckSpan ∧ params.nCheckSpan < 2 ^ 32
  nBits : 0 ≤ params.nBits ∧ params.nBits < 2 ^ 8

/-- A proposal has exactly the values of the arguments. -/
structure Describes (params : ProposalParams) (p : CVoteProposal) : Prop where
  strName : p.strName = params.strName
  nShift : (p.getLocation.getShift.toNat : ℤ) = params.nShift
  nStartBlock : (p.getStartHeight.toNat : ℤ) = params.nStartBlock
  nCheckSpan : (p.getCheckSpan.toNat : ℤ) = params.nCheckSpan
  nBits : (p.getBitCount.toNat : ℤ) = params.nBits
  strDescription : p.strDescription = params.strDescription

/-- A transaction is recognised as a proposal, and decodes to one with exactly the values of the
arguments. -/
structure Announces (params : ProposalParams) (tx : CTransaction) : Prop where
  recognised : tx.isProposal = .ok true
  decoded : ∃ p, proposalFromTransaction tx {} = .ok (true, p) ∧ params.Describes p

variable {params : ProposalParams}

/-- The number of bits of the new proposal, in the arithmetic of `uint8_t`. -/
lemma getBitCount_proposal :
    params.proposal.getBitCount = (getInt params.nBits).toUInt32.toUInt8 := by
  change (getInt params.nShift).toUInt32.toUInt8 + (getInt params.nBits).toUInt32.toUInt8 - 1 -
    (getInt params.nShift).toUInt32.toUInt8 + 1 = _
  grind

/-- The new proposal, whatever its version, has exactly the values of the arguments if the narrowing
changes none of them. -/
lemma describes_proposal_iff (nVersion : Int32) :
    params.Describes { params.proposal with nVersion } ↔
      (0 ≤ params.nShift ∧ params.nShift < 2 ^ 8) ∧
      (0 ≤ params.nStartBlock ∧ params.nStartBlock < 2 ^ 32) ∧
      (0 ≤ params.nCheckSpan ∧ params.nCheckSpan < 2 ^ 32) ∧
      (0 ≤ params.nBits ∧ params.nBits < 2 ^ 8) := by
  have hstart : params.proposal.nStartHeight = (getInt params.nStartBlock).toUInt32 :=
    toUInt32_toInt64 _
  have hbits : ({ params.proposal with nVersion } : CVoteProposal).getBitCount
      = (getInt params.nBits).toUInt32.toUInt8 := getBitCount_proposal
  rw [← toNat_getInt_toUInt8_eq_iff params.nShift, ← toNat_getInt_eq_iff params.nStartBlock,
    ← toNat_getInt_eq_iff params.nCheckSpan, ← toNat_getInt_toUInt8_eq_iff params.nBits,
    ← hbits, ← hstart]
  constructor
  · intro h
    exact ⟨h.nShift, h.nStartBlock, h.nCheckSpan, h.nBits⟩
  · rintro ⟨hshift, hstartBlock, hspan, hcount⟩
    exact ⟨rfl, hshift, hstartBlock, hspan, hcount, rfl⟩

end ProposalParams

/-- A call of `createproposal` with these arguments has put their proposal under the hash, where no
other transaction was, and other calls may have come after it. -/
inductive CreatedBy (hash : Bytes → UInt256) (params : ProposalParams) (nTime : UInt32)
    (hashProposal : UInt256) : PendingProposals → Prop where
  | create {mapPendingProposals : PendingProposals}
      (hcall : (createproposal hash params nTime mapPendingProposals).1 = hashProposal)
      (hother : ∀ tx, mapPendingProposals[hashProposal]? = some tx →
        tx = params.transaction nTime) :
      CreatedBy hash params nTime hashProposal
        (createproposal hash params nTime mapPendingProposals).2
  | later {mapPendingProposals : PendingProposals} (params' : ProposalParams) (nTime' : UInt32) :
      CreatedBy hash params nTime hashProposal mapPendingProposals →
      CreatedBy hash params nTime hashProposal
        (createproposal hash params' nTime' mapPendingProposals).2

/-- The pending transaction is the one that the call has made. -/
lemma CreatedBy.getElem?_eq {hash : Bytes → UInt256} {params : ProposalParams} {nTime : UInt32}
    {hashProposal : UInt256} {mapPendingProposals : PendingProposals}
    (h : CreatedBy hash params nTime hashProposal mapPendingProposals) :
    mapPendingProposals[hashProposal]? = some (params.transaction nTime) := by
  induction h with
  | @create pending hcall hother =>
    have hkey : (params.transaction nTime).getHash hash = hashProposal := hcall
    rw [createproposal, MapLoop.getElem?_insertIfNew_eq, if_pos hkey]
    cases hold : pending[hashProposal]? with
    | none => rfl
    | some tx => exact congrArg some (hother tx hold)
  | @later pending params' nTime' _ ih =>
    rw [createproposal, MapLoop.getElem?_insertIfNew_eq, ih]
    simp

/-- A transaction that `sendproposal` commits for the proposal of some arguments announces it exactly
when the arguments fit. -/
theorem announces_iff_fits (wallet : SpendingWallet) {hash : Bytes → UInt256}
    {params : ProposalParams} {nTime : UInt32} {hashProposal : UInt256}
    {mapPendingProposals : PendingProposals}
    (hcreated : CreatedBy hash params nTime hashProposal mapPendingProposals) {tx : CTransaction}
    (hsend : sendproposal wallet mapPendingProposals hashProposal = .ok tx) :
    params.Announces tx ↔ params.Fits := by
  obtain ⟨tx₀, hget, hsend⟩ := sendproposal_eq_ok hsend
  rw [hcreated.getElem?_eq, Option.some.injEq] at hget
  obtain ⟨coins, nValueIn, txout, vout, change, hsent⟩ :=
    SpendingWallet.sendTransaction_eq_ok hsend
  obtain ⟨hnull, -, hout, -⟩ := constructTransaction_new hget.symm hsent.pending
  have h0 : tx.vout[0]? = some { txout with nValue := MIN_TXOUT_AMOUNT } := by
    rw [hsent.outputs]
    rfl
  have hscript : ({ txout with nValue := MIN_TXOUT_AMOUNT } : CTxOut).scriptPubKey
      = params.proposal.script := by
    rw [hout]
  have hname : params.proposal.strName = params.strName := rfl
  have hdesc : params.proposal.strDescription = params.strDescription := rfl
  by_cases hstrings : params.strName.length + params.strDescription.length ≤ 55
  · have hmax : MAX_SIZE = 33554432 := rfl
    have hshort : params.proposal.message.length < 76 := by
      rw [CVoteProposal.message_length_of_lt (by rw [hname]; omega) (by rw [hdesc]; omega), hname,
        hdesc]
      omega
    obtain ⟨htrue, hdecode⟩ := CVoteProposal.proposalFromTransaction_of_lt hshort
      (by rw [hname]; omega) (by rw [hdesc]; omega) h0 hscript {}
    constructor
    · intro h
      obtain ⟨p, hp, hdescribes⟩ := h.decoded
      rw [hdecode, Except.ok.injEq, Prod.mk.injEq] at hp
      rw [← hp.2, ProposalParams.describes_proposal_iff] at hdescribes
      obtain ⟨hshift, hstart, hspan, hbits⟩ := hdescribes
      exact ⟨hstrings, hshift, hstart, hspan, hbits⟩
    · intro h
      exact ⟨htrue, _, hdecode, (ProposalParams.describes_proposal_iff _).mpr
        ⟨h.nShift, h.nStartBlock, h.nCheckSpan, h.nBits⟩⟩
  · -- a longer message loses the name, and the proposal of a committed transaction has one
    constructor
    · intro h
      obtain ⟨p, hp, hdescribes⟩ := h.decoded
      have hlong := le_message_length params.proposal
      rw [hname, hdesc] at hlong
      have hnil := strName_eq_nil_of_le (by omega) h0 hscript hp
      rw [hdescribes.strName] at hnil
      rw [CVoteProposal.isNull, hname, hnil] at hnull
      cases hnull
    · intro h
      exact absurd h.strings hstrings

/-- Arguments whose strings have the lengths of a valid proposal. -/
def sampleParams : ProposalParams where
  strName := [0x66, 0x65, 0x65]
  nShift := 26
  nStartBlock := 10000000
  nCheckSpan := 1000
  nBits := 2
  strDescription := [0x6c, 0x6f, 0x77, 0x65, 0x72]

/-- The sample wallet announces the proposal of these arguments. -/
theorem announces_sampleSentTx : sampleParams.Announces (sampleSentTx sampleParams.proposal) :=
  (announces_iff_fits sampleWallet
    (CreatedBy.create rfl (by simp) : CreatedBy sampleHash sampleParams 0
      (createproposal sampleHash sampleParams 0 ∅).1
      (createproposal sampleHash sampleParams 0 ∅).2)
    (by decide +kernel)).mpr ⟨by decide, by decide, by decide, by decide, by decide⟩

/-- Arguments with a name of ten bytes and a description of forty-six. -/
def longParams : ProposalParams :=
  { sampleParams with
    strName := List.replicate 10 0x61, strDescription := List.replicate 46 0x62 }

/-- The sample wallet commits a transaction for them that is not recognised as a proposal. -/
theorem not_announces_sampleSentTx :
    sendproposal sampleWallet (createproposal sampleHash longParams 0 ∅).2
        (createproposal sampleHash longParams 0 ∅).1
          = .ok (sampleSentTx longParams.proposal) ∧
      ¬ longParams.Announces (sampleSentTx longParams.proposal) := by
  refine ⟨by decide +kernel, ?_⟩
  intro h
  have hrecognised := h.recognised
  revert hrecognised
  decide

end HyperStake
