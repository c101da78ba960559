import HyperStake.Chain.BlockIndex
import HyperStake.Voting.Ballot

/-!
# The block index on disk

`CDiskBlockIndex` is the form in which the index of a block is stored: the pointers are written as
the hashes of the blocks they point to, the data of a stake only for a proof-of-stake block, and the
tally only where votes are counted.  Every part of a record is read back
(`CDiskBlockIndex.consumes_unserialize`).
-/

namespace HyperStake

open FieldReader LittleEndian

/-! ## The tally in a record -/

namespace CVoteSummary

def serialize (summary : CVoteSummary) : Bytes :=
  serializeUInt32 summary.nBlockStart ++ (serializeUInt32 summary.nCheckSpan ++
    (serializeUInt32 summary.nYesTally ++ serializeUInt32 summary.nNoTally))

def unserialize : Reader Fault UInt8 CVoteSummary :=
  andThen (field nBlockStart (fun x s => { s with nBlockStart := x }) unserializeUInt32) <|
  andThen (field nCheckSpan (fun x s => { s with nCheckSpan := x }) unserializeUInt32) <|
  andThen (field nYesTally (fun x s => { s with nYesTally := x }) unserializeUInt32)
    (field nNoTally (fun x s => { s with nNoTally := x }) unserializeUInt32)

/-- A summary is read back from its bytes. -/
lemma consumes_unserialize (summary old : CVoteSummary) :
    Consumes unserialize summary.serialize old summary := by
  refine .next (consumes_unserializeUInt32 summary.nBlockStart _) ?_
  refine .next (consumes_unserializeUInt32 summary.nCheckSpan _) ?_
  refine .next (consumes_unserializeUInt32 summary.nYesTally _) ?_
  exact .field (consumes_unserializeUInt32 summary.nNoTally _)

end CVoteSummary

namespace CVoteTally

def serialize (tally : CVoteTally) : Bytes :=
  serializeUInt32 tally.nHeight ++
    (serializeMap serializeUInt256 CVoteSummary.serialize tally.mapVotes ++
      serializeMap serializeUInt256 VoteLocation.serialize tally.mapLocations)

def unserialize : Reader Fault UInt8 CVoteTally :=
  andThen (field nHeight (fun x t => { t with nHeight := x }) unserializeUInt32) <|
  andThen (field mapVotes (fun x t => { t with mapVotes := x })
      (unserializeMap unserializeUInt256 CVoteSummary.unserialize (0, {})))
    (field mapLocations (fun x t => { t with mapLocations := x })
      (unserializeMap unserializeUInt256 VoteLocation.unserialize (0, {})))

/-- The maps of a tally have sizes that `ReadCompactSize` accepts. -/
structure Loadable (tally : CVoteTally) : Prop where
  votes : tally.mapVotes.size ≤ MAX_SIZE
  locations : tally.mapLocations.size ≤ MAX_SIZE

lemma loadable_empty : ({} : CVoteTally).Loadable :=
  ⟨by simp, by simp⟩

/-- A tally is read back from its bytes. -/
lemma consumes_unserialize {tally : CVoteTally} (h : tally.Loadable) (old : CVoteTally) :
    Consumes unserialize tally.serialize old tally := by
  refine .next (consumes_unserializeUInt32 tally.nHeight _) ?_
  refine .next (consumes_unserializeMap (fun mi _ => consumes_unserializeUInt256 mi.1 _)
    (fun mi _ => mi.2.consumes_unserialize _) h.votes _) ?_
  exact .field (consumes_unserializeMap (fun mi _ => consumes_unserializeUInt256 mi.1 _)
    (fun mi _ => mi.2.consumes_unserialize _) h.locations _)

end CVoteTally

/-! ## The record of an index -/

/-- The form of a block index that is stored, with the pointers marshalled into hashes. -/
structure CDiskBlockIndex extends CBlockIndex where
  blockHash : UInt256 := 0
  hashPrev : UInt256 := 0
  hashNext : UInt256 := 0

namespace CDiskBlockIndex

/-- The constructor from a block index. -/
def ofIndex (pindex : CBlockIndex) : CDiskBlockIndex :=
  { pindex with hashPrev := pindex.pprev, hashNext := pindex.pnext }

/-- `GetBlockHash`: the hash that is stored, or else the one of the header. -/
def getBlockHash (hash9 : Bytes → UInt256) (d : CDiskBlockIndex) : UInt256 :=
  if d.blockHash != 0 then d.blockHash
  else
    CBlock.getHash hash9
      { nVersion := d.nVersion, hashPrevBlock := d.hashPrev, hashMerkleRoot := d.hashMerkleRoot
        nTime := d.nTime, nBits := d.nBits, nNonce := d.nNonce }

/-- `WriteBlockIndex` calls `GetBlockHash` for the key, which stores the hash in the object. -/
def withBlockHash (hash9 : Bytes → UInt256) (d : CDiskBlockIndex) : CDiskBlockIndex :=
  { d with blockHash := d.getBlockHash hash9 }

/-- The condition under which the tally is part of the record. -/
def hasTally (fTestNet : Bool) (d : CDiskBlockIndex) : Bool :=
  decide (d.nVersion ≥ VOTING_VERSION) &&
    (fTestNet || decide (d.nHeight ≥ VOTING_START.toInt32))

/-- The part of `CDiskBlockIndex::Serialize` before the tally, on disk.  The first item is the
version of the stream. -/
def serializeFields (d : CDiskBlockIndex) : Bytes :=
  serializeInt32 CLIENT_VERSION ++ (serializeUInt256 d.hashNext ++ (serializeUInt32 d.nFile ++
    (serializeUInt32 d.nBlockPos ++ (serializeInt32 d.nHeight ++ (serializeInt64 d.nMint ++
    (serializeInt64 d.nMoneySupply ++ (serializeUInt32 d.nFlags ++
    (serializeUInt64 d.nStakeModifier ++
    ((if d.isProofOfStake then
        d.prevoutStake.serialize ++ (serializeUInt32 d.nStakeTime ++
          serializeUInt256 d.hashProofOfStake)
      else []) ++
    (serializeInt32 d.nVersion ++ (serializeUInt256 d.hashPrev ++
    (serializeUInt256 d.hashMerkleRoot ++ (serializeUInt32 d.nTime ++ (serializeUInt32 d.nBits ++
    (serializeUInt32 d.nNonce ++ serializeUInt256 d.blockHash)))))))))))))))

/-- `CDiskBlockIndex::Serialize`. -/
def serialize (fTestNet : Bool) (d : CDiskBlockIndex) : Bytes :=
  d.serializeFields ++ (if d.hasTally fTestNet then d.tally.serialize else [])

/-- The data of the stake, which only the record of a proof-of-stake block has. -/
def unserializeStake : Reader Fault UInt8 CDiskBlockIndex :=
  branch (fun d => d.isProofOfStake)
    (andThen (field (fun d => d.prevoutStake) (fun x d => { d with prevoutStake := x })
        COutPoint.unserialize) <|
      andThen (field (fun d => d.nStakeTime) (fun x d => { d with nStakeTime := x })
          unserializeUInt32)
        (field (fun d => d.hashProofOfStake) (fun x d => { d with hashProofOfStake := x })
          unserializeUInt256))
    (update fun d => { d with prevoutStake := {}, nStakeTime := 0, hashProofOfStake := 0 })

/-- The part of `CDiskBlockIndex::Unserialize` before the tally.  The version of the stream is read
into the parameter of that name and lost. -/
def unserializeFields : Reader Fault UInt8 CDiskBlockIndex :=
  andThen (discard CLIENT_VERSION unserializeInt32) <|
  andThen (field hashNext (fun x d => { d with hashNext := x }) unserializeUInt256) <|
  andThen (field (fun d => d.nFile) (fun x d => { d with nFile := x }) unserializeUInt32) <|
  andThen (field (fun d => d.nBlockPos) (fun x d => { d with nBlockPos := x })
    unserializeUInt32) <|
  andThen (field (fun d => d.nHeight) (fun x d => { d with nHeight := x }) unserializeInt32) <|
  andThen (field (fun d => d.nMint) (fun x d => { d with nMint := x }) unserializeInt64) <|
  andThen (field (fun d => d.nMoneySupply) (fun x d => { d with nMoneySupply := x })
    unserializeInt64) <|
  andThen (field (fun d => d.nFlags) (fun x d => { d with nFlags := x }) unserializeUInt32) <|
  andThen (field (fun d => d.nStakeModifier) (fun x d => { d with nStakeModifier := x })
    unserializeUInt64) <|
  andThen unserializeStake <|
  andThen (field (fun d => d.nVersion) (fun x d => { d with nVersion := x }) unserializeInt32) <|
  andThen (field hashPrev (fun x d => { d with hashPrev := x }) unserializeUInt256) <|
  andThen (field (fun d => d.hashMerkleRoot) (fun x d => { d with hashMerkleRoot := x })
    unserializeUInt256) <|
  andThen (field (fun d => d.nTime) (fun x d => { d with nTime := x }) unserializeUInt32) <|
  andThen (field (fun d => d.nBits) (fun x d => { d with nBits := x }) unserializeUInt32) <|
  andThen (field (fun d => d.nNonce) (fun x d => { d with nNonce := x }) unserializeUInt32)
    (field blockHash (fun x d => { d with blockHash := x }) unserializeUInt256)

/-- The tally, which only the record of a block with votes has. -/
def unserializeTally (fTestNet : Bool) : Reader Fault UInt8 CDiskBlockIndex :=
  branch (fun d => d.hasTally fTestNet)
    (field (fun d => d.tally) (fun x d => { d with tally := x }) CVoteTally.unserialize)
    (update id)

/-- `CDiskBlockIndex::Unserialize`. -/
def unserialize (fTestNet : Bool) : Reader Fault UInt8 CDiskBlockIndex :=
  andThen unserializeFields (unserializeTally fTestNet)

/-- What reading the part before the tally over an object leaves. -/
def readBack (d old : CDiskBlockIndex) : CDiskBlockIndex :=
  { d with
    phashBlock := old.phashBlock, pprev := old.pprev, pnext := old.pnext, tally := old.tally
    prevoutStake := if d.isProofOfStake then d.prevoutStake else {}
    nStakeTime := if d.isProofOfStake then d.nStakeTime else 0
    hashProofOfStake := if d.isProofOfStake then d.hashProofOfStake else 0 }

/-- The data of the stake is read back where it is written, and reset elsewhere. -/
lemma consumes_unserializeStake {d a : CDiskBlockIndex} (h : a.nFlags = d.nFlags) :
    Consumes unserializeStake
      (if d.isProofOfStake then
        d.prevoutStake.serialize ++ (serializeUInt32 d.nStakeTime ++
          serializeUInt256 d.hashProofOfStake)
      else []) a
      { a with
        prevoutStake := if d.isProofOfStake then d.prevoutStake else {}
        nStakeTime := if d.isProofOfStake then d.nStakeTime else 0
        hashProofOfStake := if d.isProofOfStake then d.hashProofOfStake else 0 } := by
  have hstake : a.isProofOfStake = d.isProofOfStake := by
    rw [CBlockIndex.isProofOfStake, CBlockIndex.isProofOfStake, h]
  refine Consumes.branch (fun hp => ?_) (fun hp => ?_)
  · rw [← hstake, if_pos hp, if_pos hp, if_pos hp, if_pos hp]
    refine .next (d.prevoutStake.consumes_unserialize _) ?_
    refine .next (consumes_unserializeUInt32 d.nStakeTime _) ?_
    exact .field (consumes_unserializeUInt256 d.hashProofOfStake _)
  · have hn : ¬ d.isProofOfStake = true := by
      rw [← hstake, hp]
      exact Bool.false_ne_true
    rw [if_neg hn, if_neg hn, if_neg hn, if_neg hn]
    exact Consumes.update _ a

/-- The fields before the tally are read back. -/
lemma consumes_unserializeFields (d old : CDiskBlockIndex) :
    Consumes unserializeFields d.serializeFields old (d.readBack old) := by
  refine ((consumes_unserializeInt32 CLIENT_VERSION CLIENT_VERSION).discard old).andThen ?_
  refine .next (consumes_unserializeUInt256 d.hashNext _) ?_
  refine .next (consumes_unserializeUInt32 d.nFile _) ?_
  refine .next (consumes_unserializeUInt32 d.nBlockPos _) ?_
  refine .next (consumes_unserializeInt32 d.nHeight _) ?_
  refine .next (consumes_unserializeInt64 d.nMint _) ?_
  refine .next (consumes_unserializeInt64 d.nMoneySupply _) ?_
  refine .next (consumes_unserializeUInt32 d.nFlags _) ?_
  refine .next (consumes_unserializeUInt64 d.nStakeModifier _) ?_
  refine Consumes.andThen (consumes_unserializeStake (d := d) ?_) ?_
  · rfl
  refine .next (consumes_unserializeInt32 d.nVersion _) ?_
  refine .next (consumes_unserializeUInt256 d.hashPrev _) ?_
  refine .next (consumes_unserializeUInt256 d.hashMerkleRoot _) ?_
  refine .next (consumes_unserializeUInt32 d.nTime _) ?_
  refine .next (consumes_unserializeUInt32 d.nBits _) ?_
  refine .next (consumes_unserializeUInt32 d.nNonce _) ?_
  exact .field (consumes_unserializeUInt256 d.blockHash _)

/-- Every part of a record is read back, the tally included. -/
theorem consumes_unserialize (fTestNet : Bool) {d : CDiskBlockIndex}
    (h : d.hasTally fTestNet = true → d.tally.Loadable) (old : CDiskBlockIndex) :
    Consumes (unserialize fTestNet) (d.serialize fTestNet) old
      { d.readBack old with
        tally := if d.hasTally fTestNet then d.tally else old.tally } := by
  refine (d.consumes_unserializeFields old).andThen ?_
  have hcond : (d.readBack old).hasTally fTestNet = d.hasTally fTestNet := rfl
  refine Consumes.branch (fun hp => ?_) (fun hp => ?_)
  · rw [← hcond, if_pos hp, if_pos hp]
    exact .field (CVoteTally.consumes_unserialize (h hp) _)
  · have hn : ¬ d.hasTally fTestNet = true := by
      rw [← hcond, hp]
      exact Bool.false_ne_true
    rw [if_neg hn, if_neg hn]
    exact Consumes.update id _

/-- Whatever the tally is read as, the fields before it are read back. -/
lemma unserialize_fst (fTestNet : Bool) (d old : CDiskBlockIndex) :
    ∃ tally, (unserialize fTestNet old (d.serialize fTestNet)).1
      = { d.readBack old with tally } := by
  rw [unserialize, serialize, FieldReader.andThen, d.consumes_unserializeFields old]
  dsimp only
  rw [unserializeTally, FieldReader.branch]
  cases hasTally fTestNet (d.readBack old) with
  | true => exact ⟨_, rfl⟩
  | false => exact ⟨(d.readBack old).tally, rfl⟩

end CDiskBlockIndex

end HyperStake
