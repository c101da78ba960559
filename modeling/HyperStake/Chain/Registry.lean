import HyperStake.Chain.Block
import HyperStake.Voting.Manager

/-!
# The registry of proposals

What a node knows about the proposals on its chain, in memory and in the vote database: the hash of
the proposal in every proposal transaction, the proposal manager, and a record of every proposal.
`ConnectBlock` registers the proposals of a block, and `CVoteDB::Load` reads the registry back from
the database when the program starts.

The records of the database are ordered by the bytes of their keys.
-/

namespace HyperStake

/-- The records of the vote database: the serialised proposal of every proposal transaction, by the
bytes of its hash. -/
abbrev CVoteDB := Std.ExtTreeMap Bytes Bytes

namespace CVoteDB

/-- The bytes of the key of a transaction. -/
def key (txid : UInt256) : Bytes := LittleEndian.leBytes 32 txid.toNat

/-- The transaction of a key. -/
def txidOfKey (ssKey : Bytes) : UInt256 := BitVec.ofNat 256 (LittleEndian.leValue ssKey)

/-- `WriteProposal`, on a database that takes the record. -/
def writeProposal (txid : UInt256) (proposal : CVoteProposal) (voteDB : CVoteDB) : CVoteDB :=
  voteDB.insert (key txid) (proposal.serialize CLIENT_VERSION)

/-- The proposal that a record is read as. -/
def proposalOfRecord (ssValue : Bytes) : Option CVoteProposal :=
  match CVoteProposal.unserialize CLIENT_VERSION {} ssValue with
  | (proposal, .ok _) => some proposal
  | (_, .error _) => none

def readProposal (txid : UInt256) (voteDB : CVoteDB) : Option CVoteProposal :=
  voteDB[key txid]?.bind proposalOfRecord

/-- The record of a proposal is read as the proposal, but for its version. -/
lemma proposalOfRecord_serialize {p : CVoteProposal} (hname : p.strName.length ≤ MAX_SIZE)
    (hdesc : p.strDescription.length ≤ MAX_SIZE) :
    proposalOfRecord (p.serialize CLIENT_VERSION) = some { p with nVersion := 0 } := by
  have hread := (p.consumes_unserialize {} CLIENT_VERSION CLIENT_VERSION hname hdesc).eq_of_exact
  rw [proposalOfRecord, hread]

end CVoteDB

/-- The registry: the proposal hash of every proposal transaction, the manager and the database. -/
structure Registry where
  mapProposals : Std.ExtTreeMap UInt256 UInt256 := ∅
  proposalManager : CVoteProposalManager := .empty
  voteDB : CVoteDB := ∅

namespace Registry

/-- `GetProposalTXID`: the first transaction that has a proposal. -/
def getProposalTXID (r : Registry) (hashProposal : UInt256) : Option UInt256 :=
  (r.mapProposals.toList.find? fun mit => mit.2 == hashProposal).map Prod.fst

/-- What `ConnectBlock` does with a proposal that it has decoded from a transaction. `fWrite` says
whether the database takes the record. -/
def register (hash : Bytes → UInt256) (fWrite : Bool) (txid : UInt256) (proposal : CVoteProposal)
    (r : Registry) : Registry :=
  let r' := { r with mapProposals := r.mapProposals.insert txid (proposal.getHash hash) }
  if fWrite then
    { r' with
      voteDB := r.voteDB.writeProposal txid proposal
      proposalManager := (r.proposalManager.add hash proposal).2 }
  else r'

/-- One turn of the loop of `CVoteDB::Load`: a record that cannot be read is passed over. -/
def loadRecord (hash : Bytes → UInt256) (r : Registry) (record : Bytes × Bytes) : Registry :=
  match CVoteDB.proposalOfRecord record.2 with
  | none => r
  | some proposal =>
    { r with
      mapProposals :=
        r.mapProposals.insertIfNew (CVoteDB.txidOfKey record.1) (proposal.getHash hash)
      proposalManager := (r.proposalManager.add hash proposal).2 }

/-- `CVoteDB::Load`. -/
def load (hash : Bytes → UInt256) (r : Registry) : Registry :=
  r.voteDB.toList.foldl (loadRecord hash) r

/-- The registry of a program that has just been started: the database is all that is left. -/
def restart (r : Registry) : Registry := { voteDB := r.voteDB }

end Registry

end HyperStake
