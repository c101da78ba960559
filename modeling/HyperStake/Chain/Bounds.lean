import HyperStake.Chain.ConnectBlock
import HyperStake.Voting.Admission

/-!
# The bounds on registered proposals

`CheckProposal` bounds the name, the description, the start and the length of the voting period of a
proposal, and is asked by the memory pool.  A block may hold any transaction, though, and
`ConnectBlock` registers every proposal that it decodes; `CVoteDB::Load` reads back what was
registered.  So the proposals that the manager holds have the bounds if those that are registered
have them (`Run.held`), and nothing else in the node makes sure of that.
-/

namespace HyperStake

/-- The bounds on a proposal that is connected at a height. -/
structure CVoteProposal.InBounds (p : CVoteProposal) (nHeight : Int32) : Prop where
  name_pos : 1 ≤ p.strName.length
  name_le : p.strName.length ≤ MAX_CHAR_NAME
  description_pos : 1 ≤ p.strDescription.length
  description_le : p.strDescription.length ≤ MAX_CHAR_ABSTRACT
  checkSpan_pos : 1 ≤ p.nCheckSpan
  checkSpan_le : p.nCheckSpan ≤ MAX_CHECKSPAN
  start_gt : nHeight.toInt < p.nStartHeight.toNat
  start_le : (p.nStartHeight.toNat : ℤ) ≤ nHeight.toInt + MAX_BLOCKS_IN_FUTURE.toInt
  inside : p.bitLocation.Inside

/-! ## What a call registers -/

section Registrations

variable {Db : Type} (hash : Bytes → UInt256) (node : Node Db)

/-- The proposals that the registration loop of `ConnectBlock` decodes, with their transactions, up
to the first fault. -/
def decodedProposals (vQueuedProposals : List UInt256) :
    List CTransaction → List (UInt256 × CVoteProposal)
  | [] => []
  | tx :: vtx =>
    let txid := tx.getHash hash
    if vQueuedProposals.contains txid then
      match proposalFromTransaction tx {} with
      | .error _ => []
      | .ok (false, _) => decodedProposals vQueuedProposals vtx
      | .ok (true, proposal) => (txid, proposal) :: decodedProposals vQueuedProposals vtx
    else decodedProposals vQueuedProposals vtx

/-- The loop registers the proposals that it decodes. -/
lemma registerProposals_snd (vQueuedProposals : List UInt256) (vtx : List CTransaction)
    (r : Registry) :
    (registerProposals hash node vQueuedProposals vtx r).2 =
      (decodedProposals hash vQueuedProposals vtx).foldl
        (fun r p => r.register hash (node.writesProposal p.1) p.1 p.2) r := by
  induction vtx generalizing r with
  | nil => rfl
  | cons tx vtx ih =>
    rw [registerProposals, decodedProposals]
    by_cases hqueued : vQueuedProposals.contains (tx.getHash hash) = true
    · simp only [hqueued, if_true]
      rcases hdecode : proposalFromTransaction tx {} with e | ⟨_ | _, proposal⟩
      · rfl
      · exact ih r
      · exact ih _
    · rw [if_neg hqueued, if_neg hqueued]
      exact ih r

/-- The proposals that a call of `ConnectBlock` registers. -/
def registrations (db : Db) (block : CBlock) (pindex : CBlockIndex) (fJustCheck : Bool) :
    List (UInt256 × CVoteProposal) :=
  match connectTransactions hash node db block pindex fJustCheck with
  | .error _ => []
  | .ok s => if fJustCheck then [] else decodedProposals hash s.vQueuedProposals block.vtx

/-- Those of them that the vote database takes, with the height of the block. -/
def recordedProposals (db : Db) (block : CBlock) (pindex : CBlockIndex) (fJustCheck : Bool) :
    List (CVoteProposal × Int32) :=
  ((registrations hash node db block pindex fJustCheck).filter
    fun p => node.writesProposal p.1).map fun p => (p.2, pindex.nHeight)

lemma mem_recordedProposals {db : Db} {block : CBlock} {pindex : CBlockIndex} {fJustCheck : Bool}
    {p : UInt256 × CVoteProposal} (hp : p ∈ registrations hash node db block pindex fJustCheck)
    (hwrite : node.writesProposal p.1 = true) :
    (p.2, pindex.nHeight) ∈ recordedProposals hash node db block pindex fJustCheck :=
  List.mem_map_of_mem (List.mem_filter.mpr ⟨hp, hwrite⟩)

/-- Whatever a call of `ConnectBlock` returns, what it does to the registry is to register these
proposals. -/
lemma connectBlock_registry (db : Db) (block : CBlock) (pindex : CBlockIndex)
    (pprev : Option CBlockIndex) (fJustCheck : Bool) (r : Registry) :
    (connectBlock hash node db block pindex pprev fJustCheck r).registry =
      (registrations hash node db block pindex fJustCheck).foldl
        (fun r p => r.register hash (node.writesProposal p.1) p.1 p.2) r := by
  rw [connectBlock, registrations]
  cases hconnect : connectTransactions hash node db block pindex fJustCheck with
  | error exit => rfl
  | ok s =>
    cases fJustCheck with
    | true => rfl
    | false =>
      simp only [Bool.false_eq_true, if_false]
      rw [← registerProposals_snd hash node]
      rcases registerProposals hash node s.vQueuedProposals block.vtx r with ⟨_ | e, r'⟩
      · exact connectVotes_registry node _ _ _ _ _ _
      · rfl

end Registrations

/-! ## Runs -/

/-- The registries that calls of `ConnectBlock`, by any node on any block, and of `CVoteDB::Load`
lead to, also across restarts of the program, with the proposals recorded on the way and the heights
of their blocks. -/
inductive Run (hash : Bytes → UInt256) : List (CVoteProposal × Int32) → Registry → Prop
  | start : Run hash [] {}
  | connectBlock {regs : List (CVoteProposal × Int32)} {r : Registry} {Db : Type} (node : Node Db)
      (db : Db) (block : CBlock) (pindex : CBlockIndex) (pprev : Option CBlockIndex)
      (fJustCheck : Bool) :
      Run hash regs r →
      Run hash (regs ++ recordedProposals hash node db block pindex fJustCheck)
        (connectBlock hash node db block pindex pprev fJustCheck r).registry
  | load {regs : List (CVoteProposal × Int32)} {r : Registry} :
      Run hash regs r → Run hash regs (r.load hash)
  | restart {regs : List (CVoteProposal × Int32)} {r : Registry} :
      Run hash regs r → Run hash regs r.restart

/-- Everything that the manager holds is the metadata of a proposal that was registered at a height
for which it has the bounds. -/
def HeldInBounds (hash : Bytes → UInt256) (regs : List (CVoteProposal × Int32)) (r : Registry) :
    Prop :=
  ∀ (h : UInt256) (data : CProposalMetaData), r.proposalManager.mapProposalData[h]? = some data →
    ∃ reg ∈ regs, data = CProposalMetaData.ofProposal hash reg.1 ∧ reg.1.InBounds reg.2

/-- The manager holds, and the database has records of, no proposals but registered ones. -/
structure Traces (hash : Bytes → UInt256) (regs : List (CVoteProposal × Int32)) (r : Registry) :
    Prop where
  held : ∀ {h : UInt256} {data : CProposalMetaData},
    r.proposalManager.mapProposalData[h]? = some data →
    ∃ reg ∈ regs, data = CProposalMetaData.ofProposal hash reg.1
  recorded : ∀ {k v : Bytes}, r.voteDB[k]? = some v →
    ∃ reg ∈ regs, v = reg.1.serialize CLIENT_VERSION

namespace Traces

variable {hash : Bytes → UInt256} {regs regs' : List (CVoteProposal × Int32)} {r : Registry}

section

variable (h : Traces hash regs r)

include h

lemma mono (hsub : ∀ reg ∈ regs, reg ∈ regs') : Traces hash regs' r := by
  constructor
  · intro k data hget
    obtain ⟨reg, hreg, hdata⟩ := h.held hget
    exact ⟨reg, hsub reg hreg, hdata⟩
  · intro k v hget
    obtain ⟨reg, hreg, hv⟩ := h.recorded hget
    exact ⟨reg, hsub reg hreg, hv⟩

/-- Registering a proposal, which is one of those in question if the database takes it. -/
lemma register {reg : CVoteProposal × Int32} {fWrite : Bool}
    (hreg : fWrite = true → reg ∈ regs) (txid : UInt256) :
    Traces hash regs (r.register hash fWrite txid reg.1) := by
  cases fWrite with
  | false => exact ⟨h.held, h.recorded⟩
  | true =>
    constructor
    · intro k data hget
      rcases CVoteProposalManager.getElem?_add_cases hget with hold | ⟨-, hnew⟩
      · exact h.held hold
      · exact ⟨reg, hreg rfl, hnew⟩
    · intro k v hget
      simp only [Registry.register, CVoteDB.writeProposal, if_true,
        Std.ExtTreeMap.getElem?_insert] at hget
      split_ifs at hget
      · exact ⟨reg, hreg rfl, (Option.some.inj hget).symm⟩
      · exact h.recorded hget

/-- Registering proposals, of which those that the database takes are in question. -/
lemma foldl_register {nHeight : Int32}
    {registered : List (UInt256 × CVoteProposal)} {fWrite : UInt256 → Bool}
    (hregs : ∀ p ∈ registered, fWrite p.1 = true → (p.2, nHeight) ∈ regs) :
    Traces hash regs
      (registered.foldl (fun r p => r.register hash (fWrite p.1) p.1 p.2) r) := by
  apply List.foldlRecOn _ _ h
  exact fun r hr p hp => hr.register (hregs p hp) p.1

/-- Reading a record back adds the proposal that it was written for. -/
lemma loadRecord (hbounds : ∀ reg ∈ regs, reg.1.InBounds reg.2)
    {record : Bytes × Bytes} {reg : CVoteProposal × Int32} (hreg : reg ∈ regs)
    (hrecord : record.2 = reg.1.serialize CLIENT_VERSION) :
    Traces hash regs (r.loadRecord hash record) := by
  have hread : CVoteDB.proposalOfRecord record.2 = some { reg.1 with nVersion := 0 } := by
    rw [hrecord]
    exact CVoteDB.proposalOfRecord_serialize
      ((hbounds reg hreg).name_le.trans (by decide))
      ((hbounds reg hreg).description_le.trans (by decide))
  rw [Registry.loadRecord, hread]
  constructor
  · intro k data hget
    rcases CVoteProposalManager.getElem?_add_cases hget with hold | ⟨-, hnew⟩
    · exact h.held hold
    · exact ⟨reg, hreg, hnew⟩
  · exact h.recorded

/-- Reading the records back adds proposals that they were written for. -/
lemma load (hbounds : ∀ reg ∈ regs, reg.1.InBounds reg.2) : Traces hash regs (r.load hash) := by
  have hrecords : ∀ record ∈ r.voteDB.toList, ∃ reg ∈ regs,
      record.2 = reg.1.serialize CLIENT_VERSION := fun record hrecord =>
    h.recorded (Std.ExtTreeMap.mem_toList_iff_getElem?_eq_some.mp hrecord)
  refine List.foldlRecOn _ _ h fun r hr record hmem => ?_
  obtain ⟨reg, hreg, hrecord⟩ := hrecords record hmem
  exact hr.loadRecord hbounds hreg hrecord

end

end Traces

namespace Run

variable {hash : Bytes → UInt256} {regs : List (CVoteProposal × Int32)} {r : Registry}

/-- A run in which every registered proposal has the bounds holds and records nothing else. -/
lemma traces (hrun : Run hash regs r) (hbounds : ∀ reg ∈ regs, reg.1.InBounds reg.2) :
    Traces hash regs r := by
  induction hrun with
  | start =>
    constructor
    · intro h data hget
      simp [CVoteProposalManager.empty] at hget
    · intro k v hget
      simp at hget
  | connectBlock node db block pindex pprev fJustCheck _ ih =>
    have hold := (ih fun reg hreg => hbounds reg (List.mem_append_left _ hreg)).mono
      fun reg hreg => List.mem_append_left
        (recordedProposals hash node db block pindex fJustCheck) hreg
    rw [connectBlock_registry]
    exact hold.foldl_register fun p hp hwrite =>
      List.mem_append_right _ (mem_recordedProposals hash node hp hwrite)
  | load _ ih => exact (ih hbounds).load hbounds
  | restart _ ih =>
    constructor
    · intro h data hget
      simp [Registry.restart, CVoteProposalManager.empty] at hget
    · exact (ih hbounds).recorded

/-- In every run in which every registered proposal has the bounds at the height of its block, the
manager holds no proposal without them. -/
theorem held (hrun : Run hash regs r) (hbounds : ∀ reg ∈ regs, reg.1.InBounds reg.2) :
    HeldInBounds hash regs r := by
  intro h data hget
  obtain ⟨reg, hreg, hdata⟩ := (hrun.traces hbounds).held hget
  exact ⟨reg, hreg, hdata, hbounds reg hreg⟩

end Run

/-! ## A block with one proposal -/

open CVoteProposalManager

/-- A block that carries one proposal. -/
def sampleProposalBlock (proposal : CVoteProposal) : CBlock :=
  { vtx := [sampleCoinBase, sampleProposalTx proposal] }

/-- The index of that block. -/
def sampleProposalIndex : CBlockIndex := { phashBlock := 2, pprev := 1, nHeight := 50 }

/-- The registry after the block has been connected. -/
def sampleRegistry (proposal : CVoteProposal) : Registry :=
  (connectBlock sampleHash sampleNode () (sampleProposalBlock proposal) sampleProposalIndex none
    false {}).registry

/-- Connecting the block records the proposal, if that is what its transaction decodes to. -/
lemma run_sampleRegistry {proposal : CVoteProposal}
    (hrecorded : recordedProposals sampleHash sampleNode () (sampleProposalBlock proposal)
      sampleProposalIndex false = [(proposal, 50)]) :
    Run sampleHash [(proposal, 50)] (sampleRegistry proposal) := by
  have hstart : Run sampleHash [] {} := .start
  have hrun := hstart.connectBlock sampleNode () (sampleProposalBlock proposal)
    sampleProposalIndex none false
  rw [hrecorded] at hrun
  exact hrun

/-- A proposal with the bounds. -/
theorem held_sampleRegistry :
    HeldInBounds sampleHash [(proposalAt 27 26, 50)] (sampleRegistry (proposalAt 27 26)) :=
  (run_sampleRegistry (by decide +kernel)).held fun reg hreg => by
    rw [List.mem_singleton.mp hreg]
    exact ⟨by decide, by decide, by decide, by decide, by decide, by decide, by decide, by decide,
      by decide⟩

/-- A proposal with a name of eleven characters. -/
def proposalLongName : CVoteProposal :=
  { proposalAt 27 26 with strName := List.replicate 11 0x61 }

/-- The proposal with the long name is registered, and the manager holds it. -/
theorem not_held_sampleRegistry :
    ¬ ∀ (regs : List (CVoteProposal × Int32)) (r : Registry), Run sampleHash regs r →
      HeldInBounds sampleHash regs r := by
  intro hheld
  have hrun : Run sampleHash [(proposalLongName, 50)] (sampleRegistry proposalLongName) :=
    run_sampleRegistry (by decide +kernel)
  have hget : (sampleRegistry proposalLongName).proposalManager.mapProposalData[
      proposalLongName.getHash sampleHash]?
        = some (CProposalMetaData.ofProposal sampleHash proposalLongName) := by decide +kernel
  obtain ⟨reg, hreg, -, hbounds⟩ := hheld _ _ hrun _ _ hget
  rw [List.mem_singleton.mp hreg] at hbounds
  have hlong : ¬ proposalLongName.strName.length ≤ MAX_CHAR_NAME := by decide
  exact hlong hbounds.name_le

end HyperStake
