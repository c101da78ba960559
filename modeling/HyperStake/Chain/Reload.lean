import HyperStake.Chain.Bounds
import HyperStake.Library.GreedyLoop

/-!
# Reloading the proposals

In a session the manager is offered the proposals in the order in which their blocks are connected,
and turns away those that conflict with one it holds.  All of them have a record in the vote
database, though, and `CVoteDB::Load` offers them to an empty manager again, in the order of the
keys.  Both are greedy selections, so the same proposals are held after a restart exactly if each
one that was turned away has a smaller key before it of a proposal that is held and keeps it out
(`load_proposalManager_eq_iff`).
-/

namespace HyperStake

open GreedyLoop

/-! ## The manager as a greedy selection -/

/-- A proposal is kept out by a stored one: their bookings conflict, or they have the same hash. -/
def CProposalMetaData.KeptOutBy (newProposal existingProposal : CProposalMetaData) : Prop :=
  newProposal.booking.Conflicts existingProposal.booking ∨
    newProposal.hash = existingProposal.hash

namespace CVoteProposalManager

/-- The proposals that the manager holds. -/
def held (m : CVoteProposalManager) : Set CProposalMetaData :=
  {data | m.mapProposalData[data.hash]? = some data}

variable {data : CProposalMetaData}

lemma mem_held {m : CVoteProposalManager} :
    data ∈ m.held ↔ m.mapProposalData[data.hash]? = some data := Iff.rfl

lemma mem_held_of_getElem? {m : CVoteProposalManager} {h : UInt256}
    (hget : m.mapProposalData[h]? = some data) : data ∈ m.held := by
  rwa [mem_held, m.hash_eq hget]

lemma held_empty : CVoteProposalManager.empty.held = ∅ := by
  ext data
  simp [held, empty]

/-- Managers that hold the same proposals store the same data. -/
lemma held_eq_iff {m m' : CVoteProposalManager} :
    m.held = m'.held ↔ m.mapProposalData = m'.mapProposalData := by
  constructor
  · intro heq
    have hget : ∀ {m m' : CVoteProposalManager}, m.held = m'.held → ∀ (h : UInt256)
        (data : CProposalMetaData), m.mapProposalData[h]? = some data →
          m'.mapProposalData[h]? = some data := by
      intro m m' heq h data hget
      have hmem : data ∈ m'.held := heq ▸ mem_held_of_getElem? hget
      rwa [← m.hash_eq hget]
    exact Std.ExtTreeMap.ext_getElem? fun h => Option.ext fun data =>
      ⟨hget heq h data, hget heq.symm h data⟩
  · intro heq
    ext data
    rw [mem_held, mem_held, heq]

/-- No two proposals that are held keep each other out. -/
lemma pairwise_held (m : CVoteProposalManager) :
    m.held.Pairwise fun data data' => ¬ data.KeptOutBy data' := by
  intro data hdata data' hdata' hne
  have hhash : data.hash ≠ data'.hash := by
    intro heq
    rw [mem_held] at hdata hdata'
    rw [heq, hdata'] at hdata
    exact hne (Option.some.inj hdata).symm
  rintro (hconflict | heq)
  · exact m.compatible hhash hdata hdata' hconflict
  · exact hhash heq

/-- `Add` selects the proposals that no stored one keeps out. -/
lemma selects_add (hash : Bytes → UInt256) :
    Selects held (CProposalMetaData.ofProposal hash) CProposalMetaData.KeptOutBy
      fun m p => (m.add hash p).2 where
  take m p hfree := by
    have htrue : (m.add hash p).1 = true := add_fst_iff.mpr fun h data hget hconflict =>
      hfree data (mem_held_of_getElem? hget) (Or.inl hconflict)
    have hnone : m.mapProposalData[p.getHash hash]? = none := by
      by_contra hsome
      obtain ⟨data, hget⟩ := Option.ne_none_iff_exists'.mp hsome
      exact hfree data (mem_held_of_getElem? hget) (Or.inr (m.hash_eq hget).symm)
    ext data
    rw [Set.mem_insert_iff, mem_held, mem_held, getElem?_add]
    by_cases hdata : data.hash = p.getHash hash
    · rw [hdata, hnone]
      simp only [htrue, and_self, if_true, Option.some.injEq, reduceCtorEq, or_false]
      exact eq_comm
    · have hne : data ≠ CProposalMetaData.ofProposal hash p := fun heq => hdata (by rw [heq]; rfl)
      simp [hdata, hne]
  leave m p hblock := by
    obtain ⟨data, hdata, hconflict | heq⟩ := hblock
    · have hfalse : (m.add hash p).1 = false := by
        rw [← Bool.not_eq_true, add_fst_iff]
        exact fun hfree => hfree _ data hdata hconflict
      rw [add_of_rejected hfalse]
    · ext data'
      rw [mem_held, mem_held, getElem?_add, if_neg]
      rintro ⟨-, hhash, hnone⟩
      rw [mem_held] at hdata
      rw [hhash, show p.getHash hash = data.hash from heq, hdata] at hnone
      cases hnone

end CVoteProposalManager

/-! ## What a session records -/

section Decoded

variable {hash : Bytes → UInt256}

/-- A proposal that the loop of `ConnectBlock` decodes is the one of a transaction of the block. -/
lemma mem_decodedProposals {vQueuedProposals : List UInt256} {vtx : List CTransaction}
    {p : UInt256 × CVoteProposal} (hp : p ∈ decodedProposals hash vQueuedProposals vtx) :
    ∃ tx ∈ vtx, p.1 = tx.getHash hash ∧ proposalFromTransaction tx {} = .ok (true, p.2) := by
  induction vtx with
  | nil => exact absurd hp List.not_mem_nil
  | cons tx vtx ih =>
    have hrest : p ∈ decodedProposals hash vQueuedProposals vtx → ∃ tx' ∈ tx :: vtx,
        p.1 = tx'.getHash hash ∧ proposalFromTransaction tx' {} = .ok (true, p.2) := by
      intro hp
      obtain ⟨tx', htx', hfound⟩ := ih hp
      exact ⟨tx', List.mem_cons_of_mem _ htx', hfound⟩
    rw [decodedProposals] at hp
    split_ifs at hp
    · rcases hdecode : proposalFromTransaction tx {} with e | ⟨_ | _, proposal⟩
      · simp [hdecode] at hp
      · rw [hdecode] at hp
        exact hrest hp
      · rw [hdecode] at hp
        rcases List.mem_cons.mp hp with rfl | hp
        · exact ⟨tx, List.mem_cons_self, rfl, hdecode⟩
        · exact hrest hp
    · exact hrest hp

/-- A proposal that a call of `ConnectBlock` registers is the one of a transaction of the block. -/
lemma mem_registrations {Db : Type} {node : Node Db} {db : Db} {block : CBlock}
    {pindex : CBlockIndex} {fJustCheck : Bool} {p : UInt256 × CVoteProposal}
    (hp : p ∈ registrations hash node db block pindex fJustCheck) :
    ∃ tx ∈ block.vtx, p.1 = tx.getHash hash ∧ proposalFromTransaction tx {} = .ok (true, p.2) := by
  rw [registrations] at hp
  split at hp
  · exact absurd hp List.not_mem_nil
  · split_ifs at hp
    · exact absurd hp List.not_mem_nil
    · exact mem_decodedProposals hp

end Decoded

/-- The registries of a session that starts without a vote database, with the transactions of the
blocks that it has connected, or tried to. -/
inductive Session (hash : Bytes → UInt256) : List CTransaction → Registry → Prop
  | start : Session hash [] {}
  | connectBlock {txs : List CTransaction} {r : Registry} {Db : Type} (node : Node Db) (db : Db)
      (block : CBlock) (pindex : CBlockIndex) (pprev : Option CBlockIndex) (fJustCheck : Bool) :
      Session hash txs r →
      Session hash (txs ++ block.vtx)
        (connectBlock hash node db block pindex pprev fJustCheck r).registry

/-- The transaction carries the proposal. -/
def Carries (tx : CTransaction) (p : CVoteProposal) : Prop :=
  proposalFromTransaction tx {} = .ok (true, p)

/-- What is held has a record, and the records are those of the proposals of transactions. -/
structure Recorded (hash : Bytes → UInt256) (txs : List CTransaction) (r : Registry) : Prop where
  held : ∀ {data : CProposalMetaData}, data ∈ r.proposalManager.held → ∃ tx ∈ txs, ∃ p,
    Carries tx p ∧ data = .ofProposal hash p ∧ CVoteDB.key (tx.getHash hash) ∈ r.voteDB
  records : ∀ {k v : Bytes}, r.voteDB[k]? = some v → ∃ tx ∈ txs, ∃ p,
    Carries tx p ∧ k = CVoteDB.key (tx.getHash hash) ∧ v = p.serialize CLIENT_VERSION

namespace Recorded

variable {hash : Bytes → UInt256} {txs txs' : List CTransaction} {r : Registry}

lemma mono (h : Recorded hash txs r) (hsub : ∀ tx ∈ txs, tx ∈ txs') : Recorded hash txs' r := by
  constructor
  · intro data hdata
    obtain ⟨tx, htx, hfound⟩ := h.held hdata
    exact ⟨tx, hsub tx htx, hfound⟩
  · intro k v hget
    obtain ⟨tx, htx, hfound⟩ := h.records hget
    exact ⟨tx, hsub tx htx, hfound⟩

/-- Registering the proposal of a transaction. -/
lemma register (h : Recorded hash txs r) {tx : CTransaction} (htx : tx ∈ txs) {p : CVoteProposal}
    (hp : Carries tx p) (fWrite : Bool) :
    Recorded hash txs (r.register hash fWrite (tx.getHash hash) p) := by
  cases fWrite with
  | false => exact ⟨h.held, h.records⟩
  | true =>
    constructor
    · intro data hdata
      rcases CVoteProposalManager.getElem?_add_cases hdata with hold | ⟨-, hnew⟩
      · obtain ⟨tx', htx', p', hp', heq, hkey⟩ := h.held hold
        exact ⟨tx', htx', p', hp', heq, Std.ExtTreeMap.mem_insert.mpr (Or.inr hkey)⟩
      · exact ⟨tx, htx, p, hp, hnew, Std.ExtTreeMap.mem_insert_self⟩
    · intro k v hget
      simp only [Registry.register, CVoteDB.writeProposal, if_true,
        MapLoop.getElem?_insert_eq] at hget
      split_ifs at hget with hk
      · exact ⟨tx, htx, p, hp, hk.symm, (Option.some.inj hget).symm⟩
      · exact h.records hget

/-- Registering the proposals of transactions. -/
lemma foldl_register (h : Recorded hash txs r) {registered : List (UInt256 × CVoteProposal)}
    (hreg : ∀ p ∈ registered, ∃ tx ∈ txs, p.1 = tx.getHash hash ∧ Carries tx p.2)
    (fWrite : UInt256 → Bool) :
    Recorded hash txs (registered.foldl (fun r p => r.register hash (fWrite p.1) p.1 p.2) r) := by
  refine List.foldlRecOn _ _ h fun r hr p hp => ?_
  obtain ⟨tx, htx, hhash, hcarries⟩ := hreg p hp
  rw [hhash]
  exact hr.register htx hcarries _

end Recorded

variable {hash : Bytes → UInt256}

/-- Nothing is held and nothing is recorded. -/
lemma Recorded.empty : Recorded hash [] {} := by
  constructor
  · intro data hdata
    rw [CVoteProposalManager.held_empty] at hdata
    exact absurd hdata (Set.notMem_empty data)
  · intro k v hget
    simp at hget

variable {txs : List CTransaction}

/-- A call of `ConnectBlock` records the proposals that it registers. -/
lemma recorded_connectBlock {r : Registry}
    (h : Recorded hash txs r) {Db : Type} (node : Node Db) (db : Db) (block : CBlock)
    (pindex : CBlockIndex) (pprev : Option CBlockIndex) (fJustCheck : Bool) :
    Recorded hash (txs ++ block.vtx)
      (connectBlock hash node db block pindex pprev fJustCheck r).registry := by
  rw [connectBlock_registry]
  refine (h.mono fun tx htx => List.mem_append_left _ htx).foldl_register ?_ _
  intro p hp
  obtain ⟨tx, htx, hfound⟩ := mem_registrations hp
  exact ⟨tx, List.mem_append_right _ htx, hfound⟩

/-- Whatever a session connects, its registry is recorded. -/
lemma Session.recorded {r : Registry} (h : Session hash txs r) : Recorded hash txs r := by
  induction h with
  | start => exact .empty
  | connectBlock node db block pindex pprev fJustCheck _ ih =>
    exact recorded_connectBlock ih node db block pindex pprev fJustCheck

/-! ## Loading the records -/

/-- The proposals of the records, in the order in which `CVoteDB::Load` reads them. -/
def CVoteDB.proposals (voteDB : CVoteDB) : List CVoteProposal :=
  voteDB.toList.filterMap fun record => proposalOfRecord record.2

/-- The keys of different transactions are different. -/
lemma CVoteDB.key_injective : Function.Injective CVoteDB.key := by
  intro txid txid' heq
  have hvalue : ∀ txid : UInt256, LittleEndian.leValue (key txid) = txid.toNat := fun txid =>
    LittleEndian.leValue_leBytes_of_lt (txid.isLt.trans_eq (by norm_num))
  apply BitVec.eq_of_toNat_eq
  rw [← hvalue, heq, hvalue]

/-- `CVoteDB::Load` offers the proposals of the records to the manager. -/
lemma Registry.load_proposalManager (hash : Bytes → UInt256) (r : Registry) :
    (r.load hash).proposalManager =
      r.voteDB.proposals.foldl (fun m p => (m.add hash p).2) r.proposalManager := by
  rw [Registry.load, CVoteDB.proposals]
  generalize r.voteDB.toList = records
  induction records generalizing r with
  | nil => rfl
  | cons record records ih =>
    rw [List.foldl_cons, ih, Registry.loadRecord, List.filterMap_cons]
    cases CVoteDB.proposalOfRecord record.2 with
    | none => rfl
    | some p => rfl

/-- Every recorded proposal that the manager does not hold is kept out by one that it holds and that
has a smaller key. -/
def KeptOutByEarlier (hash : Bytes → UInt256) (r : Registry) : Prop :=
  ∀ earlier p later, r.voteDB.proposals = earlier ++ p :: later →
    CProposalMetaData.ofProposal hash p ∉ r.proposalManager.held →
    ∃ p' ∈ earlier, CProposalMetaData.ofProposal hash p' ∈ r.proposalManager.held ∧
      (CProposalMetaData.ofProposal hash p).KeptOutBy (.ofProposal hash p')

/-- What a session holds has a record that decodes to it, if no two of the transactions have the
same hash. -/
lemma Recorded.mem_proposals {r : Registry} (h : Recorded hash txs r)
    (hinj : ∀ tx ∈ txs, ∀ tx' ∈ txs, tx.getHash hash = tx'.getHash hash → tx = tx')
    {data : CProposalMetaData} (hdata : data ∈ r.proposalManager.held) :
    data ∈ r.voteDB.proposals.map (CProposalMetaData.ofProposal hash) := by
  obtain ⟨tx, htx, p, hp, rfl, hkey⟩ := h.held hdata
  obtain ⟨v, hv⟩ := MapLoop.mem_iff.mp hkey
  obtain ⟨tx', htx', p', hp', hkey', rfl⟩ := h.records hv
  -- the record under the hash of the transaction is the one of its own proposal
  have htxid : tx.getHash hash = tx'.getHash hash := CVoteDB.key_injective hkey'
  obtain rfl := hinj tx htx tx' htx' htxid
  have hsame : p' = p := by
    have hboth := hp'.symm.trans hp
    simpa using hboth
  subst hsame
  obtain ⟨hname, hdesc⟩ := proposalFromTransaction_length_le hp
  have hread := CVoteDB.proposalOfRecord_serialize hname hdesc
  refine List.mem_map.mpr ⟨{ p' with nVersion := 0 }, ?_, rfl⟩
  exact List.mem_filterMap.mpr
    ⟨_, Std.ExtTreeMap.mem_toList_iff_getElem?_eq_some.mpr hv, hread⟩

/-- After a session in which no two transactions have the same hash, loading the vote database into
an empty registry gives the proposals that the session held exactly if every other recorded proposal
is kept out by one of these with a smaller key. -/
theorem load_proposalManager_eq_iff {hash : Bytes → UInt256} {txs : List CTransaction}
    {r : Registry} (h : Session hash txs r)
    (hinj : ∀ tx ∈ txs, ∀ tx' ∈ txs, tx.getHash hash = tx'.getHash hash → tx = tx') :
    (r.restart.load hash).proposalManager.mapProposalData = r.proposalManager.mapProposalData ↔
      KeptOutByEarlier hash r := by
  rw [← CVoteProposalManager.held_eq_iff, Registry.load_proposalManager]
  have hselect := (CVoteProposalManager.selects_add hash).held_foldl_eq_iff
    (s := r.restart.proposalManager) CVoteProposalManager.held_empty (fun x => Or.inr rfl)
    r.proposalManager.pairwise_held r.restart.voteDB.proposals
  rw [hselect]
  constructor
  · rintro ⟨-, hblocked⟩ earlier p later hsplit hp
    obtain ⟨data, hdata, hheld, hkept⟩ := hblocked earlier p later hsplit hp
    obtain ⟨p', hp', rfl⟩ := List.mem_map.mp hdata
    exact ⟨p', hp', hheld, hkept⟩
  · intro hblocked
    refine ⟨fun data hdata => h.recorded.mem_proposals hinj hdata, ?_⟩
    intro earlier p later hsplit hp
    obtain ⟨p', hp', hheld, hkept⟩ := hblocked earlier p later hsplit hp
    exact ⟨_, List.mem_map_of_mem hp', hheld, hkept⟩

/-! ## A block with two conflicting proposals -/

open CVoteProposalManager

/-- A transaction of a given time with a proposal of a given name. -/
def sampleNamedTx (nTime : UInt32) (name : UInt8) : CTransaction :=
  { sampleProposalTx { proposalAt 27 26 with strName := [name] } with nTime }

/-- A block with two proposals that conflict, in transactions of given times. -/
def sampleConflictBlock (nTime nTime' : UInt32) : CBlock :=
  { vtx := [sampleCoinBase, sampleNamedTx nTime 0x61, sampleNamedTx nTime' 0x62] }

/-- The registry after a session that has connected one block. -/
def registryAfter (block : CBlock) : Registry :=
  (connectBlock sampleHash sampleNode () block sampleProposalIndex none false {}).registry

lemma session_registryAfter (block : CBlock) :
    Session sampleHash block.vtx (registryAfter block) := by
  have hstart : Session sampleHash [] {} := .start
  exact hstart.connectBlock sampleNode () block sampleProposalIndex none false

/-- The first proposal has the smaller key. -/
theorem load_proposalManager_sampleConflictBlock :
    ((registryAfter (sampleConflictBlock 1 2)).restart.load
        sampleHash).proposalManager.mapProposalData
        = (registryAfter (sampleConflictBlock 1 2)).proposalManager.mapProposalData ↔
      KeptOutByEarlier sampleHash (registryAfter (sampleConflictBlock 1 2)) :=
  load_proposalManager_eq_iff (session_registryAfter _) (by decide +kernel)

/-- The second proposal has the smaller key: the manager holds the first one before the restart, and
the second one after it. -/
theorem not_load_proposalManager_sampleConflictBlock :
    ¬ ∀ (txs : List CTransaction) (r : Registry), Session sampleHash txs r →
      (∀ tx ∈ txs, ∀ tx' ∈ txs, tx.getHash sampleHash = tx'.getHash sampleHash → tx = tx') →
      (r.restart.load sampleHash).proposalManager.mapProposalData
        = r.proposalManager.mapProposalData := by
  intro hreload
  have heq := hreload _ _ (session_registryAfter (sampleConflictBlock 2 1)) (by decide +kernel)
  have hbefore : (registryAfter (sampleConflictBlock 2 1)).proposalManager.mapProposalData.contains
      (({ proposalAt 27 26 with strName := [0x62] } : CVoteProposal).getHash sampleHash)
        = false := by decide +kernel
  have hafter : ((registryAfter (sampleConflictBlock 2 1)).restart.load
      sampleHash).proposalManager.mapProposalData.contains
      (({ proposalAt 27 26 with strName := [0x62] } : CVoteProposal).getHash sampleHash)
        = true := by decide +kernel
  rw [heq, hbefore] at hafter
  cases hafter

end HyperStake
