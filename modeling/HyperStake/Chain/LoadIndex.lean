import HyperStake.Chain.DiskIndex
import HyperStake.Voting.Admission

/-!
# Loading the block index

`LoadBlockIndexGuts` reads the indices of all blocks back when the program starts.  It copies the
fields of a record to a new index one by one, and the line for the tally is commented out, so an
index comes back with the empty tally (`restored_iff`).

The genesis block that the loader watches for, and the set of stakes seen that it builds, are left
out.
-/

namespace HyperStake

open FieldReader LittleEndian

/-- The records of the block index: the serialised index of every block, by the bytes of its
hash. -/
abbrev CBlockIndexDB := Std.ExtTreeMap Bytes Bytes

/-- The record that `CTxDB::WriteBlockIndex` writes for an index. -/
def diskRecord (hash9 : Bytes → UInt256) (fTestNet : Bool) (pindex : CBlockIndex) : Bytes :=
  ((CDiskBlockIndex.ofIndex pindex).withBlockHash hash9).serialize fTestNet

/-- `InsertBlockIndex`: make a new index under a hash that is not zero and has none yet. -/
def insertBlockIndex (hash : UInt256) (mapBlockIndex : Std.ExtTreeMap UInt256 CBlockIndex) :
    Std.ExtTreeMap UInt256 CBlockIndex :=
  if hash = 0 then mapBlockIndex else mapBlockIndex.insertIfNew hash { phashBlock := hash }

/-- The assignments of the loader from a record to an index. -/
def CDiskBlockIndex.copyTo (diskindex : CDiskBlockIndex) (pindexNew : CBlockIndex) :
    CBlockIndex :=
  { pindexNew with
    pprev := diskindex.hashPrev
    pnext := diskindex.hashNext
    nFile := diskindex.nFile
    nBlockPos := diskindex.nBlockPos
    nHeight := diskindex.nHeight
    nMint := diskindex.nMint
    nMoneySupply := diskindex.nMoneySupply
    nFlags := diskindex.nFlags
    nStakeModifier := diskindex.nStakeModifier
    prevoutStake := diskindex.prevoutStake
    nStakeTime := diskindex.nStakeTime
    hashProofOfStake := diskindex.hashProofOfStake
    nVersion := diskindex.nVersion
    hashMerkleRoot := diskindex.hashMerkleRoot
    nTime := diskindex.nTime
    nBits := diskindex.nBits
    nNonce := diskindex.nNonce }

/-- One turn of the loop of `LoadBlockIndexGuts`.  An index under the null pointer cannot be
assigned to. -/
def loadBlockIndexRecord (hash9 : Bytes → UInt256) (fTestNet : Bool)
    (mapBlockIndex : Std.ExtTreeMap UInt256 CBlockIndex) (ssValue : Bytes) :
    Except Fault (Std.ExtTreeMap UInt256 CBlockIndex) :=
  match CDiskBlockIndex.unserialize fTestNet {} ssValue with
  | (_, .error e) => .error e
  | (diskindex, .ok _) =>
    let blockHash := diskindex.getBlockHash hash9
    if blockHash = 0 then .error .undefined
    else
      let mapBlockIndex := insertBlockIndex diskindex.hashNext
        (insertBlockIndex diskindex.hashPrev (insertBlockIndex blockHash mapBlockIndex))
      .ok (mapBlockIndex.modify blockHash diskindex.copyTo)

/-- `CTxDB::LoadBlockIndexGuts`, on the records of the database. -/
def loadBlockIndexGuts (hash9 : Bytes → UInt256) (fTestNet : Bool) (db : CBlockIndexDB) :
    Except Fault (Std.ExtTreeMap UInt256 CBlockIndex) :=
  (db.toList.map Prod.snd).foldlM (loadBlockIndexRecord hash9 fTestNet) ∅

/-! ## What the loader does -/

/-- The loader makes every index under its own hash, and gives it no tally. -/
def Fresh (m : Std.ExtTreeMap UInt256 CBlockIndex) : Prop :=
  ∀ (k : UInt256) (p : CBlockIndex), m[k]? = some p → p.phashBlock = k ∧ p.tally = {}

lemma getElem?_insertBlockIndex (h k : UInt256) (m : Std.ExtTreeMap UInt256 CBlockIndex) :
    (insertBlockIndex h m)[k]? =
      if h ≠ 0 ∧ h = k then some (m[k]?.getD { phashBlock := h }) else m[k]? := by
  rw [insertBlockIndex]
  by_cases h0 : h = 0
  · simp [h0]
  · rw [if_neg h0, MapLoop.getElem?_insertIfNew_eq]
    simp only [ne_eq, h0, not_false_eq_true, true_and]

lemma Fresh.insertBlockIndex {m : Std.ExtTreeMap UInt256 CBlockIndex} (hm : Fresh m) (h : UInt256) :
    Fresh (insertBlockIndex h m) := by
  intro k p hget
  rw [getElem?_insertBlockIndex] at hget
  split_ifs at hget with hnew
  · cases hold : m[k]? with
    | none =>
      rw [hold] at hget
      cases hget
      exact ⟨hnew.2, rfl⟩
    | some p' =>
      rw [hold] at hget
      cases hget
      exact hm k p' hold
  · exact hm k p hget

/-- An index that is there stays. -/
lemma getElem?_insertBlockIndex_of_some {h k : UInt256} {p : CBlockIndex}
    {m : Std.ExtTreeMap UInt256 CBlockIndex} (hget : m[k]? = some p) :
    (insertBlockIndex h m)[k]? = some p := by
  rw [getElem?_insertBlockIndex, hget]
  split_ifs <;> rfl

namespace CBlockIndex.Sound

variable {hash9 : Bytes → UInt256} {pindex : CBlockIndex}

section

variable (h : pindex.Sound hash9)

include h

/-- The hash in the record of a sound index is the one of the index. -/
lemma blockHash_eq :
    ((CDiskBlockIndex.ofIndex pindex).withBlockHash hash9).blockHash = pindex.phashBlock :=
  h.hash_eq.symm

/-- Assigning the fields of a record restores a sound index, but for the hash and the tally. -/
lemma copyTo_readBack (tally : CVoteTally) (old : CDiskBlockIndex) (p : CBlockIndex) :
    CDiskBlockIndex.copyTo
      { ((CDiskBlockIndex.ofIndex pindex).withBlockHash hash9).readBack old with tally } p
      = { pindex with phashBlock := p.phashBlock, tally := p.tally } := by
  cases hpos : pindex.isProofOfStake with
  | true =>
    simp [CDiskBlockIndex.copyTo, CDiskBlockIndex.readBack, CDiskBlockIndex.withBlockHash,
      CDiskBlockIndex.ofIndex, hpos]
  | false =>
    obtain ⟨h1, h2, h3⟩ := h.work hpos
    simp [CDiskBlockIndex.copyTo, CDiskBlockIndex.readBack, CDiskBlockIndex.withBlockHash,
      CDiskBlockIndex.ofIndex, hpos, h1, h2, h3]

/-- What the loader does with the record of a sound index, if it can read the tally. -/
lemma loadBlockIndexRecord_eq (fTestNet : Bool) (m : Std.ExtTreeMap UInt256 CBlockIndex) :
    loadBlockIndexRecord hash9 fTestNet m (diskRecord hash9 fTestNet pindex) =
      match (CDiskBlockIndex.unserialize fTestNet {} (diskRecord hash9 fTestNet pindex)).2 with
      | .error e => .error e
      | .ok _ => .ok ((insertBlockIndex pindex.pnext (insertBlockIndex pindex.pprev
          (insertBlockIndex pindex.phashBlock m))).modify pindex.phashBlock fun p =>
            { pindex with phashBlock := p.phashBlock, tally := p.tally }) := by
  obtain ⟨tally, hread⟩ := CDiskBlockIndex.unserialize_fst fTestNet
    ((CDiskBlockIndex.ofIndex pindex).withBlockHash hash9) {}
  rw [loadBlockIndexRecord]
  rcases hresult : CDiskBlockIndex.unserialize fTestNet {} (diskRecord hash9 fTestNet pindex)
    with ⟨d, e | rest⟩
  · rfl
  · have hd : d = { ((CDiskBlockIndex.ofIndex pindex).withBlockHash hash9).readBack {} with
        tally } := by
      rw [← hread, ← diskRecord, hresult]
    have hhash : d.getBlockHash hash9 = pindex.phashBlock := by
      have hblock : d.blockHash = pindex.phashBlock := by
        rw [hd]
        exact h.blockHash_eq
      rw [CDiskBlockIndex.getBlockHash, hblock, if_pos (by simpa using h.hash_ne_zero)]
    have hcopy : d.copyTo = fun p =>
        { pindex with phashBlock := p.phashBlock, tally := p.tally } := by
      rw [hd]
      exact funext (h.copyTo_readBack tally {})
    have hprev : d.hashPrev = pindex.pprev := by rw [hd]; rfl
    have hnext : d.hashNext = pindex.pnext := by rw [hd]; rfl
    dsimp only
    rw [hhash, if_neg h.hash_ne_zero, hcopy, hprev, hnext]

/-- Loading a record of a sound index gives the index without its tally, and keeps the others. -/
lemma loadBlockIndexRecord_spec {fTestNet : Bool}
    {m m' : Std.ExtTreeMap UInt256 CBlockIndex} (hm : Fresh m)
    (hload : loadBlockIndexRecord hash9 fTestNet m (diskRecord hash9 fTestNet pindex) = .ok m') :
    Fresh m' ∧ m'[pindex.phashBlock]? = some { pindex with tally := {} } ∧
      ∀ (k : UInt256) (p : CBlockIndex), k ≠ pindex.phashBlock → m[k]? = some p →
        m'[k]? = some p := by
  rw [h.loadBlockIndexRecord_eq] at hload
  split at hload
  · cases hload
  · cases hload
    set m₁ := insertBlockIndex pindex.pnext (insertBlockIndex pindex.pprev
      (insertBlockIndex pindex.phashBlock m)) with hm₁
    have hfresh : Fresh m₁ := ((hm.insertBlockIndex _).insertBlockIndex _).insertBlockIndex _
    -- there is an index under the hash now
    have hinsert : (insertBlockIndex pindex.phashBlock m)[pindex.phashBlock]? =
        some (m[pindex.phashBlock]?.getD { phashBlock := pindex.phashBlock }) := by
      rw [getElem?_insertBlockIndex, if_pos ⟨h.hash_ne_zero, rfl⟩]
    have hp : m₁[pindex.phashBlock]? = _ :=
      getElem?_insertBlockIndex_of_some (getElem?_insertBlockIndex_of_some hinsert)
    obtain ⟨hhash, htally⟩ := hfresh _ _ hp
    have hself : (m₁.modify pindex.phashBlock fun p =>
        { pindex with phashBlock := p.phashBlock, tally := p.tally })[pindex.phashBlock]?
          = some { pindex with tally := {} } := by
      rw [Std.ExtTreeMap.getElem?_modify_self, hp, Option.map_some, hhash, htally]
    refine ⟨?_, hself, ?_⟩
    · intro k q hq
      by_cases hk : pindex.phashBlock = k
      · subst hk
        rw [hself] at hq
        cases hq
        exact ⟨rfl, rfl⟩
      · rw [MapLoop.getElem?_modify_of_ne _ _ hk] at hq
        exact hfresh k q hq
    · intro k q hk hq
      rw [MapLoop.getElem?_modify_of_ne _ _ (Ne.symm hk)]
      exact getElem?_insertBlockIndex_of_some
        (getElem?_insertBlockIndex_of_some (getElem?_insertBlockIndex_of_some hq))

/-- A record whose tally has maps of an acceptable size is loaded. -/
lemma exists_loadBlockIndexRecord (fTestNet : Bool)
    (hloadable : pindex.tally.Loadable) (m : Std.ExtTreeMap UInt256 CBlockIndex) :
    ∃ m', loadBlockIndexRecord hash9 fTestNet m (diskRecord hash9 fTestNet pindex) = .ok m' := by
  have hread := (CDiskBlockIndex.consumes_unserialize fTestNet
    (d := (CDiskBlockIndex.ofIndex pindex).withBlockHash hash9) (fun _ => hloadable)
    {}).eq_of_exact
  rw [h.loadBlockIndexRecord_eq, diskRecord, hread]
  exact ⟨_, rfl⟩

end

end CBlockIndex.Sound

/-! ## The whole index -/

/-- The key of the record of a block. -/
def blockIndexKey (blockHash : UInt256) : Bytes := leBytes 32 blockHash.toNat

/-- A database with the record of every index of a node, as `WriteBlockIndex` writes them. -/
structure IndexDatabase (hash hash9 : Bytes → UInt256) (fTestNet : Bool)
    (mapBlockIndex : Std.ExtTreeMap UInt256 CBlockIndex) (db : CBlockIndexDB) : Prop where
  hash_eq : ∀ {h : UInt256} {pindex : CBlockIndex}, mapBlockIndex[h]? = some pindex →
    pindex.phashBlock = h
  reached : ∀ {h : UInt256} {pindex : CBlockIndex}, mapBlockIndex[h]? = some pindex →
    IndexReached hash hash9 pindex
  records : ∀ {k v : Bytes}, db[k]? = some v ↔ ∃ (h : UInt256) (pindex : CBlockIndex),
    mapBlockIndex[h]? = some pindex ∧ k = blockIndexKey h ∧ v = diskRecord hash9 fTestNet pindex

/-- The index is in the loaded map as it was, and the tallies of later blocks come out on top of it
as they would have without the restart. -/
structure Restored (hash : Bytes → UInt256) (m : Std.ExtTreeMap UInt256 CBlockIndex)
    (pindex : CBlockIndex) : Prop where
  index : m[pindex.phashBlock]? = some pindex
  tallies : ∀ {Db : Type} (node : Node Db) (db : Db) (block : CBlock) (child : CBlockIndex)
    (r : Registry),
    (connectBlock hash node db block child m[pindex.phashBlock]? false r).pindex.tally =
      (connectBlock hash node db block child (some pindex) false r).pindex.tally

/-- A list of records of sound indices is loaded to these indices without their tallies. -/
lemma foldlM_loadBlockIndexRecord {hash9 : Bytes → UInt256} {fTestNet : Bool}
    {items : List (Bytes × Bytes)}
    (hitems : ∀ it ∈ items, ∃ p : CBlockIndex, p.Sound hash9 ∧
      it = (blockIndexKey p.phashBlock, diskRecord hash9 fTestNet p))
    (hnodup : (items.map Prod.fst).Nodup) {m m' : Std.ExtTreeMap UInt256 CBlockIndex}
    (hm : Fresh m)
    (hload : (items.map Prod.snd).foldlM (loadBlockIndexRecord hash9 fTestNet) m = .ok m') :
    (∀ p : CBlockIndex, p.Sound hash9 →
      (blockIndexKey p.phashBlock, diskRecord hash9 fTestNet p) ∈ items →
        m'[p.phashBlock]? = some { p with tally := {} }) ∧
      ∀ (k : UInt256) (p : CBlockIndex), blockIndexKey k ∉ items.map Prod.fst →
        m[k]? = some p → m'[k]? = some p := by
  induction items generalizing m with
  | nil =>
    cases hload
    exact ⟨fun p _ hp => absurd hp List.not_mem_nil, fun _ _ _ h => h⟩
  | cons it items ih =>
    obtain ⟨p, hp, rfl⟩ := hitems it List.mem_cons_self
    obtain ⟨hnew, hnodup'⟩ := List.nodup_cons.mp hnodup
    rw [List.map_cons, List.foldlM_cons] at hload
    cases hfirst : loadBlockIndexRecord hash9 fTestNet m (diskRecord hash9 fTestNet p) with
    | error e =>
      rw [hfirst] at hload
      cases hload
    | ok m₁ =>
      rw [hfirst] at hload
      obtain ⟨hfresh, -, hkeep⟩ := hp.loadBlockIndexRecord_spec hm hfirst
      obtain ⟨hdone, hrest⟩ := ih (fun it hit => hitems it (List.mem_cons_of_mem _ hit)) hnodup'
        hfresh hload
      constructor
      · intro q hq hmem
        rcases List.mem_cons.mp hmem with heq | hmem
        · -- the record at the front is this one, and no later one has its key
          have hkey : blockIndexKey q.phashBlock = blockIndexKey p.phashBlock :=
            congrArg Prod.fst heq
          have hrecord : diskRecord hash9 fTestNet q = diskRecord hash9 fTestNet p :=
            congrArg Prod.snd heq
          rw [← hrecord] at hfirst
          refine hrest _ _ ?_ (hq.loadBlockIndexRecord_spec hm hfirst).2.1
          rw [hkey]
          exact hnew
        · exact hdone q hq hmem
      · intro k q hk hq
        rw [List.map_cons, List.mem_cons, not_or] at hk
        refine hrest k q hk.2 (hkeep k q ?_ hq)
        rintro rfl
        exact hk.1 rfl

namespace IndexDatabase

variable {hash hash9 : Bytes → UInt256} {fTestNet : Bool}
  {mapBlockIndex m : Std.ExtTreeMap UInt256 CBlockIndex} {db : CBlockIndexDB}

section

variable (h : IndexDatabase hash hash9 fTestNet mapBlockIndex db)

include h

/-- The records of the database are those of sound indices. -/
lemma sound_of_mem :
    ∀ it ∈ db.toList, ∃ p : CBlockIndex, p.Sound hash9 ∧
      it = (blockIndexKey p.phashBlock, diskRecord hash9 fTestNet p) := by
  rintro ⟨k, v⟩ hit
  obtain ⟨h', p, hp, rfl, rfl⟩ :=
    h.records.mp (Std.ExtTreeMap.mem_toList_iff_getElem?_eq_some.mp hit)
  exact ⟨p, (h.reached hp).sound, by rw [h.hash_eq hp]⟩

/-- An index of the node is loaded without its tally. -/
lemma getElem?_load
    (hload : loadBlockIndexGuts hash9 fTestNet db = .ok m) {k : UInt256} {pindex : CBlockIndex}
    (hget : mapBlockIndex[k]? = some pindex) : m[k]? = some { pindex with tally := {} } := by
  have hfresh : Fresh ∅ := by
    intro k p hp
    simp at hp
  have hmem : (blockIndexKey pindex.phashBlock, diskRecord hash9 fTestNet pindex) ∈ db.toList := by
    rw [Std.ExtTreeMap.mem_toList_iff_getElem?_eq_some, h.records]
    exact ⟨k, pindex, hget, by rw [h.hash_eq hget], rfl⟩
  obtain rfl := h.hash_eq hget
  exact (foldlM_loadBlockIndexRecord h.sound_of_mem (MapLoop.nodup_map_fst_toList db) hfresh
    hload).1 pindex (h.reached hget).sound hmem

/-- The loader returns if the maps of all tallies have acceptable sizes. -/
lemma exists_load
    (hloadable : ∀ (k : UInt256) (p : CBlockIndex), mapBlockIndex[k]? = some p →
      p.tally.Loadable) :
    ∃ m, loadBlockIndexGuts hash9 fTestNet db = .ok m := by
  have hrecords : ∀ v ∈ db.toList.map Prod.snd, ∃ p : CBlockIndex, p.Sound hash9 ∧
      p.tally.Loadable ∧ v = diskRecord hash9 fTestNet p := by
    intro v hv
    obtain ⟨⟨k, v⟩, hit, rfl⟩ := List.mem_map.mp hv
    obtain ⟨k', p, hp, -, hvalue⟩ :=
      h.records.mp (Std.ExtTreeMap.mem_toList_iff_getElem?_eq_some.mp hit)
    exact ⟨p, (h.reached hp).sound, hloadable k' p hp, hvalue⟩
  rw [loadBlockIndexGuts]
  generalize db.toList.map Prod.snd = records at hrecords
  generalize (∅ : Std.ExtTreeMap UInt256 CBlockIndex) = m₀
  induction records generalizing m₀ with
  | nil => exact ⟨m₀, rfl⟩
  | cons v records ih =>
    obtain ⟨p, hp, htally, rfl⟩ := hrecords v List.mem_cons_self
    obtain ⟨m₁, hm₁⟩ := hp.exists_loadBlockIndexRecord fTestNet htally m₀
    obtain ⟨m, hm⟩ := ih (fun v hv => hrecords v (List.mem_cons_of_mem _ hv)) m₁
    refine ⟨m, ?_⟩
    rw [List.foldlM_cons, hm₁]
    exact hm

end

end IndexDatabase

/-- The loader returns if no tally is too large, and when it does then it restores an index of the
node exactly when the tally of the index is empty. -/
theorem restored_iff {hash hash9 : Bytes → UInt256} {fTestNet : Bool}
    {mapBlockIndex : Std.ExtTreeMap UInt256 CBlockIndex} {db : CBlockIndexDB}
    (h : IndexDatabase hash hash9 fTestNet mapBlockIndex db) :
    (∀ (m : Std.ExtTreeMap UInt256 CBlockIndex) (k : UInt256) (pindex : CBlockIndex),
        loadBlockIndexGuts hash9 fTestNet db = .ok m → mapBlockIndex[k]? = some pindex →
        (Restored hash m pindex ↔ pindex.tally = {})) ∧
      ((∀ (k : UInt256) (p : CBlockIndex), mapBlockIndex[k]? = some p → p.tally.Loadable) →
        ∃ m, loadBlockIndexGuts hash9 fTestNet db = .ok m) := by
  refine ⟨fun m k pindex hload hget => ?_, h.exists_load⟩
  have hloaded := h.getElem?_load hload hget
  rw [← h.hash_eq hget] at hloaded
  constructor
  · intro hrestored
    have heq := Option.some.inj (hrestored.index.symm.trans hloaded)
    rw [heq]
  · intro hempty
    have heq : { pindex with tally := {} } = pindex := by
      rw [← hempty]
    rw [heq] at hloaded
    exact ⟨hloaded, fun node db block child r => by rw [hloaded]⟩

/-! ## A node that stops after two blocks -/

/-- The database that is written for the indices of a node. -/
def indexRecords (hash9 : Bytes → UInt256) (fTestNet : Bool)
    (mapBlockIndex : Std.ExtTreeMap UInt256 CBlockIndex) : CBlockIndexDB :=
  mapBlockIndex.toList.foldl
    (fun db it => db.insertIfNew (blockIndexKey it.1) (diskRecord hash9 fTestNet it.2)) ∅

lemma blockIndexKey_injective : Function.Injective blockIndexKey := by
  intro h h' heq
  have hvalue : ∀ h : UInt256, leValue (blockIndexKey h) = h.toNat := fun h =>
    leValue_leBytes_of_lt (h.isLt.trans_eq (by norm_num))
  apply BitVec.eq_of_toNat_eq
  rw [← hvalue, heq, hvalue]

/-- The records of all indices make an index database. -/
lemma indexDatabase_indexRecords {hash hash9 : Bytes → UInt256} {fTestNet : Bool}
    {mapBlockIndex : Std.ExtTreeMap UInt256 CBlockIndex}
    (h : ∀ (k : UInt256) (pindex : CBlockIndex), mapBlockIndex[k]? = some pindex →
      pindex.phashBlock = k ∧ IndexReached hash hash9 pindex) :
    IndexDatabase hash hash9 fTestNet mapBlockIndex
      (indexRecords hash9 fTestNet mapBlockIndex) where
  hash_eq hget := (h _ _ hget).1
  reached hget := (h _ _ hget).2
  records := by
    intro k v
    have hnodup : (mapBlockIndex.toList.map fun it => blockIndexKey it.1).Nodup := by
      have hkeys := (MapLoop.nodup_map_fst_toList mapBlockIndex).map blockIndexKey_injective
      rwa [List.map_map] at hkeys
    rw [indexRecords, MapLoop.getElem?_foldl_insertIfNew hnodup (by simp)]
    constructor
    · rintro (hempty | ⟨⟨h', p⟩, hmem, rfl, rfl⟩)
      · simp at hempty
      · exact ⟨h', p, Std.ExtTreeMap.mem_toList_iff_getElem?_eq_some.mp hmem, rfl, rfl⟩
    · rintro ⟨h', p, hget, rfl, rfl⟩
      exact Or.inr ⟨(h', p), Std.ExtTreeMap.mem_toList_iff_getElem?_eq_some.mpr hget, rfl, rfl⟩

/-- Stake rules under which every block is a proof-of-work block with a modifier of zero. -/
def sampleStakeRules : StakeRules where
  getStakeEntropyBit _ _ := 0
  mapProofOfStake _ := none
  computeNextStakeModifier _ := some (0, false)
  checkStakeModifierCheckpoints _ := true

/-- The first block of a chain. -/
def sampleFirstBlock : CBlock := { vtx := [sampleCoinBase] }

/-- The index of the first block. -/
def sampleFirstIndex : CBlockIndex :=
  (sampleFirstBlock.addToBlockIndex sampleHash sampleStakeRules ∅ 1 0).getD {}

open CVoteProposalManager in
/-- The block on top of it, which has a proposal that is voted on from its own height on. -/
def sampleSecondBlock : CBlock :=
  { nVersion := VOTING_VERSION, hashPrevBlock := sampleFirstIndex.phashBlock
    vtx := [sampleCoinBase, sampleProposalTx { proposalAt 27 26 with nStartHeight := 1 }] }

/-- The index of the second block after it has been connected. -/
def sampleSecondIndex : CBlockIndex :=
  (connectBlock sampleHash sampleNode () sampleSecondBlock
    ((sampleSecondBlock.addToBlockIndex sampleHash sampleStakeRules
      (Std.ExtTreeMap.insert ∅ sampleFirstIndex.phashBlock sampleFirstIndex) 1 500).getD {})
    (some sampleFirstIndex) false {}).pindex

/-- The indices of the two blocks. -/
def sampleBlockMap : Std.ExtTreeMap UInt256 CBlockIndex :=
  (Std.ExtTreeMap.insert ∅ sampleFirstIndex.phashBlock sampleFirstIndex).insert
    sampleSecondIndex.phashBlock sampleSecondIndex

lemma indexReached_sampleFirstIndex : IndexReached sampleHash sampleHash sampleFirstIndex := by
  refine .add sampleStakeRules ∅ 1 0 sampleFirstBlock (Or.inl rfl) (by decide +kernel) ?_
  have hadded : (sampleFirstBlock.addToBlockIndex sampleHash sampleStakeRules ∅ 1 0).isSome :=
    by decide +kernel
  exact (Option.some_get hadded).symm.trans (congrArg some (Option.get_eq_getD ..))

lemma indexReached_sampleSecondIndex : IndexReached sampleHash sampleHash sampleSecondIndex := by
  refine .connect sampleNode () sampleSecondBlock (some sampleFirstIndex) false {} ?_
  refine .add sampleStakeRules (Std.ExtTreeMap.insert ∅ sampleFirstIndex.phashBlock
    sampleFirstIndex) 1 500 sampleSecondBlock (Or.inr (by decide +kernel)) (by decide +kernel) ?_
  have hadded : (sampleSecondBlock.addToBlockIndex sampleHash sampleStakeRules
      (Std.ExtTreeMap.insert ∅ sampleFirstIndex.phashBlock sampleFirstIndex) 1 500).isSome :=
    by decide +kernel
  exact (Option.some_get hadded).symm.trans (congrArg some (Option.get_eq_getD ..))

/-- The tally of the second block has a summary of the proposal. -/
lemma sampleSecondIndex_tally : sampleSecondIndex.tally.mapVotes.size = 1 := by decide +kernel

lemma indexDatabase_sampleBlockMap :
    IndexDatabase sampleHash sampleHash true sampleBlockMap
      (indexRecords sampleHash true sampleBlockMap) := by
  refine indexDatabase_indexRecords fun k pindex hget => ?_
  rw [sampleBlockMap, MapLoop.getElem?_insert_eq, MapLoop.getElem?_insert_eq] at hget
  split_ifs at hget with hsecond hfirst
  · rw [← Option.some.inj hget]
    exact ⟨hsecond, indexReached_sampleSecondIndex⟩
  · rw [← Option.some.inj hget]
    exact ⟨hfirst, indexReached_sampleFirstIndex⟩
  · simp at hget

/-- The database of the two blocks can be loaded. -/
lemma exists_load_sampleBlockMap :
    ∃ m, loadBlockIndexGuts sampleHash true (indexRecords sampleHash true sampleBlockMap)
      = .ok m := by
  refine indexDatabase_sampleBlockMap.exists_load fun k pindex hget => ?_
  rw [sampleBlockMap, MapLoop.getElem?_insert_eq, MapLoop.getElem?_insert_eq] at hget
  split_ifs at hget
  · rw [← Option.some.inj hget]
    exact ⟨by decide +kernel, by decide +kernel⟩
  · rw [← Option.some.inj hget]
    exact CVoteTally.loadable_empty
  · simp at hget

/-- The first block of the node comes back, the second one does not. -/
theorem restored_sampleBlockMap :
    (∀ (m : Std.ExtTreeMap UInt256 CBlockIndex) (k : UInt256) (pindex : CBlockIndex),
        loadBlockIndexGuts sampleHash true (indexRecords sampleHash true sampleBlockMap) = .ok m →
        sampleBlockMap[k]? = some pindex →
        (Restored sampleHash m pindex ↔ pindex.tally = {})) ∧
      ((∀ (k : UInt256) (p : CBlockIndex), sampleBlockMap[k]? = some p → p.tally.Loadable) →
        ∃ m, loadBlockIndexGuts sampleHash true (indexRecords sampleHash true sampleBlockMap)
          = .ok m) :=
  restored_iff indexDatabase_sampleBlockMap

/-- The second block of the node loses its tally. -/
theorem not_restored_sampleBlockMap :
    ¬ ∀ (mapBlockIndex m : Std.ExtTreeMap UInt256 CBlockIndex) (db : CBlockIndexDB),
      IndexDatabase sampleHash sampleHash true mapBlockIndex db →
      loadBlockIndexGuts sampleHash true db = .ok m →
      ∀ (k : UInt256) (pindex : CBlockIndex), mapBlockIndex[k]? = some pindex →
        Restored sampleHash m pindex := by
  intro hall
  obtain ⟨m, hload⟩ := exists_load_sampleBlockMap
  have hget : sampleBlockMap[sampleSecondIndex.phashBlock]? = some sampleSecondIndex := by
    rw [sampleBlockMap, MapLoop.getElem?_insert_eq, if_pos rfl]
  have hrestored := hall _ m _ indexDatabase_sampleBlockMap hload _ _ hget
  have hloaded := indexDatabase_sampleBlockMap.getElem?_load hload hget
  have heq := Option.some.inj (hrestored.index.symm.trans hloaded)
  have hsize := sampleSecondIndex_tally
  rw [heq] at hsize
  simp at hsize

end HyperStake