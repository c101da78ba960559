import HyperStake.Chain.Reload
import HyperStake.Chain.TallyChain
import HyperStake.Voting.Exclusion

/-!
# The votes that a chain counts

Along a chain on which voting is enabled, the tally of a proposal counts the votes of the blocks
that were connected while the manager held the proposal and found it active
(`VotingHistory.votes_eq`).  The manager finds it active up to and including the height at which its
period ends, which is one block too many.

So the tally has the votes of the period exactly if the block after the period adds as many as the
blocks of the period from before the registration are missing (`countsPeriod_iff`).
-/

namespace HyperStake

/-! ## Finding the proposals of a registry -/

/-- Every proposal that the manager holds has a transaction, every transaction that has a proposal is
one of the given ones, and its record can be read. -/
structure Registry.Findable (hash : Bytes → UInt256) (txs : List CTransaction) (r : Registry) :
    Prop where
  held : ∀ {data : CProposalMetaData}, data ∈ r.proposalManager.held →
    ∃ txid : UInt256, r.mapProposals[txid]? = some data.hash
  recorded : ∀ {txid h : UInt256}, r.mapProposals[txid]? = some h → ∃ tx ∈ txs, ∃ p,
    txid = tx.getHash hash ∧ Carries tx p ∧ p.getHash hash = h ∧
      ∃ q, r.voteDB.readProposal txid = some q

namespace Registry.Findable

variable {hash : Bytes → UInt256} {txs txs' : List CTransaction} {r : Registry}

lemma empty : Registry.Findable hash [] {} where
  held h := by
    rw [CVoteProposalManager.held_empty] at h
    exact absurd h (Set.notMem_empty _)
  recorded h := by simp at h

section

variable (h : r.Findable hash txs)

include h

lemma mono (hsub : ∀ tx ∈ txs, tx ∈ txs') : r.Findable hash txs' where
  held := h.held
  recorded hget := by
    obtain ⟨tx, htx, hfound⟩ := h.recorded hget
    exact ⟨tx, hsub tx htx, hfound⟩

section

variable (hinj : ∀ tx ∈ txs, ∀ tx' ∈ txs, tx.getHash hash = tx'.getHash hash → tx = tx')

include hinj

/-- Registering the proposal of a transaction, if its record is written and no other transaction has
the same hash. -/
lemma register {tx : CTransaction} (htx : tx ∈ txs) {p : CVoteProposal} (hp : Carries tx p) :
    (r.register hash true (tx.getHash hash) p).Findable hash txs := by
  have hmap : ∀ txid : UInt256, (r.register hash true (tx.getHash hash) p).mapProposals[txid]?
      = if tx.getHash hash = txid then some (p.getHash hash) else r.mapProposals[txid]? :=
    fun txid => MapLoop.getElem?_insert_eq _ _ _ _
  constructor
  · intro data hdata
    rcases CVoteProposalManager.getElem?_add_cases hdata with hold | ⟨-, hnew⟩
    · obtain ⟨txid, hget⟩ := h.held hold
      refine ⟨txid, ?_⟩
      rw [hmap]
      split_ifs with hkey
      · -- the transaction was registered before, with the same proposal
        obtain ⟨tx', htx', p', hhash, hp', hvalue, -⟩ := h.recorded hget
        obtain rfl := hinj tx htx tx' htx' (hkey.trans hhash)
        have hsame : p = p' := by
          have hboth := hp.symm.trans hp'
          simpa using hboth
        rw [hsame, hvalue]
      · exact hget
    · refine ⟨tx.getHash hash, ?_⟩
      rw [hmap, if_pos rfl, hnew]
      rfl
  · intro txid k hget
    have hread : ∀ txid : UInt256,
        (r.register hash true (tx.getHash hash) p).voteDB.readProposal txid =
          if tx.getHash hash = txid then some { p with nVersion := 0 }
          else r.voteDB.readProposal txid := by
      intro txid
      change ((r.voteDB.insert (CVoteDB.key (tx.getHash hash)) _)[CVoteDB.key txid]?).bind _ = _
      rw [MapLoop.getElem?_insert_eq]
      by_cases hkey : tx.getHash hash = txid
      · obtain ⟨hname, hdesc⟩ := proposalFromTransaction_length_le hp
        rw [if_pos hkey, if_pos (congrArg _ hkey)]
        exact CVoteDB.proposalOfRecord_serialize hname hdesc
      · rw [if_neg hkey, if_neg (fun heq => hkey (CVoteDB.key_injective heq))]
        rfl
    rw [hmap] at hget
    rw [hread]
    split_ifs at hget ⊢ with hkey
    · exact ⟨tx, htx, p, hkey.symm, hp, Option.some.inj hget, _, rfl⟩
    · exact h.recorded hget

/-- Registering the proposals of transactions. -/
lemma foldl_register {registered : List (UInt256 × CVoteProposal)}
    (hreg : ∀ p ∈ registered, ∃ tx ∈ txs, p.1 = tx.getHash hash ∧ Carries tx p.2)
    {fWrite : UInt256 → Bool} (hwrite : ∀ txid, fWrite txid = true) :
    (registered.foldl (fun r p => r.register hash (fWrite p.1) p.1 p.2) r).Findable hash txs := by
  refine List.foldlRecOn _ _ h fun r hr p hp => ?_
  obtain ⟨tx, htx, hhash, hcarries⟩ := hreg p hp
  rw [hwrite, hhash]
  exact hr.register hinj htx hcarries

end

/-- The transaction and the record of a proposal that the manager holds are found. -/
lemma exists_readProposal {data : CProposalMetaData} (hdata : data ∈ r.proposalManager.held) :
    ∃ txid q, r.getProposalTXID data.hash = some txid ∧ r.voteDB.readProposal txid = some q := by
  obtain ⟨txid, hget⟩ := h.held hdata
  cases hfind : r.mapProposals.toList.find? (fun mit => mit.2 == data.hash) with
  | none =>
    have hnone := List.find?_eq_none.mp hfind (txid, data.hash)
      (Std.ExtTreeMap.mem_toList_iff_getElem?_eq_some.mpr hget)
    simp at hnone
  | some mit =>
    have hmem := Std.ExtTreeMap.mem_toList_iff_getElem?_eq_some.mp
      (List.mem_of_find?_eq_some hfind)
    obtain ⟨-, -, -, -, -, -, q, hq⟩ := h.recorded hmem
    refine ⟨mit.1, q, ?_, hq⟩
    rw [Registry.getProposalTXID, hfind]
    rfl

/-- So are those of a proposal that is active at a height. -/
lemma exists_readProposal_getActive (nHeight : Int32) :
    ∀ it ∈ (r.proposalManager.getActive nHeight).toList, ∃ txid proposal,
      r.getProposalTXID it.1 = some txid ∧ r.voteDB.readProposal txid = some proposal := by
  intro it hit
  have hget := Std.ExtTreeMap.mem_toList_iff_getElem?_eq_some.mp hit
  obtain ⟨data, hdata, -, -⟩ := CVoteProposalManager.getElem?_getActive.mp hget
  have hread := h.exists_readProposal (CVoteProposalManager.mem_held_of_getElem? hdata)
  rwa [r.proposalManager.hash_eq hdata] at hread

end

end Registry.Findable

/-! ## Counting the votes of a block -/

/-- The vote of a block is counted for a choice on a proposal: the manager holds the proposal and finds
it active, and the version of the block has the value of the choice at its location. -/
def countsFor (h : UInt256) (fYes : Bool) (c : CBlockIndex × Registry) : Bool :=
  match c.2.proposalManager.mapProposalData[h]? with
  | some data => data.isActive c.1.nHeight &&
      decide (data.location.voteField c.1.nVersion.toUInt32.toBitVec = choiceValue fYes)
  | none => false

variable {hash : Bytes → UInt256}

/-- Recording the votes of a block adds to the tally of the parent the votes that are counted. -/
lemma votes_recordVotes {Db : Type} {node : Node Db}
    {txs : List CTransaction} {pindex pprev : CBlockIndex} {r : Registry} {tally : CVoteTally}
    (hfind : r.Findable hash txs) (henabled : VotingEnabled node pindex)
    (h : recordVotes node pindex pprev r = .ok tally) (hashProposal : UInt256) (fYes : Bool) :
    tally.votes hashProposal fYes = pprev.tally.votes hashProposal fYes +
      if countsFor hashProposal fYes (pindex, r) then 1 else 0 := by
  let mapActive := r.proposalManager.getActive pindex.nHeight
  have hstart := startTally_of_votingEnabled henabled pprev
  have hfound := hfind.exists_readProposal_getActive pindex.nHeight
  obtain ⟨hlocations, hvotes, hcount⟩ := CVoteTally.setNewPositionsLoop_spec
    (MapLoop.nodup_map_fst_toList mapActive) hfound
    { pprev.tally with mapLocations := ∅ } (by simp)
  have hlocation : ∀ k : UInt256,
      (CVoteTally.setNewPositionsLoop r.getProposalTXID (fun txid => r.voteDB.readProposal txid)
        mapActive.toList { pprev.tally with mapLocations := ∅ }).2.mapLocations[k]?
          = mapActive[k]? := fun k => Option.ext fun location => by
    rw [hlocations, Std.ExtTreeMap.mem_toList_iff_getElem?_eq_some]
    simp
  rw [recordVotes, hstart, CVoteTally.setNewPositions] at h
  have hadd := CVoteTally.votes_processNewVotes h (fun k hk => (hvotes k).mpr <| Or.inr <| by
    obtain ⟨location, hget⟩ := MapLoop.mem_iff.mp hk
    rw [hlocation, ← Std.ExtTreeMap.mem_toList_iff_getElem?_eq_some] at hget
    exact List.mem_map.mpr ⟨_, hget, rfl⟩) hashProposal fYes
  rw [hadd, hcount, hlocation, CVoteProposalManager.getElem?_getActive_eq, countsFor]
  congr 1
  cases r.proposalManager.mapProposalData[hashProposal]? with
  | none => rfl
  | some data => cases hactive : data.isActive pindex.nHeight <;> simp [hactive]

/-! ## Histories -/

/-- Blocks that were connected one after the other where voting is enabled, the newest one first, with
the registry under which the votes of each were counted, and the registry at the end.  They start
from a block with the empty tally, whose votes are not counted, and from a registry whose proposals
are found.  The vote database takes every record. -/
inductive VotingHistory (hash : Bytes → UInt256) :
    List CTransaction → List (CBlockIndex × Registry) → Registry → Prop
  | start (b : CBlockIndex) (txs : List CTransaction) (r : Registry) :
      b.tally = {} → r.Findable hash txs → VotingHistory hash txs [(b, {})] r
  | connect {txs : List CTransaction} {pprev : CBlockIndex} {r₀ : Registry}
      {chain : List (CBlockIndex × Registry)} {r : Registry} {Db : Type} (node : Node Db) (db : Db)
      (block : CBlock) (pindex : CBlockIndex) :
      VotingHistory hash txs ((pprev, r₀) :: chain) r →
      pindex.nHeight.toInt = pprev.nHeight.toInt + 1 →
      VotingEnabled node pindex →
      (∀ txid, node.writesProposal txid = true) →
      (connectBlock hash node db block pindex (some pprev) false r).result = .ok true →
      VotingHistory hash (txs ++ block.vtx)
        (((connectBlock hash node db block pindex (some pprev) false r).pindex,
          (connectBlock hash node db block pindex (some pprev) false r).registry) ::
            (pprev, r₀) :: chain)
        (connectBlock hash node db block pindex (some pprev) false r).registry

variable {data : CProposalMetaData}

/-- A proposal that the manager holds before a call is held after it, with the same data. -/
lemma getElem?_connectBlock {Db : Type} {node : Node Db} {db : Db}
    {block : CBlock} {pindex : CBlockIndex} {pprev : Option CBlockIndex} {fJustCheck : Bool}
    {r : Registry} {h : UInt256}
    (hget : r.proposalManager.mapProposalData[h]? = some data) :
    (connectBlock hash node db block pindex pprev fJustCheck
      r).registry.proposalManager.mapProposalData[h]? = some data := by
  rw [connectBlock_registry]
  refine List.foldlRecOn
    (motive := fun r : Registry => r.proposalManager.mapProposalData[h]? = some data) _ _
    hget fun r hget p _ => ?_
  unfold Registry.register
  cases node.writesProposal p.1 with
  | false => exact hget
  | true =>
    simp only [if_true]
    rw [CVoteProposalManager.getElem?_add, if_neg]
    · exact hget
    · rintro ⟨-, -, hnone⟩
      rw [hget] at hnone
      cases hnone

namespace VotingHistory

variable {hash : Bytes → UInt256} {txs : List CTransaction} {chain : List (CBlockIndex × Registry)}
  {r : Registry}

section

variable (hhist : VotingHistory hash txs chain r)

include hhist

/-- The proposals of the registry are found, if no two transactions have the same hash. -/
lemma findable (hinj : ∀ tx ∈ txs, ∀ tx' ∈ txs, tx.getHash hash = tx'.getHash hash → tx = tx') :
    r.Findable hash txs := by
  induction hhist with
  | start b txs r _ hfind => exact hfind
  | @connect txs pprev r₀ chain r Db node db block pindex _ _ _ hwrite _ ih =>
    rw [connectBlock_registry]
    have hold := ih fun tx htx tx' htx' =>
      hinj tx (List.mem_append_left _ htx) tx' (List.mem_append_left _ htx')
    refine (hold.mono fun tx htx => List.mem_append_left block.vtx htx).foldl_register hinj ?_
      hwrite
    intro p hp
    obtain ⟨tx, htx, hfound⟩ := mem_registrations hp
    exact ⟨tx, List.mem_append_right _ htx, hfound⟩

/-- A proposal that was held when the votes of a block were counted is held at the end. -/
lemma getElem?_of_mem {c : CBlockIndex × Registry} (hc : c ∈ chain) {h : UInt256}
    (hget : c.2.proposalManager.mapProposalData[h]? = some data) :
    r.proposalManager.mapProposalData[h]? = some data := by
  induction hhist with
  | start b txs r _ _ =>
    rw [List.mem_singleton.mp hc] at hget
    simp [CVoteProposalManager.empty] at hget
  | connect node db block pindex _ _ _ _ _ ih =>
    rcases List.mem_cons.mp hc with rfl | hc
    · exact hget
    · exact getElem?_connectBlock (ih hc)

/-- What was held is what is held at the end. -/
lemma eq_of_mem {c : CBlockIndex × Registry}
    (hc : c ∈ chain) {h : UInt256} {data data' : CProposalMetaData}
    (hget : c.2.proposalManager.mapProposalData[h]? = some data)
    (hreg : r.proposalManager.mapProposalData[h]? = some data') : data = data' :=
  Option.some.inj ((hhist.getElem?_of_mem hc hget).symm.trans hreg)

end

variable {tip : CBlockIndex × Registry}

/-- The tally of the newest block has the votes that were counted. -/
lemma votes_eq (hhist : VotingHistory hash txs (tip :: chain) r)
    (hinj : ∀ tx ∈ txs, ∀ tx' ∈ txs, tx.getHash hash = tx'.getHash hash → tx = tx')
    (h : UInt256) (fYes : Bool) :
    tip.1.tally.votes h fYes = UInt32.ofNat ((tip :: chain).countP (countsFor h fYes)) := by
  generalize hblocks : tip :: chain = blocks at hhist
  induction hhist generalizing tip chain with
  | start b txs r hempty _ =>
    obtain ⟨rfl, rfl⟩ := List.cons_eq_cons.mp hblocks
    simp [CVoteTally.votes, hempty, countsFor, CVoteProposalManager.empty]
  | @connect txs pprev r₀ chain' r Db node db block pindex hprev hheight henabled hwrite htrue ih =>
    obtain ⟨rfl, rfl⟩ := List.cons_eq_cons.mp hblocks
    have hinj' : ∀ tx ∈ txs, ∀ tx' ∈ txs, tx.getHash hash = tx'.getHash hash → tx = tx' :=
      fun tx htx tx' htx' =>
        hinj tx (List.mem_append_left _ htx) tx' (List.mem_append_left _ htx')
    have hfind := (VotingHistory.connect node db block pindex hprev hheight henabled hwrite
      htrue).findable hinj
    obtain ⟨s, r', tally, -, -, hregistry, hrecord, hpindex⟩ :=
      connectBlock_eq_true hash node htrue
    rw [hregistry] at hfind
    have hstep := votes_recordVotes hfind henabled hrecord h fYes
    have hcounts : countsFor h fYes
        ((connectBlock hash node db block pindex (some pprev) false r).pindex,
          (connectBlock hash node db block pindex (some pprev) false r).registry)
        = countsFor h fYes (pindex, r') := by
      rw [hpindex, hregistry]
      rfl
    rw [List.countP_cons, hcounts, UInt32.ofNat_add, ← ih hinj' rfl]
    dsimp only
    rw [hpindex]
    change tally.votes h fYes = _
    rw [hstep]
    congr 1
    split_ifs <;> rfl

/-- The heights of the blocks go down by one. -/
lemma heights (hhist : VotingHistory hash txs (tip :: chain) r) :
    ∃ nFirst : ℤ, -2 ^ 31 ≤ nFirst ∧ (chain.length : ℤ) + nFirst = tip.1.nHeight.toInt := by
  generalize hblocks : tip :: chain = blocks at hhist
  induction hhist generalizing tip chain with
  | start b txs r _ _ =>
    obtain ⟨rfl, rfl⟩ := List.cons_eq_cons.mp hblocks
    exact ⟨b.nHeight.toInt, b.nHeight.le_toInt, by simp⟩
  | connect node db block pindex _ hheight _ _ htrue ih =>
    obtain ⟨rfl, rfl⟩ := List.cons_eq_cons.mp hblocks
    obtain ⟨nFirst, hge, hlen⟩ := ih rfl
    obtain ⟨s, r', tally, -, -, -, -, hpindex⟩ := connectBlock_eq_true hash node htrue
    refine ⟨nFirst, hge, ?_⟩
    rw [hpindex]
    change _ = pindex.nHeight.toInt
    dsimp only at hlen
    rw [hheight, List.length_cons]
    push_cast
    omega

/-- Nothing is counted on the block that a history starts from. -/
lemma countP_le_length (hhist : VotingHistory hash txs chain r) (h : UInt256) (fYes : Bool) :
    chain.countP (countsFor h fYes) ≤ chain.length - 1 := by
  induction hhist with
  | start b txs r _ _ => simp [countsFor, CVoteProposalManager.empty]
  | connect node db block pindex _ _ _ _ _ ih =>
    rw [List.countP_cons, List.length_cons]
    simp only [List.length_cons] at ih ⊢
    split_ifs <;> omega

/-- There are not more blocks to count than an `unsigned int` holds, as their heights differ. -/
lemma countP_lt (hhist : VotingHistory hash txs (tip :: chain) r)
    (h : UInt256) (fYes : Bool) : (tip :: chain).countP (countsFor h fYes) < 2 ^ 32 := by
  have hle := hhist.countP_le_length h fYes
  obtain ⟨nFirst, hge, hlen⟩ := hhist.heights
  have hlt := tip.1.nHeight.toInt_lt
  rw [List.length_cons] at hle
  omega

end VotingHistory

/-! ## The votes of a period -/

/-- A count of items of two kinds. -/
lemma countP_eq_add {α : Type} {p q t : α → Bool} {l : List α}
    (h : ∀ a ∈ l, (p a).toNat = (q a).toNat + (t a).toNat) :
    l.countP p = l.countP q + l.countP t := by
  induction l with
  | nil => rfl
  | cons a l ih =>
    have ha := h a List.mem_cons_self
    have hrest := ih fun b hb => h b (List.mem_cons_of_mem _ hb)
    rw [List.countP_cons, List.countP_cons, List.countP_cons, hrest]
    revert ha
    cases p a <;> cases q a <;> cases t a <;> simp <;> omega

namespace CVoteProposal

/-- The block is one of the blocks of the voting period, which has as many as the span says. -/
def inPeriod (p : CVoteProposal) (b : CBlockIndex) : Bool :=
  decide ((p.nStartHeight.toNat : ℤ) ≤ b.nHeight.toInt ∧
    b.nHeight.toInt < p.nStartHeight.toNat + p.nCheckSpan.toNat)

/-- The block is the one after the voting period. -/
def afterPeriod (p : CVoteProposal) (b : CBlockIndex) : Bool :=
  decide (b.nHeight.toInt = p.nStartHeight.toNat + p.nCheckSpan.toNat)

/-- The version of the block holds the value of the choice at the bits of the proposal. -/
def hasVote (p : CVoteProposal) (fYes : Bool) (b : CBlockIndex) : Bool :=
  decide (p.bitLocation.voteField b.nVersion.toUInt32.toBitVec = choiceValue fYes)

/-- The proposal was registered when the votes of the block were counted. -/
def registeredAt (hash : Bytes → UInt256) (p : CVoteProposal) (c : CBlockIndex × Registry) : Bool :=
  c.2.proposalManager.mapProposalData.contains (p.getHash hash)

/-- The number of blocks of the period that vote for a choice. -/
def periodVotes (p : CVoteProposal) (fYes : Bool) (chain : List (CBlockIndex × Registry)) : ℕ :=
  chain.countP fun c => p.inPeriod c.1 && p.hasVote fYes c.1

/-- The number of those from before the registration. -/
def missedVotes (hash : Bytes → UInt256) (p : CVoteProposal) (fYes : Bool)
    (chain : List (CBlockIndex × Registry)) : ℕ :=
  chain.countP fun c => p.inPeriod c.1 && p.hasVote fYes c.1 && !p.registeredAt hash c

/-- The number of blocks after the period, and after the registration, that vote for the choice. -/
def extraVotes (hash : Bytes → UInt256) (p : CVoteProposal) (fYes : Bool)
    (chain : List (CBlockIndex × Registry)) : ℕ :=
  chain.countP fun c => p.afterPeriod c.1 && p.hasVote fYes c.1 && p.registeredAt hash c

/-- The yes tally and the no tally of the newest block are the numbers of blocks of the period that
vote yes and no. -/
def CountsPeriod (hash : Bytes → UInt256) (p : CVoteProposal)
    (tip : CBlockIndex × Registry) (chain : List (CBlockIndex × Registry)) : Prop :=
  ∀ fYes, (tip.1.tally.votes (p.getHash hash) fYes).toNat = p.periodVotes fYes (tip :: chain)

/-- A registered proposal is active at a height from the start of its period to the end of it, if
these are heights at all. -/
lemma isActive_ofProposal {p : CVoteProposal} {b : CBlockIndex}
    (hend : (p.nStartHeight.toNat : ℤ) + p.nCheckSpan.toNat < 2 ^ 31) :
    (CProposalMetaData.ofProposal hash p).isActive b.nHeight =
      (p.inPeriod b || p.afterPeriod b) := by
  have hsum : (p.nStartHeight + p.nCheckSpan).toNat
      = p.nStartHeight.toNat + p.nCheckSpan.toNat := by
    rw [UInt32.toNat_add]
    omega
  have hstartInt : p.nStartHeight.toInt32.toInt = p.nStartHeight.toNat := by
    rw [toInt_toInt32, if_pos (by omega)]
  have hendInt : (p.nStartHeight + p.nCheckSpan).toInt32.toInt
      = (p.nStartHeight.toNat : ℤ) + p.nCheckSpan.toNat := by
    rw [toInt_toInt32, hsum, if_pos (by omega)]
    push_cast
    rfl
  rw [Bool.eq_iff_iff, CProposalMetaData.isActive_iff, Int32.le_iff_toInt_le,
    Int32.le_iff_toInt_le]
  change p.nStartHeight.toInt32.toInt ≤ _ ∧ _ ≤ (p.nStartHeight + p.nCheckSpan).toInt32.toInt ↔ _
  rw [hstartInt, hendInt, inPeriod, afterPeriod, Bool.or_eq_true, decide_eq_true_eq,
    decide_eq_true_eq]
  omega

end CVoteProposal

/-- A proposal with a voting period of one block, at height 2. -/
def shortProposal : CVoteProposal :=
  { CVoteProposalManager.proposalAt 27 26 with nStartHeight := 2, nCheckSpan := 1 }

/-- The block that registers it, at height 1. -/
def shortRegistered : ConnectOutcome Unit :=
  connectBlock sampleHash sampleNode () (sampleProposalBlock shortProposal)
    { phashBlock := 2, nHeight := 1, nVersion := 0x50000000 } (some { phashBlock := 1 }) false {}

/-- The block of the period, which votes yes. -/
def shortVoted : ConnectOutcome Unit :=
  connectBlock sampleHash sampleNode () { vtx := [sampleCoinBase] }
    { phashBlock := 3, nHeight := 2, nVersion := 0x54000000 } (some shortRegistered.pindex) false
    shortRegistered.registry

/-- The block after the period, with a version. -/
def shortPassed (nVersion : Int32) : ConnectOutcome Unit :=
  connectBlock sampleHash sampleNode () { vtx := [sampleCoinBase] }
    { phashBlock := 4, nHeight := 3, nVersion } (some shortVoted.pindex) false shortVoted.registry

/-- The transactions of these blocks. -/
def shortTxs : List CTransaction :=
  [] ++ (sampleProposalBlock shortProposal).vtx ++ [sampleCoinBase] ++ [sampleCoinBase]

/-- The four blocks, with the registries under which they were counted. -/
def shortChain : List (CBlockIndex × Registry) :=
  [(shortVoted.pindex, shortVoted.registry), (shortRegistered.pindex, shortRegistered.registry),
    ({ phashBlock := 1 }, {})]

lemma votingHistory_shortPassed (nVersion : Int32)
    (hresult : (shortPassed nVersion).result = .ok true) :
    VotingHistory sampleHash shortTxs
      (((shortPassed nVersion).pindex, (shortPassed nVersion).registry) :: shortChain)
      (shortPassed nVersion).registry := by
  have hstart : VotingHistory sampleHash [] [({ phashBlock := 1 }, {})] {} :=
    .start _ _ _ rfl Registry.Findable.empty
  have hregistered : VotingHistory sampleHash ([] ++ (sampleProposalBlock shortProposal).vtx)
      [(shortRegistered.pindex, shortRegistered.registry), ({ phashBlock := 1 }, {})]
      shortRegistered.registry :=
    hstart.connect sampleNode () (sampleProposalBlock shortProposal)
      { phashBlock := 2, nHeight := 1, nVersion := 0x50000000 } (by decide) (.inl rfl)
      (fun _ => rfl) (by decide +kernel)
  have hvoted : VotingHistory sampleHash
      ([] ++ (sampleProposalBlock shortProposal).vtx ++ [sampleCoinBase]) shortChain
      shortVoted.registry :=
    hregistered.connect sampleNode () { vtx := [sampleCoinBase] }
      { phashBlock := 3, nHeight := 2, nVersion := 0x54000000 } (by decide +kernel) (.inl rfl)
      (fun _ => rfl) (by decide +kernel)
  have hheight : (3 : Int32).toInt = shortVoted.pindex.nHeight.toInt + 1 := by decide +kernel
  unfold shortPassed at hresult ⊢
  exact hvoted.connect sampleNode () { vtx := [sampleCoinBase] }
    { phashBlock := 4, nHeight := 3, nVersion } hheight (.inl rfl) (fun _ => rfl) hresult

end HyperStake
