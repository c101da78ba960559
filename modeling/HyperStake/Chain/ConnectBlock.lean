import HyperStake.Chain.Registry

/-!
# Connecting a block

`CBlock::ConnectBlock` in the order of the source: the checks and the sums over the transactions
(`connectTransactions`), the registration of the proposals that paid their fee
(`registerProposals`), the tally of the votes in the version of the block (`recordVotes`), and then
the writes to the transaction database and the last check, of the reward.

The parts of the node that the proposals and the votes do not depend on are left open: the checks of
the block and of the scripts, the transaction database, and the reward are the fields of `Node`, and
may do anything.  The notification of the wallets at the end is left out.

A call may end by returning false, or by an exception, after the registry has been changed; the
outcome has the registry and the index as they are then.
-/

namespace HyperStake

/-- The parts of a node that `ConnectBlock` calls, over a transaction database `Db`. -/
structure Node (Db : Type) where
  /-- The program runs on the test network. -/
  fTestNet : Bool
  /-- `Checkpoints::GetTotalBlocksEstimate`. -/
  getTotalBlocksEstimate : Int32
  /-- `CBlock::CheckBlock`. -/
  checkBlock : CBlock → Bool → Bool → Bool → Except Fault Bool
  getLegacySigOpCount : CTransaction → UInt32
  getP2SHSigOpCount : CTransaction → MapPrevTx → Except Fault UInt32
  readTxIndex : Db → UInt256 → Option CTxIndex
  /-- `FetchInputs`: the previous transactions, or none if it fails. -/
  fetchInputs : Db → CTransaction → Std.ExtTreeMap UInt256 CTxIndex →
    Except Fault (Option MapPrevTx)
  /-- `ConnectInputs`: the queued changes as it leaves them, or none if it fails. -/
  connectInputs : Db → CTransaction → MapPrevTx → Std.ExtTreeMap UInt256 CTxIndex →
    CDiskTxPos → CBlockIndex → Except Fault (Option (Std.ExtTreeMap UInt256 CTxIndex))
  /-- `CTxDB::WriteBlockIndex`, on the disk form of an index. -/
  writeBlockIndex : Db → CBlockIndex → Option Db
  updateTxIndex : Db → UInt256 → CTxIndex → Option Db
  getProofOfWorkReward : Int32 → Int64 → UInt256 → Except Fault Int64
  /-- The vote database takes the record of a transaction. -/
  writesProposal : UInt256 → Bool

/-- How a part of `ConnectBlock` ends the whole. -/
inductive Exit where
  | returnFalse
  | throws (e : Fault)
  deriving DecidableEq, Repr

namespace Exit

/-- An exception goes through. -/
def lift {α : Type} : Except Fault α → Except Exit α
  | .ok a => .ok a
  | .error e => .error (.throws e)

/-- Return false unless a condition holds. -/
def require (condition : Bool) : Except Exit Unit :=
  if condition then .ok () else .error .returnFalse

/-- Return false unless there is a value. -/
def requireSome {α : Type} : Option α → Except Exit α
  | some a => .ok a
  | none => .error .returnFalse

/-- The value that the whole returns, or its exception. -/
def result : Exit → Except Fault Bool
  | returnFalse => .ok false
  | throws e => .error e

end Exit

/-! ## The transactions -/

/-- The local variables of the loop over the transactions. -/
structure ConnectState where
  nTxPos : UInt32
  vQueuedProposals : List UInt256 := []
  mapQueuedChanges : Std.ExtTreeMap UInt256 CTxIndex := ∅
  nFees : Int64 := 0
  nValueIn : Int64 := 0
  nValueOut : Int64 := 0
  nSigOps : UInt32 := 0

section Connect

variable {Db : Type} (hash : Bytes → UInt256) (node : Node Db)

/-- The part of the loop body for a transaction that is not a coinbase: its inputs are connected,
and if it is a proposal with the proper fee then it is queued. -/
def connectInputsOf (db : Db) (pindex : CBlockIndex) (posThisTx : CDiskTxPos) (hashTx : UInt256)
    (tx : CTransaction) (s : ConnectState) : Except Exit ConnectState := do
  let mapInputs ← Exit.requireSome (← Exit.lift (node.fetchInputs db tx s.mapQueuedChanges))
  let nSigOps := s.nSigOps + (← Exit.lift (node.getP2SHSigOpCount tx mapInputs))
  Exit.require (nSigOps ≤ MAX_BLOCK_SIGOPS)
  let nTxValueIn ← Exit.lift (tx.getValueIn mapInputs)
  let nTxValueOut ← Exit.lift tx.getValueOut
  let nFees := if tx.isCoinStake then s.nFees else s.nFees + (nTxValueIn - nTxValueOut)
  let mapQueuedChanges ← Exit.requireSome
    (← Exit.lift (node.connectInputs db tx mapInputs s.mapQueuedChanges posThisTx pindex))
  let fProposal ← Exit.lift tx.isProposal
  -- needs to have the proper fee or else it will not be counted
  let fQueue := fProposal &&
    decide (nTxValueIn - nTxValueOut ≥ CVoteProposal.FEE - MIN_TXOUT_AMOUNT)
  return { s with
    nSigOps, nFees, mapQueuedChanges
    nValueIn := s.nValueIn + nTxValueIn
    nValueOut := s.nValueOut + nTxValueOut
    vQueuedProposals := if fQueue then s.vQueuedProposals ++ [hashTx] else s.vQueuedProposals }

/-- The body of the loop over the transactions. -/
def connectTransaction (db : Db) (pindex : CBlockIndex) (fJustCheck : Bool) (s : ConnectState)
    (tx : CTransaction) : Except Exit ConnectState := do
  let hashTx := tx.getHash hash
  -- a transaction may not overwrite an older one that is not completely spent
  match node.readTxIndex db hashTx with
  | some txindexOld => Exit.require (!txindexOld.vSpent.any CDiskTxPos.isNull)
  | none => pure ()
  let nSigOps := s.nSigOps + node.getLegacySigOpCount tx
  Exit.require (nSigOps ≤ MAX_BLOCK_SIGOPS)
  let posThisTx : CDiskTxPos := ⟨pindex.nFile, pindex.nBlockPos, s.nTxPos⟩
  let nTxPos := if fJustCheck then s.nTxPos else s.nTxPos + tx.getSerializeSize
  let s' := { s with nSigOps, nTxPos }
  let s'' ←
    if tx.isCoinBase then do
      let nTxValueOut ← Exit.lift tx.getValueOut
      pure { s' with nValueOut := s'.nValueOut + nTxValueOut }
    else connectInputsOf node db pindex posThisTx hashTx tx s'
  return { s'' with
    mapQueuedChanges := s''.mapQueuedChanges.insert hashTx (.ofPos posThisTx tx.vout.length) }

/-- The checks at the start of `ConnectBlock` and the loop over the transactions. -/
def connectTransactions (db : Db) (block : CBlock) (pindex : CBlockIndex) (fJustCheck : Bool) :
    Except Exit ConnectState := do
  let fFullCheck := decide (pindex.nHeight ≥ node.getTotalBlocksEstimate)
  Exit.require (← Exit.lift (node.checkBlock block (!fJustCheck) (!fJustCheck) fFullCheck))
  let nTxPos := if fJustCheck then 1
    else pindex.nBlockPos + ({} : CBlock).getSerializeSize - 2 * getSizeOfCompactSize 0 +
      getSizeOfCompactSize block.vtx.length
  block.vtx.foldlM (connectTransaction hash node db pindex fJustCheck) { nTxPos }

/-! ## The proposals -/

/-- The loop that registers the queued proposals, over the transactions that are left.  Returns the
exception in which it ends, if any, and the registry. -/
def registerProposals (vQueuedProposals : List UInt256) :
    List CTransaction → Registry → Option Fault × Registry
  | [], r => (none, r)
  | tx :: vtx, r =>
    let txid := tx.getHash hash
    if vQueuedProposals.contains txid then
      match proposalFromTransaction tx {} with
      | .error e => (some e, r)
      | .ok (false, _) => registerProposals vQueuedProposals vtx r
      | .ok (true, proposal) =>
        registerProposals vQueuedProposals vtx
          (r.register hash (node.writesProposal txid) txid proposal)
    else registerProposals vQueuedProposals vtx r

/-! ## The votes -/

/-- The tally that the votes of a block are added to: a copy of the parent's one if voting is
enabled. -/
def startTally (pindex pprev : CBlockIndex) : CVoteTally :=
  if node.fTestNet || decide (pindex.nHeight ≥ VOTING_START.toInt32) then pprev.tally
  else pindex.tally

/-- Record new votes to the tally of the index. -/
def recordVotes (pindex pprev : CBlockIndex) (r : Registry) : Except Fault CVoteTally :=
  let mapActive := r.proposalManager.getActive pindex.nHeight
  let tally := ((startTally node pindex pprev).setNewPositions r.getProposalTXID
    (fun txid => r.voteDB.readProposal txid) mapActive).2
  tally.processNewVotes pindex.nVersion.toUInt32

/-! ## The whole -/

/-- The writes to the transaction database and the check of the reward, at the end of
`ConnectBlock`. -/
def finishConnect (db : Db) (block : CBlock) (pindex : CBlockIndex) (pprev : Option CBlockIndex)
    (s : ConnectState) : Except Exit Db := do
  let db ← Exit.requireSome (node.writeBlockIndex db pindex)
  let db ← s.mapQueuedChanges.toList.foldlM
    (fun db mi => Exit.requireSome (node.updateTxIndex db mi.1 mi.2)) db
  let prevHash := match pprev with
    | some pprev => pprev.phashBlock
    | none => 0
  let nReward ← Exit.lift (node.getProofOfWorkReward pindex.nHeight s.nFees prevHash)
  match block.vtx with
  | [] => .error (.throws .undefined)
  | coinbase :: _ =>
    let nValueOut ← Exit.lift coinbase.getValueOut
    Exit.require (nValueOut ≤ nReward)
    match pprev with
    | none => return db
    | some pprev =>
      Exit.requireSome (node.writeBlockIndex db { pprev with pnext := pindex.phashBlock })

/-- What a call of `ConnectBlock` leaves behind.  The writes to the transaction database belong to a
database transaction, which the caller aborts if the call does not return true; they are dropped
here. -/
structure ConnectOutcome (Db : Type) where
  result : Except Fault Bool
  pindex : CBlockIndex
  registry : Registry
  db : Db

/-- The sums that `ConnectBlock` stores in the index. -/
def trackMoney (pindex : CBlockIndex) (pprev : Option CBlockIndex) (s : ConnectState) :
    CBlockIndex :=
  { pindex with
    nMint := s.nValueOut - s.nValueIn + s.nFees
    nMoneySupply := (match pprev with
      | some pprev => pprev.nMoneySupply
      | none => 0) + s.nValueOut - s.nValueIn }

/-- The votes that are counted on a block: none are on one without a parent. -/
def tallyOf (pindex : CBlockIndex) (pprev : Option CBlockIndex) (r : Registry) :
    Except Fault CVoteTally :=
  match pprev with
  | some pprev => recordVotes node pindex pprev r
  | none => .ok pindex.tally

/-- The part of `ConnectBlock` after the registration of the proposals. -/
def connectVotes (db : Db) (block : CBlock) (pindex : CBlockIndex) (pprev : Option CBlockIndex)
    (s : ConnectState) (r : Registry) : ConnectOutcome Db :=
  match tallyOf node pindex pprev r with
  | .error e => ⟨.error e, pindex, r, db⟩
  | .ok tally =>
    match finishConnect node db block { pindex with tally } pprev s with
    | .error exit => ⟨exit.result, { pindex with tally }, r, db⟩
    | .ok db => ⟨.ok true, { pindex with tally }, r, db⟩

/-- `CBlock::ConnectBlock`. -/
def connectBlock (db : Db) (block : CBlock) (pindex : CBlockIndex) (pprev : Option CBlockIndex)
    (fJustCheck : Bool) (r : Registry) : ConnectOutcome Db :=
  match connectTransactions hash node db block pindex fJustCheck with
  | .error exit => ⟨exit.result, pindex, r, db⟩
  | .ok s =>
    let pindex := trackMoney pindex pprev s
    if fJustCheck then ⟨.ok true, pindex, r, db⟩
    else
      match registerProposals hash node s.vQueuedProposals block.vtx r with
      | (some e, r) => ⟨.error e, pindex, r, db⟩
      | (none, r) => connectVotes node db block pindex pprev s r

/-! ## What a call does -/

/-- After the registration, the registry stays as it is. -/
lemma connectVotes_registry (db : Db) (block : CBlock) (pindex : CBlockIndex)
    (pprev : Option CBlockIndex) (s : ConnectState) (r : Registry) :
    (connectVotes node db block pindex pprev s r).registry = r := by
  rw [connectVotes]
  cases tallyOf node pindex pprev r with
  | error e => rfl
  | ok tally =>
    dsimp only
    cases finishConnect node db block { pindex with tally } pprev s <;> rfl

variable {db : Db} {block : CBlock} {pindex : CBlockIndex} {r : Registry}

/-- If the part after the registration ends without a fault in the votes, then the index has the
tally with the votes of the block. -/
lemma connectVotes_pindex {pprev : Option CBlockIndex} {s : ConnectState}
    (h : (connectVotes node db block pindex pprev s r).result = .ok true) :
    ∃ tally, tallyOf node pindex pprev r = .ok tally ∧
      (connectVotes node db block pindex pprev s r).pindex = { pindex with tally } := by
  rw [connectVotes] at h ⊢
  cases htally : tallyOf node pindex pprev r with
  | error e =>
    rw [htally] at h
    cases h
  | ok tally =>
    refine ⟨tally, rfl, ?_⟩
    dsimp only
    cases finishConnect node db block { pindex with tally } pprev s <;> rfl

/-- A call that returns true on a block with a parent, without only checking it, has registered the
proposals and recorded the votes in the tally of the index. -/
lemma connectBlock_eq_true {pprev : CBlockIndex}
    (h : (connectBlock hash node db block pindex (some pprev) false r).result = .ok true) :
    ∃ s r' tally, connectTransactions hash node db block pindex false = .ok s ∧
      registerProposals hash node s.vQueuedProposals block.vtx r = (none, r') ∧
      (connectBlock hash node db block pindex (some pprev) false r).registry = r' ∧
      recordVotes node (trackMoney pindex (some pprev) s) pprev r' = .ok tally ∧
      (connectBlock hash node db block pindex (some pprev) false r).pindex
        = { trackMoney pindex (some pprev) s with tally } := by
  rw [connectBlock] at h ⊢
  cases hconnect : connectTransactions hash node db block pindex false with
  | error exit =>
    rw [hconnect] at h
    cases exit <;> cases h
  | ok s =>
    rw [hconnect] at h
    simp only [Bool.false_eq_true, if_false] at h ⊢
    rcases hregister : registerProposals hash node s.vQueuedProposals block.vtx r with ⟨_ | e, r'⟩
    · rw [hregister] at h
      obtain ⟨tally, htally, hpindex⟩ := connectVotes_pindex node h
      exact ⟨s, r', tally, rfl, hregister, connectVotes_registry node _ _ _ _ _ _, htally,
        hpindex⟩
    · rw [hregister] at h
      cases h

/-- A call that returns true has made all the writes to the transaction database. -/
lemma connectBlock_finish {pprev : Option CBlockIndex}
    (h : (connectBlock hash node db block pindex pprev false r).result = .ok true) :
    ∃ s, connectTransactions hash node db block pindex false = .ok s ∧
      finishConnect node db block
        (connectBlock hash node db block pindex pprev false r).pindex pprev s =
        .ok (connectBlock hash node db block pindex pprev false r).db := by
  rw [connectBlock] at h ⊢
  cases hconnect : connectTransactions hash node db block pindex false with
  | error exit =>
    rw [hconnect] at h
    cases exit <;> cases h
  | ok s =>
    refine ⟨s, rfl, ?_⟩
    rw [hconnect] at h
    simp only [Bool.false_eq_true, if_false] at h ⊢
    rcases hregister : registerProposals hash node s.vQueuedProposals block.vtx r with ⟨_ | e, r'⟩
    · rw [hregister] at h
      dsimp only at h ⊢
      rw [connectVotes] at h ⊢
      cases htally : tallyOf node (trackMoney pindex pprev s) pprev r' with
      | error e =>
        rw [htally] at h
        cases h
      | ok tally =>
        rw [htally] at h
        dsimp only at h ⊢
        cases hfinish : finishConnect node db block { trackMoney pindex pprev s with tally }
            pprev s with
        | error exit =>
          rw [hfinish] at h
          cases exit <;> cases h
        | ok db' => exact hfinish
    · rw [hregister] at h
      cases h

end Connect

/-! ## A node for examples -/

/-- A node on the test network that accepts every block, and on which every input claims an output
of ten coins. -/
def sampleNode : Node Unit where
  fTestNet := true
  getTotalBlocksEstimate := 0
  checkBlock _ _ _ _ := .ok true
  getLegacySigOpCount _ := 0
  getP2SHSigOpCount _ _ := .ok 0
  readTxIndex _ _ := none
  fetchInputs _ tx _ := .ok (some (tx.vin.foldl (fun mapInputs txin =>
    mapInputs.insert txin.prevout.hash ({}, { vout := [{ nValue := 10 * COIN }] })) ∅))
  connectInputs _ _ _ mapQueuedChanges _ _ := .ok (some mapQueuedChanges)
  writeBlockIndex _ _ := some ()
  updateTxIndex _ _ _ := some ()
  getProofOfWorkReward _ _ _ := .ok 0
  writesProposal _ := true

/-- A coinbase that claims nothing. -/
def sampleCoinBase : CTransaction :=
  { vin := [{}], vout := [{ nValue := 0 }] }

/-- A transaction that carries a proposal and pays its fee. -/
def sampleProposalTx (proposal : CVoteProposal) : CTransaction :=
  { vin := [{ prevout := { hash := 1, n := 0 } }]
    vout := [{ nValue := MIN_TXOUT_AMOUNT, scriptPubKey := proposal.script },
      { nValue := 5 * COIN, scriptPubKey := [0x51] }] }

end HyperStake
