import HyperStake.Chain.Undoing

/-!
# The active chain

The states that calls of `ConnectBlock` and `DisconnectBlock` lead to from the genesis block, with
database transactions around them (`ChainRun`).  The blocks have passed `AcceptBlock`, and the
hashes of the transactions do not collide.

In all of these states the database is the index of the chain (`Indexed`).  A transaction that
spends is new because what it spends was not spent before, and a coinbase is new because it starts
with the height of its block.  So no output is spent twice (`ChainRun.spentOnce`), disconnecting a
block undoes connecting it (`ChainRun.disconnectBlock_connectBlock`), and going back to an earlier
block leaves what any other run to that block has (`ChainRun.disconnectBlocks_eq`).
-/

namespace HyperStake

/-! ## The genesis block -/

/-- The time of the genesis transaction. -/
def nChainStartTime : UInt32 := 1399495660

/-- A headline of the day before the first block. -/
def pszTimestamp : Bytes :=
  "29/5/14 - Replica Ghostbusters car stops the traffic - BBC UK".toList.map fun c =>
    c.toNat.toUInt8

/-- The script of the input of the genesis transaction. -/
def genesisScriptSig : CScript :=
  CScript.pushData (CScript.pushData (CScript.pushInt64 [] 486604799) (CScript.getvch 9999))
    pszTimestamp

/-- The transaction of the genesis block, which makes no money. -/
def genesisTx : CTransaction :=
  { nTime := nChainStartTime, vin := [{ scriptSig := genesisScriptSig }], vout := [{ nValue := 0 }] }

/-- A block of the chain, with its index. -/
structure Link where
  block : CBlock
  pindex : CBlockIndex

/-- The genesis block; the fields of the header that nothing here reads are left out. -/
def genesisLink (fTestNet : Bool) : Link :=
  let nTime := if fTestNet then 1424304823 else 1401331380
  { block := { nVersion := 1, nTime, vtx := [genesisTx] }
    pindex := { nVersion := 1, nTime } }

/-- The transactions of a block, each with its position. -/
def Link.txs (l : Link) : List OnChain :=
  placed l.pindex (firstTxPos l.block l.pindex) l.block.vtx

/-! ## Runs -/

/-- The blocks that have been connected, the last one first, and the transaction database. -/
structure ChainState where
  chain : List Link := []
  db : TxDB := ∅

/-- The transactions that have been connected, the last one first.  The transaction of the genesis
block is not connected. -/
def transactions (chain : List Link) : List OnChain := chain.flatMap fun l => l.txs.reverse

/-- The indices of the active chain, down to that of the genesis block. -/
def indices (fTestNet : Bool) (chain : List Link) : List CBlockIndex :=
  chain.map Link.pindex ++ [(genesisLink fTestNet).pindex]

/-- The index of the last block of the active chain. -/
def tip (fTestNet : Bool) (chain : List Link) : CBlockIndex :=
  (chain.head?.getD (genesisLink fTestNet)).pindex

/-- A block that has passed `AcceptBlock` after a chain, with its index. -/
structure Accepted (past : List CBlockIndex) (block : CBlock) (pindex : CBlockIndex) : Prop where
  rules : ∃ env, block.acceptRules env past = .ok true
  /-- The height is an `int`, which does not overflow. -/
  height : ∃ pprev ∈ past.head?, pindex.nHeight.toInt = pprev.nHeight.toInt + 1
  time : pindex.nTime = block.nTime
  /-- `OpenBlockFile` does not open the file of this number. -/
  file : pindex.nFile ≠ 0xffffffff

/-- The states that calls lead to, with the state that the database transaction began with.  The
transactions are among the known ones, and the surroundings are admitted for the chain. -/
inductive ChainRun (hash : Bytes → UInt256) (fTestNet : Bool) (known : Set CTransaction)
    (admits : Env → List Link → Prop) : ChainState → ChainState → Prop
  | start : ChainRun hash fTestNet known admits {} {}
  | connect {began s : ChainState} (env : Env) (block : CBlock) (pindex : CBlockIndex)
      (r : Registry) :
      ChainRun hash fTestNet known admits began s → admits env s.chain →
      Accepted (indices fTestNet s.chain) block pindex → (∀ tx ∈ block.vtx, tx ∈ known) →
      (connectBlock hash (env.node hash) s.db block pindex (some (tip fTestNet s.chain)) false
        r).result = .ok true →
      ChainRun hash fTestNet known admits began
        { chain := ⟨block, (connectBlock hash (env.node hash) s.db block pindex
            (some (tip fTestNet s.chain)) false r).pindex⟩ :: s.chain
          db := (connectBlock hash (env.node hash) s.db block pindex
            (some (tip fTestNet s.chain)) false r).db }
  /-- A call that only checks a block. -/
  | check {began s : ChainState} (env : Env) (block : CBlock) (pindex : CBlockIndex)
      (r : Registry) :
      ChainRun hash fTestNet known admits began s →
      ChainRun hash fTestNet known admits began
        { s with db := (connectBlock hash (env.node hash) s.db block pindex
            (some (tip fTestNet s.chain)) true r).db }
  | disconnect {began : ChainState} {l : Link} {chain : List Link} {db db' : TxDB} (env : Env) :
      ChainRun hash fTestNet known admits began ⟨l :: chain, db⟩ →
      l.block.disconnectBlock hash env db (some (tip fTestNet chain)) = some db' →
      ChainRun hash fTestNet known admits began ⟨chain, db'⟩
  /-- `TxnAbort`, after a call that failed. -/
  | abort {began s : ChainState} :
      ChainRun hash fTestNet known admits began s → ChainRun hash fTestNet known admits began began
  /-- `TxnCommit`. -/
  | commit {began s : ChainState} :
      ChainRun hash fTestNet known admits began s → ChainRun hash fTestNet known admits s s

/-! ## The height in a coinbase -/

/-- The first input of a transaction starts with a height. -/
def CTransaction.StartsWith (tx : CTransaction) (nHeight : Int32) : Prop :=
  ∃ txin ∈ tx.vin.head?, CScript.pushInt64 [] nHeight.toInt64 <+: txin.scriptSig

/-- A transaction starts with one height only. -/
lemma CTransaction.StartsWith.eq {tx : CTransaction} {m n : Int32} (hm : 0 ≤ m.toInt)
    (hn : 0 ≤ n.toInt) (hms : tx.StartsWith m) (hns : tx.StartsWith n) : m = n := by
  obtain ⟨txin, htxin, hms⟩ := hms
  obtain ⟨txin', htxin', hns⟩ := hns
  obtain rfl : txin = txin' := Option.mem_unique htxin htxin'
  have hinj := CScript.pushInt64_inj (by rwa [Int32.toInt_toInt64]) (by rwa [Int32.toInt_toInt64])
    hms hns
  have htoInt := congrArg Int64.toInt hinj
  rw [Int32.toInt_toInt64, Int32.toInt_toInt64] at htoInt
  exact Int32.toInt_inj.mp htoInt

/-- The coinbase of an accepted block starts with the height of the block. -/
lemma Accepted.startsWith {past : List CBlockIndex} {block : CBlock} {pindex : CBlockIndex}
    (h : Accepted past block pindex) :
    ∀ coinbase ∈ block.vtx.head?, coinbase.StartsWith pindex.nHeight := by
  obtain ⟨env, hrules⟩ := h.rules
  obtain ⟨pprev, hpprev, hheight⟩ := h.height
  intro coinbase hcoinbase
  have hnext : pprev.nHeight + 1 = pindex.nHeight := by
    have hone : (1 : Int32).toInt = 1 := rfl
    have hge := pindex.nHeight.le_toInt
    have hlt := pindex.nHeight.toInt_lt
    refine Int32.toInt_inj.mp ?_
    rw [Int32.toInt_add, hone, ← hheight]
    exact Int.bmod_eq_of_le (by norm_num; omega) (by norm_num; omega)
  obtain ⟨pindexPrev, hprev, coinbase', hcoinbase', txin, htxin, -, -, hstarts⟩ :=
    CBlock.acceptRules_eq_true hrules
  obtain rfl : pindexPrev = pprev := Option.mem_unique hprev hpprev
  obtain rfl : coinbase = coinbase' := Option.mem_unique hcoinbase hcoinbase'
  rw [hnext] at hstarts
  exact ⟨txin, htxin, hstarts⟩

/-! ## The database is the index of the chain -/

section Indexed

variable {hash : Bytes → UInt256} {fTestNet : Bool} {known : Set CTransaction}
  {admits : Env → List Link → Prop} {began s : ChainState} {chain : List Link} {l : Link}

lemma map_tx_txs (l : Link) : l.txs.map OnChain.tx = l.block.vtx := map_tx_placed _ _ _

@[simp] lemma transactions_cons (l : Link) (chain : List Link) :
    transactions (l :: chain) = l.txs.reverse ++ transactions chain := rfl

lemma mem_transactions {x : OnChain} (hx : x ∈ transactions chain) :
    ∃ l ∈ chain, x.tx ∈ l.block.vtx := by
  obtain ⟨l, hl, hmem⟩ := List.mem_flatMap.mp hx
  refine ⟨l, hl, ?_⟩
  rw [← map_tx_txs]
  exact List.mem_map_of_mem (List.mem_reverse.mp hmem)

/-- The positions of the transactions of a block depend on where the block is. -/
lemma placed_congr {pindex pindex' : CBlockIndex} (hfile : pindex.nFile = pindex'.nFile)
    (hpos : pindex.nBlockPos = pindex'.nBlockPos) (nTxPos : UInt32) (vtx : List CTransaction) :
    placed pindex nTxPos vtx = placed pindex' nTxPos vtx := by
  induction vtx generalizing nTxPos with
  | nil => rfl
  | cons tx vtx ih => rw [placed, placed, hfile, hpos, ih]

variable {env : Env}

/-- `DisconnectBlock` of the last block leaves the index of the chain before it. -/
lemma disconnectBlock_eq_some {db' : TxDB} {pprev : CBlockIndex}
    (hvalid : Ledger.Valid (indexing hash).toScheme (transactions (l :: chain)))
    (h : l.block.disconnectBlock hash env (indexOf hash (transactions (l :: chain)))
      (some pprev) = some db') : db' = indexOf hash (transactions chain) := by
  unfold CBlock.disconnectBlock at h
  obtain ⟨db₁, hundo, h⟩ := Option.bind_eq_some_iff.mp h
  rw [← map_tx_txs, ← List.map_reverse] at hundo
  rw [TxDB.writeBlockIndex_eq_some h]
  exact foldlM_disconnectInputs hvalid hundo

/-- `DisconnectBlock` of the last block succeeds, if the database takes what it writes. -/
lemma exists_disconnectBlock (hwrites : env.Writes) (pprev : CBlockIndex)
    (hvalid : Ledger.Valid (indexing hash).toScheme (transactions (l :: chain))) :
    ∃ db', l.block.disconnectBlock hash env (indexOf hash (transactions (l :: chain)))
      (some pprev) = some db' := by
  rw [transactions_cons] at hvalid
  obtain ⟨db₁, hundo⟩ := exists_foldlM_disconnectInputs hwrites hvalid
  rw [List.map_reverse, map_tx_txs] at hundo
  refine ⟨db₁, ?_⟩
  unfold CBlock.disconnectBlock
  rw [transactions_cons, hundo]
  exact if_pos (hwrites.blockIndex _)

lemma txs_congr {block : CBlock} {pindex pindex' : CBlockIndex}
    (hfile : pindex.nFile = pindex'.nFile) (hpos : pindex.nBlockPos = pindex'.nBlockPos) :
    Link.txs ⟨block, pindex⟩ = placed pindex' (firstTxPos block pindex') block.vtx := by
  rw [Link.txs, firstTxPos, hpos]
  exact placed_congr hfile hpos _ _

/-- The database is the index of the chain, on which every coinbase starts with the height of its
block. -/
structure Indexed (hash : Bytes → UInt256) (fTestNet : Bool) (known : Set CTransaction)
    (s : ChainState) : Prop where
  tracks : Tracks hash s.db (transactions s.chain) ∅
  mem_known : ∀ x ∈ transactions s.chain, x.tx ∈ known
  startsWith : ∀ l ∈ s.chain, ∀ tx ∈ l.block.vtx, tx.isCoinBase = true →
    tx.StartsWith l.pindex.nHeight
  ordered : (indices fTestNet s.chain).Pairwise fun a b => b.nHeight.toInt < a.nHeight.toInt

namespace Indexed

lemma db_eq (h : Indexed hash fTestNet known s) : s.db = indexOf hash (transactions s.chain) := by
  refine Std.ExtTreeMap.ext_getElem? fun k => ?_
  rw [h.tracks.overlays k]
  simp

lemma start : Indexed hash fTestNet known {} := by
  refine ⟨⟨.start _, .nil, by simp [transactions]⟩, by simp [transactions], by simp, ?_⟩
  exact List.pairwise_singleton _ _

/-- The last index of a chain is the first of the indices. -/
lemma head?_indices (chain : List Link) :
    (indices fTestNet chain).head? = some (tip fTestNet chain) := by
  cases chain <;> rfl

variable {block : CBlock} {pindex : CBlockIndex}

section

variable (h : Indexed hash fTestNet known s)
  (haccepted : Accepted (indices fTestNet s.chain) block pindex)

include h haccepted

/-- Heights are not negative, and that of an accepted block is above those of the chain. -/
lemma height_lt :
    ∀ a ∈ indices fTestNet s.chain,
      0 ≤ a.nHeight.toInt ∧ a.nHeight.toInt < pindex.nHeight.toInt := by
  obtain ⟨pprev, hpprev, hheight⟩ := haccepted.height
  intro a ha
  constructor
  · have hgenesis := (List.pairwise_append.mp h.ordered).2.2
    rcases List.mem_append.mp ha with hmem | hmem
    · exact (hgenesis a hmem _ List.mem_cons_self).le
    · rw [List.mem_singleton.mp hmem]
      exact le_rfl
  · obtain ⟨past, hpast⟩ := List.head?_eq_some_iff.mp hpprev
    have hordered := h.ordered
    rw [hpast] at ha hordered
    rcases List.mem_cons.mp ha with rfl | hmem
    · omega
    · have hlt := (List.pairwise_cons.mp hordered).1 a hmem
      omega

/-- The coinbase of an accepted block is new. -/
lemma coinbase_ne :
    ∀ coinbase ∈ block.vtx.head?, coinbase.isCoinBase = true →
      ∀ x ∈ transactions s.chain, x.tx ≠ coinbase := by
  intro coinbase hcoinbase hcoin x hx heq
  obtain ⟨l, hl, hmem⟩ := mem_transactions hx
  have hlt := h.height_lt haccepted l.pindex
    (List.mem_append_left _ (List.mem_map_of_mem hl))
  have hold := h.startsWith l hl x.tx hmem (by rw [heq, hcoin])
  rw [heq] at hold
  have hsame := hold.eq hlt.1 (hlt.1.trans hlt.2.le) (haccepted.startsWith coinbase hcoinbase)
  rw [hsame] at hlt
  exact lt_irrefl _ hlt.2

end

/-- Connecting an accepted block. -/
lemma connect (hinj : Set.InjOn (CTransaction.getHash hash) known)
    (h : Indexed hash fTestNet known s) {r : Registry}
    (haccepted : Accepted (indices fTestNet s.chain) block pindex)
    (hknown : ∀ tx ∈ block.vtx, tx ∈ known)
    (hconnect : (connectBlock hash (env.node hash) s.db block pindex
      (some (tip fTestNet s.chain)) false r).result = .ok true) :
    Indexed hash fTestNet known
      { chain := ⟨block, (connectBlock hash (env.node hash) s.db block pindex
          (some (tip fTestNet s.chain)) false r).pindex⟩ :: s.chain
        db := (connectBlock hash (env.node hash) s.db block pindex
          (some (tip fTestNet s.chain)) false r).db } := by
  obtain ⟨s', r', tally, hloop, -, -, -, hpindex⟩ :=
    connectBlock_eq_true hash (env.node hash) hconnect
  obtain ⟨coinbase, others, hblock, -, hothers⟩ :=
    CBlock.coinbase_of_checkBlock (connectTransactions_eq_ok hloop).1
  have htracks := h.tracks.connectBlock hinj haccepted.file h.mem_known hknown
    (h.coinbase_ne haccepted) hconnect
  -- the call keeps the height and the place of the block
  have htxs : Link.txs ⟨block, (connectBlock hash (env.node hash) s.db block pindex
      (some (tip fTestNet s.chain)) false r).pindex⟩ =
      placed pindex (firstTxPos block pindex) block.vtx := by
    refine txs_congr ?_ ?_
    all_goals
      rw [hpindex]
      rfl
  have hheight : (connectBlock hash (env.node hash) s.db block pindex
      (some (tip fTestNet s.chain)) false r).pindex.nHeight = pindex.nHeight := by
    rw [hpindex]
    rfl
  refine ⟨?_, ?_, ?_, ?_⟩
  · rw [transactions_cons, htxs]
    exact htracks
  · intro x hx
    rw [transactions_cons, List.mem_append, List.mem_reverse] at hx
    rcases hx with hnew | hold
    · have hmem := List.mem_map_of_mem (f := OnChain.tx) hnew
      rw [map_tx_txs] at hmem
      exact hknown _ hmem
    · exact h.mem_known x hold
  · intro l hl tx htx hcoin
    rcases List.mem_cons.mp hl with rfl | hl
    · have htx' : tx ∈ coinbase :: others := hblock ▸ htx
      rcases List.mem_cons.mp htx' with rfl | hother
      · have hhead : tx ∈ block.vtx.head? := by
          rw [hblock]
          rfl
        exact hheight.symm ▸ haccepted.startsWith tx hhead
      · rw [hothers tx hother] at hcoin
        contradiction
    · exact h.startsWith l hl tx htx hcoin
  · refine List.pairwise_cons.mpr ⟨fun a ha => ?_, h.ordered⟩
    rw [hheight]
    exact (h.height_lt haccepted a ha).2

/-- Disconnecting the last block. -/
lemma disconnect {db db' : TxDB} (h : Indexed hash fTestNet known ⟨l :: chain, db⟩)
    (hdisconnect : l.block.disconnectBlock hash env db (some (tip fTestNet chain)) = some db') :
    Indexed hash fTestNet known ⟨chain, db'⟩ := by
  have hvalid : Ledger.Valid (indexing hash).toScheme (transactions chain) := by
    have hall := h.tracks.valid
    rw [transactions_cons] at hall
    exact hall.of_append
  have hdb : db = indexOf hash (transactions (l :: chain)) := h.db_eq
  rw [hdb] at hdisconnect
  have hdb' := disconnectBlock_eq_some h.tracks.valid hdisconnect
  refine ⟨⟨?_, hvalid, ?_⟩, ?_, ?_, ?_⟩
  · rw [hdb']
    exact .start _
  · exact fun x hx => h.tracks.marked x (List.mem_append_right _ hx)
  · exact fun x hx => h.mem_known x (List.mem_append_right _ hx)
  · exact fun l' hl' => h.startsWith l' (List.mem_cons_of_mem _ hl')
  · exact (List.pairwise_cons.mp h.ordered).2

end Indexed

/-- A call that only checks a block leaves the database as it is. -/
lemma connectBlock_justCheck_db {Db : Type} (node : Node Db) (db : Db) (block : CBlock)
    (pindex : CBlockIndex) (pprev : Option CBlockIndex) (r : Registry) :
    (connectBlock hash node db block pindex pprev true r).db = db := by
  rw [connectBlock]
  cases connectTransactions hash node db block pindex true <;> rfl

/-- In every state that calls lead to, and in the one that the transaction began with, the database
is the index of the chain. -/
lemma ChainRun.indexed (hinj : Set.InjOn (CTransaction.getHash hash) known)
    (hrun : ChainRun hash fTestNet known admits began s) :
    Indexed hash fTestNet known began ∧ Indexed hash fTestNet known s := by
  induction hrun with
  | start => exact ⟨.start, .start⟩
  | connect env block pindex r _ _ haccepted hknown hconnect ih =>
    exact ⟨ih.1, ih.2.connect hinj haccepted hknown hconnect⟩
  | check env block pindex r _ ih =>
    rw [connectBlock_justCheck_db]
    exact ih
  | disconnect env _ hdisconnect ih => exact ⟨ih.1, ih.2.disconnect hdisconnect⟩
  | abort _ ih => exact ⟨ih.1, ih.1⟩
  | commit _ ih => exact ⟨ih.2, ih.2⟩

end Indexed

/-! ## Disconnecting undoes connecting -/

/-- After a block has been connected, it can be disconnected, if the database takes what is written,
and every record of the index is then what it was before. -/
theorem ChainRun.disconnectBlock_connectBlock {hash : Bytes → UInt256} {fTestNet : Bool}
    {known : Set CTransaction} {admits : Env → List Link → Prop} {began s : ChainState}
    (hinj : Set.InjOn (CTransaction.getHash hash) known)
    (hrun : ChainRun hash fTestNet known admits began s) {env env' : Env} (hwrites : env'.Writes)
    {block : CBlock} {pindex : CBlockIndex} {r : Registry}
    (haccepted : Accepted (indices fTestNet s.chain) block pindex)
    (hknown : ∀ tx ∈ block.vtx, tx ∈ known)
    (hconnect : (connectBlock hash (env.node hash) s.db block pindex
      (some (tip fTestNet s.chain)) false r).result = .ok true) :
    block.disconnectBlock hash env' (connectBlock hash (env.node hash) s.db block pindex
      (some (tip fTestNet s.chain)) false r).db (some (tip fTestNet s.chain)) = some s.db := by
  have hindexed := (hrun.indexed hinj).2
  have hafter := hindexed.connect hinj haccepted hknown hconnect
  have hdb := hafter.db_eq
  dsimp only at hdb
  obtain ⟨db', hundo⟩ := exists_disconnectBlock hwrites (tip fTestNet s.chain) hafter.tracks.valid
  have hdb' : db' = s.db := by
    rw [hindexed.db_eq]
    exact disconnectBlock_eq_some hafter.tracks.valid hundo
  rw [hdb, ← hdb']
  rw [hdb'] at hundo ⊢
  exact hundo

/-! ## Rolling back -/

/-- The calls of `DisconnectBlock` that `Reorganize` makes to go back to a chain, the last block
first. -/
def disconnectBlocks (hash : Bytes → UInt256) (env : Env) (fTestNet : Bool) (chain : List Link) :
    List Link → TxDB → Option TxDB
  | [], db => some db
  | l :: newer, db =>
    (l.block.disconnectBlock hash env db (some (tip fTestNet (newer ++ chain)))).bind
      (disconnectBlocks hash env fTestNet chain newer)

/-- Going back leaves the index of the chain that is gone back to. -/
lemma disconnectBlocks_indexOf {hash : Bytes → UInt256} {fTestNet : Bool} {env : Env}
    (hwrites : env.Writes) {newer chain : List Link}
    (hvalid : Ledger.Valid (indexing hash).toScheme (transactions (newer ++ chain))) :
    disconnectBlocks hash env fTestNet chain newer
      (indexOf hash (transactions (newer ++ chain))) = some (indexOf hash (transactions chain)) := by
  induction newer with
  | nil => rfl
  | cons l newer ih =>
    rw [List.cons_append] at hvalid ⊢
    obtain ⟨db', hundo⟩ := exists_disconnectBlock hwrites (tip fTestNet (newer ++ chain)) hvalid
    have hdb' := disconnectBlock_eq_some hvalid hundo
    rw [disconnectBlocks, hundo, Option.bind_some, hdb']
    rw [transactions_cons] at hvalid
    exact ih hvalid.of_append

/-- From a state of a run, the blocks above those of a state of any other run can be disconnected one
after the other, if the database takes what is written, and the database is then that of the other
state.  So the database of a node depends on its active chain alone. -/
theorem ChainRun.disconnectBlocks_eq {hash : Bytes → UInt256} {fTestNet : Bool}
    {known : Set CTransaction} {admits admits' : Env → List Link → Prop}
    {began s began' s' : ChainState} (hinj : Set.InjOn (CTransaction.getHash hash) known)
    (hrun : ChainRun hash fTestNet known admits began s)
    (hrun' : ChainRun hash fTestNet known admits' began' s') {env : Env} (hwrites : env.Writes)
    {newer : List Link} (hchain : s.chain = newer ++ s'.chain) :
    disconnectBlocks hash env fTestNet s'.chain newer s.db = some s'.db := by
  have hindexed := (hrun.indexed hinj).2
  have hvalid := hindexed.tracks.valid
  rw [hchain] at hvalid
  rw [hindexed.db_eq, ((hrun'.indexed hinj).2).db_eq, hchain]
  exact disconnectBlocks_indexOf hwrites hvalid

/-! ## No output is spent twice -/

variable {fTestNet : Bool}

/-- The active chain, the last transaction first. -/
def activeChain (fTestNet : Bool) (chain : List Link) : List OnChain :=
  transactions chain ++ (genesisLink fTestNet).txs

/-- Where an output is spent, as the database has it: none if there is no record, or the position is
null. -/
def TxDB.spender (db : TxDB) (h : UInt256) (n : ℕ) : Option CDiskTxPos :=
  (db.spentAt h n).filter fun pos => !pos.isNull

instance lawfulBEqOutput : LawfulBEq (UInt256 × ℕ) := Prod.instLawfulBEq

/-- The transactions of a chain with an input that claims an output, when the claims of the inputs of
a transaction are given. -/
def spenders (claims : CTransaction → List (UInt256 × ℕ)) (chain : List OnChain)
    (o : UInt256 × ℕ) : List OnChain :=
  chain.filter fun x => o ∈ claims x.tx

/-- The database says of every output of a chain where it is spent, and no two inputs claim the same
output. -/
structure SpentOnce (hash : Bytes → UInt256) (claims : CTransaction → List (UInt256 × ℕ))
    (chain : List OnChain) (db : TxDB) : Prop where
  spender_iff : ∀ t ∈ chain, ∀ n < t.tx.vout.length, ∀ pos,
    db.spender (t.tx.getHash hash) n = some pos ↔
      ∃ x, spenders claims chain (t.tx.getHash hash, n) = [x] ∧ x.pos = pos
  nodup : (chain.flatMap fun x => claims x.tx).Nodup

/-- The genesis transaction claims nothing. -/
lemma claims_genesis {x : OnChain} (hx : x ∈ (genesisLink fTestNet).txs) : x.tx.claims = [] := by
  obtain rfl := List.mem_singleton.mp hx
  rfl

/-- The spenders in the active chain are those among the transactions that have been connected. -/
lemma spenders_activeChain (fTestNet : Bool) (chain : List Link) (o : UInt256 × ℕ) :
    spenders CTransaction.claims (activeChain fTestNet chain) o =
      spenders CTransaction.claims (transactions chain) o := by
  have hgenesis : spenders CTransaction.claims (genesisLink fTestNet).txs o = [] :=
    List.filter_eq_nil_iff.mpr fun x hx => by simp [claims_genesis hx]
  rw [activeChain, spenders, List.filter_append]
  exact (congrArg _ hgenesis).trans (List.append_nil _)

/-- An output of a valid chain has one spender if there is one. -/
lemma spenders_eq_singleton {hash : Bytes → UInt256} {chain : List OnChain}
    (hvalid : Ledger.Valid (indexing hash).toScheme chain) {x : OnChain} {o : UInt256 × ℕ}
    (hx : x ∈ chain) (ho : o ∈ x.tx.claims) : spenders CTransaction.claims chain o = [x] := by
  have hmem : x ∈ spenders CTransaction.claims chain o :=
    List.mem_filter.mpr ⟨hx, decide_eq_true ho⟩
  have hnodup : (spenders CTransaction.claims chain o).Nodup := hvalid.nodup_id.of_map.filter _
  have hall : ∀ y ∈ spenders CTransaction.claims chain o, y = x := by
    intro y hy
    obtain ⟨hychain, hyo⟩ := List.mem_filter.mp hy
    exact hvalid.eq_of_claims hychain hx (of_decide_eq_true hyo) ho
  refine List.perm_singleton.mp ((List.perm_ext_iff_of_nodup hnodup (List.nodup_singleton x)).mpr
    fun y => ⟨fun hy => ?_, fun hy => ?_⟩)
  · exact List.mem_singleton.mpr (hall y hy)
  · rwa [List.mem_singleton.mp hy]

/-- In every state that calls lead to, no output is spent twice, and the database knows which
transaction spends it. -/
theorem ChainRun.spentOnce {hash : Bytes → UInt256} {fTestNet : Bool} {known : Set CTransaction}
    {admits : Env → List Link → Prop} {began s : ChainState}
    (hinj : Set.InjOn (CTransaction.getHash hash) known)
    (hrun : ChainRun hash fTestNet known admits began s) :
    SpentOnce hash CTransaction.claims (activeChain fTestNet s.chain) s.db := by
  have hindexed := (hrun.indexed hinj).2
  have hvalid := hindexed.tracks.valid
  constructor
  · intro t ht n hn pos
    rw [spenders_activeChain, hindexed.db_eq, TxDB.spender, Option.filter_eq_some_iff,
      spentAt_indexOf_iff hvalid, Bool.not_eq_true']
    constructor
    · rintro ⟨⟨-, ⟨-, rfl⟩ | ⟨x, hx, ho, rfl⟩⟩, hnull⟩
      · cases hnull
      · exact ⟨x, spenders_eq_singleton hvalid hx ho, rfl⟩
    · rintro ⟨x, hspenders, rfl⟩
      have hmem : x ∈ spenders CTransaction.claims (transactions s.chain)
          (t.tx.getHash hash, n) := by
        rw [hspenders]
        exact List.mem_singleton_self x
      obtain ⟨hx, ho⟩ := List.mem_filter.mp hmem
      have ho' := of_decide_eq_true ho
      obtain ⟨p, hp, hid, hlt⟩ := hvalid.found (Ledger.mem_claimed.mpr ⟨x, hx, ho'⟩)
      exact ⟨⟨⟨p, hp, hid, hlt⟩, Or.inr ⟨x, hx, ho', rfl⟩⟩, hindexed.tracks.marked x hx⟩
  · have hgenesis : ((genesisLink fTestNet).txs.flatMap fun x => x.tx.claims) = [] :=
      List.flatMap_eq_nil_iff.mpr fun x hx => claims_genesis hx
    rw [activeChain, List.flatMap_append, hgenesis, List.append_nil]
    exact hvalid.nodup_claimed

/-! ## A chain with one block -/

/-- The surroundings of a node that finds every block in order, and does not read from disk. -/
def sampleEnv : Env where
  fTestNet := false
  getTotalBlocksEstimate := 0
  nBestHeight := 0
  nCoinbaseMaturity := 10
  nStakeMinAge := 28800
  getAdjustedTime := 1401331500
  checkProofOfWork _ := true
  buildMerkleTree _ := 0
  checkBlockSignature _ := true
  getLegacySigOpCount _ := 0
  getP2SHSigOpCount _ _ := .ok 0
  verifySignature _ _ _ _ := true
  getNextTargetRequired _ _ := 0
  isFinal _ _ _ := true
  checkHardened _ _ := true
  mempool _ := none
  readFromDisk _ := none
  readBlockTime _ _ := none
  ancestors pindex := [pindex, (genesisLink false).pindex]
  writesTxIndex _ _ := true
  writesBlockIndex _ := true
  writesProposal _ := true

/-- The coinbase of a first block, which makes the money that the first block may make. -/
def firstCoinBase : CTransaction :=
  { nTime := 1401331400, vin := [{ scriptSig := [0x51, 0x00] }]
    vout := [{ nValue := 120000 * COIN, scriptPubKey := [0x51] }] }

/-- A first block. -/
def firstBlock : CBlock := { nTime := 1401331400, vtx := [firstCoinBase] }

/-- The index of the first block. -/
def firstIndex : CBlockIndex := { nFile := 1, nBlockPos := 300, nHeight := 1, nTime := 1401331400 }

/-- What connecting the first block does. -/
def firstOutcome : ConnectOutcome TxDB :=
  connectBlock sampleHash (sampleEnv.node sampleHash) ∅ firstBlock firstIndex
    (some (genesisLink false).pindex) false {}

/-- The state with the first block. -/
def firstState : ChainState := { chain := [⟨firstBlock, firstOutcome.pindex⟩], db := firstOutcome.db }

lemma accepted_firstBlock : Accepted (indices false []) firstBlock firstIndex := by
  refine ⟨⟨sampleEnv, by decide +kernel⟩, ⟨_, rfl, by decide⟩, rfl, by decide⟩

lemma firstOutcome_result : firstOutcome.result = .ok true := by decide +kernel

lemma run_firstState : ChainRun sampleHash false {firstCoinBase} (fun _ _ => True) {} firstState :=
  .connect sampleEnv firstBlock firstIndex {} .start trivial accepted_firstBlock
    (by simp [firstBlock]) firstOutcome_result

/-- The first block can be disconnected. -/
theorem disconnectBlock_firstBlock : firstBlock.disconnectBlock sampleHash sampleEnv firstOutcome.db
    (some (tip false [])) = some ∅ :=
  ChainRun.disconnectBlock_connectBlock
    (Set.injOn_singleton (CTransaction.getHash sampleHash) firstCoinBase)
    (ChainRun.start : ChainRun sampleHash false {firstCoinBase} (fun _ _ => True) {} {}) ⟨fun _ _ => rfl, fun _ => rfl⟩ accepted_firstBlock
    (by simp [firstBlock]) firstOutcome_result

/-- Disconnecting the first block goes back to the genesis block. -/
theorem disconnectBlocks_firstState :
    disconnectBlocks sampleHash sampleEnv false [] firstState.chain firstState.db = some ∅ :=
  ChainRun.disconnectBlocks_eq (Set.injOn_singleton _ _) run_firstState
    (ChainRun.start : ChainRun sampleHash false {firstCoinBase} (fun _ _ => True) {} {})
    ⟨fun _ _ => rfl, fun _ => rfl⟩ (List.append_nil _).symm

/-- The outputs of the first block are not spent. -/
theorem spentOnce_firstState : SpentOnce sampleHash CTransaction.claims
    (activeChain false firstState.chain) firstState.db :=
  ChainRun.spentOnce (Set.injOn_singleton _ _) run_firstState

/-- The inputs of all coinbases are the same: they have the null outpoint. -/
theorem not_spentOnce_vin : ¬ ∀ (hash : Bytes → UInt256) (fTestNet : Bool)
    (known : Set CTransaction) (admits : Env → List Link → Prop) (began s : ChainState),
    Set.InjOn (CTransaction.getHash hash) known → ChainRun hash fTestNet known admits began s →
    SpentOnce hash (fun tx => tx.vin.map CTxIn.claim) (activeChain fTestNet s.chain) s.db := by
  intro hspent
  have hnodup := (hspent _ _ _ _ _ _ (Set.injOn_singleton _ _) run_firstState).nodup
  exact absurd hnodup (by decide +kernel)

end HyperStake

