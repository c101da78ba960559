import HyperStake.Chain.Leftover
import HyperStake.Wallet.Untouched

/-!
# Wallets and a change of the best chain that fails

`SetBestChain` with the wallets that are registered.  A block that has been disconnected or connected
is told to them at once, and the abort of the database transaction does not take that back.  A wallet
shows the same after a call that returns false exactly if it is not touched by the blocks that were
disconnected and connected before the failure (`view_eq_iff_setBestChain`).
-/

namespace HyperStake

open LinkWalk WorkQueue ExceptLoop WalletTx

/-- What `SetBestChain` works on, with the wallets that are registered. -/
abbrev Watched := BestChain × List WalletTx.CWallet

section Watched

variable (hash hash9 : Bytes → UInt256) (node : ChainNode)

/-- The block of an index that a turn of `Reorganize` reads. -/
def ChainNode.blockAt (s : BestChain) (h : UInt256) : CBlock :=
  ((s.tree.find h).bind (node.readFromDisk hash9)).getD {}

/-- Tell the wallets of a block. -/
def tellBlock (fConnect : Bool) (wallets : List WalletTx.CWallet) (block : CBlock) :
    Except Exit (List WalletTx.CWallet) :=
  Exit.lift (syncBlock hash hash9 fConnect wallets block)

/-- A turn of the loop of `Reorganize` that disconnects blocks, with the wallets. -/
def disconnectTurnSync (s : BestChain) : (TxDB × List CTransaction) × List WalletTx.CWallet → UInt256 →
    ((TxDB × List CTransaction) × List WalletTx.CWallet) × Option Exit :=
  watch (ofExcept (disconnectTurn hash hash9 node s)) (fun _ => node.blockAt hash9 s)
    (tellBlock hash hash9 false)

/-- A turn of the loop of `Reorganize` that connects blocks, with the wallets. -/
def connectTurnSync : (BestChain × List CTransaction) × List WalletTx.CWallet → UInt256 →
    ((BestChain × List CTransaction) × List WalletTx.CWallet) × Option Exit :=
  watch (connectTurn hash hash9 node) (fun t => node.blockAt hash9 t.1) (tellBlock hash hash9 true)

/-- `Reorganize` up to the commit, with the wallets. -/
def switchBranchSync (pindexNew : UInt256) (s : BestChain) (wallets : List WalletTx.CWallet) :
    Watched × Except Exit Switch :=
  match findFork (s.tree.past s.pindexBest) (s.tree.past pindexNew) with
  | none => ((s, wallets), .error .returnFalse)
  | some pfork =>
    let vDisconnect := s.tree.above pfork s.pindexBest
    let vConnect := (s.tree.above pfork pindexNew).reverse
    match foldThrow (disconnectTurnSync hash hash9 node s) vDisconnect
        ((s.db.txs, []), wallets) with
    | ((_, wallets), some exit) => ((s, wallets), .error exit)
    | (((txs, vResurrect), wallets), none) =>
      match foldThrow (connectTurnSync hash hash9 node) vConnect
          (({ s with db := { s.db with txs } }, []), wallets) with
      | (((s, _), wallets), some exit) => ((s, wallets), .error exit)
      | (((s, vDelete), wallets), none) =>
        if !node.writesHashBestChain pindexNew || !node.txnCommit pindexNew then
          ((s, wallets), .error .returnFalse)
        else
          (({ s with db := { s.db with hashBestChain := pindexNew } }, wallets),
            .ok ⟨vDisconnect, vConnect, vResurrect, vDelete⟩)

/-- `CBlock::SetBestChainInner`, with the wallets: `ConnectBlock` tells them of the block that it has
connected. -/
def setBestChainInnerSync (pindexNew : UInt256) (block : CBlock) (s : BestChain)
    (wallets : List WalletTx.CWallet) : Watched × Except Fault Bool :=
  match s.tree.find pindexNew with
  | none => ((s, wallets), .error .undefined)
  | some pindex =>
    match connectIndex hash node pindexNew pindex block s with
    | (s', .error e) => (({ s' with db := s.db }, wallets), .error e)
    | (s', .ok false) => (({ s' with db := s.db }, wallets), .ok false)
    | (s', .ok true) =>
      match syncBlock hash hash9 true wallets block with
      | .error e => (({ s' with db := s.db }, wallets), .error e)
      | .ok wallets =>
        if !node.writesHashBestChain pindexNew || !node.txnCommit pindexNew then
          (({ s' with db := s.db }, wallets), .ok false)
        else
          let s' := { s' with db := { s'.db with hashBestChain := pindexNew } }
          match s'.tree.find pindex.pprev with
          | none => ((s', wallets), .error .undefined)
          | some _ =>
            (({ s' with
                tree := s'.tree.setNext pindex.pprev pindexNew
                pool := removeAll hash block.vtx s'.pool }, wallets),
              .ok true)

/-- The loop of `SetBestChain` that connects the postponed blocks, with the wallets. -/
def connectPostponedSync : List UInt256 → BestChain → List WalletTx.CWallet → Watched × Option Fault
  | [], s, wallets => ((s, wallets), none)
  | h :: postponed, s, wallets =>
    match s.tree.find h with
    | none => ((s, wallets), some .undefined)
    | some pindex =>
      match node.readFromDisk hash9 pindex with
      | none => ((s, wallets), none)
      | some block =>
        if !node.txnBegin2 h then ((s, wallets), none)
        else
          match setBestChainInnerSync hash hash9 node h block s wallets with
          | ((s, wallets), .ok true) => connectPostponedSync postponed s wallets
          | (t, .ok false) => (t, none)
          | (t, .error e) => (t, some e)

/-- The branch of `SetBestChain` for a block that does not extend the best chain, with the wallets. -/
def changeBranchSync (pindexNew : UInt256) (s : BestChain) (wallets : List WalletTx.CWallet) :
    Watched × Except Fault Bool :=
  match s.tree.find s.pindexBest with
  | none => ((s, wallets), .error .undefined)
  | some _ =>
    let (vpindexSecondary, pindexIntermediate) :=
      postpone node.bnChainTrust s.pindexBest (s.tree.path pindexNew)
    match switchBranchSync hash hash9 node pindexIntermediate s wallets with
    | ((s', wallets), .error exit) => (({ s' with db := s.db }, wallets), exit.result)
    | ((s', wallets), .ok switch) =>
      match finishSwitch hash node switch s' with
      | (s', some e) => ((s', wallets), .error e)
      | (s', none) =>
        match connectPostponedSync hash hash9 node vpindexSecondary.reverse s' wallets with
        | (t, some e) => (t, .error e)
        | (t, none) => (t, .ok true)

/-- The branches of `SetBestChain`, with the wallets. -/
def moveBestSync (block : CBlock) (s : BestChain) (wallets : List WalletTx.CWallet) :
    Watched × Except Fault Bool :=
  let h := block.getHash hash9
  if s.pindexGenesisBlock = 0 ∧ h = node.hashGenesisBlock then
    (((setGenesis node h s).1, wallets), (setGenesis node h s).2)
  else if block.hashPrevBlock = s.hashBestChain then
    setBestChainInnerSync hash hash9 node h block s wallets
  else changeBranchSync hash hash9 node h s wallets

/-- `CBlock::SetBestChain`, with the wallets that are registered. -/
def setBestChainSync (block : CBlock) (s : BestChain) (wallets : List WalletTx.CWallet) :
    Watched × Except Fault Bool :=
  if !node.txnBegin then ((s, wallets), .ok false)
  else
    match moveBestSync hash hash9 node block s wallets with
    | ((s, wallets), .ok true) =>
      let h := block.getHash hash9
      match s.tree.find h with
      | none => ((s, wallets), .error .undefined)
      | some pindexNew =>
        (({ s with
            hashBestChain := h, pindexBest := h
            nBestHeight := pindexNew.nHeight, bnBestChainTrust := node.bnChainTrust h }, wallets),
          .ok true)
    | (t, result) => (t, result)

/-! ## The blocks that the wallets are told of -/

/-- The blocks that `Reorganize` disconnects. -/
def undoneBlocks (pindexNew : UInt256) (s : BestChain) : List CBlock :=
  match findFork (s.tree.past s.pindexBest) (s.tree.past pindexNew) with
  | none => []
  | some pfork => seen (ofExcept (disconnectTurn hash hash9 node s))
      (fun _ => node.blockAt hash9 s) (s.tree.above pfork s.pindexBest) (s.db.txs, [])

/-- The blocks that `Reorganize` connects. -/
def joinedBlocks (pindexNew : UInt256) (s : BestChain) : List CBlock :=
  match findFork (s.tree.past s.pindexBest) (s.tree.past pindexNew) with
  | none => []
  | some pfork =>
    match foldThrow (ofExcept (disconnectTurn hash hash9 node s))
        (s.tree.above pfork s.pindexBest) (s.db.txs, []) with
    | (_, some _) => []
    | ((txs, _), none) => seen (connectTurn hash hash9 node) (fun t => node.blockAt hash9 t.1)
        (s.tree.above pfork pindexNew).reverse ({ s with db := { s.db with txs } }, [])

/-- `ConnectBlock` connects a block. -/
def connects (h : UInt256) (block : CBlock) (s : BestChain) : Bool :=
  match s.tree.find h with
  | none => false
  | some pindex =>
    match (connectIndex hash node h pindex block s).2 with
    | .ok fConnected => fConnected
    | .error _ => false

/-- The block to which `SetBestChain` switches first. -/
def intermediateOf (block : CBlock) (s : BestChain) : UInt256 :=
  (postpone node.bnChainTrust s.pindexBest (s.tree.path (block.getHash hash9))).2

/-- The blocks that a call of `SetBestChain` disconnects in the transaction that it begins with, and
those that it connects there. -/
def blocksTold (block : CBlock) (s : BestChain) : List CBlock × List CBlock :=
  let h := block.getHash hash9
  if !node.txnBegin || decide (s.pindexGenesisBlock = 0 ∧ h = node.hashGenesisBlock) then ([], [])
  else if block.hashPrevBlock = s.hashBestChain then
    ([], if connects hash node h block s then [block] else [])
  else (undoneBlocks hash hash9 node (intermediateOf hash9 node block s) s,
    joinedBlocks hash hash9 node (intermediateOf hash9 node block s) s)

end Watched

/-- The transactions of some blocks. -/
def txsOf (blocks : List CBlock) : List CTransaction := blocks.flatMap CBlock.vtx

/-- The transactions of some blocks, each with its block. -/
def itemsOf (blocks : List CBlock) : List (CTransaction × CBlock) :=
  blocks.flatMap fun block => block.vtx.map fun tx => (tx, block)

variable {hash hash9 : Bytes → UInt256} {node : ChainNode} {wallets wallets' : List WalletTx.CWallet}

/-! ## The chain does not look at the wallets -/

variable {fConnect : Bool} {block : CBlock} {s s' : BestChain}

lemma tellBlock_eq_error {exit : Exit}
    (htell : tellBlock hash hash9 fConnect wallets block = .error exit) :
    ∃ e, exit = .throws e := by
  unfold tellBlock at htell
  cases hsync : syncBlock hash hash9 fConnect wallets block with
  | error e =>
    rw [hsync] at htell
    cases htell
    exact ⟨e, rfl⟩
  | ok wallets =>
    rw [hsync] at htell
    cases htell

/-- A loop of `Reorganize` with the wallets that throws nothing does what the loop does without them,
and tells the wallets of the blocks that its turns see. -/
lemma foldThrow_tell {σ : Type} {turn : σ → UInt256 → σ × Option Exit}
    {see : σ → UInt256 → CBlock} {items : List UInt256} {s s' : σ} {o : Option Exit}
    (hloop : foldThrow (watch turn see (tellBlock hash hash9 fConnect)) items (s, wallets) =
      ((s', wallets'), o)) (hnot : ∀ e, o ≠ some (.throws e)) :
    foldThrow turn items s = (s', o) ∧
      (seen turn see items s).foldlM (tellBlock hash hash9 fConnect) wallets = .ok wallets' := by
  refine foldThrow_watch hloop fun wallets block exit htell heq => ?_
  obtain ⟨e, rfl⟩ := tellBlock_eq_error htell
  exact hnot e heq

/-! ## Each wallet for itself -/

/-- The wallets are told of a block one by one. -/
lemma forall₂_syncBlock (hsync : syncBlock hash hash9 fConnect wallets block = .ok wallets') :
    List.Forall₂ (fun wallet wallet' =>
      block.vtx.foldlM (WalletTx.CWallet.sync hash hash9 block fConnect) wallet = .ok wallet')
      wallets wallets' :=
  forall₂_foldlM (fun _ _ _ hturn => mapM_eq_ok.mp hturn) hsync

/-- What every wallet is when all of them have been told of blocks that were disconnected and of
blocks that were connected. -/
lemma forall₂_blocks {undone joined : List CBlock} {wallets₁ : List WalletTx.CWallet}
    (hundo : undone.foldlM (tellBlock hash hash9 false) wallets = .ok wallets₁)
    (hjoin : joined.foldlM (tellBlock hash hash9 true) wallets₁ = .ok wallets') :
    List.Forall₂ (fun wallet wallet' => ((wallet.undoAll (txsOf undone)).bind
      (WalletTx.CWallet.joinAll hash hash9 · (itemsOf joined))) = .ok wallet') wallets wallets' := by
  have htell : ∀ (fConnect : Bool) wallets block wallets',
      tellBlock hash hash9 fConnect wallets block = .ok wallets' →
      syncBlock hash hash9 fConnect wallets block = .ok wallets' := by
    intro fConnect wallets block wallets' htold
    unfold tellBlock at htold
    cases hsync : syncBlock hash hash9 fConnect wallets block with
    | error e =>
      rw [hsync] at htold
      cases htold
    | ok wallets =>
      rw [hsync] at htold
      cases htold
      rfl
  have htold : ∀ {fConnect : Bool} {blocks : List CBlock} {wallets wallets' : List WalletTx.CWallet},
      blocks.foldlM (tellBlock hash hash9 fConnect) wallets = .ok wallets' →
      List.Forall₂ (fun wallet wallet' => blocks.foldlM (fun wallet block =>
        block.vtx.foldlM (WalletTx.CWallet.sync hash hash9 block fConnect) wallet) wallet = .ok wallet')
        wallets wallets' := by
    intro fConnect blocks wallets wallets' hall
    exact forall₂_foldlM (fun wallets block wallets' htold =>
      forall₂_syncBlock (htell fConnect wallets block wallets' htold)) hall
  refine forall₂_trans (fun wallet wallet₁ wallet' hundone hjoined => ?_) (htold hundo) (htold hjoin)
  refine bind_eq_ok.mpr ⟨wallet₁, ?_, ?_⟩
  · rw [WalletTx.CWallet.undoAll, txsOf, foldlM_flatMap]
    exact hundone
  · rw [WalletTx.CWallet.joinAll, itemsOf, foldlM_flatMap]
    simp only [List.foldlM_map]
    exact hjoined

/-! ## A call that returns false -/

/-- What the wallets are when `Reorganize` returns false. -/
lemma switchBranchSync_returnFalse {pindexNew : UInt256}
    (hswitch : switchBranchSync hash hash9 node pindexNew s wallets =
      ((s', wallets'), .error .returnFalse)) :
    ∃ wallets₁,
      (undoneBlocks hash hash9 node pindexNew s).foldlM (tellBlock hash hash9 false) wallets =
        .ok wallets₁ ∧
      (joinedBlocks hash hash9 node pindexNew s).foldlM (tellBlock hash hash9 true) wallets₁ =
        .ok wallets' := by
  unfold switchBranchSync at hswitch
  unfold undoneBlocks joinedBlocks
  cases hfork : findFork (s.tree.past s.pindexBest) (s.tree.past pindexNew) with
  | none =>
    rw [hfork] at hswitch
    cases hswitch
    exact ⟨wallets, rfl, rfl⟩
  | some pfork =>
    simp only [hfork] at hswitch ⊢
    rcases hundo : foldThrow (disconnectTurnSync hash hash9 node s)
      (s.tree.above pfork s.pindexBest) ((s.db.txs, []), wallets) with
      ⟨⟨⟨txs, vResurrect⟩, wallets₁⟩, _ | exit⟩
    · simp only [hundo] at hswitch
      obtain ⟨hloop, htold⟩ := foldThrow_tell hundo nofun
      refine ⟨wallets₁, htold, ?_⟩
      simp only [hloop]
      rcases hjoin : foldThrow (connectTurnSync hash hash9 node)
        (s.tree.above pfork pindexNew).reverse
        (({ s with db := { s.db with txs } }, []), wallets₁) with
        ⟨⟨⟨s₂, vDelete⟩, wallets₂⟩, _ | exit⟩
      · simp only [hjoin] at hswitch
        split_ifs at hswitch
        · cases hswitch
          exact (foldThrow_tell hjoin nofun).2
        · cases hswitch
      · simp only [hjoin] at hswitch
        cases hswitch
        exact (foldThrow_tell hjoin nofun).2
    · simp only [hundo] at hswitch
      cases hswitch
      obtain ⟨hloop, htold⟩ := foldThrow_tell hundo nofun
      refine ⟨wallets', htold, ?_⟩
      simp only [hloop]
      rfl

/-- What the wallets are when a block that extends the best chain is refused. -/
lemma setBestChainInnerSync_false {h : UInt256}
    (hinner : setBestChainInnerSync hash hash9 node h block s wallets =
      ((s', wallets'), .ok false)) :
    (if connects hash node h block s then [block] else []).foldlM (tellBlock hash hash9 true)
      wallets = .ok wallets' := by
  unfold setBestChainInnerSync at hinner
  cases hfound : s.tree.find h with
  | none =>
    rw [hfound] at hinner
    cases hinner
  | some pindex =>
    simp only [hfound] at hinner
    rcases hconnect : connectIndex hash node h pindex block s with ⟨s₁, e | _ | _⟩
    · simp only [hconnect] at hinner
      cases hinner
    · have hconnects : connects hash node h block s = false := by
        simp only [connects, hfound, hconnect]
      simp only [hconnect] at hinner
      cases hinner
      rw [hconnects]
      rfl
    · have hconnects : connects hash node h block s = true := by
        simp only [connects, hfound, hconnect]
      simp only [hconnect] at hinner
      rw [hconnects, if_pos rfl, List.foldlM_cons, tellBlock]
      cases hsync : syncBlock hash hash9 true wallets block with
      | error e =>
        rw [hsync] at hinner
        cases hinner
      | ok wallets₁ =>
        rw [hsync] at hinner
        dsimp only at hinner
        split_ifs at hinner
        · cases hinner
          rfl
        · cases hnext : s₁.tree.find pindex.pprev with
          | none =>
            simp only [hnext] at hinner
            cases hinner
          | some _ =>
            simp only [hnext] at hinner
            cases hinner

/-- What the wallets are when `SetBestChain` returns false. -/
lemma setBestChainSync_false
    (hcall : setBestChainSync hash hash9 node block s wallets = ((s', wallets'), .ok false)) :
    ∃ wallets₁,
      (blocksTold hash hash9 node block s).1.foldlM (tellBlock hash hash9 false) wallets =
        .ok wallets₁ ∧
      (blocksTold hash hash9 node block s).2.foldlM (tellBlock hash hash9 true) wallets₁ =
        .ok wallets' := by
  unfold setBestChainSync at hcall
  unfold blocksTold
  cases hbegin : node.txnBegin with
  | false =>
    rw [hbegin] at hcall
    cases hcall
    exact ⟨wallets, rfl, rfl⟩
  | true =>
    rw [hbegin, Bool.not_true, if_neg Bool.false_ne_true] at hcall
    have hmove : moveBestSync hash hash9 node block s wallets = ((s', wallets'), .ok false) := by
      rcases hmove : moveBestSync hash hash9 node block s wallets with ⟨⟨s₁, wallets₁⟩, e | _ | _⟩
      · rw [hmove] at hcall
        cases hcall
      · rw [hmove] at hcall
        cases hcall
        rfl
      · simp only [hmove] at hcall
        cases hfound : s₁.tree.find (block.getHash hash9) with
        | none =>
          simp only [hfound] at hcall
          cases hcall
        | some _ =>
          simp only [hfound] at hcall
          cases hcall
    unfold moveBestSync at hmove
    dsimp only at hmove ⊢
    rw [Bool.not_true, Bool.false_or]
    by_cases hgenesis : s.pindexGenesisBlock = 0 ∧ block.getHash hash9 = node.hashGenesisBlock
    · rw [if_pos hgenesis] at hmove
      rw [if_pos (decide_eq_true hgenesis)]
      have hsame : wallets = wallets' :=
        congrArg (fun t : Watched × Except Fault Bool => t.1.2) hmove
      exact ⟨wallets, rfl, congrArg Except.ok hsame⟩
    · rw [if_neg hgenesis] at hmove
      rw [if_neg (by simpa using hgenesis)]
      by_cases hnext : block.hashPrevBlock = s.hashBestChain
      · rw [if_pos hnext] at hmove ⊢
        exact ⟨wallets, rfl, setBestChainInnerSync_false hmove⟩
      · rw [if_neg hnext] at hmove ⊢
        unfold changeBranchSync at hmove
        cases hbest : s.tree.find s.pindexBest with
        | none =>
          rw [hbest] at hmove
          cases hmove
        | some _ =>
          simp only [hbest] at hmove
          rcases hswitch : switchBranchSync hash hash9 node (intermediateOf hash9 node block s) s
            wallets with ⟨⟨s₁, wallets₁⟩, exit | switch⟩
          · rw [intermediateOf] at hswitch
            simp only [hswitch] at hmove
            cases exit with
            | returnFalse =>
              cases hmove
              exact switchBranchSync_returnFalse hswitch
            | throws e => cases hmove
          · rw [intermediateOf] at hswitch
            simp only [hswitch] at hmove
            rcases hfinish : finishSwitch hash node switch s₁ with ⟨s₂, _ | e⟩
            · simp only [hfinish] at hmove
              rcases hlater : connectPostponedSync hash hash9 node
                (postpone node.bnChainTrust s.pindexBest
                  (s.tree.path (block.getHash hash9))).1.reverse s₂ wallets₁ with ⟨t, _ | e⟩
              · simp only [hlater] at hmove
                cases hmove
              · simp only [hlater] at hmove
                cases hmove
            · simp only [hfinish] at hmove
              cases hmove

/-- When `SetBestChain` returns false, every wallet shows what it did before exactly if it is not
touched by the blocks that were disconnected and connected before the failure. -/
theorem view_eq_iff_setBestChain (hash hash9 : Bytes → UInt256) (node : ChainNode) (block : CBlock)
    (s s' : BestChain) (wallets wallets' : List WalletTx.CWallet)
    (hcall : setBestChainSync hash hash9 node block s wallets = ((s', wallets'), .ok false)) :
    List.Forall₂ (fun wallet wallet' => wallet'.view = wallet.view) wallets wallets' ↔
      ∀ wallet ∈ wallets, WalletTx.CWallet.Untouched hash hash9 wallet
        (txsOf (blocksTold hash hash9 node block s).1)
        (itemsOf (blocksTold hash hash9 node block s).2) := by
  obtain ⟨wallets₁, hundo, hjoin⟩ := setBestChainSync_false hcall
  have hiff := (forall₂_blocks hundo hjoin).imp fun wallet wallet' hrun =>
    WalletTx.CWallet.view_eq_iff_untouched hrun
  constructor
  · intro hsame
    have hboth := List.Forall₂.mp (fun _ _ hview hiff => And.intro (hiff.mp hview) hview) hsame hiff
    exact ((List.forall₂_and_left _ _).mp hboth).1
  · intro huntouched
    have hboth := (List.forall₂_and_left _ _).mpr ⟨huntouched, hiff⟩
    exact hboth.imp fun _ _ h => h.2.mpr h.1

/-! ## A coin stake that is disconnected -/

/-- A transaction whose output the wallet stakes. -/
def refundedTx : CTransaction :=
  { testCoinBase 1424304820 1 with vout := [{ nValue := 10 * COIN, scriptPubKey := [0x51] }] }

/-- The coin stake of the wallet. -/
def ownCoinStake : CTransaction :=
  testCoinStake 1424304835 { hash := refundedTx.getHash sampleHash, n := 0 }

/-- The best block, with the coin stake of the wallet. -/
def ownStakeBlock : CBlock :=
  { testWorkBlock 1 4 1424304835 1 with vtx := [testCoinBase 1424304835 1, ownCoinStake] }

/-- A node that reads the greedy branch and the block with the coin stake. -/
def stakingNode : ChainNode :=
  { greedyNode with
    bnChainTrust := fun h => if h = 4 then 2 else h.toNat
    readBlock := fun nFile nBlockPos =>
      if nBlockPos = 900 then some ownStakeBlock else greedyNode.readBlock nFile nBlockPos }

/-- The block with the coin stake is the best one. -/
def stakingState : BestChain :=
  { greedyState with
    tree := greedyTree.insertIndex 4
      { phashBlock := 4, pprev := 1, nFile := 1, nBlockPos := 900, nHeight := 1 }
    pindexBest := 4, hashBestChain := 4, nBestHeight := 1
    db.txs := (∅ : TxDB).insert (refundedTx.getHash sampleHash)
      { pos := ⟨1, 8, 90⟩, vSpent := [⟨1, 900, 200⟩] } }

/-- The wallet with the output that is staked, which is marked as spent, and with the coin stake. -/
def stakingWallet : WalletTx.CWallet where
  mapWallet := ((∅ : Std.ExtTreeMap UInt256 WalletTx.CWalletTx).insert (refundedTx.getHash sampleHash)
    { toCTransaction := refundedTx, vfSpent := [true] }).insert (ownCoinStake.getHash sampleHash)
    { toCTransaction := ownCoinStake }
  isMine txout := txout.scriptPubKey == [0x51]
  blocksToMaturity _ := 0
  adjustedTime _ := 0
  timeSmart _ := 0
  writeToDisk _ := true

/-- Switching to the greedy block fails, after the block with the coin stake has been disconnected. -/
lemma stakingCall_result :
    (match (setBestChainSync sampleHash nonceHash stakingNode greedyBlock stakingState
        [stakingWallet]).2 with
      | .ok fResult => some fResult
      | .error _ => none) = some false := by decide +kernel

lemma stakingCall_eq : setBestChainSync sampleHash nonceHash stakingNode greedyBlock stakingState
    [stakingWallet] =
      (((setBestChainSync sampleHash nonceHash stakingNode greedyBlock stakingState
          [stakingWallet]).1.1,
        (setBestChainSync sampleHash nonceHash stakingNode greedyBlock stakingState
          [stakingWallet]).1.2), .ok false) := by
  have hresult := stakingCall_result
  generalize setBestChainSync sampleHash nonceHash stakingNode greedyBlock stakingState
    [stakingWallet] = call at hresult ⊢
  obtain ⟨⟨s', wallets'⟩, e | fResult⟩ := call
  · cases hresult
  · cases hresult
    rfl

/-- The wallet is touched by the block with its coin stake. -/
theorem view_eq_iff_stakingWallet :
    List.Forall₂ (fun wallet wallet' => wallet'.view = wallet.view) [stakingWallet]
        (setBestChainSync sampleHash nonceHash stakingNode greedyBlock stakingState
          [stakingWallet]).1.2 ↔
      ∀ wallet ∈ [stakingWallet], WalletTx.CWallet.Untouched sampleHash nonceHash wallet
        (txsOf (blocksTold sampleHash nonceHash stakingNode greedyBlock stakingState).1)
        (itemsOf (blocksTold sampleHash nonceHash stakingNode greedyBlock stakingState).2) :=
  view_eq_iff_setBestChain sampleHash nonceHash stakingNode greedyBlock stakingState _
    [stakingWallet] _ stakingCall_eq

/-- An aborted `Reorganize` leaves the output that the best block stakes marked as unspent. -/
theorem not_view_eq_setBestChain : ¬ ∀ (hash hash9 : Bytes → UInt256) (node : ChainNode)
    (block : CBlock) (s s' : BestChain) (wallets wallets' : List WalletTx.CWallet),
    AbortsReorganize hash hash9 node block s (intermediateOf hash9 node block s) →
    setBestChainSync hash hash9 node block s wallets = ((s', wallets'), .ok false) →
    List.Forall₂ (fun wallet wallet' => wallet'.view = wallet.view) wallets wallets' := by
  intro hall
  have hfails : (match (switchBranch sampleHash nonceHash stakingNode
        (intermediateOf nonceHash stakingNode greedyBlock stakingState) stakingState).2 with
      | .error exit => some exit
      | .ok _ => none) = some .returnFalse := by decide +kernel
  have haborts : AbortsReorganize sampleHash nonceHash stakingNode greedyBlock stakingState
      (intermediateOf nonceHash stakingNode greedyBlock stakingState) := by
    refine ⟨rfl, by decide +kernel, by decide, by decide +kernel, rfl, .returnFalse, ?_⟩
    generalize (switchBranch sampleHash nonceHash stakingNode
      (intermediateOf nonceHash stakingNode greedyBlock stakingState) stakingState).2 = result
      at hfails ⊢
    cases result with
    | error exit => exact congrArg Except.error (Option.some.inj hfails)
    | ok switch => cases hfails
  have hsame := hall sampleHash nonceHash stakingNode greedyBlock stakingState _ [stakingWallet] _
    haborts stakingCall_eq
  have hafter : ((setBestChainSync sampleHash nonceHash stakingNode greedyBlock stakingState
      [stakingWallet]).1.2.map fun wallet =>
        (wallet.view (refundedTx.getHash sampleHash)).map fun e => e.fSpent 0) = [some false] := by
    decide +kernel
  have hbefore : ((stakingWallet.view (refundedTx.getHash sampleHash)).map fun e => e.fSpent 0) =
      some true := by decide +kernel
  generalize (setBestChainSync sampleHash nonceHash stakingNode greedyBlock stakingState
    [stakingWallet]).1.2 = wallets' at hsame hafter
  cases hsame with
  | cons hview _ =>
    rw [List.map_cons, hview, hbefore] at hafter
    cases hafter

end HyperStake
