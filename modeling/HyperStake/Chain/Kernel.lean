import Mathlib.Data.List.Chain
import HyperStake.Chain.ActiveChain
import HyperStake.Chain.ProcessBlock

/-!
# The kernel of a stake

`CheckProofOfStake` checks a coin stake: the hash of its kernel, which contains a stake modifier,
has to be below a target that grows with the staked value and its age.  The modifier is the first
new one that is a selection interval later than the block that the staked output is from.
`GetKernelStakeModifier` finds it along the `pnext` pointers, which lead along the active chain.

So the modifier is one of the active chain.  Two active chains give the same modifier, and the same
verdict on a coin stake, if both contain the block at which the search on one of them stops
(`sameVerdict_of_activeChains`); a block on another branch can get another
one (`not_sameVerdict_fork`).
-/

namespace HyperStake

open LinkWalk

/-- `nStakeMaxAge`: the age from which a stake has its full weight. -/
def nStakeMaxAge (fTestNet : Bool) : UInt32 := if fTestNet then 60 * 60 * 24 else 60 * 60 * 24 * 30

/-- `CBigNum::SetCompact`: the number with 24 bits of precision that a target is written as. -/
def setCompact (nCompact : UInt32) : ℤ :=
  let nSize := nCompact >>> 24
  let fNegative := nCompact &&& 0x00800000 != 0
  let nWord := (nCompact &&& 0x007fffff).toNat
  let bn : ℕ := if nSize ≤ 3 then nWord >>> (8 * (3 - nSize.toNat))
    else nWord <<< (8 * (nSize.toNat - 3))
  if fNegative then -bn else bn

/-! ## The modifier of a kernel -/

/-- A modifier for kernels, with the height and the time of the block that it is from. -/
structure KernelModifier where
  nStakeModifier : UInt64
  nStakeModifierHeight : Int32
  nStakeModifierTime : Int64
  deriving DecidableEq

/-- The loop of `GetKernelStakeModifier` from an index on, over the indices that follow it: the
index at which it stops, and the height and the time of the last new modifier, or none if it reaches
the best block. -/
def kernelModifierLoop (nTimeStop : Int64) (pindex : CBlockIndex) (nStakeModifierHeight : Int32)
    (nStakeModifierTime : Int64) (following : List CBlockIndex) :
    Option (CBlockIndex × Int32 × Int64) :=
  if nStakeModifierTime < nTimeStop then
    match following with
    -- reached best block; may happen if the node is behind on the block chain
    | [] => none
    | pnext :: following =>
      if pnext.generatedStakeModifier then
        kernelModifierLoop nTimeStop pnext pnext.nHeight pnext.getBlockTime following
      else kernelModifierLoop nTimeStop pnext nStakeModifierHeight nStakeModifierTime following
  else some (pindex, nStakeModifierHeight, nStakeModifierTime)

namespace BlockTree

/-- The index that a pointer leads to, and the indices that the `pnext` pointers lead to from it. -/
def following (tree : BlockTree) (h : UInt256) : List CBlockIndex :=
  walk tree.find CBlockIndex.pnext tree.mapBlockIndex.keys.length h

/-- The search of `GetKernelStakeModifier` for the output of a block. -/
def kernelSearch (fTestNet : Bool) (tree : BlockTree) (hashBlockFrom : UInt256) :
    Option (CBlockIndex × Int32 × Int64) :=
  (tree.find hashBlockFrom).bind fun pindexFrom =>
    kernelModifierLoop
      (pindexFrom.getBlockTime + getStakeModifierSelectionInterval fTestNet) pindexFrom
      pindexFrom.nHeight pindexFrom.getBlockTime (tree.following pindexFrom.pnext)

/-- `GetKernelStakeModifier`, or none if it fails. -/
def getKernelStakeModifier (fTestNet : Bool) (tree : BlockTree) (hashBlockFrom : UInt256) :
    Option KernelModifier :=
  (tree.kernelSearch fTestNet hashBlockFrom).map fun found =>
    { nStakeModifier := found.1.nStakeModifier, nStakeModifierHeight := found.2.1
      nStakeModifierTime := found.2.2 }

end BlockTree

/-! ## The hash of a kernel -/

/-- `stakeHash`, of a stream that contains a modifier. -/
def stakeHash (hash : Bytes → UInt256) (nTimeTx nTxPrevTime : UInt32) (ss : Bytes)
    (prevoutIndex nTxPrevOffset nTimeBlockFrom : UInt32) : UInt256 :=
  hash (ss ++ serializeUInt32 nTimeBlockFrom ++ serializeUInt32 nTxPrevOffset ++
    serializeUInt32 nTxPrevTime ++ serializeUInt32 prevoutIndex ++ serializeUInt32 nTimeTx)

/-- `stakeTargetHit`: whether the hash is below the target, and the weight of the stake. -/
def stakeTargetHit (env : Env) (hashProofOfStake : UInt256) (nAge : UInt32) (nValueIn : Int64)
    (bnTargetPerCoinDay : ℤ) : Bool × ℤ :=
  let nTimeWeight :=
    min (timeOf nAge) (timeOf (nStakeMaxAge env.fTestNet)) - timeOf env.nStakeMinAge
  let bnCoinWeight := ((nValueIn.toInt * nTimeWeight.toInt).tdiv COIN.toInt).tdiv (24 * 60 * 60)
  (decide ((hashProofOfStake.toNat : ℤ) < bnCoinWeight * bnTargetPerCoinDay), bnCoinWeight)

/-- What `CheckStakeKernelHash` changes: the time of the coin stake, the hash of the kernel and the
weight of the stake. -/
structure KernelTry where
  nTimeTx : UInt32
  hashProofOfStake : UInt256 := 0
  bnCoinWeight : ℤ := 0

/-- What is hashed in a kernel besides the time of the coin stake, and the target. -/
structure Kernel where
  nStakeModifier : UInt64
  nTimeBlockFrom : UInt32
  nTxPrevOffset : UInt32
  nTxPrevTime : UInt32
  prevoutIndex : UInt32
  nValueIn : Int64
  bnTargetPerCoinDay : ℤ

/-- The hash of a kernel at a time against its target, for a coin stake with another time. -/
def Kernel.tryTime (hash : Bytes → UInt256) (env : Env) (kernel : Kernel) (nTryTime : UInt32)
    (nTimeTx : UInt32) : Bool × UInt256 × ℤ :=
  let hashProofOfStake := stakeHash hash nTryTime kernel.nTxPrevTime
    (serializeUInt64 kernel.nStakeModifier) kernel.prevoutIndex kernel.nTxPrevOffset
    kernel.nTimeBlockFrom
  let (fHit, bnCoinWeight) := stakeTargetHit env hashProofOfStake (nTimeTx - kernel.nTxPrevTime)
    kernel.nValueIn kernel.bnTargetPerCoinDay
  (fHit, hashProofOfStake, bnCoinWeight)

/-- A turn of the search of `CheckStakeKernelHash` for a time, with whether one has been found.  The
search goes on when it has found a time, from that time. -/
def Kernel.searchTurn (hash : Bytes → UInt256) (env : Env) (kernel : Kernel) (nHashDrift : UInt32)
    (s : Bool × KernelTry) (i : ℕ) : Bool × KernelTry :=
  let nTryTime := s.2.nTimeTx + nHashDrift - UInt32.ofNat i
  let (fHit, hashProofOfStake, bnCoinWeight) := kernel.tryTime hash env nTryTime s.2.nTimeTx
  if fHit then (true, { nTimeTx := nTryTime, hashProofOfStake, bnCoinWeight })
  else (s.1, { s.2 with hashProofOfStake, bnCoinWeight })

/-- `CheckStakeKernelHash`: whether the kernel meets its target, at the time of the coin stake or,
if it does not only check it, at one of the times that are searched.  The times at which the wallet
has last hashed are left out. -/
def checkStakeKernelHash (hash hash9 : Bytes → UInt256) (env : Env) (tree : BlockTree)
    (nBits : UInt32) (blockFrom : CBlock) (nTxPrevOffset : UInt32) (txPrev : CTransaction)
    (prevout : COutPoint) (nHashDrift : UInt32) (fCheck : Bool) (r : KernelTry) :
    Except Fault (Bool × KernelTry) :=
  match txPrev.vout[prevout.n.toNat]? with
  | none => .error .undefined
  | some txout =>
    -- transaction timestamp violation
    if r.nTimeTx < txPrev.nTime then .ok (false, r)
    -- min age requirement
    else if blockFrom.nTime + env.nStakeMinAge > r.nTimeTx then .ok (false, r)
    else
      match tree.getKernelStakeModifier env.fTestNet (blockFrom.getHash hash9) with
      | none => .ok (false, r)
      | some modifier =>
        let kernel : Kernel :=
          { nStakeModifier := modifier.nStakeModifier, nTimeBlockFrom := blockFrom.nTime
            nTxPrevOffset, nTxPrevTime := txPrev.nTime, prevoutIndex := prevout.n
            nValueIn := txout.nValue, bnTargetPerCoinDay := setCompact nBits }
        if fCheck then
          let (fHit, hashProofOfStake, bnCoinWeight) := kernel.tryTime hash env r.nTimeTx r.nTimeTx
          .ok (fHit, { r with hashProofOfStake, bnCoinWeight })
        else
          .ok ((List.range nHashDrift.toNat).foldl (kernel.searchTurn hash env nHashDrift)
            (false, r))

/-! ## The check of a coin stake -/

/-- What `CheckProofOfStake` asks of the rest of the node. -/
structure KernelNode where
  env : Env
  db : TxDB
  /-- `CBlock::ReadFromDisk` of the header at a file and a position. -/
  readHeader : UInt32 → UInt32 → Option CBlock

/-- `CTransaction::ReadFromDisk` of the transaction that an output is of, and its position in its
record in the database. -/
def KernelNode.readTxPrev (node : KernelNode) (prevout : COutPoint) :
    Option (CTransaction × CDiskTxPos) := do
  let txindex ← node.db[prevout.hash]?
  let txPrev ← node.env.readFromDisk txindex.pos
  guard (prevout.n.toNat < txPrev.vout.length)
  return (txPrev, txindex.pos)

/-- `CheckProofOfStake`: the hash of the kernel, or none if it returns false. -/
def checkProofOfStake (hash hash9 : Bytes → UInt256) (node : KernelNode) (tree : BlockTree)
    (tx : CTransaction) (nBits : UInt32) : Except Fault (Option UInt256) :=
  if !tx.isCoinStake then .ok none
  else
    -- kernel (input 0) must match the stake hash target per coin age
    let txin := tx.vin.headD {}
    match node.readTxPrev txin.prevout with
    | none => .ok none
    | some (txPrev, pos) =>
      if !node.env.verifySignature txPrev tx 0 true then .ok none
      else
        match node.readHeader pos.nFile pos.nBlockPos with
        | none => .ok none
        | some block => do
          let (fSuccess, r) ← checkStakeKernelHash hash hash9 node.env tree nBits block
            (pos.nTxPos - pos.nBlockPos) txPrev txin.prevout 0 true
            { nTimeTx := tx.nTime }
          return if fSuccess then some r.hashProofOfStake else none

/-! ## Active chains -/

/-- The indices of the active chain from the genesis block to the best block: the `pprev` pointers
lead along it, and so do the `pnext` pointers. -/
structure BlockTree.ActiveChain (tree : BlockTree) (chain : List CBlockIndex) : Prop where
  found : ∀ p ∈ chain, tree.find p.phashBlock = some p
  linked : chain.IsChain fun p q => q.pprev = p.phashBlock ∧ p.pnext = q.phashBlock
  first : ∀ p ∈ chain.head?, p.pprev = 0
  last : ∀ p ∈ chain.getLast?, p.pnext = 0

namespace BlockTree

variable {tree tree' : BlockTree} {chain chain' before rest : List CBlockIndex}
  {p : CBlockIndex}

/-- The blocks that follow are those on the walk along the `pnext` pointers. -/
lemma following_eq_of_walks {k : UInt256} {l : List CBlockIndex}
    (hwalk : Walks tree.find CBlockIndex.pnext k l) : tree.following k = l := by
  apply hwalk.walk_eq_of_subset
  intro j t hfound
  exact Std.ExtTreeMap.mem_keys.mpr (mem_of_find hfound)

namespace ActiveChain

section

variable (h : tree.ActiveChain (before ++ p :: rest))

include h

/-- The `pnext` pointers lead to the rest of the active chain. -/
lemma walks_pnext : Walks tree.find CBlockIndex.pnext p.pnext rest := by
  induction rest generalizing before p with
  | nil =>
    have hlast : p.pnext = 0 := h.last p (by simp)
    rw [hlast]
    exact .stop tree.find_zero
  | cons q rest ih =>
    have hlink := (List.isChain_append_cons_cons.mp h.linked).2.1
    have hfound := h.found q (by simp)
    rw [hlink.2]
    refine .step hfound (@ih (before ++ [p]) q ?_)
    rw [List.append_assoc]
    exact h

/-- The `pprev` pointers lead back along the active chain. -/
lemma walks_pprev : Walks tree.find CBlockIndex.pprev p.phashBlock (p :: before.reverse) := by
  induction before using List.reverseRecOn generalizing p rest with
  | nil =>
    refine .step (h.found p (by simp)) ?_
    rw [h.first p rfl]
    exact .stop tree.find_zero
  | append_singleton before q ih =>
    rw [List.append_assoc] at h
    have hlink := (List.isChain_append_cons_cons.mp h.linked).2.1
    refine .step (h.found p (by simp)) ?_
    rw [hlink.1, List.reverse_append]
    exact ih h

/-- What follows a block of the active chain. -/
lemma following_eq : tree.following p.pnext = rest :=
  following_eq_of_walks h.walks_pnext

end

end ActiveChain

end BlockTree

/-! ## The search along two active chains -/

lemma kernelModifierLoop_cons {nTimeStop nTime : Int64} {nHeight : Int32}
    {pindex pnext : CBlockIndex} {following : List CBlockIndex} (hearly : nTime < nTimeStop) :
    kernelModifierLoop nTimeStop pindex nHeight nTime (pnext :: following) =
      kernelModifierLoop nTimeStop pnext
        (if pnext.generatedStakeModifier then pnext.nHeight else nHeight)
        (if pnext.generatedStakeModifier then pnext.getBlockTime else nTime) following := by
  rw [kernelModifierLoop, if_pos hearly]
  split_ifs <;> rfl

/-- The search does not look beyond the index at which it stops, and of the indices it reads only
what connecting and disconnecting blocks do not change. -/
lemma kernelModifierLoop_eq_some {nTimeStop nTime nTime' : Int64} {nHeight nHeight' : Int32}
    {pindex stop : CBlockIndex} {following : List CBlockIndex}
    (h : kernelModifierLoop nTimeStop pindex nHeight nTime following =
      some (stop, nHeight', nTime')) :
    ∃ passed rest, following = passed ++ rest ∧ (pindex :: passed).getLast? = some stop ∧
      ∀ pindex' passed' rest',
        List.Forall₂ CBlockIndex.SameNode (pindex :: passed) (pindex' :: passed') →
        ∃ stop', kernelModifierLoop nTimeStop pindex' nHeight nTime (passed' ++ rest') =
            some (stop', nHeight', nTime') ∧ stop.SameNode stop' := by
  induction following generalizing pindex nHeight nTime with
  | nil =>
    rw [kernelModifierLoop] at h
    split_ifs at h with hearly
    cases h
    refine ⟨[], [], rfl, rfl, fun pindex' passed' rest' hsame => ?_⟩
    obtain ⟨hhead, -⟩ := List.forall₂_cons.mp hsame
    exact ⟨pindex', by rw [kernelModifierLoop.eq_def, if_neg hearly], hhead⟩
  | cons pnext following ih =>
    by_cases hearly : nTime < nTimeStop
    · rw [kernelModifierLoop_cons hearly] at h
      obtain ⟨passed, rest, rfl, hlast, hall⟩ := ih h
      refine ⟨pnext :: passed, rest, rfl, hlast, fun pindex' passed' rest' hsame => ?_⟩
      obtain ⟨q, qs, hnext, hqs, rfl⟩ :=
        List.forall₂_cons_left_iff.mp (List.forall₂_cons.mp hsame).2
      have hfound := hall q qs rest' (.cons hnext hqs)
      obtain ⟨fields, rfl⟩ := hnext
      rw [List.cons_append, kernelModifierLoop_cons hearly]
      exact hfound
    · rw [kernelModifierLoop, if_neg hearly] at h
      cases h
      refine ⟨[], pnext :: following, rfl, rfl, fun pindex' passed' rest' hsame => ?_⟩
      obtain ⟨hhead, -⟩ := List.forall₂_cons.mp hsame
      exact ⟨pindex', by rw [kernelModifierLoop.eq_def, if_neg hearly], hhead⟩

namespace BlockTree

variable {tree tree' : BlockTree} {chain chain' : List CBlockIndex}

/-- Two active chains that contain a block agree up to it, but for what connecting and disconnecting
blocks change. -/
lemma ActiveChain.sameNode {before before' rest rest' : List CBlockIndex} {p p' : CBlockIndex}
    (h : tree.ActiveChain (before ++ p :: rest)) (h' : tree'.ActiveChain (before' ++ p' :: rest'))
    (hsame : ∀ k, Option.Rel CBlockIndex.SameNode (tree.find k) (tree'.find k))
    (hhash : p'.phashBlock = p.phashBlock) :
    List.Forall₂ CBlockIndex.SameNode (before ++ [p]) (before' ++ [p']) := by
  have hwalk : ∃ l, Walks tree'.find CBlockIndex.pprev p.phashBlock l ∧
      List.Forall₂ CBlockIndex.SameNode (p :: before.reverse) l := by
    apply h.walks_pprev.rel
    · intro j t hfound
      rcases rel_cases (hsame j) with ⟨hnone, -⟩ | ⟨t', q, ht', hq, hnode⟩
      · rw [hfound] at hnone
        cases hnone
      · rw [hfound] at ht'
        cases ht'
        refine ⟨q, hq, hnode, ?_⟩
        obtain ⟨fields, rfl⟩ := hnode
        rfl
    · intro j _ hnone
      rcases rel_cases (hsame j) with ⟨-, hnone'⟩ | ⟨t', q, ht', -, -⟩
      · exact hnone'
      · rw [hnone] at ht'
        cases ht'
  obtain ⟨l, hl, hall⟩ := hwalk
  have hwalk' := h'.walks_pprev
  rw [hhash] at hwalk'
  rw [hl.eq hwalk'] at hall
  simpa using List.rel_reverse hall

/-- Two nodes with the same blocks find the same modifier for the output of a block of both active
chains, if both contain the block at which the search on one of them stops. -/
lemma ActiveChain.getKernelStakeModifier_eq {fTestNet : Bool} {hashBlockFrom : UInt256}
    {found : CBlockIndex × Int32 × Int64}
    (h : tree.ActiveChain chain) (h' : tree'.ActiveChain chain')
    (hsame : ∀ k, Option.Rel CBlockIndex.SameNode (tree.find k) (tree'.find k))
    (hfrom : hashBlockFrom ∈ chain.map CBlockIndex.phashBlock)
    (hsearch : tree.kernelSearch fTestNet hashBlockFrom = some found)
    (hstop : found.1.phashBlock ∈ chain'.map CBlockIndex.phashBlock) :
    tree'.getKernelStakeModifier fTestNet hashBlockFrom =
      tree.getKernelStakeModifier fTestNet hashBlockFrom := by
  obtain ⟨p, hp, rfl⟩ := List.mem_map.mp hfrom
  obtain ⟨before, rest, rfl⟩ := List.append_of_mem hp
  obtain ⟨stop, nHeight, nTime⟩ := found
  rw [kernelSearch, h.found p hp, Option.bind_some, h.following_eq] at hsearch
  obtain ⟨passed, rest, rfl, hlast, hall⟩ := kernelModifierLoop_eq_some hsearch
  -- the part of the first chain up to the block at which the search stops
  obtain ⟨init, hinit⟩ := List.getLast?_eq_some_iff.mp hlast
  obtain ⟨stop', hstop', hhash⟩ := List.mem_map.mp hstop
  obtain ⟨before', rest', rfl⟩ := List.append_of_mem hstop'
  have hnodes : List.Forall₂ CBlockIndex.SameNode (before ++ p :: passed) (before' ++ [stop']) := by
    have hchain : tree.ActiveChain ((before ++ init) ++ stop :: rest) := by
      rw [← List.cons_append, hinit] at h
      simpa using h
    rw [hinit, ← List.append_assoc]
    exact hchain.sameNode h' hsame hhash
  -- the same part of the second chain
  have hdrop := List.forall₂_drop before.length hnodes
  rw [List.drop_left] at hdrop
  obtain ⟨p', passed', hp', hpassed', heq⟩ := List.forall₂_cons_left_iff.mp hdrop
  have hsplit : before' ++ [stop'] = (before' ++ [stop']).take before.length ++ p' :: passed' := by
    rw [← heq, List.take_append_drop]
  have hchain' : tree'.ActiveChain
      ((before' ++ [stop']).take before.length ++ p' :: (passed' ++ rest')) := by
    rw [← List.cons_append, ← List.append_assoc, ← hsplit]
    simpa using h'
  have hfound' := hchain'.found p' (by simp)
  obtain ⟨stop'', hloop, hnode⟩ := hall p' passed' rest' (.cons hp' hpassed')
  rw [getKernelStakeModifier, getKernelStakeModifier, kernelSearch, kernelSearch, h.found p hp,
    Option.bind_some, h.following_eq, hsearch]
  obtain ⟨fields, rfl⟩ := hp'
  obtain ⟨fields', rfl⟩ := hnode
  rw [show p.phashBlock = (p.withFields fields).phashBlock from rfl, hfound', Option.bind_some,
    hchain'.following_eq]
  have hmodifier := congrArg (Option.map fun found : CBlockIndex × Int32 × Int64 =>
    KernelModifier.mk found.1.nStakeModifier found.2.1 found.2.2) hloop
  exact hmodifier

end BlockTree

/-- The block that the staked output of a coin stake is from. -/
def KernelNode.blockFrom (node : KernelNode) (tx : CTransaction) : Option CBlock := do
  let (_, pos) ← node.readTxPrev (tx.vin.headD {}).prevout
  node.readHeader pos.nFile pos.nBlockPos

/-- The verdict on a coin stake depends on the active chain only through the position of the staked
output and the modifier for the block that it is from. -/
lemma checkProofOfStake_congr {hash hash9 : Bytes → UInt256} {node : KernelNode} {db' : TxDB}
    {tree tree' : BlockTree} {tx : CTransaction} (nBits : UInt32)
    (hread : { node with db := db' }.readTxPrev (tx.vin.headD {}).prevout =
      node.readTxPrev (tx.vin.headD {}).prevout)
    (hmodifier : ∀ block ∈ node.blockFrom tx,
      tree'.getKernelStakeModifier node.env.fTestNet (block.getHash hash9) =
        tree.getKernelStakeModifier node.env.fTestNet (block.getHash hash9)) :
    checkProofOfStake hash hash9 { node with db := db' } tree' tx nBits =
      checkProofOfStake hash hash9 node tree tx nBits := by
  unfold checkProofOfStake
  dsimp only
  rw [hread]
  rw [KernelNode.blockFrom] at hmodifier
  cases hprev : node.readTxPrev (tx.vin.headD {}).prevout with
  | none => rfl
  | some found =>
    rw [hprev] at hmodifier
    dsimp only at hmodifier ⊢
    cases hheader : node.readHeader found.2.nFile found.2.nBlockPos with
    | none => rfl
    | some block =>
      have hsame := hmodifier block hheader
      dsimp only
      rw [checkStakeKernelHash, checkStakeKernelHash, hsame]

/-- `GetKernelStakeModifier` finds the same modifier for the output of a block on two active chains
that both contain the block at which the search on one of them stops, and then `CheckProofOfStake`
comes to the same verdict, if the database has the staked output at the same position. -/
theorem sameVerdict_of_activeChains {fTestNet : Bool} {tree tree' : BlockTree}
    {chain chain' : List CBlockIndex} {hashBlockFrom : UInt256}
    {found : CBlockIndex × Int32 × Int64}
    (h : tree.ActiveChain chain) (h' : tree'.ActiveChain chain')
    (hsame : ∀ k, Option.Rel CBlockIndex.SameNode (tree.find k) (tree'.find k))
    (hfrom : hashBlockFrom ∈ chain.map CBlockIndex.phashBlock)
    (hsearch : tree.kernelSearch fTestNet hashBlockFrom = some found)
    (hstop : found.1.phashBlock ∈ chain'.map CBlockIndex.phashBlock) :
    tree'.getKernelStakeModifier fTestNet hashBlockFrom =
        tree.getKernelStakeModifier fTestNet hashBlockFrom ∧
      ∀ (hash hash9 : Bytes → UInt256) (node : KernelNode) (db' : TxDB) (tx : CTransaction)
        (nBits : UInt32),
        node.env.fTestNet = fTestNet →
        (∀ block ∈ node.blockFrom tx, block.getHash hash9 = hashBlockFrom) →
        { node with db := db' }.readTxPrev (tx.vin.headD {}).prevout =
            node.readTxPrev (tx.vin.headD {}).prevout →
          checkProofOfStake hash hash9 { node with db := db' } tree' tx nBits =
            checkProofOfStake hash hash9 node tree tx nBits := by
  have hmodifier := h.getKernelStakeModifier_eq h' hsame hfrom hsearch hstop
  refine ⟨hmodifier, fun hash hash9 node db' tx nBits hnet hblock hread => ?_⟩
  apply checkProofOfStake_congr nBits hread
  intro block hmem
  rw [hblock block hmem, hnet]
  exact hmodifier

/-! ## A fork -/

/-- An index of a proof-of-work block of the test network. -/
def forkIndex (phashBlock pprev : UInt256) (nHeight : Int32) (nTime nFlags : UInt32)
    (nStakeModifier : UInt64) : CBlockIndex :=
  { phashBlock, pprev, nHeight, nTime, nFlags, nStakeModifier }

/-- The genesis block, and two branches on it.  The first blocks of the branches have different
entropy bits, and the second ones new modifiers. -/
def forkIndices : List CBlockIndex :=
  [forkIndex 2 0 0 1424304823 4 0, forkIndex 3 2 1 1424304923 2 0, forkIndex 5 3 2 1424307023 6 2,
    forkIndex 7 5 3 1424307033 2 2, forkIndex 4 2 1 1424304923 0 0, forkIndex 6 4 2 1424307023 4 0]

/-- A hash for examples: the first bytes. -/
def forkHash (bytes : Bytes) : UInt256 := BitVec.ofNat 256 (LittleEndian.leValue (bytes.take 8))

/-- The block tree with one of its chains as the active one. -/
def forkTree (chain : List UInt256) : BlockTree :=
  BlockTree.setFields
    { mapBlockIndex := forkIndices.foldl (fun m pindex => m.insert pindex.phashBlock pindex) ∅ }
    fun h => { pnext := (chain.dropWhile (· != h)).getD 1 0 }

lemma sameNode_forkTree (chain chain' : List UInt256) (k : UInt256) :
    Option.Rel CBlockIndex.SameNode ((forkTree chain).find k) ((forkTree chain').find k) := by
  rw [BlockTree.find, BlockTree.find]
  split_ifs
  · exact .none
  · rw [forkTree, forkTree, BlockTree.setFields, BlockTree.setFields,
      Std.ExtTreeMap.getElem?_map, Std.ExtTreeMap.getElem?_map]
    cases (forkIndices.foldl (fun m pindex => m.insert pindex.phashBlock pindex)
      (∅ : Std.ExtTreeMap UInt256 CBlockIndex))[k]? with
    | none => exact .none
    | some pindex => exact .some ⟨_, rfl⟩

/-- The indices of the active chain. -/
def forkChain (chain : List UInt256) : List CBlockIndex := chain.filterMap (forkTree chain).find

/-- Every index of the tree is found under its hash. -/
lemma phashBlock_forkTree {chain : List UInt256} {k : UInt256} {p : CBlockIndex}
    (hfound : (forkTree chain).find k = some p) : p.phashBlock = k := by
  have hfold : ∀ (pindices : List CBlockIndex) (m : Std.ExtTreeMap UInt256 CBlockIndex),
      (∀ (k : UInt256) (q : CBlockIndex), m[k]? = some q → q.phashBlock = k) →
      ∀ (k : UInt256) (q : CBlockIndex),
        (pindices.foldl (fun m pindex => m.insert pindex.phashBlock pindex) m)[k]? = some q →
          q.phashBlock = k := by
    intro pindices
    induction pindices with
    | nil => exact fun m hm => hm
    | cons pindex pindices ih =>
      intro m hm
      apply ih
      intro k q hget
      rw [MapLoop.getElem?_insert_eq] at hget
      split_ifs at hget with heq
      · cases hget
        exact heq
      · exact hm k q hget
  have hget := (BlockTree.find_eq_some.mp hfound).2
  rw [forkTree, BlockTree.setFields, Std.ExtTreeMap.getElem?_map] at hget
  obtain ⟨q, hq, rfl⟩ := Option.map_eq_some_iff.mp hget
  exact hfold forkIndices ∅ (by simp) k q hq

/-- The hash of an index, and those that it points to. -/
def CBlockIndex.links (pindex : CBlockIndex) : UInt256 × UInt256 × UInt256 :=
  (pindex.phashBlock, pindex.pprev, pindex.pnext)

lemma activeChain_forkTree {chain : List UInt256} {links : List (UInt256 × UInt256 × UInt256)}
    (h : (forkChain chain).map CBlockIndex.links = links)
    (hlinked : links.IsChain fun a b => b.2.1 = a.1 ∧ a.2.2 = b.1)
    (hends : links.head?.map (fun a => a.2.1) = some 0 ∧
      links.getLast?.map (fun a => a.2.2) = some 0) :
    (forkTree chain).ActiveChain (forkChain chain) := by
  obtain ⟨hfirst, hlast⟩ := hends
  rw [← h, List.isChain_map] at hlinked
  rw [← h, List.head?_map, Option.map_map] at hfirst
  rw [← h, List.getLast?_map, Option.map_map] at hlast
  refine ⟨fun p hp => ?_, hlinked, fun p hp => ?_, fun p hp => ?_⟩
  · obtain ⟨k, -, hfound⟩ := List.mem_filterMap.mp hp
    rw [phashBlock_forkTree hfound]
    exact hfound
  · rw [Option.mem_def.mp hp] at hfirst
    exact Option.some.inj hfirst
  · rw [Option.mem_def.mp hp] at hlast
    exact Option.some.inj hlast

lemma links_firstBranch :
    (forkChain [2, 3, 5]).map CBlockIndex.links = [(2, 0, 3), (3, 2, 5), (5, 3, 0)] := by
  decide +kernel

/-- The second block of a branch has the modifier for the output of the genesis block, whether or
not the branch goes on. -/
theorem sameVerdict_forkTree :
    (forkTree [2, 3, 5, 7]).getKernelStakeModifier true 2 =
      (forkTree [2, 3, 5]).getKernelStakeModifier true 2 := by
  have h := activeChain_forkTree links_firstBranch (by decide +kernel) (by decide +kernel)
  have hlinks : (forkChain [2, 3, 5, 7]).map CBlockIndex.links =
      [(2, 0, 3), (3, 2, 5), (5, 3, 7), (7, 5, 0)] := by
    decide +kernel
  have h' := activeChain_forkTree hlinks (by decide +kernel) (by decide +kernel)
  have hsearch : ((forkTree [2, 3, 5]).kernelSearch true 2).map (fun found => found.1.phashBlock) =
      some 5 := by
    decide +kernel
  obtain ⟨found, hfound, hstop⟩ := Option.map_eq_some_iff.mp hsearch
  have hhashes : (forkChain [2, 3, 5]).map CBlockIndex.phashBlock = [2, 3, 5] := by
    decide +kernel
  have hhashes' : (forkChain [2, 3, 5, 7]).map CBlockIndex.phashBlock = [2, 3, 5, 7] := by
    decide +kernel
  refine (sameVerdict_of_activeChains h h' (sameNode_forkTree _ _) ?_ hfound ?_).1
  · rw [hhashes]
    exact List.mem_cons_self
  · rw [hhashes', hstop]
    decide

/-- A coin stake of an output of the genesis block. -/
def forkStake : CTransaction :=
  { nTime := 1424307223, vin := [{ prevout := { hash := 9, n := 0 } }]
    vout := [{ nValue := 0 }, { nValue := 72 * COIN, scriptPubKey := [0x51] }] }

/-- A node on the test network that has the output on disk. -/
def forkNode : KernelNode where
  env := { sampleEnv with
    fTestNet := true, nStakeMinAge := 20 * 60
    readFromDisk := fun _ => some
      { nTime := 1424304823, vout := [{ nValue := 72 * COIN, scriptPubKey := [0x51] }] } }
  db := (∅ : TxDB).insert 9 {}
  readHeader _ _ := some { nTime := 1424304823 }

/-- Of two branches on the block that an output is from, one has a modifier with which a coin stake
of the output is good, and the other one has not. -/
theorem not_sameVerdict_fork : ¬ ∀ (hash hash9 : Bytes → UInt256) (fTestNet : Bool)
    (tree tree' : BlockTree) (chain chain' : List CBlockIndex) (hashBlockFrom : UInt256)
    (node : KernelNode) (tx : CTransaction) (nBits : UInt32),
    tree.ActiveChain chain → tree'.ActiveChain chain' →
      (∀ k, Option.Rel CBlockIndex.SameNode (tree.find k) (tree'.find k)) →
      (∀ item ∈ tree.mapBlockIndex.toList,
        computeNextStakeModifier hash fTestNet tree.find (tree.past item.2.pprev) =
          some (item.2.nStakeModifier, item.2.generatedStakeModifier)) →
      hashBlockFrom ∈ chain.map CBlockIndex.phashBlock →
      hashBlockFrom ∈ chain'.map CBlockIndex.phashBlock →
      node.env.fTestNet = fTestNet →
      (∀ block ∈ node.blockFrom tx, block.getHash hash9 = hashBlockFrom) →
        tree'.getKernelStakeModifier fTestNet hashBlockFrom =
            tree.getKernelStakeModifier fTestNet hashBlockFrom ∧
          checkProofOfStake hash hash9 node tree' tx nBits =
            checkProofOfStake hash hash9 node tree tx nBits := by
  intro hsame
  have hlinks : (forkChain [2, 4, 6]).map CBlockIndex.links =
      [(2, 0, 4), (4, 2, 6), (6, 4, 0)] := by
    decide +kernel
  have h := activeChain_forkTree links_firstBranch (by decide +kernel) (by decide +kernel)
  have h' := activeChain_forkTree hlinks (by decide +kernel) (by decide +kernel)
  have hmodifiers : ∀ item ∈ (forkTree [2, 3, 5]).mapBlockIndex.toList,
      computeNextStakeModifier forkHash true (forkTree [2, 3, 5]).find
          ((forkTree [2, 3, 5]).past item.2.pprev) =
        some (item.2.nStakeModifier, item.2.generatedStakeModifier) := by
    have hall : (forkTree [2, 3, 5]).mapBlockIndex.toList.all (fun item =>
        computeNextStakeModifier forkHash true (forkTree [2, 3, 5]).find
            ((forkTree [2, 3, 5]).past item.2.pprev) ==
          some (item.2.nStakeModifier, item.2.generatedStakeModifier)) = true := by
      decide +kernel
    exact fun item hitem => eq_of_beq (List.all_eq_true.mp hall item hitem)
  have hhashes : (forkChain [2, 3, 5]).map CBlockIndex.phashBlock = [2, 3, 5] := by
    decide +kernel
  have hhashes' : (forkChain [2, 4, 6]).map CBlockIndex.phashBlock = [2, 4, 6] := by
    decide +kernel
  have hverdict : checkProofOfStake forkHash (fun _ => 2) forkNode (forkTree [2, 4, 6]) forkStake
      0x01010000 = .ok (some 0) := by
    decide +kernel
  have hverdict' : checkProofOfStake forkHash (fun _ => 2) forkNode (forkTree [2, 3, 5]) forkStake
      0x01010000 = .ok none := by
    decide +kernel
  have heq := (hsame forkHash (fun _ => 2) true (forkTree [2, 3, 5]) (forkTree [2, 4, 6]) _ _ 2
    forkNode forkStake 0x01010000 h h' (sameNode_forkTree _ _) hmodifiers (by rw [hhashes]; decide)
    (by rw [hhashes']; decide) rfl (fun _ _ => rfl)).2
  rw [hverdict, hverdict'] at heq
  cases heq

end HyperStake
