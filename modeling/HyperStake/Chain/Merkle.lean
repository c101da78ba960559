import HyperStake.Chain.ActiveChain
import HyperStake.Library.CheckedVector
import HyperStake.Library.MerkleTree

/-!
# The Merkle tree of a block

`CBlock::BuildMerkleTree`, `GetMerkleBranch` and `CheckMerkleBranch`.  The tree is one vector, the
levels one after the other, and the loops keep the position where a level starts.  They read the
levels of the tree over the hashes of the transactions (`buildMerkleTree_eq`), so the branch of a
transaction leads from its hash to the root, and a branch that leads to the root starts at the hash
of a transaction (`mem_txHashes_of_checkMerkleBranch`).

`CheckBlock` lets no block pass in which a transaction occurs twice.  The root then determines the
transactions, as far as the hash function has no collisions and no transaction has the hash of a
node.

The positions are `int`s in the program.  The tree of a block with `n` transactions has fewer than
`3 * n` nodes (`length_merkleTree_lt`), and no block that is read from a stream has `2 ^ 29`
transactions.
-/

namespace HyperStake

open LittleEndian MerkleTree

variable {hash : Bytes → UInt256} {block block' : CBlock}

/-- `Hash` of two hashes. -/
def merkleNode (hash : Bytes → UInt256) (a b : UInt256) : UInt256 :=
  hash (serializeUInt256 a ++ serializeUInt256 b)

namespace CBlock

/-- The hashes of the transactions. -/
def txHashes (hash : Bytes → UInt256) (block : CBlock) : List UInt256 :=
  block.vtx.map (CTransaction.getHash hash)

/-- The inner loop of `BuildMerkleTree` from an index on, for the level of a size that starts at a
position. -/
def pushNodes (hash : Bytes → UInt256) (j nSize i : ℕ) (vMerkleTree : List UInt256) :
    Except Fault (List UInt256) :=
  if i < nSize then do
    let left ← CheckedVector.get .undefined vMerkleTree (j + i)
    let right ← CheckedVector.get .undefined vMerkleTree (j + min (i + 1) (nSize - 1))
    pushNodes hash j nSize (i + 2) (vMerkleTree ++ [merkleNode hash left right])
  else .ok vMerkleTree
termination_by nSize - i

/-- The outer loop of `BuildMerkleTree`, from the level of a size that starts at a position on. -/
def pushLevels (hash : Bytes → UInt256) (j nSize : ℕ) (vMerkleTree : List UInt256) :
    Except Fault (List UInt256) :=
  if 1 < nSize then do
    pushLevels hash (j + nSize) ((nSize + 1) / 2) (← pushNodes hash j nSize 0 vMerkleTree)
  else .ok vMerkleTree
termination_by nSize

/-- `BuildMerkleTree`: the tree that it leaves in the block, and the root that it returns. -/
def buildMerkleTree (hash : Bytes → UInt256) (block : CBlock) :
    Except Fault (List UInt256 × UInt256) := do
  let vMerkleTree ← pushLevels hash 0 block.vtx.length (block.txHashes hash)
  return (vMerkleTree, vMerkleTree.getLastD 0)

/-- The loop of `GetMerkleBranch`, from the level of a size that starts at a position on. -/
def branchLoop (vMerkleTree : List UInt256) (j nSize nIndex : ℕ) :
    Except Fault (List UInt256) :=
  if 1 < nSize then do
    let sibling ← CheckedVector.get .undefined vMerkleTree (j + min (nIndex ^^^ 1) (nSize - 1))
    return sibling :: (← branchLoop vMerkleTree (j + nSize) ((nSize + 1) / 2) (nIndex >>> 1))
  else .ok []
termination_by nSize

/-- `GetMerkleBranch` of a block in which a tree was left, or no tree. -/
def getMerkleBranch (hash : Bytes → UInt256) (block : CBlock) (vMerkleTree : List UInt256)
    (nIndex : ℕ) : Except Fault (List UInt256) := do
  let vMerkleTree ←
    if vMerkleTree.isEmpty then Prod.fst <$> block.buildMerkleTree hash else .ok vMerkleTree
  branchLoop vMerkleTree 0 block.vtx.length nIndex

/-- The loop of `CheckMerkleBranch`. -/
def checkLoop (hash : Bytes → UInt256) : List UInt256 → ℤ → UInt256 → UInt256
  | [], _, h => h
  | otherside :: vMerkleBranch, nIndex, h =>
    checkLoop hash vMerkleBranch (nIndex / 2)
      (if nIndex % 2 = 1 then merkleNode hash otherside h else merkleNode hash h otherside)

def checkMerkleBranch (hash : Bytes → UInt256) (h : UInt256) (vMerkleBranch : List UInt256)
    (nIndex : ℤ) : UInt256 :=
  if nIndex = -1 then 0 else checkLoop hash vMerkleBranch nIndex h

/-! ## The loops read the levels of the tree -/

@[simp] lemma length_txHashes : (block.txHashes hash).length = block.vtx.length :=
  List.length_map _

variable {l : List UInt256} {k : ℕ} {r : UInt256}

/-- Reading a level in the tree. -/
lemma get_level {base rest : List UInt256} {i : ℕ} {a : UInt256} (h : l[i]? = some a) :
    CheckedVector.get Fault.undefined (base ++ (l ++ rest)) (base.length + i) = .ok a := by
  have hi : i < l.length := (List.getElem?_eq_some_iff.mp h).1
  rw [CheckedVector.get, List.getElem?_append_right (Nat.le_add_right _ _), Nat.add_sub_cancel_left,
    List.getElem?_append_left hi, h]

variable (base : List UInt256)

/-- The inner loop pushes the nodes over the pairs that are left. -/
lemma pushNodes_eq (m : ℕ) (rest : List UInt256) :
    pushNodes hash base.length l.length (2 * m) (base ++ (l ++ rest)) =
      .ok (base ++ (l ++ (rest ++ (parents (merkleNode hash) l).drop m))) := by
  induction hn : l.length - 2 * m using Nat.strong_induction_on generalizing m rest with
  | _ n ih =>
    rw [pushNodes]
    by_cases hm : 2 * m < l.length
    · have hleft : l[2 * m]? = some l[2 * m] := List.getElem?_eq_getElem hm
      set right := l[2 * m + 1]?.getD l[2 * m] with hsecond
      have hright : l[min (2 * m + 1) (l.length - 1)]? = some right := by
        by_cases hlast : 2 * m + 1 < l.length
        · rw [min_eq_left (by omega), hsecond, List.getElem?_eq_getElem hlast]
          rfl
        · -- the last hash of a level of odd size
          have hpos : l.length - 1 = 2 * m := by omega
          have hnone : l[2 * m + 1]? = none := List.getElem?_eq_none (by omega)
          rw [min_eq_right (by omega), hsecond, hnone, hpos, hleft]
          rfl
      have hnode : (parents (merkleNode hash) l)[m]? = some (merkleNode hash l[2 * m] right) := by
        rw [parents, List.getElem?_map, getElem?_pairs, hleft]
        rfl
      have hdrop : (parents (merkleNode hash) l).drop m =
          merkleNode hash l[2 * m] right :: (parents (merkleNode hash) l).drop (m + 1) := by
        rw [List.drop_eq_getElem?_toList_append, hnode]
        rfl
      have hnext := ih (l.length - 2 * (m + 1)) (by omega) (m + 1)
        (rest ++ [merkleNode hash l[2 * m] right]) rfl
      rw [if_pos hm, get_level hleft, get_level hright, hdrop]
      simp only [List.append_assoc, List.singleton_append] at hnext ⊢
      exact hnext
    · rw [if_neg hm, List.drop_eq_nil_of_le (by rw [length_parents]; omega), List.append_nil]

/-- The outer loop pushes the levels up to the root. -/
lemma pushLevels_eq (h : Climbs (merkleNode hash) k l r) :
    pushLevels hash base.length l.length (base ++ l) =
      .ok (base ++ levels (merkleNode hash) k l) := by
  induction h generalizing base with
  | single a =>
    rw [pushLevels, if_neg (by simp)]
    rfl
  | @up k l r htwo _ ih =>
    have hnodes : pushNodes hash base.length l.length 0 (base ++ l) =
        .ok (base ++ l ++ parents (merkleNode hash) l) := by
      have hall : pushNodes hash base.length l.length (2 * 0) _ = _ := pushNodes_eq base 0 []
      simpa only [Nat.mul_zero, List.append_nil, List.nil_append, List.drop_zero,
        List.append_assoc] using hall
    have hnext := ih (base ++ l)
    rw [length_parents, List.length_append] at hnext
    rw [pushLevels, if_pos (by omega), hnodes]
    rw [levels, ← List.append_assoc]
    exact hnext

/-- The tree and the root that `BuildMerkleTree` gives. -/
lemma buildMerkleTree_eq (h : Climbs (merkleNode hash) k (block.txHashes hash) r) :
    block.buildMerkleTree hash = .ok (levels (merkleNode hash) k (block.txHashes hash), r) := by
  have hlevels := pushLevels_eq [] h
  rw [List.nil_append, List.nil_append, List.length_nil, length_txHashes] at hlevels
  rw [buildMerkleTree, hlevels]
  have hlast : (levels (merkleNode hash) k (block.txHashes hash)).getLastD 0 = r := by
    rw [List.getLastD_eq_getLast?, h.getLast?_levels]
    rfl
  exact congrArg (fun a => Except.ok (_, a)) hlast

/-- The size of the tree, which bounds the positions in the loops. -/
lemma length_merkleTree_lt {vMerkleTree : List UInt256} {root : UInt256} (hne : block.vtx ≠ [])
    (h : block.buildMerkleTree hash = .ok (vMerkleTree, root)) :
    vMerkleTree.length < 3 * block.vtx.length := by
  have hhashes : block.txHashes hash ≠ [] := fun hnil => hne (List.map_eq_nil_iff.mp hnil)
  obtain ⟨k, _, hclimbs⟩ := exists_climbs (merkleNode hash) hhashes
  rw [buildMerkleTree_eq hclimbs, Except.ok.injEq, Prod.mk.injEq] at h
  rw [← h.1, ← length_txHashes]
  exact hclimbs.length_levels_lt

/-- The loop of `GetMerkleBranch` collects the siblings. -/
lemma branchLoop_eq {i : ℕ} (h : Climbs (merkleNode hash) k l r) (hi : i < l.length) :
    branchLoop (base ++ levels (merkleNode hash) k l) base.length l.length i =
      .ok (branch (merkleNode hash) 0 k l i) := by
  induction h generalizing base i with
  | single a =>
    rw [branchLoop, if_neg (by simp)]
    rfl
  | @up k l r htwo _ ih =>
    have hsibling : siblingAt l.length i < l.length := by
      rw [siblingAt]
      omega
    have hget : l[siblingAt l.length i]? = some (l.getD (siblingAt l.length i) 0) := by
      rw [List.getD_eq_getElem?_getD, List.getElem?_eq_getElem hsibling]
      rfl
    have hnext := ih (base ++ l) (i := i / 2) (by rw [length_parents]; omega)
    rw [length_parents, List.length_append, List.append_assoc] at hnext
    rw [branchLoop, if_pos (by omega), levels]
    change (do
      let sibling ← CheckedVector.get Fault.undefined _ (base.length + siblingAt l.length i)
      return sibling :: (← branchLoop _ (base.length + l.length) ((l.length + 1) / 2) (i >>> 1)))
        = _
    rw [get_level hget, Nat.shiftRight_one, hnext]
    rfl

/-- The loop of `CheckMerkleBranch` climbs. -/
lemma checkLoop_eq (siblings : List UInt256) (i : ℕ) (h : UInt256) :
    checkLoop hash siblings i h = climb (merkleNode hash) siblings i h := by
  induction siblings generalizing i h with
  | nil => rfl
  | cons otherside siblings ih =>
    have hhalf : (i : ℤ) / 2 = (i / 2 : ℕ) := by omega
    rw [checkLoop, climb, hhalf, ih, join]
    by_cases hodd : i % 2 = 1
    · rw [if_pos hodd, if_pos (by omega)]
    · rw [if_neg hodd, if_neg (by omega)]

/-- The branch of a transaction leads from its hash to the root, from whatever block the branch is
taken: one whose tree was built, or one whose tree is still empty. -/
theorem checkMerkleBranch_getMerkleBranch (hash : Bytes → UInt256) (block : CBlock)
    (hne : block.vtx ≠ []) :
    ∃ vMerkleTree root, block.buildMerkleTree hash = .ok (vMerkleTree, root) ∧
      ∀ cached, cached = [] ∨ cached = vMerkleTree → ∀ nIndex tx, block.vtx[nIndex]? = some tx →
        ∃ vMerkleBranch, block.getMerkleBranch hash cached nIndex = .ok vMerkleBranch ∧
          checkMerkleBranch hash (tx.getHash hash) vMerkleBranch nIndex = root := by
  have hhashes : block.txHashes hash ≠ [] := fun hnil => hne (List.map_eq_nil_iff.mp hnil)
  obtain ⟨k, root, hclimbs⟩ := exists_climbs (merkleNode hash) hhashes
  have hbuild := buildMerkleTree_eq hclimbs
  refine ⟨_, root, hbuild, fun cached hcached nIndex tx htx => ?_⟩
  have htxHash : (block.txHashes hash)[nIndex]? = some (tx.getHash hash) := by
    rw [txHashes, List.getElem?_map, htx]
    rfl
  have hlt : nIndex < (block.txHashes hash).length := (List.getElem?_eq_some_iff.mp htxHash).1
  have hloop := branchLoop_eq [] hclimbs hlt
  rw [List.nil_append, List.length_nil, length_txHashes] at hloop
  refine ⟨branch (merkleNode hash) 0 k (block.txHashes hash) nIndex, ?_, ?_⟩
  · rw [getMerkleBranch]
    rcases hcached with rfl | rfl
    · rw [List.isEmpty_nil, if_pos rfl, hbuild]
      exact hloop
    · have hnonempty : (levels (merkleNode hash) k (block.txHashes hash)).isEmpty = false := by
        have hlast := hclimbs.getLast?_levels
        cases hlevels : levels (merkleNode hash) k (block.txHashes hash) with
        | nil =>
          rw [hlevels] at hlast
          cases hlast
        | cons a l => rfl
      rw [hnonempty]
      exact hloop
  · rw [checkMerkleBranch, if_neg (by omega), checkLoop_eq]
    exact climb_branch hclimbs htxHash

/-- A hash for examples that depends on all of the bytes. -/
def mixingHash (bytes : Bytes) : UInt256 :=
  bytes.foldl (fun h byte => h * 257 + BitVec.ofNat 256 (byte.toNat + 1)) 0

/-- A payment for examples. -/
def payment : CTransaction :=
  { nTime := 1401331400, vin := [{ prevout := { hash := 1, n := 0 } }]
    vout := [{ nValue := COIN, scriptPubKey := [0x51] }] }

/-- A block for examples with a payment. -/
def paymentBlock : CBlock := { firstBlock with
  hashMerkleRoot := merkleNode mixingHash (firstCoinBase.getHash mixingHash)
    (payment.getHash mixingHash)
  vtx := [firstCoinBase, payment] }

theorem checkMerkleBranch_paymentBlock :
    ∃ vMerkleTree root, paymentBlock.buildMerkleTree mixingHash = .ok (vMerkleTree, root) ∧
      ∀ cached, cached = [] ∨ cached = vMerkleTree →
        ∀ nIndex tx, paymentBlock.vtx[nIndex]? = some tx →
          ∃ vMerkleBranch, paymentBlock.getMerkleBranch mixingHash cached nIndex =
              .ok vMerkleBranch ∧
            checkMerkleBranch mixingHash (tx.getHash mixingHash) vMerkleBranch nIndex = root :=
  checkMerkleBranch_getMerkleBranch mixingHash paymentBlock (List.cons_ne_nil _ _)

/-! ## The root determines the transactions -/

/-- The pairs of hashes that `BuildMerkleTree` hashes. -/
def merklePairs (hash : Bytes → UInt256) (block : CBlock) : List (UInt256 × UInt256) :=
  hashed (merkleNode hash) (Nat.clog 2 block.vtx.length) (block.txHashes hash)

/-- The root of the tree that `CheckBlock` builds. -/
lemma climbs_of_checkBlock {env : Env} {fCheckPOW fFullCheck : Bool}
    (henv : ∀ block, Prod.snd <$> buildMerkleTree hash block = .ok (env.buildMerkleTree block))
    (h : block.checkBlock hash env fCheckPOW true fFullCheck = true) :
    Climbs (merkleNode hash) (Nat.clog 2 block.vtx.length) (block.txHashes hash)
      block.hashMerkleRoot ∧ (block.txHashes hash).Nodup := by
  simp only [checkBlock, Bool.and_eq_true, Bool.not_eq_true', decide_eq_true_eq] at h
  obtain ⟨⟨⟨⟨⟨⟨⟨⟨⟨⟨hne, -⟩, -⟩, -⟩, -⟩, -⟩, -⟩, hnodup⟩, -⟩, hroot⟩, -⟩ := h
  refine ⟨?_, hnodup⟩
  have hhashes : block.txHashes hash ≠ [] := by
    intro hnil
    rw [List.map_eq_nil_iff.mp hnil] at hne
    cases hne
  obtain ⟨k, root, hclimbs⟩ := exists_climbs (merkleNode hash) hhashes
  have hheight := hclimbs.height_eq
  rw [length_txHashes] at hheight
  have hbuilt := henv block
  rw [buildMerkleTree_eq hclimbs] at hbuilt
  have hsame : root = env.buildMerkleTree block := Except.ok.inj hbuilt
  have hcheck : block.hashMerkleRoot = env.buildMerkleTree block := by simpa using hroot
  rwa [hcheck, ← hsame, ← hheight]

/-- Blocks that pass `CheckBlock` and have the same root have the same transactions, as far as no
two of their transactions have the same hash, no two pairs of hashes have the same node, and no
transaction has the hash of a node.  No block passes that repeats the tail of another one. -/
theorem eq_vtx_of_hashMerkleRoot_eq (hash : Bytes → UInt256) :
    (∀ (env env' : Env) (block block' : CBlock) (fCheckPOW fCheckPOW' fFullCheck fFullCheck' : Bool),
      (∀ block, Prod.snd <$> buildMerkleTree hash block = .ok (env.buildMerkleTree block)) →
      (∀ block, Prod.snd <$> buildMerkleTree hash block = .ok (env'.buildMerkleTree block)) →
      Set.InjOn (CTransaction.getHash hash) {tx | tx ∈ block.vtx ++ block'.vtx} →
      Set.InjOn (fun p => merkleNode hash p.1 p.2)
        {p | p ∈ block.merklePairs hash ++ block'.merklePairs hash} →
      (∀ p ∈ block.merklePairs hash ++ block'.merklePairs hash,
        merkleNode hash p.1 p.2 ∉ block.txHashes hash ++ block'.txHashes hash) →
      block.checkBlock hash env fCheckPOW true fFullCheck = true →
      block'.checkBlock hash env' fCheckPOW' true fFullCheck' = true →
      block.hashMerkleRoot = block'.hashMerkleRoot → block.vtx = block'.vtx) ∧
    ∀ (env : Env) (block block' : CBlock) (tail : List CTransaction)
      (fCheckPOW fCheckMerkleRoot fFullCheck : Bool), tail ≠ [] → tail <:+ block.vtx →
      block'.vtx = block.vtx ++ tail →
      block'.checkBlock hash env fCheckPOW fCheckMerkleRoot fFullCheck = false := by
  constructor
  · intro env env' block block' _ _ _ _ henv henv' hinj hnodes hleaf hcheck hcheck' hroot
    obtain ⟨hclimbs, hnodup⟩ := climbs_of_checkBlock henv hcheck
    obtain ⟨hclimbs', hnodup'⟩ := climbs_of_checkBlock henv' hcheck'
    rw [← hroot] at hclimbs'
    have hhashes : block.txHashes hash = block'.txHashes hash := by
      apply hclimbs.eq_of_root hnodes hclimbs' _ _ _ _ hnodup hnodup'
      · exact fun p hp => List.mem_append_left _ hp
      · exact fun p hp => List.mem_append_right _ hp
      · exact fun p hp hmem => hleaf p hp (List.mem_append_left _ hmem)
      · exact fun p hp hmem => hleaf p hp (List.mem_append_right _ hmem)
    apply eq_of_map_eq hinj _ _ hhashes
    · exact fun tx htx => List.mem_append_left _ htx
    · exact fun tx htx => List.mem_append_right _ htx
  · intro env block block' tail _ _ _ hne hsuffix hvtx
    obtain ⟨tx, tail', rfl⟩ := List.exists_cons_of_ne_nil hne
    have htx : tx ∈ block.vtx := hsuffix.subset List.mem_cons_self
    -- the transaction is there a second time
    have hdup : ¬ (block'.vtx.map (CTransaction.getHash hash)).Nodup := by
      rw [hvtx, List.map_append, List.nodup_append]
      rintro ⟨-, -, hdisjoint⟩
      exact hdisjoint _ (List.mem_map_of_mem htx) _ List.mem_cons_self rfl
    simp [checkBlock, hdup]

/-- The root of the tree, for a check of a block. -/
def merkleRoot (hash : Bytes → UInt256) (block : CBlock) : UInt256 :=
  match block.buildMerkleTree hash with
  | .ok (_, root) => root
  | .error _ => 0

/-- `BuildMerkleTree` never fails. -/
lemma snd_buildMerkleTree (hash : Bytes → UInt256) (block : CBlock) :
    Prod.snd <$> block.buildMerkleTree hash = .ok (block.merkleRoot hash) := by
  by_cases hhashes : block.txHashes hash = []
  · have hvtx : block.vtx = [] := List.map_eq_nil_iff.mp hhashes
    have hbuild : block.buildMerkleTree hash = .ok ([], 0) := by
      rw [buildMerkleTree, hhashes, hvtx, List.length_nil, pushLevels, if_neg (by omega)]
      rfl
    rw [merkleRoot, hbuild]
    rfl
  · obtain ⟨k, root, hclimbs⟩ := exists_climbs (merkleNode hash) hhashes
    rw [merkleRoot, buildMerkleTree_eq hclimbs]
    rfl

/-- The surroundings of a node that builds the trees of the blocks. -/
def merkleEnv : Env := { sampleEnv with buildMerkleTree := merkleRoot mixingHash }

/-- A block passes with the check of the root if it passes without it and has the root. -/
lemma checkBlock_of_root {env : Env} {fCheckPOW fFullCheck : Bool}
    (h : block.checkBlock hash env fCheckPOW false fFullCheck = true)
    (hroot : block.hashMerkleRoot = env.buildMerkleTree block) :
    block.checkBlock hash env fCheckPOW true fFullCheck = true := by
  rw [← h, checkBlock, checkBlock, hroot, bne_self_eq_false, Bool.and_false, Bool.and_false]

lemma checkBlock_paymentBlock {nNonce : UInt32}
    (h : { paymentBlock with nNonce := nNonce }.checkBlock mixingHash merkleEnv true false true
      = true) :
    { paymentBlock with nNonce := nNonce }.checkBlock mixingHash merkleEnv true true true
      = true := by
  have hclimbs := Climbs.pair (merkleNode mixingHash) (firstCoinBase.getHash mixingHash)
    (payment.getHash mixingHash)
  have hbuild : { paymentBlock with nNonce := nNonce }.buildMerkleTree mixingHash = _ :=
    buildMerkleTree_eq hclimbs
  apply checkBlock_of_root h
  change _ = merkleRoot mixingHash _
  rw [merkleRoot, hbuild]
  rfl

/-- Two blocks with one root and different nonces. -/
theorem eq_vtx_paymentBlock :
    paymentBlock.vtx = { paymentBlock with nNonce := 1 }.vtx ∧
    { paymentBlock with vtx := [firstCoinBase, payment, payment] }.checkBlock mixingHash merkleEnv
      true true true = false := by
  constructor
  · have hpairs : paymentBlock.merklePairs mixingHash =
        [(firstCoinBase.getHash mixingHash, payment.getHash mixingHash)] := by
      have hheight : Nat.clog 2 paymentBlock.vtx.length = 1 :=
        (Climbs.pair (merkleNode mixingHash) 0 0).height_eq.symm
      rw [merklePairs, hheight]
      rfl
    have hpairs' : { paymentBlock with nNonce := 1 }.merklePairs mixingHash = _ := hpairs
    apply (eq_vtx_of_hashMerkleRoot_eq mixingHash).1 merkleEnv merkleEnv paymentBlock
      { paymentBlock with nNonce := 1 } true true true true (snd_buildMerkleTree mixingHash)
      (snd_buildMerkleTree mixingHash) _ _ _ (checkBlock_paymentBlock (by decide +kernel))
      (checkBlock_paymentBlock (by decide +kernel)) rfl
    · have hne : firstCoinBase.getHash mixingHash ≠ payment.getHash mixingHash := by
        decide +kernel
      have hmem : ∀ tx ∈ paymentBlock.vtx ++ paymentBlock.vtx,
          tx = firstCoinBase ∨ tx = payment := by
        intro tx htx
        rw [List.mem_append, or_self] at htx
        simpa only [paymentBlock, List.mem_cons, List.not_mem_nil, or_false] using htx
      rintro tx htx tx' htx' heq
      rcases hmem tx htx with rfl | rfl <;> rcases hmem tx' htx' with rfl | rfl
      · rfl
      · exact absurd heq hne
      · exact absurd heq.symm hne
      · rfl
    · rw [hpairs, hpairs']
      rintro p hp q hq -
      simp at hp hq
      rw [hp, hq]
    · rw [hpairs, hpairs']
      rintro p hp
      simp only [List.mem_append, List.mem_singleton, or_self] at hp
      rw [hp]
      decide +kernel
  · exact (eq_vtx_of_hashMerkleRoot_eq mixingHash).2 merkleEnv paymentBlock _ [payment] true true
      true (List.cons_ne_nil _ _) ⟨[firstCoinBase], rfl⟩ rfl

/-! ## What a branch proves -/

/-- The pairs of hashes that the loop of `CheckMerkleBranch` hashes. -/
def checkedPairs (hash : Bytes → UInt256) :
    List UInt256 → ℤ → UInt256 → List (UInt256 × UInt256)
  | [], _, _ => []
  | otherside :: vMerkleBranch, nIndex, h =>
    let p := if nIndex % 2 = 1 then (otherside, h) else (h, otherside)
    p :: checkedPairs hash vMerkleBranch (nIndex / 2) (merkleNode hash p.1 p.2)

/-- If the loop of `CheckMerkleBranch` ends at the root of a tree then it started in the tree. -/
lemma mem_levels_of_checkLoop {k : ℕ} {l vMerkleBranch : List UInt256} {root h : UInt256}
    {nIndex : ℤ} {S : Set (UInt256 × UInt256)} (hclimbs : Climbs (merkleNode hash) k l root)
    (hinj : Set.InjOn (fun p => merkleNode hash p.1 p.2) S)
    (hS : ∀ p ∈ hashed (merkleNode hash) k l, p ∈ S)
    (hpairs : ∀ p ∈ checkedPairs hash vMerkleBranch nIndex h,
      p ∈ S ∧ merkleNode hash p.1 p.2 ∉ l)
    (hroot : checkLoop hash vMerkleBranch nIndex h = root) : h ∈ levels (merkleNode hash) k l := by
  induction vMerkleBranch generalizing nIndex h with
  | nil =>
    rw [checkLoop] at hroot
    rw [hroot]
    exact List.mem_of_getLast? hclimbs.getLast?_levels
  | cons otherside vMerkleBranch ih =>
    rw [checkedPairs, List.forall_mem_cons] at hpairs
    obtain ⟨⟨hp, hleaf⟩, hrest⟩ := hpairs
    rw [checkLoop] at hroot
    split_ifs at hp hleaf hrest hroot
    · exact (mem_levels_of_node hinj hS hp hleaf (ih hrest hroot)).2
    · exact (mem_levels_of_node hinj hS hp hleaf (ih hrest hroot)).1

/-- A branch, of whatever length, from a hash to the root of a block proves that the hash is that of a
transaction of the block, as far as no two pairs of hashes have the same node, and neither the hash
nor that of a transaction of the block is a node. -/
theorem mem_txHashes_of_checkMerkleBranch {vMerkleTree vMerkleBranch : List UInt256}
    {root h : UInt256} {nIndex : ℤ} (hne : block.vtx ≠ [])
    (hbuild : block.buildMerkleTree hash = .ok (vMerkleTree, root))
    (hinj : Set.InjOn (fun p => merkleNode hash p.1 p.2)
      {p | p ∈ block.merklePairs hash ++ checkedPairs hash vMerkleBranch nIndex h})
    (hleaf : ∀ p ∈ checkedPairs hash vMerkleBranch nIndex h,
      merkleNode hash p.1 p.2 ∉ block.txHashes hash)
    (hnode : ∀ p ∈ block.merklePairs hash, merkleNode hash p.1 p.2 ≠ h) (hindex : nIndex ≠ -1)
    (hcheck : checkMerkleBranch hash h vMerkleBranch nIndex = root) :
    h ∈ block.txHashes hash := by
  have hhashes : block.txHashes hash ≠ [] := fun hnil => hne (List.map_eq_nil_iff.mp hnil)
  obtain ⟨k, root', hclimbs⟩ := exists_climbs (merkleNode hash) hhashes
  have hheight := hclimbs.height_eq
  rw [length_txHashes] at hheight
  rw [buildMerkleTree_eq hclimbs, Except.ok.injEq, Prod.mk.injEq] at hbuild
  rw [checkMerkleBranch, if_neg hindex] at hcheck
  have hpairs : block.merklePairs hash = hashed (merkleNode hash) k (block.txHashes hash) := by
    rw [merklePairs, ← hheight]
  have hmem := mem_levels_of_checkLoop hclimbs hinj
    (fun p hp => List.mem_append_left _ (hpairs ▸ hp))
    (fun p hp => ⟨List.mem_append_right _ hp, hleaf p hp⟩) (hcheck.trans hbuild.2.symm)
  rcases mem_or_of_mem_levels hmem with hin | ⟨p, hp, heq⟩
  · exact hin
  · exact absurd heq (hnode p (hpairs ▸ hp))

/-- The branch of the payment is the hash of the coinbase. -/
theorem mem_txHashes_paymentBlock :
    payment.getHash mixingHash ∈ paymentBlock.txHashes mixingHash := by
  have hclimbs := Climbs.pair (merkleNode mixingHash) (firstCoinBase.getHash mixingHash)
    (payment.getHash mixingHash)
  have hbuild : paymentBlock.buildMerkleTree mixingHash = _ := buildMerkleTree_eq hclimbs
  have hpairs : paymentBlock.merklePairs mixingHash =
      [(firstCoinBase.getHash mixingHash, payment.getHash mixingHash)] := by
    have hheight : Nat.clog 2 paymentBlock.vtx.length = 1 := hclimbs.height_eq.symm
    rw [merklePairs, hheight]
    rfl
  refine mem_txHashes_of_checkMerkleBranch (List.cons_ne_nil _ _) hbuild ?_ ?_ ?_
    (by decide : (1 : ℤ) ≠ -1)
    (rfl : checkMerkleBranch mixingHash _ [firstCoinBase.getHash mixingHash] 1 = _)
  · rw [hpairs]
    intro p hp q hq _
    have hsame : ∀ p ∈ [(firstCoinBase.getHash mixingHash, payment.getHash mixingHash)] ++
        checkedPairs mixingHash [firstCoinBase.getHash mixingHash] 1 (payment.getHash mixingHash),
        p = (firstCoinBase.getHash mixingHash, payment.getHash mixingHash) := by
      simp [checkedPairs]
    rw [hsame p hp, hsame q hq]
  · exact List.forall_mem_singleton.mpr (by decide +kernel)
  · rw [hpairs]
    exact List.forall_mem_singleton.mpr (by decide +kernel)

end CBlock

end HyperStake
