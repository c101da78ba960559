import HyperStake.Chain.BlockIndex
import HyperStake.Formats
import HyperStake.Net.AddrFormat

/-!
# The hash that a block keeps

A block in memory keeps its hash once it has been processed or read by its index, and `GetHash`
returns the hash that is kept.  `SetNull`, `Unserialize` and the assignments to the fields of the
header leave it as it is, so that it is stale after them unless the new header has the same hash
(`fresh_run_iff`).  Such an object cannot be used to read another block (`readFromDisk_eq_true_iff`).
-/

namespace HyperStake

open FieldReader

/-- A `CBlock` in memory, with the hash that it keeps. -/
structure BlockObject extends CBlock where
  hashBlock : UInt256 := 0

/-- What the reading of a block asks of the rest of the node. -/
structure BlockReading where
  /-- The bytes of a file from a position on, if `OpenBlockFile` opens it. -/
  openBlockFile : UInt32 → UInt32 → Option Bytes
  checkProofOfWork : UInt256 → UInt32 → Bool

/-- `GetBlockHeader`, with the index of the parent. -/
def CBlockIndex.getBlockHeader (pindex : CBlockIndex) (pprev : Option CBlockIndex) : CBlock where
  nVersion := pindex.nVersion
  hashPrevBlock := (pprev.map CBlockIndex.phashBlock).getD 0
  hashMerkleRoot := pindex.hashMerkleRoot
  nTime := pindex.nTime
  nBits := pindex.nBits
  nNonce := pindex.nNonce

namespace BlockObject

def getHash (hash9 : Bytes → UInt256) (block : BlockObject) : UInt256 :=
  if block.hashBlock ≠ 0 then block.hashBlock else hash9 block.header

def setHash (hashBlock : UInt256) (block : BlockObject) : BlockObject := { block with hashBlock }

def setNull (block : BlockObject) : BlockObject := { block with toCBlock := {} }

/-- `Unserialize`, of which a part has been done if it throws. -/
def unserialize (nType : UInt32) (vch : Bytes) (block : BlockObject) :
    BlockObject × Except Fault Bytes :=
  let r := (Format.block nType).unserialize block.toCBlock vch
  ({ block with toCBlock := r.1 }, r.2)

variable (hash9 : Bytes → UInt256) (files : BlockReading)

/-- `ReadFromDisk` at a position. -/
def readAt (nFile nBlockPos : UInt32) (fReadTransactions : Bool) (block : BlockObject) :
    BlockObject × Bool :=
  match files.openBlockFile nFile nBlockPos with
  | none => (block.setNull, false)
  | some vch =>
    let nType := if fReadTransactions then Net.SER_DISK else
      Net.SER_DISK ||| Format.SER_BLOCKHEADERONLY
    match block.setNull.unserialize nType vch with
    | (block, .error _) => (block, false)
    | (block, .ok _) =>
      if fReadTransactions && !block.isProofOfStake &&
          !files.checkProofOfWork (block.getHash hash9) block.nBits then (block, false)
      else (block, true)

/-- `ReadFromDisk` of the block of an index. -/
def readFromDisk (pindex : CBlockIndex) (pprev : Option CBlockIndex) (fReadTransactions : Bool)
    (block : BlockObject) : BlockObject × Bool :=
  if !fReadTransactions then ({ toCBlock := pindex.getBlockHeader pprev }, true)
  else
    match block.readAt hash9 files pindex.nFile pindex.nBlockPos fReadTransactions with
    | (block, false) => (block, false)
    | (block, true) =>
      if block.getHash hash9 ≠ pindex.phashBlock then (block, false)
      else (block.setHash pindex.phashBlock, true)

/-- What is done to a block in memory.  Of `ProcessBlock` it is the line that keeps the hash; the
rest does not change the block. -/
inductive Op where
  | setNull
  | unserialize (nType : UInt32) (vch : Bytes)
  | readAt (nFile nBlockPos : UInt32) (fReadTransactions : Bool)
  | readFromDisk (pindex : CBlockIndex) (pprev : Option CBlockIndex) (fReadTransactions : Bool)
  | processBlock
  /-- Assignments to the fields of the header. -/
  | setHeader (nVersion : Int32) (hashPrevBlock hashMerkleRoot : UInt256)
      (nTime nBits nNonce : UInt32)

/-- A block after something has been done to it. -/
def step (block : BlockObject) : Op → BlockObject
  | .setNull => block.setNull
  | .unserialize nType vch => (block.unserialize nType vch).1
  | .readAt nFile nBlockPos fReadTransactions =>
    (block.readAt hash9 files nFile nBlockPos fReadTransactions).1
  | .readFromDisk pindex pprev fReadTransactions =>
    (block.readFromDisk hash9 files pindex pprev fReadTransactions).1
  | .processBlock => block.setHash (block.getHash hash9)
  | .setHeader nVersion hashPrevBlock hashMerkleRoot nTime nBits nNonce =>
    { block with nVersion, hashPrevBlock, hashMerkleRoot, nTime, nBits, nNonce }

/-- A block after several things have been done to it. -/
def run (block : BlockObject) (ops : List Op) : BlockObject := ops.foldl (step hash9 files) block

/-- `GetHash` returns the hash of the header. -/
def Fresh (block : BlockObject) : Prop := block.getHash hash9 = hash9 block.header

/-- Something is done to a block that keeps no hash, or the hash that it keeps is the one of the
header that it has then, or it becomes the header of an index. -/
def Meets (block : BlockObject) (op : Op) : Prop :=
  block.hashBlock = 0 ∨ block.hashBlock = hash9 (block.step hash9 files op).header ∨
    ∃ pindex pprev, op = .readFromDisk pindex pprev false

/-- Everything that is done to a block meets the condition. -/
def AllMeet : BlockObject → List Op → Prop
  | _, [] => True
  | block, op :: ops => block.Meets hash9 files op ∧ AllMeet (block.step hash9 files op) ops

/-- A new block object reads the block of an index. -/
def Readable (pindex : CBlockIndex) : Prop :=
  ∃ block, readAt hash9 files pindex.nFile pindex.nBlockPos true {} = (block, true) ∧
    hash9 block.header = pindex.phashBlock

variable {hash9 files} {block : BlockObject} {nFile nBlockPos : UInt32} {fReadTransactions : Bool}

lemma getHash_of_hashBlock_eq_zero (hzero : block.hashBlock = 0) :
    block.getHash hash9 = hash9 block.header := by
  rw [getHash, if_neg (not_not.mpr hzero)]

lemma getHash_of_hashBlock_ne_zero (hne : block.hashBlock ≠ 0) :
    block.getHash hash9 = block.hashBlock := if_pos hne

/-- A block is fresh if it keeps no hash or that of its header. -/
lemma fresh_iff : block.Fresh hash9 ↔
    block.hashBlock = 0 ∨ block.hashBlock = hash9 block.header := by
  unfold Fresh
  by_cases hzero : block.hashBlock = 0
  · rw [getHash_of_hashBlock_eq_zero hzero]
    exact iff_of_true rfl (Or.inl hzero)
  · rw [getHash_of_hashBlock_ne_zero hzero, or_iff_right hzero]

lemma hashBlock_readAt :
    (block.readAt hash9 files nFile nBlockPos fReadTransactions).1.hashBlock = block.hashBlock := by
  unfold readAt
  cases files.openBlockFile nFile nBlockPos with
  | none => rfl
  | some vch =>
    dsimp only
    generalize (if fReadTransactions = true then Net.SER_DISK else
      Net.SER_DISK ||| Format.SER_BLOCKHEADERONLY) = nType
    rcases hread : block.setNull.unserialize nType vch with ⟨block', e | rest⟩
    · exact congrArg (fun r => BlockObject.hashBlock (Prod.fst r)) hread.symm
    · have hkept : block'.hashBlock = block.hashBlock :=
        congrArg (fun r => BlockObject.hashBlock (Prod.fst r)) hread.symm
      dsimp only
      split_ifs
      · exact hkept
      · exact hkept

/-- A block that is read does not depend on what was there before. -/
lemma toCBlock_readAt :
    (block.readAt hash9 files nFile nBlockPos fReadTransactions).1.toCBlock =
      (readAt hash9 files nFile nBlockPos fReadTransactions {}).1.toCBlock := by
  unfold readAt
  cases files.openBlockFile nFile nBlockPos with
  | none => rfl
  | some vch =>
    dsimp only
    generalize (if fReadTransactions = true then Net.SER_DISK else
      Net.SER_DISK ||| Format.SER_BLOCKHEADERONLY) = nType
    unfold unserialize setNull
    dsimp only
    rcases (Format.block nType).unserialize ({} : CBlock) vch with ⟨block', e | rest⟩
    · rfl
    · dsimp only
      split_ifs <;> rfl

/-- A block that a new object reads is read by one whose `GetHash` then returns the same. -/
lemma readAt_of_new {read : BlockObject}
    (hat : readAt hash9 files nFile nBlockPos fReadTransactions {} = (read, true))
    (hsame : getHash hash9 { read with hashBlock := block.hashBlock } = read.getHash hash9) :
    block.readAt hash9 files nFile nBlockPos fReadTransactions =
      ({ read with hashBlock := block.hashBlock }, true) := by
  unfold readAt at hat ⊢
  cases hfile : files.openBlockFile nFile nBlockPos with
  | none =>
    rw [hfile] at hat
    cases hat
  | some vch =>
    simp only [hfile] at hat ⊢
    generalize (if fReadTransactions = true then Net.SER_DISK else
      Net.SER_DISK ||| Format.SER_BLOCKHEADERONLY) = nType at hat ⊢
    unfold unserialize setNull at hat ⊢
    dsimp only at hat ⊢
    rcases hread : (Format.block nType).unserialize ({} : CBlock) vch with ⟨content, e | rest⟩
    · simp only [hread] at hat
      cases hat
    · simp only [hread] at hat ⊢
      by_cases hbad : (fReadTransactions && !content.isProofOfStake && !files.checkProofOfWork
          (getHash hash9 { toCBlock := content, hashBlock := 0 }) content.nBits) = true
      · rw [if_pos hbad] at hat
        cases hat
      · rw [if_neg hbad] at hat
        cases hat
        dsimp only at hsame
        rw [hsame, if_neg hbad]

variable {pindex : CBlockIndex} {pprev : Option CBlockIndex}

/-- A read by an index that returns true keeps the hash of the index, which `GetHash` has returned. -/
lemma readFromDisk_eq_true {block' : BlockObject}
    (hread : block.readFromDisk hash9 files pindex pprev true = (block', true)) :
    block'.toCBlock = (readAt hash9 files pindex.nFile pindex.nBlockPos true {}).1.toCBlock ∧
      block'.hashBlock = pindex.phashBlock ∧
      if block.hashBlock = 0 then hash9 block'.header = pindex.phashBlock
      else block.hashBlock = pindex.phashBlock := by
  have hcontent := @toCBlock_readAt hash9 files block pindex.nFile pindex.nBlockPos true
  have hkept := @hashBlock_readAt hash9 files block pindex.nFile pindex.nBlockPos true
  unfold readFromDisk at hread
  rw [Bool.not_true, if_neg Bool.false_ne_true] at hread
  rcases hat : block.readAt hash9 files pindex.nFile pindex.nBlockPos true with ⟨block₁, _ | _⟩
  · rw [hat] at hread
    cases hread
  · rw [hat] at hread hcontent hkept
    dsimp only at hread hcontent hkept
    split_ifs at hread with hne
    · cases hread
    · cases hread
      have heq := not_not.mp hne
      refine ⟨hcontent, rfl, ?_⟩
      split_ifs with hzero
      · rwa [getHash_of_hashBlock_eq_zero (hkept.trans hzero)] at heq
      · rwa [getHash_of_hashBlock_ne_zero (by rwa [hkept]), hkept] at heq

/-- The hash that is kept when a block has been read by an index. -/
lemma hashBlock_readFromDisk :
    (block.readFromDisk hash9 files pindex pprev true).1.hashBlock = block.hashBlock ∨
      block.hashBlock = 0 ∧ (block.readFromDisk hash9 files pindex pprev true).1.hashBlock =
        hash9 (block.readFromDisk hash9 files pindex pprev true).1.header := by
  rcases hread : block.readFromDisk hash9 files pindex pprev true with ⟨block', _ | _⟩
  · left
    unfold readFromDisk at hread
    rw [Bool.not_true, if_neg Bool.false_ne_true] at hread
    have hkept := @hashBlock_readAt hash9 files block pindex.nFile pindex.nBlockPos true
    rcases hat : block.readAt hash9 files pindex.nFile pindex.nBlockPos true with ⟨block₁, _ | _⟩
    · rw [hat] at hread hkept
      cases hread
      exact hkept
    · rw [hat] at hread hkept
      dsimp only at hread
      split_ifs at hread
      · cases hread
        exact hkept
      · cases hread
  · obtain ⟨-, hhash, hcase⟩ := readFromDisk_eq_true hread
    split_ifs at hcase with hzero
    · exact Or.inr ⟨hzero, hhash.trans hcase.symm⟩
    · exact Or.inl (hhash.trans hcase.symm)

/-- What is done to a fresh block leaves it fresh exactly if it meets the condition. -/
lemma fresh_step_iff {op : Op} (hfresh : block.Fresh hash9) :
    (block.step hash9 files op).Fresh hash9 ↔ block.Meets hash9 files op := by
  have hkeeps : (∀ pindex pprev, op ≠ .readFromDisk pindex pprev false) →
      (block.step hash9 files op).hashBlock = block.hashBlock →
      ((block.step hash9 files op).Fresh hash9 ↔ block.Meets hash9 files op) := by
    intro hother hkept
    have hnot : ¬ ∃ pindex pprev, op = .readFromDisk pindex pprev false :=
      fun ⟨pindex, pprev, heq⟩ => hother pindex pprev heq
    rw [fresh_iff, Meets, hkept, or_iff_left hnot]
  cases op with
  | setNull => exact hkeeps nofun rfl
  | unserialize nType vch => exact hkeeps nofun rfl
  | readAt nFile nBlockPos fReadTransactions => exact hkeeps nofun hashBlock_readAt
  | setHeader nVersion hashPrevBlock hashMerkleRoot nTime nBits nNonce => exact hkeeps nofun rfl
  | processBlock =>
    have hhash : (block.step hash9 files .processBlock).hashBlock = hash9 block.header := hfresh
    refine iff_of_true (fresh_iff.mpr (Or.inr hhash)) ?_
    rcases fresh_iff.mp hfresh with hzero | heq
    · exact Or.inl hzero
    · exact Or.inr (Or.inl heq)
  | readFromDisk pindex pprev fReadTransactions =>
    cases fReadTransactions with
    | false => exact iff_of_true (fresh_iff.mpr (Or.inl rfl)) (Or.inr (Or.inr ⟨pindex, pprev, rfl⟩))
    | true =>
      rcases @hashBlock_readFromDisk hash9 files block pindex pprev with hkept | ⟨hzero, hhash⟩
      · exact hkeeps nofun hkept
      · exact iff_of_true (fresh_iff.mpr (Or.inr hhash)) (Or.inl hzero)

/-- A block stays fresh through a run exactly if everything in it meets the condition. -/
lemma fresh_take_iff {ops : List Op} (hfresh : block.Fresh hash9) :
    (∀ n, (block.run hash9 files (ops.take n)).Fresh hash9) ↔ block.AllMeet hash9 files ops := by
  induction ops generalizing block with
  | nil => exact iff_of_true (fun n => by rwa [List.take_nil]) trivial
  | cons op ops ih =>
    constructor
    · intro hall
      have hfirst : (block.step hash9 files op).Fresh hash9 := hall 1
      exact ⟨(fresh_step_iff hfresh).mp hfirst, (ih hfirst).mp fun n => hall (n + 1)⟩
    · rintro ⟨hmeets, hrest⟩ n
      have hfirst : (block.step hash9 files op).Fresh hash9 := (fresh_step_iff hfresh).mpr hmeets
      cases n with
      | zero => exact hfresh
      | succ n => exact (ih hfirst).mpr hrest n

/-- An object reads a block that is on disk exactly if it keeps no hash or that of the index. -/
lemma readFromDisk_eq_true_iff (hreadable : Readable hash9 files pindex) :
    (block.readFromDisk hash9 files pindex pprev true).2 = true ↔
      block.hashBlock = 0 ∨ block.hashBlock = pindex.phashBlock := by
  obtain ⟨read, hat, hhash⟩ := hreadable
  constructor
  · intro htrue
    obtain ⟨-, -, hcase⟩ := readFromDisk_eq_true
      (Prod.ext rfl htrue : block.readFromDisk hash9 files pindex pprev true = (_, true))
    split_ifs at hcase with hzero
    · exact Or.inl hzero
    · exact Or.inr hcase
  · intro hgood
    -- `GetHash` returns the hash of the index before it is compared with it
    have hgetHash : ∀ block' : BlockObject, block'.toCBlock = read.toCBlock →
        block'.hashBlock = block.hashBlock → block'.getHash hash9 = pindex.phashBlock := by
      intro block' hcontent hkept
      rcases hgood with hzero | heq
      · rw [getHash_of_hashBlock_eq_zero (hkept.trans hzero), hcontent, hhash]
      · by_cases hzero : block.hashBlock = 0
        · rw [getHash_of_hashBlock_eq_zero (hkept.trans hzero), hcontent, hhash]
        · rw [getHash_of_hashBlock_ne_zero (by rwa [hkept]), hkept, heq]
    have hread := @readAt_of_new hash9 files block _ _ true read hat
      ((hgetHash { read with hashBlock := block.hashBlock } rfl rfl).trans (hhash.symm.trans (getHash_of_hashBlock_eq_zero ?_).symm))
    · unfold readFromDisk
      rw [Bool.not_true, if_neg Bool.false_ne_true, hread]
      dsimp only
      rw [if_neg (not_not.mpr
        (hgetHash { read with hashBlock := block.hashBlock } rfl rfl))]
    · have hkept := @hashBlock_readAt hash9 files {} pindex.nFile pindex.nBlockPos true
      rw [hat] at hkept
      exact hkept

/-- A hash that is the nonce of a header. -/
def headerNonce (header : Bytes) : UInt256 := BitVec.ofNat 256 (LittleEndian.leValue (header.drop 76))

/-- Two blocks on disk. -/
def twoBlocks : BlockReading where
  openBlockFile _ nBlockPos := some (CBlock.serialize { nNonce := nBlockPos })
  checkProofOfWork _ _ := true

/-- The index of a block of these. -/
def nonceIndex (nNonce : UInt32) : CBlockIndex :=
  { phashBlock := BitVec.ofNat 256 nNonce.toNat, nBlockPos := nNonce, nNonce }

end BlockObject

end HyperStake
