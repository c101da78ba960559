import HyperStake.Chain.OrphanBlocks
import HyperStake.Chain.Reload
import HyperStake.Chain.SetBestChain

/-!
# What a failed call leaves behind

`ConnectBlock` registers the proposals of a block and stores its tally before it makes its last
checks, and `Reorganize` connects one block after the other.  When one of them fails, the database
transaction is aborted, but this puts back the transaction database only.

So the registry and the tallies are what they were exactly if there was nothing to change
(`unchanged_iff`): every proposal that a block pays for has been registered before
(`Registry.Registered`), and its index already has the tally that the votes give.
-/

namespace HyperStake

open WorkQueue

/-! ## Proposals that are registered already -/

namespace Registry

/-- A proposal is registered already: the hash is stored for the transaction, and, if the database
takes the record, the record is there and the manager holds the proposal or turns it away. -/
structure Registered (hash : Bytes → UInt256) (fWrite : Bool) (txid : UInt256)
    (proposal : CVoteProposal) (r : Registry) : Prop where
  stored : r.mapProposals[txid]? = some (proposal.getHash hash)
  recorded : fWrite = true →
    r.voteDB[CVoteDB.key txid]? = some (proposal.serialize CLIENT_VERSION)
  scheduled : fWrite = true → proposal.getHash hash ∈ r.proposalManager.mapProposalData ∨
    (r.proposalManager.add hash proposal).1 = false

variable {hash : Bytes → UInt256} {fWrite fWrite' : Bool} {txid txid' : UInt256}
  {proposal proposal' : CVoteProposal} {r r' : Registry}

/-- Inserting what is there already. -/
lemma insert_eq_self_iff {κ β : Type} [Ord κ] [Std.TransOrd κ] [Std.LawfulEqOrd κ] [DecidableEq κ]
    {m : Std.ExtTreeMap κ β} {k : κ} {v : β} : m.insert k v = m ↔ m[k]? = some v := by
  constructor
  · intro heq
    rw [← heq]
    exact Std.ExtTreeMap.getElem?_insert_self
  · intro hget
    refine Std.ExtTreeMap.ext_getElem? fun k' => ?_
    rw [MapLoop.getElem?_insert_eq]
    split_ifs with hk
    · rw [← hk, hget]
    · rfl

/-- Managers that store the same data are equal. -/
lemma manager_ext {m m' : CVoteProposalManager} (h : m.mapProposalData = m'.mapProposalData) :
    m = m' := by
  cases m
  cases m'
  cases h
  rfl

/-- `Add` changes nothing exactly if the proposal is held, or is turned away. -/
lemma add_eq_self_iff {m : CVoteProposalManager} : (m.add hash proposal).2 = m ↔
    proposal.getHash hash ∈ m.mapProposalData ∨ (m.add hash proposal).1 = false := by
  constructor
  · intro heq
    by_cases hadd : (m.add hash proposal).1 = true
    · refine Or.inl ?_
      have hget := CVoteProposalManager.getElem?_add hash proposal m (proposal.getHash hash)
      rw [heq] at hget
      rw [Std.ExtTreeMap.mem_iff_isSome_getElem?, Option.isSome_iff_ne_none]
      intro hnone
      rw [if_pos ⟨hadd, rfl, hnone⟩, hnone] at hget
      cases hget
    · exact Or.inr (Bool.eq_false_iff.mpr hadd)
  · rintro (hheld | hrejected)
    · refine manager_ext (Std.ExtTreeMap.ext_getElem? fun h => ?_)
      rw [CVoteProposalManager.getElem?_add]
      refine if_neg ?_
      rintro ⟨-, rfl, hnone⟩
      rw [Std.ExtTreeMap.mem_iff_isSome_getElem?, hnone] at hheld
      cases hheld
    · exact CVoteProposalManager.add_of_rejected hrejected

/-- Registering a proposal changes nothing exactly if it is registered already. -/
lemma register_eq_self_iff : r.register hash fWrite txid proposal = r ↔
    r.Registered hash fWrite txid proposal := by
  constructor
  · intro heq
    have hstored := congrArg Registry.mapProposals heq
    have hrecorded := congrArg Registry.voteDB heq
    have hscheduled := congrArg Registry.proposalManager heq
    cases fWrite with
    | false => exact ⟨insert_eq_self_iff.mp hstored, nofun, nofun⟩
    | true =>
      exact ⟨insert_eq_self_iff.mp hstored, fun _ => insert_eq_self_iff.mp hrecorded,
        fun _ => add_eq_self_iff.mp hscheduled⟩
  · rintro ⟨hstored, hrecorded, hscheduled⟩
    obtain ⟨mapProposals, proposalManager, voteDB⟩ := r
    cases fWrite with
    | false =>
      have hmap : mapProposals.insert txid (proposal.getHash hash) = mapProposals :=
        insert_eq_self_iff.mpr hstored
      simp only [register, Bool.false_eq_true, if_false, hmap]
    | true =>
      have hmap : mapProposals.insert txid (proposal.getHash hash) = mapProposals :=
        insert_eq_self_iff.mpr hstored
      have hdb : voteDB.insert (CVoteDB.key txid) (proposal.serialize CLIENT_VERSION) = voteDB :=
        insert_eq_self_iff.mpr (hrecorded rfl)
      have hmanager : (proposalManager.add hash proposal).2 = proposalManager :=
        add_eq_self_iff.mpr (hscheduled rfl)
      simp only [register, CVoteDB.writeProposal, if_true, hmap, hdb, hmanager]

/-- Registering a proposal registers it. -/
lemma registered_register (r : Registry) :
    (r.register hash fWrite txid proposal).Registered hash fWrite txid proposal := by
  cases fWrite with
  | false => exact ⟨Std.ExtTreeMap.getElem?_insert_self, nofun, nofun⟩
  | true =>
    refine ⟨Std.ExtTreeMap.getElem?_insert_self, fun _ => Std.ExtTreeMap.getElem?_insert_self,
      fun _ => ?_⟩
    change proposal.getHash hash ∈ (r.proposalManager.add hash proposal).2.mapProposalData ∨
      ((r.proposalManager.add hash proposal).2.add hash proposal).1 = false
    by_cases hadd : (r.proposalManager.add hash proposal).1 = true
    · refine Or.inl ?_
      rw [Std.ExtTreeMap.mem_iff_isSome_getElem?, CVoteProposalManager.getElem?_add]
      split_ifs with hnew
      · rfl
      · rw [Option.isSome_iff_ne_none]
        exact fun hnone => hnew ⟨hadd, rfl, hnone⟩
    · have hrejected := Bool.eq_false_iff.mpr hadd
      rw [CVoteProposalManager.add_of_rejected hrejected]
      exact Or.inr hrejected

/-- What the manager holds stays when a proposal is added. -/
lemma getElem?_add_of_some {m : CVoteProposalManager} {h : UInt256} {data : CProposalMetaData}
    (hget : m.mapProposalData[h]? = some data) :
    (m.add hash proposal).2.mapProposalData[h]? = some data := by
  rw [CVoteProposalManager.getElem?_add]
  refine (if_neg ?_).trans hget
  rintro ⟨-, -, hnone⟩
  rw [hnone] at hget
  cases hget

/-- A registered proposal stays registered when another one is registered, or when the same one is
registered again. -/
lemma Registered.register (h : r.Registered hash fWrite txid proposal)
    (hsame : txid' = txid → proposal' = proposal) :
    (r.register hash fWrite' txid' proposal').Registered hash fWrite txid proposal := by
  have hstored : (r.mapProposals.insert txid' (proposal'.getHash hash))[txid]? =
      some (proposal.getHash hash) := by
    rw [MapLoop.getElem?_insert_eq]
    split_ifs with heq
    · rw [hsame heq]
    · exact h.stored
  cases fWrite' with
  | false => exact ⟨hstored, h.recorded, h.scheduled⟩
  | true =>
    refine ⟨hstored, fun hwrite => ?_, fun hwrite => ?_⟩
    · change (r.voteDB.insert (CVoteDB.key txid') (proposal'.serialize CLIENT_VERSION))[
        CVoteDB.key txid]? = _
      rw [MapLoop.getElem?_insert_eq]
      split_ifs with hkey
      · rw [hsame (CVoteDB.key_injective hkey)]
      · exact h.recorded hwrite
    · rcases h.scheduled hwrite with hheld | hrejected
      · obtain ⟨data, hdata⟩ := MapLoop.mem_iff.mp hheld
        exact Or.inl (MapLoop.mem_iff.mpr ⟨data, getElem?_add_of_some hdata⟩)
      · -- what it conflicts with is still there
        refine Or.inr (Bool.eq_false_iff.mpr fun hadd => ?_)
        rw [Bool.eq_false_iff, ne_eq, CVoteProposalManager.add_fst_iff] at hrejected
        rw [CVoteProposalManager.add_fst_iff] at hadd
        exact hrejected fun k data hget => hadd k data (getElem?_add_of_some hget)

/-- A registry from which another one is reached by registering proposals, of which one transaction
has only one. -/
inductive Grows (hash : Bytes → UInt256) (proposalOf : UInt256 → CVoteProposal) :
    Registry → Registry → Prop
  | refl (r : Registry) : Grows hash proposalOf r r
  | register {r r' : Registry} (fWrite : Bool) (txid : UInt256) : Grows hash proposalOf r r' →
      Grows hash proposalOf r (r'.register hash fWrite txid (proposalOf txid))

variable {proposalOf : UInt256 → CVoteProposal}

namespace Grows

lemma trans {r₁ r₂ r₃ : Registry} (h : Grows hash proposalOf r₁ r₂)
    (h' : Grows hash proposalOf r₂ r₃) : Grows hash proposalOf r₁ r₃ := by
  induction h' with
  | refl => exact h
  | register fWrite txid _ ih => exact ih.register fWrite txid

/-- A proposal that is registered stays registered. -/
lemma registered (h : Grows hash proposalOf r r')
    (hreg : r.Registered hash fWrite txid (proposalOf txid)) :
    r'.Registered hash fWrite txid (proposalOf txid) := by
  induction h with
  | refl => exact hreg
  | register fWrite' txid' _ ih => exact ih.register fun heq => by rw [heq]

/-- A registry that grows and becomes what it was does not change on the way. -/
lemma antisymm (h : Grows hash proposalOf r r') (h' : Grows hash proposalOf r' r) : r' = r := by
  induction h with
  | refl => rfl
  | @register r' fWrite txid hgrows ih =>
    have hback : Grows hash proposalOf r' r := by
      have hstep : Grows hash proposalOf r' (r'.register hash fWrite txid (proposalOf txid)) :=
        (Grows.refl r').register fWrite txid
      exact hstep.trans h'
    have heq := ih hback
    rw [heq] at h' ⊢
    exact register_eq_self_iff.mpr (h'.registered (registered_register r))

/-- Registering some proposals. -/
lemma foldl {registered : List (UInt256 × CVoteProposal)} {fWrite : UInt256 → Bool}
    (hof : ∀ p ∈ registered, p.2 = proposalOf p.1) (r : Registry) : Grows hash proposalOf r
      (registered.foldl (fun r p => r.register hash (fWrite p.1) p.1 p.2) r) := by
  refine List.foldlRecOn _ _ (Grows.refl r) fun r' hr' p hp => ?_
  rw [hof p hp]
  exact hr'.register (fWrite p.1) p.1

end Grows

/-- Registering some proposals changes nothing exactly if they are registered already. -/
lemma foldl_register_eq_self_iff {registered : List (UInt256 × CVoteProposal)}
    {fWrite : UInt256 → Bool} (hof : ∀ p ∈ registered, p.2 = proposalOf p.1) :
    registered.foldl (fun r p => r.register hash (fWrite p.1) p.1 p.2) r = r ↔
      ∀ p ∈ registered, r.Registered hash (fWrite p.1) p.1 p.2 := by
  induction registered with
  | nil => exact iff_of_true rfl (by simp)
  | cons p registered ih =>
    obtain ⟨hp, hof⟩ := List.forall_mem_cons.mp hof
    rw [List.forall_mem_cons, List.foldl_cons, ← register_eq_self_iff]
    constructor
    · intro heq
      have hgrows : Grows hash proposalOf (r.register hash (fWrite p.1) p.1 p.2)
          (registered.foldl (fun r p => r.register hash (fWrite p.1) p.1 p.2)
            (r.register hash (fWrite p.1) p.1 p.2)) := .foldl hof _
      rw [heq] at hgrows
      have hfirst : r.register hash (fWrite p.1) p.1 p.2 = r := by
        have hstep : Grows hash proposalOf r (r.register hash (fWrite p.1) p.1 (proposalOf p.1)) :=
          (Grows.refl r).register (fWrite p.1) p.1
        rw [← hp] at hstep
        exact hstep.antisymm hgrows
      rw [hfirst] at heq
      exact ⟨hfirst, (ih hof).mp heq⟩
    · rintro ⟨hfirst, hrest⟩
      rw [hfirst]
      exact (ih hof).mpr hrest

/-- A transaction has no other proposal than the one for its hash. -/
def Decodes (hash : Bytes → UInt256) (proposalOf : UInt256 → CVoteProposal) (tx : CTransaction) :
    Prop :=
  ∀ proposal, proposalFromTransaction tx {} = .ok (true, proposal) →
    proposal = proposalOf (tx.getHash hash)

/-- If the hashes of transactions do not collide then a transaction has only one proposal. -/
lemma exists_proposalOf {known : Set CTransaction}
    (hinj : Set.InjOn (CTransaction.getHash hash) known) :
    ∃ proposalOf, ∀ tx ∈ known, Decodes hash proposalOf tx := by
  have hnonempty : Nonempty CTransaction := ⟨{}⟩
  refine ⟨fun txid =>
    match proposalFromTransaction (Function.invFunOn (CTransaction.getHash hash) known txid) {} with
    | .ok (_, proposal) => proposal
    | .error _ => {}, fun tx htx proposal hdecode => ?_⟩
  dsimp only
  rw [hinj.leftInvOn_invFunOn htx, hdecode]

end Registry

/-! ## `ConnectBlock` -/

section Connect

variable {hash : Bytes → UInt256} {Db : Type} {node : Node Db} {db : Db} {block : CBlock}
  {pindex : CBlockIndex} {pprev : Option CBlockIndex} {r : Registry}

/-- There is nothing that a call of `ConnectBlock` could change: the transactions of the block fail
their checks, or else every proposal that the block pays for is registered already, and the index
already has the tally that the votes give, if they are counted. -/
def NothingNew (hash : Bytes → UInt256) (node : Node Db) (db : Db) (block : CBlock)
    (pindex : CBlockIndex) (pprev : Option CBlockIndex) (r : Registry) : Prop :=
  ∀ s, connectTransactions hash node db block pindex false = .ok s →
    (∀ p ∈ decodedProposals hash s.vQueuedProposals block.vtx,
      r.Registered hash (node.writesProposal p.1) p.1 p.2) ∧
    ((registerProposals hash node s.vQueuedProposals block.vtx r).1 = none → ∀ tally,
      tallyOf node (trackMoney pindex pprev s) pprev r = .ok tally → tally = pindex.tally)

/-- A call that only checks a block changes neither the registry nor the tally. -/
lemma connectBlock_justCheck : (connectBlock hash node db block pindex pprev true r).registry = r ∧
    (connectBlock hash node db block pindex pprev true r).pindex.tally = pindex.tally := by
  rw [connectBlock]
  cases connectTransactions hash node db block pindex true with
  | error exit => exact ⟨rfl, rfl⟩
  | ok s => exact ⟨rfl, rfl⟩

/-- After the registration, the tally becomes the one that the votes give. -/
lemma connectVotes_tally (s : ConnectState) (pindex' : CBlockIndex) :
    (connectVotes node db block pindex' pprev s r).pindex.tally = pindex.tally ↔
      (tallyOf node pindex' pprev r).toOption.getD pindex'.tally = pindex.tally := by
  rw [connectVotes]
  cases tallyOf node pindex' pprev r with
  | error e => exact Iff.rfl
  | ok tally =>
    dsimp only
    cases finishConnect node db block { pindex' with tally } pprev s <;> exact Iff.rfl

/-- A call changes neither the registry nor the tally exactly if there is nothing to change. -/
lemma connectBlock_unchanged_iff {proposalOf : UInt256 → CVoteProposal}
    (hof : ∀ tx ∈ block.vtx, Registry.Decodes hash proposalOf tx) :
    ((connectBlock hash node db block pindex pprev false r).registry = r ∧
      (connectBlock hash node db block pindex pprev false r).pindex.tally = pindex.tally) ↔
    NothingNew hash node db block pindex pprev r := by
  unfold NothingNew
  cases hconnect : connectTransactions hash node db block pindex false with
  | error exit =>
    rw [connectBlock, hconnect]
    exact iff_of_true ⟨rfl, rfl⟩ fun s' heq => by cases heq
  | ok s =>
    have hdecoded : ∀ p ∈ decodedProposals hash s.vQueuedProposals block.vtx,
        p.2 = proposalOf p.1 := by
      intro p hp
      obtain ⟨tx, htx, hid, hdecode⟩ := mem_decodedProposals hp
      rw [hid]
      exact hof tx htx p.2 hdecode
    have hregistered : (registerProposals hash node s.vQueuedProposals block.vtx r).2 = r ↔
        ∀ p ∈ decodedProposals hash s.vQueuedProposals block.vtx,
          r.Registered hash (node.writesProposal p.1) p.1 p.2 := by
      rw [registerProposals_snd]
      exact Registry.foldl_register_eq_self_iff hdecoded
    have hall : ∀ P : ConnectState → Prop,
        (∀ s', (.ok s : Except Exit ConnectState) = .ok s' → P s') ↔ P s :=
      fun P => ⟨fun h => h s rfl, fun h s' heq => by cases heq; exact h⟩
    rw [hall, ← hregistered, connectBlock, hconnect]
    simp only [Bool.false_eq_true, if_false]
    rcases hregister : registerProposals hash node s.vQueuedProposals block.vtx r with ⟨_ | e, r'⟩
    · dsimp only
      rw [connectVotes_registry, connectVotes_tally]
      refine and_congr_right fun hr' => ?_
      rw [hr']
      simp only [forall_const]
      have hkept : (trackMoney pindex pprev s).tally = pindex.tally := rfl
      cases tallyOf node (trackMoney pindex pprev s) pprev r with
      | error e => exact iff_of_true hkept fun tally' heq => by cases heq
      | ok tally =>
        exact ⟨fun heq tally' htally => by cases htally; exact heq, fun h => h tally rfl⟩
    · refine and_congr_right fun _ => iff_of_true rfl ?_
      intro heq
      cases heq

end Connect

/-! ## `Reorganize` -/

/-- The tally of the index that a pointer leads to. -/
def BestChain.tally (s : BestChain) (h : UInt256) : Option CVoteTally :=
  (s.tree.find h).map CBlockIndex.tally

/-- A call leaves the registry and all tallies as they were. -/
structure BestChain.Unchanged (s s' : BestChain) : Prop where
  registry : s'.registry = s.registry
  tally : s'.tally = s.tally

namespace BestChain.Unchanged

variable {s s₁ s₂ : BestChain}

lemma refl (s : BestChain) : s.Unchanged s := ⟨rfl, rfl⟩

lemma trans (h : s.Unchanged s₁) (h' : s₁.Unchanged s₂) : s.Unchanged s₂ :=
  ⟨h'.registry.trans h.registry, h'.tally.trans h.tally⟩

lemma symm (h : s.Unchanged s₁) : s₁.Unchanged s := ⟨h.registry.symm, h.tally.symm⟩

end BestChain.Unchanged

section Reorganize

variable {hash hash9 : Bytes → UInt256} {node : ChainNode} {known : Set CTransaction}
  {proposalOf : UInt256 → CVoteProposal}

/-- All transactions of the blocks that a node reads are among some known ones. -/
def ChainNode.ReadsKnown (node : ChainNode) (known : Set CTransaction) : Prop :=
  ∀ nFile nBlockPos block, node.readBlock nFile nBlockPos = some block → ∀ tx ∈ block.vtx, tx ∈ known

/-- There is nothing that a turn of the loop that connects blocks could change. -/
def NothingNewAt (hash hash9 : Bytes → UInt256) (node : ChainNode)
    (t : BestChain × List CTransaction) (h : UInt256) : Prop :=
  ∀ pindex block, t.1.tree.find h = some pindex → node.readFromDisk hash9 pindex = some block →
    NothingNew hash ((node.envAt h t.1).node hash) t.1.db.txs block pindex
      (t.1.tree.find pindex.pprev) t.1.registry

variable {block : CBlock}

lemma mem_of_readFromDisk (hreads : node.ReadsKnown known) {pindex : CBlockIndex}
    (hread : node.readFromDisk hash9 pindex = some block) : ∀ tx ∈ block.vtx, tx ∈ known :=
  hreads _ _ block (Option.filter_eq_some_iff.mp hread).1

/-- What connecting a block changes: it registers proposals, and only the index of the block gets
another tally. -/
lemma connectIndex_grows (node : ChainNode) {h : UInt256} {pindex : CBlockIndex}
    {s : BestChain} (hfound : s.tree.find h = some pindex)
    (hof : ∀ tx ∈ block.vtx, Registry.Decodes hash proposalOf tx) :
    Registry.Grows hash proposalOf s.registry (connectIndex hash node h pindex block s).1.registry ∧
      (∀ k, k ≠ h → (connectIndex hash node h pindex block s).1.tally k = s.tally k) ∧
      (s.Unchanged (connectIndex hash node h pindex block s).1 ↔
        NothingNew hash ((node.envAt h s).node hash) s.db.txs block pindex
          (s.tree.find pindex.pprev) s.registry) := by
  have hne := BlockTree.ne_zero_of_find hfound
  set outcome := connectBlock hash ((node.envAt h s).node hash) s.db.txs block pindex
    (s.tree.find pindex.pprev) false s.registry with houtcome
  have htally : ∀ k, (connectIndex hash node h pindex block s).1.tally k =
      if h = k then some outcome.pindex.tally else s.tally k := by
    intro k
    change ((s.tree.setIndex h outcome.pindex).find k).map CBlockIndex.tally = _
    rw [BlockTree.find_setIndex hne]
    split_ifs
    · rfl
    · rfl
  refine ⟨?_, fun k hk => ?_, ?_⟩
  · change Registry.Grows hash proposalOf s.registry outcome.registry
    rw [houtcome, connectBlock_registry]
    refine .foldl (fun p hp => ?_) _
    obtain ⟨tx, htx, hid, hdecode⟩ := mem_registrations hp
    rw [hid]
    exact hof tx htx p.2 hdecode
  · rw [htally, if_neg hk.symm]
  · rw [← connectBlock_unchanged_iff hof, ← houtcome]
    constructor
    · rintro ⟨hregistry, hsame⟩
      refine ⟨hregistry, ?_⟩
      have hh := congrFun hsame h
      rw [htally, if_pos rfl, BestChain.tally, hfound] at hh
      exact Option.some.inj hh
    · rintro ⟨hregistry, hsame⟩
      refine ⟨hregistry, funext fun k => ?_⟩
      rw [htally]
      split_ifs with heq
      · rw [← heq, BestChain.tally, hfound, hsame]
        rfl
      · rfl

/-- What a turn of the loop that connects blocks changes. -/
lemma connectTurn_grows (hreads : node.ReadsKnown known)
    (hof : ∀ tx ∈ known, Registry.Decodes hash proposalOf tx) (t : BestChain × List CTransaction)
    (h : UInt256) :
    Registry.Grows hash proposalOf t.1.registry
        (connectTurn hash hash9 node t h).1.1.registry ∧
      (∀ k, k ≠ h → (connectTurn hash hash9 node t h).1.1.tally k = t.1.tally k) ∧
      (t.1.Unchanged (connectTurn hash hash9 node t h).1.1 ↔
        NothingNewAt hash hash9 node t h) := by
  unfold connectTurn NothingNewAt
  cases hfound : t.1.tree.find h with
  | none => exact ⟨.refl _, fun _ _ => rfl, iff_of_true (.refl _) nofun⟩
  | some pindex =>
    dsimp only
    cases hread : node.readFromDisk hash9 pindex with
    | none =>
      refine ⟨.refl _, fun _ _ => rfl, iff_of_true (.refl _) fun pindex' block hpindex hblock => ?_⟩
      cases hpindex
      rw [hread] at hblock
      cases hblock
    | some block =>
      obtain ⟨hgrows, hothers, hiff⟩ := connectIndex_grows node hfound
        fun tx htx => hof tx (mem_of_readFromDisk hreads hread tx htx)
      have hall : (∀ pindex' block', some pindex = some pindex' →
          node.readFromDisk hash9 pindex' = some block' →
          NothingNew hash ((node.envAt h t.1).node hash) t.1.db.txs block' pindex'
            (t.1.tree.find pindex'.pprev) t.1.registry) ↔
          NothingNew hash ((node.envAt h t.1).node hash) t.1.db.txs block pindex
            (t.1.tree.find pindex.pprev) t.1.registry := by
        constructor
        · exact fun hnew => hnew pindex block rfl hread
        · intro hnew pindex' block' hpindex hblock
          cases hpindex
          rw [hread] at hblock
          cases hblock
          exact hnew
      rw [hall, ← hiff]
      dsimp only
      rcases hconnect : connectIndex hash node h pindex block t.1 with ⟨s', e | _ | _⟩
      all_goals
        rw [hconnect] at hgrows hothers
        exact ⟨hgrows, hothers, Iff.rfl⟩

/-- What the loop that connects blocks changes: only the tallies of its blocks, and the registry and
the tallies are what they were exactly if there is nothing that a turn could change. -/
lemma connectTurns_grows (hash9 : Bytes → UInt256) (hreads : node.ReadsKnown known)
    (hof : ∀ tx ∈ known, Registry.Decodes hash proposalOf tx) {vConnect : List UInt256}
    (hnodup : vConnect.Nodup) (t : BestChain × List CTransaction) :
    Registry.Grows hash proposalOf t.1.registry
        (foldThrow (connectTurn hash hash9 node) vConnect t).1.1.registry ∧
      (∀ k ∉ vConnect,
        (foldThrow (connectTurn hash hash9 node) vConnect t).1.1.tally k = t.1.tally k) ∧
      (t.1.Unchanged (foldThrow (connectTurn hash hash9 node) vConnect t).1.1 ↔
        FoldAlong (connectTurn hash hash9 node) (NothingNewAt hash hash9 node) vConnect t) := by
  induction vConnect generalizing t with
  | nil => exact ⟨.refl _, fun _ _ => rfl, iff_of_true (.refl _) trivial⟩
  | cons h vConnect ih =>
    obtain ⟨hnotMem, hnodup⟩ := List.nodup_cons.mp hnodup
    obtain ⟨hgrows, hothers, hiff⟩ := connectTurn_grows hreads hof t h
    rw [foldThrow, FoldAlong, ← hiff]
    rcases hturn : connectTurn hash hash9 node t h with ⟨t₁, _ | exit⟩
    · rw [hturn] at hgrows hothers
      obtain ⟨hrest, hothers', hiff'⟩ := ih hnodup t₁
      refine ⟨hgrows.trans hrest, fun k hk => ?_, ?_⟩
      · exact (hothers' k (List.not_mem_of_not_mem_cons hk)).trans
          (hothers k (List.ne_of_not_mem_cons hk))
      · dsimp only
        rw [← hiff']
        constructor
        · intro hsame
          -- neither the registry nor the tally of the block changes back afterwards
          have hfirst : t.1.Unchanged t₁.1 := by
            refine ⟨?_, funext fun k => ?_⟩
            · rw [← hsame.registry] at hgrows ⊢
              exact hgrows.antisymm hrest
            · by_cases hk : k = h
              · rw [hk, ← hothers' h hnotMem, hsame.tally]
              · exact hothers k hk
          exact ⟨hfirst, hfirst.symm.trans hsame⟩
        · rintro ⟨hfirst, hsecond⟩
          exact hfirst.trans hsecond
    · rw [hturn] at hgrows hothers
      refine ⟨hgrows, fun k hk => hothers k (List.ne_of_not_mem_cons hk), ?_⟩
      exact (and_iff_left trivial).symm

/-- There is nothing that the loop of `Reorganize` could change that connects the blocks of a new
branch, after those of the old one have been disconnected. -/
def NothingNewOnBranch (hash hash9 : Bytes → UInt256) (node : ChainNode) (pindexNew : UInt256)
    (s : BestChain) : Prop :=
  ∀ pfork txs vResurrect,
    findFork (s.tree.past s.pindexBest) (s.tree.past pindexNew) = some pfork →
    (s.tree.above pfork s.pindexBest).foldlM (disconnectTurn hash hash9 node s) (s.db.txs, []) =
      .ok (txs, vResurrect) →
    FoldAlong (connectTurn hash hash9 node) (NothingNewAt hash hash9 node)
      (s.tree.above pfork pindexNew).reverse ({ s with db := { s.db with txs } }, [])

/-- `Reorganize` leaves the registry and the tallies as they were up to its commit exactly if there
is nothing to change on the new branch. -/
lemma switchBranch_unchanged_iff (hinj : Set.InjOn (CTransaction.getHash hash) known)
    (hreads : node.ReadsKnown known) {s : BestChain} (hroot : s.tree.Rooted) (pindexNew : UInt256) :
    s.Unchanged (switchBranch hash hash9 node pindexNew s).1 ↔
      NothingNewOnBranch hash hash9 node pindexNew s := by
  obtain ⟨proposalOf, hof⟩ := Registry.exists_proposalOf hinj
  unfold switchBranch NothingNewOnBranch
  cases hfork : findFork (s.tree.past s.pindexBest) (s.tree.past pindexNew) with
  | none => exact iff_of_true (.refl s) nofun
  | some pfork =>
    dsimp only
    rcases hundo : (s.tree.above pfork s.pindexBest).foldlM (disconnectTurn hash hash9 node s)
      (s.db.txs, []) with exit | ⟨txs, vResurrect⟩
    · refine iff_of_true (.refl s) fun pfork' txs vResurrect hfork' hundo' => ?_
      cases hfork'
      rw [hundo] at hundo'
      cases hundo'
    · have hnodup : (s.tree.above pfork pindexNew).reverse.Nodup :=
        List.nodup_reverse.mpr ((hroot.nodup_path pindexNew).sublist
          (List.takeWhile_sublist _))
      obtain ⟨-, -, hiff⟩ := connectTurns_grows hash9 hreads hof hnodup
        ({ s with db := { s.db with txs } }, [])
      have hall : s.Unchanged (foldThrow (connectTurn hash hash9 node)
          (s.tree.above pfork pindexNew).reverse ({ s with db := { s.db with txs } }, [])).1.1 ↔
          ∀ pfork' txs' vResurrect', some pfork = some pfork' →
            (s.tree.above pfork' s.pindexBest).foldlM (disconnectTurn hash hash9 node s)
              (s.db.txs, []) = .ok (txs', vResurrect') →
            FoldAlong (connectTurn hash hash9 node) (NothingNewAt hash hash9 node)
              (s.tree.above pfork' pindexNew).reverse
              ({ s with db := { s.db with txs := txs' } }, []) := by
        have hstart : s.Unchanged { s with db := { s.db with txs } } := ⟨rfl, rfl⟩
        constructor
        · intro hsame pfork' txs' vResurrect' hfork' hundo'
          cases hfork'
          rw [hundo] at hundo'
          cases hundo'
          exact hiff.mp (hstart.symm.trans hsame)
        · intro halong
          exact hstart.trans (hiff.mpr (halong pfork txs vResurrect rfl hundo))
      rw [← hall]
      dsimp only
      rcases foldThrow (connectTurn hash hash9 node) (s.tree.above pfork pindexNew).reverse
        ({ s with db := { s.db with txs } }, []) with ⟨⟨s', vDelete⟩, _ | exit⟩
      · dsimp only
        split_ifs
        · exact Iff.rfl
        · exact ⟨fun hsame => ⟨hsame.registry, hsame.tally⟩,
            fun hsame => ⟨hsame.registry, hsame.tally⟩⟩
      · exact Iff.rfl

/-- `SetBestChain` aborts a `Reorganize` to a block. -/
structure AbortsReorganize (hash hash9 : Bytes → UInt256) (node : ChainNode) (block : CBlock)
    (s : BestChain) (pindexIntermediate : UInt256) : Prop where
  txnBegin : node.txnBegin = true
  not_genesis : ¬ (s.pindexGenesisBlock = 0 ∧ block.getHash hash9 = node.hashGenesisBlock)
  not_next : block.hashPrevBlock ≠ s.hashBestChain
  best : (s.tree.find s.pindexBest).isSome
  intermediate : pindexIntermediate =
    (postpone node.bnChainTrust s.pindexBest (s.tree.path (block.getHash hash9))).2
  fails : ∃ exit, (switchBranch hash hash9 node pindexIntermediate s).2 = .error exit

/-- What `SetBestChain` leaves behind when it aborts a `Reorganize`. -/
lemma setBestChain_of_aborts {s : BestChain} {pindexIntermediate : UInt256}
    (h : AbortsReorganize hash hash9 node block s pindexIntermediate) :
    (setBestChain hash hash9 node block s).1 =
      { (switchBranch hash hash9 node pindexIntermediate s).1 with db := s.db } := by
  obtain ⟨hbegin, hgenesis, hnext, hbest, rfl, exit, hexit⟩ := h
  obtain ⟨pindexBest, hfound⟩ := Option.isSome_iff_exists.mp hbest
  have hmove : moveBest hash hash9 node block s =
      ({ (switchBranch hash hash9 node (postpone node.bnChainTrust s.pindexBest
        (s.tree.path (block.getHash hash9))).2 s).1 with db := s.db }, exit.result) := by
    unfold moveBest
    rw [if_neg hgenesis, if_neg hnext, changeBranch, hfound]
    dsimp only
    rcases hswitch : switchBranch hash hash9 node (postpone node.bnChainTrust s.pindexBest
      (s.tree.path (block.getHash hash9))).2 s with ⟨s', exit' | switch⟩
    · rw [hswitch] at hexit
      cases hexit
      rfl
    · rw [hswitch] at hexit
      cases hexit
  have hfalse : exit.result ≠ .ok true := by
    cases exit with
    | returnFalse => nofun
    | throws e => nofun
  unfold setBestChain
  rw [hbegin, hmove]
  rcases hresult : exit.result with e | _ | _
  · rfl
  · rfl
  · exact absurd hresult hfalse

end Reorganize

/-- A coinbase that claims more than the reward of a block. -/
def greedyCoinBase (nHeight : UInt8) : CTransaction :=
  { testCoinBase 1424304840 nHeight with
    vout := [{ nValue := 2000 * COIN, scriptPubKey := [0x51] }] }

/-- A block that carries a proposal, and whose coinbase claims too much. -/
def greedyProposalBlock : CBlock :=
  { vtx := [greedyCoinBase 2, sampleProposalTx (CVoteProposalManager.proposalAt 27 26)] }

/-- A block on top of the first one whose coinbase claims too much. -/
def greedyBlock : CBlock :=
  { testWorkBlock 2 3 1424304840 2 with vtx := [greedyCoinBase 2] }

/-- A node that reads the first block and the greedy one. -/
def greedyNode : ChainNode where
  env _ := testAccept.env
  poolEnv := testAccept.env
  rules := lenientRules
  hashGenesisBlock := 1
  bnChainTrust _ := 0
  readBlock _ nBlockPos := if nBlockPos = 300 then some testFirst else some greedyBlock
  txnBegin := true
  txnBegin2 _ := true
  writesHashBestChain _ := true
  txnCommit _ := true

/-- The tree with the two blocks on top of the genesis block. -/
def greedyTree : BlockTree :=
  ((({} : BlockTree).insertIndex 1 { phashBlock := 1 }).insertIndex 2
    { phashBlock := 2, pprev := 1, nFile := 1, nBlockPos := 300, nHeight := 1 }).insertIndex 3
    { phashBlock := 3, pprev := 2, nFile := 1, nBlockPos := 600, nHeight := 2 }

/-- The genesis block is the best one so far. -/
def greedyState : BestChain :=
  { tree := greedyTree, pindexGenesisBlock := 1, pindexBest := 1, hashBestChain := 1
    nBestHeight := 0 }

lemma rooted_greedyTree : greedyTree.Rooted := by
  have h₁ := BlockTree.Rooted.empty.added
    (BlockTree.added_insertIndex {} 1 ({ phashBlock := 1 } : CBlockIndex)) (by simp) rfl (Or.inl rfl)
  have h₂ := h₁.added (BlockTree.added_insertIndex _ 2
    ({ phashBlock := 2, pprev := 1, nFile := 1, nBlockPos := 300, nHeight := 1 } : CBlockIndex))
    (of_decide_eq_true rfl) rfl (Or.inr rfl)
  exact h₂.added (BlockTree.added_insertIndex _ 3
    ({ phashBlock := 3, pprev := 2, nFile := 1, nBlockPos := 600, nHeight := 2 } : CBlockIndex))
    (of_decide_eq_true rfl) rfl (Or.inr rfl)

/-- The transactions of these blocks. -/
def greedyTxs : List CTransaction :=
  [greedyCoinBase 2, sampleProposalTx (CVoteProposalManager.proposalAt 27 26), testCoinBase 1424304830 1]

lemma injOn_greedyTxs : Set.InjOn (CTransaction.getHash sampleHash) { tx | tx ∈ greedyTxs } := by
  have hall : ∀ tx ∈ greedyTxs, ∀ tx' ∈ greedyTxs,
      tx.getHash sampleHash = tx'.getHash sampleHash → tx = tx' := by decide +kernel
  exact fun tx htx tx' htx' heq => hall tx htx tx' htx' heq

/-- Connecting the block with the proposal fails at the check of the reward. -/
lemma greedyProposalBlock_result : (connectBlock sampleHash sampleNode () greedyProposalBlock
    sampleProposalIndex none false {}).result = .ok false := by decide +kernel

/-- Switching to the greedy block fails, after the first one has been connected. -/
lemma abortsReorganize_greedyBlock :
    AbortsReorganize sampleHash nonceHash greedyNode greedyBlock greedyState 3 := by
  have hfails : (match (switchBranch sampleHash nonceHash greedyNode 3 greedyState).2 with
      | .error exit => some exit
      | .ok _ => none) = some .returnFalse := by decide +kernel
  refine ⟨rfl, of_decide_eq_true rfl, by decide, rfl, rfl, .returnFalse, ?_⟩
  generalize (switchBranch sampleHash nonceHash greedyNode 3 greedyState).2 = result at hfails ⊢
  cases result with
  | error exit => exact congrArg Except.error (Option.some.inj hfails)
  | ok switch => cases hfails

end HyperStake
