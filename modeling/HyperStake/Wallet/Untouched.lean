import HyperStake.Wallet.WalletView

/-!
# Wallets that are left as they were

Which wallets show the same after some transactions have been disconnected and others connected
(`view_eq_iff_untouched`): those that are told of no new transaction, whose transactions end where
they were, and for whose outputs every refund is made up for by an input that spends the output, and
every such input spends an output that was spent before.
-/

namespace HyperStake.WalletTx

open ExceptLoop

namespace View

variable {isMine : CTxOut → Bool} {fSpent : Bool} {coins : List (UInt256 × ℕ)} {view : View}
  {f : UInt256 → CMerkleTx → CMerkleTx} {h : UInt256}

@[simp] lemma marked_eq_none : view.marked isMine fSpent coins h = none ↔ view h = none :=
  Option.map_eq_none_iff

@[simp] lemma moved_eq_none : view.moved f h = none ↔ view h = none := Option.map_eq_none_iff

/-- One transaction is moved. -/
lemma moved_eq_update {e : Entry} (hentry : view h = some e) (hf : ∀ k p, k ≠ h → f k p = p) :
    view.moved f = Function.update view h (some { e with place := f h e.place }) := by
  funext k
  by_cases hk : k = h
  · subst hk
    rw [Function.update_self, moved, hentry]
    rfl
  · rw [Function.update_of_ne hk, moved]
    cases hother : view k with
    | none => rfl
    | some e' => exact congrArg (fun place => some { e' with place }) (hf k e'.place hk)

/-- Nothing is moved that the view does not show. -/
lemma moved_eq_self (hnone : view h = none) (hf : ∀ k p, k ≠ h → f k p = p) :
    view.moved f = view := by
  funext k
  by_cases hk : k = h
  · subst hk
    rw [moved, hnone]
    rfl
  · rw [moved]
    cases hother : view k with
    | none => rfl
    | some e => exact congrArg (fun place => some { e with place }) (hf k e.place hk)

/-- Refunds, moves and spent outputs leave what is shown if they make up for each other. -/
lemma marked_moved_marked_eq_iff {refunded spent : List (UInt256 × ℕ)}
    (hf : ∀ h p, (f h p).vout = p.vout) :
    ((view.marked isMine false refunded).moved f).marked isMine true spent = view ↔
      ∀ h e, view h = some e → f h e.place = e.place ∧ ∀ i, e.owns isMine i = true →
        ((h, i) ∈ spent → e.fSpent i = true) ∧
          (e.fSpent i = true → (h, i) ∈ refunded → (h, i) ∈ spent) := by
  have hafter : ∀ h e, view h = some e →
      ((view.marked isMine false refunded).moved f).marked isMine true spent h = some
        { e with
          place := f h e.place
          fSpent := fun i => if (h, i) ∈ spent ∧ e.owns isMine i = true then true
            else if (h, i) ∈ refunded ∧ e.owns isMine i = true then false else e.fSpent i } := by
    intro h e hentry
    have howns : ∀ fSpent i, Entry.owns isMine { e with place := f h e.place, fSpent } i =
        e.owns isMine i := by
      intro fSpent i
      unfold Entry.owns
      rw [hf]
    rw [moved_marked hf]
    simp only [marked, moved, hentry, Option.map_some, Entry.marked, howns]
  rw [funext_iff]
  constructor
  · intro hsame h e hentry
    have heq := (hafter h e hentry).symm.trans ((hsame h).trans hentry)
    obtain ⟨hplace, hspent, -⟩ := Entry.mk.inj (Option.some.inj heq)
    refine ⟨hplace, fun i howns => ?_⟩
    have hi := congrFun hspent i
    simp only [howns, and_true] at hi
    constructor
    · intro hmem
      rw [if_pos hmem] at hi
      exact hi.symm
    · intro hflag hrefund
      by_contra hnot
      rw [if_neg hnot, if_pos hrefund, hflag] at hi
      cases hi
  · intro hall h
    cases hentry : view h with
    | none => simp [hentry]
    | some e =>
      obtain ⟨hplace, hspent⟩ := hall h e hentry
      rw [hafter h e hentry, hplace]
      refine congrArg (fun fSpent => some { e with fSpent }) (funext fun i => ?_)
      split_ifs with hmem hrefund
      · exact ((hspent i hmem.2).1 hmem.1).symm
      · obtain ⟨hcoin, howns⟩ := hrefund
        -- a refund that is not made up for is of an output that was not spent
        by_contra hflag
        exact hmem ⟨(hspent i howns).2 (by simpa using hflag) hcoin, howns⟩
      · rfl

end View

namespace CWallet

/-! ## A transaction that the wallet is told of -/

section Places

variable (hash hash9 : Bytes → UInt256) (writeToDisk : CMerkleTx → Bool)

/-- Where a wallet has a transaction when it has been told of a transaction of a connected block. -/
def joinPlace (item : CTransaction × CBlock) (h : UInt256) (p : CMerkleTx) : CMerkleTx :=
  if item.1.getHash hash = h then
    match setMerkleBranch hash hash9 item.1 item.2 with
    | .ok place => mergePlace p place
    | .error _ => p
  else p

/-- Where a wallet has a transaction when it has been told of some. -/
def placeAfter (items : List (CTransaction × CBlock)) (h : UInt256) (p : CMerkleTx) : CMerkleTx :=
  items.foldl (fun p item => joinPlace hash hash9 item h p) p

/-- The outputs that a transaction of a connected block marks as spent in a wallet.  Of a transaction
that the wallet has moved and cannot write it marks none. -/
def toldBy (places : UInt256 → Option CMerkleTx) (item : CTransaction × CBlock) :
    List (UInt256 × ℕ) :=
  let h := item.1.getHash hash
  match places h with
  | none => item.1.vin.map spends
  | some p =>
    let place := joinPlace hash hash9 item h p
    if decide (place ≠ p) && !writeToDisk place then [] else p.vin.map spends

/-- The outputs that the transactions of connected blocks mark as spent in a wallet. -/
def told (places : UInt256 → Option CMerkleTx) : List (CTransaction × CBlock) → List (UInt256 × ℕ)
  | [] => []
  | item :: items => toldBy hash hash9 writeToDisk places item ++
      told (fun h => (places h).map (joinPlace hash hash9 item h)) items

end Places

variable {hash hash9 : Bytes → UInt256} {wallet wallet' : CWallet} {wtx : CWalletTx}
  {tx : CTransaction} {block : CBlock} {place p : CMerkleTx} {h k : UInt256}
  {item : CTransaction × CBlock} {items : List (CTransaction × CBlock)}

lemma mergePlace_toCTransaction : (mergePlace p place).toCTransaction = p.toCTransaction := by
  unfold mergePlace
  dsimp only
  split_ifs <;> rfl

lemma joinPlace_toCTransaction : (joinPlace hash hash9 item h p).toCTransaction =
    p.toCTransaction := by
  unfold joinPlace
  split_ifs
  · cases setMerkleBranch hash hash9 item.1 item.2 with
    | ok place => exact mergePlace_toCTransaction
    | error e => rfl
  · rfl

lemma placeAfter_toCTransaction : (placeAfter hash hash9 items h p).toCTransaction =
    p.toCTransaction := by
  induction items generalizing p with
  | nil => rfl
  | cons item items ih => exact ih.trans joinPlace_toCTransaction

lemma joinPlace_of_ne (hne : k ≠ tx.getHash hash) : joinPlace hash hash9 (tx, block) k p = p :=
  if_neg (Ne.symm hne)

lemma joinPlace_eq (hplace : setMerkleBranch hash hash9 tx block = .ok place) :
    joinPlace hash hash9 (tx, block) (tx.getHash hash) p = mergePlace p place := by
  rw [joinPlace, if_pos rfl, hplace]

lemma setMerkleBranch_toCTransaction (hplace : setMerkleBranch hash hash9 tx block = .ok place) :
    place.toCTransaction = tx := by
  unfold setMerkleBranch at hplace
  cases hfind : block.vtx.findIdx? (· = tx) with
  | none =>
    rw [hfind] at hplace
    cases hplace
    rfl
  | some nIndex =>
    simp only [hfind] at hplace
    cases hbranch : block.getMerkleBranch hash [] nIndex with
    | error e =>
      rw [hbranch] at hplace
      cases hplace
    | ok vMerkleBranch =>
      rw [hbranch] at hplace
      cases hplace
      rfl

/-- Merging a transaction that comes with a block only moves it. -/
lemma merge_place : (merge wtx { toCMerkleTx := place }).1.entry =
      { wtx.entry with place := mergePlace wtx.toCMerkleTx place } ∧
    (merge wtx { toCMerkleTx := place }).2 =
      decide (mergePlace wtx.toCMerkleTx place ≠ wtx.toCMerkleTx) ∧
    (merge wtx { toCMerkleTx := place }).1.toCMerkleTx = mergePlace wtx.toCMerkleTx place := by
  have hlength : (mergePlace wtx.toCMerkleTx place).vout.length = wtx.vout.length := by
    rw [mergePlace_toCTransaction]
  refine ⟨?_, ?_, rfl⟩
  · unfold merge CWalletTx.entry CWalletTx.updateSpent
    simp [CWalletTx.updateSpentLoop, hlength]
  · unfold merge CWalletTx.updateSpent
    simp [CWalletTx.updateSpentLoop]

/-- Adding a transaction that the wallet knows moves it and marks what it spends. -/
lemma shows_addToWallet (hplace : setMerkleBranch hash hash9 tx block = .ok place)
    (hget : wallet.mapWallet[tx.getHash hash]? = some wtx)
    (hadd : wallet.addToWallet hash { toCMerkleTx := place } = .ok wallet') :
    Shows wallet wallet' ((wallet.view.moved (joinPlace hash hash9 (tx, block))).marked
      wallet.isMine true (toldBy hash hash9 wallet.writeToDisk wallet.view.places (tx, block))) := by
  obtain ⟨hentry, hupdated, hmerged⟩ := @merge_place wtx place
  have hhash : ({ toCMerkleTx := place } : CWalletTx).getHash hash = tx.getHash hash :=
    congrArg (CTransaction.getHash hash) (setMerkleBranch_toCTransaction hplace)
  have hview : (wallet.put (tx.getHash hash) (merge wtx { toCMerkleTx := place }).1).view =
      wallet.view.moved (joinPlace hash hash9 (tx, block)) := by
    rw [view_put, View.moved_eq_update (view_eq_some hget) fun k p => joinPlace_of_ne, hentry]
    exact congrArg (fun place => Function.update wallet.view _ (some { wtx.entry with place }))
      (joinPlace_eq hplace).symm
  have htold : toldBy hash hash9 wallet.writeToDisk wallet.view.places (tx, block) =
      if decide (mergePlace wtx.toCMerkleTx place ≠ wtx.toCMerkleTx) &&
        !wallet.writeToDisk (mergePlace wtx.toCMerkleTx place) then [] else wtx.vin.map spends := by
    rw [toldBy, View.places, view_eq_some hget, Option.map_some]
    dsimp only
    rw [joinPlace_eq hplace]
    rfl
  have hvin : (mergePlace wtx.toCMerkleTx place).vin = wtx.vin := by
    rw [mergePlace_toCTransaction]
  unfold addToWallet at hadd
  simp only [hhash, hget] at hadd
  rw [htold]
  rw [hupdated, hmerged] at hadd
  change (if (_ && !wallet.writeToDisk _) = true then _ else _) = _ at hadd
  split_ifs at hadd ⊢ with hwrite
  · cases hadd
    rw [View.marked_nil]
    exact ⟨rfl, hview⟩
  · obtain ⟨hsurroundings, hmarked⟩ := shows_walletUpdateSpent hadd
    rw [hview, hvin] at hmarked
    exact ⟨hsurroundings, hmarked⟩

/-- A transaction of a connected block that the wallet knows, or that does not involve it. -/
lemma shows_join
    (hnew : tx.getHash hash ∉ wallet.mapWallet → wallet.isMineTx tx = false ∧ wallet.fromMe tx = false)
    (hjoin : wallet.addToWalletIfInvolvingMe hash hash9 tx block = .ok wallet') :
    Shows wallet wallet' ((wallet.view.moved (joinPlace hash hash9 (tx, block))).marked
      wallet.isMine true (toldBy hash hash9 wallet.writeToDisk wallet.view.places (tx, block))) := by
  unfold addToWalletIfInvolvingMe at hjoin
  dsimp only at hjoin
  by_cases hknown : tx.getHash hash ∈ wallet.mapWallet
  · rw [if_pos hknown] at hjoin
    obtain ⟨wtx, hget⟩ := Option.isSome_iff_exists.mp
      (Std.ExtTreeMap.isSome_getElem?_iff_mem.mpr hknown)
    obtain ⟨place, hplace, hadd⟩ := bind_eq_ok.mp hjoin
    exact shows_addToWallet hplace hget hadd
  · obtain ⟨hmine, hfrom⟩ := hnew hknown
    have hnone : wallet.view (tx.getHash hash) = none := view_eq_none.mpr hknown
    rw [if_neg hknown, hmine, if_neg Bool.false_ne_true] at hjoin
    obtain ⟨fFromMe, hfromMe, hspend⟩ := bind_eq_ok.mp hjoin
    have hfalse : fFromMe = false := by
      rw [fromMe, hfromMe] at hfrom
      exact hfrom
    rw [hfalse, if_neg Bool.false_ne_true] at hspend
    have htold : toldBy hash hash9 wallet.writeToDisk wallet.view.places (tx, block) =
        tx.vin.map spends := by
      rw [toldBy, View.places, hnone]
      rfl
    rw [htold, View.moved_eq_self hnone fun k p => joinPlace_of_ne]
    exact shows_walletUpdateSpent hspend

/-! ## The transactions that the wallet has -/

lemma mem_walletUpdateSpent {vin : List CTxIn}
    (hspend : wallet.walletUpdateSpent vin = .ok wallet') :
    k ∈ wallet'.mapWallet ↔ k ∈ wallet.mapWallet := by
  rw [← not_iff_not, ← view_eq_none, ← view_eq_none, (shows_walletUpdateSpent hspend).view,
    View.marked_eq_none]

lemma mem_put : k ∈ (wallet.put h wtx).mapWallet ↔ k = h ∨ k ∈ wallet.mapWallet := by
  rw [put, Std.ExtTreeMap.mem_insert, Std.LawfulEqCmp.compare_eq_iff_eq, eq_comm]

/-- A transaction that is added is in the wallet with those that were there. -/
lemma mem_addToWallet {wtxIn : CWalletTx} (hadd : wallet.addToWallet hash wtxIn = .ok wallet') :
    k ∈ wallet'.mapWallet ↔ k = wtxIn.getHash hash ∨ k ∈ wallet.mapWallet := by
  unfold addToWallet at hadd
  dsimp only at hadd
  cases hget : wallet.mapWallet[wtxIn.getHash hash]? with
  | none =>
    simp only [hget] at hadd
    split_ifs at hadd
    · cases hadd
      exact mem_put
    · exact (mem_walletUpdateSpent hadd).trans mem_put
  | some wtx =>
    simp only [hget] at hadd
    split_ifs at hadd
    · cases hadd
      exact mem_put
    · exact (mem_walletUpdateSpent hadd).trans mem_put

/-- A transaction of a connected block is in the wallet then if it was or if it involves it. -/
lemma mem_join (hjoin : wallet.addToWalletIfInvolvingMe hash hash9 tx block = .ok wallet') :
    k ∈ wallet'.mapWallet ↔ k ∈ wallet.mapWallet ∨
      k = tx.getHash hash ∧ (wallet.isMineTx tx = true ∨ wallet.fromMe tx = true) := by
  have hadded : ∀ wallet', ((setMerkleBranch hash hash9 tx block).bind fun place =>
      wallet.addToWallet hash { toCMerkleTx := place }) = .ok wallet' →
      (k ∈ wallet'.mapWallet ↔ k = tx.getHash hash ∨ k ∈ wallet.mapWallet) := by
    intro wallet' hbind
    obtain ⟨place, hplace, hadd⟩ := bind_eq_ok.mp hbind
    rw [mem_addToWallet hadd]
    change k = place.getHash hash ∨ _ ↔ _
    rw [setMerkleBranch_toCTransaction hplace]
  unfold addToWalletIfInvolvingMe at hjoin
  dsimp only at hjoin
  by_cases hknown : tx.getHash hash ∈ wallet.mapWallet
  · rw [if_pos hknown] at hjoin
    rw [hadded wallet' hjoin]
    constructor
    · rintro (rfl | hmem)
      · exact Or.inl hknown
      · exact Or.inl hmem
    · rintro (hmem | ⟨rfl, -⟩)
      · exact Or.inr hmem
      · exact Or.inl rfl
  · rw [if_neg hknown] at hjoin
    cases hmine : wallet.isMineTx tx with
    | true =>
      rw [hmine, if_pos rfl] at hjoin
      rw [hadded wallet' hjoin]
      tauto
    | false =>
      rw [hmine, if_neg Bool.false_ne_true] at hjoin
      obtain ⟨fFromMe, hfromMe, hrest⟩ := bind_eq_ok.mp hjoin
      have hfrom : wallet.fromMe tx = fFromMe := by
        rw [fromMe, hfromMe]
        rfl
      rw [hfrom]
      cases fFromMe with
      | true =>
        rw [hadded wallet' hrest]
        tauto
      | false =>
        rw [mem_walletUpdateSpent hrest]
        tauto

/-- Whether a transaction is from the wallet depends on the outputs of its transactions. -/
lemma fromMe_congr (hmine : wallet'.isMine = wallet.isMine)
    (houts : wallet'.view.outs = wallet.view.outs) : wallet'.fromMe tx = wallet.fromMe tx := by
  have hown : ∀ h n, wallet'.ownOutput h n = wallet.ownOutput h n := by
    intro h n
    have hbind : ∀ wallet : CWallet, (wallet.mapWallet[h]?.bind fun prev => prev.vout[n]?) =
        (wallet.view.outs h).bind fun vout => vout[n]? := by
      intro wallet
      rw [View.outs, view, Option.map_map, Option.bind_map]
      rfl
    rw [ownOutput, ownOutput, hbind wallet', hbind wallet, houts, hmine]
  have hloop : ∀ (vin : List CTxIn) (nDebit : Int64),
      wallet'.getDebitLoop nDebit vin = wallet.getDebitLoop nDebit vin := by
    intro vin
    induction vin with
    | nil => exact fun nDebit => rfl
    | cons txin vin ih =>
      intro nDebit
      have hdebit : wallet'.getDebitOf txin = wallet.getDebitOf txin := by
        rw [getDebitOf, getDebitOf, hown]
      rw [getDebitLoop, getDebitLoop, hdebit, ih]
  rw [fromMe, fromMe, isFromMe, isFromMe, getDebit, getDebit, hloop]

/-! ## Whole blocks -/

/-- Tell a wallet of the transactions of disconnected blocks. -/
def undoAll (wallet : CWallet) (undone : List CTransaction) : Except Fault CWallet :=
  undone.foldlM syncDisconnected wallet

/-- Tell a wallet of the transactions of connected blocks. -/
def joinAll (hash hash9 : Bytes → UInt256) (wallet : CWallet)
    (joined : List (CTransaction × CBlock)) : Except Fault CWallet :=
  joined.foldlM (fun wallet item => wallet.addToWalletIfInvolvingMe hash hash9 item.1 item.2) wallet

/-- No transaction of the connected blocks is new to the wallet and involves it. -/
def NoNew (hash : Bytes → UInt256) (wallet : CWallet) (joined : List (CTransaction × CBlock)) :
    Prop :=
  ∀ item ∈ joined, item.1.getHash hash ∉ wallet.mapWallet →
    wallet.isMineTx item.1 = false ∧ wallet.fromMe item.1 = false

variable {joined : List (CTransaction × CBlock)}

lemma NoNew.congr (hnoNew : NoNew hash wallet joined) (hmine : wallet'.isMine = wallet.isMine)
    (hkeys : ∀ k, k ∈ wallet'.mapWallet ↔ k ∈ wallet.mapWallet)
    (houts : wallet'.view.outs = wallet.view.outs) : NoNew hash wallet' joined := by
  intro item hitem hnew
  rw [isMineTx, hmine, fromMe_congr hmine houts]
  exact hnoNew item hitem fun hmem => hnew ((hkeys _).mpr hmem)

/-- What the wallet knows is only moved, and it stays in the wallet. -/
lemma outs_join {coins : List (UInt256 × ℕ)}
    (hshows : Shows wallet wallet' ((wallet.view.moved (joinPlace hash hash9 item)).marked
      wallet.isMine true coins)) : wallet'.view.outs = wallet.view.outs := by
  rw [hshows.view, View.outs_marked]
  refine View.outs_moved fun h p => ?_
  rw [joinPlace_toCTransaction]

lemma mem_of_outs (houts : wallet'.view.outs = wallet.view.outs) :
    k ∈ wallet'.mapWallet ↔ k ∈ wallet.mapWallet := by
  have hnone : ∀ wallet : CWallet, wallet.view.outs k = none ↔ k ∉ wallet.mapWallet := by
    intro wallet
    rw [View.outs, Option.map_eq_none_iff, view_eq_none]
  rw [← not_iff_not, ← hnone, ← hnone, houts]

/-- The refunds of the transactions of disconnected blocks. -/
lemma shows_undoAll {undone : List CTransaction} (hundo : wallet.undoAll undone = .ok wallet') :
    Shows wallet wallet' (wallet.view.marked wallet.isMine false (undone.flatMap wallet.refunds)) := by
  unfold undoAll at hundo
  induction undone generalizing wallet with
  | nil =>
    cases hundo
    rw [List.flatMap_nil, View.marked_nil]
    exact .refl _
  | cons tx undone ih =>
    obtain ⟨wallet₁, hfirst, hrest⟩ := foldlM_cons_eq_ok.mp hundo
    have hshows := shows_syncDisconnected hfirst
    have hrefunds : wallet₁.refunds = wallet.refunds := by
      funext tx
      unfold refunds
      rw [fromMe_congr hshows.isMine (by rw [hshows.view, View.outs_marked])]
    obtain ⟨hsurroundings, hview⟩ := ih hrest
    rw [hshows.isMine, hshows.view, hrefunds, ← View.marked_append, ← List.flatMap_cons] at hview
    exact ⟨hsurroundings.trans hshows.surroundings, hview⟩

/-- What a wallet shows after it has been told of nothing new. -/
lemma shows_joinAll (hnoNew : NoNew hash wallet joined)
    (hjoin : wallet.joinAll hash hash9 joined = .ok wallet') :
    Shows wallet wallet' ((wallet.view.moved (placeAfter hash hash9 joined)).marked wallet.isMine
      true (told hash hash9 wallet.writeToDisk wallet.view.places joined)) := by
  unfold joinAll at hjoin
  induction joined generalizing wallet with
  | nil =>
    cases hjoin
    refine ⟨rfl, ?_⟩
    have hmoved : wallet'.view.moved (placeAfter hash hash9 []) = wallet'.view :=
      funext fun h => congrFun Option.map_id_fun' (wallet'.view h)
    rw [told, View.marked_nil, hmoved]
  | cons item joined ih =>
    obtain ⟨wallet₁, hfirst, hrest⟩ := foldlM_cons_eq_ok.mp hjoin
    have hshows := shows_join (hnoNew item List.mem_cons_self) hfirst
    have houts := outs_join hshows
    have hnoNew₁ : NoNew hash wallet₁ joined :=
      NoNew.congr (fun item hitem => hnoNew item (List.mem_cons_of_mem _ hitem)) hshows.isMine
        (fun k => mem_of_outs houts) houts
    obtain ⟨hsurroundings, hview⟩ := ih hnoNew₁ hrest
    have hplaces : wallet₁.view.places =
        fun h => (wallet.view.places h).map (joinPlace hash hash9 item h) := by
      rw [hshows.view, View.places_marked, View.places_moved]
    have hvout : ∀ h p, (placeAfter hash hash9 joined h p).vout = p.vout := by
      intro h p
      rw [placeAfter_toCTransaction]
    refine ⟨hsurroundings.trans hshows.surroundings, ?_⟩
    rw [hview, hplaces, hshows.isMine, hshows.writeToDisk, hshows.view, View.moved_marked hvout,
      View.moved_moved, ← View.marked_append]
    rfl

/-- Nothing leaves a wallet. -/
lemma mem_joinAll (hjoin : wallet.joinAll hash hash9 joined = .ok wallet')
    (hmem : k ∈ wallet.mapWallet) : k ∈ wallet'.mapWallet := by
  unfold joinAll at hjoin
  induction joined generalizing wallet with
  | nil =>
    cases hjoin
    exact hmem
  | cons item joined ih =>
    obtain ⟨wallet₁, hfirst, hrest⟩ := foldlM_cons_eq_ok.mp hjoin
    exact ih hrest ((mem_join hfirst).mpr (Or.inl hmem))

/-- A wallet that has no new transaction at the end has been told of none. -/
lemma noNew_of_mem (hjoin : wallet.joinAll hash hash9 joined = .ok wallet')
    (hkeys : ∀ k, k ∈ wallet'.mapWallet → k ∈ wallet.mapWallet) : NoNew hash wallet joined := by
  induction joined generalizing wallet with
  | nil => exact fun _ hitem => absurd hitem List.not_mem_nil
  | cons item joined ih =>
    obtain ⟨wallet₁, hfirst, hrest⟩ := foldlM_cons_eq_ok.mp hjoin
    have hnew : item.1.getHash hash ∉ wallet.mapWallet →
        wallet.isMineTx item.1 = false ∧ wallet.fromMe item.1 = false := by
      intro hnew
      -- what is new stays in the wallet to the end
      have hout : ¬ (wallet.isMineTx item.1 = true ∨ wallet.fromMe item.1 = true) := fun hinvolved =>
        hnew (hkeys _ (mem_joinAll hrest ((mem_join hfirst).mpr (Or.inr ⟨rfl, hinvolved⟩))))
      rwa [not_or, Bool.not_eq_true, Bool.not_eq_true] at hout
    have hshows := shows_join hnew hfirst
    have houts := outs_join hshows
    have hnoNew₁ := ih hrest fun k hk => (mem_of_outs houts).mpr (hkeys k hk)
    intro item' hitem
    rcases List.mem_cons.mp hitem with rfl | hitem
    · exact hnew
    · exact (hnoNew₁.congr hshows.isMine.symm (fun k => (mem_of_outs houts).symm) houts.symm) item'
        hitem

/-- A wallet shows the same when some transactions have been disconnected and others connected. -/
structure Untouched (hash hash9 : Bytes → UInt256) (wallet : CWallet) (undone : List CTransaction)
    (joined : List (CTransaction × CBlock)) : Prop where
  noNew : NoNew hash wallet joined
  /-- Every transaction of the wallet ends where it was. -/
  placed : ∀ h e, wallet.view h = some e → placeAfter hash hash9 joined h e.place = e.place
  /-- What is refunded and was spent is spent again. -/
  refunded : ∀ h e i, wallet.view h = some e → e.owns wallet.isMine i = true → e.fSpent i = true →
    (h, i) ∈ undone.flatMap wallet.refunds →
    (h, i) ∈ told hash hash9 wallet.writeToDisk wallet.view.places joined
  /-- What is spent was spent. -/
  spent : ∀ h e i, wallet.view h = some e → e.owns wallet.isMine i = true →
    (h, i) ∈ told hash hash9 wallet.writeToDisk wallet.view.places joined → e.fSpent i = true

/-- A wallet shows the same after disconnected and connected transactions exactly if it is not touched
by them. -/
theorem view_eq_iff_untouched {undone : List CTransaction}
    (hrun : (wallet.undoAll undone).bind (joinAll hash hash9 · joined) = .ok wallet') :
    wallet'.view = wallet.view ↔ Untouched hash hash9 wallet undone joined := by
  obtain ⟨wallet₁, hundo, hjoin⟩ := bind_eq_ok.mp hrun
  have hshows := shows_undoAll hundo
  have houts : wallet₁.view.outs = wallet.view.outs := by rw [hshows.view, View.outs_marked]
  have hnoNew : NoNew hash wallet₁ joined ↔ NoNew hash wallet joined :=
    ⟨fun h => h.congr hshows.isMine.symm (fun k => (mem_of_outs houts).symm) houts.symm,
      fun h => h.congr hshows.isMine (fun k => mem_of_outs houts) houts⟩
  by_cases hnew : NoNew hash wallet joined
  · have hshows' := shows_joinAll (hnoNew.mpr hnew) hjoin
    rw [hshows'.view, hshows.isMine, hshows.writeToDisk, hshows.view, View.places_marked,
      View.marked_moved_marked_eq_iff fun h p => by rw [placeAfter_toCTransaction]]
    constructor
    · intro hall
      exact ⟨hnew, fun h e hentry => (hall h e hentry).1,
        fun h e i hentry howns hspent hrefund => ((hall h e hentry).2 i howns).2 hspent hrefund,
        fun h e i hentry howns htold => ((hall h e hentry).2 i howns).1 htold⟩
    · intro huntouched h e hentry
      exact ⟨huntouched.placed h e hentry, fun i howns => ⟨huntouched.spent h e i hentry howns,
        huntouched.refunded h e i hentry howns⟩⟩
  · refine iff_of_false (fun hsame => hnew ?_) fun huntouched => hnew huntouched.noNew
    refine hnoNew.mp (noNew_of_mem hjoin fun k hk => ?_)
    rw [mem_of_outs houts]
    exact (mem_of_outs (congrArg View.outs hsame)).mp hk

end CWallet

end HyperStake.WalletTx
