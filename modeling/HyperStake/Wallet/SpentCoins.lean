import HyperStake.Library.Claimants
import HyperStake.Wallet.Untouched

/-!
# The outputs that a wallet takes for spent

A wallet is told of the transactions of connected and disconnected blocks and of those that the pool
accepts.  An own output should be marked as spent when a transaction of the wallet spends it that is
not a disconnected coin stake.  The wallet follows this (`spentTracked_of_run`) as long as it can write
what it adds, takes every transaction that spends one of its outputs for its own, and no coin stake
is disconnected whose inputs another transaction of the wallet spends as well: `DisableTransaction`
marks them as unspent without looking for that one (`not_spentTracked`).
-/

namespace HyperStake.WalletTx

open ExceptLoop

/-! ## Calls of `SyncWithWallets` -/

/-- What `SyncWithWallets` is called for: a transaction of a connected block or, without a block, one
that the pool has accepted, or a transaction of a disconnected block. -/
inductive SyncCall where
  | delivered (tx : CTransaction) (pblock : Option CBlock)
  | disconnected (tx : CTransaction)

namespace SyncCall

/-- The transaction. -/
def tx : SyncCall → CTransaction
  | delivered tx _ => tx
  | disconnected tx => tx

/-- The transaction, if it is delivered. -/
def delivery : SyncCall → Option CTransaction
  | delivered tx _ => some tx
  | disconnected _ => none

/-- The coin stakes that are disconnected after a call. -/
def goneAfter (hash : Bytes → UInt256) (gone : UInt256 → Bool) : SyncCall → UInt256 → Bool
  | delivered tx _ => Function.update gone (tx.getHash hash) false
  | disconnected tx =>
    if tx.isCoinStake then Function.update gone (tx.getHash hash) true else gone

end SyncCall

/-- The transactions that are delivered by some calls. -/
def deliveries (calls : List SyncCall) : List CTransaction := calls.filterMap SyncCall.delivery

/-- The coin stakes that are disconnected after some calls. -/
def disconnectedStakes (hash : Bytes → UInt256) (calls : List SyncCall) : UInt256 → Bool :=
  calls.foldl (SyncCall.goneAfter hash) fun _ => false

/-- Parents are delivered before their children, and no two transactions have the same hash. -/
structure InOrder (hash : Bytes → UInt256) (calls : List SyncCall) : Prop where
  parents : ∀ (pre : List SyncCall) (call : SyncCall) (post : List SyncCall) (tx : CTransaction),
    calls = pre ++ call :: post → call.delivery = some tx → ∀ txin ∈ tx.vin,
      ∀ parent ∈ deliveries (call :: post), parent.getHash hash = txin.prevout.hash →
        parent ∈ deliveries pre
  tx_eq : ∀ call ∈ calls, ∀ call' ∈ calls,
    call.tx.getHash hash = call'.tx.getHash hash → call.tx = call'.tx

namespace CWallet

section Calls

variable (hash hash9 : Bytes → UInt256) (wallet : CWallet)

/-- The place of a transaction in the block that it comes with. -/
def placeIn (tx : CTransaction) : Option CBlock → Except Fault CMerkleTx
  | some block => setMerkleBranch hash hash9 tx block
  | none => .ok { toCTransaction := tx }

/-- `AddToWalletIfInvolvingMe` with `fUpdate`, of a transaction with the place where it is. -/
def addInvolved (tx : CTransaction) (place : Except Fault CMerkleTx) : Except Fault CWallet :=
  let add := place.bind fun place => wallet.addToWallet hash { toCMerkleTx := place }
  if tx.getHash hash ∈ wallet.mapWallet then add
  else if wallet.isMineTx tx then add
  else (wallet.isFromMe tx).bind fun fFromMe =>
    if fFromMe then add else wallet.walletUpdateSpent tx.vin

/-- A call of `SyncWithWallets`, for one of the wallets. -/
def syncCall (wallet : CWallet) : SyncCall → Except Fault CWallet
  | .delivered tx pblock => wallet.addInvolved hash tx (placeIn hash hash9 tx pblock)
  | .disconnected tx => wallet.syncDisconnected tx

/-- Calls of `SyncWithWallets`, one after the other. -/
def syncAll (calls : List SyncCall) : Except Fault CWallet :=
  calls.foldlM (syncCall hash hash9) wallet

end Calls

/-- An own output is marked as spent if and only if a transaction of the wallet spends it that is not
a disconnected coin stake. -/
def SpentTracked (wallet : CWallet) (gone : UInt256 → Bool) : Prop :=
  ∀ (h : UInt256) (wtx : CWalletTx) (n : ℕ) (txout : CTxOut),
    wallet.mapWallet[h]? = some wtx → wtx.vout[n]? = some txout → wallet.isMine txout = true →
    (wtx.isSpent n = .ok true ↔ ∃ (k : UInt256) (spender : CWalletTx),
      wallet.mapWallet[k]? = some spender ∧ gone k = false ∧ (h, n) ∈ spender.vin.map spends)

/-! ## The conditions -/

section Conditions

variable (hash hash9 : Bytes → UInt256) (wallet : CWallet) (gone : UInt256 → Bool)

/-- An output of a transaction of the wallet is the wallet's. -/
def ownsCoin (coin : UInt256 × ℕ) : Prop :=
  ∃ e, wallet.view coin.1 = some e ∧ e.owns wallet.isMine coin.2 = true

/-- `AddToWallet` writes what it has changed. -/
def written (place : CMerkleTx) : Bool :=
  match wallet.view.places (place.getHash hash) with
  | none => wallet.writeToDisk place
  | some p => decide (mergePlace p place = p) || wallet.writeToDisk (mergePlace p place)

/-- The condition on a call: the wallet is told of a transaction that spends one of its outputs only
if it has the transaction already, or takes it for its own and can write it, and of a disconnected
coin stake only if it takes it for its own and has no other transaction with one of these inputs. -/
def Follows : SyncCall → Prop
  | .delivered tx pblock =>
    (∃ coin ∈ tx.vin.map spends, wallet.ownsCoin coin) →
      tx.getHash hash ∈ wallet.mapWallet ∧ gone (tx.getHash hash) = false ∨
        (tx.getHash hash ∈ wallet.mapWallet ∨ wallet.isMineTx tx = true ∨ wallet.fromMe tx = true) ∧
          ∀ place, placeIn hash hash9 tx pblock = .ok place → wallet.written hash place = true
  | .disconnected tx =>
    tx.isCoinStake = true → ∀ coin ∈ tx.vin.map spends, wallet.ownsCoin coin →
      wallet.fromMe tx = true ∧
        ∀ k e, wallet.view k = some e → gone k = false → k ≠ tx.getHash hash → coin ∉ e.claims

end Conditions

/-! ## What a delivered transaction does to the view -/

section Delivered

variable {hash hash9 : Bytes → UInt256} {wallet wallet' : CWallet} {tx : CTransaction}
  {place : CMerkleTx} {block : CBlock} {pblock : Option CBlock}

lemma placeIn_toCTransaction (hplace : placeIn hash hash9 tx pblock = .ok place) :
    place.toCTransaction = tx := by
  cases pblock with
  | none =>
    cases hplace
    rfl
  | some block => exact setMerkleBranch_toCTransaction hplace

/-- What the wallet shows of a transaction that has been added. -/
def entryAfter (old : Option Entry) (place : CMerkleTx) (e : Entry) : Prop :=
  match old with
  | none => e.place = place ∧ e.fSpent = fun _ => false
  | some old => e.place.toCTransaction = old.place.toCTransaction ∧ e.fSpent = old.fSpent

/-- Adding a transaction puts it into the view and marks what it spends if it is written. -/
lemma exists_shows_addToWallet
    (hadd : wallet.addToWallet hash { toCMerkleTx := place } = .ok wallet') :
    ∃ e, entryAfter (wallet.view (place.getHash hash)) place e ∧
      Shows wallet wallet' ((View.marked wallet.isMine true
        (if wallet.written hash place then e.claims else [])
        (Function.update wallet.view (place.getHash hash) (some e)))) := by
  -- what happens after the transaction has been put into the wallet
  have hspend : ∀ (wallet₁ : CWallet) (wtx : CWalletTx),
      wallet₁.surroundings = wallet.surroundings →
      wallet₁.view = Function.update wallet.view (place.getHash hash) (some wtx.entry) →
      (if wallet.written hash place then wallet₁.walletUpdateSpent wtx.vin else .ok wallet₁) =
        .ok wallet' →
      Shows wallet wallet' (View.marked wallet.isMine true
        (if wallet.written hash place then wtx.entry.claims else [])
        (Function.update wallet.view (place.getHash hash) (some wtx.entry))) := by
    intro wallet₁ wtx hsurroundings hview hrest
    have hmine : wallet₁.isMine = wallet.isMine := (congrArg CWallet.isMine hsurroundings :)
    split_ifs at hrest ⊢
    · have hshows := shows_walletUpdateSpent hrest
      rw [hview, hmine] at hshows
      exact ⟨hshows.surroundings.trans hsurroundings, hshows.view⟩
    · cases hrest
      rw [View.marked_nil]
      exact ⟨hsurroundings, hview⟩
  unfold addToWallet at hadd
  dsimp only at hadd
  cases hget : wallet.mapWallet[place.getHash hash]? with
  | none =>
    have hnone : wallet.view (place.getHash hash) = none := by
      rw [view, hget]
      rfl
    have hwritten : wallet.written hash place = wallet.writeToDisk place := by
      rw [written, View.places, hnone]
      rfl
    rw [hget] at hadd
    dsimp only at hadd
    let wtx : CWalletTx :=
      { toCMerkleTx := place
        nTimeReceived := wallet.adjustedTime place
        nOrderPos := wallet.nOrderPosNext
        nTimeSmart := wallet.timeSmart place }
    let wallet₁ : CWallet :=
      { wallet.put (place.getHash hash) wtx with nOrderPosNext := wallet.nOrderPosNext + 1 }
    refine ⟨wtx.entry, ?_, hspend wallet₁ wtx rfl view_put ?_⟩
    · rw [hnone]
      exact ⟨rfl, funext fun i => Bool.and_false _⟩
    · change (if (!wallet.writeToDisk place) = true then .ok wallet₁
        else wallet₁.walletUpdateSpent wtx.vin) = _ at hadd
      rw [← hadd, hwritten]
      cases wallet.writeToDisk place <;> rfl
  | some wtx =>
    obtain ⟨hentry, hupdated, hmerged⟩ := @merge_place wtx place
    have hview : wallet.view (place.getHash hash) = some wtx.entry := view_eq_some hget
    have hwritten : wallet.written hash place =
        (decide (mergePlace wtx.toCMerkleTx place = wtx.toCMerkleTx) ||
          wallet.writeToDisk (mergePlace wtx.toCMerkleTx place)) := by
      rw [written, View.places, hview]
      rfl
    rw [hget] at hadd
    dsimp only at hadd
    let merged : CWalletTx := (merge wtx { toCMerkleTx := place }).1
    refine ⟨merged.entry, ?_, hspend (wallet.put (place.getHash hash) merged) merged rfl
      view_put ?_⟩
    · rw [hview]
      change merged.entry.place.toCTransaction = _ ∧ merged.entry.fSpent = _
      rw [hentry]
      exact ⟨mergePlace_toCTransaction, rfl⟩
    · change (if ((merge wtx { toCMerkleTx := place }).2 &&
        !wallet.writeToDisk merged.toCMerkleTx) = true then Except.ok _ else _) = _ at hadd
      rw [← hadd, hwritten, hupdated, hmerged, ← Bool.not_not (decide (mergePlace _ _ = _)),
        ← decide_not]
      cases decide (mergePlace wtx.toCMerkleTx place ≠ wtx.toCMerkleTx) <;>
        cases wallet.writeToDisk (mergePlace wtx.toCMerkleTx place) <;> rfl

end Delivered

end CWallet

/-! ## Marks and claims of a view -/

namespace View

/-- The own outputs of the transactions. -/
def ownCoins (isMine : CTxOut → Bool) (view : View) : Set (UInt256 × ℕ) :=
  {coin | ∃ e, view coin.1 = some e ∧ e.owns isMine coin.2 = true}

/-- The outputs that are marked as spent. -/
def spentCoins (view : View) : Set (UInt256 × ℕ) :=
  {coin | ∃ e, view coin.1 = some e ∧ e.fSpent coin.2 = true}

/-- The outputs that a transaction claims. -/
def claimsOf (view : View) (k : UInt256) : Set (UInt256 × ℕ) :=
  {coin | ∃ e, view k = some e ∧ coin ∈ e.claims}

/-- The transactions that are not disconnected coin stakes. -/
def live (view : View) (gone : UInt256 → Bool) : Set UInt256 :=
  {k | view k ≠ none ∧ gone k = false}

/-- The own outputs that are marked as spent are those that are claimed. -/
def Tracks (isMine : CTxOut → Bool) (view : View) (gone : UInt256 → Bool) : Prop :=
  Claimants.Faithful (view.ownCoins isMine) view.spentCoins view.claimsOf (view.live gone)

variable {isMine : CTxOut → Bool} {view : View} {gone gone' : UInt256 → Bool} {fSpent : Bool}
  {coins : List (UInt256 × ℕ)} {coin : UInt256 × ℕ} {h k : UInt256} {e : Entry} {place : CMerkleTx}

lemma marked_eq_some {e' : Entry} :
    view.marked isMine fSpent coins h = some e' ↔
      ∃ e, view h = some e ∧ e.marked isMine fSpent coins h = e' :=
  Option.map_eq_some_iff

@[simp] lemma ownCoins_marked :
    (view.marked isMine fSpent coins).ownCoins isMine = view.ownCoins isMine := by
  ext coin
  constructor
  · rintro ⟨e', hentry, howns⟩
    obtain ⟨e, hold, rfl⟩ := marked_eq_some.mp hentry
    exact ⟨e, hold, howns⟩
  · rintro ⟨e, hentry, howns⟩
    exact ⟨_, marked_eq_some.mpr ⟨e, hentry, rfl⟩, howns⟩

@[simp] lemma claimsOf_marked : (view.marked isMine fSpent coins).claimsOf = view.claimsOf := by
  funext k
  ext coin
  constructor
  · rintro ⟨e', hentry, hclaims⟩
    obtain ⟨e, hold, rfl⟩ := marked_eq_some.mp hentry
    exact ⟨e, hold, hclaims⟩
  · rintro ⟨e, hentry, hclaims⟩
    exact ⟨_, marked_eq_some.mpr ⟨e, hentry, rfl⟩, hclaims⟩

@[simp] lemma live_marked : (view.marked isMine fSpent coins).live gone = view.live gone := by
  ext k
  exact and_congr_left' (not_congr marked_eq_none)

lemma places_update :
    View.places (Function.update view k (some e)) h =
      if h = k then some e.place else view.places h := by
  rw [places]
  split_ifs with hk
  · rw [hk, Function.update_self]
    rfl
  · rw [Function.update_of_ne hk]
    rfl

/-- The own outputs that are marked as spent after some outputs have been marked. -/
lemma mem_spentCoins_marked (howns : coin ∈ view.ownCoins isMine) :
    coin ∈ (view.marked isMine fSpent coins).spentCoins ↔
      if coin ∈ coins then fSpent = true else coin ∈ view.spentCoins := by
  obtain ⟨e, hentry, howns⟩ := howns
  have hafter : coin ∈ (view.marked isMine fSpent coins).spentCoins ↔
      (e.marked isMine fSpent coins coin.1).fSpent coin.2 = true := by
    constructor
    · rintro ⟨e', hentry', hspent⟩
      obtain ⟨e₁, hold, rfl⟩ := marked_eq_some.mp hentry'
      cases hentry.symm.trans hold
      exact hspent
    · exact fun hspent => ⟨_, marked_eq_some.mpr ⟨e, hentry, rfl⟩, hspent⟩
  have hbefore : coin ∈ view.spentCoins ↔ e.fSpent coin.2 = true := by
    constructor
    · rintro ⟨e', hentry', hspent⟩
      cases hentry.symm.trans hentry'
      exact hspent
    · exact fun hspent => ⟨e, hentry, hspent⟩
  rw [hafter, hbefore]
  simp only [Entry.marked, howns, and_true]
  split_ifs <;> rfl

/-- A transaction is added, or another one with the same inputs and outputs takes its place: the
marks are as they should be if what it claims is marked. -/
lemma Tracks.added (htracks : view.Tracks isMine gone)
    (hentry : CWallet.entryAfter (view k) place e)
    (hnew : view k = none → ∀ n, e.owns isMine n = true → ∀ j s, view j = some s →
      (k, n) ∉ s.claims)
    (hcoins : ∀ coin ∈ coins, coin ∈ e.claims)
    (hmarks : ∀ coin ∈ (View.ownCoins isMine (Function.update view k (some e))),
      coin ∈ e.claims → coin ∈ coins ∨ coin ∈ view.spentCoins) :
    (View.marked isMine true coins (Function.update view k (some e))).Tracks isMine
      (Function.update gone k false) := by
  have hother : ∀ j ≠ k, Function.update view k (some e) j = view j :=
    fun j hj => Function.update_of_ne hj _ _
  have hself : Function.update view k (some e) k = some e := Function.update_self _ _ _
  have hknown : ∀ old, view k = some old →
      e.place.toCTransaction = old.place.toCTransaction ∧ e.fSpent = old.fSpent := by
    intro old hold
    rwa [hold] at hentry
  -- nothing is marked yet by the transaction itself
  have hspent : View.spentCoins (Function.update view k (some e)) = view.spentCoins := by
    ext ⟨j, n⟩
    by_cases hj : j = k
    · subst hj
      cases hold : view j with
      | none =>
        rw [hold] at hentry
        refine iff_of_false ?_ ?_
        · rintro ⟨e', he', hmark⟩
          cases hself.symm.trans he'
          rw [hentry.2] at hmark
          cases hmark
        · rintro ⟨e', he', -⟩
          cases hold.symm.trans he'
      | some old =>
        have hflag := (hknown old hold).2
        constructor
        · rintro ⟨e', he', hmark⟩
          cases hself.symm.trans he'
          exact ⟨old, hold, hflag ▸ hmark⟩
        · rintro ⟨e', he', hmark⟩
          cases hold.symm.trans he'
          exact ⟨e, hself, hflag.symm ▸ hmark⟩
    · change (∃ e', _ = some e' ∧ _) ↔ ∃ e', _ = some e' ∧ _
      rw [hother j hj]
  unfold Tracks
  rw [ownCoins_marked, claimsOf_marked, live_marked]
  refine htracks.join (k := k) ?_ ?_ ?_ ?_
  · intro j
    by_cases hj : j = k
    · subst hj
      have hsome : Function.update view j (some e) j ≠ none := by
        rw [hself]
        exact Option.some_ne_none e
      exact iff_of_true ⟨hsome, Function.update_self _ _ _⟩ (Or.inl rfl)
    · change (_ ≠ none ∧ _ = false) ↔ _
      rw [hother j hj, Function.update_of_ne hj]
      exact (or_iff_right hj).symm
  · rintro j ⟨hsome, -⟩
    by_cases hj : j = k
    · subst hj
      obtain ⟨old, hold⟩ := Option.ne_none_iff_exists'.mp hsome
      have hclaims : e.claims = old.claims := by
        rw [Entry.claims, (hknown old hold).1]
        rfl
      ext coin
      constructor
      · rintro ⟨e', he', hclaim⟩
        cases hself.symm.trans he'
        exact ⟨old, hold, hclaims ▸ hclaim⟩
      · rintro ⟨e', he', hclaim⟩
        cases hold.symm.trans he'
        exact ⟨e, hself, hclaims.symm ▸ hclaim⟩
    · rw [claimsOf, hother j hj]
      rfl
  · intro coin hown
    rw [mem_spentCoins_marked hown, hspent]
    have hclaim : coin ∈ claimsOf (Function.update view k (some e)) k ↔ coin ∈ e.claims := by
      constructor
      · rintro ⟨e', he', hclaim⟩
        cases hself.symm.trans he'
        exact hclaim
      · exact fun hclaim => ⟨e, hself, hclaim⟩
    rw [hclaim]
    split_ifs with hmem
    · exact iff_of_true rfl (Or.inl (hcoins coin hmem))
    · constructor
      · exact Or.inr
      · rintro (hclaim | hmark)
        · exact (hmarks coin hown hclaim).resolve_left hmem
        · exact hmark
  · rintro ⟨j, n⟩ ⟨e', he', howns⟩ hnot
    dsimp only at he' howns
    by_cases hj : j = k
    · subst hj
      cases hself.symm.trans he'
      have hnone : view j = none := by
        by_contra hsome
        obtain ⟨old, hold⟩ := Option.ne_none_iff_exists'.mp hsome
        refine hnot ⟨old, hold, ?_⟩
        rw [Entry.owns, (hknown old hold).1] at howns
        exact howns
      refine ⟨?_, ?_⟩
      · rintro ⟨old, hold, -⟩
        cases hnone.symm.trans hold
      · rintro i - ⟨s, hs, hclaim⟩
        exact hnew hnone n howns i s hs hclaim
    · rw [hother j hj] at he'
      exact absurd ⟨e', he', howns⟩ hnot

/-- A coin stake is disconnected and the marks of its inputs are taken away. -/
lemma Tracks.removed {claimed : List (UInt256 × ℕ)} (htracks : view.Tracks isMine gone)
    (hclaimed : ∀ e, view k = some e → e.claims = claimed) (hcoins : ∀ coin ∈ coins, coin ∈ claimed)
    (halone : ∀ coin ∈ view.ownCoins isMine, coin ∈ claimed → coin ∈ coins ∧
      ∀ j s, view j = some s → gone j = false → j ≠ k → coin ∉ s.claims) :
    (view.marked isMine false coins).Tracks isMine (Function.update gone k true) := by
  unfold Tracks
  rw [ownCoins_marked, claimsOf_marked, live_marked]
  refine (htracks.leave_iff (k := k) (s := {coin | coin ∈ claimed}) ?_ ?_ ?_).mpr ?_
  · intro j
    by_cases hj : j = k
    · subst hj
      refine iff_of_false (fun hlive => ?_) fun hlive => hlive.1 rfl
      exact absurd ((Function.update_self _ _ _).symm.trans hlive.2) (by decide)
    · change (_ ∧ _ = false) ↔ _
      rw [Function.update_of_ne hj]
      exact (and_iff_right hj).symm
  · rintro ⟨hsome, -⟩
    obtain ⟨e, hentry⟩ := Option.ne_none_iff_exists'.mp hsome
    ext coin
    constructor
    · rintro ⟨e', he', hclaim⟩
      cases hentry.symm.trans he'
      exact hclaimed e hentry ▸ hclaim
    · exact fun hclaim => ⟨e, hentry, (hclaimed e hentry).symm ▸ hclaim⟩
  · intro coin hown
    rw [mem_spentCoins_marked hown]
    split_ifs with hmem
    · exact iff_of_false id fun hnot => hnot.1 (hcoins coin hmem)
    · exact (and_iff_right fun hclaim => hmem (halone coin hown hclaim).1).symm
  · rintro coin hown hclaim j ⟨-, hlive⟩ hj ⟨s, hs, hmem⟩
    exact (halone coin hown hclaim).2 j s hs hlive hj hmem

/-- Nothing is marked if none of the outputs is the wallet's. -/
lemma marked_eq_of_notMem_ownCoins (hnone : ∀ coin ∈ coins, coin ∉ view.ownCoins isMine) :
    view.marked isMine fSpent coins = view := by
  funext j
  cases hentry : view j with
  | none => exact marked_eq_none.mpr hentry
  | some e =>
    refine marked_eq_some.mpr ⟨e, hentry, ?_⟩
    unfold Entry.marked
    refine congrArg (fun fSpent => { e with fSpent }) (funext fun i => ?_)
    exact if_neg fun hmem => hnone _ hmem.1 ⟨e, hentry, hmem.2⟩

/-- A transaction that the view does not show is not live. -/
lemma live_update {b : Bool} (hnone : view k = none) :
    view.live (Function.update gone k b) = view.live gone := by
  ext j
  refine and_congr_right fun hsome => ?_
  have hj : j ≠ k := by
    rintro rfl
    exact hsome hnone
  rw [Function.update_of_ne hj]

end View

/-! ## One call -/

section Steps

open CWallet

variable {hash hash9 : Bytes → UInt256} {wallet wallet' : CWallet} {tx : CTransaction}
  {pblock : Option CBlock} {pre : List SyncCall} {call : SyncCall}

lemma deliveries_append (calls calls' : List SyncCall) :
    deliveries (calls ++ calls') = deliveries calls ++ deliveries calls' :=
  List.filterMap_append

lemma disconnectedStakes_concat : disconnectedStakes hash (pre ++ [call]) =
    call.goneAfter hash (disconnectedStakes hash pre) :=
  List.foldl_append

/-- What `AddToWalletIfInvolvingMe` does with a transaction. -/
lemma addInvolved_cases {place : Except Fault CMerkleTx}
    (hadd : wallet.addInvolved hash tx place = .ok wallet') :
    (∃ p, place = .ok p ∧ wallet.addToWallet hash { toCMerkleTx := p } = .ok wallet') ∨
      tx.getHash hash ∉ wallet.mapWallet ∧ wallet.isMineTx tx = false ∧ wallet.fromMe tx = false ∧
        wallet.walletUpdateSpent tx.vin = .ok wallet' := by
  unfold addInvolved at hadd
  dsimp only at hadd
  split_ifs at hadd with hknown hmine
  · exact Or.inl (bind_eq_ok.mp hadd)
  · exact Or.inl (bind_eq_ok.mp hadd)
  · obtain ⟨fFromMe, hfromMe, hrest⟩ := bind_eq_ok.mp hadd
    have hfrom : wallet.fromMe tx = fFromMe := by
      rw [fromMe, hfromMe]
      rfl
    cases fFromMe with
    | true => exact Or.inl (bind_eq_ok.mp hrest)
    | false => exact Or.inr ⟨hknown, (Bool.not_eq_true _).mp hmine, hfrom, hrest⟩

/-- What holds of a wallet after some calls. -/
structure InStep (hash : Bytes → UInt256) (wallet : CWallet) (pre : List SyncCall) : Prop where
  tracks : wallet.view.Tracks wallet.isMine (disconnectedStakes hash pre)
  /-- The wallet has transactions that have been delivered. -/
  delivered : ∀ k p, wallet.view.places k = some p →
    p.toCTransaction ∈ deliveries pre ∧ p.getHash hash = k
  /-- The wallet has those that have been delivered and have own outputs. -/
  kept : ∀ tx ∈ deliveries pre, wallet.isMineTx tx = true →
    wallet.view.places (tx.getHash hash) ≠ none

lemma mem_deliveries : tx ∈ deliveries pre ↔ ∃ call ∈ pre, call.delivery = some tx :=
  List.mem_filterMap

lemma tx_of_delivery (hdelivery : call.delivery = some tx) : call.tx = tx := by
  cases call with
  | delivered tx' pblock => exact Option.some.inj hdelivery
  | disconnected tx' => cases hdelivery

/-- The transactions that have been delivered have different hashes. -/
lemma InOrder.eq_of_getHash {calls : List SyncCall} (horder : InOrder hash calls)
    (hcall : call ∈ calls) (hmem : tx ∈ deliveries calls)
    (hhash : tx.getHash hash = call.tx.getHash hash) : tx = call.tx := by
  obtain ⟨call', hcall', hdelivery⟩ := mem_deliveries.mp hmem
  rw [← tx_of_delivery hdelivery] at hhash ⊢
  exact horder.tx_eq call' hcall' call hcall hhash

/-- A transaction with own outputs that the wallet has not been told of has no children yet. -/
lemma InStep.no_child (hstep : InStep hash wallet pre)
    (horder : InOrder hash (pre ++ [.delivered tx pblock]))
    (hnew : wallet.view.places (tx.getHash hash) = none) (hmine : wallet.isMineTx tx = true)
    {child : CTransaction} (hchild : child = tx ∨ child ∈ deliveries pre) (n : ℕ) :
    (tx.getHash hash, n) ∉ child.vin.map spends := by
  intro hspends
  obtain ⟨txin, htxin, heq⟩ := List.mem_map.mp hspends
  have hparent : tx.getHash hash = txin.prevout.hash := (congrArg Prod.fst heq).symm
  have hlast : tx ∈ deliveries [SyncCall.delivered tx pblock] := List.mem_singleton_self tx
  rcases hchild with rfl | hchild
  · have hbefore := horder.parents pre _ [] child rfl rfl txin htxin child hlast hparent
    exact hstep.kept child hbefore hmine hnew
  · obtain ⟨call, hcall, hdelivery⟩ := mem_deliveries.mp hchild
    obtain ⟨before, after, rfl⟩ := List.append_of_mem hcall
    have hlater : tx ∈ deliveries (call :: (after ++ [SyncCall.delivered tx pblock])) := by
      rw [← List.cons_append, deliveries_append]
      exact List.mem_append_right _ hlast
    have hbefore := horder.parents before call (after ++ [SyncCall.delivered tx pblock]) child
      (by rw [List.append_assoc, List.cons_append]) hdelivery txin htxin tx hlater hparent
    refine hstep.kept tx ?_ hmine hnew
    rw [deliveries_append]
    exact List.mem_append_left _ hbefore

/-- The calls before the last one are in order. -/
lemma InOrder.dropLast (horder : InOrder hash (pre ++ [call])) : InOrder hash pre where
  parents before c after tx hcalls hdelivery txin htxin parent hmem hparent := by
    refine horder.parents before c (after ++ [call]) tx ?_ hdelivery txin htxin parent ?_ hparent
    · rw [hcalls, List.append_assoc, List.cons_append]
    · rw [← List.cons_append, deliveries_append]
      exact List.mem_append_left _ hmem
  tx_eq c hc c' hc' :=
    horder.tx_eq c (List.mem_append_left _ hc) c' (List.mem_append_left _ hc')

/-- A transaction is added to the wallet. -/
lemma InStep.added {place : CMerkleTx} (hstep : InStep hash wallet pre)
    (horder : InOrder hash (pre ++ [.delivered tx pblock]))
    (hfollows : wallet.Follows hash hash9 (disconnectedStakes hash pre) (.delivered tx pblock))
    (hplace : placeIn hash hash9 tx pblock = .ok place)
    (hadd : wallet.addToWallet hash { toCMerkleTx := place } = .ok wallet') :
    InStep hash wallet' (pre ++ [.delivered tx pblock]) := by
  obtain ⟨e, hentry, hsurroundings, hview⟩ := exists_shows_addToWallet hadd
  have hmine : wallet'.isMine = wallet.isMine := (congrArg CWallet.isMine hsurroundings :)
  have htx := placeIn_toCTransaction hplace
  have hhash : place.getHash hash = tx.getHash hash := congrArg (CTransaction.getHash hash) htx
  rw [hhash] at hentry hview
  have hlast : SyncCall.delivered tx pblock ∈ pre ++ [.delivered tx pblock] :=
    List.mem_append_right _ (List.mem_singleton_self _)
  have hdeliveries : deliveries (pre ++ [.delivered tx pblock]) = deliveries pre ++ [tx] :=
    deliveries_append _ _
  -- whether the wallet had it or not, the transaction is the one that is delivered
  have hplaced : e.place.toCTransaction = tx := by
    cases hold : wallet.view (tx.getHash hash) with
    | none =>
      rw [hold] at hentry
      rw [hentry.1, htx]
    | some old =>
      rw [hold] at hentry
      obtain ⟨hmem, hkey⟩ := hstep.delivered (tx.getHash hash) old.place
        (by rw [View.places, hold]; rfl)
      rw [hentry.1]
      exact horder.eq_of_getHash hlast (hdeliveries ▸ List.mem_append_left _ hmem) hkey
  have hclaims : e.claims = tx.vin.map spends := by
    rw [Entry.claims, hplaced]
  have hnew : wallet.view (tx.getHash hash) = none → ∀ n, e.owns wallet.isMine n = true →
      wallet.view.places (tx.getHash hash) = none ∧ wallet.isMineTx tx = true := by
    intro hnone n howns
    refine ⟨by rw [View.places, hnone]; rfl, ?_⟩
    obtain ⟨txout, hout, hown⟩ := Option.any_eq_true _ _ |>.mp howns
    rw [hplaced] at hout
    exact List.any_eq_true.mpr ⟨txout, List.mem_of_getElem? hout, hown⟩
  refine ⟨?_, ?_, ?_⟩
  · rw [hview, hmine, disconnectedStakes_concat]
    refine hstep.tracks.added hentry ?_ ?_ ?_
    · intro hnone n howns j s hs hclaim
      obtain ⟨hplaces, hown⟩ := hnew hnone n howns
      obtain ⟨hmem, -⟩ := hstep.delivered j s.place (by rw [View.places, hs]; rfl)
      exact hstep.no_child horder hplaces hown (Or.inr hmem) n hclaim
    · intro coin hmem
      split_ifs at hmem
      · exact hmem
      · exact absurd hmem List.not_mem_nil
    · rintro ⟨j, n⟩ ⟨e', he', howns⟩ hclaim
      dsimp only at he' howns
      -- the output was the wallet's before
      have hown : wallet.ownsCoin (j, n) := by
        by_cases hj : j = tx.getHash hash
        · subst hj
          cases (Function.update_self _ _ _).symm.trans he'
          cases hold : wallet.view (tx.getHash hash) with
          | none =>
            obtain ⟨hplaces, hown⟩ := hnew hold n howns
            exact absurd (hclaims ▸ hclaim)
              (hstep.no_child horder hplaces hown (Or.inl rfl) n)
          | some old =>
            rw [hold] at hentry
            refine ⟨old, hold, ?_⟩
            rw [Entry.owns, hentry.1] at howns
            exact howns
        · exact ⟨e', (Function.update_of_ne hj _ _).symm.trans he', howns⟩
      rcases hfollows ⟨(j, n), hclaims ▸ hclaim, hown⟩ with ⟨hknown, hlive⟩ | ⟨-, hwritten⟩
      · refine Or.inr ((hstep.tracks (j, n) hown).mpr ⟨tx.getHash hash, ⟨?_, hlive⟩, ?_⟩)
        · exact fun hnone => view_eq_none.mp hnone hknown
        · obtain ⟨old, hold⟩ := Option.ne_none_iff_exists'.mp fun hnone =>
            view_eq_none.mp hnone hknown
          rw [hold] at hentry
          refine ⟨old, hold, ?_⟩
          rw [Entry.claims, ← hentry.1]
          exact hclaim
      · rw [if_pos (hwritten place hplace)]
        exact Or.inl hclaim
  · intro k p hp
    rw [hview, View.places_marked, View.places_update] at hp
    rw [hdeliveries]
    split_ifs at hp with hk
    · cases hp
      exact ⟨List.mem_append_right _ (hplaced ▸ List.mem_singleton_self _), by rw [hplaced, hk]⟩
    · obtain ⟨hmem, hkey⟩ := hstep.delivered k p hp
      exact ⟨List.mem_append_left _ hmem, hkey⟩
  · intro tx' htx' hown
    rw [hview, View.places_marked, View.places_update]
    split_ifs with hk
    · exact Option.some_ne_none _
    · rw [hdeliveries] at htx'
      rcases List.mem_append.mp htx' with hmem | hmem
      · rw [isMineTx, hmine] at hown
        exact hstep.kept tx' hmem hown
      · exact absurd (congrArg (CTransaction.getHash hash) (List.mem_singleton.mp hmem)) hk

/-- What a wallet keeps when it is told of a transaction and changes no more than marks. -/
lemma InStep.of_places (hstep : InStep hash wallet pre) (hmine : wallet'.isMine = wallet.isMine)
    (hplaces : wallet'.view.places = wallet.view.places)
    (htracks : wallet'.view.Tracks wallet.isMine (disconnectedStakes hash (pre ++ [call])))
    (hkept : ∀ tx, call.delivery = some tx → wallet.isMineTx tx = true →
      wallet.view.places (tx.getHash hash) ≠ none) : InStep hash wallet' (pre ++ [call]) where
  tracks := hmine.symm ▸ htracks
  delivered k p hp := by
    obtain ⟨hmem, hkey⟩ := hstep.delivered k p (hplaces ▸ hp)
    exact ⟨deliveries_append _ _ ▸ List.mem_append_left _ hmem, hkey⟩
  kept tx htx hown := by
    rw [isMineTx, hmine] at hown
    rw [hplaces]
    rw [deliveries_append] at htx
    rcases List.mem_append.mp htx with hmem | hmem
    · exact hstep.kept tx hmem hown
    · obtain ⟨c, hc, hdelivery⟩ := mem_deliveries.mp hmem
      cases List.mem_singleton.mp hc
      exact hkept tx hdelivery hown

/-- A call keeps the marks as they should be. -/
lemma InStep.step (hstep : InStep hash wallet pre) (horder : InOrder hash (pre ++ [call]))
    (hfollows : wallet.Follows hash hash9 (disconnectedStakes hash pre) call)
    (hcall : wallet.syncCall hash hash9 call = .ok wallet') :
    InStep hash wallet' (pre ++ [call]) := by
  cases call with
  | delivered tx pblock =>
    rcases addInvolved_cases hcall with ⟨place, hplace, hadd⟩ | ⟨hnew, hmine, hfrom, hspend⟩
    · exact hstep.added horder hfollows hplace hadd
    · have hshows := shows_walletUpdateSpent hspend
      have hnone : wallet.view (tx.getHash hash) = none := view_eq_none.mpr hnew
      -- the transaction spends nothing of the wallet's
      have hunowned : ∀ coin ∈ tx.vin.map spends, coin ∉ wallet.view.ownCoins wallet.isMine := by
        intro coin hmem hown
        rcases hfollows ⟨coin, hmem, hown⟩ with ⟨hknown, -⟩ | ⟨hknown | hmine' | hfrom', -⟩
        · exact hnew hknown
        · exact hnew hknown
        · exact Bool.false_ne_true (hmine.symm.trans hmine')
        · exact Bool.false_ne_true (hfrom.symm.trans hfrom')
      have hview : wallet'.view = wallet.view :=
        hshows.view.trans (View.marked_eq_of_notMem_ownCoins hunowned)
      refine hstep.of_places hshows.isMine (congrArg View.places hview) ?_ ?_
      · rw [hview, disconnectedStakes_concat]
        unfold View.Tracks SyncCall.goneAfter
        rw [View.live_update hnone]
        exact hstep.tracks
      · rintro tx' hdelivery hown
        cases hdelivery
        exact absurd (hown.symm.trans hmine) (by decide)
  | disconnected tx =>
    have hshows := shows_syncDisconnected hcall
    refine hstep.of_places hshows.isMine (by rw [hshows.view, View.places_marked]) ?_
      fun tx' hdelivery => absurd hdelivery nofun
    rw [hshows.view, disconnectedStakes_concat]
    change View.Tracks _ _ (if tx.isCoinStake then _ else _)
    split_ifs with hstake
    · have hlast : SyncCall.disconnected tx ∈ pre ++ [.disconnected tx] :=
        List.mem_append_right _ (List.mem_singleton_self _)
      have hclaimed : ∀ e, wallet.view (tx.getHash hash) = some e → e.claims = tx.vin.map spends := by
        intro e hentry
        obtain ⟨hmem, hkey⟩ := hstep.delivered (tx.getHash hash) e.place
          (by rw [View.places, hentry]; rfl)
        have hsame : e.place.toCTransaction = tx :=
          horder.eq_of_getHash hlast (deliveries_append _ _ ▸ List.mem_append_left _ hmem) hkey
        rw [Entry.claims, hsame]
      refine hstep.tracks.removed hclaimed ?_ ?_
      · intro coin hmem
        rw [refunds] at hmem
        split_ifs at hmem
        · exact hmem
        · exact absurd hmem List.not_mem_nil
      · intro coin hown hmem
        obtain ⟨hfrom, hothers⟩ := hfollows hstake coin hmem hown
        rw [refunds, hstake, hfrom]
        exact ⟨hmem, hothers⟩
    · rw [refunds, (Bool.not_eq_true _).mp hstake, Bool.false_and, if_neg Bool.false_ne_true,
        View.marked_nil]
      exact hstep.tracks

end Steps

/-! ## Runs -/

section Runs

open CWallet

variable {hash hash9 : Bytes → UInt256} {wallet wallet' : CWallet} {calls : List SyncCall}

/-- Every call of a run meets the condition in the state before it. -/
def FollowsAll (hash hash9 : Bytes → UInt256) (wallet : CWallet) (calls : List SyncCall) : Prop :=
  ∀ (pre : List SyncCall) (call : SyncCall) (post : List SyncCall) (wallet₁ : CWallet),
    calls = pre ++ call :: post → wallet.syncAll hash hash9 pre = .ok wallet₁ →
    wallet₁.Follows hash hash9 (disconnectedStakes hash pre) call

lemma inStep_of_empty (hempty : wallet.mapWallet = ∅) : InStep hash wallet [] where
  tracks := by
    rintro coin ⟨e, hentry, -⟩
    rw [view, hempty, Std.ExtTreeMap.getElem?_empty] at hentry
    cases hentry
  delivered k p hp := by
    rw [View.places, view, hempty, Std.ExtTreeMap.getElem?_empty] at hp
    cases hp
  kept _ htx := absurd htx List.not_mem_nil

lemma syncAll_append (calls calls' : List SyncCall) : wallet.syncAll hash hash9 (calls ++ calls') =
    (wallet.syncAll hash hash9 calls).bind fun wallet₁ => wallet₁.syncAll hash hash9 calls' :=
  List.foldlM_append

lemma syncAll_singleton {call : SyncCall} :
    wallet.syncAll hash hash9 [call] = wallet.syncCall hash hash9 call := by
  rw [syncAll, List.foldlM_cons]
  cases wallet.syncCall hash hash9 call <;> rfl

lemma followsAll_concat {pre : List SyncCall} {call : SyncCall} :
    FollowsAll hash hash9 wallet (pre ++ [call]) ↔ FollowsAll hash hash9 wallet pre ∧
      ∀ wallet₁, wallet.syncAll hash hash9 pre = .ok wallet₁ →
        wallet₁.Follows hash hash9 (disconnectedStakes hash pre) call := by
  constructor
  · intro hfollows
    refine ⟨?_, fun wallet₁ hrun => hfollows pre call [] wallet₁ rfl hrun⟩
    intro before c after wallet₁ hcalls hrun
    refine hfollows before c (after ++ [call]) wallet₁ ?_ hrun
    rw [hcalls, List.append_assoc, List.cons_append]
  · rintro ⟨hbefore, hlast⟩ before c after wallet₁ hcalls hrun
    rcases List.eq_nil_or_concat after with rfl | ⟨after, last, rfl⟩
    · obtain ⟨rfl, hc⟩ := List.append_inj' hcalls rfl
      cases hc
      exact hlast wallet₁ hrun
    · rw [List.concat_eq_append, ← List.cons_append, ← List.append_assoc] at hcalls
      exact hbefore before c after wallet₁ (List.append_inj' hcalls rfl).1 hrun

lemma inStep_of_run (hempty : wallet.mapWallet = ∅) (horder : InOrder hash calls)
    (hfollows : FollowsAll hash hash9 wallet calls)
    (hrun : wallet.syncAll hash hash9 calls = .ok wallet') : InStep hash wallet' calls := by
  induction calls using List.reverseRecOn generalizing wallet' with
  | nil =>
    cases hrun
    exact inStep_of_empty hempty
  | append_singleton pre call ih =>
    rw [syncAll_append] at hrun
    obtain ⟨wallet₁, hpre, hlast⟩ := bind_eq_ok.mp hrun
    rw [syncAll_singleton] at hlast
    obtain ⟨hbefore, hcondition⟩ := followsAll_concat.mp hfollows
    exact (ih horder.dropLast hbefore hpre).step horder (hcondition wallet₁ hpre) hlast

/-- Calls leave what the wallet asks of its keys and of the rest of the node. -/
lemma surroundings_of_syncAll (hrun : wallet.syncAll hash hash9 calls = .ok wallet') :
    wallet'.surroundings = wallet.surroundings := by
  refine foldlM_invariant (fun _ wallet₁ => wallet₁.surroundings = wallet.surroundings) ?_ rfl hrun
  intro _ call _ wallet₁ wallet₂ _ hsame hcall
  refine Eq.trans ?_ hsame
  cases call with
  | delivered tx pblock =>
    rcases addInvolved_cases hcall with ⟨place, -, hadd⟩ | ⟨-, -, -, hspend⟩
    · obtain ⟨e, -, hshows⟩ := exists_shows_addToWallet hadd
      exact hshows.surroundings
    · exact (shows_walletUpdateSpent hspend).surroundings
  | disconnected tx => exact (shows_syncDisconnected hcall).surroundings

/-- The marks of a view as `IsSpent` tells them. -/
lemma spentTracked_of_tracks {gone : UInt256 → Bool}
    (htracks : wallet.view.Tracks wallet.isMine gone) : wallet.SpentTracked gone := by
  intro h wtx n txout hget hout hmine
  have hentry := view_eq_some hget
  have hlt : n < wtx.vout.length := (List.getElem?_eq_some_iff.mp hout).1
  have hown : (h, n) ∈ wallet.view.ownCoins wallet.isMine := by
    refine ⟨wtx.entry, hentry, ?_⟩
    change wtx.vout[n]?.any wallet.isMine = true
    rw [hout]
    exact hmine
  have hmark : wtx.isSpent n = .ok true ↔ (h, n) ∈ wallet.view.spentCoins := by
    rw [CWalletTx.isSpent_eq_entry hlt, Except.ok.injEq]
    constructor
    · exact fun hspent => ⟨wtx.entry, hentry, hspent⟩
    · rintro ⟨e, he, hspent⟩
      cases hentry.symm.trans he
      exact hspent
  rw [hmark, htracks _ hown]
  constructor
  · rintro ⟨k, ⟨-, hlive⟩, e, he, hclaim⟩
    obtain ⟨spender, hspender, rfl⟩ := Option.map_eq_some_iff.mp he
    exact ⟨k, spender, hspender, hlive, hclaim⟩
  · rintro ⟨k, spender, hspender, hlive, hclaim⟩
    have he := view_eq_some hspender
    exact ⟨k, ⟨by rw [he]; exact Option.some_ne_none _, hlive⟩, spender.entry, he, hclaim⟩

/-- In every run from an empty wallet whose calls meet the condition, an own output is marked as
spent if and only if a transaction of the wallet spends it that is not a disconnected coin stake. -/
theorem spentTracked_of_run (hash hash9 : Bytes → UInt256) (wallet wallet' : CWallet)
    (calls : List SyncCall) (hempty : wallet.mapWallet = ∅) (horder : InOrder hash calls)
    (hfollows : FollowsAll hash hash9 wallet calls)
    (hrun : wallet.syncAll hash hash9 calls = .ok wallet') :
    wallet'.SpentTracked (disconnectedStakes hash calls) :=
  spentTracked_of_tracks (inStep_of_run hempty horder hfollows hrun).tracks

/-- A call for a transaction whose outputs nothing spends yet. -/
lemma InOrder.concat {pre : List SyncCall} {call : SyncCall} (horder : InOrder hash pre)
    (hunspent : ∀ tx, call.delivery = some tx → ∀ child ∈ deliveries (pre ++ [call]),
      ∀ txin ∈ child.vin, txin.prevout.hash ≠ tx.getHash hash)
    (heq : ∀ c ∈ pre, c.tx.getHash hash = call.tx.getHash hash → c.tx = call.tx) :
    InOrder hash (pre ++ [call]) where
  parents before c after tx hcalls hdelivery txin htxin parent hmem hparent := by
    have hchild : tx ∈ deliveries (pre ++ [call]) := by
      rw [hcalls]
      exact mem_deliveries.mpr ⟨c, List.mem_append_right _ List.mem_cons_self, hdelivery⟩
    have hnot : call.delivery ≠ some parent := fun hlast =>
      hunspent parent hlast tx hchild txin htxin hparent.symm
    rcases List.eq_nil_or_concat after with rfl | ⟨after, last, rfl⟩
    · obtain ⟨rfl, hc⟩ := List.append_inj' hcalls rfl
      cases hc
      obtain ⟨c', hc', hdelivered⟩ := mem_deliveries.mp hmem
      cases List.mem_singleton.mp hc'
      exact absurd hdelivered hnot
    · rw [List.concat_eq_append, ← List.cons_append, ← List.append_assoc] at hcalls
      rw [List.concat_eq_append, ← List.cons_append, deliveries_append] at hmem
      obtain ⟨hpre, hc⟩ := List.append_inj' hcalls rfl
      cases hc
      rcases List.mem_append.mp hmem with hmem | hmem
      · exact horder.parents before c after tx hpre hdelivery txin htxin parent hmem hparent
      · obtain ⟨c', hc', hdelivered⟩ := mem_deliveries.mp hmem
        cases List.mem_singleton.mp hc'
        exact absurd hdelivered hnot
  tx_eq c hc c' hc' hhash := by
    rcases List.mem_append.mp hc with hc | hc
    · rcases List.mem_append.mp hc' with hc' | hc'
      · exact horder.tx_eq c hc c' hc' hhash
      · cases List.mem_singleton.mp hc'
        exact heq c hc hhash
    · cases List.mem_singleton.mp hc
      rcases List.mem_append.mp hc' with hc' | hc'
      · exact (heq c' hc' hhash.symm).symm
      · cases List.mem_singleton.mp hc'
        rfl

lemma inOrder_nil : InOrder hash [] where
  parents before c after _ hcalls := by
    have hlength := congrArg List.length hcalls
    rw [List.length_append, List.length_cons, List.length_nil] at hlength
    omega
  tx_eq _ hc := absurd hc List.not_mem_nil

/-- A transaction that pays the wallet. -/
def ownedCoin : CTransaction where
  vin := [{ prevout := { hash := 5, n := 0 } }]
  vout := [{ nValue := 1000, scriptPubKey := [1] }]

/-- A transaction that spends this output. -/
def ownPayment : CTransaction where
  vin := [{ prevout := { hash := ownedCoin.getHash CBlock.mixingHash, n := 0 } }]
  vout := [{ nValue := 900, scriptPubKey := [2] }]

/-- A coin stake that spends this output. -/
def ownStake : CTransaction where
  vin := [{ prevout := { hash := ownedCoin.getHash CBlock.mixingHash, n := 0 } }]
  vout := [{ nValue := 0 }, { nValue := 1100, scriptPubKey := [1] }]

/-- A new wallet. -/
def newWallet : CWallet where
  isMine txout := decide (txout.scriptPubKey = [1])
  blocksToMaturity _ := 0
  adjustedTime _ := 0
  timeSmart _ := 0
  writeToDisk _ := true

/-- A coin stake is connected and disconnected, with other calls before it. -/
def stakeCalls (payments : List SyncCall) : List SyncCall :=
  .delivered ownedCoin none :: payments ++
    [.delivered ownStake (some { vtx := [ownStake] }), .disconnected ownStake]

/-- A coin stake that is the only one to spend its inputs. -/
theorem spentTracked_of_run_stakeCalls :
    ∃ wallet', newWallet.syncAll CBlock.mixingHash CBlock.mixingHash (stakeCalls []) = .ok wallet' ∧
      wallet'.SpentTracked (disconnectedStakes CBlock.mixingHash (stakeCalls [])) := by
  have horder : InOrder CBlock.mixingHash (stakeCalls []) := by
    refine @InOrder.concat _ [_, _] _ (@InOrder.concat _ [_] _
      (@InOrder.concat _ [] _ inOrder_nil ?_ ?_) ?_ ?_) ?_ ?_ <;> decide +kernel
  have hok : (newWallet.syncAll CBlock.mixingHash CBlock.mixingHash
      (stakeCalls [])).toOption.isSome = true := by
    decide +kernel
  obtain ⟨wallet', hrun⟩ := exists_eq_ok hok
  have hnil : FollowsAll CBlock.mixingHash CBlock.mixingHash newWallet [] := by
    intro pre call post wallet₁ hcalls
    have hlength := congrArg List.length hcalls
    rw [List.length_append, List.length_cons, List.length_nil] at hlength
    omega
  have hpaid : FollowsAll CBlock.mixingHash CBlock.mixingHash newWallet
      [.delivered ownedCoin none] := by
    refine (@followsAll_concat _ _ _ [] _).mpr ⟨hnil, ?_⟩
    -- the new wallet owns nothing
    rintro wallet₁ hpre ⟨coin, -, e, hentry, -⟩
    cases hpre
    cases hentry
  have hstaked : FollowsAll CBlock.mixingHash CBlock.mixingHash newWallet
      [.delivered ownedCoin none, .delivered ownStake (some { vtx := [ownStake] })] := by
    refine (@followsAll_concat _ _ _ [_] _).mpr ⟨hpaid, ?_⟩
    -- the coin stake pays the wallet, and is written
    rintro wallet₁ hpre -
    have hsame := surroundings_of_syncAll hpre
    have hmine : wallet₁.isMine = newWallet.isMine := (congrArg CWallet.isMine hsame :)
    have hwrite : wallet₁.writeToDisk = newWallet.writeToDisk :=
      (congrArg CWallet.writeToDisk hsame :)
    refine Or.inr ⟨Or.inr (Or.inl ?_), fun place _ => ?_⟩
    · rw [isMineTx, hmine]
      rfl
    · rw [written, hwrite]
      cases wallet₁.view.places (place.getHash CBlock.mixingHash) with
      | none => rfl
      | some p => exact Bool.or_true _
  have hfollows : FollowsAll CBlock.mixingHash CBlock.mixingHash newWallet (stakeCalls []) := by
    refine (@followsAll_concat _ _ _ [_, _] _).mpr ⟨hstaked, ?_⟩
    -- the wallet has no other transaction that spends what it is refunded for
    rintro wallet₁ hpre - coin hcoin -
    have hfrom : ((newWallet.syncAll CBlock.mixingHash CBlock.mixingHash
        [.delivered ownedCoin none, .delivered ownStake (some { vtx := [ownStake] })]).toOption.map
          fun wallet => wallet.fromMe ownStake) = some true := by
      decide +kernel
    rw [hpre] at hfrom
    refine ⟨Option.some.inj hfrom, fun k e hentry _ hk hclaim => ?_⟩
    have hstep := inStep_of_run rfl (@InOrder.dropLast _ [_, _] _ horder) hstaked hpre
    obtain ⟨hmem, hkey⟩ := hstep.delivered k e.place (by rw [View.places, hentry]; rfl)
    rcases List.mem_cons.mp hmem with hcoinTx | hstake
    · rw [Entry.claims, hcoinTx] at hclaim
      rw [List.mem_singleton.mp hcoin] at hclaim
      exact absurd hclaim (by decide +kernel)
    · have hstakeTx := List.mem_singleton.mp hstake
      exact hk (hkey.symm.trans (congrArg (CTransaction.getHash CBlock.mixingHash) hstakeTx))
  exact ⟨wallet', hrun, spentTracked_of_run _ _ newWallet wallet' _ rfl horder hfollows hrun⟩

/-- A disconnected coin stake whose inputs a payment spends as well. -/
theorem not_spentTracked :
    ¬ ∀ (hash hash9 : Bytes → UInt256) (wallet wallet' : CWallet) (calls : List SyncCall),
      wallet.mapWallet = ∅ → InOrder hash calls →
      wallet.syncAll hash hash9 calls = .ok wallet' →
      wallet'.SpentTracked (disconnectedStakes hash calls) := by
  intro hall
  have horder : InOrder CBlock.mixingHash (stakeCalls [.delivered ownPayment none]) := by
    refine @InOrder.concat _ [_, _, _] _ (@InOrder.concat _ [_, _] _ (@InOrder.concat _ [_] _
      (@InOrder.concat _ [] _ inOrder_nil ?_ ?_) ?_ ?_) ?_ ?_) ?_ ?_ <;> decide +kernel
  have hok : (newWallet.syncAll CBlock.mixingHash CBlock.mixingHash
      (stakeCalls [.delivered ownPayment none])).toOption.isSome = true := by
    decide +kernel
  obtain ⟨wallet', hrun⟩ := exists_eq_ok hok
  have hafter : ((newWallet.syncAll CBlock.mixingHash CBlock.mixingHash
      (stakeCalls [.delivered ownPayment none])).toOption.bind fun wallet =>
        wallet.mapWallet[ownedCoin.getHash CBlock.mixingHash]?.map fun wtx =>
          (wtx.toCTransaction, wtx.vfSpent)) = some (ownedCoin, [false]) := by
    decide +kernel
  have hpaid : ((newWallet.syncAll CBlock.mixingHash CBlock.mixingHash
      (stakeCalls [.delivered ownPayment none])).toOption.bind fun wallet =>
        wallet.mapWallet[ownPayment.getHash CBlock.mixingHash]?.map fun wtx =>
          wtx.toCTransaction) = some ownPayment := by
    decide +kernel
  rw [hrun] at hafter hpaid
  obtain ⟨wtx, hget, hcoin⟩ := Option.map_eq_some_iff.mp hafter
  obtain ⟨spender, hspender, hpayment⟩ := Option.map_eq_some_iff.mp hpaid
  obtain ⟨htx, hflags⟩ := Prod.mk.inj hcoin
  have hmine : wallet'.isMine = newWallet.isMine :=
    (congrArg CWallet.isMine (surroundings_of_syncAll hrun) :)
  have hlive : disconnectedStakes CBlock.mixingHash (stakeCalls [.delivered ownPayment none])
      (ownPayment.getHash CBlock.mixingHash) = false := by
    decide +kernel
  have hspent := (hall _ _ newWallet wallet' _ rfl horder hrun _ wtx 0 _ hget
    (by rw [htx]; rfl) (by rw [hmine]; rfl)).mpr ⟨_, spender, hspender, hlive, by
      rw [hpayment]
      decide +kernel⟩
  rw [CWalletTx.isSpent, htx, hflags] at hspent
  cases hspent

end Runs

end HyperStake.WalletTx
