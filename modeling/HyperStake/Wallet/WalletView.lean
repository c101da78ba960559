import HyperStake.Library.ExceptLoop
import HyperStake.Library.MapLoop
import HyperStake.Wallet.SyncWithWallets

/-!
# What a wallet shows of its transactions

The view of a wallet is what it has of its transactions without the sums that it caches: where a
transaction is in the chain, which of its outputs are spent, and what else the owner knows of it.
What `SyncWithWallets` does to a wallet is said of its view.  An input that is refunded or spent
marks an output of the wallet (`marked`), and a transaction that the wallet knows and that is in
another block now is moved there (`moved`).
-/

namespace HyperStake.WalletTx

open ExceptLoop

/-- What a wallet has of a transaction: its place in the chain, which of its outputs are spent, and
what else the owner knows of it. -/
structure Entry where
  place : CMerkleTx
  fSpent : ℕ → Bool
  data : CWalletTx

/-- What a transaction of the wallet is without the sums that it caches. -/
def CWalletTx.entry (wtx : CWalletTx) : Entry where
  place := wtx.toCMerkleTx
  fSpent i := decide (i < wtx.vout.length) && wtx.vfSpent.getD i false
  data := { wtx with
    toCMerkleTx := {}, vfSpent := []
    fDebitCached := false, fCreditCached := false, fAvailableCreditCached := false
    fChangeCached := false
    nDebitCached := 0, nCreditCached := 0, nAvailableCreditCached := 0, nChangeCached := 0 }

/-- What a wallet shows of its transactions. -/
abbrev View := UInt256 → Option Entry

/-- The outputs that an input spends, as the hash of a transaction and a number. -/
def spends (txin : CTxIn) : UInt256 × ℕ := (txin.prevout.hash, txin.prevout.n.toNat)

/-- An output of a transaction is the wallet's. -/
def Entry.owns (isMine : CTxOut → Bool) (e : Entry) (i : ℕ) : Bool := e.place.vout[i]?.any isMine

/-- The outputs that the inputs of a transaction claim. -/
def Entry.claims (e : Entry) : List (UInt256 × ℕ) := e.place.vin.map spends

/-- Mark those of some outputs that are the wallet's. -/
def Entry.marked (isMine : CTxOut → Bool) (fSpent : Bool) (coins : List (UInt256 × ℕ)) (h : UInt256)
    (e : Entry) : Entry :=
  { e with fSpent := fun i => if (h, i) ∈ coins ∧ e.owns isMine i then fSpent else e.fSpent i }

namespace View

/-- Mark those of some outputs that are the wallet's. -/
def marked (isMine : CTxOut → Bool) (fSpent : Bool) (coins : List (UInt256 × ℕ)) (view : View) :
    View :=
  fun h => (view h).map (Entry.marked isMine fSpent coins h)

/-- Move the transactions to other places. -/
def moved (f : UInt256 → CMerkleTx → CMerkleTx) (view : View) : View :=
  fun h => (view h).map fun e => { e with place := f h e.place }

/-- The places of the transactions. -/
def places (view : View) : UInt256 → Option CMerkleTx := fun h => (view h).map Entry.place

/-- The outputs of the transactions. -/
def outs (view : View) : UInt256 → Option (List CTxOut) :=
  fun h => (view h).map fun e => e.place.vout

variable {isMine : CTxOut → Bool} {fSpent : Bool} {coins coins' : List (UInt256 × ℕ)} {view : View}
  {f g : UInt256 → CMerkleTx → CMerkleTx} {h : UInt256} {i n : ℕ} {e : Entry}

@[simp] lemma places_marked : (view.marked isMine fSpent coins).places = view.places := by
  funext h
  simp only [places, marked, Option.map_map]
  rfl

@[simp] lemma outs_marked : (view.marked isMine fSpent coins).outs = view.outs := by
  funext h
  simp only [outs, marked, Option.map_map]
  rfl

lemma places_moved : (view.moved f).places = fun h => (view.places h).map (f h) := by
  funext h
  simp only [places, moved, Option.map_map]
  rfl

lemma outs_moved (hf : ∀ h p, (f h p).vout = p.vout) : (view.moved f).outs = view.outs := by
  funext h
  simp only [outs, moved, Option.map_map]
  exact congrFun (congrArg _ (funext fun e : Entry => hf h e.place)) _

@[simp] lemma marked_nil : view.marked isMine fSpent [] = view := by
  funext h
  have hid : Entry.marked isMine fSpent [] h = id := funext fun e => by simp [Entry.marked]
  rw [marked, hid, Option.map_id_fun, id]

/-- Outputs are marked one after the other. -/
lemma marked_append : view.marked isMine fSpent (coins ++ coins') =
    (view.marked isMine fSpent coins).marked isMine fSpent coins' := by
  funext h
  simp only [marked, Option.map_map]
  refine congrFun (congrArg _ (funext fun e => ?_)) _
  simp only [Function.comp_apply, Entry.marked, Entry.mk.injEq, and_true, true_and]
  funext i
  change _ = if (h, i) ∈ coins' ∧ e.owns isMine i = true then fSpent else _
  by_cases howns : e.owns isMine i = true
  · by_cases hcoin' : (h, i) ∈ coins' <;> simp [howns, hcoin', List.mem_append]
  · simp [howns]

lemma moved_moved : (view.moved f).moved g = view.moved fun h p => g h (f h p) := by
  funext h
  simp only [moved, Option.map_map]
  rfl

/-- What is marked does not depend on the places. -/
lemma moved_marked (hf : ∀ h p, (f h p).vout = p.vout) :
    (view.marked isMine fSpent coins).moved f = (view.moved f).marked isMine fSpent coins := by
  funext h
  simp only [marked, moved, Option.map_map]
  refine congrFun (congrArg _ (funext fun e => ?_)) _
  have howns : ∀ i, Entry.owns isMine { e with place := f h e.place } i = e.owns isMine i := by
    intro i
    unfold Entry.owns
    rw [hf]
  simp only [Function.comp_apply, Entry.marked, howns]

/-- An output that is not the wallet's is not marked. -/
lemma marked_eq_self (hsame : ∀ e, view h = some e → e.owns isMine n = true → e.fSpent n = fSpent) :
    view.marked isMine fSpent [(h, n)] = view := by
  funext k
  unfold marked
  cases hentry : view k with
  | none => rfl
  | some e =>
    refine congrArg some ?_
    unfold Entry.marked
    refine congrArg (fun fSpent => { e with fSpent }) (funext fun i => ?_)
    split_ifs with hcoin
    · obtain ⟨hmem, howns⟩ := hcoin
      cases List.mem_singleton.mp hmem
      exact (hsame e hentry howns).symm
    · rfl

/-- An output of the wallet is marked. -/
lemma marked_eq_update (hentry : view h = some e) (howns : e.owns isMine n = true) :
    view.marked isMine fSpent [(h, n)] =
      Function.update view h (some { e with fSpent := Function.update e.fSpent n fSpent }) := by
  funext k
  by_cases hk : k = h
  · subst hk
    rw [Function.update_self, marked, hentry]
    refine congrArg some ?_
    unfold Entry.marked
    refine congrArg (fun fSpent => { e with fSpent }) (funext fun i => ?_)
    by_cases hi : i = n
    · subst hi
      rw [Function.update_self, if_pos ⟨List.mem_singleton_self _, howns⟩]
    · rw [Function.update_of_ne hi, if_neg fun hcoin => hi (by simpa using hcoin.1)]
  · rw [Function.update_of_ne hk, marked]
    cases hother : view k with
    | none => rfl
    | some e' =>
      refine congrArg some ?_
      unfold Entry.marked
      refine congrArg (fun fSpent => { e' with fSpent }) (funext fun i => ?_)
      exact if_neg fun hcoin => hk (congrArg Prod.fst (List.mem_singleton.mp hcoin.1))

end View

/-! ## The transactions of a wallet -/

namespace CWalletTx

variable {wtx wtx' : CWalletTx} {fSpent : Bool} {nOut : ℕ}

/-- Marking an output changes what is known of it, and nothing else. -/
lemma entry_of_mark (hmark : wtx.mark fSpent nOut = .ok wtx') : wtx'.entry =
    { wtx.entry with fSpent := Function.update wtx.entry.fSpent nOut fSpent } := by
  unfold mark at hmark
  split_ifs at hmark with hrange hchange
  · cases hmark
    refine congrArg (fun fSpent => { wtx.entry with fSpent }) (funext fun i => ?_)
    by_cases hi : i = nOut
    · subst hi
      have hlength : i < wtx.resized.length := by
        rw [resized, List.takeD_length]
        exact not_le.mp hrange
      rw [Function.update_self]
      simp [not_le.mp hrange, hlength]
    · rw [Function.update_of_ne hi]
      simp only [entry]
      by_cases hlt : i < wtx.vout.length
      · rw [List.getD_eq_getElem?_getD, List.getElem?_set_ne (Ne.symm hi),
          ← List.getD_eq_getElem?_getD, resized, getD_takeD _ _ _ hlt]
      · rw [decide_eq_false hlt, Bool.false_and, Bool.false_and]
  · cases hmark
    refine congrArg (fun fSpent => { wtx.entry with fSpent }) (funext fun i => ?_)
    have hsame : wtx.resized[nOut]? = some fSpent := not_ne_iff.mp hchange
    simp only [entry]
    by_cases hlt : i < wtx.vout.length
    · by_cases hi : i = nOut
      · subst hi
        rw [Function.update_self, List.getD_eq_getElem?_getD, hsame, decide_eq_true hlt]
        rfl
      · rw [Function.update_of_ne hi, resized, getD_takeD _ _ _ hlt]
    · have hi : i ≠ nOut := fun heq => hlt (heq ▸ not_le.mp hrange)
      rw [Function.update_of_ne hi, decide_eq_false hlt, Bool.false_and, Bool.false_and]

lemma isSpent_eq_entry (hlt : nOut < wtx.vout.length) :
    wtx.isSpent nOut = .ok (wtx.entry.fSpent nOut) := by
  unfold isSpent
  rw [if_neg (not_le.mpr hlt)]
  change _ = Except.ok (decide (nOut < wtx.vout.length) && _)
  rw [decide_eq_true hlt, Bool.true_and]

end CWalletTx

/-! ## What a wallet does to its view -/

namespace CWallet

/-- What a wallet shows of its transactions. -/
def view (wallet : CWallet) : View := fun h => wallet.mapWallet[h]?.map CWalletTx.entry

/-- What a wallet asks of its keys and of the rest of the node. -/
def surroundings (wallet : CWallet) : CWallet := { wallet with mapWallet := ∅, nOrderPosNext := 0 }

/-- A wallet has become another one, which shows a view. -/
structure Shows (wallet wallet' : CWallet) (view : View) : Prop where
  surroundings : wallet'.surroundings = wallet.surroundings
  view : wallet'.view = view

/-- `IsFromMe`, when it does not throw. -/
def fromMe (wallet : CWallet) (tx : CTransaction) : Bool :=
  (wallet.isFromMe tx).toOption.getD false

/-- The outputs that `DisableTransaction` refunds. -/
def refunds (wallet : CWallet) (tx : CTransaction) : List (UInt256 × ℕ) :=
  if tx.isCoinStake && wallet.fromMe tx then tx.vin.map spends else []

variable {wallet wallet' wallet'' : CWallet} {h : UInt256} {wtx wtx' : CWalletTx} {tx : CTransaction}
  {txin : CTxIn} {txout : CTxOut} {n : ℕ} {fSpent : Bool} {v : View}

namespace Shows

lemma isMine (hshows : Shows wallet wallet' v) : wallet'.isMine = wallet.isMine :=
  (congrArg CWallet.isMine hshows.surroundings :)

lemma writeToDisk (hshows : Shows wallet wallet' v) : wallet'.writeToDisk = wallet.writeToDisk :=
  (congrArg CWallet.writeToDisk hshows.surroundings :)

lemma refl (wallet : CWallet) : Shows wallet wallet wallet.view := ⟨rfl, rfl⟩

end Shows

lemma view_eq_some (hget : wallet.mapWallet[h]? = some wtx) : wallet.view h = some wtx.entry := by
  rw [view, hget]
  rfl

lemma view_eq_none : wallet.view h = none ↔ h ∉ wallet.mapWallet := by
  rw [view, Option.map_eq_none_iff, ← Std.ExtTreeMap.isSome_getElem?_iff_mem, Bool.not_eq_true,
    Option.isSome_eq_false_iff, Option.isNone_iff_eq_none]

lemma view_put : (wallet.put h wtx).view = Function.update wallet.view h (some wtx.entry) := by
  funext k
  rw [view, put, MapLoop.getElem?_insert_eq]
  by_cases hk : h = k
  · subst hk
    rw [if_pos rfl, Function.update_self]
    rfl
  · rw [if_neg hk, Function.update_of_ne (Ne.symm hk)]
    rfl

/-- An output of the wallet is marked in a transaction whose cached sums may have changed. -/
lemma shows_mark (hget : wallet.mapWallet[h]? = some wtx) (hout : wtx.vout[n]? = some txout)
    (hmine : wallet.isMine txout = true) (hentry : wtx'.entry = wtx.entry) {marked : CWalletTx}
    (hmark : wtx'.mark fSpent n = .ok marked) :
    Shows wallet (wallet.put h marked) (wallet.view.marked wallet.isMine fSpent [(h, n)]) := by
  have howns : wtx.entry.owns wallet.isMine n = true := by
    change wtx.vout[n]?.any wallet.isMine = true
    rw [hout]
    exact hmine
  refine ⟨rfl, ?_⟩
  rw [view_put, View.marked_eq_update (view_eq_some hget) howns, CWalletTx.entry_of_mark hmark,
    hentry]

/-- Nothing is marked if the wallet does not have the output. -/
lemma shows_unmarked
    (hsame : ∀ wtx txout, wallet.mapWallet[h]? = some wtx → wtx.vout[n]? = some txout →
      wallet.isMine txout = true → wtx.entry.fSpent n = fSpent) :
    Shows wallet wallet (wallet.view.marked wallet.isMine fSpent [(h, n)]) := by
  refine ⟨rfl, (View.marked_eq_self fun e hentry howns => ?_).symm⟩
  obtain ⟨wtx, hget, rfl⟩ := Option.map_eq_some_iff.mp hentry
  obtain ⟨txout, hout, hmine⟩ := Option.any_eq_true _ _ |>.mp howns
  exact hsame wtx txout hget hout hmine

/-- A round of the loop of `DisableTransaction`. -/
lemma shows_refundInput (hstep : refundInput wallet txin = .ok wallet') :
    Shows wallet wallet' (wallet.view.marked wallet.isMine false [spends txin]) := by
  unfold refundInput at hstep
  cases hget : wallet.mapWallet[txin.prevout.hash]? with
  | none =>
    rw [hget] at hstep
    cases hstep
    exact shows_unmarked fun wtx txout hget' => by cases hget.symm.trans hget'
  | some prev =>
    rw [hget] at hstep
    cases hout : prev.vout[txin.prevout.n.toNat]? with
    | none =>
      simp only [hout] at hstep
      cases hstep
      refine shows_unmarked fun wtx txout hget' hout' => ?_
      cases hget.symm.trans hget'
      cases hout.symm.trans hout'
    | some txout =>
      simp only [hout] at hstep
      split_ifs at hstep with hmine
      · cases hmark : prev.markUnspent txin.prevout.n.toNat with
        | error e =>
          rw [hmark] at hstep
          cases hstep
        | ok marked =>
          rw [hmark] at hstep
          cases hstep
          exact shows_mark hget hout hmine rfl hmark
      · cases hstep
        refine shows_unmarked fun wtx txout' hget' hout' hmine' => ?_
        cases hget.symm.trans hget'
        cases hout.symm.trans hout'
        exact absurd hmine' hmine

/-- The credit that is cached is not shown. -/
lemma entry_of_getCredit (hcredit : wallet.getCredit wtx = .ok wtx') : wtx'.entry = wtx.entry := by
  unfold getCredit at hcredit
  dsimp only at hcredit
  split_ifs at hcredit
  · cases hcredit
    rfl
  · cases hcredit
    rfl
  · cases hloop : getCreditLoop ⟨wallet.isMine, wallet.blocksToMaturity wtx.toCMerkleTx⟩ 0
      wtx.vout with
    | error e =>
      rw [hloop] at hcredit
      cases hcredit
    | ok nCredit =>
      rw [hloop] at hcredit
      cases hcredit
      rfl

/-- A round of the loop of `WalletUpdateSpent`. -/
lemma shows_spendInput (hstep : spendInput wallet txin = .ok wallet') :
    Shows wallet wallet' (wallet.view.marked wallet.isMine true [spends txin]) := by
  unfold spendInput at hstep
  cases hget : wallet.mapWallet[txin.prevout.hash]? with
  | none =>
    rw [hget] at hstep
    cases hstep
    exact shows_unmarked fun wtx txout hget' => by cases hget.symm.trans hget'
  | some wtx =>
    rw [hget] at hstep
    cases hout : wtx.vout[txin.prevout.n.toNat]? with
    | none =>
      simp only [hout] at hstep
      cases hstep
      refine shows_unmarked fun wtx' txout hget' hout' => ?_
      cases hget.symm.trans hget'
      cases hout.symm.trans hout'
    | some txout =>
      have hlt : txin.prevout.n.toNat < wtx.vout.length := (List.getElem?_eq_some_iff.mp hout).1
      simp only [hout, CWalletTx.isSpent_eq_entry hlt] at hstep
      change (if (!wtx.entry.fSpent _ && wallet.isMine txout) = true then _ else _) = _ at hstep
      split_ifs at hstep with hspend
      · obtain ⟨-, hmine⟩ := Bool.and_eq_true_iff.mp hspend
        cases hcredit : wallet.getCredit wtx with
        | error e =>
          rw [hcredit] at hstep
          cases hstep
        | ok wtx₁ =>
          rw [hcredit] at hstep
          change (wtx₁.markSpent _).map _ = _ at hstep
          cases hmark : wtx₁.markSpent txin.prevout.n.toNat with
          | error e =>
            rw [hmark] at hstep
            cases hstep
          | ok marked =>
            rw [hmark] at hstep
            cases hstep
            exact shows_mark hget hout hmine (entry_of_getCredit hcredit) hmark
      · cases hstep
        refine shows_unmarked fun wtx' txout' hget' hout' hmine' => ?_
        cases hget.symm.trans hget'
        cases hout.symm.trans hout'
        rw [hmine', Bool.and_true, Bool.not_eq_true, Bool.not_eq_false'] at hspend
        exact hspend

/-- A loop that marks the outputs that some inputs spend. -/
lemma shows_foldlM {turn : CWallet → CTxIn → Except Fault CWallet}
    (hturn : ∀ wallet txin wallet', turn wallet txin = .ok wallet' →
      Shows wallet wallet' (wallet.view.marked wallet.isMine fSpent [spends txin]))
    {vin : List CTxIn} (hloop : vin.foldlM turn wallet = .ok wallet') :
    Shows wallet wallet' (wallet.view.marked wallet.isMine fSpent (vin.map spends)) := by
  induction vin generalizing wallet with
  | nil =>
    cases hloop
    rw [List.map_nil, View.marked_nil]
    exact .refl _
  | cons txin vin ih =>
    obtain ⟨wallet₁, hfirst, hrest⟩ := foldlM_cons_eq_ok.mp hloop
    have hshows := hturn wallet txin wallet₁ hfirst
    have hshows' := ih hrest
    rw [hshows.isMine, hshows.view, ← View.marked_append] at hshows'
    exact ⟨hshows'.surroundings.trans hshows.surroundings, hshows'.view⟩

/-- `WalletUpdateSpent` marks the outputs of the wallet as spent. -/
lemma shows_walletUpdateSpent {vin : List CTxIn}
    (hspend : wallet.walletUpdateSpent vin = .ok wallet') :
    Shows wallet wallet' (wallet.view.marked wallet.isMine true (vin.map spends)) :=
  shows_foldlM (fun _ _ _ => shows_spendInput) hspend

/-- `SyncWithWallets` of a disconnected transaction marks the outputs that it refunds as unspent. -/
lemma shows_syncDisconnected (hsync : wallet.syncDisconnected tx = .ok wallet') :
    Shows wallet wallet' (wallet.view.marked wallet.isMine false (wallet.refunds tx)) := by
  unfold syncDisconnected at hsync
  unfold refunds fromMe
  cases hstake : tx.isCoinStake with
  | false =>
    rw [hstake] at hsync
    cases hsync
    rw [Bool.false_and, if_neg Bool.false_ne_true, View.marked_nil]
    exact .refl wallet
  | true =>
    rw [hstake, if_pos rfl] at hsync
    cases hfrom : wallet.isFromMe tx with
    | error e =>
      rw [hfrom] at hsync
      cases hsync
    | ok fFromMe =>
      rw [hfrom] at hsync
      change (if fFromMe = true then wallet.disableTransaction tx else .ok wallet) = _ at hsync
      cases fFromMe with
      | false =>
        cases hsync
        change Shows wallet wallet (wallet.view.marked _ _ [])
        rw [View.marked_nil]
        exact .refl wallet
      | true =>
        rw [if_pos rfl, disableTransaction, hstake, hfrom] at hsync
        exact shows_foldlM (fun _ _ _ => shows_refundInput) hsync

end CWallet

end HyperStake.WalletTx
