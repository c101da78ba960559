import HyperStake.Wallet.FixSpentCoins

/-!
# What a repair reports

`FixSpentCoins` counts the outputs that do not agree with the transaction index and the transactions
that it takes out.  What a transaction adds to the counts can be said of the wallet before the run
(`fixSpentCoins_report`), so that a run that only checks counts the same as a repair, and after a
repair there is nothing more to count.

There are three limits.  The outputs of a transaction that the index does not have are left as they
are, a wallet without a file never loses a transaction, and the debit of a transaction, which is
computed from the transactions that are still there, can be out of range.
-/

namespace HyperStake.WalletTx

open ExceptLoop

/-- The results of `FixSpentCoins`. -/
structure FixReport where
  nMismatchFound : Int32 := 0
  nBalanceInQuestion : Int64 := 0
  nOrphansFound : Int32 := 0

namespace FixReport

/-- One more output that does not agree with the index. -/
def mismatch (txout : CTxOut) (r : FixReport) : FixReport :=
  { r with
    nMismatchFound := r.nMismatchFound + 1
    nBalanceInQuestion := r.nBalanceInQuestion + txout.nValue }

/-- One more transaction that is taken out. -/
def orphan (r : FixReport) : FixReport := { r with nOrphansFound := r.nOrphansFound + 1 }

end FixReport

/-- What has been counted. -/
def FixState.report (s : FixState) : FixReport :=
  ⟨s.nMismatchFound, s.nBalanceInQuestion, s.nOrphansFound⟩

namespace FixCall

variable (call : FixCall)

/-- The run that changes nothing. -/
def check : FixCall := { call with fCheckOnly := true }

/-- The run that repairs. -/
def repair : FixCall := { call with fCheckOnly := false }

/-- What an output adds to the counts, if its transaction is compared with the index. -/
def reportOutput (isMine : CTxOut → Bool) (fSpent fIndexed : ℕ → Bool) (r : FixReport)
    (out : CTxOut × ℕ) : FixReport :=
  if isMine out.1 && (fSpent out.2 != fIndexed out.2) then r.mismatch out.1 else r

/-- What a transaction adds to the counts. -/
def reportCoin (isMine : CTxOut → Bool) (h : UInt256) (e : Entry) (r : FixReport) : FixReport :=
  let r := if call.compares h e then
    e.place.vout.zipIdx.foldl (reportOutput isMine e.fSpent (call.spentInIndex h)) r else r
  if call.removes e then r.orphan else r

end FixCall

section Rounds

variable {call : FixCall} {h : UInt256} {pcoin pcoin' : CWalletTx} {s s' : FixState}
  {vSpent : List CDiskTxPos}

/-- What a round of the loop over the outputs leaves as it is. -/
structure FixesOutput (n : ℕ) (p p' : CWalletTx × FixState) : Prop where
  wallet : p'.2.wallet = p.2.wallet
  toCMerkleTx : p'.1.toCMerkleTx = p.1.toCMerkleTx
  data : p'.1.entry.data = p.1.entry.data
  fDebitCached : p'.1.fDebitCached = p.1.fDebitCached
  others : ∀ k, n ≠ k → p'.1.entry.fSpent k = p.1.entry.fSpent k

/-- Marking an output leaves the others and the debit. -/
lemma fixesOutput_of_mark {fSpent : Bool} {n : ℕ} (hmark : pcoin.mark fSpent n = .ok pcoin')
    (hwallet : s'.wallet = s.wallet) : FixesOutput n (pcoin, s) (pcoin', s') := by
  have hentry := CWalletTx.entry_of_mark hmark
  have hdebit : pcoin'.toCMerkleTx = pcoin.toCMerkleTx ∧
      pcoin'.fDebitCached = pcoin.fDebitCached := by
    unfold CWalletTx.mark at hmark
    split_ifs at hmark
    · cases hmark
      exact ⟨rfl, rfl⟩
    · cases hmark
      exact ⟨rfl, rfl⟩
  have hdata : pcoin'.entry.data = pcoin.entry.data := by rw [hentry]
  refine ⟨hwallet, hdebit.1, hdata, hdebit.2, fun k hk => ?_⟩
  rw [hentry]
  exact Function.update_of_ne (Ne.symm hk) _ _

/-- A round of the loop over the outputs, in both kinds of runs. -/
lemma fixOutput_report {txout : CTxOut} {n : ℕ} (hlt : n < pcoin.vout.length)
    (hstep : call.fixOutput vSpent (pcoin, s) (txout, n) = .ok (pcoin', s')) :
    FixesOutput n (pcoin, s) (pcoin', s') ∧ s'.report =
      if s.wallet.isMine txout && call.isOld pcoin &&
          (pcoin.entry.fSpent n != vSpent[n]?.any fun pos => !pos.isNull) then
        s.report.mismatch txout
      else s.report := by
  rcases fixOutput_cases hlt hstep with ⟨hdiffers, rfl, hmark⟩ | ⟨hsame, rfl, rfl⟩
  · rw [if_pos hdiffers]
    split_ifs at hmark with hcheck
    · cases hmark
      exact ⟨⟨rfl, rfl, rfl, rfl, fun _ _ => rfl⟩, rfl⟩
    · exact ⟨fixesOutput_of_mark hmark rfl, rfl⟩
  · rw [hsame]
    exact ⟨⟨rfl, rfl, rfl, rfl, fun _ _ => rfl⟩, rfl⟩

/-- The loop over the outputs, in both kinds of runs. -/
lemma fixOutputs_report
    (hloop : pcoin.vout.zipIdx.foldlM (call.fixOutput vSpent) (pcoin, s) = .ok (pcoin', s')) :
    (s'.wallet = s.wallet ∧ pcoin'.toCMerkleTx = pcoin.toCMerkleTx ∧
      pcoin'.entry.data = pcoin.entry.data ∧ pcoin'.fDebitCached = pcoin.fDebitCached) ∧
    s'.report = pcoin.vout.zipIdx.foldl (fun r out =>
      if s.wallet.isMine out.1 && call.isOld pcoin && (pcoin.entry.fSpent out.2 !=
          vSpent[out.2]?.any fun pos => !pos.isNull) then r.mismatch out.1 else r) s.report := by
  let motive : CWalletTx × FixState → Prop := fun p =>
    p.2.wallet = s.wallet ∧ p.1.toCMerkleTx = pcoin.toCMerkleTx ∧
      p.1.entry.data = pcoin.entry.data ∧ p.1.fDebitCached = pcoin.fDebitCached
  have hstep : ∀ p, ∀ out ∈ pcoin.vout.zipIdx, ∀ p', motive p →
      call.fixOutput vSpent p out = .ok p' → motive p' ∧
        p'.2.report = (if s.wallet.isMine out.1 && call.isOld pcoin && (p.1.entry.fSpent out.2 !=
          vSpent[out.2]?.any fun pos => !pos.isNull) then p.2.report.mismatch out.1
          else p.2.report) ∧
        ∀ k, out.2 ≠ k → p'.1.entry.fSpent k = p.1.entry.fSpent k := by
    rintro ⟨p, t⟩ ⟨txout, n⟩ hmem ⟨p', t'⟩ ⟨hwallet, hplace, hdata, hdebit⟩ hround
    have hlt : n < p.vout.length := by
      have hrange := List.snd_lt_of_mem_zipIdx hmem
      have hvout : p.vout = pcoin.vout := congrArg (fun place : CMerkleTx => place.vout) hplace
      rwa [Nat.add_zero, ← hvout] at hrange
    have hold : call.isOld p.entry.data = call.isOld pcoin.entry.data := congrArg call.isOld hdata
    replace hold : call.isOld p = call.isOld pcoin := hold
    obtain ⟨hfixes, hreport⟩ := fixOutput_report hlt hround
    refine ⟨⟨hfixes.wallet.trans hwallet, hfixes.toCMerkleTx.trans hplace,
      hfixes.data.trans hdata, hfixes.fDebitCached.trans hdebit⟩, ?_, hfixes.others⟩
    rw [hreport, hwallet, hold]
  have hnodup : (pcoin.vout.zipIdx.map Prod.snd).Nodup := by
    rw [List.zipIdx_map_snd]
    exact List.nodup_range'
  exact foldlM_tally (fun p k => p.1.entry.fSpent k) (fun p => p.2.report) (fun out fSpent r =>
    if s.wallet.isMine out.1 && call.isOld pcoin &&
      (fSpent != vSpent[out.2]?.any fun pos => !pos.isNull) then r.mismatch out.1 else r)
    Prod.snd motive hstep hnodup ⟨rfl, rfl, rfl, rfl⟩ hloop

/-- Taking out a transaction changes no other. -/
lemma view_orphan_of_ne {k : UInt256} (hk : h ≠ k) :
    (call.orphan h s).wallet.view k = s.wallet.view k := by
  rw [CWallet.view, getElem?_orphan, if_neg fun hand => hk hand.2, CWallet.view]

/-- A round of the loop, in both kinds of runs. -/
lemma fixCoin_report (hround : call.fixCoin s h = .ok s') :
    s'.wallet.isMine = s.wallet.isMine ∧
      s'.report = (s.wallet.view h).elim s.report
        (fun e => call.reportCoin s.wallet.isMine h e s.report) ∧
      ∀ k, h ≠ k → s'.wallet.view k = s.wallet.view k := by
  rcases fixCoin_cases hround with ⟨hget, rfl⟩ | ⟨pcoin, t, fRemoved, -, hview, houtputs, rfl⟩
  · refine ⟨rfl, ?_, fun _ _ => rfl⟩
    rw [CWallet.view, hget]
    rfl
  have hput := view_put_self hview
  -- what has been counted before the transaction is taken out
  have hcounted : fRemoved = call.removes pcoin.entry ∧ t.wallet.isMine = s.wallet.isMine ∧
      (∀ k, h ≠ k → t.wallet.view k = s.wallet.view k) ∧
      call.reportCoin s.wallet.isMine h pcoin.entry s.report =
        if call.removes pcoin.entry then t.report.orphan else t.report := by
    rcases houtputs with ⟨hcompares, hremoves, rfl⟩ | ⟨hcompares, marked, r, hloop, hremoves, rfl⟩
    · refine ⟨hremoves, rfl, fun k _ => congrFun hput k, ?_⟩
      rw [FixCall.reportCoin, hcompares]
      rfl
    · obtain ⟨⟨hwallet, hplace, -, -⟩, hreport⟩ := fixOutputs_report hloop
      refine ⟨hremoves hplace, by rw [CWallet.put, hwallet]; rfl, fun k hk => ?_, ?_⟩
      · rw [CWallet.view_put, Function.update_of_ne (Ne.symm hk), hwallet]
        exact congrFun hput k
      · rw [FixCall.reportCoin, hcompares]
        change _ = if _ then r.report.orphan else r.report
        rw [hreport]
        cases call.isOld pcoin with
        | true =>
          simp only [Bool.and_true]
          rfl
        | false =>
          simp only [Bool.and_false, Bool.false_and, Bool.false_eq_true, if_false,
            List.foldl_fixed]
          rfl
  obtain ⟨rfl, hmine, hother, hreport⟩ := hcounted
  rw [hview, Option.elim, hreport]
  split_ifs
  · exact ⟨isMine_orphan.trans hmine, rfl, fun k hk => (view_orphan_of_ne hk).trans (hother k hk)⟩
  · exact ⟨hmine, rfl, hother⟩

end Rounds

variable {wallet : CWallet}

/-- What `FixSpentCoins` reports, said of the wallet before the run. -/
lemma fixSpentCoins_report {call : FixCall} {s : FixState}
    (hfix : call.fixSpentCoins wallet = .ok s) :
    s.report = wallet.mapWallet.keys.foldl (fun r h =>
      (wallet.view h).elim r fun e => call.reportCoin wallet.isMine h e r) {} := by
  have hstep : ∀ b : FixState, ∀ h ∈ wallet.mapWallet.keys, ∀ b', b.wallet.isMine = wallet.isMine →
      call.fixCoin b h = .ok b' → b'.wallet.isMine = wallet.isMine ∧
        b'.report = (b.wallet.view h).elim b.report
          (fun e => call.reportCoin wallet.isMine h e b.report) ∧
        ∀ k, h ≠ k → b'.wallet.view k = b.wallet.view k := by
    intro b h _ b' hmine hround
    obtain ⟨hsame, hreport, hother⟩ := fixCoin_report hround
    rw [hmine] at hsame hreport
    exact ⟨hsame, hreport, hother⟩
  have hnodup : (wallet.mapWallet.keys.map id).Nodup := by
    rw [List.map_id]
    exact Std.ExtTreeMap.nodup_keys
  exact (foldlM_tally (fun b h => b.wallet.view h) FixState.report (fun h view r =>
    view.elim r fun e => call.reportCoin wallet.isMine h e r) id
    (fun b => b.wallet.isMine = wallet.isMine) hstep hnodup rfl hfix).2

/-! ## After a repair -/

section AfterRepair

variable {call : FixCall} {wallet : CWallet} {h : UInt256} {e : Entry} {isMine : CTxOut → Bool}

/-- The own outputs of a transaction that is compared are marked as the index says. -/
def FixCall.Agrees (call : FixCall) (isMine : CTxOut → Bool) (h : UInt256) (e : Entry) : Prop :=
  call.compares h e = true → ∀ n, e.owns isMine n = true → e.fSpent n = call.spentInIndex h n

/-- A transaction that agrees with the index adds no output to the counts. -/
lemma reportCoin_of_agrees (hagrees : call.Agrees isMine h e) (r : FixReport) :
    call.reportCoin isMine h e r = if call.removes e then r.orphan else r := by
  have hout : ∀ out ∈ e.place.vout.zipIdx, call.compares h e = true → ∀ r,
      FixCall.reportOutput isMine e.fSpent (call.spentInIndex h) r out = r := by
    rintro ⟨txout, n⟩ hmem hcompares r
    have hget : e.place.vout[n]? = some txout := List.mem_zipIdx_iff_getElem?.mp hmem
    cases hmine : isMine txout with
    | false =>
      rw [FixCall.reportOutput, hmine]
      rfl
    | true =>
      have howns : e.owns isMine n = true := by
        rw [Entry.owns, hget]
        exact hmine
      rw [FixCall.reportOutput, hagrees hcompares n howns, bne_self_eq_false, Bool.and_false]
      rfl
  have hcoin : (if call.compares h e then e.place.vout.zipIdx.foldl
      (FixCall.reportOutput isMine e.fSpent (call.spentInIndex h)) r else r) = r := by
    split_ifs with hcompares
    swap
    · rfl
    have hsame : ∀ outs : List (CTxOut × ℕ), (∀ out ∈ outs, out ∈ e.place.vout.zipIdx) →
        outs.foldl (FixCall.reportOutput isMine e.fSpent (call.spentInIndex h)) r = r := by
      intro outs
      induction outs with
      | nil => exact fun _ => rfl
      | cons out outs ih =>
        intro hmem
        rw [List.foldl_cons, hout out (hmem out List.mem_cons_self) hcompares]
        exact ih fun out' hout' => hmem out' (List.mem_cons_of_mem _ hout')
    exact hsame _ fun _ => id
  rw [FixCall.reportCoin, hcoin]

/-- What a repair leaves of a transaction agrees with the index. -/
lemma agrees_of_fixed {e' : Entry} (hfixed : call.fixed isMine h e = some e') :
    call.Agrees isMine h e' ∧ call.removes e' = call.removes e := by
  unfold FixCall.fixed at hfixed
  split_ifs at hfixed
  cases hfixed
  refine ⟨fun hcompares n howns => ?_, rfl⟩
  replace hcompares : call.compares h e = true := hcompares
  replace howns : e.owns isMine n = true := howns
  change call.fixedSpent isMine h e n = _
  rw [FixCall.fixedSpent, hcompares, howns]
  rfl

/-- The debit of a transaction is known if `IsConfirmedInMainChain` asks for it. -/
def FixCall.Settled (call : FixCall) (pcoin : CWalletTx) : Prop :=
  call.chain.isFinal pcoin.toCMerkleTx = true →
    ¬ call.chain.getDepthInMainChain pcoin.toCMerkleTx ≥ 1 →
      pcoin.vin = [] ∨ pcoin.fDebitCached = true

/-- `IsConfirmedInMainChain` caches the debit. -/
lemma settled_of_isConfirmedInMainChain {pcoin pcoin' : CWalletTx} {fConfirmed : Bool}
    (h : wallet.isConfirmedInMainChain pcoin call.chain = .ok (fConfirmed, pcoin')) :
    call.Settled pcoin' := by
  intro hfinal hdepth
  have hplace : pcoin'.toCMerkleTx = pcoin.toCMerkleTx :=
    congrArg Entry.place (CWallet.isConfirmedInMainChain_eq_ok h).1
  rw [hplace] at hfinal hdepth
  rw [CWallet.isConfirmedInMainChain, hfinal, if_neg (by decide), if_neg hdepth] at h
  obtain ⟨⟨nDebit, pcoin''⟩, hdebit, heq⟩ := map_eq_ok.mp h
  obtain ⟨-, rfl⟩ := Prod.mk.inj heq
  unfold CWallet.cachedDebit at hdebit
  split_ifs at hdebit with hvin hcached
  · cases hdebit
    exact Or.inl hvin
  · cases hdebit
    exact Or.inr hcached
  · obtain ⟨n, -, heq⟩ := map_eq_ok.mp hdebit
    obtain ⟨-, rfl⟩ := Prod.mk.inj heq
    exact Or.inr rfl

variable {pcoin : CWalletTx}

/-- If the debit is known, `IsConfirmedInMainChain` returns and caches nothing. -/
lemma isConfirmedInMainChain_of_settled (h : call.Settled pcoin)
    (wallet : CWallet) : wallet.isConfirmedInMainChain pcoin call.chain =
      .ok (call.confirmed pcoin.entry, pcoin) := by
  have hconfirmed : call.confirmed pcoin.entry = (call.chain.isFinal pcoin.toCMerkleTx &&
    decide (call.chain.getDepthInMainChain pcoin.toCMerkleTx ≥ 1)) := rfl
  rw [hconfirmed, CWallet.isConfirmedInMainChain]
  cases hfinal : call.chain.isFinal pcoin.toCMerkleTx with
  | false => rfl
  | true =>
    rw [if_neg (by decide), Bool.true_and]
    by_cases hdepth : call.chain.getDepthInMainChain pcoin.toCMerkleTx ≥ 1
    · rw [if_pos hdepth, decide_eq_true hdepth]
    · rw [if_neg hdepth, decide_eq_false hdepth, CWallet.cachedDebit]
      rcases h hfinal hdepth with hvin | hcached
      · rw [if_pos hvin]
        rfl
      · split_ifs
        · rfl
        · rfl

/-- The same transaction after another comparison. -/
lemma FixCall.Settled.congr {pcoin pcoin' : CWalletTx} (h : call.Settled pcoin)
    (hplace : pcoin'.toCMerkleTx = pcoin.toCMerkleTx)
    (hdebit : pcoin'.fDebitCached = pcoin.fDebitCached) : call.Settled pcoin' := by
  rw [FixCall.Settled, hplace, hdebit]
  exact h

/-- A transaction is put in its place, and perhaps taken out. -/
lemma settled_of_put {s s' : FixState}
    (hsettled : call.Settled pcoin) (hput : s.wallet = wallet.put h pcoin)
    (hend : s' = s ∨ s' = call.orphan h s) :
    (∀ pcoin, s'.wallet.mapWallet[h]? = some pcoin → call.Settled pcoin) ∧
      ∀ k, h ≠ k → s'.wallet.mapWallet[k]? = wallet.mapWallet[k]? := by
  have hget : ∀ k, s.wallet.mapWallet[k]? = if h = k then some pcoin else wallet.mapWallet[k]? := by
    intro k
    rw [hput, CWallet.put, MapLoop.getElem?_insert_eq]
  rcases hend with rfl | rfl
  · refine ⟨fun pcoin' hpcoin' => ?_, fun k hk => ?_⟩
    · rw [hget, if_pos rfl] at hpcoin'
      obtain rfl := Option.some.inj hpcoin'
      exact hsettled
    · rw [hget, if_neg hk]
  · refine ⟨fun pcoin' hpcoin' => ?_, fun k hk => ?_⟩
    · rw [getElem?_orphan] at hpcoin'
      split_ifs at hpcoin'
      rw [hget, if_pos rfl] at hpcoin'
      obtain rfl := Option.some.inj hpcoin'
      exact hsettled
    · rw [getElem?_orphan, if_neg fun hand => hk hand.2, hget, if_neg hk]

/-- What a round leaves of its transaction is settled, and the other transactions are as they
were. -/
lemma fixCoin_settled {s s' : FixState} (hround : call.fixCoin s h = .ok s') :
    (∀ pcoin, s'.wallet.mapWallet[h]? = some pcoin → call.Settled pcoin) ∧
      ∀ k, h ≠ k → s'.wallet.mapWallet[k]? = s.wallet.mapWallet[k]? := by
  rcases fixCoin_cases hround with
    ⟨hget, rfl⟩ | ⟨pcoin, t, fRemoved, ⟨wtx, c, hconfirmed⟩, -, houtputs, rfl⟩
  · refine ⟨fun pcoin hpcoin => ?_, fun _ _ => rfl⟩
    rw [hget] at hpcoin
    cases hpcoin
  have hsettled := settled_of_isConfirmedInMainChain hconfirmed
  rcases houtputs with ⟨-, -, rfl⟩ | ⟨-, marked, r, hloop, -, rfl⟩
  · exact settled_of_put hsettled rfl (ite_eq_or_eq _ _ _).symm
  · obtain ⟨⟨hwallet, hplace, -, hdebit⟩, -⟩ := fixOutputs_report hloop
    have hput : r.wallet.put h marked = s.wallet.put h marked := by
      rw [hwallet]
      refine congrArg (fun mapWallet => { s.wallet with mapWallet }) ?_
      refine Std.ExtTreeMap.ext_getElem? fun k => ?_
      rw [MapLoop.getElem?_insert_eq, MapLoop.getElem?_insert_eq, CWallet.put,
        MapLoop.getElem?_insert_eq]
      split_ifs <;> rfl
    exact settled_of_put (s := { r with wallet := r.wallet.put h marked })
      (hsettled.congr hplace hdebit) hput (ite_eq_or_eq _ _ _).symm

/-- The loop over outputs that there are returns. -/
lemma fixOutputs_returns (call : FixCall) (vSpent : List CDiskTxPos) (outs : List (CTxOut × ℕ))
    (hrange : ∀ out ∈ outs, out.2 < pcoin.vout.length) (s : FixState) :
    ∃ r, outs.foldlM (call.fixOutput vSpent) (pcoin, s) = .ok r := by
  have hmark : ∀ (p : CWalletTx) fSpent n, n < p.vout.length → ∃ p', p.mark fSpent n = .ok p' := by
    intro p fSpent n hlt
    unfold CWalletTx.mark
    rw [if_neg (not_le.mpr hlt)]
    split_ifs
    · exact ⟨_, rfl⟩
    · exact ⟨_, rfl⟩
  induction outs generalizing pcoin s with
  | nil => exact ⟨_, rfl⟩
  | cons out outs ih =>
    obtain ⟨txout, n⟩ := out
    have hlt : n < pcoin.vout.length := hrange (txout, n) List.mem_cons_self
    have hround : ∃ r, call.fixOutput vSpent (pcoin, s) (txout, n) = .ok r := by
      obtain ⟨freed, hfreed⟩ := hmark pcoin false n hlt
      obtain ⟨marked, hmarked⟩ := hmark pcoin true n hlt
      unfold FixCall.fixOutput
      simp only [CWalletTx.isSpent_eq_entry hlt, CWalletTx.markUnspent, CWalletTx.markSpent,
        hfreed, hmarked]
      dsimp only [Except.bind]
      split_ifs
      all_goals exact ⟨_, rfl⟩
    obtain ⟨⟨pcoin', s'⟩, hround⟩ := hround
    have hplace := (fixOutput_report hlt hround).1.toCMerkleTx
    have hlength : pcoin'.vout.length = pcoin.vout.length :=
      congrArg (fun place : CMerkleTx => place.vout.length) hplace
    have hrest : ∀ out ∈ outs, out.2 < pcoin'.vout.length := by
      intro out hout
      rw [hlength]
      exact hrange out (List.mem_cons_of_mem _ hout)
    obtain ⟨r, hr⟩ := ih hrest s'
    exact ⟨r, foldlM_cons_eq_ok.mpr ⟨_, hround, hr⟩⟩

/-- A round for a transaction that is settled returns. -/
lemma fixCoin_returns (call : FixCall) {s : FixState}
    (hsettled : ∀ pcoin, s.wallet.mapWallet[h]? = some pcoin → call.Settled pcoin) :
    ∃ s', call.fixCoin s h = .ok s' := by
  unfold FixCall.fixCoin
  cases hget : s.wallet.mapWallet[h]? with
  | none => exact ⟨s, rfl⟩
  | some pcoin =>
    dsimp only
    rw [isConfirmedInMainChain_of_settled (hsettled pcoin hget)]
    dsimp only [Except.bind]
    split_ifs with hfailed
    · exact ⟨_, rfl⟩
    · unfold FixCall.compareCoin
      dsimp only
      split_ifs with hread
      · exact ⟨_, rfl⟩
      · obtain ⟨r, hr⟩ := fixOutputs_returns call (call.readTxIndex h).2.vSpent pcoin.vout.zipIdx
          (fun out hout => (List.snd_lt_of_mem_zipIdx hout).trans_eq (Nat.add_zero _))
          { s with wallet := s.wallet.put h pcoin }
        rw [hr]
        exact ⟨_, rfl⟩

end AfterRepair

/-! ## A run that only checks -/

/-- A transaction without the debit that it caches. -/
def CWalletTx.withoutDebit (wtx : CWalletTx) : CWalletTx :=
  { wtx with fDebitCached := false, nDebitCached := 0 }

/-- A wallet is as it was, but for the debits that its transactions cache. -/
structure SameButDebits (wallet wallet' : CWallet) : Prop where
  rest : wallet' = { wallet with mapWallet := wallet'.mapWallet }
  mapWallet : ∀ h : UInt256, wallet'.mapWallet[h]?.map CWalletTx.withoutDebit =
    wallet.mapWallet[h]?.map CWalletTx.withoutDebit

section Check

variable {call : FixCall} {wallet : CWallet} {s s' : FixState} {h : UInt256}
  {pcoin pcoin' : CWalletTx} {vSpent : List CDiskTxPos}

lemma SameButDebits.put {wallet' : CWallet} (hsame : SameButDebits wallet wallet')
    (hget : wallet'.mapWallet[h]? = some pcoin)
    (hdebit : pcoin'.withoutDebit = pcoin.withoutDebit) :
    SameButDebits wallet (wallet'.put h pcoin') := by
  refine ⟨?_, fun k => ?_⟩
  · rw [CWallet.put, hsame.rest]
  · rw [CWallet.put, MapLoop.getElem?_insert_eq, ← hsame.mapWallet]
    split_ifs with hk
    · rw [← hk, hget]
      exact congrArg some hdebit
    · rfl

lemma withoutDebit_of_isConfirmedInMainChain {fConfirmed : Bool} {chain : ChainState}
    (h : wallet.isConfirmedInMainChain pcoin chain = .ok (fConfirmed, pcoin')) :
    pcoin'.withoutDebit = pcoin.withoutDebit := by
  unfold CWallet.isConfirmedInMainChain at h
  split_ifs at h
  · cases h
    rfl
  · cases h
    rfl
  · obtain ⟨⟨nDebit, cached⟩, hdebit, heq⟩ := map_eq_ok.mp h
    obtain ⟨-, rfl⟩ := Prod.mk.inj heq
    unfold CWallet.cachedDebit at hdebit
    split_ifs at hdebit
    · cases hdebit
      rfl
    · cases hdebit
      rfl
    · obtain ⟨n, -, heq⟩ := map_eq_ok.mp hdebit
      obtain ⟨-, rfl⟩ := Prod.mk.inj heq
      rfl

/-- The loop over the outputs changes no transaction. -/
lemma fixOutputs_check (hcheck : call.fCheckOnly = true) {outs : List (CTxOut × ℕ)}
    (hloop : outs.foldlM (call.fixOutput vSpent) (pcoin, s) = .ok (pcoin', s')) :
    pcoin' = pcoin ∧ s'.wallet = s.wallet := by
  have hround : ∀ p out p', call.fixOutput vSpent p out = .ok p' →
      p'.1 = p.1 ∧ p'.2.wallet = p.2.wallet := by
    rintro ⟨p, t⟩ ⟨txout, n⟩ ⟨p', t'⟩ hround
    unfold FixCall.fixOutput at hround
    simp only [hcheck, if_true] at hround
    obtain ⟨fSpent, -, hround⟩ := bind_eq_ok.mp hround
    split_ifs at hround
    all_goals
      cases hround
      exact ⟨rfl, rfl⟩
  exact foldlM_invariant (fun _ p => p.1 = pcoin ∧ p.2.wallet = s.wallet)
    (fun _ out _ p p' _ hp hstep =>
      ⟨(hround p out p' hstep).1.trans hp.1, (hround p out p' hstep).2.trans hp.2⟩)
    ⟨rfl, rfl⟩ hloop

/-- A round changes at most the debit of its transaction. -/
lemma fixCoin_check (hcheck : call.fCheckOnly = true) (hsame : SameButDebits wallet s.wallet)
    (hround : call.fixCoin s h = .ok s') : SameButDebits wallet s'.wallet := by
  have horphan : ∀ t : FixState, (call.orphan h t).wallet = t.wallet := by
    intro t
    rw [FixCall.orphan, hcheck]
    rfl
  unfold FixCall.fixCoin at hround
  cases hget : s.wallet.mapWallet[h]? with
  | none =>
    rw [hget] at hround
    cases hround
    exact hsame
  | some pcoin₀ =>
    rw [hget] at hround
    obtain ⟨⟨fConfirmed, pcoin⟩, hconfirmed, hround⟩ := bind_eq_ok.mp hround
    have hput := hsame.put hget (withoutDebit_of_isConfirmedInMainChain hconfirmed)
    dsimp only at hround
    split_ifs at hround with hfailed
    · cases hround
      rw [horphan]
      exact hput
    · unfold FixCall.compareCoin at hround
      dsimp only at hround
      split_ifs at hround with hread
      · cases hround
        exact hput
      · obtain ⟨⟨marked, t⟩, hloop, heq⟩ := map_eq_ok.mp hround
        obtain ⟨rfl, hwallet⟩ := fixOutputs_check hcheck hloop
        have hagain : SameButDebits wallet (t.wallet.put h marked) := by
          rw [hwallet]
          refine hput.put ?_ rfl
          rw [CWallet.put, MapLoop.getElem?_insert_eq, if_pos rfl]
        dsimp only at heq
        split_ifs at heq
        · rw [← heq, horphan]
          exact hagain
        · rw [← heq]
          exact hagain

end Check

/-! ## The repair -/

/-- What the next run counts after a repair: no output, and no transaction if they can be taken
out. -/
structure FixReport.Settled (fFileBacked : Bool) (r : FixReport) : Prop where
  nMismatchFound : r.nMismatchFound = 0
  nBalanceInQuestion : r.nBalanceInQuestion = 0
  nOrphansFound : fFileBacked = true → r.nOrphansFound = 0

/-- After a repair the next run returns, and there is nothing more to count. -/
lemma fixSpentCoins_again {call : FixCall} {s : FixState}
    (hfix : call.repair.fixSpentCoins wallet = .ok s) (fCheckOnly : Bool) :
    ∃ s', ({ call with fCheckOnly } : FixCall).fixSpentCoins s.wallet = .ok s' ∧
      s'.report.Settled call.fFileBacked := by
  have hview := fixSpentCoins_view rfl hfix
  have hkept : ∀ h e', s.wallet.view h = some e' →
      call.Agrees wallet.isMine h e' ∧ (call.fFileBacked = true → call.removes e' = false) := by
    intro h e' he'
    rw [hview] at he'
    obtain ⟨e, -, hfixed⟩ := Option.bind_eq_some_iff.mp he'
    obtain ⟨hagrees, hremoves⟩ := agrees_of_fixed hfixed
    obtain ⟨hstays, -, -⟩ := fixed_eq_some hfixed
    refine ⟨hagrees, fun hbacked => ?_⟩
    have hnot : ¬ call.removes e = true := fun hremoved => hstays ⟨hbacked, hremoved⟩
    exact hremoves.trans ((Bool.not_eq_true _).mp hnot)
  have hvisit := foldlM_visit (fun (b : FixState) k => b.wallet.mapWallet[k]?)
    (fun k _ new => ∀ pcoin, new = some pcoin → call.Settled pcoin)
    (fun b => b.wallet.isMine = wallet.isMine)
    (fun b k b' hmine hround => by
      obtain ⟨hself, hother⟩ := fixCoin_settled hround
      exact ⟨(fixCoin_report hround).1.trans hmine, hself, hother⟩)
    Std.ExtTreeMap.nodup_keys rfl hfix
  obtain ⟨hmine, hin, hout⟩ := hvisit
  have hsettled : ∀ (k : UInt256) (pcoin : CWalletTx), s.wallet.mapWallet[k]? = some pcoin →
      call.Settled pcoin := by
    intro k pcoin hpcoin
    refine hin k ?_ pcoin hpcoin
    by_contra hmem
    have hnone : wallet.mapWallet[k]? = none :=
      Std.ExtTreeMap.getElem?_eq_none fun hk => hmem (Std.ExtTreeMap.mem_keys.mpr hk)
    rw [hout k hmem, hnone] at hpcoin
    cases hpcoin
  have hnodup : s.wallet.mapWallet.keys.Nodup := Std.ExtTreeMap.nodup_keys
  obtain ⟨s', hs'⟩ := foldlM_returns (fun (b : FixState) k => b.wallet.mapWallet[k]?)
    (fun k coin => ∀ pcoin, coin = some pcoin → call.Settled pcoin)
    (f := ({ call with fCheckOnly } : FixCall).fixCoin)
    (fun b k hgood => by
      obtain ⟨b', hb'⟩ := fixCoin_returns { call with fCheckOnly } hgood
      exact ⟨b', hb', (fixCoin_settled hb').2⟩)
    hnodup (b := { wallet := s.wallet }) (fun k _ => hsettled k)
  refine ⟨s', hs', ?_⟩
  have hnothing : ∀ (keys : List UInt256) (r : FixReport), r.Settled call.fFileBacked →
      (keys.foldl (fun r h => (s.wallet.view h).elim r
        fun e => call.reportCoin wallet.isMine h e r) r).Settled call.fFileBacked := by
    intro keys
    induction keys with
    | nil => exact fun _ hr => hr
    | cons k keys ih =>
      intro r hr
      rw [List.foldl_cons]
      refine ih _ ?_
      cases hcoin : s.wallet.view k with
      | none => exact hr
      | some e =>
        obtain ⟨hagrees, hremoves⟩ := hkept k e hcoin
        rw [Option.elim, reportCoin_of_agrees hagrees]
        split_ifs with hremoved
        · refine ⟨hr.nMismatchFound, hr.nBalanceInQuestion, fun hbacked => ?_⟩
          rw [hremoves hbacked] at hremoved
          cases hremoved
        · exact hr
  rw [fixSpentCoins_report hs', hmine]
  exact hnothing _ {} ⟨rfl, rfl, fun _ => rfl⟩

/-- A repair leaves every transaction that the index has as the index says, and nothing to count for
the next run; and a run that only checks changes nothing and counts the same as a repair. -/
theorem fixSpentCoins_repairs (call : FixCall) (wallet : CWallet) :
    (∀ s, call.repair.fixSpentCoins wallet = .ok s →
      (∀ h e n, s.wallet.view h = some e → call.confirmed e = true → call.isOld e.data = true →
        ((call.readTxIndex h).1 || e.place.isCoinBase || e.place.isCoinStake) = true →
        e.owns wallet.isMine n = true → e.fSpent n = call.spentInIndex h n) ∧
      ∀ fCheckOnly, ∃ s', ({ call with fCheckOnly } : FixCall).fixSpentCoins s.wallet = .ok s' ∧
        s'.nMismatchFound = 0 ∧ s'.nBalanceInQuestion = 0 ∧
        (call.fFileBacked = true → s'.nOrphansFound = 0)) ∧
    ∀ s, call.check.fixSpentCoins wallet = .ok s → SameButDebits wallet s.wallet ∧
      ∀ s', call.repair.fixSpentCoins wallet = .ok s' → s.report = s'.report := by
  refine ⟨fun s hfix => ⟨fun h e' n he' hconfirmed hold hindexed howns => ?_,
    fun fCheckOnly => ?_⟩, fun s hcheck => ⟨?_, fun s' hfix => ?_⟩⟩
  · rw [fixSpentCoins_view rfl hfix] at he'
    obtain ⟨e, -, hfixed⟩ := Option.bind_eq_some_iff.mp he'
    refine (agrees_of_fixed hfixed).1 ?_ n howns
    change call.compares h e' = true
    rw [FixCall.compares, hconfirmed, hold, hindexed]
    rfl
  · obtain ⟨s', hs', hnone⟩ := fixSpentCoins_again hfix fCheckOnly
    exact ⟨s', hs', hnone.nMismatchFound, hnone.nBalanceInQuestion, hnone.nOrphansFound⟩
  · exact foldlM_invariant (fun _ b => SameButDebits wallet b.wallet)
      (fun _ _ _ _ _ _ hsame hround => fixCoin_check rfl hsame hround) ⟨rfl, fun _ => rfl⟩ hcheck
  · rw [fixSpentCoins_report hcheck, fixSpentCoins_report hfix]
    rfl

/-- The spender that has failed is taken out, and the next run finds nothing. -/
theorem fixSpentCoins_repairs_spendingRepair :
    ∃ s sCheck s', spendingRepair.repair.fixSpentCoins (spendingWallet 1000) = .ok s ∧
      spendingRepair.check.fixSpentCoins (spendingWallet 1000) = .ok sCheck ∧
      sCheck.report = s.report ∧ spendingRepair.fixSpentCoins s.wallet = .ok s' ∧
      s'.nMismatchFound = 0 ∧ s'.nOrphansFound = 0 := by
  obtain ⟨hrepairs, hchecks⟩ := fixSpentCoins_repairs spendingRepair (spendingWallet 1000)
  have hok : (spendingRepair.repair.fixSpentCoins (spendingWallet 1000)).toOption.isSome := by
    decide +kernel
  have hcheckOk : (spendingRepair.check.fixSpentCoins (spendingWallet 1000)).toOption.isSome := by
    decide +kernel
  obtain ⟨s, hfix⟩ := exists_eq_ok hok
  obtain ⟨sCheck, hcheck⟩ := exists_eq_ok hcheckOk
  obtain ⟨s', hagain, hmismatch, -, horphans⟩ := (hrepairs s hfix).2 false
  exact ⟨s, sCheck, s', hfix, hcheck, (hchecks sCheck hcheck).2 s hfix, hagain, hmismatch,
    horphans rfl⟩

/-- A transaction with two outputs, each of which is all the money. -/
def greatCoin : CWalletTx where
  vin := [{ prevout := { hash := 5, n := 0 } }]
  vout := [{ nValue := MAX_MONEY }, { nValue := MAX_MONEY }]
  nTimeSmart := 1000

/-- A transaction that spends both of them. -/
def greatSpender : CWalletTx where
  vin := [{ prevout := { hash := greatCoin.getHash CBlock.mixingHash, n := 0 } },
    { prevout := { hash := greatCoin.getHash CBlock.mixingHash, n := 1 } }]
  vout := [{ nValue := 900 }]
  nTimeSmart := 1000

/-- A wallet with both transactions, neither of which is confirmed. -/
def greatWallet : CWallet :=
  { spendingWallet 1000 with
    mapWallet := (∅ : Std.ExtTreeMap UInt256 CWalletTx).insert
      (greatCoin.getHash CBlock.mixingHash) greatCoin
      |>.insert (greatSpender.getHash CBlock.mixingHash) greatSpender }

/-- An output of a transaction that the index does not have stays marked as spent; a wallet without
a file reports an orphan again; and the debit is out of range while the transaction that it is
computed from is there. -/
theorem not_fixSpentCoins_repairs :
    (¬ ∀ (call : FixCall) (wallet : CWallet) (s : FixState),
      call.repair.fixSpentCoins wallet = .ok s → ∀ h e n, s.wallet.view h = some e →
        call.confirmed e = true → call.isOld e.data = true → e.owns wallet.isMine n = true →
        e.fSpent n = call.spentInIndex h n) ∧
    (¬ ∀ (call : FixCall) (wallet : CWallet) (s s' : FixState),
      call.repair.fixSpentCoins wallet = .ok s → call.repair.fixSpentCoins s.wallet = .ok s' →
        s'.nMismatchFound = 0 ∧ s'.nOrphansFound = 0) ∧
    ¬ ∀ (call : FixCall) (wallet : CWallet) (s' : FixState),
      call.repair.fixSpentCoins wallet = .ok s' → ∃ s, call.check.fixSpentCoins wallet = .ok s ∧
        s.report = s'.report := by
  refine ⟨fun hall => ?_, fun hall => ?_, fun hall => ?_⟩
  · let call : FixCall := { spendingRepair with readTxIndex := fun _ => (false, {}) }
    let h := spentCoin.getHash CBlock.mixingHash
    have hrun : ((call.repair.fixSpentCoins (spendingWallet 1000)).toOption.bind fun s =>
        (s.wallet.view h).map fun e => (call.confirmed e, call.isOld e.data,
          e.owns (spendingWallet 1000).isMine 0, e.fSpent 0)) = some (true, true, true, true) := by
      decide +kernel
    have hindex : call.spentInIndex h 0 = false := rfl
    cases hfix : call.repair.fixSpentCoins (spendingWallet 1000) with
    | error e =>
      rw [hfix] at hrun
      cases hrun
    | ok s =>
      rw [hfix] at hrun
      obtain ⟨e, hview, heq⟩ := Option.map_eq_some_iff.mp hrun
      simp only [Prod.mk.injEq] at heq
      obtain ⟨hconfirmed, hold, howns, hspent⟩ := heq
      have hflag := hall call (spendingWallet 1000) s hfix h e 0 hview hconfirmed hold howns
      rw [hspent, hindex] at hflag
      exact Bool.false_ne_true hflag.symm
  · let call : FixCall := { spendingRepair with fFileBacked := false }
    have hrun : ((call.repair.fixSpentCoins (spendingWallet 1000)).toOption.bind fun s =>
        (call.repair.fixSpentCoins s.wallet).toOption.map FixState.nOrphansFound) = some 1 := by
      decide +kernel
    cases hfix : call.repair.fixSpentCoins (spendingWallet 1000) with
    | error e =>
      rw [hfix] at hrun
      cases hrun
    | ok s =>
      rw [hfix] at hrun
      obtain ⟨s', hs', horphans⟩ := Option.map_eq_some_iff.mp hrun
      have hnone := (hall call (spendingWallet 1000) s s' hfix (eq_ok_of_toOption hs')).2
      rw [hnone] at horphans
      exact absurd horphans (by decide)
  · have hok : (spendingRepair.repair.fixSpentCoins greatWallet).toOption.isSome = true := by
      decide +kernel
    have hthrows : (spendingRepair.check.fixSpentCoins greatWallet).toOption.isSome = false := by
      decide +kernel
    obtain ⟨s', hfix⟩ := exists_eq_ok hok
    obtain ⟨s, hcheck, -⟩ := hall spendingRepair greatWallet s' hfix
    rw [hcheck] at hthrows
    cases hthrows

end HyperStake.WalletTx
