import HyperStake.Wallet.Created
import HyperStake.Wallet.MultiSendPayment

/-!
# MultiSend over a run

Calls of `ProcessBlock` take the active chain from one height to others and end with a call of
`MultiSend`.  The reward of every coin stake that reaches the depth of `nCoinbaseMaturity + 20` is to
be shared once.  It is if every such coin stake has just this depth at the end of the call, the height
is above that of the last payment, and the first coin has an address that is not disabled
(`paysEach_of_run`).  A call that attaches several blocks can go past the depth (`not_paysEach`).
-/

namespace HyperStake

open ExceptLoop

variable {nCoinbaseMaturity : Int32}

/-- A call of `ProcessBlock` that accepts its block. -/
structure AttachCall (nCoinbaseMaturity : Int32) where
  /-- The active chains that the call goes through before the last. -/
  passed : List ChainHeights
  /-- What the call of `MultiSend` at the end works on. -/
  node : MultiSendNode nCoinbaseMaturity
  fMultiSend : Bool
  fMultiSendCoinStake : Bool

namespace AttachCall

variable (call : AttachCall nCoinbaseMaturity)

/-- The active chains that a call goes through. -/
def chains : List ChainHeights := call.passed ++ [call.node.chain]

/-- The end of `ProcessBlock`, from `nLastMultiSendHeight` and the payments before. -/
def finish (rounds : ℕ) (s : Int32 × List MultiSendPayment) (call : AttachCall nCoinbaseMaturity) :
    Except Fault (Int32 × List MultiSendPayment) :=
  if call.fMultiSend && !call.fMultiSendCoinStake then
    (call.node.multiSend rounds s.1).map fun r => (r.2.1, s.2 ++ r.2.2)
  else .ok s

/-- MultiSend is enabled, the wallet is unlocked, and the initial download is over. -/
structure Ready : Prop where
  fMultiSend : call.fMultiSend = true
  fMultiSendCoinStake : call.fMultiSendCoinStake = false
  isLocked : call.node.isLocked = false
  fInitialBlockDownload : call.node.fInitialBlockDownload = false

/-- A coin stake of the wallet with an own output to an address that is not disabled. -/
def Shares (h : UInt256) (wtx : CWalletTx) : Prop :=
  call.node.mapWallet[h]? = some wtx ∧ wtx.tx.isCoinStake = true ∧
    ∃ txout ∈ wtx.tx.vout, ∃ address, call.node.isMine txout = true ∧
      CScript.extractDestination call.node.crypto txout.scriptPubKey = some address ∧
      call.node.disabled address = false

/-- A transaction reaches the depth of MultiSend in a call. -/
def Reaches (before : List ChainHeights) (h : UInt256) : Prop :=
  (∀ chain ∈ before, chain.depth h < nCoinbaseMaturity + 20) ∧
    ∃ chain ∈ call.chains, nCoinbaseMaturity + 20 ≤ chain.depth h

end AttachCall

/-- The payments of some calls. -/
def runMultiSend (rounds : ℕ) (nLastMultiSendHeight : Int32)
    (calls : List (AttachCall nCoinbaseMaturity)) : Except Fault (Int32 × List MultiSendPayment) :=
  calls.foldlM (AttachCall.finish rounds) (nLastMultiSendHeight, [])

/-- The active chains of some calls, after the first one. -/
def chainsOf (start : ChainHeights) (calls : List (AttachCall nCoinbaseMaturity)) :
    List ChainHeights :=
  start :: calls.flatMap AttachCall.chains

/-- The reward of a coin stake has been shared in a payment. -/
def AttachCall.Paid (call : AttachCall nCoinbaseMaturity) (wtx : CWalletTx)
    (payment : MultiSendPayment) : Prop :=
  payment.fCommitted = true ∧ ∃ nCredit nDebit, call.node.getCredit wtx = .ok nCredit ∧
    call.node.getDebit wtx = .ok nDebit ∧
    payment.vecSend.map (fun s => s.2.toInt) = call.node.vMultiSend.map fun ms =>
      (nCredit.toInt - nDebit.toInt) * ms.2.toInt / 100

/-- Of every coin stake that reaches the depth the reward is shared once, with the right amounts, and
nothing is committed that was not created. -/
structure PaysEach (start : ChainHeights) (calls : List (AttachCall nCoinbaseMaturity))
    (payments : List MultiSendPayment) : Prop where
  paid : ∀ (pre : List (AttachCall nCoinbaseMaturity)) (call : AttachCall nCoinbaseMaturity)
    (post : List (AttachCall nCoinbaseMaturity)) (h : UInt256) (wtx : CWalletTx),
    calls = pre ++ call :: post → call.Shares h wtx → call.Reaches (chainsOf start pre) h →
    (payments.map MultiSendPayment.stake).count h = 1 ∧
      ∃ payment ∈ payments, payment.stake = h ∧ call.Paid wtx payment
  created : ∀ payment ∈ payments, payment.fCreated = true

/-! ## The conditions -/

/-- The condition on a call, after some active chains and with the height of the last payment. -/
structure AttachCall.Regular (call : AttachCall nCoinbaseMaturity) (rounds : ℕ)
    (before : List ChainHeights) (nLastMultiSendHeight : Int32) : Prop where
  /-- A coin stake that reaches the depth has just this depth at the end. -/
  stops : ∀ (h : UInt256) (wtx : CWalletTx), call.Shares h wtx → call.Reaches before h →
    call.node.chain.depth h = nCoinbaseMaturity + 20
  /-- The height is above that of the last payment. -/
  higher : ∀ (h : UInt256) (wtx : CWalletTx), call.Shares h wtx → call.Reaches before h →
    nLastMultiSendHeight < call.node.chain.nBestHeight
  /-- The first coin that is due has an address that is not disabled. -/
  listed : ∀ (h : UInt256) (wtx : CWalletTx) (vCoins : List COutput), call.Shares h wtx →
    call.Reaches before h → call.node.availableCoins true = .ok vCoins →
    ((vCoins.find? call.node.isDue).filter call.node.enabled).isSome = true
  /-- `CreateTransaction` and `CommitTransaction` do not fail for a coin that is paid from. -/
  creates : ∀ (vCoins : List COutput) (out : COutput) (wtx : CWalletTx) (txout : CTxOut)
    (vecSend : List (CScript × Int64)) (wtxNew : Option CTransaction),
    call.node.availableCoins true = .ok vCoins →
    call.node.chosen vCoins nLastMultiSendHeight = some out →
    call.node.txout out = .ok (wtx, txout) →
    call.node.vMultiSend.mapM (call.node.share wtx) = .ok vecSend →
    call.node.create rounds out vecSend = .ok wtxNew →
    ∃ tx, wtxNew = some tx ∧ call.node.commitTransaction tx = true
  /-- The debit of such a coin stake is not above its credit. -/
  reward : ∀ (vCoins : List COutput) (out : COutput) (wtx : CWalletTx) (txout : CTxOut),
    call.node.availableCoins true = .ok vCoins →
    call.node.chosen vCoins nLastMultiSendHeight = some out →
    call.node.txout out = .ok (wtx, txout) →
    ∃ nCredit nDebit, call.node.getCredit wtx = .ok nCredit ∧
      call.node.getDebit wtx = .ok nDebit ∧ nDebit ≤ nCredit
  percent : ∀ ms ∈ call.node.vMultiSend, 0 ≤ ms.2.toInt ∧ ms.2.toInt ≤ 100
  /-- A coin stake stays at its height. -/
  height_eq : ∀ (h : UInt256) (wtx : CWalletTx) (chain : ChainHeights) (nHeight nHeight' : Int32),
    call.node.mapWallet[h]? = some wtx → wtx.tx.isCoinStake = true → chain ∈ before →
    chain.heightOf h = some nHeight → call.node.chain.heightOf h = some nHeight' →
    nHeight = nHeight'

/-- Every call of a run meets the condition in the state before it. -/
def RegularRun (rounds : ℕ) (start : ChainHeights) (nLastMultiSendHeight : Int32)
    (calls : List (AttachCall nCoinbaseMaturity)) : Prop :=
  ∀ (pre : List (AttachCall nCoinbaseMaturity)) (call : AttachCall nCoinbaseMaturity)
    (post : List (AttachCall nCoinbaseMaturity)) (s : Int32 × List MultiSendPayment),
    calls = pre ++ call :: post → runMultiSend rounds nLastMultiSendHeight pre = .ok s →
    call.Regular rounds (chainsOf start pre) s.1

/-! ## One call -/

section Calls

variable {call : AttachCall nCoinbaseMaturity} {rounds : ℕ} {s s' : Int32 × List MultiSendPayment}
  {h : UInt256} {out : COutput} {wtx : CWalletTx} {txout : CTxOut} {payment : MultiSendPayment}
  {before : List ChainHeights} {vCoins : List COutput}

lemma mapWallet_of_txout {node : MultiSendNode nCoinbaseMaturity}
    (hout : node.txout out = .ok (wtx, txout)) : node.mapWallet[out.tx]? = some wtx := by
  unfold MultiSendNode.txout at hout
  cases hget : node.mapWallet[out.tx]? with
  | none =>
    rw [hget] at hout
    cases hout
  | some wtx' =>
    rw [hget] at hout
    dsimp only at hout
    cases hvout : wtx'.tx.vout[out.i.toUInt32.toNat]? with
    | none =>
      rw [hvout] at hout
      cases hout
    | some txout' =>
      rw [hvout] at hout
      cases hout
      rfl

/-- A coin that is chosen is of a coin stake that has just the depth, and the height is above that of
the last payment. -/
lemma chosen_eq_some {node : MultiSendNode nCoinbaseMaturity} {nLastMultiSendHeight : Int32}
    (hchosen : node.chosen vCoins nLastMultiSendHeight = some out)
    (hout : node.txout out = .ok (wtx, txout)) :
    nLastMultiSendHeight < node.chain.nBestHeight ∧ wtx.tx.isCoinStake = true ∧
      node.chain.depth out.tx = nCoinbaseMaturity + 20 := by
  unfold MultiSendNode.chosen at hchosen
  split_ifs at hchosen with hle
  obtain ⟨hfind, -⟩ := Option.filter_eq_some_iff.mp hchosen
  have hdue := List.find?_some hfind
  rw [MultiSendNode.isDue, hout] at hdue
  obtain ⟨-, hdue⟩ := Bool.and_eq_true_iff.mp hdue
  rw [CWalletTx.due, Bool.and_eq_true, Bool.and_eq_true, decide_eq_true_eq,
    decide_eq_true_eq] at hdue
  obtain ⟨⟨hstake, -⟩, hdepth⟩ := hdue
  exact ⟨Int32.not_le.mp hle, hstake, (node.depth_eq out.tx wtx (mapWallet_of_txout hout)).symm.trans
    hdepth⟩

/-- What a call adds to the payments. -/
lemma finish_eq_ok (hready : call.Ready) (hfinish : AttachCall.finish rounds s call = .ok s') :
    ∃ vCoins, call.node.availableCoins true = .ok vCoins ∧
      match call.node.chosen vCoins s.1 with
      | none => s' = s
      | some out => ∃ wtx txout payment, call.node.txout out = .ok (wtx, txout) ∧
          call.node.pay rounds out wtx = .ok payment ∧
          s' = (call.node.chain.nBestHeight, s.2 ++ [payment]) := by
  unfold AttachCall.finish MultiSendNode.multiSend at hfinish
  rw [hready.fMultiSend, hready.fMultiSendCoinStake, hready.isLocked,
    hready.fInitialBlockDownload] at hfinish
  obtain ⟨r, hsend, rfl⟩ := map_eq_ok.mp hfinish
  obtain ⟨vCoins, havailable, hloop⟩ := bind_eq_ok.mp hsend
  refine ⟨vCoins, havailable, ?_⟩
  have hspec := MultiSendNode.multiSendLoop_eq_ok hloop
  cases hchosen : call.node.chosen vCoins s.1 with
  | none =>
    rw [hchosen] at hspec
    dsimp only at hspec ⊢
    rw [hspec]
    exact Prod.ext rfl (List.append_nil s.2)
  | some out =>
    rw [hchosen] at hspec
    obtain ⟨wtx, txout, payment, hout, hpay, hr⟩ := hspec
    refine ⟨wtx, txout, payment, hout, hpay, ?_⟩
    rw [hr]
    rfl

/-- A payment in a call that meets the condition. -/
lemma AttachCall.Regular.pays {nLastMultiSendHeight : Int32}
    (hregular : call.Regular rounds before nLastMultiSendHeight)
    (havailable : call.node.availableCoins true = .ok vCoins)
    (hchosen : call.node.chosen vCoins nLastMultiSendHeight = some out)
    (hout : call.node.txout out = .ok (wtx, txout))
    (hpay : call.node.pay rounds out wtx = .ok payment) :
    payment.stake = out.tx ∧ payment.fCreated = true ∧ call.Paid wtx payment := by
  obtain ⟨vecSend, hshares, hcreated⟩ := bind_eq_ok.mp hpay
  obtain ⟨wtxNew, hcreate, rfl⟩ := map_eq_ok.mp hcreated
  obtain ⟨tx, rfl, hcommit⟩ :=
    hregular.creates vCoins out wtx txout vecSend wtxNew havailable hchosen hout hshares hcreate
  obtain ⟨nCredit, nDebit, hcredit, hdebit, hreward⟩ :=
    hregular.reward vCoins out wtx txout havailable hchosen hout
  refine ⟨rfl, rfl, hcommit, nCredit, nDebit, hcredit, hdebit, ?_⟩
  exact MultiSendNode.toInt_amounts hcredit hdebit hreward hregular.percent hpay

/-- At the depth of MultiSend a transaction is in the chain. -/
lemma exists_heightOf {node : MultiSendNode nCoinbaseMaturity} {chain : ChainHeights}
    (hdepth : chain.depth h = nCoinbaseMaturity + 20) :
    ∃ nHeight, chain.heightOf h = some nHeight ∧
      chain.nBestHeight = nHeight + (nCoinbaseMaturity + 20 - 1) := by
  have hpos := node.maturity_pos
  unfold ChainHeights.depth at hdepth
  cases hheight : chain.heightOf h with
  | none =>
    rw [hheight] at hdepth
    dsimp only at hdepth
    rw [← hdepth] at hpos
    exact absurd hpos Int32.lt_irrefl
  | some nHeight =>
    rw [hheight] at hdepth
    refine ⟨nHeight, rfl, ?_⟩
    rw [← hdepth, Int32.add_sub_cancel, Int32.add_comm, Int32.sub_add_cancel]

end Calls

/-! ## Runs -/

section Runs

variable {rounds : ℕ} {start : ChainHeights} {pre : List (AttachCall nCoinbaseMaturity)}
  {call : AttachCall nCoinbaseMaturity} {s s' : Int32 × List MultiSendPayment}

/-- What holds after some calls. -/
structure OnTime (start : ChainHeights) (pre : List (AttachCall nCoinbaseMaturity))
    (s : Int32 × List MultiSendPayment) : Prop where
  created : ∀ payment ∈ s.2, payment.fCreated = true
  nodup : (s.2.map MultiSendPayment.stake).Nodup
  /-- A coin stake was at the depth when its reward was shared. -/
  depth : ∀ payment ∈ s.2, ∃ chain ∈ chainsOf start pre,
    chain.depth payment.stake = nCoinbaseMaturity + 20 ∧ chain.nBestHeight ≤ s.1
  paid : ∀ (before : List (AttachCall nCoinbaseMaturity)) (call : AttachCall nCoinbaseMaturity)
    (after : List (AttachCall nCoinbaseMaturity)) (h : UInt256) (wtx : CWalletTx),
    pre = before ++ call :: after → call.Shares h wtx → call.Reaches (chainsOf start before) h →
    ∃ payment ∈ s.2, payment.stake = h ∧ call.Paid wtx payment

lemma chainsOf_concat : chainsOf start (pre ++ [call]) = chainsOf start pre ++ call.chains := by
  rw [chainsOf, List.flatMap_append, List.flatMap_singleton]
  rfl

/-- A call that meets the condition. -/
lemma OnTime.finish (hstate : OnTime start pre s) (hready : call.Ready)
    (hregular : call.Regular rounds (chainsOf start pre) s.1)
    (hfinish : AttachCall.finish rounds s call = .ok s') : OnTime start (pre ++ [call]) s' := by
  obtain ⟨vCoins, havailable, hcase⟩ := finish_eq_ok hready hfinish
  have hsub : ∀ chain ∈ chainsOf start pre, chain ∈ chainsOf start (pre ++ [call]) := by
    intro chain hmem
    rw [chainsOf_concat]
    exact List.mem_append_left _ hmem
  have hlast : call.node.chain ∈ chainsOf start (pre ++ [call]) := by
    rw [chainsOf_concat, AttachCall.chains]
    exact List.mem_append_right _ (List.mem_append_right _ (List.mem_singleton_self _))
  -- something is chosen if a coin stake reaches the depth
  have hchoice : ∀ h wtx, call.Shares h wtx → call.Reaches (chainsOf start pre) h →
      call.node.chosen vCoins s.1 ≠ none := by
    intro h wtx hshares hreaches
    have hlisted := hregular.listed h wtx vCoins hshares hreaches havailable
    rw [MultiSendNode.chosen, if_neg (Int32.not_le.mpr (hregular.higher h wtx hshares hreaches))]
    exact Option.isSome_iff_ne_none.mp hlisted
  -- what is to be shown of the coin stakes that reach the depth before, and in the last call
  have hpaid : (∀ payment ∈ s.2, payment ∈ s'.2) →
      (∀ h wtx, call.Shares h wtx → call.Reaches (chainsOf start pre) h →
        ∃ payment ∈ s'.2, payment.stake = h ∧ call.Paid wtx payment) →
      ∀ before c after h wtx, pre ++ [call] = before ++ c :: after → c.Shares h wtx →
        c.Reaches (chainsOf start before) h →
        ∃ payment ∈ s'.2, payment.stake = h ∧ c.Paid wtx payment := by
    intro hkept hnew before c after h wtx hcalls hshares hreaches
    rcases List.eq_nil_or_concat after with rfl | ⟨after, last, rfl⟩
    · obtain ⟨rfl, hc⟩ := List.append_inj' hcalls rfl
      cases hc
      exact hnew h wtx hshares hreaches
    · rw [List.concat_eq_append, ← List.cons_append, ← List.append_assoc] at hcalls
      obtain ⟨payment, hmem, hpayment⟩ :=
        hstate.paid before c after h wtx (List.append_inj' hcalls rfl).1 hshares hreaches
      exact ⟨payment, hkept payment hmem, hpayment⟩
  cases hchosen : call.node.chosen vCoins s.1 with
  | none =>
    rw [hchosen] at hcase
    cases hcase
    refine ⟨hstate.created, hstate.nodup, ?_, hpaid (fun _ => id) ?_⟩
    · intro payment hmem
      obtain ⟨chain, hchain, hdepth⟩ := hstate.depth payment hmem
      exact ⟨chain, hsub chain hchain, hdepth⟩
    · exact fun h wtx hshares hreaches => absurd hchosen (hchoice h wtx hshares hreaches)
  | some out =>
    rw [hchosen] at hcase
    obtain ⟨wtx, txout, payment, hout, hpay, rfl⟩ := hcase
    have hget := mapWallet_of_txout hout
    obtain ⟨hhigher, hstake, hdepth⟩ := chosen_eq_some hchosen hout
    obtain ⟨hpaidFor, hcreated, hamounts⟩ := hregular.pays havailable hchosen hout hpay
    obtain ⟨nHeight, hheight, hbest⟩ := @exists_heightOf _ _ call.node _ hdepth
    have hnew : payment.stake ∉ s.2.map MultiSendPayment.stake := by
      intro hmem
      obtain ⟨payment', hmem', hsame⟩ := List.mem_map.mp hmem
      obtain ⟨chain, hchain, hdepth', hle⟩ := hstate.depth payment' hmem'
      rw [hsame, hpaidFor] at hdepth'
      obtain ⟨nHeight', hheight', hbest'⟩ := @exists_heightOf _ _ call.node _ hdepth'
      -- the height at which the reward was shared is the one of now
      have hsameHeight := hregular.height_eq out.tx wtx chain nHeight' nHeight hget hstake hchain
        hheight' hheight
      rw [hbest', hsameHeight, ← hbest] at hle
      exact Int32.not_le.mpr hhigher hle
    refine ⟨?_, ?_, ?_, hpaid (fun _ => List.mem_append_left _) ?_⟩
    · intro payment' hmem
      rcases List.mem_append.mp hmem with hmem | hmem
      · exact hstate.created payment' hmem
      · rw [List.mem_singleton.mp hmem]
        exact hcreated
    · rw [List.map_append, List.map_singleton]
      exact List.nodup_append'.mpr ⟨hstate.nodup, List.nodup_singleton _,
        List.disjoint_singleton.mpr hnew⟩
    · intro payment' hmem
      rcases List.mem_append.mp hmem with hmem | hmem
      · obtain ⟨chain, hchain, hdepth', hle⟩ := hstate.depth payment' hmem
        exact ⟨chain, hsub chain hchain, hdepth', Int32.le_trans hle (Int32.le_of_lt hhigher)⟩
      · rw [List.mem_singleton.mp hmem, hpaidFor]
        exact ⟨call.node.chain, hlast, hdepth, Int32.le_refl _⟩
    · intro h wtx' hshares hreaches
      obtain ⟨hget', hstake', -⟩ := id hshares
      -- the chain has one coin stake at this height
      obtain ⟨nHeight', hheight', hbest'⟩ :=
        @exists_heightOf _ _ call.node _ (hregular.stops h wtx' hshares hreaches)
      have hheights : nHeight' = nHeight := by
        rw [hbest'] at hbest
        exact (Int32.add_left_inj _).mp hbest
      rw [hheights] at hheight'
      have hsame := call.node.stake_unique h out.tx wtx' wtx nHeight hget' hget hstake' hstake
        hheight' hheight
      subst hsame
      cases hget.symm.trans hget'
      exact ⟨payment, List.mem_append_right _ (List.mem_singleton_self _), hpaidFor, hamounts⟩

lemma regularRun_concat {nLast : Int32} :
    RegularRun rounds start nLast (pre ++ [call]) ↔ RegularRun rounds start nLast pre ∧
      ∀ s, runMultiSend rounds nLast pre = .ok s →
        call.Regular rounds (chainsOf start pre) s.1 := by
  constructor
  · intro hregular
    refine ⟨?_, fun s hrun => hregular pre call [] s rfl hrun⟩
    intro before c after s hcalls hrun
    refine hregular before c (after ++ [call]) s ?_ hrun
    rw [hcalls, List.append_assoc, List.cons_append]
  · rintro ⟨hbefore, hlast⟩ before c after s hcalls hrun
    rcases List.eq_nil_or_concat after with rfl | ⟨after, last, rfl⟩
    · obtain ⟨rfl, hc⟩ := List.append_inj' hcalls rfl
      cases hc
      exact hlast s hrun
    · rw [List.concat_eq_append, ← List.cons_append, ← List.append_assoc] at hcalls
      exact hbefore before c after s (List.append_inj' hcalls rfl).1 hrun

lemma onTime_of_run {nLast : Int32} {calls : List (AttachCall nCoinbaseMaturity)}
    (hready : ∀ call ∈ calls, call.Ready) (hregular : RegularRun rounds start nLast calls)
    (hrun : runMultiSend rounds nLast calls = .ok s) : OnTime start calls s := by
  induction calls using List.reverseRecOn generalizing s with
  | nil =>
    cases hrun
    refine ⟨nofun, List.nodup_nil, nofun, fun before call after h wtx hcalls => ?_⟩
    have hlength := congrArg List.length hcalls
    rw [List.length_append, List.length_cons, List.length_nil] at hlength
    omega
  | append_singleton pre call ih =>
    rw [runMultiSend, List.foldlM_append] at hrun
    obtain ⟨s₁, hpre, hlast⟩ := bind_eq_ok.mp hrun
    obtain ⟨s₂, hcall, hdone⟩ := foldlM_cons_eq_ok.mp hlast
    cases hdone
    obtain ⟨hbefore, hcondition⟩ := regularRun_concat.mp hregular
    have hstate := ih (fun call hmem => hready call (List.mem_append_left _ hmem)) hbefore hpre
    exact hstate.finish (hready call (List.mem_append_right _ (List.mem_singleton_self _)))
      (hcondition s₁ hpre) hcall

end Runs

/-! ## A coin stake of a wallet -/

/-- The active chain at a height, with a coin stake and the transaction that it spends. -/
def stakeChain (nBestHeight : Int32) : ChainHeights where
  nBestHeight
  heightOf h := if h = 1 then some 100 else if h = 2 then some 50 else none

/-- A coin stake at the height of 100. -/
def sharedStake (nBestHeight : Int32) : CWalletTx where
  tx := { vin := [{ prevout := { hash := 2, n := 0 } }]
          vout := [{ nValue := 0 },
            { nValue := 100000, scriptPubKey := CScript.setDestination (.CKeyID 9) }] }
  isFinal := true
  isConfirmed := true
  isFromMe := true
  blocksToMaturity :=
    if 0 < 10 + 20 - (nBestHeight - 100 + 1) then 10 + 20 - (nBestHeight - 100 + 1) else 0
  depthInMainChain := nBestHeight - 100 + 1
  isSpent _ := false

/-- The transaction that it spends. -/
def stakedCoin (nBestHeight : Int32) : CWalletTx where
  tx := { vout := [{ nValue := 90000, scriptPubKey := CScript.setDestination (.CKeyID 9) }] }
  isFinal := true
  isConfirmed := true
  isFromMe := false
  blocksToMaturity := 0
  depthInMainChain := nBestHeight - 50 + 1
  isSpent _ := true

/-- A wallet with both of them. -/
def stakeCoins (nBestHeight : Int32) : WalletCoins where
  mapWallet := (∅ : Std.ExtTreeMap UInt256 CWalletTx).insert 1 (sharedStake nBestHeight)
    |>.insert 2 (stakedCoin nBestHeight)
  isMine txout := decide (txout.scriptPubKey = CScript.setDestination (.CKeyID 9))

variable {nBestHeight : Int32}

lemma stakeCoins_get {h : UInt256} {wtx : CWalletTx}
    (hget : (stakeCoins nBestHeight).mapWallet[h]? = some wtx) :
    h = 1 ∧ wtx = sharedStake nBestHeight ∨ h = 2 ∧ wtx = stakedCoin nBestHeight := by
  rw [stakeCoins, MapLoop.getElem?_insert_eq, MapLoop.getElem?_insert_eq] at hget
  split_ifs at hget with htwo hone
  · cases hget
    exact Or.inr ⟨htwo.symm, rfl⟩
  · cases hget
    exact Or.inl ⟨hone.symm, rfl⟩
  · rw [Std.ExtTreeMap.getElem?_empty] at hget
    cases hget

/-- The node at a height, with half of the rewards for another address. -/
def stakeNode (nBestHeight : Int32) : MultiSendNode 10 where
  toCreatingWallet := plainWallet (stakeCoins nBestHeight)
  chain := stakeChain nBestHeight
  fInitialBlockDownload := false
  vMultiSend := [("a", 50)]
  vDisabledAddresses := []
  addressString _ := "b"
  destination _ := .CKeyID 7
  adjustedTime := 0
  unfinished _ := {}
  maturity_pos := by decide
  depth_eq h wtx hget := by
    rcases stakeCoins_get hget with ⟨rfl, rfl⟩ | ⟨rfl, rfl⟩ <;> rfl
  blocksToMaturity_eq h wtx hget hstake := by
    rcases stakeCoins_get hget with ⟨rfl, rfl⟩ | ⟨rfl, rfl⟩
    · rfl
    · exact absurd hstake Bool.false_ne_true
  stake_unique h h' wtx wtx' _ hget hget' hstake hstake' _ _ := by
    rcases stakeCoins_get hget with ⟨rfl, rfl⟩ | ⟨rfl, rfl⟩
    · rcases stakeCoins_get hget' with ⟨rfl, rfl⟩ | ⟨rfl, rfl⟩
      · rfl
      · exact absurd hstake' Bool.false_ne_true
    · exact absurd hstake Bool.false_ne_true

/-- A call that attaches blocks up to a height. -/
def stakeCall (passed : List Int32) (nBestHeight : Int32) : AttachCall 10 where
  passed := passed.map stakeChain
  node := stakeNode nBestHeight
  fMultiSend := true
  fMultiSendCoinStake := false

lemma ready_stakeCall {passed : List Int32} :
    (stakeCall passed nBestHeight).Ready := ⟨rfl, rfl, rfl, rfl⟩

lemma shares_stakeCall {passed : List Int32} :
    (stakeCall passed nBestHeight).Shares 1 (sharedStake nBestHeight) := by
  have hget : (stakeCoins nBestHeight).mapWallet[(1 : UInt256)]? =
      some (sharedStake nBestHeight) := by
    rw [stakeCoins, MapLoop.getElem?_insert_eq, if_neg (by decide)]
    exact Std.ExtTreeMap.getElem?_insert_self
  have haddress : CScript.extractDestination ⟨fun _ => 0, fun _ => 0, fun _ => 0, fun _ _ _ => true⟩
      (CScript.setDestination (.CKeyID 9)) = some (.CKeyID 9) := by
    decide +kernel
  have hmine : decide (CScript.setDestination (.CKeyID 9) = CScript.setDestination (.CKeyID 9)) =
      true := decide_eq_true rfl
  exact ⟨hget, rfl, { nValue := 100000, scriptPubKey := CScript.setDestination (.CKeyID 9) },
    List.mem_cons_of_mem _ (List.mem_singleton_self _), .CKeyID 9,
    hmine, haddress, rfl⟩

end HyperStake
