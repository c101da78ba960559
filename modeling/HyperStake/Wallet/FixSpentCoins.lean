import HyperStake.Library.ExceptLoop
import HyperStake.Wallet.Confirmation

/-!
# The repair of a wallet

`FixSpentCoins` compares the outputs that the wallet has marked as spent with the transaction index,
and takes out of the wallet the transactions that have not been confirmed for ten minutes.  The index
does not know a spender that is not confirmed yet, and it is the age of the transaction with the
output that is looked at, not that of the spender.  So an output that has just been spent is marked
as unspent again (`fixSpentCoins_keepsSpent_iff`).

The lines that are printed, the notifications and the writing to disk are left out.
-/

namespace HyperStake.WalletTx

open ExceptLoop

/-- A call of `FixSpentCoins`: its argument, and what it asks of the rest of the node. -/
structure FixCall where
  fCheckOnly : Bool := false
  fFileBacked : Bool := true
  /-- `GetTime`. -/
  nNow : Int64
  chain : ChainState
  /-- `ReadTxIndex`: whether it succeeds, and the index that has been read. -/
  readTxIndex : UInt256 → Bool × CTxIndex

/-- The wallet and the results of `FixSpentCoins`. -/
structure FixState where
  wallet : CWallet
  nMismatchFound : Int32 := 0
  nBalanceInQuestion : Int64 := 0
  nOrphansFound : Int32 := 0

namespace FixCall

variable (call : FixCall)

/-- The transaction is older than ten minutes. -/
def isOld (wtx : CWalletTx) : Bool := decide (call.nNow - CWallet.getTxTime wtx > 60 * 10)

/-- An output that does not agree with the index. -/
def mismatch (txout : CTxOut) (s : FixState) : FixState :=
  { s with
    nMismatchFound := s.nMismatchFound + 1
    nBalanceInQuestion := s.nBalanceInQuestion + txout.nValue }

/-- A transaction that was never accepted by the network, or an orphaned generation. -/
def orphan (h : UInt256) (s : FixState) : FixState :=
  { s with
    nOrphansFound := s.nOrphansFound + 1
    wallet := if call.fCheckOnly || !call.fFileBacked then s.wallet
      else { s.wallet with mapWallet := s.wallet.mapWallet.erase h } }

/-- A round of the loop over the outputs of a transaction. -/
def fixOutput (vSpent : List CDiskTxPos) (s : CWalletTx × FixState) (out : CTxOut × ℕ) :
    Except Fault (CWalletTx × FixState) :=
  let (pcoin, state) := s
  let (txout, n) := out
  (pcoin.isSpent n).bind fun fSpent =>
    if state.wallet.isMine txout && fSpent && vSpent[n]?.all CDiskTxPos.isNull &&
        call.isOld pcoin then
      (if call.fCheckOnly then .ok pcoin else pcoin.markUnspent n).map fun pcoin =>
        (pcoin, mismatch txout state)
    else if state.wallet.isMine txout && !fSpent && vSpent[n]?.any (fun pos => !pos.isNull) &&
        call.isOld pcoin then
      (if call.fCheckOnly then .ok pcoin else pcoin.markSpent n).map fun pcoin =>
        (pcoin, mismatch txout state)
    else .ok (pcoin, state)

/-- A transaction that has not failed is compared with the index. -/
def compareCoin (h : UInt256) (pcoin : CWalletTx) (s : FixState) : Except Fault FixState :=
  let (fRead, txindex) := call.readTxIndex h
  if !fRead && !(pcoin.isCoinBase || pcoin.isCoinStake) then .ok s
  else
    (pcoin.vout.zipIdx.foldlM (call.fixOutput txindex.vSpent) (pcoin, s)).map fun (pcoin, s) =>
      let s := { s with wallet := s.wallet.put h pcoin }
      if (pcoin.isCoinBase || pcoin.isCoinStake) &&
          decide (call.chain.getDepthInMainChain pcoin.toCMerkleTx ≤ 0) then call.orphan h s
      else s

/-- A round of the loop of `FixSpentCoins`.  A transaction is in the wallet under its hash. -/
def fixCoin (s : FixState) (h : UInt256) : Except Fault FixState :=
  match s.wallet.mapWallet[h]? with
  | none => .ok s
  | some pcoin =>
    (s.wallet.isConfirmedInMainChain pcoin call.chain).bind fun (fConfirmed, pcoin) =>
      let s := { s with wallet := s.wallet.put h pcoin }
      -- give the transaction ten minutes before considering it failed
      if !fConfirmed && call.isOld pcoin then .ok (call.orphan h s) else call.compareCoin h pcoin s

def fixSpentCoins (wallet : CWallet) : Except Fault FixState :=
  wallet.mapWallet.keys.foldlM call.fixCoin { wallet }

/-! ## What becomes of a transaction -/

/-- `IsConfirmedInMainChain`, when it does not throw. -/
def confirmed (e : Entry) : Bool :=
  call.chain.isFinal e.place && decide (call.chain.getDepthInMainChain e.place ≥ 1)

/-- The transaction is taken out of the wallet: it has not been confirmed for ten minutes, or it is
an orphaned generation. -/
def removes (e : Entry) : Bool :=
  !call.confirmed e && call.isOld e.data ||
    (e.place.isCoinBase || e.place.isCoinStake) &&
      decide (call.chain.getDepthInMainChain e.place ≤ 0)

/-- The outputs of the transaction are compared with the index. -/
def compares (h : UInt256) (e : Entry) : Bool :=
  call.confirmed e && call.isOld e.data &&
    ((call.readTxIndex h).1 || e.place.isCoinBase || e.place.isCoinStake)

/-- The index says that an output is spent. -/
def spentInIndex (h : UInt256) (n : ℕ) : Bool :=
  (call.readTxIndex h).2.vSpent[n]?.any fun pos => !pos.isNull

/-- An own output is marked as spent and the index does not know of it. -/
def frees (isMine : CTxOut → Bool) (h : UInt256) (e : Entry) (n : ℕ) : Bool :=
  call.compares h e && e.owns isMine n && e.fSpent n && !call.spentInIndex h n

/-- Whether an output is marked as spent after a repair. -/
def fixedSpent (isMine : CTxOut → Bool) (h : UInt256) (e : Entry) (n : ℕ) : Bool :=
  if call.compares h e && e.owns isMine n then call.spentInIndex h n else e.fSpent n

/-- What a repair leaves of a transaction. -/
def fixed (isMine : CTxOut → Bool) (h : UInt256) (e : Entry) : Option Entry :=
  if call.removes e && call.fFileBacked then none
  else some { e with fSpent := call.fixedSpent isMine h e }

end FixCall

section Rounds

variable {call : FixCall} {h : UInt256} {pcoin pcoin' : CWalletTx} {s s' : FixState}
  {vSpent : List CDiskTxPos}

/-- A round of the loop over the outputs: an own output of an old transaction that differs from the
index is reported, and marked as the index says if there is a repair. -/
lemma fixOutput_cases {txout : CTxOut} {n : ℕ} (hlt : n < pcoin.vout.length)
    (hstep : call.fixOutput vSpent (pcoin, s) (txout, n) = .ok (pcoin', s')) :
    (s.wallet.isMine txout && call.isOld pcoin &&
        (pcoin.entry.fSpent n != vSpent[n]?.any fun pos => !pos.isNull)) = true ∧
      s' = FixCall.mismatch txout s ∧ (if call.fCheckOnly then Except.ok pcoin
        else pcoin.mark (vSpent[n]?.any fun pos => !pos.isNull) n) = .ok pcoin' ∨
    (s.wallet.isMine txout && call.isOld pcoin &&
        (pcoin.entry.fSpent n != vSpent[n]?.any fun pos => !pos.isNull)) = false ∧
      pcoin' = pcoin ∧ s' = s := by
  have hall : vSpent[n]?.all CDiskTxPos.isNull = !vSpent[n]?.any fun pos => !pos.isNull := by
    cases vSpent[n]? <;> simp
  have hmarked : ∀ fSpent, (if call.fCheckOnly then Except.ok pcoin else pcoin.mark fSpent n).map
      (fun p => (p, FixCall.mismatch txout s)) = .ok (pcoin', s') → s' = FixCall.mismatch txout s ∧
        (if call.fCheckOnly then Except.ok pcoin else pcoin.mark fSpent n) = .ok pcoin' := by
    intro fSpent hmap
    obtain ⟨marked, hmark, heq⟩ := map_eq_ok.mp hmap
    cases heq
    exact ⟨rfl, hmark⟩
  unfold FixCall.fixOutput at hstep
  simp only [CWalletTx.isSpent_eq_entry hlt, hall] at hstep
  change (if _ then _ else if _ then _ else _) = _ at hstep
  generalize (vSpent[n]?.any fun pos => !pos.isNull) = fIndexed at hstep ⊢
  split at hstep
  · next hlost =>
    simp only [Bool.and_eq_true, Bool.not_eq_true'] at hlost
    obtain ⟨⟨⟨hmine, hspent⟩, rfl⟩, hold⟩ := hlost
    rw [hmine, hold, hspent]
    exact Or.inl ⟨rfl, hmarked false hstep⟩
  split at hstep
  · next hfound =>
    simp only [Bool.and_eq_true, Bool.not_eq_true'] at hfound
    obtain ⟨⟨⟨hmine, hspent⟩, rfl⟩, hold⟩ := hfound
    rw [hmine, hold, hspent]
    exact Or.inl ⟨rfl, hmarked true hstep⟩
  · cases hstep
    refine Or.inr ⟨?_, rfl, rfl⟩
    cases hspent : pcoin.entry.fSpent n <;> cases fIndexed <;> simp_all

/-- A round of the loop over the outputs, when the transaction is old: the output is marked as the
index says. -/
lemma fixOutput_eq_ok (hrepair : call.fCheckOnly = false) {txout : CTxOut} {n : ℕ}
    (hout : pcoin.vout[n]? = some txout)
    (hstep : call.fixOutput vSpent (pcoin, s) (txout, n) = .ok (pcoin', s')) :
    s'.wallet = s.wallet ∧ pcoin'.entry = { pcoin.entry with
      fSpent := Function.update pcoin.entry.fSpent n
        (if pcoin.entry.owns s.wallet.isMine n && call.isOld pcoin then
          vSpent[n]?.any fun pos => !pos.isNull else pcoin.entry.fSpent n) } := by
  have howns : pcoin.entry.owns s.wallet.isMine n = s.wallet.isMine txout := by
    change pcoin.vout[n]?.any s.wallet.isMine = _
    rw [hout]
    rfl
  rw [howns]
  rcases fixOutput_cases (List.getElem?_eq_some_iff.mp hout).1 hstep with
    ⟨hdiffers, rfl, hmark⟩ | ⟨hsame, rfl, rfl⟩
  · rw [hrepair, if_neg Bool.false_ne_true] at hmark
    rw [if_pos (Bool.and_eq_true_iff.mp hdiffers).1]
    exact ⟨rfl, CWalletTx.entry_of_mark hmark⟩
  · refine ⟨rfl, ?_⟩
    split_ifs with hboth
    · rw [hboth, Bool.true_and, bne_eq_false_iff_eq] at hsame
      rw [← hsame, Function.update_eq_self]
    · rw [Function.update_eq_self]

/-- The loop over the outputs: an old transaction is marked as the index says. -/
lemma fixOutputs_eq_ok (hrepair : call.fCheckOnly = false)
    (hloop : pcoin.vout.zipIdx.foldlM (call.fixOutput vSpent) (pcoin, s) = .ok (pcoin', s')) :
    s'.wallet = s.wallet ∧ pcoin'.entry.place = pcoin.entry.place ∧
      pcoin'.entry.data = pcoin.entry.data ∧ ∀ n, pcoin'.entry.fSpent n =
        if pcoin.entry.owns s.wallet.isMine n && call.isOld pcoin then
          vSpent[n]?.any fun pos => !pos.isNull
        else pcoin.entry.fSpent n := by
  -- after some rounds the first outputs are marked so
  let motive : List (CTxOut × ℕ) → CWalletTx × FixState → Prop := fun visited r =>
    r.2.wallet = s.wallet ∧ r.1.entry.place = pcoin.entry.place ∧
      r.1.entry.data = pcoin.entry.data ∧ ∀ n, r.1.entry.fSpent n =
        if n < visited.length ∧ (pcoin.entry.owns s.wallet.isMine n && call.isOld pcoin) = true then
          vSpent[n]?.any fun pos => !pos.isNull
        else pcoin.entry.fSpent n
  have hstart : motive [] (pcoin, s) := ⟨rfl, rfl, rfl, fun n => by simp⟩
  have hstep : ∀ visited a rest b b', pcoin.vout.zipIdx = visited ++ a :: rest →
      motive visited b → call.fixOutput vSpent b a = .ok b' → motive (visited ++ [a]) b' := by
    rintro visited ⟨txout, n⟩ rest ⟨p, t⟩ ⟨p', t'⟩ hsplit ⟨hwallet, hplace, hdata, hspent⟩ hround
    have hget : pcoin.vout.zipIdx[visited.length]? = some (txout, n) := by
      rw [hsplit, List.getElem?_append_right le_rfl, Nat.sub_self, List.getElem?_cons_zero]
    rw [List.getElem?_zipIdx, Option.map_eq_some_iff] at hget
    obtain ⟨txout', hout, heq⟩ := hget
    obtain ⟨rfl, rfl⟩ := Prod.mk.inj heq
    rw [Nat.zero_add] at hround
    have hvout : p.vout[visited.length]? = some txout' := by
      rw [← hout]
      exact congrArg (fun place : CMerkleTx => place.vout[visited.length]?) hplace
    obtain ⟨hwallet', hentry⟩ := fixOutput_eq_ok hrepair hvout hround
    have howns : ∀ n, p.entry.owns t.wallet.isMine n = pcoin.entry.owns s.wallet.isMine n := by
      intro n
      rw [Entry.owns, hplace, hwallet, Entry.owns]
    have hold : call.isOld p.entry.data = call.isOld pcoin.entry.data := congrArg call.isOld hdata
    replace hold : call.isOld p = call.isOld pcoin := hold
    refine ⟨hwallet'.trans hwallet, (congrArg Entry.place hentry).trans hplace,
      (congrArg Entry.data hentry).trans hdata, fun n => ?_⟩
    have hmark := congrFun (congrArg Entry.fSpent hentry) n
    rw [List.length_append, List.length_singleton]
    rw [howns, hold] at hmark
    refine hmark.trans ?_
    change Function.update _ _ _ n = _
    by_cases hn : n = visited.length
    · subst hn
      have hfirst : p.entry.fSpent visited.length = pcoin.entry.fSpent visited.length :=
        (hspent visited.length).trans (if_neg fun hand => lt_irrefl _ hand.1)
      rw [Function.update_self, hfirst]
      simp only [Nat.lt_succ_self, true_and]
    · have hlt : n < visited.length + 1 ↔ n < visited.length := by omega
      rw [Function.update_of_ne hn, hspent n]
      simp only [hlt]
  obtain ⟨hwallet, hplace, hdata, hspent⟩ := foldlM_invariant motive hstep hstart hloop
  refine ⟨hwallet, hplace, hdata, fun n => ?_⟩
  rw [hspent n]
  by_cases howns : pcoin.entry.owns s.wallet.isMine n = true
  · obtain ⟨txout, hout, -⟩ := (Option.any_eq_true _ _).mp howns
    have hlt : n < pcoin.vout.zipIdx.length := by
      rw [List.length_zipIdx]
      exact (List.getElem?_eq_some_iff.mp hout).1
    simp only [hlt, true_and]
  · rw [Bool.not_eq_true] at howns
    simp [howns]

/-- What is under a key when a transaction is taken out, or not. -/
lemma getElem?_orphan (h k : UInt256) (s : FixState) :
    (call.orphan h s).wallet.mapWallet[k]? =
      if (call.fCheckOnly || !call.fFileBacked) = false ∧ h = k then none
      else s.wallet.mapWallet[k]? := by
  rw [FixCall.orphan]
  cases call.fCheckOnly || !call.fFileBacked with
  | true => rfl
  | false =>
    rw [if_neg Bool.false_ne_true, MapLoop.getElem?_erase_eq]
    simp only [true_and]

/-- A transaction that is taken out, or not. -/
lemma view_orphan (hrepair : call.fCheckOnly = false) {k : UInt256} :
    (call.orphan h s).wallet.view k =
      if h = k ∧ call.fFileBacked = true then none else s.wallet.view k := by
  have hiff : (call.fCheckOnly || !call.fFileBacked) = false ∧ h = k ↔
      h = k ∧ call.fFileBacked = true := by
    rw [hrepair, Bool.false_or, Bool.not_eq_false', and_comm]
  rw [CWallet.view, getElem?_orphan, if_congr hiff rfl rfl, CWallet.view]
  split_ifs <;> rfl

lemma isMine_orphan : (call.orphan h s).wallet.isMine = s.wallet.isMine := by
  rw [FixCall.orphan]
  split <;> rfl

/-- A transaction that is not compared with the index keeps its marks. -/
lemma fixed_of_not_compares {isMine : CTxOut → Bool} {e : Entry}
    (hcompares : call.compares h e = false) :
    call.fixed isMine h e = if call.removes e && call.fFileBacked then none else some e := by
  have hspent : call.fixedSpent isMine h e = e.fSpent := by
    funext n
    rw [FixCall.fixedSpent, hcompares, Bool.false_and]
    exact if_neg Bool.false_ne_true
  rw [FixCall.fixed, hspent]

/-- A round of the loop: the outputs of a transaction are compared with the index or not, and then it
is taken out or not. -/
lemma fixCoin_cases (hround : call.fixCoin s h = .ok s') :
    s.wallet.mapWallet[h]? = none ∧ s' = s ∨ ∃ pcoin t fRemoved,
      (∃ wtx c, s.wallet.isConfirmedInMainChain wtx call.chain = .ok (c, pcoin)) ∧
      s.wallet.view h = some pcoin.entry ∧
      (call.compares h pcoin.entry = false ∧ fRemoved = call.removes pcoin.entry ∧
          t = { s with wallet := s.wallet.put h pcoin } ∨
        call.compares h pcoin.entry = call.isOld pcoin ∧ ∃ marked r,
          pcoin.vout.zipIdx.foldlM (call.fixOutput (call.readTxIndex h).2.vSpent)
            (pcoin, { s with wallet := s.wallet.put h pcoin }) = .ok (marked, r) ∧
          (marked.toCMerkleTx = pcoin.toCMerkleTx → fRemoved = call.removes pcoin.entry) ∧
          t = { r with wallet := r.wallet.put h marked }) ∧
      s' = if fRemoved then call.orphan h t else t := by
  unfold FixCall.fixCoin at hround
  cases hget : s.wallet.mapWallet[h]? with
  | none =>
    rw [hget] at hround
    exact Or.inl ⟨rfl, (Except.ok.inj hround).symm⟩
  | some wtx =>
    rw [hget] at hround
    obtain ⟨⟨fConfirmed, pcoin⟩, hconfirmed, hround⟩ := bind_eq_ok.mp hround
    obtain ⟨hentry, hfConfirmed⟩ := CWallet.isConfirmedInMainChain_eq_ok hconfirmed
    have hview : s.wallet.view h = some pcoin.entry := by rw [CWallet.view_eq_some hget, hentry]
    have hconf : fConfirmed = call.confirmed pcoin.entry := by
      rw [hfConfirmed, FixCall.confirmed, hentry]
      rfl
    refine Or.inr ⟨pcoin, ?_⟩
    dsimp only at hround
    rw [hconf] at hround
    split_ifs at hround with hfailed
    · rw [Bool.and_eq_true, Bool.not_eq_true'] at hfailed
      have hremoves : call.removes pcoin.entry = true := by
        have hold : call.isOld pcoin.entry.data = true := hfailed.2
        rw [FixCall.removes, hfailed.1, hold]
        rfl
      have hcompares : call.compares h pcoin.entry = false := by
        rw [FixCall.compares, hfailed.1]
        rfl
      exact ⟨_, true, ⟨wtx, _, hconfirmed⟩, hview, Or.inl ⟨hcompares, hremoves.symm, rfl⟩,
        (Except.ok.inj hround).symm⟩
    replace hfailed : (!call.confirmed pcoin.entry && call.isOld pcoin.entry.data) = false :=
      (Bool.not_eq_true _).mp hfailed
    have hremoves : call.removes pcoin.entry = ((pcoin.isCoinBase || pcoin.isCoinStake) &&
        decide (call.chain.getDepthInMainChain pcoin.toCMerkleTx ≤ 0)) := by
      rw [FixCall.removes, hfailed, Bool.false_or]
      rfl
    have hsettled : (call.confirmed pcoin.entry && call.isOld pcoin.entry.data) =
        call.isOld pcoin.entry.data := by
      cases hyes : call.confirmed pcoin.entry with
      | true => exact Bool.true_and _
      | false =>
        rw [hyes] at hfailed
        rw [Bool.false_and]
        exact hfailed.symm
    have hcompares : call.compares h pcoin.entry = (call.isOld pcoin &&
        ((call.readTxIndex h).1 || (pcoin.isCoinBase || pcoin.isCoinStake))) := by
      rw [FixCall.compares, hsettled, Bool.or_assoc]
      rfl
    unfold FixCall.compareCoin at hround
    dsimp only at hround
    split_ifs at hround with hread
    · rw [Bool.and_eq_true, Bool.not_eq_true', Bool.not_eq_true'] at hread
      rw [hread.1, hread.2, Bool.or_false, Bool.and_false] at hcompares
      rw [hread.2, Bool.false_and] at hremoves
      exact ⟨_, false, ⟨wtx, _, hconfirmed⟩, hview, Or.inl ⟨hcompares, hremoves.symm, rfl⟩,
        (Except.ok.inj hround).symm⟩
    · obtain ⟨⟨marked, r⟩, hloop, heq⟩ := map_eq_ok.mp hround
      rw [Bool.not_eq_true, Bool.and_eq_false_iff, Bool.not_eq_false', Bool.not_eq_false',
        ← Bool.or_eq_true] at hread
      rw [hread, Bool.and_true] at hcompares
      refine ⟨_, _, ⟨wtx, _, hconfirmed⟩, hview,
        Or.inr ⟨hcompares, marked, r, hloop, fun hplace => ?_, rfl⟩, heq.symm⟩
      rw [hremoves, ← hplace]

/-- The wallet with what a transaction caches shows the same. -/
lemma view_put_self (hview : s.wallet.view h = some pcoin.entry) :
    (s.wallet.put h pcoin).view = s.wallet.view := by
  rw [CWallet.view_put, ← hview, Function.update_eq_self]

/-- A round of the loop changes the transaction that it is about and no other. -/
lemma fixCoin_eq_ok (hrepair : call.fCheckOnly = false) (hround : call.fixCoin s h = .ok s') :
    s'.wallet.isMine = s.wallet.isMine ∧
      s'.wallet.view h = (s.wallet.view h).bind (call.fixed s.wallet.isMine h) ∧
      ∀ k, h ≠ k → s'.wallet.view k = s.wallet.view k := by
  rcases fixCoin_cases hround with ⟨hget, rfl⟩ | ⟨pcoin, t, fRemoved, -, hview, houtputs, rfl⟩
  · refine ⟨rfl, ?_, fun _ _ => rfl⟩
    rw [CWallet.view, hget]
    rfl
  have hput := view_put_self hview
  -- what the transaction is before it is taken out
  have hmarked : fRemoved = call.removes pcoin.entry ∧ t.wallet.isMine = s.wallet.isMine ∧
      ∃ e, t.wallet.view = Function.update s.wallet.view h (some e) ∧
        call.fixed s.wallet.isMine h pcoin.entry =
          if call.removes pcoin.entry && call.fFileBacked then none else some e := by
    rcases houtputs with ⟨hcompares, hremoves, rfl⟩ | ⟨hcompares, marked, r, hloop, hremoves, rfl⟩
    · exact ⟨hremoves, rfl, pcoin.entry, by rw [hput, ← hview, Function.update_eq_self],
        fixed_of_not_compares hcompares⟩
    · obtain ⟨hwallet, hplace, hdata, hspent⟩ := fixOutputs_eq_ok hrepair hloop
      have hflags : marked.entry.fSpent = call.fixedSpent s.wallet.isMine h pcoin.entry := by
        funext n
        rw [hspent n, FixCall.fixedSpent, hcompares, Bool.and_comm]
        rfl
      refine ⟨hremoves hplace, by rw [CWallet.put, hwallet]; rfl, marked.entry, ?_, ?_⟩
      · rw [CWallet.view_put, hwallet]
        exact congrArg (Function.update · h _) hput
      · rw [FixCall.fixed, ← hflags, ← hplace, ← hdata]
  obtain ⟨rfl, hmine, e, hentry, hfixed⟩ := hmarked
  rw [hview, Option.bind_some, hfixed]
  by_cases hremoved : call.removes pcoin.entry = true
  · rw [if_pos hremoved, hremoved, Bool.true_and]
    refine ⟨isMine_orphan.trans hmine, ?_, fun k hk => ?_⟩
    · rw [view_orphan hrepair, hentry, Function.update_self]
      simp
    · rw [view_orphan hrepair, if_neg fun hand => hk hand.1, hentry,
        Function.update_of_ne (Ne.symm hk)]
  · rw [if_neg hremoved, (Bool.not_eq_true _).mp hremoved, Bool.false_and]
    refine ⟨hmine, ?_, fun k hk => ?_⟩
    · rw [hentry, Function.update_self]
      rfl
    · rw [hentry, Function.update_of_ne (Ne.symm hk)]

end Rounds

/-! ## What is marked as unspent -/

/-- No output is marked as unspent that a transaction spends which is in the wallet afterwards. -/
def KeepsSpent (wallet wallet' : CWallet) : Prop :=
  ∀ h e e' n, wallet.view h = some e → wallet'.view h = some e' → e.fSpent n = true →
    ∀ k spender, wallet'.view k = some spender → (h, n) ∈ spender.claims → e'.fSpent n = true

variable {call : FixCall}

/-- A repair looks at every transaction once. -/
lemma fixSpentCoins_view {wallet : CWallet} {s : FixState}
    (hrepair : call.fCheckOnly = false) (hfix : call.fixSpentCoins wallet = .ok s) (h : UInt256) :
    s.wallet.view h = (wallet.view h).bind (call.fixed wallet.isMine h) := by
  have hstep : ∀ (b : FixState) k b', b.wallet.isMine = wallet.isMine → call.fixCoin b k = .ok b' →
      b'.wallet.isMine = wallet.isMine ∧
        b'.wallet.view k = (b.wallet.view k).bind (call.fixed wallet.isMine k) ∧
        ∀ k', k ≠ k' → b'.wallet.view k' = b.wallet.view k' := by
    intro b k b' hmine hround
    obtain ⟨hsame, hself, hother⟩ := fixCoin_eq_ok hrepair hround
    rw [hmine] at hsame hself
    exact ⟨hsame, hself, hother⟩
  obtain ⟨-, hin, hout⟩ := foldlM_visit (fun b k => b.wallet.view k)
    (fun k old new => new = old.bind (call.fixed wallet.isMine k))
    (fun b => b.wallet.isMine = wallet.isMine) hstep Std.ExtTreeMap.nodup_keys rfl hfix
  by_cases hmem : h ∈ wallet.mapWallet.keys
  · exact hin h hmem
  · have hnone : wallet.view h = none :=
      CWallet.view_eq_none.mpr fun hget => hmem (Std.ExtTreeMap.mem_keys.mpr hget)
    rw [hout h hmem, hnone]
    rfl

/-- A transaction that is compared with the index is not taken out. -/
lemma removes_of_compares {h : UInt256} {e : Entry}
    (hcompares : call.compares h e = true) : call.removes e = false := by
  rw [FixCall.compares, Bool.and_eq_true, Bool.and_eq_true] at hcompares
  obtain ⟨⟨hconfirmed, -⟩, -⟩ := hcompares
  have hdepth : call.chain.getDepthInMainChain e.place ≥ 1 := by
    rw [FixCall.confirmed, Bool.and_eq_true, decide_eq_true_eq] at hconfirmed
    exact hconfirmed.2
  have hpositive : ¬ call.chain.getDepthInMainChain e.place ≤ 0 := by
    rw [ge_iff_le, Int32.le_iff_toInt_le] at hdepth
    rw [Int32.le_iff_toInt_le]
    exact not_le.mpr (lt_of_lt_of_le (by decide) hdepth)
  rw [FixCall.removes, hconfirmed, decide_eq_false hpositive, Bool.and_false]
  rfl

lemma fixed_eq_some {isMine : CTxOut → Bool} {h : UInt256} {e e' : Entry}
    (hfixed : call.fixed isMine h e = some e') :
    ¬ (call.fFileBacked = true ∧ call.removes e = true) ∧ e'.place = e.place ∧
      e'.fSpent = call.fixedSpent isMine h e := by
  unfold FixCall.fixed at hfixed
  split_ifs at hfixed with hremoved
  cases hfixed
  rw [Bool.and_eq_true, and_comm] at hremoved
  exact ⟨hremoved, rfl, rfl⟩

/-- A repair keeps the marks of the outputs that are spent in the wallet if and only if every
spender of an output that the index does not know to be spent is taken out. -/
theorem fixSpentCoins_keepsSpent_iff (call : FixCall) (wallet : CWallet) (s : FixState)
    (hrepair : call.fCheckOnly = false) (hfix : call.fixSpentCoins wallet = .ok s) :
    KeepsSpent wallet s.wallet ↔
      ∀ h e n, wallet.view h = some e → call.frees wallet.isMine h e n = true →
        ∀ k spender, wallet.view k = some spender → (h, n) ∈ spender.claims →
          call.fFileBacked = true ∧ call.removes spender = true := by
  have hview := fixSpentCoins_view hrepair hfix
  constructor
  · intro hkeeps h e n hentry hfrees k spender hspender hclaims
    by_contra hstays
    rw [FixCall.frees, Bool.and_eq_true, Bool.and_eq_true, Bool.and_eq_true,
      Bool.not_eq_true'] at hfrees
    obtain ⟨⟨⟨hcompares, howns⟩, hspent⟩, hindex⟩ := hfrees
    -- both transactions are in the wallet afterwards, and the output is marked as unspent
    have hcoin : s.wallet.view h =
        some { e with fSpent := call.fixedSpent wallet.isMine h e } := by
      rw [hview, hentry, Option.bind_some, FixCall.fixed, removes_of_compares hcompares]
      rfl
    have hspender' : s.wallet.view k =
        some { spender with fSpent := call.fixedSpent wallet.isMine k spender } := by
      rw [hview, hspender, Option.bind_some, FixCall.fixed, if_neg]
      rwa [Bool.and_eq_true, and_comm]
    have hmarked := hkeeps h e _ n hentry hcoin hspent k _ hspender' hclaims
    dsimp only at hmarked
    rw [FixCall.fixedSpent, hcompares, howns, hindex] at hmarked
    exact Bool.false_ne_true hmarked
  · intro hall h e e' n hentry hentry' hspent k spender' hspender' hclaims
    rw [hview, hentry, Option.bind_some] at hentry'
    obtain ⟨-, -, hflags⟩ := fixed_eq_some hentry'
    rw [hview] at hspender'
    obtain ⟨spender, hspender, hfixed⟩ := Option.bind_eq_some_iff.mp hspender'
    obtain ⟨hstays, hplace, -⟩ := fixed_eq_some hfixed
    rw [Entry.claims, hplace] at hclaims
    rw [hflags, FixCall.fixedSpent]
    split_ifs with hcompares
    · by_contra hindex
      rw [Bool.not_eq_true] at hindex
      refine hstays (hall h e n hentry ?_ k spender hspender hclaims)
      rw [FixCall.frees, hcompares, hspent, hindex]
      rfl
    · exact hspent

/-- A transaction in a block, whose output is spent. -/
def spentCoin : CWalletTx where
  vin := [{ prevout := { hash := 5, n := 0 } }]
  vout := [{ nValue := 1000 }]
  hashBlock := 7
  nIndex := 0
  vfSpent := [true]
  nTimeSmart := 1000

/-- A transaction that spends the output and is not in a block. -/
def coinSpender (nTimeSmart : UInt32) : CWalletTx where
  vin := [{ prevout := { hash := spentCoin.getHash CBlock.mixingHash, n := 0 } }]
  vout := [{ nValue := 900 }]
  nTimeSmart

/-- A wallet with both of them. -/
def spendingWallet (nTimeSmart : UInt32) : CWallet where
  mapWallet := (∅ : Std.ExtTreeMap UInt256 CWalletTx).insert (spentCoin.getHash CBlock.mixingHash) spentCoin
    |>.insert ((coinSpender nTimeSmart).getHash CBlock.mixingHash) (coinSpender nTimeSmart)
  isMine _ := true
  blocksToMaturity _ := 0
  adjustedTime _ := 0
  timeSmart _ := 0
  writeToDisk _ := true

/-- The index of the first one, where its output is not spent. -/
def spendingRepair : FixCall where
  nNow := 10000
  chain :=
    { mapBlockIndex := fun h => if h = 7 then some ⟨100, spentCoin.getHash CBlock.mixingHash, true⟩ else none
      nBestHeight := 110, nCoinbaseMaturity := 60, nAdjustedTime := 10000, hash := CBlock.mixingHash
      fMerkleVerified := fun _ => false }
  readTxIndex h := if h = spentCoin.getHash CBlock.mixingHash then (true, .ofPos ⟨1, 2, 3⟩ 1) else (false, {})

/-- A spender that has not been confirmed for long is taken out. -/
theorem fixSpentCoins_keepsSpent_iff_spendingRepair :
    ∃ s, spendingRepair.fixSpentCoins (spendingWallet 1000) = .ok s ∧
      (KeepsSpent (spendingWallet 1000) s.wallet ↔
        ∀ h e n, (spendingWallet 1000).view h = some e →
          spendingRepair.frees (spendingWallet 1000).isMine h e n = true →
          ∀ k spender, (spendingWallet 1000).view k = some spender → (h, n) ∈ spender.claims →
            spendingRepair.fFileBacked = true ∧ spendingRepair.removes spender = true) := by
  have hok : (spendingRepair.fixSpentCoins (spendingWallet 1000)).toOption.isSome = true := by
    decide +kernel
  obtain ⟨s, hfix⟩ := exists_eq_ok hok
  exact ⟨s, hfix, fixSpentCoins_keepsSpent_iff spendingRepair (spendingWallet 1000) s rfl hfix⟩

/-- A spender that is not confirmed yet does not keep the output marked as spent. -/
theorem not_fixSpentCoins_keepsSpent :
    ¬ ∀ (call : FixCall) (wallet : CWallet) (s : FixState), call.fCheckOnly = false →
      call.fixSpentCoins wallet = .ok s → KeepsSpent wallet s.wallet := by
  intro hall
  have hok : (spendingRepair.fixSpentCoins (spendingWallet 9900)).toOption.isSome = true := by
    decide +kernel
  obtain ⟨s, hfix⟩ := exists_eq_ok hok
  have hview := fixSpentCoins_view rfl hfix
  have hne : (coinSpender 9900).getHash CBlock.mixingHash ≠ spentCoin.getHash CBlock.mixingHash := by
    decide +kernel
  have hcoin : (spendingWallet 9900).view (spentCoin.getHash CBlock.mixingHash) =
      some spentCoin.entry := by
    refine CWallet.view_eq_some ?_
    rw [spendingWallet, MapLoop.getElem?_insert_eq, if_neg hne]
    exact Std.ExtTreeMap.getElem?_insert_self
  have hspender : (spendingWallet 9900).view ((coinSpender 9900).getHash CBlock.mixingHash) =
      some (coinSpender 9900).entry := by
    refine CWallet.view_eq_some ?_
    exact Std.ExtTreeMap.getElem?_insert_self
  have hcoin' : s.wallet.view (spentCoin.getHash CBlock.mixingHash) = some { spentCoin.entry with
      fSpent := spendingRepair.fixedSpent (spendingWallet 9900).isMine
        (spentCoin.getHash CBlock.mixingHash) spentCoin.entry } := by
    have hkept : spendingRepair.removes spentCoin.entry = false := by decide +kernel
    rw [hview, hcoin, Option.bind_some, FixCall.fixed, hkept]
    rfl
  have hspender' : s.wallet.view ((coinSpender 9900).getHash CBlock.mixingHash) =
      some { (coinSpender 9900).entry with
        fSpent := spendingRepair.fixedSpent (spendingWallet 9900).isMine
          ((coinSpender 9900).getHash CBlock.mixingHash) (coinSpender 9900).entry } := by
    have hkept : spendingRepair.removes (coinSpender 9900).entry = false := by decide +kernel
    rw [hview, hspender, Option.bind_some, FixCall.fixed, hkept]
    rfl
  have hspent : spentCoin.entry.fSpent 0 = true := by decide +kernel
  have hclaims : (spentCoin.getHash CBlock.mixingHash, 0) ∈ (coinSpender 9900).entry.claims := by
    decide +kernel
  have hmarked := hall spendingRepair (spendingWallet 9900) s rfl hfix _ _ _ 0 hcoin hcoin' hspent
    _ _ hspender' hclaims
  have hfreed : spendingRepair.fixedSpent (spendingWallet 9900).isMine
      (spentCoin.getHash CBlock.mixingHash) spentCoin.entry 0 = false := by
    decide +kernel
  dsimp only at hmarked
  rw [hfreed] at hmarked
  exact Bool.false_ne_true hmarked

end HyperStake.WalletTx
