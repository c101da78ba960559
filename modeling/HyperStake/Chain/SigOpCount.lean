import HyperStake.Chain.Spending
import HyperStake.Script.SigOps

/-!
# The signature checks of a block

`ConnectBlock` adds up the counts of the scripts of the inputs and outputs of the transactions
(`GetLegacySigOpCount`) and of the redeem scripts of the outputs that they claim
(`GetP2SHSigOpCount`), and refuses a block with more than `MAX_BLOCK_SIGOPS`.  In a block within the
limit on the size the sums do not wrap around, so the limit bounds the checks that the scripts of
the inputs and the redeem scripts make.  The scripts of the claimed outputs are counted where the
outputs are made, not where they are claimed.
-/

namespace HyperStake

open LittleEndian ExceptLoop Stopping

namespace CTransaction

def getLegacySigOpCount (tx : CTransaction) : UInt32 :=
  let nSigOps := tx.vin.foldl (fun nSigOps txin => nSigOps + txin.scriptSig.getSigOpCount false) 0
  tx.vout.foldl (fun nSigOps txout => nSigOps + txout.scriptPubKey.getSigOpCount false) nSigOps

/-- What `GetP2SHSigOpCount` adds for an input and the output that it claims. -/
def p2shSigOps (prevout : CTxOut) (txin : CTxIn) : UInt32 :=
  if prevout.scriptPubKey.isPayToScriptHash then
    prevout.scriptPubKey.getSigOpCountFor txin.scriptSig
  else 0

def getP2SHSigOpCount (tx : CTransaction) (inputs : MapPrevTx) : Except Fault UInt32 :=
  if tx.isCoinBase then .ok 0
  else tx.vin.foldlM
    (fun nSigOps txin => do return nSigOps + p2shSigOps (← getOutputFor txin inputs) txin) 0

/-- The verification of an input against the output that it claims, without any check if there is no
such output. -/
def verifyInput (env : ScriptEnv) (inputs : MapPrevTx) (txin : CTxIn) : Verification :=
  match getOutputFor txin inputs with
  | .ok prevout => env.verifyScript txin.scriptSig prevout.scriptPubKey true
  | .error e => { result := .error e }

/-- The checks that the scripts of the inputs and the redeem scripts make. -/
def inputChecks (env : ℕ → ScriptEnv) (tx : CTransaction) (inputs : MapPrevTx) : ℕ :=
  (tx.vin.zipIdx.map fun (txin, nIn) =>
    (verifyInput (env nIn) inputs txin).nChecksSig +
      (verifyInput (env nIn) inputs txin).nChecksRedeem).sum

/-- The checks that the scripts of the claimed outputs make. -/
def outputChecks (env : ℕ → ScriptEnv) (tx : CTransaction) (inputs : MapPrevTx) : ℕ :=
  (tx.vin.zipIdx.map fun (txin, nIn) => (verifyInput (env nIn) inputs txin).nChecksPubKey).sum

/-! ## Sums that do not wrap around -/

variable {α : Type} {inputs : MapPrevTx}

lemma toNat_foldl_add {f : α → UInt32} {n : UInt32} {l : List α}
    (h : n.toNat + (l.map fun a => (f a).toNat).sum < 2 ^ 32) :
    (l.foldl (fun n a => n + f a) n).toNat = n.toNat + (l.map fun a => (f a).toNat).sum := by
  induction l generalizing n with
  | nil => rfl
  | cons a l ih =>
    rw [List.map_cons, List.sum_cons] at h ⊢
    have hadd : (n + f a).toNat = n.toNat + (f a).toNat := by
      rw [UInt32.toNat_add]
      exact Nat.mod_eq_of_lt (by omega)
    rw [List.foldl_cons, ih (by omega), hadd]
    omega

/-- The bytes of the scripts of a transaction. -/
def scriptBytes (tx : CTransaction) : ℕ :=
  (tx.vin.map fun txin => txin.scriptSig.length).sum +
    (tx.vout.map fun txout => txout.scriptPubKey.length).sum

lemma sum_map_length_le {size : α → ℕ} {serialize : α → Bytes}
    (h : ∀ a, size a ≤ (serialize a).length) (l : List α) :
    (l.map size).sum ≤ (serializeVector serialize l).length := by
  rw [serializeVector, List.length_append, List.length_flatMap]
  exact (List.sum_le_sum fun a _ => h a).trans (Nat.le_add_left _ _)

lemma scriptBytes_le (tx : CTransaction) : tx.scriptBytes ≤ tx.serialize.length := by
  have htxin (txin : CTxIn) : txin.scriptSig.length ≤ txin.serialize.length := by
    simp only [CTxIn.serialize, serializeString, List.length_append]
    omega
  have htxout (txout : CTxOut) : txout.scriptPubKey.length ≤ txout.serialize.length := by
    simp only [CTxOut.serialize, serializeString, List.length_append]
    omega
  have hvin := sum_map_length_le htxin tx.vin
  have hvout := sum_map_length_le htxout tx.vout
  simp only [scriptBytes, serialize, List.length_append]
  omega

lemma sum_getSigOpCount_le (script : α → CScript) (l : List α) :
    (l.map fun a => ((script a).getSigOpCount false).toNat).sum ≤
      20 * (l.map fun a => (script a).length).sum := by
  rw [← List.sum_map_mul_left]
  exact List.sum_le_sum fun _ _ => CScript.toNat_getSigOpCount_le

lemma toNat_getLegacySigOpCount (tx : CTransaction) (h : 20 * tx.scriptBytes < 2 ^ 32) :
    tx.getLegacySigOpCount.toNat =
        (tx.vin.map fun txin => (txin.scriptSig.getSigOpCount false).toNat).sum +
          (tx.vout.map fun txout => (txout.scriptPubKey.getSigOpCount false).toNat).sum ∧
      tx.getLegacySigOpCount.toNat ≤ 20 * tx.scriptBytes := by
  have hvin := sum_getSigOpCount_le CTxIn.scriptSig tx.vin
  have hvout := sum_getSigOpCount_le CTxOut.scriptPubKey tx.vout
  have hzero : (0 : UInt32).toNat = 0 := rfl
  rw [scriptBytes] at h ⊢
  rw [getLegacySigOpCount, toNat_foldl_add (by rw [toNat_foldl_add] <;> omega),
    toNat_foldl_add (by omega), hzero, Nat.zero_add]
  exact ⟨rfl, by omega⟩

lemma toNat_p2shSigOps_le (prevout : CTxOut) (txin : CTxIn) :
    (p2shSigOps prevout txin).toNat ≤ 20 * txin.scriptSig.length := by
  rw [p2shSigOps]
  by_cases hscriptHash : prevout.scriptPubKey.isPayToScriptHash = true
  · rw [if_pos hscriptHash]
    exact CScript.toNat_getSigOpCountFor_le hscriptHash
  · rw [if_neg hscriptHash]
    exact Nat.zero_le _

/-- Where `GetP2SHSigOpCount` returns, every input claims an output, and the sum does not wrap
around. -/
lemma foldlM_p2shSigOps {n n' : UInt32} {vin : List CTxIn}
    (h : vin.foldlM (fun nSigOps txin => do
      return nSigOps + p2shSigOps (← getOutputFor txin inputs) txin) n = Except.ok n')
    (hsize : n.toNat + 20 * (vin.map fun txin => txin.scriptSig.length).sum < 2 ^ 32) :
    ∃ prevouts, List.Forall₂ (fun txin prevout => getOutputFor txin inputs = .ok prevout) vin
        prevouts ∧
      n'.toNat = n.toNat + (List.zipWith
        (fun txin prevout => (p2shSigOps prevout txin).toNat) vin prevouts).sum ∧
      n'.toNat ≤ n.toNat + 20 * (vin.map fun txin => txin.scriptSig.length).sum := by
  induction vin generalizing n with
  | nil =>
    cases h
    exact ⟨[], .nil, rfl, le_refl _⟩
  | cons txin vin ih =>
    rw [List.foldlM_cons] at h
    rw [List.map_cons, List.sum_cons] at hsize
    cases hprevout : getOutputFor txin inputs with
    | error e =>
      rw [hprevout] at h
      cases h
    | ok prevout =>
      rw [hprevout] at h
      have hle := toNat_p2shSigOps_le prevout txin
      have hadd : (n + p2shSigOps prevout txin).toNat =
          n.toNat + (p2shSigOps prevout txin).toNat := by
        rw [UInt32.toNat_add]
        exact Nat.mod_eq_of_lt (by omega)
      obtain ⟨prevouts, hprevouts, hsum, hle'⟩ := ih h (by omega)
      refine ⟨prevout :: prevouts, .cons hprevout hprevouts, ?_, ?_⟩
      · rw [hsum, hadd, List.zipWith_cons_cons, List.sum_cons, Nat.add_assoc]
      · rw [List.map_cons, List.sum_cons]
        omega

/-! ## Transactions -/

/-- The scripts of an input check no more signatures than are counted for it. -/
lemma verifyInput_checks_le (env : ScriptEnv) {txin : CTxIn} {prevout : CTxOut}
    (h : getOutputFor txin inputs = .ok prevout) :
    (verifyInput env inputs txin).nChecksSig + (verifyInput env inputs txin).nChecksRedeem ≤
      (txin.scriptSig.getSigOpCount false).toNat + (p2shSigOps prevout txin).toNat := by
  have hsig := (env.nChecks_verifyScript_le txin.scriptSig prevout.scriptPubKey true).1
  rw [verifyInput, h, p2shSigOps]
  by_cases hscriptHash : prevout.scriptPubKey.isPayToScriptHash = true
  · rw [if_pos hscriptHash]
    exact Nat.add_le_add hsig (env.nChecksRedeem_le hscriptHash true)
  · rw [if_neg hscriptHash]
    exact Nat.add_le_add hsig (env.nChecksRedeem_eq_zero hscriptHash true).le

lemma sum_inputChecks_le (env : ℕ → ScriptEnv) {vin : List CTxIn} {prevouts : List CTxOut}
    (h : List.Forall₂ (fun txin prevout => getOutputFor txin inputs = .ok prevout) vin prevouts)
    (k : ℕ) :
    ((vin.zipIdx k).map fun (txin, nIn) => (verifyInput (env nIn) inputs txin).nChecksSig +
        (verifyInput (env nIn) inputs txin).nChecksRedeem).sum ≤
      (vin.map fun txin => (txin.scriptSig.getSigOpCount false).toNat).sum +
        (List.zipWith (fun txin prevout => (p2shSigOps prevout txin).toNat) vin prevouts).sum := by
  induction h generalizing k with
  | nil => exact le_refl _
  | cons hprevout _ ih =>
    have hfirst := verifyInput_checks_le (env k) hprevout
    have hrest := ih (k + 1)
    refine (Nat.add_le_add hfirst hrest).trans (le_of_eq ?_)
    simp only [List.map_cons, List.sum_cons, List.zipWith_cons_cons]
    omega

lemma toNat_getLegacySigOpCount_lt {tx : CTransaction}
    (hsize : tx.serialize.length ≤ MAX_BLOCK_SIZE.toNat) :
    tx.getLegacySigOpCount.toNat < 2 ^ 30 := by
  have hmax : MAX_BLOCK_SIZE.toNat = 1000000 := rfl
  have hbytes := tx.scriptBytes_le
  obtain ⟨-, hlegacy⟩ := tx.toNat_getLegacySigOpCount (by omega)
  omega

/-- The counts of a transaction within the limit on the size do not wrap around, and the scripts of
its inputs and the redeem scripts check no more signatures than are counted. -/
lemma inputChecks_le (env : ℕ → ScriptEnv) {tx : CTransaction} {nSigOps : UInt32}
    (hsize : tx.serialize.length ≤ MAX_BLOCK_SIZE.toNat) (hcoinbase : ¬ tx.isCoinBase = true)
    (h : tx.getP2SHSigOpCount inputs = .ok nSigOps) :
    tx.inputChecks env inputs ≤ tx.getLegacySigOpCount.toNat + nSigOps.toNat ∧
      tx.getLegacySigOpCount.toNat < 2 ^ 30 ∧ nSigOps.toNat < 2 ^ 30 := by
  have hmax : MAX_BLOCK_SIZE.toNat = 1000000 := rfl
  have hbytes := tx.scriptBytes_le
  obtain ⟨hlegacy, hlegacyLe⟩ := tx.toNat_getLegacySigOpCount (by omega)
  rw [getP2SHSigOpCount, if_neg hcoinbase] at h
  rw [scriptBytes] at hbytes hlegacyLe
  have hzero : (0 : UInt32).toNat = 0 := rfl
  obtain ⟨prevouts, hprevouts, hsum, hp2sh⟩ := foldlM_p2shSigOps h (by omega)
  have hle := sum_inputChecks_le env hprevouts 0
  refine ⟨?_, by omega, by omega⟩
  rw [inputChecks]
  omega

end CTransaction

/-! ## Blocks -/

section Block

variable (hash : Bytes → UInt256) (scripts : CTransaction → ℕ → ScriptEnv) (node : Node TxDB)

/-- The checks that the scripts of the inputs and the redeem scripts of a transaction make when it is
connected. -/
def connectChecks (db : TxDB) (s : ConnectState) (tx : CTransaction) : ℕ :=
  if tx.isCoinBase then 0
  else match node.fetchInputs db tx s.mapQueuedChanges with
    | .ok (some mapInputs) => tx.inputChecks (scripts tx) mapInputs
    | _ => 0

/-- The checks that the scripts of the inputs and the redeem scripts make in the loop over the
transactions. -/
def blockChecks (db : TxDB) (pindex : CBlockIndex) (fJustCheck : Bool) :
    ConnectState → List CTransaction → ℕ
  | _, [] => 0
  | s, tx :: vtx =>
    connectChecks scripts node db s tx +
      match connectTransaction hash node db pindex fJustCheck s tx with
      | .ok s' => blockChecks db pindex fJustCheck s' vtx
      | .error _ => 0

variable {hash node} {db : TxDB} {pindex : CBlockIndex} {fJustCheck : Bool}

section

variable (hlegacy : node.getLegacySigOpCount = CTransaction.getLegacySigOpCount)
  (hp2sh : node.getP2SHSigOpCount = CTransaction.getP2SHSigOpCount)

include hlegacy hp2sh

/-- A transaction that is connected makes no more checks than the counter grows by. -/
lemma connectChecks_le {s s' : ConnectState} {tx : CTransaction}
    (hsize : tx.serialize.length ≤ MAX_BLOCK_SIZE.toNat) (hs : s.nSigOps ≤ MAX_BLOCK_SIGOPS)
    (h : connectTransaction hash node db pindex fJustCheck s tx = .ok s') :
    s.nSigOps.toNat + connectChecks scripts node db s tx ≤ s'.nSigOps.toNat ∧
      s'.nSigOps ≤ MAX_BLOCK_SIGOPS := by
  unfold connectTransaction at h
  obtain ⟨_, hlimit, h⟩ := bind_eq_ok.mp (eq_ok_of_match h)
  have hle := of_decide_eq_true (Exit.require_eq_ok.mp hlimit)
  have hmax : MAX_BLOCK_SIGOPS.toNat = 20000 := rfl
  have hs' := UInt32.le_iff_toNat_le.mp hs
  rw [hlegacy] at hle h
  rw [connectChecks]
  by_cases hcoinbase : tx.isCoinBase = true
  · rw [if_pos hcoinbase] at h ⊢
    obtain ⟨nOut, -, h⟩ := bind_eq_ok.mp h
    cases h
    refine ⟨?_, hle⟩
    have hlt := (tx.toNat_getLegacySigOpCount_lt hsize)
    rw [Nat.add_zero, UInt32.toNat_add, Nat.mod_eq_of_lt (by omega)]
    exact Nat.le_add_right _ _
  · rw [if_neg hcoinbase] at h ⊢
    obtain ⟨s'', hs'', h⟩ := bind_eq_ok.mp h
    cases h
    unfold connectInputsOf at hs''
    obtain ⟨found, hfound, h⟩ := bind_eq_ok.mp hs''
    obtain ⟨inputs, hinputs, h⟩ := bind_eq_ok.mp h
    obtain ⟨nSigOps, hcount, h⟩ := bind_eq_ok.mp h
    obtain ⟨_, hlimit', h⟩ := bind_eq_ok.mp h
    obtain ⟨nIn, -, h⟩ := bind_eq_ok.mp h
    obtain ⟨nOut, -, h⟩ := bind_eq_ok.mp h
    obtain ⟨connected, -, h⟩ := bind_eq_ok.mp h
    obtain ⟨q, -, h⟩ := bind_eq_ok.mp h
    obtain ⟨fProposal, -, h⟩ := bind_eq_ok.mp h
    cases h
    rw [Exit.requireSome_eq_ok.mp hinputs] at hfound
    rw [hp2sh] at hcount
    have hchecks := CTransaction.inputChecks_le (scripts tx) hsize hcoinbase
      (Exit.lift_eq_ok.mp hcount)
    have hfetch : node.fetchInputs db tx s.mapQueuedChanges = .ok (some inputs) :=
      Exit.lift_eq_ok.mp hfound
    rw [hfetch]
    refine ⟨?_, of_decide_eq_true (Exit.require_eq_ok.mp hlimit')⟩
    dsimp only
    rw [UInt32.toNat_add, UInt32.toNat_add]
    omega

/-- The loop over the transactions makes no more checks than the counter grows by. -/
lemma blockChecks_le {s s' : ConnectState} {vtx : List CTransaction}
    (hsize : ∀ tx ∈ vtx, tx.serialize.length ≤ MAX_BLOCK_SIZE.toNat)
    (hs : s.nSigOps ≤ MAX_BLOCK_SIGOPS)
    (h : vtx.foldlM (connectTransaction hash node db pindex fJustCheck) s = .ok s') :
    s.nSigOps.toNat + blockChecks hash scripts node db pindex fJustCheck s vtx ≤
        s'.nSigOps.toNat ∧ s'.nSigOps ≤ MAX_BLOCK_SIGOPS := by
  induction vtx generalizing s with
  | nil =>
    cases h
    exact ⟨le_refl _, hs⟩
  | cons tx vtx ih =>
    rw [List.foldlM_cons] at h
    obtain ⟨s₁, hs₁, h⟩ := bind_eq_ok.mp h
    obtain ⟨htx, hvtx⟩ := List.forall_mem_cons.mp hsize
    obtain ⟨hfirst, hle⟩ := connectChecks_le scripts hlegacy hp2sh htx hs hs₁
    obtain ⟨hrest, hle'⟩ := ih hvtx hle h
    refine ⟨?_, hle'⟩
    rw [blockChecks, hs₁]
    dsimp only
    omega

end

end Block

/-- An environment in which the signature checks are counted as in the source. -/
def Env.counting (env : Env) : Env :=
  { env with
    getLegacySigOpCount := CTransaction.getLegacySigOpCount
    getP2SHSigOpCount := CTransaction.getP2SHSigOpCount }

/-- A script with many checks of one signature each. -/
def manyChecks (n : ℕ) : CScript := (List.replicate n [OP_1, OP_CHECKMULTISIG]).flatten

lemma sigOps_manyChecks (fAccurate : Bool) (lastOpcode : UInt8) (n : ℕ) :
    CScript.sigOps fAccurate lastOpcode (CScript.opcodes (manyChecks n)) =
      if fAccurate then n else 20 * n := by
  induction n generalizing lastOpcode with
  | zero =>
    rw [manyChecks, List.replicate_zero, List.flatten_nil, CScript.opcodes_of_none rfl]
    cases fAccurate <;> rfl
  | succ n ih =>
    have hfirst : CScript.getOp2 (manyChecks (n + 1)) =
        some (OP_1, [], OP_CHECKMULTISIG :: manyChecks n) := rfl
    have hsecond : CScript.getOp2 (OP_CHECKMULTISIG :: manyChecks n) =
        some (OP_CHECKMULTISIG, [], manyChecks n) := rfl
    rw [CScript.opcodes_of_getOp2 hfirst, CScript.opcodes_of_getOp2 hsecond, CScript.sigOps,
      CScript.sigOps, ih]
    cases fAccurate with
    | true =>
      have hcount : CScript.opSigOps true lastOpcode OP_1 = 0 := rfl
      have hcount' : CScript.opSigOps true OP_1 OP_CHECKMULTISIG = 1 := rfl
      rw [hcount, hcount', if_pos rfl, if_pos rfl]
      omega
    | false =>
      have hcount : CScript.opSigOps false lastOpcode OP_1 = 0 := rfl
      have hcount' : CScript.opSigOps false OP_1 OP_CHECKMULTISIG = 20 := rfl
      rw [hcount, hcount', if_neg Bool.false_ne_true, if_neg Bool.false_ne_true]
      omega

/-- A script of an output that checks a signature when it is claimed with an empty script. -/
def checkingScript : CScript := [OP_1, OP_1, OP_CHECKSIG]

lemma evalScript_checkingScript : ScriptEnv.sample.evalScript [] checkingScript =
    (.ok true, { ScriptEnv.startState [] checkingScript with
      stack := [vchTrue], nOpCount := 1, nChecks := 1 }) := by
  have hfirst : outcome (ScriptEnv.sample.evalOp OP_1 [] [OP_1, OP_CHECKSIG])
      (ScriptEnv.startState [] checkingScript) =
      (.ok (), { ScriptEnv.startState [] checkingScript with stack := [[1]] }) := rfl
  have hsecond : outcome (ScriptEnv.sample.evalOp OP_1 [] [OP_CHECKSIG])
      { ScriptEnv.startState [] checkingScript with stack := [[1]] } =
      (.ok (), { ScriptEnv.startState [] checkingScript with stack := [[1], [1]] }) := rfl
  have hthird : outcome (ScriptEnv.sample.evalOp OP_CHECKSIG [] [])
      { ScriptEnv.startState [] checkingScript with stack := [[1], [1]] } =
      (.ok (), { ScriptEnv.startState [] checkingScript with
        stack := [vchTrue], nOpCount := 1, nChecks := 1 }) := rfl
  have hloop : outcome (ScriptEnv.sample.evalLoop checkingScript)
      (ScriptEnv.startState [] checkingScript) =
      (.ok (), { ScriptEnv.startState [] checkingScript with
        stack := [vchTrue], nOpCount := 1, nChecks := 1 }) := by
    have hop : checkingScript.getOp2 = some (OP_1, [], [OP_1, OP_CHECKSIG]) := rfl
    have hop' : CScript.getOp2 [OP_1, OP_CHECKSIG] = some (OP_1, [], [OP_CHECKSIG]) := rfl
    have hop'' : CScript.getOp2 [OP_CHECKSIG] = some (OP_CHECKSIG, [], []) := rfl
    rw [ScriptEnv.evalLoop_of_getOp2 _ hop, outcome_bind, hfirst]
    dsimp only
    rw [ScriptEnv.evalLoop_of_getOp2 _ hop', outcome_bind, hsecond]
    dsimp only
    rw [ScriptEnv.evalLoop_of_getOp2 _ hop'', outcome_bind, hthird]
    dsimp only
    rw [ScriptEnv.evalLoop_nil, outcome_pure]
  have hlong : ¬ checkingScript.length > 10000 := by decide
  rw [ScriptEnv.evalScript, if_neg hlong, hloop]
  rfl

lemma verifyScript_checkingScript : ScriptEnv.sample.verifyScript [] checkingScript true =
    { result := .ok true, nChecksSig := 0, nChecksPubKey := 1, nChecksRedeem := 0 } := by
  have hempty : ScriptEnv.sample.evalScript [] [] = (.ok true, ScriptEnv.startState [] []) := by
    have hlong : ¬ ([] : CScript).length > 10000 := by decide
    rw [ScriptEnv.evalScript, if_neg hlong, ScriptEnv.evalLoop_nil, outcome_pure]
    rfl
  have hstack : (ScriptEnv.startState [] []).stack = [] := rfl
  simp only [ScriptEnv.verifyScript, hempty, hstack, evalScript_checkingScript]
  rfl

/-- A transaction with outputs that check a signature. -/
def checkingPrev : CTransaction where
  vout := List.replicate 10001 { nValue := MIN_TXOUT_AMOUNT, scriptPubKey := checkingScript }

/-- Two such transactions. -/
def checkingInputs : MapPrevTx :=
  ((∅ : MapPrevTx).insert 1 (.ofPos ⟨1, 0, 0⟩ 10001, checkingPrev)).insert 2
    (.ofPos ⟨1, 0, 0⟩ 10001, checkingPrev)

/-- The input that claims one of their outputs. -/
def checkingInput (k : ℕ) : CTxIn :=
  { prevout := ⟨if k < 10001 then 1 else 2, UInt32.ofNat (k % 10001)⟩ }

/-- A transaction that claims some of their outputs. -/
def checkingTx (n : ℕ) : CTransaction where
  vin := (List.range n).map checkingInput
  vout := [{ nValue := MIN_TXOUT_AMOUNT }]

lemma getOutputFor_checkingInput (k : ℕ) :
    CTransaction.getOutputFor (checkingInput k) checkingInputs =
      .ok { nValue := MIN_TXOUT_AMOUNT, scriptPubKey := checkingScript } := by
  have hlt : k % 10001 < 10001 := Nat.mod_lt _ (by decide)
  have hn : (UInt32.ofNat (k % 10001)).toNat = k % 10001 := by
    rw [UInt32.toNat_ofNat', Nat.mod_eq_of_lt (by omega)]
  have hprev : checkingInputs[(checkingInput k).prevout.hash]? =
      some (.ofPos ⟨1, 0, 0⟩ 10001, checkingPrev) := by
    rw [checkingInputs, checkingInput]
    dsimp only
    split_ifs
    · rw [Std.ExtTreeMap.getElem?_insert, if_neg (by decide), Std.ExtTreeMap.getElem?_insert_self]
    · rw [Std.ExtTreeMap.getElem?_insert_self]
  have hvout : checkingPrev.vout[(checkingInput k).prevout.n.toNat]? =
      some { nValue := MIN_TXOUT_AMOUNT, scriptPubKey := checkingScript } := by
    rw [checkingInput, hn, checkingPrev, List.getElem?_replicate, if_pos hlt]
  simp only [CTransaction.getOutputFor, hprev, hvout]

lemma verifyInput_checkingInput (k : ℕ) :
    CTransaction.verifyInput ScriptEnv.sample checkingInputs (checkingInput k) =
      { result := .ok true, nChecksSig := 0, nChecksPubKey := 1, nChecksRedeem := 0 } := by
  rw [CTransaction.verifyInput, getOutputFor_checkingInput]
  exact verifyScript_checkingScript

lemma outputChecks_checkingTx (n : ℕ) :
    (checkingTx n).outputChecks (fun _ => ScriptEnv.sample) checkingInputs = n := by
  have hsum (l : List ℕ) (k : ℕ) : (((l.map checkingInput).zipIdx k).map fun (txin, _) =>
      (CTransaction.verifyInput ScriptEnv.sample checkingInputs txin).nChecksPubKey).sum =
      l.length := by
    induction l generalizing k with
    | nil => rfl
    | cons a l ih =>
      rw [List.map_cons, List.zipIdx_cons, List.map_cons, List.sum_cons, ih]
      dsimp only
      rw [verifyInput_checkingInput, List.length_cons, Nat.add_comm]
  rw [CTransaction.outputChecks, checkingTx, hsum, List.length_range]

lemma getLegacySigOpCount_checkingTx (n : ℕ) : (checkingTx n).getLegacySigOpCount = 0 := by
  have hbytes : (checkingTx n).scriptBytes = 0 := by
    have hzero : (((List.range n).map checkingInput).map fun txin => txin.scriptSig.length).sum =
        0 := by
      rw [List.map_map]
      exact List.sum_map_zero
    rw [CTransaction.scriptBytes, checkingTx, hzero]
    rfl
  have hle := ((checkingTx n).toNat_getLegacySigOpCount (by omega)).2
  rw [hbytes] at hle
  exact UInt32.toNat_inj.mp (Nat.le_zero.mp hle)

lemma getP2SHSigOpCount_checkingTx (n : ℕ) :
    (checkingTx n).getP2SHSigOpCount checkingInputs = .ok 0 := by
  have hloop (l : List ℕ) : (l.map checkingInput).foldlM (fun nSigOps txin => do
      return nSigOps + CTransaction.p2shSigOps (← CTransaction.getOutputFor txin checkingInputs) txin)
      (0 : UInt32) = Except.ok 0 := by
    induction l with
    | nil => rfl
    | cons a l ih =>
      rw [List.map_cons, List.foldlM_cons, getOutputFor_checkingInput]
      exact ih
  rw [CTransaction.getP2SHSigOpCount, checkingTx, hloop]
  split_ifs
  · rfl
  · rfl

lemma result_checkingTx {n : ℕ} {txin : CTxIn} (h : txin ∈ (checkingTx n).vin) :
    (CTransaction.verifyInput ScriptEnv.sample checkingInputs txin).result = .ok true := by
  obtain ⟨k, -, rfl⟩ := List.mem_map.mp h
  rw [verifyInput_checkingInput]

lemma length_serialize_checkingTx (n : ℕ) : (checkingTx n).serialize.length ≤ 41 * n + 100 := by
  have htxin (k : ℕ) : (checkingInput k).serialize.length = 41 := by
    simp only [CTxIn.serialize, COutPoint.serialize, checkingInput, serializeString,
      serializeUInt32, List.length_append, leBytes_length]
    rfl
  have hvin : (((List.range n).map checkingInput).flatMap CTxIn.serialize).length = 41 * n := by
    have hconst : (fun txin : CTxIn => txin.serialize.length) ∘ checkingInput = fun _ => 41 :=
      funext htxin
    rw [List.length_flatMap, List.map_map, hconst, List.map_const', List.sum_replicate_nat,
      List.length_range, Nat.mul_comm]
  have hsize (n : ℕ) : (writeCompactSize n).length ≤ 9 := by
    unfold writeCompactSize
    split_ifs <;> simp only [List.length_append, leBytes_length] <;> omega
  have hvinSize := hsize ((List.range n).map checkingInput).length
  have hvout : (serializeVector CTxOut.serialize
      [({ nValue := MIN_TXOUT_AMOUNT } : CTxOut)]).length = 10 := by decide
  simp only [CTransaction.serialize, checkingTx, hvout, List.length_append]
  rw [serializeVector, List.length_append, hvin]
  simp only [serializeInt32, serializeUInt32, leBytes_length]
  omega

end HyperStake
