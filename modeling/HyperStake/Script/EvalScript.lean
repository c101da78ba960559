import HyperStake.Script.Machine

/-!
# Running a script

The operations that check signatures, the switch and the loop of `EvalScript`, and the rules for the
parts of operations.
-/

namespace HyperStake

open LittleEndian Stopping Eval

/-! ## Deleting from a script -/

namespace CScript

/-- What follows the first operation of a script is shorter. -/
lemma length_lt_of_getOp2 {s pc : CScript} {opcode : UInt8} {vch : Bytes}
    (h : getOp2 s = some (opcode, vch, pc)) : pc.length < s.length := by
  cases s with
  | nil => cases h
  | cons byte s =>
    rw [List.length_cons, Nat.lt_succ_iff]
    simp only [getOp2] at h
    split_ifs at h <;> simp only [Option.some.injEq, Prod.mk.injEq] at h <;> rw [← h.2.2] <;>
      simp only [List.length_drop] <;> omega

/-- The inner loop of `FindAndDelete`: delete a script while it is at the start. -/
def deleteStart (b s : CScript) : CScript :=
  if b ≠ [] ∧ b <+: s then deleteStart b (s.drop b.length) else s
termination_by s.length
decreasing_by
  rename_i h
  have hpos := List.length_pos_iff.mpr h.1
  have hle := h.2.length_le
  rw [List.length_drop]
  omega

lemma length_deleteStart_le (b s : CScript) : (deleteStart b s).length ≤ s.length := by
  induction s using deleteStart.induct b with
  | case1 s h ih =>
    rw [deleteStart, if_pos h]
    rw [List.length_drop] at ih
    omega
  | case2 s h => rw [deleteStart, if_neg h]

/-- `FindAndDelete`: delete a script wherever it is at the start of an operation. -/
def findAndDelete (b s : CScript) : CScript :=
  match _h : getOp2 (deleteStart b s) with
  | none => deleteStart b s
  | some (_, _, pc) =>
    (deleteStart b s).take ((deleteStart b s).length - pc.length) ++ findAndDelete b pc
termination_by s.length
decreasing_by exact (length_lt_of_getOp2 _h).trans_le (length_deleteStart_le b s)

end CScript

namespace ScriptEnv

variable (env : ScriptEnv)

/-! ## Checking signatures -/

/-- `OP_CHECKSIG`, `OP_CHECKSIGVERIFY`: (sig pubkey -- bool) -/
def opCheckSig (fVerify : Bool) : Eval Unit := do
  need 2
  let vchSig ← stacktop 2
  let vchPubKey ← stacktop 1
  -- drop the signature, since there's no way for a signature to sign itself
  let scriptCode := CScript.findAndDelete (CScript.pushData [] vchSig) (← get).pbegincodehash
  let fSuccess ← env.callCheckSig vchSig vchPubKey scriptCode
  popstack
  popstack
  pushBool fSuccess
  verifyIf fVerify fSuccess

/-- The loop of `OP_CHECKMULTISIG` that drops the signatures from the script. -/
def dropSigs : ℕ → ℕ → CScript → Eval CScript
  | 0, _, scriptCode => pure scriptCode
  | nSigsCount + 1, isig, scriptCode => do
    let vchSig ← stacktop isig
    dropSigs nSigsCount (isig + 1)
      (CScript.findAndDelete (CScript.pushData [] vchSig) scriptCode)

/-- The loop of `OP_CHECKMULTISIG` over the signatures and the keys that are left. -/
def multiSigLoop (scriptCode : CScript) : ℕ → ℕ → ℕ → ℕ → Eval Bool
  | _, 0, _, _ => pure true
  -- not reached: there are never more signatures than keys left
  | 0, _ + 1, isig, ikey => do
    let vchSig ← stacktop isig
    let vchPubKey ← stacktop ikey
    let _ ← env.callCheckSig vchSig vchPubKey scriptCode
    pure false
  | nKeysCount + 1, nSigsCount + 1, isig, ikey => do
    let vchSig ← stacktop isig
    let vchPubKey ← stacktop ikey
    let fOk ← env.callCheckSig vchSig vchPubKey scriptCode
    let nSigsLeft := if fOk then nSigsCount else nSigsCount + 1
    -- if there are more signatures left than keys left, then too many signatures have failed
    if nSigsLeft > nKeysCount then pure false
    else multiSigLoop scriptCode nKeysCount nSigsLeft (if fOk then isig + 1 else isig) (ikey + 1)

/-- The loop that pops a number of elements. -/
def popMany : ℕ → Eval Unit
  | 0 => pure ()
  | i + 1 => do
    popstack
    popMany i

/-- `OP_CHECKMULTISIG`, `OP_CHECKMULTISIGVERIFY`:
([sig ...] num_of_signatures [pubkey ...] num_of_pubkeys -- bool) -/
def opCheckMultiSig (fVerify : Bool) : Eval Unit := do
  need 1
  let nKeysCount := getint (← castToBigNum (← stacktop 1))
  failIf (nKeysCount < 0 ∨ nKeysCount > 20)
  modify fun s => { s with nOpCount := s.nOpCount + nKeysCount.toNat }
  failIf ((← get).nOpCount > 201)
  let ikey := 2
  let i := ikey + nKeysCount.toNat
  need i
  let nSigsCount := getint (← castToBigNum (← stacktop i))
  failIf (nSigsCount < 0 ∨ nSigsCount > nKeysCount)
  let isig := i + 1
  let i := isig + nSigsCount.toNat
  need i
  let scriptCode ← dropSigs nSigsCount.toNat isig (← get).pbegincodehash
  let fSuccess ← env.multiSigLoop scriptCode nKeysCount.toNat nSigsCount.toNat isig ikey
  popMany i
  pushBool fSuccess
  verifyIf fVerify fSuccess

/-! ## The loop -/

/-- The switch of `EvalScript`, for an operation before a rest of the script. -/
def execute (opcode : UInt8) (fExec : Bool) (pc : CScript) : Eval Unit :=
  -- push value
  if opcode = OP_1NEGATE ∨ OP_1 ≤ opcode ∧ opcode ≤ OP_16 then opNumber opcode
  -- control
  else if opcode = OP_NOP ∨ OP_NOP1 ≤ opcode ∧ opcode ≤ OP_NOP10 then pure ()
  else if opcode = OP_IF ∨ opcode = OP_NOTIF then opIf (opcode == OP_NOTIF) fExec
  else if opcode = OP_ELSE then opElse
  else if opcode = OP_ENDIF then opEndif
  else if opcode = OP_VERIFY then opVerify
  else if opcode = OP_RETURN then throw .fail
  -- stack ops
  else if opcode = OP_TOALTSTACK then opToAltStack
  else if opcode = OP_FROMALTSTACK then opFromAltStack
  else if opcode = OP_2DROP then op2Drop
  else if opcode = OP_2DUP then op2Dup
  else if opcode = OP_3DUP then op3Dup
  else if opcode = OP_2OVER then op2Over
  else if opcode = OP_2ROT then op2Rot
  else if opcode = OP_2SWAP then op2Swap
  else if opcode = OP_IFDUP then opIfDup
  else if opcode = OP_DEPTH then opDepth
  else if opcode = OP_DROP then opDrop
  else if opcode = OP_DUP then opDup
  else if opcode = OP_NIP then opNip
  else if opcode = OP_OVER then opOver
  else if opcode = OP_PICK ∨ opcode = OP_ROLL then opPick (opcode == OP_ROLL)
  else if opcode = OP_ROT then opRot
  else if opcode = OP_SWAP then opSwap
  else if opcode = OP_TUCK then opTuck
  -- splice ops
  else if opcode = OP_SIZE then opSize
  -- bitwise logic
  else if opcode = OP_EQUAL ∨ opcode = OP_EQUALVERIFY then opEqual (opcode == OP_EQUALVERIFY)
  -- numeric
  else if opcode = OP_1ADD ∨ opcode = OP_1SUB ∨ OP_NEGATE ≤ opcode ∧ opcode ≤ OP_0NOTEQUAL then
    opNumeric1 opcode
  else if opcode = OP_ADD ∨ opcode = OP_SUB ∨ OP_BOOLAND ≤ opcode ∧ opcode ≤ OP_MAX then
    opNumeric2 opcode
  else if opcode = OP_WITHIN then opWithin
  -- crypto
  else if OP_RIPEMD160 ≤ opcode ∧ opcode ≤ OP_HASH256 then env.opHash opcode
  else if opcode = OP_CODESEPARATOR then modify fun s => { s with pbegincodehash := pc }
  else if opcode = OP_CHECKSIG ∨ opcode = OP_CHECKSIGVERIFY then
    env.opCheckSig (opcode == OP_CHECKSIGVERIFY)
  else if opcode = OP_CHECKMULTISIG ∨ opcode = OP_CHECKMULTISIGVERIFY then
    env.opCheckMultiSig (opcode == OP_CHECKMULTISIGVERIFY)
  else throw .fail

/-- `if (opcode > OP_16 && ++nOpCount > 201) return false`. -/
def countOp (opcode : UInt8) : Eval Unit :=
  if opcode > OP_16 then do
    modify fun s => { s with nOpCount := s.nOpCount + 1 }
    failIf ((← get).nOpCount > 201)
  else pure ()

/-- What `EvalScript` does with an operation that it has read and counted. -/
def dispatch (opcode : UInt8) (vchPushValue : Bytes) (fExec : Bool) (pc : CScript) : Eval Unit :=
  if fExec ∧ opcode ≤ OP_PUSHDATA4 then push vchPushValue
  else if fExec ∨ OP_IF ≤ opcode ∧ opcode ≤ OP_ENDIF then env.execute opcode fExec pc
  else pure ()

/-- One round of the loop of `EvalScript`, for an operation before a rest of the script. -/
def evalOp (opcode : UInt8) (vchPushValue : Bytes) (pc : CScript) : Eval Unit := do
  let fExec := (← get).fExec
  failIf (vchPushValue.length > 520)
  countOp opcode
  failIf (opcode ∈ disabledOpcodes)
  env.dispatch opcode vchPushValue fExec pc
  -- size limits
  failIf ((← get).stack.length + (← get).altstack.length > 1000)

/-- The loop of `EvalScript` over the rest of the script. -/
def evalLoop (pc : CScript) : Eval Unit :=
  if pc = [] then pure ()
  else match _h : pc.getOp2 with
    | none => throw .fail
    | some (opcode, vchPushValue, pc') => do
      env.evalOp opcode vchPushValue pc'
      evalLoop pc'
termination_by pc.length
decreasing_by exact CScript.length_lt_of_getOp2 _h

/-- The state in which `EvalScript` starts with a stack, after some calls of `CheckSig`. -/
def startState (stack : List Bytes) (script : CScript) : ScriptState :=
  { stack, pbegincodehash := script }

/-- `EvalScript`: what it returns, and the state that it leaves. -/
def evalScript (stack : List Bytes) (script : CScript) : Except Fault Bool × ScriptState :=
  if script.length > 10000 then (.ok false, startState stack script)
  else
    match outcome (env.evalLoop script) (startState stack script) with
    | (.ok (), s) => (.ok s.vfExec.isEmpty, s)
    | (.error .undefined, s) => (.error .undefined, s)
    | (.error _, s) => (.ok false, s)

end ScriptEnv

/-! ## Rules for the parts of operations -/

namespace Eval

variable {s : ScriptState} {E : Stop → ScriptState → Prop} {i j : ℕ}

variable {Q : Unit → ScriptState → Prop} {vch : Bytes}

@[simp] lemma leads_failIf {p : Prop} [Decidable p] :
    Leads (failIf p) Q E s ↔ if p then E .fail s else Q () s := by
  rw [failIf, leads_ite, leads_throw, leads_pure]

@[simp] lemma leads_need {n : ℕ} :
    Leads (need n) Q E s ↔ if s.stack.length < n then E .fail s else Q () s := by
  rw [need, leads_bind, leads_get, leads_failIf]

@[simp] lemma leads_stacktop {Q : Bytes → ScriptState → Prop} :
    Leads (stacktop i) Q E s ↔
      match s.stack[i - 1]? with
      | some vch => Q vch s
      | none => E .outOfRange s := by
  rw [stacktop, leads_bind, leads_get]
  cases s.stack[i - 1]? with
  | none => rfl
  | some vch => rfl

@[simp] lemma leads_popstack :
    Leads popstack Q E s ↔
      match s.stack with
      | [] => E .stackEmpty s
      | _ :: stack => Q () { s with stack } := by
  rw [popstack, leads_bind, leads_get]
  cases s.stack with
  | nil => rfl
  | cons vch stack => rfl

@[simp] lemma leads_push :
    Leads (push vch) Q E s ↔ Q () { s with stack := vch :: s.stack } := Iff.rfl

@[simp] lemma leads_erase :
    Leads (erase i j) Q E s ↔
      if i ≤ s.stack.length then Q () { s with stack := s.stack.take j ++ s.stack.drop i }
      else E .undefined s := by
  rw [erase, leads_bind, leads_get, leads_ite, leads_modify, leads_throw]

@[simp] lemma leads_insert :
    Leads (insert i vch) Q E s ↔
      if i ≤ s.stack.length then Q () { s with stack := s.stack.take i ++ vch :: s.stack.drop i }
      else E .undefined s := by
  rw [insert, leads_bind, leads_get, leads_ite, leads_modify, leads_throw]

@[simp] lemma leads_castToBigNum {Q : ℤ → ScriptState → Prop} :
    Leads (castToBigNum vch) Q E s ↔
      if vch.length > nMaxNumSize then E .overflow s else Q (setvch vch) s := by
  rw [castToBigNum, leads_ite, leads_throw, leads_pure]

end Eval

end HyperStake
