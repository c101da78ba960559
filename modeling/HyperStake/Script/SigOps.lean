import HyperStake.Script.Limits

/-!
# Counting the signature checks of a script

`GetSigOpCount` reads a script without running it and counts the signature checks that it may make.
A check of many signatures counts as 20 of them, or, in the accurate count, as the number that the
operation before it pushes.

The potential of a run, the checks made so far and the count of what is left, never grows: when the
operation before a check of many signatures pushes a number, that number is on top of the stack
where the check is executed (`Ready`).  So the counts bound what the interpreter does.
-/

namespace HyperStake

open LittleEndian Stopping Eval

def OP_INVALIDOPCODE : UInt8 := 0xff

namespace CScript

/-! ## The counters -/

def decodeOP_N (opcode : UInt8) : ℕ :=
  if opcode = OP_0 then 0 else opcode.toNat - (OP_1.toNat - 1)

/-- What `GetSigOpCount` counts for an opcode after another one. -/
def opSigOps (fAccurate : Bool) (lastOpcode opcode : UInt8) : ℕ :=
  if opcode = OP_CHECKSIG ∨ opcode = OP_CHECKSIGVERIFY then 1
  else if opcode = OP_CHECKMULTISIG ∨ opcode = OP_CHECKMULTISIGVERIFY then
    if fAccurate ∧ OP_1 ≤ lastOpcode ∧ lastOpcode ≤ OP_16 then decodeOP_N lastOpcode else 20
  else 0

/-- The loop of `GetSigOpCount` over the rest of a script. -/
def sigOpLoop (fAccurate : Bool) (n : UInt32) (lastOpcode : UInt8) (pc : CScript) : UInt32 :=
  match _h : getOp2 pc with
  | none => n
  | some (opcode, _, pc') =>
    sigOpLoop fAccurate (n + UInt32.ofNat (opSigOps fAccurate lastOpcode opcode)) opcode pc'
termination_by pc.length
decreasing_by exact length_lt_of_getOp2 _h

/-- `GetSigOpCount`, accurate or not. -/
def getSigOpCount (fAccurate : Bool) (s : CScript) : UInt32 :=
  sigOpLoop fAccurate 0 OP_INVALIDOPCODE s

def isPayToScriptHash (s : CScript) : Bool :=
  s.length = 23 && s[0]? = some OP_HASH160 && s[1]? = some 0x14 && s[22]? = some OP_EQUAL

/-- The loop of `GetSigOpCount` over the rest of the script of an input, with the data that was read
last: the last data, or none if something else than data is pushed. -/
def lastPush (data : Bytes) (pc : CScript) : Option Bytes :=
  if pc = [] then some data
  else match _h : getOp2 pc with
    | none => none
    | some (opcode, data', pc') => if opcode > OP_16 then none else lastPush data' pc'
termination_by pc.length
decreasing_by exact length_lt_of_getOp2 _h

/-- `GetSigOpCount` of the script of an output, for the script of the input that claims it. -/
def getSigOpCountFor (s scriptSig : CScript) : UInt32 :=
  if !s.isPayToScriptHash then s.getSigOpCount true
  else match lastPush [] scriptSig with
    | none => 0
    | some subscript => getSigOpCount true subscript

def isPushOnly (pc : CScript) : Bool :=
  if pc = [] then true
  else match _h : getOp2 pc with
    | none => false
    | some (opcode, _, pc') => if opcode > OP_16 then false else isPushOnly pc'
termination_by pc.length
decreasing_by exact length_lt_of_getOp2 _h

end CScript

/-- What `VerifyScript` returns, and how often each of its calls of `EvalScript` calls `CheckSig`. -/
structure Verification where
  result : Except Fault Bool
  nChecksSig : ℕ := 0
  nChecksPubKey : ℕ := 0
  nChecksRedeem : ℕ := 0

def ScriptEnv.verifyScript (env : ScriptEnv) (scriptSig scriptPubKey : CScript)
    (fValidatePayToScriptHash : Bool) : Verification :=
  let (fSig, s) := env.evalScript [] scriptSig
  if fSig ≠ .ok true then { result := fSig, nChecksSig := s.nChecks }
  else
    let (fPubKey, s') := env.evalScript s.stack scriptPubKey
    let done (result : Except Fault Bool) : Verification :=
      { result, nChecksSig := s.nChecks, nChecksPubKey := s'.nChecks }
    if fPubKey ≠ .ok true then done fPubKey
    else match s'.stack with
      | [] => done (.ok false)
      | vch :: _ =>
        if !castToBool vch then done (.ok false)
        -- additional validation for spend-to-script-hash transactions
        else if fValidatePayToScriptHash && scriptPubKey.isPayToScriptHash then
          if !scriptSig.isPushOnly then done (.ok false)
          else match s.stack with
            | [] => done (.error .undefined)
            | pubKeySerialized :: stackCopy =>
              let (fRedeem, s'') := env.evalScript stackCopy pubKeySerialized
              let result := match fRedeem, s''.stack with
                | .ok true, [] => .ok false
                | .ok true, vch :: _ => .ok (castToBool vch)
                | fRedeem, _ => fRedeem
              { done result with nChecksRedeem := s''.nChecks }
        else done (.ok true)

/-! ## The counts of a list of opcodes -/

namespace CScript

/-- The opcodes of a script, as far as it can be read. -/
def opcodes (pc : CScript) : List UInt8 :=
  match _h : getOp2 pc with
  | none => []
  | some (opcode, _, pc') => opcode :: opcodes pc'
termination_by pc.length
decreasing_by exact length_lt_of_getOp2 _h

/-- What `GetSigOpCount` counts for some opcodes after another one. -/
def sigOps (fAccurate : Bool) : UInt8 → List UInt8 → ℕ
  | _, [] => 0
  | lastOpcode, opcode :: ops => opSigOps fAccurate lastOpcode opcode + sigOps fAccurate opcode ops

variable {s pc pc' : CScript} {opcode lastOpcode : UInt8} {vch : Bytes} {fAccurate : Bool}

lemma opcodes_of_getOp2 (h : getOp2 pc = some (opcode, vch, pc')) :
    opcodes pc = opcode :: opcodes pc' := by
  rw [opcodes]
  split
  · next hnone =>
    rw [h] at hnone
    cases hnone
  · next hsome =>
    rw [h] at hsome
    cases hsome
    rfl

lemma opcodes_of_none (h : getOp2 pc = none) : opcodes pc = [] := by
  rw [opcodes]
  split
  · rfl
  · next hsome =>
    rw [h] at hsome
    cases hsome

lemma sigOpLoop_eq (n : UInt32) :
    sigOpLoop fAccurate n lastOpcode pc =
      n + UInt32.ofNat (sigOps fAccurate lastOpcode (opcodes pc)) := by
  induction hn : pc.length using Nat.strong_induction_on generalizing pc lastOpcode n with
  | _ k ih =>
    rw [sigOpLoop]
    split
    · next hnone =>
      rw [opcodes_of_none hnone]
      exact (UInt32.add_zero n).symm
    · next op _ pc' hsome =>
      have hlt := length_lt_of_getOp2 hsome
      rw [ih pc'.length (hn ▸ hlt) _ rfl, opcodes_of_getOp2 hsome, sigOps, UInt32.ofNat_add,
        UInt32.add_assoc]

lemma getSigOpCount_eq : getSigOpCount fAccurate s =
    UInt32.ofNat (sigOps fAccurate OP_INVALIDOPCODE (opcodes s)) := by
  rw [getSigOpCount, sigOpLoop_eq, UInt32.zero_add]

lemma decodeOP_N_le (h : opcode ≤ OP_16) : decodeOP_N opcode ≤ 20 := by
  have hle : opcode.toNat ≤ 0x60 := UInt8.le_iff_toNat_le.mp h
  have hone : OP_1.toNat = 0x51 := rfl
  unfold decodeOP_N
  split_ifs
  · exact Nat.zero_le _
  · omega

lemma opSigOps_le (lastOpcode opcode : UInt8) :
    opSigOps true lastOpcode opcode ≤ opSigOps false lastOpcode opcode ∧
      opSigOps false lastOpcode opcode ≤ 20 := by
  simp only [opSigOps, Bool.false_eq_true, false_and, if_false, true_and]
  split_ifs with _ _ hlast
  · exact ⟨le_refl _, by decide⟩
  · exact ⟨decodeOP_N_le hlast.2, le_refl _⟩
  · exact ⟨le_refl _, le_refl _⟩
  · exact ⟨le_refl _, by decide⟩

/-- The accurate count is no greater than the other one. -/
lemma sigOps_true_le (lastOpcode : UInt8) (ops : List UInt8) :
    sigOps true lastOpcode ops ≤ sigOps false lastOpcode ops := by
  induction ops generalizing lastOpcode with
  | nil => exact le_refl _
  | cons opcode ops ih => exact Nat.add_le_add (opSigOps_le lastOpcode opcode).1 (ih opcode)

lemma sigOps_false_le (lastOpcode : UInt8) (ops : List UInt8) :
    sigOps false lastOpcode ops ≤ 20 * ops.length := by
  induction ops generalizing lastOpcode with
  | nil => exact le_refl _
  | cons opcode ops ih =>
    have hfirst := (opSigOps_le lastOpcode opcode).2
    have hrest := ih opcode
    rw [sigOps, List.length_cons]
    omega

lemma length_opcodes_le (pc : CScript) : (opcodes pc).length ≤ pc.length := by
  induction hn : pc.length using Nat.strong_induction_on generalizing pc with
  | _ k ih =>
    cases hop : getOp2 pc with
    | none =>
      rw [opcodes_of_none hop]
      exact Nat.zero_le _
    | some op =>
      obtain ⟨opcode, vch, pc'⟩ := op
      have hlt := length_lt_of_getOp2 hop
      have hrest := ih pc'.length (hn ▸ hlt) pc' rfl
      rw [opcodes_of_getOp2 hop, List.length_cons]
      omega

lemma sigOps_le (fAccurate : Bool) (s : CScript) :
    sigOps fAccurate OP_INVALIDOPCODE (opcodes s) ≤ 20 * s.length := by
  have hfalse := sigOps_false_le OP_INVALIDOPCODE (opcodes s)
  have htrue := sigOps_true_le OP_INVALIDOPCODE (opcodes s)
  have hlength := length_opcodes_le s
  cases fAccurate <;> omega

lemma toNat_getSigOpCount_le : (getSigOpCount fAccurate s).toNat ≤ 20 * s.length := by
  rw [getSigOpCount_eq, UInt32.toNat_ofNat']
  exact (Nat.mod_le _ _).trans (sigOps_le fAccurate s)

/-- The counter of a script that is not too long does not wrap around. -/
lemma toNat_getSigOpCount (hsize : 20 * s.length < 2 ^ 32) :
    (getSigOpCount fAccurate s).toNat = sigOps fAccurate OP_INVALIDOPCODE (opcodes s) := by
  rw [getSigOpCount_eq, UInt32.toNat_ofNat',
    Nat.mod_eq_of_lt ((sigOps_le fAccurate s).trans_lt hsize)]

/-- The data of an operation is part of the script. -/
lemma length_le_of_getOp2 (h : getOp2 s = some (opcode, vch, pc)) : vch.length ≤ s.length := by
  cases s with
  | nil => cases h
  | cons byte s =>
    simp only [getOp2] at h
    split_ifs at h <;> simp only [Option.some.injEq, Prod.mk.injEq] at h <;> rw [← h.2.1] <;>
      simp only [List.length_take, List.length_cons, List.length_drop, List.length_nil] <;> omega

/-- The data that is read last is part of the script. -/
lemma length_lastPush_le {data data' : Bytes} (h : lastPush data s = some data') :
    data'.length ≤ data.length ∨ data'.length ≤ s.length := by
  induction hn : s.length using Nat.strong_induction_on generalizing s data with
  | _ k ih =>
    rw [lastPush] at h
    split_ifs at h with hnil
    · cases h
      exact Or.inl (le_refl _)
    split at h
    · cases h
    next opcode vch pc' hop =>
    split_ifs at h
    have hlt := length_lt_of_getOp2 hop
    have hvch := length_le_of_getOp2 hop
    rcases ih pc'.length (hn ▸ hlt) h rfl with hle | hle
    · exact Or.inr (by omega)
    · exact Or.inr (by omega)

lemma toNat_getSigOpCountFor_le {scriptSig : CScript} (h : s.isPayToScriptHash = true) :
    (s.getSigOpCountFor scriptSig).toNat ≤ 20 * scriptSig.length := by
  rw [getSigOpCountFor, h]
  match hlast : lastPush [] scriptSig with
  | none => exact Nat.zero_le _
  | some data =>
    have hle : data.length ≤ scriptSig.length := by
      rcases length_lastPush_le hlast with hnil | hle
      · exact (Nat.le_zero.mp hnil).symm ▸ Nat.zero_le _
      · exact hle
    exact toNat_getSigOpCount_le.trans (Nat.mul_le_mul_left 20 hle)

end CScript

/-! ## The checks of a run -/

/-- After an opcode that pushes a number, the number is on top of the stack if the branch that the
opcode is in is taken. -/
def Ready (lastOpcode : UInt8) (s : ScriptState) : Prop :=
  OP_1 ≤ lastOpcode → lastOpcode ≤ OP_16 → s.fExec = true →
    s.stack.head? = some (CScript.getvch (CScript.decodeOP_N lastOpcode))

/-- The numbers that opcodes push are read back. -/
lemma getint_setvch_getvch {n : ℕ} (h : n ≤ 16) : getint (setvch (CScript.getvch n)) = n := by
  have hall : ∀ n : Fin 17, getint (setvch (CScript.getvch (n.1 : ℤ))) = (n.1 : ℤ) := by decide
  exact hall ⟨n, by omega⟩

namespace ScriptEnv

variable (env : ScriptEnv) {s : ScriptState}

lemma ready_invalid (s : ScriptState) : Ready OP_INVALIDOPCODE s := by
  intro _ hle
  exact absurd hle (by decide)

variable {opcode : UInt8}

/-- An opcode that pushes a number leaves it on top of the stack. -/
lemma ready_evalOp {vch : Bytes} {pc : CScript} :
    Leads (env.evalOp opcode vch pc) (fun _ s' => Ready opcode s') (fun _ _ => True) s := by
  by_cases hnumber : OP_1 ≤ opcode ∧ opcode ≤ OP_16
  · have hge : 0x51 ≤ opcode.toNat := UInt8.le_iff_toNat_le.mp hnumber.1
    have hle : opcode.toNat ≤ 0x60 := UInt8.le_iff_toNat_le.mp hnumber.2
    have hpush : ¬ opcode ≤ OP_PUSHDATA4 := by
      intro h
      have hle' : opcode.toNat ≤ 0x4e := UInt8.le_iff_toNat_le.mp h
      omega
    have hif : ¬ (OP_IF ≤ opcode ∧ opcode ≤ OP_ENDIF) := by
      rintro ⟨h, -⟩
      have hge' : 0x63 ≤ opcode.toNat := UInt8.le_iff_toNat_le.mp h
      omega
    have hcount : ¬ opcode > OP_16 := UInt8.not_lt.mpr hnumber.2
    have hdispatch : env.dispatch opcode vch s.fExec pc =
        if s.fExec = true then opNumber opcode else pure () := by
      rw [dispatch, if_neg fun h => hpush h.2]
      by_cases hexec : s.fExec = true
      · rw [if_pos (Or.inl hexec), if_pos hexec, execute, if_pos (Or.inr hnumber)]
      · rw [if_neg fun h => h.elim hexec hif, if_neg hexec]
    have hvalue : (opcode.toNat : ℤ) - ((OP_1.toNat : ℤ) - 1) = CScript.decodeOP_N opcode := by
      have hone : OP_1.toNat = 0x51 := rfl
      have hne : opcode ≠ OP_0 := by
        rintro rfl
        exact absurd hge (by decide)
      rw [CScript.decodeOP_N, if_neg hne]
      omega
    by_cases hexec : s.fExec = true
    · simp only [evalOp, leads_bind, leads_get, leads_failIf, countOp, if_neg hcount, leads_pure,
        hdispatch, if_pos hexec, opNumber, leads_push, hvalue]
      split_ifs
      exact fun _ _ _ => rfl
    · simp only [evalOp, leads_bind, leads_get, leads_failIf, countOp, if_neg hcount, leads_pure,
        hdispatch, if_neg hexec]
      split_ifs
      exact fun _ _ hexec' => absurd hexec' hexec
  · rw [leads_iff]
    exact ⟨fun _ _ _ hge hle => absurd ⟨hge, hle⟩ hnumber, fun _ _ _ => trivial⟩

/-- In a round of the loop, no more signatures are checked than are counted for its opcode. -/
lemma leads_evalOp_opSigOps {lastOpcode : UInt8} (hs : s.Limited) (hready : Ready lastOpcode s)
    (opcode : UInt8) (vch : Bytes) (pc : CScript) :
    Leads (env.evalOp opcode vch pc)
      (fun _ s' => (s'.Limited ∧
        s'.nChecks ≤ s.nChecks + CScript.opSigOps true lastOpcode opcode) ∧ Ready opcode s')
      (fun _ s' => s'.nChecks ≤ s.nChecks + CScript.opSigOps true lastOpcode opcode) s := by
  -- the number of keys that the count allows
  have hkeys : ∃ n, checksOf n opcode = CScript.opSigOps true lastOpcode opcode ∧
      (s.fExec = true →
        ∀ vch ∈ s.stack.head?, getint (setvch vch) ≤ 20 → getint (setvch vch) ≤ (n : ℤ)) := by
    by_cases hnumber : OP_1 ≤ lastOpcode ∧ lastOpcode ≤ OP_16
    · refine ⟨CScript.decodeOP_N lastOpcode, ?_, fun hexec vch hvch _ => ?_⟩
      · simp only [checksOf, CScript.opSigOps, true_and, if_pos hnumber]
      · have hle : CScript.decodeOP_N lastOpcode ≤ 16 := by
          have hle' : lastOpcode.toNat ≤ 0x60 := UInt8.le_iff_toNat_le.mp hnumber.2
          have hone : OP_1.toNat = 0x51 := rfl
          unfold CScript.decodeOP_N
          split_ifs <;> omega
        rw [hready hnumber.1 hnumber.2 hexec, Option.mem_some_iff] at hvch
        rw [← hvch, getint_setvch_getvch hle]
    · refine ⟨20, ?_, fun _ _ _ hle => hle⟩
      simp only [checksOf, CScript.opSigOps, true_and, if_neg hnumber]
  obtain ⟨n, hcost, hn⟩ := hkeys
  rw [← hcost]
  exact ((env.leads_evalOp hs opcode vch pc hn).and env.ready_evalOp).mono (fun _ _ h => h)
    fun _ _ h => h.1.2

variable {script scriptSig scriptPubKey : CScript} {stack : List Bytes}

/-- The loop checks no more signatures than are counted for the opcodes that are left. -/
lemma leads_evalLoop_sigOps (hs : s.Limited) :
    Leads (env.evalLoop script)
      (fun _ s' => s'.nChecks ≤
        s.nChecks + CScript.sigOps true OP_INVALIDOPCODE (CScript.opcodes script))
      (fun _ s' => s'.nChecks ≤
        s.nChecks + CScript.sigOps true OP_INVALIDOPCODE (CScript.opcodes script)) s := by
  set total := s.nChecks + CScript.sigOps true OP_INVALIDOPCODE (CScript.opcodes script)
  have hloop : Leads (env.evalLoop script) _ _ s := env.leads_evalLoop
    (I := fun pc s' => s'.Limited ∧ ∃ lastOpcode, Ready lastOpcode s' ∧
      s'.nChecks + CScript.sigOps true lastOpcode (CScript.opcodes pc) ≤ total)
    (E := fun _ s' => s'.nChecks ≤ total) ?_ ?_ ⟨hs, _, ready_invalid s, le_refl _⟩
  · refine hloop.mono (fun _ s' h => ?_) fun _ _ h => h
    obtain ⟨-, _, -, hle⟩ := h
    omega
  · rintro pc s' opcode vch pc' ⟨hs', lastOpcode, hready, hle⟩ hop
    rw [CScript.opcodes_of_getOp2 hop, CScript.sigOps] at hle
    refine (env.leads_evalOp_opSigOps hs' hready opcode vch pc').mono ?_ ?_
    · rintro _ s'' ⟨⟨hs'', hchecks⟩, hready'⟩
      exact ⟨hs'', opcode, hready', by omega⟩
    · intro _ s'' hchecks
      omega
  · rintro pc s' ⟨-, _, -, hle⟩
    omega

/-- `EvalScript` checks no more signatures than the accurate count. -/
lemma nChecks_evalScript_le (hsize : stack.length ≤ 1000)
    (hsmall : ∀ vch ∈ stack, vch.length ≤ 520) :
    (env.evalScript stack script).2.nChecks ≤ (script.getSigOpCount true).toNat := by
  have hstart : (startState stack script).Limited := ⟨⟨hsmall, by simp [startState]⟩, hsize⟩
  rw [evalScript]
  by_cases hlong : script.length > 10000
  · rw [if_pos hlong]
    exact Nat.zero_le _
  · have hloop : Leads (env.evalLoop script) _ _ _ := env.leads_evalLoop_sigOps hstart
    rw [if_neg hlong, CScript.toNat_getSigOpCount (by omega)]
    have hzero : (startState stack script).nChecks = 0 := rfl
    rw [hzero, Nat.zero_add, Leads] at hloop
    rcases hout : outcome (env.evalLoop script) (startState stack script) with ⟨stop | ⟨⟩, s⟩
    · rw [hout] at hloop
      cases stop <;> exact hloop
    · rw [hout] at hloop
      exact hloop

/-! ## Pay to script hash -/

/-- The element on top of the stack is the data that was read last, or a script without checks. -/
def Pushed (data : Bytes) (s : ScriptState) : Prop :=
  ∀ top ∈ s.stack.head?,
    top = data ∨ CScript.sigOps true OP_INVALIDOPCODE (CScript.opcodes top) = 0

/-- The bytes of a pushed number make no script with checks. -/
lemma sigOps_getvch (h : opcode = OP_1NEGATE ∨ OP_1 ≤ opcode ∧ opcode ≤ OP_16) :
    CScript.sigOps true OP_INVALIDOPCODE
      (CScript.opcodes (CScript.getvch ((opcode.toNat : ℤ) - ((OP_1.toNat : ℤ) - 1)))) = 0 := by
  have hone : OP_1.toNat = 0x51 := rfl
  rcases h with rfl | ⟨hge, hle⟩
  · have hop : CScript.getOp2 (CScript.getvch ((OP_1NEGATE.toNat : ℤ) - ((OP_1.toNat : ℤ) - 1))) =
        some (OP_RIGHT, [], []) := by decide
    rw [CScript.opcodes_of_getOp2 hop, CScript.opcodes_of_none rfl]
    rfl
  · have hge' : 0x51 ≤ opcode.toNat := UInt8.le_iff_toNat_le.mp hge
    have hle' : opcode.toNat ≤ 0x60 := UInt8.le_iff_toNat_le.mp hle
    have hall : ∀ n : Fin 16, CScript.getOp2 (CScript.getvch ((n.1 : ℤ) + 1)) = none := by decide
    have hvalue : (opcode.toNat : ℤ) - ((OP_1.toNat : ℤ) - 1) =
        ((⟨opcode.toNat - 0x51, by omega⟩ : Fin 16).1 : ℤ) + 1 := by
      dsimp only
      omega
    rw [hvalue, CScript.opcodes_of_none (hall _)]
    rfl

/-- A round of the loop over an opcode that pushes. -/
lemma pushed_evalOp {vch : Bytes} {pc : CScript} (hexec : s.vfExec = []) (hle : opcode ≤ OP_16) :
    Leads (env.evalOp opcode vch pc) (fun _ s' => s'.vfExec = [] ∧ Pushed vch s')
      (fun _ _ => True) s := by
  have hcount : ¬ opcode > OP_16 := UInt8.not_lt.mpr hle
  have hfExec : s.fExec = true := by rw [ScriptState.fExec, hexec]; rfl
  simp only [evalOp, leads_bind, leads_get, leads_failIf, countOp, if_neg hcount, leads_pure, hfExec]
  split_ifs
  by_cases hdata : opcode ≤ OP_PUSHDATA4
  · rw [dispatch, if_pos ⟨rfl, hdata⟩, leads_push]
    split_ifs
    exact ⟨hexec, fun top htop => Or.inl (Option.some.inj htop).symm⟩
  rw [dispatch, if_neg fun h => hdata h.2, if_pos (Or.inl rfl), execute]
  by_cases hnumber : opcode = OP_1NEGATE ∨ OP_1 ≤ opcode ∧ opcode ≤ OP_16
  · rw [if_pos hnumber, opNumber, leads_push]
    split_ifs
    refine ⟨hexec, fun top htop => Or.inr ?_⟩
    rw [← Option.some.inj htop]
    exact sigOps_getvch hnumber
  · -- what is left is `OP_RESERVED`
    have hreserved : opcode = 0x50 := by
      simp only [not_or, not_and, UInt8.le_iff_toNat_le, ← UInt8.toNat_inj] at hle hdata hnumber ⊢
      have h16 : OP_16.toNat = 0x60 := rfl
      have h4 : OP_PUSHDATA4.toNat = 0x4e := rfl
      have hnegate : OP_1NEGATE.toNat = 0x4f := rfl
      have hone : OP_1.toNat = 0x51 := rfl
      have hvalue : (0x50 : UInt8).toNat = 0x50 := rfl
      omega
    subst hreserved
    exact trivial

/-- What a script that only pushes does with its first operation. -/
lemma isPushOnly_of_getOp2 {pc pc' : CScript} {vch : Bytes}
    (hpush : pc.isPushOnly = true) (hop : pc.getOp2 = some (opcode, vch, pc')) :
    opcode ≤ OP_16 ∧ pc'.isPushOnly = true ∧
      ∀ data, CScript.lastPush data pc = CScript.lastPush vch pc' := by
  have hne : pc ≠ [] := by
    rintro rfl
    cases hop
  rw [CScript.isPushOnly, if_neg hne] at hpush
  split at hpush
  · cases hpush
  next op _ _ hsome =>
  rw [hop] at hsome
  cases hsome
  split_ifs at hpush with hcount
  refine ⟨UInt8.not_lt.mp hcount, hpush, fun data => ?_⟩
  rw [CScript.lastPush, if_neg hne]
  split
  · next hnone =>
    rw [hop] at hnone
    cases hnone
  · next hsome =>
    rw [hop] at hsome
    cases hsome
    rw [if_neg hcount]

/-- After a script that only pushes, the element on top of the stack is the one that is counted. -/
lemma pushed_evalLoop {pc : CScript} {data : Bytes} (hpush : pc.isPushOnly = true)
    (hexec : s.vfExec = []) (hdata : Pushed data s) :
    Leads (env.evalLoop pc)
      (fun _ s' => ∃ data', CScript.lastPush data pc = some data' ∧ Pushed data' s')
      (fun _ _ => True) s := by
  have hloop : Leads (env.evalLoop pc) _ _ s := env.leads_evalLoop
    (I := fun pc' s' => s'.vfExec = [] ∧ pc'.isPushOnly = true ∧
      ∃ data', CScript.lastPush data' pc' = CScript.lastPush data pc ∧ Pushed data' s')
    (E := fun _ _ => True) ?_ (fun _ _ _ => trivial) ⟨hexec, hpush, data, rfl, hdata⟩
  · refine hloop.mono (fun _ s' h => ?_) fun _ _ h => h
    obtain ⟨-, -, data', hlast, hdata'⟩ := h
    refine ⟨data', ?_, hdata'⟩
    rw [← hlast, CScript.lastPush, if_pos rfl]
  · rintro pc' s' opcode vch pc'' ⟨hexec', hpush', data', hlast, -⟩ hop
    obtain ⟨hle, hpush'', hlast'⟩ := isPushOnly_of_getOp2 hpush' hop
    refine (env.pushed_evalOp hexec' hle).mono (fun _ s'' h => ?_) fun _ _ h => h
    exact ⟨h.1, hpush'', vch, (hlast' data').symm.trans hlast, h.2⟩

/-- Where `EvalScript` returns true, its loop has come to the end of the script. -/
lemma outcome_of_evalScript (h : (env.evalScript stack script).1 = .ok true) :
    outcome (env.evalLoop script) (startState stack script) =
      (.ok (), (env.evalScript stack script).2) := by
  rw [evalScript] at h ⊢
  by_cases hlong : script.length > 10000
  · rw [if_pos hlong] at h
    cases h
  rw [if_neg hlong] at h ⊢
  rcases hout : outcome (env.evalLoop script) (startState stack script) with ⟨stop | ⟨⟩, s⟩
  · rw [hout] at h
    cases stop <;> cases h
  · rfl

/-- Where `EvalScript` returns true, the stack that it leaves is within the limits. -/
lemma limited_evalScript (hsize : stack.length ≤ 1000) (hsmall : ∀ vch ∈ stack, vch.length ≤ 520)
    (h : (env.evalScript stack script).1 = .ok true) : (env.evalScript stack script).2.Limited := by
  have hstart : (startState stack script).Limited := ⟨⟨hsmall, by simp [startState]⟩, hsize⟩
  have hloop : Leads (env.evalLoop script) _ (fun _ _ => True) _ :=
    env.leads_evalLoop (I := fun _ s => s.Limited)
      (fun pc s opcode vch pc' hs _ =>
        (env.leads_evalOp (n := 20) hs opcode vch pc' fun _ _ _ hle => hle).mono
          (fun _ _ hs' => hs'.1) fun _ _ _ => trivial)
      (fun _ _ _ => trivial) hstart
  rw [Leads, env.outcome_of_evalScript h] at hloop
  exact hloop

/-- The script on top of the stack after a script that only pushes checks no more signatures than are
counted for an output that pays to a script hash. -/
lemma nChecks_redeem_le {top : Bytes} {stackCopy : List Bytes}
    (hscriptHash : scriptPubKey.isPayToScriptHash = true)
    (hok : (env.evalScript [] scriptSig).1 = .ok true) (hpush : scriptSig.isPushOnly = true)
    (hstack : (env.evalScript [] scriptSig).2.stack = top :: stackCopy) :
    (env.evalScript stackCopy top).2.nChecks ≤ (scriptPubKey.getSigOpCountFor scriptSig).toNat := by
  have hlimited := env.limited_evalScript (by decide) (by simp) hok
  have hsize : stackCopy.length ≤ 1000 := by
    have hboth := hlimited.2
    rw [hstack, List.length_cons] at hboth
    omega
  have hsmall : ∀ vch ∈ stackCopy, vch.length ≤ 520 := by
    intro vch hvch
    refine hlimited.1.1 vch ?_
    rw [hstack]
    exact List.mem_cons_of_mem _ hvch
  have hempty : Pushed [] (startState [] scriptSig) := by simp [Pushed, startState]
  have hpushed := env.pushed_evalLoop hpush rfl hempty
  rw [Leads, env.outcome_of_evalScript hok] at hpushed
  obtain ⟨data, hlast, hdata⟩ := hpushed
  refine (env.nChecks_evalScript_le hsize hsmall).trans ?_
  rw [CScript.getSigOpCountFor, hscriptHash, hlast]
  rcases hdata top (by rw [hstack]; rfl) with rfl | hzero
  · exact le_refl _
  · rw [CScript.getSigOpCount_eq, hzero]
    exact Nat.zero_le _

/-- In the verification of an input of a pay-to-script-hash output, the redeem script checks no more
signatures than are counted for the input. -/
lemma nChecksRedeem_le (hscriptHash : scriptPubKey.isPayToScriptHash = true)
    (fValidatePayToScriptHash : Bool) :
    (env.verifyScript scriptSig scriptPubKey fValidatePayToScriptHash).nChecksRedeem ≤
      (scriptPubKey.getSigOpCountFor scriptSig).toNat := by
  rcases hsig : env.evalScript [] scriptSig with ⟨fSig, s⟩
  rcases hpubKey : env.evalScript s.stack scriptPubKey with ⟨fPubKey, s'⟩
  simp only [verifyScript, hsig, hpubKey]
  by_cases hfail : fSig ≠ .ok true
  · rw [if_pos hfail]
    exact Nat.zero_le _
  rw [if_neg hfail]
  by_cases hfail' : fPubKey ≠ .ok true
  · rw [if_pos hfail']
    exact Nat.zero_le _
  rw [if_neg hfail']
  match s'.stack with
  | [] => exact Nat.zero_le _
  | vch :: _ =>
    dsimp only
    split_ifs with hfalse hredeem hpushOnly
    · exact Nat.zero_le _
    · exact Nat.zero_le _
    · match hstack : s.stack with
      | [] => exact Nat.zero_le _
      | pubKeySerialized :: stackCopy =>
        have hok : (env.evalScript [] scriptSig).1 = .ok true := by rw [hsig, not_not.mp hfail]
        refine env.nChecks_redeem_le hscriptHash hok (by simpa using hpushOnly) ?_
        rw [hsig, hstack]
    · exact Nat.zero_le _

/-- `EvalScript` checks no more signatures than the count that is not accurate. -/
lemma nChecks_evalScript_le_false (hsize : stack.length ≤ 1000)
    (hsmall : ∀ vch ∈ stack, vch.length ≤ 520) :
    (env.evalScript stack script).2.nChecks ≤ (script.getSigOpCount false).toNat := by
  by_cases hlong : script.length > 10000
  · rw [evalScript, if_pos hlong]
    exact Nat.zero_le _
  · refine (env.nChecks_evalScript_le hsize hsmall).trans ?_
    rw [CScript.toNat_getSigOpCount (by omega), CScript.toNat_getSigOpCount (by omega)]
    exact CScript.sigOps_true_le _ _

/-- In the verification of an input, its script and the script of the output check no more signatures
than are counted for them. -/
lemma nChecks_verifyScript_le (scriptSig scriptPubKey : CScript) (fValidatePayToScriptHash : Bool) :
    (env.verifyScript scriptSig scriptPubKey fValidatePayToScriptHash).nChecksSig ≤
        (scriptSig.getSigOpCount false).toNat ∧
      (env.verifyScript scriptSig scriptPubKey fValidatePayToScriptHash).nChecksPubKey ≤
        (scriptPubKey.getSigOpCount false).toNat := by
  have hsigLe : (env.evalScript [] scriptSig).2.nChecks ≤ (scriptSig.getSigOpCount false).toNat :=
    env.nChecks_evalScript_le_false (by decide) (by simp)
  have hlimited : (env.evalScript [] scriptSig).1 = .ok true →
      (env.evalScript [] scriptSig).2.Limited := env.limited_evalScript (by decide) (by simp)
  rcases hsig : env.evalScript [] scriptSig with ⟨fSig, s⟩
  rcases hpubKey : env.evalScript s.stack scriptPubKey with ⟨fPubKey, s'⟩
  rw [hsig] at hsigLe hlimited
  simp only [verifyScript, hsig, hpubKey]
  by_cases hfail : fSig ≠ .ok true
  · rw [if_pos hfail]
    exact ⟨hsigLe, Nat.zero_le _⟩
  have hs := hlimited (not_not.mp hfail)
  have hsize : s.stack.length ≤ 1000 := le_trans (Nat.le_add_right _ _) hs.2
  have hpubKeyLe : (env.evalScript s.stack scriptPubKey).2.nChecks ≤
      (scriptPubKey.getSigOpCount false).toNat := env.nChecks_evalScript_le_false hsize hs.1.1
  rw [hpubKey] at hpubKeyLe
  rw [if_neg hfail]
  by_cases hfail' : fPubKey ≠ .ok true
  · rw [if_pos hfail']
    exact ⟨hsigLe, hpubKeyLe⟩
  rw [if_neg hfail']
  match s'.stack with
  | [] => exact ⟨hsigLe, hpubKeyLe⟩
  | vch :: _ =>
    dsimp only
    split_ifs
    · exact ⟨hsigLe, hpubKeyLe⟩
    · exact ⟨hsigLe, hpubKeyLe⟩
    · match s.stack with
      | [] => exact ⟨hsigLe, hpubKeyLe⟩
      | _ :: _ => exact ⟨hsigLe, hpubKeyLe⟩
    · exact ⟨hsigLe, hpubKeyLe⟩

/-- Without a script hash, no redeem script is executed. -/
lemma nChecksRedeem_eq_zero (hscriptHash : ¬ scriptPubKey.isPayToScriptHash = true)
    (fValidatePayToScriptHash : Bool) :
    (env.verifyScript scriptSig scriptPubKey fValidatePayToScriptHash).nChecksRedeem = 0 := by
  rcases hsig : env.evalScript [] scriptSig with ⟨fSig, s⟩
  rcases hpubKey : env.evalScript s.stack scriptPubKey with ⟨fPubKey, s'⟩
  simp only [verifyScript, hsig, hpubKey, Bool.eq_false_iff.mpr hscriptHash, Bool.and_false,
    Bool.false_eq_true, if_false]
  by_cases hfail : fSig ≠ .ok true
  · rw [if_pos hfail]
  rw [if_neg hfail]
  by_cases hfail' : fPubKey ≠ .ok true
  · rw [if_pos hfail']
  rw [if_neg hfail']
  match s'.stack with
  | [] => rfl
  | vch :: _ =>
    dsimp only
    split_ifs
    · rfl
    · rfl

end ScriptEnv

end HyperStake
