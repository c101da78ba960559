import HyperStake.Script.MultiSig

/-!
# Limits of the script machine

Every operation keeps the limit on the size of the elements, and reads and takes only elements that
are there: its check of the size of the stack covers its accesses (`Safe`).  The loop keeps the
limit on the size of the stacks.  So the only stops are `return false` and a number that is too
long, and `EvalScript` reports all of them as false.
-/

namespace HyperStake

open LittleEndian Stopping Eval

/-! ## Operations keep the limits -/

/-- The stop is `return false`, or the exception of a number that is too long. -/
def Stop.Clean (stop : Stop) : Prop := stop = .fail ∨ stop = .overflow

/-- The elements of the stacks are within the limit. -/
def ScriptState.Small (s : ScriptState) : Prop :=
  (∀ vch ∈ s.stack, vch.length ≤ 520) ∧ ∀ vch ∈ s.altstack, vch.length ≤ 520

/-- The elements and the sizes of the stacks are within the limits. -/
def ScriptState.Limited (s : ScriptState) : Prop :=
  s.Small ∧ s.stack.length + s.altstack.length ≤ 1000

/-- From a state, an operation leads to small elements or to a clean stop, with a number of calls of
`CheckSig` at most. -/
def SafeFrom (n : ℕ) (x : Eval Unit) (s : ScriptState) : Prop :=
  Leads x (fun _ s' => s'.Small ∧ s'.nChecks ≤ s.nChecks + n)
    (fun stop s' => stop.Clean ∧ s'.nChecks ≤ s.nChecks + n) s

/-- An operation is safe from all stacks within the limits. -/
def Safe (n : ℕ) (x : Eval Unit) : Prop := ∀ s : ScriptState, s.Limited → SafeFrom n x s

variable {s : ScriptState}

lemma SafeFrom.mono {n n' : ℕ} {x : Eval Unit} (h : SafeFrom n x s)
    (hle : n ≤ n') : SafeFrom n' x s :=
  Leads.mono h (fun _ _ hs => ⟨hs.1, hs.2.trans (Nat.add_le_add_left hle _)⟩)
    fun _ _ hs => ⟨hs.1, hs.2.trans (Nat.add_le_add_left hle _)⟩

lemma SafeFrom.ite {n : ℕ} {x y : Eval Unit} {p : Prop} [Decidable p]
    (hx : p → SafeFrom n x s) (hy : ¬ p → SafeFrom n y s) :
    SafeFrom n (if p then x else y) s := by
  by_cases hp : p
  · rw [if_pos hp]
    exact hx hp
  · rw [if_neg hp]
    exact hy hp

lemma SafeFrom.skip {n : ℕ} {x y : Eval Unit} {p : Prop} [Decidable p]
    (hs : s.Limited) (hx : Safe 0 x) (hy : SafeFrom n y s) : SafeFrom n (if p then x else y) s :=
  .ite (fun _ => (hx s hs).mono (Nat.zero_le _)) fun _ => hy

namespace Eval

lemma length_getvch_le {n : ℤ} (hn : n.natAbs < 2 ^ 64) : (CScript.getvch n).length ≤ 520 := by
  rw [CScript.getvch]
  by_cases hzero : n = 0
  · rw [if_pos hzero]
    simp
  · rw [if_neg hzero, leBytes_length]
    have hlog : n.natAbs.log2 < 64 := (Nat.log2_lt (Int.natAbs_ne_zero.mpr hzero)).mpr hn
    omega

lemma natAbs_setvch_lt {vch : Bytes} (h : ¬ vch.length > nMaxNumSize) :
    (setvch vch).natAbs < 2 ^ 32 := by
  have hlt := leValue_lt vch
  have hpow : 256 ^ vch.length ≤ 256 ^ 4 := Nat.pow_le_pow_right (by decide) (not_lt.mp h)
  have hsign : ((2 ^ (8 * vch.length - 1) : ℕ) : ℤ) = 2 ^ (8 * vch.length - 1) := by norm_num
  rw [setvch, ← hsign]
  generalize 2 ^ (8 * vch.length - 1) = sign
  by_cases hsmall : leValue vch < sign
  · rw [if_pos hsmall]
    omega
  · rw [if_neg hsmall]
    omega

lemma natAbs_ite_lt {p : Prop} [Decidable p] {a b : ℤ} {n : ℕ} (ha : a.natAbs < n)
    (hb : b.natAbs < n) : (if p then a else b).natAbs < n := by
  by_cases hp : p
  · rwa [if_pos hp]
  · rwa [if_neg hp]

variable (opcode : UInt8)

lemma length_numeric1_le {vch : Bytes} (h : ¬ vch.length > nMaxNumSize) :
    (CScript.getvch (numeric1 opcode (setvch vch))).length ≤ 520 := by
  have hbn := natAbs_setvch_lt h
  generalize setvch vch = bn at hbn
  apply length_getvch_le
  unfold numeric1
  repeat' apply natAbs_ite_lt
  all_goals omega

lemma length_numeric2_le {vch1 vch2 : Bytes} (h1 : ¬ vch1.length > nMaxNumSize)
    (h2 : ¬ vch2.length > nMaxNumSize) :
    (CScript.getvch (numeric2 opcode (setvch vch1) (setvch vch2))).length ≤ 520 := by
  have hbn1 := natAbs_setvch_lt h1
  have hbn2 := natAbs_setvch_lt h2
  generalize setvch vch1 = bn1 at hbn1
  generalize setvch vch2 = bn2 at hbn2
  apply length_getvch_le
  unfold numeric2
  repeat' apply natAbs_ite_lt
  all_goals omega

lemma safe_opNumber : Safe 0 (opNumber opcode) := by
  intro s hs
  have hlt : ((opcode.toNat : ℤ) - ((OP_1.toNat : ℤ) - 1)).natAbs < 2 ^ 64 := by
    have hop := opcode.toNat_lt
    have hone : OP_1.toNat = 0x51 := rfl
    omega
  exact ⟨⟨List.forall_mem_cons.mpr ⟨length_getvch_le hlt, hs.1.1⟩, hs.1.2⟩, le_refl _⟩

lemma safe_nop : Safe 0 (pure ()) := fun _ hs => ⟨hs.1, le_refl _⟩

lemma safe_throw : Safe 0 (throw .fail) := fun _ _ => ⟨Or.inl rfl, le_refl _⟩

lemma safe_opIf (fNot fExec : Bool) : Safe 0 (opIf fNot fExec) := by
  rintro ⟨stack, _, _, _, _, _⟩ ⟨hs, -⟩
  cases fExec with
  | false => exact ⟨hs, le_refl _⟩
  | true =>
    match stack with
    | [] => simp [SafeFrom, opIf, Stop.Clean]
    | vch :: stack =>
      simp [SafeFrom, opIf, ScriptState.Small] at hs ⊢
      tauto

lemma safe_opElse : Safe 0 opElse := by
  rintro ⟨_, _, vfExec, _, _, _⟩ ⟨hs, -⟩
  cases vfExec with
  | nil => exact ⟨Or.inl rfl, le_refl _⟩
  | cons fValue vfExec => exact ⟨hs, le_refl _⟩

lemma safe_opEndif : Safe 0 opEndif := by
  rintro ⟨_, _, vfExec, _, _, _⟩ ⟨hs, -⟩
  cases vfExec with
  | nil => exact ⟨Or.inl rfl, le_refl _⟩
  | cons fValue vfExec => exact ⟨hs, le_refl _⟩

lemma safe_opVerify : Safe 0 opVerify := by
  rintro ⟨stack, _, _, _, _, _⟩ ⟨hs, -⟩
  match stack with
  | [] => simp [SafeFrom, opVerify, Stop.Clean]
  | vch :: stack =>
    simp [SafeFrom, opVerify, Stop.Clean, ScriptState.Small] at hs ⊢
    tauto

lemma safe_opToAltStack : Safe 0 opToAltStack := by
  rintro ⟨stack, _, _, _, _, _⟩ ⟨hs, -⟩
  match stack with
  | [] => simp [SafeFrom, opToAltStack, Stop.Clean]
  | vch :: stack =>
    simp [SafeFrom, opToAltStack, ScriptState.Small] at hs ⊢
    tauto

lemma safe_opFromAltStack : Safe 0 opFromAltStack := by
  rintro ⟨_, altstack, _, _, _, _⟩ ⟨hs, -⟩
  match altstack with
  | [] => simp [SafeFrom, opFromAltStack, Stop.Clean]
  | vch :: altstack =>
    simp [SafeFrom, opFromAltStack, ScriptState.Small] at hs ⊢
    tauto

lemma safe_op2Drop : Safe 0 op2Drop := by
  rintro ⟨stack, _, _, _, _, _⟩ ⟨hs, -⟩
  match stack with
  | [] | [_] => simp [SafeFrom, op2Drop, Stop.Clean]
  | vch2 :: vch1 :: stack =>
    simp [SafeFrom, op2Drop, ScriptState.Small] at hs ⊢
    tauto

lemma safe_op2Dup : Safe 0 op2Dup := by
  rintro ⟨stack, _, _, _, _, _⟩ ⟨hs, -⟩
  match stack with
  | [] | [_] => simp [SafeFrom, op2Dup, Stop.Clean]
  | vch2 :: vch1 :: stack =>
    simp [SafeFrom, op2Dup, ScriptState.Small] at hs ⊢
    tauto

lemma safe_op3Dup : Safe 0 op3Dup := by
  rintro ⟨stack, _, _, _, _, _⟩ ⟨hs, -⟩
  match stack with
  | [] | [_] | [_, _] => simp [SafeFrom, op3Dup, Stop.Clean]
  | vch3 :: vch2 :: vch1 :: stack =>
    simp +arith [SafeFrom, op3Dup, ScriptState.Small, or_imp, forall_and] at hs ⊢
    tauto

lemma safe_op2Over : Safe 0 op2Over := by
  rintro ⟨stack, _, _, _, _, _⟩ ⟨hs, -⟩
  match stack with
  | [] | [_] | [_, _] | [_, _, _] => simp [SafeFrom, op2Over, Stop.Clean]
  | vch4 :: vch3 :: vch2 :: vch1 :: stack =>
    simp +arith [SafeFrom, op2Over, ScriptState.Small, or_imp, forall_and] at hs ⊢
    tauto

lemma safe_op2Rot : Safe 0 op2Rot := by
  rintro ⟨stack, _, _, _, _, _⟩ ⟨hs, -⟩
  match stack with
  | [] | [_] | [_, _] | [_, _, _] | [_, _, _, _] | [_, _, _, _, _] => simp [SafeFrom, op2Rot, Stop.Clean]
  | vch6 :: vch5 :: vch4 :: vch3 :: vch2 :: vch1 :: stack =>
    simp +arith [SafeFrom, op2Rot, ScriptState.Small, or_imp, forall_and] at hs ⊢
    tauto

lemma safe_op2Swap : Safe 0 op2Swap := by
  rintro ⟨stack, _, _, _, _, _⟩ ⟨hs, -⟩
  match stack with
  | [] | [_] | [_, _] | [_, _, _] => simp [SafeFrom, op2Swap, Stop.Clean]
  | vch4 :: vch3 :: vch2 :: vch1 :: stack =>
    simp +arith [SafeFrom, op2Swap, swap, ScriptState.Small, or_imp, forall_and] at hs ⊢
    tauto

lemma safe_opIfDup : Safe 0 opIfDup := by
  rintro ⟨stack, _, _, _, _, _⟩ ⟨hs, -⟩
  match stack with
  | [] => simp [SafeFrom, opIfDup, Stop.Clean]
  | vch :: stack =>
    simp [SafeFrom, opIfDup, ScriptState.Small] at hs ⊢
    tauto

lemma safe_opDepth : Safe 0 opDepth := by
  rintro s ⟨hs, hsize⟩
  have hlt : (s.stack.length : ℤ).natAbs < 2 ^ 64 := by omega
  exact ⟨⟨List.forall_mem_cons.mpr ⟨length_getvch_le hlt, hs.1⟩, hs.2⟩, le_refl _⟩

lemma safe_opDrop : Safe 0 opDrop := by
  rintro ⟨stack, _, _, _, _, _⟩ ⟨hs, -⟩
  match stack with
  | [] => simp [SafeFrom, opDrop, Stop.Clean]
  | vch :: stack =>
    simp [SafeFrom, opDrop, ScriptState.Small] at hs ⊢
    tauto

lemma safe_opDup : Safe 0 opDup := by
  rintro ⟨stack, _, _, _, _, _⟩ ⟨hs, -⟩
  match stack with
  | [] => simp [SafeFrom, opDup, Stop.Clean]
  | vch :: stack =>
    simp [SafeFrom, opDup, ScriptState.Small] at hs ⊢
    tauto

lemma safe_opNip : Safe 0 opNip := by
  rintro ⟨stack, _, _, _, _, _⟩ ⟨hs, -⟩
  match stack with
  | [] | [_] => simp [SafeFrom, opNip, Stop.Clean]
  | vch2 :: vch1 :: stack =>
    simp [SafeFrom, opNip, ScriptState.Small] at hs ⊢
    tauto

lemma safe_opOver : Safe 0 opOver := by
  rintro ⟨stack, _, _, _, _, _⟩ ⟨hs, -⟩
  match stack with
  | [] | [_] => simp [SafeFrom, opOver, Stop.Clean]
  | vch2 :: vch1 :: stack =>
    simp [SafeFrom, opOver, ScriptState.Small] at hs ⊢
    tauto

lemma safe_opRot : Safe 0 opRot := by
  rintro ⟨stack, _, _, _, _, _⟩ ⟨hs, -⟩
  match stack with
  | [] | [_] | [_, _] => simp [SafeFrom, opRot, Stop.Clean]
  | vch3 :: vch2 :: vch1 :: stack =>
    simp +arith [SafeFrom, opRot, swap, ScriptState.Small, or_imp, forall_and] at hs ⊢
    tauto

lemma safe_opSwap : Safe 0 opSwap := by
  rintro ⟨stack, _, _, _, _, _⟩ ⟨hs, -⟩
  match stack with
  | [] | [_] => simp [SafeFrom, opSwap, Stop.Clean]
  | vch2 :: vch1 :: stack =>
    simp [SafeFrom, opSwap, swap, ScriptState.Small] at hs ⊢
    tauto

lemma safe_opTuck : Safe 0 opTuck := by
  rintro ⟨stack, _, _, _, _, _⟩ ⟨hs, -⟩
  match stack with
  | [] | [_] => simp [SafeFrom, opTuck, Stop.Clean]
  | vch2 :: vch1 :: stack =>
    simp [SafeFrom, opTuck, ScriptState.Small, or_imp, forall_and] at hs ⊢
    tauto

lemma length_pushBool_le (fValue : Bool) : (if fValue then vchTrue else vchFalse).length ≤ 520 := by
  cases fValue with
  | false => exact Nat.zero_le _
  | true => decide

lemma safe_opPick (fRoll : Bool) : Safe 0 (opPick fRoll) := by
  rintro ⟨stack, _, _, _, _, _⟩ ⟨hs, -⟩
  match stack with
  | [] | [_] => simp [SafeFrom, opPick, Stop.Clean]
  | vch2 :: vch1 :: stack =>
    have htop : (vch2 :: vch1 :: stack)[1 - 1]? = some vch2 := rfl
    simp only [SafeFrom, opPick, leads_bind, leads_need, leads_stacktop, leads_castToBigNum, leads_popstack,
      leads_get, leads_failIf, htop]
    rw [if_neg (by simp)]
    generalize getint (setvch vch2) = n
    by_cases hsize : vch2.length > nMaxNumSize
    · rw [if_pos hsize]
      exact ⟨Or.inr rfl, le_refl _⟩
    by_cases hrange : n < 0 ∨ n ≥ (vch1 :: stack).length
    · rw [if_neg hsize, if_pos hrange]
      exact ⟨Or.inl rfl, le_refl _⟩
    · -- the number is a position in the stack
      have hlt : n.toNat < (vch1 :: stack).length := by omega
      have hget : (vch1 :: stack)[n.toNat + 1 - 1]? = some (vch1 :: stack)[n.toNat] :=
        List.getElem?_eq_getElem hlt
      have hmem := List.getElem_mem hlt
      have hstack : ∀ vch ∈ vch1 :: stack, vch.length ≤ 520 := fun vch hvch =>
        hs.1 vch (List.mem_cons_of_mem _ hvch)
      rw [if_neg hsize, if_neg hrange, hget]
      generalize (vch1 :: stack)[n.toNat] = vch at hmem
      cases fRoll with
      | false => exact ⟨⟨List.forall_mem_cons.mpr ⟨hstack vch hmem, hstack⟩, hs.2⟩, le_refl _⟩
      | true =>
        have hrest : ∀ v ∈ (vch1 :: stack).take n.toNat ++ (vch1 :: stack).drop (n.toNat + 1),
            v.length ≤ 520 := by
          intro v hv
          rcases List.mem_append.mp hv with hv | hv
          · exact hstack v (List.mem_of_mem_take hv)
          · exact hstack v (List.mem_of_mem_drop hv)
        simp only [if_true, leads_bind, leads_erase, leads_push]
        rw [if_pos (Nat.succ_le_of_lt hlt)]
        exact ⟨⟨List.forall_mem_cons.mpr ⟨hstack vch hmem, hrest⟩, hs.2⟩, le_refl _⟩

lemma safe_opSize : Safe 0 opSize := by
  rintro ⟨stack, _, _, _, _, _⟩ ⟨hs, -⟩
  match stack with
  | [] => simp [SafeFrom, opSize, Stop.Clean]
  | vch :: stack =>
    have hlt : (vch.length : ℤ).natAbs < 2 ^ 64 := by
      have hle := hs.1 vch List.mem_cons_self
      omega
    have hsize := length_getvch_le hlt
    simp [SafeFrom, opSize, ScriptState.Small] at hs ⊢
    tauto

lemma safe_opEqual (fVerify : Bool) : Safe 0 (opEqual fVerify) := by
  rintro ⟨stack, _, _, _, _, _⟩ ⟨hs, -⟩
  match stack with
  | [] | [_] => simp [SafeFrom, opEqual, Stop.Clean]
  | vch2 :: vch1 :: stack =>
    have hbool := length_pushBool_le (vch1 == vch2)
    cases fVerify
    all_goals
      simp [SafeFrom, opEqual, pushBool, verifyIf, ScriptState.Small, Stop.Clean] at hs hbool ⊢
      tauto

lemma safe_opNumeric1 : Safe 0 (opNumeric1 opcode) := by
  rintro ⟨stack, _, _, _, _, _⟩ ⟨hs, -⟩
  match stack with
  | [] => simp [SafeFrom, opNumeric1, Stop.Clean]
  | vch :: stack =>
    have hsize := @length_numeric1_le opcode vch
    simp [SafeFrom, opNumeric1, ScriptState.Small, Stop.Clean] at hs hsize ⊢
    tauto

lemma safe_opNumeric2 : Safe 0 (opNumeric2 opcode) := by
  rintro ⟨stack, _, _, _, _, _⟩ ⟨hs, -⟩
  match stack with
  | [] | [_] => simp [SafeFrom, opNumeric2, Stop.Clean]
  | vch2 :: vch1 :: stack =>
    have hsize := @length_numeric2_le opcode vch1 vch2
    have htop1 : (vch2 :: vch1 :: stack)[2 - 1]? = some vch1 := rfl
    have htop2 : (vch2 :: vch1 :: stack)[1 - 1]? = some vch2 := rfl
    simp only [SafeFrom, opNumeric2, leads_bind, leads_need, leads_stacktop, leads_castToBigNum,
      leads_popstack, leads_push, leads_ite, leads_throw, leads_pure, htop1, htop2]
    generalize CScript.getvch (numeric2 opcode (setvch vch1) (setvch vch2)) = out at hsize ⊢
    simp [ScriptState.Small, Stop.Clean] at hs hsize ⊢
    split_ifs
    all_goals tauto

lemma safe_opWithin : Safe 0 opWithin := by
  rintro ⟨stack, _, _, _, _, _⟩ ⟨hs, -⟩
  match stack with
  | [] | [_] | [_, _] => simp [SafeFrom, opWithin, Stop.Clean]
  | vch3 :: vch2 :: vch1 :: stack =>
    have hbool := length_pushBool_le
      (decide (setvch vch2 ≤ setvch vch1) && decide (setvch vch1 < setvch vch3))
    have hlength : ¬ stack.length + 1 + 1 + 1 < 3 := by omega
    simp [SafeFrom, opWithin, pushBool, ScriptState.Small, Stop.Clean, hlength] at hs hbool ⊢
    tauto

end Eval

namespace ScriptEnv

variable (env : ScriptEnv)

lemma length_digest_le (opcode : UInt8) (vch : Bytes) : (env.digest opcode vch).length ≤ 520 := by
  unfold digest
  split_ifs <;> simp [serializeUInt256]

lemma safe_opHash (opcode : UInt8) : Safe 0 (env.opHash opcode) := by
  rintro ⟨stack, _, _, _, _, _⟩ ⟨hs, -⟩
  match stack with
  | [] => simp [SafeFrom, opHash, Stop.Clean]
  | vch :: stack =>
    have hsize := env.length_digest_le opcode vch
    simp [SafeFrom, opHash, ScriptState.Small] at hs ⊢
    tauto

lemma safe_opCheckSig (fVerify : Bool) : Safe 1 (env.opCheckSig fVerify) := by
  rintro ⟨stack, _, _, _, pbegincodehash, _⟩ ⟨hs, -⟩
  match stack with
  | [] | [_] => simp [SafeFrom, opCheckSig, Stop.Clean]
  | vch2 :: vch1 :: stack =>
    have hbool := length_pushBool_le
      (env.checkSig vch1 vch2 (CScript.findAndDelete (CScript.pushData [] vch1) pbegincodehash))
    cases fVerify
    all_goals
      simp [SafeFrom, opCheckSig, pushBool, verifyIf, leads_callCheckSig, ScriptState.Small,
        Stop.Clean] at hs hbool ⊢
      tauto

variable {s : ScriptState} {n : ℕ} {pc : CScript}

/-- The number of keys on top of the stack bounds the calls of `CheckSig`. -/
lemma safeFrom_opCheckMultiSig (hs : s.Limited) (fVerify : Bool)
    (hn : ∀ vch ∈ s.stack.head?, getint (setvch vch) ≤ 20 → getint (setvch vch) ≤ n) :
    SafeFrom n (env.opCheckMultiSig fVerify) s := by
  by_cases h : ∃ keys sigs rest, MultiSigStack s keys sigs rest
  · obtain ⟨keys, sigs, rest, h⟩ := h
    apply env.leads_opCheckMultiSig h
    intro k hk
    obtain ⟨vchKeys, vchSigs, vchUnused, hstack, -, hkeys, -, -, h20, -, -⟩ := h
    have hle : k ≤ n := by
      have hcount := hn vchKeys (by rw [hstack]; rfl) (by omega)
      omega
    have hrest : ∀ vch ∈ rest, vch.length ≤ 520 := by
      intro vch hvch
      apply hs.1.1
      rw [hstack]
      simp [hvch]
    dsimp only
    generalize GreedyMatch.assigns _ sigs keys = fSuccess
    have hbool := length_pushBool_le fSuccess
    have halt := hs.1.2
    cases fVerify <;> cases fSuccess
    all_goals
      simp [pushBool, verifyIf, ScriptState.Small, Stop.Clean] at hbool ⊢
      tauto
  · refine Leads.mono (env.leads_opCheckMultiSig_of_not h) (fun _ _ hf => hf.elim) ?_
    rintro stop s' ⟨hstop, -, -, hchecks⟩
    exact ⟨hstop, hchecks ▸ Nat.le_add_right _ _⟩

/-- The calls of `CheckSig` that an operation makes, where it checks many signatures against a
number of keys at most. -/
def checksOf (nKeys : ℕ) (opcode : UInt8) : ℕ :=
  if opcode = OP_CHECKSIG ∨ opcode = OP_CHECKSIGVERIFY then 1
  else if opcode = OP_CHECKMULTISIG ∨ opcode = OP_CHECKMULTISIGVERIFY then nKeys
  else 0

lemma safeFrom_execute (hs : s.Limited) (opcode : UInt8) (fExec : Bool) (pc : CScript)
    (hn : OP_CHECKMULTISIG ≤ opcode →
      ∀ vch ∈ s.stack.head?, getint (setvch vch) ≤ 20 → getint (setvch vch) ≤ n) :
    SafeFrom (checksOf n opcode) (env.execute opcode fExec pc) s := by
  unfold execute
  refine .skip hs (safe_opNumber opcode) ?_
  refine .skip hs safe_nop ?_
  refine .skip hs (safe_opIf _ _) ?_
  refine .skip hs safe_opElse ?_
  refine .skip hs safe_opEndif ?_
  refine .skip hs safe_opVerify ?_
  refine .skip hs safe_throw ?_
  refine .skip hs safe_opToAltStack ?_
  refine .skip hs safe_opFromAltStack ?_
  refine .skip hs safe_op2Drop ?_
  refine .skip hs safe_op2Dup ?_
  refine .skip hs safe_op3Dup ?_
  refine .skip hs safe_op2Over ?_
  refine .skip hs safe_op2Rot ?_
  refine .skip hs safe_op2Swap ?_
  refine .skip hs safe_opIfDup ?_
  refine .skip hs safe_opDepth ?_
  refine .skip hs safe_opDrop ?_
  refine .skip hs safe_opDup ?_
  refine .skip hs safe_opNip ?_
  refine .skip hs safe_opOver ?_
  refine .skip hs (safe_opPick _) ?_
  refine .skip hs safe_opRot ?_
  refine .skip hs safe_opSwap ?_
  refine .skip hs safe_opTuck ?_
  refine .skip hs safe_opSize ?_
  refine .skip hs (safe_opEqual _) ?_
  refine .skip hs (safe_opNumeric1 opcode) ?_
  refine .skip hs (safe_opNumeric2 opcode) ?_
  refine .skip hs safe_opWithin ?_
  refine .skip hs (env.safe_opHash opcode) ?_
  refine .ite (fun _ => ⟨hs.1, Nat.le_add_right _ _⟩) fun _ => ?_
  refine .ite (fun hop => ?_) fun hsingle => ?_
  · rw [checksOf, if_pos hop]
    exact env.safe_opCheckSig _ s hs
  refine .ite (fun hop => ?_) fun _ => (safe_throw s hs).mono (Nat.zero_le _)
  have hle : OP_CHECKMULTISIG ≤ opcode := by
    rcases hop with rfl | rfl
    · exact UInt8.le_refl _
    · decide
  rw [checksOf, if_neg hsingle, if_pos hop]
  exact env.safeFrom_opCheckMultiSig hs _ (hn hle)

lemma safeFrom_dispatch (hs : s.Limited) (opcode : UInt8) {vch : Bytes} (hvch : vch.length ≤ 520)
    (fExec : Bool) (pc : CScript)
    (hn : fExec = true →
      ∀ vch ∈ s.stack.head?, getint (setvch vch) ≤ 20 → getint (setvch vch) ≤ n) :
    SafeFrom (checksOf n opcode) (env.dispatch opcode vch fExec pc) s := by
  refine .ite (fun _ => ?_) fun _ => ?_
  · exact ⟨⟨List.forall_mem_cons.mpr ⟨hvch, hs.1.1⟩, hs.1.2⟩, Nat.le_add_right _ _⟩
  refine .ite (fun hrun => ?_) fun _ => ⟨hs.1, Nat.le_add_right _ _⟩
  apply env.safeFrom_execute hs
  intro hle
  rcases hrun with hexec | ⟨-, hendif⟩
  · exact hn hexec
  · -- in a branch that is not taken, no signatures are checked
    exact absurd (UInt8.le_trans hle hendif) (by decide)

lemma leads_countOp {opcode : UInt8} {Q : Unit → ScriptState → Prop}
    {E : Stop → ScriptState → Prop} (hQ : ∀ n, Q () { s with nOpCount := n })
    (hE : ∀ n, E .fail { s with nOpCount := n }) : Leads (countOp opcode) Q E s := by
  rw [countOp, leads_ite, leads_bind, leads_modify, leads_bind, leads_get, leads_failIf, leads_pure]
  split_ifs
  · exact hE _
  · exact hQ _
  · exact hQ s.nOpCount

/-- One round of the loop keeps the limits. -/
lemma leads_evalOp (hs : s.Limited) (opcode : UInt8) (vch : Bytes) (pc : CScript)
    (hn : s.fExec = true →
      ∀ vch ∈ s.stack.head?, getint (setvch vch) ≤ 20 → getint (setvch vch) ≤ n) :
    Leads (env.evalOp opcode vch pc)
      (fun _ s' => s'.Limited ∧ s'.nChecks ≤ s.nChecks + checksOf n opcode)
      (fun stop s' => stop.Clean ∧ s'.nChecks ≤ s.nChecks + checksOf n opcode) s := by
  have hfail : Stop.fail.Clean ∧ s.nChecks ≤ s.nChecks + checksOf n opcode :=
    ⟨Or.inl rfl, Nat.le_add_right _ _⟩
  rw [evalOp, leads_bind, leads_get, leads_bind, leads_failIf]
  by_cases hvch : vch.length > 520
  · rw [if_pos hvch]
    exact hfail
  rw [if_neg hvch, leads_bind]
  refine leads_countOp (fun nOpCount => ?_) fun _ => hfail
  rw [leads_bind, leads_failIf]
  by_cases hdisabled : opcode ∈ disabledOpcodes
  · rw [if_pos hdisabled]
    exact hfail
  rw [if_neg hdisabled, leads_bind]
  have hdispatch := env.safeFrom_dispatch (s := { s with nOpCount := nOpCount }) hs opcode
    (not_lt.mp hvch) s.fExec pc hn
  refine Leads.mono hdispatch (fun _ s' hs' => ?_) fun _ _ hs' => hs'
  rw [leads_bind, leads_get, leads_bind, leads_get, leads_failIf]
  by_cases hsize : s'.stack.length + s'.altstack.length > 1000
  · rw [if_pos hsize]
    exact ⟨Or.inl rfl, hs'.2⟩
  · rw [if_neg hsize]
    exact ⟨⟨hs'.1, not_lt.mp hsize⟩, hs'.2⟩

/-! ## Runs of the loop -/

/-- The loop goes from a rest of the script and a state to the next ones. -/
def Step (c c' : CScript × ScriptState) : Prop :=
  ∃ opcode vch, c.1.getOp2 = some (opcode, vch, c'.1) ∧
    outcome (env.evalOp opcode vch c'.1) c.2 = (.ok (), c'.2)

lemma evalLoop_nil : env.evalLoop [] = pure () := by rw [evalLoop, if_pos rfl]

lemma evalLoop_of_getOp2 {pc' : CScript} {opcode : UInt8} {vch : Bytes}
    (h : pc.getOp2 = some (opcode, vch, pc')) :
    env.evalLoop pc = (do env.evalOp opcode vch pc'; env.evalLoop pc') := by
  have hne : pc ≠ [] := by
    rintro rfl
    cases h
  rw [evalLoop, if_neg hne]
  split
  · next hnone =>
    rw [h] at hnone
    cases hnone
  · next hsome =>
    rw [h] at hsome
    cases hsome
    rfl

lemma evalLoop_of_none (hne : pc ≠ []) (h : pc.getOp2 = none) : env.evalLoop pc = throw .fail := by
  rw [evalLoop, if_neg hne]
  split
  · rfl
  · next hsome =>
    rw [h] at hsome
    cases hsome

/-- The loop does from a start what it does from every state that it goes to. -/
lemma outcome_evalLoop_of_steps {c c' : CScript × ScriptState}
    (h : Relation.ReflTransGen env.Step c c') :
    outcome (env.evalLoop c.1) c.2 = outcome (env.evalLoop c'.1) c'.2 := by
  induction h with
  | refl => rfl
  | tail _ hstep ih =>
    obtain ⟨opcode, vch, hop, hout⟩ := hstep
    rw [ih, env.evalLoop_of_getOp2 hop, outcome_bind, hout]

/-- A rule for the loop: what one round keeps and what holds where it stops. -/
lemma leads_evalLoop {I : CScript → ScriptState → Prop} {E : Stop → ScriptState → Prop}
    (hstep : ∀ pc s opcode vch pc', I pc s → pc.getOp2 = some (opcode, vch, pc') →
      Leads (env.evalOp opcode vch pc') (fun _ s' => I pc' s') E s)
    (hbad : ∀ pc s, I pc s → E .fail s) (h : I pc s) :
    Leads (env.evalLoop pc) (fun _ s' => I [] s') E s := by
  induction hn : pc.length using Nat.strong_induction_on generalizing pc s with
  | _ n ih =>
    by_cases hne : pc = []
    · rw [hne, env.evalLoop_nil]
      exact hne ▸ h
    cases hop : pc.getOp2 with
    | none =>
      rw [env.evalLoop_of_none hne hop]
      exact hbad pc s h
    | some op =>
      obtain ⟨opcode, vch, pc'⟩ := op
      have hlt := CScript.length_lt_of_getOp2 hop
      rw [env.evalLoop_of_getOp2 hop, leads_bind]
      refine (hstep pc s opcode vch pc' h hop).mono (fun _ s' hs' => ?_) fun _ _ he => he
      exact ih pc'.length (hn ▸ hlt) hs' rfl

/-- Along a run, the limits hold. -/
lemma limited_of_steps {c c' : CScript × ScriptState} (h : Relation.ReflTransGen env.Step c c')
    (hc : c.2.Limited) : c'.2.Limited := by
  induction h with
  | refl => exact hc
  | @tail _ c' _ hstep ih =>
    obtain ⟨opcode, vch, -, hout⟩ := hstep
    have hleads := env.leads_evalOp (n := 20) ih opcode vch c'.1 fun _ _ _ hle => hle
    rw [Leads, hout] at hleads
    exact hleads.1

/-- `EvalScript` reports a clean stop as false. -/
lemma evalScript_of_stop {stack : List Bytes} {script : CScript} {stop : Stop}
    (h : outcome (env.evalLoop script) (startState stack script) = (.error stop, s))
    (hclean : stop.Clean) : (env.evalScript stack script).1 = .ok false := by
  rw [evalScript]
  by_cases hsize : script.length > 10000
  · rw [if_pos hsize]
  · rw [if_neg hsize, h]
    rcases hclean with rfl | rfl
    · rfl
    · rfl

/-- From a stack within the limits, `EvalScript` returns true or false.  After every operation of the
run, the stacks are within the limits, and if the next operation stops, then it is by `return false`
or by the exception of a number that is too long, and `EvalScript` returns false. -/
theorem evalScript_limits (env : ScriptEnv) (stack : List Bytes) (script : CScript)
    (hsize : stack.length ≤ 1000) (hsmall : ∀ vch ∈ stack, vch.length ≤ 520) :
    (∃ fResult, (env.evalScript stack script).1 = .ok fResult) ∧
    ∀ pc s, Relation.ReflTransGen env.Step (script, startState stack script) (pc, s) →
      (s.stack.length + s.altstack.length ≤ 1000 ∧
        ∀ vch ∈ s.stack ++ s.altstack, vch.length ≤ 520) ∧
      (pc ≠ [] → pc.getOp2 = none → (env.evalScript stack script).1 = .ok false) ∧
      ∀ opcode vch pc' stop s', pc.getOp2 = some (opcode, vch, pc') →
        outcome (env.evalOp opcode vch pc') s = (.error stop, s') →
        (stop = .fail ∨ stop = .overflow) ∧ (env.evalScript stack script).1 = .ok false := by
  have hstart : (startState stack script).Limited := ⟨⟨hsmall, by simp [startState]⟩, hsize⟩
  have hfail : ∀ pc s stop s',
      Relation.ReflTransGen env.Step (script, startState stack script) (pc, s) →
      outcome (env.evalLoop pc) s = (.error stop, s') → stop.Clean →
      (env.evalScript stack script).1 = .ok false := by
    intro pc s stop s' hsteps hout hclean
    rw [← env.outcome_evalLoop_of_steps hsteps] at hout
    exact env.evalScript_of_stop hout hclean
  refine ⟨?_, fun pc s hsteps => ⟨?_, fun hne hnone => ?_, fun opcode vch pc' stop s' hop hout => ?_⟩⟩
  · have hleads : Leads (env.evalLoop script) (fun _ _ => True) (fun stop _ => stop.Clean)
        (startState stack script) := by
      refine Leads.mono (env.leads_evalLoop (I := fun _ s => s.Limited) (fun pc s opcode vch pc' hs _ => ?_)
        (fun _ _ _ => Or.inl rfl) hstart) (fun _ _ _ => trivial) fun _ _ h => h
      exact (env.leads_evalOp (n := 20) hs opcode vch pc' fun _ _ _ hle => hle).mono
        (fun _ _ hs' => hs'.1) fun _ _ hs' => hs'.1
    match hout : outcome (env.evalLoop script) (startState stack script) with
    | (.ok (), s) =>
      rw [evalScript, hout]
      split_ifs
      · exact ⟨false, rfl⟩
      · exact ⟨s.vfExec.isEmpty, rfl⟩
    | (.error stop, s) =>
      rw [Leads, hout] at hleads
      exact ⟨false, env.evalScript_of_stop hout hleads⟩
  · obtain ⟨⟨hstack, halt⟩, hboth⟩ := env.limited_of_steps hsteps hstart
    refine ⟨hboth, fun vch hvch => ?_⟩
    rcases List.mem_append.mp hvch with hvch | hvch
    · exact hstack vch hvch
    · exact halt vch hvch
  · refine hfail pc s .fail s hsteps ?_ (Or.inl rfl)
    rw [env.evalLoop_of_none hne hnone, outcome_throw]
  · have hs := env.limited_of_steps hsteps hstart
    have hleads := env.leads_evalOp (n := 20) hs opcode vch pc' fun _ _ _ hle => hle
    rw [Leads, hout] at hleads
    refine ⟨hleads.1, hfail pc s stop s' hsteps ?_ hleads.1⟩
    rw [env.evalLoop_of_getOp2 hop, outcome_bind, hout]

/-- Digests for examples, and a check that every signature passes. -/
def sample : ScriptEnv where
  ripemd160 vch := BitVec.ofNat 160 (leValue vch)
  sha1 vch := BitVec.ofNat 160 (leValue vch)
  sha256 vch := BitVec.ofNat 256 (leValue vch)
  checkSig _ _ _ := true

/-- The script `OP_DUP OP_ADD`, on a stack with one number. -/
theorem evalScript_limits_sample :
    (∃ fResult, (sample.evalScript [[1]] [OP_DUP, OP_ADD]).1 = .ok fResult) ∧
    ∀ pc s, Relation.ReflTransGen sample.Step
        ([OP_DUP, OP_ADD], startState [[1]] [OP_DUP, OP_ADD]) (pc, s) →
      (s.stack.length + s.altstack.length ≤ 1000 ∧
        ∀ vch ∈ s.stack ++ s.altstack, vch.length ≤ 520) ∧
      (pc ≠ [] → pc.getOp2 = none →
        (sample.evalScript [[1]] [OP_DUP, OP_ADD]).1 = .ok false) ∧
      ∀ opcode vch pc' stop s', pc.getOp2 = some (opcode, vch, pc') →
        outcome (sample.evalOp opcode vch pc') s = (.error stop, s') →
        (stop = .fail ∨ stop = .overflow) ∧
          (sample.evalScript [[1]] [OP_DUP, OP_ADD]).1 = .ok false :=
  sample.evalScript_limits [[1]] [OP_DUP, OP_ADD] (by decide) (by decide)

end ScriptEnv

end HyperStake
