import HyperStake.Library.GreedyMatch
import HyperStake.Script.EvalScript

/-!
# Checking many signatures

`OP_CHECKMULTISIG` finds a number of keys, the keys, a number of signatures, the signatures, and one
more element on the stack (`MultiSigStack`).  It checks the signatures against the keys in one pass,
from the top of the stack, and leaves true if each signature fits a key of its own in the order of
both.  Whenever the stack is not like that, it stops with nothing popped.
-/

namespace HyperStake

open Stopping Eval GreedyMatch

/-- The stack before an `OP_CHECKMULTISIG` that does not stop. -/
def MultiSigStack (s : ScriptState) (keys sigs rest : List Bytes) : Prop :=
  ∃ vchKeys vchSigs vchUnused,
    s.stack = vchKeys :: (keys ++ vchSigs :: (sigs ++ vchUnused :: rest)) ∧
    ¬ vchKeys.length > nMaxNumSize ∧ getint (setvch vchKeys) = keys.length ∧
    ¬ vchSigs.length > nMaxNumSize ∧ getint (setvch vchSigs) = sigs.length ∧
    keys.length ≤ 20 ∧ s.nOpCount + keys.length ≤ 201 ∧ sigs.length ≤ keys.length

/-- The script that signatures are checked against, after they are dropped from it. -/
def dropAll (scriptCode : CScript) (sigs : List Bytes) : CScript :=
  sigs.foldl
    (fun scriptCode vchSig => CScript.findAndDelete (CScript.pushData [] vchSig) scriptCode) scriptCode

/-- A list from a position on: some elements, the element after them, and the rest. -/
lemma drop_eq_take_append {α : Type*} (l : List α) {i n : ℕ} (h : i + n < l.length) :
    l.drop i = (l.drop i).take n ++ l[i + n] :: l.drop (i + n + 1) := by
  rw [List.getElem_cons_drop]
  conv_lhs => rw [← List.take_append_drop n (l.drop i), List.drop_drop]

namespace ScriptEnv

variable (env : ScriptEnv) {s : ScriptState} {E : Stop → ScriptState → Prop}

/-! ## The loops -/

variable {scriptCode : CScript}

lemma leads_callCheckSig {vchSig vchPubKey : Bytes}
    {Q : Bool → ScriptState → Prop} : Leads (env.callCheckSig vchSig vchPubKey scriptCode) Q E s ↔
      Q (env.checkSig vchSig vchPubKey scriptCode) { s with nChecks := s.nChecks + 1 } := Iff.rfl

lemma leads_popMany {i : ℕ} {Q : Unit → ScriptState → Prop} (h : i ≤ s.stack.length) :
    Leads (popMany i) Q E s ↔ Q () { s with stack := s.stack.drop i } := by
  induction i generalizing s with
  | zero => rfl
  | succ i ih =>
    rw [popMany, leads_bind, leads_popstack]
    cases hstack : s.stack with
    | nil =>
      rw [hstack] at h
      cases h
    | cons vch stack =>
      rw [hstack, List.length_cons] at h
      exact ih (Nat.le_of_succ_le_succ h)

lemma leads_dropSigs {sigs rest : List Bytes} {isig : ℕ}
    {Q : CScript → ScriptState → Prop} (h : s.stack.drop isig = sigs ++ rest) :
    Leads (dropSigs sigs.length (isig + 1) scriptCode) Q E s ↔ Q (dropAll scriptCode sigs) s := by
  induction sigs generalizing isig scriptCode with
  | nil => rfl
  | cons vchSig sigs ih =>
    have htop : s.stack[isig + 1 - 1]? = some vchSig := by
      rw [Nat.add_sub_cancel, ← List.head?_drop, h]
      rfl
    have hdrop : s.stack.drop (isig + 1) = sigs ++ rest := by
      rw [← List.drop_drop, h]
      rfl
    rw [List.length_cons, dropSigs, leads_bind, leads_stacktop, htop]
    exact ih hdrop

/-- The loop gives what the greedy choice gives, and calls `CheckSig` at most once for each key. -/
lemma leads_multiSigLoop {keys sigs restKeys restSigs : List Bytes} {isig ikey : ℕ}
    {Q : Bool → ScriptState → Prop}
    (hkeys : s.stack.drop ikey = keys ++ restKeys) (hsigs : s.stack.drop isig = sigs ++ restSigs)
    (hle : sigs.length ≤ keys.length)
    (hQ : ∀ n ≤ keys.length, Q (assigns (env.checkSig · · scriptCode) sigs keys)
      { s with nChecks := s.nChecks + n }) :
    Leads (env.multiSigLoop scriptCode keys.length sigs.length (isig + 1) (ikey + 1)) Q E s := by
  induction keys generalizing s sigs isig ikey with
  | nil =>
    obtain rfl : sigs = [] := List.length_eq_zero_iff.mp (Nat.le_zero.mp hle)
    rw [List.length_nil, multiSigLoop, leads_pure]
    exact hQ 0 (le_refl _)
  | cons vchPubKey keys ih =>
    cases sigs with
    | nil =>
      rw [List.length_nil, multiSigLoop, leads_pure]
      exact hQ 0 (Nat.zero_le _)
    | cons vchSig sigs =>
      have hsig : s.stack[isig + 1 - 1]? = some vchSig := by
        rw [Nat.add_sub_cancel, ← List.head?_drop, hsigs]
        rfl
      have hkey : s.stack[ikey + 1 - 1]? = some vchPubKey := by
        rw [Nat.add_sub_cancel, ← List.head?_drop, hkeys]
        rfl
      have hkeys' : s.stack.drop (ikey + 1) = keys ++ restKeys := by
        rw [← List.drop_drop, hkeys]
        rfl
      have hsigs' : s.stack.drop (isig + 1) = sigs ++ restSigs := by
        rw [← List.drop_drop, hsigs]
        rfl
      simp only [List.length_cons] at hle hQ
      rw [List.length_cons, List.length_cons, multiSigLoop, leads_bind, leads_stacktop, hsig]
      dsimp only
      rw [leads_bind, leads_stacktop, hkey]
      dsimp only
      rw [leads_bind, leads_callCheckSig]
      by_cases hfits : env.checkSig vchSig vchPubKey scriptCode = true
      · have hassign : assigns (env.checkSig · · scriptCode) (vchSig :: sigs) (vchPubKey :: keys) =
            assigns (env.checkSig · · scriptCode) sigs keys := by
          rw [assigns, if_pos hfits]
        rw [hassign] at hQ
        simp only [hfits, if_true]
        rw [leads_ite, if_neg (by omega)]
        refine ih hkeys' hsigs' (by omega) fun n hn => ?_
        have hnext := hQ (n + 1) (by omega)
        rwa [show s.nChecks + (n + 1) = s.nChecks + 1 + n by omega] at hnext
      · have hassign : assigns (env.checkSig · · scriptCode) (vchSig :: sigs) (vchPubKey :: keys) =
            assigns (env.checkSig · · scriptCode) (vchSig :: sigs) keys := by
          rw [assigns, if_neg hfits]
        rw [hassign] at hQ
        simp only [hfits, if_false, Bool.false_eq_true]
        rw [leads_ite]
        by_cases hmany : sigs.length + 1 > keys.length
        · -- too many signatures have failed
          have hnone : assigns (env.checkSig · · scriptCode) (vchSig :: sigs) keys = false :=
            assigns_of_lt hmany
          rw [hnone] at hQ
          rw [if_pos hmany, leads_pure]
          exact hQ 1 (by omega)
        · rw [if_neg hmany]
          refine ih (s := { s with nChecks := s.nChecks + 1 }) hkeys' hsigs
            (by rw [List.length_cons]; omega) fun n hn => ?_
          have hnext := hQ (n + 1) (by omega)
          rwa [show s.nChecks + (n + 1) = s.nChecks + 1 + n by omega] at hnext

/-! ## The operation -/

/-- From a stack that has what the operation needs, it pops all of that, and goes on with what the
greedy choice gives. -/
lemma leads_opCheckMultiSig {keys sigs rest : List Bytes} {fVerify : Bool}
    {Q : Unit → ScriptState → Prop} (h : MultiSigStack s keys sigs rest)
    (hQ : ∀ n ≤ keys.length,
      let fSuccess := assigns (env.checkSig · · (dropAll s.pbegincodehash sigs)) sigs keys
      Leads (do pushBool fSuccess; verifyIf fVerify fSuccess) Q E
        { s with stack := rest, nOpCount := s.nOpCount + keys.length,
                 nChecks := s.nChecks + n }) :
    Leads (env.opCheckMultiSig fVerify) Q E s := by
  obtain ⟨vchKeys, vchSigs, vchUnused, hstack, hkeysSize, hkeys, hsigsSize, hsigs, h20, h201, hle⟩ :=
    h
  have hlength : s.stack.length = keys.length + sigs.length + 3 + rest.length := by
    rw [hstack]
    simp only [List.length_cons, List.length_append]
    omega
  have htop : s.stack[1 - 1]? = some vchKeys := by rw [hstack]; rfl
  have hdropKeys : s.stack.drop 1 = keys ++ vchSigs :: (sigs ++ vchUnused :: rest) := by
    rw [hstack]
    rfl
  have hsecond : s.stack[2 + keys.length - 1]? = some vchSigs := by
    have hpos : 2 + keys.length - 1 = 1 + keys.length := by omega
    rw [hpos, ← List.head?_drop, ← List.drop_drop, hdropKeys, List.drop_left]
    rfl
  have hdropSigs : s.stack.drop (2 + keys.length) = sigs ++ vchUnused :: rest := by
    have hpos : 2 + keys.length = 1 + (keys.length + 1) := by omega
    rw [hpos, ← List.drop_drop, hdropKeys, ← List.drop_drop, List.drop_left]
    rfl
  have hdropAll : s.stack.drop (2 + keys.length + 1 + sigs.length) = rest := by
    have hpos : 2 + keys.length + 1 + sigs.length = 2 + keys.length + (sigs.length + 1) := by omega
    rw [hpos, ← List.drop_drop, hdropSigs, ← List.drop_drop, List.drop_left]
    rfl
  rw [opCheckMultiSig, leads_bind, leads_need, if_neg (by omega), leads_bind, leads_stacktop, htop]
  dsimp only
  rw [leads_bind, leads_castToBigNum, if_neg hkeysSize, hkeys]
  simp only [Int.toNat_natCast]
  rw [leads_bind, leads_failIf, if_neg (by omega), leads_bind, leads_modify, leads_bind, leads_get,
    leads_bind, leads_failIf, if_neg (by dsimp only; omega), leads_bind, leads_need,
    if_neg (by dsimp only; omega), leads_bind, leads_stacktop]
  dsimp only
  rw [hsecond]
  dsimp only
  rw [leads_bind, leads_castToBigNum, if_neg hsigsSize, hsigs]
  simp only [Int.toNat_natCast]
  rw [leads_bind, leads_failIf, if_neg (by omega), leads_bind, leads_need,
    if_neg (by dsimp only; omega), leads_bind, leads_get, leads_bind,
    leads_dropSigs (s := { s with nOpCount := s.nOpCount + keys.length }) hdropSigs, leads_bind]
  apply env.leads_multiSigLoop (s := { s with nOpCount := s.nOpCount + keys.length }) hdropKeys
    hdropSigs hle
  intro n hn
  rw [leads_bind, leads_popMany (by dsimp only; omega)]
  dsimp only
  rw [hdropAll]
  exact hQ n hn

/-- From any other stack, it stops before anything is popped. -/
lemma leads_opCheckMultiSig_of_not {fVerify : Bool}
    (h : ¬ ∃ keys sigs rest, MultiSigStack s keys sigs rest) :
    Leads (env.opCheckMultiSig fVerify) (fun _ _ => False)
      (fun stop s' => (stop = .fail ∨ stop = .overflow) ∧ s'.stack = s.stack ∧
        s'.altstack = s.altstack ∧ s'.nChecks = s.nChecks) s := by
  have hkept : ∀ stop : Stop, stop = .fail ∨ stop = .overflow →
      (stop = .fail ∨ stop = .overflow) ∧ s.stack = s.stack ∧ s.altstack = s.altstack ∧
        s.nChecks = s.nChecks := fun _ hstop => ⟨hstop, rfl, rfl, rfl⟩
  rw [opCheckMultiSig, leads_bind, leads_need]
  by_cases hone : s.stack.length < 1
  · rw [if_pos hone]
    exact hkept .fail (Or.inl rfl)
  have htop : s.stack[1 - 1]? = some s.stack[0] := List.getElem?_eq_getElem (by omega)
  rw [if_neg hone, leads_bind, leads_stacktop, htop]
  dsimp only
  rw [leads_bind, leads_castToBigNum]
  by_cases hkeysSize : s.stack[0].length > nMaxNumSize
  · rw [if_pos hkeysSize]
    exact hkept .overflow (Or.inr rfl)
  rw [if_neg hkeysSize]
  generalize hn : getint (setvch s.stack[0]) = nKeysCount
  rw [leads_bind, leads_failIf]
  by_cases hkeys : nKeysCount < 0 ∨ nKeysCount > 20
  · rw [if_pos hkeys]
    exact hkept .fail (Or.inl rfl)
  rw [if_neg hkeys, leads_bind, leads_modify, leads_bind, leads_get, leads_bind, leads_failIf]
  dsimp only
  by_cases hops : s.nOpCount + nKeysCount.toNat > 201
  · rw [if_pos hops]
    exact hkept .fail (Or.inl rfl)
  rw [if_neg hops, leads_bind, leads_need]
  dsimp only
  by_cases hneed : s.stack.length < 2 + nKeysCount.toNat
  · rw [if_pos hneed]
    exact hkept .fail (Or.inl rfl)
  have hsecond : s.stack[2 + nKeysCount.toNat - 1]? = some s.stack[1 + nKeysCount.toNat] := by
    have hpos : 2 + nKeysCount.toNat - 1 = 1 + nKeysCount.toNat := by omega
    rw [hpos]
    exact List.getElem?_eq_getElem (by omega)
  rw [if_neg hneed, leads_bind, leads_stacktop]
  dsimp only
  rw [hsecond]
  dsimp only
  rw [leads_bind, leads_castToBigNum]
  by_cases hsigsSize : s.stack[1 + nKeysCount.toNat].length > nMaxNumSize
  · rw [if_pos hsigsSize]
    exact hkept .overflow (Or.inr rfl)
  rw [if_neg hsigsSize]
  generalize hm : getint (setvch s.stack[1 + nKeysCount.toNat]) = nSigsCount
  rw [leads_bind, leads_failIf]
  by_cases hsigs : nSigsCount < 0 ∨ nSigsCount > nKeysCount
  · rw [if_pos hsigs]
    exact hkept .fail (Or.inl rfl)
  rw [if_neg hsigs, leads_bind, leads_need]
  dsimp only
  by_cases hall : s.stack.length < 2 + nKeysCount.toNat + 1 + nSigsCount.toNat
  · rw [if_pos hall]
    exact hkept .fail (Or.inl rfl)
  · -- everything is there
    refine absurd ⟨(s.stack.drop 1).take nKeysCount.toNat,
      (s.stack.drop (2 + nKeysCount.toNat)).take nSigsCount.toNat,
      s.stack.drop (2 + nKeysCount.toNat + nSigsCount.toNat + 1), s.stack[0],
      s.stack[1 + nKeysCount.toNat], s.stack[2 + nKeysCount.toNat + nSigsCount.toNat], ?_, hkeysSize,
      ?_, hsigsSize, ?_, ?_, ?_, ?_⟩ h
    · have hpos : 2 + nKeysCount.toNat = 1 + nKeysCount.toNat + 1 := by omega
      have hsigsRest := drop_eq_take_append s.stack (i := 2 + nKeysCount.toNat)
        (n := nSigsCount.toNat) (by omega)
      have hkeysRest := drop_eq_take_append s.stack (i := 1) (n := nKeysCount.toNat) (by omega)
      rw [← hsigsRest, hpos, ← hkeysRest, List.getElem_cons_drop, List.drop_zero]
    all_goals simp only [List.length_take, List.length_drop]
    all_goals omega

lemma execute_checkMultiSig_eq (pc : CScript) :
    env.execute OP_CHECKMULTISIG true pc = env.opCheckMultiSig false := rfl

/-- The operation stops with nothing popped, in one of the ways that `EvalScript` reports as
false. -/
def StopsUnpopped (x : Eval Unit) (s : ScriptState) : Prop :=
  ∃ stop s', outcome x s = (.error stop, s') ∧ (stop = .fail ∨ stop = .overflow) ∧
    s'.stack = s.stack ∧ s'.altstack = s.altstack

lemma stopsUnpopped_of_not (pc : CScript) (h : ¬ ∃ keys sigs rest, MultiSigStack s keys sigs rest) :
    StopsUnpopped (env.execute OP_CHECKMULTISIG true pc) s := by
  have hleads : Leads (env.opCheckMultiSig false) _ _ s := env.leads_opCheckMultiSig_of_not h
  rw [execute_checkMultiSig_eq]
  rw [Leads] at hleads
  match hout : outcome (env.opCheckMultiSig false) s with
  | (.ok (), s') =>
    rw [hout] at hleads
    exact hleads.elim
  | (.error stop, s') =>
    rw [hout] at hleads
    exact ⟨stop, s', hout, hleads.1, hleads.2.1, hleads.2.2.1⟩

/-- From every stack that has the keys and the signatures, `OP_CHECKMULTISIG` pops them, the two
numbers and one more element, and pushes true if and only if the signatures fit keys in their order.
From every other stack, it stops: if a number is negative, if there are more than 20 keys or more
signatures than keys, if the stack is too short, if a number is too long, or if there were too many
operations. -/
theorem outcome_checkMultiSig (env : ScriptEnv) (s : ScriptState) (pc : CScript) :
    (∀ keys sigs rest, MultiSigStack s keys sigs rest →
      rest = s.stack.drop (keys.length + sigs.length + 3) ∧
      ∃ (fSuccess : Bool) (nChecks : ℕ), nChecks ≤ keys.length ∧
        outcome (env.execute OP_CHECKMULTISIG true pc) s =
          (.ok (), { s with
            stack := (if fSuccess then vchTrue else vchFalse) :: rest
            nOpCount := s.nOpCount + keys.length
            nChecks := s.nChecks + nChecks }) ∧
        (fSuccess = true ↔ ∃ f : Fin sigs.length ↪o Fin keys.length,
          ∀ i, env.checkSig sigs[i] keys[f i] (dropAll s.pbegincodehash sigs) = true)) ∧
    ((¬ ∃ keys sigs rest, MultiSigStack s keys sigs rest) →
      StopsUnpopped (env.execute OP_CHECKMULTISIG true pc) s) ∧
    (s.stack = [] → StopsUnpopped (env.execute OP_CHECKMULTISIG true pc) s) ∧
    ∀ nKeysCount, s.stack.head?.map (getint ∘ setvch) = some nKeysCount →
      (nKeysCount < 0 ∨ 20 < nKeysCount ∨ s.stack.length < nKeysCount.toNat + 2 ∨
        ∃ nSigsCount, s.stack[nKeysCount.toNat + 1]?.map (getint ∘ setvch) = some nSigsCount ∧
          (nSigsCount < 0 ∨ nKeysCount < nSigsCount ∨
            s.stack.length < nKeysCount.toNat + nSigsCount.toNat + 3)) →
      StopsUnpopped (env.execute OP_CHECKMULTISIG true pc) s := by
  refine ⟨fun keys sigs rest h => ⟨?_, ?_⟩, env.stopsUnpopped_of_not pc, fun hnil => ?_,
    fun nKeysCount hcount hbad => ?_⟩
  · obtain ⟨vchKeys, vchSigs, vchUnused, hstack, -⟩ := h
    have hpos : keys.length + sigs.length + 3 = keys.length + (sigs.length + 1 + 1) + 1 := by omega
    have hsigs : (sigs ++ vchUnused :: rest).drop (sigs.length + 1) = rest := by
      rw [← List.drop_drop, List.drop_left]
      rfl
    rw [hstack, hpos, List.drop_succ_cons, ← List.drop_drop, List.drop_left, List.drop_succ_cons,
      hsigs]
  · have hleads : Leads (env.opCheckMultiSig false) (fun _ s' => ∃ n ≤ keys.length,
        s' = { s with
          stack := (if assigns (env.checkSig · · (dropAll s.pbegincodehash sigs)) sigs keys then
            vchTrue else vchFalse) :: rest
          nOpCount := s.nOpCount + keys.length
          nChecks := s.nChecks + n }) (fun _ _ => False) s :=
      env.leads_opCheckMultiSig h fun n hn => ⟨n, hn, rfl⟩
    rw [Leads] at hleads
    rw [execute_checkMultiSig_eq]
    match hout : outcome (env.opCheckMultiSig false) s with
    | (.ok (), s') =>
      rw [hout] at hleads
      obtain ⟨n, hn, rfl⟩ := hleads
      exact ⟨_, n, hn, rfl, assigns_iff_orderEmbedding⟩
    | (.error stop, s') =>
      rw [hout] at hleads
      exact hleads.elim
  · refine env.stopsUnpopped_of_not pc ?_
    rintro ⟨keys, sigs, rest, vchKeys, vchSigs, vchUnused, hstack, -⟩
    rw [hnil] at hstack
    cases hstack
  · refine env.stopsUnpopped_of_not pc ?_
    rintro ⟨keys, sigs, rest, vchKeys, vchSigs, vchUnused, hstack, -, hkeys, -, hsigs, h20, -, hle⟩
    have hn : nKeysCount = keys.length := by
      rw [hstack] at hcount
      exact (Option.some.inj hcount).symm.trans hkeys
    have hlength : s.stack.length = keys.length + sigs.length + 3 + rest.length := by
      rw [hstack]
      simp only [List.length_cons, List.length_append]
      omega
    rcases hbad with hneg | hmany | hshort | ⟨nSigsCount, hsecond, hbad⟩
    · omega
    · omega
    · omega
    · have hget : s.stack[nKeysCount.toNat + 1]? = some vchSigs := by
        rw [hstack, hn, Int.toNat_natCast, List.getElem?_cons_succ,
          List.getElem?_append_right (le_refl _), Nat.sub_self]
        rfl
      have hm : nSigsCount = sigs.length := by
        rw [hget] at hsecond
        exact (Option.some.inj hsecond).symm.trans hsigs
      omega

end ScriptEnv

end HyperStake
