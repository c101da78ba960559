import HyperStake.Library.FirstFit
import HyperStake.Script.Signing
import HyperStake.Script.Templates
import Std.Data.ExtTreeSet.Lemmas

/-!
# Combining partial signatures

`CombineMultisig` takes the signatures of two scripts for an output with several public keys, finds
a key for each of them, and puts the signatures of the first keys into one script, in the order of
the keys.  A signature that several keys accept goes to the first of these that has none yet, as the
signatures come in the order of their bytes; so the script may lack a signature although each key
has one that it accepts.  When no signature is accepted by several keys, the script has as many
signatures as there are keys with one.
-/

namespace HyperStake

open LittleEndian Stopping Eval GreedyMatch CScript

/-! ## The source -/

section Source

variable (crypto : Crypto) (scriptPubKey : CScript) (txTo : CTransaction) (nIn : ℕ)

/-- The loop of `CombineMultisig` that collects the signatures of one script. -/
def collectSigs (allsigs : Std.ExtTreeSet Bytes) (sigs : List Bytes) : Std.ExtTreeSet Bytes :=
  sigs.foldl (fun allsigs v => if v = [] then allsigs else allsigs.insert v) allsigs

/-- The loop of `CombineMultisig` that looks for the public key of a signature. -/
def matchSig (sigs : Std.ExtTreeMap Bytes Bytes) (sig : Bytes) :
    List Bytes → Std.ExtTreeMap Bytes Bytes
  | [] => sigs
  | pubkey :: pubkeys =>
    -- already got a sig for this pubkey
    if pubkey ∈ sigs then matchSig sigs sig pubkeys
    else if checkSig crypto sig pubkey scriptPubKey txTo nIn 0 then sigs.insert pubkey sig
    else matchSig sigs sig pubkeys

/-- The loop of `CombineMultisig` that builds the merged script: the number of its signatures, and
the script. -/
def mergeSigs (sigs : Std.ExtTreeMap Bytes Bytes) (nSigsRequired : ℕ) :
    List Bytes → ℕ → CScript → ℕ × CScript
  | [], nSigsHave, result => (nSigsHave, result)
  | pubkey :: pubkeys, nSigsHave, result =>
    if nSigsHave < nSigsRequired then
      match sigs[pubkey]? with
      | some sig => mergeSigs sigs nSigsRequired pubkeys (nSigsHave + 1) (result.pushData sig)
      | none => mergeSigs sigs nSigsRequired pubkeys nSigsHave result
    else (nSigsHave, result)

def combineMultisig (vSolutions sigs1 sigs2 : List Bytes) : Except Fault CScript :=
  let allsigs := collectSigs (collectSigs ∅ sigs1) sigs2
  -- the assertion, and the element access
  if vSolutions.length ≤ 1 then .error .undefined
  else match vSolutions.head?.bind List.head? with
    | none => .error .undefined
    | some nSigsRequired =>
      let pubkeys := vSolutions.tail.take (vSolutions.length - 2)
      let sigs := allsigs.toList.foldl
        (fun sigs sig => matchSig crypto scriptPubKey txTo nIn sigs sig pubkeys) ∅
      -- pop-one-too-many workaround
      let (nSigsHave, result) :=
        mergeSigs sigs nSigsRequired.toNat pubkeys 0 (pushOpcode [] OP_0)
      -- fill any missing with OP_0
      .ok ((List.replicate (nSigsRequired.toNat - nSigsHave) OP_0).foldl pushOpcode result)

end Source

/-! ## All signatures -/

lemma mem_collectSigs {allsigs : Std.ExtTreeSet Bytes} {sigs : List Bytes} {v : Bytes} :
    v ∈ collectSigs allsigs sigs ↔ v ∈ allsigs ∨ v ∈ sigs ∧ v ≠ [] := by
  induction sigs generalizing allsigs with
  | nil => simp [collectSigs]
  | cons sig sigs ih =>
    rw [collectSigs, List.foldl_cons, ← collectSigs, ih, List.mem_cons]
    by_cases hempty : sig = []
    · rw [if_pos hempty]
      constructor
      · rintro (hv | ⟨hv, hne⟩)
        · exact .inl hv
        · exact .inr ⟨.inr hv, hne⟩
      · rintro (hv | ⟨rfl | hv, hne⟩)
        · exact .inl hv
        · exact absurd hempty hne
        · exact .inr ⟨hv, hne⟩
    · rw [if_neg hempty, Std.ExtTreeSet.mem_insert, Std.LawfulEqCmp.compare_eq_iff_eq]
      constructor
      · rintro ((rfl | hv) | ⟨hv, hne⟩)
        · exact .inr ⟨.inl rfl, hempty⟩
        · exact .inl hv
        · exact .inr ⟨.inr hv, hne⟩
      · rintro (hv | ⟨rfl | hv, hne⟩)
        · exact .inl (.inr hv)
        · exact .inl (.inl rfl)
        · exact .inr ⟨hv, hne⟩

/-- The order of the two scripts makes no difference. -/
lemma collectSigs_comm (sigs1 sigs2 : List Bytes) :
    collectSigs (collectSigs ∅ sigs1) sigs2 = collectSigs (collectSigs ∅ sigs2) sigs1 := by
  refine Std.ExtTreeSet.ext_mem fun v => ?_
  rw [mem_collectSigs, mem_collectSigs, mem_collectSigs, mem_collectSigs, or_right_comm]

lemma combineMultisig_comm (crypto : Crypto) (scriptPubKey : CScript) (txTo : CTransaction)
    (nIn : ℕ) (vSolutions sigs1 sigs2 : List Bytes) :
    combineMultisig crypto scriptPubKey txTo nIn vSolutions sigs2 sigs1 =
      combineMultisig crypto scriptPubKey txTo nIn vSolutions sigs1 sigs2 := by
  rw [combineMultisig, combineMultisig, collectSigs_comm]

lemma mem_allsigs {sigs1 sigs2 : List Bytes} {v : Bytes} :
    v ∈ (collectSigs (collectSigs ∅ sigs1) sigs2).toList ↔ v ∈ sigs1 ++ sigs2 ∧ v ≠ [] := by
  rw [Std.ExtTreeSet.mem_toList, mem_collectSigs, mem_collectSigs, List.mem_append, or_and_right]
  exact or_congr_left (or_iff_right Std.ExtTreeSet.not_mem_empty)

/-! ## The signatures of the keys -/

section

variable {crypto : Crypto} {scriptPubKey : CScript} {txTo : CTransaction} {nIn : ℕ}
  {sigs : Std.ExtTreeMap Bytes Bytes}

/-- A signature that a public key accepts for the script. -/
def fitsKey (crypto : Crypto) (scriptPubKey : CScript) (txTo : CTransaction) (nIn : ℕ)
    (sig pubkey : Bytes) : Bool :=
  checkSig crypto sig pubkey scriptPubKey txTo nIn 0

/-- A signature takes the first key that accepts it and has none yet. -/
lemma getElem?_matchSig (sig : Bytes) (pubkeys : List Bytes) :
    (fun pubkey => (matchSig crypto scriptPubKey txTo nIn sigs sig pubkeys)[pubkey]?) =
      FirstFit.place (fitsKey crypto scriptPubKey txTo nIn) pubkeys (fun pubkey => sigs[pubkey]?)
        sig := by
  induction pubkeys with
  | nil => rfl
  | cons pubkey pubkeys ih =>
    rw [matchSig, FirstFit.place, List.find?_cons]
    by_cases hmem : pubkey ∈ sigs
    · have hsome : sigs[pubkey]?.isNone = false := by
        rw [Std.ExtTreeMap.mem_iff_isSome_getElem?] at hmem
        rw [Option.isNone_eq_false_iff]
        exact hmem
      rw [if_pos hmem, hsome, Bool.false_and, ih]
      rfl
    · have hnone : sigs[pubkey]? = none := Std.ExtTreeMap.getElem?_eq_none hmem
      rw [if_neg hmem, hnone, Option.isNone_none, Bool.true_and, fitsKey]
      by_cases hfits : checkSig crypto sig pubkey scriptPubKey txTo nIn 0 = true
      · rw [if_pos hfits, hfits]
        funext k
        dsimp only
        rw [Std.ExtTreeMap.getElem?_insert, Function.update_apply]
        simp only [Std.LawfulEqCmp.compare_eq_iff_eq, eq_comm (a := k)]
      · rw [if_neg hfits, Bool.eq_false_iff.mpr hfits, ih]
        rfl

/-- The signatures take keys in their order. -/
lemma getElem?_foldl_matchSig (pubkeys allsigs : List Bytes) (pubkey : Bytes) :
    (allsigs.foldl (fun sigs sig => matchSig crypto scriptPubKey txTo nIn sigs sig pubkeys)
      (∅ : Std.ExtTreeMap Bytes Bytes))[pubkey]? =
      FirstFit.placeAll (fitsKey crypto scriptPubKey txTo nIn) pubkeys allsigs pubkey := by
  have hfold : ∀ sigs : Std.ExtTreeMap Bytes Bytes,
      (fun pubkey => (allsigs.foldl
        (fun sigs sig => matchSig crypto scriptPubKey txTo nIn sigs sig pubkeys) sigs)[pubkey]?) =
        allsigs.foldl (FirstFit.place (fitsKey crypto scriptPubKey txTo nIn) pubkeys)
          fun pubkey => sigs[pubkey]? := by
    induction allsigs with
    | nil => exact fun _ => rfl
    | cons sig allsigs ih =>
      intro sigs
      rw [List.foldl_cons, List.foldl_cons, ih, getElem?_matchSig]
  have hempty : (fun pubkey => (∅ : Std.ExtTreeMap Bytes Bytes)[pubkey]?) = fun _ => none :=
    funext fun _ => Std.ExtTreeMap.getElem?_empty
  rw [FirstFit.placeAll, ← hempty]
  exact congrFun (hfold ∅) pubkey

/-- The merged script has the signatures of the first keys that have one. -/
lemma mergeSigs_eq {nSigsRequired nSigsHave : ℕ} (hle : nSigsHave ≤ nSigsRequired)
    (pubkeys : List Bytes) (result : CScript) :
    mergeSigs sigs nSigsRequired pubkeys nSigsHave result =
      (nSigsHave + ((pubkeys.filterMap (sigs[·]?)).take (nSigsRequired - nSigsHave)).length,
        result ++ pushAll ((pubkeys.filterMap (sigs[·]?)).take (nSigsRequired - nSigsHave))) := by
  induction pubkeys generalizing nSigsHave result with
  | nil => simp [mergeSigs, pushAll]
  | cons pubkey pubkeys ih =>
    rw [mergeSigs]
    by_cases hmore : nSigsHave < nSigsRequired
    · rw [if_pos hmore]
      cases hsig : sigs[pubkey]? with
      | none =>
        rw [List.filterMap_cons_none hsig]
        exact ih hle result
      | some sig =>
        have htake : nSigsRequired - nSigsHave = nSigsRequired - (nSigsHave + 1) + 1 := by omega
        rw [List.filterMap_cons_some hsig, htake, List.take_succ_cons, List.length_cons]
        have hle' : nSigsHave + 1 ≤ nSigsRequired := hmore
        refine (ih hle' (result.pushData sig)).trans (Prod.ext ?_ ?_)
        · exact (Nat.add_assoc _ _ _).trans (congrArg _ (Nat.add_comm _ _))
        · dsimp only
          rw [pushData_eq, List.append_assoc]
          rfl
    · rw [if_neg hmore, Nat.sub_eq_zero_of_le (not_lt.mp hmore)]
      simp [pushAll]

/-- The signatures that `CombineMultisig` takes from two scripts, in the order of their keys. -/
def combinedSigs (crypto : Crypto) (scriptPubKey : CScript) (txTo : CTransaction) (nIn : ℕ)
    (nRequired : ℕ) (keys sigs1 sigs2 : List Bytes) : List Bytes :=
  (keys.filterMap (FirstFit.placeAll (fitsKey crypto scriptPubKey txTo nIn) keys
    (collectSigs (collectSigs ∅ sigs1) sigs2).toList)).take nRequired

variable {nRequired : ℕ} {keys sigs1 sigs2 : List Bytes} {last sig : Bytes}

/-- The script has these signatures, and `OP_0` in the place of those that are missing. -/
lemma combineMultisig_eq (hrequired : nRequired ≤ 16) :
    combineMultisig crypto scriptPubKey txTo nIn ([UInt8.ofNat nRequired] :: (keys ++ [last])) sigs1
      sigs2 =
      .ok (pushAll ([] :: (combinedSigs crypto scriptPubKey txTo nIn nRequired keys sigs1 sigs2 ++
        List.replicate (nRequired -
          (combinedSigs crypto scriptPubKey txTo nIn nRequired keys sigs1 sigs2).length) []))) := by
  have hnat : (UInt8.ofNat nRequired).toNat = nRequired := by
    rw [UInt8.toNat_ofNat', Nat.mod_eq_of_lt (by omega)]
  have hkeys : (keys ++ [last]).take
      (([UInt8.ofNat nRequired] :: (keys ++ [last])).length - 2) = keys :=
    List.take_left' (by simp)
  have hsigs : combinedSigs crypto scriptPubKey txTo nIn nRequired keys sigs1 sigs2 =
      (keys.filterMap fun pubkey => ((collectSigs (collectSigs ∅ sigs1) sigs2).toList.foldl
        (fun sigs sig => matchSig crypto scriptPubKey txTo nIn sigs sig keys)
          (∅ : Std.ExtTreeMap Bytes Bytes))[pubkey]?).take nRequired := by
    simp only [getElem?_foldl_matchSig]
    rfl
  have hfill : ∀ (k : ℕ) (result : CScript),
      (List.replicate k OP_0).foldl pushOpcode result =
        result ++ pushAll (List.replicate k []) := by
    intro k
    induction k with
    | zero => exact fun result => (List.append_nil result).symm
    | succ k ih =>
      intro result
      rw [List.replicate_succ, List.foldl_cons, ih, pushOpcode, List.append_assoc]
      rfl
  rw [combineMultisig]
  simp only [List.head?_cons, Option.bind_some, List.tail_cons, hkeys, hnat]
  rw [if_neg (by simp), mergeSigs_eq (Nat.zero_le _), Nat.sub_zero, ← hsigs]
  dsimp only
  rw [hfill, Nat.zero_add, List.append_assoc, ← pushAll_append]
  rfl

lemma mem_of_mem_combinedSigs
    (h : sig ∈ combinedSigs crypto scriptPubKey txTo nIn nRequired keys sigs1 sigs2) :
    sig ∈ sigs1 ++ sigs2 ∧ ∃ key ∈ keys, fitsKey crypto scriptPubKey txTo nIn sig key = true := by
  obtain ⟨key, -, hplace⟩ := List.mem_filterMap.mp (List.mem_of_mem_take h)
  obtain ⟨hkey, hmem, hfits⟩ := FirstFit.placeAll_spec hplace
  exact ⟨(mem_allsigs.mp hmem).1, key, hkey, hfits⟩

/-- Each of them fits a key of its own, in the order of the keys. -/
lemma sublistForall₂_combinedSigs :
    List.SublistForall₂ (fun sig key => fitsKey crypto scriptPubKey txTo nIn sig key = true)
      (combinedSigs crypto scriptPubKey txTo nIn nRequired keys sigs1 sigs2) keys := by
  have hall : ∀ keys' : List Bytes, List.SublistForall₂
      (fun sig key => fitsKey crypto scriptPubKey txTo nIn sig key = true)
      (keys'.filterMap (FirstFit.placeAll (fitsKey crypto scriptPubKey txTo nIn) keys
        (collectSigs (collectSigs ∅ sigs1) sigs2).toList)) keys' := by
    intro keys'
    induction keys' with
    | nil => exact .nil
    | cons key keys' ih =>
      cases hplace : FirstFit.placeAll (fitsKey crypto scriptPubKey txTo nIn) keys
          (collectSigs (collectSigs ∅ sigs1) sigs2).toList key with
      | none =>
        rw [List.filterMap_cons_none hplace]
        exact .cons_right ih
      | some sig =>
        rw [List.filterMap_cons_some hplace]
        exact .cons (FirstFit.placeAll_spec hplace).2.2 ih
  have hfirst := hall keys
  rw [List.sublistForall₂_iff] at hfirst ⊢
  obtain ⟨l, hl, hsub⟩ := hfirst
  exact ⟨l.take nRequired, List.forall₂_take nRequired hl, (List.take_sublist _ _).trans hsub⟩

/-- A key that some signature of two scripts fits. -/
def covered (crypto : Crypto) (scriptPubKey : CScript) (txTo : CTransaction) (nIn : ℕ)
    (sigs1 sigs2 : List Bytes) (key : Bytes) : Bool :=
  (sigs1 ++ sigs2).any fun sig => fitsKey crypto scriptPubKey txTo nIn sig key

/-- There are no more of them than keys that some signature fits. -/
lemma length_combinedSigs_le :
    (combinedSigs crypto scriptPubKey txTo nIn nRequired keys sigs1 sigs2).length ≤
      keys.countP (covered crypto scriptPubKey txTo nIn sigs1 sigs2) := by
  rw [combinedSigs, List.length_take, List.length_filterMap_eq_countP]
  refine (Nat.min_le_right _ _).trans (List.countP_mono_left fun key _ hsome => ?_)
  obtain ⟨sig, hplace⟩ := Option.isSome_iff_exists.mp hsome
  obtain ⟨-, hmem, hfits⟩ := FirstFit.placeAll_spec hplace
  exact List.any_eq_true.mpr ⟨sig, (mem_allsigs.mp hmem).1, hfits⟩

/-- An empty signature fits no key. -/
lemma fitsKey_nil (key : Bytes) : fitsKey crypto scriptPubKey txTo nIn [] key = false := rfl

/-- If no signature fits several keys, there are as many as keys that some signature fits, up to the
number that is needed. -/
lemma length_combinedSigs
    (hunique : ∀ sig ∈ sigs1 ++ sigs2, ∀ key ∈ keys, ∀ key' ∈ keys,
      fitsKey crypto scriptPubKey txTo nIn sig key = true →
        fitsKey crypto scriptPubKey txTo nIn sig key' = true → key' = key) :
    (combinedSigs crypto scriptPubKey txTo nIn nRequired keys sigs1 sigs2).length =
      min nRequired (keys.countP (covered crypto scriptPubKey txTo nIn sigs1 sigs2)) := by
  rw [combinedSigs, List.length_take, List.length_filterMap_eq_countP]
  refine congrArg _ (List.countP_congr fun key hkey => ?_)
  rw [FirstFit.placeAll_isSome_iff fun sig hsig => hunique sig (mem_allsigs.mp hsig).1,
    and_iff_right hkey, covered, List.any_eq_true]
  constructor
  · rintro ⟨sig, hsig, hfits⟩
    exact ⟨sig, (mem_allsigs.mp hsig).1, hfits⟩
  · rintro ⟨sig, hsig, hfits⟩
    refine ⟨sig, mem_allsigs.mpr ⟨hsig, ?_⟩, hfits⟩
    rintro rfl
    rw [fitsKey_nil] at hfits
    cases hfits

/-! ## Verification -/

/-- A script that pushes something else does not start with the push of a signature. -/
lemma not_pushData_start {pc pc' : CScript} {opcode : UInt8} {vch : Bytes}
    (hshort : pc.length ≤ 10000) (hop : getOp2 pc = some (opcode, vch, pc')) (hvch : vch ≠ sig) :
    ¬ pushData [] sig <+: pc := by
  rintro ⟨rest, rfl⟩
  have hpush := le_length_pushData sig
  rw [List.length_append] at hshort
  have hread : ∃ opcode ≤ OP_PUSHDATA4,
      getOp2 (pushData [] sig ++ rest) = some (opcode, sig, rest) := getOp2_pushData (by omega)
  obtain ⟨opcode', -, hop'⟩ := hread
  rw [hop] at hop'
  cases hop'
  exact hvch rfl

/-- Pushes of keys that are not the signature are kept. -/
lemma findAndDelete_pushes {pc pc' : CScript} (h : Pushes pc keys pc') (hshort : pc.length ≤ 10000)
    (hkey : sig ∉ keys) (hrest : findAndDelete (pushData [] sig) pc' = pc') :
    findAndDelete (pushData [] sig) pc = pc := by
  induction h with
  | nil => exact hrest
  | cons hop hle _ ih =>
    have hlt := length_lt_of_getOp2 hop
    have hne := List.ne_of_not_mem_cons hkey
    exact findAndDelete_of_getOp2 (not_pushData_start hshort hop hne.symm) hop
      (ih (by omega) (List.not_mem_of_not_mem_cons hkey) hrest)

/-- A script with several keys has a signature at the start of an operation only if that has the
bytes of a key. -/
lemma findAndDelete_multisig (h : IsPayToMultiSig scriptPubKey nRequired keys) (hne : sig ≠ [])
    (hkey : sig ∉ keys) : findAndDelete (pushData [] sig) scriptPubKey = scriptPubKey := by
  obtain ⟨opcodeM, opcodeN, pc1, pc2, pc3, hopM, -, -, hpushes, hopN, -, -, hopC⟩ := h.ops
  have hpush_ne : pushData [] sig ≠ [] := by
    intro hnil
    have hpush := le_length_pushData sig
    rw [hnil] at hpush
    exact hne (List.length_eq_zero_iff.mp (Nat.le_zero.mp hpush))
  have hlengthM := h.length_le
  have hlength1 := length_lt_of_getOp2 hopM
  have hlengthN := hpushes.suffix.length_le
  have hlengthC := length_lt_of_getOp2 hopN
  have hC : findAndDelete (pushData [] sig) pc3 = pc3 :=
    findAndDelete_of_getOp2 (not_pushData_start (by omega) hopC hne.symm) hopC
      (findAndDelete_nil hpush_ne)
  have hN : findAndDelete (pushData [] sig) pc2 = pc2 :=
    findAndDelete_of_getOp2 (not_pushData_start (by omega) hopN hne.symm) hopN hC
  exact findAndDelete_of_getOp2 (not_pushData_start hlengthM hopM hne.symm) hopM
    (findAndDelete_pushes hpushes (by omega) hkey hN)

variable {vchSigs : List Bytes}

/-- `VerifyScript` accepts as many signatures as are needed if they fit the keys in their order,
with the signatures deleted from the script. -/
lemma verifyScript_multisig_iff (env : ScriptEnv) (fValidate : Bool)
    (h : IsPayToMultiSig scriptPubKey nRequired keys) (hlength : vchSigs.length = nRequired)
    (hsize : ∀ vchSig ∈ vchSigs, vchSig.length ≤ 520) :
    (env.verifyScript (pushAll ([] :: vchSigs)) scriptPubKey fValidate).result = .ok true ↔
      List.SublistForall₂ (fun vchSig key =>
        env.checkSig vchSig key (dropAll scriptPubKey vchSigs.reverse) = true) vchSigs keys := by
  have hkeys := h.keys_le
  have hle := h.required_le
  have hitems : ∀ vch ∈ [] :: vchSigs, vch.length ≤ 520 := by
    intro vch hvch
    rcases List.mem_cons.mp hvch with rfl | hvch
    · exact Nat.zero_le _
    · exact hsize vch hvch
  have hcount : ([] :: vchSigs).length ≤ 17 := by
    rw [List.length_cons]
    omega
  have hshort := length_pushAll_le hitems
  have hsig := evalScript_pushAll env (by omega) (by omega) hitems
  have hpubKey := env.evalScript_of_leads (P := fun stack => stack = _) h.length_le
    (env.leads_payToMultiSig h hlength)
  rcases hfirst : env.evalScript [] (pushAll ([] :: vchSigs)) with ⟨fSig, s⟩
  rw [hfirst] at hsig
  obtain ⟨rfl, hstack⟩ := hsig
  dsimp only at hstack
  rw [← hstack] at hpubKey
  rcases hsecond : env.evalScript s.stack scriptPubKey with ⟨fPubKey, s'⟩
  rw [hsecond] at hpubKey
  obtain ⟨rfl, hstack'⟩ := hpubKey
  dsimp only at hstack'
  rw [← ScriptEnv.assigns_reverse]
  have htrue : castToBool vchTrue = true := rfl
  have hfalse : castToBool vchFalse = false := rfl
  by_cases hassigns : assigns (env.checkSig · · (dropAll scriptPubKey vchSigs.reverse))
      vchSigs.reverse keys.reverse = true
  · simp [ScriptEnv.verifyScript, hfirst, hsecond, hstack', h.notScriptHash, hassigns, htrue]
  · simp [ScriptEnv.verifyScript, hfirst, hsecond, hstack', hassigns, hfalse]

/-- The parts of what `Solver` returns for a script with several keys. -/
lemma isPayToMultiSig_of_solutions {nRequired : UInt8}
    (hsolver : scriptPubKey.solver = some (.TX_MULTISIG, [nRequired] :: (keys ++ [last]))) :
    IsPayToMultiSig scriptPubKey nRequired.toNat keys ∧ nRequired.toNat ≤ 16 ∧
      nRequired = UInt8.ofNat nRequired.toNat := by
  obtain ⟨n, keys', hsols, h⟩ := isPayToMultiSig_of_solver hsolver
  obtain ⟨hfirst, hrest⟩ := List.cons.inj hsols
  obtain ⟨hkeys, -⟩ := List.append_inj' hrest rfl
  have hn : nRequired = UInt8.ofNat n := (List.cons.inj hfirst).1
  have hle := h.required_le.trans h.keys_le
  have hnat : nRequired.toNat = n := by
    rw [hn, UInt8.toNat_ofNat', Nat.mod_eq_of_lt (by omega)]
  rw [hnat, hkeys]
  exact ⟨h, hle, hn⟩

/-- What is accepted has no empty signature. -/
lemma nil_not_mem_of_sublistForall₂ {env : ScriptEnv} {script : CScript}
    (hnil : ∀ key, env.checkSig [] key script = false)
    (h : List.SublistForall₂ (fun vchSig key => env.checkSig vchSig key script = true) vchSigs
      keys) : [] ∉ vchSigs := by
  intro hmem
  rw [List.sublistForall₂_iff] at h
  obtain ⟨l, hl, -⟩ := h
  obtain ⟨key, -, hfits⟩ := exists_of_forall₂ hl hmem
  rw [hnil] at hfits
  cases hfits

/-- The merged script is accepted only if it has all signatures that are needed. -/
lemma length_eq_of_accepts {fValidate : Bool} (h : IsPayToMultiSig scriptPubKey nRequired keys)
    (hle : vchSigs.length ≤ nRequired) (hsize : ∀ vchSig ∈ vchSigs, vchSig.length ≤ 520)
    (haccepts : ((crypto.scriptEnv txTo nIn 0).verifyScript
      (pushAll ([] :: (vchSigs ++ List.replicate (nRequired - vchSigs.length) []))) scriptPubKey
      fValidate).result = .ok true) : vchSigs.length = nRequired := by
  have hsize' : ∀ vchSig ∈ vchSigs ++ List.replicate (nRequired - vchSigs.length) [],
      vchSig.length ≤ 520 := by
    intro vchSig hmem
    rcases List.mem_append.mp hmem with hmem | hmem
    · exact hsize vchSig hmem
    · rw [List.eq_of_mem_replicate hmem]
      exact Nat.zero_le _
  have hlength :
      (vchSigs ++ List.replicate (nRequired - vchSigs.length) []).length = nRequired := by
    rw [List.length_append, List.length_replicate]
    omega
  rw [verifyScript_multisig_iff _ _ h hlength hsize'] at haccepts
  have hnil := nil_not_mem_of_sublistForall₂ (fun _ => rfl) haccepts
  by_contra hne
  have hmissing : nRequired - vchSigs.length ≠ 0 := by omega
  exact hnil (List.mem_append_right _ (List.mem_replicate.mpr ⟨hmissing, rfl⟩))

/-- A script with all signatures that are needed is accepted, if none of them is in the script of
the output. -/
lemma accepts_of_length_eq (fValidate : Bool) (h : IsPayToMultiSig scriptPubKey nRequired keys)
    (hlength : vchSigs.length = nRequired) (hsize : ∀ vchSig ∈ vchSigs, vchSig.length ≤ 520)
    (hkey : ∀ vchSig ∈ vchSigs, vchSig ∉ keys)
    (hfits : List.SublistForall₂
      (fun sig key => fitsKey crypto scriptPubKey txTo nIn sig key = true) vchSigs keys) :
    ((crypto.scriptEnv txTo nIn 0).verifyScript (pushAll ([] :: vchSigs)) scriptPubKey
      fValidate).result = .ok true := by
  have hempty : ∀ key, (crypto.scriptEnv txTo nIn 0).checkSig [] key scriptPubKey = false :=
    fun key => rfl
  have hnil : [] ∉ vchSigs := nil_not_mem_of_sublistForall₂ hempty hfits
  have hdrop : dropAll scriptPubKey vchSigs.reverse = scriptPubKey := by
    refine ScriptEnv.dropAll_eq fun vchSig hmem => ?_
    have hmem' := List.mem_reverse.mp hmem
    exact findAndDelete_multisig h (fun heq => hnil (heq ▸ hmem')) (hkey vchSig hmem')
  rw [verifyScript_multisig_iff _ _ h hlength hsize, hdrop]
  exact hfits

/-! ## What is combined -/

/-- No signature that a key accepts has the bytes of a key. -/
def Apart (crypto : Crypto) (scriptPubKey : CScript) (txTo : CTransaction) (nIn : ℕ)
    (keys sigs : List Bytes) : Prop :=
  ∀ sig ∈ sigs, ∀ key ∈ keys, fitsKey crypto scriptPubKey txTo nIn sig key = true → sig ∉ keys

/-- No signature is accepted by several keys. -/
def Unambiguous (crypto : Crypto) (scriptPubKey : CScript) (txTo : CTransaction) (nIn : ℕ)
    (keys sigs : List Bytes) : Prop :=
  ∀ sig ∈ sigs, ∀ key ∈ keys, ∀ key' ∈ keys, fitsKey crypto scriptPubKey txTo nIn sig key = true →
    fitsKey crypto scriptPubKey txTo nIn sig key' = true → key' = key

/-- `CombineMultisig` does not depend on the order of the two lists.  It puts signatures into the
script in the order of their keys, and `OP_0` in the place of those that are missing.  If
`VerifyScript` accepts the script, then as many keys as are needed accept a signature; and if they
do, it accepts the script, provided that no signature is accepted by several keys or has the bytes
of a key. -/
theorem combineMultisig_spec {crypto : Crypto} {scriptPubKey : CScript} {nRequired : UInt8}
    {keys : List Bytes} {last : Bytes}
    (hsolver : scriptPubKey.solver = some (.TX_MULTISIG, [nRequired] :: (keys ++ [last])))
    (txTo : CTransaction) (nIn : ℕ) {sigs1 sigs2 : List Bytes}
    (hsize : ∀ sig ∈ sigs1 ++ sigs2, sig.length ≤ 520) :
    combineMultisig crypto scriptPubKey txTo nIn ([nRequired] :: (keys ++ [last])) sigs2 sigs1 =
      combineMultisig crypto scriptPubKey txTo nIn ([nRequired] :: (keys ++ [last])) sigs1 sigs2 ∧
    ∃ combined vchSigs,
      combineMultisig crypto scriptPubKey txTo nIn ([nRequired] :: (keys ++ [last])) sigs1 sigs2 =
        .ok combined ∧
      combined = pushAll ([] :: (vchSigs ++ List.replicate (nRequired.toNat - vchSigs.length) [])) ∧
      vchSigs.length ≤ nRequired.toNat ∧ (∀ sig ∈ vchSigs, sig ∈ sigs1 ++ sigs2) ∧
      List.SublistForall₂ (fun sig key => fitsKey crypto scriptPubKey txTo nIn sig key = true)
        vchSigs keys ∧
      ∀ fValidate,
        (((crypto.scriptEnv txTo nIn 0).verifyScript combined scriptPubKey fValidate).result =
            .ok true →
          nRequired.toNat ≤ keys.countP (covered crypto scriptPubKey txTo nIn sigs1 sigs2)) ∧
        (Apart crypto scriptPubKey txTo nIn keys (sigs1 ++ sigs2) →
          Unambiguous crypto scriptPubKey txTo nIn keys (sigs1 ++ sigs2) →
          nRequired.toNat ≤ keys.countP (covered crypto scriptPubKey txTo nIn sigs1 sigs2) →
          ((crypto.scriptEnv txTo nIn 0).verifyScript combined scriptPubKey fValidate).result =
            .ok true) := by
  obtain ⟨h, hle16, hrequired⟩ := isPayToMultiSig_of_solutions hsolver
  set vchSigs := combinedSigs crypto scriptPubKey txTo nIn nRequired.toNat keys sigs1 sigs2
    with hsigs
  have hmem : ∀ sig ∈ vchSigs, sig ∈ sigs1 ++ sigs2 ∧
      ∃ key ∈ keys, fitsKey crypto scriptPubKey txTo nIn sig key = true :=
    fun sig hsig => mem_of_mem_combinedSigs hsig
  have hle : vchSigs.length ≤ nRequired.toNat := List.length_take_le _ _
  have hsize' : ∀ sig ∈ vchSigs, sig.length ≤ 520 := fun sig hsig => hsize sig (hmem sig hsig).1
  have hcombine : combineMultisig crypto scriptPubKey txTo nIn ([nRequired] :: (keys ++ [last]))
      sigs1 sigs2 = .ok (pushAll ([] ::
        (vchSigs ++ List.replicate (nRequired.toNat - vchSigs.length) []))) := by
    conv_lhs => rw [hrequired]
    exact combineMultisig_eq hle16
  refine ⟨combineMultisig_comm .., _, vchSigs, hcombine, rfl, hle,
    fun sig hsig => (hmem sig hsig).1, sublistForall₂_combinedSigs,
    fun fValidate => ⟨fun haccepts => ?_, fun hapart hunique hcovered => ?_⟩⟩
  · rw [← length_eq_of_accepts h hle hsize' haccepts]
    exact length_combinedSigs_le
  · have hlength : vchSigs.length = nRequired.toNat := by
      rw [hsigs, length_combinedSigs hunique]
      exact Nat.min_eq_left hcovered
    rw [hlength, Nat.sub_self, List.replicate_zero, List.append_nil]
    refine accepts_of_length_eq fValidate h hlength hsize' (fun sig hsig => ?_)
      sublistForall₂_combinedSigs
    obtain ⟨hsig', key, hkey, hfits⟩ := hmem sig hsig
    exact hapart sig hsig' key hkey hfits

end

/-! ## Samples -/

/-- A cryptography in which a hash is the length of what is hashed, and a public key accepts every
signature of some hashes. -/
def lengthCrypto (accepts : Bytes → ℕ → Bool) : Crypto where
  ripemd160 _ := 0
  sha1 _ := 0
  sha256 vch := BitVec.ofNat 256 (if vch.length = 32 then leValue vch else vch.length)
  verify vchPubKey hash _ := accepts vchPubKey hash.toNat

/-- A public key of a byte. -/
def byteKey (byte : UInt8) : Bytes := List.replicate 33 byte

/-- A script that pays to some of several keys. -/
def byteMultisig (nRequired : ℕ) (keys : List Bytes) : CScript :=
  [opNumberOf nRequired] ++ (keys.map (pushData [])).flatten ++
    [opNumberOf keys.length, OP_CHECKMULTISIG]

/-- How many keys accept one of some signatures, and whether `VerifyScript` accepts what
`CombineMultisig` makes of them. -/
def combineRun (accepts : Bytes → ℕ → Bool) (nRequired : ℕ) (keys sigs : List Bytes) :
    Option (ℕ × Bool) := do
  let crypto := lengthCrypto accepts
  let txTo : CTransaction := { vin := [{}] }
  let script := byteMultisig nRequired keys
  let (_, vSolutions) ← script.solver
  let combined ← (combineMultisig crypto script txTo 0 vSolutions sigs []).toOption
  let fAccepted ← ((crypto.scriptEnv txTo 0 0).verifyScript combined script true).result.toOption
  return (keys.countP (covered crypto script txTo 0 sigs []), fAccepted)

/-- A signature for one key is found. -/
theorem combineMultisig_spec_sample :
    ∃ combined, combineMultisig (lengthCrypto fun _ _ => true) (byteMultisig 1 [byteKey 2])
        { vin := [{}] } 0 [[1], byteKey 2, [1]] [[1, 1]] [] = .ok combined ∧
      (((lengthCrypto fun _ _ => true).scriptEnv { vin := [{}] } 0 0).verifyScript combined
        (byteMultisig 1 [byteKey 2]) true).result = .ok true := by
  have hsolver : (byteMultisig 1 [byteKey 2]).solver =
      some (.TX_MULTISIG, [1] :: ([byteKey 2] ++ [[1]])) := by decide +kernel
  have hsize : ∀ sig ∈ [[1, 1]] ++ ([] : List Bytes), sig.length ≤ 520 := by simp
  obtain ⟨-, combined, vchSigs, hcombine, -, -, -, -, hverify⟩ :=
    @combineMultisig_spec (lengthCrypto fun _ _ => true) _ _ _ _ hsolver { vin := [{}] } 0 _ _ hsize
  refine ⟨combined, hcombine, (hverify true).2 ?_ ?_ (by decide)⟩
  · intro sig hsig key hkey _
    simp only [List.append_nil, List.mem_singleton] at hsig
    rw [hsig]
    decide
  · intro sig _ key hkey key' hkey' _ _
    rw [List.mem_singleton.mp hkey, List.mem_singleton.mp hkey']

/-- A signature that two keys accept is put into the script once, one that has the bytes of a key is
deleted from the script before it is checked, and one of more than 520 bytes is not pushed; and with
a key that is listed twice, one signature is enough for a script that needs two. -/
theorem not_combineMultisig_spec :
    combineRun (fun _ _ => true) 2 [byteKey 2, byteKey 3] [[1, 1]] = some (2, false) ∧
      combineRun (fun key n => key == byteKey 2 && n == 130) 1 [byteKey 2, byteKey 1] [byteKey 1] =
        some (1, false) ∧
      combineRun (fun _ _ => true) 1 [byteKey 2] [List.replicate 521 1] = some (1, false) ∧
      combineRun (fun _ _ => true) 2 [byteKey 2, byteKey 2] [[1, 1]] = some (2, true) := by
  refine ⟨?_, ?_, ?_, ?_⟩ <;> decide +kernel

end HyperStake
