import HyperStake.Script.StandardRuns

/-!
# Spending what is mine

The script that `SignSignature` makes for an output of a standard kind pushes what the script of the
output takes: signatures, a public key, and a redemption script.  When the keys sign what they
verify, the scripts run through, so an output that `IsMine` accepts can be spent, with two
exceptions.  `IsMine` looks into a redemption script of any kind and of any size, while
`SignSignature` does not take one that pays to a script hash again, and `EvalScript` does not push
one of more than 520 bytes.
-/

namespace HyperStake

open LittleEndian Stopping Eval GreedyMatch CScript

/-- A `uint160` has the bytes that it is made of. -/
lemma leBytes_uint160 {vch : Bytes} (h : vch.length = 20) : leBytes 20 (uint160 vch).toNat = vch := by
  have hlt := leValue_lt vch
  rw [h] at hlt
  have hvalue : (uint160 vch).toNat = leValue vch := by
    rw [uint160, if_pos h, BitVec.toNat_ofNat, Nat.mod_eq_of_lt (hlt.trans_eq (by norm_num))]
  rw [hvalue, ← h, leBytes_leValue]

/-- A member of a list that is related to another one is related to a member of that. -/
lemma exists_of_forall₂ {α β : Type*} {R : α → β → Prop} {as : List α} {bs : List β}
    (h : List.Forall₂ R as bs) {a : α} (ha : a ∈ as) : ∃ b ∈ bs, R a b := by
  induction h with
  | nil => cases ha
  | @cons a' b as bs hab _ ih =>
    rcases List.mem_cons.mp ha with rfl | ha
    · exact ⟨b, List.mem_cons_self .., hab⟩
    · obtain ⟨b', hb', hab'⟩ := ih ha
      exact ⟨b', List.mem_cons_of_mem _ hb', hab'⟩

/-! ## The hash that is signed -/

section SignatureHash

variable (crypto : Crypto) (txTo : CTransaction) (nIn : ℕ) (scriptSig scriptCode : CScript)

/-- The scripts of the inputs are blanked out before the transaction is hashed. -/
lemma map_blank_setScriptSig :
    (txTo.setScriptSig nIn scriptSig).vin.map (fun txin => { txin with scriptSig := [] }) =
      txTo.vin.map (fun txin => { txin with scriptSig := [] }) := by
  refine List.ext_getElem (by simp [CTransaction.setScriptSig]) fun i h h' => ?_
  simp only [CTransaction.setScriptSig, List.getElem_map, List.getElem_modify]
  split_ifs <;> rfl

variable (nHashType : Int32)

lemma sigHashTx_setScriptSig :
    sigHashTx scriptCode (txTo.setScriptSig nIn scriptSig) nIn nHashType =
      sigHashTx scriptCode txTo nIn nHashType := by
  have hlength : (txTo.setScriptSig nIn scriptSig).vin.length = txTo.vin.length := by
    simp [CTransaction.setScriptSig]
  simp only [sigHashTx, hlength, map_blank_setScriptSig]
  rfl

/-- A signature does not sign the script that it is put into. -/
lemma signatureHash_setScriptSig :
    signatureHash crypto scriptCode (txTo.setScriptSig nIn scriptSig) nIn nHashType =
      signatureHash crypto scriptCode txTo nIn nHashType := by
  rw [signatureHash, sigHashTx_setScriptSig, signatureHash]

/-- So scripts see the same transaction before and after it is signed. -/
lemma scriptEnv_setScriptSig :
    crypto.scriptEnv (txTo.setScriptSig nIn scriptSig) nIn nHashType =
      crypto.scriptEnv txTo nIn nHashType := by
  simp only [Crypto.scriptEnv, checkSig, signatureHash_setScriptSig]

end SignatureHash

namespace CKeyStore

variable {crypto : Crypto} (keystore : CKeyStore crypto)

section

variable (script : CScript) (txTo : CTransaction) (nIn : ℕ) (nHashType : UInt8)

/-- What the keys do for a script that is signed: each of them signs its hash, its public key
verifies the signature, and the signature can be pushed and is not itself in the script; and no other
key is stored under the hash of a public key of the script. -/
structure Signs : Prop where
  sign : ∀ keyID key, keystore.getKey keyID = some key →
    ∃ vchSig, key.sign (signatureHash crypto script txTo nIn nHashType.toUInt32.toInt32) =
        some vchSig ∧
      crypto.verify key.getPubKey
        (signatureHash crypto script txTo nIn nHashType.toUInt32.toInt32) vchSig = true ∧
      vchSig.length < 520 ∧
      findAndDelete (pushData [] (vchSig ++ [nHashType])) script = script
  getPubKey : ∀ type vSolutions, script.solver = some (type, vSolutions) →
    ∀ vchPubKey ∈ vSolutions, 33 ≤ vchPubKey.length →
      ∀ key, keystore.getKey (crypto.hash160 vchPubKey) = some key → key.getPubKey = vchPubKey

end

/-- A signature for a public key, as it is pushed for a script. -/
structure IsSig (crypto : Crypto) (script : CScript) (txTo : CTransaction) (nIn : ℕ)
    (vchSig vchPubKey : Bytes) : Prop where
  size : vchSig.length ≤ 520
  notIn : findAndDelete (pushData [] vchSig) script = script
  verifies : checkSig crypto vchSig vchPubKey script txTo nIn 0 = true

variable {keystore} {script : CScript} {txTo : CTransaction} {nIn : ℕ} {nHashType : UInt8}

/-- A key that is found signs. -/
lemma Signs.sign1 (h : keystore.Signs script txTo nIn nHashType) {keyID : BitVec 160} {key : CKey}
    (hkey : keystore.getKey keyID = some key) (scriptSigRet : CScript) :
    ∃ vchSig, IsSig crypto script txTo nIn vchSig key.getPubKey ∧
      keystore.sign1 keyID (signatureHash crypto script txTo nIn nHashType.toUInt32.toInt32)
        nHashType.toUInt32.toInt32 scriptSigRet = some (scriptSigRet ++ pushAll [vchSig]) := by
  obtain ⟨vchSig, hsign, hverify, hsize, hnotIn⟩ := h.sign keyID key hkey
  refine ⟨vchSig ++ [nHashType], ⟨?_, hnotIn, ?_⟩, ?_⟩
  · rw [List.length_append]
    exact hsize
  · rw [checkSig, List.getLast?_append]
    simp [hverify]
  · have hpush := pushData_eq scriptSigRet (vchSig ++ [nHashType])
    simp [CKeyStore.sign1, hkey, hsign, pushAll, hpush]

/-- The loop of `SignN` signs for the first of the public keys. -/
lemma Signs.signLoop (h : keystore.Signs script txTo nIn nHashType) (nRequired : ℕ)
    {pubkeys : List Bytes}
    (hkeys : ∀ pubkey ∈ pubkeys, ∃ key, keystore.getKey (crypto.hash160 pubkey) = some key ∧
      key.getPubKey = pubkey) (nSigned : ℕ) (scriptSigRet : CScript) :
    ∃ vchSigs, List.Forall₂ (IsSig crypto script txTo nIn) vchSigs
        (pubkeys.take (nRequired - nSigned)) ∧
      keystore.signLoop nRequired
        (signatureHash crypto script txTo nIn nHashType.toUInt32.toInt32)
        nHashType.toUInt32.toInt32 pubkeys nSigned scriptSigRet =
        (nSigned + vchSigs.length, scriptSigRet ++ pushAll vchSigs) := by
  induction pubkeys generalizing nSigned scriptSigRet with
  | nil => exact ⟨[], by simp, by simp [CKeyStore.signLoop, pushAll]⟩
  | cons pubkey pubkeys ih =>
    rw [CKeyStore.signLoop]
    by_cases hmore : nSigned < nRequired
    · obtain ⟨key, hkey, hpubkey⟩ := hkeys pubkey (List.mem_cons_self ..)
      obtain ⟨vchSig, hsig, hsign⟩ := h.sign1 hkey scriptSigRet
      obtain ⟨vchSigs, hsigs, hloop⟩ := ih (fun pubkey' hmem => hkeys pubkey'
        (List.mem_cons_of_mem _ hmem)) (nSigned + 1) (scriptSigRet ++ pushAll [vchSig])
      have htake : nRequired - nSigned = nRequired - (nSigned + 1) + 1 := by omega
      refine ⟨vchSig :: vchSigs, ?_, ?_⟩
      · rw [htake, List.take_succ_cons]
        exact .cons (hpubkey ▸ hsig) hsigs
      · rw [if_pos hmore, hsign]
        dsimp only
        rw [hloop, List.append_assoc, ← pushAll_append, List.length_cons, List.singleton_append,
          Nat.add_right_comm, Nat.add_assoc]
    · have htake : nRequired - nSigned = 0 := by omega
      rw [if_neg hmore, htake]
      exact ⟨[], by simp, by simp [pushAll]⟩

/-! ## Scripts with a template -/

/-- The data that a script takes before it runs through. -/
structure Redeems (crypto : Crypto) (script : CScript) (txTo : CTransaction) (nIn : ℕ)
    (items : List Bytes) : Prop where
  length_script : script.length ≤ 10000
  length_items : items.length ≤ 17
  size : ∀ vch ∈ items, vch.length ≤ 520
  leads : Leads ((crypto.scriptEnv txTo nIn 0).evalLoop script)
    (fun _ s' => s'.vfExec = [] ∧ s'.stack = [vchTrue]) (fun _ _ => False)
    (ScriptEnv.startState items.reverse script)

lemma IsSig.checkSig_drop {vchSig vchPubKey : Bytes}
    (h : IsSig crypto script txTo nIn vchSig vchPubKey) :
    (crypto.scriptEnv txTo nIn 0).checkSig vchSig vchPubKey
      (findAndDelete (pushData [] vchSig) script) = true := by
  rw [h.notIn]
  exact h.verifies

/-- The solver signs a script of a kind with what redeems it. -/
def SolverSigns (keystore : CKeyStore crypto) (script : CScript) (txTo : CTransaction) (nIn : ℕ)
    (nHashType : UInt8) (type : TxnOutType) : Prop :=
  ∃ items, Redeems crypto script txTo nIn items ∧
    keystore.solver script (signatureHash crypto script txTo nIn nHashType.toUInt32.toInt32)
      nHashType.toUInt32.toInt32 = (true, pushAll items, type)

section

variable (h : keystore.Signs script txTo nIn nHashType)

include h

variable {vSolutions : List Bytes}

lemma Signs.solver_pubkey (hsolver : script.solver = some (.TX_PUBKEY, vSolutions))
    (hmine : keystore.haveKey (crypto.hash160 (vSolutions.headD [])) = true) :
    keystore.SolverSigns script txTo nIn nHashType .TX_PUBKEY := by
  obtain ⟨vchPubKey, rfl, hscript⟩ := isPayToPubKey_of_solver hsolver
  obtain ⟨key, hkey⟩ := Option.isSome_iff_exists.mp hmine
  have hpubkey :=
    h.getPubKey _ _ hsolver vchPubKey (List.mem_cons_self ..) hscript.size.1 key hkey
  obtain ⟨vchSig, hsig, hsign⟩ := h.sign1 hkey []
  rw [hpubkey] at hsig
  refine ⟨[vchSig], ⟨hscript.length_le, by simp, by simpa using hsig.size, ?_⟩, ?_⟩
  · exact ScriptEnv.leads_payToPubKey _ hscript hsig.checkSig_drop
  · rw [CKeyStore.solver, hsolver]
    dsimp only [List.headD_cons] at hsign ⊢
    rw [hsign, List.nil_append]

lemma Signs.solver_pubkeyhash (hsolver : script.solver = some (.TX_PUBKEYHASH, vSolutions))
    (hmine : keystore.haveKey (uint160 (vSolutions.headD [])) = true) :
    keystore.SolverSigns script txTo nIn nHashType .TX_PUBKEYHASH := by
  obtain ⟨hash, rfl, hscript⟩ := isPayToPubKeyHash_of_solver hsolver
  obtain ⟨key, hkey⟩ := Option.isSome_iff_exists.mp hmine
  obtain ⟨vchSig, hsig, hsign⟩ := h.sign1 hkey []
  have hsize := keystore.isValid_getPubKey hkey
  refine ⟨[vchSig, key.getPubKey], ⟨hscript.length_le, by simp, ?_, ?_⟩, ?_⟩
  · intro vch hvch
    rcases List.mem_cons.mp hvch with rfl | hvch
    · exact hsig.size
    · rw [List.mem_singleton.mp hvch]
      omega
  · refine ScriptEnv.leads_payToPubKeyHash _ hscript ?_ hsig.checkSig_drop
    have hid : crypto.hash160 key.getPubKey = uint160 hash := keystore.getID_getPubKey hkey
    have hhash : (crypto.scriptEnv txTo nIn 0).hash160 key.getPubKey = uint160 hash := hid
    rw [hhash]
    exact leBytes_uint160 hscript.size
  · rw [CKeyStore.solver, hsolver]
    dsimp only [List.headD_cons] at hsign hkey ⊢
    rw [hsign, hkey, List.nil_append]
    dsimp only [Option.map_some, Option.getD_some]
    rw [pushData_eq]
    simp [pushAll]

lemma Signs.solver_multisig (hsolver : script.solver = some (.TX_MULTISIG, vSolutions))
    (hmine : keystore.haveKeys vSolutions.tail.dropLast = vSolutions.tail.dropLast.length) :
    keystore.SolverSigns script txTo nIn nHashType .TX_MULTISIG := by
  obtain ⟨nRequired, pubkeys, rfl, hscript⟩ := isPayToMultiSig_of_solver hsolver
  have htail : ([UInt8.ofNat nRequired] :: (pubkeys ++ [[UInt8.ofNat pubkeys.length]])).tail.dropLast =
      pubkeys := by simp
  rw [htail] at hmine
  have hkeys : ∀ pubkey ∈ pubkeys, ∃ key, keystore.getKey (crypto.hash160 pubkey) = some key ∧
      key.getPubKey = pubkey := by
    intro pubkey hmem
    obtain ⟨key, hkey⟩ := Option.isSome_iff_exists.mp (List.countP_eq_length.mp hmine pubkey hmem)
    refine ⟨key, hkey, h.getPubKey _ _ hsolver pubkey ?_ (hscript.size pubkey hmem).1 key hkey⟩
    exact List.mem_cons_of_mem _ (List.mem_append_left _ hmem)
  have hle := hscript.required_le
  have hcount := hscript.keys_le
  obtain ⟨vchSigs, hsigs, hloop⟩ := h.signLoop nRequired hkeys 0 (pushOpcode [] OP_0)
  rw [Nat.sub_zero] at hsigs
  have hlength : vchSigs.length = nRequired := by
    rw [hsigs.length_eq, List.length_take, Nat.min_eq_left hle]
  have hmem : ∀ vchSig ∈ vchSigs, vchSig.length ≤ 520 ∧
      findAndDelete (pushData [] vchSig) script = script := by
    intro vchSig hvchSig
    obtain ⟨vchPubKey, -, hsig⟩ := exists_of_forall₂ hsigs hvchSig
    exact ⟨hsig.size, hsig.notIn⟩
  refine ⟨[] :: vchSigs, ⟨hscript.length_le, ?_, ?_, ?_⟩, ?_⟩
  · rw [List.length_cons]
    omega
  · intro vch hvch
    rcases List.mem_cons.mp hvch with rfl | hvch
    · exact Nat.zero_le _
    · exact (hmem vch hvch).1
  · exact ScriptEnv.leads_payToMultiSig_of_sigs _ hscript
      (fun vchSig hvchSig => (hmem vchSig hvchSig).2)
      (hsigs.imp fun _ _ hsig => hsig.verifies)
  · have hnat : (UInt8.ofNat nRequired).toNat = nRequired := by
      rw [UInt8.toNat_ofNat', Nat.mod_eq_of_lt (by omega)]
    have hpush : pushOpcode [] OP_0 = pushAll [[]] := rfl
    rw [CKeyStore.solver, hsolver]
    dsimp only [CKeyStore.signN, List.headD_cons]
    rw [hnat, htail, hloop, Nat.zero_add, hlength, hpush, ← pushAll_append]
    simp

/-- For a script that is not a script hash, what is mine is signed. -/
lemma Signs.solver_of_isMine {depth : ℕ}
    (hmine : keystore.isMine depth script = some true)
    (hdirect : script.isPayToScriptHash = false) :
    ∃ type, type ≠ .TX_SCRIPTHASH ∧ keystore.SolverSigns script txTo nIn nHashType type := by
  match depth with
  | 0 => cases hmine
  | depth + 1 =>
    rw [isMine] at hmine
    match hsolver : script.solver with
    | none | some (.TX_NONSTANDARD, _) | some (.TX_NULL_DATA, _) =>
      rw [hsolver] at hmine
      cases hmine
    | some (.TX_PUBKEY, vSolutions) =>
      rw [hsolver] at hmine
      exact ⟨_, by decide, h.solver_pubkey hsolver (Option.some.inj hmine)⟩
    | some (.TX_PUBKEYHASH, vSolutions) =>
      rw [hsolver] at hmine
      exact ⟨_, by decide, h.solver_pubkeyhash hsolver (Option.some.inj hmine)⟩
    | some (.TX_MULTISIG, vSolutions) =>
      rw [hsolver] at hmine
      exact ⟨_, by decide, h.solver_multisig hsolver (beq_iff_eq.mp (Option.some.inj hmine))⟩
    | some (.TX_SCRIPTHASH, vSolutions) =>
      -- only a script hash is of this kind
      have hscan : ∀ templates, (∀ template ∈ templates, template.1 ≠ .TX_SCRIPTHASH) →
          scanTemplates script templates ≠ some (.TX_SCRIPTHASH, vSolutions) := by
        intro templates hne hsome
        obtain ⟨template, hmem, -, -⟩ := scanTemplates_eq_some hsome
        exact hne _ hmem rfl
      rw [CScript.solver, if_neg (Bool.eq_false_iff.mp hdirect)] at hsolver
      split_ifs at hsolver
      · cases hsolver
      · exact absurd hsolver (hscan _ (by decide))

end

end CKeyStore

/-! ## Verification -/

section Verification

variable {crypto : Crypto} {txTo : CTransaction} {nIn : ℕ} {script : CScript} {items : List Bytes}

/-- A script that pushes data leaves it on the stack. -/
lemma evalScript_pushAll (env : ScriptEnv) (hshort : (pushAll items).length ≤ 10000)
    (hcount : items.length ≤ 1000) (hsize : ∀ vch ∈ items, vch.length ≤ 520) :
    (env.evalScript [] (pushAll items)).1 = .ok true ∧
      (env.evalScript [] (pushAll items)).2.stack = items.reverse := by
  have hpushes : Pushes (pushAll items) items [] := pushes_pushAll_nil (by omega)
  refine env.evalScript_of_leads (P := fun stack => stack = items.reverse) hshort ?_
  refine env.leads_evalLoop_pushes hpushes hsize rfl
    (by simp only [ScriptEnv.startState, List.length_nil]; omega) ?_
  exact env.leads_evalLoop_nil ⟨rfl, by simp [ScriptEnv.startState]⟩

lemma isPushOnly_pushAll (hshort : (pushAll items).length ≤ 10000) :
    (pushAll items).isPushOnly = true :=
  (pushes_pushAll_nil (by omega)).isPushOnly

section

variable (h : CKeyStore.Redeems crypto script txTo nIn items)

include h

lemma CKeyStore.Redeems.evalScript :
    ((crypto.scriptEnv txTo nIn 0).evalScript items.reverse script).1 = .ok true ∧
      ((crypto.scriptEnv txTo nIn 0).evalScript items.reverse script).2.stack = [vchTrue] :=
  ScriptEnv.evalScript_of_leads (P := fun stack => stack = [vchTrue]) _ h.length_script h.leads

/-- A script with a template accepts what it takes. -/
lemma CKeyStore.Redeems.verifyScript (hdirect : script.isPayToScriptHash = false) :
    ((crypto.scriptEnv txTo nIn 0).verifyScript (pushAll items) script true).result = .ok true := by
  have hlength := h.length_items
  have hshort := length_pushAll_le h.size
  have hsig := evalScript_pushAll (crypto.scriptEnv txTo nIn 0) (by omega) (by omega) h.size
  have hpubKey := h.evalScript
  rcases hfirst : (crypto.scriptEnv txTo nIn 0).evalScript [] (pushAll items) with ⟨fSig, s⟩
  rw [hfirst] at hsig
  obtain ⟨rfl, hstack⟩ := hsig
  dsimp only at hstack
  rw [← hstack] at hpubKey
  rcases hsecond : (crypto.scriptEnv txTo nIn 0).evalScript s.stack script with ⟨fPubKey, s'⟩
  rw [hsecond] at hpubKey
  obtain ⟨rfl, hstack'⟩ := hpubKey
  dsimp only at hstack'
  have htrue : castToBool vchTrue = true := rfl
  simp [ScriptEnv.verifyScript, hfirst, hsecond, hstack', hdirect, htrue]

/-- A script hash accepts the script with the hash after what that takes. -/
lemma CKeyStore.Redeems.verifyScript_scriptHash {scriptPubKey : CScript}
    (hscriptHash : scriptPubKey.isPayToScriptHash = true)
    (hhash : crypto.hash160 script = uint160 ((scriptPubKey.drop 2).take 20))
    (hsize : script.length ≤ 520) :
    ((crypto.scriptEnv txTo nIn 0).verifyScript (pushAll (items ++ [script])) scriptPubKey true).result
      = .ok true := by
  have hlength := h.length_items
  have hsmall : ∀ vch ∈ items ++ [script], vch.length ≤ 520 := by
    intro vch hvch
    rcases List.mem_append.mp hvch with hvch | hvch
    · exact h.size vch hvch
    · exact List.mem_singleton.mp hvch ▸ hsize
  have hcount : (items ++ [script]).length = items.length + 1 := by
    rw [List.length_append, List.length_singleton]
  have hshort := length_pushAll_le hsmall
  have hshort' : (pushAll (items ++ [script])).length ≤ 10000 := by omega
  have hsig := evalScript_pushAll (crypto.scriptEnv txTo nIn 0) hshort' (by omega) hsmall
  have hpush := isPushOnly_pushAll hshort'
  have hredeem := h.evalScript
  obtain ⟨hlengthPubKey, hlengthHash, -⟩ := ops_of_isPayToScriptHash hscriptHash
  have hhash' : leBytes 20 ((crypto.scriptEnv txTo nIn 0).hash160 script).toNat =
      (scriptPubKey.drop 2).take 20 := by
    have hid : (crypto.scriptEnv txTo nIn 0).hash160 script =
        uint160 ((scriptPubKey.drop 2).take 20) := hhash
    rw [hid]
    exact leBytes_uint160 hlengthHash
  have hrest : items.reverse.length ≤ 900 := by
    rw [List.length_reverse]
    omega
  have hleads := ScriptEnv.leads_payToScriptHash _ hscriptHash hhash' hrest
  have hpubKey := ScriptEnv.evalScript_of_leads (P := fun stack => stack = vchTrue :: items.reverse) _
    (by omega) hleads
  rw [List.reverse_append, List.reverse_singleton, List.singleton_append] at hsig
  rcases hfirst : (crypto.scriptEnv txTo nIn 0).evalScript [] (pushAll (items ++ [script]))
    with ⟨fSig, s⟩
  rw [hfirst] at hsig
  obtain ⟨rfl, hstack⟩ := hsig
  rcases hsecond : (crypto.scriptEnv txTo nIn 0).evalScript (script :: items.reverse) scriptPubKey
    with ⟨fPubKey, s'⟩
  rw [hsecond] at hpubKey
  obtain ⟨rfl, hstack'⟩ := hpubKey
  rcases hthird : (crypto.scriptEnv txTo nIn 0).evalScript items.reverse script with ⟨fRedeem, s''⟩
  rw [hthird] at hredeem
  obtain ⟨rfl, hstack''⟩ := hredeem
  dsimp only at hstack hstack' hstack''
  have htrue : castToBool vchTrue = true := rfl
  simp [ScriptEnv.verifyScript, hfirst, hstack, hsecond, hstack', hscriptHash, htrue, hpush, hthird,
    hstack'']

end

/-- A script with more than 520 bytes is not pushed. -/
lemma evalScript_pushAll_of_big (env : ScriptEnv) {last : Bytes} (hlength : items.length ≤ 17)
    (hsize : ∀ vch ∈ items, vch.length ≤ 520) (hbig : 520 < last.length) :
    (env.evalScript [] (pushAll (items ++ [last]))).1 ≠ .ok true := by
  intro htrue
  by_cases hlong : (pushAll (items ++ [last])).length > 10000
  · rw [ScriptEnv.evalScript, if_pos hlong] at htrue
    cases htrue
  have hall : pushAll (items ++ [last]) = pushAll items ++ (pushData [] last ++ []) := by
    rw [pushAll_append]
    simp [pushAll]
  have hlast := le_length_pushData last
  have hlength' : (pushAll items ++ (pushData [] last ++ [])).length ≤ 10000 := by
    rw [← hall]
    omega
  have hlength'' : (pushData [] last).length ≤ 10000 := by
    rw [List.append_nil, List.length_append] at hlength'
    omega
  have hleads : Leads (env.evalLoop (pushAll (items ++ [last]))) (fun _ _ => False)
      (fun _ _ => True) (ScriptEnv.startState [] (pushAll (items ++ [last]))) := by
    rw [hall]
    refine env.leads_evalLoop_pushes (pushes_pushAll (by omega)) hsize rfl
      (by simp only [ScriptEnv.startState, List.length_nil]; omega) ?_
    have hpush : Pushes (pushData [] last ++ []) [last] [] :=
      pushes_pushData (by rw [List.length_nil]; omega)
    cases hpush with
    | cons hop hle hnil =>
      rw [env.evalLoop_of_getOp2 hop, leads_bind]
      simp only [ScriptEnv.evalOp, leads_bind, leads_get, leads_failIf]
      rw [if_pos hbig]
      trivial
  rw [Leads, env.outcome_of_evalScript htrue] at hleads
  exact hleads

end Verification

/-! ## Signing what is mine -/

namespace CKeyStore

variable {crypto : Crypto} (keystore : CKeyStore crypto)

/-- The script that the signatures of an input sign: the redemption script, if there is one. -/
def signedScript (scriptPubKey : CScript) : CScript :=
  if scriptPubKey.isPayToScriptHash then
    (keystore.getCScript (uint160 ((scriptPubKey.drop 2).take 20))).getD []
  else scriptPubKey

/-- What `IsMine` accepts and `SignSignature` signs: a script with a template, or the hash of a
script with a template that is not too long to be pushed. -/
def CanRedeem (scriptPubKey : CScript) : Prop :=
  scriptPubKey.isPayToScriptHash = true →
    (keystore.signedScript scriptPubKey).isPayToScriptHash = false ∧
      (keystore.signedScript scriptPubKey).length ≤ 520

/-- `SignSignature` returns true, and `VerifyScript` accepts the script that it has put into the
input. -/
def SignsAndVerifies (scriptPubKey : CScript) (txTo : CTransaction) (nIn : ℕ)
    (nHashType : UInt8) : Prop :=
  ∃ tx txin, keystore.signSignature scriptPubKey txTo nIn nHashType.toUInt32.toInt32 = (.ok true, tx) ∧
    tx.vin[nIn]? = some txin ∧
    ((crypto.scriptEnv tx nIn 0).verifyScript txin.scriptSig scriptPubKey true).result = .ok true

variable {keystore} {scriptPubKey : CScript} {txTo : CTransaction} {nIn : ℕ} {nHashType : UInt8}

/-- `SignSignature` tests the script that it makes. -/
lemma signsAndVerifies_iff (hnIn : nIn < txTo.vin.length) {fSolved : Bool} {scriptSig : CScript}
    (hmake : keystore.makeScriptSig scriptPubKey txTo nIn nHashType.toUInt32.toInt32 =
      (fSolved, scriptSig)) :
    keystore.SignsAndVerifies scriptPubKey txTo nIn nHashType ↔
      fSolved = true ∧
        ((crypto.scriptEnv txTo nIn 0).verifyScript scriptSig scriptPubKey true).result = .ok true := by
  have hget : (txTo.setScriptSig nIn scriptSig).vin[nIn]? =
      some { txTo.vin[nIn] with scriptSig } := by
    simp [CTransaction.setScriptSig, List.getElem?_eq_getElem hnIn]
  unfold SignsAndVerifies
  rw [signSignature, if_neg (not_le.mpr hnIn), hmake]
  dsimp only
  constructor
  · rintro ⟨tx, txin, hsign, -, -⟩
    match fSolved with
    | false => cases hsign
    | true =>
      rw [Bool.not_true, if_neg Bool.false_ne_true, Prod.mk.injEq, scriptEnv_setScriptSig] at hsign
      exact ⟨rfl, hsign.1⟩
  · rintro ⟨rfl, hverify⟩
    refine ⟨_, _, ?_, hget, ?_⟩
    · rw [Bool.not_true, if_neg Bool.false_ne_true, scriptEnv_setScriptSig, hverify]
    · rw [scriptEnv_setScriptSig]
      exact hverify

variable {depth : ℕ}

/-- For an output with a template that is mine, the input is signed. -/
lemma signsAndVerifies_of_direct (hnIn : nIn < txTo.vin.length)
    (hmine : keystore.isMine depth scriptPubKey = some true)
    (hdirect : scriptPubKey.isPayToScriptHash = false)
    (hsigns : keystore.Signs scriptPubKey txTo nIn nHashType) :
    keystore.SignsAndVerifies scriptPubKey txTo nIn nHashType := by
  obtain ⟨type, htype, items, hitems, hsolver⟩ := hsigns.solver_of_isMine hmine hdirect
  have hmake : keystore.makeScriptSig scriptPubKey txTo nIn nHashType.toUInt32.toInt32 =
      (true, pushAll items) := by
    rw [makeScriptSig]
    dsimp only
    rw [hsolver]
    match type with
    | .TX_SCRIPTHASH => exact absurd rfl htype
    | .TX_NONSTANDARD | .TX_PUBKEY | .TX_PUBKEYHASH | .TX_MULTISIG | .TX_NULL_DATA => rfl
  exact (signsAndVerifies_iff hnIn hmake).mpr ⟨rfl, hitems.verifyScript hdirect⟩

lemma solver_of_isPayToScriptHash (h : scriptPubKey.isPayToScriptHash = true) :
    scriptPubKey.solver = some (.TX_SCRIPTHASH, [(scriptPubKey.drop 2).take 20]) := by
  rw [CScript.solver, if_pos h]

/-- For the hash of a script that is mine, the keystore has the script. -/
lemma isMine_scriptHash (hmine : keystore.isMine depth scriptPubKey = some true)
    (hscriptHash : scriptPubKey.isPayToScriptHash = true) :
    ∃ depth' script, keystore.getCScript (uint160 ((scriptPubKey.drop 2).take 20)) = some script ∧
      keystore.signedScript scriptPubKey = script ∧ keystore.isMine depth' script = some true := by
  match depth with
  | 0 => cases hmine
  | depth + 1 =>
    rw [isMine, solver_of_isPayToScriptHash hscriptHash] at hmine
    dsimp only [List.headD_cons] at hmine
    match hscript : keystore.getCScript (uint160 ((scriptPubKey.drop 2).take 20)) with
    | none =>
      rw [hscript] at hmine
      cases hmine
    | some script =>
      rw [hscript] at hmine
      exact ⟨depth, script, rfl, by rw [signedScript, if_pos hscriptHash, hscript]; rfl, hmine⟩

variable {script : CScript}

/-- What `SignSignature` makes for the hash of a script. -/
lemma makeScriptSig_scriptHash (hscriptHash : scriptPubKey.isPayToScriptHash = true)
    (hscript : keystore.getCScript (uint160 ((scriptPubKey.drop 2).take 20)) = some script)
    (txTo : CTransaction) (nIn : ℕ) (nHashType : Int32) :
    keystore.makeScriptSig scriptPubKey txTo nIn nHashType =
      let solved := keystore.solver script (signatureHash crypto script txTo nIn nHashType) nHashType
      (solved.1 && decide (solved.2.2 ≠ .TX_SCRIPTHASH), solved.2.1.pushData script) := by
  have houter : ∀ hash, keystore.solver scriptPubKey hash nHashType =
      (true, script, .TX_SCRIPTHASH) := by
    intro hash
    rw [CKeyStore.solver, solver_of_isPayToScriptHash hscriptHash]
    dsimp only [List.headD_cons]
    rw [hscript]
  rw [makeScriptSig]
  dsimp only
  rw [houter]
  dsimp only
  rw [signatureHash_setScriptSig]

/-- The hash of a script hash is not signed. -/
lemma solver_snd_of_isPayToScriptHash (h : script.isPayToScriptHash = true)
    (hash : UInt256) (nHashType : Int32) :
    (keystore.solver script hash nHashType).2.2 = .TX_SCRIPTHASH := by
  rw [CKeyStore.solver, solver_of_isPayToScriptHash h]
  dsimp only
  split <;> rfl

/-- A script that is too long to be pushed is not accepted. -/
lemma verifyScript_of_big {items : List Bytes} (hlength : items.length ≤ 17)
    (hsize : ∀ vch ∈ items, vch.length ≤ 520) (hbig : 520 < script.length) :
    ((crypto.scriptEnv txTo nIn 0).verifyScript (pushAll (items ++ [script])) scriptPubKey true).result
      ≠ .ok true := by
  have hfail := evalScript_pushAll_of_big (crypto.scriptEnv txTo nIn 0) hlength hsize hbig
  rcases hfirst : (crypto.scriptEnv txTo nIn 0).evalScript [] (pushAll (items ++ [script]))
    with ⟨fSig, s⟩
  rw [hfirst] at hfail
  rw [ScriptEnv.verifyScript, hfirst]
  dsimp only at hfail ⊢
  rw [if_pos hfail]
  exact hfail

section

variable (hnIn : nIn < txTo.vin.length) (hscriptHash : scriptPubKey.isPayToScriptHash = true)
  (hscript : keystore.getCScript (uint160 ((scriptPubKey.drop 2).take 20)) = some script)

include hnIn hscriptHash hscript

/-- For the hash of a script with a template, the script has to be short enough. -/
lemma signsAndVerifies_scriptHash_iff
    (hmine : keystore.isMine depth script = some true) (hdirect : script.isPayToScriptHash = false)
    (hsigns : keystore.Signs script txTo nIn nHashType) :
    keystore.SignsAndVerifies scriptPubKey txTo nIn nHashType ↔ script.length ≤ 520 := by
  obtain ⟨type, htype, items, hitems, hsolver⟩ := hsigns.solver_of_isMine hmine hdirect
  have hmake := makeScriptSig_scriptHash hscriptHash hscript txTo nIn nHashType.toUInt32.toInt32
  have hpush : (pushAll items).pushData script = pushAll (items ++ [script]) := by
    rw [pushData_eq, pushAll_append]
    simp [pushAll]
  rw [hsolver] at hmake
  dsimp only at hmake
  rw [decide_eq_true htype, hpush] at hmake
  rw [signsAndVerifies_iff hnIn hmake]
  constructor
  · rintro ⟨-, hverify⟩
    by_contra hbig
    exact verifyScript_of_big hitems.length_items hitems.size (not_le.mp hbig) hverify
  · intro hsize
    exact ⟨rfl, hitems.verifyScript_scriptHash hscriptHash (keystore.getID_getCScript hscript) hsize⟩

/-- The hash of a script that pays to a script hash itself is not signed. -/
lemma not_signsAndVerifies_of_nested (hnested : script.isPayToScriptHash = true) :
    ¬ keystore.SignsAndVerifies scriptPubKey txTo nIn nHashType := by
  have hmake := makeScriptSig_scriptHash hscriptHash hscript txTo nIn nHashType.toUInt32.toInt32
  dsimp only at hmake
  rw [solver_snd_of_isPayToScriptHash hnested] at hmake
  rw [signsAndVerifies_iff hnIn hmake]
  simp

end

/-- Every output that is mine can be spent, if the keys sign what they verify, with two exceptions:
the hash of a script that pays to a script hash itself, and the hash of a script of more than 520
bytes. -/
theorem signsAndVerifies_iff_canRedeem {crypto : Crypto} (keystore : CKeyStore crypto)
    (scriptPubKey : CScript) (txTo : CTransaction) (nIn : ℕ) (nHashType : UInt8) (depth : ℕ)
    (hnIn : nIn < txTo.vin.length) (hmine : keystore.isMine depth scriptPubKey = some true)
    (hsigns : keystore.Signs (keystore.signedScript scriptPubKey) txTo nIn nHashType) :
    keystore.SignsAndVerifies scriptPubKey txTo nIn nHashType ↔ keystore.CanRedeem scriptPubKey := by
  by_cases hscriptHash : scriptPubKey.isPayToScriptHash = true
  · obtain ⟨depth', script, hscript, hsigned, hmine'⟩ := isMine_scriptHash hmine hscriptHash
    rw [CanRedeem, hsigned, forall_prop_of_true hscriptHash]
    rw [hsigned] at hsigns
    by_cases hnested : script.isPayToScriptHash = true
    · refine iff_of_false (not_signsAndVerifies_of_nested hnIn hscriptHash hscript hnested) ?_
      rw [hnested]
      simp
    · rw [Bool.not_eq_true] at hnested
      rw [signsAndVerifies_scriptHash_iff hnIn hscriptHash hscript hmine' hnested hsigns,
        and_iff_right hnested]
  · rw [Bool.not_eq_true] at hscriptHash
    have hsigned : keystore.signedScript scriptPubKey = scriptPubKey := by
      rw [signedScript, if_neg (Bool.eq_false_iff.mp hscriptHash)]
    rw [hsigned] at hsigns
    refine iff_of_true (signsAndVerifies_of_direct hnIn hmine hscriptHash hsigns) fun htrue => ?_
    rw [hscriptHash] at htrue
    cases htrue

/-! ## A keystore with one key -/

end CKeyStore

namespace Crypto

/-- Digests that keep the first bytes, and signatures that have the hash in them. -/
def sample : Crypto where
  ripemd160 vch := BitVec.ofNat 160 (leValue vch)
  sha1 vch := BitVec.ofNat 160 (leValue vch)
  sha256 vch := BitVec.ofNat 256 (leValue vch)
  verify _ hash vchSig := vchSig == 0x30 :: serializeUInt256 hash

/-- A key whose signatures are verified. -/
def sampleKey : CKey where
  getPubKey := 0x02 :: List.replicate 32 0x01
  sign hash := some (0x30 :: serializeUInt256 hash)

/-- A script that pays to the key, one that pays to the hash of that, and so on. -/
def sampleScripts : ℕ → CScript
  | 0 => [33] ++ sampleKey.getPubKey ++ [OP_CHECKSIG]
  | n + 1 => [OP_HASH160, 20] ++ leBytes 20 (sample.hash160 (sampleScripts n)).toNat ++ [OP_EQUAL]

/-- The keystore with the key and the first two scripts. -/
def sampleKeyStore : CKeyStore sample where
  getKey keyID := if keyID = sample.hash160 sampleKey.getPubKey then some sampleKey else none
  getCScript hash := [sampleScripts 0, sampleScripts 1].find? fun script => sample.hash160 script = hash
  getID_getPubKey h := by
    split_ifs at h with hid
    rw [← Option.some.inj h]
    exact hid.symm
  isValid_getPubKey h := by
    split_ifs at h
    rw [← Option.some.inj h]
    exact Or.inl rfl
  getID_getCScript h := by simpa using List.find?_some h

/-- A transaction with one input. -/
def sampleTx : CTransaction := { vin := [{}] }

/-- A signature of the key is in neither of its first two scripts. -/
lemma findAndDelete_sampleScripts (hash : UInt256) {n : ℕ} (hn : n = 0 ∨ n = 1) :
    findAndDelete (pushData [] (0x30 :: serializeUInt256 hash ++ [1])) (sampleScripts n) =
      sampleScripts n := by
  have hlength : (0x30 :: serializeUInt256 hash ++ [1]).length = 34 := by simp [serializeUInt256]
  rw [pushData_of_lt (by omega), hlength, List.nil_append]
  -- no operation of the scripts has the size of a signature as its opcode
  have hstart : ∀ (byte : UInt8) (pc : CScript), byte ≠ 34 →
      ¬ (UInt8.ofNat 34 :: (0x30 :: serializeUInt256 hash ++ [1])) <+: byte :: pc := by
    intro byte pc hne hprefix
    exact hne (List.cons_prefix_cons.mp hprefix).1.symm
  have hnil : findAndDelete (UInt8.ofNat 34 :: (0x30 :: serializeUInt256 hash ++ [1])) [] = [] :=
    findAndDelete_nil (List.cons_ne_nil _ _)
  rcases hn with rfl | rfl
  · refine findAndDelete_of_getOp2 (hstart 33 _ (by decide))
      (show _ = some (33, sampleKey.getPubKey, [OP_CHECKSIG]) from rfl) ?_
    exact findAndDelete_of_getOp2 (hstart OP_CHECKSIG _ (by decide))
      (show _ = some (OP_CHECKSIG, [], []) from rfl) hnil
  · refine findAndDelete_of_getOp2 (hstart OP_HASH160 _ (by decide))
      (show _ = some (OP_HASH160, [], (sampleScripts 1).drop 1) from rfl) ?_
    refine findAndDelete_of_getOp2 (hstart 20 _ (by decide))
      (show _ = some (20, ((sampleScripts 1).drop 2).take 20, [OP_EQUAL]) from rfl) ?_
    exact findAndDelete_of_getOp2 (hstart OP_EQUAL _ (by decide))
      (show _ = some (OP_EQUAL, [], []) from rfl) hnil

/-- There is no other key. -/
lemma eq_sampleKey {keyID : BitVec 160} {key : CKey}
    (hkey : sampleKeyStore.getKey keyID = some key) :
    key = sampleKey := by
  have hkey' : (if keyID = sample.hash160 sampleKey.getPubKey then some sampleKey else none) =
      some key := hkey
  split_ifs at hkey'
  exact (Option.some.inj hkey').symm

/-- The key signs for both. -/
lemma signs_sampleScripts {n : ℕ} (hn : n = 0 ∨ n = 1) :
    sampleKeyStore.Signs (sampleScripts n) sampleTx 0 1 where
  sign keyID key hkey := by
    obtain rfl := eq_sampleKey hkey
    refine ⟨_, rfl, ?_, ?_, findAndDelete_sampleScripts _ hn⟩
    · simp [sample]
    · simp [serializeUInt256]
  getPubKey type vSolutions hsolver vchPubKey hmem hsize key hkey := by
    obtain rfl := eq_sampleKey hkey
    rcases hn with rfl | rfl
    · have hfirst : (sampleScripts 0).solver = some (.TX_PUBKEY, [sampleKey.getPubKey]) := rfl
      rw [hfirst] at hsolver
      cases hsolver
      exact (List.mem_singleton.mp hmem).symm
    · have hsecond : (sampleScripts 1).solver =
          some (.TX_SCRIPTHASH, [((sampleScripts 1).drop 2).take 20]) := rfl
      rw [hsecond] at hsolver
      cases hsolver
      rw [List.mem_singleton.mp hmem] at hsize
      exact absurd hsize (by decide)

/-- What is signed for the hash of one of the scripts is that script. -/
lemma signs_signedScript {n : ℕ} (hn : n = 0 ∨ n = 1) :
    sampleKeyStore.Signs (sampleKeyStore.signedScript (sampleScripts (n + 1))) sampleTx 0 1 := by
  have hsigned : sampleKeyStore.signedScript (sampleScripts (n + 1)) = sampleScripts n := by
    rcases hn with rfl | rfl
    · rfl
    · rfl
  rw [hsigned]
  exact signs_sampleScripts hn

end Crypto

/-- The hash of a script of the key is mine and can be spent. -/
theorem signsAndVerifies_iff_canRedeem_sample :
    Crypto.sampleKeyStore.SignsAndVerifies (Crypto.sampleScripts 1) Crypto.sampleTx 0 1 :=
  (CKeyStore.signsAndVerifies_iff_canRedeem Crypto.sampleKeyStore (Crypto.sampleScripts 1)
    Crypto.sampleTx 0 1 2 (by decide) rfl
    (Crypto.signs_signedScript (Or.inl rfl))).mpr fun _ => by decide +kernel

/-- The hash of the hash of a script of the key is mine as well, and cannot be spent. -/
theorem not_signsAndVerifies_of_isMine :
    ¬ ∀ (crypto : Crypto) (keystore : CKeyStore crypto) (scriptPubKey : CScript)
      (txTo : CTransaction) (nIn : ℕ) (nHashType : UInt8) (depth : ℕ), nIn < txTo.vin.length →
      keystore.isMine depth scriptPubKey = some true →
      keystore.Signs (keystore.signedScript scriptPubKey) txTo nIn nHashType →
      keystore.SignsAndVerifies scriptPubKey txTo nIn nHashType := by
  intro hall
  have hscript : Crypto.sampleKeyStore.getCScript
      (uint160 (((Crypto.sampleScripts 2).drop 2).take 20)) = some (Crypto.sampleScripts 1) := rfl
  exact CKeyStore.not_signsAndVerifies_of_nested (by decide) rfl hscript
    rfl (hall Crypto.sample Crypto.sampleKeyStore (Crypto.sampleScripts 2)
      Crypto.sampleTx 0 1 3 (by decide) rfl
      (Crypto.signs_signedScript (Or.inr rfl)))

end HyperStake
