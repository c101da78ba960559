import HyperStake.Script.StandardRuns

/-!
# The scripts that `Solver` takes apart

`Solver` compares a script with its templates operation by operation, so it takes every script that
has the operations of a template, whichever way their data is pushed.  `Template` has these scripts
as sequences of bytes, with the data that `Solver` returns for them; `solver_eq_some_iff` says that
they are all that it takes.  The scripts of `SetDestination` and `SetMultisig` are among them.
-/

namespace HyperStake

open LittleEndian

namespace CScript

/-! ## The source -/

def encodeOP_N (n : ℤ) : Except Fault UInt8 :=
  if n < 0 ∨ n > 16 then .error .undefined
  else if n = 0 then .ok OP_0
  else .ok (UInt8.ofNat (OP_1.toNat + n.toNat - 1))

def setMultisig (nRequired : ℤ) (keys : List CKey) : Except Fault CScript := do
  let script := pushOpcode [] (← encodeOP_N nRequired)
  let script := keys.foldl (fun script key => script.pushData key.getPubKey) script
  return pushOpcode (pushOpcode script (← encodeOP_N keys.length)) OP_CHECKMULTISIG

/-! ## The grammar -/

/-- An operation that pushes some data, with a length that may have more bytes than it needs. -/
inductive PushOf (b : Bytes) : CScript → Prop where
  | direct (h : b.length < 76) : PushOf b (leBytes 1 b.length ++ b)
  | data1 (h : b.length < 256 ^ 1) : PushOf b ([OP_PUSHDATA1] ++ leBytes 1 b.length ++ b)
  | data2 (h : b.length < 256 ^ 2) : PushOf b ([OP_PUSHDATA2] ++ leBytes 2 b.length ++ b)
  | data4 (h : b.length < 256 ^ 4) : PushOf b ([OP_PUSHDATA4] ++ leBytes 4 b.length ++ b)

/-- An operation that `IsPushOnly` takes: it pushes data or a number, or it is `OP_RESERVED`. -/
def IsPushOp (op : CScript) : Prop :=
  (∃ b, PushOf b op) ∨ ∃ opcode, OP_PUSHDATA4 < opcode ∧ opcode ≤ OP_16 ∧ op = [opcode]

/-- The opcode that pushes a small number. -/
def opNumberOf (n : ℕ) : UInt8 := UInt8.ofNat (OP_1.toNat + n - 1)

/-- The scripts of each kind, with the data that is returned for them. -/
inductive Template : CScript → TxnOutType → List Bytes → Prop where
  | pubkey {key op} : PushOf key op → 33 ≤ key.length → key.length ≤ 120 →
    Template (op ++ [OP_CHECKSIG]) .TX_PUBKEY [key]
  | pubkeyhash {hash op} : PushOf hash op → hash.length = 20 →
    Template ([OP_DUP, OP_HASH160] ++ op ++ [OP_EQUALVERIFY, OP_CHECKSIG]) .TX_PUBKEYHASH [hash]
  | multisig {nRequired : ℕ} {keys : List Bytes} {ops : List CScript} :
    List.Forall₂ PushOf keys ops →
    (∀ key ∈ keys, 33 ≤ key.length ∧ key.length ≤ 120) →
    1 ≤ nRequired → nRequired ≤ keys.length → keys.length ≤ 16 →
    Template ([opNumberOf nRequired] ++ ops.flatten ++ [opNumberOf keys.length, OP_CHECKMULTISIG])
      .TX_MULTISIG ([UInt8.ofNat nRequired] :: (keys ++ [[UInt8.ofNat keys.length]]))
  | scripthash {hash} : hash.length = 20 →
    Template ([OP_HASH160, 20] ++ hash ++ [OP_EQUAL]) .TX_SCRIPTHASH [hash]
  | dataCarrier {ops : List CScript} : (∀ op ∈ ops, IsPushOp op) →
    Template ([OP_RETURN] ++ ops.flatten) .TX_NULL_DATA []

/-! ## Single operations -/

variable {script pc pc' op : CScript} {opcode : UInt8} {b vch : Bytes}

/-- An operation that pushes nothing is one byte. -/
lemma getOp2_opcode (h : ¬ opcode ≤ OP_PUSHDATA4) (pc : CScript) :
    getOp2 (opcode :: pc) = some (opcode, [], pc) := by
  have hlt : ¬ opcode < OP_PUSHDATA1 := fun hlt =>
    h (UInt8.le_of_lt (UInt8.lt_of_lt_of_le hlt (by decide)))
  rw [getOp2, if_neg hlt, if_neg h]

/-- A pushed vector is read if what follows it is not too long. -/
lemma PushOf.getOp2 (h : PushOf b op) {rest : CScript} (hlength : b.length + rest.length < 2 ^ 32) :
    ∃ opcode ≤ OP_PUSHDATA4, getOp2 (op ++ rest) = some (opcode, b, rest) := by
  cases h with
  | direct hlt =>
    have hle : UInt8.ofNat b.length ≤ OP_PUSHDATA4 := by
      rw [UInt8.le_iff_toNat_le, UInt8.toNat_ofNat', Nat.mod_eq_of_lt (by omega)]
      exact (show b.length ≤ 0x4e by omega)
    exact ⟨_, hle, getOp2_push hlt hlength⟩
  | data1 hlt =>
    exact ⟨OP_PUSHDATA1, by decide, getOp2_length (by decide) (by decide) rfl hlt hlength⟩
  | data2 hlt =>
    exact ⟨OP_PUSHDATA2, by decide, getOp2_length (by decide) (by decide) rfl hlt hlength⟩
  | data4 hlt =>
    exact ⟨OP_PUSHDATA4, by decide, getOp2_length (by decide) (by decide) rfl hlt hlength⟩

/-- A length of some bytes, and the data that has it. -/
lemma eq_length_append {rest : Bytes} {nLength : ℕ} (hsome : ¬ rest.length < nLength)
    (hleft : ¬ (rest.drop nLength).length % 2 ^ 32 < leValue (rest.take nLength))
    (hvch : (rest.drop nLength).take (leValue (rest.take nLength)) = vch)
    (hpc : (rest.drop nLength).drop (leValue (rest.take nLength)) = pc') :
    vch.length < 256 ^ nLength ∧ rest = leBytes nLength vch.length ++ vch ++ pc' := by
  have hfield : (rest.take nLength).length = nLength := by
    rw [List.length_take]
    omega
  have hmod := Nat.mod_le (rest.drop nLength).length (2 ^ 32)
  have hlength : vch.length = leValue (rest.take nLength) := by
    rw [← hvch, List.length_take]
    omega
  have hlt := leValue_lt (rest.take nLength)
  have hbytes := leBytes_leValue (rest.take nLength)
  rw [hfield] at hlt hbytes
  refine ⟨hlength ▸ hlt, ?_⟩
  rw [hlength, hbytes, ← hvch, ← hpc, List.append_assoc, List.take_append_drop,
    List.take_append_drop]

/-- What is read was pushed. -/
lemma exists_pushOf (hop : CScript.getOp2 pc = some (opcode, vch, pc'))
    (hle : opcode ≤ OP_PUSHDATA4) : ∃ op, PushOf vch op ∧ pc = op ++ pc' := by
  cases pc with
  | nil => cases hop
  | cons byte rest =>
    simp only [CScript.getOp2] at hop
    by_cases hlt : byte < OP_PUSHDATA1
    · rw [if_pos hlt] at hop
      split_ifs at hop with hleft
      simp only [Option.some.injEq, Prod.mk.injEq] at hop
      obtain ⟨-, hvch, hpc⟩ := hop
      have hnat : byte.toNat < 76 := UInt8.lt_iff_toNat_lt.mp hlt
      have hmod := Nat.mod_le rest.length (2 ^ 32)
      have hlength : vch.length = byte.toNat := by
        rw [← hvch, List.length_take]
        omega
      have hbyte : leBytes 1 vch.length = [byte] := by
        rw [hlength]
        simp [leBytes]
      refine ⟨_, .direct (hlength ▸ hnat), ?_⟩
      rw [hbyte, ← hvch, ← hpc, List.append_assoc, List.take_append_drop, List.singleton_append]
    · rw [if_neg hlt] at hop
      have hbyte : byte ≤ OP_PUSHDATA4 := by
        by_contra hgt
        rw [if_neg hgt] at hop
        simp only [Option.some.injEq, Prod.mk.injEq] at hop
        exact hgt (hop.1 ▸ hle)
      rw [if_pos hbyte] at hop
      generalize hnLength :
        (if byte = OP_PUSHDATA1 then 1 else if byte = OP_PUSHDATA2 then 2 else 4) = nLength at hop
      split_ifs at hop with hsome hleft
      simp only [Option.some.injEq, Prod.mk.injEq] at hop
      obtain ⟨hfits, hrest⟩ := eq_length_append hsome hleft hop.2.1 hop.2.2
      have hcases : byte = OP_PUSHDATA1 ∨ byte = OP_PUSHDATA2 ∨ byte = OP_PUSHDATA4 := by
        have hge : 0x4c ≤ byte.toNat := not_lt.mp fun h => hlt (UInt8.lt_iff_toNat_lt.mpr h)
        have hle' : byte.toNat ≤ 0x4e := UInt8.le_iff_toNat_le.mp hbyte
        simp only [← UInt8.toNat_inj]
        have h1 : OP_PUSHDATA1.toNat = 0x4c := rfl
        have h2 : OP_PUSHDATA2.toNat = 0x4d := rfl
        have h4 : OP_PUSHDATA4.toNat = 0x4e := rfl
        omega
      rcases hcases with rfl | rfl | rfl
      · obtain rfl : 1 = nLength := hnLength
        exact ⟨_, .data1 hfits, congrArg (List.cons _) hrest⟩
      · obtain rfl : 2 = nLength := hnLength
        exact ⟨_, .data2 hfits, congrArg (List.cons _) hrest⟩
      · obtain rfl : 4 = nLength := hnLength
        exact ⟨_, .data4 hfits, congrArg (List.cons _) hrest⟩

/-- An operation of one byte is read from that. -/
lemma eq_cons_of_getOp2 (hop : CScript.getOp2 pc = some (opcode, vch, pc'))
    (hgt : ¬ opcode ≤ OP_PUSHDATA4) : pc = opcode :: pc' := by
  cases pc with
  | nil => cases hop
  | cons byte rest =>
    by_cases hle : byte ≤ OP_PUSHDATA4
    · simp only [CScript.getOp2] at hop
      split_ifs at hop <;> simp only [Option.some.injEq, Prod.mk.injEq] at hop <;>
        exact absurd (hop.1 ▸ hle) hgt
    · rw [getOp2_opcode hle] at hop
      cases hop
      rfl

lemma PushOf.length_le (h : PushOf b op) : b.length ≤ op.length := by
  cases h <;> simp only [List.length_append, List.length_cons] <;> omega

/-! ## Several operations -/

lemma isPushOnly_nil : isPushOnly [] = true := by rw [isPushOnly, if_pos rfl]

lemma isPushOnly_of_none (hne : pc ≠ []) (hop : CScript.getOp2 pc = none) :
    isPushOnly pc = false := by
  rw [isPushOnly, if_neg hne]
  split
  · rfl
  · next hsome =>
    rw [hop] at hsome
    cases hsome

lemma isPushOnly_of_some (hop : CScript.getOp2 pc = some (opcode, vch, pc')) :
    isPushOnly pc = (decide (opcode ≤ OP_16) && isPushOnly pc') := by
  have hne : pc ≠ [] := by
    rintro rfl
    cases hop
  rw [isPushOnly, if_neg hne]
  split
  · next hnone =>
    rw [hop] at hnone
    cases hnone
  · next hsome =>
    rw [hop] at hsome
    cases hsome
    by_cases hle : opcode ≤ OP_16
    · rw [if_neg (UInt8.not_lt.mpr hle), decide_eq_true hle, Bool.true_and]
    · rw [if_pos (UInt8.not_le.mp hle), decide_eq_false hle, Bool.false_and]

/-- A script that only pushes is made of operations that push. -/
lemma exists_pushOps (h : isPushOnly pc = true) :
    ∃ ops : List CScript, (∀ op ∈ ops, IsPushOp op) ∧ pc = ops.flatten := by
  induction hn : pc.length using Nat.strong_induction_on generalizing pc with
  | _ n ih =>
    by_cases hne : pc = []
    · exact ⟨[], fun _ hmem => absurd hmem List.not_mem_nil, hne⟩
    cases hop : CScript.getOp2 pc with
    | none =>
      rw [isPushOnly_of_none hne hop] at h
      cases h
    | some read =>
      obtain ⟨opcode, vch, pc'⟩ := read
      rw [isPushOnly_of_some hop, Bool.and_eq_true, decide_eq_true_eq] at h
      obtain ⟨hle, hrest⟩ := h
      have hlt : pc'.length < n := hn ▸ length_lt_of_getOp2 hop
      obtain ⟨ops, hops, hpc'⟩ := ih pc'.length hlt hrest rfl
      have hfirst : ∃ op, IsPushOp op ∧ pc = op ++ pc' := by
        by_cases hpush : opcode ≤ OP_PUSHDATA4
        · obtain ⟨op, hop', hpc⟩ := exists_pushOf hop hpush
          exact ⟨op, .inl ⟨vch, hop'⟩, hpc⟩
        · exact ⟨[opcode], .inr ⟨opcode, UInt8.not_le.mp hpush, hle, rfl⟩,
            eq_cons_of_getOp2 hop hpush⟩
      obtain ⟨op, hop', hpc⟩ := hfirst
      refine ⟨op :: ops, fun op' hmem => ?_, by rw [hpc, hpc', List.flatten_cons]⟩
      rcases List.mem_cons.mp hmem with rfl | hmem
      · exact hop'
      · exact hops op' hmem

variable {ops : List CScript} {n nRequired : ℕ} {template : List UInt8}
  {vSolutions keys : List Bytes}

/-- And a script that is made of them is one, unless it is too long. -/
lemma isPushOnly_flatten (hops : ∀ op ∈ ops, IsPushOp op) (hlength : ops.flatten.length < 2 ^ 32) :
    isPushOnly ops.flatten = true := by
  induction ops with
  | nil => exact isPushOnly_nil
  | cons op ops ih =>
    rw [List.flatten_cons, List.length_append] at hlength
    have hread : ∃ opcode vch, opcode ≤ OP_16 ∧
        CScript.getOp2 (op ++ ops.flatten) = some (opcode, vch, ops.flatten) := by
      rcases hops op (List.mem_cons_self ..) with ⟨b, hpush⟩ | ⟨opcode, hgt, hle, rfl⟩
      · have hb := hpush.length_le
        have hrest : b.length + ops.flatten.length < 2 ^ 32 := by omega
        obtain ⟨opcode, hle, hop⟩ := hpush.getOp2 hrest
        exact ⟨opcode, b, UInt8.le_trans hle (by decide), hop⟩
      · exact ⟨opcode, [], hle, getOp2_opcode (UInt8.not_le.mpr hgt) _⟩
    obtain ⟨opcode, vch, hle, hop⟩ := hread
    rw [List.flatten_cons, isPushOnly_of_some hop, decide_eq_true hle, Bool.true_and]
    exact ih (fun op' hmem => hops op' (List.mem_cons_of_mem _ hmem)) (by omega)

/-- Pushes of some data are operations that push it. -/
lemma Pushes.exists_ops {items : List Bytes} (h : Pushes pc items pc') :
    ∃ ops, List.Forall₂ PushOf items ops ∧ pc = ops.flatten ++ pc' := by
  induction h with
  | nil => exact ⟨[], .nil, rfl⟩
  | cons hop hle _ ih =>
    obtain ⟨op, hpush, hpc⟩ := exists_pushOf hop hle
    obtain ⟨ops, hops, hrest⟩ := ih
    exact ⟨op :: ops, .cons hpush hops, by rw [hpc, hrest, List.flatten_cons, List.append_assoc]⟩

lemma pushes_flatten {items : List Bytes} {rest : CScript} (h : List.Forall₂ PushOf items ops)
    (hlength : (ops.flatten ++ rest).length < 2 ^ 32) :
    Pushes (ops.flatten ++ rest) items rest := by
  induction h with
  | nil => exact .nil
  | @cons b op items ops hpush _ ih =>
    rw [List.flatten_cons, List.append_assoc] at hlength ⊢
    rw [List.length_append] at hlength
    have hb := hpush.length_le
    have hrest : b.length + (ops.flatten ++ rest).length < 2 ^ 32 := by omega
    obtain ⟨opcode, hle, hop⟩ := hpush.getOp2 hrest
    exact .cons hop hle (ih (by omega))

/-! ## Numbers -/

/-- An opcode that pushes a number is the one of that number. -/
lemma eq_opNumberOf (hone : OP_1 ≤ opcode) (hle : opcode ≤ OP_16) (hn : decodeOP_N opcode = n) :
    opcode = opNumberOf n := by
  have hge := UInt8.le_iff_toNat_le.mp hone
  have hone' : OP_1.toNat = 0x51 := rfl
  have hne : opcode ≠ OP_0 := by
    rintro rfl
    exact absurd hone (by decide)
  rw [decodeOP_N, if_neg hne] at hn
  rw [opNumberOf, ← UInt8.toNat_inj, UInt8.toNat_ofNat', ← hn]
  have hlt := opcode.toNat_lt
  omega

lemma opNumberOf_spec (hpos : 1 ≤ n) (hle : n ≤ 16) :
    OP_1 ≤ opNumberOf n ∧ opNumberOf n ≤ OP_16 ∧ decodeOP_N (opNumberOf n) = n := by
  have hone : OP_1.toNat = 0x51 := rfl
  have h16 : OP_16.toNat = 0x60 := rfl
  have hnat : (opNumberOf n).toNat = 0x50 + n := by
    rw [opNumberOf, UInt8.toNat_ofNat', hone]
    omega
  have hne : opNumberOf n ≠ OP_0 := by
    intro hzero
    rw [hzero] at hnat
    have h0 : OP_0.toNat = 0 := rfl
    omega
  rw [UInt8.le_iff_toNat_le, UInt8.le_iff_toNat_le, decodeOP_N, if_neg hne]
  omega

/-! ## What is taken is in the grammar -/

variable {type : TxnOutType} {sols : List Bytes}

/-- What `Solver` takes is in the grammar. -/
lemma template_of_solver (h : script.solver = some (type, sols)) : Template script type sols := by
  cases type with
  | TX_NONSTANDARD =>
    obtain ⟨-, hscan⟩ := solver_eq_some h (by decide) (by decide)
    obtain ⟨template, hmem, -⟩ := scanTemplates_eq_some hscan
    simp [mTemplates] at hmem
  | TX_PUBKEY =>
    obtain ⟨key, rfl, hscript⟩ := isPayToPubKey_of_solver h
    obtain ⟨pc, hpushes, hop⟩ := hscript.ops
    obtain ⟨ops, hops, hpc⟩ := hpushes.exists_ops
    have hend := eq_cons_of_getOp2 hop (by decide)
    cases hops with
    | cons hpush hnil =>
      cases hnil
      rw [hpc, hend, List.flatten_singleton]
      exact .pubkey hpush hscript.size.1 hscript.size.2
  | TX_PUBKEYHASH =>
    obtain ⟨hash, rfl, hscript⟩ := isPayToPubKeyHash_of_solver h
    obtain ⟨pc1, pc2, pc3, pc4, hop1, hop2, hpushes, hop3, hop4⟩ := hscript.ops
    obtain ⟨ops, hops, hpc⟩ := hpushes.exists_ops
    have hend := eq_cons_of_getOp2 hop4 (by decide)
    have hequal := eq_cons_of_getOp2 hop3 (by decide)
    have hhash := eq_cons_of_getOp2 hop2 (by decide)
    have hdup := eq_cons_of_getOp2 hop1 (by decide)
    cases hops with
    | cons hpush hnil =>
      cases hnil
      rw [hdup, hhash, hpc, hequal, hend, List.flatten_singleton]
      exact .pubkeyhash hpush hscript.size
  | TX_MULTISIG =>
    obtain ⟨nRequired, keys, rfl, hscript⟩ := isPayToMultiSig_of_solver h
    obtain ⟨opcodeM, opcodeN, pc1, pc2, pc3, hopM, hM, hnM, hpushes, hopN, hN, hnN, hopC⟩ :=
      hscript.ops
    obtain ⟨ops, hops, hpc⟩ := hpushes.exists_ops
    have hnumber : ∀ opcode, OP_1 ≤ opcode → ¬ opcode ≤ OP_PUSHDATA4 := fun opcode hone hle =>
      absurd (UInt8.le_trans hone hle) (by decide)
    have hend := eq_cons_of_getOp2 hopC (by decide)
    have hlast := eq_cons_of_getOp2 hopN (hnumber _ hN.1)
    have hfirst := eq_cons_of_getOp2 hopM (hnumber _ hM.1)
    rw [hfirst, hpc, hlast, hend, eq_opNumberOf hM.1 hM.2 hnM, eq_opNumberOf hN.1 hN.2 hnN]
    exact .multisig hops hscript.size hscript.required_pos hscript.required_le hscript.keys_le
  | TX_SCRIPTHASH =>
    obtain ⟨hash, rfl, hscript⟩ : ∃ hash, sols = [hash] ∧ script.isPayToScriptHash = true ∧
        hash = (script.drop 2).take 20 := by
      rw [solver] at h
      split_ifs at h with hpay hreturn
      · cases h
        exact ⟨_, rfl, hpay, rfl⟩
      · cases h
      · obtain ⟨template, hmem, -⟩ := scanTemplates_eq_some h
        simp [mTemplates] at hmem
    obtain ⟨hpay, rfl⟩ := hscript
    obtain ⟨hsize, hbytes⟩ := eq_of_isPayToScriptHash hpay
    have htemplate := Template.scripthash hsize
    rwa [← hbytes] at htemplate
  | TX_NULL_DATA =>
    rw [solver] at h
    split_ifs at h with hpay hreturn
    · cases h
    · cases h
      obtain ⟨ops, hops, hrest⟩ := exists_pushOps hreturn.2
      have hbytes : script = [OP_RETURN] ++ ops.flatten := by
        rw [← hrest]
        cases script with
        | nil => cases hreturn.1
        | cons op pc => exact congrArg (· :: pc) (Option.some.inj hreturn.1)
      rw [hbytes]
      exact .dataCarrier hops
    · obtain ⟨template, hmem, -⟩ := scanTemplates_eq_some h
      simp [mTemplates] at hmem

/-! ## What is in the grammar is taken -/

lemma matchTemplate_of_getOp2 {opcode2 : UInt8}
    (hop : CScript.getOp2 pc = some (opcode, vch, pc')) (hne : opcode2 ≠ OP_PUBKEYS) :
    matchTemplate (opcode2 :: template) pc vSolutions =
      (matchOp opcode2 opcode vch).bind fun taken =>
        matchTemplate template pc' (vSolutions ++ taken) := by
  rw [matchTemplate, hop]
  dsimp only
  rw [if_neg hne]

/-- An operation of a template that has no data takes itself. -/
lemma matchTemplate_exact
    (hexact : opcode ∉ [OP_PUBKEY, OP_PUBKEYHASH, OP_SMALLINTEGER, OP_PUBKEYS])
    (hgt : ¬ opcode ≤ OP_PUSHDATA4) :
    matchTemplate (opcode :: template) (opcode :: pc) vSolutions =
      matchTemplate template pc vSolutions := by
  simp only [List.mem_cons, List.not_mem_nil, or_false, not_or] at hexact
  have hself : matchOp opcode opcode [] = some [] := by
    rw [matchOp, if_neg hexact.1, if_neg hexact.2.1, if_neg hexact.2.2.1, if_neg (by simp)]
  rw [matchTemplate_of_getOp2 (getOp2_opcode hgt pc) hexact.2.2.2, hself, Option.bind_some,
    List.append_nil]

/-- The pushes of public keys are taken, up to an operation that pushes none. -/
lemma takePubKeys_of_pushes {pcKeys pc'' : CScript} {opcode' : UInt8}
    (hpushes : Pushes pc keys pcKeys) (hsize : ∀ key ∈ keys, 33 ≤ key.length ∧ key.length ≤ 120)
    (hend : CScript.getOp2 pcKeys = some (opcode', [], pc'')) :
    ∃ opcode vch pc', CScript.getOp2 pc = some (opcode, vch, pc') ∧
      takePubKeys opcode vch pc' = (keys, opcode', [], pc'') := by
  induction hpushes with
  | nil => exact ⟨_, _, _, hend, by rw [takePubKeys, if_neg (by simp)]⟩
  | @cons pc pc1 pcKeys opcode key keys hop _ _ ih =>
    obtain ⟨opcode1, vch1, pc2, hop1, hkeys⟩ :=
      ih (fun key' hmem => hsize key' (List.mem_cons_of_mem _ hmem)) hend
    refine ⟨opcode, key, pc1, hop, ?_⟩
    rw [takePubKeys, if_pos (hsize key (List.mem_cons_self ..))]
    split
    · next hnone =>
      rw [hop1] at hnone
      cases hnone
    · next hsome =>
      rw [hop1] at hsome
      cases hsome
      rw [hkeys]

/-- The template of public keys goes on with the operation after them. -/
lemma matchTemplate_pubkeys_of_pushes {pcKeys pc'' : CScript} {opcode' opcode2 : UInt8}
    (hpushes : Pushes pc keys pcKeys) (hsize : ∀ key ∈ keys, 33 ≤ key.length ∧ key.length ≤ 120)
    (hend : CScript.getOp2 pcKeys = some (opcode', [], pc'')) :
    matchTemplate (OP_PUBKEYS :: opcode2 :: template) pc vSolutions =
      (matchOp opcode2 opcode' []).bind fun taken =>
        matchTemplate template pc'' (vSolutions ++ keys ++ taken) := by
  obtain ⟨opcode, vch, pc', hop, hkeys⟩ := takePubKeys_of_pushes hpushes hsize hend
  rw [matchTemplate, hop]
  dsimp only
  rw [if_pos rfl, hkeys]

/-- A script that starts with another operation than those of a script hash and of a data carrier is
compared with the templates. -/
lemma solver_eq_scanTemplates (hpay : opcode ≠ OP_HASH160) (hreturn : opcode ≠ OP_RETURN) :
    solver (opcode :: pc) = scanTemplates (opcode :: pc) mTemplates := by
  have hpay' : isPayToScriptHash (opcode :: pc) = false := by
    simp [isPayToScriptHash, hpay]
  rw [solver, hpay', if_neg Bool.false_ne_true, if_neg fun h => hreturn (Option.some.inj h.1)]

/-- The first operation of a push is not one of those. -/
lemma PushOf.exists_cons (h : PushOf b op) : ∃ opcode pc, op = opcode :: pc ∧
    opcode ≤ OP_PUSHDATA4 := by
  cases h with
  | direct hlt =>
    refine ⟨UInt8.ofNat b.length, b, rfl, ?_⟩
    rw [UInt8.le_iff_toNat_le, UInt8.toNat_ofNat', Nat.mod_eq_of_lt (by omega)]
    exact (show b.length ≤ 0x4e by omega)
  | data1 => exact ⟨_, _, rfl, by decide⟩
  | data2 => exact ⟨_, _, rfl, by decide⟩
  | data4 => exact ⟨_, _, rfl, by decide⟩

lemma PushOf.length_op_le (h : PushOf b op) : op.length ≤ b.length + 5 := by
  cases h <;> simp only [List.length_append, List.length_cons, List.length_nil, leBytes_length] <;>
    omega

/-- Where the template of a public key is not matched, the other templates are compared. -/
lemma scanTemplates_pubkeyhash (hnone : matchTemplate [OP_PUBKEY, OP_CHECKSIG] script [] = none)
    (hmatch : matchTemplate [OP_DUP, OP_HASH160, OP_PUBKEYHASH, OP_EQUALVERIFY, OP_CHECKSIG] script
      [] = some sols) : scanTemplates script mTemplates = some (.TX_PUBKEYHASH, sols) := by
  rw [mTemplates, scanTemplates, hnone]
  dsimp only
  rw [scanTemplates, hmatch]
  simp

lemma scanTemplates_multisig (hnone : matchTemplate [OP_PUBKEY, OP_CHECKSIG] script [] = none)
    (hnone' : matchTemplate [OP_DUP, OP_HASH160, OP_PUBKEYHASH, OP_EQUALVERIFY, OP_CHECKSIG] script
      [] = none)
    (hmatch : matchTemplate [OP_SMALLINTEGER, OP_PUBKEYS, OP_SMALLINTEGER, OP_CHECKMULTISIG] script
      [] = some sols) (hcheck : checkMultiSigSolutions sols = true) :
    scanTemplates script mTemplates = some (.TX_MULTISIG, sols) := by
  rw [mTemplates, scanTemplates, hnone]
  dsimp only
  rw [scanTemplates, hnone']
  dsimp only
  rw [scanTemplates, hmatch]
  simp [hcheck]

lemma solver_pubkey {key : Bytes} (hpush : PushOf key op) (hge : 33 ≤ key.length)
    (hle : key.length ≤ 120) : solver (op ++ [OP_CHECKSIG]) = some (.TX_PUBKEY, [key]) := by
  have hlength : key.length + [OP_CHECKSIG].length < 2 ^ 32 := by
    rw [List.length_singleton]
    omega
  obtain ⟨opcode, hopcode, hop⟩ := hpush.getOp2 hlength
  obtain ⟨first, pc, hcons, hfirst⟩ := hpush.exists_cons
  have hne : ∀ opcode', ¬ opcode' ≤ OP_PUSHDATA4 → first ≠ opcode' := by
    rintro opcode' hgt rfl
    exact hgt hfirst
  have hkey : matchOp OP_PUBKEY opcode key = some [key] := by
    rw [matchOp, if_pos rfl, if_neg (by omega)]
  have hmatch : matchTemplate [OP_PUBKEY, OP_CHECKSIG] (op ++ [OP_CHECKSIG]) [] = some [key] := by
    rw [matchTemplate_of_getOp2 hop (by decide), hkey, Option.bind_some,
      matchTemplate_exact (by decide) (by decide)]
    rfl
  have hsolver : solver (op ++ [OP_CHECKSIG]) = scanTemplates (op ++ [OP_CHECKSIG]) mTemplates := by
    rw [hcons]
    exact solver_eq_scanTemplates (hne _ (by decide)) (hne _ (by decide))
  rw [hsolver, mTemplates, scanTemplates, hmatch]
  rfl

lemma solver_pubkeyhash {hash : Bytes} (hpush : PushOf hash op) (hlength : hash.length = 20) :
    solver ([OP_DUP, OP_HASH160] ++ op ++ [OP_EQUALVERIFY, OP_CHECKSIG]) =
      some (.TX_PUBKEYHASH, [hash]) := by
  have hshort : hash.length + [OP_EQUALVERIFY, OP_CHECKSIG].length < 2 ^ 32 := by
    rw [hlength]
    decide
  obtain ⟨opcode, -, hop⟩ := hpush.getOp2 hshort
  have hhash : matchOp OP_PUBKEYHASH opcode hash = some [hash] := by
    rw [matchOp, if_neg (by decide), if_pos rfl, if_neg (not_not.mpr hlength)]
  refine (solver_eq_scanTemplates (by decide) (by decide)).trans (scanTemplates_pubkeyhash ?_ ?_)
  · exact matchTemplate_of_getOp2 (getOp2_opcode (by decide) _) (by decide)
  · refine (matchTemplate_exact (by decide) (by decide)).trans ?_
    refine (matchTemplate_exact (by decide) (by decide)).trans ?_
    refine (matchTemplate_of_getOp2 hop (by decide)).trans ?_
    rw [hhash, Option.bind_some, matchTemplate_exact (by decide) (by decide),
      matchTemplate_exact (by decide) (by decide)]
    rfl

lemma length_flatten_le (hops : List.Forall₂ PushOf keys ops)
    (hsize : ∀ key ∈ keys, key.length ≤ 120) : ops.flatten.length ≤ 125 * keys.length := by
  induction hops with
  | nil => exact le_refl _
  | @cons key op keys ops hpush _ ih =>
    have hop := hpush.length_op_le
    have hkey := hsize key (List.mem_cons_self ..)
    have hrest := ih fun key' hmem => hsize key' (List.mem_cons_of_mem _ hmem)
    rw [List.flatten_cons, List.length_append, List.length_cons]
    omega

lemma solver_multisig (hops : List.Forall₂ PushOf keys ops)
    (hsize : ∀ key ∈ keys, 33 ≤ key.length ∧ key.length ≤ 120) (hpos : 1 ≤ nRequired)
    (hle : nRequired ≤ keys.length) (hmax : keys.length ≤ 16) :
    solver ([opNumberOf nRequired] ++ ops.flatten ++ [opNumberOf keys.length, OP_CHECKMULTISIG]) =
      some (.TX_MULTISIG, [UInt8.ofNat nRequired] :: (keys ++ [[UInt8.ofNat keys.length]])) := by
  obtain ⟨honeM, hleM, hnM⟩ := opNumberOf_spec hpos (hle.trans hmax)
  obtain ⟨honeN, hleN, hnN⟩ := opNumberOf_spec (hpos.trans hle) hmax
  have hnumber : ∀ opcode, OP_1 ≤ opcode → ¬ opcode ≤ OP_PUSHDATA4 := fun opcode hone hle =>
    absurd (UInt8.le_trans hone hle) (by decide)
  have hne : ∀ {opcode opcode' : UInt8}, opcode ≤ OP_16 → ¬ opcode' ≤ OP_16 → opcode ≠ opcode' := by
    rintro opcode opcode' hle hgt rfl
    exact hgt hle
  have hlength : (ops.flatten ++ [opNumberOf keys.length, OP_CHECKMULTISIG]).length < 2 ^ 32 := by
    have hall := length_flatten_le hops fun key hmem => (hsize key hmem).2
    rw [List.length_append]
    exact (Nat.add_le_add_right hall _).trans_lt (by simp; omega)
  have hpushes := pushes_flatten hops hlength
  have hopN : CScript.getOp2 [opNumberOf keys.length, OP_CHECKMULTISIG] =
      some (opNumberOf keys.length, [], [OP_CHECKMULTISIG]) := getOp2_opcode (hnumber _ honeN) _
  have hopM : ∀ pc, CScript.getOp2 (opNumberOf nRequired :: pc) =
      some (opNumberOf nRequired, [], pc) := getOp2_opcode (hnumber _ honeM)
  have hsmall : ∀ opcode, OP_1 ≤ opcode → opcode ≤ OP_16 →
      matchOp OP_SMALLINTEGER opcode [] = some [[UInt8.ofNat (decodeOP_N opcode)]] := by
    intro opcode hone hle
    rw [matchOp, if_neg (by decide), if_neg (by decide), if_pos rfl, if_pos (.inr ⟨hone, hle⟩)]
  have hdup : matchOp OP_DUP (opNumberOf nRequired) [] = none := by
    rw [matchOp, if_neg (by decide), if_neg (by decide), if_neg (by decide),
      if_pos (.inl (hne hleM (by decide)))]
  refine (solver_eq_scanTemplates (hne hleM (by decide)) (hne hleM (by decide))).trans
    (scanTemplates_multisig ?_ ?_ ?_ ?_)
  · exact matchTemplate_of_getOp2 (hopM _) (by decide)
  · refine (matchTemplate_of_getOp2 (hopM _) (by decide)).trans ?_
    rw [hdup, Option.bind_none]
  · refine (matchTemplate_of_getOp2 (hopM _) (by decide)).trans ?_
    rw [hsmall _ honeM hleM, Option.bind_some, hnM]
    refine (matchTemplate_pubkeys_of_pushes hpushes hsize hopN).trans ?_
    rw [hsmall _ honeN hleN, Option.bind_some, hnN, matchTemplate_exact (by decide) (by decide)]
    rfl
  · have hnatM : (UInt8.ofNat nRequired).toNat = nRequired := by
      rw [UInt8.toNat_ofNat', Nat.mod_eq_of_lt (by omega)]
    have hnatN : (UInt8.ofNat keys.length).toNat = keys.length := by
      rw [UInt8.toNat_ofNat', Nat.mod_eq_of_lt (by omega)]
    have hlast : ([UInt8.ofNat nRequired] :: (keys ++ [[UInt8.ofNat keys.length]])).getLast? =
        some [UInt8.ofNat keys.length] := by
      rw [← List.cons_append, List.getLast?_append]
      rfl
    have hone : (1 : UInt8).toNat = 1 := rfl
    have hcount : ([UInt8.ofNat nRequired] :: (keys ++ [[UInt8.ofNat keys.length]])).length - 2 =
        keys.length := by simp
    rw [checkMultiSigSolutions, hlast, hcount]
    simp only [UInt8.lt_iff_toNat_lt, gt_iff_lt, List.head?_cons, Option.bind_some, hnatM, hnatN,
      hone, not_lt.mpr hpos, not_lt.mpr (hpos.trans hle), not_lt.mpr hle, decide_false,
      bne_self_eq_false, Bool.or_false, Bool.not_false]

lemma solver_scripthash {hash : Bytes} (hlength : hash.length = 20) :
    solver ([OP_HASH160, 20] ++ hash ++ [OP_EQUAL]) = some (.TX_SCRIPTHASH, [hash]) := by
  have hpay : isPayToScriptHash ([OP_HASH160, 20] ++ hash ++ [OP_EQUAL]) = true := by
    simp [isPayToScriptHash, hlength]
  have hdata : (([OP_HASH160, 20] ++ hash ++ [OP_EQUAL]).drop 2).take 20 = hash :=
    List.take_left' hlength
  rw [solver, if_pos hpay, hdata]

lemma solver_dataCarrier (hops : ∀ op ∈ ops, IsPushOp op)
    (hlength : ([OP_RETURN] ++ ops.flatten).length < 2 ^ 32) :
    solver ([OP_RETURN] ++ ops.flatten) = some (.TX_NULL_DATA, []) := by
  rw [List.length_append, List.length_singleton] at hlength
  have hpush := isPushOnly_flatten hops (by omega)
  have hpay : isPayToScriptHash (OP_RETURN :: ops.flatten) = false := by
    simp [isPayToScriptHash, show OP_RETURN ≠ OP_HASH160 by decide]
  rw [List.singleton_append, solver, hpay, if_neg Bool.false_ne_true, if_pos ⟨rfl, hpush⟩]

/-- What is in the grammar is taken, unless it is a data carrier that is too long. -/
lemma solver_of_template (h : Template script type sols)
    (hshort : type = .TX_NULL_DATA → script.length < 2 ^ 32) :
    script.solver = some (type, sols) := by
  cases h with
  | pubkey hpush hge hle => exact solver_pubkey hpush hge hle
  | pubkeyhash hpush hlength => exact solver_pubkeyhash hpush hlength
  | multisig hops hsize hpos hle hmax => exact solver_multisig hops hsize hpos hle hmax
  | scripthash hlength => exact solver_scripthash hlength
  | dataCarrier hops => exact solver_dataCarrier hops (hshort rfl)

lemma solver_eq_some_iff (hshort : type = .TX_NULL_DATA → script.length < 2 ^ 32) :
    script.solver = some (type, sols) ↔ Template script type sols :=
  ⟨template_of_solver, fun h => solver_of_template h hshort⟩

/-! ## The scripts that are built -/

/-- A `uint160` is the one of its bytes. -/
lemma uint160_leBytes (id : BitVec 160) : uint160 (leBytes 20 id.toNat) = id := by
  have hlt : id.toNat < 256 ^ 20 := id.isLt.trans_eq (by norm_num)
  rw [uint160, if_pos (leBytes_length _ _), leValue_leBytes_of_lt hlt, BitVec.ofNat_toNat,
    BitVec.setWidth_eq]

/-- The destination of a script is the one that it is made for. -/
lemma extractDestination_setDestination (crypto : Crypto) {dest : CTxDestination}
    (hdest : dest ≠ .CNoDestination) :
    extractDestination crypto (setDestination dest) = some dest := by
  have hlength : ∀ id : BitVec 160, (leBytes 20 id.toNat).length = 20 := fun _ => leBytes_length _ _
  have hpush : ∀ id : BitVec 160, PushOf (leBytes 20 id.toNat) (20 :: leBytes 20 id.toNat) := by
    intro id
    have hdirect := PushOf.direct (b := leBytes 20 id.toNat) (by rw [hlength]; decide)
    rw [hlength] at hdirect
    exact hdirect
  cases dest with
  | CNoDestination => exact absurd rfl hdest
  | CKeyID keyID =>
    have hscript : setDestination (.CKeyID keyID) = [OP_DUP, OP_HASH160] ++
        (20 :: leBytes 20 keyID.toNat) ++ [OP_EQUALVERIFY, OP_CHECKSIG] := by
      simp [setDestination, pushUInt160, pushOpcode]
    rw [hscript, extractDestination, solver_pubkeyhash (hpush keyID) (hlength keyID)]
    exact congrArg (fun id => some (CTxDestination.CKeyID id)) (uint160_leBytes keyID)
  | CScriptID scriptID =>
    have hscript : setDestination (.CScriptID scriptID) =
        [OP_HASH160, 20] ++ leBytes 20 scriptID.toNat ++ [OP_EQUAL] := by
      simp [setDestination, pushUInt160, pushOpcode]
    rw [hscript, extractDestination, solver_scripthash (hlength scriptID)]
    exact congrArg (fun id => some (CTxDestination.CScriptID id)) (uint160_leBytes scriptID)

/-- A pushed vector is an operation that pushes it. -/
lemma pushOf_pushData (h : b.length < 2 ^ 32) : PushOf b (pushData [] b) := by
  rw [pushData]
  split_ifs with hdirect hone htwo
  · exact .direct hdirect
  · exact .data1 (by omega)
  · exact .data2 (by omega)
  · exact .data4 (by omega)

lemma encodeOP_N_eq (hpos : 1 ≤ n) (hle : n ≤ 16) : encodeOP_N n = .ok (opNumberOf n) := by
  rw [encodeOP_N, if_neg (by omega), if_neg (by omega), Int.toNat_natCast, opNumberOf]

/-- The bytes of a script that pays to some of several keys. -/
lemma setMultisig_eq {keys : List CKey} (hpos : 1 ≤ nRequired) (hle : nRequired ≤ keys.length)
    (hmax : keys.length ≤ 16) :
    setMultisig nRequired keys = .ok ([opNumberOf nRequired] ++
      (keys.map fun key => pushData [] key.getPubKey).flatten ++
        [opNumberOf keys.length, OP_CHECKMULTISIG]) := by
  have hfold : ∀ (keys : List CKey) (s : CScript),
      keys.foldl (fun script key => script.pushData key.getPubKey) s =
        s ++ (keys.map fun key => pushData [] key.getPubKey).flatten := by
    intro keys
    induction keys with
    | nil => exact fun s => (List.append_nil s).symm
    | cons key keys ih =>
      intro s
      rw [List.foldl_cons, ih, pushData_eq, List.append_assoc]
      rfl
  rw [setMultisig, encodeOP_N_eq hpos (hle.trans hmax), encodeOP_N_eq (hpos.trans hle) hmax]
  simp only [bind, Except.bind, pure, Except.pure, hfold]
  simp [pushOpcode]

/-- A script that pays to some of several keys is taken apart into these. -/
lemma solver_setMultisig {keys : List CKey} (hpos : 1 ≤ nRequired) (hle : nRequired ≤ keys.length)
    (hmax : keys.length ≤ 16)
    (hsize : ∀ key ∈ keys, 33 ≤ key.getPubKey.length ∧ key.getPubKey.length ≤ 120) :
    ∃ script, setMultisig nRequired keys = .ok script ∧
      script.solver = some (.TX_MULTISIG, [UInt8.ofNat nRequired] ::
        (keys.map CKey.getPubKey ++ [[UInt8.ofNat keys.length]])) := by
  have hops : List.Forall₂ PushOf (keys.map CKey.getPubKey)
      (keys.map fun key => pushData [] key.getPubKey) := by
    rw [List.forall₂_map_left_iff, List.forall₂_map_right_iff, List.forall₂_same]
    intro key hkey
    have hkey' := hsize key hkey
    exact pushOf_pushData (by omega)
  have hsize' : ∀ key ∈ keys.map CKey.getPubKey, 33 ≤ key.length ∧ key.length ≤ 120 := by
    intro vch hvch
    obtain ⟨key, hkey, rfl⟩ := List.mem_map.mp hvch
    exact hsize key hkey
  have hlength : (keys.map CKey.getPubKey).length = keys.length := List.length_map _
  refine ⟨_, setMultisig_eq hpos hle hmax, ?_⟩
  rw [← hlength] at hle hmax ⊢
  exact solver_multisig hops hsize' hpos hle hmax

/-- `Solver` takes exactly the scripts of its templates, apart from data carriers that are too long
for 32 bits, and returns their data; so the destinations and the keys that scripts are made for
are found again. -/
theorem solver_spec (crypto : Crypto) :
    (∀ script type sols, (type = .TX_NULL_DATA → script.length < 2 ^ 32) →
      (script.solver = some (type, sols) ↔ Template script type sols)) ∧
    (∀ dest, dest ≠ .CNoDestination → extractDestination crypto (setDestination dest) = some dest) ∧
    ∀ (nRequired : ℕ) (keys : List CKey), 1 ≤ nRequired → nRequired ≤ keys.length →
      keys.length ≤ 16 → (∀ key ∈ keys, 33 ≤ key.getPubKey.length ∧ key.getPubKey.length ≤ 120) →
      ∃ script, setMultisig nRequired keys = .ok script ∧
        script.solver = some (.TX_MULTISIG, [UInt8.ofNat nRequired] ::
          (keys.map CKey.getPubKey ++ [[UInt8.ofNat keys.length]])) :=
  ⟨fun _ _ _ => solver_eq_some_iff, fun _ => extractDestination_setDestination crypto,
    fun _ _ => solver_setMultisig⟩

/-- A cryptography for which only the sizes matter. -/
def blankCrypto : Crypto where
  ripemd160 _ := 0
  sha1 _ := 0
  sha256 _ := 0
  verify _ _ _ := false

/-- A key whose public key is compressed. -/
def compressedKey : CKey where
  getPubKey := List.replicate 33 2
  sign _ := none

/-- The hash of a key, and a key of which one or two are needed. -/
theorem solver_spec_sample :
    extractDestination blankCrypto (setDestination (.CKeyID 7)) = some (.CKeyID 7) ∧
      (∃ script, setMultisig 1 [compressedKey, compressedKey] = .ok script ∧
        script.solver = some (.TX_MULTISIG,
          [[1], List.replicate 33 2, List.replicate 33 2, [2]])) ∧
      solver (33 :: List.replicate 33 2 ++ [OP_CHECKSIG]) =
        some (.TX_PUBKEY, [List.replicate 33 2]) := by
  obtain ⟨htemplates, hdest, hmultisig⟩ := solver_spec blankCrypto
  have hsize : ∀ key ∈ [compressedKey, compressedKey],
      33 ≤ key.getPubKey.length ∧ key.getPubKey.length ≤ 120 := by
    simp [compressedKey]
  have hpush : PushOf (List.replicate 33 2) (33 :: List.replicate 33 2) :=
    .direct (b := List.replicate 33 2) (by decide)
  exact ⟨hdest _ (by decide), hmultisig 1 _ (by decide) (by decide) (by decide) hsize,
    (htemplates _ _ _ (by decide)).mpr (.pubkey hpush (by decide) (by decide))⟩

/-- A data carrier in which the bytes after the first opcode of its data are counted as none. -/
lemma solver_long {k : ℕ} (hk : k = 2 ^ 32 - 1) :
    solver ([OP_RETURN] ++ ([1, 0] :: List.replicate k [OP_0]).flatten) ≠
      some (.TX_NULL_DATA, []) := by
  intro h
  have hdata : ([1, 0] :: List.replicate k [OP_0]).flatten = 1 :: 0 :: List.replicate k OP_0 := by
    rw [List.flatten_cons, List.flatten_replicate_singleton]
    rfl
  have hlength : (0 :: List.replicate k OP_0).length = 2 ^ 32 := by
    rw [List.length_cons, List.length_replicate]
    omega
  have hread : CScript.getOp2 (1 :: 0 :: List.replicate k OP_0) = none := by
    rw [CScript.getOp2, if_pos (by decide), hlength]
    rfl
  rw [hdata, solver] at h
  split_ifs at h with hpay hreturn
  · cases h
  · have hpush : isPushOnly (1 :: 0 :: List.replicate k OP_0) = true := hreturn.2
    rw [isPushOnly_of_none (List.cons_ne_nil _ _) hread] at hpush
    cases hpush
  · obtain ⟨template, hmem, -⟩ := scanTemplates_eq_some h
    simp [mTemplates] at hmem

/-- No destination is found again, and a data carrier in which the bytes that are left are counted
as none is not taken. -/
theorem not_solver_spec :
    (¬ ∀ (crypto : Crypto) (dest : CTxDestination),
      extractDestination crypto (setDestination dest) = some dest) ∧
    ¬ ∀ script type sols, script.solver = some (type, sols) ↔ Template script type sols := by
  constructor
  · intro h
    have hdest := h blankCrypto .CNoDestination
    have hsolver : solver [] = none := by decide
    rw [setDestination, extractDestination, hsolver] at hdest
    cases hdest
  · intro h
    obtain ⟨k, hk⟩ : ∃ k : ℕ, k = 2 ^ 32 - 1 := ⟨_, rfl⟩
    have hops : ∀ op ∈ [1, 0] :: List.replicate k [OP_0], IsPushOp op := by
      intro op hmem
      rcases List.mem_cons.mp hmem with rfl | hmem
      · exact .inl ⟨[0], .direct (b := [0]) (by decide)⟩
      · rw [List.eq_of_mem_replicate hmem]
        exact .inl ⟨[], .direct (b := []) (by decide)⟩
    exact solver_long hk ((h _ _ _).mpr (.dataCarrier hops))

end CScript

end HyperStake
