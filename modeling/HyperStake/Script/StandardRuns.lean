import HyperStake.Script.Standard

/-!
# Running standard scripts

Rules for the loop of `EvalScript` over operations that push data or a number and over the others,
from the start of a script on.  The scripts of the kinds with a template are taken apart by what
`Solver` finds in them, and run through after what they need is pushed: signatures, and a public key
if there is only its hash.
-/

namespace HyperStake

open LittleEndian Stopping Eval GreedyMatch

/-! ## Scripts that push -/

namespace CScript

variable {pc pc' pc'' : CScript} {opcode : UInt8} {vch : Bytes} {items items' : List Bytes}

/-- A part of a script that pushes some data. -/
inductive Pushes : CScript → List Bytes → CScript → Prop where
  | nil {pc : CScript} : Pushes pc [] pc
  | cons {pc pc' pc'' : CScript} {opcode : UInt8} {vch : Bytes} {items : List Bytes} :
    getOp2 pc = some (opcode, vch, pc') → opcode ≤ OP_PUSHDATA4 → Pushes pc' items pc'' →
      Pushes pc (vch :: items) pc''

lemma Pushes.append (h : Pushes pc items pc') (h' : Pushes pc' items' pc'') :
    Pushes pc (items ++ items') pc'' := by
  induction h with
  | nil => exact h'
  | cons hop hle _ ih => exact .cons hop hle (ih h')

/-- An operation that pushes some bytes is one of those that have them. -/
lemma le_pushdata4_of_ne_nil (hop : getOp2 pc = some (opcode, vch, pc')) (hne : vch ≠ []) :
    opcode ≤ OP_PUSHDATA4 := by
  match pc with
  | [] => cases hop
  | byte :: pc =>
    simp only [getOp2] at hop
    by_cases hlt : byte < OP_PUSHDATA1
    · rw [if_pos hlt] at hop
      split_ifs at hop
      simp only [Option.some.injEq, Prod.mk.injEq] at hop
      have hnat : byte.toNat < 0x4c := UInt8.lt_iff_toNat_lt.mp hlt
      rw [← hop.1, UInt8.le_iff_toNat_le]
      exact (show byte.toNat ≤ 0x4e by omega)
    · rw [if_neg hlt] at hop
      by_cases hle : byte ≤ OP_PUSHDATA4
      · rw [if_pos hle] at hop
        split_ifs at hop <;> simp only [Option.some.injEq, Prod.mk.injEq] at hop <;>
          exact hop.1 ▸ hle
      · rw [if_neg hle] at hop
        simp only [Option.some.injEq, Prod.mk.injEq] at hop
        exact absurd hop.2.1.symm hne

/-- What is pushed onto a script follows it. -/
lemma pushData_eq (s : CScript) (b : Bytes) : pushData s b = s ++ pushData [] b := by
  unfold pushData
  split_ifs <;> simp

variable {b rest : Bytes}

/-- What is pushed with a length of some bytes is read back. -/
lemma getOp2_length {nLength : ℕ} (hlt : ¬ opcode < OP_PUSHDATA1) (hle : opcode ≤ OP_PUSHDATA4)
    (hlength : nLength = if opcode = OP_PUSHDATA1 then 1 else if opcode = OP_PUSHDATA2 then 2 else 4)
    (hfit : b.length < 256 ^ nLength) (h : b.length + rest.length < 2 ^ 32) :
    getOp2 ([opcode] ++ leBytes nLength b.length ++ b ++ rest) = some (opcode, b, rest) := by
  have hsome : ¬ (leBytes nLength b.length ++ (b ++ rest)).length < nLength := by
    rw [List.length_append, leBytes_length]
    omega
  have htake : (leBytes nLength b.length ++ (b ++ rest)).take nLength = leBytes nLength b.length :=
    List.take_left' (leBytes_length _ _)
  have hdrop : (leBytes nLength b.length ++ (b ++ rest)).drop nLength = b ++ rest :=
    List.drop_left' (leBytes_length _ _)
  have hleft : ¬ (b ++ rest).length % 2 ^ 32 < b.length := by
    rw [List.length_append]
    omega
  rw [List.append_assoc, List.append_assoc, List.singleton_append, getOp2]
  simp only [if_neg hlt, if_pos hle]
  rw [← hlength, if_neg hsome, htake, hdrop, leValue_leBytes_of_lt hfit, if_neg hleft,
    List.take_left, List.drop_left]

/-- What is pushed is read back. -/
lemma getOp2_pushData (h : b.length + rest.length < 2 ^ 32) :
    ∃ opcode ≤ OP_PUSHDATA4, getOp2 (pushData [] b ++ rest) = some (opcode, b, rest) := by
  by_cases hshort : b.length < 76
  · have hle : UInt8.ofNat b.length ≤ OP_PUSHDATA4 := by
      rw [UInt8.le_iff_toNat_le, UInt8.toNat_ofNat', Nat.mod_eq_of_lt (by omega)]
      exact (show b.length ≤ 0x4e by omega)
    rw [pushData_of_lt hshort, List.nil_append, List.cons_append]
    exact ⟨_, hle, getOp2_push hshort h⟩
  have hlt : ¬ b.length < OP_PUSHDATA1.toNat := hshort
  rw [pushData, if_neg hlt]
  split_ifs with hone htwo
  · exact ⟨OP_PUSHDATA1, by decide, getOp2_length (by decide) (by decide) rfl (by omega) h⟩
  · exact ⟨OP_PUSHDATA2, by decide, getOp2_length (by decide) (by decide) rfl (by omega) h⟩
  · exact ⟨OP_PUSHDATA4, by decide, getOp2_length (by decide) (by decide) rfl (by omega) h⟩

lemma pushes_pushData (h : b.length + rest.length < 2 ^ 32) :
    Pushes (pushData [] b ++ rest) [b] rest := by
  obtain ⟨opcode, hle, hop⟩ := getOp2_pushData h
  exact .cons hop hle .nil

/-- A script that pushes all of some data. -/
def pushAll (items : List Bytes) : CScript := (items.map (pushData [])).flatten

lemma pushAll_append (items items' : List Bytes) :
    pushAll (items ++ items') = pushAll items ++ pushAll items' := by
  rw [pushAll, List.map_append, List.flatten_append, pushAll, pushAll]

lemma length_pushData_le (b : Bytes) : (pushData [] b).length ≤ b.length + 5 := by
  unfold pushData
  split_ifs <;> simp <;> omega

lemma le_length_pushData (b : Bytes) : b.length ≤ (pushData [] b).length := by
  unfold pushData
  split_ifs <;> simp only [List.length_append, List.length_cons, List.length_nil] <;> omega

lemma pushes_pushAll {rest : CScript} (h : (pushAll items ++ rest).length < 2 ^ 32) :
    Pushes (pushAll items ++ rest) items rest := by
  induction items with
  | nil => exact .nil
  | cons vch items ih =>
    have hall : pushAll (vch :: items) = pushData [] vch ++ pushAll items := rfl
    have hpush := le_length_pushData vch
    rw [hall, List.append_assoc] at h ⊢
    rw [List.length_append] at h
    exact (pushes_pushData (by omega)).append (ih (by omega))

/-- A script of pushes pushes its data. -/
lemma pushes_pushAll_nil (h : (pushAll items).length < 2 ^ 32) : Pushes (pushAll items) items [] := by
  have hall : Pushes (pushAll items ++ []) items [] :=
    pushes_pushAll (by rwa [List.append_nil])
  rwa [List.append_nil] at hall

lemma length_pushAll_le (h : ∀ vch ∈ items, vch.length ≤ 520) :
    (pushAll items).length ≤ 525 * items.length := by
  induction items with
  | nil => exact le_refl _
  | cons vch items ih =>
    have hvch := h vch (List.mem_cons_self ..)
    have hpush := length_pushData_le vch
    have hrest := ih fun vch' hvch => h vch' (List.mem_cons_of_mem _ hvch)
    have hall : pushAll (vch :: items) = pushData [] vch ++ pushAll items := rfl
    rw [hall, List.length_append, List.length_cons]
    omega

/-- A script that pushes data is one of pushes only. -/
lemma Pushes.isPushOnly (h : Pushes pc items []) : pc.isPushOnly = true := by
  generalize hend : ([] : CScript) = pc' at h
  induction h with
  | nil => rw [← hend, CScript.isPushOnly, if_pos rfl]
  | @cons pc pc' pc'' opcode vch items hop hle _ ih =>
    have hne : pc ≠ [] := by
      rintro rfl
      cases hop
    have hle16 : ¬ opcode > OP_16 := by
      rw [gt_iff_lt, UInt8.lt_iff_toNat_lt]
      rw [UInt8.le_iff_toNat_le] at hle
      have h4 : OP_PUSHDATA4.toNat = 0x4e := rfl
      have h16 : OP_16.toNat = 0x60 := rfl
      omega
    rw [CScript.isPushOnly, if_neg hne]
    split
    · next hnone =>
      rw [hop] at hnone
      cases hnone
    · next hsome =>
      rw [hop] at hsome
      cases hsome
      rw [if_neg hle16]
      exact ih hend

/-- An operation has at most five bytes besides its data. -/
lemma length_le_add_of_getOp2 (hop : getOp2 pc = some (opcode, vch, pc')) :
    pc.length ≤ vch.length + 5 + pc'.length := by
  match pc with
  | [] => cases hop
  | byte :: pc =>
    simp only [getOp2] at hop
    split_ifs at hop <;> simp only [Option.some.injEq, Prod.mk.injEq] at hop <;>
      rw [← hop.2.1, ← hop.2.2] <;>
      simp only [List.length_cons, List.length_take, List.length_drop, List.length_nil] at * <;>
      omega

lemma Pushes.length_le (h : Pushes pc items pc') (hitems : ∀ vch ∈ items, vch.length ≤ 520) :
    pc.length ≤ 525 * items.length + pc'.length := by
  induction h with
  | nil => simp
  | @cons pc pc' pc'' opcode vch items hop hle _ ih =>
    have hfirst := length_le_add_of_getOp2 hop
    have hvch := hitems vch (List.mem_cons_self ..)
    have hrest := ih fun vch' hmem => hitems vch' (List.mem_cons_of_mem _ hmem)
    rw [List.length_cons]
    omega

/-! ## Deleting what is not there -/

/-- What follows an operation is the end of the script. -/
lemma suffix_of_getOp2 (hop : getOp2 pc = some (opcode, vch, pc')) : pc' <:+ pc := by
  match pc with
  | [] => cases hop
  | byte :: pc =>
    have hdrop : ∃ n, pc.drop n = pc' := by
      simp only [getOp2] at hop
      split_ifs at hop <;> simp only [List.drop_drop, Option.some.injEq, Prod.mk.injEq] at hop
      · exact ⟨_, hop.2.2⟩
      · exact ⟨_, hop.2.2⟩
      · exact ⟨_, hop.2.2⟩
      · exact ⟨_, hop.2.2⟩
      · exact ⟨0, hop.2.2⟩
    obtain ⟨n, rfl⟩ := hdrop
    exact (List.drop_suffix n pc).trans (List.suffix_cons byte pc)

lemma Pushes.suffix (h : Pushes pc items pc') : pc' <:+ pc := by
  induction h with
  | nil => exact List.suffix_refl _
  | cons hop _ _ ih => exact ih.trans (suffix_of_getOp2 hop)

lemma findAndDelete_nil {b : CScript} (hb : b ≠ []) : findAndDelete b [] = [] := by
  have hstart : deleteStart b [] = [] := by
    rw [deleteStart, if_neg fun h => hb (List.prefix_nil.mp h.2)]
  rw [findAndDelete]
  split
  · exact hstart
  · next hsome =>
    rw [hstart] at hsome
    cases hsome

/-- An operation does not start with the deleted script, so it is kept. -/
lemma findAndDelete_of_getOp2 {b : CScript} (hstart : ¬ b <+: pc)
    (hop : getOp2 pc = some (opcode, vch, pc')) (hrest : findAndDelete b pc' = pc') :
    findAndDelete b pc = pc := by
  have hnone : deleteStart b pc = pc := by rw [deleteStart, if_neg fun h => hstart h.2]
  obtain ⟨first, rfl⟩ := suffix_of_getOp2 hop
  rw [findAndDelete]
  split
  · exact hnone
  · next hsome =>
    rw [hnone, hop] at hsome
    cases hsome
    rw [hnone, hrest, List.length_append, Nat.add_sub_cancel, List.take_left]

end CScript

/-! ## Running scripts -/

namespace ScriptEnv

variable (env : ScriptEnv) {s : ScriptState} {Q : Unit → ScriptState → Prop}
  {E : Stop → ScriptState → Prop} {pc pc' : CScript} {opcode : UInt8} {vch : Bytes}
  {items : List Bytes}

lemma fExec_of_nil (hexec : s.vfExec = []) : s.fExec = true := by
  rw [ScriptState.fExec, hexec]
  rfl

/-- The end of the script. -/
lemma leads_evalLoop_nil (h : Q () s) : Leads (env.evalLoop []) Q E s := by
  rw [env.evalLoop_nil, leads_pure]
  exact h

/-- An operation that pushes its data. -/
lemma leads_evalLoop_push (hop : pc.getOp2 = some (opcode, vch, pc')) (hle : opcode ≤ OP_PUSHDATA4)
    (hvch : vch.length ≤ 520) (hexec : s.vfExec = [])
    (hsize : s.stack.length + s.altstack.length < 1000)
    (hrest : Leads (env.evalLoop pc') Q E { s with stack := vch :: s.stack }) :
    Leads (env.evalLoop pc) Q E s := by
  have hcount : ¬ opcode > OP_16 := UInt8.not_lt.mpr (UInt8.le_trans hle (by decide))
  have hdisabled : opcode ∉ disabledOpcodes := by
    intro hmem
    have hall : (disabledOpcodes.all fun opcode => decide (¬ opcode ≤ OP_PUSHDATA4)) = true := by
      decide
    exact of_decide_eq_true (List.all_eq_true.mp hall opcode hmem) hle
  rw [env.evalLoop_of_getOp2 hop, leads_bind]
  simp only [evalOp, leads_bind, leads_get, leads_failIf, countOp, if_neg hcount, leads_pure,
    fExec_of_nil hexec]
  rw [if_neg (not_lt.mpr hvch), if_neg hdisabled, dispatch, if_pos ⟨rfl, hle⟩, leads_push,
    if_neg (by simp only [List.length_cons]; omega)]
  exact hrest

/-- A part of the script that pushes some data. -/
lemma leads_evalLoop_pushes (h : CScript.Pushes pc items pc')
    (hitems : ∀ vch ∈ items, vch.length ≤ 520)
    (hexec : s.vfExec = []) (hsize : s.stack.length + items.length + s.altstack.length ≤ 1000)
    (hrest : Leads (env.evalLoop pc') Q E { s with stack := items.reverse ++ s.stack }) :
    Leads (env.evalLoop pc) Q E s := by
  induction h generalizing s with
  | nil => exact hrest
  | @cons pc pc' pc'' opcode vch items hop hle _ ih =>
    rw [List.length_cons] at hsize
    refine env.leads_evalLoop_push hop hle (hitems vch (List.mem_cons_self ..)) hexec (by omega) ?_
    refine ih (fun vch' hvch => hitems vch' (List.mem_cons_of_mem _ hvch)) hexec
      (by simp only [List.length_cons]; omega) ?_
    rw [List.reverse_cons, List.append_assoc] at hrest
    exact hrest

/-- An operation that pushes a number. -/
lemma leads_evalLoop_number (hop : pc.getOp2 = some (opcode, vch, pc')) (hone : OP_1 ≤ opcode)
    (hle : opcode ≤ OP_16) (hvch : vch = []) (hexec : s.vfExec = [])
    (hsize : s.stack.length + s.altstack.length < 1000)
    (hrest : Leads (env.evalLoop pc') Q E
      { s with stack := CScript.getvch (CScript.decodeOP_N opcode) :: s.stack }) :
    Leads (env.evalLoop pc) Q E s := by
  have hge : 0x51 ≤ opcode.toNat := UInt8.le_iff_toNat_le.mp hone
  have hcount : ¬ opcode > OP_16 := UInt8.not_lt.mpr hle
  have hdisabled : opcode ∉ disabledOpcodes := by
    intro hmem
    have hall : (disabledOpcodes.all fun opcode => decide (¬ opcode ≤ OP_16)) = true := by decide
    exact of_decide_eq_true (List.all_eq_true.mp hall opcode hmem) hle
  have hdata : ¬ opcode ≤ OP_PUSHDATA4 := by
    rw [UInt8.le_iff_toNat_le]
    exact not_le.mpr (show 0x4e < opcode.toNat by omega)
  have hvalue : (opcode.toNat : ℤ) - ((OP_1.toNat : ℤ) - 1) = (CScript.decodeOP_N opcode : ℕ) := by
    have hne : opcode ≠ OP_0 := by
      rintro rfl
      exact absurd hge (by decide)
    have hnat : OP_1.toNat = 0x51 := rfl
    rw [CScript.decodeOP_N, if_neg hne, hnat]
    omega
  rw [env.evalLoop_of_getOp2 hop, leads_bind]
  simp only [evalOp, leads_bind, leads_get, leads_failIf, countOp, if_neg hcount, leads_pure,
    fExec_of_nil hexec]
  rw [if_neg (by rw [hvch]; decide), if_neg hdisabled, dispatch, if_neg fun h => hdata h.2,
    if_pos (Or.inl rfl), execute, if_pos (Or.inr ⟨hone, hle⟩), opNumber, leads_push,
    if_neg (by simp only [List.length_cons]; omega), hvalue]
  exact hrest

/-- An operation that is counted. -/
lemma leads_evalLoop_execute (hop : pc.getOp2 = some (opcode, [], pc')) (hgt : opcode > OP_16)
    (hdisabled : opcode ∉ disabledOpcodes) (hexec : s.vfExec = []) (hcount : s.nOpCount < 201)
    (hrest : Leads (env.execute opcode true pc')
      (fun _ s' => s'.stack.length + s'.altstack.length ≤ 1000 ∧ Leads (env.evalLoop pc') Q E s') E
      { s with nOpCount := s.nOpCount + 1 }) :
    Leads (env.evalLoop pc) Q E s := by
  have hdata : ¬ opcode ≤ OP_PUSHDATA4 := by
    have hgt' := UInt8.lt_iff_toNat_lt.mp hgt
    have h16 : OP_16.toNat = 0x60 := rfl
    rw [UInt8.le_iff_toNat_le]
    exact not_le.mpr (show 0x4e < opcode.toNat by omega)
  rw [env.evalLoop_of_getOp2 hop, leads_bind]
  simp only [evalOp, leads_bind, leads_get, leads_failIf, countOp, if_pos hgt, leads_modify,
    fExec_of_nil hexec]
  rw [if_neg (by decide), if_neg (by omega), if_neg hdisabled, dispatch, if_neg fun h => hdata h.2,
    if_pos (Or.inl rfl)]
  refine hrest.mono (fun _ s' hs' => ?_) fun _ _ he => he
  rw [if_neg (by omega)]
  exact hs'.2

/-- `EvalScript` returns true for a script that runs to its end. -/
lemma evalScript_of_leads {P : List Bytes → Prop} {stack : List Bytes} {script : CScript}
    (hlength : script.length ≤ 10000)
    (h : Leads (env.evalLoop script) (fun _ s' => s'.vfExec = [] ∧ P s'.stack) (fun _ _ => False)
      (startState stack script)) :
    (env.evalScript stack script).1 = .ok true ∧ P (env.evalScript stack script).2.stack := by
  rw [evalScript, if_neg (not_lt.mpr hlength)]
  rw [Leads] at h
  rcases hout : outcome (env.evalLoop script) (startState stack script) with ⟨stop | ⟨⟩, s'⟩
  · rw [hout] at h
    exact h.elim
  · rw [hout] at h
    refine ⟨?_, h.2⟩
    dsimp only
    rw [h.1]
    rfl

end ScriptEnv

/-! ## What the templates match -/

namespace CScript

variable {script pc pc' : CScript} {opcode opcode2 : UInt8} {vch : Bytes}
  {template : List UInt8} {vSolutions taken keys sols : List Bytes}

lemma matchOp_exact (hexact : opcode2 ∉ [OP_PUBKEY, OP_PUBKEYHASH, OP_SMALLINTEGER])
    (h : matchOp opcode2 opcode vch = some taken) : opcode = opcode2 ∧ vch = [] ∧ taken = [] := by
  simp only [List.mem_cons, List.not_mem_nil, or_false, not_or] at hexact
  rw [matchOp, if_neg hexact.1, if_neg hexact.2.1, if_neg hexact.2.2] at h
  split_ifs at h with hbad
  rw [not_or, not_not, not_not] at hbad
  exact ⟨hbad.1, hbad.2, (Option.some.inj h).symm⟩

lemma matchOp_pubkey (h : matchOp OP_PUBKEY opcode vch = some taken) :
    (33 ≤ vch.length ∧ vch.length ≤ 120) ∧ taken = [vch] := by
  rw [matchOp, if_pos rfl] at h
  split_ifs at h with hbad
  exact ⟨by omega, (Option.some.inj h).symm⟩

lemma matchOp_pubkeyhash (h : matchOp OP_PUBKEYHASH opcode vch = some taken) :
    vch.length = 20 ∧ taken = [vch] := by
  rw [matchOp, if_neg (by decide), if_pos rfl] at h
  split_ifs at h with hbad
  exact ⟨not_not.mp hbad, (Option.some.inj h).symm⟩

lemma matchOp_smallinteger (h : matchOp OP_SMALLINTEGER opcode vch = some taken) :
    (opcode = OP_0 ∨ OP_1 ≤ opcode ∧ opcode ≤ OP_16) ∧
      taken = [[UInt8.ofNat (decodeOP_N opcode)]] := by
  rw [matchOp, if_neg (by decide), if_neg (by decide), if_pos rfl] at h
  split_ifs at h with hsmall
  exact ⟨hsmall, (Option.some.inj h).symm⟩

lemma matchTemplate_nil (h : matchTemplate [] pc vSolutions = some sols) :
    pc = [] ∧ vSolutions = sols := by
  rw [matchTemplate] at h
  split_ifs at h with hnil
  exact ⟨hnil, Option.some.inj h⟩

lemma matchTemplate_cons (hne : opcode2 ≠ OP_PUBKEYS)
    (h : matchTemplate (opcode2 :: template) pc vSolutions = some sols) :
    ∃ opcode vch pc' taken, getOp2 pc = some (opcode, vch, pc') ∧
      matchOp opcode2 opcode vch = some taken ∧
      matchTemplate template pc' (vSolutions ++ taken) = some sols := by
  rw [matchTemplate] at h
  match hop : getOp2 pc with
  | none =>
    rw [hop] at h
    cases h
  | some (opcode, vch, pc') =>
    rw [hop] at h
    dsimp only at h
    rw [if_neg hne, Option.bind_eq_some_iff] at h
    obtain ⟨taken, htaken, hrest⟩ := h
    exact ⟨opcode, vch, pc', taken, rfl, htaken, hrest⟩

lemma matchTemplate_pubkeys
    (h : matchTemplate (OP_PUBKEYS :: opcode2 :: template) pc vSolutions = some sols) :
    ∃ opcode vch pc' keys opcode' vch' pc'' taken, getOp2 pc = some (opcode, vch, pc') ∧
      takePubKeys opcode vch pc' = (keys, opcode', vch', pc'') ∧
      matchOp opcode2 opcode' vch' = some taken ∧
      matchTemplate template pc'' (vSolutions ++ keys ++ taken) = some sols := by
  rw [matchTemplate] at h
  match hop : getOp2 pc with
  | none =>
    rw [hop] at h
    cases h
  | some (opcode, vch, pc') =>
    rw [hop] at h
    dsimp only at h
    rw [if_pos rfl] at h
    match hkeys : takePubKeys opcode vch pc' with
    | (keys, opcode', vch', pc'') =>
      rw [hkeys] at h
      obtain ⟨taken, htaken, hrest⟩ := Option.bind_eq_some_iff.mp h
      exact ⟨opcode, vch, pc', keys, opcode', vch', pc'', taken, rfl, hkeys, htaken, hrest⟩

/-- The public keys that are taken are pushed, and another operation follows them. -/
lemma pushes_takePubKeys {vch' : Bytes} {opcode' : UInt8} {pc'' : CScript}
    (hop : getOp2 pc = some (opcode, vch, pc'))
    (h : takePubKeys opcode vch pc' = (keys, opcode', vch', pc''))
    (hvalid : opcode' ≠ OP_INVALIDOPCODE) :
    (∀ key ∈ keys, 33 ≤ key.length ∧ key.length ≤ 120) ∧
      ∃ pcKeys, Pushes pc keys pcKeys ∧ getOp2 pcKeys = some (opcode', vch', pc'') := by
  induction hn : pc.length using Nat.strong_induction_on generalizing pc opcode vch pc' keys with
  | _ n ih =>
    rw [takePubKeys] at h
    by_cases hkey : vch.length ≥ 33 ∧ vch.length ≤ 120
    · rw [if_pos hkey] at h
      have hle : opcode ≤ OP_PUSHDATA4 := le_pushdata4_of_ne_nil hop fun hnil => by
        rw [hnil] at hkey
        exact absurd hkey.1 (by decide)
      split at h
      · -- the script ends after the key
        simp only [Prod.mk.injEq] at h
        exact absurd h.2.1.symm hvalid
      · next opcode1 vch1 pc1 hop1 =>
        rcases hrest : takePubKeys opcode1 vch1 pc1 with ⟨keys1, opcode2, vch2, pc2⟩
        rw [hrest] at h
        simp only [Prod.mk.injEq] at h
        obtain ⟨rfl, rfl, rfl, rfl⟩ := h
        obtain ⟨hsmall, pcKeys, hpushes, hopKeys⟩ :=
          ih pc'.length (hn ▸ length_lt_of_getOp2 hop) hop1 hrest rfl
        refine ⟨fun key hmem => ?_, pcKeys, .cons hop hle hpushes, hopKeys⟩
        rcases List.mem_cons.mp hmem with rfl | hmem
        · exact hkey
        · exact hsmall key hmem
    · rw [if_neg hkey] at h
      simp only [Prod.mk.injEq] at h
      obtain ⟨rfl, rfl, rfl, rfl⟩ := h
      exact ⟨fun _ hmem => absurd hmem List.not_mem_nil, pc, .nil, hop⟩

/-- An operation that pushes a small number has no data. -/
lemma eq_nil_of_number (hop : getOp2 pc = some (opcode, vch, pc')) (hone : OP_1 ≤ opcode) :
    vch = [] := by
  by_contra hne
  have hle := UInt8.le_iff_toNat_le.mp (le_pushdata4_of_ne_nil hop hne)
  have hge := UInt8.le_iff_toNat_le.mp hone
  have h4 : OP_PUSHDATA4.toNat = 0x4e := rfl
  have h1 : OP_1.toNat = 0x51 := rfl
  omega

/-! ## The kinds of scripts -/

lemma scanTemplates_eq_some {templates : List (TxnOutType × CScript)} {type : TxnOutType}
    (h : scanTemplates script templates = some (type, sols)) :
    ∃ template, (type, template) ∈ templates ∧ matchTemplate template script [] = some sols ∧
      (type = .TX_MULTISIG → checkMultiSigSolutions sols = true) := by
  induction templates with
  | nil => cases h
  | cons first templates ih =>
    obtain ⟨type', template⟩ := first
    rw [scanTemplates] at h
    match hmatch : matchTemplate template script [] with
    | none =>
      rw [hmatch] at h
      obtain ⟨template', hmem, hrest⟩ := ih h
      exact ⟨template', List.mem_cons_of_mem _ hmem, hrest⟩
    | some vSolutions =>
      rw [hmatch] at h
      dsimp only at h
      split_ifs at h with hmulti
      cases h
      refine ⟨template, List.mem_cons_self .., hmatch, fun htype => ?_⟩
      by_contra hcheck
      exact hmulti ⟨htype, by simpa using hcheck⟩

/-- A script of one of the kinds with a template. -/
lemma solver_eq_some {type : TxnOutType} (h : script.solver = some (type, sols))
    (hhash : type ≠ .TX_SCRIPTHASH) (hdata : type ≠ .TX_NULL_DATA) :
    script.isPayToScriptHash = false ∧ scanTemplates script mTemplates = some (type, sols) := by
  rw [solver] at h
  split_ifs at h with hpay hreturn
  · cases h
    exact absurd rfl hhash
  · cases h
    exact absurd rfl hdata
  · exact ⟨Bool.eq_false_iff.mpr hpay, h⟩

/-- A script that pays to a public key. -/
structure IsPayToPubKey (script : CScript) (key : Bytes) : Prop where
  notScriptHash : script.isPayToScriptHash = false
  size : 33 ≤ key.length ∧ key.length ≤ 120
  ops : ∃ pc, Pushes script [key] pc ∧ getOp2 pc = some (OP_CHECKSIG, [], [])

/-- A script that pays to the hash of a public key. -/
structure IsPayToPubKeyHash (script : CScript) (hash : Bytes) : Prop where
  notScriptHash : script.isPayToScriptHash = false
  size : hash.length = 20
  ops : ∃ pc1 pc2 pc3 pc4, getOp2 script = some (OP_DUP, [], pc1) ∧
    getOp2 pc1 = some (OP_HASH160, [], pc2) ∧ Pushes pc2 [hash] pc3 ∧
    getOp2 pc3 = some (OP_EQUALVERIFY, [], pc4) ∧ getOp2 pc4 = some (OP_CHECKSIG, [], [])

/-- A script that pays to a number of several public keys. -/
structure IsPayToMultiSig (script : CScript) (nRequired : ℕ) (keys : List Bytes) : Prop where
  notScriptHash : script.isPayToScriptHash = false
  size : ∀ key ∈ keys, 33 ≤ key.length ∧ key.length ≤ 120
  required_pos : 1 ≤ nRequired
  required_le : nRequired ≤ keys.length
  keys_le : keys.length ≤ 16
  ops : ∃ opcodeM opcodeN pc1 pc2 pc3, getOp2 script = some (opcodeM, [], pc1) ∧
    (OP_1 ≤ opcodeM ∧ opcodeM ≤ OP_16) ∧ decodeOP_N opcodeM = nRequired ∧ Pushes pc1 keys pc2 ∧
    getOp2 pc2 = some (opcodeN, [], pc3) ∧ (OP_1 ≤ opcodeN ∧ opcodeN ≤ OP_16) ∧
    decodeOP_N opcodeN = keys.length ∧ getOp2 pc3 = some (OP_CHECKMULTISIG, [], [])

lemma IsPayToPubKey.pushable {key : Bytes} (h : IsPayToPubKey script key) :
    ∀ vch ∈ [key], vch.length ≤ 520 := by
  have hsize := h.size
  simp only [List.mem_singleton, forall_eq]
  omega

lemma IsPayToMultiSig.pushable {nRequired : ℕ} (h : IsPayToMultiSig script nRequired keys) :
    ∀ vch ∈ keys, vch.length ≤ 520 := fun vch hvch => (h.size vch hvch).2.trans (by decide)

lemma IsPayToPubKey.length_le {key : Bytes} (h : IsPayToPubKey script key) :
    script.length ≤ 10000 := by
  obtain ⟨pc, hpushes, hop⟩ := h.ops
  have hkeys := hpushes.length_le h.pushable
  have hlast := length_le_add_of_getOp2 hop
  simp only [List.length_cons, List.length_nil] at hkeys hlast
  omega

lemma IsPayToPubKeyHash.length_le {hash : Bytes} (h : IsPayToPubKeyHash script hash) :
    script.length ≤ 10000 := by
  obtain ⟨pc1, pc2, pc3, pc4, hop1, hop2, hpushes, hop3, hop4⟩ := h.ops
  have hsize := h.size
  have hhash := hpushes.length_le (by simp [hsize])
  have hdup := length_le_add_of_getOp2 hop1
  have hhash160 := length_le_add_of_getOp2 hop2
  have hequal := length_le_add_of_getOp2 hop3
  have hlast := length_le_add_of_getOp2 hop4
  simp only [List.length_cons, List.length_nil] at hhash hdup hhash160 hequal hlast
  omega

lemma IsPayToMultiSig.length_le {nRequired : ℕ} (h : IsPayToMultiSig script nRequired keys) :
    script.length ≤ 10000 := by
  obtain ⟨opcodeM, opcodeN, pc1, pc2, pc3, hopM, -, -, hpushes, hopN, -, -, hopC⟩ := h.ops
  have hcount := h.keys_le
  have hkeys := hpushes.length_le h.pushable
  have hfirst := length_le_add_of_getOp2 hopM
  have hsecond := length_le_add_of_getOp2 hopN
  have hlast := length_le_add_of_getOp2 hopC
  simp only [List.length_nil] at hfirst hsecond hlast
  omega

lemma isPayToPubKey_of_solver (h : script.solver = some (.TX_PUBKEY, sols)) :
    ∃ key, sols = [key] ∧ IsPayToPubKey script key := by
  obtain ⟨hpay, hscan⟩ := solver_eq_some h (by decide) (by decide)
  obtain ⟨template, hmem, hmatch, -⟩ := scanTemplates_eq_some hscan
  have htemplate : template = [OP_PUBKEY, OP_CHECKSIG] := by simpa [mTemplates] using hmem
  subst htemplate
  obtain ⟨opcode, key, pc, taken, hop, hkey, hmatch⟩ := matchTemplate_cons (by decide) hmatch
  obtain ⟨opcode', vch, pc', taken', hop', hsig, hmatch⟩ := matchTemplate_cons (by decide) hmatch
  obtain ⟨rfl, hsols⟩ := matchTemplate_nil hmatch
  obtain ⟨hsize, rfl⟩ := matchOp_pubkey hkey
  obtain ⟨rfl, rfl, rfl⟩ := matchOp_exact (by decide) hsig
  have hle : opcode ≤ OP_PUSHDATA4 := le_pushdata4_of_ne_nil hop (List.length_pos_iff.mp (by omega))
  exact ⟨key, hsols.symm, hpay, hsize, pc, .cons hop hle .nil, hop'⟩

lemma isPayToPubKeyHash_of_solver (h : script.solver = some (.TX_PUBKEYHASH, sols)) :
    ∃ hash, sols = [hash] ∧ IsPayToPubKeyHash script hash := by
  obtain ⟨hpay, hscan⟩ := solver_eq_some h (by decide) (by decide)
  obtain ⟨template, hmem, hmatch, -⟩ := scanTemplates_eq_some hscan
  have htemplate :
      template = [OP_DUP, OP_HASH160, OP_PUBKEYHASH, OP_EQUALVERIFY, OP_CHECKSIG] := by
    simpa [mTemplates] using hmem
  subst htemplate
  obtain ⟨opcode1, vch1, pc1, taken1, hop1, hdup, hmatch⟩ := matchTemplate_cons (by decide) hmatch
  obtain ⟨opcode2, vch2, pc2, taken2, hop2, hhash, hmatch⟩ := matchTemplate_cons (by decide) hmatch
  obtain ⟨opcode3, hash, pc3, taken3, hop3, hkey, hmatch⟩ := matchTemplate_cons (by decide) hmatch
  obtain ⟨opcode4, vch4, pc4, taken4, hop4, heq, hmatch⟩ := matchTemplate_cons (by decide) hmatch
  obtain ⟨opcode5, vch5, pc5, taken5, hop5, hsig, hmatch⟩ := matchTemplate_cons (by decide) hmatch
  obtain ⟨rfl, hsols⟩ := matchTemplate_nil hmatch
  obtain ⟨rfl, rfl, rfl⟩ := matchOp_exact (by decide) hdup
  obtain ⟨rfl, rfl, rfl⟩ := matchOp_exact (by decide) hhash
  obtain ⟨hsize, rfl⟩ := matchOp_pubkeyhash hkey
  obtain ⟨rfl, rfl, rfl⟩ := matchOp_exact (by decide) heq
  obtain ⟨rfl, rfl, rfl⟩ := matchOp_exact (by decide) hsig
  have hle : opcode3 ≤ OP_PUSHDATA4 :=
    le_pushdata4_of_ne_nil hop3 (List.length_pos_iff.mp (by omega))
  exact ⟨hash, hsols.symm, hpay, hsize, pc1, pc2, pc3, pc4, hop1, hop2, .cons hop3 hle .nil, hop4,
    hop5⟩

/-- The value of an opcode that pushes a number. -/
lemma decodeOP_N_of_number (hone : OP_1 ≤ opcode) (hle : opcode ≤ OP_16) :
    1 ≤ decodeOP_N opcode ∧ decodeOP_N opcode ≤ 16 := by
  have hge := UInt8.le_iff_toNat_le.mp hone
  have hle' := UInt8.le_iff_toNat_le.mp hle
  have h1 : OP_1.toNat = 0x51 := rfl
  have h16 : OP_16.toNat = 0x60 := rfl
  have hne : opcode ≠ OP_0 := by
    rintro rfl
    exact absurd hge (by decide)
  rw [decodeOP_N, if_neg hne]
  omega

lemma isPayToMultiSig_of_solver (h : script.solver = some (.TX_MULTISIG, sols)) :
    ∃ nRequired keys, sols = [UInt8.ofNat nRequired] :: (keys ++ [[UInt8.ofNat keys.length]]) ∧
      IsPayToMultiSig script nRequired keys := by
  obtain ⟨hpay, hscan⟩ := solver_eq_some h (by decide) (by decide)
  obtain ⟨template, hmem, hmatch, hcheck⟩ := scanTemplates_eq_some hscan
  have htemplate :
      template = [OP_SMALLINTEGER, OP_PUBKEYS, OP_SMALLINTEGER, OP_CHECKMULTISIG] := by
    simpa [mTemplates] using hmem
  subst htemplate
  obtain ⟨opcodeM, vchM, pc1, takenM, hopM, hM, hmatch⟩ := matchTemplate_cons (by decide) hmatch
  obtain ⟨opcode, vch, pc', keys, opcodeN, vchN, pc3, takenN, hop, hkeys, hN, hmatch⟩ :=
    matchTemplate_pubkeys hmatch
  obtain ⟨opcodeC, vchC, pc4, takenC, hopC, hC, hmatch⟩ := matchTemplate_cons (by decide) hmatch
  obtain ⟨rfl, hsols⟩ := matchTemplate_nil hmatch
  obtain ⟨rfl, rfl, rfl⟩ := matchOp_exact (by decide) hC
  obtain ⟨hsmallM, rfl⟩ := matchOp_smallinteger hM
  obtain ⟨hsmallN, rfl⟩ := matchOp_smallinteger hN
  have hvalid : opcodeN ≠ OP_INVALIDOPCODE := by
    rintro rfl
    exact absurd hsmallN (by decide)
  obtain ⟨hsize, pc2, hpushes, hopN⟩ := pushes_takePubKeys hop hkeys hvalid
  have hsols' : sols = [UInt8.ofNat (decodeOP_N opcodeM)] ::
      (keys ++ [[UInt8.ofNat (decodeOP_N opcodeN)]]) := by
    rw [← hsols]
    simp
  -- both numbers are at least one, so they are not pushed by `OP_0`
  have hlast : sols.getLast?.bind List.head? = some (UInt8.ofNat (decodeOP_N opcodeN)) := by
    rw [hsols', ← List.cons_append, List.getLast?_append]
    rfl
  have hfirst : sols.head?.bind List.head? = some (UInt8.ofNat (decodeOP_N opcodeM)) := by
    rw [hsols']
    rfl
  have hlength : sols.length - 2 = keys.length := by
    rw [hsols']
    simp
  have hchecks := hcheck rfl
  rw [checkMultiSigSolutions, hfirst, hlast, hlength] at hchecks
  simp only [Bool.not_eq_true', Bool.or_eq_false_iff, decide_eq_false_iff_not, bne_eq_false_iff_eq]
    at hchecks
  obtain ⟨⟨⟨hm, hn⟩, hmn⟩, hcount⟩ := hchecks
  have hnumber : ∀ opcode, opcode = OP_0 ∨ OP_1 ≤ opcode ∧ opcode ≤ OP_16 →
      ¬ UInt8.ofNat (decodeOP_N opcode) < 1 → OP_1 ≤ opcode ∧ opcode ≤ OP_16 := by
    rintro opcode (rfl | hnumber) hpos
    · exact absurd (by decide) hpos
    · exact hnumber
  have hM' := hnumber opcodeM hsmallM hm
  have hN' := hnumber opcodeN hsmallN hn
  have hMrange := decodeOP_N_of_number hM'.1 hM'.2
  have hNrange := decodeOP_N_of_number hN'.1 hN'.2
  have hMnat : (UInt8.ofNat (decodeOP_N opcodeM)).toNat = decodeOP_N opcodeM := by
    rw [UInt8.toNat_ofNat', Nat.mod_eq_of_lt (by omega)]
  have hNnat : (UInt8.ofNat (decodeOP_N opcodeN)).toNat = decodeOP_N opcodeN := by
    rw [UInt8.toNat_ofNat', Nat.mod_eq_of_lt (by omega)]
  rw [hNnat] at hcount
  have hle : decodeOP_N opcodeM ≤ decodeOP_N opcodeN := by
    rw [gt_iff_lt, UInt8.lt_iff_toNat_lt, hMnat, hNnat] at hmn
    exact not_lt.mp hmn
  have hMnil := eq_nil_of_number hopM hM'.1
  have hNnil := eq_nil_of_number hopN hN'.1
  rw [← hcount] at hsols'
  exact ⟨decodeOP_N opcodeM, keys, hsols', hpay, hsize, hMrange.1, by omega, by omega, opcodeM,
    opcodeN, pc1, pc2, pc3, hMnil ▸ hopM, hM', rfl, hpushes, hNnil ▸ hopN, hN', hcount.symm, hopC⟩

/-- The bytes of a script that pays to a script hash. -/
lemma eq_of_isPayToScriptHash (h : script.isPayToScriptHash = true) :
    ((script.drop 2).take 20).length = 20 ∧
      script = [OP_HASH160, 20] ++ (script.drop 2).take 20 ++ [OP_EQUAL] := by
  simp only [isPayToScriptHash, Bool.and_eq_true, decide_eq_true_eq] at h
  obtain ⟨⟨⟨hlength, hfirst⟩, hsecond⟩, hlast⟩ := h
  match script with
  | [] => cases hlength
  | [_] => cases hlength
  | op :: size :: pc =>
    obtain rfl : op = OP_HASH160 := Option.some.inj hfirst
    obtain rfl : size = 0x14 := Option.some.inj hsecond
    have hpc : pc.length = 21 := by simpa using hlength
    have hend : pc.drop 20 = [OP_EQUAL] := by
      have hget : pc[20]? = some OP_EQUAL := hlast
      obtain ⟨hlt, hvalue⟩ := List.getElem?_eq_some_iff.mp hget
      rw [List.drop_eq_getElem_cons hlt, hvalue, List.drop_of_length_le (by omega)]
    have htake : ((OP_HASH160 :: 0x14 :: pc).drop 2).take 20 = pc.take 20 := rfl
    rw [htake, List.length_take, ← hend, List.append_assoc, List.take_append_drop]
    exact ⟨by omega, rfl⟩

/-- A script that pays to a script hash is three operations. -/
lemma ops_of_isPayToScriptHash (h : script.isPayToScriptHash = true) :
    script.length = 23 ∧ ((script.drop 2).take 20).length = 20 ∧
      ∃ pc1 pc2, getOp2 script = some (OP_HASH160, [], pc1) ∧
        Pushes pc1 [(script.drop 2).take 20] pc2 ∧ getOp2 pc2 = some (OP_EQUAL, [], []) := by
  obtain ⟨hsize, hscript⟩ := eq_of_isPayToScriptHash h
  generalize (script.drop 2).take 20 = hash at hsize hscript ⊢
  subst hscript
  have hpush : Pushes (pushData [] hash ++ [OP_EQUAL]) [hash] [OP_EQUAL] :=
    pushes_pushData (by rw [hsize]; decide)
  rw [pushData_of_lt (by omega), hsize] at hpush
  exact ⟨by simp [hsize], hsize, _, _, rfl, hpush, rfl⟩

end CScript

/-! ## Running the standard scripts -/

namespace ScriptEnv

open CScript

variable (env : ScriptEnv) {s : ScriptState} {Q : Unit → ScriptState → Prop}
  {E : Stop → ScriptState → Prop} {pc script : CScript} {rest : List Bytes} {vch vchSig key : Bytes}

lemma leads_checkSig (hstack : s.stack = key :: vchSig :: rest)
    (hsig : env.checkSig vchSig key (findAndDelete (pushData [] vchSig) s.pbegincodehash) = true)
    (hQ : Q () { s with stack := vchTrue :: rest, nChecks := s.nChecks + 1 }) :
    Leads (env.execute OP_CHECKSIG true pc) Q E s := by
  have hexecute : env.execute OP_CHECKSIG true pc = env.opCheckSig false := rfl
  rw [hexecute, opCheckSig, leads_bind, leads_need, if_neg (by rw [hstack]; simp), leads_bind,
    leads_stacktop, hstack]
  simp only [Nat.add_one_sub_one, List.getElem?_cons_succ, List.getElem?_cons_zero]
  rw [leads_bind, leads_stacktop, hstack]
  simp only [Nat.sub_self, List.getElem?_cons_zero]
  rw [leads_bind, leads_get, leads_bind, leads_callCheckSig, hsig, leads_bind, leads_popstack]
  simp only [hstack]
  rw [leads_bind, leads_popstack]
  simp only
  rw [leads_bind, pushBool, if_pos rfl, leads_push, verifyIf, if_neg Bool.false_ne_true, leads_pure]
  exact hQ

lemma leads_dup (hstack : s.stack = vch :: rest)
    (hQ : Q () { s with stack := vch :: vch :: rest }) :
    Leads (env.execute OP_DUP true pc) Q E s := by
  have hexecute : env.execute OP_DUP true pc = opDup := rfl
  rw [hexecute, opDup, leads_bind, leads_need, if_neg (by rw [hstack]; simp), leads_bind,
    leads_stacktop, hstack]
  simp only [Nat.sub_self, List.getElem?_cons_zero, leads_push, hstack]
  exact hQ

lemma leads_hash160 (hstack : s.stack = vch :: rest)
    (hQ : Q () { s with stack := leBytes 20 (env.hash160 vch).toNat :: rest }) :
    Leads (env.execute OP_HASH160 true pc) Q E s := by
  have hexecute : env.execute OP_HASH160 true pc = env.opHash OP_HASH160 := rfl
  have hdigest : env.digest OP_HASH160 vch = leBytes 20 (env.hash160 vch).toNat := rfl
  rw [hexecute, opHash, leads_bind, leads_need, if_neg (by rw [hstack]; simp), leads_bind,
    leads_stacktop, hstack]
  simp only [Nat.sub_self, List.getElem?_cons_zero, leads_bind, leads_popstack, hstack, leads_push,
    hdigest]
  exact hQ

section

variable (hstack : s.stack = vch :: vch :: rest)

include hstack

lemma leads_opEqual {fVerify : Bool}
    (hQ : Q () { s with stack := if fVerify then rest else vchTrue :: rest }) :
    Leads (opEqual fVerify) Q E s := by
  rw [opEqual, leads_bind, leads_need, if_neg (by rw [hstack]; simp), leads_bind, leads_stacktop,
    hstack]
  simp only [Nat.add_one_sub_one, List.getElem?_cons_succ, List.getElem?_cons_zero, leads_bind,
    leads_stacktop, hstack, Nat.sub_self, leads_popstack, beq_self_eq_true, pushBool, if_true,
    leads_push]
  cases fVerify with
  | false => exact hQ
  | true =>
    simp only [verifyIf, if_true, leads_popstack]
    exact hQ

lemma leads_equalverify
    (hQ : Q () { s with stack := rest }) : Leads (env.execute OP_EQUALVERIFY true pc) Q E s := by
  have hexecute : env.execute OP_EQUALVERIFY true pc = opEqual true := rfl
  rw [hexecute]
  exact leads_opEqual hstack hQ

lemma leads_equal (hQ : Q () { s with stack := vchTrue :: rest }) :
    Leads (env.execute OP_EQUAL true pc) Q E s := by
  have hexecute : env.execute OP_EQUAL true pc = opEqual false := rfl
  rw [hexecute]
  exact leads_opEqual hstack hQ

end

/-- A script that pays to a public key, after a signature. -/
lemma leads_payToPubKey (h : IsPayToPubKey script key)
    (hsig : env.checkSig vchSig key (findAndDelete (pushData [] vchSig) script) = true) :
    Leads (env.evalLoop script) (fun _ s' => s'.vfExec = [] ∧ s'.stack = [vchTrue])
      (fun _ _ => False) (startState [vchSig] script) := by
  obtain ⟨pc, hpushes, hop⟩ := h.ops
  refine env.leads_evalLoop_pushes hpushes h.pushable rfl (by simp [startState]) ?_
  refine env.leads_evalLoop_execute hop (by decide) (by decide) rfl (by simp [startState]) ?_
  refine env.leads_checkSig (show _ = key :: vchSig :: [] from rfl) hsig ⟨by simp [startState], ?_⟩
  exact env.leads_evalLoop_nil ⟨rfl, rfl⟩

/-- A script that pays to the hash of a public key, after a signature and the key. -/
lemma leads_payToPubKeyHash {hash : Bytes} (h : IsPayToPubKeyHash script hash)
    (hhash : leBytes 20 (env.hash160 key).toNat = hash)
    (hsig : env.checkSig vchSig key (findAndDelete (pushData [] vchSig) script) = true) :
    Leads (env.evalLoop script) (fun _ s' => s'.vfExec = [] ∧ s'.stack = [vchTrue])
      (fun _ _ => False) (startState [key, vchSig] script) := by
  obtain ⟨pc1, pc2, pc3, pc4, hdup, hop, hpushes, hequal, hcheck⟩ := h.ops
  have hsize := h.size
  refine env.leads_evalLoop_execute hdup (by decide) (by decide) rfl (by simp [startState]) ?_
  refine env.leads_dup (show _ = key :: [vchSig] from rfl) ⟨by simp [startState], ?_⟩
  refine env.leads_evalLoop_execute hop (by decide) (by decide) rfl (by simp [startState]) ?_
  refine env.leads_hash160 (show _ = key :: [key, vchSig] from rfl) ⟨by simp [startState], ?_⟩
  refine env.leads_evalLoop_pushes hpushes (by simp [hsize]) rfl (by simp [startState]) ?_
  refine env.leads_evalLoop_execute hequal (by decide) (by decide) rfl (by simp [startState]) ?_
  refine env.leads_equalverify (show _ = hash :: hash :: [key, vchSig] by simp [hhash])
    ⟨by simp [startState], ?_⟩
  refine env.leads_evalLoop_execute hcheck (by decide) (by decide) rfl (by simp [startState]) ?_
  refine env.leads_checkSig (show _ = key :: vchSig :: [] from rfl) hsig ⟨by simp [startState], ?_⟩
  exact env.leads_evalLoop_nil ⟨rfl, rfl⟩

/-- A script that pays to a script hash, after the script with the hash. -/
lemma leads_payToScriptHash (h : script.isPayToScriptHash = true)
    (hhash : leBytes 20 (env.hash160 vch).toNat = (script.drop 2).take 20)
    (hrest : rest.length ≤ 900) :
    Leads (env.evalLoop script) (fun _ s' => s'.vfExec = [] ∧ s'.stack = vchTrue :: rest)
      (fun _ _ => False) (startState (vch :: rest) script) := by
  obtain ⟨-, hsize, pc1, pc2, hop, hpushes, hequal⟩ := ops_of_isPayToScriptHash h
  refine env.leads_evalLoop_execute hop (by decide) (by decide) rfl (by simp [startState]) ?_
  refine env.leads_hash160 (show _ = vch :: rest from rfl)
    ⟨by simp only [startState, List.length_cons, List.length_nil]; omega, ?_⟩
  refine env.leads_evalLoop_pushes hpushes (by simp) rfl
    (by simp only [startState, List.length_cons, List.length_nil]; omega) ?_
  refine env.leads_evalLoop_execute hequal (by decide) (by decide) rfl (by simp [startState]) ?_
  refine env.leads_equal
    (show _ = (script.drop 2).take 20 :: (script.drop 2).take 20 :: rest by simp [hhash])
    ⟨by simp only [startState, List.length_cons, List.length_nil]; omega, ?_⟩
  exact env.leads_evalLoop_nil ⟨rfl, rfl⟩

/-- The bytes of a small number are few. -/
lemma length_getvch_le {n : ℕ} (h : n ≤ 16) : ¬ (getvch n).length > nMaxNumSize := by
  have hall : ∀ n : Fin 17, ¬ (getvch (n.1 : ℤ)).length > nMaxNumSize := by decide
  exact hall ⟨n, by omega⟩

lemma dropAll_eq {vchSigs : List Bytes}
    (hdrop : ∀ vchSig ∈ vchSigs, findAndDelete (pushData [] vchSig) script = script) :
    dropAll script vchSigs = script := by
  induction vchSigs with
  | nil => rfl
  | cons vchSig vchSigs ih =>
    rw [dropAll, List.foldl_cons, hdrop vchSig (List.mem_cons_self ..)]
    exact ih fun vchSig' hmem => hdrop vchSig' (List.mem_cons_of_mem _ hmem)

variable {vchSigs keys : List Bytes}

/-- Signatures fit keys in their order if and only if they do from the top of the stack, where both
are in reverse. -/
lemma assigns_reverse {fits : Bytes → Bytes → Bool} :
    assigns fits vchSigs.reverse keys.reverse = true ↔
      List.SublistForall₂ (fun vchSig key => fits vchSig key = true) vchSigs keys := by
  have hreverse : ∀ {as bs : List Bytes},
      List.SublistForall₂ (fun vchSig key => fits vchSig key = true) as bs →
        List.SublistForall₂ (fun vchSig key => fits vchSig key = true) as.reverse bs.reverse := by
    intro as bs h
    rw [List.sublistForall₂_iff] at h ⊢
    obtain ⟨l, hl, hsub⟩ := h
    exact ⟨l.reverse, List.forall₂_reverse_iff.mpr hl, hsub.reverse⟩
  rw [assigns_iff_sublistForall₂]
  constructor
  · intro h
    have hback := hreverse h
    rwa [List.reverse_reverse, List.reverse_reverse] at hback
  · exact hreverse

lemma leads_checkMultiSig
    (hstack : s.stack = getvch keys.length ::
      (keys.reverse ++ getvch vchSigs.length :: (vchSigs.reverse ++ [[]])))
    (hkeys : keys.length ≤ 16) (hle : vchSigs.length ≤ keys.length) (hcount : s.nOpCount ≤ 100)
    (hQ : ∀ nOpCount nChecks, Q () { s with
      stack := [if assigns (env.checkSig · · (dropAll s.pbegincodehash vchSigs.reverse))
        vchSigs.reverse keys.reverse then vchTrue else vchFalse], nOpCount, nChecks }) :
    Leads (env.execute OP_CHECKMULTISIG true pc) Q E s := by
  have hmulti : MultiSigStack s keys.reverse vchSigs.reverse [] := by
    refine ⟨getvch keys.length, getvch vchSigs.length, [], hstack, length_getvch_le hkeys, ?_,
      length_getvch_le (hle.trans hkeys), ?_, ?_, ?_, ?_⟩
    · rw [List.length_reverse]
      exact getint_setvch_getvch hkeys
    · rw [List.length_reverse]
      exact getint_setvch_getvch (hle.trans hkeys)
    · rw [List.length_reverse]
      omega
    · rw [List.length_reverse]
      omega
    · rw [List.length_reverse, List.length_reverse]
      exact hle
  rw [execute_checkMultiSig_eq]
  refine env.leads_opCheckMultiSig hmulti fun n _ => ?_
  simp only [pushBool, leads_bind, leads_push, verifyIf, Bool.false_eq_true, if_false, leads_pure]
  exact hQ _ _

/-- A script that pays to some of several public keys, after an element that is not used and as many
signatures as it needs. -/
lemma leads_payToMultiSig {nRequired : ℕ}
    (h : IsPayToMultiSig script nRequired keys) (hlength : vchSigs.length = nRequired) :
    Leads (env.evalLoop script)
      (fun _ s' => s'.vfExec = [] ∧
        s'.stack = [if assigns (env.checkSig · · (dropAll script vchSigs.reverse)) vchSigs.reverse
          keys.reverse then vchTrue else vchFalse])
      (fun _ _ => False) (startState ([] :: vchSigs).reverse script) := by
  obtain ⟨opcodeM, opcodeN, pc1, pc2, pc3, hopM, hM, hnM, hpushes, hopN, hN, hnN, hopC⟩ := h.ops
  have hkeys := h.keys_le
  have hle := h.required_le
  refine env.leads_evalLoop_number hopM hM.1 hM.2 rfl rfl
    (by simp only [startState, List.length_reverse, List.length_cons, List.length_nil]; omega) ?_
  refine env.leads_evalLoop_pushes hpushes h.pushable rfl
    (by simp only [startState, List.length_reverse, List.length_cons, List.length_nil]; omega) ?_
  refine env.leads_evalLoop_number hopN hN.1 hN.2 rfl rfl
    (by simp only [startState, List.length_reverse, List.length_cons, List.length_append,
      List.length_nil]; omega) ?_
  refine env.leads_evalLoop_execute hopC (by decide) (by decide) rfl (by simp [startState]) ?_
  refine env.leads_checkMultiSig ?_ hkeys (by omega) (by simp [startState])
    fun nOpCount nChecks => ⟨?_, env.leads_evalLoop_nil ⟨rfl, rfl⟩⟩
  · rw [hnM, hnN, hlength]
    simp [startState]
  · simp [startState]

/-- Signatures of the first of the keys are accepted. -/
lemma leads_payToMultiSig_of_sigs {nRequired : ℕ} (h : IsPayToMultiSig script nRequired keys)
    (hdrop : ∀ vchSig ∈ vchSigs, findAndDelete (pushData [] vchSig) script = script)
    (hsigs : List.Forall₂ (fun vchSig key => env.checkSig vchSig key script = true) vchSigs
      (keys.take nRequired)) :
    Leads (env.evalLoop script) (fun _ s' => s'.vfExec = [] ∧ s'.stack = [vchTrue])
      (fun _ _ => False) (startState ([] :: vchSigs).reverse script) := by
  have hlength : vchSigs.length = nRequired := by
    rw [hsigs.length_eq, List.length_take, Nat.min_eq_left h.required_le]
  have hassigns : assigns (env.checkSig · · (dropAll script vchSigs.reverse)) vchSigs.reverse
      keys.reverse = true := by
    rw [dropAll_eq fun vchSig hmem => hdrop vchSig (List.mem_reverse.mp hmem), assigns_reverse,
      List.sublistForall₂_iff]
    exact ⟨_, hsigs, List.take_sublist _ _⟩
  have hleads := env.leads_payToMultiSig h hlength
  rw [hassigns] at hleads
  exact hleads

end ScriptEnv

end HyperStake
