import HyperStake.Script.Signing

/-!
# Reading back what is pushed

`operator<<` puts byte vectors and integers on a script and `GetOp` takes one operation after
another from it.  `GetOp` counts the bytes that are left with 32 bits, so what is read back is a
script in which each operand and what follows it have less than `2 ^ 32` bytes.  `EvalScript` leaves
the vectors of such a script on the stack when script and stack are within its limits.
-/

namespace HyperStake

open LittleEndian Stopping CScript

namespace CScript

/-! ## The operands -/

/-- An operand of `operator<<`. -/
inductive PushItem where
  | data (b : Bytes)
  | int64 (n : Int64)

namespace PushItem

/-- `operator<<`. -/
def push (s : CScript) : PushItem → CScript
  | data b => pushData s b
  | int64 n => pushInt64 s n

/-- The bytes of an operand. -/
def value : PushItem → Bytes
  | data b => b
  | int64 n => getvch n.toInt

end PushItem

/-- The script that some operands are pushed on. -/
def pushItems (items : List PushItem) : CScript := items.foldl PushItem.push []

/-- The operations that `GetOp` reads one after another, and what is left of the script where it
returns false. -/
def getOps (pc : CScript) : List (UInt8 × Bytes) × CScript :=
  match _h : getOp2 pc with
  | none => ([], pc)
  | some (opcode, vch, pc') => ((opcode, vch) :: (getOps pc').1, (getOps pc').2)
termination_by pc.length
decreasing_by all_goals exact length_lt_of_getOp2 _h

/-- The bytes that an operation pushes: its data, or those of the number that its opcode stands
for. -/
def opValue (op : UInt8 × Bytes) : Bytes :=
  if op.1 ≤ OP_PUSHDATA4 then op.2 else getvch ((op.1.toNat : ℤ) - ((OP_1.toNat : ℤ) - 1))

/-- Each operand and what follows it are counted with 32 bits. -/
def Fits : List PushItem → Prop
  | [] => True
  | item :: items => item.value.length + (pushItems items).length < 2 ^ 32 ∧ Fits items

/-! ## The bytes of a number -/

/-- A number is below the bit of its sign. -/
lemma natAbs_lt_sign (n : ℤ) : n.natAbs < 2 ^ (8 * ((n.natAbs.log2 + 1) / 8 + 1) - 1) :=
  Nat.lt_log2_self.trans_le (Nat.pow_le_pow_right (by decide) (by omega))

/-- A number is that of its bytes. -/
lemma setvch_getvch (n : ℤ) : setvch (getvch n) = n := by
  by_cases hzero : n = 0
  · rw [hzero]
    rfl
  have hlt := natAbs_lt_sign n
  unfold getvch
  simp only [if_neg hzero]
  set nSize := (n.natAbs.log2 + 1) / 8 + 1 with hnSize
  have hpow : 2 ^ (8 * nSize - 1) + 2 ^ (8 * nSize - 1) = 256 ^ nSize := by
    have hsucc : 8 * nSize - 1 + 1 = 8 * nSize := by omega
    rw [← Nat.two_mul, ← pow_succ', hsucc, pow_mul]
    norm_num
  have hcast : (2 : ℤ) ^ (8 * nSize - 1) = (2 ^ (8 * nSize - 1) : ℕ) := by push_cast; rfl
  rw [setvch, leBytes_length, hcast]
  by_cases hneg : n < 0
  · rw [if_pos hneg, leValue_leBytes_of_lt (by omega), if_neg (by omega)]
    omega
  · rw [if_neg hneg, leValue_leBytes_of_lt (by omega), if_pos hlt]
    omega

/-! ## One operation -/

variable {b rest : Bytes} {n : Int64} {item : PushItem} {items : List PushItem} {pc pc' : CScript}
  {opcode : UInt8} {vch : Bytes}

/-- What is pushed onto a script follows it. -/
lemma PushItem.push_eq (s : CScript) (item : PushItem) : item.push s = s ++ item.push [] := by
  cases item with
  | data b => exact pushData_eq s b
  | int64 n =>
    simp only [PushItem.push, pushInt64]
    split_ifs
    · rfl
    · exact pushData_eq s _

lemma foldl_push (s : CScript) (items : List PushItem) :
    items.foldl PushItem.push s = s ++ pushItems items := by
  induction items generalizing s with
  | nil => exact (List.append_nil s).symm
  | cons item items ih =>
    rw [pushItems, List.foldl_cons, List.foldl_cons, ih, ih, PushItem.push_eq, List.append_assoc]

lemma pushItems_cons (item : PushItem) (items : List PushItem) :
    pushItems (item :: items) = item.push [] ++ pushItems items := by
  rw [pushItems, List.foldl_cons, foldl_push]

/-- The opcode of a small number. -/
lemma getOp2_small (hsmall : n = -1 ∨ 1 ≤ n ∧ n ≤ 16) :
    ∃ opcode, getOp2 (pushInt64 [] n ++ rest) = some (opcode, [], rest) ∧
      opValue (opcode, []) = getvch n.toInt := by
  have hbits : (n.toBitVec.toNat : ℤ) = n.toInt ∨ (n.toBitVec.toNat : ℤ) = n.toInt + 2 ^ 64 := by
    have htoInt := n.toBitVec.toInt_eq_toNat_cond
    rw [Int64.toInt_toBitVec] at htoInt
    split_ifs at htoInt <;> omega
  have hrange : n.toInt = -1 ∨ 1 ≤ n.toInt ∧ n.toInt ≤ 16 := by
    rcases hsmall with rfl | ⟨hge, hle⟩
    · exact .inl rfl
    · exact .inr ⟨Int64.le_iff_toInt_le.mp hge, Int64.le_iff_toInt_le.mp hle⟩
  have hone : OP_1.toNat = 81 := rfl
  have hop : ((n.toBitVec.toNat.toUInt8 + 0x50).toNat : ℤ) = n.toInt + 80 := by
    have hadd : (0x50 : UInt8).toNat = 80 := rfl
    rw [UInt8.toNat_add, Nat.toUInt8_eq, UInt8.toNat_ofNat', hadd]
    omega
  have hdata : ¬ n.toBitVec.toNat.toUInt8 + 0x50 < OP_PUSHDATA1 := by
    rw [UInt8.lt_iff_toNat_lt]
    exact not_lt.mpr (show 76 ≤ _ by omega)
  have hpush : ¬ n.toBitVec.toNat.toUInt8 + 0x50 ≤ OP_PUSHDATA4 := by
    rw [UInt8.le_iff_toNat_le]
    exact not_le.mpr (show 78 < _ by omega)
  refine ⟨n.toBitVec.toNat.toUInt8 + 0x50, ?_, ?_⟩
  · rw [pushInt64, if_pos hsmall, List.nil_append, List.singleton_append, getOp2]
    simp only [if_neg hdata, if_neg hpush]
  · rw [opValue, if_neg hpush, hop, hone]
    exact congrArg getvch (by omega)

/-- `GetOp` reads an operand that is followed by few enough bytes. -/
lemma PushItem.getOp2_push (h : item.value.length + rest.length < 2 ^ 32) :
    ∃ opcode vch, getOp2 (item.push [] ++ rest) = some (opcode, vch, rest) ∧
      opValue (opcode, vch) = item.value := by
  have hdata : ∀ b : Bytes, b.length + rest.length < 2 ^ 32 →
      ∃ opcode vch, getOp2 (pushData [] b ++ rest) = some (opcode, vch, rest) ∧
        opValue (opcode, vch) = b := by
    intro b hb
    obtain ⟨opcode, hle, hop⟩ := getOp2_pushData hb
    exact ⟨opcode, b, hop, if_pos hle⟩
  cases item with
  | data b => exact hdata b h
  | int64 n =>
    by_cases hsmall : n = -1 ∨ 1 ≤ n ∧ n ≤ 16
    · obtain ⟨opcode, hop, hvalue⟩ := getOp2_small hsmall
      exact ⟨opcode, [], hop, hvalue⟩
    · rw [PushItem.push, pushInt64, if_neg hsmall]
      exact hdata _ h

/-! ## All operations -/

lemma getOps_of_getOp2 (h : getOp2 pc = some (opcode, vch, pc')) :
    getOps pc = ((opcode, vch) :: (getOps pc').1, (getOps pc').2) := by
  rw [getOps]
  split
  · next hnone =>
    rw [h] at hnone
    cases hnone
  · next hsome =>
    rw [h] at hsome
    cases hsome
    rfl

lemma getOps_of_none (h : getOp2 pc = none) : getOps pc = ([], pc) := by
  rw [getOps]
  split
  · rfl
  · next hsome =>
    rw [h] at hsome
    cases hsome

/-- The operands are read back in their order, up to the end of the script. -/
lemma getOps_pushItems (h : Fits items) :
    (getOps (pushItems items)).1.map opValue = items.map PushItem.value ∧
      (getOps (pushItems items)).2 = [] := by
  induction items with
  | nil =>
    rw [getOps_of_none (show getOp2 (pushItems []) = none from rfl)]
    exact ⟨rfl, rfl⟩
  | cons item items ih =>
    obtain ⟨hfits, hitems⟩ := h
    obtain ⟨opcode, vch, hop, hvalue⟩ := PushItem.getOp2_push hfits
    obtain ⟨hvalues, hend⟩ := ih hitems
    rw [pushItems_cons, getOps_of_getOp2 hop]
    refine ⟨?_, hend⟩
    rw [List.map_cons, List.map_cons, hvalues, hvalue]

end CScript

/-! ## The stack -/

section

variable (env : ScriptEnv) {values : List Bytes}

/-- `EvalScript` leaves the vectors that are pushed when it takes the script and the stack. -/
lemma evalScript_pushAll_iff (hsize : ∀ vch ∈ values, vch.length ≤ 520) :
    ((env.evalScript [] (pushAll values)).1 = .ok true ∧
      (env.evalScript [] (pushAll values)).2.stack = values.reverse) ↔
      (pushAll values).length ≤ 10000 ∧ values.length ≤ 1000 := by
  constructor
  · rintro ⟨htrue, hstack⟩
    have hlimited := env.limited_evalScript (by decide) (by simp) htrue
    have hlength : (env.evalScript [] (pushAll values)).2.stack.length ≤ 1000 :=
      (Nat.le_add_right _ _).trans hlimited.2
    rw [hstack, List.length_reverse] at hlength
    refine ⟨?_, hlength⟩
    by_contra hlong
    rw [ScriptEnv.evalScript, if_pos (not_le.mp hlong)] at htrue
    cases htrue
  · rintro ⟨hshort, hcount⟩
    exact evalScript_pushAll env hshort hcount hsize

end

/-- What is pushed is read back: `GetOp` yields the operands in their order and then ends, the bytes
of an integer are those of that integer, and `EvalScript` leaves vectors of at most 520 bytes on the
stack exactly when their script has at most 10000 bytes and they are at most 1000. -/
theorem pushItems_roundTrip {items : List PushItem} (hfits : Fits items) (env : ScriptEnv)
    {values : List Bytes} (hsize : ∀ vch ∈ values, vch.length ≤ 520) :
    ((getOps (pushItems items)).1.map opValue = items.map PushItem.value ∧
        (getOps (pushItems items)).2 = []) ∧
      (∀ n : Int64, setvch (PushItem.int64 n).value = n.toInt) ∧
      (((env.evalScript [] (pushAll values)).1 = .ok true ∧
        (env.evalScript [] (pushAll values)).2.stack = values.reverse) ↔
        (pushAll values).length ≤ 10000 ∧ values.length ≤ 1000) :=
  ⟨getOps_pushItems hfits, fun n => setvch_getvch n.toInt, evalScript_pushAll_iff env hsize⟩

/-- A vector whose length takes a byte of its own, a number with an opcode and one without. -/
theorem pushItems_roundTrip_sample :
    ((getOps (pushItems [.data (List.replicate 76 7), .int64 (-1), .int64 (-1000)])).1.map opValue =
        [List.replicate 76 7, [0x81], [0xe8, 0x83]] ∧
      (getOps (pushItems [.data (List.replicate 76 7), .int64 (-1), .int64 (-1000)])).2 = []) ∧
    ((Crypto.sample.scriptEnv Crypto.sampleTx 0 0).evalScript [] (pushAll [[1], []])).1 =
      .ok true := by
  have hfits : Fits [.data (List.replicate 76 7), .int64 (-1), .int64 (-1000)] :=
    ⟨by decide, by decide, by decide, trivial⟩
  have hsize : ∀ vch ∈ ([[1], []] : List Bytes), vch.length ≤ 520 := by simp
  obtain ⟨hops, -, hstack⟩ :=
    pushItems_roundTrip hfits (Crypto.sample.scriptEnv Crypto.sampleTx 0 0) hsize
  exact ⟨hops, (hstack.mpr ⟨by decide, by decide⟩).1⟩

/-- A byte is not read when the bytes that are left are so many that they are counted as none. -/
lemma getOp2_of_wrap {b : Bytes} (h : b.length = 2 ^ 32 - 6) :
    getOp2 (pushItems [.data [0], .data b]) = none := by
  have hdirect : ¬ b.length < OP_PUSHDATA1.toNat := by
    rw [h]
    decide
  have hscript : pushItems [.data [0], .data b] =
      1 :: 0 :: ([OP_PUSHDATA4] ++ leBytes 4 b.length ++ b) := by
    rw [pushItems_cons, pushItems_cons]
    simp only [PushItem.push, pushItems, List.foldl_nil, List.append_nil]
    rw [pushData_of_lt (b := [0]) (by decide), pushData, if_neg hdirect, if_neg (by omega),
      if_neg (by omega)]
    rfl
  have hleft : (0 :: ([OP_PUSHDATA4] ++ leBytes 4 b.length ++ b)).length % 2 ^ 32 <
      (1 : UInt8).toNat := by
    simp only [List.length_cons, List.length_append, List.length_nil, leBytes_length, h]
    decide
  rw [hscript, getOp2]
  simp only [if_pos (show (1 : UInt8) < OP_PUSHDATA1 by decide), if_pos hleft]

/-- A byte before so many that the bytes that are left are counted as none is not read, and vectors
whose script has more than 10000 bytes are not left on the stack. -/
theorem not_pushItems_roundTrip :
    (¬ ∀ items : List PushItem, (∀ item ∈ items, item.value.length < 2 ^ 32) →
      (getOps (pushItems items)).1.map opValue = items.map PushItem.value) ∧
    ¬ ∀ (env : ScriptEnv) (values : List Bytes), (∀ vch ∈ values, vch.length ≤ 520) →
      (env.evalScript [] (pushAll values)).2.stack = values.reverse := by
  constructor
  · intro h
    obtain ⟨b, hb⟩ : ∃ b : Bytes, b.length = 2 ^ 32 - 6 :=
      ⟨List.replicate (2 ^ 32 - 6) 0, List.length_replicate⟩
    have hshort : ∀ item ∈ [PushItem.data [0], .data b], item.value.length < 2 ^ 32 := by
      intro item hitem
      rcases List.mem_pair.mp hitem with rfl | rfl
      · exact (by decide : 1 < 2 ^ 32)
      · exact hb.trans_lt (by decide)
    have hread := h _ hshort
    rw [getOps_of_none (getOp2_of_wrap hb)] at hread
    cases hread
  · intro h
    obtain ⟨vch, hvch⟩ : ∃ vch : Bytes, vch.length = 520 :=
      ⟨List.replicate 520 0, List.length_replicate⟩
    have hsize : ∀ vch' ∈ List.replicate 20 vch, vch'.length ≤ 520 := by
      intro vch' hvch'
      rw [List.eq_of_mem_replicate hvch', hvch]
    have hstack := h (Crypto.sample.scriptEnv Crypto.sampleTx 0 0) _ hsize
    have hpush := le_length_pushData vch
    have hlong : (pushAll (List.replicate 20 vch)).length > 10000 := by
      rw [pushAll, List.map_replicate, List.length_flatten, List.map_replicate,
        List.sum_replicate_nat]
      omega
    rw [ScriptEnv.evalScript, if_pos hlong] at hstack
    dsimp only [ScriptEnv.startState] at hstack
    exact absurd (List.reverse_eq_nil_iff.mp hstack.symm) (List.cons_ne_nil _ _)

end HyperStake
