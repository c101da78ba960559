import HyperStake.Serialize

/-!
# Scripts

A script is a vector of bytes.  This module has the checked element access `vector::at`, the
encoding of a pushed byte vector or number by `operator<<`, the decoding of one operation by
`GetOp2`, and the test for a data carrier output.
-/

namespace HyperStake

open LittleEndian

/-- Serialised script, used inside transaction inputs and outputs. -/
abbrev CScript := Bytes

/-- The largest opcode that pushes a number of bytes equal to itself, plus one. -/
def OP_PUSHDATA1 : UInt8 := 0x4c

/-- The next two bytes are the length of the pushed data. -/
def OP_PUSHDATA2 : UInt8 := 0x4d

/-- The next four bytes are the length of the pushed data. -/
def OP_PUSHDATA4 : UInt8 := 0x4e

/-- The first byte of a data carrier script. -/
def OP_RETURN : UInt8 := 0x6a

namespace CScript

/-- `vector::at`: the byte at a position, or `std::out_of_range`. -/
def byteAt (s : CScript) (i : ℕ) : Except Fault UInt8 :=
  match s[i]? with
  | some b => .ok b
  | none => .error .outOfRange

/-- `IsDataCarrier`: the script starts with `OP_RETURN`. -/
def isDataCarrier (s : CScript) : Except Fault Bool := do
  if s.length > 0 then
    return (← byteAt s 0) == OP_RETURN
  else
    return false

/-- `operator<<` on an opcode. -/
def pushOpcode (s : CScript) (opcode : UInt8) : CScript := s ++ [opcode]

/-- `operator<<` on a byte vector: the shortest push that holds its length, then the bytes. -/
def pushData (s : CScript) (b : Bytes) : CScript :=
  if b.length < OP_PUSHDATA1.toNat then s ++ leBytes 1 b.length ++ b
  else if b.length ≤ 0xff then s ++ [OP_PUSHDATA1] ++ leBytes 1 b.length ++ b
  else if b.length ≤ 0xffff then s ++ [OP_PUSHDATA2] ++ leBytes 2 b.length ++ b
  else s ++ [OP_PUSHDATA4] ++ leBytes 4 b.length ++ b

/-- `CBigNum::getvch`: the bytes of a number, least significant first, with its sign in the highest
bit. -/
def getvch (n : ℤ) : Bytes :=
  let nSize := (n.natAbs.log2 + 1) / 8 + 1
  if n = 0 then []
  else leBytes nSize (if n < 0 then n.natAbs + 2 ^ (8 * nSize - 1) else n.natAbs)

/-- `push_int64`, which is `operator<<` on an integer. -/
def pushInt64 (s : CScript) (n : Int64) : CScript :=
  if n = -1 ∨ 1 ≤ n ∧ n ≤ 16 then s ++ [n.toBitVec.toNat.toUInt8 + 0x50]
  else pushData s (getvch n.toInt)

/-- `std::equal` of a script with the start of another one, which has to be as long. -/
def equalStart : CScript → CScript → Except Fault Bool
  | [], _ => .ok true
  | _ :: _, [] => .error .undefined
  | a :: expect, b :: s => if a = b then equalStart expect s else .ok false

/-- `GetOp2`: the first operation of a script, the data it pushes, and the rest of the script.  The
bytes that are left for the data are counted with 32 bits. -/
def getOp2 (s : CScript) : Option (UInt8 × Bytes × CScript) :=
  match s with
  | [] => none
  | opcode :: pc =>
    -- the number of bytes of the length field that follows the opcode
    let nLength := if opcode = OP_PUSHDATA1 then 1 else if opcode = OP_PUSHDATA2 then 2 else 4
    if opcode < OP_PUSHDATA1 then
      if pc.length % 2 ^ 32 < opcode.toNat then none
      else some (opcode, pc.take opcode.toNat, pc.drop opcode.toNat)
    else if opcode ≤ OP_PUSHDATA4 then
      if pc.length < nLength then none
      else
        let nSize := leValue (pc.take nLength)
        let pc' := pc.drop nLength
        if pc'.length % 2 ^ 32 < nSize then none
        else some (opcode, pc'.take nSize, pc'.drop nSize)
    else some (opcode, [], pc)

/-- A vector below the `OP_PUSHDATA1` limit is pushed by its length alone. -/
lemma pushData_of_lt {s : CScript} {b : Bytes} (h : b.length < 76) :
    pushData s b = s ++ UInt8.ofNat b.length :: b := by
  have hlt : b.length < OP_PUSHDATA1.toNat := h
  simp [pushData, hlt, leBytes]

/-- The push of a short vector is decoded to that vector. -/
lemma getOp2_push {b : Bytes} {rest : CScript} (h : b.length < 76)
    (hlength : b.length + rest.length < 2 ^ 32) :
    getOp2 (UInt8.ofNat b.length :: (b ++ rest)) = some (UInt8.ofNat b.length, b, rest) := by
  have hleft : ¬ (b.length + rest.length) % 2 ^ 32 < b.length := by omega
  have hnat : (UInt8.ofNat b.length).toNat = b.length := by
    rw [UInt8.toNat_ofNat']
    omega
  have hlt : UInt8.ofNat b.length < OP_PUSHDATA1 := by
    rw [UInt8.lt_iff_toNat_lt, hnat]
    exact h
  rw [← List.length_append] at hleft
  simp only [getOp2, if_pos hlt, hnat, if_neg hleft, List.take_left, List.drop_left]

/-- `IsDataCarrier` accesses nothing out of range. -/
lemma isDataCarrier_eq (s : CScript) : isDataCarrier s = .ok (decide (s[0]? = some OP_RETURN)) := by
  cases s with
  | nil => rfl
  | cons b s =>
    by_cases hb : b = OP_RETURN <;>
      simp [isDataCarrier, byteAt, hb, bind, Except.bind, pure, Except.pure]

/-! ## Pushed numbers -/

lemma equalStart_iff {expect s : CScript} : equalStart expect s = .ok true ↔ expect <+: s := by
  induction expect generalizing s with
  | nil => simp [equalStart]
  | cons a expect ih =>
    cases s with
    | nil => simp [equalStart]
    | cons b s =>
      rw [equalStart, List.cons_prefix_cons]
      by_cases hab : a = b
      · rw [if_pos hab, ih, and_iff_right hab]
      · rw [if_neg hab]
        simp [hab]

/-- The number that the first operation of a script pushes, if it is not negative. -/
def pushedNumber (s : CScript) : Option ℕ :=
  (getOp2 s).map fun op => if op.1 < OP_PUSHDATA1 then leValue op.2.1 else op.1.toNat - 0x50

/-- The bytes of a number that is not negative: they are few, and they are those of the number. -/
lemma getvch_spec {n : Int64} (hn : 0 ≤ n.toInt) :
    (getvch n.toInt).length < 76 ∧ leValue (getvch n.toInt) = n.toInt.toNat := by
  have hlt : n.toInt < 2 ^ 63 := n.toInt_lt
  unfold getvch
  by_cases hzero : n.toInt = 0
  · simp [hzero]
  · have hnat : n.toInt.natAbs ≠ 0 := Int.natAbs_ne_zero.mpr hzero
    have hlog : n.toInt.natAbs.log2 < 63 := (Nat.log2_lt hnat).mpr (by omega)
    have hfit : n.toInt.natAbs < 256 ^ ((n.toInt.natAbs.log2 + 1) / 8 + 1) := by
      have hself : n.toInt.natAbs < 2 ^ (n.toInt.natAbs.log2 + 1) := Nat.lt_log2_self
      have hpow : (256 : ℕ) ^ ((n.toInt.natAbs.log2 + 1) / 8 + 1)
          = 2 ^ (8 * ((n.toInt.natAbs.log2 + 1) / 8 + 1)) := by
        rw [pow_mul]
        norm_num
      rw [hpow]
      exact hself.trans_le (Nat.pow_le_pow_right (by decide) (by omega))
    simp only [if_neg hzero, if_neg (not_lt.mpr hn), leBytes_length, leValue_leBytes_of_lt hfit]
    omega

/-- A number that is not negative is read back from the start of a script. -/
lemma pushedNumber_pushInt64 {n : Int64} {rest : CScript} (hn : 0 ≤ n.toInt)
    (hrest : rest.length < 2 ^ 31) :
    pushedNumber (pushInt64 [] n ++ rest) = some n.toInt.toNat := by
  have hneg : n ≠ -1 := by
    rintro rfl
    exact absurd hn (by decide)
  unfold pushInt64
  by_cases hsmall : 1 ≤ n ∧ n ≤ 16
  · have hge : 1 ≤ n.toInt := Int64.le_iff_toInt_le.mp hsmall.1
    have hle : n.toInt ≤ 16 := Int64.le_iff_toInt_le.mp hsmall.2
    have hbits : n.toBitVec.toNat = n.toInt.toNat := by
      have htoInt := n.toBitVec.toInt_eq_toNat_cond
      rw [Int64.toInt_toBitVec] at htoInt
      have hltNat := n.toBitVec.isLt
      omega
    have hop : (n.toBitVec.toNat.toUInt8 + 0x50).toNat = n.toInt.toNat + 80 := by
      have hadd : (0x50 : UInt8).toNat = 80 := rfl
      rw [UInt8.toNat_add, Nat.toUInt8_eq, UInt8.toNat_ofNat', hbits, hadd]
      omega
    have hdata : ¬ n.toBitVec.toNat.toUInt8 + 0x50 < OP_PUSHDATA1 := by
      rw [UInt8.lt_iff_toNat_lt, hop]
      exact not_lt.mpr (show 76 ≤ _ by omega)
    have hpush : ¬ n.toBitVec.toNat.toUInt8 + 0x50 ≤ OP_PUSHDATA4 := by
      rw [UInt8.le_iff_toNat_le, hop]
      exact not_le.mpr (show 78 < _ by omega)
    rw [if_pos (Or.inr hsmall), pushedNumber, List.nil_append, List.singleton_append, getOp2]
    simp only [if_neg hdata, if_neg hpush, Option.map_some, hop, Nat.add_sub_cancel]
  · have hcond : ¬ (n = -1 ∨ 1 ≤ n ∧ n ≤ 16) := by simp [hneg, hsmall]
    obtain ⟨hlength, hvalue⟩ := getvch_spec hn
    rw [if_neg hcond, pushData_of_lt hlength, List.nil_append, List.cons_append, pushedNumber,
      getOp2_push hlength (by omega)]
    have hop : UInt8.ofNat (getvch n.toInt).length < OP_PUSHDATA1 := by
      rw [UInt8.lt_iff_toNat_lt, UInt8.toNat_ofNat', Nat.mod_eq_of_lt (by omega)]
      exact hlength
    simp [hop, hvalue]

/-- The push of a number that is not negative is short. -/
lemma length_pushInt64_le {n : Int64} (hn : 0 ≤ n.toInt) : (pushInt64 [] n).length ≤ 76 := by
  obtain ⟨hlength, -⟩ := getvch_spec hn
  unfold pushInt64
  split_ifs
  · exact (by decide : 1 ≤ 76)
  · rw [pushData_of_lt hlength, List.nil_append, List.length_cons]
    omega

/-- A push that another one starts with is the same. -/
lemma eq_of_pushInt64_start {m n : Int64} (hm : 0 ≤ m.toInt) (hn : 0 ≤ n.toInt)
    (hstart : pushInt64 [] m <+: pushInt64 [] n) : m = n := by
  obtain ⟨t, ht⟩ := hstart
  have hlength := length_pushInt64_le hn
  rw [← ht, List.length_append] at hlength
  have hread : pushedNumber (pushInt64 [] m ++ t) = _ := pushedNumber_pushInt64 hm (by omega)
  have hread' : pushedNumber (pushInt64 [] n ++ []) = _ := pushedNumber_pushInt64 hn (by decide)
  rw [List.append_nil] at hread'
  rw [ht, hread', Option.some.injEq] at hread
  exact Int64.toInt_inj.mp (by omega)

/-- Only one number that is not negative is pushed at the start of a script. -/
lemma pushInt64_inj {m n : Int64} {s : CScript} (hm : 0 ≤ m.toInt) (hn : 0 ≤ n.toInt)
    (hms : pushInt64 [] m <+: s) (hns : pushInt64 [] n <+: s) : m = n := by
  rcases List.prefix_or_prefix_of_prefix hms hns with h | h
  · exact eq_of_pushInt64_start hm hn h
  · exact (eq_of_pushInt64_start hn hm h).symm

end CScript

end HyperStake
