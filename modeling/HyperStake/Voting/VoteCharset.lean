import HyperStake.Text.BaseCode

/-!
# The six-bit character set of votes

`ConvertTo6bit` puts the position of each character of a text on top of a number of 160 bits, and
at last the length of the text as the highest byte.  `ConvertTo8bit` is written to take them off
again, but it shifts each byte it reads by two bits too many, and it does not shift a masked position
down before it takes its low bits.  So whatever it is given it gives a run of the first character of
the table (`convertTo8bit_concat`), and only the empty text comes back (`roundTrips_iff_eq_nil`).
-/

namespace HyperStake.VoteCharset

open BaseCode LittleEndian WalletTx

/-- The characters by their codes.  There is no `c` among them. -/
def strCharCodes : Bytes := text "0123456789abdefghijklmnopqrstuvwxyz ,.?!"

/-- The bytes of a `uint160`. -/
def toByteVector (v : BitVec 160) : Bytes := leBytes 20 v.toNat

/-- `uint160::Get64`. -/
def get64 (n : BitVec 160) : ℕ := n.toNat % 2 ^ 64

/-- The loop of `ConvertTo6bit`, until a character is not found. -/
def convertTo6bitLoop : Bytes → BitVec 160 → Option (BitVec 160)
  | [], v => some v
  | c :: s, v =>
    match strCharCodes.findIdx? (· == c) with
    | some pos => convertTo6bitLoop s ((v >>> 6) ||| (BitVec.ofNat 160 pos <<< 154))
    | none => none

/-- `ConvertTo6bit`, with `vchRet` when it returns true. -/
def convertTo6bit (strFromUser : Bytes) : Option Bytes :=
  (convertTo6bitLoop (strFromUser.map toLower) 0).map fun (v : BitVec 160) =>
    let nSize := BitVec.ofNat 160 strFromUser.length <<< 152
    toByteVector ((v >>> 8) ||| nSize)

/-- The first loop of `ConvertTo8bit`. -/
def gather (vch : Bytes) : BitVec 160 :=
  vch.foldl (fun n b => (n >>> 8) ||| (BitVec.ofNat 160 b.toNat <<< 154)) 0

/-- The second loop of `ConvertTo8bit` from here on, for some number of turns.  It stops with `none`
when `at` is asked for a place behind the table. -/
def convertTo8bitLoop : ℕ → BitVec 160 → Bytes → Option Bytes
  | 0, _, strRet => some strRet
  | turns + 1, n, strRet =>
    let mask := (0x3f : BitVec 160) <<< 154
    let j := n &&& mask
    match strCharCodes[get64 j]? with
    | some c => convertTo8bitLoop turns (n >>> 6) (strRet ++ [c])
    | none => none

/-- `ConvertTo8bit`, with `strRet` before and after. -/
def convertTo8bit (vch strRet : Bytes) : Option Bytes :=
  let n := gather vch
  let nSize := n >>> 152
  convertTo8bitLoop nSize.toNat n strRet

/-- A text of at most 25 letters, digits, spaces and the characters `,.?!`. -/
def IsVoteText (s : Bytes) : Prop :=
  s.length ≤ 25 ∧ ∀ c ∈ s, toLower c ∈ text "0123456789abcdefghijklmnopqrstuvwxyz ,.?!"

/-- The packed text is read back in lower case. -/
def RoundTrips (s : Bytes) : Prop :=
  ∃ vch, convertTo6bit s = some vch ∧ convertTo8bit vch [] = some (s.map toLower)

lemma strCharCodes_eq : strCharCodes = [48, 49, 50, 51, 52, 53, 54, 55, 56, 57, 97, 98, 100, 101,
    102, 103, 104, 105, 106, 107, 108, 109, 110, 111, 112, 113, 114, 115, 116, 117, 118, 119, 120,
    121, 122, 32, 44, 46, 63, 33] := by
  simp [strCharCodes, text]

/-! ## Packing -/

/-- A text is packed unless one of its characters is not in the table. -/
lemma isSome_convertTo6bitLoop (s : Bytes) (v : BitVec 160) :
    (convertTo6bitLoop s v).isSome ↔ ∀ c ∈ s, c ∈ strCharCodes := by
  induction s generalizing v with
  | nil => simp [convertTo6bitLoop]
  | cons c s ih =>
    rw [convertTo6bitLoop, List.forall_mem_cons]
    cases hpos : strCharCodes.findIdx? (· == c) with
    | none =>
      have hc : c ∉ strCharCodes := fun hmem => by
        simpa using List.findIdx?_eq_none_iff.mp hpos c hmem
      simp [hc]
    | some pos =>
      have hc : c ∈ strCharCodes := by
        obtain ⟨hlt, hget, -⟩ := List.findIdx?_eq_some_iff_getElem.mp hpos
        rw [← eq_of_beq hget]
        exact List.getElem_mem hlt
      rw [and_iff_right hc]
      exact ih _

lemma isSome_convertTo6bit (s : Bytes) :
    (convertTo6bit s).isSome ↔ ∀ c ∈ s, toLower c ∈ strCharCodes := by
  rw [convertTo6bit, Option.isSome_map, isSome_convertTo6bitLoop, List.forall_mem_map]

/-- The highest byte is the length, on eight bits. -/
lemma exists_of_convertTo6bit {s vch : Bytes} (h : convertTo6bit s = some vch) :
    ∃ low, vch = low ++ [UInt8.ofNat s.length] := by
  obtain ⟨v, -, rfl⟩ := Option.map_eq_some_iff.mp h
  refine ⟨_, (leBytes_succ 19 _).trans (congrArg _ (congrArg (fun b => [b]) ?_))⟩
  have htop : ((v >>> 8) ||| (BitVec.ofNat 160 s.length <<< 152)).toNat / 256 ^ 19
      = s.length % 256 := by
    have hshift : ((v >>> 8) ||| (BitVec.ofNat 160 s.length <<< 152)) >>> 152
        = BitVec.ofNat 160 s.length <<< 152 >>> 152 := by
      rw [BitVec.ushiftRight_or_distrib, ← BitVec.shiftRight_add, BitVec.ushiftRight_eq_zero le_rfl,
        BitVec.zero_or]
    have hnat := congrArg BitVec.toNat hshift
    rw [BitVec.toNat_ushiftRight, Nat.shiftRight_eq_div_pow, BitVec.toNat_ushiftRight,
      BitVec.toNat_shiftLeft, BitVec.toNat_ofNat, Nat.shiftRight_eq_div_pow,
      Nat.shiftLeft_eq] at hnat
    rw [show (256 : ℕ) ^ 19 = 2 ^ 152 by norm_num, hnat]
    omega
  rw [← UInt8.toNat_inj, UInt8.toNat_ofNat', UInt8.toNat_ofNat']
  rw [htop, Nat.mod_mod]

/-! ## Unpacking -/

/-- Nothing is left of a position that was not shifted down. -/
lemma get64_and_mask (n : BitVec 160) : get64 (n &&& (0x3f : BitVec 160) <<< 154) = 0 := by
  rw [get64, BitVec.toNat_and, Nat.and_mod_two_pow]
  exact Nat.and_zero _

lemma convertTo8bitLoop_eq (turns : ℕ) (n : BitVec 160) (strRet : Bytes) :
    convertTo8bitLoop turns n strRet = some (strRet ++ List.replicate turns 48) := by
  induction turns generalizing n strRet with
  | zero => rw [convertTo8bitLoop, List.replicate_zero, List.append_nil]
  | succ turns ih =>
    have hchar : strCharCodes[get64 (n &&& (0x3f : BitVec 160) <<< 154)]? = some 48 := by
      rw [get64_and_mask, strCharCodes_eq]
      rfl
    rw [convertTo8bitLoop, hchar]
    refine (ih _ _).trans ?_
    rw [List.append_assoc, List.singleton_append, List.replicate_succ]

/-- The number of turns is taken from the last byte, two bits too high. -/
lemma size_gather (vch : Bytes) (b : UInt8) :
    (gather (vch ++ [b]) >>> 152).toNat = 4 * (b.toNat % 64) := by
  have hshift : gather (vch ++ [b]) >>> 152 = BitVec.ofNat 160 b.toNat <<< 154 >>> 152 := by
    rw [gather, List.foldl_concat, BitVec.ushiftRight_or_distrib, ← BitVec.shiftRight_add,
      BitVec.ushiftRight_eq_zero le_rfl, BitVec.zero_or]
  rw [hshift, BitVec.toNat_ushiftRight, BitVec.toNat_shiftLeft, BitVec.toNat_ofNat,
    Nat.shiftRight_eq_div_pow, Nat.shiftLeft_eq]
  omega

/-- No access is out of range, and the text read is a run of the first character. -/
lemma convertTo8bit_concat (vch strRet : Bytes) (b : UInt8) :
    convertTo8bit (vch ++ [b]) strRet
      = some (strRet ++ List.replicate (4 * (b.toNat % 64)) 48) := by
  rw [convertTo8bit, size_gather, convertTo8bitLoop_eq]

/-- What comes back of a packed text depends on its length alone. -/
lemma convertTo8bit_of_convertTo6bit {s vch : Bytes} (h : convertTo6bit s = some vch)
    (strRet : Bytes) : convertTo8bit vch strRet
      = some (strRet ++ List.replicate (4 * (s.length % 64)) 48) := by
  obtain ⟨low, rfl⟩ := exists_of_convertTo6bit h
  rw [convertTo8bit_concat, UInt8.toNat_ofNat', Nat.mod_mod_of_dvd _ (by decide : 64 ∣ 2 ^ 8)]

/-- A text is packed and read back only if it is empty. -/
theorem roundTrips_iff_eq_nil (s : Bytes) : RoundTrips s ↔ s = [] := by
  constructor
  · rintro ⟨vch, hpack, hunpack⟩
    rw [convertTo8bit_of_convertTo6bit hpack, Option.some_inj] at hunpack
    have hlength := congrArg List.length hunpack
    rw [List.nil_append, List.length_replicate, List.length_map] at hlength
    exact List.length_eq_zero_iff.mp (by omega)
  · rintro rfl
    have hpack : convertTo6bit [] = some (toByteVector 0) := rfl
    refine ⟨_, hpack, ?_⟩
    rw [convertTo8bit_of_convertTo6bit hpack]
    rfl

/-- `yes` is a text of the set that is packed, and twelve zeros are read back. -/
theorem not_roundTrips_yes : IsVoteText (text "yes") ∧ ¬ RoundTrips (text "yes") := by
  have hyes : text "yes" = [121, 101, 115] := by simp [text]
  rw [hyes]
  constructor
  · refine ⟨by decide, ?_⟩
    simp [text, toLower]
  · rintro ⟨vch, hpack, hunpack⟩
    rw [convertTo8bit_of_convertTo6bit hpack] at hunpack
    exact absurd hunpack (by decide)

end HyperStake.VoteCharset
