import HyperStake.Library.Numeral
import HyperStake.Script.Machine
import HyperStake.Wallet.WalletTxFormat

/-!
# Base58

`EncodeBase58` takes bytes as a number and writes it in radix 58, and writes every zero byte in
front as a `1`; `DecodeBase58` goes the other way and skips white space at both ends.  The checked
forms add four bytes of the hash.

What is encoded is decoded again, and an accepted string is the encoding of its bytes
(`base58_roundTrip`).
-/

namespace HyperStake.Base58

open LittleEndian Numeral WalletTx

/-! ## Encoding -/

def pszBase58 : Bytes := text "123456789ABCDEFGHJKLMNPQRSTUVWXYZabcdefghijkmnopqrstuvwxyz"

/-- `CBigNum::setvch` on a number that is zero.  `BN_mpi2bn` gets the size as an `int`, and leaves
the number alone if it is too small. -/
def setvchInt (vch : Bytes) : ℤ :=
  let n := Int.bmod (vch.length + 4) (2 ^ 32)
  if n < 4 then 0 else setvch (vch.drop (vch.length + 4 - n.toNat))

/-- The loop of `EncodeBase58` that converts a number. -/
def digitLoop (bn : ℕ) : Bytes :=
  if bn > 0 then pszBase58.getD (bn % 58) 0 :: digitLoop (bn / 58) else []
termination_by bn

def encodeBase58 (vch : Bytes) : Bytes :=
  -- extra zero at the end to make it a positive number
  let bn := setvchInt (vch.reverse ++ [0])
  let str := digitLoop bn.toNat
  (str ++ List.replicate (vch.takeWhile fun b => b = 0).length (pszBase58.getD 0 0)).reverse

/-! ## Decoding -/

/-- The loop of `DecodeBase58`, up to the end of the string: the number, unless it is left for
another character than white space in front of the end. -/
def decodeLoop : Bytes → ℕ → Option ℕ
  | [], bn => some bn
  | c :: p, bn =>
    match pszBase58.idxOf? c with
    | none => if (c :: p).dropWhile isSpace = [] then some bn else none
    | some i => decodeLoop p (bn * 58 + i)

/-- The bytes of a number without the one for its sign. -/
def trimSign (vchTmp : Bytes) : Bytes :=
  if vchTmp.length ≥ 2 ∧ vchTmp.getLast? = some 0 ∧
    vchTmp[vchTmp.length - 2]?.any (fun b => decide (b ≥ 0x80)) then vchTmp.dropLast
  else vchTmp

/-- `DecodeBase58` of a string that ends with a zero byte: the bytes, if it returns `true`. -/
def decodeBase58C (psz : Bytes) : Except Fault (Option Bytes) :=
  let psz := psz.dropWhile isSpace
  match decodeLoop psz 0 with
  | none => .ok none
  | some bn =>
    let vchTmp := trimSign (CScript.getvch bn)
    let nLeadingZeros := (psz.takeWhile fun c => c = pszBase58.getD 0 0).length
    -- an `int` counts the zeros
    if nLeadingZeros < 2 ^ 31 then .ok (some (List.replicate nLeadingZeros 0 ++ vchTmp.reverse))
    else .error .undefined

def decodeBase58 (str : Bytes) : Except Fault (Option Bytes) := decodeBase58C (cStr str)

/-! ## With a checksum -/

section Check

variable (Hash : Bytes → UInt256)

/-- The first four bytes of a hash. -/
def checksum (vch : Bytes) : Bytes := (leBytes 32 (Hash vch).toNat).take 4

def encodeBase58Check (vchIn : Bytes) : Bytes := encodeBase58 (vchIn ++ checksum Hash vchIn)

def decodeBase58Check (str : Bytes) : Except Fault (Option Bytes) :=
  (decodeBase58 str).map fun
    | none => none
    | some vchRet =>
      if vchRet.length < 4 then none
      else
        let vch := vchRet.take (vchRet.length - 4)
        if checksum Hash vch ≠ vchRet.drop (vchRet.length - 4) then none else some vch

end Check

/-- A string without white space at its ends. -/
def Trimmed (str : Bytes) : Prop :=
  (∀ c ∈ str.head?, isSpace c = false) ∧ ∀ c ∈ str.getLast?, isSpace c = false

variable {str vch : Bytes} {l : List ℕ} {n d : ℕ}

/-! ## Characters and digits -/

/-- The character of a digit. -/
def char (d : ℕ) : UInt8 := pszBase58.getD d 0

lemma char_spec : ∀ d < 58, pszBase58.idxOf? (char d) = some d ∧ isSpace (char d) = false ∧
    char d ≠ 0 ∧ (char d = char 0 ↔ d = 0) := by
  decide +kernel

lemma char_of_idxOf? {c : UInt8} (h : pszBase58.idxOf? c = some d) : d < 58 ∧ char d = c := by
  obtain ⟨hlt, hc, -⟩ := List.idxOf?_eq_some_iff.mp h
  refine ⟨hlt, ?_⟩
  rw [char, List.getD_eq_getElem?_getD, List.getElem?_eq_getElem hlt, hc, Option.getD_some]

/-! ## Encoding a number -/

lemma digitLoop_eq (n : ℕ) : digitLoop n = (Nat.digits 58 n).map char := by
  induction n using Nat.strong_induction_on with
  | _ n ih =>
    rw [digitLoop]
    split_ifs with hpos
    · have hlt : n / 58 < n := Nat.div_lt_self hpos (by decide)
      rw [Nat.digits_def' (by decide) hpos, List.map_cons, ih _ hlt, char]
    · rw [Nat.eq_zero_of_not_pos hpos, Nat.digits_zero, List.map_nil]

/-- The zero at the end makes a number positive. -/
lemma setvch_concat_zero (vch : Bytes) : setvch (vch ++ [0]) = leValue vch := by
  have hvalue : leValue (vch ++ [0]) = leValue vch := by
    rw [leValue, List.map_append, List.map_singleton]
    exact Nat.ofDigits_append_zero _
  have hlt := leValue_lt vch
  have hpow : 2 ^ (8 * (vch ++ [0]).length - 1) = 2 ^ 7 * 256 ^ vch.length := by
    have hlen : 8 * (vch ++ [0]).length - 1 = 7 + 8 * vch.length := by
      rw [List.length_append, List.length_singleton]
      omega
    rw [hlen, pow_add, pow_mul]
    norm_num
  rw [setvch, hvalue, hpow, if_pos (by omega)]

lemma setvchInt_eq (h : vch.length + 4 < 2 ^ 31) : setvchInt vch = setvch vch := by
  have hn : Int.bmod (vch.length + 4) (2 ^ 32) = vch.length + 4 := by
    apply Int.bmod_eq_of_le
    · omega
    · omega
  have hdrop : vch.length + 4 - ((vch.length : ℤ) + 4).toNat = 0 := by omega
  have hsmall : ¬ ((vch.length : ℤ) + 4 < 4) := by omega
  unfold setvchInt
  rw [hn]
  dsimp only
  rw [if_neg hsmall, hdrop, List.drop_zero]

/-- The encoding is the same number in radix 58. -/
lemma encodeBase58_eq (h : vch.length + 5 < 2 ^ 31) :
    encodeBase58 vch = (convert 256 58 (vch.map UInt8.toNat)).map char := by
  have hsize : (vch.reverse ++ [0]).length + 4 < 2 ^ 31 := by
    rw [List.length_append, List.length_reverse, List.length_singleton]
    omega
  have hzeros : (vch.takeWhile fun b => b = 0).length = zeros (vch.map UInt8.toNat) := by
    rw [zeros, List.takeWhile_map, List.length_map]
    refine congrArg (fun f => (List.takeWhile f vch).length) (funext fun b => ?_)
    rw [Function.comp_apply, decide_eq_decide, ← UInt8.toNat_inj]
    rfl
  rw [encodeBase58, setvchInt_eq hsize, setvch_concat_zero, Int.toNat_natCast, digitLoop_eq,
    hzeros, List.reverse_append, List.reverse_replicate, convert, numeral, List.map_append,
    List.map_replicate, List.map_reverse, number, leValue, List.map_reverse]
  rfl

/-! ## Decoding a number -/

/-- A byte for the sign is taken away. -/
lemma trimSign_concat_zero {b : UInt8} (vch : Bytes) (hb : 0x80 ≤ b) :
    trimSign (vch ++ [b] ++ [0]) = vch ++ [b] := by
  have hbefore : (vch ++ [b] ++ [0])[(vch ++ [b] ++ [0]).length - 2]? = some b := by
    rw [List.append_assoc, List.length_append]
    exact (List.getElem?_append_right le_rfl).trans (by rw [Nat.sub_self]; rfl)
  have hsign : (vch ++ [b] ++ [0]).length ≥ 2 ∧ (vch ++ [b] ++ [0]).getLast? = some 0 ∧
      (vch ++ [b] ++ [0])[(vch ++ [b] ++ [0]).length - 2]?.any (fun b => decide (b ≥ 0x80)) := by
    refine ⟨?_, List.getLast?_concat, ?_⟩
    · simp only [List.length_append, List.length_singleton]
      omega
    · rw [hbefore]
      exact decide_eq_true hb
  rw [trimSign, if_pos hsign, List.dropLast_concat]

/-- Without the byte for the sign the bytes of a number are its digits. -/
lemma trimSign_getvch (n : ℕ) :
    trimSign (CScript.getvch n) = (Nat.digits 256 n).map UInt8.ofNat := by
  rcases Nat.eq_zero_or_pos n with rfl | hpos
  · rfl
  have hle : 2 ^ n.log2 ≤ n := Nat.log2_self_le hpos.ne'
  have hlt : n < 2 ^ (n.log2 + 1) := Nat.lt_log2_self
  have hne : (n : ℤ) ≠ 0 := by omega
  simp only [CScript.getvch, Int.natAbs_natCast, if_neg hne,
    if_neg (not_lt.mpr (Int.natCast_nonneg n))]
  generalize hm : (n.log2 + 1) / 8 = m
  have hpow : 256 ^ m = 2 ^ (8 * m) := by
    rw [pow_mul]
    norm_num
  by_cases hsmall : n < 256 ^ m
  · -- the highest bit of the digits is set
    have hbits : n.log2 + 1 = 8 * m := by
      have := (Nat.pow_lt_pow_iff_right (by decide)).mp (hle.trans_lt (hpow ▸ hsmall))
      omega
    obtain ⟨k, rfl⟩ := Nat.exists_eq_succ_of_ne_zero (show m ≠ 0 by omega)
    have htop : 2 ^ 7 * 256 ^ k ≤ n := by
      have hexp : n.log2 = 7 + 8 * k := by omega
      rwa [hexp, pow_add, pow_mul] at hle
    have hdiv : n / 256 ^ (k + 1) = 0 := Nat.div_eq_of_lt hsmall
    have hquot : 128 ≤ n / 256 ^ k := (Nat.le_div_iff_mul_le (by positivity)).mpr htop
    have hquotLt : n / 256 ^ k < 256 := Nat.div_lt_of_lt_mul (by rwa [pow_succ] at hsmall)
    have hbyte : 0x80 ≤ UInt8.ofNat (n / 256 ^ k) := by
      rw [UInt8.le_iff_toNat_le, UInt8.toNat_ofNat_of_lt' hquotLt]
      exact hquot
    rw [Nat.succ_eq_add_one, leBytes_succ, hdiv, leBytes_succ]
    rw [show UInt8.ofNat 0 = 0 from rfl, trimSign_concat_zero _ hbyte, ← leBytes_succ]
    exact leBytes_eq_digits hsmall (le_trans (Nat.le_mul_of_pos_left _ (by decide)) htop)
  · have hbig := not_lt.mp hsmall
    have hltNext : n < 2 ^ 7 * 256 ^ m := by
      rw [hpow, ← pow_add]
      exact hlt.trans_le (Nat.pow_le_pow_right (by decide) (by omega))
    have hquot : 0 < n / 256 ^ m := Nat.div_pos hbig (by positivity)
    have hquotLt : n / 256 ^ m < 128 := Nat.div_lt_of_lt_mul (by rwa [mul_comm] at hltNext)
    have hbyte : UInt8.ofNat (n / 256 ^ m) ≠ 0 := fun hzero => by
      have htoNat := congrArg UInt8.toNat hzero
      rw [UInt8.toNat_ofNat_of_lt' (hquotLt.trans (by decide))] at htoNat
      exact hquot.ne' htoNat
    have hlast : (leBytes (m + 1) n).getLast? = some (UInt8.ofNat (n / 256 ^ m)) := by
      rw [leBytes_succ, List.getLast?_concat]
    have hkept : ¬ ((leBytes (m + 1) n).length ≥ 2 ∧ (leBytes (m + 1) n).getLast? = some 0 ∧
        (leBytes (m + 1) n)[(leBytes (m + 1) n).length - 2]?.any (fun b => decide (b ≥ 0x80))) :=
      fun hsign => hbyte (Option.some.inj (hlast.symm.trans hsign.2.1))
    rw [trimSign, if_neg hkept]
    refine leBytes_eq_digits (hltNext.trans_le ?_) hbig
    rw [pow_succ, mul_comm]
    exact Nat.mul_le_mul_left _ (by decide)

lemma decodeLoop_digits {r : Bytes} (hl : ∀ d ∈ l, d < 58) (bn : ℕ) :
    decodeLoop (l.map char ++ r) bn = decodeLoop r (l.foldl (fun n d => n * 58 + d) bn) := by
  induction l generalizing bn with
  | nil => rfl
  | cons d l ih =>
    rw [List.map_cons, List.cons_append, decodeLoop, (char_spec d (hl d List.mem_cons_self)).1]
    exact ih (fun d' hd' => hl d' (List.mem_cons_of_mem _ hd')) _

/-- What is accepted are characters of digits, and white space behind them. -/
lemma eq_of_decodeLoop {bn : ℕ} (h : decodeLoop str bn = some n) :
    ∃ (l : List ℕ) (tail : Bytes), (∀ d ∈ l, d < 58) ∧ str = l.map char ++ tail ∧
      ∀ c ∈ tail, isSpace c = true := by
  induction str generalizing bn with
  | nil => exact ⟨[], [], by simp, rfl, by simp⟩
  | cons c p ih =>
    rw [decodeLoop] at h
    cases hc : pszBase58.idxOf? c with
    | none =>
      simp only [hc] at h
      split_ifs at h with hspace
      exact ⟨[], c :: p, by simp, rfl, List.dropWhile_eq_nil_iff.mp hspace⟩
    | some d =>
      simp only [hc] at h
      obtain ⟨hd, hchar⟩ := char_of_idxOf? hc
      obtain ⟨l, tail, hl, hp, htail⟩ := ih h
      refine ⟨d :: l, tail, List.forall_mem_cons.mpr ⟨hd, hl⟩, ?_, htail⟩
      rw [List.map_cons, List.cons_append, hchar, hp]

/-! ## Round trips -/

lemma foldl_eq_number (l : List ℕ) : l.foldl (fun n d => n * 58 + d) 0 = number 58 l := by
  induction l using List.reverseRecOn with
  | nil => rfl
  | append_singleton l d ih =>
    rw [List.foldl_append, List.foldl_cons, List.foldl_nil, ih, number_concat]
    ring

lemma takeWhile_chars (hl : ∀ d ∈ l, d < 58) :
    ((l.map char).takeWhile fun c => c = pszBase58.getD 0 0).length = zeros l := by
  induction l with
  | nil => rfl
  | cons d l ih =>
    obtain ⟨hd, hl⟩ := List.forall_mem_cons.mp hl
    have hzero : decide (char d = pszBase58.getD 0 0) = decide (d = 0) :=
      decide_eq_decide.mpr (char_spec d hd).2.2.2
    rw [zeros] at ih ⊢
    rw [List.map_cons, List.takeWhile_cons, List.takeWhile_cons, hzero]
    cases decide (d = 0) with
    | false => rfl
    | true => exact congrArg Nat.succ (ih hl)

/-- What is decoded are the bytes of the number in radix 256. -/
lemma decodeBase58C_digits (hl : ∀ d ∈ l, d < 58) :
    decodeBase58C (l.map char) = if zeros l < 2 ^ 31 then
      .ok (some ((convert 58 256 l).map UInt8.ofNat)) else .error .undefined := by
  have hspace : (l.map char).dropWhile isSpace = l.map char := by
    cases l with
    | nil => rfl
    | cons d l =>
      refine List.dropWhile_cons_of_neg ?_
      rw [(char_spec d (hl d List.mem_cons_self)).2.1]
      decide
  have hloop : decodeLoop (l.map char) 0 = some (number 58 l) := by
    have hdigits := decodeLoop_digits (r := []) hl 0
    rwa [List.append_nil, foldl_eq_number] at hdigits
  simp only [decodeBase58C, hspace, hloop, takeWhile_chars hl, trimSign_getvch]
  rw [convert, numeral, List.map_append, List.map_replicate, List.map_reverse]
  rfl

lemma zero_notMem_chars (hl : ∀ d ∈ l, d < 58) : (0 : UInt8) ∉ l.map char := fun h => by
  obtain ⟨d, hd, hzero⟩ := List.mem_map.mp h
  exact (char_spec d (hl d hd)).2.2.1 hzero

lemma map_ofNat_toNat (vch : Bytes) : (vch.map UInt8.toNat).map UInt8.ofNat = vch := by
  rw [List.map_map]
  exact (List.map_congr_left fun b _ => UInt8.ofNat_toNat).trans (List.map_id _)

lemma map_toNat_ofNat (hl : ∀ d ∈ l, d < 256) : (l.map UInt8.ofNat).map UInt8.toNat = l := by
  rw [List.map_map]
  exact (List.map_congr_left fun d hd => UInt8.toNat_ofNat_of_lt' (hl d hd)).trans (List.map_id _)

/-- What is encoded is decoded again. -/
lemma decodeBase58_encodeBase58 (h : vch.length + 5 < 2 ^ 31) :
    decodeBase58 (encodeBase58 vch) = .ok (some vch) := by
  have hbytes : ∀ d ∈ vch.map UInt8.toNat, d < 256 := fun d hd => by
    obtain ⟨b, -, rfl⟩ := List.mem_map.mp hd
    exact b.toNat_lt
  have hdigits : ∀ d ∈ convert 256 58 (vch.map UInt8.toNat), d < 58 := fun d hd =>
    lt_of_mem_convert (by decide) hd
  have hzeros : zeros (convert 256 58 (vch.map UInt8.toNat)) < 2 ^ 31 := by
    have hle : zeros (vch.map UInt8.toNat) ≤ vch.length := by
      rw [← List.length_map UInt8.toNat]
      exact (List.takeWhile_sublist _).length_le
    rw [convert, zeros_numeral]
    omega
  rw [encodeBase58_eq h, decodeBase58, cStr_eq (zero_notMem_chars hdigits),
    decodeBase58C_digits hdigits, if_pos hzeros, convert_convert (by decide) hbytes,
    map_ofNat_toNat]

/-- An accepted string without white space at its ends is the encoding of its bytes. -/
lemma encodeBase58_of_decodeBase58C (htrim : Trimmed str)
    (hdecode : decodeBase58C str = .ok (some vch)) (hsize : vch.length + 5 < 2 ^ 31) :
    encodeBase58 vch = str := by
  have hspace : str.dropWhile isSpace = str := by
    cases str with
    | nil => rfl
    | cons c p =>
      refine List.dropWhile_cons_of_neg ?_
      rw [htrim.1 c rfl]
      decide
  cases hloop : decodeLoop str 0 with
  | none =>
    simp only [decodeBase58C, hspace, hloop] at hdecode
    cases hdecode
  | some n =>
    obtain ⟨l, tail, hl, hstr, htail⟩ := eq_of_decodeLoop hloop
    have hnil : tail = [] := by
      by_contra hne
      have hlast : tail.getLast hne ∈ str.getLast? := by
        rw [hstr, List.getLast?_append_of_ne_nil _ hne]
        exact List.getLast?_eq_getLast_of_ne_nil hne
      have hno := htrim.2 _ hlast
      rw [htail _ (List.getLast_mem hne)] at hno
      cases hno
    rw [hnil, List.append_nil] at hstr
    subst hstr
    rw [decodeBase58C_digits hl] at hdecode
    split_ifs at hdecode with hzeros
    cases hdecode
    rw [encodeBase58_eq hsize, map_toNat_ofNat fun d hd => lt_of_mem_convert (by decide) hd,
      convert_convert (by decide) hl]

lemma length_checksum (Hash : Bytes → UInt256) (vch : Bytes) : (checksum Hash vch).length = 4 := by
  rw [checksum, List.length_take, leBytes_length]
  rfl

/-- The checksum is found where it has been put. -/
lemma decodeBase58Check_encodeBase58Check (Hash : Bytes → UInt256) (h : vch.length + 9 < 2 ^ 31) :
    decodeBase58Check Hash (encodeBase58Check Hash vch) = .ok (some vch) := by
  have hlen : (vch ++ checksum Hash vch).length = vch.length + 4 := by
    rw [List.length_append, length_checksum]
  have hsub : (vch ++ checksum Hash vch).length - 4 = vch.length := by omega
  rw [decodeBase58Check, encodeBase58Check, decodeBase58_encodeBase58 (by omega), Except.map]
  simp only [hsub, List.take_left, List.drop_left, ne_eq, not_true_eq_false, if_false]
  rw [if_neg (by omega)]

/-- What is encoded is decoded again, also with a checksum, and an accepted string without white
space at its ends is the encoding of its bytes. -/
theorem base58_roundTrip (Hash : Bytes → UInt256) :
    (∀ vch, vch.length + 5 < 2 ^ 31 → decodeBase58 (encodeBase58 vch) = .ok (some vch)) ∧
    (∀ str vch, 0 ∉ str → Trimmed str → decodeBase58 str = .ok (some vch) →
      vch.length + 5 < 2 ^ 31 → encodeBase58 vch = str) ∧
    ∀ vch, vch.length + 9 < 2 ^ 31 →
      decodeBase58Check Hash (encodeBase58Check Hash vch) = .ok (some vch) := by
  refine ⟨fun vch h => decodeBase58_encodeBase58 h, fun str vch hzero htrim hdecode hsize => ?_,
    fun vch h => decodeBase58Check_encodeBase58Check Hash h⟩
  rw [decodeBase58, cStr_eq hzero] at hdecode
  exact encodeBase58_of_decodeBase58C htrim hdecode hsize

/-- Two zero bytes and a one. -/
theorem base58_roundTrip_leadingZeros :
    decodeBase58 (encodeBase58 [0, 0, 1]) = .ok (some [0, 0, 1]) :=
  (base58_roundTrip fun _ => 0).1 [0, 0, 1] (by decide)

/-! ## Where they do not -/

/-- The number of too many bytes stays zero. -/
lemma setvchInt_of_big (h : vch.length + 4 = 2 ^ 31) : setvchInt vch = 0 := by
  have hn : Int.bmod (vch.length + 4) (2 ^ 32) = -2 ^ 31 := by
    have hcast : ((vch.length : ℤ) + 4) = 2 ^ 31 := by omega
    rw [hcast]
    decide
  unfold setvchInt
  rw [hn]
  rfl

lemma encodeBase58_of_big (h : vch.length + 5 = 2 ^ 31) (hhead : vch.head? = some 1) :
    encodeBase58 vch = [] := by
  have hsize : (vch.reverse ++ [0]).length + 4 = 2 ^ 31 := by
    rw [List.length_append, List.length_reverse, List.length_singleton]
    omega
  have hzeros : (vch.takeWhile fun b => b = 0) = [] := by
    cases vch with
    | nil => rfl
    | cons b vch =>
      cases hhead
      rfl
  rw [encodeBase58, setvchInt_of_big hsize, hzeros, digitLoop]
  rfl

/-- Too many bytes are encoded as nothing, and what follows a zero byte in a string is not read. -/
theorem not_base58_roundTrip :
    (¬ ∀ vch, decodeBase58 (encodeBase58 vch) = .ok (some vch)) ∧
    ¬ ∀ str vch, Trimmed str → decodeBase58 str = .ok (some vch) → encodeBase58 vch = str := by
  constructor
  · intro hall
    obtain ⟨vch, hsize, hhead⟩ : ∃ vch : Bytes, vch.length + 5 = 2 ^ 31 ∧ vch.head? = some 1 :=
      ⟨1 :: List.replicate (2 ^ 31 - 6) 1, by
        rw [List.length_cons, List.length_replicate]
        norm_num, rfl⟩
    have hback := hall vch
    have hnil : decodeBase58 [] = .ok (some []) := rfl
    rw [encodeBase58_of_big hsize hhead, hnil] at hback
    cases hback
    cases hhead
  · intro hall
    have htrim : Trimmed [49, 0, 120] :=
      ⟨fun c hc => by cases hc; rfl, fun c hc => by cases hc; rfl⟩
    have hencode := hall [49, 0, 120] [0] htrim (by rfl)
    exact absurd hencode (by decide +kernel)

end HyperStake.Base58
