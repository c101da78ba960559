import HyperStake.Library.BitGroups
import HyperStake.Wallet.WalletTxFormat

/-!
# Base64 and Base32

The encoders and decoders of both codes take bits into a number `left` and go through modes, one for
each number of bits that can be pending.  Both pad with `=`.

A decoder stops at the first character that is not one of its alphabet, and Base32 reads upper case
letters as well.  It reports no error exactly for an encoding, up to the case of its letters, with
anything behind it that does not start with a character of the alphabet (`decode_spec`).
-/

namespace HyperStake.BaseCode

open BitGroups WalletTx

/-- The variables of an encoder or a decoder. -/
structure Coding where
  ret : Bytes
  mode : ℕ
  left : ℕ

def Coding.start : Coding := ⟨[], 0, 0⟩

/-- The loop of a decoder, up to the first character that its table has no number for. -/
def decodeLoop (table : List ℤ) (step : Coding → ℕ → Coding) : Bytes → Coding → Coding × Bytes
  | [], s => (s, [])
  | c :: p, s =>
    let dec := table.getD c.toNat (-1)
    if dec = -1 then (s, c :: p) else decodeLoop table step p (step s dec.toNat)

/-- The check of a decoder for no bits that are left, `n` times `=` and then no character of the
table. -/
def lacksPadding (table : List ℤ) (n : ℕ) (s : Coding) (p : Bytes) : Bool :=
  decide (s.left ≠ 0) || (List.range n).any (fun i => decide (p.getD i 0 ≠ 61)) ||
    decide (table.getD (p.getD n 0).toNat (-1) ≠ -1)

/-! ## Base64 -/

def pbase64 : Bytes := text "ABCDEFGHIJKLMNOPQRSTUVWXYZabcdefghijklmnopqrstuvwxyz0123456789+/"

/-- One turn of the loop of `EncodeBase64`. -/
def encode64 (s : Coding) (c : UInt8) : Coding :=
  let enc := c.toNat
  match s.mode with
  -- no bits
  | 0 => ⟨s.ret ++ [pbase64.getD (enc >>> 2) 0], 1, (enc &&& 3) <<< 4⟩
  -- two bits
  | 1 => ⟨s.ret ++ [pbase64.getD (s.left ||| enc >>> 4) 0], 2, (enc &&& 15) <<< 2⟩
  -- four bits
  | 2 => ⟨s.ret ++ [pbase64.getD (s.left ||| enc >>> 6) 0] ++ [pbase64.getD (enc &&& 63) 0], 0,
      s.left⟩
  | _ => s

def encodeBase64 (pch : Bytes) : Bytes :=
  let s := pch.foldl encode64 Coding.start
  if s.mode ≠ 0 then
    s.ret ++ [pbase64.getD s.left 0] ++ [61] ++ if s.mode = 1 then [61] else []
  else s.ret

def decode64_table : List ℤ := [
    -1, -1, -1, -1, -1, -1, -1, -1, -1, -1, -1, -1, -1, -1, -1, -1, -1, -1, -1, -1,
    -1, -1, -1, -1, -1, -1, -1, -1, -1, -1, -1, -1, -1, -1, -1, -1, -1, -1, -1, -1,
    -1, -1, -1, 62, -1, -1, -1, 63, 52, 53, 54, 55, 56, 57, 58, 59, 60, 61, -1, -1,
    -1, -1, -1, -1, -1,  0,  1,  2,  3,  4,  5,  6,  7,  8,  9, 10, 11, 12, 13, 14,
    15, 16, 17, 18, 19, 20, 21, 22, 23, 24, 25, -1, -1, -1, -1, -1, -1, 26, 27, 28,
    29, 30, 31, 32, 33, 34, 35, 36, 37, 38, 39, 40, 41, 42, 43, 44, 45, 46, 47, 48,
    49, 50, 51, -1, -1, -1, -1, -1, -1, -1, -1, -1, -1, -1, -1, -1, -1, -1, -1, -1,
    -1, -1, -1, -1, -1, -1, -1, -1, -1, -1, -1, -1, -1, -1, -1, -1, -1, -1, -1, -1,
    -1, -1, -1, -1, -1, -1, -1, -1, -1, -1, -1, -1, -1, -1, -1, -1, -1, -1, -1, -1,
    -1, -1, -1, -1, -1, -1, -1, -1, -1, -1, -1, -1, -1, -1, -1, -1, -1, -1, -1, -1,
    -1, -1, -1, -1, -1, -1, -1, -1, -1, -1, -1, -1, -1, -1, -1, -1, -1, -1, -1, -1,
    -1, -1, -1, -1, -1, -1, -1, -1, -1, -1, -1, -1, -1, -1, -1, -1, -1, -1, -1, -1,
    -1, -1, -1, -1, -1, -1, -1, -1, -1, -1, -1, -1, -1, -1, -1, -1]

/-- One turn of the loop of `DecodeBase64`. -/
def decode64 (s : Coding) (dec : ℕ) : Coding :=
  match s.mode with
  -- no bits, get six
  | 0 => ⟨s.ret, 1, dec⟩
  -- six bits, keep four
  | 1 => ⟨s.ret ++ [UInt8.ofNat (s.left <<< 2 ||| dec >>> 4)], 2, dec &&& 15⟩
  -- four bits, keep two
  | 2 => ⟨s.ret ++ [UInt8.ofNat (s.left <<< 4 ||| dec >>> 2)], 3, dec &&& 3⟩
  -- two bits, get six
  | 3 => ⟨s.ret ++ [UInt8.ofNat (s.left <<< 6 ||| dec)], 0, s.left⟩
  | _ => s

/-- The checks at the end of `DecodeBase64`, with what is left of the string. -/
def invalid64 (s : Coding) (p : Bytes) : Bool :=
  match s.mode with
  | 1 => true
  | 2 => lacksPadding decode64_table 2 s p
  | 3 => lacksPadding decode64_table 1 s p
  | _ => false

/-- `DecodeBase64`, with `*pfInvalid`. -/
def decodeBase64 (p : Bytes) : Bytes × Bool :=
  let (s, p) := decodeLoop decode64_table decode64 p Coding.start
  (s.ret, invalid64 s p)

/-! ## Base32 -/

def pbase32 : Bytes := text "abcdefghijklmnopqrstuvwxyz234567"

/-- One turn of the loop of `EncodeBase32`. -/
def encode32 (s : Coding) (c : UInt8) : Coding :=
  let enc := c.toNat
  match s.mode with
  -- no bits
  | 0 => ⟨s.ret ++ [pbase32.getD (enc >>> 3) 0], 1, (enc &&& 7) <<< 2⟩
  -- three bits
  | 1 => ⟨s.ret ++ [pbase32.getD (s.left ||| enc >>> 6) 0] ++ [pbase32.getD (enc >>> 1 &&& 31) 0],
      2, (enc &&& 1) <<< 4⟩
  -- one bit
  | 2 => ⟨s.ret ++ [pbase32.getD (s.left ||| enc >>> 4) 0], 3, (enc &&& 15) <<< 1⟩
  -- four bits
  | 3 => ⟨s.ret ++ [pbase32.getD (s.left ||| enc >>> 7) 0] ++ [pbase32.getD (enc >>> 2 &&& 31) 0],
      4, (enc &&& 3) <<< 3⟩
  -- two bits
  | 4 => ⟨s.ret ++ [pbase32.getD (s.left ||| enc >>> 5) 0] ++ [pbase32.getD (enc &&& 31) 0], 0,
      s.left⟩
  | _ => s

def nPadding : List ℕ := [0, 6, 4, 3, 1]

def encodeBase32 (pch : Bytes) : Bytes :=
  let s := pch.foldl encode32 Coding.start
  if s.mode ≠ 0 then
    s.ret ++ [pbase32.getD s.left 0] ++ List.replicate (nPadding.getD s.mode 0) 61
  else s.ret

def decode32_table : List ℤ := [
    -1, -1, -1, -1, -1, -1, -1, -1, -1, -1, -1, -1, -1, -1, -1, -1, -1, -1, -1, -1,
    -1, -1, -1, -1, -1, -1, -1, -1, -1, -1, -1, -1, -1, -1, -1, -1, -1, -1, -1, -1,
    -1, -1, -1, -1, -1, -1, -1, -1, -1, -1, 26, 27, 28, 29, 30, 31, -1, -1, -1, -1,
    -1, -1, -1, -1, -1,  0,  1,  2,  3,  4,  5,  6,  7,  8,  9, 10, 11, 12, 13, 14,
    15, 16, 17, 18, 19, 20, 21, 22, 23, 24, 25, -1, -1, -1, -1, -1, -1,  0,  1,  2,
     3,  4,  5,  6,  7,  8,  9, 10, 11, 12, 13, 14, 15, 16, 17, 18, 19, 20, 21, 22,
    23, 24, 25, -1, -1, -1, -1, -1, -1, -1, -1, -1, -1, -1, -1, -1, -1, -1, -1, -1,
    -1, -1, -1, -1, -1, -1, -1, -1, -1, -1, -1, -1, -1, -1, -1, -1, -1, -1, -1, -1,
    -1, -1, -1, -1, -1, -1, -1, -1, -1, -1, -1, -1, -1, -1, -1, -1, -1, -1, -1, -1,
    -1, -1, -1, -1, -1, -1, -1, -1, -1, -1, -1, -1, -1, -1, -1, -1, -1, -1, -1, -1,
    -1, -1, -1, -1, -1, -1, -1, -1, -1, -1, -1, -1, -1, -1, -1, -1, -1, -1, -1, -1,
    -1, -1, -1, -1, -1, -1, -1, -1, -1, -1, -1, -1, -1, -1, -1, -1, -1, -1, -1, -1,
    -1, -1, -1, -1, -1, -1, -1, -1, -1, -1, -1, -1, -1, -1, -1, -1]

/-- One turn of the loop of `DecodeBase32`. -/
def decode32 (s : Coding) (dec : ℕ) : Coding :=
  match s.mode with
  -- no bits, get five
  | 0 => ⟨s.ret, 1, dec⟩
  -- five bits, keep two
  | 1 => ⟨s.ret ++ [UInt8.ofNat (s.left <<< 3 ||| dec >>> 2)], 2, dec &&& 3⟩
  -- two bits, keep seven
  | 2 => ⟨s.ret, 3, s.left <<< 5 ||| dec⟩
  -- seven bits, keep four
  | 3 => ⟨s.ret ++ [UInt8.ofNat (s.left <<< 1 ||| dec >>> 4)], 4, dec &&& 15⟩
  -- four bits, keep one
  | 4 => ⟨s.ret ++ [UInt8.ofNat (s.left <<< 4 ||| dec >>> 1)], 5, dec &&& 1⟩
  -- one bit, keep six
  | 5 => ⟨s.ret, 6, s.left <<< 5 ||| dec⟩
  -- six bits, keep three
  | 6 => ⟨s.ret ++ [UInt8.ofNat (s.left <<< 2 ||| dec >>> 3)], 7, dec &&& 7⟩
  -- three bits, keep none
  | 7 => ⟨s.ret ++ [UInt8.ofNat (s.left <<< 5 ||| dec)], 0, s.left⟩
  | _ => s

/-- The checks at the end of `DecodeBase32`, with what is left of the string. -/
def invalid32 (s : Coding) (p : Bytes) : Bool :=
  match s.mode with
  | 1 => true
  | 3 => true
  | 6 => true
  | 2 => lacksPadding decode32_table 6 s p
  | 4 => lacksPadding decode32_table 4 s p
  | 5 => lacksPadding decode32_table 3 s p
  | 7 => lacksPadding decode32_table 1 s p
  | _ => false

/-- `DecodeBase32`, with `*pfInvalid`. -/
def decodeBase32 (p : Bytes) : Bytes × Bool :=
  let (s, p) := decodeLoop decode32_table decode32 p Coding.start
  (s.ret, invalid32 s p)

/-! ## Characters -/

/-- An upper case letter as lower case. -/
def toLower (c : UInt8) : UInt8 := if 65 ≤ c.toNat ∧ c.toNat ≤ 90 then c + 32 else c

/-- The table has the number of every character of the alphabet, as it is after `norm`. -/
structure Alphabet (k : ℕ) (pbase : Bytes) (table : List ℤ) (norm : UInt8 → UInt8) : Prop where
  read : ∀ d < 2 ^ k, table.getD (pbase.getD d 0).toNat (-1) = d ∧
    norm (pbase.getD d 0) = pbase.getD d 0
  write : ∀ c : UInt8, table.getD c.toNat (-1) ≠ -1 →
    pbase.getD (table.getD c.toNat (-1)).toNat 0 = norm c ∧ table.getD c.toNat (-1) < 2 ^ k
  length : pbase.length = 2 ^ k
  norm_eq : ∀ c : UInt8, (norm c = 61 ↔ c = 61) ∧
    table.getD (norm c).toNat (-1) = table.getD c.toNat (-1)
  padding : table.getD 61 (-1) = -1
  terminator : table.getD 0 (-1) = -1

lemma toNat_upper {c : UInt8} (h : c.toNat ≤ 90) : (c + 32).toNat = c.toNat + 32 := by
  have hconst : (32 : UInt8).toNat = 32 := rfl
  rw [UInt8.toNat_add, hconst]
  omega

lemma toLower_eq_padding (c : UInt8) : toLower c = 61 ↔ c = 61 := by
  rw [toLower]
  split_ifs with hupper
  · refine iff_of_false (fun heq => ?_) fun heq => ?_
    · have htoNat := congrArg UInt8.toNat heq
      have hconst : (61 : UInt8).toNat = 61 := rfl
      rw [toNat_upper hupper.2, hconst] at htoNat
      omega
    · rw [heq] at hupper
      exact absurd hupper (by decide)
  · rfl

variable {norm : UInt8 → UInt8} {pbase : Bytes} {k : ℕ} {table : List ℤ}

/-- The table has no number exactly for the characters outside of the alphabet. -/
lemma Alphabet.stop (h : Alphabet k pbase table norm) (c : UInt8) :
    table.getD c.toNat (-1) = -1 ↔ norm c ∉ pbase := by
  constructor
  · intro hnone hmem
    obtain ⟨d, hd, hchar⟩ := List.mem_iff_getElem.mp hmem
    have hget : pbase.getD d 0 = norm c := by
      rw [List.getD_eq_getElem?_getD, List.getElem?_eq_getElem hd, Option.getD_some, hchar]
    have hread := (h.read d (h.length ▸ hd)).1
    rw [hget, (h.norm_eq c).2, hnone] at hread
    omega
  · intro hmem
    by_contra hsome
    obtain ⟨hchar, hlt⟩ := h.write c hsome
    have hpos := Nat.two_pow_pos k
    have hcast : ((2 ^ k : ℕ) : ℤ) = 2 ^ k := by
      push_cast
      rfl
    have hd : (table.getD c.toNat (-1)).toNat < pbase.length := by
      rw [h.length]
      omega
    rw [List.getD_eq_getElem?_getD, List.getElem?_eq_getElem hd, Option.getD_some] at hchar
    exact hmem (hchar ▸ List.getElem_mem hd)

lemma pbase64_eq : pbase64 =
    [65, 66, 67, 68, 69, 70, 71, 72, 73, 74, 75, 76, 77, 78, 79, 80, 81, 82, 83, 84, 85, 86, 87,
    88, 89, 90, 97, 98, 99, 100, 101, 102, 103, 104, 105, 106, 107, 108, 109, 110, 111, 112, 113,
    114, 115, 116, 117, 118, 119, 120, 121, 122, 48, 49, 50, 51, 52, 53, 54, 55, 56, 57, 43, 47] := by
  simp [pbase64, text]

lemma pbase32_eq : pbase32 =
    [97, 98, 99, 100, 101, 102, 103, 104, 105, 106, 107, 108, 109, 110, 111, 112, 113, 114, 115,
    116, 117, 118, 119, 120, 121, 122, 50, 51, 52, 53, 54, 55] := by
  simp [pbase32, text]

/-- A table is checked entry by entry. -/
lemma write_of_zipIdx (hlength : table.length = 256)
    (h : ∀ x ∈ table.zipIdx, x.1 ≠ -1 →
      pbase.getD x.1.toNat 0 = norm (UInt8.ofNat x.2) ∧ x.1 < 2 ^ k) (c : UInt8) :
    table.getD c.toNat (-1) ≠ -1 →
      pbase.getD (table.getD c.toNat (-1)).toNat 0 = norm c ∧ table.getD c.toNat (-1) < 2 ^ k := by
  have hc : c.toNat < table.length := by
    rw [hlength]
    exact c.toNat_lt
  have hget := List.getElem?_eq_getElem hc
  have hentry := h (table[c.toNat], c.toNat) (List.mem_zipIdx_iff_getElem?.mpr hget)
  rw [UInt8.ofNat_toNat] at hentry
  rwa [List.getD_eq_getElem?_getD, hget]

/-- The numbers and the characters of both tables belong together. -/
lemma tables_agree :
    ((∀ d < 2 ^ 6, decode64_table.getD (pbase64.getD d 0).toNat (-1) = d) ∧
      decode64_table.length = 256 ∧
      ∀ x ∈ decode64_table.zipIdx, x.1 ≠ -1 →
        pbase64.getD x.1.toNat 0 = UInt8.ofNat x.2 ∧ x.1 < 2 ^ 6) ∧
    (∀ d < 2 ^ 5, decode32_table.getD (pbase32.getD d 0).toNat (-1) = d ∧
        toLower (pbase32.getD d 0) = pbase32.getD d 0) ∧
      decode32_table.length = 256 ∧
      ∀ x ∈ decode32_table.zipIdx, x.1 ≠ -1 →
        pbase32.getD x.1.toNat 0 = toLower (UInt8.ofNat x.2) ∧ x.1 < 2 ^ 5 := by
  rw [pbase64_eq, pbase32_eq]
  decide +kernel

lemma alphabet64 : Alphabet 6 pbase64 decode64_table id where
  read d hd := ⟨tables_agree.1.1 d hd, rfl⟩
  write := write_of_zipIdx tables_agree.1.2.1 tables_agree.1.2.2
  length := by rw [pbase64_eq]; rfl
  norm_eq c := ⟨Iff.rfl, rfl⟩
  padding := rfl
  terminator := rfl

/-- Letters of either case have one number. -/
lemma decode32_table_toLower (c : UInt8) :
    decode32_table.getD (toLower c).toNat (-1) = decode32_table.getD c.toNat (-1) := by
  rw [toLower]
  split_ifs with hupper
  · have hletters : ∀ n < 26, decode32_table.getD (65 + n + 32) (-1) =
        decode32_table.getD (65 + n) (-1) := by
      decide
    have hletter := hletters (c.toNat - 65) (by omega)
    rw [Nat.add_sub_cancel' hupper.1] at hletter
    rwa [toNat_upper hupper.2]
  · rfl

lemma alphabet32 : Alphabet 5 pbase32 decode32_table toLower where
  read := tables_agree.2.1
  write := write_of_zipIdx tables_agree.2.2.1 tables_agree.2.2.2
  length := by rw [pbase32_eq]; rfl
  norm_eq c := ⟨toLower_eq_padding c, decode32_table_toLower c⟩
  padding := rfl
  terminator := rfl

/-! ## What encoders and decoders do -/

section Specifications

variable {k : ℕ} {pbase : Bytes} {table : List ℤ} {norm : UInt8 → UInt8} {eqs : ℕ → ℕ}
  {step : Coding → ℕ → Coding} {s : Coding} {v w str p rest : Bytes} {fInvalid : Bool}

/-- A string of which the decoder reads nothing. -/
def Stops (table : List ℤ) (p : Bytes) : Prop := ∀ c ∈ p.head?, table.getD c.toNat (-1) = -1

/-- The number of a character that the table has one for. -/
def digit (table : List ℤ) (c : UInt8) : ℕ := (table.getD c.toNat (-1)).toNat

/-- The string is the groups of `k` bits of some bytes, and the padding that belongs to the number
of bits that have been added. -/
def Writes (k : ℕ) (pbase : Bytes) (eqs : ℕ → ℕ) (v str : Bytes) : Prop :=
  ∃ ds pad, str = ds.map (fun d => pbase.getD d 0) ++ List.replicate (eqs pad) 61 ∧
    Regrouped k 8 ds (v.map UInt8.toNat) pad 0 ∧ pad < k

/-- The bytes are those of the groups of `k` bits that a string starts with, and no error is
reported exactly if zeros have been added and the padding follows that belongs to them. -/
def Reads (k : ℕ) (table : List ℤ) (eqs : ℕ → ℕ) (p w : Bytes) (fInvalid : Bool) : Prop :=
  ∀ cs rest, p = cs ++ rest → (∀ c ∈ cs, table.getD c.toNat (-1) ≠ -1) → Stops table rest →
    ∃ r left, Regrouped k 8 (cs.map (digit table)) (w.map UInt8.toNat) r left ∧ r < 8 ∧
      (fInvalid = false ↔ left = 0 ∧ r < k ∧
        ∃ rest', rest = List.replicate (eqs r) 61 ++ rest' ∧ Stops table rest')

lemma decodeLoop_append {cs : Bytes} (hcs : ∀ c ∈ cs, table.getD c.toNat (-1) ≠ -1)
    (hrest : Stops table rest) (s : Coding) :
    decodeLoop table step (cs ++ rest) s = ((cs.map (digit table)).foldl step s, rest) := by
  induction cs generalizing s with
  | nil =>
    cases rest with
    | nil => rfl
    | cons c p => exact if_pos (hrest c rfl)
  | cons c cs ih =>
    obtain ⟨hc, hcs⟩ := List.forall_mem_cons.mp hcs
    rw [List.cons_append, decodeLoop, if_neg hc]
    exact ih hcs _

/-- Every string is read up to where the decoder stops. -/
lemma exists_stops (table : List ℤ) (p : Bytes) :
    ∃ cs rest, p = cs ++ rest ∧ (∀ c ∈ cs, table.getD c.toNat (-1) ≠ -1) ∧ Stops table rest := by
  refine ⟨p.takeWhile fun c => table.getD c.toNat (-1) ≠ -1,
    p.dropWhile fun c => table.getD c.toNat (-1) ≠ -1, List.takeWhile_append_dropWhile.symm,
    fun c hc => by simpa using List.mem_takeWhile_imp hc, fun c hc => ?_⟩
  obtain ⟨rest, hrest⟩ := List.head?_eq_some_iff.mp hc
  have hnot := List.head_dropWhile_not (fun c : UInt8 => decide (table.getD c.toNat (-1) ≠ -1))
    (l := p) (by rw [hrest]; exact List.cons_ne_nil _ _)
  simpa only [hrest, List.head_cons, decide_eq_false_iff_not, not_not] using hnot

lemma eq_replicate_append (n : ℕ) (p : Bytes) : (∀ i < n, p.getD i 0 = 61) ↔
    ∃ rest, p = List.replicate n 61 ++ rest := by
  induction n generalizing p with
  | zero => simp
  | succ n ih =>
    constructor
    · intro h
      cases p with
      | nil => exact absurd (h 0 n.succ_pos) (by decide)
      | cons c p =>
        obtain ⟨rest, hp⟩ := (ih p).mp fun i hi => h (i + 1) (Nat.succ_lt_succ hi)
        have hc : c = 61 := h 0 n.succ_pos
        exact ⟨rest, by rw [hc, hp, List.replicate_succ, List.cons_append]⟩
    · rintro ⟨rest, rfl⟩ i hi
      rw [List.getD_eq_getElem?_getD, List.getElem?_append_left (by rwa [List.length_replicate]),
        List.getElem?_replicate_of_lt hi, Option.getD_some]

lemma lacksPadding_eq_false (h : table.getD 0 (-1) = -1) (n : ℕ) (s : Coding) (p : Bytes) :
    lacksPadding table n s p = false ↔
      s.left = 0 ∧ ∃ rest, p = List.replicate n 61 ++ rest ∧ Stops table rest := by
  have hhead : ∀ rest : Bytes, table.getD (rest.getD 0 0).toNat (-1) = -1 ↔ Stops table rest := by
    intro rest
    cases rest with
    | nil => exact iff_of_true h fun c hc => absurd hc (by simp)
    | cons c p => exact ⟨fun hc c' hc' => by cases hc'; exact hc, fun hstop => hstop c rfl⟩
  have hdrop : ∀ rest : Bytes, (List.replicate n 61 ++ rest).getD n 0 = rest.getD 0 0 := by
    intro rest
    rw [List.getD_eq_getElem?_getD, List.getElem?_append_right (by simp), List.length_replicate,
      Nat.sub_self, ← List.getD_eq_getElem?_getD]
  have hany : (List.range n).any (fun i => decide (p.getD i 0 ≠ 61)) = false ↔
      ∀ i < n, p.getD i 0 = 61 := by
    simp [List.any_eq_false]
  rw [lacksPadding, Bool.or_eq_false_iff, Bool.or_eq_false_iff, decide_eq_false_iff_not, not_not,
    hany, eq_replicate_append, decide_eq_false_iff_not, not_not, and_assoc]
  refine and_congr_right fun _ => ⟨?_, ?_⟩
  · rintro ⟨⟨rest, rfl⟩, hstop⟩
    exact ⟨rest, rfl, (hhead rest).mp (by rwa [hdrop] at hstop)⟩
  · rintro ⟨rest, rfl, hstop⟩
    exact ⟨⟨rest, rfl⟩, by rw [hdrop]; exact (hhead rest).mpr hstop⟩

lemma map_toNat_injective {v w : Bytes} (h : v.map UInt8.toNat = w.map UInt8.toNat) : v = w :=
  List.map_injective_iff.mpr (fun _ _ => UInt8.toNat_inj.mp) h

/-- What is read of an encoding, up to the case of its letters, with anything behind it. -/
lemma Reads.of_writes (halphabet : Alphabet k pbase table norm) (hk : k ≤ 8)
    (hwrites : Writes k pbase eqs v (str.map norm)) (hrest : Stops table rest)
    (hreads : Reads k table eqs (str ++ rest) w fInvalid) : w = v ∧ fInvalid = false := by
  obtain ⟨ds, pad, hstr, hregrouped, hpad⟩ := hwrites
  obtain ⟨cs, tail, rfl, hcs, htail⟩ := List.map_eq_append_iff.mp hstr
  have htailEq : tail = List.replicate (eqs pad) 61 := by
    refine List.eq_replicate_iff.mpr ⟨?_, fun c hc => ?_⟩
    · rw [← List.length_map norm, htail, List.length_replicate]
    · have hmem := List.mem_map_of_mem (f := norm) hc
      rw [htail] at hmem
      exact (halphabet.norm_eq c).1.mp (List.eq_of_mem_replicate hmem)
  have hread : ∀ d ∈ ds, table.getD (pbase.getD d 0).toNat (-1) = d := fun d hd =>
    (halphabet.read d (hregrouped.taken d hd)).1
  have hdigits : cs.map (digit table) = ds := by
    calc cs.map (digit table) = (cs.map norm).map (digit table) := by
          rw [List.map_map]
          refine List.map_congr_left fun c _ => ?_
          rw [Function.comp_apply, digit, digit, (halphabet.norm_eq c).2]
      _ = ds := by
          rw [hcs, List.map_map]
          refine (List.map_congr_left fun d hd => ?_).trans (List.map_id _)
          rw [Function.comp_apply, digit, hread d hd]
          rfl
  have hall : ∀ c ∈ cs, table.getD c.toNat (-1) ≠ -1 := by
    intro c hc
    have hmem := List.mem_map_of_mem (f := norm) hc
    rw [hcs] at hmem
    obtain ⟨d, hd, hchar⟩ := List.mem_map.mp hmem
    rw [← (halphabet.norm_eq c).2, ← hchar, hread d hd]
    omega
  have hstops : Stops table (tail ++ rest) := by
    rw [htailEq]
    cases eqs pad with
    | zero => exact hrest
    | succ n =>
      intro c hc
      cases hc
      exact halphabet.padding
  obtain ⟨r, left, hread, hr, hinvalid⟩ :=
    hreads cs (tail ++ rest) (List.append_assoc _ _ _) hall hstops
  rw [hdigits] at hread
  obtain ⟨hv, rfl, rfl⟩ := hread.unique hregrouped hr (hpad.trans_le hk)
  exact ⟨map_toNat_injective hv, hinvalid.mpr ⟨rfl, hpad, rest, by rw [htailEq], hrest⟩⟩

/-- If no error is reported the string starts with the encoding of what has been read, up to the
case of its letters. -/
lemma Reads.writes (halphabet : Alphabet k pbase table norm) (hreads : Reads k table eqs p w false)
    (hwrites : Writes k pbase eqs w str) :
    ∃ str' rest, p = str' ++ rest ∧ str'.map norm = str ∧ Stops table rest := by
  obtain ⟨cs, rest, hp, hcs, hrest⟩ := exists_stops table p
  obtain ⟨r, left, hread, -, hvalid⟩ := hreads cs rest hp hcs hrest
  obtain ⟨hleft, hr, rest', hpadding, hstops⟩ := hvalid.mp rfl
  obtain ⟨ds, pad, hstr, hregrouped, hpad⟩ := hwrites
  rw [hleft] at hread
  obtain ⟨hdigits, rfl⟩ := hread.unique_taken hregrouped hr hpad
  refine ⟨cs ++ List.replicate (eqs r) 61, rest', ?_, ?_, hstops⟩
  · rw [hp, hpadding, List.append_assoc]
  · have hnorm : norm 61 = 61 := (halphabet.norm_eq 61).1.mpr rfl
    rw [hstr, List.map_append, List.map_replicate, hnorm, ← hdigits, List.map_map]
    refine congrArg (· ++ _) (List.map_congr_left fun c hc => ?_)
    exact (halphabet.write c (hcs c hc)).1.symm

end Specifications


/-! ## The encoders -/

variable {x : ℕ} {ds bits : List ℕ}

lemma or_eq {i y : ℕ} (hy : y < 2 ^ i) : x * 2 ^ i ||| y = x * 2 ^ i + y := by
  rw [mul_comm, Nat.two_pow_add_eq_or_of_lt hy]

lemma and_eq (x i : ℕ) : x &&& (2 ^ i - 1) = x % 2 ^ i := Nat.and_two_pow_sub_one_eq_mod x i

/-- The last bits of a byte, with zeros behind them. -/
lemma masked (pend c j : ℕ) {i : ℕ} (hi : i ≤ 8) :
    (c &&& (2 ^ i - 1)) <<< j = (pend * 2 ^ 8 + c) % 2 ^ i * 2 ^ j := by
  obtain ⟨m, hm⟩ := pow_dvd_pow 2 hi
  rw [and_eq, Nat.shiftLeft_eq, hm, mul_left_comm, Nat.mul_add_mod]

lemma concat_eq {ret : Bytes} {f : ℕ → UInt8} {y : ℕ} (hret : ret = ds.map f) (hx : x = y) :
    ret ++ [f x] = (ds ++ [y]).map f := by
  rw [hret, hx, List.map_append, List.map_singleton]

/-- An encoder has written groups of `k` bits; in the modes that are not the first one `left` has
the pending bits, with zeros behind them. -/
def Encoding (k : ℕ) (pbase : Bytes) (bits : List ℕ) (v : Bytes) (s : Coding) : Prop :=
  ∃ ds pend, s.ret = ds.map (fun d => pbase.getD d 0) ∧
    Regrouped 8 k (v.map UInt8.toNat) ds (bits.getD s.mode 0) pend ∧
    (s.mode ≠ 0 → s.left = pend * 2 ^ (k - bits.getD s.mode 0)) ∧ s.mode < bits.length

lemma Encoding.start (k : ℕ) (pbase : Bytes) (h : bits.head? = some 0) :
    Encoding k pbase bits [] Coding.start := by
  obtain ⟨rest, rfl⟩ := List.head?_eq_some_iff.mp h
  exact ⟨[], 0, rfl, Regrouped.nil 8 k, fun hne => absurd rfl hne, Nat.succ_pos _⟩

/-- The bits that are pending in each mode of `EncodeBase64`. -/
def bits64 : List ℕ := [0, 2, 4]

variable {s : Coding}

lemma Encoding.encode64 {v : Bytes} (h : Encoding 6 pbase64 bits64 v s) (c : UInt8) :
    Encoding 6 pbase64 bits64 (v ++ [c]) (encode64 s c) := by
  obtain ⟨ds, pend, hret, hregrouped, hleft, hmode⟩ := h
  obtain ⟨ret, mode, left⟩ := s
  have hc : c.toNat < 2 ^ 8 := c.toNat_lt
  have hfeed := hregrouped.feed hc
  have hpend := hregrouped.pending
  rw [Encoding, List.map_append, List.map_singleton]
  have hcases : mode = 0 ∨ mode = 1 ∨ mode = 2 := by
    have hlt : mode < 3 := hmode
    omega
  rcases hcases with rfl | rfl | rfl
  · have hzero : pend < 1 := hpend
    refine ⟨_, _, concat_eq hret ?_, hfeed.emit (r := 2), fun _ => ?_, (by decide : 1 < 3)⟩
    · rw [Nat.shiftRight_eq_div_pow]
      omega
    · exact masked (i := 2) pend c.toNat 4 (by decide)
  · have hl : left = pend * 2 ^ 4 := hleft (Nat.succ_ne_zero _)
    refine ⟨_, _, concat_eq hret ?_, hfeed.emit (r := 4), fun _ => ?_, (by decide : 2 < 3)⟩
    · rw [hl, Nat.shiftRight_eq_div_pow, or_eq (by omega)]
      omega
    · exact masked (i := 4) pend c.toNat 2 (by decide)
  · have hl : left = pend * 2 ^ 2 := hleft (Nat.succ_ne_zero _)
    have hmask : c.toNat &&& 63 = c.toNat % 64 := and_eq c.toNat 6
    refine ⟨_, _, concat_eq (concat_eq hret ?_) ?_, (hfeed.emit (r := 6)).emit (r := 0),
      fun hne => absurd rfl hne, (by decide : 0 < 3)⟩
    · rw [hl, Nat.shiftRight_eq_div_pow, or_eq (by omega)]
      omega
    · rw [hmask]
      omega

/-- The bits that are pending in each mode of `EncodeBase32`. -/
def bits32 : List ℕ := [0, 3, 1, 4, 2]

lemma Encoding.encode32 {v : Bytes} (h : Encoding 5 pbase32 bits32 v s) (c : UInt8) :
    Encoding 5 pbase32 bits32 (v ++ [c]) (encode32 s c) := by
  obtain ⟨ds, pend, hret, hregrouped, hleft, hmode⟩ := h
  obtain ⟨ret, mode, left⟩ := s
  have hc : c.toNat < 2 ^ 8 := c.toNat_lt
  have hfeed := hregrouped.feed hc
  have hpend := hregrouped.pending
  rw [Encoding, List.map_append, List.map_singleton]
  have hcases : mode = 0 ∨ mode = 1 ∨ mode = 2 ∨ mode = 3 ∨ mode = 4 := by
    have hlt : mode < 5 := hmode
    omega
  rcases hcases with rfl | rfl | rfl | rfl | rfl
  · have hzero : pend < 1 := hpend
    refine ⟨_, _, concat_eq hret ?_, hfeed.emit (r := 3), fun _ => ?_, (by decide : 1 < 5)⟩
    · rw [Nat.shiftRight_eq_div_pow]
      omega
    · exact masked (i := 3) pend c.toNat 2 (by decide)
  · have hl : left = pend * 2 ^ 2 := hleft (Nat.succ_ne_zero _)
    refine ⟨_, _, concat_eq (concat_eq hret ?_) ?_, (hfeed.emit (r := 6)).emit (r := 1),
      fun _ => ?_, (by decide : 2 < 5)⟩
    · rw [hl, Nat.shiftRight_eq_div_pow, or_eq (by omega)]
      omega
    · rw [Nat.shiftRight_eq_div_pow]
      refine (and_eq _ 5).trans ?_
      omega
    · exact (masked (i := 1) pend c.toNat 4 (by decide)).trans
        (congrArg (· * 2 ^ 4) (Nat.mod_mod_of_dvd _ (by decide)).symm)
  · have hl : left = pend * 2 ^ 4 := hleft (Nat.succ_ne_zero _)
    refine ⟨_, _, concat_eq hret ?_, hfeed.emit (r := 4), fun _ => ?_, (by decide : 3 < 5)⟩
    · rw [hl, Nat.shiftRight_eq_div_pow, or_eq (by omega)]
      omega
    · exact masked (i := 4) pend c.toNat 1 (by decide)
  · have hl : left = pend * 2 ^ 1 := hleft (Nat.succ_ne_zero _)
    refine ⟨_, _, concat_eq (concat_eq hret ?_) ?_, (hfeed.emit (r := 7)).emit (r := 2),
      fun _ => ?_, (by decide : 4 < 5)⟩
    · rw [hl, Nat.shiftRight_eq_div_pow, or_eq (by omega)]
      omega
    · rw [Nat.shiftRight_eq_div_pow]
      refine (and_eq _ 5).trans ?_
      omega
    · exact (masked (i := 2) pend c.toNat 3 (by decide)).trans
        (congrArg (· * 2 ^ 3) (Nat.mod_mod_of_dvd _ (by decide)).symm)
  · have hl : left = pend * 2 ^ 3 := hleft (Nat.succ_ne_zero _)
    have hmask : c.toNat &&& 31 = c.toNat % 32 := and_eq c.toNat 5
    refine ⟨_, _, concat_eq (concat_eq hret ?_) ?_, (hfeed.emit (r := 5)).emit (r := 0),
      fun hne => absurd rfl hne, (by decide : 0 < 5)⟩
    · rw [hl, Nat.shiftRight_eq_div_pow, or_eq (by omega)]
      omega
    · rw [hmask]
      omega

/-- What one byte keeps, all of them keep. -/
lemma Encoding.foldl {step : Coding → UInt8 → Coding} (hstep : ∀ {v s},
    Encoding k pbase bits v s → ∀ c, Encoding k pbase bits (v ++ [c]) (step s c))
    (hstart : bits.head? = some 0) (v : Bytes) :
    Encoding k pbase bits v (v.foldl step Coding.start) := by
  induction v using List.reverseRecOn with
  | nil => exact Encoding.start k pbase hstart
  | append_singleton v c ih =>
    rw [List.foldl_append]
    exact hstep ih c

/-- The characters of padding for the bits that have been added. -/
def eqs64 (pad : ℕ) : ℕ := [0, 0, 1, 0, 2].getD pad 0

/-- The characters of padding for the bits that have been added. -/
def eqs32 (pad : ℕ) : ℕ := [0, 3, 6, 1, 4].getD pad 0

lemma writes_encodeBase64 (v : Bytes) : Writes 6 pbase64 eqs64 v (encodeBase64 v) := by
  obtain ⟨ds, pend, hret, hregrouped, hleft, hmode⟩ :=
    Encoding.foldl (fun h c => Encoding.encode64 h c) rfl v
  unfold encodeBase64
  generalize v.foldl BaseCode.encode64 Coding.start = s at hret hregrouped hleft hmode
  obtain ⟨ret, mode, left⟩ := s
  have hcases : mode = 0 ∨ mode = 1 ∨ mode = 2 := by
    have hlt : mode < 3 := hmode
    omega
  rcases hcases with rfl | rfl | rfl
  · exact ⟨ds, 0, hret.trans (List.append_nil _).symm, hregrouped.symm, by decide⟩
  · have hl : left = pend * 2 ^ 4 := hleft (Nat.succ_ne_zero _)
    refine ⟨_, 4, ?_, hregrouped.flush (by decide : 2 ≤ 6), by decide⟩
    exact (List.append_assoc _ [61] [61]).trans (congrArg (· ++ [61, 61]) (concat_eq hret hl))
  · have hl : left = pend * 2 ^ 2 := hleft (Nat.succ_ne_zero _)
    refine ⟨_, 2, ?_, hregrouped.flush (by decide : 4 ≤ 6), by decide⟩
    exact (List.append_nil _).trans (congrArg (· ++ [61]) (concat_eq hret hl))

lemma writes_encodeBase32 (v : Bytes) : Writes 5 pbase32 eqs32 v (encodeBase32 v) := by
  obtain ⟨ds, pend, hret, hregrouped, hleft, hmode⟩ :=
    Encoding.foldl (fun h c => Encoding.encode32 h c) rfl v
  unfold encodeBase32
  generalize v.foldl BaseCode.encode32 Coding.start = s at hret hregrouped hleft hmode
  obtain ⟨ret, mode, left⟩ := s
  have hcases : mode = 0 ∨ mode = 1 ∨ mode = 2 ∨ mode = 3 ∨ mode = 4 := by
    have hlt : mode < 5 := hmode
    omega
  rcases hcases with rfl | rfl | rfl | rfl | rfl
  · exact ⟨ds, 0, hret.trans (List.append_nil _).symm, hregrouped.symm, by decide⟩
  · have hl : left = pend * 2 ^ 2 := hleft (Nat.succ_ne_zero _)
    exact ⟨_, 2, congrArg (· ++ List.replicate 6 61) (concat_eq hret hl),
      hregrouped.flush (by decide : 3 ≤ 5), by decide⟩
  · have hl : left = pend * 2 ^ 4 := hleft (Nat.succ_ne_zero _)
    exact ⟨_, 4, congrArg (· ++ List.replicate 4 61) (concat_eq hret hl),
      hregrouped.flush (by decide : 1 ≤ 5), by decide⟩
  · have hl : left = pend * 2 ^ 1 := hleft (Nat.succ_ne_zero _)
    exact ⟨_, 1, congrArg (· ++ List.replicate 3 61) (concat_eq hret hl),
      hregrouped.flush (by decide : 4 ≤ 5), by decide⟩
  · have hl : left = pend * 2 ^ 3 := hleft (Nat.succ_ne_zero _)
    exact ⟨_, 3, congrArg (· ++ List.replicate 1 61) (concat_eq hret hl),
      hregrouped.flush (by decide : 2 ≤ 5), by decide⟩

/-! ## The decoders -/

/-- A decoder has given bytes; in the modes that are not the first one `left` has the pending
bits. -/
def Decoding (k : ℕ) (bits : List ℕ) (ds : List ℕ) (s : Coding) : Prop :=
  ∃ left, Regrouped k 8 ds (s.ret.map UInt8.toNat) (bits.getD s.mode 0) left ∧
    (s.mode ≠ 0 → s.left = left) ∧ s.mode < bits.length

lemma emit_byte {k r left : ℕ} {ret : Bytes}
    (h : Regrouped k 8 ds (ret.map UInt8.toNat) (8 + r) left) (hx : x = left / 2 ^ r) :
    Regrouped k 8 ds ((ret ++ [UInt8.ofNat x]).map UInt8.toNat) r (left % 2 ^ r) := by
  have hemit := h.emit
  have hlt : x < 256 := by
    rw [hx]
    exact hemit.given _ (List.mem_append_right _ (List.mem_singleton_self _))
  rwa [List.map_append, List.map_singleton, UInt8.toNat_ofNat_of_lt' hlt, hx]

/-- A turn that gives a byte, of the pending bits and the first ones of a number, and keeps the last
ones. -/
lemma Decoding.emit {r i left d mode : ℕ} {ret : Bytes}
    (h : Regrouped k 8 ds (ret.map UInt8.toNat) (8 + r) (left * 2 ^ (i + r) + d))
    (hd : d < 2 ^ (i + r)) (hr : bits.getD mode 0 = r) (hmode : mode < bits.length) :
    Decoding k bits ds ⟨ret ++ [UInt8.ofNat (left <<< i ||| d >>> r)], mode, d &&& (2 ^ r - 1)⟩ := by
  have hpos := Nat.two_pow_pos r
  have hhigh : d / 2 ^ r < 2 ^ i := Nat.div_lt_of_lt_mul (by rwa [← pow_add, add_comm])
  have hsplit : left * 2 ^ (i + r) + d = d + left * 2 ^ i * 2 ^ r := by
    rw [pow_add, ← mul_assoc, add_comm]
  subst hr
  refine ⟨_, emit_byte h ?_, fun _ => ?_, hmode⟩
  · rw [Nat.shiftLeft_eq, Nat.shiftRight_eq_div_pow, or_eq hhigh, hsplit,
      Nat.add_mul_div_right _ _ hpos, add_comm]
  · rw [and_eq, hsplit, Nat.add_mul_mod_self_right]

/-- The bits that are pending in each mode of `DecodeBase64`. -/
def kept64 : List ℕ := [0, 6, 4, 2]

lemma Decoding.decode64 {d : ℕ} (h : Decoding 6 kept64 ds s) (hd : d < 2 ^ 6) :
    Decoding 6 kept64 (ds ++ [d]) (decode64 s d) := by
  obtain ⟨pend, hregrouped, hleft, hmode⟩ := h
  obtain ⟨ret, mode, left⟩ := s
  have hfeed := hregrouped.feed hd
  have hpend := hregrouped.pending
  have hcases : mode = 0 ∨ mode = 1 ∨ mode = 2 ∨ mode = 3 := by
    have hlt : mode < 4 := hmode
    omega
  rcases hcases with rfl | rfl | rfl | rfl
  · have hzero : pend < 1 := hpend
    refine ⟨_, hfeed, fun _ => ?_, (by decide : 1 < 4)⟩
    change d = pend * 2 ^ 6 + d
    omega
  · obtain rfl : left = pend := hleft (Nat.succ_ne_zero _)
    exact .emit (r := 4) (i := 2) hfeed hd rfl (by decide)
  · obtain rfl : left = pend := hleft (Nat.succ_ne_zero _)
    exact .emit (r := 2) (i := 4) hfeed hd rfl (by decide)
  · have hl : left = pend := hleft (Nat.succ_ne_zero _)
    refine ⟨_, emit_byte (r := 0) hfeed ?_, fun hne => absurd rfl hne, (by decide : 0 < 4)⟩
    dsimp only
    rw [hl, Nat.shiftLeft_eq, or_eq hd]
    omega

/-- The bits that are pending in each mode of `DecodeBase32`. -/
def kept32 : List ℕ := [0, 5, 2, 7, 4, 1, 6, 3]

lemma Decoding.decode32 {d : ℕ} (h : Decoding 5 kept32 ds s) (hd : d < 2 ^ 5) :
    Decoding 5 kept32 (ds ++ [d]) (decode32 s d) := by
  obtain ⟨pend, hregrouped, hleft, hmode⟩ := h
  obtain ⟨ret, mode, left⟩ := s
  have hfeed := hregrouped.feed hd
  have hpend := hregrouped.pending
  have hcases : mode = 0 ∨ mode = 1 ∨ mode = 2 ∨ mode = 3 ∨ mode = 4 ∨ mode = 5 ∨ mode = 6 ∨
      mode = 7 := by
    have hlt : mode < 8 := hmode
    omega
  rcases hcases with rfl | rfl | rfl | rfl | rfl | rfl | rfl | rfl
  · have hzero : pend < 1 := hpend
    refine ⟨_, hfeed, fun _ => ?_, (by decide : 1 < 8)⟩
    change d = pend * 2 ^ 5 + d
    omega
  · obtain rfl : left = pend := hleft (Nat.succ_ne_zero _)
    exact .emit (r := 2) (i := 3) hfeed hd rfl (by decide)
  · have hl : left = pend := hleft (Nat.succ_ne_zero _)
    refine ⟨_, hfeed, fun _ => ?_, (by decide : 3 < 8)⟩
    change left <<< 5 ||| d = pend * 2 ^ 5 + d
    rw [hl, Nat.shiftLeft_eq, or_eq hd]
  · obtain rfl : left = pend := hleft (Nat.succ_ne_zero _)
    exact .emit (r := 4) (i := 1) hfeed hd rfl (by decide)
  · obtain rfl : left = pend := hleft (Nat.succ_ne_zero _)
    exact .emit (r := 1) (i := 4) hfeed hd rfl (by decide)
  · have hl : left = pend := hleft (Nat.succ_ne_zero _)
    refine ⟨_, hfeed, fun _ => ?_, (by decide : 6 < 8)⟩
    change left <<< 5 ||| d = pend * 2 ^ 5 + d
    rw [hl, Nat.shiftLeft_eq, or_eq hd]
  · obtain rfl : left = pend := hleft (Nat.succ_ne_zero _)
    exact .emit (r := 3) (i := 2) hfeed hd rfl (by decide)
  · have hl : left = pend := hleft (Nat.succ_ne_zero _)
    refine ⟨_, emit_byte (r := 0) hfeed ?_, fun hne => absurd rfl hne, (by decide : 0 < 8)⟩
    dsimp only
    rw [hl, Nat.shiftLeft_eq, or_eq hd]
    omega

/-- What one character keeps, all of them keep. -/
lemma Decoding.foldl {step : Coding → ℕ → Coding} (hstep : ∀ {ds s d}, Decoding k bits ds
    s → d < 2 ^ k → Decoding k bits (ds ++ [d]) (step s d)) (hstart : bits.head? = some 0)
    (h : ∀ d ∈ ds, d < 2 ^ k) : Decoding k bits ds (ds.foldl step Coding.start) := by
  induction ds using List.reverseRecOn with
  | nil =>
    obtain ⟨rest, rfl⟩ := List.head?_eq_some_iff.mp hstart
    exact ⟨0, Regrouped.nil k 8, fun hne => absurd rfl hne, Nat.succ_pos _⟩
  | append_singleton ds d ih =>
    rw [List.foldl_append]
    obtain ⟨hds, hd⟩ := List.forall_mem_append.mp h
    exact hstep (ih hds) (hd d (List.mem_singleton_self d))

lemma Alphabet.digit_lt (h : Alphabet k pbase table norm) {cs : Bytes}
    (hcs : ∀ c ∈ cs, table.getD c.toNat (-1) ≠ -1) : ∀ d ∈ cs.map (digit table), d < 2 ^ k := by
  intro d hd
  obtain ⟨c, hc, rfl⟩ := List.mem_map.mp hd
  have hlt := (h.write c (hcs c hc)).2
  have hpos := Nat.two_pow_pos k
  rw [digit]
  have hcast : ((2 ^ k : ℕ) : ℤ) = 2 ^ k := by push_cast; rfl
  omega

lemma reads_decodeBase64 (p : Bytes) :
    Reads 6 decode64_table eqs64 p (decodeBase64 p).1 (decodeBase64 p).2 := by
  intro cs rest hp hcs hrest
  obtain ⟨left, hregrouped, hleft, hmode⟩ :=
    Decoding.foldl (fun h => Decoding.decode64 h) rfl (alphabet64.digit_lt hcs)
  rw [decodeBase64, hp, decodeLoop_append hcs hrest]
  generalize (cs.map (digit decode64_table)).foldl BaseCode.decode64 Coding.start = s
    at hregrouped hleft hmode
  obtain ⟨ret, mode, left'⟩ := s
  have hcases : mode = 0 ∨ mode = 1 ∨ mode = 2 ∨ mode = 3 := by
    have hlt : mode < 4 := hmode
    omega
  have hpend := hregrouped.pending
  rcases hcases with rfl | rfl | rfl | rfl
  · have hzero : left = 0 := Nat.lt_one_iff.mp hpend
    exact ⟨0, left, hregrouped, by decide,
      iff_of_true rfl ⟨hzero, by decide, rest, rfl, hrest⟩⟩
  · exact ⟨6, left, hregrouped, by decide,
      iff_of_false Bool.noConfusion fun h => absurd h.2.1 (by decide)⟩
  · cases hleft (Nat.succ_ne_zero _)
    refine ⟨4, left', hregrouped, by decide, ?_⟩
    exact (lacksPadding_eq_false rfl 2 _ rest).trans
      (and_congr_right fun _ => (and_iff_right (by decide)).symm)
  · cases hleft (Nat.succ_ne_zero _)
    refine ⟨2, left', hregrouped, by decide, ?_⟩
    exact (lacksPadding_eq_false rfl 1 _ rest).trans
      (and_congr_right fun _ => (and_iff_right (by decide)).symm)

lemma reads_decodeBase32 (p : Bytes) :
    Reads 5 decode32_table eqs32 p (decodeBase32 p).1 (decodeBase32 p).2 := by
  intro cs rest hp hcs hrest
  obtain ⟨left, hregrouped, hleft, hmode⟩ :=
    Decoding.foldl (fun h => Decoding.decode32 h) rfl (alphabet32.digit_lt hcs)
  rw [decodeBase32, hp, decodeLoop_append hcs hrest]
  generalize (cs.map (digit decode32_table)).foldl BaseCode.decode32 Coding.start = s
    at hregrouped hleft hmode
  obtain ⟨ret, mode, left'⟩ := s
  have hcases : mode = 0 ∨ mode = 1 ∨ mode = 2 ∨ mode = 3 ∨ mode = 4 ∨ mode = 5 ∨ mode = 6 ∨
      mode = 7 := by
    have hlt : mode < 8 := hmode
    omega
  have hpend := hregrouped.pending
  rcases hcases with rfl | rfl | rfl | rfl | rfl | rfl | rfl | rfl
  · have hzero : left = 0 := Nat.lt_one_iff.mp hpend
    exact ⟨0, left, hregrouped, by decide,
      iff_of_true rfl ⟨hzero, by decide, rest, rfl, hrest⟩⟩
  · exact ⟨5, left, hregrouped, by decide,
      iff_of_false Bool.noConfusion fun h => absurd h.2.1 (by decide)⟩
  · cases hleft (Nat.succ_ne_zero _)
    refine ⟨2, left', hregrouped, by decide, ?_⟩
    exact (lacksPadding_eq_false rfl 6 _ rest).trans
      (and_congr_right fun _ => (and_iff_right (by decide)).symm)
  · exact ⟨7, left, hregrouped, by decide,
      iff_of_false Bool.noConfusion fun h => absurd h.2.1 (by decide)⟩
  · cases hleft (Nat.succ_ne_zero _)
    refine ⟨4, left', hregrouped, by decide, ?_⟩
    exact (lacksPadding_eq_false rfl 4 _ rest).trans
      (and_congr_right fun _ => (and_iff_right (by decide)).symm)
  · cases hleft (Nat.succ_ne_zero _)
    refine ⟨1, left', hregrouped, by decide, ?_⟩
    exact (lacksPadding_eq_false rfl 3 _ rest).trans
      (and_congr_right fun _ => (and_iff_right (by decide)).symm)
  · exact ⟨6, left, hregrouped, by decide,
      iff_of_false Bool.noConfusion fun h => absurd h.2.1 (by decide)⟩
  · cases hleft (Nat.succ_ne_zero _)
    refine ⟨3, left', hregrouped, by decide, ?_⟩
    exact (lacksPadding_eq_false rfl 1 _ rest).trans
      (and_congr_right fun _ => (and_iff_right (by decide)).symm)

/-! ## Both directions -/

section RoundTrips

variable {k : ℕ} {pbase : Bytes} {table : List ℤ} {norm : UInt8 → UInt8} {eqs : ℕ → ℕ}
  {encode : Bytes → Bytes} {decode : Bytes → Bytes × Bool} {v str p : Bytes}

/-- An encoding has lower case letters already. -/
lemma Writes.map_norm (halphabet : Alphabet k pbase table norm) (h : Writes k pbase eqs v str) :
    str.map norm = str := by
  obtain ⟨ds, pad, rfl, hregrouped, -⟩ := h
  have hnorm : norm 61 = 61 := (halphabet.norm_eq 61).1.mpr rfl
  rw [List.map_append, List.map_replicate, hnorm, List.map_map]
  refine congrArg (· ++ _) (List.map_congr_left fun d hd => ?_)
  exact (halphabet.read d (hregrouped.taken d hd)).2

section

variable (halphabet : Alphabet k pbase table norm) (hk : k ≤ 8)
  (hwrites : ∀ v, Writes k pbase eqs v (encode v))
  (hreads : ∀ p, Reads k table eqs p (decode p).1 (decode p).2)

include halphabet hk hwrites hreads

lemma decode_encode (v : Bytes) : decode (encode v) = (v, false) := by
  have hstr : Writes k pbase eqs v ((encode v).map norm) := by
    rw [(hwrites v).map_norm halphabet]
    exact hwrites v
  have hread := hreads (encode v)
  rw [← List.append_nil (encode v)] at hread
  obtain ⟨hv, hvalid⟩ := hread.of_writes halphabet hk hstr fun c hc => absurd hc (by simp)
  rw [List.append_nil] at hv hvalid
  exact Prod.ext hv hvalid

lemma decode_iff (p : Bytes) :
    (decode p).2 = false ↔ ∃ str rest, p = str ++ rest ∧ str.map norm = encode (decode p).1 ∧
      ∀ c ∈ rest.head?, norm c ∉ pbase := by
  constructor
  · intro hvalid
    have hread := hreads p
    rw [hvalid] at hread
    obtain ⟨str, rest, hp, hstr, hrest⟩ := hread.writes halphabet (hwrites _)
    exact ⟨str, rest, hp, hstr, fun c hc => (halphabet.stop c).mp (hrest c hc)⟩
  · rintro ⟨str, rest, hp, hstr, hrest⟩
    have hwritten : Writes k pbase eqs (decode p).1 (str.map norm) := by
      rw [hstr]
      exact hwrites _
    have hread := hreads p
    rw [hp] at hread
    rw [hp] at hwritten
    rw [hp]
    exact (hread.of_writes halphabet hk hwritten
      fun c hc => (halphabet.stop c).mpr (hrest c hc)).2

end

end RoundTrips

/-- What is encoded is decoded again without an error.  No error is reported exactly for an encoding
of what is decoded, in Base32 up to the case of its letters, with anything behind it that does not
start with a character of the alphabet. -/
theorem decode_spec :
    (∀ v, decodeBase64 (encodeBase64 v) = (v, false)) ∧
    (∀ p, (decodeBase64 p).2 = false ↔ ∃ rest, p = encodeBase64 (decodeBase64 p).1 ++ rest ∧
      ∀ c ∈ rest.head?, c ∉ pbase64) ∧
    (∀ v, decodeBase32 (encodeBase32 v) = (v, false)) ∧
    ∀ p, (decodeBase32 p).2 = false ↔ ∃ str rest, p = str ++ rest ∧
      str.map toLower = encodeBase32 (decodeBase32 p).1 ∧
      ∀ c ∈ rest.head?, toLower c ∉ pbase32 := by
  refine ⟨decode_encode alphabet64 (by decide) writes_encodeBase64 reads_decodeBase64, fun p => ?_,
    decode_encode alphabet32 (by decide) writes_encodeBase32 reads_decodeBase32,
    decode_iff alphabet32 (by decide) writes_encodeBase32 reads_decodeBase32⟩
  rw [decode_iff alphabet64 (by decide) writes_encodeBase64 reads_decodeBase64 p]
  constructor
  · rintro ⟨str, rest, hp, hstr, hrest⟩
    rw [List.map_id] at hstr
    exact ⟨rest, by rw [← hstr]; exact hp, hrest⟩
  · rintro ⟨rest, hp, hrest⟩
    exact ⟨_, rest, hp, List.map_id _, hrest⟩

/-- An exclamation mark behind an encoding is not reported, and upper case letters are not
either. -/
theorem not_decode_spec :
    (¬ ∀ p, (decodeBase64 p).2 = false → encodeBase64 (decodeBase64 p).1 = p) ∧
    ¬ ∀ p, (decodeBase32 p).2 = false → encodeBase32 (decodeBase32 p).1 = p :=
  ⟨fun hall => absurd (hall (text "QUJD!") (by decide +kernel)) (by decide +kernel),
    fun hall => absurd (hall (text "MY======") (by decide +kernel)) (by decide +kernel)⟩

end HyperStake.BaseCode
