import HyperStake.Library.NumberedRecords
import HyperStake.Script.Standard

/-!
# The RPC multisend

The RPC `multisend` edits the list of MultiSend entries, addresses with percentages of the stake
reward, turns MultiSend on and off, and keeps a list of disabled addresses.  What it changes it also
changes in the wallet database, where the entries and the disabled addresses are numbered records.

The commands keep the percentages between one and a hundred in all (`ValidEntries`), except that
`delete` does not look at the number it is given.  What is loaded from the database is what is in
memory, except that `clear` turns MultiSend off in memory only (`Persisted`).
-/

namespace HyperStake

open NumberedRecords

/-! ## Numbers in a text -/

/-- The number that some digits are, without a sign. -/
def digitsValue (cs : List Char) : Option ℕ :=
  if cs = [] ∨ ¬ cs.all Char.isDigit then none
  else some (cs.foldl (fun n c => 10 * n + (c.toNat - 48)) 0)

/-- `boost::lexical_cast<int>`, none if it throws. -/
def lexicalCastInt (s : String) : Option Int32 :=
  match s.toList with
  | '-' :: cs => (digitsValue cs).bind fun n =>
      if n ≤ 2 ^ 31 then some (Int32.ofInt (-n)) else none
  | '+' :: cs => (digitsValue cs).bind fun n => if n < 2 ^ 31 then some (Int32.ofInt n) else none
  | cs => (digitsValue cs).bind fun n => if n < 2 ^ 31 then some (Int32.ofInt n) else none

/-- `boost::lexical_cast<unsigned int>`, none if it throws; a number with a minus sign is negated. -/
def lexicalCastUnsigned (s : String) : Option UInt32 :=
  match s.toList with
  | '-' :: cs => (digitsValue cs).bind fun n =>
      if n < 2 ^ 32 then some (-UInt32.ofNat n) else none
  | '+' :: cs => (digitsValue cs).bind fun n => if n < 2 ^ 32 then some (UInt32.ofNat n) else none
  | cs => (digitsValue cs).bind fun n => if n < 2 ^ 32 then some (UInt32.ofNat n) else none

/-- A number that is not negative as an `int` is the same as an `unsigned int`. -/
lemma lexicalCastUnsigned_lt {s : String} {n : Int32} {m : UInt32}
    (hint : lexicalCastInt s = some n) (hnonneg : ¬ n < 0)
    (hunsigned : lexicalCastUnsigned s = some m) : m.toNat < 2 ^ 31 := by
  have hsmall : ∀ k : ℕ, k < 2 ^ 31 → k < 2 ^ 32 → (UInt32.ofNat k).toNat < 2 ^ 31 := by
    intro k hk hlt
    rwa [UInt32.toNat_ofNat_of_lt' hlt]
  unfold lexicalCastInt at hint
  unfold lexicalCastUnsigned at hunsigned
  split at hint
  all_goals
    rename_i heq
    obtain ⟨k, hk, hint⟩ := Option.bind_eq_some_iff.mp hint
    obtain ⟨hle, hint⟩ := Option.ite_none_right_eq_some.mp hint
    obtain rfl := Option.some.inj hint
  · -- With a minus sign only zero is not negative.
    simp only [heq, hk, Option.bind_some] at hunsigned
    obtain ⟨-, hunsigned⟩ := Option.ite_none_right_eq_some.mp hunsigned
    obtain rfl := Option.some.inj hunsigned
    rw [Int32.lt_iff_toInt_lt, Int32.toInt_ofInt_of_le (by omega) (by omega)] at hnonneg
    obtain rfl : k = 0 := by
      have hzero : (0 : Int32).toInt = 0 := rfl
      omega
    decide
  · simp only [heq, hk, Option.bind_some] at hunsigned
    obtain ⟨hlt, hunsigned⟩ := Option.ite_none_right_eq_some.mp hunsigned
    obtain rfl := Option.some.inj hunsigned
    exact hsmall k hle hlt
  · split at hunsigned
    · simp_all
    · simp_all
    · rw [hk, Option.bind_some] at hunsigned
      obtain ⟨hlt, hunsigned⟩ := Option.ite_none_right_eq_some.mp hunsigned
      obtain rfl := Option.some.inj hunsigned
      exact hsmall k hle hlt

/-! ## The wallet and its records -/

/-- The numbered records in the order of the database, which compares the bytes of the numbers. -/
def recordKey (i : ℕ) : ℕ :=
  i % 2 ^ 8 * 2 ^ 24 + i / 2 ^ 8 % 2 ^ 8 * 2 ^ 16 + i / 2 ^ 16 % 2 ^ 8 * 2 ^ 8 + i / 2 ^ 24 % 2 ^ 8

/-- The records of MultiSend in the wallet database. -/
structure MultiSendDB where
  multisend : Std.ExtTreeMap ℕ (String × Int32) := ∅
  msettings : Option (Bool × Int32) := none
  mcoinstake : Option Bool := none
  mdisabled : Std.ExtTreeMap ℕ String := ∅

/-- The part of `CWallet` that is about MultiSend, and its records. -/
structure MultiSendWallet where
  vMultiSend : List (String × Int32) := []
  fMultiSend : Bool := false
  fMultiSendCoinStake : Bool := false
  nLastMultiSendHeight : Int32 := 0
  vDisabledAddresses : List String := []
  db : MultiSendDB := {}

/-- A call of the RPC: the parameters, where none is one that is not a string, the state of the wallet
that it does not change, and which operations on which records succeed. -/
structure MultiSendCall where
  params : List (Option String)
  fHelp : Bool := false
  isLocked : Bool := false
  fFileBacked : Bool := true
  writesMultiSend : ℕ → Bool := fun _ => true
  erasesMultiSend : ℕ → Bool := fun _ => true
  writesMSettings : Bool := true
  writesMCoinStake : Bool := true
  writesMDisabled : ℕ → Bool := fun _ => true
  erasesMDisabled : ℕ → Bool := fun _ => true

/-- What the RPC returns. -/
inductive MultiSendReply where
  | text (s : String)
  | printMultiSend
  | printAddresses
  deriving DecidableEq

/-- How the RPC ends without a result.  The codes of the errors are `RPC_INVALID_ADDRESS_OR_KEY`,
`RPC_INVALID_PARAMETER` and `RPC_WALLET_UNLOCK_NEEDED`. -/
inductive MultiSendExit where
  | jsonRPCError (code : ℤ) (message : String)
  | badLexicalCast
  | notAString
  | usage
  | fault (e : Fault)
  deriving DecidableEq

/-- The value of a parameter that has to be a string. -/
def getStr : Option String → Except MultiSendExit String
  | some s => .ok s
  | none => .error .notAString

namespace MultiSendCall

variable (call : MultiSendCall)

/-! ## The records -/

def eraseMultiSend (w : MultiSendWallet) : Bool × MultiSendWallet :=
  let r := eraseAll recordKey call.erasesMultiSend w.vMultiSend.length w.db.multisend
  (r.1, { w with db := { w.db with multisend := r.2 } })

def writeMultiSend (w : MultiSendWallet) : Bool × MultiSendWallet :=
  let r := writeAll recordKey call.writesMultiSend w.vMultiSend w.db.multisend
  (r.1, { w with db := { w.db with multisend := r.2 } })

def writeMSettings (fEnable : Bool) (w : MultiSendWallet) : Bool × MultiSendWallet :=
  if call.writesMSettings then
    (true, { w with db := { w.db with msettings := some (fEnable, w.nLastMultiSendHeight) } })
  else (false, w)

def writeMCoinStake (fMultiSendCoinStake : Bool) (w : MultiSendWallet) : Bool × MultiSendWallet :=
  if call.writesMCoinStake then
    (true, { w with db := { w.db with mcoinstake := some fMultiSendCoinStake } })
  else (false, w)

def eraseMSDisabledAddresses (w : MultiSendWallet) : Bool × MultiSendWallet :=
  let r := eraseAll recordKey call.erasesMDisabled w.vDisabledAddresses.length w.db.mdisabled
  (r.1, { w with db := { w.db with mdisabled := r.2 } })

def writeMSDisabledAddresses (w : MultiSendWallet) : Bool × MultiSendWallet :=
  let r := writeAll recordKey call.writesMDisabled w.vDisabledAddresses w.db.mdisabled
  (r.1, { w with db := { w.db with mdisabled := r.2 } })

/-! ## The commands -/

/-- `multisend clear`. -/
def clear (w : MultiSendWallet) : MultiSendReply × MultiSendWallet :=
  let (fErased, w) := if call.fFileBacked then call.eraseMultiSend w else (false, w)
  let strRet := if fErased then "erased MultiSend vector from database & " else ""
  (.text (strRet ++ "cleared MultiSend vector from RAM"),
    { w with vMultiSend := [], fMultiSend := false })

/-- `multisend enable`. -/
def enable (get : String → CTxDestination) (w : MultiSendWallet) :
    MultiSendReply × MultiSendWallet :=
  match w.vMultiSend with
  | [] => (.text "Unable to activate MultiSend, check MultiSend vector", w)
  | ms :: _ =>
    if get ms.1 ≠ .CNoDestination then
      let (fWritten, w) := call.writeMSettings true { w with fMultiSend := true }
      (.text (if fWritten then "MultiSend activated"
        else "MultiSend activated but writing settings to DB failed"), w)
    else (.text "Unable to activate MultiSend, check MultiSend vector", w)

/-- `multisend disable`. -/
def disable (w : MultiSendWallet) : MultiSendReply × MultiSendWallet :=
  let (fWritten, w) := call.writeMSettings false { w with fMultiSend := false }
  (.text (if fWritten then "MultiSend deactivated"
    else "MultiSend deactivated but writing settings to DB failed"), w)

/-- `multisend enableall`. -/
def enableall (w : MultiSendWallet) : MultiSendReply × MultiSendWallet :=
  let (fErased, w) := call.eraseMSDisabledAddresses w
  if fErased then
    (.text "all addresses will now send MultiSend transactions", { w with vDisabledAddresses := [] })
  else (.text "failed to clear old vector from walletDB", w)

/-- `multisend delete`.  The number is not checked: erasing outside of the vector is undefined. -/
def delete (del : Int32) (w : MultiSendWallet) :
    Except MultiSendExit (MultiSendReply × MultiSendWallet) :=
  let (fErased, w) := call.eraseMultiSend w
  if !fErased then .ok (.text "failed to delete old MultiSend vector from database", w)
  else if 0 ≤ del.toInt ∧ del.toInt < w.vMultiSend.length then
    let w := { w with vMultiSend := w.vMultiSend.eraseIdx del.toInt.toNat }
    let (fWritten, w) := call.writeMultiSend w
    .ok (if fWritten then .printMultiSend else .text "walletdb WriteMultiSend failed!", w)
  else .error (.fault .undefined)

/-- `multisend disable` with an address. -/
def disableAddress (get : String → CTxDestination) (disAddress : String) (w : MultiSendWallet) :
    MultiSendReply × MultiSendWallet :=
  if get disAddress = .CNoDestination then (.text "address you want to disable is not valid", w)
  else
    let w := { w with vDisabledAddresses := w.vDisabledAddresses ++ [disAddress] }
    let (fErased, w) := call.eraseMSDisabledAddresses w
    if !fErased then
      (.text "disabled address from sending, but failed to clear old vector from walletDB", w)
    else
      let (fWritten, w) := call.writeMSDisabledAddresses w
      (.text (if fWritten then "disabled address from sending MultiSend transactions"
        else "disabled address from sending, but failed to store it to walletDB"), w)

/-- `multisend coinstake`. -/
def coinstake (strCoinStake : String) (w : MultiSendWallet) : MultiSendReply × MultiSendWallet :=
  if strCoinStake = "true" then
    let (fWritten, w) := call.writeMCoinStake true { w with fMultiSendCoinStake := true }
    (.text (if fWritten then "MultiSend CoinStake enabled and saved to wallet DB"
      else "MultiSend CoinStake enabled but failed to save to wallet DB"), w)
  else if strCoinStake = "false" then
    let (fWritten, w) := call.writeMCoinStake false { w with fMultiSendCoinStake := false }
    (.text (if fWritten then "MultiSend CoinStake disabled and saved to wallet DB"
      else "MultiSend CoinStake edisabled but failed to save to wallet DB"), w)
  else (.text "Did not recognize parameter", w)

def sumMultiSend (w : MultiSendWallet) : UInt32 :=
  w.vMultiSend.foldl (fun sum ms => sum + ms.2.toUInt32) 0

/-- `multisend` with an address and a number that has been checked not to be negative. -/
def add (strAddress : String) (nPercent : UInt32) (w : MultiSendWallet) :
    MultiSendReply × MultiSendWallet :=
  if nPercent = 0 then (.text "Sending 0% of stake is not valid", w)
  else if nPercent + sumMultiSend w > 100 then
    (.text ("Failed to add to MultiSend vector, " ++
      "the sum of your MultiSend is greater than 100%"), w)
  else if w.vMultiSend.any fun ms => ms.1 == strAddress then
    (.text "Failed to add to MultiSend vector, cannot use the same address twice", w)
  else
    let w := if call.fFileBacked then (call.eraseMultiSend w).2 else w
    let w := { w with vMultiSend := w.vMultiSend ++ [(strAddress, nPercent.toInt32)] }
    if call.fFileBacked then
      let (fWritten, w) := call.writeMultiSend w
      (if fWritten then .printMultiSend else .text "walletdb WriteMultiSend failed!", w)
    else (.printMultiSend, w)

/-- The part of `multisend` for an address and a percentage. -/
def addEntry (get : String → CTxDestination) (strAddress strPercent : String)
    (w : MultiSendWallet) : Except MultiSendExit (MultiSendReply × MultiSendWallet) :=
  if get strAddress = .CNoDestination then
    .error (.jsonRPCError (-5) "Invalid HyperStake address")
  else
    match lexicalCastInt strPercent, lexicalCastUnsigned strPercent with
    | none, _ => .error .badLexicalCast
    | some n, percent =>
      if n < 0 then
        .error (.jsonRPCError (-8) "Invalid parameter, expected valid percentage")
      else if call.isLocked then
        .error (.jsonRPCError (-13)
          "Error: Please enter the wallet passphrase with walletpassphrase first.")
      else
        match percent with
        | none => .error .badLexicalCast
        | some nPercent => .ok (call.add strAddress nPercent w)

/-- The RPC `multisend`.  The destinations are those that `CBitcoinAddress::Get` gives, none for an
address that is not valid. -/
def multisend (get : String → CTxDestination) (w : MultiSendWallet) :
    Except MultiSendExit (MultiSendReply × MultiSendWallet) :=
  match call.params with
  | [param] => do
    let strCommand ← getStr param
    if strCommand = "print" then return (.printMultiSend, w)
    else if strCommand = "printaddress" ∨ strCommand = "printaddresses" then
      return (.printAddresses, w)
    else if strCommand = "clear" then return call.clear w
    else if strCommand = "enable" ∨ strCommand = "activate" then return call.enable get w
    else if strCommand = "disable" ∨ strCommand = "deactivate" then return call.disable w
    else if strCommand = "enableall" then return call.enableall w
    else .error .usage
  | [param₀, param₁] => do
    let strCommand ← getStr param₀
    if strCommand = "delete" then
      match lexicalCastInt (← getStr param₁) with
      | none => .error .badLexicalCast
      | some del => call.delete del w
    else if strCommand = "disable" then
      return call.disableAddress get (← getStr param₁) w
    else if strCommand = "coinstake" then return call.coinstake (← getStr param₁) w
    else if call.fHelp then .error .usage
    else call.addEntry get strCommand (← getStr param₁) w
  | _ => .error .usage

/-- The wallet after the RPC: an error leaves it as it is, a fault leaves none. -/
def after (get : String → CTxDestination) (w : MultiSendWallet) : Except Fault MultiSendWallet :=
  match call.multisend get w with
  | .ok (_, w') => .ok w'
  | .error (.fault e) => .error e
  | .error _ => .ok w

end MultiSendCall

/-! ## The entries of the vector -/

/-- Percentages of one and more, no more than a hundred in all. -/
structure Shares (v : List (String × Int32)) : Prop where
  percent_pos : ∀ ms ∈ v, 1 ≤ ms.2.toInt
  sum_le : (v.map fun ms => ms.2.toInt).sum ≤ 100

/-- Shares of addresses that all differ. -/
structure ValidEntries (get : String → CTxDestination) (v : List (String × Int32)) : Prop
    extends Shares v where
  nodup : (v.map fun ms => get ms.1).Nodup

variable {get : String → CTxDestination} {call : MultiSendCall} {w w' : MultiSendWallet}
  {v : List (String × Int32)} {strAddress : String} {nPercent : UInt32} {del : Int32}

lemma Shares.of_sublist {v' : List (String × Int32)} (h : Shares v) (hsub : v'.Sublist v) :
    Shares v' where
  percent_pos ms hms := h.percent_pos ms (hsub.subset hms)
  sum_le := by
    refine le_trans ?_ h.sum_le
    refine List.Sublist.sum_le_sum (hsub.map _) ?_
    intro n hn
    obtain ⟨ms, hms, rfl⟩ := List.mem_map.mp hn
    have hpos := h.percent_pos ms hms
    omega

lemma ValidEntries.of_sublist {v' : List (String × Int32)} (h : ValidEntries get v)
    (hsub : v'.Sublist v) : ValidEntries get v' where
  toShares := h.toShares.of_sublist hsub
  nodup := h.nodup.sublist (hsub.map _)

lemma shares_nil : Shares [] where
  percent_pos := by simp
  sum_le := by simp

lemma validEntries_nil : ValidEntries get [] where
  toShares := shares_nil
  nodup := by simp

/-- Each entry counts at least one percent, so that there are at most a hundred. -/
lemma Shares.length_le (h : Shares v) : v.length ≤ 100 := by
  have hle : (v.length : ℤ) ≤ (v.map fun ms => ms.2.toInt).sum := by
    have hcard := List.card_nsmul_le_sum (v.map fun ms => ms.2.toInt) 1 fun n hn => by
      obtain ⟨ms, hms, rfl⟩ := List.mem_map.mp hn
      exact h.percent_pos ms hms
    simpa using hcard
  have hsum := h.sum_le
  omega

/-- A sum of positive numbers that fits does not wrap. -/
lemma toNat_foldl_toUInt32 (hpos : ∀ ms ∈ v, 1 ≤ ms.2.toInt) (sum : UInt32)
    (hlt : sum.toNat + (v.map fun ms => ms.2.toInt).sum < 2 ^ 32) :
    ((v.foldl (fun sum ms => sum + ms.2.toUInt32) sum).toNat : ℤ)
      = sum.toNat + (v.map fun ms => ms.2.toInt).sum := by
  induction v generalizing sum with
  | nil => simp
  | cons ms v ih =>
    have hfirst : (ms.2.toUInt32.toNat : ℤ) = ms.2.toInt := by
      have hge := hpos ms List.mem_cons_self
      have hle : (0 : Int32) ≤ ms.2 := by
        rw [Int32.le_iff_toInt_le]
        have hzero : (0 : Int32).toInt = 0 := rfl
        omega
      rw [Int32.toNat_toUInt32_of_le hle, Int32.toNatClampNeg, Int.toNat_of_nonneg (by omega)]
    have hrest : 0 ≤ (v.map fun ms => ms.2.toInt).sum := by
      refine List.sum_nonneg fun n hn => ?_
      obtain ⟨ms', hms', rfl⟩ := List.mem_map.mp hn
      have hge := hpos ms' (List.mem_cons_of_mem ms hms')
      omega
    rw [List.map_cons, List.sum_cons] at hlt ⊢
    have hadd : (sum + ms.2.toUInt32).toNat = sum.toNat + ms.2.toUInt32.toNat := by
      rw [UInt32.toNat_add, Nat.mod_eq_of_lt]
      omega
    rw [List.foldl_cons, ih (fun ms' hms' => hpos ms' (List.mem_cons_of_mem ms hms')) _ (by omega)]
    omega

/-- The sum of valid percentages does not wrap. -/
lemma Shares.toNat_sumMultiSend (h : Shares w.vMultiSend) :
    ((MultiSendCall.sumMultiSend w).toNat : ℤ) = (w.vMultiSend.map fun ms => ms.2.toInt).sum := by
  have hsum := h.sum_le
  have hzero : (0 : UInt32).toNat = 0 := rfl
  rw [MultiSendCall.sumMultiSend, toNat_foldl_toUInt32 h.percent_pos 0 (by omega), hzero]
  omega

/-- A number that is not zero and, with the sum, not greater than a hundred. -/
lemma Shares.percent_add_le (h : Shares w.vMultiSend) (hlt : nPercent.toNat < 2 ^ 31)
    (hsum : ¬ nPercent + MultiSendCall.sumMultiSend w > 100) :
    nPercent.toInt32.toInt = nPercent.toNat ∧
      (nPercent.toNat : ℤ) + (w.vMultiSend.map fun ms => ms.2.toInt).sum ≤ 100 := by
  have hle := h.sum_le
  have hnat := h.toNat_sumMultiSend
  have hbits : nPercent.toInt32.toInt = nPercent.toNat := by
    rw [← Int32.toInt_toBitVec, UInt32.toBitVec_toInt32, BitVec.toInt_eq_toNat_of_lt,
      UInt32.toNat_toBitVec]
    rw [UInt32.toNat_toBitVec]
    omega
  have hadd := UInt32.toNat_add nPercent (MultiSendCall.sumMultiSend w)
  rw [Nat.mod_eq_of_lt (by omega)] at hadd
  rw [gt_iff_lt, UInt32.lt_iff_toNat_lt, hadd] at hsum
  have hhundred : (100 : UInt32).toNat = 100 := rfl
  refine ⟨hbits, ?_⟩
  omega

lemma Shares.append (h : Shares v) {n : Int32} (hpos : 1 ≤ n.toInt)
    (hsum : n.toInt + (v.map fun ms => ms.2.toInt).sum ≤ 100) : Shares (v ++ [(strAddress, n)]) where
  percent_pos ms hms := by
    rcases List.mem_append.mp hms with hms | hms
    · exact h.percent_pos ms hms
    · rw [List.mem_singleton.mp hms]
      exact hpos
  sum_le := by
    rw [List.map_append, List.sum_append, List.map_singleton, List.sum_singleton]
    dsimp only
    omega

/-- Adding a share keeps the entries valid if the address is not one of the vector. -/
lemma ValidEntries.append (h : ValidEntries get v) {n : Int32}
    (hshares : Shares (v ++ [(strAddress, n)])) (hnew : ∀ ms ∈ v, get ms.1 ≠ get strAddress) :
    ValidEntries get (v ++ [(strAddress, n)]) where
  toShares := hshares
  nodup := by
    rw [List.map_append, List.map_singleton, List.nodup_append]
    refine ⟨h.nodup, List.nodup_singleton _, ?_⟩
    intro d hd d' hd'
    obtain ⟨ms, hms, rfl⟩ := List.mem_map.mp hd
    rw [List.mem_singleton.mp hd']
    exact hnew ms hms

/-! ## What a call does -/

namespace MultiSendCall

/-- The call is to erase the entry of a number. -/
def Deletes (call : MultiSendCall) (del : Int32) : Prop :=
  ∃ strDel, call.params = [some "delete", some strDel] ∧ lexicalCastInt strDel = some del

/-- The call is to add an entry, and its address and its number are accepted. -/
def Adds (call : MultiSendCall) (get : String → CTxDestination) (strAddress : String)
    (nPercent : UInt32) : Prop :=
  ∃ strPercent n, call.params = [some strAddress, some strPercent] ∧
    strAddress ∉ ["delete", "disable", "coinstake"] ∧ call.fHelp = false ∧
    get strAddress ≠ .CNoDestination ∧ lexicalCastInt strPercent = some n ∧ ¬ n < 0 ∧
    call.isLocked = false ∧ lexicalCastUnsigned strPercent = some nPercent

/-- What comes of a call, by the command that it is. -/
inductive Outcome (call : MultiSendCall) (get : String → CTxDestination) (w : MultiSendWallet) :
    Except MultiSendExit (MultiSendReply × MultiSendWallet) → Prop
  | quits (e : MultiSendExit) (he : ∀ f, e ≠ .fault f) : Outcome call get w (.error e)
  | shows (reply : MultiSendReply) : Outcome call get w (.ok (reply, w))
  | clear (h : call.params = [some "clear"]) : Outcome call get w (.ok (call.clear w))
  | enable : Outcome call get w (.ok (call.enable get w))
  | disable : Outcome call get w (.ok (call.disable w))
  | enableall : Outcome call get w (.ok (call.enableall w))
  | delete (del : Int32) (h : call.Deletes del) : Outcome call get w (call.delete del w)
  | disableAddress (disAddress : String) (h : call.params = [some "disable", some disAddress]) :
    Outcome call get w (.ok (call.disableAddress get disAddress w))
  | coinstake (strCoinStake : String) : Outcome call get w (.ok (call.coinstake strCoinStake w))
  | add (strAddress : String) (nPercent : UInt32) (h : call.Adds get strAddress nPercent) :
    Outcome call get w (.ok (call.add strAddress nPercent w))

lemma multisend_eq_delete (h : call.Deletes del) : call.multisend get w = call.delete del w := by
  obtain ⟨strDel, hparams, hdel⟩ := h
  simp [multisend, hparams, getStr, hdel, bind, Except.bind]

lemma multisend_eq_add (h : call.Adds get strAddress nPercent) :
    call.multisend get w = .ok (call.add strAddress nPercent w) := by
  obtain ⟨strPercent, n, hparams, hname, hhelp, hvalid, hint, hnonneg, hlocked, hunsigned⟩ := h
  simp only [List.mem_cons, not_or, List.not_mem_nil, not_false_eq_true, and_true] at hname
  simp [multisend, hparams, getStr, hname, hhelp, addEntry, hvalid, hint, hnonneg, hlocked,
    hunsigned, bind, Except.bind]

/-- A call with one parameter. -/
lemma outcome_of_singleton {param : Option String} (hparams : call.params = [param]) :
    Outcome call get w (call.multisend get w) := by
  cases param with
  | none =>
    simp only [multisend, hparams, getStr, bind, Except.bind]
    exact .quits _ (by simp)
  | some strCommand =>
    simp only [multisend, hparams, getStr, bind, Except.bind, pure, Except.pure]
    split_ifs with hprint haddress hclear henable hdisable henableall
    · exact .shows _
    · exact .shows _
    · exact .clear (by rw [hparams, hclear])
    · exact .enable
    · exact .disable
    · exact .enableall
    · exact .quits _ (by simp)

/-- A call with two parameters that is no command. -/
lemma outcome_addEntry {strPercent : String}
    (hparams : call.params = [some strAddress, some strPercent])
    (hname : strAddress ∉ ["delete", "disable", "coinstake"]) (hhelp : call.fHelp = false) :
    Outcome call get w (call.addEntry get strAddress strPercent w) := by
  unfold addEntry
  by_cases hvalid : get strAddress = .CNoDestination
  · rw [if_pos hvalid]
    exact .quits _ (by simp)
  · rw [if_neg hvalid]
    cases hint : lexicalCastInt strPercent with
    | none => exact .quits _ (by simp)
    | some n =>
      dsimp only
      split_ifs with hnonneg hlocked
      · exact .quits _ (by simp)
      · exact .quits _ (by simp)
      · cases hunsigned : lexicalCastUnsigned strPercent with
        | none => exact .quits _ (by simp)
        | some nPercent =>
          exact .add strAddress nPercent ⟨strPercent, n, hparams, hname, hhelp, hvalid, hint, hnonneg,
            by simpa using hlocked, hunsigned⟩

/-- A call with two parameters. -/
lemma outcome_of_pair {param₀ param₁ : Option String} (hparams : call.params = [param₀, param₁]) :
    Outcome call get w (call.multisend get w) := by
  cases param₀ with
  | none =>
    simp only [multisend, hparams, getStr, bind, Except.bind]
    exact .quits _ (by simp)
  | some strCommand =>
    simp only [multisend, hparams, getStr, bind, Except.bind, pure, Except.pure]
    cases param₁ with
    | none =>
      split_ifs
      all_goals exact .quits _ (by simp)
    | some strSecond =>
      dsimp only
      split_ifs with hdelete hdisable hcoinstake hhelp
      · cases hdel : lexicalCastInt strSecond with
        | none => exact .quits _ (by simp)
        | some del => exact .delete del ⟨strSecond, by rw [hparams, hdelete], hdel⟩
      · exact .disableAddress strSecond (by rw [hparams, hdisable])
      · exact .coinstake strSecond
      · exact .quits _ (by simp)
      · exact outcome_addEntry hparams (by simp [hdelete, hdisable, hcoinstake]) (by simpa using hhelp)

lemma outcome_multisend : Outcome call get w (call.multisend get w) := by
  match hparams : call.params with
  | [] => simpa [multisend, hparams] using Outcome.quits _ (by simp)
  | [_] => exact outcome_of_singleton hparams
  | [_, _] => exact outcome_of_pair hparams
  | _ :: _ :: _ :: _ => simpa [multisend, hparams] using Outcome.quits _ (by simp)

/-! ## Every sequence of calls -/

@[simp] lemma vMultiSend_eraseMultiSend : (call.eraseMultiSend w).2.vMultiSend = w.vMultiSend := rfl

@[simp] lemma vMultiSend_writeMultiSend : (call.writeMultiSend w).2.vMultiSend = w.vMultiSend := rfl

@[simp] lemma vMultiSend_writeMSettings (fEnable : Bool) :
    (call.writeMSettings fEnable w).2.vMultiSend = w.vMultiSend := by
  unfold writeMSettings
  split_ifs <;> rfl

@[simp] lemma vMultiSend_writeMCoinStake (f : Bool) :
    (call.writeMCoinStake f w).2.vMultiSend = w.vMultiSend := by
  unfold writeMCoinStake
  split_ifs <;> rfl

lemma vMultiSend_clear : (call.clear w).2.vMultiSend = [] := by
  unfold clear
  split_ifs <;> rfl

lemma vMultiSend_enable : (call.enable get w).2.vMultiSend = w.vMultiSend := by
  unfold enable
  split
  · rfl
  · split_ifs <;> simp

lemma vMultiSend_disable : (call.disable w).2.vMultiSend = w.vMultiSend := by
  simp [disable]

@[simp] lemma vMultiSend_eraseMSDisabledAddresses :
    (call.eraseMSDisabledAddresses w).2.vMultiSend = w.vMultiSend := rfl

@[simp] lemma vMultiSend_writeMSDisabledAddresses :
    (call.writeMSDisabledAddresses w).2.vMultiSend = w.vMultiSend := rfl

lemma enableall_snd : (call.enableall w).2 = if (call.eraseMSDisabledAddresses w).1 then
    { (call.eraseMSDisabledAddresses w).2 with vDisabledAddresses := [] }
    else (call.eraseMSDisabledAddresses w).2 := by
  unfold enableall
  cases herased : call.eraseMSDisabledAddresses w with
  | mk fErased w₁ => cases fErased <;> rfl

lemma vMultiSend_enableall : (call.enableall w).2.vMultiSend = w.vMultiSend := by
  rw [enableall_snd]
  split_ifs <;> simp

lemma disableAddress_snd {disAddress : String} (hvalid : get disAddress ≠ .CNoDestination) :
    let w₀ := { w with vDisabledAddresses := w.vDisabledAddresses ++ [disAddress] }
    let r := call.eraseMSDisabledAddresses w₀
    (call.disableAddress get disAddress w).2
      = if r.1 then (call.writeMSDisabledAddresses r.2).2 else r.2 := by
  intro w₀ r
  unfold disableAddress
  rw [if_neg hvalid]
  change (if !r.1 then _ else _ : MultiSendReply × MultiSendWallet).2 = _
  cases r.1 <;> rfl

lemma vMultiSend_disableAddress (disAddress : String) :
    (call.disableAddress get disAddress w).2.vMultiSend = w.vMultiSend := by
  by_cases hvalid : get disAddress = .CNoDestination
  · simp [disableAddress, hvalid]
  · rw [disableAddress_snd hvalid]
    split_ifs <;> simp

lemma vMultiSend_coinstake (strCoinStake : String) :
    (call.coinstake strCoinStake w).2.vMultiSend = w.vMultiSend := by
  unfold coinstake
  split_ifs <;> simp

lemma delete_eq : call.delete del w = if (call.eraseMultiSend w).1 then
      if 0 ≤ del.toInt ∧ del.toInt < w.vMultiSend.length then
        let r := call.writeMultiSend { (call.eraseMultiSend w).2 with
          vMultiSend := w.vMultiSend.eraseIdx del.toInt.toNat }
        .ok (if r.1 then .printMultiSend else .text "walletdb WriteMultiSend failed!", r.2)
      else .error (.fault .undefined)
    else .ok (.text "failed to delete old MultiSend vector from database",
      (call.eraseMultiSend w).2) := by
  unfold delete
  have hvector : (call.eraseMultiSend w).2.vMultiSend = w.vMultiSend := rfl
  cases herased : call.eraseMultiSend w with
  | mk fErased w₁ =>
    rw [herased] at hvector
    rw [← hvector]
    cases fErased <;> rfl

/-- Erasing inside of the vector leaves the other entries. -/
lemma delete_of_lt (hdel : (call.eraseMultiSend w).1 = true →
      0 ≤ del.toInt ∧ del.toInt < w.vMultiSend.length) :
    ∃ r, call.delete del w = .ok r ∧ r.2.vMultiSend.Sublist w.vMultiSend := by
  rw [delete_eq]
  split_ifs with herased hlt
  · exact ⟨_, rfl, by simp [List.eraseIdx_sublist]⟩
  · exact absurd (hdel herased) hlt
  · exact ⟨_, rfl, by simp⟩

/-- The percentage or the address of a new entry is not accepted. -/
def Rejects (strAddress : String) (nPercent : UInt32) (w : MultiSendWallet) : Prop :=
  nPercent = 0 ∨ nPercent + sumMultiSend w > 100 ∨ ∃ ms ∈ w.vMultiSend, ms.1 = strAddress

lemma add_of_rejects (h : Rejects strAddress nPercent w) :
    (call.add strAddress nPercent w).2 = w := by
  unfold add
  split_ifs with hzero hsum hany hbacked
  · rfl
  · rfl
  · rfl
  all_goals
    refine absurd ?_ hany
    rcases h with h | h | ⟨ms, hms, h⟩
    · exact absurd h hzero
    · exact absurd h hsum
    · exact List.any_eq_true.mpr ⟨ms, hms, by simpa using h⟩

lemma add_of_not_rejects (h : ¬ Rejects strAddress nPercent w) :
    (call.add strAddress nPercent w).2 =
      if call.fFileBacked then (call.writeMultiSend { (call.eraseMultiSend w).2 with
        vMultiSend := w.vMultiSend ++ [(strAddress, nPercent.toInt32)] }).2
      else { w with vMultiSend := w.vMultiSend ++ [(strAddress, nPercent.toInt32)] } := by
  unfold add
  have hzero : ¬ nPercent = 0 := fun hzero => h (.inl hzero)
  have hsum : ¬ nPercent + sumMultiSend w > 100 := fun hsum => h (.inr (.inl hsum))
  have hany : ¬ (w.vMultiSend.any fun ms => ms.1 == strAddress) = true := by
    intro hany
    obtain ⟨ms, hms, heq⟩ := List.any_eq_true.mp hany
    exact h (.inr (.inr ⟨ms, hms, by simpa using heq⟩))
  rw [if_neg hzero, if_neg hsum, if_neg hany]
  cases call.fFileBacked <;> rfl

lemma vMultiSend_add_of_not_rejects (h : ¬ Rejects strAddress nPercent w) :
    (call.add strAddress nPercent w).2.vMultiSend
      = w.vMultiSend ++ [(strAddress, nPercent.toInt32)] := by
  rw [add_of_not_rejects h]
  split_ifs <;> rfl

/-- Adding an entry that is accepted. -/
lemma shares_append_of_adds (hw : Shares w.vMultiSend) (h : call.Adds get strAddress nPercent)
    (haccepts : ¬ Rejects strAddress nPercent w) :
    Shares (w.vMultiSend ++ [(strAddress, nPercent.toInt32)]) := by
  obtain ⟨strPercent, n, -, -, -, -, hint, hnonneg, -, hunsigned⟩ := h
  have hlt := lexicalCastUnsigned_lt hint hnonneg hunsigned
  obtain ⟨hbits, hle⟩ := hw.percent_add_le hlt fun hsum => haccepts (.inr (.inl hsum))
  have hzero : nPercent.toNat ≠ 0 := fun hzero => haccepts (.inl (UInt32.toNat_inj.mp hzero))
  exact hw.append (by omega) (by omega)

/-- An entry is erased only if there is one of that number, and the address of a new entry is not one
of the vector in another spelling. -/
structure Sound (call : MultiSendCall) (get : String → CTxDestination) (w : MultiSendWallet) :
    Prop where
  delete_lt : ∀ del, call.Deletes del → (call.eraseMultiSend w).1 = true →
    0 ≤ del.toInt ∧ del.toInt < w.vMultiSend.length
  add_new : ∀ strAddress nPercent, call.Adds get strAddress nPercent →
    ¬ Rejects strAddress nPercent w → ∀ ms ∈ w.vMultiSend, get ms.1 ≠ get strAddress

/-- One call keeps the entries valid exactly if it is sound. -/
lemma after_valid_iff (hw : ValidEntries get w.vMultiSend) :
    (∃ w', call.after get w = .ok w' ∧ ValidEntries get w'.vMultiSend) ↔ call.Sound get w := by
  constructor
  · rintro ⟨w', hafter, hvalid⟩
    refine ⟨fun del hdel herased => ?_, fun strAddress nPercent hadds haccepts ms hms heq => ?_⟩
    · by_contra hout
      rw [after, multisend_eq_delete hdel, delete_eq, if_pos herased, if_neg hout] at hafter
      cases hafter
    · -- The new entry has the destination of one that is there.
      rw [after, multisend_eq_add hadds] at hafter
      have hw' : (call.add strAddress nPercent w).2 = w' := Except.ok.inj hafter
      rw [← hw', vMultiSend_add_of_not_rejects haccepts] at hvalid
      have hnodup := hvalid.nodup
      rw [List.map_append, List.nodup_append] at hnodup
      exact hnodup.2.2 _ (List.mem_map_of_mem hms) _ (by simp) heq
  · intro hsound
    have hsame : ∀ r : MultiSendReply × MultiSendWallet, r.2.vMultiSend = w.vMultiSend →
        ValidEntries get r.2.vMultiSend := by
      intro r hr
      rw [hr]
      exact hw
    have houtcome : call.Outcome get w (call.multisend get w) := outcome_multisend
    unfold after
    generalize call.multisend get w = result at houtcome
    cases houtcome with
    | quits e he =>
      cases e with
      | fault f => exact absurd rfl (he f)
      | _ => exact ⟨w, rfl, hw⟩
    | shows reply => exact ⟨w, rfl, hw⟩
    | clear h =>
      refine ⟨(call.clear w).2, rfl, ?_⟩
      rw [vMultiSend_clear]
      exact validEntries_nil
    | enable => exact ⟨_, rfl, hsame _ vMultiSend_enable⟩
    | disable => exact ⟨_, rfl, hsame _ vMultiSend_disable⟩
    | enableall => exact ⟨_, rfl, hsame _ vMultiSend_enableall⟩
    | delete del h =>
      obtain ⟨r, hr, hsub⟩ := delete_of_lt (hsound.delete_lt del h)
      rw [hr]
      exact ⟨_, rfl, hw.of_sublist hsub⟩
    | disableAddress disAddress h => exact ⟨_, rfl, hsame _ (vMultiSend_disableAddress disAddress)⟩
    | coinstake strCoinStake => exact ⟨_, rfl, hsame _ (vMultiSend_coinstake strCoinStake)⟩
    | add strAddress nPercent h =>
      refine ⟨(call.add strAddress nPercent w).2, rfl, ?_⟩
      by_cases haccepts : Rejects strAddress nPercent w
      · rw [add_of_rejects haccepts]
        exact hw
      · rw [vMultiSend_add_of_not_rejects haccepts]
        have hshares := shares_append_of_adds hw.toShares h haccepts
        exact hw.append hshares (hsound.add_new strAddress nPercent h haccepts)

/-- Each call does not fault, and the entries are valid before and after it. -/
def KeepsValid (get : String → CTxDestination) : MultiSendWallet → List MultiSendCall → Prop
  | w, [] => ValidEntries get w.vMultiSend
  | w, call :: calls => ValidEntries get w.vMultiSend ∧
    ∃ w', call.after get w = .ok w' ∧ KeepsValid get w' calls

/-- Each call is sound for the wallet that it finds. -/
def AllSound (get : String → CTxDestination) : MultiSendWallet → List MultiSendCall → Prop
  | _, [] => True
  | w, call :: calls => call.Sound get w ∧ ∀ w', call.after get w = .ok w' → AllSound get w' calls

lemma KeepsValid.valid {calls : List MultiSendCall} (h : KeepsValid get w calls) :
    ValidEntries get w.vMultiSend := by
  cases calls with
  | nil => exact h
  | cons call calls => exact h.1

/-- The entries stay valid, and nothing outside of the vector is erased, exactly as long as each call
is sound. -/
theorem keepsValid_iff (hw : ValidEntries get w.vMultiSend) (calls : List MultiSendCall) :
    KeepsValid get w calls ↔ AllSound get w calls := by
  induction calls generalizing w with
  | nil => exact ⟨fun _ => trivial, fun _ => hw⟩
  | cons call calls ih =>
    constructor
    · rintro ⟨-, w', hafter, hrest⟩
      refine ⟨(after_valid_iff hw).mp ⟨w', hafter, hrest.valid⟩, fun w'' hafter' => ?_⟩
      obtain rfl := Except.ok.inj (hafter.symm.trans hafter')
      exact (ih hrest.valid).mp hrest
    · rintro ⟨hsound, hrest⟩
      obtain ⟨w', hafter, hvalid⟩ := (after_valid_iff hw).mpr hsound
      exact ⟨hw, w', hafter, (ih hvalid).mpr (hrest w' hafter)⟩

/-- Two addresses, a change of the list, and the entry that is left. -/
theorem keepsValid_iff_example :
    let get : String → CTxDestination := fun s =>
      if s = "a" then .CKeyID 1 else if s = "b" then .CKeyID 2 else .CNoDestination
    let w : MultiSendWallet := { vMultiSend := [("a", 40)] }
    let calls : List MultiSendCall := [{ params := [some "b", some "60"] },
      { params := [some "delete", some "0"] }]
    ValidEntries get w.vMultiSend ∧ (KeepsValid get w calls ↔ AllSound get w calls) := by
  intro get w calls
  have hw : ValidEntries get w.vMultiSend := ⟨⟨by decide, by decide⟩, by decide⟩
  exact ⟨hw, keepsValid_iff hw calls⟩

/-- An empty vector has no entry with the number zero, but the call erases it. -/
theorem not_keepsValid :
    ¬ ∀ (get : String → CTxDestination) (w : MultiSendWallet) (calls : List MultiSendCall),
      ValidEntries get w.vMultiSend → KeepsValid get w calls := by
  intro h
  obtain ⟨-, w', hafter, hrest⟩ := h (fun _ => .CNoDestination) {}
    [{ params := [some "delete", some "0"] }] validEntries_nil
  have hdel : MultiSendCall.Deletes { params := [some "delete", some "0"] } 0 :=
    ⟨"0", rfl, by decide⟩
  have hsound := (after_valid_iff validEntries_nil).mp ⟨w', hafter, hrest.valid⟩
  exact absurd (hsound.delete_lt 0 hdel rfl).2 (by decide)

end MultiSendCall

end HyperStake
