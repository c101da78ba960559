import HyperStake.Library.Int64Sum
import HyperStake.Library.Renumbering
import HyperStake.Wallet.SyncWithWallets
import Mathlib.Data.List.Sort

/-!
# The order of the transactions

`ReorderTransactions` gives order positions to the transactions of a wallet and the accounting entries
of its database that have none, and shifts the positions that there are.  The items are visited by
their time.

The positions keep their order, and the next one is above all of them.  They are distinct exactly
when the shift of a position never ends at one that has been given to an item without one: the loop
compares the old position with those, and not the shifted one (`reorderTransactions_iff`).  Only the
entries of the default account are visited.

What is written to the database of a transaction is left out, but for whether it is written.
-/

namespace HyperStake.WalletTx

/-- An internal transfer. -/
structure CAccountingEntry where
  strAccount : Bytes := []
  nCreditDebit : Int64 := 0
  nTime : Int64 := 0
  strOtherAccount : Bytes := []
  strComment : Bytes := []
  nOrderPos : Int64 := -1
  nEntryNo : UInt64 := 0
  deriving DecidableEq

/-- The key of an entry in the database, after its type. -/
def CAccountingEntry.ssKey (acentry : CAccountingEntry) : Bytes :=
  serializeString acentry.strAccount ++ serializeUInt64 acentry.nEntryNo

/-- What `ReorderTransactions` can return. -/
inductive DBErrors where
  | DB_LOAD_OK
  | DB_LOAD_FAIL
  deriving DecidableEq

/-- A wallet database: its accounting entries by their keys, and what succeeds. -/
structure CWalletDB where
  acentries : Std.ExtTreeMap Bytes CAccountingEntry := ∅
  key_eq : ∀ {ssKey : Bytes} {acentry : CAccountingEntry}, acentries[ssKey]? = some acentry →
    ssKey = acentry.ssKey := by simp
  /-- There is a cursor, and it reads the records. -/
  fScans : Bool
  /-- `WriteTx`. -/
  writesTx : CWalletTx → Bool
  /-- `WriteAccountingEntry`. -/
  writesAccountingEntry : CAccountingEntry → Bool

namespace CWalletDB

variable (db : CWalletDB)

/-- `ListAccountCreditDebit`: the cursor starts at the first key of an account, and the keys of an
account follow one another. -/
def listAccountCreditDebit (strAccount : Bytes) : Except Fault (List CAccountingEntry) :=
  let fAllAccounts := decide (strAccount = [42])
  if !db.fScans then .error .runtimeError
  else .ok ((db.acentries.toList.map Prod.snd).filter fun acentry =>
    fAllAccounts || decide (acentry.strAccount = strAccount))

/-- `WriteAccountingEntry`, under the number of the entry. -/
def writeAccountingEntry (acentry : CAccountingEntry) : Option CWalletDB :=
  if db.writesAccountingEntry acentry then
    some { db with
      acentries := db.acentries.insert acentry.ssKey acentry
      key_eq := by
        intro ssKey acentry' hget
        rw [MapLoop.getElem?_insert_eq] at hget
        split_ifs at hget with hkey
        · rw [← hkey, Option.some.inj hget]
        · exact db.key_eq hget }
  else none

end CWalletDB

/-- A pair of pointers one of which is not null: to a transaction of the wallet, or to an entry. -/
inductive TxPair where
  | pwtx (hash : UInt256)
  | pacentry (acentry : CAccountingEntry)

/-- The multimap of the items by their time, in which those of one time are in the order in which they
have been inserted. -/
def txByTime (pwallet : CWallet) (acentries : List CAccountingEntry) : List TxPair :=
  let items := (pwallet.mapWallet.toList.map fun it =>
      (Int64.ofNat it.2.nTimeReceived.toNat, TxPair.pwtx it.1)) ++
    acentries.map fun entry => (entry.nTime, TxPair.pacentry entry)
  (items.insertionSort fun a b => a.1 ≤ b.1).map Prod.snd

/-- An addition of signed integers: it is undefined what happens when it overflows. -/
def addInt64 (a b : Int64) : Except Fault Int64 :=
  if -2 ^ 63 ≤ a.toInt + b.toInt ∧ a.toInt + b.toInt < 2 ^ 63 then .ok (a + b)
  else .error .undefined

/-- What the loop of `ReorderTransactions` changes. -/
structure Reordering where
  pwallet : CWallet
  db : CWalletDB
  nOrderPosOffsets : List Int64 := []

namespace TxPair

/-- The order position of an item. -/
def nOrderPos (pwallet : CWallet) : TxPair → Except Fault Int64
  | pwtx hash =>
    match pwallet.mapWallet[hash]? with
    | none => .error .undefined
    | some wtx => .ok wtx.nOrderPos
  | pacentry acentry => .ok acentry.nOrderPos

/-- The pointer to an entry is not null. -/
def isEntry : TxPair → Bool
  | pwtx _ => false
  | pacentry _ => true

end TxPair

namespace Reordering

variable (st : Reordering)

/-- Give an item its position, and write it back if it is to be: whether the loop goes on. -/
def place (nOrderPos : Int64) (fWrite : Bool) : TxPair → Except Fault (Bool × Reordering)
  | .pwtx hash =>
    match st.pwallet.mapWallet[hash]? with
    | none => .error .undefined
    | some wtx =>
      let wtx := { wtx with nOrderPos }
      .ok (!fWrite || st.db.writesTx wtx, { st with pwallet := st.pwallet.put hash wtx })
  | .pacentry acentry =>
    if !fWrite then .ok (true, st)
    else
      match st.db.writeAccountingEntry { acentry with nOrderPos } with
      | none => .ok (false, st)
      | some db => .ok (true, { st with db })

/-- A round of the loop. -/
def reorder (it : TxPair) : Except Fault (Bool × Reordering) :=
  (it.nOrderPos st.pwallet).bind fun nOrderPos =>
    if nOrderPos = -1 then
      let nOrderPos := st.pwallet.nOrderPosNext
      (addInt64 nOrderPos 1).bind fun nOrderPosNext =>
        -- have to write accounting regardless, since it is not kept in memory
        Reordering.place
          { st with
            pwallet := { st.pwallet with nOrderPosNext }
            nOrderPosOffsets := st.nOrderPosOffsets ++ [nOrderPos] } nOrderPos it.isEntry it
    else
      let nOrderPosOff := st.nOrderPosOffsets.foldl (fun nOrderPosOff nOffsetStart =>
        if nOrderPos ≥ nOffsetStart then nOrderPosOff + 1 else nOrderPosOff) (0 : Int64)
      (addInt64 nOrderPos nOrderPosOff).bind fun nOrderPos =>
        (addInt64 nOrderPos 1).bind fun nOrderPosEnd =>
          Reordering.place
            { st with
              pwallet := { st.pwallet with
                nOrderPosNext := max st.pwallet.nOrderPosNext nOrderPosEnd } }
            nOrderPos (decide (nOrderPosOff ≠ 0)) it

/-- The loop. -/
def reorderAll : Reordering → List TxPair → Except Fault (DBErrors × Reordering)
  | st, [] => .ok (.DB_LOAD_OK, st)
  | st, it :: items => (st.reorder it).bind fun (fGoesOn, st) =>
    if fGoesOn then reorderAll st items else .ok (.DB_LOAD_FAIL, st)

end Reordering

def CWalletDB.reorderTransactions (db : CWalletDB) (pwallet : CWallet) :
    Except Fault (DBErrors × Reordering) :=
  (db.listAccountCreditDebit []).bind fun acentries =>
    Reordering.reorderAll { pwallet := { pwallet with nOrderPosNext := 0 }, db }
      (txByTime pwallet acentries)

/-! ## The positions of the items -/

/-- A transaction of the wallet, or an accounting entry of the database, by its key. -/
abbrev OrderItem := UInt256 ⊕ Bytes

/-- The order position of an item, if there is such an item. -/
def orderPos (pwallet : CWallet) (db : CWalletDB) : OrderItem → Option Int64
  | .inl hash => pwallet.mapWallet[hash]?.map CWalletTx.nOrderPos
  | .inr ssKey => db.acentries[ssKey]?.map CAccountingEntry.nOrderPos

/-- The item that a pointer is to. -/
def TxPair.item : TxPair → OrderItem
  | pwtx hash => .inl hash
  | pacentry acentry => .inr acentry.ssKey

/-- The positions that have been assigned are distinct. -/
def AssignedDistinct (pwallet : CWallet) (db : CWalletDB) : Prop :=
  ∀ i j p, orderPos pwallet db i = some p → orderPos pwallet db j = some p → p ≠ -1 → i = j

/-- What reordering is to do to the positions: there are the same items, with distinct positions, in
the order of those that had one, and the next position is above all of them. -/
structure Reordered (pwallet : CWallet) (db : CWalletDB) (pwallet' : CWallet) (db' : CWalletDB) :
    Prop where
  isSome_eq : ∀ i, (orderPos pwallet' db' i).isSome = (orderPos pwallet db i).isSome
  distinct : ∀ i j p, orderPos pwallet' db' i = some p → orderPos pwallet' db' j = some p → i = j
  order : ∀ i j p q p' q', orderPos pwallet db i = some p → orderPos pwallet db j = some q →
    p ≠ -1 → q ≠ -1 → p < q → orderPos pwallet' db' i = some p' →
    orderPos pwallet' db' j = some q' → p' < q'
  lt_next : ∀ i p, orderPos pwallet' db' i = some p → p < pwallet'.nOrderPosNext

namespace Reordering

/-- The item can be written back with a position. -/
def writes (st : Reordering) (nOrderPos : Int64) : TxPair → Bool
  | .pwtx hash => st.pwallet.mapWallet[hash]?.all fun wtx => st.db.writesTx { wtx with nOrderPos }
  | .pacentry acentry => st.db.writesAccountingEntry { acentry with nOrderPos }

/-- What a round asks of the state before it, for an item with a position.  An item without one gets
the next position, which is not the last `int64`.  The position of another one, and the offsets that
are not above it, do not add up to one of the offsets or to the last `int64`.  What is written back
can be written. -/
def MeetsAt (st : Reordering) (it : TxPair) (p : Int64) : Prop :=
  if p = -1 then
    st.pwallet.nOrderPosNext.toInt + 1 < 2 ^ 63 ∧
      (it.isEntry = true → st.writes st.pwallet.nOrderPosNext it = true)
  else
    let nOrderPosOff := st.nOrderPosOffsets.countP fun nOffsetStart => decide (nOffsetStart ≤ p)
    p.toInt + nOrderPosOff + 1 < 2 ^ 63 ∧
      (∀ o ∈ st.nOrderPosOffsets, o.toInt ≠ p.toInt + nOrderPosOff) ∧
      (nOrderPosOff ≠ 0 → st.writes (p + Int64.ofNat nOrderPosOff) it = true)

/-- What all rounds of the loop ask of the states before them. -/
def AllMeet : Reordering → List TxPair → Prop
  | _, [] => True
  | st, it :: items => (∃ p, it.nOrderPos st.pwallet = .ok p ∧ st.MeetsAt it p) ∧
    ∀ st', st.reorder it = .ok (true, st') → AllMeet st' items

end Reordering

/-! ## A round -/

open Int64Sum Renumbering ExceptLoop

lemma addInt64_eq_ok {a b c : Int64} :
    addInt64 a b = .ok c ↔ InRange (a.toInt + b.toInt) ∧ c = a + b := by
  rw [addInt64, InRange]
  split_ifs with hrange
  · rw [Except.ok.injEq, eq_comm]
    exact (and_iff_right hrange).symm
  · exact ⟨fun h => (by cases h), fun h => absurd h.1 hrange⟩

namespace Reordering

variable {st st' : Reordering} {it : TxPair} {p pos : Int64} {fWrite : Bool}

/-- Placing an item goes on if what is to be written can be. -/
lemma exists_place (st : Reordering) (hget : it.nOrderPos st.pwallet = .ok p) :
    (∃ st', st.place pos fWrite it = .ok (true, st')) ↔
      (fWrite = true → st.writes pos it = true) := by
  cases it with
  | pwtx hash =>
    rw [place, writes]
    cases hwtx : st.pwallet.mapWallet[hash]? with
    | none =>
      rw [TxPair.nOrderPos, hwtx] at hget
      cases hget
    | some wtx => cases fWrite <;> simp
  | pacentry acentry =>
    rw [place, writes, CWalletDB.writeAccountingEntry]
    cases fWrite with
    | false => simp
    | true => by_cases hwrites : st.db.writesAccountingEntry { acentry with nOrderPos := pos } <;>
        simp [hwrites]

/-- Only the item that is placed has another position then. -/
lemma orderPos_place (h : st.place pos fWrite it = .ok (true, st'))
    (hkeep : it.isEntry = true → fWrite = false →
      orderPos st.pwallet st.db it.item = some pos) :
    st'.pwallet.nOrderPosNext = st.pwallet.nOrderPosNext ∧
      st'.nOrderPosOffsets = st.nOrderPosOffsets ∧
      ∀ i, orderPos st'.pwallet st'.db i =
        if i = it.item then some pos else orderPos st.pwallet st.db i := by
  cases it with
  | pwtx hash =>
    rw [place] at h
    cases hwtx : st.pwallet.mapWallet[hash]? with
    | none =>
      rw [hwtx] at h
      cases h
    | some wtx =>
      simp only [hwtx, Except.ok.injEq, Prod.mk.injEq] at h
      obtain ⟨-, rfl⟩ := h
      refine ⟨rfl, rfl, fun i => ?_⟩
      cases i with
      | inl hash' =>
        simp only [orderPos, CWallet.put, MapLoop.getElem?_insert_eq, TxPair.item, Sum.inl.injEq]
        by_cases heq : hash = hash'
        · simp [heq]
        · simp [heq, Ne.symm heq]
      | inr ssKey => simp [orderPos, TxPair.item]
  | pacentry acentry =>
    rw [place] at h
    cases fWrite with
    | false =>
      cases h
      refine ⟨rfl, rfl, fun i => ?_⟩
      split_ifs with heq
      · rw [heq]
        exact hkeep rfl rfl
      · rfl
    | true =>
      simp only [Bool.not_true, Bool.false_eq_true, if_false, CWalletDB.writeAccountingEntry] at h
      split_ifs at h with hwrites
      · simp only [Except.ok.injEq, Prod.mk.injEq, true_and] at h
        subst h
        refine ⟨rfl, rfl, fun i => ?_⟩
        cases i with
        | inl hash => simp [orderPos, TxPair.item]
        | inr ssKey =>
          have hkey : CAccountingEntry.ssKey { acentry with nOrderPos := pos } = acentry.ssKey := rfl
          simp only [orderPos, hkey, MapLoop.getElem?_insert_eq, TxPair.item, Sum.inr.injEq]
          by_cases heq : acentry.ssKey = ssKey
          · simp [heq]
          · simp [heq, Ne.symm heq]
      · cases h

/-- The state in which an item without a position is placed. -/
def handOut (st : Reordering) : Reordering :=
  { st with
    pwallet := { st.pwallet with nOrderPosNext := st.pwallet.nOrderPosNext + 1 }
    nOrderPosOffsets := st.nOrderPosOffsets ++ [st.pwallet.nOrderPosNext] }

/-- The state in which an item is placed at a position that it has been shifted to. -/
def pushTo (st : Reordering) (pos : Int64) : Reordering :=
  { st with
    pwallet := { st.pwallet with nOrderPosNext := max st.pwallet.nOrderPosNext (pos + 1) } }

/-- The offsets that are not above a position. -/
def offsetsUpTo (st : Reordering) (p : Int64) : ℕ :=
  st.nOrderPosOffsets.countP fun nOffsetStart => decide (nOffsetStart ≤ p)

/-- The loop over the offsets counts. -/
lemma foldl_offsets (offsets : List Int64) (p a : Int64) :
    offsets.foldl (fun nOrderPosOff nOffsetStart =>
      if p ≥ nOffsetStart then nOrderPosOff + 1 else nOrderPosOff) a =
        a + Int64.ofNat (offsets.countP fun nOffsetStart => decide (nOffsetStart ≤ p)) := by
  induction offsets generalizing a with
  | nil => exact (Int64.add_zero a).symm
  | cons o offsets ih =>
    rw [List.foldl_cons, ih, List.countP_cons]
    by_cases hle : o ≤ p
    · rw [if_pos hle, if_pos (decide_eq_true hle), Int64.ofNat_add, Int64.add_assoc,
        Int64.add_comm 1]
      rfl
    · rw [if_neg hle, if_neg (by simpa using hle), Nat.add_zero]

lemma reorder_of_unassigned (hget : it.nOrderPos st.pwallet = .ok (-1)) :
    st.reorder it = .ok (true, st') ↔ InRange (st.pwallet.nOrderPosNext.toInt + 1) ∧
      st.handOut.place st.pwallet.nOrderPosNext it.isEntry it = .ok (true, st') := by
  have hone : (1 : Int64).toInt = 1 := rfl
  rw [reorder, hget, Except.bind]
  simp only [if_true]
  constructor
  · intro h
    obtain ⟨next, hnext, hplace⟩ := bind_eq_ok.mp h
    obtain ⟨hrange, rfl⟩ := addInt64_eq_ok.mp hnext
    exact ⟨hone ▸ hrange, hplace⟩
  · rintro ⟨hrange, hplace⟩
    exact bind_eq_ok.mpr ⟨_, addInt64_eq_ok.mpr ⟨hone.symm ▸ hrange, rfl⟩, hplace⟩

lemma reorder_of_assigned (hget : it.nOrderPos st.pwallet = .ok p) (hp : p ≠ -1) :
    st.reorder it = .ok (true, st') ↔
      InRange (p.toInt + (Int64.ofNat (st.offsetsUpTo p)).toInt) ∧
      InRange ((p + Int64.ofNat (st.offsetsUpTo p)).toInt + 1) ∧
      (st.pushTo (p + Int64.ofNat (st.offsetsUpTo p))).place (p + Int64.ofNat (st.offsetsUpTo p))
        (decide (Int64.ofNat (st.offsetsUpTo p) ≠ 0)) it = .ok (true, st') := by
  have hone : (1 : Int64).toInt = 1 := rfl
  rw [reorder, hget, Except.bind]
  simp only [if_neg hp, foldl_offsets, Int64.zero_add, ← offsetsUpTo.eq_1]
  constructor
  · intro h
    obtain ⟨pos, hpos, h⟩ := bind_eq_ok.mp h
    obtain ⟨hrange, rfl⟩ := addInt64_eq_ok.mp hpos
    obtain ⟨next, hnext, hplace⟩ := bind_eq_ok.mp h
    obtain ⟨hrange', rfl⟩ := addInt64_eq_ok.mp hnext
    exact ⟨hrange, hone ▸ hrange', hplace⟩
  · rintro ⟨hrange, hrange', hplace⟩
    exact bind_eq_ok.mpr ⟨_, addInt64_eq_ok.mpr ⟨hrange, rfl⟩,
      bind_eq_ok.mpr ⟨_, addInt64_eq_ok.mpr ⟨hone.symm ▸ hrange', rfl⟩, hplace⟩⟩

end Reordering

/-- The number that an item has at the start. -/
def numberOf (pwallet : CWallet) (db : CWalletDB) (i : OrderItem) : Option ℤ :=
  (orderPos pwallet db i).bind fun p => if p = -1 then none else some p.toInt

/-- The loop, when some items have been visited, follows the numbering of the items. -/
structure Tracks (pwallet : CWallet) (db : CWalletDB) (visited : List OrderItem) (st : Reordering)
    (n : Numbering OrderItem) : Prop where
  numbered : Renumbering.Numbered (numberOf pwallet db) visited n
  next_eq : st.pwallet.nOrderPosNext.toInt = n.next
  offsets_eq : st.nOrderPosOffsets.map Int64.toInt = n.offsets
  pos_eq : ∀ i, (orderPos st.pwallet st.db i).map Int64.toInt =
    (orderPos pwallet db i).map fun _ => n.pos i
  unvisited : ∀ i, i ∉ visited → orderPos st.pwallet st.db i = orderPos pwallet db i

namespace Tracks

open Reordering

variable {pwallet : CWallet} {db : CWalletDB} {visited : List OrderItem} {st st' : Reordering}
  {n : Numbering OrderItem} {it : TxPair} {p pos : Int64}

section

variable (h : Tracks pwallet db visited st n)

include h

/-- Every position that is recorded is below 2 ^ 63, so there are not more of them. -/
lemma offsetsUpTo_lt : st.offsetsUpTo p < 2 ^ 63 := by
  have hcount : st.offsetsUpTo p ≤ st.nOrderPosOffsets.length := List.countP_le_length
  have hlength := h.numbered.length_le
  rw [← h.offsets_eq, List.length_map, ← h.next_eq] at hlength
  have hlt := st.pwallet.nOrderPosNext.toInt_lt
  omega

lemma toInt_offsetsUpTo : (Int64.ofNat (st.offsetsUpTo p)).toInt = st.offsetsUpTo p :=
  Int64.toInt_ofNat_of_lt h.offsetsUpTo_lt

/-- The shift is that of the numbering. -/
lemma shift_eq : shift n.offsets p.toInt = p.toInt + st.offsetsUpTo p := by
  rw [shift, ← h.offsets_eq, List.countP_map, offsetsUpTo]
  have hcongr : ((fun o : ℤ => decide (o ≤ p.toInt)) ∘ Int64.toInt) =
      fun nOffsetStart : Int64 => decide (nOffsetStart ≤ p) := by
    funext o
    exact decide_eq_decide.mpr Int64.le_iff_toInt_le.symm
  rw [hcongr]

/-- A position is handed out or shifted to. -/
lemma of_placed (hnew : it.item ∉ visited)
    (horig : orderPos pwallet db it.item = some p) {n' : Numbering OrderItem}
    (hvisit : n' = visit (numberOf pwallet db) n it.item)
    (hnext : st'.pwallet.nOrderPosNext.toInt = n'.next)
    (hoffsets : st'.nOrderPosOffsets.map Int64.toInt = n'.offsets)
    (hpos : n'.pos = Function.update n.pos it.item pos.toInt)
    (hplaced : ∀ i, orderPos st'.pwallet st'.db i =
      if i = it.item then some pos else orderPos st.pwallet st.db i) :
    Tracks pwallet db (visited ++ [it.item]) st' n' where
  numbered := hvisit ▸ h.numbered.visit hnew
  next_eq := hnext
  offsets_eq := hoffsets
  pos_eq i := by
    rw [hplaced, hpos]
    by_cases hi : i = it.item
    · rw [if_pos hi, hi, horig, Function.update_self]
      rfl
    · rw [if_neg hi, h.pos_eq, Function.update_of_ne hi]
  unvisited i hi := by
    rw [List.mem_append, not_or, List.mem_singleton] at hi
    rw [hplaced, if_neg hi.2]
    exact h.unvisited i hi.1

end

lemma numberOf_eq (horig : orderPos pwallet db it.item = some p) :
    numberOf pwallet db it.item = if p = -1 then none else some p.toInt := by
  rw [numberOf, horig, Option.bind_some]

/-- A round for an item without a position. -/
lemma reorder_unassigned (h : Tracks pwallet db visited st n) (hnew : it.item ∉ visited)
    (hget : it.nOrderPos st.pwallet = .ok (-1)) (horig : orderPos pwallet db it.item = some (-1)) :
    (∀ st', st.reorder it = .ok (true, st') →
        Tracks pwallet db (visited ++ [it.item]) st' (visit (numberOf pwallet db) n it.item)) ∧
      (st.MeetsAt it (-1) ↔ ∃ st', st.reorder it = .ok (true, st')) := by
  have hnumber : numberOf pwallet db it.item = none := numberOf_eq horig
  have hvisit : visit (numberOf pwallet db) n it.item =
      { next := n.next + 1
        offsets := n.offsets ++ [n.next]
        pos := Function.update n.pos it.item n.next } := by
    rw [visit, hnumber]
  have hnonneg : 0 ≤ st.pwallet.nOrderPosNext.toInt := by
    have hlength := h.numbered.length_le
    rw [h.next_eq]
    omega
  have hrange : InRange (st.pwallet.nOrderPosNext.toInt + 1) ↔
      st.pwallet.nOrderPosNext.toInt + 1 < 2 ^ 63 := by
    rw [InRange]
    omega
  constructor
  · intro st' hround
    obtain ⟨hin, hplace⟩ := (reorder_of_unassigned hget).mp hround
    obtain ⟨hnext, hoffsets, hplaced⟩ := orderPos_place hplace fun hentry hwrite =>
      absurd (hwrite.symm.trans hentry) Bool.false_ne_true
    refine h.of_placed hnew horig rfl ?_ ?_ ?_ hplaced
    · rw [hnext, hvisit, ← h.next_eq]
      exact toInt_add hin
    · rw [hoffsets, hvisit, ← h.next_eq, ← h.offsets_eq]
      simp [handOut]
    · rw [hvisit, h.next_eq]
  · have hwrites : (∃ st', st.handOut.place st.pwallet.nOrderPosNext it.isEntry it =
        .ok (true, st')) ↔ (it.isEntry = true → st.writes st.pwallet.nOrderPosNext it = true) := by
      rw [exists_place st.handOut hget]
      cases it <;> rfl
    rw [MeetsAt, if_pos rfl, ← hwrites, ← hrange]
    simp only [reorder_of_unassigned hget, exists_and_left]

/-- A round for an item with a position. -/
lemma reorder_assigned (h : Tracks pwallet db visited st n) (hnew : it.item ∉ visited)
    (hget : it.nOrderPos st.pwallet = .ok p) (horig : orderPos pwallet db it.item = some p)
    (hp : p ≠ -1) :
    (∀ st', st.reorder it = .ok (true, st') →
        Tracks pwallet db (visited ++ [it.item]) st' (visit (numberOf pwallet db) n it.item)) ∧
      (st.MeetsAt it p ↔ (∃ st', st.reorder it = .ok (true, st')) ∧
        shift n.offsets p.toInt ∉ n.offsets) := by
  have hnumber : numberOf pwallet db it.item = some p.toInt :=
    (numberOf_eq horig).trans (if_neg hp)
  have hvisit : visit (numberOf pwallet db) n it.item =
      { n with
        next := max n.next (shift n.offsets p.toInt + 1)
        pos := Function.update n.pos it.item (shift n.offsets p.toInt) } := by
    rw [visit, hnumber]
  have hoff : (Int64.ofNat (st.offsetsUpTo p)).toInt = st.offsetsUpTo p := h.toInt_offsetsUpTo
  have hge := p.le_toInt
  have hshift := h.shift_eq (p := p)
  have hsum : InRange (p.toInt + (Int64.ofNat (st.offsetsUpTo p)).toInt) →
      (p + Int64.ofNat (st.offsetsUpTo p)).toInt = shift n.offsets p.toInt := by
    intro hrange
    rw [toInt_add hrange, hoff, hshift]
  have hrange : InRange (p.toInt + (Int64.ofNat (st.offsetsUpTo p)).toInt) ∧
      InRange ((p + Int64.ofNat (st.offsetsUpTo p)).toInt + 1) ↔
        p.toInt + st.offsetsUpTo p + 1 < 2 ^ 63 := by
    constructor
    · rintro ⟨hfirst, -, hlt⟩
      rwa [hsum hfirst, hshift] at hlt
    · intro hlt
      have hfirst : InRange (p.toInt + (Int64.ofNat (st.offsetsUpTo p)).toInt) := by
        rw [hoff, InRange]
        omega
      refine ⟨hfirst, ?_⟩
      rw [hsum hfirst, hshift, InRange]
      omega
  have hzero : Int64.ofNat (st.offsetsUpTo p) ≠ 0 ↔ st.offsetsUpTo p ≠ 0 := by
    rw [not_iff_not, ← Int64.toInt_inj, hoff]
    exact Int.natCast_eq_zero
  constructor
  · intro st' hround
    obtain ⟨hfirst, hsecond, hplace⟩ := (reorder_of_assigned hget hp).mp hround
    obtain ⟨hnext, hoffsets, hplaced⟩ := orderPos_place hplace fun _ hwrite => by
      -- an entry that is not written back has not been shifted
      have hcount : Int64.ofNat (st.offsetsUpTo p) = 0 := by
        simpa using of_decide_eq_false hwrite
      rw [hcount, Int64.add_zero]
      exact (h.unvisited _ hnew).trans horig
    refine h.of_placed hnew horig rfl ?_ ?_ ?_ hplaced
    · have hone : (1 : Int64).toInt = 1 := rfl
      rw [hnext, hvisit, pushTo, toInt_max, toInt_add (hone.symm ▸ hsecond), hsum hfirst, hone,
        h.next_eq]
    · rw [hoffsets, hvisit]
      exact h.offsets_eq
    · rw [hvisit, hsum hfirst]
  · have hwrites : (∃ st', (st.pushTo (p + Int64.ofNat (st.offsetsUpTo p))).place
        (p + Int64.ofNat (st.offsetsUpTo p)) (decide (Int64.ofNat (st.offsetsUpTo p) ≠ 0)) it =
          .ok (true, st')) ↔ (st.offsetsUpTo p ≠ 0 →
            st.writes (p + Int64.ofNat (st.offsetsUpTo p)) it = true) := by
      rw [exists_place (st.pushTo (p + Int64.ofNat (st.offsetsUpTo p))) hget,
        decide_eq_true_iff, hzero]
      cases it <;> rfl
    have hclear : (∀ o ∈ st.nOrderPosOffsets, o.toInt ≠ p.toInt + st.offsetsUpTo p) ↔
        shift n.offsets p.toInt ∉ n.offsets := by
      rw [hshift, ← h.offsets_eq, List.mem_map, not_exists]
      exact forall_congr' fun o => not_and.symm
    rw [MeetsAt, if_neg hp]
    change _ ∧ _ ∧ (st.offsetsUpTo p ≠ 0 → _) ↔ _
    rw [← offsetsUpTo.eq_1, ← hwrites, hclear, ← hrange]
    simp only [reorder_of_assigned hget hp, exists_and_left]
    constructor
    · rintro ⟨hin, hclear, hplace⟩
      exact ⟨⟨hin.1, hin.2, hplace⟩, hclear⟩
    · rintro ⟨⟨hfirst, hsecond, hplace⟩, hclear⟩
      exact ⟨⟨hfirst, hsecond⟩, hclear, hplace⟩

lemma start (pwallet : CWallet) (db : CWalletDB) :
    Tracks pwallet db [] { pwallet := { pwallet with nOrderPosNext := 0 }, db }
      { pos := fun i => ((orderPos pwallet db i).map Int64.toInt).getD 0 } where
  numbered := Renumbering.Numbered.start _
  next_eq := rfl
  offsets_eq := rfl
  pos_eq i := by
    change (orderPos pwallet db i).map Int64.toInt = _
    cases hpos : orderPos pwallet db i with
    | none => rfl
    | some p => simp [hpos]
  unvisited i _ := rfl

section

variable (h : Tracks pwallet db visited st n) (hnew : it.item ∉ visited)
  (hget : it.nOrderPos pwallet = .ok p)

include h hnew hget

/-- An item that has not been visited has the position that it had. -/
lemma nOrderPos_eq : it.nOrderPos st.pwallet = .ok p := by
  cases it with
  | pacentry acentry => exact hget
  | pwtx hash =>
    have hsame := h.unvisited _ hnew
    simp only [TxPair.item, orderPos] at hsame
    rw [TxPair.nOrderPos] at hget ⊢
    cases hwtx : pwallet.mapWallet[hash]? with
    | none =>
      rw [hwtx] at hget
      cases hget
    | some wtx =>
      rw [hwtx, Option.map_some, Option.map_eq_some_iff] at hsame
      obtain ⟨wtx', hwtx', hpos⟩ := hsame
      rw [hwtx, Except.ok.injEq] at hget
      rw [hwtx', ← hget, ← hpos]

/-- A round for any item. -/
lemma reorder (horig : orderPos pwallet db it.item = some p) :
    (∀ st', st.reorder it = .ok (true, st') →
        Tracks pwallet db (visited ++ [it.item]) st' (visit (numberOf pwallet db) n it.item)) ∧
      (st.MeetsAt it p ↔ (∃ st', st.reorder it = .ok (true, st')) ∧
        ∀ q, numberOf pwallet db it.item = some q → shift n.offsets q ∉ n.offsets) := by
  have hget := h.nOrderPos_eq hnew hget
  by_cases hp : p = -1
  · subst hp
    obtain ⟨htracks, hmeets⟩ := h.reorder_unassigned hnew hget horig
    refine ⟨htracks, hmeets.trans (and_iff_left ?_).symm⟩
    intro q hq
    rw [numberOf_eq horig, if_pos rfl] at hq
    cases hq
  · obtain ⟨htracks, hmeets⟩ := h.reorder_assigned hnew hget horig hp
    refine ⟨htracks, hmeets.trans (and_congr_right fun _ => ?_)⟩
    rw [numberOf_eq horig, if_neg hp]
    simp

end

/-- The loop follows the numbering of the items, and everything is clear in the end exactly when all
its rounds meet what is asked. -/
lemma reorderAll {items : List TxPair} (h : Tracks pwallet db visited st n)
    (hnodup : (visited ++ items.map TxPair.item).Nodup)
    (hitems : ∀ it ∈ items, ∃ p, it.nOrderPos pwallet = .ok p ∧
      orderPos pwallet db it.item = some p) :
    (∀ st', st.reorderAll items = .ok (.DB_LOAD_OK, st') →
      ∃ n', Tracks pwallet db (visited ++ items.map TxPair.item) st' n' ∧
        (Clear (numberOf pwallet db) (visited ++ items.map TxPair.item) n' →
          st.AllMeet items ∧ Clear (numberOf pwallet db) visited n)) ∧
    (st.AllMeet items → Clear (numberOf pwallet db) visited n →
      ∃ st' n', st.reorderAll items = .ok (.DB_LOAD_OK, st') ∧
        Tracks pwallet db (visited ++ items.map TxPair.item) st' n' ∧
        Clear (numberOf pwallet db) (visited ++ items.map TxPair.item) n') := by
  induction items generalizing visited st n with
  | nil =>
    rw [List.map_nil, List.append_nil]
    refine ⟨fun st' hrun => ?_, fun _ hclear => ⟨st, n, rfl, h, hclear⟩⟩
    cases hrun
    exact ⟨n, h, fun hclear => ⟨trivial, hclear⟩⟩
  | cons it items ih =>
    have happend : visited ++ (it :: items).map TxPair.item =
        visited ++ [it.item] ++ items.map TxPair.item := by simp
    rw [happend] at hnodup ⊢
    have hnew : it.item ∉ visited := by
      have hvisited := (List.nodup_append.mp hnodup).1
      exact fun hmem => (List.nodup_append.mp hvisited).2.2 _ hmem _ (List.mem_singleton_self _) rfl
    obtain ⟨p, hget, horig⟩ := hitems it List.mem_cons_self
    obtain ⟨htracks, hmeets⟩ := h.reorder hnew hget horig
    have hgetst := h.nOrderPos_eq hnew hget
    have hrest := fun it' hit' => hitems it' (List.mem_cons_of_mem it hit')
    constructor
    · intro st' hrun
      obtain ⟨⟨fGoesOn, st₁⟩, hround, hrun⟩ := bind_eq_ok.mp hrun
      cases fGoesOn with
      | false => cases hrun
      | true =>
        obtain ⟨n', htracks', hback⟩ := (ih (htracks st₁ hround) hnodup hrest).1 st' hrun
        refine ⟨n', htracks', fun hclear => ?_⟩
        obtain ⟨hall, hclear⟩ := hback hclear
        obtain ⟨hclear, hitem⟩ := h.numbered.clear_visit_iff.mp hclear
        refine ⟨⟨⟨p, hgetst, hmeets.mpr ⟨⟨st₁, hround⟩, hitem⟩⟩, fun st₂ hround₂ => ?_⟩, hclear⟩
        cases hround.symm.trans hround₂
        exact hall
    · rintro ⟨⟨q, hq, hmeetsAt⟩, hall⟩ hclear
      cases hgetst.symm.trans hq
      obtain ⟨⟨st₁, hround⟩, hitem⟩ := hmeets.mp hmeetsAt
      obtain ⟨st', n', hrun, htracks', hclear'⟩ := (ih (htracks st₁ hround) hnodup hrest).2
        (hall st₁ hround) (h.numbered.clear_visit_iff.mpr ⟨hclear, hitem⟩)
      refine ⟨st', n', ?_, htracks', hclear'⟩
      rw [Reordering.reorderAll, hround]
      exact hrun

end Tracks

/-! ## The items that are visited -/

variable {pwallet : CWallet} {db : CWalletDB} {acentries : List CAccountingEntry}

lemma map_item_txByTime : ((txByTime pwallet acentries).map TxPair.item).Perm
    ((pwallet.mapWallet.toList.map fun it => Sum.inl it.1) ++
      acentries.map fun entry => Sum.inr entry.ssKey) := by
  rw [txByTime, List.map_map]
  refine ((List.perm_insertionSort ..).map _).trans (List.Perm.of_eq ?_)
  rw [List.map_append, List.map_map, List.map_map]
  rfl

lemma mem_txByTime {it : TxPair} (h : it ∈ txByTime pwallet acentries) :
    (∃ hash wtx, it = .pwtx hash ∧ pwallet.mapWallet[hash]? = some wtx) ∨
      ∃ acentry ∈ acentries, it = .pacentry acentry := by
  rw [txByTime, List.mem_map] at h
  obtain ⟨timed, htimed, rfl⟩ := h
  rw [List.mem_insertionSort, List.mem_append, List.mem_map, List.mem_map] at htimed
  rcases htimed with ⟨entry, hentry, rfl⟩ | ⟨acentry, hacentry, rfl⟩
  · exact .inl ⟨entry.1, entry.2, rfl, Std.ExtTreeMap.mem_toList_iff_getElem?_eq_some.mp hentry⟩
  · exact .inr ⟨acentry, hacentry, rfl⟩

section

variable (h : db.listAccountCreditDebit [] = .ok acentries)

include h

/-- The entries of the default account that a database lists. -/
lemma mem_listAccountCreditDebit {acentry : CAccountingEntry} :
    acentry ∈ acentries ↔ db.acentries[acentry.ssKey]? = some acentry ∧ acentry.strAccount = [] := by
  rw [CWalletDB.listAccountCreditDebit] at h
  split_ifs at h with hscans
  rw [Except.ok.injEq] at h
  rw [← h, List.mem_filter, List.mem_map]
  have haccount : (decide False || decide (acentry.strAccount = [])) = true ↔
      acentry.strAccount = [] := by simp
  rw [haccount]
  refine and_congr_left fun _ => ?_
  constructor
  · rintro ⟨it, hit, rfl⟩
    have hget := Std.ExtTreeMap.mem_toList_iff_getElem?_eq_some.mp hit
    rwa [← db.key_eq hget]
  · intro hget
    exact ⟨(acentry.ssKey, acentry), Std.ExtTreeMap.mem_toList_iff_getElem?_eq_some.mpr hget, rfl⟩

lemma nodup_listAccountCreditDebit : (acentries.map CAccountingEntry.ssKey).Nodup := by
  rw [CWalletDB.listAccountCreditDebit] at h
  split_ifs at h with hscans
  rw [Except.ok.injEq] at h
  have hkeys : (db.acentries.toList.map Prod.snd).map CAccountingEntry.ssKey =
      db.acentries.toList.map Prod.fst := by
    rw [List.map_map]
    refine List.map_congr_left fun it hit => ?_
    exact (db.key_eq (Std.ExtTreeMap.mem_toList_iff_getElem?_eq_some.mp hit)).symm
  rw [← h]
  refine List.Nodup.sublist (List.filter_sublist.map _) ?_
  rw [hkeys]
  exact MapLoop.nodup_map_fst_toList db.acentries

lemma nodup_txByTime : ((txByTime pwallet acentries).map TxPair.item).Nodup := by
  rw [map_item_txByTime.nodup_iff, List.nodup_append]
  refine ⟨?_, ?_, ?_⟩
  · have hkeys := (MapLoop.nodup_map_fst_toList pwallet.mapWallet).map
      (Sum.inl_injective (β := Bytes))
    rwa [List.map_map] at hkeys
  · have hkeys := (nodup_listAccountCreditDebit h).map (Sum.inr_injective (α := UInt256))
    rwa [List.map_map] at hkeys
  · intro i hi j hj heq
    obtain ⟨it, -, rfl⟩ := List.mem_map.mp hi
    obtain ⟨entry, -, rfl⟩ := List.mem_map.mp hj
    cases heq

end

/-! ## The order positions after the loop -/

/-- `ReorderTransactions` returns `DB_LOAD_OK` and leaves the positions as it is to do. -/
def Reorders (db : CWalletDB) (pwallet : CWallet) : Prop :=
  ∃ st', db.reorderTransactions pwallet = .ok (.DB_LOAD_OK, st') ∧
    Reordered pwallet db st'.pwallet st'.db

/-- The database can be read, and the rounds of the loop meet what is asked of them. -/
def RoundsMeet (db : CWalletDB) (pwallet : CWallet) : Prop :=
  ∃ acentries, db.listAccountCreditDebit [] = .ok acentries ∧
    Reordering.AllMeet { pwallet := { pwallet with nOrderPosNext := 0 }, db }
      (txByTime pwallet acentries)

/-- The items that are visited, with the positions that they have. -/
lemma nOrderPos_of_mem_txByTime (h : db.listAccountCreditDebit [] = .ok acentries) {it : TxPair}
    (hit : it ∈ txByTime pwallet acentries) :
    ∃ p, it.nOrderPos pwallet = .ok p ∧ orderPos pwallet db it.item = some p := by
  rcases mem_txByTime hit with ⟨hash, wtx, rfl, hwtx⟩ | ⟨acentry, hacentry, rfl⟩
  · exact ⟨wtx.nOrderPos, by rw [TxPair.nOrderPos, hwtx], by simp [TxPair.item, orderPos, hwtx]⟩
  · have hget := ((mem_listAccountCreditDebit h).mp hacentry).1
    exact ⟨acentry.nOrderPos, rfl, by simp [TxPair.item, orderPos, hget]⟩

/-- All items are visited if all entries are the default account's. -/
lemma mem_item_txByTime (h : db.listAccountCreditDebit [] = .ok acentries)
    (hdefault : ∀ (ssKey : Bytes) (acentry : CAccountingEntry),
      db.acentries[ssKey]? = some acentry → acentry.strAccount = []) {i : OrderItem} {p : Int64}
    (hi : orderPos pwallet db i = some p) :
    i ∈ (txByTime pwallet acentries).map TxPair.item := by
  rw [map_item_txByTime.mem_iff, List.mem_append, List.mem_map, List.mem_map]
  cases i with
  | inl hash =>
    obtain ⟨wtx, hwtx, -⟩ := Option.map_eq_some_iff.mp hi
    exact .inl ⟨(hash, wtx), Std.ExtTreeMap.mem_toList_iff_getElem?_eq_some.mpr hwtx, rfl⟩
  | inr ssKey =>
    obtain ⟨acentry, hget, -⟩ := Option.map_eq_some_iff.mp hi
    have hkey := db.key_eq hget
    refine .inr ⟨acentry, (mem_listAccountCreditDebit h).mpr ⟨hkey ▸ hget, hdefault _ _ hget⟩, ?_⟩
    rw [hkey]

namespace Tracks

variable {visited : List OrderItem} {st : Reordering} {n : Numbering OrderItem}

variable {i : OrderItem}

/-- The position of an item is its number, and the item was there at the start. -/
lemma toInt_orderPos (h : Tracks pwallet db visited st n) {p : Int64}
    (hp : orderPos st.pwallet st.db i = some p) :
    p.toInt = n.pos i ∧ ∃ q, orderPos pwallet db i = some q := by
  have hpos := h.pos_eq i
  rw [hp] at hpos
  cases hq : orderPos pwallet db i with
  | none =>
    rw [hq] at hpos
    cases hpos
  | some q =>
    rw [hq] at hpos
    exact ⟨Option.some.inj hpos, q, rfl⟩

/-- An item that there was at the start is still there. -/
lemma exists_orderPos (h : Tracks pwallet db visited st n) {q : Int64}
    (hq : orderPos pwallet db i = some q) :
    ∃ p, orderPos st.pwallet st.db i = some p ∧ p.toInt = n.pos i := by
  have hpos := h.pos_eq i
  rw [hq, Option.map_some, Option.map_eq_some_iff] at hpos
  exact hpos

/-- An item with a number had a position. -/
lemma numberOf_eq_some {q : ℤ} (h : numberOf pwallet db i = some q) :
    ∃ p, orderPos pwallet db i = some p ∧ p ≠ -1 ∧ p.toInt = q := by
  obtain ⟨p, hp, hq⟩ := Option.bind_eq_some_iff.mp h
  split_ifs at hq with hne
  exact ⟨p, hp, hne, Option.some.inj hq⟩

lemma numberOf_of_ne {p : Int64} (hp : orderPos pwallet db i = some p) (hne : p ≠ -1) :
    numberOf pwallet db i = some p.toInt := by
  rw [numberOf, hp, Option.bind_some, if_neg hne]

/-- Items with the same number are the same. -/
lemma numbers_distinct (hdistinct : AssignedDistinct pwallet db) :
    ∀ i ∈ visited, ∀ j ∈ visited, ∀ q, numberOf pwallet db i = some q →
      numberOf pwallet db j = some q → i = j := by
  intro i _ j _ q hi hj
  obtain ⟨p, hp, hne, rfl⟩ := numberOf_eq_some hi
  obtain ⟨p', hp', -, heq⟩ := numberOf_eq_some hj
  rw [Int64.toInt_inj] at heq
  exact hdistinct i j p hp (heq ▸ hp') hne

/-- When all items have been visited and everything is clear, the positions are as they are to be. -/
lemma reordered (h : Tracks pwallet db visited st n) (hdistinct : AssignedDistinct pwallet db)
    (hall : ∀ {i p}, orderPos pwallet db i = some p → i ∈ visited)
    (hclear : Clear (numberOf pwallet db) visited n) :
    Reordered pwallet db st.pwallet st.db where
  isSome_eq i := by
    rw [← Option.isSome_map (f := Int64.toInt), h.pos_eq, Option.isSome_map]
  distinct i j p hi hj := by
    obtain ⟨hpi, q, hq⟩ := h.toInt_orderPos hi
    obtain ⟨hpj, q', hq'⟩ := h.toInt_orderPos hj
    exact (h.numbered.distinct_iff (numbers_distinct hdistinct)).mpr hclear i (hall hq) j (hall hq')
      (hpi.symm.trans hpj)
  order i j p q p' q' hp hq hne hne' hlt hp' hq' := by
    rw [Int64.lt_iff_toInt_lt, (h.toInt_orderPos hp').1, (h.toInt_orderPos hq').1]
    exact h.numbered.pos_lt_pos (hall hp) (hall hq) (numberOf_of_ne hp hne)
      (numberOf_of_ne hq hne') (Int64.lt_iff_toInt_lt.mp hlt)
  lt_next i p hi := by
    obtain ⟨hpi, q, hq⟩ := h.toInt_orderPos hi
    rw [Int64.lt_iff_toInt_lt, hpi, h.next_eq]
    exact h.numbered.pos_lt_next i (hall hq)

end Tracks

/-- A database in which everything succeeds, with entries of the default account at some positions.
Their times and their numbers are in the order of the list. -/
def entriesAt (positions : List Int64) : CWalletDB :=
  positions.zipIdx.foldl (fun db position =>
      (db.writeAccountingEntry
        { nTime := Int64.ofNat position.2
          nOrderPos := position.1
          nEntryNo := UInt64.ofNat position.2 }).getD db)
    { fScans := true, writesTx := fun _ => true, writesAccountingEntry := fun _ => true }

/-- A wallet without transactions. -/
def noTransactions : CWallet where
  isMine _ := false
  blocksToMaturity _ := 0
  adjustedTime _ := 0
  timeSmart _ := 0
  writeToDisk _ := true

lemma assignedDistinct_noTransactions
    (h : ∀ it ∈ db.acentries.toList, ∀ it' ∈ db.acentries.toList,
      it.2.nOrderPos = it'.2.nOrderPos → it.2.nOrderPos ≠ -1 → it.1 = it'.1) :
    AssignedDistinct noTransactions db := by
  have hnone : ∀ hash : UInt256, orderPos noTransactions db (.inl hash) = none := fun hash => by
    simp [orderPos, noTransactions]
  intro i j p hi hj hne
  cases i with
  | inl hash =>
    rw [hnone] at hi
    cases hi
  | inr ssKey =>
    cases j with
    | inl hash =>
      rw [hnone] at hj
      cases hj
    | inr ssKey' =>
      obtain ⟨acentry, hget, rfl⟩ := Option.map_eq_some_iff.mp hi
      obtain ⟨acentry', hget', heq⟩ := Option.map_eq_some_iff.mp hj
      exact congrArg Sum.inr (h (ssKey, acentry)
        (Std.ExtTreeMap.mem_toList_iff_getElem?_eq_some.mpr hget) (ssKey', acentry')
        (Std.ExtTreeMap.mem_toList_iff_getElem?_eq_some.mpr hget') heq.symm hne)

end HyperStake.WalletTx
