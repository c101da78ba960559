import Mathlib.Data.Finset.Max
import Mathlib.Data.Int.Order.Basic
import HyperStake.Basic

/-!
# The key pool

The wallet keeps a pool of keys under ascending indices.  A key is reserved by taking the smallest
index out of the set `setKeyPool`; the reservation ends by keeping the key, which erases its record,
or by returning the index to the set.  New indices are chosen by the largest index of the set alone.

What is the case between the calls is `Consistent`, and what a call does to it `Proper`.  The set
forgets the indices that are reserved or kept, so that both fail as soon as a new index is not larger
than those (`KeyPoolOp.Meets`).
-/

namespace HyperStake

variable {κ : Type*}

/-- `CKeyPool`, a key and the time at which it was made. -/
structure CKeyPool (κ : Type*) where
  nTime : ℤ
  vchPubKey : κ
  deriving DecidableEq

/-- The part of `CWallet` that is the key pool, and its records. -/
structure KeyPoolWallet (κ : Type*) where
  setKeyPool : Finset ℤ := ∅
  pool : ℤ → Option (CKeyPool κ) := fun _ => none

/-- How a call ends without a value: by an exception, by a failed assertion, or not at all. -/
inductive KeyPoolError where
  | runtimeError (message : String)
  | abort
  | undefined
  deriving DecidableEq

/-- What a call finds outside of the pool: the argument `-keypool`, the keys that it generates for
new indices, the keys of the wallet, and which operations on which records succeed. -/
structure KeyPoolEnv (κ : Type*) where
  isLocked : Bool := false
  fFileBacked : Bool := true
  keypool : ℤ := 100
  generateNewKey : ℤ → CKeyPool κ
  haveKey : κ → Bool := fun _ => true
  isValid : κ → Bool := fun _ => true
  reads : Bool := true
  writes : ℤ → Bool := fun _ => true
  erases : ℤ → Bool := fun _ => true

/-- What a call returns, the indices for which it made keys, and the wallet after it. -/
structure KeyPoolResult (κ α : Type*) where
  value : Except KeyPoolError α
  created : List ℤ := []
  wallet : KeyPoolWallet κ

/-- The index of a new key, one more than the largest index of the set. -/
def nextIndex (setKeyPool : Finset ℤ) : ℤ :=
  if h : setKeyPool.Nonempty then setKeyPool.max' h + 1 else 1

namespace KeyPoolWallet

variable (env : KeyPoolEnv κ)

/-- `walletdb.WritePool` and the insertion of the index. -/
def insertKey (nIndex : ℤ) (keypool : CKeyPool κ) (w : KeyPoolWallet κ) : KeyPoolWallet κ where
  setKeyPool := insert nIndex w.setKeyPool
  pool := Function.update w.pool nIndex (some keypool)

/-- The iterations of the loop of `TopUpKeyPool`: each one adds an index, so that the number of keys
that are missing is the number of iterations. -/
def topUpLoop : ℕ → KeyPoolWallet κ → KeyPoolResult κ Bool
  | 0, w => { value := .ok true, wallet := w }
  | n + 1, w =>
    let nEnd := nextIndex w.setKeyPool
    if env.writes nEnd then
      let r := topUpLoop n (w.insertKey nEnd (env.generateNewKey nEnd))
      { r with created := nEnd :: r.created }
    else
      { value := .error (.runtimeError "TopUpKeyPool() : writing generated key failed"), wallet := w }

/-- The size up to which the pool is filled, `nTargetSize + 1` for an `unsigned int`. -/
def targetCount : ℕ := ((max env.keypool 0).toNat + 1) % 2 ^ 32

def topUpKeyPool (w : KeyPoolWallet κ) : KeyPoolResult κ Bool :=
  if env.isLocked then { value := .ok false, wallet := w }
  else topUpLoop env (targetCount env - w.setKeyPool.card) w

/-- `ReserveKeyFromKeyPool`, with the index that the caller's variable has then.  It has that also
when the call throws after it was taken from the set. -/
def reserveKeyFromKeyPool (w : KeyPoolWallet κ) : ℤ × KeyPoolResult κ (Option (CKeyPool κ)) :=
  let r := if env.isLocked then { value := .ok false, wallet := w } else topUpKeyPool env w
  match r.value with
  | .error e => (-1, { value := .error e, created := r.created, wallet := r.wallet })
  | .ok _ =>
    if h : r.wallet.setKeyPool.Nonempty then
      let nIndex := r.wallet.setKeyPool.min' h
      let value : Except KeyPoolError (Option (CKeyPool κ)) :=
        match if env.reads then r.wallet.pool nIndex else none with
        | none => .error (.runtimeError "ReserveKeyFromKeyPool() : read failed")
        | some keypool =>
          if !env.haveKey keypool.vchPubKey then
            .error (.runtimeError "ReserveKeyFromKeyPool() : unknown key in key pool")
          else if !env.isValid keypool.vchPubKey then .error .abort
          else .ok (some keypool)
      (nIndex, { value, created := r.created, wallet :=
        { r.wallet with setKeyPool := r.wallet.setKeyPool.erase nIndex } })
    else (-1, { value := .ok none, created := r.created, wallet := r.wallet })

/-- `AddReserveKey`.  The largest index of an empty set is undefined. -/
def addReserveKey (keypool : CKeyPool κ) (w : KeyPoolWallet κ) : KeyPoolResult κ ℤ :=
  if w.setKeyPool.Nonempty then
    let nIndex := nextIndex w.setKeyPool
    if env.writes nIndex then
      { value := .ok nIndex, created := [nIndex], wallet := w.insertKey nIndex keypool }
    else { value := .error (.runtimeError "AddReserveKey() : writing added key failed"), wallet := w }
  else { value := .error .undefined, wallet := w }

def keepKey (nIndex : ℤ) (w : KeyPoolWallet κ) : KeyPoolWallet κ :=
  if env.fFileBacked ∧ env.erases nIndex then { w with pool := Function.update w.pool nIndex none }
  else w

def returnKey (nIndex : ℤ) (w : KeyPoolWallet κ) : KeyPoolWallet κ :=
  { w with setKeyPool := insert nIndex w.setKeyPool }

/-- `GetKeyFromPool`, with the index that it took, or -1.  Its value is whether there is a key, and
the key, where none stands for one that was not set and the default key is none if it is not valid;
a key that is generated outside of the pool is the one for the index 0. -/
def getKeyFromPool (fAllowReuse : Bool) (vchDefaultKey : Option κ) (w : KeyPoolWallet κ) :
    ℤ × KeyPoolResult κ (Bool × Option κ) :=
  let (nIndex, r) := reserveKeyFromKeyPool env w
  match r.value with
  | .error e => (nIndex, { value := .error e, created := r.created, wallet := r.wallet })
  | .ok keypool =>
    if nIndex = -1 then
      let value : Bool × Option κ :=
        if fAllowReuse ∧ vchDefaultKey.isSome then (true, vchDefaultKey)
        else if env.isLocked then (false, none)
        else (true, some (env.generateNewKey 0).vchPubKey)
      (nIndex, { value := .ok value, created := r.created, wallet := r.wallet })
    else (nIndex, { value := .ok (true, keypool.map CKeyPool.vchPubKey), created := r.created,
                    wallet := r.wallet.keepKey env nIndex })

/-- The number of keys of `NewKeyPool`. -/
def nKeys : ℕ := (max env.keypool 0).toNat

/-- `NewKeyPool`.  The counter of the loop is an `int`. -/
def newKeyPool (w : KeyPoolWallet κ) : KeyPoolResult κ Bool :=
  let w : KeyPoolWallet κ := {
    setKeyPool := ∅
    pool := fun nIndex =>
      if nIndex ∈ w.setKeyPool ∧ env.erases nIndex then none else w.pool nIndex }
  if env.isLocked then { value := .ok false, wallet := w }
  else if 2 ^ 31 ≤ nKeys env then { value := .error .undefined, wallet := w }
  else
    let indices := (List.range (nKeys env)).map fun i : ℕ => (i : ℤ) + 1
    { value := .ok true, created := indices, wallet := indices.foldl (fun w nIndex =>
        if env.writes nIndex then w.insertKey nIndex (env.generateNewKey nIndex)
        else { w with setKeyPool := insert nIndex w.setKeyPool }) w }

end KeyPoolWallet

/-! ## Reservations -/

/-- The key pool, the indices that are reserved, and those that were kept. -/
structure KeyPoolSystem (κ : Type*) extends KeyPoolWallet κ where
  reserved : List ℤ := []
  kept : List ℤ := []

/-- The calls.  A key is kept or returned by the index of its reservation. -/
inductive KeyPoolOp (κ : Type*) where
  | topUpKeyPool
  | reserveKeyFromKeyPool
  | keepKey (nIndex : ℤ)
  | returnKey (nIndex : ℤ)
  | getKeyFromPool (fAllowReuse : Bool) (vchDefaultKey : Option κ)
  | addReserveKey (keypool : CKeyPool κ)
  | newKeyPool

/-- The indices for which a call made keys, the index that it handed out, and what is after it. -/
structure KeyPoolStep (κ : Type*) where
  created : List ℤ := []
  handedOut : Option ℤ := none
  after : KeyPoolSystem κ

namespace KeyPoolOp

/-- A call in the system: what it takes is reserved, what is kept stays so.  A failed assertion and
undefined behaviour end the program. -/
def step (env : KeyPoolEnv κ) (s : KeyPoolSystem κ) :
    KeyPoolOp κ → Except KeyPoolError (KeyPoolStep κ)
  | topUpKeyPool =>
    let r := s.topUpKeyPool env
    .ok { created := r.created, after := { s with toKeyPoolWallet := r.wallet } }
  | reserveKeyFromKeyPool =>
    let (nIndex, r) := s.reserveKeyFromKeyPool env
    if r.value matches .error .abort then .error .abort
    else if nIndex = -1 then
      .ok { created := r.created, after := { s with toKeyPoolWallet := r.wallet } }
    else
      .ok { created := r.created, handedOut := some nIndex,
            after := { s with toKeyPoolWallet := r.wallet, reserved := nIndex :: s.reserved } }
  | keepKey nIndex =>
    .ok { after := { toKeyPoolWallet := s.keepKey env nIndex
                     reserved := s.reserved.erase nIndex, kept := nIndex :: s.kept } }
  | returnKey nIndex =>
    .ok { after := { s with toKeyPoolWallet := s.returnKey nIndex
                            reserved := s.reserved.erase nIndex } }
  | getKeyFromPool fAllowReuse vchDefaultKey =>
    let (nIndex, r) := s.getKeyFromPool env fAllowReuse vchDefaultKey
    if r.value matches .error .abort then .error .abort
    else if r.value matches .ok _ ∧ nIndex ≠ -1 then
      .ok { created := r.created, handedOut := some nIndex,
            after := { s with toKeyPoolWallet := r.wallet, kept := nIndex :: s.kept } }
    else .ok { created := r.created, after := { s with toKeyPoolWallet := r.wallet } }
  | addReserveKey keypool =>
    let r := s.addReserveKey env keypool
    if r.value matches .error .undefined then .error .undefined
    else .ok { created := r.created, after := { s with toKeyPoolWallet := r.wallet } }
  | newKeyPool =>
    let r := s.newKeyPool env
    if r.value matches .error .undefined then .error .undefined
    else .ok { created := r.created, after := { s with toKeyPoolWallet := r.wallet } }

/-- A call that forgets the indices of the set before it makes keys. -/
def forgets : KeyPoolOp κ → Bool
  | newKeyPool => true
  | _ => false

end KeyPoolOp

/-- An index is in the set if it has a record and is not reserved; no index is reserved twice; no
index that was kept is in the set or reserved. -/
structure Consistent (s : KeyPoolSystem κ) : Prop where
  mem_iff : ∀ i, i ∈ s.setKeyPool ↔ (s.pool i).isSome = true ∧ i ∉ s.reserved
  reserved_pool : ∀ i ∈ s.reserved, (s.pool i).isSome = true
  nodup : s.reserved.Nodup
  kept_notMem : ∀ i ∈ s.kept, i ∉ s.setKeyPool ∧ i ∉ s.reserved
  pos : ∀ i, (s.pool i).isSome = true → 1 ≤ i

/-- The index that is handed out is neither reserved nor kept, and the new indices are ascending and
larger than all that are live. -/
structure Proper (op : KeyPoolOp κ) (s : KeyPoolSystem κ) (r : KeyPoolStep κ) : Prop where
  handedOut : ∀ i, r.handedOut = some i → i ∉ s.reserved ∧ i ∉ s.kept
  ascending : r.created.Pairwise (· < ·)
  reserved_lt : ∀ i ∈ r.created, ∀ j ∈ s.reserved, j < i
  setKeyPool_lt : op.forgets = false → ∀ i ∈ r.created, ∀ j ∈ s.setKeyPool, j < i

/-! ## The next index -/

variable {t : Finset ℤ}

lemma lt_nextIndex {j : ℤ} (hj : j ∈ t) : j < nextIndex t := by
  have hne : t.Nonempty := ⟨j, hj⟩
  rw [nextIndex, dif_pos hne]
  have hle := t.le_max' j hj
  omega

lemma one_le_nextIndex (hpos : ∀ j ∈ t, 1 ≤ j) : 1 ≤ nextIndex t := by
  unfold nextIndex
  split_ifs with hne
  · have hge := hpos _ (t.max'_mem hne)
    omega
  · exact le_rfl

/-- After the largest index has been added the next one follows it. -/
lemma nextIndex_insert {i : ℤ} (hlt : ∀ j ∈ t, j < i) : nextIndex (insert i t) = i + 1 := by
  have hne : (insert i t).Nonempty := Finset.insert_nonempty i t
  have hmax : (insert i t).max' hne = i := by
    refine le_antisymm ?_ ((insert i t).le_max' i (Finset.mem_insert_self i t))
    refine Finset.max'_le _ hne i fun j hj => ?_
    rcases Finset.mem_insert.mp hj with rfl | hj
    · exact le_rfl
    · exact (hlt j hj).le
  rw [nextIndex, dif_pos hne, hmax]

/-! ## What the calls are made of -/

namespace Consistent

variable {s : KeyPoolSystem κ} {i : ℤ} {keypool : CKeyPool κ}

section

variable (h : Consistent s)

include h

lemma pos_of_mem (hi : i ∈ s.setKeyPool) : 1 ≤ i :=
  h.pos i ((h.mem_iff i).mp hi).1

/-- A new index, larger than those that are live and not one that was kept. -/
lemma insertKey (hpos : 1 ≤ i) (hreserved : i ∉ s.reserved) (hkept : i ∉ s.kept) :
    Consistent { s with toKeyPoolWallet := s.insertKey i keypool } where
  mem_iff j := by
    have hj := h.mem_iff j
    by_cases heq : j = i
    · subst heq
      simp [KeyPoolWallet.insertKey, hreserved]
    · simp [KeyPoolWallet.insertKey, heq, hj]
  reserved_pool j hj := by
    have hne : j ≠ i := fun heq => hreserved (heq ▸ hj)
    simpa [KeyPoolWallet.insertKey, hne] using h.reserved_pool j hj
  nodup := h.nodup
  kept_notMem j hj := by
    obtain ⟨hset, hres⟩ := h.kept_notMem j hj
    have hne : j ≠ i := fun heq => hkept (heq ▸ hj)
    exact ⟨by simp [KeyPoolWallet.insertKey, hne, hset], hres⟩
  pos j hj := by
    by_cases heq : j = i
    · exact heq ▸ hpos
    · exact h.pos j (by simpa [KeyPoolWallet.insertKey, heq] using hj)

/-- An index of the set is reserved. -/
lemma reserve (hi : i ∈ s.setKeyPool) :
    Consistent { s with setKeyPool := s.setKeyPool.erase i, reserved := i :: s.reserved } where
  mem_iff j := by
    have hj := h.mem_iff j
    simp only [Finset.mem_erase, hj, List.mem_cons, not_or]
    tauto
  reserved_pool j hj := by
    rcases List.mem_cons.mp hj with rfl | hj
    · exact ((h.mem_iff j).mp hi).1
    · exact h.reserved_pool j hj
  nodup := List.nodup_cons.mpr ⟨((h.mem_iff i).mp hi).2, h.nodup⟩
  kept_notMem j hj := by
    obtain ⟨hset, hres⟩ := h.kept_notMem j hj
    refine ⟨fun hmem => hset (Finset.mem_of_mem_erase hmem), fun hmem => ?_⟩
    rcases List.mem_cons.mp hmem with rfl | hmem
    · exact hset hi
    · exact hres hmem
  pos := h.pos

/-- A reserved index goes back to the set. -/
lemma returnKey (hi : i ∈ s.reserved) :
    Consistent { s with
      toKeyPoolWallet := s.returnKey i, reserved := s.reserved.erase i } where
  mem_iff j := by
    have hj := h.mem_iff j
    by_cases heq : j = i
    · subst heq
      simp [KeyPoolWallet.returnKey, h.reserved_pool j hi, h.nodup.not_mem_erase]
    · simp [KeyPoolWallet.returnKey, heq, hj, List.mem_erase_of_ne heq]
  reserved_pool j hj := h.reserved_pool j (List.mem_of_mem_erase hj)
  nodup := h.nodup.erase i
  kept_notMem j hj := by
    obtain ⟨hset, hres⟩ := h.kept_notMem j hj
    refine ⟨fun hmem => ?_, fun hmem => hres (List.mem_of_mem_erase hmem)⟩
    rcases Finset.mem_insert.mp hmem with rfl | hmem
    · exact hres hi
    · exact hset hmem
  pos := h.pos

/-- A reserved index is kept, and its record erased. -/
lemma keepKey (hi : i ∈ s.reserved) :
    Consistent { s with
      pool := Function.update s.pool i none, reserved := s.reserved.erase i
      kept := i :: s.kept } where
  mem_iff j := by
    have hj := h.mem_iff j
    by_cases heq : j = i
    · subst heq
      simp [hj, hi]
    · simp [heq, hj, List.mem_erase_of_ne heq]
  reserved_pool j hj := by
    have hne : j ≠ i := fun heq => h.nodup.not_mem_erase (heq ▸ hj)
    simpa [hne] using h.reserved_pool j (List.mem_of_mem_erase hj)
  nodup := h.nodup.erase i
  kept_notMem j hj := by
    rcases List.mem_cons.mp hj with rfl | hj
    · exact ⟨fun hmem => ((h.mem_iff j).mp hmem).2 hi, h.nodup.not_mem_erase⟩
    · obtain ⟨hset, hres⟩ := h.kept_notMem j hj
      exact ⟨hset, fun hmem => hres (List.mem_of_mem_erase hmem)⟩
  pos j hj := by
    by_cases heq : j = i
    · simp [heq] at hj
    · exact h.pos j (by simpa [heq] using hj)

end

end Consistent

/-! ## The calls -/

namespace KeyPoolOp

variable {env : KeyPoolEnv κ} {s : KeyPoolSystem κ} {op : KeyPoolOp κ} {r : KeyPoolStep κ}

/-- Where the pool is filled up, the largest index of the set is larger than those that are reserved,
and none of the new ones was kept. -/
def Refills (env : KeyPoolEnv κ) (s : KeyPoolSystem κ) : Prop :=
  env.isLocked = false → s.setKeyPool.card < KeyPoolWallet.targetCount env →
    (∀ j ∈ s.reserved, j < nextIndex s.setKeyPool) ∧
    ∀ k ∈ s.kept, k < nextIndex s.setKeyPool ∨
      nextIndex s.setKeyPool + (KeyPoolWallet.targetCount env - s.setKeyPool.card : ℕ) ≤ k

/-- The smallest index of the pool is read, its key is one of the wallet, and its record is erased. -/
def Takes (env : KeyPoolEnv κ) (w : KeyPoolWallet κ) : Prop :=
  ∀ i ∈ w.setKeyPool, (∀ j ∈ w.setKeyPool, i ≤ j) →
    env.reads = true ∧ env.fFileBacked = true ∧ env.erases i = true ∧
    ∀ keypool, w.pool i = some keypool → env.haveKey keypool.vchPubKey = true

/-- Only what is reserved is kept or returned. -/
def Allowed (s : KeyPoolSystem κ) : KeyPoolOp κ → Prop
  | keepKey nIndex => nIndex ∈ s.reserved
  | returnKey nIndex => nIndex ∈ s.reserved
  | _ => True

/-- When a call leaves the pool consistent. -/
def Meets (env : KeyPoolEnv κ) (s : KeyPoolSystem κ) : KeyPoolOp κ → Prop
  | topUpKeyPool => Refills env s
  | reserveKeyFromKeyPool => Refills env s
  | keepKey nIndex => env.fFileBacked = true ∧ env.erases nIndex = true
  | returnKey _ => True
  | getKeyFromPool _ _ => Refills env s ∧ Takes env (s.topUpKeyPool env).wallet
  | addReserveKey _ => s.setKeyPool.Nonempty ∧ (env.writes (nextIndex s.setKeyPool) = true →
      (∀ j ∈ s.reserved, j < nextIndex s.setKeyPool) ∧ nextIndex s.setKeyPool ∉ s.kept)
  | newKeyPool => (∀ i ∈ s.setKeyPool, env.erases i = true) ∧ (env.isLocked = false →
      KeyPoolWallet.nKeys env < 2 ^ 31 ∧ ∀ i : ℤ, 1 ≤ i → i ≤ KeyPoolWallet.nKeys env →
        env.writes i = true ∧ i ∉ s.kept ∧ ∀ j ∈ s.reserved, j < i)

/-- The new keys of a refill. -/
lemma topUpLoop_spec (env : KeyPoolEnv κ) (n : ℕ) (h : Consistent s)
    (hreserved : n ≠ 0 → ∀ j ∈ s.reserved, j < nextIndex s.setKeyPool)
    (hkept : ∀ k ∈ s.kept, k < nextIndex s.setKeyPool ∨ nextIndex s.setKeyPool + n ≤ k) :
    let r := KeyPoolWallet.topUpLoop env n s.toKeyPoolWallet
    Consistent { s with toKeyPoolWallet := r.wallet } ∧ r.created.Pairwise (· < ·) ∧
      ∀ i ∈ r.created, nextIndex s.setKeyPool ≤ i := by
  induction n generalizing s with
  | zero => exact ⟨h, List.Pairwise.nil, by simp [KeyPoolWallet.topUpLoop]⟩
  | succ n ih =>
    intro r
    set nEnd := nextIndex s.setKeyPool with hnEnd
    have hlt := hreserved (Nat.succ_ne_zero n)
    cases hwrites : env.writes nEnd with
    | false =>
      have hcreated : r.created = [] := by
        simp [r, KeyPoolWallet.topUpLoop, ← hnEnd, hwrites]
      have hwallet : r.wallet = s.toKeyPoolWallet := by
        simp [r, KeyPoolWallet.topUpLoop, ← hnEnd, hwrites]
      rw [hcreated, hwallet]
      exact ⟨h, List.Pairwise.nil, by simp⟩
    | true =>
      let s' : KeyPoolSystem κ :=
        { s with toKeyPoolWallet := s.insertKey nEnd (env.generateNewKey nEnd) }
      have hr : r = { KeyPoolWallet.topUpLoop env n s'.toKeyPoolWallet with
          created := nEnd :: (KeyPoolWallet.topUpLoop env n s'.toKeyPoolWallet).created } := by
        simp only [r, KeyPoolWallet.topUpLoop, ← hnEnd, hwrites, if_true, s']
      have hnext : nextIndex s'.setKeyPool = nEnd + 1 :=
        nextIndex_insert fun j hj => lt_nextIndex hj
      have hs' : Consistent s' := by
        refine h.insertKey (one_le_nextIndex fun j hj => h.pos_of_mem hj) ?_ ?_
        · exact fun hmem => lt_irrefl _ (hlt nEnd hmem)
        · intro hmem
          rcases hkept nEnd hmem with hlt' | hle
          · exact lt_irrefl _ hlt'
          · omega
      obtain ⟨hcons, hsorted, hge⟩ := ih hs'
        (fun _ j hj => by rw [hnext]; have := hlt j hj; omega)
        (fun k hk => by rw [hnext]; have := hkept k hk; omega)
      rw [hr]
      refine ⟨hcons, List.pairwise_cons.mpr ⟨fun i hi => ?_, hsorted⟩, fun i hi => ?_⟩
      · have hle := hge i hi
        omega
      · rcases List.mem_cons.mp hi with rfl | hi
        · exact le_rfl
        · have hle := hge i hi
          omega

/-- Filling up the pool. -/
lemma topUpKeyPool_spec (h : Consistent s) (hrefills : Refills env s) : let r := s.topUpKeyPool env
    Consistent { s with toKeyPoolWallet := r.wallet } ∧ r.created.Pairwise (· < ·) ∧
      ∀ i ∈ r.created, ∀ j, j ∈ s.reserved ∨ j ∈ s.setKeyPool → j < i := by
  intro r
  cases hlocked : env.isLocked with
  | true =>
    have hr : r = { value := .ok false, wallet := s.toKeyPoolWallet } := by
      simp only [r, KeyPoolWallet.topUpKeyPool, hlocked, if_true]
    rw [hr]
    exact ⟨h, List.Pairwise.nil, by simp⟩
  | false =>
    have hr : r = KeyPoolWallet.topUpLoop env
        (KeyPoolWallet.targetCount env - s.setKeyPool.card) s.toKeyPoolWallet := by
      simp only [r, KeyPoolWallet.topUpKeyPool, hlocked, Bool.false_eq_true, if_false]
    rcases Nat.lt_or_ge s.setKeyPool.card (KeyPoolWallet.targetCount env) with hlt | hge
    · obtain ⟨hreserved, hkept⟩ := hrefills hlocked hlt
      obtain ⟨hcons, hsorted, hle⟩ := topUpLoop_spec env _ h (fun _ => hreserved) hkept
      rw [hr]
      refine ⟨hcons, hsorted, fun i hi j hj => ?_⟩
      rcases hj with hj | hj
      · exact lt_of_lt_of_le (hreserved j hj) (hle i hi)
      · exact lt_of_lt_of_le (lt_nextIndex hj) (hle i hi)
    · rw [Nat.sub_eq_zero_of_le hge] at hr
      rw [hr]
      exact ⟨h, List.Pairwise.nil, by simp [KeyPoolWallet.topUpLoop]⟩

/-- A reservation takes no index, or the smallest one of the refilled pool. -/
lemma reserveKeyFromKeyPool_cases (env : KeyPoolEnv κ) (w : KeyPoolWallet κ) :
    let r₀ := w.topUpKeyPool env
    let r := w.reserveKeyFromKeyPool env
    r.2.created = r₀.created ∧
      ((r.1 = -1 ∧ r.2.wallet = r₀.wallet) ∨
        (r.1 ∈ r₀.wallet.setKeyPool ∧ (∀ j ∈ r₀.wallet.setKeyPool, r.1 ≤ j) ∧
          r.2.wallet = { r₀.wallet with setKeyPool := r₀.wallet.setKeyPool.erase r.1 } ∧
          (env.reads = true → (∃ keypool, r₀.wallet.pool r.1 = some keypool ∧
            env.haveKey keypool.vchPubKey = true) →
              r.2.value = .error .abort ∨ ∃ keypool, r.2.value = .ok keypool))) := by
  intro r₀ r
  have hr₀ : (if env.isLocked then { value := .ok false, wallet := w } else w.topUpKeyPool env)
      = r₀ := by
    cases hlocked : env.isLocked <;> simp [r₀, KeyPoolWallet.topUpKeyPool, hlocked]
  have hr : r = w.reserveKeyFromKeyPool env := rfl
  unfold KeyPoolWallet.reserveKeyFromKeyPool at hr
  rw [hr₀] at hr
  cases hvalue : r₀.value with
  | error e =>
    simp only [hvalue] at hr
    rw [hr]
    exact ⟨rfl, .inl ⟨rfl, rfl⟩⟩
  | ok filled =>
    simp only [hvalue] at hr
    by_cases hne : r₀.wallet.setKeyPool.Nonempty
    · rw [dif_pos hne] at hr
      rw [hr]
      refine ⟨rfl, .inr ⟨Finset.min'_mem _ hne, fun j hj => Finset.min'_le _ j hj, rfl, ?_⟩⟩
      rintro hreads ⟨keypool, hpool, hhave⟩
      dsimp only at hpool ⊢
      rw [if_pos hreads, hpool]
      simp only [hhave, Bool.not_true, Bool.false_eq_true, if_false]
      split_ifs
      · exact .inl rfl
      · exact .inr ⟨_, rfl⟩
    · rw [dif_neg hne] at hr
      rw [hr]
      exact ⟨rfl, .inl ⟨rfl, rfl⟩⟩

/-- The keys of a new pool, none of which is reserved or was kept. -/
lemma insertAll_consistent (indices : List ℤ) (h : Consistent s)
    (hindices : ∀ i ∈ indices, 1 ≤ i ∧ env.writes i = true ∧ i ∉ s.kept ∧ i ∉ s.reserved) :
    Consistent { s with toKeyPoolWallet := indices.foldl (fun w nIndex =>
      if env.writes nIndex then w.insertKey nIndex (env.generateNewKey nIndex)
      else { w with setKeyPool := insert nIndex w.setKeyPool }) s.toKeyPoolWallet } := by
  refine List.foldlRecOn (motive := fun w => Consistent { s with toKeyPoolWallet := w }) indices _ h
    fun w hw i hi => ?_
  obtain ⟨hpos, hwrites, hkept, hreserved⟩ := hindices i hi
  rw [if_pos hwrites]
  exact Consistent.insertKey hw hpos hreserved hkept

/-- All records of the set are erased. -/
lemma clear_consistent (h : Consistent s) (herases : ∀ i ∈ s.setKeyPool, env.erases i = true) :
    Consistent { s with setKeyPool := ∅, pool := fun nIndex =>
      if nIndex ∈ s.setKeyPool ∧ env.erases nIndex then none else s.pool nIndex } where
  mem_iff i := by
    have hi := h.mem_iff i
    by_cases hmem : i ∈ s.setKeyPool
    · simp [hmem, herases i hmem]
    · simp only [hmem, false_and, if_false, Finset.notMem_empty, false_iff]
      exact fun hrecord => hmem (hi.mpr hrecord)
  reserved_pool i hi := by
    have hmem : i ∉ s.setKeyPool := fun hmem => ((h.mem_iff i).mp hmem).2 hi
    simpa [hmem] using h.reserved_pool i hi
  nodup := h.nodup
  kept_notMem i hi := ⟨Finset.notMem_empty i, (h.kept_notMem i hi).2⟩
  pos i hi := by
    refine h.pos i ?_
    dsimp only at hi
    split_ifs at hi with herased
    · exact absurd hi (by simp)
    · exact hi

/-- The indices of a new pool. -/
lemma mem_newIndices {n : ℕ} {i : ℤ} :
    i ∈ ((List.range n).map fun k : ℕ => (k : ℤ) + 1) ↔ 1 ≤ i ∧ i ≤ n := by
  rw [List.mem_map]
  constructor
  · rintro ⟨k, hk, rfl⟩
    rw [List.mem_range] at hk
    omega
  · rintro ⟨hge, hle⟩
    exact ⟨(i - 1).toNat, List.mem_range.mpr (by omega), by omega⟩

lemma newKeyPool_spec (h : Consistent s) (hmeets : newKeyPool.Meets env s) :
    let r := s.newKeyPool env
    r.value ≠ .error .undefined ∧ Consistent { s with toKeyPoolWallet := r.wallet } ∧
      r.created.Pairwise (· < ·) ∧ ∀ i ∈ r.created, ∀ j ∈ s.reserved, j < i := by
  intro r
  obtain ⟨herases, hunlocked⟩ := hmeets
  have hclear := clear_consistent h herases
  have hr : r = s.newKeyPool env := rfl
  unfold KeyPoolWallet.newKeyPool at hr
  cases hlocked : env.isLocked with
  | true =>
    simp only [hlocked, if_true] at hr
    rw [hr]
    exact ⟨by simp, hclear, List.Pairwise.nil, by simp⟩
  | false =>
    obtain ⟨hlt, hnew⟩ := hunlocked hlocked
    simp only [hlocked, Bool.false_eq_true, if_false, if_neg (not_le.mpr hlt)] at hr
    have hreserved : ∀ i : ℤ, 1 ≤ i → i ≤ KeyPoolWallet.nKeys env → ∀ j ∈ s.reserved, j < i :=
      fun i hge hle => (hnew i hge hle).2.2
    rw [hr]
    refine ⟨by simp, insertAll_consistent _ hclear fun i hi => ?_, ?_, fun i hi => ?_⟩
    · obtain ⟨hge, hle⟩ := mem_newIndices.mp hi
      obtain ⟨hwrites, hkept, hres⟩ := hnew i hge hle
      exact ⟨hge, hwrites, hkept, fun hmem => lt_irrefl i (hres i hmem)⟩
    · rw [List.pairwise_map]
      exact List.pairwise_lt_range.imp fun hlt => by omega
    · obtain ⟨hge, hle⟩ := mem_newIndices.mp hi
      exact hreserved i hge hle

/-! ## A step -/

section

variable (h : Consistent s)

include h

/-- A call that fills up the pool and hands out at most an index that the set has then. -/
lemma proper_of_refill (hrefills : Refills env s)
    (hcreated : r.created = (s.topUpKeyPool env).created)
    (hhanded : ∀ i, r.handedOut = some i → i ∈ (s.topUpKeyPool env).wallet.setKeyPool) :
    Proper op s r := by
  obtain ⟨hcons, hsorted, hlt⟩ := topUpKeyPool_spec h hrefills
  rw [← hcreated] at hsorted hlt
  refine ⟨fun i hi => ?_, hsorted, fun i hi j hj => hlt i hi j (.inl hj),
    fun _ i hi j hj => hlt i hi j (.inr hj)⟩
  have hmem := hhanded i hi
  exact ⟨((hcons.mem_iff i).mp hmem).2, fun hkept => (hcons.kept_notMem i hkept).1 hmem⟩

lemma step_reserveKeyFromKeyPool (hmeets : reserveKeyFromKeyPool.Meets env s) :
    reserveKeyFromKeyPool.step env s = .error .abort ∨
      ∃ r, reserveKeyFromKeyPool.step env s = .ok r ∧ Proper reserveKeyFromKeyPool s r ∧
        Consistent r.after := by
  have hcons := (topUpKeyPool_spec h hmeets).1
  obtain ⟨hcreated, hcases⟩ := reserveKeyFromKeyPool_cases env s.toKeyPoolWallet
  unfold step
  dsimp only
  generalize KeyPoolWallet.reserveKeyFromKeyPool env s.toKeyPoolWallet = q at hcreated hcases ⊢
  split_ifs with habort hnone
  · exact .inl rfl
  · refine .inr ⟨_, rfl, proper_of_refill h hmeets hcreated (by simp), ?_⟩
    rcases hcases with ⟨-, hwallet⟩ | ⟨hmem, -⟩
    · dsimp only
      rw [hwallet]
      exact hcons
    · have hpos := hcons.pos_of_mem hmem
      omega
  · rcases hcases with ⟨hindex, -⟩ | ⟨hmem, -, hwallet, -⟩
    · exact absurd hindex hnone
    · refine .inr ⟨_, rfl, proper_of_refill h hmeets hcreated ?_, ?_⟩
      · rintro i ⟨⟩
        exact hmem
      · dsimp only
        rw [hwallet]
        exact hcons.reserve hmem

lemma step_getKeyFromPool {fAllowReuse : Bool} {vchDefaultKey : Option κ}
    (hmeets : (getKeyFromPool fAllowReuse vchDefaultKey).Meets env s) :
    (getKeyFromPool fAllowReuse vchDefaultKey).step env s = .error .abort ∨
      ∃ r, (getKeyFromPool fAllowReuse vchDefaultKey).step env s = .ok r ∧
        Proper (getKeyFromPool fAllowReuse vchDefaultKey) s r ∧ Consistent r.after := by
  obtain ⟨hrefills, htakes⟩ := hmeets
  have hcons := (topUpKeyPool_spec h hrefills).1
  obtain ⟨hcreated, hcases⟩ := reserveKeyFromKeyPool_cases env s.toKeyPoolWallet
  unfold step KeyPoolWallet.getKeyFromPool
  dsimp only
  generalize KeyPoolWallet.reserveKeyFromKeyPool env s.toKeyPoolWallet = q at hcreated hcases ⊢
  obtain ⟨nIndex, value, created, wallet⟩ := q
  dsimp only at hcreated hcases ⊢
  rcases hcases with ⟨rfl, hwallet⟩ | ⟨hmem, hleast, hwallet, hvalue⟩
  · -- Nothing is taken from the pool.
    subst hwallet
    have hproper : Proper (getKeyFromPool fAllowReuse vchDefaultKey) s
        { created, after := { s with toKeyPoolWallet := (s.topUpKeyPool env).wallet } } :=
      proper_of_refill h hrefills hcreated (by simp)
    cases value with
    | error e =>
      cases e with
      | abort => exact .inl rfl
      | _ => exact .inr ⟨_, rfl, hproper, hcons⟩
    | ok keypool => exact .inr ⟨_, rfl, hproper, hcons⟩
  · obtain ⟨hreads, hbacked, herases, hhave⟩ := htakes nIndex hmem hleast
    obtain ⟨keypool, hpool⟩ := Option.isSome_iff_exists.mp ((hcons.mem_iff nIndex).mp hmem).1
    have hpos : nIndex ≠ -1 := by
      have hge := hcons.pos_of_mem hmem
      omega
    rcases hvalue hreads ⟨keypool, hpool, hhave keypool hpool⟩ with rfl | ⟨result, rfl⟩
    · exact .inl rfl
    · -- The index is reserved and kept at once.
      have hkeep := (hcons.reserve hmem).keepKey List.mem_cons_self
      rw [List.erase_cons_head] at hkeep
      refine .inr ⟨{ created, handedOut := some nIndex, after := { s with
        toKeyPoolWallet := wallet.keepKey env nIndex, kept := nIndex :: s.kept } }, ?_, ?_, ?_⟩
      · simp [hpos]
      · refine proper_of_refill h hrefills hcreated ?_
        rintro i ⟨⟩
        exact hmem
      · dsimp only
        rw [hwallet, KeyPoolWallet.keepKey, if_pos ⟨hbacked, herases⟩]
        exact hkeep

lemma step_addReserveKey {keypool : CKeyPool κ} (hmeets : (addReserveKey keypool).Meets env s) :
    ∃ r, (addReserveKey keypool).step env s = .ok r ∧ Proper (addReserveKey keypool) s r ∧
      Consistent r.after := by
  obtain ⟨hne, hnew⟩ := hmeets
  unfold step KeyPoolWallet.addReserveKey
  dsimp only
  rw [if_pos hne]
  cases hwrites : env.writes (nextIndex s.setKeyPool) with
  | false => exact ⟨_, rfl, ⟨by simp, List.Pairwise.nil, by simp, by simp⟩, h⟩
  | true =>
    obtain ⟨hreserved, hkept⟩ := hnew hwrites
    refine ⟨_, rfl, ⟨by simp, List.pairwise_singleton _ _, ?_, ?_⟩, ?_⟩
    · intro i hi
      obtain rfl := List.mem_singleton.mp hi
      exact hreserved
    · intro _ i hi j hj
      obtain rfl := List.mem_singleton.mp hi
      exact lt_nextIndex hj
    · refine h.insertKey (one_le_nextIndex fun j hj => h.pos_of_mem hj) (fun hmem => ?_) hkept
      exact lt_irrefl _ (hreserved _ hmem)

/-- A call that meets its condition. -/
lemma step_of_meets (hallowed : op.Allowed s) (hmeets : op.Meets env s) :
    op.step env s = .error .abort ∨
      ∃ r, op.step env s = .ok r ∧ Proper op s r ∧ Consistent r.after := by
  have hnone : ∀ s' : KeyPoolSystem κ, Proper op s { after := s' } := fun s' =>
    ⟨by simp, List.Pairwise.nil, by simp, by simp⟩
  cases op with
  | topUpKeyPool =>
    exact .inr ⟨_, rfl, proper_of_refill h hmeets rfl (by simp), (topUpKeyPool_spec h hmeets).1⟩
  | reserveKeyFromKeyPool => exact step_reserveKeyFromKeyPool h hmeets
  | keepKey nIndex =>
    obtain ⟨hbacked, herases⟩ := hmeets
    refine .inr ⟨_, rfl, hnone _, ?_⟩
    rw [KeyPoolWallet.keepKey, if_pos ⟨hbacked, herases⟩]
    exact h.keepKey hallowed
  | returnKey nIndex => exact .inr ⟨_, rfl, hnone _, h.returnKey hallowed⟩
  | getKeyFromPool fAllowReuse vchDefaultKey => exact step_getKeyFromPool h hmeets
  | addReserveKey keypool => exact .inr (step_addReserveKey h hmeets)
  | newKeyPool =>
    obtain ⟨hdefined, hcons, hsorted, hlt⟩ := newKeyPool_spec h hmeets
    refine .inr ⟨{ created := (s.newKeyPool env).created, after := { s with
      toKeyPoolWallet := (s.newKeyPool env).wallet } }, ?_, ⟨by simp, hsorted, hlt, by simp [forgets]⟩,
      hcons⟩
    unfold step
    dsimp only
    rw [if_neg]
    intro hundefined
    split at hundefined
    · rename_i hvalue
      exact hdefined hvalue
    · cases hundefined

end

/-! ## Every sequence of calls -/

/-- The pool is consistent before and after each call, and each call is proper. -/
def Keeps : KeyPoolSystem κ → List (KeyPoolEnv κ × KeyPoolOp κ) → Prop
  | s, [] => Consistent s
  | s, (env, op) :: ops => Consistent s ∧ (op.Allowed s →
    match op.step env s with
    | .error e => e = .abort
    | .ok r => Proper op s r ∧ Keeps r.after ops)

/-- Each call meets its condition in the state that it finds. -/
def AllMeet : KeyPoolSystem κ → List (KeyPoolEnv κ × KeyPoolOp κ) → Prop
  | _, [] => True
  | s, (env, op) :: ops => op.Allowed s → op.Meets env s ∧
    ∀ r, op.step env s = .ok r → AllMeet r.after ops

lemma Keeps.step {ops : List (KeyPoolEnv κ × KeyPoolOp κ)} (h : Keeps s ((env, op) :: ops))
    (hallowed : op.Allowed s) (hstep : op.step env s = .ok r) :
    Proper op s r ∧ Keeps r.after ops := by
  have hmatch := h.2 hallowed
  rw [hstep] at hmatch
  exact hmatch

lemma consistent_empty : Consistent ({} : KeyPoolSystem κ) where
  mem_iff i := by simp
  reserved_pool i hi := by simp at hi
  nodup := List.nodup_nil
  kept_notMem i hi := by simp at hi
  pos i hi := by simp at hi

end KeyPoolOp

end HyperStake
