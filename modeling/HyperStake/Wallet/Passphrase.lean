import HyperStake.Library.ExceptLoop
import HyperStake.Wallet.CryptoKeyStore

/-!
# The passphrase of the wallet

The master key is encrypted under every passphrase in a record of its own.  `CWallet::Unlock` tries
the records one after the other; `ChangeWalletPassphrase` locks the wallet, looks in the same way
for the record that the old passphrase opens, and encrypts its key under the new one.

It is only after a change that the lock state is what it was before.  If the old passphrase opens no
record, a wallet that was unlocked stays locked; and after a change a record in front can keep
`Unlock` from coming to the one that was changed (`changes_iff`).
-/

namespace HyperStake.Keystore

/-! ## Records of master keys -/

structure CMasterKey where
  vchCryptedKey : Bytes
  vchSalt : Bytes
  nDerivationMethod : UInt32 := 0
  nDeriveIterations : UInt32 := 25000

/-- What OpenSSL does for a `CCrypter` that is given a passphrase. -/
structure PassEnv where
  /-- The bytes of a `CCrypter`. -/
  Key : Type
  /-- `EVP_BytesToKey` of a passphrase, a salt and a number of rounds, if it derives 32 bytes. -/
  bytesToKey : Bytes → Bytes → UInt32 → Option Key
  /-- `CCrypter::Encrypt`: whether it succeeds, and the ciphertext that it leaves. -/
  encrypt : Key → Bytes → Bool × Bytes
  /-- `CCrypter::Decrypt`. -/
  decrypt : Key → Bytes → Option Bytes

/-- OpenSSL derives a key from every passphrase, and encrypts every text so that it can be
decrypted. -/
structure PassEnv.Works (pass : PassEnv) : Prop where
  isSome_bytesToKey : ∀ strKeyData chSalt nRounds,
    (pass.bytesToKey strKeyData chSalt nRounds).isSome
  encrypt_fst : ∀ key vchPlaintext, (pass.encrypt key vchPlaintext).1 = true
  decrypt_encrypt : ∀ key vchPlaintext,
    pass.decrypt key (pass.encrypt key vchPlaintext).2 = some vchPlaintext

section Definitions

variable (env : Env) (pass : PassEnv)

/-- `SetKeyFromPassphrase` with the parameters of a record. -/
def setKeyFromPassphrase (strKeyData : Bytes) (masterKey : CMasterKey) : Option pass.Key :=
  if masterKey.nDeriveIterations < 1 ∨ masterKey.vchSalt.length ≠ 8 then none
  else if masterKey.nDerivationMethod = 0 then
    pass.bytesToKey strKeyData masterKey.vchSalt masterKey.nDeriveIterations
  else none

/-- The wallet with its records, in the order of their numbers, and those that have been written to
the database. -/
structure PassWallet where
  store : CCryptoKeyStore
  mapMasterKeys : List (UInt32 × CMasterKey)
  written : List (UInt32 × CMasterKey) := []

/-- The loop of `CWallet::Unlock`. -/
def unlockLoop (strWalletPassphrase : Bytes) :
    List (UInt32 × CMasterKey) → CCryptoKeyStore → Except Fault Bool × CCryptoKeyStore
  | [], s => (.ok false, s)
  | (_, masterKey) :: rest, s =>
    match setKeyFromPassphrase pass strWalletPassphrase masterKey with
    | none => (.ok false, s)
    | some key =>
      match pass.decrypt key masterKey.vchCryptedKey with
      | none => (.ok false, s)
      | some vMasterKey =>
        match s.unlock env vMasterKey with
        | (.ok false, s) => unlockLoop strWalletPassphrase rest s
        | r => r

/-- `CWallet::Unlock`. -/
def PassWallet.unlock (strWalletPassphrase : Bytes) (w : PassWallet) :
    Except Fault Bool × CCryptoKeyStore :=
  if !w.store.isLocked then (.ok false, w.store)
  else unlockLoop env pass strWalletPassphrase w.mapMasterKeys w.store

/-- What the readings of the clock make of the number of iterations, in the first and in the second
measurement.  The conversion of a result that does not fit is undefined. -/
structure Timing where
  first : UInt32 → Except Fault UInt32
  second : UInt32 → Except Fault UInt32

/-- The number of iterations that `ChangeWalletPassphrase` sets. -/
def Timing.iterations (t : Timing) (nDeriveIterations : UInt32) : Except Fault UInt32 :=
  (t.first nDeriveIterations).bind fun n =>
    (t.second n).map fun n => if n < 25000 then 25000 else n

/-- The body of the loop of `ChangeWalletPassphrase` for the record that has been opened. -/
def changeRecord (strNewWalletPassphrase : Bytes) (t : Timing) (fWasLocked : Bool)
    (id : UInt32) (masterKey : CMasterKey) (rest : List (UInt32 × CMasterKey)) (vMasterKey : Bytes)
    (s : CCryptoKeyStore) : Except Fault Bool × PassWallet :=
  match t.iterations masterKey.nDeriveIterations with
  | .error e => (.error e, ⟨s, (id, masterKey) :: rest, []⟩)
  | .ok n =>
    let masterKey := { masterKey with nDeriveIterations := n }
    match setKeyFromPassphrase pass strNewWalletPassphrase masterKey with
    | none => (.ok false, ⟨s, (id, masterKey) :: rest, []⟩)
    | some key =>
      let (fOk, vchCiphertext) := pass.encrypt key vMasterKey
      let masterKey := { masterKey with vchCryptedKey := vchCiphertext }
      if !fOk then (.ok false, ⟨s, (id, masterKey) :: rest, []⟩)
      else
        (.ok true, ⟨if fWasLocked then s.lock.2 else s, (id, masterKey) :: rest,
          [(id, masterKey)]⟩)

/-- The loop of `ChangeWalletPassphrase`. -/
def changeLoop (strOldWalletPassphrase strNewWalletPassphrase : Bytes) (t : Timing)
    (fWasLocked : Bool) :
    List (UInt32 × CMasterKey) → CCryptoKeyStore → Except Fault Bool × PassWallet
  | [], s => (.ok false, ⟨s, [], []⟩)
  | (id, masterKey) :: rest, s =>
    match setKeyFromPassphrase pass strOldWalletPassphrase masterKey with
    | none => (.ok false, ⟨s, (id, masterKey) :: rest, []⟩)
    | some key =>
      match pass.decrypt key masterKey.vchCryptedKey with
      | none => (.ok false, ⟨s, (id, masterKey) :: rest, []⟩)
      | some vMasterKey =>
        match s.unlock env vMasterKey with
        | (.error e, s) => (.error e, ⟨s, (id, masterKey) :: rest, []⟩)
        | (.ok true, s) =>
          changeRecord pass strNewWalletPassphrase t fWasLocked id masterKey rest vMasterKey s
        | (.ok false, s) =>
          let (r, w) := changeLoop strOldWalletPassphrase strNewWalletPassphrase t fWasLocked rest s
          (r, { w with mapMasterKeys := (id, masterKey) :: w.mapMasterKeys })

def PassWallet.changeWalletPassphrase (strOldWalletPassphrase strNewWalletPassphrase : Bytes)
    (t : Timing) (w : PassWallet) : Except Fault Bool × PassWallet :=
  let fWasLocked := w.store.isLocked
  let (r, w') := changeLoop env pass strOldWalletPassphrase strNewWalletPassphrase t fWasLocked
    w.mapMasterKeys w.store.lock.2
  (r, { w' with written := w.written ++ w'.written })

/-! ## What is asked of a change -/

/-- The wallet after `Lock`. -/
def PassWallet.locked (w : PassWallet) : PassWallet := { w with store := w.store.lock.2 }

/-- If `ChangeWalletPassphrase` returns false, nothing has changed; if it returns true, the lock
state is what it was, and the new passphrase unlocks the locked wallet with the same master key as
the old one before. -/
def PassWallet.Changes (strOldWalletPassphrase strNewWalletPassphrase : Bytes) (t : Timing)
    (w : PassWallet) : Prop :=
  let (r, w') :=
    w.changeWalletPassphrase env pass strOldWalletPassphrase strNewWalletPassphrase t
  (r = .ok false → w'.store.isLocked = w.store.isLocked ∧
    w'.store.vMasterKey = w.store.vMasterKey ∧ w'.mapMasterKeys = w.mapMasterKeys) ∧
  (r = .ok true → w'.store.isLocked = w.store.isLocked ∧
    ∃ s s', w.locked.unlock env pass strOldWalletPassphrase = (.ok true, s) ∧
      w'.locked.unlock env pass strNewWalletPassphrase = (.ok true, s') ∧
      s'.vMasterKey = s.vMasterKey)

/-- How the trial of the records with a passphrase ends. -/
inductive Trial where
  /-- A key cannot be derived or a record not be decrypted. -/
  | stopped
  /-- The keystore refuses all keys. -/
  | refused
  /-- The keystore throws. -/
  | thrown (e : Fault)
  /-- The keystore accepts the key of a record, behind others. -/
  | opened (front : List (UInt32 × CMasterKey)) (id : UInt32) (masterKey : CMasterKey)
      (rest : List (UInt32 × CMasterKey)) (vMasterKey : Bytes)

/-- A record in front whose key the keystore refuses. -/
def Trial.behind (entry : UInt32 × CMasterKey) : Trial → Trial
  | .opened front id masterKey rest vMasterKey =>
    .opened (entry :: front) id masterKey rest vMasterKey
  | trial => trial

/-- The trial of some records. -/
def tryKeys (s : CCryptoKeyStore) (strPassphrase : Bytes) : List (UInt32 × CMasterKey) → Trial
  | [] => .refused
  | (id, masterKey) :: rest =>
    match setKeyFromPassphrase pass strPassphrase masterKey with
    | none => .stopped
    | some key =>
      match pass.decrypt key masterKey.vchCryptedKey with
      | none => .stopped
      | some vMasterKey =>
        match (s.unlock env vMasterKey).1 with
        | .error e => .thrown e
        | .ok true => .opened [] id masterKey rest vMasterKey
        | .ok false => (tryKeys s strPassphrase rest).behind (id, masterKey)

/-- The condition of the change.  If the old passphrase opens no record, the wallet was locked or
cannot be.  If it opens one, the wallet was locked or the key is not empty, and the records in front
of it are all refused with the new passphrase, or the first that is accepted gives the same key. -/
def PassWallet.Meets (strOldWalletPassphrase strNewWalletPassphrase : Bytes) (t : Timing)
    (w : PassWallet) : Prop :=
  match tryKeys env pass w.store strOldWalletPassphrase w.mapMasterKeys with
  | .thrown _ => True
  | .opened front _ masterKey _ vMasterKey =>
    (∃ n, t.iterations masterKey.nDeriveIterations = .ok n) →
      (w.store.isLocked = true ∨ vMasterKey ≠ []) ∧
      match tryKeys env pass w.store strNewWalletPassphrase front with
      | .refused => True
      | .opened _ _ _ _ vMasterKey' => vMasterKey' = vMasterKey
      | _ => False
  | _ => w.store.isLocked = true ∨ w.store.setCrypted.1 = false

end Definitions

variable {env : Env} {pass : PassEnv} {s s' : CCryptoKeyStore} {w : PassWallet} {t : Timing}
  {vMasterKey strPassphrase strOldWalletPassphrase strNewWalletPassphrase : Bytes}
  {masterKeys front rest : List (UInt32 × CMasterKey)} {id : UInt32} {masterKey : CMasterKey}

/-! ## What the keystore accepts -/

namespace CCryptoKeyStore

/-- Whether a master key decrypts the first of some encrypted keys. -/
def decryptsFirst (env : Env) (vMasterKeyIn : Bytes) :
    List (BitVec 160 × Bytes × Bytes) → Except Fault Bool
  | [] => .ok true
  | (_, vchPubKey, vchCryptedSecret) :: _ =>
    match decryptSecret env vMasterKeyIn vchCryptedSecret (env.hash vchPubKey) with
    | none => .ok false
    | some vchSecret =>
      if vchSecret.length ≠ 32 then .ok false
      else ((restoreKey env {} vchPubKey vchSecret).bind CKey.getPubKey).map
        fun vchPubKey' => decide (vchPubKey' = vchPubKey)

/-- `Unlock` of a keystore that is encrypted. -/
lemma unlock_eq (hcrypto : s.fUseCrypto = true) (env : Env) (vMasterKeyIn : Bytes) :
    s.unlock env vMasterKeyIn = (decryptsFirst env vMasterKeyIn s.mapCryptedKeys.toList,
      match decryptsFirst env vMasterKeyIn s.mapCryptedKeys.toList with
      | .ok true => { s with vMasterKey := vMasterKeyIn }
      | _ => s) := by
  have hset : s.setCrypted = (true, s) := if_pos hcrypto
  rw [unlock, hset]
  dsimp only
  cases s.mapCryptedKeys.toList with
  | nil => rfl
  | cons entry entries =>
    obtain ⟨keyID, vchPubKey, vchCryptedSecret⟩ := entry
    rw [decryptsFirst]
    dsimp only
    cases decryptSecret env vMasterKeyIn vchCryptedSecret (env.hash vchPubKey) with
    | none => rfl
    | some vchSecret =>
      dsimp only
      by_cases hsize : vchSecret.length ≠ 32
      · rw [if_pos hsize, if_pos hsize]
      · rw [if_neg hsize, if_neg hsize]
        cases (restoreKey env {} vchPubKey vchSecret).bind CKey.getPubKey with
        | error e => rfl
        | ok vchPubKey' =>
          dsimp only [Except.map]
          by_cases heq : vchPubKey' = vchPubKey
          · rw [if_pos heq, decide_eq_true heq]
          · rw [if_neg heq, decide_eq_false heq]

/-- What `SetCrypted` does. -/
lemma setCrypted_cases (s : CCryptoKeyStore) :
    s.setCrypted = (false, s) ∧ s.fUseCrypto = false ∨
      s.setCrypted = (true, { s with fUseCrypto := true }) := by
  rw [setCrypted]
  cases hcrypto : s.fUseCrypto with
  | true =>
    refine Or.inr ?_
    obtain ⟨mapKeys, mapCryptedKeys, vMasterKey, fUseCrypto⟩ := s
    cases hcrypto
    rfl
  | false =>
    rw [if_neg Bool.false_ne_true]
    split_ifs
    · exact Or.inl ⟨rfl, rfl⟩
    · exact Or.inr rfl

/-- A keystore that cannot be encrypted accepts nothing and stays as it is. -/
lemma unlock_of_not_setCrypted (h : s.setCrypted = (false, s)) (env : Env) (vMasterKeyIn : Bytes) :
    s.unlock env vMasterKeyIn = (.ok false, s) := by
  rw [unlock, h]

/-- `Lock` of a keystore: nothing happens if it cannot be encrypted. -/
lemma lock_cases (s : CCryptoKeyStore) :
    s.setCrypted = (false, s) ∧ s.fUseCrypto = false ∧ s.lock.2 = s ∨
      s.setCrypted.1 = true ∧ s.lock.2 = { s with fUseCrypto := true, vMasterKey := [] } := by
  rcases setCrypted_cases s with ⟨h, hcrypto⟩ | h
  · exact Or.inl ⟨h, hcrypto, by rw [lock, h]⟩
  · exact Or.inr ⟨by rw [h], by rw [lock, h]⟩

/-- A keystore accepts the same master keys when it is locked. -/
lemma unlock_lock (s : CCryptoKeyStore) (env : Env) (vMasterKeyIn : Bytes) :
    (s.lock.2.unlock env vMasterKeyIn).1 = (s.unlock env vMasterKeyIn).1 := by
  rcases setCrypted_cases s with ⟨h, -⟩ | h
  · rw [lock, h]
  · have hunlock : s.unlock env vMasterKeyIn =
        ({ s with fUseCrypto := true } : CCryptoKeyStore).unlock env vMasterKeyIn := by
      rw [unlock, h, unlock, setCrypted, if_pos rfl]
    have hlock : s.lock.2 = { s with fUseCrypto := true, vMasterKey := [] } := by
      rw [lock, h]
    rw [hunlock, hlock, unlock_eq (s := { s with fUseCrypto := true }) rfl,
      unlock_eq (s := { s with fUseCrypto := true, vMasterKey := [] }) rfl]

/-- `Unlock` of a keystore that is encrypted or cannot be sets the master key that it accepts. -/
lemma unlock_eq_match (h : s.setCrypted = (false, s) ∨ s.fUseCrypto = true) (env : Env)
    (vMasterKeyIn : Bytes) :
    s.unlock env vMasterKeyIn = ((s.unlock env vMasterKeyIn).1,
      match (s.unlock env vMasterKeyIn).1 with
      | .ok true => { s with vMasterKey := vMasterKeyIn }
      | _ => s) := by
  rcases h with h | h
  · rw [unlock_of_not_setCrypted h]
  · rw [unlock_eq h]

end CCryptoKeyStore

/-! ## The records that are tried -/

lemma tryKeys_congr
    (h : ∀ vMasterKeyIn, (s'.unlock env vMasterKeyIn).1 = (s.unlock env vMasterKeyIn).1)
    (masterKeys : List (UInt32 × CMasterKey)) :
    tryKeys env pass s' strPassphrase masterKeys = tryKeys env pass s strPassphrase masterKeys := by
  induction masterKeys with
  | nil => rfl
  | cons entry rest ih =>
    obtain ⟨id, masterKey⟩ := entry
    simp only [tryKeys, h, ih]

/-- What is known of a record that is opened. -/
lemma tryKeys_opened
    (h : tryKeys env pass s strPassphrase masterKeys = .opened front id masterKey rest vMasterKey) :
    masterKeys = front ++ (id, masterKey) :: rest ∧
      (∃ key, setKeyFromPassphrase pass strPassphrase masterKey = some key ∧
        pass.decrypt key masterKey.vchCryptedKey = some vMasterKey) ∧
      (s.unlock env vMasterKey).1 = .ok true := by
  induction masterKeys generalizing front with
  | nil => cases h
  | cons entry masterKeys ih =>
    obtain ⟨id', masterKey'⟩ := entry
    rw [tryKeys] at h
    cases hkey : setKeyFromPassphrase pass strPassphrase masterKey' with
    | none =>
      rw [hkey] at h
      cases h
    | some key =>
      simp only [hkey] at h
      cases hdecrypt : pass.decrypt key masterKey'.vchCryptedKey with
      | none =>
        rw [hdecrypt] at h
        cases h
      | some vMasterKey' =>
        simp only [hdecrypt] at h
        cases hunlock : (s.unlock env vMasterKey').1 with
        | error e =>
          rw [hunlock] at h
          cases h
        | ok b =>
          rw [hunlock] at h
          cases b with
          | true =>
            cases h
            exact ⟨rfl, ⟨key, hkey, hdecrypt⟩, hunlock⟩
          | false =>
            dsimp only at h
            cases htrial : tryKeys env pass s strPassphrase masterKeys with
            | opened front' id'' masterKey'' rest'' vMasterKey'' =>
              rw [htrial] at h
              cases h
              obtain ⟨rfl, hopens, haccepts⟩ := ih htrial
              exact ⟨rfl, hopens, haccepts⟩
            | _ =>
              rw [htrial] at h
              cases h

/-- Records with more records behind them. -/
lemma tryKeys_append (front masterKeys : List (UInt32 × CMasterKey)) :
    tryKeys env pass s strPassphrase (front ++ masterKeys) =
      match tryKeys env pass s strPassphrase front with
      | .opened front' id masterKey rest vMasterKey =>
        .opened front' id masterKey (rest ++ masterKeys) vMasterKey
      | .refused => front.foldr Trial.behind (tryKeys env pass s strPassphrase masterKeys)
      | trial => trial := by
  induction front with
  | nil => rfl
  | cons entry front ih =>
    obtain ⟨id, masterKey⟩ := entry
    rw [List.cons_append, tryKeys, tryKeys]
    cases setKeyFromPassphrase pass strPassphrase masterKey with
    | none => rfl
    | some key =>
      dsimp only
      cases pass.decrypt key masterKey.vchCryptedKey with
      | none => rfl
      | some vMasterKey =>
        dsimp only
        cases (s.unlock env vMasterKey).1 with
        | error e => rfl
        | ok b =>
          cases b with
          | true => rfl
          | false =>
            dsimp only
            rw [ih]
            cases tryKeys env pass s strPassphrase front <;> rfl

/-- The loop of `Unlock`. -/
lemma unlockLoop_eq (h : s.setCrypted = (false, s) ∨ s.fUseCrypto = true)
    (masterKeys : List (UInt32 × CMasterKey)) :
    unlockLoop env pass strPassphrase masterKeys s =
      match tryKeys env pass s strPassphrase masterKeys with
      | .opened _ _ _ _ vMasterKey => (.ok true, { s with vMasterKey })
      | .thrown e => (.error e, s)
      | _ => (.ok false, s) := by
  induction masterKeys with
  | nil => rfl
  | cons entry rest ih =>
    obtain ⟨id, masterKey⟩ := entry
    rw [unlockLoop, tryKeys]
    cases setKeyFromPassphrase pass strPassphrase masterKey with
    | none => rfl
    | some key =>
      dsimp only
      cases pass.decrypt key masterKey.vchCryptedKey with
      | none => rfl
      | some vMasterKey =>
        dsimp only
        rw [CCryptoKeyStore.unlock_eq_match h]
        cases (s.unlock env vMasterKey).1 with
        | error e => rfl
        | ok b =>
          cases b with
          | true => rfl
          | false =>
            dsimp only
            rw [ih]
            cases tryKeys env pass s strPassphrase rest <;> rfl

/-- The loop of `ChangeWalletPassphrase`. -/
lemma changeLoop_eq (h : s.setCrypted = (false, s) ∨ s.fUseCrypto = true) (fWasLocked : Bool)
    (masterKeys : List (UInt32 × CMasterKey)) :
    changeLoop env pass strOldWalletPassphrase strNewWalletPassphrase t fWasLocked masterKeys s =
      match tryKeys env pass s strOldWalletPassphrase masterKeys with
      | .opened front id masterKey rest vMasterKey =>
        ((changeRecord pass strNewWalletPassphrase t fWasLocked id masterKey rest vMasterKey
            { s with vMasterKey }).1,
          { (changeRecord pass strNewWalletPassphrase t fWasLocked id masterKey rest vMasterKey
              { s with vMasterKey }).2 with
            mapMasterKeys := front ++ (changeRecord pass strNewWalletPassphrase t fWasLocked id
              masterKey rest vMasterKey { s with vMasterKey }).2.mapMasterKeys })
      | .thrown e => (.error e, ⟨s, masterKeys, []⟩)
      | _ => (.ok false, ⟨s, masterKeys, []⟩) := by
  induction masterKeys with
  | nil => rfl
  | cons entry rest ih =>
    obtain ⟨id, masterKey⟩ := entry
    rw [changeLoop, tryKeys]
    cases setKeyFromPassphrase pass strOldWalletPassphrase masterKey with
    | none => rfl
    | some key =>
      dsimp only
      cases pass.decrypt key masterKey.vchCryptedKey with
      | none => rfl
      | some vMasterKey =>
        dsimp only
        rw [CCryptoKeyStore.unlock_eq_match h]
        cases (s.unlock env vMasterKey).1 with
        | error e => rfl
        | ok b =>
          cases b with
          | true => rfl
          | false =>
            dsimp only
            rw [ih]
            cases tryKeys env pass s strOldWalletPassphrase rest <;> rfl

/-! ## The change -/

/-- `Lock` leaves the lock state and the master key if the keystore was locked or cannot be. -/
lemma lock_keeps_iff (s : CCryptoKeyStore) :
    (s.lock.2.isLocked = s.isLocked ∧ s.lock.2.vMasterKey = s.vMasterKey) ↔
      s.isLocked = true ∨ s.setCrypted.1 = false := by
  rcases s.lock_cases with ⟨h, -, hlock⟩ | ⟨h, hlock⟩
  · rw [hlock, h]
    exact iff_of_true ⟨rfl, rfl⟩ (Or.inr rfl)
  · rw [hlock, h]
    constructor
    · rintro ⟨hlocked, -⟩
      exact Or.inl hlocked.symm
    · rintro (hlocked | hcrypted)
      · refine ⟨hlocked.symm, ?_⟩
        rw [CCryptoKeyStore.isLocked, Bool.and_eq_true, List.isEmpty_iff] at hlocked
        exact hlocked.2.symm
      · exact absurd hcrypted (by decide)

/-- The number of iterations is not below the smallest one. -/
lemma not_lt_of_iterations {nDeriveIterations n : UInt32}
    (hn : t.iterations nDeriveIterations = .ok n) : ¬ n < 25000 := by
  rw [Timing.iterations] at hn
  cases hfirst : t.first nDeriveIterations with
  | error e =>
    rw [hfirst] at hn
    cases hn
  | ok n' =>
    rw [hfirst] at hn
    dsimp only [Except.bind] at hn
    cases hsecond : t.second n' with
    | error e =>
      rw [hsecond] at hn
      cases hn
    | ok n'' =>
      rw [hsecond] at hn
      cases hn
      dsimp only
      split_ifs with hlow
      · decide
      · exact hlow

/-- The body of the loop of `ChangeWalletPassphrase`: the record gets the ciphertext of its key
under the new passphrase. -/
lemma changeRecord_eq (strNewWalletPassphrase : Bytes) (hworks : pass.Works) {n : UInt32}
    (hn : t.iterations masterKey.nDeriveIterations = .ok n) {key : pass.Key}
    (hopens : setKeyFromPassphrase pass strPassphrase masterKey = some key) (fWasLocked : Bool)
    (id : UInt32) (rest : List (UInt32 × CMasterKey)) (vMasterKey : Bytes) (s : CCryptoKeyStore) :
    ∃ masterKey',
      changeRecord pass strNewWalletPassphrase t fWasLocked id masterKey rest vMasterKey s =
        (.ok true, ⟨if fWasLocked then s.lock.2 else s, (id, masterKey') :: rest,
          [(id, masterKey')]⟩) ∧
      ∃ key', setKeyFromPassphrase pass strNewWalletPassphrase masterKey' = some key' ∧
        pass.decrypt key' masterKey'.vchCryptedKey = some vMasterKey := by
  have hlow : ¬ n < 1 := fun h => not_lt_of_iterations hn
    (UInt32.lt_trans h (by decide : (1 : UInt32) < 25000))
  rw [setKeyFromPassphrase] at hopens
  split_ifs at hopens with hbad hmethod
  have hsalt : ¬ (n < 1 ∨ masterKey.vchSalt.length ≠ 8) := fun h =>
    h.elim hlow fun hsize => hbad (Or.inr hsize)
  obtain ⟨key', hkey'⟩ := Option.isSome_iff_exists.mp
    (hworks.isSome_bytesToKey strNewWalletPassphrase masterKey.vchSalt n)
  have hset : ∀ vchCryptedKey, setKeyFromPassphrase pass strNewWalletPassphrase
      { masterKey with nDeriveIterations := n, vchCryptedKey } = some key' := by
    intro vchCryptedKey
    rw [setKeyFromPassphrase, if_neg hsalt, if_pos hmethod, hkey']
  refine ⟨{ masterKey with
    nDeriveIterations := n, vchCryptedKey := (pass.encrypt key' vMasterKey).2 }, ?_, key', hset _,
    hworks.decrypt_encrypt key' vMasterKey⟩
  rw [changeRecord, hn]
  dsimp only
  rw [hset masterKey.vchCryptedKey]
  dsimp only
  rw [hworks.encrypt_fst key' vMasterKey]
  rfl

/-- A keystore that has been locked is encrypted or cannot be. -/
lemma setCrypted_lock (s : CCryptoKeyStore) :
    s.lock.2.setCrypted = (false, s.lock.2) ∨ s.lock.2.fUseCrypto = true := by
  rcases s.lock_cases with ⟨h, -, hlock⟩ | ⟨-, hlock⟩
  · rw [hlock]
    exact Or.inl h
  · rw [hlock]
    exact Or.inr rfl

/-- `ChangeWalletPassphrase`, if the old passphrase opens no record. -/
lemma changes_of_not_opened
    (h : tryKeys env pass w.store strOldWalletPassphrase w.mapMasterKeys = .stopped ∨
      tryKeys env pass w.store strOldWalletPassphrase w.mapMasterKeys = .refused) :
    w.Changes env pass strOldWalletPassphrase strNewWalletPassphrase t ↔
      w.store.isLocked = true ∨ w.store.setCrypted.1 = false := by
  have hchange : w.changeWalletPassphrase env pass strOldWalletPassphrase strNewWalletPassphrase t =
      (.ok false, w.locked) := by
    rw [PassWallet.changeWalletPassphrase, changeLoop_eq (setCrypted_lock w.store),
      tryKeys_congr (w.store.unlock_lock env)]
    rcases h with h | h
    · rw [h]
      dsimp only
      rw [List.append_nil]
      rfl
    · rw [h]
      dsimp only
      rw [List.append_nil]
      rfl
  rw [PassWallet.Changes, hchange, ← lock_keeps_iff]
  constructor
  · rintro ⟨hkeeps, -⟩
    obtain ⟨hlocked, hkey, -⟩ := hkeeps rfl
    exact ⟨hlocked, hkey⟩
  · rintro ⟨hlocked, hkey⟩
    exact ⟨fun _ => ⟨hlocked, hkey, rfl⟩, nofun⟩

/-- `Unlock` of a wallet that has just been locked. -/
lemma unlock_locked (hcrypted : w.store.setCrypted.1 = true) :
    w.locked.unlock env pass strPassphrase =
      match tryKeys env pass w.store strPassphrase w.mapMasterKeys with
      | .opened _ _ _ _ vMasterKey => (.ok true, { w.store.lock.2 with vMasterKey })
      | .thrown e => (.error e, w.store.lock.2)
      | _ => (.ok false, w.store.lock.2) := by
  rcases w.store.lock_cases with ⟨h, -⟩ | ⟨-, hlock⟩
  · rw [h] at hcrypted
    cases hcrypted
  · have hlocked : w.locked.store.isLocked = true := by
      rw [PassWallet.locked, hlock]
      rfl
    rw [PassWallet.unlock, hlocked, ← tryKeys_congr (w.store.unlock_lock env)]
    exact unlockLoop_eq (setCrypted_lock w.store) w.mapMasterKeys

/-- Only a keystore that can be encrypted accepts a key. -/
lemma setCrypted_of_unlock (h : (s.unlock env vMasterKey).1 = .ok true) :
    s.setCrypted.1 = true ∧ s.lock.2 = { s with fUseCrypto := true, vMasterKey := [] } := by
  rcases s.lock_cases with ⟨hset, -⟩ | hlock
  · rw [CCryptoKeyStore.unlock_of_not_setCrypted hset] at h
    cases h
  · exact hlock

/-- Records whose keys are refused stand in front of the one that is opened. -/
lemma foldr_behind (front rest : List (UInt32 × CMasterKey)) (id : UInt32) (masterKey : CMasterKey)
    (vMasterKey : Bytes) :
    front.foldr Trial.behind (.opened [] id masterKey rest vMasterKey) =
      .opened front id masterKey rest vMasterKey := by
  induction front with
  | nil => rfl
  | cons entry front ih =>
    rw [List.foldr_cons, ih]
    rfl

/-- The wallet after `ChangeWalletPassphrase`, if the old passphrase opens a record. -/
lemma changeWalletPassphrase_of_opened (strNewWalletPassphrase : Bytes) (hworks : pass.Works)
    (h : tryKeys env pass w.store strOldWalletPassphrase w.mapMasterKeys =
      .opened front id masterKey rest vMasterKey) {n : UInt32}
    (hn : t.iterations masterKey.nDeriveIterations = .ok n) :
    ∃ w' : PassWallet,
      w.changeWalletPassphrase env pass strOldWalletPassphrase strNewWalletPassphrase t =
        (.ok true, w') ∧
      w'.store.isLocked = (w.store.isLocked || vMasterKey.isEmpty) ∧
      w'.store.setCrypted.1 = true ∧ w'.store.lock.2 = w.store.lock.2 ∧
      ∃ masterKey', w'.mapMasterKeys = front ++ (id, masterKey') :: rest ∧
        ∃ key', setKeyFromPassphrase pass strNewWalletPassphrase masterKey' = some key' ∧
          pass.decrypt key' masterKey'.vchCryptedKey = some vMasterKey := by
  obtain ⟨-, ⟨key, hset, -⟩, haccepts⟩ := tryKeys_opened h
  obtain ⟨-, hlock⟩ := setCrypted_of_unlock haccepts
  obtain ⟨masterKey', hrecord, hopens⟩ := changeRecord_eq strNewWalletPassphrase hworks hn hset
    w.store.isLocked id rest vMasterKey { w.store.lock.2 with vMasterKey }
  refine ⟨⟨if w.store.isLocked then ({ w.store.lock.2 with vMasterKey } : CCryptoKeyStore).lock.2
    else { w.store.lock.2 with vMasterKey }, front ++ (id, masterKey') :: rest,
    w.written ++ [(id, masterKey')]⟩, ?_, ?_, ?_, ?_, masterKey', rfl, hopens⟩
  · rw [PassWallet.changeWalletPassphrase, changeLoop_eq (setCrypted_lock w.store),
      tryKeys_congr (w.store.unlock_lock env), h]
    dsimp only
    rw [hrecord]
  · rw [hlock]
    cases w.store.isLocked <;> rfl
  · rw [hlock]
    cases w.store.isLocked <;> rfl
  · rw [hlock]
    cases w.store.isLocked <;> rfl

/-- `ChangeWalletPassphrase`, if the old passphrase opens a record. -/
lemma changes_of_opened (hworks : pass.Works)
    (h : tryKeys env pass w.store strOldWalletPassphrase w.mapMasterKeys =
      .opened front id masterKey rest vMasterKey) {n : UInt32}
    (hn : t.iterations masterKey.nDeriveIterations = .ok n) :
    w.Changes env pass strOldWalletPassphrase strNewWalletPassphrase t ↔
      (w.store.isLocked = true ∨ vMasterKey ≠ []) ∧
        match tryKeys env pass w.store strNewWalletPassphrase front with
        | .refused => True
        | .opened _ _ _ _ vMasterKey' => vMasterKey' = vMasterKey
        | _ => False := by
  obtain ⟨-, -, haccepts⟩ := tryKeys_opened h
  obtain ⟨hcrypted, -⟩ := setCrypted_of_unlock haccepts
  obtain ⟨w', hchange, hlocked', hcrypted', hlock', masterKey', hkeys', key', hset', hdecrypt'⟩ :=
    changeWalletPassphrase_of_opened strNewWalletPassphrase hworks h hn
  have hold : w.locked.unlock env pass strOldWalletPassphrase =
      (.ok true, { w.store.lock.2 with vMasterKey }) := by
    rw [unlock_locked hcrypted, h]
  have hlocked : w'.store.isLocked = w.store.isLocked ↔
      w.store.isLocked = true ∨ vMasterKey ≠ [] := by
    rw [hlocked', ← List.isEmpty_eq_false_iff]
    cases w.store.isLocked <;> simp
  have hstores : ∀ vMasterKeyIn,
      (w'.store.unlock env vMasterKeyIn).1 = (w.store.unlock env vMasterKeyIn).1 := by
    intro vMasterKeyIn
    rw [← w'.store.unlock_lock, hlock', w.store.unlock_lock]
  have htry : tryKeys env pass w.store strNewWalletPassphrase ((id, masterKey') :: rest) =
      .opened [] id masterKey' rest vMasterKey := by
    simp only [tryKeys, hset', hdecrypt', haccepts]
  have hnew : (∃ s', w'.locked.unlock env pass strNewWalletPassphrase = (.ok true, s') ∧
      s'.vMasterKey = vMasterKey) ↔
        match tryKeys env pass w.store strNewWalletPassphrase front with
        | .refused => True
        | .opened _ _ _ _ vMasterKey' => vMasterKey' = vMasterKey
        | _ => False := by
    rw [unlock_locked hcrypted', tryKeys_congr hstores, hkeys', tryKeys_append, htry, foldr_behind]
    cases tryKeys env pass w.store strNewWalletPassphrase front with
    | stopped => simp
    | refused => simp
    | thrown e => simp
    | opened front' id' masterKey'' rest' vMasterKey' => simp
  rw [← hlocked, ← hnew, PassWallet.Changes, hchange]
  constructor
  · rintro ⟨-, htrue⟩
    obtain ⟨hsame, s, s', hs, hs', heq⟩ := htrue rfl
    rw [hold] at hs
    cases hs
    exact ⟨hsame, s', hs', heq⟩
  · rintro ⟨hsame, s', hs', heq⟩
    exact ⟨nofun, fun _ => ⟨hsame, _, s', hold, hs', heq⟩⟩

/-- `ChangeWalletPassphrase` does what is asked of it if and only if the condition holds. -/
theorem changes_iff (env : Env) (pass : PassEnv) (hworks : pass.Works)
    (strOldWalletPassphrase strNewWalletPassphrase : Bytes) (t : Timing) (w : PassWallet) :
    w.Changes env pass strOldWalletPassphrase strNewWalletPassphrase t ↔
      w.Meets env pass strOldWalletPassphrase strNewWalletPassphrase t := by
  rw [PassWallet.Meets]
  cases htrial : tryKeys env pass w.store strOldWalletPassphrase w.mapMasterKeys with
  | stopped => exact changes_of_not_opened (Or.inl htrial)
  | refused => exact changes_of_not_opened (Or.inr htrial)
  | thrown e =>
    refine iff_of_true ?_ trivial
    rw [PassWallet.Changes, PassWallet.changeWalletPassphrase,
      changeLoop_eq (setCrypted_lock w.store), tryKeys_congr (w.store.unlock_lock env), htrial]
    exact ⟨nofun, nofun⟩
  | opened front id masterKey rest vMasterKey =>
    cases hn : t.iterations masterKey.nDeriveIterations with
    | ok n =>
      rw [changes_of_opened hworks htrial hn]
      exact ⟨fun h _ => h, fun h => h ⟨n, hn⟩⟩
    | error e =>
      have hnot : ¬ ∃ n, t.iterations masterKey.nDeriveIterations = .ok n := by
        rintro ⟨n, hn'⟩
        rw [hn] at hn'
        cases hn'
      refine iff_of_true ?_ fun h => absurd h hnot
      rw [PassWallet.Changes, PassWallet.changeWalletPassphrase,
        changeLoop_eq (setCrypted_lock w.store), tryKeys_congr (w.store.unlock_lock env), htrial]
      dsimp only
      rw [changeRecord, hn]
      exact ⟨nofun, nofun⟩

/-! ### A wallet with one record -/

/-- A cipher that puts the passphrase before the text. -/
def samplePass : PassEnv where
  Key := Bytes
  bytesToKey strKeyData _ _ := some strKeyData
  encrypt key vchPlaintext := (true, key ++ vchPlaintext)
  decrypt key vchCiphertext :=
    if vchCiphertext.take key.length = key then some (vchCiphertext.drop key.length) else none

lemma works_samplePass : samplePass.Works where
  isSome_bytesToKey _ _ _ := rfl
  encrypt_fst _ _ := rfl
  decrypt_encrypt (key : Bytes) vchPlaintext := by
    have htake : List.take key.length (key ++ vchPlaintext) = key := List.take_left
    have hdrop : List.drop key.length (key ++ vchPlaintext) = vchPlaintext := List.drop_left
    exact (if_pos htake).trans (congrArg some hdrop)

/-- The record of the master key of the sample, under the passphrase of one byte 1. -/
def sampleMasterKey : CMasterKey where
  vchCryptedKey := 1 :: List.replicate 32 7
  vchSalt := List.replicate 8 0

/-- The unlocked keystore of the sample, with the record. -/
def samplePassWallet : PassWallet where
  store := (History.run ({} : History sampleEnv) sampleOps).store
  mapMasterKeys := [(1, sampleMasterKey)]

/-- A clock by which the number of iterations stays as it is. -/
def sampleTiming : Timing := ⟨.ok, .ok⟩

/-- The old passphrase opens the record. -/
lemma tryKeys_samplePassWallet :
    tryKeys sampleEnv samplePass samplePassWallet.store [1] samplePassWallet.mapMasterKeys =
      .opened [] 1 sampleMasterKey [] (List.replicate 32 7) := by
  have haccepts : (samplePassWallet.store.unlock sampleEnv (List.replicate 32 7)).1 = .ok true :=
    ExceptLoop.eq_ok_of_toOption (by decide +kernel)
  have hset : setKeyFromPassphrase samplePass [1] sampleMasterKey = some [1] := rfl
  have hdecrypt : samplePass.decrypt [1] sampleMasterKey.vchCryptedKey =
      some (List.replicate 32 7) := rfl
  rw [samplePassWallet] at haccepts ⊢
  simp only [tryKeys, hset, hdecrypt, haccepts]

/-- The passphrase of the unlocked wallet is changed. -/
theorem changes_samplePassWallet :
    samplePassWallet.Changes sampleEnv samplePass [1] [2] sampleTiming := by
  refine (changes_iff sampleEnv samplePass works_samplePass [1] [2] sampleTiming
    samplePassWallet).mpr ?_
  rw [PassWallet.Meets, tryKeys_samplePassWallet]
  exact fun _ => ⟨Or.inr (by decide), trivial⟩

/-- With a wrong old passphrase the unlocked wallet is locked, and nothing is changed. -/
theorem not_changes :
    ¬ ∀ (env : Env) (pass : PassEnv) (strOldWalletPassphrase strNewWalletPassphrase : Bytes)
      (t : Timing) (w : PassWallet), env.Sound → pass.Works →
        w.Changes env pass strOldWalletPassphrase strNewWalletPassphrase t := by
  intro hall
  have hchanges := hall sampleEnv samplePass [3] [2] sampleTiming samplePassWallet sound_sampleEnv
    works_samplePass
  have htrial : tryKeys sampleEnv samplePass samplePassWallet.store [3]
      samplePassWallet.mapMasterKeys = .stopped := rfl
  rw [changes_of_not_opened (Or.inl htrial)] at hchanges
  have hlocked : samplePassWallet.store.isLocked = false := by decide +kernel
  have hcrypted : samplePassWallet.store.setCrypted.1 = true := by decide +kernel
  rw [hlocked, hcrypted] at hchanges
  exact hchanges.elim Bool.false_ne_true Bool.noConfusion

end HyperStake.Keystore
