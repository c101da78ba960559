import HyperStake.Script.Standard

/-!
# The keystore with encrypted keys

`CCryptoKeyStore` keeps the private keys as they are until it is encrypted, and from then on
encrypted under a master key, which it has while it is unlocked.  What is the case between the calls
is `Consistent`: every key that has been added is there in the one way or in the other.

Three things in the code can change the form of the public key of a key or lose keys
(`recovers_run`): a copy of a `CKey` does not have its flag `fCompressedPubKey`, `EncryptKeys` turns
encryption on before it has encrypted the keys, and `GetKey` of an encrypted keystore does not reset
the object that it sets.
-/

namespace HyperStake.Keystore

/-! ## Keys -/

/-- What OpenSSL does for a key on the curve, and how it encrypts. -/
structure Env where
  /-- A public key. -/
  Point : Type
  /-- Not the point at infinity. -/
  IsFinite : Point → Prop
  /-- `EC_KEY_regenerate_key`: the public key of a private key. -/
  regenerate : Bytes → Option Point
  /-- `i2o_ECPublicKey`: a public key in the compressed or the uncompressed form. -/
  encode : Point → Bool → Bytes
  /-- `o2i_ECPublicKey`: a public key and its form. -/
  decode : Bytes → Option (Point × Bool)
  length_encode : ∀ {point}, IsFinite point → ∀ compressed,
    (encode point compressed).length = if compressed then 33 else 65
  decode_encode : ∀ {point}, IsFinite point → ∀ compressed,
    decode (encode point compressed) = some (point, compressed)
  /-- `CPubKey::GetID`. -/
  hash160 : Bytes → BitVec 160
  /-- `CPubKey::GetHash`. -/
  hash : Bytes → UInt256
  /-- `CCrypter::Encrypt` under a key and an initialisation vector. -/
  encrypt : Bytes → UInt256 → Bytes → Option Bytes
  /-- `CCrypter::Decrypt`. -/
  decrypt : Bytes → UInt256 → Bytes → Option Bytes

variable (env : Env)

/-- A `CKey`: the private key, the public key and the form of the public key of the OpenSSL key, and
the flags. -/
structure CKey where
  vchSecret : Option Bytes := none
  point : Option env.Point := none
  compressed : Bool := false
  fSet : Bool := false
  fCompressedPubKey : Bool := false

namespace CKey

variable {env} (key : CKey env)

def setCompressedPubKey : CKey env := { key with compressed := true, fCompressedPubKey := true }

def setSecret (vchSecret : Bytes) (fCompressed : Bool) : Except Fault (CKey env) :=
  if vchSecret.length ≠ 32 then .error .runtimeError
  else
    match env.regenerate vchSecret with
    | none => .error .runtimeError
    | some point =>
      let keyNew : CKey env :=
        { vchSecret, point, fSet := true, fCompressedPubKey := key.fCompressedPubKey }
      .ok (if fCompressed || key.fCompressedPubKey then keyNew.setCompressedPubKey else keyNew)

/-- `GetSecret`, without the flag that it returns in its argument. -/
def getSecret : Except Fault Bytes :=
  match key.vchSecret with
  | none => .error .undefined
  | some vchSecret => .ok vchSecret

/-- `SetPubKey`, which resets the key if it returns false. -/
def setPubKey (vchPubKey : Bytes) : Bool × CKey env :=
  match env.decode vchPubKey with
  | none => (false, {})
  | some (point, compressed) =>
    let keyNew : CKey env := { key with point, compressed, fSet := true }
    (true, if vchPubKey.length = 33 then keyNew.setCompressedPubKey else keyNew)

def getPubKey : Except Fault Bytes :=
  match key.point with
  | none => .error .runtimeError
  | some point => .ok (env.encode point key.compressed)

end CKey

/-- A key with a private key of 32 bytes and its public key. -/
structure FullKey where
  vchSecret : Bytes
  point : env.Point
  compressed : Bool
  fCompressedPubKey : Bool
  length_vchSecret : vchSecret.length = 32
  regenerate_vchSecret : env.regenerate vchSecret = some point
  isFinite : env.IsFinite point

namespace FullKey

variable {env} (key : FullKey env)

/-- The `CKey`. -/
def toCKey : CKey env where
  vchSecret := key.vchSecret
  point := key.point
  compressed := key.compressed
  fSet := true
  fCompressedPubKey := key.fCompressedPubKey

/-- The public key, in the form that the key has. -/
def pubKey : Bytes := env.encode key.point key.compressed

/-- The hash under which the key is stored. -/
def keyID : BitVec 160 := env.hash160 key.pubKey

/-- Two keys have the same private key and the same form. -/
def Same (key key' : FullKey env) : Prop :=
  key.vchSecret = key'.vchSecret ∧ key.compressed = key'.compressed

end FullKey

/-! ## Encryption -/

/-- `EncryptSecret`: the key is set if it has the right size. -/
def encryptSecret (vMasterKey vchPlaintext : Bytes) (nIV : UInt256) : Option Bytes :=
  if vMasterKey.length ≠ 32 then none else env.encrypt vMasterKey nIV vchPlaintext

def decryptSecret (vMasterKey vchCiphertext : Bytes) (nIV : UInt256) : Option Bytes :=
  if vMasterKey.length ≠ 32 then none else env.decrypt vMasterKey nIV vchCiphertext

/-- Decryption is inverse to encryption under one key and initialisation vector, and under another
key it does not give the secret of the same public key. -/
structure Env.Sound : Prop where
  decrypt_encrypt : ∀ {vMasterKey nIV vchSecret vchCrypted},
    env.encrypt vMasterKey nIV vchSecret = some vchCrypted →
      env.decrypt vMasterKey nIV vchCrypted = some vchSecret
  decrypt_ne : ∀ {vMasterKey vMasterKey' nIV vchSecret vchSecret' vchCrypted},
    vMasterKey ≠ vMasterKey' → env.encrypt vMasterKey nIV vchSecret = some vchCrypted →
      env.decrypt vMasterKey' nIV vchCrypted = some vchSecret' →
      ∀ point point' compressed, env.regenerate vchSecret = some point →
        env.regenerate vchSecret' = some point' →
        env.encode point' compressed ≠ env.encode point compressed

/-! ## The keystore -/

/-- `CCryptoKeyStore`, with the keys of the basic keystore. -/
structure CCryptoKeyStore where
  mapKeys : Std.ExtTreeMap (BitVec 160) (Bytes × Bool) := ∅
  mapCryptedKeys : Std.ExtTreeMap (BitVec 160) (Bytes × Bytes) := ∅
  vMasterKey : Bytes := []
  fUseCrypto : Bool := false

namespace CCryptoKeyStore

def setCrypted (s : CCryptoKeyStore) : Bool × CCryptoKeyStore :=
  if s.fUseCrypto then (true, s)
  else if !s.mapKeys.isEmpty then (false, s)
  else (true, { s with fUseCrypto := true })

def isLocked (s : CCryptoKeyStore) : Bool := s.fUseCrypto && s.vMasterKey.isEmpty

def lock (s : CCryptoKeyStore) : Bool × CCryptoKeyStore :=
  match s.setCrypted with
  | (false, s) => (false, s)
  | (true, s) => (true, { s with vMasterKey := [] })

/-- `SetPubKey` and `SetSecret` of a key that is read, of which the first one may fail. -/
def restoreKey (keyOut : CKey env) (vchPubKey vchSecret : Bytes) : Except Fault (CKey env) :=
  (keyOut.setPubKey vchPubKey).2.setSecret vchSecret false

/-- `Unlock`, of which the loop returns or is left at the first key. -/
def unlock (vMasterKeyIn : Bytes) (s : CCryptoKeyStore) : Except Fault Bool × CCryptoKeyStore :=
  match s.setCrypted with
  | (false, s) => (.ok false, s)
  | (true, s) =>
    match s.mapCryptedKeys.toList with
    | [] => (.ok true, { s with vMasterKey := vMasterKeyIn })
    | (_, vchPubKey, vchCryptedSecret) :: _ =>
      match decryptSecret env vMasterKeyIn vchCryptedSecret (env.hash vchPubKey) with
      | none => (.ok false, s)
      | some vchSecret =>
        if vchSecret.length ≠ 32 then (.ok false, s)
        else
          match (restoreKey env {} vchPubKey vchSecret).bind CKey.getPubKey with
          | .error e => (.error e, s)
          | .ok vchPubKey' =>
            if vchPubKey' = vchPubKey then (.ok true, { s with vMasterKey := vMasterKeyIn })
            else (.ok false, s)

def addCryptedKey (vchPubKey vchCryptedSecret : Bytes) (s : CCryptoKeyStore) :
    Bool × CCryptoKeyStore :=
  match s.setCrypted with
  | (false, s) => (false, s)
  | (true, s) =>
    (true, { s with mapCryptedKeys :=
      s.mapCryptedKeys.insert (env.hash160 vchPubKey) (vchPubKey, vchCryptedSecret) })

def addKey (key : FullKey env) (s : CCryptoKeyStore) : Bool × CCryptoKeyStore :=
  if !s.fUseCrypto then
    (true, { s with mapKeys :=
      s.mapKeys.insert key.keyID (key.vchSecret, key.fCompressedPubKey) })
  else if s.isLocked then (false, s)
  else
    match encryptSecret env s.vMasterKey key.vchSecret (env.hash key.pubKey) with
    | none => (false, s)
    | some vchCryptedSecret => s.addCryptedKey env key.pubKey vchCryptedSecret

/-- `GetKey` into an object: the object that it sets, or none if it returns false. -/
def getKey (address : BitVec 160) (keyOut : CKey env) (s : CCryptoKeyStore) :
    Except Fault (Option (CKey env)) :=
  if !s.fUseCrypto then
    match s.mapKeys[address]? with
    | none => .ok none
    | some (vchSecret, fCompressed) => (CKey.setSecret {} vchSecret fCompressed).map some
  else
    match s.mapCryptedKeys[address]? with
    | none => .ok none
    | some (vchPubKey, vchCryptedSecret) =>
      match decryptSecret env s.vMasterKey vchCryptedSecret (env.hash vchPubKey) with
      | none => .ok none
      | some vchSecret =>
        if vchSecret.length ≠ 32 then .ok none
        else (restoreKey env keyOut vchPubKey vchSecret).map some

/-- The loop of `EncryptKeys` over the keys that are left. -/
def encryptLoop (vMasterKeyIn : Bytes) :
    List (BitVec 160 × Bytes × Bool) → CCryptoKeyStore → Except Fault Bool × CCryptoKeyStore
  | [], s => (.ok true, s)
  | (_, vchSecret, fCompressed) :: keys, s =>
    match (CKey.setSecret ({} : CKey env) vchSecret fCompressed).bind CKey.getPubKey with
    | .error e => (.error e, s)
    | .ok vchPubKey =>
      match encryptSecret env vMasterKeyIn vchSecret (env.hash vchPubKey) with
      | none => (.ok false, s)
      | some vchCryptedSecret =>
        match s.addCryptedKey env vchPubKey vchCryptedSecret with
        | (false, s) => (.ok false, s)
        | (true, s) => encryptLoop vMasterKeyIn keys s

def encryptKeys (vMasterKeyIn : Bytes) (s : CCryptoKeyStore) :
    Except Fault Bool × CCryptoKeyStore :=
  if !s.mapCryptedKeys.isEmpty || s.fUseCrypto then (.ok false, s)
  else
    match encryptLoop env vMasterKeyIn s.mapKeys.toList { s with fUseCrypto := true } with
    | (.ok true, s) => (.ok true, { s with mapKeys := ∅ })
    | r => r

end CCryptoKeyStore

/-! ## Runs -/

/-- The calls. -/
inductive Op where
  | addKey (key : FullKey env)
  | encryptKeys (vMasterKeyIn : Bytes)
  | lock
  | unlock (vMasterKeyIn : Bytes)

/-- A keystore with the keys that have been added to it. -/
structure History where
  store : CCryptoKeyStore := {}
  added : List (FullKey env) := []

namespace History

variable {env}

/-- A history after a call. -/
def step (h : History env) : Op env → History env
  | .addKey key =>
    let (fAdded, store) := h.store.addKey env key
    { store, added := if fAdded then key :: h.added else h.added }
  | .encryptKeys vMasterKeyIn => { h with store := (h.store.encryptKeys env vMasterKeyIn).2 }
  | .lock => { h with store := h.store.lock.2 }
  | .unlock vMasterKeyIn => { h with store := (h.store.unlock env vMasterKeyIn).2 }

/-- A history after some calls. -/
def run (h : History env) (ops : List (Op env)) : History env := ops.foldl step h

end History

variable {env}

/-- What is stored of a key that is encrypted under a master key. -/
def FullKey.record (vMasterKey : Bytes) (key : FullKey env) : Option (Bytes × Bytes) :=
  (encryptSecret env vMasterKey key.vchSecret (env.hash key.pubKey)).map (key.pubKey, ·)

/-- A call meets the condition.  A key that is added to a keystore that is not encrypted has its
flag, and no other key has its hash; the keys that are encrypted can be encrypted. -/
def Op.Meets (h : History env) : Op env → Prop
  | .addKey key =>
    (h.store.fUseCrypto = false → key.fCompressedPubKey = key.compressed) ∧
      ∀ key' ∈ h.added, key'.keyID = key.keyID → key'.Same key
  | .encryptKeys vMasterKeyIn =>
    h.store.fUseCrypto = false → ∀ key ∈ h.added,
      (encryptSecret env vMasterKeyIn key.vchSecret (env.hash key.pubKey)).isSome
  | .lock => True
  | .unlock _ => True

/-- All calls meet the condition. -/
def AllMeet : History env → List (Op env) → Prop
  | _, [] => True
  | h, op :: ops => op.Meets h ∧ AllMeet (h.step op) ops

/-- `GetKey` of a key into an object gives its private key, and its public key in the same form. -/
def CCryptoKeyStore.Returns (s : CCryptoKeyStore) (key : FullKey env) (keyOut : CKey env) : Prop :=
  ∃ keyRead, s.getKey env key.keyID keyOut = .ok (some keyRead) ∧
    keyRead.getSecret = .ok key.vchSecret ∧ keyRead.getPubKey = .ok key.pubKey

/-- `Unlock` fails and leaves the keystore as it is. -/
def CCryptoKeyStore.Refuses (env : Env) (s : CCryptoKeyStore) (vMasterKeyIn : Bytes) : Prop :=
  (s.unlock env vMasterKeyIn).1 ≠ .ok true ∧ (s.unlock env vMasterKeyIn).2 = s

/-- No key is left unencrypted in an encrypted keystore, all keys are encrypted under one master key,
`Unlock` refuses every other one once a key has been added, and every key is returned while the
keystore is not locked, unless it is read into an object with the flag of another form. -/
structure Recovers (h : History env) : Prop where
  mapKeys : h.store.fUseCrypto = true → h.store.mapKeys = ∅
  masterKey : ∃ vMasterKey,
    (∀ (keyID : BitVec 160) entry, h.store.mapCryptedKeys[keyID]? = some entry →
      ∃ key ∈ h.added, key.keyID = keyID ∧ key.record vMasterKey = some entry) ∧
    (h.added ≠ [] → ∀ vMasterKeyIn, (h.store.fUseCrypto = true → vMasterKeyIn ≠ vMasterKey) →
      h.store.Refuses env vMasterKeyIn)
  getKey : h.store.isLocked = false → ∀ key ∈ h.added, ∀ keyOut : CKey env,
    (h.store.fUseCrypto = true → keyOut.fCompressedPubKey = true → key.compressed = true) →
    h.store.Returns key keyOut

/-! ## Maps that are built from keys -/

/-- A map has what some keys are stored as, under their hashes. -/
def Indexes {β : Type*} (m : Std.ExtTreeMap (BitVec 160) β) (keys : Set (FullKey env))
    (stored : FullKey env → Option β) : Prop :=
  ∀ (keyID : BitVec 160) entry,
    m[keyID]? = some entry ↔ ∃ key ∈ keys, key.keyID = keyID ∧ stored key = some entry

namespace Indexes

variable {β : Type*} {m : Std.ExtTreeMap (BitVec 160) β} {keys keys' : Set (FullKey env)}
  {stored : FullKey env → Option β} {key : FullKey env} {entry : β}

/-- Another key is inserted, with whose hash no key is stored otherwise. -/
lemma insert (hm : Indexes m keys stored) (hentry : stored key = some entry)
    (hsame : ∀ key' ∈ keys, key'.keyID = key.keyID → stored key' = stored key) :
    Indexes (m.insert key.keyID entry) (insert key keys) stored := by
  intro keyID entry'
  rw [Std.ExtTreeMap.getElem?_insert]
  by_cases hid : key.keyID = keyID
  · rw [if_pos (by simpa using hid), ← hentry]
    constructor
    · intro h
      exact ⟨key, Set.mem_insert _ _, hid, h⟩
    · rintro ⟨key', rfl | hmem, hid', h⟩
      · exact h
      · rw [← hsame key' hmem (hid'.trans hid.symm)]
        exact h
  · rw [if_neg (by simpa using hid), hm keyID entry']
    constructor
    · rintro ⟨key', hmem, h⟩
      exact ⟨key', Set.mem_insert_of_mem _ hmem, h⟩
    · rintro ⟨key', rfl | hmem, hid', h⟩
      · exact absurd hid' hid
      · exact ⟨key', hmem, hid', h⟩

/-- More keys are stored as well, of which the entries are there. -/
lemma mono (hm : Indexes m keys stored) (hsub : keys ⊆ keys')
    (hthere : ∀ key' ∈ keys', ∃ key ∈ keys, key.keyID = key'.keyID ∧ stored key = stored key') :
    Indexes m keys' stored := by
  intro keyID entry
  rw [hm keyID entry]
  constructor
  · rintro ⟨key, hmem, h⟩
    exact ⟨key, hsub hmem, h⟩
  · rintro ⟨key', hmem', rfl, h⟩
    obtain ⟨key, hmem, hid, heq⟩ := hthere key' hmem'
    exact ⟨key, hmem, hid, heq.trans h⟩

end Indexes

/-! ## Keys that are read -/

/-- `SetSecret` gives the public key in the form of the flags. -/
lemma CKey.exists_setSecret {vchSecret : Bytes} {point : env.Point}
    (hlength : vchSecret.length = 32)
    (hpoint : env.regenerate vchSecret = some point) (keyOut : CKey env) (fCompressed : Bool) :
    ∃ keyRead, keyOut.setSecret vchSecret fCompressed = .ok keyRead ∧
      keyRead.getSecret = .ok vchSecret ∧
      keyRead.getPubKey = .ok (env.encode point (fCompressed || keyOut.fCompressedPubKey)) := by
  rw [CKey.setSecret, if_neg (not_not.mpr hlength), hpoint]
  refine ⟨_, rfl, ?_, ?_⟩
  · split_ifs
    · rfl
    · rfl
  · cases hflag : fCompressed || keyOut.fCompressedPubKey <;> rfl

namespace FullKey

variable {key key' : FullKey env}

/-- Two keys with the same private key have the same public key. -/
lemma Same.pubKey (h : key.Same key') : key.pubKey = key'.pubKey := by
  have hpoint : key.point = key'.point := by
    have hreg := key.regenerate_vchSecret
    rw [h.1, key'.regenerate_vchSecret] at hreg
    exact (Option.some.inj hreg).symm
  rw [FullKey.pubKey, FullKey.pubKey, hpoint, h.2]

lemma Same.record (h : key.Same key') (vMasterKey : Bytes) :
    key.record vMasterKey = key'.record vMasterKey := by
  rw [FullKey.record, FullKey.record, h.pubKey, h.1]

/-- `SetPubKey` of the public key sets the flag if that is compressed, and never clears it. -/
lemma fCompressedPubKey_setPubKey (key : FullKey env) (keyOut : CKey env) :
    (keyOut.setPubKey key.pubKey).2.fCompressedPubKey =
      (key.compressed || keyOut.fCompressedPubKey) := by
  rw [CKey.setPubKey, FullKey.pubKey, env.decode_encode key.isFinite]
  dsimp only
  rw [env.length_encode key.isFinite]
  cases key.compressed <;> rfl

/-- A key that is read with its public key and some private key. -/
lemma exists_restoreKey (key : FullKey env) {vchSecret : Bytes} {point : env.Point}
    (hlength : vchSecret.length = 32) (hpoint : env.regenerate vchSecret = some point)
    (keyOut : CKey env) :
    ∃ keyRead, CCryptoKeyStore.restoreKey env keyOut key.pubKey vchSecret = .ok keyRead ∧
      keyRead.getSecret = .ok vchSecret ∧
      keyRead.getPubKey = .ok (env.encode point (key.compressed || keyOut.fCompressedPubKey)) := by
  have hread :=
    CKey.exists_setSecret hlength hpoint (keyOut.setPubKey key.pubKey).2 false
  rw [Bool.false_or, key.fCompressedPubKey_setPubKey keyOut] at hread
  exact hread

end FullKey

/-! ## What is the case between the calls -/

/-- A keystore that is not encrypted has the keys with their forms as flags. -/
structure Plain (h : History env) : Prop where
  fUseCrypto : h.store.fUseCrypto = false
  mapCryptedKeys : h.store.mapCryptedKeys = ∅
  vMasterKey : h.store.vMasterKey = []
  mapKeys : Indexes h.store.mapKeys {key | key ∈ h.added} fun key =>
    some (key.vchSecret, key.compressed)

/-- An encrypted keystore has the keys encrypted under a master key, which is the one that it has
while it is unlocked. -/
structure Crypted (h : History env) (vMasterKey : Bytes) : Prop where
  fUseCrypto : h.store.fUseCrypto = true
  mapKeys : h.store.mapKeys = ∅
  mapCryptedKeys :
    Indexes h.store.mapCryptedKeys {key | key ∈ h.added} (FullKey.record vMasterKey)
  record : ∀ key ∈ h.added, ∃ entry, key.record vMasterKey = some entry
  vMasterKey : h.added ≠ [] → h.store.vMasterKey = [] ∨ h.store.vMasterKey = vMasterKey

/-- A keystore is encrypted or not. -/
def Consistent (h : History env) : Prop := Plain h ∨ ∃ vMasterKey, Crypted h vMasterKey

section

variable {h : History env} {vMasterKey vMasterKeyIn : Bytes} {key : FullKey env}

/-- An empty encrypted keystore is encrypted under any master key. -/
lemma Crypted.of_added_eq_nil (hnil : h.added = []) (hc : Crypted h vMasterKey)
    (vMasterKeyIn : Bytes) : Crypted h vMasterKeyIn where
  fUseCrypto := hc.fUseCrypto
  mapKeys := hc.mapKeys
  mapCryptedKeys keyID entry := by
    rw [hc.mapCryptedKeys keyID entry]
    simp [hnil]
  record := by simp [hnil]
  vMasterKey hne := absurd hnil hne

/-- While it is unlocked, the keys are encrypted under the master key that it has. -/
lemma Crypted.of_isLocked_eq_false (hc : Crypted h vMasterKey)
    (hlocked : h.store.isLocked = false) : Crypted h h.store.vMasterKey := by
  by_cases hnil : h.added = []
  · exact hc.of_added_eq_nil hnil _
  · rcases hc.vMasterKey hnil with hempty | heq
    · simp [CCryptoKeyStore.isLocked, hc.fUseCrypto, hempty] at hlocked
    · rw [heq]
      exact hc

lemma CCryptoKeyStore.setCrypted_of_fUseCrypto {s : CCryptoKeyStore} (hs : s.fUseCrypto = true) :
    s.setCrypted = (true, s) := by
  rw [CCryptoKeyStore.setCrypted, if_pos hs]

/-- `SetCrypted` fails if there is a key. -/
lemma Plain.setCrypted (hp : Plain h) :
    (h.added ≠ [] ∧ h.store.setCrypted = (false, h.store)) ∨
      h.added = [] ∧ h.store.setCrypted = (true, { h.store with fUseCrypto := true }) ∧
        h.store.mapKeys = ∅ := by
  rw [CCryptoKeyStore.setCrypted, hp.fUseCrypto, if_neg Bool.false_ne_true]
  by_cases hnil : h.added = []
  · have hempty : h.store.mapKeys = ∅ := by
      refine Std.ExtTreeMap.ext_getElem? fun keyID => ?_
      rw [Std.ExtTreeMap.getElem?_empty]
      refine Option.eq_none_iff_forall_ne_some.mpr fun entry hentry => ?_
      obtain ⟨key, hmem, -⟩ := (hp.mapKeys keyID entry).mp hentry
      simp [hnil] at hmem
    refine Or.inr ⟨hnil, ?_, hempty⟩
    rw [Std.ExtTreeMap.isEmpty_iff.mpr hempty]
    rfl
  · obtain ⟨key, hmem⟩ := List.exists_mem_of_ne_nil _ hnil
    have hne : h.store.mapKeys ≠ ∅ := by
      intro hempty
      have hget := (hp.mapKeys key.keyID _).mpr ⟨key, hmem, rfl, rfl⟩
      rw [hempty, Std.ExtTreeMap.getElem?_empty] at hget
      exact Option.some_ne_none _ hget.symm
    refine Or.inl ⟨hnil, ?_⟩
    rw [Std.ExtTreeMap.isEmpty_eq_false_iff.mpr hne]
    rfl

/-- An empty keystore that is made encrypted, with any master key. -/
lemma Plain.crypted_of_added_eq_nil (hp : Plain h) (hnil : h.added = [])
    (hkeys : h.store.mapKeys = ∅) (vMasterKeyIn : Bytes) :
    Crypted { h with store := { h.store with fUseCrypto := true, vMasterKey := vMasterKeyIn } }
      vMasterKey where
  fUseCrypto := rfl
  mapKeys := hkeys
  mapCryptedKeys keyID entry := by simp [hp.mapCryptedKeys, hnil]
  record := by simp [hnil]
  vMasterKey hne := absurd hnil hne

/-! ## The calls -/

lemma Consistent.lock (hc : Consistent h) : Consistent (h.step .lock) := by
  rcases hc with hp | ⟨vMasterKey, hc⟩
  · rcases hp.setCrypted with ⟨-, hset⟩ | ⟨hnil, hset, hkeys⟩
    · rw [History.step, CCryptoKeyStore.lock, hset]
      exact Or.inl hp
    · rw [History.step, CCryptoKeyStore.lock, hset]
      exact Or.inr ⟨[], hp.crypted_of_added_eq_nil hnil hkeys []⟩
  · rw [History.step, CCryptoKeyStore.lock,
      CCryptoKeyStore.setCrypted_of_fUseCrypto hc.fUseCrypto]
    exact Or.inr ⟨vMasterKey, hc.fUseCrypto, hc.mapKeys, hc.mapCryptedKeys, hc.record,
      fun _ => Or.inl rfl⟩

/-- `Unlock` may set the master key of an encrypted keystore, and changes nothing else of it. -/
lemma CCryptoKeyStore.unlock_of_fUseCrypto {s : CCryptoKeyStore} (hs : s.fUseCrypto = true) :
    (s.unlock env vMasterKeyIn).2 = s ∨
      (s.unlock env vMasterKeyIn).2 = { s with vMasterKey := vMasterKeyIn } := by
  rw [unlock, setCrypted_of_fUseCrypto hs]
  dsimp only
  split
  · exact Or.inr rfl
  · split
    · exact Or.inl rfl
    · split_ifs
      · exact Or.inl rfl
      · split
        · exact Or.inl rfl
        · split_ifs
          · exact Or.inr rfl
          · exact Or.inl rfl

/-- `Unlock` of an encrypted keystore with keys refuses every other master key. -/
lemma Crypted.refuses (hsound : env.Sound) (hc : Crypted h vMasterKey) (hne : h.added ≠ [])
    (hother : vMasterKeyIn ≠ vMasterKey) : h.store.Refuses env vMasterKeyIn := by
  rw [CCryptoKeyStore.Refuses, CCryptoKeyStore.unlock,
    CCryptoKeyStore.setCrypted_of_fUseCrypto hc.fUseCrypto]
  dsimp only
  cases hlist : h.store.mapCryptedKeys.toList with
  | nil =>
    obtain ⟨key, hmem⟩ := List.exists_mem_of_ne_nil _ hne
    obtain ⟨entry, hentry⟩ := hc.record key hmem
    have hget := (hc.mapCryptedKeys key.keyID entry).mpr ⟨key, hmem, rfl, hentry⟩
    rw [Std.ExtTreeMap.toList_eq_nil_iff.mp hlist, Std.ExtTreeMap.getElem?_empty] at hget
    exact absurd hget.symm (Option.some_ne_none _)
  | cons first rest =>
    obtain ⟨keyID, vchPubKey, vchCryptedSecret⟩ := first
    -- the first entry is that of a key which is encrypted under the master key
    have hget : h.store.mapCryptedKeys[keyID]? = some (vchPubKey, vchCryptedSecret) := by
      rw [← Std.ExtTreeMap.mem_toList_iff_getElem?_eq_some, hlist]
      exact List.mem_cons_self
    obtain ⟨key, hmem, -, hrecord⟩ := (hc.mapCryptedKeys keyID _).mp hget
    obtain ⟨vchCrypted, hencrypt, hpair⟩ := Option.map_eq_some_iff.mp hrecord
    obtain ⟨rfl, rfl⟩ := Prod.mk.inj hpair
    rw [encryptSecret] at hencrypt
    split_ifs at hencrypt with hsize
    dsimp only
    cases hdecrypt : decryptSecret env vMasterKeyIn vchCrypted (env.hash key.pubKey) with
    | none => exact ⟨by simp, rfl⟩
    | some vchSecret =>
      rw [decryptSecret] at hdecrypt
      split_ifs at hdecrypt
      dsimp only
      split_ifs with hlength
      · exact ⟨by simp, rfl⟩
      · rw [not_not] at hlength
        cases hpoint : env.regenerate vchSecret with
        | none =>
          have herror : (CCryptoKeyStore.restoreKey env {} key.pubKey vchSecret).bind
              CKey.getPubKey = .error .runtimeError := by
            rw [CCryptoKeyStore.restoreKey, CKey.setSecret, if_neg (not_not.mpr hlength), hpoint]
            rfl
          rw [herror]
          exact ⟨by simp, rfl⟩
        | some point =>
          obtain ⟨keyRead, hread, -, hpub⟩ := key.exists_restoreKey hlength hpoint {}
          have hpubs : (CCryptoKeyStore.restoreKey env {} key.pubKey vchSecret).bind
              CKey.getPubKey = .ok (env.encode point (key.compressed || false)) := by
            rw [hread]
            exact hpub
          have hdiffer : env.encode point (key.compressed || false) ≠ key.pubKey := by
            rw [Bool.or_false]
            exact hsound.decrypt_ne hother.symm hencrypt hdecrypt _ _ _
              key.regenerate_vchSecret hpoint
          rw [hpubs]
          dsimp only
          rw [if_neg hdiffer]
          exact ⟨by simp, rfl⟩

lemma Consistent.unlock (hsound : env.Sound) (hc : Consistent h) :
    Consistent (h.step (.unlock vMasterKeyIn)) := by
  rcases hc with hp | ⟨vMasterKey, hc⟩
  · rcases hp.setCrypted with ⟨-, hset⟩ | ⟨hnil, hset, hkeys⟩
    · rw [History.step, CCryptoKeyStore.unlock, hset]
      exact Or.inl hp
    · rw [History.step, CCryptoKeyStore.unlock, hset]
      dsimp only
      rw [Std.ExtTreeMap.toList_eq_nil_iff.mpr hp.mapCryptedKeys]
      exact Or.inr ⟨[], hp.crypted_of_added_eq_nil hnil hkeys vMasterKeyIn⟩
  · rw [History.step]
    by_cases hrefused : h.added ≠ [] ∧ vMasterKeyIn ≠ vMasterKey
    · rw [(hc.refuses hsound hrefused.1 hrefused.2).2]
      exact Or.inr ⟨vMasterKey, hc⟩
    · rcases CCryptoKeyStore.unlock_of_fUseCrypto hc.fUseCrypto with hsame | hset
      · rw [hsame]
        exact Or.inr ⟨vMasterKey, hc⟩
      · rw [hset]
        refine Or.inr ⟨vMasterKey, hc.fUseCrypto, hc.mapKeys, hc.mapCryptedKeys, hc.record, ?_⟩
        intro hne
        exact Or.inr (not_not.mp fun hother => hrefused ⟨hne, hother⟩)

lemma Consistent.addKey (hc : Consistent h) (hmeets : (Op.addKey key).Meets h) :
    Consistent (h.step (.addKey key)) := by
  obtain ⟨hflag, hsame⟩ := hmeets
  have hadded : {key' | key' ∈ key :: h.added} = insert key {key' | key' ∈ h.added} := by
    ext key'
    simp
  rcases hc with hp | ⟨vMasterKey, hc⟩
  · rw [History.step, CCryptoKeyStore.addKey, hp.fUseCrypto, hflag hp.fUseCrypto]
    rw [Bool.not_false, if_pos rfl]
    refine Or.inl ⟨rfl, hp.mapCryptedKeys, hp.vMasterKey, ?_⟩
    dsimp only
    rw [if_pos rfl, hadded]
    refine hp.mapKeys.insert rfl fun key' hmem hid => ?_
    rw [(hsame key' hmem hid).1, (hsame key' hmem hid).2]
  · rw [History.step, CCryptoKeyStore.addKey, hc.fUseCrypto, Bool.not_true,
      if_neg Bool.false_ne_true]
    cases hlocked : h.store.isLocked with
    | true => exact Or.inr ⟨vMasterKey, hc⟩
    | false =>
      have hc' := hc.of_isLocked_eq_false hlocked
      rw [if_neg Bool.false_ne_true]
      cases hencrypt : encryptSecret env h.store.vMasterKey key.vchSecret (env.hash key.pubKey) with
      | none => exact Or.inr ⟨vMasterKey, hc⟩
      | some vchCryptedSecret =>
        dsimp only
        rw [CCryptoKeyStore.addCryptedKey,
          CCryptoKeyStore.setCrypted_of_fUseCrypto hc.fUseCrypto]
        have hentry : key.record h.store.vMasterKey = some (key.pubKey, vchCryptedSecret) := by
          rw [FullKey.record, hencrypt, Option.map_some]
        refine Or.inr ⟨h.store.vMasterKey, hc.fUseCrypto, hc.mapKeys, ?_, ?_, fun _ => Or.inr rfl⟩
        · dsimp only
          rw [if_pos rfl, hadded]
          exact hc'.mapCryptedKeys.insert hentry fun key' hmem hid =>
            (hsame key' hmem hid).record _
        · intro key' hmem
          rcases List.mem_cons.mp hmem with rfl | hmem
          · exact ⟨_, hentry⟩
          · exact hc'.record key' hmem

/-- A key as it is stored in a keystore that is not encrypted. -/
def FullKey.entry (key : FullKey env) : BitVec 160 × Bytes × Bool :=
  (key.keyID, key.vchSecret, key.compressed)

/-- The loop of `EncryptKeys` stores all keys, if they can be encrypted. -/
lemma CCryptoKeyStore.exists_encryptLoop {keys added : Set (FullKey env)}
    (hsame : ∀ key ∈ added, ∀ key' ∈ added, key'.keyID = key.keyID → key'.Same key)
    (hrecord : ∀ key ∈ added, ∃ entry, key.record vMasterKeyIn = some entry)
    {entries : List (BitVec 160 × Bytes × Bool)} {s : CCryptoKeyStore} (hs : s.fUseCrypto = true)
    (hm : Indexes s.mapCryptedKeys keys (FullKey.record vMasterKeyIn)) (hkeys : keys ⊆ added)
    (hentries : ∀ entry ∈ entries, ∃ key ∈ added, key.entry = entry) :
    ∃ mapCryptedKeys keys', s.encryptLoop env vMasterKeyIn entries =
        (.ok true, { s with mapCryptedKeys }) ∧
      Indexes mapCryptedKeys keys' (FullKey.record vMasterKeyIn) ∧ keys ⊆ keys' ∧ keys' ⊆ added ∧
      ∀ entry ∈ entries, ∃ key ∈ keys', key.entry = entry := by
  induction entries generalizing s keys with
  | nil => exact ⟨s.mapCryptedKeys, keys, rfl, hm, Set.Subset.rfl, hkeys, by simp⟩
  | cons entry entries ih =>
    obtain ⟨⟨key, hmem, rfl⟩, hrest⟩ := List.forall_mem_cons.mp hentries
    obtain ⟨crypted, hcrypted⟩ := hrecord key hmem
    obtain ⟨vchCrypted, hencrypt, rfl⟩ := Option.map_eq_some_iff.mp hcrypted
    have hpub : (CKey.setSecret ({} : CKey env) key.vchSecret key.compressed).bind CKey.getPubKey =
        .ok key.pubKey := by
      obtain ⟨keyRead, hread, -, hpub⟩ := CKey.exists_setSecret key.length_vchSecret
        key.regenerate_vchSecret {} key.compressed
      rw [Bool.or_false] at hpub
      rw [hread]
      exact hpub
    have hm' := hm.insert hcrypted fun key' hmem' hid =>
      (hsame key hmem key' (hkeys hmem') hid).record vMasterKeyIn
    have hstep : s.encryptLoop env vMasterKeyIn (key.entry :: entries) =
        encryptLoop env vMasterKeyIn entries { s with
          mapCryptedKeys := s.mapCryptedKeys.insert key.keyID (key.pubKey, vchCrypted) } := by
      rw [FullKey.entry, encryptLoop, hpub]
      dsimp only
      rw [hencrypt]
      dsimp only
      rw [addCryptedKey, setCrypted_of_fUseCrypto hs]
      rfl
    obtain ⟨m, keys', hloop, hindexes, hsub, hsub', hall⟩ := ih (s := { s with
      mapCryptedKeys := s.mapCryptedKeys.insert key.keyID (key.pubKey, vchCrypted) }) hs hm'
      (Set.insert_subset hmem hkeys) hrest
    refine ⟨m, keys', hstep.trans hloop, hindexes, (Set.subset_insert _ _).trans hsub, hsub', ?_⟩
    exact List.forall_mem_cons.mpr ⟨⟨key, hsub (Set.mem_insert _ _), rfl⟩, hall⟩

/-- Keys that are stored under the same hash are the same. -/
lemma Plain.same (hp : Plain h) {key' : FullKey env} (hmem : key ∈ h.added) (hmem' : key' ∈ h.added)
    (hid : key'.keyID = key.keyID) : key'.Same key := by
  have hget := (hp.mapKeys key.keyID _).mpr ⟨key, hmem, rfl, rfl⟩
  have hget' := (hp.mapKeys key.keyID _).mpr ⟨key', hmem', hid, rfl⟩
  rw [hget] at hget'
  exact ⟨(Prod.mk.inj (Option.some.inj hget')).1.symm, (Prod.mk.inj (Option.some.inj hget')).2.symm⟩

lemma Consistent.encryptKeys (hc : Consistent h) (hmeets : (Op.encryptKeys vMasterKeyIn).Meets h) :
    Consistent (h.step (.encryptKeys vMasterKeyIn)) := by
  rw [History.step, CCryptoKeyStore.encryptKeys]
  rcases hc with hp | ⟨vMasterKey, hc⟩
  · have hrecord : ∀ key ∈ h.added, ∃ entry, key.record vMasterKeyIn = some entry := by
      intro key hmem
      obtain ⟨vchCrypted, hencrypt⟩ := Option.isSome_iff_exists.mp (hmeets hp.fUseCrypto key hmem)
      exact ⟨(key.pubKey, vchCrypted), by rw [FullKey.record, hencrypt, Option.map_some]⟩
    have hempty : Indexes h.store.mapCryptedKeys (∅ : Set (FullKey env))
        (FullKey.record vMasterKeyIn) := by
      intro keyID entry
      simp [hp.mapCryptedKeys]
    have hentries : ∀ entry ∈ h.store.mapKeys.toList,
        ∃ key ∈ {key | key ∈ h.added}, key.entry = entry := by
      rintro ⟨keyID, value⟩ hmem
      rw [Std.ExtTreeMap.mem_toList_iff_getElem?_eq_some] at hmem
      obtain ⟨key, hadded, rfl, hvalue⟩ := (hp.mapKeys keyID value).mp hmem
      exact ⟨key, hadded, Prod.ext rfl (Option.some.inj hvalue)⟩
    obtain ⟨m, keys, hloop, hindexes, -, hsub, hall⟩ :=
      @CCryptoKeyStore.exists_encryptLoop env vMasterKeyIn ∅ {key | key ∈ h.added}
        (fun key hmem key' hmem' hid => hp.same hmem hmem' hid) hrecord h.store.mapKeys.toList
        { h.store with fUseCrypto := true } rfl hempty (Set.empty_subset _) hentries
    rw [if_neg, hloop]
    · refine Or.inr ⟨vMasterKeyIn, rfl, rfl, ?_, hrecord, fun _ => Or.inl hp.vMasterKey⟩
      refine hindexes.mono hsub fun key' hmem' => ?_
      have hthere := (hp.mapKeys key'.keyID _).mpr ⟨key', hmem', rfl, rfl⟩
      rw [← Std.ExtTreeMap.mem_toList_iff_getElem?_eq_some] at hthere
      obtain ⟨key, hmem, hentry⟩ := hall _ hthere
      have hid : key.keyID = key'.keyID := congrArg Prod.fst hentry
      exact ⟨key, hmem, hid, (hp.same hmem' (hsub hmem) hid).record vMasterKeyIn⟩
    · rw [Std.ExtTreeMap.isEmpty_iff.mpr hp.mapCryptedKeys, hp.fUseCrypto]
      decide
  · rw [if_pos]
    · exact Or.inr ⟨vMasterKey, hc⟩
    · rw [hc.fUseCrypto, Bool.or_true]

/-! ## Runs that meet the condition -/

/-- A call that meets the condition. -/
lemma Consistent.step (hsound : env.Sound) (hc : Consistent h) {op : Op env} (hmeets : op.Meets h) :
    Consistent (h.step op) := by
  cases op with
  | addKey key => exact hc.addKey hmeets
  | encryptKeys vMasterKeyIn => exact hc.encryptKeys hmeets
  | lock => exact hc.lock
  | unlock vMasterKeyIn => exact hc.unlock hsound

/-- Calls that meet the condition. -/
lemma Consistent.run (hsound : env.Sound) (hc : Consistent h) {ops : List (Op env)}
    (hmeets : AllMeet h ops) : Consistent (h.run ops) := by
  induction ops generalizing h with
  | nil => exact hc
  | cons op ops ih => exact ih (hc.step hsound hmeets.1) hmeets.2

/-- A new keystore. -/
lemma consistent_new : Consistent ({} : History env) := by
  refine Or.inl ⟨rfl, rfl, rfl, ?_⟩
  intro keyID entry
  simp

/-- What `GetKey` of a keystore that is not encrypted returns. -/
lemma Plain.returns (hp : Plain h) (hmem : key ∈ h.added) (keyOut : CKey env) :
    h.store.Returns key keyOut := by
  have hget := (hp.mapKeys key.keyID _).mpr ⟨key, hmem, rfl, rfl⟩
  obtain ⟨keyRead, hread, hsecret, hpub⟩ := CKey.exists_setSecret key.length_vchSecret
    key.regenerate_vchSecret {} key.compressed
  rw [Bool.or_false] at hpub
  refine ⟨keyRead, ?_, hsecret, hpub⟩
  rw [CCryptoKeyStore.getKey, hp.fUseCrypto, Bool.not_false, if_pos rfl, hget]
  dsimp only
  rw [hread]
  rfl

/-- What `GetKey` of an encrypted keystore returns: the object keeps the flag that it has. -/
lemma Crypted.exists_getKey (hsound : env.Sound) (hc : Crypted h vMasterKey)
    (hlocked : h.store.isLocked = false) (hmem : key ∈ h.added) (keyOut : CKey env) :
    ∃ keyRead, h.store.getKey env key.keyID keyOut = .ok (some keyRead) ∧
      keyRead.getSecret = .ok key.vchSecret ∧
      keyRead.getPubKey =
        .ok (env.encode key.point (key.compressed || keyOut.fCompressedPubKey)) := by
  have hc' := hc.of_isLocked_eq_false hlocked
  obtain ⟨entry, hentry⟩ := hc'.record key hmem
  have hget := (hc'.mapCryptedKeys key.keyID entry).mpr ⟨key, hmem, rfl, hentry⟩
  obtain ⟨vchCrypted, hencrypt, rfl⟩ := Option.map_eq_some_iff.mp hentry
  obtain ⟨keyRead, hread, hsecret, hpub⟩ :=
    key.exists_restoreKey key.length_vchSecret key.regenerate_vchSecret keyOut
  refine ⟨keyRead, ?_, hsecret, hpub⟩
  have hdecrypt : decryptSecret env h.store.vMasterKey vchCrypted (env.hash key.pubKey) =
      some key.vchSecret := by
    rw [encryptSecret] at hencrypt
    split_ifs at hencrypt with hsize
    rw [decryptSecret, if_neg hsize]
    exact hsound.decrypt_encrypt hencrypt
  rw [CCryptoKeyStore.getKey, hc.fUseCrypto, Bool.not_true, if_neg Bool.false_ne_true, hget]
  dsimp only
  rw [hdecrypt]
  dsimp only
  rw [if_neg (not_not.mpr key.length_vchSecret), hread]
  rfl

/-- A consistent keystore recovers its keys. -/
lemma Consistent.recovers (hsound : env.Sound) (hc : Consistent h) : Recovers h := by
  rcases hc with hp | ⟨vMasterKey, hc⟩
  · refine ⟨fun hcrypto => absurd (hp.fUseCrypto.symm.trans hcrypto) Bool.false_ne_true,
      ⟨[], ?_, ?_⟩, fun _ key hmem keyOut _ => hp.returns hmem keyOut⟩
    · intro keyID entry hentry
      rw [hp.mapCryptedKeys, Std.ExtTreeMap.getElem?_empty] at hentry
      exact absurd hentry.symm (Option.some_ne_none _)
    · intro hne vMasterKeyIn _
      rcases hp.setCrypted with ⟨-, hset⟩ | ⟨hnil, -⟩
      · rw [CCryptoKeyStore.Refuses, CCryptoKeyStore.unlock, hset]
        exact ⟨by simp, rfl⟩
      · exact absurd hnil hne
  · refine ⟨fun _ => hc.mapKeys, ⟨vMasterKey, ?_, ?_⟩, ?_⟩
    · intro keyID entry hentry
      exact (hc.mapCryptedKeys keyID entry).mp hentry
    · intro hne vMasterKeyIn hother
      exact hc.refuses hsound hne (hother hc.fUseCrypto)
    · intro hlocked key hmem keyOut hflag
      obtain ⟨keyRead, hread, hsecret, hpub⟩ := hc.exists_getKey hsound hlocked hmem keyOut
      refine ⟨keyRead, hread, hsecret, ?_⟩
      rw [hpub, FullKey.pubKey]
      cases hout : keyOut.fCompressedPubKey with
      | true => rw [hflag hc.fUseCrypto hout, Bool.true_or]
      | false => rw [Bool.or_false]

end

/-- In every run of calls that meet the condition the keystore recovers its keys. -/
theorem recovers_run (env : Env) (hsound : env.Sound) (ops : List (Op env))
    (hmeets : AllMeet {} ops) : Recovers (History.run ({} : History env) ops) :=
  (consistent_new.run hsound hmeets).recovers hsound

/-! ### A keystore with one key -/

/-- A curve on which every string of 32 bytes is a private key and its own public key, and a cipher
that puts the key before the text. -/
def sampleEnv : Env where
  Point := Bytes
  IsFinite point := point.length = 32
  regenerate vchSecret := some vchSecret
  encode point compressed := if compressed then 2 :: point else 4 :: point ++ point
  decode
    | 2 :: point => some (point, true)
    | 4 :: points => some (points.take 32, false)
    | _ => none
  length_encode hpoint compressed := by cases compressed <;> simp [hpoint]
  decode_encode hpoint compressed := by cases compressed <;> simp [hpoint]
  hash160 vch := BitVec.ofNat 160 (LittleEndian.leValue vch)
  hash vch := BitVec.ofNat 256 (LittleEndian.leValue vch)
  encrypt vMasterKey _ vchPlaintext :=
    if vMasterKey.length = 32 then some (vMasterKey ++ vchPlaintext) else none
  decrypt vMasterKey _ vchCiphertext :=
    if vMasterKey.length = 32 ∧ vchCiphertext.take 32 = vMasterKey then
      some (vchCiphertext.drop 32)
    else none

lemma sound_sampleEnv : sampleEnv.Sound where
  decrypt_encrypt {vMasterKey nIV vchSecret vchCrypted} hencrypt := by
    simp only [sampleEnv] at hencrypt ⊢
    split_ifs at hencrypt with hsize
    obtain rfl := Option.some.inj hencrypt
    rw [← hsize, List.take_left, List.drop_left, if_pos ⟨rfl, rfl⟩]
  decrypt_ne {vMasterKey vMasterKey' nIV vchSecret vchSecret' vchCrypted} hne hencrypt
      hdecrypt := by
    simp only [sampleEnv] at hencrypt hdecrypt
    split_ifs at hencrypt with hsize
    obtain rfl := Option.some.inj hencrypt
    split_ifs at hdecrypt with hother
    rw [← hsize, List.take_left] at hother
    exact absurd hother.2 hne

/-- A key whose public key is not compressed. -/
def sampleFullKey : FullKey sampleEnv where
  vchSecret := List.replicate 32 1
  point := List.replicate 32 1
  compressed := false
  fCompressedPubKey := false
  length_vchSecret := by decide
  regenerate_vchSecret := rfl
  isFinite := List.length_replicate

/-- The key is added, and the keystore is encrypted and unlocked. -/
def sampleOps : List (Op sampleEnv) :=
  [.addKey sampleFullKey, .encryptKeys (List.replicate 32 7), .unlock (List.replicate 32 7)]

lemma allMeet_sampleOps : AllMeet {} sampleOps := by
  refine ⟨⟨fun _ => rfl, by simp⟩, ?_, trivial, trivial⟩
  intro _ key hmem
  obtain rfl := List.mem_singleton.mp hmem
  decide

/-- The key can be recovered. -/
theorem recovers_run_sampleOps : Recovers (History.run ({} : History sampleEnv) sampleOps) :=
  recovers_run sampleEnv sound_sampleEnv sampleOps allMeet_sampleOps

/-- `GetKey` into an object that has had a compressed key gives the key in the other form. -/
theorem not_returns_run :
    ¬ ∀ (env : Env) (ops : List (Op env)) (key : FullKey env) (keyOut : CKey env), env.Sound →
      (History.run {} ops).store.isLocked = false → key ∈ (History.run {} ops).added →
      (History.run {} ops).store.Returns key keyOut := by
  intro hall
  have hmem : sampleFullKey ∈ (History.run {} sampleOps).added := List.mem_singleton.mpr rfl
  have hlocked : (History.run ({} : History sampleEnv) sampleOps).store.isLocked = false := by
    decide +kernel
  have hcrypto : (History.run ({} : History sampleEnv) sampleOps).store.fUseCrypto = true := by
    decide +kernel
  obtain ⟨keyRead, hread, -, hpub⟩ := hall sampleEnv sampleOps sampleFullKey
    { fCompressedPubKey := true } sound_sampleEnv hlocked hmem
  rcases consistent_new.run sound_sampleEnv allMeet_sampleOps with hp | ⟨vMasterKey, hc⟩
  · exact absurd (hp.fUseCrypto.symm.trans hcrypto) Bool.false_ne_true
  · obtain ⟨keyRead', hread', -, hpub'⟩ := hc.exists_getKey sound_sampleEnv hlocked hmem
      { fCompressedPubKey := true }
    obtain rfl : keyRead = keyRead' := by simpa [hread] using hread'
    rw [hpub] at hpub'
    exact absurd (Except.ok.inj hpub') (by decide)

end HyperStake.Keystore
