import HyperStake.Chain.CachedHash
import HyperStake.Script.Signing

/-!
# The signature of a block

`SignBlock` signs a proof-of-work block for the first output of its coinbase that pays to a public
key whose private key is in the keystore and signs, and a proof-of-stake block for the output of its
coinstake after the empty one.  `CheckBlockSignature` looks for an output of which the public key
verifies the signature.

The two do not walk the outputs of a coinbase by the same rules: one goes on at an output that
`Solver` does not take apart, and the other returns.  So a block that is signed is accepted if and
only if no such output comes too early (`checkBlockSignature_signBlock_iff`).
-/

namespace HyperStake

namespace CTxOut

variable {crypto : Crypto}

/-- `Solver` does not take the script of an output apart. -/
def IsRejected (txout : CTxOut) : Prop := txout.scriptPubKey.solver = none

/-- An output pays to a public key. -/
def PaysTo (txout : CTxOut) (vchPubKey : Bytes) : Prop :=
  ∃ vSolutions, txout.scriptPubKey.solver = some (.TX_PUBKEY, vSolutions) ∧
    vSolutions.headD [] = vchPubKey

/-- An output pays to the public key of a private key in a keystore, which signs a hash. -/
def IsSignedBy (keystore : CKeyStore crypto) (hash : UInt256) (txout : CTxOut) (vchSig : Bytes) :
    Prop :=
  ∃ key, txout.PaysTo key.getPubKey ∧
    keystore.getKey (crypto.hash160 key.getPubKey) = some key ∧ key.sign hash = some vchSig

/-- An output pays to a public key that verifies a signature. -/
def Verifies (crypto : Crypto) (hash : UInt256) (txout : CTxOut) (vchSig : Bytes) : Prop :=
  ∃ vchPubKey, txout.PaysTo vchPubKey ∧ vchSig ≠ [] ∧ crypto.verify vchPubKey hash vchSig = true

end CTxOut

namespace CKeyStore

variable {crypto : Crypto} (keystore : CKeyStore crypto) (hash : UInt256)

/-- The private key for a public key signs: whether it does, and the signature as it is left. -/
def signFor (vchPubKey vchBlockSig : Bytes) : Bool × Bytes :=
  match keystore.getKey (crypto.hash160 vchPubKey) with
  | none => (false, vchBlockSig)
  | some key =>
    if key.getPubKey ≠ vchPubKey then (false, vchBlockSig)
    else
      match key.sign hash with
      | none => (false, [])
      | some vchSig => (true, vchSig)

/-- The loop of `SignBlock` over the outputs of the coinbase that are left. -/
def signOutputs : List CTxOut → Bytes → Bool × Bytes
  | [], vchBlockSig => (false, vchBlockSig)
  | txout :: vout, vchBlockSig =>
    match txout.scriptPubKey.solver with
    | some (.TX_PUBKEY, vSolutions) =>
      match keystore.signFor hash (vSolutions.headD []) vchBlockSig with
      | (true, vchSig) => (true, vchSig)
      | (false, vchSig) => signOutputs vout vchSig
    | _ => signOutputs vout vchBlockSig

/-- What the keys of a keystore sign is not empty, and their public keys verify it. -/
def SignsWhatVerifies : Prop :=
  ∀ keyID key hash vchSig, keystore.getKey keyID = some key → key.sign hash = some vchSig →
    vchSig ≠ [] ∧ crypto.verify key.getPubKey hash vchSig = true

end CKeyStore

namespace BlockObject

variable {crypto : Crypto} (hash9 : Bytes → UInt256) (hashGenesisBlock : UInt256)

/-- `SignBlock`: what it returns, and the block as it leaves it. -/
def signBlock (keystore : CKeyStore crypto) (block : BlockObject) :
    Except Fault (Bool × BlockObject) :=
  if !block.isProofOfStake then
    match block.vtx with
    | [] => .error .undefined
    | tx :: _ =>
      let (fSigned, vchBlockSig) :=
        keystore.signOutputs (block.getHash hash9) tx.vout block.vchBlockSig
      .ok (fSigned, { block with vchBlockSig })
  else
    match block.vtx[1]?.bind fun tx => tx.vout[1]? with
    | none => .error .undefined
    | some txout =>
      match txout.scriptPubKey.solver with
      | some (.TX_PUBKEY, vSolutions) =>
        let (fSigned, vchBlockSig) :=
          keystore.signFor (block.getHash hash9) (vSolutions.headD []) block.vchBlockSig
        .ok (fSigned, { block with vchBlockSig })
      | _ => .ok (false, block)

/-- The checks of `CheckBlockSignature` on a public key. -/
def verifyFor (crypto : Crypto) (hash : UInt256) (vchPubKey vchBlockSig : Bytes) : Bool :=
  !vchBlockSig.isEmpty && crypto.verify vchPubKey hash vchBlockSig

/-- The loop of `CheckBlockSignature` over the outputs of the coinbase that are left. -/
def verifyOutputs (crypto : Crypto) (hash : UInt256) (vchBlockSig : Bytes) : List CTxOut → Bool
  | [] => false
  | txout :: vout =>
    match txout.scriptPubKey.solver with
    | none => false
    | some (.TX_PUBKEY, vSolutions) =>
      if verifyFor crypto hash (vSolutions.headD []) vchBlockSig then true
      else verifyOutputs crypto hash vchBlockSig vout
    | some _ => verifyOutputs crypto hash vchBlockSig vout

def checkBlockSignature (crypto : Crypto) (block : BlockObject) : Except Fault Bool :=
  if block.getHash hash9 = hashGenesisBlock then .ok block.vchBlockSig.isEmpty
  else if block.isProofOfStake then
    match block.vtx[1]?.bind fun tx => tx.vout[1]? with
    | none => .error .undefined
    | some txout =>
      match txout.scriptPubKey.solver with
      | some (.TX_PUBKEY, vSolutions) =>
        .ok (verifyFor crypto (block.getHash hash9) (vSolutions.headD []) block.vchBlockSig)
      | _ => .ok false
  else
    match block.vtx with
    | [] => .error .undefined
    | tx :: _ => .ok (verifyOutputs crypto (block.getHash hash9) block.vchBlockSig tx.vout)

/-- The outputs of the first transaction. -/
def coinBaseOutputs (block : BlockObject) : List CTxOut := (block.vtx.headD {}).vout

end BlockObject

/-- The first of the elements of a list that are not passed over is of a kind. -/
def FirstIs {α : Type*} (kind passed : α → Prop) (l : List α) : Prop :=
  ∃ (i : ℕ) (x : α), l[i]? = some x ∧ kind x ∧ ∀ k < i, ∀ y, l[k]? = some y → passed y

/-- An output that `Solver` does not take apart does not stand before the first one for which a key
signs, unless an output before it pays to a public key that verifies what this key signs. -/
def NoneTooEarly {crypto : Crypto} (keystore : CKeyStore crypto) (hash : UInt256)
    (vout : List CTxOut) : Prop :=
  ∀ (i j : ℕ) (signed rejected : CTxOut) (vchSig : Bytes), vout[i]? = some signed →
    signed.IsSignedBy keystore hash vchSig →
    (∀ k < i, ∀ passed : CTxOut, vout[k]? = some passed →
      ∀ vchSig, ¬ passed.IsSignedBy keystore hash vchSig) →
    j < i → vout[j]? = some rejected → rejected.IsRejected →
      ∃ k < j, ∃ earlier : CTxOut, vout[k]? = some earlier ∧ earlier.Verifies crypto hash vchSig

/-! ## The two walks -/

section Walks

variable {α : Type*} {kind passed : α → Prop} {x : α} {l : List α}

lemma firstIs_cons : FirstIs kind passed (x :: l) ↔ kind x ∨ passed x ∧ FirstIs kind passed l := by
  constructor
  · rintro ⟨i, y, hget, hkind, hpassed⟩
    cases i with
    | zero =>
      obtain rfl : x = y := by simpa using hget
      exact Or.inl hkind
    | succ i =>
      refine Or.inr ⟨hpassed 0 (Nat.succ_pos i) x rfl, i, y, by simpa using hget, hkind, ?_⟩
      intro k hk z hz
      exact hpassed (k + 1) (Nat.succ_lt_succ hk) z (by simpa using hz)
  · rintro (hkind | ⟨hx, i, y, hget, hkind, hpassed⟩)
    · exact ⟨0, x, rfl, hkind, fun k hk => absurd hk (Nat.not_lt_zero k)⟩
    · refine ⟨i + 1, y, by simpa using hget, hkind, ?_⟩
      intro k hk z hz
      cases k with
      | zero =>
        obtain rfl : x = z := by simpa using hz
        exact hx
      | succ k => exact hpassed k (Nat.lt_of_succ_lt_succ hk) z (by simpa using hz)

lemma not_firstIs_nil : ¬ FirstIs kind passed [] := by
  rintro ⟨i, x, hget, -⟩
  simp at hget

variable {crypto : Crypto} {keystore : CKeyStore crypto} {hash : UInt256} {txout : CTxOut}
  {vout : List CTxOut} {vSolutions : List Bytes} {vchPubKey vchBlockSig vchSig : Bytes}

/-- The public key that `Solver` returns is the one that an output pays to. -/
lemma CTxOut.paysTo_iff (hsolver : txout.scriptPubKey.solver = some (.TX_PUBKEY, vSolutions)) :
    txout.PaysTo vchPubKey ↔ vSolutions.headD [] = vchPubKey := by
  simp [CTxOut.PaysTo, hsolver]

/-- A private key signs for a public key if it is stored under its hash. -/
lemma CKeyStore.signFor_eq_true_iff :
    keystore.signFor hash vchPubKey vchBlockSig = (true, vchSig) ↔
      ∃ key, vchPubKey = key.getPubKey ∧
        keystore.getKey (crypto.hash160 vchPubKey) = some key ∧ key.sign hash = some vchSig := by
  unfold CKeyStore.signFor
  cases hkey : keystore.getKey (crypto.hash160 vchPubKey) with
  | none => simp
  | some key =>
    by_cases hpub : key.getPubKey = vchPubKey
    · cases hsign : key.sign hash <;> simp [hpub, hsign]
    · have hne : ¬ ∃ key', vchPubKey = key'.getPubKey ∧ key = key' ∧ key'.sign hash = some vchSig := by
        rintro ⟨_, heq, rfl, -⟩
        exact hpub heq.symm
      simpa [hpub] using hne

/-- A private key signs for the public key of an output if and only if the output is signed for. -/
lemma CTxOut.isSignedBy_iff (hsolver : txout.scriptPubKey.solver = some (.TX_PUBKEY, vSolutions)) :
    txout.IsSignedBy keystore hash vchSig ↔
      keystore.signFor hash (vSolutions.headD []) vchBlockSig = (true, vchSig) := by
  rw [CKeyStore.signFor_eq_true_iff]
  apply exists_congr
  intro key
  rw [CTxOut.paysTo_iff hsolver]
  constructor
  · rintro ⟨hpub, hkey, hsign⟩
    exact ⟨hpub, hpub ▸ hkey, hsign⟩
  · rintro ⟨hpub, hkey, hsign⟩
    exact ⟨hpub, hpub ▸ hkey, hsign⟩

/-- `SignBlock` signs with the key for the first output that has one. -/
lemma CKeyStore.signOutputs_eq_true_iff :
    keystore.signOutputs hash vout vchBlockSig = (true, vchSig) ↔
      FirstIs (fun txout => txout.IsSignedBy keystore hash vchSig)
        (fun txout => ∀ vchSig, ¬ txout.IsSignedBy keystore hash vchSig) vout := by
  induction vout generalizing vchBlockSig with
  | nil => simp [CKeyStore.signOutputs, not_firstIs_nil]
  | cons txout vout ih =>
    rw [firstIs_cons]
    by_cases hpub : ∃ vSolutions, txout.scriptPubKey.solver = some (.TX_PUBKEY, vSolutions)
    · obtain ⟨vSolutions, hsolver⟩ := hpub
      have hsigns : ∀ vchSig, txout.IsSignedBy keystore hash vchSig ↔
          keystore.signFor hash (vSolutions.headD []) vchBlockSig = (true, vchSig) :=
        fun _ => CTxOut.isSignedBy_iff hsolver
      simp only [CKeyStore.signOutputs, hsolver, hsigns]
      rcases hsigned : keystore.signFor hash (vSolutions.headD []) vchBlockSig with ⟨_ | _, vchSig'⟩
      · simp [ih]
      · simp
    · have hnone : ∀ vchSig, ¬ txout.IsSignedBy keystore hash vchSig := by
        rintro vchSig ⟨key, ⟨vSolutions, hsolver, -⟩, -⟩
        exact hpub ⟨vSolutions, hsolver⟩
      have hskip : keystore.signOutputs hash (txout :: vout) vchBlockSig =
          keystore.signOutputs hash vout vchBlockSig := by
        rw [CKeyStore.signOutputs]
        split
        · exact absurd ⟨_, ‹_›⟩ hpub
        · rfl
      rw [hskip, ih, or_iff_right (hnone vchSig), and_iff_right hnone]

/-- `CheckBlockSignature` accepts a signature that the public key of an output verifies, if no output
before it is rejected. -/
lemma BlockObject.verifyOutputs_eq_true_iff :
    verifyOutputs crypto hash vchSig vout = true ↔
      FirstIs (fun txout => txout.Verifies crypto hash vchSig) (fun txout => ¬ txout.IsRejected)
        vout := by
  induction vout with
  | nil => simp [verifyOutputs, not_firstIs_nil]
  | cons txout vout ih =>
    rw [firstIs_cons, ← ih, verifyOutputs]
    split
    · rename_i hsolver
      simp [CTxOut.Verifies, CTxOut.PaysTo, CTxOut.IsRejected, hsolver]
    · rename_i vSolutions hsolver
      have hverify : txout.Verifies crypto hash vchSig ↔
          verifyFor crypto hash (vSolutions.headD []) vchSig = true := by
        simp [CTxOut.Verifies, CTxOut.paysTo_iff hsolver, verifyFor]
      rw [hverify, CTxOut.IsRejected, hsolver]
      split_ifs with hfirst
      · exact iff_of_true rfl (Or.inl hfirst)
      · rw [or_iff_right hfirst, and_iff_right not_false]
    · rename_i solved hne hsolver
      have hnone : ¬ txout.Verifies crypto hash vchSig := by
        rintro ⟨vchPubKey, ⟨vSolutions, hsolver', -⟩, -⟩
        rw [hsolver] at hsolver'
        exact hne vSolutions (Option.some.inj hsolver')
      rw [or_iff_right hnone, CTxOut.IsRejected, hsolver]
      simp

/-- An output that is signed for verifies what is signed. -/
lemma CTxOut.IsSignedBy.verifies (hsigned : txout.IsSignedBy keystore hash vchSig)
    (hinverse : keystore.SignsWhatVerifies) : txout.Verifies crypto hash vchSig := by
  obtain ⟨key, hpays, hkey, hsign⟩ := hsigned
  exact ⟨key.getPubKey, hpays, hinverse _ key hash vchSig hkey hsign⟩

/-- What is signed for the first output that has a key is accepted if and only if no output is
rejected too early. -/
lemma forall_firstIs_iff (hinverse : keystore.SignsWhatVerifies) :
    (∀ vchSig, FirstIs (fun txout => txout.IsSignedBy keystore hash vchSig)
        (fun txout => ∀ vchSig, ¬ txout.IsSignedBy keystore hash vchSig) vout →
      FirstIs (fun txout => txout.Verifies crypto hash vchSig) (fun txout => ¬ txout.IsRejected)
        vout) ↔ NoneTooEarly keystore hash vout := by
  constructor
  · intro haccepted i j signed rejected vchSig hi hsigned hpassed hj hgetj hrejected
    obtain ⟨k, earlier, hk, hverifies, hnone⟩ := haccepted vchSig ⟨i, signed, hi, hsigned, hpassed⟩
    refine ⟨k, ?_, earlier, hk, hverifies⟩
    rcases lt_trichotomy k j with hlt | rfl | hgt
    · exact hlt
    · -- an output that pays to a public key is not rejected
      obtain ⟨vchPubKey, ⟨vSolutions, hsolver, -⟩, -⟩ := hverifies
      rw [hgetj, Option.some.injEq] at hk
      rw [CTxOut.IsRejected, hk, hsolver] at hrejected
      exact absurd hrejected (Option.some_ne_none _)
    · exact absurd hrejected (hnone j hgt rejected hgetj)
  · rintro hearly vchSig ⟨i, signed, hi, hsigned, hpassed⟩
    by_cases hany : ∃ j < i, ∃ rejected, vout[j]? = some rejected ∧ rejected.IsRejected
    · -- the outputs before the first one that is rejected
      classical
      obtain ⟨hj, rejected, hget, hrejected⟩ := Nat.find_spec hany
      obtain ⟨k, hk, earlier, hgetk, hverifies⟩ :=
        hearly i (Nat.find hany) signed rejected vchSig hi hsigned hpassed hj hget hrejected
      refine ⟨k, earlier, hgetk, hverifies, ?_⟩
      intro l hl y hy hyrejected
      exact Nat.find_min hany (hl.trans hk) ⟨(hl.trans hk).trans hj, y, hy, hyrejected⟩
    · refine ⟨i, signed, hi, hsigned.verifies hinverse, ?_⟩
      intro j hj rejected hget hrejected
      exact hany ⟨j, hj, rejected, hget, hrejected⟩

end Walks

/-! ## Blocks -/

namespace BlockObject

variable {crypto : Crypto} {hash9 : Bytes → UInt256} {hashGenesisBlock : UInt256}
  {keystore : CKeyStore crypto} {block signed : BlockObject}

/-- A proof-of-stake block is signed with the key for its output. -/
lemma signBlock_of_isProofOfStake (hstake : block.isProofOfStake = true)
    (hsign : block.signBlock hash9 keystore = .ok (true, signed)) :
    ∃ txout vchBlockSig, (block.vtx[1]?.bind fun tx => tx.vout[1]?) = some txout ∧
      txout.IsSignedBy keystore (block.getHash hash9) vchBlockSig ∧
      signed = { block with vchBlockSig } := by
  rw [signBlock, hstake, Bool.not_true, if_neg Bool.false_ne_true] at hsign
  cases hout : block.vtx[1]?.bind fun tx => tx.vout[1]? with
  | none => simp [hout] at hsign
  | some txout =>
    rw [hout] at hsign
    dsimp only at hsign
    split at hsign
    · rename_i vSolutions hsolver
      obtain ⟨hfor, hblock⟩ := Prod.mk.inj (Except.ok.inj hsign)
      refine ⟨txout, _, rfl, ?_, hblock.symm⟩
      exact (CTxOut.isSignedBy_iff hsolver).mpr (Prod.ext hfor rfl)
    · cases hsign

/-- A proof-of-work block is signed with the key for the first of its outputs that has one. -/
lemma signBlock_of_not_isProofOfStake (hstake : block.isProofOfStake = false) :
    block.signBlock hash9 keystore = .ok (true, signed) ↔
      block.vtx ≠ [] ∧ ∃ vchBlockSig, signed = { block with vchBlockSig } ∧
        FirstIs (fun txout => txout.IsSignedBy keystore (block.getHash hash9) vchBlockSig)
          (fun txout => ∀ vchSig, ¬ txout.IsSignedBy keystore (block.getHash hash9) vchSig)
          block.coinBaseOutputs := by
  rw [signBlock, hstake, Bool.not_false, if_pos rfl, coinBaseOutputs]
  cases hvtx : block.vtx with
  | nil => simp
  | cons tx vtx =>
    simp only [List.headD_cons,
      ← @CKeyStore.signOutputs_eq_true_iff _ keystore _ tx.vout block.vchBlockSig]
    rcases hsigned : keystore.signOutputs (block.getHash hash9) tx.vout block.vchBlockSig with
      ⟨fSigned, vchSig⟩
    constructor
    · intro hsign
      obtain ⟨rfl, rfl⟩ := Prod.mk.inj (Except.ok.inj hsign)
      exact ⟨List.cons_ne_nil _ _, vchSig, rfl, rfl⟩
    · rintro ⟨-, vchSig', rfl, heq⟩
      obtain ⟨rfl, rfl⟩ := Prod.mk.inj heq
      rfl

/-- A proof-of-stake block is accepted if its output verifies its signature. -/
lemma checkBlockSignature_of_isProofOfStake (hstake : block.isProofOfStake = true)
    (hgenesis : block.getHash hash9 ≠ hashGenesisBlock) {txout : CTxOut}
    (hout : (block.vtx[1]?.bind fun tx => tx.vout[1]?) = some txout)
    (hverifies : txout.Verifies crypto (block.getHash hash9) block.vchBlockSig) :
    block.checkBlockSignature hash9 hashGenesisBlock crypto = .ok true := by
  obtain ⟨vchPubKey, ⟨vSolutions, hsolver, rfl⟩, hne, hverify⟩ := hverifies
  rw [checkBlockSignature, if_neg hgenesis, if_pos hstake, hout]
  dsimp only
  rw [hsolver]
  simp only [verifyFor, hverify, Bool.and_true, Except.ok.injEq, Bool.not_eq_true',
    List.isEmpty_eq_false_iff]
  exact hne

/-- A proof-of-work block is accepted if the first of its outputs that is rejected or verifies its
signature verifies it. -/
lemma checkBlockSignature_of_not_isProofOfStake (hstake : block.isProofOfStake = false)
    (hgenesis : block.getHash hash9 ≠ hashGenesisBlock) (hvtx : block.vtx ≠ []) :
    block.checkBlockSignature hash9 hashGenesisBlock crypto = .ok true ↔
      FirstIs (fun txout => txout.Verifies crypto (block.getHash hash9) block.vchBlockSig)
        (fun txout => ¬ txout.IsRejected) block.coinBaseOutputs := by
  obtain ⟨tx, vtx, hcons⟩ := List.exists_cons_of_ne_nil hvtx
  rw [checkBlockSignature, if_neg hgenesis, hstake, if_neg Bool.false_ne_true, hcons,
    coinBaseOutputs, hcons, ← verifyOutputs_eq_true_iff]
  exact ⟨Except.ok.inj, congrArg Except.ok⟩

/-- What `SignBlock` signs is accepted by `CheckBlockSignature` if and only if the block is
proof-of-stake or no output of its coinbase is rejected too early. -/
theorem checkBlockSignature_signBlock_iff (hash9 : Bytes → UInt256) (hashGenesisBlock : UInt256)
    (keystore : CKeyStore crypto) (block : BlockObject)
    (hgenesis : block.getHash hash9 ≠ hashGenesisBlock)
    (hinverse : keystore.SignsWhatVerifies) :
    (∀ signed, block.signBlock hash9 keystore = .ok (true, signed) →
      signed.checkBlockSignature hash9 hashGenesisBlock crypto = .ok true) ↔
    block.isProofOfStake = true ∨
      NoneTooEarly keystore (block.getHash hash9) block.coinBaseOutputs := by
  cases hstake : block.isProofOfStake with
  | true =>
    refine iff_of_true ?_ (Or.inl rfl)
    intro signed hsign
    obtain ⟨txout, vchBlockSig, hout, hsigned, rfl⟩ := signBlock_of_isProofOfStake hstake hsign
    exact checkBlockSignature_of_isProofOfStake hstake hgenesis hout (hsigned.verifies hinverse)
  | false =>
    rw [or_iff_right Bool.false_ne_true, ← forall_firstIs_iff hinverse]
    by_cases hvtx : block.vtx = []
    · simp [signBlock_of_not_isProofOfStake hstake, hvtx, coinBaseOutputs, not_firstIs_nil]
    · constructor
      · intro haccepted vchBlockSig hfirst
        have hsign : block.signBlock hash9 keystore = .ok (true, { block with vchBlockSig }) :=
          (signBlock_of_not_isProofOfStake hstake).mpr ⟨hvtx, vchBlockSig, rfl, hfirst⟩
        exact (@checkBlockSignature_of_not_isProofOfStake _ _ _ { block with vchBlockSig } hstake
          hgenesis hvtx).mp (haccepted _ hsign)
      · intro hall signed hsign
        obtain ⟨-, vchBlockSig, rfl, hfirst⟩ := (signBlock_of_not_isProofOfStake hstake).mp hsign
        exact (@checkBlockSignature_of_not_isProofOfStake _ _ _ { block with vchBlockSig } hstake
          hgenesis hvtx).mpr (hall vchBlockSig hfirst)

/-! ### A block with two outputs -/

deriving instance DecidableEq for BlockObject

/-- A proof-of-work block with some outputs in its coinbase. -/
def ofOutputs (vout : List CTxOut) : BlockObject := { vtx := [{ vin := [{}], vout }] }

/-- An output that anyone may spend, of a form that `Solver` does not know. -/
def anyoneCanSpend : CTxOut := { nValue := 1, scriptPubKey := [OP_1] }

/-- An output that pays to the key of the keystore. -/
def toSampleKey : CTxOut := { nValue := 1, scriptPubKey := Crypto.sampleScripts 0 }

lemma isSignedBy_toSampleKey (hash : UInt256) :
    toSampleKey.IsSignedBy Crypto.sampleKeyStore hash (0x30 :: serializeUInt256 hash) := by
  refine ⟨Crypto.sampleKey, ⟨[Crypto.sampleKey.getPubKey], by decide +kernel, rfl⟩, ?_, rfl⟩
  simp [Crypto.sampleKeyStore]

lemma signsWhatVerifies_sample : Crypto.sampleKeyStore.SignsWhatVerifies := by
  intro keyID key hash vchSig hkey hsign
  obtain rfl := Crypto.eq_sampleKey hkey
  obtain rfl := Option.some.inj hsign
  exact ⟨List.cons_ne_nil _ _, beq_self_eq_true _⟩

/-- With the output of the key in the first place the block is accepted. -/
theorem checkBlockSignature_signBlock_first :
    { ofOutputs [toSampleKey, anyoneCanSpend] with
      vchBlockSig := 0x30 :: serializeUInt256 7 }.checkBlockSignature (fun _ => 7) 1
        Crypto.sample = .ok true :=
  (checkBlockSignature_signBlock_iff (fun _ => 7) 1 Crypto.sampleKeyStore
    (ofOutputs [toSampleKey, anyoneCanSpend]) (by decide) signsWhatVerifies_sample).mpr
    (Or.inr fun i _ _ _ _ _ _ hpassed hj =>
      absurd (isSignedBy_toSampleKey 7) (hpassed 0 (Nat.zero_lt_of_lt hj) toSampleKey rfl _))
    _ (by decide +kernel)

/-- With the output of the key in the second place the block is signed and not accepted. -/
theorem not_checkBlockSignature_signBlock :
    ¬ ∀ (crypto : Crypto) (hash9 : Bytes → UInt256) (hashGenesisBlock : UInt256)
      (keystore : CKeyStore crypto) (block signed : BlockObject),
      block.getHash hash9 ≠ hashGenesisBlock → keystore.SignsWhatVerifies →
      block.signBlock hash9 keystore = .ok (true, signed) →
      signed.checkBlockSignature hash9 hashGenesisBlock crypto = .ok true := by
  intro hall
  have haccepted := hall Crypto.sample (fun _ => 7) 1 Crypto.sampleKeyStore
    (ofOutputs [anyoneCanSpend, toSampleKey])
    { ofOutputs [anyoneCanSpend, toSampleKey] with vchBlockSig := 0x30 :: serializeUInt256 7 }
    (by decide) signsWhatVerifies_sample (by decide +kernel)
  revert haccepted
  decide +kernel

end BlockObject

end HyperStake
